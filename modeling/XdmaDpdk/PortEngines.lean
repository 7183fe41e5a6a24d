import XdmaDpdk.PortMoves

namespace XdmaDpdk

open Handles

/-!
# XDMA driver — the engines of a port

The engines behind a port are those of the histories of a single queue, but for the register
log, which they share (`PortReach.engine`): no call reads the log (`QueueCall.withRegs`), and
one queue's call leaves the engines of the others alone.  So what holds of an engine along
every history holds of every live engine of a port, whatever is done to the others
(`PortReach.engineInv`).
-/

/-- The engine with another register log. -/
def XdmaEngine.withRegs (e : XdmaEngine) (regs : List RegWrite) : XdmaEngine :=
  { e with regWrites := regs }

/-! ### No call reads the log -/

theorem foldl_withRegs {α : Type} (f : XdmaEngine → α → XdmaEngine)
    (hf : ∀ e a regs, f (e.withRegs regs) a = (f e a).withRegs regs) (l : List α)
    (e : XdmaEngine) (regs : List RegWrite) :
    l.foldl f (e.withRegs regs) = (l.foldl f e).withRegs regs := by
  induction l generalizing e with
  | nil => rfl
  | cons a l ih => rw [List.foldl_cons, List.foldl_cons, hf, ih]

theorem xmitLoop_withRegs (heap : Heap) (pkts : List MbufPtr) (avail : Nat) (e : XdmaEngine)
    (regs : List RegWrite) :
    xmitLoop heap pkts avail (e.withRegs regs)
      = ((xmitLoop heap pkts avail e).1, (xmitLoop heap pkts avail e).2.withRegs regs) := by
  rw [xmitLoop_eq, xmitLoop_eq]
  exact Prod.ext rfl (foldl_withRegs stageSeg (fun _ _ _ => rfl) _ e regs)

theorem xmitStage_withRegs (e : XdmaEngine) (b : TxBurst) (regs : List RegWrite) :
    xmitStage (e.withRegs regs) b = ((xmitStage e b).1, (xmitStage e b).2.withRegs regs) := by
  have hrun : { e.withRegs regs with running := true }
      = XdmaEngine.withRegs { e with running := true } regs := rfl
  simp only [xmitStage, hrun, xmitLoop_withRegs]
  rfl

theorem xmitStart_withRegs (e : XdmaEngine) (b : TxBurst) (regs : List RegWrite) :
    ∃ regs', xmitStart (e.withRegs regs) b
      = ((xmitStart e b).1, (xmitStart e b).2.withRegs regs') := by
  unfold xmitStart
  rw [xmitStage_withRegs]
  exact ⟨_, rfl⟩

theorem engineStopOf_withRegs (d : DmaDataDirection) (e : XdmaEngine) (regs : List RegWrite) :
    ∃ regs', engineStopOf d (e.withRegs regs) = (engineStopOf d e).withRegs regs' := by
  cases d <;> exact ⟨_, rfl⟩

theorem xdmaXmitPkts_withRegs (e : XdmaEngine) (b : TxBurst) (reads : List Nat)
    (regs : List RegWrite) {out : XmitResult} (hout : xdmaXmitPkts e b reads = some out) :
    ∃ regs', xdmaXmitPkts (e.withRegs regs) b reads
      = some { out with engine := out.engine.withRegs regs' } := by
  rcases xdmaXmitPkts_cases hout with ⟨hrun, rfl⟩ | ⟨hrun, hwait, rfl⟩
  · exact ⟨regs, xdmaXmitPkts_of_running b reads hrun⟩
  · -- The start appends to whatever log it finds, and so does the stop.
    obtain ⟨started, hstart⟩ := xmitStart_withRegs e b regs
    obtain ⟨regs', hstop⟩ := engineStopOf_withRegs .h2c (xmitStart e b).2 started
    have hrun' : (e.withRegs regs).running = false := hrun
    have hstop' : xdmaTxEngineStop ((xmitStart e b).2.withRegs started)
        = (xdmaTxEngineStop (xmitStart e b).2).withRegs regs' := hstop
    refine ⟨regs', ?_⟩
    rw [xdmaXmitPkts_of_idle b reads hrun', if_pos hwait, hstart]
    dsimp only
    rw [hstop']

theorem rxPost_withRegs (e : XdmaEngine) (m : RxMem) (n : Nat) (regs : List RegWrite) :
    rxPost (e.withRegs regs) m n = (rxPost e m n).withRegs regs :=
  foldl_withRegs (fun e i => xdmaC2hDescSet e (m.heap (m.arr i))) (fun _ _ _ => rfl) _ e regs

theorem rxArm_withRegs (e : XdmaEngine) (m : RxMem) (n : Nat) (regs : List RegWrite) :
    ∃ regs', (rxArm (e.withRegs regs) m n).2.1 = (rxArm e m n).2.1.withRegs regs' := by
  have hmax : (e.withRegs regs).descMax = e.descMax := rfl
  rw [rxArm_engine, rxArm_engine, hmax, rxPost_withRegs]
  exact ⟨_, rfl⟩

theorem rxCollect_withRegs (e : XdmaEngine) (m : RxMem) (n : Nat) (dev : RxDevice)
    (regs : List RegWrite) :
    ∃ regs', (rxCollect (e.withRegs regs) m n dev).engine
      = (rxCollect e m n dev).engine.withRegs regs' := by
  have hadv : ∀ word sample, rxAdvance (e.withRegs regs) word sample
      = (rxAdvance e word sample).withRegs regs := by
    intro word sample
    cases sample <;> rfl
  have hused : (e.withRegs regs).descUsed = e.descUsed := rfl
  have hused' : ∀ a : XdmaEngine, (a.withRegs regs).descUsed = a.descUsed := fun _ => rfl
  rw [rxCollect_engine, rxCollect_engine]
  simp only [hused, hadv, hused']
  split
  · -- All that was asked for is consumed: the engine stops.
    exact engineStopOf_withRegs .c2h _ regs
  · exact ⟨regs, rfl⟩

theorem xdmaRecvPkts_withRegs (e : XdmaEngine) (m : RxMem) (n : Nat) (dev : RxDevice)
    (regs : List RegWrite) :
    ∃ regs', (xdmaRecvPkts (e.withRegs regs) m n dev).engine
      = (xdmaRecvPkts e m n dev).engine.withRegs regs' := by
  have hclear : (e.withRegs regs).clearStatus = e.clearStatus.withRegs regs := rfl
  have hrun : (e.clearStatus.withRegs regs).running = e.clearStatus.running := rfl
  obtain ⟨regs', harm⟩ := rxArm_withRegs e.clearStatus m n regs
  unfold xdmaRecvPkts
  simp only [hclear, hrun, harm]
  split
  · -- An armed engine is only polled.
    exact rxCollect_withRegs e.clearStatus m n dev regs
  · -- An idle one is armed first, which leaves another log.
    exact rxCollect_withRegs (rxArm e.clearStatus m n).2.1 _ _ dev regs'

/-- **Calls** do not read the register log. -/
theorem QueueCall.withRegs {e e' : XdmaEngine} (h : QueueCall e e') (regs : List RegWrite) :
    ∃ regs', QueueCall (e.withRegs regs) (e'.withRegs regs') := by
  cases h with
  | recv m nbPkts dev hdir =>
    obtain ⟨regs', heq⟩ := xdmaRecvPkts_withRegs e m nbPkts dev regs
    exact ⟨regs', heq ▸ .recv m nbPkts dev hdir⟩
  | xmit b reads out hdir hout =>
    obtain ⟨regs', heq⟩ := xdmaXmitPkts_withRegs e b reads regs hout
    have hdir' : (e.withRegs regs).dir = .h2c := hdir
    exact ⟨regs', .xmit b reads _ hdir' heq⟩
  | stop =>
    obtain ⟨regs', heq⟩ := engineStopOf_withRegs e.dir e regs
    exact ⟨regs', heq ▸ .stop⟩

/-! ### Engines of a port -/

theorem EngineReach.call {virt2phy : Addr → Addr} {e e' : XdmaEngine}
    (h : EngineReach virt2phy e) (hcall : QueueCall e e') : EngineReach virt2phy e' := by
  cases hcall with
  | recv m nbPkts dev hdir => exact h.recv m nbPkts dev hdir
  | xmit b reads out hdir hout => exact h.xmit b reads out hdir hout
  | stop =>
    cases hdir : e.dir with
    | c2h => exact h.rxStop hdir
    | h2c => exact h.txStop hdir

/-- Every live engine is, with some register log, one of a history. -/
def EnginesReached (virt2phy : Addr → Addr) (A : Arena DevLog XdmaEngine) : Prop :=
  ∀ h e, A.cell h = some e → ∃ regs, EngineReach virt2phy (e.withRegs regs)

theorem EnginesReached.moves {virt2phy : Addr → Addr} {frees : Bool}
    {A B : Arena DevLog XdmaEngine} (h : Moves frees A B)
    (hA : EnginesReached virt2phy A) : EnginesReached virt2phy B := by
  induction h with
  | refl => exact hA
  | fault _ ih => exact ih
  | regs _ _ _ ih => exact ih
  | @call B k e e' _ hcell hcall ih =>
    intro j a hj
    by_cases hjk : j = k
    · subst hjk
      rw [Arena.put_cell_self] at hj
      -- The engine of the call: its history is one call longer.
      obtain rfl := Option.some.inj hj
      obtain ⟨regs, hreach⟩ := ih j e hcell
      obtain ⟨regs', hcall'⟩ := hcall.withRegs regs
      exact ⟨regs', hreach.call hcall'⟩
    · rw [Arena.put_cell_of_ne _ hjk] at hj
      exact ih j a hj
  | @free B k e _ _ _ ih =>
    intro j a hj
    by_cases hjk : j = k
    · -- The engine freed has no cell any more.
      rw [hjk, Arena.put_cell_self] at hj
      cases hj
    · rw [Arena.put_cell_of_ne _ hjk] at hj
      exact ih j a hj

section
variable {dpdk : Dpdk} {ok : Port → PortOp → Prop} {p : Port}

theorem engineReach_engineSetupOf {virt2phy : Addr → Addr} (dir : DmaDataDirection)
    (channelId : BitVec 16) (a : SetupAlloc) :
    EngineReach virt2phy (engineSetupOf virt2phy dir channelId a) := by
  cases dir with
  | c2h => exact .rxSetup channelId a
  | h2c => exact .txSetup channelId a

/-- **Run lemma.** The live engines of a port are engines of histories of their queue. -/
theorem PortReach.engine (h : PortReach dpdk ok p) : EnginesReached dpdk.virt2phy p.arena := by
  induction h with
  | probed => exact nofun
  | step op hreach _ _ hexec ih =>
    rcases exec_cases hreach.inv hexec with ⟨dir, channelId, a, -, -, -, rfl⟩ | hev
    · intro k e hk
      -- A set-up adds one engine, with a history of its own.
      rcases queueSetup_cell hk with ⟨-, rfl⟩ | hlive
      · exact ⟨_, engineReach_engineSetupOf dir channelId a⟩
      · exact ih k e hlive
    · exact ih.moves hev.moves

/-- What holds along the histories of one queue holds of every live engine of a port: its
    layout, its links and, while it is idle, its empty ring. -/
theorem PortReach.engineInv (h : PortReach dpdk ok p) {k : Nat} {e : XdmaEngine}
    (hcell : p.arena.cell k = some e) : EngineInv dpdk.virt2phy e := by
  obtain ⟨regs, hreach⟩ := h.engine k e hcell
  have hinv := hreach.inv
  refine ⟨hinv.layout, hinv.links, fun hrun => ?_⟩
  have hidle := hinv.idle hrun
  exact ⟨hidle.used, hidle.len, hidle.src, hidle.dst, hidle.clear⟩

end

end XdmaDpdk
