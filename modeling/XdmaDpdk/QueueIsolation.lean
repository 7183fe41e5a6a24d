import XdmaDpdk.PortEngines
import XdmaDpdk.PortClose
import XdmaDpdk.RxSystem

namespace XdmaDpdk

open Handles

/-!
# XDMA driver — the queues of a port do not interfere

All engines of a port share one set of registers, one function stops them all, and their
bursts interleave.  `queue_isolated`: over any sequence of operations that frees nothing, the
engine of a queue is the one its own bursts and stops lead to when nothing else happens, and
the registers of its channel are written by these and in their order.

* `QueueOp.run` — one burst or stop on an engine by itself; `QueueOp.run_withRegs`: what it
  writes does not depend on what was written before, and stays in the window of its channel;
* `Acts` — calls on the engines of an arena, with the log of which engine was called how
  (`Acts.isolated`);
* `Port.calls` — the calls an operation on the port makes (`exec_acts`).
-/

/-! ### One queue by itself -/

/-- What is done to the engine of a queue. -/
inductive QueueOp
  | recv (m : RxMem) (nbPkts : Nat) (dev : RxDevice)
  | xmit (b : TxBurst) (reads : List Nat)
  | stop

namespace QueueOp

/-- Bursts go to queues of their direction. -/
def Fits (dir : DmaDataDirection) : QueueOp → Prop
  | .recv _ _ _ => dir = .c2h
  | .xmit _ _ => dir = .h2c
  | .stop => True

/-- The engine afterwards; `none` when a transmit burst does not return. -/
def run (e : XdmaEngine) : QueueOp → Option XdmaEngine
  | .recv m nbPkts dev => some (xdmaRecvPkts e m nbPkts dev).engine
  | .xmit b reads => (xdmaXmitPkts e b reads).map XmitResult.engine
  | .stop => some (engineStopOf e.dir e)

/-- One after the other. -/
def runs (e : XdmaEngine) (qs : List QueueOp) : Option XdmaEngine := qs.foldlM run e

theorem runs_append (e : XdmaEngine) (qs qs' : List QueueOp) :
    runs e (qs ++ qs') = (runs e qs).bind fun e' => runs e' qs' := by
  unfold runs
  rw [List.foldlM_append]
  rfl

end QueueOp

/-! ### The registers of a channel -/

/-- The first of the two blocks of registers of a direction, counted in windows of 0x100. -/
def windowBase : DmaDataDirection → Nat
  | .h2c => 0x00
  | .c2h => 0x10

/-- The offsets of a channel's own registers: its window among the channel registers and its
    window among the SGDMA registers. -/
def inWindow (dir : DmaDataDirection) (channel : BitVec 2) (offset : Nat) : Bool :=
  offset / 0x100 == windowBase dir + channel.toNat
    || offset / 0x100 == windowBase dir + 0x40 + channel.toNat

/-- The writes to a channel's own registers. -/
def windowWrites (dir : DmaDataDirection) (channel : BitVec 2) (regs : List RegWrite) :
    List RegWrite := regs.filter fun w => inWindow dir channel w.offset

/-- No register is in the windows of two channels. -/
theorem inWindow_inj {dir dir' : DmaDataDirection} {c c' : BitVec 2} {offset : Nat}
    (h : inWindow dir c offset = true) (h' : inWindow dir' c' offset = true) :
    dir = dir' ∧ c = c' := by
  have hc := c.isLt
  have hc' := c'.isLt
  simp only [inWindow, Bool.or_eq_true, beq_iff_eq] at h h'
  cases dir <;> cases dir' <;> simp only [windowBase] at h h'
  · exact ⟨rfl, BitVec.eq_of_toNat_eq (by omega)⟩
  · omega
  · omega
  · exact ⟨rfl, BitVec.eq_of_toNat_eq (by omega)⟩

/-- A register of a block, in the window of its channel. -/
theorem inWindow_add {dir : DmaDataDirection} {base : Nat}
    (hbase : base / 0x100 = windowBase dir ∨ base / 0x100 = windowBase dir + 0x40)
    (channel : BitVec 2) : inWindow dir channel (base + channel.toNat * 0x100) = true := by
  simp only [inWindow, Bool.or_eq_true, beq_iff_eq]
  rw [Nat.add_mul_div_right _ _ (by decide)]
  omega

@[simp] theorem windowWrites_append (dir : DmaDataDirection) (channel : BitVec 2)
    (regs ws : List RegWrite) :
    windowWrites dir channel (regs ++ ws)
      = windowWrites dir channel regs ++ windowWrites dir channel ws := List.filter_append ..

/-- The writes are in the window. -/
def Within (dir : DmaDataDirection) (channel : BitVec 2) (ws : List RegWrite) : Prop :=
  ∀ w ∈ ws, inWindow dir channel w.offset = true

theorem Within.append {dir : DmaDataDirection} {channel : BitVec 2} {ws ws' : List RegWrite}
    (h : Within dir channel ws) (h' : Within dir channel ws') : Within dir channel (ws ++ ws') :=
  List.forall_mem_append.mpr ⟨h, h'⟩

theorem Within.windowWrites_eq {dir : DmaDataDirection} {channel : BitVec 2} {ws : List RegWrite}
    (h : Within dir channel ws) : windowWrites dir channel ws = ws :=
  List.filter_eq_self.mpr h

/-- Writes in another channel's window are none of this one's. -/
theorem Within.windowWrites_nil {dir dir' : DmaDataDirection} {channel channel' : BitVec 2}
    {ws : List RegWrite} (h : Within dir' channel' ws) (hne : ¬ (dir' = dir ∧ channel' = channel)) :
    windowWrites dir channel ws = [] := by
  apply List.filter_eq_nil_iff.mpr
  intro w hw hin
  exact hne (inWindow_inj (h w hw) hin)

/-! ### What a call writes -/

/-- `f` adds `ws` to the register log, in the window of the engine's channel, and reads
    nothing there. -/
structure Writes (f : XdmaEngine → XdmaEngine) (e : XdmaEngine) (ws : List RegWrite) : Prop where
  log : ∀ regs, f (e.withRegs regs) = (f e).withRegs (regs ++ ws)
  within : Within e.dir e.channel ws

/-- The registers a transmit start writes. -/
def txStartWrites (e : XdmaEngine) (addr : Addr) (adj : Int) : List RegWrite :=
  let chan := e.channel.toNat * 0x100
  [⟨h2cSgdmaDescLoAddr + chan, lo32 (addr + e.virt2phyOffset)⟩,
    ⟨h2cSgdmaDescHiAddr + chan, hi32 (addr + e.virt2phyOffset)⟩,
    ⟨h2cSgdmaDescAdj + chan, BitVec.ofInt 32 (if adj > 0 then adj else 0)⟩,
    ⟨h2cPollModeLoWbAddr + chan, lo32 (e.pollModeAddrVirt + e.virt2phyOffset)⟩,
    ⟨h2cPollModeHiWbAddr + chan, hi32 (e.pollModeAddrVirt + e.virt2phyOffset)⟩,
    ⟨h2cChannelCtrl + chan, ctrlRunStop ||| ctrlFlags⟩]

/-- The registers a receive start writes. -/
def rxStartWrites (e : XdmaEngine) (addr : Addr) : List RegWrite :=
  let chan := e.channel.toNat * 0x100
  [⟨c2hSgdmaDescLoAddr + chan, lo32 (addr + e.virt2phyOffset)⟩,
    ⟨c2hSgdmaDescHiAddr + chan, hi32 (addr + e.virt2phyOffset)⟩,
    ⟨c2hPollModeLoWbAddr + chan, lo32 (e.pollModeAddrVirt + e.virt2phyOffset)⟩,
    ⟨c2hPollModeHiWbAddr + chan, hi32 (e.pollModeAddrVirt + e.virt2phyOffset)⟩,
    ⟨c2hChannelCtrl + chan, ctrlRunStop ||| ctrlFlags⟩]

theorem xdmaTxEngineStart_eq (e : XdmaEngine) (addr : Addr) (adj : Int) :
    xdmaTxEngineStart e addr adj
      = { e with running := true, regWrites := e.regWrites ++ txStartWrites e addr adj } := by
  simp [xdmaTxEngineStart, xdmaRegWrite, txStartWrites]

theorem xdmaRxEngineStart_eq (e : XdmaEngine) (addr : Addr) :
    xdmaRxEngineStart e addr
      = { e with running := true, regWrites := e.regWrites ++ rxStartWrites e addr } := by
  simp [xdmaRxEngineStart, xdmaRegWrite, rxStartWrites]

section
variable {e : XdmaEngine} {f g : XdmaEngine → XdmaEngine} {ws ws' : List RegWrite}

/-- A function that leaves the log alone. -/
theorem Writes.quiet (h : ∀ regs, f (e.withRegs regs) = (f e).withRegs regs) : Writes f e [] where
  log regs := by rw [List.append_nil, h]
  within := nofun

theorem Writes.comp (hf : Writes f e ws) (hg : Writes g (f e) ws')
    (hlay : (f e).layout = e.layout) : Writes (fun e => g (f e)) e (ws ++ ws') where
  log regs := by
    show g (f (e.withRegs regs)) = _
    rw [hf.log, hg.log, List.append_assoc]
  within := by
    have hwithin := hg.within
    rw [dir_of_layout hlay, channel_of_layout hlay] at hwithin
    exact hf.within.append hwithin

theorem writes_txStart (hdir : e.dir = .h2c) (addr : Addr) (adj : Int) :
    Writes (fun e => xdmaTxEngineStart e addr adj) e (txStartWrites e addr adj) where
  log regs := by
    show xdmaTxEngineStart _ addr adj = (xdmaTxEngineStart e addr adj).withRegs _
    rw [xdmaTxEngineStart_eq, xdmaTxEngineStart_eq]
    rfl
  within := by
    rw [hdir]
    intro w hw
    simp only [txStartWrites, List.mem_cons, List.not_mem_nil, or_false] at hw
    rcases hw with rfl | rfl | rfl | rfl | rfl | rfl <;> exact inWindow_add (by decide) e.channel

theorem writes_rxStart (hdir : e.dir = .c2h) (addr : Addr) :
    Writes (fun e => xdmaRxEngineStart e addr) e (rxStartWrites e addr) where
  log regs := by
    show xdmaRxEngineStart _ addr = (xdmaRxEngineStart e addr).withRegs _
    rw [xdmaRxEngineStart_eq, xdmaRxEngineStart_eq]
    rfl
  within := by
    rw [hdir]
    intro w hw
    simp only [rxStartWrites, List.mem_cons, List.not_mem_nil, or_false] at hw
    rcases hw with rfl | rfl | rfl | rfl | rfl <;> exact inWindow_add (by decide) e.channel

theorem writes_engineStopOf {dir : DmaDataDirection} (hdir : e.dir = dir) :
    Writes (engineStopOf dir) e [⟨channelCtrl dir + e.channel.toNat * 0x100, ctrlFlags⟩] where
  log regs := by cases dir <;> rfl
  within := by
    rw [hdir]
    intro w hw
    rw [List.mem_singleton.mp hw]
    cases dir <;> exact inWindow_add (by decide) e.channel

theorem writes_xmitStart (hdir : e.dir = .h2c) (b : TxBurst) :
    ∃ ws, Writes (fun e => (xmitStart e b).2) e ws := by
  have hstage : Writes (fun e => (xmitStage e b).2) e [] :=
    Writes.quiet fun regs => by rw [xmitStage_withRegs]
  have hdir' : (xmitStage e b).2.dir = .h2c := (frame_xmitStage e b).dir.trans hdir
  have hstart := writes_txStart hdir' ((xmitStage e b).2.descAddr 0)
    (((xmitStage e b).1.length : Int) - 2)
  refine ⟨_, ⟨fun regs => ?_, (hstage.comp hstart (frame_xmitStage e b).layout).within⟩⟩
  -- The address and the count the start is given do not come from the log.
  show (xmitStart (e.withRegs regs) b).2 = _
  rw [xmitStart_engine, xmitStage_withRegs]
  exact (hstart.log regs).trans rfl

theorem writes_rxArm (hdir : e.dir = .c2h) (m : RxMem) (nbPkts : Nat) :
    ∃ ws, Writes (fun e => (rxArm e m nbPkts).2.1) e ws := by
  have hpost : Writes (fun e => rxPost e m (min nbPkts e.descMax)) e [] :=
    Writes.quiet fun regs => rxPost_withRegs e m (min nbPkts e.descMax) regs
  have hframe := frame_rxPost e m (min nbPkts e.descMax)
  have hdir' : (rxPost e m (min nbPkts e.descMax)).dir = .c2h := hframe.dir.trans hdir
  have hstart := writes_rxStart hdir' ((rxPost e m (min nbPkts e.descMax)).descAddr 0)
  refine ⟨_, ⟨fun regs => ?_, (hpost.comp hstart hframe.layout).within⟩⟩
  have hmax : (e.withRegs regs).descMax = e.descMax := rfl
  show (rxArm (e.withRegs regs) m nbPkts).2.1 = _
  rw [rxArm_engine, hmax, rxPost_withRegs]
  exact (hstart.log regs).trans rfl

theorem writes_rxCollect (hdir : e.dir = .c2h) (m : RxMem) (n : Nat) (dev : RxDevice) :
    ∃ ws, Writes (fun e => (rxCollect e m n dev).engine) e ws := by
  let r := rxPoll e.descUsed dev.reads rxRetries 0
  let advance := fun e : XdmaEngine => rxAdvance e (dev.reads r.2).2 r.1
  have hlog : ∀ regs, advance (e.withRegs regs) = (advance e).withRegs regs := by
    intro regs
    show rxAdvance _ _ r.1 = (rxAdvance _ _ r.1).withRegs regs
    cases r.1 <;> rfl
  have hlay : (advance e).layout = e.layout := by
    show (rxAdvance e _ r.1).layout = _
    cases r.1 <;> rfl
  have hadvance : Writes advance e [] := Writes.quiet hlog
  have heng : ∀ regs, (rxCollect (e.withRegs regs) m n dev).engine
      = if (advance e).descUsed = n then engineStopOf .c2h (advance (e.withRegs regs))
        else advance (e.withRegs regs) := by
    intro regs
    have hused : (advance (e.withRegs regs)).descUsed = (advance e).descUsed := by
      rw [hlog]
      rfl
    rw [rxCollect_engine, ← hused]
    rfl
  have heng' : (rxCollect e m n dev).engine
      = if (advance e).descUsed = n then engineStopOf .c2h (advance e) else advance e :=
    rxCollect_engine e m n dev
  by_cases hstop : (advance e).descUsed = n
  · -- All that was asked for is consumed: the stop writes the control register.
    have hwrites := hadvance.comp (writes_engineStopOf ((dir_of_layout hlay).trans hdir)) hlay
    refine ⟨_, ⟨fun regs => ?_, hwrites.within⟩⟩
    show (rxCollect (e.withRegs regs) m n dev).engine = (rxCollect e m n dev).engine.withRegs _
    rw [heng, heng', if_pos hstop, if_pos hstop]
    exact hwrites.log regs
  · refine ⟨[], ⟨fun regs => ?_, nofun⟩⟩
    show (rxCollect (e.withRegs regs) m n dev).engine = (rxCollect e m n dev).engine.withRegs _
    rw [heng, heng', if_neg hstop, if_neg hstop]
    exact hadvance.log regs

theorem writes_xdmaRecvPkts (hdir : e.dir = .c2h) (m : RxMem) (n : Nat) (dev : RxDevice) :
    ∃ ws, Writes (fun e => (xdmaRecvPkts e m n dev).engine) e ws := by
  have hdir' : e.clearStatus.dir = .c2h := hdir
  cases hrun : e.running with
  | true =>
    -- An armed engine is polled, and at most stopped.
    obtain ⟨ws, hcollect⟩ := writes_rxCollect hdir' m n dev
    refine ⟨ws, ⟨fun regs => ?_, hcollect.within⟩⟩
    show (xdmaRecvPkts (e.withRegs regs) m n dev).engine
      = (xdmaRecvPkts e m n dev).engine.withRegs _
    have hrun' : (e.withRegs regs).running = true := hrun
    rw [xdmaRecvPkts_eq, xdmaRecvPkts_eq, rxEnter_of_running _ _ _ hrun,
      rxEnter_of_running _ _ _ hrun']
    exact hcollect.log regs
  | false =>
    -- An idle one is started first.
    obtain ⟨ws, harm⟩ := writes_rxArm hdir' m n
    have hframe := frame_rxArm e.clearStatus m n
    obtain ⟨ws', hcollect⟩ := writes_rxCollect (hframe.dir.trans hdir')
      (rxArm e.clearStatus m n).2.2 (rxArm e.clearStatus m n).1 dev
    refine ⟨ws ++ ws', ⟨fun regs => ?_, (harm.comp hcollect hframe.layout).within⟩⟩
    show (xdmaRecvPkts (e.withRegs regs) m n dev).engine
      = (xdmaRecvPkts e m n dev).engine.withRegs _
    have hrun' : (e.withRegs regs).running = false := hrun
    rw [xdmaRecvPkts_eq, xdmaRecvPkts_eq, rxEnter_of_idle _ _ _ hrun, rxEnter_of_idle _ _ _ hrun']
    exact (harm.comp hcollect hframe.layout).log regs

/-- **Calls** write the registers of their own channel, and read none. -/
theorem QueueOp.run_withRegs {q : QueueOp} {e' : XdmaEngine} (hfits : q.Fits e.dir)
    (h : q.run e = some e') :
    e'.layout = e.layout ∧ ∃ ws, Within e.dir e.channel ws ∧
      ∀ regs, q.run (e.withRegs regs) = some (e'.withRegs (regs ++ ws)) := by
  cases q with
  | recv m nbPkts dev =>
    obtain rfl := Option.some.inj h
    obtain ⟨ws, hwrites⟩ := writes_xdmaRecvPkts hfits m nbPkts dev
    exact ⟨(frame_xdmaRecvPkts e m nbPkts dev).layout, ws, hwrites.within,
      fun regs => congrArg some (hwrites.log regs)⟩
  | xmit b reads =>
    obtain ⟨out, hout, rfl⟩ := Option.map_eq_some_iff.mp h
    refine ⟨(frame_xdmaXmitPkts e b reads out hout).layout, ?_⟩
    rcases xdmaXmitPkts_cases hout with ⟨hrun, rfl⟩ | ⟨hrun, hwait, rfl⟩
    · -- A busy engine is left alone.
      refine ⟨[], nofun, fun regs => ?_⟩
      have hrun' : (e.withRegs regs).running = true := hrun
      show (xdmaXmitPkts _ b reads).map XmitResult.engine = _
      rw [xdmaXmitPkts_of_running b reads hrun', List.append_nil]
      rfl
    · -- Start, wait and stop.
      obtain ⟨ws, hstart⟩ := writes_xmitStart hfits b
      have hframe := frame_xmitStart e b
      have hwrites := hstart.comp (writes_engineStopOf (hframe.dir.trans hfits)) hframe.layout
      refine ⟨_, hwrites.within, fun regs => ?_⟩
      have hrun' : (e.withRegs regs).running = false := hrun
      show (xdmaXmitPkts _ b reads).map XmitResult.engine = _
      rw [xdmaXmitPkts_of_idle b reads hrun', if_pos hwait]
      exact congrArg some (hwrites.log regs)
  | stop =>
    obtain rfl := Option.some.inj h
    have hwrites := writes_engineStopOf (e := e) rfl
    exact ⟨layout_engineStopOf e.dir e, _, hwrites.within,
      fun regs => congrArg some (hwrites.log regs)⟩

end

/-! ### Calls on the engines of an arena -/

/-- Calls on the engines of an arena; in between other registers may be written, and engines
    of other names added. -/
inductive Acts (A : Arena DevLog XdmaEngine) :
    List (Nat × QueueOp) → Arena DevLog XdmaEngine → Prop
  | refl : Acts A [] A
  | call {l : List (Nat × QueueOp)} {B : Arena DevLog XdmaEngine} {h : Nat} {q : QueueOp}
      {e e' : XdmaEngine} : Acts A l B → B.cell h = some e → q.Fits e.dir →
      q.run (e.on B.env) = some e' → Acts A (l ++ [(h, q)]) (B.put h (settle B.env e'))
  | regs {l : List (Nat × QueueOp)} {B : Arena DevLog XdmaEngine} (ws : List RegWrite) :
      Acts A l B → (∀ dir c, windowWrites dir c ws = []) →
      Acts A l { B with env := { B.env with regs := B.env.regs ++ ws } }
  | setup {l : List (Nat × QueueOp)} {B : Arena DevLog XdmaEngine} {h : Nat} {e' : XdmaEngine} :
      Acts A l B → B.cell h = none →
      (∀ k e, B.cell k = some e → ¬ (e.dir = e'.dir ∧ e.channel = e'.channel)) →
      Acts A l (B.put h (B.env, some e'))

/-- The calls on one engine. -/
def callsOn (k : Nat) (l : List (Nat × QueueOp)) : List QueueOp :=
  (l.filter fun c => c.1 == k).map Prod.snd

@[simp] theorem callsOn_append (k : Nat) (l l' : List (Nat × QueueOp)) :
    callsOn k (l ++ l') = callsOn k l ++ callsOn k l' := by
  simp [callsOn]

/-- The engine is the one the operations `qs` lead to by themselves, and these made the
    writes that the registers of its channel have seen since `regs`. -/
structure Isolated (e : XdmaEngine) (regs : List RegWrite) (qs : List QueueOp) (k : Nat)
    (B : Arena DevLog XdmaEngine) : Prop where
  alone : ∃ solo log, QueueOp.runs (e.withRegs []) qs = some solo ∧ solo.layout = e.layout ∧
    B.cell k = some (solo.withRegs log) ∧
    windowWrites e.dir e.channel B.env.regs
      = windowWrites e.dir e.channel regs ++ solo.regWrites

section
variable {A B : Arena DevLog XdmaEngine} {l : List (Nat × QueueOp)} {k : Nat} {e : XdmaEngine}

/-- Names stay apart. -/
theorem Acts.namesApart (h : Acts A l B) (hA : NamesApart A) : NamesApart B := by
  induction h with
  | refl => exact hA
  | @call l B j q a a' _ hcell hfits hrun ih =>
    have hlay : a'.layout = a.layout := (QueueOp.run_withRegs (e := a.on B.env) hfits hrun).1
    apply ih.kept (CellsKept.put hcell _ _)
    intro e' he'
    obtain rfl := Option.some.inj he'
    exact hlay
  | regs ws _ _ ih => exact ih
  | @setup l B j a _ _ hfree ih =>
    intro m b m' b' hm hm' hdir hchan
    by_cases hmj : m = j <;> by_cases hmj' : m' = j
    · rw [hmj, hmj']
    · -- The new engine and an old one.
      rw [hmj, Arena.put_cell_self] at hm
      rw [Arena.put_cell_of_ne _ hmj'] at hm'
      obtain rfl := Option.some.inj hm
      exact absurd ⟨hdir.symm, hchan.symm⟩ (hfree m' b' hm')
    · rw [Arena.put_cell_of_ne _ hmj] at hm
      rw [hmj', Arena.put_cell_self] at hm'
      obtain rfl := Option.some.inj hm'
      exact absurd ⟨hdir, hchan⟩ (hfree m b hm)
    · rw [Arena.put_cell_of_ne _ hmj] at hm
      rw [Arena.put_cell_of_ne _ hmj'] at hm'
      exact ih m b m' b' hm hm' hdir hchan

theorem QueueOp.runs_singleton (e : XdmaEngine) (q : QueueOp) : QueueOp.runs e [q] = q.run e := by
  simp [QueueOp.runs]

/-- A call on the engine itself. -/
theorem Isolated.own {regs : List RegWrite} {qs : List QueueOp} (h : Isolated e regs qs k B)
    {q : QueueOp} {a a' : XdmaEngine} (hcell : B.cell k = some a) (hfits : q.Fits a.dir)
    (hrun : q.run (a.on B.env) = some a') :
    Isolated e regs (qs ++ [q]) k (B.put k (settle B.env a')) := by
  obtain ⟨solo, log, hruns, hlay, hsolo, hwin⟩ := h.alone
  obtain rfl := Option.some.inj (hsolo.symm.trans hcell)
  obtain ⟨hlay', ws, hwithin, hlog⟩ :=
    QueueOp.run_withRegs (e := (solo.withRegs log).on B.env) hfits hrun
  -- The same call on the engine by itself, and on the log of the port.
  have halone : q.run solo = some (a'.withRegs (solo.regWrites ++ ws)) := hlog solo.regWrites
  have hport : a'.regWrites = B.env.regs ++ ws := by
    have heq := Option.some.inj (hrun.symm.trans (hlog B.env.regs))
    exact congrArg XdmaEngine.regWrites heq
  have hlaye : a'.layout = e.layout := hlay'.trans hlay
  have hwithin' : Within e.dir e.channel ws := by
    rw [← dir_of_layout hlay, ← channel_of_layout hlay]
    exact hwithin
  refine ⟨a'.withRegs (solo.regWrites ++ ws), a'.regWrites, ?_, hlaye, ?_, ?_⟩
  · rw [QueueOp.runs_append, hruns]
    exact (QueueOp.runs_singleton solo q).trans halone
  · rw [Arena.put_cell_self]
    rfl
  · show windowWrites e.dir e.channel a'.regWrites = _
    rw [hport, windowWrites_append, hwin, hwithin'.windowWrites_eq, List.append_assoc]
    rfl

/-- A call on another engine. -/
theorem Isolated.other {regs : List RegWrite} {qs : List QueueOp} (h : Isolated e regs qs k B)
    (hB : NamesApart B) {j : Nat} (hne : j ≠ k) {q : QueueOp} {a a' : XdmaEngine}
    (hcell : B.cell j = some a) (hfits : q.Fits a.dir) (hrun : q.run (a.on B.env) = some a') :
    Isolated e regs qs k (B.put j (settle B.env a')) := by
  obtain ⟨solo, log, hruns, hlay, hsolo, hwin⟩ := h.alone
  obtain ⟨-, ws, hwithin, hlog⟩ := QueueOp.run_withRegs (e := a.on B.env) hfits hrun
  have hport : a'.regWrites = B.env.regs ++ ws := by
    have heq := Option.some.inj (hrun.symm.trans (hlog B.env.regs))
    exact congrArg XdmaEngine.regWrites heq
  -- Its name is another one, and so is its window.
  have hname : ¬ (a.dir = e.dir ∧ a.channel = e.channel) := by
    rintro ⟨hdir, hchan⟩
    apply hne
    apply hB j a k _ hcell hsolo
    · rw [hdir, ← dir_of_layout hlay]
      rfl
    · rw [hchan, ← channel_of_layout hlay]
      rfl
  have hnil : windowWrites e.dir e.channel ws = [] := hwithin.windowWrites_nil hname
  refine ⟨solo, log, hruns, hlay, ?_, ?_⟩
  · rw [Arena.put_cell_of_ne _ hne.symm, hsolo]
  · show windowWrites e.dir e.channel a'.regWrites = _
    rw [hport, windowWrites_append, hnil, List.append_nil, hwin]

/-- **Isolation in the arena.** -/
theorem Acts.isolated (h : Acts A l B) (hA : NamesApart A) (hcell : A.cell k = some e) :
    Isolated e A.env.regs (callsOn k l) k B := by
  induction h with
  | refl => exact ⟨e.withRegs [], e.regWrites, rfl, rfl, hcell, (List.append_nil _).symm⟩
  | @call l B j q a a' hacts hj hfits hrun ih =>
    by_cases hjk : j = k
    · subst hjk
      -- A call of its own.
      have hone : callsOn j [(j, q)] = [q] := by simp [callsOn]
      rw [callsOn_append, hone]
      exact ih.own hj hfits hrun
    · -- A call of another engine leaves it, and its window, alone.
      have hnone : callsOn k [(j, q)] = [] := by simp [callsOn, hjk]
      rw [callsOn_append, hnone, List.append_nil]
      exact ih.other (hacts.namesApart hA) hjk hj hfits hrun
  | @regs l B ws _ hws ih =>
    obtain ⟨solo, log, hruns, hlay, hsolo, hwin⟩ := ih.alone
    refine ⟨solo, log, hruns, hlay, hsolo, ?_⟩
    show windowWrites e.dir e.channel (B.env.regs ++ ws) = _
    rw [windowWrites_append, hws, List.append_nil, hwin]
  | @setup l B j a _ hdead _ ih =>
    obtain ⟨solo, log, hruns, hlay, hsolo, hwin⟩ := ih.alone
    have hne : k ≠ j := by
      rintro rfl
      exact Option.some_ne_none _ (hsolo.symm.trans hdead)
    exact ⟨solo, log, hruns, hlay, by rw [Arena.put_cell_of_ne _ hne, hsolo], hwin⟩

end

/-! ### Operations on the port -/

/-- The handles `xdma_dev_stop` goes through. -/
def Port.stopped (p : Port) : List Nat := handles (p.slots .h2c ++ p.slots .c2h)

/-- The calls an operation that frees nothing makes on the engines of the port. -/
def Port.calls (p : Port) : PortOp → List (Nat × QueueOp)
  | .recv queue m nbPkts dev => (p.queues .c2h queue).toList.map fun h => (h, .recv m nbPkts dev)
  | .xmit queue b reads => (p.queues .h2c queue).toList.map fun h => (h, .xmit b reads)
  | .devStop => p.stopped.map fun h => (h, .stop)
  | .ethStop => if p.devStarted then p.stopped.map fun h => (h, .stop) else []
  | _ => []

section
variable {dpdk : Dpdk} {p p' : Port}

/-- The stop loops call every engine they come to. -/
theorem acts_sweep {A B : Arena DevLog XdmaEngine} {l : List (Nat × QueueOp)}
    {slots : List (DmaDataDirection × Option Nat)} (h : Acts A l B) (hlab : Labelled B slots)
    (hf : (B.sweep stopQueue slots).faulted = false) :
    Acts A (l ++ (handles slots).map fun k => (k, .stop)) (B.sweep stopQueue slots) := by
  induction slots generalizing B l with
  | nil =>
    show Acts A (l ++ []) B
    rw [List.append_nil]
    exact h
  | cons s slots ih =>
    rw [Arena.sweep_cons] at hf ⊢
    cases hB : B.faulted with
    | true =>
      rw [Arena.touch_of_faulted hB, Arena.sweep_of_faulted hB] at hf
      exact absurd (hB.symm.trans hf) (by decide)
    | false =>
      cases hget : B.get s.2 with
      | none =>
        -- A slot without engine would have faulted.
        rw [Arena.touch_of_dead hB hget, Arena.sweep_of_faulted rfl] at hf
        cases hf
      | some r =>
        obtain ⟨hslot, hcell⟩ := Arena.get_eq_some.mp hget
        have hdir : r.2.dir = s.1 := hlab s (List.mem_cons_self ..) r.1 r.2 hslot hcell
        have hrun : QueueOp.stop.run (r.2.on B.env) = some (engineStopOf s.1 (r.2.on B.env)) := by
          rw [← hdir]
          rfl
        have hfits : QueueOp.stop.Fits r.2.dir := trivial
        have hcall := h.call hcell hfits hrun
        rw [Arena.touch_of_live hB hget] at hf ⊢
        have hhandles : handles (s :: slots) = r.1 :: handles slots :=
          List.filterMap_cons_some hslot
        rw [hhandles, List.map_cons, List.append_cons]
        refine ih hcall ?_ hf
        -- Later slots lead to engines of their direction as before.
        have hkept : CellsKept B (B.put r.1 (settle B.env (engineStopOf s.1 (r.2.on B.env)))) := by
          apply CellsKept.put hcell
          intro e' he'
          obtain rfl := Option.some.inj he'
          exact layout_engineStopOf s.1 _
        exact fun t ht => Labelled.kept (fun u hu => hlab u (List.mem_cons_of_mem s hu)) hkept t ht

theorem acts_devStop (hinv : PortInv p) (hf : (xdmaDevStop p).arena.faulted = false) :
    Acts p.arena (p.stopped.map fun h => (h, .stop)) (xdmaDevStop p).arena := by
  have harena : (xdmaDevStop p).arena = p.arena.sweep stopQueue (p.slots .h2c ++ p.slots .c2h) :=
    (Arena.sweep_append ..).symm
  rw [harena] at hf ⊢
  exact acts_sweep .refl ((hinv.labelled .h2c).append (hinv.labelled .c2h)) hf

/-- The interrupt masks belong to no channel. -/
theorem acts_devStart (p : Port) : Acts p.arena [] (xdmaDevStart p).arena := by
  apply Acts.refl.regs
  intro dir c
  have hc := c.isLt
  -- They are in the window at 0x2000, of the interrupts.
  have hnone : ∀ offset, offset / 0x100 = 0x20 → inWindow dir c offset = false := by
    intro offset hoff
    simp only [inWindow, hoff, Bool.or_eq_false_iff, beq_eq_false_iff_ne]
    cases dir <;> simp only [windowBase] <;> omega
  simp only [windowWrites, List.filter_cons,
    hnone _ (rfl : irqUserInterruptEnableMaskW1s / 0x100 = 0x20),
    hnone _ (rfl : irqChannelInterruptEnableMaskW1s / 0x100 = 0x20)]
  rfl

/-- A burst calls the engine of its slot. -/
theorem acts_burstOn (hinv : PortInv p) {dir : DmaDataDirection} {queue : Nat} {q : QueueOp}
    {burst : XdmaEngine → Option XdmaEngine} (hburst : ∀ e, e.dir = dir → q.run e = burst e)
    (hfits : q.Fits dir) (h : burstOn p dir queue burst = some p') :
    Acts p.arena ((p.queues dir queue).toList.map fun k => (k, q)) p'.arena := by
  obtain ⟨k, e, e', hslot, hcell, hb, rfl⟩ := burstOn_cases h
  have hdir : e.dir = dir := (hinv.slot_engine hslot hcell).1
  rw [hslot]
  exact Acts.refl.call hcell (hdir ▸ hfits) ((hburst (e.on p.arena.env) hdir).trans hb)

/-- **Operations** that free nothing make the calls of `Port.calls` and no others. -/
theorem exec_acts {op : PortOp} (hinv : PortInv p) (hop : op.closes = false)
    (h : p.exec dpdk op = some p') (hf : p'.arena.faulted = false) :
    Acts p.arena (p.calls op) p'.arena := by
  cases op with
  | configure nbRx nbTx =>
    rw [exec_configure] at h
    obtain ⟨-, rfl⟩ := allowed_of_some h
    exact .refl
  | queueSetup dir channelId a =>
    rw [exec_queueSetup] at h
    obtain ⟨hok, rfl⟩ := allowed_of_some h
    -- A new handle, under a name that is not in use.
    refine Acts.refl.setup ?_ ?_
    · cases hc : p.arena.cell p.nextHandle with
      | none => rfl
      | some e => exact absurd (hinv.cell_lt hc) (lt_irrefl _)
    · intro k e hk
      rw [dir_engineSetupOf, channel_engineSetupOf]
      exact not_zoneTaken hinv hok.2.2 hk
  | devStart =>
    obtain rfl := Option.some.inj h
    exact acts_devStart p
  | ethStart =>
    rw [exec_ethStart] at h
    obtain ⟨-, rfl⟩ := allowed_of_some h
    unfold Port.started
    split
    · exact .refl
    · exact acts_devStart p
  | recv queue m nbPkts dev => exact acts_burstOn hinv (fun _ _ => rfl) rfl h
  | xmit queue b reads => exact acts_burstOn hinv (fun _ _ => rfl) rfl h
  | devStop =>
    obtain rfl := Option.some.inj h
    exact acts_devStop hinv hf
  | ethStop =>
    rw [exec_ethStop] at h
    obtain ⟨-, rfl⟩ := allowed_of_some h
    show Acts p.arena (if p.devStarted then p.stopped.map fun h => (h, .stop) else []) _
    unfold Port.halted at hf ⊢
    by_cases hstart : p.devStarted = true
    · rw [if_pos hstart] at hf ⊢
      rw [if_pos hstart]
      have hstop := acts_devStop (hinv.started false) hf
      exact hstop
    · rw [if_neg hstart, if_neg hstart]
      exact .refl
  | pmdClose => cases hop
  | devClose => cases hop
  | devUninit => cases hop

theorem Acts.trans {A B C : Arena DevLog XdmaEngine} {l l' : List (Nat × QueueOp)}
    (h : Acts A l B) (h' : Acts B l' C) : Acts A (l ++ l') C := by
  induction h' with
  | refl =>
    rw [List.append_nil]
    exact h
  | call _ hcell hfits hrun ih =>
    rw [← List.append_assoc]
    exact ih.call hcell hfits hrun
  | regs ws _ hws ih => exact ih.regs ws hws
  | setup _ hdead hfree ih => exact ih.setup hdead hfree

end

/-! ### Sequences of operations -/

/-- Operations that free nothing and do not fault, with the calls they make. -/
inductive PortTrace (dpdk : Dpdk) (p : Port) : List (Nat × QueueOp) → Port → Prop
  | refl : PortTrace dpdk p [] p
  | step {l : List (Nat × QueueOp)} {p₁ p₂ : Port} (op : PortOp) : PortTrace dpdk p l p₁ →
      op.closes = false → p₁.exec dpdk op = some p₂ → p₂.arena.faulted = false →
      PortTrace dpdk p (l ++ p₁.calls op) p₂

section
variable {dpdk : Dpdk} {p p' : Port} {l : List (Nat × QueueOp)}

theorem PortTrace.acts (h : PortTrace dpdk p l p') (hinv : PortInv p) :
    PortInv p' ∧ Acts p.arena l p'.arena := by
  induction h with
  | refl => exact ⟨hinv, .refl⟩
  | step op _ hop hexec hf ih =>
    obtain ⟨hinv', hacts⟩ := ih
    exact ⟨hinv'.step hexec, hacts.trans (exec_acts hinv' hop hexec hf)⟩

end

/-- **Queue isolation.** However the operations on a port interleave, as long as they free
    nothing, an engine of it is left as its own calls leave it by themselves, and the registers
    of its channel have seen what these write, in their order. -/
theorem queue_isolated (dpdk : Dpdk) (ok : Port → PortOp → Prop) (p p' : Port)
    (l : List (Nat × QueueOp)) (k : Nat) (e : XdmaEngine) (hreach : PortReach dpdk ok p)
    (hcell : p.arena.cell k = some e) (h : PortTrace dpdk p l p') :
    Isolated e p.arena.env.regs (callsOn k l) k p'.arena :=
  (h.acts hreach.inv).2.isolated hreach.inv.namesApart hcell

/-- A started port with a transmit queue, handle 0, and a receive queue, handle 1. -/
def pairPort : Port :=
  (queueSetup id (queueSetup id (Port.probed.configured 1 1) .h2c 0 SetupAlloc.pages)
    .c2h 0 SetupAlloc.pages).started

theorem reach_pairPort : PortReach Dpdk.plain (fun _ _ => True) pairPort := by
  have hconf : PortReach Dpdk.plain (fun _ _ => True) (Port.probed.configured 1 1) :=
    .step (.configure 1 1) .probed rfl trivial rfl
  have htx := hconf.step (.queueSetup .h2c 0 SetupAlloc.pages) rfl trivial rfl
  have hrx := htx.step (.queueSetup .c2h 0 SetupAlloc.pages) rfl trivial rfl
  exact hrx.step .ethStart rfl trivial rfl

/-- A receive burst, a transmit burst and a stop of the port, as the receive queue sees them. -/
theorem isolated_pair :
    ∃ p', PortTrace Dpdk.plain pairPort [(1, .recv plainMem 32 (RxDevice.const 0)),
        (0, .xmit (TxBurst.plain 1 (by decide)) [1]), (0, .stop), (1, .stop)] p' ∧
      Isolated (xdmaRxEngineSetup id 0 SetupAlloc.pages) pairPort.arena.env.regs
        [.recv plainMem 32 (RxDevice.const 0), .stop] 1 p'.arena := by
  have hstart : PortTrace Dpdk.plain pairPort [] pairPort := .refl
  have hrecv := hstart.step (.recv 0 plainMem 32 (RxDevice.const 0)) rfl rfl rfl
  have hxmit := hrecv.step (.xmit 0 (TxBurst.plain 1 (by decide)) [1]) rfl rfl rfl
  have htrace := hxmit.step .ethStop rfl rfl rfl
  exact ⟨_, htrace, queue_isolated Dpdk.plain _ pairPort _ _ 1 _ reach_pairPort rfl htrace⟩

end XdmaDpdk
