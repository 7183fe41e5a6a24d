import XdmaDpdk.Indices
import XdmaDpdk.RxCount

namespace XdmaDpdk

/-!
# XDMA driver — the idle engine

`EngineRun`: the engines that set-up, bursts of valid mbufs and stops lead to when the device
writes to the poll-mode word only while `CTRL_RUN_STOP` is set.  These are histories in the
sense of `EngineReach`, with that one restriction on the device and one on the caller.

`idleEngine` is what both bursts rely on when they find `running = 0` and start the channel
at `desc_ring[0]`: index, word and ring are as the set-up left them, and no index formed on
the way leaves the ring.
-/

/-! ### Runs -/

/-- Every packet of the burst has a segment. -/
def ValidBurst (b : TxBurst) : Prop := ∀ mb ∈ b.txPkts, 1 ≤ (b.heap mb).nbSegs

/-- The engines that operations of the driver lead to, over a device that writes nothing
    after `CTRL_RUN_STOP` is cleared. -/
inductive EngineRun (virt2phy : Addr → Addr) : XdmaEngine → Prop
  | txSetup (channelId : BitVec 16) (a : SetupAlloc) :
      EngineRun virt2phy (xdmaTxEngineSetup virt2phy channelId a)
  | rxSetup (channelId : BitVec 16) (a : SetupAlloc) :
      EngineRun virt2phy (xdmaRxEngineSetup virt2phy channelId a)
  | xmit {e : XdmaEngine} (b : TxBurst) (reads : List Nat) (out : XmitResult) :
      EngineRun virt2phy e → e.dir = .h2c → ValidBurst b → xdmaXmitPkts e b reads = some out →
      EngineRun virt2phy out.engine
  | xmitWait {e : XdmaEngine} (b : TxBurst) :
      EngineRun virt2phy e → e.dir = .h2c → ValidBurst b → e.running = false →
      EngineRun virt2phy (xmitStart e b).2
  | recv {e : XdmaEngine} (m : RxMem) (nbPkts : Nat) (dev : RxDevice) :
      EngineRun virt2phy e → e.dir = .c2h →
      EngineRun virt2phy (xdmaRecvPkts e m nbPkts dev).engine
  | txStop {e : XdmaEngine} : EngineRun virt2phy e → e.dir = .h2c →
      EngineRun virt2phy (xdmaTxEngineStop e)
  | rxStop {e : XdmaEngine} : EngineRun virt2phy e → e.dir = .c2h →
      EngineRun virt2phy (xdmaRxEngineStop e)
  | writeBack {e : XdmaEngine} (count : Nat) : EngineRun virt2phy e → e.running = true →
      EngineRun virt2phy { e with completedDescCount := count }

section
variable {virt2phy : Addr → Addr} {e : XdmaEngine}

/-- A run is a history. -/
theorem EngineRun.reach (h : EngineRun virt2phy e) : EngineReach virt2phy e := by
  induction h with
  | txSetup channelId a => exact .txSetup channelId a
  | rxSetup channelId a => exact .rxSetup channelId a
  | xmit b reads out _ hdir _ hx ih => exact .xmit b reads out ih hdir hx
  | xmitWait b _ hdir _ hrun ih => exact .xmitWait b ih hdir hrun
  | recv m nbPkts dev _ hdir ih => exact .recv m nbPkts dev ih hdir
  | txStop _ hdir ih => exact .txStop ih hdir
  | rxStop _ hdir ih => exact .rxStop ih hdir
  | writeBack count _ _ ih => exact .writeBack count ih

/-- A call that leaves the engine idle stopped it, and the stop zeroed the word. -/
theorem rxCollect_word (e : XdmaEngine) (m : RxMem) (nbPkts : Nat) (dev : RxDevice)
    (hrun : e.running = true) (hoff : (rxCollect e m nbPkts dev).engine.running = false) :
    (rxCollect e m nbPkts dev).engine.completedDescCount = 0 := by
  obtain ⟨e', heng⟩ := rxCollect_stopped e m nbPkts dev hrun hoff
  rw [heng]
  rfl

/-- **Run lemma.** The word of an idle engine is zero. -/
theorem EngineRun.word_idle (h : EngineRun virt2phy e) :
    e.running = false → e.completedDescCount = 0 := by
  induction h with
  | txSetup channelId a => exact fun _ => rfl
  | rxSetup channelId a => exact fun _ => rfl
  | xmit b reads out _ _ _ hx ih =>
    rcases xdmaXmitPkts_cases hx with ⟨-, rfl⟩ | ⟨-, -, rfl⟩
    · exact ih
    · exact fun _ => rfl
  | xmitWait b _ _ _ _ _ =>
    intro hoff
    exact absurd ((xmitStart_running _ b).symm.trans hoff) (by decide)
  | @recv e m nbPkts dev _ _ _ =>
    -- Whether armed before or by this call, the engine polls while running.
    rw [xdmaRecvPkts_eq]
    exact rxCollect_word _ _ _ dev (rxEnter_running e m nbPkts)
  | txStop _ _ _ => exact fun _ => rfl
  | rxStop _ _ _ => exact fun _ => rfl
  | writeBack count _ hrun _ =>
    intro hoff
    exact absurd (hrun.symm.trans hoff) (by decide)

/-- What both bursts rely on: between operations an engine with `running = 0` has index 0, a
    zero word and an empty ring, and the indices they form into the ring lie in it. -/
structure IdleContract (e : XdmaEngine) : Prop where
  idle : e.running = false →
    e.descUsed = 0 ∧ e.completedDescCount = 0 ∧
      ∀ i < e.descMax, (e.descRing i).len = 0 ∧ (e.descRing i).srcAddr = 0 ∧
        (e.descRing i).dstAddr = 0
  xmit : ∀ b : TxBurst, ValidBurst b → ∀ i, i ∈ xmitTaken e b ∨ i ∈ xmitFormed e b → i < e.descMax
  recv : ∀ (m : RxMem) (nbPkts : Nat), ∀ i ∈ recvTaken e m nbPkts, i < e.descMax

/-- **The idle engine.** The contract holds along every run, of either direction. -/
theorem idleEngine (h : EngineRun virt2phy e) : IdleContract e := by
  have hinv := h.reach.inv
  have hpos := hinv.descMax_pos
  -- A burst starts only on an idle engine, at index 0.
  have hused : e.running = false → e.descUsed < e.descMax := by
    intro hrun
    rw [(hinv.idle hrun).used]
    exact hpos
  refine ⟨?_, ?_, ?_⟩
  · intro hrun
    have hidle := hinv.idle hrun
    exact ⟨hidle.used, h.word_idle hrun,
      fun i hi => ⟨hidle.len i hi, hidle.src i hi, hidle.dst i hi⟩⟩
  · intro b _ i hi
    rcases hi with hi | hi
    · exact xmitTaken_lt e hused b i hi
    · exact xmitFormed_lt e hused b i hi
  · exact recvTaken_lt e hused

end

/-- A receive call for eight packets, three of them completed, and a stop. -/
def stoppedRx : XdmaEngine :=
  xdmaRxEngineStop
    (xdmaRecvPkts freshRx.eng plainMem 8 { reads := fun _ => (3, 3), wb := fun _ => ⟨0, 0⟩ }).engine

theorem idleEngine_stoppedRx : IdleContract stoppedRx :=
  idleEngine (.rxStop (.recv _ 8 _ (.rxSetup 0 SetupAlloc.pages) rfl)
    ((frame_xdmaRecvPkts _ _ _ _).dir))

end XdmaDpdk
