import XdmaDpdk.Control
import XdmaDpdk.TxChain

namespace XdmaDpdk

open ChainWalker

/-!
# XDMA driver — the null link

The last descriptor of the ring links nowhere, and only `STOPPED` in its control word keeps
a device from following that link.  `xdma_desc_ring_init` sets the flag; on H2C
`xdma_desc_ring_clear` overwrites the control word of every descriptor, the last one
included, so the flag is gone after the first stop (`StopHistory.stopped_last`).

`nullLinkStops_iff` — after a stop of an H2C queue the null link is guarded only while a
burst waits whose own terminator happens to be the last descriptor.
-/

/-! ### Histories that remember stops -/

/-- The engines that bursts and stops lead to, with the flag "stopped since its set-up".  A
    burst that finds the engine idle ends in a stop. -/
inductive StopHistory (virt2phy : Addr → Addr) : XdmaEngine → Bool → Prop
  | txSetup (channelId : BitVec 16) (a : SetupAlloc) :
      StopHistory virt2phy (xdmaTxEngineSetup virt2phy channelId a) false
  | rxSetup (channelId : BitVec 16) (a : SetupAlloc) :
      StopHistory virt2phy (xdmaRxEngineSetup virt2phy channelId a) false
  | xmit {e : XdmaEngine} {stopped : Bool} (b : TxBurst) (reads : List Nat) (out : XmitResult) :
      StopHistory virt2phy e stopped → e.dir = .h2c → xdmaXmitPkts e b reads = some out →
      StopHistory virt2phy out.engine (stopped || !e.running)
  | xmitWait {e : XdmaEngine} {stopped : Bool} (b : TxBurst) : StopHistory virt2phy e stopped →
      e.dir = .h2c → e.running = false → StopHistory virt2phy (xmitStart e b).2 stopped
  | recv {e : XdmaEngine} {stopped : Bool} (m : RxMem) (nbPkts : Nat) (dev : RxDevice) :
      StopHistory virt2phy e stopped → e.dir = .c2h →
      StopHistory virt2phy (xdmaRecvPkts e m nbPkts dev).engine
        (stopped || !(xdmaRecvPkts e m nbPkts dev).engine.running)
  | txStop {e : XdmaEngine} {stopped : Bool} : StopHistory virt2phy e stopped → e.dir = .h2c →
      StopHistory virt2phy (xdmaTxEngineStop e) true
  | rxStop {e : XdmaEngine} {stopped : Bool} : StopHistory virt2phy e stopped → e.dir = .c2h →
      StopHistory virt2phy (xdmaRxEngineStop e) true
  | writeBack {e : XdmaEngine} {stopped : Bool} (count : Nat) : StopHistory virt2phy e stopped →
      StopHistory virt2phy { e with completedDescCount := count } stopped

section
variable {virt2phy : Addr → Addr} {e : XdmaEngine} {stopped : Bool}

theorem StopHistory.reach (h : StopHistory virt2phy e stopped) : EngineReach virt2phy e := by
  induction h with
  | txSetup channelId a => exact .txSetup channelId a
  | rxSetup channelId a => exact .rxSetup channelId a
  | xmit b reads out _ hdir hx ih => exact .xmit b reads out ih hdir hx
  | xmitWait b _ hdir hrun ih => exact .xmitWait b ih hdir hrun
  | recv m nbPkts dev _ hdir ih => exact .recv m nbPkts dev ih hdir
  | txStop _ hdir ih => exact .txStop ih hdir
  | rxStop _ hdir ih => exact .rxStop ih hdir
  | writeBack count _ ih => exact .writeBack count ih

/-! ### The last descriptor -/

/-- `STOPPED` on the last descriptor of an H2C ring: there until the first stop, and later
    only while a burst waits whose terminator it is. -/
def LastStopped (e : XdmaEngine) (stopped : Bool) : Prop :=
  (e.descRing (e.descMax - 1)).stopped = (!stopped || decide (e.descUsed + 1 = e.descMax))

/-- Any stop of an H2C engine takes the flag away. -/
theorem lastStopped_engineStop (hdir : e.dir = .h2c) (hmax : e.descMax = xdmaDescMax) (r : Nat) :
    LastStopped (engineReset (engineHalt e r)) true := by
  have hlast : e.descMax - 1 < e.descMax := by
    rw [hmax]
    decide
  show ((engineReset (engineHalt e r)).descRing (e.descMax - 1)).stopped
    = (!true || decide (0 + 1 = e.descMax))
  unfold XdmaDesc.stopped
  rw [control_engineStop hdir r _ hlast, hmax]
  decide

/-- A waiting burst adds the flag at its terminator. -/
theorem lastStopped_xmitStart (b : TxBurst) (hidle : RingIdle e) (hmax : e.descMax = xdmaDescMax)
    (h : LastStopped e stopped) : LastStopped (xmitStart e b).2 stopped := by
  have hpos : 0 < e.descMax := by
    rw [hmax]
    decide
  have hbefore : (e.descRing (e.descMax - 1)).stopped = !stopped := by
    have h' := h
    unfold LastStopped at h'
    rw [h', hidle.used, hmax]
    simp [xdmaDescMax]
  have hused : (xmitStart e b).2.descUsed = stagedCount e b % e.descMax := by
    rw [xmitStart_engine, descUsed_txStart, xmitStage_eq e b hidle.used hpos]
    rfl
  unfold LastStopped
  rw [(frame_xmitStart e b).descMax, hused, descRing_xmitStart, descRing_xmitStage b hidle hpos,
    stagedRing_stopped, hbefore]
  congr 1
  apply decide_eq_decide.mpr
  have hlt := Nat.mod_lt (stagedCount e b) hpos
  show e.descMax - 1 = stagedCount e b % e.descMax ↔ _
  constructor <;> intro h' <;> omega

/-- **Run lemma.** -/
theorem StopHistory.lastStopped (h : StopHistory virt2phy e stopped) (hdir : e.dir = .h2c) :
    LastStopped e stopped := by
  induction h with
  | txSetup channelId a =>
    exact stopped_engineSetup virt2phy .h2c _ channelId a (xdmaDescMax - 1) (by decide)
  | rxSetup channelId a => exact DmaDataDirection.noConfusion hdir
  | @xmit e stopped b reads out hs hd hx ih =>
    rcases xdmaXmitPkts_cases hx with ⟨hrun, rfl⟩ | ⟨hrun, -, rfl⟩
    · -- A busy engine is left as it is.
      rw [hrun, Bool.not_true, Bool.or_false]
      exact ih hdir
    · rw [hrun, Bool.not_false, Bool.or_true]
      have hf := frame_xmitStart e b
      exact lastStopped_engineStop (hf.dir.trans hd)
        (hf.descMax.trans hs.reach.inv.layout.descMax) _
  | xmitWait b hs hd hrun ih =>
    have hinv := hs.reach.inv
    exact lastStopped_xmitStart b (hinv.idle hrun) hinv.layout.descMax (ih hd)
  | @recv e _ m nbPkts dev _ hd _ => cases (frame_xdmaRecvPkts e m nbPkts dev).same_dir hd hdir
  | txStop hs hd _ => exact lastStopped_engineStop hd hs.reach.inv.layout.descMax _
  | @rxStop e _ _ hd _ => cases (frame_engineStop e c2hChannelCtrl).same_dir hd hdir
  | writeBack count _ ih => exact ih hdir

/-! ### Walks -/

/-- No descriptor of the ring has bus address 0. -/
def MapsNonnull (virt2phy : Addr → Addr) (e : XdmaEngine) : Prop :=
  ∀ i < e.descMax, virt2phy (e.descAddr i) ≠ 0

/-- A descriptor with a null link is marked `STOPPED`, and a walk from any descriptor of the
    ring comes to one so marked. -/
structure NullLinkStops (virt2phy : Addr → Addr) (e : XdmaEngine) : Prop where
  stopped : ∀ i < e.descMax, (e.descRing i).nextAddr = 0 → (e.descRing i).stopped = true
  walk : ∀ i < e.descMax, ∃ l, Walk (fun i => (e.descRing i).stopped)
    (fun i => busIndex virt2phy e (e.descRing i).nextAddr) i l

/-- With the flag on the last descriptor, both hold. -/
theorem NullLinkStops.of_last (hlinks : LinksIntact virt2phy e) (hmap : MapsRing virt2phy e)
    (hnull : MapsNonnull virt2phy e) (hlast : (e.descRing (e.descMax - 1)).stopped = true) :
    NullLinkStops virt2phy e where
  stopped := by
    intro i hi hzero
    rw [hlinks i hi] at hzero
    by_cases hend : i = e.descMax - 1
    · rw [hend]
      exact hlast
    · rw [if_neg hend] at hzero
      exact absurd hzero (hnull (i + 1) (by omega))
  walk := by
    -- Induction on the distance to the last descriptor.
    have hfrom : ∀ k i, i + k + 1 = e.descMax → ∃ l, Walk (fun i => (e.descRing i).stopped)
        (fun i => busIndex virt2phy e (e.descRing i).nextAddr) i l := by
      intro k
      induction k with
      | zero =>
        intro i hi
        have hend : i = e.descMax - 1 := by omega
        rw [← hend] at hlast
        exact ⟨[i], Walk.last hlast⟩
      | succ k ih =>
        intro i hi
        cases hs : (e.descRing i).stopped with
        | true => exact ⟨[i], Walk.last hs⟩
        | false =>
          obtain ⟨l, hl⟩ := ih (i + 1) (by omega)
          have hnext : (e.descRing i).nextAddr = virt2phy (e.descAddr (i + 1)) := by
            rw [hlinks i (by omega), if_neg (by omega)]
          have hbus : busIndex virt2phy e (e.descRing i).nextAddr = some (i + 1) := by
            rw [hnext]
            exact busIndex_descAddr hmap (i + 1) (by omega)
          exact ⟨i :: l, Walk.step hs hbus hl⟩
    intro i hi
    exact hfrom (e.descMax - 1 - i) i (by omega)

end

/-- **The null link.** It stops the device on every C2H queue, and on an H2C queue until the
    first stop; later, only under a waiting burst that ends on the last descriptor but one. -/
theorem nullLinkStops_iff (virt2phy : Addr → Addr) (e : XdmaEngine) (stopped : Bool)
    (h : StopHistory virt2phy e stopped) (hmap : MapsRing virt2phy e)
    (hnull : MapsNonnull virt2phy e) :
    NullLinkStops virt2phy e
      ↔ e.dir = .c2h ∨ stopped = false ∨ e.descUsed + 1 = e.descMax := by
  have hinv := h.reach.inv
  have hpos := hinv.descMax_pos
  constructor
  · intro hstop
    cases hdir : e.dir with
    | c2h => exact .inl rfl
    | h2c =>
      -- The last descriptor has a null link, so it must be stopped.
      have hlink : (e.descRing (e.descMax - 1)).nextAddr = 0 := by
        rw [hinv.links _ (by omega), if_pos rfl]
      have hlast := hstop.stopped _ (by omega) hlink
      rw [h.lastStopped hdir] at hlast
      simpa using hlast
  · intro hcond
    apply NullLinkStops.of_last hinv.links hmap hnull
    cases hdir : e.dir with
    | c2h =>
      rw [h.reach.stopped_c2h hdir _ (by omega)]
      simpa using Nat.sub_add_cancel hpos
    | h2c =>
      rw [h.lastStopped hdir]
      rw [hdir] at hcond
      simpa using hcond

theorem freshTx_mapsNonnull : MapsNonnull id freshTx := by
  have h : ∀ i < 32, (0x100000 + BitVec.ofNat 64 (32 * i) : Addr) ≠ 0 := by decide
  exact h

theorem nullLinkStops_freshTx :
    NullLinkStops id freshTx
      ↔ freshTx.dir = .c2h ∨ false = false ∨ freshTx.descUsed + 1 = freshTx.descMax :=
  nullLinkStops_iff id freshTx false (.txSetup 0 SetupAlloc.pages) freshTx_mapsRing
    freshTx_mapsNonnull

theorem sentTx_history : StopHistory id sentTx true :=
  StopHistory.xmit _ _ _ (.txSetup 0 SetupAlloc.pages) rfl xmit_sentTx

/-- After one packet has been sent, the null link of the ring is not guarded any more. -/
theorem nullLink_sentTx :
    ¬ ∀ (virt2phy : Addr → Addr) (e : XdmaEngine) (stopped : Bool),
      StopHistory virt2phy e stopped → MapsRing virt2phy e → MapsNonnull virt2phy e →
      NullLinkStops virt2phy e := by
  intro h
  have hframe : Frame freshTx sentTx :=
    (frame_xmitStart freshTx _).trans (frame_engineStop _ _)
  have hmax : sentTx.descMax = 32 := hframe.descMax
  have haddr : ∀ i, sentTx.descAddr i = freshTx.descAddr i := hframe.descAddr
  have hmap : MapsRing id sentTx := MapsRing.of_injective Function.injective_id hmax
  have hnull : MapsNonnull id sentTx := by
    intro i hi
    rw [haddr]
    exact freshTx_mapsNonnull i hi
  have hstop := h id sentTx true sentTx_history hmap hnull
  have hlink : (sentTx.descRing 31).nextAddr = 0 := by
    rw [sentTx_history.reach.inv.links 31 (by rw [hmax]; decide), if_pos (by rw [hmax])]
  have hlast := hstop.stopped 31 (by rw [hmax]; decide) hlink
  have hclear : (sentTx.descRing 31).stopped = false := by
    unfold XdmaDesc.stopped sentTx xdmaTxEngineStop
    rw [control_engineStop _ _ 31]
    · decide
    · rw [(frame_xmitStart freshTx _).descMax]
      decide
    · rw [(frame_xmitStart freshTx _).dir]
      rfl
  exact absurd (hclear.symm.trans hlast) (by decide)

end XdmaDpdk
