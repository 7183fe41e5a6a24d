import XdmaDpdk.Tx
import XdmaDpdk.Rx

namespace XdmaDpdk

open ArrayLoop

/-!
# XDMA driver — engine histories

`EngineReach virt2phy e`: `e` is an engine some history of a queue leads to — its set-up,
then any bursts of its direction (any packets, any device reads, finished or still waiting),
any stops, and any write of the device to the poll-mode word.  Two things hold along every
history (`EngineReach.inv`):

* the parts no operation writes stay as the set-up left them: the fixed fields, gathered in
  `XdmaEngine.layout`, and the links of the descriptors.  `Frame e e'` says that an
  operation respects both, and each operation has its frame lemma;
* an idle engine has an empty ring and index 0 (`RingIdle`), because every path back to
  `running = 0` ends in a stop.
-/

/-! ### The fields no operation writes -/

/-- The fields of an engine that only its set-up writes. -/
structure EngineLayout where
  dir : DmaDataDirection
  channel : BitVec 2
  descMax : Nat
  pollModeAddrVirt : Addr
  descRingAddr : Addr
  swRing : Addr
  portId : BitVec 32
  virt2phyOffset : Addr
  mz : RteMemzone

def XdmaEngine.layout (e : XdmaEngine) : EngineLayout where
  dir := e.dir
  channel := e.channel
  descMax := e.descMax
  pollModeAddrVirt := e.pollModeAddrVirt
  descRingAddr := e.descRingAddr
  swRing := e.swRing
  portId := e.portId
  virt2phyOffset := e.virt2phyOffset
  mz := e.mz

/-- `e'` has the layout of `e` and the same descriptor links. -/
structure Frame (e e' : XdmaEngine) : Prop where
  layout : e'.layout = e.layout
  next : ∀ i, (e'.descRing i).nextAddr = (e.descRing i).nextAddr

namespace Frame
variable {e e' e'' : XdmaEngine}

theorem refl (e : XdmaEngine) : Frame e e := ⟨rfl, fun _ => rfl⟩

theorem trans (h : Frame e e') (h' : Frame e' e'') : Frame e e'' :=
  ⟨h'.layout.trans h.layout, fun i => (h'.next i).trans (h.next i)⟩

theorem dir (h : Frame e e') : e'.dir = e.dir := congrArg EngineLayout.dir h.layout

/-- An engine never changes sides. -/
theorem same_dir {d d' : DmaDataDirection} (h : Frame e e') (hd : e.dir = d) (hd' : e'.dir = d') :
    d' = d := hd'.symm.trans (h.dir.trans hd)

theorem descMax (h : Frame e e') : e'.descMax = e.descMax := congrArg EngineLayout.descMax h.layout

theorem descAddr (h : Frame e e') (i : Nat) : e'.descAddr i = e.descAddr i := by
  have hring : e'.descRingAddr = e.descRingAddr := congrArg EngineLayout.descRingAddr h.layout
  unfold XdmaEngine.descAddr
  rw [hring]

theorem pollAddr (h : Frame e e') : e'.pollModeAddrVirt = e.pollModeAddrVirt :=
  congrArg EngineLayout.pollModeAddrVirt h.layout

theorem offset (h : Frame e e') : e'.virt2phyOffset = e.virt2phyOffset :=
  congrArg EngineLayout.virt2phyOffset h.layout

theorem streamWbAddr (h : Frame e e') : e'.streamWbAddr = e.streamWbAddr := by
  have hring : e'.descRingAddr = e.descRingAddr := congrArg EngineLayout.descRingAddr h.layout
  unfold XdmaEngine.streamWbAddr
  rw [hring, h.descMax]

end Frame

/-! ### Frame lemmas -/

theorem frame_takeDesc (e : XdmaEngine) (fill : XdmaDesc → XdmaDesc)
    (hfill : ∀ d, (fill d).nextAddr = d.nextAddr) : Frame e (takeDesc e fill) where
  layout := rfl
  next i := by
    -- The link could only change at the index taken.
    by_cases hi : i = e.descUsed
    · simp [takeDesc, getDesc, XdmaEngine.setDesc, hi, hfill]
    · simp [takeDesc, getDesc, XdmaEngine.setDesc, Function.update_of_ne hi]

theorem frame_foldl {α : Type} (f : XdmaEngine → α → XdmaEngine) (hf : ∀ e a, Frame e (f e a))
    (l : List α) (e : XdmaEngine) : Frame e (l.foldl f e) := by
  induction l generalizing e with
  | nil => exact Frame.refl e
  | cons a l ih => exact (hf e a).trans (ih (f e a))

/-- Rewriting one descriptor. -/
theorem frame_setDesc (e : XdmaEngine) (i : Nat) (d : XdmaDesc)
    (hd : d.nextAddr = (e.descRing i).nextAddr) : Frame e (e.setDesc i d) where
  layout := rfl
  next j := by
    by_cases hj : j = i
    · rw [hj, setDesc_descRing, Function.update_self, hd]
    · rw [setDesc_descRing, Function.update_of_ne hj]

/-- Rewriting the ring in a loop. -/
theorem frame_forEach (e : XdmaEngine) (n : Nat) (idx : Nat → Nat) (f : Nat → XdmaDesc → XdmaDesc)
    (hf : ∀ i d, (f i d).nextAddr = d.nextAddr) :
    Frame e { e with descRing := forEach n idx f e.descRing } where
  layout := rfl
  next j := forEach_proj XdmaDesc.nextAddr n idx f e.descRing hf j

/-- Marking the engine running, or not. -/
theorem frame_running (e : XdmaEngine) (r : Bool) : Frame e { e with running := r } :=
  ⟨rfl, fun _ => rfl⟩

theorem frame_xmitAdjacent (e : XdmaEngine) (count : Nat) : Frame e (xmitAdjacent e count) :=
  frame_forEach e _ _ _ (fun i d => nextAddr_adjacentSet d (BitVec.ofNat 32 (count - 2 - i)))

theorem frame_xdmaTxEngineStart (e : XdmaEngine) (addr : Addr) (adj : Int) :
    Frame e (xdmaTxEngineStart e addr adj) := ⟨rfl, fun _ => rfl⟩

theorem frame_xdmaRxEngineStart (e : XdmaEngine) (addr : Addr) :
    Frame e (xdmaRxEngineStart e addr) := ⟨rfl, fun _ => rfl⟩

theorem frame_xmitLoop (heap : Heap) (pkts : List MbufPtr) (avail : Nat) (e : XdmaEngine) :
    Frame e (xmitLoop heap pkts avail e).2 := by
  rw [xmitLoop_eq]
  exact frame_foldl stageSeg
    (fun e w => frame_takeDesc e _ (nextAddr_fillH2cDesc w.1 w.2)) _ e

theorem frame_xmitStage (e : XdmaEngine) (b : TxBurst) : Frame e (xmitStage e b).2 := by
  -- The loop over the packets, the terminator flags, the adjacency fields.
  have hloop := (frame_running e true).trans
    (frame_xmitLoop b.heap b.txPkts e.descMax { e with running := true })
  refine hloop.trans (Frame.trans ?_ (frame_xmitAdjacent _ _))
  exact frame_setDesc _ _ _ (nextAddr_controlSet _ _)

theorem frame_xmitStart (e : XdmaEngine) (b : TxBurst) : Frame e (xmitStart e b).2 :=
  (frame_xmitStage e b).trans (frame_xdmaTxEngineStart _ _ _)

theorem frame_xdmaRegWrite (e : XdmaEngine) (offset : Nat) (val : BitVec 32) :
    Frame e (xdmaRegWrite e offset val) := ⟨rfl, fun _ => rfl⟩

theorem frame_engineHalt (e : XdmaEngine) (r : Nat) : Frame e (engineHalt e r) :=
  (frame_xdmaRegWrite e (r + e.channel.toNat * 0x100) ctrlFlags).trans
    (frame_forEach _ _ _ _ (fun _ d => nextAddr_ringClearDesc e.dir d))

theorem frame_engineReset (e : XdmaEngine) : Frame e (engineReset e) := ⟨rfl, fun _ => rfl⟩

theorem frame_engineStop (e : XdmaEngine) (r : Nat) : Frame e (engineReset (engineHalt e r)) :=
  (frame_engineHalt e r).trans (frame_engineReset _)

theorem frame_rxPost (e : XdmaEngine) (m : RxMem) (nbPkts : Nat) :
    Frame e (rxPost e m nbPkts) := by
  have hset : ∀ e i, Frame e (xdmaC2hDescSet e (m.heap (m.arr i))) :=
    fun e i => frame_takeDesc e _ (fun _ => rfl)
  exact frame_foldl _ hset (List.range nbPkts) e

theorem frame_rxArm (e : XdmaEngine) (m : RxMem) (nbPkts : Nat) :
    Frame e (rxArm e m nbPkts).2.1 :=
  (frame_rxPost e m (min nbPkts e.descMax)).trans (frame_xdmaRxEngineStart _ _)

/-- The engine after a call found the word at `word` and consumed up to `count`. -/
def XdmaEngine.advance (e : XdmaEngine) (word count status : Nat) : XdmaEngine :=
  { e with completedDescCount := word, descUsed := count, status := status }

/-- The bookkeeping of a call, before the stop that may follow it. -/
def rxAdvance (e : XdmaEngine) (word : Nat) : Option Nat → XdmaEngine
  | some count => e.advance word count rxCommpleted
  | none => e.advance word e.descUsed e.status

/-- The engine a call leaves: advanced, and stopped when all is consumed. -/
theorem rxCollect_engine (e : XdmaEngine) (m : RxMem) (nbPkts : Nat) (dev : RxDevice) :
    (rxCollect e m nbPkts dev).engine
      = (let r := rxPoll e.descUsed dev.reads rxRetries 0
         let e' := rxAdvance e (dev.reads r.2).2 r.1
         if e'.descUsed = nbPkts then xdmaRxEngineStop e' else e') := by
  simp only [rxCollect]
  cases (rxPoll e.descUsed dev.reads rxRetries 0).1 <;> rfl

/-- Whatever the poll found, a call advances the engine and may stop it. -/
theorem rxCollect_engine_cases (e : XdmaEngine) (m : RxMem) (nbPkts : Nat) (dev : RxDevice) :
    ∃ word count status,
      (rxCollect e m nbPkts dev).engine = e.advance word count status ∨
        (rxCollect e m nbPkts dev).engine
          = xdmaRxEngineStop (e.advance word count status) := by
  obtain ⟨word, sample, heng⟩ : ∃ word sample, (rxCollect e m nbPkts dev).engine
      = if (rxAdvance e word sample).descUsed = nbPkts then
          xdmaRxEngineStop (rxAdvance e word sample) else rxAdvance e word sample :=
    ⟨_, _, rxCollect_engine e m nbPkts dev⟩
  have hadv : ∃ count status, rxAdvance e word sample = e.advance word count status := by
    cases sample <;> exact ⟨_, _, rfl⟩
  obtain ⟨count, status, heq⟩ := hadv
  rw [heng, heq]
  refine ⟨word, count, status, ?_⟩
  split
  · exact .inr rfl
  · exact .inl rfl

theorem frame_advance (e : XdmaEngine) (word count status : Nat) :
    Frame e (e.advance word count status) := ⟨rfl, fun _ => rfl⟩

theorem frame_rxCollect (e : XdmaEngine) (m : RxMem) (nbPkts : Nat) (dev : RxDevice) :
    Frame e (rxCollect e m nbPkts dev).engine := by
  obtain ⟨word, count, status, heng | heng⟩ := rxCollect_engine_cases e m nbPkts dev
  · rw [heng]
    exact frame_advance e word count status
  · rw [heng]
    exact (frame_advance e word count status).trans (frame_engineStop _ _)

theorem frame_xdmaXmitPkts (e : XdmaEngine) (b : TxBurst) (reads : List Nat) (out : XmitResult)
    (h : xdmaXmitPkts e b reads = some out) : Frame e out.engine := by
  rcases xdmaXmitPkts_cases h with ⟨-, rfl⟩ | ⟨-, -, rfl⟩
  · exact Frame.refl e
  · exact (frame_xmitStart e b).trans (frame_engineStop _ _)

theorem frame_xdmaRecvPkts (e : XdmaEngine) (m : RxMem) (nbPkts : Nat) (dev : RxDevice) :
    Frame e (xdmaRecvPkts e m nbPkts dev).engine := by
  have h0 : Frame e e.clearStatus := ⟨rfl, fun _ => rfl⟩
  unfold xdmaRecvPkts
  dsimp only
  split
  · exact h0.trans (frame_rxCollect _ _ _ _)
  · exact h0.trans ((frame_rxArm _ _ _).trans (frame_rxCollect _ _ _ _))

/-! ### Idle engines -/

/-- What the driver relies on when it finds `running = 0`: index 0, an empty ring and, on
    H2C, no flags left on any descriptor but the last. -/
structure RingIdle (e : XdmaEngine) : Prop where
  used : e.descUsed = 0
  len : ∀ i < e.descMax, (e.descRing i).len = 0
  src : ∀ i < e.descMax, (e.descRing i).srcAddr = 0
  dst : ∀ i < e.descMax, (e.descRing i).dstAddr = 0
  clear : e.dir = .h2c → ∀ i, i + 1 < e.descMax → (e.descRing i).control = controlClear

/-- Any stop empties the ring, whatever was on it. -/
theorem ringIdle_engineStop (e : XdmaEngine) (r : Nat) :
    RingIdle (engineReset (engineHalt e r)) := by
  have hring : ∀ i < e.descMax,
      (engineReset (engineHalt e r)).descRing i = ringClearDesc e.dir (e.descRing i) :=
    fun i hi => descRing_clear (xdmaRegWrite e _ _) i hi
  refine ⟨rfl, ?_, ?_, ?_, ?_⟩
  · intro i hi
    rw [hring i hi]
    rfl
  · intro i hi
    rw [hring i hi]
    exact addrOf_zero
  · intro i hi
    rw [hring i hi]
    exact addrOf_zero
  · -- Only H2C stops rewrite the control word.
    intro hdir i hi
    have hd : e.dir = .h2c := hdir
    have hi' : i < e.descMax := Nat.lt_of_succ_lt hi
    rw [hring i hi']
    show (if e.dir = .h2c then controlClear else (e.descRing i).control) = controlClear
    rw [if_pos hd]

theorem ringIdle_engineSetup (virt2phy : Addr → Addr) (dir : DmaDataDirection) (size : Nat)
    (channelId : BitVec 16) (a : SetupAlloc) :
    RingIdle (engineSetup virt2phy dir size channelId a) := by
  have hring := descRing_engineSetup virt2phy dir size channelId a
  refine ⟨rfl, ?_, ?_, ?_, ?_⟩
  · intro i hi
    rw [hring i hi, ringInitDesc]
  · intro i hi
    rw [hring i hi, XdmaDesc.srcAddr, ringInitDesc]
    exact addrOf_zero
  · intro i hi
    rw [hring i hi, XdmaDesc.dstAddr, ringInitDesc]
    exact addrOf_zero
  · -- The set-up leaves flags on the last descriptor, and on no other.
    intro _ i hi
    have hi' : i + 1 < xdmaDescMax := hi
    have hlast : i ≠ xdmaDescMax - 1 := by omega
    rw [hring i (Nat.lt_of_succ_lt hi)]
    show (if i = xdmaDescMax - 1 then controlLast else controlClear) = controlClear
    exact if_neg hlast

/-! ### Histories -/

/-- The engines some history of a queue leads to. -/
inductive EngineReach (virt2phy : Addr → Addr) : XdmaEngine → Prop
  | txSetup (channelId : BitVec 16) (a : SetupAlloc) :
      EngineReach virt2phy (xdmaTxEngineSetup virt2phy channelId a)
  | rxSetup (channelId : BitVec 16) (a : SetupAlloc) :
      EngineReach virt2phy (xdmaRxEngineSetup virt2phy channelId a)
  | xmit {e : XdmaEngine} (b : TxBurst) (reads : List Nat) (out : XmitResult) :
      EngineReach virt2phy e → e.dir = .h2c → xdmaXmitPkts e b reads = some out →
      EngineReach virt2phy out.engine
  | xmitWait {e : XdmaEngine} (b : TxBurst) :
      EngineReach virt2phy e → e.dir = .h2c → e.running = false →
      EngineReach virt2phy (xmitStart e b).2
  | recv {e : XdmaEngine} (m : RxMem) (nbPkts : Nat) (dev : RxDevice) :
      EngineReach virt2phy e → e.dir = .c2h →
      EngineReach virt2phy (xdmaRecvPkts e m nbPkts dev).engine
  | txStop {e : XdmaEngine} : EngineReach virt2phy e → e.dir = .h2c →
      EngineReach virt2phy (xdmaTxEngineStop e)
  | rxStop {e : XdmaEngine} : EngineReach virt2phy e → e.dir = .c2h →
      EngineReach virt2phy (xdmaRxEngineStop e)
  | writeBack {e : XdmaEngine} (count : Nat) : EngineReach virt2phy e →
      EngineReach virt2phy { e with completedDescCount := count }

/-- The bytes the set-up of each direction reserves. -/
def zoneSize : DmaDataDirection → Nat
  | .h2c => xdmaDescMax * sizeofXdmaDesc + sizeofXdmaPollWb
  | .c2h => xdmaDescMax * sizeofXdmaDesc + sizeofXdmaPollWb + sizeofXdmaC2hStreamWb

/-- A layout as one of the two set-ups makes it. -/
structure LayoutInv (virt2phy : Addr → Addr) (l : EngineLayout) : Prop where
  descMax : l.descMax = xdmaDescMax
  ringAddr : l.descRingAddr = l.mz.addr
  pollAddr : l.pollModeAddrVirt = l.mz.addr + BitVec.ofNat 64 (xdmaDescMax * sizeofXdmaDesc)
  offset : l.virt2phyOffset = virt2phy l.swRing - l.swRing
  zoneLen : l.mz.len = zoneSize l.dir

/-- Every descriptor links to its successor, the last one nowhere. -/
def LinksIntact (virt2phy : Addr → Addr) (e : XdmaEngine) : Prop :=
  ∀ i < e.descMax, (e.descRing i).nextAddr
    = if i = e.descMax - 1 then 0 else virt2phy (e.descAddr (i + 1))

/-- The sweep of the set-up makes the links. -/
theorem LinksIntact.of_init {virt2phy : Addr → Addr} {e e' : XdmaEngine}
    (hmax : e'.descMax = e.descMax) (haddr : ∀ i, e'.descAddr i = e.descAddr i)
    (hring : ∀ i < e.descMax, e'.descRing i = ringInitDesc virt2phy e i) :
    LinksIntact virt2phy e' := by
  intro i hi
  rw [hmax] at hi ⊢
  rw [hring i hi, haddr, nextAddr_ringInitDesc]

theorem LinksIntact.of_frame {virt2phy : Addr → Addr} {e e' : XdmaEngine}
    (h : LinksIntact virt2phy e) (hf : Frame e e') : LinksIntact virt2phy e' := by
  intro i hi
  rw [hf.descMax] at hi ⊢
  rw [hf.next, hf.descAddr]
  exact h i hi

/-- What holds of an engine in every history. -/
structure EngineInv (virt2phy : Addr → Addr) (e : XdmaEngine) : Prop where
  layout : LayoutInv virt2phy e.layout
  links : LinksIntact virt2phy e
  idle : e.running = false → RingIdle e

theorem EngineInv.descMax {virt2phy : Addr → Addr} {e : XdmaEngine} (h : EngineInv virt2phy e) :
    e.descMax = xdmaDescMax := h.layout.descMax

/-- The ring is not empty. -/
theorem EngineInv.descMax_pos {virt2phy : Addr → Addr} {e : XdmaEngine}
    (h : EngineInv virt2phy e) : 0 < e.descMax := by
  rw [h.descMax]
  decide

theorem EngineInv.of_frame {virt2phy : Addr → Addr} {e e' : XdmaEngine}
    (h : EngineInv virt2phy e) (hf : Frame e e')
    (hidle : e'.running = false → RingIdle e') :
    EngineInv virt2phy e' :=
  ⟨by rw [hf.layout]; exact h.layout, h.links.of_frame hf, hidle⟩

theorem engineInv_engineSetup (virt2phy : Addr → Addr) (dir : DmaDataDirection)
    (channelId : BitVec 16) (a : SetupAlloc) :
    EngineInv virt2phy (engineSetup virt2phy dir (zoneSize dir) channelId a) where
  layout := ⟨rfl, rfl, rfl, rfl, rfl⟩
  links := LinksIntact.of_init (e := engineAlloc virt2phy dir (zoneSize dir) channelId a) rfl
    (descAddr_engineSetup virt2phy dir (zoneSize dir) channelId a)
    (descRing_engineSetup virt2phy dir (zoneSize dir) channelId a)
  idle _ := ringIdle_engineSetup virt2phy dir _ channelId a

/-- The channel start marks the engine running. -/
theorem xmitStart_running (e : XdmaEngine) (b : TxBurst) : (xmitStart e b).2.running = true := rfl

/-- A running engine that the collecting part of a call leaves idle was stopped. -/
theorem rxCollect_stopped (e : XdmaEngine) (m : RxMem) (nbPkts : Nat) (dev : RxDevice)
    (hrun : e.running = true) (hoff : (rxCollect e m nbPkts dev).engine.running = false) :
    ∃ e', (rxCollect e m nbPkts dev).engine = xdmaRxEngineStop e' := by
  obtain ⟨word, count, status, heng | heng⟩ := rxCollect_engine_cases e m nbPkts dev
  · rw [heng] at hoff
    exact absurd (hrun.symm.trans hoff) (by decide)
  · exact ⟨_, heng⟩

/-- A running engine leaves the collecting part of a call still running, or stopped. -/
theorem rxCollect_running (e : XdmaEngine) (m : RxMem) (nbPkts : Nat) (dev : RxDevice)
    (hrun : e.running = true) (hoff : (rxCollect e m nbPkts dev).engine.running = false) :
    RingIdle (rxCollect e m nbPkts dev).engine := by
  obtain ⟨e', heng⟩ := rxCollect_stopped e m nbPkts dev hrun hoff
  rw [heng]
  exact ringIdle_engineStop _ _

/-- **Run lemma.** The engine invariant holds along every history. -/
theorem EngineReach.inv {virt2phy : Addr → Addr} {e : XdmaEngine}
    (h : EngineReach virt2phy e) : EngineInv virt2phy e := by
  induction h with
  | txSetup channelId a => exact engineInv_engineSetup virt2phy .h2c channelId a
  | rxSetup channelId a => exact engineInv_engineSetup virt2phy .c2h channelId a
  | @xmit e b reads out _ _ hx ih =>
    apply ih.of_frame (frame_xdmaXmitPkts e b reads out hx)
    rcases xdmaXmitPkts_cases hx with ⟨-, rfl⟩ | ⟨-, -, rfl⟩
    · exact ih.idle
    · exact fun _ => ringIdle_engineStop _ _
  | xmitWait b _ _ _ ih =>
    apply ih.of_frame (frame_xmitStart _ b)
    intro hoff
    exact absurd ((xmitStart_running _ b).symm.trans hoff) (by decide)
  | @recv e m nbPkts dev _ _ ih =>
    apply ih.of_frame (frame_xdmaRecvPkts e m nbPkts dev)
    unfold xdmaRecvPkts
    dsimp only
    split
    · rename_i hrun
      exact rxCollect_running _ m nbPkts dev hrun
    · exact rxCollect_running _ _ _ dev rfl
  | txStop _ _ ih =>
    exact ih.of_frame (frame_engineStop _ _) (fun _ => ringIdle_engineStop _ _)
  | rxStop _ _ ih =>
    exact ih.of_frame (frame_engineStop _ _) (fun _ => ringIdle_engineStop _ _)
  | @writeBack e count _ ih =>
    -- The word is no part of what an idle engine guarantees.
    refine ih.of_frame ⟨rfl, fun _ => rfl⟩ (fun hoff => ?_)
    have h := ih.idle hoff
    exact ⟨h.used, h.len, h.src, h.dst, h.clear⟩

end XdmaDpdk
