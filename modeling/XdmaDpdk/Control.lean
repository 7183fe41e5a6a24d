import XdmaDpdk.History

namespace XdmaDpdk

open ArrayLoop

/-!
# XDMA driver — control words along histories

The packed control word of a descriptor, field by field: the flags, the adjacency field
(`XdmaDesc.nxtAdj`) and the magic (`MagicIntact`), and what each read-modify-write helper
does to each of them.

Two facts about the control words hold along every history:

* `EngineReach.control_idle` — on an idle H2C ring every control word is clear, but for the
  last one, which keeps the flags of `xdma_desc_ring_init` until the first stop;
* `EngineReach.stopped_c2h` — on a C2H ring, idle or not, the last descriptor is the one
  marked `STOPPED`: no operation of that direction touches the bit.
-/

/-! ### Fields of the control word -/

/-- The device's reading of `XDMA_DESC_EOP`. -/
def XdmaDesc.eop (d : XdmaDesc) : Bool := d.control.getLsbD 4

/-- The `Nxt_adj` field, bits 13..8. -/
def XdmaDesc.nxtAdj (d : XdmaDesc) : BitVec 6 := d.control.extractLsb' 8 6

/-- Bits 31..16 hold the magic and bits 15..14 are zero. -/
structure MagicIntact (control : BitVec 32) : Prop where
  magic : control.extractLsb' 16 16 = 0xAD4B#16
  reserved : control.extractLsb' 14 2 = 0#2

theorem magicIntact_controlClear : MagicIntact controlClear := ⟨by decide, by decide⟩

theorem magicIntact_controlLast : MagicIntact controlLast := ⟨by decide, by decide⟩

/-- A number below `2 ^ s` has no bits from `s` on. -/
theorem extractLsb'_of_lt {w s : Nat} (x : BitVec w) (len : Nat) (h : x.toNat < 2 ^ s) :
    x.extractLsb' s len = BitVec.ofNat len 0 := by
  apply BitVec.eq_of_toNat_eq
  rw [BitVec.extractLsb'_toNat, Nat.shiftRight_eq_div_pow, Nat.div_eq_of_lt h]
  simp

/-- Flags below bit 14 do not reach the magic. -/
theorem MagicIntact.or {control : BitVec 32} (h : MagicIntact control) (f : BitVec 32)
    (hf : f.toNat < 2 ^ 14) : MagicIntact (control ||| f) where
  magic := by
    rw [BitVec.extractLsb'_or, h.magic, extractLsb'_of_lt f 16 (by omega), BitVec.or_zero]
  reserved := by
    rw [BitVec.extractLsb'_or, h.reserved, extractLsb'_of_lt f 2 hf, BitVec.or_zero]

/-- Clearing the adjacency field does not reach it either. -/
theorem MagicIntact.clearAdj {control : BitVec 32} (h : MagicIntact control) :
    MagicIntact (control &&& ~~~xdmaDescNxtAdjMask) where
  magic := by
    have hmask : (~~~xdmaDescNxtAdjMask).extractLsb' 16 16 = BitVec.allOnes 16 := by decide
    rw [BitVec.extractLsb'_and, h.magic, hmask, BitVec.and_allOnes]
  reserved := by rw [BitVec.extractLsb'_and, h.reserved, BitVec.zero_and]

/-- An adjacency count below 64 stays inside its field. -/
theorem MagicIntact.adjacentSet {d : XdmaDesc} (h : MagicIntact d.control) (n : BitVec 32)
    (hn : n.toNat < 64) : MagicIntact (xdmaDescAdjacentSet d n).control := by
  apply h.clearAdj.or
  rw [BitVec.toNat_shiftLeft, Nat.shiftLeft_eq]
  omega

theorem MagicIntact.controlSet {d : XdmaDesc} (h : MagicIntact d.control) (f : BitVec 32)
    (hf : f.toNat < 2 ^ 14) : MagicIntact (xdmaDescControlSet d f).control := h.or f hf

@[simp] theorem eop_controlSet (d : XdmaDesc) (f : BitVec 32) :
    (xdmaDescControlSet d f).eop = (d.eop || f.getLsbD 4) := by
  simp [xdmaDescControlSet, XdmaDesc.eop]

/-- The adjacency field does not reach the end-of-packet bit. -/
@[simp] theorem eop_adjacentSet (d : XdmaDesc) (n : BitVec 32) :
    (xdmaDescAdjacentSet d n).eop = d.eop := by
  simp [xdmaDescAdjacentSet, XdmaDesc.eop, xdmaDescNxtAdjMask]

/-- The adjacency field holds the low six bits of what was shifted in. -/
theorem nxtAdj_adjacentSet (d : XdmaDesc) (n : BitVec 32) :
    (xdmaDescAdjacentSet d n).nxtAdj = n.setWidth 6 := by
  have hmask : (~~~xdmaDescNxtAdjMask).extractLsb' 8 6 = 0#6 := by decide
  unfold XdmaDesc.nxtAdj xdmaDescAdjacentSet
  rw [BitVec.extractLsb'_or, BitVec.extractLsb'_and, hmask, BitVec.and_zero, BitVec.zero_or]
  apply BitVec.eq_of_getLsbD_eq
  intro i hi
  have hsub : 8 + i - 8 = i := by omega
  have hlt : 8 + i < 32 := by omega
  have hge : ¬ 8 + i < 8 := by omega
  -- Bit `i` of the field is bit `8 + i` of the word.
  simp only [BitVec.getLsbD_extractLsb', BitVec.getLsbD_shiftLeft, BitVec.getLsbD_setWidth, hi, hlt,
    hge, hsub, decide_true, decide_false, Bool.not_false, Bool.true_and]

/-- Flags outside the field leave it alone. -/
theorem nxtAdj_controlSet (d : XdmaDesc) (f : BitVec 32) (hf : f.extractLsb' 8 6 = 0#6) :
    (xdmaDescControlSet d f).nxtAdj = d.nxtAdj := by
  unfold XdmaDesc.nxtAdj xdmaDescControlSet
  rw [BitVec.extractLsb'_or, hf, BitVec.or_zero]

/-! ### Idle H2C rings -/

/-- Every control word is clear, or it is the last one and as the ring set-up made it. -/
def ControlIdle (e : XdmaEngine) : Prop :=
  ∀ i < e.descMax, (e.descRing i).control = controlClear ∨
    (i + 1 = e.descMax ∧ (e.descRing i).control = controlLast)

theorem controlIdle_engineSetup (virt2phy : Addr → Addr) (dir : DmaDataDirection) (size : Nat)
    (channelId : BitVec 16) (a : SetupAlloc) :
    ControlIdle (engineSetup virt2phy dir size channelId a) := by
  intro i hi
  have hi' : i < xdmaDescMax := hi
  rw [descRing_engineSetup virt2phy dir size channelId a i hi']
  show (if i = xdmaDescMax - 1 then controlLast else controlClear) = controlClear ∨
    (i + 1 = xdmaDescMax ∧
      (if i = xdmaDescMax - 1 then controlLast else controlClear) = controlLast)
  by_cases hlast : i = xdmaDescMax - 1
  · rw [if_pos hlast]
    exact .inr ⟨by omega, rfl⟩
  · rw [if_neg hlast]
    exact .inl rfl

/-- An H2C stop clears every control word. -/
theorem control_engineStop {e : XdmaEngine} (hdir : e.dir = .h2c) (r i : Nat) (hi : i < e.descMax) :
    ((engineReset (engineHalt e r)).descRing i).control = controlClear := by
  have hring : (engineReset (engineHalt e r)).descRing i = ringClearDesc e.dir (e.descRing i) :=
    descRing_clear (xdmaRegWrite e _ _) i hi
  rw [hring]
  show (if e.dir = .h2c then controlClear else (e.descRing i).control) = controlClear
  rw [if_pos hdir]

theorem controlIdle_engineStop {e : XdmaEngine} (hdir : e.dir = .h2c) (r : Nat) :
    ControlIdle (engineReset (engineHalt e r)) :=
  fun i hi => .inl (control_engineStop hdir r i hi)

section
variable {virt2phy : Addr → Addr} {e : XdmaEngine}

/-- **Run lemma.** On an idle H2C ring no flag is left, but for those of the set-up. -/
theorem EngineReach.control_idle (h : EngineReach virt2phy e) (hdir : e.dir = .h2c)
    (hrun : e.running = false) : ControlIdle e := by
  induction h with
  | txSetup channelId a => exact controlIdle_engineSetup virt2phy .h2c _ channelId a
  | rxSetup channelId a => exact DmaDataDirection.noConfusion hdir
  | @xmit e b reads out _ hd hx ih =>
    rcases xdmaXmitPkts_cases hx with ⟨-, rfl⟩ | ⟨-, -, rfl⟩
    · exact ih hd hrun
    · -- The burst ends in a stop.
      apply controlIdle_engineStop
      exact (frame_xmitStart e b).dir.trans hd
  | xmitWait b _ _ _ _ => exact absurd ((xmitStart_running _ b).symm.trans hrun) (by decide)
  | @recv e m nbPkts dev _ hd _ => cases (frame_xdmaRecvPkts e m nbPkts dev).same_dir hd hdir
  | txStop _ hd _ => exact controlIdle_engineStop hd _
  | @rxStop e _ hd _ => cases (frame_engineStop e c2hChannelCtrl).same_dir hd hdir
  | writeBack count _ ih => exact ih hdir hrun

end

/-! ### C2H rings -/

/-- `e'` reads the same through `φ` at every descriptor as `e` does. -/
def Keeps {α : Type} (φ : XdmaDesc → α) (e e' : XdmaEngine) : Prop :=
  ∀ i, φ (e'.descRing i) = φ (e.descRing i)

section
variable {α : Type} {φ : XdmaDesc → α}

theorem Keeps.trans {e e' e'' : XdmaEngine} (h : Keeps φ e e') (h' : Keeps φ e' e'') :
    Keeps φ e e'' := fun i => (h' i).trans (h i)

theorem keeps_takeDesc (e : XdmaEngine) (fill : XdmaDesc → XdmaDesc)
    (hfill : ∀ d, φ (fill d) = φ d) : Keeps φ e (takeDesc e fill) := by
  intro i
  -- Only the descriptor taken is rewritten.
  by_cases hi : i = e.descUsed
  · simp [takeDesc, getDesc, hi, hfill]
  · simp [takeDesc, getDesc, Function.update_of_ne hi]

theorem keeps_rxPost (hfill : ∀ a mb d, φ (fillC2hDesc a mb d) = φ d) (e : XdmaEngine) (m : RxMem)
    (nbPkts : Nat) : Keeps φ e (rxPost e m nbPkts) := by
  unfold rxPost
  induction List.range nbPkts generalizing e with
  | nil => exact fun _ => rfl
  | cons i l ih =>
    rw [List.foldl_cons]
    exact (keeps_takeDesc e _ (hfill _ _)).trans (ih _)

theorem keeps_engineStop {e : XdmaEngine} (hclear : ∀ d, φ (ringClearDesc e.dir d) = φ d)
    (r : Nat) : Keeps φ e (engineReset (engineHalt e r)) :=
  fun i => forEach_proj φ e.descMax (fun i => i) _ e.descRing (fun _ d => hclear d) i

theorem keeps_rxCollect {e : XdmaEngine} (hclear : ∀ d, φ (ringClearDesc e.dir d) = φ d) (m : RxMem)
    (nbPkts : Nat) (dev : RxDevice) : Keeps φ e (rxCollect e m nbPkts dev).engine := by
  obtain ⟨word, count, status, heng | heng⟩ := rxCollect_engine_cases e m nbPkts dev
  · rw [heng]
    exact fun _ => rfl
  · have hadv : Keeps φ e (e.advance word count status) := fun _ => rfl
    rw [heng]
    exact hadv.trans (keeps_engineStop hclear c2hChannelCtrl)

/-- A receive call keeps what posting and clearing keep. -/
theorem keeps_xdmaRecvPkts (hfill : ∀ a mb d, φ (fillC2hDesc a mb d) = φ d) {e : XdmaEngine}
    (hclear : ∀ d, φ (ringClearDesc e.dir d) = φ d) (m : RxMem) (nbPkts : Nat) (dev : RxDevice) :
    Keeps φ e (xdmaRecvPkts e m nbPkts dev).engine := by
  unfold xdmaRecvPkts
  dsimp only
  split
  · exact keeps_rxCollect (e := e.clearStatus) hclear m nbPkts dev
  · have hdir : (rxArm e.clearStatus m nbPkts).2.1.dir = e.dir := (frame_rxArm _ _ _).dir
    have hpost : Keeps φ e (rxArm e.clearStatus m nbPkts).2.1 :=
      keeps_rxPost hfill e.clearStatus m (min nbPkts e.clearStatus.descMax)
    exact hpost.trans (keeps_rxCollect (by rw [hdir]; exact hclear) _ _ dev)

end

@[simp] theorem stopped_fillC2hDesc (a : Addr) (mb : RteMbuf) (d : XdmaDesc) :
    (fillC2hDesc a mb d).stopped = d.stopped := by
  simp [fillC2hDesc, XdmaDesc.stopped, xdmaDescControlSet, xdmaDescCompleted]

/-- The set-up marks the last descriptor, and no other. -/
theorem stopped_engineSetup (virt2phy : Addr → Addr) (dir : DmaDataDirection) (size : Nat)
    (channelId : BitVec 16) (a : SetupAlloc) (i : Nat) (hi : i < xdmaDescMax) :
    ((engineSetup virt2phy dir size channelId a).descRing i).stopped
      = decide (i + 1 = xdmaDescMax) := by
  rw [descRing_engineSetup virt2phy dir size channelId a i hi]
  show (if i = xdmaDescMax - 1 then controlLast else controlClear).getLsbD 0
    = decide (i + 1 = xdmaDescMax)
  by_cases hlast : i = xdmaDescMax - 1
  · rw [if_pos hlast, hlast]
    decide
  · rw [if_neg hlast, decide_eq_false (by omega)]
    decide

section
variable {virt2phy : Addr → Addr} {e : XdmaEngine}

/-- **Run lemma.** The last descriptor of a C2H ring is the one marked `STOPPED`. -/
theorem EngineReach.stopped_c2h (h : EngineReach virt2phy e) (hdir : e.dir = .c2h) :
    ∀ i < e.descMax, (e.descRing i).stopped = decide (i + 1 = e.descMax) := by
  have hclear : ∀ {e : XdmaEngine}, e.dir = .c2h →
      ∀ d, (ringClearDesc e.dir d).stopped = d.stopped := by
    intro e hd d
    rw [hd]
    rfl
  induction h with
  | txSetup channelId a => exact DmaDataDirection.noConfusion hdir
  | rxSetup channelId a => exact stopped_engineSetup virt2phy .c2h _ channelId a
  | @xmit e b reads out _ hd hx _ => cases (frame_xdmaXmitPkts e b reads out hx).same_dir hd hdir
  | @xmitWait e b _ hd _ _ => cases (frame_xmitStart e b).same_dir hd hdir
  | @recv e m nbPkts dev _ hd ih =>
    intro i hi
    have hmax := (frame_xdmaRecvPkts e m nbPkts dev).descMax
    -- Neither posting nor clearing a C2H descriptor touches the bit.
    rw [hmax] at hi ⊢
    rw [keeps_xdmaRecvPkts stopped_fillC2hDesc (hclear hd) m nbPkts dev i]
    exact ih hd i hi
  | @txStop e _ hd _ => cases (frame_engineStop e h2cChannelCtrl).same_dir hd hdir
  | @rxStop e _ hd ih =>
    intro i hi
    rw [show (xdmaRxEngineStop e).descRing i
      = (engineReset (engineHalt e c2hChannelCtrl)).descRing i from rfl,
      keeps_engineStop (hclear hd) c2hChannelCtrl i]
    exact ih hd i hi
  | writeBack count _ ih => exact ih hdir

end

end XdmaDpdk
