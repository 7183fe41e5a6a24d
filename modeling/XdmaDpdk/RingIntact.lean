import XdmaDpdk.IdleEngine
import XdmaDpdk.TxAdjacency

namespace XdmaDpdk

open ArrayLoop

/-!
# XDMA driver — links and magic of the ring

The words of the ring that no burst may damage: the link of every descriptor and the magic
in its control word.

`RingReach` goes down to the single calls that write to the ring: `xdma_desc_ring_init`,
then `xdma_h2c_desc_set`, `xdma_c2h_desc_set`, `xdma_desc_control_set`,
`xdma_desc_adjacent_set` and `xdma_desc_ring_clear` in any order, each with arguments a
burst of valid mbufs or a stop gives it.  `RingReach.intact` says both survive in every such
sequence, and `EngineRun.ringReach` that the driver's own runs are such sequences.
-/

/-! ### The calls that write to the ring -/

/-- The number of packets a burst accepts on a ring of `descMax` descriptors. -/
def acceptedCount (descMax : Nat) (b : TxBurst) : Nat := (accepted b.heap b.txPkts descMax).length

/-- The rings that single calls of the descriptor helpers lead to. -/
inductive RingReach (virt2phy : Addr → Addr) : XdmaEngine → Prop
  | init {e : XdmaEngine} : e.descMax = xdmaDescMax →
      RingReach virt2phy (xdmaDescRingInit virt2phy e)
  | h2cDescSet {e : XdmaEngine} (heap : Heap) (mb : MbufPtr) : RingReach virt2phy e →
      1 ≤ (heap mb).nbSegs → RingReach virt2phy (xdmaH2cDescSet heap e mb)
  | c2hDescSet {e : XdmaEngine} (mb : RteMbuf) : RingReach virt2phy e →
      RingReach virt2phy (xdmaC2hDescSet e mb)
  | controlSet {e : XdmaEngine} : RingReach virt2phy e →
      RingReach virt2phy (e.setDesc e.descUsed
        (xdmaDescControlSet (e.descRing e.descUsed) (xdmaDescCompleted ||| xdmaDescStopped)))
  | adjacentSet {e : XdmaEngine} (b : TxBurst) (i : Nat) : RingReach virt2phy e → ValidBurst b →
      i < acceptedCount e.descMax b - 1 →
      RingReach virt2phy (e.setDesc ((0 + i) % e.descMax)
        (xdmaDescAdjacentSet (e.descRing ((0 + i) % e.descMax))
          (BitVec.ofNat 32 (acceptedCount e.descMax b - 2 - i))))
  | ringClear {e : XdmaEngine} : RingReach virt2phy e → RingReach virt2phy (xdmaDescRingClear e)
  | fields {e e' : XdmaEngine} : RingReach virt2phy e → e'.descRing = e.descRing →
      e'.descMax = e.descMax → e'.descRingAddr = e.descRingAddr → RingReach virt2phy e'

/-- The links and the magic of every descriptor are as `xdma_desc_ring_init` made them. -/
structure RingIntact (virt2phy : Addr → Addr) (e : XdmaEngine) : Prop where
  next : LinksIntact virt2phy e
  control : ∀ i < e.descMax, MagicIntact (e.descRing i).control

/-! ### What each call keeps -/

theorem toNat_flags_lt {f : BitVec 32} (h : f.toNat < 64) : f.toNat < 2 ^ 14 := by omega

theorem magicIntact_fillH2cDesc (mb : RteMbuf) (last : Bool) {d : XdmaDesc}
    (h : MagicIntact d.control) : MagicIntact (fillH2cDesc mb last d).control := by
  cases last with
  | false => exact h
  | true => exact h.or _ (toNat_flags_lt (by decide))

theorem magicIntact_fillC2hDesc (a : Addr) (mb : RteMbuf) {d : XdmaDesc}
    (h : MagicIntact d.control) : MagicIntact (fillC2hDesc a mb d).control :=
  h.or _ (toNat_flags_lt (by decide))

theorem magicIntact_ringClearDesc (dir : DmaDataDirection) {d : XdmaDesc}
    (h : MagicIntact d.control) : MagicIntact (ringClearDesc dir d).control := by
  cases dir with
  | c2h => exact h
  | h2c => exact magicIntact_controlClear

section
variable {virt2phy : Addr → Addr} {e : XdmaEngine}

/-- Rewriting one descriptor, link and magic kept. -/
theorem RingIntact.setDesc (h : RingIntact virt2phy e) (i : Nat) {d : XdmaDesc}
    (hnext : d.nextAddr = (e.descRing i).nextAddr)
    (hctl : MagicIntact (e.descRing i).control → MagicIntact d.control) :
    RingIntact virt2phy (e.setDesc i d) where
  next := h.next.of_frame (frame_setDesc e i d hnext)
  control := by
    intro j hj
    by_cases hji : j = i
    · subst hji
      rw [setDesc_descRing, Function.update_self]
      exact hctl (h.control j hj)
    · rw [setDesc_descRing, Function.update_of_ne hji]
      exact h.control j hj

/-- Fields outside the ring play no role. -/
theorem RingIntact.fields (h : RingIntact virt2phy e) {e' : XdmaEngine}
    (hring : e'.descRing = e.descRing) (hmax : e'.descMax = e.descMax)
    (haddr : e'.descRingAddr = e.descRingAddr) : RingIntact virt2phy e' where
  next := by
    intro i hi
    rw [hmax] at hi ⊢
    have hdesc : e'.descAddr (i + 1) = e.descAddr (i + 1) := by
      unfold XdmaEngine.descAddr
      rw [haddr]
    rw [hring, hdesc]
    exact h.next i hi
  control := by
    intro i hi
    rw [hmax] at hi
    rw [hring]
    exact h.control i hi

theorem RingIntact.takeDesc (h : RingIntact virt2phy e) {fill : XdmaDesc → XdmaDesc}
    (hnext : ∀ d, (fill d).nextAddr = d.nextAddr)
    (hctl : ∀ d, MagicIntact d.control → MagicIntact (fill d).control) :
    RingIntact virt2phy (takeDesc e fill) :=
  (h.setDesc e.descUsed (hnext _) (hctl _)).fields rfl rfl rfl

theorem RingIntact.h2cSegLoop (heap : Heap) (n : Nat) (p : Option MbufPtr)
    (h : RingIntact virt2phy e) : RingIntact virt2phy (h2cSegLoop heap n p e) := by
  induction n generalizing p e with
  | zero => exact h
  | succ n ih =>
    cases p with
    | none => exact h
    | some mb =>
      exact ih _ (h.takeDesc (nextAddr_fillH2cDesc _ _) (fun _ => magicIntact_fillH2cDesc _ _))

/-- The adjacency count of a pass fits the field: a burst accepts at most 32 packets. -/
theorem adjacentCount_lt (hmax : e.descMax = xdmaDescMax) (b : TxBurst) (hb : ValidBurst b)
    (i : Nat) : (BitVec.ofNat 32 (acceptedCount e.descMax b - 2 - i)).toNat < 64 := by
  have hcount : acceptedCount e.descMax b ≤ (b.writes e.descMax).length :=
    b.length_accepted_le e.descMax hb
  have hlen := b.length_writes_le e.descMax
  rw [hmax, xdmaDescMax] at hcount hlen
  rw [hmax, xdmaDescMax, BitVec.toNat_ofNat]
  omega

/-- The ring keeps its size. -/
theorem RingReach.descMax (h : RingReach virt2phy e) : e.descMax = xdmaDescMax := by
  induction h with
  | init hmax => exact hmax
  | h2cDescSet heap mb _ _ ih => rw [descMax_xdmaH2cDescSet, ih]
  | c2hDescSet _ _ ih => exact ih
  | controlSet _ ih => exact ih
  | adjacentSet _ _ _ _ _ ih => exact ih
  | ringClear _ ih => exact ih
  | fields _ _ hmax _ ih => exact hmax.trans ih

/-- **Run lemma.** One case a call. -/
theorem RingReach.inv (h : RingReach virt2phy e) : RingIntact virt2phy e := by
  induction h with
  | @init e _ =>
    refine ⟨LinksIntact.of_init (e := e) rfl (fun _ => rfl) (descRing_init virt2phy e), ?_⟩
    intro i hi
    rw [descRing_init virt2phy e i hi]
    -- The last descriptor alone has flags, below the magic.
    show MagicIntact (if i = e.descMax - 1 then controlLast else controlClear)
    by_cases hlast : i = e.descMax - 1
    · rw [if_pos hlast]
      exact magicIntact_controlLast
    · rw [if_neg hlast]
      exact magicIntact_controlClear
  | h2cDescSet heap mb _ _ ih => exact ih.h2cSegLoop heap _ _
  | c2hDescSet mb _ ih => exact ih.takeDesc (fun _ => rfl) (fun _ => magicIntact_fillC2hDesc _ mb)
  | controlSet _ ih =>
    exact ih.setDesc _ rfl (fun hm => hm.controlSet _ (toNat_flags_lt (by decide)))
  | adjacentSet b i hr hb _ ih =>
    exact ih.setDesc _ rfl (fun hm => hm.adjacentSet _ (adjacentCount_lt hr.descMax b hb i))
  | @ringClear e _ ih =>
    refine ⟨ih.next.of_frame (frame_forEach e _ _ _ (fun _ => nextAddr_ringClearDesc e.dir)), ?_⟩
    intro i hi
    rw [descRing_clear e i hi]
    exact magicIntact_ringClearDesc e.dir (ih.control i hi)
  | fields _ hring hmax haddr ih => exact ih.fields hring hmax haddr

/-- **Ring integrity.** In every sequence of calls, every link and every magic stands. -/
theorem RingReach.intact (h : RingReach virt2phy e) :
    (∀ i < e.descMax, addrOf (e.descRing i).nextHi (e.descRing i).nextLo
      = if i = e.descMax - 1 then 0 else virt2phy (e.descAddr (i + 1))) ∧
    ∀ i < e.descMax, MagicIntact (e.descRing i).control :=
  ⟨h.inv.next, h.inv.control⟩

end

/-- A ring with one packet staged for transmission and cleared again. -/
def clearedTx : XdmaEngine :=
  xdmaDescRingClear (xdmaH2cDescSet (fun _ => plainMbuf)
    (xdmaDescRingInit id (engineAlloc id .h2c (zoneSize .h2c) 0 SetupAlloc.pages)) 0)

theorem intact_clearedTx :
    (∀ i < clearedTx.descMax,
      addrOf (clearedTx.descRing i).nextHi (clearedTx.descRing i).nextLo
        = if i = clearedTx.descMax - 1 then 0 else id (clearedTx.descAddr (i + 1))) ∧
    ∀ i < clearedTx.descMax, MagicIntact (clearedTx.descRing i).control :=
  RingReach.intact (.ringClear (.h2cDescSet (fun _ => plainMbuf) 0 (.init rfl) (by decide)))

/-! ### The driver's runs -/

section
variable {virt2phy : Addr → Addr} {e : XdmaEngine}

/-- The loop over the packets of a valid burst. -/
theorem RingReach.xmitLoop (heap : Heap) (pkts : List MbufPtr) (avail : Nat)
    (hsegs : ∀ mb ∈ pkts, 1 ≤ (heap mb).nbSegs) (h : RingReach virt2phy e) :
    RingReach virt2phy (xmitLoop heap pkts avail e).2 := by
  induction pkts generalizing avail e with
  | nil => exact h
  | cons mb rest ih =>
    simp only [XdmaDpdk.xmitLoop]
    split
    · exact h
    · exact ih _ (fun p hp => hsegs p (List.mem_cons_of_mem mb hp))
        (h.h2cDescSet heap mb (hsegs mb (List.mem_cons_self ..)))

/-- The adjacency loop, pass after pass. -/
theorem RingReach.xmitAdjacent (b : TxBurst) (hb : ValidBurst b) (h : RingReach virt2phy e) :
    RingReach virt2phy (xmitAdjacent e (acceptedCount e.descMax b)) := by
  -- Each pass of the loop is one call of the helper.
  have hpasses : ∀ n ≤ acceptedCount e.descMax b - 1, RingReach virt2phy
      { e with
        descRing := forEach n (fun i => (0 + i) % e.descMax)
          (fun i d => xdmaDescAdjacentSet d (BitVec.ofNat 32 (acceptedCount e.descMax b - 2 - i)))
          e.descRing } := by
    intro n
    induction n with
    | zero => exact fun _ => h
    | succ n ih =>
      intro hn
      rw [forEach_succ]
      exact RingReach.adjacentSet b n (ih (Nat.le_of_succ_le hn)) hb hn
  exact hpasses _ (Nat.le_refl _)

/-- Starting a channel leaves the ring alone. -/
theorem RingReach.txStart (h : RingReach virt2phy e) (addr : Addr) (adj : Int) :
    RingReach virt2phy (xdmaTxEngineStart e addr adj) := h.fields rfl rfl rfl

theorem RingReach.rxStart (h : RingReach virt2phy e) (addr : Addr) :
    RingReach virt2phy (xdmaRxEngineStart e addr) := h.fields rfl rfl rfl

/-- A valid burst on an idle engine, up to its wait loop. -/
theorem RingReach.xmitStart (b : TxBurst) (hb : ValidBurst b) (h : RingReach virt2phy e) :
    RingReach virt2phy (xmitStart e b).2 := by
  have hrun : RingReach virt2phy { e with running := true } := h.fields rfl rfl rfl
  have hloop := hrun.xmitLoop b.heap b.txPkts e.descMax hb
  have hmax := (frame_xmitLoop b.heap b.txPkts e.descMax { e with running := true }).descMax
  have hcount : (XdmaDpdk.xmitLoop b.heap b.txPkts e.descMax { e with running := true }).1.length
      = acceptedCount e.descMax b := by
    rw [xmitLoop_eq]
    rfl
  have hadj := hloop.controlSet.xmitAdjacent b hb
  have hmax' : acceptedCount (XdmaDpdk.xmitLoop b.heap b.txPkts e.descMax
      { e with running := true }).2.descMax b = acceptedCount e.descMax b := by rw [hmax]
  simp only [XdmaEngine.setDesc] at hadj
  rw [hmax', ← hcount] at hadj
  have hstage : RingReach virt2phy (xmitStage e b).2 := hadj
  rw [xmitStart_engine]
  exact hstage.txStart _ _

theorem RingReach.engineStop (h : RingReach virt2phy e) (r : Nat) :
    RingReach virt2phy (engineReset (engineHalt e r)) := by
  have hreg : RingReach virt2phy (xdmaRegWrite e (r + e.channel.toNat * 0x100) ctrlFlags) :=
    h.fields rfl rfl rfl
  exact hreg.ringClear.fields rfl rfl rfl

theorem RingReach.xdmaRecvPkts (m : RxMem) (nbPkts : Nat) (dev : RxDevice)
    (h : RingReach virt2phy e) : RingReach virt2phy (xdmaRecvPkts e m nbPkts dev).engine := by
  have hpost : ∀ (l : List Nat) (e : XdmaEngine), RingReach virt2phy e →
      RingReach virt2phy (l.foldl (fun e i => xdmaC2hDescSet e (m.heap (m.arr i))) e) := by
    intro l
    induction l with
    | nil => exact fun _ h => h
    | cons i l ih => exact fun e h => ih _ (h.c2hDescSet _)
  -- Armed already, or posted entry after entry and started.
  have henter : RingReach virt2phy (rxEnter e m nbPkts).2.1 := by
    have hclear : RingReach virt2phy e.clearStatus := h.fields rfl rfl rfl
    cases hrun : e.running with
    | true =>
      rw [rxEnter_of_running e m nbPkts hrun]
      exact hclear
    | false =>
      rw [rxEnter_of_idle e m nbPkts hrun]
      show RingReach virt2phy (rxArm e.clearStatus m nbPkts).2.1
      rw [rxArm_engine]
      exact (hpost _ _ hclear).rxStart _
  have hadv : ∀ word count status,
      RingReach virt2phy ((rxEnter e m nbPkts).2.1.advance word count status) :=
    fun _ _ _ => henter.fields rfl rfl rfl
  rw [xdmaRecvPkts_eq]
  obtain ⟨word, count, status, heng | heng⟩ := rxCollect_engine_cases (rxEnter e m nbPkts).2.1
    (rxEnter e m nbPkts).2.2 (rxEnter e m nbPkts).1 dev
  · rw [heng]
    exact hadv word count status
  · rw [heng]
    exact (hadv word count status).engineStop _

/-- **The driver's runs** are sequences of these calls. -/
theorem EngineRun.ringReach (h : EngineRun virt2phy e) : RingReach virt2phy e := by
  have hsetup : ∀ dir channelId a,
      RingReach virt2phy (engineSetup virt2phy dir (zoneSize dir) channelId a) := by
    intro dir channelId a
    exact (RingReach.init (e := engineAlloc virt2phy dir (zoneSize dir) channelId a) rfl).fields
      rfl rfl rfl
  induction h with
  | txSetup channelId a => exact hsetup .h2c channelId a
  | rxSetup channelId a => exact hsetup .c2h channelId a
  | xmit b reads out _ _ hb hx ih =>
    rcases xdmaXmitPkts_cases hx with ⟨-, rfl⟩ | ⟨-, -, rfl⟩
    · exact ih
    · exact (ih.xmitStart b hb).engineStop _
  | xmitWait b _ _ hb _ ih => exact ih.xmitStart b hb
  | recv m nbPkts dev _ _ ih => exact ih.xdmaRecvPkts m nbPkts dev
  | txStop _ _ ih => exact ih.engineStop _
  | rxStop _ _ ih => exact ih.engineStop _
  | writeBack count _ _ ih => exact ih.fields rfl rfl rfl

end

end XdmaDpdk
