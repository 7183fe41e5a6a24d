import XdmaDpdk.Engine

namespace XdmaDpdk

open ArrayLoop

/-!
# XDMA driver — the receive burst

`xdmaRecvPkts` follows `xdma_recv_pkts` in `xdma_rxtx.c`: on an idle engine post one
descriptor per array entry and start the channel (`rxArm`), poll the completed count until a
double read is stable and differs from what was consumed before (`rxPoll`), stamp the mbufs
of the newly completed slots (`preparePackets`), and stop the channel when the consumed
count equals the requested one.

Everything the device contributes to one call is its argument `RxDevice`: the values of the
completed count at the successive double reads, and the stream write-back record as it is
when each slot is stamped.

The specification lemmas are `rxArm_eq` for the arming branch, `rxPoll_cases` for the poll
loop and `preparePackets_eq` for the stamping.
-/

/-! ### What the caller and the device supply -/

/-- `struct xdma_c2h_stream_wb`. -/
structure XdmaC2hStreamWb where
  control : BitVec 32
  len : BitVec 32
deriving DecidableEq, Repr

/-- The device's side of one call: the two reads of the completed count made by each pass of
    the poll loop, and the write-back record as it is when each slot is stamped. -/
structure RxDevice where
  reads : Nat → Nat × Nat
  wb : Nat → XdmaC2hStreamWb

/-- The memory a call works on: the mbufs, the caller's array `rx_pkts`, the indices of
    `rx_pkts` read or written, and the slots stamped, both in order. -/
structure RxMem where
  heap : Heap
  arr : Nat → MbufPtr
  touched : List Nat
  stamped : List Nat

/-- What a call leaves: its `uint16_t` result, the engine and the memory; and how its poll
    loop ended: on which count (`none` for a time-out) and in which pass. -/
structure RecvResult where
  ret : Nat
  engine : XdmaEngine
  mem : RxMem
  sample : Option Nat
  lastPass : Nat

/-! ### Posting descriptors -/

/-- The address of the stream write-back record as the burst paths compute it,
    `desc_ring + XDMA_DESC_SIZE * desc_max + XDMA_POLL_MODE_WB_SIZE`. -/
def XdmaEngine.streamWbAddr (e : XdmaEngine) : Addr :=
  e.descRingAddr + BitVec.ofNat 64 (xdmaDescSize * e.descMax + xdmaPollModeWbSize)

/-- `vir2phy` of `xdma_c2h_desc_set`, the offset of the mbuf's memory. -/
def RteMbuf.vir2phy (mb : RteMbuf) : Addr := mb.bufIova - mb.bufAddr

/-- The stores `xdma_c2h_desc_set` makes to one descriptor. -/
def fillC2hDesc (streamWbAddr : Addr) (mb : RteMbuf) (desc : XdmaDesc) : XdmaDesc :=
  let dstAddr := mb.dataIova
  let srcAddr := streamWbAddr + mb.vir2phy
  xdmaDescControlSet
    { desc with
      dstAddrLo := lo32 dstAddr
      dstAddrHi := hi32 dstAddr
      srcAddrLo := lo32 srcAddr
      srcAddrHi := hi32 srcAddr
      len := 64 }
    xdmaDescCompleted

@[simp] theorem srcAddr_fillC2hDesc (streamWbAddr : Addr) (mb : RteMbuf) (desc : XdmaDesc) :
    (fillC2hDesc streamWbAddr mb desc).srcAddr = streamWbAddr + mb.vir2phy := by
  simp [fillC2hDesc, xdmaDescControlSet, XdmaDesc.srcAddr]

def xdmaC2hDescSet (e : XdmaEngine) (mb : RteMbuf) : XdmaEngine :=
  takeDesc e (fillC2hDesc e.streamWbAddr mb)

/-- The loop that posts one descriptor per array entry. -/
def rxPost (e : XdmaEngine) (m : RxMem) (nbPkts : Nat) : XdmaEngine :=
  (List.range nbPkts).foldl (fun e i => xdmaC2hDescSet e (m.heap (m.arr i))) e

/-- The arming branch: the clamped `nb_pkts`, the started engine, and the memory with the
    array entries it read. -/
def rxArm (e : XdmaEngine) (m : RxMem) (nbPkts : Nat) : Nat × XdmaEngine × RxMem :=
  let nbPkts := min nbPkts e.descMax
  let e := rxPost e m nbPkts
  (nbPkts, xdmaRxEngineStart e (e.descAddr 0),
    { m with touched := m.touched ++ List.range nbPkts })

/-! ### The poll loop -/

/-- A pass of the poll loop sees a stable count that differs from the consumed one. -/
def rxHit (descUsed : Nat) (r : Nat × Nat) : Bool := r.1 == r.2 && r.1 != descUsed

/-- The poll loop from pass `i` on, with `left` more passes allowed after it; returns the
    count it ends on, if it does not time out, and the number of its last pass. -/
def rxPoll (descUsed : Nat) (reads : Nat → Nat × Nat) : Nat → Nat → Option Nat × Nat
  | 0, i => if rxHit descUsed (reads i) then (some (reads i).1, i) else (none, i)
  | left + 1, i =>
    if rxHit descUsed (reads i) then (some (reads i).1, i) else rxPoll descUsed reads left (i + 1)

/-- The passes after the first that `tran_time > 100` allows. -/
def rxRetries : Nat := 100

/-! ### Stamping mbufs -/

/-- The fields of a first segment. -/
def stampFirst (e : XdmaEngine) (wb : XdmaC2hStreamWb) (mb : RteMbuf) : RteMbuf :=
  { mb with
    nbSegs := 1
    pktLen := wb.len
    dataLen := wb.len.setWidth 16
    packetType := 0
    olFlags := 0
    port := e.portId.setWidth 16
    vlanTci := 0
    rss := 0 }

/-- One pass of the `do` loop of `prepare_segmented_packet`, on the mbuf of slot `id`;
    returns the memory and `first_seg`. -/
def segPass (e : XdmaEngine) (wb : XdmaC2hStreamWb) (id : Nat) (firstSeg lastSeg : Option MbufPtr)
    (m : RxMem) : RxMem × MbufPtr :=
  let mb := m.arr id
  let heap := match firstSeg with
    | none => Function.update m.heap mb (stampFirst e wb (m.heap mb))
    | some first =>
      let heap := Function.update m.heap first
        { m.heap first with nbSegs := (m.heap first).nbSegs + 1 }
      match lastSeg with
      | some last => Function.update heap last { heap last with next := some mb }
      | none => heap
  let heap := Function.update heap mb { heap mb with next := none }
  ({ m with heap := heap, touched := m.touched ++ [id] }, firstSeg.getD mb)

/-- The body of the `do` loop ends in `break`: its first pass is the only one, whatever
    the magic and the EOP flag of the record are. -/
def prepareSegmentedPacket (e : XdmaEngine) (wb : XdmaC2hStreamWb) (id : Nat) (m : RxMem) :
    RxMem × MbufPtr :=
  segPass e wb id none none m

/-- One pass of the loop of `prepare_packets`: stamp the mbuf of a slot, prefetch the next
    array entry, store the pointer back. -/
def preparePacket (e : XdmaEngine) (wb : XdmaC2hStreamWb) (countDesc : Nat) (m : RxMem) : RxMem :=
  let (m, mb) := prepareSegmentedPacket e wb countDesc m
  { m with
    arr := Function.update m.arr countDesc mb
    touched := m.touched ++ [countDesc + 1, countDesc]
    stamped := m.stamped ++ [countDesc] }

/-- `prepare_packets`, over the slots `nbCmptDesc, …, nbPkts - 1`. -/
def preparePackets (e : XdmaEngine) (wb : Nat → XdmaC2hStreamWb) (m : RxMem)
    (nbPkts nbCmptDesc : Nat) : RxMem :=
  (List.range (nbPkts - nbCmptDesc)).foldl
    (fun m k => preparePacket e (wb (nbCmptDesc + k)) (nbCmptDesc + k) m) m

/-! ### The burst -/

/-- The part of the call after the arming branch: poll, stamp, and stop if the consumed
    count is the requested one.  The word is left as the last read found it. -/
def rxCollect (e : XdmaEngine) (m : RxMem) (nbPkts : Nat) (dev : RxDevice) : RecvResult :=
  let (sample, pass) := rxPoll e.descUsed dev.reads rxRetries 0
  let e := { e with completedDescCount := (dev.reads pass).2 }
  let (ret, e, m) := match sample with
    | some count =>
      -- `uint16_t` arguments of `prepare_packets`, and the `uint16_t` difference
      let m := preparePackets e dev.wb m (count % 2 ^ 16) (e.descUsed % 2 ^ 16)
      let ret := (count + 2 ^ 32 - e.descUsed) % 2 ^ 16
      (ret, { e with descUsed := count, status := rxCommpleted }, m)
    | none => (0, e, m)
  let e := if e.descUsed = nbPkts then xdmaRxEngineStop e else e
  { ret := ret, engine := e, mem := m, sample := sample, lastPass := pass }

/-- `engine->status = 0`. -/
def XdmaEngine.clearStatus (e : XdmaEngine) : XdmaEngine := { e with status := 0 }

/-- `xdma_recv_pkts`. -/
def xdmaRecvPkts (e : XdmaEngine) (m : RxMem) (nbPkts : Nat) (dev : RxDevice) : RecvResult :=
  let e := e.clearStatus
  if e.running then rxCollect e m nbPkts dev
  else
    let (nbPkts, e, m) := rxArm e m nbPkts
    rxCollect e m nbPkts dev

/-! ### Arming in closed form -/

/-- The descriptor writes of an arming call. -/
def armFills (e : XdmaEngine) (m : RxMem) (n : Nat) : List (XdmaDesc → XdmaDesc) :=
  (List.range n).map (fun i => fillC2hDesc e.streamWbAddr (m.heap (m.arr i)))

theorem foldl_xdmaC2hDescSet (mb : Nat → RteMbuf) (l : List Nat) (e : XdmaEngine) :
    l.foldl (fun e i => xdmaC2hDescSet e (mb i)) e
      = (l.map (fun i => fillC2hDesc e.streamWbAddr (mb i))).foldl takeDesc e := by
  induction l generalizing e with
  | nil => rfl
  | cons i l ih =>
    rw [List.foldl_cons, ih, List.map_cons, List.foldl_cons]
    rfl

/-- The armed engine: `min nbPkts descMax` descriptors posted from index 0 on, and
    `desc_used` wrapped to 0 exactly when they fill the ring. -/
theorem rxArm_eq (e : XdmaEngine) (m : RxMem) (nbPkts : Nat) (hused : e.descUsed = 0)
    (hmax : 0 < e.descMax) :
    rxArm e m nbPkts
      = (min nbPkts e.descMax,
          xdmaRxEngineStart
            { e with
              descRing := writeFrom 0 (armFills e m (min nbPkts e.descMax)) e.descRing
              descUsed := min nbPkts e.descMax % e.descMax }
            (e.descAddr 0),
          { m with touched := m.touched ++ List.range (min nbPkts e.descMax) }) := by
  have hfold := foldl_takeDesc (armFills e m (min nbPkts e.descMax)) e (by omega)
    (by simp only [armFills, List.length_map, List.length_range]; omega)
  simp only [armFills, List.length_map, List.length_range, hused, Nat.zero_add] at hfold
  simp only [rxArm, rxPost, foldl_xdmaC2hDescSet, hfold]
  rfl

/-- The engine of an arming call is the posted one, started. -/
theorem rxArm_engine (e : XdmaEngine) (m : RxMem) (nbPkts : Nat) :
    (rxArm e m nbPkts).2.1
      = xdmaRxEngineStart (rxPost e m (min nbPkts e.descMax))
          ((rxPost e m (min nbPkts e.descMax)).descAddr 0) := rfl

section
variable (e : XdmaEngine) (m : RxMem) (nbPkts : Nat) (hused : e.descUsed = 0)
  (hmax : 0 < e.descMax)
include hused hmax

theorem rxArm_descUsed :
    (rxArm e m nbPkts).2.1.descUsed = min nbPkts e.descMax % e.descMax := by
  rw [rxArm_eq e m nbPkts hused hmax]
  rfl

theorem rxArm_word : (rxArm e m nbPkts).2.1.completedDescCount = e.completedDescCount := by
  rw [rxArm_eq e m nbPkts hused hmax]
  rfl

/-- The ring an arming call posts. -/
theorem rxArm_ring :
    (rxArm e m nbPkts).2.1.descRing
      = writeFrom 0 (armFills e m (min nbPkts e.descMax)) e.descRing := by
  rw [rxArm_eq e m nbPkts hused hmax]
  rfl

/-- A posted descriptor is filled for the mbuf at its index. -/
theorem rxArm_desc (i : Nat) (hi : i < min nbPkts e.descMax) :
    (rxArm e m nbPkts).2.1.descRing i
      = fillC2hDesc e.streamWbAddr (m.heap (m.arr i)) (e.descRing i) := by
  have hlen : i < (armFills e m (min nbPkts e.descMax)).length := by
    rwa [armFills, List.length_map, List.length_range]
  have hget : (armFills e m (min nbPkts e.descMax))[i]
      = fillC2hDesc e.streamWbAddr (m.heap (m.arr i)) := by
    simp [armFills]
  have hfill := writeFrom_lt 0 (armFills e m (min nbPkts e.descMax)) e.descRing i hlen
  rw [Nat.zero_add, hget] at hfill
  rw [rxArm_ring e m nbPkts hused hmax, hfill]

/-- The write-back address of a posted descriptor: the record's address as the burst paths
    compute it, moved by the offset of the mbuf's memory. -/
theorem rxArm_srcAddr (i : Nat) (hi : i < min nbPkts e.descMax) :
    ((rxArm e m nbPkts).2.1.descRing i).srcAddr
      = e.streamWbAddr + (m.heap (m.arr i)).vir2phy := by
  rw [rxArm_desc e m nbPkts hused hmax i hi, srcAddr_fillC2hDesc]

end

/-! ### The poll loop, inverted -/

/-- A pass hits on two equal reads of a count not consumed yet. -/
theorem rxHit_iff {descUsed : Nat} {r : Nat × Nat} :
    rxHit descUsed r = true ↔ r.1 = r.2 ∧ r.1 ≠ descUsed := by
  unfold rxHit
  rw [Bool.and_eq_true, beq_iff_eq, bne_iff_ne]

/-- A hit on the present pass ends the loop, whatever is left. -/
theorem rxPoll_cases_hit (descUsed : Nat) (reads : Nat → Nat × Nat) (left i : Nat)
    (h : rxHit descUsed (reads i) = true) :
    ∃ count pass, rxPoll descUsed reads left i = (some count, pass) ∧ i ≤ pass ∧
      pass ≤ i + left ∧ reads pass = (count, count) ∧ count ≠ descUsed ∧
      ∀ j, i ≤ j → j < pass → rxHit descUsed (reads j) = false := by
  have hr := rxHit_iff.mp h
  refine ⟨(reads i).1, i, ?_, Nat.le_refl i, by omega, Prod.ext rfl hr.1.symm, hr.2, ?_⟩
  · -- The test is the same with and without passes left.
    cases left <;> simp [rxPoll, h]
  · intro j hij hji
    omega

/-- **Inversion.** The loop ends on the first stable changed count, or, when none of its
    passes shows one, times out after the last. -/
theorem rxPoll_cases (descUsed : Nat) (reads : Nat → Nat × Nat) (left i : Nat) :
    (∃ count pass, rxPoll descUsed reads left i = (some count, pass) ∧ i ≤ pass ∧
        pass ≤ i + left ∧ reads pass = (count, count) ∧ count ≠ descUsed ∧
        ∀ j, i ≤ j → j < pass → rxHit descUsed (reads j) = false) ∨
      (rxPoll descUsed reads left i = (none, i + left) ∧
        ∀ j, i ≤ j → j ≤ i + left → rxHit descUsed (reads j) = false) := by
  induction left generalizing i with
  | zero =>
    by_cases h : rxHit descUsed (reads i) = true
    · exact .inl (rxPoll_cases_hit descUsed reads 0 i h)
    · rw [Bool.not_eq_true] at h
      refine .inr ⟨by simp [rxPoll, h], fun j hij hji => ?_⟩
      rwa [show j = i by omega]
  | succ left ih =>
    by_cases h : rxHit descUsed (reads i) = true
    · exact .inl (rxPoll_cases_hit descUsed reads (left + 1) i h)
    · rw [Bool.not_eq_true] at h
      have hnext : rxPoll descUsed reads (left + 1) i = rxPoll descUsed reads left (i + 1) := by
        simp [rxPoll, h]
      rw [hnext]
      -- The passes before the next one are the present pass, which did not hit.
      have hhead : ∀ j, i ≤ j → j < i + 1 → rxHit descUsed (reads j) = false := by
        intro j hij hji
        rwa [show j = i by omega]
      rcases ih (i + 1) with ⟨count, pass, hp, hle, hub, hr, hne, hmiss⟩ | ⟨hp, hmiss⟩
      · refine .inl ⟨count, pass, hp, by omega, by omega, hr, hne, fun j hij hjp => ?_⟩
        rcases Nat.lt_or_ge j (i + 1) with hlt | hge
        · exact hhead j hij hlt
        · exact hmiss j hge hjp
      · refine .inr ⟨by rw [hp]; congr 1; omega, fun j hij hjp => ?_⟩
        rcases Nat.lt_or_ge j (i + 1) with hlt | hge
        · exact hhead j hij hlt
        · exact hmiss j hge (by omega)

/-! ### The count a call finds -/

/-- The count the reads of a call lead to: the first stable one that differs from the
    consumed count `used`, or `used` itself when no pass of the poll loop shows another. -/
def FoundCount (used : Nat) (reads : Nat → Nat × Nat) (c' : Nat) : Prop :=
  (∃ pass ≤ rxRetries, reads pass = (c', c') ∧ c' ≠ used ∧
      ∀ j < pass, rxHit used (reads j) = false) ∨
    (c' = used ∧ ∀ j ≤ rxRetries, rxHit used (reads j) = false)

theorem rxHit_of_read {used c' : Nat} {r : Nat × Nat} (hr : r = (c', c')) (hne : c' ≠ used) :
    rxHit used r = true := by
  apply rxHit_iff.mpr
  rw [hr]
  exact ⟨rfl, hne⟩

/-- The reads of a call lead to one count. -/
theorem FoundCount.unique {used c₁ c₂ : Nat} {reads : Nat → Nat × Nat}
    (h₁ : FoundCount used reads c₁) (h₂ : FoundCount used reads c₂) : c₁ = c₂ := by
  rcases h₁ with ⟨p₁, hle₁, hr₁, hne₁, hmiss₁⟩ | ⟨rfl, hmiss₁⟩
  · have hhit₁ := rxHit_of_read hr₁ hne₁
    rcases h₂ with ⟨p₂, -, hr₂, hne₂, hmiss₂⟩ | ⟨rfl, hmiss₂⟩
    · -- Both are the count of the first hit.
      have hhit₂ := rxHit_of_read hr₂ hne₂
      rcases Nat.lt_trichotomy p₁ p₂ with hlt | rfl | hlt
      · exact absurd (hhit₁.symm.trans (hmiss₂ p₁ hlt)) (by decide)
      · exact congrArg Prod.fst (hr₁.symm.trans hr₂)
      · exact absurd (hhit₂.symm.trans (hmiss₁ p₂ hlt)) (by decide)
    · exact absurd (hhit₁.symm.trans (hmiss₂ p₁ hle₁)) (by decide)
  · rcases h₂ with ⟨p₂, hle₂, hr₂, hne₂, -⟩ | ⟨rfl, -⟩
    · exact absurd ((rxHit_of_read hr₂ hne₂).symm.trans (hmiss₁ p₂ hle₂)) (by decide)
    · rfl

/-- The count the poll loop of a call ends on; the consumed one after a time-out. -/
def rxEnd (used : Nat) (reads : Nat → Nat × Nat) : Nat :=
  (rxPoll used reads rxRetries 0).1.getD used

/-- The reads of a call lead to the count its poll loop ends on. -/
theorem foundCount_rxEnd (used : Nat) (reads : Nat → Nat × Nat) :
    FoundCount used reads (rxEnd used reads) := by
  unfold rxEnd
  rcases rxPoll_cases used reads rxRetries 0 with
    ⟨count, pass, hp, -, hle, hread, hne, hmiss⟩ | ⟨hp, hmiss⟩
  · rw [hp]
    exact .inl ⟨pass, by omega, hread, hne, fun j hj => hmiss j (Nat.zero_le j) hj⟩
  · rw [hp]
    exact .inr ⟨rfl, fun j hj => hmiss j (Nat.zero_le j) (by omega)⟩

/-! ### Stamping in closed form -/

/-- What `prepare_segmented_packet` does to the mbuf of a slot. -/
def stampSeg (e : XdmaEngine) (wb : XdmaC2hStreamWb) (mb : RteMbuf) : RteMbuf :=
  { stampFirst e wb mb with next := none }

theorem preparePacket_eq (e : XdmaEngine) (wb : XdmaC2hStreamWb) (i : Nat) (m : RxMem) :
    preparePacket e wb i m
      = { heap := Function.update m.heap (m.arr i) (stampSeg e wb (m.heap (m.arr i)))
          arr := m.arr
          touched := m.touched ++ [i, i + 1, i]
          stamped := m.stamped ++ [i] } := by
  simp [preparePacket, prepareSegmentedPacket, segPass, stampSeg]

/-- **Stamping lemma.** The mbufs of the slots `c, …, n - 1` are stamped in order, each with
    the record found at its turn; the array is left as it was. -/
theorem preparePackets_eq (e : XdmaEngine) (wb : Nat → XdmaC2hStreamWb) (m : RxMem) (n c : Nat) :
    preparePackets e wb m n c
      = { heap := forEach (n - c) (fun k => m.arr (c + k)) (fun k => stampSeg e (wb (c + k))) m.heap
          arr := m.arr
          touched := m.touched ++ (List.range (n - c)).flatMap (fun k => [c + k, c + k + 1, c + k])
          stamped := m.stamped ++ List.range' c (n - c) } := by
  unfold preparePackets
  induction n - c with
  | zero => simp
  | succ len ih =>
    -- One slot more: its pass comes last.
    rw [List.range_succ, List.foldl_append, ih, List.foldl_cons, List.foldl_nil, preparePacket_eq,
      forEach_succ, List.flatMap_append, List.range'_concat]
    simp [List.append_assoc]

/-- An mbuf that no stamped slot holds is untouched. -/
theorem preparePackets_heap_of_notMem (e : XdmaEngine) (wb : Nat → XdmaC2hStreamWb) (m : RxMem)
    (n c : Nat) (p : MbufPtr) (hp : ∀ i, c ≤ i → i < n → m.arr i ≠ p) :
    (preparePackets e wb m n c).heap p = m.heap p := by
  rw [preparePackets_eq]
  exact forEach_of_forall_ne _ _ _ _ _ (fun k hk => hp (c + k) (by omega) (by omega))

/-- The mbuf of a stamped slot that no later slot holds too. -/
theorem preparePackets_heap_of_last (e : XdmaEngine) (wb : Nat → XdmaC2hStreamWb) (m : RxMem)
    (n c i : Nat) (hci : c ≤ i) (hin : i < n)
    (hlast : ∀ k, i < k → k < n → m.arr k ≠ m.arr i) :
    ∃ mb, (preparePackets e wb m n c).heap (m.arr i) = stampSeg e (wb i) mb := by
  have h := forEach_of_last (n - c) (fun k => m.arr (c + k)) (fun k => stampSeg e (wb (c + k)))
    m.heap (i - c) (by omega)
  simp only [Nat.add_sub_of_le hci] at h
  rw [preparePackets_eq]
  exact ⟨_, h (fun k hk hkn => hlast (c + k) (by omega) (by omega))⟩

/-- The mbuf of a stamped slot, when the stamped slots hold distinct mbufs. -/
theorem preparePackets_heap_of_mem (e : XdmaEngine) (wb : Nat → XdmaC2hStreamWb) (m : RxMem)
    (n c : Nat) (hinj : ∀ i, c ≤ i → i < n → ∀ j, c ≤ j → j < n → m.arr i = m.arr j → i = j)
    (i : Nat) (hci : c ≤ i) (hin : i < n) :
    (preparePackets e wb m n c).heap (m.arr i) = stampSeg e (wb i) (m.heap (m.arr i)) := by
  -- Distinct passes stamp distinct mbufs.
  have hpass : ∀ k < n - c, ∀ k' < n - c, m.arr (c + k) = m.arr (c + k') → k = k' := by
    intro k hk k' hk' heq
    have hslot := hinj (c + k) (by omega) (by omega) (c + k') (by omega) (by omega) heq
    omega
  have h := forEach_of_injOn (n - c) (fun k => m.arr (c + k)) (fun k => stampSeg e (wb (c + k)))
    m.heap
    hpass (i - c) (by omega)
  rw [preparePackets_eq]
  simpa only [Nat.add_sub_of_le hci] using h

end XdmaDpdk
