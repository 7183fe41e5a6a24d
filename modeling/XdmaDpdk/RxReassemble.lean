import XdmaDpdk.RxLength

namespace XdmaDpdk

/-!
# XDMA driver — packets that span descriptors

A stream packet that fills `k` posted descriptors is reported by `k` write-back records, of
which only the last has EOP.  A caller expects one chain of `k` mbufs for it, and one entry
in the report (`Reassembled`).

`prepare_segmented_packet` has the code that would chain the segments, but its `do` loop ends
in `break` after the first pass, so every descriptor becomes a packet of its own.
`reassembled_iff`: a report is as expected exactly when no packet spans descriptors.
-/

/-! ### Packets in the slots -/

/-- `wb->control >> 16`, as a `uint16_t`. -/
def XdmaC2hStreamWb.magic (wb : XdmaC2hStreamWb) : BitVec 16 := (wb.control >>> 16).setWidth 16

/-- `wb->control & 0x1`. -/
def XdmaC2hStreamWb.eop (wb : XdmaC2hStreamWb) : Bool := wb.control.getLsbD 0

/-- The packets of the slots from `s` on, given the number of descriptors each of them fills:
    the first slot of each, and that number. -/
def packetSlots : Nat → List Nat → List (Nat × Nat)
  | _, [] => []
  | s, k :: ks => (s, k) :: packetSlots (s + k) ks

/-- The records of a packet that fills the `k` slots from `s` on. -/
structure StreamPacket (wb : Nat → XdmaC2hStreamWb) (s k : Nat) : Prop where
  pos : 1 ≤ k
  magic : ∀ j < k, (wb (s + j)).magic = 0x52b4
  eop : ∀ j < k, (wb (s + j)).eop = true ↔ j + 1 = k

@[simp] theorem packetSlots_nil (s : Nat) : packetSlots s [] = [] := rfl

@[simp] theorem packetSlots_cons (s k : Nat) (ks : List Nat) :
    packetSlots s (k :: ks) = (s, k) :: packetSlots (s + k) ks := rfl

@[simp] theorem length_packetSlots (s : Nat) (ks : List Nat) :
    (packetSlots s ks).length = ks.length := by
  induction ks generalizing s with
  | nil => rfl
  | cons k ks ih => simp [ih]

/-- A packet lies within the slots of its report. -/
theorem packetSlots_bounds {s : Nat} {ks : List Nat} {p : Nat × Nat} (hp : p ∈ packetSlots s ks) :
    s ≤ p.1 ∧ p.1 + p.2 ≤ s + ks.sum := by
  induction ks generalizing s with
  | nil => simp at hp
  | cons k ks ih =>
    rw [packetSlots_cons, List.mem_cons] at hp
    rw [List.sum_cons]
    rcases hp with rfl | hp
    · show s ≤ s ∧ s + k ≤ s + (k + ks.sum)
      omega
    · have hrest := ih hp
      omega

/-- The sizes of the packets. -/
theorem packetSlots_sizes (s : Nat) (ks : List Nat) : (packetSlots s ks).map Prod.snd = ks := by
  induction ks generalizing s with
  | nil => rfl
  | cons k ks ih => simp [ih]

/-- Packets of one descriptor each lie in consecutive slots. -/
theorem packetSlots_ones (s : Nat) (ks : List Nat) (h : ∀ k ∈ ks, k = 1) :
    packetSlots s ks = (List.range' s ks.length).map (fun i => (i, 1)) := by
  induction ks generalizing s with
  | nil => rfl
  | cons k ks ih =>
    obtain rfl := h k (List.mem_cons_self ..)
    rw [packetSlots_cons, ih (s + 1) (fun k hk => h k (List.mem_cons_of_mem _ hk)),
      List.length_cons, List.range'_succ, List.map_cons]

theorem sum_ones (ks : List Nat) (h : ∀ k ∈ ks, k = 1) : ks.sum = ks.length := by
  induction ks with
  | nil => rfl
  | cons k ks ih =>
    rw [List.sum_cons, ih (fun k hk => h k (List.mem_cons_of_mem _ hk)),
      h k (List.mem_cons_self ..), List.length_cons, Nat.add_comm]

/-! ### The contract -/

/-- The mbufs of the `k` slots from `s` on form the chain of one packet. -/
structure Chained (heap : Heap) (arr : Nat → MbufPtr) (wb : Nat → XdmaC2hStreamWb) (s k : Nat) :
    Prop where
  nbSegs : (heap (arr s)).nbSegs = k
  pktLen : (heap (arr s)).pktLen.toNat
    = ((List.range k).map fun j => (wb (s + j)).len.toNat).sum
  links : ∀ j, j + 1 < k → (heap (arr (s + j))).next = some (arr (s + j + 1))
  last : (heap (arr (s + (k - 1)))).next = none

/-- The entries `prepare_packets` wrote to the caller's array, in order. -/
def RxMem.reportSince (m res : RxMem) : List MbufPtr :=
  (res.stamped.drop m.stamped.length).map res.arr

/-- Every packet is one chain, and the report has one entry a packet: its first segment. -/
structure Reassembled (m res : RxMem) (wb : Nat → XdmaC2hStreamWb) (c : Nat) (ks : List Nat) :
    Prop where
  chains : ∀ p ∈ packetSlots c ks, Chained res.heap m.arr wb p.1 p.2
  entries : m.reportSince res = (packetSlots c ks).map (fun p => m.arr p.1)

/-- Slots of the report that hold one mbuf received packets of one length. -/
def SharedAgree (m : RxMem) (wb : Nat → XdmaC2hStreamWb) (c n : Nat) : Prop :=
  ∀ i, c ≤ i → i < n → ∀ j, c ≤ j → j < n → m.arr i = m.arr j → (wb i).len = (wb j).len

section
variable (e : XdmaEngine) (wb : Nat → XdmaC2hStreamWb) (m : RxMem) (n c : Nat)

/-- The report has one entry a descriptor. -/
theorem reportSince_preparePackets :
    m.reportSince (preparePackets e wb m n c) = (List.range' c (n - c)).map m.arr := by
  simp [RxMem.reportSince, preparePackets_eq]

/-- A reported mbuf carries the record of the last slot that holds it, as a packet of one
    segment. -/
theorem preparePackets_stamped {i : Nat} (hci : c ≤ i) (hin : i < n) :
    ∃ l mb, c ≤ l ∧ l < n ∧ m.arr l = m.arr i ∧
      (preparePackets e wb m n c).heap (m.arr i) = stampSeg e (wb l) mb := by
  obtain ⟨l, hil, hln, hl, hlast⟩ := exists_last_slot m.arr n i hin
  obtain ⟨mb, hmb⟩ := preparePackets_heap_of_last e wb m n c l (hci.trans hil) hln hlast
  rw [hl] at hmb
  exact ⟨l, mb, hci.trans hil, hln, hl, hmb⟩

/-- A slot is a packet of one segment, with its own length, exactly when the slots that share
    its mbuf agree on it. -/
theorem chained_one_iff :
    (∀ i, c ≤ i → i < n → Chained (preparePackets e wb m n c).heap m.arr wb i 1)
      ↔ SharedAgree m wb c n := by
  constructor
  · intro h i hci hin j hcj hjn heq
    have hi := (h i hci hin).pktLen
    have hj := (h j hcj hjn).pktLen
    rw [heq] at hi
    simp only [List.range_one, List.map_cons, List.map_nil, List.sum_cons, List.sum_nil,
      Nat.add_zero] at hi hj
    exact BitVec.eq_of_toNat_eq (hi.symm.trans hj)
  · intro h i hci hin
    -- The mbuf has the length of the last slot that holds it.
    obtain ⟨l, mb, hcl, hln, hl, hmb⟩ := preparePackets_stamped e wb m n c hci hin
    have hlen : (wb l).len = (wb i).len := h l hcl hln i hci hin hl
    refine ⟨?_, ?_, ?_, ?_⟩
    · rw [hmb]
      rfl
    · rw [hmb]
      show (wb l).len.toNat = _
      simp [hlen]
    · intro j hj
      omega
    · show ((preparePackets e wb m n c).heap (m.arr i)).next = none
      rw [hmb]
      rfl

end

/-- The result of a call counts the entries of its report. -/
theorem RxInv.ret_eq_entries {q : RxQueue} {m : RxMem} {nbPkts : Nat} {dev : RxDevice}
    (h : RxInv q) (hdev : DevValid q m nbPkts dev) {c' : Nat}
    (htrust : StableRead.lastStable dev.reads (xdmaRecvPkts q.eng m nbPkts dev).lastPass = some c')
    (hle : (q.enter m nbPkts).eng.descUsed ≤ c') :
    (xdmaRecvPkts q.eng m nbPkts dev).ret
      = (m.reportSince (xdmaRecvPkts q.eng m nbPkts dev).mem).length := by
  obtain ⟨v, -, -, hv, hc⟩ := h.consumes hdev
  obtain rfl := Option.some.inj (hc.trusted.symm.trans htrust)
  obtain ⟨read, hmem⟩ := h.mem_recv hdev htrust
  have hreport : m.reportSince (xdmaRecvPkts q.eng m nbPkts dev).mem
      = (List.range' (q.enter m nbPkts).eng.descUsed (v - (q.enter m nbPkts).eng.descUsed)).map
          m.arr := by
    rw [hmem]
    exact reportSince_preparePackets _ dev.wb { m with touched := m.touched ++ read } v _
  have hposted := (h.enter m nbPkts).posted
  have hmax : (q.enter m nbPkts).eng.descMax = 32 := h.enter_descMax
  rw [hreport, hc.ret, List.length_map, List.length_range']
  omega

/-- **Reassembly.** For every engine and memory, and every sequence of packets in the slots
    of one report: the report is as expected exactly when every packet fills one descriptor,
    and slots that share an mbuf agree on the length. -/
theorem reassembled_iff (e : XdmaEngine) (wb : Nat → XdmaC2hStreamWb) (m : RxMem) (c : Nat)
    (ks : List Nat) (hks : ∀ p ∈ packetSlots c ks, StreamPacket wb p.1 p.2) :
    Reassembled m (preparePackets e wb m (c + ks.sum) c) wb c ks
      ↔ (∀ k ∈ ks, k = 1) ∧ SharedAgree m wb c (c + ks.sum) := by
  constructor
  · intro h
    have hones : ∀ k ∈ ks, k = 1 := by
      intro k hk
      rw [← packetSlots_sizes c ks, List.mem_map] at hk
      obtain ⟨p, hp, rfl⟩ := hk
      -- The first mbuf of the packet was stamped as a packet of one segment.
      obtain ⟨hlo, hhi⟩ := packetSlots_bounds hp
      have hpos := (hks p hp).pos
      obtain ⟨l, mb, -, -, -, hmb⟩ := preparePackets_stamped e wb m (c + ks.sum) c hlo
        (show p.1 < c + ks.sum by omega)
      have hsegs := (h.chains p hp).nbSegs
      rw [hmb] at hsegs
      exact hsegs.symm
    refine ⟨hones, (chained_one_iff e wb m (c + ks.sum) c).mp ?_⟩
    intro i hci hin
    -- So the packets are the slots, one each.
    apply h.chains (i, 1)
    rw [packetSlots_ones c ks hones, List.mem_map]
    rw [sum_ones ks hones] at hin
    exact ⟨i, List.mem_range'_1.mpr ⟨hci, hin⟩, rfl⟩
  · rintro ⟨hones, hshared⟩
    have hchain := (chained_one_iff e wb m (c + ks.sum) c).mpr hshared
    refine ⟨?_, ?_⟩
    · intro p hp
      rw [packetSlots_ones c ks hones, List.mem_map] at hp
      obtain ⟨i, hi, rfl⟩ := hp
      obtain ⟨hci, hin⟩ := List.mem_range'_1.mp hi
      rw [← sum_ones ks hones] at hin
      exact hchain i hci hin
    · rw [reportSince_preparePackets, Nat.add_sub_cancel_left, packetSlots_ones c ks hones,
        sum_ones ks hones, List.map_map]
      rfl

/-- A device whose records all are those of packets of one descriptor. -/
def oneSlotWb (_ : Nat) : XdmaC2hStreamWb := ⟨0x52b40001, 64⟩

theorem streamPacket_oneSlot (s : Nat) : StreamPacket oneSlotWb s 1 where
  pos := Nat.le_refl 1
  magic _ _ := by
    show (XdmaC2hStreamWb.mk 0x52b40001 64).magic = 0x52b4
    decide
  eop j hj := by
    have heop : (XdmaC2hStreamWb.mk 0x52b40001 64).eop = true := by decide
    exact ⟨fun _ => by omega, fun _ => heop⟩

/-- The records of one packet in two descriptors: EOP with the second only. -/
def twoSlotWb (i : Nat) : XdmaC2hStreamWb := ⟨if i = 1 then 0x52b40001 else 0x52b40000, 64⟩

/-- Two packets of one descriptor each, reported together. -/
theorem reassembled_two_packets :
    Reassembled plainMem (preparePackets freshRx.eng oneSlotWb plainMem (0 + [1, 1].sum) 0)
        oneSlotWb 0 [1, 1]
      ↔ (∀ k ∈ [1, 1], k = 1) ∧ SharedAgree plainMem oneSlotWb 0 (0 + [1, 1].sum) :=
  reassembled_iff freshRx.eng oneSlotWb plainMem 0 [1, 1] (by
    intro p hp
    have hk : p.2 = 1 := by
      have hmem := List.mem_map_of_mem (f := Prod.snd) hp
      rw [packetSlots_sizes] at hmem
      simpa using hmem
    rw [hk]
    exact streamPacket_oneSlot p.1)

/-- A packet of two descriptors is reported as two packets. -/
theorem reassembled_fails :
    ¬ ∀ (e : XdmaEngine) (wb : Nat → XdmaC2hStreamWb) (m : RxMem) (c : Nat) (ks : List Nat),
      (∀ p ∈ packetSlots c ks, StreamPacket wb p.1 p.2) →
      Reassembled m (preparePackets e wb m (c + ks.sum) c) wb c ks := by
  intro h
  have hpkt : ∀ p ∈ packetSlots 0 [2], StreamPacket twoSlotWb p.1 p.2 := by
    intro p hp
    obtain rfl : p = (0, 2) := by simpa using hp
    refine ⟨by decide, ?_, ?_⟩
    · show ∀ j < 2, (twoSlotWb (0 + j)).magic = 0x52b4
      decide
    · show ∀ j < 2, (twoSlotWb (0 + j)).eop = true ↔ j + 1 = 2
      decide
  have hsegs := (h freshRx.eng twoSlotWb plainMem 0 [2] hpkt).entries
  rw [reportSince_preparePackets] at hsegs
  exact absurd hsegs (by decide)

end XdmaDpdk
