import XdmaDpdk.RxHandBack

namespace XdmaDpdk

open StableRead

/-!
# XDMA driver — the lengths a receive burst stamps

The device writes the length of each received packet to the address in its descriptor's
source field; the driver reads one record, in the queue's zone.  `recordAfter` is what that
record holds after a number of completions.

`lengthFaithful_iff` says when the mbufs a call stamps carry the lengths of their own
packets: for each slot stamped, the record read at that moment must have the length of the
slot's packet, and the length must fit the 16 bits of `data_len`.  The descriptors of one
ring share the record, so a call that finds two completions of different lengths breaks it
(`lengthFaithful_fails`).
-/

/-! ### The write-back record -/

/-- The record at the bus address `bus` after the descriptors `0, …, d - 1` were completed
    with the write-backs `pkts`. -/
def recordAfter (bus : Addr) (ring : Nat → XdmaDesc) (pkts : Nat → XdmaC2hStreamWb)
    (before : XdmaC2hStreamWb) : Nat → XdmaC2hStreamWb
  | 0 => before
  | d + 1 => if (ring d).srcAddr = bus then pkts d else recordAfter bus ring pkts before d

/-- The record the driver reads during a call, after `d` completions. -/
def RxQueue.record (virt2phy : Addr → Addr) (q : RxQueue) (m : RxMem) (nbPkts : Nat)
    (pkts : Nat → XdmaC2hStreamWb) (before : XdmaC2hStreamWb) (d : Nat) : XdmaC2hStreamWb :=
  recordAfter (virt2phy (q.enter m nbPkts).eng.streamWbAddr) (q.enter m nbPkts).eng.descRing
    pkts before d

/-- The device's side of a call on a ring whose packets have the write-backs `pkts`: when
    slot `i` is stamped `done i` descriptors are completed, at least those the last read
    showed, and the record is as these completions left it. -/
structure WritesBack (virt2phy : Addr → Addr) (q : RxQueue) (m : RxMem) (nbPkts : Nat)
    (pkts : Nat → XdmaC2hStreamWb) (before : XdmaC2hStreamWb) (done : Nat → Nat)
    (dev : RxDevice) : Prop where
  valid : DevValid q m nbPkts dev
  shown : ∀ i, (dev.reads (xdmaRecvPkts q.eng m nbPkts dev).lastPass).2 ≤ done i
  mono : ∀ i j, i ≤ j → done i ≤ done j
  bound : ∀ i, done i ≤ (q.enter m nbPkts).posted.length
  record : ∀ i, dev.wb i = q.record virt2phy m nbPkts pkts before (done i)

/-! ### The contract -/

/-- The slots a call stamps. -/
def RxQueue.newlyStamped (q : RxQueue) (m : RxMem) (nbPkts : Nat) (dev : RxDevice) : List Nat :=
  (xdmaRecvPkts q.eng m nbPkts dev).mem.stamped.drop m.stamped.length

/-- Every mbuf the call stamps has the length of its own packet, the one received into the
    descriptor it was posted in. -/
def LengthFaithful (q : RxQueue) (m : RxMem) (nbPkts : Nat) (dev : RxDevice)
    (pkts : Nat → XdmaC2hStreamWb) : Prop :=
  ∀ i ∈ q.newlyStamped m nbPkts dev, ∀ j, (q.enter m nbPkts).posted[j]? = some (m.arr i) →
    ((xdmaRecvPkts q.eng m nbPkts dev).mem.heap (m.arr i)).pktLen = (pkts j).len ∧
      ((xdmaRecvPkts q.eng m nbPkts dev).mem.heap (m.arr i)).dataLen.toNat = (pkts j).len.toNat

/-- The condition on the packets and the completions, for a call that finds the count `c'`:
    what the record holds when a slot is stamped has the length of the slot's packet, in 16
    bits.  Where slots share an mbuf, the last of them counts. -/
def RecordMatches (virt2phy : Addr → Addr) (q : RxQueue) (m : RxMem) (nbPkts : Nat)
    (pkts : Nat → XdmaC2hStreamWb) (before : XdmaC2hStreamWb) (done : Nat → Nat) (c' : Nat) :
    Prop :=
  ∀ i, (q.enter m nbPkts).eng.descUsed ≤ i → i < c' →
    (∀ k, i < k → k < c' → m.arr k ≠ m.arr i) →
    ∀ j, (q.enter m nbPkts).posted[j]? = some (m.arr i) →
      (q.record virt2phy m nbPkts pkts before (done i)).len = (pkts j).len ∧
        (pkts j).len.toNat < 2 ^ 16

/-- The two length fields hold the length `len` exactly when the record has it and it fits
    16 bits. -/
theorem stamped_len_iff (e : XdmaEngine) (wb : XdmaC2hStreamWb) (mb : RteMbuf) (len : BitVec 32) :
    ((stampSeg e wb mb).pktLen = len ∧ (stampSeg e wb mb).dataLen.toNat = len.toNat)
      ↔ wb.len = len ∧ len.toNat < 2 ^ 16 := by
  have hpkt : (stampSeg e wb mb).pktLen = wb.len := rfl
  have hdata : (stampSeg e wb mb).dataLen.toNat = wb.len.toNat % 2 ^ 16 :=
    BitVec.toNat_setWidth 16 wb.len
  rw [hpkt, hdata]
  constructor
  · rintro ⟨rfl, hmod⟩
    exact ⟨rfl, by omega⟩
  · rintro ⟨rfl, hlt⟩
    exact ⟨rfl, Nat.mod_eq_of_lt hlt⟩

/-- Every slot has a last slot with the same mbuf. -/
theorem exists_last_slot (arr : Nat → MbufPtr) (c' i : Nat) (hi : i < c') :
    ∃ l, i ≤ l ∧ l < c' ∧ arr l = arr i ∧ ∀ k, l < k → k < c' → arr k ≠ arr l := by
  induction hgap : c' - i using Nat.strong_induction_on generalizing i with
  | _ gap ih =>
    by_cases hlast : ∀ k, i < k → k < c' → arr k ≠ arr i
    · exact ⟨i, Nat.le_refl i, hi, rfl, hlast⟩
    · -- A later slot holds the mbuf too: go on from there.
      obtain ⟨k, hik, hkc, heq⟩ : ∃ k, i < k ∧ k < c' ∧ arr k = arr i := by
        by_contra hno
        exact hlast (fun k hik hkc heq => hno ⟨k, hik, hkc, heq⟩)
      obtain ⟨l, hkl, hlc, hl, hrest⟩ := ih (c' - k) (by omega) k hkc rfl
      exact ⟨l, by omega, hlc, hl.trans heq, hrest⟩

section
variable {virt2phy : Addr → Addr} {q : RxQueue} {m : RxMem} {nbPkts : Nat}
  {pkts : Nat → XdmaC2hStreamWb} {before : XdmaC2hStreamWb} {done : Nat → Nat} {dev : RxDevice}

/-- A call consumes up to the count its reads lead to. -/
theorem RxInv.consumes_found (h : RxInv q) (hdev : DevValid q m nbPkts dev) {c' : Nat}
    (hfound : FoundCount (q.enter m nbPkts).eng.descUsed dev.reads c') :
    c' ≤ (q.enter m nbPkts).posted.length ∧
      Consumes (q.enter m nbPkts).eng (rxEnter q.eng m nbPkts).2.2 (rxEnter q.eng m nbPkts).1 dev c'
        (xdmaRecvPkts q.eng m nbPkts dev) := by
  obtain ⟨v, -, -, hv, hc⟩ := h.consumes hdev
  have hcall : xdmaRecvPkts q.eng m nbPkts dev = rxCollect (q.enter m nbPkts).eng
      (rxEnter q.eng m nbPkts).2.2 (rxEnter q.eng m nbPkts).1 dev := xdmaRecvPkts_eq _ _ _ _
  rw [hcall] at hc ⊢
  rw [hfound.unique hc.found]
  exact ⟨hv, hc⟩

/-- A call trusts the count its reads lead to. -/
theorem RxInv.trusted_of_found (h : RxInv q) (hdev : DevValid q m nbPkts dev) {c' : Nat}
    (hfound : FoundCount (q.enter m nbPkts).eng.descUsed dev.reads c') :
    lastStable dev.reads (xdmaRecvPkts q.eng m nbPkts dev).lastPass = some c' :=
  (h.consumes_found hdev hfound).2.trusted

/-- The memory a call leaves, with the 16-bit arguments of `prepare_packets` resolved. -/
theorem RxInv.mem_recv (h : RxInv q) (hdev : DevValid q m nbPkts dev) {c' : Nat}
    (htrust : lastStable dev.reads (xdmaRecvPkts q.eng m nbPkts dev).lastPass = some c') :
    ∃ read, (xdmaRecvPkts q.eng m nbPkts dev).mem
      = preparePackets (q.enter m nbPkts).eng dev.wb { m with touched := m.touched ++ read } c'
          (q.enter m nbPkts).eng.descUsed := by
  obtain ⟨v, -, -, hv, hc⟩ := h.consumes hdev
  obtain rfl := Option.some.inj (hc.trusted.symm.trans htrust)
  obtain ⟨read, hread⟩ := rxEnter_mem q.eng m nbPkts
  have hag := h.enter m nbPkts
  have hmax : (q.enter m nbPkts).eng.descMax = 32 := h.enter_descMax
  have hposted := hag.posted
  have hused := hag.used
  rw [hmax] at hposted
  have hv' : v % 2 ^ 16 = v := by omega
  have hu' : (q.enter m nbPkts).eng.descUsed % 2 ^ 16 = (q.enter m nbPkts).eng.descUsed := by omega
  refine ⟨read, ?_⟩
  rw [hc.mem, hv', hu', hread]

/-- The call stamps the slots from the consumed count up to the one it trusts. -/
theorem RxInv.mem_newlyStamped (h : RxInv q) (hdev : DevValid q m nbPkts dev) {c' : Nat}
    (htrust : lastStable dev.reads (xdmaRecvPkts q.eng m nbPkts dev).lastPass = some c') (i : Nat) :
    i ∈ q.newlyStamped m nbPkts dev ↔ (q.enter m nbPkts).eng.descUsed ≤ i ∧ i < c' := by
  obtain ⟨read, hmem⟩ := h.mem_recv hdev htrust
  unfold RxQueue.newlyStamped
  rw [hmem, preparePackets_eq, List.drop_left, List.mem_range'_1]
  omega

/-- The mbuf of a slot the call stamps last carries the record of that moment. -/
theorem RxInv.heap_of_last (h : RxInv q)
    (hdev : WritesBack virt2phy q m nbPkts pkts before done dev) {c' : Nat}
    (htrust : lastStable dev.reads (xdmaRecvPkts q.eng m nbPkts dev).lastPass = some c') (i : Nat)
    (hci : (q.enter m nbPkts).eng.descUsed ≤ i) (hic : i < c')
    (hlast : ∀ k, i < k → k < c' → m.arr k ≠ m.arr i) :
    ∃ e mb, (xdmaRecvPkts q.eng m nbPkts dev).mem.heap (m.arr i)
      = stampSeg e (q.record virt2phy m nbPkts pkts before (done i)) mb := by
  obtain ⟨read, hmem⟩ := h.mem_recv hdev.valid htrust
  obtain ⟨mb, hmb⟩ := preparePackets_heap_of_last (q.enter m nbPkts).eng dev.wb
    { m with touched := m.touched ++ read } c' (q.enter m nbPkts).eng.descUsed i hci hic hlast
  rw [hmem, ← hdev.record i]
  exact ⟨_, mb, hmb⟩

/-- **Lengths, call by call.** -/
theorem RxInv.lengths (h : RxInv q)
    (hdev : WritesBack virt2phy q m nbPkts pkts before done dev) {c' : Nat}
    (htrust : lastStable dev.reads (xdmaRecvPkts q.eng m nbPkts dev).lastPass = some c') :
    LengthFaithful q m nbPkts dev pkts
      ↔ RecordMatches virt2phy q m nbPkts pkts before done c' := by
  constructor
  · intro hlen i hci hic hlast j hj
    obtain ⟨e, mb, hheap⟩ := h.heap_of_last hdev htrust i hci hic hlast
    have hown := hlen i ((h.mem_newlyStamped hdev.valid htrust i).mpr ⟨hci, hic⟩) j hj
    rw [hheap] at hown
    exact (stamped_len_iff e _ mb _).mp hown
  · intro hrec i hi j hj
    obtain ⟨hci, hic⟩ := (h.mem_newlyStamped hdev.valid htrust i).mp hi
    -- What counts is the last slot that holds the mbuf.
    obtain ⟨l, hil, hlc, hl, hlast⟩ := exists_last_slot m.arr c' i hic
    obtain ⟨e, mb, hheap⟩ := h.heap_of_last hdev htrust l (hci.trans hil) hlc hlast
    rw [← hl] at hj ⊢
    rw [hheap]
    exact (stamped_len_iff e _ mb _).mpr (hrec l (hci.trans hil) hlc hlast j hj)

/-- After a completion whose write-back lands on the driver's record, the record is that
    packet's. -/
theorem RxInv.record_succ (h : RxInv q) (hrun : q.eng.running = false) (d : Nat)
    (hd : d < min nbPkts q.eng.descMax)
    (hofs : q.eng.streamWbAddr + (m.heap (m.arr d)).vir2phy = virt2phy q.eng.streamWbAddr) :
    q.record virt2phy m nbPkts pkts before (d + 1) = pkts d := by
  have haddr : (q.enter m nbPkts).eng.streamWbAddr = q.eng.streamWbAddr :=
    (frame_rxEnter q.eng m nbPkts).streamWbAddr
  have hused : q.eng.clearStatus.descUsed = 0 := (h.ring hrun).used
  have hsrc : ((q.enter m nbPkts).eng.descRing d).srcAddr
      = q.eng.streamWbAddr + (m.heap (m.arr d)).vir2phy := by
    rw [RxQueue.enter_eng_of_idle hrun]
    exact rxArm_srcAddr q.eng.clearStatus m nbPkts hused h.descMax_pos d hd
  unfold RxQueue.record recordAfter
  rw [hsrc, haddr, hofs, if_pos rfl]

end

/-- **Length fidelity.** On every reachable queue, for every array, every list of packets and
    every schedule of completions: the mbufs stamped by a call that finds the count `c'`
    carry the lengths of their own packets exactly when the record matches each of them. -/
theorem lengthFaithful_iff (virt2phy : Addr → Addr) (channelId : BitVec 16) (a : SetupAlloc)
    (q : RxQueue) (hq : RxReach virt2phy channelId a (fun n => n < 2 ^ 16) q) (m : RxMem)
    (nbPkts : Nat) (pkts : Nat → XdmaC2hStreamWb) (before : XdmaC2hStreamWb) (done : Nat → Nat)
    (dev : RxDevice) (hdev : WritesBack virt2phy q m nbPkts pkts before done dev) (c' : Nat)
    (hfound : FoundCount (q.enter m nbPkts).eng.descUsed dev.reads c') :
    LengthFaithful q m nbPkts dev pkts
      ↔ RecordMatches virt2phy q m nbPkts pkts before done c' :=
  hq.inv.lengths hdev (hq.inv.trusted_of_found hdev.valid hfound)

/-! ### Two packets at once -/

/-- A device that has completed `d` descriptors throughout the call. -/
def RxDevice.writing (q : RxQueue) (m : RxMem) (pkts : Nat → XdmaC2hStreamWb) (d : Nat) :
    RxDevice where
  reads := fun _ => (d, d)
  wb := fun _ => q.record id m xdmaDescMax pkts ⟨0, 0⟩ d

theorem RxFull.writesBack {q : RxQueue} (h : RxFull q) (m : RxMem)
    (pkts : Nat → XdmaC2hStreamWb) (d : Nat) (hlo : q.eng.completedDescCount ≤ d)
    (hd : d ≤ xdmaDescMax) :
    WritesBack id q m xdmaDescMax pkts ⟨0, 0⟩ (fun _ => d) (RxDevice.writing q m pkts d) where
  valid := by
    have hgrow : Growing q.eng.completedDescCount xdmaDescMax (fun _ => (d, d)) :=
      growing_const hlo hd
    unfold DevValid
    rw [h.enter_posted]
    exact hgrow
  shown _ := Nat.le_refl d
  mono _ _ _ := Nat.le_refl d
  bound _ := by
    rw [h.enter_posted]
    exact hd
  record _ := rfl

/-- Two packets of the lengths 60 and 50. -/
def unevenPkts (j : Nat) : XdmaC2hStreamWb := ⟨0, if j = 0 then 60 else 50⟩

/-- Three packets of one length, found together. -/
theorem lengthFaithful_three :
    LengthFaithful freshRx plainMem xdmaDescMax
      (RxDevice.writing freshRx plainMem (fun _ => ⟨0, 60⟩) 3) (fun _ => ⟨0, 60⟩) := by
  have hdev := (rxFull_fresh id 0 SetupAlloc.pages).writesBack plainMem (fun _ => ⟨0, 60⟩) 3
    (by decide) (by decide)
  refine (lengthFaithful_iff id 0 SetupAlloc.pages freshRx RxReach.setup plainMem xdmaDescMax
    (fun _ => ⟨0, 60⟩) ⟨0, 0⟩ (fun _ => 3) _ hdev 3 (foundCount_const _ 3)).mpr ?_
  intro i _ _ _ j _
  have hrec : freshRx.record id plainMem xdmaDescMax (fun _ => ⟨0, 60⟩) ⟨0, 0⟩ 3 = ⟨0, 60⟩ :=
    (rxFull_fresh id 0 SetupAlloc.pages).inv.record_succ rfl 2 (by decide) (by decide)
  have hlen : (60 : BitVec 32).toNat < 2 ^ 16 := by decide
  rw [hrec]
  exact ⟨rfl, hlen⟩

/-- Found together, both packets are reported with the length 50. -/
theorem lengthFaithful_fails :
    ¬ ∀ (virt2phy : Addr → Addr) (channelId : BitVec 16) (a : SetupAlloc) (q : RxQueue),
      RxReach virt2phy channelId a (fun n => n < 2 ^ 16) q →
      ∀ m nbPkts pkts before done dev, WritesBack virt2phy q m nbPkts pkts before done dev →
        LengthFaithful q m nbPkts dev pkts := by
  intro h
  have hreach : RxReach id 0 SetupAlloc.pages (fun n => n < 2 ^ 16) freshRx := RxReach.setup
  have hdev := (rxFull_fresh id 0 SetupAlloc.pages).writesBack plainMem unevenPkts 2
    (by decide) (by decide)
  have hmatch := (hreach.inv.lengths hdev (lastStable_of_stable rfl)).mp
    (h id 0 SetupAlloc.pages freshRx hreach plainMem xdmaDescMax unevenPkts ⟨0, 0⟩ (fun _ => 2)
      (RxDevice.writing freshRx plainMem unevenPkts 2) hdev)
  have hrec : freshRx.record id plainMem xdmaDescMax unevenPkts ⟨0, 0⟩ 2 = unevenPkts 1 :=
    hreach.inv.record_succ rfl 1 (by decide) (by decide)
  -- Slot 0 finds the record of the second packet.
  have hslot := (hmatch 0 (by decide) (by decide) (fun k hk _ => Nat.ne_of_gt hk) 0 rfl).1
  rw [hrec] at hslot
  exact absurd hslot (by decide)

end XdmaDpdk
