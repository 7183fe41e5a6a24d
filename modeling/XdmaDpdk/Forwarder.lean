import XdmaDpdk.RxChain
import XdmaDpdk.RxConsumer
import XdmaDpdk.TxSizes

namespace XdmaDpdk

open StableRead ArrayLoop

/-!
# XDMA test application — forwarding from port to port

`fpgaToFpgaPass` is one pass of the loop of `fpga_to_fpga` (`testapp_count.c`): receive into
`pkts` from the source queue, look at the test bit of each packet received, hand the packets
to the destination queue, move `pkts_buffer_idx` on.  The loop ends after a second, so a run
is any number of passes.  The two queues are those of the driver, called through
`xdma_recv_pkts` and `xdma_xmit_pkts`.

What varies from pass to pass is the argument `PassInput`: the counts and records of the
source device, the bytes found at the test-bit addresses, and the reads of the poll-mode word
made by the transmit wait.

* `ForwardInv` — `pkts_buffer_idx` is the consumed count of the source queue, the
  destination queue is idle, and nothing received is left behind (`ForwardInv.pass`);
* `fpgaToFpga_transparent` — over any run every packet received is sent once and in order,
  from the bus address it was received at and with the length that was reported.
-/

/-! ### The loop -/

/-- `SIZE_OF_PKTS_BUFFER`. -/
def sizeOfPktsBuffer : Nat := 32

/-- What varies from pass to pass. -/
structure PassInput where
  dev : RxDevice
  testByte : Nat → BitVec 8
  reads : List Nat

/-- The variables of `fpga_to_fpga`, the engines behind its two queues and the mbufs. -/
structure Forwarder where
  rx : XdmaEngine
  tx : XdmaEngine
  heap : Heap
  pkts : Nat → MbufPtr
  pktsBufferIdx : Nat
  recvBatch : Nat
  recvPkts : Nat
  xmitBatch : Nat
  xmitPkts : Nat

/-- How a pass ends: on to the next one, in `rte_exit`, or not at all. -/
inductive PassResult
  | next (f : Forwarder)
  | testBitError
  | waiting

/-- `bit && ~bit` for `bit = (*test_bit_addr >> 7) & 0x01`. -/
def testBitError (byte : BitVec 8) : Bool :=
  let bit : BitVec 32 := (byte >>> 7).setWidth 32 &&& 1
  bit != 0 && ~~~bit != 0

/-- A result of the receive function fits its `uint16_t`. -/
theorem xdmaRecvPkts_ret_lt (e : XdmaEngine) (m : RxMem) (nbPkts : Nat) (dev : RxDevice) :
    (xdmaRecvPkts e m nbPkts dev).ret < 2 ^ 16 := by
  rw [xdmaRecvPkts_eq]
  simp only [rxCollect]
  split
  · exact Nat.mod_lt _ (Nat.two_pow_pos 16)
  · exact Nat.two_pow_pos 16

namespace Forwarder

/-- `rte_eth_rx_burst(src_port_id, src_queue_id, pkts, SIZE_OF_PKTS_BUFFER)`. -/
def recv (f : Forwarder) (inp : PassInput) : RecvResult :=
  xdmaRecvPkts f.rx { heap := f.heap, arr := f.pkts, touched := [], stamped := [] }
    sizeOfPktsBuffer inp.dev

/-- The `ret` mbufs at `&pkts[pkts_buffer_idx]`, after the receive call. -/
def burst (f : Forwarder) (inp : PassInput) : TxBurst where
  heap := (f.recv inp).mem.heap
  txPkts := (List.range' f.pktsBufferIdx (f.recv inp).ret).map (f.recv inp).mem.arr
  nbPktsLt := by
    rw [List.length_map, List.length_range']
    exact xdmaRecvPkts_ret_lt _ _ _ _

@[simp] theorem nbPkts_burst (f : Forwarder) (inp : PassInput) :
    (f.burst inp).nbPkts = (f.recv inp).ret := by
  show ((List.range' _ _).map _).length = _
  rw [List.length_map, List.length_range']

end Forwarder

/-- One pass of the loop. -/
def fpgaToFpgaPass (f : Forwarder) (inp : PassInput) : PassResult :=
  let res := f.recv inp
  let f' := { f with rx := res.engine, heap := res.mem.heap, pkts := res.mem.arr }
  if (List.range' f.pktsBufferIdx res.ret).any (fun i => testBitError (inp.testByte i)) then
    .testBitError
  else if res.ret > 0 then
    match xdmaXmitPkts f.tx (f.burst inp) inp.reads with
    | none => .waiting
    | some out =>
      .next
        { f' with
          tx := out.engine
          pktsBufferIdx := (f.pktsBufferIdx + out.ret) % sizeOfPktsBuffer
          recvBatch := f.recvBatch + 1
          recvPkts := f.recvPkts + res.ret
          xmitBatch := if out.ret > 0 then f.xmitBatch + 1 else f.xmitBatch
          xmitPkts := if out.ret > 0 then f.xmitPkts + out.ret else f.xmitPkts }
  else .next f'

/-- The test bit is the top bit of the byte. -/
theorem testBitError_eq (byte : BitVec 8) : testBitError byte = byte.getLsbD 7 := by
  have h : ∀ byte : BitVec 8, testBitError byte = byte.getLsbD 7 := by decide
  exact h byte

/-- **Inversion.** A pass that goes on received nothing, or sent what it received. -/
theorem fpgaToFpgaPass_cases {f f' : Forwarder} {inp : PassInput}
    (h : fpgaToFpgaPass f inp = .next f') :
    ((f.recv inp).ret = 0 ∧
      f' = { f with
        rx := (f.recv inp).engine
        heap := (f.recv inp).mem.heap
        pkts := (f.recv inp).mem.arr }) ∨
    (0 < (f.recv inp).ret ∧ ∃ out, xdmaXmitPkts f.tx (f.burst inp) inp.reads = some out ∧
      f' =
        { rx := (f.recv inp).engine
          tx := out.engine
          heap := (f.recv inp).mem.heap
          pkts := (f.recv inp).mem.arr
          pktsBufferIdx := (f.pktsBufferIdx + out.ret) % sizeOfPktsBuffer
          recvBatch := f.recvBatch + 1
          recvPkts := f.recvPkts + (f.recv inp).ret
          xmitBatch := if out.ret > 0 then f.xmitBatch + 1 else f.xmitBatch
          xmitPkts := if out.ret > 0 then f.xmitPkts + out.ret else f.xmitPkts }) := by
  simp only [fpgaToFpgaPass] at h
  split at h
  · cases h
  · split at h
    · rename_i hpos
      cases hx : xdmaXmitPkts f.tx (f.burst inp) inp.reads with
      | none =>
        rw [hx] at h
        cases h
      | some out =>
        rw [hx] at h
        exact .inr ⟨hpos, out, rfl, (PassResult.next.inj h).symm⟩
    · rename_i hzero
      exact .inl ⟨by omega, (PassResult.next.inj h).symm⟩

/-! ### Runs -/

/-- A packet as the source queue received it: its slot, the bus address its descriptor gave
    to the device, and the length the device reported. -/
structure Received where
  slot : Nat
  addr : Addr
  len : BitVec 16

/-- A packet as the destination queue sends it: one segment that ends its packet. -/
def Received.segment (r : Received) : (Addr × BitVec 32) × Bool :=
  ((r.addr, r.len.setWidth 32), true)

namespace Forwarder

/-- The packets a pass receives, read off the ring the receive call polls. -/
def received (f : Forwarder) (inp : PassInput) : List Received :=
  (f.recv inp).mem.stamped.map (fun i =>
    { slot := i
      addr := ((rxEnter f.rx { heap := f.heap, arr := f.pkts, touched := [], stamped := [] }
        sizeOfPktsBuffer).2.1.descRing i).dstAddr
      len := (inp.dev.wb i).len.setWidth 16 })

/-- The segments a pass sends, read off the ring its transmit call hands to the device. -/
def sent (f : Forwarder) (inp : PassInput) : List ((Addr × BitVec 32) × Bool) :=
  if 0 < (f.recv inp).ret then
    (List.range (stagedCount f.tx (f.burst inp))).map
      (fun i => ((xmitStart f.tx (f.burst inp)).2.descRing i).segment)
  else []

/-- The counts the source device can show to a pass. -/
def Valid (f : Forwarder) (inp : PassInput) : Prop :=
  Growing f.rx.completedDescCount xdmaDescMax inp.dev.reads

/-- The loop about to start, on queues just set up. -/
def start (virt2phy : Addr → Addr) (rxChannel txChannel : BitVec 16) (rxAlloc txAlloc : SetupAlloc)
    (heap : Heap) (pkts : Nat → MbufPtr) : Forwarder where
  rx := xdmaRxEngineSetup virt2phy rxChannel rxAlloc
  tx := xdmaTxEngineSetup virt2phy txChannel txAlloc
  heap := heap
  pkts := pkts
  pktsBufferIdx := 0
  recvBatch := 0
  recvPkts := 0
  xmitBatch := 0
  xmitPkts := 0

end Forwarder

/-- The passes made from `f₀`, with the packets received and the segments sent so far. -/
inductive ForwardRun (f₀ : Forwarder) :
    List Received → List ((Addr × BitVec 32) × Bool) → Forwarder → Prop
  | start : ForwardRun f₀ [] [] f₀
  | pass {rcvd : List Received} {snt : List ((Addr × BitVec 32) × Bool)} {f f' : Forwarder}
      {inp : PassInput} (h : ForwardRun f₀ rcvd snt f) (hvalid : f.Valid inp)
      (hpass : fpgaToFpgaPass f inp = .next f') :
      ForwardRun f₀ (rcvd ++ f.received inp) (snt ++ f.sent inp) f'

/-! ### The invariant -/

/-- The array holds distinct mbufs. -/
def DistinctPkts (pkts : Nat → MbufPtr) : Prop :=
  ∀ i < xdmaDescMax, ∀ j < xdmaDescMax, pkts i = pkts j → i = j

/-- What holds between two passes; `addrs` are the bus addresses of the mbufs' data and
    `pkts` the array, as the loop found them. -/
structure ForwardInv (virt2phy : Addr → Addr) (addrs : MbufPtr → Addr) (pkts : Nat → MbufPtr)
    (f : Forwarder) : Prop where
  rx : ∃ q, RxFull q ∧ q.eng = f.rx
  idx : f.pktsBufferIdx = f.rx.descUsed
  lt : f.pktsBufferIdx < xdmaDescMax
  tx : EngineReach virt2phy f.tx
  dir : f.tx.dir = .h2c
  idle : f.tx.running = false
  array : f.pkts = pkts
  heap : ∀ p, (f.heap p).dataIova = addrs p
  posted : f.rx.running = true → ∀ i < xdmaDescMax, (f.rx.descRing i).dstAddr = addrs (pkts i)

section
variable {virt2phy : Addr → Addr} {addrs : MbufPtr → Addr} {pkts : Nat → MbufPtr} {f : Forwarder}
  {inp : PassInput}

/-- The ring a pass polls has the address of each mbuf of the array. -/
theorem ForwardInv.enter_dstAddr (h : ForwardInv virt2phy addrs pkts f) (m : RxMem)
    (hheap : m.heap = f.heap) (harr : m.arr = f.pkts) (i : Nat) (hi : i < xdmaDescMax) :
    ((rxEnter f.rx m sizeOfPktsBuffer).2.1.descRing i).dstAddr = addrs (pkts i) := by
  obtain ⟨q, hq, heq⟩ := h.rx
  cases hrun : f.rx.running with
  | true =>
    rw [rxEnter_of_running _ _ _ hrun]
    exact h.posted hrun i hi
  | false =>
    have hused : f.rx.clearStatus.descUsed = 0 := by
      rw [← heq] at hrun ⊢
      exact (hq.inv.ring hrun).used
    have hmax : f.rx.clearStatus.descMax = xdmaDescMax := by
      rw [← heq]
      exact hq.inv.descMax
    have hpos : 0 < f.rx.clearStatus.descMax := by
      rw [hmax]
      decide
    have hlt : i < min sizeOfPktsBuffer f.rx.clearStatus.descMax := by
      rw [hmax]
      exact hi
    rw [rxEnter_of_idle _ _ _ hrun, rxArm_desc _ _ _ hused hpos i hlt, dstAddr_fillC2hDesc, hheap,
      harr, h.heap, h.array]

/-- **Receive call.** A call of a loop consumes the slots up to some `c'`. -/
theorem RxFull.fullCall {q : RxQueue} (hq : RxFull q) (pkts : Nat → MbufPtr) (call : RxCall)
    (hvalid : Growing q.eng.completedDescCount xdmaDescMax call.dev.reads) :
    ∃ c' q', CallSpec pkts q.eng.descUsed c' call
        (xdmaRecvPkts q.eng (call.mem pkts) sizeOfPktsBuffer call.dev) ∧ RxFull q' ∧
      q'.eng = (xdmaRecvPkts q.eng (call.mem pkts) sizeOfPktsBuffer call.dev).engine ∧
      q'.eng.descUsed = Consumer.next xdmaDescMax c' := by
  have hdev : DevValid q (call.mem pkts) xdmaDescMax call.dev := by
    unfold DevValid
    rw [hq.enter_posted]
    exact hvalid
  obtain ⟨c', hspec, hused⟩ := hq.callSpec pkts call hdev
  exact ⟨c', _, hspec, hq.recv hdev, rfl, hused⟩

/-- **Receive part.** A pass consumes the slots from `pkts_buffer_idx` to some `c'`. -/
theorem ForwardInv.recv_spec (h : ForwardInv virt2phy addrs pkts f) (hvalid : f.Valid inp) :
    ∃ c' q, CallSpec pkts f.pktsBufferIdx c' ⟨f.heap, inp.dev⟩ (f.recv inp) ∧ RxFull q ∧
      q.eng = (f.recv inp).engine ∧ q.eng.descUsed = Consumer.next xdmaDescMax c' := by
  obtain ⟨q, hq, heq⟩ := h.rx
  have hcall := hq.fullCall pkts ⟨f.heap, inp.dev⟩ (by rw [heq]; exact hvalid)
  rw [heq, ← h.idx] at hcall
  have harr : RxCall.mem ⟨f.heap, inp.dev⟩ pkts
      = { heap := f.heap, arr := f.pkts, touched := [], stamped := [] } := by
    rw [h.array]
    rfl
  rw [harr] at hcall
  exact hcall

/-- The burst of a pass is one packet of one segment for each slot consumed. -/
theorem CallSpec.burst {c' : Nat}
    (h : CallSpec pkts f.pktsBufferIdx c' ⟨f.heap, inp.dev⟩ (f.recv inp))
    (hdist : DistinctPkts pkts) :
    (f.burst inp).txPkts = (List.range' f.pktsBufferIdx (c' - f.pktsBufferIdx)).map pkts ∧
      OneSegment (f.burst inp) ∧ (f.burst inp).nbPkts = c' - f.pktsBufferIdx := by
  have hpkts : (f.burst inp).txPkts
      = (List.range' f.pktsBufferIdx (c' - f.pktsBufferIdx)).map pkts := by
    show (List.range' f.pktsBufferIdx (f.recv inp).ret).map (f.recv inp).mem.arr = _
    rw [h.ret, h.array]
  refine ⟨hpkts, ?_, ?_⟩
  · intro mb hmb
    rw [hpkts] at hmb
    obtain ⟨i, hi, rfl⟩ := List.mem_map.mp hmb
    rw [List.mem_range'_1] at hi
    obtain ⟨e, he⟩ := h.slot hdist i hi.1 (by omega)
    show ((f.recv inp).mem.heap (pkts i)).nbSegs = 1
    rw [he]
    rfl
  · rw [Forwarder.nbPkts_burst, h.ret]

/-- **Transmit part.** The descriptors handed over are the packets received. -/
theorem ForwardInv.sent_eq (h : ForwardInv virt2phy addrs pkts f) (hdist : DistinctPkts pkts)
    {c' : Nat} (hspec : CallSpec pkts f.pktsBufferIdx c' ⟨f.heap, inp.dev⟩ (f.recv inp)) :
    f.sent inp = (f.received inp).map Received.segment := by
  obtain ⟨hpkts, hone, hnb⟩ := hspec.burst hdist
  have hmax : f.tx.descMax = xdmaDescMax := h.tx.inv.descMax
  have hfit : (f.burst inp).nbPkts ≤ f.tx.descMax := by
    have hle := hspec.le_max
    rw [hnb, hmax]
    omega
  have hws := hone.writes hfit
  -- Packet by packet: a slot consumed, its mbuf stamped, its descriptor.
  have hrcvd : (f.received inp).map Received.segment
      = (List.range' f.pktsBufferIdx (c' - f.pktsBufferIdx)).map
          (fun i => ((addrs (pkts i), ((inp.dev.wb i).len.setWidth 16).setWidth 32), true)) := by
    unfold Forwarder.received
    rw [hspec.stamped, List.map_map]
    apply List.map_congr_left
    intro i hi
    rw [List.mem_range'_1] at hi
    have hlt := hspec.le_max
    show ((((rxEnter f.rx _ sizeOfPktsBuffer).2.1.descRing i).dstAddr, _), true) = _
    rw [h.enter_dstAddr _ rfl rfl i (by omega)]
  rw [hrcvd]
  unfold Forwarder.sent
  split
  · have hframe : (f.burst inp).writes f.tx.descMax
        = ((f.burst inp).txPkts.map (fun mb => [(f.burst inp).heap mb])).flatMap Framing.frame := by
      rw [hws, List.flatMap_map, List.map_eq_flatMap]
      rfl
    rw [segments_xmitStart (f.burst inp) h.tx h.dir h.idle hframe, hws, hpkts, List.map_map,
      List.map_map]
    apply List.map_congr_left
    intro i hi
    rw [List.mem_range'_1] at hi
    obtain ⟨e, he⟩ := hspec.slot hdist i hi.1 (by omega)
    show (((f.recv inp).mem.heap (pkts i)).segment, true) = _
    have haddr := h.heap (pkts i)
    rw [he, ← haddr]
    rfl
  · rename_i hzero
    have hret := hspec.ret
    have hnil : c' - f.pktsBufferIdx = 0 := by omega
    rw [hnil]
    rfl

/-- What a pass from `f` to `f'` does: it receives the slots from the old index to the new
    one, sends what it received, and counts both. -/
structure PassSpec (addrs : MbufPtr → Addr) (pkts : Nat → MbufPtr) (f : Forwarder)
    (inp : PassInput) (f' : Forwarder) : Prop where
  slots : ∃ c', f.pktsBufferIdx ≤ c' ∧ f'.pktsBufferIdx = Consumer.next xdmaDescMax c' ∧
    (f.received inp).map Received.slot = List.range' f.pktsBufferIdx (c' - f.pktsBufferIdx)
  addr : ∀ r ∈ f.received inp, r.addr = addrs (pkts r.slot)
  sent : f.sent inp = (f.received inp).map Received.segment
  recvPkts : f'.recvPkts = f.recvPkts + (f.received inp).length
  xmitPkts : f'.xmitPkts = f.xmitPkts + (f.received inp).length
  batches : ∃ d, f'.recvBatch = f.recvBatch + d ∧ f'.xmitBatch = f.xmitBatch + d

/-- **Step lemma.** A pass keeps the invariant and meets its specification. -/
theorem ForwardInv.pass (h : ForwardInv virt2phy addrs pkts f) (hdist : DistinctPkts pkts)
    (hvalid : f.Valid inp) {f' : Forwarder} (hpass : fpgaToFpgaPass f inp = .next f') :
    ForwardInv virt2phy addrs pkts f' ∧ PassSpec addrs pkts f inp f' := by
  obtain ⟨c', q, hspec, hq, heng, hused⟩ := h.recv_spec hvalid
  have hle := hspec.le
  have hmaxc := hspec.le_max
  -- What the receive call leaves of the array, the mbufs and the ring.
  have harr : (f.recv inp).mem.arr = pkts := hspec.array
  have hheap : ∀ p, ((f.recv inp).mem.heap p).dataIova = addrs p := by
    intro p
    show ((xdmaRecvPkts f.rx _ sizeOfPktsBuffer inp.dev).mem.heap p).dataIova = _
    rw [dataIova_xdmaRecvPkts]
    exact h.heap p
  have hposted : (f.recv inp).engine.running = true → ∀ i < xdmaDescMax,
      ((f.recv inp).engine.descRing i).dstAddr = addrs (pkts i) := by
    intro hrun i hi
    have hring := descRing_recv_of_running f.rx _ sizeOfPktsBuffer inp.dev hrun
    show ((xdmaRecvPkts f.rx _ sizeOfPktsBuffer inp.dev).engine.descRing i).dstAddr = _
    rw [hring]
    exact h.enter_dstAddr _ rfl rfl i hi
  have hslots : (f.received inp).map Received.slot
      = List.range' f.pktsBufferIdx (c' - f.pktsBufferIdx) := by
    unfold Forwarder.received
    rw [List.map_map, hspec.stamped]
    exact List.map_id _
  have hnextlt : Consumer.next xdmaDescMax c' < xdmaDescMax :=
    Consumer.next_lt (by decide) hspec.le_max
  have haddr : ∀ r ∈ f.received inp, r.addr = addrs (pkts r.slot) := by
    intro r hr
    have hslot : r.slot ∈ (f.received inp).map Received.slot := List.mem_map_of_mem hr
    rw [hslots, List.mem_range'_1] at hslot
    have hlt : r.slot < xdmaDescMax := by omega
    obtain ⟨i, -, rfl⟩ := List.mem_map.mp hr
    exact h.enter_dstAddr _ rfl rfl i hlt
  have hlen : (f.received inp).length = c' - f.pktsBufferIdx := by
    rw [← List.length_map Received.slot, hslots, List.length_range']
  have hret := hspec.ret
  have hsent := h.sent_eq hdist hspec
  rcases fpgaToFpgaPass_cases hpass with ⟨hzero, rfl⟩ | ⟨hpos, out, hx, rfl⟩
  · -- Nothing was received.
    have hidx : f.pktsBufferIdx = Consumer.next xdmaDescMax c' := by
      have hlt := h.lt
      unfold Consumer.next
      split <;> omega
    have hnone : (f.received inp).length = 0 := by omega
    refine ⟨⟨⟨q, hq, heng⟩, ?_, h.lt, h.tx, h.dir, h.idle, harr, hheap, hposted⟩,
      ⟨c', hle, hidx, hslots⟩, haddr, hsent, ?_, ?_, 0, rfl, rfl⟩
    · show f.pktsBufferIdx = (f.recv inp).engine.descUsed
      rw [← heng, hused, hidx]
    · rw [hnone]
      rfl
    · rw [hnone]
      rfl
  · rcases xdmaXmitPkts_cases hx with ⟨hbusy, -⟩ | ⟨-, -, hout⟩
    · exact absurd (h.idle.symm.trans hbusy) (by decide)
    · -- The burst went out whole, and the engine is idle again.
      have hnb := (hspec.burst hdist).2.2
      have hxmit : out.ret = c' - f.pktsBufferIdx := by
        rw [hout]
        exact hnb
      have hxpos : out.ret > 0 := by omega
      have hidx : (f.pktsBufferIdx + out.ret) % sizeOfPktsBuffer
          = Consumer.next xdmaDescMax c' := by
        rw [hxmit, Nat.add_sub_of_le hle]
        unfold Consumer.next
        split
        · rename_i hfull
          rw [hfull]
          rfl
        · rename_i hne
          exact Nat.mod_eq_of_lt (Nat.lt_of_le_of_ne hspec.le_max hne)
      have hdir : out.engine.dir = .h2c :=
        (frame_xdmaXmitPkts f.tx (f.burst inp) inp.reads out hx).dir.trans h.dir
      have hidle : out.engine.running = false := by
        rw [hout]
        rfl
      refine ⟨⟨⟨q, hq, heng⟩, ?_, ?_, EngineReach.xmit (f.burst inp) inp.reads out h.tx h.dir hx,
        hdir, hidle, harr, hheap, hposted⟩, ⟨c', hle, hidx, hslots⟩, haddr, hsent, ?_, ?_,
        1, rfl, ?_⟩
      · show (f.pktsBufferIdx + out.ret) % sizeOfPktsBuffer = (f.recv inp).engine.descUsed
        rw [hidx, ← heng, hused]
      · show (f.pktsBufferIdx + out.ret) % sizeOfPktsBuffer < xdmaDescMax
        rw [hidx]
        exact hnextlt
      · rw [hlen, ← hret]
      · show (if out.ret > 0 then f.xmitPkts + out.ret else f.xmitPkts) = _
        rw [if_pos hxpos, hlen, hxmit]
      · exact if_pos hxpos

/-- The loop starts with it. -/
theorem forwardInv_start (virt2phy : Addr → Addr) (rxChannel txChannel : BitVec 16)
    (rxAlloc txAlloc : SetupAlloc) (heap : Heap) (pkts : Nat → MbufPtr) :
    ForwardInv virt2phy (fun p => (heap p).dataIova) pkts
      (Forwarder.start virt2phy rxChannel txChannel rxAlloc txAlloc heap pkts) where
  rx := ⟨_, rxFull_fresh virt2phy rxChannel rxAlloc, rfl⟩
  idx := rfl
  lt := show 0 < xdmaDescMax by decide
  tx := EngineReach.txSetup txChannel txAlloc
  dir := rfl
  idle := rfl
  array := rfl
  heap _ := rfl
  posted hon := absurd hon Bool.false_ne_true

/-! ### Whole runs -/

/-- What a run from `f₀` has done when it is at `f`: every packet received was sent, once and
    in order, from the bus address it was received at and with the length that was reported;
    the packets received are those of whole rounds through the array and of the round in
    progress; and the counters agree with the lists. -/
structure Transparent (addrs : MbufPtr → Addr) (pkts : Nat → MbufPtr) (rcvd : List Received)
    (snt : List ((Addr × BitVec 32) × Bool)) (f : Forwarder) : Prop where
  sent : snt = rcvd.map Received.segment
  slots : ∃ k, rcvd.map Received.slot
    = (List.replicate k (List.range xdmaDescMax)).flatten ++ List.range f.pktsBufferIdx
  addr : ∀ r ∈ rcvd, r.addr = addrs (pkts r.slot)
  recvPkts : f.recvPkts = rcvd.length
  xmitPkts : f.xmitPkts = rcvd.length
  batches : f.recvBatch = f.xmitBatch

/-- A pass adds what it received to what was done. -/
theorem Transparent.pass {rcvd : List Received} {snt : List ((Addr × BitVec 32) × Bool)}
    {f' : Forwarder} (h : Transparent addrs pkts rcvd snt f) (hp : PassSpec addrs pkts f inp f') :
    Transparent addrs pkts (rcvd ++ f.received inp) (snt ++ f.sent inp) f' := by
  obtain ⟨k, hk⟩ := h.slots
  obtain ⟨c', hle, hidx, hslots⟩ := hp.slots
  obtain ⟨d, hrb, hxb⟩ := hp.batches
  refine ⟨?_, ?_, ?_, ?_, ?_, ?_⟩
  · rw [h.sent, hp.sent, List.map_append]
  · rw [List.map_append, hk, hslots, hidx]
    exact Consumer.cycles_append hle k
  · intro r hr
    rcases List.mem_append.mp hr with hr | hr
    · exact h.addr r hr
    · exact hp.addr r hr
  · rw [hp.recvPkts, h.recvPkts, List.length_append]
  · rw [hp.xmitPkts, h.xmitPkts, List.length_append]
  · rw [hrb, hxb, h.batches]

theorem ForwardRun.transparent {f₀ f : Forwarder} {rcvd : List Received}
    {snt : List ((Addr × BitVec 32) × Bool)} (h : ForwardRun f₀ rcvd snt f)
    (hdist : DistinctPkts pkts) (h₀ : ForwardInv virt2phy addrs pkts f₀)
    (ht : Transparent addrs pkts [] [] f₀) :
    ForwardInv virt2phy addrs pkts f ∧ Transparent addrs pkts rcvd snt f := by
  induction h with
  | start => exact ⟨h₀, ht⟩
  | pass _ hvalid hpass ih =>
    obtain ⟨hinv, hspec⟩ := ih.1.pass hdist hvalid hpass
    exact ⟨hinv, ih.2.pass hspec⟩

end

/-- **The forwarder is transparent.** Over any number of passes, any counts and records of
    the source device and any reads of the transmit wait, the loop sends every packet it
    receives exactly once and in order. -/
theorem fpgaToFpga_transparent (virt2phy : Addr → Addr) (rxChannel txChannel : BitVec 16)
    (rxAlloc txAlloc : SetupAlloc) (heap : Heap) (pkts : Nat → MbufPtr)
    (hdist : DistinctPkts pkts) (rcvd : List Received)
    (snt : List ((Addr × BitVec 32) × Bool)) (f : Forwarder)
    (h : ForwardRun (Forwarder.start virt2phy rxChannel txChannel rxAlloc txAlloc heap pkts)
      rcvd snt f) :
    Transparent (fun p => (heap p).dataIova) pkts rcvd snt f :=
  (h.transparent hdist (forwardInv_start virt2phy rxChannel txChannel rxAlloc txAlloc heap pkts)
    ⟨rfl, ⟨0, rfl⟩, fun _ hr => absurd hr List.not_mem_nil, rfl, rfl, rfl⟩).2

/-- A pass whose source device shows the count `v` throughout, with all test bits clear and a
    transmit wait that sees the burst of `n` completed. -/
def PassInput.steady (v n : Nat) : PassInput where
  dev := RxDevice.const v
  testByte := fun _ => 0
  reads := [n]

/-- Such a pass goes on, and moves the index and the word of the source queue on to `v`. -/
theorem ForwardInv.pass_steady {virt2phy : Addr → Addr} {addrs : MbufPtr → Addr}
    {pkts : Nat → MbufPtr} {f : Forwarder} (h : ForwardInv virt2phy addrs pkts f)
    (hdist : DistinctPkts pkts) {v : Nat} (hword : f.rx.completedDescCount ≤ v)
    (hv : v ≤ xdmaDescMax) :
    ∃ f', f.Valid (.steady v (v - f.pktsBufferIdx)) ∧
      fpgaToFpgaPass f (.steady v (v - f.pktsBufferIdx)) = .next f' ∧
      ForwardInv virt2phy addrs pkts f' ∧
      f'.pktsBufferIdx = Consumer.next xdmaDescMax v ∧
      f'.rx.completedDescCount = Consumer.next xdmaDescMax v ∧
      (f.received (.steady v (v - f.pktsBufferIdx))).length = v - f.pktsBufferIdx := by
  have hvalid : f.Valid (.steady v (v - f.pktsBufferIdx)) := growing_const hword hv
  obtain ⟨c', q, hspec, -, heng, hused⟩ := h.recv_spec hvalid
  obtain rfl : v = c' := (foundCount_const _ v).unique hspec.found
  have hret := hspec.ret
  obtain ⟨f', hpass, hrx⟩ : ∃ f', fpgaToFpgaPass f (.steady v (v - f.pktsBufferIdx)) = .next f' ∧
      f'.rx = (f.recv (.steady v (v - f.pktsBufferIdx))).engine := by
    have hbyte : testBitError 0 = false := by decide
    have hclear : ∀ l : List Nat, l.any
        (fun i => testBitError ((PassInput.steady v (v - f.pktsBufferIdx)).testByte i)) = false :=
      fun l => List.any_eq_false.mpr fun _ _ => ne_true_of_eq_false hbyte
    unfold fpgaToFpgaPass
    dsimp only
    rw [hclear, if_neg Bool.false_ne_true]
    split
    · -- The one read of the wait shows the burst completed.
      have hwait : txWaitLoop (f.burst (.steady v (v - f.pktsBufferIdx))).nbPkts
          [v - f.pktsBufferIdx] = true := by
        have hlt : v - f.pktsBufferIdx < 2 ^ 24 := by
          unfold xdmaDescMax at hv
          omega
        rw [Forwarder.nbPkts_burst, hret, txWaitLoop, txExitTest, Nat.mod_eq_of_lt hlt,
          beq_self_eq_true, if_pos rfl]
      have hxmit := (xdmaXmitPkts_of_idle (f.burst (.steady v (v - f.pktsBufferIdx)))
        [v - f.pktsBufferIdx] h.idle).trans (if_pos hwait)
      have hreads : (PassInput.steady v (v - f.pktsBufferIdx)).reads = [v - f.pktsBufferIdx] := rfl
      rw [hreads, hxmit]
      exact ⟨_, rfl, rfl⟩
    · exact ⟨_, rfl, rfl⟩
  have hinv := (h.pass hdist hvalid hpass).1
  refine ⟨f', hvalid, hpass, hinv, ?_, ?_, ?_⟩
  · rw [hinv.idx, hrx, ← heng, hused]
  · obtain ⟨q₀, hq₀, heq⟩ := h.rx
    rw [hrx]
    show (xdmaRecvPkts f.rx _ sizeOfPktsBuffer (RxDevice.const v)).engine.completedDescCount = _
    rw [← heq] at hword ⊢
    exact hq₀.word_const hword hv
  · unfold Forwarder.received
    rw [List.length_map, hspec.stamped, List.length_range']

/-- A loop on fresh queues, with the mbufs `0, 1, …` in the array. -/
def Forwarder.fresh : Forwarder :=
  Forwarder.start id 0 0 SetupAlloc.pages SetupAlloc.pages (fun _ => plainMbuf) id

/-- Three passes that find five packets, the rest of the ring and three of the next one. -/
theorem transparent_three :
    ∃ rcvd snt f, ForwardRun .fresh rcvd snt f ∧
      Transparent (fun _ => plainMbuf.dataIova) id rcvd snt f ∧ f.pktsBufferIdx = 3 ∧
      rcvd.length = 35 := by
  have hdist : DistinctPkts id := fun _ _ _ _ heq => heq
  have h₀ : ForwardInv id (fun _ => plainMbuf.dataIova) id .fresh :=
    forwardInv_start id 0 0 SetupAlloc.pages SetupAlloc.pages (fun _ => plainMbuf) id
  obtain ⟨f₁, hvalid₁, hpass₁, h₁, hidx₁, hword₁, hlen₁⟩ :=
    h₀.pass_steady hdist (Nat.zero_le 5) (by decide)
  obtain ⟨f₂, hvalid₂, hpass₂, h₂, hidx₂, hword₂, hlen₂⟩ :=
    h₁.pass_steady hdist (v := xdmaDescMax) (by rw [hword₁]; decide) (Nat.le_refl _)
  obtain ⟨f₃, hvalid₃, hpass₃, -, hidx₃, -, hlen₃⟩ :=
    h₂.pass_steady hdist (v := 3) (by rw [hword₂]; decide) (by decide)
  have hrun := ((ForwardRun.start.pass hvalid₁ hpass₁).pass hvalid₂ hpass₂).pass hvalid₃ hpass₃
  refine ⟨_, _, f₃, hrun, fpgaToFpga_transparent id 0 0 SetupAlloc.pages SetupAlloc.pages
    (fun _ => plainMbuf) id hdist _ _ f₃ hrun, hidx₃, ?_⟩
  rw [List.length_append, List.length_append, List.length_append, hlen₁, hlen₂, hlen₃, hidx₁,
    hidx₂]
  rfl

end XdmaDpdk
