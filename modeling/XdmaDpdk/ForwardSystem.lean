import XdmaDpdk.Forwarder
import XdmaDpdk.ForwardMemory

namespace XdmaDpdk

open StableRead ChainWalker ByteStore

/-!
# XDMA test application — the forwarding loop and its devices

The thread of `fpga_to_fpga` with the two channels it drives (`ForwardSys`), taking steps in
any order (`ForwardStep`).  The devices may step before every read of a poll loop, between the
last read and the return of a receive call, and between any two steps of the thread.  The
thread's own steps are those of `fpgaToFpgaPass`: the receive call with the test of the bits,
the transmit call in the parts of `TxStep`, and what follows its return.  A pass that finds a
test bit set leaves the loop for good (`LoopPlace.failed`).

Which bursts are submitted is the parameter `ok`.

* `SourceInv` — the source queue, the array and the mbufs, whatever is submitted
  (`SourceInv.step`);
* `SourceInv.recv_spec` — what a receive call takes, among the slots the device has reported.
-/

/-! ### The system -/

/-- Where the thread is: at the receive call, past a test bit that was set, before its
    transmit call or in it. -/
inductive LoopPlace
  | top
  | failed (b : TxBurst)
  | received (b : TxBurst)
  | sending (b : TxBurst)

/-- The source queue with the addresses handed over so far, the devices and the memory, and
    the variables of the loop. -/
structure ForwardSys where
  queue : RxQueue
  handed : List Addr
  fabric : Fabric
  heap : Heap
  pkts : Nat → MbufPtr
  pktsBufferIdx : Nat
  recvBatch : Nat
  recvPkts : Nat
  xmitBatch : Nat
  xmitPkts : Nat
  place : LoopPlace

namespace ForwardSys

/-- The source queue and its channel. -/
def source (s : ForwardSys) : RxSys := ⟨s.queue, s.fabric.chan, s.handed⟩

/-- The loop and its engines. -/
def loop (s : ForwardSys) : Forwarder where
  rx := s.queue.eng
  tx := s.fabric.tx.eng
  heap := s.heap
  pkts := s.pkts
  pktsBufferIdx := s.pktsBufferIdx
  recvBatch := s.recvBatch
  recvPkts := s.recvPkts
  xmitBatch := s.xmitBatch
  xmitPkts := s.xmitPkts

/-- The receive call of a pass. -/
def call (s : ForwardSys) (wb : Nat → XdmaC2hStreamWb) (passes : List (Nat × Nat)) :
    LiveCall where
  heap := s.heap
  arr := s.pkts
  wb := wb
  passes := passes

/-- What a pass finds. -/
def input (s : ForwardSys) (wb : Nat → XdmaC2hStreamWb) (passes : List (Nat × Nat))
    (testByte : Nat → BitVec 8) : PassInput where
  dev := s.source.dev (s.call wb passes)
  testByte := testByte
  reads := []

/-- The devices as the poll loop of a pass finds them. -/
def entered (s : ForwardSys) : Fabric := { s.fabric with chan := s.source.begun }

/-- After the receive call, when it left the devices as `f`, and the test of the bits. -/
def received (s : ForwardSys) (wb : Nat → XdmaC2hStreamWb) (passes : List (Nat × Nat))
    (testByte : Nat → BitVec 8) (f : Fabric) : ForwardSys :=
  let inp := s.input wb passes testByte
  let res := s.loop.recv inp
  let src := s.source.after (s.call wb passes) f.chan
  { s with
    queue := src.queue
    handed := src.handed
    fabric := { f with chan := src.chan }
    heap := res.mem.heap
    pkts := res.mem.arr
    place :=
      if (List.range' s.pktsBufferIdx res.ret).any (fun i => testBitError (testByte i)) then
        .failed (s.loop.burst inp)
      else if res.ret > 0 then .received (s.loop.burst inp)
      else .top }

/-- The counters before the transmit call of the burst `b`. -/
def countRecv (s : ForwardSys) (b : TxBurst) : ForwardSys :=
  { s with recvBatch := s.recvBatch + 1, recvPkts := s.recvPkts + b.nbPkts }

/-- After a transmit call that returned `ret`. -/
def returned (s : ForwardSys) (ret : Nat) : ForwardSys :=
  { s with
    pktsBufferIdx := (s.pktsBufferIdx + ret) % sizeOfPktsBuffer
    xmitBatch := if ret > 0 then s.xmitBatch + 1 else s.xmitBatch
    xmitPkts := if ret > 0 then s.xmitPkts + ret else s.xmitPkts
    place := .top }

/-- The destination queue at `t`. -/
def withTx (s : ForwardSys) (t : TxSys) : ForwardSys :=
  { s with fabric := { s.fabric with tx := t } }

/-- The transmit call of the burst `b` has started the device. -/
def submit (s : ForwardSys) (b : TxBurst) : ForwardSys :=
  { (s.countRecv b).withTx { eng := (xmitStart s.fabric.tx.eng b).2
                             hw := s.fabric.tx.hw.start
                             drv := .polling b } with
    place := .sending b }

/-- The loop about to start, on the queues of `cfg`, with some memory. -/
def start (cfg : ForwardConfig) (bytes : Addr → BitVec 8) (record : XdmaC2hStreamWb) :
    ForwardSys where
  queue := RxQueue.fresh cfg.virt2phy cfg.rxChannel cfg.rxAlloc
  handed := []
  fabric :=
    { chan := { hw := Walker.idle, word := 0, filled := [] }
      tx := TxSys.init cfg.virt2phy cfg.txChannel cfg.txAlloc
      bytes := bytes
      record := record
      arrived := []
      departed := [] }
  heap := cfg.heap
  pkts := cfg.pkts
  pktsBufferIdx := 0
  recvBatch := 0
  recvPkts := 0
  xmitBatch := 0
  xmitPkts := 0
  place := .top

end ForwardSys

/-- A receive call with the devices at work: they are at `f` when its poll loop ends and at
    `f'` when it returns, and the records are read in between. -/
structure Receives (cfg : ForwardConfig) (s : ForwardSys) (wb : Nat → XdmaC2hStreamWb)
    (passes : List (Nat × Nat)) (f f' : Fabric) : Prop where
  polls : Polls (FabricStep cfg.virt2phy cfg.len (s.source.polled (s.call wb passes)))
    (fun f => f.chan.word) s.entered passes f
  length : passes.length = (s.source.result (s.call wb passes)).lastPass + 1
  stamp : Relation.ReflTransGen
    (FabricStep cfg.virt2phy cfg.len (s.source.polled (s.call wb passes))) f f'
  records : ∀ i ∈ (s.source.result (s.call wb passes)).mem.stamped, ∃ g,
    Relation.ReflTransGen
      (FabricStep cfg.virt2phy cfg.len (s.source.polled (s.call wb passes))) f g ∧
    Relation.ReflTransGen
      (FabricStep cfg.virt2phy cfg.len (s.source.polled (s.call wb passes))) g f' ∧
    wb i = g.record

/-- One step of the thread or of the devices. -/
inductive ForwardStep (cfg : ForwardConfig) (ok : TxSys → TxBurst → Prop) :
    ForwardSys → ForwardSys → Prop
  | recv (s : ForwardSys) (wb : Nat → XdmaC2hStreamWb) (passes : List (Nat × Nat))
      (testByte : Nat → BitVec 8) (f f' : Fabric) (hp : s.place = .top)
      (hr : Receives cfg s wb passes f f') :
      ForwardStep cfg ok s (s.received wb passes testByte f')
  | send (s : ForwardSys) (b : TxBurst) (hp : s.place = .received b)
      (hr : s.fabric.tx.eng.running = false) (hok : ok s.fabric.tx b) :
      ForwardStep cfg ok s (s.submit b)
  | busy (s : ForwardSys) (b : TxBurst) (hp : s.place = .received b)
      (hr : s.fabric.tx.eng.running = true) :
      ForwardStep cfg ok s ((s.countRecv b).returned (2 ^ 16 - 1))
  | exit (s : ForwardSys) (b : TxBurst) (hp : s.place = .sending b)
      (hd : s.fabric.tx.drv = .polling b)
      (ht : txExitTest s.fabric.tx.eng.completedDescCount b.nbPkts = true) :
      ForwardStep cfg ok s (s.withTx { s.fabric.tx with drv := .exited })
  | halt (s : ForwardSys) (b : TxBurst) (hp : s.place = .sending b)
      (hd : s.fabric.tx.drv = .exited) :
      ForwardStep cfg ok s
        (s.withTx { eng := engineHalt s.fabric.tx.eng h2cChannelCtrl
                    hw := s.fabric.tx.hw.stop
                    drv := .stopping })
  | reset (s : ForwardSys) (b : TxBurst) (hp : s.place = .sending b)
      (hd : s.fabric.tx.drv = .stopping) :
      ForwardStep cfg ok s
        (s.withTx { s.fabric.tx with eng := engineReset s.fabric.tx.eng, drv := .idle })
  | done (s : ForwardSys) (b : TxBurst) (hp : s.place = .sending b)
      (hd : s.fabric.tx.drv = .idle) :
      ForwardStep cfg ok s (s.returned b.nbPkts)
  | device (s : ForwardSys) (f : Fabric)
      (h : FabricStep cfg.virt2phy cfg.len s.queue.eng s.fabric f) :
      ForwardStep cfg ok s { s with fabric := f }

/-- The states reached from the start of the loop. -/
def ForwardReach (cfg : ForwardConfig) (ok : TxSys → TxBurst → Prop) (s : ForwardSys) : Prop :=
  ∃ bytes record, Relation.ReflTransGen (ForwardStep cfg ok) (ForwardSys.start cfg bytes record) s

/-- A packet the pass received has its test bit set. -/
def Forwarder.TestFails (f : Forwarder) (inp : PassInput) : Prop :=
  (List.range' f.pktsBufferIdx (f.recv inp).ret).any (fun i => testBitError (inp.testByte i)) = true

/-! ### The source queue -/

/-- What holds of the source queue, the array and the mbufs, whatever is submitted. -/
structure SourceInv (cfg : ForwardConfig) (s : ForwardSys) : Prop where
  source : RxSysInv cfg.virt2phy cfg.rxChannel cfg.rxAlloc s.source
  frame : Frame cfg.rxEngine s.queue.eng
  array : s.pkts = cfg.pkts
  data : ∀ p, (s.heap p).dataIova = (cfg.heap p).dataIova
  offset : ∀ p, (s.heap p).vir2phy = (cfg.heap p).vir2phy
  posted : s.queue.eng.running = true → Posted cfg s.queue.eng

section
variable {cfg : ForwardConfig} {ok : TxSys → TxBurst → Prop} {s s' : ForwardSys}
  {wb : Nat → XdmaC2hStreamWb} {passes : List (Nat × Nat)} {f f' : Fabric}

/-- The three ways on from the receive call. -/
theorem ForwardSys.place_received (s : ForwardSys) (wb : Nat → XdmaC2hStreamWb)
    (passes : List (Nat × Nat)) (testByte : Nat → BitVec 8) (f : Fabric) :
    (s.loop.TestFails (s.input wb passes testByte) ∧
      (s.received wb passes testByte f).place
        = .failed (s.loop.burst (s.input wb passes testByte))) ∨
    (¬ s.loop.TestFails (s.input wb passes testByte) ∧
      0 < (s.loop.recv (s.input wb passes testByte)).ret ∧
      (s.received wb passes testByte f).place
        = .received (s.loop.burst (s.input wb passes testByte))) ∨
    (¬ s.loop.TestFails (s.input wb passes testByte) ∧
      (s.loop.recv (s.input wb passes testByte)).ret = 0 ∧
      (s.received wb passes testByte f).place = .top) := by
  unfold ForwardSys.received
  dsimp only
  split
  · rename_i hbit
    exact .inl ⟨hbit, rfl⟩
  · rename_i hbit
    split
    · rename_i hpos
      exact .inr (.inl ⟨hbit, hpos, rfl⟩)
    · rename_i hzero
      exact .inr (.inr ⟨hbit, by omega, rfl⟩)

/-- The passes of a receive call, as the source queue sees them. -/
theorem Receives.source_polls (h : Receives cfg s wb passes f f') :
    Polls (RxChannelStep cfg.virt2phy (s.source.polled (s.call wb passes))) RxChannel.word
      s.source.begun passes f.chan :=
  h.polls.map Fabric.chan (fun _ => rfl) (fun _ _ hs => hs.chan)

/-- Every state of the devices in a receive call is reached on the ring it polls. -/
theorem Receives.reach (h : Receives cfg s wb passes f f') :
    Relation.ReflTransGen
      (FabricStep cfg.virt2phy cfg.len (s.source.polled (s.call wb passes))) s.entered f' :=
  h.polls.reach.trans h.stamp

/-- The loop passes the buffers the ring was armed with. -/
theorem SourceInv.kept (h : SourceInv cfg s) : s.source.Kept (s.call wb passes) := by
  intro hrun i hi
  show (s.heap (s.pkts i)).dataIova = (s.queue.eng.descRing i).dstAddr
  -- The mbufs keep the address the descriptors were armed with.
  rw [(h.posted hrun i hi).1, h.data, h.array]
  rfl

/-- The ring the poll loop of a pass works on posts the buffers of the array. -/
theorem SourceInv.posted_polled (h : SourceInv cfg s) (hfits : cfg.Fits) :
    Posted cfg (s.source.polled (s.call wb passes)) := by
  have hframe : Frame s.queue.eng (s.source.polled (s.call wb passes)) := frame_rxEnter _ _ _
  intro i hi
  rw [hframe.streamWbAddr]
  cases hrun : s.queue.eng.running with
  | true =>
    -- Armed earlier: the posts are those of the arming call.
    have hpolled : s.source.polled (s.call wb passes) = s.queue.eng.clearStatus :=
      congrArg RxQueue.eng (RxQueue.enter_of_running hrun)
    rw [hpolled]
    exact h.posted hrun i hi
  | false =>
    have hfull : RxFull s.queue := h.source.reach.isFull
    -- Idle: the call posts the whole array itself.
    have hdesc : (s.source.polled (s.call wb passes)).descRing i
        = fillC2hDesc s.queue.eng.streamWbAddr (s.heap (s.pkts i)) (s.queue.eng.descRing i) :=
      hfull.enter_desc hrun i hi
    rw [hdesc, dstAddr_fillC2hDesc, srcAddr_fillC2hDesc, h.data, h.offset, h.array,
      h.frame.streamWbAddr]
    exact ⟨rfl, hfits.record i hi, rfl⟩

/-- A receive call finds growing counts. -/
theorem SourceInv.devValid (h : SourceInv cfg s) (hr : Receives cfg s wb passes f f') :
    DevValid s.queue (s.call wb passes).mem xdmaDescMax (s.source.dev (s.call wb passes)) := by
  obtain ⟨before, hent⟩ := h.source.enter h.kept
  exact hent.devValid h.source hr.source_polls

/-- **Receive call.** It takes the slots from the consumed count to some `c'` that the device
    had reported. -/
theorem SourceInv.recv_spec (h : SourceInv cfg s) (hr : Receives cfg s wb passes f f')
    (testByte : Nat → BitVec 8) :
    ∃ c', CallSpec cfg.pkts s.queue.eng.descUsed c'
        ⟨s.loop.heap, (s.input wb passes testByte).dev⟩
        (s.loop.recv (s.input wb passes testByte)) ∧
      c' ≤ f.chan.word ∧
      (s.loop.recv (s.input wb passes testByte)).engine.descUsed
        = Consumer.next xdmaDescMax c' := by
  obtain ⟨c', hspec, hnext, hle, -⟩ := h.source.reach.isFull.callSpec_le s.pkts
    ⟨s.heap, s.source.dev (s.call wb passes)⟩ (h.devValid hr)
  -- The last word polled is what the device reports as the loop ends.
  have hlast : ((s.source.dev (s.call wb passes)).reads
      (s.source.result (s.call wb passes)).lastPass).2 = f.chan.word :=
    hr.source_polls.last hr.length s.fabric.chan.word
  have hspec' : CallSpec s.pkts s.queue.eng.descUsed c'
      ⟨s.loop.heap, (s.input wb passes testByte).dev⟩
      (s.loop.recv (s.input wb passes testByte)) := hspec
  rw [h.array] at hspec'
  exact ⟨c', hspec', hle.trans (Nat.le_of_eq hlast), hnext⟩

/-- **Receive step.** -/
theorem SourceInv.recv (h : SourceInv cfg s) (hfits : cfg.Fits)
    (hr : Receives cfg s wb passes f f') (testByte : Nat → BitVec 8) :
    SourceInv cfg (s.received wb passes testByte f') := by
  obtain ⟨c', hspec, -⟩ := h.recv_spec hr testByte
  -- While it runs on, the call leaves the ring as it polled it.
  have hring : (s.loop.recv (s.input wb passes testByte)).engine.running = true →
      (s.received wb passes testByte f').queue.eng.descRing
        = (s.source.polled (s.call wb passes)).descRing :=
    fun hrun => descRing_recv_of_running _ _ _ _ hrun
  refine ⟨?_, h.frame.trans (frame_xdmaRecvPkts _ _ _ _), hspec.array, fun p => ?_, fun p => ?_,
    fun hrun i hi => ?_⟩
  · exact h.source.after_reach h.kept hr.source_polls hr.length
      (hr.stamp.lift' Fabric.chan (fun _ _ hs => hs.chan))
  · exact (dataIova_xdmaRecvPkts _ _ _ _ _).trans (h.data p)
  · exact (proj_xdmaRecvPkts RteMbuf.vir2phy (fun _ _ _ => rfl) _ _ _ _ _).trans (h.offset p)
  · have haddr : (s.received wb passes testByte f').queue.eng.streamWbAddr
        = (s.source.polled (s.call wb passes)).streamWbAddr :=
      (s.source.frame_after (s.call wb passes) f'.chan).streamWbAddr
    rw [hring hrun, haddr]
    exact h.posted_polled hfits i hi

/-- **Device step.** -/
theorem SourceInv.device (h : SourceInv cfg s)
    (hs : FabricStep cfg.virt2phy cfg.len s.queue.eng s.fabric f) :
    SourceInv cfg { s with fabric := f } where
  source := h.source.channel hs.chan
  frame := h.frame
  array := h.array
  data := h.data
  offset := h.offset
  posted := h.posted

/-- A transmit call that returned at once. -/
theorem SourceInv.returned (h : SourceInv cfg s) (b : TxBurst) (ret : Nat) :
    SourceInv cfg ((s.countRecv b).returned ret) :=
  ⟨h.source, h.frame, h.array, h.data, h.offset, h.posted⟩

/-- **Step lemma.** The transmit call does not touch the source queue. -/
theorem SourceInv.step (h : SourceInv cfg s) (hfits : cfg.Fits) (hs : ForwardStep cfg ok s s') :
    SourceInv cfg s' := by
  cases hs with
  | recv wb passes testByte f f' hp hr => exact h.recv hfits hr testByte
  | device f hf => exact h.device hf
  | busy b hp hr => exact h.returned b _
  | send | exit | halt | reset | done =>
    exact ⟨h.source, h.frame, h.array, h.data, h.offset, h.posted⟩

theorem sourceInv_start (hfits : cfg.Fits) (bytes : Addr → BitVec 8) (record : XdmaC2hStreamWb) :
    SourceInv cfg (ForwardSys.start cfg bytes record) where
  source := RxSysReach.inv hfits.mapsRx Relation.ReflTransGen.refl
  frame := Frame.refl _
  array := rfl
  data _ := rfl
  offset _ := rfl
  posted hon := absurd hon Bool.false_ne_true

end

end XdmaDpdk
