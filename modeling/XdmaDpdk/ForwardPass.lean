import XdmaDpdk.ForwardSystem

namespace XdmaDpdk

open StableRead ChainWalker ByteStore

/-!
# XDMA test application — what a pass of the forwarding loop keeps

At every place of the loop `pkts_buffer_idx` is the number of the next packet to send, modulo
the array, and the devices and the memory are as `FabricInv` says.

* `BurstFrom` — the burst of a pass has a segment for each packet it received;
* `ForwardSysInv` — the invariant, with one lemma for each part of a pass
  (`ForwardSysInv.step`, `ForwardReach.inv`).
-/

/-! ### The invariant -/

namespace ForwardSys

/-- The number of packets received and not sent yet by a finished call. -/
def pending (s : ForwardSys) : Nat :=
  match s.place with
  | .top => 0
  | .failed b => b.nbPkts
  | .received b => b.nbPkts
  | .sending b => b.nbPkts

/-- The number of packets handed to the destination queue. -/
def submitted (s : ForwardSys) (lo : Nat) : Nat :=
  match s.place with
  | .sending _ => s.handed.length
  | _ => lo

end ForwardSys

/-- The burst of a pass: a segment for each packet from number `lo` on. -/
structure BurstFrom (cfg : ForwardConfig) (lo : Nat) (b : TxBurst) : Prop where
  segments : b.segments = (List.range' lo b.nbPkts).map cfg.segment
  one : OneSegment b
  pos : 0 < b.nbPkts

/-- What each place of the loop knows of the burst and the transmit call. -/
def PlaceInv (cfg : ForwardConfig) (lo : Nat) (s : ForwardSys) : Prop :=
  match s.place with
  | .top => s.fabric.tx.drv = .idle
  | .failed _ => s.fabric.tx.drv = .idle
  | .received b => s.fabric.tx.drv = .idle ∧ BurstFrom cfg lo b
  | .sending _ => True

/-- What holds in every reachable state; `lo` is the number of packets sent by finished
    calls. -/
structure ForwardSysInv (cfg : ForwardConfig) (ok : TxSys → TxBurst → Prop) (lo : Nat)
    (s : ForwardSys) : Prop extends SourceInv cfg s where
  base : lo + s.pending = s.handed.length
  room : s.queue.eng.running = true → s.pending ≤ s.queue.eng.descUsed
  most : s.pending ≤ xdmaDescMax
  idx : s.pktsBufferIdx = lo % xdmaDescMax
  xmitPkts : s.xmitPkts = lo
  recvPkts : s.recvPkts = s.submitted lo
  place : PlaceInv cfg lo s
  stored : Stored cfg lo s.fabric
  leaving : ∃ sent calls, Leaving cfg ok lo (s.submitted lo) sent calls s.fabric

/-! ### The receive call -/

@[simp] theorem RxSys.begun_filled (s : RxSys) : s.begun.filled = s.chan.filled := by
  unfold RxSys.begun
  split <;> rfl

@[simp] theorem RxSys.filled_after (s : RxSys) (call : LiveCall) (c : RxChannel) :
    (s.after call c).chan.filled = c.filled := by
  unfold RxSys.after
  dsimp only
  split <;> rfl

/-- Packets that arrived stay. -/
theorem FabricStep.arrived_le {virt2phy : Addr → Addr} {len : Nat} {e : XdmaEngine} {f f' : Fabric}
    (hs : Relation.ReflTransGen (FabricStep virt2phy len e) f f') :
    f.arrived.length ≤ f'.arrived.length := by
  induction hs with
  | refl => exact Nat.le_refl _
  | tail _ hs ih =>
    cases hs with
    | fill c d p control hs hone hp =>
      rw [List.length_append]
      exact ih.trans (Nat.le_add_right _ _)
    | walk c hs hnone => exact ih
    | dma d bytes hd hout => exact ih
    | send hw' count' hs => exact ih

/-- A length that fits a descriptor survives the 16 bits of `data_len`. -/
theorem setWidth_len {len : Nat} (h : len ≤ 64) :
    ((BitVec.ofNat 32 len).setWidth 16).setWidth 32 = BitVec.ofNat 32 len := by
  apply BitVec.eq_of_toNat_eq
  simp only [BitVec.toNat_setWidth, BitVec.toNat_ofNat]
  omega

section
variable {cfg : ForwardConfig} {ok : TxSys → TxBurst → Prop} {lo : Nat} {s s' : ForwardSys}
  {wb : Nat → XdmaC2hStreamWb} {passes : List (Nat × Nat)} {f f' : Fabric}

/-- At the receive call all packets handed over were sent. -/
theorem ForwardSysInv.base_top (h : ForwardSysInv cfg ok lo s) (hp : s.place = .top) :
    lo = s.handed.length := by
  have hbase := h.base
  simp only [ForwardSys.pending, hp] at hbase
  exact hbase

/-- The devices and the memory as the poll loop of a pass finds them. -/
theorem ForwardSysInv.enter (h : ForwardSysInv cfg ok lo s) (hfits : cfg.Fits)
    (hp : s.place = .top) {before : List Addr}
    (hent : Entered cfg.virt2phy s.source (s.call wb passes) before) :
    FabricInv cfg ok (s.source.polled (s.call wb passes)) lo lo s.entered := by
  refine ⟨.inr ⟨before, hent.round.round, h.posted_polled hfits, hent.round.whole, ?_⟩, ?_, ?_⟩
  · have hhanded := congrArg List.length hent.round.handed
    rw [List.length_append] at hhanded
    rw [h.base_top hp]
    show _ ≤ s.source.handed.length
    omega
  · refine ⟨?_, h.stored.bytes, h.stored.record⟩
    show s.fabric.arrived.length = s.source.begun.filled.length
    rw [RxSys.begun_filled]
    exact h.stored.count
  · have hleave := h.leaving
    simp only [ForwardSys.submitted, hp] at hleave
    obtain ⟨sent, calls, hl⟩ := hleave
    exact ⟨sent, calls, hl.run, hl.submitted, hl.lo_le, hl.waits, hl.within, hl.departed⟩

/-- The burst of a pass that received the slots up to `c'` with records of the right length. -/
theorem ForwardSysInv.burstFrom (h : ForwardSysInv cfg ok lo s) (hfits : cfg.Fits) {c' : Nat}
    {inp : PassInput}
    (hspec : CallSpec cfg.pkts s.loop.pktsBufferIdx c' ⟨s.loop.heap, inp.dev⟩ (s.loop.recv inp))
    (hrec : ∀ i ∈ (s.loop.recv inp).mem.stamped, (inp.dev.wb i).len = BitVec.ofNat 32 cfg.len)
    (hpos : 0 < (s.loop.recv inp).ret) : BurstFrom cfg lo (s.loop.burst inp) := by
  obtain ⟨hpkts, hone, hnb⟩ := hspec.burst hfits.distinct
  have hle := hspec.le_max
  have hfit : (s.loop.burst inp).nbPkts ≤ xdmaDescMax := by
    rw [hnb]
    omega
  refine ⟨?_, hone, by rw [hnb, ← hspec.ret]; exact hpos⟩
  unfold TxBurst.segments
  rw [hone.writes hfit, hpkts, hnb, List.map_map, List.map_map, List.range'_eq_map_range,
    List.range'_eq_map_range, List.map_map, List.map_map]
  apply List.map_congr_left
  intro k hk
  rw [List.mem_range] at hk
  -- Slot `pkts_buffer_idx + k` holds packet number `lo + k`.
  have hidx : s.loop.pktsBufferIdx = lo % xdmaDescMax := h.idx
  have hslot : (lo + k) % xdmaDescMax = s.loop.pktsBufferIdx + k := by
    rw [hidx] at hk ⊢
    simp only [xdmaDescMax] at hle hk ⊢
    omega
  obtain ⟨e, he⟩ := hspec.slot hfits.distinct (s.loop.pktsBufferIdx + k) (by omega) (by omega)
  have hlen : (inp.dev.wb (s.loop.pktsBufferIdx + k)).len = BitVec.ofNat 32 cfg.len := by
    apply hrec
    rw [hspec.stamped, List.mem_range'_1]
    omega
  show (((s.loop.recv inp).mem.heap (cfg.pkts (s.loop.pktsBufferIdx + k))).segment, true)
    = cfg.segment (lo + k)
  unfold ForwardConfig.segment ForwardConfig.slotAddr
  rw [he, hslot, ← h.data, ← setWidth_len hfits.len, ← hlen]
  rfl

/-- A record read in a receive call that finds a packet has the length of the packets. -/
theorem ForwardSysInv.records (h : ForwardSysInv cfg ok lo s) (hord : Orderly cfg ok)
    (hfits : cfg.Fits) (hp : s.place = .top) (hr : Receives cfg s wb passes f f')
    (hpos : 0 < f.chan.word) {i : Nat}
    (hi : i ∈ (s.source.result (s.call wb passes)).mem.stamped) :
    (wb i).len = BitVec.ofNat 32 cfg.len := by
  obtain ⟨g, hg, -, hwb⟩ := hr.records i hi
  obtain ⟨before, hent⟩ := h.source.enter h.kept
  have hfab := h.enter hfits hp hent
  -- A packet was reported, so one had arrived when the record was read.
  obtain ⟨hf, -⟩ := hfab.reach hord hfits hr.polls.reach
  obtain ⟨hginv, -⟩ := hfab.reach hord hfits (hr.polls.reach.trans hg)
  have hround : Round cfg.virt2phy (s.source.polled (s.call wb passes)) before f.chan :=
    hent.round.round.reach (hr.polls.reach.lift' Fabric.chan (fun _ _ hs => hs.chan))
  have hcount := congrArg List.length hround.filling.filled_eq
  rw [List.length_append, length_firstAddrs, ← hf.stored.count] at hcount
  have hle := FabricStep.arrived_le hg
  rw [hwb]
  apply hginv.stored.record
  intro hnil
  rw [hnil, List.length_nil] at hle
  omega

/-- `pkts_buffer_idx` is the consumed count of the source queue. -/
theorem ForwardSysInv.idx_top (h : ForwardSysInv cfg ok lo s) (hp : s.place = .top) :
    s.loop.pktsBufferIdx = s.queue.eng.descUsed := by
  have hpos := h.idx
  rw [h.base_top hp] at hpos
  exact hpos.trans h.source.position

/-- What is pending after the receive call is what it returned. -/
theorem ForwardSys.pending_received (s : ForwardSys) (wb : Nat → XdmaC2hStreamWb)
    (passes : List (Nat × Nat)) (testByte : Nat → BitVec 8) (f : Fabric) :
    (s.received wb passes testByte f).pending
      = (s.loop.recv (s.input wb passes testByte)).ret := by
  unfold ForwardSys.pending
  rcases s.place_received wb passes testByte f with ⟨-, hp⟩ | ⟨-, -, hp⟩ | ⟨-, hzero, hp⟩
  · rw [hp]
    exact Forwarder.nbPkts_burst _ _
  · rw [hp]
    exact Forwarder.nbPkts_burst _ _
  · rw [hp, hzero]

/-- Nothing is submitted by it. -/
theorem ForwardSys.submitted_received (s : ForwardSys) (wb : Nat → XdmaC2hStreamWb)
    (passes : List (Nat × Nat)) (testByte : Nat → BitVec 8) (f : Fabric) (lo : Nat) :
    (s.received wb passes testByte f).submitted lo = lo := by
  unfold ForwardSys.submitted
  rcases s.place_received wb passes testByte f with ⟨-, hp⟩ | ⟨-, -, hp⟩ | ⟨-, -, hp⟩ <;> rw [hp]

/-- **Receive step.** -/
theorem ForwardSysInv.recv (h : ForwardSysInv cfg ok lo s) (hord : Orderly cfg ok)
    (hfits : cfg.Fits) (hp : s.place = .top) (hr : Receives cfg s wb passes f f')
    (testByte : Nat → BitVec 8) :
    ForwardSysInv cfg ok lo (s.received wb passes testByte f') := by
  obtain ⟨before, hent⟩ := h.source.enter h.kept
  obtain ⟨hfab, hdrv⟩ := (h.enter hfits hp hent).reach hord hfits hr.reach
  obtain ⟨c', hspec, hword, hused⟩ := h.recv_spec hr testByte
  rw [← h.idx_top hp] at hspec
  have hle := hspec.le
  have hmax := hspec.le_max
  have hret := hspec.ret
  have hrec : ∀ i ∈ (s.loop.recv (s.input wb passes testByte)).mem.stamped,
      ((s.input wb passes testByte).dev.wb i).len = BitVec.ofNat 32 cfg.len := by
    intro i hi
    have hi' := hi
    rw [hspec.stamped, List.mem_range'_1] at hi'
    exact h.records hord hfits hp hr (by omega) hi
  have hidle : f'.tx.drv = .idle := by
    have hplace := h.place
    simp only [PlaceInv, hp] at hplace
    exact hdrv.trans hplace
  have hcount : (s.received wb passes testByte f').handed.length
      = s.handed.length + (s.loop.recv (s.input wb passes testByte)).ret := by
    show (s.handed ++ _).length = _
    have hstamped := congrArg List.length hspec.stamped
    rw [List.length_range', ← hret] at hstamped
    rw [List.length_append, List.length_map]
    exact congrArg (s.handed.length + ·) hstamped
  refine ⟨h.toSourceInv.recv hfits hr testByte, ?_, fun hrun => ?_, ?_, h.idx, h.xmitPkts, ?_, ?_,
    ?_, ?_⟩
  · rw [s.pending_received, hcount, h.base_top hp]
  · -- A round that goes on was not consumed to its end.
    have hne : c' ≠ xdmaDescMax :=
      fun hc => absurd (hrun.symm.trans (hspec.stops.mpr hc)) (by decide)
    have hused' : (s.received wb passes testByte f').queue.eng.descUsed = c' :=
      hused.trans (if_neg hne)
    rw [s.pending_received, hused', hret]
    exact Nat.sub_le _ _
  · rw [s.pending_received, hret]
    omega
  · rw [s.submitted_received]
    -- The counters are brought up to date by the transmit call.
    have hrecv := h.recvPkts
    simp only [ForwardSys.submitted, hp] at hrecv
    exact hrecv
  · unfold PlaceInv
    rcases s.place_received wb passes testByte f' with ⟨-, hplace⟩ | ⟨-, hpos, hplace⟩ |
      ⟨-, -, hplace⟩
    · rw [hplace]
      exact hidle
    · rw [hplace]
      exact ⟨hidle, h.burstFrom hfits hspec hrec hpos⟩
    · rw [hplace]
      exact hidle
  · refine ⟨?_, hfab.stored.bytes, hfab.stored.record⟩
    show f'.arrived.length = (s.source.after (s.call wb passes) f'.chan).chan.filled.length
    rw [RxSys.filled_after]
    exact hfab.stored.count
  · rw [s.submitted_received]
    obtain ⟨sent, calls, hl⟩ := hfab.leaving
    exact ⟨sent, calls, hl.run, hl.submitted, hl.lo_le, hl.waits, hl.within, hl.departed⟩

/-! ### The transmit call -/

/-- The packets handed over have arrived. -/
theorem ForwardSysInv.handed_le (h : ForwardSysInv cfg ok lo s) :
    s.handed.length ≤ s.fabric.arrived.length := by
  rw [h.stored.count]
  exact h.source.order.length_le

/-- **Transmit step.** -/
theorem ForwardSysInv.send (h : ForwardSysInv cfg ok lo s) {b : TxBurst}
    (hp : s.place = .received b) (hr : s.fabric.tx.eng.running = false)
    (hok : ok s.fabric.tx b) : ForwardSysInv cfg ok lo (s.submit b) := by
  have hplace := h.place
  simp only [PlaceInv, hp] at hplace
  obtain ⟨hidle, hburst⟩ := hplace
  have hbase := h.base
  simp only [ForwardSys.pending, hp] at hbase
  have hmost := h.most
  simp only [ForwardSys.pending, hp] at hmost
  have hroom := h.room
  simp only [ForwardSys.pending, hp] at hroom
  have hrecv := h.recvPkts
  have hleave := h.leaving
  simp only [ForwardSys.submitted, hp] at hrecv hleave
  obtain ⟨sent, calls, hl⟩ := hleave
  refine ⟨⟨h.source, h.frame, h.array, h.data, h.offset, h.posted⟩, hbase, hroom, hmost, h.idx,
    h.xmitPkts, ?_, trivial, ⟨h.stored.count, h.stored.bytes, h.stored.record⟩, sent,
    calls ++ [b], ?_⟩
  · show s.recvPkts + b.nbPkts = s.handed.length
    rw [hrecv, hbase]
  · have hstart := TxRun.step hl.run (TxStep.call s.fabric.tx b hidle hr hok)
    have hquiet : s.fabric.tx.hw.handed s.fabric.tx.hw.start = [] := Walker.handed_of_hand_eq rfl
    have hsub : s.fabric.tx.submitted
        { eng := (xmitStart s.fabric.tx.eng b).2, hw := s.fabric.tx.hw.start, drv := .polling b }
        = [b] := by
      simp only [TxSys.submitted, hidle]
    rw [hquiet, hsub, List.append_nil] at hstart
    refine ⟨hstart, ?_, ?_, ?_, h.handed_le, hl.departed⟩
    · -- The packets submitted before, and those of the burst.
      have happend := List.range'_append_1 (s := 0) (m := lo) (n := b.nbPkts)
      rw [Nat.zero_add] at happend
      show _ = (List.range s.handed.length).map cfg.segment
      rw [List.flatMap_append, List.flatMap_singleton, hl.submitted, hburst.segments,
        ← List.map_append, List.range_eq_range', List.range_eq_range', happend, hbase]
    · show lo ≤ s.handed.length
      omega
    · intro b' hb'
      obtain rfl := TxDriver.polling.inj hb'
      show s.handed.length = lo + b.segments.length
      rw [hburst.segments, List.length_map, List.length_range', hbase]

/-- A step of the thread in the transmit call that completes nothing and starts no burst. -/
theorem ForwardSysInv.within (h : ForwardSysInv cfg ok lo s) {b : TxBurst}
    (hp : s.place = .sending b) {t : TxSys} (hs : TxStep cfg.virt2phy ok s.fabric.tx t)
    (hhand : t.hw.hand = s.fabric.tx.hw.hand) (hsub : s.fabric.tx.submitted t = [])
    (hwait : ∀ b, t.drv ≠ .polling b) : ForwardSysInv cfg ok lo (s.withTx t) := by
  obtain ⟨sent, calls, hl⟩ := h.leaving
  refine ⟨⟨h.source, h.frame, h.array, h.data, h.offset, h.posted⟩, h.base, h.room, h.most, h.idx,
    h.xmitPkts, h.recvPkts, ?_, ⟨h.stored.count, h.stored.bytes, h.stored.record⟩, sent, calls,
    hl.run.quiet hs hhand hsub, hl.submitted, hl.lo_le, fun b' hb' => absurd hb' (hwait b'),
    hl.within, hl.departed⟩
  show PlaceInv cfg lo (s.withTx t)
  unfold PlaceInv ForwardSys.withTx
  rw [hp]
  trivial

/-- **Return step.** All packets handed over are sent. -/
theorem ForwardSysInv.done (h : ForwardSysInv cfg ok lo s) {b : TxBurst}
    (hp : s.place = .sending b) (hd : s.fabric.tx.drv = .idle) :
    ForwardSysInv cfg ok s.handed.length (s.returned b.nbPkts) := by
  have hbase := h.base
  have hrecv := h.recvPkts
  have hleave := h.leaving
  simp only [ForwardSys.pending, ForwardSys.submitted, hp] at hbase hrecv hleave
  obtain ⟨sent, calls, hl⟩ := hleave
  refine ⟨⟨h.source, h.frame, h.array, h.data, h.offset, h.posted⟩, rfl, fun _ => Nat.zero_le _,
    Nat.zero_le _, ?_, ?_, hrecv, hd, ?_, sent, calls, ?_⟩
  · show (s.pktsBufferIdx + b.nbPkts) % sizeOfPktsBuffer = s.handed.length % xdmaDescMax
    -- The index moves by what was sent.
    rw [h.idx, ← hbase]
    exact Nat.mod_add_mod lo xdmaDescMax b.nbPkts
  · show (if b.nbPkts > 0 then s.xmitPkts + b.nbPkts else s.xmitPkts) = s.handed.length
    rw [h.xmitPkts, ← hbase]
    split <;> omega
  · refine ⟨h.stored.count, fun m hlo hm => h.stored.bytes m ?_ hm, h.stored.record⟩
    omega
  · refine ⟨hl.run, hl.submitted, Nat.le_refl _, fun b' hb' => ?_, hl.within, hl.departed⟩
    -- The call has returned, so none waits.
    have hb : s.fabric.tx.drv = .polling b' := hb'
    exact absurd (hd.symm.trans hb) (by simp)

/-! ### The devices -/

/-- The source device between the calls of the loop. -/
theorem ForwardSysInv.feeds (h : ForwardSysInv cfg ok lo s) :
    Feeds cfg s.queue.eng lo s.fabric.chan := by
  cases hrun : s.queue.eng.running with
  | true =>
    obtain ⟨before, hround, hhanded, -, hwhole⟩ := h.source.armed hrun
    refine .inr ⟨before, hround, h.posted hrun, hwhole, ?_⟩
    -- No more is pending than the round has handed over.
    have hlen := congrArg List.length hhanded
    rw [List.length_append, length_firstAddrs] at hlen
    have hlen' : s.handed.length = before.length + s.queue.eng.descUsed := hlen
    have hbase := h.base
    have hroom := h.room hrun
    omega
  | false =>
    have hrest := h.source.idle hrun
    exact .inl ⟨hrest.kick, hrest.phase⟩

/-- **Device step.** -/
theorem ForwardSysInv.device (h : ForwardSysInv cfg ok lo s) (hord : Orderly cfg ok)
    (hfits : cfg.Fits) (hs : FabricStep cfg.virt2phy cfg.len s.queue.eng s.fabric f) :
    ForwardSysInv cfg ok lo { s with fabric := f } := by
  have hfab : FabricInv cfg ok s.queue.eng lo (s.submitted lo) s.fabric :=
    ⟨h.feeds, h.stored, h.leaving⟩
  obtain ⟨-, hstored, hleave⟩ := hfab.step hord hfits hs
  have hplace : PlaceInv cfg lo { s with fabric := f } := by
    have hold := h.place
    unfold PlaceInv at hold ⊢
    dsimp only
    rw [hs.drv]
    exact hold
  exact ⟨h.toSourceInv.device hs, h.base, h.room, h.most, h.idx, h.xmitPkts, h.recvPkts, hplace,
    hstored, hleave⟩

/-! ### Whole runs -/

/-- The transmit engine is never found busy. -/
theorem ForwardSysInv.not_busy (h : ForwardSysInv cfg ok lo s) (hfits : cfg.Fits) {b : TxBurst}
    (hp : s.place = .received b) : s.fabric.tx.eng.running = false := by
  have hplace := h.place
  simp only [PlaceInv, hp] at hplace
  obtain ⟨sent, calls, hl⟩ := h.leaving
  exact ((hl.run.toReach.inv hfits.mapsTx).idle hplace.1).1

/-- **Step lemma.** -/
theorem ForwardSysInv.step (h : ForwardSysInv cfg ok lo s) (hord : Orderly cfg ok)
    (hfits : cfg.Fits) (hs : ForwardStep cfg ok s s') : ∃ lo', ForwardSysInv cfg ok lo' s' := by
  cases hs with
  | recv wb passes testByte f f' hp hr => exact ⟨lo, h.recv hord hfits hp hr testByte⟩
  | send b hp hr hok => exact ⟨lo, h.send hp hr hok⟩
  -- Between two bursts the transmit engine is idle.
  | busy b hp hr => exact absurd (hr.symm.trans (h.not_busy hfits hp)) (by decide)
  | exit b hp hd ht =>
    exact ⟨lo, h.within hp (TxStep.exit s.fabric.tx b hd ht) rfl
      (by simp only [TxSys.submitted, hd]) (by simp)⟩
  | halt b hp hd =>
    exact ⟨lo, h.within hp (TxStep.halt s.fabric.tx hd) rfl (by simp only [TxSys.submitted, hd])
      (by simp)⟩
  | reset b hp hd =>
    exact ⟨lo, h.within hp (TxStep.reset s.fabric.tx hd) rfl (by simp only [TxSys.submitted, hd])
      (by simp)⟩
  | done b hp hd => exact ⟨_, h.done hp hd⟩
  | device f hf => exact ⟨lo, h.device hord hfits hf⟩

theorem forwardSysInv_start (hfits : cfg.Fits) (bytes : Addr → BitVec 8)
    (record : XdmaC2hStreamWb) :
    ForwardSysInv cfg ok 0 (ForwardSys.start cfg bytes record) where
  toSourceInv := sourceInv_start hfits bytes record
  base := rfl
  room _ := Nat.le_refl 0
  most := Nat.zero_le _
  idx := rfl
  xmitPkts := rfl
  recvPkts := rfl
  place := rfl
  stored := ⟨rfl, fun m _ hm => absurd hm (Nat.not_lt_zero m), fun hne => absurd rfl hne⟩
  leaving := by
    have hwait : ∀ b, (TxSys.init cfg.virt2phy cfg.txChannel cfg.txAlloc).drv ≠ .polling b := nofun
    exact ⟨[], [], TxRun.init, rfl, Nat.le_refl 0, fun b hb => absurd hb (hwait b), Nat.le_refl 0,
      rfl⟩

/-- **Run lemma.** -/
theorem ForwardReach.inv (h : ForwardReach cfg ok s) (hord : Orderly cfg ok) (hfits : cfg.Fits) :
    ∃ lo, ForwardSysInv cfg ok lo s := by
  obtain ⟨bytes, record, hreach⟩ := h
  induction hreach with
  | refl => exact ⟨0, forwardSysInv_start hfits bytes record⟩
  | tail _ hs ih =>
    obtain ⟨lo, hinv⟩ := ih
    exact hinv.step hord hfits hs

/-- No more packets are under way than the array has slots. -/
theorem ForwardSysInv.arrived_le (h : ForwardSysInv cfg ok lo s) :
    s.fabric.arrived.length ≤ lo + xdmaDescMax := by
  cases hrun : s.queue.eng.running with
  | true =>
    rcases h.feeds with ⟨hk, hph⟩ | ⟨before, hfeed⟩
    · -- At rest in a round: all of it was reported.
      obtain ⟨before, hround, hhanded, -, -⟩ := h.source.armed hrun
      have hcount := congrArg List.length hround.filling.filled_eq
      rw [List.length_append, length_firstAddrs] at hcount
      have hlen := congrArg List.length hhanded
      rw [List.length_append, length_firstAddrs] at hlen
      have hlen' : s.handed.length = before.length + s.queue.eng.descUsed := hlen
      have hcount' : s.fabric.chan.filled.length = before.length + s.fabric.chan.word := hcount
      have hword : s.fabric.chan.word ≤ xdmaDescMax := hround.filling.word_le
      have hbase := h.base
      have hroom := h.room hrun
      rw [h.stored.count]
      omega
    · have hcount := hfeed.count h.stored
      have hword := hfeed.round.filling.word_le
      have hle := hfeed.le
      omega
  | false =>
    -- Idle: all that arrived was handed over.
    have hall : s.handed = s.fabric.chan.filled := (h.source.idle hrun).handed
    rw [h.stored.count, ← hall, ← h.base]
    exact Nat.add_le_add_left h.most lo

end

end XdmaDpdk
