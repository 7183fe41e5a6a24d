import XdmaDpdk.ForwardPass

namespace XdmaDpdk

open StableRead ChainWalker

/-!
# XDMA test application — passes the forwarding loop can make

The source device can report any further count of the round in time for a receive call, and a
burst can be sent whole and return, unless it has one packet more than the burst before: that
is what the terminator still on its way may report.

* `LoopAt` — the loop at one of its places, with all that was reported taken;
* `LoopAt.receive`, `LoopAt.transmit` — the two calls of a pass of `m` packets;
* `LoopAt.batches` — every list of batches that fits the rounds, and where no batch has one
  packet more than the one before, can be forwarded.
-/

/-- The packets arrive by number. -/
def Arriving (packet : Nat → List (BitVec 8)) (f : Fabric) : Prop :=
  f.arrived = (List.range f.arrived.length).map packet

/-- The loop at `place`: `u` slots of the round are consumed, which is all that was reported, and
    the destination device stopped after the `n` packets of the last burst. -/
structure LoopAt (cfg : ForwardConfig) (packet : Nat → List (BitVec 8)) (place : LoopPlace)
    (s : ForwardSys) (u n : Nat) : Prop where
  reach : ForwardReach cfg (CallSound cfg.virt2phy) s
  place : s.place = place
  used : s.queue.eng.descUsed = u
  reported : s.fabric.chan.word = u
  word : s.fabric.tx.eng.completedDescCount = 0
  count : s.fabric.tx.hw.count = n
  arriving : Arriving packet s.fabric

/-- Sizes of batches that can be forwarded one after the other, from `u` slots consumed and
    after a burst of `n` packets. -/
def Batches : Nat → Nat → List Nat → Prop
  | _, _, [] => True
  | u, n, m :: ms =>
    0 < m ∧ m < xdmaDescMax ∧ u + m ≤ xdmaDescMax ∧ m ≠ n + 1 ∧
      Batches (Consumer.next xdmaDescMax (u + m)) m ms

/-! ### Steps of one device -/

section
variable {virt2phy : Addr → Addr} {len : Nat} {e : XdmaEngine} {f : Fabric}
  {packet : Nat → List (BitVec 8)}

/-- What the source device can do on its own it can do beside the other one, with the packets
    arriving by number. -/
theorem fabric_reach_chan {c : RxChannel} (hlen : ∀ k, (packet k).length = len)
    (h : Relation.ReflTransGen (RxChannelStep virt2phy e) f.chan c) :
    ∃ f', Relation.ReflTransGen (FabricStep virt2phy len e) f f' ∧ f'.chan = c ∧ f'.tx = f.tx ∧
      (Arriving packet f → Arriving packet f') := by
  induction h with
  | refl => exact ⟨f, Relation.ReflTransGen.refl, rfl, rfl, id⟩
  | @tail _ c _ hs ih =>
    obtain ⟨g, hreach, rfl, htx, harr⟩ := ih
    cases hs with
    | step hw' word' hs' =>
      have hstep : RxChannelStep virt2phy e g.chan _ := RxChannelStep.step g.chan hw' word' hs'
      rcases hs'.handed_eq with hnone | ⟨d, -, hone⟩
      · exact ⟨_, hreach.tail (FabricStep.walk g _ hstep hnone), rfl, htx, harr⟩
      · -- A record is put out, and the next packet arrives by it.
        refine ⟨_, hreach.tail (FabricStep.fill g _ d (packet g.arrived.length) 0 hstep hone
          (hlen _)), rfl, htx, fun hf => ?_⟩
        have hg := harr hf
        unfold Arriving at hg ⊢
        rw [List.length_append, List.length_singleton, List.range_succ, List.map_append, ← hg]
        rfl

/-- So can the destination device. -/
theorem fabric_reach_tx (len : Nat) (e : XdmaEngine) {hw' : Walker Nat XdmaDesc} {count' : Nat}
    (h : Relation.ReflTransGen (Step (txRules virt2phy f.tx.eng) f.tx.eng.descRing)
      (f.tx.hw, f.tx.eng.completedDescCount) (hw', count')) :
    ∃ departed, Relation.ReflTransGen (FabricStep virt2phy len e) f
      { f with
        tx := { f.tx with eng := f.tx.eng.withWord count', hw := hw' }
        departed := departed } := by
  generalize hp : (hw', count') = p at h
  induction h generalizing hw' count' with
  | refl =>
    obtain ⟨rfl, rfl⟩ := Prod.mk.inj hp
    exact ⟨f.departed, Relation.ReflTransGen.refl⟩
  | @tail q r _ hs ih =>
    subst hp
    obtain ⟨departed, hreach⟩ := ih rfl
    exact ⟨_, hreach.tail (FabricStep.send
      { f with
        tx := { f.tx with eng := f.tx.eng.withWord q.2, hw := q.1 }
        departed := departed } hw' count' hs)⟩

end

/-! ### The receive call -/

section
variable {cfg : ForwardConfig} {ok : TxSys → TxBurst → Prop} {s s' : ForwardSys} {u n m v : Nat}
  {b : TxBurst} {packet : Nat → List (BitVec 8)}

theorem ForwardReach.trans (h : ForwardReach cfg ok s)
    (hs : Relation.ReflTransGen (ForwardStep cfg ok) s s') : ForwardReach cfg ok s' := by
  obtain ⟨bytes, record, hreach⟩ := h
  exact ⟨bytes, record, hreach.trans hs⟩

/-- A destination queue that is only given sound bursts delivers in order. -/
theorem orderly_of_sound (hfits : cfg.Fits)
    (h : ∀ t b, ok t b → CallSound cfg.virt2phy t b) : Orderly cfg ok :=
  fun _ _ _ hrun => hrun.inOrder_of_sound hfits.mapsTx (fun t b _ _ hok => h t b hok)

/-- The source device can report any further count of the round in time for the first pass of
    a receive call. -/
theorem SourceInv.receives (h : SourceInv cfg s) (hlen : ∀ k, (packet k).length = cfg.len)
    (hused : s.queue.eng.descUsed < v) (hword : s.fabric.chan.word ≤ v) (hv : v ≤ xdmaDescMax) :
    ∃ wb f, Receives cfg s wb [(v, v)] f f ∧ f.chan.word = v ∧ f.tx = s.fabric.tx ∧
      (Arriving packet s.fabric → Arriving packet f) := by
  have hkept : s.source.Kept (s.call (fun _ => ⟨0, 0⟩) [(v, v)]) := h.kept
  obtain ⟨before, hent⟩ := h.source.enter hkept
  obtain ⟨c, hs, hc⟩ := hent.round.round.fill
    (by rw [RxSys.begun_word]; exact hword) hv
  obtain ⟨f, hreach, hchan, htx, harr⟩ := fabric_reach_chan (f := s.entered) hlen hs
  have hfound : f.chan.word = v := (congrArg RxChannel.word hchan).trans hc
  -- The record is read when the poll loop has ended, and nothing moves after that.
  refine ⟨fun _ => f.record, f, ⟨?_, ?_, Relation.ReflTransGen.refl, fun i _ => ?_⟩, hfound, htx,
    harr⟩
  · have hpass : Polls (FabricStep cfg.virt2phy cfg.len
        (s.source.polled (s.call (fun _ => f.record) [(v, v)]))) (fun f => f.chan.word) s.entered
        [(f.chan.word, f.chan.word)] f :=
      Polls.pass hreach Relation.ReflTransGen.refl (Polls.nil f)
    rwa [hfound] at hpass
  · rw [h.source.lastPass_of_found (s.call (fun _ => f.record) [(v, v)]) rfl hused]
    rfl
  · exact ⟨f, Relation.ReflTransGen.refl, Relation.ReflTransGen.refl, rfl⟩

/-- No test bit is set in packets of zeros. -/
theorem not_testFails_zero (f : Forwarder) (inp : PassInput) (hzero : inp.testByte = fun _ => 0) :
    ¬ f.TestFails inp := by
  unfold Forwarder.TestFails
  rw [hzero, List.any_eq_true]
  rintro ⟨i, -, hbit⟩
  exact absurd hbit (show ¬ testBitError 0 = true by decide)

/-- **Receive call.** The loop can receive the next `m` packets of the round. -/
theorem LoopAt.receive (h : LoopAt cfg packet .top s u n) (hfits : cfg.Fits)
    (hlen : ∀ k, (packet k).length = cfg.len) (hpos : 0 < m) (hm : u + m ≤ xdmaDescMax) :
    ∃ s' b, LoopAt cfg packet (.received b) s' (Consumer.next xdmaDescMax (u + m)) n ∧
      b.nbPkts = m ∧ s'.handed.length = s.handed.length + m := by
  have hord := orderly_of_sound hfits (fun _ _ hsound => hsound)
  obtain ⟨lo, hinv⟩ := h.reach.inv hord hfits
  have hused := h.used
  have hreported := h.reported
  have hlt : s.queue.eng.descUsed < u + m := by omega
  obtain ⟨wb, f, hr, hfound, htx, harr⟩ :=
    hinv.toSourceInv.receives hlen hlt (by omega) hm
  let s' := s.received wb [(u + m, u + m)] (fun _ => 0) f
  have hstep : ForwardStep cfg (CallSound cfg.virt2phy) s s' :=
    ForwardStep.recv s wb _ _ f f h.place hr
  have hinv' : ForwardSysInv cfg (CallSound cfg.virt2phy) lo s' :=
    hinv.recv hord hfits h.place hr _
  -- The call trusts the count its one pass found.
  obtain ⟨c', hspec, -, hnext⟩ := hinv.recv_spec hr (fun _ => 0)
  have hpass : (s.loop.recv (s.input wb [(u + m, u + m)] (fun _ => 0))).lastPass = 0 :=
    hinv.source.lastPass_of_found (s.call wb [(u + m, u + m)]) rfl hlt
  have hread : (s.input wb [(u + m, u + m)] (fun _ => 0)).dev.reads 0 = (u + m, u + m) :=
    s.source.reads_zero rfl
  have htrusted : lastStable (s.input wb [(u + m, u + m)] (fun _ => 0)).dev.reads
      (s.loop.recv (s.input wb [(u + m, u + m)] (fun _ => 0))).lastPass = some c' := hspec.trusted
  rw [hpass, lastStable_of_stable hread] at htrusted
  obtain rfl := Option.some.inj htrusted
  have hret : (s.loop.recv (s.input wb [(u + m, u + m)] (fun _ => 0))).ret = m := by
    rw [hspec.ret]
    omega
  let b := s.loop.burst (s.input wb [(u + m, u + m)] (fun _ => 0))
  have hplace : s'.place = .received b := by
    rcases s.place_received wb [(u + m, u + m)] (fun _ => 0) f with ⟨hbit, -⟩ | ⟨-, -, hp⟩ |
      ⟨-, hzero, -⟩
    · exact absurd hbit (not_testFails_zero _ _ rfl)
    · exact hp
    · omega
  have hnb : b.nbPkts = m := (Forwarder.nbPkts_burst _ _).trans hret
  refine ⟨s', b, ⟨h.reach.trans (Relation.ReflTransGen.single hstep), hplace, hnext,
    s.source.word_after (s.call wb [(u + m, u + m)]) hspec.stops hfound, ?_, ?_,
    harr h.arriving⟩, hnb, ?_⟩
  · show f.tx.eng.completedDescCount = 0
    rw [htx]
    exact h.word
  · show f.tx.hw.count = n
    rw [htx]
    exact h.count
  · have hbase := hinv'.base
    have hpending : s'.pending = m :=
      (s.pending_received wb [(u + m, u + m)] (fun _ => 0) f).trans hret
    rw [hpending, hinv.base_top h.place] at hbase
    exact hbase.symm

/-! ### The transmit call -/

/-- The devices take steps of their own. -/
theorem ForwardSys.devices (ok : TxSys → TxBurst → Prop) (s : ForwardSys) {f : Fabric}
    (h : Relation.ReflTransGen (FabricStep cfg.virt2phy cfg.len s.queue.eng) s.fabric f) :
    Relation.ReflTransGen (ForwardStep cfg ok) s { s with fabric := f } := by
  induction h with
  | refl => exact Relation.ReflTransGen.refl
  | @tail g f _ hs ih => exact ih.tail (ForwardStep.device { s with fabric := g } f hs)

/-- The loop after the transmit call of `b` has returned, with the devices standing still from
    its exit on. -/
def ForwardSys.finished (s : ForwardSys) (b : TxBurst) : ForwardSys :=
  (s.withTx { eng := xdmaTxEngineStop s.fabric.tx.eng
              hw := s.fabric.tx.hw.stop
              drv := .idle }).returned b.nbPkts

/-- A transmit call that sees its exit test true returns. -/
theorem ForwardSys.finishes (cfg : ForwardConfig) (ok : TxSys → TxBurst → Prop) (s : ForwardSys)
    {b : TxBurst} (hp : s.place = .sending b) (hd : s.fabric.tx.drv = .polling b)
    (ht : txExitTest s.fabric.tx.eng.completedDescCount b.nbPkts = true) :
    Relation.ReflTransGen (ForwardStep cfg ok) s (s.finished b) := by
  have hexit : Relation.ReflTransGen (ForwardStep cfg ok) s _ :=
    Relation.ReflTransGen.single (ForwardStep.exit s b hp hd ht)
  have hhalt := hexit.tail (ForwardStep.halt _ b hp rfl)
  have hreset := hhalt.tail (ForwardStep.reset _ b hp rfl)
  exact hreset.tail (ForwardStep.done _ b hp rfl)

/-- After a burst of `n` packets one of any other size than `n + 1` is sound: the word is zero,
    and the terminator reports `n + 1`. -/
theorem OneSegment.callSound {virt2phy : Addr → Addr} {t : TxSys} (h : OneSegment b)
    (hmax : t.eng.descMax = xdmaDescMax) (hfit : b.nbPkts ≤ xdmaDescMax)
    (hpos : 0 < b.nbPkts) (hword : t.eng.completedDescCount = 0) (hcount : t.hw.count = n)
    (hn : n ≤ xdmaDescMax) (hsucc : b.nbPkts ≠ n + 1) : CallSound virt2phy t b := by
  simp only [xdmaDescMax] at hn
  by_contra hbad
  rcases h.unsound hmax hfit hbad with ht | ⟨c, hc, ht⟩
  · rw [hword] at ht
    exact Nat.ne_of_lt hpos (eq_of_txExitTest (by decide) ht)
  · obtain ⟨i, d, -, rfl⟩ := Walker.pending_eq_some hc
    rw [hcount] at ht
    exact hsucc (eq_of_txExitTest (by omega) ht).symm

/-- While a burst waits for a device that has not taken up its start, the device can walk to
    the end of the last packet, which reports. -/
theorem TxSysInv.reach_sent {virt2phy : Addr → Addr} {t : TxSys} (h : TxSysInv virt2phy t)
    (hd : t.drv = .polling b) (hk : t.hw.kick = true) (hone : OneSegment b)
    (hpos : 0 < b.nbPkts) (hlt : b.nbPkts < xdmaDescMax) :
    ∃ w, Relation.ReflTransGen (Step (txRules virt2phy t.eng) t.eng.descRing)
      (t.hw, t.eng.completedDescCount) (w, b.nbPkts) ∧ w.count = b.nbPkts := by
  obtain ⟨-, hstaged, hrun, -⟩ := h.polling hd
  have hlast : lastDesc t.eng b = b.nbPkts := by
    have hcount := hone.stagedCount t.eng (by rw [h.descMax]; exact Nat.le_of_lt hlt)
    rw [← hcount]
    exact lastDesc_of_lt (by rw [hcount, h.descMax]; exact hlt)
  have hsucc : b.nbPkts - 1 + 1 = b.nbPkts := by omega
  have hrep : (t.eng.descRing (b.nbPkts - 1)).completed = true := by
    rw [hstaged.report _ (by omega), hone.packetEnd h.descMax (Nat.le_of_lt hlt) (by omega)]
  obtain ⟨w₀, x₀, hs₀, hon₀, hr₀, hc₀⟩ :=
    OnChain.of_start hstaged.chain hk t.eng.completedDescCount
  obtain ⟨w, x, hs, -, -, hc, hx⟩ :=
    hon₀.reach hstaged.chain (hr₀.trans hrun) hc₀ x₀ (b.nbPkts - 1) (by omega)
  obtain rfl := hx hrep
  rw [hsucc] at hs hc
  exact ⟨w, hs₀.trans hs, hc⟩

/-- **Transmit call.** The burst can be sent whole, and the call return when its last packet
    is reported. -/
theorem LoopAt.transmit (h : LoopAt cfg packet (.received b) s u n) (hfits : cfg.Fits)
    (hlt : b.nbPkts < xdmaDescMax) (hn : n ≤ xdmaDescMax) (hsucc : b.nbPkts ≠ n + 1) :
    ∃ s', LoopAt cfg packet .top s' u b.nbPkts ∧ s'.handed = s.handed := by
  have hord := orderly_of_sound hfits (fun _ _ hsound => hsound)
  obtain ⟨lo, hinv⟩ := h.reach.inv hord hfits
  have hplace := hinv.place
  simp only [PlaceInv, h.place] at hplace
  obtain ⟨hidle, hburst⟩ := hplace
  have hpos := hburst.pos
  obtain ⟨sent, calls, hl⟩ := hinv.leaving
  have htx := hl.run.toReach.inv hfits.mapsTx
  have hready := htx.idle hidle
  have hsound : CallSound cfg.virt2phy s.fabric.tx b :=
    hburst.one.callSound htx.descMax (Nat.le_of_lt hlt) hpos h.word h.count hn hsucc
  let s₁ := s.submit b
  have hsend : ForwardReach cfg (CallSound cfg.virt2phy) s₁ :=
    h.reach.trans (Relation.ReflTransGen.single
      (ForwardStep.send s b h.place hready.1 hsound))
  have htx₁ : TxSysInv cfg.virt2phy s₁.fabric.tx := by
    obtain ⟨lo₁, hinv₁⟩ := hsend.inv hord hfits
    obtain ⟨sent₁, calls₁, hl₁⟩ := hinv₁.leaving
    exact hl₁.run.toReach.inv hfits.mapsTx
  obtain ⟨w, hs, hc⟩ := htx₁.reach_sent rfl rfl hburst.one hpos hlt
  obtain ⟨departed, hwalk⟩ := fabric_reach_tx cfg.len s₁.queue.eng hs
  let s₂ : ForwardSys :=
    { s₁ with
      fabric :=
        { s₁.fabric with
          tx := { s₁.fabric.tx with eng := s₁.fabric.tx.eng.withWord b.nbPkts, hw := w }
          departed := departed } }
  have hsent : ForwardReach cfg (CallSound cfg.virt2phy) s₂ :=
    hsend.trans (s₁.devices _ hwalk)
  have hexit : txExitTest s₂.fabric.tx.eng.completedDescCount b.nbPkts = true :=
    txExitTest_self b.nbPkts b.nbPktsLt
  refine ⟨s₂.finished b, ⟨hsent.trans (s₂.finishes cfg _ rfl rfl hexit), rfl, h.used, h.reported,
    rfl, hc, h.arriving⟩, rfl⟩

/-- **Pass.** The loop can forward the next `m` packets of the round. -/
theorem LoopAt.pass (h : LoopAt cfg packet .top s u n) (hfits : cfg.Fits)
    (hlen : ∀ k, (packet k).length = cfg.len) (hn : n ≤ xdmaDescMax) (hpos : 0 < m)
    (hlt : m < xdmaDescMax) (hm : u + m ≤ xdmaDescMax) (hsucc : m ≠ n + 1) :
    ∃ s', LoopAt cfg packet .top s' (Consumer.next xdmaDescMax (u + m)) m ∧
      s'.handed.length = s.handed.length + m := by
  obtain ⟨s₁, b, hbatch, rfl, hcount⟩ := h.receive hfits hlen hpos hm
  obtain ⟨s₂, hrest, hhanded⟩ := hbatch.transmit hfits hlt hn hsucc
  exact ⟨s₂, hrest, (congrArg List.length hhanded).trans hcount⟩

/-- **Run lemma.** Any such list of batches can be forwarded. -/
theorem LoopAt.batches {sizes : List Nat} (h : LoopAt cfg packet .top s u n) (hfits : cfg.Fits)
    (hlen : ∀ k, (packet k).length = cfg.len) (hn : n ≤ xdmaDescMax)
    (hb : Batches u n sizes) :
    ∃ s' u' n', LoopAt cfg packet .top s' u' n' ∧
      s'.handed.length = s.handed.length + sizes.sum := by
  induction sizes generalizing s u n with
  | nil => exact ⟨s, u, n, h, rfl⟩
  | cons m ms ih =>
    obtain ⟨hpos, hlt, hm, hsucc, hrest⟩ := hb
    obtain ⟨s₁, hrest₁, hcount₁⟩ := h.pass hfits hlen hn hpos hlt hm hsucc
    obtain ⟨s', u', n', hrest', hcount'⟩ := ih hrest₁ (Nat.le_of_lt hlt) hrest
    refine ⟨s', u', n', hrest', ?_⟩
    rw [List.sum_cons]
    omega

/-- A loop just started. -/
theorem loopAt_start (bytes : Addr → BitVec 8) (record : XdmaC2hStreamWb) :
    LoopAt cfg packet .top (ForwardSys.start cfg bytes record) 0 0 where
  reach := ⟨bytes, record, Relation.ReflTransGen.refl⟩
  place := rfl
  used := rfl
  reported := rfl
  word := rfl
  count := rfl
  arriving := rfl

end

end XdmaDpdk
