import XdmaDpdk.Forwarder

namespace XdmaDpdk

open StableRead

/-!
# XDMA test application — forwarding to another network card

`interPass` is one pass of `fpga_to_fpga` of `testapp_inter.c` on the thread whose source is
the FPGA: receive into `pkts`, hand as many packets to the port of the other card, count
them, and leave the loop when the count is `pkt_num`.  Unlike `fpgaToFpgaPass` this loop
never moves `pkts_buffer_idx`, while `xdma_recv_pkts` goes on to fill the array where its
last call stopped.

The other port is outside the repository: a pass is given the number of packets it accepts
and the mbufs as they are when the pass starts, since it may reuse what it has sent.

* `MovedSpec` — a pass receives the slots from the consumed count of the queue on, and hands
  over as many from the first slot on;
* `ordered_iff` — a run hands over what it receives exactly when each pass with packets
  starts at the first slot;
* `interLoop_ordered_iff` — of the runs that end, these are the ones that receive all their
  packets in one pass.
-/

/-! ### The loop -/

/-- `pkt_num`. -/
def pktNum : Nat := 16

/-- What varies from pass to pass. -/
structure InterInput where
  dev : RxDevice
  heap : Heap
  accepted : Nat

/-- The variables of `fpga_to_fpga` and the engine behind its source queue. -/
structure InterForwarder where
  rx : XdmaEngine
  pkts : Nat → MbufPtr
  pktsBufferIdx : Nat
  recvBatch : Nat
  recvPkts : Nat
  xmitBatch : Nat
  xmitPkts : Nat
  targetNum : Nat
  complete : Bool

/-- How a pass ends: on to the next one, or out of the loop. -/
inductive InterResult
  | next (f : InterForwarder)
  | done (f : InterForwarder)

namespace InterForwarder

/-- `rte_eth_rx_burst(src_port_id, src_queue_id, pkts, SIZE_OF_PKTS_BUFFER)`. -/
def recv (f : InterForwarder) (inp : InterInput) : RecvResult :=
  xdmaRecvPkts f.rx { heap := inp.heap, arr := f.pkts, touched := [], stamped := [] }
    sizeOfPktsBuffer inp.dev

/-- The variables after the two bursts. -/
def moved (f : InterForwarder) (inp : InterInput) : InterForwarder :=
  let res := f.recv inp
  let f := { f with rx := res.engine, pkts := res.mem.arr }
  if res.ret > 0 then
    { f with
      recvPkts := f.recvPkts + res.ret
      recvBatch := f.recvBatch + 1
      xmitPkts := f.xmitPkts + inp.accepted
      xmitBatch := f.xmitBatch + 1 }
  else f

/-- The loop about to start, on a queue just set up. -/
def start (virt2phy : Addr → Addr) (channel : BitVec 16) (al : SetupAlloc)
    (pkts : Nat → MbufPtr) : InterForwarder where
  rx := xdmaRxEngineSetup virt2phy channel al
  pkts := pkts
  pktsBufferIdx := 0
  recvBatch := 0
  recvPkts := 0
  xmitBatch := 0
  xmitPkts := 0
  targetNum := pktNum
  complete := false

/-- The source device counts on, and the other port accepts no more than it is given. -/
structure Valid (f : InterForwarder) (inp : InterInput) : Prop where
  reads : Growing f.rx.completedDescCount xdmaDescMax inp.dev.reads
  accepted : inp.accepted ≤ (f.recv inp).ret

end InterForwarder

/-- One pass of the loop. -/
def interPass (f : InterForwarder) (inp : InterInput) : InterResult :=
  let f := f.moved inp
  if f.xmitPkts = pktNum ∧ f.complete = false then .done { f with complete := true }
  else if f.xmitPkts > f.targetNum then .next { f with targetNum := f.xmitPkts }
  else .next f

/-! ### Runs -/

/-- What a pass moved: where the consumed count of the queue stood, the mbufs it received,
    those it handed to the other port, and how many of them that port accepted. -/
structure Moved where
  start : Nat
  received : List MbufPtr
  handed : List MbufPtr
  accepted : Nat

/-- The mbufs of the slots stamped, and the `ret` mbufs at `&pkts[pkts_buffer_idx]`. -/
def InterForwarder.record (f : InterForwarder) (inp : InterInput) : Moved where
  start := f.rx.descUsed
  received := (f.recv inp).mem.stamped.map (f.recv inp).mem.arr
  handed := (List.range' f.pktsBufferIdx (f.recv inp).ret).map (f.recv inp).mem.arr
  accepted := inp.accepted

/-- The passes made from `f₀`, with what each of them moved. -/
inductive InterRun (f₀ : InterForwarder) : List Moved → InterForwarder → Prop
  | start : InterRun f₀ [] f₀
  | pass {log : List Moved} {f f' : InterForwarder} {inp : InterInput} (h : InterRun f₀ log f)
      (hvalid : f.Valid inp) (hpass : interPass f inp = .next f') :
      InterRun f₀ (log ++ [f.record inp]) f'

/-- A run to the end of the loop, its last pass apart. -/
inductive InterDone (f₀ : InterForwarder) : List Moved → Moved → InterForwarder → Prop
  | done {log : List Moved} {f f' : InterForwarder} {inp : InterInput} (h : InterRun f₀ log f)
      (hvalid : f.Valid inp) (hpass : interPass f inp = .done f') :
      InterDone f₀ log (f.record inp) f'

/-- What was handed over is what was received, in order. -/
def Ordered (log : List Moved) : Prop := log.flatMap Moved.handed = log.flatMap Moved.received

/-- The other port accepted all it was given. -/
def TakesAll (log : List Moved) : Prop := ∀ m ∈ log, m.accepted = m.received.length

/-- Pass by pass, when each hands over as many as it receives. -/
theorem ordered_iff_forall {log : List Moved}
    (hlen : ∀ m ∈ log, m.handed.length = m.received.length) :
    Ordered log ↔ ∀ m ∈ log, m.handed = m.received := by
  unfold Ordered
  induction log with
  | nil => simp
  | cons m log ih =>
    have hrest := ih fun m' hm' => hlen m' (List.mem_cons_of_mem _ hm')
    rw [List.flatMap_cons, List.flatMap_cons, List.forall_mem_cons, ← hrest]
    constructor
    · -- Of equal lengths, so equal pass by pass.
      exact fun heq => List.append_inj heq (hlen m (List.mem_cons_self ..))
    · rintro ⟨hhead, htail⟩
      rw [hhead, htail]

/-! ### What a pass moves -/

/-- What holds between two passes. -/
structure InterInv (pkts : Nat → MbufPtr) (f : InterForwarder) : Prop where
  rx : ∃ q, RxFull q ∧ q.eng = f.rx
  lt : f.rx.descUsed < xdmaDescMax
  array : f.pkts = pkts
  idx : f.pktsBufferIdx = 0
  going : f.complete = false
  count : f.xmitPkts ≠ pktNum

/-- A pass moved the slots from the consumed count up to `c'`. -/
structure MovedSpec (pkts : Nat → MbufPtr) (f : InterForwarder) (inp : InterInput) (c' : Nat) :
    Prop where
  le : f.rx.descUsed ≤ c'
  le_max : c' ≤ xdmaDescMax
  received : (f.record inp).received
    = (List.range' f.rx.descUsed (c' - f.rx.descUsed)).map pkts
  handed : (f.record inp).handed = (List.range' 0 (c' - f.rx.descUsed)).map pkts
  used : (f.moved inp).rx.descUsed = Consumer.next xdmaDescMax c'
  xmitPkts : (f.moved inp).xmitPkts = f.xmitPkts + (f.record inp).accepted

section
variable {pkts : Nat → MbufPtr} {f f' : InterForwarder} {inp : InterInput}

/-- A pass changes the queue and the counters. -/
theorem moved_eq (f : InterForwarder) (inp : InterInput) :
    ∃ rb rp xb, f.moved inp =
      { f with
        rx := (f.recv inp).engine
        pkts := (f.recv inp).mem.arr
        recvBatch := rb
        recvPkts := rp
        xmitBatch := xb
        xmitPkts := if (f.recv inp).ret > 0 then f.xmitPkts + inp.accepted else f.xmitPkts } := by
  unfold InterForwarder.moved
  by_cases hpos : (f.recv inp).ret > 0
  · simp only [hpos, if_true]
    exact ⟨_, _, _, rfl⟩
  · simp only [hpos, if_false]
    exact ⟨_, _, _, rfl⟩

/-- **Inversion.** The loop ends when the count is `pkt_num`, and goes on otherwise. -/
theorem interPass_cases (hgoing : (f.moved inp).complete = false) :
    ((f.moved inp).xmitPkts = pktNum ∧
      interPass f inp = .done { f.moved inp with complete := true }) ∨
    ((f.moved inp).xmitPkts ≠ pktNum ∧
      ∃ target, interPass f inp = .next { f.moved inp with targetNum := target }) := by
  unfold interPass
  by_cases hcount : (f.moved inp).xmitPkts = pktNum
  · exact .inl ⟨hcount, if_pos ⟨hcount, hgoing⟩⟩
  · right
    refine ⟨hcount, ?_⟩
    simp only [hcount, false_and, if_false]
    split
    · exact ⟨_, rfl⟩
    · exact ⟨_, rfl⟩

/-- **Pass lemma.** -/
theorem InterInv.movedSpec (h : InterInv pkts f) (hvalid : f.Valid inp) :
    (∃ q, RxFull q ∧ q.eng = (f.moved inp).rx) ∧ (f.moved inp).pkts = pkts ∧
      (f.moved inp).pktsBufferIdx = 0 ∧ (f.moved inp).complete = false ∧
      ∃ c', MovedSpec pkts f inp c' := by
  obtain ⟨q, hq, heq⟩ := h.rx
  -- The receive call asks for the whole ring.
  have hcall := hq.fullCall pkts ⟨inp.heap, inp.dev⟩ (by rw [heq]; exact hvalid.reads)
  have harr : RxCall.mem ⟨inp.heap, inp.dev⟩ pkts
      = { heap := inp.heap, arr := f.pkts, touched := [], stamped := [] } := by
    rw [h.array]
    rfl
  rw [heq, harr] at hcall
  obtain ⟨c', q', hspec, hq', heng, hused⟩ := hcall
  change CallSpec pkts f.rx.descUsed c' ⟨inp.heap, inp.dev⟩ (f.recv inp) at hspec
  change q'.eng = (f.recv inp).engine at heng
  obtain ⟨rb, rp, xb, hmoved⟩ := moved_eq f inp
  rw [hmoved]
  refine ⟨⟨q', hq', heng⟩, hspec.array, h.idx, h.going, c', hspec.le, hspec.le_max, ?_, ?_, ?_, ?_⟩
  · show (f.recv inp).mem.stamped.map (f.recv inp).mem.arr = _
    rw [hspec.stamped, hspec.array]
  · show (List.range' f.pktsBufferIdx (f.recv inp).ret).map (f.recv inp).mem.arr = _
    rw [hspec.ret, hspec.array, h.idx]
  · rw [hmoved]
    show (f.recv inp).engine.descUsed = _
    rw [← heng, hused]
  · rw [hmoved]
    show (if (f.recv inp).ret > 0 then f.xmitPkts + inp.accepted else f.xmitPkts)
      = f.xmitPkts + inp.accepted
    -- A pass without packets has none accepted either.
    have hacc := hvalid.accepted
    split
    · rfl
    · omega

/-- **Step lemma.** -/
theorem InterInv.pass (h : InterInv pkts f) (hvalid : f.Valid inp)
    (hpass : interPass f inp = .next f') :
    InterInv pkts f' ∧ ∃ c', MovedSpec pkts f inp c' ∧
      f'.rx.descUsed = Consumer.next xdmaDescMax c' ∧
      f'.xmitPkts = f.xmitPkts + (f.record inp).accepted := by
  obtain ⟨hrx, harr, hidx, hgoing, c', hspec⟩ := h.movedSpec hvalid
  rcases interPass_cases hgoing with ⟨-, heq⟩ | ⟨hcount, target, heq⟩
  · rw [heq] at hpass
    cases hpass
  · rw [heq] at hpass
    obtain rfl := InterResult.next.inj hpass
    refine ⟨⟨hrx, ?_, harr, hidx, hgoing, hcount⟩, c', hspec, hspec.used, hspec.xmitPkts⟩
    -- A round that is used up starts over at 0.
    show (f.moved inp).rx.descUsed < xdmaDescMax
    rw [hspec.used]
    exact Consumer.next_lt (by decide) hspec.le_max

/-- The pass that ends the loop makes the count `pkt_num`. -/
theorem InterInv.last (h : InterInv pkts f) (hvalid : f.Valid inp)
    (hpass : interPass f inp = .done f') :
    ∃ c', MovedSpec pkts f inp c' ∧ f.xmitPkts + (f.record inp).accepted = pktNum := by
  obtain ⟨-, -, -, hgoing, c', hspec⟩ := h.movedSpec hvalid
  rcases interPass_cases hgoing with ⟨hcount, -⟩ | ⟨-, target, heq⟩
  · refine ⟨c', hspec, ?_⟩
    rw [← hspec.xmitPkts]
    exact hcount
  · rw [heq] at hpass
    cases hpass

/-! ### Which passes are in order -/

section
variable {c' : Nat}

theorem MovedSpec.length (h : MovedSpec pkts f inp c') :
    (f.record inp).received.length = c' - f.rx.descUsed ∧
      (f.record inp).handed.length = (f.record inp).received.length := by
  rw [h.received, h.handed, List.length_map, List.length_map, List.length_range',
    List.length_range']
  exact ⟨rfl, rfl⟩

/-- A pass hands over what it receives if it receives nothing or starts at the first slot. -/
theorem MovedSpec.handed_iff (h : MovedSpec pkts f inp c') (hdist : DistinctPkts pkts) :
    (f.record inp).handed = (f.record inp).received
      ↔ ((f.record inp).received ≠ [] → (f.record inp).start = 0) := by
  have hle := h.le
  have hmax := h.le_max
  show _ ↔ (_ → f.rx.descUsed = 0)
  constructor
  · intro heq hne
    -- The first mbuf of each: slot 0 and the slot of the consumed count.
    have hpos : 0 < c' - f.rx.descUsed := by
      rw [← h.length.1]
      exact List.length_pos_iff.mpr hne
    rw [h.handed, h.received] at heq
    obtain ⟨n, hn⟩ : ∃ n, c' - f.rx.descUsed = n + 1 := ⟨_, (Nat.sub_add_cancel hpos).symm⟩
    rw [hn, List.range'_succ, List.range'_succ, List.map_cons, List.map_cons] at heq
    exact (hdist 0 (by decide) f.rx.descUsed (by omega) (List.cons.inj heq).1).symm
  · intro hzero
    -- A pass that received nothing has nothing to hand over.
    by_cases hne : (f.record inp).received = []
    · have hlen := h.length
      rw [hne, List.length_nil, List.length_eq_zero_iff] at hlen
      rw [hne, hlen.2]
    · rw [h.handed, h.received, hzero hne]

end

/-- What holds of every pass of a run. -/
structure MovedOk (m : Moved) : Prop where
  length : m.handed.length = m.received.length
  order : m.handed = m.received ↔ (m.received ≠ [] → m.start = 0)

theorem MovedSpec.movedOk {c' : Nat} (h : MovedSpec pkts f inp c') (hdist : DistinctPkts pkts) :
    MovedOk (f.record inp) := ⟨h.length.2, h.handed_iff hdist⟩

/-- **Run lemma.** -/
theorem InterRun.inv {f₀ : InterForwarder} {log : List Moved} (h : InterRun f₀ log f)
    (hdist : DistinctPkts pkts) (h₀ : InterInv pkts f₀) :
    InterInv pkts f ∧ ∀ m ∈ log, MovedOk m := by
  induction h with
  | start => exact ⟨h₀, nofun⟩
  | pass _ hvalid hpass ih =>
    obtain ⟨hinv, c', hspec, -, -⟩ := ih.1.pass hvalid hpass
    refine ⟨hinv, List.forall_mem_append.mpr ⟨ih.2, ?_⟩⟩
    exact List.forall_mem_singleton.mpr (hspec.movedOk hdist)

/-- A run is in order exactly when its passes with packets start at the first slot. -/
theorem ordered_iff {log : List Moved} (h : ∀ m ∈ log, MovedOk m) :
    Ordered log ↔ ∀ m ∈ log, m.received ≠ [] → m.start = 0 := by
  rw [ordered_iff_forall fun m hm => (h m hm).length]
  exact forall₂_congr fun m hm => (h m hm).order

/-! ### Runs that end -/

/-- Passes that start at the first slot have moved nothing yet, or stand inside a round, or
    are past `pkt_num`. -/
def Tally (log : List Moved) (f : InterForwarder) : Prop :=
  ((∀ m ∈ log, m.received = []) ∧ f.rx.descUsed = 0 ∧ f.xmitPkts = 0) ∨
    ((∃ m ∈ log, m.received ≠ []) ∧ (f.rx.descUsed ≠ 0 ∨ pktNum < f.xmitPkts))

theorem Tally.pass {log : List Moved} {c' : Nat} (h : Tally log f) (hinv : InterInv pkts f)
    (hspec : MovedSpec pkts f inp c') (hused : f'.rx.descUsed = Consumer.next xdmaDescMax c')
    (hxmit : f'.xmitPkts = f.xmitPkts + (f.record inp).accepted)
    (hzero : (f.record inp).received ≠ [] → (f.record inp).start = 0)
    (htake : (f.record inp).accepted = (f.record inp).received.length) :
    Tally (log ++ [f.record inp]) f' := by
  have hle := hspec.le
  have hlt := hinv.lt
  have hlen := hspec.length.1
  have hmem : f.record inp ∈ log ++ [f.record inp] :=
    List.mem_append_right _ (List.mem_singleton_self _)
  rw [htake, hlen] at hxmit
  by_cases hne : (f.record inp).received = []
  · -- A pass without packets leaves the count and the queue as they are.
    have hsame : c' = f.rx.descUsed := by
      rw [hne, List.length_nil] at hlen
      omega
    have hnext : Consumer.next xdmaDescMax f.rx.descUsed = f.rx.descUsed :=
      if_neg (Nat.ne_of_lt hlt)
    rw [hsame, hnext] at hused
    rw [hsame, Nat.sub_self, Nat.add_zero] at hxmit
    unfold Tally
    rw [hused, hxmit]
    rcases h with ⟨hall, hcount⟩ | ⟨⟨m, hm, hm'⟩, hcount⟩
    · refine .inl ⟨List.forall_mem_append.mpr ⟨hall, ?_⟩, hcount⟩
      exact List.forall_mem_singleton.mpr hne
    · exact .inr ⟨⟨m, List.mem_append_left _ hm, hm'⟩, hcount⟩
  · have hstart : f.rx.descUsed = 0 := hzero hne
    -- The pass starts a round, and stays inside it or uses it up.
    have hpos : 0 < c' := by
      have hlen' := List.length_pos_iff.mpr hne
      omega
    refine .inr ⟨⟨_, hmem, hne⟩, ?_⟩
    rw [hused, hxmit]
    unfold Consumer.next
    split
    · -- A whole round is more than `pkt_num`.
      rename_i hfull
      right
      rw [hfull, hstart]
      simp only [xdmaDescMax, pktNum]
      omega
    · exact .inl (by omega)

theorem InterRun.tally {f₀ : InterForwarder} {log : List Moved} (h : InterRun f₀ log f)
    (hdist : DistinctPkts pkts) (h₀ : InterInv pkts f₀) (hused : f₀.rx.descUsed = 0)
    (hxmit : f₀.xmitPkts = 0) (hzero : ∀ m ∈ log, m.received ≠ [] → m.start = 0)
    (htake : TakesAll log) : Tally log f := by
  induction h with
  | start => exact .inl ⟨nofun, hused, hxmit⟩
  | @pass log f f' inp hrun hvalid hpass ih =>
    obtain ⟨hzero', hlast⟩ := List.forall_mem_append.mp hzero
    obtain ⟨htake', htlast⟩ := List.forall_mem_append.mp htake
    have hinv := (hrun.inv hdist h₀).1
    obtain ⟨-, c', hspec, hused', hxmit'⟩ := hinv.pass hvalid hpass
    exact (ih hzero' htake').pass hinv hspec hused' hxmit' (hlast _ (List.mem_singleton_self _))
      (htlast _ (List.mem_singleton_self _))

/-- The last pass of a run that ends. -/
theorem InterDone.cases {f₀ : InterForwarder} {log : List Moved} {last : Moved}
    (h : InterDone f₀ log last f') :
    ∃ f inp, InterRun f₀ log f ∧ f.Valid inp ∧ interPass f inp = .done f' ∧
      last = f.record inp := by
  cases h with
  | done h hvalid hpass => exact ⟨_, _, h, hvalid, hpass, rfl⟩

theorem interInv_start (virt2phy : Addr → Addr) (channel : BitVec 16) (al : SetupAlloc)
    (pkts : Nat → MbufPtr) : InterInv pkts (InterForwarder.start virt2phy channel al pkts) where
  rx := ⟨_, rxFull_fresh virt2phy channel al, rfl⟩
  lt := show 0 < xdmaDescMax by decide
  array := rfl
  idx := rfl
  going := rfl
  count := show 0 ≠ pktNum by decide

end

/-- **The loop towards the other card.** When the other port accepts all it is given, a run to
    the end of the loop hands over the packets it received, in order, exactly when it received
    nothing before its last pass and then the first `pkt_num` packets at once. -/
theorem interLoop_ordered_iff (virt2phy : Addr → Addr) (channel : BitVec 16) (al : SetupAlloc)
    (pkts : Nat → MbufPtr) (hdist : DistinctPkts pkts) (earlier : List Moved) (last : Moved)
    (f : InterForwarder)
    (h : InterDone (InterForwarder.start virt2phy channel al pkts) earlier last f)
    (htake : TakesAll (earlier ++ [last])) :
    Ordered (earlier ++ [last])
      ↔ (∀ m ∈ earlier, m.received = []) ∧ last.received = (List.range pktNum).map pkts := by
  obtain ⟨g, inp, hrun, hvalid, hpass, rfl⟩ := h.cases
  have h₀ := interInv_start virt2phy channel al pkts
  obtain ⟨hinv, hlog⟩ := hrun.inv hdist h₀
  obtain ⟨c', hspec, hcount⟩ := hinv.last hvalid hpass
  obtain ⟨htake', htlast⟩ := List.forall_mem_append.mp htake
  have htlast' := htlast _ (List.mem_singleton_self _)
  have hlen := hspec.length.1
  rw [ordered_iff (List.forall_mem_append.mpr ⟨hlog,
    List.forall_mem_singleton.mpr (hspec.movedOk hdist)⟩), List.forall_mem_append,
    List.forall_mem_singleton]
  have hne : (g.record inp).received ≠ [] := by
    intro hnil
    -- A pass without packets does not change the count, which was not `pkt_num`.
    rw [htlast', hnil] at hcount
    exact hinv.count hcount
  constructor
  · rintro ⟨hzero, hlast⟩
    have hstart : g.rx.descUsed = 0 := hlast hne
    -- Packets of an earlier pass would leave the queue off 0 or the count past `pkt_num`.
    rcases hrun.tally hdist h₀ rfl rfl hzero htake' with ⟨hall, -, hnone⟩ | ⟨-, hround | hpast⟩
    · refine ⟨hall, ?_⟩
      have hc : c' = pktNum := by omega
      rw [hspec.received, hstart, hc, Nat.sub_zero, List.range_eq_range']
    · exact absurd hstart hround
    · omega
  · rintro ⟨hall, -⟩
    have hzero : ∀ m ∈ earlier, m.received ≠ [] → m.start = 0 :=
      fun m hm hm' => absurd (hall m hm) hm'
    refine ⟨hzero, fun _ => ?_⟩
    rcases hrun.tally hdist h₀ rfl rfl hzero htake' with ⟨-, hstart, -⟩ | ⟨⟨m, hm, hm'⟩, -⟩
    · exact hstart
    · exact absurd (hall m hm) hm'

/-- A loop on a fresh queue, with the mbufs `0, 1, …` in the array. -/
def InterForwarder.fresh : InterForwarder := InterForwarder.start id 0 SetupAlloc.pages id

/-- A pass that finds the count at `v`, eight packets on, all of them accepted. -/
def InterInput.eight (v : Nat) : InterInput where
  dev := RxDevice.const v
  heap := fun _ => plainMbuf
  accepted := 8

/-- Two passes of eight packets: the second one hands over those of the first again. -/
theorem not_ordered_eights :
    ∃ earlier last f, InterDone InterForwarder.fresh earlier last f ∧
      TakesAll (earlier ++ [last]) ∧ ¬ Ordered (earlier ++ [last]) := by
  obtain ⟨g, f, hg, hf, hword, hret, hlen⟩ :
      ∃ g f, interPass InterForwarder.fresh (.eight 8) = .next g ∧
        interPass g (.eight 16) = .done f ∧ g.rx.completedDescCount = 8 ∧
        (g.recv (.eight 16)).ret = 8 ∧ (g.record (.eight 16)).received.length = 8 :=
    ⟨_, _, rfl, rfl, rfl, rfl, rfl⟩
  have hfirst : InterForwarder.fresh.Valid (.eight 8) :=
    ⟨growing_const (show 0 ≤ 8 by decide) (by decide), Nat.le_of_eq rfl⟩
  have hsecond : g.Valid (.eight 16) :=
    ⟨growing_const (by rw [hword]; decide) (by decide), by rw [hret]; exact Nat.le_refl 8⟩
  have hdone : InterDone InterForwarder.fresh ([] ++ [InterForwarder.fresh.record (.eight 8)])
      (g.record (.eight 16)) f := .done (.pass .start hfirst hg) hsecond hf
  have htake : TakesAll
      ([] ++ [InterForwarder.fresh.record (.eight 8)] ++ [g.record (.eight 16)]) := by
    intro m hm
    simp only [List.nil_append, List.mem_append, List.mem_singleton] at hm
    rcases hm with rfl | rfl
    · rfl
    · exact hlen.symm
  refine ⟨_, _, f, hdone, htake, fun hord => ?_⟩
  have hnone := ((interLoop_ordered_iff id 0 SetupAlloc.pages id (fun _ _ _ _ h => h) _ _ f hdone
    htake).mp hord).1 _ (List.mem_singleton_self _)
  exact absurd (congrArg List.length hnone) (by decide)

end XdmaDpdk
