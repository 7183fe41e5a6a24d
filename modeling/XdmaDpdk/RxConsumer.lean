import XdmaDpdk.RxCount
import XdmaDpdk.Lib.Consumer

namespace XdmaDpdk

open StableRead ArrayLoop

/-!
# XDMA driver — full-ring reception as a consumed-counter

Calls of `xdma_recv_pkts` that all ask for the whole ring.  Arming then wraps `desc_used`
back to 0, so that it is the consumed count throughout (`RxFull`), and a call is one step of
a consumer that takes the slots of the ring in order (`CallSpec`): it stamps the slots from
the old count to the new one and no others, returns their number, and stops the engine
exactly when the ring is consumed.

The new count is the one the device's reads lead to (`FoundCount`): the first stable count
other than the old one, or the old one when the call times out.

`RxFull.consumerRun` is the simulation: over any run the driver is the consumer `Consumer.Run`.
`recvRun_exactly_once` reads off it that every slot of every cycle is stamped exactly once and
in order.
-/

/-! ### Queues that are always asked for the whole ring -/

/-- An armed queue has all descriptors posted. -/
structure RxFull (q : RxQueue) : Prop where
  inv : RxInv q
  full : q.eng.running = true → q.posted.length = xdmaDescMax

section
variable {q : RxQueue} {m : RxMem} {dev : RxDevice}

theorem RxFull.enter_posted (h : RxFull q) :
    (q.enter m xdmaDescMax).posted.length = xdmaDescMax := by
  cases hrun : q.eng.running with
  | true =>
    rw [RxQueue.enter_of_running hrun]
    exact h.full hrun
  | false =>
    have hposted := (h.inv.enter_of_idle m xdmaDescMax hrun).2.2.1
    rw [hposted, List.length_map, List.length_range, h.inv.descMax, Nat.min_self]

/-- Arming the whole ring leaves `desc_used` where it was, at 0. -/
theorem RxFull.enter_used (h : RxFull q) :
    (q.enter m xdmaDescMax).eng.descUsed = q.eng.descUsed := by
  cases hrun : q.eng.running with
  | true =>
    rw [RxQueue.enter_of_running hrun]
    rfl
  | false =>
    have hused := (h.inv.enter_of_idle m xdmaDescMax hrun).1
    rw [hused, h.inv.descMax, (h.inv.ring hrun).used, Nat.min_self, Nat.mod_self]

/-- The whole ring is what a call has to consume before it stops the engine. -/
theorem RxFull.enter_nbPkts (h : RxFull q) : (rxEnter q.eng m xdmaDescMax).1 = xdmaDescMax := by
  cases hrun : q.eng.running with
  | true => rw [rxEnter_of_running _ m xdmaDescMax hrun]
  | false =>
    rw [rxEnter_of_idle _ m xdmaDescMax hrun]
    show min xdmaDescMax q.eng.descMax = xdmaDescMax
    rw [h.inv.descMax, Nat.min_self]

/-- The consumed count never passes the device's. -/
theorem RxFull.used_le_word (h : RxFull q) : q.eng.descUsed ≤ q.eng.completedDescCount := by
  cases hrun : q.eng.running with
  | true =>
    have hposted := (h.full hrun).trans h.inv.descMax.symm
    exact ((h.inv.armed hrun).full hposted).2
  | false =>
    rw [(h.inv.ring hrun).used]
    exact Nat.zero_le _

theorem RxFull.word_le (h : RxFull q) : q.eng.completedDescCount ≤ xdmaDescMax := by
  cases hrun : q.eng.running with
  | true => exact (h.inv.armed hrun).word.trans (Nat.le_of_eq (h.full hrun))
  | false =>
    rw [h.inv.idle hrun]
    exact Nat.zero_le _

theorem RxFull.devValid_const (h : RxFull q) {v : Nat} (hlo : q.eng.completedDescCount ≤ v)
    (hv : v ≤ xdmaDescMax) : DevValid q m xdmaDescMax (RxDevice.const v) := by
  apply XdmaDpdk.devValid_const hlo
  rw [h.enter_posted]
  exact hv

/-- **Call lemma.** A full-ring call moves the consumed count on to a trusted value `v`. -/
theorem RxFull.consumes (h : RxFull q) (hdev : DevValid q m xdmaDescMax dev) :
    ∃ v, q.eng.descUsed ≤ v ∧ v ≤ xdmaDescMax ∧
      v ≤ (dev.reads (xdmaRecvPkts q.eng m xdmaDescMax dev).lastPass).2 ∧
      Consumes (q.enter m xdmaDescMax).eng (rxEnter q.eng m xdmaDescMax).2.2 xdmaDescMax dev v
        (xdmaRecvPkts q.eng m xdmaDescMax dev) := by
  obtain ⟨v, hlo, hword, hv, hc⟩ := h.inv.consumes hdev
  rw [h.enter_posted] at hv
  rw [h.enter_nbPkts] at hc
  exact ⟨v, h.used_le_word.trans hlo, hv, hword, hc⟩

/-- The result of a full-ring call is the difference of the consumed counts. -/
theorem RxFull.ret (h : RxFull q) {v : Nat} {res : RecvResult} (hle : q.eng.descUsed ≤ v)
    (hv : v ≤ xdmaDescMax)
    (hc : Consumes (q.enter m xdmaDescMax).eng (rxEnter q.eng m xdmaDescMax).2.2 xdmaDescMax dev v
      res) : res.ret = v - q.eng.descUsed := by
  simp only [xdmaDescMax] at hv
  rw [hc.ret, h.enter_used]
  omega

/-- The consumed count after a full-ring call. -/
theorem RxFull.used_recv {v : Nat}
    (hc : Consumes (q.enter m xdmaDescMax).eng (rxEnter q.eng m xdmaDescMax).2.2 xdmaDescMax dev v
      (xdmaRecvPkts q.eng m xdmaDescMax dev)) :
    (q.recv m xdmaDescMax dev).eng.descUsed = Consumer.next xdmaDescMax v ∧
      ((q.recv m xdmaDescMax dev).eng.running = false ↔ v = xdmaDescMax) := by
  obtain ⟨status, heng⟩ := hc.engine
  have heng' : (q.recv m xdmaDescMax dev).eng = _ := heng
  have hrunning : (q.enter m xdmaDescMax).eng.running = true := rxEnter_running q.eng m xdmaDescMax
  unfold Consumer.next
  rw [heng']
  split
  · -- All is consumed, and the stop resets the count.
    rename_i hstop
    exact ⟨rfl, iff_of_true rfl hstop⟩
  · rename_i hgo
    refine ⟨rfl, iff_of_false ?_ hgo⟩
    intro hoff
    exact absurd (hrunning.symm.trans hoff) (by decide)

/-- The word after a call over a device that shows one count throughout. -/
theorem RxFull.word_const (h : RxFull q) {v : Nat} (hlo : q.eng.completedDescCount ≤ v)
    (hv : v ≤ xdmaDescMax) :
    (q.recv m xdmaDescMax (RxDevice.const v)).eng.completedDescCount
      = Consumer.next xdmaDescMax v := by
  obtain ⟨v', -, -, -, hc⟩ := h.consumes (h.devValid_const (m := m) hlo hv)
  -- The call trusts the one count the device shows.
  obtain rfl : v = v' := Option.some.inj ((lastStable_const v _).symm.trans hc.trusted)
  obtain ⟨status, heng⟩ := hc.engine
  have heng' : (q.recv m xdmaDescMax (RxDevice.const v)).eng = _ := heng
  unfold Consumer.next
  rw [heng']
  split <;> rfl

/-- **Step lemma.** -/
theorem RxFull.recv (h : RxFull q) (hdev : DevValid q m xdmaDescMax dev) :
    RxFull (q.recv m xdmaDescMax dev) :=
  ⟨h.inv.recv hdev, fun _ => h.enter_posted⟩

end

theorem rxFull_fresh (virt2phy : Addr → Addr) (channelId : BitVec 16) (a : SetupAlloc) :
    RxFull (RxQueue.fresh virt2phy channelId a) := by
  have hreach : RxReach virt2phy channelId a (fun _ => True)
      (RxQueue.fresh virt2phy channelId a) := RxReach.setup
  exact ⟨hreach.inv, fun hon => absurd hon Bool.false_ne_true⟩

/-- **Run lemma.** Calls that all ask for the whole ring keep it. -/
theorem RxReach.isFull {virt2phy : Addr → Addr} {channelId : BitVec 16} {a : SetupAlloc}
    {q : RxQueue} (h : RxReach virt2phy channelId a (fun n => n = xdmaDescMax) q) : RxFull q := by
  induction h with
  | setup => exact rxFull_fresh virt2phy channelId a
  | recv m nbPkts dev _ hnb hdev ih =>
    subst hnb
    exact ih.recv hdev
  | stop hq _ =>
    exact ⟨(RxReach.stop hq).inv, fun hon => absurd hon Bool.false_ne_true⟩

/-! ### Runs over one array -/

/-- What varies from call to call: the mbufs as the application left them, and the device. -/
structure RxCall where
  heap : Heap
  dev : RxDevice

def RxCall.mem (call : RxCall) (arr : Nat → MbufPtr) : RxMem where
  heap := call.heap
  arr := arr
  touched := []
  stamped := []

/-- The results of calls with `nb_pkts = desc_max` and the array `arr`, one after the other. -/
def recvRun (arr : Nat → MbufPtr) : RxQueue → List RxCall → List RecvResult
  | _, [] => []
  | q, call :: rest =>
    xdmaRecvPkts q.eng (call.mem arr) xdmaDescMax call.dev
      :: recvRun arr (q.recv (call.mem arr) xdmaDescMax call.dev) rest

/-- The device's counts are possible ones in every call of the run. -/
def ValidRun (arr : Nat → MbufPtr) : RxQueue → List RxCall → Prop
  | _, [] => True
  | q, call :: rest =>
    DevValid q (call.mem arr) xdmaDescMax call.dev ∧
      ValidRun arr (q.recv (call.mem arr) xdmaDescMax call.dev) rest

/-- A call over a device that shows the count `v` throughout, at the head of a run. -/
theorem RxFull.validRun_const {q : RxQueue} (h : RxFull q) {arr : Nat → MbufPtr} {heap : Heap}
    {v : Nat} {rest : List RxCall} (hlo : q.eng.completedDescCount ≤ v) (hv : v ≤ xdmaDescMax)
    (hrest : ∀ q' : RxQueue, RxFull q' →
      q'.eng.completedDescCount = Consumer.next xdmaDescMax v → ValidRun arr q' rest) :
    ValidRun arr q (⟨heap, RxDevice.const v⟩ :: rest) := by
  have hdev := h.devValid_const (m := RxCall.mem ⟨heap, RxDevice.const v⟩ arr) hlo hv
  exact ⟨hdev, hrest _ (h.recv hdev) (h.word_const hlo hv)⟩

/-! ### The refinement -/

/-- A call that takes the consumer from the consumed count `c` to the count `c'` its reads
    lead to. -/
structure CallSpec (arr : Nat → MbufPtr) (c c' : Nat) (call : RxCall) (res : RecvResult) :
    Prop where
  found : FoundCount c call.dev.reads c'
  trusted : lastStable call.dev.reads res.lastPass = some c'
  sample : res.sample = if c' = c then none else some c'
  le : c ≤ c'
  le_max : c' ≤ xdmaDescMax
  stamped : res.mem.stamped = List.range' c (c' - c)
  ret : res.ret = c' - c
  array : res.mem.arr = arr
  slot : (∀ i < xdmaDescMax, ∀ j < xdmaDescMax, arr i = arr j → i = j) →
    ∀ i, c ≤ i → i < c' → ∃ e, res.mem.heap (arr i)
      = stampSeg e (call.dev.wb i) (call.heap (arr i))
  other : ∀ p, (∀ i, c ≤ i → i < c' → arr i ≠ p) → res.mem.heap p = call.heap p
  timeout : res.sample = none → c' = c ∧ res.ret = 0 ∧ res.mem.heap = call.heap
  stops : res.engine.running = false ↔ c' = xdmaDescMax

/-- A run of the driver as a run of the consumer: every call meets `CallSpec`, and the
    consumed count starts over with each cycle. -/
inductive ConsumerRun (arr : Nat → MbufPtr) : Nat → List (RxCall × RecvResult) → Nat → Prop
  | nil (c : Nat) : ConsumerRun arr c [] c
  | call {c c' d : Nat} {call : RxCall} {res : RecvResult} {rest : List (RxCall × RecvResult)}
      (hspec : CallSpec arr c c' call res)
      (h : ConsumerRun arr (Consumer.next xdmaDescMax c') rest d) :
      ConsumerRun arr c ((call, res) :: rest) d

/-- The slots stamped along such a run are the slots taken by the abstract consumer. -/
theorem ConsumerRun.toRun {arr : Nat → MbufPtr} {c d : Nat} {l : List (RxCall × RecvResult)}
    (h : ConsumerRun arr c l d) :
    Consumer.Run xdmaDescMax c (l.map (fun p => p.2.mem.stamped)) d := by
  induction h with
  | nil c => exact Consumer.Run.nil c
  | @call c c' d call res rest hspec _ ih =>
    rw [List.map_cons, hspec.stamped]
    exact Consumer.Run.call hspec.le hspec.le_max ih

/-- The counts of such a run are those the reads of its calls lead to. -/
theorem ConsumerRun.call_inv {arr : Nat → MbufPtr} {c c' d : Nat} {call : RxCall}
    {res : RecvResult} {rest : List (RxCall × RecvResult)}
    (h : ConsumerRun arr c ((call, res) :: rest) d) (hfound : FoundCount c call.dev.reads c') :
    CallSpec arr c c' call res ∧ ConsumerRun arr (Consumer.next xdmaDescMax c') rest d := by
  cases h with
  | call hspec h =>
    obtain rfl := hfound.unique hspec.found
    exact ⟨hspec, h⟩

/-- **Step lemma.** A full-ring call is a step of the consumer. -/
theorem RxFull.callSpec {q : RxQueue} (h : RxFull q) (arr : Nat → MbufPtr) (call : RxCall)
    (hdev : DevValid q (call.mem arr) xdmaDescMax call.dev) :
    ∃ c', CallSpec arr q.eng.descUsed c' call
        (xdmaRecvPkts q.eng (call.mem arr) xdmaDescMax call.dev) ∧
      (q.recv (call.mem arr) xdmaDescMax call.dev).eng.descUsed
        = Consumer.next xdmaDescMax c' := by
  obtain ⟨v, hle, hv, -, hc⟩ := h.consumes hdev
  obtain ⟨hused, hstop⟩ := RxFull.used_recv hc
  obtain ⟨read, hread⟩ := rxEnter_mem q.eng (call.mem arr) xdmaDescMax
  -- The poll loop runs from the old count, which arming leaves where it was.
  have hcall := xdmaRecvPkts_eq q.eng (call.mem arr) xdmaDescMax call.dev
  have hc' := hc
  rw [hcall, h.enter_nbPkts] at hc'
  have hfound : FoundCount (q.enter (call.mem arr) xdmaDescMax).eng.descUsed call.dev.reads v :=
    hc'.found
  have hsample : (xdmaRecvPkts q.eng (call.mem arr) xdmaDescMax call.dev).sample
      = if v = (q.enter (call.mem arr) xdmaDescMax).eng.descUsed then none else some v := by
    rw [hcall]
    exact rxCollect_sample hfound
  rw [h.enter_used] at hfound hsample
  -- The 16-bit arguments of `prepare_packets` are the counts themselves.
  have hv' : v % 2 ^ 16 = v := by
    simp only [xdmaDescMax] at hv
    omega
  have hu' : q.eng.descUsed % 2 ^ 16 = q.eng.descUsed := by
    simp only [xdmaDescMax] at hv
    omega
  have hmem := hc.mem
  rw [h.enter_used, hv', hu', hread] at hmem
  have hother : ∀ p, (∀ i, q.eng.descUsed ≤ i → i < v → arr i ≠ p) →
      (xdmaRecvPkts q.eng (call.mem arr) xdmaDescMax call.dev).mem.heap p = call.heap p := by
    intro p hp
    rw [hmem, preparePackets_heap_of_notMem _ _ _ _ _ p hp]
    rfl
  refine ⟨v, ⟨hfound, hc.trusted, hsample, hle, hv, ?_, h.ret hle hv hc, ?_, ?_, hother, ?_,
    hstop⟩, hused⟩
  · rw [hmem, preparePackets_eq]
    exact List.nil_append _
  · rw [hmem, preparePackets_eq]
    rfl
  · intro hinj i hci hiv
    refine ⟨(q.enter (call.mem arr) xdmaDescMax).eng, ?_⟩
    rw [hmem]
    exact preparePackets_heap_of_mem _ _ _ _ _
      (fun i _ hi j _ hj => hinj i (by omega) j (by omega)) i hci hiv
  · -- A time-out trusts the consumed count itself.
    intro hnone
    have heq : v = q.eng.descUsed := (hc.timeout hnone).trans h.enter_used
    refine ⟨heq, ?_, ?_⟩
    · rw [h.ret hle hv hc, heq, Nat.sub_self]
    · funext p
      exact hother p (fun i hci hiv => absurd hiv (by omega))

/-- **Simulation.** Along every valid run the driver is a consumer. -/
theorem RxFull.consumerRun (arr : Nat → MbufPtr) (calls : List RxCall) (q : RxQueue)
    (h : RxFull q) (hvalid : ValidRun arr q calls) :
    ∃ d, ConsumerRun arr q.eng.descUsed (calls.zip (recvRun arr q calls)) d := by
  induction calls generalizing q with
  | nil => exact ⟨_, ConsumerRun.nil _⟩
  | cons call rest ih =>
    obtain ⟨hdev, hrest⟩ := hvalid
    obtain ⟨c', hspec, hnext⟩ := h.callSpec arr call hdev
    obtain ⟨d, hd⟩ := ih (q.recv (call.mem arr) xdmaDescMax call.dev) (h.recv hdev) hrest
    rw [hnext] at hd
    exact ⟨d, ConsumerRun.call hspec hd⟩

theorem length_recvRun (arr : Nat → MbufPtr) (calls : List RxCall) (q : RxQueue) :
    (recvRun arr q calls).length = calls.length := by
  induction calls generalizing q with
  | nil => rfl
  | cons call rest ih => rw [recvRun, List.length_cons, ih, List.length_cons]

/-- **Exactly once over any run.** Full-ring calls with one array, from a queue just set up,
    over any devices: the driver is a consumed-counter, and the slots it stamps are some full
    cycles and the first `d` slots of the present one, in order. -/
theorem recvRun_exactly_once (virt2phy : Addr → Addr) (channelId : BitVec 16) (a : SetupAlloc)
    (arr : Nat → MbufPtr) (calls : List RxCall)
    (hvalid : ValidRun arr (RxQueue.fresh virt2phy channelId a) calls) :
    let results := recvRun arr (RxQueue.fresh virt2phy channelId a) calls
    ∃ d k, ConsumerRun arr 0 (calls.zip results) d ∧ d < xdmaDescMax ∧
      results.flatMap (fun res => res.mem.stamped)
        = (List.replicate k (List.range xdmaDescMax)).flatten ++ List.range d := by
  intro results
  obtain ⟨d, hd⟩ := (rxFull_fresh virt2phy channelId a).consumerRun arr calls _ hvalid
  have hd' : ConsumerRun arr 0 _ d := hd
  obtain ⟨k, hk⟩ := hd'.toRun.flatten
  refine ⟨d, k, hd', hd'.toRun.lt (by decide) (by decide), ?_⟩
  have hzip : (calls.zip results).map Prod.snd = results :=
    List.map_snd_zip (Nat.le_of_eq (length_recvRun arr calls _))
  rw [List.range_zero, List.nil_append] at hk
  rw [List.flatMap_def, ← hk, ← hzip, List.map_map]
  rfl

/-- Four calls: the device completes five descriptors, then nothing, then the rest of the
    ring, and three of the next one. -/
def fourCalls : List RxCall :=
  [⟨plainMem.heap, RxDevice.const 5⟩, ⟨plainMem.heap, RxDevice.const 5⟩,
    ⟨plainMem.heap, RxDevice.const 32⟩, ⟨plainMem.heap, RxDevice.const 3⟩]

theorem validRun_fourCalls : ValidRun plainMem.arr freshRx fourCalls := by
  have hfull : RxFull freshRx := rxFull_fresh id 0 SetupAlloc.pages
  refine hfull.validRun_const (Nat.zero_le 5) (by decide) (fun q₁ h₁ hword₁ => ?_)
  refine h₁.validRun_const (Nat.le_of_eq hword₁) (by decide) (fun q₂ h₂ hword₂ => ?_)
  refine h₂.validRun_const ?_ (Nat.le_refl xdmaDescMax) (fun q₃ h₃ hword₃ => ?_)
  · exact (Nat.le_of_eq hword₂).trans (by decide)
  · refine h₃.validRun_const ?_ (by decide) (fun _ _ _ => trivial)
    exact (Nat.le_of_eq hword₃).trans (Nat.zero_le 3)

/-- One cycle and three slots of the next, with a time-out on the way. -/
theorem recvRun_fourCalls :
    let results := recvRun plainMem.arr freshRx fourCalls
    ConsumerRun plainMem.arr 0 (fourCalls.zip results) 3 ∧
      results.map (fun res => res.ret) = [5, 0, 27, 3] ∧
      results.flatMap (fun res => res.mem.stamped) = List.range xdmaDescMax ++ List.range 3 := by
  intro results
  obtain ⟨d, k, hrun, -, -⟩ :=
    recvRun_exactly_once id 0 SetupAlloc.pages plainMem.arr fourCalls validRun_fourCalls
  obtain ⟨h₁, hrun₁⟩ := hrun.call_inv (foundCount_const 0 5)
  obtain ⟨h₂, hrun₂⟩ := hrun₁.call_inv (foundCount_const 5 5)
  obtain ⟨h₃, hrun₃⟩ := hrun₂.call_inv (foundCount_const 5 32)
  obtain ⟨h₄, hrun₄⟩ := hrun₃.call_inv (foundCount_const 0 3)
  cases hrun₄
  refine ⟨hrun, ?_, ?_⟩
  · simp only [results, fourCalls, freshRx, recvRun, List.map_cons, List.map_nil]
    rw [h₁.ret, h₂.ret, h₃.ret, h₄.ret]
    rfl
  · simp only [results, fourCalls, freshRx, recvRun, List.flatMap_cons, List.flatMap_nil]
    rw [h₁.stamped, h₂.stamped, h₃.stamped, h₄.stamped]
    decide

end XdmaDpdk
