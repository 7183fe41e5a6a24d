import XdmaDpdk.RxChain
import XdmaDpdk.RxConsumer
import XdmaDpdk.TxSystem
import XdmaDpdk.Lib.PolledReads
import XdmaDpdk.Lib.WalkOutput

namespace XdmaDpdk

open StableRead ChainWalker

/-!
# XDMA driver — what a receive queue delivers

One C2H queue with the thread that calls `xdma_recv_pkts` for the whole ring and the channel
that walks the ring, taking steps in any order (`RxSysStep`): the device may step before every
read of the poll loop (`Polls`) and between the calls.  Nothing is supposed of its counts;
that they grow and stay within the ring is a consequence (`Round.polls`).

Two ghost lists go along: the bus addresses the device wrote a packet to, and the data
addresses of the mbufs handed to the caller.

* `Round` — a round in progress: the ring is one chain of reporting descriptors, and the
  device is on it;
* `RxSysInv` — between two calls the queue is idle with the device at rest, or in a round
  (`RxSysInv.step`);
* `RxSysInv.serve` — the device can report any further count of the round, and a call that
  finds it hands over the packets up to it;
* `rxDelivery` — in every interleaving the caller is handed the packets the device wrote,
  once, in order and never ahead of it, and when a round ends all of them.
-/

/-! ### The system -/

/-- A C2H channel: its device, the word it reports to, and the bus addresses it wrote to. -/
structure RxChannel where
  hw : Walker Nat XdmaDesc
  word : Nat
  filled : List Addr

/-- One device step over the ring of `e`. -/
inductive RxChannelStep (virt2phy : Addr → Addr) (e : XdmaEngine) : RxChannel → RxChannel → Prop
  | step (c : RxChannel) (hw' : Walker Nat XdmaDesc) (word' : Nat)
      (h : Step (txRules virt2phy e) e.descRing (c.hw, c.word) (hw', word')) :
      RxChannelStep virt2phy e c
        { hw := hw', word := word', filled := c.filled ++ (c.hw.handed hw').map XdmaDesc.dstAddr }

/-- What varies from call to call: the mbufs and the array as the application left them, the
    write-back records, and what the passes of the poll loop read. -/
structure LiveCall where
  heap : Heap
  arr : Nat → MbufPtr
  wb : Nat → XdmaC2hStreamWb
  passes : List (Nat × Nat)

def LiveCall.mem (call : LiveCall) : RxMem where
  heap := call.heap
  arr := call.arr
  touched := []
  stamped := []

/-- The queue, its channel, and the data addresses of the mbufs handed to the caller. -/
structure RxSys where
  queue : RxQueue
  chan : RxChannel
  handed : List Addr

namespace RxSys

/-- A queue just set up, and a device that was never started. -/
def init (virt2phy : Addr → Addr) (channelId : BitVec 16) (a : SetupAlloc) : RxSys where
  queue := RxQueue.fresh virt2phy channelId a
  chan := { hw := Walker.idle, word := 0, filled := [] }
  handed := []

/-- The device's side of a call. -/
def dev (s : RxSys) (call : LiveCall) : RxDevice where
  reads := held s.chan.word call.passes
  wb := call.wb

/-- The call itself. -/
def result (s : RxSys) (call : LiveCall) : RecvResult :=
  xdmaRecvPkts s.queue.eng call.mem xdmaDescMax (s.dev call)

/-- The engine its poll loop works on. -/
def polled (s : RxSys) (call : LiveCall) : XdmaEngine := (s.queue.enter call.mem xdmaDescMax).eng

/-- The channel as the poll loop finds it: arming an idle queue started it. -/
def begun (s : RxSys) : RxChannel :=
  if s.queue.eng.running then s.chan else { s.chan with hw := s.chan.hw.start }

/-- The state after a call whose poll loop left the channel as `c`; a stop clears `RUN` and
    the word. -/
def after (s : RxSys) (call : LiveCall) (c : RxChannel) : RxSys where
  queue := s.queue.recv call.mem xdmaDescMax (s.dev call)
  chan := if (s.result call).engine.running then c else { c with hw := c.hw.stop, word := 0 }
  handed := s.handed ++ (s.result call).mem.stamped.map
    (fun i => ((s.result call).mem.heap ((s.result call).mem.arr i)).dataIova)

/-- While a round goes on the application passes the mbufs the ring was armed with. -/
def Kept (s : RxSys) (call : LiveCall) : Prop :=
  s.queue.eng.running = true → ∀ i < xdmaDescMax,
    (call.heap (call.arr i)).dataIova = (s.queue.eng.descRing i).dstAddr

end RxSys

/-- One call, or one step of the device. -/
inductive RxSysStep (virt2phy : Addr → Addr) : RxSys → RxSys → Prop
  | call (s : RxSys) (call : LiveCall) (c : RxChannel) (hkept : s.Kept call)
      (hpolls : Polls (RxChannelStep virt2phy (s.polled call)) RxChannel.word s.begun
        call.passes c)
      (hlen : call.passes.length = (s.result call).lastPass + 1) :
      RxSysStep virt2phy s (s.after call c)
  | device (s : RxSys) (c : RxChannel) (h : RxChannelStep virt2phy s.queue.eng s.chan c) :
      RxSysStep virt2phy s { s with chan := c }

/-- The states reached from a queue just set up. -/
def RxSysReach (virt2phy : Addr → Addr) (channelId : BitVec 16) (a : SetupAlloc) (s : RxSys) :
    Prop :=
  Relation.ReflTransGen (RxSysStep virt2phy) (RxSys.init virt2phy channelId a) s

/-! ### A round in progress -/

/-- The first `n` descriptors' addresses. -/
def firstAddrs (ring : Nat → XdmaDesc) (n : Nat) : List Addr :=
  (List.range n).map (fun i => (ring i).dstAddr)

/-- Where the device is in a round that started when it had written to `before`: still to
    take up its start, or on the chain, with every completion reported. -/
structure Filling (ring : Nat → XdmaDesc) (before : List Addr) (c : RxChannel) : Prop where
  run : c.hw.run = true
  waiting : c.hw.kick = true → c.hw.phase = .halted ∧ c.word = 0 ∧ c.filled = before
  walking : c.hw.kick = false → OnChain ring (xdmaDescMax - 1) c.hw ∧ c.word = c.hw.count ∧
    c.filled = before ++ firstAddrs ring c.hw.count

/-- A round on the ring of `e`: the ring is one chain, and every descriptor reports. -/
structure Round (virt2phy : Addr → Addr) (e : XdmaEngine) (before : List Addr) (c : RxChannel) :
    Prop where
  chain : IsChain (txRules virt2phy e) e.descRing (xdmaDescMax - 1)
  report : ∀ i < xdmaDescMax, (e.descRing i).completed = true
  filling : Filling e.descRing before c

section
variable {virt2phy : Addr → Addr} {e : XdmaEngine} {ring : Nat → XdmaDesc} {before : List Addr}
  {c c' : RxChannel}

@[simp] theorem firstAddrs_zero : firstAddrs ring 0 = [] := rfl

theorem length_firstAddrs (ring : Nat → XdmaDesc) (n : Nat) : (firstAddrs ring n).length = n := by
  unfold firstAddrs
  rw [List.length_map, List.length_range]

/-- What was written is what the word says. -/
theorem Filling.filled_eq (h : Filling ring before c) :
    c.filled = before ++ firstAddrs ring c.word := by
  cases hk : c.hw.kick with
  | true =>
    obtain ⟨-, hword, hfilled⟩ := h.waiting hk
    rw [hword, firstAddrs_zero, List.append_nil, hfilled]
  | false =>
    obtain ⟨-, hword, hfilled⟩ := h.walking hk
    rw [hword, hfilled]

theorem Filling.word_le (h : Filling ring before c) : c.word ≤ xdmaDescMax := by
  cases hk : c.hw.kick with
  | true =>
    rw [(h.waiting hk).2.1]
    exact Nat.zero_le _
  | false =>
    obtain ⟨hon, hword, -⟩ := h.walking hk
    rw [hword]
    exact hon.count_le

/-- A device that reported the whole ring is at rest. -/
theorem Filling.rest (h : Filling ring before c) (hfull : c.word = xdmaDescMax) :
    c.hw.phase = .halted := by
  cases hk : c.hw.kick with
  | true => exact (h.waiting hk).1
  | false =>
    obtain ⟨hon, hword, -⟩ := h.walking hk
    exact hon.halted (hword.symm.trans hfull)

/-- **Step lemma.** A device step keeps the round, and does not lower the word. -/
theorem Round.step (h : Round virt2phy e before c) (hs : RxChannelStep virt2phy e c c') :
    Round virt2phy e before c' ∧ c.word ≤ c'.word := by
  cases hs with
  | step hw' word' hs =>
    have hrun : hw'.run = true := hs.run_eq.trans h.filling.run
    cases hk : c.hw.kick with
    | true =>
      obtain ⟨hphase, hword, hfilled⟩ := h.filling.waiting hk
      -- A device at rest can only take up its start.
      have hnew : hw' = { c.hw with kick := false, phase := .ready 0, count := 0, done := [] } ∧
          word' = c.word := by
        cases hs with
        | begin _ _ _ _ => exact ⟨rfl, rfl⟩
        | fetch _ _ _ _ hk' _ => exact absurd (hk.symm.trans hk') (by decide)
        | complete _ _ _ _ hp => exact absurd (hphase.symm.trans hp) (by simp)
      obtain ⟨rfl, rfl⟩ := hnew
      have hnone : c.hw.handed
          { c.hw with kick := false, phase := .ready 0, count := 0, done := [] } = [] := by
        apply Walker.handed_of_hand_eq
        simp [Walker.hand, hphase]
      refine ⟨⟨h.chain, h.report, hrun, fun hk' => absurd hk' Bool.false_ne_true, fun _ => ?_⟩,
        Nat.le_refl _⟩
      refine ⟨OnChain.of_begin h.chain c.hw, hword, ?_⟩
      rw [hnone, hfilled]
      rfl
    | false =>
      obtain ⟨hon, hword, hfilled⟩ := h.filling.walking hk
      obtain ⟨hon', hcases⟩ := hon.step h.chain hs
      have hout := hon.map_range_handed hs
      have hword' : word' = hw'.count := by
        rcases hcases with ⟨hc, hx⟩ | ⟨hle, hc, hx⟩
        · rw [hx, hc, hword]
        · have hrep : (e.descRing c.hw.count).completed = true :=
            h.report _ (Nat.lt_of_le_of_lt hle (by decide))
          rw [hx, hc]
          exact if_pos hrep
      refine ⟨⟨h.chain, h.report, hrun, fun hk' => ?_, fun _ => ⟨hon', hword', ?_⟩⟩, ?_⟩
      · exact absurd (hon'.kick.symm.trans hk') Bool.false_ne_true
      · -- The records put out are the next ones of the ring.
        have haddr := congrArg (List.map XdmaDesc.dstAddr) hout
        rw [List.map_append, List.map_map, List.map_map] at haddr
        show c.filled ++ (c.hw.handed hw').map XdmaDesc.dstAddr = _
        rw [hfilled, List.append_assoc]
        exact congrArg (before ++ ·) haddr
      · show c.word ≤ word'
        rw [hword, hword']
        rcases hcases with ⟨hc, -⟩ | ⟨-, hc, -⟩ <;> omega

/-- **Poll lemma.** A poll loop over a round sees a growing count within the ring. -/
theorem Round.polls {passes : List (Nat × Nat)} (h : Round virt2phy e before c)
    (hp : Polls (RxChannelStep virt2phy e) RxChannel.word c passes c') :
    Round virt2phy e before c' ∧ c.word ≤ c'.word ∧
      Growing c.word xdmaDescMax (held c.word passes) :=
  hp.growing (fun _ _ hr hs => hr.step hs) (fun _ hr => hr.filling.word_le) h

/-- A step over a ring is one over the same ring of any engine. -/
theorem RxChannelStep.of_frame (hs : RxChannelStep virt2phy e c c') {e' : XdmaEngine}
    (hf : Frame e e') (hring : e'.descRing = e.descRing) : RxChannelStep virt2phy e' c c' := by
  have hrules : txRules virt2phy e' = txRules virt2phy e := by
    simp only [txRules, busIndex_frame hf]
  cases hs with
  | step hw' word' hs =>
    apply RxChannelStep.step
    rw [hrules, hring]
    exact hs

/-- A device at rest takes no step. -/
theorem RxChannelStep.not_of_halted (hk : c.hw.kick = false) (hp : c.hw.phase = .halted) :
    ¬ RxChannelStep virt2phy e c c' := by
  intro hs
  cases hs with
  | step hw' word' hs => exact Step.not_of_halted hk hp hs

/-- A round is on any engine with the same ring. -/
theorem Round.of_frame (h : Round virt2phy e before c) {e' : XdmaEngine} (hf : Frame e e')
    (hring : e'.descRing = e.descRing) : Round virt2phy e' before c := by
  have hrules : txRules virt2phy e' = txRules virt2phy e := by
    simp only [txRules, busIndex_frame hf]
  refine ⟨?_, ?_, ?_⟩
  · rw [hrules, hring]
    exact h.chain
  · rw [hring]
    exact h.report
  · rw [hring]
    exact h.filling

end

/-! ### Entering the poll loop -/

@[simp] theorem completed_fillC2hDesc (a : Addr) (mb : RteMbuf) (d : XdmaDesc) :
    (fillC2hDesc a mb d).completed = true := by
  simp [fillC2hDesc, xdmaDescCompleted]

/-- A ring with its links, marked at its end only, is one chain. -/
theorem isChain_c2h {virt2phy : Addr → Addr} {e : XdmaEngine} (hlinks : LinksIntact virt2phy e)
    (hmap : MapsRing virt2phy e) (hmax : e.descMax = xdmaDescMax)
    (hstop : ∀ i < e.descMax, (e.descRing i).stopped = decide (i + 1 = e.descMax)) :
    IsChain (txRules virt2phy e) e.descRing (xdmaDescMax - 1) where
  first := rfl
  run i hi := by
    rw [← hmax] at hi
    constructor
    · show (e.descRing i).stopped = false
      rw [hstop i (by omega)]
      exact decide_eq_false (by omega)
    · show busIndex virt2phy e (e.descRing i).nextAddr = some (i + 1)
      rw [hlinks i (by omega), if_neg (by omega)]
      exact busIndex_descAddr hmap (i + 1) (by omega)
  last := by
    show (e.descRing (xdmaDescMax - 1)).stopped = true
    rw [hstop _ (by rw [hmax]; decide), hmax]
    decide

section
variable {virt2phy : Addr → Addr} {channelId : BitVec 16} {a : SetupAlloc} {q : RxQueue} {m : RxMem}

/-- Arming posts every descriptor for the mbuf at its index. -/
theorem RxFull.enter_desc (h : RxFull q) (hrun : q.eng.running = false) (i : Nat)
    (hi : i < xdmaDescMax) :
    (q.enter m xdmaDescMax).eng.descRing i
      = fillC2hDesc q.eng.streamWbAddr (m.heap (m.arr i)) (q.eng.descRing i) := by
  have hlt : i < min xdmaDescMax q.eng.clearStatus.descMax := by
    show i < min xdmaDescMax q.eng.descMax
    rw [h.inv.descMax, Nat.min_self]
    exact hi
  rw [RxQueue.enter_eng_of_idle hrun]
  exact rxArm_desc q.eng.clearStatus m xdmaDescMax (h.inv.ring hrun).used h.inv.descMax_pos i hlt

/-- Arming starts a round, on a device at rest. -/
theorem RxReach.round (h : RxReach virt2phy channelId a (fun n => n = xdmaDescMax) q)
    (hmap : MapsRing virt2phy q.eng) (hrun : q.eng.running = false) {c : RxChannel}
    (hphase : c.hw.phase = .halted) (hword : c.word = 0) :
    Round virt2phy (q.enter m xdmaDescMax).eng c.filled { c with hw := c.hw.start } := by
  have hframe : Frame q.eng (q.enter m xdmaDescMax).eng := frame_rxEnter q.eng m xdmaDescMax
  have hfull := h.isFull
  refine ⟨isChain_c2h (h.engine.1.inv.links.of_frame hframe) (hmap.of_frame hframe)
    hfull.inv.enter_descMax ?_, ?_, rfl, fun _ => ⟨hphase, hword, rfl⟩, ?_⟩
  · -- Posting a descriptor leaves its mark alone.
    intro i hi
    rw [hframe.descMax] at hi ⊢
    rw [hfull.enter_desc hrun i (by rw [← hfull.inv.descMax]; exact hi), stopped_fillC2hDesc]
    exact h.engine.1.stopped_c2h h.engine.2 i hi
  · intro i hi
    rw [hfull.enter_desc hrun i hi, completed_fillC2hDesc]
  · intro hk
    exact absurd hk (by simp [Walker.start])

end

/-! ### The system invariant -/

/-- A round in progress of which the caller was handed the first `used` packets. -/
structure InRound (virt2phy : Addr → Addr) (e : XdmaEngine) (c : RxChannel) (used : Nat)
    (handed before : List Addr) : Prop where
  round : Round virt2phy e before c
  handed : handed = before ++ firstAddrs e.descRing used
  lt : used < xdmaDescMax
  whole : before.length % xdmaDescMax = 0

/-- Between rounds: the device is at rest, and everything it wrote was handed over. -/
structure AtRest (s : RxSys) : Prop where
  run : s.chan.hw.run = false
  kick : s.chan.hw.kick = false
  phase : s.chan.hw.phase = .halted
  word : s.chan.word = 0
  handed : s.handed = s.chan.filled
  whole : s.chan.filled.length % xdmaDescMax = 0

/-- What holds in every reachable state. -/
structure RxSysInv (virt2phy : Addr → Addr) (channelId : BitVec 16) (a : SetupAlloc) (s : RxSys) :
    Prop where
  reach : RxReach virt2phy channelId a (fun n => n = xdmaDescMax) s.queue
  mapsRing : MapsRing virt2phy s.queue.eng
  seen : s.queue.eng.completedDescCount ≤ s.chan.word
  idle : s.queue.eng.running = false → AtRest s
  armed : s.queue.eng.running = true →
    ∃ before, InRound virt2phy s.queue.eng s.chan s.queue.eng.descUsed s.handed before

/-- The poll loop of a call, as it is entered: a round, on the mbufs of the call. -/
structure Entered (virt2phy : Addr → Addr) (s : RxSys) (call : LiveCall) (before : List Addr) :
    Prop where
  round : InRound virt2phy (s.polled call) s.begun s.queue.eng.descUsed s.handed before
  dst : ∀ i < xdmaDescMax,
    ((s.polled call).descRing i).dstAddr = (call.heap (call.arr i)).dataIova

section
variable {virt2phy : Addr → Addr} {channelId : BitVec 16} {a : SetupAlloc} {s s' : RxSys}
  {call : LiveCall} {c : RxChannel} {before : List Addr}

@[simp] theorem RxSys.begun_word (s : RxSys) : s.begun.word = s.chan.word := by
  unfold RxSys.begun
  split <;> rfl

theorem RxSysInv.enter (h : RxSysInv virt2phy channelId a s) (hkept : s.Kept call) :
    ∃ before, Entered virt2phy s call before := by
  cases hrun : s.queue.eng.running with
  | true =>
    -- The round goes on, on the mbufs it was armed with.
    obtain ⟨before, hround, hhanded, hlt, hwhole⟩ := h.armed hrun
    have hpolled : s.polled call = s.queue.eng.clearStatus := by
      unfold RxSys.polled
      rw [RxQueue.enter_of_running hrun]
    have hbegun : s.begun = s.chan := if_pos hrun
    refine ⟨before, ⟨?_, ?_, hlt, hwhole⟩, ?_⟩
    · rw [hpolled, hbegun]
      exact hround.of_frame ⟨rfl, fun _ => rfl⟩ rfl
    · rw [hpolled]
      exact hhanded
    · rw [hpolled]
      exact fun i hi => (hkept hrun i hi).symm
  | false =>
    have hrest := h.idle hrun
    have hfull := h.reach.isFull
    have hbegun : s.begun = { s.chan with hw := s.chan.hw.start } := by
      unfold RxSys.begun
      rw [hrun]
      rfl
    refine ⟨s.chan.filled, ⟨?_, ?_, ?_, hrest.whole⟩, ?_⟩
    · rw [hbegun]
      exact h.reach.round h.mapsRing hrun hrest.phase hrest.word
    · rw [hrest.handed, (hfull.inv.ring hrun).used, firstAddrs_zero, List.append_nil]
    · rw [(hfull.inv.ring hrun).used]
      decide
    · intro i hi
      have hdesc := hfull.enter_desc (m := call.mem) hrun i hi
      show ((s.queue.enter call.mem xdmaDescMax).eng.descRing i).dstAddr = _
      rw [hdesc, dstAddr_fillC2hDesc]
      rfl

/-- **The device's counts are possible ones**: what a call supposes of them holds of the reads
    of its own poll loop. -/
theorem Entered.devValid (h : Entered virt2phy s call before)
    (hinv : RxSysInv virt2phy channelId a s)
    (hpolls : Polls (RxChannelStep virt2phy (s.polled call)) RxChannel.word s.begun
      call.passes c) : DevValid s.queue call.mem xdmaDescMax (s.dev call) := by
  obtain ⟨-, -, hgrow⟩ := h.round.round.polls hpolls
  unfold DevValid
  rw [hinv.reach.isFull.enter_posted]
  rw [RxSys.begun_word] at hgrow
  exact ⟨hinv.seen.trans hgrow.start, hgrow.within, hgrow.across, hgrow.bound⟩

/-- A full-ring call consumes no more than its last read, and leaves no more in the word. -/
theorem RxFull.callSpec_le {q : RxQueue} (h : RxFull q) (arr : Nat → MbufPtr) (call : RxCall)
    (hdev : DevValid q (call.mem arr) xdmaDescMax call.dev) :
    ∃ c', CallSpec arr q.eng.descUsed c' call
        (xdmaRecvPkts q.eng (call.mem arr) xdmaDescMax call.dev) ∧
      (q.recv (call.mem arr) xdmaDescMax call.dev).eng.descUsed
        = Consumer.next xdmaDescMax c' ∧
      c' ≤ (call.dev.reads
        (xdmaRecvPkts q.eng (call.mem arr) xdmaDescMax call.dev).lastPass).2 ∧
      (q.recv (call.mem arr) xdmaDescMax call.dev).eng.completedDescCount
        ≤ (call.dev.reads
          (xdmaRecvPkts q.eng (call.mem arr) xdmaDescMax call.dev).lastPass).2 := by
  obtain ⟨c', hspec, hnext⟩ := h.callSpec arr call hdev
  obtain ⟨v, -, -, hread, hc⟩ := h.consumes hdev
  obtain ⟨hused, hstop⟩ := RxFull.used_recv hc
  -- The count the call trusted is the one it consumed to.
  have hiff : v = xdmaDescMax ↔ c' = xdmaDescMax := hstop.symm.trans hspec.stops
  have heq : c' = v := by
    have hvals := hused.symm.trans hnext
    unfold Consumer.next at hvals
    split at hvals <;> split at hvals <;> omega
  refine ⟨c', hspec, hnext, heq ▸ hread, ?_⟩
  obtain ⟨status, heng⟩ := hc.engine
  have heng' : (q.recv (call.mem arr) xdmaDescMax call.dev).eng = _ := heng
  rw [heng']
  split
  · exact Nat.zero_le _
  · exact Nat.le_refl _

/-- The slots consumed next, added to those consumed before. -/
theorem firstAddrs_append {ring : Nat → XdmaDesc} {u v : Nat} (h : u ≤ v) :
    firstAddrs ring u ++ (List.range' u (v - u)).map (fun i => (ring i).dstAddr)
      = firstAddrs ring v := by
  unfold firstAddrs
  rw [← List.map_append, Consumer.range_append_range' h]

/-- **Call lemma.** A call hands over the packets of the round up to the count `c'` it trusts,
    which the device had reported. -/
theorem Entered.consumes (h : Entered virt2phy s call before)
    (hinv : RxSysInv virt2phy channelId a s)
    (hpolls : Polls (RxChannelStep virt2phy (s.polled call)) RxChannel.word s.begun
      call.passes c)
    (hlen : call.passes.length = (s.result call).lastPass + 1) :
    ∃ c', lastStable (s.dev call).reads (s.result call).lastPass = some c' ∧ c' ≤ c.word ∧
      c' ≤ xdmaDescMax ∧ (s.result call).engine.descUsed = Consumer.next xdmaDescMax c' ∧
      ((s.result call).engine.running = false ↔ c' = xdmaDescMax) ∧
      (s.result call).engine.completedDescCount ≤ c.word ∧
      (s.after call c).handed = before ++ firstAddrs (s.polled call).descRing c' := by
  obtain ⟨c', hspec, hnext, hle, hword⟩ :=
    hinv.reach.isFull.callSpec_le call.arr ⟨call.heap, s.dev call⟩ (h.devValid hinv hpolls)
  -- The last read is what the device left in the word.
  have hlast : ((s.dev call).reads (s.result call).lastPass).2 = c.word :=
    hpolls.last hlen s.chan.word
  refine ⟨c', hspec.trusted, hle.trans (Nat.le_of_eq hlast), hspec.le_max, hnext, hspec.stops,
    hword.trans (Nat.le_of_eq hlast), ?_⟩
  have hstamped : (s.result call).mem.stamped
      = List.range' s.queue.eng.descUsed (c' - s.queue.eng.descUsed) := hspec.stamped
  have harr : (s.result call).mem.arr = call.arr := hspec.array
  have haddrs : (s.result call).mem.stamped.map
        (fun i => ((s.result call).mem.heap ((s.result call).mem.arr i)).dataIova)
      = (List.range' s.queue.eng.descUsed (c' - s.queue.eng.descUsed)).map
        (fun i => ((s.polled call).descRing i).dstAddr) := by
    rw [hstamped]
    apply List.map_congr_left
    intro i hi
    rw [List.mem_range'_1] at hi
    have hmax := hspec.le_max
    show ((s.result call).mem.heap ((s.result call).mem.arr i)).dataIova = _
    rw [harr, h.dst i (by omega)]
    exact dataIova_xdmaRecvPkts _ _ _ _ _
  show s.handed ++ _ = _
  rw [haddrs, h.round.handed, List.append_assoc, firstAddrs_append hspec.le]

/-- The poll loop and what follows keep the frame of the engine. -/
theorem RxSys.frame_after (s : RxSys) (call : LiveCall) (c : RxChannel) :
    Frame (s.polled call) (s.after call c).queue.eng := by
  have hcollect := frame_rxCollect (s.polled call) (rxEnter s.queue.eng call.mem xdmaDescMax).2.2
    (rxEnter s.queue.eng call.mem xdmaDescMax).1 (s.dev call)
  unfold RxSys.after RxQueue.recv
  rw [xdmaRecvPkts_eq]
  exact hcollect

/-- A call keeps the invariant. -/
theorem RxSysInv.after (h : RxSysInv virt2phy channelId a s) (hkept : s.Kept call)
    (hpolls : Polls (RxChannelStep virt2phy (s.polled call)) RxChannel.word s.begun
      call.passes c)
    (hlen : call.passes.length = (s.result call).lastPass + 1) :
    RxSysInv virt2phy channelId a (s.after call c) := by
  obtain ⟨before, hent⟩ := h.enter hkept
  obtain ⟨c', -, hle, hmaxc, hused, hstops, hword, hhanded⟩ := hent.consumes h hpolls hlen
  obtain ⟨hround, -, -⟩ := hent.round.round.polls hpolls
  have hdev := hent.devValid h hpolls
  have hreach : RxReach virt2phy channelId a (fun n => n = xdmaDescMax) (s.after call c).queue :=
    RxReach.recv call.mem xdmaDescMax (s.dev call) h.reach rfl hdev
  have hmap := h.mapsRing.of_frame
    (frame_xdmaRecvPkts s.queue.eng call.mem xdmaDescMax (s.dev call))
  cases hrun : (s.result call).engine.running with
  | true =>
    -- The round goes on.
    have hchan : (s.after call c).chan = c := if_pos hrun
    have hne : c' ≠ xdmaDescMax := fun hc => absurd (hrun.symm.trans (hstops.mpr hc)) (by decide)
    have hnext : (s.after call c).queue.eng.descUsed = c' := hused.trans (if_neg hne)
    have hring : (s.after call c).queue.eng.descRing = (s.polled call).descRing :=
      descRing_recv_of_running _ _ _ _ hrun
    have hframe := s.frame_after call c
    refine ⟨hreach, hmap, by rw [hchan]; exact hword, fun hoff => ?_, fun _ => ⟨before, ?_, ?_, ?_,
      hent.round.whole⟩⟩
    · exact absurd (hrun.symm.trans hoff) (by decide)
    · rw [hchan]
      exact hround.of_frame hframe hring
    · rw [hnext, hring]
      exact hhanded
    · rw [hnext]
      exact Nat.lt_of_le_of_ne hmaxc hne
  | false =>
    -- The round is complete: the device reported it all, and all of it was handed over.
    have hc : c' = xdmaDescMax := hstops.mp hrun
    have hfull : c.word = xdmaDescMax := Nat.le_antisymm hround.filling.word_le (hc ▸ hle)
    have hchan : (s.after call c).chan = { c with hw := c.hw.stop, word := 0 } :=
      if_neg (ne_true_of_eq_false hrun)
    have hfilled := hround.filling.filled_eq
    rw [hfull] at hfilled
    refine ⟨hreach, hmap, ?_, fun _ => ?_, fun hon => absurd (hrun.symm.trans hon) (by decide)⟩
    · rw [hreach.inv.idle hrun]
      exact Nat.zero_le _
    · refine ⟨?_, ?_, ?_, ?_, ?_, ?_⟩
      · rw [hchan]
        rfl
      · rw [hchan]
        rfl
      · rw [hchan]
        exact hround.filling.rest hfull
      · rw [hchan]
      · rw [hchan, hhanded, hc]
        exact hfilled.symm
      · rw [hchan]
        show c.filled.length % xdmaDescMax = 0
        rw [hfilled, List.length_append, Nat.add_mod, hent.round.whole]
        simp [firstAddrs]

/-- **Step lemma.** -/
theorem RxSysInv.step (h : RxSysInv virt2phy channelId a s) (hs : RxSysStep virt2phy s s') :
    RxSysInv virt2phy channelId a s' := by
  cases hs with
  | call call c hkept hpolls hlen => exact h.after hkept hpolls hlen
  | device c hs =>
    cases hrun : s.queue.eng.running with
    | true =>
      obtain ⟨before, hround, hhanded, hlt, hwhole⟩ := h.armed hrun
      obtain ⟨hround', hle⟩ := hround.step hs
      exact ⟨h.reach, h.mapsRing, h.seen.trans hle,
        fun hoff => absurd (hrun.symm.trans hoff) (by decide),
        fun _ => ⟨before, hround', hhanded, hlt, hwhole⟩⟩
    | false =>
      -- A device at rest takes no step.
      have hrest := h.idle hrun
      exact absurd hs (RxChannelStep.not_of_halted hrest.kick hrest.phase)

/-- The device may take any steps of its own. -/
theorem RxSysInv.channel (h : RxSysInv virt2phy channelId a s) {c : RxChannel}
    (hs : Relation.ReflTransGen (RxChannelStep virt2phy s.queue.eng) s.chan c) :
    RxSysInv virt2phy channelId a { s with chan := c } := by
  induction hs with
  | refl => exact h
  | tail _ hstep ih => exact ih.step (RxSysStep.device _ _ hstep)

/-- The device may go on between the last read of a call and its return. -/
theorem RxSysInv.after_reach (h : RxSysInv virt2phy channelId a s) (hkept : s.Kept call)
    (hpolls : Polls (RxChannelStep virt2phy (s.polled call)) RxChannel.word s.begun
      call.passes c)
    (hlen : call.passes.length = (s.result call).lastPass + 1) {c' : RxChannel}
    (hs : Relation.ReflTransGen (RxChannelStep virt2phy (s.polled call)) c c') :
    RxSysInv virt2phy channelId a (s.after call c') := by
  have hafter := h.after hkept hpolls hlen
  cases hrun : (s.result call).engine.running with
  | true =>
    -- The round goes on, and these are steps of it.
    have hring : (s.after call c).queue.eng.descRing = (s.polled call).descRing :=
      descRing_recv_of_running _ _ _ _ hrun
    have hchan : (s.after call c).chan = c := if_pos hrun
    have hs' : Relation.ReflTransGen (RxChannelStep virt2phy (s.after call c).queue.eng)
        (s.after call c).chan c' := by
      rw [hchan]
      apply Relation.ReflTransGen.mono ?_ _ _ hs
      exact fun _ _ hstep => hstep.of_frame (s.frame_after call c) hring
    have heq : { s.after call c with chan := c' } = s.after call c' := by
      simp only [RxSys.after, hrun, if_true]
    rw [← heq]
    exact hafter.channel hs'
  | false =>
    -- The round was complete at the last read.
    obtain ⟨before, hent⟩ := h.enter hkept
    obtain ⟨c₁, -, hle, -, -, hstops, -, -⟩ := hent.consumes h hpolls hlen
    obtain ⟨hround, -, -⟩ := hent.round.round.polls hpolls
    have hfull : c.word = xdmaDescMax :=
      Nat.le_antisymm hround.filling.word_le (hstops.mp hrun ▸ hle)
    have hkick : c.hw.kick = false := by
      rw [← Bool.not_eq_true]
      intro hk
      exact absurd (hfull.symm.trans (hround.filling.waiting hk).2.1) (by decide)
    rcases Relation.ReflTransGen.cases_head hs with rfl | ⟨c₂, hstep, -⟩
    · exact hafter
    · exact absurd hstep (RxChannelStep.not_of_halted hkick (hround.filling.rest hfull))

/-- **Run lemma.** -/
theorem RxSysReach.inv (hmap : MapsRing virt2phy (xdmaRxEngineSetup virt2phy channelId a))
    (h : RxSysReach virt2phy channelId a s) : RxSysInv virt2phy channelId a s := by
  induction h with
  | refl =>
    exact ⟨RxReach.setup, hmap, Nat.le_refl 0, fun _ => ⟨rfl, rfl, rfl, rfl, rfl, rfl⟩,
      fun hon => absurd hon Bool.false_ne_true⟩
  | tail _ hs ih => exact ih.step hs

end

/-! ### Calls that find a count -/

section
variable {virt2phy : Addr → Addr} {e : XdmaEngine} {before : List Addr} {c c' : RxChannel}

/-- Steps of the device, with what they write. -/
theorem channel_reach {p p' : Walker Nat XdmaDesc × Nat}
    (h : Relation.ReflTransGen (Step (txRules virt2phy e) e.descRing) p p')
    (filled : List Addr) :
    ∃ filled', Relation.ReflTransGen (RxChannelStep virt2phy e)
      { hw := p.1, word := p.2, filled := filled }
      { hw := p'.1, word := p'.2, filled := filled' } := by
  induction h with
  | refl => exact ⟨filled, Relation.ReflTransGen.refl⟩
  | @tail q r _ hs ih =>
    obtain ⟨filled', hreach⟩ := ih
    exact ⟨_, hreach.tail
      (RxChannelStep.step { hw := q.1, word := q.2, filled := filled' } r.1 r.2 hs)⟩

/-- A round stays one whatever the device does. -/
theorem Round.reach (h : Round virt2phy e before c)
    (hs : Relation.ReflTransGen (RxChannelStep virt2phy e) c c') : Round virt2phy e before c' := by
  have hstep : ∀ c c', Round virt2phy e before c → RxChannelStep virt2phy e c c' →
      Round virt2phy e before c' ∧ c.word ≤ c'.word := fun _ _ hr hs => hr.step hs
  exact (invariant_reach hstep hs h).1

/-- The device can take up the start of a round, and reports nothing by it. -/
theorem Round.take_up (h : Round virt2phy e before c) :
    ∃ c', Relation.ReflTransGen (RxChannelStep virt2phy e) c c' ∧ c'.hw.kick = false ∧
      c'.word = c.word := by
  cases hk : c.hw.kick with
  | true =>
    obtain ⟨w', x', hs, hon, -, hcount⟩ := OnChain.of_start h.chain hk c.word
    obtain ⟨filled', hreach⟩ := channel_reach hs c.filled
    refine ⟨_, hreach, hon.kick, ?_⟩
    have hword' := ((h.reach hreach).filling.walking hon.kick).2.1
    rw [hword', (h.filling.waiting hk).2.1]
    exact hcount
  | false => exact ⟨c, Relation.ReflTransGen.refl, hk, rfl⟩

/-- Once it has, it can report one record more. -/
theorem Round.advance (h : Round virt2phy e before c) (hk : c.hw.kick = false)
    (hlt : c.word < xdmaDescMax) :
    ∃ c', Relation.ReflTransGen (RxChannelStep virt2phy e) c c' ∧ c'.hw.kick = false ∧
      c'.word = c.word + 1 := by
  obtain ⟨hon, hword, -⟩ := h.filling.walking hk
  have hle : c.hw.count ≤ xdmaDescMax - 1 := by omega
  obtain ⟨w', hs, hon', -, hcount⟩ := hon.advance h.chain h.filling.run hle c.word
  obtain ⟨filled', hreach⟩ := channel_reach hs c.filled
  refine ⟨_, hreach, hon'.kick, ?_⟩
  -- In a round the word is the count.
  have hword' := ((h.reach hreach).filling.walking hon'.kick).2.1
  show _ = c.word + 1
  rw [hword', hword, hcount]

/-- The device can report every count from its present one to the whole ring. -/
theorem Round.fill (h : Round virt2phy e before c) {v : Nat} (hle : c.word ≤ v)
    (hv : v ≤ xdmaDescMax) :
    ∃ c', Relation.ReflTransGen (RxChannelStep virt2phy e) c c' ∧ c'.word = v := by
  obtain ⟨c₁, hs₁, hk₁, hw₁⟩ := h.take_up
  have hround₁ := h.reach hs₁
  have hfrom : ∀ n, c.word + n ≤ v → ∃ c',
      Relation.ReflTransGen (RxChannelStep virt2phy e) c₁ c' ∧ c'.hw.kick = false ∧
        c'.word = c.word + n := by
    intro n
    induction n with
    | zero => exact fun _ => ⟨c₁, Relation.ReflTransGen.refl, hk₁, hw₁⟩
    | succ n ih =>
      intro hn
      obtain ⟨c₂, hs₂, hk₂, hw₂⟩ := ih (by omega)
      obtain ⟨c₃, hs₃, hk₃, hw₃⟩ := (hround₁.reach hs₂).advance hk₂ (by omega)
      exact ⟨c₃, hs₂.trans hs₃, hk₃, by omega⟩
  obtain ⟨c', hs', -, hw'⟩ := hfrom (v - c.word) (by omega)
  exact ⟨c', hs₁.trans hs', by omega⟩

end

/-- A poll that starts on a count not consumed yet ends with it. -/
theorem rxPoll_of_hit {descUsed v : Nat} {reads : Nat → Nat × Nat} (hread : reads 0 = (v, v))
    (hne : v ≠ descUsed) (left : Nat) : rxPoll descUsed reads left 0 = (some v, 0) := by
  have hhit : rxHit descUsed (reads 0) = true := by
    rw [hread]
    exact rxHit_iff.mpr ⟨rfl, hne⟩
  cases left with
  | zero => rw [rxPoll, if_pos hhit, hread]
  | succ left => rw [rxPoll, if_pos hhit, hread]

/-- A call with the mbufs the ring holds, whose first pass finds the count `v`. -/
def RxSys.callAt (s : RxSys) (v : Nat) : LiveCall where
  heap := fun p => { plainMbuf with bufIova := (s.queue.eng.descRing p).dstAddr, dataOff := 0 }
  arr := id
  wb := fun _ => ⟨0, 64⟩
  passes := [(v, v)]

/-- What a call that found the count `v` leaves: the packets up to `v` are handed over, and at
    the whole ring the engine is stopped. -/
structure RxServed (s s' : RxSys) (v : Nat) : Prop where
  stops : s'.queue.eng.running = false ↔ v = xdmaDescMax
  used : s'.queue.eng.descUsed = Consumer.next xdmaDescMax v
  word : s'.chan.word = Consumer.next xdmaDescMax v
  length : s'.handed.length + s.queue.eng.descUsed = s.handed.length + v

section
variable {virt2phy : Addr → Addr} {channelId : BitVec 16} {a : SetupAlloc} {s : RxSys}
  {call : LiveCall} {v : Nat} {c : RxChannel} {before : List Addr}

theorem RxSys.kept_callAt (s : RxSys) (v : Nat) : s.Kept (s.callAt v) := by
  intro _ i _
  simp [RxSys.callAt, RteMbuf.dataIova]

theorem RxSys.reads_zero (s : RxSys) {call : LiveCall} (hpasses : call.passes = [(v, v)]) :
    (s.dev call).reads 0 = (v, v) := by
  show held s.chan.word call.passes 0 = (v, v)
  rw [hpasses]
  rfl

/-- A stop clears the word. -/
theorem RxSys.word_after (s : RxSys) (call : LiveCall)
    (hstops : (s.result call).engine.running = false ↔ v = xdmaDescMax) (hc : c.word = v) :
    (s.after call c).chan.word = Consumer.next xdmaDescMax v := by
  unfold RxSys.after Consumer.next
  cases hrun : (s.result call).engine.running with
  | true =>
    have hne : v ≠ xdmaDescMax :=
      fun hfull => absurd (hrun.symm.trans (hstops.mpr hfull)) (by decide)
    rw [if_neg hne]
    exact hc
  | false =>
    rw [if_pos (hstops.mp hrun)]
    rfl

/-- A call whose first pass finds a count not consumed yet makes no other. -/
theorem RxSysInv.lastPass_of_found (h : RxSysInv virt2phy channelId a s) (call : LiveCall)
    (hpasses : call.passes = [(v, v)]) (hused : s.queue.eng.descUsed < v) :
    (s.result call).lastPass = 0 := by
  have hne : v ≠ (s.polled call).descUsed := by
    have heq : (s.polled call).descUsed = s.queue.eng.descUsed := h.reach.isFull.enter_used
    rw [heq]
    exact Nat.ne_of_gt hused
  unfold RxSys.result
  rw [xdmaRecvPkts_eq]
  show (rxCollect (s.polled call) _ _ _).lastPass = 0
  simp only [rxCollect, rxPoll_of_hit (s.reads_zero hpasses) hne]

/-- The device can have reported `v` when the first pass of a call reads the word. -/
theorem Entered.polls_fill (h : Entered virt2phy s call before) (hpasses : call.passes = [(v, v)])
    (hword : s.chan.word ≤ v) (hv : v ≤ xdmaDescMax) :
    ∃ c, Polls (RxChannelStep virt2phy (s.polled call)) RxChannel.word s.begun call.passes c ∧
      c.word = v := by
  obtain ⟨c, hs, hc⟩ := h.round.round.fill (by rwa [s.begun_word]) hv
  have hpass : Polls (RxChannelStep virt2phy (s.polled call)) RxChannel.word s.begun
      [(c.word, c.word)] c := Polls.pass hs Relation.ReflTransGen.refl (Polls.nil c)
  refine ⟨c, ?_, hc⟩
  rwa [hc, ← hpasses] at hpass

/-- **Progress of one call.** From every reachable state the device can report any further
    count `v` of the round, and a call that finds it hands over the packets up to it. -/
theorem RxSysInv.serve (h : RxSysInv virt2phy channelId a s) (hused : s.queue.eng.descUsed < v)
    (hword : s.chan.word ≤ v) (hv : v ≤ xdmaDescMax) :
    ∃ s', RxSysStep virt2phy s s' ∧ RxServed s s' v := by
  obtain ⟨before, hent⟩ := h.enter (s.kept_callAt v)
  obtain ⟨c, hpolls, hc⟩ := hent.polls_fill rfl hword hv
  have hpass := h.lastPass_of_found (s.callAt v) rfl hused
  have hlen : (s.callAt v).passes.length = (s.result (s.callAt v)).lastPass + 1 := by
    rw [hpass]
    rfl
  obtain ⟨c', htrusted, -, -, hnext, hstops, -, hhanded⟩ := hent.consumes h hpolls hlen
  -- The count it trusts is the one its first pass found.
  rw [hpass, lastStable_of_stable (s.reads_zero rfl)] at htrusted
  obtain rfl := Option.some.inj htrusted
  refine ⟨_, RxSysStep.call s (s.callAt v) c (s.kept_callAt v) hpolls hlen, hstops, hnext,
    s.word_after (s.callAt v) hstops hc, ?_⟩
  rw [hhanded, hent.round.handed, List.length_append, List.length_append, length_firstAddrs,
    length_firstAddrs]
  omega

end

/-! ### Delivery -/

/-- What a run has delivered: the queue is one that valid calls lead to; the packets handed
    over are the first ones the device wrote, with the rest still to be consumed; the
    consumed count is their number, round by round; and between rounds nothing is left, in
    the ring or in the device's hand. -/
structure Delivered (virt2phy : Addr → Addr) (channelId : BitVec 16) (a : SetupAlloc) (s : RxSys) :
    Prop where
  queue : RxReach virt2phy channelId a (fun n => n = xdmaDescMax) s.queue
  order : s.handed <+: s.chan.filled
  ahead : s.chan.filled.length + s.queue.eng.descUsed = s.handed.length + s.chan.word
  position : s.handed.length % xdmaDescMax = s.queue.eng.descUsed
  rest : s.queue.eng.running = false →
    s.handed = s.chan.filled ∧ s.chan.hw.phase = .halted ∧ s.chan.hw.kick = false

section
variable {virt2phy : Addr → Addr} {channelId : BitVec 16} {a : SetupAlloc} {s : RxSys}

/-- The caller is never ahead of the device. -/
theorem RxSysInv.order (h : RxSysInv virt2phy channelId a s) : s.handed <+: s.chan.filled := by
  cases hrun : s.queue.eng.running with
  | true =>
    obtain ⟨before, hround, hhanded, -, -⟩ := h.armed hrun
    have hle : s.queue.eng.descUsed ≤ s.chan.word := h.reach.isFull.used_le_word.trans h.seen
    rw [hhanded, hround.filling.filled_eq, ← firstAddrs_append hle, ← List.append_assoc]
    exact List.prefix_append _ _
  | false => rw [(h.idle hrun).handed]

/-- The consumed count is the number of packets handed over, round by round. -/
theorem RxSysInv.position (h : RxSysInv virt2phy channelId a s) :
    s.handed.length % xdmaDescMax = s.queue.eng.descUsed := by
  cases hrun : s.queue.eng.running with
  | true =>
    obtain ⟨before, -, hhanded, hlt, hwhole⟩ := h.armed hrun
    rw [hhanded, List.length_append, length_firstAddrs, Nat.add_mod, hwhole, Nat.zero_add,
      Nat.mod_mod, Nat.mod_eq_of_lt hlt]
  | false =>
    have hrest := h.idle hrun
    rw [hrest.handed, (h.reach.inv.ring hrun).used]
    exact hrest.whole

end

/-- **Delivery.** In every interleaving of full-ring calls with the device. -/
theorem rxDelivery (virt2phy : Addr → Addr) (channelId : BitVec 16) (a : SetupAlloc)
    (hmap : MapsRing virt2phy (xdmaRxEngineSetup virt2phy channelId a)) (s : RxSys)
    (h : RxSysReach virt2phy channelId a s) : Delivered virt2phy channelId a s := by
  have hinv := h.inv hmap
  refine ⟨hinv.reach, hinv.order, ?_, hinv.position, fun hoff => ?_⟩
  · cases hrun : s.queue.eng.running with
    | true =>
      obtain ⟨before, hround, hhanded, -, -⟩ := hinv.armed hrun
      rw [hhanded, hround.filling.filled_eq, List.length_append, List.length_append,
        length_firstAddrs, length_firstAddrs]
      omega
    | false =>
      have hrest := hinv.idle hrun
      rw [hrest.handed, (hinv.reach.inv.ring hrun).used, hrest.word]
  · have hrest := hinv.idle hoff
    exact ⟨hrest.handed, hrest.phase, hrest.kick⟩

/-- From a fresh queue, calls that find 5, 32 and then 3 descriptors reported: the second one
    ends the round, and the third one arms the next. -/
theorem reach_three : ∃ s, RxSysReach id 0 SetupAlloc.pages s ∧ s.handed.length = 35 := by
  let s₀ := RxSys.init id 0 SetupAlloc.pages
  have hmap : MapsRing id (xdmaRxEngineSetup id 0 SetupAlloc.pages) :=
    MapsRing.of_injective Function.injective_id rfl
  have hreach₀ : RxSysReach id 0 SetupAlloc.pages s₀ := Relation.ReflTransGen.refl
  have hused₀ : s₀.queue.eng.descUsed = 0 := rfl
  have hword₀ : s₀.chan.word = 0 := rfl
  have hlen₀ : s₀.handed.length = 0 := rfl
  obtain ⟨s₁, hs₁, h₁⟩ := (hreach₀.inv hmap).serve (v := 5) (by omega) (by omega) (by decide)
  have hreach₁ := hreach₀.tail hs₁
  have hused₁ : s₁.queue.eng.descUsed = 5 := h₁.used
  have hword₁ : s₁.chan.word = 5 := h₁.word
  obtain ⟨s₂, hs₂, h₂⟩ := (RxSysReach.inv hmap hreach₁).serve (v := 32) (by omega) (by omega)
    (by decide)
  have hreach₂ := hreach₁.tail hs₂
  have hused₂ : s₂.queue.eng.descUsed = 0 := h₂.used
  have hword₂ : s₂.chan.word = 0 := h₂.word
  obtain ⟨s₃, hs₃, h₃⟩ := (RxSysReach.inv hmap hreach₂).serve (v := 3) (by omega) (by omega)
    (by decide)
  refine ⟨s₃, hreach₂.tail hs₃, ?_⟩
  have hlen₁ := h₁.length
  have hlen₂ := h₂.length
  have hlen₃ := h₃.length
  omega

/-- The 35 packets of that run. -/
theorem delivered_three :
    ∃ s, s.handed.length = 35 ∧ Delivered id 0 SetupAlloc.pages s := by
  obtain ⟨s, hreach, hlen⟩ := reach_three
  exact ⟨s, hlen, rxDelivery id 0 SetupAlloc.pages
    (MapsRing.of_injective Function.injective_id rfl) s hreach⟩

end XdmaDpdk
