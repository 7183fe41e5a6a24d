import XdmaDpdk.RxCount
import XdmaDpdk.TxChain

namespace XdmaDpdk

open StableRead

/-!
# XDMA driver — the polling API

`xdma_poll_rx_complete` and `xdma_poll_tx_complete` do not use the engine of a queue but the
copy of it that the set-up stored by value in `xdma_dev->engine_c2h[]` or `engine_h2c[]`.
The two share the memory their pointers lead to, so the poll-mode word is the queue's; every
other field of the copy stays as the set-up left it (`RxPollReach.inv`, `TxPollReach.inv`).

`pollApi_iff` says where that does and does not show: the receive poll compares the word with
0 instead of the consumed count, and the transmit poll waits for a count that the burst's own
stop has cleared.
-/

/-! ### The copy -/

/-- The fields of the stored copy that the polling functions use. -/
structure EngineCopy where
  pollModeAddrVirt : Addr
  descUsed : Nat
  status : Nat

/-- `xdma_dev->engine_c2h[channel_id] = *engine`. -/
def EngineCopy.of (e : XdmaEngine) : EngineCopy where
  pollModeAddrVirt := e.pollModeAddrVirt
  descUsed := e.descUsed
  status := e.status

/-- The poll-mode word a copy leads to, when it is that of `e`. -/
def EngineCopy.word (c : EngineCopy) (e : XdmaEngine) : Option Nat :=
  if c.pollModeAddrVirt = e.pollModeAddrVirt then some e.completedDescCount else none

/-! ### The polling functions -/

/-- The passes after the first that `tran_time > 1000` allows. -/
def pollRetries : Nat := 1000

/-- What a receive poll leaves: its result, the copy, and the pass it ended in. -/
structure PollResult where
  ret : Nat
  copy : EngineCopy
  lastPass : Nat

/-- `xdma_poll_rx_complete`, over the two reads of the word in each pass. -/
def xdmaPollRxComplete (c : EngineCopy) (reads : Nat → Nat × Nat) : PollResult :=
  let (sample, pass) := rxPoll c.descUsed reads pollRetries 0
  match sample with
  | some count => { ret := count, copy := { c with status := rxCommpleted }, lastPass := pass }
  | none => { ret := (reads pass).1, copy := c, lastPass := pass }

/-- `xdma_poll_tx_complete`; `none` when the loop does not end within the reads. -/
def xdmaPollTxComplete (nbPkts : Nat) (reads : List Nat) : Option Nat :=
  if txWaitLoop nbPkts reads then some nbPkts else none

/-- The poll sets `RX_COMMPLETED`. -/
def Marks (c : EngineCopy) (reads : Nat → Nat × Nat) : Prop :=
  (xdmaPollRxComplete { c with status := 0 } reads).copy.status = rxCommpleted

/-- It does so when some pass shows a stable count other than `desc_used`. -/
theorem marks_iff (c : EngineCopy) (reads : Nat → Nat × Nat) :
    Marks c reads ↔ ∃ i ≤ pollRetries, rxHit c.descUsed (reads i) = true := by
  unfold Marks xdmaPollRxComplete
  rcases rxPoll_cases c.descUsed reads pollRetries 0 with
    ⟨count, pass, hp, -, hle, hread, hne, -⟩ | ⟨hp, hmiss⟩
  · simp only [hp, true_iff]
    refine ⟨pass, by omega, rxHit_iff.mpr ?_⟩
    rw [hread]
    exact ⟨rfl, hne⟩
  · simp only [hp]
    constructor
    · intro h
      exact absurd h (by decide)
    · rintro ⟨i, hi, hhit⟩
      exact absurd (hhit.symm.trans (hmiss i (Nat.zero_le i) (by omega))) (by decide)

/-! ### A receive queue and its copy -/

/-- A C2H queue with the copy of its engine in `engine_c2h[]`. -/
structure RxPolled where
  queue : RxQueue
  copy : EngineCopy

/-- What the word can still grow to: the number of posted descriptors while the channel runs. -/
def RxQueue.limit (q : RxQueue) : Nat :=
  if q.eng.running then q.posted.length else q.eng.completedDescCount

/-- The counts a poll can find: they grow from the word as it is. -/
def PollValid (q : RxQueue) (reads : Nat → Nat × Nat) : Prop :=
  Growing q.eng.completedDescCount q.limit reads

/-- The word now reads `count`. -/
def RxQueue.setWord (q : RxQueue) (count : Nat) : RxQueue :=
  { q with eng := { q.eng with completedDescCount := count } }

/-- The queues that calls, polls, completions and stops lead to. -/
inductive RxPollReach (virt2phy : Addr → Addr) (channelId : BitVec 16) (a : SetupAlloc) :
    RxPolled → Prop
  | setup : RxPollReach virt2phy channelId a
      { queue := RxQueue.fresh virt2phy channelId a
        copy := .of (xdmaRxEngineSetup virt2phy channelId a) }
  | recv {s : RxPolled} (m : RxMem) (nbPkts : Nat) (dev : RxDevice) :
      RxPollReach virt2phy channelId a s → nbPkts < 2 ^ 16 → DevValid s.queue m nbPkts dev →
      RxPollReach virt2phy channelId a { s with queue := s.queue.recv m nbPkts dev }
  | poll {s : RxPolled} (reads : Nat → Nat × Nat) :
      RxPollReach virt2phy channelId a s → PollValid s.queue reads →
      RxPollReach virt2phy channelId a
        { queue := s.queue.setWord (reads (xdmaPollRxComplete s.copy reads).lastPass).2
          copy := (xdmaPollRxComplete s.copy reads).copy }
  | complete {s : RxPolled} (count : Nat) : RxPollReach virt2phy channelId a s →
      s.queue.eng.completedDescCount ≤ count → count ≤ s.queue.limit →
      RxPollReach virt2phy channelId a { s with queue := s.queue.setWord count }
  | stop {s : RxPolled} : RxPollReach virt2phy channelId a s →
      RxPollReach virt2phy channelId a
        { s with queue := { s.queue with eng := xdmaRxEngineStop s.queue.eng } }

/-- The copy is that of the set-up but for its status, and leads to the queue's word. -/
structure RxPollInv (s : RxPolled) : Prop where
  queue : RxInv s.queue
  used : s.copy.descUsed = 0
  addr : s.copy.pollModeAddrVirt = s.queue.eng.pollModeAddrVirt

/-- The device counts on. -/
theorem RxInv.setWord {q : RxQueue} (h : RxInv q) {count : Nat}
    (hlo : q.eng.completedDescCount ≤ count) (hhi : count ≤ q.limit) : RxInv (q.setWord count) := by
  unfold RxQueue.limit at hhi
  refine ⟨h.descMax, ?_, ?_, ?_, h.posted⟩
  · intro hoff
    have hidle := h.ring hoff
    exact ⟨hidle.used, hidle.len, hidle.src, hidle.dst, hidle.clear⟩
  · intro hoff
    have hoff' : q.eng.running = false := hoff
    -- A channel that is stopped does not count.
    rw [if_neg (ne_true_of_eq_false hoff'), h.idle hoff'] at hhi
    exact Nat.le_zero.mp hhi
  · intro hon
    have hon' : q.eng.running = true := hon
    rw [if_pos hon'] at hhi
    -- A running one counts up to what is posted.
    have hag := h.armed hon'
    refine ⟨hag.posted, hag.used, hhi, ?_, hag.short⟩
    intro hfull
    exact ⟨(hag.full hfull).1, (hag.full hfull).2.trans hlo⟩

/-- A poll changes nothing of the copy but its status. -/
theorem xdmaPollRxComplete_copy (c : EngineCopy) (reads : Nat → Nat × Nat) :
    (xdmaPollRxComplete c reads).copy.descUsed = c.descUsed ∧
      (xdmaPollRxComplete c reads).copy.pollModeAddrVirt = c.pollModeAddrVirt := by
  unfold xdmaPollRxComplete
  dsimp only
  split <;> exact ⟨rfl, rfl⟩

section
variable {virt2phy : Addr → Addr} {channelId : BitVec 16} {a : SetupAlloc}

/-- **Run lemma.** -/
theorem RxPollReach.inv {s : RxPolled} (h : RxPollReach virt2phy channelId a s) : RxPollInv s := by
  induction h with
  | setup =>
    have hfresh : RxReach virt2phy channelId a (fun _ => True)
      (RxQueue.fresh virt2phy channelId a) := RxReach.setup
    exact ⟨hfresh.inv, rfl, rfl⟩
  | @recv s m nbPkts dev _ _ hdev ih =>
    have hframe := frame_xdmaRecvPkts s.queue.eng m nbPkts dev
    exact ⟨ih.queue.recv hdev, ih.used, ih.addr.trans hframe.pollAddr.symm⟩
  | @poll s reads _ hvalid ih =>
    obtain ⟨hused, haddr⟩ := xdmaPollRxComplete_copy s.copy reads
    refine ⟨ih.queue.setWord ?_ (hvalid.bound _), hused.trans ih.used, haddr.trans ih.addr⟩
    exact (hvalid.lo_le _).trans (hvalid.within _)
  | complete count _ hlo hhi ih => exact ⟨ih.queue.setWord hlo hhi, ih.used, ih.addr⟩
  | @stop s _ ih =>
    have hframe := frame_engineStop s.queue.eng c2hChannelCtrl
    refine ⟨⟨hframe.descMax.trans ih.queue.descMax, fun _ => ringIdle_engineStop _ _, fun _ => rfl,
      ?_, ?_⟩, ih.used, ih.addr.trans hframe.pollAddr.symm⟩
    · exact fun hon => absurd hon Bool.false_ne_true
    · exact fun hon => absurd hon Bool.false_ne_true

/-- The poll and the burst function agree on `desc_used`, and so on what a poll marks. -/
structure PollAgrees (s : RxPolled) : Prop where
  used : s.copy.descUsed = s.queue.eng.descUsed
  marks : ∀ reads, PollValid s.queue reads →
    (Marks s.copy reads ↔ Marks (.of s.queue.eng) reads)

/-- They agree while nothing is consumed. -/
theorem RxPollInv.agrees_iff {s : RxPolled} (h : RxPollInv s) :
    PollAgrees s ↔ s.queue.eng.descUsed = 0 := by
  constructor
  · intro hag
    rw [← hag.used, h.used]
  · intro hzero
    have hused : s.copy.descUsed = s.queue.eng.descUsed := by rw [h.used, hzero]
    refine ⟨hused, fun reads _ => ?_⟩
    rw [marks_iff, marks_iff, hused]
    exact Iff.rfl

/-- Among the passes of a poll one is stable. -/
theorem RxPollInv.exists_stable {s : RxPolled} (h : RxPollInv s) {reads : Nat → Nat × Nat}
    (hvalid : PollValid s.queue reads) : ∃ i ≤ pollRetries, Stable (reads i) := by
  apply hvalid.exists_stable
  have hmax := h.queue.descMax
  rw [xdmaDescMax] at hmax
  unfold RxQueue.limit pollRetries
  cases hrun : s.queue.eng.running with
  | false =>
    -- Stopped: the word does not move, and the first pass is stable.
    rw [if_neg (by decide)]
    omega
  | true =>
    have hposted := (h.queue.armed hrun).posted
    rw [if_pos rfl]
    omega

/-- What they mark is the same more often: also when the word is past the consumed count, for
    then both of them mark whatever the poll finds. -/
theorem RxPollInv.marks_iff {s : RxPolled} (h : RxPollInv s) :
    (∀ reads, PollValid s.queue reads → (Marks s.copy reads ↔ Marks (.of s.queue.eng) reads))
      ↔ s.queue.eng.descUsed = 0 ∨ s.queue.eng.descUsed < s.queue.eng.completedDescCount := by
  constructor
  · intro hsame
    by_contra hno
    rw [not_or, Nat.not_lt] at hno
    obtain ⟨hne, hle⟩ := hno
    -- An engine with something consumed runs, and the device may show that very count.
    have hrun : s.queue.eng.running = true := by
      by_contra hoff
      exact hne (h.queue.ring (eq_false_of_ne_true hoff)).used
    have hvalid : PollValid s.queue (fun _ => (s.queue.eng.descUsed, s.queue.eng.descUsed)) := by
      apply growing_const hle
      unfold RxQueue.limit
      rw [if_pos hrun]
      exact (h.queue.armed hrun).used
    have hcopy : Marks s.copy (fun _ => (s.queue.eng.descUsed, s.queue.eng.descUsed)) := by
      rw [XdmaDpdk.marks_iff, h.used]
      exact ⟨0, Nat.zero_le _, rxHit_iff.mpr ⟨rfl, hne⟩⟩
    have hlive := (hsame _ hvalid).mp hcopy
    rw [XdmaDpdk.marks_iff] at hlive
    obtain ⟨i, -, hhit⟩ := hlive
    exact (rxHit_iff.mp hhit).2 rfl
  · intro hcond reads hvalid
    rw [XdmaDpdk.marks_iff, XdmaDpdk.marks_iff, h.used]
    rcases hcond with hzero | hlt
    · show _ ↔ ∃ i ≤ pollRetries, rxHit s.queue.eng.descUsed (reads i) = true
      rw [hzero]
    · -- Every stable pass is a hit for both.
      obtain ⟨i, hi, hs⟩ := h.exists_stable hvalid
      have hge := hvalid.lo_le i
      constructor
      · exact fun _ => ⟨i, hi, rxHit_iff.mpr ⟨hs, by
          show (reads i).1 ≠ s.queue.eng.descUsed
          omega⟩⟩
      · exact fun _ => ⟨i, hi, rxHit_iff.mpr ⟨hs, by omega⟩⟩

end

/-! ### A transmit queue and its copy -/

/-- The H2C engines, each with its copy in `engine_h2c[]`, that bursts, completions and stops
    lead to.  A transmit poll only reads. -/
inductive TxPollReach (virt2phy : Addr → Addr) (channelId : BitVec 16) (a : SetupAlloc) :
    XdmaEngine → EngineCopy → Prop
  | setup : TxPollReach virt2phy channelId a (xdmaTxEngineSetup virt2phy channelId a)
      (.of (xdmaTxEngineSetup virt2phy channelId a))
  | xmit {e : XdmaEngine} {c : EngineCopy} (b : TxBurst) (reads : List Nat) (out : XmitResult) :
      TxPollReach virt2phy channelId a e c → xdmaXmitPkts e b reads = some out →
      TxPollReach virt2phy channelId a out.engine c
  | xmitWait {e : XdmaEngine} {c : EngineCopy} (b : TxBurst) :
      TxPollReach virt2phy channelId a e c →
      e.running = false → TxPollReach virt2phy channelId a (xmitStart e b).2 c
  | complete {e : XdmaEngine} {c : EngineCopy} (count : Nat) :
      TxPollReach virt2phy channelId a e c →
      e.running = true → TxPollReach virt2phy channelId a { e with completedDescCount := count } c
  | stop {e : XdmaEngine} {c : EngineCopy} : TxPollReach virt2phy channelId a e c →
      TxPollReach virt2phy channelId a (xdmaTxEngineStop e) c

section
variable {virt2phy : Addr → Addr} {channelId : BitVec 16} {a : SetupAlloc}

/-- **Run lemma.** The copy leads to the word of its queue. -/
theorem TxPollReach.addr {e : XdmaEngine} {c : EngineCopy}
    (h : TxPollReach virt2phy channelId a e c) : c.pollModeAddrVirt = e.pollModeAddrVirt := by
  induction h with
  | setup => rfl
  | @xmit e c b reads out _ hx ih =>
    exact ih.trans (frame_xdmaXmitPkts e b reads out hx).pollAddr.symm
  | @xmitWait e c b _ _ ih => exact ih.trans (frame_xmitStart e b).pollAddr.symm
  | complete count _ _ ih => exact ih
  | stop _ ih => exact ih.trans (frame_engineStop _ _).pollAddr.symm

/-- After a successful burst the copy leads to a zero word. -/
theorem TxPollReach.word_sent {e : XdmaEngine} {c : EngineCopy} {b : TxBurst} {reads : List Nat}
    {out : XmitResult} (h : TxPollReach virt2phy channelId a e c) (hrun : e.running = false)
    (hout : xdmaXmitPkts e b reads = some out) : c.word out.engine = some 0 := by
  have haddr := (TxPollReach.xmit b reads out h hout).addr
  rcases xdmaXmitPkts_cases hout with ⟨hon, -⟩ | ⟨-, -, rfl⟩
  · exact absurd (hon.symm.trans hrun) (by decide)
  · unfold EngineCopy.word
    rw [if_pos haddr]
    rfl

/-- While the word stays as the stop left it, a transmit poll for the packets just sent does
    not return. -/
theorem xdmaPollTxComplete_zero (n : Nat) (hn : n ≠ 0) (k : Nat) :
    xdmaPollTxComplete n (List.replicate k 0) = none := by
  have hwait : txWaitLoop n (List.replicate k 0) = false := by
    induction k with
    | zero => rfl
    | succ k ih =>
      have htest : txExitTest 0 n = false := beq_eq_false_iff_ne.mpr hn.symm
      rw [List.replicate_succ, txWaitLoop, htest, ih]
      rfl
  unfold xdmaPollTxComplete
  rw [hwait]
  rfl

end

/-- **The polling API.** In every reachable state, the receive poll agrees with the burst
    function exactly while `desc_used` is 0 (and marks the same exactly while it is 0 or
    below the word); and after a successful burst of `n` packets the transmit poll's exit test
    holds exactly when `n` is 0. -/
theorem pollApi_iff (virt2phy : Addr → Addr) (channelId : BitVec 16) (a : SetupAlloc)
    (s : RxPolled) (hs : RxPollReach virt2phy channelId a s) (e : XdmaEngine) (c : EngineCopy)
    (he : TxPollReach virt2phy channelId a e c) (hrun : e.running = false) (b : TxBurst)
    (reads : List Nat) (out : XmitResult) (hout : xdmaXmitPkts e b reads = some out) :
    (PollAgrees s ↔ s.queue.eng.descUsed = 0) ∧
      ((∀ reads, PollValid s.queue reads → (Marks s.copy reads ↔ Marks (.of s.queue.eng) reads))
        ↔ s.queue.eng.descUsed = 0 ∨ s.queue.eng.descUsed < s.queue.eng.completedDescCount) ∧
      ((∃ word, c.word out.engine = some word ∧ txExitTest word b.nbPkts = true)
        ↔ b.nbPkts = 0) := by
  refine ⟨hs.inv.agrees_iff, hs.inv.marks_iff, ?_⟩
  rw [he.word_sent hrun hout]
  unfold txExitTest
  constructor
  · rintro ⟨word, hword, htest⟩
    -- The stop has zeroed the word the exit test reads.
    obtain rfl := Option.some.inj hword
    exact (beq_iff_eq.mp htest).symm
  · intro hzero
    refine ⟨0, rfl, ?_⟩
    rw [hzero]
    rfl

/-- A receive queue just set up, with its copy. -/
def freshPolled : RxPolled where
  queue := freshRx
  copy := .of freshRx.eng

/-- A fresh receive queue, and a transmit queue that has sent one packet. -/
theorem pollApi_fresh :
    (PollAgrees freshPolled ↔ freshPolled.queue.eng.descUsed = 0) ∧
      ((∀ reads, PollValid freshPolled.queue reads →
          (Marks freshPolled.copy reads ↔ Marks (.of freshPolled.queue.eng) reads))
        ↔ freshPolled.queue.eng.descUsed = 0 ∨
          freshPolled.queue.eng.descUsed < freshPolled.queue.eng.completedDescCount) ∧
      ((∃ word, (EngineCopy.of freshTx).word sentTx = some word ∧ txExitTest word 1 = true)
        ↔ 1 = 0) :=
  pollApi_iff id 0 SetupAlloc.pages freshPolled .setup freshTx (.of freshTx) .setup rfl
    (TxBurst.plain 1 (by decide)) [1] _ xmit_sentTx

/-- A receive queue that has reported five of 32 packets is out of step with its copy, and a
    transmit poll for the one packet just sent does not find its count. -/
theorem pollApi_fails :
    (¬ ∀ s, RxPollReach id 0 SetupAlloc.pages s → PollAgrees s) ∧
      ¬ ∀ e c, TxPollReach id 0 SetupAlloc.pages e c → e.running = false →
        ∀ b reads out, xdmaXmitPkts e b reads = some out →
          ∃ word, c.word out.engine = some word ∧ txExitTest word b.nbPkts = true := by
  constructor
  · intro h
    have hfresh : RxPollReach id 0 SetupAlloc.pages freshPolled := .setup
    have hdev : DevValid freshRx plainMem 32 (RxDevice.const 5) :=
      devValid_const (Nat.zero_le 5) (by decide)
    have hreach := RxPollReach.recv plainMem 32 (RxDevice.const 5) hfresh (by decide) hdev
    have hzero := (h _ hreach).used
    -- The call consumed the five completions; the copy still says none.
    obtain ⟨v, hlast, ⟨hstop, -⟩ | ⟨-, -, hused⟩⟩ := hfresh.inv.queue.recv_cases hdev
    · obtain rfl := Option.some.inj ((lastStable_const _ _).symm.trans hlast)
      exact absurd hstop (by decide)
    · obtain rfl := Option.some.inj ((lastStable_const _ _).symm.trans hlast)
      exact absurd (hzero.trans hused) (by decide)
  · intro h
    have hfresh : TxPollReach id 0 SetupAlloc.pages freshTx (.of freshTx) := .setup
    obtain ⟨word, hword, htest⟩ := h freshTx (.of freshTx) hfresh rfl _ _ _ xmit_sentTx
    have hsent : (EngineCopy.of freshTx).word sentTx = some 0 := hfresh.word_sent rfl xmit_sentTx
    obtain rfl := Option.some.inj (hsent.symm.trans hword)
    exact absurd htest (by decide)

end XdmaDpdk
