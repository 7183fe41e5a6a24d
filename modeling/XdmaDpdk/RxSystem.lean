import XdmaDpdk.History
import XdmaDpdk.Lib.StableRead

namespace XdmaDpdk

open StableRead ArrayLoop

/-!
# XDMA driver — runs of the receive burst

One call of `xdma_recv_pkts` over a device whose count only grows, and the C2H queue from
call to call.

* `rxCollect_spec` — a call consumes up to one trusted value `v` of the count: `v` is its
  new consumed count, the slots up to `v` are stamped, the result is the difference;
* `RxQueue` — the engine with what a caller is owed: the mbufs posted by the last arming
  call and the sum of the results since.  `RxReach` are the queues that some sequence of
  calls leads to, `DevValid` the counts the device can show to a call;
* `RxReach.inv` — an idle queue is ready to be armed, and on an armed one `desc_used` is
  the consumed count (`CountsAgree`), unless the arming call left the ring partly empty.
-/

/-! ### One call -/

/-- The clamped `nb_pkts`, the engine and the memory a call enters its poll loop with. -/
def rxEnter (e : XdmaEngine) (m : RxMem) (nbPkts : Nat) : Nat × XdmaEngine × RxMem :=
  let e := e.clearStatus
  if e.running then (nbPkts, e, m) else rxArm e m nbPkts

theorem xdmaRecvPkts_eq (e : XdmaEngine) (m : RxMem) (nbPkts : Nat) (dev : RxDevice) :
    xdmaRecvPkts e m nbPkts dev
      = rxCollect (rxEnter e m nbPkts).2.1 (rxEnter e m nbPkts).2.2 (rxEnter e m nbPkts).1 dev := by
  unfold xdmaRecvPkts rxEnter
  dsimp only
  split <;> rfl

/-- Nothing is stamped when nothing is newly consumed. -/
theorem preparePackets_self (e : XdmaEngine) (wb : Nat → XdmaC2hStreamWb) (m : RxMem) (c : Nat) :
    preparePackets e wb m c c = m := by
  simp [preparePackets]

/-- What a call does once it trusts the value `v` of the count: `ret`, memory and engine. -/
structure Consumes (e : XdmaEngine) (m : RxMem) (nbPkts : Nat) (dev : RxDevice) (v : Nat)
    (res : RecvResult) : Prop where
  trusted : lastStable dev.reads res.lastPass = some v
  timeout : res.sample = none → v = e.descUsed
  ret : res.ret = (v + 2 ^ 32 - e.descUsed) % 2 ^ 16
  mem : res.mem = preparePackets e dev.wb m (v % 2 ^ 16) (e.descUsed % 2 ^ 16)
  engine : ∃ status, res.engine =
    if v = nbPkts then xdmaRxEngineStop (e.advance (dev.reads res.lastPass).2 v status)
    else e.advance (dev.reads res.lastPass).2 v status

section
variable (e : XdmaEngine) (m : RxMem) (nbPkts : Nat) (dev : RxDevice)

/-- A call whose poll loop ends on the count of its last pass consumes up to it. -/
theorem consumes_of_hit {count pass : Nat}
    (hp : rxPoll e.descUsed dev.reads rxRetries 0 = (some count, pass))
    (hread : dev.reads pass = (count, count)) :
    Consumes e m nbPkts dev count (rxCollect e m nbPkts dev) := by
  have hpass : (rxCollect e m nbPkts dev).lastPass = pass := by simp only [rxCollect, hp]
  refine ⟨?_, ?_, ?_, ?_, rxCommpleted, ?_⟩
  · rw [hpass]
    exact lastStable_of_stable hread
  · intro hnone
    simp [rxCollect, hp] at hnone
  · simp only [rxCollect, hp]
  · simp only [rxCollect, hp]
    rfl
  · rw [hpass, rxCollect_engine, hp]
    rfl

/-- A call that times out consumes nothing new: it trusts the count it knows. -/
theorem consumes_of_timeout {pass : Nat}
    (hp : rxPoll e.descUsed dev.reads rxRetries 0 = (none, pass))
    (hlast : lastStable dev.reads pass = some e.descUsed) :
    Consumes e m nbPkts dev e.descUsed (rxCollect e m nbPkts dev) := by
  have hpass : (rxCollect e m nbPkts dev).lastPass = pass := by simp only [rxCollect, hp]
  refine ⟨?_, ?_, ?_, ?_, e.status, ?_⟩
  · rw [hpass]
    exact hlast
  · intro _
    rfl
  · simp only [rxCollect, hp]
    omega
  · simp only [rxCollect, hp, preparePackets_self]
  · rw [hpass, rxCollect_engine, hp]
    rfl

/-- **Call lemma.** Over a growing count that stays within 100 of its start, every call
    trusts some value of it; one that times out trusts the consumed count itself. -/
theorem rxCollect_spec {lo hi : Nat} (hgrow : Growing lo hi dev.reads) (hhi : hi ≤ lo + 100) :
    ∃ v, lo ≤ v ∧ v ≤ (dev.reads (rxCollect e m nbPkts dev).lastPass).2 ∧
      Consumes e m nbPkts dev v (rxCollect e m nbPkts dev) := by
  rcases rxPoll_cases e.descUsed dev.reads rxRetries 0 with
    ⟨count, pass, hp, -, -, hread, hne, -⟩ | ⟨hp, hmiss⟩
  · have hpass : (rxCollect e m nbPkts dev).lastPass = pass := by simp only [rxCollect, hp]
    refine ⟨count, ?_, ?_, consumes_of_hit e m nbPkts dev hp hread⟩
    · have hlo := hgrow.lo_le pass
      rwa [hread] at hlo
    · rw [hpass, hread]
  · -- Every stable pass showed the consumed count, and there was one.
    have hp' : rxPoll e.descUsed dev.reads rxRetries 0 = (none, 100) := hp
    have hpass : (rxCollect e m nbPkts dev).lastPass = 100 := by simp only [rxCollect, hp']
    have hall : ∀ i ≤ 100, Stable (dev.reads i) → (dev.reads i).1 = e.descUsed := by
      intro i hi hs
      by_contra hne
      have hhit : rxHit e.descUsed (dev.reads i) = true := rxHit_iff.mpr ⟨hs, hne⟩
      have hno := hmiss i (Nat.zero_le i) (by simpa [rxRetries] using hi)
      exact absurd (hhit.symm.trans hno) (by decide)
    obtain ⟨i, hi, hs⟩ := hgrow.exists_stable 100 hhi
    have hval : (dev.reads i).1 = e.descUsed := hall i hi hs
    have hlast : (dev.reads i).1 ≤ (dev.reads 100).2 := by
      rcases Nat.lt_or_eq_of_le hi with hlt | rfl
      · exact (hgrow.within i).trans ((hgrow.le_of_lt hlt).trans (hgrow.within 100))
      · exact hgrow.within 100
    refine ⟨e.descUsed, ?_, ?_, consumes_of_timeout e m nbPkts dev hp' ?_⟩
    · rw [← hval]
      exact hgrow.lo_le i
    · rw [hpass, ← hval]
      exact hlast
    · exact lastStable_eq_of_forall hall ⟨i, hi, hs⟩

end

section
variable {e : XdmaEngine} {m : RxMem} {nbPkts : Nat} {dev : RxDevice}

/-- What a call consumes up to is the count its reads lead to. -/
theorem Consumes.found {v : Nat}
    (hc : Consumes e m nbPkts dev v (rxCollect e m nbPkts dev)) :
    FoundCount e.descUsed dev.reads v := by
  have hv : v = rxEnd e.descUsed dev.reads := by
    unfold rxEnd
    rcases rxPoll_cases e.descUsed dev.reads rxRetries 0 with
      ⟨count, pass, hp, -, -, hread, -, -⟩ | ⟨hp, -⟩
    · have hcount := (consumes_of_hit e m nbPkts dev hp hread).trusted
      rw [hc.trusted] at hcount
      rw [hp]
      exact Option.some.inj hcount
    · have hnone : (rxCollect e m nbPkts dev).sample = none := by simp only [rxCollect, hp]
      rw [hp]
      exact hc.timeout hnone
  rw [hv]
  exact foundCount_rxEnd _ _

/-- A call takes a count off the reads exactly when they lead to a new one. -/
theorem rxCollect_sample {v : Nat} (hfound : FoundCount e.descUsed dev.reads v) :
    (rxCollect e m nbPkts dev).sample = if v = e.descUsed then none else some v := by
  have hv : v = rxEnd e.descUsed dev.reads := hfound.unique (foundCount_rxEnd _ _)
  unfold rxEnd at hv
  rcases rxPoll_cases e.descUsed dev.reads rxRetries 0 with
    ⟨count, pass, hp, -, -, -, hne, -⟩ | ⟨hp, -⟩
  · rw [hp] at hv
    have hcount : v = count := hv
    rw [hcount, if_neg hne]
    simp only [rxCollect, hp]
  · rw [hp] at hv
    have hused : v = e.descUsed := hv
    rw [if_pos hused]
    simp only [rxCollect, hp]

end

/-! ### Entering the poll loop -/

section
variable (e : XdmaEngine) (m : RxMem) (nbPkts : Nat)

theorem rxEnter_of_running (hrun : e.running = true) :
    rxEnter e m nbPkts = (nbPkts, e.clearStatus, m) := if_pos hrun

theorem rxEnter_of_idle (hrun : e.running = false) :
    rxEnter e m nbPkts = rxArm e.clearStatus m nbPkts :=
  if_neg (ne_true_of_eq_false hrun)

/-- A call polls a running engine. -/
theorem rxEnter_running : (rxEnter e m nbPkts).2.1.running = true := by
  cases hrun : e.running with
  | true =>
    rw [rxEnter_of_running e m nbPkts hrun]
    exact hrun
  | false =>
    rw [rxEnter_of_idle e m nbPkts hrun]
    rfl

/-- Arming reads array entries and changes no memory of the caller. -/
theorem rxEnter_mem :
    ∃ read, (rxEnter e m nbPkts).2.2 = { m with touched := m.touched ++ read } := by
  cases hrun : e.running with
  | true =>
    rw [rxEnter_of_running e m nbPkts hrun]
    exact ⟨[], by rw [List.append_nil]⟩
  | false =>
    rw [rxEnter_of_idle e m nbPkts hrun]
    exact ⟨_, rfl⟩

theorem frame_rxEnter : Frame e (rxEnter e m nbPkts).2.1 := by
  have h0 : Frame e e.clearStatus := ⟨rfl, fun _ => rfl⟩
  cases hrun : e.running with
  | true =>
    rw [rxEnter_of_running e m nbPkts hrun]
    exact h0
  | false =>
    rw [rxEnter_of_idle e m nbPkts hrun]
    exact h0.trans (frame_rxArm _ _ _)

end

/-- What stamping does not write of the mbufs a call leaves alone. -/
theorem proj_xdmaRecvPkts {β : Type*} (φ : RteMbuf → β)
    (hφ : ∀ e wb mb, φ (stampSeg e wb mb) = φ mb) (e : XdmaEngine) (m : RxMem) (nbPkts : Nat)
    (dev : RxDevice) (p : MbufPtr) :
    φ ((xdmaRecvPkts e m nbPkts dev).mem.heap p) = φ (m.heap p) := by
  obtain ⟨read, hread⟩ := rxEnter_mem e m nbPkts
  have hprepare : ∀ e wb m n c, φ ((preparePackets e wb m n c).heap p) = φ (m.heap p) := by
    intro e wb m n c
    rw [preparePackets_eq]
    exact forEach_proj φ (n - c) _ (fun k => stampSeg e (wb (c + k))) _ (fun _ _ => hφ _ _ _) p
  rw [xdmaRecvPkts_eq, hread]
  simp only [rxCollect]
  split
  · exact hprepare _ _ _ _ _
  · rfl

/-- Stamping leaves the buffers where they are. -/
theorem dataIova_xdmaRecvPkts (e : XdmaEngine) (m : RxMem) (nbPkts : Nat) (dev : RxDevice)
    (p : MbufPtr) : ((xdmaRecvPkts e m nbPkts dev).mem.heap p).dataIova = (m.heap p).dataIova :=
  proj_xdmaRecvPkts RteMbuf.dataIova (fun _ _ _ => rfl) e m nbPkts dev p

/-- A call that leaves the engine running leaves the ring it polled. -/
theorem descRing_recv_of_running (e : XdmaEngine) (m : RxMem) (nbPkts : Nat) (dev : RxDevice)
    (hrun : (xdmaRecvPkts e m nbPkts dev).engine.running = true) :
    (xdmaRecvPkts e m nbPkts dev).engine.descRing = (rxEnter e m nbPkts).2.1.descRing := by
  rw [xdmaRecvPkts_eq] at hrun ⊢
  obtain ⟨word, count, status, heng | heng⟩ := rxCollect_engine_cases (rxEnter e m nbPkts).2.1
    (rxEnter e m nbPkts).2.2 (rxEnter e m nbPkts).1 dev
  · rw [heng]
    rfl
  · rw [heng] at hrun
    exact absurd hrun Bool.false_ne_true

/-! ### The queue from call to call -/

/-- A C2H queue: its engine, the mbufs posted by the last arming call in the order of their
    descriptors, and the sum of the results returned since. -/
structure RxQueue where
  eng : XdmaEngine
  posted : List MbufPtr
  reported : Nat

namespace RxQueue

/-- A queue just set up. -/
def fresh (virt2phy : Addr → Addr) (channelId : BitVec 16) (a : SetupAlloc) : RxQueue where
  eng := xdmaRxEngineSetup virt2phy channelId a
  posted := []
  reported := 0

/-- The queue as a call enters its poll loop: an idle one is armed first. -/
def enter (q : RxQueue) (m : RxMem) (nbPkts : Nat) : RxQueue where
  eng := (rxEnter q.eng m nbPkts).2.1
  posted := if q.eng.running then q.posted else (List.range (min nbPkts q.eng.descMax)).map m.arr
  reported := if q.eng.running then q.reported else 0

/-- The queue after a call. -/
def recv (q : RxQueue) (m : RxMem) (nbPkts : Nat) (dev : RxDevice) : RxQueue where
  eng := (xdmaRecvPkts q.eng m nbPkts dev).engine
  posted := (q.enter m nbPkts).posted
  reported := (q.enter m nbPkts).reported + (xdmaRecvPkts q.eng m nbPkts dev).ret

end RxQueue

/-- The device's counts during a call: they grow from the word as the call finds it and
    never exceed the number of descriptors posted. -/
def DevValid (q : RxQueue) (m : RxMem) (nbPkts : Nat) (dev : RxDevice) : Prop :=
  Growing q.eng.completedDescCount (q.enter m nbPkts).posted.length dev.reads

/-- The queues that calls with `nb_pkts` in `ok`, and stops, lead to from a fresh one. -/
inductive RxReach (virt2phy : Addr → Addr) (channelId : BitVec 16) (a : SetupAlloc)
    (ok : Nat → Prop) : RxQueue → Prop
  | setup : RxReach virt2phy channelId a ok (RxQueue.fresh virt2phy channelId a)
  | recv {q : RxQueue} (m : RxMem) (nbPkts : Nat) (dev : RxDevice) :
      RxReach virt2phy channelId a ok q → ok nbPkts → DevValid q m nbPkts dev →
      RxReach virt2phy channelId a ok (q.recv m nbPkts dev)
  | stop {q : RxQueue} : RxReach virt2phy channelId a ok q →
      RxReach virt2phy channelId a ok { q with eng := xdmaRxEngineStop q.eng }

/-- Who produced what of a queue that is being polled: on a full ring `desc_used` is the
    consumed count, on a partly empty one it started at the number of posted descriptors. -/
structure CountsAgree (q : RxQueue) : Prop where
  posted : q.posted.length ≤ q.eng.descMax
  used : q.eng.descUsed ≤ q.posted.length
  word : q.eng.completedDescCount ≤ q.posted.length
  full : q.posted.length = q.eng.descMax →
    q.eng.descUsed = q.reported ∧ q.eng.descUsed ≤ q.eng.completedDescCount
  short : q.posted.length < q.eng.descMax →
    (q.reported + q.posted.length) % 2 ^ 16 = q.eng.descUsed

/-- What holds of a queue between calls. -/
structure RxInv (q : RxQueue) : Prop where
  descMax : q.eng.descMax = xdmaDescMax
  ring : q.eng.running = false → RingIdle q.eng
  idle : q.eng.running = false → q.eng.completedDescCount = 0
  armed : q.eng.running = true → CountsAgree q
  posted : q.eng.running = true → 0 < q.posted.length

section
variable {q : RxQueue} {m : RxMem} {nbPkts : Nat} {dev : RxDevice}

theorem RxInv.descMax_pos (h : RxInv q) : 0 < q.eng.descMax := by
  rw [h.descMax]
  decide

/-- An armed queue enters its poll loop as it is. -/
theorem RxQueue.enter_of_running (hrun : q.eng.running = true) :
    q.enter m nbPkts = { q with eng := q.eng.clearStatus } := by
  simp only [RxQueue.enter, rxEnter_of_running _ m nbPkts hrun, hrun, if_true]

/-- An idle queue is armed first. -/
theorem RxQueue.enter_eng_of_idle (hrun : q.eng.running = false) :
    (q.enter m nbPkts).eng = (rxArm q.eng.clearStatus m nbPkts).2.1 := by
  simp only [RxQueue.enter, rxEnter_of_idle _ m nbPkts hrun]

/-- An idle queue enters it with `min nb_pkts desc_max` mbufs posted. -/
theorem RxInv.enter_of_idle (h : RxInv q) (m : RxMem) (nbPkts : Nat)
    (hrun : q.eng.running = false) :
    (q.enter m nbPkts).eng.descUsed = min nbPkts q.eng.descMax % q.eng.descMax ∧
      (q.enter m nbPkts).eng.completedDescCount = 0 ∧
      (q.enter m nbPkts).posted = (List.range (min nbPkts q.eng.descMax)).map m.arr ∧
      (q.enter m nbPkts).reported = 0 := by
  have hused : q.eng.clearStatus.descUsed = 0 := (h.ring hrun).used
  rw [RxQueue.enter_eng_of_idle hrun, rxArm_descUsed _ m nbPkts hused h.descMax_pos,
    rxArm_word _ m nbPkts hused h.descMax_pos]
  refine ⟨rfl, h.idle hrun, ?_, ?_⟩
  · simp only [RxQueue.enter, hrun, Bool.false_eq_true, if_false]
  · simp only [RxQueue.enter, hrun, Bool.false_eq_true, if_false]

theorem RxQueue.enter_descMax : (q.enter m nbPkts).eng.descMax = q.eng.descMax :=
  (frame_rxEnter q.eng m nbPkts).descMax

theorem RxInv.enter_descMax (h : RxInv q) : (q.enter m nbPkts).eng.descMax = 32 :=
  RxQueue.enter_descMax.trans h.descMax

/-- The counts agree when the poll loop is entered. -/
theorem RxInv.enter (h : RxInv q) (m : RxMem) (nbPkts : Nat) :
    CountsAgree (q.enter m nbPkts) := by
  cases hrun : q.eng.running with
  | true =>
    have hag := h.armed hrun
    rw [RxQueue.enter_of_running hrun]
    exact ⟨hag.posted, hag.used, hag.word, hag.full, hag.short⟩
  | false =>
    obtain ⟨hused, hword, hposted, hrep⟩ := h.enter_of_idle m nbPkts hrun
    have hlen : (q.enter m nbPkts).posted.length = min nbPkts q.eng.descMax := by
      rw [hposted, List.length_map, List.length_range]
    have hmax := h.descMax
    simp only [xdmaDescMax] at hmax
    refine ⟨?_, ?_, ?_, ?_, ?_⟩
    · rw [hlen, RxQueue.enter_descMax]
      exact Nat.min_le_right _ _
    · rw [hlen, hused]
      exact Nat.mod_le _ _
    · rw [hword]
      exact Nat.zero_le _
    · -- A full ring: the index wrapped to 0, the consumed count.
      rw [hlen, hused, hword, hrep, RxQueue.enter_descMax]
      intro hfull
      rw [hfull, Nat.mod_self]
      exact ⟨rfl, Nat.le_refl 0⟩
    · -- A partly empty one: the index is the number of posted descriptors.
      rw [hlen, hused, hrep, RxQueue.enter_descMax]
      intro hshort
      rw [hmax] at hshort ⊢
      omega

/-- The word a call starts from. -/
theorem RxInv.enter_word (h : RxInv q) :
    (q.enter m nbPkts).eng.completedDescCount = q.eng.completedDescCount := by
  cases hrun : q.eng.running with
  | true =>
    rw [RxQueue.enter_of_running hrun]
    rfl
  | false => rw [(h.enter_of_idle m nbPkts hrun).2.1, h.idle hrun]

/-- **Call lemma for queues.** Every call trusts a value of the device's count and consumes
    up to it. -/
theorem RxInv.consumes (h : RxInv q) (hdev : DevValid q m nbPkts dev) :
    ∃ v, q.eng.completedDescCount ≤ v ∧
      v ≤ (dev.reads (xdmaRecvPkts q.eng m nbPkts dev).lastPass).2 ∧
      v ≤ (q.enter m nbPkts).posted.length ∧
      Consumes (q.enter m nbPkts).eng (rxEnter q.eng m nbPkts).2.2 (rxEnter q.eng m nbPkts).1 dev v
        (xdmaRecvPkts q.eng m nbPkts dev) := by
  have hag := h.enter m nbPkts
  have hmax : (q.enter m nbPkts).eng.descMax = 32 := h.enter_descMax
  have hposted := hag.posted
  have hused := hag.used
  rw [hmax] at hposted
  obtain ⟨v, hlo, hword, hc⟩ := rxCollect_spec (q.enter m nbPkts).eng (rxEnter q.eng m nbPkts).2.2
    (rxEnter q.eng m nbPkts).1 dev hdev (by omega)
  have heq : xdmaRecvPkts q.eng m nbPkts dev = rxCollect (q.enter m nbPkts).eng
      (rxEnter q.eng m nbPkts).2.2 (rxEnter q.eng m nbPkts).1 dev := xdmaRecvPkts_eq _ _ _ _
  rw [← heq] at hc hword
  exact ⟨v, hlo, hword, hword.trans (hdev.bound _), hc⟩

/-- A call consumes up to some value `v` of the count, and stops the engine exactly when `v` is
    the number it compares with. -/
theorem RxInv.recv_cases (h : RxInv q) (hdev : DevValid q m nbPkts dev) :
    ∃ v, lastStable dev.reads (xdmaRecvPkts q.eng m nbPkts dev).lastPass = some v ∧
      ((v = (rxEnter q.eng m nbPkts).1 ∧ (q.recv m nbPkts dev).eng.running = false) ∨
        (v ≠ (rxEnter q.eng m nbPkts).1 ∧ (q.recv m nbPkts dev).eng.running = true ∧
          (q.recv m nbPkts dev).eng.descUsed = v)) := by
  obtain ⟨v, -, -, -, hc⟩ := h.consumes hdev
  have hrunning : (q.enter m nbPkts).eng.running = true := rxEnter_running q.eng m nbPkts
  obtain ⟨status, heng⟩ := hc.engine
  have heng' : (q.recv m nbPkts dev).eng = _ := heng
  refine ⟨v, hc.trusted, ?_⟩
  rw [heng']
  by_cases hstop : v = (rxEnter q.eng m nbPkts).1
  · rw [if_pos hstop]
    exact .inl ⟨hstop, rfl⟩
  · rw [if_neg hstop]
    exact .inr ⟨hstop, hrunning, rfl⟩

/-- The counts agree after a call that did not stop the engine. -/
theorem CountsAgree.advance {q₁ : RxQueue} (h : CountsAgree q₁) (hmax : q₁.eng.descMax = 32)
    (word status : Nat) {v ret : Nat} (hlo : q₁.eng.completedDescCount ≤ v) (hv : v ≤ word)
    (hword : word ≤ q₁.posted.length) (hret : ret = (v + 2 ^ 32 - q₁.eng.descUsed) % 2 ^ 16) :
    CountsAgree
      { eng := q₁.eng.advance word v status
        posted := q₁.posted
        reported := q₁.reported + ret } := by
  have hposted := h.posted
  have hused := h.used
  have hfull := h.full
  have hshort := h.short
  rw [hmax] at hposted hfull hshort
  refine ⟨h.posted, hv.trans hword, hword, ?_, ?_⟩
  · intro hf
    have hf' : q₁.posted.length = 32 := hf.trans hmax
    obtain ⟨hrep, hle⟩ := hfull hf'
    refine ⟨?_, hv⟩
    show v = q₁.reported + ret
    omega
  · intro hs
    have hs' : q₁.posted.length < 32 := lt_of_lt_of_eq hs hmax
    have hrep := hshort hs'
    show (q₁.reported + ret + q₁.posted.length) % 2 ^ 16 = v
    omega

/-- A queue that is not stopped has something posted. -/
theorem RxInv.posted_pos (h : RxInv q) {v : Nat} (hv : v ≤ (q.enter m nbPkts).posted.length)
    (hne : v ≠ (rxEnter q.eng m nbPkts).1) : 0 < (q.enter m nbPkts).posted.length := by
  cases hrun : q.eng.running with
  | true =>
    rw [RxQueue.enter_of_running hrun]
    exact h.posted hrun
  | false =>
    have hposted := (h.enter_of_idle m nbPkts hrun).2.2.1
    have hnb : (rxEnter q.eng m nbPkts).1 = min nbPkts q.eng.descMax := by
      rw [rxEnter_of_idle _ m nbPkts hrun]
      rfl
    rw [hposted, List.length_map, List.length_range] at hv ⊢
    rw [hnb] at hne
    omega

/-- **Step lemma.** -/
theorem RxInv.recv (h : RxInv q) (hdev : DevValid q m nbPkts dev) :
    RxInv (q.recv m nbPkts dev) := by
  obtain ⟨v, hlo, hword, hv, hc⟩ := h.consumes hdev
  have hmax : (q.enter m nbPkts).eng.descMax = 32 := h.enter_descMax
  have hrunning : (q.enter m nbPkts).eng.running = true := rxEnter_running q.eng m nbPkts
  have hdescMax : (q.recv m nbPkts dev).eng.descMax = xdmaDescMax :=
    (frame_xdmaRecvPkts q.eng m nbPkts dev).descMax.trans h.descMax
  obtain ⟨status, heng⟩ := hc.engine
  have heng' : (q.recv m nbPkts dev).eng = _ := heng
  by_cases hstop : v = (rxEnter q.eng m nbPkts).1
  · -- The call stops the engine.
    rw [if_pos hstop] at heng'
    refine ⟨hdescMax, ?_, ?_, ?_, ?_⟩
    · intro _
      rw [heng']
      exact ringIdle_engineStop _ _
    · intro _
      rw [heng']
      rfl
    · intro hon
      rw [heng'] at hon
      exact absurd hon Bool.false_ne_true
    · intro hon
      rw [heng'] at hon
      exact absurd hon Bool.false_ne_true
  · -- The ring stays armed.
    rw [if_neg hstop] at heng'
    have hon : (q.recv m nbPkts dev).eng.running = true := by
      rw [heng']
      exact hrunning
    have hadv := (h.enter m nbPkts).advance hmax
      (dev.reads (xdmaRecvPkts q.eng m nbPkts dev).lastPass).2 status
      (by rw [h.enter_word]; exact hlo) hword (hdev.bound _) hc.ret
    refine ⟨hdescMax, ?_, ?_, ?_, ?_⟩
    · intro hoff
      exact absurd (hon.symm.trans hoff) (by decide)
    · intro hoff
      exact absurd (hon.symm.trans hoff) (by decide)
    · intro _
      rw [← heng'] at hadv
      exact hadv
    · intro _
      exact h.posted_pos hv hstop

end

section
variable {virt2phy : Addr → Addr} {channelId : BitVec 16} {a : SetupAlloc} {ok : Nat → Prop}
  {q : RxQueue}

/-- The engine of a queue has a history. -/
theorem RxReach.engine (h : RxReach virt2phy channelId a ok q) :
    EngineReach virt2phy q.eng ∧ q.eng.dir = .c2h := by
  induction h with
  | setup => exact ⟨EngineReach.rxSetup channelId a, rfl⟩
  | @recv q m nbPkts dev _ _ _ ih =>
    exact ⟨EngineReach.recv m nbPkts dev ih.1 ih.2,
      (frame_xdmaRecvPkts q.eng m nbPkts dev).dir.trans ih.2⟩
  | @stop q _ ih => exact ⟨EngineReach.rxStop ih.1 ih.2, (frame_engineStop q.eng _).dir.trans ih.2⟩

/-- **Run lemma.** -/
theorem RxReach.inv (h : RxReach virt2phy channelId a ok q) : RxInv q := by
  induction h with
  | setup =>
    exact ⟨rfl, fun _ => ringIdle_engineSetup virt2phy .c2h _ channelId a, fun _ => rfl,
      fun hon => absurd hon Bool.false_ne_true, fun hon => absurd hon Bool.false_ne_true⟩
  | recv m nbPkts dev _ _ hdev ih => exact ih.recv hdev
  | @stop q _ ih =>
    exact ⟨(frame_engineStop q.eng _).descMax.trans ih.descMax,
      fun _ => ringIdle_engineStop q.eng _, fun _ => rfl,
      fun hon => absurd hon Bool.false_ne_true, fun hon => absurd hon Bool.false_ne_true⟩

end

end XdmaDpdk
