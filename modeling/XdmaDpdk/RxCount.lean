import XdmaDpdk.RxSystem

namespace XdmaDpdk

open StableRead

/-!
# XDMA driver — the result of a receive burst

What the result of `xdma_recv_pkts` says about the device's count.  `CountContract` is what a
caller expects of one call: the result is the part of the trusted count that no earlier call
reported, and no more than `nb_pkts`.

`desc_used` is the producer index while a call arms the ring and the consumed count while it
polls.  The two agree only when arming wraps the index back to 0, on a full ring; and nothing
caps what an armed ring reports.  `countContract_iff` is the exact condition, for every
reachable queue and every `nb_pkts`.
-/

/-- The call returns the completions its last trusted read shows and no call reported yet,
    and at most `nb_pkts` of them. -/
def CountContract (q : RxQueue) (m : RxMem) (nbPkts : Nat) (dev : RxDevice) : Prop :=
  ∃ v, lastStable dev.reads (xdmaRecvPkts q.eng m nbPkts dev).lastPass = some v ∧
    (xdmaRecvPkts q.eng m nbPkts dev).ret + (q.enter m nbPkts).reported = v ∧
    (xdmaRecvPkts q.eng m nbPkts dev).ret ≤ nbPkts

/-- An idle queue is armed in full or not at all; an armed one was armed in full and is asked
    for everything it may still report. -/
def CountSound (q : RxQueue) (nbPkts : Nat) : Prop :=
  if q.eng.running then
    q.posted.length = q.eng.descMax ∧ q.eng.descMax ≤ nbPkts + q.reported
  else nbPkts = 0 ∨ q.eng.descMax ≤ nbPkts

instance (q : RxQueue) (nbPkts : Nat) : Decidable (CountSound q nbPkts) :=
  inferInstanceAs (Decidable (if q.eng.running = true then
    q.posted.length = q.eng.descMax ∧ q.eng.descMax ≤ nbPkts + q.reported
  else nbPkts = 0 ∨ q.eng.descMax ≤ nbPkts))

/-- A device that shows the count `v` throughout the call. -/
def RxDevice.const (v : Nat) : RxDevice where
  reads := fun _ => (v, v)
  wb := fun _ => ⟨0, 64⟩

/-- The reads of such a device lead to its count. -/
theorem foundCount_const (used v : Nat) : FoundCount used (RxDevice.const v).reads v := by
  by_cases hv : v = used
  · refine .inr ⟨hv, fun j _ => Bool.eq_false_iff.mpr ?_⟩
    intro hhit
    exact (rxHit_iff.mp hhit).2 hv
  · exact .inl ⟨0, Nat.zero_le _, rfl, hv, fun j hj => absurd hj (Nat.not_lt_zero j)⟩

theorem lastStable_const (v k : Nat) : lastStable (RxDevice.const v).reads k = some v :=
  lastStable_of_stable rfl

section
variable {q : RxQueue} {m : RxMem} {nbPkts : Nat}

theorem devValid_const {v : Nat} (hlo : q.eng.completedDescCount ≤ v)
    (hhi : v ≤ (q.enter m nbPkts).posted.length) : DevValid q m nbPkts (RxDevice.const v) :=
  growing_const hlo hhi

/-- The contract on a device that shows one count. -/
theorem CountContract.of_const {v : Nat} (hinv : RxInv q)
    (hdev : DevValid q m nbPkts (RxDevice.const v))
    (h : CountContract q m nbPkts (RxDevice.const v)) :
    (v + 2 ^ 32 - (q.enter m nbPkts).eng.descUsed) % 2 ^ 16 + (q.enter m nbPkts).reported = v ∧
      (v + 2 ^ 32 - (q.enter m nbPkts).eng.descUsed) % 2 ^ 16 ≤ nbPkts := by
  obtain ⟨v', -, -, -, hc⟩ := hinv.consumes hdev
  obtain rfl := Option.some.inj ((lastStable_const _ _).symm.trans hc.trusted)
  obtain ⟨v'', hv'', hsum, hle⟩ := h
  obtain rfl := Option.some.inj ((lastStable_const _ _).symm.trans hv'')
  rw [hc.ret] at hsum hle
  exact ⟨hsum, hle⟩

/-- A sound call keeps the contract, whatever the device shows. -/
theorem countContract_of_sound (hinv : RxInv q) (hsound : CountSound q nbPkts) {dev : RxDevice}
    (hdev : DevValid q m nbPkts dev) : CountContract q m nbPkts dev := by
  obtain ⟨v, hlo, -, hv, hc⟩ := hinv.consumes hdev
  refine ⟨v, hc.trusted, ?_⟩
  rw [hc.ret]
  have hmax : q.eng.descMax = 32 := hinv.descMax
  cases hrun : q.eng.running with
  | true =>
    -- Full ring: `desc_used` is the consumed count.
    unfold CountSound at hsound
    rw [if_pos hrun] at hsound
    obtain ⟨hposted, hnb⟩ := hsound
    obtain ⟨hused, hword⟩ := (hinv.armed hrun).full hposted
    rw [RxQueue.enter_of_running hrun] at hv ⊢
    show (v + 2 ^ 32 - q.eng.descUsed) % 2 ^ 16 + q.reported = v ∧
      (v + 2 ^ 32 - q.eng.descUsed) % 2 ^ 16 ≤ nbPkts
    have hv' : v ≤ q.posted.length := hv
    omega
  | false =>
    -- An arming call: the index wraps to 0 when `nb_pkts` fills the ring.
    unfold CountSound at hsound
    rw [if_neg (ne_true_of_eq_false hrun)] at hsound
    obtain ⟨hused, -, hposted, hrep⟩ := hinv.enter_of_idle m nbPkts hrun
    rw [hposted, List.length_map, List.length_range] at hv
    rw [hused, hrep]
    rw [hmax] at hsound hv ⊢
    rcases hsound with rfl | hfull
    · omega
    · have hmin : min nbPkts 32 = 32 := Nat.min_eq_right hfull
      rw [hmin] at hv ⊢
      omega

/-- Any other call breaks it on some device: an armed one on the device that has completed
    everything, an arming one on the device that has completed nothing. -/
theorem countSound_of_contract (hinv : RxInv q)
    (h : ∀ dev, DevValid q m nbPkts dev → CountContract q m nbPkts dev) :
    CountSound q nbPkts := by
  have hmax : q.eng.descMax = 32 := hinv.descMax
  cases hrun : q.eng.running with
  | true =>
    unfold CountSound
    rw [if_pos hrun]
    have hag := hinv.armed hrun
    have hpos := hinv.posted hrun
    have hposted := hag.posted
    have hused := hag.used
    have hdev : DevValid q m nbPkts (RxDevice.const q.posted.length) := by
      apply devValid_const hag.word
      rw [RxQueue.enter_of_running hrun]
    have hcontract := (h _ hdev).of_const hinv hdev
    rw [RxQueue.enter_of_running hrun] at hcontract
    obtain ⟨hsum, hle⟩ : (q.posted.length + 2 ^ 32 - q.eng.descUsed) % 2 ^ 16 + q.reported
        = q.posted.length ∧ (q.posted.length + 2 ^ 32 - q.eng.descUsed) % 2 ^ 16 ≤ nbPkts :=
      hcontract
    -- On a partly empty ring the results owe the posted number to `desc_used`.
    have hfull : q.posted.length = q.eng.descMax := by
      by_contra hne
      have hshort := hag.short (Nat.lt_of_le_of_ne hposted hne)
      omega
    refine ⟨hfull, ?_⟩
    have hrep := (hag.full hfull).1
    omega
  | false =>
    unfold CountSound
    rw [if_neg (ne_true_of_eq_false hrun)]
    obtain ⟨hused, -, hposted, hrep⟩ := hinv.enter_of_idle m nbPkts hrun
    have hdev : DevValid q m nbPkts (RxDevice.const 0) :=
      devValid_const (Nat.le_of_eq (hinv.idle hrun)) (Nat.zero_le _)
    obtain ⟨hsum, -⟩ := (h _ hdev).of_const hinv hdev
    rw [hused, hrep, hmax] at hsum
    rw [hmax]
    omega

end

/-- **The count contract.** On every reachable queue and for every `nb_pkts`, a call keeps
    the contract over all counts its device can show exactly when it is sound. -/
theorem countContract_iff (virt2phy : Addr → Addr) (channelId : BitVec 16) (a : SetupAlloc)
    (q : RxQueue) (hq : RxReach virt2phy channelId a (fun n => n < 2 ^ 16) q) (m : RxMem)
    (nbPkts : Nat) :
    (∀ dev, DevValid q m nbPkts dev → CountContract q m nbPkts dev) ↔ CountSound q nbPkts :=
  ⟨countSound_of_contract hq.inv, fun hsound _ hdev => countContract_of_sound hq.inv hsound hdev⟩

/-- A C2H queue just set up. -/
def freshRx : RxQueue := RxQueue.fresh id 0 SetupAlloc.pages

/-- Mbufs one page apart, mapped to themselves, and the array that holds them in order. -/
def plainMem : RxMem where
  heap := fun p => { plainMbuf with
    bufAddr := BitVec.ofNat 64 (4096 * p)
    bufIova := BitVec.ofNat 64 (4096 * p) }
  arr := fun i => i
  touched := []
  stamped := []

/-- A full burst on a fresh queue. -/
theorem countContract_freshRx :
    (∀ dev, DevValid freshRx plainMem 32 dev → CountContract freshRx plainMem 32 dev)
      ↔ CountSound freshRx 32 :=
  countContract_iff id 0 SetupAlloc.pages freshRx RxReach.setup plainMem 32

/-- A burst of one on a fresh queue returns 65535 while nothing is completed. -/
theorem countContract_fails :
    ¬ ∀ (virt2phy : Addr → Addr) (channelId : BitVec 16) (a : SetupAlloc) (q : RxQueue),
      RxReach virt2phy channelId a (fun n => n < 2 ^ 16) q →
      ∀ (m : RxMem) (nbPkts : Nat), nbPkts < 2 ^ 16 →
      ∀ dev, DevValid q m nbPkts dev → CountContract q m nbPkts dev := by
  intro h
  have hreach : RxReach id 0 SetupAlloc.pages (fun n => n < 2 ^ 16) freshRx := RxReach.setup
  have hsound := countSound_of_contract hreach.inv
    (h id 0 SetupAlloc.pages freshRx hreach plainMem 1 (by decide))
  exact absurd hsound (by decide)

end XdmaDpdk
