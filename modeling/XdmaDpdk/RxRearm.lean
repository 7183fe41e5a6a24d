import XdmaDpdk.RxCount

namespace XdmaDpdk

open StableRead

/-!
# XDMA driver — arming the receive ring again

A C2H ring posts new descriptors only when a call finds its engine idle, so an engine must be
idle once all it posted has been reported; otherwise the queue is `Stuck`.

The stop test of `xdma_recv_pkts` compares the consumed count with the `nb_pkts` of the
present call, and only an arming call clamps that to `desc_max`.  `not_stuck_iff`: the
queue is never stuck exactly when every call on an armed ring asks for `desc_max`.
-/

/-- The queues that calls for at least `desc_max` packets lead to, `ok` saying which calls are
    made in which state. -/
inductive RxCalls (virt2phy : Addr → Addr) (channelId : BitVec 16) (a : SetupAlloc)
    (ok : RxQueue → Nat → Prop) : RxQueue → Prop
  | setup : RxCalls virt2phy channelId a ok (RxQueue.fresh virt2phy channelId a)
  | recv {q : RxQueue} (m : RxMem) (nbPkts : Nat) (dev : RxDevice) :
      RxCalls virt2phy channelId a ok q → ok q nbPkts → q.eng.descMax ≤ nbPkts →
      nbPkts < 2 ^ 16 → DevValid q m nbPkts dev →
      RxCalls virt2phy channelId a ok (q.recv m nbPkts dev)

/-- The engine runs although every posted descriptor has been reported. -/
def Stuck (q : RxQueue) : Prop := q.eng.running = true ∧ q.posted.length ≤ q.reported

section
variable {virt2phy : Addr → Addr} {channelId : BitVec 16} {a : SetupAlloc}
  {ok : RxQueue → Nat → Prop} {q : RxQueue}

theorem RxCalls.inv (h : RxCalls virt2phy channelId a ok q) : RxInv q := by
  have hreach : RxReach virt2phy channelId a (fun _ => True) q := by
    induction h with
    | setup => exact RxReach.setup
    | recv m nbPkts dev _ _ _ _ hdev ih => exact RxReach.recv m nbPkts dev ih trivial hdev
  exact hreach.inv

/-- Calls for `desc_max` or more arm a full ring. -/
theorem RxCalls.full (h : RxCalls virt2phy channelId a ok q) :
    q.eng.running = true → q.posted.length = q.eng.descMax := by
  induction h with
  | setup => exact fun hon => absurd hon Bool.false_ne_true
  | @recv q m nbPkts dev hq _ hnb _ _ ih =>
    intro _
    have hmax : (q.recv m nbPkts dev).eng.descMax = q.eng.descMax :=
      (frame_xdmaRecvPkts q.eng m nbPkts dev).descMax
    show (q.enter m nbPkts).posted.length = _
    rw [hmax]
    cases hrun : q.eng.running with
    | true =>
      rw [RxQueue.enter_of_running hrun]
      exact ih hrun
    | false =>
      rw [(hq.inv.enter_of_idle m nbPkts hrun).2.2.1, List.length_map, List.length_range]
      exact Nat.min_eq_right hnb

/-- On a full ring what is reported is what is consumed. -/
theorem RxCalls.reported (h : RxCalls virt2phy channelId a ok q) (hrun : q.eng.running = true) :
    q.reported = q.eng.descUsed :=
  ((h.inv.armed hrun).full (h.full hrun)).1.symm

/-- A call that compares with `desc_max` does not leave the queue stuck. -/
theorem RxCalls.not_stuck_recv (h : RxCalls virt2phy channelId a ok q) {m : RxMem} {nbPkts : Nat}
    {dev : RxDevice} (hok : ok q nbPkts) (hnb : q.eng.descMax ≤ nbPkts) (hlt : nbPkts < 2 ^ 16)
    (hdev : DevValid q m nbPkts dev) (heq : (rxEnter q.eng m nbPkts).1 = q.eng.descMax) :
    ¬ Stuck (q.recv m nbPkts dev) := by
  rintro ⟨hon, hall⟩
  have hnext : RxCalls virt2phy channelId a ok (q.recv m nbPkts dev) :=
    .recv m nbPkts dev h hok hnb hlt hdev
  have hmax : (q.recv m nbPkts dev).eng.descMax = q.eng.descMax :=
    (frame_xdmaRecvPkts q.eng m nbPkts dev).descMax
  -- Everything reported means everything consumed, and that is where the call stops.
  obtain ⟨v, -, ⟨-, hoff⟩ | ⟨hne, -, hused⟩⟩ := h.inv.recv_cases hdev
  · exact absurd (hon.symm.trans hoff) (by decide)
  · have hbound := ((h.inv.recv hdev).armed hon).used
    rw [hnext.full hon] at hall hbound
    rw [hnext.reported hon] at hall
    omega

/-- A call on an armed ring that asks for more than `desc_max` leaves the queue stuck when it
    finds the last completions. -/
theorem RxCalls.stuck_recv (h : RxCalls virt2phy channelId a ok q) (m : RxMem) {nbPkts : Nat}
    (hrun : q.eng.running = true) (hok : ok q nbPkts) (hgt : q.eng.descMax < nbPkts)
    (hlt : nbPkts < 2 ^ 16) :
    RxCalls virt2phy channelId a ok (q.recv m nbPkts (RxDevice.const q.eng.descMax)) ∧
      Stuck (q.recv m nbPkts (RxDevice.const q.eng.descMax)) := by
  have hfull := h.full hrun
  have hdev : DevValid q m nbPkts (RxDevice.const q.eng.descMax) := by
    apply devValid_const
    · rw [← hfull]
      exact (h.inv.armed hrun).word
    · rw [RxQueue.enter_of_running hrun]
      exact Nat.le_of_eq hfull.symm
  have hnext :=
    RxCalls.recv m nbPkts (RxDevice.const q.eng.descMax) h hok (Nat.le_of_lt hgt) hlt hdev
  have henter : (rxEnter q.eng m nbPkts).1 = nbPkts := by
    rw [rxEnter_of_running _ m nbPkts hrun]
  obtain ⟨v, hlast, ⟨hstop, -⟩ | ⟨-, hon, hused⟩⟩ := h.inv.recv_cases hdev
  · obtain rfl := Option.some.inj ((lastStable_const _ _).symm.trans hlast)
    omega
  · obtain rfl := Option.some.inj ((lastStable_const _ _).symm.trans hlast)
    refine ⟨hnext, hon, ?_⟩
    rw [hnext.full hon, hnext.reported hon, hused]
    exact Nat.le_of_eq (frame_xdmaRecvPkts q.eng m nbPkts _).descMax

end

/-- **Arming again.** Over all the calls a caller may make, and all the ways completions are
    split over them, no queue is ever stuck exactly when every call on an armed ring asks for
    `desc_max` packets. -/
theorem not_stuck_iff (virt2phy : Addr → Addr) (channelId : BitVec 16) (a : SetupAlloc)
    (ok : RxQueue → Nat → Prop) :
    (∀ q, RxCalls virt2phy channelId a ok q → ¬ Stuck q)
      ↔ ∀ q nbPkts, RxCalls virt2phy channelId a ok q → ok q nbPkts → q.eng.descMax ≤ nbPkts →
          nbPkts < 2 ^ 16 → q.eng.running = true → nbPkts = q.eng.descMax := by
  constructor
  · intro h q nbPkts hq hok hnb hlt hrun
    by_contra hne
    obtain ⟨hnext, hstuck⟩ := hq.stuck_recv plainMem hrun hok (by omega) hlt
    exact h _ hnext hstuck
  · intro h q hq
    cases hq with
    | setup => exact fun hstuck => absurd hstuck.1 Bool.false_ne_true
    | @recv q m nbPkts dev hq hok hnb hlt hdev =>
      apply hq.not_stuck_recv hok hnb hlt hdev
      cases hrun : q.eng.running with
      | true =>
        rw [rxEnter_of_running _ m nbPkts hrun]
        exact h q nbPkts hq hok hnb hlt hrun
      | false =>
        rw [rxEnter_of_idle _ m nbPkts hrun]
        exact Nat.min_eq_right hnb

/-- The caller that asks for 64 packets in every call. -/
def askSixtyFour (_ : RxQueue) (nbPkts : Nat) : Prop := nbPkts = 64

/-- Two calls for 64 packets: the first arms the ring and times out, the second finds all 32
    completions, and the engine is left running. -/
theorem stuck_sixtyFour :
    ¬ ∀ (virt2phy : Addr → Addr) (channelId : BitVec 16) (a : SetupAlloc)
      (ok : RxQueue → Nat → Prop) (q : RxQueue),
      RxCalls virt2phy channelId a ok q → ¬ Stuck q := by
  intro h
  have harmed : RxCalls id 0 SetupAlloc.pages askSixtyFour
      (freshRx.recv plainMem 64 (RxDevice.const 0)) := by
    apply RxCalls.recv _ _ _ .setup rfl (by decide) (by decide)
    exact devValid_const (Nat.le_refl 0) (Nat.zero_le _)
  have hrun : (freshRx.recv plainMem 64 (RxDevice.const 0)).eng.running = true := by
    have hsetup : RxCalls id 0 SetupAlloc.pages askSixtyFour freshRx := .setup
    have hdev : DevValid freshRx plainMem 64 (RxDevice.const 0) :=
      devValid_const (Nat.le_refl 0) (Nat.zero_le _)
    obtain ⟨v, hlast, ⟨hstop, -⟩ | ⟨-, hon, -⟩⟩ := hsetup.inv.recv_cases hdev
    · obtain rfl := Option.some.inj ((lastStable_const _ _).symm.trans hlast)
      exact absurd hstop (by decide)
    · exact hon
  obtain ⟨hreach, hstuck⟩ := harmed.stuck_recv plainMem hrun rfl (by decide) (by decide)
  exact h _ _ _ _ _ hreach hstuck

end XdmaDpdk
