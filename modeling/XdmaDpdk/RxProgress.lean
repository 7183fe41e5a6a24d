import XdmaDpdk.RxDelivery

namespace XdmaDpdk

/-!
# XDMA driver — a receive queue never wedges

The transmit queue can reach states that no step leads out of; the receive queue cannot.  From
every reachable state the device can report the rest of the round, and a call that finds all of
it reported hands it over and stops the engine (`RxSysInv.drain`), so that the next call arms a
new round.  `rxQueue_progress`: from every reachable state any number of packets can still be
delivered.
-/

section
variable {virt2phy : Addr → Addr} {channelId : BitVec 16} {a : SetupAlloc} {s : RxSys}

/-- The packets of a round in progress were not all handed over. -/
theorem RxSysInv.used_lt (h : RxSysInv virt2phy channelId a s) :
    s.queue.eng.descUsed < xdmaDescMax := by
  cases hrun : s.queue.eng.running with
  | true =>
    obtain ⟨before, hround⟩ := h.armed hrun
    exact hround.lt
  | false =>
    rw [(h.reach.inv.ring hrun).used]
    decide

/-- The device reports no more than the ring. -/
theorem RxSysInv.word_le (h : RxSysInv virt2phy channelId a s) : s.chan.word ≤ xdmaDescMax := by
  cases hrun : s.queue.eng.running with
  | true =>
    obtain ⟨before, hround⟩ := h.armed hrun
    exact hround.round.filling.word_le
  | false =>
    rw [(h.idle hrun).word]
    exact Nat.zero_le _

/-- **A round can be finished**: some call hands over the rest of it and stops the engine. -/
theorem RxSysInv.drain (h : RxSysInv virt2phy channelId a s) :
    ∃ s', RxSysStep virt2phy s s' ∧ s'.queue.eng.running = false ∧
      s.handed.length < s'.handed.length := by
  obtain ⟨s', hs, hserved⟩ := h.serve h.used_lt h.word_le (Nat.le_refl _)
  refine ⟨s', hs, hserved.stops.mpr rfl, ?_⟩
  have hlen := hserved.length
  have hlt := h.used_lt
  omega

/-- **Progress.** From every reachable state the device and some calls can deliver any number
    of packets more and leave the queue idle. -/
theorem rxQueue_progress (virt2phy : Addr → Addr) (channelId : BitVec 16) (a : SetupAlloc)
    (hmap : MapsRing virt2phy (xdmaRxEngineSetup virt2phy channelId a)) (s : RxSys)
    (h : RxSysReach virt2phy channelId a s) (n : Nat) :
    ∃ s', Relation.ReflTransGen (RxSysStep virt2phy) s s' ∧ s'.queue.eng.running = false ∧
      s.handed.length + n ≤ s'.handed.length := by
  induction n with
  | zero =>
    obtain ⟨s', hs, hidle, hlt⟩ := (h.inv hmap).drain
    exact ⟨s', Relation.ReflTransGen.single hs, hidle, Nat.le_of_lt hlt⟩
  | succ n ih =>
    -- One round more.
    obtain ⟨s₁, hs₁, -, hle⟩ := ih
    have hreach : RxSysReach virt2phy channelId a s₁ := Relation.ReflTransGen.trans h hs₁
    obtain ⟨s', hs, hidle, hlt⟩ := (hreach.inv hmap).drain
    exact ⟨s', hs₁.tail hs, hidle, by omega⟩

/-- From a queue that has delivered 35 packets. -/
theorem progress_three :
    ∃ s s', RxSysReach id 0 SetupAlloc.pages s ∧ s.handed.length = 35 ∧
      Relation.ReflTransGen (RxSysStep id) s s' ∧ s'.queue.eng.running = false ∧
      1035 ≤ s'.handed.length := by
  obtain ⟨s, hreach, hlen⟩ := reach_three
  obtain ⟨s', hs, hidle, hle⟩ := rxQueue_progress id 0 SetupAlloc.pages
    (MapsRing.of_injective Function.injective_id rfl) s hreach 1000
  rw [hlen] at hle
  exact ⟨s, s', hreach, hlen, hs, hidle, hle⟩

end

end XdmaDpdk
