import XdmaDpdk.RxConsumer

namespace XdmaDpdk

/-!
# XDMA driver — the buffers a receive burst hands back

A caller of a receive burst owns the first `ret` entries of its array afterwards, and expects
them to be the mbufs that were received (`HandsBack`).  The driver keeps no list of the
posted mbufs: it stamps the entries of the array of the present call, from the consumed
index on, and leaves every entry where it is.

`handsBack_iff` says when the two agree, in every run of full-ring calls: in the call that
arms the ring, and later when the array starts with what is still to be reported.
-/

/-- The first `ret` entries of the array are the mbufs posted in the descriptors this call
    reports: those after the ones reported before, in order. -/
def HandsBack (q : RxQueue) (m : RxMem) (dev : RxDevice) : Prop :=
  ∀ i < (xdmaRecvPkts q.eng m xdmaDescMax dev).ret,
    (q.enter m xdmaDescMax).posted[(q.enter m xdmaDescMax).reported + i]?
      = some ((xdmaRecvPkts q.eng m xdmaDescMax dev).mem.arr i)

/-- The array of a call on an armed ring starts with the posted mbufs not reported yet. -/
def ArrayAsPosted (q : RxQueue) (m : RxMem) : Prop :=
  q.eng.running = true → ∀ i, q.reported + i < xdmaDescMax →
    q.posted[q.reported + i]? = some (m.arr i)

section
variable {q : RxQueue} {m : RxMem} {dev : RxDevice}

/-- A call leaves the caller's array as it was. -/
theorem RxFull.arr_recv (h : RxFull q) (hdev : DevValid q m xdmaDescMax dev) :
    (xdmaRecvPkts q.eng m xdmaDescMax dev).mem.arr = m.arr := by
  obtain ⟨v, -, -, -, hc⟩ := h.consumes hdev
  obtain ⟨read, hread⟩ := rxEnter_mem q.eng m xdmaDescMax
  rw [hc.mem, preparePackets_eq, hread]

/-- On an armed full ring the reported count is the consumed count. -/
theorem RxFull.reported (h : RxFull q) (hrun : q.eng.running = true) :
    q.eng.descUsed = q.reported :=
  ((h.inv.armed hrun).full ((h.full hrun).trans h.inv.descMax.symm)).1

/-- An array as posted is handed back. -/
theorem handsBack_of_asPosted (h : RxFull q) (hdev : DevValid q m xdmaDescMax dev)
    (harr : ArrayAsPosted q m) : HandsBack q m dev := by
  obtain ⟨v, hle, hv, -, hc⟩ := h.consumes hdev
  intro i hi
  rw [h.ret hle hv hc] at hi
  rw [h.arr_recv hdev]
  cases hrun : q.eng.running with
  | true =>
    rw [RxQueue.enter_of_running hrun]
    have hrep := h.reported hrun
    exact harr hrun i (by omega)
  | false =>
    -- This call posted the array itself.
    obtain ⟨-, -, hposted, hrep⟩ := h.inv.enter_of_idle m xdmaDescMax hrun
    have hlt : i < min xdmaDescMax q.eng.descMax := by
      rw [h.inv.descMax, Nat.min_self]
      omega
    rw [hposted, hrep, Nat.zero_add, List.getElem?_map, List.getElem?_range hlt]
    rfl

/-- When every device leads to a hand-back, so does the one that completes everything. -/
theorem asPosted_of_handsBack (h : RxFull q)
    (hall : ∀ dev, DevValid q m xdmaDescMax dev → HandsBack q m dev) : ArrayAsPosted q m := by
  intro hrun i hi
  have hdev : DevValid q m xdmaDescMax (RxDevice.const xdmaDescMax) :=
    h.devValid_const h.word_le (Nat.le_refl _)
  obtain ⟨v, hle, hv, -, hc⟩ := h.consumes hdev
  have hval : v = xdmaDescMax := Option.some.inj
    (hc.trusted.symm.trans (StableRead.lastStable_of_stable rfl))
  -- On this device the call reports everything from the consumed count on.
  have hrep := h.reported hrun
  have hback := hall _ hdev i (by rw [h.ret hle hv hc]; omega)
  rw [RxQueue.enter_of_running hrun, h.arr_recv hdev] at hback
  exact hback

end

/-- **The hand-back contract.** In every run of full-ring calls, whatever arrays they pass, a
    call hands back the mbufs received, over all devices, exactly when it arms the ring or
    its array starts with the posted mbufs not reported yet. -/
theorem handsBack_iff (virt2phy : Addr → Addr) (channelId : BitVec 16) (a : SetupAlloc)
    (q : RxQueue) (hq : RxReach virt2phy channelId a (fun n => n = xdmaDescMax) q) (m : RxMem) :
    (∀ dev, DevValid q m xdmaDescMax dev → HandsBack q m dev) ↔ ArrayAsPosted q m :=
  ⟨asPosted_of_handsBack hq.isFull, fun harr _ hdev => handsBack_of_asPosted hq.isFull hdev harr⟩

/-- The queue after a first call that found five descriptors completed. -/
def afterFive : RxQueue := freshRx.recv plainMem xdmaDescMax (RxDevice.const 5)

theorem afterFive_reach : RxReach id 0 SetupAlloc.pages (fun n => n = xdmaDescMax) afterFive :=
  RxReach.recv plainMem xdmaDescMax (RxDevice.const 5) RxReach.setup rfl
    ((rxFull_fresh id 0 SetupAlloc.pages).devValid_const (by decide) (by decide))

/-- The second call of a cycle, with the array of the first. -/
theorem handsBack_afterFive :
    (∀ dev, DevValid afterFive plainMem xdmaDescMax dev → HandsBack afterFive plainMem dev)
      ↔ ArrayAsPosted afterFive plainMem :=
  handsBack_iff id 0 SetupAlloc.pages afterFive afterFive_reach plainMem

/-- The second call of a cycle returns the mbufs received from index 5 of the array on. -/
theorem handsBack_fails :
    ¬ ∀ (virt2phy : Addr → Addr) (channelId : BitVec 16) (a : SetupAlloc) (q : RxQueue),
      RxReach virt2phy channelId a (fun n => n = xdmaDescMax) q →
      ∀ m dev, DevValid q m xdmaDescMax dev → HandsBack q m dev := by
  intro h
  have hfresh : RxFull freshRx := rxFull_fresh id 0 SetupAlloc.pages
  have hfull : RxFull afterFive := afterFive_reach.isFull
  have hdev : DevValid freshRx plainMem xdmaDescMax (RxDevice.const 5) :=
    hfresh.devValid_const (by decide) (by decide)
  obtain ⟨v, -, -, -, hc⟩ := hfresh.consumes hdev
  obtain rfl : 5 = v := Option.some.inj
    ((StableRead.lastStable_of_stable rfl).symm.trans hc.trusted)
  obtain ⟨hused, hstop⟩ := RxFull.used_recv hc
  have hrun : afterFive.eng.running = true := by
    rw [← Bool.not_eq_false]
    intro hoff
    exact absurd (hstop.mp hoff) (by decide)
  have hrep : afterFive.reported = 5 := (hfull.reported hrun).symm.trans hused
  have hposted : afterFive.posted = (List.range 32).map (fun i => i) := rfl
  -- Entry 0 of the array would have to be the mbuf of descriptor 5.
  have harr := asPosted_of_handsBack hfull
    (h id 0 SetupAlloc.pages afterFive afterFive_reach plainMem) hrun 0 (by rw [hrep]; decide)
  rw [hrep, hposted] at harr
  exact absurd harr (by decide)

end XdmaDpdk
