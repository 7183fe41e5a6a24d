import XdmaDpdk.RxLength

namespace XdmaDpdk

/-!
# XDMA driver — the entries of the caller's array

A receive burst is passed an array of `nb_pkts` entries and may use no other (`InBounds`).
What it uses follows the device's count, not `nb_pkts`: an armed ring is reported up to the
count found, whatever the present call asks for; and `prepare_packets` prefetches through
the entry after the one it stamps.

`inBounds_iff`: along every run of calls, no entry outside is used exactly when each call
that reports anything finds a count below its own `nb_pkts`.
-/

/-! ### Runs of calls -/

/-- One call of a run: the array and the mbufs behind it, `nb_pkts`, and the device's side. -/
structure SizedCall where
  mem : RxMem
  nbPkts : Nat
  dev : RxDevice

/-- `P` holds of every call of a run, in the state the call is made in. -/
def AlongCalls (P : RxQueue → SizedCall → Prop) : RxQueue → List SizedCall → Prop
  | _, [] => True
  | q, c :: calls => P q c ∧ AlongCalls P (q.recv c.mem c.nbPkts c.dev) calls

/-- A call the interface allows, on a device that respects the protocol. -/
def ValidCall (q : RxQueue) (c : SizedCall) : Prop :=
  c.nbPkts < 2 ^ 16 ∧ DevValid q c.mem c.nbPkts c.dev

/-- What two properties of a valid call have to do with each other they have to do with each
    other along every run. -/
theorem alongCalls_congr {virt2phy : Addr → Addr} {channelId : BitVec 16} {a : SetupAlloc}
    {P Q : RxQueue → SizedCall → Prop}
    (hPQ : ∀ q c, RxReach virt2phy channelId a (fun n => n < 2 ^ 16) q → ValidCall q c →
      (P q c ↔ Q q c))
    {q : RxQueue} (hq : RxReach virt2phy channelId a (fun n => n < 2 ^ 16) q)
    {calls : List SizedCall} (hvalid : AlongCalls ValidCall q calls) :
    AlongCalls P q calls ↔ AlongCalls Q q calls := by
  induction calls generalizing q with
  | nil => rfl
  | cons c calls ih =>
    obtain ⟨hc, hrest⟩ := hvalid
    have hnext : RxReach virt2phy channelId a (fun n => n < 2 ^ 16)
        (q.recv c.mem c.nbPkts c.dev) := .recv c.mem c.nbPkts c.dev hq hc.1 hc.2
    exact and_congr (hPQ q c hq hc) (ih hnext hrest)

/-! ### The entries a call uses -/

/-- The entries of `rx_pkts` a call reads or writes. -/
def RxQueue.newlyTouched (q : RxQueue) (c : SizedCall) : List Nat :=
  (xdmaRecvPkts q.eng c.mem c.nbPkts c.dev).mem.touched.drop c.mem.touched.length

/-- A call uses entries of its own array only. -/
def InBounds (q : RxQueue) (c : SizedCall) : Prop := ∀ j ∈ q.newlyTouched c, j < c.nbPkts

/-- A call that reports anything finds a count below its `nb_pkts`. -/
def CountBelow (q : RxQueue) (c : SizedCall) : Prop :=
  ∀ c', FoundCount (q.enter c.mem c.nbPkts).eng.descUsed c.dev.reads c' →
    (q.enter c.mem c.nbPkts).eng.descUsed < c' → c' < c.nbPkts

/-- Arming reads the entries it posts, all within `nb_pkts`. -/
theorem rxEnter_touched (e : XdmaEngine) (m : RxMem) (nbPkts : Nat) :
    ∃ read, (rxEnter e m nbPkts).2.2 = { m with touched := m.touched ++ read } ∧
      ∀ j ∈ read, j < nbPkts := by
  cases hrun : e.running with
  | true =>
    rw [rxEnter_of_running e m nbPkts hrun]
    exact ⟨[], by simp, by simp⟩
  | false =>
    rw [rxEnter_of_idle e m nbPkts hrun]
    refine ⟨List.range (min nbPkts e.descMax), rfl, fun j hj => ?_⟩
    exact lt_of_lt_of_le (List.mem_range.mp hj) (Nat.min_le_left _ _)

/-- Stamping the slots `u, …, v - 1` uses the entries `u, …, v`. -/
theorem mem_touched_preparePackets {u v j : Nat} :
    j ∈ (List.range (v - u)).flatMap (fun k => [u + k, u + k + 1, u + k])
      ↔ u < v ∧ u ≤ j ∧ j ≤ v := by
  simp only [List.mem_flatMap, List.mem_range, List.mem_cons, List.not_mem_nil, or_false]
  constructor
  · rintro ⟨k, hk, hj⟩
    omega
  · rintro ⟨huv, huj, hjv⟩
    -- The last entry is the one prefetched in the last pass.
    rcases Nat.lt_or_eq_of_le hjv with hlt | rfl
    · exact ⟨j - u, by omega, .inl (by omega)⟩
    · exact ⟨j - u - 1, by omega, .inr (.inl (by omega))⟩

/-- The entries a call uses, by the count it finds. -/
theorem RxInv.mem_newlyTouched {q : RxQueue} {c : SizedCall} (h : RxInv q) (hc : ValidCall q c)
    {c' : Nat} (hfound : FoundCount (q.enter c.mem c.nbPkts).eng.descUsed c.dev.reads c') :
    ∃ read : List Nat, (∀ j ∈ read, j < c.nbPkts) ∧ ∀ j, j ∈ q.newlyTouched c ↔
      j ∈ read ∨ (q.enter c.mem c.nbPkts).eng.descUsed < c' ∧
        (q.enter c.mem c.nbPkts).eng.descUsed ≤ j ∧ j ≤ c' := by
  obtain ⟨hbound, hcons⟩ := h.consumes_found hc.2 hfound
  obtain ⟨read, hread, hlt⟩ := rxEnter_touched q.eng c.mem c.nbPkts
  have hposted := (h.enter c.mem c.nbPkts).posted
  have hused := (h.enter c.mem c.nbPkts).used
  have hmax : (q.enter c.mem c.nbPkts).eng.descMax = 32 := h.enter_descMax
  -- The 16-bit arguments of `prepare_packets` lose nothing.
  have hc16 : c' % 2 ^ 16 = c' := by omega
  have hu16 : (q.enter c.mem c.nbPkts).eng.descUsed % 2 ^ 16
      = (q.enter c.mem c.nbPkts).eng.descUsed := by omega
  refine ⟨read, hlt, fun j => ?_⟩
  unfold RxQueue.newlyTouched
  rw [hcons.mem, hc16, hu16, hread, preparePackets_eq]
  show j ∈ List.drop _ (c.mem.touched ++ read ++ _) ↔ _
  rw [List.append_assoc, List.drop_left, List.mem_append, mem_touched_preparePackets]

/-- **Call lemma.** -/
theorem RxInv.inBounds_iff_below {q : RxQueue} {c : SizedCall} (h : RxInv q) (hc : ValidCall q c) :
    InBounds q c ↔ CountBelow q c := by
  constructor
  · intro hin c' hfound hlt
    obtain ⟨read, -, hmem⟩ := h.mem_newlyTouched hc hfound
    exact hin c' ((hmem c').mpr (.inr ⟨hlt, Nat.le_of_lt hlt, Nat.le_refl c'⟩))
  · intro hbelow j hj
    have hfound := foundCount_rxEnd (q.enter c.mem c.nbPkts).eng.descUsed c.dev.reads
    obtain ⟨read, hlt, hmem⟩ := h.mem_newlyTouched hc hfound
    rcases (hmem j).mp hj with hread | ⟨huv, -, hjv⟩
    · exact hlt j hread
    · exact lt_of_le_of_lt hjv (hbelow _ hfound huv)

/-- **Bounds.** Along every run of calls, each with an array of exactly its own `nb_pkts`
    entries, and for every schedule of completions: no entry outside is used exactly when
    each call that reports anything finds a count below its `nb_pkts`. -/
theorem inBounds_iff (virt2phy : Addr → Addr) (channelId : BitVec 16) (a : SetupAlloc)
    (q : RxQueue) (hq : RxReach virt2phy channelId a (fun n => n < 2 ^ 16) q)
    (calls : List SizedCall) (hvalid : AlongCalls ValidCall q calls) :
    AlongCalls InBounds q calls ↔ AlongCalls CountBelow q calls :=
  alongCalls_congr (fun _ _ hq hc => hq.inv.inBounds_iff_below hc) hq hvalid

/-- A call for `n` packets that finds `v` completed. -/
def constCall (n v : Nat) : SizedCall := ⟨plainMem, n, RxDevice.const v⟩

theorem validCall_constCall {q : RxQueue} {n v : Nat} (hn : n < 2 ^ 16)
    (hlo : q.eng.completedDescCount ≤ v) (hv : v ≤ (q.enter plainMem n).posted.length) :
    ValidCall q (constCall n v) := ⟨hn, devValid_const hlo hv⟩

/-- Such a call finds a count below its `n` when `v` is. -/
theorem countBelow_constCall {q : RxQueue} {n v : Nat} (hv : v < n) :
    CountBelow q (constCall n v) := by
  intro c' hfound _
  obtain rfl := hfound.unique (foundCount_const _ v)
  exact hv

/-- A call for 32 packets arms the ring, and calls for 16 and for 12 go on with it. -/
theorem inBounds_three :
    AlongCalls InBounds freshRx [constCall 32 5, constCall 16 9, constCall 12 11] := by
  refine (inBounds_iff id 0 SetupAlloc.pages freshRx RxReach.setup _ ?_).mpr ?_
  · exact ⟨validCall_constCall (by decide) (by decide) (by decide),
      validCall_constCall (by decide) (by decide) (by decide),
      validCall_constCall (by decide) (by decide) (by decide), trivial⟩
  · exact ⟨countBelow_constCall (by decide), countBelow_constCall (by decide),
      countBelow_constCall (by decide), trivial⟩

/-- A first call that finds all 32 completions reads entry 32 of its array. -/
theorem inBounds_fails :
    ¬ ∀ (virt2phy : Addr → Addr) (channelId : BitVec 16) (a : SetupAlloc) (q : RxQueue),
      RxReach virt2phy channelId a (fun n => n < 2 ^ 16) q →
      ∀ calls, AlongCalls ValidCall q calls → AlongCalls InBounds q calls := by
  intro h
  have hreach : RxReach id 0 SetupAlloc.pages (fun n => n < 2 ^ 16) freshRx := RxReach.setup
  have hvalid : ValidCall freshRx (constCall 32 32) :=
    validCall_constCall (by decide) (by decide) (by decide)
  have hin := (h id 0 SetupAlloc.pages freshRx hreach [constCall 32 32] ⟨hvalid, trivial⟩).1
  have hbelow := (hreach.inv.inBounds_iff_below hvalid).mp hin 32 (foundCount_const _ 32)
  exact absurd (hbelow (by decide)) (by decide)

end XdmaDpdk
