import Mathlib.Data.List.Iterate
import XdmaDpdk.History

namespace XdmaDpdk

/-!
# XDMA driver — the descriptor indices a burst forms

Every index the burst paths form into `desc_ring`, read off the same loops as the bursts
themselves:

* `xmitTaken`, `recvTaken` — the indices `get_desc` hands out, in order;
* `xmitFormed` — the indices `xdma_xmit_pkts` forms on its own: `id`, the terminator and
  those of the adjacency loop.

All of them are below `desc_max` when `desc_used` is (`xmitTaken_lt`, `xmitFormed_lt`,
`recvTaken_lt`), and a burst that starts at index 0 takes the first descriptors in order, each
of them once (`xmitTaken_eq_range`).
-/

/-! ### The traces -/

/-- The indices handed out by the segment loop of `xdma_h2c_desc_set`. -/
def h2cSegIndices (heap : Heap) : Nat → Option MbufPtr → XdmaEngine → List Nat
  | 0, _, _ => []
  | _ + 1, none, _ => []
  | nsegs + 1, some mb, e =>
    (getDesc e).1 :: h2cSegIndices heap nsegs (heap mb).next (stageSeg e (heap mb, nsegs == 0))

/-- The indices handed out by the loop over `tx_pkts`. -/
def xmitLoopTaken (heap : Heap) : List MbufPtr → Nat → XdmaEngine → List Nat
  | [], _, _ => []
  | mb :: rest, avail, e =>
    let nsegs := (heap mb).nbSegs
    if nsegs > avail then []
    else
      h2cSegIndices heap nsegs (some mb) e
        ++ xmitLoopTaken heap rest (avail - nsegs) (xdmaH2cDescSet heap e mb)

/-- The values `id = engine->desc_used` takes in that loop. -/
def xmitLoopIds (heap : Heap) : List MbufPtr → Nat → XdmaEngine → List Nat
  | [], _, _ => []
  | mb :: rest, avail, e =>
    let nsegs := (heap mb).nbSegs
    if nsegs > avail then []
    else e.descUsed :: xmitLoopIds heap rest (avail - nsegs) (xdmaH2cDescSet heap e mb)

/-- The indices `get_desc` hands out to a transmit burst. -/
def xmitTaken (e : XdmaEngine) (b : TxBurst) : List Nat :=
  if e.running then []
  else xmitLoopTaken b.heap b.txPkts e.descMax { e with running := true }

/-- The indices `xdma_xmit_pkts` forms itself. -/
def xmitFormed (e : XdmaEngine) (b : TxBurst) : List Nat :=
  if e.running then []
  else
    let e := { e with running := true }
    let (staged, e') := xmitLoop b.heap b.txPkts e.descMax e
    e.descUsed :: xmitLoopIds b.heap b.txPkts e.descMax e ++
      e'.descUsed :: (List.range (staged.length - 1)).map (fun i => (0 + i) % e'.descMax)

/-- The indices handed out while the entries `l` of the array are posted. -/
def rxPostIndices (mb : Nat → RteMbuf) : List Nat → XdmaEngine → List Nat
  | [], _ => []
  | i :: l, e => (getDesc e).1 :: rxPostIndices mb l (xdmaC2hDescSet e (mb i))

/-- The indices `get_desc` hands out to a receive call. -/
def recvTaken (e : XdmaEngine) (m : RxMem) (nbPkts : Nat) : List Nat :=
  if e.running then []
  else rxPostIndices (fun i => m.heap (m.arr i)) (List.range (min nbPkts e.descMax)) e.clearStatus

/-! ### Bounds -/

/-- `desc_used` stays below the ring size, whichever descriptor is taken. -/
theorem takeDesc_descUsed_lt (e : XdmaEngine) (fill : XdmaDesc → XdmaDesc)
    (h : e.descUsed < e.descMax) : (takeDesc e fill).descUsed < (takeDesc e fill).descMax := by
  show (e.descUsed + 1) % e.descMax < e.descMax
  exact Nat.mod_lt _ (Nat.zero_lt_of_lt h)

section
variable (heap : Heap)

theorem h2cSegLoop_descUsed_lt (n : Nat) (p : Option MbufPtr) (e : XdmaEngine)
    (h : e.descUsed < e.descMax) :
    (h2cSegLoop heap n p e).descUsed < (h2cSegLoop heap n p e).descMax := by
  induction n generalizing p e with
  | zero => exact h
  | succ n ih =>
    cases p with
    | none => exact h
    | some mb => exact ih _ _ (takeDesc_descUsed_lt e _ h)

theorem h2cSegIndices_lt (n : Nat) (p : Option MbufPtr) (e : XdmaEngine)
    (h : e.descUsed < e.descMax) : ∀ i ∈ h2cSegIndices heap n p e, i < e.descMax := by
  induction n generalizing p e with
  | zero => intro i hi; cases hi
  | succ n ih =>
    cases p with
    | none => intro i hi; cases hi
    | some mb =>
      intro i hi
      rcases List.mem_cons.mp hi with rfl | hi
      · exact h
      · exact ih _ (stageSeg e (heap mb, n == 0)) (takeDesc_descUsed_lt e _ h) i hi

/-- What the loop over `tx_pkts` keeps, one packet further on. -/
theorem xdmaH2cDescSet_descUsed_lt (e : XdmaEngine) (mb : MbufPtr) (h : e.descUsed < e.descMax) :
    (xdmaH2cDescSet heap e mb).descUsed < (xdmaH2cDescSet heap e mb).descMax :=
  h2cSegLoop_descUsed_lt heap _ _ e h

theorem descMax_xdmaH2cDescSet (e : XdmaEngine) (mb : MbufPtr) :
    (xdmaH2cDescSet heap e mb).descMax = e.descMax := by
  unfold xdmaH2cDescSet
  rw [h2cSegLoop_eq]
  exact (frame_foldl stageSeg (fun e w => frame_takeDesc e _ (nextAddr_fillH2cDesc w.1 w.2)) _
    e).descMax

variable (pkts : List MbufPtr) (avail : Nat) (e : XdmaEngine) (h : e.descUsed < e.descMax)
include h

theorem xmitLoop_descUsed_lt :
    (xmitLoop heap pkts avail e).2.descUsed < (xmitLoop heap pkts avail e).2.descMax := by
  induction pkts generalizing avail e with
  | nil => exact h
  | cons mb rest ih =>
    simp only [xmitLoop]
    split
    · exact h
    · exact ih _ _ (xdmaH2cDescSet_descUsed_lt heap e mb h)

theorem xmitLoopTaken_lt : ∀ i ∈ xmitLoopTaken heap pkts avail e, i < e.descMax := by
  induction pkts generalizing avail e with
  | nil => intro i hi; cases hi
  | cons mb rest ih =>
    intro i hi
    simp only [xmitLoopTaken] at hi
    split at hi
    · cases hi
    · rcases List.mem_append.mp hi with hi | hi
      · exact h2cSegIndices_lt heap _ _ e h i hi
      · have hrest := ih _ _ (xdmaH2cDescSet_descUsed_lt heap e mb h) i hi
        rwa [descMax_xdmaH2cDescSet] at hrest

theorem xmitLoopIds_lt : ∀ i ∈ xmitLoopIds heap pkts avail e, i < e.descMax := by
  induction pkts generalizing avail e with
  | nil => intro i hi; cases hi
  | cons mb rest ih =>
    intro i hi
    simp only [xmitLoopIds] at hi
    split at hi
    · cases hi
    · rcases List.mem_cons.mp hi with rfl | hi
      · exact h
      · have hrest := ih _ _ (xdmaH2cDescSet_descUsed_lt heap e mb h) i hi
        rwa [descMax_xdmaH2cDescSet] at hrest

end

section
variable (e : XdmaEngine) (h : e.running = false → e.descUsed < e.descMax)
include h

theorem xmitTaken_lt (b : TxBurst) : ∀ i ∈ xmitTaken e b, i < e.descMax := by
  cases hrun : e.running with
  | true =>
    intro i hi
    simp [xmitTaken, hrun] at hi
  | false =>
    simp only [xmitTaken, hrun, Bool.false_eq_true, if_false]
    exact xmitLoopTaken_lt b.heap b.txPkts e.descMax { e with running := true } (h hrun)

theorem xmitFormed_lt (b : TxBurst) : ∀ i ∈ xmitFormed e b, i < e.descMax := by
  cases hrun : e.running with
  | true =>
    intro i hi
    simp [xmitFormed, hrun] at hi
  | false =>
    have hlt := h hrun
    have hmax : (xmitLoop b.heap b.txPkts e.descMax { e with running := true }).2.descMax
        = e.descMax := (frame_xmitLoop b.heap b.txPkts e.descMax { e with running := true }).descMax
    have hlast := xmitLoop_descUsed_lt b.heap b.txPkts e.descMax { e with running := true } hlt
    rw [hmax] at hlast
    intro i hi
    simp only [xmitFormed, hrun, Bool.false_eq_true, if_false, List.cons_append, List.mem_cons,
      List.mem_append, List.mem_map, hmax] at hi
    -- The first, those of the loop, the last, and those of the adjacency loop.
    rcases hi with rfl | hi | rfl | ⟨k, -, rfl⟩
    · exact hlt
    · exact xmitLoopIds_lt b.heap b.txPkts e.descMax { e with running := true } hlt i hi
    · exact hlast
    · exact Nat.mod_lt _ (Nat.zero_lt_of_lt hlt)

theorem recvTaken_lt (m : RxMem) (nbPkts : Nat) : ∀ i ∈ recvTaken e m nbPkts, i < e.descMax := by
  -- Posting entry after entry keeps the index in the ring.
  have hpost : ∀ (mb : Nat → RteMbuf) (l : List Nat) (e : XdmaEngine), e.descUsed < e.descMax →
      ∀ i ∈ rxPostIndices mb l e, i < e.descMax := by
    intro mb l
    induction l with
    | nil => intro e _ i hi; cases hi
    | cons k l ih =>
      intro e hlt i hi
      rcases List.mem_cons.mp hi with rfl | hi
      · exact hlt
      · exact ih _ (takeDesc_descUsed_lt e _ hlt) i hi
  cases hrun : e.running with
  | true =>
    intro i hi
    simp [recvTaken, hrun] at hi
  | false =>
    simp only [recvTaken, hrun, Bool.false_eq_true, if_false]
    exact hpost _ _ e.clearStatus (h hrun)

end

/-! ### The indices of an idle burst -/

/-- The index after `id`, as `get_desc` computes it. -/
def nextId (descMax id : Nat) : Nat := (id + 1) % descMax

theorem h2cSegIndices_eq (heap : Heap) (n : Nat) (p : Option MbufPtr) (e : XdmaEngine) :
    h2cSegIndices heap n p e
      = List.iterate (nextId e.descMax) e.descUsed (segWrites heap n p).length := by
  induction n generalizing p e with
  | zero => rfl
  | succ n ih =>
    cases p with
    | none => rfl
    | some mb =>
      rw [h2cSegIndices, ih, segWrites, List.length_cons, List.iterate]
      rfl

theorem descUsed_foldl_stageSeg (ws : List (RteMbuf × Bool)) (e : XdmaEngine) :
    (ws.foldl stageSeg e).descUsed = (nextId e.descMax)^[ws.length] e.descUsed := by
  induction ws generalizing e with
  | nil => rfl
  | cons w ws ih =>
    rw [List.foldl_cons, ih, List.length_cons, Function.iterate_succ_apply]
    rfl

/-- The indices of a burst follow each other, packet after packet. -/
theorem xmitLoopTaken_eq (heap : Heap) (pkts : List MbufPtr) (avail : Nat) (e : XdmaEngine) :
    xmitLoopTaken heap pkts avail e
      = List.iterate (nextId e.descMax) e.descUsed
          ((accepted heap pkts avail).flatMap (pktWrites heap)).length := by
  induction pkts generalizing avail e with
  | nil => rfl
  | cons mb rest ih =>
    simp only [xmitLoopTaken, accepted]
    split
    · rfl
    · -- The next packet starts where this one ends.
      have hused : (xdmaH2cDescSet heap e mb).descUsed
          = (nextId e.descMax)^[(pktWrites heap mb).length] e.descUsed := by
        unfold xdmaH2cDescSet
        rw [h2cSegLoop_eq, descUsed_foldl_stageSeg]
        rfl
      rw [ih, h2cSegIndices_eq, descMax_xdmaH2cDescSet, hused, List.flatMap_cons,
        List.length_append, List.iterate_add]
      rfl

/-- Up to the end of the ring, the indices from 0 on are consecutive. -/
theorem iterate_nextId_zero (descMax n : Nat) (hn : n ≤ descMax) :
    List.iterate (nextId descMax) 0 n = List.range n := by
  -- The index does not wrap before the ring is used up.
  have hstep : ∀ i < descMax, (nextId descMax)^[i] 0 = i := by
    intro i
    induction i with
    | zero => intro _; rfl
    | succ i ih =>
      intro hi
      rw [Function.iterate_succ_apply', ih (Nat.lt_of_succ_lt hi)]
      exact Nat.mod_eq_of_lt hi
  apply List.ext_getElem
  · rw [List.length_iterate, List.length_range]
  · intro i h₁ h₂
    rw [List.length_range] at h₂
    rw [List.getElem_iterate, List.getElem_range]
    exact hstep i (by omega)

/-- **Indices.** A burst on an idle ring takes its descriptors in order from 0 on, each once. -/
theorem xmitTaken_eq_range (e : XdmaEngine) (b : TxBurst) (hrun : e.running = false)
    (hused : e.descUsed = 0) : xmitTaken e b = List.range (b.writes e.descMax).length := by
  simp only [xmitTaken, hrun, Bool.false_eq_true, if_false, xmitLoopTaken_eq, hused]
  exact iterate_nextId_zero e.descMax _ (b.length_writes_le e.descMax)

end XdmaDpdk
