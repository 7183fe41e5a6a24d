import XdmaDpdk.Engine

namespace XdmaDpdk

open ArrayLoop

/-!
# XDMA driver — the transmit burst

`xdmaXmitPkts` follows `xdma_xmit_pkts` in `xdma_rxtx.c`: accept packets while their
segments fit (`xmitLoop`), write one descriptor per segment (`xdmaH2cDescSet`), flag the
descriptor after the last one, fill in the adjacency fields, start the channel and wait for
the poll-mode word.

`xdmaXmitPkts_cases` lists the ways out of the function.  The specification side is the list
of descriptor writes a burst asks for, read off its packets alone:

* `accepted` — the packets whose segments fit, and `TxBurst.writes` — their segments in
  order, each with the flag "last of its packet";
* `xmitStage_eq` — the engine just before the channel is started, with `stagedRing` as its
  ring, and the lemmas `stagedRing_stopped`, `stagedRing_completed`, `stagedRing_len`,
  `stagedRing_nextAddr` that read the fields of a staged descriptor.
-/

/-! ### The burst and its arguments -/

/-- The arguments of one burst call: the array `tx_pkts`, whose length is the `uint16_t`
    `nb_pkts`, and the mbufs its pointers lead to. -/
structure TxBurst where
  heap : Heap
  txPkts : List MbufPtr
  nbPktsLt : txPkts.length < 2 ^ 16

/-- `nb_pkts`. -/
def TxBurst.nbPkts (b : TxBurst) : Nat := b.txPkts.length

/-! ### Staging descriptors -/

/-- The stores `xdma_h2c_desc_set` makes to one descriptor; `last` is `!nsegs` after the
    decrement. -/
def fillH2cDesc (mb : RteMbuf) (last : Bool) (desc : XdmaDesc) : XdmaDesc :=
  let srcAddr := mb.dataIova
  let desc := { desc with
    len := mb.dataLen.setWidth 32
    srcAddrLo := lo32 srcAddr
    srcAddrHi := hi32 srcAddr }
  if last then xdmaDescControlSet desc (xdmaDescEop ||| xdmaDescCompleted) else desc

/-- One pass of the segment loop: take a descriptor and fill it. -/
def stageSeg (e : XdmaEngine) (w : RteMbuf × Bool) : XdmaEngine :=
  takeDesc e (fillH2cDesc w.1 w.2)

/-- `while (nsegs && mb)`. -/
def h2cSegLoop (heap : Heap) : Nat → Option MbufPtr → XdmaEngine → XdmaEngine
  | 0, _, e => e
  | _ + 1, none, e => e
  | nsegs + 1, some mb, e =>
    h2cSegLoop heap nsegs (heap mb).next (stageSeg e (heap mb, nsegs == 0))

def xdmaH2cDescSet (heap : Heap) (e : XdmaEngine) (mb : MbufPtr) : XdmaEngine :=
  h2cSegLoop heap (heap mb).nbSegs (some mb) e

/-- The loop over `tx_pkts`; returns the packets staged (their number is `count`). -/
def xmitLoop (heap : Heap) : List MbufPtr → Nat → XdmaEngine → List MbufPtr × XdmaEngine
  | [], _, e => ([], e)
  | mb :: rest, avail, e =>
    let nsegs := (heap mb).nbSegs
    if nsegs > avail then ([], e)
    else
      let (staged, e) := xmitLoop heap rest (avail - nsegs) (xdmaH2cDescSet heap e mb)
      (mb :: staged, e)

/-- `for (i = 0; i < count - 1; i++)` over the adjacency fields, from `head = 0`. -/
def xmitAdjacent (e : XdmaEngine) (count : Nat) : XdmaEngine :=
  let ring := forEach (count - 1) (fun i => (0 + i) % e.descMax)
    (fun i d => xdmaDescAdjacentSet d (BitVec.ofNat 32 (count - 2 - i))) e.descRing
  { e with descRing := ring }

/-- The burst up to the call of `xdma_tx_engine_start`. -/
def xmitStage (e : XdmaEngine) (b : TxBurst) : List MbufPtr × XdmaEngine :=
  let e := { e with running := true }
  let (staged, e) := xmitLoop b.heap b.txPkts e.descMax e
  let last := xdmaDescControlSet (e.descRing e.descUsed) (xdmaDescCompleted ||| xdmaDescStopped)
  let e := e.setDesc e.descUsed last
  (staged, xmitAdjacent e staged.length)

/-- The burst up to its wait loop. -/
def xmitStart (e : XdmaEngine) (b : TxBurst) : List MbufPtr × XdmaEngine :=
  let (staged, e) := xmitStage e b
  (staged, xdmaTxEngineStart e (e.descAddr 0) ((staged.length : Int) - 2))

theorem xmitStart_engine (e : XdmaEngine) (b : TxBurst) :
    (xmitStart e b).2
      = xdmaTxEngineStart (xmitStage e b).2 ((xmitStage e b).2.descAddr 0)
          (((xmitStage e b).1.length : Int) - 2) := rfl

/-- `(wb_status->completed_desc_count & 0xFFFFFF) == nb_pkts`. -/
def txExitTest (word nbPkts : Nat) : Bool := word % 2 ^ 24 == nbPkts

/-- The wait loop on the successive reads of the poll-mode word; `false` when it is still
    waiting after the last of them. -/
def txWaitLoop (nbPkts : Nat) : List Nat → Bool
  | [] => false
  | word :: reads => if txExitTest word nbPkts then true else txWaitLoop nbPkts reads

/-- What a burst call leaves: its `uint16_t` result, the engine, and the packets whose
    segments it staged and handed to the device. -/
structure XmitResult where
  ret : Nat
  engine : XdmaEngine
  staged : List MbufPtr

/-- `xdma_xmit_pkts`, given the values its wait loop reads; `none` when the loop does not
    end within them. -/
def xdmaXmitPkts (e : XdmaEngine) (b : TxBurst) (reads : List Nat) : Option XmitResult :=
  if e.running then
    -- `return -1` through `uint16_t`
    some { ret := 2 ^ 16 - 1, engine := e, staged := [] }
  else
    let (staged, e) := xmitStart e b
    if txWaitLoop b.nbPkts reads then
      some { ret := b.nbPkts, engine := xdmaTxEngineStop e, staged := staged }
    else none

/-! ### The three ways out -/

theorem xdmaXmitPkts_of_running {e : XdmaEngine} (b : TxBurst) (reads : List Nat)
    (hrun : e.running = true) :
    xdmaXmitPkts e b reads = some { ret := 2 ^ 16 - 1, engine := e, staged := [] } := by
  simp only [xdmaXmitPkts, hrun, if_true]

theorem xdmaXmitPkts_of_idle {e : XdmaEngine} (b : TxBurst) (reads : List Nat)
    (hrun : e.running = false) :
    xdmaXmitPkts e b reads
      = if txWaitLoop b.nbPkts reads then
          some { ret := b.nbPkts
                 engine := xdmaTxEngineStop (xmitStart e b).2
                 staged := (xmitStart e b).1 }
        else none := by
  simp only [xdmaXmitPkts, hrun, Bool.false_eq_true, if_false]

/-- **Inversion.** A returning burst found the engine busy and staged nothing, or staged the
    packets that fit, saw the exit test true, stopped the engine and returned `nb_pkts`. -/
theorem xdmaXmitPkts_cases {e : XdmaEngine} {b : TxBurst} {reads : List Nat} {out : XmitResult}
    (h : xdmaXmitPkts e b reads = some out) :
    (e.running = true ∧ out = { ret := 2 ^ 16 - 1, engine := e, staged := [] }) ∨
      (e.running = false ∧ txWaitLoop b.nbPkts reads = true ∧
        out = { ret := b.nbPkts
                engine := xdmaTxEngineStop (xmitStart e b).2
                staged := (xmitStart e b).1 }) := by
  cases hrun : e.running with
  | true =>
    rw [xdmaXmitPkts_of_running b reads hrun] at h
    exact .inl ⟨rfl, (Option.some.inj h).symm⟩
  | false =>
    rw [xdmaXmitPkts_of_idle b reads hrun] at h
    cases hwait : txWaitLoop b.nbPkts reads with
    | false =>
      -- Still waiting: the call has not returned.
      simp [hwait] at h
    | true =>
      rw [hwait, if_pos rfl] at h
      exact .inr ⟨rfl, rfl, (Option.some.inj h).symm⟩

/-! ### What a burst stages -/

/-- The descriptor writes of a chain: its first `nsegs` segments, the last one flagged. -/
def segWrites (heap : Heap) : Nat → Option MbufPtr → List (RteMbuf × Bool)
  | 0, _ => []
  | _ + 1, none => []
  | nsegs + 1, some mb => (heap mb, nsegs == 0) :: segWrites heap nsegs (heap mb).next

/-- The descriptor writes of a packet. -/
def pktWrites (heap : Heap) (mb : MbufPtr) : List (RteMbuf × Bool) :=
  segWrites heap (heap mb).nbSegs (some mb)

/-- The longest prefix of packets whose segment counts fit in `avail` descriptors. -/
def accepted (heap : Heap) : List MbufPtr → Nat → List MbufPtr
  | [], _ => []
  | mb :: rest, avail =>
    if (heap mb).nbSegs > avail then [] else mb :: accepted heap rest (avail - (heap mb).nbSegs)

/-- The descriptor writes of a burst on a ring of `descMax` descriptors. -/
def TxBurst.writes (b : TxBurst) (descMax : Nat) : List (RteMbuf × Bool) :=
  (accepted b.heap b.txPkts descMax).flatMap (pktWrites b.heap)

theorem length_segWrites_le (heap : Heap) (n : Nat) (p : Option MbufPtr) :
    (segWrites heap n p).length ≤ n := by
  induction n generalizing p with
  | zero => simp [segWrites]
  | succ n ih =>
    cases p with
    | none => simp [segWrites]
    | some mb =>
      have hrest := ih (heap mb).next
      simp only [segWrites, List.length_cons]
      omega

/-- The accepted packets' segments fit in the ring. -/
theorem length_flatMap_accepted_le (heap : Heap) (pkts : List MbufPtr) (avail : Nat) :
    ((accepted heap pkts avail).flatMap (pktWrites heap)).length ≤ avail := by
  induction pkts generalizing avail with
  | nil => simp [accepted]
  | cons mb rest ih =>
    simp only [accepted]
    split
    · -- The packet does not fit and ends the burst.
      simp
    · rename_i hfit
      have hseg : (pktWrites heap mb).length ≤ (heap mb).nbSegs := length_segWrites_le _ _ _
      have hrest := ih (avail - (heap mb).nbSegs)
      rw [List.flatMap_cons, List.length_append]
      omega

theorem TxBurst.length_writes_le (b : TxBurst) (descMax : Nat) :
    (b.writes descMax).length ≤ descMax :=
  length_flatMap_accepted_le _ _ _

/-- Everything is accepted exactly when the segment counts sum to at most `avail`. -/
theorem accepted_eq_self_iff (heap : Heap) (pkts : List MbufPtr) (avail : Nat) :
    accepted heap pkts avail = pkts ↔ (pkts.map (fun mb => (heap mb).nbSegs)).sum ≤ avail := by
  induction pkts generalizing avail with
  | nil => simp [accepted]
  | cons mb rest ih =>
    simp only [accepted, List.map_cons, List.sum_cons]
    split
    · -- A packet that does not fit alone does not fit with others.
      rename_i hbig
      constructor
      · intro h
        exact absurd h (by simp)
      · intro h
        omega
    · rename_i hfit
      rw [List.cons.injEq, ih]
      constructor
      · rintro ⟨-, h⟩
        omega
      · intro h
        exact ⟨rfl, by omega⟩

/-! ### Bursts of one-segment packets -/

/-- An mbuf of one 64-byte segment. -/
def plainMbuf : RteMbuf where
  bufAddr := 0
  bufIova := 0
  dataOff := 128
  nbSegs := 1
  pktLen := 64
  dataLen := 64
  next := none
  packetType := 0
  olFlags := 0
  port := 0
  vlanTci := 0
  rss := 0

/-- A burst of `n` one-segment packets. -/
def TxBurst.plain (n : Nat) (hn : n < 2 ^ 16) : TxBurst where
  heap := fun _ => plainMbuf
  txPkts := List.replicate n 0
  nbPktsLt := by rwa [List.length_replicate]

/-- A burst of three packets, of two, one and three segments. -/
def TxBurst.segmented : TxBurst where
  heap p := match p with
    | 0 => { plainMbuf with nbSegs := 2, next := some 1 }
    | 3 => { plainMbuf with nbSegs := 3, next := some 4 }
    | 4 => { plainMbuf with next := some 5 }
    | _ => plainMbuf
  txPkts := [0, 2, 3]
  nbPktsLt := by decide

theorem accepted_plain (n avail : Nat) :
    accepted (fun _ => plainMbuf) (List.replicate n 0) avail
      = List.replicate (min n avail) 0 := by
  induction n generalizing avail with
  | zero => simp [accepted]
  | succ n ih =>
    rw [List.replicate_succ, accepted]
    by_cases hzero : avail = 0
    · subst hzero
      rw [if_pos (by decide), Nat.min_zero, List.replicate_zero]
    · have hfit : ¬ plainMbuf.nbSegs > avail := by
        simp only [plainMbuf]
        omega
      rw [if_neg hfit, ih, ← List.replicate_succ]
      congr 1
      simp only [plainMbuf]
      omega

/-- One descriptor a packet, while descriptors last. -/
theorem writes_plain (n : Nat) (hn : n < 2 ^ 16) (descMax : Nat) :
    (TxBurst.plain n hn).writes descMax = List.replicate (min n descMax) (plainMbuf, true) := by
  have hpkt : pktWrites (fun _ => plainMbuf) 0 = [(plainMbuf, true)] := rfl
  unfold TxBurst.writes TxBurst.plain
  rw [accepted_plain, List.flatMap_replicate, hpkt, List.flatten_replicate_singleton]

/-! ### The loops as folds over the writes -/

theorem h2cSegLoop_eq (heap : Heap) (n : Nat) (p : Option MbufPtr) (e : XdmaEngine) :
    h2cSegLoop heap n p e = (segWrites heap n p).foldl stageSeg e := by
  induction n generalizing p e with
  | zero => rfl
  | succ n ih =>
    cases p with
    | none => rfl
    | some mb => exact ih (heap mb).next (stageSeg e (heap mb, n == 0))

theorem xmitLoop_eq (heap : Heap) (pkts : List MbufPtr) (avail : Nat) (e : XdmaEngine) :
    xmitLoop heap pkts avail e
      = (accepted heap pkts avail,
          ((accepted heap pkts avail).flatMap (pktWrites heap)).foldl stageSeg e) := by
  induction pkts generalizing avail e with
  | nil => rfl
  | cons mb rest ih =>
    simp only [xmitLoop, accepted]
    split
    · rfl
    · rw [ih, List.flatMap_cons, List.foldl_append, xdmaH2cDescSet, h2cSegLoop_eq]
      rfl

/-! ### The staged ring -/

/-- The ring as a burst of the writes `ws` and `count` packets leaves it. -/
def stagedRing (descMax : Nat) (ws : List (RteMbuf × Bool)) (count : Nat)
    (ring : Nat → XdmaDesc) : Nat → XdmaDesc :=
  let ring := writeFrom 0 (ws.map (fun w => fillH2cDesc w.1 w.2)) ring
  let last := ws.length % descMax
  let ring := Function.update ring last
    (xdmaDescControlSet (ring last) (xdmaDescCompleted ||| xdmaDescStopped))
  forEach (count - 1) (fun i => (0 + i) % descMax)
    (fun i d => xdmaDescAdjacentSet d (BitVec.ofNat 32 (count - 2 - i))) ring

/-- The engine when `xdma_tx_engine_start` is called. -/
theorem xmitStage_eq (e : XdmaEngine) (b : TxBurst) (hused : e.descUsed = 0)
    (hmax : 0 < e.descMax) :
    xmitStage e b
      = (accepted b.heap b.txPkts e.descMax,
          { e with
            running := true
            descRing := stagedRing e.descMax (b.writes e.descMax)
              (accepted b.heap b.txPkts e.descMax).length e.descRing
            descUsed := (b.writes e.descMax).length % e.descMax }) := by
  have hlen := b.length_writes_le e.descMax
  -- The packets' segments, one after the other from descriptor 0 on.
  have hfold := foldl_takeDesc ((b.writes e.descMax).map (fun w => fillH2cDesc w.1 w.2))
    { e with running := true } (by simpa only [hused] using hmax)
    (by simpa only [hused, Nat.zero_add, List.length_map] using hlen)
  rw [List.foldl_map] at hfold
  simp only [hused, Nat.zero_add, List.length_map] at hfold
  simp only [xmitStage, xmitLoop_eq, hused]
  rw [show (accepted b.heap b.txPkts e.descMax).flatMap (pktWrites b.heap) = b.writes e.descMax
    from rfl, show stageSeg = fun e w => takeDesc e (fillH2cDesc w.1 w.2) from rfl, hfold]
  rfl

section
variable (descMax : Nat) (ws : List (RteMbuf × Bool)) (count : Nat) (ring : Nat → XdmaDesc)

/-- A field the adjacency loop does not touch, before the terminator flags are set. -/
theorem stagedRing_proj {α : Type} (φ : XdmaDesc → α)
    (hφ : ∀ d n, φ (xdmaDescAdjacentSet d n) = φ d) (j : Nat) :
    φ (stagedRing descMax ws count ring j)
      = φ (let d := match ws[j]? with
              | some w => fillH2cDesc w.1 w.2 (ring j)
              | none => ring j
            if j = ws.length % descMax then
              xdmaDescControlSet d (xdmaDescCompleted ||| xdmaDescStopped)
            else d) := by
  have hwrite : ∀ k, writeFrom 0 (ws.map (fun w => fillH2cDesc w.1 w.2)) ring k
      = match ws[k]? with
        | some w => fillH2cDesc w.1 w.2 (ring k)
        | none => ring k := by
    intro k
    simp only [writeFrom, Nat.zero_le, if_true, Nat.sub_zero, List.getElem?_map]
    cases ws[k]? <;> rfl
  unfold stagedRing
  rw [forEach_proj φ _ _ _ _ (fun i x => hφ x _)]
  by_cases hj : j = ws.length % descMax
  · -- The terminator flags come on top of what a write left here.
    rw [if_pos hj, hj, Function.update_self, hwrite]
  · rw [if_neg hj, Function.update_of_ne hj, hwrite]

theorem stopped_fillH2cDesc (mb : RteMbuf) (last : Bool) (d : XdmaDesc) :
    (fillH2cDesc mb last d).stopped = d.stopped := by
  cases last <;>
    simp [fillH2cDesc, XdmaDesc.stopped, xdmaDescControlSet, xdmaDescEop, xdmaDescCompleted]

theorem completed_fillH2cDesc (mb : RteMbuf) (last : Bool) (d : XdmaDesc) :
    (fillH2cDesc mb last d).completed = (d.completed || last) := by
  cases last <;>
    simp [fillH2cDesc, XdmaDesc.completed, xdmaDescControlSet, xdmaDescEop, xdmaDescCompleted]

theorem nextAddr_fillH2cDesc (mb : RteMbuf) (last : Bool) (d : XdmaDesc) :
    (fillH2cDesc mb last d).nextAddr = d.nextAddr := by
  cases last <;> rfl

/-- `STOPPED` is set at the descriptor after the last staged one, modulo the ring. -/
theorem stagedRing_stopped (j : Nat) :
    (stagedRing descMax ws count ring j).stopped
      = ((ring j).stopped || decide (j = ws.length % descMax)) := by
  rw [stagedRing_proj descMax ws count ring XdmaDesc.stopped stopped_adjacentSet]
  cases hw : ws[j]? <;> by_cases hj : j = ws.length % descMax <;>
    simp [hj, stopped_fillH2cDesc, xdmaDescCompleted, xdmaDescStopped]

/-- `COMPLETED` is set on the last segment of each packet and on the terminator. -/
theorem stagedRing_completed (j : Nat) :
    (stagedRing descMax ws count ring j).completed
      = ((ring j).completed || (ws[j]?.map Prod.snd).getD false
          || decide (j = ws.length % descMax)) := by
  rw [stagedRing_proj descMax ws count ring XdmaDesc.completed completed_adjacentSet]
  cases hw : ws[j]? <;> by_cases hj : j = ws.length % descMax <;>
    simp [hj, completed_fillH2cDesc, xdmaDescCompleted, xdmaDescStopped]

/-- A staged descriptor has its segment's length, the others keep theirs. -/
theorem stagedRing_len (j : Nat) :
    (stagedRing descMax ws count ring j).len
      = (ws[j]?.map (fun w => w.1.dataLen.setWidth 32)).getD (ring j).len := by
  rw [stagedRing_proj descMax ws count ring XdmaDesc.len (fun _ _ => rfl)]
  cases hw : ws[j]? with
  | none => by_cases hj : j = ws.length % descMax <;> simp [hj, xdmaDescControlSet]
  | some w =>
    by_cases hj : j = ws.length % descMax <;> cases hl : w.2 <;>
      simp [hj, hl, fillH2cDesc, xdmaDescControlSet]

/-- Staging never rewrites a link. -/
theorem stagedRing_nextAddr (j : Nat) :
    (stagedRing descMax ws count ring j).nextAddr = (ring j).nextAddr := by
  rw [stagedRing_proj descMax ws count ring XdmaDesc.nextAddr (fun _ _ => rfl)]
  cases hw : ws[j]? <;> by_cases hj : j = ws.length % descMax <;>
    simp [hj, nextAddr_fillH2cDesc]

end

end XdmaDpdk
