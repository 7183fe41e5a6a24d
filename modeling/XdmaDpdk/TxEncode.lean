import XdmaDpdk.Control
import XdmaDpdk.Indices
import XdmaDpdk.TxChain
import XdmaDpdk.Lib.Framing

namespace XdmaDpdk

open Framing

/-!
# XDMA driver — the encoding of a transmit burst

The descriptors a burst leaves, read back as packets: `decodeRing` cuts the first `T`
descriptors after each one with `EOP` and reads address and length of each.  The caller's
side is `ValidPkt`, an mbuf chain of `nb_segs` segments.

* `pktWrites_eq_frame` — a packet's writes are its segments, framed;
* `accepted_maximal` — the accepted packets are the longest prefix that fits;
* `stagedRing_eop` — `EOP` is added to what the ring held before, so the encoding depends on
  what earlier bursts, the clear and the set-up left there;
* `burstEncoded` — decoding gives the accepted packets back.
-/

/-! ### Packets of the caller -/

/-- The segments of the chain that begins at an mbuf. -/
inductive MbufChain (heap : Heap) : MbufPtr → List RteMbuf → Prop
  | last {p : MbufPtr} : (heap p).next = none → MbufChain heap p [heap p]
  | step {p q : MbufPtr} {segs : List RteMbuf} : (heap p).next = some q →
      MbufChain heap q segs → MbufChain heap p (heap p :: segs)

theorem MbufChain.ne_nil {heap : Heap} {p : MbufPtr} {segs : List RteMbuf}
    (h : MbufChain heap p segs) : segs ≠ [] := by
  cases h with
  | last _ => exact List.cons_ne_nil _ _
  | step _ _ => exact List.cons_ne_nil _ _

/-- A packet: a chain of as many segments as its first mbuf says. -/
structure ValidPkt (heap : Heap) (mb : MbufPtr) (segs : List RteMbuf) : Prop where
  chain : MbufChain heap mb segs
  length : (heap mb).nbSegs = segs.length

/-- The segment loop visits the chain and flags its last segment. -/
theorem segWrites_eq_frame {heap : Heap} {p : MbufPtr} {segs : List RteMbuf}
    (h : MbufChain heap p segs) : segWrites heap segs.length (some p) = frame segs := by
  induction h with
  | last _ => rfl
  | @step p q segs hnext _ ih =>
    have hflag : (segs.length == 0) = segs.isEmpty := by
      cases segs <;> rfl
    rw [List.length_cons, segWrites, hnext, ih, frame_cons, hflag]

theorem pktWrites_eq_frame {heap : Heap} {mb : MbufPtr} {segs : List RteMbuf}
    (h : ValidPkt heap mb segs) : pktWrites heap mb = frame segs := by
  unfold pktWrites
  rw [h.length]
  exact segWrites_eq_frame h.chain

/-! ### The accepted prefix -/

theorem accepted_eq_take (heap : Heap) (pkts : List MbufPtr) (avail : Nat) :
    accepted heap pkts avail = pkts.take (accepted heap pkts avail).length := by
  induction pkts generalizing avail with
  | nil => rfl
  | cons mb rest ih =>
    simp only [accepted]
    split
    · rfl
    · rw [List.length_cons, List.take_succ_cons, ← ih]

/-- One packet more than the accepted ones does not fit. -/
theorem accepted_maximal (heap : Heap) (pkts : List MbufPtr) (avail : Nat)
    (h : (accepted heap pkts avail).length < pkts.length) :
    avail < ((pkts.take ((accepted heap pkts avail).length + 1)).map
      (fun mb => (heap mb).nbSegs)).sum := by
  induction pkts generalizing avail with
  | nil => exact absurd h (by simp)
  | cons mb rest ih =>
    simp only [accepted] at h ⊢
    split at h
    · rename_i hbig
      rw [if_pos hbig]
      simpa using hbig
    · rename_i hfit
      rw [if_neg hfit]
      rw [List.length_cons, List.length_cons] at h
      have hrest := ih (avail - (heap mb).nbSegs) (by omega)
      rw [List.length_cons, List.take_succ_cons, List.map_cons, List.sum_cons]
      omega

section
variable {heap : Heap} {txPkts : List MbufPtr} {pkts : List (List RteMbuf)}

/-- The writes of valid packets are their frames. -/
theorem flatMap_pktWrites_eq (h : List.Forall₂ (ValidPkt heap) txPkts pkts) :
    txPkts.flatMap (pktWrites heap) = pkts.flatMap frame := by
  induction h with
  | nil => rfl
  | cons hpkt _ ih => rw [List.flatMap_cons, List.flatMap_cons, pktWrites_eq_frame hpkt, ih]

theorem map_nbSegs_eq (h : List.Forall₂ (ValidPkt heap) txPkts pkts) :
    txPkts.map (fun mb => (heap mb).nbSegs) = pkts.map List.length := by
  induction h with
  | nil => rfl
  | cons hpkt _ ih => rw [List.map_cons, List.map_cons, hpkt.length, ih]

theorem forall_ne_nil (h : List.Forall₂ (ValidPkt heap) txPkts pkts) :
    ∀ segs ∈ pkts, segs ≠ [] := by
  induction h with
  | nil => intro segs hmem; cases hmem
  | cons hpkt _ ih =>
    intro segs hmem
    rcases List.mem_cons.mp hmem with rfl | hmem
    · exact hpkt.chain.ne_nil
    · exact ih segs hmem

end

/-! ### Reading the ring -/

/-- A segment as the device sees it: bus address and length. -/
def RteMbuf.segment (mb : RteMbuf) : Addr × BitVec 32 := (mb.dataIova, mb.dataLen.setWidth 32)

/-- A descriptor as the device sees it: a segment, and whether it ends its packet. -/
def XdmaDesc.segment (d : XdmaDesc) : (Addr × BitVec 32) × Bool := ((d.srcAddr, d.len), d.eop)

/-- The packets in the first `T` descriptors. -/
def decodeRing (ring : Nat → XdmaDesc) (T : Nat) : Option (List (List (Addr × BitVec 32))) :=
  decode ((List.range T).map (fun i => (ring i).segment))

theorem srcAddr_fillH2cDesc (mb : RteMbuf) (last : Bool) (d : XdmaDesc) :
    (fillH2cDesc mb last d).srcAddr = mb.dataIova := by
  cases last <;> simp [fillH2cDesc, XdmaDesc.srcAddr, xdmaDescControlSet]

theorem eop_fillH2cDesc (mb : RteMbuf) (last : Bool) (d : XdmaDesc) :
    (fillH2cDesc mb last d).eop = (d.eop || last) := by
  cases last <;>
    simp [fillH2cDesc, XdmaDesc.eop, xdmaDescControlSet, xdmaDescEop, xdmaDescCompleted]

section
variable (descMax : Nat) (ws : List (RteMbuf × Bool)) (count : Nat) (ring : Nat → XdmaDesc)

/-- A staged descriptor has its segment's address, the others keep theirs. -/
theorem stagedRing_srcAddr (j : Nat) :
    (stagedRing descMax ws count ring j).srcAddr
      = (ws[j]?.map (fun w => w.1.dataIova)).getD (ring j).srcAddr := by
  have hctl : ∀ d f, (xdmaDescControlSet d f).srcAddr = d.srcAddr := fun _ _ => rfl
  rw [stagedRing_proj descMax ws count ring XdmaDesc.srcAddr (fun _ _ => rfl)]
  cases hw : ws[j]? <;> by_cases hj : j = ws.length % descMax <;>
    simp [hj, hctl, srcAddr_fillH2cDesc]

/-- `EOP` is set on the last segment of each packet; no other flag clears or sets it. -/
theorem stagedRing_eop (j : Nat) :
    (stagedRing descMax ws count ring j).eop
      = ((ring j).eop || (ws[j]?.map Prod.snd).getD false) := by
  rw [stagedRing_proj descMax ws count ring XdmaDesc.eop eop_adjacentSet]
  cases hw : ws[j]? <;> by_cases hj : j = ws.length % descMax <;>
    simp [hj, eop_fillH2cDesc, xdmaDescCompleted, xdmaDescStopped]

end

/-- On an idle H2C ring only the last descriptor may have `EOP`. -/
theorem ControlIdle.eop {e : XdmaEngine} (h : ControlIdle e) (i : Nat) (hi : i + 1 < e.descMax) :
    (e.descRing i).eop = false := by
  unfold XdmaDesc.eop
  rcases h i (Nat.lt_of_succ_lt hi) with hc | ⟨hlast, -⟩
  · rw [hc]
    decide
  · omega

/-- The staged descriptors are the segments written: where the ring already had `EOP`, the
    write is the last one of the burst and sets it too. -/
theorem segment_stagedRing {e : XdmaEngine} (hctl : ControlIdle e) (ws : List (RteMbuf × Bool))
    (count : Nat) (hlen : ws.length ≤ e.descMax) (hlast : ∀ w ∈ ws.getLast?, w.2 = true) (j : Nat)
    (hj : j < ws.length) :
    (stagedRing e.descMax ws count e.descRing j).segment = (ws[j].1.segment, ws[j].2) := by
  have hget : ws[j]? = some ws[j] := List.getElem?_eq_getElem hj
  have heop : ((e.descRing j).eop || ws[j].2) = ws[j].2 := by
    by_cases hend : j + 1 < e.descMax
    · rw [hctl.eop j hend, Bool.false_or]
    · -- The burst fills the ring and `j` is its last write.
      have hjlast : ws.length - 1 = j := by omega
      have hflag : ws[j].2 = true := by
        apply hlast
        rw [List.getLast?_eq_getElem?, hjlast, hget]
        rfl
      rw [hflag, Bool.or_true]
  unfold XdmaDesc.segment RteMbuf.segment
  rw [stagedRing_srcAddr, stagedRing_len, stagedRing_eop, hget]
  exact Prod.ext rfl heop

/-! ### The round trip -/

/-- A burst of the packets `pkts` on `e` accepts the first `k` of them, the longest prefix
    that fits in the ring, and hands over `T` descriptors that decode to them; no descriptor
    is taken twice. -/
structure BurstEncoded (e : XdmaEngine) (b : TxBurst) (pkts : List (List RteMbuf)) (k T : Nat) :
    Prop where
  accepted : (xmitStart e b).1 = b.txPkts.take k
  total : ((pkts.take k).map List.length).sum = T
  fits : T ≤ e.descMax
  longest : k < pkts.length → e.descMax < ((pkts.take (k + 1)).map List.length).sum
  decoded : decodeRing (xmitStart e b).2.descRing T
    = some ((pkts.take k).map (List.map RteMbuf.segment))
  taken : (xmitTaken e b).length = T
  once : (xmitTaken e b).Nodup

theorem map_segment_flatMap_frame (pkts : List (List RteMbuf)) :
    (pkts.flatMap frame).map (fun w => (w.1.segment, w.2))
      = (pkts.map (List.map RteMbuf.segment)).flatMap frame := by
  rw [List.map_flatMap, List.flatMap_map]
  simp only [frame_map]

/-- The descriptors handed over read as the writes of the burst. -/
theorem segments_xmitStart {virt2phy : Addr → Addr} {e : XdmaEngine} (b : TxBurst)
    {pkts : List (List RteMbuf)} (hreach : EngineReach virt2phy e) (hdir : e.dir = .h2c)
    (hrun : e.running = false) (hws : b.writes e.descMax = pkts.flatMap frame) :
    (List.range (stagedCount e b)).map (fun i => ((xmitStart e b).2.descRing i).segment)
      = (b.writes e.descMax).map (fun w => (w.1.segment, w.2)) := by
  have hidle := hreach.inv.idle hrun
  have hpos := hreach.inv.descMax_pos
  apply List.ext_getElem
  · simp [stagedCount]
  · intro j h₁ h₂
    rw [List.length_map] at h₂
    rw [List.getElem_map, List.getElem_map, List.getElem_range, descRing_xmitStart,
      descRing_xmitStage b hidle hpos]
    apply segment_stagedRing (hreach.control_idle hdir hrun) _ _ (stagedCount_le e b) _ j h₂
    rw [hws]
    exact getLast_flatMap_frame _

/-- **Encoding round trip.** After any history, the ring a burst on an idle H2C queue hands
    over decodes to the accepted packets, each as its list of segments. -/
theorem burstEncoded (virt2phy : Addr → Addr) (e : XdmaEngine) (b : TxBurst)
    (pkts : List (List RteMbuf)) (hreach : EngineReach virt2phy e) (hdir : e.dir = .h2c)
    (hrun : e.running = false) (hpkts : List.Forall₂ (ValidPkt b.heap) b.txPkts pkts) :
    BurstEncoded e b pkts (xmitStart e b).1.length (stagedCount e b) := by
  have hinv := hreach.inv
  have hidle := hinv.idle hrun
  have hpos := hinv.descMax_pos
  have hacc : (xmitStart e b).1 = accepted b.heap b.txPkts e.descMax := by
    show (xmitStage e b).1 = _
    rw [xmitStage_eq e b hidle.used hpos]
  -- The accepted packets and their segments, side by side.
  have htake : accepted b.heap b.txPkts e.descMax
      = b.txPkts.take (accepted b.heap b.txPkts e.descMax).length :=
    accepted_eq_take b.heap b.txPkts e.descMax
  have hpre : List.Forall₂ (ValidPkt b.heap) (accepted b.heap b.txPkts e.descMax)
      (pkts.take (accepted b.heap b.txPkts e.descMax).length) := by
    have hboth := List.forall₂_take (accepted b.heap b.txPkts e.descMax).length hpkts
    rwa [← htake] at hboth
  have hws : b.writes e.descMax
      = (pkts.take (accepted b.heap b.txPkts e.descMax).length).flatMap frame :=
    flatMap_pktWrites_eq hpre
  have hT := stagedCount_le e b
  rw [hacc]
  have htaken := xmitTaken_eq_range e b hrun hidle.used
  refine ⟨hacc.trans htake, ?_, hT, ?_, ?_, ?_, ?_⟩
  · show _ = (b.writes e.descMax).length
    rw [hws, List.length_flatMap]
    simp only [length_frame]
  · intro hlt
    rw [← hpkts.length_eq] at hlt
    have hmax := accepted_maximal b.heap b.txPkts e.descMax hlt
    rwa [map_nbSegs_eq (List.forall₂_take _ hpkts)] at hmax
  · -- Descriptor by descriptor, then frame by frame.
    unfold decodeRing
    rw [segments_xmitStart b hreach hdir hrun hws, hws, map_segment_flatMap_frame]
    apply decode_flatMap_frame
    intro segs hmem
    obtain ⟨segs, hsegs, rfl⟩ := List.mem_map.mp hmem
    simpa using forall_ne_nil hpre segs hsegs
  · rw [htaken, List.length_range]
    rfl
  · rw [htaken]
    exact List.nodup_range

/-- A packet of one segment and one of two. -/
def TxBurst.chained : TxBurst where
  heap p := if p = 0 then { plainMbuf with nbSegs := 2, next := some 1 } else plainMbuf
  txPkts := [2, 0]
  nbPktsLt := by decide

theorem burstEncoded_freshTx :
    BurstEncoded freshTx TxBurst.chained
      [[plainMbuf], [{ plainMbuf with nbSegs := 2, next := some 1 }, plainMbuf]]
      (xmitStart freshTx TxBurst.chained).1.length (stagedCount freshTx TxBurst.chained) :=
  burstEncoded id freshTx TxBurst.chained _ freshTx_reach rfl rfl
    (.cons ⟨.last rfl, rfl⟩ (.cons ⟨.step rfl (.last rfl), rfl⟩ .nil))

end XdmaDpdk
