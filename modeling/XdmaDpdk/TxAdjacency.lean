import XdmaDpdk.Control
import XdmaDpdk.TxChain
import XdmaDpdk.Translate

namespace XdmaDpdk

open ArrayLoop

/-!
# XDMA driver — adjacency counts of a transmit burst

How many descriptors the device may prefetch: the count in `H2C_SGDMA_DESC_ADJ` when the
channel starts, and the count in each staged descriptor.  The driver computes both from the
number of packets, while the descriptors are one a segment.

* `length_accepted_le` — a burst stages at least one descriptor a packet, so its packet
  count bounds every adjacency count from the safe side;
* `stagedRing_nxtAdj` — the adjacency field of every descriptor of the staged ring;
* `adjacency_sound` — no count leads past the last staged descriptor.
-/

/-! ### Packets and descriptors -/

/-- A packet of one segment or more takes a descriptor or more. -/
theorem length_pktWrites_pos (heap : Heap) (mb : MbufPtr) (h : 1 ≤ (heap mb).nbSegs) :
    1 ≤ (pktWrites heap mb).length := by
  unfold pktWrites
  cases hn : (heap mb).nbSegs with
  | zero => omega
  | succ n =>
    simp only [segWrites, List.length_cons]
    omega

theorem length_accepted_le (heap : Heap) (pkts : List MbufPtr) (avail : Nat)
    (h : ∀ mb ∈ pkts, 1 ≤ (heap mb).nbSegs) :
    (accepted heap pkts avail).length
      ≤ ((accepted heap pkts avail).flatMap (pktWrites heap)).length := by
  induction pkts generalizing avail with
  | nil => simp [accepted]
  | cons mb rest ih =>
    simp only [accepted]
    split
    · simp
    · have hpkt := length_pktWrites_pos heap mb (h mb (List.mem_cons_self ..))
      have hrest := ih (avail - (heap mb).nbSegs) (fun p hp => h p (List.mem_cons_of_mem _ hp))
      rw [List.flatMap_cons, List.length_append, List.length_cons]
      omega

/-- The packets accepted by a burst whose mbufs have segments. -/
theorem TxBurst.length_accepted_le (b : TxBurst) (descMax : Nat)
    (h : ∀ mb ∈ b.txPkts, 1 ≤ (b.heap mb).nbSegs) :
    (accepted b.heap b.txPkts descMax).length ≤ (b.writes descMax).length :=
  XdmaDpdk.length_accepted_le b.heap b.txPkts descMax h

/-! ### The adjacency fields -/

theorem nxtAdj_fillH2cDesc (mb : RteMbuf) (last : Bool) (d : XdmaDesc) :
    (fillH2cDesc mb last d).nxtAdj = d.nxtAdj := by
  cases last with
  | false => rfl
  | true => exact nxtAdj_controlSet _ _ (by decide)

section
variable (descMax : Nat) (ws : List (RteMbuf × Bool)) (count : Nat) (ring : Nat → XdmaDesc)

/-- The adjacency loop counts down to 0 at the last packet but one; the descriptors from
    there on keep their field. -/
theorem stagedRing_nxtAdj (hcount : count ≤ descMax) (j : Nat) :
    (stagedRing descMax ws count ring j).nxtAdj
      = if j + 1 < count then (BitVec.ofNat 32 (count - 2 - j)).setWidth 6
        else (ring j).nxtAdj := by
  unfold stagedRing
  -- The index modulo the ring is the index itself.
  have hidx : ∀ i < count - 1, (0 + i) % descMax = i := by
    intro i hi
    rw [Nat.zero_add]
    exact Nat.mod_eq_of_lt (by omega)
  by_cases hj : j + 1 < count
  · rw [if_pos hj]
    have hjlt : j < count - 1 := by omega
    have hinj : ∀ i < count - 1, ∀ i' < count - 1,
        (0 + i) % descMax = (0 + i') % descMax → i = i' := by
      intro i hi i' hi' h
      rwa [hidx i hi, hidx i' hi'] at h
    have heach := forEach_of_injOn (count - 1) (fun i => (0 + i) % descMax)
      (fun i d => xdmaDescAdjacentSet d (BitVec.ofNat 32 (count - 2 - i)))
      (Function.update (writeFrom 0 (ws.map (fun w => fillH2cDesc w.1 w.2)) ring)
        (ws.length % descMax)
        (xdmaDescControlSet
          (writeFrom 0 (ws.map (fun w => fillH2cDesc w.1 w.2)) ring (ws.length % descMax))
          (xdmaDescCompleted ||| xdmaDescStopped))) hinj j hjlt
    simp only [hidx j hjlt] at heach
    show XdmaDesc.nxtAdj (forEach _ _ _ _ j) = _
    rw [heach, nxtAdj_adjacentSet]
  · rw [if_neg hj]
    show XdmaDesc.nxtAdj (forEach _ _ _ _ j) = _
    rw [forEach_of_forall_ne _ _ _ _ _ (fun i hi => by rw [hidx i hi]; omega)]
    -- Neither the segment flags nor the terminator flags reach the field.
    have hwrite : (writeFrom 0 (ws.map (fun w => fillH2cDesc w.1 w.2)) ring j).nxtAdj
        = (ring j).nxtAdj := by
      simp only [writeFrom, Nat.zero_le, if_true, Nat.sub_zero, List.getElem?_map]
      cases ws[j]? with
      | none => rfl
      | some w => exact nxtAdj_fillH2cDesc w.1 w.2 (ring j)
    by_cases hlast : j = ws.length % descMax
    · rw [hlast, Function.update_self, nxtAdj_controlSet _ _ (by decide), ← hlast]
      exact hwrite
    · rw [Function.update_of_ne hlast]
      exact hwrite

end

/-- An idle H2C ring holds no adjacency count. -/
theorem ControlIdle.nxtAdj {e : XdmaEngine} (h : ControlIdle e) (i : Nat) (hi : i < e.descMax) :
    (e.descRing i).nxtAdj = 0 := by
  unfold XdmaDesc.nxtAdj
  rcases h i hi with hc | ⟨-, hc⟩
  · rw [hc]
    decide
  · rw [hc]
    decide

/-! ### The counts given to the device -/

/-- No adjacency count of a burst of `T` descriptors leads past descriptor `T - 1`. -/
structure AdjacencySound (e : XdmaEngine) (T : Nat) : Prop where
  reg : ∃ v, e.reg (h2cSgdmaDescAdj + e.channel.toNat * 0x100) = some v ∧ v.toNat ≤ T - 1
  inner : ∀ i, i + 1 < T → i + 1 + (e.descRing i).nxtAdj.toNat ≤ T - 1
  last : 0 < T → (e.descRing (T - 1)).nxtAdj = 0

/-- The register holds the count passed to the start, or 0 for a negative one. -/
theorem reg_txStart_adj (e : XdmaEngine) (addr : Addr) (adj : Int) :
    (xdmaTxEngineStart e addr adj).reg
        (h2cSgdmaDescAdj + (xdmaTxEngineStart e addr adj).channel.toNat * 0x100)
      = some (BitVec.ofInt 32 (if adj > 0 then adj else 0)) := by
  simp [XdmaEngine.reg, xdmaTxEngineStart, xdmaRegWrite, h2cChannelCtrl, h2cPollModeHiWbAddr,
    h2cPollModeLoWbAddr, h2cSgdmaDescAdj]

/-- **Adjacency.** After any history, a burst on an idle H2C queue never tells the device to
    prefetch past the last descriptor it staged. -/
theorem adjacency_sound (virt2phy : Addr → Addr) (e : XdmaEngine) (b : TxBurst)
    (hreach : EngineReach virt2phy e) (hdir : e.dir = .h2c) (hrun : e.running = false)
    (hsegs : ∀ mb ∈ b.txPkts, 1 ≤ (b.heap mb).nbSegs) :
    stagedCount e b ≤ e.descMax ∧ AdjacencySound (xmitStart e b).2 (stagedCount e b) := by
  have hinv := hreach.inv
  have hmax : e.descMax = 32 := hinv.layout.descMax
  have hidle := hinv.idle hrun
  have hctl := hreach.control_idle hdir hrun
  have hT := stagedCount_le e b
  have hcount : (accepted b.heap b.txPkts e.descMax).length ≤ stagedCount e b :=
    b.length_accepted_le e.descMax hsegs
  have hstaged : (xmitStage e b).1 = accepted b.heap b.txPkts e.descMax := by
    rw [xmitStage_eq e b hidle.used (by omega)]
  -- The field of each descriptor of the ring handed over.
  have hadj : ∀ i < e.descMax, ((xmitStart e b).2.descRing i).nxtAdj
      = if i + 1 < (accepted b.heap b.txPkts e.descMax).length then
          (BitVec.ofNat 32 ((accepted b.heap b.txPkts e.descMax).length - 2 - i)).setWidth 6
        else 0 := by
    intro i hi
    rw [descRing_xmitStart, descRing_xmitStage b hidle (by omega),
      stagedRing_nxtAdj _ _ _ _ (by omega) i, hctl.nxtAdj i hi]
  refine ⟨hT, ?_, ?_, ?_⟩
  · rw [xmitStart_engine, hstaged]
    refine ⟨_, reg_txStart_adj _ _ _, ?_⟩
    rw [BitVec.toNat_ofInt]
    split <;> omega
  · intro i hi
    rw [hadj i (by omega)]
    by_cases hlt : i + 1 < (accepted b.heap b.txPkts e.descMax).length
    · rw [if_pos hlt, BitVec.toNat_setWidth, BitVec.toNat_ofNat]
      omega
    · rw [if_neg hlt]
      show i + 1 + 0 ≤ stagedCount e b - 1
      omega
  · intro hpos
    rw [hadj _ (by omega), if_neg (by omega)]

/-- Three one-segment packets on a fresh queue. -/
theorem adjacency_sound_freshTx_three :
    stagedCount freshTx (TxBurst.plain 3 (by decide)) ≤ freshTx.descMax ∧
      AdjacencySound (xmitStart freshTx (TxBurst.plain 3 (by decide))).2
        (stagedCount freshTx (TxBurst.plain 3 (by decide))) :=
  adjacency_sound id freshTx (TxBurst.plain 3 (by decide)) freshTx_reach rfl rfl
    (fun _ _ => Nat.le_refl 1)

end XdmaDpdk
