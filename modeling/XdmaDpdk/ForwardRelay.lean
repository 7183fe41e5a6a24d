import XdmaDpdk.ForwardBatches

namespace XdmaDpdk

open StableRead ChainWalker ByteStore

/-!
# XDMA test application — forwarding end to end

What arrives at the one device of a forwarding loop and what leaves the other, in the system
of `ForwardStep` with its memory.

* `ForwardSysInv.relayed` — what the invariant of the loop says of the packets;
* `ForwardSysInv.loses` — a burst that is not sound loses packets in some schedule;
* `relayed_iff` — every packet leaves unchanged, once, in the order of arrival and with none
  left behind by a finished pass, in every interleaving, exactly when every burst is
  submitted soundly.
-/

/-- What the loop has done: the packets that left are the first ones that arrived, unchanged
    and each whole; none left that was not received by the loop; all of those that a finished
    pass received have left; no more packets are under way than the array has slots; and the
    loop's counters are the number of packets that left. -/
structure Relayed (s : ForwardSys) : Prop where
  order : s.fabric.departed
    = (s.fabric.arrived.take s.fabric.departed.length).map (fun p => (p, true))
  received : s.fabric.departed.length ≤ s.handed.length
  whole : s.place = .top → s.fabric.departed.length = s.handed.length
  underWay : s.fabric.arrived.length ≤ s.fabric.departed.length + xdmaDescMax
  counted : s.place = .top →
    s.recvPkts = s.fabric.departed.length ∧ s.xmitPkts = s.fabric.departed.length

section
variable {cfg : ForwardConfig} {ok : TxSys → TxBurst → Prop} {lo : Nat} {s : ForwardSys}

theorem ForwardSysInv.relayed (h : ForwardSysInv cfg ok lo s) (hord : Orderly cfg ok) :
    Relayed s := by
  obtain ⟨sent, calls, hl⟩ := h.leaving
  have hle := hl.carried_le hord
  have hge := hl.le_carried hord
  have hlen : s.fabric.departed.length = (carried sent).length := by
    rw [hl.departed, List.length_map, List.length_take]
    exact Nat.min_eq_left (hle.trans hl.within)
  have hbase := h.base
  -- At the top of the loop no burst is under way.
  have hall : s.place = .top → s.fabric.departed.length = lo ∧ s.submitted lo = lo := by
    intro hp
    have hplace := h.place
    simp only [PlaceInv, hp] at hplace
    have hsub : s.submitted lo = lo := by
      simp only [ForwardSys.submitted, hp]
    rw [hlen, hl.carried_eq hord (by simp [hplace])]
    exact ⟨hsub, hsub⟩
  refine ⟨?_, ?_, fun hp => (hall hp).1.trans (h.base_top hp), ?_, fun hp => ?_⟩
  · rw [hlen]
    exact hl.departed
  · rw [hlen]
    apply hle.trans
    unfold ForwardSys.submitted
    split <;> omega
  · have harr := h.arrived_le
    omega
  · obtain ⟨hdep, hsub⟩ := hall hp
    rw [hdep]
    exact ⟨h.recvPkts.trans hsub, h.xmitPkts⟩

end

/-! ### Bursts that are not sound -/

/-- The bursts of `ok` that are submitted soundly. -/
def Sound (cfg : ForwardConfig) (ok : TxSys → TxBurst → Prop) : TxSys → TxBurst → Prop :=
  fun t b => ok t b ∧ CallSound cfg.virt2phy t b

theorem orderly_sound {cfg : ForwardConfig} (hfits : cfg.Fits) (ok : TxSys → TxBurst → Prop) :
    Orderly cfg (Sound cfg ok) :=
  orderly_of_sound hfits (fun _ _ hok => hok.2)

section
variable {cfg : ForwardConfig} {ok : TxSys → TxBurst → Prop} {lo n : Nat} {s s' : ForwardSys}

/-- A step only asks of `ok` the burst it submits. -/
theorem ForwardStep.mono {ok' : TxSys → TxBurst → Prop} (hs : ForwardStep cfg ok s s')
    (h : ∀ b, s.place = .received b → ok s.fabric.tx b → ok' s.fabric.tx b) :
    ForwardStep cfg ok' s s' := by
  cases hs with
  | recv wb passes testByte f f' hp hr => exact ForwardStep.recv s wb passes testByte f f' hp hr
  | send b hp hr hok => exact ForwardStep.send s b hp hr (h b hp hok)
  | busy b hp hr => exact ForwardStep.busy s b hp hr
  | exit b hp hd ht => exact ForwardStep.exit s b hp hd ht
  | halt b hp hd => exact ForwardStep.halt s b hp hd
  | reset b hp hd => exact ForwardStep.reset s b hp hd
  | done b hp hd => exact ForwardStep.done s b hp hd
  | device f hf => exact ForwardStep.device s f hf

/-- Runs of sound bursts are runs. -/
theorem ForwardReach.of_sound (h : ForwardReach cfg (Sound cfg ok) s) : ForwardReach cfg ok s := by
  obtain ⟨bytes, record, hreach⟩ := h
  refine ⟨bytes, record, ?_⟩
  apply Relation.ReflTransGen.mono ?_ _ _ hreach
  exact fun _ _ hs => hs.mono (fun _ _ hok => hok.1)

/-- Outside a burst the destination device has at most a terminator in hand. -/
theorem Leaving.hand {sent : List XdmaDesc} {calls : List TxBurst} {f : Fabric}
    (h : Leaving cfg ok lo n sent calls f) (hord : Orderly cfg ok) (hd : f.tx.drv = .idle)
    {i : Nat} {d : XdmaDesc} (hp : f.tx.hw.phase = .busy i d) : carried [d] = [] := by
  have hstep : Step (txRules cfg.virt2phy f.tx.eng) f.tx.eng.descRing
      (f.tx.hw, f.tx.eng.completedDescCount) _ := Step.complete _ _ i d hp
  have hrun := TxRun.step h.run (TxStep.device f.tx _ _ hstep)
  have hold := hord _ _ _ h.run
  have hnew := hord _ _ _ hrun
  have hhand : f.tx.hw.hand = some d := Walker.hand_eq_some.mpr ⟨i, hp⟩
  simp only [InOrder, hd, TxSys.submitted, List.append_nil] at hold hnew
  rw [Walker.handed_of_complete _ hp, carried_append, hold] at hnew
  exact List.append_cancel_left (hnew.trans (List.append_nil _).symm)

/-- The H2C descriptor in hand is completed: its report is in the word, and its bytes have
    left. -/
theorem FabricStep.of_busy (virt2phy : Addr → Addr) (len : Nat) (e : XdmaEngine)
    {f : Fabric} {i : Nat} {d : XdmaDesc} (hp : f.tx.hw.phase = .busy i d)
    (hrep : d.completed = true) :
    ∃ f', FabricStep virt2phy len e f f' ∧ f'.tx.drv = f.tx.drv ∧
      f'.tx.eng.completedDescCount = f.tx.hw.count + 1 ∧ f'.arrived = f.arrived ∧
      f'.departed = f.departed ++ loaded f.bytes [d] := by
  refine ⟨_, FabricStep.send f _ _ (Step.complete _ _ i d hp), rfl, if_pos hrep, rfl, ?_⟩
  show f.departed ++ loaded f.bytes (f.tx.hw.handed _) = _
  rw [Walker.handed_of_complete _ hp]

/-- Where it does so before all is sent, it leaves packets behind. -/
theorem ForwardSys.loses (s : ForwardSys) {b : TxBurst} (hp : s.place = .sending b)
    (hd : s.fabric.tx.drv = .polling b)
    (ht : txExitTest s.fabric.tx.eng.completedDescCount b.nbPkts = true)
    (hleft : s.fabric.departed.length < s.handed.length) :
    ∃ s', Relation.ReflTransGen (ForwardStep cfg ok) s s' ∧ ¬ Relayed s' := by
  refine ⟨s.finished b, s.finishes cfg ok hp hd ht, fun hr => ?_⟩
  have hwhole : s.fabric.departed.length = s.handed.length := hr.whole rfl
  exact absurd hwhole (Nat.ne_of_lt hleft)

/-- **A burst that is not sound loses packets** in some schedule. -/
theorem ForwardSysInv.loses (h : ForwardSysInv cfg (Sound cfg ok) lo s) (hfits : cfg.Fits)
    {b : TxBurst} (hp : s.place = .received b) (hok : ok s.fabric.tx b)
    (hbad : ¬ CallSound cfg.virt2phy s.fabric.tx b) :
    ∃ s', Relation.ReflTransGen (ForwardStep cfg ok) s s' ∧ ¬ Relayed s' := by
  have hord := orderly_sound hfits ok
  have hr := h.not_busy hfits hp
  have hplace := h.place
  simp only [PlaceInv, hp] at hplace
  obtain ⟨hidle, hburst⟩ := hplace
  have hbase := h.base
  have hmost := h.most
  have hleave := h.leaving
  simp only [ForwardSys.pending, ForwardSys.submitted, hp] at hbase hmost hleave
  obtain ⟨sent, calls, hl⟩ := hleave
  have htx := hl.run.toReach.inv hfits.mapsTx
  have hready := htx.engine.idle hr
  have hleft : s.fabric.departed.length < s.handed.length := by
    have hall := hl.carried_eq hord (by simp [hidle])
    have hpos := hburst.pos
    rw [hl.departed, List.length_map, List.length_take, hall]
    omega
  -- The burst is submitted on the word as it stands.
  have hsend : Relation.ReflTransGen (ForwardStep cfg ok) s (s.submit b) :=
    Relation.ReflTransGen.single (ForwardStep.send s b hp hr hok)
  have hword : (s.submit b).fabric.tx.eng.completedDescCount = s.fabric.tx.eng.completedDescCount :=
    completedDescCount_xmitStart s.fabric.tx.eng b hready.used htx.descMax_pos
  rcases hburst.one.unsound htx.descMax hmost hbad with ht | ⟨c, hc, ht⟩
  · rw [← hword] at ht
    obtain ⟨s', hs', hno⟩ := (s.submit b).loses rfl rfl ht hleft
    exact ⟨s', hsend.trans hs', hno⟩
  · -- The device reports the terminator in its hand first, and sends nothing by it.
    obtain ⟨i, d, hph, rfl⟩ := Walker.pending_eq_some hc
    have hrep : d.completed = true := by
      by_contra hno
      have hnone : s.fabric.tx.hw.pending (txRules cfg.virt2phy s.fabric.tx.eng) = none := by
        unfold Walker.pending
        rw [hph]
        exact if_neg hno
      exact absurd (hnone.symm.trans hc) (by simp)
    obtain ⟨f, hf, hdrv, hcount, -, hdep⟩ := FabricStep.of_busy cfg.virt2phy cfg.len s.queue.eng
      (f := (s.submit b).fabric) hph hrep
    have hcount' : f.tx.eng.completedDescCount = s.fabric.tx.hw.count + 1 := hcount
    have hdep' : f.departed = s.fabric.departed := by
      unfold loaded at hdep
      rw [hl.hand hord hidle hph, List.map_nil, List.append_nil] at hdep
      exact hdep
    rw [← hcount'] at ht
    rw [← hdep'] at hleft
    obtain ⟨s', hs', hno⟩ := ForwardSys.loses { s.submit b with fabric := f } rfl hdrv ht hleft
    exact ⟨s', (hsend.tail (ForwardStep.device _ f hf)).trans hs', hno⟩

end

/-! ### The theorem -/

section
variable {cfg : ForwardConfig} {ok : TxSys → TxBurst → Prop} {s : ForwardSys}

/-- Where packets are never lost, a burst that a run of sound ones leads to is sound. -/
theorem ForwardReach.callSound (h : ForwardReach cfg (Sound cfg ok) s) (hfits : cfg.Fits)
    (hall : ∀ s, ForwardReach cfg ok s → Relayed s) {b : TxBurst} (hp : s.place = .received b)
    (hok : ok s.fabric.tx b) : CallSound cfg.virt2phy s.fabric.tx b := by
  by_contra hbad
  obtain ⟨lo, hinv⟩ := h.inv (orderly_sound hfits ok) hfits
  obtain ⟨s', hs', hno⟩ := hinv.loses hfits hp hok hbad
  exact hno (hall s' (h.of_sound.trans hs'))

/-- Runs whose bursts are sound are runs of sound bursts. -/
theorem ForwardReach.sound (h : ForwardReach cfg ok s)
    (hsound : ∀ s b, ForwardReach cfg (Sound cfg ok) s → s.place = .received b →
      ok s.fabric.tx b → CallSound cfg.virt2phy s.fabric.tx b) :
    ForwardReach cfg (Sound cfg ok) s := by
  obtain ⟨bytes, record, hreach⟩ := h
  induction hreach with
  | refl => exact ⟨bytes, record, Relation.ReflTransGen.refl⟩
  | tail _ hs ih =>
    -- The burst of the last step is sound by the run before it.
    exact ih.trans (Relation.ReflTransGen.single
      (hs.mono (fun b hp hok => ⟨hok, hsound _ b ih hp hok⟩)))

end

/-- **End to end.** Whatever bursts are submitted, in every interleaving of the loop with the
    two devices every packet leaves as it arrived, once and in order, and none is left behind
    by a finished pass, exactly when every burst is sound when it is submitted. -/
theorem relayed_iff (cfg : ForwardConfig) (hfits : cfg.Fits) (ok : TxSys → TxBurst → Prop) :
    (∀ s, ForwardReach cfg ok s → Relayed s)
      ↔ ∀ s b, ForwardReach cfg ok s → s.place = .received b → ok s.fabric.tx b →
          CallSound cfg.virt2phy s.fabric.tx b := by
  constructor
  · intro hall s b h hp hok
    have hs := h.sound (fun s b hr hp hok => hr.callSound hfits hall hp hok)
    exact hs.callSound hfits hall hp hok
  · intro hsound s h
    have hord := orderly_sound hfits ok
    have hs := h.sound (fun s b hr hp hok => hsound s b hr.of_sound hp hok)
    obtain ⟨lo, hinv⟩ := hs.inv hord hfits
    exact hinv.relayed hord

/-- Fresh queues with the mbufs at multiples of 4096, and packets that fill a descriptor. -/
def ForwardConfig.pages : ForwardConfig where
  virt2phy := id
  rxChannel := 0
  txChannel := 0
  rxAlloc := SetupAlloc.pages
  txAlloc := SetupAlloc.pages
  heap := plainMem.heap
  pkts := plainMem.arr
  len := 64

theorem toNat_slotAddr_pages {i : Nat} (hi : i < xdmaDescMax) :
    (ForwardConfig.pages.slotAddr i).toNat = 4096 * i + 128 := by
  show (BitVec.ofNat 64 (4096 * i) + 128#64).toNat = _
  simp only [xdmaDescMax] at hi
  simp only [BitVec.toNat_add, BitVec.toNat_ofNat]
  omega

theorem fits_pages : ForwardConfig.pages.Fits where
  mapsRx := MapsRing.of_injective Function.injective_id rfl
  mapsTx := MapsRing.of_injective Function.injective_id rfl
  len := Nat.le_refl 64
  apart i hi j hj hne x hx hx' := by
    -- Packets of 64 bytes, 4096 apart.
    rw [mem_cells (by decide), BitVec.toNat_sub, toNat_slotAddr_pages hi] at hx
    rw [mem_cells (by decide), BitVec.toNat_sub, toNat_slotAddr_pages hj] at hx'
    have hlt := x.isLt
    simp only [xdmaDescMax] at hi hj
    omega
  record i _ := by
    show _ + (BitVec.ofNat 64 (4096 * i) - BitVec.ofNat 64 (4096 * i)) = _
    rw [sub_self, add_zero]
    rfl

/-- Packets of 64 bytes that hold their number. -/
def numbered (k : Nat) : List (BitVec 8) := List.replicate 64 (BitVec.ofNat 8 k)

/-- Three passes of 5, 27 and 3 packets: the second one ends the round, so that
    `pkts_buffer_idx` wraps, and the third one arms the next. -/
theorem reach_batches :
    ∃ s, ForwardReach ForwardConfig.pages (CallSound id) s ∧ s.place = .top ∧
      s.handed.length = 35 ∧ Arriving numbered s.fabric := by
  have hbatches : Batches 0 0 [5, 27, 3] := by
    simp [Batches, Consumer.next, xdmaDescMax]
  have hstart : LoopAt ForwardConfig.pages numbered .top _ 0 0 :=
    loopAt_start (fun _ => 0) ⟨0, 0⟩
  obtain ⟨s, u, n, hrest, hlen⟩ :=
    hstart.batches fits_pages (fun _ => List.length_replicate) (by decide) hbatches
  exact ⟨s, hrest.reach, hrest.place, hlen, hrest.arriving⟩

/-- The 35 packets of that run leave in order. -/
theorem relayed_batches :
    ∃ s, ForwardReach ForwardConfig.pages (CallSound id) s ∧
      s.fabric.departed = (List.range 35).map (fun k => (numbered k, true)) ∧
      s.xmitPkts = 35 := by
  obtain ⟨s, hreach, htop, hlen, harr⟩ := reach_batches
  have hrelayed := (relayed_iff ForwardConfig.pages fits_pages (CallSound id)).mpr
    (fun _ _ _ _ hsound => hsound) s hreach
  have hdep : s.fabric.departed.length = 35 := (hrelayed.whole htop).trans hlen
  refine ⟨s, hreach, ?_, (hrelayed.counted htop).2.trans hdep⟩
  have horder := hrelayed.order
  have hle := congrArg List.length horder
  rw [List.length_map, List.length_take, hdep] at hle
  rw [horder, hdep, harr, ← List.map_take, List.take_range, List.map_map,
    Nat.min_eq_left (by omega)]
  rfl

/-- Batches of sizes without two consecutive ones are never lost. -/
theorem relayed_of_gaps (cfg : ForwardConfig) (hfits : cfg.Fits) (sizes : Nat → Prop)
    (hlt : ∀ n, sizes n → n < xdmaDescMax) (hgap : ∀ n, sizes n → ¬ sizes (n + 1))
    (s : ForwardSys) (h : ForwardReach cfg (OfSizes sizes) s) : Relayed s := by
  have hord : Orderly cfg (OfSizes sizes) :=
    fun _ _ _ hrun => hrun.inOrder_of_gaps hfits.mapsTx hlt hgap
  obtain ⟨lo, hinv⟩ := h.inv hord hfits
  exact hinv.relayed hord

end XdmaDpdk
