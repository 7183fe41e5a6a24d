import XdmaDpdk.TxSystem

namespace XdmaDpdk

open ChainWalker

/-!
# XDMA driver — when a transmit burst ends its wait

The wait loop compares the number of descriptors the device reports with the number of
packets requested.  `EndsEarly` is the state to avoid: the exit test is true and a staged
descriptor is not completed yet, so that the stop to follow wipes it.

A burst avoids it exactly when none of the values its wait can find before the last staged
descriptor is `nb_pkts` (`CallSound`): the word as it stands, the report of a descriptor
still in hand from the burst before, and the counts at the packet ends.

* `endsEarly_of_not_callSound` — a call that is not sound has a schedule that ends early;
* `Waiting` — what a sound call knows while it waits, kept by every step;
* `not_endsEarly_iff` — a set of submitted bursts never ends early exactly when its calls
  are sound.
-/

/-- The wait would end now, with a staged descriptor not completed. -/
def EndsEarly (s : TxSys) : Prop :=
  ∃ b, s.drv = .polling b ∧ txExitTest s.eng.completedDescCount b.nbPkts = true ∧
    ∃ i < stagedCount s.eng b, i ∉ s.hw.completed

/-- No count the wait can find before the staged descriptors are done is `nb_pkts`. -/
structure NoEarlyMatch (virt2phy : Addr → Addr) (s : TxSys) (b : TxBurst) : Prop where
  word : txExitTest s.eng.completedDescCount b.nbPkts = false
  inHand : ∀ c, s.hw.pending (txRules virt2phy s.eng) = some c → txExitTest c b.nbPkts = false
  packets : stagedCount s.eng b < s.eng.descMax → b.nbPkts < stagedCount s.eng b →
    packetEnd s.eng b (b.nbPkts - 1) = false
  full : stagedCount s.eng b = s.eng.descMax → b.nbPkts ≠ 1

/-- A call of the burst `b` in state `s` waits long enough. -/
def CallSound (virt2phy : Addr → Addr) (s : TxSys) (b : TxBurst) : Prop :=
  stagedCount s.eng b = 0 ∨ NoEarlyMatch virt2phy s b

theorem txExitTest_self (n : Nat) (hn : n < 2 ^ 16) : txExitTest n n = true := by
  unfold txExitTest
  rw [Nat.mod_eq_of_lt (by omega), beq_self_eq_true]

theorem eq_of_txExitTest {word n : Nat} (hw : word < 2 ^ 24) (h : txExitTest word n = true) :
    word = n := by
  rwa [txExitTest, Nat.mod_eq_of_lt hw, beq_iff_eq] at h

/-- Nothing is staged from an empty array. -/
theorem nbPkts_pos_of_staged {e : XdmaEngine} {b : TxBurst} (h : 0 < stagedCount e b) :
    0 < b.nbPkts := by
  unfold TxBurst.nbPkts
  by_contra hno
  have hnil : b.txPkts = [] := List.eq_nil_of_length_eq_zero (by omega)
  unfold stagedCount TxBurst.writes at h
  rw [hnil] at h
  simp [accepted] at h

/-! ### What the call leaves -/

section
variable (e : XdmaEngine) (b : TxBurst)

theorem packetEnd_xmitStart (b' : TxBurst) (i : Nat) :
    packetEnd (xmitStart e b).2 b' i = packetEnd e b' i := by
  unfold packetEnd
  rw [(frame_xmitStart e b).descMax]

theorem completedDescCount_xmitStart (hused : e.descUsed = 0) (hmax : 0 < e.descMax) :
    (xmitStart e b).2.completedDescCount = e.completedDescCount := by
  rw [xmitStart_engine, completedDescCount_txStart, xmitStage_eq e b hused hmax]

end

/-! ### Calls that are not sound -/

section
variable {virt2phy : Addr → Addr} {channelId : BitVec 16} {a : SetupAlloc}
  {ok : TxSys → TxBurst → Prop} {s : TxSys}

/-- A match before the device takes up the start: nothing of the burst is completed. -/
theorem EndsEarly.of_kick {b : TxBurst} (hd : s.drv = .polling b) (hk : s.hw.kick = true)
    (hpos : 0 < stagedCount s.eng b)
    (ht : txExitTest s.eng.completedDescCount b.nbPkts = true) : EndsEarly s := by
  refine ⟨b, hd, ht, 0, hpos, ?_⟩
  unfold Walker.completed
  rw [if_pos hk]
  exact List.not_mem_nil

/-- A match at the report of descriptor `k`, with descriptors of the burst left after it. -/
theorem endsEarly_of_report (hmap : MapsRing virt2phy (xdmaTxEngineSetup virt2phy channelId a))
    (h : TxReach virt2phy channelId a ok s) {b : TxBurst} (hd : s.drv = .polling b)
    (hk : s.hw.kick = true) {k : Nat} (hkm : k ≤ lastDesc s.eng b)
    (hrep : (s.eng.descRing k).completed = true) (hnb : b.nbPkts = k + 1)
    (hleft : b.nbPkts < stagedCount s.eng b) :
    ∃ s', TxReach virt2phy channelId a ok s' ∧ EndsEarly s' := by
  obtain ⟨hw', hr', hk', hdone, -⟩ := TxReach.reach_report hmap h hd hk hkm hrep
  refine ⟨_, hr', b, hd, ?_, k + 1, hnb ▸ hleft, ?_⟩
  · show txExitTest (k + 1) b.nbPkts = true
    rw [← hnb]
    exact txExitTest_self _ b.nbPktsLt
  · -- The device has completed the descriptors up to `k` and no more.
    unfold Walker.completed
    rw [hk', if_neg (by decide), hdone, List.mem_range]
    exact Nat.lt_irrefl _

/-- A match at the report of a descriptor in hand from the burst before. -/
theorem endsEarly_of_pending (h : TxReach virt2phy channelId a ok s) {b : TxBurst}
    (hd : s.drv = .polling b) (hk : s.hw.kick = true) (hpos : 0 < stagedCount s.eng b) {c : Nat}
    (hc : s.hw.pending (txRules virt2phy s.eng) = some c)
    (ht : txExitTest c b.nbPkts = true) :
    ∃ s', TxReach virt2phy channelId a ok s' ∧ EndsEarly s' := by
  obtain ⟨hw', hstep, hkick⟩ := Step.of_pending hc s.eng.descRing s.eng.completedDescCount
  exact ⟨_, Relation.ReflTransGen.tail h (TxStep.device s hw' c hstep),
    EndsEarly.of_kick hd (hkick.trans hk) hpos ht⟩

/-- **A call that is not sound ends early** in some schedule. -/
theorem endsEarly_of_not_callSound
    (hmap : MapsRing virt2phy (xdmaTxEngineSetup virt2phy channelId a))
    (h : TxReach virt2phy channelId a ok s) (hd : s.drv = .idle) {b : TxBurst} (hok : ok s b)
    (hbad : ¬ CallSound virt2phy s b) :
    ∃ s', TxReach virt2phy channelId a ok s' ∧ EndsEarly s' := by
  have hinv := h.inv hmap
  have hoff := (hinv.idle hd).1
  have hidle := hinv.engine.idle hoff
  -- The state after the call.
  have h₁ := Relation.ReflTransGen.tail h (TxStep.call s b hd hoff hok)
  have hcount : stagedCount (xmitStart s.eng b).2 b = stagedCount s.eng b :=
    stagedCount_xmitStart s.eng b b
  have hword := completedDescCount_xmitStart s.eng b hidle.used hinv.descMax_pos
  have hstaged := hinv.staged hoff b
  have hpos : 0 < stagedCount s.eng b := by
    by_contra hno
    exact hbad (.inl (by omega))
  have hnb : 0 < b.nbPkts := nbPkts_pos_of_staged hpos
  by_contra hno
  apply hbad
  refine .inr ⟨?_, ?_, ?_, ?_⟩
  · -- The word is found as it stood.
    rw [← Bool.not_eq_true]
    intro ht
    refine hno ⟨_, h₁, EndsEarly.of_kick rfl rfl (hcount.symm ▸ hpos) ?_⟩
    rw [hword]
    exact ht
  · -- The descriptor in hand is completed before the start is taken up.
    intro c hc
    rw [← Bool.not_eq_true]
    intro ht
    exact hno (endsEarly_of_pending h₁ rfl rfl (hcount.symm ▸ hpos) hc ht)
  · -- A packet end at descriptor `nb_pkts - 1`, before the last staged one.
    intro hlt hearly
    rw [← Bool.not_eq_true]
    intro hend
    have hlast : lastDesc (xmitStart s.eng b).2 b = stagedCount s.eng b :=
      (lastDesc_xmitStart s.eng b b).trans (lastDesc_of_lt hlt)
    have hkm : b.nbPkts - 1 < lastDesc (xmitStart s.eng b).2 b := by omega
    have hrep := hstaged.report (b.nbPkts - 1) hkm
    rw [packetEnd_xmitStart, hend] at hrep
    exact hno (endsEarly_of_report hmap h₁ rfl rfl (Nat.le_of_lt hkm) hrep (by omega)
      (hcount.symm ▸ hearly))
  · -- A full ring: the device stops after the first descriptor and reports 1.
    intro hfull hone
    have hlast : lastDesc (xmitStart s.eng b).2 b = 0 :=
      (lastDesc_xmitStart s.eng b b).trans (lastDesc_of_full hfull)
    have hrep := hstaged.reportLast
    rw [hlast] at hrep
    refine hno (endsEarly_of_report hmap h₁ rfl rfl (Nat.zero_le _) hrep hone ?_)
    rw [hcount, hfull, hinv.descMax, hone]
    decide

/-! ### Calls that are sound -/

/-- What a sound call knows while it waits: before the start is taken up no value it can
    find matches; afterwards a match is the report of a completed descriptor. -/
structure Waiting (virt2phy : Addr → Addr) (s : TxSys) (b : TxBurst) : Prop where
  packets : stagedCount s.eng b < s.eng.descMax → b.nbPkts < stagedCount s.eng b →
    packetEnd s.eng b (b.nbPkts - 1) = false
  full : stagedCount s.eng b = s.eng.descMax → b.nbPkts ≠ 1
  before : s.hw.kick = true → txExitTest s.eng.completedDescCount b.nbPkts = false ∧
    ∀ c, s.hw.pending (txRules virt2phy s.eng) = some c → txExitTest c b.nbPkts = false
  after : s.hw.kick = false → txExitTest s.eng.completedDescCount b.nbPkts = false ∨
    ∃ k < s.hw.count, k ≤ lastDesc s.eng b ∧ s.eng.completedDescCount = k + 1 ∧
      (s.eng.descRing k).completed = true

/-- Before the start is taken up the device only completes the descriptor in hand, and its
    report does not match. -/
theorem Waiting.before_device {b : TxBurst} (h : Waiting virt2phy s b)
    {hw' : Walker Nat XdmaDesc} {count' : Nat}
    (hs : Step (txRules virt2phy s.eng) s.eng.descRing (s.hw, s.eng.completedDescCount)
      (hw', count')) (hk' : hw'.kick = true) :
    txExitTest count' b.nbPkts = false ∧
      ∀ c, hw'.pending (txRules virt2phy s.eng) = some c → txExitTest c b.nbPkts = false := by
  cases hs with
  | begin _ _ _ _ => exact absurd hk' (by simp)
  | fetch _ _ i hr hk hp => exact absurd (hk.symm.trans hk') (by decide)
  | complete _ _ i d hp =>
    obtain ⟨hword, hpend⟩ := h.before hk'
    constructor
    · split
      · rename_i hrep
        apply hpend
        simp only [Walker.pending, hp, hrep, if_true]
      · exact hword
    · intro c hc
      have hnone := Walker.pending_of_phaseAfter (txRules virt2phy s.eng) (txRules virt2phy s.eng)
        (w := { s.hw with
          phase := Walker.phaseAfter (txRules virt2phy s.eng) d
          count := s.hw.count + 1
          done := s.hw.done ++ [i] }) rfl
      exact absurd (hnone.symm.trans hc) (by simp)

/-- Afterwards the word is what it was before the start, or the report of a completed
    descriptor. -/
theorem Waiting.after_device {b : TxBurst} (h : Waiting virt2phy s b)
    (hinv : TxSysInv virt2phy s) (hd : s.drv = .polling b) {hw' : Walker Nat XdmaDesc}
    {count' : Nat}
    (hs : Step (txRules virt2phy s.eng) s.eng.descRing (s.hw, s.eng.completedDescCount)
      (hw', count')) (hk' : hw'.kick = false) :
    txExitTest count' b.nbPkts = false ∨
      ∃ k < hw'.count, k ≤ lastDesc s.eng b ∧ count' = k + 1 ∧
        (s.eng.descRing k).completed = true := by
  obtain ⟨-, hstaged, -, hon⟩ := hinv.polling hd
  cases hk : s.hw.kick with
  | true =>
    -- The start was taken up just now, and the word is as it was.
    obtain ⟨-, rfl⟩ := hs.of_kick hk hk'
    exact .inl (h.before hk).1
  | false =>
    rcases ((hon hk).step hstaged.chain hs).2 with ⟨hcnt, rfl⟩ | ⟨hle, hcnt, hx⟩
    · -- Nothing was completed.
      rcases h.after hk with hno | ⟨k, hlt, hkm, hword, hrep⟩
      · exact .inl hno
      · exact .inr ⟨k, hcnt ▸ hlt, hkm, hword, hrep⟩
    · by_cases hrep : (s.eng.descRing s.hw.count).completed = true
      · -- The descriptor completed reports.
        have hrep' : (txRules virt2phy s.eng).report (s.eng.descRing s.hw.count) = true := hrep
        rw [hrep', if_pos rfl] at hx
        exact .inr ⟨s.hw.count, hcnt ▸ Nat.lt_succ_self _, hle, hx, hrep⟩
      · have hrep' : ¬ (txRules virt2phy s.eng).report (s.eng.descRing s.hw.count) = true := hrep
        rw [if_neg hrep'] at hx
        rcases h.after hk with hno | ⟨k, hlt, hkm, hword, hrepk⟩
        · exact .inl (hx ▸ hno)
        · exact .inr ⟨k, hcnt ▸ Nat.lt_succ_of_lt hlt, hkm, hx.trans hword, hrepk⟩

/-- A device step keeps it. -/
theorem Waiting.device {b : TxBurst} (h : Waiting virt2phy s b) (hinv : TxSysInv virt2phy s)
    (hd : s.drv = .polling b) {hw' : Walker Nat XdmaDesc} {count' : Nat}
    (hs : Step (txRules virt2phy s.eng) s.eng.descRing (s.hw, s.eng.completedDescCount)
      (hw', count')) :
    Waiting virt2phy { s with eng := s.eng.withWord count', hw := hw' } b :=
  ⟨h.packets, h.full, h.before_device hs, h.after_device hinv hd hs⟩

/-- A match of a waiting sound call finds every staged descriptor completed. -/
theorem Waiting.complete {b : TxBurst} (h : Waiting virt2phy s b) (hinv : TxSysInv virt2phy s)
    (hd : s.drv = .polling b) (ht : txExitTest s.eng.completedDescCount b.nbPkts = true) :
    ∀ i < stagedCount s.eng b, i ∈ s.hw.completed := by
  obtain ⟨-, hstaged, -, hon⟩ := hinv.polling hd
  have hmax := hinv.descMax
  have hle := stagedCount_le s.eng b
  simp only [xdmaDescMax] at hmax
  intro i hi
  cases hk : s.hw.kick with
  | true => exact absurd ((h.before hk).1.symm.trans ht) (by decide)
  | false =>
    rcases h.after hk with hno | ⟨k, hlt, hkm, hword, hrep⟩
    · exact absurd (hno.symm.trans ht) (by decide)
    · have hlast : lastDesc s.eng b < s.eng.descMax := Nat.mod_lt _ hinv.descMax_pos
      have hn : k + 1 = b.nbPkts := by
        rw [← hword]
        exact eq_of_txExitTest (by omega) ht
      unfold Walker.completed
      rw [hk, if_neg (by decide), (hon hk).done, List.mem_range]
      rcases Nat.lt_or_eq_of_le hle with hroom | hfull
      · have hm : lastDesc s.eng b = stagedCount s.eng b := lastDesc_of_lt hroom
        -- An earlier match would be a packet end.
        by_contra hno
        have hearly : b.nbPkts < stagedCount s.eng b := by omega
        have hend := h.packets hroom hearly
        rw [← hn, Nat.add_sub_cancel, ← hstaged.report k (by omega), hrep] at hend
        exact absurd hend (by decide)
      · have hm : lastDesc s.eng b = 0 := lastDesc_of_full hfull
        exact absurd (by omega) (h.full hfull)

/-- **Run lemma.** Along a run of sound calls, whatever waits is `Waiting`. -/
theorem TxReach.waiting (hmap : MapsRing virt2phy (xdmaTxEngineSetup virt2phy channelId a))
    (hok : ∀ s b, TxReach virt2phy channelId a ok s → s.drv = .idle → ok s b →
      CallSound virt2phy s b)
    (h : TxReach virt2phy channelId a ok s) {b : TxBurst} (hd : s.drv = .polling b)
    (hpos : 0 < stagedCount s.eng b) : Waiting virt2phy s b := by
  induction h generalizing b with
  | refl => simp [TxSys.init] at hd
  | @tail s s' hr hs ih =>
    have hinv := TxReach.inv hmap hr
    cases hs with
    | call b' hd' hrun hok' =>
      obtain rfl := TxDriver.polling.inj hd
      rw [stagedCount_xmitStart] at hpos
      have hidle := hinv.engine.idle hrun
      have hsound : NoEarlyMatch virt2phy s b' :=
        (hok s b' hr hd' hok').resolve_left (Nat.ne_of_gt hpos)
      have hmax := (frame_xmitStart s.eng b').descMax
      refine ⟨?_, ?_, ?_, ?_⟩
      · rw [stagedCount_xmitStart, packetEnd_xmitStart, hmax]
        exact hsound.packets
      · rw [stagedCount_xmitStart, hmax]
        exact hsound.full
      · intro _
        rw [completedDescCount_xmitStart s.eng b' hidle.used hinv.descMax_pos]
        exact ⟨hsound.word, hsound.inHand⟩
      · intro hk
        exact absurd hk (by simp [Walker.start])
    | busy b' hrun => exact ih hd hpos
    | exit b' hd' ht => exact absurd hd (by simp)
    | halt hd' => exact absurd hd (by simp)
    | reset hd' => exact absurd hd (by simp)
    | device hw' count' hs => exact (ih hd hpos).device hinv hd hs

/-- **No early end.** Whatever bursts are submitted, the wait never ends with a staged
    descriptor not completed, in any interleaving, exactly when every call is sound. -/
theorem not_endsEarly_iff (virt2phy : Addr → Addr) (channelId : BitVec 16) (a : SetupAlloc)
    (hmap : MapsRing virt2phy (xdmaTxEngineSetup virt2phy channelId a))
    (ok : TxSys → TxBurst → Prop) :
    (∀ s, TxReach virt2phy channelId a ok s → ¬ EndsEarly s)
      ↔ ∀ s b, TxReach virt2phy channelId a ok s → s.drv = .idle → ok s b →
          CallSound virt2phy s b := by
  constructor
  · intro hsafe s b hr hd hok
    by_contra hbad
    obtain ⟨s', hr', he⟩ := endsEarly_of_not_callSound hmap hr hd hok hbad
    exact hsafe s' hr' he
  · rintro hok s hr ⟨b, hd, ht, i, hi, hnot⟩
    have hwait := TxReach.waiting hmap hok hr hd (Nat.zero_lt_of_lt hi)
    exact hnot (hwait.complete (TxReach.inv hmap hr) hd ht i hi)

end

/-- On a fresh queue a burst of one packet is sound, and sound calls never end early. -/
theorem not_endsEarly_of_callSound :
    CallSound id (TxSys.init id 0 SetupAlloc.pages) (TxBurst.plain 1 (by decide)) ∧
      ∀ s, TxReach id 0 SetupAlloc.pages (CallSound id) s → ¬ EndsEarly s := by
  refine ⟨.inr ⟨by decide, ?_, by decide, by decide⟩, ?_⟩
  · intro c hc
    exact absurd hc (by simp [TxSys.init, Walker.pending, Walker.idle])
  · apply (not_endsEarly_iff id 0 SetupAlloc.pages freshTx_mapsRing (CallSound id)).mpr
    intro s b hr hd hok
    exact hok

/-- A packet of two segments and a packet of one. -/
def TxBurst.mixed : TxBurst where
  heap p := if p = 0 then { plainMbuf with nbSegs := 2, next := some 1 } else plainMbuf
  txPkts := [0, 2]
  nbPktsLt := by decide

/-- The report at the end of the first packet of `TxBurst.mixed` is 2, its `nb_pkts`, and the
    second packet is wiped. -/
theorem endsEarly_mixed :
    ¬ ∀ (virt2phy : Addr → Addr) (channelId : BitVec 16) (a : SetupAlloc),
      MapsRing virt2phy (xdmaTxEngineSetup virt2phy channelId a) →
      ∀ s, TxReach virt2phy channelId a (fun _ b => ∀ mb ∈ b.txPkts, 1 ≤ (b.heap mb).nbSegs) s →
        ¬ EndsEarly s := by
  intro h
  have hbad : ¬ CallSound id (TxSys.init id 0 SetupAlloc.pages) TxBurst.mixed := by
    rintro (hnone | hsound)
    · exact absurd hnone (by decide)
    · exact absurd (hsound.packets (by decide) (by decide)) (by decide)
  have hinit : TxReach id 0 SetupAlloc.pages (fun _ b => ∀ mb ∈ b.txPkts, 1 ≤ (b.heap mb).nbSegs)
      (TxSys.init id 0 SetupAlloc.pages) := Relation.ReflTransGen.refl
  obtain ⟨s', hr, he⟩ := endsEarly_of_not_callSound freshTx_mapsRing hinit rfl (by decide) hbad
  exact h id 0 SetupAlloc.pages freshTx_mapsRing s' hr he

end XdmaDpdk
