import XdmaDpdk.TxSystem

namespace XdmaDpdk

open ChainWalker

/-!
# XDMA driver — waits on a finished device

`Wedged` is the state in which a transmit burst waits for good: the device has walked its
chain to the end and halted, and the exit test is false now and in every later state.

The device always halts with the number of descriptors of its chain in the poll-mode word
(`TxReach.word_of_halted`): the last descriptor of the chain reports too.  So a burst can
wedge unless its `nb_pkts` is that very number, one more than the descriptors it staged or,
when it fills the ring, 1 (`not_wedged_iff`).
-/

/-- A burst waits on a halted device, and will in every later state. -/
def Wedged (virt2phy : Addr → Addr) (ok : TxSys → TxBurst → Prop) (s : TxSys) : Prop :=
  ∃ b, s.drv = .polling b ∧ s.hw.kick = false ∧ s.hw.phase = .halted ∧
    ∀ s', Relation.ReflTransGen (TxStep virt2phy ok) s s' →
      s'.drv = .polling b ∧ txExitTest s'.eng.completedDescCount b.nbPkts = false

/-- The number of descriptors the device walks for a burst. -/
def chainLength (e : XdmaEngine) (b : TxBurst) : Nat := stagedCount e b % e.descMax + 1

section
variable {virt2phy : Addr → Addr} {channelId : BitVec 16} {a : SetupAlloc}
  {ok : TxSys → TxBurst → Prop} {s : TxSys}

theorem chainLength_xmitStart (e : XdmaEngine) (b b' : TxBurst) :
    chainLength (xmitStart e b).2 b' = chainLength e b' := by
  unfold chainLength stagedCount
  rw [(frame_xmitStart e b).descMax]

/-! ### The word of a halted device -/

/-- When all of the chain is completed, the word holds the number of its descriptors. -/
def ReportsAll (s : TxSys) (b : TxBurst) : Prop :=
  s.hw.kick = false → s.hw.count = chainLength s.eng b →
    s.eng.completedDescCount = chainLength s.eng b

/-- A device step keeps it. -/
theorem ReportsAll.device {b : TxBurst} (h : ReportsAll s b) (hinv : TxSysInv virt2phy s)
    (hd : s.drv = .polling b) {hw' : Walker Nat XdmaDesc} {count' : Nat}
    (hs : Step (txRules virt2phy s.eng) s.eng.descRing (s.hw, s.eng.completedDescCount)
      (hw', count')) :
    ReportsAll { s with eng := s.eng.withWord count', hw := hw' } b := by
  obtain ⟨-, hstaged, -, hon⟩ := hinv.polling hd
  intro hk' hall
  have hall' : hw'.count = lastDesc s.eng b + 1 := hall
  cases hk : s.hw.kick with
  | true =>
    -- The start was taken up just now: nothing is completed.
    obtain ⟨rfl, -⟩ := hs.of_kick hk hk'
    exact absurd hall' (by simp)
  | false =>
    rcases ((hon hk).step hstaged.chain hs).2 with ⟨hcnt, rfl⟩ | ⟨-, hcnt, hx⟩
    · exact h hk (hcnt.symm.trans hall)
    · -- The last descriptor was completed, and it reports.
      have hlast : s.hw.count = lastDesc s.eng b := by omega
      have hrep : (txRules virt2phy s.eng).report (s.eng.descRing s.hw.count) = true := by
        rw [hlast]
        exact hstaged.reportLast
      rw [hrep, if_pos rfl, hlast] at hx
      exact hx

/-- **Run lemma.** A waiting burst comes from a call, and its chain is reported whole. -/
theorem TxReach.polling (hmap : MapsRing virt2phy (xdmaTxEngineSetup virt2phy channelId a))
    (h : TxReach virt2phy channelId a ok s) {b : TxBurst} (hd : s.drv = .polling b) :
    ReportsAll s b ∧ ∃ s₀, TxReach virt2phy channelId a ok s₀ ∧ s₀.drv = .idle ∧ ok s₀ b ∧
      chainLength s₀.eng b = chainLength s.eng b := by
  induction h generalizing b with
  | refl => simp [TxSys.init] at hd
  | @tail s s' hr hs ih =>
    cases hs with
    | call b' hd' hrun hok =>
      obtain rfl := TxDriver.polling.inj hd
      refine ⟨fun hk => ?_, s, hr, hd', hok, (chainLength_xmitStart s.eng b' b').symm⟩
      exact absurd hk (by simp [Walker.start])
    | busy b' hrun => exact ih hd
    | exit b' hd' ht => exact absurd hd (by simp)
    | halt hd' => exact absurd hd (by simp)
    | reset hd' => exact absurd hd (by simp)
    | device hw' count' hs =>
      obtain ⟨hrep, hcall⟩ := ih hd
      exact ⟨hrep.device (TxReach.inv hmap hr) hd hs, hcall⟩

/-- A device halted at the end of a waiting burst has reported the whole chain. -/
theorem TxReach.word_of_halted
    (hmap : MapsRing virt2phy (xdmaTxEngineSetup virt2phy channelId a))
    (h : TxReach virt2phy channelId a ok s) {b : TxBurst} (hd : s.drv = .polling b)
    (hk : s.hw.kick = false) (hp : s.hw.phase = .halted) :
    s.eng.completedDescCount = chainLength s.eng b := by
  obtain ⟨-, -, -, hon⟩ := (h.inv hmap).polling hd
  have hcount := (hon hk).phase
  rw [hp] at hcount
  exact (TxReach.polling hmap h hd).1 hk hcount

/-! ### States without a way on -/

/-- A burst that waits on a halted device with a false exit test stays there. -/
theorem wedged_of_halted {b : TxBurst} (hrun : s.eng.running = true) (hd : s.drv = .polling b)
    (hk : s.hw.kick = false) (hp : s.hw.phase = .halted)
    (ht : txExitTest s.eng.completedDescCount b.nbPkts = false) : Wedged virt2phy ok s := by
  refine ⟨b, hd, hk, hp, fun s' hs' => ?_⟩
  -- No step is left but a call that finds the engine busy.
  have hstay : s' = s := by
    induction hs' with
    | refl => rfl
    | tail _ hstep ih =>
      subst ih
      cases hstep with
      | call b' hd' hrun' _ => exact absurd (hrun.symm.trans hrun') (by decide)
      | busy b' _ => rfl
      | exit b' hd' ht' =>
        obtain rfl := TxDriver.polling.inj (hd.symm.trans hd')
        exact absurd (ht.symm.trans ht') (by decide)
      | halt hd' => exact absurd (hd.symm.trans hd') (by simp)
      | reset hd' => exact absurd (hd.symm.trans hd') (by simp)
      | device hw' count' hs => exact absurd hs (Step.not_of_halted hk hp)
  rw [hstay]
  exact ⟨hd, ht⟩

theorem chainLength_le (e : XdmaEngine) (b : TxBurst) (hmax : e.descMax = xdmaDescMax) :
    chainLength e b ≤ xdmaDescMax := by
  have hlt : stagedCount e b % e.descMax < e.descMax := by
    apply Nat.mod_lt
    rw [hmax]
    decide
  unfold chainLength
  omega

/-- The exit test on the word of a halted device. -/
theorem txExitTest_chainLength {e : XdmaEngine} {b : TxBurst} (hmax : e.descMax = xdmaDescMax) :
    txExitTest (chainLength e b) b.nbPkts = true ↔ b.nbPkts = chainLength e b := by
  have hle := chainLength_le e b hmax
  simp only [xdmaDescMax] at hle
  unfold txExitTest
  rw [Nat.mod_eq_of_lt (by omega), beq_iff_eq]
  exact eq_comm

/-- **A call of any other length wedges** in some schedule. -/
theorem wedged_of_ne (hmap : MapsRing virt2phy (xdmaTxEngineSetup virt2phy channelId a))
    (h : TxReach virt2phy channelId a ok s) (hd : s.drv = .idle) {b : TxBurst} (hok : ok s b)
    (hne : b.nbPkts ≠ chainLength s.eng b) :
    ∃ s', TxReach virt2phy channelId a ok s' ∧ Wedged virt2phy ok s' := by
  have hinv := h.inv hmap
  have hoff := (hinv.idle hd).1
  have h₁ := Relation.ReflTransGen.tail h (TxStep.call s b hd hoff hok)
  have hstaged := hinv.staged hoff b
  -- The device walks the whole chain before the thread looks at the word.
  obtain ⟨hw', hr', hk, -, hhalt⟩ := TxReach.reach_report hmap h₁ (b := b) rfl rfl
    (k := lastDesc (xmitStart s.eng b).2 b) (Nat.le_refl _) hstaged.reportLast
  have hword : lastDesc (xmitStart s.eng b).2 b + 1 = chainLength s.eng b :=
    chainLength_xmitStart s.eng b b
  refine ⟨_, hr', wedged_of_halted (xmitStart_running s.eng b) rfl hk (hhalt rfl) ?_⟩
  rw [← Bool.not_eq_true]
  intro ht
  refine hne ((txExitTest_chainLength hinv.descMax).mp ?_)
  rw [← hword]
  exact ht

/-- **No wedge.** Whatever bursts are submitted, no interleaving leaves a burst waiting on a
    halted device for good, exactly when every burst asks for as many packets as the device
    walks descriptors for it. -/
theorem not_wedged_iff (virt2phy : Addr → Addr) (channelId : BitVec 16) (a : SetupAlloc)
    (hmap : MapsRing virt2phy (xdmaTxEngineSetup virt2phy channelId a))
    (ok : TxSys → TxBurst → Prop) :
    (∀ s, TxReach virt2phy channelId a ok s → ¬ Wedged virt2phy ok s)
      ↔ ∀ s b, TxReach virt2phy channelId a ok s → s.drv = .idle → ok s b →
          b.nbPkts = chainLength s.eng b := by
  constructor
  · intro hsafe s b hr hd hok
    by_contra hne
    obtain ⟨s', hr', hw⟩ := wedged_of_ne hmap hr hd hok hne
    exact hsafe s' hr' hw
  · rintro hok s hr ⟨b, hd, hk, hp, hlater⟩
    obtain ⟨s₀, hr₀, hd₀, hok₀, hlen⟩ := (TxReach.polling hmap hr hd).2
    have hword := TxReach.word_of_halted hmap hr hd hk hp
    have hexit : txExitTest s.eng.completedDescCount b.nbPkts = true := by
      rw [hword, txExitTest_chainLength (TxReach.inv hmap hr).descMax, hok s₀ b hr₀ hd₀ hok₀]
      exact hlen
    exact absurd ((hlater s Relation.ReflTransGen.refl).2.symm.trans hexit) (by decide)

end

/-- One packet whose segments fill the ring. -/
def TxBurst.wholeRing : TxBurst where
  heap p :=
    { plainMbuf with
      nbSegs := if p = 0 then xdmaDescMax else 1
      next := if p + 1 < xdmaDescMax then some (p + 1) else none }
  txPkts := [0]
  nbPktsLt := by decide

/-- A burst that fills the ring with one packet has a chain of one descriptor. -/
theorem chainLength_wholeRing {e : XdmaEngine} (hmax : e.descMax = xdmaDescMax) :
    TxBurst.wholeRing.nbPkts = chainLength e TxBurst.wholeRing := by
  unfold chainLength stagedCount
  rw [hmax]
  decide

/-- A queue that is only given bursts of one packet that fills the ring never wedges. -/
theorem not_wedged_wholeRing :
    ¬ ∃ s, TxReach id 0 SetupAlloc.pages (fun _ b => b = TxBurst.wholeRing) s ∧
      Wedged id (fun _ b => b = TxBurst.wholeRing) s := by
  rintro ⟨s, hr, hw⟩
  refine (not_wedged_iff id 0 SetupAlloc.pages freshTx_mapsRing _).mpr ?_ s hr hw
  rintro s' b hr' hd rfl
  exact chainLength_wholeRing (TxReach.inv freshTx_mapsRing hr').descMax

/-- One packet of one segment wedges when the device walks past its descriptor and the
    terminator before the thread looks: the word goes from 1 to 2. -/
theorem wedged_one_packet :
    ¬ ∀ (virt2phy : Addr → Addr) (channelId : BitVec 16) (a : SetupAlloc),
      MapsRing virt2phy (xdmaTxEngineSetup virt2phy channelId a) →
      ∀ s, TxReach virt2phy channelId a (fun _ b => ∀ mb ∈ b.txPkts, 1 ≤ (b.heap mb).nbSegs) s →
        ¬ Wedged virt2phy (fun _ b => ∀ mb ∈ b.txPkts, 1 ≤ (b.heap mb).nbSegs) s := by
  intro h
  have hinit : TxReach id 0 SetupAlloc.pages (fun _ b => ∀ mb ∈ b.txPkts, 1 ≤ (b.heap mb).nbSegs)
      (TxSys.init id 0 SetupAlloc.pages) := Relation.ReflTransGen.refl
  obtain ⟨s', hr, hw⟩ := wedged_of_ne freshTx_mapsRing hinit rfl (b := TxBurst.plain 1 (by decide))
    (fun _ _ => Nat.le_refl 1) (by decide)
  exact h id 0 SetupAlloc.pages freshTx_mapsRing s' hr hw

end XdmaDpdk
