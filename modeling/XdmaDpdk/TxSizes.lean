import XdmaDpdk.TxDelivery

namespace XdmaDpdk

open ChainWalker

/-!
# XDMA driver — transmit bursts of one-segment packets

An application that only sends packets of one segment, in bursts whose sizes are taken from
a set `sizes` of numbers below `desc_max`.  A burst of `n` packets has a chain of `n + 1`
descriptors, the terminator included, so `n + 1` is the report a later burst may find: in
the word, or still in the hand of the device.

* `SizesInv` — the counts a call can find are 0 and `n + 1` for a size `n`, kept by every
  step (`SizesInv.step`);
* `TxReach.after_burst` — a burst of `n` packets can leave the report `n + 1` in hand;
* `inOrder_sizes_iff` — everything is delivered exactly once and in order, in every
  interleaving, exactly when no two sizes are consecutive.
-/

/-! ### One-segment bursts -/

/-- Every packet of the burst has one segment. -/
def OneSegment (b : TxBurst) : Prop := ∀ mb ∈ b.txPkts, (b.heap mb).nbSegs = 1

/-- The application: one-segment bursts of the given sizes, whatever the state. -/
def OfSizes (sizes : Nat → Prop) : TxSys → TxBurst → Prop :=
  fun _ b => OneSegment b ∧ sizes b.nbPkts

theorem oneSegment_plain (n : Nat) (hn : n < 2 ^ 16) : OneSegment (TxBurst.plain n hn) :=
  fun _ _ => rfl

theorem nbPkts_plain (n : Nat) (hn : n < 2 ^ 16) : (TxBurst.plain n hn).nbPkts = n :=
  List.length_replicate ..

/-- One descriptor a packet, in order, when the packets fit. -/
theorem OneSegment.writes {b : TxBurst} (h : OneSegment b) {descMax : Nat}
    (hfit : b.nbPkts ≤ descMax) :
    b.writes descMax = b.txPkts.map (fun mb => (b.heap mb, true)) := by
  have hsegs : b.txPkts.map (fun mb => (b.heap mb).nbSegs) = List.replicate b.nbPkts 1 := by
    rw [TxBurst.nbPkts, ← List.map_const']
    exact List.map_congr_left h
  have hacc : accepted b.heap b.txPkts descMax = b.txPkts := by
    apply (accepted_eq_self_iff b.heap b.txPkts descMax).mpr
    rw [hsegs, List.sum_replicate_nat, Nat.mul_one]
    exact hfit
  have hpkt : ∀ mb ∈ b.txPkts, pktWrites b.heap mb = [(b.heap mb, true)] := by
    intro mb hmb
    unfold pktWrites
    rw [h mb hmb]
    rfl
  unfold TxBurst.writes
  rw [hacc, List.flatMap_congr hpkt, List.map_eq_flatMap]

theorem OneSegment.stagedCount {b : TxBurst} (h : OneSegment b) (e : XdmaEngine)
    (hfit : b.nbPkts ≤ e.descMax) : stagedCount e b = b.nbPkts := by
  unfold XdmaDpdk.stagedCount
  rw [h.writes hfit, List.length_map]
  rfl

/-- Every one of its descriptors ends a packet. -/
theorem OneSegment.packetEnd {b : TxBurst} (h : OneSegment b) {e : XdmaEngine}
    (hmax : e.descMax = xdmaDescMax) (hfit : b.nbPkts ≤ xdmaDescMax) {i : Nat}
    (hi : i < b.nbPkts) : packetEnd e b i = true := by
  have hget : i < b.txPkts.length := hi
  unfold XdmaDpdk.packetEnd
  rw [h.writes (hmax.symm ▸ hfit), List.getElem?_map, List.getElem?_eq_getElem hget]
  rfl

/-- One-segment bursts that are not sound find their size in the word, or in the hand of the
    device. -/
theorem OneSegment.unsound {virt2phy : Addr → Addr} {t : TxSys} {b : TxBurst} (h : OneSegment b)
    (hmax : t.eng.descMax = xdmaDescMax) (hfit : b.nbPkts ≤ xdmaDescMax)
    (hbad : ¬ CallSound virt2phy t b) :
    txExitTest t.eng.completedDescCount b.nbPkts = true ∨
      ∃ c, t.hw.pending (txRules virt2phy t.eng) = some c ∧ txExitTest c b.nbPkts = true := by
  by_contra hno
  apply hbad
  have hcount := h.stagedCount t.eng (hmax.symm ▸ hfit)
  refine .inr ⟨?_, fun c hc => ?_, fun _ hlt => ?_, fun hfull => ?_⟩
  · rw [← Bool.not_eq_true]
    exact fun ht => hno (.inl ht)
  · rw [← Bool.not_eq_true]
    exact fun ht => hno (.inr ⟨c, hc, ht⟩)
  · rw [hcount] at hlt
    exact absurd hlt (Nat.lt_irrefl _)
  · rw [hcount, hmax] at hfull
    rw [hfull]
    decide

/-! ### The counts a call can find -/

/-- Zero, or what the terminator of a burst of one of the sizes reports. -/
def StaleCount (sizes : Nat → Prop) (c : Nat) : Prop := c = 0 ∨ ∃ n, sizes n ∧ c = n + 1

/-- The report in hand is one a later burst may find. -/
def StaleHand (virt2phy : Addr → Addr) (sizes : Nat → Prop) (s : TxSys) : Prop :=
  ∀ c, s.hw.pending (txRules virt2phy s.eng) = some c → StaleCount sizes c

/-- After its exit test a burst of `n` packets has at most its terminator left. -/
structure AtEnd (virt2phy : Addr → Addr) (s : TxSys) (n : Nat) : Prop where
  chain : IsChain (txRules virt2phy s.eng) s.eng.descRing n
  before : s.hw.kick = true → n = 0
  after : s.hw.kick = false → OnChain s.eng.descRing n s.hw ∧ n ≤ s.hw.count

/-- What each place of the thread knows of the counts. -/
def SizesInv (virt2phy : Addr → Addr) (sizes : Nat → Prop) (s : TxSys) : Prop :=
  match s.drv with
  | .idle => StaleCount sizes s.eng.completedDescCount ∧ StaleHand virt2phy sizes s
  | .polling b => OneSegment b ∧ sizes b.nbPkts ∧
      (s.hw.kick = true →
        StaleCount sizes s.eng.completedDescCount ∧ StaleHand virt2phy sizes s) ∧
      (s.hw.kick = false → StaleCount sizes s.eng.completedDescCount ∨
        s.eng.completedDescCount ≤ s.hw.count)
  | .exited => StaleHand virt2phy sizes s ∧ ∃ n, sizes n ∧ AtEnd virt2phy s n
  | .stopping => StaleHand virt2phy sizes s

section
variable {virt2phy : Addr → Addr} {sizes : Nat → Prop} {s : TxSys}

theorem StaleCount.word_device {w w' : Walker Nat XdmaDesc} {R : Rules Nat XdmaDesc}
    {mem : Nat → XdmaDesc} {x x' : Nat} (hx : StaleCount sizes x)
    (hhand : ∀ c, w.pending R = some c → StaleCount sizes c) (hs : Step R mem (w, x) (w', x')) :
    StaleCount sizes x' := by
  rcases hs.word_cases with rfl | hp
  · exact hx
  · exact hhand x' hp

/-- A true exit test is a match of the counts: they are far below the mask. -/
theorem eq_of_exit {word n count : Nat} (hlt : ∀ m, sizes m → m < xdmaDescMax)
    (hcount : count ≤ xdmaDescMax) (hword : StaleCount sizes word ∨ word ≤ count)
    (ht : txExitTest word n = true) : word = n := by
  apply eq_of_txExitTest _ ht
  simp only [xdmaDescMax] at hlt hcount
  rcases hword with (rfl | ⟨m, hm, rfl⟩) | hle
  · decide
  · have hm' := hlt m hm
    omega
  · omega

/-- No count a call can find is a positive size, when no two sizes are consecutive. -/
theorem StaleCount.ne {c n : Nat} (hgap : ∀ m, sizes m → ¬ sizes (m + 1)) (h : StaleCount sizes c)
    (hn : sizes n) (hpos : 0 < n) : c ≠ n := by
  rintro rfl
  rcases h with hzero | ⟨m, hm, rfl⟩
  · omega
  · exact hgap m hm hn

/-- A report gets in hand by a fetch. -/
theorem staleHand_device {hw' : Walker Nat XdmaDesc} {count' : Nat}
    (hs : Step (txRules virt2phy s.eng) s.eng.descRing (s.hw, s.eng.completedDescCount)
      (hw', count'))
    (hfetch : ∀ i, s.hw.run = true → s.hw.kick = false → s.hw.phase = .ready i →
      StaleCount sizes (s.hw.count + 1)) (drv : TxDriver) :
    StaleHand virt2phy sizes { eng := s.eng.withWord count', hw := hw', drv := drv } := by
  intro c hc
  obtain ⟨i, hr, hk, hp, rfl⟩ := hs.pending_cases hc
  exact hfetch i hr hk hp

/-- A device step leaves a burst past its exit test where it is. -/
theorem AtEnd.device {n : Nat} (h : AtEnd virt2phy s n) {hw' : Walker Nat XdmaDesc} {count' : Nat}
    (hs : Step (txRules virt2phy s.eng) s.eng.descRing (s.hw, s.eng.completedDescCount)
      (hw', count')) (drv : TxDriver) :
    AtEnd virt2phy { eng := s.eng.withWord count', hw := hw', drv := drv } n := by
  refine ⟨h.chain, fun hk' => h.before (hs.kick_of_kick hk'), fun hk' => ?_⟩
  cases hk : s.hw.kick with
  | true =>
    obtain ⟨rfl, -⟩ := hs.of_kick hk hk'
    exact ⟨OnChain.of_begin h.chain s.hw, Nat.le_of_eq (h.before hk)⟩
  | false =>
    obtain ⟨hon, hcount⟩ := h.after hk
    obtain ⟨hon', hcases⟩ := hon.step h.chain hs
    refine ⟨hon', hcount.trans ?_⟩
    show s.hw.count ≤ hw'.count
    rcases hcases with ⟨heq, -⟩ | ⟨-, heq, -⟩
    · exact Nat.le_of_eq heq.symm
    · omega

/-- The record such a burst can fetch is the one after its `n` packets. -/
theorem AtEnd.fetch {n : Nat} (h : AtEnd virt2phy s n) {i : Nat} (hk : s.hw.kick = false)
    (hp : s.hw.phase = .ready i) : s.hw.count = n := by
  obtain ⟨hon, hcount⟩ := h.after hk
  have hph := hon.phase
  rw [hp] at hph
  omega

/-- A true exit test finds all packets of the burst completed. -/
theorem SizesInv.completed (h : SizesInv virt2phy sizes s) (hinv : TxSysInv virt2phy s)
    (hlt : ∀ m, sizes m → m < xdmaDescMax) (hgap : ∀ m, sizes m → ¬ sizes (m + 1))
    {b : TxBurst} (hd : s.drv = .polling b)
    (ht : txExitTest s.eng.completedDescCount b.nbPkts = true) (hpos : 0 < b.nbPkts) :
    s.hw.kick = false ∧ b.nbPkts ≤ s.hw.count := by
  obtain ⟨-, hstaged, -, hon⟩ := hinv.polling hd
  simp only [SizesInv, hd] at h
  obtain ⟨-, hn, hbefore, hafter⟩ := h
  cases hk : s.hw.kick with
  | true =>
    have hstale := (hbefore hk).1
    exact absurd (eq_of_exit hlt (Nat.zero_le _) (.inl hstale) ht) (hstale.ne hgap hn hpos)
  | false =>
    refine ⟨rfl, ?_⟩
    have hcount : s.hw.count ≤ xdmaDescMax := by
      have hle := (hon hk).count_le
      have hlast := lastDesc_lt (b := b) hinv.descMax
      rw [hinv.descMax] at hlast
      omega
    have hword := eq_of_exit hlt hcount (hafter hk) ht
    rcases hafter hk with hstale | hle
    · exact absurd hword (hstale.ne hgap hn hpos)
    · omega

/-- **Exit.** -/
theorem SizesInv.exit (h : SizesInv virt2phy sizes s) (hinv : TxSysInv virt2phy s)
    (hlt : ∀ m, sizes m → m < xdmaDescMax) (hgap : ∀ m, sizes m → ¬ sizes (m + 1))
    {b : TxBurst} (hd : s.drv = .polling b)
    (ht : txExitTest s.eng.completedDescCount b.nbPkts = true) :
    SizesInv virt2phy sizes { s with drv := .exited } := by
  obtain ⟨-, hstaged, -, hon⟩ := hinv.polling hd
  have hdone := h.completed hinv hlt hgap hd ht
  simp only [SizesInv, hd] at h
  obtain ⟨hone, hn, hbefore, -⟩ := h
  have hmax : b.nbPkts < s.eng.descMax := by
    rw [hinv.descMax]
    exact hlt b.nbPkts hn
  have hcount : stagedCount s.eng b = b.nbPkts := hone.stagedCount s.eng (Nat.le_of_lt hmax)
  have hlast : lastDesc s.eng b = b.nbPkts := by
    rw [← hcount]
    apply lastDesc_of_lt
    rwa [hcount]
  have hchain := hstaged.chain
  rw [hlast] at hchain hon
  have hhand : StaleHand virt2phy sizes s := by
    intro c hc
    cases hk : s.hw.kick with
    | true => exact (hbefore hk).2 c hc
    | false =>
      -- Past the packets, only the terminator can be in hand.
      obtain ⟨i, d, hp, hcnt⟩ := Walker.pending_eq_some hc
      have hph := (hon hk).phase
      rw [hp] at hph
      refine .inr ⟨b.nbPkts, hn, ?_⟩
      rcases Nat.eq_zero_or_pos b.nbPkts with hzero | hpos
      · omega
      · have hle := (hdone hpos).2
        omega
  refine ⟨hhand, b.nbPkts, hn, hchain, ?_, ?_⟩
  · intro hk
    by_contra hne
    exact absurd (hk.symm.trans (hdone (Nat.pos_of_ne_zero hne)).1) (by decide)
  · intro hk
    refine ⟨hon hk, ?_⟩
    rcases Nat.eq_zero_or_pos b.nbPkts with hzero | hpos
    · exact hzero.symm ▸ Nat.zero_le _
    · exact (hdone hpos).2

/-- **Device steps** keep what is known of the counts. -/
theorem SizesInv.device (h : SizesInv virt2phy sizes s) (hinv : TxSysInv virt2phy s)
    {hw' : Walker Nat XdmaDesc} {count' : Nat}
    (hs : Step (txRules virt2phy s.eng) s.eng.descRing (s.hw, s.eng.completedDescCount)
      (hw', count')) :
    SizesInv virt2phy sizes { s with eng := s.eng.withWord count', hw := hw' } := by
  cases hd : s.drv with
  | idle =>
    have hoff := (hinv.idle hd).2.1
    simp only [SizesInv, hd] at h ⊢
    exact ⟨h.1.word_device h.2 hs,
      staleHand_device hs (fun i hr _ _ => absurd (hoff.symm.trans hr) (by decide)) _⟩
  | polling b =>
    obtain ⟨-, hstaged, -, hon⟩ := hinv.polling hd
    simp only [SizesInv, hd] at h ⊢
    obtain ⟨hone, hn, hbefore, hafter⟩ := h
    refine ⟨hone, hn, fun hk' => ?_, fun hk' => ?_⟩
    · have hk := hs.kick_of_kick hk'
      obtain ⟨hword, hhand⟩ := hbefore hk
      exact ⟨hword.word_device hhand hs,
        staleHand_device hs (fun i _ hno _ => absurd (hk.symm.trans hno) (by decide)) _⟩
    · show StaleCount sizes count' ∨ count' ≤ hw'.count
      cases hk : s.hw.kick with
      | true =>
        -- The start is taken up just now, and the word is as it was.
        obtain ⟨-, rfl⟩ := hs.of_kick hk hk'
        exact .inl (hbefore hk).1
      | false =>
        rcases ((hon hk).step hstaged.chain hs).2 with ⟨hcnt, rfl⟩ | ⟨-, hcnt, hx⟩
        · rw [hcnt]
          exact hafter hk
        · split at hx
          · exact .inr (by omega)
          · rw [hx]
            exact (hafter hk).imp_right (fun hle => by omega)
  | exited =>
    simp only [SizesInv, hd] at h ⊢
    obtain ⟨-, n, hn, hend⟩ := h
    refine ⟨staleHand_device hs (fun i _ hk hp => ?_) _, n, hn, hend.device hs _⟩
    exact .inr ⟨n, hn, by rw [hend.fetch hk hp]⟩
  | stopping =>
    have hdrv := hinv.driver
    simp only [DriverInv, hd] at hdrv
    have hoff := hdrv.2.2.1
    simp only [SizesInv, hd] at h ⊢
    exact staleHand_device hs (fun i hr _ _ => absurd (hoff.symm.trans hr) (by decide)) _

/-- **Step lemma.** -/
theorem SizesInv.step {s' : TxSys} (h : SizesInv virt2phy sizes s) (hinv : TxSysInv virt2phy s)
    (hlt : ∀ m, sizes m → m < xdmaDescMax) (hgap : ∀ m, sizes m → ¬ sizes (m + 1))
    (hs : TxStep virt2phy (OfSizes sizes) s s') : SizesInv virt2phy sizes s' := by
  cases hs with
  | call b hd hr hok =>
    have hidle := hinv.engine.idle hr
    simp only [SizesInv, hd] at h
    refine ⟨hok.1, hok.2, fun _ => ?_, fun hk => absurd hk (by simp [Walker.start])⟩
    rw [completedDescCount_xmitStart s.eng b hidle.used hinv.descMax_pos]
    exact h
  | busy b hr => exact h
  | exit b hd ht => exact h.exit hinv hlt hgap hd ht
  | halt hd =>
    simp only [SizesInv, hd] at h
    exact h.1
  | reset hd =>
    simp only [SizesInv, hd] at h
    exact ⟨.inl rfl, h⟩
  | device hw' count' hs => exact h.device hinv hs

/-- **Run lemma.** -/
theorem TxReach.sizesInv {channelId : BitVec 16} {a : SetupAlloc}
    (hmap : MapsRing virt2phy (xdmaTxEngineSetup virt2phy channelId a))
    (hlt : ∀ m, sizes m → m < xdmaDescMax) (hgap : ∀ m, sizes m → ¬ sizes (m + 1))
    (h : TxReach virt2phy channelId a (OfSizes sizes) s) : SizesInv virt2phy sizes s := by
  induction h with
  | refl =>
    refine ⟨.inl rfl, fun c hc => ?_⟩
    exact absurd hc (by simp [TxSys.init, Walker.pending, Walker.idle])
  | tail hr hs ih => exact ih.step (TxReach.inv hmap hr) hlt hgap hs

/-- Sizes without consecutive ones never end early. -/
theorem SizesInv.not_endsEarly (h : SizesInv virt2phy sizes s) (hinv : TxSysInv virt2phy s)
    (hlt : ∀ m, sizes m → m < xdmaDescMax) (hgap : ∀ m, sizes m → ¬ sizes (m + 1)) :
    ¬ EndsEarly s := by
  rintro ⟨b, hd, ht, i, hi, hnot⟩
  obtain ⟨-, -, -, hon⟩ := hinv.polling hd
  have hpos : 0 < b.nbPkts := nbPkts_pos_of_staged (Nat.zero_lt_of_lt hi)
  obtain ⟨hk, hle⟩ := h.completed hinv hlt hgap hd ht hpos
  simp only [SizesInv, hd] at h
  have hmax : b.nbPkts ≤ s.eng.descMax := by
    rw [hinv.descMax]
    exact Nat.le_of_lt (hlt b.nbPkts h.2.1)
  rw [h.1.stagedCount s.eng hmax] at hi
  unfold Walker.completed at hnot
  rw [hk, if_neg (by decide), (hon hk).done, List.mem_range] at hnot
  omega

/-! ### Consecutive sizes -/

/-- While a burst waits for a device at rest that has not taken up its start, the device can
    complete the first `k` descriptors and fetch the next one. -/
theorem TxReach.reach_hand {channelId : BitVec 16} {a : SetupAlloc} {ok : TxSys → TxBurst → Prop}
    (hmap : MapsRing virt2phy (xdmaTxEngineSetup virt2phy channelId a))
    (h : TxReach virt2phy channelId a ok s) {b : TxBurst} (hd : s.drv = .polling b)
    (hk : s.hw.kick = true) (hrest : ∀ i d, s.hw.phase ≠ .busy i d) {k : Nat}
    (hkm : k ≤ lastDesc s.eng b)
    (hword : ∀ j, k = j + 1 → (s.eng.descRing j).completed = true)
    (hzero : k = 0 → s.eng.completedDescCount = 0) :
    ∃ hw', TxReach virt2phy channelId a ok { s with eng := s.eng.withWord k, hw := hw' } ∧
      hw'.phase = .busy k (s.eng.descRing k) ∧ hw'.count = k := by
  obtain ⟨-, hstaged, hrun, -⟩ := (h.inv hmap).polling hd
  have hbegin : Step (txRules virt2phy s.eng) s.eng.descRing (s.hw, s.eng.completedDescCount) _ :=
    Step.begin s.hw s.eng.completedDescCount hk hrest
  have hon := OnChain.of_begin hstaged.chain s.hw
  -- The walk up to count `k`, which the word then holds.
  obtain ⟨w, hs, honw, hr, hc⟩ : ∃ w, Relation.ReflTransGen
      (Step (txRules virt2phy s.eng) s.eng.descRing) (s.hw, s.eng.completedDescCount) (w, k) ∧
        OnChain s.eng.descRing (lastDesc s.eng b) w ∧ w.run = true ∧ w.count = k := by
    cases k with
    | zero =>
      rw [hzero rfl] at hbegin ⊢
      exact ⟨_, Relation.ReflTransGen.single hbegin, hon, hrun, rfl⟩
    | succ j =>
      obtain ⟨w, x, hs, honw, hr, hc, hx⟩ :=
        hon.reach hstaged.chain hrun rfl s.eng.completedDescCount j (by omega)
      obtain rfl := hx (hword j rfl)
      exact ⟨w, (Relation.ReflTransGen.single hbegin).trans hs, honw, hr, hc⟩
  obtain ⟨w', hs', hp', hc'⟩ := honw.take (R := txRules virt2phy s.eng) hr (hc.symm ▸ hkm) k
  rw [hc] at hp' hc'
  exact ⟨w', h.device (hs.trans hs'), hp', hc'⟩

/-- A burst that waits with its terminator in the hand of the device, and its exit test true,
    can return and leave it there. -/
theorem TxReach.returned {channelId : BitVec 16} {a : SetupAlloc} {ok : TxSys → TxBurst → Prop}
    (h : TxReach virt2phy channelId a ok s) {b : TxBurst} (hd : s.drv = .polling b)
    (ht : txExitTest s.eng.completedDescCount b.nbPkts = true) :
    TxReach virt2phy channelId a ok
      { eng := xdmaTxEngineStop s.eng, hw := s.hw.stop, drv := .idle } :=
  Relation.ReflTransGen.tail
    (Relation.ReflTransGen.tail (Relation.ReflTransGen.tail h (TxStep.exit s b hd ht))
      (TxStep.halt _ rfl))
    (TxStep.reset _ rfl)

theorem lastDesc_plain {e : XdmaEngine} (hmax : e.descMax = xdmaDescMax) {n : Nat}
    (hn : n < xdmaDescMax) (hn16 : n < 2 ^ 16) : lastDesc e (TxBurst.plain n hn16) = n := by
  have hcount := (oneSegment_plain n hn16).stagedCount e
    (by rw [nbPkts_plain, hmax]; exact Nat.le_of_lt hn)
  unfold lastDesc
  rw [hcount, nbPkts_plain, hmax, Nat.mod_eq_of_lt hn]

/-- From a queue just set up a burst of `n` packets can return and leave the report of its
    terminator, `n + 1`, in the hand of the device. -/
theorem TxReach.after_burst {channelId : BitVec 16} {a : SetupAlloc}
    (hmap : MapsRing virt2phy (xdmaTxEngineSetup virt2phy channelId a)) {n : Nat}
    (hlt : n < xdmaDescMax) (hn : sizes n) :
    ∃ s, TxReach virt2phy channelId a (OfSizes sizes) s ∧ s.drv = .idle ∧
      s.hw.pending (txRules virt2phy s.eng) = some (n + 1) := by
  have hn16 : n < 2 ^ 16 := by
    simp only [xdmaDescMax] at hlt
    omega
  have hok : OfSizes sizes (TxSys.init virt2phy channelId a) (TxBurst.plain n hn16) := by
    refine ⟨oneSegment_plain n hn16, ?_⟩
    rwa [nbPkts_plain]
  have hcall : TxReach virt2phy channelId a (OfSizes sizes) _ :=
    Relation.ReflTransGen.single (TxStep.call _ _ rfl rfl hok)
  have hinv := hcall.inv hmap
  obtain ⟨-, hstaged, -, -⟩ := hinv.polling rfl
  have hlast := lastDesc_plain hinv.descMax hlt hn16
  -- Every packet end reports, and so does the terminator.
  obtain ⟨hw', hr, hp, hc⟩ := TxReach.reach_hand hmap hcall rfl rfl
    (by simp [TxSys.init, Walker.idle, Walker.start]) (k := n) (Nat.le_of_eq hlast.symm)
    (fun j hj => by
      rw [hstaged.report j (by show j < lastDesc _ _; rw [hlast]; omega)]
      have hone := oneSegment_plain n hn16
      rw [hone.packetEnd hinv.descMax (by rw [nbPkts_plain]; omega) (by rw [nbPkts_plain]; omega)])
    (fun _ => completedDescCount_xmitStart _ _ rfl (show 0 < xdmaDescMax by decide))
  refine ⟨_, hr.returned rfl ?_, rfl, ?_⟩
  · show txExitTest n (TxBurst.plain n hn16).nbPkts = true
    rw [nbPkts_plain]
    exact txExitTest_self n hn16
  · have hrep := hstaged.reportLast
    rw [hlast] at hrep
    show Walker.pending _ hw'.stop = some (n + 1)
    have hp' : hw'.stop.phase = .busy n _ := hp
    unfold Walker.pending
    rw [hp']
    show (if XdmaDesc.completed _ = true then some (hw'.count + 1) else none) = some (n + 1)
    rw [if_pos hrep, hc]

/-- With gaps between the sizes every run delivers in order. -/
theorem TxRun.inOrder_of_gaps {channelId : BitVec 16} {a : SetupAlloc} {sent : List XdmaDesc}
    {calls : List TxBurst} (hmap : MapsRing virt2phy (xdmaTxEngineSetup virt2phy channelId a))
    (hlt : ∀ n, sizes n → n < xdmaDescMax) (hgap : ∀ n, sizes n → ¬ sizes (n + 1))
    (h : TxRun virt2phy channelId a (OfSizes sizes) sent calls s) : InOrder sent calls s := by
  apply h.inOrder hmap
  intro s' hr
  exact (hr.sizesInv hmap hlt hgap).not_endsEarly (hr.inv hmap) hlt hgap

/-- Two consecutive sizes and some run does not. -/
theorem gaps_of_inOrder {channelId : BitVec 16} {a : SetupAlloc}
    (hmap : MapsRing virt2phy (xdmaTxEngineSetup virt2phy channelId a))
    (hlt : ∀ n, sizes n → n < xdmaDescMax)
    (hord : ∀ sent calls s, TxRun virt2phy channelId a (OfSizes sizes) sent calls s →
      InOrder sent calls s) (n : Nat) (hn : sizes n) : ¬ sizes (n + 1) := by
  intro hn'
  obtain ⟨s, hr, hd, hpend⟩ := TxReach.after_burst hmap (hlt n hn) hn
  have hlt' := hlt (n + 1) hn'
  have hn16 : n + 1 < 2 ^ 16 := by
    simp only [xdmaDescMax] at hlt'
    omega
  have hok : OfSizes sizes s (TxBurst.plain (n + 1) hn16) := by
    refine ⟨oneSegment_plain _ hn16, ?_⟩
    rwa [nbPkts_plain]
  have hsound := callSound_of_inOrder hmap hord hr hd hok
  have hcount := (oneSegment_plain (n + 1) hn16).stagedCount s.eng
    (by rw [nbPkts_plain, (hr.inv hmap).descMax]; exact Nat.le_of_lt hlt')
  rw [nbPkts_plain] at hcount
  -- The terminator still in hand reports the size of the next burst.
  rcases hsound with hzero | hsound
  · omega
  · have hno := hsound.inHand (n + 1) hpend
    rw [nbPkts_plain, txExitTest_self _ hn16] at hno
    exact absurd hno (by decide)

/-- **Sizes.** An application sends one-segment packets in bursts of the given sizes, all
    below `desc_max`.  In every interleaving every segment is delivered exactly once and in
    order, exactly when no two of the sizes are consecutive. -/
theorem inOrder_sizes_iff (virt2phy : Addr → Addr) (channelId : BitVec 16) (a : SetupAlloc)
    (hmap : MapsRing virt2phy (xdmaTxEngineSetup virt2phy channelId a)) (sizes : Nat → Prop)
    (hlt : ∀ n, sizes n → n < xdmaDescMax) :
    (∀ sent calls s, TxRun virt2phy channelId a (OfSizes sizes) sent calls s →
        InOrder sent calls s)
      ↔ ∀ n, sizes n → ¬ sizes (n + 1) := by
  constructor
  · intro hord n hn
    exact gaps_of_inOrder hmap hlt hord n hn
  · intro hgap sent calls s hrun
    exact hrun.inOrder_of_gaps hmap hlt hgap

end

/-- Bursts of 8, 16 and 31 packets. -/
theorem inOrder_sizes_gaps :
    (∀ sent calls s, TxRun id 0 SetupAlloc.pages (OfSizes (fun n => n = 8 ∨ n = 16 ∨ n = 31))
        sent calls s → InOrder sent calls s)
      ↔ ∀ n, (n = 8 ∨ n = 16 ∨ n = 31) → ¬ (n + 1 = 8 ∨ n + 1 = 16 ∨ n + 1 = 31) :=
  inOrder_sizes_iff id 0 SetupAlloc.pages freshTx_mapsRing _ (by
    simp only [xdmaDescMax]
    omega)

end XdmaDpdk
