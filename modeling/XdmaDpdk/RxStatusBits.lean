import XdmaDpdk.RxLength

namespace XdmaDpdk

/-!
# XDMA driver — the status bits of the completion word

The upper 8 bits of the completion word are status bits.  The transmit burst masks them
(`txExitTest`), the receive burst uses the word as it is: in the stability test, as the
consumed count, and in the stop test.

Two runs of the receive burst are compared call by call (`SameRuns`): they start in one
state, get the same arguments, and their devices show words that agree in the low 24 bits.

* `Alike` — the engines of two such runs between calls: they differ in the count bookkeeping
  only, and agree on the low 16 bits of `desc_used`;
* `sameRuns_iff` — the runs have the same results, stamped mbufs and stops exactly when in
  every call the words the two polls end on agree in the low 16 bits, and are both or neither
  the number the stop test compares with.
-/

/-! ### Two runs -/

/-- A call made in two runs: the shared arguments and records, and the words each run reads. -/
structure TwinCall where
  mem : RxMem
  nbPkts : Nat
  wb : Nat → XdmaC2hStreamWb
  reads₁ : Nat → Nat × Nat
  reads₂ : Nat → Nat × Nat

def TwinCall.dev₁ (c : TwinCall) : RxDevice := ⟨c.reads₁, c.wb⟩

def TwinCall.dev₂ (c : TwinCall) : RxDevice := ⟨c.reads₂, c.wb⟩

@[simp] theorem TwinCall.reads_dev₁ (c : TwinCall) : c.dev₁.reads = c.reads₁ := rfl

@[simp] theorem TwinCall.reads_dev₂ (c : TwinCall) : c.dev₂.reads = c.reads₂ := rfl

/-- A read of the completion word: 32 bits. -/
def WordRead (r : Nat × Nat) : Prop := r.1 < 2 ^ 32 ∧ r.2 < 2 ^ 32

/-- The successive words of the two runs agree in the low 24 bits. -/
structure TwinCall.Agree (c : TwinCall) : Prop where
  word₁ : ∀ i, WordRead (c.reads₁ i)
  word₂ : ∀ i, WordRead (c.reads₂ i)
  fst : ∀ i, (c.reads₁ i).1 % 2 ^ 24 = (c.reads₂ i).1 % 2 ^ 24
  snd : ∀ i, (c.reads₁ i).2 % 2 ^ 24 = (c.reads₂ i).2 % 2 ^ 24

/-- What the caller sees of a call: the result, the memory with the stamped mbufs, and
    whether the engine was stopped. -/
structure SameOutcome (r₁ r₂ : RecvResult) : Prop where
  ret : r₁.ret = r₂.ret
  mem : r₁.mem = r₂.mem
  stop : r₁.engine.running = r₂.engine.running

/-- Every call of the two runs has the same outcome in both. -/
def SameRuns : XdmaEngine → XdmaEngine → List TwinCall → Prop
  | _, _, [] => True
  | e₁, e₂, c :: calls =>
    let r₁ := xdmaRecvPkts e₁ c.mem c.nbPkts c.dev₁
    let r₂ := xdmaRecvPkts e₂ c.mem c.nbPkts c.dev₂
    SameOutcome r₁ r₂ ∧ SameRuns r₁.engine r₂.engine calls

/-- The words the two polls of a call end on agree in the low 16 bits, and are both or neither
    the number the stop test compares with. -/
def EndsAlike (e₁ e₂ : XdmaEngine) (c : TwinCall) : Prop :=
  ∀ c₁ c₂, FoundCount (rxEnter e₁ c.mem c.nbPkts).2.1.descUsed c.reads₁ c₁ →
    FoundCount (rxEnter e₂ c.mem c.nbPkts).2.1.descUsed c.reads₂ c₂ →
    c₁ % 2 ^ 16 = c₂ % 2 ^ 16 ∧
      (c₁ = (rxEnter e₁ c.mem c.nbPkts).1 ↔ c₂ = (rxEnter e₁ c.mem c.nbPkts).1)

/-- Every call of the two runs ends alike. -/
def AlikeRuns : XdmaEngine → XdmaEngine → List TwinCall → Prop
  | _, _, [] => True
  | e₁, e₂, c :: calls =>
    EndsAlike e₁ e₂ c ∧ AlikeRuns (xdmaRecvPkts e₁ c.mem c.nbPkts c.dev₁).engine
      (xdmaRecvPkts e₂ c.mem c.nbPkts c.dev₂).engine calls

/-! ### One call, by the word its poll ends on -/

/-- What a call does, by the word its poll ends on. -/
theorem rxCollect_end (e : XdmaEngine) (m : RxMem) (nbPkts : Nat) (dev : RxDevice) :
    (rxCollect e m nbPkts dev).ret = (rxEnd e.descUsed dev.reads + 2 ^ 32 - e.descUsed) % 2 ^ 16 ∧
      (rxCollect e m nbPkts dev).mem
        = preparePackets e dev.wb m (rxEnd e.descUsed dev.reads % 2 ^ 16) (e.descUsed % 2 ^ 16) ∧
      ∃ word status, (rxCollect e m nbPkts dev).engine
        = if rxEnd e.descUsed dev.reads = nbPkts then
            xdmaRxEngineStop (e.advance word (rxEnd e.descUsed dev.reads) status)
          else e.advance word (rxEnd e.descUsed dev.reads) status := by
  have hengine := rxCollect_engine e m nbPkts dev
  unfold rxEnd
  cases hp : rxPoll e.descUsed dev.reads rxRetries 0 with
  | mk sample pass =>
    rw [hp] at hengine
    cases sample with
    | none =>
      refine ⟨?_, ?_, _, e.status, hengine⟩
      · show (rxCollect e m nbPkts dev).ret = (e.descUsed + 2 ^ 32 - e.descUsed) % 2 ^ 16
        simp [rxCollect, hp]
      · show (rxCollect e m nbPkts dev).mem
          = preparePackets e dev.wb m (e.descUsed % 2 ^ 16) (e.descUsed % 2 ^ 16)
        rw [preparePackets_self]
        simp [rxCollect, hp]
    | some count =>
      refine ⟨?_, ?_, _, rxCommpleted, hengine⟩
      · simp [rxCollect, hp]
      · simp only [rxCollect, hp]
        rfl

/-- A call on a running engine stops it when its poll ends on the number compared with. -/
theorem rxCollect_stops (e : XdmaEngine) (hrun : e.running = true) (m : RxMem) (n : Nat)
    (dev : RxDevice) :
    (rxCollect e m n dev).engine.running = false ↔ rxEnd e.descUsed dev.reads = n := by
  obtain ⟨-, -, word, status, heng⟩ := rxCollect_end e m n dev
  rw [heng]
  by_cases hend : rxEnd e.descUsed dev.reads = n
  · rw [if_pos hend]
    exact ⟨fun _ => hend, fun _ => rfl⟩
  · rw [if_neg hend]
    have hon : (e.advance word (rxEnd e.descUsed dev.reads) status).running = true := hrun
    rw [hon]
    exact ⟨fun hoff => absurd hoff (by simp), fun h => absurd h hend⟩

/-- The word a poll ends on is one it read, or the consumed one. -/
theorem rxEnd_lt {used : Nat} {reads : Nat → Nat × Nat} (hused : used < 2 ^ 32)
    (hreads : ∀ i, WordRead (reads i)) : rxEnd used reads < 2 ^ 32 := by
  rcases foundCount_rxEnd used reads with ⟨pass, -, hread, -, -⟩ | ⟨heq, -⟩
  · have hlt := (hreads pass).1
    rwa [hread] at hlt
  · rwa [heq]

/-- The engine of a stamping only lends its port. -/
theorem preparePackets_congr {e₁ e₂ : XdmaEngine} (hport : e₁.portId = e₂.portId)
    (wb : Nat → XdmaC2hStreamWb) (m : RxMem) (n c : Nat) :
    preparePackets e₁ wb m n c = preparePackets e₂ wb m n c := by
  have hstamp : stampSeg e₁ = stampSeg e₂ := by
    unfold stampSeg stampFirst
    rw [hport]
  rw [preparePackets_eq, preparePackets_eq, hstamp]

/-! ### The engines of two runs -/

/-- The engines of two runs differ in the count bookkeeping only, and agree on the low 16 bits
    of `desc_used`; idle, they are both at index 0. -/
structure Alike (e₁ e₂ : XdmaEngine) : Prop where
  rest : e₂ = e₁.advance e₂.completedDescCount e₂.descUsed e₂.status
  used : e₁.descUsed % 2 ^ 16 = e₂.descUsed % 2 ^ 16
  lt₁ : e₁.descUsed < 2 ^ 32
  lt₂ : e₂.descUsed < 2 ^ 32
  idle : e₁.running = false → e₁.descUsed = 0 ∧ e₂.descUsed = 0
  descMax : e₁.descMax = xdmaDescMax

/-- Posting does not look at the count bookkeeping, the index apart. -/
theorem rxPost_advance (e : XdmaEngine) (word status : Nat) (m : RxMem) (n : Nat) :
    rxPost (e.advance word e.descUsed status) m n
      = (rxPost e m n).advance word (rxPost e m n).descUsed status := by
  unfold rxPost
  induction List.range n generalizing e with
  | nil => rfl
  | cons i l ih =>
    rw [List.foldl_cons, List.foldl_cons, ← ih]
    rfl

namespace Alike
variable {e₁ e₂ : XdmaEngine}

theorem refl {virt2phy : Addr → Addr} {e : XdmaEngine} (h : EngineReach virt2phy e)
    (hlt : e.descUsed < 2 ^ 32) : Alike e e :=
  ⟨rfl, rfl, hlt, hlt, fun hrun => ⟨(h.inv.idle hrun).used, (h.inv.idle hrun).used⟩,
    h.inv.descMax⟩

theorem running (h : Alike e₁ e₂) : e₂.running = e₁.running := by
  rw [h.rest]
  rfl

/-- Alike engines enter the poll loop of a call alike, with the same memory and the same
    number to compare with. -/
theorem enter (h : Alike e₁ e₂) (m : RxMem) (nbPkts : Nat) :
    (rxEnter e₂ m nbPkts).1 = (rxEnter e₁ m nbPkts).1 ∧
      (rxEnter e₂ m nbPkts).2.2 = (rxEnter e₁ m nbPkts).2.2 ∧
      Alike (rxEnter e₁ m nbPkts).2.1 (rxEnter e₂ m nbPkts).2.1 := by
  cases hrun : e₁.running with
  | true =>
    rw [rxEnter_of_running e₁ m nbPkts hrun, rxEnter_of_running e₂ m nbPkts (h.running.trans hrun)]
    refine ⟨rfl, rfl, ?_, h.used, h.lt₁, h.lt₂, h.idle, h.descMax⟩
    rw [h.rest]
    rfl
  | false =>
    rw [rxEnter_of_idle e₁ m nbPkts hrun, rxEnter_of_idle e₂ m nbPkts (h.running.trans hrun)]
    obtain ⟨hused₁, hused₂⟩ := h.idle hrun
    -- Both post from index 0, so they differ in the word alone.
    have he : e₂.clearStatus
        = e₁.clearStatus.advance e₂.completedDescCount e₁.clearStatus.descUsed 0 := by
      show e₂.clearStatus = e₁.clearStatus.advance e₂.completedDescCount e₁.descUsed 0
      rw [h.rest, hused₁, hused₂]
      rfl
    have hmax₁ : e₁.clearStatus.descMax = 32 := h.descMax
    have hmax₂ : e₂.clearStatus.descMax = 32 := by
      rw [he]
      exact hmax₁
    have harm₁ := rxArm_descUsed e₁.clearStatus m nbPkts hused₁ (by omega)
    have harm₂ := rxArm_descUsed e₂.clearStatus m nbPkts hused₂ (by omega)
    rw [hmax₁] at harm₁
    rw [hmax₂] at harm₂
    have hlt : min nbPkts 32 % 32 < 32 := Nat.mod_lt _ (by decide)
    refine ⟨?_, ?_, ?_, ?_, ?_, ?_, ?_, ?_⟩
    · show min nbPkts e₂.clearStatus.descMax = min nbPkts e₁.clearStatus.descMax
      rw [hmax₁, hmax₂]
    · show { m with touched := m.touched ++ List.range (min nbPkts e₂.clearStatus.descMax) }
        = { m with touched := m.touched ++ List.range (min nbPkts e₁.clearStatus.descMax) }
      rw [hmax₁, hmax₂]
    · -- What was posted does not matter: starting keeps the word and the bookkeeping.
      rw [rxArm_engine, rxArm_engine, hmax₁, hmax₂, he, rxPost_advance]
      generalize rxPost e₁.clearStatus m (min nbPkts 32) = posted
      rfl
    · rw [harm₁, harm₂]
    · omega
    · omega
    · exact fun hoff => absurd hoff (by simp [rxArm_engine, xdmaRxEngineStart, xdmaRegWrite])
    · exact (frame_rxArm _ _ _).descMax.trans h.descMax

/-- The outcome of a call is the same exactly when the polls end alike. -/
theorem sameOutcome_iff (h : Alike e₁ e₂) (hrun : e₁.running = true) (m : RxMem) (n : Nat)
    (c : TwinCall) :
    SameOutcome (rxCollect e₁ m n c.dev₁) (rxCollect e₂ m n c.dev₂) ↔
      rxEnd e₁.descUsed c.reads₁ % 2 ^ 16 = rxEnd e₂.descUsed c.reads₂ % 2 ^ 16 ∧
        (rxEnd e₁.descUsed c.reads₁ = n ↔ rxEnd e₂.descUsed c.reads₂ = n) := by
  obtain ⟨hret₁, hmem₁, -⟩ := rxCollect_end e₁ m n c.dev₁
  obtain ⟨hret₂, hmem₂, -⟩ := rxCollect_end e₂ m n c.dev₂
  have hstop₁ := rxCollect_stops e₁ hrun m n c.dev₁
  have hstop₂ := rxCollect_stops e₂ (h.running.trans hrun) m n c.dev₂
  have hused := h.used
  have hlt₁ := h.lt₁
  have hlt₂ := h.lt₂
  constructor
  · intro hsame
    have hret := hsame.ret
    rw [hret₁, hret₂] at hret
    refine ⟨?_, ?_⟩
    · rw [c.reads_dev₁, c.reads_dev₂] at hret
      omega
    · rw [hsame.stop] at hstop₁
      exact hstop₁.symm.trans hstop₂
  · rintro ⟨hend, hiff⟩
    refine ⟨?_, ?_, ?_⟩
    · rw [hret₁, hret₂, c.reads_dev₁, c.reads_dev₂]
      omega
    · rw [hmem₁, hmem₂]
      show preparePackets e₁ c.wb m (rxEnd e₁.descUsed c.reads₁ % 2 ^ 16) (e₁.descUsed % 2 ^ 16)
        = preparePackets e₂ c.wb m (rxEnd e₂.descUsed c.reads₂ % 2 ^ 16) (e₂.descUsed % 2 ^ 16)
      rw [hend, hused]
      apply preparePackets_congr
      rw [h.rest]
      rfl
    · have hoff := (hstop₁.trans hiff).trans hstop₂.symm
      rw [← Bool.not_eq_true, ← Bool.not_eq_true, not_iff_not] at hoff
      exact Bool.eq_iff_iff.mpr hoff

/-- After a call whose polls end alike the engines are alike again. -/
theorem collect (h : Alike e₁ e₂) (hrun : e₁.running = true) (m : RxMem) (n : Nat)
    {c : TwinCall} (hc : c.Agree)
    (hend : rxEnd e₁.descUsed c.reads₁ % 2 ^ 16 = rxEnd e₂.descUsed c.reads₂ % 2 ^ 16)
    (hiff : rxEnd e₁.descUsed c.reads₁ = n ↔ rxEnd e₂.descUsed c.reads₂ = n) :
    Alike (rxCollect e₁ m n c.dev₁).engine (rxCollect e₂ m n c.dev₂).engine := by
  obtain ⟨-, -, word₁, status₁, heng₁⟩ := rxCollect_end e₁ m n c.dev₁
  obtain ⟨-, -, word₂, status₂, heng₂⟩ := rxCollect_end e₂ m n c.dev₂
  rw [heng₁, heng₂, c.reads_dev₁, c.reads_dev₂]
  by_cases hstop : rxEnd e₁.descUsed c.reads₁ = n
  · -- Both calls stop the engine.
    rw [if_pos hstop, if_pos (hiff.mp hstop)]
    have hzero : 0 < 2 ^ 32 := by decide
    refine ⟨?_, rfl, hzero, hzero, fun _ => ⟨rfl, rfl⟩, h.descMax⟩
    rw [h.rest]
    rfl
  · rw [if_neg hstop, if_neg (fun heq => hstop (hiff.mpr heq))]
    refine ⟨?_, hend, rxEnd_lt h.lt₁ hc.word₁, rxEnd_lt h.lt₂ hc.word₂, fun hoff => ?_, h.descMax⟩
    · rw [h.rest]
      rfl
    · have hon : (e₁.advance word₁ (rxEnd e₁.descUsed c.reads₁) status₁).running = true := hrun
      exact absurd (hon.symm.trans hoff) (by decide)

/-- Polls end alike when the words they end on do. -/
theorem endsAlike_iff (e₁ e₂ : XdmaEngine) (c : TwinCall) :
    EndsAlike e₁ e₂ c ↔
      rxEnd (rxEnter e₁ c.mem c.nbPkts).2.1.descUsed c.reads₁ % 2 ^ 16
          = rxEnd (rxEnter e₂ c.mem c.nbPkts).2.1.descUsed c.reads₂ % 2 ^ 16 ∧
        (rxEnd (rxEnter e₁ c.mem c.nbPkts).2.1.descUsed c.reads₁ = (rxEnter e₁ c.mem c.nbPkts).1
          ↔ rxEnd (rxEnter e₂ c.mem c.nbPkts).2.1.descUsed c.reads₂
            = (rxEnter e₁ c.mem c.nbPkts).1) := by
  constructor
  · intro hends
    exact hends _ _ (foundCount_rxEnd _ _) (foundCount_rxEnd _ _)
  · intro hends c₁ c₂ h₁ h₂
    rw [h₁.unique (foundCount_rxEnd _ _), h₂.unique (foundCount_rxEnd _ _)]
    exact hends

/-- **Step lemma.** A call has the same outcome exactly when its polls end alike, and leaves
    alike engines then. -/
theorem step (h : Alike e₁ e₂) {c : TwinCall} (hc : c.Agree) :
    (SameOutcome (xdmaRecvPkts e₁ c.mem c.nbPkts c.dev₁) (xdmaRecvPkts e₂ c.mem c.nbPkts c.dev₂)
        ↔ EndsAlike e₁ e₂ c) ∧
      (EndsAlike e₁ e₂ c → Alike (xdmaRecvPkts e₁ c.mem c.nbPkts c.dev₁).engine
        (xdmaRecvPkts e₂ c.mem c.nbPkts c.dev₂).engine) := by
  obtain ⟨hn, hm, henter⟩ := h.enter c.mem c.nbPkts
  have hrun := rxEnter_running e₁ c.mem c.nbPkts
  rw [xdmaRecvPkts_eq, xdmaRecvPkts_eq, hn, hm, endsAlike_iff]
  exact ⟨henter.sameOutcome_iff hrun _ _ c,
    fun hends => henter.collect hrun _ _ hc hends.1 hends.2⟩

/-- **Run lemma.** -/
theorem runs (h : Alike e₁ e₂) {calls : List TwinCall} (hcalls : ∀ c ∈ calls, c.Agree) :
    SameRuns e₁ e₂ calls ↔ AlikeRuns e₁ e₂ calls := by
  induction calls generalizing e₁ e₂ with
  | nil => rfl
  | cons c calls ih =>
    obtain ⟨hsame, hnext⟩ := h.step (hcalls c (List.mem_cons_self ..))
    have hrest : ∀ c' ∈ calls, c'.Agree := fun c' hc' => hcalls c' (List.mem_cons_of_mem _ hc')
    constructor
    · rintro ⟨hout, hruns⟩
      have hends := hsame.mp hout
      exact ⟨hends, (ih (hnext hends) hrest).mp hruns⟩
    · rintro ⟨hends, hruns⟩
      exact ⟨hsame.mpr hends, (ih (hnext hends) hrest).mpr hruns⟩

end Alike

/-- While the polls of a call test alike, the words they end on agree in the low 24 bits: the
    status bits reach the stop test only. -/
theorem ends_agree_of_tests {u₁ u₂ c₁ c₂ : Nat} {c : TwinCall} (hc : c.Agree)
    (hu : u₁ % 2 ^ 24 = u₂ % 2 ^ 24)
    (htests : ∀ i ≤ rxRetries, rxHit u₁ (c.reads₁ i) = rxHit u₂ (c.reads₂ i))
    (h₁ : FoundCount u₁ c.reads₁ c₁) (h₂ : FoundCount u₂ c.reads₂ c₂) :
    c₁ % 2 ^ 24 = c₂ % 2 ^ 24 := by
  rcases h₁ with ⟨p₁, hle₁, hr₁, hne₁, hmiss₁⟩ | ⟨rfl, hmiss₁⟩
  · have hhit₁ := rxHit_of_read hr₁ hne₁
    rcases h₂ with ⟨p₂, hle₂, hr₂, hne₂, hmiss₂⟩ | ⟨rfl, hmiss₂⟩
    · have hhit₂ := rxHit_of_read hr₂ hne₂
      -- Both polls end in the same pass.
      rcases Nat.lt_trichotomy p₁ p₂ with hlt | rfl | hlt
      · rw [htests p₁ hle₁, hmiss₂ p₁ hlt] at hhit₁
        exact absurd hhit₁ Bool.false_ne_true
      · have hfst := hc.fst p₁
        rwa [hr₁, hr₂] at hfst
      · rw [← htests p₂ hle₂, hmiss₁ p₂ hlt] at hhit₂
        exact absurd hhit₂ Bool.false_ne_true
    · rw [htests p₁ hle₁, hmiss₂ p₁ hle₁] at hhit₁
      exact absurd hhit₁ Bool.false_ne_true
  · rcases h₂ with ⟨p₂, hle₂, hr₂, hne₂, -⟩ | ⟨rfl, -⟩
    · have hhit₂ := rxHit_of_read hr₂ hne₂
      rw [← htests p₂ hle₂, hmiss₁ p₂ hle₂] at hhit₂
      exact absurd hhit₂ Bool.false_ne_true
    · exact hu

/-- **Status bits.** For every reachable C2H engine and every two runs of calls from it with
    the same arguments, on words that agree in the low 24 bits: results, stamped mbufs and
    stops are the same throughout exactly when the polls of every call end alike. -/
theorem sameRuns_iff (virt2phy : Addr → Addr) (e : XdmaEngine) (hreach : EngineReach virt2phy e)
    (hlt : e.descUsed < 2 ^ 32) (calls : List TwinCall) (hcalls : ∀ c ∈ calls, c.Agree) :
    SameRuns e e calls ↔ AlikeRuns e e calls :=
  (Alike.refl hreach hlt).runs hcalls

/-- A call for 32 packets that finds `v` of them completed, in the second run with the status
    bits `s`. -/
def twin (v s : Nat) : TwinCall where
  mem := plainMem
  nbPkts := 32
  wb := fun _ => ⟨0, 64⟩
  reads₁ := (RxDevice.const v).reads
  reads₂ := (RxDevice.const (v + 2 ^ 24 * s)).reads

theorem twin_agree {v s : Nat} (hv : v < 2 ^ 24) (hs : s < 2 ^ 8) : (twin v s).Agree := by
  have hword₁ : v < 2 ^ 32 := by omega
  have hword₂ : v + 2 ^ 24 * s < 2 ^ 32 := by omega
  have hlow : v % 2 ^ 24 = (v + 2 ^ 24 * s) % 2 ^ 24 := by omega
  exact ⟨fun _ => ⟨hword₁, hword₁⟩, fun _ => ⟨hword₂, hword₂⟩, fun _ => hlow, fun _ => hlow⟩

/-- The polls of such a call end alike when both or neither count is the one compared with. -/
theorem twin_endsAlike {e₁ e₂ : XdmaEngine} {v s : Nat}
    (hstop : v = (rxEnter e₁ plainMem 32).1 ↔ v + 2 ^ 24 * s = (rxEnter e₁ plainMem 32).1) :
    EndsAlike e₁ e₂ (twin v s) := by
  intro c₁ c₂ h₁ h₂
  obtain rfl := h₁.unique (foundCount_const _ v)
  obtain rfl := h₂.unique (foundCount_const _ (c₁ + 2 ^ 24 * s))
  exact ⟨by omega, hstop⟩

/-- Two calls on a ring that is not full yet, with status bits in the second run: the outcomes
    are those of the run without. -/
theorem sameRuns_status : SameRuns freshRx.eng freshRx.eng [twin 5 1, twin 7 3] := by
  have hreach : EngineReach id freshRx.eng := EngineReach.rxSetup 0 SetupAlloc.pages
  have hagree : ∀ c ∈ [twin 5 1, twin 7 3], c.Agree := by
    intro c hc
    rcases List.mem_pair.mp hc with rfl | rfl <;> exact twin_agree (by decide) (by decide)
  refine (sameRuns_iff id freshRx.eng hreach (by decide) _ hagree).mpr ⟨?_, ?_, trivial⟩
  · apply twin_endsAlike
    decide
  · -- The first call has left the engine running, so this one compares with its 32 packets.
    apply twin_endsAlike
    rw [rxEnter_of_running _ _ _ rfl]
    decide

/-- With the lowest status bit set, the call that reports everything leaves the engine
    running. -/
theorem sameRuns_fails :
    ¬ ∀ (virt2phy : Addr → Addr) (e : XdmaEngine), EngineReach virt2phy e → e.dir = .c2h →
      e.descUsed < 2 ^ 32 → ∀ calls : List TwinCall, (∀ c ∈ calls, c.Agree) →
      SameRuns e e calls := by
  intro h
  have hagree : ∀ c ∈ [twin 32 1], c.Agree := by
    intro c hc
    obtain rfl := List.mem_singleton.mp hc
    exact twin_agree (by decide) (by decide)
  have hreach : EngineReach id freshRx.eng := EngineReach.rxSetup 0 SetupAlloc.pages
  have hlt : freshRx.eng.descUsed < 2 ^ 32 := by decide
  have hruns := h id freshRx.eng hreach rfl hlt [twin 32 1] hagree
  have halike : Alike freshRx.eng freshRx.eng := Alike.refl hreach hlt
  have hends := (halike.step (hagree _ (List.mem_cons_self ..))).1.mp hruns.1
  have hstop := (hends 32 (32 + 2 ^ 24) (foundCount_const _ 32)
    (foundCount_const _ (32 + 2 ^ 24))).2.mp rfl
  exact absurd hstop (by decide)

end XdmaDpdk
