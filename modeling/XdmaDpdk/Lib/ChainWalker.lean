import Mathlib.Logic.Relation
import Mathlib.Data.List.Basic
import Mathlib.Tactic.Common

namespace ChainWalker

/-!
# A device that walks a linked chain of records

The chain itself is `Walk stop next i l`: starting at `i` and following `next`, the records
met up to and including the first one marked `stop` are `l`.

`Walker ι δ` is a device that processes such a chain on its own: its start is requested by
setting `run` (the request stays in `kick` until the device takes it up), it fetches one
record at a time while `run` is set, counts the records it completes, and reports the count
to a shared word after each record marked `report`.  Clearing `run` stops the fetching, but
the record in hand is still completed, and reported, at any later time.

The proofs about a walk in progress go through `OnChain`, the invariant of a walk along the
consecutive records `0, 1, …, m` of a memory that does not change under it:

* `OnChain.step` — a device step keeps it, and says what the step did to the word;
* `OnChain.of_start` — the device can take up a start request;
* `OnChain.reach` — the device can reach every completion count up to `m + 1`.
-/

variable {ι δ : Type*}

/-! ### Chains -/

/-- Following `next` from `i`, the indices met up to the first one marked `stop` are `l`. -/
inductive Walk (stop : ι → Bool) (next : ι → Option ι) : ι → List ι → Prop
  | last {i : ι} : stop i = true → Walk stop next i [i]
  | step {i j : ι} {l : List ι} : stop i = false → next i = some j → Walk stop next j l →
      Walk stop next i (i :: l)

/-- A chain has one walk: `stop` and `next` are functions. -/
theorem Walk.unique {stop : ι → Bool} {next : ι → Option ι} {i : ι} {l l' : List ι}
    (h : Walk stop next i l) (h' : Walk stop next i l') : l = l' := by
  induction h generalizing l' with
  | last hs =>
    -- The first walk stops here, so the second one does.
    cases h' with
    | last _ => rfl
    | step hs' _ _ => exact absurd (hs.symm.trans hs') (by simp)
  | step hs hn _ ih =>
    cases h' with
    | last hs' => exact absurd (hs.symm.trans hs') (by simp)
    | step _ hn' hw' =>
      -- Both go on to the same record.
      obtain rfl := Option.some.inj (hn.symm.trans hn')
      rw [ih hw']

/-- Consecutive records up to the first stopped one are walked in order. -/
theorem Walk.of_consecutive {stop : Nat → Bool} {next : Nat → Option Nat} {m : Nat}
    (hrun : ∀ i < m, stop i = false ∧ next i = some (i + 1)) (hstop : stop m = true)
    (k : Nat) (hk : k ≤ m) : Walk stop next (m - k) (List.range' (m - k) (k + 1)) := by
  induction k with
  | zero => exact Walk.last hstop
  | succ k ih =>
    have hnext : m - (k + 1) + 1 = m - k := by omega
    obtain ⟨hs, hn⟩ := hrun (m - (k + 1)) (by omega)
    rw [List.range'_succ, hnext]
    rw [hnext] at hn
    exact Walk.step hs hn (ih (by omega))

/-! ### The device -/

/-- What the device is doing. -/
inductive Phase (ι δ : Type*)
  | halted
  | ready (i : ι)
  | busy (i : ι) (d : δ)

/-- The device: its run control, its phase, and the completions of the present walk. -/
structure Walker (ι δ : Type*) where
  run : Bool
  kick : Bool
  phase : Phase ι δ
  count : Nat
  done : List ι

/-- How the device reads a record: where it starts, what ends the walk, what is reported,
    and which record comes next. -/
structure Rules (ι δ : Type*) where
  first : ι
  stop : δ → Bool
  report : δ → Bool
  next : δ → Option ι

namespace Walker

/-- A device at rest that was never started. -/
def idle : Walker ι δ where
  run := false
  kick := false
  phase := .halted
  count := 0
  done := []

/-- The host sets `run`. -/
def start (w : Walker ι δ) : Walker ι δ := { w with run := true, kick := true }

/-- The host clears `run`; the record in hand stays in hand. -/
def stop (w : Walker ι δ) : Walker ι δ := { w with run := false, kick := false }

/-- The records completed since the last start was requested. -/
def completed (w : Walker ι δ) : List ι := if w.kick then [] else w.done

/-- The phase after completing `d`; a walk also ends where there is no next record. -/
def phaseAfter (R : Rules ι δ) (d : δ) : Phase ι δ :=
  if R.stop d then .halted
  else match R.next d with
    | some j => .ready j
    | none => .halted

/-- The report the record in hand will make, if any. -/
def pending (R : Rules ι δ) (w : Walker ι δ) : Option Nat :=
  match w.phase with
  | .busy _ d => if R.report d then some (w.count + 1) else none
  | _ => none

theorem phaseAfter_ne_busy (R : Rules ι δ) (d : δ) (i : ι) (d' : δ) :
    phaseAfter R d ≠ .busy i d' := by
  unfold phaseAfter
  split
  · simp
  · split <;> simp

/-- A completed record leaves nothing in hand. -/
theorem pending_of_phaseAfter (R R' : Rules ι δ) {w : Walker ι δ} {d : δ}
    (hp : w.phase = phaseAfter R' d) : w.pending R = none := by
  cases hw : w.phase with
  | halted => simp [pending, hw]
  | ready i => simp [pending, hw]
  | busy i d' => exact absurd (hp.symm.trans hw) (phaseAfter_ne_busy R' d i d')

end Walker

/-- One device step, on the device and the word it reports to. -/
inductive Step (R : Rules ι δ) (mem : ι → δ) : Walker ι δ × Nat → Walker ι δ × Nat → Prop
  | begin (w : Walker ι δ) (x : Nat) (hk : w.kick = true) (hp : ∀ i d, w.phase ≠ .busy i d) :
      Step R mem (w, x)
        ({ w with kick := false, phase := .ready R.first, count := 0, done := [] }, x)
  | fetch (w : Walker ι δ) (x : Nat) (i : ι) (hr : w.run = true) (hk : w.kick = false)
      (hp : w.phase = .ready i) :
      Step R mem (w, x) ({ w with phase := .busy i (mem i) }, x)
  | complete (w : Walker ι δ) (x : Nat) (i : ι) (d : δ) (hp : w.phase = .busy i d) :
      Step R mem (w, x)
        ({ w with phase := Walker.phaseAfter R d, count := w.count + 1, done := w.done ++ [i] },
          if R.report d then w.count + 1 else x)

/-- The device never changes its run control. -/
theorem Step.run_eq {R : Rules ι δ} {mem : ι → δ} {p q : Walker ι δ × Nat}
    (h : Step R mem p q) : q.1.run = p.1.run := by
  cases h <;> rfl

/-- A device at rest that was not started again takes no step. -/
theorem Step.not_of_halted {R : Rules ι δ} {mem : ι → δ} {w : Walker ι δ} {x : Nat}
    {q : Walker ι δ × Nat} (hk : w.kick = false) (hp : w.phase = .halted) :
    ¬ Step R mem (w, x) q := by
  intro h
  cases h with
  | begin _ _ hk' _ => exact absurd (hk.symm.trans hk') (by simp)
  | fetch _ _ i _ _ hp' => exact absurd (hp.symm.trans hp') (by simp)
  | complete _ _ i d hp' => exact absurd (hp.symm.trans hp') (by simp)

/-- Only taking up a start request clears it, and that leaves the word alone. -/
theorem Step.of_kick {R : Rules ι δ} {mem : ι → δ} {w w' : Walker ι δ} {x x' : Nat}
    (h : Step R mem (w, x) (w', x')) (hk : w.kick = true) (hk' : w'.kick = false) :
    w' = { w with kick := false, phase := .ready R.first, count := 0, done := [] } ∧ x' = x := by
  cases h with
  | begin _ _ _ _ => exact ⟨rfl, rfl⟩
  | fetch _ _ i _ hk'' _ => exact absurd (hk.symm.trans hk'') (by decide)
  | complete _ _ i d _ => exact absurd (hk.symm.trans hk') (by decide)

/-- The record in hand can be completed, with the report it makes. -/
theorem Step.of_pending {R : Rules ι δ} {w : Walker ι δ} {c : Nat} (h : w.pending R = some c)
    (mem : ι → δ) (x : Nat) :
    ∃ w', Step R mem (w, x) (w', c) ∧ w'.kick = w.kick := by
  cases hp : w.phase with
  | halted => simp [Walker.pending, hp] at h
  | ready i => simp [Walker.pending, hp] at h
  | busy i d =>
    simp only [Walker.pending, hp, Option.ite_none_right_eq_some, Option.some.injEq] at h
    obtain ⟨hrep, rfl⟩ := h
    have hstep : Step R mem (w, x) _ := Step.complete w x i d hp
    rw [if_pos hrep] at hstep
    exact ⟨_, hstep, rfl⟩

/-! ### Walks along consecutive records -/

/-- `mem` holds a chain of the consecutive records `0, …, m`, the last one marked `stop`. -/
structure IsChain (R : Rules Nat δ) (mem : Nat → δ) (m : Nat) : Prop where
  first : R.first = 0
  run : ∀ i < m, R.stop (mem i) = false ∧ R.next (mem i) = some (i + 1)
  last : R.stop (mem m) = true

/-- A walk in progress along the chain `0, …, m`: the completed records are the first
    `count` ones, and the device is at the next one or past the last. -/
structure OnChain (mem : Nat → δ) (m : Nat) (w : Walker Nat δ) : Prop where
  kick : w.kick = false
  done : w.done = List.range w.count
  phase : match w.phase with
    | .halted => w.count = m + 1
    | .ready i => i = w.count ∧ i ≤ m
    | .busy i d => i = w.count ∧ i ≤ m ∧ d = mem i

section
variable {R : Rules Nat δ} {mem : Nat → δ} {m : Nat} {w w' : Walker Nat δ} {x x' : Nat}

/-- Taking up a start request puts the device at the head of the chain. -/
theorem OnChain.of_begin (hc : IsChain R mem m) (w : Walker Nat δ) :
    OnChain mem m { w with kick := false, phase := .ready R.first, count := 0, done := [] } where
  kick := rfl
  done := rfl
  phase := by
    rw [hc.first]
    exact ⟨rfl, Nat.zero_le m⟩

/-- Completing the record in hand moves the walk one record on. -/
theorem OnChain.of_complete (hc : IsChain R mem m) (h : OnChain mem m w) (i : Nat) (d : δ)
    (hp : w.phase = .busy i d) :
    OnChain mem m
      { w with phase := Walker.phaseAfter R d, count := w.count + 1, done := w.done ++ [i] } := by
  have hph := h.phase
  rw [hp] at hph
  obtain ⟨rfl, him, rfl⟩ := hph
  refine ⟨h.kick, ?_, ?_⟩
  · rw [h.done, List.range_succ]
  · rcases Nat.lt_or_eq_of_le him with hlt | rfl
    · -- An inner record: the next one is ready.
      obtain ⟨hs, hn⟩ := hc.run w.count hlt
      simp only [Walker.phaseAfter, hs, hn]
      exact ⟨rfl, hlt⟩
    · -- The last record: the device halts past it.
      simp [Walker.phaseAfter, hc.last]

/-- **Step lemma.** A device step keeps the walk on the chain, and either leaves count and
    word alone or completes the next record and reports it if that record asks for it. -/
theorem OnChain.step (hc : IsChain R mem m) (h : OnChain mem m w)
    (hs : Step R mem (w, x) (w', x')) :
    OnChain mem m w' ∧
      ((w'.count = w.count ∧ x' = x) ∨
        (w.count ≤ m ∧ w'.count = w.count + 1 ∧
          x' = if R.report (mem w.count) then w.count + 1 else x)) := by
  cases hs with
  | begin _ _ hk _ => exact absurd (hk.symm.trans h.kick) (by simp)
  | fetch _ _ i _ _ hp =>
    -- The record is taken in hand as the memory has it.
    have hph := h.phase
    rw [hp] at hph
    exact ⟨⟨h.kick, h.done, hph.1, hph.2, rfl⟩, .inl ⟨rfl, rfl⟩⟩
  | complete _ _ i d hp =>
    have hph := h.phase
    rw [hp] at hph
    obtain ⟨hi, him, hd⟩ := hph
    refine ⟨h.of_complete hc i d hp, .inr ⟨by omega, rfl, ?_⟩⟩
    rw [hd, hi]

/-- Past the last record the device is at rest. -/
theorem OnChain.halted (h : OnChain mem m w) (hm : w.count = m + 1) : w.phase = .halted := by
  have hph := h.phase
  match hw : w.phase with
  | .halted => rfl
  | .ready i =>
    rw [hw] at hph
    omega
  | .busy i d =>
    rw [hw] at hph
    omega

/-- A running walk can complete its next record. -/
theorem OnChain.advance (hc : IsChain R mem m) (h : OnChain mem m w) (hr : w.run = true)
    (hm : w.count ≤ m) (x : Nat) :
    ∃ w', Relation.ReflTransGen (Step R mem) (w, x)
        (w', if R.report (mem w.count) then w.count + 1 else x) ∧
      OnChain mem m w' ∧ w'.run = true ∧ w'.count = w.count + 1 := by
  -- A busy device completes at once; a ready one fetches first.
  have hbusy : ∀ v : Walker Nat δ, OnChain mem m v → v.run = true → ∀ i d, v.phase = .busy i d →
      ∃ w', Step R mem (v, x) (w', if R.report (mem v.count) then v.count + 1 else x) ∧
        OnChain mem m w' ∧ w'.run = true ∧ w'.count = v.count + 1 := by
    intro v hv hvr i d hp
    have hph := hv.phase
    rw [hp] at hph
    obtain ⟨rfl, -, rfl⟩ := hph
    exact ⟨_, Step.complete v x v.count (mem v.count) hp, hv.of_complete hc _ _ hp, hvr, rfl⟩
  match hw : w.phase with
  | .halted =>
    have hph := h.phase
    rw [hw] at hph
    omega
  | .ready i =>
    have hph := h.phase
    rw [hw] at hph
    have hfetch : Step R mem (w, x) ({ w with phase := .busy i (mem i) }, x) :=
      Step.fetch w x i hr h.kick hw
    obtain ⟨w', hs, hrest⟩ := hbusy { w with phase := .busy i (mem i) }
      ⟨h.kick, h.done, hph.1, hph.2, rfl⟩ hr i (mem i) rfl
    exact ⟨w', (Relation.ReflTransGen.single hfetch).tail hs, hrest⟩
  | .busy i d =>
    obtain ⟨w', hs, hrest⟩ := hbusy w h hr i d hw
    exact ⟨w', Relation.ReflTransGen.single hs, hrest⟩

/-- A requested start can be taken up, once the record in hand is completed. -/
theorem OnChain.of_start (hc : IsChain R mem m) (hk : w.kick = true) (x : Nat) :
    ∃ w' x', Relation.ReflTransGen (Step R mem) (w, x) (w', x') ∧ OnChain mem m w' ∧
      w'.run = w.run ∧ w'.count = 0 := by
  have hfree : ∀ (v : Walker Nat δ) (y : Nat), v.kick = true → (∀ i d, v.phase ≠ .busy i d) →
      ∃ w', Step R mem (v, y) (w', y) ∧ OnChain mem m w' ∧ w'.run = v.run ∧ w'.count = 0 :=
    fun v y hvk hv => ⟨_, Step.begin v y hvk hv, OnChain.of_begin hc v, rfl, rfl⟩
  match hw : w.phase with
  | .busy i d =>
    -- The record in hand, from the walk before, is completed first.
    have hdone : Step R mem (w, x)
        ({ w with phase := Walker.phaseAfter R d, count := w.count + 1, done := w.done ++ [i] },
          if R.report d then w.count + 1 else x) := Step.complete w x i d hw
    obtain ⟨w', hs, hrest⟩ := hfree
      { w with phase := Walker.phaseAfter R d, count := w.count + 1, done := w.done ++ [i] }
      (if R.report d then w.count + 1 else x) hk (Walker.phaseAfter_ne_busy R d)
    exact ⟨w', _, (Relation.ReflTransGen.single hdone).tail hs, hrest⟩
  | .halted =>
    obtain ⟨w', hs, hrest⟩ := hfree w x hk (by simp [hw])
    exact ⟨w', x, Relation.ReflTransGen.single hs, hrest⟩
  | .ready i =>
    obtain ⟨w', hs, hrest⟩ := hfree w x hk (by simp [hw])
    exact ⟨w', x, Relation.ReflTransGen.single hs, hrest⟩

/-- **Progress.** From the head of the chain the device can reach every completion count
    `k + 1 ≤ m + 1`, with the count in the word if record `k` is reported. -/
theorem OnChain.reach (hc : IsChain R mem m) (h : OnChain mem m w) (hr : w.run = true)
    (h0 : w.count = 0) (x : Nat) (k : Nat) (hk : k ≤ m) :
    ∃ w' x', Relation.ReflTransGen (Step R mem) (w, x) (w', x') ∧ OnChain mem m w' ∧
      w'.run = true ∧ w'.count = k + 1 ∧ (R.report (mem k) = true → x' = k + 1) := by
  induction k with
  | zero =>
    obtain ⟨w', hs, hon, hr', hcnt⟩ := h.advance hc hr (by omega) x
    rw [h0] at hs hcnt
    exact ⟨w', _, hs, hon, hr', hcnt, fun hrep => by simp [hrep]⟩
  | succ k ih =>
    obtain ⟨w₁, x₁, hs₁, hon₁, hr₁, hcnt₁, _⟩ := ih (by omega)
    obtain ⟨w', hs, hon, hr', hcnt⟩ := hon₁.advance hc hr₁ (by omega) x₁
    rw [hcnt₁] at hs hcnt
    exact ⟨w', _, hs₁.trans hs, hon, hr', hcnt, fun hrep => by simp [hrep]⟩

/-- The walk the device makes is the chain's `Walk`. -/
theorem IsChain.walk (hc : IsChain R mem m) :
    Walk (fun i => R.stop (mem i)) (fun i => R.next (mem i)) R.first (List.range (m + 1)) := by
  have h : Walk (fun i => R.stop (mem i)) (fun i => R.next (mem i)) (m - m)
      (List.range' (m - m) (m + 1)) := Walk.of_consecutive hc.run hc.last m (Nat.le_refl m)
  rwa [Nat.sub_self, ← List.range_eq_range', ← hc.first] at h

end

end ChainWalker
