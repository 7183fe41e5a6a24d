import XdmaDpdk.Lib.ChainWalker

namespace ChainWalker

/-!
# What a walk puts out

The records a device completes, read off its successive states: `Walker.handed w w'` are the
records completed between the states `w` and `w'` of one step, nothing or the one in hand.

* `Step.handed_eq` — only a completion puts anything out;
* `OnChain.map_range_handed` — along the chain `0, …, m` the output is the records
  `0, …, count - 1` as the memory has them;
* `Step.hand_cases` — a record gets in hand by a fetch, and `OnChain.take` — the next record
  of a running walk can be fetched;
* `Step.of_stopped` — with its run control off the device reads no memory.
-/

variable {ι δ : Type*}

namespace Walker

/-- The record in hand. -/
def hand (w : Walker ι δ) : Option δ :=
  match w.phase with
  | .busy _ d => some d
  | _ => none

/-- The records completed from `w` to `w'`: the one in hand, once it no longer is. -/
def handed (w w' : Walker ι δ) : List δ :=
  match w'.hand with
  | some _ => []
  | none => w.hand.toList

@[simp] theorem hand_start (w : Walker ι δ) : w.start.hand = w.hand := rfl

@[simp] theorem hand_stop (w : Walker ι δ) : w.stop.hand = w.hand := rfl

theorem hand_eq_some {w : Walker ι δ} {d : δ} :
    w.hand = some d ↔ ∃ i, w.phase = .busy i d := by
  unfold hand
  cases hp : w.phase with
  | halted => simp
  | ready i => simp
  | busy i d' => simp

/-- A change of the run control completes nothing. -/
theorem handed_of_hand_eq {w w' : Walker ι δ} (h : w'.hand = w.hand) : w.handed w' = [] := by
  unfold handed
  rw [h]
  cases w.hand <;> rfl

theorem hand_of_phaseAfter (R : Rules ι δ) {w : Walker ι δ} {d : δ}
    (hp : w.phase = phaseAfter R d) : w.hand = none := by
  cases hw : w.hand with
  | none => rfl
  | some d' =>
    obtain ⟨i, hi⟩ := hand_eq_some.mp hw
    exact absurd (hp.symm.trans hi) (phaseAfter_ne_busy R d i d')

end Walker

section
variable {R : Rules ι δ} {mem : ι → δ} {w w' : Walker ι δ} {x x' : Nat}

/-- A completion puts out the record in hand. -/
theorem Walker.handed_of_complete (R : Rules ι δ) {i : ι} {d : δ} (hp : w.phase = .busy i d) :
    w.handed
      { w with phase := Walker.phaseAfter R d, count := w.count + 1, done := w.done ++ [i] }
      = [d] := by
  unfold Walker.handed
  rw [Walker.hand_of_phaseAfter R (d := d) rfl, Walker.hand_eq_some.mpr ⟨i, hp⟩]
  rfl

/-- A step completes nothing, or the record in hand. -/
theorem Step.handed_eq (h : Step R mem (w, x) (w', x')) :
    w.handed w' = [] ∨ ∃ d, w.hand = some d ∧ w.handed w' = [d] := by
  cases h with
  | begin _ _ _ hp =>
    left
    have hnone : w.hand = none := by
      cases hw : w.hand with
      | none => rfl
      | some d =>
        obtain ⟨i, hi⟩ := Walker.hand_eq_some.mp hw
        exact absurd hi (hp i d)
    apply Walker.handed_of_hand_eq
    rw [hnone]
    rfl
  | fetch _ _ i _ _ _ => exact .inl rfl
  | complete _ _ i d hp =>
    exact .inr ⟨d, Walker.hand_eq_some.mpr ⟨i, hp⟩, Walker.handed_of_complete R hp⟩

/-- The record in hand was there before, or was fetched from where the device stood. -/
theorem Step.hand_cases (h : Step R mem (w, x) (w', x')) {d : δ} (hd : w'.hand = some d) :
    w.hand = some d ∨
      ∃ i, w.run = true ∧ w.kick = false ∧ w.phase = .ready i ∧ d = mem i := by
  cases h with
  | begin _ _ _ _ => exact absurd hd (by simp [Walker.hand])
  | fetch _ _ i hr hk hp => exact .inr ⟨i, hr, hk, hp, (Option.some.inj hd).symm⟩
  | complete _ _ i d' hp =>
    rw [Walker.hand_of_phaseAfter R (d := d') rfl] at hd
    exact absurd hd (by simp)

end

section
variable {R : Rules ι δ} {mem : ι → δ} {w w' : Walker ι δ} {x x' : Nat}

theorem Walker.pending_eq_some {c : Nat} (h : w.pending R = some c) :
    ∃ i d, w.phase = .busy i d ∧ c = w.count + 1 := by
  cases hp : w.phase with
  | halted => simp [Walker.pending, hp] at h
  | ready i => simp [Walker.pending, hp] at h
  | busy i d =>
    simp only [Walker.pending, hp, Option.ite_none_right_eq_some, Option.some.injEq] at h
    exact ⟨i, d, rfl, h.2.symm⟩

/-- A start request that is there after a step was there before. -/
theorem Step.kick_of_kick (h : Step R mem (w, x) (w', x')) (hk : w'.kick = true) :
    w.kick = true := by
  cases h with
  | begin _ _ hk' _ => exact hk'
  | fetch _ _ _ _ _ _ => exact hk
  | complete _ _ _ _ _ => exact hk

/-- A report in hand after a step is that of the record the step fetched. -/
theorem Step.pending_cases (h : Step R mem (w, x) (w', x')) {c : Nat}
    (hc : w'.pending R = some c) :
    ∃ i, w.run = true ∧ w.kick = false ∧ w.phase = .ready i ∧ c = w.count + 1 := by
  obtain ⟨i, d, hp', rfl⟩ := Walker.pending_eq_some hc
  cases h with
  | begin _ _ _ _ => exact absurd hp' (by simp)
  | fetch _ _ i hr hk hp => exact ⟨i, hr, hk, hp, rfl⟩
  | complete _ _ j d' _ => exact absurd hp' (Walker.phaseAfter_ne_busy R d' i d)

/-- With its run control off a device reads no memory: it can only complete the record in
    hand. -/
theorem Step.of_stopped (h : Step R mem (w, x) (w', x')) (hr : w.run = false)
    (hk : w.kick = false) (mem' : ι → δ) : Step R mem' (w, x) (w', x') := by
  cases h with
  | begin _ _ hk' _ => exact absurd (hk.symm.trans hk') (by decide)
  | fetch _ _ _ hr' _ _ => exact absurd (hr.symm.trans hr') (by decide)
  | complete _ _ i d hp => exact Step.complete w x i d hp

/-- Only a device that was started, or has not come to rest, takes steps. -/
theorem Step.active (h : Step R mem (w, x) (w', x')) : w.kick = true ∨ w.phase ≠ .halted := by
  cases hk : w.kick with
  | true => exact .inl rfl
  | false => exact .inr fun hp => Step.not_of_halted hk hp h

/-- The word after a step is the one before, or the report of the record in hand. -/
theorem Step.word_cases (h : Step R mem (w, x) (w', x')) : x' = x ∨ w.pending R = some x' := by
  cases h with
  | begin _ _ _ _ => exact .inl rfl
  | fetch _ _ _ _ _ _ => exact .inl rfl
  | complete _ _ i d hp =>
    by_cases hrep : R.report d = true
    · right
      rw [if_pos hrep]
      simp only [Walker.pending, hp, hrep, if_true]
    · exact .inl (if_neg hrep)

end

section
variable {R : Rules Nat δ} {mem : Nat → δ} {m : Nat} {w w' : Walker Nat δ} {x x' : Nat}

/-- On the chain the record in hand is the next one of the memory. -/
theorem OnChain.hand_eq (h : OnChain mem m w) {d : δ} (hd : w.hand = some d) :
    w.count ≤ m ∧ d = mem w.count := by
  obtain ⟨i, hp⟩ := Walker.hand_eq_some.mp hd
  have hph := h.phase
  rw [hp] at hph
  obtain ⟨rfl, hle, hmem⟩ := hph
  exact ⟨hle, hmem⟩

theorem OnChain.count_le (h : OnChain mem m w) : w.count ≤ m + 1 := by
  have hph := h.phase
  cases hp : w.phase with
  | halted =>
    rw [hp] at hph
    omega
  | ready i =>
    rw [hp] at hph
    omega
  | busy i d =>
    rw [hp] at hph
    omega

/-- **Output.** A step of a walk on the chain puts out the records it counts, as the memory
    has them. -/
theorem OnChain.map_range_handed (h : OnChain mem m w)
    (hs : Step R mem (w, x) (w', x')) :
    (List.range w.count).map mem ++ w.handed w' = (List.range w'.count).map mem := by
  cases hs with
  | begin _ _ hk _ => exact absurd (hk.symm.trans h.kick) (by simp)
  | fetch _ _ i _ _ hp =>
    show (List.range w.count).map mem ++ [] = _
    rw [List.append_nil]
  | complete _ _ i d hp =>
    have hd : w.hand = some d := Walker.hand_eq_some.mpr ⟨i, hp⟩
    rw [Walker.handed_of_complete R hp, (h.hand_eq hd).2, List.range_succ, List.map_append]
    rfl

/-- A running walk can take its next record in hand, and leaves the word alone. -/
theorem OnChain.take (h : OnChain mem m w) (hr : w.run = true) (hm : w.count ≤ m) (x : Nat) :
    ∃ w', Relation.ReflTransGen (Step R mem) (w, x) (w', x) ∧
      w'.phase = .busy w.count (mem w.count) ∧ w'.count = w.count := by
  have hph := h.phase
  cases hp : w.phase with
  | halted =>
    rw [hp] at hph
    omega
  | ready i =>
    rw [hp] at hph
    rw [hph.1] at hp
    exact ⟨_, Relation.ReflTransGen.single (Step.fetch w x w.count hr h.kick hp), rfl, rfl⟩
  | busy i d =>
    rw [hp] at hph
    obtain ⟨hi, -, hd⟩ := hph
    rw [hi] at hp hd
    rw [hd] at hp
    exact ⟨w, Relation.ReflTransGen.refl, hp, rfl⟩

end

end ChainWalker
