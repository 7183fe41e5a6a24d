import Mathlib.Data.List.Range
import Mathlib.Tactic.Common

namespace Consumer

/-!
# A consumed-counter over cycles

A consumer takes the slots `0, …, N - 1` of a cycle in order, any number of them per call,
and starts over when it has taken them all.  `Run N c outs d` is a run from the consumed
count `c` to `d` whose calls took the slots `outs`.

`Run.flatten` is delivery exactly once and in order: the slots taken over the whole run are
some full cycles and the beginning of one more.
-/

/-- The consumed count after a call that took the slots up to `c`. -/
def next (N c : Nat) : Nat := if c = N then 0 else c

/-- A run of calls, each with the slots it took. -/
inductive Run (N : Nat) : Nat → List (List Nat) → Nat → Prop
  | nil (c : Nat) : Run N c [] c
  | call {c c' d : Nat} {outs : List (List Nat)} (hle : c ≤ c') (hN : c' ≤ N)
      (h : Run N (next N c') outs d) : Run N c (List.range' c (c' - c) :: outs) d

theorem next_lt {N c : Nat} (hpos : 0 < N) (hc : c ≤ N) : next N c < N := by
  unfold next
  split
  · exact hpos
  · omega

theorem range_append_range' {c c' : Nat} (hle : c ≤ c') :
    List.range c ++ List.range' c (c' - c) = List.range c' := by
  rw [List.range_eq_range', List.range_eq_range']
  have h := List.range'_append_1 (s := 0) (m := c) (n := c' - c)
  rwa [Nat.zero_add, Nat.add_sub_of_le hle] at h

/-- Full cycles and the beginning of one more, with the slots up to `c'` taken next. -/
theorem cycles_append {N c c' : Nat} (hle : c ≤ c') (k : Nat) :
    ∃ k', (List.replicate k (List.range N)).flatten ++ List.range c ++ List.range' c (c' - c)
      = (List.replicate k' (List.range N)).flatten ++ List.range (next N c') := by
  rw [List.append_assoc, range_append_range' hle]
  unfold next
  split
  · -- The cycle is finished.
    rename_i hfull
    refine ⟨k + 1, ?_⟩
    rw [hfull, List.replicate_succ', List.flatten_append, List.range_zero, List.append_nil]
    simp
  · exact ⟨k, rfl⟩

/-- The consumed count stays within the cycle. -/
theorem Run.lt {N c d : Nat} {outs : List (List Nat)} (h : Run N c outs d) (hpos : 0 < N)
    (hc : c < N) : d < N := by
  induction h with
  | nil _ => exact hc
  | call _ hN _ ih => exact ih (next_lt hpos hN)

/-- **Exactly once, in order.** With the slots already taken in the first cycle in front, the
    slots of a run are full cycles and the first `d` slots of the present one. -/
theorem Run.flatten {N c d : Nat} {outs : List (List Nat)} (h : Run N c outs d) :
    ∃ k, List.range c ++ outs.flatten
      = (List.replicate k (List.range N)).flatten ++ List.range d := by
  induction h with
  | nil c => exact ⟨0, by simp⟩
  | @call c c' d outs hle hN _ ih =>
    obtain ⟨k, hk⟩ := ih
    rw [List.flatten_cons, ← List.append_assoc, range_append_range' hle]
    unfold next at hk
    split at hk
    · -- The call finished a cycle.
      rename_i hfull
      refine ⟨k + 1, ?_⟩
      rw [List.range_zero, List.nil_append] at hk
      rw [hfull, hk, List.replicate_succ, List.flatten_cons, List.append_assoc]
    · -- The cycle goes on.
      exact ⟨k, hk⟩

end Consumer
