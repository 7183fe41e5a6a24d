import Mathlib.Algebra.Order.Group.Nat
import Mathlib.Tactic.Common

namespace StableRead

/-!
# Double reads of a counter another party advances

A reader that cannot stop the counter reads it twice per pass and trusts the value only when
both reads agree.  `reads i` is the pair of values pass `i` gets.  Over a counter that only
grows (`Growing lo hi reads`):

* the reads of later passes are no smaller (`Growing.le_of_lt`);
* a counter confined to `lo … hi` disagrees with itself in at most `hi - lo` passes, so one
  of any `hi - lo + 1` passes is stable (`Growing.exists_stable`).

`lastStable reads k` is the latest trusted value among the passes `0, …, k`: what the reader
knows of the counter after them.
-/

/-- The reads of a counter that grows from `lo` and stays at most `hi`. -/
structure Growing (lo hi : Nat) (reads : Nat → Nat × Nat) : Prop where
  start : lo ≤ (reads 0).1
  within : ∀ i, (reads i).1 ≤ (reads i).2
  across : ∀ i, (reads i).2 ≤ (reads (i + 1)).1
  bound : ∀ i, (reads i).2 ≤ hi

/-- Both reads of a pass agree. -/
def Stable (r : Nat × Nat) : Prop := r.1 = r.2

instance (r : Nat × Nat) : Decidable (Stable r) := inferInstanceAs (Decidable (r.1 = r.2))

/-- The latest trusted value among the passes `0, …, k`. -/
def lastStable (reads : Nat → Nat × Nat) : Nat → Option Nat
  | 0 => if Stable (reads 0) then some (reads 0).1 else none
  | k + 1 => if Stable (reads (k + 1)) then some (reads (k + 1)).1 else lastStable reads k

section
variable {lo hi : Nat} {reads : Nat → Nat × Nat}

namespace Growing

theorem le_of_lt (h : Growing lo hi reads) {i j : Nat} (hij : i < j) :
    (reads i).2 ≤ (reads j).1 := by
  induction j, hij using Nat.le_induction with
  | base => exact h.across i
  | succ j _ ih => exact ih.trans ((h.within j).trans (h.across j))

theorem lo_le (h : Growing lo hi reads) (i : Nat) : lo ≤ (reads i).1 := by
  rcases Nat.eq_zero_or_pos i with rfl | hi
  · exact h.start
  · exact h.start.trans ((h.within 0).trans (h.le_of_lt hi))

/-- Every unstable pass moves the counter on by at least one. -/
theorem add_le_of_unstable (h : Growing lo hi reads) (k : Nat)
    (hk : ∀ i ≤ k, ¬ Stable (reads i)) : lo + (k + 1) ≤ (reads k).2 := by
  induction k with
  | zero =>
    have h0 : (reads 0).1 ≠ (reads 0).2 := hk 0 (Nat.le_refl 0)
    have hstart := h.start
    have hwithin := h.within 0
    omega
  | succ k ih =>
    have hk1 : (reads (k + 1)).1 ≠ (reads (k + 1)).2 := hk (k + 1) (Nat.le_refl _)
    have hprev := ih (fun i hi => hk i (by omega))
    -- Between the passes the counter does not fall, within the pass it rises.
    have hacross := h.across k
    have hwithin := h.within (k + 1)
    omega

/-- **Pigeonhole.** Among the passes `0, …, k` one is stable once `hi - lo ≤ k`. -/
theorem exists_stable (h : Growing lo hi reads) (k : Nat) (hk : hi ≤ lo + k) :
    ∃ i ≤ k, Stable (reads i) := by
  by_contra hno
  have hun : ∀ i ≤ k, ¬ Stable (reads i) := fun i hi hs => hno ⟨i, hi, hs⟩
  have hlow := h.add_le_of_unstable k hun
  have hhigh := h.bound k
  omega

end Growing

/-- A reader that always finds one value keeps finding it. -/
theorem growing_const {lo hi v : Nat} (hlo : lo ≤ v) (hhi : v ≤ hi) :
    Growing lo hi (fun _ => (v, v)) :=
  ⟨hlo, fun _ => Nat.le_refl v, fun _ => Nat.le_refl v, fun _ => hhi⟩

theorem lastStable_of_stable {k v : Nat} (h : reads k = (v, v)) :
    lastStable reads k = some v := by
  cases k <;> simp [lastStable, Stable, h]

/-- If every stable pass shows `v` and some pass is stable, the latest trusted value is `v`. -/
theorem lastStable_eq_of_forall {k v : Nat}
    (hall : ∀ i ≤ k, Stable (reads i) → (reads i).1 = v) (hex : ∃ i ≤ k, Stable (reads i)) :
    lastStable reads k = some v := by
  induction k with
  | zero =>
    obtain ⟨i, hi, hs⟩ := hex
    obtain rfl : i = 0 := by omega
    simp [lastStable, hs, hall 0 (Nat.le_refl 0) hs]
  | succ k ih =>
    by_cases hs : Stable (reads (k + 1))
    · simp [lastStable, hs, hall (k + 1) (Nat.le_refl _) hs]
    · -- An unstable pass: the stable one is among the earlier ones.
      unfold lastStable
      rw [if_neg hs]
      apply ih (fun i hi => hall i (by omega))
      obtain ⟨i, hi, hsi⟩ := hex
      have hne : i ≠ k + 1 := fun h => hs (h ▸ hsi)
      exact ⟨i, by omega, hsi⟩

end

end StableRead
