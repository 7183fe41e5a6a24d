import Mathlib.Logic.Function.Basic
import Mathlib.Data.List.Basic
import Mathlib.Tactic.Common

namespace ArrayLoop

/-!
# Loops that rewrite an array

Two loop shapes over an array seen as a function `Nat → α`:

* `forEach n idx f a` — `for (i = 0; i < n; i++) a[idx i] = f i a[idx i]`.  An entry no
  pass addresses keeps its value (`forEach_of_forall_ne`); when distinct passes address
  distinct entries each of them is rewritten exactly once (`forEach_of_injOn`);
* `writeFrom u fs a` — the result of rewriting the consecutive entries `a[u], a[u+1], …`
  by the functions of the list `fs`, in closed form, with the step equation
  `writeFrom_cons` a loop over `fs` satisfies.
-/

variable {α β : Type*}

/-! ### Indexed loops -/

/-- `for (i = 0; i < n; i++) a[idx i] = f i a[idx i]`. -/
def forEach (n : Nat) (idx : Nat → Nat) (f : Nat → α → α) (a : Nat → α) : Nat → α :=
  (List.range n).foldl (fun a i => Function.update a (idx i) (f i (a (idx i)))) a

@[simp] theorem forEach_zero (idx : Nat → Nat) (f : Nat → α → α) (a : Nat → α) :
    forEach 0 idx f a = a := rfl

/-- The last pass of the loop, peeled off. -/
theorem forEach_succ (n : Nat) (idx : Nat → Nat) (f : Nat → α → α) (a : Nat → α) :
    forEach (n + 1) idx f a
      = Function.update (forEach n idx f a) (idx n) (f n (forEach n idx f a (idx n))) := by
  unfold forEach
  rw [List.range_succ, List.foldl_append]
  rfl

/-- An entry no pass addresses keeps its value. -/
theorem forEach_of_forall_ne (n : Nat) (idx : Nat → Nat) (f : Nat → α → α) (a : Nat → α)
    (j : Nat) (hj : ∀ i < n, idx i ≠ j) : forEach n idx f a j = a j := by
  induction n with
  | zero => rfl
  | succ n ih =>
    rw [forEach_succ, Function.update_of_ne (hj n (Nat.lt_succ_self n)).symm]
    exact ih (fun i hi => hj i (by omega))

/-- The last pass that addresses an entry has the last word on it. -/
theorem forEach_of_last (n : Nat) (idx : Nat → Nat) (f : Nat → α → α) (a : Nat → α)
    (i : Nat) (hi : i < n) (hlast : ∀ k, i < k → k < n → idx k ≠ idx i) :
    forEach n idx f a (idx i) = f i (forEach i idx f a (idx i)) := by
  induction n with
  | zero => omega
  | succ n ih =>
    rw [forEach_succ]
    rcases Nat.lt_succ_iff_lt_or_eq.mp hi with hlt | rfl
    · -- A later pass: it addresses another entry.
      rw [Function.update_of_ne (hlast n hlt (Nat.lt_succ_self n)).symm]
      exact ih hlt (fun k hik hkn => hlast k hik (Nat.lt_succ_of_lt hkn))
    · rw [Function.update_self]

/-- When distinct passes address distinct entries, the entry of pass `i` is rewritten once. -/
theorem forEach_of_injOn (n : Nat) (idx : Nat → Nat) (f : Nat → α → α) (a : Nat → α)
    (hinj : ∀ i < n, ∀ i' < n, idx i = idx i' → i = i') (i : Nat) (hi : i < n) :
    forEach n idx f a (idx i) = f i (a (idx i)) := by
  have hlast : ∀ k, i < k → k < n → idx k ≠ idx i := by
    intro k hik hkn h
    have := hinj k hkn i hi h
    omega
  have hfirst : ∀ k < i, idx k ≠ idx i := by
    intro k hki h
    have := hinj k (by omega) i hi h
    omega
  rw [forEach_of_last n idx f a i hi hlast, forEach_of_forall_ne i idx f a (idx i) hfirst]

/-- The plain loop `for (i = 0; i < n; i++) a[i] = f i a[i]`, entry by entry. -/
theorem forEach_apply (n : Nat) (f : Nat → α → α) (a : Nat → α) (j : Nat) :
    forEach n (fun i => i) f a j = if j < n then f j (a j) else a j := by
  by_cases hj : j < n
  · rw [if_pos hj]
    exact forEach_of_injOn n (fun i => i) f a (fun _ _ _ _ h => h) j hj
  · rw [if_neg hj]
    exact forEach_of_forall_ne n (fun i => i) f a j (fun i hi => by omega)

/-- A projection no pass changes is unchanged by the loop, whatever entries it addresses. -/
theorem forEach_proj (φ : α → β) (n : Nat) (idx : Nat → Nat) (f : Nat → α → α) (a : Nat → α)
    (hf : ∀ i x, φ (f i x) = φ x) (j : Nat) : φ (forEach n idx f a j) = φ (a j) := by
  induction n with
  | zero => rfl
  | succ n ih =>
    rw [forEach_succ]
    by_cases hj : j = idx n
    · subst hj
      rw [Function.update_self, hf]
      exact ih
    · rw [Function.update_of_ne hj]
      exact ih

/-! ### Consecutive writes -/

/-- Rewrite the entries `a[u], a[u+1], …` by the functions of `fs`, in order. -/
def writeFrom (u : Nat) (fs : List (α → α)) (a : Nat → α) (j : Nat) : α :=
  if u ≤ j then
    match fs[j - u]? with
    | some f => f (a j)
    | none => a j
  else a j

@[simp] theorem writeFrom_nil (u : Nat) (a : Nat → α) : writeFrom u [] a = a := by
  ext j
  simp [writeFrom]

/-- The first write of the list, then the rest one entry further on. -/
theorem writeFrom_cons (u : Nat) (f : α → α) (fs : List (α → α)) (a : Nat → α) :
    writeFrom (u + 1) fs (Function.update a u (f (a u))) = writeFrom u (f :: fs) a := by
  ext j
  unfold writeFrom
  rcases Nat.lt_trichotomy j u with hj | rfl | hj
  · -- Before the range both sides leave the entry alone.
    rw [if_neg (by omega), if_neg (by omega), Function.update_of_ne (by omega)]
  · -- The entry the first write is for.
    rw [if_neg (by omega), if_pos (Nat.le_refl j), Function.update_self]
    simp
  · -- Further on the two lists are shifted by one.
    have hju : j - u = (j - (u + 1)) + 1 := by omega
    rw [if_pos (by omega), if_pos (by omega), Function.update_of_ne (by omega), hju,
      List.getElem?_cons_succ]

/-- The written entries. -/
theorem writeFrom_lt (u : Nat) (fs : List (α → α)) (a : Nat → α) (k : Nat) (hk : k < fs.length) :
    writeFrom u fs a (u + k) = fs[k] (a (u + k)) := by
  simp [writeFrom, List.getElem?_eq_getElem hk]

end ArrayLoop
