import Mathlib.Logic.Function.Basic
import Mathlib.Data.List.Basic
import Mathlib.Data.List.Nodup
import Mathlib.Tactic.Common

namespace Handles

/-!
# Objects behind handles

An `Arena σ α` holds objects of type `α` behind handles, next to an environment `σ`.  A slot
of a table holds a handle or none.  Using a slot that has no handle, or one whose object is
gone, is a fault, and nothing happens after a fault.

`sweep act A slots` uses the slots of a list one after the other; `act` may change the
environment, and update or remove the object.  Slots carry a label, so that one sweep can
treat several tables.

* `sweep_induct` — what every use of a slot keeps, a sweep keeps;
* `reached` — the objects a sweep comes to before it faults.  Over distinct handles they can
  be read off the arena the sweep starts from, and with them the sweep's fault
  (`sweep_faulted`), environment (`sweep_env`) and objects (`sweep_cell_of_mem`).
-/

variable {ι σ α : Type*}

structure Arena (σ α : Type*) where
  env : σ
  cell : Nat → Option α
  faulted : Bool

/-- The handles of a list of slots. -/
def handles (slots : List (ι × Option Nat)) : List Nat := slots.filterMap Prod.snd

theorem handles_append (s t : List (ι × Option Nat)) :
    handles (s ++ t) = handles s ++ handles t := List.filterMap_append

namespace Arena

/-- The object of a slot, with its handle. -/
def get (A : Arena σ α) (slot : Option Nat) : Option (Nat × α) :=
  slot.bind fun h => (A.cell h).map fun a => (h, a)

theorem get_eq_some {A : Arena σ α} {slot : Option Nat} {h : Nat} {a : α} :
    A.get slot = some (h, a) ↔ slot = some h ∧ A.cell h = some a := by
  unfold get
  rw [Option.bind_eq_some_iff]
  constructor
  · rintro ⟨k, rfl, hmap⟩
    obtain ⟨b, hb, heq⟩ := Option.map_eq_some_iff.mp hmap
    cases heq
    exact ⟨rfl, hb⟩
  · rintro ⟨rfl, hcell⟩
    exact ⟨h, rfl, Option.map_eq_some_iff.mpr ⟨a, hcell, rfl⟩⟩

/-- The slot leads to an object. -/
def Live (A : Arena σ α) (s : ι × Option Nat) : Prop := ∃ r, A.get s.2 = some r

/-- Replace the environment and the object behind a handle. -/
def put (A : Arena σ α) (h : Nat) (r : σ × Option α) : Arena σ α :=
  { A with env := r.1, cell := Function.update A.cell h r.2 }

@[simp] theorem put_env (A : Arena σ α) (h : Nat) (r : σ × Option α) : (A.put h r).env = r.1 := rfl

@[simp] theorem put_cell_self (A : Arena σ α) (h : Nat) (r : σ × Option α) :
    (A.put h r).cell h = r.2 := Function.update_self ..

theorem put_cell_of_ne (A : Arena σ α) {h k : Nat} (hne : k ≠ h) (r : σ × Option α) :
    (A.put h r).cell k = A.cell k := Function.update_of_ne hne ..

/-- Use the object of a slot. -/
def touch (act : ι → σ → Nat → α → σ × Option α) (A : Arena σ α) (s : ι × Option Nat) : Arena σ α :=
  if A.faulted then A
  else
    match A.get s.2 with
    | none => { A with faulted := true }
    | some (h, a) => A.put h (act s.1 A.env h a)

/-- Use the objects of the slots, one after the other. -/
def sweep (act : ι → σ → Nat → α → σ × Option α) (A : Arena σ α) (slots : List (ι × Option Nat)) :
    Arena σ α := slots.foldl (touch act) A

section
variable {act : ι → σ → Nat → α → σ × Option α} {A : Arena σ α}

theorem touch_of_faulted (hf : A.faulted = true) (s : ι × Option Nat) : touch act A s = A := by
  unfold touch
  rw [if_pos hf]

theorem touch_of_live (hf : A.faulted = false) {s : ι × Option Nat} {h : Nat} {a : α}
    (hget : A.get s.2 = some (h, a)) :
    touch act A s = A.put h (act s.1 A.env h a) := by
  unfold touch
  rw [if_neg (ne_true_of_eq_false hf), hget]

theorem touch_of_dead (hf : A.faulted = false) {s : ι × Option Nat} (hget : A.get s.2 = none) :
    touch act A s = { A with faulted := true } := by
  unfold touch
  rw [if_neg (ne_true_of_eq_false hf), hget]

theorem sweep_cons (s : ι × Option Nat) (slots : List (ι × Option Nat)) :
    sweep act A (s :: slots) = sweep act (touch act A s) slots := rfl

theorem sweep_append (s t : List (ι × Option Nat)) :
    sweep act A (s ++ t) = sweep act (sweep act A s) t := List.foldl_append

/-- Nothing happens after a fault. -/
theorem sweep_of_faulted (hf : A.faulted = true) (slots : List (ι × Option Nat)) :
    sweep act A slots = A := by
  induction slots with
  | nil => rfl
  | cons s slots ih => rw [sweep_cons, touch_of_faulted hf, ih]

/-- **Sweep rule.** What holds before, survives a fault, and is kept by every use of a slot of
    the list, holds after the sweep. -/
theorem sweep_induct {P : Arena σ α → Prop} {slots : List (ι × Option Nat)} (h0 : P A)
    (hfault : ∀ A, P A → P { A with faulted := true })
    (hlive : ∀ A s h a, s ∈ slots → P A → A.faulted = false → A.get s.2 = some (h, a) →
      P (A.put h (act s.1 A.env h a))) :
    P (sweep act A slots) := by
  induction slots generalizing A with
  | nil => exact h0
  | cons s slots ih =>
    rw [sweep_cons]
    apply ih
    · cases hf : A.faulted with
      | true =>
        rw [touch_of_faulted hf]
        exact h0
      | false =>
        cases hget : A.get s.2 with
        | none =>
          rw [touch_of_dead hf hget]
          exact hfault A h0
        | some r =>
          rw [touch_of_live hf hget]
          exact hlive A s r.1 r.2 (List.mem_cons_self ..) h0 hf hget
    · exact fun A t h a ht => hlive A t h a (List.mem_cons_of_mem s ht)

/-- A handle that is in no slot of the list keeps its object. -/
theorem sweep_cell_of_notMem (slots : List (ι × Option Nat)) (h : Nat) (hnot : h ∉ handles slots) :
    (sweep act A slots).cell h = A.cell h := by
  apply sweep_induct (P := fun B => B.cell h = A.cell h) rfl (fun _ hB => hB)
  intro B s k a hs hB _ hget
  have hk : k ∈ handles slots :=
    List.mem_filterMap.mpr ⟨s, hs, (get_eq_some.mp hget).1⟩
  have hne : h ≠ k := fun heq => hnot (heq ▸ hk)
  rw [put_cell_of_ne B hne, hB]

/-! ### What a sweep reaches -/

/-- The objects before the first slot that leads to none, with label and handle. -/
def reached (A : Arena σ α) : List (ι × Option Nat) → List (ι × Nat × α)
  | [] => []
  | s :: slots =>
    match A.get s.2 with
    | some (h, a) => (s.1, h, a) :: reached A slots
    | none => []

theorem reached_cons_of_live {s : ι × Option Nat} {h : Nat} {a : α}
    (hget : A.get s.2 = some (h, a)) (slots : List (ι × Option Nat)) :
    A.reached (s :: slots) = (s.1, h, a) :: A.reached slots := by
  rw [reached, hget]

theorem reached_cons_of_dead {s : ι × Option Nat} (hget : A.get s.2 = none)
    (slots : List (ι × Option Nat)) : A.reached (s :: slots) = [] := by
  rw [reached, hget]

/-- What is reached depends on the objects behind the handles of the list only. -/
theorem reached_congr {B : Arena σ α} {slots : List (ι × Option Nat)}
    (hcell : ∀ h ∈ handles slots, B.cell h = A.cell h) : B.reached slots = A.reached slots := by
  induction slots with
  | nil => rfl
  | cons s slots ih =>
    have hget : B.get s.2 = A.get s.2 := by
      cases hs : s.2 with
      | none => rfl
      | some h =>
        have hh := hcell h (List.mem_filterMap.mpr ⟨s, List.mem_cons_self .., hs⟩)
        simp only [get, Option.bind_some, hh]
    have hrest : B.reached slots = A.reached slots := by
      apply ih
      intro h hh
      obtain ⟨t, ht, hth⟩ := List.mem_filterMap.mp hh
      exact hcell h (List.mem_filterMap.mpr ⟨t, List.mem_cons_of_mem s ht, hth⟩)
    rw [reached, reached, hget, hrest]

/-- An object reached is the one behind a slot of the list. -/
theorem mem_reached {slots : List (ι × Option Nat)} {r : ι × Nat × α} (hr : r ∈ A.reached slots) :
    (r.1, some r.2.1) ∈ slots ∧ A.cell r.2.1 = some r.2.2 := by
  induction slots with
  | nil => cases hr
  | cons s slots ih =>
    cases hget : A.get s.2 with
    | none =>
      rw [reached_cons_of_dead hget] at hr
      cases hr
    | some p =>
      rw [reached_cons_of_live hget] at hr
      rcases List.mem_cons.mp hr with rfl | hr
      · obtain ⟨hslot, hcell⟩ := get_eq_some.mp hget
        have hs : s = (s.1, some p.1) := Prod.ext rfl hslot
        exact ⟨by rw [← hs]; exact List.mem_cons_self .., hcell⟩
      · exact ⟨List.mem_cons_of_mem s (ih hr).1, (ih hr).2⟩

/-- When every slot leads to an object, every object is reached. -/
theorem mem_reached_of_live {slots : List (ι × Option Nat)} (hall : ∀ s ∈ slots, A.Live s) {l : ι}
    {h : Nat} (hs : (l, some h) ∈ slots) : ∃ a, (l, h, a) ∈ A.reached slots := by
  induction slots with
  | nil => cases hs
  | cons s slots ih =>
    obtain ⟨p, hp⟩ := hall s (List.mem_cons_self ..)
    rw [reached_cons_of_live hp]
    rcases List.mem_cons.mp hs with rfl | hs
    · obtain ⟨hslot, -⟩ := get_eq_some.mp hp
      obtain rfl := Option.some.inj hslot
      exact ⟨p.2, List.mem_cons_self ..⟩
    · obtain ⟨a, ha⟩ := ih (fun t ht => hall t (List.mem_cons_of_mem s ht)) hs
      exact ⟨a, List.mem_cons_of_mem _ ha⟩

/-- Over distinct handles, using one slot leaves what the rest reaches. -/
theorem reached_put {s : ι × Option Nat} {slots : List (ι × Option Nat)}
    (hnodup : (handles (s :: slots)).Nodup) {h : Nat} {a : α} (hget : A.get s.2 = some (h, a))
    (q : σ × Option α) : (A.put h q).reached slots = A.reached slots := by
  apply reached_congr
  intro k hk
  have hs : s.2 = some h := (get_eq_some.mp hget).1
  rw [handles, List.filterMap_cons_some hs] at hnodup
  have hne : k ≠ h := fun heq => (List.nodup_cons.mp hnodup).1 (heq ▸ hk)
  exact put_cell_of_ne A hne q

theorem nodup_handles_of_cons {s : ι × Option Nat} {slots : List (ι × Option Nat)}
    (hnodup : (handles (s :: slots)).Nodup) : (handles slots).Nodup := by
  cases hs : s.2 with
  | none => rwa [handles, List.filterMap_cons_none hs] at hnodup
  | some h =>
    rw [handles, List.filterMap_cons_some hs] at hnodup
    exact (List.nodup_cons.mp hnodup).2

/-- And whether a slot of the rest leads to an object. -/
theorem live_put {s t : ι × Option Nat} {slots : List (ι × Option Nat)}
    (hnodup : (handles (s :: slots)).Nodup) {h : Nat} {a : α} (hget : A.get s.2 = some (h, a))
    (ht : t ∈ slots) (q : σ × Option α) : (A.put h q).Live t ↔ A.Live t := by
  have hs : s.2 = some h := (get_eq_some.mp hget).1
  rw [handles, List.filterMap_cons_some hs] at hnodup
  unfold Live
  cases ht2 : t.2 with
  | none => exact Iff.rfl
  | some k =>
    have hmem : k ∈ handles slots := List.mem_filterMap.mpr ⟨t, ht, ht2⟩
    have hne : k ≠ h := fun heq => (List.nodup_cons.mp hnodup).1 (heq ▸ hmem)
    simp only [get, Option.bind_some, put_cell_of_ne A hne q]

/-- A sweep over distinct handles faults exactly when some slot leads to no object. -/
theorem sweep_faulted {slots : List (ι × Option Nat)} (hnodup : (handles slots).Nodup)
    (hf : A.faulted = false) :
    (sweep act A slots).faulted = false ↔ ∀ s ∈ slots, A.Live s := by
  induction slots generalizing A with
  | nil => simpa [sweep] using hf
  | cons s slots ih =>
    rw [sweep_cons]
    cases hget : A.get s.2 with
    | none =>
      rw [touch_of_dead hf hget, sweep_of_faulted rfl]
      constructor
      · intro hfault
        cases hfault
      · intro hall
        obtain ⟨r, hr⟩ := hall s (List.mem_cons_self ..)
        cases hget.symm.trans hr
    | some p =>
      rw [touch_of_live hf hget, List.forall_mem_cons,
        ih (A := A.put p.1 (act s.1 A.env p.1 p.2)) (nodup_handles_of_cons hnodup) hf]
      constructor
      · exact fun hall => ⟨⟨p, hget⟩, fun t ht => (live_put hnodup hget ht _).mp (hall t ht)⟩
      · exact fun hall t ht => (live_put hnodup hget ht _).mpr (hall.2 t ht)

/-- Its environment is that of the objects reached, acted on in order. -/
theorem sweep_env {slots : List (ι × Option Nat)} (hnodup : (handles slots).Nodup)
    (hf : A.faulted = false) :
    (sweep act A slots).env
      = (A.reached slots).foldl (fun env r => (act r.1 env r.2.1 r.2.2).1) A.env := by
  induction slots generalizing A with
  | nil => rfl
  | cons s slots ih =>
    rw [sweep_cons]
    cases hget : A.get s.2 with
    | none =>
      rw [touch_of_dead hf hget, sweep_of_faulted rfl, reached_cons_of_dead hget]
      rfl
    | some p =>
      rw [touch_of_live hf hget, reached_cons_of_live hget, List.foldl_cons,
        ih (A := A.put p.1 (act s.1 A.env p.1 p.2)) (nodup_handles_of_cons hnodup) hf,
        reached_put hnodup hget, put_env]

variable (act) in
/-- And each object reached is left as the action makes it, in some environment. -/
theorem sweep_cell_of_mem {slots : List (ι × Option Nat)} (hnodup : (handles slots).Nodup)
    (hf : A.faulted = false) {r : ι × Nat × α} (hr : r ∈ A.reached slots) :
    ∃ env, (sweep act A slots).cell r.2.1 = (act r.1 env r.2.1 r.2.2).2 := by
  induction slots generalizing A with
  | nil => cases hr
  | cons s slots ih =>
    rw [sweep_cons]
    cases hget : A.get s.2 with
    | none =>
      rw [reached_cons_of_dead hget] at hr
      cases hr
    | some p =>
      rw [touch_of_live hf hget]
      rw [reached_cons_of_live hget] at hr
      rcases List.mem_cons.mp hr with rfl | hr
      · -- The slot itself: the rest of the sweep does not come back to it.
        have hs : s.2 = some p.1 := (get_eq_some.mp hget).1
        rw [handles, List.filterMap_cons_some hs] at hnodup
        refine ⟨A.env, ?_⟩
        rw [sweep_cell_of_notMem _ _ (List.nodup_cons.mp hnodup).1, put_cell_self]
      · rw [← reached_put hnodup hget (act s.1 A.env p.1 p.2)] at hr
        exact ih (A := A.put p.1 (act s.1 A.env p.1 p.2)) (nodup_handles_of_cons hnodup) hf hr

end

end Arena

end Handles
