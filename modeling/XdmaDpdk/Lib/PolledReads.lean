import XdmaDpdk.Lib.StableRead
import Mathlib.Logic.Relation

namespace StableRead

/-!
# Double reads of a live counter

`Growing` supposes a counter that grows; here the counter is a value `val` of a system that
takes steps of its own.  `Polls step val s rs s'` is a reader that makes the passes `rs`, two
reads each, while the system goes from `s` to `s'`, any number of steps before every read.

The reader's passes as a function of the pass number are `held v rs`: past the end of `rs`
the last value found is found again.  `Polls.growing` says that a system whose steps keep an
invariant and do not lower `val` shows a growing counter, and `Polls.last` that the last read
is the value the system is left with.  Where the system is part of a larger one, `Polls.map`
carries the passes over.
-/

variable {σ : Type*} {step : σ → σ → Prop} {val : σ → Nat} {s s' : σ} {rs : List (Nat × Nat)}

/-- The passes of a reader, the system stepping before each of the two reads. -/
inductive Polls (step : σ → σ → Prop) (val : σ → Nat) : σ → List (Nat × Nat) → σ → Prop
  | nil (s : σ) : Polls step val s [] s
  | pass {s s₁ s₂ s' : σ} {rs : List (Nat × Nat)} (h₁ : Relation.ReflTransGen step s s₁)
      (h₂ : Relation.ReflTransGen step s₁ s₂) (h : Polls step val s₂ rs s') :
      Polls step val s ((val s₁, val s₂) :: rs) s'

/-- The pass of each number; `v` is the value found before the first. -/
def held : Nat → List (Nat × Nat) → Nat → Nat × Nat
  | v, [], _ => (v, v)
  | _, r :: _, 0 => r
  | _, r :: rs, i + 1 => held r.2 rs i

theorem held_nil (v : Nat) : held v [] = fun _ => (v, v) := by
  funext i
  cases i <;> rfl

/-- A pass in front, at or above the old start. -/
theorem Growing.cons {lo lo' hi : Nat} {r : Nat × Nat} {reads reads' : Nat → Nat × Nat}
    (h : Growing lo hi reads) (h0 : reads' 0 = r) (hs : ∀ i, reads' (i + 1) = reads i)
    (hlo : lo' ≤ r.1) (hr : r.1 ≤ r.2) (hnext : r.2 ≤ lo) : Growing lo' hi reads' where
  start := by
    rw [h0]
    exact hlo
  within i := by
    cases i with
    | zero =>
      rw [h0]
      exact hr
    | succ i =>
      rw [hs]
      exact h.within i
  across i := by
    cases i with
    | zero =>
      rw [h0, hs]
      exact hnext.trans h.start
    | succ i =>
      rw [hs, hs]
      exact h.across i
  bound i := by
    cases i with
    | zero =>
      rw [h0]
      exact (hnext.trans (h.lo_le 0)).trans ((h.within 0).trans (h.bound 0))
    | succ i =>
      rw [hs]
      exact h.bound i

/-- Any number of steps keeps the invariant and does not lower the value. -/
theorem invariant_reach {I : σ → Prop} (hstep : ∀ s s', I s → step s s' → I s' ∧ val s ≤ val s')
    (h : Relation.ReflTransGen step s s') (hs : I s) : I s' ∧ val s ≤ val s' := by
  induction h with
  | refl => exact ⟨hs, Nat.le_refl _⟩
  | tail _ ht ih =>
    obtain ⟨hi, hle⟩ := ih
    obtain ⟨hi', hle'⟩ := hstep _ _ hi ht
    exact ⟨hi', hle.trans hle'⟩

/-- **Live counters grow.** -/
theorem Polls.growing {I : σ → Prop} {hi : Nat}
    (hstep : ∀ s s', I s → step s s' → I s' ∧ val s ≤ val s') (hbound : ∀ s, I s → val s ≤ hi)
    (h : Polls step val s rs s') (hs : I s) :
    I s' ∧ val s ≤ val s' ∧ Growing (val s) hi (held (val s) rs) := by
  induction h with
  | nil s =>
    rw [held_nil]
    exact ⟨hs, Nat.le_refl _, growing_const (Nat.le_refl _) (hbound s hs)⟩
  | @pass s s₁ s₂ s' rs h₁ h₂ _ ih =>
    obtain ⟨hi₁, hle₁⟩ := invariant_reach hstep h₁ hs
    obtain ⟨hi₂, hle₂⟩ := invariant_reach hstep h₂ hi₁
    obtain ⟨hi', hle', hgrow⟩ := ih hi₂
    exact ⟨hi', hle₁.trans (hle₂.trans hle'),
      hgrow.cons rfl (fun _ => rfl) hle₁ hle₂ (Nat.le_refl _)⟩

/-- The last read found the value the system is left with. -/
theorem Polls.last (h : Polls step val s rs s') {k : Nat} (hk : rs.length = k + 1) (v : Nat) :
    (held v rs k).2 = val s' := by
  induction h generalizing k v with
  | nil s => exact absurd hk (by simp)
  | @pass s s₁ s₂ s' rs h₁ h₂ h ih =>
    cases k with
    | zero =>
      -- The only pass.
      have hnil : rs = [] := List.length_eq_zero_iff.mp (Nat.succ_injective hk)
      subst hnil
      cases h
      rfl
    | succ k => exact ih (Nat.succ_injective hk) (val s₂)

/-- The system between the first read and the last. -/
theorem Polls.reach (h : Polls step val s rs s') : Relation.ReflTransGen step s s' := by
  induction h with
  | nil s => exact Relation.ReflTransGen.refl
  | pass h₁ h₂ _ ih => exact (h₁.trans h₂).trans ih

/-- The passes over a system are passes over any part of it that holds the value. -/
theorem Polls.map {τ : Type*} {step' : τ → τ → Prop} {val' : τ → Nat} (f : σ → τ)
    (hval : ∀ s, val' (f s) = val s)
    (hstep : ∀ s s', step s s' → Relation.ReflTransGen step' (f s) (f s'))
    (h : Polls step val s rs s') : Polls step' val' (f s) rs (f s') := by
  induction h with
  | nil s => exact Polls.nil _
  | @pass s s₁ s₂ s' rs h₁ h₂ _ ih =>
    rw [← hval s₁, ← hval s₂]
    exact Polls.pass (h₁.lift' f hstep) (h₂.lift' f hstep) ih

end StableRead
