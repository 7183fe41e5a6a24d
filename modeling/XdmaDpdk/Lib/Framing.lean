import Mathlib.Data.List.Basic
import Mathlib.Tactic.Common

namespace Framing

/-!
# Frames in a flagged stream

A sequence of non-empty frames laid out in one stream, where a flag on each element says
whether it is the last of its frame.

* `frame` — one frame, its last element flagged;
* `decode` — the frames a stream holds; a stream that ends inside a frame holds none;
* `decode_flatMap_frame` — the round trip.
-/

variable {α β : Type*}

/-- The elements of a frame, each with the flag "last of its frame". -/
def frame : List α → List (α × Bool)
  | [] => []
  | a :: l => (a, l.isEmpty) :: frame l

@[simp] theorem frame_nil : frame ([] : List α) = [] := rfl

@[simp] theorem frame_cons (a : α) (l : List α) : frame (a :: l) = (a, l.isEmpty) :: frame l := rfl

@[simp] theorem length_frame (l : List α) : (frame l).length = l.length := by
  induction l with
  | nil => rfl
  | cons a l ih => rw [frame_cons, List.length_cons, ih, List.length_cons]

/-- Framing commutes with a map of the elements. -/
theorem frame_map (g : α → β) (l : List α) :
    frame (l.map g) = (frame l).map (fun p => (g p.1, p.2)) := by
  induction l with
  | nil => rfl
  | cons a l ih => rw [List.map_cons, frame_cons, ih, frame_cons, List.map_cons, List.isEmpty_map]

/-- The last element of a frame is flagged. -/
theorem getLast_frame (l : List α) : ∀ p ∈ (frame l).getLast?, p.2 = true := by
  induction l with
  | nil => intro p hp; cases hp
  | cons a l ih =>
    cases l with
    | nil =>
      intro p hp
      obtain rfl := Option.some.inj hp
      rfl
    | cons b l =>
      rw [frame_cons, frame_cons, List.getLast?_cons_cons]
      exact ih

/-- A stream of frames ends with a flagged element. -/
theorem getLast_flatMap_frame (fs : List (List α)) :
    ∀ p ∈ (fs.flatMap frame).getLast?, p.2 = true := by
  induction fs with
  | nil => intro p hp; cases hp
  | cons f fs ih =>
    intro p hp
    rw [List.flatMap_cons, List.getLast?_append] at hp
    cases hrest : (fs.flatMap frame).getLast? with
    | none =>
      rw [hrest, Option.none_or] at hp
      exact getLast_frame f p hp
    | some q =>
      rw [hrest, Option.some_or] at hp
      exact ih p (hrest.trans hp)

/-- The frames of a stream. -/
def decode : List (α × Bool) → Option (List (List α))
  | [] => some []
  | (a, true) :: s => (decode s).map (fun fs => [a] :: fs)
  | (a, false) :: s =>
    match decode s with
    | some (f :: fs) => some ((a :: f) :: fs)
    | _ => none

/-- A frame at the head of a stream is decoded first. -/
theorem decode_frame_append (f : List α) (hf : f ≠ []) (s : List (α × Bool)) :
    decode (frame f ++ s) = (decode s).map (fun fs => f :: fs) := by
  induction f with
  | nil => exact absurd rfl hf
  | cons a l ih =>
    cases l with
    | nil => rfl
    | cons b l =>
      -- An inner element joins the frame that the rest begins with.
      have hrest := ih (List.cons_ne_nil b l)
      show decode ((a, false) :: (frame (b :: l) ++ s)) = _
      rw [decode, hrest]
      cases decode s <;> rfl

/-- **Round trip.** -/
theorem decode_flatMap_frame (fs : List (List α)) (h : ∀ f ∈ fs, f ≠ []) :
    decode (fs.flatMap frame) = some fs := by
  induction fs with
  | nil => rfl
  | cons f fs ih =>
    rw [List.flatMap_cons, decode_frame_append f (h f (List.mem_cons_self ..)),
      ih (fun g hg => h g (List.mem_cons_of_mem f hg))]
    rfl

end Framing
