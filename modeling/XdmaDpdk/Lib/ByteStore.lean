import Mathlib.Data.BitVec
import Mathlib.Data.List.Nodup
import Mathlib.Data.List.Count
import Mathlib.Tactic.Common

namespace ByteStore

/-!
# Stores into a memory of `w`-bit addresses

A memory is a function on addresses, and addresses wrap around.  The offset of an address `x`
from `a` is `(x - a).toNat`, so that the `n` cells from `a` on are those of offset below `n`.

* `store a bs m` — the memory after storing the list `bs` from `a` on; stores of adjacent
  pieces are one store (`store_append`);
* `cells a n` — the cells such a store writes, each once (`count_cells`);
* `load a n m` — what these cells hold: the list that was stored there (`load_store`), whatever
  is stored into other cells later (`load_store_apart`).
-/

variable {w : Nat} {α : Type*} {a x : BitVec w} {k n : Nat}

/-! ### Offsets -/

/-- Further on by `k`, the offset of what lies beyond is smaller by `k`. -/
theorem offset_sub (h : k ≤ (x - a).toNat) :
    (x - (a + BitVec.ofNat w k)).toNat = (x - a).toNat - k := by
  have hlt := (x - a).isLt
  have hk : (BitVec.ofNat w k).toNat = k := by
    rw [BitVec.toNat_ofNat]
    exact Nat.mod_eq_of_lt (by omega)
  have hsplit : x - (a + BitVec.ofNat w k) = (x - a) - BitVec.ofNat w k := sub_add_eq_sub_sub ..
  rw [hsplit, BitVec.toNat_sub_of_le (BitVec.le_def.mpr (by rw [hk]; exact h)), hk]

/-- What lies before wraps around to the end of the address space. -/
theorem le_offset_add (hk : k ≤ 2 ^ w) (h : (x - a).toNat < k) :
    2 ^ w - k ≤ (x - (a + BitVec.ofNat w k)).toNat := by
  have hsplit : x - (a + BitVec.ofNat w k) = (x - a) - BitVec.ofNat w k := sub_add_eq_sub_sub ..
  rw [hsplit, BitVec.toNat_sub, BitVec.toNat_ofNat]
  rcases Nat.lt_or_eq_of_le hk with hlt | rfl
  · rw [Nat.mod_eq_of_lt hlt, Nat.mod_eq_of_lt (by omega)]
    omega
  · omega

/-- The address at a given offset. -/
theorem add_offset (a x : BitVec w) : a + BitVec.ofNat w (x - a).toNat = x := by
  rw [BitVec.ofNat_toNat, BitVec.setWidth_eq]
  exact add_sub_cancel a x

/-- The offset of the address at a given offset. -/
theorem offset_add (a : BitVec w) (h : k < 2 ^ w) :
    (a + BitVec.ofNat w k - a).toNat = k := by
  rw [add_sub_cancel_left, BitVec.toNat_ofNat]
  exact Nat.mod_eq_of_lt h

/-! ### Stores -/

/-- The memory `m` with the list `bs` stored from `a` on. -/
def store (a : BitVec w) (bs : List α) (m : BitVec w → α) : BitVec w → α :=
  fun x => bs[(x - a).toNat]?.getD (m x)

@[simp] theorem store_nil (a : BitVec w) (m : BitVec w → α) : store a [] m = m := by
  ext x
  simp [store]

theorem store_of_lt {bs : List α} (m : BitVec w → α) (h : (x - a).toNat < bs.length) :
    store a bs m x = bs[(x - a).toNat] := by
  rw [store, List.getElem?_eq_getElem h]
  rfl

theorem store_of_le {bs : List α} (m : BitVec w → α) (h : bs.length ≤ (x - a).toNat) :
    store a bs m x = m x := by
  rw [store, List.getElem?_eq_none h]
  rfl

/-- Two adjacent pieces, short enough not to wrap around together, are one. -/
theorem store_append {bs cs : List α} (m : BitVec w → α) (h : bs.length + cs.length ≤ 2 ^ w) :
    store (a + BitVec.ofNat w bs.length) cs (store a bs m) = store a (bs ++ cs) m := by
  ext x
  have hlen : (bs ++ cs).length = bs.length + cs.length := List.length_append
  by_cases hx : (x - a).toNat < bs.length
  · -- A cell of the first piece lies behind the second, once around.
    have hfar := le_offset_add (by omega) hx
    rw [store_of_le _ (by omega), store_of_lt m hx, store_of_lt m (by omega),
      List.getElem_append_left hx]
  · have hoff := offset_sub (Nat.not_lt.mp hx)
    by_cases hx' : (x - a).toNat < bs.length + cs.length
    · rw [store_of_lt _ (by rw [hoff]; omega), store_of_lt m (by omega),
        List.getElem_append_right (Nat.not_lt.mp hx)]
      simp only [hoff]
    · rw [store_of_le _ (by rw [hoff]; omega), store_of_le m (Nat.not_lt.mp hx),
        store_of_le m (by omega)]

/-! ### The cells written -/

/-- The `n` cells from `a` on. -/
def cells (a : BitVec w) (n : Nat) : List (BitVec w) :=
  (List.range n).map fun i => a + BitVec.ofNat w i

@[simp] theorem cells_zero (a : BitVec w) : cells a 0 = [] := rfl

theorem cells_add (a : BitVec w) (m n : Nat) :
    cells a (m + n) = cells a m ++ cells (a + BitVec.ofNat w m) n := by
  unfold cells
  rw [List.range_add, List.map_append, List.map_map]
  congr 1
  apply List.map_congr_left
  intro i _
  show a + BitVec.ofNat w (m + i) = a + BitVec.ofNat w m + BitVec.ofNat w i
  rw [BitVec.ofNat_add, BitVec.add_assoc]

theorem mem_cells (hn : n ≤ 2 ^ w) : x ∈ cells a n ↔ (x - a).toNat < n := by
  unfold cells
  rw [List.mem_map]
  constructor
  · rintro ⟨i, hi, rfl⟩
    have hlt := List.mem_range.mp hi
    rw [offset_add a (by omega)]
    exact hlt
  · intro h
    exact ⟨(x - a).toNat, List.mem_range.mpr h, add_offset a x⟩

theorem nodup_cells (a : BitVec w) (hn : n ≤ 2 ^ w) : (cells a n).Nodup := by
  refine List.Nodup.map_on (fun i hi j hj h => ?_) List.nodup_range
  have hi := List.mem_range.mp hi
  have hj := List.mem_range.mp hj
  have hoff := congrArg (fun y => (y - a).toNat) h
  simp only [offset_add a (show i < 2 ^ w by omega),
    offset_add a (show j < 2 ^ w by omega)] at hoff
  exact hoff

/-- Each cell is written once, and no other. -/
theorem count_cells (hn : n ≤ 2 ^ w) :
    (cells a n).count x = if (x - a).toNat < n then 1 else 0 := by
  split
  · next h => exact List.count_eq_one_of_mem (nodup_cells a hn) ((mem_cells hn).mpr h)
  · next h => exact List.count_eq_zero_of_not_mem (mt (mem_cells hn).mp h)

/-- The first cells of a range. -/
theorem cells_subset (h : k ≤ n) (hx : x ∈ cells a k) : x ∈ cells a n := by
  obtain ⟨d, rfl⟩ := Nat.exists_eq_add_of_le h
  rw [cells_add]
  exact List.mem_append_left _ hx

/-! ### Loads -/

/-- What the `n` cells from `a` on hold. -/
def load (a : BitVec w) (n : Nat) (m : BitVec w → α) : List α := (cells a n).map m

theorem load_congr {m m' : BitVec w → α} (h : ∀ x ∈ cells a n, m' x = m x) :
    load a n m' = load a n m :=
  List.map_congr_left h

/-- What was stored is loaded. -/
theorem load_store (bs : List α) (m : BitVec w → α) (h : bs.length ≤ 2 ^ w) :
    load a bs.length (store a bs m) = bs := by
  unfold load cells
  rw [List.map_map]
  apply List.ext_getElem
  · rw [List.length_map, List.length_range]
  · intro i h₁ h₂
    have hoff : (a + BitVec.ofNat w i - a).toNat = i := offset_add a (by omega)
    rw [List.getElem_map, List.getElem_range]
    show store a bs m (a + BitVec.ofNat w i) = bs[i]
    rw [store_of_lt m (by rw [hoff]; exact h₂)]
    simp only [hoff]

/-- A store into other cells does not change what is loaded. -/
theorem load_store_apart {b : BitVec w} (bs : List α) (m : BitVec w → α) (h : bs.length ≤ 2 ^ w)
    (hapart : ∀ x ∈ cells a n, x ∉ cells b bs.length) :
    load a n (store b bs m) = load a n m := by
  apply load_congr
  intro x hx
  exact store_of_le m (Nat.not_lt.mp (mt (mem_cells h).mpr (hapart x hx)))

end ByteStore
