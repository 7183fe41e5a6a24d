import Mathlib.Data.BitVec
import Mathlib.Data.List.TakeWhile
import Mathlib.Tactic.Common

namespace CNumeral

/-!
# Decimal numerals and the C conversion `strtoul`

`strtoul` converts the longest numeric prefix of a string, white space and a sign included,
and says nothing about the rest.

* `numeral?` — the value of a string that is a decimal numeral as a whole;
* `numericPrefix` — sign and magnitude of the longest numeric prefix; 0 when there is none;
* `strtoul` — the conversion to `w` bits: saturating on the magnitude, modular on the sign;
* `numericPrefix_of_numeral` — on numerals the prefix is the whole string;
* `toDigits_append_inj` — a number printed in front of a separator can be told from the text.
-/

/-- `isspace` in the C locale. -/
def isSpace (c : Char) : Bool := c.toNat == 32 || (9 ≤ c.toNat && c.toNat ≤ 13)

/-- An optional sign, and what follows it. -/
def splitSign : List Char → Bool × List Char
  | '-' :: cs => (true, cs)
  | '+' :: cs => (false, cs)
  | cs => (false, cs)

/-- The number a list of digits stands for. -/
def decVal (ds : List Char) : Nat := ds.foldl (fun n c => 10 * n + (c.toNat - 48)) 0

/-- A magnitude with a sign. -/
def signed (neg : Bool) (n : Nat) : Int := if neg then -(n : Int) else n

/-- The integer a string is a decimal numeral of: a sign or none, and digits. -/
def numeral? (cs : List Char) : Option Int :=
  let (neg, ds) := splitSign cs
  if !ds.isEmpty && ds.all Char.isDigit then some (signed neg (decVal ds)) else none

/-- Sign and magnitude of the longest numeric prefix. -/
def numericPrefix (cs : List Char) : Bool × Nat :=
  let (neg, rest) := splitSign (cs.dropWhile isSpace)
  (neg, decVal (rest.takeWhile Char.isDigit))

/-- `strtoul` in base 10, for a result of `w` bits. -/
def strtoul (w : Nat) (cs : List Char) : BitVec w :=
  let (neg, n) := numericPrefix cs
  if 2 ^ w ≤ n then BitVec.allOnes w else BitVec.ofInt w (signed neg n)

theorem signed_natAbs (neg : Bool) (n : Nat) : (signed neg n).natAbs = n := by
  cases neg <;> simp [signed]

/-- A digit is no white space. -/
theorem isSpace_of_isDigit {c : Char} (h : c.isDigit = true) : isSpace c = false := by
  have hrange : 48 ≤ c.toNat := by
    simp only [Char.isDigit, Bool.and_eq_true, decide_eq_true_eq] at h
    exact UInt32.le_iff_toNat_le.mp h.1
  simp only [isSpace, Bool.or_eq_false_iff, beq_eq_false_iff_ne, Bool.and_eq_false_iff,
    decide_eq_false_iff_not]
  omega

/-- A numeral starts with a sign or a digit. -/
theorem dropWhile_of_numeral {cs : List Char} {v : Int} (h : numeral? cs = some v) :
    cs.dropWhile isSpace = cs := by
  cases cs with
  | nil => rfl
  | cons c cs =>
    apply List.dropWhile_cons_of_neg
    by_cases hminus : c = '-'
    · subst hminus
      decide
    by_cases hplus : c = '+'
    · subst hplus
      decide
    -- Without a sign the first character is a digit.
    have hsplit : splitSign (c :: cs) = (false, c :: cs) := by
      unfold splitSign
      split <;> simp_all
    simp only [numeral?, hsplit, Option.ite_none_right_eq_some, Bool.and_eq_true,
      List.all_eq_true] at h
    have hdigit := h.1.2 c (List.mem_cons_self ..)
    simp [isSpace_of_isDigit hdigit]

/-- The numeric prefix of a numeral is the numeral. -/
theorem numericPrefix_of_numeral {cs : List Char} {v : Int} (h : numeral? cs = some v) :
    signed (numericPrefix cs).1 (numericPrefix cs).2 = v := by
  have hdrop := dropWhile_of_numeral h
  cases hs : splitSign cs with
  | mk neg ds =>
    simp only [numeral?, hs, Option.ite_none_right_eq_some, Option.some.injEq, Bool.and_eq_true,
      List.all_eq_true] at h
    obtain ⟨⟨-, hdigits⟩, hv⟩ := h
    simp only [numericPrefix, hdrop, hs]
    rw [List.takeWhile_eq_self_iff.mpr hdigits, hv]

/-- The low bits of a conversion that does not saturate. -/
theorem toNat_strtoul {w : Nat} {cs : List Char} (h : (numericPrefix cs).2 < 2 ^ w) :
    ((strtoul w cs).toNat : Int)
      = signed (numericPrefix cs).1 (numericPrefix cs).2 % 2 ^ w := by
  have hpos : (0 : Int) < 2 ^ w := Int.pow_pos (by decide)
  simp only [strtoul, if_neg (Nat.not_le.mpr h), BitVec.toNat_ofInt]
  push_cast
  exact Int.toNat_of_nonneg (Int.emod_nonneg _ (ne_of_gt hpos))

/-- A magnitude beyond `w` bits saturates. -/
theorem strtoul_of_le {w : Nat} {cs : List Char} (h : 2 ^ w ≤ (numericPrefix cs).2) :
    strtoul w cs = BitVec.allOnes w := if_pos h

/-! ### Printed numbers -/

/-- A printed number reads back. -/
theorem decVal_toDigits (n : Nat) : decVal (Nat.toDigits 10 n) = n :=
  Nat.ofDigitChars_ten_toDigits

theorem isDigit_toDigits {n : Nat} {c : Char} (h : c ∈ Nat.toDigits 10 n) : c.isDigit = true :=
  Nat.isDigit_of_mem_toDigits (by decide) (by decide) h

theorem toDigits_injective : Function.Injective (Nat.toDigits 10) := by
  intro m n h
  have hval := congrArg decVal h
  rwa [decVal_toDigits, decVal_toDigits] at hval

/-- The digits in front of a separator are the printed number. -/
theorem takeWhile_toDigits_append (n : Nat) {sep : Char} (hsep : sep.isDigit = false)
    (rest : List Char) :
    (Nat.toDigits 10 n ++ sep :: rest).takeWhile Char.isDigit = Nat.toDigits 10 n := by
  rw [List.takeWhile_append_of_pos fun c hc => isDigit_toDigits hc,
    List.takeWhile_cons_of_neg (by simp [hsep]), List.append_nil]

/-- A number and a separator in front of a text determine number and text. -/
theorem toDigits_append_inj {m n : Nat} {sep : Char} (hsep : sep.isDigit = false)
    {rest rest' : List Char}
    (h : Nat.toDigits 10 m ++ sep :: rest = Nat.toDigits 10 n ++ sep :: rest') :
    m = n ∧ rest = rest' := by
  have hdigits := congrArg (List.takeWhile Char.isDigit) h
  rw [takeWhile_toDigits_append m hsep, takeWhile_toDigits_append n hsep] at hdigits
  obtain rfl := toDigits_injective hdigits
  exact ⟨rfl, (List.cons.inj (List.append_cancel_left h)).2⟩

end CNumeral
