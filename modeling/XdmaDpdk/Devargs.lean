import XdmaDpdk.Desc
import XdmaDpdk.Lib.CNumeral

namespace XdmaDpdk

open CNumeral

/-!
# XDMA driver — device arguments

A probe takes one device argument, `config_bar`, the index of the BAR that holds the DMA
registers.

* `configBarIdxHandler`, `xdmaCheckKvargs` — the argument handler and the check of all arguments;
* `ParsedExactly` — what an exact reader makes of a value;
* `xdmaCheckKvargs_range` — an accepted device has its config BAR among the six.

The handler never looks at the `end` pointer of `strtoul`, and narrows its result before the
range check.  `parsedExactly_iff`: a value is read exactly when it is the numeral of a BAR
index, or starts with a number the range check refuses.
-/

/-! ### The device -/

/-- `XDMA_BAR_NUM`. -/
def xdmaBarNum : Nat := 6

/-- `DEFAULT_CONFIG_BAR`. -/
def defaultConfigBar : Int := 1

/-- `BAR_ID_INVALID`. -/
def barIdInvalid : Int := -1

/-- The parts of `struct xdma_dev` a probe sets up. -/
structure XdmaDev where
  bar : Nat → Addr
  userBarIdx : Int
  configBarIdx : Int
  bypassBarIdx : Int
  hwAccess : Option Nat

/-- The private data of a device as ethdev allocates it. -/
def XdmaDev.zeroed : XdmaDev where
  bar := fun _ => 0
  userBarIdx := 0
  configBarIdx := 0
  bypassBarIdx := 0
  hwAccess := none

/-- The BAR indices before the device arguments are read. -/
def XdmaDev.withDefaultBars (d : XdmaDev) : XdmaDev :=
  { d with
    configBarIdx := defaultConfigBar
    bypassBarIdx := barIdInvalid
    userBarIdx := barIdInvalid }

/-! ### Key-value arguments -/

/-- `struct rte_kvargs`: keys and values, the value `none` for a key without one. -/
abbrev RteKvargs := List (List Char × Option (List Char))

/-- The values given for a key, in order. -/
def valuesOf (kvlist : RteKvargs) (key : List Char) : List (Option (List Char)) :=
  (kvlist.filter fun p => p.1 == key).map Prod.snd

/-- A handler on values in order, up to the first it refuses; `none` when it dereferences a
    null value. -/
def handleAll {σ : Type} (handler : Option (List Char) → σ → Option (Int × σ)) :
    List (Option (List Char)) → σ → Option (Int × σ)
  | [], s => some (0, s)
  | value :: rest, s =>
    match handler value s with
    | none => none
    | some (ret, s) => if ret < 0 then some (-1, s) else handleAll handler rest s

/-- `arg_handler_t`, over the device it is handed. -/
abbrev ArgHandler := Option (List Char) → XdmaDev → Option (Int × XdmaDev)

/-- `rte_kvargs_count` and `rte_kvargs_process` of DPDK, with what it documents of them: how many
    values a key has, and the handler called for each of them. -/
structure Kvargs where
  count : RteKvargs → List Char → Nat
  process : RteKvargs → List Char → ArgHandler → XdmaDev → Option (Int × XdmaDev)
  count_eq : ∀ kvlist key, count kvlist key = (valuesOf kvlist key).length
  process_eq : ∀ kvlist key handler d,
    process kvlist key handler d = handleAll handler (valuesOf kvlist key) d

/-- Both by a walk over the pairs. -/
def Kvargs.walk : Kvargs where
  count kvlist key := kvlist.countP fun p => p.1 == key
  process kvlist key handler d := handleAll handler (valuesOf kvlist key) d
  count_eq kvlist key := by
    unfold valuesOf
    rw [List.length_map, List.countP_eq_length_filter]
  process_eq _ _ _ _ := rfl

/-! ### `config_bar` -/

def configBarKey : List Char := "config_bar".toList

/-- `(int)strtoul(value, &end, 10)`. -/
def configBarOf (value : List Char) : Int := ((strtoul 64 value).setWidth 32).toInt

def configBarIdxHandler (value : Option (List Char)) (d : XdmaDev) : Option (Int × XdmaDev) :=
  match value with
  | none => none
  | some value =>
    let d : XdmaDev := { d with configBarIdx := configBarOf value }
    if d.configBarIdx ≥ xdmaBarNum ∨ d.configBarIdx < 0 then some (-1, d) else some (0, d)

/-- `devargs` is `none` for `NULL`, and `some none` when `rte_kvargs_parse` refuses it. -/
def xdmaCheckKvargs (kv : Kvargs) (devargs : Option (Option RteKvargs)) (d : XdmaDev) :
    Option (Int × XdmaDev) :=
  match devargs with
  | none => some (0, d)
  | some none => some (0, d)
  | some (some kvlist) =>
    if kv.count kvlist configBarKey ≠ 0 then
      kv.process kvlist configBarKey configBarIdxHandler d
    else some (0, d)

/-! ### Exact reading -/

/-- The string as a whole is a decimal numeral of a BAR index. -/
def IsBarNumeral (s : List Char) : Prop := ∃ v, numeral? s = some v ∧ 0 ≤ v ∧ v < xdmaBarNum

/-- The check accepts a BAR numeral and nothing else, and configures the BAR it stands for. -/
def ParsedExactly (s : List Char) : Option (Int × XdmaDev) → Prop
  | none => False
  | some (ret, d) =>
    (ret = 0 ↔ IsBarNumeral s) ∧ (ret = 0 → numeral? s = some d.configBarIdx)

/-- The number a string starts with does not fit 64 bits, or its low 32 bits are no BAR index. -/
def PrefixOffRange (s : List Char) : Prop :=
  2 ^ 64 ≤ (numericPrefix s).2 ∨
    xdmaBarNum ≤ signed (numericPrefix s).1 (numericPrefix s).2 % 2 ^ 32

/-! ### What the check does -/

section
variable {σ : Type} {handler : Option (List Char) → σ → Option (Int × σ)}

/-- One value goes through its handler once. -/
theorem handleAll_singleton (value : Option (List Char)) (s : σ) :
    handleAll handler [value] s
      = (handler value s).map fun p => (if p.1 < 0 then -1 else 0, p.2) := by
  unfold handleAll
  cases handler value s with
  | none => rfl
  | some p =>
    simp only [Option.map_some, handleAll]
    split <;> rfl

/-- What every accepting handler call keeps, an accepted list of values keeps. -/
theorem handleAll_inv {P : σ → Prop}
    (hstep : ∀ value s ret s', handler value s = some (ret, s') → ¬ ret < 0 → P s → P s')
    {values : List (Option (List Char))} {s s' : σ}
    (h : handleAll handler values s = some (0, s')) (hs : P s) : P s' := by
  induction values generalizing s with
  | nil =>
    cases h
    exact hs
  | cons value rest ih =>
    rw [handleAll] at h
    split at h
    · cases h
    · next ret s₁ hcall =>
      split at h
      · cases h
      · next hret => exact ih h (hstep value s ret s₁ hcall hret hs)

end

/-- The range check in terms of the bits. -/
theorem configBarOf_range_iff (s : List Char) :
    ¬ (configBarOf s ≥ xdmaBarNum ∨ configBarOf s < 0)
      ↔ ((strtoul 64 s).setWidth 32).toNat < xdmaBarNum := by
  have hlt := ((strtoul 64 s).setWidth 32).isLt
  rw [configBarOf, BitVec.toInt_eq_toNat_cond, xdmaBarNum]
  split <;> omega

/-- The low 32 bits of a number that fits 64. -/
theorem toNat_configBar {s : List Char} (h : (numericPrefix s).2 < 2 ^ 64) :
    ((((strtoul 64 s).setWidth 32).toNat : Nat) : Int)
      = signed (numericPrefix s).1 (numericPrefix s).2 % 2 ^ 32 := by
  have hconv := toNat_strtoul h
  rw [BitVec.toNat_setWidth]
  push_cast
  rw [hconv]
  exact Int.emod_emod_of_dvd _ (by decide)

/-- The range check refuses exactly the numbers off the range. -/
theorem configBarOf_refused_iff (s : List Char) :
    (configBarOf s ≥ xdmaBarNum ∨ configBarOf s < 0) ↔ PrefixOffRange s := by
  rw [← not_iff_not, configBarOf_range_iff, PrefixOffRange]
  by_cases h : 2 ^ 64 ≤ (numericPrefix s).2
  · rw [strtoul_of_le h]
    -- Out of range, `strtoul` returns `ULONG_MAX`, which is -1 as an `int`.
    have hones : ¬ ((BitVec.allOnes 64).setWidth 32).toNat < xdmaBarNum := by decide
    exact iff_of_false hones (not_not_intro (Or.inl h))
  · -- Within 64 bits the cast keeps the low 32.
    have hbits := toNat_configBar (Nat.not_le.mp h)
    rw [← hbits]
    simp only [h, false_or]
    omega

/-- An accepted value configures the low 32 bits of the number it starts with. -/
theorem configBarOf_of_inRange {s : List Char} (h : ¬ PrefixOffRange s) :
    configBarOf s = signed (numericPrefix s).1 (numericPrefix s).2 % 2 ^ 32 := by
  have hrange := (configBarOf_range_iff s).mp (mt (configBarOf_refused_iff s).mp h)
  have hfits : (numericPrefix s).2 < 2 ^ 64 := by
    unfold PrefixOffRange at h
    omega
  rw [← toNat_configBar hfits, configBarOf, BitVec.toInt_eq_toNat_cond]
  rw [xdmaBarNum] at hrange
  split <;> omega

/-- A BAR numeral is accepted. -/
theorem IsBarNumeral.inRange {s : List Char} (h : IsBarNumeral s) : ¬ PrefixOffRange s := by
  obtain ⟨v, hv, hlo, hhi⟩ := h
  have hprefix := numericPrefix_of_numeral hv
  have hmagnitude := signed_natAbs (numericPrefix s).1 (numericPrefix s).2
  rw [xdmaBarNum] at hhi
  rw [PrefixOffRange, hprefix, xdmaBarNum]
  omega

/-- The check on one value of `config_bar`, whatever other keys are given. -/
theorem xdmaCheckKvargs_of_value (kv : Kvargs) {kvlist : RteKvargs} {s : List Char}
    (h : valuesOf kvlist configBarKey = [some s]) (d : XdmaDev) :
    xdmaCheckKvargs kv (some (some kvlist)) d
      = some (if configBarOf s ≥ xdmaBarNum ∨ configBarOf s < 0 then -1 else 0,
          { d with configBarIdx := configBarOf s }) := by
  have hcount : kv.count kvlist configBarKey ≠ 0 := by simp [kv.count_eq, h]
  simp only [xdmaCheckKvargs, if_pos hcount, kv.process_eq, h, handleAll_singleton,
    configBarIdxHandler]
  split <;> rfl

/-- An accepted device has its config BAR in range, and nothing else is touched. -/
theorem xdmaCheckKvargs_range {kv : Kvargs} {devargs : Option (Option RteKvargs)} {d₀ d : XdmaDev}
    (h : xdmaCheckKvargs kv devargs d₀ = some (0, d)) (hd : 0 ≤ d₀.configBarIdx)
    (hd' : d₀.configBarIdx < xdmaBarNum) :
    0 ≤ d.configBarIdx ∧ d.configBarIdx < xdmaBarNum ∧
      d = { d₀ with configBarIdx := d.configBarIdx } := by
  have hinit : 0 ≤ d₀.configBarIdx ∧ d₀.configBarIdx < xdmaBarNum ∧
      d₀ = { d₀ with configBarIdx := d₀.configBarIdx } := ⟨hd, hd', rfl⟩
  cases devargs with
  | none =>
    cases h
    exact hinit
  | some parsed =>
    cases parsed with
    | none =>
      cases h
      exact hinit
    | some kvlist =>
      simp only [xdmaCheckKvargs] at h
      split at h
      · rw [kv.process_eq] at h
        refine handleAll_inv (P := fun d : XdmaDev => 0 ≤ d.configBarIdx ∧
          d.configBarIdx < xdmaBarNum ∧ d = { d₀ with configBarIdx := d.configBarIdx })
          ?_ h hinit
        -- A value the handler accepts is in range, whatever came before it.
        intro value s ret s' hcall hret hs
        simp only [configBarIdxHandler] at hcall
        split at hcall
        · cases hcall
        · split at hcall
          · cases hcall
            simp at hret
          · next hrange =>
            cases hcall
            obtain ⟨hhi, hlo⟩ := not_or.mp hrange
            refine ⟨not_lt.mp hlo, not_le.mp hhi, ?_⟩
            rw [hs.2.2]
      · cases h
        exact hinit

/-! ### The result -/

/-- **Exact reading of `config_bar`.**  A value is read exactly iff it is the numeral of a BAR
    index, or starts with a number that the range check refuses. -/
theorem parsedExactly_iff (kv : Kvargs) {kvlist : RteKvargs} {s : List Char} (d : XdmaDev)
    (h : valuesOf kvlist configBarKey = [some s]) :
    ParsedExactly s (xdmaCheckKvargs kv (some (some kvlist)) d)
      ↔ IsBarNumeral s ∨ PrefixOffRange s := by
  rw [xdmaCheckKvargs_of_value kv h]
  by_cases hoff : PrefixOffRange s
  · -- Refused, and rightly: a BAR numeral is never off the range.
    have hno : ¬ IsBarNumeral s := fun hs => hs.inRange hoff
    rw [if_pos ((configBarOf_refused_iff s).mpr hoff)]
    simp [ParsedExactly, hoff, hno]
  · rw [if_neg (mt (configBarOf_refused_iff s).mp hoff)]
    simp only [ParsedExactly, true_iff, true_implies, hoff, or_false]
    -- A BAR numeral is read to its end, and is its own low 32 bits.
    refine ⟨fun hs => hs.1, fun hs => ⟨hs, ?_⟩⟩
    obtain ⟨v, hv, hlo, hhi⟩ := hs
    rw [xdmaBarNum] at hhi
    rw [configBarOf_of_inRange hoff, numericPrefix_of_numeral hv, hv]
    have hmod : v % 2 ^ 32 = v := Int.emod_eq_of_lt hlo (by omega)
    rw [hmod]

/-- `config_bar=3`. -/
theorem parsedExactly_three :
    valuesOf [(configBarKey, some "3".toList)] configBarKey = [some "3".toList] ∧
    (ParsedExactly "3".toList
        (xdmaCheckKvargs .walk (some (some [(configBarKey, some "3".toList)])) XdmaDev.zeroed)
      ↔ IsBarNumeral "3".toList ∨ PrefixOffRange "3".toList) := by
  have hvalues : valuesOf [(configBarKey, some "3".toList)] configBarKey
      = [some "3".toList] := by decide
  exact ⟨hvalues, parsedExactly_iff .walk XdmaDev.zeroed hvalues⟩

/-- `config_bar=1x` is no numeral, and configures BAR 1. -/
theorem parsedExactly_fails :
    ¬ ∀ (kvlist : RteKvargs) (s : List Char) (d : XdmaDev),
      valuesOf kvlist configBarKey = [some s] →
      ParsedExactly s (xdmaCheckKvargs .walk (some (some kvlist)) d) := by
  intro h
  have hvalues : valuesOf [(configBarKey, some "1x".toList)] configBarKey
      = [some "1x".toList] := by decide
  have hparsed := h _ _ XdmaDev.zeroed hvalues
  rw [xdmaCheckKvargs_of_value .walk hvalues] at hparsed
  have hbar : ¬ (configBarOf "1x".toList ≥ xdmaBarNum ∨ configBarOf "1x".toList < 0) := by
    decide
  rw [if_neg hbar] at hparsed
  have hnumeral : numeral? "1x".toList = none := by decide
  obtain ⟨v, hv, -⟩ := hparsed.1.mp rfl
  rw [hnumeral] at hv
  cases hv

end XdmaDpdk
