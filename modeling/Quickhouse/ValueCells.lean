import Quickhouse.DecimalRender
import Quickhouse.Lib.Binary64

/-!
# The values that a reconciliation compares

A cell of either side is one of few kinds.  Keys are normalized, so that those of one value are equal across integer
widths, booleans and decimal scales (`keyValue_eq_iff`); a pair of cells is compared under a rule.  The exact rule without
tolerance is equality of rational numbers, where it falls back to doubles as well (`equal_exact_iff`); a mantissa of 39
digits is beyond that.
-/

namespace Quickhouse

open MachineInt Text Binary64 Decimals

/-! ### Cells -/

/-- An integer of 64 bits or fewer, signed or not. -/
structure Whole where
  value : Int
  mem : -2 ^ 63 ≤ value ∧ value < 2 ^ 64
  deriving DecidableEq

/-- A decimal as it is read: the mantissa is any `i128`, of 39 digits as well. -/
structure ReadDecimal where
  mantissa : Int
  scale : Nat
  mantissa_mem : InI128 mantissa
  scale_le : scale ≤ 38
  deriving DecidableEq

inductive Cell where
  | null
  | int (i : Whole)
  | dec (d : ReadDecimal)
  | float (x : F64)
  | bool (b : Bool)
  | bytes (b : List UInt8)
  /-- Days since 1970-01-01. -/
  | date (days : Int)
  /-- Microseconds since 1970-01-01 UTC. -/
  | micros (us : Int)

def ReadDecimal.value (d : ReadDecimal) : ℚ := d.mantissa / 10 ^ d.scale

/-- A decimal has 38 digits at most, as every decimal type has. -/
def Cell.Fits : Cell → Prop
  | .dec d => |d.mantissa| < 10 ^ 38
  | _ => True

/-! ### Keys -/

inductive KeyValue where
  | int (i : Int)
  | decimal (mantissa : Int) (scale : Nat)
  | bytes (b : List UInt8)
  | date (days : Int)
  | micros (us : Int)
  deriving DecidableEq

/-- Without the zeros at the end of the scale. -/
def dropTrailingZeros : Int → Nat → Int × Nat
  | m, 0 => (m, 0)
  | m, s + 1 => if m % 10 = 0 then dropTrailingZeros (m / 10) s else (m, s + 1)

def keyValue : Cell → Option KeyValue
  | .int i => some (.int i.value)
  | .bool b => some (.int b.toNat)
  | .dec d =>
    let (m, s) := dropTrailingZeros d.mantissa d.scale
    some (if s = 0 then .int m else .decimal m s)
  | .bytes b => some (.bytes b)
  | .date days => some (.date days)
  | .micros us => some (.micros us)
  | .null | .float _ => none

/-! ### Rules -/

/-- How a column is compared. -/
inductive Rule where
  | exact
  | float
  | truth
  | bytes
  | date
  | instant (unit : Int)
  deriving DecidableEq, Repr

/-- The double nearest to a numeral. -/
def parseF64 (s : String) : Option F64 :=
  let (negative, rest) := splitSign s.toList
  let (int, frac) := (splitOnce '.' rest).getD (rest, [])
  if validParts int frac then
    let magnitude : ℚ := Nat.ofDigitChars 10 (int ++ frac) 0 / 10 ^ frac.length
    some (.ofRat (if negative then -magnitude else magnitude))
  else none

def decimalToF64 (mantissa : Int) (scale : Nat) : F64 :=
  if mantissa.natAbs ≤ 2 ^ 53 ∧ scale ≤ 22 then (F64.ofRat mantissa).div (.ofRat (10 ^ scale))
  else (parseF64 (decimal128ToString mantissa scale)).getD .nan

/-- Equal, or with a tolerance within it and a few units in the last place. -/
def floatsWithin (source dest tolerance : F64) : Bool :=
  if source.same dest || (source.isNan && dest.isNan) then true
  else F64.zero.lt tolerance &&
    ((source.sub dest).abs).le
      (tolerance.add (((F64.ofRat 4).mul (.ofRat (2 ^ (-52 : ℤ)))).mul (source.abs.max dest.abs)))

/-- Both at the larger scale, as integers; as doubles where these do not fit. -/
def decimalsWithin (s d : Int × Nat) (tolerance : F64) : Bool :=
  let scale := max s.2 d.2
  let rescale (m : Int) (scale₀ : Nat) : Option Int :=
    (checkedI128 (10 ^ (scale - scale₀))).bind fun up => checkedI128 (m * up)
  match (rescale s.1 s.2).bind fun a => (rescale d.1 d.2).bind fun b => checkedI128 (a - b) with
  | some diff => diff = 0 || (F64.zero.lt tolerance && (decimalToF64 diff scale).abs.le tolerance)
  | none => floatsWithin (decimalToF64 s.1 s.2) (decimalToF64 d.1 d.2) tolerance

namespace Cell

def exact : Cell → Option (Int × Nat)
  | .int i => some (i.value, 0)
  | .dec d => some (d.mantissa, d.scale)
  | .bool b => some (b.toNat, 0)
  | _ => none

def asF64 : Cell → Option F64
  | .int i => some (.ofRat i.value)
  | .dec d => some (decimalToF64 d.mantissa d.scale)
  | .float x => some x
  | _ => none

def truth : Cell → Option Bool
  | .int i => some (i.value ≠ 0)
  | .bool b => some b
  | _ => none

def microsPerDay : Int := 86400000000

def days : Cell → Option Int
  | .date d => some d
  | .micros us => some (us / microsPerDay)
  | _ => none

def instant : Cell → Option Int
  | .micros us => some us
  -- a product of `i64`, which wraps for a date past the year 294246
  | .date d => some ((d * microsPerDay).bmod (2 ^ 64))
  | _ => none

def isNull : Cell → Bool
  | .null => true
  | _ => false

def isTrue : Cell → Bool
  | .bool b => b
  | _ => false

end Cell

/-- Whether two cells that are not NULL are equal under the rule. -/
def equal (rule : Rule) (source dest : Cell) (tolerance : F64) : Bool :=
  match rule with
  | .exact =>
    match source.exact, dest.exact with
    | some s, some d => decimalsWithin s d tolerance
    | _, _ => false
  | .float =>
    match source.asF64, dest.asF64 with
    | some s, some d => floatsWithin s d tolerance
    | _, _ => false
  | .truth => source.truth.isSome && source.truth == dest.truth
  | .bytes =>
    match source, dest with
    | .bytes s, .bytes d => s = d
    | _, _ => false
  | .date => source.days.isSome && source.days == dest.days
  | .instant unit =>
    match source.instant, dest.instant with
    | some s, some d => s.tdiv unit = d.tdiv unit
    | _, _ => false

inductive Outcome where
  | equal
  | mismatch
  | nullInDestOnly
  | nullInSourceOnly
  deriving DecidableEq, Repr

/-- `holdsNullDefault`: the destination column cannot hold NULL, and holds what a NULL is stored as there. -/
def classify (rule : Rule) (source dest : Cell) (holdsNullDefault : Bool) (tolerance : F64) : Outcome :=
  match source.isNull, dest.isNull with
  | true, true => .equal
  | true, false => if holdsNullDefault then .equal else .nullInSourceOnly
  | false, true => .nullInDestOnly
  | false, false =>
    if equal rule source dest tolerance then .equal else if holdsNullDefault then .nullInDestOnly else .mismatch

/-! ### The meaning of a key -/

/-- What a key stands for. -/
inductive KeyMeaning where
  | number (q : ℚ)
  | text (b : List UInt8)
  | day (days : Int)
  | instant (us : Int)

/-- The number that a cell is. -/
def Cell.number : Cell → Option ℚ
  | .int i => some i.value
  | .bool b => some b.toNat
  | .dec d => some d.value
  | _ => none

def Cell.meaning : Cell → Option KeyMeaning
  | .bytes b => some (.text b)
  | .date days => some (.day days)
  | .micros us => some (.instant us)
  | c => c.number.map .number

/-- Zeros at the end are gone, or all of the scale is. -/
theorem dropTrailingZeros_spec (m : Int) (s : Nat) :
    ((dropTrailingZeros m s).1 : ℚ) / 10 ^ (dropTrailingZeros m s).2 = m / 10 ^ s ∧
      ((dropTrailingZeros m s).2 = 0 ∨ (dropTrailingZeros m s).1 % 10 ≠ 0) := by
  induction s generalizing m with
  | zero => exact ⟨rfl, .inl rfl⟩
  | succ s ih =>
    unfold dropTrailingZeros
    split_ifs with h
    · obtain ⟨hvalue, hnormal⟩ := ih (m / 10)
      refine ⟨?_, hnormal⟩
      have hm : (m : ℚ) = ((m / 10 : ℤ) : ℚ) * 10 := by
        exact_mod_cast show m = m / 10 * 10 by omega
      rw [hvalue, hm, pow_succ, mul_div_mul_right _ _ (by norm_num)]
    · exact ⟨rfl, .inr h⟩

theorem normal_le {a b : Int × Nat} (hb : b.2 = 0 ∨ b.1 % 10 ≠ 0) (h : a.1 * 10 ^ b.2 = b.1 * 10 ^ a.2) : b.2 ≤ a.2 := by
  by_contra hlt
  obtain ⟨k, hk⟩ := Nat.exists_eq_add_of_lt (not_le.mp hlt)
  have hpow : (0 : Int) < 10 ^ a.2 := by positivity
  have hsplit : a.1 * (10 ^ (k + 1)) = b.1 := by
    rw [hk, show a.2 + k + 1 = k + 1 + a.2 by omega, pow_add, ← mul_assoc] at h
    exact mul_right_cancel₀ hpow.ne' h
  rw [pow_succ, ← mul_assoc] at hsplit
  omega

/-- A number has one normal form. -/
theorem normal_unique {a b : Int × Nat} (ha : a.2 = 0 ∨ a.1 % 10 ≠ 0) (hb : b.2 = 0 ∨ b.1 % 10 ≠ 0)
    (h : a.1 * 10 ^ b.2 = b.1 * 10 ^ a.2) : a = b := by
  have hscale : a.2 = b.2 := le_antisymm (normal_le ha h.symm) (normal_le hb h)
  have hpow : (0 : Int) < 10 ^ b.2 := by positivity
  rw [hscale] at h
  exact Prod.ext (mul_right_cancel₀ hpow.ne' h) hscale

theorem normal_unique_rat {a b : Int × Nat} (ha : a.2 = 0 ∨ a.1 % 10 ≠ 0) (hb : b.2 = 0 ∨ b.1 % 10 ≠ 0)
    (h : (a.1 : ℚ) / 10 ^ a.2 = b.1 / 10 ^ b.2) : a = b := by
  rw [div_eq_div_iff (by positivity) (by positivity)] at h
  exact normal_unique ha hb (by exact_mod_cast h)

namespace KeyValue

def meaning : KeyValue → KeyMeaning
  | .int i => .number i
  | .decimal m s => .number (m / 10 ^ s)
  | .bytes b => .text b
  | .date days => .day days
  | .micros us => .instant us

/-- A decimal key has a scale, and no zero at its end. -/
def Normal : KeyValue → Prop
  | .decimal m s => s ≠ 0 ∧ m % 10 ≠ 0
  | _ => True

theorem meaning_injective {k l : KeyValue} (hk : k.Normal) (hl : l.Normal) (h : k.meaning = l.meaning) : k = l := by
  cases k with
  | int i =>
    cases l with
    | int j => exact congrArg int (by exact_mod_cast KeyMeaning.number.inj h)
    | decimal m s =>
      have := normal_unique_rat (a := (i, 0)) (b := (m, s)) (.inl rfl) (.inr hl.2) (by simpa using KeyMeaning.number.inj h)
      exact absurd (congrArg Prod.snd this).symm hl.1
    | bytes b | date days | micros us => cases h
  | decimal m s =>
    cases l with
    | int j =>
      have := normal_unique_rat (a := (m, s)) (b := (j, 0)) (.inr hk.2) (.inl rfl) (by simpa using KeyMeaning.number.inj h)
      exact absurd (congrArg Prod.snd this) hk.1
    | decimal m' s' =>
      have := normal_unique_rat (a := (m, s)) (b := (m', s')) (.inr hk.2) (.inr hl.2) (KeyMeaning.number.inj h)
      obtain ⟨rfl, rfl⟩ := Prod.mk.inj this
      rfl
    | bytes b | date days | micros us => cases h
  | bytes b =>
    cases l with
    | bytes b' => exact congrArg bytes (KeyMeaning.text.inj h)
    | int i | decimal m s | date days | micros us => cases h
  | date days =>
    cases l with
    | date days' => exact congrArg date (KeyMeaning.day.inj h)
    | int i | decimal m s | bytes b | micros us => cases h
  | micros us =>
    cases l with
    | micros us' => exact congrArg micros (KeyMeaning.instant.inj h)
    | int i | decimal m s | bytes b | date days => cases h

end KeyValue

theorem keyValue_meaning (c : Cell) : (keyValue c).map KeyValue.meaning = c.meaning := by
  cases c with
  | dec d =>
    obtain ⟨hvalue, -⟩ := dropTrailingZeros_spec d.mantissa d.scale
    unfold keyValue
    dsimp only
    rw [Option.map_some]
    show some (KeyValue.meaning _) = some (.number d.value)
    unfold ReadDecimal.value
    rw [← hvalue]
    split_ifs with h
    · rw [h]
      simp [KeyValue.meaning]
    · rfl
  | bool b =>
    show some (KeyMeaning.number ((b.toNat : ℤ) : ℚ)) = some (.number (b.toNat : ℚ))
    rw [Int.cast_natCast]
  | null | int i | float x | bytes b | date days | micros us => rfl

theorem keyValue_normal {c : Cell} {k : KeyValue} (h : keyValue c = some k) : k.Normal := by
  cases c with
  | dec d =>
    obtain ⟨-, hnormal⟩ := dropTrailingZeros_spec d.mantissa d.scale
    unfold keyValue at h
    dsimp only at h
    rw [← Option.some.inj h]
    split_ifs with h0
    · trivial
    · exact ⟨h0, hnormal.resolve_left h0⟩
  | int i | bool b | bytes b | date days | micros us =>
    obtain rfl := Option.some.inj h
    trivial
  | null | float x => cases h

/-- Two keys match when they stand for the same. -/
theorem keyValue_eq_iff (a b : Cell) : keyValue a = keyValue b ↔ a.meaning = b.meaning := by
  rw [← keyValue_meaning a, ← keyValue_meaning b]
  constructor
  · intro h
    rw [h]
  · intro h
    cases ha : keyValue a with
    | none =>
      rw [ha, Option.map_none] at h
      exact (Option.map_eq_none_iff.mp h.symm).symm
    | some k =>
      rw [ha, Option.map_some] at h
      obtain ⟨l, hl, hmeaning⟩ := Option.map_eq_some_iff.mp h.symm
      rw [hl, KeyValue.meaning_injective (keyValue_normal ha) (keyValue_normal hl) hmeaning.symm]

/-! ### Decimals as doubles -/

theorem ofDigitChars_digitChar (ds : List (Fin 10)) : Nat.ofDigitChars 10 (ds.map digitChar) 0 = ofDigits (ds.map Fin.val) := by
  have hdigit : ∀ d : Fin 10, (digitChar d).toNat - '0'.toNat = d := by decide
  have hfold : ∀ n, Nat.ofDigitChars 10 (ds.map digitChar) n = (ds.map Fin.val).foldl (fun k d => 10 * k + d) n := by
    induction ds with
    | nil => exact fun n => rfl
    | cons d ds ih =>
      intro n
      rw [List.map_cons, Nat.ofDigitChars_cons, List.map_cons, List.foldl_cons, ih, hdigit]
  exact hfold 0

theorem parseF64_text (x : Numeral) : parseF64 x.text = some (.ofRat x.value) := by
  unfold parseF64
  rw [x.splitSign_text]
  dsimp only
  rw [x.split_point]
  dsimp only
  rw [if_pos x.validParts_text, ← List.map_append, ofDigitChars_digitChar, List.map_append, List.length_map]
  have hmagnitude : (ofDigits (x.int.map Fin.val ++ (x.frac.getD []).map Fin.val) : ℚ) / 10 ^ (x.frac.getD []).length =
      x.magnitude := by
    unfold Numeral.magnitude Numeral.intDigits Numeral.fracDigits
    rw [List.length_map, zpow_neg, zpow_natCast, div_eq_mul_inv]
  rw [hmagnitude]
  rfl

/-- Either way it is the double nearest to the decimal. -/
theorem decimalToF64_eq (m : Int) (s : Nat) : decimalToF64 m s = .ofRat (m / 10 ^ s) := by
  unfold decimalToF64
  split_ifs with h
  · obtain ⟨hm, hs⟩ := h
    have hpow := representable_ten_pow hs
    have hne : (10 : ℚ) ^ s ≠ 0 := by positivity
    rw [F64.ofRat_of_representable (representable_intCast (by rw [Int.abs_eq_natAbs]; exact_mod_cast hm)), F64.ofRat_of_representable hpow]
    exact if_neg hne
  · rw [← rendered_text, parseF64_text, Option.getD_some, rendered_value, zpow_neg, zpow_natCast, div_eq_mul_inv]

/-! ### The exact rule -/

theorem normal_decimal {m : Int} {s : Nat} (hm : |m| < 10 ^ 38) (hs : s ≤ 38) :
    Normal ((m : ℚ) / 10 ^ s) ∧ |(m : ℚ) / 10 ^ s| ≤ 2 ^ (1023 : ℤ) := by
  have hpow : (0 : ℚ) < 10 ^ s := by positivity
  have hpow38 : (10 : ℚ) ^ s ≤ 10 ^ 38 := pow_le_pow_right₀ (by norm_num) hs
  have hone : (1 : ℚ) ≤ 10 ^ s := one_le_pow₀ (by norm_num)
  have habs : |(m : ℚ)| < 10 ^ 38 := by exact_mod_cast hm
  rw [abs_div, abs_of_pos hpow]
  constructor
  · by_cases h0 : m = 0
    · left
      rw [h0]
      simp
    · right
      have hge : (1 : ℚ) ≤ |(m : ℚ)| := by exact_mod_cast Int.one_le_abs h0
      rw [abs_div, abs_of_pos hpow, le_div_iff₀ hpow]
      have hsmall : (2 : ℚ) ^ (-1022 : ℤ) ≤ 2 ^ (-127 : ℤ) := zpow_le_zpow_right₀ (by norm_num) (by norm_num)
      have hbits : (2 : ℚ) ^ (-127 : ℤ) * 10 ^ 38 ≤ 1 := by norm_num
      calc (2 : ℚ) ^ (-1022 : ℤ) * 10 ^ s ≤ 2 ^ (-127 : ℤ) * 10 ^ 38 :=
            mul_le_mul hsmall hpow38 hpow.le (by positivity)
        _ ≤ 1 := hbits
        _ ≤ |(m : ℚ)| := hge
  · have hlarge : (10 : ℚ) ^ 38 ≤ 2 ^ (127 : ℤ) := by norm_num
    have hmax : (2 : ℚ) ^ (127 : ℤ) ≤ 2 ^ (1023 : ℤ) := zpow_le_zpow_right₀ (by norm_num) (by norm_num)
    calc |(m : ℚ)| / 10 ^ s ≤ |(m : ℚ)| := div_le_self (abs_nonneg _) hone
      _ ≤ 10 ^ 38 := habs.le
      _ ≤ 2 ^ (1023 : ℤ) := hlarge.trans hmax

/-- Too far from each other to be one double. -/
def Far (p q : ℚ) : Prop := (|p| + |q|) * 2 ^ (-53 : ℤ) < |p - q|

theorem Far.ne {p q : ℚ} (h : Far p q) : p ≠ q := by
  rintro rfl
  unfold Far at h
  rw [sub_self, abs_zero] at h
  have : (0 : ℚ) ≤ (|p| + |p|) * 2 ^ (-53 : ℤ) := by positivity
  linarith

theorem Far.symm {p q : ℚ} (h : Far p q) : Far q p := by
  unfold Far at h ⊢
  rwa [add_comm, abs_sub_comm]

theorem Far.div {p q c : ℚ} (h : Far p q) (hc : 0 < c) : Far (p / c) (q / c) := by
  unfold Far at h ⊢
  rw [← sub_div, abs_div, abs_div, abs_div, abs_of_pos hc, ← add_div, div_mul_eq_mul_div]
  exact div_lt_div_of_pos_right h hc

/-- One beyond `i128`, the other of 38 digits. -/
theorem far_of_overflow {a b : Int} (ha : ¬InI128 a) (hb : |b| < 10 ^ 38) : Far a b := by
  have hlarge : (2 : ℚ) ^ 127 ≤ |(a : ℚ)| := by
    have : (2 : Int) ^ 127 ≤ |a| := by
      unfold InI128 i128Min i128Max at ha
      rcases abs_cases a with ⟨h, hsign⟩ | ⟨h, hsign⟩ <;> omega
    exact_mod_cast this
  have hsmall : |(b : ℚ)| < 10 ^ 38 := by exact_mod_cast hb
  have hdiff := abs_sub_abs_le_abs_sub (a : ℚ) (b : ℚ)
  unfold Far
  norm_num at hlarge hsmall ⊢
  linarith

/-- A difference beyond `i128` is between numbers of opposite signs. -/
theorem far_of_difference {a b : Int} (ha : InI128 a) (hb : InI128 b) (hsub : ¬InI128 (a - b)) : Far a b := by
  have hsigns : (0 ≤ a ∧ b < 0) ∨ (a < 0 ∧ 0 ≤ b) := by
    unfold InI128 i128Min i128Max at ha hb hsub
    omega
  unfold Far
  rcases hsigns with ⟨h1, h2⟩ | ⟨h1, h2⟩
  · have h1' : (0 : ℚ) ≤ a := by exact_mod_cast h1
    have h2' : (b : ℚ) < 0 := by exact_mod_cast h2
    rw [abs_of_nonneg h1', abs_of_neg h2', abs_of_pos (by linarith)]
    norm_num
    linarith
  · have h1' : (a : ℚ) < 0 := by exact_mod_cast h1
    have h2' : (0 : ℚ) ≤ b := by exact_mod_cast h2
    rw [abs_of_neg h1', abs_of_nonneg h2', abs_of_neg (by linarith)]
    norm_num
    linarith

theorem inI128_of_abs_lt {m : Int} (h : |m| < 10 ^ 38) : InI128 m := by
  rw [abs_lt] at h
  unfold InI128 i128Min i128Max
  omega

theorem ofRat_isNan (q : ℚ) : (F64.ofRat q).isNan = false := by
  unfold F64.ofRat
  split_ifs <;> rfl

/-- Without a tolerance doubles are equal when they are the same. -/
theorem floatsWithin_zero (p q : ℚ) :
    floatsWithin (.ofRat p) (.ofRat q) .zero = (F64.ofRat p).same (.ofRat q) := by
  have hzero : F64.zero.lt .zero = false := by decide
  unfold floatsWithin
  rw [ofRat_isNan, ofRat_isNan, hzero, Bool.and_self, Bool.or_false, Bool.false_and]
  split_ifs with h
  · exact h.symm
  · exact (Bool.not_eq_true _ ▸ h).symm

theorem decimalsWithin_zero_iff {a b : Int × Nat} (ha : |a.1| < 10 ^ 38 ∧ a.2 ≤ 38) (hb : |b.1| < 10 ^ 38 ∧ b.2 ≤ 38) :
    decimalsWithin a b .zero = true ↔ (a.1 : ℚ) / 10 ^ a.2 = b.1 / 10 ^ b.2 := by
  have hzero : F64.zero.lt .zero = false := by decide
  have hrescale : ∀ (m : Int) {k : Nat}, k ≤ 38 →
      (checkedI128 (10 ^ k)).bind (fun up => checkedI128 (m * up)) = checkedI128 (m * 10 ^ k) := by
    intro m k hk
    rw [checkedI128_ten_pow, if_pos hk, Option.bind_some]
  -- both at the larger scale
  have hvalue : ∀ (m : Int) (s : Nat), s ≤ max a.2 b.2 →
      (m : ℚ) / 10 ^ s = ((m * 10 ^ (max a.2 b.2 - s) : Int) : ℚ) / 10 ^ max a.2 b.2 := by
    intro m s hs
    have hpow : (10 : ℚ) ^ max a.2 b.2 = 10 ^ s * 10 ^ (max a.2 b.2 - s) := by rw [← pow_add, Nat.add_sub_cancel' hs]
    rw [hpow]
    push_cast
    rw [mul_div_mul_right _ _ (by positivity)]
  have hva := hvalue a.1 a.2 (le_max_left _ _)
  have hvb := hvalue b.1 b.2 (le_max_right _ _)
  have hnormal_a := normal_decimal ha.1 ha.2
  have hnormal_b := normal_decimal hb.1 hb.2
  have hzero_up : max a.2 b.2 - a.2 = 0 ∨ max a.2 b.2 - b.2 = 0 := by omega
  have hscale : (0 : ℚ) < 10 ^ max a.2 b.2 := by positivity
  unfold decimalsWithin
  dsimp only
  rw [hrescale a.1 (show max a.2 b.2 - a.2 ≤ 38 by omega), hrescale b.1 (show max a.2 b.2 - b.2 ≤ 38 by omega)]
  have hfar : Far ((a.1 * 10 ^ (max a.2 b.2 - a.2) : Int) : ℚ) ((b.1 * 10 ^ (max a.2 b.2 - b.2) : Int) : ℚ) →
      (floatsWithin (decimalToF64 a.1 a.2) (decimalToF64 b.1 b.2) .zero = true ↔
        (a.1 : ℚ) / 10 ^ a.2 = b.1 / 10 ^ b.2) := by
    intro h
    have h := h.div hscale
    rw [← hva, ← hvb] at h
    rw [decimalToF64_eq, decimalToF64_eq, floatsWithin_zero]
    refine iff_of_false (fun hsame => ?_) h.ne
    have hclose := F64.abs_sub_le_of_same hnormal_a.1 hnormal_b.1 hnormal_a.2 hnormal_b.2 hsame
    exact absurd hclose (not_le.mpr h)
  by_cases hA : InI128 (a.1 * 10 ^ (max a.2 b.2 - a.2))
  · by_cases hB : InI128 (b.1 * 10 ^ (max a.2 b.2 - b.2))
    · rw [checkedI128_eq hA, checkedI128_eq hB, Option.bind_some, Option.bind_some]
      by_cases hsub : InI128 (a.1 * 10 ^ (max a.2 b.2 - a.2) - b.1 * 10 ^ (max a.2 b.2 - b.2))
      · rw [checkedI128_eq hsub]
        dsimp only
        rw [hzero, Bool.false_and, Bool.or_false, decide_eq_true_eq, sub_eq_zero, hva, hvb,
          div_left_inj' hscale.ne']
        exact Int.cast_inj.symm
      · rw [show checkedI128 _ = none from if_neg hsub]
        exact hfar (far_of_difference hA hB hsub)
    · rw [checkedI128_eq hA, show checkedI128 (b.1 * 10 ^ (max a.2 b.2 - b.2)) = none from if_neg hB, Option.bind_some,
        Option.bind_none]
      refine hfar (far_of_overflow hB ?_).symm
      rcases hzero_up with h | h
      · rw [h, pow_zero, mul_one]
        exact ha.1
      · exact absurd (by rw [h, pow_zero, mul_one]; exact inI128_of_abs_lt hb.1) hB
  · rw [show checkedI128 (a.1 * 10 ^ (max a.2 b.2 - a.2)) = none from if_neg hA, Option.bind_none]
    refine hfar (far_of_overflow hA ?_)
    rcases hzero_up with h | h
    · exact absurd (by rw [h, pow_zero, mul_one]; exact inI128_of_abs_lt ha.1) hA
    · rw [h, pow_zero, mul_one]
      exact hb.1

theorem Cell.exact_mem {c : Cell} (hc : c.Fits) {r : Int × Nat} (h : c.exact = some r) :
    (|r.1| < 10 ^ 38 ∧ r.2 ≤ 38) ∧ c.number = some ((r.1 : ℚ) / 10 ^ r.2) := by
  cases c with
  | int i =>
    obtain rfl := Option.some.inj h
    have hmem := i.mem
    refine ⟨⟨?_, Nat.zero_le _⟩, by simp [Cell.number]⟩
    rw [abs_lt]
    constructor <;> omega
  | dec d =>
    obtain rfl := Option.some.inj h
    exact ⟨⟨hc, d.scale_le⟩, rfl⟩
  | bool b =>
    obtain rfl := Option.some.inj h
    refine ⟨⟨?_, Nat.zero_le _⟩, by simp [Cell.number]⟩
    cases b <;> decide
  | null | float x | bytes b | date days | micros us => cases h

theorem Cell.exact_none {c : Cell} (h : c.exact = none) : c.number = none := by
  cases c with
  | int i | dec d | bool b => cases h
  | null | float x | bytes b | date days | micros us => rfl

/-- Without a tolerance the exact rule holds of cells that are one rational number. -/
theorem equal_exact_iff {source dest : Cell} (hsource : source.Fits) (hdest : dest.Fits) :
    equal .exact source dest .zero = true ↔ ∃ q, source.number = some q ∧ dest.number = some q := by
  unfold equal
  dsimp only
  cases hs : source.exact with
  | none =>
    rw [Cell.exact_none hs]
    simp
  | some s =>
    cases hd : dest.exact with
    | none =>
      rw [Cell.exact_none hd]
      simp
    | some d =>
      obtain ⟨hsmem, hsnum⟩ := Cell.exact_mem hsource hs
      obtain ⟨hdmem, hdnum⟩ := Cell.exact_mem hdest hd
      dsimp only
      rw [decimalsWithin_zero_iff hsmem hdmem, hsnum, hdnum]
      simp [eq_comm]

end Quickhouse
