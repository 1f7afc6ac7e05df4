import Mathlib.Algebra.Order.Field.Power
import Mathlib.Algebra.Order.Round
import Mathlib.Data.Rat.Floor
import Mathlib.Tactic.Linarith
import Mathlib.Tactic.Positivity

/-!
# Decimal numerals and their rounding

A numeral is a list of decimal digits with a scale, the number of them after the point.  `toDecimal` is the exact
value at another scale, rounded half away from zero, when it has few enough digits.  The rules say what is left of
it when only the first digits are kept: a target with a coarser scale than the digits kept does not see the others
(`shifted_cut`), one with the same scale sees the first of them (`shifted_cut_same`).
-/

namespace Decimals

/-- The number the digits spell, the first of them the most significant. -/
def ofDigits (ds : List Nat) : Nat := ds.foldl (fun n d => 10 * n + d) 0

/-- The nearest integer; of two, the one farther from zero. -/
def roundHalfAway (q : ℚ) : ℤ := if 0 ≤ q then ⌊q + 1 / 2⌋ else -⌊-q + 1 / 2⌋

/-- The mantissa of `q` at scale `s`, if it has at most `p` digits. -/
def toDecimal (p : Nat) (s : Int) (q : ℚ) : Option ℤ :=
  let m := roundHalfAway (q * 10 ^ s)
  if |m| < 10 ^ p then some m else none

/-- A quotient, rounded half up. -/
def roundDiv (n d : Nat) : Nat := (2 * n + d) / (2 * d)

/-- `n` with its point moved by `diff` places. -/
def shifted (n : Nat) (diff : Int) : Nat :=
  if 0 ≤ diff then n * 10 ^ diff.toNat else roundDiv n (10 ^ (-diff).toNat)

/-! ### Digits -/

private theorem foldl_digits (ds : List Nat) (n : Nat) :
    ds.foldl (fun n d => 10 * n + d) n = n * 10 ^ ds.length + ofDigits ds := by
  unfold ofDigits
  induction ds generalizing n with
  | nil => simp
  | cons d ds ih =>
    rw [List.foldl_cons, List.foldl_cons, ih (10 * n + d), ih (10 * 0 + d), List.length_cons, pow_succ]
    ring

theorem ofDigits_append (as bs : List Nat) :
    ofDigits (as ++ bs) = ofDigits as * 10 ^ bs.length + ofDigits bs := by
  conv_lhs => unfold ofDigits
  rw [List.foldl_append]
  exact foldl_digits bs _

theorem ofDigits_cons (d : Nat) (ds : List Nat) : ofDigits (d :: ds) = d * 10 ^ ds.length + ofDigits ds := by
  have h := ofDigits_append [d] ds
  simpa [ofDigits] using h

theorem ofDigits_lt {ds : List Nat} (h : ∀ d ∈ ds, d < 10) : ofDigits ds < 10 ^ ds.length := by
  induction ds with
  | nil => simp [ofDigits]
  | cons d ds ih =>
    have hd := h d List.mem_cons_self
    have hds := ih fun e he => h e (List.mem_cons_of_mem _ he)
    have hmul : d * 10 ^ ds.length ≤ 9 * 10 ^ ds.length := Nat.mul_le_mul_right _ (by omega)
    rw [ofDigits_cons, List.length_cons, pow_succ]
    omega

/-- The number `n` with more digits behind it. -/
def extend (n : Nat) (ds : List Nat) : Nat := n * 10 ^ ds.length + ofDigits ds

theorem extend_nil (n : Nat) : extend n [] = n := by simp [extend, ofDigits]

theorem extend_zero (ds : List Nat) : extend 0 ds = ofDigits ds := by simp [extend]

theorem extend_append (n : Nat) (as bs : List Nat) : extend n (as ++ bs) = extend (extend n as) bs := by
  unfold extend
  rw [ofDigits_append, List.length_append, pow_add]
  ring

theorem extend_cons (n d : Nat) (ds : List Nat) : extend n (d :: ds) = extend (10 * n + d) ds := by
  unfold extend
  rw [ofDigits_cons, List.length_cons, pow_succ]
  ring

theorem le_extend (n : Nat) (ds : List Nat) : n ≤ extend n ds :=
  le_add_right (Nat.le_mul_of_pos_right _ (by positivity))

/-! ### Rounding -/

theorem roundHalfAway_natCast_div (n d : Nat) (hd : 0 < d) :
    roundHalfAway ((n : ℚ) / d) = roundDiv n d := by
  have hpos : (0 : ℚ) < d := by exact_mod_cast hd
  have hhalf : (n : ℚ) / d + 1 / 2 = ((2 * n + d : ℕ) : ℚ) / ((2 * d : ℕ) : ℚ) := by
    push_cast
    field_simp
  unfold roundHalfAway
  rw [if_pos (by positivity), hhalf, Rat.floor_natCast_div_natCast]
  rfl

theorem roundHalfAway_natCast (n : Nat) : roundHalfAway n = n := by
  have h := roundHalfAway_natCast_div n 1 (by omega)
  rw [Nat.cast_one, div_one] at h
  rw [h]
  unfold roundDiv
  congr 1
  omega

theorem roundHalfAway_neg (q : ℚ) : roundHalfAway (-q) = -roundHalfAway q := by
  unfold roundHalfAway
  rcases lt_trichotomy q 0 with h | rfl | h
  · rw [if_pos (by linarith), if_neg (by linarith), neg_neg]
  · norm_num
  · rw [if_neg (by linarith), if_pos h.le, neg_neg]

theorem toDecimal_neg (p : Nat) (s : Int) (q : ℚ) : toDecimal p s (-q) = (toDecimal p s q).map Neg.neg := by
  unfold toDecimal
  dsimp only
  rw [neg_mul, roundHalfAway_neg, abs_neg]
  split_ifs <;> rfl

/-- A numeral of scale `f`, read at scale `s`. -/
theorem roundHalfAway_shifted (n : Nat) (f s : Int) :
    roundHalfAway ((n : ℚ) * 10 ^ (-f) * 10 ^ s) = shifted n (s - f) := by
  have hpow : (n : ℚ) * 10 ^ (-f) * 10 ^ s = n * 10 ^ (s - f) := by
    rw [mul_assoc, ← zpow_add₀ (by norm_num)]
    congr 2
    omega
  rw [hpow]
  unfold shifted
  split_ifs with h
  · have hto : (10 : ℚ) ^ (s - f) = ((10 ^ (s - f).toNat : ℕ) : ℚ) := by
      rw [Nat.cast_pow, Nat.cast_ofNat, ← zpow_natCast, Int.toNat_of_nonneg h]
    rw [hto, ← Nat.cast_mul, roundHalfAway_natCast]
  · have hto : (10 : ℚ) ^ (s - f) = (((10 ^ (-(s - f)).toNat : ℕ) : ℚ))⁻¹ := by
      rw [Nat.cast_pow, Nat.cast_ofNat, ← zpow_natCast, Int.toNat_of_nonneg (by omega), ← zpow_neg, neg_neg]
    rw [hto, ← div_eq_mul_inv, roundHalfAway_natCast_div n _ (by positivity)]

theorem toDecimal_shifted (p : Nat) (n : Nat) (f s : Int) :
    toDecimal p s ((n : ℚ) * 10 ^ (-f)) =
      if shifted n (s - f) < 10 ^ p then some (shifted n (s - f) : ℤ) else none := by
  unfold toDecimal
  rw [roundHalfAway_shifted]
  dsimp only
  rw [Nat.abs_cast]
  norm_cast

theorem roundDiv_eq_zero {n d : Nat} (hd : 0 < d) : roundDiv n d = 0 ↔ 2 * n < d := by
  unfold roundDiv
  rw [Nat.div_eq_zero_iff]
  omega

theorem shifted_zero (diff : Int) : shifted 0 diff = 0 := by
  unfold shifted
  split_ifs
  · simp
  · rw [roundDiv_eq_zero (by positivity)]
    positivity

theorem roundDiv_le {n d : Nat} (hn : 0 < n) (hd : 2 ≤ d) : roundDiv n d ≤ n := by
  have hmul : 2 * n ≤ d * n := Nat.mul_le_mul_right n hd
  have hstep : d ≤ d * n := Nat.le_mul_of_pos_right d hn
  unfold roundDiv
  rw [Nat.div_le_iff_le_mul (by omega)]
  have hassoc : n * (2 * d) = 2 * (d * n) := by ring
  omega

/-- The quotient, and one more from half of the divisor on. -/
theorem roundDiv_even (n d : Nat) (hd : 0 < d) :
    roundDiv n (2 * d) = n / (2 * d) + if d ≤ n % (2 * d) then 1 else 0 := by
  have hsplit := Nat.div_add_mod n (2 * d)
  have hmod := Nat.mod_lt n (by omega : 0 < 2 * d)
  have hnum : 2 * n + 2 * d = 2 * (n + d) := by omega
  unfold roundDiv
  rw [hnum, Nat.mul_div_mul_left _ _ (by omega : 0 < 2)]
  split_ifs with h
  · have hn : n + d = (n % (2 * d) - d) + (n / (2 * d) + 1) * (2 * d) := by
      rw [Nat.add_mul, Nat.mul_comm (n / (2 * d))]
      omega
    rw [hn, Nat.add_mul_div_right _ _ (by omega : 0 < 2 * d), Nat.div_eq_of_lt (by omega)]
    omega
  · have hn : n + d = (n % (2 * d) + d) + n / (2 * d) * (2 * d) := by
      rw [Nat.mul_comm (n / (2 * d))]
      omega
    rw [hn, Nat.add_mul_div_right _ _ (by omega : 0 < 2 * d), Nat.div_eq_of_lt (by omega)]
    omega

/-! ### What a shortened numeral still says -/

section Cut

variable {m r t : Nat} (ht : t < 10 ^ r)
include ht

/-- A coarser scale than that of the digits kept does not see the others. -/
theorem shifted_cut {diff : Int} (hdiff : diff < 0) : shifted (m * 10 ^ r + t) (diff - r) = shifted m diff := by
  obtain ⟨k, rfl⟩ : ∃ k : ℕ, diff = -((k + 1 : ℕ) : ℤ) := ⟨(-diff - 1).toNat, by omega⟩
  have hplaces : (-(-((k + 1 : ℕ) : ℤ) - r)).toNat = r + (k + 1) := by omega
  have hkept : (- -((k + 1 : ℕ) : ℤ)).toNat = k + 1 := by omega
  have hpos : 0 < 10 ^ r := by positivity
  have hten : 10 ^ (k + 1) = 2 * (5 * 10 ^ k) := by rw [pow_succ]; ring
  unfold shifted roundDiv
  rw [if_neg (by omega), if_neg (by omega), hplaces, hkept]
  -- both sums are even; half of the longer one, without its last `r` digits, is half of the shorter one
  have hlong : 2 * (m * 10 ^ r + t) + 10 ^ (r + (k + 1)) = 2 * ((m + 5 * 10 ^ k) * 10 ^ r + t) := by
    rw [pow_add, hten]
    ring
  have hshort : 2 * m + 10 ^ (k + 1) = 2 * (m + 5 * 10 ^ k) := by
    rw [hten]
    ring
  rw [hlong, hshort, Nat.mul_div_mul_left _ _ (by omega), Nat.mul_div_mul_left _ _ (by omega), pow_add,
    ← Nat.div_div_eq_div_mul, Nat.mul_comm _ (10 ^ r), Nat.mul_add_div hpos, Nat.div_eq_of_lt ht, Nat.add_zero]

/-- At the scale of the digits kept, the others say whether to round up. -/
theorem shifted_cut_same : shifted (m * 10 ^ r + t) (-r) = m + if 10 ^ r ≤ 2 * t then 1 else 0 := by
  have hpos : 0 < 10 ^ r := by positivity
  have hkept : (- -(r : ℤ)).toNat = r := by omega
  have hm : m + (if 10 ^ r ≤ 2 * t then 1 else 0) = roundDiv (m * 10 ^ r + t) (10 ^ r) := by
    unfold roundDiv
    have hnum : 2 * (m * 10 ^ r + t) + 10 ^ r = (2 * t + 10 ^ r) + m * (2 * 10 ^ r) := by ring
    rw [hnum, Nat.add_mul_div_right _ _ (by omega)]
    split_ifs with h
    · have hone : (2 * t + 10 ^ r) / (2 * 10 ^ r) = 1 := by
        rw [Nat.div_eq_iff (by omega)]
        omega
      omega
    · rw [Nat.div_eq_of_lt (by omega)]
      omega
  rw [hm]
  unfold shifted
  rcases Nat.eq_zero_or_pos r with rfl | hr
  · simp [roundDiv]
    omega
  · rw [if_neg (by omega), hkept]

omit ht in
/-- A finer scale multiplies the digits kept. -/
theorem le_shifted_cut {diff : Nat} (t : Nat) : m * 10 ^ diff ≤ shifted (m * 10 ^ r + t) ((diff : ℤ) - r) := by
  unfold shifted
  split_ifs with h
  · have hplaces : ((diff : ℤ) - r).toNat = diff - r := by omega
    have hpow : 10 ^ diff = 10 ^ r * 10 ^ (diff - r) := by rw [← pow_add]; congr 1; omega
    rw [hplaces, hpow, ← Nat.mul_assoc]
    exact Nat.mul_le_mul_right _ (by omega)
  · have hplaces : (-((diff : ℤ) - r)).toNat = r - diff := by omega
    have hpow : 10 ^ r = 10 ^ diff * 10 ^ (r - diff) := by rw [← pow_add]; congr 1; omega
    have hpos : 0 < 10 ^ (r - diff) := by positivity
    unfold roundDiv
    rw [hplaces, Nat.le_div_iff_mul_le (by omega), hpow]
    have hmul : m * 10 ^ diff * (2 * 10 ^ (r - diff)) = 2 * (m * (10 ^ diff * 10 ^ (r - diff))) := by ring
    omega

end Cut

/-- The first digit dropped says which half the others lie in. -/
theorem half_le_iff {d : Nat} {rest : List Nat} (hrest : ∀ e ∈ rest, e < 10) :
    10 ^ (d :: rest).length ≤ 2 * ofDigits (d :: rest) ↔ 5 ≤ d := by
  have hlt := ofDigits_lt hrest
  rw [ofDigits_cons, List.length_cons, pow_succ]
  constructor
  · intro h
    by_contra hd
    have hmul : d * 10 ^ rest.length ≤ 4 * 10 ^ rest.length := Nat.mul_le_mul_right _ (by omega)
    omega
  · intro hd
    have hmul : 5 * 10 ^ rest.length ≤ d * 10 ^ rest.length := Nat.mul_le_mul_right _ hd
    omega

end Decimals
