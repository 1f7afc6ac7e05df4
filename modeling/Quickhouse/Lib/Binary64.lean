import Mathlib.Data.Int.Log
import Mathlib.Data.Rat.Floor
import Mathlib.Algebra.Order.Field.Power
import Mathlib.Tactic.Linarith
import Mathlib.Tactic.Positivity
import Mathlib.Tactic.NormNum
import Mathlib.Tactic.FieldSimp
import Mathlib.Tactic.GCongr
import Mathlib.Tactic.Ring

/-!
# Binary64 arithmetic over the rationals

A double is a NaN, an infinity or a rational of the form `m * 2 ^ e` with a 53-bit `m`; an operation rounds
its exact result to nearest, ties to even, and overflows to an infinity.  There is one zero: its sign only
matters to a division by it.

The rules at the end bound what a chain of operations can return: `Within x c` says that `x` is a NaN or a
number between `0` and `c`, and each operation enlarges `c` by its rounding error at most.
-/

namespace Binary64

/-! ### Rounding to nearest, ties to even -/

/-- The integer nearest to `x`, the even one at a midpoint. -/
def nearestEven (x : ℚ) : ℤ :=
  if Int.fract x < 1 / 2 then ⌊x⌋
  else if 1 / 2 < Int.fract x then ⌊x⌋ + 1
  else if ⌊x⌋ % 2 = 0 then ⌊x⌋ else ⌊x⌋ + 1

/-- The exponent of the unit in the last place of `q`: 53 significant bits, down to the subnormals. -/
def ulpExp (q : ℚ) : ℤ := max (Int.log 2 |q| - 52) (-1074)

def ulp (q : ℚ) : ℚ := 2 ^ ulpExp q

/-- The multiple of `ulp q` nearest to `q`. -/
def nearest (q : ℚ) : ℚ := nearestEven (q / ulp q) * ulp q

theorem ulp_pos (q : ℚ) : 0 < ulp q := by
  unfold ulp
  exact zpow_pos (by norm_num) _

theorem floor_le_nearestEven (x : ℚ) : ⌊x⌋ ≤ nearestEven x := by
  unfold nearestEven
  split_ifs <;> omega

theorem nearestEven_le_floor (x : ℚ) : nearestEven x ≤ ⌊x⌋ + 1 := by
  unfold nearestEven
  split_ifs <;> omega

theorem abs_nearestEven_sub_le (x : ℚ) : |(nearestEven x : ℚ) - x| ≤ 1 / 2 := by
  have hx : (⌊x⌋ : ℚ) + Int.fract x = x := Int.floor_add_fract x
  have h0 := Int.fract_nonneg x
  have h1 := Int.fract_lt_one x
  rw [abs_le]
  unfold nearestEven
  split_ifs <;> push_cast <;> constructor <;> linarith

/-- One rounding is off by half a unit in the last place at most. -/
theorem abs_nearest_sub_le (q : ℚ) : |nearest q - q| ≤ ulp q / 2 := by
  have hu := ulp_pos q
  have h : nearest q - q = (nearestEven (q / ulp q) - q / ulp q) * ulp q := by
    unfold nearest
    field_simp
  rw [h, abs_mul, abs_of_pos hu]
  have := mul_le_mul_of_nonneg_right (abs_nearestEven_sub_le (q / ulp q)) hu.le
  linarith

theorem nearest_nonneg {q : ℚ} (h : 0 ≤ q) : 0 ≤ nearest q := by
  have hu := ulp_pos q
  have h0 : 0 ≤ ⌊q / ulp q⌋ := Int.floor_nonneg.mpr (by positivity)
  have h1 : 0 ≤ nearestEven (q / ulp q) := h0.trans (floor_le_nearestEven _)
  have h2 : (0 : ℚ) ≤ nearestEven (q / ulp q) := by exact_mod_cast h1
  exact mul_nonneg h2 hu.le

/-- Above `1` the unit in the last place is a `2 ^ 52`-th of the number. -/
theorem ulp_le {q c : ℚ} (h0 : 0 ≤ q) (hq : q ≤ c) (hc : 1 ≤ c) : ulp q ≤ c * 2 ^ (-52 : ℤ) := by
  have hp : (0 : ℚ) < 2 ^ (-52 : ℤ) := by positivity
  have hsub : (2 : ℚ) ^ (-1074 : ℤ) ≤ c * 2 ^ (-52 : ℤ) := by
    have h1 : (2 : ℚ) ^ (-1074 : ℤ) ≤ 2 ^ (-52 : ℤ) := zpow_le_zpow_right₀ (by norm_num) (by norm_num)
    nlinarith
  unfold ulp ulpExp
  rcases max_cases (Int.log 2 |q| - 52) (-1074 : ℤ) with ⟨h, -⟩ | ⟨h, -⟩
  · rw [h, abs_of_nonneg h0]
    rcases h0.eq_or_lt with rfl | hpos
    · rw [Int.log_zero_right, zero_sub]
      nlinarith
    · rw [sub_eq_add_neg, zpow_add₀ (by norm_num : (2 : ℚ) ≠ 0)]
      have hlog : ((2 : ℕ) : ℚ) ^ Int.log 2 q ≤ q := Int.zpow_log_le_self (by norm_num) hpos
      push_cast at hlog
      exact mul_le_mul_of_nonneg_right (hlog.trans hq) hp.le
  · rw [h]
    exact hsub

/-- Rounding a number of `[0, c]` stays below `c` enlarged by the unit roundoff. -/
theorem nearest_le {q c : ℚ} (h0 : 0 ≤ q) (hq : q ≤ c) (hc : 1 ≤ c) :
    nearest q ≤ c * (1 + 2 ^ (-53 : ℤ)) := by
  have h1 := (abs_le.mp (abs_nearest_sub_le q)).2
  have h2 := ulp_le h0 hq hc
  have h3 : (2 : ℚ) ^ (-52 : ℤ) = 2 * 2 ^ (-53 : ℤ) := by norm_num
  rw [h3] at h2
  linarith

theorem abs_lt_ulp (q : ℚ) : |q| ≤ 2 ^ (53 : ℤ) * ulp q := by
  have h1 : |q| ≤ 2 ^ (Int.log 2 |q| + 1) := by
    have := Int.lt_zpow_succ_log_self (R := ℚ) (by norm_num : 1 < 2) |q|
    push_cast at this
    exact this.le
  refine h1.trans ?_
  unfold ulp ulpExp
  rw [← zpow_add₀ (by norm_num : (2 : ℚ) ≠ 0)]
  exact zpow_le_zpow_right₀ (by norm_num) (by omega)

theorem abs_nearestEven_le {x : ℚ} {n : ℤ} (h : |x| ≤ n) : |nearestEven x| ≤ n := by
  obtain ⟨hlo, hhi⟩ := abs_le.mp h
  have h1 : -n ≤ ⌊x⌋ := Int.le_floor.mpr (by push_cast; exact hlo)
  rw [abs_le]
  refine ⟨h1.trans (floor_le_nearestEven x), ?_⟩
  rcases hhi.eq_or_lt with heq | hlt
  · have hfr : Int.fract x = 0 := by rw [heq, Int.fract_intCast]
    have hfl : ⌊x⌋ = n := by rw [heq, Int.floor_intCast]
    simp [nearestEven, hfr, hfl]
  · have h2 : ⌊x⌋ < n := Int.floor_lt.mpr hlt
    exact (nearestEven_le_floor x).trans (by omega)

/-! ### Doubles -/

/-- The rationals a double can hold. -/
def Representable (q : ℚ) : Prop :=
  |q| < 2 ^ (1024 : ℤ) ∧ ∃ m e : ℤ, |m| ≤ 2 ^ 53 ∧ -1074 ≤ e ∧ q = m * 2 ^ e

theorem nearest_representable {q : ℚ} (h : |nearest q| < 2 ^ (1024 : ℤ)) : Representable (nearest q) := by
  refine ⟨h, nearestEven (q / ulp q), ulpExp q, ?_, le_max_right _ _, rfl⟩
  apply abs_nearestEven_le
  rw [abs_div, abs_of_pos (ulp_pos q), div_le_iff₀ (ulp_pos q)]
  exact_mod_cast abs_lt_ulp q

theorem representable_natCast {n : ℕ} (h : n ≤ 2 ^ 53) : Representable n := by
  have hq : (n : ℚ) ≤ 2 ^ (53 : ℤ) := by exact_mod_cast h
  refine ⟨?_, n, 0, ?_, by norm_num, by norm_num⟩
  · rw [abs_of_nonneg (Nat.cast_nonneg n)]
    exact hq.trans_lt (zpow_lt_zpow_right₀ (by norm_num) (by norm_num))
  · rw [abs_of_nonneg (Int.natCast_nonneg n)]
    exact_mod_cast h

theorem representable_zero : Representable 0 := by
  exact_mod_cast representable_natCast (Nat.zero_le (2 ^ 53))

theorem representable_one : Representable 1 := by
  exact_mod_cast representable_natCast (Nat.one_le_two_pow : 1 ≤ 2 ^ 53)

theorem representable_abs {q : ℚ} (h : Representable q) : Representable |q| := by
  obtain ⟨hlt, m, e, hm, he, rfl⟩ := h
  refine ⟨by rwa [abs_abs], |m|, e, by rwa [abs_abs], he, ?_⟩
  rw [abs_mul, Int.cast_abs, abs_of_pos (show (0 : ℚ) < 2 ^ e by positivity)]

theorem representable_intCast {n : ℤ} (h : |n| ≤ 2 ^ 53) : Representable n := by
  have hq : |(n : ℚ)| ≤ 2 ^ (53 : ℤ) := by exact_mod_cast h
  exact ⟨hq.trans_lt (zpow_lt_zpow_right₀ (by norm_num) (by norm_num)), n, 0, h, by norm_num, by norm_num⟩

/-- The powers of ten up to the twenty-second are exact. -/
theorem representable_ten_pow {n : ℕ} (h : n ≤ 22) : Representable (10 ^ n) := by
  have h5 : (5 : ℤ) ^ n ≤ 5 ^ 22 := pow_le_pow_right₀ (by norm_num) h
  have h10 : (10 : ℚ) ^ n ≤ 10 ^ 22 := pow_le_pow_right₀ (by norm_num) h
  refine ⟨?_, 5 ^ n, n, ?_, by omega, ?_⟩
  · rw [abs_of_pos (by positivity)]
    exact (h10.trans_lt (by norm_num : (10 : ℚ) ^ 22 < 2 ^ (74 : ℤ))).trans
      (zpow_lt_zpow_right₀ (by norm_num) (by norm_num))
  · rw [abs_of_pos (by positivity)]
    exact h5.trans (by norm_num)
  · rw [zpow_natCast]
    push_cast
    rw [← mul_pow]
    norm_num

theorem nearestEven_intCast (n : ℤ) : nearestEven n = n := by
  unfold nearestEven
  rw [Int.fract_intCast, if_pos (by norm_num), Int.floor_intCast]

/-- A representable number is a whole number of its last places. -/
theorem exists_mul_ulp {q : ℚ} (h : Representable q) : ∃ n : ℤ, q = n * ulp q := by
  obtain ⟨-, m, e, hm, he, rfl⟩ := h
  by_cases hle : ulpExp (m * 2 ^ e) ≤ e
  · obtain ⟨k, hk⟩ := Int.eq_ofNat_of_zero_le (show 0 ≤ e - ulpExp (m * 2 ^ e) by omega)
    refine ⟨m * 2 ^ k, ?_⟩
    have hsplit : e = (k : ℤ) + ulpExp (m * 2 ^ e) := by rw [← hk]; omega
    unfold ulp
    push_cast
    rw [mul_assoc, ← zpow_natCast (2 : ℚ) k, ← zpow_add₀ (by norm_num : (2 : ℚ) ≠ 0), ← hsplit]
  · -- the mantissa is then 2 ^ 53, one place more than a double has
    by_cases hm0 : m = 0
    · exact ⟨0, by rw [hm0]; simp⟩
    have hexp : ulpExp (m * 2 ^ e) = Int.log 2 |(m * 2 ^ e : ℚ)| - 52 := by
      unfold ulpExp at hle ⊢
      omega
    have hpos : (0 : ℚ) < |(m * 2 ^ e : ℚ)| := by
      rw [abs_pos]
      exact mul_ne_zero (by exact_mod_cast hm0) (by positivity)
    have hlog : ((2 : ℕ) : ℚ) ^ Int.log 2 |(m * 2 ^ e : ℚ)| ≤ |(m * 2 ^ e : ℚ)| := Int.zpow_log_le_self (by norm_num) hpos
    have hmq : |(m : ℚ)| ≤ 2 ^ (53 : ℤ) := by exact_mod_cast hm
    have h2e : (0 : ℚ) < 2 ^ e := by positivity
    rw [abs_mul, abs_of_pos h2e] at hlog
    push_cast at hlog
    have hup : (2 : ℚ) ^ Int.log 2 (|(m : ℚ)| * 2 ^ e) ≤ 2 ^ (53 + e) := by
      rw [zpow_add₀ (by norm_num : (2 : ℚ) ≠ 0)]
      exact hlog.trans (mul_le_mul_of_nonneg_right hmq h2e.le)
    have hle53 := (zpow_le_zpow_iff_right₀ (by norm_num : (1 : ℚ) < 2)).mp hup
    rw [abs_mul, abs_of_pos h2e] at hexp
    have hone : Int.log 2 (|(m : ℚ)| * 2 ^ e) = 53 + e := by omega
    rw [hone, zpow_add₀ (by norm_num : (2 : ℚ) ≠ 0)] at hlog
    have habs : |(m : ℚ)| = 2 ^ (53 : ℤ) := le_antisymm hmq (le_of_mul_le_mul_right hlog h2e)
    have hulp : ulp (m * 2 ^ e) = 2 * 2 ^ e := by
      unfold ulp
      rw [hexp, hone, show 53 + e - 52 = 1 + e by ring, zpow_add₀ (by norm_num : (2 : ℚ) ≠ 0), zpow_one]
    rcases abs_choice (m : ℚ) with hsign | hsign
    · refine ⟨2 ^ 52, ?_⟩
      rw [hulp, ← hsign, habs]
      push_cast
      ring
    · refine ⟨-2 ^ 52, ?_⟩
      rw [hulp, show (m : ℚ) = -2 ^ (53 : ℤ) by rw [← habs, hsign, neg_neg]]
      push_cast
      norm_num
      ring

theorem nearest_of_representable {q : ℚ} (h : Representable q) : nearest q = q := by
  obtain ⟨n, hn⟩ := exists_mul_ulp h
  have hu := ulp_pos q
  unfold nearest
  rw [show q / ulp q = n by rw [div_eq_iff hu.ne']; exact hn, nearestEven_intCast]
  exact hn.symm

/-- The numbers whose unit in the last place is relative to them. -/
def Normal (q : ℚ) : Prop := q = 0 ∨ 2 ^ (-1022 : ℤ) ≤ |q|

theorem ulp_le_of_normal {q : ℚ} (h : 2 ^ (-1022 : ℤ) ≤ |q|) : ulp q ≤ |q| * 2 ^ (-52 : ℤ) := by
  have hpos : (0 : ℚ) < |q| := lt_of_lt_of_le (by positivity) h
  have hlog : ((2 : ℕ) : ℚ) ^ Int.log 2 |q| ≤ |q| := Int.zpow_log_le_self (by norm_num) hpos
  push_cast at hlog
  unfold ulp ulpExp
  rcases max_cases (Int.log 2 |q| - 52) (-1074 : ℤ) with ⟨hmax, -⟩ | ⟨hmax, -⟩
  · rw [hmax, sub_eq_add_neg, zpow_add₀ (by norm_num : (2 : ℚ) ≠ 0)]
    exact mul_le_mul_of_nonneg_right hlog (by positivity)
  · rw [hmax, show (-1074 : ℤ) = -1022 + -52 by norm_num, zpow_add₀ (by norm_num : (2 : ℚ) ≠ 0)]
    exact mul_le_mul_of_nonneg_right h (by positivity)

/-- Rounding moves a normal number by the unit roundoff at most. -/
theorem abs_nearest_sub_le_of_normal {q : ℚ} (h : Normal q) : |nearest q - q| ≤ |q| * 2 ^ (-53 : ℤ) := by
  rcases h with rfl | h
  · rw [nearest_of_representable representable_zero]
    simp
  · have h1 := abs_nearest_sub_le q
    have h2 := ulp_le_of_normal h
    have h3 : (2 : ℚ) ^ (-52 : ℤ) = 2 * 2 ^ (-53 : ℤ) := by norm_num
    rw [h3] at h2
    linarith

/-- A representable number is an integer or small, so its ceiling is representable. -/
theorem representable_ceil {q : ℚ} (h : Representable q) : Representable ⌈q⌉ := by
  obtain ⟨hlt, m, e, hm, he, rfl⟩ := h
  by_cases hpos : 0 ≤ e
  · obtain ⟨n, rfl⟩ := Int.eq_ofNat_of_zero_le hpos
    have hint : ((⌈(m * 2 ^ (n : ℤ) : ℚ)⌉ : ℤ) : ℚ) = m * 2 ^ (n : ℤ) := by
      have : (m * 2 ^ (n : ℤ) : ℚ) = ((m * 2 ^ n : ℤ) : ℚ) := by push_cast; rw [zpow_natCast]
      rw [this, Int.ceil_intCast]
    rw [hint]
    exact ⟨hlt, m, n, hm, he, rfl⟩
  · have hpow : (2 : ℚ) ^ e ≤ 1 := zpow_le_one_of_nonpos₀ (by norm_num) (by omega)
    have hpow0 : (0 : ℚ) < 2 ^ e := by positivity
    have hm' : |(m : ℚ)| ≤ 2 ^ 53 := by exact_mod_cast hm
    have habs : |(m * 2 ^ e : ℚ)| ≤ 2 ^ 53 := by
      rw [abs_mul, abs_of_pos hpow0]
      calc |(m : ℚ)| * 2 ^ e ≤ 2 ^ 53 * 1 := mul_le_mul hm' hpow hpow0.le (by norm_num)
        _ = 2 ^ 53 := mul_one _
    rw [abs_le] at habs
    have hup : ⌈(m * 2 ^ e : ℚ)⌉ ≤ 2 ^ 53 := Int.ceil_le.mpr (by exact_mod_cast habs.2)
    have hlow : -2 ^ 53 ≤ ⌈(m * 2 ^ e : ℚ)⌉ := by
      have := habs.1.trans (Int.le_ceil (m * 2 ^ e : ℚ))
      exact_mod_cast this
    have hc : |⌈(m * 2 ^ e : ℚ)⌉| ≤ 2 ^ 53 := abs_le.mpr ⟨hlow, hup⟩
    refine ⟨?_, ⌈(m * 2 ^ e : ℚ)⌉, 0, hc, by norm_num, by norm_num⟩
    have : |((⌈(m * 2 ^ e : ℚ)⌉ : ℤ) : ℚ)| ≤ 2 ^ 53 := by exact_mod_cast hc
    refine this.trans_lt ?_
    rw [← zpow_natCast]
    exact zpow_lt_zpow_right₀ (by norm_num) (by norm_num)

/-- A double: only a representable number is finite. -/
inductive F64 where
  | nan
  | inf (neg : Bool)
  | fin (q : ℚ) (h : Representable q)

namespace F64

/-- The double nearest to `q`. -/
def ofRat (q : ℚ) : F64 :=
  if h : |nearest q| < 2 ^ (1024 : ℤ) then .fin (nearest q) (nearest_representable h) else .inf (decide (q < 0))

def ofNat (n : ℕ) : F64 := ofRat n

def zero : F64 := .fin 0 representable_zero

def isZero : F64 → Bool
  | .fin q _ => q = 0
  | _ => false

def isNeg : F64 → Bool
  | .nan => false
  | .inf neg => neg
  | .fin q _ => q < 0

def lt : F64 → F64 → Bool
  | .nan, _ => false
  | _, .nan => false
  | .inf a, .inf b => a && !b
  | .inf a, .fin _ _ => a
  | .fin _ _, .inf b => !b
  | .fin p _, .fin q _ => p < q

def mul : F64 → F64 → F64
  | .fin p _, .fin q _ => ofRat (p * q)
  | .nan, _ => .nan
  | _, .nan => .nan
  | x, y => if x.isZero || y.isZero then .nan else .inf (x.isNeg ^^ y.isNeg)

def div : F64 → F64 → F64
  | .nan, _ => .nan
  | _, .nan => .nan
  | .inf _, .inf _ => .nan
  | .inf a, y => .inf (a ^^ y.isNeg)
  | .fin _ _, .inf _ => ofRat 0
  | .fin p hp, .fin q _ =>
    if q = 0 then (if p = 0 then .nan else .inf (isNeg (.fin p hp))) else ofRat (p / q)

def add : F64 → F64 → F64
  | .nan, _ => .nan
  | _, .nan => .nan
  | .inf a, .inf b => if a = b then .inf a else .nan
  | .inf a, .fin _ _ => .inf a
  | .fin _ _, .inf b => .inf b
  | .fin p _, .fin q _ => ofRat (p + q)

def sub : F64 → F64 → F64
  | .nan, _ => .nan
  | _, .nan => .nan
  | .inf a, .inf b => if a = b then .nan else .inf a
  | .inf a, .fin _ _ => .inf a
  | .fin _ _, .inf b => .inf !b
  | .fin p _, .fin q _ => ofRat (p - q)

def abs : F64 → F64
  | .nan => .nan
  | .inf _ => .inf false
  | .fin q h => .fin |q| (representable_abs h)

/-- The comparison `==`. -/
def same : F64 → F64 → Bool
  | .inf a, .inf b => a = b
  | .fin p _, .fin q _ => p = q
  | _, _ => false

def isNan : F64 → Bool
  | .nan => true
  | _ => false

def le (x y : F64) : Bool := x.lt y || x.same y

/-- The larger number; a NaN loses against anything. -/
def max : F64 → F64 → F64
  | .nan, y => y
  | x, .nan => x
  | x, y => if x.lt y then y else x

/-- A NaN passes through. -/
def clamp (x lo hi : F64) : F64 :=
  let y := if x.lt lo then lo else x
  if hi.lt y then hi else y

/-- Round half away from zero. -/
def round : F64 → F64
  | .fin q _ => ofRat (if 0 ≤ q then ⌊q + 1 / 2⌋ else -⌊-q + 1 / 2⌋)
  | x => x

def ceil : F64 → F64
  | .fin q h => .fin ⌈q⌉ (representable_ceil h)
  | x => x

/-- The saturating cast to an unsigned 64-bit integer: a NaN gives `0`. -/
def toU64 : F64 → ℕ
  | .nan => 0
  | .inf neg => if neg then 0 else 2 ^ 64 - 1
  | .fin q _ => min ⌊q⌋.toNat (2 ^ 64 - 1)

/-! ### Exact and normal numbers -/

theorem ofRat_of_representable {q : ℚ} (h : Representable q) : ofRat q = .fin q h := by
  have hnearest := nearest_of_representable h
  unfold ofRat
  rw [dif_pos (by rw [hnearest]; exact h.1)]
  congr

theorem ofRat_of_normal {q : ℚ} (h : Normal q) (hmax : |q| ≤ 2 ^ (1023 : ℤ)) :
    ∃ hr, ofRat q = .fin (nearest q) hr := by
  have hnear := abs_nearest_sub_le_of_normal h
  have hlt : |nearest q| < 2 ^ (1024 : ℤ) := by
    have h1 : |nearest q| ≤ |nearest q - q| + |q| := by
      have := abs_add_le (nearest q - q) q
      rwa [sub_add_cancel] at this
    have h2 : |q| * 2 ^ (-53 : ℤ) ≤ |q| * (1 / 2) := mul_le_mul_of_nonneg_left (by norm_num) (abs_nonneg q)
    have h3 : (2 : ℚ) ^ (1024 : ℤ) = 2 * 2 ^ (1023 : ℤ) := by
      rw [show (1024 : ℤ) = 1 + 1023 by norm_num, zpow_add₀ (by norm_num : (2 : ℚ) ≠ 0), zpow_one]
    have h4 : (0 : ℚ) < 2 ^ (1023 : ℤ) := by positivity
    rw [h3]
    generalize (2 : ℚ) ^ (1023 : ℤ) = limit at hmax h4
    generalize (2 : ℚ) ^ (-53 : ℤ) = roundoff at hnear h2
    linarith
  exact ⟨nearest_representable hlt, dif_pos hlt⟩

/-- Numbers of one double are close to each other. -/
theorem abs_sub_le_of_same {p q : ℚ} (hp : Normal p) (hq : Normal q) (hpmax : |p| ≤ 2 ^ (1023 : ℤ))
    (hqmax : |q| ≤ 2 ^ (1023 : ℤ)) (h : (ofRat p).same (ofRat q) = true) :
    |p - q| ≤ (|p| + |q|) * 2 ^ (-53 : ℤ) := by
  obtain ⟨hr, hpr⟩ := ofRat_of_normal hp hpmax
  obtain ⟨hr', hqr⟩ := ofRat_of_normal hq hqmax
  rw [hpr, hqr] at h
  have heq : nearest p = nearest q := of_decide_eq_true h
  have h1 := abs_nearest_sub_le_of_normal hp
  have h2 := abs_nearest_sub_le_of_normal hq
  rw [abs_sub_comm] at h1
  rw [← heq] at h2
  have h3 := abs_sub_le p (nearest p) q
  rw [add_mul]
  linarith

/-! ### What a chain of operations can return -/

/-- `x` is a NaN or a number of `[0, c]`. -/
def Within (x : F64) (c : ℚ) : Prop :=
  match x with
  | .nan => True
  | .inf _ => False
  | .fin q _ => 0 ≤ q ∧ q ≤ c

theorem Within.mono {x : F64} {c d : ℚ} (h : x.Within c) (hcd : c ≤ d) : x.Within d := by
  cases x with
  | nan => trivial
  | inf neg => exact h
  | fin q hq => exact ⟨h.1, h.2.trans hcd⟩

theorem Within.ofRat {q c : ℚ} (h0 : 0 ≤ q) (hq : q ≤ c) (hc : 1 ≤ c) (hmax : c ≤ 2 ^ 100) :
    (ofRat q).Within (c * (1 + 2 ^ (-53 : ℤ))) := by
  have hle := nearest_le h0 hq hc
  have hnn := nearest_nonneg h0
  have hfin : |nearest q| < 2 ^ (1024 : ℤ) := by
    rw [abs_of_nonneg hnn]
    have h2 : (1 + 2 ^ (-53 : ℤ) : ℚ) ≤ 2 ^ (1 : ℤ) := by norm_num
    have h3 : (2 : ℚ) ^ 100 * 2 ^ (1 : ℤ) < 2 ^ (1024 : ℤ) := by
      rw [← zpow_natCast, ← zpow_add₀ (by norm_num : (2 : ℚ) ≠ 0)]
      exact zpow_lt_zpow_right₀ (by norm_num) (by norm_num)
    refine lt_of_le_of_lt (hle.trans ?_) h3
    exact mul_le_mul hmax h2 (by norm_num) (by positivity)
  unfold F64.ofRat
  rw [dif_pos hfin]
  exact ⟨hnn, hle⟩

theorem ofRat_ne_nan (q : ℚ) : F64.ofRat q ≠ .nan := by
  unfold F64.ofRat
  split_ifs <;> simp

theorem Within.mul {x y : F64} {c d : ℚ} (hx : x.Within c) (hy : y.Within d) (hcd : 1 ≤ c * d)
    (hmax : c * d ≤ 2 ^ 100) : (x.mul y).Within (c * d * (1 + 2 ^ (-53 : ℤ))) := by
  cases x with
  | nan => cases y <;> trivial
  | inf neg => exact hx.elim
  | fin p hp =>
    cases y with
    | nan => trivial
    | inf neg => exact hy.elim
    | fin q hq =>
      have h : p * q ≤ c * d := mul_le_mul hx.2 hy.2 hy.1 (hx.1.trans hx.2)
      exact Within.ofRat (mul_nonneg hx.1 hy.1) h hcd hmax

/-- A clamp to `[lo, hi]` stays there, whatever came in. -/
theorem Within.clamp {lo hi : F64} {c : ℚ} (x : F64) (hlo : lo.Within c) (hhi : hi.Within c)
    (hlo' : lo ≠ .nan) (hhi' : hi ≠ .nan) : (x.clamp lo hi).Within c := by
  have hin (hxl : ¬ x.lt lo) (hxh : ¬ hi.lt x) : x.Within c := by
    cases lo with
    | nan => exact absurd rfl hlo'
    | inf neg => exact hlo.elim
    | fin a ha =>
      cases hi with
      | nan => exact absurd rfl hhi'
      | inf neg => exact hhi.elim
      | fin b hb =>
        cases x with
        | nan => trivial
        | inf neg => cases neg <;> simp_all [F64.lt]
        | fin q hq =>
          simp only [F64.lt, decide_eq_true_eq, not_lt] at hxl hxh
          exact ⟨hlo.1.trans hxl, hxh.trans hhi.2⟩
  rw [F64.clamp]
  by_cases hxl : x.lt lo = true
  · rw [if_pos hxl]
    split_ifs
    · exact hhi
    · exact hlo
  · rw [if_neg hxl]
    split_ifs with hxh
    · exact hhi
    · exact hin hxl hxh

theorem Within.round {x : F64} {c : ℚ} (hx : x.Within c) (hc : 1 ≤ c) (hmax : c + 1 / 2 ≤ 2 ^ 100) :
    x.round.Within ((c + 1 / 2) * (1 + 2 ^ (-53 : ℤ))) := by
  cases x with
  | nan => trivial
  | inf neg => exact hx.elim
  | fin q hq =>
    have h0 : (0 : ℚ) ≤ ⌊q + 1 / 2⌋ := by
      exact_mod_cast Int.floor_nonneg.mpr (by linarith [hx.1] : (0 : ℚ) ≤ q + 1 / 2)
    have h1 : (⌊q + 1 / 2⌋ : ℚ) ≤ c + 1 / 2 := (Int.floor_le _).trans (by linarith [hx.2])
    simp only [F64.round, hx.1, if_true]
    exact Within.ofRat h0 h1 (by linarith) hmax

theorem Within.toU64 {x : F64} {c : ℚ} (hx : x.Within c) (hc : 0 ≤ c) : (x.toU64 : ℚ) ≤ c := by
  cases x with
  | nan => simpa [F64.toU64] using hc
  | inf neg => exact hx.elim
  | fin q hq =>
    have h0 : 0 ≤ ⌊q⌋ := Int.floor_nonneg.mpr hx.1
    have h1 : ((⌊q⌋.toNat : ℕ) : ℚ) = ⌊q⌋ := by exact_mod_cast Int.toNat_of_nonneg h0
    calc ((F64.fin q hq).toU64 : ℚ) ≤ (⌊q⌋.toNat : ℕ) := by exact_mod_cast min_le_left _ _
      _ = ⌊q⌋ := h1
      _ ≤ q := Int.floor_le q
      _ ≤ c := hx.2

theorem toU64_le (x : F64) : x.toU64 ≤ 2 ^ 64 - 1 := by
  cases x with
  | nan => simp [F64.toU64]
  | inf neg => cases neg <;> simp [F64.toU64]
  | fin q h => exact min_le_right _ _

/-- Rounded up and cast, a number covers every natural number it is not below, up to the saturation. -/
theorem le_toU64_ceil {q : ℚ} (h : Representable q) {c n : ℕ} (hc : 0 < c) (hn : (n : ℚ) ≤ q * c)
    (hmax : n ≤ (2 ^ 64 - 1) * c) : n ≤ ((F64.fin q h).max .zero).ceil.toU64 * c := by
  have hc' : (0 : ℚ) < c := by exact_mod_cast hc
  have hq : 0 ≤ q := by
    by_contra hneg
    push Not at hneg
    have hlt := mul_neg_of_neg_of_pos hneg hc'
    have hn0 : (0 : ℚ) ≤ n := by positivity
    linarith
  have hnot : ¬ (F64.fin q h).lt .zero = true := by
    simp only [F64.lt, F64.zero, decide_eq_true_eq, not_lt]
    exact hq
  have heq : (F64.fin q h).max .zero = .fin q h := by
    show (if (F64.fin q h).lt .zero then F64.zero else .fin q h) = _
    rw [if_neg hnot]
  have hceil : (n : ℚ) ≤ (⌈q⌉.toNat : ℕ) * c := by
    have h0 : (0 : ℤ) ≤ ⌈q⌉ := Int.ceil_nonneg hq
    have h1 : ((⌈q⌉.toNat : ℕ) : ℚ) = ⌈q⌉ := by exact_mod_cast Int.toNat_of_nonneg h0
    rw [h1]
    exact hn.trans (mul_le_mul_of_nonneg_right (Int.le_ceil q) hc'.le)
  rw [heq]
  show n ≤ min ⌊((⌈q⌉ : ℤ) : ℚ)⌋.toNat (2 ^ 64 - 1) * c
  rw [Int.floor_intCast]
  rcases le_total ⌈q⌉.toNat (2 ^ 64 - 1) with hle | hle
  · rw [min_eq_left hle]
    exact_mod_cast hceil
  · rw [min_eq_right hle]
    exact hmax

end F64

end Binary64
