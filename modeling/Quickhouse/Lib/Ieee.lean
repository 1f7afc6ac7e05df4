import Mathlib.Algebra.Order.Field.Power
import Mathlib.Tactic.FieldSimp
import Mathlib.Tactic.NormNum
import Mathlib.Tactic.Ring

/-!
# Floating-point numbers by their bits

A number is a sign, a biased exponent and a fraction; `value` says what it stands for.  A single made a double keeps its
value (`widen_value`).
-/

namespace Ieee

/-- A number with `e` bits of exponent and `m` of fraction. -/
structure Bits (e m : Nat) where
  negative : Bool
  exponent : Nat
  fraction : Nat
  exponent_lt : exponent < 2 ^ e
  fraction_lt : fraction < 2 ^ m
  deriving DecidableEq, Repr

abbrev Single := Bits 8 23
abbrev Double := Bits 11 52

inductive Value where
  | nan
  | infinite (negative : Bool)
  | finite (negative : Bool) (magnitude : ℚ)

namespace Bits

variable {e m : Nat}

/-- The bits as one number, the sign first. -/
def toNat (x : Bits e m) : Nat := (x.negative.toNat * 2 ^ e + x.exponent) * 2 ^ m + x.fraction

def bias (e : Nat) : Int := 2 ^ (e - 1) - 1

def value (x : Bits e m) : Value :=
  if x.exponent = 2 ^ e - 1 then if x.fraction = 0 then .infinite x.negative else .nan
  else if x.exponent = 0 then .finite x.negative (x.fraction * 2 ^ (1 - bias e - m : Int))
  else .finite x.negative ((2 ^ m + x.fraction) * 2 ^ (x.exponent - bias e - m : Int))

theorem toNat_lt (x : Bits e m) : x.toNat < 2 * 2 ^ e * 2 ^ m := by
  have hsign : x.negative.toNat ≤ 1 := Bool.toNat_le _
  have hexponent := x.exponent_lt
  have hfraction := x.fraction_lt
  unfold toNat
  have hhigh : x.negative.toNat * 2 ^ e + x.exponent + 1 ≤ 2 * 2 ^ e := by
    have := Nat.mul_le_mul_right (2 ^ e) hsign
    omega
  have := Nat.mul_le_mul_right (2 ^ m) hhigh
  rw [Nat.add_mul, Nat.one_mul] at this
  omega

end Bits

/-! ### From single to double -/

/-- The bits of a NaN. -/
abbrev Nan := { x : Double // x.value = .nan }

theorem log2_fraction_lt {f : Nat} (h : f < 2 ^ 23) : f.log2 < 23 := by
  by_cases hzero : f = 0
  · rw [hzero]
    decide
  · exact (Nat.log2_lt hzero).mpr h

/-- The fraction below its leading bit, at the head of a double's. -/
theorem shifted_lt {f : Nat} (h : f < 2 ^ 23) : (f - 2 ^ f.log2) * 2 ^ (52 - f.log2) < 2 ^ 52 := by
  have hlog := log2_fraction_lt h
  have hself : f < 2 ^ (f.log2 + 1) := Nat.lt_log2_self
  have hlow : f - 2 ^ f.log2 < 2 ^ f.log2 := by
    rw [pow_succ] at hself
    have := Nat.two_pow_pos f.log2
    omega
  calc (f - 2 ^ f.log2) * 2 ^ (52 - f.log2) < 2 ^ f.log2 * 2 ^ (52 - f.log2) :=
        Nat.mul_lt_mul_of_pos_right hlow (Nat.two_pow_pos _)
    _ = 2 ^ 52 := by rw [← pow_add]; congr 1; omega

/-- A single as a double; `nan` is what becomes of a NaN. -/
def widen (nan : Single → Nan) (x : Single) : Double :=
  if x.exponent = 255 then if x.fraction = 0 then ⟨x.negative, 2047, 0, by decide, by decide⟩ else nan x
  else if x.exponent = 0 then
    if x.fraction = 0 then ⟨x.negative, 0, 0, by decide, by decide⟩
    else
      -- the leading bit of the fraction becomes the hidden one
      ⟨x.negative, x.fraction.log2 + 874, (x.fraction - 2 ^ x.fraction.log2) * 2 ^ (52 - x.fraction.log2),
        by have := log2_fraction_lt x.fraction_lt; omega, shifted_lt x.fraction_lt⟩
  else
    ⟨x.negative, x.exponent + 896, x.fraction * 2 ^ 29, by have := x.exponent_lt; omega,
      by have := x.fraction_lt; omega⟩

theorem subnormal_magnitude {f : Nat} (hzero : f ≠ 0) (h : f < 2 ^ 23) :
    ((2 ^ 52 + ((f - 2 ^ f.log2) * 2 ^ (52 - f.log2) : Nat) : ℚ)) * 2 ^ (((f.log2 + 874 : Nat) : Int) - 1023 - 52) =
      f * 2 ^ (-149 : Int) := by
  have hlog := log2_fraction_lt h
  have hself : 2 ^ f.log2 ≤ f := Nat.log2_self_le hzero
  have hsum : 2 ^ 52 + (f - 2 ^ f.log2) * 2 ^ (52 - f.log2) = f * 2 ^ (52 - f.log2) := by
    have htop : 2 ^ f.log2 * 2 ^ (52 - f.log2) = 2 ^ 52 := by
      rw [← pow_add]
      congr 1
      omega
    rw [← htop, ← Nat.add_mul, Nat.add_sub_cancel' hself]
  have hcast : (2 ^ 52 + ((f - 2 ^ f.log2) * 2 ^ (52 - f.log2) : Nat) : ℚ) = f * 2 ^ (52 - f.log2) := by
    exact_mod_cast hsum
  have hexponent : ((52 - f.log2 : Nat) : Int) + (((f.log2 + 874 : Nat) : Int) - 1023 - 52) = -149 := by omega
  rw [hcast, mul_assoc, ← zpow_natCast, ← zpow_add₀ two_ne_zero, hexponent]

/-- The value stays the same. -/
theorem widen_value (nan : Single → Nan) (x : Single) : (widen nan x).value = x.value := by
  have hexponent := x.exponent_lt
  have hsingle : Bits.bias 8 = 127 := by decide
  have hdouble : Bits.bias 11 = 1023 := by decide
  unfold widen Bits.value
  simp only [hsingle, hdouble]
  by_cases hmax : x.exponent = 255
  · rw [if_pos hmax, if_pos (show x.exponent = 2 ^ 8 - 1 from hmax)]
    by_cases hfraction : x.fraction = 0
    · rw [if_pos hfraction, if_pos hfraction]
      rfl
    · rw [if_neg hfraction, if_neg hfraction]
      exact (nan x).2
  · rw [if_neg hmax, if_neg (show ¬x.exponent = 2 ^ 8 - 1 from hmax)]
    by_cases hsub : x.exponent = 0
    · rw [if_pos hsub, if_pos hsub]
      by_cases hfraction : x.fraction = 0
      · rw [if_pos hfraction, hfraction]
        simp
      · rw [if_neg hfraction]
        dsimp only
        have hlog := log2_fraction_lt x.fraction_lt
        rw [if_neg (by omega), if_neg (by omega)]
        refine congrArg (Value.finite x.negative) ((subnormal_magnitude hfraction x.fraction_lt).trans ?_)
        norm_num
    · rw [if_neg hsub, if_neg hsub]
      dsimp only
      rw [if_neg (by omega), if_neg (by omega)]
      refine congrArg (Value.finite x.negative) ?_
      have hshift : ((x.exponent + 896 : Nat) : Int) - 1023 - (52 : Nat) = ((x.exponent : Int) - 127 - (23 : Nat)) + (-29) := by
        push_cast
        ring
      rw [hshift, zpow_add₀ two_ne_zero]
      push_cast
      generalize (2 : ℚ) ^ ((x.exponent : Int) - 127 - 23) = scale
      norm_num
      ring

end Ieee
