import Mathlib.Algebra.Order.Ring.Int
import Mathlib.Data.List.Basic
import Mathlib.Tactic.Positivity
import Mathlib.Tactic.Ring

/-!
# Integers on the wire

Numbers as bytes, the most significant first: `natOf` and `intOf` read them without and with a sign, and `bigEndian`
writes them.  A number of the width is read back as it was written, any other one modulo the width.
-/

namespace Wire

abbrev Bytes := List UInt8

/-- The unsigned number the bytes spell. -/
def natOf (bs : Bytes) : Nat := bs.foldl (fun n b => 256 * n + b.toNat) 0

/-- The signed number of the same bytes, in two's complement. -/
def intOf (bs : Bytes) : Int := (natOf bs : Int).bmod (256 ^ bs.length)

/-- The last bytes of a number, `width` of them. -/
def bigEndian : (width : Nat) → Int → Bytes
  | 0, _ => []
  | width + 1, x => bigEndian width (x / 256) ++ [UInt8.ofNat (x % 256).toNat]

@[simp] theorem bigEndian_length (width : Nat) (x : Int) : (bigEndian width x).length = width := by
  induction width generalizing x with
  | zero => rfl
  | succ width ih =>
    unfold bigEndian
    rw [List.length_append, ih, List.length_singleton]

theorem natOf_concat (bs : Bytes) (b : UInt8) : natOf (bs ++ [b]) = 256 * natOf bs + b.toNat := by
  unfold natOf
  rw [List.foldl_append]
  rfl

/-- A remainder by a product, one factor after the other. -/
theorem emod_mul (x : Int) {n : Int} (hn : 0 < n) : x % (256 * n) = 256 * (x / 256 % n) + x % 256 := by
  have hlow := Int.emod_nonneg (x / 256) hn.ne'
  have hhigh := Int.emod_lt_of_pos (x / 256) hn
  have hsplit : x = (256 * (x / 256 % n) + x % 256) + 256 * n * (x / 256 / n) := by
    have h256 := Int.emod_add_mul_ediv x 256
    have hquot := Int.emod_add_mul_ediv (x / 256) n
    have hassoc : 256 * n * (x / 256 / n) = 256 * (n * (x / 256 / n)) := by ring
    omega
  conv_lhs => rw [hsplit]
  rw [Int.add_mul_emod_self_left, Int.emod_eq_of_lt (by omega) (by omega)]

theorem natOf_bigEndian (width : Nat) (x : Int) : (natOf (bigEndian width x) : Int) = x % 256 ^ width := by
  induction width generalizing x with
  | zero =>
    rw [pow_zero, Int.emod_one]
    rfl
  | succ width ih =>
    have hlast : ((UInt8.ofNat (x % 256).toNat).toNat : Int) = x % 256 := by
      rw [UInt8.toNat_ofNat']
      omega
    unfold bigEndian
    rw [natOf_concat]
    push_cast
    rw [hlast, ih, pow_succ, Int.mul_comm (256 ^ width), emod_mul x (by positivity)]

theorem natOf_bigEndian_of_lt {width n : Nat} (h : n < 256 ^ width) : natOf (bigEndian width n) = n := by
  have hread := natOf_bigEndian width n
  rw [Int.emod_eq_of_lt (by omega) (by exact_mod_cast h)] at hread
  omega

theorem intOf_bigEndian_bmod (width : Nat) (x : Int) : intOf (bigEndian width x) = x.bmod (256 ^ width) := by
  have hmod : (256 : Int) ^ width = ((256 ^ width : ℕ) : Int) := by push_cast; rfl
  unfold intOf
  rw [natOf_bigEndian, bigEndian_length, hmod, Int.emod_bmod]

theorem intOf_bigEndian {width : Nat} {x : Int} (hlow : -(256 ^ width / 2) ≤ x) (hhigh : x < (256 ^ width + 1) / 2) :
    intOf (bigEndian width x) = x := by
  have hmod : ((256 ^ width : ℕ) : Int) = 256 ^ width := by push_cast; rfl
  rw [intOf_bigEndian_bmod]
  refine Int.bmod_eq_of_le ?_ ?_
  · rwa [hmod]
  · rwa [hmod]

end Wire
