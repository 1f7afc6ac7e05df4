import Mathlib.Order.Lattice
import Mathlib.Tactic.Linarith

/-!
# Machine integers

A machine integer is an `Int` or a `Nat`; the operations say what happens at the ends of the range: a cast
wraps, a checked operation refuses, a saturating one clamps.
-/

namespace MachineInt

def i64Min : Int := -2 ^ 63
def i64Max : Int := 2 ^ 63 - 1
def u64Max : Nat := 2 ^ 64 - 1

def InI64 (x : Int) : Prop := i64Min ≤ x ∧ x ≤ i64Max

instance (x : Int) : Decidable (InI64 x) := inferInstanceAs (Decidable (_ ∧ _))

/-- The cast of an unsigned number to `i64`: it wraps from `2 ^ 63` on. -/
def asI64 (n : Nat) : Int := (n : Int).bmod (2 ^ 64)

/-- The value of the range closest to `x`. -/
def clampI64 (x : Int) : Int := max i64Min (min x i64Max)

def saturatingAdd (a b : Int) : Int := clampI64 (a + b)
def saturatingSub (a b : Int) : Int := clampI64 (a - b)
def saturatingMul (a b : Int) : Int := clampI64 (a * b)

def checkedAdd (a b : Int) : Option Int := if InI64 (a + b) then some (a + b) else none
def checkedMul (a b : Int) : Option Int := if InI64 (a * b) then some (a * b) else none

def i32Min : Int := -2 ^ 31
def i32Max : Int := 2 ^ 31 - 1
def i128Min : Int := -2 ^ 127
def i128Max : Int := 2 ^ 127 - 1

def InI32 (x : Int) : Prop := i32Min ≤ x ∧ x ≤ i32Max
def InI128 (x : Int) : Prop := i128Min ≤ x ∧ x ≤ i128Max

instance (x : Int) : Decidable (InI32 x) := inferInstanceAs (Decidable (_ ∧ _))
instance (x : Int) : Decidable (InI128 x) := inferInstanceAs (Decidable (_ ∧ _))

/-- What a checked operation on `i32` makes of its exact result. -/
def checkedI32 (x : Int) : Option Int := if InI32 x then some x else none

def checkedI128 (x : Int) : Option Int := if InI128 x then some x else none

/-- What an unchecked operation on `i32` makes of its exact result. -/
def asI32 (x : Int) : Int := x.bmod (2 ^ 32)

def asI128 (x : Int) : Int := x.bmod (2 ^ 128)

theorem asI64_eq {n : Nat} (h : n < 2 ^ 63) : asI64 n = n := by
  unfold asI64
  exact Int.bmod_eq_of_le (by omega) (by omega)

theorem asI32_eq {x : Int} (h : InI32 x) : asI32 x = x := by
  unfold InI32 i32Min i32Max at h
  unfold asI32
  exact Int.bmod_eq_of_le (by omega) (by omega)

theorem asI128_eq {x : Int} (h : InI128 x) : asI128 x = x := by
  unfold InI128 i128Min i128Max at h
  unfold asI128
  exact Int.bmod_eq_of_le (by omega) (by omega)

theorem checkedI32_eq {x : Int} (h : InI32 x) : checkedI32 x = some x := if_pos h

theorem checkedI128_eq {x : Int} (h : InI128 x) : checkedI128 x = some x := if_pos h

theorem clampI64_mem (x : Int) : InI64 (clampI64 x) := by
  unfold InI64 clampI64 i64Min i64Max
  omega

theorem clampI64_eq {x : Int} (h : InI64 x) : clampI64 x = x := by
  unfold InI64 at h
  unfold clampI64
  omega

theorem saturatingSub_le {a b : Int} (ha : InI64 a) (hb : 0 ≤ b) : saturatingSub a b ≤ a := by
  unfold InI64 at ha
  unfold saturatingSub clampI64
  omega

end MachineInt
