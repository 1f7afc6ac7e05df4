import Mathlib.Algebra.Group.Int.Defs
import Mathlib.Algebra.Group.Nat.Defs
import Mathlib.Data.List.Basic

/-!
# Slices, sizes and panics

A computation over a byte buffer ends with a value, with an error of its own, or with a panic: an index or a slice
out of bounds.  A size is a `usize`; a size that comes from a signed number, or from a sum, can be wrong without a
panic, and `Sizes.checked` is the same computation with each such place made to show (`Agrees`: it differs in nothing
else).
-/

namespace Slices

/-- How a computation ends without a value. -/
inductive Stop (ε : Type) where
  | err (e : ε)
  | panic
  /-- A loop that does not end. -/
  | hangs
  deriving DecidableEq, Repr

abbrev Outcome (ε α : Type) := Except (Stop ε) α

/-- What becomes of a negative number taken as a size, and of a sum of sizes past `usize`: in the program it wraps;
`checked` stops there. -/
inductive Sizes where
  | wrapping
  | checked
  deriving DecidableEq, Repr

variable {ε α β : Type}

/-- A signed number cast to `usize`. -/
def Sizes.ofInt : Sizes → Int → Outcome ε Nat
  | .wrapping, x => .ok (x % 2 ^ 64).toNat
  | .checked, x => if 0 ≤ x ∧ x < 2 ^ 64 then .ok x.toNat else .error .panic

/-- The `usize` of an exact sum or product. -/
def Sizes.fit : Sizes → Nat → Outcome ε Nat
  | .wrapping, n => .ok (n % 2 ^ 64)
  | .checked, n => if n < 2 ^ 64 then .ok n else .error .panic

def index (xs : List α) (i : Nat) : Outcome ε α :=
  match xs[i]? with
  | some x => .ok x
  | none => .error .panic

def slice (xs : List α) (start finish : Nat) : Outcome ε (List α) :=
  if start ≤ finish ∧ finish ≤ xs.length then .ok ((xs.drop start).take (finish - start)) else .error .panic

/-- It ended with a value or with an error. -/
def Ends (x : Outcome ε α) : Prop := x ≠ .error .panic ∧ x ≠ .error .hangs

theorem index_eq {xs : List α} {i : Nat} (h : i < xs.length) : (index xs i : Outcome ε α) = .ok xs[i] := by
  unfold index
  rw [List.getElem?_eq_getElem h]

theorem slice_eq {xs : List α} {start finish : Nat} (h : start ≤ finish) (hlen : finish ≤ xs.length) :
    (slice xs start finish : Outcome ε (List α)) = .ok ((xs.drop start).take (finish - start)) := if_pos ⟨h, hlen⟩

theorem Sizes.ofInt_eq (s : Sizes) {x : Int} (h : 0 ≤ x) (hx : x < 2 ^ 64) :
    (s.ofInt x : Outcome ε Nat) = .ok x.toNat := by
  cases s with
  | wrapping =>
    show Except.ok (x % 2 ^ 64).toNat = _
    rw [Int.emod_eq_of_lt h hx]
  | checked => exact if_pos ⟨h, hx⟩

theorem Sizes.fit_eq (s : Sizes) {n : Nat} (h : n < 2 ^ 64) : (s.fit n : Outcome ε Nat) = .ok n := by
  cases s with
  | wrapping =>
    show Except.ok (n % 2 ^ 64) = _
    rw [Nat.mod_eq_of_lt h]
  | checked => exact if_pos h

theorem Sizes.fit_le {s : Sizes} {n m : Nat} (h : (s.fit n : Outcome ε Nat) = .ok m) : m ≤ n := by
  cases s with
  | wrapping =>
    cases h
    exact Nat.mod_le _ _
  | checked =>
    unfold Sizes.fit at h
    dsimp only at h
    split_ifs at h
    cases h
    exact Nat.le_refl _

theorem Sizes.checked_ofInt_neg {x : Int} (h : x < 0) : (Sizes.checked.ofInt x : Outcome ε Nat) = .error .panic :=
  if_neg (by omega)

/-! ### The checked computation is the program's -/

/-- The first is the second, unless it stopped where a size was wrong. -/
def Agrees (checked program : Outcome ε α) : Prop := checked = .error .panic ∨ program = checked

theorem Agrees.rfl {x : Outcome ε α} : Agrees x x := .inr (Eq.refl _)

theorem Agrees.bind {x y : Outcome ε α} {f g : α → Outcome ε β} (h : Agrees x y) (hf : ∀ a, Agrees (f a) (g a)) :
    Agrees (x >>= f) (y >>= g) := by
  rcases h with rfl | rfl
  · exact .inl (Eq.refl _)
  · cases y with
    | error e => exact .inr (Eq.refl _)
    | ok a => exact hf a

theorem Sizes.agrees_ofInt (s : Sizes) (x : Int) : Agrees (Sizes.checked.ofInt x : Outcome ε Nat) (s.ofInt x) := by
  by_cases h : 0 ≤ x ∧ x < 2 ^ 64
  · rw [Sizes.ofInt_eq _ h.1 h.2, Sizes.ofInt_eq _ h.1 h.2]
    exact .rfl
  · exact .inl (if_neg h)

theorem Sizes.agrees_fit (s : Sizes) (n : Nat) : Agrees (Sizes.checked.fit n : Outcome ε Nat) (s.fit n) := by
  by_cases h : n < 2 ^ 64
  · rw [Sizes.fit_eq _ h, Sizes.fit_eq _ h]
    exact .rfl
  · exact .inl (if_neg h)

theorem Agrees.map {x y : Outcome ε α} (f : α → β) (h : Agrees x y) : Agrees (x.map f) (y.map f) := by
  rcases h with rfl | rfl
  · exact .inl (Eq.refl _)
  · exact .rfl

theorem Agrees.ends {checked program : Outcome ε α} (h : Agrees checked program) (hc : Ends checked) : Ends program := by
  rcases h with h | h
  · exact absurd h hc.1
  · rw [h]
    exact hc

/-! ### What ends -/

theorem ends_ok (a : α) : Ends (.ok a : Outcome ε α) := ⟨nofun, nofun⟩

theorem ends_err (e : ε) : Ends (.error (.err e) : Outcome ε α) := ⟨nofun, nofun⟩

theorem Ends.bind {x : Outcome ε α} {f : α → Outcome ε β} (hx : Ends x) (hf : ∀ a, x = .ok a → Ends (f a)) :
    Ends (x >>= f) := by
  cases x with
  | ok a => exact hf a (Eq.refl _)
  | error stop =>
    cases stop with
    | err e => exact ends_err e
    | panic => exact absurd (Eq.refl _) hx.1
    | hangs => exact absurd (Eq.refl _) hx.2

end Slices
