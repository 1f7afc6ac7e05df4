import Mathlib.Data.List.Sort

/-!
# The keyset predicate

A chunk or a window of a read is bounded by its key: an exclusive lower bound, the cursor, and for a window an
inclusive upper one.  The bounds are texts, read back from the state table on a resume, so only a bare integer is
pasted into the statement.  `literalValue_integerLiteral`: what an integer was written as reads back as it.
-/

namespace Quickhouse

/-- `^-?[0-9]+$` -/
def isBareInteger (v : String) : Bool :=
  match v.toList with
  | '-' :: digits => !digits.isEmpty && digits.all Char.isDigit
  | digits => !digits.isEmpty && digits.all Char.isDigit

/-- A value that is no bare integer is replaced with the least key. -/
def integerLiteral (v : String) : String :=
  if isBareInteger v then v else "-9223372036854775808"

/-- The integer a literal stands for. -/
def literalValue (literal : String) : Int :=
  match literal.toList with
  | '-' :: digits => -(Nat.ofDigitChars 10 digits 0 : Nat)
  | digits => (Nat.ofDigitChars 10 digits 0 : Nat)

inductive KeysetBound where
  | upperBound (hi : String)
  | orderedLimit (limit : Nat)
  deriving DecidableEq, Repr

structure Keyset where
  colQuoted : String
  cursor : Option String
  bound : KeysetBound
  deriving DecidableEq, Repr

inductive KeysetCond where
  | above (literal : String)
  | upTo (literal : String)
  deriving DecidableEq, Repr

/-- The comparisons a keyset contributes: none for the first chunk of an ordered read. -/
def Keyset.conds (k : Keyset) : List KeysetCond :=
  let lower := k.cursor.map fun cursor => KeysetCond.above (integerLiteral cursor)
  let upper := match k.bound with
    | .upperBound hi => some (KeysetCond.upTo (integerLiteral hi))
    | .orderedLimit _ => none
  lower.toList ++ upper.toList

def KeysetCond.sql (colQuoted : String) : KeysetCond → String
  | .above literal => colQuoted ++ " > " ++ literal
  | .upTo literal => colQuoted ++ " <= " ++ literal

def keysetPredicate (k : Keyset) : Option String :=
  if k.conds = [] then none else some (" AND ".intercalate (k.conds.map (KeysetCond.sql k.colQuoted)))

def KeysetCond.holds (key : Int) : KeysetCond → Bool
  | .above literal => literalValue literal < key
  | .upTo literal => key ≤ literalValue literal

/-- The predicate holds of a key. -/
def Keyset.admits (k : Keyset) (key : Int) : Bool := k.conds.all (KeysetCond.holds key)

/-! ### Keys written and read back -/

private theorem toDigits_all (n : Nat) : (Nat.toDigits 10 n).all Char.isDigit = true :=
  List.all_eq_true.mpr fun _ hc => Nat.isDigit_of_mem_toDigits (by decide) (by decide) hc

private theorem toDigits_not_minus (n : Nat) (digits : List Char) : Nat.toDigits 10 n ≠ '-' :: digits := by
  intro h
  have hminus := List.all_eq_true.mp (toDigits_all n) '-' (by rw [h]; exact List.mem_cons_self)
  exact absurd hminus (by decide)

private theorem natural_literal {v : String} {n : Nat} (hv : v.toList = Nat.toDigits 10 n) :
    isBareInteger v = true ∧ literalValue v = n := by
  have hne : (Nat.toDigits 10 n).isEmpty = false := List.isEmpty_eq_false_iff.mpr Nat.toDigits_ne_nil
  unfold isBareInteger literalValue
  rw [hv]
  constructor
  · split
    · rename_i digits h
      exact absurd h (toDigits_not_minus n digits)
    · rw [hne, toDigits_all]
      rfl
  · split
    · rename_i digits h
      exact absurd h (toDigits_not_minus n digits)
    · rw [Nat.ofDigitChars_ten_toDigits]

private theorem negative_literal {v : String} {n : Nat} (hv : v.toList = '-' :: Nat.toDigits 10 n) :
    isBareInteger v = true ∧ literalValue v = -n := by
  have hne : (Nat.toDigits 10 n).isEmpty = false := List.isEmpty_eq_false_iff.mpr Nat.toDigits_ne_nil
  unfold isBareInteger literalValue
  rw [hv]
  constructor
  · show (!(Nat.toDigits 10 n).isEmpty && (Nat.toDigits 10 n).all Char.isDigit) = true
    rw [hne, toDigits_all]
    rfl
  · show -(Nat.ofDigitChars 10 (Nat.toDigits 10 n) 0 : Int) = -n
    rw [Nat.ofDigitChars_ten_toDigits]

private theorem toString_literal (k : Int) : isBareInteger (toString k) = true ∧ literalValue (toString k) = k := by
  cases k with
  | ofNat n => exact natural_literal Nat.toList_repr
  | negSucc n =>
    have hv : (toString (Int.negSucc n)).toList = '-' :: Nat.toDigits 10 (n + 1) := by
      show ("-" ++ (n + 1).repr).toList = _
      rw [String.toList_append, Nat.toList_repr]
      rfl
    exact negative_literal hv

theorem literalValue_toString (k : Int) : literalValue (toString k) = k := (toString_literal k).2

theorem literalValue_integerLiteral (k : Int) : literalValue (integerLiteral (toString k)) = k := by
  unfold integerLiteral
  rw [if_pos (toString_literal k).1, literalValue_toString]

end Quickhouse
