import Quickhouse.Error
import Quickhouse.Lib.MachineInt
import Quickhouse.Lib.Slices
import Quickhouse.Lib.Wire

/-!
# NUMERIC on the wire

A header of four 16-bit numbers (the count of the groups, the weight of the first, the sign, the display scale) and
the groups, each a digit in base 10000.  `parseNumericWire` reads it exactly, into a 128-bit mantissa and a scale,
and `decodeNumeric` to the nearest double; `Sizes` says what a negative count is as a size.
-/

namespace Quickhouse

open MachineInt Slices Wire

/-- The language's doubles. -/
structure Floats (F : Type) where
  nan : F
  infinity : F
  negInfinity : F
  ofBits : Nat → F
  ofNat : Nat → F
  /-- The literals `1e0`, `1e1`, … -/
  tenTo : Nat → F
  mul : F → F → F
  div : F → F → F
  neg : F → F
  parse : String → Except String F

inductive NumericWire where
  | value (negative : Bool) (magnitude nativeScale : Int)
  /-- The integer groups alone do not fit. -/
  | magnitudeOverflow
  | nanOrInf
  deriving DecidableEq, Repr

/-- The two bytes from `i` on. -/
def word (buf : Bytes) (i : Nat) : Outcome EtlError Bytes := do
  let high ← index buf i
  let low ← index buf (i + 1)
  pure [high, low]

theorem word_of_drop {buf : Bytes} {i : Nat} {a b : UInt8} {rest : Bytes} (h : buf.drop i = a :: b :: rest) :
    word buf i = .ok [a, b] := by
  have hfirst : buf[i]? = some a := by
    have := congrArg (·[0]?) h
    simpa [List.getElem?_drop] using this
  have hsecond : buf[i + 1]? = some b := by
    have := congrArg (·[1]?) h
    simpa [List.getElem?_drop] using this
  unfold word index
  rw [hfirst, hsecond]
  rfl

theorem word_past {buf : Bytes} {i : Nat} (h : buf.length ≤ i) : word buf i = .error .panic := by
  unfold word index
  rw [List.getElem?_eq_none h]
  rfl

/-- The count of the groups, the weight and the sign. -/
def numericHeader (buf : Bytes) : Outcome EtlError (Int × Int × Nat) := do
  if buf.length < 8 then
    throw (.err (.internal ("truncated numeric header: expected at least 8 bytes, got " ++ toString buf.length)))
  let ndigits ← word buf 0
  let weight ← word buf 2
  let sign ← word buf 4
  pure (intOf ndigits, intOf weight, natOf sign)

/-- The count of the groups as a size, and where they end. -/
def numericExtent (s : Sizes) (ndigits : Int) (buf : Bytes) : Outcome EtlError (Nat × Nat) := do
  let ndigits ← s.ofInt ndigits
  let finish ← s.fit (8 + ndigits * 2)
  if buf.length < finish then
    throw (.err (.internal ("truncated numeric digits: expected " ++ toString finish ++ " more byte(s), got " ++
      toString buf.length)))
  pure (ndigits, finish)

/-- One more digit of a base. -/
def pushGroup (base magnitude digit : Int) : Option Int :=
  (checkedI128 (magnitude * base)).bind fun m => checkedI128 (m + digit)

/-- The decimal digits of a group that still fit, and their count. -/
def pushPlaces (digit : Int) : List Int → Int → Nat → Int × Nat
  | [], magnitude, kept => (magnitude, kept)
  | place :: places, magnitude, kept =>
    match pushGroup 10 magnitude ((digit.tdiv place).tmod 10) with
    | some m => pushPlaces digit places m (kept + 1)
    | none => (magnitude, kept)

/-- `left` more groups, from the `i`-th on. -/
def parseGroups (buf : Bytes) (weight : Int) (negative : Bool) (nativeScale : Int) :
    (left i : Nat) → Int → Outcome EtlError NumericWire
  | 0, _, magnitude => pure (.value negative magnitude nativeScale)
  | left + 1, i, magnitude => do
    let digit ← word buf (8 + i * 2)
    match pushGroup 10000 magnitude (intOf digit) with
    | some m => parseGroups buf weight negative nativeScale left (i + 1) m
    | none =>
      if asI32 i ≤ weight then pure .magnitudeOverflow
      else
        -- of a group of the fraction, the decimal digits that fit are kept
        let (magnitude, kept) := pushPlaces (intOf digit) [1000, 100, 10, 1] magnitude 0
        pure (.value negative magnitude (asI32 ((asI32 i - 1 - weight) * 4 + kept)))

def parseNumericWire (s : Sizes) (buf : Bytes) : Outcome EtlError NumericWire := do
  let (ndigits, weight, sign) ← numericHeader buf
  if sign = 0xC000 ∨ sign = 0xD000 ∨ sign = 0xF000 then pure .nanOrInf
  else
    let (ndigits, _) ← numericExtent s ndigits buf
    parseGroups buf weight (sign = 0x4000) (asI32 ((asI32 ndigits - 1 - weight) * 4)) ndigits 0 0

/-- A finite value is read from its groups, once their count is a size. -/
theorem parseNumericWire_of_header {s : Sizes} {buf : Bytes} {count weight : Int} {sign : Nat}
    (h : numericHeader buf = .ok (count, weight, sign)) (hfinite : sign ∉ [0xC000, 0xD000, 0xF000]) :
    parseNumericWire s buf = (numericExtent s count buf).bind fun extent =>
      parseGroups buf weight (sign = 0x4000) (asI32 ((asI32 extent.1 - 1 - weight) * 4)) extent.1 0 0 := by
  unfold parseNumericWire
  rw [h]
  simp only [List.mem_cons, List.not_mem_nil, or_false] at hfinite
  simp only [bind, Except.bind]
  rw [if_neg hfinite]

/-! ### To a double -/

section

variable {F : Type} (floats : Floats F)

def checkedU64 (n : Nat) : Option Nat := if n < 2 ^ 64 then some n else none

/-- Without its trailing zeros, each of them in the exponent. -/
def stripZeros (m : Nat) (exp10 : Int) : Nat × Int :=
  if m ≠ 0 ∧ m % 10 = 0 then stripZeros (m / 10) (exp10 + 1) else (m, exp10)
termination_by m
decreasing_by omega

/-- The groups as one integer and a power of ten, when both are exact in a double. -/
def exactGroups (groups : List Nat) (lastExp10 : Int) : Option (Nat × Int) := do
  let m ← groups.foldlM (fun m digit => (checkedU64 (m * 10000)).bind fun m => checkedU64 (m + digit)) 0
  let (m, exp10) := stripZeros m lastExp10
  if m ≤ 2 ^ 53 ∧ exp10.natAbs ≤ 22 then some (m, exp10) else none

def numericDigitsToF64 (digits : Bytes) (weight : Int) : Outcome EtlError F := do
  let ndigits := digits.length / 2
  if ndigits = 0 then pure (floats.ofNat 0)
  else
    let groups ← (List.range ndigits).mapM fun i => (word digits (2 * i)).map natOf
    let lastExp10 := asI32 (4 * (weight - (asI32 ndigits - 1)))
    match exactGroups groups lastExp10 with
    | some (m, exp10) =>
      let scale ← index ((List.range 23).map floats.tenTo) exp10.natAbs
      pure (if exp10 < 0 then floats.div (floats.ofNat m) scale else floats.mul (floats.ofNat m) scale)
    | none =>
      let text := String.ofList (groups.flatMap fun digit => (toString digit).toList.leftpad 4 '0') ++ "e" ++ toString lastExp10
      match floats.parse text with
      | .ok v => pure v
      | .error e => throw (.err (.internal ("numeric digits '" ++ text ++ "' did not parse as f64: " ++ e)))

def decodeNumeric (s : Sizes) (buf : Bytes) : Outcome EtlError F := do
  let (ndigits, weight, sign) ← numericHeader buf
  if sign = 0xC000 then pure floats.nan
  else if sign = 0xD000 then pure floats.infinity
  else if sign = 0xF000 then pure floats.negInfinity
  else
    let (_, finish) ← numericExtent s ndigits buf
    let digits ← slice buf 8 finish
    let magnitude ← numericDigitsToF64 floats digits weight
    pure (if sign = 0x4000 then floats.neg magnitude else magnitude)

end

end Quickhouse
