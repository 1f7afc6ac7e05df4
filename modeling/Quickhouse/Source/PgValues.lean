import Quickhouse.ColumnPlan
import Quickhouse.Decimal
import Quickhouse.Source.PgNumeric

/-!
# Field values on the wire

A field of a binary COPY stream, of a PostgreSQL type and for an Arrow column.  `appendValue` is the cell it becomes,
and whether it was made NULL for want of a place in the column's type.
-/

namespace Quickhouse

open MachineInt Slices Wire

namespace PgOid

def time : Nat := 1083
def numeric : Nat := 1700
def uuid : Nat := 2950
def jsonb : Nat := 3802

end PgOid

/-! ### The range of a ClickHouse date -/

def minDays : Int := -25567
def maxDays : Int := 120529
def minMicros : Int := minDays * 86400 * 1000000
def maxMicros : Int := (maxDays + 1) * 86400 * 1000000 - 1

def daysInRange (days : Int) : Bool := minDays ≤ days && days ≤ maxDays

def microsInRange (micros : Int) : Bool := minMicros ≤ micros && micros ≤ maxMicros

/-- Days between 1970-01-01 and 2000-01-01, the epochs of Arrow and of PostgreSQL. -/
def pgEpochDays : Int := 10957

def pgEpochMicros : Int := 946684800000000

/-! ### Coercions -/

/-- What a decoder did to a value that it could not keep. -/
inductive Coercion where
  | none
  /-- NULL: a date that the destination does not hold. -/
  | dateRange
  /-- NULL: too long for the column's decimal, or not a number. -/
  | decimalOverflow
  | boolCollapse
  deriving DecidableEq, Repr

/-! ### Columns -/

/-- A value of an Arrow array; a `Float32` is its bits. -/
inductive PgValue (F : Type) where
  | bool (b : Bool)
  | int (n : Int)
  | float32 (bits : Nat)
  | float64 (x : F)
  | text (s : String)
  | bytes (bs : Bytes)
  deriving DecidableEq, Repr

inductive ColBuilder where
  | bool | i16 | i32 | i64 | u32 | f32 | f64 | str | bin | date
  | ts (tz : Option String)
  | decimal128 (d : DecimalType)
  deriving DecidableEq, Repr

def ColBuilder.new : ArrowType → Except EtlError ColBuilder
  | .boolean => .ok .bool
  | .int16 => .ok .i16
  | .int32 => .ok .i32
  | .int64 => .ok .i64
  | .uint32 => .ok .u32
  | .float32 => .ok .f32
  | .float64 => .ok .f64
  | .utf8 => .ok .str
  | .binary => .ok .bin
  | .date32 => .ok .date
  | .timestamp tz => .ok (.ts tz)
  | .decimal128 d => .ok (.decimal128 d)
  | .int8 => .error (.internal "no column builder for Arrow type Int8")
  | .uint8 => .error (.internal "no column builder for Arrow type UInt8")
  | .uint16 => .error (.internal "no column builder for Arrow type UInt16")
  | .uint64 => .error (.internal "no column builder for Arrow type UInt64")

/-! ### Fixed-width fields -/

/-- The signed number in front; `what` describes the width. -/
def readInt (width : Nat) (what : String) (buf : Bytes) : Outcome EtlError Int :=
  if buf.length < width then
    .error (.err (.internal ("expected " ++ what ++ " field, got " ++ toString buf.length ++ " byte(s)")))
  else .ok (intOf (buf.take width))

def readI16 : Bytes → Outcome EtlError Int := readInt 2 "a 2-byte int2"
def readI32 : Bytes → Outcome EtlError Int := readInt 4 "a 4-byte int4"
def readI64 : Bytes → Outcome EtlError Int := readInt 8 "an 8-byte int8"

/-! ### Texts -/

/-- A number with at least `width` digits. -/
def zeroPadded (width n : Nat) : List Char := (toString n).toList.leftpad width '0'

def hexByte (b : UInt8) : List Char := [Nat.digitChar (b.toNat / 16), Nat.digitChar (b.toNat % 16)]

/-- The bytes of a uuid, with dashes after the 4th, the 6th, the 8th and the 10th. -/
def formatUuid (buf : Bytes) : String :=
  String.ofList (buf.zipIdx.flatMap fun (byte, i) => (if i ∈ [4, 6, 8, 10] then ['-'] else []) ++ hexByte byte)

/-- A time of day, `HH:MM:SS` and its microseconds where there are any. -/
def formatPgTime (micros : Int) : String :=
  let micros := micros.toNat
  let sub := micros % 1000000
  let totalSecs := micros / 1000000
  let time := zeroPadded 2 (totalSecs / 3600) ++ ':' :: zeroPadded 2 (totalSecs % 3600 / 60) ++
    ':' :: zeroPadded 2 (totalSecs % 60)
  String.ofList (if 0 < sub then time ++ '.' :: zeroPadded 6 sub else time)

/-! ### One value -/

/-- A range of `i32`, and of `i64`, where a sum past it stays at its end. -/
def saturatingAddI32 (a b : Int) : Int := max i32Min (min (a + b) i32Max)

/-- What the language's library decides: doubles, and what is wrong with a text that is not UTF-8. -/
structure PgRuntime (F : Type) extends Floats F where
  utf8Error : Bytes → String

section

variable {F : Type} (rt : PgRuntime F) (s : Sizes)

def decodeText (bytes : Bytes) : Outcome EtlError (PgValue F) :=
  match String.fromUTF8? ⟨bytes.toArray⟩ with
  | some text => .ok (.text text)
  | none => .error (.err (.decode ("invalid utf8: " ++ rt.utf8Error bytes)))

/-- A number, or NULL where it is out of range. -/
def rangedCell (inRange : Int → Bool) (n : Int) : Option (PgValue F) × Coercion :=
  if inRange n then (some (.int n), .none) else (none, .dateRange)

/-- A mantissa that fits, or NULL. -/
def decimalOrNull (m : Option Int) : Option Int × Coercion := (m, if m.isSome then .none else .decimalOverflow)

def decimalWireCell (precision : Nat) (scale : Int) : NumericWire → Option Int × Coercion
  | .nanOrInf | .magnitudeOverflow => decimalOrNull none
  | .value negative magnitude nativeScale =>
    decimalOrNull (decimalCell precision scale negative magnitude nativeScale)

/-- A field in a `Decimal128(precision, scale)` column. -/
def decimalField (precision : Nat) (scale : Int) (buf : Bytes) : Outcome EtlError (Option Int × Coercion) := do
  pure (decimalWireCell precision scale (← parseNumericWire s buf))

/-- The cell that a field's bytes add to the column. -/
def ColBuilder.appendValue (pgOid : Nat) (buf : Bytes) : ColBuilder → Outcome EtlError (Option (PgValue F) × Coercion)
  | .bool => pure (some (.bool ((buf.head?.map fun x => x != 0).getD false)), .none)
  | .i16 => do pure (some (.int (← readI16 buf)), .none)
  | .i32 => do pure (some (.int (← readI32 buf)), .none)
  | .i64 => do pure (some (.int (← readI64 buf)), .none)
  | .u32 => do pure (some (.int ((← readI32 buf) % 2 ^ 32)), .none)
  | .f32 => do pure (some (.float32 ((← readI32 buf) % 2 ^ 32).toNat), .none)
  | .f64 => do
    let v ← if pgOid = PgOid.numeric then decodeNumeric rt.toFloats s buf
      else do pure (rt.ofBits ((← readI64 buf) % 2 ^ 64).toNat)
    pure (some (.float64 v), .none)
  | .str => do
    let v ←
      if pgOid = PgOid.time then do pure (.text (formatPgTime (← readI64 buf)))
      else if pgOid = PgOid.uuid ∧ buf.length = 16 then pure (.text (formatUuid buf))
      -- a jsonb starts with its version
      else if pgOid = PgOid.jsonb ∧ buf ≠ [] then do decodeText rt (← slice buf 1 buf.length)
      else decodeText rt buf
    pure (some v, .none)
  | .bin => pure (some (.bytes buf), .none)
  | .date => do pure (rangedCell daysInRange (saturatingAddI32 (← readI32 buf) pgEpochDays))
  | .ts _ => do pure (rangedCell microsInRange (saturatingAdd (← readI64 buf) pgEpochMicros))
  | .decimal128 d => do
    let (m, coercion) ← decimalField s d.precision d.scale buf
    pure (m.map .int, coercion)

end

end Quickhouse
