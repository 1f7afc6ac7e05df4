import Mathlib.Data.List.Forall2
import Quickhouse.Error
import Quickhouse.Lib.Csv
import Quickhouse.Lib.MachineInt
import Quickhouse.Lib.TimeFormat

/-!
# The text of a CSV part

A part file is a header row and one row for each row of the batches.  Most values are framed by `pushField`, which
quotes what needs it; a NULL is nothing at all, and a boolean is written as it is.
-/

namespace Quickhouse

open Csv MachineInt

/-! ### The delimiter -/

/-- The character as a debug text between such quotes shows it. -/
def escapeDebug (around c : Char) : List Char :=
  if c = around ∨ c = '\\' then ['\\', c]
  else if c = '\t' then ['\\', 't']
  else if c = '\r' then ['\\', 'r']
  else if c = '\n' then ['\\', 'n']
  else if c.toNat = 0 then ['\\', '0']
  else if c.toNat < 0x20 ∨ (0x7f ≤ c.toNat ∧ c.toNat ≤ 0x9f) ∨ c.toNat = 0xad then
    ['\\', 'u', Char.ofNat 123] ++ Nat.toDigits 16 c.toNat ++ [Char.ofNat 125]
  else [c]

def charDebug (b : UInt8) : String :=
  "'" ++ String.ofList (escapeDebug (Char.ofNat 39) (Char.ofNat b.toNat)) ++ "'"

def stringDebug (s : String) : String := "\"" ++ String.ofList (s.toList.flatMap (escapeDebug '"')) ++ "\""

/-- Refuses what a field cannot be framed with. -/
def checkDelimiter (delimiter : UInt8) : Except EtlError Unit :=
  if ¬ delimiter < 0x80 ∨ delimiter = quote ∨ delimiter = cr ∨ delimiter = lf then
    .error (.config ("Csv(delimiter=" ++ charDebug delimiter ++
      "): the delimiter must be one ASCII character other than a double quote, CR or LF"))
  else .ok ()

theorem delimits_of_check {d : UInt8} (h : checkDelimiter d = .ok ()) : Delimits d := by
  unfold checkDelimiter at h
  split at h
  case isTrue => cases h
  case isFalse hnot =>
    simp only [not_or] at hnot
    simp [Delimits, framing, hnot]

/-! ### Fields -/

/-- Quoted when it is empty or holds the delimiter, a quote, CR or LF. -/
def pushField (out value : Bytes) (delimiter : UInt8) : Bytes :=
  if value = [] then out ++ [quote, quote]
  else if ¬ value.any (fun b => b = delimiter || b = quote || b = lf || b = cr) then out ++ value
  else (value.foldl (fun out b => (if b = quote then out ++ [quote] else out) ++ [b]) (out ++ [quote])) ++ [quote]

/-- Items one after the other, a delimiter before each but the first. -/
def pushJoined {α ε : Type} (push : Bytes → α → Except ε Bytes) (delimiter : UInt8) :
    Bool → List α → Bytes → Except ε Bytes
  | _, [], out => .ok out
  | first, x :: xs, out => do
    let out ← push (if first then out else out ++ [delimiter]) x
    pushJoined push delimiter false xs out

def utf8 (s : String) : Bytes := s.toUTF8.data.toList

/-- The column names, as fields. -/
def pushHeader (out : Bytes) (names : List String) (delimiter : UInt8) : Except EtlError Bytes := do
  let out ← pushJoined (fun out (name : String) => .ok (pushField out (utf8 name) delimiter)) delimiter true names out
  return out ++ [lf]

/-! ### Values -/

def decimal (n : Nat) : Bytes := (Nat.toDigits 10 n).map fun c => c.toNat.toUInt8

/-- At least `width` digits. -/
def padded (width n : Nat) : Bytes := List.replicate (width - (decimal n).length) 48 ++ decimal n

inductive TimeUnit where
  | second
  | millisecond
  | microsecond
  | nanosecond
  deriving DecidableEq, Repr

namespace TimeUnit

def perSec : TimeUnit → Nat
  | .second => 1
  | .millisecond => 1000
  | .microsecond => 1000000
  | .nanosecond => 1000000000

def digits : TimeUnit → Nat
  | .second => 0
  | .millisecond => 3
  | .microsecond => 6
  | .nanosecond => 9

def debug : TimeUnit → String
  | .second => "Second"
  | .millisecond => "Millisecond"
  | .microsecond => "Microsecond"
  | .nanosecond => "Nanosecond"

end TimeUnit

/-- The libraries that render values: base64, and Arrow's display of the types it writes exactly. -/
structure Renderer (δ : Type) where
  base64 : Bytes → Bytes
  display : δ → Except String Bytes

def unixEpochDaysFromCe : Int := 719163

/-- Four digits, signed outside 0000 to 9999. -/
def writeYear (year : Int) : Bytes :=
  if 0 ≤ year ∧ year ≤ 9999 then padded 4 year.toNat
  else (if 0 ≤ year then 43 else 45) :: padded 4 year.natAbs

def writeMonthDay (date : Civil.Date) : Bytes := 45 :: padded 2 date.month ++ 45 :: padded 2 date.day

/-- `YYYY-MM-DD`, from the days since 1970. -/
def writeDate (days : Int) : Except EtlError Bytes :=
  let fromCe := days + unixEpochDaysFromCe
  if (-(2 ^ 31) ≤ fromCe ∧ fromCe < 2 ^ 31) ∧ TimeFormat.Represented days then
    .ok (writeYear (Civil.ofDay days).year ++ writeMonthDay (Civil.ofDay days))
  else .error (.decode ("date " ++ toString days ++ " days from 1970 is out of range"))

/-- ISO 8601, with a `Z` where the column has a time zone. -/
def writeTimestamp (value : Int) (unit : TimeUnit) (utc : Bool) : Except EtlError Bytes :=
  let secs := value / unit.perSec
  let frac := (value % unit.perSec).toNat
  let day := secs / 86400
  let ofDay := (secs % 86400).toNat
  if TimeFormat.Represented day then
    let date := Civil.ofDay day
    let time := 84 :: padded 2 (ofDay / 3600) ++ 58 :: padded 2 (ofDay / 60 % 60) ++ 58 :: padded 2 (ofDay % 60)
    let fraction := if 0 < unit.digits then 46 :: padded unit.digits frac else []
    .ok (writeYear date.year ++ writeMonthDay date ++ time ++ fraction ++ if utc then [90] else [])
  else .error (.decode ("timestamp " ++ toString value ++ " (" ++ unit.debug ++ ") is out of range"))

/-- The Arrow types by the way their values become text. -/
inductive Kind where
  | utf8
  | largeUtf8
  | binary
  | largeBinary
  | fixedBinary
  | boolean
  /-- Days since 1970. -/
  | date32
  /-- Milliseconds since 1970. -/
  | date64
  | timestamp (unit : TimeUnit) (utc : Bool)
  /-- Every value is NULL. -/
  | null
  /-- Lists, structs and maps, by the text of the type. -/
  | nested (shown : String)
  /-- Integers, floats, decimals, times, durations. -/
  | other
  deriving DecidableEq, Repr

/-- The values that are not NULL; `δ` are those Arrow displays itself. -/
def Kind.Value (δ : Type) : Kind → Type
  | .utf8 | .largeUtf8 | .binary | .largeBinary | .fixedBinary => Bytes
  | .boolean => Bool
  | .date32 | .date64 | .timestamp .. => Int
  | .null | .nested _ => Empty
  | .other => δ

structure Column (δ : Type) (rows : Nat) where
  name : String
  kind : Kind
  cell : Fin rows → Option (kind.Value δ)

/-- A record batch.  A plan without columns is refused before anything is read. -/
structure CsvBatch (δ : Type) where
  rows : Nat
  columns : List (Column δ rows)
  columns_ne_nil : columns ≠ []

def trueText : Bytes := [116, 114, 117, 101]
def falseText : Bytes := [102, 97, 108, 115, 101]

/-- The text of a value that is not NULL. -/
def Kind.render {δ : Type} (r : Renderer δ) : (kind : Kind) → kind.Value δ → Except EtlError Bytes
  | .utf8, s | .largeUtf8, s => .ok s
  | .binary, bytes | .largeBinary, bytes | .fixedBinary, bytes => .ok (r.base64 bytes)
  | .boolean, b => .ok (cond b trueText falseText)
  | .date32, days => writeDate days
  | .date64, ms =>
    let days := Int.ediv ms 86400000
    if -(2 ^ 31) ≤ days ∧ days < 2 ^ 31 then writeDate days
    else .error (.decode ("date " ++ toString (show Int from ms) ++ " ms is out of range"))
  | .timestamp unit utc, value => writeTimestamp value unit utc
  | .null, v | .nested _, v => nomatch v
  | .other, v => (r.display v).mapError fun e => .decode ("could not format a value: " ++ e)

namespace Column

variable {δ : Type} {rows : Nat}

/-- A nested type has no CSV text. -/
def check (c : Column δ rows) : Except EtlError Unit :=
  match c.kind with
  | .nested shown => .error (.config ("column '" ++ c.name ++ "' is a nested type (" ++ shown ++
      "), which has no CSV text; serialize it to a string (JSON, say) in the source"))
  | _ => .ok ()

/-- Row `i`'s field: nothing for a NULL.  A boolean's letters are not framed. -/
def push (r : Renderer δ) (c : Column δ rows) (i : Fin rows) (delimiter : UInt8) (out : Bytes) :
    Except EtlError Bytes :=
  match c.cell i with
  | none => .ok out
  | some v => do
    let text ← c.kind.render r v
    return if c.kind = .boolean then out ++ text else pushField out text delimiter

end Column

/-! ### The part -/

inductive CsvCompression where
  | none
  | gzip
  deriving DecidableEq, Repr

structure PartFormat where
  delimiter : UInt8
  header : Bool
  compression : CsvCompression := .none
  deriving DecidableEq, Repr

/-- The name of the run's `n`th part. -/
def PartFormat.fileName (format : PartFormat) (runId : String) (n : Nat) : String :=
  let digits := Nat.toDigits 10 n
  "part-" ++ runId ++ "-" ++ String.ofList (List.replicate (5 - digits.length) '0' ++ digits) ++
    match format.compression with
    | .none => ".csv"
    | .gzip => ".csv.gz"

/-- The table's column names. -/
structure TableNames where
  names : List String
  names_ne_nil : names ≠ []

/-- One part file being written: what the file holds and what waits in the buffer. -/
structure PartWriter where
  out : Bytes := []
  delimiter : UInt8
  rows : Nat := 0
  buf : Bytes := []
  deriving DecidableEq, Repr

/-- Formatted rows go to the file in pieces about this big. -/
def flushBytes : Nat := 2 ^ 20

namespace PartWriter

variable {δ : Type}

def flushBuf (w : PartWriter) : PartWriter := { w with out := w.out ++ w.buf, buf := [] }

def create (format : PartFormat) (table : TableNames) : Except EtlError PartWriter :=
  if format.header then do
    let buf ← pushHeader [] table.names format.delimiter
    return { delimiter := format.delimiter, buf : PartWriter }.flushBuf
  else .ok { delimiter := format.delimiter }

/-- The rows of the batch, the buffer handed on where it is full; and the bytes handed on. -/
def writeRows (r : Renderer δ) (batch : CsvBatch δ) :
    List (Fin batch.rows) → PartWriter → Nat → Except EtlError (PartWriter × Nat)
  | [], w, written => .ok (w, written)
  | i :: rest, w, written => do
    let buf ← pushJoined (fun out (c : Column δ batch.rows) => c.push r i w.delimiter out) w.delimiter true
      batch.columns w.buf
    let w := { w with buf := buf ++ [lf] }
    if flushBytes ≤ w.buf.length then writeRows r batch rest w.flushBuf (written + w.buf.length)
    else writeRows r batch rest w written

/-- The batch's rows, and the bytes of text they came to. -/
def write (r : Renderer δ) (w : PartWriter) (batch : CsvBatch δ) : Except EtlError (PartWriter × Nat) := do
  batch.columns.forM Column.check
  let (w, written) ← writeRows r batch (List.finRange batch.rows) w 0
  return ({ w.flushBuf with rows := w.rows + batch.rows }, written + w.buf.length)

/-- A part that is written batch by batch. -/
def writeAll (r : Renderer δ) : List (CsvBatch δ) → PartWriter → Except EtlError PartWriter
  | [], w => .ok w
  | batch :: rest, w => do
    let (w, _) ← w.write r batch
    writeAll r rest w

end PartWriter
end Quickhouse
