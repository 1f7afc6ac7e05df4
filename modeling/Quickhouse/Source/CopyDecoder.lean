import Quickhouse.NullGuard
import Quickhouse.Source.PgValues

/-!
# The decoder of a binary COPY stream

The stream comes in chunks that end anywhere; the decoder keeps what it cannot decode yet and goes on with the next
chunk.  A tuple is read twice: once for the spans of its fields, and once, when it is all there, into the columns.
-/

namespace Quickhouse

open Slices Wire

/-- A column read over COPY, of a PostgreSQL type. -/
structure CopyColumn extends ColumnType where
  typeId : Nat
  deriving DecidableEq, Repr

/-! ### Coercions, by column -/

/-- How many values were coerced, by column and kind. -/
structure CoercionTally where
  names : List String
  counts : List (List Nat)
  deriving DecidableEq, Repr

namespace CoercionTally

def slots : List WarningKind := [.coercedDate, .coercedDecimal, .collapsedBool, .coercedScalar]

def slot (kind : WarningKind) : Option Nat := slots.findIdx? (· = kind)

def new (names : List String) : CoercionTally where
  names := names
  counts := names.map fun _ => List.replicate slots.length 0

/-- A column out of range is ignored. -/
def record (t : CoercionTally) (col : Nat) (kind : WarningKind) : CoercionTally :=
  match slot kind with
  | some slot => { t with counts := t.counts.modify col fun row => row.modify slot (· + 1) }
  | none => t

def recordCoercion (t : CoercionTally) (col : Nat) : Coercion → CoercionTally
  | .none => t
  | .dateRange => t.record col .coercedDate
  | .decimalOverflow => t.record col .coercedDecimal
  | .boolCollapse => t.record col .collapsedBool

/-- The counts above zero, by column and then by kind. -/
def entries (t : CoercionTally) : List (WarningKind × String × Nat) :=
  t.counts.zipIdx.flatMap fun (row, i) =>
    (slots.zip row).filterMap fun (kind, n) => if 0 < n then some (kind, (t.names[i]?).getD "", n) else none

end CoercionTally

/-! ### Batches -/

/-- The rows of columns of one length. -/
def rowsOfColumns {V : Type} (count : Nat) (columns : List (List (Option V))) : List (List (Option V)) :=
  (List.range count).map fun i => columns.map fun column => (column[i]?).join

def recordBatch {V : Type} (fields : List Field) (columns : List (List (Option V))) : Except EtlError (Batch V) :=
  let invalid (message : String) : EtlError := .arrow ("Invalid argument error: " ++ message)
  match columns with
  | [] => .error (invalid "must either specify a row count or at least one column")
  | first :: _ =>
    if columns.any fun column => column.length ≠ first.length then
      .error (invalid "all columns in a record batch must have the same length")
    else (Batch.tryNew fields (rowsOfColumns first.length columns)).mapError invalid

/-! ### The decoder -/

/-- A builder, with the values appended since the last batch. -/
structure ArrayBuilder (F : Type) where
  kind : ColBuilder
  cells : List (Option (PgValue F))
  deriving DecidableEq, Repr

/-- What a value takes of the buffer that a text or a binary array has for its values. -/
def PgValue.bufferBytes {F : Type} : PgValue F → Nat
  | .text s => s.utf8ByteSize
  | .bytes bs => bs.length
  | _ => 0

def columnBytes {F : Type} (cells : List (Option (PgValue F))) : Nat :=
  (cells.map fun cell => (cell.map PgValue.bufferBytes).getD 0).sum

/-- The offsets into that buffer are `i32`. -/
def ArrayBuilder.Fits {F : Type} (b : ArrayBuilder F) : Prop := (columnBytes b.cells : Int) ≤ MachineInt.i32Max

instance {F : Type} (b : ArrayBuilder F) : Decidable b.Fits := inferInstanceAs (Decidable (_ ≤ _))

def ArrayBuilder.push {F : Type} (b : ArrayBuilder F) (cell : Option (PgValue F)) : ArrayBuilder F :=
  { b with cells := b.cells ++ [cell] }

/-- A value whose end is past the last offset is not refused: arrow's builders expect one that fits. -/
def ArrayBuilder.append {F : Type} (b : ArrayBuilder F) (cell : Option (PgValue F)) : Outcome EtlError (ArrayBuilder F) :=
  if (b.push cell).Fits then .ok (b.push cell) else .error .panic

/-- All of the decoder but its bytes. -/
structure CopyState (F : Type) where
  fields : List Field
  oids : List Nat
  builders : List (ArrayBuilder F)
  headerDone : Bool
  finished : Bool
  rowsInBatch : Nat
  bytesInBatch : Nat
  batchRows : Nat
  batchBytes : Nat
  rowsTotal : Nat
  coercions : CoercionTally
  deriving DecidableEq, Repr

structure CopyDecoder (F : Type) extends CopyState F where
  buf : Bytes
  deriving DecidableEq, Repr

/-- An error of the program's own. -/
def ofExcept {α : Type} : Except EtlError α → Outcome EtlError α := Except.mapError Stop.err

def inContext {α : Type} (place : String) : Outcome EtlError α → Outcome EtlError α :=
  Except.mapError fun
    | .err e => .err (.context place e)
    | stop => stop

/-- The first pass over a tuple. -/
inductive Spans where
  | needMore
  /-- The span of each field, and where the tuple ends. -/
  | all (spans : List (Option (Nat × Nat))) (finish : Nat)
  deriving DecidableEq, Repr

inductive Parsed where
  /-- A tuple of so many bytes. -/
  | tuple (n : Nat)
  /-- The trailer was seen. -/
  | ended
  | needMore
  deriving DecidableEq, Repr

def copySignature : Bytes := [80, 71, 67, 79, 80, 89, 10, 255, 13, 10, 0]

def parseHeader (s : Sizes) (buf : Bytes) : Outcome EtlError (Option Nat) := do
  if buf.length < 19 then return none
  let signature ← slice buf 0 11
  if signature ≠ copySignature then
    throw (.err (.internal "COPY stream did not start with the expected PGCOPY binary signature"))
  let extLen ← slice buf 15 19
  let extLen ← readI32 extLen
  let extLen ← s.ofInt extLen
  let total ← s.fit (19 + extLen)
  pure (if buf.length < total then none else some total)

/-- The spans of the next `left` fields, from `pos` on. -/
def fieldSpans (s : Sizes) (buf : Bytes) : (left pos : Nat) → Outcome EtlError Spans
  | 0, pos => pure (.all [] pos)
  | left + 1, pos => do
    let start ← s.fit (pos + 4)
    if buf.length < start then return .needMore
    let len ← slice buf pos start
    let len ← readI32 len
    if len = -1 then
      match ← fieldSpans s buf left start with
      | .needMore => pure .needMore
      | .all spans finish => pure (.all (none :: spans) finish)
    else
      let len ← s.ofInt len
      let next ← s.fit (start + len)
      if buf.length < next then return .needMore
      match ← fieldSpans s buf left next with
      | .needMore => pure .needMore
      | .all spans finish => pure (.all (some (start, next) :: spans) finish)

section

variable {F : Type} (rt : PgRuntime F) (s : Sizes)

/-- One field into column `i`. -/
def appendField (d : CopyState F) (i : Nat) (field : Option Bytes) : Outcome EtlError (CopyState F) := do
  let builder ← index d.builders i
  match field with
  | none => do
    let builder ← builder.append none
    pure { d with builders := d.builders.set i builder }
  | some bytes =>
    let oid ← index d.oids i
    let named ← index d.fields i
    let (cell, coercion) ← inContext ("column '" ++ named.name ++ "'") (builder.kind.appendValue rt s oid bytes)
    let builder ← builder.append cell
    pure { d with
      builders := d.builders.set i builder
      coercions := d.coercions.recordCoercion i coercion }

/-- The second pass over a tuple, from column `i` on. -/
def appendFields (buf : Bytes) : List (Option (Nat × Nat)) → Nat → CopyState F → Outcome EtlError (CopyState F)
  | [], _, d => pure d
  | none :: spans, i, d => do
    let d ← appendField rt s d i none
    appendFields buf spans (i + 1) d
  | some (start, finish) :: spans, i, d => do
    let bytes ← slice buf start finish
    let d ← appendField rt s d i (some bytes)
    appendFields buf spans (i + 1) d

def parseTuple (d : CopyDecoder F) (start : Nat) : Outcome EtlError (Parsed × CopyDecoder F) := do
  let pos ← s.fit (start + 2)
  if d.buf.length < pos then return (.needMore, d)
  let fieldCount ← word d.buf start
  if intOf fieldCount = -1 then return (.ended, d)
  if (intOf fieldCount % 2 ^ 64).toNat ≠ d.oids.length then
    throw (.err (.internal ("row has " ++ toString (intOf fieldCount) ++ " field(s) but the resolved schema has " ++
      toString d.oids.length ++ " column(s)")))
  match ← fieldSpans s d.buf d.oids.length pos with
  | .needMore => pure (.needMore, d)
  | .all spans finish =>
    let state ← appendFields rt s d.buf spans 0 d.toCopyState
    let n ← s.ofInt ((finish : Int) - start)
    pure (.tuple n, { d with toCopyState := state })

def flushBatch (d : CopyState F) : Outcome EtlError (CopyState F × Batch (PgValue F)) := do
  let batch ← ofExcept (recordBatch d.fields (d.builders.map ArrayBuilder.cells))
  let builders := d.builders.map fun b => { b with cells := [] }
  pure ({ d with builders := builders, rowsInBatch := 0, bytesInBatch := 0 }, batch)

/-- The row is counted, and may be the last of a batch. -/
def countRow (d : CopyState F) (n : Nat) : Outcome EtlError (CopyState F × List (Batch (PgValue F))) := do
  let bytes ← s.fit (d.bytesInBatch + n)
  let d := { d with rowsInBatch := d.rowsInBatch + 1, rowsTotal := d.rowsTotal + 1, bytesInBatch := bytes }
  if d.batchRows ≤ d.rowsInBatch ∨ 0 < d.batchBytes ∧ d.batchBytes ≤ d.bytesInBatch then
    let (d, batch) ← flushBatch d
    pure (d, [batch])
  else pure (d, [])

/-- The tuples from `cursor` on; what is behind them stays in the buffer. -/
def decodeTuples : (fuel cursor : Nat) → List (Batch (PgValue F)) → CopyDecoder F →
    Outcome EtlError (CopyDecoder F × List (Batch (PgValue F)))
  | 0, _, _, _ => throw .hangs
  | fuel + 1, cursor, out, d => do
    let (parsed, d) ← parseTuple rt s d cursor
    match parsed with
    | .tuple n =>
      let cursor ← s.fit (cursor + n)
      let (state, batches) ← countRow s d.toCopyState n
      decodeTuples fuel cursor (out ++ batches) { d with toCopyState := state }
    | .ended =>
      let rest ← slice d.buf cursor d.buf.length
      pure ({ d with finished := true, buf := rest }, out)
    | .needMore =>
      let rest ← slice d.buf cursor d.buf.length
      pure ({ d with buf := rest }, out)

namespace CopyDecoder

def withBatchBytes (columns : List CopyColumn) (batchRows batchBytes : Nat) : Except EtlError (CopyDecoder F) := do
  let kinds ← columns.mapM fun c => ColBuilder.new c.arrow
  pure {
    fields := columns.map fun c => c.toColumnType.field
    oids := columns.map CopyColumn.typeId
    builders := kinds.map fun kind => { kind, cells := [] }
    headerDone := false
    finished := false
    rowsInBatch := 0
    bytesInBatch := 0
    batchRows
    batchBytes
    rowsTotal := 0
    coercions := CoercionTally.new (columns.map fun c => c.name)
    buf := [] }

/-- A chunk of the stream: the batches that it completes. -/
def feed (d : CopyDecoder F) (chunk : Bytes) : Outcome EtlError (CopyDecoder F × List (Batch (PgValue F))) := do
  let d := { d with buf := d.buf ++ chunk }
  -- each tuple takes two bytes at least
  let fuel := d.buf.length + 1
  if d.headerDone then decodeTuples rt s fuel 0 [] d
  else
    match ← parseHeader s d.buf with
    | some n => decodeTuples rt s fuel n [] { d with headerDone := true }
    | none => pure (d, [])

def feedAll : List Bytes → CopyDecoder F → Outcome EtlError (CopyDecoder F × List (Batch (PgValue F)))
  | [], d => pure (d, [])
  | chunk :: chunks, d => do
    let (d, batches) ← d.feed rt s chunk
    let (d, more) ← feedAll chunks d
    pure (d, batches ++ more)

/-- The rows that are left. -/
def finish (d : CopyDecoder F) : Outcome EtlError (CopyDecoder F × Option (Batch (PgValue F))) := do
  if 0 < d.rowsInBatch then
    let (state, batch) ← flushBatch d.toCopyState
    pure ({ d with toCopyState := state }, some batch)
  else pure (d, none)

/-- A whole stream, in chunks. -/
def run (columns : List CopyColumn) (batchRows batchBytes : Nat) (chunks : List Bytes) :
    Outcome EtlError (CopyDecoder F × List (Batch (PgValue F))) := do
  let d ← ofExcept (withBatchBytes columns batchRows batchBytes)
  let (d, batches) ← d.feedAll rt s chunks
  let (d, last) ← d.finish
  pure (d, batches ++ last.toList)

end CopyDecoder

end

end Quickhouse
