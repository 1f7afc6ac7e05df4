import Quickhouse.ColumnPlan

/-!
# The null guard

A NULL in a column the destination cannot hold one in leaves the row out, or is written as the column type's
default; either is counted.  Every batch passes the guard on its way to the destination.
-/

namespace Quickhouse

open Text

/-- One column whose NULL rows are left out. -/
structure Guarded where
  idx : Nat
  dest : String
  /-- The column as the caller named it. -/
  column : String
  kind : WarningKind
  deriving DecidableEq, Repr

/-- The option that makes a defaulted column NOT NULL. -/
inductive NotNullBy where
  | orderBy
  | primaryKey
  | notNull
  | engine
  deriving DecidableEq, Repr

/-- One column whose NULLs are written as the column type's default. -/
structure Defaulted where
  idx : Nat
  column : String
  «by» : NotNullBy
  /-- What a NULL in a text column becomes where the destination does not read `''`. -/
  text : Option String
  shown : String
  deriving DecidableEq, Repr

/-- The columns a run checks for NULLs. -/
structure NullGuard where
  /-- Left out, in check order. -/
  columns : List Guarded
  /-- Defaulted, in plan order. -/
  defaulted : List Defaulted
  deriving DecidableEq, Repr

/-! ### Defaults -/

def shownZero : ArrowType → String
  | .utf8 => "''"
  | .binary => "empty bytes"
  | .boolean => "false"
  | .date32 => "1970-01-01"
  | .timestamp (some _) => "1970-01-01 00:00:00 UTC"
  | .timestamp none => "1970-01-01 00:00:00"
  | _ => "0"

def stripWrapper (inner : List Char) (name : String) : Option (List Char) :=
  (((stripPrefix name inner).bind (stripPrefix "(")).bind (stripSuffix ")")).map trim

/-- The name of an `Enum` element, past its opening quote, and what follows it. -/
def enumName : List Char → Option (List Char × List Char)
  | '\\' :: c :: rest => (enumName rest).map fun (name, rest) => (c :: name, rest)
  | '\'' :: '\'' :: rest => (enumName rest).map fun (name, rest) => ('\'' :: name, rest)
  | '\'' :: rest => some ([], rest)
  | c :: rest => (enumName rest).map fun (name, rest) => (c :: name, rest)
  | [] => none

/-- The number of an element, and what follows it: without one, the number after the element before it. -/
def enumValue (rest : List Char) (next : Int) : Option (Int × List Char) :=
  let number : Char → Bool := fun c => isWhitespace c || c = '-' || c.isDigit
  match stripPrefix "=" rest with
  | some rest =>
    (parseSigned (-2 ^ 63) (2 ^ 63 - 1) ((rest.takeWhile number).filter fun c => !isWhitespace c)).map
      fun v => (v, rest.dropWhile number)
  | none => some (next, rest)

/-- The element of the lowest value, the first of them. -/
def lowestElement (fuel : Nat) (chars : List Char) (next : Int) (lowest : Option (Int × List Char)) :
    Option (List Char) :=
  match fuel with
  | 0 => none
  | fuel + 1 => do
    let chars ← stripPrefix "'" (chars.dropWhile fun c => isWhitespace c || c = ',')
    let (name, rest) ← enumName chars
    let (value, rest) ← enumValue (rest.dropWhile isWhitespace) next
    let lowest := match lowest with
      | some (v, n) => if value < v then (value, name) else (v, n)
      | none => (value, name)
    match rest.dropWhile isWhitespace with
    | ',' :: rest => lowestElement fuel rest (value + 1) (some lowest)
    | [] => some lowest.2
    | _ => none

def enumDefault (ty : List Char) : Option String := do
  let (_, body) ← splitOnce '(' ty
  let body ← stripSuffix ")" (trimEnd body)
  let name ← lowestElement (body.length + 1) body 1 none
  return String.ofList name

/-- The text a ClickHouse column of type `ty` reads as its default, where it is not `''`. -/
def clickhouseTextDefault (ty : String) : Option String :=
  let ty := trim ty.toList
  let ty := (stripWrapper ty "LowCardinality").getD ty
  let ty := (stripWrapper ty "Nullable").getD ty
  let name := trim (ty.takeWhile (· ≠ '('))
  let digits (rest : List Char) : Bool := !rest.isEmpty && rest.all Char.isDigit
  if name = "UUID".toList then some "00000000-0000-0000-0000-000000000000"
  else if name = "IPv4".toList then some "0.0.0.0"
  else if name = "IPv6".toList then some "::"
  else if name = "Bool".toList then some "false"
  else if name = "Enum".toList ∨ name = "Enum8".toList ∨ name = "Enum16".toList then enumDefault ty
  else if name = "Float32".toList ∨ name = "Float64".toList ∨ name = "BFloat16".toList then some "0"
  else if "Decimal".toList.isPrefixOf name then some "0"
  else if ((stripPrefix "UInt" name).or (stripPrefix "Int" name)).any digits then some "0"
  else none

/-! ### The guard of a plan -/

/-- The destination column a key names: exactly, or up to ASCII case. -/
def keyPosition (names : List String) (k : String) : Option Nat :=
  (names.findIdx? (· = k)).or (names.findIdx? fun n => asciiLower n = asciiLower k)

namespace NullGuard

variable (plan : ColumnPlan) (cfg : TransferConfig) (dest : DestKind)

/-- The watermark, where the destination's column cannot be NULL. -/
def watermarkColumn : List Guarded :=
  match cfg.watermark with
  | none => []
  | some w =>
    match plan.sourceColumns.findIdx? (· = w) with
    | none => []
    | some idx =>
      match plan.destColumns[idx]? with
      | some d => if d.nullable then [] else [⟨idx, d.name, w, .nullWatermark⟩]
      | none => []

def keyColumn (columns : List Guarded) (k : String) : List Guarded :=
  match keyPosition (plan.destColumns.map ColumnType.name) k with
  | none => columns
  | some idx =>
    match plan.destColumns[idx]? with
    | some d => if columns.any (·.idx = idx) then columns else columns ++ [⟨idx, d.name, k, .nullKey⟩]
    | none => columns

def leftOutColumns : List Guarded := cfg.key.foldl (keyColumn plan) (watermarkColumn plan cfg)

/-- The option that makes the column NOT NULL. -/
def notNullBy (name : String) : Option NotNullBy :=
  if cfg.orderBy.contains name then some .orderBy
  else if cfg.primaryKey.contains name then some .primaryKey
  else if cfg.notNull.contains name then some .notNull
  else if (cfg.engineColumns dest).contains name then some .engine
  else none

def defaultedColumn (columns : List Guarded) (d : ColumnType) (idx : Nat) : Option Defaulted :=
  if d.nullable || columns.any (·.idx = idx) then none
  else (notNullBy cfg dest d.name).map fun reason =>
    let text := if dest = .clickHouse ∧ d.arrow = .utf8 then clickhouseTextDefault d.clickhouseInner else none
    let shown := match text with
      | some t => "'" ++ t ++ "'"
      | none => shownZero d.arrow
    { idx, column := d.name, «by» := reason, text, shown }

def defaultedColumns (columns : List Guarded) : List Defaulted :=
  plan.destColumns.zipIdx.filterMap fun (d, idx) => defaultedColumn cfg dest columns d idx

/-- The guard of a run, if there is anything to check. -/
def new : Option NullGuard :=
  if dest = .csv then none
  else
    let columns := leftOutColumns plan cfg
    let defaulted := defaultedColumns plan cfg dest columns
    if columns = [] ∧ defaulted = [] then none else some { columns, defaulted }

/-- The positions of every checked column. -/
def checked (g : NullGuard) : List Nat := g.columns.map Guarded.idx ++ g.defaulted.map Defaulted.idx

/-- The plan's columns with the checked ones nullable: what a decoder builds batches with. -/
def decodeColumns (g : NullGuard) (destColumns : List ColumnType) : List ColumnType :=
  destColumns.mapIdx fun i c => if g.checked.contains i then { c with nullable := true } else c

end NullGuard

/-! ### Batches -/

structure Field where
  name : String
  arrow : ArrowType
  nullable : Bool
  deriving DecidableEq, Repr

def ColumnType.field (c : ColumnType) : Field := ⟨c.name, c.arrow, c.nullable⟩

/-- A row fits the fields: one value for each, and a value that is there where NULL is not allowed. -/
def Conforms {V : Type} (fields : List Field) (row : List (Option V)) : Prop :=
  row.length = fields.length ∧ ∀ cell ∈ fields.zip row, cell.1.nullable = true ∨ cell.2.isSome = true

instance {V : Type} (fields : List Field) (row : List (Option V)) : Decidable (Conforms fields row) :=
  inferInstanceAs (Decidable (_ ∧ _))

/-- A record batch: none of its columns that are not nullable holds a NULL. -/
structure Batch (V : Type) where
  fields : List Field
  rows : List (List (Option V))
  conforms : ∀ row ∈ rows, Conforms fields row

def Batch.tryNew {V : Type} (fields : List Field) (rows : List (List (Option V))) : Except String (Batch V) :=
  if conforms : ∀ row ∈ rows, Conforms fields row then .ok { fields, rows, conforms }
  else
    let refused := fields.zipIdx.find? fun f => !f.1.nullable && rows.any fun row => (row[f.2]?).any Option.isNone
    .error (match refused with
      | some f => "Column '" ++ f.1.name ++ "' is declared as non-nullable but contains null values"
      | none => "number of columns must match number of fields in schema")

theorem tryNew_ok {V : Type} {fields : List Field} {rows : List (List (Option V))}
    (h : ∀ row ∈ rows, Conforms fields row) : Batch.tryNew fields rows = .ok ⟨fields, rows, h⟩ := by
  unfold Batch.tryNew
  rw [dif_pos h]

/-- What `filter` returns. -/
structure Filtered (V : Type) where
  batch : Batch V
  /-- Rows left out, per left-out column. -/
  leftOut : List Nat
  /-- Rows written with a default, per defaulted column. -/
  defaulted : List Nat

/-- The column at `idx` must be the one named `name`. -/
def columnAt (fields : List Field) (idx : Nat) (name : String) : Except String Unit :=
  if fields[idx]?.any (·.name = name) then .ok ()
  else .error ("the batch has no column '" ++ name ++ "' at position " ++ toString idx ++ " to check for NULLs")

namespace NullGuard

variable {V : Type}

def nullAt (row : List (Option V)) (idx : Nat) : Bool := (row[idx]?).any Option.isNone

/-- The first of the left-out columns that is NULL in the row. -/
def firstNull (g : NullGuard) (row : List (Option V)) : Option Nat := g.columns.findIdx? fun c => nullAt row c.idx

def keeps (g : NullGuard) (row : List (Option V)) : Bool := (g.firstNull row).isNone

/-- A NULL of a defaulted column becomes its default. -/
def fillCell (g : NullGuard) (zeroScalar : ArrowType → Option String → V) (f : Field) (idx : Nat) (v : Option V) :
    Option V :=
  match v with
  | some v => some v
  | none => (g.defaulted.find? (·.idx = idx)).map fun d => zeroScalar f.arrow d.text

def fillNulls (g : NullGuard) (zeroScalar : ArrowType → Option String → V) (fields : List Field)
    (row : List (Option V)) : List (Option V) :=
  List.zipWith (fun (f : Field × Nat) v => g.fillCell zeroScalar f.1 f.2 v) fields.zipIdx row

/-- The fields with the checked columns non-nullable, as the destination has them. -/
def strictSchema (g : NullGuard) (fields : List Field) : List Field :=
  fields.mapIdx fun i f => { f with nullable := f.nullable && !g.checked.contains i }

/-- Every modelled type has a default, so filling a column never fails. -/
def filter (g : NullGuard) (zeroScalar : ArrowType → Option String → V) (batch : Batch V) :
    Except String (Filtered V) := do
  g.columns.forM fun c => columnAt batch.fields c.idx c.dest
  let kept := batch.rows.filter g.keeps
  g.defaulted.forM fun d => columnAt batch.fields d.idx d.column
  let filled ← Batch.tryNew (g.strictSchema batch.fields) (kept.map (g.fillNulls zeroScalar batch.fields))
  pure {
    batch := filled
    leftOut := (List.range g.columns.length).map fun j => batch.rows.countP fun row => g.firstNull row = some j
    defaulted := g.defaulted.map fun d => kept.countP fun row => nullAt row d.idx }

end NullGuard

/-! ### What a source reads -/

inductive SourceKind where
  | postgres | mysql | bigQuery | clickHouse | frame | api
  deriving DecidableEq, Repr

/-- The types in which a source's decoder has an arm that writes NULL for a value that is not. -/
def SourceKind.coerces : SourceKind → ArrowType → Bool
  | .postgres, t | .mysql, t | .bigQuery, t => mayCoerceToNull t
  | .clickHouse, _ => false
  | .frame, .decimal128 _ => true
  | .frame, _ => false
  | .api, .utf8 => false
  | .api, _ => true

/-- What a run tells the plan of the decoder. -/
def SourceKind.mayCoerce (kind : SourceKind) : Bool := kind ≠ .clickHouse

/-- The columns a source resolves; an API declares none NOT NULL. -/
structure SourceSchema where
  kind : SourceKind
  columns : List ColumnType
  api_nullable : kind = .api → ∀ c ∈ columns, c.nullable = true

/-- A row the source can hold: no NULL in a column it declares NOT NULL. -/
def StoredRow (V : Type) (schema : SourceSchema) : Type :=
  { row : String → Option V // ∀ c ∈ schema.columns, c.nullable = false → (row c.name).isSome = true }

/-- What the engines do with values: a SQL expression over a row, whether a type represents a value, defaults. -/
structure Values (V : Type) where
  eval : String → (String → Option V) → Option V
  represents : ArrowType → V → Bool
  zeroScalar : ArrowType → Option String → V

namespace SourceSchema

variable {V : Type} (schema : SourceSchema) (vals : Values V)

def decode (arrow : ArrowType) (v : V) : Option V :=
  if schema.kind.coerces arrow && !vals.represents arrow v then none else some v

/-- The value of one select expression, decoded. -/
def readCell (name : String) (expr : Option String) (arrow : ArrowType) (row : StoredRow V schema) : Option V :=
  (match expr with
    | some e => vals.eval e row.val
    | none => row.val name).bind (schema.decode vals arrow)

def readRow (plan : ColumnPlan) (row : StoredRow V schema) : List (Option V) :=
  List.zipWith (fun (s : String × Option String) (d : ColumnType) => schema.readCell vals s.1 s.2 d.arrow row)
    (plan.sourceColumns.zip plan.sourceSelectExprs) plan.destColumns

/-- One batch on its way to the destination: decoded, and through the guard if there is one. -/
def writeBatch (plan : ColumnPlan) (guard : Option NullGuard) (rows : List (StoredRow V schema)) :
    Except String (Filtered V) :=
  match guard with
  | none => (Batch.tryNew (plan.destColumns.map ColumnType.field) (rows.map (schema.readRow vals plan))).map
      fun batch => { batch, leftOut := [], defaulted := [] }
  | some g => (Batch.tryNew ((g.decodeColumns plan.destColumns).map ColumnType.field)
      (rows.map (schema.readRow vals plan))).bind (g.filter vals.zeroScalar)

end SourceSchema

end Quickhouse
