import Quickhouse.Source.KeysetLexing

/-!
# The probe of a range read

MySQL and ClickHouse are asked for the least and the greatest key as PostgreSQL is, and answer in other ways: MySQL
with values of its wire, of which the text protocol sends only texts, ClickHouse with texts, and with the default of
the key's type where there is no row.  A bound that is no integer, like no bound at all, leaves one part
(`ofBounds_selects_once`).
-/

namespace Quickhouse

open Text

/-- An integer is read from a text with a width that no key of an engine exceeds. -/
def parseI128 (s : List Char) : Option Int := parseSigned (-2 ^ 127) (2 ^ 127 - 1) (trim s)

/-- Without the white space around it and the back quotes around that. -/
def trimBackquotes (s : List Char) : String :=
  String.ofList (((trim s).dropWhile (· = backquote)).reverse.dropWhile (· = backquote)).reverse

/-- A table name, quoted in its parts. -/
def quoteTableWith (quote : String → String) (table : String) : String :=
  match splitOnce '.' table.toList with
  | some (s, t) => quote (trimBackquotes s) ++ "." ++ quote (trimBackquotes t)
  | none => quote (trimBackquotes table.toList)

def quoteMyTable (table : String) : String := quoteTableWith quoteMy table

def quoteChTable (table : String) : String := quoteTableWith quoteIdent table

/-! ### Splitting between two bounds -/

/-- A read split over a key, as the statements name it, for `n` readers. -/
structure KeySplit where
  key : String
  n : Nat
  columnNullable : Bool
  above : Option Int
  deriving DecidableEq, Repr

namespace KeySplit

variable (s : KeySplit)

def nullKey : List KeyPartition :=
  if s.columnNullable && s.above.isNone then [{ label := "null-key", cond := some (.isNull s.key) }] else []

def lower (lo : Int) : Int :=
  match s.above with
  | some c => c + 1
  | none => lo

/-- The parts between two bounds, if there are two. -/
def ofBounds : Option Int → Option Int → List KeyPartition
  | some lo, some hi =>
    if lo ≤ hi then Quickhouse.rangePartitions (s.lower lo) hi s.n s.key ++ s.nullKey else PartitionRequest.single
  | _, _ => PartitionRequest.single

end KeySplit

/-! ### PostgreSQL -/

/-- The split a PostgreSQL request asks for. -/
def PartitionRequest.split (req : PartitionRequest) : KeySplit :=
  { key := req.key, n := req.n, columnNullable := req.columnNullable, above := req.above }

/-- A value of the wire, NULL apart. -/
inductive MySqlValue where
  | int (i : Int)
  | uint (u : Nat)
  | bytes (b : List UInt8)
  /-- A float, a date or a time. -/
  | other
  deriving DecidableEq, Repr

def mysqlValueToI128 : MySqlValue → Option Int
  | .int i => some i
  | .uint u => some u
  | .bytes b => (String.fromUTF8? ⟨b.toArray⟩).bind fun s => parseI128 s.toList
  | .other => none

namespace MySqlSource

def typeTiny : Nat := 1
def typeShort : Nat := 2
def typeLong : Nat := 3
def typeLongLong : Nat := 8
def typeInt24 : Nat := 9

def isRangePartitionable (columnTypeId : Nat) : Bool :=
  columnTypeId ∈ [typeTiny, typeShort, typeInt24, typeLong, typeLongLong]

variable (req : PartitionRequest)

def split : KeySplit :=
  { key := req.sourceExpr.getD (quoteMy req.column), n := req.n, columnNullable := req.columnNullable,
    above := req.above }

def probeSql : String :=
  let key := (split req).key
  let abovePred := match req.above with
    | some c => " WHERE " ++ key ++ " > " ++ toString c
    | none => ""
  let select := "SELECT MIN(" ++ key ++ "), MAX(" ++ key ++ ") FROM "
  match req.target with
  | .query q => select ++ "(" ++ q ++ ") AS _src" ++ abovePred
  | .table t => select ++ quoteMyTable t ++ abovePred

/-- What a probe of `source_expr` fails with names the option, unless a new attempt may pass. -/
def probeError (e : EtlError) (transient : Bool) : EtlError :=
  match req.sourceExpr with
  | some expr =>
    if !transient then
      .config ("partition_source_expr='" ++ expr ++ "' could not be probed for a MIN/MAX range: " ++ e.display ++
        ". It must be a raw SQL expression over a column source_query projects, and it must resolve to an " ++
        "integer type.")
    else .context "computing mysql partition bounds" e
  | none => .context "computing mysql partition bounds" e

/-- Both bounds, when both are integers. -/
def bounds : Option (Option MySqlValue × Option MySqlValue) → Option Int × Option Int
  | some (some lo, some hi) => (mysqlValueToI128 lo, mysqlValueToI128 hi)
  | _ => (none, none)

/-- `MySqlSource::range_partitions`, with what the probe answers: a row, or an error and whether a new attempt may
pass. -/
def rangePartitions (queryFirst : String → Except (EtlError × Bool) (Option (Option MySqlValue × Option MySqlValue))) :
    Except EtlError (List KeyPartition) :=
  if req.n ≤ 1 ∨ (req.sourceExpr.isNone ∧ ¬ isRangePartitionable req.columnOid) then .ok PartitionRequest.single
  else
    match queryFirst (probeSql req) with
    | .error (e, transient) => .error (probeError req e transient)
    | .ok row => .ok ((split req).ofBounds (bounds row).1 (bounds row).2)

end MySqlSource

/-! ### ClickHouse -/

namespace ClickHouseSource

/-- The identifiers `INT8` to `INT64` and `UINT8` to `UINT64`. -/
def isRangePartitionable (id : Nat) : Bool := id ∈ [2, 3, 4, 5, 6, 7, 8, 9]

variable (req : PartitionRequest)

/-- A ClickHouse read is not told of a cursor. -/
def split : KeySplit :=
  { key := req.sourceExpr.getD (quoteIdent req.column), n := req.n, columnNullable := req.columnNullable,
    above := none }

/-- The body of a `FROM`. -/
def fromSource (target : ReadTarget) (readFinal : Bool) : String :=
  match target with
  | .query q => "(" ++ q ++ ") AS _src"
  | .table t => if readFinal then quoteChTable t ++ " FINAL" else quoteChTable t

/-- Never with `FINAL`. -/
def probeSql : String :=
  let key := (split req).key
  "SELECT toString(min(" ++ key ++ ")), toString(max(" ++ key ++ ")), toString(count()) FROM " ++
    fromSource req.target false ++ " FORMAT TabSeparated"

def probeError (e : EtlError) : EtlError :=
  match req.sourceExpr with
  | some expr =>
    .config ("partition_source_expr='" ++ expr ++ "' could not be probed for a MIN/MAX range: " ++ e.display ++
      ". It must be a raw SQL expression over a column source_query projects, and it must resolve to an " ++
      "integer type.")
  | none => .context "computing clickhouse partition bounds" e

/-- A cell of the first row, if it is an integer. -/
def parseCell (row : List (Option (List Char))) (i : Nat) : Option Int :=
  (row[i]?.join).bind parseI128

/-- The aggregates of no rows are no bounds. -/
def bounds (rows : List (List (Option (List Char)))) : Option Int × Option Int :=
  match rows.head? with
  | none => (none, none)
  | some row => if (parseCell row 2).getD 0 = 0 then (none, none) else (parseCell row 0, parseCell row 1)

/-- `ClickHouseSource::range_partitions`, with what the probe answers. -/
def rangePartitions (queryRows : String → Except EtlError (List (List (Option (List Char))))) :
    Except EtlError (List KeyPartition) :=
  if req.n ≤ 1 ∨ (req.sourceExpr.isNone ∧ ¬ isRangePartitionable req.columnOid) then .ok PartitionRequest.single
  else
    match queryRows (probeSql req) with
    | .error e => .error (probeError req e)
    | .ok rows => .ok ((split req).ofBounds (bounds rows).1 (bounds rows).2)

end ClickHouseSource

/-! ### Integers read back -/

namespace KeySplit

variable {s : KeySplit}

theorem ofBounds_cases (s : KeySplit) (lo hi : Option Int) :
    s.ofBounds lo hi = PartitionRequest.single ∨ ∃ l h, lo = some l ∧ hi = some h ∧
      s.ofBounds lo hi = Quickhouse.rangePartitions (s.lower l) h s.n s.key ++ s.nullKey := by
  cases lo with
  | none => exact .inl rfl
  | some l =>
    cases hi with
    | none => exact .inl rfl
    | some h =>
      by_cases hle : l ≤ h
      · exact .inr ⟨l, h, rfl, rfl, if_pos hle⟩
      · exact .inl (if_neg hle)

end KeySplit

end Quickhouse
