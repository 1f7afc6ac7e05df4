import Mathlib.Algebra.Order.Floor.Ring
import Mathlib.Data.Rat.Floor
import Quickhouse.ApiTimes
import Quickhouse.Lib.Cover
import Quickhouse.Source.ChTypes
import Quickhouse.Source.RangeProbes
import Quickhouse.WatermarkText

/-!
# Parallel reads

With `parallelism` above one, a run reads its source in range partitions of an integer key, side by side, each with the
run's own filter on the watermark.  Where the watermark is the key, the partitions start above the cursor, as the
filter does; a ClickHouse table that is read with `FINAL` is split on a column of its sorting key.

No row is read twice whatever the key.  That none is left out needs whole keys, as the ranges are of integers, and that
the statements mean by the key what the probe meant: ClickHouse takes a name in a condition for what is selected under it.
-/

namespace Quickhouse

namespace ParallelRead

open MachineInt Text TimeFormat

/-! ### Source columns -/

/-- The type identifiers that an engine splits ranges on. -/
def isInt : KeysetEngine → Nat → Bool
  | .postgres => Quickhouse.isRangePartitionable
  | .mySql => MySqlSource.isRangePartitionable
  | .clickHouse => ClickHouseSource.isRangePartitionable

/-- The Arrow type and the ClickHouse type of a PostgreSQL type. -/
def mapOid (oid : Nat) : Option (ArrowType × String) :=
  if oid = 16 then some (.boolean, "Bool")
  else if oid = oidInt2 then some (.int16, "Int16")
  else if oid = oidInt4 then some (.int32, "Int32")
  else if oid = 26 then some (.uint32, "UInt32")
  else if oid = oidInt8 then some (.int64, "Int64")
  else if oid = 700 then some (.float32, "Float32")
  else if oid ∈ [701, 1700] then some (.float64, "Float64")
  else if oid ∈ [25, 1043, 1042, 19, 114, 3802] then some (.utf8, "String")
  else if oid = 2950 then some (.utf8, "UUID")
  else if oid = 17 then some (.binary, "String")
  else if oid = 1082 then some (.date32, "Date32")
  else if oid = 1114 then some (.timestamp none, "DateTime64(6)")
  else if oid = 1184 then some (.timestamp (some "UTC"), "DateTime64(6, 'UTC')")
  else if oid = 1083 then some (.utf8, "String")
  else none

/-- The column types of the MySQL protocol. -/
inductive MySqlType where
  | decimal | tiny | short | long | float | double | null | timestamp | longLong | int24 | date | time | dateTime | year
  | newDate | varChar | bit | timestamp2 | dateTime2 | time2 | json | newDecimal | enumeration | set | tinyBlob
  | mediumBlob | longBlob | blob | varString | string | geometry
  deriving DecidableEq, Repr

def MySqlType.code : MySqlType → Nat
  | decimal => 0
  | tiny => 1
  | short => 2
  | long => 3
  | float => 4
  | double => 5
  | null => 6
  | timestamp => 7
  | longLong => 8
  | int24 => 9
  | date => 10
  | time => 11
  | dateTime => 12
  | year => 13
  | newDate => 14
  | varChar => 15
  | bit => 16
  | timestamp2 => 17
  | dateTime2 => 18
  | time2 => 19
  | json => 245
  | newDecimal => 246
  | enumeration => 247
  | set => 248
  | tinyBlob => 249
  | mediumBlob => 250
  | longBlob => 251
  | blob => 252
  | varString => 253
  | string => 254
  | geometry => 255

def mapMysqlType (colType : MySqlType) (isUnsigned isTinyint1 isBinary : Bool) : Option (ArrowType × String) :=
  match colType with
  | .tiny =>
    if isTinyint1 then some (.boolean, "Bool")
    else some (if isUnsigned then (.uint8, "UInt8") else (.int8, "Int8"))
  | .short | .year => some (if isUnsigned then (.uint16, "UInt16") else (.int16, "Int16"))
  | .int24 | .long => some (if isUnsigned then (.uint32, "UInt32") else (.int32, "Int32"))
  | .longLong => some (if isUnsigned then (.uint64, "UInt64") else (.int64, "Int64"))
  | .float => some (.float32, "Float32")
  | .double | .decimal | .newDecimal => some (.float64, "Float64")
  | .varChar | .varString | .string => some (if isBinary then .binary else .utf8, "String")
  | .enumeration | .set | .json => some (.utf8, "String")
  | .tinyBlob | .mediumBlob | .longBlob | .blob => some (if isBinary then .binary else .utf8, "String")
  | .date | .newDate => some (.date32, "Date32")
  | .dateTime | .dateTime2 | .timestamp | .timestamp2 => some (.timestamp (some "UTC"), "DateTime64(6, 'UTC')")
  | .time | .time2 => some (.utf8, "String")
  | .bit => some (.binary, "String")
  | .null | .geometry => none

theorem mapOid_integer {oid : Nat} {r : ArrowType × String} (h : mapOid oid = some r)
    (hint : isInt .postgres oid = true) : mayCoerceToNull r.1 = false := by
  have hmem : oid = 21 ∨ oid = 23 ∨ oid = 20 := by
    simpa [isInt, Quickhouse.isRangePartitionable, oidInt2, oidInt4, oidInt8] using hint
  rcases hmem with rfl | rfl | rfl
  all_goals
    cases h
    rfl

theorem mapMysqlType_integer {t : MySqlType} {isUnsigned isTinyint1 isBinary : Bool} {r : ArrowType × String}
    (h : mapMysqlType t isUnsigned isTinyint1 isBinary = some r) (hint : isInt .mySql t.code = true) :
    mayCoerceToNull r.1 = false := by
  cases t with
  | tiny =>
    cases isTinyint1 <;> cases isUnsigned <;> cases h <;> rfl
  | short =>
    cases isUnsigned <;> cases h <;> rfl
  | int24 =>
    cases isUnsigned <;> cases h <;> rfl
  | long =>
    cases isUnsigned <;> cases h <;> rfl
  | longLong =>
    cases isUnsigned <;> cases h <;> rfl
  | _ => exact absurd hint (by decide)

theorem plainTypes_integer : ∀ e ∈ ChTypes.plainTypes, isInt .clickHouse e.2.1.code = true →
    mayCoerceToNull e.2.2 = false := by decide

theorem payloadType_integer {payload : List Char} {r : ChTypes.TypeId × ArrowType}
    (h : ChTypes.payloadType payload = some r) (hint : isInt .clickHouse r.1.code = true) :
    mayCoerceToNull r.2 = false := by
  unfold ChTypes.payloadType at h
  dsimp only at h
  split_ifs at h
  · cases h
    have hnot : isInt .clickHouse ChTypes.TypeId.dateTime.code ≠ true := by decide
    exact absurd hint hnot
  · obtain ⟨d, -, rfl⟩ := Option.map_eq_some_iff.mp h
    have hnot : isInt .clickHouse ChTypes.TypeId.decimal.code ≠ true := by decide
    exact absurd hint hnot
  · obtain ⟨e, he, -, rfl⟩ := ChTypes.plainType_eq_some h
    exact plainTypes_integer e he hint

/-- What the types of the engines are resolved to. -/
inductive Resolves : KeysetEngine → Nat → ArrowType → Prop
  | postgres {oid : Nat} {r : ArrowType × String} : mapOid oid = some r → Resolves .postgres oid r.1
  | mySql {t : MySqlType} {isUnsigned isTinyint1 isBinary : Bool} {r : ArrowType × String} :
      mapMysqlType t isUnsigned isTinyint1 isBinary = some r → Resolves .mySql t.code r.1
  | clickHouse {payload : List Char} {r : ChTypes.TypeId × ArrowType} :
      ChTypes.payloadType payload = some r → Resolves .clickHouse r.1.code r.2

structure SourceColumn (e : KeysetEngine) where
  name : String
  typeId : Nat
  nullable : Bool
  arrow : ArrowType
  resolved : Resolves e typeId arrow

/-- What is split on is resolved to no date, no timestamp and no decimal. -/
theorem Resolves.integer {e : KeysetEngine} {typeId : Nat} {arrow : ArrowType} (h : Resolves e typeId arrow)
    (hint : isInt e typeId = true) : mayCoerceToNull arrow = false := by
  cases h with
  | postgres h => exact mapOid_integer h hint
  | mySql h => exact mapMysqlType_integer h hint
  | clickHouse h => exact payloadType_integer h hint

/-- What was decided about `FINAL`; an empty sorting key is not known. -/
structure FinalRead where
  on : Bool := false
  sortingKey : List String := []
  deriving DecidableEq, Repr

inductive FinalRange where
  | keep
  | switchTo (col : String)
  | single
  deriving DecidableEq, Repr

/-- The name between two of the quotes, when no third one is in it. -/
def between (quote : String) (s : List Char) : Option (List Char) :=
  ((stripPrefix quote s).bind (stripSuffix quote)).filter fun inner => !Text.contains quote inner

/-- One quoted identifier without its quotes, anything else as it is. -/
def unquoteIdent (s : List Char) : List Char :=
  ((between (String.singleton backquote) s).or (between "\"" s)).getD s

/-- The column a read with `FINAL` is split on: every version of a row has the same sorting key. -/
def finalRangeColumn (sortingKey : List String) (wanted : String) (partitionable : String → Bool) : FinalRange :=
  if sortingKey = [] then .keep
  else if String.ofList (unquoteIdent (trim wanted.toList)) ∈ sortingKey then .keep
  else
    match sortingKey.head? with
    | some first => if partitionable first then .switchTo first else .single
    | none => .single

/-! ### What is split -/

/-- The relation a probe reads; a `source_query` only where an expression says what to split it on. -/
def partitionTarget (cfg : TransferConfig) : Option ReadTarget :=
  match cfg.sourceTable, cfg.sourceQuery with
  | some t, none => some (.table t)
  | _, some q => cfg.partitionSourceExpr.map fun _ => .query q
  | none, none => none

def partitionColumn (cfg : TransferConfig) : Option String := cfg.partitionColumn.or cfg.key.head?

variable {e : KeysetEngine}

/-- The type of the key and whether it may be NULL.  An expression that names no column is taken for one that may be,
and its type for the probe to find out. -/
def partitionKeyType (sourceCols : List (SourceColumn e)) (partCol : String) (sourceExpr : Option String) :
    Except EtlError (Option (Nat × Bool)) :=
  match sourceExpr with
  | none => .ok ((sourceCols.find? (·.name = partCol)).map fun c => (c.typeId, c.nullable))
  | some expr =>
    match sourceCols.find? (·.name = expr) with
    | some c =>
      if isInt e c.typeId then .ok (some (c.typeId, c.nullable))
      else .error (.config ("partition_source_expr='" ++ expr ++ "' resolves to a non-integer column, which cannot " ++
        "be split into numeric ranges. Point it at the raw integer key column source_query projects, or unset it " ++
        "to read single-stream."))
    | none => .ok (some (0, true))

/-- Where the parts start, when the watermark is the key that is split. -/
def partitionsAbove (cfg : TransferConfig) (partCol : String) (sourceExpr cursor : Option String) : Option Int :=
  if ¬ cfg.mode.keepsCursor ∨ sourceExpr.isSome ∨ cfg.watermarkSourceExpr.isSome ∨ cfg.watermark ≠ some partCol then none
  else cursor.bind fun c => parseSigned i64Min i64Max (trim c.toList)

/-- The request of a split on `col`, or on `expr` in its place. -/
def splitOn (cfg : TransferConfig) (sourceCols : List (SourceColumn e)) (target : ReadTarget) (col : String)
    (expr : Option String) (above : Option Int) : Except EtlError (Option PartitionRequest) :=
  (partitionKeyType sourceCols col expr).map fun keyType => keyType.map fun (typeId, nullable) =>
    { target, column := col, sourceExpr := expr, columnOid := typeId, n := cfg.parallelism, columnNullable := nullable,
      above }

/-- What PostgreSQL and MySQL are asked to split; nothing, when the read is in one part. -/
def requestAbove (cfg : TransferConfig) (sourceCols : List (SourceColumn e)) (cursor : Option String) :
    Except EtlError (Option PartitionRequest) :=
  if cfg.chunkRows.isSome ∨ cfg.parallelism ≤ 1 then .ok none
  else
    match partitionTarget cfg, partitionColumn cfg with
    | some target, some col =>
      splitOn cfg sourceCols target col cfg.partitionSourceExpr
        (partitionsAbove cfg col cfg.partitionSourceExpr cursor)
    | _, _ => .ok none

/-- The split of a table that is read with `FINAL`. -/
def splitFinal (cfg : TransferConfig) (sourceCols : List (SourceColumn e)) (sortingKey : List String)
    (target : ReadTarget) (col : String) : Except EtlError (Option PartitionRequest) :=
  let wanted := cfg.partitionSourceExpr.getD col
  let partitionable := fun name => sourceCols.any fun c => c.name = name && isInt e c.typeId
  match finalRangeColumn sortingKey wanted partitionable with
  | .keep => splitOn cfg sourceCols target col cfg.partitionSourceExpr none
  | .switchTo first => splitOn cfg sourceCols target first none none
  | .single => .ok none

/-- What ClickHouse is asked to split. -/
def requestFinal (cfg : TransferConfig) (sourceCols : List (SourceColumn e)) (final : FinalRead) :
    Except EtlError (Option PartitionRequest) :=
  if cfg.chunkRows.isSome ∨ cfg.parallelism ≤ 1 then .ok none
  else
    match partitionTarget cfg, partitionColumn cfg with
    | some (.table t), some col =>
      if final.on then splitFinal cfg sourceCols final.sortingKey (.table t) col
      else splitOn cfg sourceCols (.table t) col cfg.partitionSourceExpr none
    | some (.query q), some col => splitOn cfg sourceCols (.query q) col cfg.partitionSourceExpr none
    | _, _ => .ok none

/-! ### The filter on the watermark -/

/-- A comparison of a column, or of an expression in its place, with a bound as the statement writes it. -/
inductive BoundCond where
  | past (col bound : String)
  | upTo (col bound : String)
  deriving DecidableEq, Repr

def BoundCond.sql : BoundCond → String
  | .past col bound => col ++ " > " ++ bound
  | .upTo col bound => col ++ " <= " ++ bound

/-- The condition that a run adds to every statement of its read. -/
inductive RowFilter where
  | all
  | within (conds : List BoundCond)
  | withinOrNull (conds : List BoundCond) (col : String)
  | notNull (col : String)
  deriving DecidableEq, Repr

def RowFilter.sql : RowFilter → Option String
  | .all => none
  | .within conds => some (" AND ".intercalate (conds.map BoundCond.sql))
  | .withinOrNull conds col =>
    some ("(" ++ " AND ".intercalate (conds.map BoundCond.sql) ++ " OR " ++ col ++ " IS NULL)")
  | .notNull col => some (col ++ " IS NOT NULL")

/-- A lower bound of PostgreSQL, set back by the lookback. -/
def lookbackLowerBoundPg (last : String) (lookbackSeconds : Nat) (tzAware : Bool) : String :=
  let literal := String.ofList (quoteSqlLiteral last.toList)
  if lookbackSeconds = 0 then literal
  else "(" ++ literal ++ "::" ++ (if tzAware then "timestamptz" else "timestamp") ++ " - interval '" ++
    toString lookbackSeconds ++ " seconds')"

/-- A date and a time without an offset. -/
def isDatetime (s : List Char) : Bool := temporalFormats.any fun f => (readNaive f s).isSome

/-- A MySQL cursor without a zero offset after a date and a time. -/
def stripZeroUtcOffset (cursor : List Char) : List Char :=
  match (stripSuffix "+00:00" cursor).filter isDatetime, (stripSuffix "+00" cursor).filter isDatetime with
  | some naive, _ => naive
  | none, some naive => naive
  | none, none => cursor

def lookbackLowerBoundMysql (last : String) (lookbackSeconds : Nat) : String :=
  let literal := String.ofList (quoteMysqlLiteral (stripZeroUtcOffset last.toList))
  if lookbackSeconds = 0 then literal
  else "(CAST(" ++ literal ++ " AS DATETIME) - INTERVAL " ++ toString lookbackSeconds ++ " SECOND)"

/-- `Nullable(T)` or `LowCardinality(T)` without the wrapper. -/
def unwrapType (t : List Char) : Option (List Char) :=
  (ChTypes.stripWrapper "Nullable" t).or (ChTypes.stripWrapper "LowCardinality" t)

theorem unwrapType_length {t inner : List Char} (h : unwrapType t = some inner) : (trim inner).length < t.length := by
  have hle := ChTypes.length_trim_le inner
  unfold unwrapType at h
  rcases Option.or_eq_some_iff.mp h with h | ⟨-, h⟩
  · have := ChTypes.length_wrap "Nullable" inner
    rw [← ChTypes.stripWrapper_eq_some.mp h] at this
    omega
  · have := ChTypes.length_wrap "LowCardinality" inner
    rw [← ChTypes.stripWrapper_eq_some.mp h] at this
    omega

def innermostType (t : List Char) : List Char :=
  match h : unwrapType t with
  | some inner =>
    have := unwrapType_length h
    innermostType (trim inner)
  | none => t
termination_by t.length

/-- A date or a datetime type, whose name needs no quoting. -/
def isClickhouseTemporalType (t : String) : Bool :=
  !Text.contains "--" t.toList &&
    t.toList.all (fun c => c.isAlphanum || c ∈ " (),'/_+-.".toList) &&
    "Date".toList.isPrefixOf (innermostType (trim t.toList))

def clickhouseCursorLiteral (value : String) (temporalType : Option String) : String :=
  let literal := String.ofList (quoteClickhouseLiteral value.toList)
  match temporalType with
  | some t => "CAST(" ++ literal ++ " AS " ++ t ++ ")"
  | none => literal

def lookbackLowerBoundClickhouse (last : String) (lookbackSeconds : Nat) (temporalType : Option String) : String :=
  let interval := " - INTERVAL " ++ toString lookbackSeconds ++ " SECOND)"
  if lookbackSeconds = 0 then clickhouseCursorLiteral last temporalType
  else
    match temporalType with
    | some _ => "(" ++ clickhouseCursorLiteral last temporalType ++ interval
    | none => "(toDateTime64(" ++ String.ofList (quoteClickhouseLiteral last.toList) ++ ", 6, 'UTC')" ++ interval

def buildWatermarkFilter (col : String) (lower upper : Option String) : List BoundCond :=
  (lower.map (BoundCond.past col)).toList ++ (upper.map (BoundCond.upTo col)).toList

def seedValue (seed : WatermarkSeed) (snapshotMax : Option String) : Option String :=
  match seed with
  | .none => none
  | .value v => some v
  | .currentMax => snapshotMax

/-! ### A run -/

/-- What a run knows when it sets up its read. -/
structure Run (e : KeysetEngine) where
  cfg : TransferConfig
  sourceCols : List (SourceColumn e)
  committed : Option String := none
  snapshotMax : Option String := none
  /-- The bound an interrupted run read up to. -/
  pinnedUpper : Option String := none
  streamMaxCursor : Bool := false
  nullWatermarkLands : Bool := true
  /-- The read is swept in windows of its key, or its watermark bounds the key already. -/
  swept : Bool := false
  final : FinalRead := {}
  watermarkType : Option String := none

namespace Run

variable (run : Run e)

/-- Where the read starts, as far as it is known before the largest watermark is. -/
def cursorHint : Option String :=
  run.committed.or (match run.cfg.seedWatermark with
    | .value v => some v
    | _ => none)

def effectiveUpper : Option String := run.pinnedUpper.or run.snapshotMax

/-- The lower bound of the read. -/
def last : Option String := run.committed.or (seedValue run.cfg.seedWatermark run.effectiveUpper)

def watermarkColumnSql (watermark : String) : String := run.cfg.watermarkSourceExpr.getD (e.quoteName watermark)

def tzAware (watermark : String) : Bool :=
  (run.sourceCols.find? (·.name = watermark)).any fun c => match c.arrow with
    | .timestamp (some _) => true
    | _ => false

/-- The bounds of the watermark, by the engine. -/
def bounds (watermark : String) : List BoundCond :=
  let col := run.watermarkColumnSql watermark
  let temporal := run.watermarkType.filter isClickhouseTemporalType
  match e with
  | .postgres =>
    buildWatermarkFilter col
      (run.last.map fun l => lookbackLowerBoundPg l run.cfg.lookbackSeconds (run.tzAware watermark))
      (run.effectiveUpper.map fun u => String.ofList (quoteSqlLiteral u.toList))
  | .mySql =>
    buildWatermarkFilter col
      (run.last.map fun l => lookbackLowerBoundMysql l run.cfg.lookbackSeconds)
      (run.effectiveUpper.map fun u => String.ofList (quoteMysqlLiteral u.toList))
  | .clickHouse =>
    buildWatermarkFilter col
      (run.last.map fun l => lookbackLowerBoundClickhouse l run.cfg.lookbackSeconds temporal)
      (run.effectiveUpper.map fun u => clickhouseCursorLiteral u temporal)

/-- The filter of the run.  A first read that is held to the bound of the one it resumes reads the rows without a
watermark too, where they land; an unbounded one leaves them out where they do not. -/
def filter : RowFilter :=
  if run.cfg.mode.keepsCursor then
    match run.cfg.watermark with
    | none => .all
    | some watermark =>
      let conds := run.bounds watermark
      let lands := run.nullWatermarkLands && run.cfg.mode ≠ .append
      if conds = [] then if lands then .all else .notNull (run.watermarkColumnSql watermark)
      else if run.last.isNone && run.pinnedUpper.isSome && run.streamMaxCursor && lands then
        .withinOrNull conds (run.watermarkColumnSql watermark)
      else .within conds
  else .all

/-- How the Arrow types that are no dates are written in an error. -/
def debugArrow : ArrowType → String
  | .boolean => "Boolean"
  | .int8 => "Int8"
  | .int16 => "Int16"
  | .int32 => "Int32"
  | .int64 => "Int64"
  | .uint8 => "UInt8"
  | .uint16 => "UInt16"
  | .uint32 => "UInt32"
  | .uint64 => "UInt64"
  | .float32 => "Float32"
  | .float64 => "Float64"
  | .utf8 => "Utf8"
  | .binary => "Binary"
  | .date32 => "Date32"
  | .timestamp _ => "Timestamp"
  | .decimal128 _ => "Decimal128"

/-- The watermark of a mode that keeps a cursor is a column of the source, with dates where there is a lookback. -/
def checkWatermark : Except EtlError Unit :=
  match run.cfg.watermark.filter fun _ => run.cfg.mode.keepsCursor with
  | none => .ok ()
  | some watermark =>
    match run.sourceCols.find? (·.name = watermark) with
    | none =>
      .error (.config ("watermark column '" ++ watermark ++ "' not found in source; available columns: " ++
        ", ".intercalate (run.sourceCols.map (·.name))))
    | some col =>
      if run.cfg.lookbackSeconds = 0 ∨ mayCoerceToNull col.arrow then .ok ()
      else .error (.config ("lookback_seconds requires the watermark column '" ++ watermark ++ "' to be a date or " ++
        "timestamp type (resolved as " ++ debugArrow col.arrow ++ ")"))

/-- What the source is asked to split, once the watermark is checked. -/
def request : Except EtlError (Option PartitionRequest) := do
  run.checkWatermark
  if e = .clickHouse then requestFinal run.cfg run.sourceCols run.final
  else if run.swept then .ok none
  else requestAbove run.cfg run.sourceCols run.cursorHint

end Run

/-- What the sources answer to the probe of a range. -/
structure Probes where
  postgres : String → Except EtlError (Option Int × Option Int)
  mySql : String → Except (EtlError × Bool) (Option (Option MySqlValue × Option MySqlValue))
  clickHouse : String → Except EtlError (List (List (Option (List Char))))

def Probes.rangePartitions (probes : Probes) (req : PartitionRequest) :
    KeysetEngine → Except EtlError (List KeyPartition)
  | .postgres => req.rangePartitions probes.postgres
  | .mySql => MySqlSource.rangePartitions req probes.mySql
  | .clickHouse => ClickHouseSource.rangePartitions req probes.clickHouse

/-- The parts of the read. -/
def Run.partitions (run : Run e) (probes : Probes) : Except EtlError (List KeyPartition) := do
  match ← run.request with
  | none => .ok PartitionRequest.single
  | some req => probes.rangePartitions req e

/-! ### The rows that are read -/

/-- What the conditions of a read are about, in a row. -/
structure Values (Row : Type) where
  /-- The number a column or an expression is, or NULL. -/
  number : String → Row → Option ℚ
  /-- The number in a statement that selects these expressions under the names of their columns and takes a name in a
  condition for what is selected under it.  (The cast of each column keeps its value.) -/
  selected : StringMap → String → Row → Option ℚ
  /-- The columns an expression names. -/
  names : String → String → Prop
  selected_eq : ∀ {transforms : StringMap} {key : String}, (∀ t ∈ transforms.entries, ¬ names key t.1) → ∀ r : Row,
    selected transforms key r = number key r
  passes : BoundCond → Row → Bool
  isNull : String → Row → Bool

variable {Row : Type}

def RowFilter.admits (v : Values Row) : RowFilter → Row → Bool
  | .all, _ => true
  | .within conds, r => conds.all (v.passes · r)
  | .withinOrNull conds col, r => conds.all (v.passes · r) || v.isNull col r
  | .notNull col, r => !v.isNull col r

def keyOf : KeyCond → String
  | .between key _ _ => key
  | .isNull key => key

/-- The rows a `WHERE` with the condition admits, by the number of the key. -/
def admitsKey (key : Option ℚ) : KeyCond → Bool
  | .between _ start finish => Sql.between3 key (literalValue start : ℚ) (literalValue finish : ℚ) == some true
  | .isNull _ => key.isNone

/-- The number a statement of the read takes the key for. -/
def Run.keyValue (v : Values Row) (run : Run e) (key : String) (r : Row) : Option ℚ :=
  match e with
  | .clickHouse => v.selected run.cfg.columnTransforms key r
  | .postgres | .mySql => v.number key r

/-- A part and the run's filter, which its statement joins with `AND`, admit the row. -/
def Run.reads (v : Values Row) (run : Run e) (p : KeyPartition) (r : Row) : Bool :=
  (p.cond.all fun c => admitsKey (run.keyValue v (keyOf c) r) c) && run.filter.admits v r

/-- The keys that a probe is about. -/
def probed (v : Values Row) (stored : List Row) (s : KeySplit) : List (Option ℚ) :=
  (stored.map (v.number s.key)).filter fun k => s.above.all fun c => k.any ((c : ℚ) < ·)

/-- A text, or NULL, is a number's, or there is none. -/
def Written : Option (List Char) → Option ℚ → Prop
  | some text, some q => ∀ k : Int, q = k → text = (toString k).toList
  | none, none => True
  | _, _ => False

/-- Rows that are their own keys. -/
def keyRows : Values Int where
  number _ r := some r
  selected _ _ r := some r
  names key col := key = KeysetEngine.postgres.quoteName col
  selected_eq _ _ := rfl
  passes cond r := match cond with
    | .past _ bound => bound = "'3'" ∧ 3 < r
    | .upTo .. => false
  isNull _ _ := false

end ParallelRead

end Quickhouse
