import Quickhouse.Transform

/-!
# The planned columns

The part of `plan_for_destination` that types the destination columns and says which of them cannot hold a NULL.
The names are those of `planForDestination`, which is its other part.
-/

namespace Quickhouse

open Text Results

/-- An exact decimal that an Arrow array can hold. -/
structure DecimalType where
  precision : Nat
  scale : Int
  valid : 1 ≤ precision ∧ precision ≤ 38 ∧ scale ≤ 38 ∧ (0 < scale → scale ≤ precision)
  deriving DecidableEq, Repr

/-- The Arrow types a source maps its columns to; a timestamp counts microseconds. -/
inductive ArrowType where
  | boolean | int8 | int16 | int32 | int64 | uint8 | uint16 | uint32 | uint64 | float32 | float64 | utf8 | binary
  | date32
  | timestamp (tz : Option String)
  | decimal128 (d : DecimalType)
  deriving DecidableEq, Repr

/-- Whether a decoder of this type may turn a value that is not NULL into NULL. -/
def mayCoerceToNull : ArrowType → Bool
  | .date32 | .timestamp _ | .decimal128 _ => true
  | _ => false

structure ColumnType where
  name : String
  nullable : Bool
  arrow : ArrowType
  clickhouseInner : String
  arbitraryPrecisionDecimal : Bool := false
  declaredDecimal : Option (Nat × Int) := none
  deriving DecidableEq, Repr

/-- What the destination already holds. -/
inductive ExistingColumns where
  | noTable
  | known (types : StringMap)
  | unknown

inductive ExistingDecimals where
  | none
  | decimal
  | float
  | mixed (decimal float : List String)
  deriving DecidableEq, Repr

/-! ### Type names -/

/-- A single-quoted argument. -/
def extractQuotedTz (s : List Char) : Option String := do
  let (_, rest) ← splitOnce '\'' s
  let (tz, _) ← splitOnce '\'' rest
  return String.ofList tz

/-- The time zone a datetime type name implies; `none` when it is not one. -/
def datetimeOverrideTz (destType : String) : Option (Option String) :=
  let trimmed := trim destType.toList
  let lower := trimmed.map Char.toLower
  if lower = "timestamp".toList then some (some "UTC")
  else if lower = "datetime".toList then some none
  else if "datetime".toList.isPrefixOf lower then some (extractQuotedTz trimmed)
  else none

/-- The ClickHouse type a portable datetime name stands for. -/
def clickhouseDatetimeSpelling (destType : String) : String :=
  let trimmed := trim destType.toList
  let lower := trimmed.map Char.toLower
  if lower = "datetime".toList ∧ trimmed ≠ "DateTime".toList then "DateTime64(6)"
  else if lower = "timestamp".toList then "DateTime64(6, 'UTC')"
  else destType

/-- `Decimal(P, S)`. -/
def parseDecimalOverride (s : String) : Option (Nat × Int) := do
  let rest ← stripPrefix "Decimal(" (trim s.toList)
  let rest ← stripSuffix ")" rest
  let (p, s) ← splitOnce ',' rest
  let precision ← parseUnsigned 255 (trim p)
  let scale ← parseSigned (-128) 127 (trim s)
  return (precision, scale)

def parseColumnTransformType (name : String) : Option ArrowType :=
  if name ∈ ["Boolean", "Bool"] then some .boolean
  else if name = "Int16" then some .int16
  else if name = "Int32" then some .int32
  else if name = "Int64" then some .int64
  else if name = "UInt32" then some .uint32
  else if name = "Float32" then some .float32
  else if name = "Float64" then some .float64
  else if name ∈ ["Utf8", "String", "Text"] then some .utf8
  else if name = "Binary" then some .binary
  else if name ∈ ["Date32", "Date"] then some .date32
  else none

/-- The first bound of an Arrow decimal that is not met. -/
def decimalFault (p : Nat) (s : Int) : String :=
  if p = 0 then "precision cannot be 0, has to be between [1, 38]"
  else if 38 < p then "precision " ++ toString p ++ " is greater than max 38"
  else if 38 < s then "scale " ++ toString s ++ " is greater than max 38"
  else "scale " ++ toString s ++ " is greater than precision " ++ toString p

/-- The exact decimal an arbitrary-precision column is decoded as, if its destination type names one. -/
def resolveDecimalPromotion (chInner : String) (dest : DestKind) (destName : String) :
    Except String (Option DecimalType) :=
  match parseDecimalOverride chInner with
  | some (p, s) =>
    if valid : 1 ≤ p ∧ p ≤ 38 ∧ s ≤ 38 ∧ (0 < s → s ≤ p) then .ok (some ⟨p, s, valid⟩)
    else .error ("column '" ++ destName ++ "': type_overrides '" ++ chInner ++ "' is not a valid " ++
      "Decimal128(P,S) override: Invalid argument error: " ++ decimalFault p s ++
      " (Decimal256/P>38 isn't supported yet — " ++
      "use P<=38, or drop the override to keep the default lossy Float64 mapping)")
  | none =>
    if dest = .bigQuery ∧ (trim chInner.toList).map Char.toLower = "numeric".toList then
      .ok (some ⟨38, 9, by decide⟩)
    else .ok none

/-- A destination type that holds exact decimals. -/
def isDecimalType (destType : String) : Bool :=
  let lower := destType.toList.map Char.toLower
  Text.contains "decimal" lower || "numeric".toList.isPrefixOf lower || "bignumeric".toList.isPrefixOf lower

/-- Whether the destination can hold a declared decimal. -/
def decimalFits (p : Nat) (s : Int) (dest : DestKind) : Bool :=
  !(dest = .bigQuery && (9 < s || 29 < (p : Int) - s))

/-- Exact first, then up to ASCII case. -/
def ExistingColumns.typeOf (existing : ExistingColumns) (name : String) : Option String :=
  match existing with
  | .known types =>
    (types.get name).or ((types.entries.find? fun e => asciiLower e.1 = asciiLower name).map Prod.snd)
  | .noTable | .unknown => none

/-! ### Engine parameters -/

/-- Split at the commas that are not inside single quotes. -/
def splitUnquoted (s : List Char) : List (List Char) :=
  let (parts, current, _) := s.foldl
    (fun (parts, current, quoted) ch =>
      if ch = '\'' then (parts, current ++ [ch], !quoted)
      else if ch = ',' ∧ quoted = false then (parts ++ [current], [], quoted)
      else (parts, current ++ [ch], quoted))
    (([], [], false) : List (List Char) × List Char × Bool)
  parts ++ [current]

/-- A name without its backticks or double quotes. -/
def unquoteName (p : List Char) : List Char :=
  (((stripPrefix "`" p).bind (stripSuffix "`")).or ((stripPrefix "\"" p).bind (stripSuffix "\""))).getD p

/-- The columns a ClickHouse engine's own parameters name. -/
def engineParameterColumns (engine : String) : List String :=
  match splitOnce '(' engine.toList with
  | none => []
  | some (family, args) =>
    let family := trim family
    let family := (stripPrefix "Replicated" family).getD family
    if ¬ (family = "ReplacingMergeTree".toList ∨ family = "CollapsingMergeTree".toList ∨
        family = "VersionedCollapsingMergeTree".toList) then []
    else
      let args := trimEnd args
      let args := (stripSuffix ")" args).getD args
      (((splitUnquoted args).map trim).filter fun p => !p.isEmpty && p.head? ≠ some '\'').map
        fun p => String.ofList (unquoteName p)

/-! ### The plan -/

/-- What a run reads and where it lands: the lists are parallel. -/
structure ColumnPlan where
  sourceColumns : List String
  sourceSelectExprs : List (Option String)
  destColumns : List ColumnType
  deriving DecidableEq

/-- The plan without its types. -/
def ColumnPlan.names (p : ColumnPlan) : SelectPlan where
  sourceColumns := p.sourceColumns
  sourceSelectExprs := p.sourceSelectExprs
  destColumns := p.destColumns.map ColumnType.name

namespace TransferConfig

variable (cfg : TransferConfig) (dest : DestKind)

def includedColumns (source : List ColumnType) : List ColumnType :=
  (source.filter fun c => cfg.include.isEmpty || cfg.include.contains c.name).filter
    fun c => !cfg.exclude.contains c.name

/-- How the destination types the columns that declare a precision. -/
def existingDecimals (source : List ColumnType) (existing : ExistingColumns) : ExistingDecimals :=
  if dest = .csv then .none
  else
    let decided := (cfg.includedColumns source).filter fun c => match c.declaredDecimal with
      | some (p, s) => decimalFits p s dest && (cfg.typeOverrides.get c.name).isNone &&
          (cfg.typeOverrides.get (cfg.landed c.name)).isNone
      | none => false
    let decimal := (decided.map fun c => cfg.landed c.name).filter
      fun n => (existing.typeOf n).any isDecimalType
    let float := (decided.map fun c => cfg.landed c.name).filter
      fun n => (existing.typeOf n).any fun t => !isDecimalType t
    if decimal = [] ∧ float = [] then .none
    else if float = [] then .decimal
    else if decimal = [] then .float
    else .mixed (decimal.mergeSort (· ≤ ·)) (float.mergeSort (· ≤ ·))

/-- The exact decimal a column that declares its precision defaults to. -/
def declaredDecimalDefault (c : ColumnType) (destName : String) (existing : ExistingColumns)
    (decimals : ExistingDecimals) : Option String :=
  match c.declaredDecimal with
  | none => none
  | some (p, s) =>
    let kept := match existing with
      | .noTable => false
      | .unknown => true
      | .known _ => match existing.typeOf destName with
        | some destType => !isDecimalType destType
        | none => decide (decimals = .float)
    if kept || !decimalFits p s dest then none
    else some ("Decimal(" ++ toString p ++ ", " ++ toString s ++ ")")

/-- The destination's name for the type of the column. -/
def plannedInner (existing : ExistingColumns) (decimals : ExistingDecimals) (c : ColumnType) : String :=
  let destName := cfg.landed c.name
  let chInner := (((((cfg.typeOverrides.get c.name).or (cfg.typeOverrides.get destName)).or
    (cfg.numericAsDecimal.filter fun _ => c.arbitraryPrecisionDecimal)).or
    (declaredDecimalDefault dest c destName existing decimals)).getD c.clickhouseInner)
  if dest = .clickHouse then clickhouseDatetimeSpelling chInner else chInner

/-- The type the column is decoded as. -/
def plannedArrow (c : ColumnType) (chInner : String) : Except String ArrowType :=
  match cfg.columnTransformTypes.get c.name with
  | some name => match parseColumnTransformType name with
    | some arrow => .ok arrow
    | none => .error ("column_transform_types['" ++ c.name ++ "'] = '" ++ name ++ "' is not a recognized " ++
        "decode type (expected one of Boolean, Int16, Int32, Int64, UInt32, Float32, Float64, Utf8, Binary, Date32 — " ++
        "for a datetime or decimal type change, use type_overrides instead, which already carries the " ++
        "timezone/precision info those need)")
  | none =>
    if c.arbitraryPrecisionDecimal then
      (resolveDecimalPromotion chInner dest (cfg.landed c.name)).map fun d => d.elim c.arrow .decimal128
    else match c.arrow with
      | .timestamp tz => .ok (.timestamp ((datetimeOverrideTz chInner).getD tz))
      | arrow => .ok arrow

/-- The columns the engine of a ClickHouse table names. -/
def engineColumns : List String := if dest = .clickHouse then engineParameterColumns cfg.effectiveEngine else []

/-- The version column of a ClickHouse `ReplacingMergeTree`. -/
def isVersionColumn (c : ColumnType) : Bool :=
  decide (cfg.watermark = some c.name) && decide (cfg.effectiveEngine = "ReplacingMergeTree") &&
    decide (dest = .clickHouse)

/-- The options that make a column NOT NULL by naming it as the destination does, `key` apart. -/
def namedNotNull : List String := cfg.orderBy ++ cfg.primaryKey ++ cfg.notNull ++ cfg.engineColumns dest

/-- NOT NULL whatever the source says. -/
def forceNonNullable (c : ColumnType) : Bool :=
  dest ≠ .csv && (cfg.key.contains (cfg.landed c.name) || (cfg.namedNotNull dest).contains (cfg.landed c.name) ||
    cfg.isVersionColumn dest c)

/-- Whether the destination column holds NULLs. -/
def plannedNullable (sourceMayCoerce : Bool) (c : ColumnType) (arrow : ArrowType) : Bool :=
  if cfg.forceNonNullable dest c then false
  else if dest = .csv then true
  else c.nullable || (sourceMayCoerce && mayCoerceToNull arrow) ||
    (decide (cfg.watermark = some c.name) && dest ≠ .clickHouse)

/-- What the plan sees of the destination: a CSV folder keeps no types. -/
def seen (existing : ExistingColumns) : ExistingColumns := if dest = .csv then .noTable else existing

/-- The type a column of the source is decoded as. -/
def decodedAs (source : List ColumnType) (existing : ExistingColumns) (c : ColumnType) : Except String ArrowType :=
  cfg.plannedArrow dest c
    (cfg.plannedInner dest (seen dest existing) (cfg.existingDecimals dest source (seen dest existing)) c)

def planColumn (sourceMayCoerce : Bool) (existing : ExistingColumns) (decimals : ExistingDecimals)
    (c : ColumnType) : Except String ColumnType := do
  let chInner := cfg.plannedInner dest existing decimals c
  let arrow ← cfg.plannedArrow dest c chInner
  pure {
    name := cfg.landed c.name
    nullable := cfg.plannedNullable dest sourceMayCoerce c arrow
    arrow
    clickhouseInner := chInner
    arbitraryPrecisionDecimal := c.arbitraryPrecisionDecimal
    declaredDecimal := c.declaredDecimal }

/-- `planForDestination` with the types of the columns. -/
def planColumns (source : List ColumnType) (sourceMayCoerce : Bool) (existing : ExistingColumns) :
    Except String ColumnPlan := do
  let existing := seen dest existing
  let columns := cfg.includedColumns source
  let names := source.map ColumnType.name
  refuse (columns = []) "column selection (include/exclude) left no columns to transfer"
  refuseFirst cfg.include (fun want => !names.contains want)
    (fun want => "include column '" ++ want ++ "' not found in source")
  refuseFirst cfg.columnTransforms.entries (fun e => !(columns.map ColumnType.name).contains e.1 || isBlank e.2)
    (fun e => if (columns.map ColumnType.name).contains e.1 then
        "column_transforms['" ++ e.1 ++ "'] is an empty expression"
      else "column_transforms references column '" ++ e.1 ++ "', which isn't in the transferred set " ++
        "(check the name, and that it isn't excluded / left out of include)")
  refuseFirst cfg.columnTransformTypes.entries (fun e => (cfg.columnTransforms.get e.1).isNone)
    (fun e => "column_transform_types['" ++ e.1 ++ "'] has no matching column_transforms['" ++ e.1 ++
      "'] entry — a decode-type override only makes sense paired with a value transform " ++
      "that changes what's actually sent on the wire")
  let destColumns ← columns.mapM
    (cfg.planColumn dest sourceMayCoerce existing (cfg.existingDecimals dest source existing))
  ensureKeyColumns names cfg dest (destColumns.map ColumnType.name)
  pure {
    sourceColumns := columns.map ColumnType.name
    sourceSelectExprs := columns.map fun c => cfg.columnTransforms.get c.name
    destColumns }

/-! ### What a plan holds -/

variable {cfg : TransferConfig} {dest : DestKind}

private theorem map_eq_of_forall₂ {α β γ : Type} {f : α → γ} {g : β → γ} {xs : List α} {ys : List β}
    (h : List.Forall₂ (fun x y => g y = f x) xs ys) : ys.map g = xs.map f := by
  induction h with
  | nil => rfl
  | cons hxy _ ih => rw [List.map_cons, List.map_cons, hxy, ih]

theorem planColumn_eq_ok {m : Bool} {existing : ExistingColumns} {decimals : ExistingDecimals} {c d : ColumnType}
    (h : cfg.planColumn dest m existing decimals c = .ok d) :
    d.name = cfg.landed c.name ∧ d.nullable = cfg.plannedNullable dest m c d.arrow ∧
      d.clickhouseInner = cfg.plannedInner dest existing decimals c ∧
      cfg.plannedArrow dest c d.clickhouseInner = .ok d.arrow := by
  obtain ⟨arrow, harrow, h⟩ := bind_eq_ok.mp h
  obtain rfl := Except.ok.inj h
  exact ⟨rfl, rfl, rfl, harrow⟩

theorem includedColumns_names (source : List ColumnType) :
    (cfg.includedColumns source).map ColumnType.name = cfg.included (source.map ColumnType.name) := by
  unfold includedColumns included
  rw [List.filter_map, List.filter_map]
  rfl

/-- What a plan writes, column by column: the included columns, under their landed names. -/
structure Planned (cfg : TransferConfig) (dest : DestKind) (source : List ColumnType) (sourceMayCoerce : Bool)
    (existing : ExistingColumns) (p : ColumnPlan) : Prop where
  sources : p.sourceColumns = (cfg.includedColumns source).map ColumnType.name
  exprs : p.sourceSelectExprs = (cfg.includedColumns source).map fun c => cfg.columnTransforms.get c.name
  columns : List.Forall₂ (fun c d => d.name = cfg.landed c.name ∧
    d.nullable = cfg.plannedNullable dest sourceMayCoerce c d.arrow ∧
    cfg.decodedAs dest source existing c = .ok d.arrow) (cfg.includedColumns source) p.destColumns

theorem planColumns_eq_ok {source : List ColumnType} {m : Bool} {existing : ExistingColumns} {p : ColumnPlan}
    (h : cfg.planColumns dest source m existing = .ok p) :
    cfg.includedColumns source ≠ [] ∧ p.sourceColumns = (cfg.includedColumns source).map ColumnType.name ∧
      (p.sourceSelectExprs = (cfg.includedColumns source).map fun c => cfg.columnTransforms.get c.name) ∧
      List.Forall₂ (fun c d => cfg.planColumn dest m (seen dest existing)
        (cfg.existingDecimals dest source (seen dest existing)) c = .ok d) (cfg.includedColumns source) p.destColumns := by
  unfold planColumns at h
  obtain ⟨_, hnonempty, h⟩ := bind_eq_ok.mp h
  obtain ⟨-, -, h⟩ := bind_eq_ok.mp h
  obtain ⟨-, -, h⟩ := bind_eq_ok.mp h
  obtain ⟨-, -, h⟩ := bind_eq_ok.mp h
  obtain ⟨cols, hcols, h⟩ := bind_eq_ok.mp h
  obtain ⟨-, -, h⟩ := bind_eq_ok.mp h
  obtain rfl := Except.ok.inj h
  exact ⟨refuse_eq_ok.mp hnonempty, rfl, rfl, forall₂_of_mapM_eq_ok hcols⟩

theorem planColumns_planned {source : List ColumnType} {m : Bool} {existing : ExistingColumns} {p : ColumnPlan}
    (h : cfg.planColumns dest source m existing = .ok p) : Planned cfg dest source m existing p := by
  obtain ⟨-, hsources, hexprs, hcolumns⟩ := planColumns_eq_ok h
  refine ⟨hsources, hexprs, hcolumns.imp fun c d hcd => ?_⟩
  obtain ⟨hname, hnullable, hinner, harrow⟩ := planColumn_eq_ok hcd
  exact ⟨hname, hnullable, by rw [decodedAs, ← hinner]; exact harrow⟩

/-- The typed plan is the plan of `planForDestination`, with types. -/
theorem planColumns_names {source : List ColumnType} {m : Bool} {existing : ExistingColumns} {p : ColumnPlan}
    (h : cfg.planColumns dest source m existing = .ok p) :
    planForDestination (source.map ColumnType.name) cfg dest = .ok p.names := by
  have hplanned := planColumns_planned h
  unfold planColumns at h
  obtain ⟨_, hnonempty, h⟩ := bind_eq_ok.mp h
  obtain ⟨_, hinclude, h⟩ := bind_eq_ok.mp h
  obtain ⟨_, htransforms, h⟩ := bind_eq_ok.mp h
  obtain ⟨_, htypes, h⟩ := bind_eq_ok.mp h
  obtain ⟨cols, hcols, h⟩ := bind_eq_ok.mp h
  obtain ⟨_, hkeys, h⟩ := bind_eq_ok.mp h
  obtain rfl := Except.ok.inj h
  have hnames : cols.map ColumnType.name = ((cfg.includedColumns source).map ColumnType.name).map cfg.landed := by
    rw [List.map_map]
    exact map_eq_of_forall₂ (hplanned.columns.imp fun c d hcd => hcd.1)
  have hsome : refuse ((cfg.includedColumns source).map ColumnType.name = [])
      "column selection (include/exclude) left no columns to transfer" = .ok () := by
    simpa only [refuse, List.map_eq_nil_iff] using hnonempty
  rw [hnames, List.map_map] at hkeys
  unfold planForDestination
  rw [← includedColumns_names]
  simp only [hsome, hinclude, htransforms, htypes, hkeys, bind, Except.bind, pure, Except.pure,
    ColumnPlan.names, hnames, List.map_map]
  rfl

end TransferConfig
end Quickhouse
