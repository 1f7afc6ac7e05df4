import Mathlib.Data.List.ReduceOption
import Quickhouse.NullGuard
import Quickhouse.Source.ChTypes

/-!
# Copies of ClickHouse columns

A table copied from ClickHouse to ClickHouse is declared with the columns that were planned from its own.  Described in its
turn, each column that no option types resolves to the one it was copied from, under its new name and NOT NULL where an
option makes it so; and each column's values are read through a cast to a type that is mapped to the Arrow type they are
decoded as (`copied_table_resolves`).
-/

namespace Quickhouse

namespace ChTypes

open Text Results

/-! ### Names with parameters -/

section Call

variable {name : String} (hname : '(' ∉ name.toList)
include hname

theorem takeWhile_wrap (inner : List Char) : (wrap name inner).takeWhile (· ≠ '(') = name.toList := by
  have hpos : ∀ c ∈ name.toList, decide (c ≠ '(') = true := by
    intro c hc
    rw [decide_eq_true_eq]
    rintro rfl
    exact hname hc
  unfold wrap
  rw [List.append_assoc, List.takeWhile_append_of_pos hpos]
  simp

omit hname in
theorem beforeClose_wrap (inner : List Char) : beforeClose (wrap name inner) = name.toList ++ '(' :: inner := by
  unfold beforeClose wrap
  simp

theorem args_wrap {inner : List Char} (hinner : inner ≠ []) :
    args (wrap name inner) = (inner.splitOn ',').map trim := by
  have hlen := List.length_pos_of_ne_nil hinner
  unfold args
  rw [takeWhile_wrap hname, beforeClose_wrap]
  dsimp only
  rw [if_pos]
  · rw [List.drop_append, List.drop_of_length_le (Nat.le_succ _), Nat.add_sub_cancel_left]
    rfl
  · refine ⟨by simp [wrap], by simp [wrap], ?_⟩
    simp only [List.length_append, List.length_cons]
    omega

theorem baseName_wrap (hend : trimEnd name.toList = name.toList) (inner : List Char) :
    baseName (wrap name inner) = name.toList := by
  unfold baseName
  rw [if_pos (by simp [wrap]), takeWhile_wrap hname, hend]

end Call

/-- What is mapped is wrapped in nothing. -/
theorem stripWrapper_of_mapped {name : String} {payload : List Char} {r : TypeId × ArrowType} (hopen : '(' ∉ name.toList)
    (hend : trimEnd name.toList = name.toList) (hname : name ∉ knownBases) (h : payloadType payload = some r) :
    stripWrapper name payload = none := by
  apply Option.eq_none_iff_forall_ne_some.mpr
  intro inner hinner
  have hknown := base_known h
  rw [stripWrapper_eq_some.mp hinner, baseName_wrap hopen hend, String.ofList_toList] at hknown
  exact hname hknown

/-! ### The declared type read back -/

/-- A mapped column, by the parts of its declared name. -/
theorem mapChType_eq_some {declared : String} {c : ChColumn} (h : mapChType declared = some c) :
    ∃ inner, splitNullable declared.toList = (inner, c.nullable) ∧ c.clickhouseInner = String.ofList inner ∧
      payloadType (payloadOf inner) = some (c.typeId, c.arrow) ∧
      c.arbitraryPrecisionDecimal = decide (c.typeId = .decimal) := by
  unfold mapChType at h
  obtain ⟨r, hr, rfl⟩ := Option.map_eq_some_iff.mp h
  exact ⟨(splitNullable declared.toList).1, rfl, rfl, hr, rfl⟩

/-- The column of a payload. -/
def columnOf (inner : List Char) (nullable : Bool) (r : TypeId × ArrowType) : ChColumn where
  typeId := r.1
  arrow := r.2
  clickhouseInner := String.ofList inner
  nullable
  arbitraryPrecisionDecimal := r.1 = .decimal

theorem mapChType_of_split {declared : String} {inner : List Char} {nullable : Bool} {r : TypeId × ArrowType}
    (hsplit : splitNullable declared.toList = (inner, nullable)) (hr : payloadType (payloadOf inner) = some r) :
    mapChType declared = some (columnOf inner nullable r) := by
  unfold mapChType
  rw [hsplit]
  show Option.map _ (payloadType (payloadOf inner)) = _
  rw [hr]
  rfl

/-- What the declared type of a copy is resolved to: a dictionary's type without white space around it. -/
def tidied (inner : List Char) : List Char :=
  match stripWrapper "LowCardinality" inner with
  | some payload => wrap "LowCardinality" (trim payload)
  | none => inner

theorem tidied_dictionary (payload : List Char) :
    tidied (wrap "LowCardinality" payload) = wrap "LowCardinality" (trim payload) := by
  unfold tidied
  rw [stripWrapper_wrap]

theorem payloadOf_dictionary (payload : List Char) : payloadOf (wrap "LowCardinality" payload) = payload := by
  unfold payloadOf
  rw [stripWrapper_wrap]
  rfl

/-- A name is a dictionary's or is not. -/
theorem dictionary_or_not (inner : List Char) :
    (∃ payload, inner = wrap "LowCardinality" payload) ∨ stripWrapper "LowCardinality" inner = none := by
  cases h : stripWrapper "LowCardinality" inner with
  | some payload => exact .inl ⟨payload, stripWrapper_eq_some.mp h⟩
  | none => exact .inr rfl

theorem tidied_tidied (inner : List Char) : tidied (tidied inner) = tidied inner := by
  rcases dictionary_or_not inner with ⟨payload, rfl⟩ | hnone
  · rw [tidied_dictionary, tidied_dictionary, trim_trim]
  · have hself : tidied inner = inner := by
      unfold tidied
      rw [hnone]
    rw [hself, hself]

theorem payloadType_tidied {inner : List Char} {r : TypeId × ArrowType} (h : payloadType (payloadOf inner) = some r) :
    payloadType (payloadOf (tidied inner)) = some r := by
  rcases dictionary_or_not inner with ⟨payload, rfl⟩ | hnone
  · rw [payloadOf_dictionary] at h
    rw [tidied_dictionary, payloadOf_dictionary]
    exact payloadType_trim h
  · unfold tidied
    rw [hnone]
    exact h

/-- `Nullable` put around a type is split off again. -/
theorem splitNullable_wrapped {inner : List Char} {r : TypeId × ArrowType} (htrim : trim inner = inner)
    (h : payloadType (payloadOf inner) = some r) :
    splitNullable (wrapClickhouseNullable inner) = (tidied inner, true) := by
  rcases dictionary_or_not inner with ⟨payload, rfl⟩ | hnone
  · rw [payloadOf_dictionary] at h
    have hwrap : wrapClickhouseNullable (wrap "LowCardinality" payload) =
        wrap "LowCardinality" (wrap "Nullable" payload) := by
      unfold wrapClickhouseNullable
      rw [stripWrapper_wrap]
      dsimp only
      rw [payload_not_nullable h]
      rfl
    rw [hwrap, splitNullable_dictionary, splitNullable_wrap, tidied_dictionary]
  · unfold wrapClickhouseNullable tidied
    rw [hnone]
    dsimp only
    rw [splitNullable_wrap, htrim]

theorem splitNullable_mapped {inner : List Char} {r : TypeId × ArrowType} (htrim : trim inner = inner)
    (h : payloadType (payloadOf inner) = some r) : splitNullable inner = (tidied inner, false) := by
  have hplain : ∀ t : List Char, payloadType t = some r → splitNullable t = (trim t, false) := by
    intro t ht
    have ht := payloadType_trim ht
    exact splitNullable_plain (stripWrapper_of_mapped (by decide) (by decide) (by decide) ht)
      (stripWrapper_of_mapped (by decide) (by decide) (by decide) ht)
  rcases dictionary_or_not inner with ⟨payload, rfl⟩ | hnone
  · rw [payloadOf_dictionary] at h
    rw [splitNullable_dictionary, hplain payload h, tidied_dictionary]
  · have hself : payloadOf inner = inner := by
      unfold payloadOf
      rw [hnone]
      rfl
    rw [hself] at h
    rw [hplain inner h, htrim]
    unfold tidied
    rw [hnone]

/-- The type a mapped column is declared with, NULL or not, is mapped to it. -/
theorem mapChType_declared {d : ColumnType} {r : TypeId × ArrowType}
    (htrim : trim d.clickhouseInner.toList = d.clickhouseInner.toList)
    (h : payloadType (payloadOf d.clickhouseInner.toList) = some r) :
    mapChType (clickhouseType d) = some (columnOf (tidied d.clickhouseInner.toList) d.nullable r) := by
  apply mapChType_of_split
  · unfold clickhouseType
    cases d.nullable with
    | false =>
      rw [if_neg Bool.false_ne_true]
      exact splitNullable_mapped htrim h
    | true =>
      rw [if_pos rfl, String.toList_ofList]
      exact splitNullable_wrapped htrim h
  · exact payloadType_tidied h

/-- `Nullable` around a dictionary, which ClickHouse refuses. -/
def NullableDictionary (declared : String) : Prop :=
  ∃ payload, trim declared.toList = wrap "Nullable" payload ∧ stripWrapper "LowCardinality" (trim payload) ≠ none

/-- Any other dictionary is over a name without white space around it. -/
theorem tidied_of_split {declared : String} {inner : List Char} {nullable : Bool} (hd : ¬ NullableDictionary declared)
    (h : splitNullable declared.toList = (inner, nullable)) : tidied inner = inner := by
  have hplain : ∀ t, stripWrapper "LowCardinality" t = none → tidied t = t := by
    intro t ht
    unfold tidied
    rw [ht]
  rcases splitNullable_cases declared.toList with ⟨x, htext, hx⟩ | ⟨x, -, -, hx⟩ | ⟨hnone, -, hx⟩
  · rw [hx] at h
    obtain rfl : trim x = inner := congrArg Prod.fst h
    apply hplain
    by_contra hne
    exact hd ⟨x, htext, hne⟩
  · rw [hx] at h
    obtain rfl : wrap "LowCardinality" (splitNullable x).1 = inner := congrArg Prod.fst h
    rw [tidied_dictionary, trim_splitNullable]
  · rw [hx] at h
    obtain rfl : trim declared.toList = inner := congrArg Prod.fst h
    exact hplain _ hnone

/-! ### The planned columns -/

/-- A column that was resolved from a type name. -/
structure WellMapped (c : ResolvedColumn) : Prop where
  trimmed : trim c.clickhouseInner.toList = c.clickhouseInner.toList
  payload : payloadType (payloadOf c.clickhouseInner.toList) = some (c.typeId, c.arrow)
  decimal : c.arbitraryPrecisionDecimal = decide (c.typeId = .decimal)
  undeclared : c.declaredDecimal = none

theorem wellMapped {declared : String} {c : ChColumn} (h : mapChType declared = some c) (name : String) :
    WellMapped (c.resolved name) := by
  obtain ⟨inner, hsplit, hinner, hr, hdec⟩ := mapChType_eq_some h
  have htext : (c.resolved name).clickhouseInner.toList = inner := by
    show c.clickhouseInner.toList = inner
    rw [hinner, String.toList_ofList]
  have htrim := trim_splitNullable declared.toList
  rw [hsplit] at htrim
  exact ⟨by rw [htext]; exact htrim, by rw [htext]; exact hr, hdec, rfl⟩

/-- No option names a type for the column. -/
def Untyped (cfg : TransferConfig) (c : ColumnType) : Prop :=
  cfg.typeOverrides.get c.name = none ∧ cfg.typeOverrides.get (cfg.landed c.name) = none ∧
    (cfg.numericAsDecimal = none ∨ c.arbitraryPrecisionDecimal = false)

/-- The column of the copy, as the copy's own `DESCRIBE` resolves it. -/
def copied (cfg : TransferConfig) (c : ResolvedColumn) : ResolvedColumn :=
  { c with
    name := cfg.landed c.name
    nullable := c.nullable && !cfg.forceNonNullable .clickHouse c.toColumnType
    clickhouseInner := String.ofList (tidied c.clickhouseInner.toList) }

theorem copied_copied (cfg cfg' : TransferConfig) (c : ResolvedColumn) :
    (copied cfg' (copied cfg c)).clickhouseInner = (copied cfg c).clickhouseInner := by
  show String.ofList (tidied (String.ofList (tidied c.clickhouseInner.toList)).toList) = _
  rw [String.toList_ofList, tidied_tidied]
  rfl

/-- A type's name without parameters is one of those that are known. -/
theorem mem_knownBases {inner : List Char} {r : TypeId × ArrowType} (h : payloadType (payloadOf inner) = some r)
    (hopen : '(' ∉ inner) : String.ofList inner ∈ knownBases := by
  have hnone : stripWrapper "LowCardinality" inner = none := by
    apply Option.eq_none_iff_forall_ne_some.mpr
    intro payload hpayload
    rw [stripWrapper_eq_some.mp hpayload] at hopen
    exact hopen (by simp [wrap])
  have hself : payloadOf inner = inner := by
    unfold payloadOf
    rw [hnone]
    rfl
  have hknown := base_known h
  unfold baseName at hknown
  rwa [hself, if_neg hopen] at hknown

/-- The portable names of datetimes are not ClickHouse's. -/
theorem clickhouseDatetimeSpelling_mapped {inner : String} {r : TypeId × ArrowType} (htrim : trim inner.toList = inner.toList)
    (h : payloadType (payloadOf inner.toList) = some r) : clickhouseDatetimeSpelling inner = inner := by
  have hknown : ∀ lower : String, '(' ∉ lower.toList → inner.toList.map Char.toLower = lower.toList →
      inner ∈ knownBases := by
    intro lower hlower heq
    rw [← @String.ofList_toList inner]
    refine mem_knownBases h fun hopen => hlower ?_
    rw [← heq]
    exact List.mem_map.mpr ⟨'(', hopen, by decide⟩
  have hnames : ∀ b ∈ knownBases, (b.toList.map Char.toLower = "datetime".toList → b.toList = "DateTime".toList) ∧
      b.toList.map Char.toLower ≠ "timestamp".toList := by
    decide
  unfold clickhouseDatetimeSpelling
  dsimp only
  rw [htrim]
  split_ifs with hdate hstamp
  · exact absurd ((hnames inner (hknown "datetime" (by decide) hdate.1)).1 hdate.1) hdate.2
  · exact absurd hstamp (hnames inner (hknown "timestamp" (by decide) hstamp)).2
  · rfl

theorem plannedInner_untyped {cfg : TransferConfig} {c : ResolvedColumn} (h : WellMapped c)
    (hu : Untyped cfg c.toColumnType) (existing : ExistingColumns) (decimals : ExistingDecimals) :
    cfg.plannedInner .clickHouse existing decimals c.toColumnType = c.clickhouseInner := by
  obtain ⟨hsource, hdest, hnumeric⟩ := hu
  have hdeclared : TransferConfig.declaredDecimalDefault .clickHouse c.toColumnType (cfg.landed c.name) existing decimals =
      none := by
    unfold TransferConfig.declaredDecimalDefault
    rw [h.undeclared]
  have hfilter : (cfg.numericAsDecimal.filter fun _ => c.arbitraryPrecisionDecimal) = none := by
    rcases hnumeric with hnone | hfalse
    · rw [hnone]
      rfl
    · rw [hfalse]
      cases cfg.numericAsDecimal <;> rfl
  unfold TransferConfig.plannedInner
  dsimp only
  rw [hsource, hdest, hfilter, hdeclared]
  exact clickhouseDatetimeSpelling_mapped h.trimmed h.payload

/-- A decimal's own name, taken for an override, names the decimal it is mapped to. -/
theorem parseDecimalOverride_mapped {inner : String} {p : Nat} {s : Int} {r : TypeId × ArrowType}
    (h : parseDecimalOverride inner = some (p, s)) (htrim : trim inner.toList = inner.toList)
    (hr : payloadType (payloadOf inner.toList) = some r) : ∃ valid, r.2 = .decimal128 ⟨p, s, valid⟩ := by
  unfold parseDecimalOverride at h
  rw [htrim] at h
  obtain ⟨rest, hrest, h⟩ := Option.bind_eq_some_iff.mp h
  obtain ⟨body, hbody, h⟩ := Option.bind_eq_some_iff.mp h
  obtain ⟨⟨first, second⟩, hsplit, h⟩ := Option.bind_eq_some_iff.mp h
  obtain ⟨precision, hp, h⟩ := Option.bind_eq_some_iff.mp h
  obtain ⟨scale, hs, h⟩ := Option.bind_eq_some_iff.mp h
  obtain ⟨rfl, rfl⟩ := Prod.mk.inj (Option.some.inj h)
  have htext : inner.toList = wrap "Decimal" body := by
    rw [stripPrefix_eq_some.mp hrest, stripSuffix_eq_some.mp hbody]
    simp [wrap]
  obtain ⟨hfirst, rfl⟩ : ',' ∉ first ∧ body = first ++ ',' :: second := splitOnce_eq_some hsplit
  have hself : payloadOf inner.toList = wrap "Decimal" (first ++ ',' :: second) := by
    unfold payloadOf
    rw [htext, @stripWrapper_of_head "LowCardinality" 'L' _ rfl (by simp [wrap])]
    rfl
  have hargs : args (wrap "Decimal" (first ++ ',' :: second)) = trim first :: (second.splitOn ',').map trim := by
    rw [args_wrap (by decide) (by simp), List.splitOn_append_cons_self_of_not_mem hfirst, List.map_cons]
  rw [hself] at hr
  unfold payloadType at hr
  rw [baseName_wrap (by decide) (by decide), String.ofList_toList] at hr
  dsimp only at hr
  rw [if_neg (by decide), if_pos (by decide)] at hr
  obtain ⟨d, hd, rfl⟩ := Option.map_eq_some_iff.mp hr
  obtain ⟨⟨p, s⟩, hps, hd⟩ := Option.bind_eq_some_iff.mp hd
  -- two parameters, so no comma is in the second
  cases hrest : second.splitOn ',' with
  | nil => exact absurd hrest (List.splitOn_ne_nil _ _)
  | cons part more =>
    unfold decimalArgs at hps
    rw [hargs, hrest] at hps
    cases more with
    | cons part' more => cases hps
    | nil =>
      have hpart : part = second := by
        have hjoined : [','].intercalate (second.splitOn ',') = second := List.intercalate_splitOn ','
        rw [hrest] at hjoined
        simpa using hjoined
      replace hps : ((parseUnsigned 255 (trim first)).bind fun p =>
        (parseSigned (-128) 127 (trim part)).map fun s => (p, s)) = some (p, s) := hps
      rw [hpart, hp, hs] at hps
      obtain ⟨rfl, rfl⟩ := Prod.mk.inj (Option.some.inj hps)
      unfold decimalOf at hd
      split_ifs at hd with hvalid
      exact ⟨_, congrArg ArrowType.decimal128 (Option.some.inj hd).symm⟩

/-- A column that no option types is decoded as its source column; of a datetime the plan reads the zone again. -/
theorem plannedArrow_untyped {cfg : TransferConfig} {c : ResolvedColumn} (h : WellMapped c)
    (htypes : cfg.columnTransformTypes.get c.name = none) (hzone : ∀ tz, c.arrow ≠ .timestamp tz) :
    cfg.plannedArrow .clickHouse c.toColumnType c.clickhouseInner = .ok c.arrow := by
  unfold TransferConfig.plannedArrow
  rw [htypes]
  dsimp only
  split_ifs with hdecimal
  · unfold resolveDecimalPromotion
    cases hparse : parseDecimalOverride c.clickhouseInner with
    | none => rfl
    | some d =>
      obtain ⟨p, s⟩ := d
      obtain ⟨valid, harrow⟩ := parseDecimalOverride_mapped hparse h.trimmed h.payload
      dsimp only at harrow ⊢
      rw [dif_pos valid, harrow]
      rfl
  · split
    · rename_i tz harrow
      exact absurd harrow (hzone tz)
    · rfl

/-! ### What a read casts to -/

theorem splitOn_pair {first second : List Char} (h1 : ',' ∉ first) (h2 : ',' ∉ second) :
    (first ++ ',' :: second).splitOn ',' = [first, second] := by
  rw [List.splitOn_append_cons_self_of_not_mem h1, List.splitOn_eq_singleton h2]

/-- A quoted parameter, with the space before it. -/
theorem trim_quoted (zone : List Char) : trim (' ' :: '\'' :: zone ++ ['\'']) = '\'' :: zone ++ ['\''] := by
  have hself : trim ('\'' :: zone ++ ['\'']) = '\'' :: zone ++ ['\''] := by
    apply trim_of_ends
    · rw [List.cons_append, List.dropWhile_cons, if_neg (by decide)]
    · decide
  rw [← hself]
  unfold trim
  rw [List.cons_append, List.cons_append, List.dropWhile_cons, if_pos (by decide), List.dropWhile_cons,
    if_neg (by decide)]

theorem unquote_quoted {zone : List Char} (hq : '\'' ∉ zone) : unquote ('\'' :: zone ++ ['\'']) = zone := by
  by_cases hne : zone = []
  · rw [hne]
    decide
  have hkeep : ∀ t u : List Char, t ≠ [] → '\'' ∉ t → (t ++ u).dropWhile (· = '\'') = t ++ u := by
    intro t u ht htq
    cases t with
    | nil => exact absurd rfl ht
    | cons c t =>
      have hc : c ≠ '\'' := by
        rintro rfl
        exact htq List.mem_cons_self
      rw [List.cons_append, List.dropWhile_cons, if_neg (by simpa using hc)]
  have htrim := trim_quoted zone
  have hself : trim ('\'' :: zone ++ ['\'']) = '\'' :: zone ++ ['\''] := by
    rw [← htrim, trim_trim]
  unfold unquote
  rw [hself, List.cons_append, List.dropWhile_cons, if_pos (by decide), hkeep zone _ hne hq, List.reverse_append,
    List.reverse_singleton, List.singleton_append, List.dropWhile_cons, if_pos (by decide)]
  have hrev := hkeep zone.reverse [] (by simpa using hne) (by simpa using hq)
  rw [List.append_nil] at hrev
  rw [hrev, List.reverse_reverse]

/-- A type whose name is read back from a cast: a time zone without quotes and commas, a scale that counts decimals. -/
def Castable : ArrowType → Prop
  | .timestamp tz => '\'' ∉ (tz.getD "UTC").toList ∧ ',' ∉ (tz.getD "UTC").toList
  | .decimal128 d => 0 ≤ d.scale
  | _ => True

/-- What the values of a cast column arrive as: a naive datetime comes as UTC, and bytes as text. -/
def readAs : ArrowType → ArrowType
  | .timestamp tz => .timestamp (some (if namesZone (tz.getD "UTC").toList then tz.getD "UTC" else "UTC"))
  | .binary => .utf8
  | arrow => arrow

theorem castType_timestamp {tz : Option String} (hq : '\'' ∉ (tz.getD "UTC").toList) :
    (arrowToChCastType (.timestamp tz)).toList =
      wrap "DateTime64" ("6".toList ++ ',' :: (' ' :: '\'' :: (tz.getD "UTC").toList ++ ['\''])) := by
  generalize hzone : tz.getD "UTC" = zone at hq ⊢
  have hspell : zone.toList.flatMap (fun c => if c = '\'' then ['\\', '\''] else [c]) = zone.toList := by
    rw [List.flatMap_congr (g := fun c => [c]), List.flatMap_singleton']
    intro c hc
    rw [if_neg]
    rintro rfl
    exact hq hc
  show ("DateTime64(6, '" ++ String.ofList ((tz.getD "UTC").toList.flatMap fun c => if c = '\'' then ['\\', '\''] else [c])
    ++ "')").toList = _
  rw [hzone, hspell, String.toList_append, String.toList_append, String.toList_ofList]
  unfold wrap
  simp

theorem timeZone_cast {zone : List Char} (hq : '\'' ∉ zone) (hcomma : ',' ∉ zone) :
    timeZone (wrap "DateTime64" ("6".toList ++ ',' :: (' ' :: '\'' :: zone ++ ['\'']))) =
      if namesZone zone then String.ofList zone else "UTC" := by
  have hargs : args (wrap "DateTime64" ("6".toList ++ ',' :: (' ' :: '\'' :: zone ++ ['\'']))) =
      [trim "6".toList, '\'' :: zone ++ ['\'']] := by
    rw [args_wrap (by decide) (by simp), splitOn_pair (by decide) (by simpa using hcomma), List.map_cons,
      List.map_cons, List.map_nil, trim_quoted]
  unfold timeZone
  rw [hargs]
  show (if namesZone (unquote ('\'' :: zone ++ ['\''])) = true then
    String.ofList (unquote ('\'' :: zone ++ ['\''])) else "UTC") = _
  rw [unquote_quoted hq]

theorem comma_not_mem_toString (k : Int) : ',' ∉ (toString k).toList := by
  intro h
  rcases toString_int_chars h with hdigit | hminus
  · exact absurd hdigit (by decide)
  · exact absurd hminus (by decide)

theorem castType_decimal (d : DecimalType) :
    (arrowToChCastType (.decimal128 d)).toList =
      wrap "Decimal" ((toString d.precision).toList ++ ',' :: ' ' :: (toString d.scale).toList) := by
  show ("Decimal(" ++ toString d.precision ++ ", " ++ toString d.scale ++ ")").toList = _
  unfold wrap
  simp only [String.toList_append]
  simp

theorem args_cast_decimal (p : Nat) (s : Int) :
    args (wrap "Decimal" ((toString p).toList ++ ',' :: ' ' :: (toString s).toList)) =
      [(toString p).toList, (toString s).toList] := by
  have hp : ',' ∉ (toString p).toList := comma_not_mem_toString (p : Int)
  have hs : ',' ∉ (' ' :: (toString s).toList) := by
    rw [List.mem_cons, not_or]
    exact ⟨by decide, comma_not_mem_toString s⟩
  have htrimp : trim (toString p).toList = (toString p).toList :=
    trim_of_not_space fun c hc => @not_space_of_mem_toString (p : Int) c hc
  have htrims : trim (' ' :: (toString s).toList) = (toString s).toList := by
    have hself := trim_of_not_space fun c hc => @not_space_of_mem_toString s c hc
    unfold trim at hself ⊢
    rw [List.dropWhile_cons, if_pos (by decide)]
    exact hself
  rw [args_wrap (by decide) (by simp), splitOn_pair hp hs, List.map_cons, List.map_cons, List.map_nil, htrimp, htrims]

/-- The family a cast type is of. -/
def castId : ArrowType → TypeId
  | .boolean => .bool
  | .int8 => .int8
  | .int16 => .int16
  | .int32 => .int32
  | .int64 => .int64
  | .uint8 => .uint8
  | .uint16 => .uint16
  | .uint32 => .uint32
  | .uint64 => .uint64
  | .float32 => .float32
  | .float64 => .float64
  | .utf8 | .binary => .string
  | .date32 => .date
  | .timestamp _ => .dateTime
  | .decimal128 _ => .decimal

theorem payloadType_cast_decimal {d : DecimalType} (h : 0 ≤ d.scale) :
    payloadType (arrowToChCastType (.decimal128 d)).toList = some (.decimal, .decimal128 d) := by
  obtain ⟨p, s, hvalid⟩ := d
  have hpos : 0 ≤ s := h
  have hscale : s ≤ p := by
    have := hvalid.2.2.2
    omega
  have hargs : decimalArgs "Decimal" (wrap "Decimal" ((toString p).toList ++ ',' :: ' ' :: (toString s).toList)) =
      some (p, s) := by
    have hp : parseUnsigned 255 (toString p).toList = some p := parseUnsigned_repr (by omega)
    have hs : parseSigned (-128) 127 (toString s).toList = some s := parseSigned_toString ⟨by omega, by omega⟩
    unfold decimalArgs
    rw [args_cast_decimal]
    show ((parseUnsigned 255 (toString p).toList).bind fun p =>
      (parseSigned (-128) 127 (toString s).toList).map fun s => (p, s)) = _
    rw [hp, hs]
    rfl
  have hof : decimalOf p s = some ⟨p, s, hvalid⟩ := dif_pos ⟨hvalid.1, hvalid.2.1, hpos, hscale⟩
  rw [castType_decimal]
  unfold payloadType
  rw [baseName_wrap (by decide) (by decide), String.ofList_toList]
  dsimp only
  rw [if_neg (by decide), if_pos (by decide), hargs, Option.bind_some, hof]
  rfl

/-- The cast type of an Arrow type is mapped to what its values arrive as. -/
theorem payloadType_cast {a : ArrowType} (h : Castable a) :
    payloadType (arrowToChCastType a).toList = some (castId a, readAs a) := by
  cases a with
  | timestamp tz =>
    obtain ⟨hquote, hcomma⟩ := h
    rw [castType_timestamp hquote]
    unfold payloadType
    rw [baseName_wrap (by decide) (by decide), timeZone_cast hquote hcomma, String.ofList_toList, String.ofList_toList]
    rfl
  | decimal128 d => exact payloadType_cast_decimal h
  | _ => decide +kernel

/-- No name of a cast type is a wrapper's. -/
theorem cast_plain (a : ArrowType) :
    trim (arrowToChCastType a).toList = (arrowToChCastType a).toList ∧
      stripWrapper "Nullable" (arrowToChCastType a).toList = none ∧
      stripWrapper "LowCardinality" (arrowToChCastType a).toList = none := by
  have hhead : ∀ t : List Char, t.head? ≠ some 'N' → t.head? ≠ some 'L' →
      stripWrapper "Nullable" t = none ∧ stripWrapper "LowCardinality" t = none := fun t hn hl =>
    ⟨@stripWrapper_of_head "Nullable" 'N' t rfl hn, @stripWrapper_of_head "LowCardinality" 'L' t rfl hl⟩
  cases a with
  | timestamp tz =>
    have htext : ∃ inner, (arrowToChCastType (.timestamp tz)).toList = wrap "DateTime64" inner := by
      refine ⟨"6, '".toList ++ ((tz.getD "UTC").toList.flatMap fun c => if c = '\'' then ['\\', '\''] else [c]) ++
        ['\''], ?_⟩
      show ("DateTime64(6, '" ++ String.ofList _ ++ "')").toList = _
      rw [String.toList_append, String.toList_append, String.toList_ofList]
      unfold wrap
      simp
    obtain ⟨inner, htext⟩ := htext
    rw [htext]
    exact ⟨@trim_wrap "DateTime64" 'D' _ inner rfl (by decide), hhead _ (by simp [wrap]) (by simp [wrap])⟩
  | decimal128 d =>
    rw [castType_decimal]
    exact ⟨@trim_wrap "Decimal" 'D' _ _ rfl (by decide), hhead _ (by simp [wrap]) (by simp [wrap])⟩
  | _ => exact ⟨by decide +kernel, by decide +kernel, by decide +kernel⟩

/-- The type a column is cast to is mapped to what its values arrive as, and is NULL where the column is. -/
theorem mapChType_castTarget {d : ColumnType} (h : Castable d.arrow) :
    mapChType (castTarget d) =
      some (columnOf (arrowToChCastType d.arrow).toList d.nullable (castId d.arrow, readAs d.arrow)) := by
  obtain ⟨htrim, hn, hd⟩ := cast_plain d.arrow
  have hpayload : payloadOf (arrowToChCastType d.arrow).toList = (arrowToChCastType d.arrow).toList := by
    unfold payloadOf
    rw [hd]
    rfl
  apply mapChType_of_split
  · unfold castTarget
    cases d.nullable with
    | true =>
      rw [if_pos rfl, String.toList_ofList, splitNullable_wrap, htrim]
    | false =>
      rw [if_neg Bool.false_ne_true, splitNullable_plain (by rw [htrim]; exact hn) (by rw [htrim]; exact hd), htrim]
  · rw [hpayload]
    exact payloadType_cast h

/-! ### Tables -/

theorem resolveRow_eq_ok {«include» exclude : List String} {row : DescribedRow} {r : Option ResolvedColumn}
    (h : resolveRow «include» exclude row = .ok r) :
    r = none ∨ ∃ declared c name, mapChType declared = some c ∧ r = some (c.resolved name) ∧
      declared = String.ofList (row[1]?.join.getD []) := by
  unfold resolveRow at h
  cases hname : row[0]?.join with
  | none =>
    rw [hname] at h
    cases h
  | some nameText =>
    rw [hname] at h
    dsimp only at h
    cases hmap : mapChType (String.ofList (row[1]?.join.getD [])) with
    | some c =>
      rw [hmap] at h
      cases h
      exact .inr ⟨_, c, _, hmap, rfl, rfl⟩
    | none =>
      rw [hmap] at h
      dsimp only at h
      split_ifs at h
      cases h
      exact .inl rfl

/-- The row that describes a copy is resolved, whichever columns are asked for. -/
theorem resolveRow_describe {«include» exclude : List String} {c : ColumnType} {mapped : ChColumn}
    (h : mapChType (clickhouseType c) = some mapped) :
    resolveRow «include» exclude (describe c) = .ok (some (mapped.resolved c.name)) := by
  have hname : String.ofList c.name.toList = c.name := String.ofList_toList
  have htype : String.ofList (clickhouseType c).toList = clickhouseType c := String.ofList_toList
  unfold resolveRow describe
  simp [hname, htype, h]

/-- A resolved column came from a declared type. -/
theorem resolved_of_resolveColumns {«include» exclude : List String} {rows : List DescribedRow}
    {cols : List ResolvedColumn} (h : resolveColumns «include» exclude rows = .ok cols) :
    ∀ col ∈ cols, ∃ row ∈ rows, ∃ c, mapChType (String.ofList (row[1]?.join.getD [])) = some c ∧
      col = c.resolved col.name := by
  unfold resolveColumns at h
  obtain ⟨found, hfound, h⟩ := bind_eq_ok.mp h
  dsimp only at h
  split_ifs at h with hne
  cases h
  intro col hcol
  have hmem : some col ∈ found := List.reduceOption_mem_iff.mp hcol
  obtain ⟨i, hi, hget⟩ := List.getElem_of_mem hmem
  have hall := forall₂_of_mapM_eq_ok hfound
  have hlen : i < rows.length := by
    rw [hall.length_eq]
    exact hi
  have hrow := hall.get hlen hi
  rw [List.get_eq_getElem, List.get_eq_getElem, hget] at hrow
  rcases resolveRow_eq_ok hrow with hnone | ⟨declared, c, name, hmap, hc, rfl⟩
  · cases hnone
  · cases hc
    exact ⟨rows[i], List.getElem_mem hlen, c, hmap, rfl⟩

/-- What rows that each resolve resolve to. -/
theorem resolveColumns_of_forall {«include» exclude : List String} {ds : List ColumnType} {copies : List ResolvedColumn}
    (hne : copies ≠ [])
    (h : List.Forall₂ (fun copy d => resolveRow «include» exclude (describe d) = .ok (some copy)) copies ds) :
    resolveColumns «include» exclude (ds.map describe) = .ok copies := by
  have hmap : (ds.map describe).mapM (resolveRow «include» exclude) = .ok (copies.map some) := by
    clear hne
    induction h with
    | nil => rfl
    | @cons copy d copies ds hd hrest ih =>
      rw [List.map_cons, List.mapM_cons, hd]
      show ((ds.map describe).mapM (resolveRow «include» exclude) >>= _) = _
      rw [ih]
      rfl
  unfold resolveColumns
  rw [hmap]
  show (if (copies.map some).reduceOption = [] then _ else _) = _
  have hred : (copies.map some).reduceOption = copies := by
    unfold List.reduceOption
    rw [List.filterMap_map]
    simp
  rw [hred, if_neg hne]

/-- The resolved columns that are copied. -/
def included (cfg : TransferConfig) (cols : List ResolvedColumn) : List ResolvedColumn :=
  (cols.filter fun c => cfg.include.isEmpty || cfg.include.contains c.name).filter fun c => !cfg.exclude.contains c.name

theorem included_columns (cfg : TransferConfig) (cols : List ResolvedColumn) :
    (included cfg cols).map ResolvedColumn.toColumnType =
      cfg.includedColumns (cols.map ResolvedColumn.toColumnType) := by
  unfold TransferConfig.includedColumns
  rw [List.filter_map, List.filter_map]
  rfl

theorem included_subset (cfg : TransferConfig) (cols : List ResolvedColumn) : included cfg cols ⊆ cols :=
  fun _ hc => (List.mem_filter.mp (List.mem_filter.mp hc).1).1

/-- A planned column that no option types is described as the column it was copied from. -/
theorem resolveRow_planned {cfg : TransferConfig} {c : ResolvedColumn} {d : ColumnType} {existing : ExistingColumns}
    {decimals : ExistingDecimals} (hc : WellMapped c) (hu : Untyped cfg c.toColumnType)
    (h : cfg.planColumn .clickHouse SourceKind.clickHouse.mayCoerce existing decimals c.toColumnType = .ok d)
    («include» exclude : List String) : resolveRow «include» exclude (describe d) = .ok (some (copied cfg c)) := by
  obtain ⟨hname, hnullable, hinner, -⟩ := TransferConfig.planColumn_eq_ok h
  rw [plannedInner_untyped hc hu] at hinner
  have htext := @mapChType_declared d (c.typeId, c.arrow) (by rw [hinner]; exact hc.trimmed)
    (by rw [hinner]; exact hc.payload)
  have hnull : d.nullable = (c.nullable && !cfg.forceNonNullable .clickHouse c.toColumnType) := by
    rw [hnullable]
    unfold TransferConfig.plannedNullable
    cases cfg.forceNonNullable .clickHouse c.toColumnType with
    | true => rw [if_pos rfl, Bool.not_true, Bool.and_false]
    | false => simp [SourceKind.mayCoerce]
  rw [resolveRow_describe htext, hname, hnull, hinner]
  unfold ChColumn.resolved copied columnOf
  rw [hc.decimal, hc.undeclared]

/-- The columns that batches are decoded as. -/
def decodeColumns (plan : ColumnPlan) (cfg : TransferConfig) : List ColumnType :=
  match NullGuard.new plan cfg .clickHouse with
  | some g => g.decodeColumns plan.destColumns
  | none => plan.destColumns

/-- Of a table copied from ClickHouse to ClickHouse, each column that no option types is described as the column it was
copied from, but for the options' name and NOT NULL, and one that is not a datetime is decoded as it; where there are no
others, the copy resolves to these.  The types that are no longer spelled as they were declared are dictionaries inside
`Nullable`, and a copy of the copy spells them as the copy does.  A read casts each column to a type of what its values
arrive as, NULL where the decoded column is. -/
theorem copied_table_resolves (cfg : TransferConfig) {rows : List DescribedRow} {cols : List ResolvedColumn}
    {plan : ColumnPlan} (hcols : resolveColumns cfg.include cfg.exclude rows = .ok cols)
    (hplan : cfg.planColumns .clickHouse (cols.map ResolvedColumn.toColumnType) SourceKind.clickHouse.mayCoerce .noTable =
      .ok plan) :
    List.Forall₂ (fun c d => Untyped cfg c.toColumnType →
      (∀ inc exc, resolveRow inc exc (describe d) = .ok (some (copied cfg c))) ∧
      (cfg.columnTransformTypes.get c.name = none → (∀ tz, c.arrow ≠ .timestamp tz) → d.arrow = c.arrow))
      (included cfg cols) plan.destColumns ∧
    ((∀ c ∈ included cfg cols, Untyped cfg c.toColumnType) →
      ∀ inc exc, resolveColumns inc exc (plan.destColumns.map describe) = .ok ((included cfg cols).map (copied cfg))) ∧
    ((∀ row ∈ rows, ¬ NullableDictionary (String.ofList (row[1]?.join.getD []))) →
      ∀ c ∈ cols, (copied cfg c).clickhouseInner = c.clickhouseInner) ∧
    (∀ c ∈ cols, ∀ cfg', (copied cfg' (copied cfg c)).clickhouseInner = (copied cfg c).clickhouseInner) ∧
    ∀ d ∈ decodeColumns plan cfg, Castable d.arrow → ∀ base, ∃ target c,
      castExpr base d = "CAST(" ++ base ++ " AS " ++ target ++ ")" ∧ mapChType target = some c ∧
        c.arrow = readAs d.arrow ∧ c.nullable = d.nullable := by
  have hmapped : ∀ c ∈ cols, WellMapped c := by
    intro c hc
    obtain ⟨row, -, m, hm, hresolved⟩ := resolved_of_resolveColumns hcols c hc
    rw [hresolved]
    exact wellMapped hm _
  obtain ⟨hne, -, -, hcolumns⟩ := TransferConfig.planColumns_eq_ok hplan
  rw [← included_columns] at hne hcolumns
  rw [List.forall₂_map_left_iff] at hcolumns
  have hrows := (List.forall₂_and_left _ _).mpr ⟨fun c hc => hmapped c (included_subset cfg cols hc), hcolumns⟩
  refine ⟨hrows.imp ?_, fun hall inc exc => ?_, fun hd c hc => ?_, fun c _ cfg' => copied_copied cfg cfg' c,
    fun d _ hcast base => ?_⟩
  · intro c d h hu
    refine ⟨resolveRow_planned h.1 hu h.2, fun htypes hzone => ?_⟩
    obtain ⟨-, -, hinner, harrow⟩ := TransferConfig.planColumn_eq_ok h.2
    rw [hinner, plannedInner_untyped h.1 hu, plannedArrow_untyped h.1 htypes hzone] at harrow
    exact (Except.ok.inj harrow).symm
  · have hrows := (List.forall₂_and_left _ _).mpr ⟨hall, hrows⟩
    refine resolveColumns_of_forall (fun hnil => hne ?_) ?_
    · rw [List.map_eq_nil_iff.mp hnil]
      rfl
    · rw [List.forall₂_map_left_iff]
      exact hrows.imp fun c d h => resolveRow_planned h.2.1 h.1 h.2.2 inc exc
  · obtain ⟨row, hrow, m, hm, hresolved⟩ := resolved_of_resolveColumns hcols c hc
    obtain ⟨inner, hsplit, hinner, -⟩ := mapChType_eq_some hm
    have htext : c.clickhouseInner = String.ofList inner := by
      rw [hresolved]
      exact hinner
    show String.ofList (tidied c.clickhouseInner.toList) = _
    rw [htext, String.toList_ofList, tidied_of_split (hd row hrow) hsplit]
  · exact ⟨castTarget d, _, rfl, mapChType_castTarget hcast, rfl, rfl⟩

/-- A key, an amount, and two dictionaries of which the second may be NULL. -/
def orderRows : List DescribedRow :=
  [[some "id".toList, some "UInt64".toList], [some "amount".toList, some "Nullable(Decimal(18, 4))".toList],
    [some "status".toList, some "LowCardinality(String)".toList],
    [some "note".toList, some "LowCardinality(Nullable(String))".toList],
    [some "at".toList, some "DateTime64(3, 'Asia/Jakarta')".toList]]

def orderColumns : List ResolvedColumn :=
  [{ name := "id", nullable := false, arrow := .uint64, clickhouseInner := "UInt64", typeId := .uint64 },
    { name := "amount", nullable := true, arrow := .decimal128 ⟨18, 4, by decide⟩, clickhouseInner := "Decimal(18, 4)",
      arbitraryPrecisionDecimal := true, typeId := .decimal },
    { name := "status", nullable := false, arrow := .utf8, clickhouseInner := "LowCardinality(String)",
      typeId := .string },
    { name := "note", nullable := true, arrow := .utf8, clickhouseInner := "LowCardinality(String)",
      typeId := .string },
    { name := "at", nullable := false, arrow := .timestamp (some "Asia/Jakarta"),
      clickhouseInner := "DateTime64(3, 'Asia/Jakarta')", typeId := .dateTime }]

/-- A copy that renames a column, and makes another one NOT NULL. -/
def ordersCopy : TransferConfig where
  sourceTable := some "orders"
  destTable := "orders_copy"
  mode := .full
  key := ["id"]
  notNull := ["note"]
  rename := ⟨[("at", "placed_at")], by simp⟩

def copiedColumns : List ResolvedColumn :=
  [{ name := "id", nullable := false, arrow := .uint64, clickhouseInner := "UInt64", typeId := .uint64 },
    { name := "amount", nullable := true, arrow := .decimal128 ⟨18, 4, by decide⟩, clickhouseInner := "Decimal(18, 4)",
      arbitraryPrecisionDecimal := true, typeId := .decimal },
    { name := "status", nullable := false, arrow := .utf8, clickhouseInner := "LowCardinality(String)",
      typeId := .string },
    { name := "note", nullable := false, arrow := .utf8, clickhouseInner := "LowCardinality(String)",
      typeId := .string },
    { name := "placed_at", nullable := false, arrow := .timestamp (some "Asia/Jakarta"),
      clickhouseInner := "DateTime64(3, 'Asia/Jakarta')", typeId := .dateTime }]

theorem copied_orders_resolve : ∃ plan, resolveColumns [] [] orderRows = .ok orderColumns ∧
    ordersCopy.planColumns .clickHouse (orderColumns.map ResolvedColumn.toColumnType) SourceKind.clickHouse.mayCoerce
      .noTable = .ok plan ∧
    resolveColumns [] [] (plan.destColumns.map describe) = .ok copiedColumns := by
  have hcols : resolveColumns [] [] orderRows = .ok orderColumns := by decide +kernel
  cases hplan : ordersCopy.planColumns .clickHouse (orderColumns.map ResolvedColumn.toColumnType)
      SourceKind.clickHouse.mayCoerce .noTable with
  | error e =>
    have hok : (ordersCopy.planColumns .clickHouse (orderColumns.map ResolvedColumn.toColumnType)
        SourceKind.clickHouse.mayCoerce .noTable).toBool = true := by decide +kernel
    rw [hplan] at hok
    cases hok
  | ok plan =>
    obtain ⟨-, hcopies, -⟩ := copied_table_resolves ordersCopy hcols hplan
    have hcopied : (included ordersCopy orderColumns).map (copied ordersCopy) = copiedColumns := by decide +kernel
    rw [hcopied] at hcopies
    exact ⟨plan, hcols, rfl, hcopies (fun c hc => ⟨rfl, rfl, .inl rfl⟩) [] []⟩

end ChTypes

end Quickhouse
