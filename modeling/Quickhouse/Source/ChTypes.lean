import Quickhouse.ColumnPlan
import Quickhouse.Error
import Quickhouse.Lib.Results

/-!
# ClickHouse type names

A ClickHouse source names the types of its columns; each name is mapped to the Arrow type its values are read as and
to the type that a copy of the column is declared with, and a read casts each column to a type whose values arrive as
that Arrow type.  Both are names of ClickHouse again.
-/

namespace Quickhouse

namespace ChTypes

open Text

/-- The families of types that are read. -/
inductive TypeId where
  | bool | int8 | int16 | int32 | int64 | uint8 | uint16 | uint32 | uint64 | float32 | float64 | decimal | string
  | uuid | date | dateTime | enumeration | ip
  deriving DecidableEq, Repr

/-- The number of a family, in a column that any source resolved. -/
def TypeId.code : TypeId → Nat
  | bool => 1
  | int8 => 2
  | int16 => 3
  | int32 => 4
  | int64 => 5
  | uint8 => 6
  | uint16 => 7
  | uint32 => 8
  | uint64 => 9
  | float32 => 10
  | float64 => 11
  | decimal => 12
  | string => 13
  | uuid => 14
  | date => 15
  | dateTime => 16
  | enumeration => 17
  | ip => 18

structure ChColumn where
  typeId : TypeId
  arrow : ArrowType
  /-- The type a copy is declared with, without `Nullable`. -/
  clickhouseInner : String
  nullable : Bool
  arbitraryPrecisionDecimal : Bool
  deriving DecidableEq, Repr

/-! ### The parts of a name -/

/-- The name between `name(` and a parenthesis that ends the whole. -/
def stripWrapper (name : String) (t : List Char) : Option (List Char) :=
  ((stripPrefix name t).bind (stripPrefix "(")).bind (stripSuffix ")")

theorem stripPrefix_eq_some {start : String} {s rest : List Char} :
    stripPrefix start s = some rest ↔ s = start.toList ++ rest := by
  constructor
  · intro h
    unfold stripPrefix at h
    split_ifs at h with hprefix
    obtain ⟨tail, rfl⟩ := List.isPrefixOf_iff_prefix.mp hprefix
    rw [List.drop_left] at h
    rw [Option.some.inj h]
  · rintro rfl
    exact stripPrefix_append start rest

theorem stripSuffix_eq_some {ending : String} {s front : List Char} :
    stripSuffix ending s = some front ↔ s = front ++ ending.toList := by
  constructor
  · intro h
    unfold stripSuffix at h
    split_ifs at h with hsuffix
    obtain ⟨start, rfl⟩ := List.isSuffixOf_iff_suffix.mp hsuffix
    rw [List.length_append, Nat.add_sub_cancel, List.take_left] at h
    rw [Option.some.inj h]
  · rintro rfl
    unfold stripSuffix
    rw [if_pos (List.isSuffixOf_iff_suffix.mpr (List.suffix_append _ _)), List.length_append, Nat.add_sub_cancel,
      List.take_left]

/-- The type named `name` over `inner`. -/
def wrap (name : String) (inner : List Char) : List Char := name.toList ++ '(' :: inner ++ [')']

theorem stripWrapper_eq_some {name : String} {t inner : List Char} :
    stripWrapper name t = some inner ↔ t = wrap name inner := by
  unfold stripWrapper wrap
  rw [Option.bind_eq_some_iff]
  constructor
  · rintro ⟨rest, hrest, h⟩
    obtain ⟨open', hopen, hname⟩ := Option.bind_eq_some_iff.mp hrest
    rw [stripPrefix_eq_some.mp hopen, stripPrefix_eq_some.mp hname, stripSuffix_eq_some.mp h]
    simp
  · intro h
    refine ⟨inner ++ [')'], Option.bind_eq_some_iff.mpr ⟨'(' :: inner ++ [')'], ?_, ?_⟩, ?_⟩
    · exact stripPrefix_eq_some.mpr (by simp [h])
    · exact stripPrefix_eq_some.mpr (by simp)
    · exact stripSuffix_eq_some.mpr rfl

theorem length_wrap (name : String) (inner : List Char) : inner.length < (wrap name inner).length := by
  unfold wrap
  simp only [List.length_append, List.length_cons, List.length_nil]
  omega

theorem length_trim_le (s : List Char) : (trim s).length ≤ s.length := by
  unfold trim trimEnd
  rw [List.length_reverse]
  have h1 := (List.dropWhile_sublist (p := isWhitespace) (l := (s.dropWhile isWhitespace).reverse)).length_le
  have h2 := (List.dropWhile_sublist (p := isWhitespace) (l := s)).length_le
  rw [List.length_reverse] at h1
  omega

theorem unwrapped_length {name : String} {t inner : List Char} (h : stripWrapper name (trim t) = some inner) :
    inner.length < t.length := by
  have hwrap := length_wrap name inner
  rw [← stripWrapper_eq_some.mp h] at hwrap
  have := length_trim_le t
  omega

/-- `Nullable` around the name, or inside its `LowCardinality`, taken off. -/
def splitNullable (t : List Char) : List Char × Bool :=
  match stripWrapper "Nullable" (trim t) with
  | some inner => (trim inner, true)
  | none =>
    match h : stripWrapper "LowCardinality" (trim t) with
    | some inner =>
      have := unwrapped_length h
      (wrap "LowCardinality" (splitNullable inner).1, (splitNullable inner).2)
    | none => (trim t, false)
termination_by t.length

/-- The name without its parameters. -/
def baseName (t : List Char) : List Char :=
  if '(' ∈ t then trimEnd (t.takeWhile (· ≠ '(')) else t

/-- What stands before the last closing parenthesis. -/
def beforeClose (t : List Char) : List Char := ((t.reverse.dropWhile (· ≠ ')')).drop 1).reverse

/-- The parameters of a name. -/
def args (t : List Char) : List (List Char) :=
  let opened := (t.takeWhile (· ≠ '(')).length
  if '(' ∈ t ∧ ')' ∈ t ∧ opened + 1 < (beforeClose t).length then
    (((beforeClose t).drop (opened + 1)).splitOn ',').map trim
  else []

/-- A name in single quotes. -/
def unquote (s : List Char) : List Char :=
  (((trim s).dropWhile (· = '\'')).reverse.dropWhile (· = '\'')).reverse

def sizedDecimalPrecision (base : String) : Option Nat :=
  if base = "Decimal32" then some 9
  else if base = "Decimal64" then some 18
  else if base = "Decimal128" then some 38
  else none

/-! ### The mapping -/

/-- The types whose parameters do not matter, and their names. -/
def plainTypes : List (List String × TypeId × ArrowType) :=
  [(["Bool", "Boolean"], .bool, .boolean),
    (["Int8"], .int8, .int8),
    (["Int16"], .int16, .int16),
    (["Int32"], .int32, .int32),
    (["Int64"], .int64, .int64),
    (["UInt8"], .uint8, .uint8),
    (["UInt16"], .uint16, .uint16),
    (["UInt32"], .uint32, .uint32),
    (["UInt64"], .uint64, .uint64),
    (["Float32"], .float32, .float32),
    (["Float64"], .float64, .float64),
    (["String", "FixedString"], .string, .utf8),
    (["UUID"], .uuid, .utf8),
    (["IPv4", "IPv6"], .ip, .utf8),
    (["Enum", "Enum8", "Enum16"], .enumeration, .utf8),
    (["Date", "Date32"], .date, .date32)]

def plainType (base : String) : Option (TypeId × ArrowType) :=
  (plainTypes.find? fun e => base ∈ e.1).map fun e => e.2

/-- A parameter that names a time zone, and not a precision. -/
def namesZone (a : List Char) : Bool := '/' ∈ a || a.map Char.toLower = "utc".toList

/-- The time zone of a datetime: its last parameter, else UTC. -/
def timeZone (payload : List Char) : String :=
  match (args payload).getLast?.map unquote with
  | some a => if namesZone a then String.ofList a else "UTC"
  | none => "UTC"

/-- The precision and the scale that a decimal name gives. -/
def decimalArgs (base : String) (payload : List Char) : Option (Nat × Int) :=
  match sizedDecimalPrecision base, args payload with
  | some p, [s] => (parseSigned (-128) 127 s).map fun s => (p, s)
  | none, [p, s] => (parseUnsigned 255 p).bind fun p => (parseSigned (-128) 127 s).map fun s => (p, s)
  | _, _ => none

/-- The decimal of these, when an Arrow decimal has them. -/
def decimalOf (p : Nat) (s : Int) : Option DecimalType :=
  if valid : 1 ≤ p ∧ p ≤ 38 ∧ 0 ≤ s ∧ s ≤ p then
    some ⟨p, s, valid.1, valid.2.1, by omega, fun _ => valid.2.2.2⟩
  else none

def payloadType (payload : List Char) : Option (TypeId × ArrowType) :=
  let base := String.ofList (baseName payload)
  if base ∈ ["DateTime", "DateTime64"] then some (.dateTime, .timestamp (some (timeZone payload)))
  else if base ∈ ["Decimal", "Decimal32", "Decimal64", "Decimal128"] then
    ((decimalArgs base payload).bind fun (p, s) => decimalOf p s).map fun d => (.decimal, .decimal128 d)
  else plainType base

/-- A `LowCardinality` column is read as what it is over. -/
def payloadOf (inner : List Char) : List Char := (stripWrapper "LowCardinality" inner).getD inner

def mapChType (declared : String) : Option ChColumn :=
  let (inner, nullable) := splitNullable declared.toList
  (payloadType (payloadOf inner)).map fun (typeId, arrow) =>
    { typeId, arrow, clickhouseInner := String.ofList inner, nullable
      arbitraryPrecisionDecimal := typeId = .decimal }

/-- The type a column is cast to for its values to arrive as `arrow`. -/
def arrowToChCastType : ArrowType → String
  | .boolean => "Bool"
  | .int8 => "Int8"
  | .int16 => "Int16"
  | .int32 => "Int32"
  | .int64 => "Int64"
  | .uint8 => "UInt8"
  | .uint16 => "UInt16"
  | .uint32 => "UInt32"
  | .uint64 => "UInt64"
  | .float32 => "Float32"
  | .float64 => "Float64"
  | .utf8 | .binary => "String"
  | .date32 => "Date32"
  | .timestamp tz =>
    "DateTime64(6, '" ++ String.ofList ((tz.getD "UTC").toList.flatMap fun c => if c = '\'' then ['\\', '\''] else [c])
      ++ "')"
  | .decimal128 d => "Decimal(" ++ toString d.precision ++ ", " ++ toString d.scale ++ ")"

/-! ### The type of a copy -/

/-- `Nullable` around a type; around a dictionary it goes inside. -/
def wrapClickhouseNullable (inner : List Char) : List Char :=
  match stripWrapper "LowCardinality" inner with
  | some stripped =>
    if "Nullable(".toList.isPrefixOf stripped then inner
    else wrap "LowCardinality" (wrap "Nullable" stripped)
  | none => wrap "Nullable" inner

/-- The type of a column in a declaration. -/
def clickhouseType (c : ColumnType) : String :=
  if c.nullable then String.ofList (wrapClickhouseNullable c.clickhouseInner.toList) else c.clickhouseInner

/-- The type a read casts the values of a column to. -/
def castTarget (dest : ColumnType) : String :=
  if dest.nullable then String.ofList (wrap "Nullable" (arrowToChCastType dest.arrow).toList)
  else arrowToChCastType dest.arrow

def castExpr (base : String) (dest : ColumnType) : String := "CAST(" ++ base ++ " AS " ++ castTarget dest ++ ")"

/-! ### The columns of a relation -/

structure ResolvedColumn extends ColumnType where
  typeId : TypeId
  deriving DecidableEq, Repr

def ChColumn.resolved (c : ChColumn) (name : String) : ResolvedColumn where
  name
  typeId := c.typeId
  nullable := c.nullable
  arrow := c.arrow
  clickhouseInner := c.clickhouseInner
  arbitraryPrecisionDecimal := c.arbitraryPrecisionDecimal

/-- Why the columns could not be resolved. -/
inductive ResolveError where
  | failed (e : EtlError)
  | unsupported (column typeName : String)
  deriving DecidableEq, Repr

abbrev DescribedRow := List (Option (List Char))

/-- The column of one row of `DESCRIBE`; `none` is a column that cannot be read and is not asked for. -/
def resolveRow («include» exclude : List String) (row : DescribedRow) : Except ResolveError (Option ResolvedColumn) :=
  match row[0]?.join with
  | none => .error (.failed (.clickhouse "DESCRIBE returned a row with no name"))
  | some nameText =>
    let name := String.ofList nameText
    let declared := String.ofList (row[1]?.join.getD [])
    match mapChType declared with
    | some mapped => .ok (some (mapped.resolved name))
    | none =>
      if («include» = [] ∨ name ∈ «include») ∧ name ∉ exclude then .error (.unsupported name declared) else .ok none

/-- What the answer to `DESCRIBE` resolves to. -/
def resolveColumns («include» exclude : List String) (rows : List DescribedRow) :
    Except ResolveError (List ResolvedColumn) := do
  let cols := (← rows.mapM (resolveRow «include» exclude)).reduceOption
  if cols = [] then .error (.failed (.clickhouse "DESCRIBE resolved no columns for the source read")) else .ok cols

/-- How the server describes a column that was declared from it. -/
def describe (c : ColumnType) : DescribedRow := [some c.name.toList, some (clickhouseType c).toList]

/-! ### Names taken apart again -/

theorem stripWrapper_wrap (name : String) (inner : List Char) : stripWrapper name (wrap name inner) = some inner :=
  stripWrapper_eq_some.mpr rfl

theorem stripWrapper_of_head {name : String} {c : Char} {t : List Char} (hname : name.toList.head? = some c)
    (ht : t.head? ≠ some c) : stripWrapper name t = none := by
  apply Option.eq_none_iff_forall_ne_some.mpr
  intro inner h
  apply ht
  rw [stripWrapper_eq_some.mp h]
  unfold wrap
  cases hlist : name.toList with
  | nil =>
    rw [hlist] at hname
    cases hname
  | cons d ds =>
    rw [hlist] at hname
    exact hname

theorem trim_wrap {name : String} {c : Char} {cs inner : List Char} (hname : name.toList = c :: cs)
    (hc : isWhitespace c = false) : trim (wrap name inner) = wrap name inner := by
  unfold wrap
  apply trim_of_ends
  · rw [hname, List.cons_append, List.cons_append, List.dropWhile_cons, if_neg (by rw [hc]; exact Bool.false_ne_true)]
  · decide

theorem trim_nullable (inner : List Char) : trim (wrap "Nullable" inner) = wrap "Nullable" inner :=
  @trim_wrap "Nullable" 'N' _ inner rfl (by decide)

theorem trim_dictionary (inner : List Char) : trim (wrap "LowCardinality" inner) = wrap "LowCardinality" inner :=
  @trim_wrap "LowCardinality" 'L' _ inner rfl (by decide)

theorem not_nullable_dictionary (inner : List Char) : stripWrapper "Nullable" (wrap "LowCardinality" inner) = none :=
  @stripWrapper_of_head "Nullable" 'N' _ rfl (by simp [wrap])

theorem splitNullable_of_nullable {t x : List Char} (h : stripWrapper "Nullable" (trim t) = some x) :
    splitNullable t = (trim x, true) := by
  rw [splitNullable]
  simp only [h]

theorem splitNullable_of_dictionary {t x : List Char} (hn : stripWrapper "Nullable" (trim t) = none)
    (hd : stripWrapper "LowCardinality" (trim t) = some x) :
    splitNullable t = (wrap "LowCardinality" (splitNullable x).1, (splitNullable x).2) := by
  rw [splitNullable]
  simp only [hn]
  split
  · rename_i inner h
    rw [hd] at h
    rw [Option.some.inj h]
  · rename_i h
    rw [hd] at h
    cases h

theorem splitNullable_plain {t : List Char} (hn : stripWrapper "Nullable" (trim t) = none)
    (hd : stripWrapper "LowCardinality" (trim t) = none) : splitNullable t = (trim t, false) := by
  rw [splitNullable]
  simp only [hn]
  split
  · rename_i inner h
    rw [hd] at h
    cases h
  · rfl

theorem splitNullable_wrap (x : List Char) : splitNullable (wrap "Nullable" x) = (trim x, true) := by
  apply splitNullable_of_nullable
  rw [trim_nullable]
  exact stripWrapper_wrap _ x

theorem splitNullable_dictionary (x : List Char) :
    splitNullable (wrap "LowCardinality" x) = (wrap "LowCardinality" (splitNullable x).1, (splitNullable x).2) := by
  apply splitNullable_of_dictionary
  · rw [trim_dictionary]
    exact not_nullable_dictionary x
  · rw [trim_dictionary]
    exact stripWrapper_wrap _ x

/-- How a name is split: by its outermost wrapper. -/
theorem splitNullable_cases (t : List Char) :
    (∃ x, trim t = wrap "Nullable" x ∧ splitNullable t = (trim x, true)) ∨
    (∃ x, trim t = wrap "LowCardinality" x ∧ x.length < t.length ∧
      splitNullable t = (wrap "LowCardinality" (splitNullable x).1, (splitNullable x).2)) ∨
    (stripWrapper "LowCardinality" (trim t) = none ∧ stripWrapper "Nullable" (trim t) = none ∧
      splitNullable t = (trim t, false)) := by
  cases hn : stripWrapper "Nullable" (trim t) with
  | some x => exact .inl ⟨x, stripWrapper_eq_some.mp hn, splitNullable_of_nullable hn⟩
  | none =>
    cases hd : stripWrapper "LowCardinality" (trim t) with
    | some x =>
      exact .inr (.inl ⟨x, stripWrapper_eq_some.mp hd, unwrapped_length hd, splitNullable_of_dictionary hn hd⟩)
    | none => exact .inr (.inr ⟨rfl, rfl, splitNullable_plain hn hd⟩)

/-- What is split off has no white space around it. -/
theorem trim_splitNullable (t : List Char) : trim (splitNullable t).1 = (splitNullable t).1 := by
  rcases splitNullable_cases t with ⟨x, -, hx⟩ | ⟨x, -, -, hx⟩ | ⟨-, -, hx⟩
  · rw [hx]
    exact trim_trim x
  · rw [hx]
    exact trim_dictionary _
  · rw [hx]
    exact trim_trim t

/-! ### White space after a payload -/

def knownBases : List String :=
  ["DateTime", "DateTime64"] ++ ["Decimal", "Decimal32", "Decimal64", "Decimal128"] ++ plainTypes.flatMap (·.1)

theorem knownBases_text : ∀ b ∈ knownBases, b.toList ≠ [] ∧ ∀ c ∈ b.toList, isWhitespace c = false := by
  have hall : knownBases.all (fun b => !b.toList.isEmpty && b.toList.all (!isWhitespace ·)) = true := by decide
  intro b hb
  obtain ⟨hne, hchars⟩ := Bool.and_eq_true_iff.mp (List.all_eq_true.mp hall b hb)
  constructor
  · simpa using hne
  · intro c hc
    simpa using List.all_eq_true.mp hchars c hc

theorem plainType_eq_some {base : String} {r : TypeId × ArrowType} (h : plainType base = some r) :
    ∃ e ∈ plainTypes, base ∈ e.1 ∧ e.2 = r := by
  obtain ⟨e, he, rfl⟩ := Option.map_eq_some_iff.mp h
  exact ⟨e, List.mem_of_find?_eq_some he, by simpa using List.find?_some he, rfl⟩

theorem base_known {payload : List Char} {r : TypeId × ArrowType} (h : payloadType payload = some r) :
    String.ofList (baseName payload) ∈ knownBases := by
  unfold knownBases
  rw [List.mem_append, List.mem_append]
  unfold payloadType at h
  dsimp only at h
  by_cases hdate : String.ofList (baseName payload) ∈ ["DateTime", "DateTime64"]
  · exact .inl (.inl hdate)
  · rw [if_neg hdate] at h
    by_cases hdec : String.ofList (baseName payload) ∈ ["Decimal", "Decimal32", "Decimal64", "Decimal128"]
    · exact .inl (.inr hdec)
    · rw [if_neg hdec] at h
      obtain ⟨e, he, hbase, -⟩ := plainType_eq_some h
      exact .inr (List.mem_flatMap.mpr ⟨e, he, hbase⟩)

theorem takeWhile_append_of_mem {u w : List Char} {c : Char} (h : c ∈ u) :
    (u ++ w).takeWhile (· ≠ c) = u.takeWhile (· ≠ c) := by
  induction u with
  | nil => cases h
  | cons d u ih =>
    rw [List.cons_append, List.takeWhile_cons, List.takeWhile_cons]
    by_cases hd : d = c
    · simp [hd]
    · have hu : c ∈ u := by
        rcases List.mem_cons.mp h with rfl | hu
        · exact absurd rfl hd
        · exact hu
      rw [ih hu]

/-- A text is what is left of it at its end, and white space. -/
theorem trimEnd_append (s : List Char) : ∃ w, s = trimEnd s ++ w ∧ ∀ c ∈ w, isWhitespace c = true := by
  refine ⟨(s.reverse.takeWhile isWhitespace).reverse, ?_, ?_⟩
  · unfold trimEnd
    rw [← List.reverse_append, List.takeWhile_append_dropWhile, List.reverse_reverse]
  · intro c hc
    exact List.mem_takeWhile_imp (List.mem_reverse.mp hc)

section Space

variable {u w : List Char} (hw : ∀ c ∈ w, isWhitespace c = true)
include hw

theorem mem_append_space {c : Char} (hc : isWhitespace c = false) : c ∈ u ++ w ↔ c ∈ u := by
  rw [List.mem_append]
  constructor
  · rintro (h | h)
    · exact h
    · rw [hw c h] at hc
      cases hc
  · exact .inl

theorem beforeClose_append : beforeClose (u ++ w) = beforeClose u := by
  unfold beforeClose
  have hdrop : ∀ c ∈ w.reverse, decide (c ≠ ')') = true := by
    intro c hc
    rw [decide_eq_true_eq]
    rintro rfl
    have := hw ')' (List.mem_reverse.mp hc)
    exact absurd this (by decide)
  rw [List.reverse_append, List.dropWhile_append_of_pos hdrop]

theorem args_append : args (u ++ w) = args u := by
  have hopens : '(' ∈ u ++ w ↔ '(' ∈ u := mem_append_space hw (by decide)
  have hcloses : ')' ∈ u ++ w ↔ ')' ∈ u := mem_append_space hw (by decide)
  unfold args
  simp only [hopens, hcloses, beforeClose_append hw]
  by_cases hopen : '(' ∈ u
  · rw [takeWhile_append_of_mem hopen]
  · rw [if_neg fun h => hopen h.1, if_neg fun h => hopen h.1]

theorem baseName_append (hopen : '(' ∈ u) : baseName (u ++ w) = baseName u := by
  unfold baseName
  rw [if_pos ((mem_append_space hw (by decide)).mpr hopen), if_pos hopen, takeWhile_append_of_mem hopen]

theorem payloadType_append (hopen : '(' ∈ u) : payloadType (u ++ w) = payloadType u := by
  unfold payloadType timeZone decimalArgs
  rw [baseName_append hw hopen, args_append hw]

end Space

theorem prefix_of_trimEnd (s : List Char) : trimEnd s <+: s := by
  obtain ⟨w, hs, -⟩ := trimEnd_append s
  exact ⟨w, hs.symm⟩

/-- A payload that is mapped starts with its name. -/
theorem payload_start {payload : List Char} {r : TypeId × ArrowType} (h : payloadType payload = some r) :
    payload.dropWhile isWhitespace = payload := by
  obtain ⟨hne, htext⟩ := knownBases_text _ (base_known h)
  rw [String.toList_ofList] at hne htext
  have hprefix : baseName payload <+: payload := by
    unfold baseName
    split_ifs
    · exact (prefix_of_trimEnd _).trans (List.takeWhile_prefix _)
    · exact List.prefix_rfl
  obtain ⟨rest, hrest⟩ := hprefix
  cases hb : baseName payload with
  | nil => exact absurd hb hne
  | cons c cs =>
    have hc : isWhitespace c = false := htext c (by simp [hb])
    rw [← hrest, hb, List.cons_append, List.dropWhile_cons, if_neg (by simp [hc])]

/-- White space around a payload does not change what it is mapped to. -/
theorem payloadType_trim {payload : List Char} {r : TypeId × ArrowType} (h : payloadType payload = some r) :
    payloadType (trim payload) = some r := by
  have htrim : trim payload = trimEnd payload := by
    unfold trim
    rw [payload_start h]
  by_cases hopen : '(' ∈ payload
  · obtain ⟨w, hs, hw⟩ := trimEnd_append payload
    have hmem : '(' ∈ trimEnd payload := by
      rw [hs] at hopen
      exact (mem_append_space hw (by decide)).mp hopen
    rw [hs, payloadType_append hw hmem] at h
    rw [htrim]
    exact h
  · have hbase := base_known h
    unfold baseName at hbase
    rw [if_neg hopen] at hbase
    have htext := (knownBases_text _ hbase).2
    rw [String.toList_ofList] at htext
    rw [trim_of_not_space htext]
    exact h

/-- No payload starts with `Nullable`. -/
theorem payload_not_nullable {payload : List Char} {r : TypeId × ArrowType} (h : payloadType payload = some r) :
    "Nullable(".toList.isPrefixOf payload = false := by
  apply Bool.eq_false_iff.mpr
  intro hprefix
  obtain ⟨rest, rfl⟩ := List.isPrefixOf_iff_prefix.mp hprefix
  have hbase : baseName ("Nullable(".toList ++ rest) = "Nullable".toList := by
    have hopen : '(' ∈ "Nullable(".toList := by decide
    unfold baseName
    rw [if_pos (List.mem_append_left _ hopen), takeWhile_append_of_mem hopen]
    decide
  have hknown := base_known h
  rw [hbase] at hknown
  revert hknown
  decide

end ChTypes

end Quickhouse
