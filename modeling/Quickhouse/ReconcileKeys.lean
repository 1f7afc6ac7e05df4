import Mathlib.Data.List.Dedup
import Quickhouse.Lib.FirstSeen
import Quickhouse.Lib.Results
import Quickhouse.Lib.Runs
import Quickhouse.Source.ClickHouseRows
import Quickhouse.SqlQuoting

/-!
# Keys gone from the source

`reconcile_keys` reads the keys that the destination holds, then those of the source, both as text, and deletes the rows
whose keys the source no longer has.  The tables change while it runs.  Keys that both engines write alike are told apart
by their texts, and then only a key that is gone is deleted (`reconcile_deletes_gone_keys`).
-/

namespace Quickhouse.ReconcileKeys

open Runs SqlLexer TabSeparated Text

/-! ### What to reconcile -/

inductive SourceConfig where
  | postgres | mySql | bigQuery | clickHouse | cleverTap | appsFlyer | httpApi | arrow
  deriving DecidableEq, Repr

def SourceConfig.kind : SourceConfig → String
  | .postgres => "postgres"
  | .mySql => "mysql"
  | .bigQuery => "bigquery"
  | .clickHouse => "clickhouse"
  | .cleverTap => "clevertap"
  | .appsFlyer => "appsflyer"
  | .httpApi => "http"
  | .arrow => "arrow"

inductive DestinationConfig where
  | clickHouse | bigQuery | csv
  deriving DecidableEq, Repr

/-- The engine behind a destination; files have none. -/
def DestinationConfig.engine : DestinationConfig → Option StateEngine
  | .clickHouse => some .clickHouse
  | .bigQuery => some .bigQuery
  | .csv => none

def DestinationConfig.supportsRowDelete (dest : DestinationConfig) : Bool := dest.engine.isSome

structure ReconcileConfig where
  sourceTable : Option String := none
  sourceQuery : Option String := none
  destTable : String
  key : String
  window : Option String := none
  destWindow : Option String := none
  delete : Bool := false
  /-- Zero for no ceiling. -/
  maxDeleteKeys : Nat := 0
  sampleLimit : Nat := 10
  deriving DecidableEq, Repr

namespace ReconcileConfig

def effectiveDestWindow (cfg : ReconcileConfig) : Option String := cfg.destWindow.or cfg.window

def validate (cfg : ReconcileConfig) : Except EtlError Unit :=
  if isBlank cfg.destTable then .error (.config "reconcile_keys requires dest_table")
  else if isBlank cfg.key then .error (.config "reconcile_keys requires key")
  else if cfg.sourceTable.isSome && cfg.sourceQuery.isSome then
    .error (.config "reconcile_keys takes source_table or source_query, not both")
  else if cfg.sourceTable.isNone && cfg.sourceQuery.isNone then
    .error (.config "reconcile_keys requires source_table or source_query")
  else if cfg.delete && cfg.effectiveDestWindow.isNone then
    .error (.config ("reconcile_keys with delete=True requires a window (an unbounded delete would remove every " ++
      "destination key the source does not hold at this instant, which is a full refresh with a race in it, not a " ++
      "reconcile)"))
  else .ok ()

end ReconcileConfig

structure ReconcileResult where
  sourceKeys : Nat
  destKeys : Nat
  orphanKeys : Nat
  missingKeys : Nat
  rowsDeleted : Nat
  orphanSample : List (List Char)
  missingSample : List (List Char)
  deriving DecidableEq, Repr

def ensureKeysetSource (source : SourceConfig) : Except EtlError Unit :=
  match source with
  | .postgres | .mySql | .clickHouse => .ok ()
  | other => .error (.config ("reconcile_keys does not support a " ++ other.kind ++ " source (PostgreSQL, MySQL and " ++
      "ClickHouse only): a BigQuery source is normally itself a mirror rather than the system of record, and an HTTP API " ++
      "source has no keyset query to diff against"))

/-- What is checked before anything is read. -/
def supported (source : SourceConfig) (dest : DestinationConfig) (cfg : ReconcileConfig) : Except EtlError Unit :=
  if dest = .csv then
    .error (.config ("reconcile_keys is not supported for a CSV destination: it reads the destination's keys with a " ++
      "query, and part files have none to run"))
  else do
    cfg.validate
    ensureKeysetSource source
    if cfg.delete && !dest.supportsRowDelete then
      throw (.config ("this destination cannot delete individual rows, so reconcile_keys can only measure against it " ++
        "(delete=False)"))

/-! ### The engines -/

/-- The tables and their engines: how each writes a key as text, and what the destination takes a literal's text for. -/
structure Setting (κ : Type) where
  source : SourceConfig
  dest : DestinationConfig
  sourceText : κ → List Char
  destText : κ → List Char
  denotes : List Char → Option κ
  /-- The type that the destination declares its key column with. -/
  columnType : List Char
  /-- Whether the HTTP client takes a byte order mark off. -/
  charset : Bool
  /-- A text in quotes, as it is shown in a message. -/
  debug : List Char → String

/-- ClickHouse's answer to a query for the texts. -/
def textRows (texts : List (List Char)) : List TextRow := texts.map fun t => [some t]

def readSourceKeys (source : SourceConfig) (charset : Bool) (texts : List (List Char)) :
    Except EtlError (List (List Char)) :=
  match source with
  | .postgres | .mySql => .ok texts
  | .clickHouse =>
    ((queryRows (answer charset (textRows texts))).mapError (.context "reading source keyset")).map fun rows =>
      rows.filterMap fun r => r.head?.join
  | other => (ensureKeysetSource other).map fun _ => []

def readDestKeys (engine : StateEngine) (charset : Bool) (texts : List (List Char)) : Except EtlError (List (List Char)) :=
  match engine with
  | .clickHouse => queryColumn (answer charset (textRows texts))
  | .bigQuery => .ok texts

/-! ### The difference -/

def debugList (debug : List Char → String) (texts : List (List Char)) : String :=
  "[" ++ ", ".intercalate (texts.map debug) ++ "]"

/-- What is to be deleted, and the report so far. -/
def plan (cfg : ReconcileConfig) (debug : List Char → String) (sourceKeys destKeys : List (List Char)) :
    Except EtlError (ReconcileResult × List (List Char)) :=
  let orphans := destKeys.filter (· ∉ sourceKeys)
  let missing := sourceKeys.filter (· ∉ destKeys)
  let sources := sourceKeys.dedup.length
  let dests := destKeys.dedup.length
  let result : ReconcileResult := {
    sourceKeys := sources
    destKeys := dests
    orphanKeys := orphans.length
    missingKeys := missing.length
    rowsDeleted := 0
    orphanSample := orphans.take cfg.sampleLimit
    missingSample := missing.take cfg.sampleLimit }
  if sourceKeys ≠ [] ∧ destKeys ≠ [] ∧ orphans.length = dests ∧ missing.length = sources then
    .error (.config ("reconcile found NO keys in common between source and destination (" ++ toString sources ++ " vs " ++
      toString dests ++ " distinct '" ++ cfg.key ++ "' value(s), zero overlap). Genuine drift is one-directional, so this " ++
      "is almost certainly the two sides rendering the same key differently, or the window predicate selecting different " ++
      "rows on each side — not " ++ toString dests ++ " deletable orphans. Source sample: " ++
      debugList debug (sourceKeys.take 3) ++ "; destination sample: " ++ debugList debug (destKeys.take 3)))
  else if cfg.delete = true ∧ orphans ≠ [] then
    if 0 < cfg.maxDeleteKeys ∧ cfg.maxDeleteKeys < orphans.length then
      .error (.config ("reconcile found " ++ toString orphans.length ++ " orphan key(s) in '" ++ cfg.destTable ++
        "', above the max_delete_keys ceiling of " ++ toString cfg.maxDeleteKeys ++
        "; refusing to delete. Widen the ceiling deliberately, or narrow the window."))
    else .ok (result, orphans)
  else .ok (result, [])

/-! ### The literals of a delete -/

def deleteKeyChunk : Nat := 10000

/-- One layer at a time: a wrapper is inside another. -/
def peelType (t : List Char) : List Char :=
  match ((stripPrefix "Nullable(" t).or (stripPrefix "LowCardinality(" t)).bind (stripSuffix ")") with
  | some inner => if (trim inner).length < t.length then peelType (trim inner) else trim inner
  | none => t
termination_by t.length

def dropSign : List Char → List Char
  | '+' :: s | '-' :: s => s
  | s => s

/-- A text that parses as a floating-point number. -/
def isF64 (s : List Char) : Bool :=
  let body := dropSign s
  let mantissa := body.takeWhile fun c => c ≠ 'e' && c ≠ 'E'
  let whole := mantissa.takeWhile Char.isDigit
  let digits := match mantissa.drop whole.length with
    | [] => !whole.isEmpty
    | '.' :: frac => frac.all Char.isDigit && !(whole ++ frac).isEmpty
    | _ => false
  let exponent := match body.drop mantissa.length with
    | [] => true
    | _ :: e => !(dropSign e).isEmpty && (dropSign e).all Char.isDigit
  (body.map Char.toLower ∈ ["inf".toList, "infinity".toList, "nan".toList]) || (digits && exponent)

def notALiteral (debug : List Char → String) (column : String) (columnType : List Char) (v : List Char) : EtlError :=
  .config ("key value " ++ debug v ++ " is not a valid literal for the numeric column '" ++ column ++ "' (" ++
    String.ofList columnType ++ ")")

/-- A number is pasted as it is, once it parses as one. -/
def numericLiteral (debug : List Char → String) (column : String) (columnType : List Char) (v : List Char) :
    Except EtlError (List Char) :=
  if isF64 v && !v.any isWhitespace then .ok v else .error (notALiteral debug column columnType v)

/-- ClickHouse coerces a quoted literal to the column's type. -/
def keyLiterals (debug : List Char → String) (bareType : List Char) (column : String) (values : List (List Char)) :
    Except EtlError (List (List Char)) :=
  let numeric := ["Int", "UInt", "Float", "Decimal"].any fun p => p.toList.isPrefixOf bareType
  values.mapM fun v =>
    if numeric then numericLiteral debug column bareType v
    else .ok (quoted (StateEngine.clickHouse.escapeSqlString v))

def bqKeyLiterals (debug : List Char → String) (dataType : List Char) (column : String) (values : List (List Char)) :
    Except EtlError (List (List Char)) :=
  let t := String.ofList ((trim dataType).map Char.toUpper)
  let numeric := t ∈ ["INT64", "INTEGER", "NUMERIC", "BIGNUMERIC", "DECIMAL", "BIGDECIMAL", "FLOAT64"]
  let typed := [("STRING", ""), ("DATE", "DATE "), ("DATETIME", "DATETIME "), ("TIMESTAMP", "TIMESTAMP ")].lookup t
  if numeric then values.mapM (numericLiteral debug column dataType)
  else match typed with
    | some start => .ok (values.map fun v => start.toList ++ quoted (StateEngine.bigQuery.escapeSqlString v))
    | none => .error (.config ("column '" ++ column ++ "' has BigQuery type " ++ String.ofList dataType ++
        ", which reconcile_keys cannot write as a literal; use an INT64/NUMERIC/STRING/DATE/DATETIME/TIMESTAMP key"))

/-- The literals of the keys, as the destination's sink writes them. -/
def literals (engine : StateEngine) (debug : List Char → String) (columnType : List Char) (column : String)
    (values : List (List Char)) : Except EtlError (List (List Char)) :=
  match engine with
  | .clickHouse => keyLiterals debug (peelType (trim columnType)) column values
  | .bigQuery => bqKeyLiterals debug columnType column values

/-! ### A reconcile and the tables around it -/

/-- A literal without the name of its type. -/
def untyped (literal : List Char) : List Char :=
  (["DATE ", "DATETIME ", "TIMESTAMP "].findSome? fun p => stripPrefix p literal).getD literal

/-- The text of a literal: of a number as it stands, of a quoted one what its quotes hold. -/
def readLiteral (engine : StateEngine) (literal : List Char) : Option (List Char) :=
  if (untyped literal).head? = some '\'' then
    (engine.strings.lex (untyped literal)).bind fun r => if r.2 = [] then some r.1 else none
  else some (untyped literal)

structure Row (κ : Type) where
  /-- NULL is no key. -/
  key : Option κ
  inWindow : Bool
  deriving DecidableEq, Repr

inductive Phase where
  | start
  | destRead (keys : List (List Char))
  /-- The orphans that are left; the rows of the next statement are counted before it. -/
  | deleting (result : ReconcileResult) (left : List (List Char)) (counted : Bool)
  | done (result : Except EtlError ReconcileResult)

/-- Both tables, how far the reconcile is, and what it has seen and done. -/
structure World (κ : Type) where
  source : List (Row κ)
  dest : List (Row κ)
  phase : Phase
  /-- The keys that the source held when they were read. -/
  sourceSeen : List κ := []
  destSeen : List κ := []
  deleted : List (Row κ) := []

inductive Event (κ : Type) where
  | changeSource (rows : List (Row κ))
  | changeDest (rows : List (Row κ))
  /-- The distinct texts come in any order. -/
  | readDest (texts : List (List Char))
  | readSource (texts : List (List Char))
  | count
  | delete
  | fail (e : EtlError)

section

variable {κ : Type} [DecidableEq κ] (e : Setting κ) (cfg : ReconcileConfig)

/-- The distinct keys of the rows in the window. -/
def keysOf (rows : List (Row κ)) : List κ := ((rows.filter (·.inWindow)).filterMap (·.key)).dedup

/-- The keys that a statement's literals stand for. -/
def namedKeys (engine : StateEngine) (chunk : List (List Char)) : Except EtlError (List κ) := do
  let lits ← literals engine e.debug e.columnType cfg.key chunk
  match lits.mapM fun lit => (readLiteral engine lit).bind e.denotes with
  | some keys => pure keys
  | none => throw (.other "the destination refuses the statement")

/-- A row in the window with one of the keys. -/
def hit (keys : List κ) (row : Row κ) : Bool := row.inWindow && row.key.any (· ∈ keys)

def World.finish (w : World κ) (result : Except EtlError ReconcileResult) : World κ := { w with phase := .done result }

/-- The difference is made as soon as the source is read. -/
def World.compare (w : World κ) (sourceKeys destKeys : List (List Char)) : World κ :=
  match plan cfg e.debug sourceKeys destKeys with
  | .error err => w.finish (.error err)
  | .ok (result, []) => w.finish (.ok result)
  | .ok (result, orphans) => { w with phase := .deleting result orphans false }

def step (w : World κ) : Event κ → Option (World κ)
  | .changeSource rows => some { w with source := rows }
  | .changeDest rows => some { w with dest := rows }
  | .fail err =>
    match w.phase with
    | .done _ => none
    | _ => some (w.finish (.error err))
  | .readDest texts =>
    match w.phase, e.dest.engine with
    | .start, some engine =>
      if texts.Perm ((keysOf w.dest).map e.destText).dedup then
        let w := { w with destSeen := keysOf w.dest }
        match readDestKeys engine e.charset texts with
        | .error err => some (w.finish (.error err))
        | .ok keys => some { w with phase := .destRead keys }
      else none
    | _, _ => none
  | .readSource texts =>
    match w.phase with
    | .destRead destKeys =>
      if texts.Perm ((keysOf w.source).map e.sourceText).dedup then
        let w := { w with sourceSeen := keysOf w.source }
        match readSourceKeys e.source e.charset texts with
        | .error err => some (w.finish (.error err))
        | .ok sourceKeys => some (w.compare e cfg sourceKeys destKeys)
      else none
    | _ => none
  | .count =>
    match w.phase, e.dest.engine with
    | .deleting result left false, some engine =>
      match namedKeys e cfg engine (left.take deleteKeyChunk) with
      | .error err => some (w.finish (.error err))
      | .ok keys =>
        let result := { result with rowsDeleted := result.rowsDeleted + w.dest.countP (hit keys) }
        some { w with phase := .deleting result left true }
    | _, _ => none
  | .delete =>
    match w.phase, e.dest.engine with
    | .deleting result left true, some engine =>
      match namedKeys e cfg engine (left.take deleteKeyChunk) with
      | .error err => some (w.finish (.error err))
      | .ok keys =>
        let w := { w with dest := w.dest.filter (!hit keys ·), deleted := w.deleted ++ w.dest.filter (hit keys) }
        let left := left.drop deleteKeyChunk
        some (if left = [] then w.finish (.ok result) else { w with phase := .deleting result left false })
    | _, _ => none

/-- A reconcile of two tables. -/
def begin (source dest : List (Row κ)) : World κ :=
  match supported e.source e.dest cfg with
  | .error err => { source, dest, phase := .done (.error err) }
  | .ok () => { source, dest, phase := .start }

end

/-! ### Keys that can be compared -/

/-- Neither blank nor changed on the way, and no byte order mark is taken off. -/
def Arrives (charset : Bool) (changed : Char → Prop) (t : List Char) : Prop :=
  t ≠ [] ∧ (∀ c ∈ t, ¬ changed c) ∧ Unmarked charset t

/-- Both engines write a key alike, and only one key so, and the texts arrive as they are. -/
structure Comparable {κ : Type} (e : Setting κ) (source dest : List κ) : Prop where
  alike : ∀ s ∈ source, ∀ d ∈ dest, e.sourceText s = e.destText d ↔ s = d
  denoted : ∀ d ∈ dest, e.denotes (e.destText d) = some d
  sourceArrives : e.source = .clickHouse → ∀ s ∈ source, Arrives e.charset Unread (e.sourceText s)
  destArrives : e.dest = .clickHouse → ∀ d ∈ dest, Arrives e.charset (fun c => escapeLetter c ≠ none) (e.destText d)

/-- The key sets are apart, or there is more to delete than may be. -/
def Refused {κ : Type} [DecidableEq κ] (cfg : ReconcileConfig) (source dest : List κ) : Prop :=
  (source ≠ [] ∧ dest ≠ [] ∧ ∀ s ∈ source, s ∉ dest) ∨
    (cfg.delete = true ∧ 0 < cfg.maxDeleteKeys ∧ cfg.maxDeleteKeys < (dest.filter (· ∉ source)).length)

/-! ### A literal stands for the text it was made of -/

theorem readLiteral_quoted (engine : StateEngine) {start : String} (h : start ∈ ["", "DATE ", "DATETIME ", "TIMESTAMP "])
    (v : List Char) : readLiteral engine (start.toList ++ quoted (engine.escapeSqlString v)) = some v := by
  have hbody : untyped (start.toList ++ quoted (engine.escapeSqlString v)) = quoted (engine.escapeSqlString v) := by
    simp only [List.mem_cons, List.not_mem_nil, or_false] at h
    rcases h with rfl | rfl | rfl | rfl <;> rfl
  have hhead : (quoted (engine.escapeSqlString v)).head? = some '\'' := rfl
  have hlex := engine.lex_escaped v (show ([] : List Char).head? ≠ some '\'' by simp)
  rw [List.append_nil] at hlex
  unfold readLiteral
  rw [hbody, if_pos hhead, hlex]
  rfl

/-- A number starts with neither a quote nor the name of a type. -/
theorem isF64_head {c : Char} {s : List Char} (h : isF64 (c :: s) = true) : c ≠ '\'' ∧ c ≠ 'D' ∧ c ≠ 'T' := by
  refine ⟨?_, ?_, ?_⟩
  · rintro rfl
    simp [isF64, dropSign] at h
  · rintro rfl
    simp [isF64, dropSign] at h
  · rintro rfl
    simp [isF64, dropSign] at h

theorem stripPrefix_ne {c d : Char} {p : String} {ps s : List Char} (hp : p.toList = d :: ps) (h : c ≠ d) :
    stripPrefix p (c :: s) = none := by
  unfold stripPrefix
  rw [hp, if_neg]
  simpa using fun hcd => absurd hcd (Ne.symm h)

theorem readLiteral_number (engine : StateEngine) {v : List Char} (h : isF64 v = true) : readLiteral engine v = some v := by
  cases v with
  | nil => cases h
  | cons c s =>
    obtain ⟨hquote, hd, ht⟩ := isF64_head h
    have hbody : untyped (c :: s) = c :: s := by
      unfold untyped
      rw [List.findSome?_eq_none_iff.mpr, Option.getD_none]
      simp only [List.mem_cons, List.not_mem_nil, or_false]
      rintro p (rfl | rfl | rfl)
      · exact stripPrefix_ne rfl hd
      · exact stripPrefix_ne rfl hd
      · exact stripPrefix_ne rfl ht
    unfold readLiteral
    rw [hbody, if_neg]
    simpa using hquote

theorem readLiteral_numericLiteral (engine : StateEngine) {debug : List Char → String} {column : String}
    {columnType v lit : List Char} (h : numericLiteral debug column columnType v = .ok lit) :
    readLiteral engine lit = some v := by
  unfold numericLiteral at h
  split_ifs at h with hnumber
  obtain rfl := Except.ok.inj h
  rw [Bool.and_eq_true] at hnumber
  exact readLiteral_number engine hnumber.1

/-- The destination reads each literal as the key's text. -/
theorem literals_read {engine : StateEngine} {debug : List Char → String} {columnType : List Char} {column : String}
    {values lits : List (List Char)} (h : literals engine debug columnType column values = .ok lits) :
    List.Forall₂ (fun v lit => readLiteral engine lit = some v) values lits := by
  cases engine with
  | clickHouse =>
    refine (Results.forall₂_of_mapM_eq_ok h).imp fun v lit hlit => ?_
    split_ifs at hlit with hnumeric
    · exact readLiteral_numericLiteral .clickHouse hlit
    · obtain rfl := Except.ok.inj hlit
      exact @readLiteral_quoted .clickHouse "" List.mem_cons_self v
  | bigQuery =>
    unfold literals bqKeyLiterals at h
    dsimp only at h
    split_ifs at h with hnumeric
    · exact (Results.forall₂_of_mapM_eq_ok h).imp fun v lit hlit => readLiteral_numericLiteral .bigQuery hlit
    · split at h
      · rename_i start htyped
        have hstart : start ∈ ["", "DATE ", "DATETIME ", "TIMESTAMP "] := by
          have := FirstSeen.mem_of_lookup htyped
          simp only [List.mem_cons, List.not_mem_nil, or_false, Prod.mk.injEq] at this ⊢
          rcases this with h | h | h | h <;> simp [h.2]
        obtain rfl := Except.ok.inj h
        rw [List.forall₂_map_right_iff, List.forall₂_same]
        exact fun v _ => readLiteral_quoted .bigQuery hstart v
      · cases h

/-! ### The texts arrive -/

theorem textRows_ne_nil (texts : List (List Char)) : ∀ row ∈ textRows texts, row ≠ [] := by
  intro row hrow
  obtain ⟨t, -, rfl⟩ := List.mem_map.mp hrow
  simp

theorem text_answer {charset : Bool} {changed : Char → Prop} {texts : List (List Char)}
    (h : ∀ t ∈ texts, Arrives charset changed t) : (answer charset (textRows texts)).text = writeRows (textRows texts) := by
  cases texts with
  | nil => rfl
  | cons t texts => exact text_unmarked (h t List.mem_cons_self).2.2 (textRows_ne_nil texts)

theorem readDestKeys_eq {engine : StateEngine} {charset : Bool} {texts : List (List Char)}
    (h : engine = .clickHouse → ∀ t ∈ texts, Arrives charset (fun c => escapeLetter c ≠ none) t) :
    readDestKeys engine charset texts = .ok texts := by
  cases engine with
  | bigQuery => rfl
  | clickHouse =>
    have h := h rfl
    have hlines : (lines (writeRows (textRows texts))).filter (· ≠ []) = texts := by
      rw [lines_writeRows, textRows, List.map_map]
      have hwrite : texts.map (writeRow ∘ fun t => [some t]) = texts := by
        refine (List.map_congr_left fun t ht => ?_).trans (List.map_id texts)
        have hrow : writeRow [some t] = escape t := by simp [writeRow, writeField, List.intercalate]
        exact hrow.trans (escape_of_plain fun c hc => not_not.mp ((h t ht).2.1 c hc))
      rw [hwrite]
      exact List.filter_eq_self.mpr fun t ht => by simpa using (h t ht).1
    show Except.ok ((lines (answer charset (textRows texts)).text).filter (· ≠ [])) = .ok texts
    rw [text_answer h, hlines]

theorem readSourceKeys_ok {source : SourceConfig} {charset : Bool} {texts keys : List (List Char)}
    (hkeys : readSourceKeys source charset texts = .ok keys)
    (h : source = .clickHouse → ∀ t ∈ texts, Arrives charset Unread t) : keys = texts := by
  cases source with
  | postgres | mySql => exact (Except.ok.inj hkeys).symm
  | clickHouse =>
    have h := h rfl
    have hread : readRows (textRows texts) = textRows texts := by
      refine readRows_eq_self.mpr fun row hrow => ?_
      obtain ⟨t, ht, rfl⟩ := List.mem_map.mp hrow
      obtain ⟨hblank, hread, -⟩ := h t ht
      refine ⟨by simpa using hblank, fun f hf c hc => ?_⟩
      obtain rfl := List.mem_singleton.mp hf
      exact hread c hc
    have hrows : queryRows (answer charset (textRows texts)) = .ok (textRows texts) := by
      rw [queryRows_answer (text_answer h) (textRows_ne_nil texts), hread]
    have htexts : (textRows texts).filterMap (fun r => r.head?.join) = texts := by
      rw [textRows, List.filterMap_map]
      exact (List.filterMap_congr fun t _ => rfl).trans List.filterMap_some
    unfold readSourceKeys at hkeys
    rw [hrows] at hkeys
    rw [← htexts]
    exact (Except.ok.inj hkeys).symm
  | bigQuery | cleverTap | appsFlyer | httpApi | arrow => cases hkeys

/-! ### The difference is the one between the keys -/

section

variable {κ : Type} {e : Setting κ} {cfg : ReconcileConfig} {S D : List κ}

/-- The key was in the destination and is gone from the source. -/
def Gone (e : Setting κ) (S D : List κ) (t : List Char) : Prop := ∃ d ∈ D, t = e.destText d ∧ d ∉ S

theorem Comparable.injective (h : Comparable e S D) {d d' : κ} (hd : d ∈ D) (hd' : d' ∈ D)
    (heq : e.destText d = e.destText d') : d = d' := by
  have := h.denoted d hd
  rw [heq, h.denoted d' hd'] at this
  exact (Option.some.inj this).symm

theorem Comparable.nodup (h : Comparable e S D) (hD : D.Nodup) : (D.map e.destText).Nodup :=
  hD.map_on fun _ hd _ hd' => h.injective hd hd'

/-- What the source held does not matter to how the destination's keys are read. -/
theorem Comparable.nil (h : Comparable e S D) : Comparable e [] D := ⟨nofun, h.denoted, nofun, h.destArrives⟩

/-- The rows that were deleted had keys that are gone. -/
def Sound (w : World κ) : Prop := ∀ row ∈ w.deleted, ∃ k, row.key = some k ∧ k ∈ w.destSeen ∧ k ∉ w.sourceSeen

theorem sound_of_nil {w : World κ} (h : w.deleted = []) : Sound w := by
  intro row hrow
  rw [h] at hrow
  cases hrow

variable [DecidableEq κ]

/-- Where a plan is made, the orphans are keys that are gone, and nothing speaks against deleting them. -/
theorem plan_ok (h : Comparable e S D) (hD : D.Nodup) {sourceKeys destKeys orphans : List (List Char)}
    (hsource : sourceKeys.Perm (S.map e.sourceText).dedup) (hdest : destKeys.Perm (D.map e.destText))
    {debug : List Char → String} {result : ReconcileResult}
    (hplan : plan cfg debug sourceKeys destKeys = .ok (result, orphans)) :
    (∀ t ∈ orphans, Gone e S D t) ∧ ¬ Refused cfg S D := by
  have hmem : ∀ d ∈ D, e.destText d ∈ sourceKeys ↔ d ∈ S := by
    intro d hd
    rw [hsource.mem_iff, List.mem_dedup, List.mem_map]
    constructor
    · rintro ⟨s, hs, heq⟩
      exact (h.alike s hs d hd).mp heq ▸ hs
    · exact fun hs => ⟨d, hs, (h.alike d hs d hd).mpr rfl⟩
  have hgone : ∀ t ∈ destKeys.filter (· ∉ sourceKeys), Gone e S D t := by
    intro t ht
    obtain ⟨ht, hsource⟩ := List.mem_filter.mp ht
    obtain ⟨d, hd, rfl⟩ := List.mem_map.mp (hdest.mem_iff.mp ht)
    exact ⟨d, hd, rfl, fun hs => of_decide_eq_true hsource ((hmem d hd).mpr hs)⟩
  have hcount : (destKeys.filter (· ∉ sourceKeys)).length = (D.filter (· ∉ S)).length := by
    rw [(hdest.filter _).length_eq, List.filter_map, List.length_map]
    congr 1
    refine List.filter_congr fun d hd => ?_
    simp only [Function.comp, hmem d hd]
  have hapart : (S ≠ [] ∧ D ≠ [] ∧ ∀ s ∈ S, s ∉ D) → sourceKeys ≠ [] ∧ destKeys ≠ [] ∧
      (destKeys.filter (· ∉ sourceKeys)).length = destKeys.dedup.length ∧
      (sourceKeys.filter (· ∉ destKeys)).length = sourceKeys.dedup.length := by
    rintro ⟨hS, hDne, hdisjoint⟩
    have hnot : ∀ t ∈ sourceKeys, t ∉ destKeys := by
      intro t ht htd
      rw [hsource.mem_iff, List.mem_dedup, List.mem_map] at ht
      obtain ⟨s, hs, rfl⟩ := ht
      obtain ⟨d, hd, heq⟩ := List.mem_map.mp (hdest.mem_iff.mp htd)
      exact hdisjoint s hs ((h.alike s hs d hd).mp heq.symm ▸ hd)
    obtain ⟨s, hs⟩ := List.exists_mem_of_ne_nil S hS
    obtain ⟨d, hd⟩ := List.exists_mem_of_ne_nil D hDne
    have hs' : e.sourceText s ∈ sourceKeys := hsource.mem_iff.mpr (List.mem_dedup.mpr (List.mem_map_of_mem hs))
    have hd' : e.destText d ∈ destKeys := hdest.mem_iff.mpr (List.mem_map_of_mem hd)
    refine ⟨List.ne_nil_of_mem hs', List.ne_nil_of_mem hd', ?_, ?_⟩
    · rw [(hdest.nodup_iff.mpr (h.nodup hD)).dedup, List.filter_eq_self.mpr]
      intro t ht
      simpa using fun hts => hnot t hts ht
    · rw [(hsource.nodup_iff.mpr (List.nodup_dedup _)).dedup, List.filter_eq_self.mpr]
      simpa using hnot
  unfold plan at hplan
  dsimp only at hplan
  split_ifs at hplan with hnone hdelete hmany
  · obtain ⟨rfl, rfl⟩ := Prod.mk.inj (Except.ok.inj hplan)
    refine ⟨hgone, ?_⟩
    rintro (hdisjoint | ⟨-, hlimit⟩)
    · exact hnone (hapart hdisjoint)
    · rw [hcount] at hmany
      exact hmany hlimit
  · obtain ⟨rfl, rfl⟩ := Prod.mk.inj (Except.ok.inj hplan)
    refine ⟨nofun, ?_⟩
    rintro (hdisjoint | ⟨hdel, hpos, hlimit⟩)
    · exact hnone (hapart hdisjoint)
    · refine hdelete ⟨hdel, fun hnil => ?_⟩
      rw [← hcount, hnil, List.length_nil] at hlimit
      omega

/-! ### One step and a whole run -/

/-- What holds in each phase. -/
def Inv (e : Setting κ) (cfg : ReconcileConfig) (w : World κ) : Prop :=
  match w.phase with
  | .start => w.deleted = []
  | .destRead keys => w.deleted = [] ∧ w.destSeen.Nodup ∧
      (Comparable e [] w.destSeen → keys.Perm (w.destSeen.map e.destText))
  | .deleting _ left _ => Comparable e w.sourceSeen w.destSeen →
      Sound w ∧ (∀ t ∈ left, Gone e w.sourceSeen w.destSeen t) ∧ ¬ Refused cfg w.sourceSeen w.destSeen
  | .done (.ok _) => Comparable e w.sourceSeen w.destSeen → Sound w ∧ ¬ Refused cfg w.sourceSeen w.destSeen
  | .done (.error _) => Comparable e w.sourceSeen w.destSeen →
      Sound w ∧ (Refused cfg w.sourceSeen w.destSeen → w.deleted = [])

/-- A reconcile may fail anywhere. -/
theorem Inv.finish_error {w : World κ} (h : Inv e cfg w) (err : EtlError) : Inv e cfg (w.finish (.error err)) := by
  intro hc
  unfold Inv at h
  cases hphase : w.phase with
  | start =>
    rw [hphase] at h
    exact ⟨sound_of_nil h, fun _ => h⟩
  | destRead keys =>
    rw [hphase] at h
    exact ⟨sound_of_nil h.1, fun _ => h.1⟩
  | deleting result left counted =>
    rw [hphase] at h
    exact ⟨(h hc).1, fun hrefused => absurd hrefused (h hc).2.2⟩
  | done result =>
    rw [hphase] at h
    cases result with
    | ok result => exact ⟨(h hc).1, fun hrefused => absurd hrefused (h hc).2⟩
    | error err => exact h hc

omit [DecidableEq κ] in
/-- The keys that a statement names are those of its orphans. -/
theorem namedKeys_gone (h : Comparable e S D) {engine : StateEngine} {chunk : List (List Char)}
    (hgone : ∀ t ∈ chunk, Gone e S D t) {keys : List κ} (hok : namedKeys e cfg engine chunk = .ok keys) :
    ∀ k ∈ keys, k ∈ D ∧ k ∉ S := by
  obtain ⟨lits, hlits, hkeys⟩ := Results.bind_eq_ok.mp hok
  have hread := literals_read hlits
  cases hnamed : lits.mapM fun lit => (readLiteral engine lit).bind e.denotes with
  | none =>
    rw [hnamed] at hkeys
    cases hkeys
  | some named =>
    rw [hnamed] at hkeys
    obtain rfl := Except.ok.inj hkeys
    have hdenoted := Results.forall₂_of_mapM_eq_some hnamed
    clear hlits hnamed hkeys hok
    induction hread generalizing named with
    | nil =>
      cases hdenoted
      exact nofun
    | @cons t lit chunk lits ht _ ih =>
      cases hdenoted with
      | @cons _ k _ ks hk hks =>
        rw [ht, Option.bind_some] at hk
        intro k' hk'
        rcases List.mem_cons.mp hk' with rfl | hk'
        · obtain ⟨d, hd, rfl, hnot⟩ := hgone t List.mem_cons_self
          rw [h.denoted d hd] at hk
          exact Option.some.inj hk ▸ ⟨hd, hnot⟩
        · exact ih (fun t ht => hgone t (List.mem_cons_of_mem _ ht)) ks hks k' hk'

theorem hit_key {keys : List κ} {row : Row κ} (h : hit keys row = true) : ∃ k, row.key = some k ∧ k ∈ keys := by
  unfold hit at h
  rw [Bool.and_eq_true] at h
  cases hkey : row.key with
  | none =>
    rw [hkey] at h
    cases h.2
  | some k =>
    rw [hkey] at h
    exact ⟨k, rfl, of_decide_eq_true h.2⟩

theorem keysOf_nodup (rows : List (Row κ)) : (keysOf rows).Nodup := List.nodup_dedup _

/-- Both keysets are compared: what may be deleted is gone. -/
theorem compare_inv {w : World κ} (hdeleted : w.deleted = []) (hnodup : w.destSeen.Nodup)
    {sourceKeys destKeys : List (List Char)}
    (hkeys : Comparable e w.sourceSeen w.destSeen → sourceKeys.Perm (w.sourceSeen.map e.sourceText).dedup ∧
      destKeys.Perm (w.destSeen.map e.destText)) : Inv e cfg (w.compare e cfg sourceKeys destKeys) := by
  unfold World.compare
  cases hplan : plan cfg e.debug sourceKeys destKeys with
  | error err => exact fun _ => ⟨sound_of_nil hdeleted, fun _ => hdeleted⟩
  | ok planned =>
    obtain ⟨result, orphans⟩ := planned
    have hok : Comparable e w.sourceSeen w.destSeen → (∀ t ∈ orphans, Gone e w.sourceSeen w.destSeen t) ∧
        ¬ Refused cfg w.sourceSeen w.destSeen := by
      intro hc
      obtain ⟨hsource, hdest⟩ := hkeys hc
      exact plan_ok hc hnodup hsource hdest hplan
    cases orphans with
    | nil => exact fun hc => ⟨sound_of_nil hdeleted, (hok hc).2⟩
    | cons t orphans => exact fun hc => ⟨sound_of_nil hdeleted, hok hc⟩

theorem step_inv {w w' : World κ} {event : Event κ} (hw : Inv e cfg w) (h : step e cfg w event = some w') : Inv e cfg w' := by
  cases event with
  | changeSource rows =>
    obtain rfl := Option.some.inj h
    exact hw
  | changeDest rows =>
    obtain rfl := Option.some.inj h
    exact hw
  | fail err =>
    dsimp only [step] at h
    split at h
    · cases h
    · obtain rfl := Option.some.inj h
      exact hw.finish_error err
  | readDest texts =>
    dsimp only [step] at h
    split at h
    · rename_i engine hphase hengine
      split_ifs at h with htexts
      have hdeleted : w.deleted = [] := by
        unfold Inv at hw
        rwa [hphase] at hw
      split at h
      · obtain rfl := Option.some.inj h
        exact fun _ => ⟨sound_of_nil hdeleted, fun _ => hdeleted⟩
      · rename_i keys hkeys
        obtain rfl := Option.some.inj h
        refine ⟨hdeleted, keysOf_nodup _, fun hc => ?_⟩
        have hdest : engine = .clickHouse → e.dest = .clickHouse := by
          rintro rfl
          cases hd : e.dest <;> rw [hd] at hengine <;> first | rfl | cases hengine
        have htext : ∀ t ∈ texts, ∃ d ∈ keysOf w.dest, e.destText d = t := fun t ht =>
          List.mem_map.mp (List.mem_dedup.mp (htexts.mem_iff.mp ht))
        have harrives : engine = .clickHouse → ∀ t ∈ texts, Arrives e.charset (fun c => escapeLetter c ≠ none) t := by
          intro hclick t ht
          obtain ⟨d, hd, rfl⟩ := htext t ht
          exact hc.destArrives (hdest hclick) d hd
        rw [readDestKeys_eq harrives] at hkeys
        obtain rfl := Except.ok.inj hkeys
        rwa [(hc.nodup (keysOf_nodup _)).dedup] at htexts
    · cases h
  | readSource texts =>
    dsimp only [step] at h
    split at h
    · rename_i destKeys hphase
      split_ifs at h with htexts
      unfold Inv at hw
      rw [hphase] at hw
      obtain ⟨hdeleted, hnodup, hdest⟩ := hw
      split at h
      · obtain rfl := Option.some.inj h
        exact fun _ => ⟨sound_of_nil hdeleted, fun _ => hdeleted⟩
      · rename_i sourceKeys hsource
        obtain rfl := Option.some.inj h
        refine @compare_inv κ e cfg _ { w with sourceSeen := keysOf w.source } hdeleted hnodup sourceKeys destKeys
          fun hc => ⟨?_, hdest hc.nil⟩
        have harrives : e.source = .clickHouse → ∀ t ∈ texts, Arrives e.charset Unread t := by
          intro hclick t ht
          obtain ⟨s, hs, rfl⟩ := List.mem_map.mp (List.mem_dedup.mp (htexts.mem_iff.mp ht))
          exact hc.sourceArrives hclick s hs
        rw [readSourceKeys_ok hsource harrives]
        exact htexts
    · cases h
  | count =>
    dsimp only [step] at h
    split at h
    · rename_i result left engine hphase hengine
      split at h
      · obtain rfl := Option.some.inj h
        exact hw.finish_error _
      · obtain rfl := Option.some.inj h
        unfold Inv at hw
        rw [hphase] at hw
        exact hw
    · cases h
  | delete =>
    dsimp only [step] at h
    split at h
    · rename_i result left engine hphase hengine
      split at h
      · obtain rfl := Option.some.inj h
        exact hw.finish_error _
      · rename_i keys hkeys
        unfold Inv at hw
        rw [hphase] at hw
        have hafter : Comparable e w.sourceSeen w.destSeen →
            (∀ row ∈ w.deleted ++ w.dest.filter (hit keys), ∃ k, row.key = some k ∧ k ∈ w.destSeen ∧ k ∉ w.sourceSeen) ∧
            (∀ t ∈ left.drop deleteKeyChunk, Gone e w.sourceSeen w.destSeen t) ∧
            ¬ Refused cfg w.sourceSeen w.destSeen := by
          intro hc
          obtain ⟨hsound, hgone, hrefused⟩ := hw hc
          refine ⟨fun row hrow => ?_, fun t ht => hgone t (List.mem_of_mem_drop ht), hrefused⟩
          rcases List.mem_append.mp hrow with hrow | hrow
          · exact hsound row hrow
          · obtain ⟨k, hkey, hk⟩ := hit_key (List.mem_filter.mp hrow).2
            exact ⟨k, hkey, namedKeys_gone hc (fun t ht => hgone t (List.mem_of_mem_take ht)) hkeys k hk⟩
        split_ifs at h with hlast
        · obtain rfl := Option.some.inj h
          exact fun hc => ⟨(hafter hc).1, (hafter hc).2.2⟩
        · obtain rfl := Option.some.inj h
          exact hafter
    · cases h

theorem begin_inv (source dest : List (Row κ)) : Inv e cfg (begin e cfg source dest) := by
  unfold begin
  split
  · exact fun _ => ⟨sound_of_nil rfl, fun _ => rfl⟩
  · rfl

/-- The source is not read yet, or the reconcile has failed. -/
def Stopped (phase : Phase) : Prop :=
  phase = .start ∨ (∃ keys, phase = .destRead keys) ∨ ∃ err, phase = .done (.error err)

/-- With keys that can be compared. -/
theorem Inv.of_comparable {w : World κ} (hw : Inv e cfg w) (hc : Comparable e w.sourceSeen w.destSeen) :
    Sound w ∧ (Refused cfg w.sourceSeen w.destSeen → w.deleted = [] ∧ Stopped w.phase) := by
  unfold Inv at hw
  cases hphase : w.phase with
  | start =>
    rw [hphase] at hw
    exact ⟨sound_of_nil hw, fun _ => ⟨hw, .inl rfl⟩⟩
  | destRead keys =>
    rw [hphase] at hw
    exact ⟨sound_of_nil hw.1, fun _ => ⟨hw.1, .inr (.inl ⟨keys, rfl⟩)⟩⟩
  | deleting result left counted =>
    rw [hphase] at hw
    exact ⟨(hw hc).1, fun hrefused => absurd hrefused (hw hc).2.2⟩
  | done result =>
    rw [hphase] at hw
    cases result with
    | ok result => exact ⟨(hw hc).1, fun hrefused => absurd hrefused (hw hc).2⟩
    | error err => exact ⟨(hw hc).1, fun hrefused => ⟨(hw hc).2 hrefused, .inr (.inr ⟨err, rfl⟩)⟩⟩

theorem inv_of_exec {source dest : List (Row κ)} {events : List (Event κ)} {w : World κ}
    (hrun : exec (step e cfg) (begin e cfg source dest) events = some w) : Inv e cfg w :=
  exec_invariant (fun _ _ _ hs hstep => step_inv hs hstep) (begin_inv source dest) hrun

end

/-- With keys that can be compared, a row is deleted only when its key was in the destination and not in the source when
they were read; and when the two have no key in common, or too many would go, nothing is deleted and the reconcile fails. -/
theorem reconcile_deletes_gone_keys {κ : Type} [DecidableEq κ] (e : Setting κ) (cfg : ReconcileConfig)
    (source dest : List (Row κ)) {events : List (Event κ)} {w : World κ}
    (hrun : exec (step e cfg) (begin e cfg source dest) events = some w)
    (hcomparable : Comparable e w.sourceSeen w.destSeen) :
    (∀ row ∈ w.deleted, ∃ k, row.key = some k ∧ k ∈ w.destSeen ∧ k ∉ w.sourceSeen) ∧
      (Refused cfg w.sourceSeen w.destSeen → w.deleted = [] ∧ ∀ result, w.phase ≠ .done (.ok result)) := by
  obtain ⟨hsound, hrefused⟩ := (inv_of_exec hrun).of_comparable hcomparable
  refine ⟨hsound, fun h => ⟨(hrefused h).1, fun result hdone => ?_⟩⟩
  rcases (hrefused h).2 with hphase | ⟨keys, hphase⟩ | ⟨err, hphase⟩ <;> cases hdone.symm.trans hphase

/-- Text keys, which both engines write as they are. -/
def textKeys : Setting (List Char) where
  source := .postgres
  dest := .clickHouse
  sourceText := id
  destText := id
  denotes := some
  columnType := "LowCardinality(Nullable(String))".toList
  charset := true
  debug := String.ofList

def deleteInJuly : ReconcileConfig :=
  { sourceTable := some "t", destTable := "t", key := "code", window := some "month = 7", delete := true }

/-- A key is gone from the source, and another arrives there between the reads. -/
def goneAndNew : List (Event (List Char)) :=
  [.readDest [['b'], ['a']], .changeSource [⟨some ['a'], true⟩, ⟨some ['c'], true⟩], .readSource [['a'], ['c']], .count,
    .changeDest [⟨some ['a'], true⟩, ⟨some ['b'], true⟩, ⟨some ['c'], true⟩], .delete]

theorem gone_key_deleted :
    ∃ w, exec (step textKeys deleteInJuly) (begin textKeys deleteInJuly [⟨some ['a'], true⟩]
        [⟨some ['a'], true⟩, ⟨some ['b'], true⟩]) goneAndNew = some w ∧ w.deleted = [⟨some ['b'], true⟩] ∧
      ∀ row ∈ w.deleted, ∃ k, row.key = some k ∧ k ∈ w.destSeen ∧ k ∉ w.sourceSeen := by
  have hrun : (exec (step textKeys deleteInJuly) (begin textKeys deleteInJuly [⟨some ['a'], true⟩]
      [⟨some ['a'], true⟩, ⟨some ['b'], true⟩]) goneAndNew).map (fun w => (w.deleted, w.sourceSeen, w.destSeen)) =
      some ([⟨some ['b'], true⟩], [['a'], ['c']], [['a'], ['b']]) := by
    decide +kernel
  obtain ⟨w, hw, hseen⟩ := Option.map_eq_some_iff.mp hrun
  obtain ⟨hdeleted, hsource, hdest⟩ : w.deleted = _ ∧ w.sourceSeen = _ ∧ w.destSeen = _ := by simpa using hseen
  have hcomparable : Comparable textKeys w.sourceSeen w.destSeen := by
    rw [hsource, hdest]
    refine ⟨fun s _ d _ => Iff.rfl, fun d _ => rfl, nofun, fun _ d hd => ?_⟩
    simp only [List.mem_cons, List.not_mem_nil, or_false] at hd
    rcases hd with rfl | rfl
    · refine ⟨by decide, fun c hc => ?_, fun _ => by decide⟩
      obtain rfl := List.mem_singleton.mp hc
      exact not_not_intro rfl
    · refine ⟨by decide, fun c hc => ?_, fun _ => by decide⟩
      obtain rfl := List.mem_singleton.mp hc
      exact not_not_intro rfl
  exact ⟨w, hw, hdeleted, (reconcile_deletes_gone_keys textKeys deleteInJuly _ _ hw hcomparable).1⟩

end Quickhouse.ReconcileKeys
