import Quickhouse.Lib.SqlText
import Quickhouse.Source.ClickHouseRows
import Quickhouse.SqlQuoting

/-!
# The state store

Every write of a cursor adds a row to the state table, as an `INSERT` with its strings as literals, and a read
returns the latest row of its key.  ClickHouse answers a read with `TabSeparated` text, BigQuery with typed values.
-/

namespace Quickhouse

open SqlLexer SqlText Text TabSeparated

/-! ### Literals -/

namespace StateEngine

def literal (e : StateEngine) (s : String) : List Char := quoted (e.escapeSqlString s.toList)

/-- The value of a chunk column that an `INSERT` leaves out. -/
def chunkDefault : StateEngine → Option String
  | .clickHouse => some ""
  | .bigQuery => none

end StateEngine

/-! ### Statements -/

structure StateRow where
  sourceTable : String
  destTable : String
  lastWatermark : String
  rows : Nat
  chunkCursor : Option String
  chunkUpper : Option String
  chunkRead : Option String
  runTs : Nat
  deriving DecidableEq, Repr

/-- The column list of an `INSERT`, and its text past `VALUES (`. -/
structure InsertSql where
  columns : List String
  values : List Char

/-- What a run saves under its state key and destination table. -/
inductive StateWrite where
  | watermark (key dest value : String) (rows : Nat)
  | chunkCursor (key dest : String) (committed : Option String) (cursor upper read : String) (rows : Nat)
  deriving DecidableEq, Repr

def StateWrite.key : StateWrite → String × String
  | .watermark key dest _ _ | .chunkCursor key dest _ _ _ _ _ => (key, dest)

/-- ClickHouse's one statement for a state row. -/
def stateRowInsertSql (sourceId destTable watermark : String) (rows : Nat) (chunkCursor chunkUpper chunkRead : String) :
    InsertSql where
  columns := ["source_table", "dest_table", "last_watermark", "rows", "chunk_cursor", "chunk_upper", "chunk_read"]
  values := listText [StateEngine.clickHouse.literal sourceId, StateEngine.clickHouse.literal destTable,
    StateEngine.clickHouse.literal watermark, Nat.toDigits 10 rows, StateEngine.clickHouse.literal chunkCursor,
    StateEngine.clickHouse.literal chunkUpper, StateEngine.clickHouse.literal chunkRead]

def buildPersistWatermarkSql (sourceId destTable watermark : String) (rows : Nat) : InsertSql where
  columns := ["source_table", "dest_table", "last_watermark", "rows", "run_ts"]
  values := listText [StateEngine.bigQuery.literal sourceId, StateEngine.bigQuery.literal destTable,
    StateEngine.bigQuery.literal watermark, Nat.toDigits 10 rows, SqlText.now]

def buildPersistChunkCursorSql (sourceId destTable committed cursor upper read : String) (rows : Nat) : InsertSql where
  columns := ["source_table", "dest_table", "last_watermark", "rows", "run_ts", "chunk_cursor", "chunk_upper",
    "chunk_read"]
  values := listText [StateEngine.bigQuery.literal sourceId, StateEngine.bigQuery.literal destTable,
    StateEngine.bigQuery.literal committed, Nat.toDigits 10 rows, SqlText.now, StateEngine.bigQuery.literal cursor,
    StateEngine.bigQuery.literal upper, StateEngine.bigQuery.literal read]

/-- `persist_watermark` and `persist_chunk_cursor` of each sink. -/
def StateWrite.insert : StateEngine → StateWrite → InsertSql
  | .clickHouse, .watermark key dest value rows => stateRowInsertSql key dest value rows "" "" ""
  | .clickHouse, .chunkCursor key dest committed cursor upper read rows =>
    stateRowInsertSql key dest (committed.getD "") rows cursor upper read
  | .bigQuery, .watermark key dest value rows => buildPersistWatermarkSql key dest value rows
  | .bigQuery, .chunkCursor key dest committed cursor upper read rows =>
    buildPersistChunkCursorSql key dest (committed.getD "") cursor upper read rows

/-- What ends every read. -/
def latestFirst : List Char := " ORDER BY run_ts DESC LIMIT 1".toList

/-- The condition of every read. -/
def stateCondition (e : StateEngine) (key dest : String) : List Char :=
  "source_table = ".toList ++ (e.literal key ++ (" AND dest_table = ".toList ++ (e.literal dest ++
    latestFirst)))

/-! ### The engine's side -/

/-- The text an insert gives a column. -/
def columnText (row : List (String × Value)) (name : String) : Option String :=
  match row.lookup name with
  | some (.text s) => some (String.ofList s)
  | _ => none

/-- The row an `INSERT` adds, at the server's time `runTs`. -/
def execInsert (e : StateEngine) (sql : InsertSql) (runTs : Nat) : Option StateRow := do
  let values ← lexValues e.strings sql.columns.length sql.values
  let row := sql.columns.zip values
  let rows ← match row.lookup "rows" with
    | some (.number n) => some n
    | _ => none
  pure {
    sourceTable := ← columnText row "source_table"
    destTable := ← columnText row "dest_table"
    lastWatermark := ← columnText row "last_watermark"
    rows
    chunkCursor := (columnText row "chunk_cursor").or e.chunkDefault
    chunkUpper := (columnText row "chunk_upper").or e.chunkDefault
    chunkRead := (columnText row "chunk_read").or e.chunkDefault
    runTs }

/-- The state table after a run of writes, each at its time. -/
def persistAll (e : StateEngine) (writes : List (StateWrite × Nat)) : Option (List StateRow) :=
  writes.mapM fun w => execInsert e (w.1.insert e) w.2

/-- The key and table a condition asks for. -/
def lexCondition (q : Quoting) (text : List Char) : Option (String × String) := do
  let text ← stripPrefix "source_table = " text
  let (key, text) ← q.lex text
  let text ← stripPrefix " AND dest_table = " text
  let (dest, text) ← q.lex text
  guard (text = latestFirst)
  return (String.ofList key, String.ofList dest)

def later (best : Option StateRow) (r : StateRow) : Option StateRow :=
  match best with
  | some b => if b.runTs < r.runTs then some r else some b
  | none => some r

/-- The row of the latest `run_ts`: `ORDER BY run_ts DESC LIMIT 1`. -/
def latest (rows : List StateRow) : Option StateRow := rows.foldl later none

/-- The rows a read selects. -/
def selectState (e : StateEngine) (rows : List StateRow) (key dest : String) : Option (Option StateRow) :=
  (lexCondition e.strings (stateCondition e key dest)).map fun k =>
    latest (rows.filter fun r => decide (r.sourceTable = k.1 ∧ r.destTable = k.2))

/-! ### Reads -/

structure SavedMarker where
  cursor : String
  upper : String
  read : String
  deriving DecidableEq, Repr

/-- One line `<cursor>\t<upper>\t<read>`: an empty cursor is no marker. -/
def markerOfLine (line : List Char) : Option SavedMarker :=
  let (cursor, rest) := (splitOnce '\t' line).getD (line, [])
  let (upper, read) := (splitOnce '\t' rest).getD (rest, [])
  if cursor = [] then none
  else some { cursor := String.ofList cursor, upper := String.ofList upper, read := String.ofList read }

/-- `none` when the engine refuses the statement. -/
def readLastWatermark (e : StateEngine) (charset : Bool) (rows : List StateRow) (key dest : String) :
    Option (Option String) :=
  (selectState e rows key dest).bind fun row => match e with
    | .clickHouse =>
      (queryScalar (answer charset (row.toList.map fun r => [some r.lastWatermark.toList]))).toOption.map
        (Option.map String.ofList)
    | .bigQuery => some ((row.map StateRow.lastWatermark).filter (· ≠ ""))

def readChunkState (e : StateEngine) (charset : Bool) (rows : List StateRow) (key dest : String) :
    Option (Option SavedMarker) :=
  (selectState e rows key dest).bind fun row => match e with
    | .clickHouse =>
      (queryColumn (answer charset (row.toList.map fun r => [some (r.chunkCursor.getD "").toList,
        some (r.chunkUpper.getD "").toList, some (r.chunkRead.getD "").toList]))).toOption.map
        fun lines => lines.head?.bind markerOfLine
    | .bigQuery => some (row.bind fun r => (r.chunkCursor.filter (· ≠ "")).map fun cursor =>
        { cursor, upper := r.chunkUpper.getD "", read := r.chunkRead.getD "" })

/-! ### What was saved -/

/-- The last write under a key. -/
def lastWrite (writes : List StateWrite) (key dest : String) : Option StateWrite :=
  (writes.filter fun w => decide (w.key = (key, dest))).getLast?

/-- The committed watermark a write saves; an empty one is none. -/
def StateWrite.savedWatermark : StateWrite → Option String
  | .watermark _ _ value _ => (some value).filter (· ≠ "")
  | .chunkCursor _ _ committed _ _ _ _ => committed.filter (· ≠ "")

/-- The resume marker a write saves; one without a cursor is none. -/
def StateWrite.savedMarker : StateWrite → Option SavedMarker
  | .watermark .. => none
  | .chunkCursor _ _ _ cursor upper read _ => if cursor = "" then none else some { cursor, upper, read }

/-- A lone value that is read as it was written: nothing in it is escaped, nothing trimmed off its ends. -/
def ReadAlone (charset : Bool) (s : List Char) : Prop := Plain s ∧ trim s = s ∧ Unmarked charset s

/-- What `TabSeparated` text gives back as it was. -/
def StateWrite.Unaltered (charset : Bool) : StateWrite → Prop
  | .watermark _ _ value _ => ReadAlone charset value.toList
  | .chunkCursor _ _ committed cursor upper read _ =>
    ReadAlone charset (committed.getD "").toList ∧
      (cursor = "" ∨ Plain cursor.toList ∧ Unmarked charset cursor.toList ∧ Plain upper.toList ∧ Plain read.toList)

/-! ### Literals are read back -/

namespace StateEngine

theorem reads_literal (e : StateEngine) (s : String) : Reads e.strings (e.literal s) (.text s.toList) := by
  have h := SqlText.reads_literal (q := e.strings) (s := s.toList) (fun c _ => e.spells c)
    (by rw [strings_quote]; decide)
  unfold literal
  rw [escapeSqlString_eq]
  rwa [strings_quote] at h

end StateEngine

/-- A read asks for its own key and table. -/
theorem lexCondition_stateCondition (e : StateEngine) (key dest : String) :
    lexCondition e.strings (stateCondition e key dest) = some (key, dest) := by
  have hkey : (" AND dest_table = ".toList ++ (quoted (e.escapeSqlString dest.toList) ++ latestFirst)).head? ≠ some '\'' := by
    simp
  have hdest : latestFirst.head? ≠ some '\'' := by decide
  unfold lexCondition stateCondition
  simp only [stripPrefix_append, Option.bind_eq_bind, Option.bind_some, StateEngine.literal, e.lex_escaped key.toList hkey,
    e.lex_escaped dest.toList hdest, String.ofList_toList]
  rfl

/-! ### Writes -/

/-- The row a write adds. -/
def StateWrite.row (e : StateEngine) (runTs : Nat) : StateWrite → StateRow
  | .watermark key dest value rows =>
    ⟨key, dest, value, rows, e.chunkDefault, e.chunkDefault, e.chunkDefault, runTs⟩
  | .chunkCursor key dest committed cursor upper read rows =>
    ⟨key, dest, committed.getD "", rows, some cursor, some upper, some read, runTs⟩

theorem execInsert_insert (e : StateEngine) (w : StateWrite) (runTs : Nat) :
    execInsert e (w.insert e) runTs = some (w.row e runTs) := by
  have hnumber := reads_number (q := e.strings) (by rw [e.strings_quote]; rfl)
  have hlit := e.reads_literal
  cases e with
  | clickHouse =>
    have hvalues : ∀ source dest watermark rows cursor upper read,
        lexValues clickHouseLiteral 7 (stateRowInsertSql source dest watermark rows cursor upper read).values =
          some [.text source.toList, .text dest.toList, .text watermark.toList, .number rows, .text cursor.toList,
            .text upper.toList, .text read.toList] := by
      intro source dest watermark rows cursor upper read
      exact lexValues_listText (.cons (hlit _) (.cons (hlit _) (.cons (hlit _) (.cons (hnumber _) (.cons (hlit _)
        (.cons (hlit _) (.cons (hlit _) .nil))))))) (List.cons_ne_nil _ _)
    cases w with
    | watermark key dest value rows =>
      unfold execInsert StateWrite.insert
      dsimp only [StateEngine.strings]
      rw [show (stateRowInsertSql key dest value rows "" "" "").columns.length = 7 from rfl, hvalues]
      simp [columnText, stateRowInsertSql, StateWrite.row, StateEngine.chunkDefault, List.lookup_cons]
    | chunkCursor key dest committed cursor upper read rows =>
      unfold execInsert StateWrite.insert
      dsimp only [StateEngine.strings]
      rw [show (stateRowInsertSql key dest (committed.getD "") rows cursor upper read).columns.length = 7 from rfl,
        hvalues]
      simp [columnText, stateRowInsertSql, StateWrite.row, List.lookup_cons]
  | bigQuery =>
    have hnow := reads_now (q := googleSqlLiteral) (by decide)
    cases w with
    | watermark key dest value rows =>
      have hvalues : lexValues googleSqlLiteral 5 (buildPersistWatermarkSql key dest value rows).values =
          some [.text key.toList, .text dest.toList, .text value.toList, .number rows, .currentTimestamp] :=
        lexValues_listText (.cons (hlit _) (.cons (hlit _) (.cons (hlit _) (.cons (hnumber _) (.cons hnow .nil)))))
          (List.cons_ne_nil _ _)
      unfold execInsert StateWrite.insert
      dsimp only [StateEngine.strings]
      rw [show (buildPersistWatermarkSql key dest value rows).columns.length = 5 from rfl, hvalues]
      simp [columnText, buildPersistWatermarkSql, StateWrite.row, StateEngine.chunkDefault, List.lookup_cons]
    | chunkCursor key dest committed cursor upper read rows =>
      have hvalues : lexValues googleSqlLiteral 8
          (buildPersistChunkCursorSql key dest (committed.getD "") cursor upper read rows).values =
          some [.text key.toList, .text dest.toList, .text (committed.getD "").toList, .number rows,
            .currentTimestamp, .text cursor.toList, .text upper.toList, .text read.toList] :=
        lexValues_listText (.cons (hlit _) (.cons (hlit _) (.cons (hlit _) (.cons (hnumber _) (.cons hnow
          (.cons (hlit _) (.cons (hlit _) (.cons (hlit _) .nil)))))))) (List.cons_ne_nil _ _)
      unfold execInsert StateWrite.insert
      dsimp only [StateEngine.strings]
      rw [show (buildPersistChunkCursorSql key dest (committed.getD "") cursor upper read rows).columns.length = 8
        from rfl, hvalues]
      simp [columnText, buildPersistChunkCursorSql, StateWrite.row, List.lookup_cons]

theorem persistAll_eq (e : StateEngine) (writes : List (StateWrite × Nat)) :
    persistAll e writes = some (writes.map fun w => w.1.row e w.2) := by
  unfold persistAll
  induction writes with
  | nil => rfl
  | cons w writes ih =>
    rw [List.mapM_cons, execInsert_insert, Option.bind_eq_bind, Option.bind_some, ih]
    rfl

/-! ### The latest row -/

private theorem foldl_latest {rows : List StateRow} (h : rows.Pairwise fun a b => a.runTs < b.runTs)
    (best : Option StateRow) (hbest : ∀ b, best = some b → ∀ r ∈ rows, b.runTs < r.runTs) :
    rows.foldl later best = rows.getLast?.or best := by
  induction rows generalizing best with
  | nil => rfl
  | cons r rows ih =>
    obtain ⟨hr, hrows⟩ := List.pairwise_cons.mp h
    have hnext : later best r = some r := by
      cases best with
      | none => rfl
      | some b => exact if_pos (hbest b rfl r List.mem_cons_self)
    have hrest := ih hrows (some r) fun b hb => Option.some.inj hb ▸ hr
    rw [List.foldl_cons, hnext, hrest, List.getLast?_cons]
    cases rows.getLast? <;> rfl

theorem latest_eq_getLast? {rows : List StateRow} (h : rows.Pairwise fun a b => a.runTs < b.runTs) :
    latest rows = rows.getLast? := by
  have hfold := foldl_latest h none fun b hb => by cases hb
  rwa [Option.or_none] at hfold

@[simp] theorem StateWrite.row_key (e : StateEngine) (ts : Nat) (w : StateWrite) :
    ((w.row e ts).sourceTable, (w.row e ts).destTable) = w.key := by
  cases w <;> rfl

@[simp] theorem StateWrite.row_runTs (e : StateEngine) (ts : Nat) (w : StateWrite) : (w.row e ts).runTs = ts := by
  cases w <;> rfl

/-- A read selects the row of its key's last write, whatever was written under other keys. -/
theorem selectState_eq (e : StateEngine) {writes : List (StateWrite × Nat)}
    (hts : writes.Pairwise fun a b => a.2 < b.2) (key dest : String) :
    ∃ ts, selectState e (writes.map fun w => w.1.row e w.2) key dest =
      some ((lastWrite (writes.map Prod.fst) key dest).map fun w => w.row e ts) := by
  have hmatch : (writes.map fun w => w.1.row e w.2).filter
      (fun r => decide (r.sourceTable = key ∧ r.destTable = dest)) =
      (writes.filter fun w => decide (w.1.key = (key, dest))).map fun w => w.1.row e w.2 := by
    rw [List.filter_map]
    refine congrArg _ (List.filter_congr fun w _ => ?_)
    rw [Function.comp_apply, decide_eq_decide, ← w.1.row_key e w.2, Prod.mk.injEq]
  have hlast : lastWrite (writes.map Prod.fst) key dest =
      ((writes.filter fun w => decide (w.1.key = (key, dest))).getLast?).map Prod.fst := by
    unfold lastWrite
    rw [List.filter_map, List.getLast?_map]
    rfl
  have hsorted : ((writes.filter fun w => decide (w.1.key = (key, dest))).map fun w => w.1.row e w.2).Pairwise
      fun a b => a.runTs < b.runTs := by
    rw [List.pairwise_map]
    simp only [StateWrite.row_runTs]
    exact hts.filter _
  unfold selectState
  rw [lexCondition_stateCondition, Option.map_some]
  dsimp only
  rw [hmatch, latest_eq_getLast? hsorted, hlast, List.getLast?_map]
  cases (writes.filter fun w => decide (w.1.key = (key, dest))).getLast? with
  | none => exact ⟨0, rfl⟩
  | some w => exact ⟨w.2, rfl⟩

/-! ### What ClickHouse's text gives back -/

private theorem isWhitespace_newline : isWhitespace '\n' = true := by decide

theorem escape_ne_marked (s : List Char) : escape s ≠ byteOrderMark :: s := by
  intro h
  have hplain : Plain s := plain_of_count (by rw [h, List.count_cons_of_ne (by decide)])
  rw [escape_of_plain hplain] at h
  have hlen := congrArg List.length h
  simp at hlen

theorem trim_escape_ne_marked (s : List Char) : trim (escape s) ≠ byteOrderMark :: s := by
  intro h
  have hplain : Plain s := by
    apply plain_of_count
    have hcount := congrArg (List.count '\\') h
    rwa [count_trim (by decide), List.count_cons_of_ne (by decide)] at hcount
  rw [escape_of_plain hplain] at h
  have hcount := congrArg (List.count byteOrderMark) h
  rw [count_trim (by decide), List.count_cons_self] at hcount
  omega

theorem trim_writeRows (s : List Char) : trim (writeRows [[some s]]) = trim (escape s) := by
  have hrow : writeRows [[some s]] = escape s ++ ['\n'] := by simp [writeRows, writeRow, writeField, List.intercalate]
  rw [hrow, trim_snoc isWhitespace_newline]

/-- A lone text of the answer is read trimmed, and an empty one as none. -/
theorem queryScalar_eq_iff {resp : Response} (hstatus : resp.check = .ok resp) {s : List Char}
    (htext : resp.text = writeRows [[some s]]) (w : String) :
    (queryScalar resp).toOption.map (Option.map String.ofList) = some ((some w).filter (· ≠ "")) ↔
      trim (escape s) = w.toList := by
  have hread : queryScalar resp = .ok (if trim (escape s) = [] then none else some (trim (escape s))) := by
    unfold queryScalar queryTsv
    rw [hstatus]
    show Except.ok (if trim resp.text = [] then none else some (trim resp.text)) = _
    rw [htext, trim_writeRows]
  rw [hread]
  show some (Option.map String.ofList _) = _ ↔ _
  rw [Option.some.injEq]
  by_cases hw : w = ""
  · subst hw
    have hfilter : (some "").filter (· ≠ "") = none := rfl
    rw [hfilter]
    split_ifs with htrim
    · simpa using htrim
    · simpa using htrim
  · have hfilter : (some w).filter (· ≠ "") = some w := by simp [Option.filter_some, hw]
    rw [hfilter]
    split_ifs with htrim
    · rw [htrim]
      constructor
      · nofun
      · intro h
        exact absurd (String.toList_eq_nil_iff.mp h.symm) hw
    · rw [Option.map_some, Option.some.injEq]
      constructor
      · intro h
        rw [← h, String.toList_ofList]
      · intro h
        rw [h, String.ofList_toList]

theorem queryScalar_iff (charset : Bool) (w : String) :
    (queryScalar (answer charset [[some w.toList]])).toOption.map (Option.map String.ofList) =
      some ((some w).filter (· ≠ "")) ↔ ReadAlone charset w.toList := by
  by_cases hmark : Unmarked charset w.toList
  · rw [queryScalar_eq_iff rfl (text_unmarked hmark (by simp))]
    constructor
    · intro h
      have hplain : Plain w.toList := by
        apply plain_of_count
        have hcount := congrArg (List.count '\\') h
        rwa [count_trim (by decide)] at hcount
      rw [escape_of_plain hplain] at h
      exact ⟨hplain, h, hmark⟩
    · rintro ⟨hplain, htrim, -⟩
      rw [escape_of_plain hplain, htrim]
  · obtain ⟨rfl, s, hs⟩ := eq_marked hmark
    refine iff_of_false (fun h => ?_) fun h => hmark h.2.2
    rw [hs] at h
    exact trim_escape_ne_marked s (((queryScalar_eq_iff rfl text_marked w).mp h).trans hs)

/-- The line of a marker is split where its tabs are: no field holds one. -/
theorem queryColumn_marker {resp : Response} (hstatus : resp.check = .ok resp) {cursor upper read : List Char}
    (htext : resp.text = writeRows [[some cursor, some upper, some read]]) :
    (queryColumn resp).toOption.map (fun lines => lines.head?.bind markerOfLine) = some
      (if cursor = [] then none else some
        { cursor := String.ofList (escape cursor)
          upper := String.ofList (escape upper)
          read := String.ofList (escape read) }) := by
  have hline : writeRow [some cursor, some upper, some read] =
      escape cursor ++ '\t' :: (escape upper ++ '\t' :: escape read) := by
    simp [writeRow, writeField, List.intercalate, List.intersperse]
  have htab : ∀ s, '\t' ∉ escape s := fun s h => (mem_escape h).2.2 rfl
  have hcolumn : queryColumn resp = .ok [escape cursor ++ '\t' :: (escape upper ++ '\t' :: escape read)] := by
    unfold queryColumn queryTsv
    rw [hstatus]
    show Except.ok ((lines resp.text).filter (· ≠ [])) = _
    rw [htext, lines_writeRows, List.map_singleton, hline, List.filter_cons, if_pos (by simp), List.filter_nil]
  rw [hcolumn]
  show some (markerOfLine (escape cursor ++ '\t' :: (escape upper ++ '\t' :: escape read))) = _
  unfold markerOfLine
  rw [splitOnce_append (htab cursor), Option.getD_some]
  dsimp only
  rw [splitOnce_append (htab upper), Option.getD_some]
  simp only [escape_eq_nil]

private theorem ofList_escape_iff (s : String) : String.ofList (escape s.toList) = s ↔ Plain s.toList := by
  rw [← escape_eq_self]
  constructor
  · intro h
    have := congrArg String.toList h
    rwa [String.toList_ofList] at this
  · intro h
    rw [h, String.ofList_toList]

theorem queryColumn_iff (charset : Bool) (cursor upper read : String) :
    (queryColumn (answer charset [[some cursor.toList, some upper.toList, some read.toList]])).toOption.map
        (fun lines => lines.head?.bind markerOfLine) =
      some (if cursor = "" then none else some (SavedMarker.mk cursor upper read)) ↔
    cursor = "" ∨ Plain cursor.toList ∧ Unmarked charset cursor.toList ∧ Plain upper.toList ∧ Plain read.toList := by
  by_cases hmark : Unmarked charset cursor.toList
  · rw [queryColumn_marker rfl (text_unmarked hmark (by simp)), Option.some.injEq]
    by_cases hcursor : cursor = ""
    · subst hcursor
      simp
    · rw [if_neg (by simpa using hcursor), if_neg hcursor, Option.some.injEq, SavedMarker.mk.injEq,
        ofList_escape_iff, ofList_escape_iff, ofList_escape_iff, or_iff_right hcursor]
      exact and_congr_right fun _ => (and_iff_right hmark).symm
  · obtain ⟨rfl, s, hs⟩ := eq_marked hmark
    have hcursor : cursor ≠ "" := by
      rintro rfl
      cases hs
    refine iff_of_false (fun h => ?_) fun h => hmark (h.resolve_left hcursor).2.1
    rw [hs, queryColumn_marker rfl text_marked, Option.some.injEq, if_neg hcursor] at h
    split_ifs at h with hempty
    -- the text behind the mark would be the cursor
    have hfield := (SavedMarker.mk.inj (Option.some.inj h)).1
    have hread := congrArg String.toList hfield
    rw [String.toList_ofList, hs] at hread
    exact escape_ne_marked s hread

/-! ### The store -/

/-- After any writes, a key reads what its last write saved, exactly when ClickHouse's text gives its strings back. -/
theorem state_store_iff (e : StateEngine) (charset : Bool) {writes : List (StateWrite × Nat)}
    (hts : writes.Pairwise fun a b => a.2 < b.2) (key dest : String) :
    ∃ rows, persistAll e writes = some rows ∧
      ((readLastWatermark e charset rows key dest =
            some ((lastWrite (writes.map Prod.fst) key dest).bind StateWrite.savedWatermark) ∧
          readChunkState e charset rows key dest =
            some ((lastWrite (writes.map Prod.fst) key dest).bind StateWrite.savedMarker)) ↔
        (e = .clickHouse → ∀ w, lastWrite (writes.map Prod.fst) key dest = some w → w.Unaltered charset)) := by
  refine ⟨_, persistAll_eq e writes, ?_⟩
  obtain ⟨ts, hselect⟩ := selectState_eq e hts key dest
  unfold readLastWatermark readChunkState
  rw [hselect, Option.bind_some, Option.bind_some]
  have hcommitted : ∀ committed : Option String,
      (some (committed.getD "")).filter (· ≠ "") = committed.filter (· ≠ "") := by
    intro committed
    cases committed <;> rfl
  cases lastWrite (writes.map Prod.fst) key dest with
  | none =>
    -- no row, so the answer is empty
    refine iff_of_true ?_ fun _ w hw => by cases hw
    cases e with
    | clickHouse => exact ⟨rfl, rfl⟩
    | bigQuery => exact ⟨rfl, rfl⟩
  | some w =>
    simp only [Option.map_some, Option.bind_some, Option.toList_some, List.map_cons, List.map_nil,
      Option.some.injEq, forall_eq']
    cases e with
    | clickHouse =>
      rw [forall_prop_of_true rfl]
      cases w with
      | watermark key dest value rows =>
        have hmarker := (queryColumn_iff charset "" "" "").mpr (.inl rfl)
        exact (and_iff_left hmarker).trans (queryScalar_iff charset value)
      | chunkCursor key dest committed cursor upper read rows =>
        have hwatermark := queryScalar_iff charset (committed.getD "")
        rw [hcommitted] at hwatermark
        exact and_congr hwatermark (queryColumn_iff charset cursor upper read)
    | bigQuery =>
      simp only [reduceCtorEq, false_imp_iff, iff_true]
      cases w with
      | watermark key dest value rows => exact ⟨rfl, rfl⟩
      | chunkCursor key dest committed cursor upper read rows =>
        refine ⟨congrArg some (hcommitted committed), congrArg some ?_⟩
        show ((some cursor).filter (· ≠ "")).map (fun c => SavedMarker.mk c upper read) =
          if cursor = "" then none else some (SavedMarker.mk cursor upper read)
        by_cases hcursor : cursor = "" <;> simp [hcursor, Option.filter_some]

/-- Two keys written in turn. -/
def twoKeys : List (StateWrite × Nat) :=
  [(.watermark "orders" "dest" "2026-01-01 00:00:00" 5, 1), (.watermark "it's \\" "dest" "7" 5, 2),
    (.chunkCursor "orders" "dest" (some "2026-01-01 00:00:00") "42" "2026-02-01" "00ff" 9, 3)]

theorem state_store_iff_two_keys :
    ∃ rows, persistAll .clickHouse twoKeys = some rows ∧
      readLastWatermark .clickHouse true rows "orders" "dest" = some (some "2026-01-01 00:00:00") ∧
      readChunkState .clickHouse true rows "orders" "dest" = some (some ⟨"42", "2026-02-01", "00ff"⟩) := by
  obtain ⟨rows, hrows, hiff⟩ := state_store_iff .clickHouse true
    (by decide : twoKeys.Pairwise fun a b => a.2 < b.2) "orders" "dest"
  have hlast : lastWrite (twoKeys.map Prod.fst) "orders" "dest" =
      some (.chunkCursor "orders" "dest" (some "2026-01-01 00:00:00") "42" "2026-02-01" "00ff" 9) := by
    decide +kernel
  rw [hlast] at hiff
  have hread := hiff.mpr fun _ w hw => by
    obtain rfl := Option.some.inj hw
    exact ⟨⟨by decide +kernel, by decide +kernel, fun _ => by decide +kernel⟩,
      .inr ⟨by decide +kernel, fun _ => by decide +kernel, by decide +kernel, by decide +kernel⟩⟩
  exact ⟨rows, hrows, hread.1, hread.2⟩

def quoteSaved : List (StateWrite × Nat) := [(.watermark "orders" "dest" "O'Brien" 5, 1)]

/-- A quote comes back with ClickHouse's backslash before it. -/
theorem state_read_alters_quote :
    ∃ rows, persistAll .clickHouse quoteSaved = some rows ∧
      readLastWatermark .clickHouse false rows "orders" "dest" = some (some "O\\'Brien") ∧
      (lastWrite (quoteSaved.map Prod.fst) "orders" "dest").bind StateWrite.savedWatermark = some "O'Brien" := by
  refine ⟨_, persistAll_eq _ _, ?_⟩
  decide +kernel

end Quickhouse
