import Quickhouse.Config
import Quickhouse.Lib.Runs
import Quickhouse.Sink.StateStore
import Quickhouse.Warnings

/-!
# Saved cursors and the table they are about

A cursor and a resume marker say how far the rows of one destination table go.  The table may be dropped between runs, and
the next run creates it again.  The model counts the tables there have been under the name, and keeps with everything that
is saved the table it was saved for.  A run that creates the table starts past nothing, and what it leaves saved under its
key is about the table it created (`starts_past_this_table`).  What others left saved stays, and only they start past it
(`no_cursor_outlives_its_table`).
-/

namespace Quickhouse.TableCursors

open Runs

/-! ### What a run starts from -/

/-- Something saved, and which of the tables it is about. -/
structure About (α : Type) where
  value : α
  table : Nat
  deriving DecidableEq, Repr

/-- A state row: the tables that its cursor and its marker are about. -/
structure Entry where
  write : StateWrite
  cursorTable : Nat
  markerTable : Nat
  deriving DecidableEq, Repr

def Entry.cursor (en : Entry) : Option (About String) := en.write.savedWatermark.map fun c => ⟨c, en.cursorTable⟩

def Entry.marker (en : Entry) : Option (About SavedMarker) := en.write.savedMarker.map fun m => ⟨m, en.markerTable⟩

/-- The row that a read of the state finds. -/
def lastEntry (saved : List Entry) (key dest : String) : Option Entry :=
  (saved.filter fun en => decide (en.write.key = (key, dest))).getLast?

/-- What is saved under a key for one destination. -/
def cursorLeft (saved : List Entry) (key dest : String) : Option (About String) := (lastEntry saved key dest).bind Entry.cursor

def markerLeft (saved : List Entry) (key dest : String) : Option (About SavedMarker) :=
  (lastEntry saved key dest).bind Entry.marker

structure SavedState where
  committed : Option (About String) := none
  marker : Option (About SavedMarker) := none
  /-- The run creates the destination, so neither counts. -/
  discarded : Bool := false
  deriving DecidableEq, Repr

def recreatedDestinationMessage (cfg : TransferConfig) (committed : Option String) (marker : Option SavedMarker) : String :=
  let keyset := cfg.keysetColumn.getD ""
  let stopped := fun m : SavedMarker =>
    "the resume marker of an unfinished chunk_rows read, stopped past " ++ keyset ++ " " ++ m.cursor
  let held := match committed, marker with
    | some c, some m => "the cursor " ++ c ++ " and " ++ stopped m
    | some c, none => "the cursor " ++ c
    | none, some m => stopped m
    | none, none => "nothing"
  let start := match cfg.seedWatermark with
    | .none => "the start"
    | .value v => "seed_watermark, " ++ v
    | .currentMax => "the source's current MAX (skip_to_max=True)"
  let cleared := if cfg.advanceWatermark then "and clears it"
    else "but advance_watermark=False leaves it saved, so a run after this one starts past it again"
  let instead := (committed.map fun c => " To start past it instead, pass seed_watermark='" ++ c ++ "'.").getD ""
  "destination '" ++ cfg.destTable ++ "' does not exist, so this run creates it, but state_key '" ++
    cfg.effectiveStateKey ++ "' still holds " ++ held ++ " from the table it replaces. Starting past it would fill the " ++
    "new table with only the rows after it, so this run reads from " ++ start ++ ", as a first run does, " ++ cleared ++
    "." ++ instead

/-- The state of the run's key, unless the run is about to create the destination. -/
def readSavedState (saved : List Entry) (destExists : Bool) (cfg : TransferConfig) :
    SavedState × List TransferWarning :=
  let row := lastEntry saved cfg.effectiveStateKey cfg.destTable
  let committed := row.bind Entry.cursor
  let marker := if cfg.chunkRows.isSome then row.bind Entry.marker else none
  if (committed.isNone && marker.isNone) || !cfg.createIfMissing || destExists then
    ({ committed, marker, discarded := false }, [])
  else
    ({ discarded := true }, [{
      kind := .recreatedDestination
      sample := (committed.map About.value).or (marker.map fun m => m.value.cursor)
      message := recreatedDestinationMessage cfg (committed.map About.value) (marker.map About.value) }])

/-- The marker, when the run's own read wrote it, or one that cannot be told. -/
def resumableMarker (marker : Option (About SavedMarker)) (cfg : TransferConfig) (chunkReadId : String)
    (committed : Option (About String)) : Option (About SavedMarker) × List TransferWarning :=
  match marker with
  | none => (none, [])
  | some m =>
    if m.value.read = "" ∨ m.value.read = chunkReadId then (some m, [])
    else
      let start := match committed with
        | some c => "the saved cursor, " ++ c.value
        | none => "the start"
      let unread := if cfg.advanceWatermark then "" else
        " With advance_watermark=False nothing else reads the rest of that query's range: run it again to read it, " ++
          "under a state_key of its own so no other read replaces its marker."
      (none, [{
        kind := .abandonedResumeMarker
        sample := some m.value.cursor
        message := "state_key '" ++ cfg.effectiveStateKey ++ "' into '" ++ cfg.destTable ++ "' holds the resume marker of " ++
          "an unfinished chunk_rows read of a different query, stopped past " ++ cfg.keysetColumn.getD "" ++ " " ++
          m.value.cursor ++ ". This run doesn't resume it, and reads from " ++ start ++ " instead." ++ unread }])

/-! ### The runs of one table -/

inductive Phase where
  /-- The saved state is read, and no table is touched. -/
  | reading
  /-- The destination is there. -/
  | writing
  deriving DecidableEq, Repr

structure Run where
  cfg : TransferConfig
  chunkReadId : String
  saved : SavedState
  /-- The marker that the run goes on from. -/
  resume : Option (About SavedMarker)
  warnings : List TransferWarning
  cleared : Bool := false
  phase : Phase := .reading
  createdDest : Bool := false

/-- The run that created the table. -/
structure Creator where
  key : String
  keepsCursor : Bool
  advance : Bool
  /-- It has looked at the marker, or cleared it. -/
  sawMarker : Bool
  deriving DecidableEq, Repr

structure World where
  dest : String
  destExists : Bool
  /-- How many tables there have been. -/
  tables : Nat
  saved : List Entry
  run : Option Run := none
  /-- `none` for a table that was there before the history starts. -/
  creator : Option Creator := none

inductive Event where
  | start (cfg : TransferConfig) (chunkReadId : String)
  /-- The state that does not count is cleared. -/
  | clear
  | prepareTarget
  /-- A chunk is in the destination. -/
  | saveMarker (cursor upper : String) (rows : Nat)
  | finish (newWatermark : Option String) (rows : Nat)
  | fail
  | drop

def begin (w : World) (cfg : TransferConfig) (chunkReadId : String) : Run :=
  if cfg.mode.keepsCursor then
    let read := readSavedState w.saved w.destExists cfg
    let resume := resumableMarker read.1.marker cfg chunkReadId read.1.committed
    { cfg, chunkReadId, saved := read.1, resume := resume.1, warnings := read.2 ++ resume.2 }
  else { cfg, chunkReadId, saved := {}, resume := none, warnings := [] }

namespace Run

/-- `clear_discarded_state`: an empty cursor, which clears the marker too. -/
def clearDiscardedState (r : Run) (tables : Nat) : List Entry :=
  if r.cfg.advanceWatermark then [⟨.watermark r.cfg.effectiveStateKey r.cfg.destTable "" 0, tables, tables⟩] else []

def markerEntry (r : Run) (tables : Nat) (cursor upper : String) (rows : Nat) : Entry where
  write := .chunkCursor r.cfg.effectiveStateKey r.cfg.destTable (r.saved.committed.map About.value) cursor upper
    r.chunkReadId rows
  cursorTable := (r.saved.committed.map About.table).getD tables
  markerTable := tables

/-- The new cursor, and for chunks that leave none the committed one again. -/
def finalEntries (r : Run) (tables : Nat) (newWatermark : Option String) (rows : Nat) : List Entry :=
  let key := r.cfg.effectiveStateKey
  let advanced := match newWatermark with
    | some w => if r.cfg.advanceWatermark then [(⟨.watermark key r.cfg.destTable w rows, tables, tables⟩ : Entry)] else []
    | none => []
  let kept := if r.cfg.chunkRows.isSome && (newWatermark.isNone || !r.cfg.advanceWatermark) then
      [(⟨.watermark key r.cfg.destTable ((r.saved.committed.map About.value).getD "") rows,
        (r.saved.committed.map About.table).getD tables, tables⟩ : Entry)]
    else []
  if r.cfg.mode.keepsCursor then advanced ++ kept else []

end Run

def step (w : World) (event : Event) : Option World :=
  match event, w.run with
  | .start cfg chunkReadId, none =>
    if cfg.destTable = w.dest then some { w with run := some (begin w cfg chunkReadId) } else none
  | .clear, some r =>
    if r.phase = .reading ∧ r.saved.discarded = true ∧ r.cleared = false then
      some { w with saved := w.saved ++ r.clearDiscardedState w.tables, run := some { r with cleared := true } }
    else none
  | .prepareTarget, some r =>
    if r.phase = .reading ∧ (r.saved.discarded = true → r.cleared = true) then
      if w.destExists then some { w with run := some { r with phase := .writing } }
      else if r.cfg.createIfMissing then
        some { w with
          destExists := true
          tables := w.tables + 1
          creator := some ⟨r.cfg.effectiveStateKey, r.cfg.mode.keepsCursor, r.cfg.advanceWatermark,
            r.cfg.chunkRows.isSome || r.saved.discarded⟩
          run := some { r with phase := .writing, createdDest := true } }
      else some { w with run := none }
    else none
  | .saveMarker cursor upper rows, some r =>
    if r.phase = .writing ∧ r.cfg.mode.keepsCursor = true ∧ r.cfg.chunkRows.isSome = true then
      some { w with saved := w.saved ++ [r.markerEntry w.tables cursor upper rows] }
    else none
  | .finish newWatermark rows, some r =>
    if r.phase = .writing then
      some { w with saved := w.saved ++ r.finalEntries w.tables newWatermark rows, run := none }
    else none
  | .fail, some _ => some { w with run := none }
  | .drop, none => some { w with destExists := false, creator := none }
  | _, _ => none

/-! ### What is saved is about this table -/

/-- The creator keeps a cursor and moves it on. -/
def Creator.Keeps (c : Creator) : Prop := c.keepsCursor = true ∧ c.advance = true

/-- Whatever a run may start past is about the table that is there. -/
def StartsHere (tables : Nat) (c : Creator) (cursor : Option (About String)) (marker : Option (About SavedMarker)) : Prop :=
  (∀ a ∈ cursor, a.table = tables) ∧ (c.sawMarker = true → ∀ a ∈ marker, a.table = tables)

/-- What a run may start past. -/
inductive Position where
  | cursor
  | marker
  deriving DecidableEq, Repr

/-- The table that it is about. -/
def Entry.tableOf (en : Entry) : Position → Option Nat
  | .cursor => en.cursor.map About.table
  | .marker => en.marker.map About.table

def SavedState.tableOf (s : SavedState) : Position → Option Nat
  | .cursor => s.committed.map About.table
  | .marker => s.marker.map About.table

/-- The run has set aside, or not found, what was saved under its key. -/
def NothingLeft (saved : List Entry) (r : Run) : Prop :=
  cursorLeft saved r.cfg.effectiveStateKey r.cfg.destTable = none ∧
    ((r.cfg.chunkRows.isSome || r.saved.discarded) = true →
      markerLeft saved r.cfg.effectiveStateKey r.cfg.destTable = none)

/-- What holds of the run under way. -/
structure RunInv (w : World) (r : Run) : Prop where
  dest : r.cfg.destTable = w.dest
  there : r.phase = .writing → w.destExists = true
  resume : r.resume = none ∨ r.resume = r.saved.marker
  created : r.createdDest = true → r.saved.committed = none ∧ r.saved.marker = none
  /-- It is about to create the destination. -/
  creating : r.phase = .reading → w.destExists = false → r.cfg.createIfMissing = true →
    (r.saved.committed = none ∧ r.saved.marker = none) ∧
      (r.cfg.mode.keepsCursor = true → r.cfg.advanceWatermark = true → (r.saved.discarded = true → r.cleared = true) →
        NothingLeft w.saved r)

/-- What is saved under the key, and what a run of it has started from, is about the table that is there. -/
structure KeyHere (w : World) (key : String) (p : Position) : Prop where
  saved : ∀ n ∈ (lastEntry w.saved key w.dest).bind (·.tableOf p), n = w.tables
  run : ∀ r, w.run = some r → r.cfg.effectiveStateKey = key → ∀ n ∈ r.saved.tableOf p, n = w.tables

def Creator.Here (c : Creator) (w : World) : Prop :=
  KeyHere w c.key .cursor ∧ (c.sawMarker = true → KeyHere w c.key .marker)

structure Inv (w : World) : Prop where
  exists_ : w.creator ≠ none → w.destExists = true
  here : ∀ c, w.creator = some c → c.Keeps → c.Here w
  run : ∀ r, w.run = some r → RunInv w r

/-! ### Rows that are added -/

theorem lastEntry_append (saved added : List Entry) (key dest : String) :
    lastEntry (saved ++ added) key dest = (lastEntry added key dest).or (lastEntry saved key dest) := by
  unfold lastEntry
  rw [List.filter_append, List.getLast?_append]

theorem lastEntry_key {saved : List Entry} {key dest : String} {en : Entry} (h : lastEntry saved key dest = some en) :
    en ∈ saved ∧ en.write.key = (key, dest) := by
  obtain ⟨hmem, hkey⟩ := List.mem_filter.mp (List.mem_of_getLast? h)
  exact ⟨hmem, of_decide_eq_true hkey⟩

/-- A row that a run writes: its cursor is new, or the one that the run started from. -/
structure Run.Writes (r : Run) (tables : Nat) (en : Entry) : Prop where
  key : en.write.key = (r.cfg.effectiveStateKey, r.cfg.destTable)
  cursorTable : en.cursorTable = tables ∨ en.cursorTable = (r.saved.committed.map About.table).getD tables
  markerTable : en.markerTable = tables

theorem clearDiscardedState_writes {r : Run} {tables : Nat} {en : Entry} (hen : en ∈ r.clearDiscardedState tables) :
    r.Writes tables en := by
  unfold Run.clearDiscardedState at hen
  split_ifs at hen
  · rw [List.mem_singleton.mp hen]
    exact ⟨rfl, .inl rfl, rfl⟩
  · cases hen

theorem markerEntry_writes (r : Run) (tables : Nat) (cursor upper : String) (rows : Nat) :
    r.Writes tables (r.markerEntry tables cursor upper rows) := ⟨rfl, .inr rfl, rfl⟩

theorem finalEntries_writes {r : Run} {tables : Nat} {newWatermark : Option String} {rows : Nat} {en : Entry}
    (hen : en ∈ r.finalEntries tables newWatermark rows) : r.Writes tables en := by
  unfold Run.finalEntries at hen
  dsimp only at hen
  by_cases hmode : r.cfg.mode.keepsCursor = true
  · rw [if_pos hmode, List.mem_append] at hen
    rcases hen with hen | hen
    · cases newWatermark with
      | none => cases hen
      | some w =>
        dsimp only at hen
        split_ifs at hen
        · rw [List.mem_singleton.mp hen]
          exact ⟨rfl, .inl rfl, rfl⟩
        · cases hen
    · split_ifs at hen
      · rw [List.mem_singleton.mp hen]
        exact ⟨rfl, .inr rfl, rfl⟩
      · cases hen
  · rw [if_neg hmode] at hen
    cases hen

/-- Rows of a run that started from this table are about it. -/
theorem Run.Writes.here {r : Run} {tables : Nat} {en : Entry} (h : r.Writes tables en) {p : Position}
    (hstart : ∀ n ∈ r.saved.tableOf p, n = tables) : ∀ n ∈ en.tableOf p, n = tables := by
  intro n hn
  cases p with
  | cursor =>
    obtain ⟨a, ha, rfl⟩ := Option.map_eq_some_iff.mp hn
    obtain ⟨v, -, rfl⟩ := Option.map_eq_some_iff.mp ha
    rcases h.cursorTable with htable | htable
    · exact htable
    · refine htable.trans ?_
      cases hcommitted : r.saved.committed.map About.table with
      | none => rfl
      | some n => exact hstart n hcommitted
  | marker =>
    obtain ⟨a, ha, rfl⟩ := Option.map_eq_some_iff.mp hn
    obtain ⟨v, -, rfl⟩ := Option.map_eq_some_iff.mp ha
    exact h.markerTable

/-! ### Each event -/

/-- The saved state is taken as it is found, or set aside whole. -/
theorem readSavedState_cases (saved : List Entry) (destExists : Bool) (cfg : TransferConfig) {s : SavedState}
    (hs : (readSavedState saved destExists cfg).1 = s) :
    (s = { discarded := true } ∧ destExists = false) ∨
      (s.committed = (lastEntry saved cfg.effectiveStateKey cfg.destTable).bind Entry.cursor ∧
        s.marker = (if cfg.chunkRows.isSome then (lastEntry saved cfg.effectiveStateKey cfg.destTable).bind Entry.marker
          else none) ∧
        s.discarded = false ∧ (destExists = false → cfg.createIfMissing = true → s.committed = none ∧ s.marker = none)) := by
  unfold readSavedState at hs
  dsimp only at hs
  by_cases hkept : (((lastEntry saved cfg.effectiveStateKey cfg.destTable).bind Entry.cursor).isNone &&
      (if cfg.chunkRows.isSome then (lastEntry saved cfg.effectiveStateKey cfg.destTable).bind Entry.marker
        else none).isNone || !cfg.createIfMissing || destExists) = true
  · rw [if_pos hkept] at hs
    subst hs
    refine .inr ⟨rfl, rfl, rfl, fun hmissing hcreate => ?_⟩
    rw [hmissing, hcreate] at hkept
    simpa using hkept
  · rw [if_neg hkept] at hs
    subst hs
    refine .inl ⟨rfl, ?_⟩
    cases hdest : destExists with
    | false => rfl
    | true =>
      rw [hdest, Bool.or_true] at hkept
      exact absurd rfl hkept

theorem resumableMarker_sub (marker : Option (About SavedMarker)) (cfg : TransferConfig) (chunkReadId : String)
    (committed : Option (About String)) : (resumableMarker marker cfg chunkReadId committed).1 = none ∨
      (resumableMarker marker cfg chunkReadId committed).1 = marker := by
  cases marker with
  | none => exact .inl rfl
  | some m =>
    unfold resumableMarker
    dsimp only
    split_ifs
    · exact .inr rfl
    · exact .inl rfl
    · exact .inl rfl

theorem begin_inv (w : World) {cfg : TransferConfig} (hdest : cfg.destTable = w.dest) (chunkReadId : String) :
    RunInv w (begin w cfg chunkReadId) := by
  unfold begin
  by_cases hkeeps : cfg.mode.keepsCursor = true
  · rw [if_pos hkeeps]
    generalize hread : readSavedState w.saved w.destExists cfg = read
    obtain ⟨s, warnings⟩ := read
    have hcases := readSavedState_cases w.saved w.destExists cfg (congrArg Prod.fst hread)
    dsimp only at hcases ⊢
    refine ⟨hdest, nofun, resumableMarker_sub _ _ _ _, nofun, fun _ hmissing hcreate => ?_⟩
    rcases hcases with ⟨hs, -⟩ | ⟨hcommitted, hmarker, hdiscarded, hnone⟩
    · subst hs
      exact ⟨⟨rfl, rfl⟩, fun _ _ hcleared => absurd (hcleared rfl) Bool.false_ne_true⟩
    · obtain ⟨hc, hm⟩ := hnone hmissing hcreate
      refine ⟨⟨hc, hm⟩, fun _ _ _ => ⟨hcommitted.symm.trans hc, fun hsaw => ?_⟩⟩
      have hchunked : cfg.chunkRows.isSome = true := by
        dsimp only at hsaw
        rw [hdiscarded, Bool.or_false] at hsaw
        exact hsaw
      rw [if_pos hchunked] at hmarker
      exact hmarker.symm.trans hm
  · rw [if_neg hkeeps]
    exact ⟨hdest, nofun, .inl rfl, nofun, fun _ _ _ => ⟨⟨rfl, rfl⟩, fun h => absurd h hkeeps⟩⟩

/-- A run starts from what is saved under its key, or from nothing. -/
theorem begin_tableOf {w : World} {cfg : TransferConfig} (hdest : cfg.destTable = w.dest) (chunkReadId : String)
    {p : Position} {n : Nat} (hn : n ∈ (begin w cfg chunkReadId).saved.tableOf p) :
    n ∈ (lastEntry w.saved cfg.effectiveStateKey w.dest).bind (·.tableOf p) := by
  unfold begin at hn
  by_cases hkeeps : cfg.mode.keepsCursor = true
  · rw [if_pos hkeeps] at hn
    dsimp only at hn
    rcases readSavedState_cases w.saved w.destExists cfg rfl with ⟨hs, -⟩ | ⟨hcommitted, hmarker, -, -⟩
    · rw [hs] at hn
      cases p <;> cases hn
    · rw [hdest] at hcommitted hmarker
      cases hrow : lastEntry w.saved cfg.effectiveStateKey w.dest with
      | none =>
        rw [hrow] at hcommitted hmarker
        cases p with
        | cursor =>
          simp only [SavedState.tableOf, hcommitted] at hn
          cases hn
        | marker =>
          simp only [SavedState.tableOf, hmarker, Option.bind_none, ite_self] at hn
          cases hn
      | some en =>
        rw [hrow, Option.bind_some] at hcommitted hmarker
        rw [Option.bind_some]
        cases p with
        | cursor =>
          simp only [SavedState.tableOf, hcommitted] at hn
          exact hn
        | marker =>
          simp only [SavedState.tableOf, hmarker] at hn
          split_ifs at hn
          · exact hn
          · cases hn
  · rw [if_neg hkeeps] at hn
    cases p <;> cases hn

theorem begin_cfg (w : World) (cfg : TransferConfig) (chunkReadId : String) : (begin w cfg chunkReadId).cfg = cfg := by
  unfold begin
  split_ifs
  · rfl
  · rfl

/-- The run under way only adds rows of its key. -/
theorem KeyHere.append {w : World} {key : String} {p : Position} (h : KeyHere w key p) {r : Run} (hr : w.run = some r)
    {added : List Entry} (hadded : ∀ en ∈ added, r.Writes w.tables en) {run : Option Run}
    (hrun : ∀ r', run = some r' → r'.cfg = r.cfg ∧ r'.saved = r.saved) :
    KeyHere { w with saved := w.saved ++ added, run } key p := by
  refine ⟨fun n hn => ?_, fun r' hr' hsame => ?_⟩
  · rw [lastEntry_append] at hn
    cases hlast : lastEntry added key w.dest with
    | none =>
      rw [hlast, Option.none_or] at hn
      exact h.saved n hn
    | some en =>
      rw [hlast, Option.some_or, Option.bind_some] at hn
      obtain ⟨hmem, hkey⟩ := lastEntry_key hlast
      have hwrites := hadded en hmem
      exact hwrites.here (h.run r hr (congrArg Prod.fst (hwrites.key.symm.trans hkey))) n hn
  · obtain ⟨hcfg, hsaved⟩ := hrun r' hr'
    rw [hcfg] at hsame
    rw [hsaved]
    exact h.run r hr hsame

/-- Nothing is saved. -/
theorem KeyHere.keep {w : World} {key : String} {p : Position} (h : KeyHere w key p) {run : Option Run}
    (hrun : ∀ r', run = some r' → ∃ r, w.run = some r ∧ r'.cfg = r.cfg ∧ r'.saved = r.saved) (destExists : Bool)
    (creator : Option Creator) : KeyHere { w with destExists, creator, run } key p := by
  refine ⟨h.saved, fun r' hr' hsame => ?_⟩
  obtain ⟨r, hr, hcfg, hsaved⟩ := hrun r' hr'
  rw [hcfg] at hsame
  rw [hsaved]
  exact h.run r hr hsame

/-- No event but the creation of a table changes what a key is about. -/
theorem keyHere_step {w w' : World} {event : Event} {key : String} {p : Position} (h : KeyHere w key p)
    (hstep : step w event = some w') (htables : w'.tables = w.tables) : KeyHere w' key p := by
  unfold step at hstep
  split at hstep
  case h_1 cfg chunkReadId hrun =>
    split_ifs at hstep with hdest
    obtain rfl := Option.some.inj hstep
    refine ⟨h.saved, fun r hr hsame => ?_⟩
    obtain rfl := Option.some.inj hr
    rw [begin_cfg] at hsame
    exact fun n hn => h.saved n (hsame ▸ begin_tableOf hdest chunkReadId hn)
  case h_2 r hr =>
    split_ifs at hstep with hclear
    obtain rfl := Option.some.inj hstep
    refine h.append hr (fun en hen => clearDiscardedState_writes hen) fun r' hr' => ?_
    obtain rfl := Option.some.inj hr'
    exact ⟨rfl, rfl⟩
  case h_3 r hr =>
    split_ifs at hstep with hready hthere hcreate
    · obtain rfl := Option.some.inj hstep
      refine h.keep (fun r' hr' => ?_) w.destExists w.creator
      obtain rfl := Option.some.inj hr'
      exact ⟨r, hr, rfl, rfl⟩
    · -- a table is created
      obtain rfl := Option.some.inj hstep
      exact absurd htables (Nat.succ_ne_self w.tables)
    · obtain rfl := Option.some.inj hstep
      exact h.keep (fun r' hr' => by cases hr') w.destExists w.creator
  case h_4 cursor upper rows r hr =>
    split_ifs at hstep with hwriting
    obtain rfl := Option.some.inj hstep
    refine h.append hr (fun en hen => ?_) fun r' hr' => ?_
    · rw [List.mem_singleton.mp hen]
      exact markerEntry_writes r w.tables cursor upper rows
    · obtain rfl := Option.some.inj (hr.symm.trans hr')
      exact ⟨rfl, rfl⟩
  case h_5 newWatermark rows r hr =>
    split_ifs at hstep with hwriting
    obtain rfl := Option.some.inj hstep
    exact h.append hr (fun en hen => finalEntries_writes hen) fun r' hr' => by cases hr'
  case h_6 r hr =>
    obtain rfl := Option.some.inj hstep
    exact h.keep (fun r' hr' => by cases hr') w.destExists w.creator
  case h_7 hrun =>
    obtain rfl := Option.some.inj hstep
    refine h.keep (fun r' hr' => ?_) false none
    rw [hrun] at hr'
    cases hr'
  case h_8 => cases hstep

theorem without_run {w : World} (hexists : w.creator ≠ none → w.destExists = true)
    (hhere : ∀ c, w.creator = some c → c.Keeps → c.Here { w with run := none }) : Inv { w with run := none } := by
  refine ⟨hexists, hhere, fun r hr => ?_⟩
  cases hr

/-- A table is created by a run that starts past nothing, and nothing is left under the key. -/
theorem KeyHere.create {w : World} {r : Run} (hnone : r.saved.committed = none ∧ r.saved.marker = none) {key : String}
    {p : Position} (hleft : (lastEntry w.saved key w.dest).bind (·.tableOf p) = none) (creator : Option Creator) :
    KeyHere { w with destExists := true, tables := w.tables + 1, creator, run := some r } key p := by
  refine ⟨fun n hn => ?_, fun r' hr' _ n hn => ?_⟩
  · dsimp only at hn
    rw [hleft] at hn
    cases hn
  · obtain rfl := Option.some.inj hr'
    cases p with
    | cursor =>
      simp only [SavedState.tableOf, hnone.1] at hn
      cases hn
    | marker =>
      simp only [SavedState.tableOf, hnone.2] at hn
      cases hn

theorem tableOf_cursor_eq_none {saved : List Entry} {key dest : String} (h : cursorLeft saved key dest = none) :
    (lastEntry saved key dest).bind (·.tableOf .cursor) = none := by
  unfold cursorLeft at h
  cases hrow : lastEntry saved key dest with
  | none => rfl
  | some en =>
    rw [hrow, Option.bind_some] at h
    rw [Option.bind_some, Entry.tableOf, h]
    rfl

theorem tableOf_marker_eq_none {saved : List Entry} {key dest : String} (h : markerLeft saved key dest = none) :
    (lastEntry saved key dest).bind (·.tableOf .marker) = none := by
  unfold markerLeft at h
  cases hrow : lastEntry saved key dest with
  | none => rfl
  | some en =>
    rw [hrow, Option.bind_some] at h
    rw [Option.bind_some, Entry.tableOf, h]
    rfl

/-- What is left is cleared, before the table is created. -/
theorem RunInv.clear {w : World} {r : Run} (hrun : RunInv w r) :
    RunInv { w with saved := w.saved ++ r.clearDiscardedState w.tables, run := some { r with cleared := true } }
      { r with cleared := true } := by
  refine ⟨hrun.dest, hrun.there, hrun.resume, hrun.created, fun hphase hmissing hcreate => ?_⟩
  refine ⟨(hrun.creating hphase hmissing hcreate).1, fun _ hadvance _ => ?_⟩
  have hlast : lastEntry (w.saved ++ r.clearDiscardedState w.tables) r.cfg.effectiveStateKey r.cfg.destTable =
      some ⟨.watermark r.cfg.effectiveStateKey r.cfg.destTable "" 0, w.tables, w.tables⟩ := by
    rw [lastEntry_append]
    unfold Run.clearDiscardedState
    rw [if_pos hadvance]
    simp [lastEntry, StateWrite.key]
  refine ⟨?_, fun _ => ?_⟩
  · show (lastEntry (w.saved ++ _) _ _).bind Entry.cursor = none
    rw [hlast]
    rfl
  · show (lastEntry (w.saved ++ _) _ _).bind Entry.marker = none
    rw [hlast]
    rfl

theorem step_inv {w w' : World} {event : Event} (hw : Inv w) (h : step w event = some w') : Inv w' := by
  have hhere : w'.tables = w.tables → ∀ c, w.creator = some c → c.Keeps → c.Here w' := fun htables c hc hck =>
    ⟨keyHere_step (hw.here c hc hck).1 h htables, fun hsaw => keyHere_step ((hw.here c hc hck).2 hsaw) h htables⟩
  unfold step at h
  split at h
  case h_1 cfg chunkReadId hrun =>
    -- a run begins
    split_ifs at h with hdest
    obtain rfl := Option.some.inj h
    refine ⟨hw.exists_, hhere rfl, ?_⟩
    rintro r hr
    obtain rfl := Option.some.inj hr
    obtain ⟨hrundest, hthere, hresume, hcreated, hcreating⟩ := begin_inv w hdest chunkReadId
    exact ⟨hrundest, hthere, hresume, hcreated, hcreating⟩
  case h_2 r hr =>
    split_ifs at h with hclear
    obtain rfl := Option.some.inj h
    refine ⟨hw.exists_, hhere rfl, fun r' hr' => ?_⟩
    obtain rfl := Option.some.inj hr'
    exact (hw.run r hr).clear
  case h_3 r hr =>
    have hrun := hw.run r hr
    split_ifs at h with hready hthere hcreate
    · obtain rfl := Option.some.inj h
      refine ⟨hw.exists_, hhere rfl, fun r' hr' => ?_⟩
      obtain rfl := Option.some.inj hr'
      exact ⟨hrun.dest, fun _ => hthere, hrun.resume, hrun.created, nofun⟩
    · -- a table is created
      obtain rfl := Option.some.inj h
      obtain ⟨hnone, hleft⟩ := hrun.creating hready.1 (Bool.eq_false_of_not_eq_true hthere) hcreate
      refine ⟨fun _ => rfl, fun c hc hck => ?_, fun r' hr' => ?_⟩
      · obtain rfl := Option.some.inj hc
        obtain ⟨hcursor, hmarker⟩ := hleft hck.1 hck.2 hready.2
        rw [hrun.dest] at hcursor hmarker
        exact ⟨@KeyHere.create w { r with phase := .writing, createdDest := true } hnone _ _
          (tableOf_cursor_eq_none hcursor) _, fun hsaw => @KeyHere.create w
            { r with phase := .writing, createdDest := true } hnone _ _ (tableOf_marker_eq_none (hmarker hsaw)) _⟩
      · obtain rfl := Option.some.inj hr'
        exact ⟨hrun.dest, fun _ => rfl, hrun.resume, fun _ => hnone, nofun⟩
    · obtain rfl := Option.some.inj h
      exact without_run hw.exists_ (hhere rfl)
  case h_4 cursor upper rows r hr =>
    split_ifs at h with hwriting
    obtain rfl := Option.some.inj h
    have hrun := hw.run r hr
    refine ⟨hw.exists_, hhere rfl, fun r' hr' => ?_⟩
    obtain rfl := Option.some.inj (hr.symm.trans hr')
    refine ⟨hrun.dest, hrun.there, hrun.resume, hrun.created, fun hreading => ?_⟩
    rw [hwriting.1] at hreading
    cases hreading
  case h_5 newWatermark rows r hr =>
    split_ifs at h with hwriting
    obtain rfl := Option.some.inj h
    exact @without_run { w with saved := w.saved ++ r.finalEntries w.tables newWatermark rows } hw.exists_ (hhere rfl)
  case h_6 r hr =>
    obtain rfl := Option.some.inj h
    exact without_run hw.exists_ (hhere rfl)
  case h_7 hrun =>
    -- the table and what was known of it are gone
    obtain rfl := Option.some.inj h
    exact ⟨fun hsome => absurd rfl hsome, nofun, fun r hr => by rw [hrun] at hr; cases hr⟩
  case h_8 => cases h

theorem inv_of_exec {w₀ w : World} (hrun : w₀.run = none) (hcreator : w₀.creator = none) {events : List Event}
    (h : exec step w₀ events = some w) : Inv w := by
  have hstart : Inv w₀ := by
    refine ⟨fun hsome => absurd hcreator hsome, fun c hc => ?_, fun r hr => ?_⟩
    · rw [hcreator] at hc
      cases hc
    · rw [hrun] at hr
      cases hr
  exact exec_invariant (fun _ _ _ hs hstep => step_inv hs hstep) hstart h

theorem RunInv.startsEmpty {w : World} {r : Run} (h : RunInv w r) (hcreated : r.createdDest = true) :
    r.saved.committed = none ∧ r.resume = none := by
  obtain ⟨hcommitted, hmarker⟩ := h.created hcreated
  refine ⟨hcommitted, ?_⟩
  rcases h.resume with hresume | hresume
  · exact hresume
  · exact hresume.trans hmarker

theorem RunInv.startsHere {w : World} {r : Run} (h : RunInv w r) (hr : w.run = some r) :
    (KeyHere w r.cfg.effectiveStateKey .cursor → ∀ a ∈ r.saved.committed, a.table = w.tables) ∧
      (KeyHere w r.cfg.effectiveStateKey .marker → ∀ a ∈ r.resume, a.table = w.tables) := by
  refine ⟨fun hkey a ha => hkey.run r hr rfl a.table (Option.mem_map_of_mem _ ha), fun hkey a ha => ?_⟩
  rcases h.resume with hresume | hresume
  · rw [hresume] at ha
    cases ha
  · rw [hresume] at ha
    exact hkey.run r hr rfl a.table (Option.mem_map_of_mem _ ha)

theorem step_tables_le {w w' : World} {event : Event} (h : step w event = some w') : w.tables ≤ w'.tables := by
  unfold step at h
  split at h
  case h_3 =>
    split_ifs at h
    · obtain rfl := Option.some.inj h
      exact le_refl _
    · obtain rfl := Option.some.inj h
      exact Nat.le_succ _
    · obtain rfl := Option.some.inj h
      exact le_refl _
  case h_6 | h_7 =>
    obtain rfl := Option.some.inj h
    exact le_refl _
  case h_8 => cases h
  all_goals
    split_ifs at h
    obtain rfl := Option.some.inj h
    exact le_refl _

/-- While the table lives. -/
theorem keyHere_exec {w w' : World} {key : String} {p : Position} (h : KeyHere w key p) {events : List Event}
    (hexec : exec step w events = some w') (htables : w'.tables = w.tables) : KeyHere w' key p := by
  have hend := @exec_invariant World Event step (fun v => w.tables ≤ v.tables ∧ (v.tables = w.tables → KeyHere v key p))
    (fun v event v' hv hstep => ?_) w w' events ⟨le_refl _, fun _ => h⟩ hexec
  · exact hend.2 htables
  · have hle := step_tables_le hstep
    refine ⟨hv.1.trans hle, fun hsame => ?_⟩
    have hv' : v.tables = w.tables := le_antisymm (hle.trans hsame.le) hv.1
    exact keyHere_step (hv.2 hv') hstep (hsame.trans hv'.symm)

/-- A run that creates the table starts past nothing; and while a table lives whose creator kept a cursor and moved it on, no
run under the creator's key starts past a cursor of an older table, nor past an older marker when the creator saw it. -/
theorem starts_past_this_table {w₀ w : World} (hrun : w₀.run = none) (hcreator : w₀.creator = none) {events : List Event}
    (h : exec step w₀ events = some w) {r : Run} (hr : w.run = some r) :
    (r.createdDest = true → r.saved.committed = none ∧ r.resume = none) ∧
      ∀ c, w.creator = some c → c.Keeps → r.cfg.effectiveStateKey = c.key →
        StartsHere w.tables c r.saved.committed r.resume := by
  have hend : Inv w := inv_of_exec hrun hcreator h
  refine ⟨(hend.run r hr).startsEmpty, fun c hc hck hkey => ?_⟩
  obtain ⟨hcursor, hmarker⟩ := hend.here c hc hck
  obtain ⟨hcommitted, hresume⟩ := (hend.run r hr).startsHere hr
  rw [hkey] at hcommitted hresume
  exact ⟨hcommitted hcursor, fun hsaw => hresume (hmarker hsaw)⟩

def ordersCursor : TransferConfig where
  sourceTable := some "orders"
  destTable := "orders"
  mode := .incremental
  watermark := some "updated_at"

/-- Dropped by hand, with the cursor of the dropped table saved. -/
def droppedOrders : World where
  dest := "orders"
  destExists := false
  tables := 1
  saved := [⟨.watermark "orders" "orders" "2024-05-01" 7, 1, 1⟩]

def recreate : List Event :=
  [.start ordersCursor "", .clear, .prepareTarget, .fail, .start ordersCursor "", .prepareTarget,
    .finish (some "2024-01-02") 3, .start ordersCursor ""]

theorem starts_past_the_new_orders : ∃ w r, exec step droppedOrders recreate = some w ∧ w.run = some r ∧
    ((r.createdDest = true → r.saved.committed = none ∧ r.resume = none) ∧
      ∀ c, w.creator = some c → c.Keeps → r.cfg.effectiveStateKey = c.key →
        StartsHere w.tables c r.saved.committed r.resume) ∧
    r.saved.committed = some ⟨"2024-01-02", 2⟩ := by
  have hrun : ((exec step droppedOrders recreate).bind World.run).isSome = true := by decide +kernel
  obtain ⟨r, hr⟩ := Option.isSome_iff_exists.mp hrun
  obtain ⟨w, hw, hr⟩ := Option.bind_eq_some_iff.mp hr
  refine ⟨w, r, hw, hr, starts_past_this_table rfl rfl hw hr, ?_⟩
  have hcursor : ((exec step droppedOrders recreate).bind World.run).bind (fun r => r.saved.committed) =
      some ⟨"2024-01-02", 2⟩ := by decide +kernel
  rw [hw, Option.bind_some, hr, Option.bind_some] at hcursor
  exact hcursor

/-- The run that creates a table, and what it leaves saved when it does. -/
theorem created_by {w w' : World} (hw : Inv w) (hmissing : w.destExists = false) (h : step w .prepareTarget = some w')
    (hthere : w'.destExists = true) :
    ∃ r, w.run = some r ∧ RunInv w r ∧
      (r.cfg.mode.keepsCursor = true → r.cfg.advanceWatermark = true → NothingLeft w.saved r) ∧
      ∀ key p, (lastEntry w.saved key w.dest).bind (·.tableOf p) = none → KeyHere w' key p := by
  unfold step at h
  cases hr : w.run with
  | none =>
    rw [hr] at h
    cases h
  | some r =>
    rw [hr] at h
    simp only [hmissing, Bool.false_eq_true, if_false] at h
    split_ifs at h with hready hcreate
    · obtain rfl := Option.some.inj h
      obtain ⟨hnone, hleft⟩ := (hw.run r hr).creating hready.1 hmissing hcreate
      exact ⟨r, rfl, hw.run r hr, fun hkeeps hadvance => hleft hkeeps hadvance hready.2, fun key p hnothing =>
        @KeyHere.create w { r with phase := .writing, createdDest := true } hnone key p hnothing _⟩
    · obtain rfl := Option.some.inj h
      cases hthere

/-- While a table lives, no run starts past a cursor or a marker that was saved before it was created, unless one was left
under the run's key when it was; and the run that creates it leaves none under its own, when it keeps a cursor and moves
it on, and has looked at the marker or cleared it. -/
theorem no_cursor_outlives_its_table {w₀ w₁ w₂ w : World} (hrun : w₀.run = none) (hcreator : w₀.creator = none)
    {past since : List Event} (hpast : exec step w₀ past = some w₁) (hmissing : w₁.destExists = false)
    (hcreate : step w₁ .prepareTarget = some w₂) (hthere : w₂.destExists = true)
    (hsince : exec step w₂ since = some w) (hlives : w.tables = w₂.tables) :
    (∀ r, w.run = some r →
      (r.createdDest = true → r.saved.committed = none ∧ r.resume = none) ∧
      (cursorLeft w₁.saved r.cfg.effectiveStateKey w₁.dest = none → ∀ a ∈ r.saved.committed, a.table = w.tables) ∧
      (markerLeft w₁.saved r.cfg.effectiveStateKey w₁.dest = none → ∀ a ∈ r.resume, a.table = w.tables)) ∧
    ∃ r, w₁.run = some r ∧ (r.cfg.mode.keepsCursor = true → r.cfg.advanceWatermark = true →
      cursorLeft w₁.saved r.cfg.effectiveStateKey w₁.dest = none ∧
      ((r.cfg.chunkRows.isSome || r.saved.discarded) = true →
        markerLeft w₁.saved r.cfg.effectiveStateKey w₁.dest = none)) := by
  have hbefore : Inv w₁ := inv_of_exec hrun hcreator hpast
  have hafter : Inv w := exec_invariant (fun _ _ _ hs hstep => step_inv hs hstep) (step_inv hbefore hcreate) hsince
  obtain ⟨r₁, hr₁, hrun₁, hleft, hhere⟩ := created_by hbefore hmissing hcreate hthere
  refine ⟨fun r hr => ?_, r₁, hr₁, fun hkeeps hadvance => ?_⟩
  · obtain ⟨hcommitted, hresume⟩ := (hafter.run r hr).startsHere hr
    refine ⟨(hafter.run r hr).startsEmpty, fun hcursor => hcommitted ?_, fun hmarker => hresume ?_⟩
    · exact keyHere_exec (hhere _ .cursor (tableOf_cursor_eq_none hcursor)) hsince hlives
    · exact keyHere_exec (hhere _ .marker (tableOf_marker_eq_none hmarker)) hsince hlives
  · rw [← hrun₁.dest]
    exact hleft hkeeps hadvance

/-- Another pipeline into the same table, under a key of its own. -/
def archiveCursor : TransferConfig where
  sourceTable := some "orders_archive"
  destTable := "orders"
  mode := .incremental
  watermark := some "updated_at"

/-- The dropped table is created again by the pipeline that had nothing saved: its own cursor is about the new one. -/
theorem archive_starts_past_the_new_orders : ∃ w₁ w₂ w r, exec step droppedOrders [.start archiveCursor ""] = some w₁ ∧
    step w₁ .prepareTarget = some w₂ ∧
    exec step w₂ [.finish (some "2020-01-01") 5, .start archiveCursor ""] = some w ∧ w.run = some r ∧
    r.saved.committed = some ⟨"2020-01-01", 2⟩ ∧ (∀ a ∈ r.saved.committed, a.table = w.tables) := by
  have hpast : (exec step droppedOrders [.start archiveCursor ""]).any (fun w₁ => !w₁.destExists &&
      (cursorLeft w₁.saved "orders_archive" w₁.dest).isNone &&
      (step w₁ .prepareTarget).any fun w₂ => w₂.destExists &&
        (exec step w₂ [.finish (some "2020-01-01") 5, .start archiveCursor ""]).any fun w => w.tables = w₂.tables &&
          w.run.any fun r => r.cfg.effectiveStateKey = "orders_archive" && r.saved.committed = some ⟨"2020-01-01", 2⟩) =
      true := by
    decide +kernel
  obtain ⟨w₁, hw₁, hpast⟩ := (Option.any_eq_true _ _).mp hpast
  rw [Bool.and_eq_true, Bool.and_eq_true, Option.isNone_iff_eq_none, Bool.not_eq_true'] at hpast
  obtain ⟨⟨hmissing, hleft⟩, hcreate⟩ := hpast
  obtain ⟨w₂, hw₂, hcreate⟩ := (Option.any_eq_true _ _).mp hcreate
  rw [Bool.and_eq_true] at hcreate
  obtain ⟨w, hw, hsince⟩ := (Option.any_eq_true _ _).mp hcreate.2
  rw [Bool.and_eq_true, decide_eq_true_eq] at hsince
  obtain ⟨r, hr, hstart⟩ := (Option.any_eq_true _ _).mp hsince.2
  rw [Bool.and_eq_true, decide_eq_true_eq, decide_eq_true_eq] at hstart
  have hlives := (no_cursor_outlives_its_table rfl rfl hw₁ hmissing hw₂ hcreate.1 hw hsince.1).1 r hr
  rw [hstart.1] at hlives
  exact ⟨w₁, w₂, w, r, hw₁, hw₂, hw, hr, hstart.2, hlives.2.1 hleft⟩

/-- The orders are read past a cursor of the table that was dropped: the archive's run created the new one, and cleared
only what was saved under its own key. -/
theorem orders_start_past_the_dropped_table :
    ∃ w₀ events w r a, w₀.saved = [] ∧ w₀.tables = 0 ∧ w₀.destExists = false ∧ w₀.run = none ∧
      exec step w₀ events = some w ∧ w.run = some r ∧ r.phase = .writing ∧ r.saved.committed = some a ∧
      a.table < w.tables := by
  have hrun : (exec step { dest := "orders", destExists := false, tables := 0, saved := [] }
      [.start ordersCursor "", .prepareTarget, .finish (some "2024-05-01") 7, .drop, .start archiveCursor "",
        .prepareTarget, .finish (some "2020-01-01") 5, .start ordersCursor "", .prepareTarget]).any (fun w =>
      w.tables = 2 && w.run.any fun r => r.phase = .writing && r.saved.committed = some ⟨"2024-05-01", 1⟩) = true := by
    decide +kernel
  obtain ⟨w, hw, hrun⟩ := (Option.any_eq_true _ _).mp hrun
  rw [Bool.and_eq_true, decide_eq_true_eq] at hrun
  obtain ⟨r, hr, hstart⟩ := (Option.any_eq_true _ _).mp hrun.2
  rw [Bool.and_eq_true, decide_eq_true_eq, decide_eq_true_eq] at hstart
  refine ⟨_, _, w, r, _, rfl, rfl, rfl, rfl, hw, hr, hstart.1, hstart.2, ?_⟩
  rw [hrun.1]
  decide

end Quickhouse.TableCursors
