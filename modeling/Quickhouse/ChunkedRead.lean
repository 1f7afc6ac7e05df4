import Quickhouse.CursorPlan
import Quickhouse.Lib.Paging
import Quickhouse.Lib.Runs
import Quickhouse.Source.Keyset

/-!
# The resumable chunked read

A `chunk_rows` run reads the table in chunks of the key's order.  Each chunk's rows are inserted, staged ones are
merged, and only then is a resume marker saved; a crash loses everything but the destination, the committed cursor
and the marker.  The next run reads on past the marker, up to the bound it recorded.

`World` is the source, the destination, the saved state and the run in progress; `World.step` takes one event at an
instant of the source's clock, which several events may share.
-/

namespace Quickhouse

open MachineInt Binary64 Paging

/-! ### The source and the transfer -/

/-- A row as one change left it; no two changes have one version. -/
structure RowVersion where
  key : Int
  watermark : Option Int
  version : Nat
  deriving DecidableEq, Repr

/-- How the source writes and reads the literals of its watermark column. -/
structure CursorDialect (unit : WatermarkUnit) where
  /-- The instant a literal denotes in a comparison with the column. -/
  sqlValue : CursorText → Int
  /-- The text of a `MAX(watermark)` probe. -/
  maxText : Int → CursorText
  /-- The calendar holds the instant. -/
  dated : Int → Bool
  sqlValue_maxText : ∀ v, sqlValue (maxText v) = unit.instant v
  sqlValue_render : ∀ v c, unit.renderValue dated v = some c → sqlValue c = unit.instant v
  parseFloor_maxText : ∀ v f, unit.parseFloor (maxText v) = some f → f ≤ v
  parse_le : ∀ c f, unit.parse c = some f → unit.instant f ≤ sqlValue c

/-- A source whose timestamps have no offset. -/
def CursorDialect.naive : CursorDialect .naiveMicros where
  sqlValue
    | .temporal micros _ => micros
    | .digits n => n
    | .other _ => 0
  maxText v := .temporal v false
  dated _ := true
  sqlValue_maxText _ := rfl
  sqlValue_render v c h := by
    obtain rfl := Option.some.inj h
    rfl
  parseFloor_maxText v f h := (Option.some.inj h).ge
  parse_le c f h := by
    cases c with
    | temporal micros zoned =>
      simp only [WatermarkUnit.parse, Option.ite_none_left_eq_some, Option.some.injEq] at h
      exact h.2.ge
    | digits n => cases h
    | other text => cases h

/-- An incremental `chunk_rows` transfer. -/
structure ChunkedTransfer where
  cfg : TransferConfig
  incremental : cfg.mode = .incremental
  limit : Nat
  chunkRows : cfg.chunkRows = some limit
  limit_pos : 0 < limit
  unit : WatermarkUnit
  textOf : String → CursorText
  dialect : CursorDialect unit
  /-- What a change at an instant of the source's clock stamps its row with.  The column may be coarser than the clock,
  and where it rounds, a stamp may lie up to `ahead` later. -/
  stampOf : Nat → Int
  ahead : Nat
  stampOf_mono : ∀ {σ τ : Nat}, σ ≤ τ → stampOf σ ≤ stampOf τ
  stampOf_le : ∀ τ : Nat, stampOf τ ≤ unit.stamp (τ + ahead : Nat)
  nullWatermarkLands : Bool
  /-- Each chunk is loaded into a staging table and merged; else its inserts land by themselves. -/
  staged : Bool
  /-- The rows the null guard does not leave out. -/
  leavesIn : RowVersion → Bool

/-- Orders, one a chunk. -/
def ordersByOne (staged : Bool) : ChunkedTransfer where
  cfg := {
    sourceTable := some "orders"
    destTable := "orders"
    mode := .incremental
    watermark := some "updated_at"
    key := ["id"]
    chunkRows := some 1 }
  incremental := rfl
  limit := 1
  chunkRows := rfl
  limit_pos := by decide
  unit := .naiveMicros
  textOf := .other
  dialect := .naive
  stampOf τ := τ
  ahead := 0
  stampOf_mono := Int.ofNat_le.mpr
  stampOf_le _ := le_refl _
  nullWatermarkLands := true
  staged
  leavesIn _ := true

/-- The lookback in microseconds. -/
def ChunkedTransfer.lookback (t : ChunkedTransfer) : Int := t.cfg.lookbackSeconds * microsPerSec

/-! ### The read's filter -/

structure ReadFilter where
  lower : Option CursorText := none
  upper : Option CursorText := none
  /-- `OR watermark IS NULL` -/
  orNull : Bool := false
  /-- `watermark IS NOT NULL` -/
  notNull : Bool := false
  deriving DecidableEq, Repr

/-- The watermark lies above the lower bound, set back by the lookback, and not above the upper one. -/
def ReadFilter.spans (t : ChunkedTransfer) (f : ReadFilter) (v : Int) : Bool :=
  f.lower.all (fun l => t.dialect.sqlValue l - t.lookback < t.unit.instant v) &&
    f.upper.all (fun u => t.unit.instant v ≤ t.dialect.sqlValue u)

def ReadFilter.readsNull (f : ReadFilter) : Bool :=
  f.orNull || (f.lower.isNone && f.upper.isNone && !f.notNull)

def ReadFilter.admits (t : ChunkedTransfer) (f : ReadFilter) : Option Int → Bool
  | none => f.readsNull
  | some v => f.spans t v

/-- A resumed read is held to its marker's bound, which no NULL is under: it reads them all the same, where the read
it finishes would have. -/
def readFilter (last upper : Option CursorText) (pinned streamMaxCursor nullWatermarkLands : Bool) : ReadFilter :=
  if last.isNone && upper.isNone then { notNull := !nullWatermarkLands }
  else { lower := last, upper, orNull := last.isNone && pinned && streamMaxCursor && nullWatermarkLands }

@[simp] theorem readFilter_lower (last upper : Option CursorText) (pinned stream lands : Bool) :
    (readFilter last upper pinned stream lands).lower = last := by
  unfold readFilter
  cases last <;> cases upper <;> rfl

@[simp] theorem readFilter_upper (last upper : Option CursorText) (pinned stream lands : Bool) :
    (readFilter last upper pinned stream lands).upper = upper := by
  unfold readFilter
  cases last <;> cases upper <;> rfl

/-! ### Saved state and the run in progress -/

/-- A resume marker: `upper` is the bound a resume reads up to, if one was recorded. -/
structure ChunkMarker where
  cursor : String
  upper : Option CursorText
  deriving DecidableEq, Repr

/-- The frozen upper bound and the cursor to resume past. -/
def resumeBounds (resume : Option ChunkMarker) : Option CursorText × Option String :=
  (resume.bind (·.upper), resume.map (·.cursor))

/-- What each chunk's marker records as its upper bound. -/
inductive MarkerBound where
  | frozen
  | unbounded
  /-- `best` is the largest cursor so far, in the tracker's unit; `i64Min` is none. -/
  | stream (floor : Option CursorText) (best : Int)
  deriving DecidableEq, Repr

inductive Phase where
  /-- Before the next chunk. -/
  | chunkStart
  /-- The chunk is read; the rows of `todo` are not inserted yet. -/
  | inserting (chunk todo : List RowVersion)
  /-- The chunk has landed. -/
  | landed (chunk : List RowVersion)
  /-- The loop is left. -/
  | complete
  deriving DecidableEq, Repr

structure ChunkRun where
  plan : CursorPlan
  filter : ReadFilter
  committed : Option CursorText
  effectiveUpper : Option CursorText
  bound : MarkerBound
  tracker : Option WatermarkTracker
  cursor : Option String
  firstRead : Option Nat := none
  staging : List RowVersion := []
  phase : Phase := .chunkStart
  deriving DecidableEq, Repr

/-- The upper bound the chunk's marker records, after a read of `secs`, and what the next one starts from. -/
def ChunkRun.markerUpper (t : ChunkedTransfer) (r : ChunkRun) (secs : F64) : Option CursorText × MarkerBound :=
  match r.bound with
  | .frozen => (r.effectiveUpper, .frozen)
  | .unbounded => (none, .unbounded)
  | .stream floor best =>
    match r.tracker with
    | none => (none, .stream floor best)
    | some tracker =>
      match tracker.rewound (tracker.streamRewindSecs secs t.cfg.lookbackSeconds) floor with
      | none => (none, .stream floor best)
      | some v => (t.unit.renderValue t.dialect.dated (max best v), .stream floor (max best v))

structure World where
  clock : Nat
  changes : Nat
  source : List RowVersion
  /-- Every row version that landed. -/
  dest : List RowVersion
  committed : Option CursorText
  marker : Option ChunkMarker
  run : Option ChunkRun
  deriving DecidableEq, Repr

inductive Event where
  /-- A source row is inserted or updated: the source's clock stamps it. -/
  | change (now : Nat) (key : Int)
  | delete (now : Nat) (key : Int)
  /-- A run starts; `skipMax` when the planner finds the MAX probe too costly. -/
  | start (now : Nat) (skipMax : Bool)
  | readChunk (now : Nat)
  /-- One of the chunk's rows is inserted. -/
  | insert (now : Nat) (i : Nat)
  | endChunk (now : Nat)
  | saveMarker (now : Nat) (secs : F64)
  | finish (now : Nat) (secs : F64)
  | crash (now : Nat)

def Event.now : Event → Nat
  | .change now _ | .delete now _ | .start now _ | .readChunk now | .insert now _ | .endChunk now
  | .saveMarker now _ | .finish now _ | .crash now => now

/-! ### Steps -/

namespace World

def change (t : ChunkedTransfer) (s : World) (key : Int) : World :=
  { s with
    changes := s.changes + 1
    source := s.source.filter (·.key ≠ key) ++ [⟨key, some (t.stampOf s.clock), s.changes + 1⟩] }

def delete (s : World) (key : Int) : World := { s with source := s.source.filter (·.key ≠ key) }

/-- The `MAX(watermark)` probe. -/
def snapshotMax (t : ChunkedTransfer) (s : World) (skipMax : Bool) : Option CursorText :=
  if skipMax then none else ((s.source.filterMap (·.watermark)).max?).map t.dialect.maxText

/-- The run a start sets up, from what it finds saved. -/
def newRun (t : ChunkedTransfer) (s : World) (skipMax : Bool) : ChunkRun :=
  let (pinnedUpper, startCursor) := resumeBounds s.marker
  let effectiveUpper := pinnedUpper.or (s.snapshotMax t skipMax)
  let last := s.committed.or (seedValue t.textOf t.cfg.seedWatermark effectiveUpper)
  let tracker := if skipMax then some { unit := t.unit } else none
  let plan : CursorPlan := {
    pinned := pinnedUpper.isSome
    seeded := s.committed.isNone
    keepCommitted := s.marker.isSome && pinnedUpper.isNone && s.committed.isSome
    floor := cursorFloor s.committed last tracker
    last }
  { plan
    filter := readFilter last effectiveUpper plan.pinned skipMax t.nullWatermarkLands
    committed := s.committed
    effectiveUpper
    bound :=
      if plan.keepCommitted then .unbounded
      else if effectiveUpper.isSome then .frozen
      else .stream plan.floor i64Min
    tracker
    cursor := startCursor }

/-- A stream cursor needs a lookback, which only a temporal watermark takes.  A `skip_to_max` run without a MAX is
refused. -/
def start (t : ChunkedTransfer) (s : World) (skipMax : Bool) : Option World :=
  if s.run.isSome then none
  else if skipMax ∧ (t.cfg.lookbackSeconds = 0 ∨ t.unit = .int) then none
  else
    let run := s.newRun t skipMax
    if t.cfg.seedWatermark = .currentMax ∧ s.committed = none ∧ run.effectiveUpper = none ∧ skipMax then none
    else some { s with run := some run }

/-- The rows past a cursor that the read's filter admits. -/
def candidates (t : ChunkedTransfer) (s : World) (filter : ReadFilter) (cursor : Option String) :
    List RowVersion :=
  let keyset : Keyset := ⟨(t.cfg.keysetColumn).getD "", cursor, .orderedLimit t.limit⟩
  s.source.filter fun x => keyset.admits x.key && filter.admits t x.watermark

/-- `COPY (… WHERE key > cursor AND filter ORDER BY key LIMIT limit)` -/
def nextChunk (t : ChunkedTransfer) (s : World) (r : ChunkRun) : List RowVersion :=
  page RowVersion.key t.limit (s.candidates t r.filter r.cursor)

def readChunk (t : ChunkedTransfer) (s : World) : Option World :=
  match s.run with
  | some r =>
    match r.phase with
    | .chunkStart =>
      let chunk := s.nextChunk t r
      some { s with run := some { r with
        firstRead := r.firstRead.or (some s.clock)
        tracker := r.tracker.map (·.observe (chunk.map (·.watermark)))
        staging := []
        phase := .inserting chunk chunk } }
    | _ => none
  | none => none

def insert (t : ChunkedTransfer) (s : World) (i : Nat) : Option World :=
  match s.run with
  | some r =>
    match r.phase with
    | .inserting chunk todo =>
      match todo[i]? with
      | some x => some { s with
          dest := if t.leavesIn x && !t.staged then s.dest ++ [x] else s.dest
          run := some { r with
            staging := if t.leavesIn x && t.staged then r.staging ++ [x] else r.staging
            phase := .inserting chunk (todo.eraseIdx i) } }
      | none => none
    | _ => none
  | none => none

/-- The flush is awaited, then a staged chunk is merged.  An empty chunk ends the read. -/
def endChunk (s : World) : Option World :=
  match s.run with
  | some r =>
    match r.phase with
    | .inserting chunk [] =>
      some { s with
        dest := s.dest ++ r.staging
        run := some { r with staging := [], phase := if chunk = [] then .complete else .landed chunk } }
    | _ => none
  | none => none

/-- The chunk's last key and bound are saved beside the committed cursor.  A short chunk is the last. -/
def saveMarker (t : ChunkedTransfer) (s : World) (secs : F64) : Option World :=
  match s.run with
  | some r =>
    match r.phase, r.firstRead with
    | .landed chunk, some firstRead =>
      match chunk.getLast? with
      | some last =>
        if coversMicros secs (s.clock - firstRead) then
          let upper := r.markerUpper t secs
          some { s with
            committed := r.committed
            marker := some ⟨toString last.key, upper.1⟩
            run := some { r with
              bound := upper.2
              cursor := some (toString last.key)
              phase := if chunk.length < t.limit then .complete else .chunkStart } }
        else none
      | none => none
    | _, _ => none
  | none => none

/-- The cursor a finished run computes. -/
def cursorOf (t : ChunkedTransfer) (r : ChunkRun) (secs : F64) : Option CursorText :=
  newWatermark t.dialect.dated t.cfg.lookbackSeconds r.plan ⟨false, true, false, secs⟩ r.tracker r.effectiveUpper

/-- The cursor is saved, or the committed one again: either clears the marker. -/
def finish (t : ChunkedTransfer) (s : World) (secs : F64) : Option World :=
  match s.run with
  | some r =>
    match r.phase, r.firstRead with
    | .complete, some firstRead =>
      if coversMicros secs (s.clock - firstRead) then
        let saved := if t.cfg.advanceWatermark then (cursorOf t r secs).or r.committed else r.committed
        some { s with committed := saved, marker := none, run := none }
      else none
    | _, _ => none
  | none => none

def crash (s : World) : Option World :=
  if s.run.isSome then some { s with run := none } else none

def act (t : ChunkedTransfer) (s : World) : Event → Option World
  | .change _ key => some (s.change t key)
  | .delete _ key => some (s.delete key)
  | .start _ skipMax => s.start t skipMax
  | .readChunk _ => s.readChunk t
  | .insert _ i => s.insert t i
  | .endChunk _ => s.endChunk
  | .saveMarker _ secs => s.saveMarker t secs
  | .finish _ secs => s.finish t secs
  | .crash _ => s.crash

/-- The clock reads no earlier at each event than at the one before it. -/
def step (t : ChunkedTransfer) (s : World) (e : Event) : Option World :=
  if s.clock ≤ e.now ∧ ((e.now + t.ahead : Nat) : Int) ≤ i64Max then { s with clock := e.now }.act t e else none

/-! ### What a step does -/

variable {t : ChunkedTransfer} {s s' : World} {secs : F64}

theorem step_cases {e : Event} (h : s.step t e = some s') :
    s.clock ≤ e.now ∧ ((e.now + t.ahead : Nat) : Int) ≤ i64Max ∧ { s with clock := e.now }.act t e = some s' := by
  unfold step at h
  split_ifs at h with hnow
  exact ⟨hnow.1, hnow.2, h⟩

theorem start_cases {skipMax : Bool} (h : s.start t skipMax = some s') :
    s.run = none ∧ (skipMax = true → 0 < t.cfg.lookbackSeconds ∧ t.unit ≠ .int) ∧
      ¬ (t.cfg.seedWatermark = .currentMax ∧ s.committed = none ∧ (s.newRun t skipMax).effectiveUpper = none ∧
        skipMax = true) ∧
      s' = { s with run := some (s.newRun t skipMax) } := by
  unfold start at h
  split_ifs at h with hrun hskip
  extract_lets run at h
  split_ifs at h with hseed
  refine ⟨?_, fun hs => ?_, hseed, (Option.some.inj h).symm⟩
  · simpa using hrun
  · rw [not_and, not_or] at hskip
    have hor := hskip hs
    exact ⟨by omega, hor.2⟩

theorem readChunk_cases (h : s.readChunk t = some s') :
    ∃ r, s.run = some r ∧ r.phase = .chunkStart ∧
      s' = { s with run := some { r with
        firstRead := r.firstRead.or (some s.clock)
        tracker := r.tracker.map (·.observe ((s.nextChunk t r).map (·.watermark)))
        staging := []
        phase := .inserting (s.nextChunk t r) (s.nextChunk t r) } } := by
  unfold readChunk at h
  split at h
  · rename_i r hrun
    split at h
    · rename_i hphase
      exact ⟨r, hrun, hphase, (Option.some.inj h).symm⟩
    · cases h
  · cases h

theorem insert_cases {i : Nat} (h : s.insert t i = some s') :
    ∃ r chunk todo x, s.run = some r ∧ r.phase = .inserting chunk todo ∧ todo[i]? = some x ∧
      s' = { s with
        dest := if t.leavesIn x && !t.staged then s.dest ++ [x] else s.dest
        run := some { r with
          staging := if t.leavesIn x && t.staged then r.staging ++ [x] else r.staging
          phase := .inserting chunk (todo.eraseIdx i) } } := by
  unfold insert at h
  split at h
  · rename_i r hrun
    split at h
    · rename_i chunk todo hphase
      split at h
      · rename_i x hx
        exact ⟨r, chunk, todo, x, hrun, hphase, hx, (Option.some.inj h).symm⟩
      · cases h
    · cases h
  · cases h

theorem endChunk_cases (h : s.endChunk = some s') :
    ∃ r chunk, s.run = some r ∧ r.phase = .inserting chunk [] ∧
      s' = { s with
        dest := s.dest ++ r.staging
        run := some { r with staging := [], phase := if chunk = [] then .complete else .landed chunk } } := by
  unfold endChunk at h
  split at h
  · rename_i r hrun
    split at h
    · rename_i chunk hphase
      exact ⟨r, chunk, hrun, hphase, (Option.some.inj h).symm⟩
    · cases h
  · cases h

theorem saveMarker_cases (h : s.saveMarker t secs = some s') :
    ∃ r chunk firstRead last, s.run = some r ∧ r.phase = .landed chunk ∧ r.firstRead = some firstRead ∧
      chunk.getLast? = some last ∧ coversMicros secs (s.clock - firstRead) = true ∧
      s' = { s with
        committed := r.committed
        marker := some ⟨toString last.key, (r.markerUpper t secs).1⟩
        run := some { r with
          bound := (r.markerUpper t secs).2
          cursor := some (toString last.key)
          phase := if chunk.length < t.limit then .complete else .chunkStart } } := by
  unfold saveMarker at h
  split at h
  · rename_i r hrun
    split at h
    · rename_i chunk firstRead hphase hfirst
      split at h
      · rename_i last hlast
        by_cases hsecs : coversMicros secs (s.clock - firstRead) = true
        · rw [if_pos hsecs] at h
          exact ⟨r, chunk, firstRead, last, hrun, hphase, hfirst, hlast, hsecs, (Option.some.inj h).symm⟩
        · rw [if_neg hsecs] at h
          cases h
      · cases h
    · cases h
  · cases h

theorem finish_cases (h : s.finish t secs = some s') :
    ∃ r firstRead, s.run = some r ∧ r.phase = .complete ∧ r.firstRead = some firstRead ∧
      coversMicros secs (s.clock - firstRead) = true ∧
      s' = { s with
        committed := if t.cfg.advanceWatermark then (cursorOf t r secs).or r.committed else r.committed
        marker := none
        run := none } := by
  unfold finish at h
  split at h
  · rename_i r hrun
    split at h
    · rename_i firstRead hphase hfirst
      by_cases hsecs : coversMicros secs (s.clock - firstRead) = true
      · rw [if_pos hsecs] at h
        exact ⟨r, firstRead, hrun, hphase, hfirst, hsecs, (Option.some.inj h).symm⟩
      · rw [if_neg hsecs] at h
        cases h
    · cases h
  · cases h

theorem crash_cases (h : s.crash = some s') : s' = { s with run := none } := by
  unfold crash at h
  split_ifs at h
  exact (Option.some.inj h).symm

theorem change_keys {key : Int} (hkeys : (s.source.map (·.key)).Nodup) :
    ((s.change t key).source.map (·.key)).Nodup := by
  unfold change
  rw [List.map_append, List.nodup_append]
  refine ⟨hkeys.sublist (List.filter_sublist.map _), List.nodup_singleton _, ?_⟩
  intro a ha b hb
  obtain ⟨x, hx, rfl⟩ := List.mem_map.mp ha
  rw [List.map_cons, List.map_nil, List.mem_singleton] at hb
  have := (List.mem_filter.mp hx).2
  simpa [hb] using this

theorem delete_keys {key : Int} (hkeys : (s.source.map (·.key)).Nodup) :
    ((s.delete key).source.map (·.key)).Nodup :=
  hkeys.sublist (List.filter_sublist.map _)

/-- A row after a change is the new version, or a row there was. -/
theorem mem_change {key : Int} {x : RowVersion} (hx : x ∈ (s.change t key).source) :
    x ∈ s.source ∨ x = ⟨key, some (t.stampOf s.clock), s.changes + 1⟩ := by
  rcases List.mem_append.mp hx with hx | hx
  · exact Or.inl (List.mem_filter.mp hx).1
  · exact Or.inr (List.mem_singleton.mp hx)

theorem mem_delete {key : Int} {x : RowVersion} (hx : x ∈ (s.delete key).source) : x ∈ s.source :=
  (List.mem_filter.mp hx).1

/-! ### The run a start sets up -/

theorem newRun_keepCommitted (t : ChunkedTransfer) (s : World) (skipMax : Bool) :
    (s.newRun t skipMax).plan.keepCommitted =
      (s.marker.isSome && (s.marker.bind (·.upper)).isNone && s.committed.isSome) := rfl

theorem newRun_bound (t : ChunkedTransfer) (s : World) (skipMax : Bool) :
    (s.newRun t skipMax).bound =
      if (s.newRun t skipMax).plan.keepCommitted then .unbounded
      else if (s.newRun t skipMax).effectiveUpper.isSome then .frozen
      else .stream (s.newRun t skipMax).plan.floor i64Min := rfl

theorem newRun_tracker (t : ChunkedTransfer) (s : World) (skipMax : Bool) :
    (s.newRun t skipMax).tracker = if skipMax then some { unit := t.unit } else none := rfl

theorem newRun_cursor (t : ChunkedTransfer) (s : World) (skipMax : Bool) :
    (s.newRun t skipMax).cursor = s.marker.map (·.cursor) := rfl

theorem newRun_effectiveUpper (t : ChunkedTransfer) (s : World) (skipMax : Bool) :
    (s.newRun t skipMax).effectiveUpper = (s.marker.bind (·.upper)).or (s.snapshotMax t skipMax) := rfl

theorem newRun_lower (t : ChunkedTransfer) (s : World) (skipMax : Bool) :
    (s.newRun t skipMax).filter.lower =
      s.committed.or (seedValue t.textOf t.cfg.seedWatermark (s.newRun t skipMax).effectiveUpper) :=
  readFilter_lower _ _ _ _ _

theorem newRun_upper (t : ChunkedTransfer) (s : World) (skipMax : Bool) :
    (s.newRun t skipMax).filter.upper = (s.newRun t skipMax).effectiveUpper :=
  readFilter_upper _ _ _ _ _

/-- No watermark of the source is above its MAX. -/
theorem le_snapshotMax {t : ChunkedTransfer} {s : World} {skipMax : Bool} {m : CursorText}
    (h : s.snapshotMax t skipMax = some m) {x : RowVersion} (hx : x ∈ s.source) {v : Int}
    (hv : x.watermark = some v) : t.unit.instant v ≤ t.dialect.sqlValue m := by
  unfold snapshotMax at h
  split_ifs at h
  obtain ⟨top, htop, rfl⟩ := Option.map_eq_some_iff.mp h
  rw [t.dialect.sqlValue_maxText, t.unit.instant_le_instant]
  exact (List.max?_eq_some_iff.mp htop).2 v (List.mem_filterMap.mpr ⟨x, hx, hv⟩)

end World

/-! ### The chunk that is read -/

/-- What is left after one of the rows is taken out. -/
theorem eq_or_mem_eraseIdx {l : List RowVersion} {i : Nat} {x y : RowVersion} (hx : l[i]? = some x) (hy : y ∈ l) :
    y = x ∨ y ∈ l.eraseIdx i := by
  obtain ⟨hi, rfl⟩ := List.getElem?_eq_some_iff.mp hx
  exact List.mem_cons.mp ((List.getElem_cons_eraseIdx_perm hi).mem_iff.mpr hy)

/-- The key lies at or below the cursor. -/
def PassedBy (cursor : Option String) (key : Int) : Prop :=
  ∃ c, cursor = some c ∧ key ≤ literalValue (integerLiteral c)

instance (cursor : Option String) (key : Int) : Decidable (PassedBy cursor key) :=
  inferInstanceAs (Decidable (∃ c ∈ cursor, key ≤ literalValue (integerLiteral c)))

theorem passedBy_toString {k key : Int} : PassedBy (some (toString k)) key ↔ key ≤ k := by
  simp only [PassedBy, Option.some.injEq, exists_eq_left', literalValue_integerLiteral]

theorem not_passedBy_none (key : Int) : ¬ PassedBy none key := by
  rintro ⟨c, hc, -⟩
  cases hc

private theorem admits_iff (colQuoted : String) (cursor : Option String) (limit : Nat) (key : Int) :
    (Keyset.mk colQuoted cursor (.orderedLimit limit)).admits key = true ↔ ¬ PassedBy cursor key := by
  cases cursor with
  | none => simp [Keyset.admits, Keyset.conds, not_passedBy_none]
  | some c => simp [Keyset.admits, Keyset.conds, KeysetCond.holds, PassedBy]

namespace World

variable {t : ChunkedTransfer} {s : World} {r : ChunkRun}

theorem mem_candidates {filter : ReadFilter} {cursor : Option String} {x : RowVersion} :
    x ∈ s.candidates t filter cursor ↔
      x ∈ s.source ∧ ¬ PassedBy cursor x.key ∧ filter.admits t x.watermark = true := by
  unfold candidates
  rw [List.mem_filter, Bool.and_eq_true, admits_iff]

theorem candidates_nodup (hkeys : (s.source.map (·.key)).Nodup) (filter : ReadFilter) (cursor : Option String) :
    ((s.candidates t filter cursor).map (·.key)).Nodup :=
  hkeys.sublist (List.filter_sublist.map _)

theorem mem_nextChunk {x : RowVersion} (hx : x ∈ s.nextChunk t r) :
    x ∈ s.source ∧ ¬ PassedBy r.cursor x.key ∧ r.filter.admits t x.watermark = true :=
  mem_candidates.mp (mem_of_mem_page hx)

/-- A chunk holds every row of the filter past the cursor, up to its last. -/
theorem nextChunk_complete (hkeys : (s.source.map (·.key)).Nodup) {x : RowVersion} (hx : x ∈ s.source)
    (hpast : ¬ PassedBy r.cursor x.key) (hadmits : r.filter.admits t x.watermark = true)
    (hreached : Reached RowVersion.key t.limit (s.nextChunk t r) x.key) : x ∈ s.nextChunk t r :=
  mem_page (candidates_nodup hkeys _ _) (mem_candidates.mpr ⟨hx, hpast, hadmits⟩) hreached

/-- Past the last row of a chunk fewer rows are left, by the length of the chunk. -/
theorem length_candidates_past (hkeys : (s.source.map (·.key)).Nodup) {last : RowVersion}
    (hlast : (s.nextChunk t r).getLast? = some last) :
    (s.candidates t r.filter (some (toString last.key))).length + (s.nextChunk t r).length ≤
      (s.candidates t r.filter r.cursor).length := by
  have hmem := mem_nextChunk (List.mem_of_getLast? hlast)
  have heq : s.candidates t r.filter (some (toString last.key)) =
      (s.candidates t r.filter r.cursor).filter fun x => last.key < x.key := by
    unfold candidates
    rw [List.filter_filter]
    apply List.filter_congr
    intro x _
    have h1 := admits_iff ((t.cfg.keysetColumn).getD "") (some (toString last.key)) t.limit x.key
    have h2 := admits_iff ((t.cfg.keysetColumn).getD "") r.cursor t.limit x.key
    rw [passedBy_toString, not_le] at h1
    rw [Bool.eq_iff_iff, Bool.and_eq_true, Bool.and_eq_true, Bool.and_eq_true, h1, h2, decide_eq_true_eq]
    constructor
    · rintro ⟨hlt, hadmits⟩
      refine ⟨hlt, fun ⟨c, hc, hle⟩ => hmem.2.1 ⟨c, hc, ?_⟩, hadmits⟩
      omega
    · rintro ⟨hlt, -, hadmits⟩
      exact ⟨hlt, hadmits⟩
  rw [heq]
  exact length_past_add (candidates_nodup hkeys _ _) hlast

end World

end Quickhouse
