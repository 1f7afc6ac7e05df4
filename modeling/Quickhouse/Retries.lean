import Quickhouse.ChunkedRead

/-!
# Attempts at a transfer

A transfer whose source fails for a moment is run again from the start, or past the chunks that are committed.  What a
failed attempt has put into the destination is put there again, so it is counted: the inserts into the destination add
to `landed`, a committed chunk takes it back to zero, and each failed attempt adds it to the report.

An attempt that resumes is held to the bound its marker recorded.  The count is right where each attempt's bound takes in
what the ones before it landed past the committed chunks (`TakesIn`).
-/

namespace Quickhouse.Retries

open Runs Paging Binary64

/-- How staged rows reach the destination. -/
inductive Promotion where
  | swap
  | merge
  | insertSelect
  deriving DecidableEq, Repr

inductive Target where
  | dest
  | staging (by_ : Promotion)
  deriving DecidableEq, Repr

/-- The bound of an attempt's read. -/
inductive MaxProbe where
  | max
  /-- The MAX of `source_table`, in place of that of the query. -/
  | tableMax
  /-- The planner finds the probe too costly. -/
  | skipped
  deriving DecidableEq, Repr

inductive Reading where
  /-- In one statement, whose filter takes in these rows. -/
  | whole (admitted : MaxProbe → Nat → Bool)
  /-- In chunks.  An earlier run saved a cursor, and committed chunks that the first `resumed` rows lie in. -/
  | chunks (t : ChunkedTransfer) (saved : Option CursorText) (marker : Option ChunkMarker) (resumed : Nat)

/-- A transfer of a source that does not change: its rows, in the order of the key, and which of them are sent on. -/
structure Job where
  destTable : String
  rows : Nat
  watermark : Nat → Option Int
  sent : Nat → Bool
  reading : Reading
  target : Target
  retryMaxAttempts : Nat

inductive Phase where
  /-- Before the source is set up, and after a failure. -/
  | starting
  /-- The source is asked for the next statement's rows. -/
  | opening
  | reading
  /-- Every insert of the statement has succeeded. -/
  | landing
  /-- The chunk is in the destination. -/
  | committing
  /-- The source has nothing more to read. -/
  | ending
  /-- With `rows_written_failed_attempts`. -/
  | reported (failed : Nat)
  | failed
  deriving DecidableEq, Repr

/-- A row that an attempt wrote. -/
structure Written where
  attempt : Nat
  row : Nat
  deriving DecidableEq, Repr

/-- What an attempt has set up. -/
inductive SetUp where
  | none
  | whole (probe : MaxProbe)
  | chunks (r : ChunkRun)
  deriving DecidableEq, Repr

def SetUp.observe (watermarks : List (Option Int)) : SetUp → SetUp
  | .chunks r => .chunks { r with tracker := r.tracker.map (·.observe watermarks) }
  | run => run

structure Transfer where
  attempt : Nat := 1
  phase : Phase := .starting
  marker : Option ChunkMarker
  run : SetUp := .none
  /-- The rows before it lie in committed chunks. -/
  committed : Nat
  /-- The statement's rows that are not inserted, and those that are. -/
  todo : List Nat := []
  written : List Nat := []
  landed : Nat := 0
  /-- What the attempts that failed had landed. -/
  failedRows : Nat := 0
  carried : List String := []
  /-- What reached the destination itself, and what was written at all: a record, which no step reads. -/
  landings : List Written := []
  writes : List Written := []
  deriving DecidableEq, Repr

inductive Event where
  /-- The source is set up. -/
  | started (probe : MaxProbe)
  | opened
  /-- An insert succeeds; others may be under way. -/
  | inserted (batch rest : List Nat)
  | drained
  | promoted
  /-- After a read of `secs` so far. -/
  | chunkCommitted (secs : F64)
  | ended
  /-- A transient error of the source, which only a wait for the source can raise. -/
  | sourceFails
  | fails

namespace Job

def first (job : Job) : Transfer :=
  match job.reading with
  | .whole _ => { marker := none, committed := 0 }
  | .chunks _ _ marker resumed => { marker, committed := resumed }

/-- What a chunked read finds when it is set up. -/
def world (job : Job) (saved : Option CursorText) (marker : Option ChunkMarker) : World where
  clock := 0
  changes := 0
  source := (List.range job.rows).map fun row : Nat => ⟨row, job.watermark row, row⟩
  dest := []
  committed := saved
  marker
  run := none

/-- What an attempt sets up: the bound of its marker holds a chunked read, where that recorded one.  The MAX of
`source_table` bounds no such read. -/
def setUp (job : Job) (marker : Option ChunkMarker) (probe : MaxProbe) : Option SetUp :=
  match job.reading with
  | .whole _ => some (.whole probe)
  | .chunks t saved _ _ =>
    if probe = .tableMax then none
    else (((job.world saved marker).start t (probe = .skipped)).bind (·.run)).map .chunks

/-- The row lies within what a read's filter admits. -/
def admits (job : Job) (run : SetUp) (row : Nat) : Bool :=
  match job.reading, run with
  | .whole admitted, .whole probe => admitted probe row
  | .chunks t .., .chunks r => r.filter.admits t (job.watermark row)
  | _, _ => true

/-- The rows that the next statement reads. -/
def read (job : Job) (t : Transfer) : List Nat :=
  let rest := (List.range' t.committed (job.rows - t.committed)).filter (job.admits t.run)
  match job.reading with
  | .whole _ => rest
  | .chunks c .. => page id c.limit rest

/-- The rows that it sends on. -/
def statement (job : Job) (t : Transfer) : List Nat := (job.read t).filter job.sent

def chunked (job : Job) : Bool :=
  match job.reading with
  | .whole _ => false
  | .chunks .. => true

end Job

def partialWriteWarning (dest : String) (attempt rows : Nat) : String :=
  "attempt " ++ toString attempt ++ " of the transfer into '" ++ dest ++ "' failed after writing " ++ toString rows ++
    " row(s) into it, and retry_max_attempts runs the transfer again from the start, so those rows are written a " ++
    "second time. A ReplacingMergeTree collapses the copies at its next merge (count() runs high until then); an " ++
    "engine that keeps duplicates keeps them. Retries stage each attempt instead for a ClickHouse MergeTree that " ++
    "keeps duplicates, or set chunk_rows to resume rather than restart."

namespace Transfer

def record (t : Transfer) (rows : List Nat) : List Written := rows.map (Written.mk t.attempt)

/-- The statement is open: the tracker folds the watermarks of its rows. -/
def open_ (job : Job) (t : Transfer) : Transfer :=
  { t with
    phase := .reading
    run := t.run.observe ((job.read t).map job.watermark)
    todo := job.statement t
    written := [] }

/-- An insert's rows are landed only where it goes into the destination itself. -/
def insert (job : Job) (t : Transfer) (batch rest : List Nat) : Transfer :=
  { t with
    todo := rest
    written := t.written ++ batch
    landed := if job.target = .dest then t.landed + batch.length else t.landed
    landings := if job.target = .dest then t.landings ++ t.record batch else t.landings
    writes := t.writes ++ t.record batch }

/-- A `MERGE` upserts and a swap replaces, so a promotion counts only where it adds rows. -/
def promote (job : Job) (t : Transfer) : Transfer :=
  match job.target with
  | .dest => t
  | .staging how =>
    { t with
      landed := if how = .insertSelect then t.landed + t.written.length else t.landed
      landings := t.landings ++ t.record t.written }

/-- The chunk's last row and bound are saved; what it landed is not written again. -/
def commit (job : Job) (c : ChunkedTransfer) (t : Transfer) (r : ChunkRun) (last : Nat) (secs : F64) : Transfer :=
  { t with
    -- a short chunk is the last
    phase := if (job.read t).length < c.limit then .ending else .opening
    marker := some ⟨toString last, (r.markerUpper c secs).1⟩
    run := .chunks { r with bound := (r.markerUpper c secs).2 }
    committed := last + 1
    landed := 0 }

/-- The transfer is run again, if attempts are left. -/
def retry (job : Job) (t : Transfer) : Transfer :=
  if t.attempt < max 1 job.retryMaxAttempts then
    { t with
      attempt := t.attempt + 1
      phase := .starting
      run := .none
      landed := 0
      failedRows := t.failedRows + t.landed
      carried := if 0 < t.landed then [partialWriteWarning job.destTable t.attempt (t.failedRows + t.landed)]
        else t.carried }
  else { t with phase := .failed }

end Transfer

def step (job : Job) (t : Transfer) : Event → Option Transfer
  | .started probe =>
    if t.phase = .starting then (job.setUp t.marker probe).map fun run => { t with phase := .opening, run } else none
  | .opened => if t.phase = .opening then some (t.open_ job) else none
  | .inserted batch rest =>
    if t.phase = .reading ∧ (batch ++ rest).Perm t.todo then some (t.insert job batch rest) else none
  | .drained => if t.phase = .reading ∧ t.todo = [] then some { t with phase := .landing } else none
  | .promoted =>
    if t.phase = .landing then
      some { t.promote job with
        phase :=
          -- a chunk that read nothing is the last, and has no cursor to commit
          if job.chunked ∧ job.read t ≠ [] then .committing else .ending }
    else none
  | .chunkCommitted secs =>
    match t.phase, job.reading, t.run, (job.read t).getLast? with
    | .committing, .chunks c .., .chunks r, some last => some (t.commit job c r last secs)
    | _, _, _, _ => none
  | .ended => if t.phase = .ending then some { t with phase := .reported t.failedRows } else none
  | .sourceFails =>
    if t.phase = .starting ∨ t.phase = .opening ∨ t.phase = .reading then some (t.retry job) else none
  | .fails =>
    match t.phase with
    | .reported _ | .failed => none
    | _ => some { t with phase := .failed }

/-! ### What is written again -/

/-- A later attempt writes the row. -/
def Transfer.Again (t : Transfer) (l : Written) : Prop := ∃ w ∈ t.writes, l.attempt < w.attempt ∧ w.row = l.row

instance (t : Transfer) (l : Written) : Decidable (t.Again l) :=
  inferInstanceAs (Decidable (∃ w ∈ t.writes, l.attempt < w.attempt ∧ w.row = l.row))

/-- What has reached the destination past the committed chunks, and is not written again yet, is within the read. -/
def Landed (job : Job) (t : Transfer) (run : SetUp) : Prop :=
  ∀ l ∈ t.landings, t.committed ≤ l.row → ¬t.Again l → job.admits run l.row = true

instance (job : Job) (t : Transfer) (run : SetUp) : Decidable (Landed job t run) :=
  inferInstanceAs (Decidable (∀ l ∈ t.landings, t.committed ≤ l.row → ¬t.Again l → job.admits run l.row = true))

/-- An attempt's bound takes in what the ones before it landed past the committed chunks. -/
def TakesIn (job : Job) (t : Transfer) : Event → Prop
  | .started probe => ∀ run ∈ job.setUp t.marker probe, Landed job t run
  | _ => True

instance (job : Job) (t : Transfer) : (e : Event) → Decidable (TakesIn job t e)
  | .started probe => inferInstanceAs (Decidable (∀ run ∈ job.setUp t.marker probe, Landed job t run))
  | .opened | .inserted .. | .drained | .promoted | .chunkCommitted _ | .ended | .sourceFails | .fails =>
    inferInstanceAs (Decidable True)

/-! ### The rows of a statement -/

section

variable {job : Job} {t t' : Transfer} {row : Nat}

/-- What a read's filter admits is all that the next statement sees of it. -/
theorem read_congr (hcommitted : t'.committed = t.committed) (hadmits : job.admits t'.run = job.admits t.run) :
    job.read t' = job.read t := by
  unfold Job.read
  rw [hcommitted, hadmits]

theorem admits_chunks (job : Job) {r r' : ChunkRun} (h : r'.filter = r.filter) :
    job.admits (.chunks r') = job.admits (.chunks r) := by
  unfold Job.admits
  cases job.reading with
  | whole admitted => rfl
  | chunks c saved marker resumed =>
    dsimp only
    rw [h]

theorem open_admits (job : Job) (t : Transfer) : job.admits (t.open_ job).run = job.admits t.run := by
  unfold Transfer.open_
  cases t.run with
  | none => rfl
  | whole probe => rfl
  | chunks r => exact admits_chunks job rfl

theorem mem_read (h : row ∈ job.read t) : t.committed ≤ row ∧ row < job.rows ∧ job.admits t.run row = true := by
  have hrest : row ∈ (List.range' t.committed (job.rows - t.committed)).filter (job.admits t.run) := by
    unfold Job.read at h
    split at h
    · exact h
    · exact mem_of_mem_page h
  obtain ⟨hrange, hadmits⟩ := List.mem_filter.mp hrest
  have hrange := List.mem_range'_1.mp hrange
  exact ⟨hrange.1, by omega, hadmits⟩

theorem mem_statement : row ∈ job.statement t ↔ row ∈ job.read t ∧ job.sent row = true := List.mem_filter

theorem rest_keys (job : Job) (t : Transfer) :
    (((List.range' t.committed (job.rows - t.committed)).filter (job.admits t.run)).map id).Nodup := by
  have hnodup : (List.range' t.committed (job.rows - t.committed)).Nodup := List.nodup_range'
  rw [List.map_id]
  exact hnodup.filter _

/-- A statement reads what is admitted of the rows up to its last; and all there is, where it is not a full chunk. -/
theorem mem_read_of_admits (hcommitted : t.committed ≤ row) (hrows : row < job.rows)
    (hadmits : job.admits t.run row = true)
    (hreached : ∀ c saved marker resumed, job.reading = .chunks c saved marker resumed →
      (∃ last, (job.read t).getLast? = some last ∧ row ≤ last) ∨ (job.read t).length < c.limit) :
    row ∈ job.read t := by
  have hrest : row ∈ (List.range' t.committed (job.rows - t.committed)).filter (job.admits t.run) :=
    List.mem_filter.mpr ⟨List.mem_range'_1.mpr ⟨hcommitted, by omega⟩, hadmits⟩
  unfold Job.read at hreached ⊢
  cases hreading : job.reading with
  | whole admitted => exact hrest
  | chunks c saved marker resumed =>
    simp only [hreading] at hreached
    exact mem_page (rest_keys job t) hrest (hreached c saved marker resumed rfl)

theorem le_last {c : ChunkedTransfer} {saved : Option CursorText} {marker : Option ChunkMarker} {resumed last : Nat}
    (hreading : job.reading = .chunks c saved marker resumed) (hlast : (job.read t).getLast? = some last)
    (h : row ∈ job.read t) : row ≤ last := by
  unfold Job.read at h hlast
  simp only [hreading] at h hlast
  exact le_getLast (page_sorted (rest_keys job t)) h hlast

end

/-! ### What the transfer has counted -/

/-- What reached the destination, apart: what counts, what lies in committed chunks, and what the attempt that runs has
landed past them. -/
structure Split (job : Job) (t : Transfer) (again kept fresh : List Written) : Prop where
  landings : t.landings.Perm (again ++ kept ++ fresh)
  count : again.length = t.failedRows
  again : ∀ l ∈ again, l.attempt < t.attempt ∧
    (t.Again l ∨ t.committed ≤ l.row ∧ l.row < job.rows ∧ job.sent l.row = true)
  kept : ∀ l ∈ kept, l.attempt ≤ t.attempt ∧ l.row < t.committed ∧ ¬t.Again l
  fresh : ∀ l ∈ fresh, l.attempt = t.attempt ∧ l.row ∈ t.written

structure Inv (job : Job) (t : Transfer) : Prop where
  writes : ∀ w ∈ t.writes, w.attempt ≤ t.attempt
  statement : t.phase = .reading ∨ t.phase = .landing ∨ t.phase = .committing →
    (t.written ++ t.todo).Perm (job.statement t) ∧ ∀ row ∈ t.written, ⟨t.attempt, row⟩ ∈ t.writes
  drained : t.phase = .landing ∨ t.phase = .committing → t.todo = []
  split : ∃ again kept fresh, Split job t again kept fresh ∧ (t.phase = .starting ∨ t.phase = .opening → fresh = []) ∧
    (t.phase = .starting ∨ t.phase = .opening ∨ t.phase = .reading → fresh.length = t.landed)
  takesIn : t.phase ≠ .starting ∧ t.phase ≠ .failed → Landed job t t.run
  settled : (t.phase = .ending ∨ ∃ n, t.phase = .reported n) → ∀ row, t.committed ≤ row → row < job.rows →
    job.sent row = true → job.admits t.run row = true → ⟨t.attempt, row⟩ ∈ t.writes
  reported : ∀ n, t.phase = .reported n → n = t.failedRows

variable {job : Job} {t t' : Transfer} {again kept fresh : List Written}

theorem Transfer.Again.mono {l : Written} (h : t.Again l) (hsub : t.writes ⊆ t'.writes) : t'.Again l := by
  obtain ⟨w, hw, hrest⟩ := h
  exact ⟨w, hsub hw, hrest⟩

/-- When the statement is drained its rows are written. -/
theorem Inv.mem_written (h : Inv job t) (hphase : t.phase = .landing ∨ t.phase = .committing) {row : Nat} :
    row ∈ t.written ↔ row ∈ job.statement t := by
  have hstatement := (h.statement (Or.inr hphase)).1
  rw [h.drained hphase, List.append_nil] at hstatement
  exact hstatement.mem_iff

theorem Inv.written_sub (h : Inv job t) (hphase : t.phase = .reading ∨ t.phase = .landing ∨ t.phase = .committing)
    {row : Nat} (hrow : row ∈ t.written) : row ∈ job.statement t :=
  (h.statement hphase).1.mem_iff.mp (List.mem_append_left _ hrow)

/-! ### Each step -/

theorem Inv.started (h : Inv job t) (hphase : t.phase = .starting) {run : SetUp} (hrun : Landed job t run) :
    Inv job { t with phase := .opening, run } := by
  obtain ⟨again, kept, fresh, hsplit, hnone, hlanded⟩ := h.split
  refine ⟨h.writes, by simp, by simp, ⟨again, kept, fresh, ?_, fun _ => hnone (Or.inl hphase),
    fun _ => hlanded (Or.inl hphase)⟩, fun _ => hrun, by simp, by simp⟩
  exact ⟨hsplit.landings, hsplit.count, hsplit.again, hsplit.kept, hsplit.fresh⟩

theorem Inv.opened (h : Inv job t) (hphase : t.phase = .opening) : Inv job (t.open_ job) := by
  obtain ⟨again, kept, fresh, hsplit, hnone, hlanded⟩ := h.split
  obtain rfl := hnone (Or.inr hphase)
  have hadmits := open_admits job t
  have hread : job.read (t.open_ job) = job.read t := read_congr rfl hadmits
  have hstatement : job.statement (t.open_ job) = job.statement t := congrArg (List.filter job.sent) hread
  refine ⟨h.writes, fun _ => ⟨?_, by simp [Transfer.open_]⟩, by simp [Transfer.open_],
    ⟨again, kept, [], ?_, by simp, ?_⟩, fun _ => ?_, by simp [Transfer.open_], by simp [Transfer.open_]⟩
  · rw [hstatement]
    exact List.Perm.refl _
  · exact ⟨hsplit.landings, hsplit.count, hsplit.again, hsplit.kept, by simp⟩
  · exact fun _ => hlanded (Or.inr (Or.inl hphase))
  · have htakesIn := h.takesIn (by rw [hphase]; exact ⟨nofun, nofun⟩)
    intro l hl hpast hagain
    rw [hadmits]
    exact htakesIn l hl hpast hagain

theorem Inv.inserted (h : Inv job t) (hphase : t.phase = .reading) {batch rest : List Nat}
    (hperm : (batch ++ rest).Perm t.todo) : Inv job (t.insert job batch rest) := by
  obtain ⟨again, kept, fresh, hsplit, _, hlanded⟩ := h.split
  have hstatement := h.statement (Or.inl hphase)
  have hsub : t.writes ⊆ (t.insert job batch rest).writes := List.subset_append_left _ _
  have hbatch : ∀ row ∈ batch, row ∈ job.read t := fun row hrow => (mem_statement.mp
    (hstatement.1.mem_iff.mp (List.mem_append_right _ (hperm.mem_iff.mp (List.mem_append_left _ hrow))))).1
  have hkept : ∀ l ∈ kept, ¬(t.insert job batch rest).Again l := by
    rintro l hl ⟨w, hw, hlater, hrow⟩
    rcases List.mem_append.mp hw with hw | hw
    · exact (hsplit.kept l hl).2.2 ⟨w, hw, hlater, hrow⟩
    · -- what is written now is past the committed chunks
      obtain ⟨row, hmem, rfl⟩ := List.mem_map.mp hw
      have hpast := (mem_read (hbatch row hmem)).1
      have hbefore := (hsplit.kept l hl).2.1
      simp only at hrow
      omega
  have hagain : ∀ l ∈ again, l.attempt < t.attempt ∧
      ((t.insert job batch rest).Again l ∨ t.committed ≤ l.row ∧ l.row < job.rows ∧ job.sent l.row = true) :=
    fun l hl => ⟨(hsplit.again l hl).1, (hsplit.again l hl).2.imp_left fun hit => hit.mono hsub⟩
  have htakesIn : Landed job (t.insert job batch rest) t.run := by
    intro l hl hpast hno
    have hold := h.takesIn (by rw [hphase]; exact ⟨nofun, nofun⟩) l
    unfold Transfer.insert at hl
    dsimp only at hl
    split_ifs at hl
    · rcases List.mem_append.mp hl with hl | hl
      · exact hold hl hpast fun hit => hno (hit.mono hsub)
      · obtain ⟨row, hmem, rfl⟩ := List.mem_map.mp hl
        exact (mem_read (hbatch row hmem)).2.2
    · exact hold hl hpast fun hit => hno (hit.mono hsub)
  refine ⟨?_, fun _ => ⟨?_, ?_⟩, by simp [Transfer.insert, hphase], ?_, fun _ => htakesIn,
    by simp [Transfer.insert, hphase], by simp [Transfer.insert, hphase]⟩
  · intro w hw
    rcases List.mem_append.mp hw with hw | hw
    · exact h.writes w hw
    · obtain ⟨row, _, rfl⟩ := List.mem_map.mp hw
      exact le_refl _
  · have hall : (t.written ++ batch ++ rest).Perm (t.written ++ t.todo) := by
      rw [List.append_assoc]
      exact hperm.append_left _
    exact hall.trans hstatement.1
  · intro row hrow
    rcases List.mem_append.mp hrow with hrow | hrow
    · exact hsub (hstatement.2 row hrow)
    · exact List.mem_append_right _ (List.mem_map_of_mem hrow)
  · have hread : t.phase = .starting ∨ t.phase = .opening ∨ t.phase = .reading := Or.inr (Or.inr hphase)
    by_cases htarget : job.target = .dest
    · refine ⟨again, kept, fresh ++ t.record batch, ⟨?_, hsplit.count, hagain, fun l hl => ?_, fun l hl => ?_⟩,
        by simp [Transfer.insert, hphase], fun _ => ?_⟩
      · simp only [Transfer.insert, htarget, if_true, ← List.append_assoc]
        exact hsplit.landings.append_right _
      · exact ⟨(hsplit.kept l hl).1, (hsplit.kept l hl).2.1, hkept l hl⟩
      · rcases List.mem_append.mp hl with hl | hl
        · exact ⟨(hsplit.fresh l hl).1, List.mem_append_left _ (hsplit.fresh l hl).2⟩
        · obtain ⟨row, hrow, rfl⟩ := List.mem_map.mp hl
          exact ⟨rfl, List.mem_append_right _ hrow⟩
      · simp [Transfer.insert, htarget, Transfer.record, hlanded hread]
    · refine ⟨again, kept, fresh, ⟨?_, hsplit.count, hagain, fun l hl => ?_, fun l hl => ?_⟩,
        by simp [Transfer.insert, hphase], fun _ => ?_⟩
      · simpa only [Transfer.insert, htarget, if_false] using hsplit.landings
      · exact ⟨(hsplit.kept l hl).1, (hsplit.kept l hl).2.1, hkept l hl⟩
      · exact ⟨(hsplit.fresh l hl).1, List.mem_append_left _ (hsplit.fresh l hl).2⟩
      · simpa [Transfer.insert, htarget] using hlanded hread

theorem Inv.drain (h : Inv job t) (hphase : t.phase = .reading) (htodo : t.todo = []) :
    Inv job { t with phase := .landing } := by
  obtain ⟨again, kept, fresh, hsplit, _⟩ := h.split
  refine ⟨h.writes, fun _ => h.statement (Or.inl hphase), fun _ => htodo, ⟨again, kept, fresh, ?_, by simp, by simp⟩,
    fun _ => h.takesIn (by rw [hphase]; exact ⟨nofun, nofun⟩), by simp, by simp⟩
  exact ⟨hsplit.landings, hsplit.count, hsplit.again, hsplit.kept, hsplit.fresh⟩

/-- The staged rows reach the destination; what was fresh is so still, and they with it. -/
theorem Inv.promote_split (h : Inv job t) :
    ∃ again kept fresh, Split job (t.promote job) again kept fresh := by
  obtain ⟨again, kept, fresh, hsplit, _⟩ := h.split
  unfold Transfer.promote
  cases job.target with
  | dest => exact ⟨again, kept, fresh, hsplit⟩
  | staging how =>
    refine ⟨again, kept, fresh ++ t.record t.written, ?_, hsplit.count, hsplit.again, hsplit.kept, fun l hl => ?_⟩
    · rw [← List.append_assoc]
      exact hsplit.landings.append_right _
    · rcases List.mem_append.mp hl with hl | hl
      · exact hsplit.fresh l hl
      · obtain ⟨row, hrow, rfl⟩ := List.mem_map.mp hl
        exact ⟨rfl, hrow⟩

/-- They were read by the attempt. -/
theorem Inv.promote_takesIn (h : Inv job t) (hphase : t.phase = .landing) : Landed job (t.promote job) t.run := by
  have hold := h.takesIn (by rw [hphase]; exact ⟨nofun, nofun⟩)
  unfold Transfer.promote
  cases job.target with
  | dest => exact hold
  | staging how =>
    intro l hl hpast hno
    rcases List.mem_append.mp hl with hl | hl
    · exact hold l hl hpast hno
    · obtain ⟨row, hrow, rfl⟩ := List.mem_map.mp hl
      exact (mem_read (mem_statement.mp (h.written_sub (Or.inr (Or.inl hphase)) hrow)).1).2.2

theorem Inv.promoted (h : Inv job t) (hphase : t.phase = .landing) :
    Inv job { t.promote job with phase := if job.chunked ∧ job.read t ≠ [] then .committing else .ending } := by
  obtain ⟨again, kept, fresh, hsplit⟩ := h.promote_split
  have htakesIn := h.promote_takesIn hphase
  have hattempt : (t.promote job).attempt = t.attempt := by unfold Transfer.promote; split <;> rfl
  have hwrites : (t.promote job).writes = t.writes := by unfold Transfer.promote; split <;> rfl
  have hwritten : (t.promote job).written = t.written := by unfold Transfer.promote; split <;> rfl
  have htodo : (t.promote job).todo = t.todo := by unfold Transfer.promote; split <;> rfl
  have hcommitted : (t.promote job).committed = t.committed := by unfold Transfer.promote; split <;> rfl
  have hrun : (t.promote job).run = t.run := by unfold Transfer.promote; split <;> rfl
  have hbegun : ∀ {c : Prop} [Decidable c] {p : Phase}, p = .starting ∨ p = .opening ∨ p = .reading →
      (if c then Phase.committing else .ending) ≠ p := by
    rintro c _ p (rfl | rfl | rfl) <;> split_ifs <;> exact nofun
  refine ⟨?_, fun _ => ?_, fun _ => ?_, ⟨again, kept, fresh, ?_, fun hno => ?_, fun hno => ?_⟩, fun _ => ?_,
    fun hend => ?_, fun n hn => ?_⟩
  · rw [hwrites, hattempt]
    exact h.writes
  · have hread : job.read { t.promote job with
        phase := if job.chunked ∧ job.read t ≠ [] then .committing else .ending } = job.read t :=
      read_congr hcommitted (congrArg job.admits hrun)
    have hstatement := congrArg (List.filter job.sent) hread
    unfold Job.statement
    rw [hstatement, hwritten, htodo, hattempt, hwrites]
    exact h.statement (Or.inr (Or.inl hphase))
  · rw [htodo]
    exact h.drained (Or.inl hphase)
  · exact ⟨hsplit.landings, hsplit.count, hsplit.again, hsplit.kept, hsplit.fresh⟩
  · rcases hno with hno | hno
    · exact absurd hno (hbegun (Or.inl rfl))
    · exact absurd hno (hbegun (Or.inr (Or.inl rfl)))
  · rcases hno with hno | hno | hno
    · exact absurd hno (hbegun (Or.inl rfl))
    · exact absurd hno (hbegun (Or.inr (Or.inl rfl)))
    · exact absurd hno (hbegun (Or.inr (Or.inr rfl)))
  · rw [hrun]
    exact htakesIn
  · have hlast : ¬(job.chunked ∧ job.read t ≠ []) := by
      intro hmore
      simp [hmore] at hend
    intro row hfrom hrows hsent hadmits
    rw [hcommitted] at hfrom
    rw [hrun] at hadmits
    rw [hattempt, hwrites]
    refine (h.statement (Or.inr (Or.inl hphase))).2 row ((h.mem_written (Or.inl hphase)).mpr ?_)
    refine mem_statement.mpr ⟨mem_read_of_admits hfrom hrows hadmits ?_, hsent⟩
    intro c saved marker resumed hreading
    right
    have hnothing : job.read t = [] := by
      by_contra hsome
      exact hlast ⟨by unfold Job.chunked; rw [hreading], hsome⟩
    rw [hnothing]
    exact c.limit_pos
  · dsimp only at hn
    split_ifs at hn

theorem Inv.committed (h : Inv job t) (hphase : t.phase = .committing) {c : ChunkedTransfer}
    {saved : Option CursorText} {marker : Option ChunkMarker} {resumed last : Nat} {r : ChunkRun}
    (hreading : job.reading = .chunks c saved marker resumed) (hrun : t.run = .chunks r)
    (hlast : (job.read t).getLast? = some last) (secs : F64) : Inv job (t.commit job c r last secs) := by
  obtain ⟨again, kept, fresh, hsplit, _⟩ := h.split
  have hadmits : job.admits (t.commit job c r last secs).run = job.admits t.run := by
    rw [hrun]
    exact admits_chunks job rfl
  have htakesIn := h.takesIn (by rw [hphase]; exact ⟨nofun, nofun⟩)
  have hpast : t.committed ≤ last := (mem_read (List.mem_of_getLast? hlast)).1
  have hphase' : ∀ {p : Phase}, p ≠ .ending → p ≠ .opening → (t.commit job c r last secs).phase ≠ p := by
    intro p hending hopening
    unfold Transfer.commit
    dsimp only
    split_ifs
    · exact hending.symm
    · exact hopening.symm
  -- what is admitted of the rows up to the last is read
  have hread : ∀ row, t.committed ≤ row → row ≤ last → job.admits t.run row = true → row ∈ job.read t := by
    intro row hfrom hle hrow
    have hlt := (mem_read (List.mem_of_getLast? hlast)).2.1
    exact mem_read_of_admits hfrom (by omega) hrow fun _ _ _ _ _ => Or.inl ⟨last, hlast, hle⟩
  refine ⟨h.writes, ?_, ?_, ⟨again, kept ++ fresh, [], ⟨?_, hsplit.count, fun l hl => ⟨(hsplit.again l hl).1, ?_⟩,
    fun l hl => ?_, by simp⟩, fun _ => rfl, fun _ => rfl⟩, fun _ => ?_, fun hend => ?_, fun n hn => ?_⟩
  · rintro (hno | hno | hno) <;> exact absurd hno (hphase' nofun nofun)
  · rintro (hno | hno) <;> exact absurd hno (hphase' nofun nofun)
  · rw [List.append_nil, ← List.append_assoc]
    exact hsplit.landings
  · -- a row of the chunk has been written, so a row counted before has been written again
    by_cases hit : t.Again l
    · exact Or.inl hit
    obtain ⟨hfrom, hrows, hsent⟩ := (hsplit.again l hl).2.resolve_left hit
    have hmem : l ∈ t.landings :=
      hsplit.landings.mem_iff.mpr (List.mem_append_left _ (List.mem_append_left _ hl))
    by_cases hchunk : l.row ≤ last
    · have hrow := (h.mem_written (Or.inr hphase)).mpr
        (mem_statement.mpr ⟨hread l.row hfrom hchunk (htakesIn l hmem hfrom hit), hsent⟩)
      exact Or.inl ⟨_, (h.statement (Or.inr (Or.inr hphase))).2 l.row hrow, (hsplit.again l hl).1, rfl⟩
    · exact Or.inr ⟨Nat.lt_of_not_le hchunk, hrows, hsent⟩
  · rcases List.mem_append.mp hl with hl | hl
    · exact ⟨(hsplit.kept l hl).1, Nat.lt_succ_of_le ((hsplit.kept l hl).2.1.le.trans hpast), (hsplit.kept l hl).2.2⟩
    · obtain ⟨hattempt, hrow⟩ := hsplit.fresh l hl
      have hrow := (mem_statement.mp ((h.mem_written (Or.inr hphase)).mp hrow)).1
      refine ⟨hattempt.le, Nat.lt_succ_of_le (le_last hreading hlast hrow), ?_⟩
      rintro ⟨w, hw, hlater, _⟩
      have hno : w.attempt ≤ t.attempt := h.writes w hw
      omega
  · intro l hl hfrom hit
    rw [hadmits]
    exact htakesIn l hl (hpast.trans (Nat.le_of_succ_le hfrom)) hit
  · intro row hfrom hrows _ hrow
    rw [hadmits] at hrow
    have hshort : (job.read t).length < c.limit := by
      by_contra hfull
      simp [Transfer.commit, hfull] at hend
    have hfrom : last + 1 ≤ row := hfrom
    have hmem := mem_read_of_admits (by omega) hrows hrow fun c' _ _ _ hreading' => by
      rw [hreading] at hreading'
      cases hreading'
      exact Or.inr hshort
    have := le_last hreading hlast hmem
    omega
  · exact absurd hn (hphase' nofun nofun)

theorem Inv.ended (h : Inv job t) (hphase : t.phase = .ending) :
    Inv job { t with phase := .reported t.failedRows } := by
  obtain ⟨again, kept, fresh, hsplit, _⟩ := h.split
  refine ⟨h.writes, by simp, by simp, ⟨again, kept, fresh, ?_, by simp, by simp⟩,
    fun _ => h.takesIn (by rw [hphase]; exact ⟨nofun, nofun⟩), fun _ => h.settled (Or.inl hphase),
    fun n hn => (Phase.reported.inj hn).symm⟩
  exact ⟨hsplit.landings, hsplit.count, hsplit.again, hsplit.kept, hsplit.fresh⟩

theorem Inv.fails (h : Inv job t) : Inv job { t with phase := .failed } := by
  obtain ⟨again, kept, fresh, hsplit, _⟩ := h.split
  refine ⟨h.writes, by simp, by simp, ⟨again, kept, fresh, ?_, by simp, by simp⟩, by simp, by simp, by simp⟩
  exact ⟨hsplit.landings, hsplit.count, hsplit.again, hsplit.kept, hsplit.fresh⟩

/-- What the failed attempt landed past the committed chunks is what it adds to the count. -/
theorem Inv.retry (h : Inv job t) (hphase : t.phase = .starting ∨ t.phase = .opening ∨ t.phase = .reading) :
    Inv job (t.retry job) := by
  unfold Transfer.retry
  by_cases hmore : t.attempt < max 1 job.retryMaxAttempts
  case neg =>
    rw [if_neg hmore]
    exact h.fails
  case pos =>
    rw [if_pos hmore]
    obtain ⟨again, kept, fresh, hsplit, hnone, hlanded⟩ := h.split
    refine ⟨fun w hw => Nat.le_succ_of_le (h.writes w hw), by simp, by simp,
      ⟨again ++ fresh, kept, [], ⟨?_, ?_, fun l hl => ?_, fun l hl => ?_, by simp⟩, fun _ => rfl, fun _ => rfl⟩,
      by simp, by simp, by simp⟩
    · classical
      refine hsplit.landings.trans ?_
      rw [List.perm_iff_count]
      intro l
      simp only [List.count_append, List.count_nil]
      omega
    · rw [List.length_append, hsplit.count, hlanded hphase]
    · rcases List.mem_append.mp hl with hl | hl
      · exact ⟨Nat.lt_succ_of_lt (hsplit.again l hl).1, (hsplit.again l hl).2⟩
      · have hreading : t.phase = .reading := by
          by_contra hno
          rw [hnone (by tauto)] at hl
          cases hl
        obtain ⟨hattempt, hrow⟩ := hsplit.fresh l hl
        have hmem := mem_statement.mp (h.written_sub (Or.inl hreading) hrow)
        obtain ⟨hfrom, hrows, -⟩ := mem_read hmem.1
        exact ⟨hattempt ▸ Nat.lt_succ_self _, Or.inr ⟨hfrom, hrows, hmem.2⟩⟩
    · exact ⟨Nat.le_succ_of_le (hsplit.kept l hl).1, (hsplit.kept l hl).2⟩

theorem Inv.step (h : Inv job t) {e : Event} (htakesIn : TakesIn job t e) (hstep : Retries.step job t e = some t') :
    Inv job t' := by
  cases e with
  | started probe =>
    obtain ⟨hphase, ht⟩ := Option.ite_none_right_eq_some.mp hstep
    obtain ⟨run, hrun, rfl⟩ := Option.map_eq_some_iff.mp ht
    exact h.started hphase (htakesIn run hrun)
  | opened =>
    obtain ⟨hphase, ht⟩ := Option.ite_none_right_eq_some.mp hstep
    exact Option.some.inj ht ▸ h.opened hphase
  | inserted batch rest =>
    obtain ⟨⟨hphase, hperm⟩, ht⟩ := Option.ite_none_right_eq_some.mp hstep
    exact Option.some.inj ht ▸ h.inserted hphase hperm
  | drained =>
    obtain ⟨⟨hphase, htodo⟩, ht⟩ := Option.ite_none_right_eq_some.mp hstep
    exact Option.some.inj ht ▸ h.drain hphase htodo
  | promoted =>
    obtain ⟨hphase, ht⟩ := Option.ite_none_right_eq_some.mp hstep
    exact Option.some.inj ht ▸ h.promoted hphase
  | chunkCommitted secs =>
    unfold Retries.step at hstep
    dsimp only at hstep
    split at hstep
    case h_1 c saved marker resumed r last hphase hreading hrun hlast =>
      exact Option.some.inj hstep ▸ h.committed hphase hreading hrun hlast secs
    case h_2 => cases hstep
  | ended =>
    obtain ⟨hphase, ht⟩ := Option.ite_none_right_eq_some.mp hstep
    exact Option.some.inj ht ▸ h.ended hphase
  | sourceFails =>
    obtain ⟨hphase, ht⟩ := Option.ite_none_right_eq_some.mp hstep
    exact Option.some.inj ht ▸ h.retry hphase
  | fails =>
    unfold Retries.step at hstep
    dsimp only at hstep
    split at hstep
    · cases hstep
    · cases hstep
    · exact Option.some.inj hstep ▸ h.fails

theorem inv_first (job : Job) : Inv job job.first := by
  have hfresh : job.first.phase = .starting ∧ job.first.landed = 0 ∧ job.first.failedRows = 0 ∧
      job.first.landings = [] ∧ job.first.writes = [] := by
    unfold Job.first
    split <;> exact ⟨rfl, rfl, rfl, rfl, rfl⟩
  obtain ⟨hphase, hlanded, hfailed, hlandings, hwrites⟩ := hfresh
  refine ⟨by simp [hwrites], by simp [hphase], by simp [hphase], ⟨[], [], [], ?_, fun _ => rfl, fun _ => hlanded.symm⟩,
    by simp [hphase], by simp [hphase], by simp [hphase]⟩
  exact ⟨by rw [hlandings]; exact List.Perm.refl _, hfailed.symm, by simp, by simp, by simp⟩

/-- The report counts the rows that failed attempts put into the destination and a later attempt wrote again. -/
theorem failed_rows_are_written_again (job : Job) (es : List Event) (t : Transfer) (n : Nat)
    (hexec : exec (step job) job.first es = some t) (htakesIn : Along (step job) (TakesIn job) job.first es)
    (hreported : t.phase = .reported n) :
    n = (t.landings.filter fun l => ∃ w ∈ t.writes, l.attempt < w.attempt ∧ w.row = l.row).length := by
  have h : Inv job t :=
    exec_invariant_along (fun _ _ _ hinv htakesIn hstep => hinv.step htakesIn hstep) (inv_first job) htakesIn hexec
  obtain ⟨again, kept, fresh, hsplit, _⟩ := h.split
  have hlanded := h.takesIn (by rw [hreported]; exact ⟨nofun, nofun⟩)
  have hagain : ∀ l ∈ again, t.Again l := by
    intro l hl
    by_contra hno
    obtain ⟨hearlier, hit⟩ := hsplit.again l hl
    obtain ⟨hfrom, hrows, hsent⟩ := hit.resolve_left hno
    have hmem : l ∈ t.landings :=
      hsplit.landings.mem_iff.mpr (List.mem_append_left _ (List.mem_append_left _ hl))
    have hadmits := hlanded l hmem hfrom hno
    exact hno ⟨_, h.settled (Or.inr ⟨n, hreported⟩) l.row hfrom hrows hsent hadmits, hearlier, rfl⟩
  have hfresh : ∀ l ∈ fresh, ¬t.Again l := by
    rintro l hl ⟨w, hw, hlater, _⟩
    have hattempt := (hsplit.fresh l hl).1
    have hw := h.writes w hw
    omega
  have hcount : (t.landings.filter fun l => t.Again l).length = again.length := by
    rw [(hsplit.landings.filter _).length_eq, List.filter_append, List.filter_append,
      List.filter_eq_self.mpr (fun l hl => decide_eq_true (hagain l hl)),
      List.filter_eq_nil_iff.mpr (fun l hl => by simpa using (hsplit.kept l hl).2.2),
      List.filter_eq_nil_iff.mpr (fun l hl => by simpa using hfresh l hl), List.append_nil, List.append_nil]
  rw [h.reported n hreported, ← hsplit.count, ← hcount]
  rfl

/-! ### Two runs -/

/-- Orders in chunks, with a lookback of ten seconds. -/
def ordersInChunks (limit : Nat) (hlimit : 0 < limit) : ChunkedTransfer :=
  { ordersByOne false with
    cfg := { (ordersByOne false).cfg with chunkRows := some limit, lookbackSeconds := 10 }
    incremental := rfl
    limit
    chunkRows := rfl
    limit_pos := hlimit }

/-- Chunks of two rows of three, straight into the destination. -/
def chunkedJob : Job where
  destTable := "orders"
  rows := 3
  watermark row := some (row * 1000000)
  sent _ := true
  reading := .chunks (ordersInChunks 2 Nat.two_pos) none none 0
  target := .dest
  retryMaxAttempts := 3

/-- The first attempt fails within the first chunk, the second after it has committed it.  The MAX is probed. -/
def threeAttempts : List Event :=
  [.started .max, .opened, .inserted [1] [0], .sourceFails, .started .max, .opened, .inserted [0, 1] [], .drained,
    .promoted, .chunkCommitted .zero, .opened, .inserted [2] [], .sourceFails, .started .max, .opened,
    .inserted [2] [], .drained, .promoted, .chunkCommitted .zero, .ended]

theorem failed_rows_are_written_again_chunked : ∃ t, exec (step chunkedJob) chunkedJob.first threeAttempts = some t ∧
    t.phase = .reported 2 ∧
    2 = (t.landings.filter fun l => ∃ w ∈ t.writes, l.attempt < w.attempt ∧ w.row = l.row).length := by
  have hrun : ∃ t, exec (step chunkedJob) chunkedJob.first threeAttempts = some t ∧ t.phase = .reported 2 :=
    ⟨((exec (step chunkedJob) chunkedJob.first threeAttempts).getD chunkedJob.first), by decide +kernel⟩
  have htakesIn : Along (step chunkedJob) (TakesIn chunkedJob) chunkedJob.first threeAttempts := by decide +kernel
  obtain ⟨t, hexec, hreported⟩ := hrun
  exact ⟨t, hexec, hreported, failed_rows_are_written_again chunkedJob threeAttempts t 2 hexec htakesIn hreported⟩

/-- Chunks of a row, of watermarks of five and of eight seconds. -/
def streamedJob : Job where
  destTable := "orders"
  rows := 2
  watermark row := some (5000000 + 3000000 * row)
  sent _ := true
  reading := .chunks (ordersInChunks 1 Nat.one_pos) none none 0
  target := .dest
  retryMaxAttempts := 2

/-- The MAX is not probed, so the first chunk's marker records five seconds.  The second row is landed, and the source
fails: the next attempt is held to the marker's bound. -/
def heldToTheMarker : List Event :=
  [.started .skipped, .opened, .inserted [0] [], .drained, .promoted, .chunkCommitted .zero, .opened, .inserted [1] [],
    .sourceFails, .started .skipped, .opened, .drained, .promoted, .ended]

theorem failed_row_not_written_again : ∃ t, exec (step streamedJob) streamedJob.first heldToTheMarker = some t ∧
    t.phase = .reported 1 ∧
    (t.landings.filter fun l => ∃ w ∈ t.writes, l.attempt < w.attempt ∧ w.row = l.row) = [] :=
  ⟨((exec (step streamedJob) streamedJob.first heldToTheMarker).getD streamedJob.first), by decide +kernel⟩

end Quickhouse.Retries
