import Quickhouse.Lib.Binary64
import Mathlib.Data.List.Basic

/-!
# The transfer configuration and its validation

`TransferConfig` holds the options of one table transfer that the modelled functions read.  `validateWith`
makes the checks of the source in its order, with its texts; the lemmas at the end say what an accepted
configuration guarantees to the later steps.
-/

namespace Quickhouse

open Binary64

inductive SyncMode where
  | full
  | incremental
  | append
deriving DecidableEq, Repr

/-- Whether a run in this mode reads past a saved cursor and saves a new one. -/
def SyncMode.keepsCursor : SyncMode → Bool
  | .full => false
  | .incremental | .append => true

inductive WatermarkSeed where
  | none
  | value (v : String)
  | currentMax
deriving DecidableEq, Repr

inductive SourceShape where
  | db
  | api
  | frame
deriving DecidableEq, Repr

def SourceShape.label : SourceShape → String
  | .db => "a database source"
  | .api => "an API source"
  | .frame => "a DataFrame source"

inductive DestKind where
  | clickHouse
  | bigQuery
  | csv
deriving DecidableEq, Repr

/-- What a warning is about; every condition here is one the transfer recovers from on its own. -/
inductive WarningKind where
  | collapsedBool
  | coercedDate
  | coercedDecimal
  | coercedScalar
  | nullWatermark
  | nullKey
  | nullDefaulted
  | fullRefreshShrink
  | unindexedWatermark
  | unclusteredMergeTarget
  | ignoredSourceArchive
  | incompleteExport
  | decimalMappingMixed
  | watermarkNotAdvanced
  | watermarkAheadOfSource
  | shiftedTimestamp
  | windowBoundsUnavailable
  | nullCheckSkipped
  | retriedAfterPartialWrite
  | storageWriteCountMismatch
  | unsourcedDestinationColumn
  | abandonedResumeMarker
  | droppedSourceColumn
  | recreatedDestination
  | nonReplacingIncrementalTarget
  | ignoredTypeOverride
deriving DecidableEq, Repr

/-- A map from column names to strings: no name twice. -/
structure StringMap where
  entries : List (String × String) := []
  nodup : (entries.map Prod.fst).Nodup := by decide

def StringMap.empty : StringMap := {}

/-- The value of `k`, if the map has one. -/
def StringMap.get (m : StringMap) (k : String) : Option String := m.entries.lookup k

structure TransferConfig where
  sourceTable : Option String := none
  sourceQuery : Option String := none
  destTable : String
  stateKey : Option String := none
  mode : SyncMode
  watermark : Option String := none
  watermarkSourceExpr : Option String := none
  lookbackSeconds : Nat := 0
  seedWatermark : WatermarkSeed := .none
  advanceWatermark : Bool := true
  key : List String := []
  createIfMissing : Bool := true
  orderBy : List String := []
  primaryKey : List String := []
  notNull : List String := []
  engine : Option String := none
  mergePrunePartitionBy : Option String := none
  mergePruneKeyRange : Bool := true
  mergePruneKeyListMax : Nat := 0
  deleteStaleInWindow : Bool := false
  parallelism : Nat := 1
  batchRows : Nat := 65536
  maxMemoryFraction : F64 := .ofNat 0
  maxMemoryBytes : Nat := 0
  partitionColumn : Option String := none
  partitionSourceExpr : Option String := none
  readMaxRowsPerSec : Option Nat := none
  readIdleTimeoutSecs : Nat := 0
  chunkRows : Option Nat := none
  keysetNotNull : Bool := false
  retryMaxAttempts : Nat := 1
  failOnWarnings : List WarningKind := []
  readWindowRows : Option Nat := none
  windowTargetSecs : Option F64 := none
  windowed : Bool := false
  windowBounds : Option (Int × Int) := none
  columnTransforms : StringMap := .empty
  columnTransformTypes : StringMap := .empty
  typeOverrides : StringMap := .empty
  numericAsDecimal : Option String := none
  rename : StringMap := .empty
  «include» : List String := []
  exclude : List String := []

namespace TransferConfig

/-- Identity of the persisted watermark row: the source table, else the query text, unless overridden. -/
def effectiveStateKey (cfg : TransferConfig) : String :=
  ((cfg.stateKey.or cfg.sourceTable).or cfg.sourceQuery).getD ""

/-- The keyset ordering column of a chunked read: the partition column, else the first key column. -/
def keysetColumn (cfg : TransferConfig) : Option String :=
  cfg.partitionColumn.or cfg.key.head?

def windowedRead (cfg : TransferConfig) : Bool := cfg.windowed || cfg.windowBounds.isSome

def effectiveEngine (cfg : TransferConfig) : String :=
  cfg.engine.getD (match cfg.mode with
    | .full | .append => "MergeTree"
    | .incremental => "ReplacingMergeTree")

/-- The name a source column lands under. -/
def landed (cfg : TransferConfig) (column : String) : String := (cfg.rename.get column).getD column

/-! ### Validation -/

/-- Refuse the configuration with `message` when `condition` holds. -/
def refuse (condition : Prop) [Decidable condition] (message : String) : Except String Unit :=
  if condition then .error message else .ok ()

/-- Make the checks of `validate` only where `condition` holds. -/
def onlyIf (condition : Prop) [Decidable condition] (validate : Except String Unit) : Except String Unit :=
  if condition then validate else .ok ()

/-- The knobs that mean nothing when the source is a frame already in memory. -/
def validateFrameOnly (cfg : TransferConfig) : Except String Unit := do
  refuse (cfg.sourceTable.isSome ∨ cfg.sourceQuery.isSome)
    ("source_table/source_query do not apply to a DataFrame source: it reads the frame you passed, not a " ++
      "table or a query. Filter the frame itself before handing it over.")
  refuse (cfg.partitionSourceExpr.isSome ∨ cfg.watermarkSourceExpr.isSome)
    ("partition_source_expr/watermark_source_expr do not apply to a DataFrame source: there is no source " ++
      "query for an expression to resolve against.")
  refuse cfg.partitionColumn.isSome
    ("partition_column does not apply to a DataFrame source: the frame is decoded single-stream from its " ++
      "own Arrow batches, so there is no range to split.")
  refuse cfg.readMaxRowsPerSec.isSome
    ("read_max_rows_per_sec does not apply to a DataFrame source: there is no source server to be gentle " ++
      "to — the rows are already in memory.")
  refuse (0 < cfg.readIdleTimeoutSecs)
    "read_idle_timeout_secs does not apply to a DataFrame source: there is no source stream that can stall."
  refuse (cfg.seedWatermark ≠ .none ∨ ¬ cfg.advanceWatermark)
    ("seed_watermark/advance_watermark do not apply to a DataFrame source: it has no resumable cursor to " ++
      "seed or advance.")
  refuse (1 < cfg.retryMaxAttempts)
    ("retry_max_attempts does not apply to a DataFrame source: a whole-transfer retry exists to re-read a " ++
      "source that failed transiently, and there is nothing to re-read — the bytes are already in memory, " ++
      "so a retry would only redo the DDL. Destination blips are already retried at the insert layer.")

/-- What everything that is not a database read shares: no SQL for a transform, no cursor to chunk or widen. -/
def validateNotDb (cfg : TransferConfig) (noun : String) : Except String Unit := do
  refuse (cfg.columnTransforms.entries ≠ [])
    ("column_transforms is not supported for " ++ noun ++
      " (there is no source SQL for the expression to live in)")
  refuse (cfg.columnTransformTypes.entries ≠ [])
    ("column_transform_types is not supported for " ++ noun ++ (" (it overrides the decode type for a " ++
      "column_transforms entry, which is itself unsupported here)"))
  refuse cfg.chunkRows.isSome ("chunk_rows (keyset resumable reads) is not supported for " ++ noun)
  refuse (0 < cfg.lookbackSeconds) ("lookback_seconds is not supported for " ++ noun)
  refuse cfg.windowedRead
    ("windowed=True and window_bounds (a sweep of key windows) are not supported for " ++ noun)

/-- The window sweep asked for: single-stream, over an integer key, part of the incremental read. -/
def validateWindowed (cfg : TransferConfig) : Except String Unit := do
  refuse (cfg.windowedRead ∧ cfg.mode ≠ .incremental)
    ("windowed=True and window_bounds only apply to incremental mode: the sweep is part of the incremental " ++
      "read, and a full refresh replaces the whole destination with what it reads, which window_bounds would " ++
      "cut down to its range")
  refuse (cfg.windowedRead ∧ cfg.chunkRows.isSome)
    ("windowed=True and window_bounds are not supported together with chunk_rows: a chunked read already " ++
      "bounds each statement through its own keyset loop, which a sweep would bypass. Pick one: chunk_rows " ++
      "resumes after its last chunk when a run fails, and a sweep halves a window the source cancels")
  refuse (cfg.windowedRead ∧ 1 < cfg.parallelism)
    ("windowed=True and window_bounds read single-stream, one key window after another, so parallelism=" ++
      toString cfg.parallelism ++ " can't apply: leave it at 0 or set it to 1")
  refuse (cfg.windowedRead ∧ cfg.partitionSourceExpr.isSome)
    ("windowed=True and window_bounds read single-stream, so partition_source_expr, which splits a " ++
      "source_query into parallel range partitions, can't apply: drop it")
  refuse (cfg.windowedRead ∧ cfg.keysetColumn.isNone)
    ("windowed=True and window_bounds sweep windows of a key: set partition_column, or key (an integer " ++
      "column an index serves, such as the primary key)")
  refuse (cfg.windowedRead ∧ cfg.readWindowRows = some 0)
    ("read_window_rows=0 turns the windowed read off, so it can't be combined with windowed=True or " ++
      "window_bounds")

/-- The bounds of a sweep asked for must not be empty, move the cursor or scope a delete. -/
def validateWindowBounds (cfg : TransferConfig) : Except String Unit :=
  match cfg.windowBounds with
  | none => .ok ()
  | some (lo, hi) => do
    refuse (hi < lo)
      ("window_bounds=(" ++ toString lo ++ ", " ++ toString hi ++ ") is empty: lo can't be greater than hi")
    refuse cfg.advanceWatermark
      ("window_bounds needs advance_watermark=False: the bounds are the range the run reads, and the cursor " ++
        "it computes is the source's MAX(watermark), past every row outside them, which it never read")
    refuse cfg.deleteStaleInWindow
      ("window_bounds is not supported together with delete_stale_in_window: the delete removes the " ++
        "destination rows in its window that the run didn't stage, and a run reads only the rows inside the " ++
        "bounds")

/-- The text that refuses a delete whose read is filtered on another column than its window. -/
def deleteStaleMessage (cfg : TransferConfig) (window watermark : String) : String :=
  let renamed := if cfg.landed watermark = watermark then ""
    else ", renamed to '" ++ cfg.landed watermark ++ "'"
  let wanted := ((cfg.rename.entries.find? (·.2 = window)).map Prod.fst).getD window
  "delete_stale_in_window needs watermark to be the merge_prune_partition_by column '" ++ window ++
    "', not '" ++ watermark ++ "'" ++ renamed ++
    ": the delete removes the destination rows in the staged batch's range of '" ++ window ++
    "' that the batch doesn't hold, and a read filtered on another column holds only the rows that " ++
    "changed, so it would delete rows the source still has. Set watermark='" ++ wanted ++
    "', a lookback_seconds that covers how long a row can still change or be deleted, and a state_key of " ++
    "its own (its cursor is on '" ++ window ++ "', so it can't share one with a sync on another column)"

/-- The delete of stale rows needs a batch that holds every source row in its range of the window column. -/
def validateDeleteStale (cfg : TransferConfig) (shape : SourceShape) : Except String Unit := do
  refuse (cfg.mode ≠ .incremental) "delete_stale_in_window only applies to incremental mode"
  refuse cfg.mergePrunePartitionBy.isNone
    ("delete_stale_in_window requires merge_prune_partition_by (the immutable window column to scope the " ++
      "DELETE); without it, WHEN NOT MATCHED BY SOURCE would delete the ENTIRE destination history outside " ++
      "the current batch")
  refuse cfg.chunkRows.isSome
    ("delete_stale_in_window is not supported together with chunk_rows: it deletes the destination rows in " ++
      "the window that the staged batch doesn't hold, and each chunk holds only part of the window, so every " ++
      "chunk would delete the rows the others land")
  let window := cfg.mergePrunePartitionBy.getD ""
  let watermark := cfg.watermark.getD ""
  refuse (shape ≠ .frame ∧ cfg.landed watermark ≠ window) (cfg.deleteStaleMessage window watermark)
  refuse cfg.watermarkSourceExpr.isSome
    ("delete_stale_in_window is not supported together with watermark_source_expr: the delete needs the " ++
      "read to return every row past the cursor on the window column '" ++ window ++
      "', and watermark_source_expr filters on an expression instead, which quickhouse can't tell is that " ++
      "column. Drop it, so the read filters on '" ++ window ++ "' itself")

/-- The checks on sizes and on the options of a chunked read. -/
def validateSizes (cfg : TransferConfig) : Except String Unit := do
  refuse (cfg.maxMemoryFraction.lt (.ofNat 0) ∨ (F64.ofNat 1).lt cfg.maxMemoryFraction)
    "max_memory_fraction must be between 0.0 (use max_memory_bytes as given) and 1.0"
  refuse (cfg.batchRows = 0) "batch_rows must be >= 1"
  refuse (cfg.maxMemoryBytes ≠ 0 ∧ cfg.maxMemoryBytes < 64 * 1024)
    "max_memory_bytes must be 0 (unbounded) or >= 65536"
  refuse (cfg.readMaxRowsPerSec = some 0) "read_max_rows_per_sec must be None (unlimited) or >= 1"
  refuse (cfg.chunkRows = some 0) "chunk_rows must be None (one-shot) or >= 1"
  refuse (cfg.chunkRows.isSome ∧ cfg.mode ≠ .incremental)
    "chunk_rows (keyset resumable reads) only applies to incremental mode"
  refuse (cfg.keysetNotNull ∧ (cfg.chunkRows.isNone ∨ cfg.sourceQuery.isNone))
    ("keyset_not_null only applies to chunk_rows with a source_query (with source_table, quickhouse reads " ++
      "the keyset column's NOT NULL constraint itself)")
  refuse (cfg.chunkRows.isSome ∧ cfg.keysetColumn.isNone)
    ("chunk_rows requires a keyset ordering column: set partition_column or key (it must be a UNIQUE, NOT " ++
      "NULL integer column, or ties silently skip rows)")

/-- What each mode needs, and the options it has no use for. -/
def validateMode (cfg : TransferConfig) (shape : SourceShape) (dbAppendAllowed : Bool) :
    Except String Unit := do
  refuse (cfg.mode ≠ .full ∧ cfg.watermark.isNone ∧ shape ≠ .frame)
    "watermark column is required for incremental and append mode (it drives the resumable date window)"
  refuse (shape = .frame ∧ cfg.mode = .incremental ∧ cfg.key = [] ∧ cfg.watermark.isNone)
    ("incremental from a DataFrame upserts on key= alone, so key is required: key=[\"id\"]. There is no " ++
      "watermark to resume from — the frame you passed IS the delta. (Pass watermark= as well if you want " ++
      "it used as the version column for dedup ordering.)")
  refuse (0 < cfg.lookbackSeconds ∧ cfg.mode ≠ .incremental)
    "lookback_seconds only applies to incremental mode"
  refuse (cfg.mode = .append ∧ shape = .db ∧ ¬ dbAppendAllowed)
    ("append mode is currently supported only for HTTP API sources (CleverTap/AppsFlyer/HttpApi), DataFrame " ++
      "sources, and a database source into a CSV destination")
  onlyIf (shape = .frame) cfg.validateFrameOnly
  refuse (cfg.seedWatermark ≠ .none ∧ ¬ cfg.mode.keepsCursor)
    "seed_watermark only applies to incremental or append mode"
  refuse (¬ cfg.advanceWatermark ∧ ¬ cfg.mode.keepsCursor)
    "advance_watermark=false only applies to incremental or append mode"
  refuse (0 < cfg.lookbackSeconds ∧ cfg.key = [] ∧ cfg.orderBy = [])
    ("lookback_seconds requires key or order_by (otherwise the re-synced overlap window produces duplicate " ++
      "rows instead of an upsert)")

def validateWith (cfg : TransferConfig) (shape : SourceShape) (dbAppendAllowed : Bool) :
    Except String Unit := do
  refuse (shape = .db ∧ cfg.sourceTable.isNone ∧ cfg.sourceQuery.isNone)
    "either source_table or source_query must be set"
  onlyIf (shape ≠ .db) (cfg.validateNotDb shape.label)
  cfg.validateMode shape dbAppendAllowed
  cfg.validateSizes
  cfg.validateWindowed
  cfg.validateWindowBounds
  onlyIf cfg.deleteStaleInWindow (cfg.validateDeleteStale shape)

/-- The validation of a `shape` source writing into a `dest` destination. -/
def validateFor (cfg : TransferConfig) (shape : SourceShape) (dest : DestKind) : Except String Unit :=
  cfg.validateWith shape (dest = .csv)

/-! ### What an accepted configuration guarantees -/

theorem refuse_eq_ok {c : Prop} [Decidable c] {m : String} : refuse c m = .ok () ↔ ¬ c := by
  unfold refuse
  split_ifs with h <;> simp [h]

private theorem bind_unit_eq_ok {x : Except String Unit} {f : Unit → Except String Unit} :
    (x >>= f) = .ok () ↔ x = .ok () ∧ f () = .ok () := by
  cases x with
  | error e => simp [bind, Except.bind]
  | ok u => simp [bind, Except.bind]

/-- What the checks of an accepted delete of stale rows have established. -/
theorem validateFor_deleteStale {cfg : TransferConfig} {shape : SourceShape} {dest : DestKind}
    (h : cfg.validateFor shape dest = .ok ()) (hd : cfg.deleteStaleInWindow = true) (hs : shape ≠ .frame) :
    cfg.mode = .incremental ∧ cfg.chunkRows = none ∧ cfg.watermarkSourceExpr = none ∧
      cfg.mergePrunePartitionBy = some (cfg.landed (cfg.watermark.getD "")) ∧ cfg.windowBounds = none := by
  simp only [validateFor, validateWith, bind_unit_eq_ok, hd, onlyIf, if_true] at h
  obtain ⟨-, -, -, -, -, hb, hdel⟩ := h
  simp only [validateDeleteStale, bind_unit_eq_ok, refuse_eq_ok] at hdel
  obtain ⟨hmode, hprune, hchunk, hland, hexpr⟩ := hdel
  have hwb : cfg.windowBounds = none := by
    unfold validateWindowBounds at hb
    cases hcb : cfg.windowBounds with
    | none => rfl
    | some b => simp [hcb, bind_unit_eq_ok, refuse_eq_ok, hd] at hb
  cases hp : cfg.mergePrunePartitionBy with
  | none => simp [hp] at hprune
  | some w => simp_all

end TransferConfig

end Quickhouse
