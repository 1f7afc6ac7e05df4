import Quickhouse.Config
import Mathlib.Data.List.Infix

/-!
# Warnings and the checkpoints that stop on them

Whatever raises a warning in an attempt, it goes to the one collector `Warnings`: the reads push theirs, the null
guard keeps a tally, and the writes leave theirs with the destination until a checkpoint takes them in.
`checkFatal` is the checkpoint: it stops the run exactly when a fatal kind is among what has been raised, since
folding the entries together keeps their kinds.
-/

namespace Quickhouse

structure TransferWarning where
  kind : WarningKind
  column : Option String := none
  count : Nat := 0
  sample : Option String := none
  message : String
  deriving DecidableEq, Repr

/-- The sentences that state a count. -/
structure WarningTexts where
  coercion : WarningKind → String → Nat → String
  defaulted : String → Nat → String
  leftOut : WarningKind → String → Nat → String

structure Warnings where
  raw : List TransferWarning := []
  /-- Rows the null guard left out or wrote a default into, of each kind and column. -/
  nullRows : List (WarningKind × String × Nat) := []
  deriving DecidableEq, Repr

/-- The sums kept for each kind and column, in the order first met. -/
def addTally (kind : WarningKind) (column : String) (n : Nat) :
    List (WarningKind × String × Nat) → List (WarningKind × String × Nat)
  | [] => [(kind, column, n)]
  | (k, c, m) :: rest => if k = kind ∧ c = column then (k, c, m + n) :: rest else (k, c, m) :: addTally kind column n rest

namespace Warnings

def push (ws : Warnings) (w : TransferWarning) : Warnings := { ws with raw := ws.raw ++ [w] }

def addNullRows (ws : Warnings) (kind : WarningKind) (column : String) (n : Nat) : Warnings :=
  if n = 0 then ws else { ws with nullRows := addTally kind column n ws.nullRows }

/-- Everything collected, without folding. -/
def entries (texts : WarningTexts) (ws : Warnings) : List TransferWarning :=
  ws.raw ++ ws.nullRows.map fun (kind, column, count) =>
    { kind
      column := some column
      count
      message := if kind = .nullDefaulted then texts.defaulted column count else texts.leftOut kind column count }

/-- The kinds raised so far. -/
def kinds (ws : Warnings) : List WarningKind := ws.raw.map (·.kind) ++ ws.nullRows.map Prod.fst

end Warnings

/-! ### Folding -/

/-- One more entry of the same kind and column. -/
def TransferWarning.foldIn (f w : TransferWarning) : TransferWarning :=
  { f with
    count := f.count + w.count
    sample := f.sample.or w.sample
    message :=
      if f.kind = .nullWatermark ∧ ¬ w.message.toList <:+: f.message.toList then f.message ++ " " ++ w.message
      else f.message }

def foldEntry (w : TransferWarning) : List TransferWarning → List TransferWarning
  | [] => [w]
  | f :: rest => if f.kind = w.kind ∧ f.column = w.column then f.foldIn w :: rest else f :: foldEntry w rest

def WarningKind.isCoercion : WarningKind → Bool
  | .collapsedBool | .coercedDate | .coercedDecimal | .coercedScalar => true
  | _ => false

/-- A coercion's text for the count it was folded to. -/
def TransferWarning.restate (texts : WarningTexts) (f : TransferWarning) : TransferWarning :=
  match f.column with
  | some column => if f.kind.isCoercion then { f with message := texts.coercion f.kind column f.count } else f
  | none => f

/-- One entry for each kind and column, in the order each first appears. -/
def foldWarnings (texts : WarningTexts) (entries : List TransferWarning) : List TransferWarning :=
  (entries.foldl (fun folded w => foldEntry w folded) []).map (·.restate texts)

/-- The first warning of a kind in `kinds`, folded. -/
def Warnings.firstOf (texts : WarningTexts) (ws : Warnings) (kinds : List WarningKind) : Option TransferWarning :=
  if kinds = [] then none else (foldWarnings texts (ws.entries texts)).find? fun w => w.kind ∈ kinds

/-! ### Checkpoints -/

/-- What a run is about to do at a checkpoint, which says what it has made permanent so far. -/
inductive Before where
  | write
  | swap
  /-- Into a destination this run created empty. -/
  | swapIntoNew
  | merge
  | mergeIntoNew
  | append
  | appendIntoNew
  | cursor
  | chunk
  | cursorAfterChunks
  | done
  deriving DecidableEq, Repr

namespace Before

def ofMerge (createdDest : Bool) : Before := if createdDest then .mergeIntoNew else .merge

/-- The staged rows are about to be promoted. -/
def promotes : Before → Bool
  | .swap | .swapIntoNew | .merge | .mergeIntoNew | .append | .appendIntoNew | .chunk => true
  | _ => false

end Before

/-- What the error says of the state the run leaves. -/
def Before.describe : Before → String
  | .write => "Nothing was written to the destination, and the cursor was not saved."
  | .swap => "The destination is untouched: the staged rows were dropped before the swap."
  | .swapIntoNew =>
    "Nothing was swapped in: the staged rows were dropped before the swap, so the " ++
      "destination this run created is left empty."
  | .merge =>
    "The destination is untouched (the staged rows were dropped before the merge), " ++
      "and the cursor was not saved."
  | .mergeIntoNew =>
    "Nothing was merged in (the staged rows were dropped before the merge), so the " ++
      "destination this run created is left empty, and the cursor was not saved."
  | .append =>
    "Nothing was appended (the staged rows were dropped before they were moved into " ++
      "the destination), and the cursor was not saved."
  | .appendIntoNew =>
    "Nothing was appended (the staged rows were dropped before they were moved in), " ++
      "so the destination this run created is left empty, and the cursor was not saved."
  | .cursor =>
    "The rows are already in the destination, but the cursor was not saved, so once " ++
      "the cause is fixed the next run reads the same range again (a " ++
      "ReplacingMergeTree or a MERGE converges on them)."
  | .chunk =>
    "This chunk was not committed: its cursor was not saved, so the next run resumes " ++
      "at it (written straight into the destination, its rows are already there). " ++
      "Earlier chunks are committed."
  | .cursorAfterChunks =>
    "Every chunk is already in the destination with its resume marker saved, so the " ++
      "next run carries on past them; only the cursor that finishes the run was not " ++
      "saved."
  | .done =>
    "The rows are already in the destination, which this run writes straight into, " ++
      "and its cursor (if it keeps one) is saved: reading them again would only write " ++
      "them twice."

def WarningKind.asStr : WarningKind → String
  | .collapsedBool => "collapsed_bool"
  | .coercedDate => "coerced_date"
  | .coercedDecimal => "coerced_decimal"
  | .coercedScalar => "coerced_scalar"
  | .nullWatermark => "null_watermark"
  | .nullKey => "null_key"
  | .nullDefaulted => "null_defaulted"
  | .fullRefreshShrink => "full_refresh_shrink"
  | .unclusteredMergeTarget => "unclustered_merge_target"
  | .ignoredSourceArchive => "ignored_source_archive"
  | .incompleteExport => "incomplete_export"
  | .unindexedWatermark => "unindexed_watermark"
  | .decimalMappingMixed => "decimal_mapping_mixed"
  | .watermarkNotAdvanced => "watermark_not_advanced"
  | .watermarkAheadOfSource => "watermark_ahead_of_source"
  | .shiftedTimestamp => "shifted_timestamp"
  | .windowBoundsUnavailable => "window_bounds_unavailable"
  | .nullCheckSkipped => "null_check_skipped"
  | .retriedAfterPartialWrite => "retried_after_partial_write"
  | .storageWriteCountMismatch => "storage_write_count_mismatch"
  | .unsourcedDestinationColumn => "unsourced_destination_column"
  | .abandonedResumeMarker => "abandoned_resume_marker"
  | .droppedSourceColumn => "dropped_source_column"
  | .recreatedDestination => "recreated_destination"
  | .nonReplacingIncrementalTarget => "non_replacing_incremental_target"
  | .ignoredTypeOverride => "ignored_type_override"

/-- What a checkpoint stops the run with.  `requested` says the caller named the kind. -/
structure FatalWarning where
  warning : TransferWarning
  checkpoint : Before
  requested : Bool
  deriving DecidableEq, Repr

/-- A warning carried over from the attempts before describes what those wrote. -/
def FatalWarning.text (e : FatalWarning) : String :=
  let w := e.warning
  let column := w.column.elim "" fun c => " on column '" ++ c ++ "'"
  let state :=
    if w.kind = .retriedAfterPartialWrite then
      "This attempt has written nothing; what the failed attempts before it wrote stays in " ++ "the destination."
    else e.checkpoint.describe
  let count := if w.count = 0 then "" else " (count " ++ toString w.count ++ ")"
  let requestedBy := if e.requested then "fail_on_warnings: " else ""
  requestedBy ++ w.kind.asStr ++ column ++ count ++ " stopped the run. " ++ state ++ " The warning: " ++ w.message

/-- The warnings the writes raised are taken in first.  Staged rows of a wrong number are never promoted. -/
def checkFatal (texts : WarningTexts) (failOnWarnings : List WarningKind) (writeWarnings : List TransferWarning)
    (ws : Warnings) (checkpoint : Before) : Except FatalWarning Warnings :=
  let ws := { ws with raw := ws.raw ++ writeWarnings }
  let mismatch := if checkpoint.promotes then ws.firstOf texts [.storageWriteCountMismatch] else none
  match mismatch with
  | some w => .error ⟨w, checkpoint, false⟩
  | none =>
    match ws.firstOf texts failOnWarnings with
    | some w => .error ⟨w, checkpoint, true⟩
    | none => .ok ws

/-! ### What has been raised -/

namespace Warnings

variable {ws : Warnings}

@[simp] theorem kinds_push (w : TransferWarning) (k : WarningKind) :
    k ∈ (ws.push w).kinds ↔ k ∈ ws.kinds ∨ k = w.kind := by
  simp only [kinds, push, List.map_append, List.map_cons, List.map_nil, List.mem_append, List.mem_singleton]
  tauto

theorem mem_addTally {kind k : WarningKind} {column : String} {n : Nat} {tally : List (WarningKind × String × Nat)} :
    k ∈ (addTally kind column n tally).map Prod.fst ↔ k ∈ tally.map Prod.fst ∨ k = kind := by
  induction tally with
  | nil => simp [addTally]
  | cons e rest ih =>
    obtain ⟨k', c, m⟩ := e
    unfold addTally
    split_ifs with heq
    · simp only [List.map_cons, List.mem_cons, heq.1]
      tauto
    · rw [List.map_cons, List.mem_cons, ih, List.map_cons, List.mem_cons, or_assoc]

theorem kinds_addNullRows (kind : WarningKind) (column : String) {n : Nat} (hn : 0 < n) (k : WarningKind) :
    k ∈ (ws.addNullRows kind column n).kinds ↔ k ∈ ws.kinds ∨ k = kind := by
  unfold addNullRows kinds
  rw [if_neg (by omega), List.mem_append, List.mem_append, mem_addTally, or_assoc]

theorem entries_kinds (texts : WarningTexts) (ws : Warnings) : (ws.entries texts).map (·.kind) = ws.kinds := by
  unfold entries kinds
  rw [List.map_append, List.map_map]
  rfl

end Warnings

@[simp] theorem TransferWarning.restate_kind (texts : WarningTexts) (f : TransferWarning) :
    (f.restate texts).kind = f.kind := by
  unfold restate
  split
  · split_ifs <;> rfl
  · rfl

theorem mem_foldEntry {w : TransferWarning} {k : WarningKind} {folded : List TransferWarning} :
    k ∈ (foldEntry w folded).map (·.kind) ↔ k ∈ folded.map (·.kind) ∨ k = w.kind := by
  induction folded with
  | nil => simp [foldEntry]
  | cons f rest ih =>
    unfold foldEntry
    split_ifs with heq
    · simp only [List.map_cons, List.mem_cons, TransferWarning.foldIn, heq.1]
      tauto
    · rw [List.map_cons, List.mem_cons, ih, List.map_cons, List.mem_cons, or_assoc]

/-- Folding keeps the kinds. -/
theorem mem_foldWarnings {texts : WarningTexts} {entries : List TransferWarning} {k : WarningKind} :
    k ∈ (foldWarnings texts entries).map (·.kind) ↔ k ∈ entries.map (·.kind) := by
  have hgen : ∀ (entries folded : List TransferWarning),
      k ∈ (entries.foldl (fun folded w => foldEntry w folded) folded).map (·.kind) ↔
        k ∈ folded.map (·.kind) ∨ k ∈ entries.map (·.kind) := by
    intro entries
    induction entries with
    | nil => simp
    | cons w rest ih =>
      intro folded
      rw [List.foldl_cons, ih, mem_foldEntry, List.map_cons, List.mem_cons, or_assoc]
  have hkinds : (foldWarnings texts entries).map (·.kind) =
      (entries.foldl (fun folded w => foldEntry w folded) []).map (·.kind) := by
    unfold foldWarnings
    rw [List.map_map]
    exact List.map_congr_left fun f _ => f.restate_kind texts
  rw [hkinds, hgen]
  simp

namespace Warnings

variable {texts : WarningTexts} {ws : Warnings} {fatal : List WarningKind}

/-- A warning of one of the kinds is found exactly when one was raised. -/
theorem firstOf_eq_none : ws.firstOf texts fatal = none ↔ ∀ k ∈ ws.kinds, k ∉ fatal := by
  unfold firstOf
  split_ifs with hempty
  · simp [hempty]
  · rw [List.find?_eq_none]
    constructor
    · intro h k hk
      rw [← ws.entries_kinds texts, ← @mem_foldWarnings texts] at hk
      obtain ⟨w, hw, rfl⟩ := List.mem_map.mp hk
      simpa using h w hw
    · intro h w hw
      have hk : w.kind ∈ ws.kinds := by
        rw [← ws.entries_kinds texts, ← @mem_foldWarnings texts]
        exact List.mem_map_of_mem hw
      simpa using h w.kind hk

end Warnings

/-! ### Tallies -/

/-- The rows counted for a kind and column. -/
def tallyOf (kind : WarningKind) (column : String) (tally : List (WarningKind × String × Nat)) : Nat :=
  ((tally.filter fun e => e.1 = kind ∧ e.2.1 = column).map (·.2.2)).sum

@[simp] theorem tallyOf_nil (kind : WarningKind) (column : String) : tallyOf kind column [] = 0 := rfl

theorem tallyOf_cons (kind : WarningKind) (column : String) (e : WarningKind × String × Nat)
    (tally : List (WarningKind × String × Nat)) :
    tallyOf kind column (e :: tally) = (if e.1 = kind ∧ e.2.1 = column then e.2.2 else 0) + tallyOf kind column tally := by
  unfold tallyOf
  rw [List.filter_cons]
  by_cases h : e.1 = kind ∧ e.2.1 = column
  · simp [h]
  · simp [h]

theorem tallyOf_append (kind : WarningKind) (column : String) (tally more : List (WarningKind × String × Nat)) :
    tallyOf kind column (tally ++ more) = tallyOf kind column tally + tallyOf kind column more := by
  unfold tallyOf
  rw [List.filter_append, List.map_append, List.sum_append]

theorem tallyOf_addTally (kind : WarningKind) (column : String) (e : WarningKind × String × Nat)
    (tally : List (WarningKind × String × Nat)) :
    tallyOf kind column (addTally e.1 e.2.1 e.2.2 tally) = tallyOf kind column tally + tallyOf kind column [e] := by
  induction tally with
  | nil => rw [addTally, tallyOf_nil, Nat.zero_add]
  | cons a rest ih =>
    obtain ⟨k, c, m⟩ := a
    unfold addTally
    split_ifs with heq
    · rw [tallyOf_cons, tallyOf_cons, tallyOf_cons, tallyOf_nil, heq.1, heq.2]
      dsimp only
      split_ifs <;> omega
    · rw [tallyOf_cons, tallyOf_cons, ih]
      omega

/-- A list of counts, each reported in turn. -/
def Warnings.addCounts (ws : Warnings) (counts : List (WarningKind × String × Nat)) : Warnings :=
  counts.foldl (fun ws e => ws.addNullRows e.1 e.2.1 e.2.2) ws

theorem Warnings.tallyOf_addCounts (kind : WarningKind) (column : String) (ws : Warnings)
    (counts : List (WarningKind × String × Nat)) :
    tallyOf kind column (ws.addCounts counts).nullRows = tallyOf kind column ws.nullRows + tallyOf kind column counts := by
  induction counts generalizing ws with
  | nil => simp [addCounts]
  | cons e counts ih =>
    have hone : tallyOf kind column (ws.addNullRows e.1 e.2.1 e.2.2).nullRows =
        tallyOf kind column ws.nullRows + tallyOf kind column [e] := by
      unfold addNullRows
      split_ifs with hzero
      · rw [tallyOf_cons, hzero, ite_self]
        simp
      · exact tallyOf_addTally kind column e ws.nullRows
    have hrest := ih (ws.addNullRows e.1 e.2.1 e.2.2)
    rw [hone] at hrest
    rw [tallyOf_cons, tallyOf_nil] at hrest
    rw [tallyOf_cons]
    unfold addCounts at hrest ⊢
    rw [List.foldl_cons, hrest]
    omega

/-- A checkpoint is passed only when nothing fatal has been raised, and with everything taken in. -/
theorem checkFatal_ok {texts : WarningTexts} {fatal : List WarningKind} {writeWarnings : List TransferWarning}
    {ws ws' : Warnings} {checkpoint : Before}
    (h : checkFatal texts fatal writeWarnings ws checkpoint = .ok ws') :
    ws' = { ws with raw := ws.raw ++ writeWarnings } ∧ ∀ k ∈ ws'.kinds, k ∉ fatal := by
  unfold checkFatal at h
  extract_lets taken mismatch at h
  clear_value mismatch
  split at h
  · cases h
  · split at h
    · cases h
    · rename_i hnone
      obtain rfl : taken = ws' := by simpa using h
      exact ⟨rfl, Warnings.firstOf_eq_none.mp hnone⟩

end Quickhouse
