import Mathlib.Logic.Function.Basic
import Quickhouse.Error
import Quickhouse.Lib.LateCalls
import Quickhouse.Lib.Runs
import Quickhouse.Sink.StorageWrite
import Quickhouse.Warnings

/-!
# Full refreshes of a ClickHouse table

A full refresh reads its rows into a staging table of its own and exchanges that table with the destination, once everything
is staged and has passed the staged validation, the shrink guard and the fatal warnings.  Any number of refreshes run at the
same time, each may stop anywhere, and a statement without an answer may still be executed, at any later time.
-/

namespace Quickhouse.FullRefresh

open LateCalls Runs

/-! ### The server -/

/-- What one insert sends, in one block: the rows, and the deduplication token of all its attempts. -/
structure Part (ρ : Type) where
  number : Nat
  token : Option String
  rows : List ρ
  deriving DecidableEq, Repr

structure Table (ρ : Type) where
  parts : List (Part ρ) := []
  deriving DecidableEq, Repr

def Table.rows {ρ : Type} (t : Table ρ) : List ρ := t.parts.flatMap Part.rows

structure Engine (ρ : Type) where
  /-- A block that repeats one which the table has is left out. -/
  dedups : Bool
  /-- What blocks without a token are compared by. -/
  sameBlock : List ρ → List ρ → Bool
  eq_of_sameBlock : ∀ {xs ys : List ρ}, sameBlock xs ys = true → xs = ys
  /-- How many rows a read with `FINAL` counts, for an engine that merges rows. -/
  merged : Option (List ρ → Nat)

/-- The token stands for the block where there is one. -/
def Engine.repeats {ρ : Type} (e : Engine ρ) (p q : Part ρ) : Bool :=
  match p.token, q.token with
  | some token, some token' => token = token'
  | none, none => e.sameBlock p.rows q.rows
  | _, _ => false

def Table.insert {ρ : Type} (e : Engine ρ) (t : Table ρ) (p : Part ρ) : Table ρ :=
  if e.dedups && t.parts.any (e.repeats p) then t else ⟨t.parts ++ [p]⟩

inductive Statement (ρ : Type) where
  | createTable (table : String)
  | cloneTable (table like : String)
  | insert (table : String) (part : Part ρ)
  | exchangeTables (dest staging : String)
  | dropTable (table : String)
  deriving DecidableEq, Repr

structure Server (ρ : Type) where
  tables : String → Option (Table ρ)
  /-- The staging tables that were exchanged. -/
  exchanged : List String := []

def execute {ρ : Type} (e : Engine ρ) (s : Server ρ) : Statement ρ → Option (Server ρ)
  | .createTable table =>
    some (if (s.tables table).isSome then s else { s with tables := Function.update s.tables table (some {}) })
  | .cloneTable table like =>
    if (s.tables table).isNone ∧ (s.tables like).isSome then
      some { s with tables := Function.update s.tables table (some {}) }
    else none
  | .insert table part =>
    (s.tables table).map fun t => { s with tables := Function.update s.tables table (some (t.insert e part)) }
  | .exchangeTables dest staging =>
    match s.tables dest, s.tables staging with
    | some old, some new => some {
        tables := Function.update (Function.update s.tables dest (some new)) staging (some old)
        exchanged := s.exchanged ++ [staging] }
    | _, _ => none
  | .dropTable table => some { s with tables := Function.update s.tables table none }

/-! ### One insert -/

structure ClickHouseSink where
  runToken : String
  insertDedupToken : Bool
  /-- `insert_deduplication_token` among the caller's own settings. -/
  callerToken : Option String
  deriving DecidableEq, Repr

/-- A token for one insert, and the next number. -/
def ClickHouseSink.nextDedupToken (sink : ClickHouseSink) (epoch : Nat) : Option String × Nat :=
  if !sink.insertDedupToken || sink.callerToken.isSome then (none, epoch)
  else (some (sink.runToken ++ "-" ++ toString epoch), epoch + 1)

/-- No insert is taken for a repetition of another one: the server takes them all, or each has a token of the sink's own. -/
def ClickHouseSink.KeepsEach {ρ : Type} (sink : ClickHouseSink) (e : Engine ρ) : Prop :=
  e.dedups = false ∨ (sink.insertDedupToken = true ∧ sink.callerToken = none)

/-- One that is has the same rows: there is no token of the caller's for all of them. -/
def ClickHouseSink.KeepsRows {ρ : Type} (sink : ClickHouseSink) (e : Engine ρ) : Prop :=
  e.dedups = false ∨ sink.callerToken = none

inductive SendOutcome where
  | sent
  | transient
  | permanent
  deriving DecidableEq, Repr

/-- What the status of the response tells; `none` is no response. -/
def sendInsert : Option Nat → SendOutcome
  | none => .transient
  | some status =>
    if 200 ≤ status ∧ status < 300 then .sent
    else if (500 ≤ status ∧ status < 600) ∨ status = 429 then .transient
    else .permanent

structure Insert (ρ : Type) where
  part : Part ρ
  attempts : Nat := 0
  acked : Bool := false
  deriving DecidableEq, Repr

/-! ### The shrink guard -/

inductive ShrinkVerdict where
  | proceed
  | proceedWithWarning (existing lost : Nat)
  | refuse (existing lost : Nat)
  deriving DecidableEq, Repr

def fullRefreshShrinkVerdict (existing : Option Nat) (newRows : Nat) (allowShrink : Bool) : ShrinkVerdict :=
  match existing with
  | none => .proceed
  | some existing =>
    match (if newRows ≤ existing then some (existing - newRows) else none).filter (0 < ·) with
    | none => .proceed
    | some lost => if allowShrink then .proceedWithWarning existing lost else .refuse existing lost

structure Refresh where
  cfg : TransferConfig
  allowFullRefreshShrink : Bool
  stagingSuffix : String
  runId : String
  sink : ClickHouseSink
  texts : WarningTexts

def stagingName (dest suffix runId : String) : String := dest ++ suffix ++ "_" ++ runId

def Refresh.staging (r : Refresh) : String := stagingName r.cfg.destTable r.stagingSuffix r.runId

/-- The rows that were read and left out for a NULL. -/
def leftOutRows (ws : Warnings) : Nat := ((ws.nullRows.filter fun n => n.1 ≠ .nullDefaulted).map fun n => n.2.2).sum

/-- What the guard makes of the counts: `merged` are the counts with `FINAL` of both tables. -/
def guardFullRefreshShrink (r : Refresh) (ws : Warnings) (existing : Option Nat) (merged : Option (Nat × Nat))
    (newRows : Nat) : Except EtlError Warnings :=
  let existing' := match merged with
    | some (dest, _) => some dest
    | none => existing
  let newRows' := match merged with
    | some (_, staged) => staged
    | none => newRows
  let counted := match merged with
    | some _ => " (both counted with FINAL, as merged)"
    | none => ""
  let leftOut := match leftOutRows ws with
    | 0 => ""
    | n => " This run read " ++ toString n ++ " row(s) it left out for a NULL key or watermark (see the " ++
        "null_key and null_watermark warnings)."
  match fullRefreshShrinkVerdict existing' newRows' r.allowFullRefreshShrink with
  | .proceed => .ok ws
  | .proceedWithWarning existing lost => .ok (ws.push {
      kind := .fullRefreshShrink
      count := lost
      message := "full-refresh will REPLACE '" ++ r.cfg.destTable ++ "' (" ++ toString existing ++ " row(s)) with only " ++
        toString newRows' ++ " row(s)" ++ counted ++ " — the destination will SHRINK by " ++ toString lost ++
        " row(s). Proceeding because allow_full_refresh_shrink=True." ++ leftOut })
  | .refuse existing lost => .error (.config ("refusing full-refresh: swapping staging into '" ++ r.cfg.destTable ++
      "' would REPLACE " ++ toString existing ++ " row(s) with only " ++ toString newRows' ++ " row(s)" ++ counted ++
      ", shrinking the destination by " ++ toString lost ++ ". A full refresh replaces the table wholesale and is NOT " ++
      "partition-aware, so if this run covers only part of the destination the rest is destroyed. To add rows instead " ++
      "of replacing them use mode=\"incremental\" with key=, or mode=\"append\". If this shrink is genuinely intended, " ++
      "set allow_full_refresh_shrink=True." ++ leftOut))

/-! ### One refresh -/

inductive RefreshError where
  | refused (e : EtlError)
  /-- By the staged validation. -/
  | vetoed
  | fatal (w : FatalWarning)
  /-- A statement failed, or had no answer. -/
  | statement
  | source
  deriving DecidableEq, Repr

inductive Phase where
  /-- Is the destination there? -/
  | probing
  | creatingDest
  | creatingStaging (cloned : Bool)
  | loading
  | loaded
  | validated
  /-- The plain count would stop the refresh. -/
  | countingMerged (existing : Nat)
  | countingStaged (existing destMerged : Nat)
  | guarded
  | checked
  | swapped
  | succeeded
  | failing (e : RefreshError)
  | failed (e : RefreshError)
  | crashed
  deriving DecidableEq, Repr

def Phase.ended : Phase → Bool
  | .succeeded | .failed _ | .crashed => true
  | _ => false

inductive CountReply where
  | failed
  /-- No table, or not a number. -/
  | unavailable
  | read
  deriving DecidableEq, Repr

structure Run (ρ : Type) where
  refresh : Refresh
  phase : Phase := .probing
  warnings : Warnings := {}
  inserts : List (Insert ρ) := []
  epoch : Nat := 0
  createdDest : Bool := false
  swapSent : Bool := false

inductive RunEvent (ρ : Type) where
  /-- `known` is false when the server does not tell. -/
  | probe (known : Bool)
  | createDest (answered : Bool)
  | createStaging (answered : Bool)
  /-- Rows for one insert are read. -/
  | read (rows : List ρ)
  | attempt (k : Nat) (response : Option Nat)
  | raise (w : TransferWarning)
  | nullRows (kind : WarningKind) (column : String) (n : Nat)
  | readDone
  | validate (passed : Bool)
  | countDest (reply : CountReply)
  | countMerged (reply : CountReply)
  | countStaged (reply : CountReply)
  | checkFatal
  | swap (answered : Bool)
  | dropStaging (answered : Bool)
  | cleanup (answered : Bool)
  | fail
  | crash
  deriving DecidableEq, Repr

namespace Run

variable {ρ : Type}

def dest (r : Run ρ) : String := r.refresh.cfg.destTable

def staging (r : Run ρ) : String := r.refresh.staging

def rowsRead (r : Run ρ) : List ρ := r.inserts.flatMap fun i => i.part.rows

def rowsWritten (r : Run ρ) : Nat := ((r.inserts.filter (·.acked)).map fun i => i.part.rows.length).sum

def fail (r : Run ρ) (e : RefreshError) : Run ρ := { r with phase := .failing e }

/-- `insert_batches` begins: nothing is sent for no rows. -/
def read (r : Run ρ) (rows : List ρ) : Run ρ :=
  if rows = [] then r
  else
    let next := r.refresh.sink.nextDedupToken r.epoch
    { r with
      inserts := r.inserts ++ [{ part := ⟨r.inserts.length, r.refresh.sink.callerToken.or next.1, rows⟩ }]
      epoch := next.2 }

/-- The guard decides on what it could count. -/
def decideShrink (r : Run ρ) (existing : Option Nat) (merged : Option (Nat × Nat)) : Run ρ :=
  match guardFullRefreshShrink r.refresh r.warnings existing merged r.rowsWritten with
  | .ok ws => { r with warnings := ws, phase := .guarded }
  | .error e => r.fail (.refused e)

def swapCheckpoint (r : Run ρ) : Before := if r.createdDest then .swapIntoNew else .swap

/-- One attempt at an insert. -/
def attempt (e : Engine ρ) (n : Net (Server ρ) (Statement ρ)) (r : Run ρ) (k : Nat) (i : Insert ρ) (response : Option Nat) :
    Option (Net (Server ρ) (Statement ρ) × Run ρ) :=
  let tried := { i with attempts := i.attempts + 1 }
  match sendInsert response with
  | .sent =>
    (n.call (execute e) (.insert r.staging i.part) true).map fun n =>
      (n, { r with inserts := r.inserts.set k { tried with acked := true } })
  | .transient =>
    (n.call (execute e) (.insert r.staging i.part) false).map fun n =>
      let r := { r with inserts := r.inserts.set k tried }
      (n, if StorageWrite.maxInsertAttempts ≤ tried.attempts then r.fail .statement else r)
  | .permanent => some (n, { r with inserts := r.inserts.set k tried }.fail .statement)

def step (e : Engine ρ) (n : Net (Server ρ) (Statement ρ)) (r : Run ρ) :
    RunEvent ρ → Option (Net (Server ρ) (Statement ρ) × Run ρ)
  | .probe known =>
    if r.phase ≠ .probing then none
    else if known = false then some (n, { r with phase := .failed .statement })
    else if (n.server.tables r.dest).isSome then some (n, { r with phase := .creatingStaging true })
    else if r.refresh.cfg.createIfMissing then some (n, { r with phase := .creatingDest })
    else some (n, { r with phase := .failed (.refused (.config ("destination table " ++ r.dest ++
      " does not exist and create_if_missing=false"))) })
  | .createDest answered =>
    if r.phase = .creatingDest then
      (n.call (execute e) (.createTable r.dest) answered).map fun n =>
        (n, { r with phase := if answered then .creatingStaging false else .failed .statement, createdDest := true })
    else none
  | .createStaging answered =>
    match r.phase with
    | .creatingStaging cloned =>
      (n.call (execute e) (if cloned then .cloneTable r.staging r.dest else .createTable r.staging) answered).map fun n =>
        (n, { r with phase := if answered then .loading else .failed .statement })
    | _ => none
  | .read rows => if r.phase = .loading then some (n, r.read rows) else none
  | .attempt k response =>
    match r.inserts[k]? with
    | some i => if r.phase = .loading ∧ i.acked = false then attempt e n r k i response else none
    | none => none
  | .raise w => if r.phase = .loading then some (n, { r with warnings := r.warnings.push w }) else none
  | .nullRows kind column count =>
    if r.phase = .loading then some (n, { r with warnings := r.warnings.addNullRows kind column count }) else none
  | .readDone =>
    if r.phase = .loading ∧ r.inserts.all (·.acked) = true then some (n, { r with phase := .loaded }) else none
  | .validate passed =>
    if r.phase = .loaded then some (n, if passed then { r with phase := .validated } else r.fail .vetoed) else none
  | .countDest reply =>
    if r.phase ≠ .validated then none
    else
      match reply, n.server.tables r.dest with
      | .read, some t =>
        if r.rowsWritten < t.rows.length then some (n, { r with phase := .countingMerged t.rows.length })
        else some (n, r.decideShrink (some t.rows.length) none)
      | .failed, _ => some (n, { r with phase := .guarded })
      | _, _ => some (n, r.decideShrink none none)
  | .countMerged reply =>
    match r.phase with
    | .countingMerged existing =>
      match reply, e.merged, n.server.tables r.dest with
      | .read, some count, some t => some (n, { r with phase := .countingStaged existing (count t.rows) })
      | _, _, _ => some (n, r.decideShrink (some existing) none)
    | _ => none
  | .countStaged reply =>
    match r.phase with
    | .countingStaged existing destMerged =>
      match reply, e.merged, n.server.tables r.staging with
      | .read, some count, some t => some (n, r.decideShrink (some existing) (some (destMerged, count t.rows)))
      | _, _, _ => some (n, r.decideShrink (some existing) none)
    | _ => none
  | .checkFatal =>
    if r.phase = .guarded then
      match Quickhouse.checkFatal r.refresh.texts r.refresh.cfg.failOnWarnings [] r.warnings r.swapCheckpoint with
      | .ok ws => some (n, { r with warnings := ws, phase := .checked })
      | .error w => some (n, r.fail (.fatal w))
    else none
  | .swap answered =>
    if r.phase = .checked then
      (n.call (execute e) (.exchangeTables r.dest r.staging) answered).map fun n =>
        (n, { r with phase := if answered then .swapped else .failing .statement, swapSent := true })
    else none
  | .dropStaging answered =>
    if r.phase = .swapped then
      (n.call (execute e) (.dropTable r.staging) answered).map fun n =>
        (n, { r with phase := if answered then .succeeded else .failing .statement })
    else none
  | .cleanup answered =>
    match r.phase with
    | .failing error => (n.call (execute e) (.dropTable r.staging) answered).map fun n => (n, { r with phase := .failed error })
    | _ => none
  | .fail => if r.phase = .loading then some (n, r.fail .source) else none
  | .crash => if r.phase.ended then none else some (n, { r with phase := .crashed })

end Run

/-! ### Any number of refreshes -/

structure World (ρ : Type) where
  dest : String
  net : Net (Server ρ) (Statement ρ)
  runs : List (Run ρ) := []

inductive Event (ρ : Type) where
  | start (refresh : Refresh) (epoch : Nat)
  | run (k : Nat) (event : RunEvent ρ)
  | arrive (k : Nat)

/-- The name of a staging table is used once. -/
def step {ρ : Type} (e : Engine ρ) (w : World ρ) : Event ρ → Option (World ρ)
  | .start refresh epoch =>
    if refresh.cfg.destTable = w.dest ∧ refresh.staging ∉ w.runs.map Run.staging ∧
        (w.net.server.tables refresh.staging).isNone then
      some { w with runs := w.runs ++ [{ refresh, epoch }] }
    else none
  | .run k event =>
    match w.runs[k]? with
    | some r => (r.step e w.net event).map fun (n, r) => { w with net := n, runs := w.runs.set k r }
    | none => none
  | .arrive k => (w.net.arrive (execute e) k).map fun n => { w with net := n }

end Quickhouse.FullRefresh
