import Mathlib.Data.List.Nodup
import Quickhouse.Lib.Runs
import Quickhouse.Sink.CsvTable

/-!
# The parts of a staging folder

Several inserts write into one staging folder at once.  An insert takes an open part that its stream is not writing to,
or opens one, and opens the next where one is full; the part numbers and the list of closed parts are all they share.
When no insert runs, the parts are closed and the manifest is written.
-/

namespace Quickhouse

open Runs

variable {σ ρ : Type}

/-- A part file: its number, the stream that writes it (none for a header on its own) and its rows. -/
structure Part (σ ρ : Type) where
  number : Nat
  stream : Option σ
  rows : List ρ
  deriving DecidableEq, Repr

/-- An insert that runs: what it has not written, the part it writes to, and the parts it has filled. -/
structure Insert (σ ρ : Type) where
  stream : σ
  todo : List (List ρ)
  writer : Option (Part σ ρ) := none
  closed : List (Part σ ρ) := []
  deriving DecidableEq, Repr

/-- What all inserts into the folder share, and the ones that run. -/
structure Staging (σ ρ : Type) where
  nextPart : Nat := 0
  /-- Open parts that no insert is writing to. -/
  idle : List (Part σ ρ) := []
  /-- Closed parts. -/
  parts : List (Part σ ρ) := []
  running : List (Insert σ ρ) := []
  finished : Option Manifest := none
  deriving DecidableEq, Repr

/-- The folder and the run that writes it. -/
structure StagingCtx (ρ : Type) where
  cfg : CsvDestConfig
  runId : String
  columns : List ManifestColumn
  /-- The size of a part's file. -/
  bytes : List ρ → Nat

def Part.info (ctx : StagingCtx ρ) (p : Part σ ρ) : PartInfo where
  file := ctx.cfg.partFormat.fileName ctx.runId p.number
  rows := p.rows.length
  bytes := ctx.bytes p.rows

inductive StagingEvent (σ ρ : Type) where
  | begin (stream : σ) (batches : List (List ρ))
  /-- The `k`th insert writes its next slice. -/
  | slice (k : Nat)
  /-- The `k`th insert has written everything: its parts are registered. -/
  | ended (k : Nat)
  /-- `emptyPart` where a table without rows still gets a part with its header. -/
  | finalize (emptyPart : Bool)

section Steps

variable [DecidableEq σ]

/-- The open part that the stream put back last. -/
def popIdle (stream : σ) : List (Part σ ρ) → Option (Part σ ρ) × List (Part σ ρ)
  | [] => (none, [])
  | p :: ps =>
    if p.stream = some stream then (some p, ps)
    else ((popIdle stream ps).1, p :: (popIdle stream ps).2)

/-- The part the next slice goes to, and whether it is a new one: a full part is closed first. -/
def Insert.roomy (maxRows nextPart : Nat) (i : Insert σ ρ) : Part σ ρ × List (Part σ ρ) × Nat :=
  match i.writer with
  | some w =>
    if w.rows.length < maxRows then (w, i.closed, nextPart)
    else (⟨nextPart, some i.stream, []⟩, i.closed ++ [w], nextPart + 1)
  | none => (⟨nextPart, some i.stream, []⟩, i.closed, nextPart + 1)

/-- One slice of the first batch; a batch that is written, or was empty, is left behind. -/
def Insert.slice (maxRows nextPart : Nat) (i : Insert σ ρ) : Option (Insert σ ρ × Nat) :=
  match i.todo with
  | [] => none
  | [] :: rest => some ({ i with todo := rest }, nextPart)
  | batch :: rest =>
    let (w, closed, nextPart) := i.roomy maxRows nextPart
    let room := min (maxRows - w.rows.length) batch.length
    some ({ i with
      todo := batch.drop room :: rest
      writer := some { w with rows := w.rows ++ batch.take room }
      closed }, nextPart)

namespace Staging

def begin (s : Staging σ ρ) (stream : σ) (batches : List (List ρ)) : Staging σ ρ :=
  { s with
    idle := (popIdle stream s.idle).2
    running := s.running ++ [{ stream, todo := batches, writer := (popIdle stream s.idle).1 }] }

/-- Every part is closed and the manifest lists them by file name. -/
def finalize (ctx : StagingCtx ρ) (s : Staging σ ρ) (emptyPart : Bool) : Staging σ ρ :=
  let parts := s.parts ++ s.idle
  let headerOnly := parts.isEmpty && emptyPart && ctx.cfg.header
  let parts := if headerOnly then [⟨s.nextPart, none, []⟩] else parts
  let infos := (parts.map (Part.info ctx)).mergeSort fun a b => decide (a.file ≤ b.file)
  { s with
    nextPart := if headerOnly then s.nextPart + 1 else s.nextPart
    idle := []
    parts
    finished := some (Manifest.new ctx.cfg ctx.columns infos) }

/-- No insert begins once the parts are closed, and they are closed when every insert has ended: the transfer waits
for its inserts before it swaps the folder in. -/
def step (ctx : StagingCtx ρ) (s : Staging σ ρ) : StagingEvent σ ρ → Option (Staging σ ρ)
  | .begin stream batches => if s.finished = none then some (s.begin stream batches) else none
  | .slice k =>
    match s.running[k]? with
    | some i => (i.slice ctx.cfg.maxRowsPerFile s.nextPart).map fun r =>
        { s with running := s.running.set k r.1, nextPart := r.2 }
    | none => none
  | .ended k =>
    match s.running[k]? with
    | some i =>
      if i.todo = [] then some { s with
        running := s.running.eraseIdx k
        parts := s.parts ++ i.closed
        idle := i.writer.toList ++ s.idle }
      else none
    | none => none
  | .finalize emptyPart =>
    if s.finished = none ∧ s.running = [] then some (s.finalize ctx emptyPart) else none

end Staging
end Steps
end Quickhouse
