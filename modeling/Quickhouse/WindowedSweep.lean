import Quickhouse.InsertBuffer
import Quickhouse.Lib.Runs

/-!
# A partition read in one statement or swept in windows

The statements of a sweep share one insert buffer, which is sent between them only.  A window the source cancels is
read again: its batches, its counts and its archive file are taken back (`windowCancelled`).

`SendInv` says where each batch of a statement that succeeded is (sent or buffered, in order), and what has been
counted of it.
-/

namespace Quickhouse

open Runs

/-- What the partitions of a run write through. -/
structure SendCtx (ρ : Type) where
  /-- The rows of a batch the null guard lets through, and its counts. -/
  guard : List ρ → List ρ × List (WarningKind × String × Nat)
  arrayMemorySize : List ρ → Nat
  /-- The bytes the destination reports for an insert. -/
  insertBytes : List (List ρ) → Nat
  archived : Bool
  insertTarget : Nat

structure Counters where
  rowsRead : Nat := 0
  rowsWritten : Nat := 0
  bytesWritten : Nat := 0
  deriving DecidableEq, Repr

inductive SweepStage where
  | between
  /-- A statement runs; `streaming` once its first rows arrived. -/
  | reading (mark : BufferMark) (streaming : Bool)
  /-- The last statement is read. -/
  | lastRead
  /-- Everything is handed to a send. -/
  | finishing
  | finished
  deriving DecidableEq, Repr

structure Sweep (ρ : Type) where
  stage : SweepStage := .between
  buf : InsertBuffer (List ρ)
  /-- A statement has run: the final flush has a schema to send under. -/
  schema : Bool := false
  /-- The rows the statement has decoded. -/
  decoded : Nat := 0
  /-- The inserts in flight. -/
  sends : List (List (List ρ)) := []
  /-- Every insert so far. -/
  sent : List (List (List ρ)) := []
  counters : Counters := {}
  warnings : Warnings := {}
  /-- The statement's open archive file. -/
  file : Option (List ρ) := none
  /-- The archive files that were completed. -/
  objects : List (List ρ) := []
  /-- Uploads neither completed nor aborted, the open file apart. -/
  leftOpen : Nat := 0

/-- The single statement of a partition flushes as it goes; a sweep is `deferred`. -/
def Sweep.init {ρ : Type} (ctx : SendCtx ρ) (deferred : Bool) : Sweep ρ :=
  { buf := .new ctx.insertTarget deferred }

inductive SweepEvent (ρ : Type) where
  | openWindow
  | startStream
  /-- `pressed` when no memory is free for the batch. -/
  | pushBatch (batch : List ρ) (pressed : Bool)
  | windowDone
  /-- `aborted` when the store took back the upload of its file. -/
  | windowCancelled (aborted : Bool)
  /-- The one statement of a partition, or the window of NULL keys, succeeds. -/
  | lastDone
  | finish
  /-- One of the inserts in flight succeeds. -/
  | landed (i : Nat)
  | done

namespace Sweep

variable {ρ : Type} (ctx : SendCtx ρ)

/-- Whatever is buffered becomes one insert. -/
def flush (s : Sweep ρ) : Sweep ρ :=
  if s.buf.isEmpty then s
  else { s with sends := s.sends ++ [s.buf.batches], sent := s.sent ++ [s.buf.batches], buf := s.buf.take }

def reportNullRows (s : Sweep ρ) : Sweep ρ :=
  { s with warnings := s.warnings.addCounts s.buf.nullRows, buf := s.buf.drainNullRows }

/-- The counts of a deferred statement wait for it to succeed. -/
def tally (s : Sweep ρ) (counts : List (WarningKind × String × Nat)) : Sweep ρ :=
  if s.buf.deferred then { s with buf := s.buf.holdBack counts }
  else { s with warnings := s.warnings.addCounts counts }

/-- Memory for one more batch: waiting for it with a full buffer could be waiting for oneself. -/
def reserve (s : Sweep ρ) (pressed : Bool) : Sweep ρ := if pressed then s.flush else s

def buffer (s : Sweep ρ) (rows : List ρ) (size : Nat) : Sweep ρ := { s with buf := s.buf.push rows size size }

def flushDue (s : Sweep ρ) : Sweep ρ := if s.buf.due then s.flush else s

def pushBatch (s : Sweep ρ) (batch : List ρ) (pressed : Bool) : Sweep ρ :=
  let (rows, counts) := ctx.guard batch
  let s := s.tally counts
  if rows = [] then s else ((s.reserve pressed).buffer rows (ctx.arrayMemorySize rows)).flushDue

/-- The archive file is written before the batch is pushed. -/
def writeBatch (s : Sweep ρ) (batch : List ρ) (pressed : Bool) : Sweep ρ :=
  let s := { s with decoded := s.decoded + batch.length, file := s.file.map (· ++ (ctx.guard batch).1) }
  s.pushBatch ctx batch pressed

/-- A statement that succeeded: its file is completed and its rows are counted. -/
def statementDone (s : Sweep ρ) : Sweep ρ :=
  { s with
    objects := s.objects ++ s.file.toList
    file := none
    counters := { s.counters with rowsRead := s.counters.rowsRead + s.decoded } }

def betweenWindows (s : Sweep ρ) : Sweep ρ :=
  let s := s.reportNullRows
  if s.buf.full && s.schema then s.flush else s

def finish (s : Sweep ρ) : Sweep ρ :=
  let s := s.reportNullRows
  if s.schema then s.flush else s

def step (s : Sweep ρ) : SweepEvent ρ → Option (Sweep ρ)
  | .openWindow =>
    if s.stage = .between then some { s with stage := .reading s.buf.mark false, decoded := 0 } else none
  | .startStream =>
    match s.stage with
    | .reading mark false =>
      some { s with stage := .reading mark true, schema := true, file := if ctx.archived then some [] else none }
    | _ => none
  | .pushBatch batch pressed =>
    match s.stage with
    | .reading _ true => some (s.writeBatch ctx batch pressed)
    | _ => none
  | .windowDone =>
    match s.stage with
    | .reading _ true =>
      if s.buf.deferred then some { s.statementDone.betweenWindows with stage := .between } else none
    | _ => none
  | .windowCancelled aborted =>
    match s.stage with
    | .reading mark _ =>
      if s.buf.deferred then
        some { s with
          stage := .between
          buf := s.buf.truncate mark
          file := none
          leftOpen := s.leftOpen + if s.file.isSome && !aborted then 1 else 0 }
      else none
    | _ => none
  | .lastDone =>
    match s.stage with
    | .reading _ true => some { s.statementDone with stage := .lastRead }
    | _ => none
  | .finish =>
    if s.stage = .lastRead ∨ (s.stage = .between ∧ s.buf.deferred = true) then
      some { s.finish with stage := .finishing }
    else none
  | .landed i =>
    match s.sends[i]? with
    | some group => some { s with
        sends := s.sends.eraseIdx i
        counters := { s.counters with
          rowsWritten := s.counters.rowsWritten + (group.map List.length).sum
          bytesWritten := s.counters.bytesWritten + ctx.insertBytes group } }
    | none => none
  | .done => if s.stage = .finishing ∧ s.sends = [] then some { s with stage := .finished } else none

end Sweep

/-! ### What the statements read -/

/-- The batches of the statements that succeeded, and of the one that runs. -/
structure ReadSoFar (ρ : Type) where
  kept : List (List ρ) := []
  current : List (List ρ) := []

def ReadSoFar.next {ρ : Type} (r : ReadSoFar ρ) : SweepEvent ρ → ReadSoFar ρ
  | .openWindow | .windowCancelled _ => { r with current := [] }
  | .pushBatch batch _ => { r with current := r.current ++ [batch] }
  | .windowDone | .lastDone => { kept := r.kept ++ r.current, current := [] }
  | .startStream | .finish | .landed _ | .done => r

/-- The batches read by the statements of the sweep that succeeded. -/
def successfulReads {ρ : Type} (es : List (SweepEvent ρ)) : List (List ρ) :=
  (es.foldl ReadSoFar.next {}).kept

/-- The batches as they are sent: past the null guard, and none that is left without rows. -/
def SendCtx.outgoing {ρ : Type} (ctx : SendCtx ρ) (batches : List (List ρ)) : List (List ρ) :=
  (batches.map fun b => (ctx.guard b).1).filter fun rows => !rows.isEmpty

/-- The null guard's counts for the batches. -/
def SendCtx.counts {ρ : Type} (ctx : SendCtx ρ) (batches : List (List ρ)) : List (WarningKind × String × Nat) :=
  batches.flatMap fun b => (ctx.guard b).2

namespace SendCtx

variable {ρ : Type} (ctx : SendCtx ρ)

theorem outgoing_append (batches more : List (List ρ)) :
    ctx.outgoing (batches ++ more) = ctx.outgoing batches ++ ctx.outgoing more := by
  unfold outgoing
  rw [List.map_append, List.filter_append]

theorem counts_append (batches more : List (List ρ)) :
    ctx.counts (batches ++ more) = ctx.counts batches ++ ctx.counts more := List.flatMap_append

theorem outgoing_singleton (batch : List ρ) :
    ctx.outgoing [batch] = if (ctx.guard batch).1 = [] then [] else [(ctx.guard batch).1] := by
  unfold outgoing
  rw [List.map_cons, List.map_nil, List.filter_cons, List.filter_nil]
  split_ifs with h1 h2 h2
  · simp [h2] at h1
  · rfl
  · rfl
  · simp [h2] at h1

/-- A batch left without rows adds none. -/
theorem outgoing_flatten_singleton (batch : List ρ) : (ctx.outgoing [batch]).flatten = (ctx.guard batch).1 := by
  rw [outgoing_singleton]
  split_ifs with h
  · rw [h, List.flatten_nil]
  · simp

end SendCtx

namespace Sweep

variable {ρ : Type} {ctx : SendCtx ρ} {s s' : Sweep ρ}

/-- The batches on their way to the destination, in order. -/
def out (s : Sweep ρ) : List (List ρ) := s.sent.flatten ++ s.buf.batches

/-- What was not touched by the write side. -/
structure Keeps (s s' : Sweep ρ) : Prop where
  stage : s'.stage = s.stage
  schema : s'.schema = s.schema
  decoded : s'.decoded = s.decoded
  counters : s'.counters = s.counters
  file : s'.file = s.file
  objects : s'.objects = s.objects
  leftOpen : s'.leftOpen = s.leftOpen
  deferred : s'.buf.deferred = s.buf.deferred

theorem Keeps.trans {s'' : Sweep ρ} (h : Keeps s s') (h' : Keeps s' s'') : Keeps s s'' where
  stage := h'.stage.trans h.stage
  schema := h'.schema.trans h.schema
  decoded := h'.decoded.trans h.decoded
  counters := h'.counters.trans h.counters
  file := h'.file.trans h.file
  objects := h'.objects.trans h.objects
  leftOpen := h'.leftOpen.trans h.leftOpen
  deferred := h'.deferred.trans h.deferred

/-- The buffer may have been sent. -/
structure Flushes (s s' : Sweep ρ) : Prop where
  keeps : Keeps s s'
  out : s'.out = s.out
  sends : ∃ gs, s'.sends = s.sends ++ gs ∧ s'.sent = s.sent ++ gs
  nullRows : s'.buf.nullRows = s.buf.nullRows
  warnings : s'.warnings = s.warnings
  takes : s' = s ∨ s.buf.takes < s'.buf.takes
  empty : s.buf.batches = [] → s'.buf.batches = []

theorem flushes_refl (s : Sweep ρ) : Flushes s s :=
  ⟨⟨rfl, rfl, rfl, rfl, rfl, rfl, rfl, rfl⟩, rfl, ⟨[], by simp⟩, rfl, rfl, Or.inl rfl, id⟩

theorem flushes_flush (s : Sweep ρ) : Flushes s s.flush := by
  unfold flush
  split_ifs with hempty
  · exact flushes_refl s
  · refine ⟨⟨rfl, rfl, rfl, rfl, rfl, rfl, rfl, rfl⟩, ?_, ⟨[s.buf.batches], rfl, rfl⟩, rfl, rfl, Or.inr ?_,
      fun _ => rfl⟩
    · simp [out]
    · exact Nat.lt_succ_self _

/-- A flush leaves nothing behind. -/
theorem flush_batches (s : Sweep ρ) : s.flush.buf.batches = [] := by
  unfold flush
  split_ifs with hempty
  · simpa [InsertBuffer.isEmpty] using hempty
  · rfl

theorem flushes_reserve (s : Sweep ρ) (pressed : Bool) : Flushes s (s.reserve pressed) := by
  unfold reserve
  split_ifs
  · exact flushes_flush s
  · exact flushes_refl s

theorem flushes_flushDue (s : Sweep ρ) : Flushes s s.flushDue := by
  unfold flushDue
  split_ifs
  · exact flushes_flush s
  · exact flushes_refl s

/-- A batch is tallied, and buffered when it has rows; the buffer may have been sent before it or with it. -/
structure Pushes (ctx : SendCtx ρ) (batch : List ρ) (s s' : Sweep ρ) : Prop where
  keeps : Keeps s s'
  out : s'.out = s.out ++ ctx.outgoing [batch]
  sends : ∃ gs, s'.sends = s.sends ++ gs ∧ s'.sent = s.sent ++ gs
  takes : (s'.buf.batches = s.buf.batches ++ ctx.outgoing [batch] ∧ s'.sent = s.sent ∧ s'.buf.takes = s.buf.takes) ∨
    s.buf.takes < s'.buf.takes
  deferred : s.buf.deferred = true →
    s'.buf.nullRows = s.buf.nullRows ++ (ctx.guard batch).2 ∧ s'.warnings = s.warnings
  direct : s.buf.deferred = false →
    s'.buf.nullRows = s.buf.nullRows ∧ s'.warnings = s.warnings.addCounts (ctx.guard batch).2

@[simp] theorem tally_out (s : Sweep ρ) (counts : List (WarningKind × String × Nat)) : (s.tally counts).out = s.out := by
  unfold tally
  split_ifs <;> rfl

@[simp] theorem tally_batches (s : Sweep ρ) (counts : List (WarningKind × String × Nat)) :
    (s.tally counts).buf.batches = s.buf.batches := by
  unfold tally
  split_ifs <;> rfl

@[simp] theorem tally_takes (s : Sweep ρ) (counts : List (WarningKind × String × Nat)) :
    (s.tally counts).buf.takes = s.buf.takes := by
  unfold tally
  split_ifs <;> rfl

@[simp] theorem tally_sends (s : Sweep ρ) (counts : List (WarningKind × String × Nat)) :
    (s.tally counts).sends = s.sends := by
  unfold tally
  split_ifs <;> rfl

@[simp] theorem tally_sent (s : Sweep ρ) (counts : List (WarningKind × String × Nat)) :
    (s.tally counts).sent = s.sent := by
  unfold tally
  split_ifs <;> rfl

theorem keeps_tally (s : Sweep ρ) (counts : List (WarningKind × String × Nat)) : Keeps s (s.tally counts) := by
  unfold tally
  split_ifs <;> exact ⟨rfl, rfl, rfl, rfl, rfl, rfl, rfl, rfl⟩

theorem tally_deferred {s : Sweep ρ} (h : s.buf.deferred = true) (counts : List (WarningKind × String × Nat)) :
    (s.tally counts).buf.nullRows = s.buf.nullRows ++ counts ∧ (s.tally counts).warnings = s.warnings := by
  unfold tally
  rw [if_pos h]
  exact ⟨rfl, rfl⟩

theorem tally_direct {s : Sweep ρ} (h : s.buf.deferred = false) (counts : List (WarningKind × String × Nat)) :
    (s.tally counts).buf.nullRows = s.buf.nullRows ∧ (s.tally counts).warnings = s.warnings.addCounts counts := by
  unfold tally
  rw [h, if_neg Bool.false_ne_true]
  exact ⟨rfl, rfl⟩

theorem buffer_out (s : Sweep ρ) (rows : List ρ) (size : Nat) : (s.buffer rows size).out = s.out ++ [rows] := by
  unfold out buffer
  simp

theorem pushes_pushBatch (ctx : SendCtx ρ) (s : Sweep ρ) (batch : List ρ) (pressed : Bool) :
    Pushes ctx batch s (s.pushBatch ctx batch pressed) := by
  have hkeeps := keeps_tally s (ctx.guard batch).2
  unfold pushBatch
  dsimp only
  by_cases hrows : (ctx.guard batch).1 = []
  · rw [if_pos hrows]
    have hout : ctx.outgoing [batch] = [] := by rw [SendCtx.outgoing_singleton, if_pos hrows]
    exact ⟨hkeeps, by simp [hout], ⟨[], by simp⟩, Or.inl ⟨by simp [hout], by simp, by simp⟩,
      fun h => tally_deferred h _, fun h => tally_direct h _⟩
  · rw [if_neg hrows]
    have hout : ctx.outgoing [batch] = [(ctx.guard batch).1] := by rw [SendCtx.outgoing_singleton, if_neg hrows]
    -- the tally, then a flush that makes room, the batch itself, and a flush of the full buffer
    generalize hs₁ : s.tally (ctx.guard batch).2 = s₁ at hkeeps ⊢
    have hreserve := flushes_reserve s₁ pressed
    generalize s₁.reserve pressed = s₂ at hreserve ⊢
    have hdue := flushes_flushDue (s₂.buffer (ctx.guard batch).1 (ctx.arrayMemorySize (ctx.guard batch).1))
    generalize (s₂.buffer (ctx.guard batch).1 (ctx.arrayMemorySize (ctx.guard batch).1)).flushDue = s₄ at hdue ⊢
    have hbuffer : Keeps s₂ (s₂.buffer (ctx.guard batch).1 (ctx.arrayMemorySize (ctx.guard batch).1)) :=
      ⟨rfl, rfl, rfl, rfl, rfl, rfl, rfl, rfl⟩
    refine ⟨((hkeeps.trans hreserve.keeps).trans hbuffer).trans hdue.keeps, ?_, ?_, ?_, fun h => ?_, fun h => ?_⟩
    · rw [hdue.out, buffer_out, hreserve.out, ← hs₁, tally_out, hout]
    · obtain ⟨gs, hsends, hsent⟩ := hreserve.sends
      obtain ⟨gs', hsends', hsent'⟩ := hdue.sends
      refine ⟨gs ++ gs', ?_, ?_⟩
      · rw [hsends', ← List.append_assoc]
        show s₂.sends ++ gs' = _
        rw [hsends, ← hs₁, tally_sends]
      · rw [hsent', ← List.append_assoc]
        show s₂.sent ++ gs' = _
        rw [hsent, ← hs₁, tally_sent]
    · have htakes : s₁.buf.takes = s.buf.takes := by rw [← hs₁, tally_takes]
      rcases hreserve.takes with rfl | hlt
      · rcases hdue.takes with rfl | hlt
        · left
          refine ⟨?_, ?_, htakes⟩
          · show s₂.buf.batches ++ [(ctx.guard batch).1] = _
            rw [hout, ← hs₁, tally_batches]
          · show s₂.sent = _
            rw [← hs₁, tally_sent]
        · right
          rw [← htakes]
          exact hlt
      · right
        have hle : s₂.buf.takes ≤ s₄.buf.takes := by
          rcases hdue.takes with rfl | hlt'
          · exact Nat.le_refl _
          · exact Nat.le_of_lt hlt'
        omega
    · obtain ⟨hnull, hwarnings⟩ := tally_deferred h (ctx.guard batch).2
      rw [hs₁] at hnull hwarnings
      rw [hdue.nullRows, hdue.warnings]
      show s₂.buf.nullRows = _ ∧ s₂.warnings = _
      rw [hreserve.nullRows, hreserve.warnings, hnull, hwarnings]
      exact ⟨rfl, rfl⟩
    · obtain ⟨hnull, hwarnings⟩ := tally_direct h (ctx.guard batch).2
      rw [hs₁] at hnull hwarnings
      rw [hdue.nullRows, hdue.warnings]
      show s₂.buf.nullRows = _ ∧ s₂.warnings = _
      rw [hreserve.nullRows, hreserve.warnings, hnull, hwarnings]
      exact ⟨rfl, rfl⟩

/-- The counts held back are reported, and the buffer may have been sent. -/
structure Reports (s s' : Sweep ρ) : Prop where
  keeps : Keeps s s'
  out : s'.out = s.out
  sends : ∃ gs, s'.sends = s.sends ++ gs ∧ s'.sent = s.sent ++ gs
  nullRows : s'.buf.nullRows = []
  warnings : s'.warnings = s.warnings.addCounts s.buf.nullRows
  empty : s.buf.batches = [] → s'.buf.batches = []

private theorem Flushes.reports (h : Flushes s.reportNullRows s') : Reports s s' where
  keeps := ⟨h.keeps.stage, h.keeps.schema, h.keeps.decoded, h.keeps.counters, h.keeps.file, h.keeps.objects,
    h.keeps.leftOpen, h.keeps.deferred⟩
  out := h.out
  sends := h.sends
  nullRows := h.nullRows
  warnings := h.warnings
  empty := h.empty

theorem reports_betweenWindows (s : Sweep ρ) : Reports s s.betweenWindows := by
  apply Flushes.reports
  unfold betweenWindows
  dsimp only
  split_ifs
  · exact flushes_flush _
  · exact flushes_refl _

theorem reports_finish (s : Sweep ρ) : Reports s s.finish := by
  apply Flushes.reports
  unfold finish
  dsimp only
  split_ifs
  · exact flushes_flush _
  · exact flushes_refl _

/-- The final flush has a schema wherever anything is buffered. -/
theorem finish_batches (h : s.schema = false → s.buf.batches = []) : s.finish.buf.batches = [] := by
  unfold finish
  dsimp only
  split_ifs with hschema
  · exact flush_batches _
  · exact h (by simpa [reportNullRows] using hschema)

end Sweep

/-! ### Where the batches are and what is counted of them -/

section

variable {ρ : Type} (ctx : SendCtx ρ)

def rowsOf (group : List (List ρ)) : Nat := (group.map List.length).sum

/-- While a statement runs.  What it has read so far is what a roll back to its mark takes away. -/
structure ReadingInv (s : Sweep ρ) (r : ReadSoFar ρ) (mark : BufferMark) (streaming : Bool) : Prop where
  decoded : s.decoded = rowsOf r.current
  file : s.file = if ctx.archived && streaming then some (ctx.outgoing r.current).flatten else none
  idle : streaming = false → r.current = []
  schema : streaming = true → s.schema = true
  mark_le : mark.takes ≤ s.buf.takes
  unsent : mark.takes = s.buf.takes → ∃ before since, s.buf.batches = before ++ since ∧ mark.len = before.length ∧
    s.sent.flatten ++ before = ctx.outgoing r.kept
  held : s.buf.deferred = true → mark.nullRows = 0 ∧
    ∀ kind column, tallyOf kind column s.warnings.nullRows = tallyOf kind column (ctx.counts r.kept)

def StageInv (s : Sweep ρ) (r : ReadSoFar ρ) : SweepStage → Prop
  | .reading mark streaming => ReadingInv ctx s r mark streaming
  | .between => r.current = [] ∧ s.file = none ∧ s.buf.nullRows = []
  | .lastRead => r.current = [] ∧ s.file = none
  | .finishing => r.current = [] ∧ s.file = none ∧ s.buf.nullRows = [] ∧ s.buf.batches = []
  | .finished => r.current = [] ∧ s.file = none ∧ s.buf.nullRows = [] ∧ s.buf.batches = [] ∧ s.sends = []

structure SendInv (s : Sweep ρ) (r : ReadSoFar ρ) : Prop where
  out : s.out = ctx.outgoing (r.kept ++ r.current)
  written : s.counters.rowsWritten + (s.sends.map rowsOf).sum = (s.sent.map rowsOf).sum
  bytes : s.counters.bytesWritten + (s.sends.map ctx.insertBytes).sum = (s.sent.map ctx.insertBytes).sum
  rowsRead : s.counters.rowsRead = rowsOf r.kept
  tallies : ∀ kind column, tallyOf kind column s.warnings.nullRows + tallyOf kind column s.buf.nullRows =
    tallyOf kind column (ctx.counts (r.kept ++ r.current))
  objects : s.objects.flatten = if ctx.archived then (ctx.outgoing r.kept).flatten else []
  schema : s.schema = false → s.buf.batches = []
  stage : StageInv ctx s r s.stage

end

/-- Nothing was sent of the window that is cancelled. -/
def CancelsUnsent {ρ : Type} (s : Sweep ρ) : SweepEvent ρ → Prop
  | .windowCancelled _ =>
    s.buf.deferred = true → ∀ mark streaming, s.stage = .reading mark streaming → mark.takes = s.buf.takes
  | _ => True

/-- No flush is forced by memory pressure. -/
def Unpressed {ρ : Type} (s : Sweep ρ) : SweepEvent ρ → Prop
  | .pushBatch _ pressed => pressed = true → s.buf.isEmpty = true
  | _ => True

instance {ρ : Type} (s : Sweep ρ) (e : SweepEvent ρ) : Decidable (Unpressed s e) :=
  match e with
  | .pushBatch _ pressed => inferInstanceAs (Decidable (pressed = true → s.buf.isEmpty = true))
  | .openWindow | .startStream | .windowDone | .windowCancelled _ | .lastDone | .finish | .landed _ | .done =>
    .isTrue trivial

namespace SendInv

variable {ρ : Type} {ctx : SendCtx ρ} {s s' : Sweep ρ} {r : ReadSoFar ρ}

theorem init (ctx : SendCtx ρ) (deferred : Bool) : SendInv ctx (Sweep.init ctx deferred) {} where
  out := rfl
  written := rfl
  bytes := rfl
  rowsRead := rfl
  tallies _ _ := rfl
  objects := by cases ctx.archived <;> rfl
  schema _ := rfl
  stage := ⟨rfl, rfl, rfl⟩

private theorem reading (h : SendInv ctx s r) {mark : BufferMark} {streaming : Bool}
    (hstage : s.stage = .reading mark streaming) : ReadingInv ctx s r mark streaming := by
  have := h.stage
  rwa [hstage] at this

theorem openWindow (h : SendInv ctx s r) (he : s.step ctx .openWindow = some s') :
    SendInv ctx s' (r.next .openWindow) := by
  simp only [Sweep.step] at he
  split_ifs at he with hstage
  obtain rfl := Option.some.inj he
  have hst := h.stage
  rw [hstage] at hst
  obtain ⟨hcurrent, hfile, hnull⟩ := hst
  have hr : r.next .openWindow = r := by
    cases r
    simp only [ReadSoFar.next] at hcurrent ⊢
    rw [hcurrent]
  rw [hr]
  refine ⟨h.out, h.written, h.bytes, h.rowsRead, h.tallies, h.objects, h.schema, ?_⟩
  refine ⟨by rw [hcurrent]; rfl, by simp [hfile], fun _ => hcurrent, fun h => (Bool.false_ne_true h).elim,
    Nat.le_refl _, fun _ => ⟨s.buf.batches, [], by simp, rfl, ?_⟩, fun _ => ⟨by simp [InsertBuffer.mark, hnull], ?_⟩⟩
  · have hout := h.out
    rw [hcurrent, List.append_nil] at hout
    exact hout
  · intro kind column
    have htallies := h.tallies kind column
    rw [hcurrent, List.append_nil, hnull, tallyOf_nil, Nat.add_zero] at htallies
    exact htallies

theorem startStream (h : SendInv ctx s r) (he : s.step ctx .startStream = some s') :
    SendInv ctx s' (r.next .startStream) := by
  simp only [Sweep.step] at he
  split at he
  · rename_i mark hstage
    obtain rfl := Option.some.inj he
    have hread := h.reading hstage
    refine ⟨h.out, h.written, h.bytes, h.rowsRead, h.tallies, h.objects, fun hs => ?_, ?_⟩
    · cases hs
    · refine ⟨hread.decoded, ?_, fun hf => ?_, fun _ => rfl, hread.mark_le, hread.unsent, hread.held⟩
      · rw [Bool.and_true, show (r.next .startStream).current = [] from hread.idle rfl]
        rfl
      · cases hf
  · cases he

/-- What is handed to a send is still to be counted. -/
private theorem counted_append {f : List (List ρ) → Nat} {n : Nat} {sends sent gs : List (List (List ρ))}
    (h : n + (sends.map f).sum = (sent.map f).sum) : n + ((sends ++ gs).map f).sum = ((sent ++ gs).map f).sum := by
  rw [List.map_append, List.sum_append, List.map_append, List.sum_append]
  omega

theorem pushBatch (h : SendInv ctx s r) {batch : List ρ} {pressed : Bool}
    (he : s.step ctx (.pushBatch batch pressed) = some s') : SendInv ctx s' (r.next (.pushBatch batch pressed)) := by
  simp only [Sweep.step] at he
  split at he
  · rename_i mark hstage
    obtain rfl := Option.some.inj he
    have hread := h.reading hstage
    unfold Sweep.writeBatch
    dsimp only
    have hpush := Sweep.pushes_pushBatch ctx
      { s with decoded := s.decoded + batch.length, file := s.file.map (· ++ (ctx.guard batch).1) } batch pressed
    generalize Sweep.pushBatch ctx _ batch pressed = s' at hpush ⊢
    obtain ⟨gs, hsends, hsent⟩ := hpush.sends
    have hkept : r.kept ++ (r.next (.pushBatch batch pressed)).current = (r.kept ++ r.current) ++ [batch] := by
      simp [ReadSoFar.next]
    refine ⟨?_, ?_, ?_, ?_, fun kind column => ?_, ?_, fun hs => ?_, ?_⟩
    · rw [hpush.out, show (r.next (.pushBatch batch pressed)).kept = r.kept from rfl, hkept,
        SendCtx.outgoing_append, ← h.out]
      rfl
    · rw [hpush.keeps.counters, hsends, hsent]
      exact counted_append h.written
    · rw [hpush.keeps.counters, hsends, hsent]
      exact counted_append h.bytes
    · rw [hpush.keeps.counters]
      exact h.rowsRead
    · have htallies := h.tallies kind column
      rw [show (r.next (.pushBatch batch pressed)).kept = r.kept from rfl, hkept, SendCtx.counts_append, tallyOf_append,
        ← htallies]
      have hcounts : ctx.counts [batch] = (ctx.guard batch).2 := by simp [SendCtx.counts]
      rw [hcounts]
      cases hdeferred : s.buf.deferred with
      | true =>
        obtain ⟨hnull, hwarnings⟩ := hpush.deferred hdeferred
        rw [hnull, hwarnings, tallyOf_append]
        dsimp only
        omega
      | false =>
        obtain ⟨hnull, hwarnings⟩ := hpush.direct hdeferred
        rw [hnull, hwarnings, Warnings.tallyOf_addCounts]
        dsimp only
        omega
    · rw [hpush.keeps.objects]
      exact h.objects
    · rw [hpush.keeps.schema] at hs
      rw [hread.schema rfl] at hs
      cases hs
    · rw [hpush.keeps.stage]
      show StageInv ctx s' _ s.stage
      rw [hstage]
      refine ⟨?_, ?_, fun hf => ?_, fun _ => ?_, ?_, fun htakes => ?_, fun hdeferred => ?_⟩
      · rw [hpush.keeps.decoded]
        show s.decoded + batch.length = rowsOf (r.current ++ [batch])
        rw [hread.decoded]
        simp [rowsOf]
      · rw [hpush.keeps.file]
        show s.file.map (· ++ (ctx.guard batch).1) = _
        rw [hread.file, show (r.next (.pushBatch batch pressed)).current = r.current ++ [batch] from rfl,
          SendCtx.outgoing_append, List.flatten_append, SendCtx.outgoing_flatten_singleton]
        split_ifs <;> rfl
      · cases hf
      · rw [hpush.keeps.schema]
        exact hread.schema rfl
      · have hle := hread.mark_le
        rcases hpush.takes with ⟨-, -, htakes⟩ | hlt
        · rw [htakes]
          exact hle
        · exact hle.trans (Nat.le_of_lt hlt)
      · rcases hpush.takes with ⟨hbatches, hsent', htakes'⟩ | hlt
        · rw [htakes'] at htakes
          obtain ⟨before, since, hold, hlen, hout⟩ := hread.unsent htakes
          refine ⟨before, since ++ ctx.outgoing [batch], ?_, hlen, ?_⟩
          · rw [hbatches, ← List.append_assoc]
            show s.buf.batches ++ _ = _
            rw [hold]
          · rw [hsent']
            exact hout
        · have hlt : s.buf.takes < s'.buf.takes := hlt
          have hle := hread.mark_le
          omega
      · rw [hpush.keeps.deferred] at hdeferred
        obtain ⟨hnull, htallies⟩ := hread.held hdeferred
        refine ⟨hnull, fun kind column => ?_⟩
        rw [(hpush.deferred hdeferred).2]
        exact htallies kind column
  · cases he

/-- A statement succeeds: its rows, its file and its counts are kept. -/
private theorem statementDone (h : SendInv ctx s r) {mark : BufferMark} (hstage : s.stage = .reading mark true)
    {r' : ReadSoFar ρ} (hr' : r' = { kept := r.kept ++ r.current, current := [] }) :
    s.statementDone.out = ctx.outgoing (r'.kept ++ r'.current) ∧
      s.statementDone.counters.rowsRead = rowsOf r'.kept ∧
      (∀ kind column, tallyOf kind column s.warnings.nullRows + tallyOf kind column s.buf.nullRows =
        tallyOf kind column (ctx.counts (r'.kept ++ r'.current))) ∧
      s.statementDone.objects.flatten = if ctx.archived then (ctx.outgoing r'.kept).flatten else [] := by
  have hread := h.reading hstage
  rw [hr']
  simp only [List.append_nil]
  refine ⟨h.out, ?_, h.tallies, ?_⟩
  · show s.counters.rowsRead + s.decoded = _
    rw [h.rowsRead, hread.decoded]
    simp [rowsOf]
  · show (s.objects ++ s.file.toList).flatten = _
    rw [List.flatten_append, h.objects, hread.file, Bool.and_true]
    split_ifs
    · rw [SendCtx.outgoing_append, List.flatten_append]
      simp
    · simp

theorem windowDone (h : SendInv ctx s r) (he : s.step ctx .windowDone = some s') :
    SendInv ctx s' (r.next .windowDone) := by
  simp only [Sweep.step] at he
  split at he
  · rename_i mark hstage
    split_ifs at he with hdeferred
    obtain rfl := Option.some.inj he
    have hread := h.reading hstage
    obtain ⟨hout, hrows, htallies, hobjects⟩ := h.statementDone hstage (Eq.refl (r.next .windowDone))
    have hreports := Sweep.reports_betweenWindows s.statementDone
    generalize s.statementDone.betweenWindows = s' at hreports ⊢
    obtain ⟨gs, hsends, hsent⟩ := hreports.sends
    refine ⟨hreports.out.trans hout, ?_, ?_, ?_, fun kind column => ?_, ?_, fun hs => ?_, rfl, ?_, hreports.nullRows⟩
    · show s'.counters.rowsWritten + (s'.sends.map rowsOf).sum = (s'.sent.map rowsOf).sum
      rw [hreports.keeps.counters, hsends, hsent]
      exact counted_append h.written
    · show s'.counters.bytesWritten + (s'.sends.map ctx.insertBytes).sum = (s'.sent.map ctx.insertBytes).sum
      rw [hreports.keeps.counters, hsends, hsent]
      exact counted_append h.bytes
    · show s'.counters.rowsRead = _
      rw [hreports.keeps.counters]
      exact hrows
    · show tallyOf kind column s'.warnings.nullRows + tallyOf kind column s'.buf.nullRows = _
      rw [hreports.warnings, hreports.nullRows, Warnings.tallyOf_addCounts, tallyOf_nil, Nat.add_zero]
      exact htallies kind column
    · show s'.objects.flatten = _
      rw [hreports.keeps.objects]
      exact hobjects
    · have hs : s'.schema = false := hs
      rw [hreports.keeps.schema] at hs
      exact absurd (hread.schema rfl) (by rw [show s.schema = false from hs]; simp)
    · show s'.file = none
      rw [hreports.keeps.file]
      rfl
  · cases he

/-- Nothing of the window was sent: the roll back takes all of it away. -/
theorem windowCancelled (h : SendInv ctx s r) {aborted : Bool}
    (hunsent : s.buf.deferred = true → ∀ mark streaming, s.stage = .reading mark streaming →
      mark.takes = s.buf.takes)
    (he : s.step ctx (.windowCancelled aborted) = some s') : SendInv ctx s' (r.next (.windowCancelled aborted)) := by
  simp only [Sweep.step] at he
  split at he
  · rename_i mark streaming hstage
    by_cases hdeferred : s.buf.deferred = true
    swap
    · rw [if_neg hdeferred] at he
      cases he
    rw [if_pos hdeferred] at he
    obtain rfl := Option.some.inj he
    have hread := h.reading hstage
    have htakes := hunsent hdeferred mark streaming hstage
    obtain ⟨before, since, hbatches, hlen, hout⟩ := hread.unsent htakes
    obtain ⟨hnull, htallies⟩ := hread.held hdeferred
    have hbefore := s.buf.truncate_batches htakes hbatches hlen
    refine ⟨?_, h.written, h.bytes, h.rowsRead, fun kind column => ?_, h.objects, fun hs => ?_, rfl, rfl, ?_⟩
    · show s.sent.flatten ++ (s.buf.truncate mark).batches = _
      rw [hbefore, hout]
      exact congrArg ctx.outgoing (List.append_nil _).symm
    · show tallyOf kind column s.warnings.nullRows + tallyOf kind column (s.buf.nullRows.take mark.nullRows) = _
      rw [hnull, List.take_zero, tallyOf_nil, Nat.add_zero, htallies]
      exact congrArg (fun batches => tallyOf kind column (ctx.counts batches)) (List.append_nil _).symm
    · show (s.buf.truncate mark).batches = []
      have hempty := h.schema hs
      rw [hbatches] at hempty
      rw [hbefore]
      exact (List.append_eq_nil_iff.mp hempty).1
    · show s.buf.nullRows.take mark.nullRows = []
      rw [hnull, List.take_zero]
  · cases he

theorem lastDone (h : SendInv ctx s r) (he : s.step ctx .lastDone = some s') :
    SendInv ctx s' (r.next .lastDone) := by
  simp only [Sweep.step] at he
  split at he
  · rename_i mark hstage
    obtain rfl := Option.some.inj he
    have hread := h.reading hstage
    obtain ⟨hout, hrows, htallies, hobjects⟩ := h.statementDone hstage (Eq.refl (r.next .lastDone))
    exact ⟨hout, h.written, h.bytes, hrows, htallies, hobjects, h.schema, rfl, rfl⟩
  · cases he

theorem finish (h : SendInv ctx s r) (he : s.step ctx .finish = some s') :
    SendInv ctx s' (r.next .finish) := by
  simp only [Sweep.step] at he
  split_ifs at he with hstage
  obtain rfl := Option.some.inj he
  have hidle : r.current = [] ∧ s.file = none := by
    have hst := h.stage
    rcases hstage with hlast | ⟨hbetween, -⟩
    · rw [hlast] at hst
      exact hst
    · rw [hbetween] at hst
      exact ⟨hst.1, hst.2.1⟩
  have hempty := Sweep.finish_batches h.schema
  have hreports := Sweep.reports_finish s
  generalize s.finish = s' at hreports hempty ⊢
  obtain ⟨gs, hsends, hsent⟩ := hreports.sends
  refine ⟨hreports.out.trans h.out, ?_, ?_, ?_, fun kind column => ?_, ?_, fun _ => hempty, hidle.1, ?_,
    hreports.nullRows, hempty⟩
  · show s'.counters.rowsWritten + (s'.sends.map rowsOf).sum = (s'.sent.map rowsOf).sum
    rw [hreports.keeps.counters, hsends, hsent]
    exact counted_append h.written
  · show s'.counters.bytesWritten + (s'.sends.map ctx.insertBytes).sum = (s'.sent.map ctx.insertBytes).sum
    rw [hreports.keeps.counters, hsends, hsent]
    exact counted_append h.bytes
  · show s'.counters.rowsRead = _
    rw [hreports.keeps.counters]
    exact h.rowsRead
  · show tallyOf kind column s'.warnings.nullRows + tallyOf kind column s'.buf.nullRows = _
    rw [hreports.warnings, hreports.nullRows, Warnings.tallyOf_addCounts, tallyOf_nil, Nat.add_zero]
    exact h.tallies kind column
  · show s'.objects.flatten = _
    rw [hreports.keeps.objects]
    exact h.objects
  · show s'.file = none
    rw [hreports.keeps.file]
    exact hidle.2

/-- What is landed is no longer in flight. -/
private theorem sum_eraseIdx {f : List (List ρ) → Nat} {sends : List (List (List ρ))} {i : Nat}
    {group : List (List ρ)} (h : sends[i]? = some group) :
    f group + ((sends.eraseIdx i).map f).sum = (sends.map f).sum := by
  obtain ⟨hi, rfl⟩ := List.getElem?_eq_some_iff.mp h
  have hperm := ((List.getElem_cons_eraseIdx_perm hi).map f).sum_eq
  rw [List.map_cons, List.sum_cons] at hperm
  exact hperm

theorem landed (h : SendInv ctx s r) {i : Nat} (he : s.step ctx (.landed i) = some s') :
    SendInv ctx s' (r.next (.landed i)) := by
  simp only [Sweep.step] at he
  split at he
  · rename_i group hgroup
    obtain rfl := Option.some.inj he
    refine ⟨h.out, ?_, ?_, h.rowsRead, h.tallies, h.objects, h.schema, ?_⟩
    · have hsum := @sum_eraseIdx _ rowsOf _ _ _ hgroup
      have hwritten := h.written
      simp only [rowsOf] at hsum hwritten ⊢
      omega
    · have hsum := @sum_eraseIdx _ ctx.insertBytes _ _ _ hgroup
      have hbytes := h.bytes
      dsimp only
      omega
    · have hst := h.stage
      cases hstage : s.stage with
      | between =>
        rw [hstage] at hst
        exact hst
      | lastRead =>
        rw [hstage] at hst
        exact hst
      | finishing =>
        rw [hstage] at hst
        exact hst
      | finished =>
        rw [hstage] at hst
        obtain ⟨-, -, -, -, hsends⟩ := hst
        rw [hsends] at hgroup
        cases hgroup
      | reading mark streaming =>
        have hread := h.reading hstage
        exact ⟨hread.decoded, hread.file, hread.idle, hread.schema, hread.mark_le, hread.unsent, hread.held⟩
  · cases he

theorem done (h : SendInv ctx s r) (he : s.step ctx .done = some s') : SendInv ctx s' (r.next .done) := by
  simp only [Sweep.step] at he
  split_ifs at he with hdone
  obtain rfl := Option.some.inj he
  have hst := h.stage
  rw [hdone.1] at hst
  obtain ⟨hcurrent, hfile, hnull, hbatches⟩ := hst
  exact ⟨h.out, h.written, h.bytes, h.rowsRead, h.tallies, h.objects, h.schema, hcurrent, hfile, hnull, hbatches,
    hdone.2⟩

theorem step (h : SendInv ctx s r) {e : SweepEvent ρ}
    (hunsent : CancelsUnsent s e) (he : s.step ctx e = some s') : SendInv ctx s' (r.next e) := by
  cases e with
  | openWindow => exact h.openWindow he
  | startStream => exact h.startStream he
  | pushBatch batch pressed => exact h.pushBatch he
  | windowDone => exact h.windowDone he
  | windowCancelled aborted => exact h.windowCancelled hunsent he
  | lastDone => exact h.lastDone he
  | finish => exact h.finish he
  | landed i => exact h.landed he
  | done => exact h.done he

end SendInv

section

variable {ρ : Type} {ctx : SendCtx ρ} {s s' : Sweep ρ}

theorem sendInv_exec {r : ReadSoFar ρ} {es : List (SweepEvent ρ)} (h : SendInv ctx s r)
    (hexec : exec (Sweep.step ctx) s es = some s') (hunsent : Along (Sweep.step ctx) CancelsUnsent s es) :
    SendInv ctx s' (es.foldl ReadSoFar.next r) := by
  induction es generalizing s r with
  | nil =>
    obtain rfl := Option.some.inj hexec
    exact h
  | cons e es ih =>
    obtain ⟨t, ht, hexec⟩ := exec_cons.mp hexec
    exact ih (h.step hunsent.1 ht) hexec (hunsent.2 t ht)

/-- The statement of a sweep that runs has sent nothing. -/
def Unsent (s : Sweep ρ) : Prop :=
  s.buf.deferred = true → ∀ mark streaming, s.stage = .reading mark streaming → mark.takes = s.buf.takes

private theorem pushBatch_takes {batch : List ρ} {pressed : Bool} (hdeferred : s.buf.deferred = true)
    (hpressed : pressed = true → s.buf.isEmpty = true) : (s.pushBatch ctx batch pressed).buf.takes = s.buf.takes := by
  have hkeeps := Sweep.keeps_tally s (ctx.guard batch).2
  have htakes := Sweep.tally_takes s (ctx.guard batch).2
  have hbatches := Sweep.tally_batches s (ctx.guard batch).2
  unfold Sweep.pushBatch
  dsimp only
  generalize s.tally (ctx.guard batch).2 = s₁ at hkeeps htakes hbatches ⊢
  split_ifs
  · exact htakes
  · have hreserve : s₁.reserve pressed = s₁ := by
      unfold Sweep.reserve
      split_ifs with hp
      · have hempty : s₁.buf.isEmpty = true := by
          have := hpressed hp
          unfold InsertBuffer.isEmpty at this ⊢
          rwa [hbatches]
        unfold Sweep.flush
        rw [if_pos hempty]
      · rfl
    rw [hreserve]
    have hdue : (s₁.buffer (ctx.guard batch).1 (ctx.arrayMemorySize (ctx.guard batch).1)).buf.due = false := by
      unfold InsertBuffer.due Sweep.buffer
      rw [InsertBuffer.push_deferred, hkeeps.deferred, hdeferred]
      rfl
    unfold Sweep.flushDue
    rw [hdue, if_neg Bool.false_ne_true]
    exact htakes

private theorem Unsent.step (h : Unsent s) {e : SweepEvent ρ} (hpressed : Unpressed s e)
    (he : s.step ctx e = some s') : Unsent s' := by
  intro hdeferred mark streaming hstage
  cases e with
  | openWindow =>
    simp only [Sweep.step] at he
    split_ifs at he
    obtain rfl := Option.some.inj he
    obtain ⟨rfl, -⟩ := SweepStage.reading.inj hstage
    rfl
  | startStream =>
    simp only [Sweep.step] at he
    split at he
    · rename_i m hold
      obtain rfl := Option.some.inj he
      obtain ⟨rfl, -⟩ := SweepStage.reading.inj hstage
      exact h hdeferred _ _ hold
    · cases he
  | pushBatch batch pressed =>
    simp only [Sweep.step] at he
    split at he
    · rename_i m hold
      obtain rfl := Option.some.inj he
      have hpush := Sweep.pushes_pushBatch ctx
        { s with decoded := s.decoded + batch.length, file := s.file.map (· ++ (ctx.guard batch).1) } batch pressed
      have hd : s.buf.deferred = true := by
        rw [← hdeferred]
        exact hpush.keeps.deferred.symm
      have hs : s.stage = .reading mark streaming := by
        rw [← hstage]
        exact hpush.keeps.stage.symm
      have htakes : (Sweep.pushBatch ctx
          { s with decoded := s.decoded + batch.length, file := s.file.map (· ++ (ctx.guard batch).1) }
          batch pressed).buf.takes = s.buf.takes := pushBatch_takes hd hpressed
      rw [h hd _ _ hs]
      exact htakes.symm
    · cases he
  | windowDone =>
    simp only [Sweep.step] at he
    split at he
    · split_ifs at he
      obtain rfl := Option.some.inj he
      cases hstage
    · cases he
  | windowCancelled aborted =>
    simp only [Sweep.step] at he
    split at he
    · split_ifs at he <;> obtain rfl := Option.some.inj he <;> cases hstage
    · cases he
  | lastDone =>
    simp only [Sweep.step] at he
    split at he
    · obtain rfl := Option.some.inj he
      cases hstage
    · cases he
  | finish =>
    simp only [Sweep.step] at he
    split_ifs at he
    obtain rfl := Option.some.inj he
    cases hstage
  | landed i =>
    simp only [Sweep.step] at he
    split at he
    · obtain rfl := Option.some.inj he
      exact h hdeferred mark streaming hstage
    · cases he
  | done =>
    simp only [Sweep.step] at he
    split_ifs at he
    obtain rfl := Option.some.inj he
    cases hstage

/-- Without memory pressure a cancelled window has sent nothing. -/
theorem cancelsUnsent_of_unpressed {es : List (SweepEvent ρ)} (h : Unsent s)
    (hpressed : Along (Sweep.step ctx) Unpressed s es) : Along (Sweep.step ctx) CancelsUnsent s es := by
  induction es generalizing s with
  | nil => trivial
  | cons e es ih =>
    refine ⟨?_, fun t ht => ih (h.step hpressed.1 ht) (hpressed.2 t ht)⟩
    cases e with
    | windowCancelled aborted => exact h
    | _ => trivial

end

/-- The batches of the statements that succeeded are sent, each once and in their order, and nothing else is sent or
counted. -/
theorem sweep_sends_successful_reads {ρ : Type} (ctx : SendCtx ρ) (deferred : Bool) {es : List (SweepEvent ρ)}
    {s : Sweep ρ} (hexec : exec (Sweep.step ctx) (Sweep.init ctx deferred) es = some s) (hdone : s.stage = .finished)
    (hpressed : Along (Sweep.step ctx) Unpressed (Sweep.init ctx deferred) es) :
    s.sent.flatten = ctx.outgoing (successfulReads es) ∧
      s.counters.rowsRead = rowsOf (successfulReads es) ∧
      s.counters.rowsWritten = rowsOf (ctx.outgoing (successfulReads es)) ∧
      s.counters.bytesWritten = (s.sent.map ctx.insertBytes).sum ∧
      ∀ kind column, tallyOf kind column s.warnings.nullRows =
        tallyOf kind column (ctx.counts (successfulReads es)) := by
  have hunsent : Unsent (Sweep.init ctx deferred) := fun _ mark streaming hstage => by cases hstage
  have hinv := sendInv_exec (SendInv.init ctx deferred) hexec (cancelsUnsent_of_unpressed hunsent hpressed)
  obtain ⟨hcurrent, -, hnull, hbatches, hsends⟩ : StageInv ctx s (es.foldl ReadSoFar.next {}) .finished :=
    hdone ▸ hinv.stage
  have hout : s.sent.flatten = ctx.outgoing (successfulReads es) := by
    have := hinv.out
    rwa [Sweep.out, hbatches, List.append_nil, hcurrent, List.append_nil] at this
  refine ⟨hout, hinv.rowsRead, ?_, ?_, fun kind column => ?_⟩
  · have hwritten := hinv.written
    rw [hsends, List.map_nil, List.sum_nil, Nat.add_zero] at hwritten
    rw [hwritten, ← hout]
    simp only [rowsOf, List.map_flatten, List.sum_flatten, List.map_map]
    rfl
  · have hbytes := hinv.bytes
    rwa [hsends, List.map_nil, List.sum_nil, Nat.add_zero] at hbytes
  · have htallies := hinv.tallies kind column
    rwa [hnull, tallyOf_nil, Nat.add_zero, hcurrent, List.append_nil] at htallies


/-- Odd rows are left out by the guard and counted under one column. -/
def oddsLeftOut : SendCtx Nat where
  guard batch := (batch.filter fun n => n % 2 = 0, [(.nullKey, "id", batch.countP fun n => n % 2 = 1)])
  arrayMemorySize rows := 8 * rows.length
  insertBytes group := 10 + 8 * (group.map List.length).sum
  archived := true
  insertTarget := 8

/-- The first window is cancelled after a batch and read again. -/
def sweepReadTwice : List (SweepEvent Nat) :=
  [.openWindow, .startStream, .pushBatch [1, 2] false, .windowCancelled true,
    .openWindow, .startStream, .pushBatch [1, 2] false, .pushBatch [3] false, .windowDone,
    .openWindow, .startStream, .pushBatch [4] false, .windowDone, .landed 0, .finish, .landed 0, .done]

theorem sweep_sends_successful_reads_twice :
    ∃ s, exec (Sweep.step oddsLeftOut) (Sweep.init oddsLeftOut true) sweepReadTwice = some s ∧
      s.sent.flatten = [[2], [4]] ∧ s.counters = { rowsRead := 4, rowsWritten := 2, bytesWritten := 36 } ∧
      tallyOf .nullKey "id" s.warnings.nullRows = 2 := by
  have hrun : (exec (Sweep.step oddsLeftOut) (Sweep.init oddsLeftOut true) sweepReadTwice).any
      (fun s => decide (s.stage = .finished ∧ s.sent = [[[2]], [[4]]])) = true := by
    decide +kernel
  obtain ⟨s, hs, hrun⟩ := (Option.any_eq_true _ _).mp hrun
  obtain ⟨hdone, hsent⟩ := of_decide_eq_true hrun
  have hreads : successfulReads sweepReadTwice = [[1, 2], [3], [4]] := rfl
  obtain ⟨hout, hread, hwritten, hbytes, htallies⟩ :=
    sweep_sends_successful_reads oddsLeftOut true hs hdone (by decide +kernel)
  rw [hreads] at hout hread hwritten htallies
  rw [hsent] at hbytes
  refine ⟨s, hs, hout, ?_, htallies .nullKey "id"⟩
  rw [← show Counters.mk s.counters.rowsRead s.counters.rowsWritten s.counters.bytesWritten = s.counters from rfl,
    hread, hwritten, hbytes]
  decide

end Quickhouse
