import Quickhouse.Config
import Quickhouse.Watermark

/-!
# The cursor plan of a run

Where an incremental run starts, which bound it reads up to, and which cursor it saves when it ends.
-/

namespace Quickhouse

open Binary64

/-- What the run's end needs of how it started. -/
structure CursorPlan where
  /-- The bound is the one a resume marker froze. -/
  pinned : Bool := false
  /-- There was no committed cursor. -/
  seeded : Bool := false
  /-- The run resumes past a marker that froze no bound. -/
  keepCommitted : Bool := false
  /-- The committed cursor was ahead of the source. -/
  rewindToMax : Bool := false
  /-- A cursor moved back is never moved below it. -/
  floor : Option CursorText := none
  last : Option CursorText := none
  deriving DecidableEq, Repr

/-- The lower bound of a first run.  `textOf` is what the text of a cursor reads as. -/
def seedValue (textOf : String → CursorText) (seed : WatermarkSeed) (snapshotMax : Option CursorText) :
    Option CursorText :=
  match seed with
  | .none => none
  | .value v => some (textOf v)
  | .currentMax => snapshotMax

/-- A seed is only a floor when it parses in the tracker's own unit. -/
def cursorFloor (committed seed : Option CursorText) (tracker : Option WatermarkTracker) : Option CursorText :=
  match committed with
  | some c => some c
  | none => seed.filter fun s => tracker.any fun t => (t.unit.parse s).isSome

/-- How a run's read was made. -/
structure ReadShape where
  maxFromTable : Bool
  spansStatements : Bool
  appending : Bool
  stageSecs : F64

/-- The cursor a run saves after its read.  `effectiveUpper` is the bound the read was held to. -/
def newWatermark (dated : Int → Bool) (lookbackSeconds : Nat) (plan : CursorPlan) (shape : ReadShape)
    (tracker : Option WatermarkTracker) (effectiveUpper : Option CursorText) : Option CursorText :=
  let spans := shape.spansStatements && !shape.appending
  if plan.pinned then effectiveUpper
  else if plan.keepCommitted then none
  else
    match tracker with
    | some t =>
      if shape.maxFromTable then
        if plan.rewindToMax then effectiveUpper
        else
          let rewind := if spans then streamCursorRewindSecs shape.stageSecs lookbackSeconds else 0
          (t.advanceFrom dated plan.floor rewind).or (if plan.seeded then plan.last else none)
      else
        let rewind := if spans then t.streamRewindSecs shape.stageSecs lookbackSeconds else 0
        t.renderRewound dated rewind plan.floor
    | none => effectiveUpper

end Quickhouse
