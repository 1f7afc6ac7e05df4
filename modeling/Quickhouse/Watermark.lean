import Quickhouse.Lib.Binary64
import Quickhouse.Lib.MachineInt

/-!
# Watermarks and cursors taken from the rows read

When the `MAX(watermark)` probe is too costly the cursor is the largest watermark the run has read, folded in the
column's own unit, and moved back by the time the read took beyond the lookback.

An instant is a number of microseconds since the epoch.  `rewound_covers` is the bound all stream cursors rest
on: a cursor moved back by as much lies, less the lookback, no later than the start of the read, unless it is at
or below the floor, and every stamp given after the start of the read is above it.
-/

namespace Quickhouse

open MachineInt Binary64

def microsPerSec : Int := 1000000
def microsPerDay : Int := 86400000000

/-! ### Units and the text of a cursor -/

/-- What the text of a cursor reads as: microseconds, with a UTC offset or without, a decimal integer, or
neither. -/
inductive CursorText where
  | temporal (micros : Int) (zoned : Bool)
  | digits (n : Int)
  | other (text : String)
  deriving DecidableEq, Repr

/-- How a watermark column is folded. -/
inductive WatermarkUnit where
  | naiveMicros
  | utcMicros
  | days
  | int
  deriving DecidableEq, Repr

namespace WatermarkUnit

def parse : WatermarkUnit → CursorText → Option Int
  | .int, .digits n => if InI64 n then some n else none
  | .naiveMicros, .temporal micros zoned => if zoned then none else some micros
  | .utcMicros, .temporal micros zoned => if zoned then some micros else none
  | .days, .temporal micros zoned => if zoned then none else some (micros / microsPerDay)
  | _, _ => none

/-- A committed cursor of a `timestamptz` is taken as UTC when it has no offset. -/
def parseFloor : WatermarkUnit → CursorText → Option Int
  | .utcMicros, .temporal micros _ => some micros
  | unit, cursor => unit.parse cursor

/-- The literal the next run's filter compares against, if the calendar holds the instant. -/
def renderValue (dated : Int → Bool) : WatermarkUnit → Int → Option CursorText
  | .naiveMicros, v => if dated v then some (.temporal v false) else none
  | .utcMicros, v => if dated v then some (.temporal v true) else none
  | .days, v => if dated (v * microsPerDay) then some (.temporal (v * microsPerDay) false) else none
  | .int, v => some (.digits v)

/-- The instant a value of the column stands for. -/
def instant : WatermarkUnit → Int → Int
  | .days, v => v * microsPerDay
  | _, v => v

/-- What the source's clock stamps at an instant. -/
def stamp : WatermarkUnit → Int → Int
  | .days, t => t / microsPerDay
  | _, t => t

theorem parse_renderValue {dated : Int → Bool} {unit : WatermarkUnit} {v : Int} {cursor : CursorText}
    (hunit : unit ≠ .int) (h : unit.renderValue dated v = some cursor) : unit.parse cursor = some v := by
  cases unit with
  | int => exact absurd rfl hunit
  | days =>
    simp only [renderValue, Option.ite_none_right_eq_some, Option.some.injEq] at h
    obtain ⟨-, rfl⟩ := h
    simp [parse, Int.mul_ediv_cancel _ (show microsPerDay ≠ 0 by decide)]
  | naiveMicros =>
    simp only [renderValue, Option.ite_none_right_eq_some, Option.some.injEq] at h
    obtain ⟨-, rfl⟩ := h
    simp [parse]
  | utcMicros =>
    simp only [renderValue, Option.ite_none_right_eq_some, Option.some.injEq] at h
    obtain ⟨-, rfl⟩ := h
    simp [parse]

theorem parseFloor_of_parse {unit : WatermarkUnit} {cursor : CursorText} {v : Int}
    (h : unit.parse cursor = some v) : unit.parseFloor cursor = some v := by
  cases unit with
  | utcMicros =>
    cases cursor with
    | temporal micros zoned => cases zoned <;> simp_all [parse, parseFloor]
    | digits n => exact h
    | other text => exact h
  | naiveMicros => exact h
  | days => exact h
  | int => exact h

theorem instant_stamp_le (unit : WatermarkUnit) (t : Int) : unit.instant (unit.stamp t) ≤ t := by
  cases unit <;> simp only [instant, stamp, microsPerDay, le_refl]
  omega

theorem stamp_mono (unit : WatermarkUnit) {s t : Int} (h : s ≤ t) : unit.stamp s ≤ unit.stamp t := by
  cases unit <;> simp only [stamp, microsPerDay] <;> omega

theorem instant_le_instant (unit : WatermarkUnit) {v w : Int} : unit.instant v ≤ unit.instant w ↔ v ≤ w := by
  cases unit <;> simp only [instant, microsPerDay]
  omega

end WatermarkUnit

/-! ### The tracker -/

/-- The largest watermark read so far; `i64Min` is "nothing seen yet". -/
structure WatermarkTracker where
  unit : WatermarkUnit
  max : Int := i64Min
  deriving DecidableEq, Repr

/-- The largest non-NULL value of a column. -/
def foldMax (values : List (Option Int)) : Int :=
  values.foldl (fun m v => v.elim m (Max.max m)) i64Min

/-- How far to move a cursor back, in seconds, after a read of several statements that took `readSecs`. -/
def streamCursorRewindSecs (readSecs : F64) (lookbackSeconds : Nat) : Nat :=
  (readSecs.max .zero).ceil.toU64 - lookbackSeconds

namespace WatermarkTracker

def observe (t : WatermarkTracker) (values : List (Option Int)) : WatermarkTracker :=
  if i64Min < foldMax values then { t with max := Max.max t.max (foldMax values) } else t

def rewindStep (t : WatermarkTracker) (rewindSecs : Nat) : Int :=
  match t.unit with
  | .naiveMicros | .utcMicros => saturatingMul (min (rewindSecs : Int) i64Max) 1000000
  | .days => min ((rewindSecs + 86399) / 86400 : Nat) i64Max
  | .int => 0

/-- A `DATE` is the day of a change, up to a day before it, so the lookback covers a day less of the read. -/
def streamRewindSecs (t : WatermarkTracker) (readSecs : F64) (lookbackSeconds : Nat) : Nat :=
  let covered := match t.unit with
    | .days => lookbackSeconds - 86400
    | _ => lookbackSeconds
  streamCursorRewindSecs readSecs covered

def rewound (t : WatermarkTracker) (rewindSecs : Nat) (floor : Option CursorText) : Option Int :=
  if t.max = i64Min then none
  else if 0 < rewindSecs then
    let v := saturatingSub t.max (t.rewindStep rewindSecs)
    match floor.bind t.unit.parseFloor with
    | some f => some (Max.max v (min f t.max))
    | none => some v
  else some t.max

def renderRewound (dated : Int → Bool) (t : WatermarkTracker) (rewindSecs : Nat) (floor : Option CursorText) :
    Option CursorText :=
  (t.rewound rewindSecs floor).bind (t.unit.renderValue dated)

/-- The cursor after a read bounded by the table's own MAX: none when nothing was read past the floor. -/
def advanceFrom (dated : Int → Bool) (t : WatermarkTracker) (floor : Option CursorText) (rewindSecs : Nat) :
    Option CursorText :=
  if t.max = i64Min then none
  else
    let v := saturatingSub t.max (t.rewindStep rewindSecs)
    match floor.bind t.unit.parseFloor with
    | some f => if v ≤ f then none else t.unit.renderValue dated v
    | none => t.unit.renderValue dated v

/-! ### What the tracker has seen -/

theorem foldMax_le_iff {values : List (Option Int)} {b : Int} :
    foldMax values ≤ b ↔ i64Min ≤ b ∧ ∀ v, some v ∈ values → v ≤ b := by
  have hgen : ∀ (values : List (Option Int)) (m : Int),
      values.foldl (fun m v => v.elim m (Max.max m)) m ≤ b ↔ m ≤ b ∧ ∀ v, some v ∈ values → v ≤ b := by
    intro values
    induction values with
    | nil => simp
    | cons a l ih =>
      intro m
      rw [List.foldl_cons, ih]
      cases a with
      | none => simp
      | some w =>
        simp only [Option.elim_some, max_le_iff, List.mem_cons, Option.some.injEq, forall_eq_or_imp, and_assoc]
  exact hgen values i64Min

@[simp] theorem observe_unit (t : WatermarkTracker) (values : List (Option Int)) :
    (t.observe values).unit = t.unit := by
  unfold observe
  split <;> rfl

theorem le_observe_max (t : WatermarkTracker) (values : List (Option Int)) : t.max ≤ (t.observe values).max := by
  unfold observe
  split
  · exact le_max_left _ _
  · exact le_refl _

theorem observe_max_le {t : WatermarkTracker} {values : List (Option Int)} {b : Int} (hb : i64Min ≤ b)
    (ht : t.max ≤ b) (h : ∀ v, some v ∈ values → v ≤ b) : (t.observe values).max ≤ b := by
  unfold observe
  split
  · exact max_le ht (foldMax_le_iff.mpr ⟨hb, h⟩)
  · exact ht

/-! ### Moving the cursor back -/

theorem rewindStep_nonneg (t : WatermarkTracker) (rewindSecs : Nat) : 0 ≤ t.rewindStep rewindSecs := by
  unfold rewindStep saturatingMul clampI64 i64Max i64Min
  split <;> omega

theorem rewindStep_zero (t : WatermarkTracker) : t.rewindStep 0 = 0 := by
  unfold rewindStep saturatingMul clampI64 i64Max i64Min
  cases t.unit <;> simp

/-- A rewound cursor is the largest watermark moved back, or it is held up by the floor. -/
theorem rewound_cases {t : WatermarkTracker} (hmax : InI64 t.max) {rewindSecs : Nat} {floor : Option CursorText}
    {v : Int} (h : t.rewound rewindSecs floor = some v) :
    v ≤ t.max ∧ (v = saturatingSub t.max (t.rewindStep rewindSecs) ∨
      ∃ f, floor.bind t.unit.parseFloor = some f ∧ v ≤ f) := by
  have hle := saturatingSub_le hmax (t.rewindStep_nonneg rewindSecs)
  unfold rewound at h
  split_ifs at h with h0 h1
  · cases hf : floor.bind t.unit.parseFloor with
    | none =>
      simp only [hf, Option.some.injEq] at h
      exact ⟨by omega, Or.inl h.symm⟩
    | some f =>
      simp only [hf, Option.some.injEq] at h
      refine ⟨by omega, ?_⟩
      by_cases hlt : v = saturatingSub t.max (t.rewindStep rewindSecs)
      · exact Or.inl hlt
      · exact Or.inr ⟨f, rfl, by omega⟩
  · obtain rfl := Option.some.inj h
    refine ⟨le_refl _, Or.inl ?_⟩
    obtain rfl : rewindSecs = 0 := by omega
    unfold saturatingSub
    rw [rewindStep_zero, sub_zero, clampI64_eq hmax]

/-- It stays in range. -/
theorem le_of_rewound {t : WatermarkTracker} (hmax : InI64 t.max) {rewindSecs : Nat} {floor : Option CursorText}
    {v : Int} (h : t.rewound rewindSecs floor = some v) : i64Min ≤ v := by
  have hle := (clampI64_mem (t.max - t.rewindStep rewindSecs)).1
  unfold rewound at h
  split_ifs at h with h0 h1
  · cases hf : floor.bind t.unit.parseFloor with
    | none =>
      simp only [hf, Option.some.injEq] at h
      rw [← h]
      exact hle
    | some f =>
      simp only [hf, Option.some.injEq] at h
      rw [← h]
      exact hle.trans (le_max_left _ _)
  · obtain rfl := Option.some.inj h
    exact hmax.1

/-- The cursor moves to the largest value moved back, if that is past the floor. -/
theorem advanceFrom_eq {dated : Int → Bool} {t : WatermarkTracker} {floor : Option CursorText} {f : Int}
    (hfloor : floor.bind t.unit.parseFloor = some f) (hf : i64Min ≤ f) (hmax : InI64 t.max) (rewindSecs : Nat) :
    t.advanceFrom dated floor rewindSecs =
      if f < t.max - t.rewindStep rewindSecs then t.unit.renderValue dated (t.max - t.rewindStep rewindSecs)
      else none := by
  have hstep := t.rewindStep_nonneg rewindSecs
  have hrange := hmax.2
  unfold advanceFrom
  rw [hfloor]
  dsimp only
  by_cases hlt : f < t.max - t.rewindStep rewindSecs
  · have hexact : saturatingSub t.max (t.rewindStep rewindSecs) = t.max - t.rewindStep rewindSecs :=
      clampI64_eq ⟨by omega, by omega⟩
    rw [if_pos hlt, hexact, if_neg (by omega), if_neg (by omega)]
  · have hclamp : saturatingSub t.max (t.rewindStep rewindSecs) ≤ f := by
      unfold saturatingSub clampI64
      omega
    rw [if_neg hlt, if_pos hclamp, ite_self]

end WatermarkTracker

/-! ### How far back is far enough -/

/-- A double number of seconds is no shorter than so many microseconds. -/
def coversMicros (secs : F64) (micros : Nat) : Bool :=
  match secs with
  | .fin q _ => (micros : ℚ) ≤ q * (1000000 : ℕ)
  | _ => false

/-- A cursor at `v`, less the lookback, is no later than `start`, and below every stamp given after it. -/
structure RereadsFrom (unit : WatermarkUnit) (lookbackSeconds start : Nat) (v : Int) : Prop where
  le_start : unit.instant v - lookbackSeconds * microsPerSec ≤ start
  passes : ∀ τ : Nat, start < τ → unit.instant v - lookbackSeconds * microsPerSec < unit.instant (unit.stamp τ)

theorem RereadsFrom.anti {unit : WatermarkUnit} {lookbackSeconds start : Nat} {v w : Int}
    (h : RereadsFrom unit lookbackSeconds start v) (hw : w ≤ v) : RereadsFrom unit lookbackSeconds start w where
  le_start := by
    have := (unit.instant_le_instant).mpr hw
    have := h.le_start
    omega
  passes τ hτ := by
    have := (unit.instant_le_instant).mpr hw
    have := h.passes τ hτ
    omega

theorem RereadsFrom.of_le_stamp {unit : WatermarkUnit} {lookbackSeconds start : Nat} {v : Int}
    (hlookback : unit = .days → 0 < lookbackSeconds) (hv : v ≤ unit.stamp start) :
    RereadsFrom unit lookbackSeconds start v where
  le_start := by
    have h1 := (unit.instant_le_instant).mpr hv
    have h2 := unit.instant_stamp_le start
    unfold microsPerSec
    omega
  passes τ hτ := by
    have h1 := (unit.instant_le_instant).mpr hv
    cases unit with
    | days =>
      have := hlookback rfl
      simp only [WatermarkUnit.instant, WatermarkUnit.stamp, microsPerDay, microsPerSec] at *
      omega
    | naiveMicros | utcMicros | int =>
      simp only [WatermarkUnit.instant, WatermarkUnit.stamp, microsPerSec] at *
      omega

section

variable {t : WatermarkTracker} {secs : F64} {start finish : Nat}

/-- The seconds a read took, rounded up, cover it. -/
theorem le_ceil_secs (hsecs : coversMicros secs (finish - start) = true) (hfin : (finish : Int) ≤ i64Max) :
    finish - start ≤ (secs.max .zero).ceil.toU64 * 1000000 := by
  unfold coversMicros at hsecs
  cases secs with
  | nan => cases hsecs
  | inf neg => cases hsecs
  | fin q hq =>
    refine F64.le_toU64_ceil hq (by norm_num) (of_decide_eq_true hsecs) ?_
    unfold i64Max at hfin
    omega

/-- Moved back by the excess over what `covered` seconds cover, the largest watermark lies no more than these
after the start of the read. -/
theorem instant_rewound_le (hunit : t.unit ≠ .int) (covered : Nat)
    (hsecs : coversMicros secs (finish - start) = true) (hfin : (finish : Int) ≤ i64Max)
    (hmax : t.max ≤ t.unit.stamp finish) :
    t.unit.instant (saturatingSub t.max (t.rewindStep (streamCursorRewindSecs secs covered))) ≤
      start + covered * microsPerSec := by
  have hcov := le_ceil_secs hsecs hfin
  have hu64 := (secs.max .zero).ceil.toU64_le
  unfold streamCursorRewindSecs
  generalize (secs.max .zero).ceil.toU64 = ceil at hcov hu64 ⊢
  unfold i64Max at hfin
  unfold WatermarkTracker.rewindStep saturatingSub saturatingMul clampI64 i64Min i64Max microsPerSec
  cases hu : t.unit with
  | int => exact absurd hu hunit
  | naiveMicros | utcMicros =>
    simp only [hu, WatermarkUnit.stamp, WatermarkUnit.instant] at *
    omega
  | days =>
    simp only [hu, WatermarkUnit.stamp, WatermarkUnit.instant, microsPerDay] at *
    omega

/-- The rewind of a stream cursor, a `DATE`'s extra day included, is far enough. -/
theorem rereadsFrom_rewind (hunit : t.unit ≠ .int) {lookbackSeconds : Nat}
    (hlookback : t.unit = .days → 0 < lookbackSeconds) (hsecs : coversMicros secs (finish - start) = true)
    (hfin : (finish : Int) ≤ i64Max) (hmax : t.max ≤ t.unit.stamp finish) :
    RereadsFrom t.unit lookbackSeconds start
      (saturatingSub t.max (t.rewindStep (t.streamRewindSecs secs lookbackSeconds))) := by
  unfold WatermarkTracker.streamRewindSecs
  cases hu : t.unit with
  | int => exact absurd hu hunit
  | naiveMicros | utcMicros =>
    have hle := instant_rewound_le hunit lookbackSeconds hsecs hfin hmax
    simp only [hu, WatermarkUnit.instant] at hle ⊢
    refine ⟨?_, fun τ hτ => ?_⟩
    · simp only [WatermarkUnit.instant]
      omega
    · simp only [WatermarkUnit.instant, WatermarkUnit.stamp]
      omega
  | days =>
    have hpos := hlookback hu
    have hle := instant_rewound_le hunit (lookbackSeconds - 86400) hsecs hfin hmax
    simp only [hu, WatermarkUnit.instant, microsPerDay, microsPerSec] at hle ⊢
    refine ⟨?_, fun τ hτ => ?_⟩
    · simp only [WatermarkUnit.instant, microsPerDay, microsPerSec]
      omega
    · -- a lookback under a day: the cursor is the day of the start or before; over a day, a day before the start
      simp only [WatermarkUnit.instant, WatermarkUnit.stamp, microsPerDay, microsPerSec]
      omega

/-- A stream cursor is behind the start of the read, unless the floor holds it up. -/
theorem rewound_covers (hunit : t.unit ≠ .int) {lookbackSeconds : Nat}
    (hlookback : t.unit = .days → 0 < lookbackSeconds) (hsecs : coversMicros secs (finish - start) = true)
    (hfin : (finish : Int) ≤ i64Max) (hmax : t.max ≤ t.unit.stamp finish) (hmin : InI64 t.max)
    {floor : Option CursorText} {v : Int}
    (h : t.rewound (t.streamRewindSecs secs lookbackSeconds) floor = some v) :
    RereadsFrom t.unit lookbackSeconds start v ∨ ∃ f, floor.bind t.unit.parseFloor = some f ∧ v ≤ f := by
  rcases (WatermarkTracker.rewound_cases hmin h).2 with rfl | hfloor
  · exact Or.inl (rereadsFrom_rewind hunit hlookback hsecs hfin hmax)
  · exact Or.inr hfloor

end

end Quickhouse
