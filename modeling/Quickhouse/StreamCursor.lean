import Quickhouse.CursorPlan
import Quickhouse.Lib.Runs

/-!
# A cursor taken from the rows of several statements

The statements of one read each see their own snapshot, and the source changes between them.  The tracker folds
the largest watermark of all of them, so the cursor can lie past a change that the statement of its row did not
see.  `stream_cursor_covers`: moved back by the time the read took beyond the lookback, the cursor reaches such a
change again.
-/

namespace Quickhouse

open MachineInt Binary64 Runs

variable {κ : Type}

/-- A source row during the read; `changed` is the instant of its last change since the read began. -/
structure ReadRow (κ : Type) where
  key : κ
  watermark : Option Int
  changed : Option Nat := none
  deriving DecidableEq, Repr

/-- The source's clock and rows, and what the read has folded of them. -/
structure SpanningRead (κ : Type) where
  clock : Nat
  rows : List (ReadRow κ)
  tracker : WatermarkTracker
  deriving DecidableEq, Repr

inductive SpanningEvent (κ : Type) where
  /-- A row is inserted or updated. -/
  | change (now : Nat) (key : κ)
  | delete (now : Nat) (key : κ)
  /-- The statement of a window, a partition or a chunk. -/
  | statement (now : Nat) (reads : κ → Option Int → Bool)

def SpanningEvent.now : SpanningEvent κ → Nat
  | .change now _ | .delete now _ | .statement now _ => now

/-- What a statement bounded by `upper` returns. -/
def SpanningRead.returned (s : SpanningRead κ) (upper : Option Int) (reads : κ → Option Int → Bool) :
    List (Option Int) :=
  (s.rows.filter fun r => reads r.key r.watermark && upper.all fun u => r.watermark.any (· ≤ u)).map (·.watermark)

/-- Events come in the order of the clock, whose instants are 64-bit microseconds. -/
def SpanningRead.step [DecidableEq κ] (upper : Option Int) (s : SpanningRead κ) (e : SpanningEvent κ) :
    Option (SpanningRead κ) :=
  if s.clock ≤ e.now ∧ (e.now : Int) ≤ i64Max then
    match e with
    | .change now key => some { s with
        clock := now
        rows := s.rows.filter (·.key ≠ key) ++ [⟨key, some (s.tracker.unit.stamp now), some now⟩] }
    | .delete now key => some { s with clock := now, rows := s.rows.filter (·.key ≠ key) }
    | .statement now reads => some { s with clock := now, tracker := s.tracker.observe (s.returned upper reads) }
  else none

/-- The read begins: every watermark was stamped by now, and nothing is folded yet. -/
structure SpanningRead.Starts (s : SpanningRead κ) : Prop where
  clock_le : (s.clock : Int) ≤ i64Max
  stamped : ∀ r ∈ s.rows, ∀ w, r.watermark = some w → w ≤ s.tracker.unit.stamp s.clock
  unchanged : ∀ r ∈ s.rows, r.changed = none
  unseen : s.tracker.max = i64Min

/-- What holds at any time of a read that began at `start`. -/
structure SpanningRead.Inv (unit : WatermarkUnit) (upper : Option Int) (start : Nat) (s : SpanningRead κ) :
    Prop where
  unit_eq : s.tracker.unit = unit
  start_le : start ≤ s.clock
  clock_le : (s.clock : Int) ≤ i64Max
  stamped : ∀ r ∈ s.rows, ∀ w, r.watermark = some w → w ≤ unit.stamp s.clock
  changed : ∀ r ∈ s.rows, ∀ τ, r.changed = some τ → r.watermark = some (unit.stamp τ)
  max_ge : i64Min ≤ s.tracker.max
  max_le : s.tracker.max ≤ unit.stamp s.clock
  max_upper : ∀ u, upper = some u → i64Min ≤ u → s.tracker.max ≤ u

namespace SpanningRead

variable {unit : WatermarkUnit} {upper : Option Int} {start : Nat} {s s' : SpanningRead κ} {e : SpanningEvent κ}

theorem Starts.inv (h : s.Starts) : s.Inv s.tracker.unit upper s.clock where
  unit_eq := rfl
  start_le := le_refl _
  clock_le := h.clock_le
  stamped := h.stamped
  changed := by
    intro r hr τ hτ
    rw [h.unchanged r hr] at hτ
    cases hτ
  max_ge := by rw [h.unseen]
  max_le := by
    rw [h.unseen]
    unfold i64Min
    cases s.tracker.unit <;> simp only [WatermarkUnit.stamp, microsPerDay] <;> omega
  max_upper := by
    intro u _ hu
    rw [h.unseen]
    exact hu

theorem Inv.max_inI64 (h : s.Inv unit upper start) : InI64 s.tracker.max := by
  have hle := h.max_le
  have hclock := h.clock_le
  refine ⟨h.max_ge, hle.trans ?_⟩
  cases unit <;> simp only [WatermarkUnit.stamp, microsPerDay] <;> omega

theorem mem_returned {reads : κ → Option Int → Bool} {w : Int} (h : some w ∈ s.returned upper reads) :
    (∃ r ∈ s.rows, r.watermark = some w) ∧ ∀ u, upper = some u → w ≤ u := by
  obtain ⟨r, hr, hw⟩ := List.mem_map.mp h
  rw [List.mem_filter, Bool.and_eq_true] at hr
  refine ⟨⟨r, hr.1, hw⟩, fun u hu => ?_⟩
  have hle := hr.2.2
  rw [hu, Option.all_some, hw, Option.any_some] at hle
  exact of_decide_eq_true hle

theorem Inv.step [DecidableEq κ] (h : s.Inv unit upper start) (he : s.step upper e = some s') : s'.Inv unit upper start := by
  unfold SpanningRead.step at he
  split_ifs at he with hnow
  have hlater : ∀ r ∈ s.rows, ∀ w, r.watermark = some w → w ≤ unit.stamp e.now := by
    intro r hr w hw
    have hmono := unit.stamp_mono (show (s.clock : Int) ≤ e.now by exact_mod_cast hnow.1)
    exact (h.stamped r hr w hw).trans hmono
  have hmax : s.tracker.max ≤ unit.stamp e.now :=
    h.max_le.trans (unit.stamp_mono (by exact_mod_cast hnow.1))
  cases e with
  | change now key =>
    obtain rfl := Option.some.inj he
    refine ⟨h.unit_eq, h.start_le.trans hnow.1, hnow.2, ?_, ?_, h.max_ge, hmax, h.max_upper⟩
    · intro r hr w hw
      simp only [List.mem_append, List.mem_singleton] at hr
      rcases hr with hr | rfl
      · exact hlater r (List.mem_filter.mp hr).1 w hw
      · rw [← Option.some.inj hw, h.unit_eq]
    · intro r hr τ hτ
      simp only [List.mem_append, List.mem_singleton] at hr
      rcases hr with hr | rfl
      · exact h.changed r (List.mem_filter.mp hr).1 τ hτ
      · rw [← Option.some.inj hτ, h.unit_eq]
  | delete now key =>
    obtain rfl := Option.some.inj he
    refine ⟨h.unit_eq, h.start_le.trans hnow.1, hnow.2, ?_, ?_, h.max_ge, hmax, h.max_upper⟩
    · intro r hr w hw
      exact hlater r (List.mem_filter.mp hr).1 w hw
    · intro r hr τ hτ
      exact h.changed r (List.mem_filter.mp hr).1 τ hτ
  | statement now reads =>
    obtain rfl := Option.some.inj he
    have hseen : ∀ w, some w ∈ s.returned upper reads → w ≤ unit.stamp now := by
      intro w hw
      obtain ⟨⟨r, hr, hrw⟩, -⟩ := mem_returned hw
      exact hlater r hr w hrw
    have hmin : i64Min ≤ unit.stamp now := h.max_ge.trans hmax
    refine ⟨?_, h.start_le.trans hnow.1, hnow.2, hlater, h.changed, ?_, ?_, ?_⟩
    · simp [h.unit_eq]
    · exact h.max_ge.trans (s.tracker.le_observe_max _)
    · exact WatermarkTracker.observe_max_le hmin hmax hseen
    · intro u hu humin
      exact WatermarkTracker.observe_max_le humin (h.max_upper u hu humin) (fun w hw => (mem_returned hw).2 u hu)

end SpanningRead

/-! ### The cursor saved at the end -/

/-- The value lies, less the lookback, no later than the start, unless it is at or below the floor. -/
def BehindStart (unit : WatermarkUnit) (lookbackSeconds start : Nat) (floor : Option Int) (v : Int) : Prop :=
  unit.instant v - lookbackSeconds * microsPerSec ≤ start ∨ ∃ f, floor = some f ∧ v ≤ f

/-- The next run reads every row that changed after the start, if its change is in the range of this run. -/
def ReadsAgain (unit : WatermarkUnit) (lookbackSeconds start : Nat) (floor : Option Int) (rows : List (ReadRow κ))
    (v : Int) : Prop :=
  ∀ r ∈ rows, ∀ τ, r.changed = some τ → start < τ →
    (∀ f, floor = some f → unit.instant f - lookbackSeconds * microsPerSec < unit.instant (unit.stamp τ)) →
    ∃ w, r.watermark = some w ∧ unit.instant v - lookbackSeconds * microsPerSec < unit.instant w

theorem WatermarkTracker.advanceFrom_cases {dated : Int → Bool} {t : WatermarkTracker} {floor : Option CursorText}
    {rewindSecs : Nat} {c : CursorText} (h : t.advanceFrom dated floor rewindSecs = some c) :
    t.unit.renderValue dated (saturatingSub t.max (t.rewindStep rewindSecs)) = some c := by
  unfold WatermarkTracker.advanceFrom at h
  split_ifs at h
  cases hf : floor.bind t.unit.parseFloor with
  | none => simpa only [hf] using h
  | some f =>
    simp only [hf] at h
    split_ifs at h
    exact h

section

variable {unit : WatermarkUnit} {upper : Option Int} {start lookbackSeconds : Nat} {s : SpanningRead κ}
  {floor : Option Int} {v : Int}

private theorem readsAgain_of_rereads (hinv : s.Inv unit upper start)
    (h : RereadsFrom unit lookbackSeconds start v) :
    ReadsAgain unit lookbackSeconds start floor s.rows v := by
  intro r hr τ hτ hlt _
  exact ⟨unit.stamp τ, hinv.changed r hr τ hτ, h.passes τ hlt⟩

private theorem readsAgain_of_floor (hinv : s.Inv unit upper start) {f : Int} (hf : floor = some f) (hv : v ≤ f) :
    ReadsAgain unit lookbackSeconds start floor s.rows v := by
  intro r hr τ hτ _ hfloor
  have h1 := hfloor f hf
  have h2 := (unit.instant_le_instant).mpr hv
  exact ⟨unit.stamp τ, hinv.changed r hr τ hτ, by omega⟩

/-- The stream's own cursor. -/
private theorem renderRewound_covers {dated : Int → Bool} {secs : F64} {floor : Option CursorText} {c : CursorText}
    (hunit : unit ≠ .int) (hlookback : 0 < lookbackSeconds) (hinv : s.Inv unit upper start)
    (hsecs : coversMicros secs (s.clock - start) = true)
    (h : s.tracker.renderRewound dated (s.tracker.streamRewindSecs secs lookbackSeconds) floor = some c) :
    ∃ v, unit.parse c = some v ∧ BehindStart unit lookbackSeconds start (floor.bind unit.parseFloor) v ∧
      ReadsAgain unit lookbackSeconds start (floor.bind unit.parseFloor) s.rows v := by
  obtain ⟨v, hv, hc⟩ := Option.bind_eq_some_iff.mp h
  have hmax := hinv.max_le
  rw [← hinv.unit_eq] at hunit hmax
  have hcov := rewound_covers hunit (fun _ => hlookback) hsecs hinv.clock_le hmax hinv.max_inI64 hv
  refine ⟨v, hinv.unit_eq ▸ WatermarkUnit.parse_renderValue hunit hc, ?_⟩
  rw [hinv.unit_eq] at hcov
  rcases hcov with hcov | ⟨f, hf, hle⟩
  · exact ⟨Or.inl hcov.le_start, readsAgain_of_rereads hinv hcov⟩
  · exact ⟨Or.inr ⟨f, hf, hle⟩, readsAgain_of_floor hinv hf hle⟩

/-- A `DATE` read bounded by the table's own MAX was bounded by one that was not NULL, probed before the read
began. -/
def TableMaxBefore (maxFromTable : Bool) (unit : WatermarkUnit) (start : Nat) (upper : Option Int) : Prop :=
  maxFromTable = true → unit = .days → ∃ u, upper = some u ∧ i64Min ≤ u ∧ u ≤ unit.stamp start

/-- The cursor of a read bounded by the table's own MAX. -/
private theorem advanceFrom_covers {dated : Int → Bool} {secs : F64} {floor : Option CursorText} {c : CursorText}
    (hunit : unit ≠ .int) (hlookback : 0 < lookbackSeconds) (hinv : s.Inv unit upper start)
    (hsecs : coversMicros secs (s.clock - start) = true)
    (h : s.tracker.advanceFrom dated floor (streamCursorRewindSecs secs lookbackSeconds) = some c) :
    ∃ v, unit.parse c = some v ∧ BehindStart unit lookbackSeconds start (floor.bind unit.parseFloor) v ∧
      (TableMaxBefore true unit start upper →
        ReadsAgain unit lookbackSeconds start (floor.bind unit.parseFloor) s.rows v) := by
  have hc := WatermarkTracker.advanceFrom_cases h
  have hmax := hinv.max_le
  rw [← hinv.unit_eq] at hunit hmax
  have hle := instant_rewound_le hunit lookbackSeconds hsecs hinv.clock_le hmax
  have hmin : InI64 s.tracker.max := hinv.max_inI64
  have hback := saturatingSub_le hmin (s.tracker.rewindStep_nonneg (streamCursorRewindSecs secs lookbackSeconds))
  generalize saturatingSub s.tracker.max
    (s.tracker.rewindStep (streamCursorRewindSecs secs lookbackSeconds)) = v at hc hle hback
  rw [hinv.unit_eq] at hunit hc hle
  refine ⟨v, WatermarkUnit.parse_renderValue hunit hc, Or.inl (by omega), fun htable => ?_⟩
  apply readsAgain_of_rereads hinv
  cases hu : unit with
  | int => exact absurd hu hunit
  | days =>
    -- the bound keeps out the rows of a later day
    obtain ⟨u, hupper, humin, hle⟩ := htable rfl hu
    rw [← hu]
    exact RereadsFrom.of_le_stamp (fun _ => hlookback) (hback.trans ((hinv.max_upper u hupper humin).trans hle))
  | naiveMicros | utcMicros =>
    rw [hu] at hle
    simp only [WatermarkUnit.instant] at hle
    refine ⟨?_, fun τ hτ => ?_⟩
    · simp only [WatermarkUnit.instant]
      omega
    · simp only [WatermarkUnit.instant, WatermarkUnit.stamp]
      omega

/-- A cursor taken from the rows of a read of several statements is the seed the run started from, or it lies,
less the lookback, no later than the start of the read unless it is at or below the floor, and the next run reads
again the rows that changed meanwhile. -/
theorem stream_cursor_covers [DecidableEq κ] {s₀ : SpanningRead κ} {es : List (SpanningEvent κ)}
    {dated : Int → Bool} {plan : CursorPlan} {maxFromTable : Bool} {secs : F64}
    {effectiveUpper : Option CursorText} {c : CursorText} (hstart : s₀.Starts) (hunit : s₀.tracker.unit ≠ .int)
    (hlookback : 0 < lookbackSeconds) (hrun : exec (SpanningRead.step upper) s₀ es = some s)
    (hsecs : coversMicros secs (s.clock - s₀.clock) = true) (hpinned : plan.pinned = false)
    (hkeep : plan.keepCommitted = false) (hmax : plan.rewindToMax = false)
    (hsaved : newWatermark dated lookbackSeconds plan ⟨maxFromTable, true, false, secs⟩ (some s.tracker)
      effectiveUpper = some c) :
    (maxFromTable = true ∧ plan.seeded = true ∧ plan.last = some c) ∨
      ∃ v, s₀.tracker.unit.parse c = some v ∧
        BehindStart s₀.tracker.unit lookbackSeconds s₀.clock (plan.floor.bind s₀.tracker.unit.parseFloor) v ∧
        (TableMaxBefore maxFromTable s₀.tracker.unit s₀.clock upper →
          ReadsAgain s₀.tracker.unit lookbackSeconds s₀.clock (plan.floor.bind s₀.tracker.unit.parseFloor) s.rows
            v) := by
  have hinv : s.Inv s₀.tracker.unit upper s₀.clock :=
    exec_invariant (fun _ _ _ h he => h.step he) hstart.inv hrun
  simp only [newWatermark, hpinned, hkeep, hmax, Bool.false_eq_true, if_false, Bool.not_false, Bool.and_true,
    if_true] at hsaved
  cases maxFromTable with
  | false =>
    obtain ⟨v, hv, hbehind, hreads⟩ := renderRewound_covers hunit hlookback hinv hsecs (by simpa using hsaved)
    exact Or.inr ⟨v, hv, hbehind, fun _ => hreads⟩
  | true =>
    rw [if_pos rfl, Option.or_eq_some_iff] at hsaved
    rcases hsaved with hsaved | ⟨-, hseed⟩
    · exact Or.inr (advanceFrom_covers hunit hlookback hinv hsecs hsaved)
    · left
      split_ifs at hseed with hseeded
      exact ⟨rfl, hseeded, hseed⟩

end

/-! ### A seed above the rows read -/

private theorem representable_forty : Representable 40 := by
  exact_mod_cast (representable_natCast (by norm_num : 40 ≤ 2 ^ 53))

private def twoRows : SpanningRead Nat where
  clock := 0
  rows := [⟨1, some 0, none⟩, ⟨2, some 0, none⟩]
  tracker := { unit := .naiveMicros }

private theorem twoRows_starts : twoRows.Starts where
  clock_le := by decide
  stamped := by
    intro r hr w hw
    simp only [twoRows, List.mem_cons, List.not_mem_nil, or_false] at hr
    rcases hr with rfl | rfl <;> simp_all [twoRows, WatermarkUnit.stamp]
  unchanged := by
    intro r hr
    simp only [twoRows, List.mem_cons, List.not_mem_nil, or_false] at hr
    rcases hr with rfl | rfl <;> rfl
  unseen := rfl

/-- Row 1 changes after its own statement, then row 2 before its own, the last of the read. -/
private def twoStatements : List (SpanningEvent Nat) :=
  [.statement 5000000 fun key w => key = 1 && w.any (25000000 < ·), .change 18000000 1, .change 30000000 2,
    .statement 40000000 fun key w => key = 2 && w.any (25000000 < ·)]

private def twoRowsRead : SpanningRead Nat where
  clock := 40000000
  rows := [⟨1, some 18000000, some 18000000⟩, ⟨2, some 30000000, some 30000000⟩]
  tracker := { unit := .naiveMicros, max := 30000000 }

/-- With a lookback of 10 seconds, a read of 40 moves its cursor back from 30 to 0. -/
theorem stream_cursor_covers_two_rows :
    (false = true ∧ ({} : CursorPlan).seeded = true ∧ ({} : CursorPlan).last = some (.temporal 0 false)) ∨
      ∃ v, WatermarkUnit.naiveMicros.parse (.temporal 0 false) = some v ∧
        BehindStart .naiveMicros 10 0 none v ∧
        (TableMaxBefore false .naiveMicros 0 none → ReadsAgain .naiveMicros 10 0 none twoRowsRead.rows v) := by
  have hrun : exec (SpanningRead.step none) twoRows twoStatements = some twoRowsRead := by decide
  have hsecs : coversMicros (.fin 40 representable_forty) (twoRowsRead.clock - twoRows.clock) = true := by
    decide +kernel
  have hsaved : newWatermark (fun _ => true) 10 {} ⟨false, true, false, .fin 40 representable_forty⟩
      (some twoRowsRead.tracker) none = some (.temporal 0 false) := by
    decide +kernel
  exact stream_cursor_covers twoRows_starts (by decide) (by decide) hrun hsecs rfl rfl rfl hsaved

/-- The seed, 35, is a floor above all that is read: the cursor stays at 30, its lookback reaches back to 20 only,
and the change of row 1 at 18 is not read again. -/
theorem seed_above_read_stops_rewind :
    ∃ plan : CursorPlan, plan.floor = some (.temporal 35000000 false) ∧ plan.seeded = true ∧
      twoRows.Starts ∧ exec (SpanningRead.step none) twoRows twoStatements = some twoRowsRead ∧
      coversMicros (.fin 40 representable_forty) (twoRowsRead.clock - twoRows.clock) = true ∧
      newWatermark (fun _ => true) 10 plan ⟨false, true, false, .fin 40 representable_forty⟩
        (some twoRowsRead.tracker) none = some (.temporal 30000000 false) ∧
      ¬ (30000000 - 10 * microsPerSec ≤ twoRows.clock ∨ (30000000 : Int) = 35000000) ∧
      ∃ r ∈ twoRowsRead.rows, r.changed = some 18000000 ∧
        ∀ w, r.watermark = some w → ¬ 30000000 - 10 * microsPerSec < w := by
  refine ⟨{ seeded := true, floor := some (.temporal 35000000 false), last := some (.temporal 35000000 false) },
    rfl, rfl, twoRows_starts, by decide, by decide +kernel, by decide +kernel, by decide, ?_⟩
  refine ⟨_, List.mem_cons_self, rfl, fun w hw => ?_⟩
  obtain rfl := Option.some.inj hw
  decide

end Quickhouse
