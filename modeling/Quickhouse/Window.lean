import Quickhouse.Config
import Quickhouse.Lib.Cover
import Quickhouse.Lib.MachineInt
import Mathlib.Tactic.Push

/-!
# The adaptive key-window sweep

A read whose filter is a sequential scan is swept in windows `(lo, hi]` of its integer key.  A window that
succeeds moves the lower bound and resizes the step by its measured duration; one the source cancels is read
again from the same lower bound at half the step, down to a floor.

`sweep_covers_iff`: the windows that succeed tile `[min, max]`, nothing wraps and the sweep ends, whatever the
outcomes are, exactly when `min` is not the smallest `i64`; there the lower bound saturates and the first
window leaves that key out.  `SweepSpec.statements_read`: what the statements of such a sweep read, the one of the NULL keys
after the windows included.
-/

namespace Quickhouse

open Binary64 MachineInt

def initialReadWindowRows : Nat := 50000
def defaultReadWindowRows : Nat := 5000000
def defaultWindowTargetSecs : F64 := .ofNat 5
def minReadWindowRows : Nat := 1000

/-- A sweep of bounded key-range windows over `[min, max]`. -/
structure WindowPlan where
  colQuoted : String
  min : Int
  max : Int
  start : Nat
  maxStep : Nat
  targetSecs : F64
  floor : Nat
  nullableKey : Bool

/-- What happened to one window, and how long it took. -/
inductive WindowOutcome where
  | done (secs : F64)
  | cancelled

/-- Size the sweep; `none` when the relation is empty or windowing is disabled. -/
def planReadWindow (cfg : TransferConfig) (bounds : Option (Int × Int)) (colQuoted : String)
    (nullableKey : Bool) : Option WindowPlan :=
  match bounds with
  | none => none
  | some (min, max) =>
    let maxStep := cfg.readWindowRows.getD defaultReadWindowRows
    if maxStep = 0 then none
    else
      let step := Min.min initialReadWindowRows maxStep
      let floor := Min.min (Max.max (step / 64) minReadWindowRows) step
      some {
        colQuoted, min, max, maxStep, floor, nullableKey
        start := step
        targetSecs := cfg.windowTargetSecs.getD defaultWindowTargetSecs }

/-- The upper edge of the window starting just above `lo`, clamped to `max`. -/
def windowHi (lo : Int) (step : Nat) (max : Int) : Int :=
  match checkedAdd lo (asI64 step) with
  | some h => min h max
  | none => max

/-- The width a window that took `secs` asks for, before the clamp to the floor and the ceiling. -/
def resized (step : Nat) (plan : WindowPlan) (secs : F64) : Nat :=
  let target := plan.targetSecs.max (.ofRat (1 / 10))
  let ratio := (target.div (secs.max (.ofRat (1 / 100)))).clamp (.ofRat (1 / 4)) (.ofRat (5 / 4))
  (((F64.ofNat step).mul ratio).round).toU64

/-- The lower bound and the width of the window after this one. -/
def nextWindow (lo hi : Int) (step : Nat) (plan : WindowPlan) : WindowOutcome → Int × Nat
  | .cancelled => (lo, max (step / 2) plan.floor)
  | .done secs =>
    let next := resized step plan secs
    (hi, if next < plan.floor then plan.floor else if plan.maxStep < next then plan.maxStep else next)

/-- How the statement of one window ended: an error is transient or not. -/
inductive StmtResult where
  | ok (secs : F64)
  | transient
  | fatal

def WindowOutcome.result : WindowOutcome → StmtResult
  | .done secs => .ok secs
  | .cancelled => .transient

/-- The sweep between two windows; `windows` are the ones that succeeded, in order. -/
structure SweepState where
  lo : Int
  step : Nat
  windows : List (Int × Int)

def sweepStart (w : WindowPlan) : SweepState where
  lo := saturatingSub w.min 1
  step := w.start
  windows := []

/-- One turn of the loop; `none` is the error that leaves it. -/
def sweepStep (w : WindowPlan) (s : SweepState) (res : StmtResult) : Option SweepState :=
  let hi := windowHi s.lo s.step w.max
  match res with
  | .ok secs =>
    let (lo, step) := nextWindow s.lo hi s.step w (.done secs)
    some { lo, step, windows := s.windows ++ [(s.lo, hi)] }
  | .transient =>
    if w.floor < s.step then
      let (lo, step) := nextWindow s.lo hi s.step w .cancelled
      some { s with lo, step }
    else none
  | .fatal => none

inductive SweepOutcome where
  | running (s : SweepState)
  | swept (s : SweepState)
  | failed (s : SweepState) (res : StmtResult)

/-- The loop of the sweep on the results of its windows. -/
def sweep (w : WindowPlan) (s : SweepState) : List StmtResult → SweepOutcome
  | [] => if s.lo < w.max then .running s else .swept s
  | res :: rest =>
    if s.lo < w.max then
      match sweepStep w s res with
      | some s' => sweep w s' rest
      | none => .failed s res
    else .swept s

def SweepOutcome.ended : SweepOutcome → Prop
  | .running _ => False
  | .swept _ | .failed _ _ => True

/-! ### The statements of a swept partition -/

structure Partition where
  label : String
  predicate : Option String

/-- What a statement of the sweep asks of the key. -/
inductive WindowCond where
  | window (lo hi : Int)
  | nullKey

def WindowCond.label : WindowCond → String
  | .window lo hi => ":(" ++ toString lo ++ "," ++ toString hi ++ "]"
  | .nullKey => ":null-key"

def WindowCond.sql (colQuoted : String) : WindowCond → String
  | .window lo hi => colQuoted ++ " > " ++ toString lo ++ " AND " ++ colQuoted ++ " <= " ++ toString hi
  | .nullKey => colQuoted ++ " IS NULL"

/-- A NULL is in no window. -/
def WindowCond.holds (key : Option Int) : WindowCond → Bool
  | .window lo hi => key.any fun k => lo < k && k ≤ hi
  | .nullKey => key.isNone

/-- The partition narrowed down to one statement of its sweep. -/
def windowPartition (w : WindowPlan) (partition : Partition) (c : WindowCond) : Partition where
  label := partition.label ++ c.label
  predicate := some <| match partition.predicate with
    | some p => "(" ++ p ++ ") AND (" ++ c.sql w.colQuoted ++ ")"
    | none => c.sql w.colQuoted

/-- What the statements of a sweep that ended well asked: its windows, then the rows whose key is NULL.  (The statement of
these is read once, and every error of it ends the read.) -/
def sweptConds (w : WindowPlan) (s : SweepState) : List WindowCond :=
  s.windows.map (fun win => .window win.1 win.2) ++ if w.nullableKey then [.nullKey] else []

def sweptPartitions (w : WindowPlan) (partition : Partition) (s : SweepState) : List Partition :=
  (sweptConds w s).map (windowPartition w partition)

/-- The keys the plan is about. -/
def WindowPlan.spans (w : WindowPlan) : Option Int → Bool
  | some k => w.min ≤ k && k ≤ w.max
  | none => w.nullableKey

/-! ### The windows tile a range -/

/-- The windows `ws`, in order, run from `a` to `b` without a gap. -/
def Tiles : List (Int × Int) → Int → Int → Prop
  | [], a, b => a = b
  | w :: ws, a, b => w.1 = a ∧ w.1 < w.2 ∧ Tiles ws w.2 b

theorem Tiles.snoc {ws : List (Int × Int)} {a b c : Int} (h : Tiles ws a b) (hbc : b < c) :
    Tiles (ws ++ [(b, c)]) a c := by
  induction ws generalizing a with
  | nil =>
    obtain rfl : a = b := h
    exact ⟨rfl, hbc, rfl⟩
  | cons w ws ih => exact ⟨h.1, h.2.1, ih h.2.2⟩

theorem Tiles.le {ws : List (Int × Int)} {a b : Int} (h : Tiles ws a b) : a ≤ b := by
  induction ws generalizing a with
  | nil => exact le_of_eq h
  | cons w ws ih =>
    have h1 := ih h.2.2
    have h2 := h.1
    have h3 := h.2.1
    omega

theorem Tiles.mem {ws : List (Int × Int)} {a b : Int} (h : Tiles ws a b) {win : Int × Int}
    (hwin : win ∈ ws) : a ≤ win.1 ∧ win.1 < win.2 ∧ win.2 ≤ b := by
  induction ws generalizing a with
  | nil => simp at hwin
  | cons w ws ih =>
    obtain ⟨h1, h2, h3⟩ := h
    rcases List.mem_cons.mp hwin with rfl | hmem
    · exact ⟨h1.ge, h2, h3.le⟩
    · obtain ⟨h4, h5, h6⟩ := ih h3 hmem
      exact ⟨by omega, h5, h6⟩

theorem Tiles.covers {ws : List (Int × Int)} {a b k : Int} (h : Tiles ws a b) (hak : a < k) (hkb : k ≤ b) :
    ∃ win ∈ ws, win.1 < k ∧ k ≤ win.2 := by
  induction ws generalizing a with
  | nil =>
    obtain rfl : a = b := h
    omega
  | cons w ws ih =>
    obtain ⟨h1, h2, h3⟩ := h
    by_cases hk : k ≤ w.2
    · exact ⟨w, List.mem_cons_self, by omega, hk⟩
    · obtain ⟨win, hwin, hcov⟩ := ih h3 (by omega)
      exact ⟨win, List.mem_cons_of_mem _ hwin, hcov⟩

theorem Tiles.pairwise {ws : List (Int × Int)} {a b : Int} (h : Tiles ws a b) :
    ws.Pairwise (fun u v => u.2 ≤ v.1) := by
  induction ws generalizing a with
  | nil => exact List.Pairwise.nil
  | cons w ws ih =>
    refine List.Pairwise.cons (fun v hv => (h.2.2.mem hv).1) (ih h.2.2)

/-! ### The step stays castable -/

theorem planReadWindow_eq_some {cfg : TransferConfig} {min max : Int} {col : String} {nullable : Bool}
    {w : WindowPlan} (h : planReadWindow cfg (some (min, max)) col nullable = some w) :
    w.min = min ∧ w.max = max ∧ 1 ≤ w.floor ∧ w.floor ≤ w.start ∧ w.start ≤ initialReadWindowRows ∧
      w.floor ≤ w.maxStep := by
  unfold planReadWindow at h
  dsimp only at h
  split_ifs at h with hz
  obtain rfl := Option.some.inj h
  refine ⟨rfl, rfl, ?_⟩
  simp only [initialReadWindowRows, minReadWindowRows]
  omega

/-- A width grows by about a quarter at most, whatever the clock and the target say. -/
theorem resized_le {step : Nat} (plan : WindowPlan) (secs : F64) (h1 : 1 ≤ step) (h2 : step < 2 ^ 63) :
    1000 * resized step plan secs ≤ 1251 * step + 501 := by
  have hs1 : (1 : ℚ) ≤ step := by exact_mod_cast h1
  have hs2 : (step : ℚ) ≤ 2 ^ 63 := by exact_mod_cast h2.le
  have hstep : (F64.ofNat step).Within (step * (1 + 2 ^ (-53 : ℤ))) :=
    F64.Within.ofRat (by linarith) le_rfl hs1 (hs2.trans (by norm_num))
  have hlo : (F64.ofRat (1 / 4)).Within (5 / 4 * (1 + 2 ^ (-53 : ℤ))) :=
    F64.Within.ofRat (by norm_num) (by norm_num) (by norm_num) (by norm_num)
  have hhi : (F64.ofRat (5 / 4)).Within (5 / 4 * (1 + 2 ^ (-53 : ℤ))) :=
    F64.Within.ofRat (by norm_num) le_rfl (by norm_num) (by norm_num)
  have hratio := F64.Within.clamp ((plan.targetSecs.max (.ofRat (1 / 10))).div (secs.max (.ofRat (1 / 100))))
    hlo hhi (F64.ofRat_ne_nan _) (F64.ofRat_ne_nan _)
  -- the three roundings together enlarge the width by far less than a thousandth
  have hmul := hstep.mul hratio (by norm_num; linarith) (by norm_num; linarith)
  have hround := hmul.round (by norm_num; linarith) (by norm_num; linarith)
  have hcast := hround.toU64 (by norm_num; linarith)
  have hq : (1000 * resized step plan secs : ℚ) ≤ 1251 * step + 501 := by
    unfold resized
    norm_num at hcast ⊢
    linarith
  exact_mod_cast hq

/-- A plan that `planReadWindow` can return for an `i64` range. -/
structure WindowPlan.Sized (w : WindowPlan) : Prop where
  min_mem : InI64 w.min
  max_mem : InI64 w.max
  min_le_max : w.min ≤ w.max
  floor_pos : 1 ≤ w.floor
  floor_le_start : w.floor ≤ w.start
  start_le : w.start ≤ initialReadWindowRows
  floor_le_ceiling : w.floor ≤ w.maxStep

/-- Between two windows: the ones read tile the keys so far, and the step is a quarter of them at most. -/
structure SweepInv (w : WindowPlan) (s : SweepState) : Prop where
  tiles : Tiles s.windows (saturatingSub w.min 1) s.lo
  lo_le : s.lo ≤ w.max
  floor_le : w.floor ≤ s.step
  step_le : s.lo < w.max → 100 * (s.step : Int) ≤ 5000000 + 26 * (s.lo - saturatingSub w.min 1)

theorem sweepStart_inv {w : WindowPlan} (hw : w.Sized) : SweepInv w (sweepStart w) where
  tiles := rfl
  lo_le := by
    have h1 := hw.min_mem
    have h2 := hw.min_le_max
    simp only [sweepStart, saturatingSub, clampI64, InI64, i64Min, i64Max] at *
    omega
  floor_le := hw.floor_le_start
  step_le := by
    intro _
    have := hw.start_le
    simp only [sweepStart, initialReadWindowRows] at *
    omega

theorem SweepInv.step_lt {w : WindowPlan} {s : SweepState} (hw : w.Sized) (h : SweepInv w s)
    (hlt : s.lo < w.max) : s.step < 2 ^ 63 := by
  have h1 := h.step_le hlt
  have h2 := (clampI64_mem (w.min - 1)).1
  have h3 := hw.max_mem.2
  simp only [saturatingSub, i64Min, i64Max] at *
  omega

theorem SweepInv.le_lo {w : WindowPlan} {s : SweepState} (h : SweepInv w s) :
    saturatingSub w.min 1 ≤ s.lo := h.tiles.le

/-- On a castable step the upper edge is the plain sum, clamped to the last key. -/
theorem windowHi_eq {lo max : Int} {step : Nat} (hmax : InI64 max) (hlo : i64Min ≤ lo) (hlt : lo < max)
    (hstep : step < 2 ^ 63) : windowHi lo step max = min (lo + step) max := by
  unfold windowHi checkedAdd
  rw [asI64_eq hstep]
  by_cases h : InI64 (lo + step)
  · rw [if_pos h]
  · rw [if_neg h]
    simp only [InI64, i64Min, i64Max] at *
    omega

theorem SweepInv.windowHi_eq {w : WindowPlan} {s : SweepState} (hw : w.Sized) (h : SweepInv w s)
    (hlt : s.lo < w.max) : windowHi s.lo s.step w.max = min (s.lo + s.step) w.max :=
  Quickhouse.windowHi_eq hw.max_mem ((clampI64_mem _).1.trans h.le_lo) hlt (h.step_lt hw hlt)

/-- One turn of the loop keeps the invariant. -/
theorem sweepStep_inv {w : WindowPlan} {s s' : SweepState} {res : StmtResult} (hw : w.Sized)
    (h : SweepInv w s) (hlt : s.lo < w.max) (hstep : sweepStep w s res = some s') : SweepInv w s' := by
  have hhi := h.windowHi_eq hw hlt
  have hfloor := h.floor_le
  have hpos := hw.floor_pos
  have hbound := h.step_le hlt
  have hlo := h.le_lo
  have hf : w.floor ≤ 50000 := hw.floor_le_start.trans hw.start_le
  have hc := hw.floor_le_ceiling
  cases res with
  | ok secs =>
    have hgrow := resized_le w secs (hpos.trans hfloor) (h.step_lt hw hlt)
    simp only [sweepStep, nextWindow, Option.some.injEq] at hstep
    obtain rfl := hstep
    rw [hhi]
    refine ⟨h.tiles.snoc (by omega), by simp only; omega, ?_, ?_⟩
    · simp only
      split_ifs <;> omega
    · simp only
      intro hmore
      split_ifs <;> omega
  | transient =>
    simp only [sweepStep, nextWindow] at hstep
    split_ifs at hstep with hfl
    obtain rfl := Option.some.inj hstep
    refine ⟨h.tiles, h.lo_le, le_max_right _ _, ?_⟩
    simp only
    intro hmore
    omega
  | fatal => simp [sweepStep] at hstep

/-! ### Runs of the sweep -/

/-- The invariant holds wherever the loop stops or waits for its next window. -/
theorem sweep_inv {w : WindowPlan} {s : SweepState} (hw : w.Sized) (h : SweepInv w s)
    (results : List StmtResult) :
    match sweep w s results with
    | .running s' => SweepInv w s' ∧ s'.lo < w.max
    | .swept s' => SweepInv w s' ∧ s'.lo = w.max
    | .failed s' res => SweepInv w s' ∧ s'.lo < w.max ∧ sweepStep w s' res = none := by
  induction results generalizing s with
  | nil =>
    have := h.lo_le
    unfold sweep
    split_ifs with hlt
    · exact ⟨h, hlt⟩
    · exact ⟨h, by omega⟩
  | cons res rest ih =>
    have := h.lo_le
    unfold sweep
    split_ifs with hlt
    · cases hstep : sweepStep w s res with
      | some s' => exact ih (sweepStep_inv hw h hlt hstep)
      | none => exact ⟨h, hlt, hstep⟩
    · exact ⟨h, by omega⟩

theorem sweepStep_ok_lo {w : WindowPlan} {s s' : SweepState} {secs : F64} (hw : w.Sized)
    (h : SweepInv w s) (hlt : s.lo < w.max) (hstep : sweepStep w s (.ok secs) = some s') : s.lo < s'.lo := by
  have hhi := h.windowHi_eq hw hlt
  have hpos := hw.floor_pos
  have hfloor := h.floor_le
  simp only [sweepStep, nextWindow, Option.some.injEq] at hstep
  obtain rfl := hstep
  simp only
  omega

theorem sweepStep_transient_lt {w : WindowPlan} {s s' : SweepState} (hw : w.Sized)
    (hstep : sweepStep w s .transient = some s') : s'.lo = s.lo ∧ s'.step < s.step := by
  have hpos := hw.floor_pos
  simp only [sweepStep, nextWindow] at hstep
  split_ifs at hstep with hfl
  obtain rfl := Option.some.inj hstep
  refine ⟨rfl, ?_⟩
  simp only
  omega

/-- However its windows go, the sweep ends: a window read moves the lower bound, a cancelled one the step. -/
theorem sweep_ends {w : WindowPlan} {s : SweepState} (hw : w.Sized) (h : SweepInv w s)
    (results : Nat → StmtResult) : ∃ n, (sweep w s ((List.range n).map results)).ended := by
  -- keys left first, the step second
  induction hm : (w.max - s.lo).toNat using Nat.strong_induction_on generalizing s results with
  | _ m ihLo =>
    induction hst : s.step using Nat.strong_induction_on generalizing s results with
    | _ k ihStep =>
      by_cases hlt : s.lo < w.max
      · have hcons (n : Nat) : (List.range (n + 1)).map results =
            results 0 :: (List.range n).map (fun i => results (i + 1)) := by
          rw [List.range_succ_eq_map, List.map_cons, List.map_map]
          rfl
        cases hstep : sweepStep w s (results 0) with
        | none =>
          refine ⟨1, ?_⟩
          rw [hcons, sweep, if_pos hlt, hstep]
          trivial
        | some s' =>
          have hinv := sweepStep_inv hw h hlt hstep
          have hle := hinv.lo_le
          have hnext : ∃ n, (sweep w s' ((List.range n).map (fun i => results (i + 1)))).ended := by
            cases hres : results 0 with
            | ok secs =>
              rw [hres] at hstep
              have hlo := sweepStep_ok_lo hw h hlt hstep
              exact ihLo _ (by omega) hinv _ rfl
            | transient =>
              rw [hres] at hstep
              obtain ⟨hlo, hst'⟩ := sweepStep_transient_lt hw hstep
              exact ihStep _ (by omega) hinv _ (by rw [hlo]; exact hm) rfl
            | fatal =>
              rw [hres] at hstep
              simp [sweepStep] at hstep
          obtain ⟨n, hn⟩ := hnext
          refine ⟨n + 1, ?_⟩
          rw [hcons, sweep, if_pos hlt, hstep]
          exact hn
      · refine ⟨0, ?_⟩
        rw [List.range_zero, List.map_nil, sweep, if_neg hlt]
        trivial

/-! ### What a sweep promises -/

/-- The half-open windows are disjoint, hold every key of `[min, max]` and none outside. -/
structure CoversOnce (windows : List (Int × Int)) (min max : Int) : Prop where
  disjoint : windows.Pairwise (fun u v => u.2 ≤ v.1)
  covers : ∀ k, min ≤ k → k ≤ max → ∃ win ∈ windows, win.1 < k ∧ k ≤ win.2
  inside : ∀ win ∈ windows, ∀ k, win.1 < k → k ≤ win.2 → min ≤ k ∧ k ≤ max

theorem Tiles.coversOnce {ws : List (Int × Int)} {a b : Int} (h : Tiles ws (a - 1) b) : CoversOnce ws a b where
  disjoint := h.pairwise
  covers k hak hkb := h.covers (by omega) hkb
  inside win hwin k hlo hhi := by
    obtain ⟨h1, -, h3⟩ := h.mem hwin
    omega

/-- No two windows hold a key. -/
theorem countP_windows_le {ws : List (Int × Int)} (h : ws.Pairwise fun u v => u.2 ≤ v.1) (k : Int) :
    ws.countP (fun win => win.1 < k && k ≤ win.2) ≤ 1 := by
  induction ws with
  | nil => simp
  | cons win ws ih =>
    obtain ⟨hhead, htail⟩ := List.pairwise_cons.mp h
    rw [List.countP_cons]
    split_ifs with hk
    · have hnone : ws.countP (fun v => v.1 < k && k ≤ v.2) = 0 := by
        apply List.countP_eq_zero.mpr
        intro v hv hin
        have := hhead v hv
        simp only [Bool.and_eq_true, decide_eq_true_eq] at hk hin
        omega
      omega
    · exact ih htail

theorem countP_sweptConds_le {w : WindowPlan} {s : SweepState} (h : CoversOnce s.windows w.min w.max) (key : Option Int) :
    (sweptConds w s).countP (WindowCond.holds key) ≤ 1 := by
  unfold sweptConds
  rw [List.countP_append, List.countP_map]
  cases key with
  | some k =>
    have hle := countP_windows_le h.disjoint k
    split_ifs
    · simpa [WindowCond.holds, Function.comp_def] using hle
    · simpa [WindowCond.holds, Function.comp_def] using hle
  | none => split_ifs <;> simp [WindowCond.holds, Function.comp_def]

theorem any_sweptConds {w : WindowPlan} {s : SweepState} (h : CoversOnce s.windows w.min w.max) (key : Option Int) :
    (sweptConds w s).any (WindowCond.holds key) = w.spans key := by
  cases key with
  | none => cases hnull : w.nullableKey <;> simp [sweptConds, WindowCond.holds, WindowPlan.spans, hnull]
  | some k =>
    have hsome : (sweptConds w s).any (WindowCond.holds (some k)) = s.windows.any fun win => win.1 < k && k ≤ win.2 := by
      cases hnull : w.nullableKey <;> simp [sweptConds, WindowCond.holds, hnull, Function.comp_def]
    rw [hsome, Bool.eq_iff_iff, List.any_eq_true]
    simp only [WindowPlan.spans, Bool.and_eq_true, decide_eq_true_eq]
    constructor
    · rintro ⟨win, hwin, hlo, hhi⟩
      exact h.inside win hwin k hlo hhi
    · rintro ⟨hmin, hmax⟩
      exact h.covers k hmin hmax

/-- The bounds of the next window are the exact ones, and it is not empty. -/
structure ExactBounds (w : WindowPlan) (s : SweepState) : Prop where
  lo_mem : InI64 s.lo
  cast : asI64 s.step = s.step
  hi_eq : windowHi s.lo s.step w.max = min (s.lo + s.step) w.max
  lo_lt_hi : s.lo < windowHi s.lo s.step w.max

/-- The sweep under every sequence of window outcomes: what it read, its arithmetic, its end, its errors. -/
structure SweepSpec (w : WindowPlan) : Prop where
  swept : ∀ (outcomes : List WindowOutcome) s,
    sweep w (sweepStart w) (outcomes.map (·.result)) = .swept s → CoversOnce s.windows w.min w.max
  running : ∀ (outcomes : List WindowOutcome) s,
    sweep w (sweepStart w) (outcomes.map (·.result)) = .running s →
      CoversOnce s.windows w.min s.lo ∧ ExactBounds w s
  ends : ∀ outcomes : Nat → WindowOutcome,
    ∃ n, (sweep w (sweepStart w) ((List.range n).map (fun i => (outcomes i).result))).ended
  failed : ∀ (outcomes : List WindowOutcome) s res,
    sweep w (sweepStart w) (outcomes.map (·.result)) = .failed s res →
      res = WindowOutcome.cancelled.result ∧ s.step = w.floor

/-- Where every key is swept once, the statements of a sweep that ended well read each row of the partition once whose key
lies in the range, or is NULL where it may be. -/
theorem SweepSpec.statements_read {w : WindowPlan} (hspec : SweepSpec w) {outcomes : List WindowOutcome} {s : SweepState}
    (hswept : sweep w (sweepStart w) (outcomes.map (·.result)) = .swept s) {Row : Type} (key : Row → Option Int)
    (base : Row → Bool) (partition : Partition) (reads : Partition → Row → Bool)
    (hreads : ∀ c r, reads (windowPartition w partition c) r = (base r && c.holds (key r))) (rows : List Row) :
    (Cover.read reads (sweptPartitions w partition s) rows).Perm (rows.filter fun r => base r && w.spans (key r)) := by
  have hcover := hspec.swept outcomes s hswept
  have hcovered : ∀ r, Cover.covered reads (sweptPartitions w partition s) r = (base r && w.spans (key r)) := by
    intro r
    unfold Cover.covered sweptPartitions
    rw [List.any_map, ← any_sweptConds hcover (key r)]
    simp only [Function.comp_def, hreads]
    cases base r <;> simp
  have honce : ∀ r ∈ rows, (sweptPartitions w partition s).countP (reads · r) ≤ 1 := by
    intro r _
    unfold sweptPartitions
    rw [List.countP_map]
    simp only [Function.comp_def, hreads]
    refine le_trans (List.countP_mono_left fun c _ hc => ?_) (countP_sweptConds_le hcover (key r))
    exact (Bool.and_eq_true _ _ ▸ hc).2
  have hread := Cover.read_perm honce
  rwa [List.filter_congr fun r _ => hcovered r] at hread

private theorem sweep_failed_mem {w : WindowPlan} {s s' : SweepState} {results : List StmtResult}
    {res : StmtResult} (h : sweep w s results = .failed s' res) : res ∈ results := by
  induction results generalizing s with
  | nil =>
    unfold sweep at h
    split_ifs at h
  | cons r rest ih =>
    unfold sweep at h
    split_ifs at h
    cases hstep : sweepStep w s r with
    | none =>
      rw [hstep] at h
      obtain ⟨-, rfl⟩ := SweepOutcome.failed.inj h
      exact List.mem_cons_self
    | some s'' =>
      rw [hstep] at h
      exact List.mem_cons_of_mem _ (ih h)

/-- The only failure of a window the source can cancel is a cancellation at the floor. -/
private theorem failed_at_floor {w : WindowPlan} (hw : w.Sized) {outcomes : List WindowOutcome}
    {s : SweepState} {res : StmtResult}
    (h : sweep w (sweepStart w) (outcomes.map (·.result)) = .failed s res) :
    res = WindowOutcome.cancelled.result ∧ s.step = w.floor := by
  have hinv := sweep_inv hw (sweepStart_inv hw) (outcomes.map (·.result))
  rw [h] at hinv
  obtain ⟨hinv, -, hnone⟩ := hinv
  obtain ⟨o, -, rfl⟩ := List.mem_map.mp (sweep_failed_mem h)
  have hfloor := hinv.floor_le
  cases o with
  | done secs => simp [WindowOutcome.result, sweepStep] at hnone
  | cancelled =>
    refine ⟨rfl, ?_⟩
    simp only [WindowOutcome.result, sweepStep] at hnone
    split_ifs at hnone
    omega

private theorem SweepInv.exactBounds {w : WindowPlan} {s : SweepState} (hw : w.Sized) (h : SweepInv w s)
    (hlt : s.lo < w.max) : ExactBounds w s where
  lo_mem := by
    have h1 := (clampI64_mem (w.min - 1)).1
    have h2 := h.le_lo
    have h3 := hw.max_mem.2
    unfold saturatingSub at h2
    exact ⟨by omega, by omega⟩
  cast := asI64_eq (h.step_lt hw hlt)
  hi_eq := h.windowHi_eq hw hlt
  lo_lt_hi := by
    have h1 := h.windowHi_eq hw hlt
    have h2 := hw.floor_pos
    have h3 := h.floor_le
    omega

private theorem sweepSpec_of_lt {w : WindowPlan} (hw : w.Sized) (hmin : i64Min < w.min) : SweepSpec w := by
  have hlo : saturatingSub w.min 1 = w.min - 1 := by
    have h1 := hw.min_mem.2
    refine clampI64_eq ⟨?_, ?_⟩ <;> simp only [i64Min, i64Max] at * <;> omega
  have hinv := sweep_inv hw (sweepStart_inv hw)
  refine ⟨?_, ?_, fun outcomes => sweep_ends hw (sweepStart_inv hw) _, fun outcomes s res h => failed_at_floor hw h⟩
  · intro outcomes s h
    have hs := hinv (outcomes.map (·.result))
    rw [h] at hs
    have ht := hs.1.tiles
    rw [hlo, hs.2] at ht
    exact ht.coversOnce
  · intro outcomes s h
    have hs := hinv (outcomes.map (·.result))
    rw [h] at hs
    have ht := hs.1.tiles
    rw [hlo] at ht
    exact ⟨ht.coversOnce, hs.1.exactBounds hw hs.2⟩

/-- From the smallest `i64` the windows start above the first key, so no complete sweep reads it. -/
private theorem not_sweepSpec {w : WindowPlan} (hw : w.Sized) (hmin : w.min = i64Min) : ¬ SweepSpec w := by
  intro hspec
  obtain ⟨n, hn⟩ := hspec.ends (fun _ => .done (.ofNat 1))
  have hinv := sweep_inv hw (sweepStart_inv hw) (((List.range n).map fun _ => WindowOutcome.done (.ofNat 1)).map
    (·.result))
  rw [List.map_map] at hinv
  cases hsw : sweep w (sweepStart w) ((List.range n).map fun _ => (WindowOutcome.done (.ofNat 1)).result) with
  | running s =>
    rw [hsw] at hn
    exact hn
  | failed s res =>
    have hmem := sweep_failed_mem hsw
    obtain ⟨-, -, rfl⟩ := List.mem_map.mp hmem
    simp only [Function.comp_def] at hinv
    rw [hsw] at hinv
    simp [WindowOutcome.result, sweepStep] at hinv
  | swept s =>
    simp only [Function.comp_def] at hinv
    rw [hsw] at hinv
    have hcov := hspec.swept ((List.range n).map fun _ => .done (.ofNat 1)) s (by rw [List.map_map]; exact hsw)
    obtain ⟨win, hwin, hlo, -⟩ := hcov.covers w.min le_rfl hw.min_le_max
    have hmem := (hinv.1.tiles.mem hwin).1
    rw [hmin] at hmem hlo
    have hsat : saturatingSub i64Min 1 = i64Min := by decide
    omega

/-- The sweep of a planned range keeps its promises exactly when the range does not start at the smallest
`i64`. -/
theorem sweep_covers_iff {cfg : TransferConfig} {min max : Int} {col : String} {nullable : Bool}
    {w : WindowPlan} (hplan : planReadWindow cfg (some (min, max)) col nullable = some w)
    (hmin : InI64 min) (hmax : InI64 max) (hle : min ≤ max) : SweepSpec w ↔ i64Min < min := by
  obtain ⟨rfl, rfl, h1, h2, h3, h4⟩ := planReadWindow_eq_some hplan
  have hw : w.Sized := ⟨hmin, hmax, hle, h1, h2, h3, h4⟩
  constructor
  · intro hspec
    by_contra hnot
    exact not_sweepSpec hw (le_antisymm (by omega) hmin.1) hspec
  · exact sweepSpec_of_lt hw

theorem sweep_covers_iff_ten_keys :
    ∃ w, planReadWindow { destTable := "t", mode := .incremental } (some (1, 10)) "id" false = some w ∧
      (SweepSpec w ↔ i64Min < 1) := by
  obtain ⟨w, hw⟩ : ∃ w, planReadWindow { destTable := "t", mode := .incremental } (some (1, 10)) "id" false
      = some w := ⟨_, rfl⟩
  exact ⟨w, hw, sweep_covers_iff hw (by decide) (by decide) (by decide)⟩

/-- Keys `i64::MIN` to `i64::MIN + 9`, one window read in a second: the first key is in no window. -/
theorem sweep_skips_smallest_key :
    ∃ w s, planReadWindow { destTable := "t", mode := .incremental } (some (i64Min, i64Min + 9)) "id" false
        = some w ∧
      sweep w (sweepStart w) [(WindowOutcome.done (.ofNat 1)).result] = .swept s ∧
      s.windows = [(i64Min, i64Min + 9)] ∧ ¬ SweepSpec w := by
  refine ⟨_, _, rfl, rfl, rfl, fun hspec => ?_⟩
  obtain ⟨win, hwin, hlo, -⟩ := (hspec.swept [.done (.ofNat 1)] _ rfl).covers i64Min le_rfl (by decide)
  obtain rfl : win = (i64Min, i64Min + 9) := List.mem_singleton.mp hwin
  exact lt_irrefl _ hlo

end Quickhouse
