import Quickhouse.Config
import Quickhouse.Error
import Quickhouse.Lib.Civil

/-!
# The date windows of an API source

An API is read by whole days.  A run reads from the saved cursor, pulled back by the lookback, to its end date, and
saves that as the new cursor.  `from_date` is where a first run starts; but a lookback never reaches before it, and
where it has moved past the cursor the days between are read by no run (`api_windows_steady`).
-/

namespace Quickhouse

open Civil

/-- What an API source says of its window. -/
structure ApiSource where
  fromDate : Option String
  toDate : Option String
  lookbackDays : Nat
  deriving DecidableEq, Repr

def checkedSubDays (d : Date) (days : Nat) : Option Date :=
  let shifted := ofDay (d.toDay - days)
  if minYear ≤ shifted.year then some shifted else none

/-- A date some days earlier.  `parseError` is what the parser says of a text that is no date. -/
def subtractDays (parseError : String → String) (date : String) (days : Nat) : Except EtlError String :=
  match parseIso date.toList with
  | none => .error (.config ("invalid lookback date '" ++ date ++ "': " ++ parseError date))
  | some d =>
    match checkedSubDays d days with
    | none => .error (.config ("lookback of " ++ toString days ++ " days underflows from '" ++ date ++ "'"))
    | some shifted => .ok (String.ofList (isoText shifted))

def seedDate : WatermarkSeed → Option String → Option String
  | .none, _ => none
  | .value v, _ => some v
  | .currentMax, snapshotMax => snapshotMax

/-- A resumed run's start, pulled back. -/
def lookBack (parseError : String → String) (src : ApiSource) (start : String) : Except EtlError String := do
  let start ← subtractDays parseError start src.lookbackDays
  -- never before the configured floor
  match src.fromDate with
  | some floor => if start < floor then return floor else return start
  | none => return start

/-- The window of a run, and the cursor to save. -/
def deriveApiWindow (parseError : String → String) (today : String) (cfg : TransferConfig) (src : ApiSource)
    (committed : Option String) : Except EtlError (String × String × Option String) :=
  let finish := src.toDate.getD today
  if cfg.mode = .full then
    match src.fromDate with
    | some start => .ok (start, finish, none)
    | none => .error (.config "API full-refresh needs a from_date (window start, \"YYYY-MM-DD\")")
  else
    match (committed.or (seedDate cfg.seedWatermark (some finish))).or src.fromDate with
    | none => .error (.config ("first incremental/append API run needs a start date: set from_date, " ++
        "seed_watermark=, or skip_to_max=True"))
    | some start => do
      let start ← if committed.isSome && 0 < src.lookbackDays then lookBack parseError src start else .ok start
      -- a cursor past the end
      let start := if finish < start then finish else start
      return (start, finish, some finish)

/-! ### Days and their texts -/

/-- A day of a year of four digits. -/
structure IsoDay where
  day : Int
  four : FourDigits (ofDay day)

/-- `YYYY-MM-DD` -/
def dayText (day : Int) : String := String.ofList (isoText (ofDay day))

def IsoDay.text (d : IsoDay) : String := dayText d.day

/-- The day lies in the window. -/
def ReadsDay (window : String × String) (day : Int) : Prop :=
  ∃ a b, window.1 = dayText a ∧ window.2 = dayText b ∧ a ≤ day ∧ day ≤ b

theorem year_le {n : Int} {m : IsoDay} (h : n ≤ m.day) : (ofDay n).year ≤ 9999 := by
  have hm := m.four.2
  rcases Int.lt_or_eq_of_le h with hlt | rfl
  · have := ofDay_lt hlt
    omega
  · exact hm

/-- Up to the last four-digit year the order of the texts is the order of the days. -/
theorem dayText_lt {n : Int} (hn : (ofDay n).year ≤ 9999) (m : IsoDay) : dayText n < m.text ↔ n < m.day := by
  show String.ofList _ < String.ofList _ ↔ _
  rw [String.lt_iff_toList_lt, String.toList_ofList, String.toList_ofList]
  by_cases h0 : 0 ≤ (ofDay n).year
  · exact isoText_lt_iff ⟨h0, hn⟩ m.four
  · refine iff_of_true (isoText_lt_of_neg (by omega) m.four) ?_
    have hm := m.four.1
    rcases lt_trichotomy n m.day with h | rfl | h
    · exact h
    · omega
    · have := ofDay_lt h
      omega

theorem lt_dayText {n : Int} (hn : (ofDay n).year ≤ 9999) (m : IsoDay) : m.text < dayText n ↔ m.day < n := by
  show String.ofList _ < String.ofList _ ↔ _
  rw [String.lt_iff_toList_lt, String.toList_ofList, String.toList_ofList]
  by_cases h0 : 0 ≤ (ofDay n).year
  · exact isoText_lt_iff m.four ⟨h0, hn⟩
  · refine iff_of_false (lt_asymm (isoText_lt_of_neg (by omega) m.four)) fun h => ?_
    have hm := m.four.1
    have := ofDay_lt h
    omega

theorem dayText_eq {a : Int} {m : IsoDay} (h : dayText a = m.text) : a = m.day := by
  have htext : isoText (ofDay a) = isoText (ofDay m.day) := String.ofList_injective h
  have ha := parseIso_isoText (fourDigits_of_isoText m.four htext).represented
  rw [htext, parseIso_isoText m.four.represented] at ha
  rw [← toDay_ofDay a, ← toDay_ofDay m.day, Option.some.inj ha]

theorem subtractDays_text {parseError : String → String} {c : IsoDay} {days : Nat} {start : String}
    (h : subtractDays parseError c.text days = .ok start) : start = dayText (c.day - days) := by
  have hparse : parseIso c.text.toList = some (ofDay c.day) := by
    show parseIso (String.ofList (isoText (ofDay c.day))).toList = _
    rw [String.toList_ofList, parseIso_isoText c.four.represented]
  unfold subtractDays at h
  rw [hparse] at h
  dsimp only at h
  unfold checkedSubDays at h
  rw [toDay_ofDay] at h
  dsimp only at h
  split at h
  · cases h
  · rename_i shifted hshifted
    split at hshifted
    · cases hshifted
      exact (Except.ok.inj h).symm
    · cases hshifted

/-! ### Runs -/

/-- A run that keeps a cursor, with its days. -/
structure ApiRun where
  cfg : TransferConfig
  keeps : cfg.mode.keepsCursor = true
  fromDate : Option IsoDay
  toDate : Option IsoDay
  lookbackDays : Nat
  /-- The day it is made. -/
  today : IsoDay

namespace ApiRun

variable (parseError : String → String) (run : ApiRun)

def finish : IsoDay := run.toDate.getD run.today

def source : ApiSource where
  fromDate := run.fromDate.map IsoDay.text
  toDate := run.toDate.map IsoDay.text
  lookbackDays := run.lookbackDays

def derive (committed : Option String) : Except EtlError (String × String × Option String) :=
  deriveApiWindow parseError run.today.text run.cfg run.source committed

/-- The cursor pulled back by the lookback, as far as the floor. -/
def pulledBack (c : IsoDay) : Int :=
  match run.fromDate with
  | some floor => max (c.day - run.lookbackDays) floor.day
  | none => c.day - run.lookbackDays

/-- The first day a run resumed from the cursor reads. -/
def resumeDay (c : IsoDay) : Int := min (if 0 < run.lookbackDays then run.pulledBack c else c.day) run.finish.day

/-- No `from_date` past the cursor stops a lookback. -/
def FloorBehind (c : IsoDay) : Prop :=
  run.lookbackDays = 0 ∨ run.finish.day ≤ c.day ∨ ∀ f, run.fromDate = some f → f.day ≤ c.day

/-- The end of the run is not before the cursor, and its floor is behind it. -/
def Steady (c : IsoDay) : Prop := c.day ≤ run.finish.day ∧ run.FloorBehind c

/-- A resumed run's window starts no later than the day after the cursor, with a lookback no later than without; and
the cursor to save is no earlier than the cursor. -/
structure Resumes (c : IsoDay) (window : String × String × Option String) : Prop where
  starts : ∃ a, window.1 = dayText a ∧ a ≤ c.day + 1 ∧
    ∀ b w, { run with lookbackDays := 0 }.derive parseError (some c.text) = .ok (dayText b, w) → a ≤ b
  saves : ∃ d, window.2.2 = some (dayText d) ∧ c.day ≤ d

/-- The windows of a sequence of runs, the first of them with the saved cursor `committed`. -/
def windows : Option String → List ApiRun → Except EtlError (List (String × String))
  | _, [] => .ok []
  | committed, run :: runs => do
    let (start, finish, newWatermark) ← run.derive parseError committed
    let saved := if run.cfg.advanceWatermark then newWatermark.or committed else committed
    let rest ← windows saved runs
    return (start, finish) :: rest

variable {parseError run}

theorem finish_text : run.source.toDate.getD run.today.text = run.finish.text := by
  unfold source finish
  cases run.toDate with
  | none => rfl
  | some d => rfl

theorem mode_ne_full : run.cfg.mode ≠ .full := by
  intro h
  have := run.keeps
  rw [h] at this
  cases this

theorem lookBack_text {c : IsoDay} {start : String} (h : lookBack parseError run.source c.text = .ok start) :
    start = dayText (run.pulledBack c) := by
  unfold lookBack at h
  unfold pulledBack
  cases hsub : subtractDays parseError c.text run.source.lookbackDays with
  | error e =>
    rw [hsub] at h
    cases h
  | ok start' =>
    have hstart : start' = dayText (c.day - run.lookbackDays) := subtractDays_text hsub
    rw [hsub] at h
    cases hfloor : run.fromDate with
    | none =>
      have hsrc : run.source.fromDate = none := by
        unfold source
        rw [hfloor]
        rfl
      rw [hsrc] at h
      rw [← hstart]
      exact (Except.ok.inj h).symm
    | some floor =>
      have hsrc : run.source.fromDate = some floor.text := by
        unfold source
        rw [hfloor]
        rfl
      rw [hsrc] at h
      have hlt := dayText_lt (@year_le (c.day - run.lookbackDays) c (by omega)) floor
      rw [← hstart] at hlt
      dsimp only
      by_cases hback : start' < floor.text
      · have hday := hlt.mp hback
        simp only [bind, Except.bind, if_pos hback] at h
        rw [max_eq_right (by omega)]
        exact (Except.ok.inj h).symm
      · have hday : ¬ c.day - run.lookbackDays < floor.day := fun hd => hback (hlt.mpr hd)
        simp only [bind, Except.bind, if_neg hback] at h
        rw [max_eq_left (by omega), ← hstart]
        exact (Except.ok.inj h).symm

theorem pulledBack_year (c : IsoDay) : (ofDay (run.pulledBack c)).year ≤ 9999 := by
  unfold pulledBack
  cases run.fromDate with
  | none =>
    dsimp only
    exact @year_le _ c (by omega)
  | some floor =>
    dsimp only
    rcases le_total (c.day - run.lookbackDays) floor.day with hle | hle
    · rw [max_eq_right hle]
      exact floor.four.2
    · rw [max_eq_left hle]
      exact @year_le _ c (by omega)

/-- The end of the run where the start is past it. -/
theorem clamp_text {n : Int} (hn : (ofDay n).year ≤ 9999) :
    (if run.finish.text < dayText n then run.finish.text else dayText n) = dayText (min n run.finish.day) := by
  have hlt := lt_dayText hn run.finish
  by_cases hpast : run.finish.text < dayText n
  · have hday := hlt.mp hpast
    rw [if_pos hpast, min_eq_right (by omega)]
    rfl
  · have hday : ¬ run.finish.day < n := fun hd => hpast (hlt.mpr hd)
    rw [if_neg hpast, min_eq_left (by omega)]

/-- What a resumed run reads and saves. -/
theorem derive_resumed {c : IsoDay} {window : String × String × Option String}
    (h : run.derive parseError (some c.text) = .ok window) :
    window = (dayText (run.resumeDay c), run.finish.text, some run.finish.text) := by
  unfold derive deriveApiWindow at h
  rw [if_neg mode_ne_full, finish_text] at h
  simp only [Option.some_or, Option.isSome_some, Bool.true_and] at h
  unfold resumeDay
  by_cases hback : 0 < run.lookbackDays
  · have hcond : decide (0 < run.source.lookbackDays) = true := decide_eq_true hback
    rw [hcond, if_pos rfl] at h
    cases hlook : lookBack parseError run.source c.text with
    | error e =>
      rw [hlook] at h
      cases h
    | ok start =>
      rw [hlook, lookBack_text hlook] at h
      rw [if_pos hback, ← clamp_text (pulledBack_year c)]
      exact (Except.ok.inj h).symm
  · have hcond : decide (0 < run.source.lookbackDays) = false := decide_eq_false hback
    rw [hcond] at h
    rw [if_neg hback, ← clamp_text c.four.2]
    exact (Except.ok.inj h).symm

theorem resumeDay_without (c : IsoDay) : { run with lookbackDays := 0 }.resumeDay c = min c.day run.finish.day := rfl

/-- Without a lookback a run resumes from the cursor, or from its end before it. -/
theorem derive_without (c : IsoDay) : { run with lookbackDays := 0 }.derive parseError (some c.text) =
    .ok (dayText (min c.day run.finish.day), run.finish.text, some run.finish.text) := by
  cases h : { run with lookbackDays := 0 }.derive parseError (some c.text) with
  | ok window => rw [derive_resumed h, resumeDay_without]; rfl
  | error e =>
    have hmode := @mode_ne_full run
    unfold derive deriveApiWindow at h
    rw [if_neg hmode] at h
    cases h

/-- The floor is behind the cursor exactly when the lookback moves the start no later. -/
theorem resumeDay_le (c : IsoDay) : run.resumeDay c ≤ min c.day run.finish.day ↔ run.FloorBehind c := by
  unfold resumeDay FloorBehind pulledBack
  by_cases hback : 0 < run.lookbackDays
  · rw [if_pos hback]
    cases hfloor : run.fromDate with
    | none =>
      simp only [reduceCtorEq, false_imp_iff, implies_true, or_true, iff_true]
      omega
    | some floor =>
      simp only [Option.some.injEq, forall_eq']
      omega
  · rw [if_neg hback]
    omega

theorem exists_min (c d : IsoDay) : ∃ m : IsoDay, m.day = min c.day d.day := by
  rcases le_total c.day d.day with h | h
  · exact ⟨c, (min_eq_left h).symm⟩
  · exact ⟨d, (min_eq_right h).symm⟩

theorem resumeDay_year (c : IsoDay) : (ofDay (run.resumeDay c)).year ≤ 9999 :=
  year_le (m := run.finish) (min_le_right _ _)

theorem resumes_iff {c : IsoDay} {window : String × String × Option String}
    (h : run.derive parseError (some c.text) = .ok window) : run.Resumes parseError c window ↔ run.Steady c := by
  obtain rfl := derive_resumed h
  obtain ⟨m, hm⟩ := exists_min c run.finish
  have hwithout := @derive_without parseError run c
  rw [← hm] at hwithout
  constructor
  · rintro ⟨⟨a, ha, -, hearlier⟩, d, hd, hsaved⟩
    have hfinish : d = run.finish.day := dayText_eq (Option.some.inj hd).symm
    have hle := hearlier _ _ hwithout
    refine ⟨by omega, (resumeDay_le c).mp ?_⟩
    rw [← hm]
    by_cases h0 : 0 ≤ (ofDay (run.resumeDay c)).year
    · have heq : a = run.resumeDay c := @dayText_eq a ⟨_, h0, resumeDay_year c⟩ ha.symm
      omega
    · have hm0 := m.four.1
      by_contra hlt
      have := ofDay_lt (show m.day < run.resumeDay c by omega)
      omega
  · rintro ⟨hend, hfloor⟩
    have hle := (resumeDay_le c).mpr hfloor
    refine ⟨⟨run.resumeDay c, rfl, by omega, fun b w hb => ?_⟩, run.finish.day, rfl, hend⟩
    rw [hwithout] at hb
    have hb' : b = m.day := dayText_eq (congrArg Prod.fst (Except.ok.inj hb)).symm
    omega

/-! ### A sequence of runs -/

/-- The cursor after the run. -/
def nextCursor (run : ApiRun) (cursor : Option IsoDay) : Option IsoDay :=
  if run.cfg.advanceWatermark then some run.finish else cursor

/-- A resumed run's floor is behind its cursor.  A run without a cursor has no seed, and after another one its
`from_date` is no later than the day after that one's end. -/
def Continues (run : ApiRun) (cursor last : Option IsoDay) : Prop :=
  match cursor with
  | some c => run.FloorBehind c
  | none => run.cfg.seedWatermark = .none ∧ ∀ t f, last = some t → run.fromDate = some f → f.day ≤ t.day + 1

def AllContinue : Option IsoDay → Option IsoDay → List ApiRun → Prop
  | _, _, [] => True
  | cursor, last, run :: runs =>
    run.Continues cursor last ∧ AllContinue (run.nextCursor cursor) (some run.finish) runs

/-- A run without a cursor or a seed starts at its `from_date`. -/
theorem derive_first (hseed : run.cfg.seedWatermark = .none) {window : String × String × Option String}
    (h : run.derive parseError none = .ok window) : ∃ f, run.fromDate = some f ∧
      window = (dayText (min f.day run.finish.day), run.finish.text, some run.finish.text) := by
  unfold derive deriveApiWindow at h
  rw [if_neg mode_ne_full, finish_text, hseed] at h
  cases hfrom : run.fromDate with
  | none =>
    have hsrc : run.source.fromDate = none := by
      unfold source
      rw [hfrom]
      rfl
    rw [hsrc] at h
    cases h
  | some f =>
    have hsrc : run.source.fromDate = some f.text := by
      unfold source
      rw [hfrom]
      rfl
    rw [hsrc] at h
    refine ⟨f, rfl, ?_⟩
    rw [← clamp_text f.four.2]
    exact (Except.ok.inj h).symm

/-- Where a run's window starts and ends. -/
theorem derive_continues {cursor last : Option IsoDay} (hcont : run.Continues cursor last)
    {window : String × String × Option String} (h : run.derive parseError (cursor.map IsoDay.text) = .ok window) :
    ∃ a, window = (dayText a, run.finish.text, some run.finish.text) ∧
      (∀ c, cursor = some c → a ≤ c.day) ∧
      (cursor = none → ∃ f, run.fromDate = some f ∧ a ≤ f.day ∧ ∀ t, last = some t → f.day ≤ t.day + 1) := by
  cases cursor with
  | some c =>
    refine ⟨_, derive_resumed h, fun c' hc => ?_, fun hnone => ?_⟩
    · cases hc
      have := (resumeDay_le c).mpr hcont
      omega
    · cases hnone
  | none =>
    obtain ⟨f, hfrom, hwindow⟩ := derive_first hcont.1 h
    refine ⟨_, hwindow, fun c hc => ?_, fun _ => ⟨f, hfrom, min_le_left _ _, fun t ht => hcont.2 t f ht hfrom⟩⟩
    cases hc

theorem windows_cons {cursor : Option IsoDay} {runs : List ApiRun} {ws : List (String × String)}
    {last : Option IsoDay} (hcont : run.Continues cursor last)
    (h : windows parseError (cursor.map IsoDay.text) (run :: runs) = .ok ws) :
    ∃ window rest, run.derive parseError (cursor.map IsoDay.text) = .ok window ∧
      windows parseError ((run.nextCursor cursor).map IsoDay.text) runs = .ok rest ∧
      ws = (window.1, window.2.1) :: rest := by
  unfold windows at h
  cases hderive : run.derive parseError (cursor.map IsoDay.text) with
  | error e =>
    rw [hderive] at h
    cases h
  | ok window =>
    obtain ⟨a, rfl, -⟩ := derive_continues hcont hderive
    have hsaved : (if run.cfg.advanceWatermark then (some run.finish.text).or (cursor.map IsoDay.text)
        else cursor.map IsoDay.text) = (run.nextCursor cursor).map IsoDay.text := by
      unfold nextCursor
      split
      · rfl
      · rfl
    rw [hderive] at h
    simp only [bind, Except.bind, hsaved] at h
    cases hrest : windows parseError ((run.nextCursor cursor).map IsoDay.text) runs with
    | error e =>
      rw [hrest] at h
      cases h
    | ok rest =>
      rw [hrest] at h
      exact ⟨_, rest, rfl, rfl, (Except.ok.inj h).symm⟩

/-- After a run that ended at `last`, the runs that follow leave no day out. -/
theorem windows_cover {cursor : Option IsoDay} {last : IsoDay} {runs : List ApiRun} {ws : List (String × String)}
    (hcursor : ∀ c, cursor = some c → c.day ≤ last.day) (hcont : AllContinue cursor (some last) runs)
    (hends : (last :: runs.map finish).Pairwise fun a b => a.day ≤ b.day)
    (h : windows parseError (cursor.map IsoDay.text) runs = .ok ws) :
    ∀ run ∈ runs, ∀ day, last.day < day → day ≤ run.finish.day → ∃ w ∈ ws, ReadsDay w day := by
  induction runs generalizing cursor last ws with
  | nil => simp
  | cons run runs ih =>
    obtain ⟨hrun, hruns⟩ := hcont
    rw [List.map_cons, List.pairwise_cons] at hends
    have hend : last.day ≤ run.finish.day := hends.1 run.finish List.mem_cons_self
    obtain ⟨window, rest, hderive, hrest, rfl⟩ := windows_cons hrun h
    obtain ⟨a, rfl, hresumed, hfresh⟩ := derive_continues hrun hderive
    have hstart : a ≤ last.day + 1 := by
      cases hc : cursor with
      | some c =>
        have := hresumed c hc
        have := hcursor c hc
        omega
      | none =>
        obtain ⟨f, -, haf, hf⟩ := hfresh hc
        have := hf last rfl
        omega
    have hnext : ∀ c, run.nextCursor cursor = some c → c.day ≤ run.finish.day := by
      intro c hc
      unfold nextCursor at hc
      split at hc
      · cases hc
        exact le_refl _
      · have := hcursor c hc
        omega
    intro run' hmem day hlt hle
    by_cases hin : day ≤ run.finish.day
    · exact ⟨_, List.mem_cons_self, a, run.finish.day, rfl, rfl, by omega, hin⟩
    · rcases List.mem_cons.mp hmem with rfl | hmem
      · exact absurd hle hin
      · obtain ⟨w, hw, hreads⟩ := ih hnext hruns hends.2 hrest run' hmem day (by omega) hle
        exact ⟨w, List.mem_cons_of_mem _ hw, hreads⟩

/-- From the first run's `from_date` on no day is left out. -/
theorem windows_cover_first {first : ApiRun} {rest : List ApiRun} {f : IsoDay} {ws : List (String × String)}
    (hfrom : first.fromDate = some f) (hcont : AllContinue none none (first :: rest))
    (hends : ((first :: rest).map finish).Pairwise fun a b => a.day ≤ b.day)
    (h : windows parseError none (first :: rest) = .ok ws) :
    ∀ run ∈ first :: rest, ∀ day, f.day ≤ day → day ≤ run.finish.day → ∃ w ∈ ws, ReadsDay w day := by
  obtain ⟨hfirst, hrest⟩ := hcont
  obtain ⟨window, ws, hderive, hwindows, rfl⟩ := windows_cons hfirst h
  obtain ⟨a, rfl, -, hfresh⟩ := derive_continues hfirst hderive
  obtain ⟨f', hf', haf, -⟩ := hfresh rfl
  obtain rfl : f' = f := Option.some.inj (hf'.symm.trans hfrom)
  have hcursor : ∀ c, first.nextCursor none = some c → c.day ≤ first.finish.day := by
    intro c hc
    unfold nextCursor at hc
    split at hc
    · cases hc
      exact le_refl _
    · cases hc
  intro run hmem day hlow hle
  by_cases hin : day ≤ first.finish.day
  · exact ⟨_, List.mem_cons_self, a, first.finish.day, rfl, rfl, by omega, hin⟩
  · rcases List.mem_cons.mp hmem with rfl | hmem
    · exact absurd hle hin
    · obtain ⟨w, hw, hreads⟩ := windows_cover hcursor hrest hends hwindows run hmem day (by omega) hle
      exact ⟨w, List.mem_cons_of_mem _ hw, hreads⟩

end ApiRun

/-- A resumed run starts where it should and saves a cursor that has not moved back exactly when it does not end before
the cursor and no floor past the cursor stops its lookback; and runs whose floors stay behind the cursor leave no day
out. -/
theorem api_windows_steady (parseError : String → String) :
    (∀ (run : ApiRun) (c : IsoDay) (window : String × String × Option String),
      run.derive parseError (some c.text) = .ok window → (run.Resumes parseError c window ↔ run.Steady c)) ∧
    ∀ (first : ApiRun) (rest : List ApiRun) (f : IsoDay) (ws : List (String × String)), first.fromDate = some f →
      ApiRun.AllContinue none none (first :: rest) →
      ((first :: rest).map ApiRun.finish).Pairwise (fun a b => a.day ≤ b.day) →
      ApiRun.windows parseError none (first :: rest) = .ok ws →
      ∀ run ∈ first :: rest, ∀ day, f.day ≤ day → day ≤ run.finish.day → ∃ w ∈ ws, ReadsDay w day :=
  ⟨fun _ _ _ h => ApiRun.resumes_iff h, fun _ _ _ _ hfrom hcont hends h =>
    ApiRun.windows_cover_first hfrom hcont hends h⟩

/-! ### July and August 2026 -/

def julyFirst : IsoDay := ⟨20635, by decide +kernel⟩
def julyFifth : IsoDay := ⟨20639, by decide +kernel⟩
def julyTenth : IsoDay := ⟨20644, by decide +kernel⟩
def augustFirst : IsoDay := ⟨20666, by decide +kernel⟩
def augustTenth : IsoDay := ⟨20675, by decide +kernel⟩

/-- A run that reads events up to a day, with a lookback of three days. -/
def eventsRun (fromDate toDate : IsoDay) : ApiRun where
  cfg := { sourceTable := none, destTable := "events", mode := .incremental, key := ["id"] }
  keeps := rfl
  fromDate := some fromDate
  toDate := some toDate
  lookbackDays := 3
  today := toDate

/-- A `from_date` moved to August after a run up to July 5 leaves the days between unread, and a run that ends before
the cursor saves an earlier one. -/
theorem raised_floor_leaves_days_unread :
    ApiRun.windows (fun _ => "") none [eventsRun julyFirst julyFifth, eventsRun augustFirst augustTenth] =
      .ok [("2026-07-01", "2026-07-05"), ("2026-08-01", "2026-08-10")] ∧
    ¬ (eventsRun augustFirst augustTenth).Resumes (fun _ => "") julyFifth
      ("2026-08-01", "2026-08-10", some "2026-08-10") ∧
    (eventsRun julyFirst julyFifth).derive (fun _ => "") (some julyTenth.text) =
      .ok ("2026-07-05", "2026-07-05", some "2026-07-05") ∧
    ¬ (eventsRun julyFirst julyFifth).Resumes (fun _ => "") julyTenth
      ("2026-07-05", "2026-07-05", some "2026-07-05") := by
  have haugust : (eventsRun augustFirst augustTenth).derive (fun _ => "") (some julyFifth.text) =
      .ok ("2026-08-01", "2026-08-10", some "2026-08-10") := by decide +kernel
  have hjuly : (eventsRun julyFirst julyFifth).derive (fun _ => "") (some julyTenth.text) =
      .ok ("2026-07-05", "2026-07-05", some "2026-07-05") := by decide +kernel
  refine ⟨by decide +kernel, fun h => ?_, hjuly, fun h => ?_⟩
  · obtain ⟨-, hback | hend | hfloor⟩ := (ApiRun.resumes_iff haugust).mp h
    · exact absurd hback (by decide)
    · exact absurd hend (by decide)
    · exact absurd (hfloor augustFirst rfl) (by decide)
  · exact absurd ((ApiRun.resumes_iff hjuly).mp h).1 (by decide)

/-- With its floor where it was, the second run starts three days before the cursor, and July 7 is read. -/
theorem july_read : (eventsRun julyFirst augustTenth).Resumes (fun _ => "") julyFifth
      ("2026-07-02", "2026-08-10", some "2026-08-10") ∧
    ∃ w ∈ [("2026-07-01", "2026-07-05"), ("2026-07-02", "2026-08-10")], ReadsDay w 20641 := by
  have hsteady := (api_windows_steady fun _ => "").1 (eventsRun julyFirst augustTenth) julyFifth
    ("2026-07-02", "2026-08-10", some "2026-08-10") (by decide +kernel)
  have hread := (api_windows_steady fun _ => "").2 (eventsRun julyFirst julyFifth) [eventsRun julyFirst augustTenth]
    julyFirst [("2026-07-01", "2026-07-05"), ("2026-07-02", "2026-08-10")] rfl
  have hfloor : (eventsRun julyFirst augustTenth).FloorBehind julyFifth := by
    refine .inr (.inr fun f hf => ?_)
    cases hf
    decide
  refine ⟨hsteady.mpr ⟨by decide, hfloor⟩, ?_⟩
  refine hread ⟨⟨rfl, fun _ _ h => by cases h⟩, hfloor, trivial⟩ ?_ (by decide +kernel)
    (eventsRun julyFirst augustTenth) (by simp) 20641 (by decide) (by decide)
  show [julyFifth, augustTenth].Pairwise fun a b => a.day ≤ b.day
  simp [julyFifth, augustTenth]

end Quickhouse
