import Quickhouse.ChunkedRead

/-!
# What a resume marker covers

A read is interrupted anywhere and resumed past its marker, any number of times.  While no row of its window
changes, a marker saved with key `k` means that the window's rows up to `k` have landed, a read that reports
completion has landed them all, and its chunks are finite in number (`keyset_resume_covers`).

The window is what lies between the read's bounds.  A resumed run takes its lower bound from the committed cursor or
the seed again and its upper bound from the marker, so its window is the one the marker covers
(`newRun_window`), and the one its own markers will (`window_of_markerUpper`).  `nulls` says whether rows whose
watermark is NULL count: they do where every attempt reads them.
-/

namespace Quickhouse

open Runs Paging Binary64

variable (t : ChunkedTransfer) (nulls : Bool)

/-! ### Windows -/

/-- The watermark lies between two bounds. -/
def inBounds (lower upper : Option CursorText) : Option Int → Bool
  | none => nulls
  | some v => ReadFilter.spans t { lower, upper } v

/-- The window of a run. -/
def ChunkRun.window (r : ChunkRun) : Option Int → Bool := inBounds t nulls r.filter.lower r.filter.upper

/-- The window a run resuming the marker reads. -/
def World.frozenWindow (s : World) (m : ChunkMarker) : Option Int → Bool :=
  inBounds t nulls (s.committed.or (seedValue t.textOf t.cfg.seedWatermark m.upper)) m.upper

/-- The watermark lies in the window of the run in progress or of the marker. -/
def World.InWindow (s : World) (w : Option Int) : Prop :=
  (∃ m, s.marker = some m ∧ s.frozenWindow t nulls m w = true) ∨
    ∃ r, s.run = some r ∧ r.window t nulls w = true

/-- No change moves a row into the window, and an attempt reads the NULL rows where they count. -/
def Quiet (s : World) : Event → Prop
  | .change now _ => ¬ s.InWindow t nulls (some (t.stampOf now))
  | .start _ skipMax => nulls = true → (s.newRun t skipMax).filter.readsNull = true
  | _ => True

/-! ### The invariant -/

/-- The chunk holds the window's rows past the cursor, as far as it reaches. -/
def ChunkHolds (s : World) (r : ChunkRun) (chunk : List RowVersion) : Prop :=
  ∀ x ∈ s.source, r.window t nulls x.watermark = true → ¬ PassedBy r.cursor x.key →
    Reached RowVersion.key t.limit chunk x.key → x ∈ chunk

def PhaseInv (s : World) (r : ChunkRun) : Phase → Prop
  | .chunkStart => True
  | .inserting chunk todo =>
    ChunkHolds t nulls s r chunk ∧
      ∀ x ∈ chunk, t.leavesIn x = true → x ∈ todo ∨ x ∈ r.staging ∨ x ∈ s.dest
  | .landed chunk => ChunkHolds t nulls s r chunk ∧ ∀ x ∈ chunk, t.leavesIn x = true → x ∈ s.dest
  | .complete => ∀ x ∈ s.source, r.window t nulls x.watermark = true → t.leavesIn x = true → x ∈ s.dest

/-- What each kind of marker bound says of the run. -/
def BoundInv (s : World) (r : ChunkRun) : MarkerBound → Prop
  | .frozen => r.effectiveUpper.isSome = true
  | .unbounded => s.committed.isSome = true ∧ ∃ m, s.marker = some m ∧ m.upper = none ∧
      ∀ x ∈ s.source, s.frozenWindow t nulls m x.watermark = true → r.window t nulls x.watermark = true
  | .stream _ _ => r.effectiveUpper = none ∧
      (r.tracker.isSome = true → s.committed.isSome = true ∨ t.cfg.seedWatermark ≠ .currentMax)

structure ResumeRunInv (s : World) (r : ChunkRun) : Prop where
  committed_eq : r.committed = s.committed
  lower_eq : r.filter.lower = s.committed.or (seedValue t.textOf t.cfg.seedWatermark r.effectiveUpper)
  upper_eq : r.filter.upper = r.effectiveUpper
  reads_null : nulls = true → r.filter.readsNull = true
  bound : BoundInv t nulls s r r.bound
  passed : ∀ x ∈ s.source, r.window t nulls x.watermark = true → PassedBy r.cursor x.key →
    t.leavesIn x = true → x ∈ s.dest
  phase : PhaseInv t nulls s r r.phase

structure ResumeInv (s : World) : Prop where
  keys : (s.source.map (·.key)).Nodup
  marker : ∀ m, s.marker = some m → (∃ k : Int, m.cursor = toString k) ∧
    ∀ x ∈ s.source, s.frozenWindow t nulls m x.watermark = true → PassedBy (some m.cursor) x.key →
      t.leavesIn x = true → x ∈ s.dest
  run : ∀ r, s.run = some r → ResumeRunInv t nulls s r

variable {t nulls} {s s' : World} {r : ChunkRun}

/-- Rows may leave the source, or enter it outside the window. -/
theorem ResumeInv.source_change (h : ResumeInv t nulls s) {clock changes : Nat} {source : List RowVersion}
    (hkeys : (source.map (·.key)).Nodup)
    (hsource : ∀ x ∈ source, s.InWindow t nulls x.watermark → x ∈ s.source) :
    ResumeInv t nulls { s with clock, changes, source } where
  keys := hkeys
  marker m hm := by
    obtain ⟨hk, hcov⟩ := h.marker m hm
    refine ⟨hk, fun x hx hw => hcov x (hsource x hx (Or.inl ⟨m, hm, hw⟩)) hw⟩
  run r hr := by
    have hinv := h.run r hr
    have hwin : ∀ x ∈ source, r.window t nulls x.watermark = true → x ∈ s.source :=
      fun x hx hw => hsource x hx (Or.inr ⟨r, hr, hw⟩)
    refine ⟨hinv.committed_eq, hinv.lower_eq, hinv.upper_eq, hinv.reads_null, ?_, ?_, ?_⟩
    · have hb := hinv.bound
      cases hbound : r.bound with
      | frozen =>
        rw [hbound] at hb
        exact hb
      | unbounded =>
        rw [hbound] at hb
        obtain ⟨hc, m, hm, hup, hsub⟩ := hb
        exact ⟨hc, m, hm, hup, fun x hx hw => hsub x (hsource x hx (Or.inl ⟨m, hm, hw⟩)) hw⟩
      | stream floor best =>
        rw [hbound] at hb
        exact hb
    · exact fun x hx hw => hinv.passed x (hwin x hx hw) hw
    · have hp := hinv.phase
      cases hphase : r.phase with
      | chunkStart => trivial
      | inserting chunk todo =>
        rw [hphase] at hp
        exact ⟨fun x hx hw => hp.1 x (hwin x hx hw) hw, hp.2⟩
      | landed chunk =>
        rw [hphase] at hp
        exact ⟨fun x hx hw => hp.1 x (hwin x hx hw) hw, hp.2⟩
      | complete =>
        rw [hphase] at hp
        exact fun x hx hw => hp x (hwin x hx hw) hw

/-! ### The window of a resumed run -/

theorem ResumeRunInv.admits (h : ResumeRunInv t nulls s r) {w : Option Int} (hw : r.window t nulls w = true) :
    r.filter.admits t w = true := by
  cases w with
  | none => exact h.reads_null hw
  | some v => exact hw

/-- Bounds with a seed that does not follow the marker's bound span no more when the upper one is added. -/
theorem inBounds_of_upper {committed upper : Option CursorText} {w : Option Int}
    (h : inBounds t nulls (committed.or (seedValue t.textOf t.cfg.seedWatermark upper)) upper w = true) :
    inBounds t nulls (committed.or (seedValue t.textOf t.cfg.seedWatermark none)) none w = true := by
  cases w with
  | none => exact h
  | some v =>
    simp only [inBounds, ReadFilter.spans, Bool.and_eq_true, Option.all_none, and_true] at h ⊢
    cases committed with
    | some c => exact h.1
    | none =>
      cases hseed : t.cfg.seedWatermark with
      | none => rfl
      | currentMax => rfl
      | value v =>
        rw [hseed] at h
        exact h.1

/-- What a resuming run reads lies in the window of the marker it resumes. -/
theorem newRun_window {skipMax : Bool} {m : ChunkMarker} (hm : s.marker = some m) {w : Option Int}
    (hw : (s.newRun t skipMax).window t nulls w = true) : s.frozenWindow t nulls m w = true := by
  unfold ChunkRun.window at hw
  rw [World.newRun_lower, World.newRun_upper, World.newRun_effectiveUpper, hm] at hw
  unfold World.frozenWindow
  cases hup : m.upper with
  | some u =>
    rw [Option.bind_some, hup, Option.some_or] at hw
    exact hw
  | none =>
    exact inBounds_of_upper hw

private theorem newRun_boundInv {skipMax : Bool} (hstart : ¬ (t.cfg.seedWatermark = .currentMax ∧
      s.committed = none ∧ (s.newRun t skipMax).effectiveUpper = none ∧ skipMax = true)) :
    BoundInv t nulls { s with run := some (s.newRun t skipMax) } (s.newRun t skipMax)
      (s.newRun t skipMax).bound := by
  rw [World.newRun_bound]
  split_ifs with hkeep hupper
  · simp only [World.newRun_keepCommitted, Bool.and_eq_true, Option.isNone_iff_eq_none] at hkeep
    obtain ⟨⟨hmarker, hnone⟩, hcommitted⟩ := hkeep
    obtain ⟨m, hm⟩ := Option.isSome_iff_exists.mp hmarker
    rw [hm, Option.bind_some] at hnone
    refine ⟨hcommitted, m, hm, hnone, fun x hx hw => ?_⟩
    -- no row of the source is above the MAX
    obtain ⟨c, hc⟩ := Option.isSome_iff_exists.mp hcommitted
    unfold ChunkRun.window
    rw [World.newRun_lower, World.newRun_upper, World.newRun_effectiveUpper, hm, Option.bind_some, hnone,
      Option.none_or]
    cases hwm : x.watermark with
    | none =>
      rw [hwm] at hw
      exact hw
    | some v =>
      rw [hwm] at hw
      simp only [World.frozenWindow, hc, Option.some_or, inBounds, ReadFilter.spans, Bool.and_eq_true] at hw ⊢
      refine ⟨hw.1, ?_⟩
      cases hmax : s.snapshotMax t skipMax with
      | none => rfl
      | some u =>
        rw [Option.all_some, decide_eq_true_eq]
        exact World.le_snapshotMax hmax hx hwm
  · exact hupper
  · have hnone : (s.newRun t skipMax).effectiveUpper = none := by simpa using hupper
    refine ⟨hnone, fun htracker => ?_⟩
    have hskip : skipMax = true := by
      by_contra hskip
      rw [World.newRun_tracker, if_neg hskip] at htracker
      cases htracker
    by_cases hc : s.committed = none
    · right
      intro hseed
      exact hstart ⟨hseed, hc, hnone, hskip⟩
    · left
      exact Option.isSome_iff_ne_none.mpr hc

theorem ResumeInv.start (h : ResumeInv t nulls s) {skipMax : Bool}
    (hquiet : nulls = true → (s.newRun t skipMax).filter.readsNull = true) (he : s.start t skipMax = some s') :
    ResumeInv t nulls s' := by
  obtain ⟨hrun, -, hseed, rfl⟩ := World.start_cases he
  refine ⟨h.keys, h.marker, fun r hr => ?_⟩
  obtain rfl := Option.some.inj hr
  refine ⟨rfl, World.newRun_lower t s skipMax, World.newRun_upper t s skipMax, hquiet, newRun_boundInv hseed, ?_,
    trivial⟩
  intro x hx hw ⟨c, hc, hle⟩ hin
  obtain ⟨m, hm, rfl⟩ : ∃ m, s.marker = some m ∧ m.cursor = c := by
    rw [World.newRun_cursor] at hc
    exact Option.map_eq_some_iff.mp hc
  exact (h.marker m hm).2 x hx (newRun_window hm hw) ⟨_, rfl, hle⟩ hin

/-! ### A chunk, step by step -/

theorem ResumeInv.readChunk (h : ResumeInv t nulls s) (he : s.readChunk t = some s') : ResumeInv t nulls s' := by
  obtain ⟨r, hr, -, rfl⟩ := World.readChunk_cases he
  have hinv := h.run r hr
  refine ⟨h.keys, h.marker, fun r' hr' => ?_⟩
  obtain rfl := Option.some.inj hr'
  refine ⟨hinv.committed_eq, hinv.lower_eq, hinv.upper_eq, hinv.reads_null, ?_, hinv.passed, ?_, ?_⟩
  · have hb := hinv.bound
    cases hbound : r.bound with
    | frozen =>
      rw [hbound] at hb
      exact hb
    | unbounded =>
      rw [hbound] at hb
      exact hb
    | stream floor best =>
      rw [hbound] at hb
      refine ⟨hb.1, fun htracker => hb.2 ?_⟩
      rw [Option.isSome_map] at htracker
      exact htracker
  · intro x hx hw hpast hreached
    exact World.nextChunk_complete h.keys hx hpast (hinv.admits hw) hreached
  · intro x hx _
    exact Or.inl hx

/-- More has landed, and the run's window, bounds and cursor are as they were. -/
theorem ResumeRunInv.more_landed {r' : ChunkRun} (hinv : ResumeRunInv t nulls s r) {dest : List RowVersion}
    (hdest : ∀ x ∈ s.dest, x ∈ dest) (hplan : r' = { r with staging := r'.staging, phase := r'.phase })
    (hphase : PhaseInv t nulls { s with dest, run := some r' } r' r'.phase) :
    ResumeRunInv t nulls { s with dest, run := some r' } r' := by
  rw [hplan] at hphase ⊢
  refine ⟨hinv.committed_eq, hinv.lower_eq, hinv.upper_eq, hinv.reads_null, ?_, ?_, hphase⟩
  · have hb := hinv.bound
    cases hbound : r.bound with
    | frozen =>
      rw [hbound] at hb
      exact hb
    | unbounded =>
      rw [hbound] at hb
      exact hb
    | stream floor best =>
      rw [hbound] at hb
      exact hb
  · exact fun x hx hw hpast hin => hdest x (hinv.passed x hx hw hpast hin)

theorem ResumeInv.insert (h : ResumeInv t nulls s) {i : Nat} (he : s.insert t i = some s') :
    ResumeInv t nulls s' := by
  obtain ⟨r, chunk, todo, x, hr, hphase, hx, rfl⟩ := World.insert_cases he
  have hinv := h.run r hr
  have hdest : ∀ y ∈ s.dest, y ∈ if t.leavesIn x && !t.staged then s.dest ++ [x] else s.dest := by
    intro y hy
    split_ifs
    · exact List.mem_append_left _ hy
    · exact hy
  refine ⟨h.keys, fun m hm => ?_, fun r' hr' => ?_⟩
  · obtain ⟨hk, hcov⟩ := h.marker m hm
    exact ⟨hk, fun y hy hw hpast hin => hdest y (hcov y hy hw hpast hin)⟩
  · obtain rfl := Option.some.inj hr'
    refine hinv.more_landed hdest rfl ?_
    have hp := hinv.phase
    rw [hphase] at hp
    refine ⟨hp.1, fun y hy hin => ?_⟩
    rcases hp.2 y hy hin with htodo | hstaging | hlanded
    · rcases eq_or_mem_eraseIdx hx htodo with rfl | htodo
      · by_cases hstaged : t.staged = true
        · right; left
          simp [hin, hstaged]
        · right; right
          simp [hin, hstaged]
      · exact Or.inl htodo
    · right; left
      show y ∈ if t.leavesIn x && t.staged then r.staging ++ [x] else r.staging
      split_ifs
      · exact List.mem_append_left _ hstaging
      · exact hstaging
    · exact Or.inr (Or.inr (hdest y hlanded))

theorem ResumeInv.endChunk (h : ResumeInv t nulls s) (he : s.endChunk = some s') : ResumeInv t nulls s' := by
  obtain ⟨r, chunk, hr, hphase, rfl⟩ := World.endChunk_cases he
  have hinv := h.run r hr
  have hdest : ∀ y ∈ s.dest, y ∈ s.dest ++ r.staging := fun y hy => List.mem_append_left _ hy
  refine ⟨h.keys, fun m hm => ?_, fun r' hr' => ?_⟩
  · obtain ⟨hk, hcov⟩ := h.marker m hm
    exact ⟨hk, fun y hy hw hpast hin => hdest y (hcov y hy hw hpast hin)⟩
  · obtain rfl := Option.some.inj hr'
    refine hinv.more_landed hdest rfl ?_
    have hp := hinv.phase
    rw [hphase] at hp
    have hlanded : ∀ x ∈ chunk, t.leavesIn x = true → x ∈ s.dest ++ r.staging := by
      intro x hx hin
      rcases hp.2 x hx hin with htodo | hstaging | hlanded
      · cases htodo
      · exact List.mem_append_right _ hstaging
      · exact hdest x hlanded
    by_cases hempty : chunk = []
    · -- an empty chunk is a short one
      rw [if_pos hempty]
      intro x hx hw hin
      by_cases hpast : PassedBy r.cursor x.key
      · exact hdest x (hinv.passed x hx hw hpast hin)
      · have hmem := hp.1 x hx hw hpast (Or.inr (by rw [hempty]; exact t.limit_pos))
        rw [hempty] at hmem
        cases hmem
    · rw [if_neg hempty]
      exact ⟨hp.1, hlanded⟩

/-- What a marker saved by a run covers lies in the run's window. -/
theorem window_of_markerUpper (hinv : ResumeRunInv t nulls s r) (secs : F64) {x : RowVersion}
    (hx : x ∈ s.source)
    (hw : inBounds t nulls (r.committed.or (seedValue t.textOf t.cfg.seedWatermark (r.markerUpper t secs).1))
      (r.markerUpper t secs).1 x.watermark = true) : r.window t nulls x.watermark = true := by
  have hb := hinv.bound
  unfold ChunkRun.window
  rw [hinv.committed_eq] at hw
  rw [hinv.lower_eq, hinv.upper_eq]
  cases hbound : r.bound with
  | frozen =>
    simp only [ChunkRun.markerUpper, hbound] at hw
    exact hw
  | unbounded =>
    rw [hbound] at hb
    obtain ⟨-, m, -, hup, hsub⟩ := hb
    have hsub := hsub x hx
    unfold ChunkRun.window World.frozenWindow at hsub
    rw [hup, hinv.lower_eq, hinv.upper_eq] at hsub
    simp only [ChunkRun.markerUpper, hbound] at hw
    exact hsub hw
  | stream floor best =>
    rw [hbound] at hb
    rw [hb.1]
    exact inBounds_of_upper hw

theorem boundInv_markerUpper (hinv : ResumeRunInv t nulls s r) {secs : F64} {k : Int} {phase : Phase} :
    BoundInv t nulls
      { s with
        committed := r.committed
        marker := some ⟨toString k, (r.markerUpper t secs).1⟩
        run := some { r with bound := (r.markerUpper t secs).2, cursor := some (toString k), phase } }
      { r with bound := (r.markerUpper t secs).2, cursor := some (toString k), phase }
      (r.markerUpper t secs).2 := by
  have hb := hinv.bound
  have hcommitted := hinv.committed_eq
  cases hbound : r.bound with
  | frozen =>
    rw [hbound] at hb
    have hup : r.markerUpper t secs = (r.effectiveUpper, .frozen) := by simp only [ChunkRun.markerUpper, hbound]
    rw [hup]
    exact hb
  | unbounded =>
    rw [hbound] at hb
    have hup : r.markerUpper t secs = (none, .unbounded) := by simp only [ChunkRun.markerUpper, hbound]
    rw [hup]
    refine ⟨by rw [hcommitted]; exact hb.1, _, rfl, rfl, fun x hx hw => ?_⟩
    refine window_of_markerUpper hinv secs hx ?_
    rw [hup]
    exact hw
  | stream floor best =>
    rw [hbound] at hb
    have hstream : ∃ best', (r.markerUpper t secs).2 = .stream floor best' := by
      simp only [ChunkRun.markerUpper, hbound]
      split
      · exact ⟨_, rfl⟩
      · split
        · exact ⟨_, rfl⟩
        · exact ⟨_, rfl⟩
    obtain ⟨best', hbest⟩ := hstream
    rw [hbest]
    refine ⟨hb.1, fun htracker => ?_⟩
    rw [hcommitted]
    exact hb.2 htracker

theorem ResumeInv.saveMarker (h : ResumeInv t nulls s) {secs : F64} (he : s.saveMarker t secs = some s') :
    ResumeInv t nulls s' := by
  obtain ⟨r, chunk, firstRead, last, hr, hphase, -, hlast, -, rfl⟩ := World.saveMarker_cases he
  have hinv := h.run r hr
  have hp := hinv.phase
  rw [hphase] at hp
  -- the chunk has landed, and it holds the window's rows up to its last
  have hcov : ∀ x ∈ s.source, r.window t nulls x.watermark = true →
      (PassedBy (some (toString last.key)) x.key ∨ chunk.length < t.limit) → t.leavesIn x = true → x ∈ s.dest := by
    intro x hx hw hreached hin
    by_cases hpast : PassedBy r.cursor x.key
    · exact hinv.passed x hx hw hpast hin
    · refine hp.2 x (hp.1 x hx hw hpast ?_) hin
      rcases hreached with hle | hshort
      · exact Or.inl ⟨last, hlast, passedBy_toString.mp hle⟩
      · exact Or.inr hshort
  refine ⟨h.keys, fun m hm => ?_, fun r' hr' => ?_⟩
  · obtain rfl := Option.some.inj hm
    exact ⟨⟨last.key, rfl⟩, fun x hx hw hpast hin =>
      hcov x hx (window_of_markerUpper hinv secs hx hw) (Or.inl hpast) hin⟩
  · obtain rfl := Option.some.inj hr'
    refine ⟨rfl, ?_, hinv.upper_eq, hinv.reads_null, boundInv_markerUpper hinv, ?_, ?_⟩
    · show r.filter.lower = r.committed.or _
      rw [hinv.committed_eq]
      exact hinv.lower_eq
    · exact fun x hx hw hpast hin => hcov x hx hw (Or.inl hpast) hin
    · by_cases hshort : chunk.length < t.limit
      · rw [if_pos hshort]
        exact fun x hx hw hin => hcov x hx hw (Or.inr hshort) hin
      · rw [if_neg hshort]
        trivial

/-! ### Whole histories -/

theorem ResumeInv.step {e : Event} (h : ResumeInv t nulls s) (hquiet : Quiet t nulls s e)
    (he : s.step t e = some s') : ResumeInv t nulls s' := by
  obtain ⟨-, -, he⟩ := World.step_cases he
  have hclock : ResumeInv t nulls { s with clock := e.now } := h.source_change h.keys fun x hx _ => hx
  cases e with
  | change now key =>
    obtain rfl := Option.some.inj he
    refine h.source_change (@World.change_keys t { s with clock := now } key h.keys) fun x hx hw => ?_
    rcases @World.mem_change t { s with clock := now } key x hx with hx | rfl
    · exact hx
    · exact absurd hw hquiet
  | delete now key =>
    obtain rfl := Option.some.inj he
    exact h.source_change (World.delete_keys h.keys) fun x hx _ => World.mem_delete hx
  | start now skipMax => exact hclock.start hquiet he
  | readChunk now => exact hclock.readChunk he
  | insert now i => exact hclock.insert he
  | endChunk now => exact hclock.endChunk he
  | saveMarker now secs => exact hclock.saveMarker he
  | finish now secs =>
    obtain ⟨r, firstRead, -, -, -, -, rfl⟩ := World.finish_cases he
    refine ⟨h.keys, fun m hm => ?_, fun r hr => ?_⟩
    · cases hm
    · cases hr
  | crash now =>
    obtain rfl := World.crash_cases he
    refine ⟨h.keys, h.marker, fun r hr => ?_⟩
    cases hr

/-- The chunks a run may still read: the rows past its cursor, or past the chunk in hand, and the empty one. -/
def World.chunksLeft (t : ChunkedTransfer) (s : World) : Nat :=
  match s.run with
  | none => 0
  | some r =>
    match r.phase with
    | .chunkStart => (s.candidates t r.filter r.cursor).length + 1
    | .inserting chunk _ | .landed chunk =>
      match chunk.getLast? with
      | some last =>
        if chunk.length < t.limit then 0
        else (s.candidates t r.filter (some (toString last.key))).length + 1
      | none => 0
    | .complete => 0

def Event.readsChunk : Event → Bool
  | .readChunk _ => true
  | _ => false

private theorem chunksLeft_mono (hrun : s'.run = s.run)
    (hle : ∀ r, s.run = some r → ∀ cursor,
      (s'.candidates t r.filter cursor).length ≤ (s.candidates t r.filter cursor).length) :
    s'.chunksLeft t ≤ s.chunksLeft t := by
  unfold World.chunksLeft
  rw [hrun]
  cases hr : s.run with
  | none => exact le_refl _
  | some r =>
    have hle := hle r hr
    cases hphase : r.phase with
    | chunkStart =>
      have := hle r.cursor
      simp only [hphase]
      omega
    | inserting chunk todo =>
      simp only [hphase]
      split
      · rename_i last _
        have := hle (some (toString last.key))
        split_ifs
        · exact le_refl _
        · omega
      · exact le_refl _
    | landed chunk =>
      simp only [hphase]
      split
      · rename_i last _
        have := hle (some (toString last.key))
        split_ifs
        · exact le_refl _
        · omega
      · exact le_refl _
    | complete => simp only [hphase, le_refl]

/-- A change outside the window adds no row to read. -/
private theorem candidates_change {now : Nat} {key : Int} (hr : s.run = some r)
    (hquiet : ¬ s.InWindow t nulls (some (t.stampOf now))) (cursor : Option String) :
    ((World.change t { s with clock := now } key).candidates t r.filter cursor).length ≤
      (s.candidates t r.filter cursor).length := by
  unfold World.candidates World.change
  rw [List.filter_append, List.length_append]
  have hnone : ([⟨key, some (t.stampOf now), s.changes + 1⟩] : List RowVersion).filter (fun x =>
      (Keyset.mk ((t.cfg.keysetColumn).getD "") cursor (.orderedLimit t.limit)).admits x.key &&
        r.filter.admits t x.watermark) = [] := by
    rw [List.filter_eq_nil_iff]
    intro x hx hadmits
    rw [List.mem_singleton] at hx
    subst hx
    rw [Bool.and_eq_true] at hadmits
    exact hquiet (Or.inr ⟨r, hr, hadmits.2⟩)
  have hsub := (@List.filter_sublist _ (fun x : RowVersion => decide (x.key ≠ key)) s.source).filter
    (fun x => (Keyset.mk ((t.cfg.keysetColumn).getD "") cursor (.orderedLimit t.limit)).admits x.key &&
      r.filter.admits t x.watermark)
  rw [hnone, List.length_nil, Nat.add_zero]
  exact hsub.length_le

/-- No step but a start adds a chunk, and each chunk read is one less. -/
private theorem chunksLeft_step {e : Event} (h : ResumeInv t nulls s) (hquiet : Quiet t nulls s e)
    (hstart : ∀ now skipMax, e ≠ .start now skipMax) (he : s.step t e = some s') :
    s'.chunksLeft t + (if e.readsChunk then 1 else 0) ≤ s.chunksLeft t := by
  obtain ⟨-, -, he⟩ := World.step_cases he
  cases e with
  | change now key =>
    obtain rfl := Option.some.inj he
    exact chunksLeft_mono rfl fun r hr cursor => candidates_change hr hquiet cursor
  | delete now key =>
    obtain rfl := Option.some.inj he
    refine chunksLeft_mono rfl fun r _ cursor => ?_
    exact ((@List.filter_sublist _ (fun x : RowVersion => decide (x.key ≠ key)) s.source).filter _).length_le
  | start now skipMax => exact absurd rfl (hstart now skipMax)
  | readChunk now =>
    obtain ⟨r, hr, hphase, rfl⟩ := World.readChunk_cases he
    have hr : s.run = some r := hr
    unfold World.chunksLeft
    simp only [hr, hphase, Event.readsChunk, if_true]
    split
    · rename_i last hlast
      have hpast := @World.length_candidates_past t s r h.keys last hlast
      have hlimit := t.limit_pos
      split_ifs with hshort
      · omega
      · have hlen : ¬ (s.nextChunk t r).length < t.limit := hshort
        show (s.candidates t r.filter (some (toString last.key))).length + 1 + 1 ≤ _
        omega
    · omega
  | insert now i =>
    obtain ⟨r, chunk, todo, x, hr, hphase, -, rfl⟩ := World.insert_cases he
    have hr : s.run = some r := hr
    unfold World.chunksLeft
    simp only [hr, hphase, Event.readsChunk]
    exact Nat.le_refl _
  | endChunk now =>
    obtain ⟨r, chunk, hr, hphase, rfl⟩ := World.endChunk_cases he
    have hr : s.run = some r := hr
    unfold World.chunksLeft
    simp only [hr, hphase, Event.readsChunk]
    by_cases hempty : chunk = []
    · rw [if_pos hempty]
      simp
    · rw [if_neg hempty]
      exact Nat.le_refl _
  | saveMarker now secs =>
    obtain ⟨r, chunk, firstRead, last, hr, hphase, -, hlast, -, rfl⟩ := World.saveMarker_cases he
    have hr : s.run = some r := hr
    unfold World.chunksLeft
    simp only [hr, hphase, hlast, Event.readsChunk]
    by_cases hshort : chunk.length < t.limit
    · rw [if_pos hshort]
      simp
    · rw [if_neg hshort, if_neg hshort]
      exact Nat.le_refl _
  | finish now secs =>
    obtain ⟨r, firstRead, -, -, -, -, rfl⟩ := World.finish_cases he
    exact Nat.zero_le _
  | crash now =>
    obtain rfl := World.crash_cases he
    exact Nat.zero_le _

/-- While no row of its window changes: a marker covers the window's rows up to its key, a complete read has landed
the window, and a run reads no more chunks than there are rows past its cursor, and one. -/
theorem keyset_resume_covers {s₀ : World} {es : List Event} (hkeys : (s₀.source.map (·.key)).Nodup)
    (hmarker : s₀.marker = none) (hidle : s₀.run = none) (hrun : exec (World.step t) s₀ es = some s)
    (hquiet : Along (World.step t) (Quiet t nulls) s₀ es) :
    (∀ m, s.marker = some m → ∃ k : Int, m.cursor = toString k ∧ ∀ x ∈ s.source,
        s.frozenWindow t nulls m x.watermark = true → x.key ≤ k → t.leavesIn x = true → x ∈ s.dest) ∧
      (∀ r, s.run = some r → r.phase = .complete → ∀ x ∈ s.source,
        r.window t nulls x.watermark = true → t.leavesIn x = true → x ∈ s.dest) ∧
      ∀ r, s.run = some r → r.phase = .chunkStart → ∀ fs s', exec (World.step t) s fs = some s' →
        Along (World.step t) (fun s e => Quiet t nulls s e ∧ ∀ now skipMax, e ≠ .start now skipMax) s fs →
        fs.countP Event.readsChunk ≤ (s.candidates t r.filter r.cursor).length + 1 := by
  have hinit : ResumeInv t nulls s₀ := by
    refine ⟨hkeys, fun m hm => ?_, fun r hr => ?_⟩
    · rw [hmarker] at hm
      cases hm
    · rw [hidle] at hr
      cases hr
  have hinv : ResumeInv t nulls s := exec_invariant_along (fun _ _ _ h hq he => h.step hq he) hinit hquiet hrun
  refine ⟨fun m hm => ?_, fun r hr hphase => ?_, fun r hr hphase fs s' hfs hcond => ?_⟩
  · obtain ⟨⟨k, hk⟩, hcov⟩ := hinv.marker m hm
    refine ⟨k, hk, fun x hx hw hle => hcov x hx hw ?_⟩
    rw [hk]
    exact passedBy_toString.mpr hle
  · have hp := (hinv.run r hr).phase
    rw [hphase] at hp
    exact hp
  · have hleft : s.chunksLeft t = (s.candidates t r.filter r.cursor).length + 1 := by
      unfold World.chunksLeft
      simp only [hr, hphase]
    have hcount : fs.countP Event.readsChunk + s'.chunksLeft t ≤ s.chunksLeft t := countP_le_measure (fun _ _ _ h hc he => h.step hc.1 he)
      (fun _ _ _ h hc he => chunksLeft_step h hc.1 hc.2 he) hinv hcond hfs
    rw [hleft] at hcount
    omega

private def threeRows : World where
  clock := 0
  changes := 0
  source := [⟨1, some 5, 0⟩, ⟨2, none, 0⟩, ⟨3, some 7, 0⟩]
  dest := []
  committed := none
  marker := none
  run := none

private def chunkEvents (now : Nat) : List Event :=
  [.readChunk now, .insert (now + 1) 0, .endChunk (now + 2), .saveMarker (now + 3) (.fin 1 representable_one)]

/-- The read stops between the merge of its second chunk and the marker, and is resumed past the first. -/
private def resumedOnce : List Event :=
  [.start 10 false] ++ chunkEvents 11 ++ [.readChunk 15, .insert 16 0, .endChunk 17, .crash 18, .start 19 false] ++
    chunkEvents 20 ++ [.readChunk 24, .endChunk 25]

/-- The resumed read completes: what lies between its bounds has landed, the first chunk from before the crash. -/
theorem keyset_resume_covers_three_rows :
    ∃ s r, exec (World.step (ordersByOne true)) threeRows resumedOnce = some s ∧ s.run = some r ∧
      r.phase = .complete ∧ ∀ x ∈ s.source, r.window (ordersByOne true) false x.watermark = true →
        (ordersByOne true).leavesIn x = true → x ∈ s.dest := by
  have hdone : ((exec (World.step (ordersByOne true)) threeRows resumedOnce).bind (·.run)).any
      (fun r => decide (r.phase = .complete)) = true := by
    decide +kernel
  obtain ⟨r, hr, hphase⟩ := Option.any_eq_true _ _ |>.mp hdone
  obtain ⟨s, hs, hr⟩ := Option.bind_eq_some_iff.mp hr
  refine ⟨s, r, hs, hr, of_decide_eq_true hphase, ?_⟩
  have hquiet : ∀ e ∈ resumedOnce, ∀ s, Quiet (ordersByOne true) false s e := by
    intro e he s
    cases e with
    | change now key => simp [resumedOnce, chunkEvents] at he
    | start now skipMax =>
      intro h
      cases h
    | _ => trivial
  exact (keyset_resume_covers (by decide) rfl rfl hs (along_of_forall hquiet _)).2.1 r hr
    (of_decide_eq_true hphase)

end Quickhouse
