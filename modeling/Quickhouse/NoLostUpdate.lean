import Quickhouse.ChunkedRead

/-!
# No update is lost across an interrupted read

Every change stamps its row with the source's clock.  A saved cursor is sound when each row whose last change is not
in the destination has a watermark above the cursor less the lookback: the next run reads it.

Each run accounts for its rows.  One bounded by a MAX, probed before it read or frozen in the marker it resumes,
accounts for a row that landed or that lies above the bound less the lookback; one that takes its cursor from the
stream, for a row that landed or was stamped after the first chunk was read (`ChunkRun.Passes`).  A run that resumes a
marker without a bound accounts for no row of the chunks before it, and is safe only while it keeps the committed
cursor; and a change whose stamp is no later than a cursor or a bound of the rows read before it, less the lookback, is
passed over by both.  `no_lost_update` holds of the histories without these two.
-/

namespace Quickhouse

open MachineInt Binary64 Runs Paging

variable (t : ChunkedTransfer)

/-! ### Sound cursors -/

/-- The rows with these keys that are not in the destination lie above `x` less the lookback. -/
def World.SoundOn (s : World) (keys : Int → Prop) (x : Int) : Prop :=
  ∀ row ∈ s.source, keys row.key → t.leavesIn row = true → row ∉ s.dest → ∀ v, row.watermark = some v →
    x - t.lookback < t.unit.instant v

/-- A cursor text the rows with these keys can be read again from.  As a floor it is not above itself. -/
structure World.CursorKeeps (s : World) (keys : Int → Prop) (c : CursorText) : Prop where
  sound : s.SoundOn t keys (t.dialect.sqlValue c)
  floor_le : ∀ f, t.unit.parseFloor c = some f → t.unit.instant f ≤ t.dialect.sqlValue c

/-- The saved state of an idle world is sound, and every watermark was stamped by now. -/
structure World.Consistent (s : World) : Prop where
  keys : (s.source.map (·.key)).Nodup
  stamped : ∀ row ∈ s.source, ∀ v, row.watermark = some v → v ≤ t.stampOf s.clock
  clock_le : ((s.clock + t.ahead : Nat) : Int) ≤ i64Max
  committed : ∀ c, s.committed = some c → s.CursorKeeps t (fun _ => True) c
  marker : ∀ m u, s.marker = some m → m.upper = some u → s.CursorKeeps t (PassedBy (some m.cursor)) u

/-! ### The histories -/

/-- A run resumes a marker without a bound only while there is a committed cursor to keep. -/
def ResumesAccountably (s : World) : Event → Prop
  | .start _ _ => s.marker.any (·.upper.isNone) = true → s.committed.isSome = true
  | _ => True

instance (s : World) : (e : Event) → Decidable (ResumesAccountably s e)
  | .start _ _ => inferInstanceAs (Decidable (_ = true → _ = true))
  | .change _ _ | .delete _ _ | .readChunk _ | .insert _ _ | .endChunk _ | .saveMarker _ _ | .finish _ _
  | .crash _ => isTrue trivial

/-- A run begins from a seed only where the destination holds the rows below it, less the lookback. -/
def SeedsSoundly (s : World) : Event → Prop
  | .start _ skipMax => ∀ l, s.committed = none → (s.newRun t skipMax).plan.last = some l →
      s.SoundOn t (fun _ => True) (t.dialect.sqlValue l)
  | _ => True

/-- A watermark the cursor the run will save does not pass.  A run without a bound saves the one of its stream, if it
has a tracker. -/
def ChunkRun.Passes (r : ChunkRun) (v : Int) : Prop :=
  match r.effectiveUpper with
  | some u => t.dialect.sqlValue u - t.lookback < t.unit.instant v
  | none => r.tracker.isSome = true → ∃ start ∈ r.firstRead, t.unit.stamp (start + t.ahead + 1 : Nat) ≤ v

instance (r : ChunkRun) (v : Int) : Decidable (r.Passes t v) :=
  match h : r.effectiveUpper with
  | some u =>
    decidable_of_iff (t.dialect.sqlValue u - t.lookback < t.unit.instant v) (by simp only [ChunkRun.Passes, h])
  | none =>
    decidable_of_iff (r.tracker.isSome = true → ∃ start ∈ r.firstRead, t.unit.stamp (start + t.ahead + 1 : Nat) ≤ v)
      (by simp only [ChunkRun.Passes, h])

/-- The chunk in progress, or the whole read, is past the key. -/
def Phase.HasRead (key : Int) : Phase → Prop
  | .chunkStart => False
  | .inserting chunk _ | .landed chunk => Reached RowVersion.key t.limit chunk key
  | .complete => True

instance (key : Int) : (p : Phase) → Decidable (p.HasRead t key)
  | .chunkStart => isFalse id
  | .inserting chunk _ | .landed chunk => inferInstanceAs (Decidable (Reached RowVersion.key t.limit chunk key))
  | .complete => isTrue trivial

/-- The run will not read the row of the key, or not again. -/
def ChunkRun.HasRead (r : ChunkRun) (key : Int) : Prop := PassedBy r.cursor key ∨ r.phase.HasRead t key

instance (r : ChunkRun) (key : Int) : Decidable (r.HasRead t key) := inferInstanceAs (Decidable (_ ∨ _))

/-- A stamp now is above every cursor less the lookback that the row of the key will be read again past: the saved one,
that of the marker and of the run where the row was read before, and the one the run reads from.  (A run that keeps the
committed cursor saves no other.) -/
structure World.Apart (s : World) (key stamp : Int) : Prop where
  committed : ∀ c ∈ s.committed, t.dialect.sqlValue c - t.lookback < t.unit.instant stamp
  marker : ∀ m ∈ s.marker, ∀ u ∈ m.upper, PassedBy (some m.cursor) key →
    t.dialect.sqlValue u - t.lookback < t.unit.instant stamp
  last : ∀ r ∈ s.run, ∀ l ∈ r.plan.last, t.dialect.sqlValue l - t.lookback < t.unit.instant stamp
  passes : ∀ r ∈ s.run, r.plan.keepCommitted = false → r.HasRead t key → r.Passes t stamp

instance (s : World) (key stamp : Int) : Decidable (s.Apart t key stamp) :=
  decidable_of_iff
    ((∀ c ∈ s.committed, t.dialect.sqlValue c - t.lookback < t.unit.instant stamp) ∧
      (∀ m ∈ s.marker, ∀ u ∈ m.upper, PassedBy (some m.cursor) key →
        t.dialect.sqlValue u - t.lookback < t.unit.instant stamp) ∧
      (∀ r ∈ s.run, ∀ l ∈ r.plan.last, t.dialect.sqlValue l - t.lookback < t.unit.instant stamp) ∧
      ∀ r ∈ s.run, r.plan.keepCommitted = false → r.HasRead t key → r.Passes t stamp)
    ⟨fun h => ⟨h.1, h.2.1, h.2.2.1, h.2.2.2⟩, fun h => ⟨h.committed, h.marker, h.last, h.passes⟩⟩

/-- Each change is stamped apart from the cursors. -/
def StampsApart (s : World) : Event → Prop
  | .change now key => s.Apart t key (t.stampOf now)
  | _ => True

instance (s : World) : (e : Event) → Decidable (StampsApart t s e)
  | .change now key => inferInstanceAs (Decidable (s.Apart t key (t.stampOf now)))
  | .delete _ _ | .start _ _ | .readChunk _ | .insert _ _ | .endChunk _ | .saveMarker _ _ | .finish _ _ | .crash _ =>
    isTrue trivial

/-! ### The rows a run accounts for -/

/-- The row is in the destination or still on the way, or its watermark is not passed. -/
def Accounted (s : World) (r : ChunkRun) (pending : List RowVersion) (row : RowVersion) : Prop :=
  row ∈ s.dest ∨ row ∈ pending ∨ ∀ v, row.watermark = some v → r.Passes t v

def PhaseAccounts (s : World) (r : ChunkRun) : Phase → Prop
  | .chunkStart => True
  | .inserting chunk todo => ∀ row ∈ s.source, t.leavesIn row = true → ¬ PassedBy r.cursor row.key →
      Reached RowVersion.key t.limit chunk row.key → Accounted t s r (todo ++ r.staging) row
  | .landed chunk => ∀ row ∈ s.source, t.leavesIn row = true → ¬ PassedBy r.cursor row.key →
      Reached RowVersion.key t.limit chunk row.key → Accounted t s r [] row
  | .complete => ∀ row ∈ s.source, t.leavesIn row = true → Accounted t s r [] row

/-- The run accounts for its rows up to where it is. -/
structure Accounts (s : World) (r : ChunkRun) : Prop where
  passed : ∀ row ∈ s.source, t.leavesIn row = true → PassedBy r.cursor row.key → Accounted t s r [] row
  phase : PhaseAccounts t s r r.phase

/-- A stream cursor is behind the first read, or held up by the floor. -/
def StreamBehind (r : ChunkRun) (v : Int) : Prop :=
  (∃ start, r.firstRead = some start ∧ RereadsFrom t.unit t.cfg.lookbackSeconds (start + t.ahead) v) ∨
    ∃ f, r.plan.floor.bind t.unit.parseFloor = some f ∧ v ≤ f

structure UpdateRunInv (s : World) (r : ChunkRun) : Prop where
  committed_eq : r.committed = s.committed
  lower_eq : r.filter.lower = r.plan.last
  upper_eq : r.filter.upper = r.effectiveUpper
  last : ∀ l, r.plan.last = some l → s.SoundOn t (fun _ => True) (t.dialect.sqlValue l)
  floor : ∀ f, r.plan.floor.bind t.unit.parseFloor = some f →
    ∃ l, r.plan.last = some l ∧ t.unit.instant f ≤ t.dialect.sqlValue l
  upper : ∀ u, r.effectiveUpper = some u →
    ∀ f, t.unit.parseFloor u = some f → t.unit.instant f ≤ t.dialect.sqlValue u
  pinned : r.plan.pinned = true → r.plan.keepCommitted = false
  firstRead_le : ∀ start, r.firstRead = some start → start ≤ s.clock
  tracker : ∀ tr, r.tracker = some tr → tr.unit = t.unit ∧ t.unit ≠ .int ∧ 0 < t.cfg.lookbackSeconds ∧
    i64Min ≤ tr.max ∧ tr.max ≤ t.unit.stamp (s.clock + t.ahead : Nat) ∧
    (r.plan.pinned = false → r.effectiveUpper = none)
  bound : match r.bound with
    | .frozen => r.effectiveUpper.isSome = true
    | .unbounded => r.plan.keepCommitted = true
    | .stream floor best => floor = r.plan.floor ∧ r.effectiveUpper = none ∧ (best = i64Min ∨ StreamBehind t r best)
  keep_iff : r.plan.keepCommitted = true ↔ r.bound = .unbounded
  accounts : r.plan.keepCommitted = false → Accounts t s r

structure UpdateInv (s : World) : Prop where
  consistent : s.Consistent t
  run : ∀ r, s.run = some r → UpdateRunInv t s r

variable {t} {s s' : World} {r : ChunkRun} {keys : Int → Prop} {x : Int}

theorem lookback_nonneg (t : ChunkedTransfer) : 0 ≤ t.lookback := by
  unfold ChunkedTransfer.lookback microsPerSec
  omega

/-! ### The world moves on -/

/-- Rows land and leave the source, and what enters it is stamped apart from the cursors. -/
structure World.MovesOn (t : ChunkedTransfer) (s s' : World) : Prop where
  clock : s.clock ≤ s'.clock
  dest : ∀ row ∈ s.dest, row ∈ s'.dest
  source : ∀ row ∈ s'.source, row ∈ s.source ∨
    ∃ w, row.watermark = some w ∧ w ≤ t.stampOf s'.clock ∧ s.Apart t row.key w

/-- No row enters the source. -/
theorem World.movesOn_of_source (hclock : s.clock ≤ s'.clock) (hdest : ∀ row ∈ s.dest, row ∈ s'.dest)
    (hsource : ∀ row ∈ s'.source, row ∈ s.source) : s.MovesOn t s' :=
  ⟨hclock, hdest, fun row hrow => Or.inl (hsource row hrow)⟩

theorem World.SoundOn.movesOn (h : s.SoundOn t keys x) (hm : s.MovesOn t s')
    (hnew : ∀ key w, s.Apart t key w → keys key → x - t.lookback < t.unit.instant w) : s'.SoundOn t keys x := by
  intro row hrow hkey hin hnot v hv
  rcases hm.source row hrow with hold | ⟨w, hw, -, hapart⟩
  · exact h row hold hkey hin (fun hd => hnot (hm.dest row hd)) v hv
  · obtain rfl := Option.some.inj (hw.symm.trans hv)
    exact hnew row.key w hapart hkey

theorem World.SoundOn.anti {y : Int} (h : s.SoundOn t keys x) (hle : y ≤ x) : s.SoundOn t keys y := by
  intro row hrow hkey hin hnot v hv
  have := h row hrow hkey hin hnot v hv
  omega

/-- The saved state stays sound while it stays the same. -/
theorem World.Consistent.movesOn (h : s.Consistent t) (hm : s.MovesOn t s')
    (hkeys : (s'.source.map (·.key)).Nodup) (hclock : ((s'.clock + t.ahead : Nat) : Int) ≤ i64Max)
    (hcommitted : s'.committed = s.committed) (hmarker : s'.marker = s.marker) : s'.Consistent t where
  keys := hkeys
  stamped row hrow v hv := by
    rcases hm.source row hrow with hold | ⟨w, hw, hle, -⟩
    · exact (h.stamped row hold v hv).trans (t.stampOf_mono hm.clock)
    · rwa [← Option.some.inj (hw.symm.trans hv)]
  clock_le := hclock
  committed c hc := by
    have hkeeps := h.committed c (hcommitted ▸ hc)
    refine ⟨hkeeps.sound.movesOn hm fun key w hapart _ => ?_, hkeeps.floor_le⟩
    exact hapart.committed c (hcommitted ▸ hc)
  marker m u hm' hu := by
    have hkeeps := h.marker m u (hmarker ▸ hm') hu
    refine ⟨hkeeps.sound.movesOn hm fun key w hapart hpassed => ?_, hkeeps.floor_le⟩
    exact hapart.marker m (hmarker ▸ hm') u hu hpassed

theorem stamp_clock_mono (t : ChunkedTransfer) {clock clock' : Nat} (h : clock ≤ clock') :
    t.unit.stamp (clock + t.ahead : Nat) ≤ t.unit.stamp (clock' + t.ahead : Nat) :=
  t.unit.stamp_mono (by omega)

/-- The run's bounds and tracker are as they were, and it still accounts for its rows. -/
theorem UpdateRunInv.movesOn {r' : ChunkRun} (h : UpdateRunInv t s r) (hrun : s.run = some r) (hm : s.MovesOn t s')
    (hcommitted : s'.committed = s.committed) (hr' : r' = { r with staging := r'.staging, phase := r'.phase })
    (haccounts : r.plan.keepCommitted = false → Accounts t s' r') : UpdateRunInv t s' r' := by
  rw [hr'] at haccounts ⊢
  refine ⟨h.committed_eq.trans hcommitted.symm, h.lower_eq, h.upper_eq, fun l hl => ?_, h.floor, h.upper, h.pinned, ?_,
    ?_, h.bound, h.keep_iff, haccounts⟩
  · exact (h.last l hl).movesOn hm fun key w hapart _ => hapart.last r hrun l hl
  · intro start hstart
    exact (h.firstRead_le start hstart).trans hm.clock
  · intro tr htr
    obtain ⟨h1, h2, h3, h4, h5, h6⟩ := h.tracker tr htr
    exact ⟨h1, h2, h3, h4, h5.trans (stamp_clock_mono t hm.clock), h6⟩

theorem Accounted.mono {pending pending' : List RowVersion} {row : RowVersion} (h : Accounted t s r pending row)
    (hdest : ∀ row ∈ s.dest, row ∈ s'.dest) (hpending : ∀ row ∈ pending, row ∈ pending' ∨ row ∈ s'.dest) :
    Accounted t s' r pending' row := by
  rcases h with h | h | h
  · exact Or.inl (hdest row h)
  · rcases hpending row h with h | h
    · exact Or.inr (Or.inl h)
    · exact Or.inl h
  · exact Or.inr (Or.inr h)

/-- A run accounts for its rows while the source changes. -/
theorem Accounts.movesOn (hacc : Accounts t s r) (hrun : s.run = some r) (hkeep : r.plan.keepCommitted = false)
    (hm : s.MovesOn t s') : Accounts t s' r := by
  have hrow : ∀ row ∈ s'.source, ∀ pending, r.HasRead t row.key →
      (row ∈ s.source → Accounted t s r pending row) → Accounted t s' r pending row := by
    intro row hrow pending hread hold
    rcases hm.source row hrow with hin | ⟨w, hw, -, hapart⟩
    · exact (hold hin).mono hm.dest (fun _ hp => Or.inl hp)
    · refine Or.inr (Or.inr fun v hv => ?_)
      obtain rfl := Option.some.inj (hw.symm.trans hv)
      exact hapart.passes r hrun hkeep hread
  refine ⟨fun row hin hleaves hpast => ?_, ?_⟩
  · exact hrow row hin _ (Or.inl hpast) fun hold => hacc.passed row hold hleaves hpast
  · have hp := hacc.phase
    have hread : ∀ key, r.phase.HasRead t key → r.HasRead t key := fun _ => Or.inr
    cases hphase : r.phase with
    | chunkStart => trivial
    | inserting chunk todo =>
      rw [hphase] at hp hread
      exact fun row hin hleaves hpast hreach =>
        hrow row hin _ (hread row.key hreach) fun hold => hp row hold hleaves hpast hreach
    | landed chunk =>
      rw [hphase] at hp hread
      exact fun row hin hleaves hpast hreach =>
        hrow row hin _ (hread row.key hreach) fun hold => hp row hold hleaves hpast hreach
    | complete =>
      rw [hphase] at hp hread
      exact fun row hin hleaves => hrow row hin _ (hread row.key trivial) fun hold => hp row hold hleaves

theorem UpdateInv.source_change (h : UpdateInv t s) {clock changes : Nat} {source : List RowVersion}
    (hm : s.MovesOn t { s with clock, changes, source }) (hkeys : (source.map (·.key)).Nodup)
    (hclock : ((clock + t.ahead : Nat) : Int) ≤ i64Max) : UpdateInv t { s with clock, changes, source } where
  consistent := h.consistent.movesOn hm hkeys hclock rfl rfl
  run r hr := by
    have hrun : s.run = some r := hr
    exact (h.run r hrun).movesOn hrun hm rfl rfl fun hkeep => ((h.run r hrun).accounts hkeep).movesOn hrun hkeep hm

/-! ### A start -/

private theorem newRun_last (s : World) (t : ChunkedTransfer) (skipMax : Bool) :
    (s.newRun t skipMax).plan.last =
      s.committed.or (seedValue t.textOf t.cfg.seedWatermark (s.newRun t skipMax).effectiveUpper) := rfl

private theorem newRun_lastSound (h : s.Consistent t) {skipMax : Bool}
    (hseed : ∀ l, s.committed = none → (s.newRun t skipMax).plan.last = some l →
      s.SoundOn t (fun _ => True) (t.dialect.sqlValue l)) {l : CursorText}
    (hl : (s.newRun t skipMax).plan.last = some l) : s.SoundOn t (fun _ => True) (t.dialect.sqlValue l) := by
  cases hc : s.committed with
  | none => exact hseed l hc hl
  | some c =>
    rw [newRun_last, hc, Option.some_or] at hl
    obtain rfl := Option.some.inj hl
    exact (h.committed c hc).sound

private theorem newRun_floor (h : s.Consistent t) {skipMax : Bool} {f : Int}
    (hf : (s.newRun t skipMax).plan.floor.bind t.unit.parseFloor = some f) :
    ∃ l, (s.newRun t skipMax).plan.last = some l ∧ t.unit.instant f ≤ t.dialect.sqlValue l := by
  obtain ⟨c, hc, hparse⟩ := Option.bind_eq_some_iff.mp hf
  have hfloor : (s.newRun t skipMax).plan.floor =
      cursorFloor s.committed (s.newRun t skipMax).plan.last (s.newRun t skipMax).tracker := rfl
  rw [hfloor] at hc
  unfold cursorFloor at hc
  cases hcommitted : s.committed with
  | some c' =>
    rw [hcommitted] at hc
    obtain rfl := Option.some.inj hc
    exact ⟨c', by rw [newRun_last, hcommitted, Option.some_or], (h.committed c' hcommitted).floor_le f hparse⟩
  | none =>
    rw [hcommitted] at hc
    -- a seed is a floor only when it parses in the column's own unit
    obtain ⟨hl, htr⟩ := Option.filter_eq_some_iff.mp hc
    obtain ⟨tr, htr, hsome⟩ := (Option.any_eq_true _ _).mp htr
    have hunit : tr.unit = t.unit := by
      rw [World.newRun_tracker] at htr
      split_ifs at htr
      rw [← Option.some.inj htr]
    rw [hunit] at hsome
    obtain ⟨v, hv⟩ := Option.isSome_iff_exists.mp hsome
    obtain rfl : v = f := Option.some.inj ((WatermarkUnit.parseFloor_of_parse hv).symm.trans hparse)
    exact ⟨c, hl, t.dialect.parse_le c v hv⟩

/-- A probed MAX is a text of its own value. -/
private theorem snapshotMax_floor_le {skipMax : Bool} {u : CursorText} (hu : s.snapshotMax t skipMax = some u) {f : Int}
    (hf : t.unit.parseFloor u = some f) : t.unit.instant f ≤ t.dialect.sqlValue u := by
  unfold World.snapshotMax at hu
  split_ifs at hu
  obtain ⟨top, -, rfl⟩ := Option.map_eq_some_iff.mp hu
  rw [t.dialect.sqlValue_maxText]
  exact (t.unit.instant_le_instant).mpr (t.dialect.parseFloor_maxText top f hf)

private theorem newRun_accounts (h : s.Consistent t) {skipMax : Bool}
    (hresume : ∀ m, s.marker = some m → m.upper = none → s.committed.isSome = true)
    (hkeep : (s.newRun t skipMax).plan.keepCommitted = false) :
    Accounts t { s with run := some (s.newRun t skipMax) } (s.newRun t skipMax) := by
  refine ⟨fun row hrow hin ⟨c, hc, hle⟩ => ?_, trivial⟩
  rw [World.newRun_cursor] at hc
  obtain ⟨m, hm, rfl⟩ := Option.map_eq_some_iff.mp hc
  cases hu : m.upper with
  | none =>
    -- such a run would keep the committed cursor
    rw [World.newRun_keepCommitted, hm, Option.bind_some, hu, hresume m hm hu] at hkeep
    cases hkeep
  | some u =>
    by_cases hd : row ∈ s.dest
    · exact Or.inl hd
    · refine Or.inr (Or.inr fun v hv => ?_)
      have heff : (s.newRun t skipMax).effectiveUpper = some u := by
        rw [World.newRun_effectiveUpper, hm, Option.bind_some, hu, Option.some_or]
      unfold ChunkRun.Passes
      rw [heff]
      exact (h.marker m u hm hu).sound row hrow ⟨_, rfl, hle⟩ hin hd v hv

theorem UpdateInv.start (h : UpdateInv t s) {skipMax : Bool}
    (hresume : ∀ m, s.marker = some m → m.upper = none → s.committed.isSome = true)
    (hseed : ∀ l, s.committed = none → (s.newRun t skipMax).plan.last = some l →
      s.SoundOn t (fun _ => True) (t.dialect.sqlValue l))
    (he : s.start t skipMax = some s') : UpdateInv t s' := by
  obtain ⟨-, hskip, -, rfl⟩ := World.start_cases he
  have hc := h.consistent
  refine ⟨⟨hc.keys, hc.stamped, hc.clock_le, fun c hcom => ⟨(hc.committed c hcom).sound, (hc.committed c hcom).floor_le⟩,
    fun m u hm hu => ⟨(hc.marker m u hm hu).sound, (hc.marker m u hm hu).floor_le⟩⟩, fun r hr => ?_⟩
  obtain rfl := Option.some.inj hr
  refine ⟨rfl, World.newRun_lower t s skipMax, World.newRun_upper t s skipMax, fun l hl => newRun_lastSound hc hseed hl,
    fun f hf => newRun_floor hc hf, ?_, ?_, ?_, ?_, ?_, ?_, newRun_accounts hc hresume⟩
  · intro u hu f hf
    rw [World.newRun_effectiveUpper] at hu
    rcases Option.or_eq_some_iff.mp hu with hpin | ⟨-, hmax⟩
    · obtain ⟨m, hm, hu⟩ := Option.bind_eq_some_iff.mp hpin
      exact (hc.marker m u hm hu).floor_le f hf
    · exact snapshotMax_floor_le hmax hf
  · intro hpin
    have : (s.newRun t skipMax).plan.pinned = (s.marker.bind (·.upper)).isSome := rfl
    rw [this] at hpin
    obtain ⟨u, hu⟩ := Option.isSome_iff_exists.mp hpin
    rw [World.newRun_keepCommitted, hu]
    simp
  · intro start hstart
    cases hstart
  · intro tr htr
    rw [World.newRun_tracker] at htr
    split_ifs at htr with hskipMax
    obtain rfl := Option.some.inj htr
    refine ⟨rfl, (hskip hskipMax).2, (hskip hskipMax).1, le_refl _, ?_, fun hpin => ?_⟩
    · show i64Min ≤ t.unit.stamp (s.clock + t.ahead : Nat)
      unfold i64Min
      cases t.unit <;> simp only [WatermarkUnit.stamp, microsPerDay] <;> omega
    · rw [World.newRun_effectiveUpper]
      have : (s.newRun t skipMax).plan.pinned = (s.marker.bind (·.upper)).isSome := rfl
      rw [this, Option.isSome_eq_false_iff, Option.isNone_iff_eq_none] at hpin
      rw [hpin, Option.none_or]
      unfold World.snapshotMax
      rw [if_pos hskipMax]
  · rw [World.newRun_bound]
    split_ifs with hkeep hupper
    · exact hkeep
    · exact hupper
    · exact ⟨rfl, by simpa using hupper, Or.inl rfl⟩
  · rw [World.newRun_bound]
    split_ifs with hkeep hupper <;> simp [hkeep]

/-! ### A chunk, step by step -/

/-- Once it has read, a run passes no more than before. -/
private theorem ChunkRun.Passes.of_firstRead {r' : ChunkRun} {v : Int} (h : r.Passes t v)
    (hupper : r'.effectiveUpper = r.effectiveUpper) (htracker : r'.tracker.isSome = r.tracker.isSome)
    (hfirst : ∀ start, r.firstRead = some start → r'.firstRead = some start) : r'.Passes t v := by
  unfold ChunkRun.Passes at h ⊢
  rw [hupper, htracker]
  cases hu : r.effectiveUpper with
  | some u =>
    rw [hu] at h
    exact h
  | none =>
    rw [hu] at h
    intro htr
    obtain ⟨start, hstart, hv⟩ := h htr
    exact ⟨start, hfirst start hstart, hv⟩

private theorem StreamBehind.of_firstRead {r' : ChunkRun} {v : Int} (h : StreamBehind t r v)
    (hfloor : r'.plan.floor = r.plan.floor)
    (hfirst : ∀ start, r.firstRead = some start → r'.firstRead = some start) : StreamBehind t r' v := by
  rcases h with ⟨start, hstart, hre⟩ | hf
  · exact Or.inl ⟨start, hfirst start hstart, hre⟩
  · right
    rw [hfloor]
    exact hf

private theorem Accounted.of_firstRead {r' : ChunkRun} {pending : List RowVersion} {row : RowVersion}
    (h : Accounted t s r pending row) (hupper : r'.effectiveUpper = r.effectiveUpper)
    (htracker : r'.tracker.isSome = r.tracker.isSome)
    (hfirst : ∀ start, r.firstRead = some start → r'.firstRead = some start) : Accounted t s r' pending row := by
  rcases h with h | h | h
  · exact Or.inl h
  · exact Or.inr (Or.inl h)
  · exact Or.inr (Or.inr fun v hv => (h v hv).of_firstRead hupper htracker hfirst)

/-- A row that the filter does not admit has landed, or lies above the bound. -/
private theorem accounted_of_not_admitted (h : UpdateRunInv t s r) {row : RowVersion} (hrow : row ∈ s.source)
    (hin : t.leavesIn row = true) {pending : List RowVersion}
    (hnot : ¬ r.filter.admits t row.watermark = true) : Accounted t s r pending row := by
  by_cases hd : row ∈ s.dest
  · exact Or.inl hd
  · refine Or.inr (Or.inr fun v hv => ?_)
    rw [hv] at hnot
    simp only [ReadFilter.admits, ReadFilter.spans, Bool.and_eq_true, not_and_or, h.lower_eq, h.upper_eq] at hnot
    rcases hnot with hlower | hupper
    · cases hl : r.plan.last with
      | none =>
        rw [hl] at hlower
        exact absurd rfl hlower
      | some l =>
        rw [hl, Option.all_some, decide_eq_true_eq, not_lt] at hlower
        have := h.last l hl row hrow trivial hin hd v hv
        omega
    · cases hu : r.effectiveUpper with
      | none =>
        rw [hu] at hupper
        exact absurd rfl hupper
      | some u =>
        rw [hu, Option.all_some, decide_eq_true_eq, not_le] at hupper
        have := lookback_nonneg t
        unfold ChunkRun.Passes
        rw [hu]
        show t.dialect.sqlValue u - t.lookback < t.unit.instant v
        omega

theorem UpdateInv.readChunk (h : UpdateInv t s) (he : s.readChunk t = some s') : UpdateInv t s' := by
  obtain ⟨r, hr, -, rfl⟩ := World.readChunk_cases he
  have hc := h.consistent
  have hinv := h.run r hr
  have hfirst : ∀ start, r.firstRead = some start → r.firstRead.or (some s.clock) = some start := by
    intro start hstart
    rw [hstart, Option.some_or]
  have htracker : (r.tracker.map (·.observe ((s.nextChunk t r).map (·.watermark)))).isSome = r.tracker.isSome :=
    Option.isSome_map
  have hm : ∀ run, s.MovesOn t { s with run } :=
    fun _ => World.movesOn_of_source (le_refl _) (fun _ hd => hd) fun _ hrow => hrow
  refine ⟨hc.movesOn (hm _) hc.keys hc.clock_le rfl rfl, fun r' hr' => ?_⟩
  obtain rfl := Option.some.inj hr'
  refine ⟨hinv.committed_eq, hinv.lower_eq, hinv.upper_eq, hinv.last, hinv.floor, hinv.upper, hinv.pinned, ?_, ?_, ?_,
    hinv.keep_iff, fun hkeep => ?_⟩
  · intro start hstart
    show start ≤ s.clock
    cases hf : r.firstRead with
    | none =>
      rw [hf, Option.none_or] at hstart
      rw [Option.some.inj hstart]
    | some start' =>
      rw [hf, Option.some_or] at hstart
      rw [← Option.some.inj hstart]
      exact hinv.firstRead_le start' hf
  · intro tr htr
    obtain ⟨tr', htr', rfl⟩ := Option.map_eq_some_iff.mp htr
    obtain ⟨hunit, hint, hpos, hmin, hmax, hupper⟩ := hinv.tracker tr' htr'
    refine ⟨by simpa using hunit, hint, hpos, hmin.trans (tr'.le_observe_max _), ?_, hupper⟩
    refine WatermarkTracker.observe_max_le (hmin.trans hmax) hmax fun v hv => ?_
    obtain ⟨row, hrow, hwm⟩ := List.mem_map.mp hv
    exact (hc.stamped row (World.mem_nextChunk hrow).1 v hwm).trans (t.stampOf_le s.clock)
  · have hb := hinv.bound
    cases hbound : r.bound with
    | frozen =>
      rw [hbound] at hb
      exact hb
    | unbounded =>
      rw [hbound] at hb
      exact hb
    | stream floor best =>
      rw [hbound] at hb
      refine ⟨hb.1, hb.2.1, hb.2.2.imp id fun hbest => ?_⟩
      exact hbest.of_firstRead rfl hfirst
  · have hacc := hinv.accounts hkeep
    refine ⟨fun row hrow hin hpast => (hacc.passed row hrow hin hpast).of_firstRead rfl htracker hfirst, ?_⟩
    intro row hrow hin hpast hreach
    by_cases hadmits : r.filter.admits t row.watermark = true
    · exact Or.inr (Or.inl (List.mem_append_left _ (World.nextChunk_complete hc.keys hrow hpast hadmits hreach)))
    · exact (accounted_of_not_admitted hinv hrow hin hadmits).of_firstRead rfl htracker hfirst

theorem UpdateInv.insert (h : UpdateInv t s) {i : Nat} (he : s.insert t i = some s') : UpdateInv t s' := by
  obtain ⟨r, chunk, todo, x, hr, hphase, hx, rfl⟩ := World.insert_cases he
  have hc := h.consistent
  have hinv := h.run r hr
  have hdest : ∀ y ∈ s.dest, y ∈ if t.leavesIn x && !t.staged then s.dest ++ [x] else s.dest := by
    intro y hy
    split_ifs
    · exact List.mem_append_left _ hy
    · exact hy
  have hm : ∀ run, s.MovesOn t { s with dest := if t.leavesIn x && !t.staged then s.dest ++ [x] else s.dest, run } :=
    fun _ => World.movesOn_of_source (le_refl _) hdest fun _ hrow => hrow
  refine ⟨hc.movesOn (hm _) hc.keys hc.clock_le rfl rfl, fun r' hr' => ?_⟩
  obtain rfl := Option.some.inj hr'
  refine hinv.movesOn hr (hm _) rfl rfl fun hkeep => ?_
  have hacc := hinv.accounts hkeep
  refine ⟨fun row hrow hin hpast => (hacc.passed row hrow hin hpast).mono hdest fun _ hp => Or.inl hp, ?_⟩
  intro row hrow hin hpast hreach
  have hp := hacc.phase
  rw [hphase] at hp
  rcases hp row hrow hin hpast hreach with hd | hpending | hpass
  · exact Or.inl (hdest row hd)
  · rcases List.mem_append.mp hpending with htodo | hstaging
    · rcases eq_or_mem_eraseIdx hx htodo with rfl | htodo
      · by_cases hstaged : t.staged = true
        · right; left
          simp [hin, hstaged]
        · left
          simp [hin, hstaged]
      · exact Or.inr (Or.inl (List.mem_append_left _ htodo))
    · refine Or.inr (Or.inl (List.mem_append_right _ ?_))
      show row ∈ if t.leavesIn x && t.staged then r.staging ++ [x] else r.staging
      split_ifs
      · exact List.mem_append_left _ hstaging
      · exact hstaging
  · exact Or.inr (Or.inr hpass)

theorem UpdateInv.endChunk (h : UpdateInv t s) (he : s.endChunk = some s') : UpdateInv t s' := by
  obtain ⟨r, chunk, hr, hphase, rfl⟩ := World.endChunk_cases he
  have hc := h.consistent
  have hinv := h.run r hr
  have hdest : ∀ y ∈ s.dest, y ∈ s.dest ++ r.staging := fun y hy => List.mem_append_left _ hy
  have hm : ∀ run, s.MovesOn t { s with dest := s.dest ++ r.staging, run } :=
    fun _ => World.movesOn_of_source (le_refl _) hdest fun _ hrow => hrow
  refine ⟨hc.movesOn (hm _) hc.keys hc.clock_le rfl rfl, fun r' hr' => ?_⟩
  obtain rfl := Option.some.inj hr'
  refine hinv.movesOn hr (hm _) rfl rfl fun hkeep => ?_
  have hacc := hinv.accounts hkeep
  have hp := hacc.phase
  rw [hphase] at hp
  have hlanded : ∀ row, Accounted t s r ([] ++ r.staging) row →
      Accounted t { s with dest := s.dest ++ r.staging } r [] row := by
    intro row hrow
    refine hrow.mono hdest fun y hy => Or.inr ?_
    exact List.mem_append_right _ hy
  refine ⟨fun row hrow hin hpast => (hacc.passed row hrow hin hpast).mono hdest fun _ hp => Or.inl hp, ?_⟩
  by_cases hempty : chunk = []
  · rw [if_pos hempty]
    intro row hrow hin
    by_cases hpast : PassedBy r.cursor row.key
    · exact (hacc.passed row hrow hin hpast).mono hdest fun _ hp => Or.inl hp
    · refine hlanded row (hp row hrow hin hpast (Or.inr ?_))
      rw [hempty]
      exact t.limit_pos
  · rw [if_neg hempty]
    exact fun row hrow hin hpast hreach => hlanded row (hp row hrow hin hpast hreach)

/-! ### What a stream cursor keeps -/

/-- A stream cursor keeps every row the run accounts for. -/
theorem UpdateRunInv.keeps_stream (h : UpdateRunInv t s r) (hupper : r.effectiveUpper = none) {tr : WatermarkTracker}
    (htr : r.tracker = some tr) {v : Int} (hv : StreamBehind t r v)
    (hacc : ∀ row ∈ s.source, keys row.key → t.leavesIn row = true → Accounted t s r [] row) :
    s.SoundOn t keys (t.unit.instant v) := by
  rcases hv with ⟨start, hstart, hre⟩ | ⟨f, hf, hle⟩
  · intro row hrow hkey hin hnot w hw
    rcases hacc row hrow hkey hin with hd | hp | hpass
    · exact absurd hd hnot
    · cases hp
    · have hp := hpass w hw
      unfold ChunkRun.Passes at hp
      rw [hupper] at hp
      obtain ⟨start', hstart', hstamp⟩ := hp (htr ▸ rfl)
      obtain rfl := Option.some.inj (hstart.symm.trans hstart')
      exact (hre.passes _ (Nat.lt_succ_self _)).trans_le ((t.unit.instant_le_instant).mpr hstamp)
  · obtain ⟨l, hl, hfl⟩ := h.floor f hf
    have hsound := (h.last l hl).anti (((t.unit.instant_le_instant).mpr hle).trans hfl)
    exact fun row hrow _ => hsound row hrow trivial

/-- The same of a run with a bound. -/
theorem UpdateRunInv.keeps_upper (h : UpdateRunInv t s r) {u : CursorText} (hu : r.effectiveUpper = some u)
    (hacc : ∀ row ∈ s.source, keys row.key → t.leavesIn row = true → Accounted t s r [] row) :
    s.CursorKeeps t keys u := by
  refine ⟨fun row hrow hkey hin hnot v hv => ?_, h.upper u hu⟩
  rcases hacc row hrow hkey hin with hd | hp | hpass
  · exact absurd hd hnot
  · cases hp
  · have hp := hpass v hv
    unfold ChunkRun.Passes at hp
    rw [hu] at hp
    exact hp

/-- Rendered, it is a cursor text to read again from. -/
theorem World.SoundOn.rendered {v : Int} {c : CursorText} (h : s.SoundOn t keys (t.unit.instant v))
    (hunit : t.unit ≠ .int) (hc : t.unit.renderValue t.dialect.dated v = some c) : s.CursorKeeps t keys c := by
  have hvalue := t.dialect.sqlValue_render v c hc
  refine ⟨hvalue ▸ h, fun f hf => ?_⟩
  have hparse := WatermarkUnit.parseFloor_of_parse (WatermarkUnit.parse_renderValue hunit hc)
  rw [hvalue, Option.some.inj (hparse.symm.trans hf)]

private theorem UpdateRunInv.tracker_max (h : UpdateRunInv t s r) (hclock : ((s.clock + t.ahead : Nat) : Int) ≤ i64Max)
    {tr : WatermarkTracker} (htr : r.tracker = some tr) : InI64 tr.max := by
  obtain ⟨-, -, -, hmin, hmax, -⟩ := h.tracker tr htr
  refine ⟨hmin, hmax.trans ?_⟩
  cases t.unit <;> simp only [WatermarkUnit.stamp, microsPerDay] <;> omega

/-- The rewound cursor of a stream is behind its first read. -/
theorem UpdateRunInv.streamBehind (h : UpdateRunInv t s r) (hclock : ((s.clock + t.ahead : Nat) : Int) ≤ i64Max)
    {tr : WatermarkTracker} (htr : r.tracker = some tr) {start : Nat} (hstart : r.firstRead = some start)
    {secs : F64} (hsecs : coversMicros secs (s.clock - start) = true) {v : Int}
    (hv : tr.rewound (tr.streamRewindSecs secs t.cfg.lookbackSeconds) r.plan.floor = some v) :
    StreamBehind t r v := by
  obtain ⟨hunit, hint, hpos, -, hmax, -⟩ := h.tracker tr htr
  rw [← hunit] at hint hmax
  have helapsed : s.clock + t.ahead - (start + t.ahead) = s.clock - start := Nat.add_sub_add_right _ _ _
  rw [← helapsed] at hsecs
  have hcov := rewound_covers hint (fun _ => hpos) hsecs hclock hmax (h.tracker_max hclock htr) hv
  rw [hunit] at hcov
  exact hcov.imp (fun hre => ⟨start, hstart, hre⟩) id

/-! ### The marker and the cursor -/

theorem UpdateInv.saveMarker (h : UpdateInv t s) {secs : F64} (he : s.saveMarker t secs = some s') :
    UpdateInv t s' := by
  obtain ⟨r, chunk, start, last, hr, hphase, hstart, hlast, hsecs, rfl⟩ := World.saveMarker_cases he
  have hc := h.consistent
  have hinv := h.run r hr
  have hacc : r.plan.keepCommitted = false → ∀ row ∈ s.source, t.leavesIn row = true →
      (PassedBy (some (toString last.key)) row.key ∨ chunk.length < t.limit) → Accounted t s r [] row := by
    intro hkeep row hrow hin hreach
    by_cases hpast : PassedBy r.cursor row.key
    · exact (hinv.accounts hkeep).passed row hrow hin hpast
    · have hp := (hinv.accounts hkeep).phase
      rw [hphase] at hp
      exact hp row hrow hin hpast (hreach.imp (fun hle => ⟨last, hlast, passedBy_toString.mp hle⟩) id)
  have hnotKeep : r.bound ≠ .unbounded → r.plan.keepCommitted = false := by
    intro hne
    rw [← Bool.not_eq_true, hinv.keep_iff]
    exact hne
  -- what the marker records, and the bound the run goes on with
  have hupper : (∀ u, (r.markerUpper t secs).1 = some u →
      s.CursorKeeps t (PassedBy (some (toString last.key))) u) ∧
      (match (r.markerUpper t secs).2 with
        | .frozen => r.effectiveUpper.isSome = true
        | .unbounded => r.plan.keepCommitted = true
        | .stream floor best => floor = r.plan.floor ∧ r.effectiveUpper = none ∧
            (best = i64Min ∨ StreamBehind t r best)) ∧
      (r.plan.keepCommitted = true ↔ (r.markerUpper t secs).2 = .unbounded) := by
    have hb := hinv.bound
    have hiff := hinv.keep_iff
    cases hbound : r.bound with
    | frozen =>
      have hup : r.markerUpper t secs = (r.effectiveUpper, .frozen) := by simp only [ChunkRun.markerUpper, hbound]
      rw [hbound] at hb hiff
      rw [hup]
      refine ⟨fun u hu => ?_, hb, hiff⟩
      have hkeep := hnotKeep (by rw [hbound]; simp)
      exact hinv.keeps_upper hu fun row hrow hkey hin => hacc hkeep row hrow hin (Or.inl hkey)
    | unbounded =>
      have hup : r.markerUpper t secs = (none, .unbounded) := by simp only [ChunkRun.markerUpper, hbound]
      rw [hbound] at hb hiff
      rw [hup]
      refine ⟨fun u hu => ?_, hb, hiff⟩
      cases hu
    | stream floor best =>
      have hkeep := hnotKeep (by rw [hbound]; simp)
      rw [hbound] at hb
      obtain ⟨rfl, hnone, hbest⟩ := hb
      cases htr : r.tracker with
      | none =>
        have hup : r.markerUpper t secs = (none, .stream r.plan.floor best) := by
          simp only [ChunkRun.markerUpper, hbound, htr]
        rw [hup]
        refine ⟨fun u hu => ?_, ⟨rfl, hnone, hbest⟩, by simp [hkeep]⟩
        cases hu
      | some tr =>
        cases hv : tr.rewound (tr.streamRewindSecs secs t.cfg.lookbackSeconds) r.plan.floor with
        | none =>
          have hup : r.markerUpper t secs = (none, .stream r.plan.floor best) := by
            simp only [ChunkRun.markerUpper, hbound, htr, hv]
          rw [hup]
          refine ⟨fun u hu => ?_, ⟨rfl, hnone, hbest⟩, by simp [hkeep]⟩
          cases hu
        | some v =>
          have hup : r.markerUpper t secs =
              (t.unit.renderValue t.dialect.dated (max best v), .stream r.plan.floor (max best v)) := by
            simp only [ChunkRun.markerUpper, hbound, htr, hv]
          have hmax : StreamBehind t r (max best v) := by
            have hbehind := hinv.streamBehind hc.clock_le htr hstart hsecs hv
            rcases hbest with rfl | hbest
            · rwa [max_eq_right (WatermarkTracker.le_of_rewound (hinv.tracker_max hc.clock_le htr) hv)]
            · rcases max_choice best v with hmax | hmax
              · rwa [hmax]
              · rwa [hmax]
          rw [hup]
          refine ⟨fun u hu => ?_, ⟨rfl, hnone, Or.inr hmax⟩, by simp [hkeep]⟩
          have hkeeps := hinv.keeps_stream hnone htr hmax fun row hrow hkey hin =>
            hacc hkeep row hrow hin (Or.inl hkey)
          exact hkeeps.rendered (hinv.tracker tr htr).2.1 hu
  refine ⟨⟨hc.keys, hc.stamped, hc.clock_le, fun c hcom => ?_, fun m u hmark hu => ?_⟩, fun r' hr' => ?_⟩
  · have hkeeps := hc.committed c (hinv.committed_eq ▸ hcom)
    exact ⟨hkeeps.sound, hkeeps.floor_le⟩
  · obtain rfl := Option.some.inj hmark
    exact ⟨(hupper.1 u hu).sound, (hupper.1 u hu).floor_le⟩
  · obtain rfl := Option.some.inj hr'
    refine ⟨rfl, hinv.lower_eq, hinv.upper_eq, hinv.last, hinv.floor, hinv.upper, hinv.pinned, hinv.firstRead_le,
      hinv.tracker, hupper.2.1, hupper.2.2, fun hkeep => ?_⟩
    refine ⟨fun row hrow hin hpast => hacc hkeep row hrow hin (Or.inl hpast), ?_⟩
    show PhaseAccounts t _ _ (if chunk.length < t.limit then Phase.complete else .chunkStart)
    split_ifs with hshort
    · exact fun row hrow hin => hacc hkeep row hrow hin (Or.inr hshort)
    · trivial

/-- The cursor a finished run computes keeps every row. -/
theorem UpdateRunInv.cursorOf_keeps (h : UpdateRunInv t s r) (hclock : ((s.clock + t.ahead : Nat) : Int) ≤ i64Max)
    (hphase : r.phase = .complete) {start : Nat} (hstart : r.firstRead = some start) {secs : F64}
    (hsecs : coversMicros secs (s.clock - start) = true) {c : CursorText}
    (hcursor : World.cursorOf t r secs = some c) : s.CursorKeeps t (fun _ => True) c := by
  have hacc : r.plan.keepCommitted = false → ∀ row ∈ s.source, True → t.leavesIn row = true →
      Accounted t s r [] row := by
    intro hkeep row hrow _ hin
    have hp := (h.accounts hkeep).phase
    rw [hphase] at hp
    exact hp row hrow hin
  simp only [World.cursorOf, newWatermark, Bool.false_eq_true, if_false, Bool.not_false, Bool.and_true,
    if_true] at hcursor
  by_cases hpin : r.plan.pinned = true
  · rw [if_pos hpin] at hcursor
    exact h.keeps_upper hcursor (hacc (h.pinned hpin))
  · rw [if_neg hpin] at hcursor
    by_cases hkeep : r.plan.keepCommitted = true
    · rw [if_pos hkeep] at hcursor
      cases hcursor
    · rw [if_neg hkeep] at hcursor
      have hacc := hacc (by simpa using hkeep)
      cases htr : r.tracker with
      | none =>
        simp only [htr] at hcursor
        exact h.keeps_upper hcursor hacc
      | some tr =>
        simp only [htr] at hcursor
        obtain ⟨v, hv, hc⟩ := Option.bind_eq_some_iff.mp hcursor
        obtain ⟨hunit, hint, -, -, -, hnone⟩ := h.tracker tr htr
        have hnone := hnone (by simpa using hpin)
        rw [hunit] at hc
        exact (h.keeps_stream hnone htr (h.streamBehind hclock htr hstart hsecs hv) hacc).rendered hint hc

theorem UpdateInv.finish (h : UpdateInv t s) {secs : F64} (he : s.finish t secs = some s') : UpdateInv t s' := by
  obtain ⟨r, start, hr, hphase, hstart, hsecs, rfl⟩ := World.finish_cases he
  have hc := h.consistent
  have hinv := h.run r hr
  refine ⟨⟨hc.keys, hc.stamped, hc.clock_le, fun c hcom => ?_, fun m u hmark => ?_⟩, fun r' hr' => ?_⟩
  · have hkeeps : s.CursorKeeps t (fun _ => True) c := by
      have hold : r.committed = some c → s.CursorKeeps t (fun _ => True) c :=
        fun h => hc.committed c (hinv.committed_eq ▸ h)
      have hcom : (if t.cfg.advanceWatermark then (World.cursorOf t r secs).or r.committed else r.committed) =
        some c := hcom
      split_ifs at hcom
      · rcases Option.or_eq_some_iff.mp hcom with hnew | ⟨-, hcom⟩
        · exact hinv.cursorOf_keeps hc.clock_le hphase hstart hsecs hnew
        · exact hold hcom
      · exact hold hcom
    exact ⟨hkeeps.sound, hkeeps.floor_le⟩
  · cases hmark
  · cases hr'

/-! ### Every history -/

private theorem UpdateInv.crash (h : UpdateInv t s) (he : s.crash = some s') : UpdateInv t s' := by
  obtain rfl := World.crash_cases he
  have hm : s.MovesOn t { s with run := none } :=
    World.movesOn_of_source (Nat.le_refl _) (fun _ hd => hd) fun _ hrow => hrow
  refine ⟨h.consistent.movesOn hm h.consistent.keys h.consistent.clock_le rfl rfl, fun r hr => ?_⟩
  cases hr

/-- The source's clock moves on. -/
private theorem UpdateInv.tick (h : UpdateInv t s) {now : Nat} (hle : s.clock ≤ now)
    (hnow : ((now + t.ahead : Nat) : Int) ≤ i64Max) : UpdateInv t { s with clock := now } :=
  h.source_change (World.movesOn_of_source hle (fun _ hd => hd) fun _ hrow => hrow) h.consistent.keys hnow

theorem UpdateInv.step {e : Event} (h : UpdateInv t s) (hresume : ResumesAccountably s e) (hseed : SeedsSoundly t s e)
    (hapart : StampsApart t s e) (he : s.step t e = some s') : UpdateInv t s' := by
  obtain ⟨hle, hnow, he⟩ := World.step_cases he
  have htick := h.tick hle hnow
  cases e with
  | change now key =>
    obtain rfl := Option.some.inj he
    refine h.source_change ⟨hle, fun _ hd => hd, fun row hrow => ?_⟩ (World.change_keys htick.consistent.keys) hnow
    rcases World.mem_change hrow with hold | rfl
    · exact Or.inl hold
    · exact Or.inr ⟨_, rfl, le_refl _, hapart⟩
  | delete now key =>
    obtain rfl := Option.some.inj he
    exact h.source_change (World.movesOn_of_source hle (fun _ hd => hd) fun row hrow => World.mem_delete hrow)
      (World.delete_keys htick.consistent.keys) hnow
  | start now skipMax =>
    refine htick.start (fun m hm hu => hresume ?_) (fun l hnone hl => hseed l hnone hl) he
    have hm : s.marker = some m := hm
    simp [hm, hu]
  | readChunk now => exact htick.readChunk he
  | insert now i => exact htick.insert he
  | endChunk now => exact htick.endChunk he
  | saveMarker now secs => exact htick.saveMarker he
  | finish now secs => exact htick.finish he
  | crash now => exact htick.crash he

end Quickhouse
