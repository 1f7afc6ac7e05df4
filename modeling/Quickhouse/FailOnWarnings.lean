import Quickhouse.Lib.Runs
import Quickhouse.Lib.Text
import Quickhouse.Warnings

/-!
# Fatal warnings hold back the saved state

An incremental run of a database source, attempt by attempt, as it passes its checkpoints: `TransferRun.step` takes
one event.  Warnings are raised in any order and by anything that runs between two checkpoints.

A state from which a cursor or a marker can be saved lies behind a checkpoint (`Stage.passed`).  Once something fatal
is raised no checkpoint is passed any more, so nothing is saved, unless it was raised behind one already, by the merge
of a chunk, or is forgotten by a retry: `fatal_warning_holds_state` is about the runs without either.
-/

namespace Quickhouse

open Runs

/-- An incremental run of a database source. -/
structure IncrementalRun where
  cfg : TransferConfig
  incremental : cfg.mode = .incremental
  texts : WarningTexts
  /-- The rows go into a staging table first. -/
  usedStaging : Bool
  /-- What is staged is merged; else it is moved by an `INSERT ... SELECT`. -/
  requiresStaging : Bool

/-! ### The clustering of a merge target -/

/-- The merge key is a prefix of the clustering, up to ASCII case. -/
def clusteringBinds (clustering : Option (List String)) (key : List String) : Bool :=
  match clustering with
  | some cols =>
    !cols.isEmpty && !key.isEmpty &&
      key.zipIdx.all fun (k, i) => cols[i]?.any fun c => Text.asciiLower c = Text.asciiLower k
  | none => false

/-- What a merge on `key` warns of; `clustering` is none where it could not be read. -/
def warnUnclusteredMergeTarget (destTable : String) (key : List String) (clustering : Option (Option (List String))) :
    Option TransferWarning :=
  if key = [] then none
  else
    match clustering with
    | none => none
    | some clustering =>
      if clusteringBinds clustering key then none
      else
        let have_ :=
          match clustering with
          | some (c :: cols) => "clustered by " ++ ", ".intercalate (c :: cols)
          | _ => "not clustered at all"
        some {
          kind := .unclusteredMergeTarget
          sample := clustering.map (", ".intercalate ·)
          message := "'" ++ destTable ++ "' is " ++ have_ ++ ", but this run MERGEs on " ++ ", ".intercalate key ++
            " — so the merge's key bound cannot prune anything and every run scans the whole destination. " ++
            "Recreate the destination clustered by the merge key (quickhouse's own generated DDL does this) to " ++
            "make the bound bite." }

theorem kind_warnUnclusteredMergeTarget {destTable : String} {key : List String}
    {clustering : Option (Option (List String))} {w : TransferWarning}
    (h : warnUnclusteredMergeTarget destTable key clustering = some w) : w.kind = .unclusteredMergeTarget := by
  unfold warnUnclusteredMergeTarget at h
  split_ifs at h
  split at h
  · cases h
  · split_ifs at h
    rw [← Option.some.inj h]

/-! ### An attempt and its stages -/

inductive RunError where
  | fatal (w : FatalWarning)
  /-- Of the source: the whole transfer is tried again. -/
  | transientSource
  | other
  deriving DecidableEq, Repr

inductive Stage where
  /-- Before anything is written. -/
  | setup
  | prepare
  /-- The read, or one chunk of it. -/
  | reading
  | chunkChecked
  | chunkLanded (rows : Nat)
  | chunkSaved
  | allRead
  | mergeChecked
  | promoted
  | cursorChecked
  | succeeded
  | failed (e : RunError)
  deriving DecidableEq, Repr

namespace Stage

/-- A checkpoint lies behind, and none before the next save. -/
def passed : Stage → Bool
  | .prepare | .chunkChecked | .chunkLanded _ | .chunkSaved | .mergeChecked | .cursorChecked | .succeeded => true
  | .setup | .reading | .allRead | .promoted | .failed _ => false

/-- The plan, the decoders, the null guard, or the checks after the read raise their warnings here. -/
def raises : Stage → Bool
  | .setup | .reading | .allRead | .promoted => true
  | _ => false

def ended : Stage → Bool
  | .succeeded | .failed _ => true
  | _ => false

end Stage

/-- A row of the state table. -/
inductive SavedRow where
  | watermark (value : String)
  | chunkCursor (committed : Option String) (cursor upper : String)
  deriving DecidableEq, Repr

structure TransferRun where
  attempt : Nat := 1
  stage : Stage := .setup
  committed : Option String := none
  createdDest : Bool := false
  warnings : Warnings := {}
  /-- What the writes raised, left with the destination. -/
  writeWarnings : List TransferWarning := []
  /-- The rows the failed attempts left in the destination. -/
  rowsFailed : Nat := 0
  /-- Every kind raised so far, in any attempt. -/
  raised : List WarningKind := []
  saved : List SavedRow := []
  deriving DecidableEq, Repr

inductive RunEvent where
  | raise (w : TransferWarning)
  /-- The null guard counts rows it left out or wrote a default into. -/
  | nullRows (kind : WarningKind) (column : String) (n : Nat)
  | writeWarning (w : TransferWarning)
  | check
  /-- State of a recreated destination is cleared, and the tables are created. -/
  | prepareTarget (committed : Option String) (discarded createdDest : Bool)
  /-- A chunk of `rows` rows, `written` of them staged, lands. -/
  | endChunk (rows written : Nat) (clustering : Option (Option (List String)))
  | persistChunkCursor (cursor upper : String)
  | nextChunk
  | readDone
  | promoteStaged (clustering : Option (Option (List String)))
  /-- Nothing is left to promote. -/
  | skipPromotion
  | persistWatermark (newWatermark : Option String)
  | fail (transientSource : Bool)
  /-- `landed` is what the failed attempt wrote into the destination itself. -/
  | retry (landed : Nat) (message : String)
  deriving DecidableEq, Repr

namespace TransferRun

variable (t : IncrementalRun)

def raise (s : TransferRun) (w : TransferWarning) : TransferRun :=
  { s with warnings := s.warnings.push w, raised := s.raised ++ [w.kind] }

/-- The checkpoint a stage ends at, and what lies behind it. -/
def checkpoint (s : TransferRun) : Option (Before × Stage) :=
  match s.stage with
  | .setup => some (.write, .prepare)
  | .reading => if t.cfg.chunkRows.isSome then some (.chunk, .chunkChecked) else none
  | .allRead =>
    if t.usedStaging && t.cfg.chunkRows.isNone then some (.ofMerge s.createdDest, .mergeChecked) else none
  | .promoted => some (if t.cfg.chunkRows.isSome then .cursorAfterChunks else .cursor, .cursorChecked)
  | _ => none

/-- A merge, overlapped with the clustering check. -/
def promote (s : TransferRun) (clustering : Option (Option (List String))) : TransferRun :=
  if t.requiresStaging then (warnUnclusteredMergeTarget t.cfg.destTable t.cfg.key clustering).elim s s.raise else s

/-- What the end of the run saves. -/
def finalSave (s : TransferRun) (newWatermark : Option String) : List SavedRow :=
  let advance := if t.cfg.advanceWatermark then newWatermark else none
  match advance with
  | some w => [.watermark w]
  | none => if t.cfg.chunkRows.isSome then [.watermark (s.committed.getD "")] else []

def step (s : TransferRun) : RunEvent → Option TransferRun
  | .raise w => if s.stage.raises then some (s.raise w) else none
  | .nullRows kind column n =>
    if s.stage = .reading ∧ 0 < n then
      some { s with warnings := s.warnings.addNullRows kind column n, raised := s.raised ++ [kind] }
    else none
  | .writeWarning w =>
    if s.stage = .reading then
      some { s with writeWarnings := s.writeWarnings ++ [w], raised := s.raised ++ [w.kind] }
    else none
  | .check =>
    match s.checkpoint t with
    | some (at_, next) =>
      match checkFatal t.texts t.cfg.failOnWarnings s.writeWarnings s.warnings at_ with
      | .ok ws => some { s with warnings := ws, writeWarnings := [], stage := next }
      | .error e => some { s with stage := .failed (.fatal e) }
    | none => none
  | .prepareTarget committed discarded createdDest =>
    if s.stage = .prepare then
      some { s with
        committed
        createdDest
        stage := .reading
        saved := s.saved ++ if discarded && t.cfg.advanceWatermark then [.watermark ""] else [] }
    else none
  | .endChunk rows written clustering =>
    if s.stage = .chunkChecked ∧ written ≤ rows then
      let s' := if t.usedStaging && decide (0 < written) then s.promote t clustering else s
      some { s' with stage := .chunkLanded rows }
    else none
  | .persistChunkCursor cursor upper =>
    match s.stage with
    | .chunkLanded (_ + 1) =>
      some { s with saved := s.saved ++ [.chunkCursor s.committed cursor upper], stage := .chunkSaved }
    | _ => none
  | .nextChunk => if s.stage = .chunkSaved then some { s with stage := .reading } else none
  | .readDone =>
    if s.stage = .chunkSaved ∨ s.stage = .chunkLanded 0 ∨ (s.stage = .reading ∧ t.cfg.chunkRows = none) then
      some { s with stage := .allRead }
    else none
  | .promoteStaged clustering =>
    if s.stage = .mergeChecked then some { s.promote t clustering with stage := .promoted } else none
  | .skipPromotion =>
    if s.stage = .allRead ∧ ¬ (t.usedStaging ∧ t.cfg.chunkRows = none) then some { s with stage := .promoted } else none
  | .persistWatermark newWatermark =>
    if s.stage = .cursorChecked then
      some { s with saved := s.saved ++ s.finalSave t newWatermark, stage := .succeeded }
    else none
  | .fail transientSource =>
    if s.stage.ended then none
    else some { s with stage := .failed (if transientSource then .transientSource else .other) }
  | .retry landed message =>
    if s.stage = .failed .transientSource ∧ s.attempt < t.cfg.retryMaxAttempts then
      let rowsFailed := s.rowsFailed + landed
      let fresh : TransferRun := { attempt := s.attempt + 1, rowsFailed, raised := s.raised, saved := s.saved }
      some (if rowsFailed = 0 then fresh
        else fresh.raise { kind := .retriedAfterPartialWrite, count := rowsFailed, message })
    else none

/-! ### What a step saves and raises -/

/-- Something fatal has been raised. -/
def FatalRaised (s : TransferRun) : Prop := ∃ k ∈ s.raised, k ∈ t.cfg.failOnWarnings

/-- No chunk's merge raises something fatal, and no attempt is tried again after something fatal was raised. -/
def RaisesInTime (s : TransferRun) : RunEvent → Prop
  | .endChunk _ written clustering =>
    t.usedStaging = true → t.requiresStaging = true → 0 < written → .unclusteredMergeTarget ∈ t.cfg.failOnWarnings →
      warnUnclusteredMergeTarget t.cfg.destTable t.cfg.key clustering = none
  | .retry _ _ => ¬ s.FatalRaised t
  | _ => True

/-- The kinds that wait for the next checkpoint of the attempt. -/
def held (s : TransferRun) : List WarningKind := s.warnings.kinds ++ s.writeWarnings.map (·.kind)

/-- A warning of the kind is raised. -/
structure Raises (s s' : TransferRun) (kind : WarningKind) : Prop where
  raised : s'.raised = s.raised ++ [kind]
  held : ∀ k, k ∈ s'.held ↔ k ∈ s.held ∨ k = kind
  saved : s'.saved = s.saved

/-- The run goes on, saving only behind a checkpoint. -/
structure Moves (s s' : TransferRun) : Prop where
  raised : s'.raised = s.raised
  held : s'.held = s.held
  passed : s'.stage.passed = true → s.stage.passed = true
  saved : s'.saved = s.saved ∨ s.stage.passed = true

/-- A checkpoint is passed. -/
structure Checks (s s' : TransferRun) : Prop where
  raised : s'.raised = s.raised
  held : ∀ k, k ∈ s'.held ↔ k ∈ s.held
  saved : s'.saved = s.saved
  harmless : ∀ k ∈ s.held, k ∉ t.cfg.failOnWarnings

/-- The transfer is tried again: the collector is a new one. -/
structure Retries (s s' : TransferRun) : Prop where
  raised : ∀ k ∈ s.raised, k ∈ s'.raised
  held : ∀ k ∈ s'.raised, k ∈ s.raised ∨ k ∈ s'.held
  stage : s'.stage = .setup
  saved : s'.saved = s.saved

variable {t} {s s' : TransferRun}

theorem raises_raise (s : TransferRun) (w : TransferWarning) : Raises s (s.raise w) w.kind where
  raised := rfl
  held k := by
    unfold held raise
    simp only [List.mem_append, Warnings.kinds_push]
    tauto
  saved := rfl

private theorem step_check (he : s.step t .check = some s') : Checks t s s' ∨ (Moves s s' ∧ ∃ e, s'.stage = .failed e) := by
  unfold step at he
  dsimp only at he
  split at he
  · split at he
    · rename_i hok
      obtain rfl := Option.some.inj he
      obtain ⟨rfl, hharmless⟩ := checkFatal_ok hok
      have hheld : ∀ k, k ∈ ({ s.warnings with raw := s.warnings.raw ++ s.writeWarnings } : Warnings).kinds ↔
          k ∈ s.held := by
        intro k
        simp only [Warnings.kinds, held, List.map_append, List.mem_append]
        tauto
      refine Or.inl ⟨rfl, fun k => ?_, rfl, fun k hk => hharmless k ((hheld k).mpr hk)⟩
      unfold held
      rw [List.map_nil, List.append_nil]
      exact hheld k
    · obtain rfl := Option.some.inj he
      exact Or.inr ⟨⟨rfl, rfl, fun h => (Bool.false_ne_true h).elim, Or.inl rfl⟩, _, rfl⟩
  · cases he

private theorem promote_cases (s : TransferRun) (clustering : Option (Option (List String))) :
    s.promote t clustering = s ∨ (t.requiresStaging = true ∧
      ∃ w, warnUnclusteredMergeTarget t.cfg.destTable t.cfg.key clustering = some w ∧
        s.promote t clustering = s.raise w) := by
  unfold promote
  split_ifs with hmerge
  · cases hw : warnUnclusteredMergeTarget t.cfg.destTable t.cfg.key clustering with
    | none => exact Or.inl rfl
    | some w => exact Or.inr ⟨hmerge, w, rfl, rfl⟩
  · exact Or.inl rfl

/-- What a merge raises leaves the chunk behind its checkpoint, and the run before its next one. -/
private theorem step_endChunk {rows written : Nat} {clustering : Option (Option (List String))}
    (he : s.step t (.endChunk rows written clustering) = some s') : s.stage.passed = true ∧
      (Moves s s' ∨ (Raises s s' .unclusteredMergeTarget ∧ t.usedStaging = true ∧ t.requiresStaging = true ∧
        0 < written ∧ warnUnclusteredMergeTarget t.cfg.destTable t.cfg.key clustering ≠ none)) := by
  simp only [step] at he
  split_ifs at he with hstage hmerge
  · obtain rfl := Option.some.inj he
    have hpassed : s.stage.passed = true := by rw [hstage.1]; rfl
    rw [Bool.and_eq_true, decide_eq_true_eq] at hmerge
    refine ⟨hpassed, ?_⟩
    rcases promote_cases s clustering with heq | ⟨hrequires, w, hw, heq⟩
    · rw [heq]
      exact Or.inl ⟨rfl, rfl, fun _ => hpassed, Or.inl rfl⟩
    · rw [heq]
      have hraises := raises_raise s w
      rw [kind_warnUnclusteredMergeTarget hw] at hraises
      exact Or.inr ⟨⟨hraises.raised, hraises.held, rfl⟩, hmerge.1, hrequires, hmerge.2, by rw [hw]; simp⟩
  · obtain rfl := Option.some.inj he
    have hpassed : s.stage.passed = true := by rw [hstage.1]; rfl
    exact ⟨hpassed, Or.inl ⟨rfl, rfl, fun _ => hpassed, Or.inl rfl⟩⟩

/-- A step raises something, moves on, passes a checkpoint or tries again.  Behind a checkpoint nothing fatal is
raised in time. -/
theorem step_cases {e : RunEvent} (hc : s.RaisesInTime t e) (he : s.step t e = some s') :
    (∃ k, Raises s s' k ∧ (s'.stage.passed = true → s.stage.passed = true ∧ k ∉ t.cfg.failOnWarnings)) ∨
      Moves s s' ∨ Checks t s s' ∨ (Retries s s' ∧ ¬ s.FatalRaised t) := by
  cases e with
  | raise w =>
    simp only [step] at he
    split_ifs at he with hraises
    obtain rfl := Option.some.inj he
    refine Or.inl ⟨_, raises_raise s w, fun hpassed => ?_⟩
    have hpassed : s.stage.passed = true := hpassed
    cases hstage : s.stage <;> rw [hstage] at hraises hpassed <;> cases hraises <;> cases hpassed
  | nullRows kind column n =>
    simp only [step] at he
    split_ifs at he with hstage
    obtain rfl := Option.some.inj he
    refine Or.inl ⟨kind, ⟨rfl, fun k => ?_, rfl⟩, fun hpassed => ?_⟩
    · unfold held
      simp only [List.mem_append, Warnings.kinds_addNullRows kind column hstage.2]
      tauto
    · have hpassed : s.stage.passed = true := hpassed
      rw [hstage.1] at hpassed
      cases hpassed
  | writeWarning w =>
    simp only [step] at he
    split_ifs at he with hstage
    obtain rfl := Option.some.inj he
    refine Or.inl ⟨w.kind, ⟨rfl, fun k => ?_, rfl⟩, fun hpassed => ?_⟩
    · simp only [held, List.map_append, List.map_cons, List.map_nil, List.mem_append, List.mem_singleton]
      tauto
    · have hpassed : s.stage.passed = true := hpassed
      rw [hstage] at hpassed
      cases hpassed
  | check =>
    rcases step_check he with h | ⟨h, -⟩
    · exact Or.inr (Or.inr (Or.inl h))
    · exact Or.inr (Or.inl h)
  | prepareTarget committed discarded createdDest =>
    simp only [step] at he
    split_ifs at he with hstage
    all_goals
      obtain rfl := Option.some.inj he
      exact Or.inr (Or.inl ⟨rfl, rfl, fun h => (Bool.false_ne_true h).elim, Or.inr (by rw [hstage]; rfl)⟩)
  | endChunk rows written clustering =>
    rcases step_endChunk he with ⟨hpassed, hmoves | ⟨hraises, hstaged, hrequires, hwritten, hwarns⟩⟩
    · exact Or.inr (Or.inl hmoves)
    · exact Or.inl ⟨_, hraises, fun _ => ⟨hpassed, fun hfatal => hwarns (hc hstaged hrequires hwritten hfatal)⟩⟩
  | persistChunkCursor cursor upper =>
    simp only [step] at he
    split at he
    · rename_i hstage
      obtain rfl := Option.some.inj he
      have hpassed : s.stage.passed = true := by rw [hstage]; rfl
      exact Or.inr (Or.inl ⟨rfl, rfl, fun _ => hpassed, Or.inr hpassed⟩)
    · cases he
  | nextChunk =>
    simp only [step] at he
    split_ifs at he
    obtain rfl := Option.some.inj he
    exact Or.inr (Or.inl ⟨rfl, rfl, fun h => (Bool.false_ne_true h).elim, Or.inl rfl⟩)
  | readDone =>
    simp only [step] at he
    split_ifs at he
    obtain rfl := Option.some.inj he
    exact Or.inr (Or.inl ⟨rfl, rfl, fun h => (Bool.false_ne_true h).elim, Or.inl rfl⟩)
  | promoteStaged clustering =>
    simp only [step] at he
    split_ifs at he
    obtain rfl := Option.some.inj he
    rcases promote_cases s clustering with heq | ⟨-, w, -, heq⟩
    · rw [heq]
      exact Or.inr (Or.inl ⟨rfl, rfl, fun h => (Bool.false_ne_true h).elim, Or.inl rfl⟩)
    · rw [heq]
      have hraises := raises_raise s w
      exact Or.inl ⟨w.kind, ⟨hraises.raised, hraises.held, rfl⟩, fun h => (Bool.false_ne_true h).elim⟩
  | skipPromotion =>
    simp only [step] at he
    split_ifs at he
    obtain rfl := Option.some.inj he
    exact Or.inr (Or.inl ⟨rfl, rfl, fun h => (Bool.false_ne_true h).elim, Or.inl rfl⟩)
  | persistWatermark newWatermark =>
    simp only [step] at he
    split_ifs at he with hstage
    obtain rfl := Option.some.inj he
    have hpassed : s.stage.passed = true := by rw [hstage]; rfl
    exact Or.inr (Or.inl ⟨rfl, rfl, fun _ => hpassed, Or.inr hpassed⟩)
  | fail transientSource =>
    simp only [step] at he
    split_ifs at he
    all_goals
      obtain rfl := Option.some.inj he
      exact Or.inr (Or.inl ⟨rfl, rfl, fun h => (Bool.false_ne_true h).elim, Or.inl rfl⟩)
  | retry landed message =>
    refine Or.inr (Or.inr (Or.inr ⟨?_, hc⟩))
    simp only [step] at he
    split_ifs at he with hretry hnone
    · obtain rfl := Option.some.inj he
      exact ⟨fun _ h => h, fun _ h => Or.inl h, rfl, rfl⟩
    · obtain rfl := Option.some.inj he
      refine ⟨fun k hk => List.mem_append_left _ hk, fun k hk => ?_, rfl, rfl⟩
      rcases List.mem_append.mp hk with hk | hk
      · exact Or.inl hk
      · right
        rw [List.mem_singleton.mp hk]
        exact ((raises_raise _ _).held _).mpr (Or.inr rfl)

/-! ### What is fatal is held back -/

/-- What is fatal waits for the next checkpoint, and none has been passed since. -/
structure HoldInv (t : IncrementalRun) (s : TransferRun) : Prop where
  held : ∀ k ∈ s.raised, k ∈ t.cfg.failOnWarnings → k ∈ s.held
  passed : s.stage.passed = true → ¬ s.FatalRaised t

theorem HoldInv.step {e : RunEvent} (h : HoldInv t s) (hc : s.RaisesInTime t e) (he : s.step t e = some s') :
    HoldInv t s' := by
  rcases step_cases hc he with ⟨kind, hraises, hpassed⟩ | hmoves | hchecks | ⟨hretries, hnone⟩
  · refine ⟨fun k hk hfatal => ?_, fun hp ⟨k, hk, hfatal⟩ => ?_⟩
    · rw [hraises.raised, List.mem_append, List.mem_singleton] at hk
      exact (hraises.held k).mpr (hk.imp (fun hk => h.held k hk hfatal) id)
    · rw [hraises.raised, List.mem_append, List.mem_singleton] at hk
      rcases hk with hk | rfl
      · exact h.passed (hpassed hp).1 ⟨k, hk, hfatal⟩
      · exact (hpassed hp).2 hfatal
  · refine ⟨fun k hk hfatal => ?_, fun hp ⟨k, hk, hfatal⟩ => ?_⟩
    · rw [hmoves.raised] at hk
      rw [hmoves.held]
      exact h.held k hk hfatal
    · rw [hmoves.raised] at hk
      exact h.passed (hmoves.passed hp) ⟨k, hk, hfatal⟩
  · refine ⟨fun k hk hfatal => ?_, fun _ ⟨k, hk, hfatal⟩ => ?_⟩
    · rw [hchecks.raised] at hk
      exact (hchecks.held k).mpr (h.held k hk hfatal)
    · rw [hchecks.raised] at hk
      exact hchecks.harmless k (h.held k hk hfatal) hfatal
  · refine ⟨fun k hk hfatal => ?_, fun hp => ?_⟩
    · rcases hretries.held k hk with hold | hheld
      · exact absurd ⟨k, hold, hfatal⟩ hnone
      · exact hheld
    · rw [hretries.stage] at hp
      cases hp

/-- While something fatal has been raised, no step saves anything. -/
theorem FatalRaised.step {e : RunEvent} (hfatal : s.FatalRaised t) (h : HoldInv t s) (hc : s.RaisesInTime t e)
    (he : s.step t e = some s') : s'.FatalRaised t ∧ s'.saved = s.saved := by
  obtain ⟨k, hk, hkind⟩ := hfatal
  rcases step_cases hc he with ⟨kind, hraises, -⟩ | hmoves | hchecks | ⟨-, hnone⟩
  · refine ⟨⟨k, ?_, hkind⟩, hraises.saved⟩
    rw [hraises.raised]
    exact List.mem_append_left _ hk
  · refine ⟨⟨k, hmoves.raised ▸ hk, hkind⟩, ?_⟩
    rcases hmoves.saved with hsaved | hpassed
    · exact hsaved
    · exact absurd ⟨k, hk, hkind⟩ (h.passed hpassed)
  · exact ⟨⟨k, hchecks.raised ▸ hk, hkind⟩, hchecks.saved⟩
  · exact absurd ⟨k, hk, hkind⟩ hnone

/-- The next checkpoint ends the run. -/
theorem FatalRaised.check (hfatal : s.FatalRaised t) (h : HoldInv t s) (he : s.step t .check = some s') :
    ∃ e, s'.stage = .failed e := by
  rcases step_check he with hchecks | ⟨-, hfailed⟩
  · obtain ⟨k, hk, hkind⟩ := hfatal
    exact absurd hkind (hchecks.harmless k (h.held k hk hkind))
  · exact hfailed

end TransferRun

open TransferRun

/-- Once something fatal is raised nothing more is saved, the next checkpoint ends the run, and however it ends it
ends in an error. -/
theorem fatal_warning_holds_state (t : IncrementalRun) {s s' : TransferRun} {es fs : List RunEvent}
    (hexec : exec (TransferRun.step t) {} es = some s) (hfatal : s.FatalRaised t)
    (hrest : exec (TransferRun.step t) s fs = some s')
    (hintime : Along (TransferRun.step t) (RaisesInTime t) {} (es ++ fs)) :
    s'.saved = s.saved ∧ (s'.stage.ended = true → ∃ e, s'.stage = .failed e) ∧
      ∀ s'', s'.step t .check = some s'' → ∃ e, s''.stage = .failed e := by
  have hinit : HoldInv t {} := by
    refine ⟨fun k hk => ?_, fun hp => ?_⟩
    · cases hk
    · cases hp
  have hinv : HoldInv t s :=
    exec_invariant_along (fun _ _ _ h hc he => h.step hc he) hinit hintime.left hexec
  have hheld : HoldInv t s' ∧ s'.FatalRaised t ∧ s'.saved = s.saved := by
    refine @exec_invariant_along _ _ _ (fun x => HoldInv t x ∧ x.FatalRaised t ∧ x.saved = s.saved) _
      (fun x e x' h hc he => ?_) _ _ _ ⟨hinv, hfatal, rfl⟩ (hintime.right hexec) hrest
    obtain ⟨hfatal', hsaved⟩ := h.2.1.step h.1 hc he
    exact ⟨h.1.step hc he, hfatal', hsaved.trans h.2.2⟩
  obtain ⟨hinv', hfatal', hsaved⟩ := hheld
  refine ⟨hsaved, fun hended => ?_, fun s'' hcheck => hfatal'.check hinv' hcheck⟩
  cases hstage : s'.stage with
  | succeeded => exact absurd hfatal' (hinv'.passed (by rw [hstage]; rfl))
  | failed e => exact ⟨e, rfl⟩
  | _ =>
    rw [hstage] at hended
    cases hended

/-- A chunked run into a destination that merges, stopped on `unclustered_merge_target` and `null_key`. -/
private def mergedOrders : IncrementalRun where
  cfg := {
    sourceTable := some "orders"
    destTable := "orders"
    mode := .incremental
    watermark := some "updated_at"
    key := ["id"]
    chunkRows := some 2
    failOnWarnings := [.unclusteredMergeTarget, .nullKey] }
  incremental := rfl
  texts := ⟨fun _ _ _ => "", fun _ _ => "", fun _ _ _ => ""⟩
  usedStaging := true
  requiresStaging := true

/-- The first chunk lands in a table clustered by its key. -/
private def firstChunk : List RunEvent :=
  [.check, .prepareTarget none false true, .check, .endChunk 2 2 (some (some ["id"])), .persistChunkCursor "2" "",
    .nextChunk, .nullRows .nullKey "id" 1]

/-- A row of the second chunk has no key: its checkpoint ends the run, with the first chunk's marker only. -/
theorem fatal_warning_holds_state_null_key :
    ∃ s s', exec (TransferRun.step mergedOrders) {} firstChunk = some s ∧
      exec (TransferRun.step mergedOrders) s [.check] = some s' ∧ s.saved = [.chunkCursor none "2" ""] ∧
      s'.saved = s.saved ∧ (s'.stage.ended = true → ∃ e, s'.stage = .failed e) ∧
      ∀ s'', s'.step mergedOrders .check = some s'' → ∃ e, s''.stage = .failed e := by
  have hrun : (exec (TransferRun.step mergedOrders) {} firstChunk).any
      (fun s => decide (s.saved = [.chunkCursor none "2" ""] ∧ s.raised = [.nullKey]) &&
        (exec (TransferRun.step mergedOrders) s [.check]).isSome) = true := by
    decide +kernel
  obtain ⟨s, hs, hrun⟩ := (Option.any_eq_true _ _).mp hrun
  rw [Bool.and_eq_true, decide_eq_true_eq] at hrun
  obtain ⟨⟨hsaved, hraised⟩, hcheck⟩ := hrun
  obtain ⟨s', hs'⟩ := Option.isSome_iff_exists.mp hcheck
  have hfatal : s.FatalRaised mergedOrders := ⟨.nullKey, by rw [hraised]; exact List.mem_cons_self, by decide⟩
  refine ⟨s, s', hs, hs', hsaved, ?_⟩
  refine fatal_warning_holds_state mergedOrders hs hfatal hs' (along_of_forall (fun e he s => ?_) _)
  cases e with
  | endChunk rows written clustering =>
    simp only [firstChunk, List.mem_append, List.mem_cons, List.not_mem_nil, or_false, reduceCtorEq, false_or,
      RunEvent.endChunk.injEq] at he
    rw [he.2.2]
    exact fun _ _ _ _ => by decide +kernel
  | retry landed message => simp [firstChunk] at he
  | _ => trivial

/-- The merge of the chunk raises `unclustered_merge_target`, after the chunk's checkpoint: its marker is saved. -/
theorem chunk_merge_warns_behind_checkpoint :
    ∃ s s', exec (TransferRun.step mergedOrders) {}
        [.check, .prepareTarget none false false, .check, .endChunk 2 2 (some none)] = some s ∧
      s.FatalRaised mergedOrders ∧ s.saved = [] ∧
      s.step mergedOrders (.persistChunkCursor "2" "") = some s' ∧ s'.saved = [.chunkCursor none "2" ""] := by
  have hrun : (exec (TransferRun.step mergedOrders) {}
      [.check, .prepareTarget none false false, .check, .endChunk 2 2 (some none)]).any
      (fun s => decide (s.raised = [.unclusteredMergeTarget] ∧ s.saved = []) &&
        (s.step mergedOrders (.persistChunkCursor "2" "")).any
          (fun s' => decide (s'.saved = [.chunkCursor none "2" ""]))) = true := by
    decide +kernel
  obtain ⟨s, hs, hrun⟩ := (Option.any_eq_true _ _).mp hrun
  rw [Bool.and_eq_true, decide_eq_true_eq] at hrun
  obtain ⟨⟨hraised, hsaved⟩, hstep⟩ := hrun
  obtain ⟨s', hs', hsaved'⟩ := (Option.any_eq_true _ _).mp hstep
  exact ⟨s, s', hs, ⟨.unclusteredMergeTarget, by rw [hraised]; exact List.mem_cons_self, by decide⟩, hsaved, hs',
    of_decide_eq_true hsaved'⟩

end Quickhouse
