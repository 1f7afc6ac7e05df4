import Quickhouse.Sink.RefreshAllOrNothing

/-!
# Full refreshes do not shrink the table

Where full refreshes run one after the other, each counts the destination and none may shrink it, the destination never holds
fewer rows than before (`refresh_never_shrinks`).
-/

namespace Quickhouse.FullRefresh

open LateCalls Runs

section

variable {ρ : Type} {e : Engine ρ} {r r' : Run ρ} {n n' : Net (Server ρ) (Statement ρ)}

def rowsIn (s : Server ρ) (table : String) : Nat := (s.tables table).elim 0 fun t => t.rows.length

/-- The guard has looked at the destination, and the exchange is still to come. -/
def Phase.weighed : Phase → Bool
  | .countingMerged _ | .countingStaged _ _ | .guarded | .checked => true
  | _ => false

/-- What the guard found out about the destination is still so. -/
structure Weighs (s : Server ρ) (r : Run ρ) : Prop where
  counting : ∀ existing, r.phase = .countingMerged existing → r.rowsWritten < existing
  notStaged : ∀ existing destMerged, r.phase ≠ .countingStaged existing destMerged
  guarded : r.phase = .guarded ∨ r.phase = .checked → rowsIn s r.dest ≤ r.rowsWritten

theorem weighs_of_not {s : Server ρ} (h : r.phase.weighed = false) : Weighs s r := by
  refine ⟨fun existing hphase => ?_, fun existing destMerged hphase => ?_, ?_⟩
  · rw [hphase] at h
    cases h
  · rw [hphase] at h
    cases h
  · rintro (hphase | hphase) <;> rw [hphase] at h <;> cases h

theorem decideShrink_refuses (hallow : r.refresh.allowFullRefreshShrink = false) {existing : Nat}
    (hless : r.rowsWritten < existing) : (r.decideShrink (some existing) none).phase.weighed = false := by
  have hlost : (if r.rowsWritten ≤ existing then some (existing - r.rowsWritten) else none).filter (0 < ·) =
      some (existing - r.rowsWritten) := by
    rw [if_pos (by omega), Option.filter_some, if_pos (by simpa using by omega)]
  unfold Run.decideShrink guardFullRefreshShrink fullRefreshShrinkVerdict
  dsimp only
  rw [hallow, hlost]
  rfl

/-- Without leave to shrink, the guard lets pass what is no fewer rows. -/
theorem decideShrink_weighs {s : Server ρ} (hallow : r.refresh.allowFullRefreshShrink = false) {existing : Nat}
    (hexisting : rowsIn s r.dest ≤ existing) : Weighs s (r.decideShrink (some existing) none) := by
  by_cases hless : r.rowsWritten < existing
  · exact weighs_of_not (decideShrink_refuses hallow hless)
  · have hlost : (if r.rowsWritten ≤ existing then some (existing - r.rowsWritten) else none).filter (0 < ·) = none := by
      by_cases hle : r.rowsWritten ≤ existing
      · rw [if_pos hle, Option.filter_some, if_neg (by simpa using by omega)]
      · rw [if_neg hle, Option.filter_none]
    unfold Run.decideShrink guardFullRefreshShrink fullRefreshShrinkVerdict
    dsimp only
    rw [hlost]
    refine ⟨nofun, nofun, fun _ => ?_⟩
    show rowsIn s r.dest ≤ r.rowsWritten
    omega

theorem decideShrink_none {s : Server ρ} (hnone : s.tables r.dest = none) : Weighs s (r.decideShrink none none) := by
  unfold Run.decideShrink guardFullRefreshShrink fullRefreshShrinkVerdict
  refine ⟨nofun, nofun, fun _ => ?_⟩
  show rowsIn s r.dest ≤ r.rowsWritten
  unfold rowsIn
  rw [hnone]
  exact Nat.zero_le _

theorem step_countDest {t : Table ρ} (hphase : r.phase = .validated) (htable : n.server.tables r.dest = some t) :
    r.step e n (.countDest .read) =
      if r.rowsWritten < t.rows.length then some (n, { r with phase := .countingMerged t.rows.length })
      else some (n, r.decideShrink (some t.rows.length) none) := by
  simp only [Run.step, hphase, htable, ne_eq, not_true_eq_false, if_false]

theorem step_countDest_none (hphase : r.phase = .validated) (htable : n.server.tables r.dest = none) :
    r.step e n (.countDest .read) = some (n, r.decideShrink none none) := by
  simp only [Run.step, hphase, htable, ne_eq, not_true_eq_false, if_false]

theorem step_countMerged {existing : Nat} {reply : CountReply} (hmerged : e.merged = none)
    (hphase : r.phase = .countingMerged existing) :
    r.step e n (.countMerged reply) = some (n, r.decideShrink (some existing) none) := by
  simp only [Run.step, hphase, hmerged]

theorem weighs_counting {s : Server ρ} {existing : Nat} (hless : r.rowsWritten < existing) :
    Weighs s { r with phase := .countingMerged existing } := by
  refine ⟨fun existing' heq => ?_, fun _ _ heq => ?_, fun heq => ?_⟩
  · rw [← Phase.countingMerged.inj heq]
    exact hless
  · cases heq
  · rcases heq with heq | heq <;> cases heq

theorem weighs_countDest (hallow : r.refresh.allowFullRefreshShrink = false) (hphase : r.phase = .validated)
    (h : r.step e n (.countDest .read) = some (n', r')) : r'.phase.weighed = false ∨ (n' = n ∧ Weighs n.server r') := by
  cases htable : n.server.tables r.dest with
  | none =>
    rw [step_countDest_none hphase htable] at h
    obtain ⟨rfl, rfl⟩ := Prod.mk.inj (Option.some.inj h)
    exact .inr ⟨rfl, decideShrink_none htable⟩
  | some t =>
    have hrows : rowsIn n.server r.dest = t.rows.length := by
      unfold rowsIn
      rw [htable]
      rfl
    rw [step_countDest hphase htable] at h
    split_ifs at h with hless
    · obtain ⟨rfl, rfl⟩ := Prod.mk.inj (Option.some.inj h)
      exact .inr ⟨rfl, weighs_counting hless⟩
    · obtain ⟨rfl, rfl⟩ := Prod.mk.inj (Option.some.inj h)
      exact .inr ⟨rfl, decideShrink_weighs hallow (Nat.le_of_eq hrows)⟩

theorem weighs_checked {s : Server ρ} (h : rowsIn s r.dest ≤ r.rowsWritten) (warnings : Warnings) :
    Weighs s { r with warnings := warnings, phase := .checked } := by
  refine ⟨fun _ heq => ?_, fun _ _ heq => ?_, fun _ => h⟩
  · cases heq
  · cases heq

/-- Only the guard and the checkpoint behind it go on towards the exchange. -/
theorem weighs_step {event : RunEvent ρ} (hmerged : e.merged = none) (hallow : r.refresh.allowFullRefreshShrink = false)
    (hold : Weighs n.server r) (hread : ∀ reply, event = .countDest reply → reply = .read)
    (h : r.step e n event = some (n', r')) : r'.phase.weighed = false ∨ (n' = n ∧ Weighs n.server r') := by
  cases event with
  | probe known =>
    rw [Run.step] at h
    split_ifs at h
    all_goals obtain ⟨-, rfl⟩ := Prod.mk.inj (Option.some.inj h)
    all_goals exact .inl rfl
  | createDest answered =>
    rw [Run.step] at h
    by_cases hphase : r.phase = .creatingDest
    · rw [if_pos hphase] at h
      obtain ⟨n₁, -, heq⟩ := Option.map_eq_some_iff.mp h
      obtain ⟨-, rfl⟩ := Prod.mk.inj heq
      cases answered <;> exact .inl rfl
    · rw [if_neg hphase] at h
      cases h
  | createStaging answered =>
    rw [Run.step] at h
    split at h
    · obtain ⟨n₁, -, heq⟩ := Option.map_eq_some_iff.mp h
      obtain ⟨-, rfl⟩ := Prod.mk.inj heq
      cases answered <;> exact .inl rfl
    · cases h
  | read rows =>
    rw [Run.step] at h
    split_ifs at h with hphase
    obtain ⟨-, rfl⟩ := Prod.mk.inj (Option.some.inj h)
    unfold Run.read
    split_ifs
    · exact .inl (by rw [hphase]; rfl)
    · exact .inl (by dsimp only; rw [hphase]; rfl)
  | attempt k response =>
    rw [Run.step] at h
    split at h
    · split_ifs at h with hready
      unfold Run.attempt at h
      dsimp only at h
      split at h
      · obtain ⟨n₁, -, heq⟩ := Option.map_eq_some_iff.mp h
        obtain ⟨-, rfl⟩ := Prod.mk.inj heq
        exact .inl (by dsimp only; rw [hready.1]; rfl)
      · obtain ⟨n₁, -, heq⟩ := Option.map_eq_some_iff.mp h
        obtain ⟨-, rfl⟩ := Prod.mk.inj heq
        split_ifs
        · exact .inl rfl
        · exact .inl (by dsimp only; rw [hready.1]; rfl)
      · obtain ⟨-, rfl⟩ := Prod.mk.inj (Option.some.inj h)
        exact .inl rfl
    · cases h
  | raise w =>
    rw [Run.step] at h
    split_ifs at h with hphase
    obtain ⟨-, rfl⟩ := Prod.mk.inj (Option.some.inj h)
    exact .inl (by dsimp only; rw [hphase]; rfl)
  | nullRows kind column count =>
    rw [Run.step] at h
    split_ifs at h with hphase
    obtain ⟨-, rfl⟩ := Prod.mk.inj (Option.some.inj h)
    exact .inl (by dsimp only; rw [hphase]; rfl)
  | readDone =>
    rw [Run.step] at h
    split_ifs at h
    obtain ⟨-, rfl⟩ := Prod.mk.inj (Option.some.inj h)
    exact .inl rfl
  | validate passed =>
    rw [Run.step] at h
    split_ifs at h
    all_goals obtain ⟨-, rfl⟩ := Prod.mk.inj (Option.some.inj h)
    all_goals exact .inl rfl
  | countDest reply =>
    obtain rfl := hread reply rfl
    by_cases hphase : r.phase = .validated
    · exact weighs_countDest hallow hphase h
    · unfold Run.step at h
      dsimp only at h
      rw [if_pos hphase] at h
      cases h
  | countMerged reply =>
    by_cases hphase : ∃ existing, r.phase = .countingMerged existing
    · obtain ⟨existing, hphase⟩ := hphase
      rw [step_countMerged hmerged hphase] at h
      obtain ⟨-, rfl⟩ := Prod.mk.inj (Option.some.inj h)
      exact .inl (decideShrink_refuses hallow (hold.counting existing hphase))
    · unfold Run.step at h
      dsimp only at h
      split at h
      · rename_i existing hcounting
        exact absurd ⟨existing, hcounting⟩ hphase
      · cases h
  | countStaged reply =>
    unfold Run.step at h
    dsimp only at h
    split at h
    · rename_i existing destMerged hphase
      exact absurd hphase (hold.notStaged existing destMerged)
    · cases h
  | checkFatal =>
    rw [Run.step] at h
    split_ifs at h with hphase
    split at h
    · obtain ⟨rfl, rfl⟩ := Prod.mk.inj (Option.some.inj h)
      exact .inr ⟨rfl, weighs_checked (hold.guarded (.inl hphase)) _⟩
    · obtain ⟨-, rfl⟩ := Prod.mk.inj (Option.some.inj h)
      exact .inl rfl
  | swap answered =>
    rw [Run.step] at h
    by_cases hphase : r.phase = .checked
    · rw [if_pos hphase] at h
      obtain ⟨n₁, -, heq⟩ := Option.map_eq_some_iff.mp h
      obtain ⟨-, rfl⟩ := Prod.mk.inj heq
      cases answered <;> exact .inl rfl
    · rw [if_neg hphase] at h
      cases h
  | dropStaging answered =>
    rw [Run.step] at h
    by_cases hphase : r.phase = .swapped
    · rw [if_pos hphase] at h
      obtain ⟨n₁, -, heq⟩ := Option.map_eq_some_iff.mp h
      obtain ⟨-, rfl⟩ := Prod.mk.inj heq
      cases answered <;> exact .inl rfl
    · rw [if_neg hphase] at h
      cases h
  | cleanup answered =>
    rw [Run.step] at h
    split at h
    · obtain ⟨n₁, -, heq⟩ := Option.map_eq_some_iff.mp h
      obtain ⟨-, rfl⟩ := Prod.mk.inj heq
      exact .inl rfl
    · cases h
  | fail =>
    rw [Run.step] at h
    split_ifs at h
    obtain ⟨-, rfl⟩ := Prod.mk.inj (Option.some.inj h)
    exact .inl rfl
  | crash =>
    rw [Run.step] at h
    split_ifs at h
    obtain ⟨-, rfl⟩ := Prod.mk.inj (Option.some.inj h)
    exact .inl rfl

/-- A refresh that has ended does nothing more. -/
theorem step_ended (h : r.phase.ended = true) (event : RunEvent ρ) : r.step e n event = none := by
  have hne : ∀ {phase : Phase}, phase.ended = false → r.phase ≠ phase := by
    rintro phase hphase rfl
    rw [hphase] at h
    cases h
  cases event with
  | probe known => rw [Run.step, if_pos (hne rfl)]
  | createDest answered => rw [Run.step, if_neg (hne rfl)]
  | createStaging answered =>
    rw [Run.step]
    split
    · rename_i cloned hphase
      exact absurd hphase (hne rfl)
    · rfl
  | read rows => rw [Run.step, if_neg (hne rfl)]
  | attempt k response =>
    rw [Run.step]
    split
    · exact if_neg fun hready => hne rfl hready.1
    · rfl
  | raise w => rw [Run.step, if_neg (hne rfl)]
  | nullRows kind column count => rw [Run.step, if_neg (hne rfl)]
  | readDone => rw [Run.step, if_neg fun hready => hne rfl hready.1]
  | validate passed => rw [Run.step, if_neg (hne rfl)]
  | countDest reply =>
    unfold Run.step
    dsimp only
    rw [if_pos (hne rfl)]
  | countMerged reply =>
    unfold Run.step
    dsimp only
    split
    · rename_i existing hphase
      exact absurd hphase (hne rfl)
    · rfl
  | countStaged reply =>
    unfold Run.step
    dsimp only
    split
    · rename_i existing destMerged hphase
      exact absurd hphase (hne rfl)
    · rfl
  | checkFatal => rw [Run.step, if_neg (hne rfl)]
  | swap answered => rw [Run.step, if_neg (hne rfl)]
  | dropStaging answered => rw [Run.step, if_neg (hne rfl)]
  | cleanup answered =>
    rw [Run.step]
    split
    · rename_i error hphase
      exact absurd hphase (hne rfl)
    · rfl
  | fail => rw [Run.step, if_neg (hne rfl)]
  | crash => rw [Run.step, if_pos h]

theorem rowsWritten_eq (h : ∀ i ∈ r.inserts, i.acked = true) : r.rowsWritten = r.rowsRead.length := by
  unfold Run.rowsWritten Run.rowsRead
  rw [List.filter_eq_self.mpr h, List.length_flatMap]

/-! ### One refresh after the other -/

/-- A refresh starts when the others have ended, may not shrink the table, counts it, and sends no insert that the server takes
for another one; no exchange is executed late. -/
def OneByOne (e : Engine ρ) (w : World ρ) : Event ρ → Prop
  | .start refresh _ => (∀ r ∈ w.runs, r.phase.ended = true) ∧ refresh.allowFullRefreshShrink = false ∧
    refresh.sink.KeepsEach e
  | .run _ (.countDest reply) => reply = .read
  | .run _ _ => True
  | .arrive k => ∀ c, w.net.late[k]? = some c → c.exchanges = false

structure Alone (e : Engine ρ) (w : World ρ) : Prop where
  settings : ∀ r ∈ w.runs, r.refresh.allowFullRefreshShrink = false ∧
    r.refresh.sink.KeepsEach e
  alone : ∀ r ∈ w.runs, ∀ r' ∈ w.runs, r.phase.ended = false → r'.phase.ended = false → r = r'
  weighs : ∀ r ∈ w.runs, Weighs w.net.server r

theorem not_ended_of_weighed {phase : Phase} (h : phase.weighed = true) : phase.ended = false := by
  cases phase <;> first | rfl | cases h

/-- A refresh that has ended has nothing to exchange. -/
theorem weighs_of_ended {s : Server ρ} (h : r.phase.ended = true) : Weighs s r := by
  refine weighs_of_not ?_
  cases hweighed : r.phase.weighed with
  | false => rfl
  | true =>
    rw [not_ended_of_weighed hweighed] at h
    cases h

/-- A statement other than an exchange leaves the number of the destination's rows. -/
theorem rowsIn_executed {s s' : Server ρ} {c : Statement ρ} {dest x : String} (hexec : execute e s c = some s')
    (hc : c = .createTable dest ∨ c.OfRun dest x) (hx : x ≠ dest) (hexchanges : c.exchanges = false) :
    rowsIn s' dest = rowsIn s dest := by
  unfold rowsIn
  rcases execute_dest hexec hc hx with ⟨-, hsame | ⟨hnone, hempty⟩⟩ | ⟨new, rfl, -⟩
  · rw [hsame]
  · rw [hnone, hempty]
    rfl
  · cases hexchanges

theorem rowsIn_call {c : Statement ρ} {answered : Bool} {dest x : String} (hcall : n.call (execute e) c answered = some n')
    (hc : c = .createTable dest ∨ c.OfRun dest x) (hx : x ≠ dest) (hexchanges : c.exchanges = false) :
    rowsIn n'.server dest = rowsIn n.server dest := by
  rcases call_cases hcall with ⟨-, hexec, -⟩ | ⟨-, hserver, -⟩
  · exact rowsIn_executed hexec hc hx hexchanges
  · rw [hserver]

theorem Weighs.congr {s s' : Server ρ} (h : Weighs s r) (hrows : rowsIn s' r.dest = rowsIn s r.dest) : Weighs s' r :=
  ⟨h.counting, h.notStaged, fun hphase => by rw [hrows]; exact h.guarded hphase⟩

/-- What an exchange puts in place is no fewer rows than the guard let pass. -/
theorem rowsIn_exchanged {w : World ρ} {initial : Option (Table ρ)} (hw : Inv e initial w) (halone : Alone e w)
    (hr : r ∈ w.runs) (hphase : r.phase = .checked) {answered : Bool}
    (hcall : w.net.call (execute e) (.exchangeTables r.dest r.staging) answered = some n') :
    rowsIn w.net.server w.dest ≤ rowsIn n'.server w.dest := by
  rcases call_cases hcall with ⟨-, hexec, -⟩ | ⟨-, hserver, -⟩
  · have hinv := hw.runs r hr
    have hacked := hinv.acked (.inl (by rw [hphase]; rfl))
    rw [hw.dests r hr] at hexec
    obtain ⟨old, new, -, hnew, hserver⟩ := execute_exchange hexec
    have hwhole := (hinv.held (hinv.not_swapped (by rw [hphase]; rfl)) new hnew).whole hinv.numbered hacked
    have hrows : rowsIn n'.server w.dest = new.rows.length := by
      unfold rowsIn
      rw [hserver]
      dsimp only
      rw [Function.update_of_ne (staging_ne_dest (hw.dests r hr)).symm, Function.update_self]
      rfl
    calc rowsIn w.net.server w.dest ≤ r.rowsWritten := by
          rw [← hw.dests r hr]
          exact (halone.weighs r hr).guarded (.inr hphase)
      _ = r.rowsRead.length := rowsWritten_eq hacked
      _ ≤ new.rows.length := (hwhole.all (halone.settings r hr).2).length_le
      _ = rowsIn n'.server w.dest := hrows.symm
  · rw [hserver]

theorem run_alone {w : World ρ} {initial : Option (Table ρ)} (hmerged : e.merged = none) (hw : Inv e initial w)
    (halone : Alone e w) {k : Nat} (hr : w.runs[k]? = some r) {event : RunEvent ρ}
    (hread : ∀ reply, event = .countDest reply → reply = .read) (h : r.step e w.net event = some (n', r')) :
    Alone e { w with net := n', runs := w.runs.set k r' } ∧ rowsIn w.net.server w.dest ≤ rowsIn n'.server w.dest := by
  have hmem := List.mem_of_getElem? hr
  have hspec := step_spec (hw.runs r hmem) h
  have hdest := hw.dests r hmem
  have hne := staging_ne_dest hdest
  have hactive : r.phase.ended = false := by
    cases hended : r.phase.ended with
    | false => rfl
    | true =>
      rw [step_ended hended] at h
      cases h
  have hothers : ∀ r₀ ∈ w.runs, r.staging ≠ r₀.staging → r₀.phase.ended = true := by
    intro r₀ hr₀ hother
    cases hended : r₀.phase.ended with
    | true => rfl
    | false => exact absurd (congrArg Run.staging (halone.alone r hmem r₀ hr₀ hactive hended)) hother
  refine ⟨⟨fun r₀ hr₀ => ?_, fun r₀ hr₀ r₁ hr₁ h₀ h₁ => ?_, fun r₀ hr₀ => ?_⟩, ?_⟩
  · rcases mem_set_cases hw.names hr hr₀ with rfl | ⟨hr₀, -⟩
    · rw [hspec.refresh]
      exact halone.settings r hmem
    · exact halone.settings r₀ hr₀
  · rcases mem_set_cases hw.names hr hr₀ with rfl | ⟨hr₀, hother₀⟩
    · rcases mem_set_cases hw.names hr hr₁ with rfl | ⟨hr₁, hother₁⟩
      · rfl
      · rw [hothers r₁ hr₁ hother₁] at h₁
        cases h₁
    · rw [hothers r₀ hr₀ hother₀] at h₀
      cases h₀
  · rcases mem_set_cases hw.names hr hr₀ with rfl | ⟨hr₀, hother⟩
    · rcases weighs_step hmerged (halone.settings r hmem).1 (halone.weighs r hmem) hread h with hnot | ⟨rfl, hweighs⟩
      · exact weighs_of_not hnot
      · exact hweighs
    · exact weighs_of_ended (hothers r₀ hr₀ hother)
  · rcases hspec.net with rfl | ⟨c, answered, hcall, hc, hswap⟩
    · exact Nat.le_refl _
    · cases hexchanges : c.exchanges with
      | false =>
        rw [hdest] at hc
        exact Nat.le_of_eq (rowsIn_call hcall hc hne hexchanges).symm
      | true =>
        obtain ⟨d, x, rfl⟩ : ∃ d x, c = .exchangeTables d x := by
          cases c <;> first | exact ⟨_, _, rfl⟩ | cases hexchanges
        obtain ⟨rfl, hphase, -⟩ := hswap d x rfl
        obtain rfl : d = r.dest := by
          rcases hc with hc | ⟨-, hc⟩
          · cases hc
          · exact hc d _ rfl
        exact rowsIn_exchanged hw halone hmem hphase hcall

theorem alone_step {w w' : World ρ} {initial : Option (Table ρ)} {event : Event ρ} (hmerged : e.merged = none)
    (hw : Inv e initial w) (halone : Alone e w) (hone : OneByOne e w event) (h : step e w event = some w') :
    Alone e w' ∧ rowsIn w.net.server w.dest ≤ rowsIn w'.net.server w.dest := by
  cases event with
  | start refresh epoch =>
    rw [step] at h
    split_ifs at h
    obtain rfl := Option.some.inj h
    obtain ⟨hended, hsettings⟩ := hone
    refine ⟨⟨fun r hr => ?_, fun r hr r' hr' h₀ h₁ => ?_, fun r hr => ?_⟩, Nat.le_refl _⟩
    · rcases List.mem_append.mp hr with hr | hr
      · exact halone.settings r hr
      · rw [List.mem_singleton.mp hr]
        exact hsettings
    · rcases List.mem_append.mp hr with hr | hr
      · rw [hended r hr] at h₀
        cases h₀
      · rcases List.mem_append.mp hr' with hr' | hr'
        · rw [hended r' hr'] at h₁
          cases h₁
        · rw [List.mem_singleton.mp hr, List.mem_singleton.mp hr']
    · rcases List.mem_append.mp hr with hr | hr
      · exact halone.weighs r hr
      · rw [List.mem_singleton.mp hr]
        exact weighs_of_not rfl
  | run k event =>
    rw [step] at h
    split at h
    · rename_i r hr
      obtain ⟨⟨n, r'⟩, hstep, rfl⟩ := Option.map_eq_some_iff.mp h
      refine run_alone hmerged hw halone hr ?_ hstep
      rintro reply rfl
      exact hone
    · cases h
  | arrive k =>
    obtain ⟨n, harrive, rfl⟩ := Option.map_eq_some_iff.mp h
    have hrows : rowsIn n.server w.dest = rowsIn w.net.server w.dest := by
      obtain ⟨c, hc, rfl⟩ := Option.map_eq_some_iff.mp harrive
      dsimp only
      cases hexec : execute e w.net.server c with
      | none => rfl
      | some s =>
        rcases hw.late c (List.mem_of_getElem? hc) with rfl | ⟨r, hr, hrun⟩
        · exact rowsIn_executed (x := w.dest ++ "_") hexec (.inl rfl) (by simp) rfl
        · exact rowsIn_executed hexec (.inr hrun) (staging_ne_dest (hw.dests r hr)) (hone c hc)
    refine ⟨⟨halone.settings, halone.alone, fun r hr => (halone.weighs r hr).congr ?_⟩, Nat.le_of_eq hrows.symm⟩
    rw [hw.dests r hr]
    exact hrows

/-- Full refreshes of a table whose engine keeps every row, one after the other, none of which may shrink the table, each of
which can count it and keeps its inserts apart, with no exchange that comes late: the destination never holds fewer rows than
at first. -/
theorem refresh_never_shrinks {w₀ w : World ρ} (hmerged : e.merged = none) (hruns : w₀.runs = []) (hlate : w₀.net.late = [])
    (hlog : w₀.net.server.exchanged = []) {events : List (Event ρ)} (hone : Along (step e) (OneByOne e) w₀ events)
    (h : exec (step e) w₀ events = some w) : rowsIn w₀.net.server w₀.dest ≤ rowsIn w.net.server w₀.dest := by
  have hnone : ∀ r, r ∉ w₀.runs := by
    intro r
    rw [hruns]
    exact List.not_mem_nil
  have halone : Alone e w₀ :=
    ⟨fun r hr => absurd hr (hnone r), fun r hr => absurd hr (hnone r), fun r hr => absurd hr (hnone r)⟩
  have hall := @exec_invariant_along _ _ (step e)
    (fun w => (Inv e (w₀.net.server.tables w₀.dest) w ∧ Alone e w) ∧ w.dest = w₀.dest ∧
      rowsIn w₀.net.server w₀.dest ≤ rowsIn w.net.server w₀.dest) (OneByOne e) (fun w event w' hs hevent hstep => by
        obtain ⟨⟨hinv, halone⟩, hdest, hrows⟩ := hs
        obtain ⟨halone', hless⟩ := alone_step hmerged hinv halone hevent hstep
        rw [hdest] at hless
        exact ⟨⟨step_inv hinv hstep, halone'⟩, (step_dest hstep).trans hdest, hrows.trans hless⟩)
    _ _ _ ⟨⟨start_of_empty hruns hlate hlog, halone⟩, rfl, Nat.le_refl _⟩ hone h
  exact hall.2.2

end

/-- Two rows are replaced by three. -/
def growingRefresh : List (Event Nat) :=
  [.run 0 (.probe true), .run 0 (.createStaging true), .run 0 (.read [3, 4]), .run 0 (.read [5]),
    .run 0 (.attempt 1 (some 200)), .run 0 (.attempt 0 (some 200)), .run 0 .readDone, .run 0 (.validate true),
    .run 0 (.countDest .read), .run 0 .checkFatal, .run 0 (.swap true), .run 0 (.dropStaging true)]

theorem growing_refresh_grows : ∃ w, exec (step clickHouse) ordersWorld (.start nightlyRefresh 0 :: growingRefresh) = some w ∧
    rowsIn ordersWorld.net.server "orders" = 2 ∧ rowsIn w.net.server "orders" = 3 ∧
    rowsIn ordersWorld.net.server "orders" ≤ rowsIn w.net.server "orders" := by
  have hrun : (exec (step clickHouse) ordersWorld (.start nightlyRefresh 0 :: growingRefresh)).map
      (fun w => rowsIn w.net.server "orders") = some 3 := by decide +kernel
  obtain ⟨w, hw, hrows⟩ := Option.map_eq_some_iff.mp hrun
  have hone : Along (step clickHouse) (OneByOne clickHouse) ordersWorld (.start nightlyRefresh 0 :: growingRefresh) := by
    refine ⟨⟨fun r hr => absurd hr List.not_mem_nil, rfl, .inr ⟨rfl, rfl⟩⟩, fun w _ => along_of_forall (fun event hevent _ => ?_) w⟩
    unfold growingRefresh at hevent
    simp only [List.mem_cons, List.not_mem_nil, or_false] at hevent
    rcases hevent with rfl | rfl | rfl | rfl | rfl | rfl | rfl | rfl | rfl | rfl | rfl | rfl <;> trivial
  exact ⟨w, hw, rfl, hrows, refresh_never_shrinks rfl rfl rfl rfl hone hw⟩

end Quickhouse.FullRefresh
