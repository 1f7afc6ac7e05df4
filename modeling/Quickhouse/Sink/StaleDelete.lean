import Mathlib
import Quickhouse.Sink.NewestWins

/-!
# The delete of stale rows in the staged window

The promote step of an incremental run with `delete_stale_in_window` replaces a window: it removes the
destination rows between the smallest and the largest staged watermark whose key the batch does not hold.
ClickHouse does it with a statement of its own before the insert, BigQuery inside the MERGE.
`promote_replacesWindow` says the two are one operation.

The window is taken in the destination's type, the read was bounded in the source's.  `stale_delete_iff`: no live
row is deleted exactly when no source row the read left out becomes, in the destination's type, the watermark of
a row it returned.
-/

namespace Quickhouse

open Sql Keyed Text

variable {V W : Type} [LinearOrder V] [LinearOrder W]

/-! ### The promote step -/

/-- How a destination folds column names. -/
def destFold : DestKind → String → String
  | .bigQuery => asciiLower
  | .clickHouse | .csv => id

/-- The rows of the destination that stay when the rows of the staged window that the batch does not hold are
deleted. -/
def deleteStaleAgainstStaging (dest staged : List (Row V)) (key : List String) (windowColumn : String) :
    Except String (List (Row V)) :=
  if key = [] then
    .error ("delete_stale_against_staging called with an empty key (should have been validated before " ++
      "staging began)")
  else if staged.length = 0 then .ok dest
  else
    match minValue (staged.map (· windowColumn)), maxValue (staged.map (· windowColumn)) with
    | some lo, some hi => .ok <| dest.filter fun t =>
        !(between3 (t windowColumn) lo hi = some true && keyOf id key t ∉ staged.map (keyOf id key))
    | _, _ => .ok dest

def insertSelect (dest staged : List (Row V)) (columns : List String) : List (Row V) :=
  dest ++ staged.map fun s c => if c ∈ columns then s c else none

/-- The destination after the promote step of an incremental run.  `probed` and `merged` are the orders in which
the probes and the MERGE meet the staged rows. -/
def promoteStagedIncremental (kind : DestKind) (cfg : TransferConfig) (columns : List String)
    (probes : ProbeResults) (probed merged dest staged : List (Row V)) : Except String (List (Row V)) :=
  match kind with
  | .bigQuery => do
    let stmt ← mergeInto asciiLower cfg.key columns (promoteOptions cfg) probes probed
    match stmt.run asciiLower dest merged with
    | some dest' => .ok dest'
    | none => .error "UPDATE/MERGE must match at most one source row for each target row"
  | .clickHouse => do
    let remaining ← if cfg.deleteStaleInWindow then
        match cfg.mergePrunePartitionBy with
        | some window => deleteStaleAgainstStaging dest staged cfg.key window
        | none => .error ("delete_stale_in_window without merge_prune_partition_by (should have been " ++
            "validated)")
      else .ok dest
    .ok (insertSelect remaining staged columns)
  | .csv =>
    if cfg.deleteStaleInWindow then
      .error "delete_stale_against_staging: this destination does not support row deletes"
    else .ok (insertSelect dest staged columns)

/-! ### Replacing a window -/

/-- The value lies between two staged ones. -/
def InWindow (staged : List (Option V)) (x : Option V) : Prop :=
  ∃ lo hi v, some lo ∈ staged ∧ some hi ∈ staged ∧ x = some v ∧ lo ≤ v ∧ v ≤ hi

/-- `dest'` is `dest` with the staged window replaced: of the rows whose key the batch does not hold, the ones in
the window are gone and the others are as they were. -/
structure ReplacesWindow (fold : String → String) (key : List String) (window : String)
    (dest staged dest' : List (Row V)) : Prop where
  rest : ∀ t ∈ dest, keyOf fold key t ∉ staged.map (keyOf fold key) →
    (t ∈ dest' ↔ ¬ InWindow (staged.map (· (fold window))) (t (fold window)))
  landed : ∀ k ∈ staged.map (keyOf fold key), k ∈ dest'.map (keyOf fold key)
  empty : staged = [] → dest' = dest

theorem inWindow_iff {staged : List (Option V)} {x : Option V} {lo hi : V} (hlo : minValue staged = some lo)
    (hhi : maxValue staged = some hi) : between3 x lo hi = some true ↔ InWindow staged x := by
  rw [between3_eq_true]
  constructor
  · rintro ⟨v, hv, h1, h2⟩
    exact ⟨lo, hi, v, minValue_mem hlo, maxValue_mem hhi, hv, h1, h2⟩
  · rintro ⟨a, b, v, ha, hb, hv, h1, h2⟩
    exact ⟨v, hv, (minValue_le hlo ha).trans h1, h2.trans (le_maxValue hhi hb)⟩

theorem not_inWindow {staged : List (Option V)} (x : Option V)
    (h : minValue staged = none ∨ maxValue staged = none) : ¬ InWindow staged x := by
  rintro ⟨a, b, v, ha, -⟩
  obtain ⟨lo, hi, hlo, hhi⟩ := exists_minValue ha
  rcases h with h | h
  · rw [h] at hlo
    exact absurd hlo (by simp)
  · rw [h] at hhi
    exact absurd hhi (by simp)

theorem inWindow_perm {a b : List (Option V)} (h : a.Perm b) (x : Option V) : InWindow a x ↔ InWindow b x := by
  simp only [InWindow, h.mem_iff]

section

variable {cfg : TransferConfig} {plan : SelectPlan} {probes : ProbeResults} {names : List String}
  {dest staged probed merged dest' : List (Row V)} {window : String}

private theorem clickHouse_replacesWindow (hkey : ∀ k ∈ cfg.key, k ∈ plan.destColumns)
    (hd : cfg.deleteStaleInWindow = true) (hwindow : cfg.mergePrunePartitionBy = some window)
    (h : promoteStagedIncremental .clickHouse cfg plan.destColumns probes probed merged dest staged = .ok dest') :
    ReplacesWindow id cfg.key window dest staged dest' := by
  -- the rows that stay, then the staged ones
  obtain ⟨remaining, hrem, rfl⟩ : ∃ remaining, deleteStaleAgainstStaging dest staged cfg.key window = .ok remaining ∧
      insertSelect remaining staged plan.destColumns = dest' := by
    simp only [promoteStagedIncremental, hd, if_true, hwindow] at h
    cases hrem : deleteStaleAgainstStaging dest staged cfg.key window with
    | error e =>
      rw [hrem] at h
      cases h
    | ok remaining =>
      rw [hrem] at h
      exact ⟨remaining, rfl, Except.ok.inj h⟩
  have hproj : ∀ s, keyOf id cfg.key (fun c => if c ∈ plan.destColumns then s c else none : Row V) =
      keyOf id cfg.key s := by
    intro s
    rw [keyOf_eq_iff]
    intro k hk
    show (if k ∈ plan.destColumns then s k else none) = s k
    rw [if_pos (hkey k hk)]
  have hstay : ∀ t ∈ dest, keyOf id cfg.key t ∉ staged.map (keyOf id cfg.key) →
      (t ∈ remaining ↔ ¬ InWindow (staged.map (· window)) (t window)) := by
    intro t ht hk
    unfold deleteStaleAgainstStaging at hrem
    split_ifs at hrem with hnil hlen
    · obtain rfl := Except.ok.inj hrem
      have : staged = [] := List.length_eq_zero_iff.mp hlen
      subst this
      exact ⟨fun _ => not_inWindow _ (Or.inl rfl), fun _ => ht⟩
    · cases hlo : minValue (staged.map (· window)) with
      | none =>
        rw [hlo] at hrem
        obtain rfl := Except.ok.inj hrem
        exact ⟨fun _ => not_inWindow _ (Or.inl hlo), fun _ => ht⟩
      | some lo =>
        cases hhi : maxValue (staged.map (· window)) with
        | none =>
          rw [hlo, hhi] at hrem
          obtain rfl := Except.ok.inj hrem
          exact ⟨fun _ => not_inWindow _ (Or.inr hhi), fun _ => ht⟩
        | some hi =>
          rw [hlo, hhi] at hrem
          obtain rfl := Except.ok.inj hrem
          rw [List.mem_filter, ← inWindow_iff hlo hhi]
          simp only [ht, hk, true_and, not_false_eq_true, decide_true, Bool.and_true, Bool.not_eq_true',
            decide_eq_false_iff_not]
  refine ⟨fun t ht hk => ?_, fun k hk => ?_, fun hnil => ?_⟩
  · refine Iff.trans ?_ (hstay t ht hk)
    unfold insertSelect
    rw [List.mem_append]
    refine ⟨fun hmem => hmem.resolve_right (fun hins => ?_), Or.inl⟩
    obtain ⟨s, hs, rfl⟩ := List.mem_map.mp hins
    rw [hproj] at hk
    exact hk (List.mem_map_of_mem hs)
  · obtain ⟨s, hs, rfl⟩ := List.mem_map.mp hk
    rw [← hproj s]
    exact List.mem_map_of_mem (List.mem_append_right _ (List.mem_map_of_mem hs))
  · subst hnil
    unfold deleteStaleAgainstStaging at hrem
    split_ifs at hrem with hkn hlen
    · obtain rfl := Except.ok.inj hrem
      simp [insertSelect]
    · simp at hlen

private theorem bigQuery_replacesWindow (hkey : ∀ k ∈ cfg.key, asciiLower k ∈ plan.destColumns.map asciiLower)
    (hd : (promoteOptions cfg).deleteStale = true) (hwindow : cfg.mergePrunePartitionBy = some window)
    (hprobed : probed.Perm staged) (hmerged : merged.Perm staged)
    (h : promoteStagedIncremental .bigQuery cfg plan.destColumns probes probed merged dest staged = .ok dest') :
    ReplacesWindow asciiLower cfg.key window dest staged dest' := by
  obtain ⟨stmt, hstmt, hrun⟩ : ∃ stmt, mergeInto asciiLower cfg.key plan.destColumns (promoteOptions cfg) probes
      probed = .ok stmt ∧ stmt.run asciiLower dest merged = some dest' := by
    simp only [promoteStagedIncremental] at h
    cases hstmt : mergeInto asciiLower cfg.key plan.destColumns (promoteOptions cfg) probes probed with
    | error e =>
      rw [hstmt] at h
      cases h
    | ok stmt =>
      rw [hstmt] at h
      refine ⟨stmt, rfl, ?_⟩
      cases hr : stmt.run asciiLower dest merged with
      | none =>
        simp only [bind, Except.bind, hr] at h
        cases h
      | some d =>
        simp only [bind, Except.bind, hr] at h
        rw [Except.ok.inj h]
  have hb := mergeInto_spec hstmt
  have hkept := hb.mem_kept_keys hmerged
  have hkeep := hb.keepsKeys hkey
  have hdelete : ∀ t : Row V, (stmt.toMerge asciiLower).delete t = true ↔
      InWindow (staged.map (· (asciiLower window))) (t (asciiLower window)) := by
    intro t
    have hdel := hb.delete_eq
    rw [hd, if_pos rfl] at hdel
    rw [← inWindow_perm (hprobed.map _)]
    have hbounds := mergeInto_bounds hstmt hd hwindow
    cases hlo : minValue (probed.map (· (asciiLower window))) with
    | none =>
      have hnone : stmt.deleteBound = none := by
        rw [hdel]
        simp [pruneBound, promoteOptions, hwindow, hlo]
      simp only [MergeStatement.toMerge, hnone, Bool.false_eq_true, false_iff]
      exact not_inWindow _ (Or.inl hlo)
    | some lo =>
      cases hhi : maxValue (probed.map (· (asciiLower window))) with
      | none =>
        have hnone : stmt.deleteBound = none := by
          rw [hdel]
          simp [pruneBound, promoteOptions, hwindow, hlo, hhi]
        simp only [MergeStatement.toMerge, hnone, Bool.false_eq_true, false_iff]
        exact not_inWindow _ (Or.inr hhi)
      | some hi =>
        have hsome : stmt.deleteBound = some (.between window lo hi) := by
          rw [hdel]
          simp [pruneBound, promoteOptions, hwindow, hlo, hhi, hbounds]
        rw [← inWindow_iff hlo hhi]
        simp only [MergeStatement.toMerge, hsome, MergeCond.eval]
        exact decide_eq_true_iff
  unfold MergeStatement.run Merge.run at hrun
  split_ifs at hrun
  obtain rfl := Option.some.inj hrun
  have hon : (stmt.toMerge asciiLower).JoinsEqualKeys (keyOf asciiLower cfg.key) (keyOf asciiLower cfg.key) dest
      (stmt.kept asciiLower merged) := fun t _ s _ => hb.keyOf_eq_of_on
  have hrow : ∀ t ∈ dest, keyOf asciiLower cfg.key t ∉ staged.map (keyOf asciiLower cfg.key) →
      (stmt.toMerge asciiLower).targetRow (stmt.kept asciiLower merged) t =
        if (stmt.toMerge asciiLower).delete t then none else some t := by
    intro t ht hk
    exact Merge.targetRow_of_rest hon ht (fun hmem => hk ((hkept _).mp hmem))
  refine ⟨fun t ht hk => ?_, fun k hk => ?_, fun hnil => ?_⟩
  · rw [← hdelete]
    constructor
    · intro hmem hdel
      rcases List.mem_append.mp hmem with hold | hnew
      · obtain ⟨t', ht', hrow'⟩ := List.mem_filterMap.mp hold
        have hk' := Merge.targetRow_key hon hkeep ht' hrow'
        rw [hrow t' ht' (hk' ▸ hk)] at hrow'
        split_ifs at hrow' with hdel'
        rw [Option.some.inj hrow'] at hdel'
        exact hdel' hdel
      · obtain ⟨s, hs, rfl⟩ := List.mem_map.mp hnew
        rw [hkeep.insert s] at hk
        exact hk ((hkept _).mp (List.mem_map_of_mem (List.mem_filter.mp hs).1))
    · intro hdel
      refine List.mem_append_left _ (List.mem_filterMap.mpr ⟨t, ht, ?_⟩)
      rw [hrow t ht hk, if_neg hdel]
  · exact Merge.source_key_mem hon hkeep ((hkept k).mpr hk)
  · subst hnil
    obtain rfl := List.perm_nil.mp hmerged
    have hsome : ∀ t ∈ dest, (stmt.toMerge asciiLower).targetRow (stmt.kept asciiLower []) t = some t := by
      intro t ht
      rw [hrow t ht (by simp), if_neg]
      rw [hdelete]
      exact not_inWindow _ (Or.inl rfl)
    have hnew : (stmt.toMerge asciiLower).unmatched dest (stmt.kept asciiLower []) = [] := rfl
    unfold Merge.result
    rw [List.filterMap_congr hsome, hnew, List.filterMap_some, List.map_nil, List.append_nil]

/-- On both destinations the promote step replaces the staged window. -/
theorem promote_replacesWindow {kind : DestKind} (hplan : TransferConfig.planForDestination names cfg kind = .ok plan)
    (hvalid : cfg.validateFor .db kind = .ok ()) (hd : cfg.deleteStaleInWindow = true)
    (hwindow : cfg.mergePrunePartitionBy = some window) (hprobed : probed.Perm staged)
    (hmerged : merged.Perm staged)
    (h : promoteStagedIncremental kind cfg plan.destColumns probes probed merged dest staged = .ok dest') :
    ReplacesWindow (destFold kind) cfg.key window dest staged dest' := by
  obtain ⟨-, hkeys⟩ := TransferConfig.planForDestination_eq_ok hplan
  cases kind with
  | clickHouse =>
    refine clickHouse_replacesWindow (fun k hk => ?_) hd hwindow h
    obtain ⟨c, hc, hsame⟩ := hkeys k hk
    rw [← of_decide_eq_true hsame]
    exact hc
  | bigQuery =>
    refine bigQuery_replacesWindow (fun k hk => ?_) ?_ hwindow hprobed hmerged h
    · obtain ⟨c, hc, hsame⟩ := hkeys k hk
      exact List.mem_map.mpr ⟨c, hc, of_decide_eq_true hsame⟩
    · obtain ⟨-, hchunk, -⟩ := TransferConfig.validateFor_deleteStale hvalid hd (by simp)
      simp [promoteOptions, hchunk, hd]
  | csv =>
    simp only [promoteStagedIncremental, hd, if_true] at h
    cases h

end

/-! ### The read that was staged -/

/-- A source row: its key as the destination holds it, and its watermark in the source's own type. -/
structure SourceRow (W V : Type) where
  key : List (Option V)
  watermark : Option W

/-- One incremental read: rows past the cursor, set back by the lookback, up to the frozen upper bound. -/
structure WindowRead (W V : Type) [LinearOrder W] where
  source : List (SourceRow W V)
  unique : (source.map (·.key)).Nodup
  cursor : Option W
  rewind : W → W
  upper : Option W
  /-- An unbounded read returns the rows without a watermark too. -/
  readsNull : Bool

/-- The read's filter admits the row. -/
def WindowRead.reads (r : WindowRead W V) (x : SourceRow W V) : Bool :=
  match x.watermark with
  | none => r.readsNull
  | some w => (r.cursor.map r.rewind).all (· < w) && r.upper.all (w ≤ ·)

/-- The staged rows are the rows read, each once or more, their watermarks converted to the destination's
type. -/
structure StagesRead (fold : String → String) (key : List String) (window : String) (convert : W → V)
    (r : WindowRead W V) (staged : List (Row V)) : Prop where
  sound : ∀ s ∈ staged, ∃ x ∈ r.source, r.reads x = true ∧ keyOf fold key s = x.key ∧
    s (fold window) = x.watermark.map convert
  complete : ∀ x ∈ r.source, r.reads x = true → ∃ s ∈ staged, keyOf fold key s = x.key

/-- The destination's rows of live keys hold their watermark, converted: it never changes for a key. -/
def HoldsWatermarks (fold : String → String) (key : List String) (window : String) (convert : W → V)
    (source : List (SourceRow W V)) (dest : List (Row V)) : Prop :=
  ∀ t ∈ dest, ∀ x ∈ source, keyOf fold key t = x.key → t (fold window) = x.watermark.map convert

/-- A source row the read left out, present in the destination, whose watermark becomes that of a row read. -/
def LeftOutAtEdge (fold : String → String) (key : List String) (convert : W → V) (r : WindowRead W V)
    (dest : List (Row V)) : Prop :=
  ∃ x ∈ r.source, r.reads x = false ∧ x.key ∈ dest.map (keyOf fold key) ∧
    ∃ y ∈ r.source, r.reads y = true ∧ x.watermark.map convert = y.watermark.map convert ∧ x.watermark ≠ none

/-- Only rows whose key the source no longer has are gone: a live row is as it was unless the batch holds its
key, rows outside the window are untouched, an empty batch changes nothing. -/
structure DeletesOnlyGone (fold : String → String) (key : List String) (window : String)
    (source : List (SourceRow W V)) (dest staged dest' : List (Row V)) : Prop where
  live : ∀ t ∈ dest, keyOf fold key t ∈ source.map (·.key) →
    t ∈ dest' ∨ (keyOf fold key t ∈ staged.map (keyOf fold key) ∧ keyOf fold key t ∈ dest'.map (keyOf fold key))
  outside : ∀ t ∈ dest, keyOf fold key t ∉ staged.map (keyOf fold key) →
    ¬ InWindow (staged.map (· (fold window))) (t (fold window)) → t ∈ dest'
  empty : staged = [] → dest' = dest

section

variable {fold : String → String} {key : List String} {window : String} {convert : W → V}
  {r : WindowRead W V} {dest staged dest' : List (Row V)}

omit [LinearOrder V] in
/-- A row left out lies below every row read, or above every one. -/
private theorem left_out {x : SourceRow W V} {wx : W} (hx : r.reads x = false) (hwx : x.watermark = some wx) :
    (∀ z, r.reads z = true → ∀ wz, z.watermark = some wz → wx < wz) ∨
      (∀ z, r.reads z = true → ∀ wz, z.watermark = some wz → wz < wx) := by
  have hreads : ∀ z wz, z.watermark = some wz → (r.reads z = true ↔
      (∀ l, r.cursor.map r.rewind = some l → l < wz) ∧ ∀ u, r.upper = some u → wz ≤ u) := by
    intro z wz hwz
    simp only [WindowRead.reads, hwz, Bool.and_eq_true, Option.all_eq_true, decide_eq_true_eq]
  rw [← Bool.not_eq_true, hreads x wx hwx, not_and_or] at hx
  rcases hx with hx | hx
  · left
    push Not at hx
    obtain ⟨l, hl, hle⟩ := hx
    intro z hz wz hwz
    exact hle.trans_lt (((hreads z wz hwz).mp hz).1 l hl)
  · right
    push Not at hx
    obtain ⟨u, hu, hlt⟩ := hx
    intro z hz wz hwz
    exact (((hreads z wz hwz).mp hz).2 u hu).trans_lt hlt

omit [LinearOrder V] in
/-- Each staged value of the window column is a read row's watermark, converted. -/
private theorem staged_value (hs : StagesRead fold key window convert r staged) {v : V}
    (hv : some v ∈ staged.map (· (fold window))) :
    ∃ z ∈ r.source, r.reads z = true ∧ ∃ wz, z.watermark = some wz ∧ convert wz = v := by
  obtain ⟨s, hmem, hsv⟩ := List.mem_map.mp hv
  obtain ⟨z, hz, hread, -, hwz⟩ := hs.sound s hmem
  rw [hsv] at hwz
  obtain ⟨wz, hwz, hconv⟩ := Option.map_eq_some_iff.mp hwz.symm
  exact ⟨z, hz, hread, wz, hwz, hconv⟩

/-- A live row in the staged window whose key was not staged was left out at its edge. -/
private theorem leftOut_of_inWindow (hconv : Monotone convert) (hs : StagesRead fold key window convert r staged)
    (hold : HoldsWatermarks fold key window convert r.source dest) {t : Row V} (ht : t ∈ dest)
    {x : SourceRow W V} (hx : x ∈ r.source) (hk : keyOf fold key t = x.key)
    (hnot : keyOf fold key t ∉ staged.map (keyOf fold key))
    (hin : InWindow (staged.map (· (fold window))) (t (fold window))) : LeftOutAtEdge fold key convert r dest := by
  have hread : r.reads x = false := by
    rw [← Bool.not_eq_true]
    intro hread
    obtain ⟨s, hmem, hks⟩ := hs.complete x hx hread
    exact hnot (List.mem_map.mpr ⟨s, hmem, hks.trans hk.symm⟩)
  obtain ⟨lo, hi, v, hlo, hhi, hv, h1, h2⟩ := hin
  rw [hold t ht x hx hk] at hv
  obtain ⟨wx, hwx, rfl⟩ := Option.map_eq_some_iff.mp hv
  obtain ⟨a, ha, haread, wa, hwa, rfl⟩ := staged_value hs hlo
  obtain ⟨b, hb, hbread, wb, hwb, rfl⟩ := staged_value hs hhi
  have hkey : x.key ∈ dest.map (keyOf fold key) := List.mem_map.mpr ⟨t, ht, hk⟩
  have hne : x.watermark ≠ none := by
    rw [hwx]
    simp
  rcases left_out hread hwx with hbelow | habove
  · -- below every row read: its converted watermark can only be the smallest one
    have heq : convert wx = convert wa := le_antisymm (hconv (hbelow a haread wa hwa).le) h1
    exact ⟨x, hx, hread, hkey, a, ha, haread, by rw [hwx, hwa, Option.map_some, Option.map_some, heq], hne⟩
  · have heq : convert wx = convert wb := le_antisymm h2 (hconv (habove b hbread wb hwb).le)
    exact ⟨x, hx, hread, hkey, b, hb, hbread, by rw [hwx, hwb, Option.map_some, Option.map_some, heq], hne⟩

private theorem ReplacesWindow.deletesOnlyGone (h : ReplacesWindow fold key window dest staged dest')
    (hconv : Monotone convert) (hs : StagesRead fold key window convert r staged)
    (hold : HoldsWatermarks fold key window convert r.source dest)
    (hedge : ¬ LeftOutAtEdge fold key convert r dest) :
    DeletesOnlyGone fold key window r.source dest staged dest' where
  live := by
    intro t ht hlive
    obtain ⟨x, hx, hk⟩ := List.mem_map.mp hlive
    by_cases hstaged : keyOf fold key t ∈ staged.map (keyOf fold key)
    · exact Or.inr ⟨hstaged, h.landed _ hstaged⟩
    · refine Or.inl ((h.rest t ht hstaged).mpr (fun hin => hedge ?_))
      exact leftOut_of_inWindow hconv hs hold ht hx hk.symm hstaged hin
  outside := fun t ht hnot hout => (h.rest t ht hnot).mpr hout
  empty := h.empty

/-- The row left out at the edge is deleted, and the source still has it. -/
private theorem ReplacesWindow.deletes_live (h : ReplacesWindow fold key window dest staged dest')
    (hs : StagesRead fold key window convert r staged)
    (hold : HoldsWatermarks fold key window convert r.source dest)
    (hedge : LeftOutAtEdge fold key convert r dest) :
    ¬ DeletesOnlyGone fold key window r.source dest staged dest' := by
  intro hgone
  obtain ⟨x, hx, hxread, hkd, y, hy, hyread, heq, hne⟩ := hedge
  obtain ⟨t, ht, hk⟩ := List.mem_map.mp hkd
  have hnot : keyOf fold key t ∉ staged.map (keyOf fold key) := by
    intro hmem
    obtain ⟨s, hmem, hks⟩ := List.mem_map.mp hmem
    obtain ⟨z, hz, hzread, hkz, -⟩ := hs.sound s hmem
    obtain rfl : z = x := eq_of_key_eq r.unique hz hx (hkz.symm.trans (hks.trans hk))
    rw [hzread] at hxread
    cases hxread
  obtain ⟨wx, hwx⟩ := Option.ne_none_iff_exists'.mp hne
  obtain ⟨s, hmem, hks⟩ := hs.complete y hy hyread
  obtain ⟨y', hy', -, hky', hsv⟩ := hs.sound s hmem
  obtain rfl : y' = y := eq_of_key_eq r.unique hy' hy (hky'.symm.trans hks)
  have hin : InWindow (staged.map (· (fold window))) (t (fold window)) := by
    have hv : some (convert wx) ∈ staged.map (· (fold window)) :=
      List.mem_map.mpr ⟨s, hmem, by rw [hsv, ← heq, hwx, Option.map_some]⟩
    refine ⟨convert wx, convert wx, convert wx, hv, hv, ?_, le_rfl, le_rfl⟩
    rw [hold t ht x hx hk, hwx, Option.map_some]
  rcases hgone.live t ht (by rw [hk]; exact List.mem_map_of_mem hx) with hmem | hmem
  · exact (h.rest t ht hnot).mp hmem hin
  · exact hnot hmem.1

end

/-- The promote step of a batch whose configuration was accepted goes through. -/
private theorem exists_promote {cfg : TransferConfig} {kind : DestKind} {columns : List String}
    (hvalid : cfg.validateFor .db kind = .ok ()) (hd : cfg.deleteStaleInWindow = true) (hkind : kind ≠ .csv)
    (hkey : cfg.key ≠ []) (dest staged : List (Row V)) :
    ∃ dest', promoteStagedIncremental kind cfg columns ⟨true, true⟩ staged staged dest staged = .ok dest' := by
  obtain ⟨-, -, -, hwindow, -⟩ := TransferConfig.validateFor_deleteStale hvalid hd (by simp)
  cases kind with
  | csv => exact absurd rfl hkind
  | clickHouse =>
    obtain ⟨remaining, hrem⟩ : ∃ remaining, deleteStaleAgainstStaging dest staged cfg.key
        (cfg.landed (cfg.watermark.getD "")) = .ok remaining := by
      unfold deleteStaleAgainstStaging
      rw [if_neg hkey]
      split_ifs
      · exact ⟨_, rfl⟩
      · split
        · exact ⟨_, rfl⟩
        · exact ⟨_, rfl⟩
    refine ⟨insertSelect remaining staged columns, ?_⟩
    simp only [promoteStagedIncremental, hd, if_true, hwindow, hrem]
    rfl
  | bigQuery =>
    obtain ⟨stmt, hstmt⟩ : ∃ stmt, mergeInto asciiLower cfg.key columns (promoteOptions cfg) ⟨true, true⟩ staged =
        .ok stmt := by
      refine exists_mergeInto asciiLower columns staged hkey (fun _ => ⟨?_, rfl⟩)
      simp [promoteOptions, hwindow]
    have h := mergeInto_spec hstmt
    have hrun : stmt.run asciiLower dest staged =
        some ((stmt.toMerge asciiLower).result dest (stmt.kept asciiLower staged)) :=
      Merge.run_eq_some (fun t _ s _ => h.keyOf_eq_of_on) (h.kept_nodup staged)
    refine ⟨(stmt.toMerge asciiLower).result dest (stmt.kept asciiLower staged), ?_⟩
    simp only [promoteStagedIncremental, hstmt, bind, Except.bind, hrun]

/-- The promote step deletes rows gone from the source only, whatever the order the rows are met in and whichever
probes go through, exactly when the read left out no row at the edge of the window it staged. -/
theorem stale_delete_iff {cfg : TransferConfig} {kind : DestKind} {plan : SelectPlan} {names : List String}
    (hvalid : cfg.validateFor .db kind = .ok ()) (hd : cfg.deleteStaleInWindow = true) (hkind : kind ≠ .csv)
    (hplan : TransferConfig.planForDestination names cfg kind = .ok plan) (hkey : cfg.key ≠ [])
    {convert : W → V} (hconv : Monotone convert) {r : WindowRead W V} {dest staged : List (Row V)}
    (hs : StagesRead (destFold kind) cfg.key (cfg.landed (cfg.watermark.getD "")) convert r staged)
    (hold : HoldsWatermarks (destFold kind) cfg.key (cfg.landed (cfg.watermark.getD "")) convert r.source dest) :
    (∀ probes probed merged dest', probed.Perm staged → merged.Perm staged →
      promoteStagedIncremental kind cfg plan.destColumns probes probed merged dest staged = .ok dest' →
      DeletesOnlyGone (destFold kind) cfg.key (cfg.landed (cfg.watermark.getD "")) r.source dest staged dest') ↔
      ¬ LeftOutAtEdge (destFold kind) cfg.key convert r dest := by
  obtain ⟨-, -, -, hwindow, -⟩ := TransferConfig.validateFor_deleteStale hvalid hd (by simp)
  constructor
  · intro hall hedge
    obtain ⟨dest', h⟩ := exists_promote hvalid hd hkind hkey dest staged
    have hperm : staged.Perm staged := List.Perm.refl staged
    have hrep := promote_replacesWindow hplan hvalid hd hwindow hperm hperm h
    exact hrep.deletes_live hs hold hedge (hall _ _ _ _ hperm hperm h)
  · intro hedge probes probed merged dest' hprobed hmerged h
    have hrep := promote_replacesWindow hplan hvalid hd hwindow hprobed hmerged h
    exact hrep.deletesOnlyGone hconv hs hold hedge

/-! ### A destination that keeps the watermark in a coarser type -/

private def coarseTransfer : TransferConfig where
  sourceTable := some "orders"
  destTable := "orders"
  mode := .incremental
  watermark := some "ts"
  key := ["id"]
  deleteStaleInWindow := true
  mergePrunePartitionBy := some "ts"

private def coarsePlan : SelectPlan where
  sourceColumns := ["id", "ts"]
  sourceSelectExprs := [none, none]
  destColumns := ["id", "ts"]

private def toTens (ts : Int) : Int := ts / 10

private theorem toTens_mono : Monotone toTens := by
  intro a b hab
  unfold toTens
  omega

/-- The cursor is past order 1 and not past order 2. -/
private def coarseRead : WindowRead Int Int where
  source := [⟨[some 1], some 103⟩, ⟨[some 2], some 107⟩]
  unique := by decide
  cursor := some 105
  rewind := id
  upper := some 107
  readsNull := false

private def coarseStaged : List (Row Int) := [Row.ofList [("id", 2), ("ts", 10)]]

private theorem coarse_stages : StagesRead id ["id"] "ts" toTens coarseRead coarseStaged where
  sound := by
    intro s hs
    obtain rfl := List.mem_singleton.mp hs
    exact ⟨⟨[some 2], some 107⟩, by simp [coarseRead], by decide, by decide, by decide⟩
  complete := by
    intro x hx hread
    simp only [coarseRead, List.mem_cons, List.not_mem_nil, or_false] at hx
    rcases hx with rfl | rfl
    · exact absurd hread (by decide)
    · exact ⟨_, List.mem_singleton_self _, by decide⟩

private theorem coarse_holds {dest : List (Row Int)}
    (hdest : ∀ t ∈ dest, keyOf id ["id"] t = [some 1] → t "ts" = some 10)
    (hnew : ∀ t ∈ dest, keyOf id ["id"] t ≠ [some 2]) :
    HoldsWatermarks id ["id"] "ts" toTens coarseRead.source dest := by
  intro t ht x hx hk
  simp only [coarseRead, List.mem_cons, List.not_mem_nil, or_false] at hx
  rcases hx with rfl | rfl
  · exact hdest t ht hk
  · exact absurd hk (hnew t ht)

/-- Order 3 is gone from the source, order 1 is not. -/
theorem stale_delete_iff_two_stored :
    (∀ probes probed merged dest', probed.Perm coarseStaged → merged.Perm coarseStaged →
      promoteStagedIncremental .clickHouse coarseTransfer coarsePlan.destColumns probes probed merged
        [Row.ofList [("id", 1), ("ts", 10)], Row.ofList [("id", 3), ("ts", 10)]] coarseStaged = .ok dest' →
      DeletesOnlyGone (destFold .clickHouse) coarseTransfer.key
        (coarseTransfer.landed (coarseTransfer.watermark.getD "")) coarseRead.source
        [Row.ofList [("id", 1), ("ts", 10)], Row.ofList [("id", 3), ("ts", 10)]] coarseStaged dest') ↔
      ¬ LeftOutAtEdge (destFold .clickHouse) coarseTransfer.key toTens coarseRead
        [Row.ofList [("id", 1), ("ts", 10)], Row.ofList [("id", 3), ("ts", 10)]] := by
  have hplan : TransferConfig.planForDestination ["id", "ts"] coarseTransfer .clickHouse = .ok coarsePlan := by rfl
  refine stale_delete_iff (by decide +kernel) rfl (by decide) hplan (by decide) toTens_mono coarse_stages ?_
  exact coarse_holds (by decide) (by decide)

/-- Order 1 was not read; its watermark 103 lands as 10, as the 107 of order 2 does, and the promote step of
either destination deletes it. -/
theorem coarse_window_deletes_live :
    Monotone toTens ∧ StagesRead id ["id"] "ts" toTens coarseRead coarseStaged ∧
      HoldsWatermarks id ["id"] "ts" toTens coarseRead.source [Row.ofList [("id", 1), ("ts", 10)]] ∧
      ∀ kind ∈ [DestKind.clickHouse, DestKind.bigQuery],
        coarseTransfer.validateFor .db kind = .ok () ∧
          TransferConfig.planForDestination ["id", "ts"] coarseTransfer kind = .ok coarsePlan ∧
          ∃ dest', promoteStagedIncremental kind coarseTransfer coarsePlan.destColumns ⟨true, true⟩ coarseStaged
              coarseStaged [Row.ofList [("id", 1), ("ts", 10)]] coarseStaged = .ok dest' ∧
            dest'.map (keyOf id ["id"]) = [[some 2]] ∧
            ¬ DeletesOnlyGone id ["id"] "ts" coarseRead.source [Row.ofList [("id", 1), ("ts", 10)]] coarseStaged
              dest' := by
  have hlive : ∀ dest' : List (Row Int), dest'.map (keyOf id ["id"]) = [[some 2]] →
      ¬ DeletesOnlyGone id ["id"] "ts" coarseRead.source [Row.ofList [("id", 1), ("ts", 10)]] coarseStaged dest' := by
    intro dest' hkeys hgone
    rcases hgone.live _ (List.mem_singleton_self _) (by decide) with hmem | ⟨hmem, -⟩
    · have hk := @List.mem_map_of_mem _ _ _ _ (keyOf id ["id"]) hmem
      rw [hkeys] at hk
      exact absurd hk (by decide)
    · exact absurd hmem (by decide)
  refine ⟨toTens_mono, coarse_stages, coarse_holds (by decide) (by decide), fun kind hkind => ?_⟩
  simp only [List.mem_cons, List.not_mem_nil, or_false] at hkind
  rcases hkind with rfl | rfl
  · exact ⟨by decide +kernel, by rfl, _, rfl, by decide, hlive _ (by decide)⟩
  · exact ⟨by decide +kernel, by rfl, _, rfl, by decide, hlive _ (by decide)⟩

end Quickhouse
