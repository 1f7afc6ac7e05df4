import Quickhouse.Sink.BigQueryMerge

/-!
# The pruned MERGE and the plain keyed upsert

`IsUpsert` says what a keyed upsert leaves: one row for each staged key, equal on the written columns to the
row the dedup kept for it, every other row as it was, and unique keys.

`merge_upsert_iff`: with the delete off the statement `mergeInto` builds is that upsert, gives the same table
as the unpruned statement and adds no row when run again, exactly when the partition bound meets no NULL.  A
staged row that is NULL under the bound joins nothing, so it is inserted even when its key is there.
-/

namespace Quickhouse

open Sql Keyed

variable {V : Type} [LinearOrder V]

/-- `dest'` is `dest` with the rows of `kept` upserted on `key`. -/
structure IsUpsert (fold : String → String) (key columns : List String) (dest staged kept dest' : List (Row V)) :
    Prop where
  kept_staged : ∀ s ∈ kept, s ∈ staged
  covered : ∀ s ∈ staged, ∃ s' ∈ kept, keyOf fold key s' = keyOf fold key s
  landed : ∀ s ∈ kept, ∃ r, dest'.filter (fun r => keyOf fold key r = keyOf fold key s) = [r] ∧
    ∀ c ∈ columns, r (fold c) = s (fold c)
  rest : dest'.filter (fun r => keyOf fold key r ∉ staged.map (keyOf fold key)) =
    dest.filter (fun r => keyOf fold key r ∉ staged.map (keyOf fold key))
  unique : (dest'.map (keyOf fold key)).Nodup

/-- Whatever order the engine meets the staged rows in, the statement of `mergeInto` is the plain upsert of
them, and running it again adds no row. -/
def MergesAsUpsert (fold : String → String) (key columns : List String) (opts : MergeOptions)
    (probes : ProbeResults) (dest staged : List (Row V)) : Prop :=
  ∀ scan, scan.Perm staged → ∃ stmt plain, mergeInto fold key columns opts probes scan = .ok stmt ∧
    buildMergeSql key columns none false false opts.dedupOrder ({} : StagingBounds V) none = .ok plain ∧
    ∀ scan₁, scan₁.Perm staged → ∃ dest₁, stmt.run fold dest scan₁ = some dest₁ ∧
      plain.run fold dest scan₁ = some dest₁ ∧
      IsUpsert fold key columns dest staged (stmt.kept fold scan₁) dest₁ ∧
      ∀ scan₂, scan₂.Perm staged →
        ∃ dest₂, stmt.run fold dest₁ scan₂ = some dest₂ ∧ dest₂.length = dest₁.length

section

variable {fold : String → String} {key columns : List String} {opts : MergeOptions} {probes : ProbeResults}
  {dest staged scan : List (Row V)} {stmt : MergeStatement V}

/-- A row the statement lands for `s` holds the written columns of `s`. -/
theorem landed_columns (h : stmt.BuiltFrom fold key columns opts probes scan) {t s : Row V}
    (hts : keyOf fold key t = keyOf fold key s) {c : String} (hc : c ∈ columns) :
    (stmt.toMerge fold).update t s (fold c) = s (fold c) ∧ (stmt.toMerge fold).insert s (fold c) = s (fold c) := by
  constructor
  · show (if fold c ∈ stmt.updateCols.map fold then s (fold c) else t (fold c)) = s (fold c)
    split_ifs with hu
    · rfl
    · by_cases hk : c ∈ key
      · exact keyOf_eq_iff.mp hts c hk
      · exact absurd (List.mem_map_of_mem (by rw [h.update_eq, List.mem_filter]; simpa using ⟨hc, hk⟩)) hu
  · show (if fold c ∈ stmt.insertCols.map fold then s (fold c) else none) = s (fold c)
    rw [if_pos (h.insert_eq ▸ List.mem_map_of_mem hc)]

/-- Under a join that is equality of keys each kept row is the one row of its key. -/
theorem landed_of_matches (h : stmt.BuiltFrom fold key columns opts probes scan)
    (hkey : ∀ k ∈ key, fold k ∈ columns.map fold) (hdest : (dest.map (keyOf fold key)).Nodup)
    {scan₁ : List (Row V)}
    (hon : (stmt.toMerge fold).MatchesByKey (keyOf fold key) (keyOf fold key) dest (stmt.kept fold scan₁))
    {s : Row V} (hs : s ∈ stmt.kept fold scan₁) :
    ∃ r, ((stmt.toMerge fold).result dest (stmt.kept fold scan₁)).filter
        (fun r => keyOf fold key r = keyOf fold key s) = [r] ∧ ∀ c ∈ columns, r (fold c) = s (fold c) := by
  have hkeep := h.keepsKeys hkey
  have hS := h.kept_nodup scan₁
  have hnd := Merge.result_keys_nodup hon hkeep hdest hS
  rcases Merge.mem_result_of_source hon hS hs with ⟨t, ht, hk, hmem⟩ | ⟨hnew, hmem⟩
  · refine ⟨_, ?_, fun c hc => (landed_columns h hk hc).1⟩
    have heq : keyOf fold key ((stmt.toMerge fold).update t s) = keyOf fold key s :=
      (hkeep.update t s hk).trans hk
    rw [← heq]
    exact filter_key_eq_singleton hnd hmem
  · refine ⟨_, ?_, fun c hc => (landed_columns h rfl hc).2⟩
    rw [← hkeep.insert s]
    exact filter_key_eq_singleton hnd hmem

private theorem delete_off (h : stmt.BuiltFrom fold key columns opts probes scan)
    (hdel : opts.deleteStale = false) (t : Row V) : (stmt.toMerge fold).delete t = false := by
  have hb := h.delete_eq
  rw [hdel] at hb
  simp only [MergeStatement.toMerge, hb]
  simp

/-- A join that is equality of keys makes the statement a keyed upsert. -/
private theorem upsert_of_matches (h : stmt.BuiltFrom fold key columns opts probes scan)
    (hkey : ∀ k ∈ key, fold k ∈ columns.map fold) (hdel : opts.deleteStale = false)
    (hdest : (dest.map (keyOf fold key)).Nodup) {scan₁ : List (Row V)} (hperm : scan₁.Perm staged)
    (hon : (stmt.toMerge fold).MatchesByKey (keyOf fold key) (keyOf fold key) dest (stmt.kept fold scan₁)) :
    stmt.run fold dest scan₁ = some ((stmt.toMerge fold).result dest (stmt.kept fold scan₁)) ∧
      IsUpsert fold key columns dest staged (stmt.kept fold scan₁)
        ((stmt.toMerge fold).result dest (stmt.kept fold scan₁)) := by
  have hkeep := h.keepsKeys hkey
  have hS := h.kept_nodup scan₁
  have hnd := Merge.result_keys_nodup hon hkeep hdest hS
  refine ⟨Merge.run_eq_some hon.joinsEqualKeys hS, ?_, ?_, ?_, ?_, hnd⟩
  · intro s hs
    exact hperm.mem_iff.mp (h.mem_kept hs).1
  · intro s hs
    exact h.exists_kept (hperm.mem_iff.mpr hs)
  · intro s hs
    exact landed_of_matches h hkey hdest hon hs
  · have hrest := Merge.rest_unchanged hon.joinsEqualKeys hkeep (fun t _ _ => delete_off h hdel t)
    simp only [h.mem_kept_keys hperm] at hrest
    exact hrest

/-- After the upsert a destination row of a staged key has the staged value on the prune column. -/
private theorem upsert_fixed {kept dest₁ : List (Row V)} (hb : StagedBatch fold key columns staged)
    (hfix : PruneFixed fold key opts staged staged) (hu : IsUpsert fold key columns dest staged kept dest₁) :
    FixedWhereBound fold key opts dest₁ staged := by
  intro p hp hsome r hr s hs hrs
  obtain ⟨s', hs', hk'⟩ := hu.covered s hs
  obtain ⟨r', hfil, hcols⟩ := hu.landed s' hs'
  have hr' : r ∈ dest₁.filter (fun r => keyOf fold key r = keyOf fold key s') := by
    rw [List.mem_filter, decide_eq_true_eq]
    exact ⟨hr, hrs.trans hk'.symm⟩
  rw [hfil] at hr'
  obtain rfl := List.mem_singleton.mp hr'
  obtain ⟨s₀, hs₀, hv⟩ := hsome
  have hwritten : fold p ∈ columns.map fold := by
    by_contra hnot
    exact hv (hb.written s₀ hs₀ _ hnot)
  obtain ⟨c, hc, hfold⟩ := List.mem_map.mp hwritten
  rw [← hfold, hcols c hc, hfold]
  exact hfix p hp s' (hu.kept_staged s' hs') s hs hk'

private def unpruned (dedupOrder : Option String) : MergeOptions where
  prunePartition := none
  pruneKeyRange := false
  pruneKeyListMax := 0
  deleteStale := false
  dedupOrder := dedupOrder

/-- The statement with no pruning at all is one `mergeInto` builds. -/
private theorem mergeInto_unpruned : mergeInto fold key columns (unpruned opts.dedupOrder) ⟨false, false⟩ scan =
    buildMergeSql key columns none false false opts.dedupOrder ({} : StagingBounds V) none := by
  unfold mergeInto unpruned
  match key with
  | [] => rfl
  | [k] => simp
  | k :: k' :: ks => simp

omit [LinearOrder V] in
private theorem pruneBoundMeetsNull_congr (h : ∀ s, s ∈ scan ↔ s ∈ staged) :
    PruneBoundMeetsNull fold opts probes scan ↔ PruneBoundMeetsNull fold opts probes staged := by
  simp only [PruneBoundMeetsNull, h]

/-- Without a NULL under the bound the statement is the plain upsert, again and again. -/
private theorem mergesAsUpsert (hk : key ≠ []) (hkey : ∀ k ∈ key, fold k ∈ columns.map fold)
    (hdel : opts.deleteStale = false) (hb : StagedBatch fold key columns staged)
    (hdest : (dest.map (keyOf fold key)).Nodup) (hfix : PruneFixed fold key opts (dest ++ staged) staged)
    (hnull : ¬ PruneBoundMeetsNull fold opts probes staged) :
    MergesAsUpsert fold key columns opts probes dest staged := by
  intro scan hperm
  obtain ⟨stmt, hstmt⟩ : ∃ stmt, mergeInto fold key columns opts probes scan = .ok stmt :=
    exists_mergeInto fold columns scan hk (by simp [hdel])
  obtain ⟨plain, hplain⟩ : ∃ plain,
      mergeInto fold key columns (unpruned opts.dedupOrder) ⟨false, false⟩ scan = .ok plain :=
    exists_mergeInto fold columns scan hk (fun h => absurd h (by simp [unpruned]))
  have h := mergeInto_spec hstmt
  have hp := mergeInto_spec hplain
  have hmem : ∀ s, s ∈ scan ↔ s ∈ staged := fun s => hperm.mem_iff
  have hbscan : StagedBatch fold key columns scan :=
    ⟨fun s hs => hb.keyed s ((hmem s).mp hs), fun s hs => hb.written s ((hmem s).mp hs)⟩
  have hfixDest : FixedWhereBound fold key opts dest scan := fun p hp _ t ht s hs =>
    hfix p hp t (List.mem_append_left _ ht) s ((hmem s).mp hs)
  have hfixStaged : PruneFixed fold key opts staged staged := fun p hp t ht s hs =>
    hfix p hp t (List.mem_append_right _ ht) s hs
  have hnullScan : ¬ PruneBoundMeetsNull fold opts probes scan := mt (pruneBoundMeetsNull_congr hmem).mp hnull
  rw [mergeInto_unpruned] at hplain
  refine ⟨stmt, plain, hstmt, hplain, fun scan₁ hperm₁ => ?_⟩
  have hmem₁ : ∀ s, s ∈ scan₁ → s ∈ scan := fun s hs => (hmem s).mpr (hperm₁.mem_iff.mp hs)
  have hon := h.matchesByKey hbscan (hfixDest.admits hnullScan) hmem₁
  have hfixPlain : FixedWhereBound fold key (unpruned opts.dedupOrder) dest scan :=
    fun p hp => absurd hp (by simp [unpruned])
  have honPlain := hp.matchesByKey hbscan (hfixPlain.admits (fun hmeet => absurd hmeet.1 (by simp))) hmem₁
  have hkept : plain.kept fold scan₁ = stmt.kept fold scan₁ := by
    unfold MergeStatement.kept
    rw [h.key_eq, hp.key_eq, h.order_eq, hp.order_eq]
    rfl
  obtain ⟨hrun, hu⟩ := upsert_of_matches h hkey hdel hdest hperm₁ hon
  refine ⟨_, hrun, ?_, hu, fun scan₂ hperm₂ => ?_⟩
  · rw [← hrun]
    unfold MergeStatement.run
    rw [hkept] at honPlain ⊢
    refine Merge.result_congr ?_ ?_ ?_ ?_
    · intro t ht s hs
      rw [Bool.eq_iff_iff, honPlain t ht s hs, hon t ht s hs]
    · simp only [MergeStatement.toMerge, h.update_eq, hp.update_eq]
    · simp only [MergeStatement.toMerge, h.insert_eq, hp.insert_eq]
    · funext t
      rw [delete_off h hdel, delete_off hp rfl]
  · have hfix₁ := upsert_fixed hb hfixStaged hu
    have hfixScan : FixedWhereBound fold key opts ((stmt.toMerge fold).result dest (stmt.kept fold scan₁)) scan := by
      simpa only [FixedWhereBound, hmem] using hfix₁
    have hmem₂ : ∀ s, s ∈ scan₂ → s ∈ scan := fun s hs => (hmem s).mpr (hperm₂.mem_iff.mp hs)
    have hon₂ := h.matchesByKey hbscan (hfixScan.admits hnullScan) hmem₂
    refine ⟨_, Merge.run_eq_some hon₂.joinsEqualKeys (h.kept_nodup scan₂), ?_⟩
    rw [Merge.length_result (fun t _ => delete_off h hdel t), Merge.unmatched_eq_nil hon₂]
    · rfl
    · intro s hs
      obtain ⟨s', hs', hk'⟩ := hu.covered s (hperm₂.mem_iff.mp (h.mem_kept hs).1)
      obtain ⟨r, hfil, -⟩ := hu.landed s' hs'
      have hr : r ∈ [r] := List.mem_singleton_self r
      rw [← hfil, List.mem_filter, decide_eq_true_eq] at hr
      exact List.mem_map.mpr ⟨r, hr.1, hr.2.trans hk'⟩

/-- A NULL under the bound: the row it is in joins nothing, so a second run inserts it once more. -/
private theorem not_mergesAsUpsert (hdel : opts.deleteStale = false) (hb : StagedBatch fold key columns staged)
    (hfix : PruneFixed fold key opts (dest ++ staged) staged)
    (hnull : PruneBoundMeetsNull fold opts probes staged) :
    ¬ MergesAsUpsert fold key columns opts probes dest staged := by
  intro hmerges
  obtain ⟨stmt, plain, hstmt, -, hruns⟩ := hmerges staged (List.Perm.refl _)
  obtain ⟨dest₁, -, -, hu, hagain⟩ := hruns staged (List.Perm.refl _)
  obtain ⟨dest₂, hrun₂, hlen⟩ := hagain staged (List.Perm.refl _)
  have h := mergeInto_spec hstmt
  obtain ⟨hbounds, p, hp, ⟨s₀, hs₀, hv₀⟩, s, hs, hn⟩ := hnull
  have hfixStaged : PruneFixed fold key opts staged staged := fun p hp t ht s hs =>
    hfix p hp t (List.mem_append_right _ ht) s hs
  have hfix₁ := upsert_fixed hb hfixStaged hu
  obtain ⟨lo, hi, hbound⟩ := exists_pruneBound hp hbounds ⟨s₀, hs₀, hv₀⟩
  obtain ⟨s', hs', hk'⟩ := h.exists_kept hs
  have hn' : s' (fold p) = none := (hfixStaged p hp s' (h.mem_kept hs').1 s hs hk').trans hn
  have hunmatched : s' ∈ (stmt.toMerge fold).unmatched dest₁ (stmt.kept fold staged) := by
    unfold Merge.unmatched
    rw [List.mem_filter, List.all_eq_true]
    refine ⟨hs', fun t ht => ?_⟩
    rw [h.on_eq_false hfix₁ hp hbound ht (h.mem_kept hs').1 hn']
    rfl
  unfold MergeStatement.run Merge.run at hrun₂
  split_ifs at hrun₂
  obtain rfl := Option.some.inj hrun₂
  rw [Merge.length_result (fun t _ => delete_off h hdel t)] at hlen
  have hpos := List.length_pos_of_mem hunmatched
  omega

/-- With the delete off, the MERGE is the plain keyed upsert exactly when its partition bound, if there is one,
meets no NULL. -/
theorem merge_upsert_iff (hk : key ≠ []) (hkey : ∀ k ∈ key, fold k ∈ columns.map fold)
    (hdel : opts.deleteStale = false) (hb : StagedBatch fold key columns staged)
    (hdest : (dest.map (keyOf fold key)).Nodup) (hfix : PruneFixed fold key opts (dest ++ staged) staged) :
    MergesAsUpsert fold key columns opts probes dest staged ↔
      ¬ PruneBoundMeetsNull fold opts probes staged :=
  ⟨fun hm hnull => not_mergesAsUpsert hdel hb hfix hnull hm, mergesAsUpsert hk hkey hdel hb hdest hfix⟩

end

/-! ### A batch with a NULL on the prune column -/

private def prunedByDay : MergeOptions where
  prunePartition := some "day"
  pruneKeyRange := true
  pruneKeyListMax := 0
  deleteStale := false
  dedupOrder := none

/-- Key 1 has no day, key 2 is of day 5. -/
private def dayBatch : List (Row Int) :=
  [Row.ofList [("id", 1)], Row.ofList [("id", 2), ("day", 5)]]

private theorem dayBatch_staged : StagedBatch id ["id"] ["id", "day"] dayBatch where
  keyed := by decide
  written := by
    intro s hs c hc
    rw [List.map_id] at hc
    simp only [dayBatch, List.mem_cons, List.not_mem_nil, or_false] at hs
    rcases hs with rfl | rfl
    · exact Row.ofList_eq_none (by simp at hc ⊢; exact hc.1)
    · exact Row.ofList_eq_none (by simpa using hc)

/-- Key 2 is there already, key 4 is not. -/
private def twoDays : List (Row Int) :=
  [Row.ofList [("id", 2), ("day", 5)], Row.ofList [("id", 4), ("day", 6)]]

private theorem twoDays_staged : StagedBatch id ["id"] ["id", "day"] twoDays where
  keyed := by decide
  written := by
    intro s hs c hc
    rw [List.map_id] at hc
    simp only [twoDays, List.mem_cons, List.not_mem_nil, or_false] at hs
    rcases hs with rfl | rfl
    · exact Row.ofList_eq_none (by simpa using hc)
    · exact Row.ofList_eq_none (by simpa using hc)

theorem merge_upsert_iff_two_days :
    MergesAsUpsert id ["id"] ["id", "day"] prunedByDay ⟨true, true⟩
        [Row.ofList [("id", (2 : Int)), ("day", 5)], Row.ofList [("id", 3), ("day", 6)]] twoDays ↔
      ¬ PruneBoundMeetsNull id prunedByDay ⟨true, true⟩ twoDays := by
  have hfix : PruneFixed id ["id"] prunedByDay
      ([Row.ofList [("id", (2 : Int)), ("day", 5)], Row.ofList [("id", 3), ("day", 6)]] ++ twoDays) twoDays := by
    intro p hp
    obtain rfl : "day" = p := Option.some.inj hp
    decide
  exact merge_upsert_iff (by decide) (by decide) rfl twoDays_staged (by decide) hfix

/-- The row of key 1 is NULL on the prune column; the statement inserts it beside the one that is there. -/
theorem merge_duplicates_null_prune :
    StagedBatch id ["id"] ["id", "day"] dayBatch ∧
      PruneFixed id ["id"] prunedByDay ([Row.ofList [("id", (1 : Int))]] ++ dayBatch) dayBatch ∧
      ∃ stmt dest₁, mergeInto id ["id"] ["id", "day"] prunedByDay ⟨true, true⟩ dayBatch = .ok stmt ∧
        stmt.run id [Row.ofList [("id", (1 : Int))]] dayBatch = some dest₁ ∧
        dest₁.map (keyOf id ["id"]) = [[some 1], [some 1], [some 2]] ∧
        ¬ MergesAsUpsert id ["id"] ["id", "day"] prunedByDay ⟨true, true⟩ [Row.ofList [("id", 1)]] dayBatch := by
  have hfix : PruneFixed id ["id"] prunedByDay ([Row.ofList [("id", (1 : Int))]] ++ dayBatch) dayBatch := by
    intro p hp
    obtain rfl : "day" = p := Option.some.inj hp
    decide
  refine ⟨dayBatch_staged, hfix, _, _, rfl, rfl, by decide, ?_⟩
  refine not_mergesAsUpsert rfl dayBatch_staged hfix ⟨rfl, "day", rfl, by decide, by decide⟩

end Quickhouse
