import Quickhouse.Sink.KeyedUpsert
import Quickhouse.Transform

/-!
# The newest version of a key in a merged batch

An incremental run into BigQuery merges its staged rows with the watermark of its configuration as the order of
the dedup.  The configuration has the watermark's source name; the statement looks that name up among the
destination's columns, where `rename` may have given it another one.

`newest_wins_iff`: a configuration merges the newest staged version of every key, for every batch whose prune
bound does not hide a destination row, exactly when the watermark lands under its own name, or in a column
that cannot differ between two rows of a key (a key column, or the prune column by its contract).
-/

namespace Quickhouse

open Sql Keyed Text

variable {V : Type} [LinearOrder V]

/-- The source column the watermark names, as the source compares names. -/
def watermarkColumn (sourceFold : String → String) (cfg : TransferConfig) (source : List String) :
    Option String :=
  cfg.watermark.bind fun w => (cfg.included source).find? (fun c => sourceFold c = sourceFold w)

/-- The merge of a run's promote step or, in a chunked run, of each chunk. -/
def promoteOptions (cfg : TransferConfig) : MergeOptions where
  prunePartition := cfg.mergePrunePartitionBy
  pruneKeyRange := cfg.mergePruneKeyRange
  pruneKeyListMax := cfg.mergePruneKeyListMax
  deleteStale := if cfg.chunkRows.isSome then false else cfg.deleteStaleInWindow
  dedupOrder := cfg.watermark

theorem promoteOptions_deleteStale {cfg : TransferConfig} (h : (promoteOptions cfg).deleteStale = true) :
    cfg.deleteStaleInWindow = true := by
  simp only [promoteOptions] at h
  split_ifs at h
  exact h

/-- Whatever order the engine meets the staged rows in, the destination ends with one row for each staged key:
a staged row of that key whose `column` is the greatest among them. -/
def NewestWins (cfg : TransferConfig) (plan : SelectPlan) (column : String)
    (probes : ProbeResults) (dest staged : List (Row V)) : Prop :=
  ∀ scan, scan.Perm staged →
    ∀ stmt, mergeInto asciiLower cfg.key plan.destColumns (promoteOptions cfg) probes scan = .ok stmt →
      ∀ scan₁, scan₁.Perm staged → ∃ dest₁, stmt.run asciiLower dest scan₁ = some dest₁ ∧
        ∀ s ∈ staged, ∃ r, ∃ s' ∈ staged,
          dest₁.filter (fun r => keyOf asciiLower cfg.key r = keyOf asciiLower cfg.key s) = [r] ∧
          keyOf asciiLower cfg.key s' = keyOf asciiLower cfg.key s ∧
          (∀ c ∈ plan.destColumns, r (asciiLower c) = s' (asciiLower c)) ∧
          ∀ s'' ∈ staged, keyOf asciiLower cfg.key s'' = keyOf asciiLower cfg.key s →
            sortKey (s'' (asciiLower column)) ≤ sortKey (s' (asciiLower column))

/-- The partition bound is emitted and a staged row of a key the destination has is NULL under it. -/
def PruneBoundHides (fold : String → String) (key : List String) (opts : MergeOptions) (probes : ProbeResults)
    (dest staged : List (Row V)) : Prop :=
  probes.bounds = true ∧ ∃ p, opts.prunePartition = some p ∧ (∃ s ∈ staged, s (fold p) ≠ none) ∧
    ∃ s ∈ staged, s (fold p) = none ∧ keyOf fold key s ∈ dest.map (keyOf fold key)

/-- The batches a run can merge: keyed rows of the plan's columns, unique destination keys and, when a prune
column is configured, one value of it for each key. -/
structure MergeableBatch (cfg : TransferConfig) (plan : SelectPlan) (dest staged : List (Row V)) :
    Prop where
  batch : StagedBatch asciiLower cfg.key plan.destColumns staged
  dest_unique : (dest.map (keyOf asciiLower cfg.key)).Nodup
  prune_fixed : PruneFixed asciiLower cfg.key (promoteOptions cfg) (dest ++ staged) staged

/-- The dedup order is the watermark, or the watermark cannot differ between two rows of a key. -/
def OrdersByWatermark (cfg : TransferConfig) (column : String) : Prop :=
  cfg.watermark = some column ∨ asciiLower column ∈ cfg.key.map asciiLower ∨
    ∃ p, cfg.mergePrunePartitionBy = some p ∧ asciiLower p = asciiLower column

section

variable {cfg : TransferConfig} {plan : SelectPlan} {column : String} {probes : ProbeResults}
  {dest staged scan : List (Row V)} {stmt : MergeStatement V}

omit [LinearOrder V] in
/-- Staged rows of one key agree on a column that is a key column or the prune column. -/
private theorem same_watermark (hb : MergeableBatch cfg plan dest staged)
    (hcol : asciiLower column ∈ cfg.key.map asciiLower ∨
      ∃ p, cfg.mergePrunePartitionBy = some p ∧ asciiLower p = asciiLower column)
    {s s' : Row V} (hs : s ∈ staged) (hs' : s' ∈ staged)
    (hk : keyOf asciiLower cfg.key s = keyOf asciiLower cfg.key s') :
    s (asciiLower column) = s' (asciiLower column) := by
  rcases hcol with hcol | ⟨p, hp, hcol⟩
  · obtain ⟨k, hk', heq⟩ := List.mem_map.mp hcol
    rw [← heq]
    exact keyOf_eq_iff.mp hk k hk'
  · rw [← hcol]
    exact hb.prune_fixed p hp s (List.mem_append_right _ hs) s' hs' hk

/-- The row kept for a key has its greatest watermark. -/
private theorem kept_newest (h : stmt.BuiltFrom asciiLower cfg.key plan.destColumns (promoteOptions cfg)
    probes scan) (hb : MergeableBatch cfg plan dest staged) (horder : OrdersByWatermark cfg column)
    (hcolumn : column ∈ plan.destColumns) {scan₁ : List (Row V)} (hperm : scan₁.Perm staged) {s s' : Row V}
    (hs : s ∈ stmt.kept asciiLower scan₁) (hs' : s' ∈ staged)
    (hk : keyOf asciiLower cfg.key s' = keyOf asciiLower cfg.key s) :
    sortKey (s' (asciiLower column)) ≤ sortKey (s (asciiLower column)) := by
  obtain ⟨hmem, hmax⟩ := h.mem_kept hs
  rcases horder with hw | hcol
  · have horderEq : stmt.dedupOrder = some column := by
      rw [h.order_eq]
      simp [promoteOptions, hw, hcolumn]
    have := hmax s' (hperm.mem_iff.mpr hs') hk
    rw [horderEq] at this
    exact this
  · rw [same_watermark hb hcol hs' (hperm.mem_iff.mp hmem) hk]

private theorem mergedNewest (hkey : ∀ k ∈ cfg.key, asciiLower k ∈ plan.destColumns.map asciiLower)
    (hb : MergeableBatch cfg plan dest staged) (horder : OrdersByWatermark cfg column)
    (hcolumn : column ∈ plan.destColumns)
    (hhides : ¬ PruneBoundHides asciiLower cfg.key (promoteOptions cfg) probes dest staged) :
    NewestWins cfg plan column probes dest staged := by
  intro scan hperm stmt hstmt scan₁ hperm₁
  have h := mergeInto_spec hstmt
  have hmem : ∀ s, s ∈ scan ↔ s ∈ staged := fun s => hperm.mem_iff
  have hbscan : StagedBatch asciiLower cfg.key plan.destColumns scan :=
    ⟨fun s hs => hb.batch.keyed s ((hmem s).mp hs), fun s hs => hb.batch.written s ((hmem s).mp hs)⟩
  have hbound₀ : BoundAdmits asciiLower cfg.key (promoteOptions cfg) probes dest scan := by
    rintro p hp hbounds ⟨s₀, hs₀, hv₀⟩ t ht s hs hk
    refine ⟨hb.prune_fixed p hp t (List.mem_append_left _ ht) s ((hmem s).mp hs) hk, fun hn => ?_⟩
    exact hhides ⟨hbounds, p, hp, ⟨s₀, (hmem s₀).mp hs₀, hv₀⟩, s, (hmem s).mp hs, hn,
      List.mem_map.mpr ⟨t, ht, hk⟩⟩
  have hon := h.matchesByKey hbscan hbound₀ (fun s hs => (hmem s).mpr (hperm₁.mem_iff.mp hs))
  refine ⟨_, Merge.run_eq_some hon.joinsEqualKeys (h.kept_nodup scan₁), fun s hs => ?_⟩
  obtain ⟨s', hs', hk'⟩ := h.exists_kept (hperm₁.mem_iff.mpr hs)
  obtain ⟨r, hfil, hcols⟩ := landed_of_matches h hkey hb.dest_unique hon hs'
  rw [hk'] at hfil
  refine ⟨r, s', hperm₁.mem_iff.mp (h.mem_kept hs').1, hfil, hk', hcols, fun s'' hs'' hk'' => ?_⟩
  exact kept_newest h hb horder hcolumn hperm₁ hs' hs'' (hk''.trans hk'.symm)

/-- A destination row hidden by the bound stays beside the staged row of its key. -/
private theorem hidden_duplicates (hk : cfg.key ≠ [])
    (hkey : ∀ k ∈ cfg.key, asciiLower k ∈ plan.destColumns.map asciiLower)
    (hb : MergeableBatch cfg plan dest staged)
    (hhides : PruneBoundHides asciiLower cfg.key (promoteOptions cfg) probes dest staged) :
    ¬ NewestWins cfg plan column probes dest staged := by
  intro hwins
  obtain ⟨hbounds, p, hp, hsome, s, hs, hn, hkd⟩ := hhides
  obtain ⟨t, ht, hts⟩ := List.mem_map.mp hkd
  obtain ⟨stmt, hstmt⟩ : ∃ stmt, mergeInto asciiLower cfg.key plan.destColumns (promoteOptions cfg) probes
      staged = .ok stmt :=
    exists_mergeInto asciiLower _ _ hk (fun _ => ⟨by rw [hp]; rfl, hbounds⟩)
  have h := mergeInto_spec hstmt
  obtain ⟨lo, hi, hbound⟩ : ∃ lo hi, pruneBound asciiLower (promoteOptions cfg) probes staged =
      some (.between p lo hi) := exists_pruneBound hp hbounds hsome
  have hfix : FixedWhereBound asciiLower cfg.key (promoteOptions cfg) dest staged :=
    fun p hp _ t ht s hs => hb.prune_fixed p hp t (List.mem_append_left _ ht) s hs
  have hnull : ∀ s' ∈ staged, keyOf asciiLower cfg.key s' = keyOf asciiLower cfg.key s →
      s' (asciiLower p) = none := fun s' hs' hk' =>
    (hb.prune_fixed p hp s' (List.mem_append_right _ hs') s hs hk').trans hn
  have htn : t (asciiLower p) = none := (hfix p hp hsome t ht s hs hts).trans hn
  obtain ⟨dest₁, hrun, hrows⟩ := hwins staged (List.Perm.refl _) stmt hstmt staged (List.Perm.refl _)
  unfold MergeStatement.run Merge.run at hrun
  split_ifs at hrun
  obtain rfl := Option.some.inj hrun
  obtain ⟨r, -, -, hfil, -⟩ := hrows s hs
  -- the destination row: nothing joins it and the delete's bound is unknown for it
  have hstay : t ∈ dest.filterMap ((stmt.toMerge asciiLower).targetRow (stmt.kept asciiLower staged)) := by
    refine List.mem_filterMap.mpr ⟨t, ht, ?_⟩
    have hfind : (stmt.kept asciiLower staged).find? ((stmt.toMerge asciiLower).on t) = none := by
      rw [List.find?_eq_none]
      intro s' hs' hon
      have hn' := hnull s' (h.mem_kept hs').1 ((h.keyOf_eq_of_on hon).symm.trans hts)
      rw [h.on_eq_false hfix hp hbound ht (h.mem_kept hs').1 hn'] at hon
      exact absurd hon (by simp)
    have hdel : (stmt.toMerge asciiLower).delete t = false := by
      have hd := h.delete_eq
      simp only [MergeStatement.toMerge, hd, hbound]
      split_ifs
      · simp [MergeCond.eval, between3, htn]
      · simp
    simp only [Merge.targetRow, hfind, hdel, Bool.false_eq_true, if_false]
  -- the staged row: it joins nothing, so it is inserted
  obtain ⟨s', hs', hk'⟩ := h.exists_kept hs
  have hnew : (stmt.toMerge asciiLower).insert s' ∈
      ((stmt.toMerge asciiLower).unmatched dest (stmt.kept asciiLower staged)).map
        (stmt.toMerge asciiLower).insert := by
    refine List.mem_map_of_mem (List.mem_filter.mpr ⟨hs', List.all_eq_true.mpr (fun t' ht' => ?_)⟩)
    rw [h.on_eq_false hfix hp hbound ht' (h.mem_kept hs').1 (hnull s' (h.mem_kept hs').1 hk')]
    rfl
  have hlen := congrArg List.length hfil
  unfold Merge.result at hlen
  rw [List.filter_append, List.length_append, List.length_singleton] at hlen
  have hstay' : t ∈ (dest.filterMap ((stmt.toMerge asciiLower).targetRow (stmt.kept asciiLower staged))).filter
      (fun r => keyOf asciiLower cfg.key r = keyOf asciiLower cfg.key s) :=
    List.mem_filter.mpr ⟨hstay, decide_eq_true hts⟩
  have hnew' : (stmt.toMerge asciiLower).insert s' ∈ (((stmt.toMerge asciiLower).unmatched dest
      (stmt.kept asciiLower staged)).map (stmt.toMerge asciiLower).insert).filter
      (fun r => keyOf asciiLower cfg.key r = keyOf asciiLower cfg.key s) :=
    List.mem_filter.mpr ⟨hnew, decide_eq_true (((h.keepsKeys hkey).insert s').trans hk')⟩
  have h1 := List.length_pos_of_mem hstay'
  have h2 := List.length_pos_of_mem hnew'
  omega

/-- Two versions of one key: every column the same but the watermark's. -/
private def version (plan : SelectPlan) (column : String) (v₀ v : V) : Row V := fun c =>
  if c ∈ plan.destColumns.map asciiLower then some (if c = asciiLower column then v else v₀) else none

omit [LinearOrder V] in
private theorem version_eq (plan : SelectPlan) (v₀ v v' : V) {c : String} (hc : c ≠ asciiLower column) :
    version plan column v₀ v c = version plan column v₀ v' c := by
  simp only [version, hc, if_false]

/-- A configuration that does not order by the watermark can merge the older of two versions. -/
private theorem older_wins (hk : cfg.key ≠ [])
    (hkey : ∀ k ∈ cfg.key, asciiLower k ∈ plan.destColumns.map asciiLower)
    (hnames : (plan.destColumns.map asciiLower).Nodup) (hcolumn : column ∈ plan.destColumns)
    (hprune : cfg.deleteStaleInWindow = true → cfg.mergePrunePartitionBy.isSome)
    (horder : ¬ OrdersByWatermark cfg column) {old new : V} (hlt : old < new) :
    MergeableBatch cfg plan [] [version plan column old old, version plan column old new] ∧
      ¬ NewestWins cfg plan column ⟨false, true⟩ []
        [version plan column old old, version plan column old new] := by
  simp only [OrdersByWatermark, not_or, not_exists, not_and] at horder
  obtain ⟨hw, hck, hcp⟩ := horder
  have hmemCol : asciiLower column ∈ plan.destColumns.map asciiLower := List.mem_map_of_mem hcolumn
  have hsameKey : keyOf asciiLower cfg.key (version plan column old new) =
      keyOf asciiLower cfg.key (version plan column old old) := by
    rw [keyOf_eq_iff]
    intro k hkk
    refine version_eq plan old new old (fun heq => hck ?_)
    rw [← heq]
    exact List.mem_map_of_mem hkk
  have hfixed : ∀ p, cfg.mergePrunePartitionBy = some p → ∀ v v' : V,
      version plan column old v (asciiLower p) = version plan column old v' (asciiLower p) :=
    fun p hp v v' => version_eq plan old v v' (hcp p hp)
  refine ⟨⟨⟨?_, ?_⟩, List.nodup_nil, ?_⟩, fun hwins => ?_⟩
  · intro s hs k hkk
    simp only [List.mem_cons, List.not_mem_nil, or_false] at hs
    rcases hs with rfl | rfl <;> simp only [version, hkey k hkk, if_true] <;> simp
  · intro s hs c hc
    simp only [List.mem_cons, List.not_mem_nil, or_false] at hs
    rcases hs with rfl | rfl <;> simp only [version, hc, if_false]
  · intro p hp r hr s hs _
    simp only [List.nil_append, List.mem_cons, List.not_mem_nil, or_false] at hr hs
    rcases hr with rfl | rfl <;> rcases hs with rfl | rfl <;> exact hfixed p hp _ _
  · obtain ⟨stmt, hstmt⟩ : ∃ stmt, mergeInto asciiLower cfg.key plan.destColumns (promoteOptions cfg)
        ⟨false, true⟩ [version plan column old old, version plan column old new] = .ok stmt :=
      exists_mergeInto asciiLower _ _ hk (fun h => ⟨hprune (promoteOptions_deleteStale h), rfl⟩)
    have h := mergeInto_spec hstmt
    -- the two versions tie in the statement's order, so the first one met is kept
    have htie : orderOf asciiLower stmt.dedupOrder (version plan column old new) =
        orderOf asciiLower stmt.dedupOrder (version plan column old old) := by
      cases hd : stmt.dedupOrder with
      | none => rfl
      | some w =>
        rw [h.order_eq] at hd
        obtain ⟨hcw, hmem⟩ := Option.filter_eq_some_iff.mp hd
        have hne : asciiLower w ≠ asciiLower column := by
          intro heq
          obtain rfl : w = column := List.inj_on_of_nodup_map hnames (by simpa using hmem) hcolumn heq
          exact hw hcw
        simp only [orderOf, version_eq plan old new old hne]
    have hkept : stmt.kept asciiLower [version plan column old old, version plan column old new] =
        [version plan column old old] := by
      unfold MergeStatement.kept
      rw [h.key_eq]
      exact newest_pair hsameKey htie
    obtain ⟨dest₁, hrun, hrows⟩ := hwins _ (List.Perm.refl _) stmt hstmt _ (List.Perm.refl _)
    unfold MergeStatement.run Merge.run at hrun
    rw [hkept] at hrun
    split_ifs at hrun
    obtain rfl := Option.some.inj hrun
    obtain ⟨r, s', -, hfil, -, hcols, hmax⟩ := hrows (version plan column old new) (by simp)
    have hr : r ∈ [r] := List.mem_singleton_self r
    rw [← hfil, List.mem_filter] at hr
    have hr' := hr.1
    simp only [Merge.result, Merge.unmatched, List.filterMap_nil, List.nil_append, List.all_nil,
      List.filter_true, List.map_cons, List.map_nil, List.mem_singleton] at hr'
    have hold : r (asciiLower column) = some old := by
      rw [hr', (landed_columns h rfl hcolumn).2]
      simp only [version, hmemCol, if_true]
    have hle := hmax (version plan column old new) (by simp) rfl
    rw [← hcols column hcolumn, hold] at hle
    simp only [version, hmemCol, if_true] at hle
    exact absurd (WithBot.coe_le_coe.mp hle) (not_le.mpr hlt)

/-- An accepted configuration merges the newest version of every key, whatever the batch, as long as its prune
bound hides no destination row, exactly when the dedup orders by the watermark. -/
theorem newest_wins_iff [Nontrivial V] {source : List String} {sourceFold : String → String}
    (hvalid : cfg.validateFor .db .bigQuery = .ok ())
    (hplan : TransferConfig.planForDestination source cfg .bigQuery = .ok plan) (hkey : cfg.key ≠ [])
    (hnames : (plan.destColumns.map asciiLower).Nodup) {c : String}
    (hc : watermarkColumn sourceFold cfg source = some c) :
    (∀ (probes : ProbeResults) (dest staged : List (Row V)), MergeableBatch cfg plan dest staged →
      (NewestWins cfg plan (cfg.landed c) probes dest staged ↔
        ¬ PruneBoundHides asciiLower cfg.key (promoteOptions cfg) probes dest staged)) ↔
      OrdersByWatermark cfg (cfg.landed c) := by
  obtain ⟨hdest, hkeys⟩ := TransferConfig.planForDestination_eq_ok hplan
  have hkeys' : ∀ k ∈ cfg.key, asciiLower k ∈ plan.destColumns.map asciiLower := by
    intro k hk
    obtain ⟨d, hd, hsame⟩ := hkeys k hk
    exact List.mem_map.mpr ⟨d, hd, of_decide_eq_true hsame⟩
  have hcolumn : cfg.landed c ∈ plan.destColumns := by
    rw [hdest]
    obtain ⟨w, -, hfind⟩ := Option.bind_eq_some_iff.mp hc
    exact List.mem_map_of_mem (List.mem_of_find?_eq_some hfind)
  constructor
  · intro hall
    by_contra horder
    obtain ⟨a, b, hab⟩ := exists_pair_lt V
    have hprune : cfg.deleteStaleInWindow = true → cfg.mergePrunePartitionBy.isSome := by
      intro hd
      obtain ⟨-, -, -, hp, -⟩ := TransferConfig.validateFor_deleteStale hvalid hd (by simp)
      rw [hp]
      rfl
    obtain ⟨hb, hnot⟩ := older_wins hkey hkeys' hnames hcolumn hprune horder hab
    refine hnot ((hall _ _ _ hb).mpr ?_)
    rintro ⟨-, p, -, -, s, -, -, hmem⟩
    simp at hmem
  · intro horder probes dest staged hb
    exact ⟨fun hw hh => hidden_duplicates hkey hkeys' hb hh hw, mergedNewest hkeys' hb horder hcolumn⟩

end

private def ordersTransfer : TransferConfig where
  sourceTable := some "orders"
  destTable := "orders"
  mode := .incremental
  watermark := some "updated_at"
  key := ["id"]

private def ordersPlan : SelectPlan where
  sourceColumns := ["id", "updated_at"]
  sourceSelectExprs := [none, none]
  destColumns := ["id", "updated_at"]

theorem newest_wins_iff_orders :
    (∀ (probes : ProbeResults) (dest staged : List (Row Int)), MergeableBatch ordersTransfer ordersPlan dest staged →
      (NewestWins ordersTransfer ordersPlan (ordersTransfer.landed "updated_at") probes dest staged ↔
        ¬ PruneBoundHides asciiLower ordersTransfer.key (promoteOptions ordersTransfer) probes dest staged)) ↔
      OrdersByWatermark ordersTransfer (ordersTransfer.landed "updated_at") := by
  have hc : watermarkColumn id ordersTransfer ["id", "updated_at"] = some "updated_at" := by decide
  exact newest_wins_iff (by decide +kernel) (by rfl) (by decide) (by decide) hc

private def renamedTransfer : TransferConfig where
  sourceTable := some "orders"
  destTable := "orders"
  mode := .incremental
  watermark := some "updated_at"
  key := ["id"]
  rename := { entries := [("updated_at", "modified")] }

private def renamedPlan : SelectPlan where
  sourceColumns := ["id", "updated_at"]
  sourceSelectExprs := [none, none]
  destColumns := ["id", "modified"]

/-- The watermark `updated_at` lands as `modified`, so the dedup orders by the key: of the versions 1 and 2 of
one order the merge keeps version 1. -/
theorem renamed_watermark_keeps_older :
    renamedTransfer.validateFor .db .bigQuery = .ok () ∧
      TransferConfig.planForDestination ["id", "updated_at"] renamedTransfer .bigQuery = .ok renamedPlan ∧
      ∃ (probes : ProbeResults) (batch : List (Row Int)), MergeableBatch renamedTransfer renamedPlan [] batch ∧
        batch.map (keyOf asciiLower renamedTransfer.key) = [[some 1], [some 1]] ∧
        batch.map (fun r => r "modified") = [some 1, some 2] ∧
        ¬ NewestWins renamedTransfer renamedPlan (renamedTransfer.landed "updated_at") probes [] batch := by
  have hnot : ¬ OrdersByWatermark renamedTransfer (renamedTransfer.landed "updated_at") := by
    rintro (h | h | ⟨p, hp, -⟩)
    · exact absurd h (by decide)
    · exact absurd h (by decide)
    · exact absurd hp (by simp [renamedTransfer])
  have hlt : (1 : Int) < 2 := by decide
  have hkey : ∀ k ∈ renamedTransfer.key, asciiLower k ∈ renamedPlan.destColumns.map asciiLower := by decide
  have hcolumn : renamedTransfer.landed "updated_at" ∈ renamedPlan.destColumns := by decide
  obtain ⟨hb, hw⟩ := older_wins (by decide) hkey (by decide) hcolumn (by decide) hnot hlt
  exact ⟨by decide +kernel, by rfl, _, _, hb, by decide, by decide, hw⟩

end Quickhouse
