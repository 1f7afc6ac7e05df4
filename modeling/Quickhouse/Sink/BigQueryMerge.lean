import Quickhouse.Lib.Merge
import Quickhouse.Lib.Sql

/-!
# The BigQuery MERGE

`mergeInto` probes the staged batch for the bounds it prunes with and builds one MERGE statement: a join on the
key columns narrowed by literal bounds, fed by one staged row a key.  A statement is kept as a term:
`MergeStatement.sql` is its text and `MergeStatement.run` what GoogleSQL makes of it.

`mergeInto_spec` says what the statement holds, and `BuiltFrom.matchesByKey` that its join is equality of keys
wherever the partition bound, if there is one, meets no NULL.
-/

namespace Quickhouse

open Sql Keyed

/-! ### The statement -/

/-- A conjunct of the join condition: `T` is the destination, `S` the staged row. -/
inductive MergeCond (V : Type) where
  | eqColumns (column : String)
  | between (column : String) (lo hi : V)
  | inList (column : String) (values : List V)

structure MergeStatement (V : Type) where
  key : List String
  /-- The dedup subquery orders by this column, descending; without one, by the key columns. -/
  dedupOrder : Option String
  on : List (MergeCond V)
  updateCols : List String
  insertCols : List String
  /-- The bound of `WHEN NOT MATCHED BY SOURCE AND … THEN DELETE`. -/
  deleteBound : Option (MergeCond V)

section Text

variable {V : Type} (literal : V → String)

private def ticked (name : String) : String := "`" ++ name ++ "`"

def MergeCond.sql : MergeCond V → String
  | .eqColumns c => "T." ++ ticked c ++ " = S." ++ ticked c
  | .between c lo hi => "T." ++ ticked c ++ " BETWEEN " ++ literal lo ++ " AND " ++ literal hi
  | .inList c values => "T." ++ ticked c ++ " IN (" ++ ", ".intercalate (values.map literal) ++ ")"

/-- The text of the statement, its literals rendered by `FORMAT('%T', …)`. -/
def MergeStatement.sql (projectId datasetId dest staging : String) (stmt : MergeStatement V) : String :=
  let keyList := ", ".intercalate (stmt.key.map ticked)
  let dedupOrder := match stmt.dedupOrder with
    | some w => ticked w ++ " DESC"
    | none => keyList
  let table (name : String) := ticked projectId ++ "." ++ ticked datasetId ++ "." ++ ticked name
  let using_ := "(SELECT * EXCEPT (_qh_row_num) FROM (SELECT *, ROW_NUMBER() OVER (PARTITION BY " ++ keyList ++
    " ORDER BY " ++ dedupOrder ++ ") AS _qh_row_num FROM " ++ table staging ++ ") WHERE _qh_row_num = 1)"
  let updateClause := if stmt.updateCols = [] then []
    else ["WHEN MATCHED THEN UPDATE SET " ++
      ", ".intercalate (stmt.updateCols.map (fun c => ticked c ++ " = S." ++ ticked c))]
  let insertClause := "WHEN NOT MATCHED THEN INSERT (" ++ ", ".intercalate (stmt.insertCols.map ticked) ++
    ") VALUES (" ++ ", ".intercalate (stmt.insertCols.map (fun c => "S." ++ ticked c)) ++ ")"
  let deleteClause := match stmt.deleteBound with
    | some bound => ["WHEN NOT MATCHED BY SOURCE AND " ++ bound.sql literal ++ " THEN DELETE"]
    | none => []
  "MERGE INTO " ++ table dest ++ " T USING " ++ using_ ++ " S ON " ++
    " AND ".intercalate (stmt.on.map (MergeCond.sql literal)) ++ " " ++
    " ".intercalate (updateClause ++ [insertClause] ++ deleteClause)

end Text

/-! ### Building it -/

/-- The range of the staged batch on each bounded column. -/
structure StagingBounds (V : Type) where
  entries : List (String × V × V) := []

def StagingBounds.get {V : Type} (b : StagingBounds V) (column : String) : Option (V × V) :=
  b.entries.lookup column

/-- Which columns the MERGE needs a staging range for, in probe order. -/
def boundedColumns (key : List String) (prunePartition : Option String) (pruneKeyRange deleteStale : Bool) :
    List String :=
  if pruneKeyRange ∧ ¬ deleteStale then
    key.foldl (fun cols k => if k ∈ cols then cols else cols ++ [k]) prunePartition.toList
  else prunePartition.toList

/-- Build the MERGE that upserts the staged rows, matched on `key`. -/
def buildMergeSql {V : Type} (key columns : List String) (prunePartition : Option String)
    (pruneKeyRange deleteStale : Bool) (dedupOrder : Option String) (bounds : StagingBounds V)
    (keyList : Option (List V)) : Except String (MergeStatement V) :=
  if key = [] then
    .error ("build_merge_sql called with an empty key (should have been validated before staging began)")
  else
    let windowBound := prunePartition.bind fun pcol =>
      (bounds.get pcol).map fun b => MergeCond.between pcol b.1 b.2
    let keyList := keyList.filter fun l => l ≠ [] ∧ key.length = 1 ∧ ¬ deleteStale
    let keyBounds : List (MergeCond V) := match keyList with
      | some list => [.inList (key.headD "") list]
      | none =>
        if pruneKeyRange ∧ ¬ deleteStale then
          key.filterMap fun k => (bounds.get k).map fun b => .between k b.1 b.2
        else []
    if deleteStale ∧ prunePartition.isNone then
      .error "delete_stale requested without merge_prune_partition_by (should have been validated)"
    else .ok {
      key
      dedupOrder := dedupOrder.filter (· ∈ columns)
      on := key.map .eqColumns ++ windowBound.toList ++ keyBounds
      updateCols := columns.filter (· ∉ key)
      insertCols := columns
      deleteBound := if deleteStale then windowBound else none }

/-! ### The probes and `mergeInto`

Column names are case-insensitive in BigQuery: a row is indexed by folded names, and `fold` is applied wherever
a statement names a column. -/

section Merge

variable {V : Type} [LinearOrder V] (fold : String → String)

/-- `MIN` and `MAX` of each column over the staged rows; a column without a value is left out. -/
def probeStagingBounds (staged : List (Row V)) (columns : List String) : StagingBounds V where
  entries := columns.filterMap fun c =>
    match minValue (staged.map (· (fold c))), maxValue (staged.map (· (fold c))) with
    | some lo, some hi => some (c, lo, hi)
    | _, _ => none

/-- The distinct key values of the batch, unless there are none or more than `max`. -/
def probeStagingKeyList (staged : List (Row V)) (key : String) (max : Nat) : Option (List V) :=
  let values := ((staged.map (· (fold key))).reduceOption.dedup).take (max + 1)
  if max < values.length ∨ values = [] then none else some values

/-- The pruning options of one `mergeInto` call. -/
structure MergeOptions where
  prunePartition : Option String
  pruneKeyRange : Bool
  pruneKeyListMax : Nat
  deleteStale : Bool
  dedupOrder : Option String

/-- Whether each probe's query succeeds. -/
structure ProbeResults where
  keyList : Bool
  bounds : Bool

/-- The statement `mergeInto` runs for the staged rows, in the order the probes meet them. -/
def mergeInto (key columns : List String) (opts : MergeOptions) (probes : ProbeResults)
    (staged : List (Row V)) : Except String (MergeStatement V) :=
  let keyList := match key with
    | [k] =>
      if opts.pruneKeyListMax = 0 ∨ opts.deleteStale ∨ ¬ probes.keyList then none
      else probeStagingKeyList fold staged k opts.pruneKeyListMax
    | _ => none
  let bounded := boundedColumns key opts.prunePartition (opts.pruneKeyRange && keyList.isNone) opts.deleteStale
  if bounded ≠ [] ∧ ¬ probes.bounds ∧ opts.deleteStale then .error "bigquery staging bounds query error"
  else
    let bounds := if probes.bounds then probeStagingBounds fold staged bounded else {}
    buildMergeSql key columns opts.prunePartition opts.pruneKeyRange opts.deleteStale opts.dedupOrder bounds
      keyList

/-! ### What GoogleSQL makes of the statement -/

def MergeCond.eval (t s : Row V) : MergeCond V → Option Bool
  | .eqColumns c => eq3 (t (fold c)) (s (fold c))
  | .between c lo hi => between3 (t (fold c)) lo hi
  | .inList c values => in3 (t (fold c)) values

/-- The key of a row: its values on the key columns. -/
def keyOf (key : List String) (r : Row V) : List (Option V) := key.map (fun k => r (fold k))

/-- What the dedup subquery orders by. -/
def orderOf (dedupOrder : Option String) (r : Row V) : WithBot V :=
  match dedupOrder with
  | some w => sortKey (r (fold w))
  | none => ⊥

namespace MergeStatement

variable (stmt : MergeStatement V)

/-- The rows of the dedup subquery: one a key, the greatest in its order. -/
def kept (staged : List (Row V)) : List (Row V) :=
  newest (keyOf fold stmt.key) (orderOf fold stmt.dedupOrder) staged

/-- The statement's clauses. -/
def toMerge : Merge (Row V) (Row V) where
  on t s := all3 (stmt.on.map (MergeCond.eval fold t s)) = some true
  update t s := fun c => if c ∈ stmt.updateCols.map fold then s c else t c
  insert s := fun c => if c ∈ stmt.insertCols.map fold then s c else none
  delete t := match stmt.deleteBound with
    | some bound => bound.eval fold t t = some true
    | none => false

/-- The destination after the statement ran; `none` when BigQuery refuses it at run time. -/
def run (dest staged : List (Row V)) : Option (List (Row V)) :=
  (stmt.toMerge fold).run dest (stmt.kept fold staged)

end MergeStatement

/-! ### What the probes give -/

variable {fold} {key columns : List String} {opts : MergeOptions} {probes : ProbeResults}
  {dest staged scan : List (Row V)} {stmt : MergeStatement V}

theorem get_probeStagingBounds {cols : List String} {c : String} {b : V × V} :
    (probeStagingBounds fold staged cols).get c = some b ↔
      c ∈ cols ∧ minValue (staged.map (· (fold c))) = some b.1 ∧ maxValue (staged.map (· (fold c))) = some b.2 := by
  unfold StagingBounds.get probeStagingBounds
  induction cols with
  | nil => simp
  | cons d cols ih =>
    by_cases hcd : c = d
    · subst hcd
      cases hlo : minValue (staged.map (· (fold c))) with
      | none =>
        rw [hlo] at ih
        rw [List.filterMap_cons_none (by rw [hlo])]
        simpa using ih
      | some lo =>
        cases hhi : maxValue (staged.map (· (fold c))) with
        | none =>
          rw [hhi] at ih
          rw [List.filterMap_cons_none (by rw [hlo, hhi])]
          simpa using ih
        | some hi =>
          rw [List.filterMap_cons_some (by rw [hlo, hhi]), List.lookup_cons_self]
          simp [Prod.ext_iff]
    · have hne : (c == d) = false := by simpa using hcd
      have hcons : c ∈ d :: cols ↔ c ∈ cols := by simp [hcd]
      rw [hcons, ← ih]
      cases hlo : minValue (staged.map (· (fold d))) with
      | none => rw [List.filterMap_cons_none (by rw [hlo])]
      | some lo =>
        cases hhi : maxValue (staged.map (· (fold d))) with
        | none => rw [List.filterMap_cons_none (by rw [hlo, hhi])]
        | some hi => rw [List.filterMap_cons_some (by rw [hlo, hhi]), List.lookup_cons, hne]

/-- The key list names every key value of the batch. -/
theorem mem_probeStagingKeyList {k : String} {max : Nat} {values : List V}
    (h : probeStagingKeyList fold staged k max = some values) {s : Row V} (hs : s ∈ staged) {v : V}
    (hv : s (fold k) = some v) : v ∈ values := by
  unfold probeStagingKeyList at h
  simp only at h
  split_ifs at h with hlen
  obtain rfl := Option.some.inj h
  rw [not_or, not_lt, List.length_take] at hlen
  rw [List.take_of_length_le (by omega)]
  rw [List.mem_dedup, List.reduceOption_mem_iff, List.mem_map]
  exact ⟨s, hs, hv⟩

theorem mem_boundedColumns {p : String} {pruneKeyRange deleteStale : Bool} :
    p ∈ boundedColumns key (some p) pruneKeyRange deleteStale := by
  have hfold (cols : List String) (hp : p ∈ cols) (ks : List String) :
      p ∈ ks.foldl (fun cols k => if k ∈ cols then cols else cols ++ [k]) cols := by
    induction ks generalizing cols with
    | nil => exact hp
    | cons k ks ih =>
      rw [List.foldl_cons]
      apply ih
      split_ifs
      · exact hp
      · exact List.mem_append_left _ hp
  unfold boundedColumns
  split_ifs
  · exact hfold _ (by simp) key
  · simp

/-- Where a conjunct of the statement comes from. -/
def MergeCond.Probed (fold : String → String) (key : List String) (opts : MergeOptions) (probes : ProbeResults)
    (scan : List (Row V)) : MergeCond V → Prop
  | .eqColumns c => c ∈ key
  | .between c lo hi => (c ∈ key ∨ opts.prunePartition = some c) ∧ probes.bounds = true ∧
      minValue (scan.map (· (fold c))) = some lo ∧ maxValue (scan.map (· (fold c))) = some hi
  | .inList c values => c ∈ key ∧ ∀ s ∈ scan, ∀ v, s (fold c) = some v → v ∈ values

/-- The statement bounds the destination on the prune column. -/
def pruneBound (fold : String → String) (opts : MergeOptions) (probes : ProbeResults) (scan : List (Row V)) :
    Option (MergeCond V) :=
  if probes.bounds then
    opts.prunePartition.bind fun p =>
      match minValue (scan.map (· (fold p))), maxValue (scan.map (· (fold p))) with
      | some lo, some hi => some (.between p lo hi)
      | _, _ => none
  else none

/-- What `mergeInto` builds. -/
structure MergeStatement.BuiltFrom (stmt : MergeStatement V) (fold : String → String) (key columns : List String)
    (opts : MergeOptions) (probes : ProbeResults) (scan : List (Row V)) : Prop where
  key_eq : stmt.key = key
  order_eq : stmt.dedupOrder = opts.dedupOrder.filter (· ∈ columns)
  update_eq : stmt.updateCols = columns.filter (· ∉ key)
  insert_eq : stmt.insertCols = columns
  delete_eq : stmt.deleteBound = if opts.deleteStale then pruneBound fold opts probes scan else none
  keys_on : ∀ k ∈ key, .eqColumns k ∈ stmt.on
  prune_on : ∀ b, pruneBound fold opts probes scan = some b → b ∈ stmt.on
  probed : ∀ c ∈ stmt.on, c.Probed fold key opts probes scan

private theorem windowBound_eq (cols : List String)
    (hcols : ∀ p, opts.prunePartition = some p → p ∈ cols) :
    (opts.prunePartition.bind fun pcol => ((if probes.bounds then probeStagingBounds fold scan cols
      else {} : StagingBounds V).get pcol).map fun b => MergeCond.between pcol b.1 b.2) =
      pruneBound fold opts probes scan := by
  unfold pruneBound
  cases hp : opts.prunePartition with
  | none => simp
  | some p =>
    by_cases hb : probes.bounds = true
    · simp only [hb, if_true, Option.bind_some]
      cases hlo : minValue (scan.map (· (fold p))) with
      | none =>
        have hnone : (probeStagingBounds fold scan cols).get p = none := by
          rw [Option.eq_none_iff_forall_ne_some]
          intro b hget
          have := (get_probeStagingBounds.mp hget).2.1
          rw [hlo] at this
          exact absurd this (by simp)
        rw [hnone, Option.map_none]
      | some lo =>
        cases hhi : maxValue (scan.map (· (fold p))) with
        | none =>
          have hnone : (probeStagingBounds fold scan cols).get p = none := by
            rw [Option.eq_none_iff_forall_ne_some]
            intro b hget
            have := (get_probeStagingBounds.mp hget).2.2
            rw [hhi] at this
            exact absurd this (by simp)
          rw [hnone, Option.map_none]
        | some hi =>
          have hsome : (probeStagingBounds fold scan cols).get p = some (lo, hi) :=
            get_probeStagingBounds.mpr ⟨hcols p hp, hlo, hhi⟩
          rw [hsome, Option.map_some]
    · simp [hb, StagingBounds.get]

/-- The spec of `mergeInto`: when it returns a statement and what that statement is. -/
theorem mergeInto_spec (h : mergeInto fold key columns opts probes scan = .ok stmt) :
    stmt.BuiltFrom fold key columns opts probes scan := by
  unfold mergeInto at h
  extract_lets keyList bounded bounds at h
  split_ifs at h with hfail
  unfold buildMergeSql at h
  by_cases hkey : key = []
  · rw [if_pos hkey] at h
    exact absurd h (by simp)
  rw [if_neg hkey] at h
  extract_lets windowBound keyList' keyBounds at h
  by_cases hpart : opts.deleteStale = true ∧ opts.prunePartition.isNone = true
  · rw [if_pos hpart] at h
    exact absurd h (by simp)
  rw [if_neg hpart] at h
  obtain rfl := Except.ok.inj h
  have hwin : windowBound = pruneBound fold opts probes scan := by
    refine windowBound_eq bounded (fun p hp => ?_)
    show p ∈ boundedColumns key opts.prunePartition _ _
    rw [hp]
    exact mem_boundedColumns
  have hget : ∀ c b, bounds.get c = some b → probes.bounds = true ∧
      minValue (scan.map (· (fold c))) = some b.1 ∧ maxValue (scan.map (· (fold c))) = some b.2 := by
    intro c b hb
    by_cases hp : probes.bounds = true
    · have hb' : (probeStagingBounds fold scan bounded).get c = some b := by
        simpa only [bounds, hp, if_true] using hb
      exact ⟨hp, (get_probeStagingBounds.mp hb').2⟩
    · simp [bounds, hp, StagingBounds.get] at hb
  have hkeyBounds : ∀ c ∈ keyBounds, c.Probed fold key opts probes scan := by
    intro c hc
    simp only [keyBounds] at hc
    cases hl : keyList' with
    | some list =>
      rw [hl] at hc
      obtain rfl := List.mem_singleton.mp hc
      have hlist : keyList = some list := (Option.filter_eq_some_iff.mp hl).1
      simp only [keyList] at hlist
      match key, hkey, hlist with
      | [k], _, hlist =>
        simp only at hlist
        split_ifs at hlist
        exact ⟨List.mem_cons_self, fun s hs v hv => mem_probeStagingKeyList hlist hs hv⟩
    | none =>
      rw [hl] at hc
      simp only at hc
      split_ifs at hc with hr
      · obtain ⟨k, hk, hb⟩ := List.mem_filterMap.mp hc
        obtain ⟨b, hget', rfl⟩ := Option.map_eq_some_iff.mp hb
        exact ⟨Or.inl hk, hget k b hget'⟩
      · simp at hc
  refine ⟨rfl, rfl, rfl, rfl, by rw [← hwin], ?_, ?_, ?_⟩
  · intro k hk
    exact List.mem_append_left _ (List.mem_append_left _ (List.mem_map_of_mem hk))
  · intro b hb
    refine List.mem_append_left _ (List.mem_append_right _ ?_)
    rw [hwin, hb]
    simp
  · intro c hc
    simp only [List.mem_append, List.mem_map, Option.mem_toList] at hc
    rcases hc with (⟨k, hk, rfl⟩ | hc) | hc
    · exact hk
    · obtain ⟨p, hp, hb⟩ := Option.bind_eq_some_iff.mp hc
      obtain ⟨b, hget', rfl⟩ := Option.map_eq_some_iff.mp hb
      exact ⟨Or.inr hp, hget p b hget'⟩
    · exact hkeyBounds c hc

theorem exists_mergeInto (fold : String → String) (columns : List String) (scan : List (Row V)) (hkey : key ≠ [])
    (hdel : opts.deleteStale = true → opts.prunePartition.isSome ∧ probes.bounds = true) :
    ∃ stmt, mergeInto fold key columns opts probes scan = .ok stmt := by
  unfold mergeInto buildMergeSql
  extract_lets
  have h1 : ∀ b : List String, ¬ (b ≠ [] ∧ ¬ probes.bounds = true ∧ opts.deleteStale = true) := by
    rintro b ⟨-, hb, hd⟩
    exact hb (hdel hd).2
  have h2 : ¬ (opts.deleteStale = true ∧ opts.prunePartition.isNone = true) := by
    rintro ⟨hd, hn⟩
    have := (hdel hd).1
    cases hp : opts.prunePartition <;> simp_all
  rw [if_neg (h1 _), if_neg hkey, if_neg h2]
  exact ⟨_, rfl⟩

/-- With the delete on, a statement is only built when the range of its window was read. -/
theorem mergeInto_bounds (h : mergeInto fold key columns opts probes scan = .ok stmt)
    (hd : opts.deleteStale = true) {p : String} (hp : opts.prunePartition = some p) : probes.bounds = true := by
  unfold mergeInto at h
  extract_lets keyList bounded bounds at h
  split_ifs at h with hfail
  have hmem : p ∈ bounded := by
    show p ∈ boundedColumns key opts.prunePartition _ _
    rw [hp]
    exact mem_boundedColumns
  by_contra hnot
  exact hfail ⟨List.ne_nil_of_mem hmem, hnot, hd⟩

/-! ### The join is equality of keys -/

/-- A staged batch: no key column is NULL, and only the written columns hold values. -/
structure StagedBatch (fold : String → String) (key columns : List String) (staged : List (Row V)) : Prop where
  keyed : ∀ s ∈ staged, ∀ k ∈ key, s (fold k) ≠ none
  written : ∀ s ∈ staged, ∀ c, c ∉ columns.map fold → s c = none

/-- The prune column has one value, NULL included, for each staged key. -/
def PruneFixed (fold : String → String) (key : List String) (opts : MergeOptions) (rows staged : List (Row V)) :
    Prop :=
  ∀ p, opts.prunePartition = some p → ∀ r ∈ rows, ∀ s ∈ staged, keyOf fold key r = keyOf fold key s →
    r (fold p) = s (fold p)

/-- The part of it a statement relies on: nothing is bounded by a column without a staged value. -/
def FixedWhereBound (fold : String → String) (key : List String) (opts : MergeOptions)
    (rows staged : List (Row V)) : Prop :=
  ∀ p, opts.prunePartition = some p → (∃ s ∈ staged, s (fold p) ≠ none) → ∀ r ∈ rows, ∀ s ∈ staged,
    keyOf fold key r = keyOf fold key s → r (fold p) = s (fold p)

/-- A partition bound that is emitted admits each destination row of a staged key: it has the staged value
there, and that value is not NULL. -/
def BoundAdmits (fold : String → String) (key : List String) (opts : MergeOptions) (probes : ProbeResults)
    (dest staged : List (Row V)) : Prop :=
  ∀ p, opts.prunePartition = some p → probes.bounds = true → (∃ s ∈ staged, s (fold p) ≠ none) →
    ∀ t ∈ dest, ∀ s ∈ staged, keyOf fold key t = keyOf fold key s → t (fold p) = s (fold p) ∧ s (fold p) ≠ none

/-- The statement bounds its join on a prune column that is NULL in some staged row. -/
def PruneBoundMeetsNull (fold : String → String) (opts : MergeOptions) (probes : ProbeResults)
    (staged : List (Row V)) : Prop :=
  probes.bounds = true ∧ ∃ p, opts.prunePartition = some p ∧ (∃ s ∈ staged, s (fold p) ≠ none) ∧
    ∃ s ∈ staged, s (fold p) = none

omit [LinearOrder V] in
theorem keyOf_eq_iff {t s : Row V} :
    keyOf fold key t = keyOf fold key s ↔ ∀ k ∈ key, t (fold k) = s (fold k) := List.map_inj_left

theorem MergeStatement.BuiltFrom.mem_kept (h : stmt.BuiltFrom fold key columns opts probes scan) {s : Row V}
    (hs : s ∈ stmt.kept fold staged) : s ∈ staged ∧ ∀ s' ∈ staged, keyOf fold key s' = keyOf fold key s →
      orderOf fold stmt.dedupOrder s' ≤ orderOf fold stmt.dedupOrder s := by
  obtain ⟨hmem, hmax⟩ := mem_newest hs
  rw [h.key_eq] at hmax
  exact ⟨hmem, hmax⟩

theorem MergeStatement.BuiltFrom.exists_kept (h : stmt.BuiltFrom fold key columns opts probes scan) {s : Row V}
    (hs : s ∈ staged) : ∃ s' ∈ stmt.kept fold staged, keyOf fold key s' = keyOf fold key s := by
  obtain ⟨s', hs', hk⟩ := exists_mem_newest (keyOf fold stmt.key) (orderOf fold stmt.dedupOrder) hs
  rw [h.key_eq] at hk
  exact ⟨s', hs', hk⟩

/-- The keys of the kept rows are the staged keys, in whatever order the MERGE meets the rows. -/
theorem MergeStatement.BuiltFrom.mem_kept_keys (h : stmt.BuiltFrom fold key columns opts probes scan)
    {merged : List (Row V)} (hperm : merged.Perm staged) (k : List (Option V)) :
    k ∈ (stmt.kept fold merged).map (keyOf fold key) ↔ k ∈ staged.map (keyOf fold key) := by
  constructor
  · intro hk
    obtain ⟨s, hs, rfl⟩ := List.mem_map.mp hk
    exact List.mem_map_of_mem (hperm.mem_iff.mp (h.mem_kept hs).1)
  · intro hk
    obtain ⟨s, hs, rfl⟩ := List.mem_map.mp hk
    obtain ⟨s', hs', hk'⟩ := h.exists_kept (hperm.mem_iff.mpr hs)
    exact List.mem_map.mpr ⟨s', hs', hk'⟩

theorem MergeStatement.BuiltFrom.kept_nodup (h : stmt.BuiltFrom fold key columns opts probes scan)
    (staged : List (Row V)) : ((stmt.kept fold staged).map (keyOf fold key)).Nodup := by
  have := newest_keys_nodup (keyOf fold stmt.key) (orderOf fold stmt.dedupOrder) staged
  unfold MergeStatement.kept
  rw [h.key_eq] at *
  exact this

theorem MergeStatement.BuiltFrom.keepsKeys (h : stmt.BuiltFrom fold key columns opts probes scan)
    (hkey : ∀ k ∈ key, fold k ∈ columns.map fold) :
    (stmt.toMerge fold).KeepsKeys (keyOf fold key) (keyOf fold key) where
  update t s hts := by
    rw [keyOf_eq_iff] at *
    intro k hk
    show (if fold k ∈ stmt.updateCols.map fold then s (fold k) else t (fold k)) = t (fold k)
    split_ifs
    · exact (hts k hk).symm
    · rfl
  insert s := by
    rw [keyOf_eq_iff]
    intro k hk
    show (if fold k ∈ stmt.insertCols.map fold then s (fold k) else none) = s (fold k)
    rw [if_pos (h.insert_eq ▸ hkey k hk)]

theorem pruneBound_eq_some {b : MergeCond V} (h : pruneBound fold opts probes scan = some b) :
    ∃ p lo hi, b = .between p lo hi ∧ opts.prunePartition = some p ∧ probes.bounds = true ∧
      minValue (scan.map (· (fold p))) = some lo ∧ maxValue (scan.map (· (fold p))) = some hi := by
  unfold pruneBound at h
  split_ifs at h with hp
  obtain ⟨p, hpp, hb⟩ := Option.bind_eq_some_iff.mp h
  cases hlo : minValue (scan.map (· (fold p))) with
  | none => simp [hlo] at hb
  | some lo =>
    cases hhi : maxValue (scan.map (· (fold p))) with
    | none => simp [hlo, hhi] at hb
    | some hi =>
      rw [hlo, hhi] at hb
      exact ⟨p, lo, hi, (Option.some.inj hb).symm, hpp, hp, hlo, hhi⟩

/-- The bound is emitted once some staged row has a value on the prune column. -/
theorem exists_pruneBound {p : String} (hp : opts.prunePartition = some p) (hbounds : probes.bounds = true)
    (hsome : ∃ s ∈ scan, s (fold p) ≠ none) : ∃ lo hi, pruneBound fold opts probes scan = some (.between p lo hi) := by
  obtain ⟨s, hs, hv⟩ := hsome
  obtain ⟨v, hv⟩ := Option.ne_none_iff_exists'.mp hv
  obtain ⟨lo, hi, hlo, hhi⟩ := exists_minValue (List.mem_map.mpr ⟨s, hs, hv⟩ : some v ∈ scan.map (· (fold p)))
  refine ⟨lo, hi, ?_⟩
  simp only [pruneBound, hbounds, if_true, hp, Option.bind_some, hlo, hhi]

/-- The bounds admit every destination row of a staged key, when the prune column is not NULL in it. -/
theorem MergeCond.Probed.eval_true {c : MergeCond V} (hc : c.Probed fold key opts probes scan) {t s : Row V}
    (hs : s ∈ scan) (hk : ∀ k ∈ key, t (fold k) = s (fold k)) (hnull : ∀ k ∈ key, s (fold k) ≠ none)
    (hprune : ∀ p, opts.prunePartition = some p → probes.bounds = true → (∃ s ∈ scan, s (fold p) ≠ none) →
      t (fold p) = s (fold p) ∧ s (fold p) ≠ none) : c.eval fold t s = some true := by
  cases c with
  | eqColumns c =>
    refine eq3_eq_true.mpr ⟨hk c hc, ?_⟩
    rw [hk c hc]
    exact hnull c hc
  | between c lo hi =>
    obtain ⟨hcol, hp, hlo, hhi⟩ := hc
    have hts : t (fold c) = s (fold c) ∧ s (fold c) ≠ none := by
      rcases hcol with hcol | hcol
      · exact ⟨hk c hcol, hnull c hcol⟩
      · obtain ⟨s', hs', hv⟩ := List.mem_map.mp (minValue_mem hlo)
        exact hprune c hcol hp ⟨s', hs', by rw [hv]; simp⟩
    obtain ⟨v, hv⟩ := Option.ne_none_iff_exists'.mp hts.2
    have hmem : some v ∈ scan.map (· (fold c)) := List.mem_map.mpr ⟨s, hs, hv⟩
    exact between3_eq_true.mpr ⟨v, hts.1.trans hv, minValue_le hlo hmem, le_maxValue hhi hmem⟩
  | inList c values =>
    obtain ⟨hcol, hvalues⟩ := hc
    obtain ⟨v, hv⟩ := Option.ne_none_iff_exists'.mp (hnull c hcol)
    exact in3_eq_true.mpr ⟨v, (hk c hcol).trans hv, hvalues s hs v hv⟩

omit [LinearOrder V] in
theorem FixedWhereBound.admits (hfix : FixedWhereBound fold key opts dest staged)
    (hnull : ¬ PruneBoundMeetsNull fold opts probes staged) : BoundAdmits fold key opts probes dest staged := by
  intro p hp hbounds hsome t ht s hs hk
  refine ⟨hfix p hp hsome t ht s hs hk, fun hn => ?_⟩
  exact hnull ⟨hbounds, p, hp, hsome, s, hs, hn⟩

/-- Rows the statement joins have one key. -/
theorem MergeStatement.BuiltFrom.keyOf_eq_of_on (h : stmt.BuiltFrom fold key columns opts probes scan)
    {t s : Row V} (hon : (stmt.toMerge fold).on t s = true) : keyOf fold key t = keyOf fold key s := by
  have hall := all3_eq_true.mp (of_decide_eq_true hon)
  rw [keyOf_eq_iff]
  intro k hk
  exact (eq3_eq_true.mp (hall _ (List.mem_map_of_mem (h.keys_on k hk)))).1

/-- Under a bound that admits them, a destination row joins the staged row of its key, and no other. -/
theorem MergeStatement.BuiltFrom.matchesByKey (h : stmt.BuiltFrom fold key columns opts probes scan)
    (hb : StagedBatch fold key columns scan) (hbound₀ : BoundAdmits fold key opts probes dest scan)
    (hmem : ∀ s ∈ staged, s ∈ scan) :
    (stmt.toMerge fold).MatchesByKey (keyOf fold key) (keyOf fold key) dest (stmt.kept fold staged) := by
  intro t ht s hs
  have hs' := hmem s (h.mem_kept hs).1
  constructor
  · exact h.keyOf_eq_of_on
  · intro hk
    rw [keyOf_eq_iff] at hk
    refine decide_eq_true (all3_eq_true.mpr (fun x hx => ?_))
    obtain ⟨c, hc, rfl⟩ := List.mem_map.mp hx
    exact (h.probed c hc).eval_true hs' hk (hb.keyed s hs') (fun p hp hbounds hsome =>
      hbound₀ p hp hbounds hsome t ht s hs' (keyOf_eq_iff.mpr hk))

/-- A staged row that is NULL under the partition bound joins nothing. -/
theorem MergeStatement.BuiltFrom.on_eq_false (h : stmt.BuiltFrom fold key columns opts probes scan)
    (hfix : FixedWhereBound fold key opts dest scan) {p : String} (hp : opts.prunePartition = some p)
    {b : MergeCond V} (hbound : pruneBound fold opts probes scan = some b) {t s : Row V} (ht : t ∈ dest)
    (hs : s ∈ scan) (hn : s (fold p) = none) : (stmt.toMerge fold).on t s = false := by
  rw [Bool.eq_false_iff]
  intro hon
  have hk := h.keyOf_eq_of_on hon
  have hall := all3_eq_true.mp (of_decide_eq_true hon)
  obtain ⟨p', lo, hi, rfl, hp', -, hlo, -⟩ := pruneBound_eq_some hbound
  obtain rfl : p = p' := Option.some.inj (hp.symm.trans hp')
  obtain ⟨s₀, hs₀, hv₀⟩ := List.mem_map.mp (minValue_mem hlo)
  obtain ⟨v, hv, -⟩ := between3_eq_true.mp (hall _ (List.mem_map_of_mem (h.prune_on _ hbound)))
  rw [hfix p hp ⟨s₀, hs₀, by rw [hv₀]; simp⟩ t ht s hs hk, hn] at hv
  exact absurd hv (by simp)

end Merge

end Quickhouse
