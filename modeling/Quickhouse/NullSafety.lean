import Quickhouse.NullGuard

/-!
# No NULL where the destination cannot hold one

`NullSafe` says that each column the plan makes NOT NULL is checked by the guard or read by an expression that never
gives NULL, and that every batch then passes.  The guard meets the columns an option names; a column that is NOT
NULL because its source column is, is left to the expression that reads it (`KeepsNotNull`).
-/

namespace Quickhouse

open TransferConfig

/-! ### Batches and fields -/

theorem conforms_iff {V : Type} {fields : List Field} {row : List (Option V)} :
    Conforms fields row ↔ row.length = fields.length ∧
      ∀ (i : Nat) (f : Field), fields[i]? = some f → f.nullable = false → row[i]? ≠ some none := by
  constructor
  · rintro ⟨hlen, hcells⟩
    refine ⟨hlen, fun i f hf hnull hrow => ?_⟩
    have hmem : (f, (none : Option V)) ∈ fields.zip row :=
      List.mem_of_getElem? (List.getElem?_zip_eq_some.mpr ⟨hf, hrow⟩)
    rcases hcells _ hmem with h | h
    · rw [hnull] at h
      cases h
    · cases h
  · rintro ⟨hlen, hcells⟩
    refine ⟨hlen, fun cell hmem => ?_⟩
    obtain ⟨i, hi⟩ := List.mem_iff_getElem?.mp hmem
    obtain ⟨hf, hv⟩ := List.getElem?_zip_eq_some.mp hi
    by_cases hnull : cell.1.nullable = true
    · exact .inl hnull
    · refine .inr ?_
      cases hc : cell.2 with
      | some v => rfl
      | none =>
        rw [hc] at hv
        exact absurd hv (hcells i cell.1 hf (by simpa using hnull))

namespace NullGuard

variable {V : Type} {g : NullGuard}

theorem nullAt_iff {row : List (Option V)} {i : Nat} : nullAt row i = true ↔ row[i]? = some none := by
  unfold nullAt
  rw [Option.any_eq_true]
  constructor
  · rintro ⟨v, hv, hnone⟩
    rw [hv, Option.isNone_iff_eq_none.mp hnone]
  · exact fun h => ⟨none, h, rfl⟩

/-- A row that is kept has no NULL in a left-out column. -/
theorem keeps_iff {row : List (Option V)} : g.keeps row = true ↔ ∀ c ∈ g.columns, row[c.idx]? ≠ some none := by
  unfold keeps firstNull
  rw [Option.isNone_iff_eq_none, List.findIdx?_eq_none_iff]
  refine forall₂_congr fun c _ => ?_
  rw [ne_eq, ← nullAt_iff, Bool.not_eq_true]

/-- A row is as it was read, but for the default where a defaulted column was NULL. -/
def FilledFrom (g : NullGuard) (row row' : List (Option V)) : Prop :=
  row'.length = row.length ∧
    ∀ i, row'[i]? = row[i]? ∨ row[i]? = some none ∧ ∃ d ∈ g.defaulted, d.idx = i

theorem getElem?_fillNulls (zeroScalar : ArrowType → Option String → V) {fields : List Field}
    {row : List (Option V)} {i : Nat} {f : Field} {v : Option V} (hf : fields[i]? = some f) (hv : row[i]? = some v) :
    (g.fillNulls zeroScalar fields row)[i]? = some (g.fillCell zeroScalar f i v) := by
  unfold fillNulls
  rw [List.getElem?_zipWith, List.getElem?_zipIdx, hf, hv]
  simp only [Option.map_some, Nat.zero_add]

theorem fillNulls_filledFrom (zeroScalar : ArrowType → Option String → V) {fields : List Field}
    {row : List (Option V)} (hlen : row.length = fields.length) :
    g.FilledFrom row (g.fillNulls zeroScalar fields row) := by
  have hlen' : (g.fillNulls zeroScalar fields row).length = row.length := by
    unfold fillNulls
    rw [List.length_zipWith, List.length_zipIdx, hlen, Nat.min_self]
  refine ⟨hlen', fun i => ?_⟩
  by_cases hi : i < row.length
  · obtain ⟨v, hv⟩ : ∃ v, row[i]? = some v := ⟨_, List.getElem?_eq_getElem hi⟩
    obtain ⟨f, hf⟩ : ∃ f, fields[i]? = some f := ⟨_, List.getElem?_eq_getElem (hlen ▸ hi)⟩
    rw [getElem?_fillNulls zeroScalar hf hv, hv]
    cases v with
    | some v => exact .inl rfl
    | none =>
      unfold fillCell
      cases hd : g.defaulted.find? (·.idx = i) with
      | none => exact .inl rfl
      | some d => exact .inr ⟨rfl, d, List.mem_of_find?_eq_some hd, by simpa using List.find?_some hd⟩
  · refine .inl ?_
    rw [List.getElem?_eq_none (by omega), List.getElem?_eq_none (by omega)]

/-- A defaulted column is never NULL once filled. -/
theorem fillNulls_defaulted (zeroScalar : ArrowType → Option String → V) {fields : List Field}
    {row : List (Option V)} (hlen : row.length = fields.length) {d : Defaulted} (hd : d ∈ g.defaulted) :
    (g.fillNulls zeroScalar fields row)[d.idx]? ≠ some none := by
  intro h
  have hi : d.idx < row.length := by
    obtain ⟨hi, -⟩ := List.getElem?_eq_some_iff.mp h
    rwa [(fillNulls_filledFrom zeroScalar hlen).1] at hi
  obtain ⟨v, hv⟩ : ∃ v, row[d.idx]? = some v := ⟨_, List.getElem?_eq_getElem hi⟩
  obtain ⟨f, hf⟩ : ∃ f, fields[d.idx]? = some f := ⟨_, List.getElem?_eq_getElem (hlen ▸ hi)⟩
  rw [getElem?_fillNulls zeroScalar hf hv] at h
  cases v with
  | some v => cases h
  | none =>
    cases hfind : g.defaulted.find? (·.idx = d.idx) with
    | none =>
      have := List.find?_eq_none.mp hfind d hd
      simp at this
    | some d' =>
      rw [fillCell, hfind] at h
      cases h

end NullGuard

/-! ### A batch passes -/

/-- The positions the guard checks. -/
def checkedOf (guard : Option NullGuard) : List Nat := guard.elim [] NullGuard.checked

/-- The guard's columns stand in the plan where the guard says. -/
structure NullGuard.Placed (g : NullGuard) (destColumns : List ColumnType) : Prop where
  columns : ∀ c ∈ g.columns, ∃ d, destColumns[c.idx]? = some d ∧ d.name = c.dest
  defaulted : ∀ c ∈ g.defaulted, ∃ d, destColumns[c.idx]? = some d ∧ d.name = c.column

namespace NullGuard

variable {V : Type} {g : NullGuard}

theorem getElem?_decodeColumns {destColumns : List ColumnType} {i : Nat} :
    (g.decodeColumns destColumns)[i]? = (destColumns[i]?).map
      fun c => if g.checked.contains i then { c with nullable := true } else c := by
  unfold decodeColumns
  rw [List.getElem?_mapIdx]

theorem length_decodeColumns {destColumns : List ColumnType} :
    (g.decodeColumns destColumns).length = destColumns.length := List.length_mapIdx

theorem columnAt_ok {fields : List Field} {idx : Nat} {name : String} {f : Field}
    (hf : fields[idx]? = some f) (hname : f.name = name) : columnAt fields idx name = .ok () := by
  unfold columnAt
  rw [hf, Option.any_some, if_pos (by simpa using hname)]

theorem forM_ok {α : Type} {f : α → Except String Unit} {xs : List α} (h : ∀ x ∈ xs, f x = .ok ()) :
    xs.forM f = .ok () := by
  induction xs with
  | nil => rfl
  | cons x xs ih =>
    have hx := h x List.mem_cons_self
    have hxs := ih fun y hy => h y (List.mem_cons_of_mem _ hy)
    simp only [List.forM_eq_forM, List.forM_cons, hx] at hxs ⊢
    exact hxs

/-- One of the positions is the one counted. -/
private theorem sum_ite_range (k n : Nat) :
    ((List.range n).map fun j => if k = j then 1 else 0).sum = if k < n then 1 else 0 := by
  induction n with
  | zero => rfl
  | succ n ih =>
    rw [List.range_succ, List.map_append, List.sum_append, ih]
    simp only [List.map_cons, List.map_nil, List.sum_cons, List.sum_nil]
    split_ifs <;> omega

/-- The rows kept and the rows counted as left out are all the rows. -/
theorem length_eq_kept_add_leftOut (rows : List (List (Option V))) :
    rows.length = (rows.filter g.keeps).length +
      ((List.range g.columns.length).map fun j => rows.countP fun row => g.firstNull row = some j).sum := by
  induction rows with
  | nil => simp
  | cons row rows ih =>
    simp only [List.countP_cons, List.sum_map_add, List.length_cons, List.filter_cons]
    by_cases hkeep : g.keeps row = true
    · have hnone : g.firstNull row = none := by simpa [keeps] using hkeep
      simp only [hkeep, if_true, List.length_cons, hnone]
      simp
      omega
    · obtain ⟨j, hj⟩ := Option.ne_none_iff_exists'.mp (show g.firstNull row ≠ none by simpa [keeps] using hkeep)
      have hlt : j < g.columns.length := by
        obtain ⟨h, -⟩ := List.findIdx?_eq_some_iff_getElem.mp hj
        exact h
      have hone := sum_ite_range j g.columns.length
      rw [if_pos hlt] at hone
      simp only [hkeep, hj, Option.some.injEq, decide_eq_true_eq, hone, Bool.false_eq_true, if_false]
      omega

end NullGuard

/-- What became of the rows of a batch: those with a NULL in a left-out column are counted and not written, and a
written row is as it was read but for defaults, which are counted. -/
def NullsAccounted {V : Type} (guard : Option NullGuard) (read : List (List (Option V))) (f : Filtered V) : Prop :=
  match guard with
  | none => f.batch.rows = read
  | some g => List.Forall₂ g.FilledFrom (read.filter g.keeps) f.batch.rows ∧
      read.length = f.batch.rows.length + f.leftOut.sum ∧
      f.defaulted = g.defaulted.map fun d => (read.filter g.keeps).countP fun row => NullGuard.nullAt row d.idx

/-- Each column the plan makes NOT NULL is checked, or read by an expression that gives no NULL; and every batch of
rows the source can hold is written, with every row that is altered for a NULL counted. -/
structure NullSafe {V : Type} (schema : SourceSchema) (vals : Values V) (plan : ColumnPlan)
    (guard : Option NullGuard) : Prop where
  guarded : ∀ (i : Nat) (d : ColumnType), plan.destColumns[i]? = some d → d.nullable = false →
    i ∈ checkedOf guard ∨ ∀ row : StoredRow V schema, (schema.readRow vals plan row)[i]? ≠ some none
  written : ∀ rows : List (StoredRow V schema), ∃ f, schema.writeBatch vals plan guard rows = .ok f ∧
    NullsAccounted guard (rows.map (schema.readRow vals plan)) f

section

variable {V : Type} {schema : SourceSchema} {vals : Values V} {plan : ColumnPlan} {guard : Option NullGuard}

private theorem getElem?_field {destColumns : List ColumnType} {i : Nat} {f : Field}
    (h : (destColumns.map ColumnType.field)[i]? = some f) :
    ∃ d, destColumns[i]? = some d ∧ d.field = f := by
  rw [List.getElem?_map, Option.map_eq_some_iff] at h
  exact h

/-- The kept rows, filled, fit the destination's fields. -/
theorem NullGuard.strict_conforms {g : NullGuard} (zeroScalar : ArrowType → Option String → V) (batch : Batch V) :
    ∀ row ∈ (batch.rows.filter g.keeps).map (g.fillNulls zeroScalar batch.fields),
      Conforms (g.strictSchema batch.fields) row := by
  intro row' hrow'
  obtain ⟨row, hrow, rfl⟩ := List.mem_map.mp hrow'
  obtain ⟨hread, hkeep⟩ := List.mem_filter.mp hrow
  have hconf := conforms_iff.mp (batch.conforms row hread)
  have hfill := @fillNulls_filledFrom _ g zeroScalar _ _ hconf.1
  refine conforms_iff.mpr ⟨?_, fun i f hf hnull hcell => ?_⟩
  · rw [hfill.1, hconf.1]
    unfold NullGuard.strictSchema
    rw [List.length_mapIdx]
  · unfold NullGuard.strictSchema at hf
    rw [List.getElem?_mapIdx, Option.map_eq_some_iff] at hf
    obtain ⟨f, hf, rfl⟩ := hf
    by_cases hi : i ∈ g.checked
    · rcases List.mem_append.mp hi with hi | hi
      · obtain ⟨c, hc, rfl⟩ := List.mem_map.mp hi
        -- the row was kept, so it has no NULL there
        rcases hfill.2 c.idx with h | ⟨h, -⟩
        · exact NullGuard.keeps_iff.mp hkeep c hc (h ▸ hcell)
        · exact NullGuard.keeps_iff.mp hkeep c hc h
      · obtain ⟨d, hd, rfl⟩ := List.mem_map.mp hi
        exact NullGuard.fillNulls_defaulted zeroScalar hconf.1 hd hcell
    · have hfnull : f.nullable = false := by simpa [hi] using hnull
      rcases hfill.2 i with h | ⟨h, -⟩
      · exact hconf.2 i f hf hfnull (h ▸ hcell)
      · exact hconf.2 i f hf hfnull h

/-- What a guard whose columns stand in the batch makes of it. -/
theorem NullGuard.filter_eq {g : NullGuard} (zeroScalar : ArrowType → Option String → V) {batch : Batch V}
    (hcolumns : ∀ c ∈ g.columns, columnAt batch.fields c.idx c.dest = .ok ())
    (hdefaulted : ∀ c ∈ g.defaulted, columnAt batch.fields c.idx c.column = .ok ()) :
    g.filter zeroScalar batch = .ok {
      batch := ⟨_, _, g.strict_conforms zeroScalar batch⟩
      leftOut := (List.range g.columns.length).map fun j => batch.rows.countP fun row => g.firstNull row = some j
      defaulted := g.defaulted.map fun d => (batch.rows.filter g.keeps).countP fun row => nullAt row d.idx } := by
  unfold NullGuard.filter
  simp only [forM_ok hcolumns, forM_ok hdefaulted, tryNew_ok (g.strict_conforms zeroScalar batch), bind, Except.bind,
    pure, Except.pure]

/-- A guard whose columns stand in the batch passes it, and counts what it alters. -/
theorem NullGuard.filter_ok {g : NullGuard} (zeroScalar : ArrowType → Option String → V) {batch : Batch V}
    (hcolumns : ∀ c ∈ g.columns, columnAt batch.fields c.idx c.dest = .ok ())
    (hdefaulted : ∀ c ∈ g.defaulted, columnAt batch.fields c.idx c.column = .ok ()) :
    ∃ f, g.filter zeroScalar batch = .ok f ∧ NullsAccounted (some g) batch.rows f := by
  refine ⟨_, filter_eq zeroScalar hcolumns hdefaulted, ?_, ?_, rfl⟩
  · refine List.forall₂_map_right_iff.mpr (List.forall₂_same.mpr fun row hrow => ?_)
    exact fillNulls_filledFrom zeroScalar (conforms_iff.mp (batch.conforms row (List.mem_filter.mp hrow).1)).1
  · dsimp only
    rw [List.length_map]
    exact length_eq_kept_add_leftOut _

/-- A guard whose columns stand in the plan lets every batch pass. -/
theorem writeBatch_ok (hsources : plan.sourceColumns.length = plan.destColumns.length)
    (hexprs : plan.sourceSelectExprs.length = plan.destColumns.length)
    (hplaced : ∀ g, guard = some g → g.Placed plan.destColumns)
    (hguarded : ∀ (i : Nat) (d : ColumnType), plan.destColumns[i]? = some d → d.nullable = false →
      i ∈ checkedOf guard ∨ ∀ row : StoredRow V schema, (schema.readRow vals plan row)[i]? ≠ some none)
    (rows : List (StoredRow V schema)) :
    ∃ f, schema.writeBatch vals plan guard rows = .ok f ∧
      NullsAccounted guard (rows.map (schema.readRow vals plan)) f := by
  have hwidth : ∀ row : StoredRow V schema, (schema.readRow vals plan row).length = plan.destColumns.length := by
    intro row
    unfold SourceSchema.readRow
    rw [List.length_zipWith, List.length_zip, hsources, hexprs, Nat.min_self, Nat.min_self]
  unfold SourceSchema.writeBatch
  cases guard with
  | none =>
    have hconforms : ∀ row ∈ rows.map (schema.readRow vals plan),
        Conforms (plan.destColumns.map ColumnType.field) row := by
      intro row hrow
      obtain ⟨stored, -, rfl⟩ := List.mem_map.mp hrow
      refine conforms_iff.mpr ⟨by rw [hwidth, List.length_map], fun i f hf hnull => ?_⟩
      obtain ⟨d, hd, rfl⟩ := getElem?_field hf
      rcases hguarded i d hd hnull with h | h
      · cases h
      · exact h stored
    dsimp only
    rw [tryNew_ok hconforms]
    exact ⟨_, rfl, rfl⟩
  | some g =>
    have hdecoded : ∀ row ∈ rows.map (schema.readRow vals plan),
        Conforms ((g.decodeColumns plan.destColumns).map ColumnType.field) row := by
      intro row hrow
      obtain ⟨stored, -, rfl⟩ := List.mem_map.mp hrow
      refine conforms_iff.mpr ⟨?_, fun i f hf hnull => ?_⟩
      · rw [hwidth, List.length_map, NullGuard.length_decodeColumns]
      · obtain ⟨c, hc, rfl⟩ := getElem?_field hf
        rw [NullGuard.getElem?_decodeColumns, Option.map_eq_some_iff] at hc
        obtain ⟨d, hd, rfl⟩ := hc
        -- a checked column is decoded nullable
        by_cases hi : i ∈ g.checked
        · rw [if_pos (List.contains_iff_mem.mpr hi)] at hnull
          cases hnull
        · rw [if_neg (by simpa using hi)] at hnull
          exact (hguarded i d hd hnull).resolve_left hi stored
    dsimp only
    rw [tryNew_ok hdecoded]
    set fields := (g.decodeColumns plan.destColumns).map ColumnType.field with hfields
    have hfield : ∀ {i : Nat} {d : ColumnType}, plan.destColumns[i]? = some d →
        ∃ f, fields[i]? = some f ∧ f.name = d.name := by
      intro i d hd
      rw [hfields, List.getElem?_map, NullGuard.getElem?_decodeColumns, hd]
      refine ⟨_, rfl, ?_⟩
      dsimp only [ColumnType.field]
      split_ifs <;> rfl
    have hplaced := hplaced g rfl
    refine @NullGuard.filter_ok _ g vals.zeroScalar ⟨fields, _, hdecoded⟩ ?_ ?_
    · intro c hc
      obtain ⟨d, hd, hname⟩ := hplaced.columns c hc
      obtain ⟨f, hf, hfname⟩ := hfield hd
      exact NullGuard.columnAt_ok hf (hfname.trans hname)
    · intro c hc
      obtain ⟨d, hd, hname⟩ := hplaced.defaulted c hc
      obtain ⟨f, hf, hfname⟩ := hfield hd
      exact NullGuard.columnAt_ok hf (hfname.trans hname)

end

/-! ### The guard of a plan -/

namespace NullGuard

variable {plan : ColumnPlan} {cfg : TransferConfig} {dest : DestKind}

private theorem mem_watermarkColumn {c : Guarded} :
    c ∈ watermarkColumn plan cfg ↔ ∃ w d, cfg.watermark = some w ∧
      plan.sourceColumns.findIdx? (· = w) = some c.idx ∧ plan.destColumns[c.idx]? = some d ∧ d.nullable = false ∧
      c = ⟨c.idx, d.name, w, .nullWatermark⟩ := by
  unfold watermarkColumn
  cases hw : cfg.watermark with
  | none => simp
  | some w =>
    cases hidx : plan.sourceColumns.findIdx? (· = w) with
    | none => simp [hidx]
    | some idx =>
      cases hd : plan.destColumns[idx]? with
      | none =>
        simp only [hidx, hd, List.not_mem_nil, false_iff]
        rintro ⟨w', d, hw', hidx', hd', -⟩
        obtain rfl := Option.some.inj hw'
        rw [hidx] at hidx'
        obtain rfl := Option.some.inj hidx'
        rw [hd] at hd'
        cases hd'
      | some d =>
        simp only [hidx, hd]
        constructor
        · intro h
          split_ifs at h with hnull
          · cases h
          · obtain rfl := List.mem_singleton.mp h
            exact ⟨w, d, rfl, hidx, hd, by simpa using hnull, rfl⟩
        · rintro ⟨w', d', hw', hidx', hd', hnull, hc⟩
          obtain rfl := Option.some.inj hw'
          rw [hidx] at hidx'
          have hidx' := Option.some.inj hidx'
          subst hidx'
          rw [hd] at hd'
          obtain rfl := Option.some.inj hd'
          rw [hnull, if_neg Bool.false_ne_true, hc]
          exact List.mem_singleton_self _

/-- The key columns join the positions that are there. -/
private theorem mem_keyColumns (keys : List String) (columns : List Guarded) (i : Nat) :
    i ∈ (keys.foldl (keyColumn plan) columns).map Guarded.idx ↔ i ∈ columns.map Guarded.idx ∨
      i < plan.destColumns.length ∧ ∃ k ∈ keys, keyPosition (plan.destColumns.map ColumnType.name) k = some i := by
  induction keys generalizing columns with
  | nil => simp
  | cons k keys ih =>
    rw [List.foldl_cons, ih]
    have hstep : i ∈ (keyColumn plan columns k).map Guarded.idx ↔ i ∈ columns.map Guarded.idx ∨
        i < plan.destColumns.length ∧ keyPosition (plan.destColumns.map ColumnType.name) k = some i := by
      unfold keyColumn
      cases hk : keyPosition (plan.destColumns.map ColumnType.name) k with
      | none => simp
      | some idx =>
        cases hd : plan.destColumns[idx]? with
        | none =>
          have := List.getElem?_eq_none_iff.mp hd
          simp only [hd, Option.some.injEq]
          constructor
          · exact .inl
          · rintro (h | ⟨hlt, rfl⟩)
            · exact h
            · omega
        | some d =>
          have hlt : idx < plan.destColumns.length := (List.getElem?_eq_some_iff.mp hd).1
          simp only [hd, Option.some.injEq]
          split_ifs with hany
          · constructor
            · exact .inl
            · rintro (h | ⟨-, rfl⟩)
              · exact h
              · obtain ⟨c, hc, hidx⟩ := List.any_eq_true.mp hany
                exact List.mem_map.mpr ⟨c, hc, by simpa using hidx⟩
          · rw [List.map_append, List.mem_append]
            simp only [List.map_cons, List.map_nil, List.mem_singleton]
            constructor
            · rintro (h | rfl)
              · exact .inl h
              · exact .inr ⟨hlt, rfl⟩
            · rintro (h | ⟨-, rfl⟩)
              · exact .inl h
              · exact .inr rfl
    rw [hstep]
    simp only [List.mem_cons, exists_eq_or_imp]
    tauto

private theorem keyColumns_placed (keys : List String) {columns : List Guarded}
    (h : ∀ c ∈ columns, ∃ d, plan.destColumns[c.idx]? = some d ∧ d.name = c.dest) :
    ∀ c ∈ keys.foldl (keyColumn plan) columns, ∃ d, plan.destColumns[c.idx]? = some d ∧ d.name = c.dest := by
  induction keys generalizing columns with
  | nil => exact h
  | cons k keys ih =>
    refine ih fun c hc => ?_
    unfold keyColumn at hc
    split at hc
    · exact h c hc
    · split at hc
      · rename_i d hd
        split_ifs at hc
        · exact h c hc
        · rcases List.mem_append.mp hc with hc | hc
          · exact h c hc
          · obtain rfl := List.mem_singleton.mp hc
            exact ⟨d, hd, rfl⟩
      · exact h c hc

theorem defaultedColumn_eq_some {columns : List Guarded} {d : ColumnType} {i : Nat} {c : Defaulted}
    (h : defaultedColumn cfg dest columns d i = some c) :
    c.idx = i ∧ c.column = d.name ∧ (notNullBy cfg dest d.name).isSome = true := by
  unfold defaultedColumn at h
  by_cases hskip : (d.nullable || columns.any (·.idx = i)) = true
  · rw [if_pos hskip] at h
    cases h
  · rw [if_neg hskip] at h
    obtain ⟨reason, hreason, rfl⟩ := Option.map_eq_some_iff.mp h
    rw [hreason]
    exact ⟨rfl, rfl, rfl⟩

private theorem mem_defaultedColumns {columns : List Guarded} {c : Defaulted} :
    c ∈ defaultedColumns plan cfg dest columns ↔ ∃ d, plan.destColumns[c.idx]? = some d ∧
      defaultedColumn cfg dest columns d c.idx = some c := by
  unfold defaultedColumns
  rw [List.mem_filterMap]
  constructor
  · rintro ⟨⟨d, i⟩, hmem, h⟩
    obtain ⟨rfl, -⟩ := defaultedColumn_eq_some h
    exact ⟨d, List.mem_zipIdx_iff_getElem?.mp hmem, h⟩
  · rintro ⟨d, hd, h⟩
    exact ⟨(d, c.idx), List.mem_zipIdx_iff_getElem?.mpr hd, h⟩

theorem notNullBy_isSome {name : String} : (notNullBy cfg dest name).isSome = true ↔ name ∈ cfg.namedNotNull dest := by
  unfold notNullBy TransferConfig.namedNotNull
  simp only [List.contains_iff_mem, List.mem_append]
  split_ifs <;> simp_all

/-- The guard's columns stand where it says. -/
theorem new_placed {g : NullGuard} (h : new plan cfg dest = some g) : g.Placed plan.destColumns := by
  unfold new at h
  dsimp only at h
  split_ifs at h
  obtain rfl := Option.some.inj h
  refine ⟨keyColumns_placed cfg.key fun c hc => ?_, fun c hc => ?_⟩
  · obtain ⟨w, d, -, -, hd, -, hc⟩ := mem_watermarkColumn.mp hc
    exact ⟨d, hd, by rw [hc]⟩
  · obtain ⟨d, hd, hdef⟩ := mem_defaultedColumns.mp hc
    exact ⟨d, hd, (defaultedColumn_eq_some hdef).2.1.symm⟩

/-- The guard checks a column that cannot be NULL when a key or another option names it, or it is the watermark. -/
theorem mem_checkedOf_new {i : Nat} {d : ColumnType} (hd : plan.destColumns[i]? = some d) (hnull : d.nullable = false)
    (hdest : dest ≠ .csv) :
    i ∈ checkedOf (new plan cfg dest) ↔
      (∃ w, cfg.watermark = some w ∧ plan.sourceColumns.findIdx? (· = w) = some i) ∨
        (∃ k ∈ cfg.key, keyPosition (plan.destColumns.map ColumnType.name) k = some i) ∨
        d.name ∈ cfg.namedNotNull dest := by
  have hlt : i < plan.destColumns.length := (List.getElem?_eq_some_iff.mp hd).1
  have hchecked : i ∈ checkedOf (new plan cfg dest) ↔ i ∈ (leftOutColumns plan cfg).map Guarded.idx ∨
      i ∈ (defaultedColumns plan cfg dest (leftOutColumns plan cfg)).map Defaulted.idx := by
    unfold new checkedOf
    rw [if_neg hdest]
    dsimp only
    split_ifs with hempty
    · rw [hempty.2, hempty.1]
      simp
    · exact List.mem_append
  have hleft : i ∈ (leftOutColumns plan cfg).map Guarded.idx ↔
      (∃ w, cfg.watermark = some w ∧ plan.sourceColumns.findIdx? (· = w) = some i) ∨
        ∃ k ∈ cfg.key, keyPosition (plan.destColumns.map ColumnType.name) k = some i := by
    unfold leftOutColumns
    rw [mem_keyColumns, and_iff_right hlt]
    refine or_congr_left ⟨fun h => ?_, fun ⟨w, hw, hidx⟩ => ?_⟩
    · obtain ⟨c, hc, rfl⟩ := List.mem_map.mp h
      obtain ⟨w, _, hw, hidx, -⟩ := mem_watermarkColumn.mp hc
      exact ⟨w, hw, hidx⟩
    · exact List.mem_map.mpr ⟨⟨i, d.name, w, .nullWatermark⟩,
        mem_watermarkColumn.mpr ⟨w, d, hw, hidx, hd, hnull, rfl⟩, rfl⟩
  rw [hchecked, ← or_assoc, ← hleft]
  by_cases hmem : i ∈ (leftOutColumns plan cfg).map Guarded.idx
  · simp only [hmem, true_or]
  simp only [hmem, false_or]
  have hany : (leftOutColumns plan cfg).any (·.idx = i) = false := by
    rw [List.any_eq_false]
    intro c hc hidx
    exact hmem (List.mem_map.mpr ⟨c, hc, by simpa using hidx⟩)
  rw [← notNullBy_isSome]
  constructor
  · intro h
    obtain ⟨c, hc, rfl⟩ := List.mem_map.mp h
    obtain ⟨d', hd', hdef⟩ := mem_defaultedColumns.mp hc
    obtain rfl : d = d' := Option.some.inj (hd.symm.trans hd')
    exact (defaultedColumn_eq_some hdef).2.2
  · intro h
    obtain ⟨reason, hreason⟩ := Option.isSome_iff_exists.mp h
    have hdef : (defaultedColumn cfg dest (leftOutColumns plan cfg) d i).isSome = true := by
      unfold defaultedColumn
      rw [hnull, hany, hreason]
      rfl
    obtain ⟨c, hc⟩ := Option.isSome_iff_exists.mp hdef
    have hidx := (defaultedColumn_eq_some hc).1
    exact List.mem_map.mpr ⟨c, mem_defaultedColumns.mpr ⟨d, hidx ▸ hd, hidx ▸ hc⟩, hidx⟩

end NullGuard

/-! ### The plan and its guard -/

/-- No option of the guard meets column `i`: not one that names it, no key and not the watermark. -/
def Unguarded (cfg : TransferConfig) (dest : DestKind) (source : List ColumnType) (i : Nat) (c : ColumnType) : Prop :=
  cfg.landed c.name ∉ cfg.namedNotNull dest ∧
    (∀ k ∈ cfg.key, keyPosition ((cfg.includedColumns source).map fun c => cfg.landed c.name) k ≠ some i) ∧
    ∀ w, cfg.watermark = some w → ((cfg.includedColumns source).map ColumnType.name).findIdx? (· = w) ≠ some i

/-- A column that is NOT NULL only because its source column is, is transformed by no expression that can give NULL;
and a column that a key or the version makes NOT NULL, but whose name an earlier column takes, reads no NULL. -/
structure KeepsNotNull {V : Type} (schema : SourceSchema) (vals : Values V) (cfg : TransferConfig) (dest : DestKind)
    (existing : ExistingColumns) : Prop where
  transforms : ∀ i c arrow, (cfg.includedColumns schema.columns)[i]? = some c →
    cfg.decodedAs dest schema.columns existing c = .ok arrow → Unguarded cfg dest schema.columns i c →
    cfg.forceNonNullable dest c = false → cfg.plannedNullable dest schema.kind.mayCoerce c arrow = false →
    ∀ e, cfg.columnTransforms.get c.name = some e → ∀ row : StoredRow V schema, vals.eval e row.val ≠ none
  shadowed : ∀ i c arrow, (cfg.includedColumns schema.columns)[i]? = some c →
    cfg.decodedAs dest schema.columns existing c = .ok arrow → Unguarded cfg dest schema.columns i c →
    cfg.forceNonNullable dest c = true →
    ∀ row : StoredRow V schema, schema.readCell vals c.name (cfg.columnTransforms.get c.name) arrow row ≠ none

section

variable {V : Type} {schema : SourceSchema} {vals : Values V} {cfg : TransferConfig} {dest : DestKind}
  {existing : ExistingColumns} {plan : ColumnPlan}

private theorem forall₂_getElem? {α β : Type} {R : α → β → Prop} {xs : List α} {ys : List β}
    (h : List.Forall₂ R xs ys) {i : Nat} {y : β} (hy : ys[i]? = some y) : ∃ x, xs[i]? = some x ∧ R x y := by
  induction h generalizing i with
  | nil => cases hy
  | @cons x y' xs ys hxy _ ih =>
    cases i with
    | zero =>
      obtain rfl := Option.some.inj hy
      exact ⟨x, rfl, hxy⟩
    | succ i => exact ih hy

private theorem forall₂_getElem?' {α β : Type} {R : α → β → Prop} {xs : List α} {ys : List β}
    (h : List.Forall₂ R xs ys) {i : Nat} {x : α} (hx : xs[i]? = some x) : ∃ y, ys[i]? = some y ∧ R x y :=
  forall₂_getElem? h.flip hx

/-- A cell of a row that is read is the value of its select expression, decoded. -/
theorem getElem?_readRow (hplan : Planned cfg dest schema.columns schema.kind.mayCoerce existing plan) {i : Nat}
    {c d : ColumnType} (hc : (cfg.includedColumns schema.columns)[i]? = some c)
    (hd : plan.destColumns[i]? = some d) (row : StoredRow V schema) :
    (schema.readRow vals plan row)[i]? =
      some (schema.readCell vals c.name (cfg.columnTransforms.get c.name) d.arrow row) := by
  have hselect : (plan.sourceColumns.zip plan.sourceSelectExprs)[i]? =
      some (c.name, cfg.columnTransforms.get c.name) := by
    rw [hplan.sources, hplan.exprs, List.getElem?_zip_eq_some, List.getElem?_map, List.getElem?_map, hc]
    exact ⟨rfl, rfl⟩
  unfold SourceSchema.readRow
  rw [List.getElem?_zipWith, hselect, hd]

/-- A decoder that may write NULL for a value makes the plan's column nullable. -/
theorem decode_ne_none {c : ColumnType} {arrow : ArrowType} (hc : c ∈ schema.columns)
    (hforce : cfg.forceNonNullable dest c = false)
    (hnull : cfg.plannedNullable dest schema.kind.mayCoerce c arrow = false) (v : V) :
    schema.decode vals arrow v = some v := by
  have hcoerces : schema.kind.coerces arrow = false := by
    unfold TransferConfig.plannedNullable at hnull
    rw [hforce, if_neg Bool.false_ne_true] at hnull
    split_ifs at hnull
    rw [Bool.or_eq_false_iff, Bool.or_eq_false_iff] at hnull
    obtain ⟨⟨hnotNull, hmay⟩, -⟩ := hnull
    have hapi := schema.api_nullable
    cases hkind : schema.kind <;> rw [hkind] at hmay hapi
    case api =>
      rw [hapi rfl c hc] at hnotNull
      cases hnotNull
    all_goals cases arrow <;> first | rfl | cases hmay
  unfold SourceSchema.decode
  rw [hcoerces]
  rfl

private theorem mem_of_included {c : ColumnType} {i : Nat} (hc : (cfg.includedColumns schema.columns)[i]? = some c) :
    c ∈ schema.columns := by
  have hmem := List.mem_of_getElem? hc
  unfold TransferConfig.includedColumns at hmem
  exact (List.mem_filter.mp (List.mem_filter.mp hmem).1).1

private theorem planned_names (h : cfg.planColumns dest schema.columns schema.kind.mayCoerce existing = .ok plan) :
    plan.destColumns.map ColumnType.name = (cfg.includedColumns schema.columns).map fun c => cfg.landed c.name := by
  have hnames : plan.destColumns.map ColumnType.name = _ := (planForDestination_eq_ok (planColumns_names h)).1
  rw [hnames, ← includedColumns_names, List.map_map]
  rfl

/-- A column that is NOT NULL is checked unless nothing of the guard meets it. -/
private theorem mem_checkedOf_iff (h : cfg.planColumns dest schema.columns schema.kind.mayCoerce existing = .ok plan)
    {i : Nat} {c d : ColumnType} (hd : plan.destColumns[i]? = some d) (hname : d.name = cfg.landed c.name)
    (hnull : d.nullable = false) (hdest : dest ≠ .csv) :
    i ∈ checkedOf (NullGuard.new plan cfg dest) ↔ ¬ Unguarded cfg dest schema.columns i c := by
  rw [NullGuard.mem_checkedOf_new hd hnull hdest, (planColumns_planned h).sources, planned_names h, hname]
  have hkey : (∀ k ∈ cfg.key, keyPosition ((cfg.includedColumns schema.columns).map fun c => cfg.landed c.name) k ≠
      some i) ↔ ¬ ∃ k ∈ cfg.key,
        keyPosition ((cfg.includedColumns schema.columns).map fun c => cfg.landed c.name) k = some i := by
    push Not
    rfl
  have hwatermark : (∀ w, cfg.watermark = some w →
      ((cfg.includedColumns schema.columns).map ColumnType.name).findIdx? (· = w) ≠ some i) ↔
      ¬ ∃ w, cfg.watermark = some w ∧
        ((cfg.includedColumns schema.columns).map ColumnType.name).findIdx? (· = w) = some i := by
    push Not
    rfl
  unfold Unguarded
  rw [hkey, hwatermark, not_and_or, not_and_or, not_not, not_not, not_not]
  constructor
  · rintro (hw | hk | hn)
    · exact .inr (.inr hw)
    · exact .inr (.inl hk)
    · exact .inl hn
  · rintro (hn | hk | hw)
    · exact .inr (.inr hn)
    · exact .inr (.inl hk)
    · exact .inl hw

/-- No NULL reaches a column that cannot hold one exactly when the expressions keep NOT NULL. -/
theorem null_safe_iff (h : cfg.planColumns dest schema.columns schema.kind.mayCoerce existing = .ok plan) :
    NullSafe schema vals plan (NullGuard.new plan cfg dest) ↔ KeepsNotNull schema vals cfg dest existing := by
  have hplan := planColumns_planned h
  have hlen := hplan.columns.length_eq
  have hcsv : ∀ {c : ColumnType} {arrow : ArrowType},
      cfg.plannedNullable dest schema.kind.mayCoerce c arrow = false → dest ≠ .csv := by
    rintro c arrow hnull rfl
    simp [TransferConfig.plannedNullable, TransferConfig.forceNonNullable] at hnull
  constructor
  · intro hsafe
    have hcell : ∀ i c arrow, (cfg.includedColumns schema.columns)[i]? = some c →
        cfg.decodedAs dest schema.columns existing c = .ok arrow → Unguarded cfg dest schema.columns i c →
        cfg.plannedNullable dest schema.kind.mayCoerce c arrow = false → ∀ row : StoredRow V schema,
        schema.readCell vals c.name (cfg.columnTransforms.get c.name) arrow row ≠ none := by
      intro i c arrow hc harrow hunguarded hnull row
      obtain ⟨d, hd, hname, hdnull, hdarrow⟩ := forall₂_getElem?' hplan.columns hc
      obtain rfl : arrow = d.arrow := Except.ok.inj (harrow.symm.trans hdarrow)
      rw [← hdnull] at hnull
      rcases hsafe.guarded i d hd hnull with hchecked | hread
      · exact absurd hunguarded ((mem_checkedOf_iff h hd hname hnull (hcsv (hdnull ▸ hnull))).mp hchecked)
      · intro hnone
        exact hread row (by rw [getElem?_readRow hplan hc hd, hnone])
    constructor
    · intro i c arrow hc harrow hunguarded hforce hnull e he row heval
      refine hcell i c arrow hc harrow hunguarded hnull row ?_
      unfold SourceSchema.readCell
      rw [he]
      dsimp only
      rw [heval]
      rfl
    · intro i c arrow hc harrow hunguarded hforce
      refine hcell i c arrow hc harrow hunguarded ?_
      unfold TransferConfig.plannedNullable
      rw [hforce, if_pos rfl]
  · intro hkeeps
    have hguarded : ∀ (i : Nat) (d : ColumnType), plan.destColumns[i]? = some d → d.nullable = false →
        i ∈ checkedOf (NullGuard.new plan cfg dest) ∨
          ∀ row : StoredRow V schema, (schema.readRow vals plan row)[i]? ≠ some none := by
      intro i d hd hdnull
      obtain ⟨c, hc, hname, hdplanned, harrow⟩ := forall₂_getElem? hplan.columns hd
      have hnull := hdplanned ▸ hdnull
      by_cases hunguarded : Unguarded cfg dest schema.columns i c
      · refine .inr fun row => ?_
        rw [getElem?_readRow hplan hc hd]
        intro hnone
        have hnone := Option.some.inj hnone
        by_cases hforce : cfg.forceNonNullable dest c = true
        · exact hkeeps.shadowed i c d.arrow hc harrow hunguarded hforce row hnone
        · have hforce := Bool.eq_false_iff.mpr hforce
          have hdecode := fun v => @decode_ne_none V schema vals cfg dest c d.arrow (mem_of_included hc) hforce hnull v
          unfold SourceSchema.readCell at hnone
          cases hexpr : cfg.columnTransforms.get c.name with
          | some e =>
            rw [hexpr] at hnone
            obtain ⟨v, hv⟩ := Option.ne_none_iff_exists'.mp
              (hkeeps.transforms i c d.arrow hc harrow hunguarded hforce hnull e hexpr row)
            dsimp only at hnone
            rw [hv, Option.bind_some, hdecode v] at hnone
            cases hnone
          | none =>
            rw [hexpr] at hnone
            -- read unchanged from a column the source declares NOT NULL
            have hsource : c.nullable = false := by
              unfold TransferConfig.plannedNullable at hnull
              rw [hforce, if_neg Bool.false_ne_true] at hnull
              split_ifs at hnull
              simpa [Bool.or_eq_false_iff, and_assoc] using (Bool.or_eq_false_iff.mp
                (Bool.or_eq_false_iff.mp hnull).1).1
            obtain ⟨v, hv⟩ := Option.isSome_iff_exists.mp (row.property c (mem_of_included hc) hsource)
            dsimp only at hnone
            rw [hv, Option.bind_some, hdecode v] at hnone
            cases hnone
      · exact .inl ((mem_checkedOf_iff h hd hname hdnull (hcsv hnull)).mpr hunguarded)
    refine ⟨hguarded, writeBatch_ok ?_ ?_ (fun g hg => NullGuard.new_placed hg) hguarded⟩
    · rw [hplan.sources, List.length_map, hlen]
    · rw [hplan.exprs, List.length_map, hlen]

end

/-- A table whose two columns are NOT NULL. -/
def ordersSchema : SourceSchema where
  kind := .postgres
  columns := [⟨"id", false, .int64, "Int64", false, none⟩, ⟨"status", false, .utf8, "String", false, none⟩]
  api_nullable h := by cases h

/-- A full refresh of it that sends `status` through an expression. -/
def statusThrough (expr : String) : TransferConfig where
  sourceTable := some "orders"
  destTable := "orders"
  mode := .full
  key := ["id"]
  columnTransforms := ⟨[("status", expr)], by simp⟩

/-- Texts, and two expressions over them. -/
def textValues : Values String where
  eval expr row :=
    if expr = "NULLIF(status, '')" then (row "status").filter (· ≠ "")
    else if expr = "lower(status)" then (row "status").map Text.asciiLower
    else none
  represents _ _ := true
  zeroScalar _ text := text.getD ""

def statusPlan (expr : String) : ColumnPlan where
  sourceColumns := ["id", "status"]
  sourceSelectExprs := [none, some expr]
  destColumns := ordersSchema.columns

/-- `lower` gives no NULL, so no batch is refused. -/
theorem null_safe_iff_lower :
    NullSafe ordersSchema textValues (statusPlan "lower(status)")
      (NullGuard.new (statusPlan "lower(status)") (statusThrough "lower(status)") .clickHouse) := by
  have hplan : (statusThrough "lower(status)").planColumns .clickHouse ordersSchema.columns true .noTable =
      .ok (statusPlan "lower(status)") := by decide +kernel
  refine (null_safe_iff hplan).mpr ⟨fun i c arrow _ _ _ _ _ e he row => ?_, fun i c arrow hc _ hunguarded hforce => ?_⟩
  · have hlower : e = "lower(status)" := by
      unfold StringMap.get statusThrough at he
      rw [List.lookup_cons] at he
      split at he
      · exact (Option.some.inj he).symm
      · cases he
    obtain ⟨v, hv⟩ := Option.isSome_iff_exists.mp
      (row.property ⟨"status", false, .utf8, "String", false, none⟩ (by decide) rfl)
    simp [textValues, hlower, hv]
  · rcases i with _ | _ | i
    · exact absurd rfl (hunguarded.2.1 "id" (by decide))
    · obtain rfl := Option.some.inj hc
      cases hforce
    · cases hc

/-- An empty `status` is NULL once transformed: the plan and the guard leave it NOT NULL, and the batch is refused. -/
theorem transformed_null_refused :
    (statusThrough "NULLIF(status, '')").validateFor .db .clickHouse = .ok () ∧
      (statusThrough "NULLIF(status, '')").planColumns .clickHouse ordersSchema.columns true .noTable =
        .ok (statusPlan "NULLIF(status, '')") ∧
      ¬ NullSafe ordersSchema textValues (statusPlan "NULLIF(status, '')")
        (NullGuard.new (statusPlan "NULLIF(status, '')") (statusThrough "NULLIF(status, '')") .clickHouse) := by
  refine ⟨by decide +kernel, by decide +kernel, fun hsafe => ?_⟩
  let row : StoredRow String ordersSchema := ⟨fun name => if name = "status" then some "" else some "7", by
    intro c _ _
    dsimp only
    split_ifs <;> rfl⟩
  obtain ⟨f, hf, -⟩ := hsafe.written [row]
  have hrefused : ordersSchema.writeBatch textValues (statusPlan "NULLIF(status, '')")
      (NullGuard.new (statusPlan "NULLIF(status, '')") (statusThrough "NULLIF(status, '')") .clickHouse) [row] =
      .error "Column 'status' is declared as non-nullable but contains null values" := by
    rfl
  rw [hrefused] at hf
  cases hf

end Quickhouse
