import Quickhouse.NullSafety

/-!
# What the null guard makes of a run

A run's batches pass the guard one after the other.  Of all their rows those with a NULL in a left-out column are
counted, each at the first such column; the others come out in order with defaults for the NULLs of the defaulted
columns, which are counted (`null_guard_accounts`).  None of it depends on where the rows are cut into batches.
-/

namespace Quickhouse

theorem Batch.ext {V : Type} {b b' : Batch V} (hfields : b.fields = b'.fields) (hrows : b.rows = b'.rows) : b = b' := by
  cases b
  cases b'
  cases hfields
  cases hrows
  rfl

/-- The rows of some batches, in order. -/
def rowsIn {V : Type} (batches : List (Batch V)) : List (List (Option V)) := batches.flatMap Batch.rows

/-- The rows left out for the column at position `j`. -/
def leftOutTotal {V : Type} (outs : List (Filtered V)) (j : Nat) : Nat := (outs.map fun f => f.leftOut.getD j 0).sum

/-- The rows with a default in the defaulted column at position `j`. -/
def defaultedTotal {V : Type} (outs : List (Filtered V)) (j : Nat) : Nat :=
  (outs.map fun f => f.defaulted.getD j 0).sum

namespace NullGuard

variable {V : Type} (g : NullGuard) (zeroScalar : ArrowType → Option String → V)

def filterAll : List (Batch V) → Except String (List (Filtered V))
  | [] => .ok []
  | batch :: batches => do
    let f ← g.filter zeroScalar batch
    let fs ← filterAll batches
    return f :: fs

/-- No column that leaves its rows out is NULL in the row. -/
def complete (row : List (Option V)) : Bool := g.columns.all fun c => !nullAt row c.idx

/-- The left-out column at `j` is NULL in the row, and none before it is. -/
def leftAt (row : List (Option V)) (j : Nat) : Bool :=
  (g.columns[j]?).any (fun c => nullAt row c.idx) && (g.columns.take j).all fun c => !nullAt row c.idx

/-- The checked columns stand among the fields where the guard says. -/
structure Fits (fields : List Field) : Prop where
  columns : ∀ c ∈ g.columns, ∃ f, fields[c.idx]? = some f ∧ f.name = c.dest
  defaulted : ∀ c ∈ g.defaulted, ∃ f, fields[c.idx]? = some f ∧ f.name = c.column

/-- What becomes of the rows of some batches. -/
structure Accounted (batches : List (Batch V)) (outs : List (Filtered V)) : Prop where
  /-- The rows that come out are the complete ones, in order, with nothing changed but defaults put in. -/
  kept : List.Forall₂ g.FilledFrom ((rowsIn batches).filter g.complete) (rowsIn (outs.map Filtered.batch))
  total : (rowsIn batches).length = (rowsIn (outs.map Filtered.batch)).length +
    ((List.range g.columns.length).map (leftOutTotal outs)).sum
  left_out : ∀ j, leftOutTotal outs j = (rowsIn batches).countP (g.leftAt · j)
  left_once : ∀ row ∈ rowsIn batches, g.complete row = false → ∃! j, g.leftAt row j = true
  defaulted : ∀ j d, g.defaulted[j]? = some d →
    defaultedTotal outs j = ((rowsIn batches).filter g.complete).countP (nullAt · d.idx)
  no_null : ∀ row ∈ rowsIn (outs.map Filtered.batch), ∀ i ∈ g.checked, row[i]? ≠ some none
  again : ∀ f ∈ outs, g.filter zeroScalar f.batch = .ok {
    batch := f.batch
    leftOut := List.replicate g.columns.length 0
    defaulted := List.replicate g.defaulted.length 0 }

variable {g zeroScalar}

/-! ### One batch -/

theorem complete_eq_keeps (row : List (Option V)) : g.complete row = g.keeps row := by
  rw [Bool.eq_iff_iff, keeps_iff]
  unfold complete
  rw [List.all_eq_true]
  refine forall₂_congr fun c _ => ?_
  rw [ne_eq, ← nullAt_iff, Bool.not_eq_true, Bool.not_eq_true']

theorem filter_complete (rows : List (List (Option V))) : rows.filter g.complete = rows.filter g.keeps :=
  List.filter_congr fun row _ => complete_eq_keeps row

theorem leftAt_eq (row : List (Option V)) (j : Nat) : g.leftAt row j = decide (g.firstNull row = some j) := by
  rw [Bool.eq_iff_iff, decide_eq_true_eq]
  unfold leftAt firstNull
  rw [List.findIdx?_eq_some_iff_getElem, Bool.and_eq_true, Option.any_eq_true, List.all_eq_true]
  constructor
  · rintro ⟨⟨c, hc, hnull⟩, hbefore⟩
    obtain ⟨hj, rfl⟩ := List.getElem?_eq_some_iff.mp hc
    refine ⟨hj, hnull, fun i hij => ?_⟩
    have hmem : g.columns[i] ∈ g.columns.take j :=
      List.mem_iff_getElem.mpr ⟨i, by rw [List.length_take]; omega, List.getElem_take⟩
    simpa using hbefore _ hmem
  · rintro ⟨hj, hnull, hbefore⟩
    refine ⟨⟨_, List.getElem?_eq_getElem hj, hnull⟩, fun c hc => ?_⟩
    obtain ⟨i, hi, rfl⟩ := List.mem_iff_getElem.mp hc
    rw [List.length_take] at hi
    rw [List.getElem_take]
    simpa using hbefore i (by omega)

/-- A row that is left out is counted at one column. -/
theorem exists_unique_leftAt {row : List (Option V)} (h : g.complete row = false) : ∃! j, g.leftAt row j = true := by
  rw [complete_eq_keeps] at h
  obtain ⟨j, hj⟩ : ∃ j, g.firstNull row = some j := by
    unfold keeps at h
    rw [Option.isNone_eq_false_iff, Option.isSome_iff_exists] at h
    exact h
  refine ⟨j, ?_, fun i hi => ?_⟩
  · show g.leftAt row j = true
    rw [leftAt_eq, hj]
    exact decide_eq_true rfl
  · dsimp only at hi
    rw [leftAt_eq, hj] at hi
    exact (Option.some.inj (of_decide_eq_true hi)).symm

theorem columnAt_eq_ok {fields : List Field} {idx : Nat} {name : String} :
    columnAt fields idx name = .ok () ↔ ∃ f, fields[idx]? = some f ∧ f.name = name := by
  constructor
  · intro h
    unfold columnAt at h
    split at h
    · rename_i hany
      rw [Option.any_eq_true] at hany
      obtain ⟨f, hf, hname⟩ := hany
      exact ⟨f, hf, by simpa using hname⟩
    · cases h
  · rintro ⟨f, hf, hname⟩
    exact columnAt_ok hf hname

theorem forM_eq_ok {α : Type} {f : α → Except String Unit} {xs : List α} (h : xs.forM f = .ok ()) :
    ∀ x ∈ xs, f x = .ok () := by
  induction xs with
  | nil => simp
  | cons x xs ih =>
    simp only [List.forM_eq_forM, List.forM_cons] at h ih
    cases hx : f x with
    | error e =>
      rw [hx] at h
      cases h
    | ok u =>
      rw [hx] at h
      rw [List.forall_mem_cons]
      exact ⟨hx, ih h⟩

/-- What the guard makes of a batch it fits. -/
def result (g : NullGuard) (zeroScalar : ArrowType → Option String → V) (batch : Batch V) : Filtered V where
  batch := ⟨_, _, g.strict_conforms zeroScalar batch⟩
  leftOut := (List.range g.columns.length).map fun j => batch.rows.countP fun row => g.firstNull row = some j
  defaulted := g.defaulted.map fun d => (batch.rows.filter g.keeps).countP fun row => nullAt row d.idx

theorem filter_eq_ok {batch : Batch V} {f : Filtered V} :
    g.filter zeroScalar batch = .ok f ↔ g.Fits batch.fields ∧ f = g.result zeroScalar batch := by
  constructor
  · intro h
    have hfits : g.Fits batch.fields := by
      unfold NullGuard.filter at h
      cases hcolumns : g.columns.forM fun c => columnAt batch.fields c.idx c.dest with
      | error e =>
        rw [hcolumns] at h
        cases h
      | ok _ =>
        cases hdefaulted : g.defaulted.forM fun d => columnAt batch.fields d.idx d.column with
        | error e =>
          rw [hcolumns, hdefaulted] at h
          cases h
        | ok _ =>
          exact ⟨fun c hc => columnAt_eq_ok.mp (forM_eq_ok hcolumns c hc),
            fun d hd => columnAt_eq_ok.mp (forM_eq_ok hdefaulted d hd)⟩
    refine ⟨hfits, ?_⟩
    rw [filter_eq zeroScalar (fun c hc => columnAt_eq_ok.mpr (hfits.columns c hc))
      fun d hd => columnAt_eq_ok.mpr (hfits.defaulted d hd)] at h
    exact (Except.ok.inj h).symm
  · rintro ⟨hfits, rfl⟩
    exact filter_eq zeroScalar (fun c hc => columnAt_eq_ok.mpr (hfits.columns c hc))
      fun d hd => columnAt_eq_ok.mpr (hfits.defaulted d hd)

theorem Fits.strict {fields : List Field} (h : g.Fits fields) : g.Fits (g.strictSchema fields) := by
  have hname : ∀ (i : Nat) (name : String), (∃ f, fields[i]? = some f ∧ f.name = name) →
      ∃ f, (g.strictSchema fields)[i]? = some f ∧ f.name = name := by
    rintro i name ⟨f, hf, hn⟩
    unfold strictSchema
    rw [List.getElem?_mapIdx, hf]
    exact ⟨_, rfl, hn⟩
  exact ⟨fun c hc => hname _ _ (h.columns c hc), fun d hd => hname _ _ (h.defaulted d hd)⟩

theorem strictSchema_strictSchema (fields : List Field) :
    g.strictSchema (g.strictSchema fields) = g.strictSchema fields := by
  refine List.ext_getElem? fun i => ?_
  unfold strictSchema
  rw [List.getElem?_mapIdx, List.getElem?_mapIdx]
  cases fields[i]? with
  | none => rfl
  | some f => simp

/-- Filling a row with no NULL in a defaulted column leaves it as it is. -/
theorem fillNulls_eq_self {fields : List Field} {row : List (Option V)} (hlen : row.length = fields.length)
    (h : ∀ d ∈ g.defaulted, row[d.idx]? ≠ some none) : g.fillNulls zeroScalar fields row = row := by
  have hfill := @fillNulls_filledFrom _ g zeroScalar _ _ hlen
  refine List.ext_getElem? fun i => ?_
  rcases hfill.2 i with heq | ⟨hnull, d, hd, rfl⟩
  · exact heq
  · exact absurd hnull (h d hd)

/-- No checked column is NULL in what comes out. -/
theorem result_no_null (batch : Batch V) :
    ∀ row ∈ (g.result zeroScalar batch).batch.rows, ∀ i ∈ g.checked, row[i]? ≠ some none := by
  intro row hrow i hi
  obtain ⟨row, hread, rfl⟩ := List.mem_map.mp hrow
  obtain ⟨hmem, hkeep⟩ := List.mem_filter.mp hread
  have hlen := (conforms_iff.mp (batch.conforms row hmem)).1
  rcases List.mem_append.mp hi with hi | hi
  · obtain ⟨c, hc, rfl⟩ := List.mem_map.mp hi
    rcases (@fillNulls_filledFrom _ g zeroScalar _ _ hlen).2 c.idx with heq | ⟨hnull, -⟩
    · rw [heq]
      exact keeps_iff.mp hkeep c hc
    · exact absurd hnull (keeps_iff.mp hkeep c hc)
  · obtain ⟨d, hd, rfl⟩ := List.mem_map.mp hi
    exact fillNulls_defaulted zeroScalar hlen hd

/-- Without a NULL in a checked column nothing changes and nothing is counted. -/
theorem result_eq_self {batch : Batch V} (hstrict : g.strictSchema batch.fields = batch.fields)
    (h : ∀ row ∈ batch.rows, ∀ i ∈ g.checked, row[i]? ≠ some none) :
    g.result zeroScalar batch = {
      batch
      leftOut := List.replicate g.columns.length 0
      defaulted := List.replicate g.defaulted.length 0 } := by
  have hkeep : ∀ row ∈ batch.rows, g.keeps row = true := fun row hrow =>
    keeps_iff.mpr fun c hc => h row hrow c.idx (List.mem_append.mpr (.inl (List.mem_map.mpr ⟨c, hc, rfl⟩)))
  have hnull : ∀ row ∈ batch.rows, ∀ d ∈ g.defaulted, row[d.idx]? ≠ some none := fun row hrow d hd =>
    h row hrow d.idx (List.mem_append.mpr (.inr (List.mem_map.mpr ⟨d, hd, rfl⟩)))
  have hfilter : batch.rows.filter g.keeps = batch.rows := List.filter_eq_self.mpr hkeep
  have hbatch : (g.result zeroScalar batch).batch = batch := by
    refine Batch.ext hstrict ?_
    show (batch.rows.filter g.keeps).map (g.fillNulls zeroScalar batch.fields) = batch.rows
    rw [hfilter]
    have hself : ∀ row ∈ batch.rows, g.fillNulls zeroScalar batch.fields row = id row := fun row hrow =>
      fillNulls_eq_self (conforms_iff.mp (batch.conforms row hrow)).1 (hnull row hrow)
    rw [List.map_congr_left hself, List.map_id]
  have hleft : (g.result zeroScalar batch).leftOut = List.replicate g.columns.length 0 := by
    refine List.eq_replicate_iff.mpr ⟨by simp [result], fun n hn => ?_⟩
    obtain ⟨j, -, rfl⟩ := List.mem_map.mp hn
    refine List.countP_eq_zero.mpr fun row hrow => ?_
    have hnone : g.firstNull row = none := by simpa [keeps] using hkeep row hrow
    simp [hnone]
  have hdefaulted : (g.result zeroScalar batch).defaulted = List.replicate g.defaulted.length 0 := by
    refine List.eq_replicate_iff.mpr ⟨by simp [result], fun n hn => ?_⟩
    obtain ⟨d, hd, rfl⟩ := List.mem_map.mp hn
    refine List.countP_eq_zero.mpr fun row hrow => ?_
    rw [hfilter] at hrow
    rw [nullAt_iff]
    exact hnull row hrow d hd
  cases hresult : g.result zeroScalar batch with
  | mk b l d =>
    rw [hresult] at hbatch hleft hdefaulted
    cases hbatch
    cases hleft
    cases hdefaulted
    rfl

/-! ### A run -/

theorem result_leftOut (batch : Batch V) (j : Nat) :
    (g.result zeroScalar batch).leftOut.getD j 0 = batch.rows.countP (g.leftAt · j) := by
  have hleft : ∀ row ∈ batch.rows, g.leftAt row j = decide (g.firstNull row = some j) := fun row _ => leftAt_eq row j
  rw [List.countP_congr fun row hrow => by rw [hleft row hrow]]
  unfold result
  rw [List.getD_eq_getElem?_getD, List.getElem?_map]
  by_cases hj : j < g.columns.length
  · rw [List.getElem?_range hj]
    rfl
  · rw [List.getElem?_eq_none (by simpa using hj)]
    refine (List.countP_eq_zero.mpr fun row _ hrow => hj ?_).symm
    obtain ⟨h, -⟩ := List.findIdx?_eq_some_iff_getElem.mp (of_decide_eq_true hrow)
    exact h

theorem result_defaulted (batch : Batch V) {j : Nat} {d : Defaulted} (hd : g.defaulted[j]? = some d) :
    (g.result zeroScalar batch).defaulted.getD j 0 = (batch.rows.filter g.complete).countP (nullAt · d.idx) := by
  unfold result
  rw [filter_complete, List.getD_eq_getElem?_getD, List.getElem?_map, hd]
  rfl

theorem rowsIn_cons (batch : Batch V) (batches : List (Batch V)) :
    rowsIn (batch :: batches) = batch.rows ++ rowsIn batches := List.flatMap_cons

theorem filterAll_eq_ok {batches : List (Batch V)} {outs : List (Filtered V)} :
    g.filterAll zeroScalar batches = .ok outs ↔
      (∀ b ∈ batches, g.Fits b.fields) ∧ outs = batches.map (g.result zeroScalar) := by
  induction batches generalizing outs with
  | nil =>
    constructor
    · intro h
      exact ⟨by simp, (Except.ok.inj h).symm⟩
    · rintro ⟨-, rfl⟩
      rfl
  | cons batch batches ih =>
    rw [List.forall_mem_cons, List.map_cons]
    constructor
    · intro h
      cases hf : g.filter zeroScalar batch with
      | error e =>
        rw [filterAll, hf] at h
        cases h
      | ok f =>
        cases hfs : g.filterAll zeroScalar batches with
        | error e =>
          rw [filterAll, hf, hfs] at h
          cases h
        | ok fs =>
          rw [filterAll, hf, hfs] at h
          obtain ⟨hfits, rfl⟩ := filter_eq_ok.mp hf
          obtain ⟨hrest, rfl⟩ := ih.mp hfs
          exact ⟨⟨hfits, hrest⟩, (Except.ok.inj h).symm⟩
    · rintro ⟨⟨hfits, hrest⟩, rfl⟩
      rw [filterAll, filter_eq_ok.mpr ⟨hfits, rfl⟩, ih.mpr ⟨hrest, rfl⟩]
      rfl

theorem kept_filledFrom (batches : List (Batch V)) :
    List.Forall₂ g.FilledFrom ((rowsIn batches).filter g.complete)
      (rowsIn ((batches.map (g.result zeroScalar)).map Filtered.batch)) := by
  induction batches with
  | nil => exact .nil
  | cons batch batches ih =>
    rw [rowsIn_cons, List.filter_append, List.map_cons, List.map_cons, rowsIn_cons]
    refine List.rel_append ?_ ih
    rw [filter_complete]
    refine List.forall₂_map_right_iff.mpr (List.forall₂_same.mpr fun row hrow => ?_)
    exact fillNulls_filledFrom zeroScalar (conforms_iff.mp (batch.conforms row (List.mem_filter.mp hrow).1)).1

theorem leftOutTotal_eq (batches : List (Batch V)) (j : Nat) :
    leftOutTotal (batches.map (g.result zeroScalar)) j = (rowsIn batches).countP (g.leftAt · j) := by
  induction batches with
  | nil => rfl
  | cons batch batches ih =>
    rw [rowsIn_cons, List.countP_append, ← ih, ← @result_leftOut V g zeroScalar]
    rfl

theorem defaultedTotal_eq (batches : List (Batch V)) {j : Nat} {d : Defaulted} (hd : g.defaulted[j]? = some d) :
    defaultedTotal (batches.map (g.result zeroScalar)) j =
      ((rowsIn batches).filter g.complete).countP (nullAt · d.idx) := by
  induction batches with
  | nil => rfl
  | cons batch batches ih =>
    rw [rowsIn_cons, List.filter_append, List.countP_append, ← ih, ← @result_defaulted V g zeroScalar batch j d hd]
    rfl

theorem accounted {batches : List (Batch V)} (hfits : ∀ b ∈ batches, g.Fits b.fields) :
    g.Accounted zeroScalar batches (batches.map (g.result zeroScalar)) where
  kept := kept_filledFrom batches
  total := by
    rw [← (@kept_filledFrom V g zeroScalar batches).length_eq, @length_eq_kept_add_leftOut V g (rowsIn batches)]
    rw [filter_complete]
    congr 2
    refine List.map_congr_left fun j _ => ?_
    rw [leftOutTotal_eq]
    exact List.countP_congr fun row _ => by rw [leftAt_eq]
  left_out := leftOutTotal_eq batches
  left_once _ _ := exists_unique_leftAt
  defaulted _ _ := defaultedTotal_eq batches
  no_null row hrow := by
    obtain ⟨b, hb, hmem⟩ := List.mem_flatMap.mp hrow
    obtain ⟨f, hf, rfl⟩ := List.mem_map.mp hb
    obtain ⟨batch, -, rfl⟩ := List.mem_map.mp hf
    exact result_no_null batch row hmem
  again f hf := by
    obtain ⟨batch, hbatch, rfl⟩ := List.mem_map.mp hf
    refine filter_eq_ok.mpr ⟨(hfits batch hbatch).strict, ?_⟩
    exact (result_eq_self (strictSchema_strictSchema batch.fields) (result_no_null batch)).symm

/-- With one schema, what comes out is a matter of the rows alone. -/
theorem rowsIn_result {batches : List (Batch V)} {fields : List Field} (h : ∀ b ∈ batches, b.fields = fields) :
    rowsIn ((batches.map (g.result zeroScalar)).map Filtered.batch) =
      ((rowsIn batches).filter g.keeps).map (g.fillNulls zeroScalar fields) := by
  induction batches with
  | nil => rfl
  | cons batch batches ih =>
    rw [List.map_cons, List.map_cons, rowsIn_cons, rowsIn_cons, List.filter_append, List.map_append,
      ih fun b hb => h b (List.mem_cons_of_mem _ hb), ← h batch List.mem_cons_self]
    rfl

end NullGuard

/-- Two ways to cut one schema's rows into batches. -/
structure SameRows {V : Type} (batches batches' : List (Batch V)) : Prop where
  schema : ∃ fields, ∀ b ∈ batches ++ batches', b.fields = fields
  rows : rowsIn batches = rowsIn batches'

/-- Every row given comes out, or is counted once as left out; and it does not matter how the rows are cut. -/
theorem null_guard_accounts {V : Type} (g : NullGuard) (zeroScalar : ArrowType → Option String → V)
    (batches : List (Batch V)) :
    ((∃ outs, g.filterAll zeroScalar batches = .ok outs) ↔ ∀ b ∈ batches, g.Fits b.fields) ∧
      ∀ outs, g.filterAll zeroScalar batches = .ok outs → g.Accounted zeroScalar batches outs ∧
        ∀ batches' outs', SameRows batches batches' → g.filterAll zeroScalar batches' = .ok outs' →
          rowsIn (outs'.map Filtered.batch) = rowsIn (outs.map Filtered.batch) ∧
            (∀ j, leftOutTotal outs' j = leftOutTotal outs j) ∧
            ∀ j, j < g.defaulted.length → defaultedTotal outs' j = defaultedTotal outs j := by
  refine ⟨⟨?_, ?_⟩, ?_⟩
  · rintro ⟨outs, h⟩
    exact (NullGuard.filterAll_eq_ok.mp h).1
  · intro hfits
    exact ⟨_, NullGuard.filterAll_eq_ok.mpr ⟨hfits, rfl⟩⟩
  · intro outs h
    obtain ⟨hfits, rfl⟩ := NullGuard.filterAll_eq_ok.mp h
    refine ⟨NullGuard.accounted hfits, fun batches' outs' hsame h' => ?_⟩
    obtain ⟨-, rfl⟩ := NullGuard.filterAll_eq_ok.mp h'
    obtain ⟨⟨fields, hfields⟩, hrows⟩ := hsame
    refine ⟨?_, fun j => ?_, fun j hj => ?_⟩
    · rw [NullGuard.rowsIn_result fun b hb => hfields b (List.mem_append_left _ hb),
        NullGuard.rowsIn_result fun b hb => hfields b (List.mem_append_right _ hb), hrows]
    · rw [NullGuard.leftOutTotal_eq, NullGuard.leftOutTotal_eq, hrows]
    · have hd := List.getElem?_eq_getElem hj
      rw [NullGuard.defaultedTotal_eq batches hd, NullGuard.defaultedTotal_eq batches' hd, hrows]

/-! ### Orders with a key and a status -/

/-- A row without an `id` is left out, a row without a `status` gets `''`. -/
def ordersGuard : NullGuard where
  columns := [⟨0, "id", "id", .nullKey⟩]
  defaulted := [⟨1, "status", .notNull, none, "''"⟩]

def ordersBatch : Batch String where
  fields := [⟨"id", .utf8, true⟩, ⟨"status", .utf8, true⟩]
  rows := [[some "1", none], [none, none], [some "2", some "paid"]]
  conforms := by decide

def lateOrders : Batch String where
  fields := [⟨"id", .utf8, true⟩, ⟨"status", .utf8, true⟩]
  rows := [[none, some "paid"], [some "3", none]]
  conforms := by decide

theorem orders_accounted : ∃ outs, ordersGuard.filterAll (fun _ _ => "") [ordersBatch, lateOrders] = .ok outs ∧
    ordersGuard.Accounted (fun _ _ => "") [ordersBatch, lateOrders] outs := by
  have hfits : ∀ b ∈ [ordersBatch, lateOrders], ordersGuard.Fits b.fields := by
    simp only [List.forall_mem_cons, List.not_mem_nil, false_imp_iff, implies_true, and_true]
    constructor
    · exact ⟨by simp [ordersGuard, ordersBatch], by simp [ordersGuard, ordersBatch]⟩
    · exact ⟨by simp [ordersGuard, lateOrders], by simp [ordersGuard, lateOrders]⟩
  obtain ⟨hall, hsplit⟩ := null_guard_accounts ordersGuard (fun _ _ => "") [ordersBatch, lateOrders]
  obtain ⟨outs, houts⟩ := hall.mpr hfits
  exact ⟨outs, houts, (hsplit outs houts).1⟩

end Quickhouse
