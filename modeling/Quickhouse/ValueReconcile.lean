import Mathlib
import Quickhouse.Error
import Quickhouse.ValueCells
import Quickhouse.Lib.FirstSeen
import Quickhouse.Lib.Results

/-!
# The comparison of two sides' values

Both sides of a window are read in batches, indexed by key, and the cells of each key that is there once on both sides are
compared column by column.  The counts that `diff` reports are sizes of sets of keys, which `Counted` names
(`value_reconciliation_counts`): they depend neither on the order of the rows nor on the batches that these are cut into.
-/

namespace Quickhouse.ValueReconcile

open Binary64 FirstSeen

/-! ### The two reads -/

structure ColumnPlan where
  name : String
  rule : Rule
  tolerance : F64
  /-- What flags the rows of the destination that hold what a NULL is stored as there; `none` for a column of NULLs. -/
  nullDefault : Option String

structure Plan where
  key : String
  columns : List ColumnPlan

/-- What a read asks of a row. -/
inductive Selected where
  | key
  | column (i : Nat)
  /-- The NULL-default flag of column `i`. -/
  | flag (i : Nat)
  deriving DecidableEq

/-- A row of a side answers what is asked of it. -/
abbrev Row := Selected → Cell

/-- One flag per column that has a NULL default, in the order of the columns. -/
def flagsFrom : Nat → List ColumnPlan → List Selected
  | _, [] => []
  | i, c :: cs =>
    match c.nullDefault with
    | some _ => .flag i :: flagsFrom (i + 1) cs
    | none => flagsFrom (i + 1) cs

def sourceCols (plan : Plan) : List Selected := .key :: (List.range plan.columns.length).map .column

def destCols (plan : Plan) : List Selected := sourceCols plan ++ flagsFrom 0 plan.columns

structure ReadBatch where
  numRows : Nat
  columns : List (List Cell)

/-- The rows of one batch, column by column. -/
def readBatch (cols : List Selected) (rows : List Row) : ReadBatch where
  numRows := rows.length
  columns := cols.map fun c => rows.map fun r => r c

def readSource (plan : Plan) (batches : List (List Row)) : List ReadBatch := batches.map (readBatch (sourceCols plan))

def readDest (plan : Plan) (batches : List (List Row)) : List ReadBatch := batches.map (readBatch (destCols plan))

/-! ### The index of the keys -/

/-- Where a row is: batch, then row within it. -/
structure Loc where
  batch : Nat
  row : Nat
  deriving DecidableEq

def ReadBatch.cell (b : ReadBatch) (idx row : Nat) : Cell := ((b.columns.getD idx []).getD row .null)

def cellAt (batches : List ReadBatch) (idx : Nat) (loc : Loc) : Cell :=
  match batches[loc.batch]? with
  | some b => b.cell idx loc.row
  | none => .null

/-- The rows that have a key, in the order in which they are read. -/
def keyRows (batches : List ReadBatch) : List (KeyValue × Loc) :=
  batches.zipIdx.flatMap fun (b, i) =>
    (List.range b.numRows).filterMap fun row => (keyValue (b.cell 0 row)).map fun k => (k, ⟨i, row⟩)

def buildKeys (batches : List ReadBatch) : Index KeyValue Loc := build (keyRows batches)

/-! ### The comparison -/

structure ColumnDrift where
  column : String
  compared : Nat
  mismatched : Nat := 0
  nullInDestOnly : Nat := 0
  nullInSourceOnly : Nat := 0
  sample : List String := []
  deriving DecidableEq

structure ValueReconcileResult where
  sourceRows : Nat
  destRows : Nat
  comparedKeys : Nat
  missingKeys : Nat
  orphanKeys : Nat
  duplicateKeys : Nat
  columns : List ColumnDrift
  deriving DecidableEq

def ColumnDrift.add (drift : ColumnDrift) (outcome : Outcome) (sampleLimit : Nat) (key : String) : ColumnDrift :=
  if outcome = .equal then drift
  else
    { drift with
      mismatched := drift.mismatched + 1
      nullInDestOnly := drift.nullInDestOnly + if outcome = .nullInDestOnly then 1 else 0
      nullInSourceOnly := drift.nullInSourceOnly + if outcome = .nullInSourceOnly then 1 else 0
      sample := if drift.sample.length < sampleLimit then drift.sample ++ [key] else drift.sample }

section

-- the display of a key column at a row, and the debug format of a list of texts
variable (arrayValueToString : ReadBatch → Nat → String) (debug : List String → String)

def renderKey (batches : List ReadBatch) (loc : Loc) : String :=
  match batches[loc.batch]? with
  | some b => arrayValueToString b loc.row
  | none => ""

/-- The comparison of column `i`, whose flag is in the destination's column `flag`. -/
def outcomeAt (source dest : List ReadBatch) (i : Nat) (flag : Option Nat) (col : ColumnPlan) (p : Loc × Loc) : Outcome :=
  classify col.rule (cellAt source (1 + i) p.1) (cellAt dest (1 + i) p.2)
    (flag.any fun f => (cellAt dest f p.2).isTrue) col.tolerance

def columnDrift (source dest : List ReadBatch) (sampleLimit : Nat) (pairs : List (Loc × Loc)) (i : Nat)
    (flag : Option Nat) (col : ColumnPlan) : ColumnDrift :=
  pairs.foldl (fun drift p =>
      drift.add (outcomeAt source dest i flag col p) sampleLimit (renderKey arrayValueToString source p.1))
    { column := col.name, compared := pairs.length }

/-- The columns from the `i`-th on; `flag` is the next flag column of the destination. -/
def columnDrifts (drift : Nat → Option Nat → ColumnPlan → ColumnDrift) : Nat → Nat → List ColumnPlan → List ColumnDrift
  | _, _, [] => []
  | i, flag, c :: cs =>
    match c.nullDefault with
    | some _ => drift i (some flag) c :: columnDrifts drift (i + 1) (flag + 1) cs
    | none => drift i none c :: columnDrifts drift (i + 1) flag cs

/-- The first places on both sides of the keys that neither side has twice. -/
def pairsOf (sourceKeys destKeys : Index KeyValue Loc) (duplicates : List KeyValue) : List (Loc × Loc) :=
  (sourceKeys.order.filter fun k => k ∉ duplicates).filterMap fun k =>
    (sourceKeys.first.lookup k).bind fun s => (destKeys.first.lookup k).map fun d => (s, d)

def noCommonKeys (plan : Plan) (source dest : List ReadBatch) (sourceKeys destKeys : Index KeyValue Loc) : EtlError :=
  let sample (batches : List ReadBatch) (ix : Index KeyValue Loc) : List String :=
    (ix.first.take 3).map fun p => renderKey arrayValueToString batches p.2
  .config ("reconcile_values found NO keys in common between source and destination (" ++
    toString sourceKeys.first.length ++ " vs " ++ toString destKeys.first.length ++ " distinct '" ++ plan.key ++
    "' value(s)). That is almost certainly the window predicates selecting different rows on each side, not drift. " ++
    "Source sample: " ++ debug (sample source sourceKeys) ++ "; destination sample: " ++ debug (sample dest destKeys))

/-- Match both sides' rows by key and compare every planned column. -/
def diff (plan : Plan) (source dest : List ReadBatch) (sampleLimit : Nat) : Except EtlError ValueReconcileResult :=
  let sourceKeys := buildKeys source
  let destKeys := buildKeys dest
  let missing := sourceKeys.order.countP fun k => k ∉ destKeys.order
  let orphans := destKeys.order.countP fun k => k ∉ sourceKeys.order
  -- disjoint keys are no drift: the windows of the two sides select different rows
  if sourceKeys.first ≠ [] ∧ destKeys.first ≠ [] ∧ missing = sourceKeys.first.length then
    .error (noCommonKeys arrayValueToString debug plan source dest sourceKeys destKeys)
  else
    let duplicates := sourceKeys.dups ++ destKeys.dups.filter fun k => k ∉ sourceKeys.dups
    let pairs := pairsOf sourceKeys destKeys duplicates
    .ok
      { sourceRows := (source.map (·.numRows)).sum
        destRows := (dest.map (·.numRows)).sum
        comparedKeys := pairs.length
        missingKeys := missing
        orphanKeys := orphans
        duplicateKeys := duplicates.length
        columns := columnDrifts (columnDrift arrayValueToString source dest sampleLimit pairs) 0
          (1 + plan.columns.length) plan.columns }

end

/-! ### What the counts are -/

deriving instance DecidableEq for KeyMeaning

/-- The value that a row's key denotes. -/
def Row.key (r : Row) : Option KeyMeaning := (r .key).meaning

def keys (rows : List Row) : Set KeyMeaning := {k | some k ∈ rows.map Row.key}

def repeated (rows : List Row) : Set KeyMeaning := {k | 2 ≤ (rows.map Row.key).count (some k)}

/-- The keys with exactly one row on each side. -/
def compared (s d : List Row) : Set KeyMeaning :=
  {k | (s.map Row.key).count (some k) = 1 ∧ (d.map Row.key).count (some k) = 1}

/-- The row of the destination holds in column `i` what a NULL is stored as there. -/
def HoldsNullDefault (col : ColumnPlan) (i : Nat) (d : Row) : Prop :=
  col.nullDefault.isSome = true ∧ (d (.flag i)).isTrue = true

/-- The cells of a pair of rows are equal in column `i`, where a NULL is equal to what it is stored as. -/
def Agree (col : ColumnPlan) (i : Nat) (s d : Row) : Prop :=
  if (s (.column i)).isNull then (d (.column i)).isNull = true ∨ HoldsNullDefault col i d
  else (d (.column i)).isNull = false ∧ equal col.rule (s (.column i)) (d (.column i)) col.tolerance = true

/-- The cells differ and the destination's is NULL, or what a NULL is stored as. -/
def NullInDest (col : ColumnPlan) (i : Nat) (s d : Row) : Prop :=
  (s (.column i)).isNull = false ∧ ¬Agree col i s d ∧ ((d (.column i)).isNull = true ∨ HoldsNullDefault col i d)

def NullInSource (col : ColumnPlan) (i : Nat) (s d : Row) : Prop :=
  (s (.column i)).isNull = true ∧ ¬Agree col i s d

/-- The compared keys whose two rows are related so. -/
def comparedWith (s d : List Row) (P : Row → Row → Prop) : Set KeyMeaning :=
  {k | k ∈ compared s d ∧ ∃ x ∈ s, ∃ y ∈ d, x.key = some k ∧ y.key = some k ∧ P x y}

/-! ### Keys and their meanings -/

def keyValues (rows : List Row) : List KeyValue := rows.filterMap fun r => keyValue (r .key)

theorem Row.key_eq (r : Row) : r.key = (keyValue (r .key)).map KeyValue.meaning := (keyValue_meaning _).symm

theorem Row.key_eq_some_iff {r : Row} {k : KeyValue} (hk : k.Normal) :
    r.key = some k.meaning ↔ keyValue (r .key) = some k := by
  rw [Row.key_eq]
  cases h : keyValue (r .key) with
  | none => simp
  | some l =>
    rw [Option.map_some, Option.some.injEq, Option.some.injEq]
    exact ⟨KeyValue.meaning_injective (keyValue_normal h) hk, congrArg _⟩

theorem normal_of_mem {rows : List Row} {k : KeyValue} (h : k ∈ keyValues rows) : k.Normal := by
  obtain ⟨r, -, hr⟩ := List.mem_filterMap.mp h
  exact keyValue_normal hr

theorem count_meaning (rows : List Row) {k : KeyValue} (hk : k.Normal) :
    (rows.map Row.key).count (some k.meaning) = (keyValues rows).count k := by
  unfold keyValues
  induction rows with
  | nil => rfl
  | cons r rows ih =>
    have hr := Row.key_eq_some_iff (r := r) hk
    rw [List.map_cons, List.count_cons, ih, List.filterMap_cons]
    cases h : keyValue (r .key) with
    | none => simp [hr, h]
    | some l => simp [hr, h, List.count_cons]

theorem mem_keys_iff {rows : List Row} {m : KeyMeaning} : m ∈ keys rows ↔ ∃ k ∈ keyValues rows, k.meaning = m := by
  unfold keys keyValues
  rw [Set.mem_ofPred_eq, List.mem_map]
  constructor
  · rintro ⟨r, hr, h⟩
    rw [Row.key_eq, Option.map_eq_some_iff] at h
    obtain ⟨k, hk, rfl⟩ := h
    exact ⟨k, List.mem_filterMap.mpr ⟨r, hr, hk⟩, rfl⟩
  · rintro ⟨k, hk, rfl⟩
    obtain ⟨r, hr, h⟩ := List.mem_filterMap.mp hk
    exact ⟨r, hr, (Row.key_eq_some_iff (keyValue_normal h)).mpr h⟩

theorem ncard_eq_length_meaning {l : List KeyValue} {s : Set KeyMeaning} (hl : l.Nodup) (hnormal : ∀ k ∈ l, k.Normal)
    (h : ∀ m, m ∈ s ↔ ∃ k ∈ l, k.meaning = m) : s.ncard = l.length := by
  have hnodup : (l.map KeyValue.meaning).Nodup :=
    hl.map_on fun a ha b hb hab => KeyValue.meaning_injective (hnormal a ha) (hnormal b hb) hab
  rw [ncard_eq_length hnodup fun m => by rw [h, List.mem_map], List.length_map]

/-- Of a key that is there once there is one row. -/
theorem row_unique {rows : List Row} {m : KeyMeaning} (h : (rows.map Row.key).count (some m) = 1) {x y : Row}
    (hx : x ∈ rows) (hy : y ∈ rows) (hxm : x.key = some m) (hym : y.key = some m) : x = y := by
  rw [List.count, List.countP_map, List.countP_eq_length_filter, List.length_eq_one_iff] at h
  obtain ⟨z, hz⟩ := h
  have hmem : ∀ r ∈ rows, r.key = some m → r = z := by
    intro r hr hrm
    rw [← List.mem_singleton, ← hz, List.mem_filter]
    exact ⟨hr, by simp [hrm]⟩
  rw [hmem x hx hxm, hmem y hy hym]

/-! ### The places of the rows -/

def rowAt (batches : List (List Row)) (loc : Loc) : Option Row := batches[loc.batch]?.bind fun rows => rows[loc.row]?

theorem mem_of_rowAt {batches : List (List Row)} {loc : Loc} {r : Row} (h : rowAt batches loc = some r) :
    r ∈ batches.flatten := by
  obtain ⟨rows, hrows, hr⟩ := Option.bind_eq_some_iff.mp h
  exact List.mem_flatten.mpr ⟨rows, List.mem_of_getElem? hrows, List.mem_of_getElem? hr⟩

theorem cell_readBatch {cols : List Selected} {rows : List Row} {idx row : Nat} {c : Selected} {r : Row}
    (hc : cols[idx]? = some c) (hr : rows[row]? = some r) : (readBatch cols rows).cell idx row = r c := by
  simp [ReadBatch.cell, readBatch, List.getD_eq_getElem?_getD, hc, hr]

theorem cellAt_read {cols : List Selected} {batches : List (List Row)} {idx : Nat} {loc : Loc} {c : Selected} {r : Row}
    (hc : cols[idx]? = some c) (hr : rowAt batches loc = some r) :
    cellAt (batches.map (readBatch cols)) idx loc = r c := by
  obtain ⟨rows, hrows, hr⟩ := Option.bind_eq_some_iff.mp hr
  unfold cellAt
  rw [List.getElem?_map, hrows]
  exact cell_readBatch hc hr

section

variable {cols : List Selected} (hkey : cols[0]? = some .key)

include hkey

theorem keyCells_readBatch (rows : List Row) :
    (List.range rows.length).map ((readBatch cols rows).cell 0) = rows.map fun r => r .key := by
  refine List.ext_getElem (by simp) fun j hj hj' => ?_
  rw [List.getElem_map, List.getElem_range, List.getElem_map]
  exact cell_readBatch hkey (List.getElem?_eq_getElem _)

theorem keyRows_keys (batches : List (List Row)) :
    (keyRows (batches.map (readBatch cols))).map Prod.fst = keyValues batches.flatten := by
  have hbatch : ∀ (rows : List Row) (i : Nat),
      ((List.range rows.length).filterMap fun row =>
        (keyValue ((readBatch cols rows).cell 0 row)).map fun k => (k, (⟨i, row⟩ : Loc))).map Prod.fst =
      keyValues rows := by
    intro rows i
    have hcells := congrArg (List.filterMap keyValue) (keyCells_readBatch hkey rows)
    rw [List.filterMap_map, List.filterMap_map] at hcells
    rw [List.map_filterMap]
    refine Eq.trans (List.filterMap_congr fun row _ => ?_) hcells
    rw [Option.map_map]
    exact congrFun Option.map_id _
  have hfrom : ∀ (bs : List (List Row)) (n : Nat),
      ((bs.map (readBatch cols)).zipIdx n).flatMap (fun (b, i) =>
        ((List.range b.numRows).filterMap fun row =>
          (keyValue (b.cell 0 row)).map fun k => (k, (⟨i, row⟩ : Loc))).map Prod.fst) =
      keyValues bs.flatten := by
    intro bs
    induction bs with
    | nil => exact fun n => rfl
    | cons rows bs ih =>
      intro n
      rw [List.map_cons, List.zipIdx_cons, List.flatMap_cons, ih, List.flatten_cons]
      unfold keyValues
      rw [List.filterMap_append]
      exact congrArg (· ++ _) (hbatch rows n)
  unfold keyRows
  rw [List.map_flatMap]
  exact hfrom batches 0

theorem row_of_mem_keyRows {batches : List (List Row)} {k : KeyValue} {loc : Loc}
    (h : (k, loc) ∈ keyRows (batches.map (readBatch cols))) :
    ∃ r, rowAt batches loc = some r ∧ keyValue (r .key) = some k := by
  obtain ⟨⟨b, i⟩, hb, h⟩ := List.mem_flatMap.mp h
  obtain ⟨row, hrow, h⟩ := List.mem_filterMap.mp h
  obtain ⟨l, hl, h⟩ := Option.map_eq_some_iff.mp h
  obtain ⟨rfl, rfl⟩ := Prod.mk.inj h
  rw [List.mem_zipIdx_iff_getElem?, List.getElem?_map] at hb
  obtain ⟨rows, hrows, rfl⟩ := Option.map_eq_some_iff.mp hb
  have hlt : row < rows.length := List.mem_range.mp hrow
  refine ⟨rows[row], ?_, ?_⟩
  · unfold rowAt
    rw [hrows]
    exact List.getElem?_eq_getElem hlt
  · rw [← hl]
    exact congrArg keyValue (cell_readBatch hkey (List.getElem?_eq_getElem hlt)).symm

end

/-- What the index of a side says of its rows. -/
structure Indexes (ix : Index KeyValue Loc) (batches : List (List Row)) : Prop where
  order_nodup : ix.order.Nodup
  dups_nodup : ix.dups.Nodup
  mem_order : ∀ k, k ∈ ix.order ↔ k ∈ keyValues batches.flatten
  mem_dups : ∀ k, k ∈ ix.dups ↔ 2 ≤ (keyValues batches.flatten).count k
  lookup_isSome : ∀ k, (ix.first.lookup k).isSome ↔ k ∈ keyValues batches.flatten
  row_of_lookup : ∀ k loc, ix.first.lookup k = some loc → ∃ r, rowAt batches loc = some r ∧ keyValue (r .key) = some k

theorem buildKeys_indexes {cols : List Selected} (hkey : cols[0]? = some .key) (batches : List (List Row)) :
    Indexes (buildKeys (batches.map (readBatch cols))) batches := by
  have h := build_spec (keyRows (batches.map (readBatch cols)))
  have hkeys := keyRows_keys hkey batches
  refine ⟨h.order_nodup, h.dups_nodup, ?_, ?_, ?_, ?_⟩
  · exact fun k => hkeys ▸ h.mem_order k
  · exact fun k => hkeys ▸ h.mem_dups k
  · intro k
    unfold buildKeys
    rw [h.lookup k, lookup_isSome_iff, hkeys]
  · intro k loc hloc
    unfold buildKeys at hloc
    rw [h.lookup k] at hloc
    exact row_of_mem_keyRows hkey (FirstSeen.mem_of_lookup hloc)

section

variable {sk dk : Index KeyValue Loc} {s d : List (List Row)} (hs : Indexes sk s) (hd : Indexes dk d)

theorem Indexes.normal_of_mem (h : Indexes sk s) {k : KeyValue} (hk : k ∈ sk.order) : k.Normal :=
  ValueReconcile.normal_of_mem ((h.mem_order k).mp hk)

/-- A count over the keys of a side in order is a count of what they denote. -/
theorem Indexes.countP_order (h : Indexes sk s) {q : KeyValue → Bool} {t : Set KeyMeaning}
    (hq : ∀ m, m ∈ t ↔ ∃ k ∈ sk.order, q k = true ∧ k.meaning = m) : t.ncard = sk.order.countP q := by
  rw [List.countP_eq_length_filter]
  refine ncard_eq_length_meaning (h.order_nodup.filter q) (fun k hk => h.normal_of_mem (List.mem_filter.mp hk).1) ?_
  intro m
  rw [hq m]
  constructor
  · rintro ⟨k, hk, hqk, hm⟩
    exact ⟨k, List.mem_filter.mpr ⟨hk, hqk⟩, hm⟩
  · rintro ⟨k, hk, hm⟩
    obtain ⟨hk, hqk⟩ := List.mem_filter.mp hk
    exact ⟨k, hk, hqk, hm⟩

include hs hd

/-- The keys of one side that the other does not have. -/
theorem countP_missing : sk.order.countP (fun k => k ∉ dk.order) = (keys s.flatten \ keys d.flatten).ncard := by
  refine (hs.countP_order fun m => ?_).symm
  rw [Set.mem_sdiff, mem_keys_iff, mem_keys_iff]
  constructor
  · rintro ⟨⟨k, hk, rfl⟩, hnot⟩
    refine ⟨k, (hs.mem_order k).mpr hk, decide_eq_true fun hin => hnot ⟨k, (hd.mem_order k).mp hin, rfl⟩, rfl⟩
  · rintro ⟨k, hk, hnot, rfl⟩
    refine ⟨⟨k, (hs.mem_order k).mp hk, rfl⟩, ?_⟩
    rintro ⟨l, hl, hm⟩
    obtain rfl := KeyValue.meaning_injective (normal_of_mem hl) (hs.normal_of_mem hk) hm
    exact of_decide_eq_true hnot ((hd.mem_order l).mpr hl)

theorem duplicates_length : (sk.dups ++ dk.dups.filter fun k => k ∉ sk.dups).length =
    (repeated s.flatten ∪ repeated d.flatten).ncard := by
  have hmem : ∀ k, k ∈ (sk.dups ++ dk.dups.filter fun k => k ∉ sk.dups) ↔ k ∈ sk.dups ∨ k ∈ dk.dups := by
    intro k
    rw [List.mem_append, List.mem_filter, decide_eq_true_eq]
    tauto
  have hnormal : ∀ k, k ∈ sk.dups ∨ k ∈ dk.dups → k.Normal := by
    rintro k (hk | hk)
    · exact normal_of_mem (List.count_pos_iff.mp (Nat.lt_of_lt_of_le Nat.two_pos ((hs.mem_dups k).mp hk)))
    · exact normal_of_mem (List.count_pos_iff.mp (Nat.lt_of_lt_of_le Nat.two_pos ((hd.mem_dups k).mp hk)))
  refine (ncard_eq_length_meaning ?_ (fun k hk => hnormal k ((hmem k).mp hk)) ?_).symm
  · refine List.nodup_append'.mpr ⟨hs.dups_nodup, hd.dups_nodup.filter _, ?_⟩
    intro k hk hkd
    exact of_decide_eq_true (List.mem_filter.mp hkd).2 hk
  · intro m
    have hof : ∀ {rows : List Row} {ds : List KeyValue}, (∀ k, k ∈ ds ↔ 2 ≤ (keyValues rows).count k) →
        (m ∈ repeated rows ↔ ∃ k ∈ ds, k.meaning = m) := by
      intro rows ds hds
      constructor
      · intro hm
        obtain ⟨k, hk, rfl⟩ := mem_keys_iff.mp (List.count_pos_iff.mp (Nat.lt_of_lt_of_le Nat.two_pos hm))
        exact ⟨k, (hds k).mpr (count_meaning rows (normal_of_mem hk) ▸ hm), rfl⟩
      · rintro ⟨k, hk, rfl⟩
        have htwo := (hds k).mp hk
        have hk := normal_of_mem (List.count_pos_iff.mp (Nat.lt_of_lt_of_le Nat.two_pos htwo))
        exact htwo.trans (count_meaning rows hk).ge
    rw [Set.mem_union, hof hs.mem_dups, hof hd.mem_dups]
    constructor
    · rintro (⟨k, hk, hm⟩ | ⟨k, hk, hm⟩)
      · exact ⟨k, (hmem k).mpr (.inl hk), hm⟩
      · exact ⟨k, (hmem k).mpr (.inr hk), hm⟩
    · rintro ⟨k, hk, hm⟩
      rcases (hmem k).mp hk with hk | hk
      · exact .inl ⟨k, hk, hm⟩
      · exact .inr ⟨k, hk, hm⟩

/-- A count over the pairs is a count of keys with one row on each side. -/
theorem countP_pairs {p : Loc × Loc → Bool} {P : Row → Row → Prop}
    (hp : ∀ ls ld x y, rowAt s ls = some x → rowAt d ld = some y → (p (ls, ld) = true ↔ P x y)) :
    (pairsOf sk dk (sk.dups ++ dk.dups.filter fun k => k ∉ sk.dups)).countP p =
      (comparedWith s.flatten d.flatten P).ncard := by
  unfold pairsOf
  rw [List.countP_filterMap, List.countP_filter]
  refine (hs.countP_order fun m => ?_).symm
  have hdups : ∀ k, k ∉ (sk.dups ++ dk.dups.filter fun k => k ∉ sk.dups) ↔
      (keyValues s.flatten).count k ≤ 1 ∧ (keyValues d.flatten).count k ≤ 1 := by
    intro k
    rw [List.mem_append, List.mem_filter, decide_eq_true_eq, hs.mem_dups, hd.mem_dups]
    omega
  constructor
  · rintro ⟨⟨hcs, hcd⟩, x, hx, y, hy, hxm, hym, hP⟩
    obtain ⟨k, hk, rfl⟩ := mem_keys_iff.mp (List.mem_map.mpr ⟨x, hx, hxm⟩)
    have hnormal := normal_of_mem hk
    have hkd : k ∈ keyValues d.flatten := by
      rw [count_meaning _ hnormal] at hcd
      exact List.count_pos_iff.mp (by omega)
    obtain ⟨ls, hls⟩ := Option.isSome_iff_exists.mp ((hs.lookup_isSome k).mpr hk)
    obtain ⟨ld, hld⟩ := Option.isSome_iff_exists.mp ((hd.lookup_isSome k).mpr hkd)
    obtain ⟨x', hx', hxk⟩ := hs.row_of_lookup k ls hls
    obtain ⟨y', hy', hyk⟩ := hd.row_of_lookup k ld hld
    have hxk := (Row.key_eq_some_iff hnormal).mpr hxk
    have hyk := (Row.key_eq_some_iff hnormal).mpr hyk
    obtain rfl := row_unique hcs hx (mem_of_rowAt hx') hxm hxk
    obtain rfl := row_unique hcd hy (mem_of_rowAt hy') hym hyk
    refine ⟨k, (hs.mem_order k).mpr hk, ?_, rfl⟩
    rw [count_meaning _ hnormal] at hcs hcd
    rw [hls, hld, Bool.and_eq_true, decide_eq_true_eq, hdups]
    exact ⟨(hp ls ld x y hx' hy').mpr hP, by omega, by omega⟩
  · rintro ⟨k, hk, hq, rfl⟩
    have hnormal := hs.normal_of_mem hk
    rw [Bool.and_eq_true, decide_eq_true_eq, hdups] at hq
    obtain ⟨hpair, hcs, hcd⟩ := hq
    obtain ⟨ls, hls⟩ := Option.isSome_iff_exists.mp ((hs.lookup_isSome k).mpr ((hs.mem_order k).mp hk))
    rw [hls, Option.bind_some] at hpair
    cases hld : dk.first.lookup k with
    | none => simp [hld] at hpair
    | some ld =>
      rw [hld] at hpair
      obtain ⟨x, hx, hxk⟩ := hs.row_of_lookup k ls hls
      obtain ⟨y, hy, hyk⟩ := hd.row_of_lookup k ld hld
      have hks := List.count_pos_iff.mpr ((hs.mem_order k).mp hk)
      have hkd := List.count_pos_iff.mpr ((hd.lookup_isSome k).mp (Option.isSome_iff_exists.mpr ⟨ld, hld⟩))
      refine ⟨⟨?_, ?_⟩, x, mem_of_rowAt hx, y, mem_of_rowAt hy, (Row.key_eq_some_iff hnormal).mpr hxk,
        (Row.key_eq_some_iff hnormal).mpr hyk, (hp ls ld x y hx hy).mp hpair⟩
      · rw [count_meaning _ hnormal]
        omega
      · rw [count_meaning _ hnormal]
        omega

end

/-! ### The columns -/

/-- Where the destination's read has the flag of column `i`. -/
def FlagAt (cols : List Selected) (i : Nat) (col : ColumnPlan) (flag : Option Nat) : Prop :=
  match col.nullDefault with
  | some _ => ∃ idx, flag = some idx ∧ cols[idx]? = some (.flag i)
  | none => flag = none

theorem columnDrifts_length (drift : Nat → Option Nat → ColumnPlan → ColumnDrift) (cs : List ColumnPlan) (i flag : Nat) :
    (columnDrifts drift i flag cs).length = cs.length := by
  induction cs generalizing i flag with
  | nil => rfl
  | cons c cs ih =>
    unfold columnDrifts
    cases c.nullDefault with
    | none => rw [List.length_cons, ih, List.length_cons]
    | some e => rw [List.length_cons, ih, List.length_cons]

/-- Each column is judged by its own flag. -/
theorem columnDrifts_getElem? (drift : Nat → Option Nat → ColumnPlan → ColumnDrift) {cols : List Selected}
    {cs : List ColumnPlan} {i flag : Nat} (hcols : cols.drop flag = flagsFrom i cs) {j : Nat} {c : ColumnPlan}
    (hc : cs[j]? = some c) :
    ∃ f, (columnDrifts drift i flag cs)[j]? = some (drift (i + j) f c) ∧ FlagAt cols (i + j) c f := by
  induction cs generalizing i flag j with
  | nil => cases hc
  | cons c' cs ih =>
    unfold columnDrifts
    unfold flagsFrom at hcols
    cases hdefault : c'.nullDefault with
    | none =>
      rw [hdefault] at hcols
      cases j with
      | zero =>
        obtain rfl := Option.some.inj hc
        refine ⟨none, rfl, ?_⟩
        unfold FlagAt
        rw [hdefault]
      | succ j =>
        obtain ⟨f, hf, hflag⟩ := ih hcols hc
        rw [Nat.add_right_comm, Nat.add_assoc] at hf hflag
        exact ⟨f, hf, hflag⟩
    | some e =>
      rw [hdefault] at hcols
      dsimp only at hcols
      cases j with
      | zero =>
        obtain rfl := Option.some.inj hc
        refine ⟨some flag, rfl, ?_⟩
        unfold FlagAt
        rw [hdefault]
        refine ⟨flag, rfl, ?_⟩
        rw [← Nat.add_zero flag, ← List.getElem?_drop, hcols]
        rfl
      | succ j =>
        have hnext : cols.drop (flag + 1) = flagsFrom (i + 1) cs := by
          rw [← List.drop_drop, hcols]
          rfl
        obtain ⟨f, hf, hflag⟩ := ih hnext hc
        rw [Nat.add_right_comm, Nat.add_assoc] at hf hflag
        exact ⟨f, hf, hflag⟩

theorem sourceCols_length (plan : Plan) : (sourceCols plan).length = 1 + plan.columns.length := by
  unfold sourceCols
  rw [List.length_cons, List.length_map, List.length_range, Nat.add_comm]

theorem sourceCols_column {plan : Plan} {i : Nat} (hi : i < plan.columns.length) :
    (sourceCols plan)[1 + i]? = some (.column i) := by
  unfold sourceCols
  rw [Nat.add_comm, List.getElem?_cons_succ, List.getElem?_map, List.getElem?_range hi]
  rfl

theorem destCols_column {plan : Plan} {i : Nat} (hi : i < plan.columns.length) :
    (destCols plan)[1 + i]? = some (.column i) := by
  unfold destCols
  rw [List.getElem?_append_left (by rw [sourceCols_length]; omega), sourceCols_column hi]

theorem destCols_drop (plan : Plan) : (destCols plan).drop (1 + plan.columns.length) = flagsFrom 0 plan.columns := by
  unfold destCols
  rw [← sourceCols_length, List.drop_left]

section

variable (col : ColumnPlan) (i : Nat) (x y : Row)

/-- The outcome for a pair of rows. -/
def rowOutcome : Outcome :=
  classify col.rule (x (.column i)) (y (.column i)) (col.nullDefault.isSome && (y (.flag i)).isTrue) col.tolerance

theorem outcomeAt_eq {plan : Plan} {s d : List (List Row)} {flag : Option Nat} {ls ld : Loc}
    (hi : i < plan.columns.length) (hflag : FlagAt (destCols plan) i col flag) (hx : rowAt s ls = some x)
    (hy : rowAt d ld = some y) :
    outcomeAt (readSource plan s) (readDest plan d) i flag col (ls, ld) = rowOutcome col i x y := by
  unfold outcomeAt rowOutcome readSource readDest
  dsimp only
  rw [cellAt_read (sourceCols_column hi) hx, cellAt_read (destCols_column hi) hy]
  unfold FlagAt at hflag
  cases hdefault : col.nullDefault with
  | none =>
    rw [hdefault] at hflag
    rw [hflag]
    rfl
  | some e =>
    rw [hdefault] at hflag
    obtain ⟨idx, rfl, hidx⟩ := hflag
    rw [Option.any_some, cellAt_read hidx hy, Option.isSome_some, Bool.true_and]

theorem rowOutcome_ne_equal_iff : rowOutcome col i x y ≠ .equal ↔ ¬Agree col i x y := by
  unfold rowOutcome classify Agree HoldsNullDefault
  rw [← Bool.and_eq_true]
  cases (x (.column i)).isNull <;> cases (y (.column i)).isNull <;>
    cases (col.nullDefault.isSome && (y (.flag i)).isTrue) <;>
    cases equal col.rule (x (.column i)) (y (.column i)) col.tolerance <;> simp

theorem rowOutcome_nullInDestOnly_iff : rowOutcome col i x y = .nullInDestOnly ↔ NullInDest col i x y := by
  unfold rowOutcome classify NullInDest Agree HoldsNullDefault
  rw [← Bool.and_eq_true]
  cases (x (.column i)).isNull <;> cases (y (.column i)).isNull <;>
    cases (col.nullDefault.isSome && (y (.flag i)).isTrue) <;>
    cases equal col.rule (x (.column i)) (y (.column i)) col.tolerance <;> simp

theorem rowOutcome_nullInSourceOnly_iff : rowOutcome col i x y = .nullInSourceOnly ↔ NullInSource col i x y := by
  unfold rowOutcome classify NullInSource Agree HoldsNullDefault
  rw [← Bool.and_eq_true]
  cases (x (.column i)).isNull <;> cases (y (.column i)).isNull <;>
    cases (col.nullDefault.isSome && (y (.flag i)).isTrue) <;>
    cases equal col.rule (x (.column i)) (y (.column i)) col.tolerance <;> simp

end

/-- The counts of a column after some pairs. -/
theorem columnDrift_counts (arrayValueToString : ReadBatch → Nat → String) (source dest : List ReadBatch)
    (sampleLimit : Nat) (pairs : List (Loc × Loc)) (i : Nat) (flag : Option Nat) (col : ColumnPlan) :
    let drift := columnDrift arrayValueToString source dest sampleLimit pairs i flag col
    drift.column = col.name ∧ drift.compared = pairs.length ∧
      drift.mismatched = pairs.countP (fun p => outcomeAt source dest i flag col p ≠ .equal) ∧
      drift.nullInDestOnly = pairs.countP (fun p => outcomeAt source dest i flag col p = .nullInDestOnly) ∧
      drift.nullInSourceOnly = pairs.countP (fun p => outcomeAt source dest i flag col p = .nullInSourceOnly) := by
  have hfold : ∀ (ps : List (Loc × Loc)) (drift₀ : ColumnDrift),
      let drift := ps.foldl (fun drift p => drift.add (outcomeAt source dest i flag col p) sampleLimit
        (renderKey arrayValueToString source p.1)) drift₀
      drift.column = drift₀.column ∧ drift.compared = drift₀.compared ∧
        drift.mismatched = drift₀.mismatched + ps.countP (fun p => outcomeAt source dest i flag col p ≠ .equal) ∧
        drift.nullInDestOnly =
          drift₀.nullInDestOnly + ps.countP (fun p => outcomeAt source dest i flag col p = .nullInDestOnly) ∧
        drift.nullInSourceOnly =
          drift₀.nullInSourceOnly + ps.countP (fun p => outcomeAt source dest i flag col p = .nullInSourceOnly) := by
    intro ps
    induction ps with
    | nil => exact fun drift₀ => ⟨rfl, rfl, rfl, rfl, rfl⟩
    | cons p ps ih =>
      intro drift₀
      obtain ⟨hcolumn, hcompared, hmis, hdest, hsource⟩ := ih (drift₀.add (outcomeAt source dest i flag col p)
        sampleLimit (renderKey arrayValueToString source p.1))
      rw [List.foldl_cons, List.countP_cons, List.countP_cons, List.countP_cons]
      refine ⟨hcolumn.trans ?_, hcompared.trans ?_, hmis.trans ?_, hdest.trans ?_, hsource.trans ?_⟩ <;>
        unfold ColumnDrift.add <;> cases outcomeAt source dest i flag col p <;> simp <;> omega
  obtain ⟨hcolumn, hcompared, hmis, hdest, hsource⟩ := hfold pairs { column := col.name, compared := pairs.length }
  rw [Nat.zero_add] at hmis hdest hsource
  exact ⟨hcolumn, hcompared, hmis, hdest, hsource⟩

/-! ### The counts of a result -/

/-- What is counted of column `i`. -/
structure DriftCounted (col : ColumnPlan) (i : Nat) (s d : List Row) (drift : ColumnDrift) : Prop where
  column : drift.column = col.name
  compared : drift.compared = (compared s d).ncard
  mismatched : drift.mismatched = (comparedWith s d fun x y => ¬Agree col i x y).ncard
  nullInDestOnly : drift.nullInDestOnly = (comparedWith s d (NullInDest col i)).ncard
  nullInSourceOnly : drift.nullInSourceOnly = (comparedWith s d (NullInSource col i)).ncard

/-- What a result counts. -/
structure Counted (plan : Plan) (s d : List Row) (r : ValueReconcileResult) : Prop where
  source_rows : r.sourceRows = s.length
  dest_rows : r.destRows = d.length
  compared_keys : r.comparedKeys = (compared s d).ncard
  missing_keys : r.missingKeys = (keys s \ keys d).ncard
  orphan_keys : r.orphanKeys = (keys d \ keys s).ncard
  duplicate_keys : r.duplicateKeys = (repeated s ∪ repeated d).ncard
  columns_length : r.columns.length = plan.columns.length
  columns : ∀ i col, plan.columns[i]? = some col → ∃ drift, r.columns[i]? = some drift ∧ DriftCounted col i s d drift

theorem comparedWith_true (s d : List Row) : comparedWith s d (fun _ _ => True) = compared s d := by
  ext m
  refine ⟨And.left, fun h => ⟨h, ?_⟩⟩
  have hrow : ∀ {rows : List Row}, (rows.map Row.key).count (some m) = 1 → ∃ r ∈ rows, r.key = some m := fun hone =>
    List.mem_map.mp (List.count_pos_iff.mp (by omega))
  obtain ⟨x, hx, hxm⟩ := hrow h.1
  obtain ⟨y, hy, hym⟩ := hrow h.2
  exact ⟨x, hx, y, hy, hxm, hym, trivial⟩

theorem numRows_sum (cols : List Selected) (batches : List (List Row)) :
    ((batches.map (readBatch cols)).map (·.numRows)).sum = batches.flatten.length := by
  rw [List.map_map, List.length_flatten]
  rfl

theorem keys_nonempty_iff {ix : Index KeyValue Loc} {batches : List (List Row)} (h : Indexes ix batches) :
    ix.first ≠ [] ↔ (keys batches.flatten).Nonempty := by
  constructor
  · intro hne
    obtain ⟨p, hp⟩ := List.exists_mem_of_ne_nil _ hne
    exact ⟨p.1.meaning, mem_keys_iff.mpr ⟨p.1, (h.mem_order p.1).mp (List.mem_map_of_mem hp), rfl⟩⟩
  · rintro ⟨m, hm⟩ hnil
    obtain ⟨k, hk, -⟩ := mem_keys_iff.mp hm
    have hk := (h.mem_order k).mpr hk
    unfold Index.order at hk
    rw [hnil] at hk
    cases hk

/-- All keys of a side are missing exactly when the sides have none in common. -/
theorem countP_missing_eq_length_iff {sk dk : Index KeyValue Loc} {s d : List (List Row)} (hs : Indexes sk s)
    (hd : Indexes dk d) :
    sk.order.countP (fun k => k ∉ dk.order) = sk.first.length ↔ Disjoint (keys s.flatten) (keys d.flatten) := by
  have hlength : sk.first.length = sk.order.length := (List.length_map _).symm
  rw [hlength, List.countP_eq_length, Set.disjoint_left]
  constructor
  · intro hall m hms hmd
    obtain ⟨k, hk, rfl⟩ := mem_keys_iff.mp hms
    obtain ⟨l, hl, hm⟩ := mem_keys_iff.mp hmd
    obtain rfl := KeyValue.meaning_injective (normal_of_mem hl) (normal_of_mem hk) hm
    exact of_decide_eq_true (hall l ((hs.mem_order l).mpr hk)) ((hd.mem_order l).mpr hl)
  · intro hdisjoint k hk
    refine decide_eq_true fun hkd => hdisjoint (mem_keys_iff.mpr ⟨k, (hs.mem_order k).mp hk, rfl⟩) ?_
    exact mem_keys_iff.mpr ⟨k, (hd.mem_order k).mp hkd, rfl⟩

section

variable (arrayValueToString : ReadBatch → Nat → String) (debug : List String → String) (plan : Plan)
  (s d : List (List Row)) (sampleLimit : Nat)

theorem source_indexes : Indexes (buildKeys (readSource plan s)) s := buildKeys_indexes rfl s

theorem dest_indexes : Indexes (buildKeys (readDest plan d)) d := buildKeys_indexes rfl d

/-- The comparison refuses exactly the keys that have none in common. -/
theorem diff_error_iff :
    (∃ e, diff arrayValueToString debug plan (readSource plan s) (readDest plan d) sampleLimit = .error e) ↔
      (keys s.flatten).Nonempty ∧ (keys d.flatten).Nonempty ∧ Disjoint (keys s.flatten) (keys d.flatten) := by
  have hs := source_indexes plan s
  have hd := dest_indexes plan d
  rw [← keys_nonempty_iff hs, ← keys_nonempty_iff hd, ← countP_missing_eq_length_iff hs hd]
  unfold diff
  dsimp only
  constructor
  · rintro ⟨e, he⟩
    split_ifs at he with h
    exact h
  · intro h
    exact ⟨_, if_pos h⟩

theorem diff_counted {r : ValueReconcileResult}
    (h : diff arrayValueToString debug plan (readSource plan s) (readDest plan d) sampleLimit = .ok r) :
    Counted plan s.flatten d.flatten r := by
  have hs := source_indexes plan s
  have hd := dest_indexes plan d
  unfold diff at h
  dsimp only at h
  split_ifs at h
  obtain rfl := Except.ok.inj h
  have hcount {p : Loc × Loc → Bool} {P : Row → Row → Prop} := countP_pairs (p := p) (P := P) hs hd
  -- the pairs of rows that are compared
  generalize pairsOf (buildKeys (readSource plan s)) (buildKeys (readDest plan d)) _ = pairs at hcount ⊢
  have hpairs : pairs.length = (compared s.flatten d.flatten).ncard := by
    rw [← comparedWith_true, ← hcount (p := fun _ => true) fun ls ld x y _ _ => iff_of_true rfl trivial,
      List.countP_true]
  refine ⟨numRows_sum _ s, numRows_sum _ d, hpairs, countP_missing hs hd, countP_missing hd hs,
    duplicates_length hs hd, columnDrifts_length _ _ _ _, ?_⟩
  intro i col hcol
  have hi : i < plan.columns.length := (List.getElem?_eq_some_iff.mp hcol).1
  obtain ⟨flag, hdrift, hflag⟩ := columnDrifts_getElem?
    (columnDrift arrayValueToString (readSource plan s) (readDest plan d) sampleLimit pairs) (destCols_drop plan) hcol
  rw [Nat.zero_add] at hdrift hflag
  obtain ⟨hcolumn, hcompared, hmis, hdest, hsource⟩ := columnDrift_counts arrayValueToString (readSource plan s)
    (readDest plan d) sampleLimit pairs i flag col
  refine ⟨_, hdrift, hcolumn, hcompared.trans hpairs, hmis.trans ?_, hdest.trans ?_, hsource.trans ?_⟩
  · refine hcount fun ls ld x y hx hy => ?_
    rw [outcomeAt_eq col i x y hi hflag hx hy, decide_eq_true_eq]
    exact rowOutcome_ne_equal_iff col i x y
  · refine hcount fun ls ld x y hx hy => ?_
    rw [outcomeAt_eq col i x y hi hflag hx hy, decide_eq_true_eq]
    exact rowOutcome_nullInDestOnly_iff col i x y
  · refine hcount fun ls ld x y hx hy => ?_
    rw [outcomeAt_eq col i x y hi hflag hx hy, decide_eq_true_eq]
    exact rowOutcome_nullInSourceOnly_iff col i x y

end

/-- The NULL counts are of disjoint parts of the keys whose cells differ. -/
theorem null_counts_disjoint (col : ColumnPlan) (i : Nat) (s d : List Row) :
    comparedWith s d (NullInDest col i) ⊆ comparedWith s d (fun x y => ¬Agree col i x y) ∧
      comparedWith s d (NullInSource col i) ⊆ comparedWith s d (fun x y => ¬Agree col i x y) ∧
      Disjoint (comparedWith s d (NullInDest col i)) (comparedWith s d (NullInSource col i)) := by
  refine ⟨?_, ?_, Set.disjoint_left.mpr ?_⟩
  · rintro m ⟨hm, x, hx, y, hy, hxm, hym, h⟩
    exact ⟨hm, x, hx, y, hy, hxm, hym, h.2.1⟩
  · rintro m ⟨hm, x, hx, y, hy, hxm, hym, h⟩
    exact ⟨hm, x, hx, y, hy, hxm, hym, h.2⟩
  · rintro m ⟨hm, x, hx, y, hy, hxm, hym, h⟩ ⟨-, x', hx', y', hy', hxm', hym', h'⟩
    obtain rfl := row_unique hm.1 hx hx' hxm hxm'
    exact absurd (h.1.symm.trans h'.1) Bool.false_ne_true

/-! ### The order of the rows -/

section

variable {s s' d d' : List Row} (hs : s'.Perm s) (hd : d'.Perm d)

include hs in
theorem keys_perm : keys s' = keys s := by
  ext m
  exact (hs.map _).mem_iff

include hs in
theorem repeated_perm : repeated s' = repeated s := by
  ext m
  unfold repeated
  rw [Set.mem_ofPred_eq, Set.mem_ofPred_eq, (hs.map _).count_eq]

include hs hd

theorem compared_perm : compared s' d' = compared s d := by
  ext m
  unfold compared
  rw [Set.mem_ofPred_eq, Set.mem_ofPred_eq, (hs.map _).count_eq, (hd.map _).count_eq]

theorem comparedWith_perm (P : Row → Row → Prop) : comparedWith s' d' P = comparedWith s d P := by
  ext m
  unfold comparedWith
  rw [Set.mem_ofPred_eq, Set.mem_ofPred_eq, compared_perm hs hd]
  simp only [hs.mem_iff, hd.mem_iff]

theorem Counted.perm {plan : Plan} {r : ValueReconcileResult} (h : Counted plan s' d' r) : Counted plan s d r := by
  have hcolumns := h.columns
  refine ⟨h.source_rows.trans hs.length_eq, h.dest_rows.trans hd.length_eq, ?_, ?_, ?_, ?_, h.columns_length, ?_⟩
  · rw [h.compared_keys, compared_perm hs hd]
  · rw [h.missing_keys, keys_perm hs, keys_perm hd]
  · rw [h.orphan_keys, keys_perm hs, keys_perm hd]
  · rw [h.duplicate_keys, repeated_perm hs, repeated_perm hd]
  · intro i col hcol
    obtain ⟨drift, hdrift, hc⟩ := h.columns i col hcol
    refine ⟨drift, hdrift, hc.column, ?_, ?_, ?_, ?_⟩
    · rw [hc.compared, compared_perm hs hd]
    · rw [hc.mismatched, comparedWith_perm hs hd]
    · rw [hc.nullInDestOnly, comparedWith_perm hs hd]
    · rw [hc.nullInSourceOnly, comparedWith_perm hs hd]

end

/-- A column without its sample. -/
def ColumnDrift.counts (drift : ColumnDrift) : ColumnDrift := { drift with sample := [] }

/-- A result without its samples. -/
def ValueReconcileResult.counts (r : ValueReconcileResult) : ValueReconcileResult :=
  { r with columns := r.columns.map ColumnDrift.counts }

theorem DriftCounted.unique {col : ColumnPlan} {i : Nat} {s d : List Row} {a b : ColumnDrift}
    (ha : DriftCounted col i s d a) (hb : DriftCounted col i s d b) : a.counts = b.counts := by
  unfold ColumnDrift.counts
  rw [ha.column, ha.compared, ha.mismatched, ha.nullInDestOnly, ha.nullInSourceOnly, hb.column, hb.compared,
    hb.mismatched, hb.nullInDestOnly, hb.nullInSourceOnly]

theorem Counted.unique {plan : Plan} {s d : List Row} {a b : ValueReconcileResult} (ha : Counted plan s d a)
    (hb : Counted plan s d b) : a.counts = b.counts := by
  have hcolumns : a.columns.map ColumnDrift.counts = b.columns.map ColumnDrift.counts := by
    refine List.ext_getElem? fun i => ?_
    rw [List.getElem?_map, List.getElem?_map]
    cases hcol : plan.columns[i]? with
    | none =>
      have hlen := List.getElem?_eq_none_iff.mp hcol
      rw [List.getElem?_eq_none (by rw [ha.columns_length]; exact hlen),
        List.getElem?_eq_none (by rw [hb.columns_length]; exact hlen)]
    | some col =>
      obtain ⟨x, hx, hxc⟩ := ha.columns i col hcol
      obtain ⟨y, hy, hyc⟩ := hb.columns i col hcol
      rw [hx, hy, Option.map_some, Option.map_some, hxc.unique hyc]
  unfold ValueReconcileResult.counts
  rw [hcolumns, ha.source_rows, ha.dest_rows, ha.compared_keys, ha.missing_keys, ha.orphan_keys, ha.duplicate_keys,
    hb.source_rows, hb.dest_rows, hb.compared_keys, hb.missing_keys, hb.orphan_keys, hb.duplicate_keys]

/-- Keys match by what they denote, the exact rule is equality of the numbers that fit 38 digits, sides without a common
key are refused, and the counts are sizes of sets of keys, whatever the order and the batches of the rows. -/
theorem value_reconciliation_counts (arrayValueToString : ReadBatch → Nat → String) (debug : List String → String)
    (plan : Plan) (s d : List (List Row)) (sampleLimit : Nat) :
    (∀ a b : Cell, keyValue a = keyValue b ↔ a.meaning = b.meaning) ∧
      (∀ a b : Cell, a.Fits → b.Fits → (equal .exact a b .zero = true ↔ ∃ q, a.number = some q ∧ b.number = some q)) ∧
      ((∃ e, diff arrayValueToString debug plan (readSource plan s) (readDest plan d) sampleLimit = .error e) ↔
        (keys s.flatten).Nonempty ∧ (keys d.flatten).Nonempty ∧ Disjoint (keys s.flatten) (keys d.flatten)) ∧
      (∀ r, diff arrayValueToString debug plan (readSource plan s) (readDest plan d) sampleLimit = .ok r →
        Counted plan s.flatten d.flatten r) ∧
      (∀ (col : ColumnPlan) (i : Nat),
        comparedWith s.flatten d.flatten (NullInDest col i) ⊆
            comparedWith s.flatten d.flatten (fun x y => ¬Agree col i x y) ∧
          comparedWith s.flatten d.flatten (NullInSource col i) ⊆
            comparedWith s.flatten d.flatten (fun x y => ¬Agree col i x y) ∧
          Disjoint (comparedWith s.flatten d.flatten (NullInDest col i))
            (comparedWith s.flatten d.flatten (NullInSource col i))) ∧
      ∀ s' d' : List (List Row), s'.flatten.Perm s.flatten → d'.flatten.Perm d.flatten →
        (diff arrayValueToString debug plan (readSource plan s') (readDest plan d') sampleLimit).toOption.map
            ValueReconcileResult.counts =
          (diff arrayValueToString debug plan (readSource plan s) (readDest plan d) sampleLimit).toOption.map
            ValueReconcileResult.counts := by
  refine ⟨keyValue_eq_iff, fun a b => equal_exact_iff, diff_error_iff _ _ plan s d sampleLimit,
    fun r => diff_counted _ _ plan s d sampleLimit, fun col i => null_counts_disjoint col i _ _, ?_⟩
  intro s' d' hs hd
  have herror := diff_error_iff arrayValueToString debug plan s d sampleLimit
  have herror' := diff_error_iff arrayValueToString debug plan s' d' sampleLimit
  rw [keys_perm hs, keys_perm hd, ← herror] at herror'
  cases hdiff : diff arrayValueToString debug plan (readSource plan s) (readDest plan d) sampleLimit with
  | error e =>
    obtain ⟨e', he'⟩ := herror'.mpr ⟨e, hdiff⟩
    rw [he']
    rfl
  | ok r =>
    cases hdiff' : diff arrayValueToString debug plan (readSource plan s') (readDest plan d') sampleLimit with
    | error e' =>
      obtain ⟨e, he⟩ := herror'.mp ⟨e', hdiff'⟩
      rw [hdiff] at he
      cases he
    | ok r' =>
      have hcounted := diff_counted _ _ plan s d sampleLimit hdiff
      have hcounted' := (diff_counted _ _ plan s' d' sampleLimit hdiff').perm hs hd
      exact congrArg some (hcounted'.unique hcounted)

/-- Of 39 digits: the first is beyond `i128` at the scale of the second, and as doubles the two are one. -/
def wideDecimals : ReadDecimal × ReadDecimal :=
  (⟨17014118346046923173168730371588410573, 0, by decide, by decide⟩,
    ⟨170141183460469231731687303715884105727, 1, by decide, by decide⟩)

theorem wide_decimals_pass_as_equal :
    equal .exact (.dec wideDecimals.1) (.dec wideDecimals.2) .zero = true ∧
      ¬∃ q, (Cell.dec wideDecimals.1).number = some q ∧ (Cell.dec wideDecimals.2).number = some q := by
  refine ⟨by decide +kernel, ?_⟩
  rintro ⟨q, h1, h2⟩
  have hvalue : wideDecimals.1.value = wideDecimals.2.value := Option.some.inj (h1.trans h2.symm)
  unfold wideDecimals ReadDecimal.value at hvalue
  norm_num at hvalue

end Quickhouse.ValueReconcile
