import Mathlib.Data.List.Dedup
import Mathlib.Data.List.Nodup
import Mathlib.Data.List.MinMax
import Mathlib.Tactic.Linarith

/-!
# Keyed tables and the MERGE statement

A MERGE joins a target list with a source list: matched target rows are updated, source rows that match
nothing are inserted, and target rows that nothing matches may be deleted.  The join condition is an arbitrary
Boolean; `MatchesByKey` says that on the rows at hand it is equality of keys, and under it the statement is the
keyed upsert: `Merge.run_eq_some`, `Merge.mem_result_of_source`, `Merge.result_keys_nodup`,
`Merge.rest_unchanged` and, when it runs again, `Merge.unmatched_eq_nil`.

`newest` picks one row a key, the one with the greatest order value; which of equals it takes depends on the
order it meets them in.
-/

namespace Keyed

variable {α β κ ω : Type}

/-! ### Unique keys -/

theorem eq_of_key_eq {key : α → κ} {l : List α} (h : (l.map key).Nodup) {a b : α} (ha : a ∈ l) (hb : b ∈ l)
    (hab : key a = key b) : a = b :=
  List.inj_on_of_nodup_map h ha hb hab

/-- In a table with unique keys the rows of one key are a single row. -/
theorem filter_key_eq_singleton [DecidableEq κ] {key : α → κ} {l : List α} (h : (l.map key).Nodup) {a : α}
    (ha : a ∈ l) : l.filter (fun b => key b = key a) = [a] := by
  induction l with
  | nil => simp at ha
  | cons b l ih =>
    rw [List.map_cons, List.nodup_cons] at h
    rcases List.mem_cons.mp ha with rfl | hmem
    · have hnone : l.filter (fun b => key b = key a) = [] := by
        rw [List.filter_eq_nil_iff]
        intro b hb
        have : key b ∈ l.map key := List.mem_map_of_mem hb
        simp only [decide_eq_true_eq]
        intro heq
        exact h.1 (heq ▸ this)
      simp [hnone]
    · have hne : key b ≠ key a := by
        intro heq
        exact h.1 (heq ▸ List.mem_map_of_mem hmem)
      rw [List.filter_cons_of_neg (by simpa using hne)]
      exact ih h.2 hmem

/-! ### One row a key -/

section Newest

variable [DecidableEq κ] [LinearOrder ω] {key : α → κ} {order : α → ω} {rows : List α}

/-- The row of key `k` with the greatest order value. -/
def newestOf (key : α → κ) (order : α → ω) (rows : List α) (k : κ) : Option α :=
  (rows.filter (fun r => key r = k)).argmax order

/-- One row for each key of `rows`, with the greatest `order` among the rows of its key. -/
def newest (key : α → κ) (order : α → ω) (rows : List α) : List α :=
  (rows.map key).dedup.filterMap (newestOf key order rows)

theorem newestOf_eq_some {k : κ} {r : α} (h : newestOf key order rows k = some r) :
    r ∈ rows ∧ key r = k ∧ ∀ r' ∈ rows, key r' = k → order r' ≤ order r := by
  have hmem := List.argmax_mem (Option.mem_def.mpr h)
  rw [List.mem_filter, decide_eq_true_eq] at hmem
  refine ⟨hmem.1, hmem.2, fun r' hr' hkey => ?_⟩
  refine List.le_of_mem_argmax ?_ (Option.mem_def.mpr h)
  rw [List.mem_filter, decide_eq_true_eq]
  exact ⟨hr', hkey⟩

theorem exists_newestOf {k : κ} (h : k ∈ rows.map key) : ∃ r, newestOf key order rows k = some r := by
  obtain ⟨r, hr, rfl⟩ := List.mem_map.mp h
  have hne : rows.filter (fun r' => key r' = key r) ≠ [] :=
    List.ne_nil_of_mem (List.mem_filter.mpr ⟨hr, decide_eq_true rfl⟩)
  exact Option.ne_none_iff_exists'.mp (mt List.argmax_eq_none.mp hne)

theorem mem_newest {r : α} (h : r ∈ newest key order rows) :
    r ∈ rows ∧ ∀ r' ∈ rows, key r' = key r → order r' ≤ order r := by
  obtain ⟨k, -, hk⟩ := List.mem_filterMap.mp h
  obtain ⟨hmem, rfl, hmax⟩ := newestOf_eq_some hk
  exact ⟨hmem, hmax⟩

/-- The keys of the rows kept are the keys of the batch, each once. -/
theorem newest_keys : (newest key order rows).map key = (rows.map key).dedup := by
  have hsub (ks : List κ) (hks : ∀ k ∈ ks, k ∈ rows.map key) :
      (ks.filterMap (newestOf key order rows)).map key = ks := by
    induction ks with
    | nil => rfl
    | cons k ks ih =>
      obtain ⟨r, hr⟩ : ∃ r, newestOf key order rows k = some r := exists_newestOf (hks k List.mem_cons_self)
      rw [List.filterMap_cons_some hr, List.map_cons, ih (fun k' hk' => hks k' (List.mem_cons_of_mem _ hk')),
        (newestOf_eq_some hr).2.1]
  exact hsub _ (fun k hk => List.mem_dedup.mp hk)

theorem exists_mem_newest (key : α → κ) (order : α → ω) {r : α} (h : r ∈ rows) : ∃ r' ∈ newest key order rows, key r' = key r := by
  have hkey : key r ∈ (newest key order rows).map key := by
    rw [newest_keys]
    exact List.mem_dedup.mpr (List.mem_map_of_mem h)
  exact List.mem_map.mp hkey

theorem newest_keys_nodup (key : α → κ) (order : α → ω) (rows : List α) :
    ((newest key order rows).map key).Nodup := by
  rw [newest_keys]
  exact List.nodup_dedup _

/-- Of two rows with one key and one order value the first met is kept. -/
theorem newest_pair {a b : α} (hk : key b = key a) (ho : order b = order a) : newest key order [a, b] = [a] := by
  have hof : newestOf key order [a, b] (key a) = some a := by
    simp [newestOf, hk, List.argmax_cons, ho]
  simp [newest, hk, hof]

end Newest

/-! ### MERGE -/

/-- A MERGE statement over target rows `α` and source rows `β`. -/
structure Merge (α β : Type) where
  /-- The join condition holds; unknown counts as not. -/
  on : α → β → Bool
  update : α → β → α
  insert : β → α
  /-- A target row nothing matches is deleted when this holds. -/
  delete : α → Bool

namespace Merge

variable (m : Merge α β)

/-- What becomes of one target row. -/
def targetRow (S : List β) (t : α) : Option α :=
  match S.find? (m.on t) with
  | some s => some (m.update t s)
  | none => if m.delete t then none else some t

/-- The source rows that match no target row. -/
def unmatched (T : List α) (S : List β) : List β := S.filter (fun s => T.all (fun t => !m.on t s))

def result (T : List α) (S : List β) : List α :=
  T.filterMap (m.targetRow S) ++ (m.unmatched T S).map m.insert

/-- The statement fails when a target row matches more than one source row. -/
def run (T : List α) (S : List β) : Option (List α) :=
  if T.all (fun t => (S.filter (m.on t)).length ≤ 1) then some (m.result T S) else none

/-- On the rows at hand the join condition is equality of keys. -/
def MatchesByKey (kT : α → κ) (kS : β → κ) (T : List α) (S : List β) : Prop :=
  ∀ t ∈ T, ∀ s ∈ S, m.on t s = true ↔ kT t = kS s

/-- The join pairs rows of one key only. -/
def JoinsEqualKeys (kT : α → κ) (kS : β → κ) (T : List α) (S : List β) : Prop :=
  ∀ t ∈ T, ∀ s ∈ S, m.on t s = true → kT t = kS s

/-- An update keeps the key of its row and an insert takes the key of its source row. -/
structure KeepsKeys (kT : α → κ) (kS : β → κ) : Prop where
  update : ∀ t s, kT t = kS s → kT (m.update t s) = kT t
  insert : ∀ s, kT (m.insert s) = kS s

section Rules

variable {m} {kT : α → κ} {kS : β → κ} {T : List α} {S : List β}

theorem MatchesByKey.joinsEqualKeys (hon : m.MatchesByKey kT kS T S) : m.JoinsEqualKeys kT kS T S :=
  fun t ht s hs => (hon t ht s hs).mp

/-- Two conditions that agree on the rows at hand give the same table. -/
theorem result_congr {m' : Merge α β} (hon : ∀ t ∈ T, ∀ s ∈ S, m.on t s = m'.on t s)
    (hupdate : m.update = m'.update) (hinsert : m.insert = m'.insert) (hdelete : m.delete = m'.delete) :
    m.run T S = m'.run T S := by
  have hfind : ∀ t ∈ T, S.filter (m.on t) = S.filter (m'.on t) := by
    intro t ht
    exact List.filter_congr (fun s hs => hon t ht s hs)
  have hrow : ∀ t ∈ T, m.targetRow S t = m'.targetRow S t := by
    intro t ht
    have : S.find? (m.on t) = S.find? (m'.on t) := by
      rw [← List.head?_filter, ← List.head?_filter, hfind t ht]
    simp only [targetRow, this, hupdate, hdelete]
  have hunmatched : m.unmatched T S = m'.unmatched T S := by
    refine List.filter_congr (fun s hs => ?_)
    rw [Bool.eq_iff_iff, List.all_eq_true, List.all_eq_true]
    constructor <;> intro h t ht
    · rw [← hon t ht s hs]; exact h t ht
    · rw [hon t ht s hs]; exact h t ht
  have hall : T.all (fun t => (S.filter (m.on t)).length ≤ 1) =
      T.all (fun t => (S.filter (m'.on t)).length ≤ 1) := by
    rw [Bool.eq_iff_iff, List.all_eq_true, List.all_eq_true]
    constructor <;> intro h t ht
    · rw [← hfind t ht]; exact h t ht
    · rw [hfind t ht]; exact h t ht
  simp only [run, result, hall, hunmatched, hinsert, List.filterMap_congr hrow]

theorem find_eq_some (hon : m.MatchesByKey kT kS T S) (hS : (S.map kS).Nodup) {t : α} (ht : t ∈ T) {s : β}
    (hs : s ∈ S) (hk : kT t = kS s) : S.find? (m.on t) = some s := by
  cases hf : S.find? (m.on t) with
  | none =>
    have := List.find?_eq_none.mp hf s hs
    exact absurd ((hon t ht s hs).mpr hk) this
  | some s' =>
    have hs' := List.mem_of_find?_eq_some hf
    have hon' := (hon t ht s' hs').mp (List.find?_some hf)
    rw [eq_of_key_eq hS hs' hs (hon'.symm.trans hk)]

/-- A join that pairs equal keys only gives a target row one source row at most, so the statement runs. -/
theorem run_eq_some (hon : m.JoinsEqualKeys kT kS T S) (hS : (S.map kS).Nodup) :
    m.run T S = some (m.result T S) := by
  unfold run
  rw [if_pos]
  rw [List.all_eq_true]
  intro t ht
  rw [decide_eq_true_eq]
  by_contra hlen
  have h2 : 2 ≤ (S.filter (m.on t)).length := by omega
  have hnd : (S.filter (m.on t)).Nodup := (List.Nodup.of_map kS hS).filter _
  obtain ⟨a, b, hab, hsub⟩ : ∃ a b, a ≠ b ∧ a ∈ S.filter (m.on t) ∧ b ∈ S.filter (m.on t) := by
    match hl : S.filter (m.on t), h2, hnd with
    | a :: b :: l, _, hnd =>
      refine ⟨a, b, ?_, List.mem_cons_self, List.mem_cons_of_mem _ List.mem_cons_self⟩
      intro hab
      rw [hab] at hnd
      simp at hnd
  rw [List.mem_filter, List.mem_filter] at hsub
  have ha := hon t ht a hsub.1.1 hsub.1.2
  have hb := hon t ht b hsub.2.1 hsub.2.2
  exact hab (eq_of_key_eq hS hsub.1.1 hsub.2.1 (ha.symm.trans hb))

theorem targetRow_of_match (hon : m.MatchesByKey kT kS T S) (hS : (S.map kS).Nodup) {t : α} (ht : t ∈ T)
    {s : β} (hs : s ∈ S) (hk : kT t = kS s) : m.targetRow S t = some (m.update t s) := by
  unfold targetRow
  rw [find_eq_some hon hS ht hs hk]

/-- A row whose key is not in the source is joined by nothing. -/
theorem targetRow_of_rest (hon : m.JoinsEqualKeys kT kS T S) {t : α} (ht : t ∈ T)
    (hk : kT t ∉ S.map kS) : m.targetRow S t = if m.delete t then none else some t := by
  have hfind : S.find? (m.on t) = none := by
    rw [List.find?_eq_none]
    intro s hs hmatch
    exact hk (hon t ht s hs hmatch ▸ List.mem_map_of_mem hs)
  unfold targetRow
  rw [hfind]

/-- Every source key is in the result: its row joined something, or it was inserted. -/
theorem source_key_mem (hon : m.JoinsEqualKeys kT kS T S) (hkeep : m.KeepsKeys kT kS)
    {k : κ} (hk : k ∈ S.map kS) : k ∈ (m.result T S).map kT := by
  obtain ⟨s, hs, rfl⟩ := List.mem_map.mp hk
  unfold result
  rw [List.map_append, List.mem_append]
  by_cases hmatch : ∃ t ∈ T, m.on t s = true
  · left
    obtain ⟨t, ht, hts⟩ := hmatch
    cases hf : S.find? (m.on t) with
    | none => exact absurd hts (List.find?_eq_none.mp hf s hs)
    | some s' =>
      have hs' := List.mem_of_find?_eq_some hf
      have hk' := hon t ht s' hs' (List.find?_some hf)
      refine List.mem_map.mpr ⟨m.update t s', List.mem_filterMap.mpr ⟨t, ht, ?_⟩, ?_⟩
      · unfold targetRow
        rw [hf]
      · rw [hkeep.update t s' hk', hon t ht s hs hts]
  · right
    refine List.mem_map.mpr ⟨m.insert s, List.mem_map_of_mem (List.mem_filter.mpr ⟨hs, ?_⟩), hkeep.insert s⟩
    rw [List.all_eq_true]
    intro t ht
    rw [Bool.not_eq_true', ← Bool.not_eq_true]
    exact fun hts => hmatch ⟨t, ht, hts⟩

theorem targetRow_key (hon : m.JoinsEqualKeys kT kS T S) (hkeep : m.KeepsKeys kT kS) {t t' : α} (ht : t ∈ T)
    (h : m.targetRow S t = some t') : kT t' = kT t := by
  unfold targetRow at h
  cases hf : S.find? (m.on t) with
  | some s =>
    rw [hf] at h
    obtain rfl := Option.some.inj h
    exact hkeep.update t s (hon t ht s (List.mem_of_find?_eq_some hf) (List.find?_some hf))
  | none =>
    rw [hf] at h
    simp only at h
    split_ifs at h
    rw [Option.some.inj h]

theorem mem_unmatched (hon : m.MatchesByKey kT kS T S) {s : β} :
    s ∈ m.unmatched T S ↔ s ∈ S ∧ kS s ∉ T.map kT := by
  unfold unmatched
  rw [List.mem_filter, List.all_eq_true]
  refine and_congr_right (fun hs => ⟨fun h hmem => ?_, fun h t ht => ?_⟩)
  · obtain ⟨t, ht, hk⟩ := List.mem_map.mp hmem
    have := h t ht
    simp [(hon t ht s hs).mpr hk] at this
  · rw [Bool.not_eq_true', ← Bool.not_eq_true]
    intro hmatch
    exact h ((hon t ht s hs).mp hmatch ▸ List.mem_map_of_mem ht)

private theorem filterMap_keys_sublist {f : α → Option α} (hf : ∀ t ∈ T, ∀ t', f t = some t' → kT t' = kT t) :
    ((T.filterMap f).map kT).Sublist (T.map kT) := by
  induction T with
  | nil => exact List.Sublist.refl _
  | cons t T ih =>
    have ih' := ih (fun u hu => hf u (List.mem_cons_of_mem _ hu))
    cases hft : f t with
    | none =>
      rw [List.filterMap_cons_none hft]
      exact ih'.trans (List.sublist_cons_self _ _)
    | some t' =>
      rw [List.filterMap_cons_some hft, List.map_cons, List.map_cons, hf t List.mem_cons_self t' hft]
      exact ih'.cons_cons _

/-- Unique keys stay unique. -/
theorem result_keys_nodup (hon : m.MatchesByKey kT kS T S) (hkeep : m.KeepsKeys kT kS) (hT : (T.map kT).Nodup)
    (hS : (S.map kS).Nodup) : ((m.result T S).map kT).Nodup := by
  have hsub : ((T.filterMap (m.targetRow S)).map kT).Sublist (T.map kT) :=
    filterMap_keys_sublist (fun t ht t' h => targetRow_key hon.joinsEqualKeys hkeep ht h)
  have hins : ((m.unmatched T S).map m.insert).map kT = (m.unmatched T S).map kS := by
    rw [List.map_map]
    exact List.map_congr_left (fun s _ => hkeep.insert s)
  unfold result
  rw [List.map_append, hins]
  refine List.Nodup.append (hT.sublist hsub) (hS.sublist (List.filter_sublist.map kS)) ?_
  intro k hk hk'
  obtain ⟨s, hs, rfl⟩ := List.mem_map.mp hk'
  exact ((mem_unmatched hon).mp hs).2 (hsub.subset hk)

/-- Every source row lands: in the target row of its key, or as a new row. -/
theorem mem_result_of_source (hon : m.MatchesByKey kT kS T S) (hS : (S.map kS).Nodup) {s : β} (hs : s ∈ S) :
    (∃ t ∈ T, kT t = kS s ∧ m.update t s ∈ m.result T S) ∨
      (kS s ∉ T.map kT ∧ m.insert s ∈ m.result T S) := by
  by_cases hk : kS s ∈ T.map kT
  · left
    obtain ⟨t, ht, hk⟩ := List.mem_map.mp hk
    refine ⟨t, ht, hk, List.mem_append_left _ ?_⟩
    exact List.mem_filterMap.mpr ⟨t, ht, targetRow_of_match hon hS ht hs hk⟩
  · right
    refine ⟨hk, List.mem_append_right _ ?_⟩
    exact List.mem_map_of_mem ((mem_unmatched hon).mpr ⟨hs, hk⟩)

/-- The rows whose key is not in the source are left alone by a MERGE that deletes none of them. -/
theorem rest_unchanged [DecidableEq κ] (hon : m.JoinsEqualKeys kT kS T S) (hkeep : m.KeepsKeys kT kS)
    (hdel : ∀ t ∈ T, kT t ∉ S.map kS → m.delete t = false) :
    (m.result T S).filter (fun r => kT r ∉ S.map kS) = T.filter (fun r => kT r ∉ S.map kS) := by
  have hins : ((m.unmatched T S).map m.insert).filter (fun r => kT r ∉ S.map kS) = [] := by
    rw [List.filter_eq_nil_iff]
    intro r hr
    obtain ⟨s, hs, rfl⟩ := List.mem_map.mp hr
    have hmem : kS s ∈ S.map kS := List.mem_map_of_mem (List.mem_filter.mp hs).1
    rw [decide_eq_true_eq, hkeep.insert s]
    exact not_not_intro hmem
  unfold result
  rw [List.filter_append, hins, List.append_nil, List.filter_filterMap]
  rw [← List.filterMap_eq_filter]
  refine List.filterMap_congr (fun t ht => ?_)
  by_cases hk : kT t ∈ S.map kS
  · have hrow : Option.filter (fun r => decide (kT r ∉ S.map kS)) (m.targetRow S t) = none := by
      rw [Option.filter_eq_none_iff]
      intro t' ht'
      simp [targetRow_key hon hkeep ht ht', hk]
    rw [hrow]
    simp [Option.guard, hk]
  · rw [targetRow_of_rest hon ht hk, hdel t ht hk]
    simp only [Bool.false_eq_true, if_false, Option.guard, Option.filter, hk, not_false_eq_true, decide_true,
      if_true]

/-- With no delete the statement only adds the rows that match nothing. -/
theorem length_result (hdel : ∀ t ∈ T, m.delete t = false) :
    (m.result T S).length = T.length + (m.unmatched T S).length := by
  have hrow : T.filterMap (m.targetRow S) = T.map (fun t => (m.targetRow S t).getD t) := by
    rw [← List.filterMap_eq_map]
    refine List.filterMap_congr (fun t ht => ?_)
    have hsome : m.targetRow S t ≠ none := by
      unfold targetRow
      cases S.find? (m.on t) <;> simp [hdel t ht]
    cases hr : m.targetRow S t with
    | none => exact absurd hr hsome
    | some t' => simp [hr]
  unfold result
  rw [hrow, List.length_append, List.length_map, List.length_map]

/-- When every source key is in the target already, nothing is inserted. -/
theorem unmatched_eq_nil (hon : m.MatchesByKey kT kS T S) (h : ∀ s ∈ S, kS s ∈ T.map kT) :
    m.unmatched T S = [] := by
  rw [List.eq_nil_iff_forall_not_mem]
  intro s hs
  obtain ⟨hmem, hk⟩ := (mem_unmatched hon).mp hs
  exact hk (h s hmem)

end Rules

end Merge

end Keyed
