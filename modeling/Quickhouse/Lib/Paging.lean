import Mathlib.Data.List.Sort

/-!
# Paging by a unique key

A table is read in pages: the rows past the last key seen, in the order of the key, no more than a limit.  With
unique keys a page holds every row up to its last (`mem_page`), a short page holds every row there is, and the rows
past the last are fewer than before by the length of the page (`length_past_add`).
-/

namespace Paging

variable {α ι : Type} [LinearOrder ι] (key : α → ι) (limit : Nat)

/-- The first rows in the order of the key. -/
def page (rows : List α) : List α :=
  (rows.insertionSort fun a b => key a ≤ key b).take limit

/-- The key lies at or below the page's last, or the page is short. -/
def Reached (page : List α) (k : ι) : Prop :=
  (∃ last, page.getLast? = some last ∧ k ≤ key last) ∨ page.length < limit

instance (page : List α) (k : ι) : Decidable (Reached key limit page k) :=
  inferInstanceAs (Decidable ((∃ last ∈ page.getLast?, k ≤ key last) ∨ page.length < limit))

variable {key limit} {rows : List α}

theorem mem_of_mem_page {x : α} (hx : x ∈ page key limit rows) : x ∈ rows :=
  (List.mem_insertionSort _).mp (List.mem_of_mem_take hx)

/-- Unique keys, sorted, are strictly sorted. -/
private theorem sorted_strict (hkeys : (rows.map key).Nodup) :
    (rows.insertionSort fun a b => key a ≤ key b).Pairwise fun a b => key a < key b := by
  have htotal : Std.Total fun a b : α => key a ≤ key b := ⟨fun a b => le_total (key a) (key b)⟩
  have htrans : IsTrans α fun a b => key a ≤ key b := ⟨fun _ _ _ => le_trans⟩
  have hle := List.pairwise_insertionSort (fun a b => key a ≤ key b) rows
  have hne : (rows.insertionSort fun a b => key a ≤ key b).Pairwise fun a b => key a ≠ key b := by
    rw [← List.pairwise_map]
    exact ((List.perm_insertionSort _ rows).map key).nodup_iff.mpr hkeys
  exact (hle.and hne).imp fun h => lt_of_le_of_ne h.1 h.2

theorem page_sorted (hkeys : (rows.map key).Nodup) : (page key limit rows).Pairwise fun a b => key a < key b :=
  (sorted_strict hkeys).take

/-- The last row of a strictly sorted list has its largest key. -/
theorem le_getLast {l : List α} (hl : l.Pairwise fun a b => key a < key b) {x last : α} (hx : x ∈ l)
    (hlast : l.getLast? = some last) : key x ≤ key last := by
  obtain ⟨front, rfl⟩ := List.getLast?_eq_some_iff.mp hlast
  rcases List.mem_append.mp hx with hx | hx
  · exact ((List.pairwise_append.mp hl).2.2 x hx last (List.mem_singleton_self last)).le
  · rw [List.mem_singleton.mp hx]

/-- A page holds every row up to its last, and a short page every row. -/
theorem mem_page (hkeys : (rows.map key).Nodup) {x : α} (hx : x ∈ rows)
    (hreached : Reached key limit (page key limit rows) (key x)) : x ∈ page key limit rows := by
  have hsorted := sorted_strict hkeys
  have hmem := (List.mem_insertionSort fun a b => key a ≤ key b).mpr hx
  rw [← List.take_append_drop limit (rows.insertionSort _)] at hmem
  rcases List.mem_append.mp hmem with hmem | hmem
  · exact hmem
  · exfalso
    rcases hreached with ⟨last, hlast, hle⟩ | hshort
    · have hlt := hsorted.rel_of_mem_take_of_mem_drop (List.mem_of_getLast? hlast) hmem
      exact absurd hle (not_le.mpr hlt)
    · have hdrop := List.length_pos_of_mem hmem
      rw [List.length_drop] at hdrop
      unfold page at hshort
      rw [List.length_take] at hshort
      omega

/-- Past the last row of a page there are fewer rows left, by the length of the page. -/
theorem length_past_add (hkeys : (rows.map key).Nodup) {last : α}
    (hlast : (page key limit rows).getLast? = some last) :
    (rows.filter fun x => key last < key x).length + (page key limit rows).length ≤ rows.length := by
  have hnone : (page key limit rows).filter (fun x => key last < key x) = [] := by
    rw [List.filter_eq_nil_iff]
    intro x hx
    have hle := le_getLast (page_sorted hkeys) hx hlast
    simpa using hle
  have hperm := List.perm_insertionSort (fun a b => key a ≤ key b) rows
  rw [← (hperm.filter _).length_eq, ← hperm.length_eq]
  unfold page at hnone ⊢
  generalize rows.insertionSort (fun a b => key a ≤ key b) = sorted at hnone ⊢
  have hfilter : sorted.filter (fun x => key last < key x) = (sorted.drop limit).filter fun x => key last < key x := by
    conv_lhs => rw [← List.take_append_drop limit sorted]
    rw [List.filter_append, hnone, List.nil_append]
  have hle := List.length_filter_le (fun x => decide (key last < key x)) (sorted.drop limit)
  rw [hfilter, List.length_take]
  rw [List.length_drop] at hle
  omega

end Paging
