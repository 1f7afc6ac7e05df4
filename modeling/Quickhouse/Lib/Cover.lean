import Mathlib.Data.List.Flatten
import Mathlib.Data.List.Perm.Basic

/-!
# Parts of a list

A list is read in parts, each of which selects some of its elements.  When no element is selected by two parts, the
parts together read the elements that one of them selects, each as often as the list has it (`read_perm`).
-/

namespace Cover

variable {α ι : Type} (select : ι → α → Bool)

/-- The parts of `xs`, one after another. -/
def read (parts : List ι) (xs : List α) : List α := parts.flatMap fun p => xs.filter (select p)

/-- One of the parts selects `x`. -/
def covered (parts : List ι) (x : α) : Bool := parts.any (select · x)

variable {select}

theorem read_cons (p : ι) (parts : List ι) (xs : List α) :
    read select (p :: parts) xs = xs.filter (select p) ++ read select parts xs := rfl

theorem covered_iff {parts : List ι} {x : α} : covered select parts x = true ↔ 0 < parts.countP (select · x) := by
  unfold covered
  rw [List.any_eq_true, List.countP_pos_iff]

/-- An element is read by each part that selects it. -/
theorem count_read [DecidableEq α] (parts : List ι) (xs : List α) (x : α) :
    (read select parts xs).count x = parts.countP (select · x) * xs.count x := by
  induction parts with
  | nil => simp [read]
  | cons p parts ih =>
    rw [read_cons, List.count_append, ih, List.countP_cons]
    by_cases h : select p x = true
    · rw [List.count_filter h, if_pos h]
      rw [Nat.add_mul, Nat.one_mul, Nat.add_comm]
    · have hnone : (xs.filter (select p)).count x = 0 := by
        apply List.count_eq_zero.mpr
        intro hx
        exact h (List.mem_filter.mp hx).2
      rw [hnone, if_neg h, Nat.add_zero, Nat.zero_add]

/-- What no two parts select is read once. -/
theorem read_perm {parts : List ι} {xs : List α} (h : ∀ x ∈ xs, parts.countP (select · x) ≤ 1) :
    (read select parts xs).Perm (xs.filter (covered select parts)) := by
  classical
  apply List.perm_iff_count.mpr
  intro x
  rw [count_read]
  by_cases hx : x ∈ xs
  · have hle := h x hx
    by_cases hc : covered select parts x = true
    · have hpos := covered_iff.mp hc
      have hone : parts.countP (select · x) = 1 := by omega
      rw [hone, Nat.one_mul, List.count_filter hc]
    · have hzero : parts.countP (select · x) = 0 := by
        have := mt covered_iff.mpr hc
        omega
      rw [hzero, Nat.zero_mul]
      apply Eq.symm
      apply List.count_eq_zero.mpr
      intro hmem
      exact hc (List.mem_filter.mp hmem).2
  · rw [List.count_eq_zero.mpr hx, Nat.mul_zero]
    apply Eq.symm
    apply List.count_eq_zero.mpr
    intro hmem
    exact hx (List.mem_filter.mp hmem).1

end Cover
