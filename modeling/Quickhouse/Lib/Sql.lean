import Mathlib.Data.List.MinMax
import Mathlib.Data.List.ReduceOption
import Mathlib.Order.WithBot

/-!
# SQL rows, three-valued conditions and aggregates

A row gives each column a value or NULL (`none`).  A comparison with NULL is unknown, and a condition admits a
row only where it is true.  `MIN` and `MAX` skip NULLs and are NULL over none.
-/

namespace Sql

/-- A row: the value of each column, or NULL. -/
abbrev Row (V : Type) := String → Option V

/-- The row with the given values, NULL elsewhere. -/
def Row.ofList {V : Type} (l : List (String × V)) : Row V := fun c => l.lookup c

theorem Row.ofList_eq_none {V : Type} {l : List (String × V)} {c : String} (h : c ∉ l.map Prod.fst) :
    Row.ofList l c = none := by
  induction l with
  | nil => rfl
  | cons a l ih =>
    rw [List.map_cons, List.mem_cons, not_or] at h
    have hne : (c == a.1) = false := by simpa using h.1
    show (List.lookup c ((a.1, a.2) :: l)) = none
    rw [List.lookup_cons, hne]
    exact ih h.2

variable {V : Type} [LinearOrder V]

/-! ### Three-valued logic -/

def eq3 : Option V → Option V → Option Bool
  | some a, some b => some (a = b)
  | _, _ => none

def between3 (x : Option V) (lo hi : V) : Option Bool := x.map (fun a => lo ≤ a ∧ a ≤ hi)

def in3 (x : Option V) (values : List V) : Option Bool := x.map (fun a => a ∈ values)

def and3 : Option Bool → Option Bool → Option Bool
  | some false, _ => some false
  | _, some false => some false
  | some true, some true => some true
  | _, _ => none

/-- A conjunction. -/
def all3 (l : List (Option Bool)) : Option Bool := l.foldr and3 (some true)

theorem and3_eq_true {a b : Option Bool} : and3 a b = some true ↔ a = some true ∧ b = some true := by
  cases a with
  | none => cases b with
    | none => simp [and3]
    | some b => cases b <;> simp [and3]
  | some a => cases a <;> cases b with
    | none => simp [and3]
    | some b => cases b <;> simp [and3]

theorem all3_eq_true {l : List (Option Bool)} : all3 l = some true ↔ ∀ x ∈ l, x = some true := by
  induction l with
  | nil => simp [all3]
  | cons a l ih =>
    show and3 a (all3 l) = some true ↔ _
    rw [and3_eq_true, ih, List.forall_mem_cons]

theorem eq3_eq_true {a b : Option V} : eq3 a b = some true ↔ a = b ∧ a ≠ none := by
  cases a <;> cases b <;> simp [eq3]

theorem between3_eq_true {x : Option V} {lo hi : V} :
    between3 x lo hi = some true ↔ ∃ v, x = some v ∧ lo ≤ v ∧ v ≤ hi := by
  cases x <;> simp [between3]

theorem in3_eq_true {x : Option V} {values : List V} :
    in3 x values = some true ↔ ∃ v, x = some v ∧ v ∈ values := by
  cases x <;> simp [in3]

/-- A value as `ORDER BY` sorts it: NULL below every other. -/
def sortKey {V : Type} (x : Option V) : WithBot V := x

/-! ### Aggregates -/

def minValue (xs : List (Option V)) : Option V := xs.reduceOption.argmin id

def maxValue (xs : List (Option V)) : Option V := xs.reduceOption.argmax id

theorem minValue_le {xs : List (Option V)} {lo v : V} (h : minValue xs = some lo) (hv : some v ∈ xs) :
    lo ≤ v :=
  List.le_of_mem_argmin (List.reduceOption_mem_iff.mpr hv) (Option.mem_def.mpr h)

theorem le_maxValue {xs : List (Option V)} {hi v : V} (h : maxValue xs = some hi) (hv : some v ∈ xs) :
    v ≤ hi :=
  List.le_of_mem_argmax (List.reduceOption_mem_iff.mpr hv) (Option.mem_def.mpr h)

theorem minValue_mem {xs : List (Option V)} {lo : V} (h : minValue xs = some lo) : some lo ∈ xs :=
  List.reduceOption_mem_iff.mp (List.argmin_mem (Option.mem_def.mpr h))

theorem maxValue_mem {xs : List (Option V)} {hi : V} (h : maxValue xs = some hi) : some hi ∈ xs :=
  List.reduceOption_mem_iff.mp (List.argmax_mem (Option.mem_def.mpr h))

/-- A column with a value has a smallest and a largest one. -/
theorem exists_minValue {xs : List (Option V)} {v : V} (hv : some v ∈ xs) :
    ∃ lo hi, minValue xs = some lo ∧ maxValue xs = some hi := by
  have hne : xs.reduceOption ≠ [] := List.ne_nil_of_mem (List.reduceOption_mem_iff.mpr hv)
  have h1 : minValue xs ≠ none := fun h => hne (List.argmin_eq_none.mp h)
  have h2 : maxValue xs ≠ none := fun h => hne (List.argmax_eq_none.mp h)
  obtain ⟨lo, hlo⟩ := Option.ne_none_iff_exists'.mp h1
  obtain ⟨hi, hhi⟩ := Option.ne_none_iff_exists'.mp h2
  exact ⟨lo, hi, hlo, hhi⟩

end Sql
