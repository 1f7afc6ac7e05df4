import Mathlib.Data.List.Basic

/-!
# Calls whose answer may not come

A server takes calls.  An answered call has been executed when its answer comes; one without an answer may be executed at any
later time, once, or never (`Net.call`, `Net.arrive`).
-/

namespace LateCalls

variable {σ κ : Type}

structure Net (σ κ : Type) where
  server : σ
  /-- The calls that nobody waits for any more. -/
  late : List κ := []

/-- One call; an answer other than an error means that it was executed. -/
def Net.call (execute : σ → κ → Option σ) (n : Net σ κ) (c : κ) (answered : Bool) : Option (Net σ κ) :=
  if answered then (execute n.server c).map fun s => { n with server := s } else some { n with late := n.late ++ [c] }

/-- A late call arrives; where it cannot be executed, nothing changes. -/
def Net.arrive (execute : σ → κ → Option σ) (n : Net σ κ) (k : Nat) : Option (Net σ κ) :=
  n.late[k]?.map fun c => { server := (execute n.server c).getD n.server, late := n.late.eraseIdx k }

variable {execute : σ → κ → Option σ} {n n' : Net σ κ}

theorem call_cases {c : κ} {answered : Bool} (h : n.call execute c answered = some n') :
    (answered = true ∧ execute n.server c = some n'.server ∧ n'.late = n.late) ∨
      (answered = false ∧ n'.server = n.server ∧ n'.late = n.late ++ [c]) := by
  unfold Net.call at h
  cases answered with
  | true =>
    rw [if_pos rfl] at h
    obtain ⟨s, hs, rfl⟩ := Option.map_eq_some_iff.mp h
    exact .inl ⟨rfl, hs, rfl⟩
  | false =>
    rw [if_neg Bool.false_ne_true] at h
    obtain rfl := Option.some.inj h
    exact .inr ⟨rfl, rfl, rfl⟩

theorem arrive_cases {k : Nat} (h : n.arrive execute k = some n') :
    ∃ c before after, n.late = before ++ c :: after ∧ n'.late = before ++ after ∧
      (execute n.server c = some n'.server ∨ (execute n.server c = none ∧ n'.server = n.server)) := by
  obtain ⟨c, hc, rfl⟩ := Option.map_eq_some_iff.mp h
  obtain ⟨hk, hget⟩ := List.getElem?_eq_some_iff.mp hc
  have hsplit : n.late = n.late.take k ++ c :: n.late.drop (k + 1) := by
    rw [← hget, List.getElem_cons_drop, List.take_append_drop]
  refine ⟨c, n.late.take k, n.late.drop (k + 1), hsplit, List.eraseIdx_eq_take_drop_succ _ _, ?_⟩
  cases hexec : execute n.server c with
  | none => exact .inr ⟨rfl, rfl⟩
  | some s => exact .inl rfl

end LateCalls
