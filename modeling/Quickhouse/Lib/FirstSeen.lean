import Mathlib.Data.List.Count
import Mathlib.Data.List.Nodup
import Mathlib.Data.Set.Card

/-!
# An index of where each key is first seen

A list of keys and places is indexed in one pass: the first place of every key, in the order of the list, and the keys
that are seen again.
-/

namespace FirstSeen

variable {κ α : Type} [DecidableEq κ]

structure Index (κ α : Type) where
  /-- The keys in the order in which they are first seen. -/
  first : List (κ × α) := []
  dups : List κ := []

namespace Index

def order (ix : Index κ α) : List κ := ix.first.map Prod.fst

def insert (ix : Index κ α) (p : κ × α) : Index κ α :=
  if (ix.first.lookup p.1).isSome then { ix with dups := if p.1 ∈ ix.dups then ix.dups else ix.dups ++ [p.1] }
  else { ix with first := ix.first ++ [p] }

end Index

def build (ps : List (κ × α)) : Index κ α := ps.foldl Index.insert {}

theorem lookup_cons_of_ne {p : κ × α} {ps : List (κ × α)} {k : κ} (h : k ≠ p.1) : (p :: ps).lookup k = ps.lookup k := by
  rw [List.lookup_cons, beq_false_of_ne h]

theorem lookup_cons_of_eq {p : κ × α} {ps : List (κ × α)} {k : κ} (h : k = p.1) : (p :: ps).lookup k = some p.2 := by
  rw [List.lookup_cons, h, beq_self_eq_true]

theorem lookup_isSome_iff {ps : List (κ × α)} {k : κ} : (ps.lookup k).isSome ↔ k ∈ ps.map Prod.fst := by
  induction ps with
  | nil => simp
  | cons p ps ih =>
    rw [List.map_cons, List.mem_cons]
    by_cases h : k = p.1
    · rw [lookup_cons_of_eq h]
      exact iff_of_true rfl (.inl h)
    · rw [lookup_cons_of_ne h, ih]
      exact ⟨.inr, fun hin => hin.resolve_left h⟩

theorem lookup_append (ps qs : List (κ × α)) (k : κ) : (ps ++ qs).lookup k = (ps.lookup k).or (qs.lookup k) := by
  induction ps with
  | nil => rfl
  | cons p ps ih =>
    rw [List.cons_append]
    by_cases h : k = p.1
    · rw [lookup_cons_of_eq h, lookup_cons_of_eq h]
      rfl
    · rw [lookup_cons_of_ne h, lookup_cons_of_ne h, ih]

theorem mem_of_lookup {ps : List (κ × α)} {k : κ} {a : α} (h : ps.lookup k = some a) : (k, a) ∈ ps := by
  induction ps with
  | nil => cases h
  | cons p ps ih =>
    by_cases hk : k = p.1
    · rw [lookup_cons_of_eq hk] at h
      rw [hk, ← Option.some.inj h]
      exact List.mem_cons_self
    · rw [lookup_cons_of_ne hk] at h
      exact List.mem_cons_of_mem _ (ih h)

/-- What an index says of the list. -/
structure Index.Spec (ix : Index κ α) (ps : List (κ × α)) : Prop where
  order_nodup : ix.order.Nodup
  dups_nodup : ix.dups.Nodup
  mem_order : ∀ k, k ∈ ix.order ↔ k ∈ ps.map Prod.fst
  mem_dups : ∀ k, k ∈ ix.dups ↔ 2 ≤ (ps.map Prod.fst).count k
  lookup : ∀ k, ix.first.lookup k = ps.lookup k

theorem Index.Spec.insert {ix : Index κ α} {ps : List (κ × α)} (h : ix.Spec ps) (p : κ × α) :
    (ix.insert p).Spec (ps ++ [p]) := by
  have hcount : ∀ k, ((ps ++ [p]).map Prod.fst).count k = (ps.map Prod.fst).count k + if p.1 = k then 1 else 0 := by
    intro k
    rw [List.map_append, List.count_append, List.map_singleton, List.count_singleton]
    simp
  have hlast : ∀ k, [p].lookup k = if k = p.1 then some p.2 else none := by
    intro k
    by_cases hk : k = p.1
    · rw [lookup_cons_of_eq hk, if_pos hk]
    · rw [lookup_cons_of_ne hk, if_neg hk]
      rfl
  unfold Index.insert
  by_cases hseen : (ix.first.lookup p.1).isSome = true
  · rw [if_pos hseen]
    have hmem : p.1 ∈ ps.map Prod.fst := lookup_isSome_iff.mp (h.lookup p.1 ▸ hseen)
    have hpos := List.count_pos_iff.mpr hmem
    refine ⟨h.order_nodup, ?_, ?_, ?_, ?_⟩
    · dsimp only
      split_ifs with hd
      · exact h.dups_nodup
      · exact List.nodup_append'.mpr ⟨h.dups_nodup, List.nodup_singleton _, by simpa using hd⟩
    · intro k
      rw [List.map_append, List.mem_append, List.map_singleton, List.mem_singleton]
      refine (h.mem_order k).trans ⟨.inl, ?_⟩
      rintro (hk | rfl)
      · exact hk
      · exact hmem
    · intro k
      rw [hcount]
      dsimp only
      by_cases hk : p.1 = k
      · rw [if_pos hk]
        subst hk
        refine iff_of_true ?_ (by omega)
        split_ifs with hd
        · exact hd
        · simp
      · rw [if_neg hk, Nat.add_zero, ← h.mem_dups k]
        split_ifs with hd
        · exact Iff.rfl
        · rw [List.mem_append, List.mem_singleton]
          exact ⟨fun hin => hin.resolve_right fun heq => hk heq.symm, .inl⟩
    · intro k
      dsimp only
      rw [lookup_append, hlast, ← h.lookup k]
      by_cases hk : k = p.1
      · obtain ⟨a, ha⟩ := Option.isSome_iff_exists.mp hseen
        rw [hk, ha]
        rfl
      · rw [if_neg hk, Option.or_none]
  · rw [if_neg hseen]
    have hnew : p.1 ∉ ps.map Prod.fst := fun hmem => hseen (h.lookup p.1 ▸ lookup_isSome_iff.mpr hmem)
    have horder : ({ ix with first := ix.first ++ [p] } : Index κ α).order = ix.order ++ [p.1] := by
      unfold Index.order
      rw [List.map_append, List.map_singleton]
    refine ⟨?_, h.dups_nodup, ?_, ?_, ?_⟩
    · rw [horder]
      refine List.nodup_append'.mpr ⟨h.order_nodup, List.nodup_singleton _, ?_⟩
      simpa using fun hin => hnew ((h.mem_order p.1).mp hin)
    · intro k
      rw [horder, List.map_append, List.mem_append, List.mem_append, h.mem_order k]
      rfl
    · intro k
      rw [hcount]
      refine (h.mem_dups k).trans ?_
      by_cases hk : p.1 = k
      · rw [if_pos hk]
        subst hk
        rw [List.count_eq_zero.mpr hnew]
        omega
      · rw [if_neg hk, Nat.add_zero]
    · intro k
      dsimp only
      rw [lookup_append, lookup_append, h.lookup k]

theorem build_spec (ps : List (κ × α)) : (build ps).Spec ps := by
  unfold build
  induction ps using List.reverseRecOn with
  | nil => exact ⟨List.nodup_nil, List.nodup_nil, fun k => Iff.rfl, fun k => by simp, fun k => rfl⟩
  | append_singleton ps p ih =>
    rw [List.foldl_append]
    exact ih.insert p

/-- A set that a list without repetitions goes through has its length. -/
theorem ncard_eq_length {l : List κ} {s : Set κ} (hl : l.Nodup) (h : ∀ k, k ∈ l ↔ k ∈ s) : s.ncard = l.length := by
  have hs : s = (l.toFinset : Set κ) := by
    ext k
    rw [← h k]
    simp
  rw [hs, Set.ncard_coe_finset, List.toFinset_card_of_nodup hl]

end FirstSeen
