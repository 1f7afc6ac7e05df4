import Mathlib.Data.List.Induction
import Mathlib.Data.List.Nodup

/-!
# Rows that a later row of their key supersedes

A log has rows of many keys, each with a time.  A row with a later one of its key may be dropped at any moment, or all of
them at once; a merge keeps the newest row of each key.  As long as the rows of a key were added in the order of their
times, its last row is not affected (`getLast?_kept`).
-/

namespace Supersede

variable {α κ : Type} [DecidableEq κ] (key : α → κ) (time : α → Nat)

/-- One of the rows is a later one of the same key. -/
def superseded (rows : List α) (r : α) : Bool := rows.any fun n => key n = key r ∧ time r < time n

/-- The rows that are not superseded. -/
def live (rows : List α) : List α := rows.filter fun r => !superseded key time rows r

/-- A merge adds row after row, and keeps one for each key: the last of the newest. -/
def replace (kept : List α) (r : α) : List α :=
  if superseded key time kept r then kept else kept.filter (key · ≠ key r) ++ [r]

def replacing (rows : List α) : List α := rows.foldl (replace key time) []

/-- The rows of a key come in the order of their times. -/
def Ordered (rows : List α) : Prop := rows.Pairwise fun a b => key a = key b → time a < time b

variable {key time} {rows rows' : List α} {r : α}

theorem superseded_iff : superseded key time rows r = true ↔ ∃ n ∈ rows, key n = key r ∧ time r < time n := by
  simp [superseded]

theorem superseded_mono (h : rows' ⊆ rows) (hr : superseded key time rows' r = true) :
    superseded key time rows r = true := by
  obtain ⟨n, hn, hlater⟩ := superseded_iff.mp hr
  exact superseded_iff.mpr ⟨n, h hn, hlater⟩

theorem mem_live : r ∈ live key time rows ↔ r ∈ rows ∧ superseded key time rows r = false := by
  simp [live]

theorem live_sublist : (live key time rows).Sublist rows := List.filter_sublist

/-- Nothing is superseded among the rows that are not. -/
theorem live_live : live key time (live key time rows) = live key time rows := by
  apply List.filter_eq_self.mpr
  intro r hr
  have hnot := (mem_live.mp hr).2
  by_contra hsup
  have := superseded_mono live_sublist.subset (by simpa using hsup : superseded key time (live key time rows) r = true)
  rw [hnot] at this
  cases this

omit [DecidableEq κ] in
theorem Ordered.sublist (h : Ordered key time rows) (hsub : rows'.Sublist rows) : Ordered key time rows' :=
  List.Pairwise.sublist hsub h

omit [DecidableEq κ] in
theorem Ordered.snoc (h : Ordered key time (rows ++ [r])) :
    Ordered key time rows ∧ ∀ a ∈ rows, key a = key r → time a < time r := by
  obtain ⟨hrows, -, hlast⟩ := List.pairwise_append.mp h
  exact ⟨hrows, fun a ha => hlast a ha r List.mem_cons_self⟩

/-- The last row of a log is its key's. -/
theorem live_snoc (h : Ordered key time (rows ++ [r])) :
    live key time (rows ++ [r]) = (live key time rows).filter (key · ≠ key r) ++ [r] := by
  obtain ⟨-, hlast⟩ := h.snoc
  have hself : superseded key time (rows ++ [r]) r = false := by
    by_contra hsup
    obtain ⟨n, hn, hkey, hlt⟩ := superseded_iff.mp (by simpa using hsup)
    rcases List.mem_append.mp hn with hn | hn
    · have := hlast n hn hkey
      omega
    · obtain rfl := List.mem_singleton.mp hn
      omega
  -- the last row is later than all those of its key, and than no other
  have hrest : ∀ a ∈ rows, (!superseded key time (rows ++ [r]) a) =
      (decide (key a ≠ key r) && !superseded key time rows a) := by
    intro a ha
    have hiff : superseded key time (rows ++ [r]) a = true ↔ superseded key time rows a = true ∨ key a = key r := by
      rw [superseded_iff, superseded_iff]
      constructor
      · rintro ⟨n, hn, hkey, hlt⟩
        rcases List.mem_append.mp hn with hn | hn
        · exact .inl ⟨n, hn, hkey, hlt⟩
        · obtain rfl := List.mem_singleton.mp hn
          exact .inr hkey.symm
      · rintro (⟨n, hn, hlater⟩ | hkey)
        · exact ⟨n, List.mem_append_left _ hn, hlater⟩
        · exact ⟨r, by simp, hkey.symm, hlast a ha hkey⟩
    by_cases hsup : superseded key time rows a = true <;> by_cases hkey : key a = key r <;> simp_all
  unfold live
  rw [List.filter_append, List.filter_singleton, hself, List.filter_filter, List.filter_congr hrest]
  rfl

/-- A merge keeps what is not superseded. -/
theorem replacing_eq_live (h : Ordered key time rows) : replacing key time rows = live key time rows := by
  induction rows using List.reverseRecOn with
  | nil => rfl
  | append_singleton rows r ih =>
    obtain ⟨hrows, hlast⟩ := h.snoc
    have hnot : superseded key time (live key time rows) r = false := by
      by_contra hsup
      obtain ⟨n, hn, hkey, hlt⟩ := superseded_iff.mp (by simpa using hsup)
      have := hlast n (mem_live.mp hn).1 hkey
      omega
    unfold replacing at ih ⊢
    rw [List.foldl_append, ih hrows, List.foldl_cons, List.foldl_nil, live_snoc h]
    unfold replace
    rw [hnot]
    rfl

/-- One row a key. -/
theorem live_nodup (h : Ordered key time rows) : ((live key time rows).map key).Nodup := by
  induction rows using List.reverseRecOn with
  | nil => exact List.nodup_nil
  | append_singleton rows r ih =>
    rw [live_snoc h, List.map_append, List.map_singleton, List.nodup_append]
    refine ⟨?_, List.nodup_singleton _, ?_⟩
    · exact (ih h.snoc.1).sublist (List.filter_sublist.map key)
    · intro k hk k' hk'
      obtain ⟨a, ha, rfl⟩ := List.mem_map.mp hk
      rw [List.mem_singleton.mp hk']
      simpa using (List.mem_filter.mp ha).2

/-- No key is lost. -/
theorem mem_live_keys (h : Ordered key time rows) {k : κ} : k ∈ (live key time rows).map key ↔ k ∈ rows.map key := by
  constructor
  · intro hk
    exact (live_sublist.map key).subset hk
  · intro hk
    induction rows using List.reverseRecOn with
    | nil => exact hk
    | append_singleton rows r ih =>
      rw [live_snoc h, List.map_append, List.mem_append]
      by_cases hkey : k = key r
      · exact .inr (by simp [hkey])
      · have hk : k ∈ rows.map key := by simpa [hkey] using hk
        obtain ⟨a, ha, rfl⟩ := List.mem_map.mp (ih h.snoc.1 hk)
        exact .inl (List.mem_map_of_mem (List.mem_filter.mpr ⟨ha, by simpa using hkey⟩))

/-- The last row of a list, when what is left of the list has it. -/
theorem getLast?_sublist {x : α} {init : List α} (hsub : rows'.Sublist (init ++ [x])) (hx : x ∈ rows') (hinit : x ∉ init) :
    rows'.getLast? = some x := by
  obtain ⟨before, last, rfl, hbefore, hlast⟩ := List.sublist_append_iff.mp hsub
  rcases List.mem_append.mp hx with hx | hx
  · exact absurd (hbefore.subset hx) hinit
  · have hlen := hlast.length_le
    obtain rfl : last = [x] := hlast.eq_of_length (by
      have := List.length_pos_of_mem hx
      simp only [List.length_singleton] at hlen ⊢
      omega)
    simp

/-- Whichever superseded rows were dropped, a key's last row is there, and it is the last of what is left. -/
theorem getLast?_kept (h : Ordered key time rows) (hsub : rows'.Sublist rows) (hlive : live key time rows ⊆ rows')
    (k : κ) : (rows'.filter (key · = k)).getLast? = (rows.filter (key · = k)).getLast? := by
  have hsub' : (rows'.filter (key · = k)).Sublist (rows.filter (key · = k)) := hsub.filter _
  cases hcases : (rows.filter (key · = k)).getLast? with
  | none =>
    rw [List.getLast?_eq_none_iff] at hcases ⊢
    rw [hcases] at hsub'
    exact List.sublist_nil.mp hsub'
  | some x =>
    obtain ⟨init, hinit⟩ := List.getLast?_eq_some_iff.mp hcases
    have hx : x ∈ rows.filter (key · = k) := by simp [hinit]
    obtain ⟨hrows, hkey⟩ := List.mem_filter.mp hx
    have hkey : key x = k := by simpa using hkey
    have hordered := h.sublist (List.filter_sublist (p := (key · = k)))
    rw [hinit] at hordered
    have hall : ∀ a ∈ init ++ [x], key a = key x := by
      intro a ha
      rw [← hinit] at ha
      rw [hkey]
      simpa using (List.mem_filter.mp ha).2
    have hlast : ∀ a ∈ init, time a < time x :=
      fun a ha => hordered.snoc.2 a ha (hall a (List.mem_append_left _ ha))
    -- nothing of its key is later, so it was not dropped
    have hnew : superseded key time rows x = false := by
      by_contra hsup
      obtain ⟨n, hn, hnkey, hlt⟩ := superseded_iff.mp (by simpa using hsup)
      have hmem : n ∈ init ++ [x] := by
        rw [← hinit]
        exact List.mem_filter.mpr ⟨hn, by simp [hnkey, hkey]⟩
      rcases List.mem_append.mp hmem with hmem | hmem
      · have := hlast n hmem
        omega
      · obtain rfl := List.mem_singleton.mp hmem
        omega
    rw [hinit] at hsub'
    apply getLast?_sublist hsub'
    · exact List.mem_filter.mpr ⟨hlive (mem_live.mpr ⟨hrows, hnew⟩), by simp [hkey]⟩
    · intro hmem
      have := hlast x hmem
      omega

end Supersede
