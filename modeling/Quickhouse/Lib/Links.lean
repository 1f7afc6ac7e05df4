import Mathlib.Data.Finset.Card
import Mathlib.Data.List.Chain
import Mathlib.Data.Set.Finite.Basic
import Mathlib.Data.Set.Finite.List
import Mathlib.Data.Fintype.EquivFin

/-!
# Following links

Each node has at most one link.  `walk` is where the links lead from a node, and `follow` a loop that goes along them
until there is none or the next is not to be followed.  Over finitely many nodes a loop that only goes to nodes it has
not met ends (`follow_fresh`); one that only looks at the node it is at ends just where no cycle is longer than one
node (`follow_other_iff`), and then it met no node twice (`follow_other_nodup`).
-/

namespace Links

variable {κ : Type} {next : κ → Option κ} {c x : κ}

/-- Where `n` links lead. -/
def walk (next : κ → Option κ) (c : κ) : Nat → Option κ
  | 0 => some c
  | n + 1 => (walk next c n).bind next

theorem walk_add {n : Nat} (h : walk next c n = some x) (m : Nat) : walk next c (n + m) = walk next x m := by
  induction m with
  | zero => exact h
  | succ m ih => rw [← Nat.add_assoc, walk, ih, walk]

theorem walk_of_next {d : κ} (h : next c = some d) (n : Nat) : walk next c (n + 1) = walk next d n := by
  rw [Nat.add_comm]
  exact walk_add (by simpa [walk] using h) n

theorem walk_self (h : next x = some x) (n : Nat) : walk next x n = some x := by
  induction n with
  | zero => rfl
  | succ n ih => rw [walk_of_next h, ih]

theorem walk_none (h : next x = none) (n : Nat) : walk next x (n + 1) = none := by
  rw [walk]
  cases hn : walk next x n with
  | none => rfl
  | some y =>
    induction n generalizing y with
    | zero =>
      obtain rfl := Option.some.inj hn
      exact h
    | succ n ih =>
      rw [walk] at hn
      cases hm : walk next x n with
      | none => simp [hm] at hn
      | some z =>
        have hz := ih z hm
        rw [hm] at hn
        rw [hn] at hz
        cases hz

/-- The walk stays among nodes that no link leaves. -/
theorem finite_of_closed {l : List κ} (hc : c ∈ l) (hclosed : ∀ x ∈ l, ∀ y ∈ next x, y ∈ l) :
    {x | ∃ n, walk next c n = some x}.Finite := by
  refine l.finite_toSet.subset ?_
  rintro x ⟨n, hn⟩
  induction n generalizing x with
  | zero =>
    obtain rfl := Option.some.inj hn
    exact hc
  | succ n ih =>
    obtain ⟨y, hy, hx⟩ := Option.bind_eq_some_iff.mp hn
    exact hclosed y (ih hy) x hx

/-- A way round is a way round any number of times. -/
theorem walk_mul {m : Nat} (h : walk next x m = some x) (k : Nat) : walk next x (k * m) = some x := by
  induction k with
  | zero => rw [Nat.zero_mul, walk]
  | succ k ih => rw [Nat.succ_mul, walk_add ih, h]

/-- The links lead to a node without one, or with one to itself. -/
def Ends (next : κ → Option κ) (c : κ) : Prop :=
  ∃ n x, walk next c n = some x ∧ (next x = none ∨ next x = some x)

/-- A node that the links lead back to is one that links to itself. -/
def BackAtOnce (next : κ → Option κ) (c : κ) : Prop :=
  ∀ n m x, walk next c n = some x → walk next c (n + m + 1) = some x → next x = some x

theorem Ends.backAtOnce (h : Ends next c) : BackAtOnce next c := by
  intro i m x hi hback
  obtain ⟨n, y, hn, hy⟩ := h
  have hround : walk next x (m + 1) = some x := by
    rw [Nat.add_assoc, walk_add hi] at hback
    exact hback
  -- often enough round, the walk is past the node where it ends
  have hfar : walk next c (i + (n + 1) * (m + 1)) = some x := by rw [walk_add hi, walk_mul hround]
  have hle : n + 1 ≤ i + (n + 1) * (m + 1) := by
    have hmul : n + 1 ≤ (n + 1) * (m + 1) := Nat.le_mul_of_pos_right (n + 1) (Nat.succ_pos m)
    omega
  obtain ⟨k, hk⟩ := Nat.exists_eq_add_of_le hle
  rw [hk, Nat.add_assoc, walk_add hn, Nat.add_comm] at hfar
  rcases hy with hnone | hself
  · rw [walk_none hnone] at hfar
    cases hfar
  · rw [walk_self hself] at hfar
    obtain rfl := Option.some.inj hfar
    exact hself

/-- Over finitely many nodes the walk ends or comes back. -/
theorem ends_iff_backAtOnce (hfinite : {x | ∃ n, walk next c n = some x}.Finite) :
    Ends next c ↔ BackAtOnce next c := by
  refine ⟨Ends.backAtOnce, fun hback => ?_⟩
  by_cases hall : ∀ n, ∃ x, walk next c n = some x
  · choose f hf using hall
    have hrange : (Set.range f).Finite := hfinite.subset (by rintro _ ⟨n, rfl⟩; exact ⟨n, hf n⟩)
    obtain ⟨i, j, hij, heq⟩ : ∃ i j, i < j ∧ f i = f j := by
      by_contra hnone
      have hinjective : Function.Injective f := by
        intro i j heq
        by_contra hne
        rcases Nat.lt_or_gt_of_ne hne with hlt | hlt
        · exact hnone ⟨i, j, hlt, heq⟩
        · exact hnone ⟨j, i, hlt, heq.symm⟩
      exact Set.infinite_range_of_injective hinjective hrange
    obtain ⟨m, rfl⟩ := Nat.exists_eq_add_of_lt hij
    exact ⟨i, f i, hf i, Or.inr (hback i m (f i) (hf i) (heq ▸ hf (i + m + 1)))⟩
  · -- the first place where there is no node is behind a node without a link
    simp only [not_forall, not_exists] at hall
    obtain ⟨n, hn⟩ := hall
    have hnone : walk next c n = none := Option.eq_none_iff_forall_ne_some.mpr hn
    clear hn
    induction n with
    | zero => cases hnone
    | succ n ih =>
      cases hprev : walk next c n with
      | none => exact ih hprev
      | some y =>
        rw [walk, hprev] at hnone
        exact ⟨n, y, hprev, Or.inl hnone⟩

/-! ### The loop -/

/-- Nodes met, in order: `go` tells from those met before and the one it is at whether to go on. -/
def follow (next : κ → Option κ) (go : List κ → κ → κ → Bool) : Nat → List κ → κ → Option (List κ)
  | 0, _, _ => none
  | fuel + 1, before, c =>
    match next c with
    | none => some (before ++ [c])
    | some d => if go before c d then follow next go fuel (before ++ [c]) d else some (before ++ [c])

variable {go : List κ → κ → κ → Bool}

theorem follow_of_none (h : next c = none) (fuel : Nat) (before : List κ) :
    follow next go (fuel + 1) before c = some (before ++ [c]) := by
  simp [follow, h]

theorem follow_of_some {d : κ} (h : next c = some d) (fuel : Nat) (before : List κ) :
    follow next go (fuel + 1) before c =
      if go before c d then follow next go fuel (before ++ [c]) d else some (before ++ [c]) := by
  simp [follow, h]

theorem follow_fresh_within {S : Finset κ} (hclosed : ∀ x ∈ S, ∀ y, next x = some y → y ∈ S)
    (hgo : ∀ before c d, go before c d = true → d ∉ before ++ [c]) (fuel : Nat) (before : List κ) (c : κ)
    (hnodup : (before ++ [c]).Nodup) (hsub : ∀ x ∈ before ++ [c], x ∈ S) (hfuel : S.card ≤ before.length + fuel) :
    ∃ l, follow next go fuel before c = some l ∧ l.Nodup := by
  induction fuel generalizing before c with
  | zero =>
    classical
    have hcard := Finset.card_le_card (fun x hx => hsub x (List.mem_toFinset.mp hx) : (before ++ [c]).toFinset ⊆ S)
    rw [List.toFinset_card_of_nodup hnodup, List.length_append, List.length_singleton] at hcard
    omega
  | succ fuel ih =>
    unfold follow
    cases hnext : next c with
    | none => exact ⟨_, rfl, hnodup⟩
    | some d =>
      dsimp only
      split_ifs with hd
      · refine ih (before ++ [c]) d ?_ ?_ ?_
        · exact List.Nodup.append hnodup (List.nodup_singleton d) (by simpa using hgo before c d hd)
        · intro x hx
          rcases List.mem_append.mp hx with hx | hx
          · exact hsub x hx
          · obtain rfl := List.mem_singleton.mp hx
            exact hclosed c (hsub c (by simp)) x hnext
        · rw [List.length_append, List.length_singleton]
          omega
      · exact ⟨_, rfl, hnodup⟩

/-- A loop that goes only where it has not been ends, over finitely many nodes. -/
theorem follow_fresh (hfinite : {x | ∃ n, walk next c n = some x}.Finite)
    (hgo : ∀ before c d, go before c d = true → d ∉ before ++ [c]) :
    ∃ fuel l, follow next go fuel [] c = some l ∧ l.Nodup := by
  refine ⟨hfinite.toFinset.card, follow_fresh_within (S := hfinite.toFinset) ?_ hgo _ [] c (by simp) ?_ (by simp)⟩
  · intro x hx y hy
    obtain ⟨n, hn⟩ := hfinite.mem_toFinset.mp hx
    exact hfinite.mem_toFinset.mpr ⟨n + 1, by rw [walk, hn]; exact hy⟩
  · intro x hx
    obtain rfl : x = c := by simpa using hx
    exact hfinite.mem_toFinset.mpr ⟨0, rfl⟩

section Other

variable [DecidableEq κ]

/-- Goes on unless the link leads to where it is. -/
def other (_ : List κ) (c d : κ) : Bool := d ≠ c

theorem ends_of_follow_other {fuel : Nat} {before l : List κ} (h : follow next other fuel before c = some l) :
    Ends next c := by
  induction fuel generalizing before c with
  | zero => cases h
  | succ fuel ih =>
    unfold follow at h
    cases hnext : next c with
    | none => exact ⟨0, c, rfl, Or.inl hnext⟩
    | some d =>
      rw [hnext] at h
      dsimp only at h
      split_ifs at h with hd
      · obtain ⟨n, x, hn, hx⟩ := ih h
        exact ⟨n + 1, x, by rw [walk_of_next hnext, hn], hx⟩
      · obtain rfl : d = c := by simpa [other] using hd
        exact ⟨0, d, rfl, Or.inr hnext⟩

theorem follow_other_of_ends (h : Ends next c) (before : List κ) :
    ∃ fuel l, follow next other fuel before c = some l := by
  obtain ⟨n, x, hn, hx⟩ := h
  induction n generalizing c before with
  | zero =>
    obtain rfl := Option.some.inj hn
    refine ⟨1, before ++ [c], ?_⟩
    rcases hx with hnone | hself
    · simp [follow, hnone]
    · simp [follow, hself, other]
  | succ n ih =>
    cases hnext : next c with
    | none => rw [walk_none hnext] at hn; cases hn
    | some d =>
      rw [walk_of_next hnext] at hn
      obtain ⟨fuel, l, hl⟩ := ih (before ++ [c]) hn
      by_cases hd : d = c
      · exact ⟨1, before ++ [c], by simp [follow, hnext, other, hd]⟩
      · exact ⟨fuel + 1, l, by simp [follow, hnext, other, hd, hl]⟩

theorem follow_other_iff (hfinite : {x | ∃ n, walk next c n = some x}.Finite) :
    (∃ fuel l, follow next other fuel [] c = some l) ↔ BackAtOnce next c := by
  rw [← ends_iff_backAtOnce hfinite]
  constructor
  · rintro ⟨fuel, l, h⟩
    exact ends_of_follow_other h
  · exact fun h => follow_other_of_ends h []

omit [DecidableEq κ] in
/-- In a chain of links the walk from a node leads to the last. -/
theorem walk_of_chain {l : List κ} (h : List.IsChain (fun a b => next a = some b) (c :: l ++ [x])) :
    walk next c (l.length + 1) = some x := by
  induction l generalizing c with
  | nil => simpa [walk] using h
  | cons d l ih =>
    rw [List.cons_append, List.cons_append, List.isChain_cons_cons] at h
    rw [List.length_cons, walk_of_next h.1]
    exact ih h.2

theorem follow_other_nodup_from {fuel : Nat} {before l : List κ} (h : follow next other fuel before c = some l)
    (hchain : List.IsChain (fun a b => next a = some b) (before ++ [c])) (hnodup : (before ++ [c]).Nodup) :
    l.Nodup := by
  induction fuel generalizing before c with
  | zero => cases h
  | succ fuel ih =>
    unfold follow at h
    cases hnext : next c with
    | none =>
      rw [hnext] at h
      obtain rfl := Option.some.inj h
      exact hnodup
    | some d =>
      rw [hnext] at h
      dsimp only at h
      split_ifs at h with hd
      · have hne : d ≠ c := by simpa [other] using hd
        refine ih h ?_ ?_
        · rw [List.isChain_append]
          refine ⟨hchain, List.IsChain.singleton d, ?_⟩
          simpa using hnext
        · refine List.Nodup.append hnodup (List.nodup_singleton d) ?_
          rw [List.disjoint_singleton]
          intro hmet
          -- the node was met before: the loop would never have ended
          have hbefore : d ∈ before := by simpa [hne] using hmet
          obtain ⟨l₁, l₂, rfl⟩ := List.append_of_mem hbefore
          have htail : List.IsChain (fun a b => next a = some b) (d :: l₂ ++ [c]) := by
            rw [List.append_assoc] at hchain
            exact (List.isChain_append.mp hchain).2.1
          have hround : walk next d (l₂.length + 1) = some c := walk_of_chain htail
          have hback : walk next d (0 + (l₂.length + 1) + 1) = some d := by
            rw [Nat.zero_add, walk, hround]
            exact hnext
          have hself := (ends_of_follow_other h).backAtOnce 0 (l₂.length + 1) d rfl hback
          rw [walk_self hself] at hround
          exact hne (Option.some.inj hround)
      · obtain rfl := Option.some.inj h
        exact hnodup

/-- A loop that ended met no node twice. -/
theorem follow_other_nodup {fuel : Nat} {l : List κ} (h : follow next other fuel [] c = some l) : l.Nodup :=
  follow_other_nodup_from h (by simp) (by simp)

end Other
end Links
