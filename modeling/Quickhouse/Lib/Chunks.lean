import Mathlib.Data.List.Basic
import Mathlib.Logic.Relation

/-!
# Machines fed in chunks

A machine reads a list from its front, in steps; a step that has too little of the list waits for more.  Where no step
that was taken is changed by what comes later (`Steady`), the list may be cut in any way: the chunks fed one after the
other give what the whole list gives (`feed_flatten`).
-/

namespace Chunks

/-- What a machine does in front of a list. -/
inductive Step (σ α β ε : Type) where
  /-- It waits. -/
  | more
  /-- It stays where it is, whatever follows. -/
  | halt (s : σ)
  | fail (e : ε)
  /-- It goes on with the rest of the list. -/
  | next (s : σ) (rest : List α) (out : List β)

variable {σ α β ε : Type} (step : σ → List α → Step σ α β ε)

/-- A step that was taken is the same in front of more of the list. -/
structure Steady : Prop where
  next : ∀ {s s' xs rest out}, step s xs = .next s' rest out →
    rest.length < xs.length ∧ ∀ ys, step s (xs ++ ys) = .next s' (rest ++ ys) out
  fail : ∀ {s xs e}, step s xs = .fail e → ∀ ys, step s (xs ++ ys) = .fail e
  halt : ∀ {s s' xs}, step s xs = .halt s' → ∀ ys, step s (xs ++ ys) = .halt s' ∧ step s' (xs ++ ys) = .halt s'

/-- All the steps that the list allows: the state, what is left of the list, and what was put out. -/
def drain (s : σ) (xs : List α) : Except ε (σ × List α × List β) :=
  match step s xs with
  | .more => .ok (s, xs, [])
  | .halt s' => .ok (s', xs, [])
  | .fail e => .error e
  | .next s' rest out =>
    if rest.length < xs.length then (drain s' rest).map fun (s, rest, more) => (s, rest, out ++ more)
    else .ok (s', rest, out)
termination_by xs.length

/-- One chunk behind what was left before. -/
def feed (s : σ) (left chunk : List α) : Except ε (σ × List α × List β) := drain step s (left ++ chunk)

/-- The chunks one after the other. -/
def feedAll : (chunks : List (List α)) → σ → List α → Except ε (σ × List α × List β)
  | [], s, left => .ok (s, left, [])
  | chunk :: chunks, s, left => do
    let (s, left, out) ← feed step s left chunk
    let (s, left, more) ← feedAll chunks s left
    pure (s, left, out ++ more)

/-- One step from a state and its list to the next. -/
def Goes (p q : σ × List α) : Prop := ∃ out, step p.1 p.2 = .next q.1 q.2 out

/-- Some steps. -/
def Reaches : σ × List α → σ × List α → Prop := Relation.ReflTransGen (Goes step)

variable {step}

theorem drain_more {s : σ} {xs : List α} (hstep : step s xs = .more) : drain step s xs = .ok (s, xs, []) := by
  unfold drain
  rw [hstep]

theorem drain_halt {s s' : σ} {xs : List α} (hstep : step s xs = .halt s') : drain step s xs = .ok (s', xs, []) := by
  unfold drain
  rw [hstep]

theorem drain_fail {s : σ} {xs : List α} {e : ε} (hstep : step s xs = .fail e) : drain step s xs = .error e := by
  unfold drain
  rw [hstep]

variable (h : Steady step)
include h

theorem drain_next {s s' : σ} {xs rest : List α} {out : List β} (hstep : step s xs = .next s' rest out) :
    drain step s xs = (drain step s' rest).map fun (s, rest, more) => (s, rest, out ++ more) := by
  conv_lhs => unfold drain
  rw [hstep]
  exact if_pos (h.next hstep).1

/-- What is left waits, or stays, and does so again when nothing follows. -/
theorem drain_append (s : σ) (xs ys : List α) : drain step s (xs ++ ys) = (do
    let (s, left, out) ← drain step s xs
    let (s, left, more) ← drain step s (left ++ ys)
    pure (s, left, out ++ more)) := by
  induction hn : xs.length using Nat.strongRecOn generalizing s xs with
  | ind n ih =>
    cases hstep : step s xs with
    | more =>
      rw [drain_more hstep]
      cases hrest : drain step s (xs ++ ys) with
      | error e => simp [bind, Except.bind, hrest]
      | ok r => simp [bind, Except.bind, hrest, pure, Except.pure]
    | halt s' =>
      obtain ⟨hagain, hstay⟩ := h.halt hstep ys
      rw [drain_halt hstep, drain_halt hagain]
      simp only [bind, Except.bind]
      rw [drain_halt hstay]
      rfl
    | fail e =>
      rw [drain_fail hstep, drain_fail (h.fail hstep ys)]
      rfl
    | next s' rest out =>
      obtain ⟨hlt, hmore⟩ := h.next hstep
      rw [drain_next h (hmore ys), drain_next h hstep, ih rest.length (by omega) s' rest rfl]
      cases drain step s' rest with
      | error e => rfl
      | ok r =>
        obtain ⟨t, left, o⟩ := r
        simp only [bind, Except.bind, Except.map]
        cases drain step t (left ++ ys) with
        | error e => rfl
        | ok r => simp [pure, Except.pure, List.append_assoc]

/-- However the list is cut. -/
theorem feedAll_flatten (chunks : List (List α)) (s : σ) (left : List α) :
    (do
      let (s, left, out) ← drain step s left
      let (s, left, more) ← feedAll step chunks s left
      pure (s, left, out ++ more)) = drain step s (left ++ chunks.flatten) := by
  induction chunks generalizing s left with
  | nil =>
    rw [List.flatten_nil, List.append_nil]
    cases drain step s left with
    | error e => rfl
    | ok r => simp [feedAll, bind, Except.bind, pure, Except.pure]
  | cons chunk chunks ih =>
    rw [List.flatten_cons, ← List.append_assoc, ← ih, drain_append h]
    cases drain step s left with
    | error e => rfl
    | ok r =>
      obtain ⟨t, rest, out⟩ := r
      simp only [bind, Except.bind, feedAll, feed]
      cases drain step t (rest ++ chunk) with
      | error e => rfl
      | ok r =>
        obtain ⟨t', rest', out'⟩ := r
        simp only [pure, Except.pure]
        cases feedAll step chunks t' rest' with
        | error e => rfl
        | ok r => simp [List.append_assoc]

/-- What every step keeps holds of what is left. -/
theorem drain_invariant {P : σ → List α → Prop}
    (hnext : ∀ {s s' xs rest out}, P s xs → step s xs = .next s' rest out → P s' rest)
    (hhalt : ∀ {s s' xs}, P s xs → step s xs = .halt s' → P s' xs) {s t : σ} {xs left : List α} {out : List β}
    (hs : P s xs) (hdrain : drain step s xs = .ok (t, left, out)) : P t left := by
  induction hn : xs.length using Nat.strongRecOn generalizing s xs out with
  | ind n ih =>
    cases hstep : step s xs with
    | more =>
      rw [drain_more hstep] at hdrain
      cases hdrain
      exact hs
    | halt s' =>
      rw [drain_halt hstep] at hdrain
      cases hdrain
      exact hhalt hs hstep
    | fail e =>
      rw [drain_fail hstep] at hdrain
      cases hdrain
    | next s' rest o =>
      have hlt := (h.next hstep).1
      rw [drain_next h hstep] at hdrain
      cases hrest : drain step s' rest with
      | error e =>
        rw [hrest] at hdrain
        cases hdrain
      | ok r =>
        rw [hrest] at hdrain
        cases hdrain
        exact ih rest.length (by omega) (hnext hs hstep) hrest rfl

/-- An error is that of a step that was reached. -/
theorem drain_eq_error {s : σ} {xs : List α} {e : ε} : drain step s xs = .error e ↔
    ∃ t ys, Reaches step (s, xs) (t, ys) ∧ step t ys = .fail e := by
  constructor
  · intro herr
    induction hn : xs.length using Nat.strongRecOn generalizing s xs with
    | ind n ih =>
      cases hstep : step s xs with
      | more =>
        rw [drain_more hstep] at herr
        cases herr
      | halt s' =>
        rw [drain_halt hstep] at herr
        cases herr
      | fail e' =>
        rw [drain_fail hstep] at herr
        cases herr
        exact ⟨s, xs, .refl, hstep⟩
      | next s' rest out =>
        have hlt := (h.next hstep).1
        rw [drain_next h hstep] at herr
        cases hrest : drain step s' rest with
        | ok r =>
          rw [hrest] at herr
          cases herr
        | error e' =>
          rw [hrest] at herr
          cases herr
          obtain ⟨t, ys, hreach, hfail⟩ := ih rest.length (by omega) hrest rfl
          exact ⟨t, ys, .head ⟨out, hstep⟩ hreach, hfail⟩
  · rintro ⟨t, ys, hreach, hfail⟩
    generalize hp : (s, xs) = p at hreach
    induction hreach using Relation.ReflTransGen.head_induction_on generalizing s xs with
    | refl =>
      cases hp
      exact drain_fail hfail
    | head hgoes _ ih =>
      obtain ⟨out, hstep⟩ := hgoes
      cases hp
      rw [drain_next h hstep, ih rfl]
      rfl

end Chunks
