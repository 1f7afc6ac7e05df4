import Mathlib.Logic.Function.Basic

/-!
# Runs of a step function

A system is a partial step function: `step s e` is the state after the event `e`, if the event can happen in `s`.
`exec` is a whole run.  The rules: an invariant of one step is an invariant of every run (`exec_invariant`), also
when the step only keeps it under a condition that all the steps of the run meet (`exec_invariant_along`), and a
measure that the events of one kind use up bounds how many of them a run has (`countP_le_measure`).  A run of several
systems side by side is, for each of them, a run of its own events (`exec_eventsOf`).
-/

namespace Runs

variable {σ ε : Type} {step : σ → ε → Option σ}

/-- The state after a list of events, if each can happen in its turn. -/
def exec (step : σ → ε → Option σ) : σ → List ε → Option σ
  | s, [] => some s
  | s, e :: es => (step s e).bind fun s' => exec step s' es

/-- Each step of the run meets the condition in the state it is taken in. -/
def Along (step : σ → ε → Option σ) (cond : σ → ε → Prop) : σ → List ε → Prop
  | _, [] => True
  | s, e :: es => cond s e ∧ ∀ s', step s e = some s' → Along step cond s' es

theorem along_of_forall {cond : σ → ε → Prop} {es : List ε} (h : ∀ e ∈ es, ∀ s, cond s e) (s : σ) :
    Along step cond s es := by
  induction es generalizing s with
  | nil => trivial
  | cons e es ih =>
    exact ⟨h e List.mem_cons_self s, fun s' _ => ih (fun e he => h e (List.mem_cons_of_mem _ he)) s'⟩

theorem Along.imp {cond cond' : σ → ε → Prop} {es : List ε} {s : σ} (h : Along step cond s es)
    (himp : ∀ s e, cond s e → cond' s e) : Along step cond' s es := by
  induction es generalizing s with
  | nil => trivial
  | cons e es ih => exact ⟨himp s e h.1, fun s' hs' => ih (h.2 s' hs')⟩

theorem Along.and {cond cond' : σ → ε → Prop} {es : List ε} {s : σ} (h : Along step cond s es)
    (h' : Along step cond' s es) : Along step (fun s e => cond s e ∧ cond' s e) s es := by
  induction es generalizing s with
  | nil => trivial
  | cons e es ih => exact ⟨⟨h.1, h'.1⟩, fun s' hs' => ih (h.2 s' hs') (h'.2 s' hs')⟩

/-- A run that is there to be followed is followed. -/
instance Along.decidable (step : σ → ε → Option σ) (cond : σ → ε → Prop) [∀ s e, Decidable (cond s e)] :
    (s : σ) → (es : List ε) → Decidable (Along step cond s es)
  | _, [] => isTrue trivial
  | s, e :: es =>
    match hstep : step s e with
    | none => decidable_of_iff (cond s e) (by simp [Along, hstep])
    | some t =>
      have := Along.decidable step cond t es
      decidable_of_iff (cond s e ∧ Along step cond t es) (by simp [Along, hstep])

theorem exec_cons {s s' : σ} {e : ε} {es : List ε} :
    exec step s (e :: es) = some s' ↔ ∃ t, step s e = some t ∧ exec step t es = some s' := by
  simp [exec, Option.bind_eq_some_iff]

theorem exec_append {s s' : σ} {es fs : List ε} :
    exec step s (es ++ fs) = some s' ↔ ∃ t, exec step s es = some t ∧ exec step t fs = some s' := by
  induction es generalizing s with
  | nil => simp [exec]
  | cons e es ih =>
    rw [List.cons_append, exec_cons]
    constructor
    · rintro ⟨t, ht, h⟩
      obtain ⟨u, hu, h⟩ := ih.mp h
      exact ⟨u, exec_cons.mpr ⟨t, ht, hu⟩, h⟩
    · rintro ⟨u, hu, h⟩
      obtain ⟨t, ht, hu⟩ := exec_cons.mp hu
      exact ⟨t, ht, ih.mpr ⟨u, hu, h⟩⟩

theorem Along.left {cond : σ → ε → Prop} {es fs : List ε} {s : σ} (h : Along step cond s (es ++ fs)) :
    Along step cond s es := by
  induction es generalizing s with
  | nil => trivial
  | cons e es ih => exact ⟨h.1, fun s' hs' => ih (h.2 s' hs')⟩

theorem Along.right {cond : σ → ε → Prop} {es fs : List ε} {s s' : σ} (h : Along step cond s (es ++ fs))
    (hexec : exec step s es = some s') : Along step cond s' fs := by
  induction es generalizing s with
  | nil =>
    obtain rfl := Option.some.inj hexec
    exact h
  | cons e es ih =>
    obtain ⟨t, ht, hexec⟩ := exec_cons.mp hexec
    exact ih (h.2 t ht) hexec

theorem exec_invariant_along {P : σ → Prop} {cond : σ → ε → Prop}
    (hstep : ∀ s e s', P s → cond s e → step s e = some s' → P s') {s s' : σ} {es : List ε} (hs : P s)
    (hcond : Along step cond s es) (h : exec step s es = some s') : P s' := by
  induction es generalizing s with
  | nil => exact Option.some.inj h ▸ hs
  | cons e es ih =>
    obtain ⟨t, ht, h⟩ := exec_cons.mp h
    exact ih (hstep s e t hs hcond.1 ht) (hcond.2 t ht) h

theorem exec_invariant {P : σ → Prop} (hstep : ∀ s e s', P s → step s e = some s' → P s') {s s' : σ}
    {es : List ε} (hs : P s) (h : exec step s es = some s') : P s' := by
  induction es generalizing s with
  | nil => exact Option.some.inj h ▸ hs
  | cons e es ih =>
    obtain ⟨t, ht, h⟩ := exec_cons.mp h
    exact ih (hstep s e t hs ht) h

/-- An invariant may speak of the events so far. -/
theorem exec_history {P : List ε → σ → Prop} {cond : σ → ε → Prop}
    (hstep : ∀ past s e s', P past s → cond s e → step s e = some s' → P (past ++ [e]) s') {s s' : σ} {es : List ε}
    (hs : P [] s) (hcond : Along step cond s es) (h : exec step s es = some s') : P es s' := by
  suffices hall : ∀ past, P past s → P (past ++ es) s' from hall [] hs
  intro past hpast
  clear hs
  induction es generalizing s past with
  | nil =>
    obtain rfl := Option.some.inj h
    rwa [List.append_nil]
  | cons e es ih =>
    obtain ⟨t, ht, h⟩ := exec_cons.mp h
    have hrest := ih (hcond.2 t ht) h (past ++ [e]) (hstep past s e t hpast hcond.1 ht)
    rwa [List.append_assoc] at hrest

/-- Events of the kind `p` each use up the measure, which no step of the run restores. -/
theorem countP_le_measure {p : ε → Bool} {P : σ → Prop} {cond : σ → ε → Prop} {measure : σ → Nat}
    (hP : ∀ s e s', P s → cond s e → step s e = some s' → P s')
    (huse : ∀ s e s', P s → cond s e → step s e = some s' → measure s' + (if p e then 1 else 0) ≤ measure s)
    {s s' : σ} {es : List ε} (hs : P s) (hcond : Along step cond s es) (h : exec step s es = some s') :
    es.countP p + measure s' ≤ measure s := by
  induction es generalizing s with
  | nil =>
    obtain rfl := Option.some.inj h
    simp
  | cons e es ih =>
    obtain ⟨t, ht, h⟩ := exec_cons.mp h
    have hrest := ih (hP s e t hs hcond.1 ht) (hcond.2 t ht) h
    have hfirst := huse s e t hs hcond.1 ht
    rw [List.countP_cons]
    omega

/-! ### Systems side by side -/

section Interleaved

variable {ι : Type} [DecidableEq ι]

/-- The event is one of the system `e.1`, and the others do not move. -/
def stepAt (step : σ → ε → Option σ) (s : ι → σ) (e : ι × ε) : Option (ι → σ) :=
  (step (s e.1) e.2).map (Function.update s e.1)

/-- The events of one of the systems. -/
def eventsOf (i : ι) (es : List (ι × ε)) : List ε := es.filterMap fun e => if e.1 = i then some e.2 else none

theorem exec_eventsOf {s s' : ι → σ} {es : List (ι × ε)} (h : exec (stepAt step) s es = some s') (i : ι) :
    exec step (s i) (eventsOf i es) = some (s' i) := by
  induction es generalizing s with
  | nil =>
    obtain rfl := Option.some.inj h
    rfl
  | cons e es ih =>
    obtain ⟨t, ht, hrest⟩ := exec_cons.mp h
    obtain ⟨u, hu, rfl⟩ := Option.map_eq_some_iff.mp ht
    have hi := ih hrest
    by_cases he : e.1 = i
    · subst he
      rw [Function.update_self] at hi
      have hevents : eventsOf e.1 (e :: es) = e.2 :: eventsOf e.1 es := by simp [eventsOf]
      rw [hevents]
      exact exec_cons.mpr ⟨u, hu, hi⟩
    · rw [Function.update_of_ne (Ne.symm he)] at hi
      have hevents : eventsOf i (e :: es) = eventsOf i es := by simp [eventsOf, he]
      rwa [hevents]

end Interleaved

end Runs
