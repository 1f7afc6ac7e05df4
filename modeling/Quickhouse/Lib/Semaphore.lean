import Mathlib.Logic.Basic

/-!
# A counting semaphore with a queue

Permits are given out in the order they are asked for.  Who asks for more than is free waits, and nobody who comes
later is served before.  The head never waits for permits that are there (the field `blocked`), and whatever each
single grant keeps is kept when the queue is served (`serve_keeps`).
-/

/-- The free permits and who waits, each with the number asked for. -/
structure Semaphore (ι : Type) where
  free : Nat
  queue : List (ι × Nat) := []
  /-- The head of the queue waits for more than is free. -/
  blocked : ∀ w ∈ queue.head?, free < w.2 := by simp

namespace Semaphore

variable {ι : Type}

/-- The waiters who are served from `free` permits, and what is left. -/
def serve : Nat → List (ι × Nat) → List (ι × Nat) × Semaphore ι
  | free, [] => ([], { free })
  | free, w :: ws =>
    if h : w.2 ≤ free then
      let r := serve (free - w.2) ws
      (w :: r.1, r.2)
    else ([], { free, queue := w :: ws, blocked := by simpa using h })

/-- Nobody waits and there is enough. -/
def has (s : Semaphore ι) (want : Nat) : Bool := s.queue.isEmpty && decide (want ≤ s.free)

/-- The permits are taken if they are there right now. -/
def tryAcquire (s : Semaphore ι) (want : Nat) : Option (Semaphore ι) :=
  if s.has want then some { free := s.free - want } else none

/-- Who asks for permits that are not there goes to the end of the queue. -/
def enqueue (s : Semaphore ι) (i : ι) (want : Nat) (h : s.has want = false) : Semaphore ι where
  free := s.free
  queue := s.queue ++ [(i, want)]
  blocked := by
    intro w hw
    cases hqueue : s.queue with
    | nil =>
      obtain rfl : (i, want) = w := by simpa [hqueue] using hw
      simpa [has, hqueue] using h
    | cons v vs => exact s.blocked w (by simpa [hqueue] using hw)

/-- What every single grant keeps, serving the queue keeps. -/
theorem serve_keeps {σ : Type} {P : Nat → List (ι × Nat) → σ → Prop} {grant : σ → ι × Nat → σ}
    (hgrant : ∀ free w ws a, w.2 ≤ free → P free (w :: ws) a → P (free - w.2) ws (grant a w)) {free : Nat}
    {ws : List (ι × Nat)} {a : σ} (h : P free ws a) :
    P (serve free ws).2.free (serve free ws).2.queue ((serve free ws).1.foldl grant a) := by
  induction ws generalizing free a with
  | nil => exact h
  | cons w ws ih =>
    unfold serve
    split
    case isTrue hle => exact ih (hgrant free w ws a hle h)
    case isFalse => exact h

theorem tryAcquire_some {s t : Semaphore ι} {want : Nat} (h : s.tryAcquire want = some t) :
    t.free + want = s.free ∧ t.queue = s.queue := by
  unfold tryAcquire at h
  split at h
  case isTrue hhas =>
    obtain rfl := Option.some.inj h
    simp only [has, Bool.and_eq_true, List.isEmpty_iff, decide_eq_true_eq] at hhas
    exact ⟨Nat.sub_add_cancel hhas.2, hhas.1.symm⟩
  case isFalse => exact nomatch h

end Semaphore
