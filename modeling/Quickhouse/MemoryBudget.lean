import Mathlib.Algebra.BigOperators.Group.Finset.Piecewise
import Quickhouse.InsertBuffer
import Quickhouse.Lib.MachineInt
import Quickhouse.Lib.Runs
import Quickhouse.Lib.Semaphore

/-!
# The memory budget

All partitions of a run reserve the bytes of a batch from one budget, keep the reservation while the batch is
buffered and while it is sent, and give it back when the send ends.  A partition that finds no room first sends what
it has buffered and only then waits: who waits holds nothing that only itself could give back.
-/

namespace Quickhouse

open MachineInt

/-- The most permits one semaphore has. -/
def semaphoreMaxPermits : Nat := u64Max >>> 3

/-- The most that one reservation asks for. -/
def maxPermits : Nat := 2 ^ 32 - 1

/-- A ceiling on the bytes of the batches in flight; without one, nothing is counted. -/
structure MemoryBudget (ι : Type) where
  sem : Option (Semaphore ι)
  total : Nat

namespace MemoryBudget

variable {ι : Type}

/-- A budget of `maxBytes`; `0` is no ceiling. -/
def new (maxBytes : Nat) : MemoryBudget ι where
  sem := if maxBytes = 0 then none else some { free := min maxBytes semaphoreMaxPermits }
  total := maxBytes

/-- The permits a batch of `size` bytes takes: more than the whole budget is clamped to it. -/
def want (total size : Nat) : Nat := max (min (min size total) maxPermits) 1

/-- Room for `size` bytes only if it is free right now: the permits of the reservation and what is left. -/
def tryReserve (b : MemoryBudget ι) (size : Nat) : Option (Nat × MemoryBudget ι) :=
  match b.sem with
  | none => some (0, b)
  | some s => (s.tryAcquire (want b.total size)).map fun s => (want b.total size, { b with sem := some s })

/-- Room for `size` bytes; who does not get it at once waits for it. -/
def reserve (b : MemoryBudget ι) (i : ι) (size : Nat) : Option Nat × MemoryBudget ι :=
  match b.sem with
  | none => (some 0, b)
  | some s =>
    if h : s.has (want b.total size) = false then
      (none, { b with sem := some (s.enqueue i (want b.total size) h) })
    else
      (some (want b.total size), { b with sem := s.tryAcquire (want b.total size) })

def free (b : MemoryBudget ι) : Nat := (b.sem.map Semaphore.free).getD 0

def queue (b : MemoryBudget ι) : List (ι × Nat) := (b.sem.map Semaphore.queue).getD []

/-- `n` permits come back and `queue` waits: who of it is served, and the budget then. -/
def settle (b : MemoryBudget ι) (n : Nat) (queue : List (ι × Nat)) : List (ι × Nat) × MemoryBudget ι :=
  match b.sem with
  | none => ([], b)
  | some s =>
    ((Semaphore.serve (s.free + n) queue).1, { b with sem := some (Semaphore.serve (s.free + n) queue).2 })

/-- A reservation of `n` permits is dropped. -/
def release (b : MemoryBudget ι) (n : Nat) : List (ι × Nat) × MemoryBudget ι := b.settle n b.queue

/-- `i` no longer waits, and `n` permits of its reservations are dropped. -/
def leave [DecidableEq ι] (b : MemoryBudget ι) (i : ι) (n : Nat) : List (ι × Nat) × MemoryBudget ι :=
  b.settle n (b.queue.filter fun w => w.1 ≠ i)

/-! ### What each operation leaves -/

/-- The budget has the ceiling it was made with. -/
def Of (b : MemoryBudget ι) (maxBytes : Nat) : Prop := b.total = maxBytes ∧ (b.sem = none ↔ maxBytes = 0)

theorem of_new (maxBytes : Nat) : (new maxBytes : MemoryBudget ι).Of maxBytes := by
  refine ⟨rfl, ?_⟩
  unfold new
  split <;> simp_all

theorem free_new (maxBytes : Nat) : (new maxBytes : MemoryBudget ι).free = min maxBytes semaphoreMaxPermits := by
  unfold new free
  split
  case isTrue h => simp [h]
  case isFalse => rfl

theorem queue_new (maxBytes : Nat) : (new maxBytes : MemoryBudget ι).queue = [] := by
  unfold new queue
  split <;> rfl

/-- One batch never asks for more than the whole budget. -/
theorem want_le (size : Nat) {maxBytes : Nat} (h : 0 < maxBytes) : want maxBytes size ≤ min maxBytes semaphoreMaxPermits := by
  have hmax : maxPermits ≤ semaphoreMaxPermits := by decide
  have hone : 1 ≤ semaphoreMaxPermits := by decide
  unfold want
  omega

theorem tryReserve_some {b b' : MemoryBudget ι} {size permit maxBytes : Nat} (hof : b.Of maxBytes)
    (h : b.tryReserve size = some (permit, b')) :
    b'.Of maxBytes ∧ b'.free + permit = b.free ∧ b'.queue = b.queue := by
  unfold tryReserve at h
  split at h
  case h_1 hnone =>
    obtain ⟨rfl, rfl⟩ : 0 = permit ∧ b = b' := by simpa using h
    exact ⟨hof, rfl, rfl⟩
  case h_2 s hs =>
    obtain ⟨t, ht, rfl, rfl⟩ : ∃ t, s.tryAcquire (want b.total size) = some t ∧ want b.total size = permit ∧
        { b with sem := some t } = b' := by simpa using h
    obtain ⟨hfree, hqueue⟩ := Semaphore.tryAcquire_some ht
    refine ⟨⟨hof.1, ?_⟩, ?_, ?_⟩
    · have := hof.2
      simp_all
    · simpa [free, hs] using hfree
    · simpa [queue, hs] using hqueue

theorem reserve_some {b b' : MemoryBudget ι} {i : ι} {size permit maxBytes : Nat} (hof : b.Of maxBytes)
    (h : b.reserve i size = (some permit, b')) :
    b'.Of maxBytes ∧ b'.free + permit = b.free ∧ b'.queue = b.queue := by
  refine tryReserve_some hof (?_ : b.tryReserve size = _)
  unfold reserve at h
  unfold tryReserve
  split at h
  case h_1 hnone =>
    obtain ⟨rfl, rfl⟩ : 0 = permit ∧ b = b' := by simpa using h
    rfl
  case h_2 s hs =>
    split at h
    case isTrue => exact absurd h (by simp)
    case isFalse hhas =>
      obtain ⟨rfl, rfl⟩ : want b.total size = permit ∧
          { b with sem := s.tryAcquire (want b.total size) } = b' := by simpa using h
      simp [Semaphore.tryAcquire, Bool.not_eq_false _ ▸ hhas]

theorem reserve_none {b b' : MemoryBudget ι} {i : ι} {size maxBytes : Nat} (hof : b.Of maxBytes)
    (h : b.reserve i size = (none, b')) :
    b'.Of maxBytes ∧ b'.free = b.free ∧ b'.queue = b.queue ++ [(i, want maxBytes size)] := by
  unfold reserve at h
  split at h
  case h_1 => exact absurd h (by simp)
  case h_2 s hs =>
    split at h
    case isFalse => exact absurd h (by simp)
    case isTrue hhas =>
      obtain rfl : { b with sem := some (s.enqueue i (want b.total size) hhas) } = b' := by simpa using h
      refine ⟨⟨hof.1, ?_⟩, by simp [free, hs, Semaphore.enqueue], by simp [queue, hs, Semaphore.enqueue, hof.1]⟩
      have := hof.2
      simp_all

/-- The head of the queue waits for more than is free. -/
theorem blocked {b : MemoryBudget ι} {w : ι × Nat} (h : b.queue.head? = some w) : b.free < w.2 := by
  cases hsem : b.sem with
  | none => simp [queue, hsem] at h
  | some s =>
    have := s.blocked w (by simpa [queue, hsem] using h)
    simpa [free, hsem] using this

end MemoryBudget
end Quickhouse
