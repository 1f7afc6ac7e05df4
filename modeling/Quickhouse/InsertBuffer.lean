import Quickhouse.Warnings

/-!
# The insert buffer

A partition's decoded batches wait here to be sent as one insert.  Each keeps its memory reservation and its size
beside it.  A sweep defers sending to between its windows, and takes the rows of a window that failed back out, by
the mark set before it.
-/

namespace Quickhouse

/-- The batches of one partition that are not sent yet, each with its reservation and its size. -/
structure InsertBuffer (β : Type) where
  batches : List β := []
  reservations : List Nat := []
  sizes : List Nat := []
  bytes : Nat := 0
  target : Nat
  /-- How many times the buffer was emptied. -/
  takes : Nat := 0
  /-- Sent between statements only. -/
  deferred : Bool := false
  /-- While deferred, the null guard's counts that are not reported yet. -/
  nullRows : List (WarningKind × String × Nat) := []
  reservations_length : reservations.length = batches.length := by rfl
  sizes_length : sizes.length = batches.length := by rfl
  bytes_eq : bytes = sizes.sum := by rfl

/-- A buffer with nothing in it. -/
def InsertBuffer.new {β : Type} (target : Nat) (deferred : Bool) : InsertBuffer β := { target, deferred }

/-- A point to roll back to. -/
structure BufferMark where
  takes : Nat
  len : Nat
  nullRows : Nat
  deriving DecidableEq, Repr

namespace InsertBuffer

variable {β : Type}

def full (b : InsertBuffer β) : Bool := !b.batches.isEmpty && decide (b.target ≤ b.bytes)

def isEmpty (b : InsertBuffer β) : Bool := b.batches.isEmpty

/-- The buffer with one more batch. -/
def push (b : InsertBuffer β) (batch : β) (reservation size : Nat) : InsertBuffer β where
  batches := b.batches ++ [batch]
  reservations := b.reservations ++ [reservation]
  sizes := b.sizes ++ [size]
  bytes := b.bytes + size
  target := b.target
  takes := b.takes
  deferred := b.deferred
  nullRows := b.nullRows
  reservations_length := by simp [b.reservations_length]
  sizes_length := by simp [b.sizes_length]
  bytes_eq := by simp [b.bytes_eq]

/-- The group is worth sending, once a batch is pushed. -/
def due (b : InsertBuffer β) : Bool := !b.deferred && decide (b.target ≤ b.bytes)

/-- What is left once everything is taken. -/
def take (b : InsertBuffer β) : InsertBuffer β where
  target := b.target
  takes := b.takes + 1
  deferred := b.deferred
  nullRows := b.nullRows

def mark (b : InsertBuffer β) : BufferMark := ⟨b.takes, b.batches.length, b.nullRows.length⟩

/-- How many batches a roll back keeps: none that came after an emptying. -/
def kept (b : InsertBuffer β) (mark : BufferMark) : Nat :=
  if mark.takes = b.takes then min mark.len b.batches.length else 0

/-- The batches since the mark are dropped. -/
def truncate (b : InsertBuffer β) (mark : BufferMark) : InsertBuffer β where
  batches := b.batches.take (b.kept mark)
  reservations := b.reservations.take (b.kept mark)
  sizes := b.sizes.take (b.kept mark)
  bytes := (b.sizes.take (b.kept mark)).sum
  target := b.target
  takes := b.takes
  deferred := b.deferred
  nullRows := b.nullRows.take mark.nullRows
  reservations_length := by simp [b.reservations_length]
  sizes_length := by simp [b.sizes_length]

/-- The counts are held back with the rows. -/
def holdBack (b : InsertBuffer β) (counts : List (WarningKind × String × Nat)) : InsertBuffer β :=
  { b with nullRows := b.nullRows ++ counts }

/-- The counts held back are taken out to be reported. -/
def drainNullRows (b : InsertBuffer β) : InsertBuffer β := { b with nullRows := [] }

/-! ### What each operation leaves -/

variable (b : InsertBuffer β)

@[simp] theorem push_batches (batch : β) (r size : Nat) : (b.push batch r size).batches = b.batches ++ [batch] := rfl
@[simp] theorem push_reservations (batch : β) (r size : Nat) :
    (b.push batch r size).reservations = b.reservations ++ [r] := rfl
@[simp] theorem push_takes (batch : β) (r size : Nat) : (b.push batch r size).takes = b.takes := rfl
@[simp] theorem push_deferred (batch : β) (r size : Nat) : (b.push batch r size).deferred = b.deferred := rfl
@[simp] theorem push_nullRows (batch : β) (r size : Nat) : (b.push batch r size).nullRows = b.nullRows := rfl
@[simp] theorem take_batches : b.take.batches = [] := rfl
@[simp] theorem take_reservations : b.take.reservations = [] := rfl
@[simp] theorem take_deferred : b.take.deferred = b.deferred := rfl
@[simp] theorem take_nullRows : b.take.nullRows = b.nullRows := rfl
@[simp] theorem holdBack_batches (c : List (WarningKind × String × Nat)) : (b.holdBack c).batches = b.batches := rfl
@[simp] theorem holdBack_takes (c : List (WarningKind × String × Nat)) : (b.holdBack c).takes = b.takes := rfl
@[simp] theorem holdBack_deferred (c : List (WarningKind × String × Nat)) :
    (b.holdBack c).deferred = b.deferred := rfl
@[simp] theorem holdBack_nullRows (c : List (WarningKind × String × Nat)) :
    (b.holdBack c).nullRows = b.nullRows ++ c := rfl
@[simp] theorem drainNullRows_batches : b.drainNullRows.batches = b.batches := rfl
@[simp] theorem drainNullRows_deferred : b.drainNullRows.deferred = b.deferred := rfl
@[simp] theorem drainNullRows_nullRows : b.drainNullRows.nullRows = [] := rfl
@[simp] theorem truncate_deferred (m : BufferMark) : (b.truncate m).deferred = b.deferred := rfl
@[simp] theorem truncate_nullRows (m : BufferMark) : (b.truncate m).nullRows = b.nullRows.take m.nullRows := rfl

/-- Nothing was sent since the mark: exactly the batches since are dropped. -/
theorem truncate_batches {m : BufferMark} {before since : List β} (htakes : m.takes = b.takes)
    (hbatches : b.batches = before ++ since) (hlen : m.len = before.length) :
    (b.truncate m).batches = before := by
  have hkept : b.kept m = before.length := by
    unfold kept
    rw [if_pos htakes, hbatches, hlen, List.length_append]
    omega
  show b.batches.take (b.kept m) = before
  rw [hkept, hbatches, List.take_left]

end InsertBuffer
end Quickhouse
