import Mathlib.Data.List.Basic

/-!
# A log appended to at offsets

A log takes an append when its offset is the length, as a whole, and answers a lower offset with "there already".  The answer can
be lost.  Who sends an append again at the same offset until it is taken or there already has appended it once
(`Append.done`); until then the log holds all of it or nothing (`Append.within`).
-/

namespace OffsetLog

/-- What the answer to an append tells. -/
inductive Answer where
  | committed
  /-- Something is there at this offset already. -/
  | exists
  /-- An error: the append may have been taken or not. -/
  | failed
  deriving DecidableEq, Repr

variable {α : Type}

/-- An append of `part` at an offset, its answer and what the log holds then. -/
inductive Append (held : List α) (offset : Int) (part : List α) : Answer → List α → Prop
  | committed : offset = held.length → Append held offset part .committed (held ++ part)
  | lost : offset = held.length → Append held offset part .failed (held ++ part)
  | refused : Append held offset part .failed held
  | exists : offset < held.length → Append held offset part .exists held

/-- The log holds what was written before, and all of `part` or nothing of it. -/
def Within (written part held : List α) : Prop := held = written ∨ held = written ++ part

variable {written part held held' : List α} {offset : Int} {answer : Answer}

theorem length_append_ne (written : List α) (hpart : part ≠ []) : (written ++ part).length ≠ written.length := by
  intro h
  rw [List.length_append] at h
  exact hpart (List.length_eq_zero_iff.mp (by omega))

/-- An append at the end of what was written leaves the log within that and `part`. -/
theorem Append.within (h : Append held offset part answer held') (hpart : part ≠ []) (hoffset : offset = written.length)
    (hheld : Within written part held) : Within written part held' := by
  have hfits : offset = held.length → held = written := by
    intro hfit
    rcases hheld with hheld | hheld
    · exact hheld
    · have := length_append_ne written hpart
      rw [hheld] at hfit
      omega
  cases h with
  | committed hfit => exact .inr (by rw [hfits hfit])
  | lost hfit => exact .inr (by rw [hfits hfit])
  | refused => exact hheld
  | «exists» => exact hheld

/-- An answer other than an error says that `part` is in, once. -/
theorem Append.done (h : Append held offset part answer held') (hpart : part ≠ []) (hoffset : offset = written.length)
    (hheld : Within written part held) (hanswer : answer ≠ .failed) : held' = written ++ part := by
  have hwithin := h.within hpart hoffset hheld
  cases h with
  | committed hfit =>
    rcases hheld with hheld | hheld
    · rw [hheld]
    · have := length_append_ne written hpart
      rw [hheld] at hfit
      omega
  | lost => exact absurd rfl hanswer
  | refused => exact absurd rfl hanswer
  | «exists» hlow =>
    rcases hheld with hheld | hheld
    · rw [hheld] at hlow
      omega
    · exact hheld

end OffsetLog
