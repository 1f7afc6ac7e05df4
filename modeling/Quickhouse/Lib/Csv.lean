import Mathlib.Logic.Basic

/-!
# Comma-separated values

A strict reader of RFC 4180 text, one byte at a time: a field is bare or between double quotes, a quote in a quoted
field is doubled, a bare field holds none, and nothing follows the closing quote but a delimiter or a line end.  `Spells`
says which fields a piece of text is read as, whatever stands around it; pieces joined by delimiters spell the fields
of all of them (`Spells.append`), and lines that are spelled are read as records (`readFrom_line`).
-/

namespace Csv

abbrev Bytes := List UInt8

def quote : UInt8 := 34
def cr : UInt8 := 13
def lf : UInt8 := 10

/-- Bytes that frame fields and lines, with any delimiter. -/
def framing (b : UInt8) : Bool := b = quote || b = cr || b = lf

structure RawField where
  content : Bytes
  quoted : Bool
  deriving DecidableEq, Repr

/-- An empty field without quotes is no value. -/
def RawField.value (f : RawField) : Option Bytes := if f.content = [] ∧ f.quoted = false then none else some f.content

/-- Where the reader stands in a field. -/
inductive Cursor where
  | start
  | bare (content : Bytes)
  | inQuotes (content : Bytes)
  /-- After a quote in a quoted field: the closing one, or the first of two. -/
  | closing (content : Bytes)
  /-- After a carriage return that ends the record. -/
  | lineEnd
  deriving DecidableEq, Repr

/-- The records from here on; `fields` are those of this record so far. -/
def readFrom (d : UInt8) : List RawField → Cursor → Bytes → Option (List (List RawField))
  | fields, .start, [] => if fields = [] then some [] else some [fields ++ [⟨[], false⟩]]
  | fields, .bare content, [] => some [fields ++ [⟨content, false⟩]]
  | fields, .closing content, [] => some [fields ++ [⟨content, true⟩]]
  | _, .inQuotes _, [] => none
  | _, .lineEnd, [] => none
  | fields, .start, b :: rest =>
    if b = quote then readFrom d fields (.inQuotes []) rest
    else if b = d then readFrom d (fields ++ [⟨[], false⟩]) .start rest
    else if b = lf then (readFrom d [] .start rest).map ((fields ++ [⟨[], false⟩]) :: ·)
    else if b = cr then readFrom d (fields ++ [⟨[], false⟩]) .lineEnd rest
    else readFrom d fields (.bare [b]) rest
  | fields, .bare content, b :: rest =>
    if b = quote then none
    else if b = d then readFrom d (fields ++ [⟨content, false⟩]) .start rest
    else if b = lf then (readFrom d [] .start rest).map ((fields ++ [⟨content, false⟩]) :: ·)
    else if b = cr then readFrom d (fields ++ [⟨content, false⟩]) .lineEnd rest
    else readFrom d fields (.bare (content ++ [b])) rest
  | fields, .inQuotes content, b :: rest =>
    if b = quote then readFrom d fields (.closing content) rest
    else readFrom d fields (.inQuotes (content ++ [b])) rest
  | fields, .closing content, b :: rest =>
    if b = quote then readFrom d fields (.inQuotes (content ++ [quote])) rest
    else if b = d then readFrom d (fields ++ [⟨content, true⟩]) .start rest
    else if b = lf then (readFrom d [] .start rest).map ((fields ++ [⟨content, true⟩]) :: ·)
    else if b = cr then readFrom d (fields ++ [⟨content, true⟩]) .lineEnd rest
    else none
  | fields, .lineEnd, b :: rest => if b = lf then (readFrom d [] .start rest).map (fields :: ·) else none

/-- The records of a text, if it is well formed. -/
def read (d : UInt8) (text : Bytes) : Option (List (List RawField)) := readFrom d [] .start text

/-- A quoted field's text, each quote doubled. -/
def double (content : Bytes) : Bytes := content.flatMap fun b => if b = quote then [quote, quote] else [b]

/-- The text is read as these fields where a delimiter or a line end follows, in any record and before any rest. -/
def Spells (d : UInt8) (text : Bytes) (fs : List RawField) : Prop :=
  ∀ fields rest, readFrom d fields .start (text ++ d :: rest) = readFrom d (fields ++ fs) .start rest ∧
    readFrom d fields .start (text ++ lf :: rest) = (readFrom d [] .start rest).map ((fields ++ fs) :: ·)

variable {d : UInt8}

theorem Spells.append {text text' : Bytes} {fs fs' : List RawField} (h : Spells d text fs) (h' : Spells d text' fs') :
    Spells d (text ++ d :: text') (fs ++ fs') := by
  intro fields rest
  have hjoin : ∀ tail, readFrom d fields .start ((text ++ d :: text') ++ tail) =
      readFrom d (fields ++ fs) .start (text' ++ tail) := by
    intro tail
    rw [List.append_assoc, List.cons_append]
    exact (h fields (text' ++ tail)).1
  rw [hjoin, hjoin, (h' _ rest).1, (h' _ rest).2, List.append_assoc]
  exact ⟨rfl, rfl⟩

/-- A line that is spelled is one record. -/
theorem readFrom_line {text : Bytes} {fs : List RawField} (h : Spells d text fs) (rest : Bytes) :
    readFrom d [] .start (text ++ lf :: rest) = (readFrom d [] .start rest).map (fs :: ·) := (h [] rest).2

/-- Delimiter and line end are two different bytes, and neither is a quote. -/
def Delimits (d : UInt8) : Prop := framing d = false

theorem Delimits.ne_quote (h : Delimits d) : d ≠ quote := by
  rintro rfl
  cases h

theorem Delimits.ne_lf (h : Delimits d) : d ≠ lf := by
  rintro rfl
  cases h

/-- A bare text is read up to its end. -/
theorem readFrom_bare {text : Bytes} (hframing : ∀ b ∈ text, framing b = false) (hd : d ∉ text) (fields : List RawField)
    (content rest : Bytes) :
    readFrom d fields (.bare content) (text ++ rest) = readFrom d fields (.bare (content ++ text)) rest := by
  induction text generalizing content with
  | nil => simp
  | cons b text ih =>
    have hb : (b ≠ quote ∧ b ≠ cr) ∧ b ≠ lf := by
      simpa [framing, not_or] using hframing b List.mem_cons_self
    have hbd : b ≠ d := fun h => hd (h ▸ List.mem_cons_self)
    have ih' := ih (fun c hc => hframing c (List.mem_cons_of_mem _ hc)) (fun h => hd (List.mem_cons_of_mem _ h))
      (content ++ [b])
    rw [List.cons_append, readFrom, if_neg hb.1.1, if_neg hbd, if_neg hb.2, if_neg hb.1.2, ih', List.append_assoc,
      List.singleton_append]

theorem spells_bare (hd : Delimits d) {text : Bytes} (hframing : ∀ b ∈ text, framing b = false) (hmem : d ∉ text) :
    Spells d text [⟨text, false⟩] := by
  have hlf : lf ≠ quote := by decide
  intro fields rest
  cases text with
  | nil =>
    rw [List.nil_append, List.nil_append, readFrom, readFrom, if_neg hd.ne_quote, if_pos rfl, if_neg hlf,
      if_neg hd.ne_lf.symm, if_pos rfl]
    exact ⟨rfl, rfl⟩
  | cons b text =>
    have hb : (b ≠ quote ∧ b ≠ cr) ∧ b ≠ lf := by
      simpa [framing, not_or] using hframing b List.mem_cons_self
    have hbd : b ≠ d := fun h => hmem (h ▸ List.mem_cons_self)
    have hrun := readFrom_bare (fun c hc => hframing c (List.mem_cons_of_mem _ hc))
      (fun h => hmem (List.mem_cons_of_mem _ h)) fields [b]
    -- the first byte opens the field and the rest is read up to the delimiter or the line end
    have hopen : ∀ tail, readFrom d fields .start ((b :: text) ++ tail) =
        readFrom d fields (.bare (b :: text)) tail := by
      intro tail
      rw [List.cons_append, readFrom, if_neg hb.1.1, if_neg hbd, if_neg hb.2, if_neg hb.1.2, hrun,
        List.singleton_append]
    rw [hopen, hopen, readFrom, readFrom, if_neg hd.ne_quote, if_pos rfl, if_neg hlf, if_neg hd.ne_lf.symm,
      if_pos rfl]
    exact ⟨rfl, rfl⟩

theorem readFrom_quoted (text : Bytes) (fields : List RawField) (content rest : Bytes) :
    readFrom d fields (.inQuotes content) (double text ++ quote :: rest) =
      readFrom d fields (.closing (content ++ text)) rest := by
  induction text generalizing content with
  | nil => simp [double, readFrom]
  | cons b text ih =>
    have hcons : double (b :: text) = (if b = quote then [quote, quote] else [b]) ++ double text := rfl
    rw [hcons]
    by_cases hb : b = quote
    · subst hb
      rw [if_pos rfl, List.cons_append, List.cons_append, List.cons_append, List.nil_append, List.cons_append, readFrom,
        if_pos rfl, readFrom, if_pos rfl, ih, List.append_assoc, List.singleton_append]
    · rw [if_neg hb, List.singleton_append, List.cons_append, readFrom, if_neg hb, ih, List.append_assoc,
        List.singleton_append]

theorem spells_quoted (hd : Delimits d) (text : Bytes) :
    Spells d (quote :: double text ++ [quote]) [⟨text, true⟩] := by
  have hlf : lf ≠ quote := by decide
  intro fields rest
  have hopen : ∀ tail, readFrom d fields .start ((quote :: double text ++ [quote]) ++ tail) =
      readFrom d fields (.closing text) tail := by
    intro tail
    have hquoted := readFrom_quoted (d := d) text fields [] tail
    rw [List.cons_append, List.cons_append, readFrom, if_pos rfl, List.append_assoc, List.singleton_append, hquoted,
      List.nil_append]
  rw [hopen, hopen, readFrom, readFrom, if_neg hd.ne_quote, if_pos rfl, if_neg hlf, if_neg hd.ne_lf.symm, if_pos rfl]
  exact ⟨rfl, rfl⟩

/-- A bare text that holds the delimiter is read as more than one field. -/
theorem exists_spells (hd : Delimits d) (text : Bytes) (hframing : ∀ b ∈ text, framing b = false) :
    ∃ fs, Spells d text fs ∧ 1 ≤ fs.length ∧ (d ∈ text → 2 ≤ fs.length) ∧ (d ∉ text → fs = [⟨text, false⟩]) := by
  by_cases hmem : d ∈ text
  · -- what stands before the first delimiter is one field
    obtain ⟨first, rest, htext, hfirst⟩ := List.eq_append_cons_of_mem hmem
    have hshort : rest.length < text.length := by
      rw [htext, List.length_append, List.length_cons]
      omega
    obtain ⟨fs, hfs, hlength, -⟩ := exists_spells hd rest fun b hb => hframing b (by simp [htext, hb])
    have hbare := spells_bare hd (fun b hb => hframing b (by simp [htext, hb])) hfirst
    refine ⟨_, htext ▸ hbare.append hfs, ?_, fun _ => ?_, fun h => absurd hmem h⟩
    · simp
    · simpa using hlength
  · exact ⟨_, spells_bare hd hframing hmem, Nat.le_refl _, fun h => absurd h hmem, fun _ => rfl⟩
termination_by text.length

end Csv
