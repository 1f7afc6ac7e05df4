import Mathlib.Data.List.Basic
import Quickhouse.Lib.Text

/-!
# ClickHouse's `TabSeparated` output

Each row is one line of fields between tabs; the characters that would break it are written as a backslash and a
letter.
-/

namespace TabSeparated

/-- The letter a character is escaped with. -/
def escapeLetter (c : Char) : Option Char :=
  if c = Char.ofNat 8 then some 'b'
  else if c = Char.ofNat 12 then some 'f'
  else if c = '\r' then some 'r'
  else if c = '\n' then some 'n'
  else if c = '\t' then some 't'
  else if c = Char.ofNat 0 then some '0'
  else if c = '\'' then some '\''
  else if c = '\\' then some '\\'
  else none

def escapeChar (c : Char) : List Char :=
  match escapeLetter c with
  | some letter => ['\\', letter]
  | none => [c]

def escape (s : List Char) : List Char := s.flatMap escapeChar

/-- A field: NULL is written as no text is. -/
def writeField : Option (List Char) → List Char
  | some s => escape s
  | none => ['\\', 'N']

def writeRow (fields : List (Option (List Char))) : List Char := ['\t'].intercalate (fields.map writeField)

/-- The body of a response whose fields can be NULL. -/
def writeRows (rows : List (List (Option (List Char)))) : List Char := (rows.map writeRow).flatMap (· ++ ['\n'])

/-- None of the text's characters is escaped. -/
def Plain (s : List Char) : Prop := ∀ c ∈ s, escapeLetter c = none

instance (s : List Char) : Decidable (Plain s) := List.decidableBAll (fun c => escapeLetter c = none) s

/-! ### What an escaped text looks like -/

theorem escapeLetter_cases {c letter : Char} (h : escapeLetter c = some letter) :
    letter ∈ ['b', 'f', 'r', 'n', 't', '0', '\'', '\\'] := by
  unfold escapeLetter at h
  split_ifs at h <;> obtain rfl := Option.some.inj h <;> decide

theorem escapeLetter_none {c : Char} (h : escapeLetter c = none) : c ≠ '\n' ∧ c ≠ '\r' ∧ c ≠ '\t' ∧ c ≠ '\\' := by
  refine ⟨?_, ?_, ?_, ?_⟩ <;> rintro rfl <;> cases h

/-- An escaped text has no line end and no tab. -/
theorem mem_escape {s : List Char} {c : Char} (h : c ∈ escape s) : c ≠ '\n' ∧ c ≠ '\r' ∧ c ≠ '\t' := by
  obtain ⟨a, -, hc⟩ := List.mem_flatMap.mp h
  unfold escapeChar at hc
  cases ha : escapeLetter a with
  | some letter =>
    rw [ha] at hc
    rcases List.mem_cons.mp hc with rfl | hc
    · decide
    · obtain rfl := List.mem_singleton.mp hc
      have hletter := escapeLetter_cases ha
      refine ⟨?_, ?_, ?_⟩ <;> rintro rfl <;> revert hletter <;> decide
  | none =>
    rw [ha] at hc
    obtain rfl := List.mem_singleton.mp hc
    obtain ⟨h1, h2, h3, -⟩ := escapeLetter_none ha
    exact ⟨h1, h2, h3⟩

theorem escape_eq_nil {s : List Char} : escape s = [] ↔ s = [] := by
  constructor
  · intro h
    cases s with
    | nil => rfl
    | cons c s =>
      unfold escape escapeChar at h
      rw [List.flatMap_cons] at h
      cases hc : escapeLetter c <;> rw [hc] at h <;> cases h
  · rintro rfl
    rfl

theorem escape_of_plain {s : List Char} (h : Plain s) : escape s = s := by
  induction s with
  | nil => rfl
  | cons c s ih =>
    have hc : escapeChar c = [c] := by
      unfold escapeChar
      rw [h c List.mem_cons_self]
    show escapeChar c ++ escape s = c :: s
    rw [hc, ih fun e he => h e (List.mem_cons_of_mem _ he)]
    rfl

/-- Each escaped character adds a backslash. -/
theorem count_escape (s : List Char) :
    (escape s).count '\\' = s.count '\\' + s.countP fun c => (escapeLetter c).isSome := by
  induction s with
  | nil => rfl
  | cons c s ih =>
    show (escapeChar c ++ escape s).count '\\' = _
    rw [List.count_append, ih, List.count_cons, List.countP_cons]
    unfold escapeChar
    cases hc : escapeLetter c with
    | none =>
      have hslash := (escapeLetter_none hc).2.2.2
      simp [hslash]
    | some letter =>
      by_cases hslash : c = '\\'
      · subst hslash
        obtain rfl := Option.some.inj (show some '\\' = some letter from hc)
        simp
        omega
      · have hletter : letter ≠ '\\' := by
          rintro rfl
          unfold escapeLetter at hc
          split_ifs at hc <;> simp_all
        simp [hslash, hletter]
        omega

/-- A text is its own escape only when it is plain. -/
theorem plain_of_count {s : List Char} (h : (escape s).count '\\' = s.count '\\') : Plain s := by
  rw [count_escape] at h
  have hzero : s.countP (fun c => (escapeLetter c).isSome) = 0 := by omega
  intro c hc
  have := List.countP_eq_zero.mp hzero c hc
  simpa using this

theorem escape_eq_self {s : List Char} : escape s = s ↔ Plain s :=
  ⟨fun h => plain_of_count (by rw [h]), escape_of_plain⟩

/-! ### Fields and rows -/

theorem escape_ne_null (s : List Char) : escape s ≠ ['\\', 'N'] := by
  intro h
  cases s with
  | nil => cases h
  | cons c s =>
    have hcons : escapeChar c ++ escape s = ['\\', 'N'] := h
    unfold escapeChar at hcons
    cases hc : escapeLetter c with
    | none =>
      rw [hc] at hcons
      exact (escapeLetter_none hc).2.2.2 (List.cons.inj hcons).1
    | some letter =>
      rw [hc] at hcons
      obtain rfl : letter = 'N' := (List.cons.inj (List.cons.inj hcons).2).1
      exact absurd (escapeLetter_cases hc) (by decide)

theorem mem_writeField {f : Option (List Char)} {c : Char} (h : c ∈ writeField f) : c ≠ '\n' ∧ c ≠ '\r' ∧ c ≠ '\t' := by
  cases f with
  | some s => exact mem_escape h
  | none =>
    have hc : c = '\\' ∨ c = 'N' := by simpa [writeField] using h
    rcases hc with rfl | rfl
    · decide
    · decide

theorem writeRow_cons (f : Option (List Char)) (fields : List (Option (List Char))) :
    writeRow (f :: fields) = writeField f ++ fields.flatMap fun g => '\t' :: writeField g := by
  induction fields generalizing f with
  | nil => simp [writeRow]
  | cons g fields ih =>
    have hrow : writeRow (f :: g :: fields) = writeField f ++ '\t' :: writeRow (g :: fields) := by
      simp [writeRow, List.intercalate]
    rw [hrow, ih g, List.flatMap_cons]
    rfl

theorem writeRows_cons (fields : List (Option (List Char))) (rows : List (List (Option (List Char)))) :
    writeRows (fields :: rows) = writeRow fields ++ '\n' :: writeRows rows := by
  unfold writeRows
  rw [List.map_cons, List.flatMap_cons, List.append_assoc]
  rfl

/-- A row is one line. -/
theorem mem_writeRow {fields : List (Option (List Char))} {c : Char} (h : c ∈ writeRow fields) : c ≠ '\n' ∧ c ≠ '\r' := by
  cases fields with
  | nil => cases h
  | cons f fields =>
    rw [writeRow_cons, List.mem_append, List.mem_flatMap] at h
    rcases h with hf | ⟨g, -, hg⟩
    · exact ⟨(mem_writeField hf).1, (mem_writeField hf).2.1⟩
    · rcases List.mem_cons.mp hg with rfl | hg
      · decide
      · exact ⟨(mem_writeField hg).1, (mem_writeField hg).2.1⟩

theorem splitOn_writeRow {fields : List (Option (List Char))} (h : fields ≠ []) :
    (writeRow fields).splitOn '\t' = fields.map writeField := by
  unfold writeRow
  refine List.splitOn_intercalate '\t' ?_ (by simpa using h)
  intro l hl htab
  obtain ⟨f, -, rfl⟩ := List.mem_map.mp hl
  exact (mem_writeField htab).2.2 rfl

/-- A line is empty only for a single empty field. -/
theorem writeRow_eq_nil {fields : List (Option (List Char))} (h : fields ≠ []) :
    writeRow fields = [] ↔ fields = [some []] := by
  constructor
  · intro hrow
    have hsplit := splitOn_writeRow h
    rw [hrow, List.splitOn_nil] at hsplit
    cases fields with
    | nil => exact absurd rfl h
    | cons f fields =>
      rw [List.map_cons] at hsplit
      obtain ⟨hf, hrest⟩ := List.cons.inj hsplit
      obtain rfl : fields = [] := by simpa using hrest.symm
      cases f with
      | none => cases hf
      | some s => rw [escape_eq_nil.mp hf.symm]
  · rintro rfl
    rfl

theorem lines_writeRows (rows : List (List (Option (List Char)))) :
    Text.lines (writeRows rows) = rows.map writeRow := by
  refine Text.lines_ended ?_ ?_
  · intro l hl hn
    obtain ⟨row, -, rfl⟩ := List.mem_map.mp hl
    exact (mem_writeRow hn).1 rfl
  · intro l hl hr
    obtain ⟨row, -, rfl⟩ := List.mem_map.mp hl
    exact (mem_writeRow hr).2 rfl

end TabSeparated
