import Mathlib.Tactic.Push
import Quickhouse.Error
import Quickhouse.Lib.TabSeparated

/-!
# ClickHouse results as rows

`query_rows` cuts the response into lines and the lines into fields, and only then undoes the escapes.  Two things do
not come back: the escapes of a backspace and of a form feed, which `tsv_field` takes for no escapes at all, and a row
that is one empty text, whose line is empty and skipped as a blank one (`rows_read_back_iff`).
-/

namespace Quickhouse

open TabSeparated

/-- A response of the server.  The HTTP client's `text()` takes a byte order mark off the front when it is built with
its `charset` feature. -/
structure Response where
  status : Nat
  body : List Char
  charset : Bool
  deriving DecidableEq, Repr

def byteOrderMark : Char := Char.ofNat 0xFEFF

def Response.text (resp : Response) : List Char :=
  match resp.body with
  | c :: rest => if resp.charset && c = byteOrderMark then rest else c :: rest
  | [] => []

def Response.check (resp : Response) : Except EtlError Response :=
  if 200 ≤ resp.status ∧ resp.status < 300 then .ok resp
  else .error (.clickhouse ("HTTP " ++ toString resp.status ++ ": " ++ String.ofList resp.text))

def queryTsv (resp : Response) : Except EtlError (List Char) := do
  let resp ← resp.check
  return resp.text

/-- The lone value of a result; a blank one is none. -/
def queryScalar (resp : Response) : Except EtlError (Option (List Char)) := do
  let trimmed := Text.trim (← queryTsv resp)
  return if trimmed = [] then none else some trimmed

/-- The lines of a result that are not blank, as they stand. -/
def queryColumn (resp : Response) : Except EtlError (List (List Char)) := do
  return (Text.lines (← queryTsv resp)).filter (· ≠ [])

def unescapeLetter (c : Char) : List Char :=
  if c = 'n' then ['\n']
  else if c = 't' then ['\t']
  else if c = 'r' then ['\r']
  else if c = '0' then [Char.ofNat 0]
  else if c = '\\' then ['\\']
  else if c = '\'' then ['\'']
  -- not taken for an escape: both characters are kept
  else ['\\', c]

def unescape : List Char → List Char
  | [] => []
  | ['\\'] => ['\\']
  | '\\' :: c :: rest => unescapeLetter c ++ unescape rest
  | c :: rest => c :: unescape rest

def tsvField (raw : List Char) : Option (List Char) :=
  if raw = ['\\', 'N'] then none
  else if '\\' ∉ raw then some raw
  else some (unescape raw)

/-- The rows of the response to a query. -/
def queryRows (resp : Response) : Except EtlError (List (List (Option (List Char)))) := do
  let body ← queryTsv resp
  return ((Text.lines body).filter (· ≠ [])).map fun line => (line.splitOn '\t').map tsvField

/-! ### A field -/

/-- The characters whose escapes are not undone. -/
def Unread (c : Char) : Prop := c = Char.ofNat 8 ∨ c = Char.ofNat 12

instance (c : Char) : Decidable (Unread c) := inferInstanceAs (Decidable (c = Char.ofNat 8 ∨ c = Char.ofNat 12))

/-- What a character comes back as. -/
def readChar (c : Char) : List Char := if Unread c then escapeChar c else [c]

/-- What a text comes back as. -/
def readText (s : List Char) : List Char := s.flatMap readChar

theorem unescape_plain {c : Char} (h : c ≠ '\\') (rest : List Char) : unescape (c :: rest) = c :: unescape rest := by
  cases rest with
  | nil => simp [unescape, h]
  | cons d rest =>
    rw [unescape]
    · exact fun _ hd => List.cons_ne_nil _ _ hd
    · exact fun _ _ hc _ => h hc

theorem unescape_escapeChar (c : Char) (rest : List Char) :
    unescape (escapeChar c ++ rest) = readChar c ++ unescape rest := by
  cases hc : escapeLetter c with
  | none =>
    have hread : readChar c = [c] := by
      unfold readChar
      rw [if_neg]
      rintro (rfl | rfl)
      · exact absurd hc (by decide)
      · exact absurd hc (by decide)
    have hescape : escapeChar c = [c] := by
      unfold escapeChar
      rw [hc]
    rw [hread, hescape]
    exact unescape_plain (escapeLetter_none hc).2.2.2 rest
  | some letter =>
    have hescape : escapeChar c = ['\\', letter] := by
      unfold escapeChar
      rw [hc]
    have hletter : unescapeLetter letter = readChar c := by
      unfold escapeLetter at hc
      split_ifs at hc <;> obtain rfl := Option.some.inj hc <;> subst_vars <;> decide
    rw [hescape, ← hletter]
    rfl

theorem unescape_escape (s : List Char) : unescape (escape s) = readText s := by
  induction s with
  | nil => rfl
  | cons c s ih =>
    show unescape (escapeChar c ++ escape s) = readChar c ++ readText s
    rw [unescape_escapeChar, ih]

/-- A character is written as another, or at greater length, only when its escape is not undone. -/
theorem readChar_length (c : Char) : (readChar c).length = if Unread c then 2 else 1 := by
  unfold readChar
  split
  · rename_i h
    rcases h with rfl | rfl
    · decide
    · decide
  · rfl

theorem readText_length (s : List Char) : (readText s).length = s.length + s.countP (Unread ·) := by
  induction s with
  | nil => rfl
  | cons c s ih =>
    show (readChar c ++ readText s).length = _
    rw [List.length_append, ih, readChar_length, List.countP_cons, List.length_cons]
    by_cases h : Unread c
    · simp [h]
      omega
    · simp [h]
      omega

theorem readText_eq_self {s : List Char} : readText s = s ↔ ∀ c ∈ s, ¬ Unread c := by
  constructor
  · intro h c hc hunread
    have hlen := congrArg List.length h
    rw [readText_length] at hlen
    have hzero : s.countP (Unread ·) = 0 := by omega
    have := List.countP_eq_zero.mp hzero c hc
    simp [hunread] at this
  · intro h
    induction s with
    | nil => rfl
    | cons c s ih =>
      show readChar c ++ readText s = c :: s
      unfold readChar
      rw [if_neg (h c List.mem_cons_self), ih fun e he => h e (List.mem_cons_of_mem _ he)]
      rfl

/-- A field comes back as its text does, and NULL as NULL. -/
theorem tsvField_writeField (f : Option (List Char)) : tsvField (writeField f) = f.map readText := by
  cases f with
  | none => rfl
  | some s =>
    show tsvField (escape s) = some (readText s)
    unfold tsvField
    rw [if_neg (escape_ne_null s)]
    split
    · rename_i hslash
      -- without a backslash nothing was escaped
      have hplain : Plain s := by
        refine plain_of_count ?_
        rw [List.count_eq_zero.mpr hslash]
        have := count_escape s
        rw [List.count_eq_zero.mpr hslash] at this
        omega
      rw [escape_of_plain hplain]
      congr 1
      refine (readText_eq_self.mpr fun c hc hunread => ?_).symm
      have := hplain c hc
      rcases hunread with rfl | rfl
      · exact absurd this (by decide)
      · exact absurd this (by decide)
    · rw [unescape_escape]

/-! ### A result -/

abbrev TextRow := List (Option (List Char))

/-- The answer to a query with the rows. -/
def answer (charset : Bool) (rows : List TextRow) : Response := { status := 200, body := writeRows rows, charset }

/-- What comes back of a body that is read as it stands. -/
def readRows (rows : List TextRow) : List TextRow :=
  (rows.filter (· ≠ [some []])).map fun row => row.map (Option.map readText)

theorem lines_read {rows : List TextRow} (hrows : ∀ row ∈ rows, row ≠ []) :
    ((Text.lines (writeRows rows)).filter (· ≠ [])).map (fun line => (line.splitOn '\t').map tsvField) =
      readRows rows := by
  unfold readRows
  rw [lines_writeRows]
  induction rows with
  | nil => rfl
  | cons row rows ih =>
    have hrow := hrows row List.mem_cons_self
    have hrest := ih fun r hr => hrows r (List.mem_cons_of_mem _ hr)
    have hfields : ((writeRow row).splitOn '\t').map tsvField = row.map (Option.map readText) := by
      rw [splitOn_writeRow hrow, List.map_map]
      exact List.map_congr_left fun f _ => tsvField_writeField f
    by_cases hblank : row = [some []]
    · rw [List.map_cons, List.filter_cons_of_neg (by simpa using (writeRow_eq_nil hrow).mpr hblank),
        List.filter_cons_of_neg (by simpa using hblank)]
      exact hrest
    · rw [List.map_cons, List.filter_cons_of_pos (by simpa using fun h => hblank ((writeRow_eq_nil hrow).mp h)),
        List.filter_cons_of_pos (by simpa using hblank), List.map_cons, List.map_cons, hfields, hrest]

theorem queryRows_answer {rows : List TextRow} {charset : Bool} {text : List TextRow}
    (htext : (answer charset rows).text = writeRows text) (hrows : ∀ row ∈ text, row ≠ []) :
    queryRows (answer charset rows) = .ok (readRows text) := by
  have hquery : queryTsv (answer charset rows) = .ok (writeRows text) := by
    rw [← htext]
    rfl
  unfold queryRows
  rw [hquery]
  exact congrArg Except.ok (lines_read hrows)

/-- Every text of the rows comes back as it was. -/
def AllRead (rows : List TextRow) : Prop :=
  ∀ row ∈ rows, row ≠ [some []] ∧ ∀ f ∈ row, ∀ c ∈ f.getD [], ¬ Unread c

private theorem map_eq_self {α : Type} {f : α → α} {l : List α} : l.map f = l ↔ ∀ a ∈ l, f a = a := by
  have h := List.map_inj_left (l := l) (f := f) (g := id)
  rwa [List.map_id] at h

theorem readRows_eq_self {rows : List TextRow} : readRows rows = rows ↔ AllRead rows := by
  constructor
  · intro h row hrow
    have hlen : (rows.filter (· ≠ [some []])).length = rows.length := by
      have := congrArg List.length h
      unfold readRows at this
      rwa [List.length_map] at this
    have hkept : rows.filter (· ≠ [some []]) = rows := List.filter_eq_self.mpr (List.length_filter_eq_length_iff.mp hlen)
    unfold readRows at h
    rw [hkept] at h
    have hread : row.map (Option.map readText) = row := map_eq_self.mp h row hrow
    refine ⟨?_, fun f hf => ?_⟩
    · have := List.filter_eq_self.mp hkept row hrow
      simpa using this
    · have hfield := map_eq_self.mp hread f hf
      cases f with
      | none => simp
      | some s => exact readText_eq_self.mp (Option.some.inj hfield)
  · intro h
    unfold readRows
    rw [List.filter_eq_self.mpr fun row hrow => by simpa using (h row hrow).1]
    refine map_eq_self.mpr fun row hrow => map_eq_self.mpr fun f hf => ?_
    cases f with
    | none => rfl
    | some s => exact congrArg some (readText_eq_self.mpr ((h row hrow).2 (some s) hf))

/-! ### The byte order mark -/

/-- The first text of the result starts with a byte order mark. -/
def StartsWithMark : List TextRow → Prop
  | (some (c :: _) :: _) :: _ => c = byteOrderMark
  | _ => False

theorem mark_plain : escapeChar byteOrderMark = [byteOrderMark] := by decide

theorem escapeChar_head {c : Char} (hc : c ≠ byteOrderMark) : (escapeChar c).head? ≠ some byteOrderMark := by
  unfold escapeChar
  cases escapeLetter c with
  | none => simpa using hc
  | some letter =>
    show some '\\' ≠ some byteOrderMark
    decide

theorem escapeChar_ne_nil (c : Char) : escapeChar c ≠ [] := by
  unfold escapeChar
  cases escapeLetter c with
  | none => simp
  | some letter => simp

/-- What stands behind the first field of a body does not start with a mark. -/
theorem behind_head (fields : TextRow) (rest : List Char) :
    ((fields.flatMap fun g => '\t' :: writeField g) ++ '\n' :: rest).head? ≠ some byteOrderMark := by
  cases fields with
  | nil =>
    show some '\n' ≠ some byteOrderMark
    decide
  | cons g fields =>
    show some '\t' ≠ some byteOrderMark
    decide

theorem writeField_head {f : Option (List Char)} {rest : List Char} (hrest : rest.head? ≠ some byteOrderMark)
    (h : ∀ s, f ≠ some (byteOrderMark :: s)) : (writeField f ++ rest).head? ≠ some byteOrderMark := by
  cases f with
  | none =>
    show some '\\' ≠ some byteOrderMark
    decide
  | some s =>
    cases s with
    | nil => exact hrest
    | cons c s =>
      have hc : c ≠ byteOrderMark := fun hc => h s (by rw [hc])
      show (escapeChar c ++ escape s ++ rest).head? ≠ some byteOrderMark
      rw [List.append_assoc, List.head?_append_of_ne_nil _ (escapeChar_ne_nil c)]
      exact escapeChar_head hc

theorem writeRows_head {rows : List TextRow} (hrows : ∀ row ∈ rows, row ≠ []) (h : ¬ StartsWithMark rows) :
    (writeRows rows).head? ≠ some byteOrderMark := by
  cases rows with
  | nil => simp [writeRows]
  | cons row rows =>
    cases row with
    | nil => exact absurd rfl (hrows [] List.mem_cons_self)
    | cons f fields =>
      rw [writeRows_cons, writeRow_cons, List.append_assoc]
      refine writeField_head (behind_head fields _) fun s hs => h ?_
      rw [hs]
      rfl

theorem text_of_head {resp : Response} (h : resp.body.head? ≠ some byteOrderMark) : resp.text = resp.body := by
  unfold Response.text
  cases hbody : resp.body with
  | nil => rfl
  | cons c rest =>
    rw [hbody] at h
    have hc : c ≠ byteOrderMark := by simpa using h
    simp [hc]

theorem text_of_plain {resp : Response} (h : resp.charset = false) : resp.text = resp.body := by
  unfold Response.text
  cases hbody : resp.body with
  | nil => rfl
  | cons c rest => simp [h]

theorem text_marked {s : List Char} {fields : TextRow} {rows : List TextRow} :
    (answer true ((some (byteOrderMark :: s) :: fields) :: rows)).text = writeRows ((some s :: fields) :: rows) := by
  have hbody : (answer true ((some (byteOrderMark :: s) :: fields) :: rows)).body =
      byteOrderMark :: writeRows ((some s :: fields) :: rows) := by
    show writeRows _ = _
    rw [writeRows_cons, writeRows_cons, writeRow_cons, writeRow_cons]
    show (escapeChar byteOrderMark ++ escape s ++ _) ++ _ = _
    rw [mark_plain]
    rfl
  unfold Response.text
  rw [hbody]
  rfl

/-- No byte order mark is taken off the front. -/
def Unmarked (charset : Bool) (s : List Char) : Prop := charset = true → s.head? ≠ some byteOrderMark

theorem text_unmarked {charset : Bool} {s : List Char} (h : Unmarked charset s) {fields : TextRow} {rows : List TextRow}
    (hrows : ∀ row ∈ rows, row ≠ []) :
    (answer charset ((some s :: fields) :: rows)).text = writeRows ((some s :: fields) :: rows) := by
  cases hcharset : charset with
  | false => exact text_of_plain rfl
  | true =>
    refine text_of_head (writeRows_head (List.forall_mem_cons.mpr ⟨List.cons_ne_nil _ _, hrows⟩) ?_)
    cases s with
    | nil => exact fun hmark => hmark
    | cons c s => exact fun hmark => h hcharset (congrArg some hmark)

/-- Where a mark is taken off, a text comes of what stands behind it. -/
theorem eq_marked {charset : Bool} {s : List Char} (h : ¬ Unmarked charset s) :
    charset = true ∧ ∃ rest, s = byteOrderMark :: rest := by
  unfold Unmarked at h
  push Not at h
  obtain ⟨hcharset, hhead⟩ := h
  cases s with
  | nil => cases hhead
  | cons c rest => exact ⟨hcharset, rest, by rw [Option.some.inj hhead]⟩

theorem not_unread_of_mem_readText {s : List Char} {c : Char} (h : c ∈ readText s) : ¬ Unread c := by
  obtain ⟨e, -, hc⟩ := List.mem_flatMap.mp h
  unfold readChar at hc
  split at hc
  · rename_i he
    have h8 : (escapeChar (Char.ofNat 8)).all (fun d => !decide (Unread d)) = true := by decide
    have h12 : (escapeChar (Char.ofNat 12)).all (fun d => !decide (Unread d)) = true := by decide
    rcases he with rfl | rfl
    · simpa using List.all_eq_true.mp h8 c hc
    · simpa using List.all_eq_true.mp h12 c hc
  · rename_i he
    obtain rfl := List.mem_singleton.mp hc
    exact he

/-- No text comes back with one more character at its front. -/
theorem readText_ne_cons (c : Char) (s : List Char) : readText s ≠ c :: s := by
  intro h
  have hself : readText s = s := readText_eq_self.mpr fun e he =>
    not_unread_of_mem_readText (s := s) (by rw [h]; exact List.mem_cons_of_mem _ he)
  have hlen := congrArg List.length (hself.symm.trans h)
  rw [List.length_cons] at hlen
  omega

theorem readRows_length (rows : List TextRow) : (readRows rows).length ≤ rows.length := by
  unfold readRows
  rw [List.length_map]
  exact List.length_filter_le _ _

theorem readRows_ne_marked (s : List Char) (fields : TextRow) (rows : List TextRow) :
    readRows ((some s :: fields) :: rows) ≠ (some (byteOrderMark :: s) :: fields) :: rows := by
  intro h
  by_cases hblank : some s :: fields = [some []]
  · -- the row is skipped, and a row is missing
    have hrest : readRows ((some s :: fields) :: rows) = readRows rows := by
      unfold readRows
      rw [List.filter_cons_of_neg (by simpa using hblank)]
    have hlen := readRows_length rows
    rw [← hrest, h, List.length_cons] at hlen
    omega
  · have hcons : readRows ((some s :: fields) :: rows) = (some s :: fields).map (Option.map readText) :: readRows rows := by
      unfold readRows
      have hkept : decide (some s :: fields ≠ [some []]) = true := decide_eq_true hblank
      rw [List.filter_cons, if_pos hkept, List.map_cons]
    rw [hcons] at h
    have hfield := (List.cons.inj (List.cons.inj h).1).1
    exact readText_ne_cons _ s (Option.some.inj hfield)

/-- The rows come back exactly when no text has a backspace or a form feed, no row is one empty text, and no byte order
mark is taken off. -/
theorem rows_read_back_iff (charset : Bool) (rows : List TextRow) (hrows : ∀ row ∈ rows, row ≠ []) :
    queryRows (answer charset rows) = .ok rows ↔ AllRead rows ∧ (charset = true → ¬ StartsWithMark rows) := by
  by_cases hmark : charset = true ∧ StartsWithMark rows
  · obtain ⟨rfl, hstart⟩ := hmark
    refine iff_of_false (fun h => ?_) fun h => h.2 rfl hstart
    match rows, hstart with
    | (some (_ :: s) :: fields) :: rows, rfl =>
      have htext : ∀ row ∈ (some s :: fields) :: rows, row ≠ [] := by
        intro row hrow
        rcases List.mem_cons.mp hrow with rfl | hrow
        · simp
        · exact hrows row (List.mem_cons_of_mem _ hrow)
      rw [queryRows_answer text_marked htext] at h
      exact readRows_ne_marked s fields rows (Except.ok.inj h)
  · have htext : (answer charset rows).text = writeRows rows := by
      by_cases hstart : StartsWithMark rows
      · have hoff : charset = false := by simpa [hstart] using hmark
        exact text_of_plain hoff
      · exact text_of_head (writeRows_head hrows hstart)
    rw [queryRows_answer htext hrows]
    constructor
    · intro h
      exact ⟨readRows_eq_self.mp (Except.ok.inj h), fun hc hs => hmark ⟨hc, hs⟩⟩
    · intro h
      exact congrArg Except.ok (readRows_eq_self.mpr h.1)

/-- A backspace comes back as a backslash and a letter, and a row with an empty name not at all. -/
theorem backspace_and_blank_row_lost :
    queryRows (answer false [[some [Char.ofNat 8]]]) = .ok [[some ['\\', 'b']]] ∧
      queryRows (answer false [[some ['a']], [some []]]) = .ok [[some ['a']]] := by
  decide +kernel

theorem tab_and_null_read_back : queryRows (answer true [[some ['a', '\t'], none], [some [], some []]]) =
    .ok [[some ['a', '\t'], none], [some [], some []]] :=
  (rows_read_back_iff true [[some ['a', '\t'], none], [some [], some []]] (by decide)).mpr
    ⟨by simp [AllRead, Unread], fun _ => show ¬ 'a' = byteOrderMark by decide⟩

end Quickhouse
