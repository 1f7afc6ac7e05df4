import Mathlib.Data.List.Basic
import Mathlib.Data.Nat.Digits.Defs

/-!
# The lexical rules of SQL engines

A text between quotes ends at the first quote that is neither doubled nor behind a backslash, where the engine has the
one or the other (`Quoting`).  A writer that spells each character by the engine's rules is read back, up to the quote
that closes it.  Numeric escapes are left out.

`tokens` reads the quoted names, words, natural numbers and operators of an expression.
-/

namespace SqlLexer

/-! ### Quoted texts -/

/-- How an engine reads what stands between two quotes. -/
structure Quoting where
  quote : Char
  /-- A doubled quote is one quote of the text. -/
  doubled : Bool
  /-- What a backslash and a character stand for; `none` where a backslash stands for itself. -/
  escape : Option (Char → Option (List Char))
  /-- The characters that stand for themselves. -/
  raw : Char → Bool

namespace Quoting

variable (q : Quoting)

def escapeAt (c : Char) : Option (Char → Option (List Char)) := if c = '\\' then q.escape else none

/-- More of the text in front. -/
def prepend (text : List Char) (r : List Char × List Char) : List Char × List Char := (text ++ r.1, r.2)

/-- The text and what follows it, past the opening quote. -/
def lexBody : List Char → Option (List Char × List Char)
  | [] => none
  | [c] => if c = q.quote then some ([], []) else none
  | c :: e :: rest =>
    if c = q.quote then
      if q.doubled = true ∧ e = q.quote then (lexBody rest).map (prepend [q.quote]) else some ([], e :: rest)
    else
      match q.escapeAt c with
      | some escape => (escape e).bind fun text => (lexBody rest).map (prepend text)
      | none => if q.raw c = true then (lexBody (e :: rest)).map (prepend [c]) else none

/-- A quoted text, its quote first. -/
def lex : List Char → Option (List Char × List Char)
  | [] => none
  | c :: rest => if c = q.quote then q.lexBody rest else none

/-- The text stands for the character between quotes. -/
inductive Spells : List Char → Char → Prop
  | escape {e c : Char} {escape : Char → Option (List Char)} (h : q.escapeAt '\\' = some escape)
    (hc : escape e = some [c]) (hquote : '\\' ≠ q.quote) : Spells ['\\', e] c
  | doubled (h : q.doubled = true) : Spells [q.quote, q.quote] q.quote
  | raw {c : Char} (h : q.raw c = true) (hescape : q.escapeAt c = none) (hquote : c ≠ q.quote) : Spells [c] c

variable {q}

/-- A character that is spelled is read, whatever follows it. -/
theorem lexBody_spells {text : List Char} {c : Char} (h : q.Spells text c) {rest : List Char} (hrest : rest ≠ []) :
    q.lexBody (text ++ rest) = (q.lexBody rest).map (prepend [c]) := by
  obtain ⟨d, rest, rfl⟩ := List.exists_cons_of_ne_nil hrest
  cases h with
  | escape h hc hquote =>
    rw [List.cons_append, List.cons_append, List.nil_append, lexBody, if_neg hquote, h]
    dsimp only
    rw [hc, Option.bind_some]
  | doubled hd => rw [List.cons_append, List.cons_append, List.nil_append, lexBody, if_pos rfl, if_pos ⟨hd, rfl⟩]
  | raw hraw hescape hquote =>
    rw [List.cons_append, List.nil_append, lexBody, if_neg hquote, hescape]
    dsimp only
    rw [if_pos hraw]

/-- A text spelled character by character is read back, up to the quote that closes it. -/
theorem lexBody_flatMap {spell : Char → List Char} {s : List Char} (hspell : ∀ c ∈ s, q.Spells (spell c) c)
    {rest : List Char} (hrest : q.doubled = true → rest.head? ≠ some q.quote) :
    q.lexBody (s.flatMap spell ++ q.quote :: rest) = some (s, rest) := by
  induction s with
  | nil =>
    rw [List.flatMap_nil, List.nil_append]
    cases rest with
    | nil => exact if_pos rfl
    | cons c rest =>
      rw [lexBody, if_pos rfl, if_neg]
      rintro ⟨hd, rfl⟩
      exact hrest hd rfl
  | cons c s ih =>
    have hs := ih fun d hd => hspell d (List.mem_cons_of_mem _ hd)
    rw [List.flatMap_cons, List.append_assoc, lexBody_spells (hspell c List.mem_cons_self)]
    · rw [hs]
      rfl
    · exact List.append_ne_nil_of_right_ne_nil _ (List.cons_ne_nil _ _)

end Quoting

/-! ### Tokens -/

inductive Token where
  | name (text : List Char)
  | word (text : List Char)
  | number (n : Nat)
  | operator (text : List Char)
  deriving DecidableEq, Repr

def isOperator (c : Char) : Bool := c ∈ ['<', '>', '=', '-', '+', '*', '/', '%', '!', '&', '|', '^', '~']

def isWordStart (c : Char) : Bool := c.isAlpha || c = '_'

def isWord (c : Char) : Bool := c.isAlphanum || c = '_'

/-- One token, and what follows it.  A run of operator characters is one operator, unless it starts a comment, and a
number does not run into a word. -/
def token (names : Quoting) : List Char → Option (Token × List Char)
  | [] => none
  | c :: rest =>
    if c = names.quote then (names.lexBody rest).map fun r => (.name r.1, r.2)
    else if c.isDigit then
      let after := (c :: rest).dropWhile Char.isDigit
      if after.head?.any (fun e => isWord e || e = '.') then none
      else some (.number (Nat.ofDigitChars 10 ((c :: rest).takeWhile Char.isDigit) 0), after)
    else if isWordStart c then some (.word ((c :: rest).takeWhile isWord), (c :: rest).dropWhile isWord)
    else if isOperator c then
      let run := (c :: rest).takeWhile isOperator
      if ['-', '-'].isPrefixOf run || ['/', '*'].isPrefixOf run then none
      else some (.operator run, (c :: rest).dropWhile isOperator)
    else none

/-- The tokens of a text, with blanks between them. -/
def tokensIn (names : Quoting) : (fuel : Nat) → List Char → Option (List Token)
  | _, [] => some []
  | 0, _ => none
  | fuel + 1, c :: rest =>
    if c = ' ' then tokensIn names fuel rest
    else (token names (c :: rest)).bind fun r => (tokensIn names fuel r.2).map (r.1 :: ·)

def tokens (names : Quoting) (text : List Char) : Option (List Token) := tokensIn names text.length text

/-- The text is read as these tokens wherever a blank or nothing follows. -/
def Reads (names : Quoting) (text : List Char) (ts : List Token) : Prop :=
  ∀ rest, rest.head?.all (· = ' ') = true → ∀ fuel more, tokensIn names fuel rest = some more →
    tokensIn names (fuel + text.length) (text ++ rest) = some (ts ++ more)

variable {names : Quoting}

theorem Reads.append {a b : List Char} {as bs : List Token} (ha : Reads names a as) (hb : Reads names b bs) :
    Reads names (a ++ ' ' :: b) (as ++ bs) := by
  intro rest hrest fuel more hmore
  have hblank : tokensIn names (fuel + b.length + 1) (' ' :: (b ++ rest)) = some (bs ++ more) := by
    rw [tokensIn, if_pos rfl]
    exact hb rest hrest fuel more hmore
  have h := ha (' ' :: (b ++ rest)) rfl _ _ hblank
  have hfuel : fuel + (a ++ ' ' :: b).length = fuel + b.length + 1 + a.length := by
    rw [List.length_append, List.length_cons]
    omega
  rw [hfuel, List.append_assoc, List.cons_append, h, List.append_assoc]

theorem Reads.tokens {text : List Char} {ts : List Token} (h : Reads names text ts) :
    SqlLexer.tokens names text = some ts := by
  have hall := h [] rfl 0 [] rfl
  rw [List.append_nil, Nat.zero_add, List.append_nil] at hall
  exact hall

theorem tokensIn_more {fuel : Nat} {text : List Char} {ts : List Token} (h : tokensIn names fuel text = some ts)
    (extra : Nat) : tokensIn names (fuel + extra) text = some ts := by
  induction fuel generalizing text ts with
  | zero =>
    cases text with
    | nil =>
      cases extra with
      | zero => exact h
      | succ extra => exact h
    | cons c rest => cases h
  | succ fuel ih =>
    rw [Nat.succ_add]
    cases text with
    | nil => exact h
    | cons c rest =>
      rw [tokensIn] at h ⊢
      split_ifs at h ⊢ with hblank
      · exact ih h
      · obtain ⟨r, hr, h⟩ := Option.bind_eq_some_iff.mp h
        obtain ⟨ts', hts, rfl⟩ := Option.map_eq_some_iff.mp h
        rw [hr, Option.bind_some, ih hts, Option.map_some]

/-- A token is read in front of a blank. -/
theorem reads_token {text : List Char} {t : Token} (hne : text ≠ []) (hblank : text.head? ≠ some ' ')
    (htoken : ∀ rest, rest.head?.all (· = ' ') = true → token names (text ++ rest) = some (t, rest)) :
    Reads names text [t] := by
  intro rest hrest fuel more hmore
  have h := htoken rest hrest
  obtain ⟨c, cs, rfl⟩ := List.exists_cons_of_ne_nil hne
  have hc : c ≠ ' ' := by
    rintro rfl
    exact hblank rfl
  rw [List.cons_append] at h ⊢
  rw [List.length_cons, ← Nat.add_assoc, tokensIn, if_neg hc, h, Option.bind_some, tokensIn_more hmore]
  rfl

theorem head?_ne_of_all {rest : List Char} (h : rest.head?.all (· = ' ') = true) {c : Char} (hc : c ≠ ' ') :
    rest.head? ≠ some c := by
  intro hhead
  rw [hhead] at h
  simp [hc] at h

/-- A run of characters of one kind, in front of a blank. -/
theorem takeWhile_run {p : Char → Bool} {text rest : List Char} (hp : ∀ c ∈ text, p c = true) (hblank : p ' ' = false)
    (hrest : rest.head?.all (· = ' ') = true) :
    (text ++ rest).takeWhile p = text ∧ (text ++ rest).dropWhile p = rest := by
  rw [List.takeWhile_append_of_pos hp, List.dropWhile_append_of_pos hp]
  cases rest with
  | nil => simp
  | cons c rest =>
    have hc : c = ' ' := by simpa using hrest
    subst hc
    simp [hblank]

theorem reads_number (n : Nat) (digits : List Char) (hne : digits ≠ []) (hdigits : ∀ c ∈ digits, c.isDigit = true)
    (hvalue : Nat.ofDigitChars 10 digits 0 = n) (hquote : names.quote.isDigit = false) :
    Reads names digits [.number n] := by
  obtain ⟨c, cs, rfl⟩ := List.exists_cons_of_ne_nil hne
  have hc := hdigits c List.mem_cons_self
  have hblank : (c :: cs).head? ≠ some ' ' := by
    rw [List.head?_cons]
    rintro ⟨⟩
    cases hc
  refine reads_token hne hblank fun rest hrest => ?_
  obtain ⟨htake, hdrop⟩ := takeWhile_run hdigits rfl hrest
  have hnotQuote : c ≠ names.quote := by
    rintro rfl
    rw [hquote] at hc
    cases hc
  have hends : rest.head?.any (fun e => isWord e || e = '.') = false := by
    cases rest with
    | nil => rfl
    | cons e rest =>
      have he : e = ' ' := by simpa using hrest
      subst he
      rfl
  rw [List.cons_append] at htake hdrop ⊢
  rw [token, if_neg hnotQuote, if_pos hc]
  dsimp only
  rw [hdrop, hends, htake, hvalue]
  rfl

theorem operator_kind {c : Char} (h : isOperator c = true) : c.isDigit = false ∧ isWordStart c = false := by
  have hall : (['<', '>', '=', '-', '+', '*', '/', '%', '!', '&', '|', '^', '~'].all fun e =>
      !e.isDigit && !isWordStart e) = true := by decide
  have hc := List.all_eq_true.mp hall c (by simpa [isOperator] using h)
  simpa using hc

theorem reads_operator {text : List Char} (hne : text ≠ []) (hop : ∀ c ∈ text, isOperator c = true)
    (hcomment : (['-', '-'].isPrefixOf text || ['/', '*'].isPrefixOf text) = false)
    (hquote : isOperator names.quote = false) : Reads names text [.operator text] := by
  obtain ⟨c, cs, rfl⟩ := List.exists_cons_of_ne_nil hne
  have hc := hop c List.mem_cons_self
  have hblank : (c :: cs).head? ≠ some ' ' := by
    rw [List.head?_cons]
    rintro ⟨⟩
    cases hc
  refine reads_token hne hblank fun rest hrest => ?_
  obtain ⟨htake, hdrop⟩ := takeWhile_run hop rfl hrest
  have hnotQuote : c ≠ names.quote := by
    rintro rfl
    rw [hquote] at hc
    cases hc
  have hkind := operator_kind hc
  rw [List.cons_append] at htake hdrop ⊢
  rw [token, if_neg hnotQuote, hkind.1, hkind.2, if_neg Bool.false_ne_true, if_neg Bool.false_ne_true, if_pos hc]
  dsimp only
  rw [htake, hdrop, hcomment]
  rfl

theorem reads_word {text : List Char} {c : Char} {cs : List Char} (htext : text = c :: cs) (hstart : isWordStart c = true)
    (hword : ∀ e ∈ text, isWord e = true) (hdigit : c.isDigit = false) (hquote : isWordStart names.quote = false) :
    Reads names text [.word text] := by
  subst htext
  have hblank : (c :: cs).head? ≠ some ' ' := by
    rw [List.head?_cons]
    rintro ⟨⟩
    cases hstart
  refine reads_token (List.cons_ne_nil _ _) hblank fun rest hrest => ?_
  obtain ⟨htake, hdrop⟩ := takeWhile_run hword rfl hrest
  have hnotQuote : c ≠ names.quote := by
    rintro rfl
    rw [hquote] at hstart
    cases hstart
  rw [List.cons_append] at htake hdrop ⊢
  rw [token, if_neg hnotQuote, hdigit, if_neg Bool.false_ne_true, if_pos hstart, htake, hdrop]

theorem reads_name {spell : Char → List Char} {s : List Char} (hspell : ∀ c ∈ s, names.Spells (spell c) c)
    (hquote : names.quote ≠ ' ') : Reads names (names.quote :: (s.flatMap spell ++ [names.quote])) [.name s] := by
  refine reads_token (List.cons_ne_nil _ _) (by simpa using hquote) fun rest hrest => ?_
  have hends : rest.head? ≠ some names.quote := head?_ne_of_all hrest hquote
  have hbody := Quoting.lexBody_flatMap hspell fun _ => hends
  rw [List.cons_append, List.append_assoc, List.singleton_append, token, if_pos rfl, hbody]
  rfl

/-- A sign in front of a number. -/
theorem Reads.negative {digits : List Char} {n : Nat} (h : Reads names digits [.number n]) (hne : digits ≠ [])
    (hdigits : ∀ c ∈ digits, c.isDigit = true) (hquote : names.quote ≠ '-') :
    Reads names ('-' :: digits) [.operator ['-'], .number n] := by
  intro rest hrest fuel more hmore
  obtain ⟨c, cs, rfl⟩ := List.exists_cons_of_ne_nil hne
  have hc : isOperator c = false := by
    rw [← Bool.not_eq_true]
    intro hop
    have hdigit := (operator_kind hop).1
    rw [hdigits c List.mem_cons_self] at hdigit
    cases hdigit
  have hminus : token names ('-' :: (c :: cs ++ rest)) = some (.operator ['-'], c :: cs ++ rest) := by
    have hop : isOperator '-' = true := by decide
    rw [token, if_neg (Ne.symm hquote), if_neg (by decide), if_neg (by decide), if_pos hop]
    rw [List.cons_append, List.takeWhile_cons, List.dropWhile_cons, hop, List.takeWhile_cons, List.dropWhile_cons, hc]
    rfl
  have hrestTokens := h rest hrest fuel more hmore
  rw [List.length_cons, ← Nat.add_assoc, List.cons_append, tokensIn, if_neg (by decide), hminus, Option.bind_some,
    hrestTokens]
  rfl

end SqlLexer
