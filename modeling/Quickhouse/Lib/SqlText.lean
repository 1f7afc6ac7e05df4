import Mathlib.Data.List.Forall2
import Quickhouse.Lib.SqlLexer

/-!
# Value lists of SQL

The values of an `INSERT`: quoted texts, natural numbers and the current time, separated, up to the closing parenthesis.
A list of values that are each read back is read back (`lexValues_listText`).
-/

namespace SqlText

open SqlLexer

inductive Value where
  | text (s : List Char)
  | number (n : Nat)
  | currentTimestamp
  deriving DecidableEq, Repr

def now : List Char :=
  ['C', 'U', 'R', 'R', 'E', 'N', 'T', '_', 'T', 'I', 'M', 'E', 'S', 'T', 'A', 'M', 'P', '(', ')']

def lexValue (q : Quoting) (text : List Char) : Option (Value × List Char) :=
  if text.head? = some q.quote then (q.lex text).map fun r => (.text r.1, r.2)
  else if now.isPrefixOf text then some (.currentTimestamp, text.drop now.length)
  else if (text.takeWhile Char.isDigit).isEmpty then none
  else some (.number (Nat.ofDigitChars 10 (text.takeWhile Char.isDigit) 0), text.dropWhile Char.isDigit)

def dropSeparator : List Char → Option (List Char)
  | ',' :: ' ' :: rest => some rest
  | _ => none

/-- The rest of a list of `n` values, past its opening parenthesis. -/
def lexValues (q : Quoting) : Nat → List Char → Option (List Value)
  | 0, _ => none
  | 1, text => (lexValue q text).bind fun r => if r.2.head? = some ')' then some [r.1] else none
  | n + 2, text => (lexValue q text).bind fun r => (dropSeparator r.2).bind fun rest =>
      (lexValues q (n + 1) rest).map (r.1 :: ·)

/-- The values, separated, and the closing parenthesis. -/
def listText : List (List Char) → List Char
  | [] => [')']
  | [item] => item ++ [')']
  | item :: items => item ++ ',' :: ' ' :: listText items

/-- The text is read as the value wherever a separator or a closing parenthesis follows. -/
def Reads (q : Quoting) (item : List Char) (v : Value) : Prop :=
  ∀ c rest, c = ',' ∨ c = ')' → lexValue q (item ++ c :: rest) = some (v, c :: rest)

theorem reads_literal {q : Quoting} {spell : Char → List Char} {s : List Char} (hspell : ∀ c ∈ s, q.Spells (spell c) c)
    (hquote : q.quote ≠ ',' ∧ q.quote ≠ ')') : Reads q (q.quote :: s.flatMap spell ++ [q.quote]) (.text s) := by
  intro c rest hc
  have hnext : (c :: rest).head? ≠ some q.quote := by
    rw [List.head?_cons]
    intro h
    obtain rfl := Option.some.inj h
    rcases hc with hc | hc
    · exact hquote.1 hc
    · exact hquote.2 hc
  have hbody : q.lexBody (s.flatMap spell ++ q.quote :: c :: rest) = some (s, c :: rest) :=
    Quoting.lexBody_flatMap hspell fun _ => hnext
  have htext : q.quote :: s.flatMap spell ++ [q.quote] ++ c :: rest =
      q.quote :: (s.flatMap spell ++ q.quote :: c :: rest) := by simp
  unfold lexValue
  rw [htext, if_pos List.head?_cons, Quoting.lex, if_pos rfl, hbody]
  rfl

theorem reads_now {q : Quoting} (hquote : q.quote ≠ 'C') : Reads q now .currentTimestamp := by
  intro c rest _
  have hprefix : now.isPrefixOf (now ++ c :: rest) = true := by
    rw [List.isPrefixOf_iff_prefix]
    exact List.prefix_append _ _
  have hfirst : (now ++ c :: rest).head? ≠ some q.quote := by
    intro h
    exact hquote (Option.some.inj h).symm
  unfold lexValue
  rw [if_neg hfirst, if_pos hprefix, List.drop_left]

theorem reads_number {q : Quoting} (hquote : q.quote.isDigit = false) (n : Nat) :
    Reads q (Nat.toDigits 10 n) (.number n) := by
  intro c rest hc
  have hdigits : ∀ e ∈ Nat.toDigits 10 n, e.isDigit = true := fun e he =>
    Nat.isDigit_of_mem_toDigits (by decide) (by decide) he
  have hstop : c.isDigit = false := by rcases hc with rfl | rfl <;> rfl
  have htake : (Nat.toDigits 10 n ++ c :: rest).takeWhile Char.isDigit = Nat.toDigits 10 n := by
    rw [List.takeWhile_append_of_pos hdigits, List.takeWhile_cons, hstop]
    simp
  have hdrop : (Nat.toDigits 10 n ++ c :: rest).dropWhile Char.isDigit = c :: rest := by
    rw [List.dropWhile_append_of_pos hdigits, List.dropWhile_cons, hstop]
    rfl
  obtain ⟨e, es, hes⟩ := List.exists_cons_of_ne_nil (Nat.toDigits_ne_nil (n := n) (b := 10))
  have he : e.isDigit = true := hdigits e (by rw [hes]; exact List.mem_cons_self)
  have hfirst : (Nat.toDigits 10 n ++ c :: rest).head? ≠ some q.quote := by
    rw [hes]
    intro h
    obtain rfl := Option.some.inj h
    rw [hquote] at he
    cases he
  have hnow : now.isPrefixOf (Nat.toDigits 10 n ++ c :: rest) = false := by
    rw [hes]
    have hC : ('C' == e) = false := by
      rw [beq_eq_false_iff_ne]
      rintro rfl
      cases he
    rw [now, List.cons_append, List.isPrefixOf, hC, Bool.false_and]
  unfold lexValue
  rw [if_neg hfirst, hnow, if_neg Bool.false_ne_true, htake, hdrop, Nat.ofDigitChars_ten_toDigits]
  rw [if_neg (by rw [hes]; simp)]

/-- A list of values that are each read back is read back. -/
theorem lexValues_listText {q : Quoting} {items : List (List Char)} {vs : List Value}
    (h : List.Forall₂ (Reads q) items vs) (hne : items ≠ []) : lexValues q items.length (listText items) = some vs := by
  induction h with
  | nil => exact absurd rfl hne
  | @cons item v items vs hitem hrest ih =>
    cases hrest with
    | nil =>
      rw [List.length_singleton, listText, lexValues, hitem ')' [] (.inr rfl)]
      rfl
    | @cons item' v' items vs hitem' hrest =>
      have ih := ih (List.cons_ne_nil _ _)
      rw [List.length_cons] at ih
      rw [List.length_cons, List.length_cons, listText, lexValues, hitem ',' _ (.inl rfl), Option.bind_some,
        dropSeparator, Option.bind_some, ih]
      · rfl
      · exact List.cons_ne_nil _ _

end SqlText
