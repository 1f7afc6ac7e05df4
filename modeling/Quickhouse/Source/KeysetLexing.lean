import Quickhouse.Lib.MachineInt
import Quickhouse.Source.Partitions
import Quickhouse.SqlQuoting

/-!
# What a keyset predicate says

The predicate is lexed by the engine's rules: it is comparisons of the key column with integers, whatever the texts of
the bounds are.  A text that is no integer becomes the least key, which as a lower bound alone lets every other key
through.
-/

namespace Quickhouse

open SqlLexer MachineInt

/-! ### Names -/

/-- The engines that a keyset read runs on. -/
inductive KeysetEngine where
  | postgres
  | mySql
  | clickHouse
  deriving DecidableEq, Repr

def backquote : Char := Char.ofNat 96

def quoteMy (name : String) : String :=
  String.ofList (backquote :: (replaceAll backquote [backquote, backquote] name.toList ++ [backquote]))

def quoteIdent (name : String) : String :=
  String.ofList (backquote :: (replaceAll backquote ['\\', backquote] (replaceAll '\\' ['\\', '\\'] name.toList) ++ [backquote]))

namespace KeysetEngine

def quoteName : KeysetEngine → String → String
  | postgres => quotePg
  | mySql => quoteMy
  | clickHouse => quoteIdent

/-- The engine's quoted names. -/
def names : KeysetEngine → Quoting
  | postgres => { quote := '"', doubled := true, escape := none, raw := fun _ => true }
  | mySql => { quote := backquote, doubled := true, escape := none, raw := fun _ => true }
  | clickHouse => { quote := backquote, doubled := true, escape := some clickHouseEscape, raw := fun _ => true }

/-- How one character of a name is written. -/
def spellName : KeysetEngine → Char → List Char
  | postgres, c => if c = '"' then ['"', '"'] else [c]
  | mySql, c => if c = backquote then [backquote, backquote] else [c]
  | clickHouse, c => if c = '\\' then ['\\', '\\'] else if c = backquote then ['\\', backquote] else [c]

theorem spells_name (e : KeysetEngine) (c : Char) : e.names.Spells (e.spellName c) c := by
  cases e with
  | postgres =>
    dsimp only [spellName]
    split_ifs with hquote
    · rw [hquote]
      exact .doubled rfl
    · refine .raw rfl ?_ hquote
      unfold Quoting.escapeAt
      split_ifs <;> rfl
  | mySql =>
    dsimp only [spellName]
    split_ifs with hquote
    · rw [hquote]
      exact .doubled rfl
    · refine .raw rfl ?_ hquote
      unfold Quoting.escapeAt
      split_ifs <;> rfl
  | clickHouse =>
    dsimp only [spellName]
    split_ifs with hslash hquote
    · rw [hslash]
      exact .escape rfl rfl (by decide)
    · rw [hquote]
      exact .escape rfl rfl (by decide)
    · refine .raw rfl ?_ hquote
      unfold Quoting.escapeAt
      rw [if_neg hslash]

theorem quoteName_toList (e : KeysetEngine) (name : String) :
    (e.quoteName name).toList = e.names.quote :: (name.toList.flatMap e.spellName ++ [e.names.quote]) := by
  cases e with
  | postgres =>
    show ("\"" ++ String.ofList _ ++ "\"").toList = _
    simp only [String.toList_append, String.toList_ofList]
    rfl
  | mySql => exact String.toList_ofList
  | clickHouse =>
    have hone : ∀ c, replaceAll backquote ['\\', backquote] (if c = '\\' then ['\\', '\\'] else [c]) =
        spellName .clickHouse c := by
      intro c
      dsimp only [spellName]
      by_cases hslash : c = '\\'
      · rw [if_pos hslash, if_pos hslash]
        rfl
      · rw [if_neg hslash, if_neg hslash]
        exact List.append_nil _
    show (String.ofList _).toList = _
    rw [String.toList_ofList]
    unfold replaceAll at hone ⊢
    rw [List.flatMap_assoc]
    simp only [hone]
    rfl

theorem reads_quoteName (e : KeysetEngine) (name : String) :
    Reads e.names (e.quoteName name).toList [.name name.toList] := by
  rw [quoteName_toList]
  exact reads_name (fun c _ => e.spells_name c) (by cases e <;> decide)

end KeysetEngine

/-! ### Comparisons -/

inductive Comparison where
  | above (column : String) (literal : Int)
  | upTo (column : String) (literal : Int)
  deriving DecidableEq, Repr

namespace Comparison

def column : Comparison → String
  | above column _ | upTo column _ => column

def holds (key : Int) : Comparison → Bool
  | above _ literal => literal < key
  | upTo _ literal => key ≤ literal

end Comparison

/-- An integer, its sign in front. -/
def readInteger : List Token → Option (Int × List Token)
  | .operator ['-'] :: .number n :: rest => some (-(n : Int), rest)
  | .number n :: rest => some ((n : Int), rest)
  | _ => none

def readComparison : List Token → Option (Comparison × List Token)
  | .name column :: .operator ['>'] :: rest =>
    (readInteger rest).map fun r => (.above (String.ofList column) r.1, r.2)
  | .name column :: .operator ['<', '='] :: rest =>
    (readInteger rest).map fun r => (.upTo (String.ofList column) r.1, r.2)
  | _ => none

/-- Comparisons, `AND` between them. -/
def readConjunction : (fuel : Nat) → List Token → Option (List Comparison)
  | 0, _ => none
  | fuel + 1, ts => do
    let (c, rest) ← readComparison ts
    match rest with
    | [] => some [c]
    | .word ['A', 'N', 'D'] :: rest => (readConjunction fuel rest).map (c :: ·)
    | _ => none

def readPredicate (e : KeysetEngine) (text : String) : Option (List Comparison) := do
  let ts ← tokens e.names text.toList
  readConjunction ts.length ts

/-- What the keyset adds to the condition of the read. -/
def Keyset.reading (e : KeysetEngine) (k : Keyset) : Option (List Comparison) :=
  match keysetPredicate k with
  | none => some []
  | some text => readPredicate e text

/-! ### Literals -/

def literalTokens (v : String) : List Token :=
  match v.toList with
  | '-' :: digits => [.operator ['-'], .number (Nat.ofDigitChars 10 digits 0)]
  | digits => [.number (Nat.ofDigitChars 10 digits 0)]

theorem literalTokens_negative {v : String} {digits : List Char} (h : v.toList = '-' :: digits) :
    literalTokens v = [.operator ['-'], .number (Nat.ofDigitChars 10 digits 0)] := by
  unfold literalTokens
  simp only [h]

theorem literalTokens_positive {v : String} (h : ∀ digits, v.toList ≠ '-' :: digits) :
    literalTokens v = [.number (Nat.ofDigitChars 10 v.toList 0)] := by
  unfold literalTokens
  split
  · rename_i digits hv
    exact absurd hv (h digits)
  · rfl

theorem literalValue_negative {v : String} {digits : List Char} (h : v.toList = '-' :: digits) :
    literalValue v = -Nat.ofDigitChars 10 digits 0 := by
  unfold literalValue
  simp only [h]

theorem literalValue_positive {v : String} (h : ∀ digits, v.toList ≠ '-' :: digits) :
    literalValue v = Nat.ofDigitChars 10 v.toList 0 := by
  unfold literalValue
  split
  · rename_i digits hv
    exact absurd hv (h digits)
  · rfl

theorem readInteger_literalTokens (v : String) (rest : List Token) :
    readInteger (literalTokens v ++ rest) = some (literalValue v, rest) := by
  by_cases hv : ∃ digits, v.toList = '-' :: digits
  · obtain ⟨digits, hv⟩ := hv
    rw [literalTokens_negative hv, literalValue_negative hv]
    rfl
  · have hv := not_exists.mp hv
    rw [literalTokens_positive hv, literalValue_positive hv]
    rfl

theorem isBareInteger_integerLiteral (v : String) : isBareInteger (integerLiteral v) = true := by
  unfold integerLiteral
  split_ifs with h
  · exact h
  · decide

theorem reads_literalTokens (e : KeysetEngine) {v : String} (h : isBareInteger v = true) :
    Reads e.names v.toList (literalTokens v) := by
  have hquote : e.names.quote.isDigit = false ∧ e.names.quote ≠ '-' := by cases e <;> decide
  by_cases hv : ∃ digits, v.toList = '-' :: digits
  · obtain ⟨digits, hv⟩ := hv
    rw [literalTokens_negative hv, hv]
    unfold isBareInteger at h
    rw [hv] at h
    simp only [Bool.and_eq_true, Bool.not_eq_true', List.isEmpty_eq_false_iff, List.all_eq_true] at h
    exact (reads_number _ digits h.1 h.2 rfl hquote.1).negative h.1 h.2 hquote.2
  · have hv := not_exists.mp hv
    rw [literalTokens_positive hv]
    unfold isBareInteger at h
    split at h
    · rename_i digits hdigits
      exact absurd hdigits (hv digits)
    · simp only [Bool.and_eq_true, Bool.not_eq_true', List.isEmpty_eq_false_iff, List.all_eq_true] at h
      exact reads_number _ _ h.1 h.2 rfl hquote.1

/-! ### The predicate is read back -/

/-- The comparison that a condition is. -/
def KeysetCond.comparison (column : String) : KeysetCond → Comparison
  | .above literal => .above column (literalValue literal)
  | .upTo literal => .upTo column (literalValue literal)

def KeysetCond.literal : KeysetCond → String
  | .above literal | .upTo literal => literal

def KeysetCond.tokens (column : String) : KeysetCond → List Token
  | .above literal => .name column.toList :: .operator ['>'] :: literalTokens literal
  | .upTo literal => .name column.toList :: .operator ['<', '='] :: literalTokens literal

theorem readComparison_tokens (column : String) (c : KeysetCond) (rest : List Token) :
    readComparison (c.tokens column ++ rest) = some (c.comparison column, rest) := by
  cases c with
  | above literal =>
    show (readInteger (literalTokens literal ++ rest)).map _ = _
    rw [readInteger_literalTokens, Option.map_some, String.ofList_toList]
    rfl
  | upTo literal =>
    show (readInteger (literalTokens literal ++ rest)).map _ = _
    rw [readInteger_literalTokens, Option.map_some, String.ofList_toList]
    rfl

theorem reads_sql (e : KeysetEngine) (column : String) {c : KeysetCond} (h : isBareInteger c.literal = true) :
    Reads e.names (c.sql (e.quoteName column)).toList (c.tokens column) := by
  have hname := e.reads_quoteName column
  have hquote : isOperator e.names.quote = false := by cases e <;> decide
  have hliteral := reads_literalTokens e h
  cases c with
  | above literal =>
    have hop : Reads e.names ['>'] [.operator ['>']] := reads_operator (by simp) (List.all_eq_true.mp (by decide)) rfl hquote
    have hall := hname.append (hop.append hliteral)
    unfold KeysetCond.sql
    simpa [String.toList_append, KeysetCond.tokens, KeysetCond.literal] using hall
  | upTo literal =>
    have hop : Reads e.names ['<', '='] [.operator ['<', '=']] := reads_operator (by simp) (List.all_eq_true.mp (by decide)) rfl hquote
    have hall := hname.append (hop.append hliteral)
    unfold KeysetCond.sql
    simpa [String.toList_append, KeysetCond.tokens, KeysetCond.literal] using hall

theorem conds_bare (k : Keyset) : ∀ c ∈ k.conds, isBareInteger c.literal = true := by
  intro c hc
  unfold Keyset.conds at hc
  rcases List.mem_append.mp hc with hc | hc
  · obtain ⟨v, -, rfl⟩ := Option.map_eq_some_iff.mp (Option.mem_toList.mp hc)
    exact isBareInteger_integerLiteral v
  · cases hbound : k.bound with
    | orderedLimit n =>
      rw [hbound] at hc
      cases hc
    | upperBound hi =>
      rw [hbound] at hc
      obtain rfl := List.mem_singleton.mp hc
      exact isBareInteger_integerLiteral hi

theorem conds_length (k : Keyset) : k.conds.length ≤ 2 := by
  unfold Keyset.conds
  cases k.cursor with
  | none => cases k.bound <;> simp
  | some cursor => cases k.bound <;> simp

theorem reads_and (e : KeysetEngine) : Reads e.names ['A', 'N', 'D'] [.word ['A', 'N', 'D']] :=
  reads_word rfl (by decide) (List.all_eq_true.mp (by decide)) (by decide) (by cases e <;> decide)

theorem readConjunction_one (column : String) (c : KeysetCond) (fuel : Nat) :
    readConjunction (fuel + 1) (c.tokens column) = some [c.comparison column] := by
  have h := readComparison_tokens column c []
  rw [List.append_nil] at h
  rw [readConjunction, h]
  rfl

theorem readConjunction_two (column : String) (c d : KeysetCond) (fuel : Nat) :
    readConjunction (fuel + 2) (c.tokens column ++ .word ['A', 'N', 'D'] :: d.tokens column) =
      some [c.comparison column, d.comparison column] := by
  rw [readConjunction, readComparison_tokens]
  show (readConjunction (fuel + 1) (d.tokens column)).map _ = _
  rw [readConjunction_one]
  rfl

theorem tokens_length (column : String) (c : KeysetCond) : 2 ≤ (c.tokens column).length := by
  cases c with
  | above literal => exact Nat.le_add_left 2 _
  | upTo literal => exact Nat.le_add_left 2 _

/-- The predicate is the conditions on the key column, and nothing else. -/
theorem reading_eq (e : KeysetEngine) (column : String) {k : Keyset} (h : k.colQuoted = e.quoteName column) :
    k.reading e = some (k.conds.map (KeysetCond.comparison column)) := by
  have hbare := conds_bare k
  have hlength := conds_length k
  unfold Keyset.reading keysetPredicate
  rw [h]
  match hconds : k.conds with
  | [] => rfl
  | [c] =>
    rw [hconds] at hbare
    have hc := reads_sql e column (hbare c List.mem_cons_self)
    obtain ⟨fuel, hfuel⟩ : ∃ fuel, (c.tokens column).length = fuel + 1 :=
      ⟨(c.tokens column).length - 1, by have := tokens_length column c; omega⟩
    show readPredicate e (c.sql (e.quoteName column)) = _
    unfold readPredicate
    rw [hc.tokens]
    show readConjunction (c.tokens column).length (c.tokens column) = _
    rw [hfuel, readConjunction_one]
    rfl
  | [c, d] =>
    rw [hconds] at hbare
    have hc := reads_sql e column (hbare c List.mem_cons_self)
    have hd := reads_sql e column (hbare d (List.mem_cons_of_mem _ List.mem_cons_self))
    have hall := hc.append ((reads_and e).append hd)
    have htext : (" AND ".intercalate [c.sql (e.quoteName column), d.sql (e.quoteName column)]).toList =
        (c.sql (e.quoteName column)).toList ++ ' ' :: (['A', 'N', 'D'] ++ ' ' :: (d.sql (e.quoteName column)).toList) := by
      show (c.sql (e.quoteName column) ++ " AND " ++ d.sql (e.quoteName column)).toList = _
      rw [String.toList_append, String.toList_append, List.append_assoc]
      rfl
    obtain ⟨fuel, hfuel⟩ : ∃ fuel,
        (c.tokens column ++ .word ['A', 'N', 'D'] :: d.tokens column).length = fuel + 2 :=
      ⟨(c.tokens column ++ .word ['A', 'N', 'D'] :: d.tokens column).length - 2, by
        have := tokens_length column c
        rw [List.length_append]
        omega⟩
    show readPredicate e (" AND ".intercalate [c.sql (e.quoteName column), d.sql (e.quoteName column)]) = _
    unfold readPredicate
    rw [htext, hall.tokens]
    show readConjunction (c.tokens column ++ .word ['A', 'N', 'D'] :: d.tokens column).length
      (c.tokens column ++ .word ['A', 'N', 'D'] :: d.tokens column) = _
    rw [hfuel, readConjunction_two]
    rfl
  | c :: d :: f :: rest =>
    rw [hconds] at hlength
    simp at hlength

/-! ### The keys that are read -/

def selects (cs : List Comparison) (key : Int) : Bool := cs.all (Comparison.holds key)

namespace Keyset

def upper (k : Keyset) : Option String :=
  match k.bound with
  | .upperBound hi => some hi
  | .orderedLimit _ => none

/-- The texts of the bounds are integers. -/
def BareBounds (k : Keyset) : Prop :=
  (∀ cursor, k.cursor = some cursor → isBareInteger cursor = true) ∧ ∀ hi, k.upper = some hi → isBareInteger hi = true

/-- The condition of the read is comparisons of the key column; integers bound the keys from above the cursor up to the
window's end, and anything else lets no key through. -/
def Guarded (e : KeysetEngine) (column : String) (k : Keyset) : Prop :=
  ∃ cs, k.reading e = some cs ∧ (∀ c ∈ cs, c.column = column) ∧
    cs.length = k.cursor.toList.length + k.upper.toList.length ∧
    (k.BareBounds → ∀ key, i64Min ≤ key → (selects cs key = true ↔
      (∀ cursor, k.cursor = some cursor → literalValue cursor < key) ∧
        ∀ hi, k.upper = some hi → key ≤ literalValue hi)) ∧
    (¬k.BareBounds → ∀ key, i64Min ≤ key → selects cs key = false)

/-- No key is above a text that is no integer and up to the other bound, or above the other and up to it. -/
def Shut (k : Keyset) : Prop :=
  ∃ cursor hi, k.cursor = some cursor ∧ k.upper = some hi ∧
    (isBareInteger cursor = false ∧ (isBareInteger hi = false ∨ literalValue hi ≤ i64Min) ∨
      isBareInteger hi = false ∧ i64Min ≤ literalValue cursor)

/-- The bound that a text becomes. -/
def boundOf (text : String) : Int := literalValue (integerLiteral text)

theorem boundOf_bare {text : String} (h : isBareInteger text = true) : boundOf text = literalValue text := by
  unfold boundOf integerLiteral
  rw [if_pos h]

theorem boundOf_other {text : String} (h : isBareInteger text = false) : boundOf text = i64Min := by
  unfold boundOf integerLiteral
  rw [if_neg (by rw [h]; exact Bool.false_ne_true)]
  decide

theorem selects_conds (column : String) (k : Keyset) (key : Int) :
    selects (k.conds.map (KeysetCond.comparison column)) key = true ↔
      (∀ cursor, k.cursor = some cursor → boundOf cursor < key) ∧ ∀ hi, k.upper = some hi → key ≤ boundOf hi := by
  unfold selects conds upper boundOf
  cases k.cursor with
  | none =>
    cases k.bound with
    | upperBound hi => simp [KeysetCond.comparison, Comparison.holds]
    | orderedLimit n => simp
  | some cursor =>
    cases k.bound with
    | upperBound hi => simp [KeysetCond.comparison, Comparison.holds]
    | orderedLimit n => simp [KeysetCond.comparison, Comparison.holds]

theorem conds_column (column : String) (k : Keyset) :
    (∀ c ∈ k.conds.map (KeysetCond.comparison column), c.column = column) ∧
      (k.conds.map (KeysetCond.comparison column)).length = k.cursor.toList.length + k.upper.toList.length := by
  unfold conds upper
  cases k.cursor with
  | none => cases k.bound <;> simp [KeysetCond.comparison, Comparison.column]
  | some cursor => cases k.bound <;> simp [KeysetCond.comparison, Comparison.column]

theorem selects_bare {column : String} {k : Keyset} (h : k.BareBounds) (key : Int) :
    selects (k.conds.map (KeysetCond.comparison column)) key = true ↔
      (∀ cursor, k.cursor = some cursor → literalValue cursor < key) ∧
        ∀ hi, k.upper = some hi → key ≤ literalValue hi := by
  rw [selects_conds]
  constructor
  · rintro ⟨hlow, hhigh⟩
    constructor
    · intro cursor hc
      rw [← boundOf_bare (h.1 cursor hc)]
      exact hlow cursor hc
    · intro hi hhi
      rw [← boundOf_bare (h.2 hi hhi)]
      exact hhigh hi hhi
  · rintro ⟨hlow, hhigh⟩
    constructor
    · intro cursor hc
      rw [boundOf_bare (h.1 cursor hc)]
      exact hlow cursor hc
    · intro hi hhi
      rw [boundOf_bare (h.2 hi hhi)]
      exact hhigh hi hhi

/-- With a text that is no integer, no key is read exactly when the other bound shuts the range. -/
theorem selects_none_iff {column : String} {k : Keyset} (h : ¬k.BareBounds) :
    (∀ key, i64Min ≤ key → selects (k.conds.map (KeysetCond.comparison column)) key = false) ↔ k.Shut := by
  have hsel : (∀ key, i64Min ≤ key → selects (k.conds.map (KeysetCond.comparison column)) key = false) ↔
      ∀ key, i64Min ≤ key → ¬((∀ cursor, k.cursor = some cursor → boundOf cursor < key) ∧
        ∀ hi, k.upper = some hi → key ≤ boundOf hi) := by
    simp only [← Bool.not_eq_true, selects_conds]
  rw [hsel]
  have hbare : (∀ cursor, k.cursor = some cursor → isBareInteger cursor = true) →
      ∃ hi, k.upper = some hi ∧ isBareInteger hi = false := by
    intro hcursor
    by_contra hnone
    push Not at hnone
    exact h ⟨hcursor, fun hi hhi => Bool.not_eq_false _ ▸ hnone hi hhi⟩
  constructor
  · intro hnone
    unfold Shut
    cases hcursor : k.cursor with
    | none =>
      -- no lower bound: the least key is up to the literal
      rw [hcursor] at hnone
      obtain ⟨hi, hhi, hbad⟩ := hbare (by rw [hcursor]; exact nofun)
      refine absurd ⟨nofun, ?_⟩ (hnone i64Min (le_refl _))
      intro hi' hhi'
      obtain rfl := Option.some.inj (hhi.symm.trans hhi')
      rw [boundOf_other hbad]
    | some cursor =>
      by_cases hint : isBareInteger cursor = true
      · obtain ⟨hi, hhi, hbad⟩ := hbare (by rintro _ hc; obtain rfl := Option.some.inj (hcursor.symm.trans hc); exact hint)
        refine ⟨cursor, hi, rfl, hhi, .inr ⟨hbad, ?_⟩⟩
        by_contra hlow
        refine hnone i64Min (le_refl _) ⟨?_, ?_⟩
        · intro cursor' hc
          obtain rfl := Option.some.inj (hcursor.symm.trans hc)
          rw [boundOf_bare hint]
          omega
        · intro hi' hhi'
          obtain rfl := Option.some.inj (hhi.symm.trans hhi')
          rw [boundOf_other hbad]
      · rw [Bool.not_eq_true] at hint
        -- the key after the least one is above the literal
        have hnext : ¬∀ hi, k.upper = some hi → i64Min + 1 ≤ boundOf hi := by
          intro hhigh
          refine hnone (i64Min + 1) (by omega) ⟨?_, hhigh⟩
          intro cursor' hc
          obtain rfl := Option.some.inj (hcursor.symm.trans hc)
          rw [boundOf_other hint]
          omega
        push Not at hnext
        obtain ⟨hi, hhi, hbelow⟩ := hnext
        refine ⟨cursor, hi, rfl, hhi, .inl ⟨hint, ?_⟩⟩
        by_cases hhigh : isBareInteger hi = true
        · rw [boundOf_bare hhigh] at hbelow
          exact .inr (by omega)
        · exact .inl (Bool.not_eq_true _ ▸ hhigh)
  · rintro ⟨cursor, hi, hcursor, hhi, hshut⟩ key hkey ⟨hlow, hhigh⟩
    have hlow := hlow cursor hcursor
    have hhigh := hhigh hi hhi
    rcases hshut with ⟨hbad, hbad' | hleast⟩ | ⟨hbad, hleast⟩
    · rw [boundOf_other hbad] at hlow
      rw [boundOf_other hbad'] at hhigh
      omega
    · rw [boundOf_other hbad] at hlow
      by_cases hint : isBareInteger hi = true
      · rw [boundOf_bare hint] at hhigh
        omega
      · rw [boundOf_other (Bool.not_eq_true _ ▸ hint)] at hhigh
        omega
    · rw [boundOf_other hbad] at hhigh
      by_cases hint : isBareInteger cursor = true
      · rw [boundOf_bare hint] at hlow
        omega
      · rw [boundOf_other (Bool.not_eq_true _ ▸ hint)] at hlow
        omega

end Keyset

/-- The predicate keeps the promise exactly when both texts are integers, or one is not and the other shuts the range. -/
theorem keyset_guarded_iff (e : KeysetEngine) (column : String) (cursor : Option String) (bound : KeysetBound) :
    Keyset.Guarded e column ⟨e.quoteName column, cursor, bound⟩ ↔
      Keyset.BareBounds ⟨e.quoteName column, cursor, bound⟩ ∨ Keyset.Shut ⟨e.quoteName column, cursor, bound⟩ := by
  generalize hk : (⟨e.quoteName column, cursor, bound⟩ : Keyset) = k
  have hreading := reading_eq e column (k := k) (by rw [← hk])
  obtain ⟨hcolumn, hlength⟩ := Keyset.conds_column column k
  constructor
  · rintro ⟨cs, hcs, -, -, -, hnone⟩
    obtain rfl := Option.some.inj (hreading.symm.trans hcs)
    by_cases hbare : k.BareBounds
    · exact .inl hbare
    · exact .inr ((Keyset.selects_none_iff hbare).mp (hnone hbare))
  · intro h
    refine ⟨_, hreading, hcolumn, hlength, ?_, ?_⟩
    · intro hbare key _
      exact Keyset.selects_bare hbare key
    · intro hbare
      exact (Keyset.selects_none_iff hbare).mpr (h.resolve_left hbare)

/-- A cursor that is no integer, as a lower bound alone, lets the key 1 through. -/
theorem injected_cursor_reads_on :
    ¬Keyset.Guarded .mySql "id"
      ⟨KeysetEngine.mySql.quoteName "id", some "0 UNION ALL SELECT password FROM secrets", .orderedLimit 1000⟩ := by
  rintro ⟨cs, hcs, -, -, -, hnone⟩
  have hreading := reading_eq .mySql "id"
    (k := ⟨KeysetEngine.mySql.quoteName "id", some "0 UNION ALL SELECT password FROM secrets", .orderedLimit 1000⟩) rfl
  obtain rfl := Option.some.inj (hreading.symm.trans hcs)
  have hbad : isBareInteger "0 UNION ALL SELECT password FROM secrets" = false := by decide
  have hread := hnone (fun hbare => Bool.false_ne_true (hbad.symm.trans (hbare.1 _ rfl))) 1 (by decide)
  revert hread
  decide

end Quickhouse
