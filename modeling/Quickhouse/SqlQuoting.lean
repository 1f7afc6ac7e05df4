import Quickhouse.Lib.SqlLexer

/-!
# Values as string literals

Each engine's quoting of a value, and the engine's rules for what stands between single quotes.  Whatever the value, its
literal is read as one literal with that value.
-/

namespace Quickhouse

open SqlLexer

/-! ### The engines' string literals -/

/-- PostgreSQL, with `standard_conforming_strings` on. -/
def postgresLiteral : Quoting where
  quote := '\''
  doubled := true
  escape := none
  raw c := c ≠ Char.ofNat 0

def mysqlEscape (e : Char) : Option (List Char) :=
  some (if e = '0' then [Char.ofNat 0] else if e = 'b' then [Char.ofNat 8] else if e = 'n' then ['\n']
    else if e = 'r' then ['\r'] else if e = 't' then ['\t'] else if e = 'Z' then [Char.ofNat 26]
    -- a wildcard of LIKE stays escaped
    else if e = '%' then ['\\', '%'] else if e = '_' then ['\\', '_']
    else [e])

/-- MySQL, without `NO_BACKSLASH_ESCAPES`. -/
def mysqlLiteral : Quoting where
  quote := '\''
  doubled := true
  escape := some mysqlEscape
  raw _ := true

def clickHouseEscape (e : Char) : Option (List Char) :=
  if e = 'x' then none
  else some (if e = 'a' then [Char.ofNat 7] else if e = 'b' then [Char.ofNat 8] else if e = 'e' then [Char.ofNat 27]
    else if e = 'f' then [Char.ofNat 12] else if e = 'n' then ['\n'] else if e = 'r' then ['\r']
    else if e = 't' then ['\t'] else if e = 'v' then [Char.ofNat 11] else if e = '0' then [Char.ofNat 0]
    else if e = 'N' then []
    else if e = '\\' ∨ e = '\'' ∨ e = '"' ∨ e = Char.ofNat 96 ∨ e = '/' ∨ e = '=' ∨ e.toNat < 32 then [e]
    -- any other escape keeps its backslash
    else ['\\', e])

def clickHouseLiteral : Quoting where
  quote := '\''
  doubled := true
  escape := some clickHouseEscape
  raw _ := true

def googleSqlEscape (e : Char) : Option (List Char) :=
  if e = 'a' then some [Char.ofNat 7] else if e = 'b' then some [Char.ofNat 8] else if e = 'f' then some [Char.ofNat 12]
  else if e = 'n' then some ['\n'] else if e = 'r' then some ['\r'] else if e = 't' then some ['\t']
  else if e = 'v' then some [Char.ofNat 11]
  else if e = '\\' ∨ e = '?' ∨ e = '"' ∨ e = '\'' ∨ e = Char.ofNat 96 then some [e]
  else none

/-- BigQuery: a quoted literal stays on its line. -/
def googleSqlLiteral : Quoting where
  quote := '\''
  doubled := false
  escape := some googleSqlEscape
  raw c := c ≠ '\n' && c ≠ '\r'

/-! ### The quoting -/

def replaceAll (c : Char) (with_ : List Char) (s : List Char) : List Char :=
  s.flatMap fun d => if d = c then with_ else [d]

/-- The destinations that keep a state table. -/
inductive StateEngine where
  | clickHouse
  | bigQuery
  deriving DecidableEq, Repr

/-- Each sink's own escaping. -/
def StateEngine.escapeSqlString : StateEngine → List Char → List Char
  | .clickHouse, s => replaceAll '\'' ['\'', '\''] (replaceAll '\\' ['\\', '\\'] s)
  | .bigQuery, s => replaceAll '\r' ['\\', 'r'] (replaceAll '\n' ['\\', 'n']
      (replaceAll '\'' ['\\', '\''] (replaceAll '\\' ['\\', '\\'] s)))

def quoted (text : List Char) : List Char := '\'' :: text ++ ['\'']

def quoteSqlLiteral (m : List Char) : List Char := quoted (replaceAll '\'' ['\'', '\''] m)

def quoteMysqlLiteral (m : List Char) : List Char :=
  quoted (replaceAll '\'' ['\'', '\''] (replaceAll '\\' ['\\', '\\'] m))

def quoteClickhouseLiteral (m : List Char) : List Char :=
  quoted (replaceAll '\'' ['\'', '\''] (replaceAll '\\' ['\\', '\\'] m))

def escapeBigqueryString (s : List Char) : List Char :=
  replaceAll '\r' ['\\', 'r'] (replaceAll '\n' ['\\', 'n'] (replaceAll '\'' ['\\', '\''] (replaceAll '\\' ['\\', '\\'] s)))

/-! ### Each character is spelled by the engine's rules -/

namespace StateEngine

/-- How a sink writes one character. -/
def spell (e : StateEngine) (c : Char) : List Char := e.escapeSqlString [c]

private theorem replaceAll_flatMap (c : Char) (by_ : List Char) (s : List Char) (f : Char → List Char) :
    replaceAll c by_ (s.flatMap f) = s.flatMap fun a => replaceAll c by_ (f a) := List.flatMap_assoc

theorem escapeSqlString_eq (e : StateEngine) (s : List Char) : e.escapeSqlString s = s.flatMap e.spell := by
  have hs : s = s.flatMap fun c => [c] := (List.flatMap_singleton' s).symm
  cases e with
  | clickHouse =>
    conv_lhs => rw [hs]
    dsimp only [escapeSqlString]
    rw [replaceAll_flatMap, replaceAll_flatMap]
    rfl
  | bigQuery =>
    conv_lhs => rw [hs]
    dsimp only [escapeSqlString]
    rw [replaceAll_flatMap, replaceAll_flatMap, replaceAll_flatMap, replaceAll_flatMap]
    rfl

end StateEngine

theorem lex_quoted_append {q : Quoting} (hquote : q.quote = '\'') {spell : Char → List Char} {s rest : List Char}
    (hspell : ∀ c ∈ s, q.Spells (spell c) c) (hrest : rest.head? ≠ some '\'') :
    q.lex (quoted (s.flatMap spell) ++ rest) = some (s, rest) := by
  have hbody := @Quoting.lexBody_flatMap q spell s hspell rest fun _ => by rwa [hquote]
  rw [hquote] at hbody
  unfold quoted
  rw [List.append_assoc, List.cons_append, Quoting.lex, if_pos hquote.symm]
  exact hbody

theorem lex_quoted {q : Quoting} (hquote : q.quote = '\'') {spell : Char → List Char} {s : List Char}
    (hspell : ∀ c ∈ s, q.Spells (spell c) c) : q.lex (quoted (s.flatMap spell)) = some (s, []) := by
  have h := lex_quoted_append hquote hspell (show ([] : List Char).head? ≠ some '\'' by simp)
  rwa [List.append_nil] at h

theorem postgres_spells {c : Char} (h : c ≠ Char.ofNat 0) :
    postgresLiteral.Spells (if c = '\'' then ['\'', '\''] else [c]) c := by
  by_cases hquote : c = '\''
  · subst hquote
    exact .doubled rfl
  · rw [if_neg hquote]
    refine .raw (by simpa [postgresLiteral] using h) ?_ hquote
    unfold Quoting.escapeAt
    split_ifs <;> rfl

/-- Backslashes and quotes are doubled. -/
theorem doubling_spells {q : Quoting} {escape : Char → Option (List Char)} (hquote : q.quote = '\'')
    (hdoubled : q.doubled = true) (hescape : q.escape = some escape) (hslash : escape '\\' = some ['\\'])
    (hraw : ∀ c, q.raw c = true) (c : Char) : q.Spells (StateEngine.clickHouse.spell c) c := by
  by_cases hc : c = '\\'
  · subst hc
    refine .escape ?_ hslash ?_
    · unfold Quoting.escapeAt
      rw [if_pos rfl, hescape]
    · rw [hquote]
      decide
  by_cases hq : c = '\''
  · subst hq
    have h := Quoting.Spells.doubled hdoubled
    rwa [hquote] at h
  · have hspell : StateEngine.clickHouse.spell c = [c] := by
      simp [StateEngine.spell, StateEngine.escapeSqlString, replaceAll, hc, hq]
    rw [hspell]
    refine .raw (hraw c) ?_ (by rwa [hquote])
    unfold Quoting.escapeAt
    rw [if_neg hc]

theorem googleSql_spells (c : Char) : googleSqlLiteral.Spells (StateEngine.bigQuery.spell c) c := by
  by_cases hslash : c = '\\'
  · subst hslash
    exact .escape rfl rfl (by decide)
  by_cases hquote : c = '\''
  · subst hquote
    exact .escape rfl rfl (by decide)
  by_cases hn : c = '\n'
  · subst hn
    exact .escape rfl rfl (by decide)
  by_cases hr : c = '\r'
  · subst hr
    exact .escape rfl rfl (by decide)
  · have hspell : StateEngine.bigQuery.spell c = [c] := by
      simp [StateEngine.spell, StateEngine.escapeSqlString, replaceAll, hslash, hquote, hn, hr]
    rw [hspell]
    refine .raw (by simp [googleSqlLiteral, hn, hr]) ?_ hquote
    unfold Quoting.escapeAt
    rw [if_neg hslash]

namespace StateEngine

/-- The engine's rules for what stands between single quotes. -/
def strings : StateEngine → Quoting
  | .clickHouse => clickHouseLiteral
  | .bigQuery => googleSqlLiteral

theorem strings_quote (e : StateEngine) : e.strings.quote = '\'' := by cases e <;> rfl

theorem spells (e : StateEngine) (c : Char) : e.strings.Spells (e.spell c) c := by
  cases e with
  | clickHouse => exact doubling_spells rfl rfl rfl rfl (fun _ => rfl) c
  | bigQuery => exact googleSql_spells c

/-- What a sink writes between quotes is read by its engine. -/
theorem lex_escaped (e : StateEngine) (s : List Char) {rest : List Char} (hrest : rest.head? ≠ some '\'') :
    e.strings.lex (quoted (e.escapeSqlString s) ++ rest) = some (s, rest) := by
  rw [escapeSqlString_eq]
  exact lex_quoted_append e.strings_quote (fun c _ => e.spells c) hrest

end StateEngine

/-- A value between its quotes is one literal, whatever it holds, and the literal's value is the value. -/
theorem quoted_values_read_back (s : List Char) (h : Char.ofNat 0 ∉ s) :
    postgresLiteral.lex (quoteSqlLiteral s) = some (s, []) ∧
    mysqlLiteral.lex (quoteMysqlLiteral s) = some (s, []) ∧
    clickHouseLiteral.lex (quoteClickhouseLiteral s) = some (s, []) ∧
    clickHouseLiteral.lex (quoted (StateEngine.clickHouse.escapeSqlString s)) = some (s, []) ∧
    googleSqlLiteral.lex (quoted (escapeBigqueryString s)) = some (s, []) ∧
    googleSqlLiteral.lex (quoted (StateEngine.bigQuery.escapeSqlString s)) = some (s, []) := by
  have hpostgres : postgresLiteral.lex (quoteSqlLiteral s) = some (s, []) :=
    lex_quoted rfl fun c hc => postgres_spells (by rintro rfl; exact h hc)
  have hmysql : mysqlLiteral.lex (quoted (s.flatMap StateEngine.clickHouse.spell)) = some (s, []) :=
    lex_quoted rfl fun c _ => doubling_spells rfl rfl rfl rfl (fun _ => rfl) c
  have hclickHouse : clickHouseLiteral.lex (quoted (s.flatMap StateEngine.clickHouse.spell)) = some (s, []) :=
    lex_quoted rfl fun c _ => doubling_spells rfl rfl rfl rfl (fun _ => rfl) c
  have hgoogle : googleSqlLiteral.lex (quoted (s.flatMap StateEngine.bigQuery.spell)) = some (s, []) :=
    lex_quoted rfl fun c _ => googleSql_spells c
  rw [← StateEngine.escapeSqlString_eq] at hmysql hclickHouse hgoogle
  exact ⟨hpostgres, hmysql, hclickHouse, hclickHouse, hgoogle, hgoogle⟩

/-- A quote behind a backslash, at the end of a line. -/
theorem backslash_quote_reads_back :
    mysqlLiteral.lex (quoteMysqlLiteral ['a', '\\', '\'', '\n', '\\']) = some (['a', '\\', '\'', '\n', '\\'], []) :=
  (quoted_values_read_back ['a', '\\', '\'', '\n', '\\'] (by decide)).2.1

end Quickhouse
