import Mathlib.Data.List.DropRight
import Mathlib.Data.List.TakeWhile
import Mathlib.Data.String.Basic

/-!
# Characters and names

The character classes and foldings of the standard library that the model needs, and its functions on pieces of a
text, on lists of characters.
-/

namespace Text

/-- The characters of the Unicode property `White_Space`. -/
def isWhitespace (c : Char) : Bool :=
  let n := c.toNat
  (9 ≤ n && n ≤ 13) || n = 0x20 || n = 0x85 || n = 0xa0 || n = 0x1680 || (0x2000 ≤ n && n ≤ 0x200a) ||
    n = 0x2028 || n = 0x2029 || n = 0x202f || n = 0x205f || n = 0x3000

/-- Nothing but white space. -/
def isBlank (s : String) : Bool := s.toList.all isWhitespace

/-- The name with its ASCII letters in lower case: names equal up to ASCII case have one image. -/
def asciiLower (s : String) : String := String.ofList (s.toList.map Char.toLower)

def trimEnd (s : List Char) : List Char := (s.reverse.dropWhile isWhitespace).reverse

/-- Without its white space at both ends. -/
def trim (s : List Char) : List Char := trimEnd (s.dropWhile isWhitespace)

def stripPrefix (start : String) (s : List Char) : Option (List Char) :=
  if start.toList.isPrefixOf s then some (s.drop start.toList.length) else none

def stripSuffix (ending : String) (s : List Char) : Option (List Char) :=
  if ending.toList.isSuffixOf s then some (s.take (s.length - ending.toList.length)) else none

/-- What stands before and after the first `c`. -/
def splitOnce (c : Char) (s : List Char) : Option (List Char × List Char) :=
  if c ∈ s then some (s.takeWhile (· ≠ c), (s.dropWhile (· ≠ c)).drop 1) else none

def contains (part : String) (s : List Char) : Bool := s.tails.any (part.toList.isPrefixOf ·)

/-- The lines of a text, without their ends. -/
def lines (s : List Char) : List (List Char) :=
  let parts := s.splitOn '\n'
  -- what stands after the last line feed is a line only when it is not empty
  parts.dropLast.map (fun l => (stripSuffix "\r" l).getD l) ++ parts.getLast?.toList.filter (· ≠ [])

/-- A run of decimal digits, at least one. -/
def parseDigits (s : List Char) : Option Nat :=
  if !s.isEmpty && s.all Char.isDigit then some (s.foldl (fun n d => 10 * n + (d.toNat - '0'.toNat)) 0) else none

/-- An unsigned number of the standard library: a plus sign is allowed. -/
def parseUnsigned (max : Nat) (s : List Char) : Option Nat :=
  (parseDigits ((stripPrefix "+" s).getD s)).filter (· ≤ max)

def parseSigned (min max : Int) (s : List Char) : Option Int :=
  (match stripPrefix "-" s with
    | some digits => (parseDigits digits).map fun n => -(n : Int)
    | none => (parseDigits ((stripPrefix "+" s).getD s)).map fun n => (n : Int)).filter
      fun n => decide (min ≤ n ∧ n ≤ max)

/-! ### Pieces of a text -/

theorem stripPrefix_append (start : String) (rest : List Char) :
    stripPrefix start (start.toList ++ rest) = some rest := by
  unfold stripPrefix
  rw [if_pos (List.isPrefixOf_iff_prefix.mpr (List.prefix_append _ _)), List.drop_left]

theorem stripPrefix_of_head {start : String} {c : Char} {s : List Char} (hstart : start.toList = [c])
    (h : s.head? ≠ some c) : stripPrefix start s = none := by
  unfold stripPrefix
  rw [hstart, if_neg]
  intro hprefix
  obtain ⟨rest, rfl⟩ := List.isPrefixOf_iff_prefix.mp hprefix
  exact h rfl

theorem splitOnce_of_not_mem {c : Char} {s : List Char} (h : c ∉ s) : splitOnce c s = none := if_neg h

theorem splitOnce_append {c : Char} {before : List Char} (h : c ∉ before) (after : List Char) :
    splitOnce c (before ++ c :: after) = some (before, after) := by
  have hbefore : ∀ e ∈ before, decide (e ≠ c) = true := fun e he => by
    rw [decide_eq_true_eq]
    rintro rfl
    exact h he
  unfold splitOnce
  rw [if_pos (by simp), List.takeWhile_append_of_pos hbefore, List.dropWhile_append_of_pos hbefore]
  simp

theorem splitOnce_eq_some {c : Char} {s before after : List Char} (h : splitOnce c s = some (before, after)) :
    c ∉ before ∧ s = before ++ c :: after := by
  unfold splitOnce at h
  split_ifs at h with hc
  obtain ⟨rfl, rfl⟩ := Prod.mk.inj (Option.some.inj h)
  refine ⟨fun hmem => ?_, ?_⟩
  · have := List.mem_takeWhile_imp hmem
    simp at this
  · cases hdrop : s.dropWhile (· ≠ c) with
    | nil =>
      have := List.dropWhile_eq_nil_iff.mp hdrop c hc
      simp at this
    | cons d rest =>
      have hd : d = c := by
        have := List.head?_dropWhile_not (p := (· ≠ c)) s
        rw [hdrop] at this
        simpa using this
      have hsplit := List.takeWhile_append_dropWhile (p := (· ≠ c)) (l := s)
      rw [hdrop, hd] at hsplit
      exact hsplit.symm

theorem splitOn_ended {ls : List (List Char)} (h : ∀ l ∈ ls, '\n' ∉ l) :
    (ls.flatMap (· ++ ['\n'])).splitOn '\n' = ls ++ [[]] := by
  induction ls with
  | nil => exact List.splitOn_nil _
  | cons l ls ih =>
    rw [List.flatMap_cons, List.append_assoc, List.singleton_append,
      List.splitOn_append_cons_self_of_not_mem (h l List.mem_cons_self), ih fun x hx => h x (List.mem_cons_of_mem _ hx)]
    rfl

/-- Lines that were each ended read back. -/
theorem lines_ended {ls : List (List Char)} (hn : ∀ l ∈ ls, '\n' ∉ l) (hr : ∀ l ∈ ls, '\r' ∉ l) :
    lines (ls.flatMap (· ++ ['\n'])) = ls := by
  have hstrip : ∀ l ∈ ls, (stripSuffix "\r" l).getD l = l := by
    intro l hl
    unfold stripSuffix
    rw [if_neg]
    · rfl
    · rw [List.isSuffixOf_iff_suffix]
      exact fun h => hr l hl (h.subset (by simp))
  unfold lines
  rw [splitOn_ended hn]
  show (ls ++ [[]]).dropLast.map _ ++ (ls ++ [[]]).getLast?.toList.filter _ = ls
  rw [List.dropLast_concat, List.getLast?_concat, List.map_congr_left hstrip, List.map_id']
  simp

theorem count_dropWhile {s : List Char} {c : Char} (hc : isWhitespace c = false) :
    (s.dropWhile isWhitespace).count c = s.count c := by
  have hspace : (s.takeWhile isWhitespace).count c = 0 := by
    rw [List.count_eq_zero]
    intro h
    rw [List.mem_takeWhile_imp h] at hc
    cases hc
  have hsplit := congrArg (List.count c) (List.takeWhile_append_dropWhile (p := isWhitespace) (l := s))
  rw [List.count_append, hspace, Nat.zero_add] at hsplit
  exact hsplit

/-- Only white space is trimmed. -/
theorem count_trim {s : List Char} {c : Char} (hc : isWhitespace c = false) : (trim s).count c = s.count c := by
  unfold trim trimEnd
  rw [List.count_reverse, count_dropWhile hc, List.count_reverse, count_dropWhile hc]

theorem trimEnd_snoc {s : List Char} {c : Char} (hc : isWhitespace c = true) : trimEnd (s ++ [c]) = trimEnd s := by
  unfold trimEnd
  rw [List.reverse_append, List.reverse_singleton, List.singleton_append, List.dropWhile_cons, if_pos hc]

theorem trim_snoc {s : List Char} {c : Char} (hc : isWhitespace c = true) : trim (s ++ [c]) = trim s := by
  unfold trim
  rw [List.dropWhile_append]
  split_ifs with h
  · rw [List.isEmpty_iff.mp h, List.dropWhile_cons, if_pos hc]
    rfl
  · exact trimEnd_snoc hc

theorem trim_of_not_space {s : List Char} (h : ∀ c ∈ s, isWhitespace c = false) : trim s = s := by
  have hself : ∀ l : List Char, (∀ c ∈ l, isWhitespace c = false) → l.dropWhile isWhitespace = l := by
    intro l hl
    cases l with
    | nil => rfl
    | cons c l => rw [List.dropWhile_cons, if_neg (by simp [hl c List.mem_cons_self])]
  unfold trim trimEnd
  rw [hself s h, hself s.reverse fun c hc => h c (List.mem_reverse.mp hc), List.reverse_reverse]

/-- A text that neither starts nor ends with white space. -/
theorem trim_of_ends {s : List Char} {c : Char} (hstart : (s ++ [c]).dropWhile isWhitespace = s ++ [c])
    (hend : isWhitespace c = false) : trim (s ++ [c]) = s ++ [c] := by
  unfold trim trimEnd
  rw [hstart, List.reverse_append, List.reverse_singleton, List.singleton_append, List.dropWhile_cons,
    if_neg (by rw [hend]; exact Bool.false_ne_true), List.reverse_cons, List.reverse_reverse]

theorem stripSuffix_of_last {ending : String} {c d : Char} {s : List Char} (hending : ending.toList = [c]) (h : d ≠ c) :
    stripSuffix ending (s ++ [d]) = none := by
  unfold stripSuffix
  rw [hending, if_neg]
  intro hsuffix
  obtain ⟨before, heq⟩ := List.isSuffixOf_iff_suffix.mp hsuffix
  exact h (List.singleton_inj.mp (List.append_inj' heq rfl).2).symm

/-! ### Numbers -/

theorem parseDigits_eq {s : List Char} (hne : s ≠ []) (h : ∀ c ∈ s, c.isDigit = true) :
    parseDigits s = some (Nat.ofDigitChars 10 s 0) := by
  unfold parseDigits
  rw [if_pos (by simpa using ⟨hne, h⟩)]
  rfl

theorem isDigit_of_mem_repr {n : Nat} {c : Char} (h : c ∈ n.repr.toList) : c.isDigit = true := by
  rw [Nat.toList_repr] at h
  exact Nat.isDigit_of_mem_toDigits (by decide) (by decide) h

theorem parseDigits_repr (n : Nat) : parseDigits n.repr.toList = some n := by
  rw [parseDigits_eq _ fun c hc => isDigit_of_mem_repr hc, Nat.toList_repr, Nat.ofDigitChars_ten_toDigits]
  rw [Nat.toList_repr]
  exact Nat.toDigits_ne_nil

theorem stripPrefix_repr {sign : String} {c : Char} (hsign : sign.toList = [c]) (hc : c.isDigit = false) (n : Nat) :
    stripPrefix sign n.repr.toList = none := by
  refine stripPrefix_of_head hsign fun hhead => ?_
  have hmem := List.mem_of_head? hhead
  rw [isDigit_of_mem_repr hmem] at hc
  cases hc

/-- A number reads back. -/
theorem parseSigned_toString {min max n : Int} (h : min ≤ n ∧ n ≤ max) :
    parseSigned min max (toString n).toList = some n := by
  unfold parseSigned
  cases n with
  | ofNat n =>
    have htext : (toString (Int.ofNat n)).toList = n.repr.toList := rfl
    have hplus : stripPrefix "+" n.repr.toList = none := @stripPrefix_repr "+" '+' rfl rfl n
    rw [htext, @stripPrefix_repr "-" '-' rfl rfl n, hplus]
    simp only [Option.getD_none, parseDigits_repr]
    simpa using h
  | negSucc n =>
    have htext : (toString (Int.negSucc n)).toList = "-".toList ++ (n + 1).repr.toList := String.toList_append
    rw [htext, stripPrefix_append]
    simp only [parseDigits_repr]
    simpa [Int.negSucc_eq] using h

theorem toString_int_injective {a b : Int} (h : (toString a).toList = (toString b).toList) : a = b := by
  have ha := @parseSigned_toString (min a b) (max a b) a ⟨min_le_left a b, le_max_left a b⟩
  have hb := @parseSigned_toString (min a b) (max a b) b ⟨min_le_right a b, le_max_right a b⟩
  rw [h, hb] at ha
  exact (Option.some.inj ha).symm

theorem toString_int_chars {n : Int} {c : Char} (h : c ∈ (toString n).toList) : c.isDigit = true ∨ c = '-' := by
  cases n with
  | ofNat n => exact .inl (isDigit_of_mem_repr h)
  | negSucc n =>
    have htext : (toString (Int.negSucc n)).toList = '-' :: (n + 1).repr.toList := String.toList_append
    rw [htext, List.mem_cons] at h
    exact h.symm.imp isDigit_of_mem_repr id

theorem not_space_of_isDigit {c : Char} (h : c.isDigit = true) : isWhitespace c = false := by
  unfold Char.isDigit at h
  simp only [Bool.and_eq_true, decide_eq_true_eq, UInt32.le_iff_toNat_le] at h
  have hlo : 48 ≤ c.toNat := h.1
  have hhi : c.toNat ≤ 57 := h.2
  unfold isWhitespace
  simp only [Bool.or_eq_false_iff, Bool.and_eq_false_iff, decide_eq_false_iff_not]
  omega

theorem not_space_of_mem_toString {k : Int} {c : Char} (h : c ∈ (toString k).toList) : isWhitespace c = false := by
  cases k with
  | ofNat n => exact not_space_of_isDigit (isDigit_of_mem_repr h)
  | negSucc n =>
    have htext : (toString (Int.negSucc n)).toList = '-' :: (n + 1).repr.toList := String.toList_append
    rw [htext] at h
    rcases List.mem_cons.mp h with rfl | h
    · rfl
    · exact not_space_of_isDigit (isDigit_of_mem_repr h)

theorem parseUnsigned_repr {max n : Nat} (h : n ≤ max) : parseUnsigned max n.repr.toList = some n := by
  have hplus : stripPrefix "+" n.repr.toList = none := @stripPrefix_repr "+" '+' rfl rfl n
  unfold parseUnsigned
  rw [hplus, Option.getD_none, parseDigits_repr]
  simpa using h

theorem trim_trim (s : List Char) : trim (trim s) = trim s := by
  -- the first character that is left is not white space, nor is the last
  have hhead : (trim s).dropWhile isWhitespace = trim s := by
    rw [List.dropWhile_eq_self_iff]
    intro hlen hspace
    have hprefix : trim s <+: s.dropWhile isWhitespace := by
      unfold trim trimEnd
      rw [← List.reverse_suffix, List.reverse_reverse]
      exact List.dropWhile_suffix _
    have hd : 0 < (s.dropWhile isWhitespace).length := Nat.lt_of_lt_of_le hlen hprefix.length_le
    have hfirst : (trim s)[0] = (s.dropWhile isWhitespace)[0] := hprefix.getElem hlen
    rw [hfirst] at hspace
    exact List.dropWhile_eq_self_iff.mp (List.dropWhile_idempotent (p := isWhitespace) (l := s)) hd hspace
  have hend : trimEnd (trim s) = trim s := by
    unfold trim trimEnd
    rw [List.reverse_reverse, List.dropWhile_idempotent]
  show trimEnd ((trim s).dropWhile isWhitespace) = trim s
  rw [hhead, hend]

end Text
