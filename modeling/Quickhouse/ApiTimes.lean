import Quickhouse.Lib.MachineInt
import Quickhouse.Lib.TimeFormat
import Quickhouse.Source.PgValues

/-!
# The dates and times of an API

One field may be declared a date or a timestamp, and a parser for each takes the text by its shape: civil, packed digits,
an offset, or a number of milliseconds or seconds.  `api_days_agree_iff` says which texts the two put on different days.
-/

namespace Quickhouse

open MachineInt Civil TimeFormat

/-! ### The two parsers -/

/-- An integer of 13 digits is epoch milliseconds. -/
def isEpochMillis (s : List Char) : Bool :=
  let digits := (Text.stripPrefix "-" s).getD s
  digits.length = 13 && digits.all Char.isDigit

/-- `%Y%m%d` -/
def packedDate : List Item := [.number .year, .number .month, .number .day]

/-- `%Y%m%d%H%M%S` -/
def packedTime : List Item := packedDate ++ [.number .hour, .number .minute, .number .second]

/-- `%Y-%m-%d %H:%M:%S` -/
def civilTime : List Item := isoDate ++ .space :: clock

def rfc3339 : List Item :=
  [.digits .year, .oneOf ['-'], .digits .month, .oneOf ['-'], .digits .day, .oneOf ['T', 't', ' '], .digits .hour,
    .oneOf [':'], .digits .minute, .oneOf [':'], .digits .second, .fraction, .offset false]

/-- The date of a text of packed digits. -/
def readPackedDate (s : List Char) : Option Date :=
  if (s.length = 8 ∨ s.length = 14) ∧ s.all Char.isDigit then (TimeFormat.read packedDate (s.take 8)).bind TimeFormat.Parsed.date
  else none

def readPackedTime (s : List Char) : Option Int :=
  if s.length = 14 ∧ s.all Char.isDigit then readNaive packedTime s else none

def parseDaysUnchecked (s : List Char) : Option Int :=
  match (parseIso s).or (readPackedDate s) with
  | some d => some d.toDay
  | none => (Text.parseSigned i64Min i64Max s).map fun n => if isEpochMillis s then n / 86400000 else n / 86400

def parseDateDays (s : List Char) : Option Int :=
  (parseDaysUnchecked s).filter fun days => InI32 days ∧ daysInRange days

def parseMicrosUnchecked (s : List Char) : Option Int :=
  match (readZoned rfc3339 s).or ((readNaive civilTime s).or (readPackedTime s)) with
  | some micros => some micros
  | none => (Text.parseSigned i64Min i64Max s).bind fun n =>
      if isEpochMillis s then checkedMul n 1000 else checkedMul n 1000000

def parseTsMicros (s : List Char) : Option Int := (parseMicrosUnchecked s).filter fun micros => microsInRange micros

/-! ### The characters of a text -/

theorem mem_scanNumber {width : Option Nat} {s rest : List Char} {n : Nat} {c : Char}
    (h : scanNumber width s = some (n, rest)) (hc : c.isDigit = false) (hmem : c ∈ s) : c ∈ rest := by
  unfold scanNumber at h
  dsimp only at h
  split_ifs at h
  obtain ⟨-, rfl⟩ := Prod.mk.inj (Option.some.inj h)
  generalize hdigits : (s.takeWhile Char.isDigit).take (width.getD s.length) = digits
  have hprefix : digits <+: s := by
    rw [← hdigits]
    exact (List.take_prefix _ _).trans (List.takeWhile_prefix _)
  obtain ⟨rest, rfl⟩ := hprefix
  rw [List.drop_left]
  rcases List.mem_append.mp hmem with hin | hin
  · rw [← hdigits] at hin
    have := List.mem_takeWhile_imp (List.mem_of_mem_take hin)
    rw [hc] at this
    cases this
  · exact hin

theorem mem_dropSpace {s : List Char} {c : Char} (hc : Text.isWhitespace c = false) (hmem : c ∈ s) :
    c ∈ s.dropWhile Text.isWhitespace := by
  rw [← List.takeWhile_append_dropWhile (p := Text.isWhitespace) (l := s)] at hmem
  rcases List.mem_append.mp hmem with hin | hin
  · have := List.mem_takeWhile_imp hin
    rw [hc] at this
    cases this
  · exact hin

theorem mem_scanYear {s rest : List Char} {year : Int} {c : Char} (h : scanYear s = some (year, rest))
    (hc : c.isDigit = false) (hsign : c ≠ '-' ∧ c ≠ '+') (hmem : c ∈ s) : c ∈ rest := by
  unfold scanYear at h
  split at h
  · obtain ⟨⟨n, r⟩, hscan, heq⟩ := Option.map_eq_some_iff.mp h
    obtain ⟨-, rfl⟩ := Prod.mk.inj heq
    exact mem_scanNumber hscan hc ((List.mem_cons.mp hmem).resolve_left hsign.1)
  · obtain ⟨⟨n, r⟩, hscan, heq⟩ := Option.map_eq_some_iff.mp h
    obtain ⟨-, rfl⟩ := Prod.mk.inj heq
    exact mem_scanNumber hscan hc ((List.mem_cons.mp hmem).resolve_left hsign.2)
  · obtain ⟨⟨n, r⟩, hscan, heq⟩ := Option.map_eq_some_iff.mp h
    obtain ⟨-, rfl⟩ := Prod.mk.inj heq
    exact mem_scanNumber hscan hc hmem

theorem tail_suffix_tail {s t : List Char} (h : s <:+ t) : s.tail <:+ t.tail := by
  obtain ⟨u, rfl⟩ := h
  cases u with
  | nil => exact List.suffix_refl _
  | cons a u => exact (List.tail_suffix s).trans (List.suffix_append u s)

theorem eq_of_stripPrefix {start : String} {s rest : List Char} (h : Text.stripPrefix start s = some rest) :
    s = start.toList ++ rest := by
  unfold Text.stripPrefix at h
  split_ifs at h with hprefix
  obtain ⟨t, rfl⟩ := List.isPrefixOf_iff_prefix.mp hprefix
  obtain rfl := Option.some.inj h
  rw [List.drop_left]

theorem cons_of_stripPrefix {s rest : List Char} (h : Text.stripPrefix "-" s = some rest) : s = '-' :: rest :=
  eq_of_stripPrefix h

/-- A civil date has no colon, and a dash behind its first character. -/
theorem chars_of_parseIso {s : List Char} {d : Date} (h : parseIso s = some d) : ':' ∉ s ∧ '-' ∈ s.tail := by
  unfold parseIso at h
  simp only [Option.bind_eq_bind, Option.bind_eq_some_iff] at h
  obtain ⟨⟨year, s₁⟩, hyear, s₂, hdash, ⟨month, s₃⟩, hmonth, s₄, hdash', ⟨day, s₅⟩, hday, hend⟩ := h
  have h₁ := cons_of_stripPrefix hdash
  have h₃ := cons_of_stripPrefix hdash'
  dsimp only at h₁ h₃
  constructor
  · intro hmem
    have hin₁ := mem_scanYear hyear (by decide) (by decide) (mem_dropSpace (by decide) hmem)
    rw [h₁] at hin₁
    have hin₃ := mem_scanNumber hmonth (by decide)
      (mem_dropSpace (by decide) ((List.mem_cons.mp hin₁).resolve_left (by decide)))
    rw [h₃] at hin₃
    have hin₅ := mem_scanNumber hday (by decide)
      (mem_dropSpace (by decide) ((List.mem_cons.mp hin₃).resolve_left (by decide)))
    dsimp only at hend
    split_ifs at hend with hnil
    rw [hnil] at hin₅
    cases hin₅
  · have hsuffix := (scanYear_suffix hyear).trans (tail_suffix_tail (List.dropWhile_suffix Text.isWhitespace))
    refine hsuffix.subset ?_
    rw [h₁]
    exact List.mem_cons_self

/-- An integer is digits behind its first character, which is one or a sign. -/
theorem chars_of_parseSigned {min max n : Int} {s : List Char} (h : Text.parseSigned min max s = some n) :
    (∀ c ∈ s, c.isDigit = true ∨ c = '-' ∨ c = '+') ∧ ∀ c ∈ s.tail, c.isDigit = true := by
  have hdigits : ∀ ds n, Text.parseDigits ds = some n → ∀ c ∈ ds, c.isDigit = true := by
    intro ds n hds
    unfold Text.parseDigits at hds
    split_ifs at hds with hall
    simp only [Bool.and_eq_true, List.all_eq_true] at hall
    exact hall.2
  have hsigned : ∀ sign ds, (∀ c ∈ ds, c.isDigit = true) → sign = '-' ∨ sign = '+' →
      (∀ c ∈ sign :: ds, c.isDigit = true ∨ c = '-' ∨ c = '+') ∧ ∀ c ∈ (sign :: ds).tail, c.isDigit = true := by
    intro sign ds hds hsign
    refine ⟨fun c hc => ?_, hds⟩
    rcases List.mem_cons.mp hc with rfl | hc
    · exact .inr hsign
    · exact .inl (hds c hc)
  unfold Text.parseSigned at h
  obtain ⟨h, -⟩ := Option.filter_eq_some_iff.mp h
  cases hminus : Text.stripPrefix "-" s with
  | some ds =>
    rw [hminus] at h
    obtain rfl := cons_of_stripPrefix hminus
    cases hds : Text.parseDigits ds with
    | none =>
      dsimp only at h
      rw [hds] at h
      cases h
    | some k => exact hsigned '-' ds (hdigits ds k hds) (.inl rfl)
  | none =>
    rw [hminus] at h
    dsimp only at h
    cases hplus : Text.stripPrefix "+" s with
    | some ds =>
      rw [hplus] at h
      obtain rfl : s = '+' :: ds := eq_of_stripPrefix hplus
      cases hds : Text.parseDigits ds with
      | none =>
        rw [Option.getD_some, hds] at h
        cases h
      | some k => exact hsigned '+' ds (hdigits ds k hds) (.inr rfl)
    | none =>
      rw [hplus] at h
      cases hds : Text.parseDigits s with
      | none =>
        rw [Option.getD_none, hds] at h
        cases h
      | some k => exact ⟨fun c hc => .inl (hdigits s k hds c hc), fun c hc => hdigits s k hds c (List.mem_of_mem_tail hc)⟩

/-- Without a colon a text is no time of day. -/
theorem no_time {s : List Char} (h : ':' ∉ s) : readZoned rfc3339 s = none ∧ readNaive civilTime s = none := by
  constructor
  · rw [Option.eq_none_iff_forall_ne_some]
    intro micros hread
    obtain ⟨p, hp, -⟩ := Option.bind_eq_some_iff.mp hread
    exact h (mem_of_read (by decide) hp)
  · rw [Option.eq_none_iff_forall_ne_some]
    intro micros hread
    obtain ⟨p, hp, -⟩ := Option.bind_eq_some_iff.mp hread
    exact h (mem_of_read (by decide) hp)

/-- A civil date is no timestamp. -/
theorem parseMicros_of_parseIso {s : List Char} {d : Date} (h : parseIso s = some d) : parseMicrosUnchecked s = none := by
  obtain ⟨hcolon, hdash⟩ := chars_of_parseIso h
  obtain ⟨hzoned, hcivil⟩ := no_time hcolon
  have hpacked : readPackedTime s = none := by
    refine if_neg ?_
    rintro ⟨-, hall⟩
    have := List.all_eq_true.mp hall '-' (List.mem_of_mem_tail hdash)
    exact absurd this (by decide)
  have hint : Text.parseSigned i64Min i64Max s = none := by
    rw [Option.eq_none_iff_forall_ne_some]
    intro n hn
    exact absurd ((chars_of_parseSigned hn).2 '-' hdash) (by decide)
  unfold parseMicrosUnchecked
  rw [hzoned, hcivil, hpacked, hint]
  rfl

/-- An integer is no civil text. -/
theorem no_civil_of_parseSigned {s : List Char} {n : Int} (h : Text.parseSigned i64Min i64Max s = some n) :
    parseIso s = none ∧ readZoned rfc3339 s = none ∧ readNaive civilTime s = none := by
  obtain ⟨hchars, htail⟩ := chars_of_parseSigned h
  refine ⟨?_, no_time fun hcolon => ?_⟩
  · rw [Option.eq_none_iff_forall_ne_some]
    intro d hd
    exact absurd (htail '-' (chars_of_parseIso hd).2) (by decide)
  · exact absurd (hchars ':' hcolon) (by decide)

/-! ### Packed digits -/

/-- `yyyyMMdd` -/
def packedText (d : Date) : List Char := pad 4 d.year.toNat ++ (pad 2 d.month ++ pad 2 d.day)

/-- Digits are a number of so many digits, and the digits behind it. -/
theorem digits_split {s : List Char} (h : ∀ c ∈ s, c.isDigit = true) (width : Nat) (hwidth : width ≤ s.length) :
    ∃ n t, n < 10 ^ width ∧ s = pad width n ++ t ∧ t.length = s.length - width ∧ ∀ c ∈ t, c.isDigit = true := by
  have htake : ∀ c ∈ s.take width, c.isDigit = true := fun c hc => h c (List.mem_of_mem_take hc)
  have hlength : (s.take width).length = width := List.length_take_of_le hwidth
  have hpad := pad_ofDigitChars htake
  have hlt := ofDigitChars_lt htake
  rw [hlength] at hpad hlt
  refine ⟨_, s.drop width, hlt, ?_, List.length_drop, fun c hc => h c (List.mem_of_mem_drop hc)⟩
  rw [hpad, List.take_append_drop]

/-- Fourteen digits, or eight, are numbers of four digits and of two. -/
theorem readItems_packedDate {year month day : Nat} (hy : year < 10000) (hm : month < 100) (hd : day < 100) (p : TimeFormat.Parsed)
    (rest : List Char) :
    readItems packedDate p (pad 4 year ++ (pad 2 month ++ (pad 2 day ++ rest))) =
      some ({ p with year := year, month := month, day := day }, rest) := by
  have hyear : readItem (.number .year) p (pad 4 year ++ (pad 2 month ++ (pad 2 day ++ rest))) =
      some ({ p with year := (year : Int) }, pad 2 month ++ (pad 2 day ++ rest)) := by
    unfold readItem
    dsimp only
    rw [dropWhile_digits (by decide), scanYear_pad hy]
    rfl
  unfold packedDate
  rw [readItems, hyear, Option.bind_some, readItems, readItem_number (by decide) hm, Option.bind_some, readItems,
    readItem_number (by decide) hd]
  rfl

theorem readItems_packedTime {year month day hour minute second : Nat} (hy : year < 10000) (hm : month < 100)
    (hd : day < 100) (hh : hour < 100) (hmin : minute < 100) (hs : second < 100) :
    TimeFormat.read packedTime
        (pad 4 year ++ (pad 2 month ++ (pad 2 day ++ (pad 2 hour ++ (pad 2 minute ++ pad 2 second))))) =
      some { year := year, month := month, day := day, hour := hour, minute := minute, second := second } := by
  have hsecond := @readItem_number .second (by decide) second hs
    { year := year, month := month, day := day, hour := hour, minute := minute } []
  rw [List.append_nil] at hsecond
  unfold TimeFormat.read packedTime
  rw [readItems_append, readItems_packedDate hy hm hd, Option.bind_some, readItems, readItem_number (by decide) hh,
    Option.bind_some, readItems, readItem_number (by decide) hmin, Option.bind_some, readItems]
  dsimp only [TimeFormat.Parsed.set]
  rw [hsecond]
  rfl

theorem ofDigitChars_append_pad (ds : List Char) {width n : Nat} (h : n < 10 ^ width) :
    Nat.ofDigitChars 10 (ds ++ pad width n) 0 = Nat.ofDigitChars 10 ds 0 * 10 ^ width + n := by
  have hdigit : ∀ d < 10, (Nat.digitChar d).toNat - '0'.toNat = d := by decide
  induction width generalizing n with
  | zero =>
    have : n = 0 := by simpa using h
    rw [this]
    simp [pad]
  | succ width ih =>
    rw [pow_succ] at h ⊢
    unfold pad
    rw [← List.append_assoc, Nat.ofDigitChars_append, ih (by omega), Nat.ofDigitChars_cons, Nat.ofDigitChars_nil,
      hdigit _ (by omega), ← mul_assoc]
    omega

/-- Digits are read as the number that they say. -/
theorem parseSigned_digits {s : List Char} (hne : s ≠ []) (h : ∀ c ∈ s, c.isDigit = true) (hlength : s.length ≤ 18) :
    Text.parseSigned i64Min i64Max s = some (Nat.ofDigitChars 10 s 0 : Int) := by
  have hhead : ∀ start c, start.toList = [c] → c.isDigit = false → Text.stripPrefix start s = none := by
    intro start c hstart hc
    refine Text.stripPrefix_of_head hstart fun hhead => ?_
    rw [h c (List.mem_of_head? hhead)] at hc
    cases hc
  have hlt := ofDigitChars_lt h
  have hpow := Nat.pow_le_pow_right (show 0 < 10 by decide) hlength
  have hrange : i64Min ≤ (Nat.ofDigitChars 10 s 0 : Int) ∧ (Nat.ofDigitChars 10 s 0 : Int) ≤ i64Max := by
    unfold i64Min i64Max
    omega
  unfold Text.parseSigned
  rw [hhead "-" '-' rfl (by decide)]
  dsimp only
  rw [hhead "+" '+' rfl (by decide), Option.getD_none, Text.parseDigits_eq hne h]
  show Option.filter _ (some (Nat.ofDigitChars 10 s 0 : Int)) = _
  rw [Option.filter_some, if_pos (decide_eq_true hrange)]

/-- Digits that are not thirteen are no milliseconds. -/
theorem isEpochMillis_digits {s : List Char} (h : ∀ c ∈ s, c.isDigit = true) (hlength : s.length ≠ 13) :
    isEpochMillis s = false := by
  have hminus : Text.stripPrefix "-" s = none := by
    refine Text.stripPrefix_of_head (c := '-') rfl fun hhead => ?_
    exact absurd (h '-' (List.mem_of_head? hhead)) (by decide)
  unfold isEpochMillis
  rw [hminus]
  simp [hlength]

section

variable {d : Date}

theorem packedText_length (d : Date) : (packedText d).length = 8 := by
  unfold packedText
  rw [List.length_append, List.length_append, pad_length, pad_length, pad_length]

theorem packedText_isDigit (d : Date) : ∀ c ∈ packedText d, c.isDigit = true := by
  unfold packedText
  intro c hc
  rcases List.mem_append.mp hc with hc | hc
  · exact pad_isDigit c hc
  · rcases List.mem_append.mp hc with hc | hc
    · exact pad_isDigit c hc
    · exact pad_isDigit c hc

theorem read_packedText (h : FourDigits d) : (TimeFormat.read packedDate (packedText d)).bind TimeFormat.Parsed.date = some d := by
  have hday := d.day_le
  have hmonth := d.month_mem
  have hyear : ((d.year.toNat : Int)) = d.year := Int.toNat_of_nonneg h.1
  have hread := readItems_packedDate (show d.year.toNat < 10000 by have := h.2; omega) (show d.month < 100 by omega)
    (show d.day < 100 by omega) {} []
  rw [List.append_nil] at hread
  have hdate : Date.of d.year d.month d.day = some d := dif_pos ⟨h.represented, d.month_mem, d.day_mem⟩
  unfold TimeFormat.read packedText
  rw [hread, hyear]
  exact hdate

/-- Eight digits that are read as a date are its packed text. -/
theorem packedText_of_read {s : List Char} (hs : ∀ c ∈ s, c.isDigit = true) (hlength : s.length = 8)
    (h : (TimeFormat.read packedDate s).bind TimeFormat.Parsed.date = some d) : FourDigits d ∧ s = packedText d := by
  obtain ⟨year, t, hy, rfl, ht, htd⟩ := digits_split hs 4 (by omega)
  obtain ⟨month, u, hm, rfl, hu, hud⟩ := digits_split htd 2 (by omega)
  obtain ⟨day, v, hd, rfl, hv, -⟩ := digits_split hud 2 (by omega)
  obtain rfl : v = [] := List.eq_nil_of_length_eq_zero (by omega)
  unfold TimeFormat.read at h
  rw [readItems_packedDate hy hm hd] at h
  have hof : Date.of year month day = some d := h
  unfold Date.of at hof
  split_ifs at hof
  obtain rfl := Option.some.inj hof
  refine ⟨⟨Int.natCast_nonneg _, by show (year : Int) ≤ 9999; omega⟩, ?_⟩
  unfold packedText
  rw [List.append_nil]
  rfl

theorem readPackedDate_eq {s : List Char} (h : FourDigits d) (hlength : s.length = 8 ∨ s.length = 14)
    (hs : s.all Char.isDigit = true) (htake : s.take 8 = packedText d) : readPackedDate s = some d := by
  unfold readPackedDate
  rw [if_pos ⟨hlength, hs⟩, htake, read_packedText h]

theorem readPackedDate_cases {s : List Char} (h : readPackedDate s = some d) :
    FourDigits d ∧ (s.length = 8 ∨ s.length = 14) ∧ (∀ c ∈ s, c.isDigit = true) ∧ s.take 8 = packedText d := by
  unfold readPackedDate at h
  split_ifs at h with hs
  obtain ⟨hlength, hall⟩ := hs
  have hdigits := List.all_eq_true.mp hall
  obtain ⟨hfour, heq⟩ := packedText_of_read (fun c hc => hdigits c (List.mem_of_mem_take hc))
    (List.length_take_of_le (by omega)) h
  exact ⟨hfour, hlength, hdigits, heq⟩

end

/-! ### Days and seconds -/

theorem daysInRange_iff (d : Date) : daysInRange d.toDay = true ↔ 1900 ≤ d.year ∧ d.year ≤ 2299 := by
  obtain ⟨hstart, hend⟩ := d.toDay_mem
  have hfirst : daysBefore 1900 = minDays + 719528 := by decide
  have hlast : daysBefore 2300 = maxDays + 719528 + 1 := by decide
  unfold daysInRange
  rw [Bool.and_eq_true, decide_eq_true_eq, decide_eq_true_eq]
  constructor
  · rintro ⟨hlow, hhigh⟩
    constructor
    · by_contra hlt
      have := daysBefore_le (show d.year + 1 ≤ 1900 by omega)
      omega
    · by_contra hlt
      have := daysBefore_le (show 2300 ≤ d.year by omega)
      omega
  · rintro ⟨hlow, hhigh⟩
    have h1 := daysBefore_le hlow
    have h2 := daysBefore_le (show d.year + 1 ≤ 2300 by omega)
    omega

theorem parseDateDays_eq_some {s : List Char} {days : Int} :
    parseDateDays s = some days ↔ parseDaysUnchecked s = some days ∧ daysInRange days = true := by
  unfold parseDateDays
  rw [Option.filter_eq_some_iff]
  simp only [Bool.decide_and, Bool.decide_eq_true, Bool.and_eq_true, decide_eq_true_eq]
  constructor
  · rintro ⟨h, -, hrange⟩
    exact ⟨h, hrange⟩
  · rintro ⟨h, hrange⟩
    refine ⟨h, ?_, hrange⟩
    unfold daysInRange minDays maxDays at hrange
    rw [Bool.and_eq_true, decide_eq_true_eq, decide_eq_true_eq] at hrange
    unfold InI32 i32Min i32Max
    omega

theorem parseTsMicros_eq_some {s : List Char} {micros : Int} :
    parseTsMicros s = some micros ↔ parseMicrosUnchecked s = some micros ∧ microsInRange micros = true := by
  unfold parseTsMicros
  rw [Option.filter_eq_some_iff]

theorem microsInRange_iff (micros : Int) :
    microsInRange micros = true ↔ daysInRange (micros / dayMicros) = true := by
  unfold microsInRange daysInRange minMicros maxMicros minDays maxDays dayMicros
  simp only [Bool.and_eq_true, decide_eq_true_eq]
  omega

section

variable {d : Date}

theorem FourDigits.of_range (h : 1900 ≤ d.year ∧ d.year ≤ 2299) : FourDigits d := ⟨by omega, by omega⟩

/-- The number that a packed date is. -/
def packedNumber (d : Date) : Nat := d.year.toNat * 10000 + d.month * 100 + d.day

theorem ofDigitChars_packedText (h : FourDigits d) : Nat.ofDigitChars 10 (packedText d) 0 = packedNumber d := by
  have hday := d.day_le
  have hmonth := d.month_mem
  have hyear := h.2
  unfold packedText packedNumber
  rw [← List.append_assoc, ofDigitChars_append_pad _ (by omega), ofDigitChars_append_pad _ (by omega),
    ofDigitChars_pad (by omega)]
  omega

/-- Eight digits are a date to one parser and seconds to the other. -/
theorem parse_packedText (h : FourDigits d) :
    parseDaysUnchecked (packedText d) = some d.toDay ∧
      parseMicrosUnchecked (packedText d) = some ((packedNumber d : Int) * 1000000) := by
  have hdigits := packedText_isDigit d
  have hlength := packedText_length d
  have hne : packedText d ≠ [] := List.ne_nil_of_length_pos (by omega)
  have hint := parseSigned_digits hne hdigits (by omega)
  obtain ⟨hiso, hzoned, hcivil⟩ := no_civil_of_parseSigned hint
  have hpacked : readPackedDate (packedText d) = some d :=
    readPackedDate_eq h (.inl hlength) (List.all_eq_true.mpr hdigits) (List.take_of_length_le (by omega))
  have htime : readPackedTime (packedText d) = none := if_neg fun hs => by omega
  have hnumber : packedNumber d < 100000000 := by
    have hday := d.day_le
    have hmonth := d.month_mem
    have hyear := h.2
    unfold packedNumber
    omega
  constructor
  · unfold parseDaysUnchecked
    rw [hiso, hpacked]
    rfl
  · unfold parseMicrosUnchecked
    rw [hzoned, hcivil, htime, hint, ofDigitChars_packedText h]
    dsimp only [Option.or, Option.bind_some]
    rw [isEpochMillis_digits hdigits (by omega), if_neg Bool.false_ne_true]
    refine if_pos ?_
    unfold InI64 i64Min i64Max
    omega

/-- As seconds a packed date is in August or September of 1970. -/
theorem packed_seconds_iff (h : 1900 ≤ d.year ∧ d.year ≤ 2299) :
    (packedNumber d : Int) * 1000000 / dayMicros = d.toDay ↔ packedNumber d = 19700817 := by
  have hday := d.day_mem
  have hmonth := d.month_mem
  have hyear := d.toDay_mem
  have hle := d.day_le
  have hdayNumber : ∀ m < 13, 1 ≤ m → ∀ day, monthStart false m + day = 229 → 1 ≤ day →
      monthStart false m + day ≤ monthStart false (m + 1) → m = 8 ∧ day = 17 := by
    have hstarts : ∀ m < 13, 1 ≤ m → m = 8 ∨ 229 ≤ monthStart false m ∨ monthStart false (m + 1) < 229 := by decide
    have height : monthStart false 8 = 212 := by decide
    intro m hm hm1 day hsum hpos hend
    rcases hstarts m hm hm1 with rfl | hlate | hearly
    · omega
    · omega
    · omega
  constructor
  · intro heq
    have hnumber : packedNumber d = d.year.toNat * 10000 + d.month * 100 + d.day := rfl
    have hyear1970 : d.year = 1970 := by
      unfold dayMicros at heq
      unfold daysBefore at hyear
      omega
    have hleap : isLeap d.year = false := by rw [hyear1970]; decide
    have htoDay : d.toDay = 228 := by
      rw [← heq, hnumber]
      unfold dayMicros
      omega
    unfold Date.toDay dayNumber at htoDay
    rw [hleap] at htoDay hday
    have hbefore : daysBefore d.year = 719528 := by rw [hyear1970]; decide
    obtain ⟨hm, hd⟩ := hdayNumber d.month (by omega) hmonth.1 d.day (by omega) hday.1 hday.2
    omega
  · intro hnumber
    have hfields : d.year = 1970 ∧ d.month = 8 ∧ d.day = 17 := by
      unfold packedNumber at hnumber
      omega
    obtain ⟨hy, hm, hd⟩ := hfields
    rw [hnumber]
    unfold Date.toDay
    rw [hy, hm, hd]
    decide

/-- A packed date with six more digits: the time of day they are, or nothing. -/
theorem parse_packedTime (h : 1900 ≤ d.year ∧ d.year ≤ 2299) {hour minute second : Nat} (hh : hour < 100)
    (hm : minute < 100) (hs : second < 100) :
    parseDaysUnchecked (packedText d ++ (pad 2 hour ++ (pad 2 minute ++ pad 2 second))) = some d.toDay ∧
      parseMicrosUnchecked (packedText d ++ (pad 2 hour ++ (pad 2 minute ++ pad 2 second))) =
        if hour ≤ 23 ∧ minute ≤ 59 ∧ second ≤ 60 then
          some (d.toDay * dayMicros + (hour * 3600 + minute * 60 + second : Nat) * 1000000)
        else none := by
  have hfour := FourDigits.of_range h
  have hday := d.day_le
  have hmonth := d.month_mem
  generalize hs' : packedText d ++ (pad 2 hour ++ (pad 2 minute ++ pad 2 second)) = s
  have hlength : s.length = 14 := by
    rw [← hs']
    simp only [List.length_append, packedText_length, pad_length]
  have hdigits : ∀ c ∈ s, c.isDigit = true := by
    rw [← hs']
    intro c hc
    simp only [List.mem_append] at hc
    rcases hc with hc | hc | hc | hc
    · exact packedText_isDigit d c hc
    · exact pad_isDigit c hc
    · exact pad_isDigit c hc
    · exact pad_isDigit c hc
  have hint := parseSigned_digits (List.ne_nil_of_length_pos (by omega)) hdigits (by omega)
  have hvalue : Nat.ofDigitChars 10 s 0 = ((packedNumber d * 100 + hour) * 100 + minute) * 100 + second := by
    rw [← hs', ← List.append_assoc, ← List.append_assoc, ofDigitChars_append_pad _ hs, ofDigitChars_append_pad _ hm,
      ofDigitChars_append_pad _ hh, ofDigitChars_packedText hfour]
    rfl
  obtain ⟨hiso, hzoned, hcivil⟩ := no_civil_of_parseSigned hint
  have htake : s.take 8 = packedText d := by
    rw [← hs']
    exact List.take_left' (packedText_length d)
  have hpacked : readPackedDate s = some d := readPackedDate_eq hfour (.inr hlength) (List.all_eq_true.mpr hdigits) htake
  have hread : TimeFormat.read packedTime s =
      some { year := d.year, month := d.month, day := d.day, hour := hour, minute := minute, second := second } := by
    have := readItems_packedTime (show d.year.toNat < 10000 by omega) (show d.month < 100 by omega)
      (show d.day < 100 by omega) hh hm hs
    rw [Int.toNat_of_nonneg hfour.1] at this
    rw [← hs', ← this]
    unfold packedText
    rw [List.append_assoc, List.append_assoc]
  have hdate : Date.of d.year d.month d.day = some d := dif_pos ⟨hfour.represented, d.month_mem, d.day_mem⟩
  have htime : readPackedTime s = if hour ≤ 23 ∧ minute ≤ 59 ∧ second ≤ 60 then
      some (d.toDay * dayMicros + (hour * 3600 + minute * 60 + second : Nat) * 1000000) else none := by
    unfold readPackedTime readNaive
    rw [if_pos ⟨hlength, List.all_eq_true.mpr hdigits⟩, hread, Option.bind_some]
    unfold TimeFormat.Parsed.naive TimeFormat.Parsed.date TimeFormat.Parsed.microsOfDay
    rw [hdate]
    dsimp only [Option.bind_eq_bind, Option.bind_some]
    split_ifs with hvalid
    · rw [Option.bind_some, Option.some.injEq]
      push_cast
      omega
    · rfl
  constructor
  · unfold parseDaysUnchecked
    rw [hiso, hpacked]
    rfl
  · unfold parseMicrosUnchecked
    rw [hzoned, hcivil, htime, hint, hvalue]
    by_cases hvalid : hour ≤ 23 ∧ minute ≤ 59 ∧ second ≤ 60
    · rw [if_pos hvalid]
      rfl
    · -- as seconds it is beyond what microseconds can count
      rw [if_neg hvalid]
      dsimp only [Option.or, Option.bind_some]
      rw [isEpochMillis_digits hdigits (by omega), if_neg Bool.false_ne_true]
      refine if_neg ?_
      unfold InI64 i64Min i64Max packedNumber
      omega

/-- The last day of the range. -/
theorem last_day_iff (h : 1900 ≤ d.year ∧ d.year ≤ 2299) :
    daysInRange (d.toDay + 1) = true ↔ ¬(d.year = 2299 ∧ d.month = 12 ∧ d.day = 31) := by
  have hrange := (daysInRange_iff d).mpr h
  have hday := d.day_mem
  have hmonth := d.month_mem
  have hyear := d.toDay_mem
  have hlast : daysInRange (d.toDay + 1) = true ↔ d.toDay ≠ maxDays := by
    unfold daysInRange at hrange ⊢
    rw [Bool.and_eq_true, decide_eq_true_eq, decide_eq_true_eq] at hrange ⊢
    omega
  have hends : ∀ m < 12, 1 ≤ m → monthStart false (m + 1) ≤ 334 := by decide
  have htwelve : monthStart false 12 = 334 := by decide
  have hstart : daysBefore 2299 = 719528 + maxDays - 364 := by decide
  rw [hlast, not_iff_not]
  constructor
  · intro heq
    have hyear2299 : d.year = 2299 := by
      have h2298 : daysBefore 2298 + 365 = daysBefore 2299 := by decide
      by_contra hne
      have := daysBefore_le (show d.year + 1 ≤ 2299 by omega)
      omega
    have hleap : isLeap d.year = false := by rw [hyear2299]; decide
    unfold Date.toDay dayNumber at heq
    rw [hleap, hyear2299, hstart] at heq
    rw [hleap] at hday
    have hmonth12 : d.month = 12 := by
      by_contra hne
      have := hends d.month (by omega) hmonth.1
      omega
    rw [hmonth12, htwelve] at heq
    exact ⟨hyear2299, hmonth12, by omega⟩
  · rintro ⟨hy, hm, hd⟩
    unfold Date.toDay
    rw [hy, hm, hd]
    decide

end

/-! ### The texts that the two disagree on -/

/-- Eight digits that spell a day, other than the one they are on as seconds. -/
def EightDigitDay (s : List Char) : Prop :=
  ∃ d : Date, (1900 ≤ d.year ∧ d.year ≤ 2299) ∧ s = packedText d ∧ s ≠ "19700817".toList

/-- Fourteen digits that spell a leap second at the end of a day. -/
def LeapSecondAtMidnight (s : List Char) : Prop :=
  ∃ d : Date, (1900 ≤ d.year ∧ d.year ≤ 2299) ∧ ¬(d.year = 2299 ∧ d.month = 12 ∧ d.day = 31) ∧
    s = packedText d ++ "235960".toList

theorem packedNumber_eq_iff {d : Date} (h : FourDigits d) :
    packedNumber d = 19700817 ↔ packedText d = "19700817".toList := by
  have hvalue : Nat.ofDigitChars 10 "19700817".toList 0 = 19700817 := by decide
  rw [← ofDigitChars_packedText h]
  constructor
  · intro heq
    have hpad := pad_ofDigitChars (packedText_isDigit d)
    rw [packedText_length, heq] at hpad
    rw [← hpad]
    decide
  · intro heq
    rw [heq, hvalue]

/-- A packed text that is neither is on one day. -/
theorem agree_of_packed {s : List Char} {d : Date} {micros : Int} (hdate : readPackedDate s = some d)
    (hrange : 1900 ≤ d.year ∧ d.year ≤ 2299) (hpacked : ¬EightDigitDay s) (hleap : ¬LeapSecondAtMidnight s)
    (hmicros : parseMicrosUnchecked s = some micros) (hin : microsInRange micros = true) :
    micros / dayMicros = d.toDay := by
  obtain ⟨hfour, hlength, hdigits, htake⟩ := readPackedDate_cases hdate
  have hsplit : s = packedText d ++ s.drop 8 := by rw [← htake, List.take_append_drop]
  rcases hlength with height | hfourteen
  · rw [List.drop_of_length_le (by omega), List.append_nil] at hsplit
    have hseventeen : s = "19700817".toList := by
      by_contra hne
      exact hpacked ⟨d, hrange, hsplit, hne⟩
    rw [hsplit, (parse_packedText hfour).2] at hmicros
    obtain rfl := Option.some.inj hmicros
    exact (packed_seconds_iff hrange).mpr ((packedNumber_eq_iff hfour).mpr (hsplit.symm.trans hseventeen))
  · obtain ⟨hour, t, hh, ht, htlen, htd⟩ := digits_split (s := s.drop 8)
      (fun c hc => hdigits c (List.mem_of_mem_drop hc)) 2 (by rw [List.length_drop]; omega)
    rw [List.length_drop] at htlen
    obtain ⟨minute, u, hm, rfl, hulen, hud⟩ := digits_split htd 2 (by omega)
    obtain ⟨second, v, hs, rfl, hvlen, -⟩ := digits_split hud 2 (by omega)
    obtain rfl : v = [] := List.eq_nil_of_length_eq_zero (by omega)
    rw [List.append_nil] at ht
    rw [ht] at hsplit
    rw [hsplit, (parse_packedTime hrange hh hm hs).2] at hmicros
    split_ifs at hmicros with hvalid
    obtain rfl := Option.some.inj hmicros
    by_cases hmidnight : hour = 23 ∧ minute = 59 ∧ second = 60
    · obtain ⟨rfl, rfl, rfl⟩ := hmidnight
      have hnext : (d.toDay * dayMicros + (23 * 3600 + 59 * 60 + 60 : Nat) * 1000000) / dayMicros = d.toDay + 1 := by
        unfold dayMicros
        omega
      rw [microsInRange_iff, hnext, last_day_iff hrange] at hin
      exact absurd ⟨d, hrange, hin, hsplit⟩ hleap
    · unfold dayMicros
      omega

/-- Digits that are no date are no date and time. -/
theorem readPackedTime_none {s : List Char} (hdate : readPackedDate s = none) : readPackedTime s = none := by
  unfold readPackedTime
  split_ifs with hs
  · obtain ⟨hlength, hall⟩ := hs
    obtain ⟨year, t₁, hy, rfl, hl₁, hd₁⟩ := digits_split (List.all_eq_true.mp hall) 4 (by omega)
    obtain ⟨month, t₂, hm, rfl, hl₂, hd₂⟩ := digits_split hd₁ 2 (by omega)
    obtain ⟨day, t₃, hd, rfl, hl₃, hd₃⟩ := digits_split hd₂ 2 (by omega)
    obtain ⟨hour, t₄, hh, rfl, hl₄, hd₄⟩ := digits_split hd₃ 2 (by omega)
    obtain ⟨minute, t₅, hmin, rfl, hl₅, hd₅⟩ := digits_split hd₄ 2 (by omega)
    obtain ⟨second, t₆, hsec, rfl, hl₆, -⟩ := digits_split hd₅ 2 (by omega)
    obtain rfl : t₆ = [] := List.eq_nil_of_length_eq_zero (by omega)
    have htake : (pad 4 year ++ (pad 2 month ++ (pad 2 day ++ (pad 2 hour ++ (pad 2 minute ++ (pad 2 second ++ [])))))).take
        8 = pad 4 year ++ (pad 2 month ++ pad 2 day) := by
      rw [← List.append_assoc, ← List.append_assoc, List.take_left', List.append_assoc]
      simp only [List.length_append, pad_length]
    have hread := readItems_packedDate hy hm hd {} []
    rw [List.append_nil] at hread
    unfold readPackedDate TimeFormat.read at hdate
    rw [if_pos ⟨.inr hlength, hall⟩, htake, hread] at hdate
    have hof : Date.of year month day = none := hdate
    have hnone : TimeFormat.Parsed.naive
        { year := year, month := month, day := day, hour := hour, minute := minute, second := second } = none := by
      unfold TimeFormat.Parsed.naive TimeFormat.Parsed.date
      rw [hof]
      rfl
    unfold readNaive
    rw [List.append_nil, readItems_packedTime hy hm hd hh hmin hsec, Option.bind_some, hnone]
  · rfl

/-- As a number both count from 1970. -/
theorem agree_of_number {s : List Char} {days micros : Int} (hdate : readPackedDate s = none)
    (hdays : (Text.parseSigned i64Min i64Max s).map (fun n => if isEpochMillis s then n / 86400000 else n / 86400) =
      some days) (hmicros : parseMicrosUnchecked s = some micros) : micros / dayMicros = days := by
  obtain ⟨n, hn, rfl⟩ := Option.map_eq_some_iff.mp hdays
  obtain ⟨-, hzoned, hcivil⟩ := no_civil_of_parseSigned hn
  have htime := readPackedTime_none hdate
  unfold parseMicrosUnchecked at hmicros
  rw [hzoned, hcivil, htime, hn] at hmicros
  dsimp only [Option.or, Option.bind_some] at hmicros
  unfold dayMicros
  by_cases hmillis : isEpochMillis s = true
  · rw [if_pos hmillis] at hmicros ⊢
    unfold checkedMul at hmicros
    split_ifs at hmicros
    obtain rfl := Option.some.inj hmicros
    omega
  · rw [if_neg hmillis] at hmicros ⊢
    unfold checkedMul at hmicros
    split_ifs at hmicros
    obtain rfl := Option.some.inj hmicros
    omega

/-- The two parsers put a text on one day exactly when it is not eight digits that spell another day, nor a leap second at
the end of one. -/
theorem api_days_agree_iff (s : List Char) :
    (∀ days micros, parseDateDays s = some days → parseTsMicros s = some micros → micros / dayMicros = days) ↔
      ¬EightDigitDay s ∧ ¬LeapSecondAtMidnight s := by
  constructor
  · intro hagree
    constructor
    · rintro ⟨d, hrange, rfl, hne⟩
      have hfour := FourDigits.of_range hrange
      obtain ⟨hdays, hmicros⟩ := parse_packedText hfour
      have hin := (daysInRange_iff d).mpr hrange
      have hmicrosIn : microsInRange ((packedNumber d : Int) * 1000000) = true := by
        have hday := d.day_le
        have hmonth := d.month_mem
        unfold microsInRange minMicros maxMicros minDays maxDays packedNumber
        simp only [Bool.and_eq_true, decide_eq_true_eq]
        omega
      have hsame := hagree _ _ (parseDateDays_eq_some.mpr ⟨hdays, hin⟩) (parseTsMicros_eq_some.mpr ⟨hmicros, hmicrosIn⟩)
      exact hne ((packedNumber_eq_iff hfour).mp ((packed_seconds_iff hrange).mp hsame))
    · rintro ⟨d, hrange, hlast, rfl⟩
      have hparse := parse_packedTime hrange (show 23 < 100 by decide) (show 59 < 100 by decide) (show 60 < 100 by decide)
      have htext : pad 2 23 ++ (pad 2 59 ++ pad 2 60) = "235960".toList := by decide
      rw [htext, if_pos (by decide)] at hparse
      have hmidnight : d.toDay * dayMicros + (23 * 3600 + 59 * 60 + 60 : Nat) * 1000000 = (d.toDay + 1) * dayMicros := by
        unfold dayMicros
        omega
      have hnext : (d.toDay + 1) * dayMicros / dayMicros = d.toDay + 1 := Int.mul_ediv_cancel _ (by decide)
      rw [hmidnight] at hparse
      have hsame := hagree _ _ (parseDateDays_eq_some.mpr ⟨hparse.1, (daysInRange_iff d).mpr hrange⟩)
        (parseTsMicros_eq_some.mpr ⟨hparse.2, by rw [microsInRange_iff, hnext, last_day_iff hrange]; exact hlast⟩)
      omega
  · rintro ⟨hpacked, hleap⟩ days micros hdays hmicros
    obtain ⟨hdays, hin⟩ := parseDateDays_eq_some.mp hdays
    obtain ⟨hmicros, hmicrosIn⟩ := parseTsMicros_eq_some.mp hmicros
    unfold parseDaysUnchecked at hdays
    cases hiso : parseIso s with
    | some d =>
      rw [parseMicros_of_parseIso hiso] at hmicros
      cases hmicros
    | none =>
      rw [hiso, Option.none_or] at hdays
      cases hdate : readPackedDate s with
      | some d =>
        rw [hdate] at hdays
        obtain rfl := Option.some.inj hdays
        have hrange := (daysInRange_iff d).mp hin
        exact agree_of_packed hdate hrange hpacked hleap hmicros hmicrosIn
      | none =>
        rw [hdate] at hdays
        exact agree_of_number hdate hdays hmicros

/-- `yyyyMMdd` as a date is 2024-01-01, and as a timestamp it is in August 1970. -/
theorem packed_date_is_seconds :
    ¬∀ days micros, parseDateDays "20240101".toList = some days → parseTsMicros "20240101".toList = some micros →
      micros / dayMicros = days := by
  intro hagree
  have hdays : parseDateDays "20240101".toList = some 19723 := by decide +kernel
  have hmicros : parseTsMicros "20240101".toList = some 20240101000000 := by decide +kernel
  exact absurd (hagree _ _ hdays hmicros) (by decide)

end Quickhouse
