import Mathlib.Data.List.Lex
import Mathlib.Data.List.TakeWhile
import Mathlib.Tactic.Ring
import Quickhouse.Lib.Text

/-!
# The civil calendar and its texts

A day is counted from 1970-01-01; `ofDay` is its date in the proleptic Gregorian calendar.  `isoText` writes a date as
`YYYY-MM-DD`, a year outside `0 … 9999` with its sign, and `parseIso` reads a date.  Between two years of four digits
the order of the texts is the order of the days (`isoText_lt`).
-/

namespace Civil

/-! ### Dates and days -/

def isLeap (year : Int) : Bool := year % 4 = 0 && (year % 100 ≠ 0 || year % 400 = 0)

/-- The days before the year, from the start of year 0. -/
def daysBefore (year : Int) : Int := 365 * year + (year + 3) / 4 - (year + 99) / 100 + (year + 399) / 400

/-- The days of the year before the month. -/
def monthStart (leap : Bool) (month : Nat) : Nat :=
  [0, 0, 31, 59, 90, 120, 151, 181, 212, 243, 273, 304, 334].getD month 365 + if leap && 2 < month then 1 else 0

structure Date where
  year : Int
  month : Nat
  day : Nat
  month_mem : 1 ≤ month ∧ month ≤ 12
  day_mem : 1 ≤ day ∧ monthStart (isLeap year) month + day ≤ monthStart (isLeap year) (month + 1)
  deriving DecidableEq, Repr

/-- The day number of a year, a month and a day of it. -/
def dayNumber (year : Int) (month day : Nat) : Int :=
  daysBefore year + monthStart (isLeap year) month + day - 1 - 719528

def Date.toDay (d : Date) : Int := dayNumber d.year d.month d.day

/-- The year that holds the day counted from the start of year 0. -/
def yearOf (n : Int) : Int :=
  let year := n * 400 / 146097
  if n < daysBefore year then year - 1 else if daysBefore (year + 1) ≤ n then year + 1 else year

/-- The month that holds the day of the year. -/
def monthOf (leap : Bool) (n : Nat) : Nat := (List.range 12).countP fun i => monthStart leap (i + 1) ≤ n

theorem daysBefore_succ (year : Int) : daysBefore (year + 1) = daysBefore year + if isLeap year then 366 else 365 := by
  unfold daysBefore isLeap
  by_cases h4 : year % 4 = 0
  · by_cases h100 : year % 100 = 0
    · by_cases h400 : year % 400 = 0
      · simp [h4, h400]
        omega
      · simp [h4, h100, h400]
        omega
    · simp [h4, h100]
      omega
  · simp [h4]
    omega

theorem daysBefore_le {a b : Int} (h : a ≤ b) : daysBefore a ≤ daysBefore b := by
  unfold daysBefore
  omega

theorem yearOf_spec (n : Int) : daysBefore (yearOf n) ≤ n ∧ n < daysBefore (yearOf n + 1) := by
  have hyear : ∀ y, y = n * 400 / 146097 → daysBefore (y - 1) ≤ n ∧ n < daysBefore (y + 2) := by
    intro y hy
    unfold daysBefore
    omega
  obtain ⟨hlow, hhigh⟩ := hyear _ rfl
  unfold yearOf
  dsimp only
  split
  · rename_i h
    rw [Int.sub_add_cancel]
    exact ⟨hlow, h⟩
  · split
    · rename_i h
      exact ⟨h, by rwa [add_assoc]⟩
    · omega

theorem monthOf_spec : ∀ (leap : Bool) (n : Nat), n < (if leap then 366 else 365) →
    (1 ≤ monthOf leap n ∧ monthOf leap n ≤ 12) ∧
      monthStart leap (monthOf leap n) ≤ n ∧ n < monthStart leap (monthOf leap n + 1) := by
  have h365 : ∀ n < 365, (1 ≤ monthOf false n ∧ monthOf false n ≤ 12) ∧
      monthStart false (monthOf false n) ≤ n ∧ n < monthStart false (monthOf false n + 1) := by decide +kernel
  have h366 : ∀ n < 366, (1 ≤ monthOf true n ∧ monthOf true n ≤ 12) ∧
      monthStart true (monthOf true n) ≤ n ∧ n < monthStart true (monthOf true n + 1) := by decide +kernel
  intro leap n hn
  cases leap with
  | false => exact h365 n hn
  | true => exact h366 n hn

theorem monthOf_mono (leap : Bool) {n m : Nat} (h : n ≤ m) : monthOf leap n ≤ monthOf leap m := by
  unfold monthOf
  refine List.countP_mono_left fun i _ hi => ?_
  have := of_decide_eq_true hi
  exact decide_eq_true (by omega)

/-- The day of its year, from 0. -/
def dayOfYear (n : Int) : Nat := (n + 719528 - daysBefore (yearOf (n + 719528))).toNat

theorem dayOfYear_spec (n : Int) :
    (dayOfYear n : Int) = n + 719528 - daysBefore (yearOf (n + 719528)) ∧
      dayOfYear n < if isLeap (yearOf (n + 719528)) then 366 else 365 := by
  obtain ⟨hlow, hhigh⟩ := yearOf_spec (n + 719528)
  rw [daysBefore_succ] at hhigh
  unfold dayOfYear
  by_cases h : isLeap (yearOf (n + 719528)) = true
  · rw [if_pos h] at hhigh ⊢
    omega
  · rw [if_neg h] at hhigh ⊢
    omega

/-- The date of a day. -/
def ofDay (n : Int) : Date where
  year := yearOf (n + 719528)
  month := monthOf (isLeap (yearOf (n + 719528))) (dayOfYear n)
  day := dayOfYear n - monthStart (isLeap (yearOf (n + 719528)))
    (monthOf (isLeap (yearOf (n + 719528))) (dayOfYear n)) + 1
  month_mem := (monthOf_spec _ _ (dayOfYear_spec n).2).1
  day_mem := by
    have h := (monthOf_spec _ _ (dayOfYear_spec n).2).2
    omega

theorem toDay_ofDay (n : Int) : (ofDay n).toDay = n := by
  have hday := (dayOfYear_spec n).1
  have hmonth := (monthOf_spec _ _ (dayOfYear_spec n).2).2.1
  unfold Date.toDay dayNumber ofDay
  dsimp only
  omega

/-- A later day has a later date. -/
theorem ofDay_lt {n m : Int} (h : n < m) :
    (ofDay n).year < (ofDay m).year ∨ (ofDay n).year = (ofDay m).year ∧
      ((ofDay n).month < (ofDay m).month ∨ (ofDay n).month = (ofDay m).month ∧ (ofDay n).day < (ofDay m).day) := by
  obtain ⟨hnlow, hnhigh⟩ := yearOf_spec (n + 719528)
  obtain ⟨hmlow, hmhigh⟩ := yearOf_spec (m + 719528)
  rcases lt_trichotomy (yearOf (n + 719528)) (yearOf (m + 719528)) with hy | hy | hy
  · exact .inl hy
  · refine .inr ⟨hy, ?_⟩
    have hn := dayOfYear_spec n
    have hm := dayOfYear_spec m
    have hnm := (monthOf_spec _ _ hn.2).2
    have hmm := (monthOf_spec _ _ hm.2).2
    have hlt : dayOfYear n < dayOfYear m := by
      rw [← hy] at hm
      omega
    have hle := monthOf_mono (isLeap (yearOf (n + 719528))) (Nat.le_of_lt hlt)
    unfold ofDay
    dsimp only
    rw [← hy] at hmm ⊢
    rcases Nat.lt_or_eq_of_le hle with hmonth | hmonth
    · exact .inl hmonth
    · refine .inr ⟨hmonth, ?_⟩
      rw [← hmonth] at hmm ⊢
      omega
  · have := daysBefore_le (show yearOf (m + 719528) + 1 ≤ yearOf (n + 719528) by omega)
    omega

/-- A date lies in its year. -/
theorem Date.toDay_mem (d : Date) :
    daysBefore d.year ≤ d.toDay + 719528 ∧ d.toDay + 719528 < daysBefore (d.year + 1) := by
  have hmonth : ∀ leap : Bool, ∀ m < 13, 1 ≤ m → monthStart leap (m + 1) ≤ if leap then 366 else 365 := by decide
  have hend := hmonth (isLeap d.year) d.month (by have := d.month_mem; omega) d.month_mem.1
  have hday := d.day_mem
  rw [daysBefore_succ]
  unfold Date.toDay dayNumber
  by_cases hleap : isLeap d.year = true
  · rw [if_pos hleap] at hend ⊢
    omega
  · rw [if_neg hleap] at hend ⊢
    omega

/-! ### Texts -/

/-- The number with `width` digits. -/
def pad : Nat → Nat → List Char
  | 0, _ => []
  | width + 1, n => pad width (n / 10) ++ [Nat.digitChar (n % 10)]

def isoYear (year : Int) : List Char :=
  if 0 ≤ year ∧ year ≤ 9999 then pad 4 year.toNat
  else (if year < 0 then '-' else '+') ::
    if year.natAbs ≤ 9999 then pad 4 year.natAbs else Nat.toDigits 10 year.natAbs

/-- `%Y-%m-%d` -/
def isoText (d : Date) : List Char := isoYear d.year ++ '-' :: (pad 2 d.month ++ '-' :: pad 2 d.day)

/-- A run of digits, at most so many, and what follows it. -/
def scanNumber (width : Option Nat) (s : List Char) : Option (Nat × List Char) :=
  let digits := (s.takeWhile Char.isDigit).take (width.getD s.length)
  if digits = [] then none else some (Nat.ofDigitChars 10 digits 0, s.drop digits.length)

/-- A year: four digits, or more behind a sign. -/
def scanYear (s : List Char) : Option (Int × List Char) :=
  match s with
  | '-' :: rest => (scanNumber none rest).map fun (n, rest) => (-(n : Int), rest)
  | '+' :: rest => (scanNumber none rest).map fun (n, rest) => ((n : Int), rest)
  | _ => (scanNumber (some 4) s).map fun (n, rest) => ((n : Int), rest)

/-- The years that are represented. -/
def minYear : Int := -262143
def maxYear : Int := 262142

def Date.of (year : Int) (month day : Nat) : Option Date :=
  if h : (minYear ≤ year ∧ year ≤ maxYear) ∧ (1 ≤ month ∧ month ≤ 12) ∧
      1 ≤ day ∧ monthStart (isLeap year) month + day ≤ monthStart (isLeap year) (month + 1) then
    some ⟨year, month, day, h.2.1, h.2.2⟩
  else none

/-- What `%Y-%m-%d` reads: white space may stand before each number. -/
def parseIso (s : List Char) : Option Date := do
  let (year, s) ← scanYear (s.dropWhile Text.isWhitespace)
  let s ← Text.stripPrefix "-" s
  let (month, s) ← scanNumber (some 2) (s.dropWhile Text.isWhitespace)
  let s ← Text.stripPrefix "-" s
  let (day, s) ← scanNumber (some 2) (s.dropWhile Text.isWhitespace)
  if s = [] then Date.of year month day else none

/-! ### What a scan leaves -/

theorem scanNumber_suffix {width : Option Nat} {s rest : List Char} {n : Nat} (h : scanNumber width s = some (n, rest)) :
    rest <:+ s.tail := by
  unfold scanNumber at h
  dsimp only at h
  split_ifs at h with hne
  obtain ⟨-, rfl⟩ := Prod.mk.inj (Option.some.inj h)
  have hpos := List.length_pos_of_ne_nil hne
  rw [← List.drop_one, show (((s.takeWhile Char.isDigit).take (width.getD s.length)).length) =
    1 + (((s.takeWhile Char.isDigit).take (width.getD s.length)).length - 1) by omega, ← List.drop_drop]
  exact List.drop_suffix _ _

theorem scanYear_suffix {s rest : List Char} {year : Int} (h : scanYear s = some (year, rest)) : rest <:+ s.tail := by
  unfold scanYear at h
  split at h
  · obtain ⟨⟨n, r⟩, hscan, heq⟩ := Option.map_eq_some_iff.mp h
    obtain ⟨-, rfl⟩ := Prod.mk.inj heq
    exact (scanNumber_suffix hscan).trans (List.tail_suffix _)
  · obtain ⟨⟨n, r⟩, hscan, heq⟩ := Option.map_eq_some_iff.mp h
    obtain ⟨-, rfl⟩ := Prod.mk.inj heq
    exact (scanNumber_suffix hscan).trans (List.tail_suffix _)
  · obtain ⟨⟨n, r⟩, hscan, heq⟩ := Option.map_eq_some_iff.mp h
    obtain ⟨-, rfl⟩ := Prod.mk.inj heq
    exact scanNumber_suffix hscan

/-! ### Padded numbers -/

theorem pad_length (width n : Nat) : (pad width n).length = width := by
  induction width generalizing n with
  | zero => rfl
  | succ width ih =>
    unfold pad
    rw [List.length_append, ih]
    rfl

theorem isDigit_digitChar : ∀ d < 10, (Nat.digitChar d).isDigit = true := by decide

theorem pad_isDigit {width n : Nat} : ∀ c ∈ pad width n, c.isDigit = true := by
  induction width generalizing n with
  | zero => simp [pad]
  | succ width ih =>
    intro c hc
    rcases List.mem_append.mp hc with hc | hc
    · exact ih c hc
    · obtain rfl := List.mem_singleton.mp hc
      exact isDigit_digitChar _ (by omega)

theorem ofDigitChars_pad {width n : Nat} (h : n < 10 ^ width) : Nat.ofDigitChars 10 (pad width n) 0 = n := by
  have hdigit : ∀ d < 10, (Nat.digitChar d).toNat - '0'.toNat = d := by decide
  induction width generalizing n with
  | zero =>
    have : n = 0 := by simpa using h
    rw [this]
    rfl
  | succ width ih =>
    unfold pad
    rw [Nat.ofDigitChars_append, ih (by rw [pow_succ] at h; omega), Nat.ofDigitChars_cons, Nat.ofDigitChars_nil,
      hdigit _ (by omega)]
    omega

/-- Digits are the number that they say, written with as many. -/
theorem pad_ofDigitChars {ds : List Char} (h : ∀ c ∈ ds, c.isDigit = true) :
    pad ds.length (Nat.ofDigitChars 10 ds 0) = ds := by
  have hdigit : ∀ c : Char, c.isDigit = true → c.toNat - '0'.toNat < 10 ∧ Nat.digitChar (c.toNat - '0'.toNat) = c := by
    intro c hc
    simp only [Char.isDigit, Bool.and_eq_true, decide_eq_true_eq, ge_iff_le] at hc
    have h1 : 48 ≤ c.toNat := hc.1
    have h2 : c.toNat ≤ 57 := hc.2
    have hall : ∀ n < 58, 48 ≤ n → n - '0'.toNat < 10 ∧ (Nat.digitChar (n - '0'.toNat)).toNat = n := by decide
    obtain ⟨hlt, heq⟩ := hall c.toNat (by omega) h1
    exact ⟨hlt, Char.toNat_inj.mp heq⟩
  induction ds using List.reverseRecOn with
  | nil => rfl
  | append_singleton ds c ih =>
    obtain ⟨hlt, hchar⟩ := hdigit c (h c (by simp))
    have ih := ih fun x hx => h x (List.mem_append_left _ hx)
    rw [List.length_append, List.length_singleton, Nat.ofDigitChars_append, Nat.ofDigitChars_cons, Nat.ofDigitChars_nil]
    unfold pad
    rw [show (10 * Nat.ofDigitChars 10 ds 0 + (c.toNat - '0'.toNat)) / 10 = Nat.ofDigitChars 10 ds 0 by omega,
      show (10 * Nat.ofDigitChars 10 ds 0 + (c.toNat - '0'.toNat)) % 10 = c.toNat - '0'.toNat by omega, ih, hchar]

theorem ofDigitChars_lt {ds : List Char} (h : ∀ c ∈ ds, c.isDigit = true) : Nat.ofDigitChars 10 ds 0 < 10 ^ ds.length := by
  induction ds using List.reverseRecOn with
  | nil => decide
  | append_singleton ds c ih =>
    have ih := ih fun x hx => h x (List.mem_append_left _ hx)
    have hc := h c (by simp)
    simp only [Char.isDigit, Bool.and_eq_true, decide_eq_true_eq, ge_iff_le] at hc
    have h2 : c.toNat ≤ 57 := hc.2
    have hzero : '0'.toNat = 48 := rfl
    rw [List.length_append, List.length_singleton, pow_succ, Nat.ofDigitChars_append, Nat.ofDigitChars_cons,
      Nat.ofDigitChars_nil]
    omega

/-- Texts of one length, followed by any others. -/
theorem append_lt_append {a b : List Char} (hlen : a.length = b.length) (h : a < b) (x y : List Char) :
    a ++ x < b ++ y := by
  induction h with
  | nil => simp at hlen
  | rel h => exact List.Lex.rel h
  | cons h ih => exact List.Lex.cons (ih (by simpa using hlen))

theorem append_lt_append_left {x y : List Char} (h : x < y) (a : List Char) : a ++ x < a ++ y := by
  induction a with
  | nil => exact h
  | cons c a ih => exact List.Lex.cons ih

theorem pad_lt {width n m : Nat} (h : n < m) (hm : m < 10 ^ width) : pad width n < pad width m := by
  have hdigit : ∀ a < 10, ∀ b < 10, a < b → Nat.digitChar a < Nat.digitChar b := by decide
  induction width generalizing n m with
  | zero => simp at hm; omega
  | succ width ih =>
    unfold pad
    rw [pow_succ] at hm
    by_cases hlt : n / 10 < m / 10
    · exact append_lt_append (by rw [pad_length, pad_length]) (ih hlt (by omega)) _ _
    · have heq : n / 10 = m / 10 := by omega
      rw [heq]
      exact append_lt_append_left (List.Lex.rel (hdigit _ (by omega) _ (by omega) (by omega))) _

theorem scanNumber_pad {width n : Nat} (hwidth : 0 < width) (h : n < 10 ^ width) (rest : List Char) :
    scanNumber (some width) (pad width n ++ rest) = some (n, rest) := by
  have hdigits : ((pad width n ++ rest).takeWhile Char.isDigit).take width = pad width n := by
    rw [List.takeWhile_append_of_pos pad_isDigit, List.take_left' (pad_length width n)]
  have hne : pad width n ≠ [] := by
    intro hnil
    have := pad_length width n
    rw [hnil] at this
    simp at this
    omega
  unfold scanNumber
  dsimp only [Option.getD_some]
  rw [hdigits, if_neg hne, ofDigitChars_pad h, List.drop_left]

/-! ### Dates of four-digit years -/

def FourDigits (d : Date) : Prop := 0 ≤ d.year ∧ d.year ≤ 9999

instance (d : Date) : Decidable (FourDigits d) := inferInstanceAs (Decidable (_ ∧ _))

theorem Date.day_le (d : Date) : d.day ≤ 31 := by
  have hmonth : ∀ leap : Bool, ∀ m < 13, 1 ≤ m → monthStart leap (m + 1) ≤ monthStart leap m + 31 := by decide
  have h := hmonth (isLeap d.year) d.month (by have := d.month_mem; omega) d.month_mem.1
  have := d.day_mem
  omega

theorem isoYear_eq {d : Date} (h : FourDigits d) : isoYear d.year = pad 4 d.year.toNat := if_pos h

theorem isoText_eq {d : Date} (h : FourDigits d) :
    isoText d = pad 4 d.year.toNat ++ '-' :: (pad 2 d.month ++ '-' :: pad 2 d.day) := by
  unfold isoText
  rw [isoYear_eq h]

theorem isoText_lt {n m : Int} (hn : FourDigits (ofDay n)) (hm : FourDigits (ofDay m)) (h : n < m) :
    isoText (ofDay n) < isoText (ofDay m) := by
  have hday := (ofDay m).day_le
  have hmonth := (ofDay m).month_mem
  rw [isoText_eq hn, isoText_eq hm]
  unfold FourDigits at hn hm
  rcases ofDay_lt h with hy | ⟨hy, hmd⟩
  · exact append_lt_append (by rw [pad_length, pad_length]) (pad_lt (by omega) (by omega)) _ _
  · rw [hy]
    refine append_lt_append_left (List.Lex.cons ?_) _
    rcases hmd with hmlt | ⟨hmeq, hd⟩
    · exact append_lt_append (by rw [pad_length, pad_length]) (pad_lt hmlt (by omega)) _ _
    · rw [hmeq]
      exact append_lt_append_left (List.Lex.cons (pad_lt hd (by omega))) _

theorem isoText_lt_iff {n m : Int} (hn : FourDigits (ofDay n)) (hm : FourDigits (ofDay m)) :
    isoText (ofDay n) < isoText (ofDay m) ↔ n < m := by
  constructor
  · intro h
    rcases lt_trichotomy n m with hlt | rfl | hlt
    · exact hlt
    · exact absurd h (lt_irrefl _)
    · exact absurd h (lt_asymm (isoText_lt hm hn hlt))
  · exact isoText_lt hn hm

theorem isoText_injective {n m : Int} (hn : FourDigits (ofDay n)) (hm : FourDigits (ofDay m))
    (h : isoText (ofDay n) = isoText (ofDay m)) : n = m := by
  rcases lt_trichotomy n m with hlt | heq | hlt
  · exact absurd (h ▸ isoText_lt hn hm hlt) (lt_irrefl _)
  · exact heq
  · exact absurd (h ▸ isoText_lt hm hn hlt) (lt_irrefl _)

theorem isoText_chars {d : Date} (h : FourDigits d) {c : Char} (hc : c ∈ isoText d) : c.isDigit = true ∨ c = '-' := by
  rw [isoText_eq h] at hc
  simp only [List.mem_append, List.mem_cons] at hc
  rcases hc with hyear | hminus | hmonth | hminus | hday
  · exact .inl (pad_isDigit c hyear)
  · exact .inr hminus
  · exact .inl (pad_isDigit c hmonth)
  · exact .inr hminus
  · exact .inl (pad_isDigit c hday)

theorem pad_head {width n : Nat} (hwidth : 0 < width) : ∃ c rest, pad width n = c :: rest ∧ c.isDigit = true := by
  cases hpad : pad width n with
  | nil =>
    have := pad_length width n
    rw [hpad] at this
    simp at this
    omega
  | cons c rest =>
    have hc : c ∈ pad width n := by
      rw [hpad]
      exact List.mem_cons_self
    exact ⟨c, rest, rfl, pad_isDigit c hc⟩

/-- A year before year 0 sorts before one of four digits: its text starts with the sign. -/
theorem isoText_lt_of_neg {d e : Date} (hd : d.year < 0) (he : FourDigits e) : isoText d < isoText e := by
  obtain ⟨c, rest, hpad, hc⟩ := @pad_head 4 e.year.toNat (by decide)
  rw [isoText_eq he, hpad]
  unfold isoText isoYear
  rw [if_neg (by omega), if_pos hd]
  refine List.Lex.rel ?_
  have h0 : 48 ≤ c.toNat := by
    simp only [Char.isDigit, Bool.and_eq_true, decide_eq_true_eq, ge_iff_le] at hc
    exact hc.1
  show ('-' : Char).toNat < c.toNat
  have : ('-' : Char).toNat = 45 := by decide
  omega

/-- A date with the text of one of a four-digit year has such a year. -/
theorem fourDigits_of_isoText {d e : Date} (he : FourDigits e) (h : isoText d = isoText e) : FourDigits d := by
  by_contra hd
  obtain ⟨c, rest, hpad, hc⟩ := @pad_head 4 e.year.toNat (by decide)
  rw [isoText_eq he, hpad] at h
  unfold isoText isoYear at h
  rw [if_neg (show ¬ (0 ≤ d.year ∧ d.year ≤ 9999) from hd)] at h
  -- the text of any other date starts with a sign
  have hhead := (List.cons.inj h).1
  split at hhead
  · rw [← hhead] at hc
    cases hc
  · rw [← hhead] at hc
    cases hc

theorem dropWhile_digits {width n : Nat} (hwidth : 0 < width) (rest : List Char) :
    (pad width n ++ rest).dropWhile Text.isWhitespace = pad width n ++ rest := by
  obtain ⟨c, tail, hpad, hc⟩ := @pad_head width n hwidth
  have hspace : Text.isWhitespace c = false := by
    simp only [Char.isDigit, Bool.and_eq_true, decide_eq_true_eq, ge_iff_le] at hc
    have h1 : 48 ≤ c.toNat := hc.1
    have h2 : c.toNat ≤ 57 := hc.2
    unfold Text.isWhitespace
    simp
    omega
  rw [hpad, List.cons_append, List.dropWhile_cons, if_neg (by simp [hspace])]

/-- No digit comes next. -/
def NoDigitNext (rest : List Char) : Prop := ∀ c ∈ rest.head?, c.isDigit = false

theorem scanNumber_all {digits rest : List Char} (hdigits : ∀ c ∈ digits, c.isDigit = true) (hne : digits ≠ [])
    (hrest : NoDigitNext rest) : scanNumber none (digits ++ rest) = some (Nat.ofDigitChars 10 digits 0, rest) := by
  have htake : (digits ++ rest).takeWhile Char.isDigit = digits := by
    rw [List.takeWhile_append_of_pos hdigits]
    cases rest with
    | nil => exact List.append_nil _
    | cons c rest => rw [List.takeWhile_cons, if_neg (by rw [hrest c rfl]; exact Bool.false_ne_true), List.append_nil]
  unfold scanNumber
  dsimp only [Option.getD_none]
  rw [htake, List.take_of_length_le (by rw [List.length_append]; omega), if_neg hne, List.drop_left]

/-- The digits of a year behind a sign. -/
def signedDigits (n : Nat) : List Char := if n ≤ 9999 then pad 4 n else Nat.toDigits 10 n

theorem signedDigits_isDigit {n : Nat} : ∀ c ∈ signedDigits n, c.isDigit = true := by
  unfold signedDigits
  split_ifs
  · exact pad_isDigit
  · exact fun c hc => @Nat.isDigit_of_mem_toDigits 10 n c (by decide) (by decide) hc

theorem scanNumber_signedDigits (n : Nat) {rest : List Char} (hrest : NoDigitNext rest) :
    scanNumber none (signedDigits n ++ rest) = some (n, rest) := by
  have hvalue : Nat.ofDigitChars 10 (signedDigits n) 0 = n := by
    unfold signedDigits
    split_ifs with h
    · exact ofDigitChars_pad (by omega)
    · exact Nat.ofDigitChars_ten_toDigits
  have hne : signedDigits n ≠ [] := by
    unfold signedDigits
    split_ifs
    · exact fun h => by simpa [h] using pad_length 4 n
    · exact Nat.toDigits_ne_nil
  rw [scanNumber_all signedDigits_isDigit hne hrest, hvalue]

theorem scanYear_pad {n : Nat} (h : n < 10000) (rest : List Char) : scanYear (pad 4 n ++ rest) = some ((n : Int), rest) := by
  have hscan := @scanNumber_pad 4 n (by decide) (by omega) rest
  obtain ⟨c, tail, hpad, hc⟩ := @pad_head 4 n (by decide)
  rw [hpad, List.cons_append] at hscan ⊢
  unfold scanYear
  split
  · rename_i heq
    obtain rfl := (List.cons.inj heq).1
    cases hc
  · rename_i heq
    obtain rfl := (List.cons.inj heq).1
    cases hc
  · rw [hscan]
    rfl

/-- A year reads back. -/
theorem scanYear_isoYear (year : Int) {rest : List Char} (hrest : NoDigitNext rest) :
    scanYear (isoYear year ++ rest) = some (year, rest) := by
  by_cases h : 0 ≤ year ∧ year ≤ 9999
  · unfold isoYear
    rw [if_pos h, scanYear_pad (by omega), Int.toNat_of_nonneg h.1]
  · have htext : isoYear year = (if year < 0 then '-' else '+') :: signedDigits year.natAbs := if_neg h
    rw [htext, List.cons_append]
    by_cases hneg : year < 0
    · rw [if_pos hneg]
      show (scanNumber none (signedDigits year.natAbs ++ rest)).map (fun r => (-(r.1 : Int), r.2)) = _
      rw [scanNumber_signedDigits _ hrest, Option.map_some, Option.some.injEq, Prod.mk.injEq]
      exact ⟨by omega, rfl⟩
    · rw [if_neg hneg]
      show (scanNumber none (signedDigits year.natAbs ++ rest)).map (fun r => ((r.1 : Int), r.2)) = _
      rw [scanNumber_signedDigits _ hrest, Option.map_some, Option.some.injEq, Prod.mk.injEq]
      exact ⟨by omega, rfl⟩

theorem dropWhile_isoYear (year : Int) (rest : List Char) :
    (isoYear year ++ rest).dropWhile Text.isWhitespace = isoYear year ++ rest := by
  by_cases h : 0 ≤ year ∧ year ≤ 9999
  · unfold isoYear
    rw [if_pos h]
    exact dropWhile_digits (by decide) rest
  · unfold isoYear
    rw [if_neg h, List.cons_append]
    by_cases hneg : year < 0
    · rw [if_pos hneg]
      rfl
    · rw [if_neg hneg]
      rfl

theorem FourDigits.represented {d : Date} (h : FourDigits d) : minYear ≤ d.year ∧ d.year ≤ maxYear := by
  unfold FourDigits at h
  unfold minYear maxYear
  omega

/-- A date of a represented year reads back. -/
theorem parseIso_isoText {d : Date} (h : minYear ≤ d.year ∧ d.year ≤ maxYear) : parseIso (isoText d) = some d := by
  have hday := d.day_le
  have hmonth := d.month_mem
  have hyear : scanYear (isoText d) = some (d.year, '-' :: (pad 2 d.month ++ '-' :: pad 2 d.day)) :=
    scanYear_isoYear d.year fun c hc => by
      obtain rfl := Option.some.inj hc
      rfl
  have hfirst : (isoText d).dropWhile Text.isWhitespace = isoText d := dropWhile_isoYear d.year _
  have hlast : scanNumber (some 2) (pad 2 d.day) = some (d.day, []) := by
    have := @scanNumber_pad 2 d.day (by decide) (by omega) []
    rwa [List.append_nil] at this
  have hspace : (pad 2 d.day).dropWhile Text.isWhitespace = pad 2 d.day := by
    have := @dropWhile_digits 2 d.day (by decide) []
    rwa [List.append_nil] at this
  have hdash : ∀ rest, Text.stripPrefix "-" ('-' :: rest) = some rest := fun rest => Text.stripPrefix_append "-" rest
  have hof : Date.of d.year d.month d.day = some d := dif_pos ⟨h, d.month_mem, d.day_mem⟩
  unfold parseIso
  rw [hfirst, hyear]
  simp only [Option.bind_eq_bind, Option.bind_some, hdash, dropWhile_digits (show 0 < 2 by decide),
    scanNumber_pad (show 0 < 2 by decide) (show d.month < 10 ^ 2 by omega), hspace, hlast, hof, if_true]

end Civil
