import Quickhouse.Lib.Civil

/-!
# Times read by a format

A format is a list of items, and each takes its piece off the front of the text: a number, a character, white space, a
fraction of a second, a UTC offset.  An instant is a number of microseconds since 1970-01-01; `dateTimeText` writes one
with six digits of its second, and it reads back (`readItems_dateTimeText`).
-/

namespace TimeFormat

open Civil

def dayMicros : Int := 86400000000

/-! ### Formats -/

inductive Field where
  | year
  | month
  | day
  | hour
  | minute
  | second
  deriving DecidableEq, Repr

structure Parsed where
  year : Int := 0
  month : Nat := 0
  day : Nat := 0
  hour : Nat := 0
  minute : Nat := 0
  second : Nat := 0
  nanos : Nat := 0
  /-- Seconds east of UTC. -/
  offset : Int := 0
  deriving DecidableEq, Repr

inductive Item where
  /-- A number; white space may stand before it, and leading zeros may be missing. -/
  | number (f : Field)
  /-- A number with all its digits. -/
  | digits (f : Field)
  | oneOf (cs : List Char)
  | space
  /-- A point and digits, or nothing. -/
  | fraction
  /-- A UTC offset; a loose one may do without its colon and its minutes. -/
  | offset (loose : Bool)
  deriving DecidableEq, Repr

def Parsed.set (p : Parsed) (f : Field) (n : Nat) : Parsed :=
  match f with
  | .year => { p with year := n }
  | .month => { p with month := n }
  | .day => { p with day := n }
  | .hour => { p with hour := n }
  | .minute => { p with minute := n }
  | .second => { p with second := n }

/-- So many digits. -/
def scanDigits (width : Nat) (s : List Char) : Option (Nat × List Char) :=
  if (s.take width).length = width ∧ (s.take width).all Char.isDigit then
    some (Nat.ofDigitChars 10 (s.take width) 0, s.drop width)
  else none

/-- Nanoseconds, from the digits behind the point: those after the ninth are dropped. -/
def scanFraction (s : List Char) : Option (Nat × List Char) :=
  let digits := (s.takeWhile Char.isDigit).take 9
  if digits = [] then none
  else some (Nat.ofDigitChars 10 digits 0 * 10 ^ (9 - digits.length), s.dropWhile Char.isDigit)

def signOf (c : Char) : Option Int :=
  if c = '+' then some 1 else if c = '-' ∨ c = Char.ofNat 0x2212 then some (-1) else none

/-- What follows the colon; a loose one may be missing, or stand among white space. -/
def skipColon (loose : Bool) (s : List Char) : Option (List Char) :=
  if loose then some (s.dropWhile fun c => c = ':' || Text.isWhitespace c) else Text.stripPrefix ":" s

def scanOffset (loose : Bool) (s : List Char) : Option (Int × List Char) :=
  match if loose then s.dropWhile Text.isWhitespace else s with
  | [] => none
  | c :: s =>
    if c = 'Z' ∨ c = 'z' then some (0, s)
    else do
      let sign ← signOf c
      let (hours, s) ← scanDigits 2 s
      let s ← skipColon loose s
      if loose ∧ s = [] then some (sign * (hours * 3600 : Nat), [])
      else do
        let (minutes, s) ← scanDigits 2 s
        if minutes < 60 then some (sign * (hours * 3600 + minutes * 60 : Nat), s) else none

def readItem (i : Item) (p : Parsed) (s : List Char) : Option (Parsed × List Char) :=
  match i with
  | .number .year => (scanYear (s.dropWhile Text.isWhitespace)).map fun r => ({ p with year := r.1 }, r.2)
  | .number f => (scanNumber (some 2) (s.dropWhile Text.isWhitespace)).map fun r => (p.set f r.1, r.2)
  | .digits .year => (scanDigits 4 s).map fun r => (p.set .year r.1, r.2)
  | .digits f => (scanDigits 2 s).map fun r => (p.set f r.1, r.2)
  | .oneOf cs =>
    match s with
    | [] => none
    | c :: s => if c ∈ cs then some (p, s) else none
  | .space => some (p, s.dropWhile Text.isWhitespace)
  | .fraction =>
    match s with
    | '.' :: s => (scanFraction s).map fun r => ({ p with nanos := r.1 }, r.2)
    | _ => some (p, s)
  | .offset loose => (scanOffset loose s).map fun r => ({ p with offset := r.1 }, r.2)

def readItems : List Item → Parsed → List Char → Option (Parsed × List Char)
  | [], p, s => some (p, s)
  | i :: items, p, s => (readItem i p s).bind fun r => readItems items r.1 r.2

/-- What a whole text says. -/
def read (items : List Item) (s : List Char) : Option Parsed :=
  (readItems items {} s).bind fun r => if r.2 = [] then some r.1 else none

/-- `%Y-%m-%d` -/
def isoDate : List Item := [.number .year, .oneOf ['-'], .number .month, .oneOf ['-'], .number .day]

/-- `%H:%M:%S` -/
def clock : List Item := [.number .hour, .oneOf [':'], .number .minute, .oneOf [':'], .number .second]

/-! ### What an item leaves -/

theorem scanDigits_suffix {width n : Nat} {s rest : List Char} (h : scanDigits width s = some (n, rest)) : rest <:+ s := by
  unfold scanDigits at h
  split_ifs at h
  obtain ⟨-, rfl⟩ := Prod.mk.inj (Option.some.inj h)
  exact List.drop_suffix _ _

theorem scanFraction_suffix {n : Nat} {s rest : List Char} (h : scanFraction s = some (n, rest)) : rest <:+ s := by
  unfold scanFraction at h
  dsimp only at h
  split_ifs at h
  obtain ⟨-, rfl⟩ := Prod.mk.inj (Option.some.inj h)
  exact List.dropWhile_suffix _

theorem stripPrefix_suffix {start : String} {s rest : List Char} (h : Text.stripPrefix start s = some rest) :
    rest <:+ s := by
  unfold Text.stripPrefix at h
  split_ifs at h
  obtain rfl := Option.some.inj h
  exact List.drop_suffix _ _

theorem scanOffset_suffix {loose : Bool} {s rest : List Char} {n : Int} (h : scanOffset loose s = some (n, rest)) :
    rest <:+ s := by
  have hstart : (if loose then s.dropWhile Text.isWhitespace else s) <:+ s := by
    split_ifs
    · exact List.dropWhile_suffix _
    · exact List.suffix_refl _
  unfold scanOffset at h
  generalize (if loose then s.dropWhile Text.isWhitespace else s) = t at h hstart
  refine List.IsSuffix.trans ?_ hstart
  cases t with
  | nil => cases h
  | cons c t =>
    dsimp only at h
    by_cases hz : c = 'Z' ∨ c = 'z'
    · rw [if_pos hz] at h
      obtain ⟨-, rfl⟩ := Prod.mk.inj (Option.some.inj h)
      exact List.suffix_cons _ _
    · rw [if_neg hz] at h
      simp only [Option.bind_eq_bind, Option.bind_eq_some_iff] at h
      obtain ⟨sign, -, ⟨hours, u⟩, hhours, v, hcolon, h⟩ := h
      have hv : v <:+ u := by
        unfold skipColon at hcolon
        split_ifs at hcolon
        · obtain rfl := Option.some.inj hcolon
          exact List.dropWhile_suffix _
        · exact stripPrefix_suffix hcolon
      have hu := (hv.trans (scanDigits_suffix hhours)).trans (List.suffix_cons c t)
      split_ifs at h with hmissing
      · obtain ⟨-, rfl⟩ := Prod.mk.inj (Option.some.inj h)
        exact List.nil_suffix
      · obtain ⟨⟨minutes, w⟩, hminutes, h⟩ := Option.bind_eq_some_iff.mp h
        dsimp only at h
        split_ifs at h
        obtain ⟨-, rfl⟩ := Prod.mk.inj (Option.some.inj h)
        exact (scanDigits_suffix hminutes).trans hu

theorem readItem_suffix {i : Item} {p q : Parsed} {s rest : List Char} (h : readItem i p s = some (q, rest)) :
    rest <:+ s := by
  have hspace : s.dropWhile Text.isWhitespace <:+ s := List.dropWhile_suffix _
  cases i with
  | number f =>
    cases f with
    | year =>
      obtain ⟨r, hr, heq⟩ := Option.map_eq_some_iff.mp h
      obtain ⟨-, rfl⟩ := Prod.mk.inj heq
      exact ((scanYear_suffix hr).trans (List.tail_suffix _)).trans hspace
    | month | day | hour | minute | second =>
      obtain ⟨r, hr, heq⟩ := Option.map_eq_some_iff.mp h
      obtain ⟨-, rfl⟩ := Prod.mk.inj heq
      exact ((scanNumber_suffix hr).trans (List.tail_suffix _)).trans hspace
  | digits f =>
    cases f with
    | year | month | day | hour | minute | second =>
      obtain ⟨r, hr, heq⟩ := Option.map_eq_some_iff.mp h
      obtain ⟨-, rfl⟩ := Prod.mk.inj heq
      exact scanDigits_suffix hr
  | oneOf cs =>
    cases s with
    | nil => cases h
    | cons c s =>
      unfold readItem at h
      dsimp only at h
      split_ifs at h
      obtain ⟨-, rfl⟩ := Prod.mk.inj (Option.some.inj h)
      exact List.suffix_cons _ _
  | space =>
    obtain ⟨-, rfl⟩ := Prod.mk.inj (Option.some.inj h)
    exact hspace
  | fraction =>
    unfold readItem at h
    dsimp only at h
    split at h
    · obtain ⟨r, hr, heq⟩ := Option.map_eq_some_iff.mp h
      obtain ⟨-, rfl⟩ := Prod.mk.inj heq
      exact (scanFraction_suffix hr).trans (List.suffix_cons _ _)
    · obtain ⟨-, rfl⟩ := Prod.mk.inj (Option.some.inj h)
      exact List.suffix_refl _
  | offset loose =>
    obtain ⟨r, hr, heq⟩ := Option.map_eq_some_iff.mp h
    obtain ⟨-, rfl⟩ := Prod.mk.inj heq
    exact scanOffset_suffix hr

/-- A character that the format asks for is in the text. -/
theorem mem_of_readItems {items : List Item} {c : Char} {p q : Parsed} {s rest : List Char} (hc : .oneOf [c] ∈ items)
    (h : readItems items p s = some (q, rest)) : c ∈ s := by
  induction items generalizing p s with
  | nil => cases hc
  | cons i items ih =>
    obtain ⟨⟨p', s'⟩, hi, hrest⟩ := Option.bind_eq_some_iff.mp h
    rcases List.mem_cons.mp hc with rfl | hc
    · cases s with
      | nil => cases hi
      | cons d s =>
        unfold readItem at hi
        dsimp only at hi
        split_ifs at hi with hd
        obtain rfl := List.mem_singleton.mp hd
        exact List.mem_cons_self
    · exact (readItem_suffix hi).subset (ih hc hrest)

theorem mem_of_read {items : List Item} {c : Char} {p : Parsed} {s : List Char} (hc : .oneOf [c] ∈ items)
    (h : read items s = some p) : c ∈ s := by
  obtain ⟨r, hr, -⟩ := Option.bind_eq_some_iff.mp h
  exact mem_of_readItems hc hr

/-! ### Instants -/

/-- The days of the represented years. -/
def minDay : Int := daysBefore minYear - 719528
def maxDay : Int := daysBefore (maxYear + 1) - 719528 - 1

def Represented (day : Int) : Prop := minDay ≤ day ∧ day ≤ maxDay

instance (day : Int) : Decidable (Represented day) := inferInstanceAs (Decidable (_ ∧ _))

namespace Parsed

def date (p : Parsed) : Option Date := Date.of p.year p.month p.day

/-- The microseconds of the day; a leap second reaches into the second after it. -/
def microsOfDay (p : Parsed) : Option Int :=
  if p.hour ≤ 23 ∧ p.minute ≤ 59 ∧ p.second ≤ 60 then
    some ((p.hour * 3600 + p.minute * 60 + p.second) * 1000000 + p.nanos / 1000 : Nat)
  else none

/-- The instant of a civil time taken as UTC. -/
def naive (p : Parsed) : Option Int := do
  let d ← p.date
  let micros ← p.microsOfDay
  some (d.toDay * dayMicros + micros)

/-- The instant of a civil time at its offset. -/
def zoned (p : Parsed) : Option Int := do
  let d ← p.date
  let micros ← p.microsOfDay
  let second := (p.hour * 3600 + p.minute * 60 + min p.second 59 : Nat) - p.offset
  if (-86400 < p.offset ∧ p.offset < 86400) ∧ Represented (d.toDay + second / 86400) then
    some (d.toDay * dayMicros + micros - p.offset * 1000000)
  else none

end Parsed

def readNaive (items : List Item) (s : List Char) : Option Int := (read items s).bind Parsed.naive

def readZoned (items : List Item) (s : List Char) : Option Int := (read items s).bind Parsed.zoned

/-! ### Texts -/

/-- `%H:%M:%S%.6f` -/
def timeText (micros : Nat) : List Char :=
  pad 2 (micros / 3600000000) ++ ':' :: (pad 2 (micros / 60000000 % 60) ++ ':' :: (pad 2 (micros / 1000000 % 60) ++
    '.' :: pad 6 (micros % 1000000)))

/-- `%Y-%m-%d`, the separator, and `%H:%M:%S%.6f` -/
def dateTimeText (separator : Char) (n : Int) : List Char :=
  isoText (ofDay (n / dayMicros)) ++ separator :: timeText (n % dayMicros).toNat

/-- The fields of an instant. -/
def fields (n : Int) : Parsed where
  year := (ofDay (n / dayMicros)).year
  month := (ofDay (n / dayMicros)).month
  day := (ofDay (n / dayMicros)).day
  hour := (n % dayMicros).toNat / 3600000000
  minute := (n % dayMicros).toNat / 60000000 % 60
  second := (n % dayMicros).toNat / 1000000 % 60
  nanos := (n % dayMicros).toNat % 1000000 * 1000

theorem readItems_append (xs ys : List Item) (p : Parsed) (s : List Char) :
    readItems (xs ++ ys) p s = (readItems xs p s).bind fun r => readItems ys r.1 r.2 := by
  induction xs generalizing p s with
  | nil => rfl
  | cons i xs ih =>
    rw [List.cons_append, readItems, readItems, Option.bind_assoc]
    congr 1
    funext r
    exact ih r.1 r.2

theorem readItem_oneOf {c : Char} {cs : List Char} (hc : c ∈ cs) (p : Parsed) (rest : List Char) :
    readItem (.oneOf cs) p (c :: rest) = some (p, rest) := if_pos hc

theorem readItem_number {f : Field} (hf : f ≠ .year) {n : Nat} (hn : n < 100) (p : Parsed) (rest : List Char) :
    readItem (.number f) p (pad 2 n ++ rest) = some (p.set f n, rest) := by
  have hscan : scanNumber (some 2) ((pad 2 n ++ rest).dropWhile Text.isWhitespace) = some (n, rest) := by
    rw [dropWhile_digits (by decide), scanNumber_pad (by decide) (by omega)]
  cases f with
  | year => exact absurd rfl hf
  | month | day | hour | minute | second =>
    unfold readItem
    rw [hscan]
    rfl

theorem readItems_isoDate (d : Date) (p : Parsed) (rest : List Char) :
    readItems isoDate p (isoText d ++ rest) = some ({ p with year := d.year, month := d.month, day := d.day }, rest) := by
  have hday := d.day_le
  have hmonth := d.month_mem
  have hyear : readItem (.number .year) p (isoText d ++ rest) =
      some ({ p with year := d.year }, '-' :: (pad 2 d.month ++ '-' :: (pad 2 d.day ++ rest))) := by
    have htext : isoText d ++ rest = isoYear d.year ++ '-' :: (pad 2 d.month ++ '-' :: (pad 2 d.day ++ rest)) := by
      unfold isoText
      simp only [List.append_assoc, List.cons_append]
    unfold readItem
    rw [htext, dropWhile_isoYear, scanYear_isoYear]
    · rfl
    · intro c hc
      obtain rfl := Option.some.inj hc
      rfl
  unfold isoDate
  rw [readItems, hyear, Option.bind_some, readItems, readItem_oneOf List.mem_cons_self, Option.bind_some, readItems,
    readItem_number (by decide) (by omega), Option.bind_some, readItems, readItem_oneOf List.mem_cons_self,
    Option.bind_some, readItems, readItem_number (by decide) (by omega)]
  rfl

theorem readItems_clock {hour minute second : Nat} (hh : hour < 100) (hm : minute < 100) (hs : second < 100)
    (p : Parsed) (rest : List Char) :
    readItems clock p (pad 2 hour ++ ':' :: (pad 2 minute ++ ':' :: (pad 2 second ++ rest))) =
      some ({ p with hour := hour, minute := minute, second := second }, rest) := by
  unfold clock
  rw [readItems, readItem_number (by decide) hh, Option.bind_some, readItems, readItem_oneOf List.mem_cons_self,
    Option.bind_some, readItems, readItem_number (by decide) hm, Option.bind_some, readItems,
    readItem_oneOf List.mem_cons_self, Option.bind_some, readItems, readItem_number (by decide) hs]
  rfl

theorem readItem_fraction {n : Nat} (hn : n < 1000000) (p : Parsed) {rest : List Char} (hrest : NoDigitNext rest) :
    readItem .fraction p ('.' :: (pad 6 n ++ rest)) = some ({ p with nanos := n * 1000 }, rest) := by
  have hspan : (pad 6 n ++ rest).takeWhile Char.isDigit = pad 6 n ∧ (pad 6 n ++ rest).dropWhile Char.isDigit = rest := by
    rw [List.takeWhile_append_of_pos pad_isDigit, List.dropWhile_append_of_pos pad_isDigit]
    cases rest with
    | nil => exact ⟨List.append_nil _, rfl⟩
    | cons c rest =>
      have hc : ¬c.isDigit = true := by rw [hrest c rfl]; exact Bool.false_ne_true
      rw [List.takeWhile_cons, if_neg hc, List.append_nil, List.dropWhile_cons, if_neg hc]
      exact ⟨rfl, rfl⟩
  have hne : pad 6 n ≠ [] := fun h => by simpa [h] using pad_length 6 n
  have htake : (pad 6 n).take 9 = pad 6 n := List.take_of_length_le (by rw [pad_length]; decide)
  have hscan : scanFraction (pad 6 n ++ rest) = some (n * 1000, rest) := by
    unfold scanFraction
    rw [hspan.1, hspan.2, htake, if_neg hne, ofDigitChars_pad hn, pad_length]
    rfl
  show (scanFraction (pad 6 n ++ rest)).map _ = _
  rw [hscan]
  rfl

/-- The item takes the separator off the front of anything that does not start with white space. -/
def Item.Reads (i : Item) (separator : Char) : Prop :=
  ∀ p rest, rest.dropWhile Text.isWhitespace = rest → readItem i p (separator :: rest) = some (p, rest)

theorem Item.reads_space : Item.space.Reads ' ' := by
  intro p rest hrest
  show some (p, (' ' :: rest).dropWhile Text.isWhitespace) = _
  rw [List.dropWhile_cons, if_pos (by decide), hrest]

theorem Item.reads_oneOf {c : Char} {cs : List Char} (h : c ∈ cs) : (Item.oneOf cs).Reads c :=
  fun p rest _ => readItem_oneOf h p rest

/-- A date and a time, with what stands between them. -/
def dateTime (i : Item) : List Item := isoDate ++ i :: (clock ++ [.fraction])

/-- An instant reads back. -/
theorem readItems_dateTimeText {i : Item} {separator : Char} (hi : i.Reads separator) (n : Int) {rest : List Char}
    (hrest : NoDigitNext rest) :
    readItems (dateTime i) {} (dateTimeText separator n ++ rest) = some (fields n, rest) := by
  unfold dateTime dateTimeText timeText
  generalize hmicros : (n % dayMicros).toNat = micros
  have hmicros' : micros < 86400000000 := by
    unfold dayMicros at hmicros
    omega
  simp only [List.append_assoc, List.cons_append]
  rw [readItems_append, readItems_isoDate, Option.bind_some, readItems, hi _ _ (dropWhile_digits (by decide) _),
    Option.bind_some, readItems_append, readItems_clock (by omega) (by omega) (by omega), Option.bind_some, readItems,
    readItem_fraction (by omega) _ hrest]
  unfold fields
  rw [hmicros]
  rfl

theorem minYear_le_of_represented {n : Int} (h : Represented n) :
    minYear ≤ (ofDay n).year ∧ (ofDay n).year ≤ maxYear := by
  obtain ⟨hlow, hhigh⟩ := yearOf_spec (n + 719528)
  unfold Represented minDay maxDay at h
  show minYear ≤ yearOf (n + 719528) ∧ yearOf (n + 719528) ≤ maxYear
  constructor
  · by_contra hlt
    have := daysBefore_le (show yearOf (n + 719528) + 1 ≤ minYear by omega)
    omega
  · by_contra hlt
    have := daysBefore_le (show maxYear + 1 ≤ yearOf (n + 719528) by omega)
    omega

/-- A date that is represented has a represented day. -/
theorem represented_toDay {d : Date} (h : minYear ≤ d.year ∧ d.year ≤ maxYear) : Represented d.toDay := by
  obtain ⟨hstart, hend⟩ := d.toDay_mem
  have hlow := daysBefore_le h.1
  have hhigh := daysBefore_le (show d.year + 1 ≤ maxYear + 1 by omega)
  unfold Represented minDay maxDay
  omega

theorem date_fields {n : Int} (h : Represented (n / dayMicros)) :
    (fields n).date = some (ofDay (n / dayMicros)) :=
  dif_pos ⟨minYear_le_of_represented h, (ofDay _).month_mem, (ofDay _).day_mem⟩

theorem microsOfDay_fields (n : Int) : (fields n).microsOfDay = some (n % dayMicros) := by
  have hday : (0 : Int) < dayMicros := by decide
  have hmod := Int.emod_nonneg n hday.ne'
  have hlt := Int.emod_lt_of_pos n hday
  unfold dayMicros at hmod hlt
  unfold Parsed.microsOfDay fields dayMicros
  dsimp only
  rw [if_pos (by omega), Option.some.injEq]
  omega

/-- The fields of an instant say when it is. -/
theorem naive_fields {n : Int} (h : Represented (n / dayMicros)) : (fields n).naive = some n := by
  have hsplit := Int.ediv_mul_add_emod n dayMicros
  unfold Parsed.naive
  rw [date_fields h, microsOfDay_fields]
  show some ((ofDay (n / dayMicros)).toDay * dayMicros + n % dayMicros) = some n
  rw [toDay_ofDay, hsplit]

theorem zoned_fields {n : Int} (h : Represented (n / dayMicros)) : (fields n).zoned = some n := by
  have hsplit := Int.ediv_mul_add_emod n dayMicros
  have hsecond : (((fields n).hour * 3600 + (fields n).minute * 60 + min (fields n).second 59 : Nat) - (fields n).offset) /
      86400 = 0 := by
    unfold fields dayMicros
    dsimp only
    omega
  unfold Parsed.zoned
  rw [date_fields h, microsOfDay_fields]
  dsimp only [Option.bind_eq_bind, Option.bind_some]
  rw [hsecond, toDay_ofDay, add_zero,
    if_pos ⟨⟨show (-86400 : Int) < 0 by decide, show (0 : Int) < 86400 by decide⟩, h⟩]
  show some (n / dayMicros * dayMicros + n % dayMicros - 0 * 1000000) = some n
  rw [hsplit, zero_mul, sub_zero]

end TimeFormat
