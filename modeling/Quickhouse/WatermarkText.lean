import Mathlib.Order.Bounds.Basic
import Quickhouse.Lib.TimeFormat
import Quickhouse.Source.PgValues
import Quickhouse.Watermark

/-!
# The text of a cursor

A cursor is saved as text: `parseTemporalMicros` reads the layouts a cursor may have, `renderText` writes the one of its
unit, which reads back.  `cursor_text_advances` is about a whole read: from the batches of all partitions, in any order,
the saved text is the largest watermark moved back, if that is past the floor, and there is none otherwise.
-/

namespace Quickhouse

open MachineInt Civil TimeFormat

/-! ### Reading -/

/-- `%Y-%m-%d %H:%M:%S%.f`, and with a `T`. -/
def temporalFormats : List (List Item) := [dateTime .space, dateTime (.oneOf ['T'])]

/-- The instant of a temporal literal, and whether it had a UTC offset. -/
def parseTemporalMicros (v : List Char) : Option (Int × Bool) :=
  let v := Text.trim v
  let zoned := ((Text.stripSuffix "Z" v).map (· ++ ['+', '0', '0'])).getD v
  match temporalFormats.findSome? fun f => readZoned (f ++ [.offset true]) zoned with
  | some micros => some (micros, true)
  | none =>
    match temporalFormats.findSome? fun f => readNaive f v with
    | some micros => some (micros, false)
    | none => (parseIso v).map fun d => (d.toDay * microsPerDay, false)

namespace WatermarkUnit

/-- A cursor literal in the unit: with a UTC offset exactly where the unit has one. -/
def parseText (unit : WatermarkUnit) (cursor : String) : Option Int :=
  if unit = .int then Text.parseSigned i64Min i64Max (Text.trim cursor.toList)
  else (parseTemporalMicros cursor.toList).bind fun r =>
    match unit with
    | .naiveMicros => if r.2 then none else some r.1
    | .utcMicros => if r.2 then some r.1 else none
    | .days => if r.2 then none else some (r.1 / microsPerDay)
    | .int => none

/-- The cursor that the run started from. -/
def parseFloorText (unit : WatermarkUnit) (cursor : String) : Option Int :=
  match unit with
  | .utcMicros => (parseTemporalMicros cursor.toList).map (·.1)
  | _ => unit.parseText cursor

def renderText : WatermarkUnit → Int → Option String
  | .naiveMicros, v =>
    if Represented (v / microsPerDay) then some (String.ofList (dateTimeText ' ' v)) else none
  | .utcMicros, v =>
    if Represented (v / microsPerDay) then some (String.ofList (dateTimeText ' ' v ++ ['+', '0', '0'])) else none
  | .days, v => if Represented v then some (String.ofList (isoText (ofDay v))) else none
  | .int, v => some (toString v)

/-- The values that a decoder lets through. -/
def Decodable : WatermarkUnit → Int → Prop
  | .days, v => daysInRange v = true
  | .int, v => InI64 v
  | _, v => microsInRange v = true

end WatermarkUnit

namespace WatermarkTracker

def advanceText (t : WatermarkTracker) (floor : Option String) (rewindSecs : Nat) : Option String :=
  if t.max = i64Min then none
  else
    let v := saturatingSub t.max (t.rewindStep rewindSecs)
    match floor.bind t.unit.parseFloorText with
    | some f => if v ≤ f then none else t.unit.renderText v
    | none => t.unit.renderText v

end WatermarkTracker

/-! ### Texts and what they read as -/

/-- What the text of a cursor reads as in the unit. -/
def WatermarkUnit.readText (unit : WatermarkUnit) (cursor : String) : CursorText :=
  if unit = .int then
    match Text.parseSigned i64Min i64Max (Text.trim cursor.toList) with
    | some n => .digits n
    | none => .other cursor
  else
    match parseTemporalMicros cursor.toList with
    | some r => .temporal r.1 r.2
    | none => .other cursor

def WatermarkUnit.write : WatermarkUnit → CursorText → String
  | .days, .temporal micros _ => String.ofList (isoText (ofDay (micros / microsPerDay)))
  | _, .temporal micros zoned => String.ofList (dateTimeText ' ' micros ++ if zoned then ['+', '0', '0'] else [])
  | _, .digits n => toString n
  | _, .other text => text

/-- The calendar holds the instant. -/
def dated (micros : Int) : Bool := Represented (micros / microsPerDay)

theorem parseSigned_mem {min max n : Int} {s : List Char} (h : Text.parseSigned min max s = some n) :
    min ≤ n ∧ n ≤ max := by
  unfold Text.parseSigned at h
  obtain ⟨-, hn⟩ := Option.filter_eq_some_iff.mp h
  simpa using hn

namespace WatermarkUnit

theorem parseText_eq (unit : WatermarkUnit) (cursor : String) :
    unit.parseText cursor = unit.parse (unit.readText cursor) := by
  unfold parseText readText
  by_cases hunit : unit = .int
  · rw [if_pos hunit, if_pos hunit, hunit]
    cases h : Text.parseSigned i64Min i64Max (Text.trim cursor.toList) with
    | none => rfl
    | some n => exact (if_pos (parseSigned_mem h)).symm
  · rw [if_neg hunit, if_neg hunit]
    cases parseTemporalMicros cursor.toList with
    | none => cases unit <;> rfl
    | some r => cases unit <;> rfl

theorem parseFloorText_eq (unit : WatermarkUnit) (cursor : String) :
    unit.parseFloorText cursor = unit.parseFloor (unit.readText cursor) := by
  cases unit with
  | utcMicros =>
    show (parseTemporalMicros cursor.toList).map (·.1) =
      parseFloor .utcMicros (match parseTemporalMicros cursor.toList with
        | some r => .temporal r.1 r.2
        | none => .other cursor)
    cases parseTemporalMicros cursor.toList with
    | none => rfl
    | some r => rfl
  | naiveMicros | days | int => exact parseText_eq _ cursor

theorem renderText_eq (unit : WatermarkUnit) (v : Int) :
    unit.renderText v = (unit.renderValue dated v).map unit.write := by
  have hday : v * microsPerDay / microsPerDay = v := Int.mul_ediv_cancel _ (by decide)
  unfold renderText renderValue dated
  cases unit with
  | int => rfl
  | days =>
    dsimp only
    rw [hday]
    by_cases h : Represented v
    · rw [if_pos h, if_pos (decide_eq_true h), Option.map_some]
      unfold write
      dsimp only
      rw [hday]
    · rw [if_neg h, if_neg (by simpa using h)]
      rfl
  | naiveMicros =>
    dsimp only
    by_cases h : Represented (v / microsPerDay)
    · rw [if_pos h, if_pos (decide_eq_true h), Option.map_some]
      unfold write
      simp
    · rw [if_neg h, if_neg (by simpa using h)]
      rfl
  | utcMicros =>
    dsimp only
    by_cases h : Represented (v / microsPerDay)
    · rw [if_pos h, if_pos (decide_eq_true h), Option.map_some]
      rfl
    · rw [if_neg h, if_neg (by simpa using h)]
      rfl

end WatermarkUnit

/-- The saved text is that of the cursor that the tracker advances to. -/
theorem WatermarkTracker.advanceText_eq (t : WatermarkTracker) (floor : Option String) (rewindSecs : Nat) :
    t.advanceText floor rewindSecs =
      (t.advanceFrom dated (floor.map t.unit.readText) rewindSecs).map t.unit.write := by
  have hfloor : floor.bind t.unit.parseFloorText = (floor.map t.unit.readText).bind t.unit.parseFloor := by
    cases floor with
    | none => rfl
    | some cursor => exact t.unit.parseFloorText_eq cursor
  unfold advanceText advanceFrom
  rw [hfloor]
  split_ifs with h
  · rfl
  · dsimp only
    cases (floor.map t.unit.readText).bind t.unit.parseFloor with
    | none => exact t.unit.renderText_eq _
    | some f =>
      dsimp only
      split_ifs with hle
      · rfl
      · exact t.unit.renderText_eq _

/-! ### A rendered value reads back -/

theorem pad_snoc (width n : Nat) : ∃ init d, pad (width + 1) n = init ++ [d] ∧ d.isDigit = true :=
  ⟨_, _, rfl, isDigit_digitChar _ (by omega)⟩

theorem isoText_snoc (d : Date) : ∃ init c, isoText d = init ++ [c] ∧ c.isDigit = true := by
  obtain ⟨init, c, hpad, hc⟩ := pad_snoc 1 d.day
  refine ⟨isoYear d.year ++ '-' :: (pad 2 d.month ++ '-' :: init), c, ?_, hc⟩
  unfold isoText
  rw [hpad]
  simp only [List.append_assoc, List.cons_append]

theorem dateTimeText_snoc (separator : Char) (n : Int) :
    ∃ init c, dateTimeText separator n = init ++ [c] ∧ c.isDigit = true := by
  obtain ⟨init, c, hpad, hc⟩ := pad_snoc 5 ((n % dayMicros).toNat % 1000000)
  refine ⟨isoText (ofDay (n / dayMicros)) ++ separator :: (pad 2 ((n % dayMicros).toNat / 3600000000) ++
    ':' :: (pad 2 ((n % dayMicros).toNat / 60000000 % 60) ++ ':' :: (pad 2 ((n % dayMicros).toNat / 1000000 % 60) ++
      '.' :: init))), c, ?_, hc⟩
  unfold dateTimeText timeText
  rw [hpad]
  simp only [List.append_assoc, List.cons_append]

theorem isWhitespace_digit {c : Char} (h : c.isDigit = true) : Text.isWhitespace c = false := by
  simp only [Char.isDigit, Bool.and_eq_true, decide_eq_true_eq, ge_iff_le] at h
  have h1 : 48 ≤ c.toNat := h.1
  have h2 : c.toNat ≤ 57 := h.2
  unfold Text.isWhitespace
  simp
  omega

/-- A text that starts with a date and ends with a digit is read as it stands. -/
theorem trim_of_date {s init : List Char} {c : Char} {year : Int} {rest : List Char} (hstart : s = isoYear year ++ rest)
    (hend : s = init ++ [c]) (hc : c.isDigit = true) : Text.trim s = s ∧ Text.stripSuffix "Z" s = none := by
  have hdrop : s.dropWhile Text.isWhitespace = s := by
    rw [hstart]
    exact dropWhile_isoYear year rest
  rw [hend] at hdrop ⊢
  refine ⟨Text.trim_of_ends hdrop (isWhitespace_digit hc), Text.stripSuffix_of_last rfl ?_⟩
  rintro rfl
  cases hc

theorem read_dateTimeText {i : Item} {separator : Char} (hi : i.Reads separator) (n : Int) :
    TimeFormat.read (dateTime i) (dateTimeText separator n) = some (fields n) := by
  have h := @readItems_dateTimeText i separator hi n [] nofun
  rw [List.append_nil] at h
  unfold TimeFormat.read
  rw [h]
  rfl

/-- A civil time without an offset is none with one. -/
theorem read_offset_none {items : List Item} {s : List Char} {p : TimeFormat.Parsed}
    (h : readItems items {} s = some (p, [])) : TimeFormat.read (items ++ [.offset true]) s = none := by
  unfold TimeFormat.read
  rw [readItems_append, h]
  rfl

theorem read_none_of_readItems {items more : List Item} {s : List Char} (h : readItems items {} s = none) :
    TimeFormat.read (items ++ more) s = none := by
  unfold TimeFormat.read
  rw [readItems_append, h]
  rfl

/-- With a blank between its date and its time a text is none that has a `T` there. -/
theorem readItems_separator {i : Item} {d : Date} {rest : List Char} (h : ∀ p, readItem i p rest = none) :
    readItems (dateTime i) {} (isoText d ++ rest) = none := by
  unfold dateTime
  rw [readItems_append, readItems_isoDate, Option.bind_some, readItems, h]
  rfl

theorem parseTemporalMicros_trimmed {s : List Char} (h : Text.trim s = s ∧ Text.stripSuffix "Z" s = none) :
    parseTemporalMicros s =
      match temporalFormats.findSome? fun f => readZoned (f ++ [.offset true]) s with
      | some micros => some (micros, true)
      | none =>
        match temporalFormats.findSome? fun f => readNaive f s with
        | some micros => some (micros, false)
        | none => (parseIso s).map fun d => (d.toDay * microsPerDay, false) := by
  unfold parseTemporalMicros
  dsimp only
  rw [h.1, h.2]
  rfl

theorem parseTemporalMicros_naive {v : Int} (h : Represented (v / microsPerDay)) :
    parseTemporalMicros (dateTimeText ' ' v) = some (v, false) := by
  obtain ⟨init, c, hend, hc⟩ := dateTimeText_snoc ' ' v
  have hstart : ∃ rest, dateTimeText ' ' v = isoYear (ofDay (v / dayMicros)).year ++ rest := by
    unfold dateTimeText isoText
    exact ⟨_, List.append_assoc _ _ _⟩
  obtain ⟨rest, hstart⟩ := hstart
  have htrim := trim_of_date hstart hend hc
  have hitems := @readItems_dateTimeText .space ' ' Item.reads_space v [] nofun
  rw [List.append_nil] at hitems
  have hT : readItems (dateTime (.oneOf ['T'])) {} (dateTimeText ' ' v) = none :=
    readItems_separator fun p => by
      show (if ' ' ∈ ['T'] then some (p, timeText (v % dayMicros).toNat) else none) = none
      exact if_neg (by decide)
  have hzoned : (temporalFormats.findSome? fun f => readZoned (f ++ [.offset true]) (dateTimeText ' ' v)) = none := by
    unfold temporalFormats readZoned
    rw [List.findSome?_cons, read_offset_none hitems, Option.bind_none, List.findSome?_cons, read_none_of_readItems hT]
    rfl
  have hnaive : (temporalFormats.findSome? fun f => readNaive f (dateTimeText ' ' v)) = some v := by
    unfold temporalFormats readNaive
    rw [List.findSome?_cons, read_dateTimeText Item.reads_space, Option.bind_some, naive_fields h]
  rw [parseTemporalMicros_trimmed htrim, hzoned]
  dsimp only
  rw [hnaive]

theorem parseTemporalMicros_utc {v : Int} (h : Represented (v / microsPerDay)) :
    parseTemporalMicros (dateTimeText ' ' v ++ ['+', '0', '0']) = some (v, true) := by
  have hstart : ∃ rest, dateTimeText ' ' v ++ ['+', '0', '0'] = isoYear (ofDay (v / dayMicros)).year ++ rest := by
    unfold dateTimeText isoText
    exact ⟨_, by rw [List.append_assoc, List.append_assoc]⟩
  obtain ⟨rest, hstart⟩ := hstart
  have hend : dateTimeText ' ' v ++ ['+', '0', '0'] = dateTimeText ' ' v ++ ['+', '0'] ++ ['0'] := by
    rw [List.append_assoc]
    rfl
  have htrim := trim_of_date hstart hend (by decide)
  have hitems := @readItems_dateTimeText .space ' ' Item.reads_space v ['+', '0', '0'] fun c hc => by
    obtain rfl := Option.some.inj hc
    rfl
  have hread : TimeFormat.read (dateTime .space ++ [.offset true]) (dateTimeText ' ' v ++ ['+', '0', '0']) =
      some (fields v) := by
    unfold TimeFormat.read
    rw [readItems_append, hitems]
    rfl
  have hzoned : (temporalFormats.findSome? fun f =>
      readZoned (f ++ [.offset true]) (dateTimeText ' ' v ++ ['+', '0', '0'])) = some v := by
    unfold temporalFormats readZoned
    rw [List.findSome?_cons, hread, Option.bind_some, zoned_fields h]
  rw [parseTemporalMicros_trimmed htrim, hzoned]

theorem parseTemporalMicros_day {v : Int} (h : Represented v) :
    parseTemporalMicros (isoText (ofDay v)) = some (v * microsPerDay, false) := by
  obtain ⟨init, c, hend, hc⟩ := isoText_snoc (ofDay v)
  have htrim := trim_of_date (show isoText (ofDay v) = isoYear (ofDay v).year ++ _ from rfl) hend hc
  have hnone : ∀ i, (∀ p, readItem i p [] = none) ∨ i = .space → readItems (dateTime i) {} (isoText (ofDay v)) = none := by
    intro i hi
    have hdate := readItems_isoDate (ofDay v) {} []
    rw [List.append_nil] at hdate
    unfold dateTime
    rw [readItems_append, hdate, Option.bind_some, readItems]
    rcases hi with hi | rfl
    · rw [hi]
      rfl
    · rfl
  have hspace := hnone .space (.inr rfl)
  have hT := hnone (.oneOf ['T']) (.inl fun p => rfl)
  have hzoned : (temporalFormats.findSome? fun f => readZoned (f ++ [.offset true]) (isoText (ofDay v))) = none := by
    unfold temporalFormats readZoned
    rw [List.findSome?_cons, read_none_of_readItems hspace, Option.bind_none, List.findSome?_cons,
      read_none_of_readItems hT]
    rfl
  have hnaive : (temporalFormats.findSome? fun f => readNaive f (isoText (ofDay v))) = none := by
    unfold temporalFormats readNaive TimeFormat.read
    rw [List.findSome?_cons, hspace, Option.bind_none, Option.bind_none, List.findSome?_cons, hT]
    rfl
  rw [parseTemporalMicros_trimmed htrim, hzoned]
  dsimp only
  rw [hnaive, parseIso_isoText (minYear_le_of_represented h), Option.map_some, toDay_ofDay]

/-- The values that the unit renders. -/
def WatermarkUnit.Renderable : WatermarkUnit → Int → Prop
  | .days, v => Represented v
  | .int, v => InI64 v
  | _, v => Represented (v / microsPerDay)

theorem WatermarkUnit.parseText_ofList {unit : WatermarkUnit} (hunit : unit ≠ .int) {s : List Char} {micros : Int}
    {zoned : Bool} (h : parseTemporalMicros s = some (micros, zoned)) :
    unit.parseText (String.ofList s) = unit.parse (.temporal micros zoned) := by
  rw [parseText_eq]
  unfold readText
  rw [if_neg hunit, String.toList_ofList, h]

theorem trim_toString (v : Int) : Text.trim (toString v).toList = (toString v).toList := by
  refine Text.trim_of_not_space fun c hc => ?_
  cases v with
  | ofNat n => exact isWhitespace_digit (Text.isDigit_of_mem_repr hc)
  | negSucc n =>
    have htext : (toString (Int.negSucc n)).toList = '-' :: (n + 1).repr.toList := String.toList_append
    rw [htext] at hc
    rcases List.mem_cons.mp hc with rfl | hc
    · decide
    · exact isWhitespace_digit (Text.isDigit_of_mem_repr hc)

theorem WatermarkUnit.parseText_renderText {unit : WatermarkUnit} {v : Int} (h : unit.Renderable v) :
    ∃ text, unit.renderText v = some text ∧ unit.parseText text = some v := by
  cases unit with
  | naiveMicros => exact ⟨_, if_pos h, parseText_ofList (by decide) (parseTemporalMicros_naive h)⟩
  | utcMicros => exact ⟨_, if_pos h, parseText_ofList (by decide) (parseTemporalMicros_utc h)⟩
  | days =>
    refine ⟨_, if_pos h, ?_⟩
    rw [parseText_ofList (by decide) (parseTemporalMicros_day h)]
    show some (v * microsPerDay / microsPerDay) = some v
    rw [Int.mul_ediv_cancel _ (by decide)]
  | int =>
    refine ⟨toString v, rfl, ?_⟩
    show Text.parseSigned i64Min i64Max (Text.trim (toString v).toList) = some v
    rw [trim_toString, Text.parseSigned_toString h]

theorem WatermarkUnit.Decodable.renderable {unit : WatermarkUnit} {v : Int} (h : unit.Decodable v) :
    unit.Renderable v := by
  have hrange : ∀ d, minDays ≤ d → d ≤ maxDays → Represented d := by
    have hends : minDay ≤ minDays ∧ maxDays ≤ maxDay := by decide
    intro d hlow hhigh
    exact ⟨hends.1.trans hlow, hhigh.trans hends.2⟩
  cases unit with
  | int => exact h
  | days =>
    unfold Decodable daysInRange at h
    simp only [Bool.and_eq_true, decide_eq_true_eq] at h
    exact hrange v h.1 h.2
  | naiveMicros | utcMicros =>
    unfold Decodable microsInRange minMicros maxMicros at h
    simp only [Bool.and_eq_true, decide_eq_true_eq] at h
    unfold minDays maxDays at h
    refine hrange (v / microsPerDay) ?_ ?_
    · unfold minDays microsPerDay
      omega
    · unfold maxDays microsPerDay
      omega

/-! ### What a text can read as -/

theorem represented_of_date {p : TimeFormat.Parsed} {d : Date} (h : p.date = some d) : Represented d.toDay := by
  unfold TimeFormat.Parsed.date Date.of at h
  split_ifs at h with hd
  obtain rfl := Option.some.inj h
  exact represented_toDay hd.1

theorem represented_of_parseIso {s : List Char} {d : Date} (h : parseIso s = some d) : Represented d.toDay := by
  unfold parseIso at h
  simp only [Option.bind_eq_bind, Option.bind_eq_some_iff] at h
  obtain ⟨_, -, _, -, _, -, _, -, _, -, hd⟩ := h
  split_ifs at hd
  unfold Date.of at hd
  split_ifs at hd with hrange
  obtain rfl := Option.some.inj hd
  exact represented_toDay hrange.1

theorem le_of_naive {p : TimeFormat.Parsed} {micros : Int} (h : p.naive = some micros) : minDay * microsPerDay ≤ micros := by
  unfold TimeFormat.Parsed.naive at h
  simp only [Option.bind_eq_bind, Option.bind_eq_some_iff] at h
  obtain ⟨d, hd, m, hm, hsum⟩ := h
  have hday := (represented_of_date hd).1
  unfold TimeFormat.Parsed.microsOfDay at hm
  split_ifs at hm
  obtain rfl := Option.some.inj hm
  obtain rfl := Option.some.inj hsum
  unfold microsPerDay dayMicros
  omega

theorem le_of_zoned {p : TimeFormat.Parsed} {micros : Int} (h : p.zoned = some micros) : minDay * microsPerDay ≤ micros := by
  unfold TimeFormat.Parsed.zoned at h
  simp only [Option.bind_eq_bind, Option.bind_eq_some_iff] at h
  obtain ⟨d, hd, m, hm, hsum⟩ := h
  split_ifs at hsum with hrange
  have hday := hrange.2.1
  unfold TimeFormat.Parsed.microsOfDay at hm
  split_ifs at hm
  obtain rfl := Option.some.inj hm
  obtain rfl := Option.some.inj hsum
  unfold microsPerDay dayMicros
  omega

/-- A temporal text is not before the calendar starts. -/
theorem le_of_parseTemporalMicros {s : List Char} {micros : Int} {zoned : Bool}
    (h : parseTemporalMicros s = some (micros, zoned)) : minDay * microsPerDay ≤ micros := by
  unfold parseTemporalMicros at h
  dsimp only at h
  split at h
  · rename_i m hm
    obtain ⟨rfl, -⟩ := Prod.mk.inj (Option.some.inj h)
    obtain ⟨f, -, hf⟩ := List.exists_of_findSome?_eq_some hm
    obtain ⟨p, -, hp⟩ := Option.bind_eq_some_iff.mp hf
    exact le_of_zoned hp
  · split at h
    · rename_i m hm
      obtain ⟨rfl, -⟩ := Prod.mk.inj (Option.some.inj h)
      obtain ⟨f, -, hf⟩ := List.exists_of_findSome?_eq_some hm
      obtain ⟨p, -, hp⟩ := Option.bind_eq_some_iff.mp hf
      exact le_of_naive hp
    · obtain ⟨d, hd, heq⟩ := Option.map_eq_some_iff.mp h
      obtain ⟨rfl, -⟩ := Prod.mk.inj heq
      have := (represented_of_parseIso hd).1
      unfold microsPerDay
      omega

/-- The least value of the unit that a text reads as. -/
def WatermarkUnit.least : WatermarkUnit → Int
  | .int => i64Min
  | .days => minDay
  | _ => minDay * microsPerDay

theorem WatermarkUnit.least_le {unit : WatermarkUnit} {cursor : String} {f : Int} (h : unit.parseText cursor = some f) :
    unit.least ≤ f := by
  unfold parseText at h
  split_ifs at h with hunit
  · rw [hunit]
    exact (parseSigned_mem h).1
  · obtain ⟨⟨micros, zoned⟩, hread, hfit⟩ := Option.bind_eq_some_iff.mp h
    have hle := le_of_parseTemporalMicros hread
    cases unit with
    | int => exact absurd rfl hunit
    | naiveMicros =>
      dsimp only at hfit
      split_ifs at hfit
      obtain rfl := Option.some.inj hfit
      exact hle
    | utcMicros =>
      dsimp only at hfit
      split_ifs at hfit
      obtain rfl := Option.some.inj hfit
      exact hle
    | days =>
      dsimp only at hfit
      split_ifs at hfit
      obtain rfl := Option.some.inj hfit
      exact (Int.le_ediv_iff_mul_le (by decide)).mpr hle

theorem WatermarkUnit.parseFloorText_of_parseText {unit : WatermarkUnit} {cursor : String} {f : Int}
    (h : unit.parseText cursor = some f) : unit.parseFloorText cursor = some f := by
  rw [parseText_eq] at h
  rw [parseFloorText_eq]
  exact parseFloor_of_parse h

theorem WatermarkUnit.Renderable.between {unit : WatermarkUnit} {v m : Int} (h : unit.Renderable m) (hlow : unit.least ≤ v)
    (hhigh : v ≤ m) : unit.Renderable v := by
  cases unit with
  | int => exact ⟨hlow, hhigh.trans h.2⟩
  | days => exact ⟨hlow, hhigh.trans h.2⟩
  | naiveMicros | utcMicros =>
    exact ⟨(Int.le_ediv_iff_mul_le (by decide)).mpr hlow, (Int.ediv_le_ediv (by decide) hhigh).trans h.2⟩

theorem WatermarkUnit.i64Min_le_least (unit : WatermarkUnit) : i64Min ≤ unit.least := by
  cases unit <;> decide

theorem WatermarkUnit.Renderable.inI64 {unit : WatermarkUnit} {v : Int} (h : unit.Renderable v) : InI64 v := by
  cases unit with
  | int => exact h
  | days =>
    have hends : i64Min ≤ minDay ∧ maxDay ≤ i64Max := by decide
    exact ⟨hends.1.trans h.1, h.2.trans hends.2⟩
  | naiveMicros | utcMicros =>
    have hends : i64Min ≤ minDay * microsPerDay ∧ maxDay * microsPerDay + microsPerDay ≤ i64Max := by decide
    have hlow := (Int.le_ediv_iff_mul_le (by decide)).mp h.1
    have hhigh := h.2
    have hmod := Int.emod_lt_of_pos v (show (0 : Int) < microsPerDay by decide)
    have hsplit := Int.ediv_mul_add_emod v microsPerDay
    have hmul := Int.mul_le_mul_of_nonneg_right hhigh (show (0 : Int) ≤ microsPerDay by decide)
    exact ⟨by omega, by omega⟩

/-! ### The largest value read -/

/-- The tracker after the batches of a read. -/
def WatermarkTracker.observeAll (t : WatermarkTracker) (seen : List (List (Option Int))) : WatermarkTracker :=
  seen.foldl observe t

namespace WatermarkTracker

theorem observe_max_le_iff {t : WatermarkTracker} {values : List (Option Int)} {b : Int} (hb : i64Min ≤ b) :
    (t.observe values).max ≤ b ↔ t.max ≤ b ∧ ∀ v, some v ∈ values → v ≤ b := by
  constructor
  · intro h
    refine ⟨(t.le_observe_max values).trans h, ?_⟩
    unfold observe at h
    split_ifs at h with hseen
    · exact (foldMax_le_iff.mp ((le_max_right _ _).trans h)).2
    · exact (foldMax_le_iff.mp ((not_lt.mp hseen).trans hb)).2
  · rintro ⟨ht, hvalues⟩
    exact observe_max_le hb ht hvalues

theorem observeAll_max_le_iff {t : WatermarkTracker} {seen : List (List (Option Int))} {b : Int} (hb : i64Min ≤ b) :
    (t.observeAll seen).max ≤ b ↔ t.max ≤ b ∧ ∀ batch ∈ seen, ∀ v, some v ∈ batch → v ≤ b := by
  unfold observeAll
  induction seen generalizing t with
  | nil => simp
  | cons batch seen ih =>
    rw [List.foldl_cons, ih, observe_max_le_iff hb, List.forall_mem_cons, and_assoc]

theorem observeAll_unit (t : WatermarkTracker) (seen : List (List (Option Int))) : (t.observeAll seen).unit = t.unit := by
  unfold observeAll
  induction seen generalizing t with
  | nil => rfl
  | cons batch seen ih => rw [List.foldl_cons, ih, observe_unit]

theorem le_observeAll_max (t : WatermarkTracker) (seen : List (List (Option Int))) : t.max ≤ (t.observeAll seen).max := by
  unfold observeAll
  induction seen generalizing t with
  | nil => exact le_refl _
  | cons batch seen ih => exact (t.le_observe_max batch).trans (ih _)

/-- From nothing seen, the maximum is the largest of the values. -/
theorem observeAll_max_eq {unit : WatermarkUnit} {seen : List (List (Option Int))} {m : Int} (hm : i64Min ≤ m)
    (h : IsGreatest {v | ∃ batch ∈ seen, some v ∈ batch} m) : (observeAll { unit := unit } seen).max = m := by
  have hle := @observeAll_max_le_iff { unit := unit } seen
  have hmin := le_observeAll_max { unit := unit } seen
  refine le_antisymm ((hle hm).mpr ⟨hm, ?_⟩) ?_
  · intro batch hbatch v hv
    exact h.2 ⟨batch, hbatch, hv⟩
  · obtain ⟨batch, hbatch, hmem⟩ := h.1
    exact ((hle hmin).mp (le_refl _)).2 batch hbatch m hmem

theorem observeAll_max_none {unit : WatermarkUnit} {seen : List (List (Option Int))}
    (h : ∀ batch ∈ seen, ∀ v, some v ∉ batch) : (observeAll { unit := unit } seen).max = i64Min := by
  have hmin := le_observeAll_max { unit := unit } seen
  refine le_antisymm ((observeAll_max_le_iff (le_refl _)).mpr ⟨le_refl _, ?_⟩) hmin
  intro batch hbatch v hv
  exact absurd hv (h batch hbatch v)

/-- The text that is saved reads back as that value. -/
theorem advanceText_spec {t : WatermarkTracker} {floor : String} {f : Int} (hfloor : t.unit.parseText floor = some f)
    (hmax : t.unit.Renderable t.max) (rewindSecs : Nat) :
    if f < t.max - t.rewindStep rewindSecs then
      ∃ text, t.advanceText (some floor) rewindSecs = some text ∧
        t.unit.parseText text = some (t.max - t.rewindStep rewindSecs)
    else t.advanceText (some floor) rewindSecs = none := by
  have hread : ((some floor).map t.unit.readText).bind t.unit.parseFloor = some f := by
    show t.unit.parseFloor (t.unit.readText floor) = some f
    rw [← WatermarkUnit.parseFloorText_eq]
    exact WatermarkUnit.parseFloorText_of_parseText hfloor
  have hleast := WatermarkUnit.least_le hfloor
  have hmin := t.unit.i64Min_le_least
  have hstep := t.rewindStep_nonneg rewindSecs
  rw [advanceText_eq, advanceFrom_eq hread (hmin.trans hleast) hmax.inI64]
  split_ifs with hlt
  · rw [← WatermarkUnit.renderText_eq]
    exact WatermarkUnit.parseText_renderText (hmax.between (by omega) (by omega))
  · rfl

end WatermarkTracker

/-- Every value that a decoder lets through reads back from its text; and after the batches of all partitions, seen in any
order, the cursor is the largest value moved back, if that is past the committed one, and is not saved otherwise. -/
theorem cursor_text_advances :
    (∀ (unit : WatermarkUnit) (v : Int), unit.Decodable v →
      ∃ text, unit.renderText v = some text ∧ unit.parseText text = some v) ∧
    ∀ (unit : WatermarkUnit) (floor : String) (f : Int) (rewindSecs : Nat) (partitions : List (List (List (Option Int))))
      (seen : List (List (Option Int))),
      unit.parseText floor = some f → seen.Perm partitions.flatten →
      (∀ batch ∈ seen, ∀ v, some v ∈ batch → unit.Decodable v) →
      let t := WatermarkTracker.observeAll { unit := unit } seen
      (∀ m, IsGreatest {v | ∃ part ∈ partitions, ∃ batch ∈ part, some v ∈ batch} m →
        if f < m - t.rewindStep rewindSecs then
          ∃ text, t.advanceText (some floor) rewindSecs = some text ∧
            unit.parseText text = some (m - t.rewindStep rewindSecs)
        else t.advanceText (some floor) rewindSecs = none) ∧
      ((∀ part ∈ partitions, ∀ batch ∈ part, ∀ v, some v ∉ batch) → t.advanceText (some floor) rewindSecs = none) := by
  refine ⟨fun unit v h => WatermarkUnit.parseText_renderText h.renderable, ?_⟩
  intro unit floor f rewindSecs partitions seen hfloor hperm hdecodable t
  have hmem : ∀ batch, batch ∈ seen ↔ ∃ part ∈ partitions, batch ∈ part := by
    intro batch
    rw [hperm.mem_iff, List.mem_flatten]
  have hunit : t.unit = unit := WatermarkTracker.observeAll_unit _ seen
  constructor
  · intro m hm
    have hset : {v | ∃ part ∈ partitions, ∃ batch ∈ part, some v ∈ batch} = {v | ∃ batch ∈ seen, some v ∈ batch} := by
      ext v
      simp only [Set.mem_ofPred_eq, hmem]
      constructor
      · rintro ⟨part, hpart, batch, hbatch, hv⟩
        exact ⟨batch, ⟨part, hpart, hbatch⟩, hv⟩
      · rintro ⟨batch, ⟨part, hpart, hbatch⟩, hv⟩
        exact ⟨part, hpart, batch, hbatch, hv⟩
    rw [hset] at hm
    obtain ⟨batch, hbatch, hv⟩ := hm.1
    have hrender := (hdecodable batch hbatch m hv).renderable
    have hmax : t.max = m := WatermarkTracker.observeAll_max_eq hrender.inI64.1 hm
    have hspec := @WatermarkTracker.advanceText_spec t floor f (by rw [hunit]; exact hfloor)
      (by rw [hunit, hmax]; exact hrender) rewindSecs
    rw [hmax, hunit] at hspec
    exact hspec
  · intro hnone
    have hmax : t.max = i64Min := by
      refine WatermarkTracker.observeAll_max_none fun batch hbatch v hv => ?_
      obtain ⟨part, hpart, hin⟩ := (hmem batch).mp hbatch
      exact hnone part hpart batch hin v hv
    unfold WatermarkTracker.advanceText
    rw [if_pos hmax]

/-- From two partitions, moved back by a second to before 1970. -/
theorem cursor_text_advances_before_epoch :
    (∃ text, WatermarkUnit.days.renderText (-25509) = some text ∧ WatermarkUnit.days.parseText text = some (-25509)) ∧
    ∃ text, (WatermarkTracker.observeAll { unit := .naiveMicros } [[some (-2000000)], [none, some 750000]]).advanceText
        (some "1969-12-31T23:59:58.5") 1 = some text ∧
      WatermarkUnit.naiveMicros.parseText text = some (-250000) := by
  have hgreatest : IsGreatest {v : Int | ∃ part ∈ [[[none, some 750000]], [[some (-2000000)]]],
      ∃ batch ∈ part, some v ∈ batch} 750000 := by
    constructor
    · exact ⟨_, List.mem_cons_self, _, List.mem_cons_self, by simp⟩
    · rintro v ⟨part, hpart, batch, hbatch, hv⟩
      simp only [List.mem_cons, List.not_mem_nil, or_false] at hpart
      rcases hpart with rfl | rfl
      · obtain rfl := List.mem_singleton.mp hbatch
        simp at hv
        omega
      · obtain rfl := List.mem_singleton.mp hbatch
        simp at hv
        omega
  refine ⟨cursor_text_advances.1 .days (-25509) (show daysInRange (-25509) = true by decide), ?_⟩
  exact (cursor_text_advances.2 .naiveMicros "1969-12-31T23:59:58.5" (-1500000) 1
    [[[none, some 750000]], [[some (-2000000)]]] [[some (-2000000)], [none, some 750000]] (by decide +kernel)
    (by decide) (by
      intro batch hbatch v hv
      simp only [List.mem_cons, List.not_mem_nil, or_false] at hbatch
      rcases hbatch with rfl | rfl
      · simp at hv
        show microsInRange v = true
        rw [hv]
        decide
      · simp at hv
        show microsInRange v = true
        rw [hv]
        decide)).1 750000 hgreatest

end Quickhouse
