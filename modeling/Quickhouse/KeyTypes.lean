import Mathlib.Data.Rat.Lemmas
import Quickhouse.Lib.Civil
import Quickhouse.Lib.MachineInt
import Quickhouse.ReconcileKeys

/-!
# Reconciled keys of every type

Keys are compared as the texts which the two engines write them with.  Integers, dates and texts have one text in every
engine, and of these only keys that are gone are deleted (`typed_keys_deleted_when_gone`).  Decimals and timestamps have a
text of each engine's own, and one value may have two.
-/

namespace Quickhouse.ReconcileKeys

open Civil MachineInt Runs TabSeparated

inductive KeyType where
  | integer | decimal | date | timestamp | text
  deriving DecidableEq, Repr

/-- A key of each type; two decimals or timestamps are equal when they are the same number. -/
inductive TypedKey where
  | integer (n : Int)
  | decimal (q : ℚ)
  | date (day : Int)
  | timestamp (micros : Int)
  | text (s : List Char)
  deriving DecidableEq, Repr

def TypedKey.type : TypedKey → KeyType
  | .integer _ => .integer
  | .decimal _ => .decimal
  | .date _ => .date
  | .timestamp _ => .timestamp
  | .text _ => .text

/-- The text that a key has in every engine; BC and after 9999 a date is written in several ways. -/
def TypedKey.plainText : TypedKey → Option (List Char)
  | .integer n => some (toString n).toList
  | .date day => if 1 ≤ (ofDay day).year ∧ (ofDay day).year ≤ 9999 then some (isoText (ofDay day)) else none
  | .text s => some s
  | .decimal _ | .timestamp _ => none

/-- The engines write their keys so, and the destination's column takes the texts for them. -/
structure Documented (e : Setting TypedKey) (source dest : List TypedKey) : Prop where
  sourceText : ∀ s ∈ source, ∀ t, s.plainText = some t → e.sourceText s = t
  destText : ∀ d ∈ dest, ∀ t, d.plainText = some t → e.destText d = t
  denotes : ∀ d ∈ dest, ∀ t, d.plainText = some t → e.denotes t = some d

/-- ClickHouse's answers change none of the text keys. -/
structure TextsArrive (e : Setting TypedKey) (source dest : List TypedKey) : Prop where
  source : e.source = .clickHouse → ∀ t, .text t ∈ source → Arrives e.charset Unread t
  dest : e.dest = .clickHouse → ∀ t, .text t ∈ dest → Arrives e.charset (fun c => escapeLetter c ≠ none) t

theorem TypedKey.plainText_injective {s d : TypedKey} (htype : s.type = d.type) {t : List Char}
    (hs : s.plainText = some t) (hd : d.plainText = some t) : s = d := by
  cases s with
  | integer n =>
    cases d with
    | integer m =>
      rw [Text.toString_int_injective (Option.some.inj (hs.trans hd.symm))]
    | _ => cases htype
  | date n =>
    cases d with
    | date m =>
      simp only [TypedKey.plainText, Option.ite_none_right_eq_some, Option.some.injEq] at hs hd
      obtain ⟨hn, hm⟩ : FourDigits (ofDay n) ∧ FourDigits (ofDay m) :=
        ⟨⟨by omega, hs.1.2⟩, ⟨by omega, hd.1.2⟩⟩
      rw [isoText_injective hn hm (hs.2.trans hd.2.symm)]
    | _ => cases htype
  | text s =>
    cases d with
    | text d => rw [Option.some.inj (hs.trans hd.symm)]
    | _ => cases htype
  | decimal q => cases hs
  | timestamp micros => cases hs

/-- Digits and minus signs are not escaped. -/
theorem escapeLetter_eq_none {c : Char} (h : c.isDigit = true ∨ c = '-') : escapeLetter c = none := by
  rcases h with hdigit | rfl
  · unfold escapeLetter
    split_ifs
    all_goals first | rfl | (subst_vars; exact absurd hdigit (by decide))
  · decide

theorem arrives_of_chars {charset : Bool} {t : List Char} (hne : t ≠ []) (hchars : ∀ c ∈ t, c.isDigit = true ∨ c = '-') :
    Arrives charset (fun c => escapeLetter c ≠ none) t := by
  refine ⟨hne, fun c hc hescape => hescape (escapeLetter_eq_none (hchars c hc)), fun _ hmark => ?_⟩
  rcases hchars _ (List.mem_of_head? hmark) with hdigit | hminus
  · exact absurd hdigit (by decide)
  · exact absurd hminus (by decide)

theorem Arrives.unread {charset : Bool} {t : List Char} (h : Arrives charset (fun c => escapeLetter c ≠ none) t) :
    Arrives charset Unread t := by
  refine ⟨h.1, fun c hc hunread => h.2.1 c hc ?_, h.2.2⟩
  rcases hunread with rfl | rfl <;> decide

/-- Every plain text of a key that is no text arrives. -/
theorem TypedKey.plainText_arrives {k : TypedKey} {t : List Char} (h : k.plainText = some t) (htext : k.type ≠ .text)
    (charset : Bool) : Arrives charset (fun c => escapeLetter c ≠ none) t := by
  cases k with
  | integer n =>
    obtain rfl := Option.some.inj h
    refine arrives_of_chars (fun hnil => ?_) fun c hc => Text.toString_int_chars hc
    have hself := @Text.parseSigned_toString n n n ⟨le_refl n, le_refl n⟩
    rw [hnil] at hself
    cases hself
  | date day =>
    simp only [TypedKey.plainText, Option.ite_none_right_eq_some, Option.some.injEq] at h
    obtain ⟨hyears, rfl⟩ := h
    have hyear : FourDigits (ofDay day) := ⟨by omega, hyears.2⟩
    refine arrives_of_chars (fun hnil => ?_) fun c hc => isoText_chars hyear hc
    rw [isoText_eq hyear] at hnil
    simp at hnil
  | text s => exact absurd rfl htext
  | decimal q => cases h
  | timestamp micros => cases h

/-- Keys of one type that have one text in every engine can be compared. -/
theorem comparable_of_documented {type : KeyType} {e : Setting TypedKey} {source dest : List TypedKey}
    (htype : ∀ k ∈ source ++ dest, k.type = type) (hdocumented : Documented e source dest)
    (hplain : ∀ k ∈ source ++ dest, k.plainText ≠ none) (harrive : TextsArrive e source dest) :
    Comparable e source dest := by
  have htext : ∀ k ∈ source ++ dest, ∃ t, k.plainText = some t := fun k hk => Option.ne_none_iff_exists'.mp (hplain k hk)
  refine ⟨fun s hs d hd => ?_, fun d hd => ?_, fun hclick s hs => ?_, fun hclick d hd => ?_⟩
  · obtain ⟨t, ht⟩ := htext s (List.mem_append_left _ hs)
    obtain ⟨u, hu⟩ := htext d (List.mem_append_right _ hd)
    rw [hdocumented.sourceText s hs t ht, hdocumented.destText d hd u hu]
    constructor
    · rintro rfl
      exact TypedKey.plainText_injective
        ((htype s (List.mem_append_left _ hs)).trans (htype d (List.mem_append_right _ hd)).symm) ht hu
    · rintro rfl
      exact Option.some.inj (ht.symm.trans hu)
  · obtain ⟨t, ht⟩ := htext d (List.mem_append_right _ hd)
    rw [hdocumented.destText d hd t ht]
    exact hdocumented.denotes d hd t ht
  · obtain ⟨t, ht⟩ := htext s (List.mem_append_left _ hs)
    rw [hdocumented.sourceText s hs t ht]
    cases s with
    | text s =>
      obtain rfl := Option.some.inj ht
      exact harrive.source hclick s hs
    | _ => exact (TypedKey.plainText_arrives ht nofun e.charset).unread
  · obtain ⟨t, ht⟩ := htext d (List.mem_append_right _ hd)
    rw [hdocumented.destText d hd t ht]
    cases d with
    | text d =>
      obtain rfl := Option.some.inj ht
      exact harrive.dest hclick d hd
    | _ => exact TypedKey.plainText_arrives ht nofun e.charset

/-- A row is deleted only when its key was in the destination and not in the source when they were read, and where neither
is empty and they have no key in common, or too many would go, nothing is deleted and the reconcile fails: of integers,
dates and texts, and of other keys where the two engines write each of them alike. -/
theorem typed_keys_deleted_when_gone (type : KeyType) (e : Setting TypedKey) (cfg : ReconcileConfig)
    (source dest : List (Row TypedKey)) {events : List (Event TypedKey)} {w : World TypedKey}
    (hrun : exec (step e cfg) (begin e cfg source dest) events = some w)
    (htype : ∀ k ∈ w.sourceSeen ++ w.destSeen, k.type = type) (hdocumented : Documented e w.sourceSeen w.destSeen)
    (harrive : TextsArrive e w.sourceSeen w.destSeen)
    (hown : (∃ k ∈ w.sourceSeen ++ w.destSeen, k.plainText = none) → Comparable e w.sourceSeen w.destSeen) :
    (∀ row ∈ w.deleted, ∃ k, row.key = some k ∧ k ∈ w.destSeen ∧ k ∉ w.sourceSeen) ∧
      (Refused cfg w.sourceSeen w.destSeen → w.deleted = [] ∧ Stopped w.phase) := by
  refine (inv_of_exec hrun).of_comparable ?_
  by_cases h : ∃ k ∈ w.sourceSeen ++ w.destSeen, k.plainText = none
  · exact hown h
  · exact comparable_of_documented htype hdocumented (fun k hk hnone => h ⟨k, hk, hnone⟩) harrive

/-- Whole numbers, from PostgreSQL into BigQuery. -/
def wholeNumbers : Setting TypedKey where
  source := .postgres
  dest := .bigQuery
  sourceText k := k.plainText.getD []
  destText k := k.plainText.getD []
  denotes t := (Text.parseSigned i64Min i64Max t).map TypedKey.integer
  columnType := "INT64".toList
  charset := true
  debug := String.ofList

/-- The source loses the 7, and then the 12 between the reads. -/
theorem seven_deleted_when_gone :
    ∃ w, exec (step wholeNumbers deleteInJuly)
        (begin wholeNumbers deleteInJuly [⟨some (.integer 9), true⟩, ⟨some (.integer 12), true⟩]
          [⟨some (.integer 7), true⟩, ⟨some (.integer 9), true⟩, ⟨some (.integer 12), true⟩])
        [.readDest ["7".toList, "9".toList, "12".toList], .changeSource [⟨some (.integer 9), true⟩],
          .readSource ["9".toList], .count, .delete] = some w ∧
      w.deleted = [⟨some (.integer 7), true⟩, ⟨some (.integer 12), true⟩] ∧
      ∀ row ∈ w.deleted, ∃ k, row.key = some k ∧ k ∈ w.destSeen ∧ k ∉ w.sourceSeen := by
  have hrun : (exec (step wholeNumbers deleteInJuly)
      (begin wholeNumbers deleteInJuly [⟨some (.integer 9), true⟩, ⟨some (.integer 12), true⟩]
        [⟨some (.integer 7), true⟩, ⟨some (.integer 9), true⟩, ⟨some (.integer 12), true⟩])
      [.readDest ["7".toList, "9".toList, "12".toList], .changeSource [⟨some (.integer 9), true⟩],
        .readSource ["9".toList], .count, .delete]).map (fun w => (w.deleted, w.sourceSeen, w.destSeen)) =
      some ([⟨some (.integer 7), true⟩, ⟨some (.integer 12), true⟩], [.integer 9], [.integer 7, .integer 9, .integer 12]) := by
    decide +kernel
  obtain ⟨w, hw, hseen⟩ := Option.map_eq_some_iff.mp hrun
  obtain ⟨hdeleted, hsource, hdest⟩ : w.deleted = _ ∧ w.sourceSeen = _ ∧ w.destSeen = _ := by simpa using hseen
  refine ⟨w, hw, hdeleted, (typed_keys_deleted_when_gone .integer wholeNumbers deleteInJuly _ _ hw ?_ ?_ ?_ ?_).1⟩ <;>
    rw [hsource, hdest]
  · decide
  · refine ⟨fun s _ t ht => ?_, fun d _ t ht => ?_, fun d hd t ht => ?_⟩
    · exact (congrArg (Option.getD · []) ht)
    · exact (congrArg (Option.getD · []) ht)
    · simp only [List.mem_cons, List.not_mem_nil, or_false] at hd
      rcases hd with rfl | rfl | rfl <;> obtain rfl := Option.some.inj ht <;> decide +kernel
  · exact ⟨nofun, nofun⟩
  · rintro ⟨k, hk, hnone⟩
    have hk' : k ∈ [.integer 9, .integer 7, .integer 9, .integer 12] := hk
    simp only [List.mem_cons, List.not_mem_nil, or_false] at hk'
    rcases hk' with rfl | rfl | rfl | rfl <;> cases hnone

/-- A number with two decimals. -/
def twoDecimals (q : ℚ) : List Char :=
  let hundredths := q.num * (100 / q.den : Nat)
  (toString (hundredths / 100)).toList ++ '.' :: pad 2 (hundredths % 100).toNat

/-- Without the zeros at its end. -/
def withoutZeros (t : List Char) : List Char := ((t.reverse.dropWhile (· = '0')).dropWhile (· = '.')).reverse

def readDecimals (t : List Char) : ℚ :=
  let whole := t.takeWhile (· ≠ '.')
  let decimals := t.drop (whole.length + 1)
  mkRat (Nat.ofDigitChars 10 (whole ++ decimals) 0) (10 ^ decimals.length)

/-- Amounts of two decimals, which ClickHouse writes without the zeros at their ends. -/
def amounts : Setting TypedKey where
  source := .postgres
  dest := .clickHouse
  sourceText
    | .decimal q => twoDecimals q
    | _ => []
  destText
    | .decimal q => withoutZeros (twoDecimals q)
    | _ => []
  denotes t := some (.decimal (readDecimals t))
  columnType := "Decimal(10, 2)".toList
  charset := true
  debug := String.ofList

/-- Where the source has no keys, all of the destination's are deleted; and 1.50, which both have, is deleted for its
other text. -/
theorem window_and_live_key_deleted :
    (∃ w, exec (step wholeNumbers deleteInJuly) (begin wholeNumbers deleteInJuly [] [⟨some (.integer 7), true⟩])
        [.readDest ["7".toList], .readSource [], .count, .delete] = some w ∧
      w.sourceSeen = [] ∧ w.destSeen = [.integer 7] ∧ w.deleted = [⟨some (.integer 7), true⟩]) ∧
    ∃ w, exec (step amounts deleteInJuly)
        (begin amounts deleteInJuly [⟨some (.decimal (mkRat 3 2)), true⟩, ⟨some (.decimal (mkRat 5 4)), true⟩]
          [⟨some (.decimal (mkRat 3 2)), true⟩, ⟨some (.decimal (mkRat 5 4)), true⟩])
        [.readDest ["1.5".toList, "1.25".toList], .readSource ["1.50".toList, "1.25".toList], .count, .delete] = some w ∧
      w.deleted = [⟨some (.decimal (mkRat 3 2)), true⟩] ∧ .decimal (mkRat 3 2) ∈ w.sourceSeen := by
  have hempty : (exec (step wholeNumbers deleteInJuly)
      (begin wholeNumbers deleteInJuly [] [⟨some (.integer 7), true⟩])
      [.readDest ["7".toList], .readSource [], .count, .delete]).any (fun w =>
        decide (w.sourceSeen = [] ∧ w.destSeen = [.integer 7] ∧ w.deleted = [⟨some (.integer 7), true⟩])) = true := by
    decide +kernel
  have hother : (exec (step amounts deleteInJuly)
      (begin amounts deleteInJuly [⟨some (.decimal (mkRat 3 2)), true⟩, ⟨some (.decimal (mkRat 5 4)), true⟩]
        [⟨some (.decimal (mkRat 3 2)), true⟩, ⟨some (.decimal (mkRat 5 4)), true⟩])
      [.readDest ["1.5".toList, "1.25".toList], .readSource ["1.50".toList, "1.25".toList], .count, .delete]).any
        (fun w => decide (w.deleted = [⟨some (.decimal (mkRat 3 2)), true⟩] ∧ .decimal (mkRat 3 2) ∈ w.sourceSeen)) =
      true := by
    decide +kernel
  obtain ⟨w, hw, hseen⟩ := (Option.any_eq_true _ _).mp hempty
  obtain ⟨w', hw', hseen'⟩ := (Option.any_eq_true _ _).mp hother
  exact ⟨⟨w, hw, of_decide_eq_true hseen⟩, w', hw', of_decide_eq_true hseen'⟩

end Quickhouse.ReconcileKeys
