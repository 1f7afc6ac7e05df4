import Quickhouse.Error
import Quickhouse.Lib.Decimals
import Quickhouse.Lib.MachineInt
import Quickhouse.Lib.Text

/-!
# Exact decimals

Decimal text and a mantissa at another scale.  The mantissas are 128-bit and every operation on one is checked:
fraction digits that no longer fit are dropped.
-/

namespace Quickhouse

open MachineInt Text Decimals

/-- The text of a `Decimal128` of mantissa `value`. -/
def decimal128ToString (value scale : Int) : String :=
  let negative := value < 0
  let digits := (toString value.natAbs).toList
  let body :=
    if scale ≤ 0 then
      if scale = 0 then digits else digits ++ List.replicate (-scale).toNat '0'
    else
      let scale := scale.toNat
      if scale < digits.length then
        let point := digits.length - scale
        digits.take point ++ '.' :: digits.drop point
      else '0' :: '.' :: (List.replicate (scale - digits.length) '0' ++ digits)
  String.ofList (if negative then '-' :: body else body)

/-- A mantissa from one scale to another, rounded half away from zero; `none` on overflow. -/
def rescaleMantissa (magnitude fromScale toScale : Int) : Option Int :=
  if magnitude = 0 then some 0
  else do
    let diff ← checkedI32 (toScale - fromScale)
    if 0 ≤ diff then
      let factor ← checkedI128 (10 ^ diff.toNat)
      checkedI128 (magnitude * factor)
    else
      let shift ← checkedI32 (-diff)
      match checkedI128 (10 ^ shift.toNat) with
      | none => some 0
      | some divisor =>
        let quotient := magnitude.tdiv divisor
        let remainder := magnitude.tmod divisor
        if divisor.tdiv 2 ≤ remainder then some (quotient + 1) else some quotient

inductive DecimalText where
  | ok (negative : Bool) (magnitude scale : Int)
  /-- The integer digits alone do not fit. -/
  | magnitudeOverflow
  deriving DecidableEq, Repr

def pushDigit (magnitude : Int) (digit : Char) : Option Int :=
  (checkedI128 (magnitude * 10)).bind fun m => checkedI128 (m + (digit.toNat - '0'.toNat : Nat))

/-- The fraction digits that still fit; the scale counts them. -/
def pushFraction : List Char → Int → Int → Int × Int
  | [], magnitude, scale => (magnitude, scale)
  | b :: digits, magnitude, scale =>
    match pushDigit magnitude b with
    | some m => pushFraction digits m (asI32 (scale + 1))
    | none => (magnitude, scale)

def splitSign (s : List Char) : Bool × List Char :=
  match stripPrefix "-" s with
  | some rest => (true, rest)
  | none => (false, (stripPrefix "+" s).getD s)

/-- Digits on at least one side of the point, and nothing else. -/
def validParts (int frac : List Char) : Bool :=
  let allDigits (p : List Char) : Bool := !p.isEmpty && p.all Char.isDigit
  match int.isEmpty, frac.isEmpty with
  | true, true => false
  | false, true => allDigits int
  | true, false => allDigits frac
  | false, false => allDigits int && allDigits frac

/-- Optional sign, digits, optional point and digits. -/
def parseDecimalText (s : String) : Except EtlError DecimalText :=
  let (negative, rest) := splitSign (trim s.toList)
  let (int, frac) := (splitOnce '.' rest).getD (rest, [])
  if !validParts int frac then .error (.decode ("invalid decimal text '" ++ s ++ "'"))
  else
    match int.foldlM pushDigit 0 with
    | none => .ok .magnitudeOverflow
    | some magnitude =>
      let (magnitude, scale) := pushFraction frac magnitude 0
      .ok (.ok negative magnitude scale)

def isValidDecimalPrecision (value : Int) (precision : Nat) : Bool :=
  precision ≤ 38 && -10 ^ precision < value && value < 10 ^ precision

/-- A parsed magnitude in a `Decimal128(precision, scale)` column; `none` is NULL.  Every decoder has this arm. -/
def decimalCell (precision : Nat) (scale : Int) (negative : Bool) (magnitude nativeScale : Int) : Option Int :=
  (rescaleMantissa magnitude nativeScale scale).bind fun m =>
    let signed := if negative then asI128 (-m) else m
    if isValidDecimalPrecision signed precision then some signed else none

/-- What a decoder of decimal text appends to the column. -/
def decimalTextCell (precision : Nat) (scale : Int) (text : String) : Except EtlError (Option Int) :=
  (parseDecimalText text).map fun
    | .magnitudeOverflow => none
    | .ok negative magnitude textScale => decimalCell precision scale negative magnitude textScale

/-! ### The cell of a magnitude -/

/-- The precision and scale of a column: an `i8` each, of a precision a `Decimal128` can hold. -/
structure DecimalTarget where
  precision : Nat
  scale : Int
  precision_le : precision ≤ 38
  scale_mem : -128 ≤ scale ∧ scale ≤ 127

theorem ten_pow_le {p : Nat} (h : p ≤ 38) : (10 : Int) ^ p ≤ 10 ^ 38 :=
  pow_le_pow_right₀ (by norm_num) h

theorem checkedI128_ten_pow (n : Nat) : checkedI128 (10 ^ n) = if n ≤ 38 then some (10 ^ n) else none := by
  by_cases hn : n ≤ 38
  · have hle := ten_pow_le hn
    have hpos : (0 : Int) < 10 ^ n := by positivity
    rw [if_pos hn, checkedI128_eq]
    unfold InI128 i128Min i128Max
    omega
  · have hbig : (10 : Int) ^ 39 ≤ 10 ^ n := pow_le_pow_right₀ (by norm_num) (by omega)
    rw [if_neg hn]
    refine if_neg fun h => ?_
    unfold InI128 i128Max at h
    omega

/-- A magnitude that fits, at another scale: the exact one, unless a finer scale overflows. -/
theorem rescaleMantissa_eq {m : Nat} (hm : 0 < m) (hfit : (m : Int) ≤ i128Max) {fromScale toScale : Int}
    (hdiff : InI32 (toScale - fromScale)) (hneg : InI32 (fromScale - toScale)) :
    rescaleMantissa m fromScale toScale =
      if (shifted m (toScale - fromScale) : Int) ≤ i128Max then some (shifted m (toScale - fromScale) : Int)
      else none := by
  have hne : (m : Int) ≠ 0 := by omega
  unfold rescaleMantissa
  rw [if_neg hne, checkedI32_eq hdiff]
  generalize hd : toScale - fromScale = diff at *
  rw [show fromScale - toScale = -diff by omega] at hneg
  simp only [Option.bind_eq_bind, Option.bind_some, checkedI128_ten_pow]
  by_cases hpos : 0 ≤ diff
  · have hshift : (shifted m diff : Int) = m * 10 ^ diff.toNat := by
      unfold shifted
      rw [if_pos hpos]
      push_cast
      rfl
    rw [if_pos hpos, hshift]
    by_cases hwide : diff.toNat ≤ 38
    · have hmin : i128Min ≤ (m : Int) * 10 ^ diff.toNat := by
        have hge : (0 : Int) ≤ m * 10 ^ diff.toNat := by positivity
        unfold i128Min
        omega
      rw [if_pos hwide, Option.bind_some]
      by_cases hover : (m : Int) * 10 ^ diff.toNat ≤ i128Max
      · rw [if_pos hover, checkedI128_eq ⟨hmin, hover⟩]
      · rw [if_neg hover]
        exact if_neg fun h => hover h.2
    · have hbig : (10 : Int) ^ 39 ≤ 10 ^ diff.toNat := pow_le_pow_right₀ (by norm_num) (by omega)
      have hmul : (10 : Int) ^ diff.toNat ≤ m * 10 ^ diff.toNat :=
        le_mul_of_one_le_left (by positivity) (by omega)
      rw [if_neg hwide, Option.bind_none, if_neg]
      unfold i128Max
      omega
  · have hshift : shifted m diff = roundDiv m (10 ^ (-diff).toNat) := if_neg hpos
    have hfits : (shifted m diff : Int) ≤ i128Max := by
      have htwo : 10 ^ 1 ≤ 10 ^ (-diff).toNat := Nat.pow_le_pow_right (by norm_num) (by omega)
      have hle := roundDiv_le hm (by omega : 2 ≤ 10 ^ (-diff).toNat)
      omega
    rw [if_neg hpos, if_pos hfits, checkedI32_eq hneg, hshift]
    simp only [Option.bind_some]
    by_cases hwide : (-diff).toNat ≤ 38
    · obtain ⟨k, hk⟩ : ∃ k, (-diff).toNat = k + 1 := ⟨(-diff).toNat - 1, by omega⟩
      have hten : 10 ^ (k + 1) = 2 * (5 * 10 ^ k) := by rw [pow_succ]; ring
      have hdivisor : (10 : Int) ^ (k + 1) = ((2 * (5 * 10 ^ k) : ℕ) : Int) := by
        rw [← hten]
        push_cast
        rfl
      have hhalf : (((2 * (5 * 10 ^ k) : ℕ) : Int)).tdiv 2 = ((5 * 10 ^ k : ℕ) : Int) := by
        rw [show (2 : Int) = ((2 : ℕ) : Int) from rfl, ← Int.ofNat_tdiv, Nat.mul_div_cancel_left _ (by omega)]
      rw [if_pos hwide, hk, hdivisor]
      simp only [hhalf]
      rw [hten, roundDiv_even m (5 * 10 ^ k) (by positivity), ← Int.ofNat_tdiv, ← Int.ofNat_tmod]
      by_cases hrem : 5 * 10 ^ k ≤ m % (2 * (5 * 10 ^ k))
      · rw [if_pos hrem, if_pos (by exact_mod_cast hrem)]
        push_cast
        rfl
      · rw [if_neg hrem, if_neg (by exact_mod_cast hrem), Nat.add_zero]
    · have hzero : roundDiv m (10 ^ (-diff).toNat) = 0 := by
        have hbig : 10 ^ 39 ≤ 10 ^ (-diff).toNat := Nat.pow_le_pow_right (by norm_num) (by omega)
        rw [roundDiv_eq_zero (by positivity)]
        unfold i128Max at hfit
        omega
      rw [if_neg hwide, hzero]
      rfl

/-- The cell is the magnitude at the column's scale when that has few enough digits. -/
theorem decimalCell_eq {m : Nat} (hm : 0 < m) (hfit : (m : Int) ≤ i128Max) {nativeScale : Int} (t : DecimalTarget)
    (hscale : -2 ^ 30 ≤ nativeScale ∧ nativeScale ≤ 2 ^ 30) (negative : Bool) :
    decimalCell t.precision t.scale negative m nativeScale =
      if shifted m (t.scale - nativeScale) < 10 ^ t.precision then
        some (if negative then -(shifted m (t.scale - nativeScale) : Int) else shifted m (t.scale - nativeScale))
      else none := by
  have hs := t.scale_mem
  have hdiff : InI32 (t.scale - nativeScale) := by unfold InI32 i32Min i32Max; omega
  have hneg : InI32 (nativeScale - t.scale) := by unfold InI32 i32Min i32Max; omega
  have hp := ten_pow_le t.precision_le
  have hpcast : ((10 ^ t.precision : ℕ) : Int) = 10 ^ t.precision := by push_cast; rfl
  unfold decimalCell
  rw [rescaleMantissa_eq hm hfit hdiff hneg]
  generalize shifted m (t.scale - nativeScale) = n
  have hvalid : ∀ x : Int, isValidDecimalPrecision x t.precision = true ↔ -10 ^ t.precision < x ∧ x < 10 ^ t.precision := by
    intro x
    simp [isValidDecimalPrecision, t.precision_le]
  by_cases hover : (n : Int) ≤ i128Max
  · have hmin : InI128 (-(n : Int)) := by
      unfold InI128 i128Min
      unfold i128Max at *
      omega
    rw [if_pos hover, Option.bind_some]
    dsimp only
    rw [asI128_eq hmin]
    by_cases hn : n < 10 ^ t.precision
    · rw [if_pos hn, if_pos]
      rw [hvalid]
      cases negative <;> simp only [if_true, Bool.false_eq_true, if_false] <;> omega
    · rw [if_neg hn, if_neg]
      rw [hvalid]
      cases negative <;> simp only [if_true, Bool.false_eq_true, if_false] <;> omega
  · rw [if_neg hover, Option.bind_none, if_neg]
    unfold i128Max at hover
    omega

theorem rescaleMantissa_mem {m : Nat} (hfit : (m : Int) ≤ i128Max) {fromScale toScale n : Int}
    (h : rescaleMantissa m fromScale toScale = some n) : 0 ≤ n ∧ n ≤ i128Max := by
  by_cases hm : (m : Int) = 0
  · unfold rescaleMantissa at h
    rw [if_pos hm] at h
    obtain rfl := Option.some.inj h
    decide
  by_cases hdiff : InI32 (toScale - fromScale)
  · by_cases hneg : InI32 (fromScale - toScale)
    · rw [rescaleMantissa_eq (by omega) hfit hdiff hneg] at h
      split_ifs at h with hle
      obtain rfl := Option.some.inj h
      exact ⟨by omega, hle⟩
    · unfold rescaleMantissa at h
      have hlow : ¬ 0 ≤ toScale - fromScale := by
        unfold InI32 i32Min i32Max at *
        omega
      have hover : checkedI32 (-(toScale - fromScale)) = none := if_neg (by rwa [neg_sub])
      rw [if_neg hm, checkedI32_eq hdiff, Option.bind_eq_bind, Option.bind_some, if_neg hlow, hover] at h
      cases h
  · unfold rescaleMantissa at h
    have hover : checkedI32 (toScale - fromScale) = none := if_neg hdiff
    rw [if_neg hm, hover] at h
    cases h

/-- A result for a value and its negative. -/
def applySign (negative : Bool) (r : Option Int) : Option Int := if negative then r.map Neg.neg else r

theorem applySign_inj {negative : Bool} {r r' : Option Int} : applySign negative r = applySign negative r' ↔ r = r' := by
  unfold applySign
  cases negative with
  | false => rfl
  | true => exact (Option.map_injective neg_injective).eq_iff

theorem decimalCell_sign {m : Nat} (hfit : (m : Int) ≤ i128Max) (precision : Nat) (scale nativeScale : Int)
    (negative : Bool) : decimalCell precision scale negative m nativeScale =
      applySign negative (decimalCell precision scale false m nativeScale) := by
  cases negative with
  | false => rfl
  | true =>
    unfold decimalCell applySign
    cases hn : rescaleMantissa m nativeScale scale with
    | none => rfl
    | some n =>
      have hmem := rescaleMantissa_mem hfit hn
      have hmin : InI128 (-n) := by
        unfold InI128 i128Min
        unfold i128Max at *
        omega
      have hvalid : isValidDecimalPrecision (-n) precision = isValidDecimalPrecision n precision := by
        rw [Bool.eq_iff_iff]
        simp only [isValidDecimalPrecision, Bool.and_eq_true, decide_eq_true_eq]
        constructor <;> rintro ⟨⟨hp, hlow⟩, hhigh⟩ <;> exact ⟨⟨hp, by omega⟩, by omega⟩
      simp only [Option.bind_some, if_true, Bool.false_eq_true, if_false]
      rw [asI128_eq hmin, hvalid]
      split_ifs <;> rfl

/-- The first digits of a numeral give the cell of the whole one, except where the target's last place is the last of
them, the next digit rounds up and the mantissa is not too long. -/
theorem decimalCell_cut_iff (t : DecimalTarget) {m : Nat} (hm : 0 < m) (hfit : (m : Int) ≤ i128Max) {scale : Int}
    (hscale : -2 ^ 30 ≤ scale ∧ scale ≤ 2 ^ 30) {dropped : List Nat} (hdigits : ∀ d ∈ dropped, d < 10)
    (hnext : ∀ d rest, dropped = d :: rest → i128Max < ((10 * m + d : Nat) : Int)) :
    decimalCell t.precision t.scale false m scale =
        toDecimal t.precision t.scale
          (((m * 10 ^ dropped.length + ofDigits dropped : ℕ) : ℚ) * 10 ^ (-(scale + dropped.length))) ↔
      ¬(scale = t.scale ∧ m < 10 ^ t.precision ∧ ∃ d rest, dropped = d :: rest ∧ 5 ≤ d) := by
  have htail := ofDigits_lt hdigits
  rw [decimalCell_eq hm hfit t hscale, toDecimal_shifted, ← Int.sub_sub, if_neg Bool.false_ne_true]
  rcases lt_trichotomy (t.scale - scale) 0 with hlt | heq | hgt
  · rw [shifted_cut htail hlt]
    exact iff_of_true rfl fun h => by omega
  · have hsame : shifted m 0 = m := by simp [shifted]
    rw [heq, hsame, Int.zero_sub, shifted_cut_same htail]
    cases dropped with
    | nil => simp [ofDigits]
    | cons d rest =>
      have hhalf : 10 ^ (d :: rest).length ≤ 2 * ofDigits (d :: rest) ↔ 5 ≤ d :=
        half_le_iff fun e he => hdigits e (List.mem_cons_of_mem d he)
      by_cases hd : 5 ≤ d
      · rw [if_pos (hhalf.mpr hd)]
        by_cases hmp : m < 10 ^ t.precision
        · rw [if_pos hmp]
          refine iff_of_false ?_ fun h => h ⟨by omega, hmp, d, rest, rfl, hd⟩
          split_ifs
          · rw [Option.some.injEq]
            omega
          · exact not_false
        · rw [if_neg hmp, if_neg (by omega)]
          exact iff_of_true rfl fun h => hmp h.2.1
      · rw [if_neg (mt hhalf.mp hd), Nat.add_zero]
        refine iff_of_true rfl ?_
        rintro ⟨-, -, e, tail, he, h5⟩
        obtain ⟨rfl, -⟩ := List.cons.inj he
        exact hd h5
  · cases dropped with
    | nil => simp [ofDigits]
    | cons d rest =>
      refine iff_of_true ?_ fun h => by omega
      obtain ⟨k, hk⟩ : ∃ k : ℕ, t.scale - scale = ((k + 1 : ℕ) : Int) := ⟨(t.scale - scale - 1).toNat, by omega⟩
      have hwide := hnext d rest rfl
      have hd := hdigits d List.mem_cons_self
      have hp : 10 ^ t.precision ≤ 10 ^ 38 := Nat.pow_le_pow_right (by norm_num) t.precision_le
      have hgrow : m * 10 ≤ m * 10 ^ (k + 1) := Nat.mul_le_mul_left m (by
        rw [pow_succ]
        have : 0 < 10 ^ k := by positivity
        omega)
      have hlong : 10 ^ t.precision ≤ m * 10 ^ (k + 1) := by
        unfold i128Max at hwide
        omega
      have hshort : shifted m ((k + 1 : ℕ) : Int) = m * 10 ^ (k + 1) := by
        unfold shifted
        rw [if_pos (by omega), Int.toNat_natCast]
      have hcut := @le_shifted_cut m (d :: rest).length (k + 1) (ofDigits (d :: rest))
      rw [hk, hshort, if_neg (by omega), if_neg (by omega)]

/-! ### The digits of a mantissa -/

/-- The digits that fit behind the number `n` in a 128-bit mantissa. -/
def keptDigits (n : Nat) : List Nat → List Nat
  | [] => []
  | d :: ds => if ((10 * n + d : Nat) : Int) ≤ i128Max then d :: keptDigits (10 * n + d) ds else []

/-- The digits kept, and the first one that did not fit. -/
theorem keptDigits_append (n : Nat) (ds : List Nat) : ∃ dropped, ds = keptDigits n ds ++ dropped ∧
    ∀ d rest, dropped = d :: rest → i128Max < ((10 * extend n (keptDigits n ds) + d : Nat) : Int) := by
  induction ds generalizing n with
  | nil => exact ⟨[], rfl, fun d rest h => by cases h⟩
  | cons d ds ih =>
    unfold keptDigits
    by_cases h : ((10 * n + d : Nat) : Int) ≤ i128Max
    · obtain ⟨dropped, hsplit, hnext⟩ := ih (10 * n + d)
      rw [if_pos h, extend_cons]
      exact ⟨dropped, by rw [List.cons_append, ← hsplit], hnext⟩
    · rw [if_neg h]
      refine ⟨d :: ds, rfl, ?_⟩
      rintro e rest ⟨rfl, rfl⟩
      rw [extend_nil]
      omega

theorem keptDigits_fits {n : Nat} (ds : List Nat) (h : (n : Int) ≤ i128Max) :
    (extend n (keptDigits n ds) : Int) ≤ i128Max := by
  induction ds generalizing n with
  | nil => rwa [keptDigits, extend_nil]
  | cons d ds ih =>
    unfold keptDigits
    by_cases hd : ((10 * n + d : Nat) : Int) ≤ i128Max
    · rw [if_pos hd, extend_cons]
      exact ih hd
    · rwa [if_neg hd, extend_nil]

/-- Digits that all fit are all kept. -/
theorem keptDigits_append_of_le {n : Nat} {as : List Nat} (bs : List Nat) (h : (extend n as : Int) ≤ i128Max) :
    keptDigits n (as ++ bs) = as ++ keptDigits (extend n as) bs := by
  induction as generalizing n with
  | nil => rw [extend_nil, List.nil_append, List.nil_append]
  | cons a as ih =>
    rw [extend_cons] at h ⊢
    have hgrow := le_extend (10 * n + a) as
    rw [List.cons_append, List.cons_append, ← ih h]
    conv_lhs => unfold keptDigits
    rw [if_pos (by omega)]

/-- Of digits that do not all fit, none behind them is kept. -/
theorem keptDigits_append_of_lt {n : Nat} {as : List Nat} (bs : List Nat) (hn : (n : Int) ≤ i128Max)
    (h : i128Max < (extend n as : Int)) :
    keptDigits n (as ++ bs) = keptDigits n as ∧ (keptDigits n as).length < as.length := by
  induction as generalizing n with
  | nil =>
    rw [extend_nil] at h
    omega
  | cons a as ih =>
    rw [extend_cons] at h
    rw [List.cons_append]
    unfold keptDigits
    by_cases ha : ((10 * n + a : Nat) : Int) ≤ i128Max
    · obtain ⟨heq, hlt⟩ := ih ha h
      rw [if_pos ha, if_pos ha, heq]
      exact ⟨rfl, by rw [List.length_cons, List.length_cons]; omega⟩
    · rw [if_neg ha, if_neg ha]
      exact ⟨rfl, by rw [List.length_cons, List.length_nil]; omega⟩

/-- The digits kept are the first ones that fit, up to one that does not. -/
theorem keptDigits_eq {n : Nat} {ds rest : List Nat} {d : Nat} (hfit : (extend n ds : Int) ≤ i128Max)
    (hnext : i128Max < ((10 * extend n ds + d : Nat) : Int)) : keptDigits n (ds ++ d :: rest) = ds := by
  rw [keptDigits_append_of_le _ hfit]
  unfold keptDigits
  rw [if_neg (by omega), List.append_nil]

/-- The digits kept end at the `k`-th for want of room: what that says of the first `k` digits. -/
theorem cut_iff {n k precision : Nat} {ds dropped : List Nat} (hp : precision ≤ 38)
    (hsplit : ds = keptDigits n ds ++ dropped)
    (hnext : ∀ d rest, dropped = d :: rest → i128Max < ((10 * extend n (keptDigits n ds) + d : Nat) : Int)) :
    (∃ d rest, ds.drop k = d :: rest ∧ 5 ≤ d ∧ extend n (ds.take k) < 10 ^ precision ∧
        i128Max < ((10 * extend n (ds.take k) + d : Nat) : Int)) ↔
      (keptDigits n ds).length = k ∧ extend n (keptDigits n ds) < 10 ^ precision ∧
        ∃ d rest, dropped = d :: rest ∧ 5 ≤ d := by
  constructor
  · rintro ⟨d, rest, hdrop, hd, hshort, hwide⟩
    have hds : ds = ds.take k ++ d :: rest := by rw [← hdrop, List.take_append_drop]
    have hfit : (extend n (ds.take k) : Int) ≤ i128Max := by
      have hten : 10 ^ precision ≤ 10 ^ 38 := Nat.pow_le_pow_right (by norm_num) hp
      unfold i128Max
      omega
    have hkept : keptDigits n ds = ds.take k := by
      conv_lhs => rw [hds]
      exact keptDigits_eq hfit hwide
    have hlength : (keptDigits n ds).length = k := by
      rw [hkept, List.length_take_of_le]
      by_contra hlt
      rw [List.drop_of_length_le (by omega)] at hdrop
      cases hdrop
    rw [hkept] at hsplit
    refine ⟨hlength, ?_, d, rest, List.append_cancel_left (hsplit.symm.trans hds), hd⟩
    rwa [hkept]
  · rintro ⟨rfl, hshort, d, rest, rfl, hd⟩
    have hwide := hnext d rest rfl
    generalize keptDigits n ds = kept at *
    subst hsplit
    rw [List.take_left, List.drop_left]
    exact ⟨d, rest, rfl, hd, hshort, hwide⟩

end Quickhouse
