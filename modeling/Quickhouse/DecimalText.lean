import Quickhouse.Decimal

/-!
# Decimal text is read exactly, up to the width of a mantissa

A numeral in a decimal column is its value at the column's scale, rounded half away from zero, or NULL when that has
too many digits.  The digits that do not fit a 128-bit mantissa are dropped first, and only three kinds of numeral
show it (`Numeral.Shortened`).
-/

namespace Quickhouse

open MachineInt Text Decimals

/-- A decimal numeral: optional sign, digits, and digits after an optional point. -/
structure Numeral where
  /-- `-` or `+`. -/
  sign : Option Bool
  int : List (Fin 10)
  frac : Option (List (Fin 10))
  nonempty : int ≠ [] ∨ frac.getD [] ≠ []

def digitChar (d : Fin 10) : Char := Nat.digitChar d

namespace Numeral

def signText (x : Numeral) : List Char :=
  match x.sign with
  | some true => ['-']
  | some false => ['+']
  | none => []

def fracText (x : Numeral) : List Char :=
  match x.frac with
  | some ds => '.' :: ds.map digitChar
  | none => []

def text (x : Numeral) : String := String.ofList (x.signText ++ (x.int.map digitChar ++ x.fracText))

def negative (x : Numeral) : Bool := x.sign = some true

def intDigits (x : Numeral) : List Nat := x.int.map Fin.val

def fracDigits (x : Numeral) : List Nat := (x.frac.getD []).map Fin.val

/-- The value without its sign. -/
def magnitude (x : Numeral) : ℚ :=
  (ofDigits (x.intDigits ++ x.fracDigits) : ℚ) * 10 ^ (-(x.fracDigits.length : ℤ))

def value (x : Numeral) : ℚ := if x.negative then -x.magnitude else x.magnitude

end Numeral

namespace Numeral

variable (x : Numeral) (t : DecimalTarget)

/-- The digits end at the target's last place for want of room, and the next one rounds up. -/
def CutAtTarget : Prop :=
  0 ≤ t.scale ∧ ∃ d rest, x.fracDigits.drop t.scale.toNat = d :: rest ∧ 5 ≤ d ∧
    ofDigits (x.intDigits ++ x.fracDigits.take t.scale.toNat) < 10 ^ t.precision ∧
    i128Max < ((10 * ofDigits (x.intDigits ++ x.fracDigits.take t.scale.toNat) + d : Nat) : Int)

/-- The integer part is too large for a mantissa, and the value is not for the target, which has a negative scale. -/
def WideInteger : Prop :=
  i128Max < (ofDigits x.intDigits : Int) ∧ (toDecimal t.precision t.scale x.value).isSome = true

/-- So many digits after the point that their 32-bit count, or its distance from the target's scale, overflows; the
value is far below the target's last place. -/
def LongFraction : Prop :=
  let kept := keptDigits (ofDigits x.intDigits) x.fracDigits
  let m := ofDigits (x.intDigits ++ kept)
  let scale := asI32 kept.length
  (ofDigits x.intDigits : Int) ≤ i128Max ∧ m ≠ 0 ∧ 2 ^ 30 < kept.length ∧
    ¬(t.scale < scale ∧ scale - t.scale ≤ i32Max ∧ 2 * m < 10 ^ (scale - t.scale).toNat)

/-- The numerals that a mantissa of 128 bits and a scale of 32 do not hold well enough. -/
def Shortened : Prop := x.CutAtTarget t ∨ x.WideInteger t ∨ x.LongFraction t

end Numeral

/-! ### Reading the text -/

theorem digitChar_isDigit (d : Fin 10) : (digitChar d).isDigit = true := by
  revert d
  decide

theorem digitChar_ne (d : Fin 10) :
    digitChar d ≠ '-' ∧ digitChar d ≠ '+' ∧ digitChar d ≠ '.' ∧ isWhitespace (digitChar d) = false := by
  revert d
  decide

theorem pushDigit_digitChar (m : Nat) (d : Fin 10) :
    pushDigit m (digitChar d) =
      if ((10 * m + d : Nat) : Int) ≤ i128Max then some ((10 * m + d : Nat) : Int) else none := by
  have hdigit : (digitChar d).toNat - '0'.toNat = d := by
    revert d
    decide
  have hmin : ∀ n : Nat, i128Min ≤ (n : Int) := by
    intro n
    unfold i128Min
    omega
  unfold pushDigit
  rw [hdigit, show (m : Int) * 10 = ((m * 10 : Nat) : Int) by push_cast; rfl]
  by_cases h : ((10 * m + d : Nat) : Int) ≤ i128Max
  · rw [if_pos h, checkedI128_eq ⟨hmin _, by omega⟩, Option.bind_some]
    rw [show ((m * 10 : Nat) : Int) + (d : Nat) = ((10 * m + d : Nat) : Int) by push_cast; ring]
    exact checkedI128_eq ⟨hmin _, h⟩
  · rw [if_neg h]
    unfold checkedI128
    by_cases htens : InI128 ((m * 10 : Nat) : Int)
    · rw [if_pos htens, Option.bind_some]
      refine if_neg fun hsum => h ?_
      have := hsum.2
      push_cast at this ⊢
      omega
    · rw [if_neg htens, Option.bind_none]

theorem foldlM_pushDigit (ds : List (Fin 10)) (n : Nat) (hn : (n : Int) ≤ i128Max) :
    (ds.map digitChar).foldlM pushDigit (n : Int) =
      if (extend n (ds.map Fin.val) : Int) ≤ i128Max then some (extend n (ds.map Fin.val) : Int) else none := by
  induction ds generalizing n with
  | nil =>
    rw [List.map_nil, List.map_nil, extend_nil, if_pos hn]
    rfl
  | cons d ds ih =>
    rw [List.map_cons, List.map_cons, extend_cons, List.foldlM_cons, pushDigit_digitChar]
    by_cases h : ((10 * n + d : Nat) : Int) ≤ i128Max
    · rw [if_pos h, Option.bind_eq_bind, Option.bind_some, ih _ h]
    · -- a prefix that does not fit is not made smaller by more digits
      have hgrow := le_extend (10 * n + d) (ds.map Fin.val)
      rw [if_neg h, Option.bind_eq_bind, Option.bind_none, if_neg (by omega)]

theorem asI32_add_one (n : Int) : asI32 (asI32 n + 1) = asI32 (n + 1) := by
  unfold asI32
  exact Int.bmod_add_bmod

theorem pushFraction_digits (ds : List (Fin 10)) (n : Nat) (count : Int) :
    pushFraction (ds.map digitChar) n (asI32 count) =
      ((extend n (keptDigits n (ds.map Fin.val)) : Int), asI32 (count + (keptDigits n (ds.map Fin.val)).length)) := by
  induction ds generalizing n count with
  | nil => simp [pushFraction, keptDigits, extend_nil]
  | cons d ds ih =>
    rw [List.map_cons, List.map_cons]
    unfold pushFraction keptDigits
    rw [pushDigit_digitChar]
    by_cases h : ((10 * n + d : Nat) : Int) ≤ i128Max
    · rw [if_pos h, if_pos h]
      dsimp only
      rw [asI32_add_one, ih, extend_cons, List.length_cons]
      congr 2
      push_cast
      ring
    · rw [if_neg h, if_neg h]
      simp [extend_nil]

namespace Numeral

variable (x : Numeral)

/-- The digits of the mantissa. -/
def kept : List Nat := keptDigits (ofDigits x.intDigits) x.fracDigits

def mantissa : Nat := ofDigits (x.intDigits ++ x.kept)

theorem mantissa_eq : x.mantissa = extend (ofDigits x.intDigits) x.kept := ofDigits_append _ _

theorem text_toList : x.text.toList = x.signText ++ (x.int.map digitChar ++ x.fracText) := String.toList_ofList

theorem mem_body {c : Char} (h : c ∈ x.int.map digitChar ++ x.fracText) :
    c ≠ '-' ∧ c ≠ '+' ∧ isWhitespace c = false := by
  have hdigits : ∀ ds : List (Fin 10), c ∈ ds.map digitChar → c ≠ '-' ∧ c ≠ '+' ∧ isWhitespace c = false := by
    intro ds hc
    obtain ⟨d, -, rfl⟩ := List.mem_map.mp hc
    obtain ⟨hminus, hplus, -, hspace⟩ := digitChar_ne d
    exact ⟨hminus, hplus, hspace⟩
  rcases List.mem_append.mp h with hc | hc
  · exact hdigits _ hc
  · unfold fracText at hc
    cases hfrac : x.frac with
    | none => simp [hfrac] at hc
    | some ds =>
      rw [hfrac] at hc
      rcases List.mem_cons.mp hc with rfl | hc
      · decide
      · exact hdigits ds hc

theorem trim_text : trim x.text.toList = x.text.toList := by
  rw [text_toList]
  refine trim_of_not_space fun c hc => ?_
  rcases List.mem_append.mp hc with hsign | hbody
  · unfold signText at hsign
    cases hx : x.sign with
    | none => simp [hx] at hsign
    | some b =>
      rw [hx] at hsign
      cases b <;> obtain rfl := List.mem_singleton.mp hsign <;> decide
  · exact (x.mem_body hbody).2.2

/-- The sign is taken off. -/
theorem splitSign_text : splitSign x.text.toList = (x.negative, x.int.map digitChar ++ x.fracText) := by
  have hhead : ∀ c, (c = '-' ∨ c = '+') → (x.int.map digitChar ++ x.fracText).head? ≠ some c := by
    intro c hc h
    have hmem := x.mem_body (List.mem_of_mem_head? h)
    rcases hc with rfl | rfl
    · exact hmem.1 rfl
    · exact hmem.2.1 rfl
  rw [text_toList]
  unfold splitSign signText negative
  generalize hbody : x.int.map digitChar ++ x.fracText = body at *
  cases hx : x.sign with
  | none =>
    dsimp only
    rw [List.nil_append, stripPrefix_of_head rfl (hhead '-' (.inl rfl)), stripPrefix_of_head rfl (hhead '+' (.inr rfl))]
    rfl
  | some b =>
    cases b with
    | true =>
      dsimp only
      rw [show ['-'] ++ body = "-".toList ++ body from rfl, stripPrefix_append]
      rfl
    | false =>
      dsimp only
      have hplus : stripPrefix "+" (['+'] ++ body) = some body := stripPrefix_append "+" body
      have hminus : (['+'] ++ body).head? ≠ some '-' := by
        rw [List.singleton_append, List.head?_cons]
        decide
      rw [stripPrefix_of_head rfl hminus, hplus]
      rfl

theorem split_point :
    (splitOnce '.' (x.int.map digitChar ++ x.fracText)).getD (x.int.map digitChar ++ x.fracText, []) =
      (x.int.map digitChar, (x.frac.getD []).map digitChar) := by
  have hpoint : ∀ ds : List (Fin 10), '.' ∉ ds.map digitChar := by
    intro ds h
    obtain ⟨d, -, hd⟩ := List.mem_map.mp h
    exact (digitChar_ne d).2.2.1 hd
  unfold fracText
  cases x.frac with
  | none =>
    dsimp only
    rw [List.append_nil, splitOnce_of_not_mem (hpoint _)]
    rfl
  | some ds =>
    dsimp only
    rw [splitOnce_append (hpoint _)]
    rfl

theorem all_isDigit (ds : List (Fin 10)) : (ds.map digitChar).all Char.isDigit = true := by
  simp [digitChar_isDigit]

theorem validParts_text : validParts (x.int.map digitChar) ((x.frac.getD []).map digitChar) = true := by
  have hne := x.nonempty
  have hall := all_isDigit
  unfold validParts
  dsimp only
  rw [hall, hall]
  cases hint : x.int with
  | nil =>
    cases hfrac : x.frac.getD [] with
    | nil => simp [hint, hfrac] at hne
    | cons d ds => rfl
  | cons d ds => cases x.frac.getD [] <;> rfl

theorem parseDecimalText_text : parseDecimalText x.text =
    if (ofDigits x.intDigits : Int) ≤ i128Max then .ok (.ok x.negative x.mantissa (asI32 x.kept.length))
    else .ok .magnitudeOverflow := by
  have hint : (x.int.map digitChar).foldlM pushDigit 0 =
      if (ofDigits x.intDigits : Int) ≤ i128Max then some (ofDigits x.intDigits : Int) else none := by
    have h := foldlM_pushDigit x.int 0 (by decide)
    rwa [extend_zero, Nat.cast_zero] at h
  have hfrac : pushFraction ((x.frac.getD []).map digitChar) (ofDigits x.intDigits) 0 =
      ((x.mantissa : Int), asI32 x.kept.length) := by
    have h := pushFraction_digits (x.frac.getD []) (ofDigits x.intDigits) 0
    rw [show asI32 0 = 0 from by decide, Int.zero_add] at h
    rw [mantissa_eq, h]
    rfl
  unfold parseDecimalText
  rw [trim_text, splitSign_text]
  dsimp only
  rw [split_point]
  dsimp only
  rw [validParts_text, hint, Bool.not_true, if_neg Bool.false_ne_true]
  by_cases hfit : (ofDigits x.intDigits : Int) ≤ i128Max
  · rw [if_pos hfit, if_pos hfit]
    dsimp only
    rw [hfrac]
  · rw [if_neg hfit, if_neg hfit]

theorem decimalTextCell_text (t : DecimalTarget) : decimalTextCell t.precision t.scale x.text = .ok (applySign x.negative
    (if (ofDigits x.intDigits : Int) ≤ i128Max then
      decimalCell t.precision t.scale false x.mantissa (asI32 x.kept.length)
    else none)) := by
  unfold decimalTextCell
  rw [parseDecimalText_text]
  split_ifs with hint
  · have hfit : (x.mantissa : Int) ≤ i128Max := by
      rw [mantissa_eq]
      exact keptDigits_fits x.fracDigits hint
    exact congrArg Except.ok (decimalCell_sign hfit t.precision t.scale _ x.negative)
  · unfold applySign
    cases x.negative <;> rfl

theorem toDecimal_value (t : DecimalTarget) :
    toDecimal t.precision t.scale x.value = applySign x.negative (toDecimal t.precision t.scale x.magnitude) := by
  unfold value applySign
  split_ifs
  · exact toDecimal_neg _ _ _
  · rfl

theorem digits_lt (ds : List (Fin 10)) : ∀ d ∈ ds.map Fin.val, d < 10 := by
  intro d hd
  obtain ⟨e, -, rfl⟩ := List.mem_map.mp hd
  exact e.isLt

/-- The value, from the digits kept and those dropped. -/
theorem magnitude_eq {dropped : List Nat} (h : x.fracDigits = x.kept ++ dropped) : x.magnitude =
    ((x.mantissa * 10 ^ dropped.length + ofDigits dropped : ℕ) : ℚ) * 10 ^ (-((x.kept.length : ℤ) + dropped.length)) := by
  have hdigits : ofDigits (x.intDigits ++ x.fracDigits) = x.mantissa * 10 ^ dropped.length + ofDigits dropped := by
    rw [h, ← List.append_assoc, ofDigits_append]
    rfl
  have hlength : (x.fracDigits.length : ℤ) = (x.kept.length : ℤ) + dropped.length := by
    have := congrArg List.length h
    rw [List.length_append] at this
    omega
  unfold magnitude
  rw [hdigits, hlength]

/-- The whole numeral is at most the mantissa's digits and one more at their last place. -/
theorem magnitude_small {t : DecimalTarget} {dropped : List Nat} (h : x.fracDigits = x.kept ++ dropped)
    (hfit : (x.mantissa : Int) ≤ i128Max) (hlong : 2 ^ 30 < x.kept.length) :
    toDecimal t.precision t.scale x.magnitude = some 0 := by
  have hdropped : ∀ d ∈ dropped, d < 10 := fun d hd =>
    digits_lt (x.frac.getD []) d (by
      change d ∈ x.fracDigits
      rw [h]
      exact List.mem_append_right _ hd)
  have hs := t.scale_mem
  rw [magnitude_eq x h, toDecimal_shifted, ← Int.sub_sub, shifted_cut (ofDigits_lt hdropped) (by omega)]
  have hzero : shifted x.mantissa (t.scale - x.kept.length) = 0 := by
    unfold shifted
    rw [if_neg (by omega), roundDiv_eq_zero (by positivity)]
    have hbig : 10 ^ 39 ≤ 10 ^ (-(t.scale - x.kept.length)).toNat := Nat.pow_le_pow_right (by norm_num) (by omega)
    unfold i128Max at hfit
    omega
  rw [hzero, if_pos (by positivity)]
  rfl

end Numeral

/-- A magnitude above zero is written as zero when its scale is far enough above the target's. -/
theorem decimalCell_eq_zero (t : DecimalTarget) {m : Nat} (hm : 0 < m) (hfit : (m : Int) ≤ i128Max) {scale : Int} :
    decimalCell t.precision t.scale false m scale = some 0 ↔
      t.scale < scale ∧ scale - t.scale ≤ i32Max ∧ 2 * m < 10 ^ (scale - t.scale).toNat := by
  have hs := t.scale_mem
  have hp := ten_pow_le t.precision_le
  have hpos : (0 : Int) < 10 ^ t.precision := by positivity
  have hcell : decimalCell t.precision t.scale false m scale = some 0 ↔ rescaleMantissa m scale t.scale = some 0 := by
    unfold decimalCell
    cases hn : rescaleMantissa m scale t.scale with
    | none => simp
    | some n =>
      rw [Option.bind_some, Option.some.injEq]
      dsimp only
      rw [if_neg Bool.false_ne_true]
      constructor
      · intro h
        split_ifs at h
        exact Option.some.inj h
      · rintro rfl
        rw [if_pos]
        simp [isValidDecimalPrecision, t.precision_le]
  rw [hcell]
  by_cases hdiff : InI32 (t.scale - scale)
  · by_cases hneg : InI32 (scale - t.scale)
    · rw [rescaleMantissa_eq hm hfit hdiff hneg]
      unfold shifted
      by_cases hlow : 0 ≤ t.scale - scale
      · have hmul : m * 10 ^ (t.scale - scale).toNat ≠ 0 := by positivity
        rw [if_pos hlow]
        refine iff_of_false ?_ fun h => by omega
        split_ifs
        · rw [Option.some.injEq]
          exact_mod_cast hmul
        · exact not_false
      · have hle : (roundDiv m (10 ^ (-(t.scale - scale)).toNat) : Int) ≤ i128Max := by
          have htwo : 10 ^ 1 ≤ 10 ^ (-(t.scale - scale)).toNat := Nat.pow_le_pow_right (by norm_num) (by omega)
          have hround := roundDiv_le hm (by omega : 2 ≤ 10 ^ (-(t.scale - scale)).toNat)
          omega
        rw [if_neg hlow, if_pos hle, Option.some.injEq, Nat.cast_eq_zero, roundDiv_eq_zero (by positivity), neg_sub]
        exact ⟨fun h => ⟨by omega, hneg.2, h⟩, fun h => h.2.2⟩
    · have hlow : ¬0 ≤ t.scale - scale := by
        unfold InI32 i32Min i32Max at *
        omega
      have hover : checkedI32 (-(t.scale - scale)) = none := if_neg (by rwa [neg_sub])
      unfold rescaleMantissa
      rw [if_neg (by omega), checkedI32_eq hdiff, Option.bind_eq_bind, Option.bind_some, if_neg hlow, hover]
      refine iff_of_false (by simp) fun h => hneg ⟨?_, h.2.1⟩
      unfold i32Min
      omega
  · have hover : checkedI32 (t.scale - scale) = none := if_neg hdiff
    unfold rescaleMantissa
    rw [if_neg (by omega), hover]
    refine iff_of_false (by simp) fun h => hdiff ⟨?_, ?_⟩
    · have := h.2.1
      unfold i32Min
      unfold i32Max at this
      omega
    · unfold i32Max
      omega

/-- The digits up to the target's last place are those kept. -/
theorem cutAtTarget_iff (x : Numeral) (t : DecimalTarget) {dropped : List Nat}
    (hsplit : x.fracDigits = x.kept ++ dropped)
    (hnext : ∀ d rest, dropped = d :: rest → i128Max < ((10 * x.mantissa + d : Nat) : Int)) :
    x.CutAtTarget t ↔ (x.kept.length : Int) = t.scale ∧ x.mantissa < 10 ^ t.precision ∧
      ∃ d rest, dropped = d :: rest ∧ 5 ≤ d := by
  have hcut := cut_iff (n := ofDigits x.intDigits) (k := t.scale.toNat) t.precision_le hsplit (by
    rw [x.mantissa_eq] at hnext
    exact hnext)
  unfold Numeral.CutAtTarget
  simp only [ofDigits_append]
  rw [x.mantissa_eq]
  constructor
  · rintro ⟨hscale, h⟩
    obtain ⟨hlength, hrest⟩ := hcut.mp h
    refine ⟨?_, hrest⟩
    change x.kept.length = _ at hlength
    omega
  · rintro ⟨hlength, hrest⟩
    refine ⟨by omega, hcut.mpr ⟨?_, hrest⟩⟩
    change x.kept.length = _
    omega

/-- Decimal text in a decimal column is its value, rounded half away from zero at the column's scale, or NULL when that
has too many digits, exactly when the numeral is not one that the mantissa shortens. -/
theorem decimal_text_exact_iff (x : Numeral) (t : DecimalTarget) :
    decimalTextCell t.precision t.scale x.text = .ok (toDecimal t.precision t.scale x.value) ↔ ¬x.Shortened t := by
  rw [x.decimalTextCell_text, x.toDecimal_value, Except.ok.injEq, applySign_inj]
  unfold Numeral.Shortened
  by_cases hint : (ofDigits x.intDigits : Int) ≤ i128Max
  · have hfit : (x.mantissa : Int) ≤ i128Max := by
      rw [x.mantissa_eq]
      exact keptDigits_fits x.fracDigits hint
    obtain ⟨dropped, hsplit, hnext⟩ := keptDigits_append (ofDigits x.intDigits) x.fracDigits
    change ∀ d rest, dropped = d :: rest → i128Max < ((10 * extend (ofDigits x.intDigits) x.kept + d : Nat) : Int) at hnext
    rw [← x.mantissa_eq] at hnext
    change x.fracDigits = x.kept ++ dropped at hsplit
    have hdropped : ∀ d ∈ dropped, d < 10 := fun d hd =>
      Numeral.digits_lt (x.frac.getD []) d (by
        change d ∈ x.fracDigits
        rw [hsplit]
        exact List.mem_append_right _ hd)
    have hcut := cutAtTarget_iff x t hsplit hnext
    have hwide : ¬x.WideInteger t := fun h => by
      have := h.1
      omega
    have hs := t.scale_mem
    rw [if_pos hint]
    by_cases hm : x.mantissa = 0
    · -- nothing is dropped behind a zero
      have hnone : dropped = [] := by
        cases dropped with
        | nil => rfl
        | cons d rest =>
          have hd := hdropped d List.mem_cons_self
          have hover := hnext d rest rfl
          rw [hm] at hover
          unfold i128Max at hover
          omega
      have hcell : decimalCell t.precision t.scale false x.mantissa (asI32 x.kept.length) = some 0 := by
        rw [hm]
        simp [decimalCell, rescaleMantissa, isValidDecimalPrecision, t.precision_le]
      have hzero : toDecimal t.precision t.scale x.magnitude = some 0 := by
        rw [x.magnitude_eq hsplit, hm, hnone, toDecimal_shifted]
        simp [ofDigits, shifted_zero]
      refine iff_of_true (hcell.trans hzero.symm) ?_
      rintro (h | h | h)
      · obtain ⟨-, -, d, rest, hd, -⟩ := hcut.mp h
        rw [hnone] at hd
        cases hd
      · exact hwide h
      · exact h.2.1 hm
    · have hpos : 0 < x.mantissa := Nat.pos_of_ne_zero hm
      by_cases hlong : 2 ^ 30 < x.kept.length
      · rw [x.magnitude_small hsplit hfit hlong, decimalCell_eq_zero t hpos hfit]
        constructor
        · rintro h (hc | hw | hl)
          · have := (hcut.mp hc).1
            omega
          · exact hwide hw
          · exact hl.2.2.2 h
        · intro h
          by_contra hno
          exact h (.inr (.inr ⟨hint, hm, hlong, hno⟩))
      · have hcount : asI32 (x.kept.length : Int) = x.kept.length :=
          asI32_eq (by unfold InI32 i32Min i32Max; omega)
        rw [hcount, x.magnitude_eq hsplit, decimalCell_cut_iff t hpos hfit (by omega) hdropped hnext, ← hcut]
        refine not_congr ⟨fun h => .inl h, ?_⟩
        rintro (h | h | h)
        · exact h
        · exact absurd h hwide
        · exact absurd h.2.2.1 hlong
  · rw [if_neg hint]
    have hwide : x.WideInteger t ↔ (toDecimal t.precision t.scale x.magnitude).isSome = true := by
      unfold Numeral.WideInteger
      rw [x.toDecimal_value, and_iff_right (by omega)]
      unfold applySign
      split_ifs <;> simp
    have hcut : ¬x.CutAtTarget t := by
      rintro ⟨-, d, rest, -, -, hshort, -⟩
      have hp := ten_pow_le t.precision_le
      have hcast : ((10 ^ t.precision : ℕ) : Int) = 10 ^ t.precision := by push_cast; rfl
      have hgrow : ofDigits x.intDigits ≤ ofDigits (x.intDigits ++ x.fracDigits.take t.scale.toNat) := by
        rw [ofDigits_append]
        exact le_add_right (Nat.le_mul_of_pos_right _ (by positivity))
      unfold i128Max at hint
      omega
    have hlong : ¬x.LongFraction t := fun h => hint h.1
    rw [or_iff_right hcut, or_iff_left hlong, hwide]
    cases toDecimal t.precision t.scale x.magnitude <;> simp

instance tenNeZero : NeZero 10 := ⟨by decide⟩

/-- `9.00...015`, with 38 digits after the point. -/
def nineAndFifteen : Numeral where
  sign := none
  int := [9]
  frac := some (List.replicate 36 0 ++ [1, 5])
  nonempty := .inl (List.cons_ne_nil _ _)

/-- It ends in 01 and not 02 in a `Decimal(38, 37)`: the mantissa has room for 38 of its digits. -/
theorem fifteen_is_cut_to_one :
    decimalTextCell 38 37 nineAndFifteen.text = .ok (some (9 * 10 ^ 37 + 1)) ∧
      toDecimal 38 37 nineAndFifteen.value = some (9 * 10 ^ 37 + 2) := by
  constructor
  · decide +kernel
  · decide +kernel

end Quickhouse
