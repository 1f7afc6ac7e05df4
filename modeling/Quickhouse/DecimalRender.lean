import Quickhouse.DecimalText

/-!
# Decimals written and read back

The text of a mantissa at a scale is a numeral of that value, and the parser takes it back to the mantissa.
-/

namespace Quickhouse

open MachineInt Text Decimals

/-! ### The digits of a number -/

def digitOf (c : Char) : Fin 10 := Fin.ofNat 10 (c.toNat - '0'.toNat)

/-- The decimal digits, the most significant first; one zero for zero. -/
def digitsOf (n : Nat) : List (Fin 10) := (Nat.toDigits 10 n).map digitOf

theorem digitChar_digitOf {c : Char} (h : c.isDigit = true) : digitChar (digitOf c) = c ∧ (digitOf c).val = c.toNat - '0'.toNat := by
  have hchar : ∀ d < 10, Nat.digitChar d = Char.ofNat (48 + d) := by decide
  simp only [Char.isDigit, Bool.and_eq_true, decide_eq_true_eq, ge_iff_le] at h
  have hlow : 48 ≤ c.toNat := h.1
  have hhigh : c.toNat ≤ 57 := h.2
  have hzero : '0'.toNat = 48 := rfl
  have hval : (digitOf c).val = c.toNat - 48 := Nat.mod_eq_of_lt (by rw [hzero]; omega)
  refine ⟨?_, by rw [hval, hzero]⟩
  unfold digitChar
  rw [hval, hchar _ (by omega), Nat.add_sub_cancel' hlow]
  exact Char.ofNat_toNat c

theorem toDigits_isDigit {n : Nat} {c : Char} (h : c ∈ Nat.toDigits 10 n) : c.isDigit = true :=
  Nat.isDigit_of_mem_toDigits (by decide) (by decide) h

theorem digitsOf_chars (n : Nat) : (digitsOf n).map digitChar = (toString n).toList := by
  have hsame : ∀ c ∈ Nat.toDigits 10 n, (digitChar ∘ digitOf) c = c := fun c hc => (digitChar_digitOf (toDigits_isDigit hc)).1
  unfold digitsOf
  rw [List.map_map, List.map_congr_left hsame, List.map_id']
  exact Nat.toList_repr.symm

theorem digitsOf_ne_nil (n : Nat) : digitsOf n ≠ [] := by
  unfold digitsOf
  rw [ne_eq, List.map_eq_nil_iff]
  exact Nat.toDigits_ne_nil

theorem ofDigits_digitsOf (n : Nat) : ofDigits ((digitsOf n).map Fin.val) = n := by
  have hfold : ∀ (cs : List Char) (m : Nat), (∀ c ∈ cs, c.isDigit = true) →
      (cs.map fun c => (digitOf c).val).foldl (fun k d => 10 * k + d) m = Nat.ofDigitChars 10 cs m := by
    intro cs
    induction cs with
    | nil =>
      intro m _
      rfl
    | cons c cs ih =>
      intro m h
      rw [List.map_cons, List.foldl_cons, Nat.ofDigitChars_cons, (digitChar_digitOf (h c List.mem_cons_self)).2]
      exact ih _ fun e he => h e (List.mem_cons_of_mem _ he)
  have h := hfold (Nat.toDigits 10 n) 0 fun c hc => toDigits_isDigit hc
  unfold digitsOf ofDigits
  rw [List.map_map]
  exact h.trans (Nat.ofDigitChars_ten_toDigits)

theorem ofDigits_zeros (k : Nat) : ofDigits (List.replicate k 0) = 0 := by
  induction k with
  | zero => rfl
  | succ k ih =>
    rw [List.replicate_succ, ofDigits_cons, ih]
    simp

/-! ### The numeral of a mantissa -/

/-- The digits before the point, and those after it where there is one. -/
def renderedParts (digits : List (Fin 10)) (scale : Int) : List (Fin 10) × Option (List (Fin 10)) :=
  if scale ≤ 0 then (digits ++ List.replicate (-scale).toNat 0, none)
  else if scale.toNat < digits.length then
    (digits.take (digits.length - scale.toNat), some (digits.drop (digits.length - scale.toNat)))
  else ([0], some (List.replicate (scale.toNat - digits.length) 0 ++ digits))

theorem renderedParts_ne_nil {digits : List (Fin 10)} (h : digits ≠ []) (scale : Int) :
    (renderedParts digits scale).1 ≠ [] := by
  have hlength := List.length_pos_iff.mpr h
  unfold renderedParts
  split_ifs with hscale hpoint
  · exact List.append_ne_nil_of_left_ne_nil h _
  · rw [← List.length_pos_iff, List.length_take]
    omega
  · exact List.cons_ne_nil _ _

/-- The numeral that `decimal128ToString` writes. -/
def rendered (value scale : Int) : Numeral where
  sign := if value < 0 then some true else none
  int := (renderedParts (digitsOf value.natAbs) scale).1
  frac := (renderedParts (digitsOf value.natAbs) scale).2
  nonempty := .inl (renderedParts_ne_nil (digitsOf_ne_nil _) scale)

theorem rendered_text (value scale : Int) : (rendered value scale).text = decimal128ToString value scale := by
  have hchars := digitsOf_chars value.natAbs
  have hlength : (digitsOf value.natAbs).length = (toString value.natAbs).toList.length := by
    rw [← hchars, List.length_map]
  have hbody : (rendered value scale).int.map digitChar ++ (rendered value scale).fracText =
      (if scale ≤ 0 then
        if scale = 0 then (toString value.natAbs).toList
        else (toString value.natAbs).toList ++ List.replicate (-scale).toNat '0'
      else
        if scale.toNat < (toString value.natAbs).toList.length then
          (toString value.natAbs).toList.take ((toString value.natAbs).toList.length - scale.toNat) ++
            '.' :: (toString value.natAbs).toList.drop ((toString value.natAbs).toList.length - scale.toNat)
        else '0' :: '.' :: (List.replicate (scale.toNat - (toString value.natAbs).toList.length) '0' ++
          (toString value.natAbs).toList)) := by
    have hzero : digitChar 0 = '0' := rfl
    rw [← hchars]
    unfold rendered Numeral.fracText
    dsimp only
    unfold renderedParts
    by_cases hscale : scale ≤ 0
    · rw [if_pos hscale, if_pos hscale]
      dsimp only
      rw [List.map_append, List.map_replicate, hzero, List.append_nil]
      by_cases hs : scale = 0
      · rw [if_pos hs, hs]
        exact List.append_nil _
      · rw [if_neg hs]
    · rw [if_neg hscale, if_neg hscale, List.length_map]
      by_cases hpoint : scale.toNat < (digitsOf value.natAbs).length
      · rw [if_pos hpoint, if_pos hpoint]
        dsimp only
        rw [List.map_take, List.map_drop]
      · rw [if_neg hpoint, if_neg hpoint]
        dsimp only
        rw [List.map_append, List.map_replicate, hzero]
        rfl
  have hsign : (rendered value scale).signText = if value < 0 then ['-'] else [] := by
    unfold rendered Numeral.signText
    dsimp only
    split_ifs <;> rfl
  unfold Numeral.text decimal128ToString
  rw [hbody, hsign]
  by_cases hneg : value < 0
  · rw [if_pos hneg]
    simp [hneg]
  · rw [if_neg hneg]
    simp [hneg]

theorem rendered_negative (value scale : Int) : (rendered value scale).negative = decide (value < 0) := by
  unfold rendered Numeral.negative
  by_cases h : value < 0
  · simp [h]
  · simp [h]

/-- Its digits are those of the mantissa, and `scale` of them stand after the point. -/
theorem rendered_digits (value scale : Int) :
    ofDigits ((rendered value scale).intDigits ++ (rendered value scale).fracDigits) =
      value.natAbs * 10 ^ (-scale).toNat ∧ (rendered value scale).fracDigits.length = scale.toNat := by
  have hdigits := ofDigits_digitsOf value.natAbs
  unfold rendered Numeral.intDigits Numeral.fracDigits
  dsimp only
  unfold renderedParts
  by_cases hscale : scale ≤ 0
  · rw [if_pos hscale]
    constructor
    · simp [ofDigits_append, hdigits, ofDigits_zeros]
    · simp
      omega
  · have hnone : (-scale).toNat = 0 := by omega
    rw [if_neg hscale, hnone, pow_zero, Nat.mul_one]
    by_cases hpoint : scale.toNat < (digitsOf value.natAbs).length
    · rw [if_pos hpoint]
      constructor
      · dsimp only
        rw [Option.getD_some, ← List.map_append, List.take_append_drop, hdigits]
      · simp
        omega
    · rw [if_neg hpoint]
      constructor
      · have hint : ofDigits (([0] : List (Fin 10)).map Fin.val) = 0 := rfl
        dsimp only
        rw [Option.getD_some, List.map_append, List.map_replicate, ofDigits_append, ofDigits_append, hdigits, hint]
        simp [ofDigits_zeros]
      · simp
        omega

/-- Its value is the mantissa's at the scale. -/
theorem rendered_value (value scale : Int) : (rendered value scale).value = value * 10 ^ (-scale) := by
  obtain ⟨hdigits, hlength⟩ := rendered_digits value scale
  have hmagnitude : (rendered value scale).magnitude = (value.natAbs : ℚ) * 10 ^ (-scale) := by
    unfold Numeral.magnitude
    rw [hdigits, hlength]
    push_cast
    rw [mul_assoc, ← zpow_natCast, ← zpow_add₀ (by norm_num)]
    congr 2
    omega
  unfold Numeral.value
  rw [rendered_negative, hmagnitude]
  by_cases hneg : value < 0
  · have habs : (value.natAbs : ℚ) = -value := by
      rw [Nat.cast_natAbs, abs_of_neg hneg]
      push_cast
      rfl
    rw [if_pos (by simpa using hneg), habs]
    ring
  · have habs : (value.natAbs : ℚ) = value := by
      rw [Nat.cast_natAbs, abs_of_nonneg (by omega)]
    rw [if_neg (by simpa using hneg), habs]

/-- The mantissa keeps every digit. -/
theorem rendered_kept {value scale : Int} (h : |value| < 10 ^ 38) (hscale : 0 ≤ scale) :
    (rendered value scale).kept = (rendered value scale).fracDigits ∧
      (rendered value scale).mantissa = value.natAbs ∧ (ofDigits (rendered value scale).intDigits : Int) ≤ i128Max := by
  have hdigits := (rendered_digits value scale).1
  have hnone : (-scale).toNat = 0 := by omega
  rw [hnone, pow_zero, Nat.mul_one, ofDigits_append] at hdigits
  have hfit : (extend (ofDigits (rendered value scale).intDigits) (rendered value scale).fracDigits : Int) ≤ i128Max := by
    have habs := Int.natCast_natAbs value
    unfold extend i128Max
    rw [hdigits, habs]
    omega
  have hint : (ofDigits (rendered value scale).intDigits : Int) ≤ i128Max := by
    have hle := le_extend (ofDigits (rendered value scale).intDigits) (rendered value scale).fracDigits
    omega
  have hkept : (rendered value scale).kept = (rendered value scale).fracDigits := by
    have hall := keptDigits_append_of_le [] hfit
    rwa [List.append_nil, keptDigits, List.append_nil] at hall
  refine ⟨hkept, ?_, hint⟩
  unfold Numeral.mantissa
  rw [hkept, ofDigits_append, hdigits]

theorem natAbs_fits {value : Int} (h : |value| < 10 ^ 38) : (value.natAbs : Int) ≤ i128Max := by
  have habs := Int.natCast_natAbs value
  unfold i128Max
  omega

theorem signed_natAbs (value : Int) : (if value < 0 then -(value.natAbs : Int) else value.natAbs) = value := by
  split_ifs <;> omega

theorem rescaleMantissa_self {m : Nat} (hfit : (m : Int) ≤ i128Max) (scale : Int) :
    rescaleMantissa m scale scale = some (m : Int) := by
  rcases Nat.eq_zero_or_pos m with rfl | hm
  · rfl
  · have hzero : InI32 (scale - scale) := by
      rw [Int.sub_self]
      decide
    have hsame : shifted m (scale - scale) = m := by
      rw [Int.sub_self]
      exact Nat.mul_one m
    rw [rescaleMantissa_eq hm hfit hzero hzero, hsame, if_pos hfit]

/-- A mantissa of 38 digits written at a scale is read back as it was; at a negative scale the text is a numeral of its
value. -/
theorem decimal_text_reads_back (value : Int) (h : |value| < 10 ^ 38) (scale : Int) :
    (0 ≤ scale → scale ≤ 38 → ∃ magnitude textScale,
      parseDecimalText (decimal128ToString value scale) = .ok (.ok (decide (value < 0)) magnitude textScale) ∧
      (rescaleMantissa magnitude textScale scale).map (fun m => if value < 0 then -m else m) = some value) ∧
    (scale < 0 → ∃ x : Numeral, x.text = decimal128ToString value scale ∧ x.value = value * 10 ^ (-scale)) := by
  constructor
  · intro hlow hhigh
    obtain ⟨hkept, hmantissa, hint⟩ := rendered_kept h hlow
    have hlength := (rendered_digits value scale).2
    have hscale : asI32 (rendered value scale).kept.length = scale := by
      rw [hkept, hlength, Int.toNat_of_nonneg hlow]
      exact asI32_eq (by unfold InI32 i32Min i32Max; omega)
    have hparse := (rendered value scale).parseDecimalText_text
    rw [rendered_text, if_pos hint, rendered_negative, hmantissa, hscale] at hparse
    refine ⟨_, _, hparse, ?_⟩
    rw [rescaleMantissa_self (natAbs_fits h), Option.map_some, signed_natAbs]
  · intro _
    exact ⟨rendered value scale, rendered_text value scale, rendered_value value scale⟩

/-- Minus five thousandths. -/
theorem minus_five_thousandths_reads_back :
    ∃ magnitude textScale, parseDecimalText (decimal128ToString (-5) 3) = .ok (.ok true magnitude textScale) ∧
      (rescaleMantissa magnitude textScale 3).map (fun m => -m) = some (-5) :=
  (decimal_text_reads_back (-5) (by decide) 3).1 (by decide) (by decide)

end Quickhouse
