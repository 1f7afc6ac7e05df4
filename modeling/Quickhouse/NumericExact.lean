import Quickhouse.Source.PgValues

/-!
# NUMERIC is read exactly, up to the width of a mantissa

A wire value in a decimal column is its value at the column's scale, rounded half away from zero, or NULL when that has
too many digits; a NaN or an infinity is NULL.  The decimal digits that do not fit a 128-bit mantissa are dropped
first, and the count of the groups is read as a signed number: `WireNumeric.Misread` says which values show it.
-/

namespace Quickhouse

open MachineInt Decimals Slices Wire

/-- A finite NUMERIC: digits in base 10000, the first of them worth `10000 ^ weight`. -/
structure WireNumeric where
  negative : Bool
  weight : Int
  displayScale : Nat
  groups : List (Fin 10000)
  weight_mem : -2 ^ 15 ≤ weight ∧ weight < 2 ^ 15
  /-- The count of the groups has 16 bits. -/
  count_lt : groups.length < 2 ^ 16

def wireHeader (count weight sign displayScale : Int) : Bytes :=
  bigEndian 2 count ++ (bigEndian 2 weight ++ (bigEndian 2 sign ++ bigEndian 2 displayScale))

def groupBytes (g : Fin 10000) : Bytes := bigEndian 2 (g : Nat)

/-- The decimal digits of a group. -/
def groupDigits (g : Fin 10000) : List Nat := [1000, 100, 10, 1].map fun place => g / place % 10

/-- What groups are worth, the first of them at `weight`. -/
def groupsValue : List (Fin 10000) → Int → ℚ
  | [], _ => 0
  | g :: groups, weight => (g : Nat) * 10000 ^ weight + groupsValue groups (weight - 1)

namespace WireNumeric

variable (x : WireNumeric) (t : DecimalTarget)

def bytes : Bytes :=
  wireHeader x.groups.length x.weight (if x.negative then 0x4000 else 0) x.displayScale ++ x.groups.flatMap groupBytes

def magnitude : ℚ := groupsValue x.groups x.weight

def value : ℚ := if x.negative then -x.magnitude else x.magnitude

def digits : List Nat := x.groups.flatMap groupDigits

/-- The decimal digits before the `scale`-th place after the point. -/
def upTo (scale : Int) : Nat := (4 * (x.weight + 1) + scale).toNat

/-- The digits end at the target's last place for want of room, and the next one rounds up. -/
def CutAtTarget : Prop :=
  0 ≤ t.scale ∧ ∃ d rest, x.digits.drop (x.upTo t.scale) = d :: rest ∧ 5 ≤ d ∧
    ofDigits (x.digits.take (x.upTo t.scale)) < 10 ^ t.precision ∧
    i128Max < ((10 * ofDigits (x.digits.take (x.upTo t.scale)) + d : Nat) : Int)

/-- The integer groups overflow a mantissa. -/
def IntegerOverflow : Prop := i128Max < (ofDigits (x.digits.take (x.upTo 0)) : Int)

instance : Decidable x.IntegerOverflow := inferInstanceAs (Decidable (_ < _))

/-- They do, and the value is not too large for the target, which has a negative scale. -/
def WideInteger : Prop := x.IntegerOverflow ∧ (toDecimal t.precision t.scale x.value).isSome = true

/-- The count of the groups is negative as a signed number, and the groups are not seen to overflow before their end. -/
def Uncounted : Prop := 2 ^ 15 ≤ x.groups.length ∧ (x.groups.length < 2 ^ 16 - 4 ∨ (ofDigits x.digits : Int) ≤ i128Max)

/-- The values that a mantissa of 128 bits or a signed count does not hold. -/
def Misread : Prop := x.CutAtTarget t ∨ x.WideInteger t ∨ x.Uncounted

end WireNumeric

inductive Special where
  | nan
  | infinity
  | negInfinity
  deriving DecidableEq, Repr

def Special.sign : Special → Int
  | nan => 0xC000
  | infinity => 0xD000
  | negInfinity => 0xF000

/-- What the server sends. -/
inductive PgNumeric where
  | finite (x : WireNumeric)
  | special (kind : Special) (weight displayScale : Int)

namespace PgNumeric

def bytes : PgNumeric → Bytes
  | finite x => x.bytes
  | special kind weight displayScale => wireHeader 0 weight kind.sign displayScale

/-- The value in a decimal column, or NULL. -/
def exact (t : DecimalTarget) : PgNumeric → Option Int
  | finite x => toDecimal t.precision t.scale x.value
  | special .. => none

/-- It is finite, and one that a mantissa or a count does not hold. -/
def Misread (t : DecimalTarget) : PgNumeric → Prop
  | finite x => x.Misread t
  | special .. => False

end PgNumeric

/-! ### Reading a group -/

theorem pushGroup_natCast (base m digit : Nat) :
    pushGroup base m digit =
      if ((m * base + digit : Nat) : Int) ≤ i128Max then some ((m * base + digit : Nat) : Int) else none := by
  have hmin : ∀ n : Nat, i128Min ≤ (n : Int) := by
    intro n
    unfold i128Min
    omega
  unfold pushGroup
  rw [show (m : Int) * base = ((m * base : Nat) : Int) by push_cast; rfl]
  by_cases h : ((m * base + digit : Nat) : Int) ≤ i128Max
  · rw [if_pos h, checkedI128_eq ⟨hmin _, by omega⟩, Option.bind_some]
    exact checkedI128_eq ⟨hmin _, h⟩
  · rw [if_neg h]
    unfold checkedI128
    by_cases hshift : InI128 ((m * base : Nat) : Int)
    · rw [if_pos hshift, Option.bind_some]
      exact if_neg fun hsum => h hsum.2
    · rw [if_neg hshift, Option.bind_none]

theorem pushPlaces_eq (g : Nat) (places : List Nat) (m kept : Nat) :
    pushPlaces g (places.map Nat.cast) m kept =
      ((extend m (keptDigits m (places.map fun place => g / place % 10)) : Int),
        kept + (keptDigits m (places.map fun place => g / place % 10)).length) := by
  induction places generalizing m kept with
  | nil => simp [pushPlaces, keptDigits, extend_nil]
  | cons place places ih =>
    have hdigit : ((g : Int).tdiv place).tmod 10 = ((g / place % 10 : Nat) : Int) := rfl
    have hcomm : m * 10 + g / place % 10 = 10 * m + g / place % 10 := by omega
    rw [List.map_cons, List.map_cons]
    unfold pushPlaces keptDigits
    rw [hdigit, show (10 : Int) = ((10 : Nat) : Int) from rfl, pushGroup_natCast, hcomm]
    by_cases h : ((10 * m + g / place % 10 : Nat) : Int) ≤ i128Max
    · rw [if_pos h, if_pos h]
      dsimp only
      rw [ih, extend_cons, List.length_cons, Nat.add_assoc, Nat.add_comm 1]
    · rw [if_neg h, if_neg h]
      simp [extend_nil]

theorem bigEndian_two (x : Int) : ∃ a b, bigEndian 2 x = [a, b] := ⟨_, _, rfl⟩

theorem intOf_groupBytes (g : Fin 10000) : intOf (groupBytes g) = (g : Nat) := by
  have hg := g.isLt
  exact intOf_bigEndian (by omega) (by omega)

theorem ofDigits_groupDigits (g : Fin 10000) : ofDigits (groupDigits g) = g := by
  have hg := g.isLt
  simp only [groupDigits, ofDigits, List.map_cons, List.map_nil, List.foldl_cons, List.foldl_nil]
  omega

theorem groupDigits_length (g : Fin 10000) : (groupDigits g).length = 4 := rfl

theorem groupDigits_lt (g : Fin 10000) : ∀ d ∈ groupDigits g, d < 10 := by
  intro d hd
  obtain ⟨place, -, rfl⟩ := List.mem_map.mp hd
  exact Nat.mod_lt _ (by omega)

/-! ### Reading the groups -/

theorem extend_groupDigits (m : Nat) (g : Fin 10000) : extend m (groupDigits g) = m * 10000 + g := by
  unfold extend
  rw [ofDigits_groupDigits, groupDigits_length, show 10 ^ 4 = 10000 from rfl]

theorem pushPlaces_group (m : Nat) (g : Fin 10000) : pushPlaces (g : Nat) [1000, 100, 10, 1] m 0 =
    ((extend m (keptDigits m (groupDigits g)) : Int), (keptDigits m (groupDigits g)).length) := by
  have h := pushPlaces_eq g [1000, 100, 10, 1] m 0
  rwa [Nat.zero_add] at h

section Groups

variable {buf : Bytes} {weight : Int} {negative : Bool} {nativeScale : Int} {g : Fin 10000} {gs : List (Fin 10000)}
  {left i m : Nat}

theorem drop_next_group (hbuf : buf.drop (8 + i * 2) = (g :: gs).flatMap groupBytes) :
    buf.drop (8 + (i + 1) * 2) = gs.flatMap groupBytes := by
  obtain ⟨a, b, hgroup⟩ : ∃ a b, groupBytes g = [a, b] := bigEndian_two _
  rw [show 8 + (i + 1) * 2 = 8 + i * 2 + 2 by omega, ← List.drop_drop, hbuf, List.flatMap_cons, hgroup]
  rfl

theorem word_group (hbuf : buf.drop (8 + i * 2) = (g :: gs).flatMap groupBytes) :
    word buf (8 + i * 2) = .ok (groupBytes g) := by
  obtain ⟨a, b, hgroup⟩ : ∃ a b, groupBytes g = [a, b] := bigEndian_two _
  rw [List.flatMap_cons, hgroup] at hbuf
  rw [hgroup]
  exact word_of_drop hbuf

/-- A group that fits. -/
theorem parseGroups_fits (hbuf : buf.drop (8 + i * 2) = (g :: gs).flatMap groupBytes)
    (h : (extend m (groupDigits g) : Int) ≤ i128Max) :
    parseGroups buf weight negative nativeScale (left + 1) i m =
      parseGroups buf weight negative nativeScale left (i + 1) (extend m (groupDigits g)) := by
  rw [extend_groupDigits] at *
  conv_lhs => unfold parseGroups
  rw [word_group hbuf]
  simp only [bind, Except.bind]
  rw [intOf_groupBytes, show (10000 : Int) = ((10000 : Nat) : Int) from rfl, pushGroup_natCast, if_pos h]

/-- A group that does not. -/
theorem parseGroups_over (hbuf : buf.drop (8 + i * 2) = (g :: gs).flatMap groupBytes) (hi : i < 2 ^ 16)
    (hweight : -2 ^ 15 ≤ weight ∧ weight < 2 ^ 15) (hm : (m : Int) ≤ i128Max)
    (h : i128Max < (extend m (groupDigits g) : Int)) :
    parseGroups buf weight negative nativeScale (left + 1) i m =
      if 4 * (i : Int) + (keptDigits m (groupDigits g)).length < 4 * (weight + 1) then .ok .magnitudeOverflow
      else .ok (.value negative (extend m (keptDigits m (groupDigits g)))
        (4 * i + (keptDigits m (groupDigits g)).length - 4 * (weight + 1))) := by
  have hindex : asI32 (i : Int) = i := asI32_eq (by unfold InI32 i32Min i32Max; omega)
  have hkept : (keptDigits m (groupDigits g)).length < 4 := by
    have := (keptDigits_append_of_lt [] hm h).2
    rwa [groupDigits_length] at this
  rw [extend_groupDigits] at h
  unfold parseGroups
  rw [word_group hbuf]
  simp only [bind, Except.bind]
  rw [intOf_groupBytes, show (10000 : Int) = ((10000 : Nat) : Int) from rfl, pushGroup_natCast, if_neg (by omega),
    hindex, pushPlaces_group]
  dsimp only
  rw [asI32_eq (by unfold InI32 i32Min i32Max; omega)]
  by_cases hint : (i : Int) ≤ weight
  · rw [if_pos hint, if_pos (by omega)]
    rfl
  · have hscale : ((i : Int) - 1 - weight) * 4 + (keptDigits m (groupDigits g)).length =
        4 * i + (keptDigits m (groupDigits g)).length - 4 * (weight + 1) := by omega
    rw [if_neg hint, if_neg (by omega), hscale]
    rfl

/-- All the groups fit, and they are counted right or wrong. -/
theorem parseGroups_all (hbuf : buf.drop (8 + i * 2) = gs.flatMap groupBytes) (hleft : gs.length ≤ left)
    (h : (extend m (gs.flatMap groupDigits) : Int) ≤ i128Max) :
    parseGroups buf weight negative nativeScale left i m =
      if left = gs.length then .ok (.value negative (extend m (gs.flatMap groupDigits)) nativeScale)
      else .error .panic := by
  induction gs generalizing left i m with
  | nil =>
    rw [List.flatMap_nil, extend_nil]
    cases left with
    | zero => rfl
    | succ left =>
      have hend : buf.length ≤ 8 + i * 2 := List.drop_eq_nil_iff.mp hbuf
      unfold parseGroups
      rw [word_past hend]
      rfl
  | cons g gs ih =>
    rw [List.length_cons] at hleft
    obtain ⟨left, rfl⟩ : ∃ k, left = k + 1 := ⟨left - 1, by omega⟩
    rw [List.flatMap_cons, extend_append] at h ⊢
    have hgrow := le_extend (extend m (groupDigits g)) (gs.flatMap groupDigits)
    rw [parseGroups_fits hbuf (by omega), ih (drop_next_group hbuf) (by omega) h, List.length_cons]
    simp only [Nat.add_right_cancel_iff]

/-- Not all of them fit, and the first digit that does not is of the integer part or of the fraction. -/
theorem parseGroups_some (hbuf : buf.drop (8 + i * 2) = gs.flatMap groupBytes) (hleft : gs.length ≤ left)
    (hi : i + gs.length < 2 ^ 16) (hweight : -2 ^ 15 ≤ weight ∧ weight < 2 ^ 15) (hm : (m : Int) ≤ i128Max)
    (h : i128Max < (extend m (gs.flatMap groupDigits) : Int)) :
    parseGroups buf weight negative nativeScale left i m =
      if 4 * (i : Int) + (keptDigits m (gs.flatMap groupDigits)).length < 4 * (weight + 1) then .ok .magnitudeOverflow
      else .ok (.value negative (extend m (keptDigits m (gs.flatMap groupDigits)))
        (4 * i + (keptDigits m (gs.flatMap groupDigits)).length - 4 * (weight + 1))) := by
  induction gs generalizing left i m with
  | nil =>
    rw [List.flatMap_nil, extend_nil] at h
    omega
  | cons g gs ih =>
    rw [List.length_cons] at hleft hi
    obtain ⟨left, rfl⟩ : ∃ k, left = k + 1 := ⟨left - 1, by omega⟩
    rw [List.flatMap_cons] at h ⊢
    by_cases hfit : (extend m (groupDigits g) : Int) ≤ i128Max
    · have hkept : keptDigits m (groupDigits g ++ gs.flatMap groupDigits) =
          groupDigits g ++ keptDigits (extend m (groupDigits g)) (gs.flatMap groupDigits) :=
        keptDigits_append_of_le _ hfit
      rw [extend_append] at h
      rw [parseGroups_fits hbuf hfit, ih (drop_next_group hbuf) (by omega) (by omega) hfit h, hkept, extend_append,
        List.length_append, groupDigits_length]
      push_cast
      rw [show 4 * ((i : Int) + 1) + (keptDigits (extend m (groupDigits g)) (gs.flatMap groupDigits)).length =
        4 * i + (4 + (keptDigits (extend m (groupDigits g)) (gs.flatMap groupDigits)).length) by omega]
    · have hover : i128Max < (extend m (groupDigits g) : Int) := by omega
      rw [parseGroups_over hbuf (by omega) hweight hm hover, (keptDigits_append_of_lt _ hm hover).1]

end Groups

/-! ### Reading the header -/

@[simp] theorem wireHeader_length (count weight sign displayScale : Int) :
    (wireHeader count weight sign displayScale).length = 8 := by simp [wireHeader]

theorem numericHeader_eq (count weight displayScale : Int) {sign : Int} (rest : Bytes)
    (hsign : 0 ≤ sign ∧ sign < 2 ^ 16) : numericHeader (wireHeader count weight sign displayScale ++ rest) =
      .ok (count.bmod (2 ^ 16), weight.bmod (2 ^ 16), sign.toNat) := by
  have hfirst : word (wireHeader count weight sign displayScale ++ rest) 0 = .ok (bigEndian 2 count) := word_of_drop rfl
  have hsecond : word (wireHeader count weight sign displayScale ++ rest) 2 = .ok (bigEndian 2 weight) := word_of_drop rfl
  have hthird : word (wireHeader count weight sign displayScale ++ rest) 4 = .ok (bigEndian 2 sign) := word_of_drop rfl
  have hsigned : ∀ x : Int, intOf (bigEndian 2 x) = x.bmod (2 ^ 16) := intOf_bigEndian_bmod 2
  have hunsigned : natOf (bigEndian 2 sign) = sign.toNat := by
    have := natOf_bigEndian 2 sign
    omega
  unfold numericHeader
  rw [if_neg (by rw [List.length_append, wireHeader_length]; omega), hfirst, hsecond, hthird]
  simp only [bind, Except.bind, pure, Except.pure]
  rw [hsigned, hsigned, hunsigned]

namespace WireNumeric

variable (x : WireNumeric)

/-- The digits of the mantissa. -/
def kept : List Nat := keptDigits 0 x.digits

theorem digits_lt : ∀ d ∈ x.digits, d < 10 := by
  intro d hd
  obtain ⟨g, -, hg⟩ := List.mem_flatMap.mp hd
  exact groupDigits_lt g d hg

theorem flatMap_groupDigits_length (gs : List (Fin 10000)) : (gs.flatMap groupDigits).length = 4 * gs.length := by
  induction gs with
  | nil => rfl
  | cons g gs ih =>
    rw [List.flatMap_cons, List.length_append, ih, groupDigits_length, List.length_cons]
    omega

/-- The groups as one numeral. -/
theorem groupsValue_eq (gs : List (Fin 10000)) (weight : Int) : groupsValue gs weight =
    (ofDigits (gs.flatMap groupDigits) : ℚ) * 10 ^ (-(4 * (gs.length : ℤ) - 4 * (weight + 1))) := by
  induction gs generalizing weight with
  | nil => simp [groupsValue, ofDigits]
  | cons g gs ih =>
    have hten : (10000 : ℚ) ^ weight = 10 ^ (4 * gs.length) * 10 ^ (4 * weight - 4 * gs.length) := by
      rw [← zpow_natCast, ← zpow_add₀ (by norm_num), show (10000 : ℚ) = 10 ^ (4 : ℤ) by norm_num, ← zpow_mul]
      congr 1
      push_cast
      ring
    have hrest : -(4 * (gs.length : ℤ) - 4 * (weight - 1 + 1)) = 4 * weight - 4 * gs.length := by ring
    have hall : -(4 * ((g :: gs).length : ℤ) - 4 * (weight + 1)) = 4 * weight - 4 * gs.length := by
      rw [List.length_cons]
      push_cast
      ring
    unfold groupsValue
    rw [ih, hrest, hall, hten, List.flatMap_cons, ofDigits_append, ofDigits_groupDigits, flatMap_groupDigits_length]
    push_cast
    ring

/-- The value, from the digits kept and those dropped. -/
theorem magnitude_eq {dropped : List Nat} (h : x.digits = x.kept ++ dropped) : x.magnitude =
    ((ofDigits x.kept * 10 ^ dropped.length + ofDigits dropped : ℕ) : ℚ) *
      10 ^ (-((x.kept.length : ℤ) - 4 * (x.weight + 1) + dropped.length)) := by
  have hlength : 4 * (x.groups.length : ℤ) = x.kept.length + dropped.length := by
    have hdigits := flatMap_groupDigits_length x.groups
    have := congrArg List.length h
    rw [List.length_append] at this
    unfold digits at this
    omega
  have hvalue : ofDigits (x.groups.flatMap groupDigits) =
      ofDigits x.kept * 10 ^ dropped.length + ofDigits dropped := by
    rw [← ofDigits_append, ← h]
    rfl
  unfold magnitude
  rw [groupsValue_eq, hvalue, hlength]
  congr 2
  ring

theorem toDecimal_value (t : DecimalTarget) :
    toDecimal t.precision t.scale x.value = applySign x.negative (toDecimal t.precision t.scale x.magnitude) := by
  unfold value applySign
  split_ifs
  · exact toDecimal_neg _ _ _
  · rfl

/-- The integer groups do not fit. -/
theorem upTo_zero_iff {dropped : List Nat} (h : x.digits = x.kept ++ dropped)
    (hnext : ∀ d rest, dropped = d :: rest → i128Max < ((10 * ofDigits x.kept + d : Nat) : Int))
    (hfit : (ofDigits x.kept : Int) ≤ i128Max) :
    i128Max < (ofDigits (x.digits.take (x.upTo 0)) : Int) ↔
      dropped ≠ [] ∧ (x.kept.length : Int) < 4 * (x.weight + 1) := by
  have htake : ∀ n, ofDigits (x.kept.take n) ≤ ofDigits x.kept := by
    intro n
    conv_rhs => rw [← List.take_append_drop n x.kept]
    rw [ofDigits_append]
    exact le_extend _ _
  rw [h, List.take_append]
  unfold upTo
  by_cases hlong : (x.kept.length : Int) < 4 * (x.weight + 1)
  · rw [List.take_of_length_le (by omega)]
    cases dropped with
    | nil =>
      rw [List.take_nil, List.append_nil]
      exact iff_of_false (by omega) fun hne => hne.1 rfl
    | cons d rest =>
      obtain ⟨k, hk⟩ : ∃ k, (4 * (x.weight + 1) + 0).toNat - x.kept.length = k + 1 :=
        ⟨(4 * (x.weight + 1) + 0).toNat - x.kept.length - 1, by omega⟩
      have hgrow := le_extend (10 * ofDigits x.kept + d) (rest.take k)
      have hwide := hnext d rest rfl
      rw [hk, List.take_succ_cons, ofDigits_append]
      change i128Max < (extend (ofDigits x.kept) (d :: rest.take k) : Int) ↔ _
      rw [extend_cons]
      exact iff_of_true (by omega) ⟨List.cons_ne_nil _ _, hlong⟩
  · rw [Nat.sub_eq_zero_of_le (by omega), List.take_zero, List.append_nil]
    have := htake (4 * (x.weight + 1) + 0).toNat
    exact iff_of_false (by omega) fun h => hlong h.2

/-- What is read of the groups. -/
def wire : NumericWire :=
  if x.IntegerOverflow then .magnitudeOverflow
  else .value x.negative (ofDigits x.kept) (x.kept.length - 4 * (x.weight + 1))

theorem kept_fits : (ofDigits x.kept : Int) ≤ i128Max := by
  have h := keptDigits_fits (n := 0) x.digits (by decide)
  rwa [extend_zero] at h

theorem exists_dropped : ∃ dropped, x.digits = x.kept ++ dropped ∧ (∀ d ∈ dropped, d < 10) ∧
    ∀ d rest, dropped = d :: rest → i128Max < ((10 * ofDigits x.kept + d : Nat) : Int) := by
  obtain ⟨dropped, hsplit, hnext⟩ := keptDigits_append 0 x.digits
  rw [extend_zero] at hnext
  refine ⟨dropped, hsplit, fun d hd => x.digits_lt d ?_, hnext⟩
  rw [hsplit]
  exact List.mem_append_right _ hd

/-- Every digit is kept when they all fit. -/
theorem kept_eq_digits (h : (ofDigits x.digits : Int) ≤ i128Max) : x.kept = x.digits := by
  have hkept := keptDigits_append_of_le (n := 0) [] (by rwa [extend_zero])
  rw [List.append_nil] at hkept
  rw [kept, hkept]
  exact List.append_nil _

/-- The groups read from the first, as many of them as there are or more. -/
theorem parseGroups_bytes {header : Bytes} (hheader : header.length = 8) {left : Nat} (hleft : x.groups.length ≤ left)
    {nativeScale : Int} (hscale : left = x.groups.length → nativeScale = 4 * x.groups.length - 4 * (x.weight + 1)) :
    parseGroups (header ++ x.groups.flatMap groupBytes) x.weight x.negative nativeScale left 0 0 =
      if left = x.groups.length ∨ i128Max < (ofDigits x.digits : Int) then .ok x.wire else .error .panic := by
  have hbuf : (header ++ x.groups.flatMap groupBytes).drop (8 + 0 * 2) = x.groups.flatMap groupBytes := by
    rw [show 8 + 0 * 2 = header.length by omega, List.drop_left]
  have hcount := x.count_lt
  obtain ⟨dropped, hsplit, -, hnext⟩ := x.exists_dropped
  have hint : x.IntegerOverflow ↔ _ := x.upTo_zero_iff hsplit hnext x.kept_fits
  by_cases h : (ofDigits x.digits : Int) ≤ i128Max
  · have hall := @parseGroups_all _ x.weight x.negative nativeScale x.groups left 0 0 hbuf hleft (by rwa [extend_zero])
    have hkept := x.kept_eq_digits h
    have hlength : x.digits.length = 4 * x.groups.length := flatMap_groupDigits_length x.groups
    have hnone : dropped = [] := by
      rw [hkept] at hsplit
      exact List.self_eq_append_right.mp hsplit
    have hwire : x.wire = .value x.negative (ofDigits x.digits) (4 * x.groups.length - 4 * (x.weight + 1)) := by
      unfold wire
      rw [if_neg (by rw [hint]; exact fun hover => hover.1 hnone), hkept, hlength]
      push_cast
      rfl
    rw [extend_zero, Nat.cast_zero] at hall
    rw [hall, hwire]
    simp only [not_lt.mpr h, or_false]
    by_cases hcounted : left = x.groups.length
    · rw [if_pos hcounted, if_pos hcounted, hscale hcounted]
      rfl
    · rw [if_neg hcounted, if_neg hcounted]
  · have hover : i128Max < (ofDigits x.digits : Int) := by omega
    have hsome := @parseGroups_some _ x.weight x.negative nativeScale x.groups left 0 0 hbuf hleft (by omega)
      x.weight_mem (by decide) (by rwa [extend_zero])
    have hsome' : dropped ≠ [] := by
      rintro rfl
      rw [List.append_nil] at hsplit
      rw [hsplit] at hover
      exact absurd x.kept_fits (by omega)
    rw [extend_zero, Nat.cast_zero, Int.mul_zero, Int.zero_add] at hsome
    have hread : (if left = x.groups.length ∨ i128Max < (ofDigits x.digits : Int) then Except.ok x.wire
        else .error (.panic : Stop EtlError)) = .ok x.wire := if_pos (.inr hover)
    rw [hread, hsome]
    by_cases hlong : (x.kept.length : Int) < 4 * (x.weight + 1)
    · have hwire : x.wire = .magnitudeOverflow := if_pos (hint.mpr ⟨hsome', hlong⟩)
      rw [hwire]
      exact if_pos hlong
    · have hwire : x.wire = .value x.negative (ofDigits x.kept) (x.kept.length - 4 * (x.weight + 1)) :=
        if_neg fun h => hlong (hint.mp h).2
      rw [hwire]
      exact if_neg hlong

theorem bytes_length : x.bytes.length = 8 + x.groups.length * 2 := by
  have hgroups : ∀ gs : List (Fin 10000), (gs.flatMap groupBytes).length = gs.length * 2 := by
    intro gs
    induction gs with
    | nil => rfl
    | cons g gs ih =>
      rw [List.flatMap_cons, List.length_append, ih, List.length_cons]
      unfold groupBytes
      rw [bigEndian_length]
      omega
  unfold bytes
  rw [List.length_append, wireHeader_length, hgroups]

/-- The count is that of the groups, as a signed number. -/
theorem parseNumericWire_eq (s : Sizes) : parseNumericWire s x.bytes =
    (numericExtent s ((x.groups.length : Int).bmod (2 ^ 16)) x.bytes).bind fun extent =>
      parseGroups x.bytes x.weight x.negative (asI32 ((asI32 extent.1 - 1 - x.weight) * 4)) extent.1 0 0 := by
  have hheader : numericHeader x.bytes =
      .ok ((x.groups.length : Int).bmod (2 ^ 16), x.weight, (if x.negative then 0x4000 else 0 : Int).toNat) := by
    have hweight : x.weight.bmod (2 ^ 16) = x.weight := by
      have hmem := x.weight_mem
      exact Int.bmod_eq_of_le (by omega) (by omega)
    have h := numericHeader_eq x.groups.length x.weight x.displayScale (x.groups.flatMap groupBytes)
      (show 0 ≤ (if x.negative then 0x4000 else 0 : Int) ∧ _ by split_ifs <;> omega)
    rwa [hweight] at h
  rw [parseNumericWire_of_header hheader (by cases x.negative <;> simp)]
  cases x.negative <;> simp [bytes]

/-- A count from `2 ^ 15` on is negative. -/
theorem negative_count {k : Nat} (hk : 0 < k ∧ k ≤ 2 ^ 15) (h : x.groups.length + k = 2 ^ 16) :
    (x.groups.length : Int).bmod (2 ^ 16) = -k := by
  rw [show (x.groups.length : Int) = -k + ((2 ^ 16 : ℕ) : Int) by push_cast; omega, Int.add_bmod_right]
  exact Int.bmod_eq_of_le (by omega) (by omega)

theorem negative_size {k : Nat} (hk : 0 < k ∧ k ≤ 2 ^ 15) :
    (Sizes.wrapping.ofInt (-k : Int) : Outcome EtlError Nat) = .ok (2 ^ 64 - k) := by
  have hwrap : (-(k : Int) % 2 ^ 64).toNat = 2 ^ 64 - k := by omega
  rw [← hwrap]
  rfl

/-- The wire value is read from its groups, unless their count is taken for a negative number. -/
theorem parseNumericWire_bytes (h : ¬x.Uncounted) : parseNumericWire .wrapping x.bytes = .ok x.wire := by
  have hcount := x.count_lt
  have hweight := x.weight_mem
  have hlength := x.bytes_length
  unfold Uncounted at h
  rw [x.parseNumericWire_eq]
  unfold numericExtent
  by_cases hfew : x.groups.length < 2 ^ 15
  · have hsigned : (x.groups.length : Int).bmod (2 ^ 16) = x.groups.length := Int.bmod_eq_of_le (by omega) (by omega)
    have hindex : asI32 (x.groups.length : Int) = x.groups.length := asI32_eq (by unfold InI32 i32Min i32Max; omega)
    rw [hsigned, Sizes.ofInt_eq _ (by omega) (by omega), Int.toNat_natCast]
    simp only [bind, Except.bind]
    rw [Sizes.fit_eq _ (by omega)]
    dsimp only
    rw [if_neg (by omega)]
    simp only [pure, Except.pure]
    unfold bytes
    rw [hindex, asI32_eq (by unfold InI32 i32Min i32Max; omega),
      x.parseGroups_bytes (wireHeader_length _ _ _ _) le_rfl (fun _ => by omega), if_pos (.inl rfl)]
  · obtain ⟨k, hk⟩ : ∃ k, x.groups.length + k = 2 ^ 16 := ⟨2 ^ 16 - x.groups.length, by omega⟩
    rw [x.negative_count (by omega) hk, negative_size (by omega)]
    simp only [bind, Except.bind, Sizes.fit]
    rw [if_neg (by omega)]
    simp only [pure, Except.pure]
    unfold bytes
    rw [x.parseGroups_bytes (wireHeader_length _ _ _ _) (by omega) (fun h => by omega), if_pos (.inr (by omega))]

/-- Where it is, there is no value. -/
theorem parseNumericWire_uncounted (h : x.Uncounted) : ∃ stop, parseNumericWire .wrapping x.bytes = .error stop := by
  have hcount := x.count_lt
  have hlength := x.bytes_length
  obtain ⟨hmany, hend⟩ := h
  obtain ⟨k, hk⟩ : ∃ k, x.groups.length + k = 2 ^ 16 := ⟨2 ^ 16 - x.groups.length, by omega⟩
  rw [x.parseNumericWire_eq]
  unfold numericExtent
  rw [x.negative_count (by omega) hk, negative_size (by omega)]
  simp only [bind, Except.bind, Sizes.fit]
  by_cases hshort : k ≤ 4
  · have hwrong : ¬(2 ^ 64 - k = x.groups.length ∨ i128Max < (ofDigits x.digits : Int)) := by omega
    rw [if_neg (by omega)]
    simp only [pure, Except.pure]
    unfold bytes
    rw [x.parseGroups_bytes (wireHeader_length _ _ _ _) (by omega) (fun h => by omega), if_neg hwrong]
    exact ⟨_, rfl⟩
  · rw [if_pos (by omega)]
    exact ⟨_, rfl⟩

/-- The digits up to the target's last place are those kept. -/
theorem cutAtTarget_iff (t : DecimalTarget) (hint : ¬x.IntegerOverflow) {dropped : List Nat}
    (hsplit : x.digits = x.kept ++ dropped)
    (hnext : ∀ d rest, dropped = d :: rest → i128Max < ((10 * ofDigits x.kept + d : Nat) : Int))
    (hdigits : ∀ d ∈ dropped, d < 10) :
    x.CutAtTarget t ↔ (x.kept.length : Int) - 4 * (x.weight + 1) = t.scale ∧ ofDigits x.kept < 10 ^ t.precision ∧
      ∃ d rest, dropped = d :: rest ∧ 5 ≤ d := by
  have hcut := @cut_iff 0 (x.upTo t.scale) t.precision x.digits dropped t.precision_le hsplit (by rwa [extend_zero])
  have hover : x.IntegerOverflow ↔ _ := x.upTo_zero_iff hsplit hnext x.kept_fits
  rw [hover] at hint
  simp only [extend_zero] at hcut
  unfold CutAtTarget
  rw [hcut]
  unfold upTo
  change _ ∧ x.kept.length = _ ∧ _ ↔ _
  constructor
  · rintro ⟨hscale, hlength, hshort, d, rest, rfl, hd⟩
    refine ⟨?_, hshort, d, rest, rfl, hd⟩
    -- a mantissa without digits drops none
    have hsome : x.kept ≠ [] := by
      intro hnil
      have hwide := hnext d rest rfl
      have hlt := hdigits d List.mem_cons_self
      rw [hnil] at hwide
      simp only [ofDigits, List.foldl_nil] at hwide
      unfold i128Max at hwide
      omega
    have hpos := List.length_pos_of_ne_nil hsome
    clear hcut
    omega
  · rintro ⟨hscale, hshort, d, rest, rfl, hd⟩
    have hlong : ¬(x.kept.length : Int) < 4 * (x.weight + 1) := fun h => hint ⟨List.cons_ne_nil _ _, h⟩
    exact ⟨by omega, by omega, hshort, d, rest, rfl, hd⟩

theorem not_cutAtTarget (t : DecimalTarget) (hint : x.IntegerOverflow) : ¬x.CutAtTarget t := by
  obtain ⟨dropped, hsplit, -, hnext⟩ := x.exists_dropped
  have hlong := ((x.upTo_zero_iff hsplit hnext x.kept_fits).mp hint).2
  rintro ⟨hscale, h⟩
  have hlength := (@cut_iff 0 (x.upTo t.scale) t.precision x.digits dropped t.precision_le hsplit (by rwa [extend_zero])).mp
    (by simpa only [extend_zero] using h)
  have hkept : x.kept.length = x.upTo t.scale := hlength.1
  unfold upTo at hkept
  omega

/-- Where the integer groups fit, the cell of the mantissa is exact except at a cut. -/
theorem decimalCell_kept_iff (t : DecimalTarget) (hint : ¬x.IntegerOverflow) :
    decimalCell t.precision t.scale false (ofDigits x.kept) (x.kept.length - 4 * (x.weight + 1)) =
      toDecimal t.precision t.scale x.magnitude ↔ ¬x.CutAtTarget t := by
  obtain ⟨dropped, hsplit, hdropped, hnext⟩ := x.exists_dropped
  have hcut := x.cutAtTarget_iff t hint hsplit hnext hdropped
  by_cases hm : ofDigits x.kept = 0
  · -- nothing is dropped behind a zero
    have hnone : dropped = [] := by
      cases dropped with
      | nil => rfl
      | cons d rest =>
        have hd := hdropped d List.mem_cons_self
        have hover := hnext d rest rfl
        rw [hm] at hover
        unfold i128Max at hover
        omega
    have hcell : decimalCell t.precision t.scale false (ofDigits x.kept) (x.kept.length - 4 * (x.weight + 1)) = some 0 := by
      rw [hm]
      simp [decimalCell, rescaleMantissa, isValidDecimalPrecision, t.precision_le]
    have hzero : toDecimal t.precision t.scale x.magnitude = some 0 := by
      rw [x.magnitude_eq hsplit, hm, hnone, toDecimal_shifted]
      simp [ofDigits, shifted_zero]
    refine iff_of_true (hcell.trans hzero.symm) fun h => ?_
    obtain ⟨-, -, d, rest, hd, -⟩ := hcut.mp h
    rw [hnone] at hd
    cases hd
  · have hcount := x.count_lt
    have hweight := x.weight_mem
    have hlength : x.kept.length ≤ 4 * x.groups.length := by
      have hdigits : x.digits.length = 4 * x.groups.length := flatMap_groupDigits_length x.groups
      rw [hsplit, List.length_append] at hdigits
      omega
    rw [x.magnitude_eq hsplit, decimalCell_cut_iff t (Nat.pos_of_ne_zero hm) x.kept_fits (by omega) hdropped hnext, hcut]

/-- The mantissa without its sign, or NULL. -/
theorem decimalWireCell_wire (t : DecimalTarget) : decimalWireCell t.precision t.scale x.wire =
    decimalOrNull (applySign x.negative (if x.IntegerOverflow then none
      else decimalCell t.precision t.scale false (ofDigits x.kept) (x.kept.length - 4 * (x.weight + 1)))) := by
  unfold wire
  split_ifs
  · cases x.negative <;> rfl
  · exact congrArg decimalOrNull (decimalCell_sign x.kept_fits _ _ _ _)

end WireNumeric

theorem decimalOrNull_inj {a b : Option Int} : decimalOrNull a = decimalOrNull b ↔ a = b :=
  ⟨fun h => congrArg Prod.fst h, congrArg decimalOrNull⟩

theorem PgNumeric.special_is_null (kind : Special) (weight displayScale : Int) (precision : Nat) (scale : Int) :
    decimalField .wrapping precision scale (PgNumeric.special kind weight displayScale).bytes =
      .ok (decimalOrNull none) := by
  have h := numericHeader_eq 0 weight displayScale [] (show 0 ≤ kind.sign ∧ _ by cases kind <;> decide)
  rw [List.append_nil] at h
  have hsign : kind.sign.toNat = 0xC000 ∨ kind.sign.toNat = 0xD000 ∨ kind.sign.toNat = 0xF000 := by
    cases kind <;> decide
  generalize kind.sign.toNat = sign at *
  unfold decimalField parseNumericWire PgNumeric.bytes
  dsimp only
  rw [h]
  simp only [bind, Except.bind]
  rw [if_pos hsign]
  rfl

/-- A wire value in a decimal column is its value, rounded half away from zero at the column's scale, or NULL when that
has too many digits or there is none, exactly when it is not one that is misread. -/
theorem numeric_exact_iff (v : PgNumeric) (t : DecimalTarget) :
    decimalField .wrapping t.precision t.scale v.bytes = .ok (decimalOrNull (v.exact t)) ↔ ¬v.Misread t := by
  cases v with
  | special kind weight displayScale =>
    exact iff_of_true (PgNumeric.special_is_null kind weight displayScale _ _) not_false
  | finite x =>
    change decimalField .wrapping t.precision t.scale x.bytes = .ok (decimalOrNull (toDecimal t.precision t.scale x.value))
      ↔ ¬x.Misread t
    unfold decimalField WireNumeric.Misread
    by_cases hcounted : x.Uncounted
    · obtain ⟨stop, hstop⟩ := x.parseNumericWire_uncounted hcounted
      rw [hstop]
      exact iff_of_false (fun h => by cases h) fun h => h (.inr (.inr hcounted))
    · rw [x.parseNumericWire_bytes hcounted]
      change Except.ok (decimalWireCell t.precision t.scale x.wire) = _ ↔ _
      rw [x.decimalWireCell_wire, x.toDecimal_value, Except.ok.injEq, decimalOrNull_inj, applySign_inj]
      by_cases hint : x.IntegerOverflow
      · have hvalue : x.WideInteger t ↔ (toDecimal t.precision t.scale x.magnitude).isSome = true := by
          unfold WireNumeric.WideInteger
          rw [x.toDecimal_value, and_iff_right hint]
          unfold applySign
          split_ifs <;> simp
        rw [if_pos hint, or_iff_right (x.not_cutAtTarget t hint), or_iff_left hcounted, hvalue]
        cases toDecimal t.precision t.scale x.magnitude <;> simp
      · have hwide : ¬x.WideInteger t := fun h => hint h.1
        rw [if_neg hint, x.decimalCell_kept_iff t hint]
        simp only [hwide, hcounted, or_false]

/-- `9.00...015`, with 38 digits after the point. -/
def nineAndFifteenGroups : WireNumeric where
  negative := false
  weight := 0
  displayScale := 38
  groups := 9 :: List.replicate 9 0 ++ [1500]
  weight_mem := by decide
  count_lt := by decide

/-- It ends in 01 and not 02 in a `Decimal(38, 37)`: the mantissa has room for 38 of its digits. -/
theorem fifteen_groups_cut_to_one :
    decimalField .wrapping 38 37 nineAndFifteenGroups.bytes = .ok (decimalOrNull (some (9 * 10 ^ 37 + 1))) ∧
      toDecimal 38 37 nineAndFifteenGroups.value = some (9 * 10 ^ 37 + 2) := by
  constructor
  · decide +kernel
  · decide +kernel

end Quickhouse
