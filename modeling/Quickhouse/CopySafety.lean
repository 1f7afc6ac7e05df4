import Quickhouse.CopyChunks

/-!
# What stops the decoder

The decoder ends with batches or an error of its own, and takes no number for a size that is not one, unless it comes
to a negative length or count (`FatalHere`), that of the header's extension, of a field, or of the groups of a NUMERIC,
or to a text or binary value that ends past the last offset of its batch's array.
-/

namespace Quickhouse

open Slices Wire Chunks Results

/-! ### The program's sizes and the checked ones -/

section

variable {F : Type} (rt : PgRuntime F) (s : Sizes)

theorem agrees_numericExtent (ndigits : Int) (buf : Bytes) :
    Agrees (numericExtent .checked ndigits buf) (numericExtent s ndigits buf) :=
  (s.agrees_ofInt ndigits).bind fun n => (s.agrees_fit (8 + n * 2)).bind fun _ => .rfl

theorem agrees_parseNumericWire (buf : Bytes) : Agrees (parseNumericWire .checked buf) (parseNumericWire s buf) := by
  refine Agrees.rfl.bind fun header => ?_
  dsimp only
  split_ifs
  · exact .rfl
  · exact (agrees_numericExtent s _ buf).bind fun _ => .rfl

theorem agrees_decodeNumeric (floats : Floats F) (buf : Bytes) :
    Agrees (decodeNumeric floats .checked buf) (decodeNumeric floats s buf) := by
  refine Agrees.rfl.bind fun header => ?_
  dsimp only
  split_ifs
  iterate 3 exact .rfl
  all_goals exact (agrees_numericExtent s _ buf).bind fun _ => .rfl

theorem agrees_appendValue (oid : Nat) (buf : Bytes) (kind : ColBuilder) :
    Agrees (kind.appendValue rt .checked oid buf) (kind.appendValue rt s oid buf) := by
  cases kind with
  | f64 =>
    unfold ColBuilder.appendValue
    dsimp only
    split_ifs
    · exact (agrees_decodeNumeric s rt.toFloats buf).bind fun _ => .rfl
    · exact .rfl
  | decimal128 d => exact ((agrees_parseNumericWire s buf).bind fun _ => .rfl).bind fun _ => .rfl
  | _ => exact .rfl

theorem agrees_inContext {α : Type} (place : String) {x y : Outcome EtlError α} (h : Agrees x y) :
    Agrees (inContext place x) (inContext place y) := by
  rcases h with rfl | rfl
  · exact .inl rfl
  · exact .rfl

theorem agrees_appendField (c : CopyState F) (i : Nat) (field : Option Bytes) :
    Agrees (appendField rt .checked c i field) (appendField rt s c i field) := by
  refine Agrees.rfl.bind fun builder => ?_
  cases field with
  | none => exact .rfl
  | some bytes =>
    refine Agrees.rfl.bind fun oid => Agrees.rfl.bind fun named => ?_
    exact (agrees_inContext _ (agrees_appendValue rt s oid bytes builder.kind)).bind fun _ => .rfl

theorem agrees_appendFields (buf : Bytes) (spans : List (Option (Nat × Nat))) (i : Nat) (c : CopyState F) :
    Agrees (appendFields rt .checked buf spans i c) (appendFields rt s buf spans i c) := by
  induction spans generalizing i c with
  | nil => exact .rfl
  | cons span spans ih =>
    cases span with
    | none => exact (agrees_appendField rt s c i none).bind fun _ => ih _ _
    | some span =>
      obtain ⟨start, finish⟩ := span
      exact Agrees.rfl.bind fun bytes => (agrees_appendField rt s c i (some bytes)).bind fun _ => ih _ _

theorem agrees_fieldSpans (buf : Bytes) (left pos : Nat) :
    Agrees (fieldSpans .checked buf left pos) (fieldSpans s buf left pos) := by
  induction left generalizing pos with
  | zero => exact .rfl
  | succ left ih =>
    refine (s.agrees_fit _).bind fun start => ?_
    split_ifs
    · exact .rfl
    refine Agrees.rfl.bind fun len => Agrees.rfl.bind fun len => ?_
    split_ifs
    · exact (ih _).bind fun _ => .rfl
    refine (s.agrees_ofInt _).bind fun len => (s.agrees_fit _).bind fun next => ?_
    split_ifs
    · exact .rfl
    · exact (ih _).bind fun _ => .rfl

theorem agrees_parseHeader (buf : Bytes) : Agrees (parseHeader .checked buf) (parseHeader s buf) := by
  unfold parseHeader
  dsimp only
  split_ifs
  · exact .rfl
  refine Agrees.rfl.bind fun signature => ?_
  split_ifs
  · exact .rfl
  refine Agrees.rfl.bind fun extLen => Agrees.rfl.bind fun extLen => ?_
  exact (s.agrees_ofInt _).bind fun extLen => (s.agrees_fit _).bind fun _ => .rfl

theorem agrees_parseTuple (d : CopyDecoder F) (start : Nat) :
    Agrees (parseTuple rt .checked d start) (parseTuple rt s d start) := by
  refine (s.agrees_fit _).bind fun pos => ?_
  split_ifs
  · exact .rfl
  refine Agrees.rfl.bind fun fieldCount => ?_
  split_ifs
  · exact .rfl
  · exact .rfl
  refine (agrees_fieldSpans s _ _ _).bind fun spans => ?_
  cases spans with
  | needMore => exact .rfl
  | all spans finish => exact (agrees_appendFields rt s _ _ _ _).bind fun c => (s.agrees_ofInt _).bind fun _ => .rfl

theorem agrees_countRow (c : CopyState F) (n : Nat) : Agrees (countRow .checked c n) (countRow s c n) :=
  (s.agrees_fit _).bind fun _ => .rfl

theorem agrees_decodeTuples (fuel cursor : Nat) (out : List (Batch (PgValue F))) (d : CopyDecoder F) :
    Agrees (decodeTuples rt .checked fuel cursor out d) (decodeTuples rt s fuel cursor out d) := by
  induction fuel generalizing cursor out d with
  | zero => exact .rfl
  | succ fuel ih =>
    refine (agrees_parseTuple rt s d cursor).bind fun r => ?_
    obtain ⟨parsed, d⟩ := r
    cases parsed with
    | tuple n => exact (s.agrees_fit _).bind fun cursor => (agrees_countRow s _ _).bind fun _ => ih _ _ _
    | _ => exact .rfl

theorem agrees_feed (d : CopyDecoder F) (chunk : Bytes) : Agrees (d.feed rt .checked chunk) (d.feed rt s chunk) := by
  unfold CopyDecoder.feed
  dsimp only
  split_ifs
  · exact agrees_decodeTuples rt s _ _ _ _
  · refine (agrees_parseHeader s _).bind fun header => ?_
    cases header with
    | none => exact .rfl
    | some n => exact agrees_decodeTuples rt s _ _ _ _

theorem agrees_feedAll (chunks : List Bytes) (d : CopyDecoder F) :
    Agrees (d.feedAll rt .checked chunks) (d.feedAll rt s chunks) := by
  induction chunks generalizing d with
  | nil => exact .rfl
  | cons chunk chunks ih => exact (agrees_feed rt s d chunk).bind fun _ => (ih _).bind fun _ => .rfl

theorem agrees_run (columns : List CopyColumn) (batchRows batchBytes : Nat) (chunks : List Bytes) :
    Agrees (CopyDecoder.run rt .checked columns batchRows batchBytes chunks)
      (CopyDecoder.run rt s columns batchRows batchBytes chunks) :=
  Agrees.rfl.bind fun d => (agrees_feedAll rt s chunks d).bind fun _ => .rfl

end

/-! ### A value -/

/-- The count of the groups of a NUMERIC is negative, and needed. -/
def NegativeCount (buf : Bytes) : Prop :=
  8 ≤ buf.length ∧ intOf (buf.take 2) < 0 ∧ natOf ((buf.drop 4).take 2) ∉ [0xC000, 0xD000, 0xF000]

theorem numericHeader_of_length {buf : Bytes} (h : 8 ≤ buf.length) : numericHeader buf =
    .ok (intOf (buf.take 2), intOf ((buf.drop 2).take 2), natOf ((buf.drop 4).take 2)) := by
  unfold numericHeader
  rw [if_neg (by omega), @word_front buf 0 (by omega), word_front (by omega), word_front (by omega)]
  rfl

theorem ends_numericHeader (buf : Bytes) : Ends (numericHeader buf) := by
  by_cases h : buf.length < 8
  · unfold numericHeader
    rw [if_pos h]
    exact ends_err _
  · rw [numericHeader_of_length (by omega)]
    exact ends_ok _

theorem numericHeader_eq_ok {buf : Bytes} {header : Int × Int × Nat} (h : numericHeader buf = .ok header) :
    8 ≤ buf.length ∧ header = (intOf (buf.take 2), intOf ((buf.drop 2).take 2), natOf ((buf.drop 4).take 2)) := by
  by_cases hshort : buf.length < 8
  · unfold numericHeader at h
    rw [if_pos hshort] at h
    cases h
  · rw [numericHeader_of_length (by omega)] at h
    cases h
    exact ⟨by omega, rfl⟩

theorem parseGroups_ok {buf : Bytes} {weight : Int} {negative : Bool} {nativeScale : Int} {left i : Nat} (m : Int)
    (h : 8 + (i + left) * 2 ≤ buf.length) :
    ∃ w, parseGroups buf weight negative nativeScale left i m = .ok w := by
  induction left generalizing i m with
  | zero => exact ⟨_, rfl⟩
  | succ left ih =>
    unfold parseGroups
    rw [word_front (by omega)]
    simp only [bind, Except.bind]
    cases pushGroup 10000 m (intOf ((buf.drop (8 + i * 2)).take 2)) with
    | some m => exact ih m (by omega)
    | none =>
      dsimp only
      split_ifs
      · exact ⟨_, rfl⟩
      · exact ⟨_, rfl⟩

/-- A count that is not negative says how many groups there are, or too many. -/
theorem numericExtent_checked {ndigits : Int} (hlow : 0 ≤ ndigits) (hhigh : ndigits < 2 ^ 15) (buf : Bytes) :
    Ends (numericExtent .checked ndigits buf) ∧ ∀ extent, numericExtent .checked ndigits buf = .ok extent →
      extent.2 = 8 + extent.1 * 2 ∧ extent.2 ≤ buf.length := by
  unfold numericExtent
  rw [Sizes.ofInt_eq _ hlow (by omega)]
  simp only [bind, Except.bind]
  rw [Sizes.fit_eq _ (by omega)]
  dsimp only
  split_ifs with hshort
  · exact ⟨ends_err _, nofun⟩
  · refine ⟨ends_ok _, fun extent h => ?_⟩
    cases h
    exact ⟨rfl, by omega⟩

theorem numericExtent_negative {ndigits : Int} (h : ndigits < 0) (buf : Bytes) :
    numericExtent .checked ndigits buf = .error .panic := by
  unfold numericExtent
  rw [Sizes.checked_ofInt_neg h]
  rfl

theorem intOf_word_lt {buf : Bytes} (h : 8 ≤ buf.length) : intOf (buf.take 2) < 2 ^ 15 := by
  have hmem := @intOf_mem 2 (buf.take 2) (by rw [List.length_take]; omega)
  omega

theorem parseNumericWire_negative {buf : Bytes} (h : NegativeCount buf) :
    parseNumericWire .checked buf = .error .panic := by
  obtain ⟨hlength, hneg, hfinite⟩ := h
  rw [parseNumericWire_of_header (numericHeader_of_length hlength) hfinite, numericExtent_negative hneg]
  rfl

theorem ends_parseNumericWire {buf : Bytes} (h : ¬NegativeCount buf) : Ends (parseNumericWire .checked buf) := by
  refine (ends_numericHeader buf).bind fun header hheader => ?_
  obtain ⟨hlength, rfl⟩ := numericHeader_eq_ok hheader
  dsimp only
  split_ifs with hspecial
  · exact ends_ok _
  · have hcount : 0 ≤ intOf (buf.take 2) := by
      by_contra hneg
      exact h ⟨hlength, by omega, by simpa using hspecial⟩
    obtain ⟨hends, hextent⟩ := numericExtent_checked hcount (intOf_word_lt hlength) buf
    refine hends.bind fun extent hok => ?_
    obtain ⟨hfinish, hall⟩ := hextent extent hok
    obtain ⟨w, hw⟩ := @parseGroups_ok buf (intOf ((buf.drop 2).take 2)) (natOf ((buf.drop 4).take 2) = 0x4000)
      (MachineInt.asI32 ((MachineInt.asI32 extent.1 - 1 - intOf ((buf.drop 2).take 2)) * 4)) extent.1 0 0 (by omega)
    rw [hw]
    exact ends_ok _

theorem exactGroups_small {groups : List Nat} {lastExp10 exp10 : Int} {m : Nat}
    (h : exactGroups groups lastExp10 = some (m, exp10)) : exp10.natAbs ≤ 22 := by
  unfold exactGroups at h
  obtain ⟨n, -, h⟩ := Option.bind_eq_some_iff.mp h
  dsimp only at h
  split_ifs at h with hsmall
  cases h
  exact hsmall.2

section

variable {F : Type} (rt : PgRuntime F)

theorem ends_numericDigitsToF64 (floats : Floats F) (digits : Bytes) (weight : Int) :
    Ends (numericDigitsToF64 floats digits weight) := by
  unfold numericDigitsToF64
  dsimp only
  split_ifs with hnone
  · exact ends_ok _
  have hgroups : ∀ is : List Nat, (∀ i ∈ is, i < digits.length / 2) →
      Ends (is.mapM fun i => (word digits (2 * i)).map natOf) := by
    intro is
    induction is with
    | nil => exact fun _ => ends_ok _
    | cons i is ih =>
      intro hmem
      have hi := hmem i List.mem_cons_self
      rw [List.mapM_cons, word_front (by omega)]
      refine (ends_ok _).bind fun g _ => (ih fun j hj => hmem j (List.mem_cons_of_mem _ hj)).bind fun _ _ => ends_ok _
  refine (hgroups _ fun i hi => List.mem_range.mp hi).bind fun groups _ => ?_
  cases hexact : exactGroups groups (MachineInt.asI32 (4 * (weight - (MachineInt.asI32 ↑(digits.length / 2) - 1)))) with
  | some r =>
    obtain ⟨m, exp10⟩ := r
    have hsmall := exactGroups_small hexact
    dsimp only
    rw [index_eq (by rw [List.length_map, List.length_range]; omega)]
    exact ends_ok _
  | none =>
    dsimp only
    split
    · exact ends_ok _
    · exact ends_err _

theorem decodeNumeric_negative (floats : Floats F) {buf : Bytes} (h : NegativeCount buf) :
    decodeNumeric floats .checked buf = .error .panic := by
  obtain ⟨hlength, hneg, hfinite⟩ := h
  simp only [List.mem_cons, List.not_mem_nil, or_false, not_or] at hfinite
  unfold decodeNumeric
  rw [numericHeader_of_length hlength]
  simp only [bind, Except.bind]
  rw [if_neg hfinite.1, if_neg hfinite.2.1, if_neg hfinite.2.2, numericExtent_negative hneg]

theorem ends_decodeNumeric (floats : Floats F) {buf : Bytes} (h : ¬NegativeCount buf) :
    Ends (decodeNumeric floats .checked buf) := by
  refine (ends_numericHeader buf).bind fun header hheader => ?_
  obtain ⟨hlength, rfl⟩ := numericHeader_eq_ok hheader
  dsimp only
  generalize hsign : natOf ((buf.drop 4).take 2) = sign
  by_cases hnan : sign = 0xC000
  · rw [if_pos hnan]
    exact ends_ok _
  rw [if_neg hnan]
  by_cases hinfinity : sign = 0xD000
  · rw [if_pos hinfinity]
    exact ends_ok _
  rw [if_neg hinfinity]
  by_cases hnegInfinity : sign = 0xF000
  · rw [if_pos hnegInfinity]
    exact ends_ok _
  rw [if_neg hnegInfinity]
  have hcount : 0 ≤ intOf (buf.take 2) := by
    by_contra hneg
    exact h ⟨hlength, by omega, by rw [hsign]; simp [hnan, hinfinity, hnegInfinity]⟩
  obtain ⟨hends, hextent⟩ := numericExtent_checked hcount (intOf_word_lt hlength) buf
  refine hends.bind fun extent hok => ?_
  obtain ⟨hfinish, hall⟩ := hextent extent hok
  rw [slice_eq (by omega) hall]
  exact (ends_ok _).bind fun digits _ => (ends_numericDigitsToF64 floats _ _).bind fun _ _ => ends_ok _

/-- The columns that read a NUMERIC. -/
def readsNumeric (kind : ColBuilder) (oid : Nat) : Bool :=
  match kind with
  | .decimal128 _ => true
  | .f64 => oid = PgOid.numeric
  | _ => false

theorem ends_readInt (width : Nat) (what : String) (buf : Bytes) : Ends (readInt width what buf) := by
  unfold readInt
  split_ifs
  · exact ends_err _
  · exact ends_ok _

theorem ends_decodeText (bytes : Bytes) : Ends (decodeText rt bytes) := by
  unfold decodeText
  split
  · exact ends_ok _
  · exact ends_err _

/-- A field ends the decoder only where it is a NUMERIC with a negative count. -/
theorem ends_appendValue {kind : ColBuilder} {oid : Nat} {buf : Bytes}
    (h : ¬(readsNumeric kind oid = true ∧ NegativeCount buf)) : Ends (kind.appendValue rt .checked oid buf) := by
  cases kind with
  | i16 => exact (ends_readInt _ _ _).bind fun _ _ => ends_ok _
  | i32 => exact (ends_readInt _ _ _).bind fun _ _ => ends_ok _
  | i64 => exact (ends_readInt _ _ _).bind fun _ _ => ends_ok _
  | u32 => exact (ends_readInt _ _ _).bind fun _ _ => ends_ok _
  | f32 => exact (ends_readInt _ _ _).bind fun _ _ => ends_ok _
  | date => exact (ends_readInt _ _ _).bind fun _ _ => ends_ok _
  | ts tz => exact (ends_readInt _ _ _).bind fun _ _ => ends_ok _
  | f64 =>
    unfold ColBuilder.appendValue
    dsimp only
    by_cases hnumeric : oid = PgOid.numeric
    · rw [if_pos hnumeric]
      have hcount : ¬NegativeCount buf := fun hneg => h ⟨by simp [readsNumeric, hnumeric], hneg⟩
      exact (ends_decodeNumeric rt.toFloats hcount).bind fun _ _ => ends_ok _
    · rw [if_neg hnumeric]
      exact (ends_readInt _ _ _).bind fun _ _ => ends_ok _
  | str =>
    unfold ColBuilder.appendValue
    dsimp only
    split_ifs with htime huuid hjsonb
    · exact (ends_readInt _ _ _).bind fun _ _ => ends_ok _
    · exact ends_ok _
    · have hpos := List.length_pos_of_ne_nil hjsonb.2
      rw [slice_eq hpos le_rfl]
      exact (ends_decodeText rt _).bind fun _ _ => ends_ok _
    · exact (ends_decodeText rt _).bind fun _ _ => ends_ok _
  | decimal128 d =>
    have hcount : ¬NegativeCount buf := fun hneg => h ⟨rfl, hneg⟩
    exact ((ends_parseNumericWire hcount).bind fun _ _ => ends_ok _).bind fun _ _ => ends_ok _
  | bool => exact ends_ok _
  | bin => exact ends_ok _

theorem appendValue_negative {kind : ColBuilder} {oid : Nat} {buf : Bytes}
    (h : readsNumeric kind oid = true ∧ NegativeCount buf) :
    kind.appendValue rt .checked oid buf = .error .panic := by
  obtain ⟨hreads, hneg⟩ := h
  cases kind with
  | f64 =>
    have hnumeric : oid = PgOid.numeric := by simpa [readsNumeric] using hreads
    unfold ColBuilder.appendValue
    dsimp only
    rw [if_pos hnumeric, decodeNumeric_negative rt.toFloats hneg]
    rfl
  | decimal128 d =>
    unfold ColBuilder.appendValue decimalField
    rw [parseNumericWire_negative hneg]
    rfl
  | _ => cases hreads

/-! ### A row -/

variable (s : Sizes) in
/-- A field as a value, and how it was coerced. -/
def fieldValue (kind : ColBuilder) (oid : Nat) : Option Bytes → Outcome EtlError (Option (PgValue F) × Coercion)
  | none => pure (none, .none)
  | some bytes => kind.appendValue rt s oid bytes

/-- A value that ends the decoder. -/
def NegativeValue (kind : ColBuilder) (oid : Nat) (field : Option Bytes) : Prop :=
  ∃ bytes, field = some bytes ∧ readsNumeric kind oid = true ∧ NegativeCount bytes

/-- A value that decodes, and that the array of its column has no offset for. -/
def OverfullValue (b : ArrayBuilder F) (oid : Nat) (field : Option Bytes) : Prop :=
  ∃ v, fieldValue rt .checked b.kind oid field = .ok v ∧ ¬(b.push v.1).Fits

def Taken (b : ArrayBuilder F) (oid : Nat) (field : Option Bytes) : Prop :=
  ∃ v, fieldValue rt .checked b.kind oid field = .ok v ∧ (b.push v.1).Fits

/-- Behind values that are taken, one that ends the decoder. -/
def FatalRow : List (ArrayBuilder F × Nat) → List (Option Bytes) → Prop
  | (b, oid) :: columns, field :: fields =>
    NegativeValue b.kind oid field ∨ OverfullValue rt b oid field ∨ Taken rt b oid field ∧ FatalRow columns fields
  | _, _ => False

/-- The columns as they stand, and their types. -/
def CopyState.targets (c : CopyState F) : List (ArrayBuilder F × Nat) := c.builders.zip c.oids

/-- There is a builder, a type and a name for every column. -/
structure Aligned (c : CopyState F) : Prop where
  builders : c.builders.length = c.oids.length
  fields : c.fields.length = c.oids.length

theorem SamePlan.aligned {c c' : CopyState F} (h : SamePlan c c') (hc : Aligned c) : Aligned c' where
  builders := by
    have hlength := congrArg List.length h.kinds
    rw [List.length_map, List.length_map] at hlength
    rw [hlength, h.oids, hc.builders]
  fields := by rw [h.fields, h.oids, hc.fields]

variable {rt}

theorem targets_drop {c : CopyState F} (hc : Aligned c) {i : Nat} (hi : i < c.oids.length) :
    ∃ b oid named, c.builders[i]? = some b ∧ c.oids[i]? = some oid ∧ c.fields[i]? = some named ∧
      c.targets.drop i = (b, oid) :: c.targets.drop (i + 1) := by
  have hb : i < c.builders.length := by rw [hc.builders]; exact hi
  have hf : i < c.fields.length := by rw [hc.fields]; exact hi
  have htargets : i < c.targets.length := by
    unfold CopyState.targets
    rw [List.length_zip]
    omega
  refine ⟨_, _, _, List.getElem?_eq_getElem hb, List.getElem?_eq_getElem hi, List.getElem?_eq_getElem hf, ?_⟩
  rw [List.drop_eq_getElem_cons htargets]
  congr 1
  simp [CopyState.targets]

theorem index_of_getElem? {ε α : Type} {xs : List α} {i : Nat} {x : α} (h : xs[i]? = some x) :
    (index xs i : Outcome ε α) = .ok x := by
  unfold index
  rw [h]

/-- One field, in a column that there is. -/
theorem appendField_eq {s : Sizes} {c : CopyState F} {i : Nat} {b : ArrayBuilder F} {oid : Nat} {named : Field}
    (hb : c.builders[i]? = some b) (ho : c.oids[i]? = some oid) (hf : c.fields[i]? = some named)
    (field : Option Bytes) :
    appendField rt s c i field = (do
      let v ← inContext ("column '" ++ named.name ++ "'") (fieldValue rt s b.kind oid field)
      let b' ← b.append v.1
      pure { c with builders := c.builders.set i b', coercions := c.coercions.recordCoercion i v.2 }) := by
  unfold appendField
  rw [index_of_getElem? hb, index_of_getElem? ho, index_of_getElem? hf]
  cases field with
  | none => rfl
  | some bytes => rfl

theorem inContext_eq_ok {α : Type} {place : String} {x : Outcome EtlError α} {a : α} :
    inContext place x = .ok a ↔ x = .ok a := by
  cases x with
  | ok b => exact Iff.rfl
  | error stop => exact iff_of_false (by cases stop <;> exact nofun) nofun

/-- A field is in its column when its value is taken. -/
theorem appendField_eq_ok {s : Sizes} {c c' : CopyState F} {i : Nat} {b : ArrayBuilder F} {oid : Nat} {named : Field}
    (hb : c.builders[i]? = some b) (ho : c.oids[i]? = some oid) (hf : c.fields[i]? = some named)
    {field : Option Bytes} :
    appendField rt s c i field = .ok c' ↔ ∃ v, fieldValue rt s b.kind oid field = .ok v ∧ (b.push v.1).Fits ∧
      c' = { c with builders := c.builders.set i (b.push v.1), coercions := c.coercions.recordCoercion i v.2 } := by
  rw [appendField_eq hb ho hf]
  constructor
  · intro h
    obtain ⟨v, hv, h⟩ := bind_eq_ok.mp h
    obtain ⟨b', hpush, h⟩ := bind_eq_ok.mp h
    obtain ⟨hfits, rfl⟩ := ArrayBuilder.append_eq_ok.mp hpush
    cases h
    exact ⟨v, inContext_eq_ok.mp hv, hfits, rfl⟩
  · rintro ⟨v, hv, hfits, rfl⟩
    exact bind_eq_ok.mpr ⟨v, inContext_eq_ok.mpr hv,
      bind_eq_ok.mpr ⟨_, ArrayBuilder.append_eq_ok.mpr ⟨hfits, rfl⟩, rfl⟩⟩

theorem ends_inContext {α : Type} (place : String) {x : Outcome EtlError α} (h : Ends x) : Ends (inContext place x) := by
  cases x with
  | ok a => exact ends_ok a
  | error stop =>
    cases stop with
    | err e => exact ends_err _
    | panic => exact absurd rfl h.1
    | hangs => exact absurd rfl h.2

theorem appendField_spec {c : CopyState F} {i : Nat} {b : ArrayBuilder F} {oid : Nat} {named : Field}
    (hb : c.builders[i]? = some b) (ho : c.oids[i]? = some oid) (hf : c.fields[i]? = some named)
    (field : Option Bytes) :
    (NegativeValue b.kind oid field ∨ OverfullValue rt b oid field →
      appendField rt .checked c i field = .error .panic) ∧
    (¬NegativeValue b.kind oid field → ¬OverfullValue rt b oid field → Ends (appendField rt .checked c i field)) ∧
    ((∃ c', appendField rt .checked c i field = .ok c') ↔ Taken rt b oid field) := by
  refine ⟨?_, ?_, ?_⟩
  · rw [appendField_eq hb ho hf]
    rintro (⟨bytes, rfl, hneg⟩ | ⟨v, hv, hfull⟩)
    · have hvalue : fieldValue rt .checked b.kind oid (some bytes) = .error .panic := appendValue_negative rt hneg
      rw [hvalue]
      rfl
    · have hpush : b.append v.1 = .error .panic := if_neg hfull
      rw [inContext_eq_ok.mpr hv]
      simp only [bind, Except.bind]
      rw [hpush]
  · intro hneg hfull
    rw [appendField_eq hb ho hf]
    have hvalue : Ends (fieldValue rt .checked b.kind oid field) := by
      cases field with
      | none => exact ends_ok _
      | some bytes => exact ends_appendValue rt fun h => hneg ⟨bytes, rfl, h⟩
    refine (ends_inContext _ hvalue).bind fun v hv => ?_
    have hfits : (b.push v.1).Fits := by
      by_contra h
      exact hfull ⟨v, inContext_eq_ok.mp hv, h⟩
    rw [ArrayBuilder.append_eq_ok.mpr ⟨hfits, rfl⟩]
    exact ends_ok _
  · constructor
    · rintro ⟨c', h⟩
      obtain ⟨v, hv, hfits, -⟩ := (appendField_eq_ok hb ho hf).mp h
      exact ⟨v, hv, hfits⟩
    · rintro ⟨v, hv, hfits⟩
      exact ⟨_, (appendField_eq_ok hb ho hf).mpr ⟨v, hv, hfits, rfl⟩⟩

/-- The columns behind a field stand as they stood. -/
theorem appendField_targets {s : Sizes} {c c' : CopyState F} {i : Nat} {field : Option Bytes} (hc : Aligned c)
    (hi : i < c.oids.length) (h : appendField rt s c i field = .ok c') :
    c'.targets.drop (i + 1) = c.targets.drop (i + 1) := by
  obtain ⟨b, oid, named, hb, ho, hf, -⟩ := targets_drop hc hi
  obtain ⟨v, -, -, rfl⟩ := (appendField_eq_ok hb ho hf).mp h
  unfold CopyState.targets
  rw [List.zip_eq_zipWith, List.zip_eq_zipWith, List.drop_zipWith, List.drop_zipWith, List.drop_set_of_lt (by omega)]

theorem appendRow_spec {fields : List (Option Bytes)} {i : Nat} {c : CopyState F} (hc : Aligned c)
    (hi : i + fields.length ≤ c.oids.length) :
    (FatalRow rt (c.targets.drop i) fields → appendRow rt .checked fields i c = .error .panic) ∧
    (¬FatalRow rt (c.targets.drop i) fields → Ends (appendRow rt .checked fields i c)) := by
  induction fields generalizing i c with
  | nil =>
    refine ⟨fun h => ?_, fun _ => ends_ok _⟩
    cases htargets : c.targets.drop i with
    | nil => simp [htargets, FatalRow] at h
    | cons column columns => simp [htargets, FatalRow] at h
  | cons field fields ih =>
    rw [List.length_cons] at hi
    have hlt : i < c.oids.length := by omega
    obtain ⟨b, oid, named, hb, ho, hf, htargets⟩ := targets_drop hc hlt
    obtain ⟨hpanic, hends, hok⟩ := @appendField_spec _ rt _ _ _ _ _ hb ho hf field
    rw [htargets]
    unfold FatalRow appendRow
    have hrest : ∀ c', appendField rt .checked c i field = .ok c' → Aligned c' ∧
        c'.targets.drop (i + 1) = c.targets.drop (i + 1) ∧ i + 1 + fields.length ≤ c'.oids.length := by
      intro c' h
      have hsame := appendField_plan h
      refine ⟨hsame.aligned hc, appendField_targets hc hlt h, ?_⟩
      rw [hsame.oids]
      omega
    constructor
    · rintro (hneg | hfull | ⟨htaken, hlater⟩)
      · rw [hpanic (.inl hneg)]
        rfl
      · rw [hpanic (.inr hfull)]
        rfl
      · obtain ⟨c', h⟩ := hok.mpr htaken
        obtain ⟨hc', hbehind, hi'⟩ := hrest c' h
        rw [h]
        exact (ih hc' hi').1 (by rwa [hbehind])
    · intro hno
      refine (hends (fun h => hno (.inl h)) fun h => hno (.inr (.inl h))).bind fun c' h => ?_
      obtain ⟨hc', hbehind, hi'⟩ := hrest c' h
      exact (ih hc' hi').2 fun hlater => hno (.inr (.inr ⟨hok.mp ⟨c', h⟩, by rwa [hbehind] at hlater⟩))

/-! ### A step -/

variable (rt)

/-- The next thing the decoder takes from the stream is a negative length or count, or a value too many for its array. -/
def FatalHere (c : CopyState F) (xs : Bytes) : Prop :=
  if c.headerDone then
    readTuple c.oids.length xs = .negative ∨
      ∃ fields rest, readTuple c.oids.length xs = .tuple fields rest ∧ FatalRow rt c.targets fields
  else readHeader xs = .negative

/-- The decoder, all before it decoded, comes to that. -/
def FatalAhead (columns : List CopyColumn) (batchRows batchBytes : Nat) (stream : Bytes) : Prop :=
  ∃ d c xs, CopyDecoder.withBatchBytes columns batchRows batchBytes = .ok d ∧
    Reaches (copyStep rt .checked) (d.toCopyState, stream) (c, xs) ∧ FatalHere rt c xs

/-- What holds wherever the decoder stands. -/
structure Standing (c : CopyState F) (xs : Bytes) : Prop where
  aligned : Aligned c
  length_lt : c.bytesInBatch + xs.length < 2 ^ 63

variable {rt}

/-- A field changes its column and the tally. -/
theorem appendField_keeps {s : Sizes} {c c' : CopyState F} {i : Nat} {field : Option Bytes}
    (h : appendField rt s c i field = .ok c') :
    c' = { c with builders := c'.builders, coercions := c'.coercions } := by
  obtain ⟨b, -, h⟩ := bind_eq_ok.mp h
  cases field with
  | none =>
    obtain ⟨b', -, h⟩ := bind_eq_ok.mp h
    cases h
    rfl
  | some bytes =>
    obtain ⟨oid, -, h⟩ := bind_eq_ok.mp h
    obtain ⟨named, -, h⟩ := bind_eq_ok.mp h
    obtain ⟨v, -, h⟩ := bind_eq_ok.mp h
    obtain ⟨b', -, h⟩ := bind_eq_ok.mp h
    cases h
    rfl

theorem appendRow_keeps {s : Sizes} {fields : List (Option Bytes)} {i : Nat} {c c' : CopyState F}
    (h : appendRow rt s fields i c = .ok c') :
    c' = { c with builders := c'.builders, coercions := c'.coercions } := by
  induction fields generalizing i c with
  | nil =>
    cases h
    rfl
  | cons field fields ih =>
    obtain ⟨d, hfield, h⟩ := bind_eq_ok.mp h
    have hd := appendField_keeps hfield
    have hrest := ih h
    rw [hd] at hrest
    exact hrest

theorem appendRow_bytes {s : Sizes} {fields : List (Option Bytes)} {i : Nat} {c c' : CopyState F}
    (h : appendRow rt s fields i c = .ok c') : c'.bytesInBatch = c.bytesInBatch := by
  rw [appendRow_keeps h]

theorem ends_ofExcept {α : Type} (x : Except EtlError α) : Ends (ofExcept x) := by
  cases x with
  | ok a => exact ends_ok a
  | error e => exact ends_err e

theorem ends_flushBatch (c : CopyState F) : Ends (flushBatch c) :=
  (ends_ofExcept _).bind fun _ _ => ends_ok _

theorem countRow_bytes {s : Sizes} {c c' : CopyState F} {n : Nat} {batches : List (Batch (PgValue F))}
    (h : countRow s c n = .ok (c', batches)) : c'.bytesInBatch ≤ c.bytesInBatch + n := by
  obtain ⟨bytes, hfit, h⟩ := bind_eq_ok.mp h
  have hle := Sizes.fit_le hfit
  dsimp only at h
  split_ifs at h
  · obtain ⟨⟨d, batch⟩, hflush, h⟩ := bind_eq_ok.mp h
    obtain ⟨b, -, hflush⟩ := bind_eq_ok.mp hflush
    cases hflush
    cases h
    exact Nat.zero_le _
  · cases h
    exact hle

theorem ends_countRow {c : CopyState F} {n : Nat} (h : c.bytesInBatch + n < 2 ^ 63) : Ends (countRow .checked c n) := by
  unfold countRow
  rw [Sizes.fit_eq _ (by omega)]
  simp only [bind, Except.bind]
  split_ifs with hfull
  · have hends := ends_flushBatch { c with
      rowsInBatch := c.rowsInBatch + 1, rowsTotal := c.rowsTotal + 1, bytesInBatch := c.bytesInBatch + n }
    exact hends.bind fun _ _ => ends_ok _
  · exact ends_ok _

theorem addRow_bytes {s : Sizes} {c c' : CopyState F} {fields : List (Option Bytes)} {n : Nat}
    {batches : List (Batch (PgValue F))} (h : addRow rt s c fields n = .ok (c', batches)) :
    c'.bytesInBatch ≤ c.bytesInBatch + n := by
  obtain ⟨d, happend, hcount⟩ := bind_eq_ok.mp h
  rw [← appendRow_bytes happend]
  exact countRow_bytes hcount

theorem Standing.next {c c' : CopyState F} {xs rest : Bytes} {out : List (Batch (PgValue F))} (h : Standing c xs)
    (hstep : copyStep rt .checked c xs = .next c' rest out) : Standing c' rest := by
  have hlength := h.length_lt
  have hlt := ((steady_copyStep rt .checked).next hstep).1
  rcases copyStep_next hstep with ⟨-, -, rfl, -⟩ | ⟨-, fields, hread, hrow⟩
  · exact ⟨⟨h.aligned.builders, h.aligned.fields⟩, show c.bytesInBatch + rest.length < _ by omega⟩
  · refine ⟨(addRow_plan hrow).aligned h.aligned, ?_⟩
    have hle := addRow_bytes hrow
    omega

theorem ends_error {ε α : Type} {stop : Stop ε} (h : Ends (.error stop : Outcome ε α)) : ∃ e, stop = .err e := by
  cases stop with
  | err e => exact ⟨e, rfl⟩
  | panic => exact absurd rfl h.1
  | hangs => exact absurd rfl h.2

theorem addRow_spec {c : CopyState F} {xs rest : Bytes} {fields : List (Option Bytes)} (h : Standing c xs)
    (hread : readTuple c.oids.length xs = .tuple fields rest) :
    (FatalRow rt c.targets fields → addRow rt .checked c fields (xs.length - rest.length) = .error .panic) ∧
    (¬FatalRow rt c.targets fields → Ends (addRow rt .checked c fields (xs.length - rest.length))) := by
  have hlength := h.length_lt
  obtain ⟨hpanic, hends⟩ := @appendRow_spec _ rt fields 0 c h.aligned (by
    rw [(readTuple_eq_tuple hread).1, Nat.zero_add])
  rw [List.drop_zero] at hpanic hends
  unfold addRow
  refine ⟨fun hneg => ?_, fun hneg => (hends hneg).bind fun d happend => ?_⟩
  · rw [hpanic hneg]
    rfl
  · apply ends_countRow
    rw [appendRow_bytes happend]
    omega

/-- A step fails other than with an error of the decoder's own exactly there. -/
theorem copyStep_fail {c : CopyState F} {xs : Bytes} (h : Standing c xs) :
    (FatalHere rt c xs → copyStep rt .checked c xs = .fail .panic) ∧
    (¬FatalHere rt c xs → ∀ stop, copyStep rt .checked c xs = .fail stop → ∃ e, stop = .err e) := by
  unfold FatalHere
  by_cases hdone : c.headerDone = true
  · rw [if_pos hdone]
    cases hread : readTuple c.oids.length xs with
    | tuple fields rest =>
      obtain ⟨hpanic, hends⟩ := @addRow_spec _ rt _ _ _ _ h hread
      rw [copyStep_tuple hdone hread]
      constructor
      · rintro (hneg | ⟨fs, r, heq, hrow⟩)
        · cases hneg
        · cases heq
          rw [hpanic hrow]
      · intro hno stop hstop
        have hrow := hends fun hneg => hno (.inr ⟨fields, rest, rfl, hneg⟩)
        cases hadd : addRow rt .checked c fields (xs.length - rest.length) with
        | ok r =>
          simp only [hadd] at hstop
          cases hstop
        | error e =>
          rw [hadd] at hrow hstop
          cases hstop
          exact ends_error hrow
    | negative =>
      unfold copyStep
      rw [if_pos hdone, hread]
      exact ⟨fun _ => rfl, fun hno => absurd (.inl rfl) hno⟩
    | refused count =>
      unfold copyStep
      rw [if_pos hdone, hread]
      refine ⟨?_, fun _ stop hstop => ?_⟩
      · rintro (hneg | ⟨fs, r, heq, -⟩)
        · cases hneg
        · cases heq
      · cases hstop
        exact ⟨_, rfl⟩
    | _ =>
      unfold copyStep
      rw [if_pos hdone, hread]
      refine ⟨?_, fun _ stop hstop => ?_⟩
      · rintro (hneg | ⟨fs, r, heq, -⟩)
        · cases hneg
        · cases heq
      · cases hstop
  · rw [if_neg hdone]
    unfold copyStep
    rw [if_neg hdone]
    cases hread : readHeader xs with
    | negative => exact ⟨fun _ => rfl, fun hno => absurd rfl hno⟩
    | refused =>
      refine ⟨nofun, fun _ stop hstop => ?_⟩
      cases hstop
      exact ⟨_, rfl⟩
    | _ => exact ⟨nofun, fun _ stop hstop => nomatch hstop⟩

/-! ### A run -/

theorem Standing.reaches {p q : CopyState F × Bytes} (hp : Standing p.1 p.2)
    (h : Reaches (copyStep rt .checked) p q) : Standing q.1 q.2 := by
  induction h with
  | refl => exact hp
  | tail _ hgoes ih =>
    obtain ⟨out, hstep⟩ := hgoes
    exact ih.next hstep

theorem Fresh.standing {columns : List CopyColumn} {batchRows batchBytes : Nat} {d : CopyDecoder F}
    (h : CopyDecoder.withBatchBytes columns batchRows batchBytes = .ok d) {stream : Bytes}
    (hstream : stream.length < 2 ^ 63) : Standing d.toCopyState stream := by
  have hfresh := fresh_withBatchBytes h
  have hkinds := hfresh.kinds.length_eq
  rw [List.length_map] at hkinds
  refine ⟨⟨?_, ?_⟩, ?_⟩
  · rw [hfresh.oids, List.length_map, hkinds]
  · rw [hfresh.fields, hfresh.oids, List.length_map, List.length_map]
  · obtain ⟨kinds, -, h⟩ := bind_eq_ok.mp h
    cases h
    simpa using hstream

theorem ends_finish (d : CopyDecoder F) : Ends d.finish := by
  unfold CopyDecoder.finish
  split_ifs
  · exact (ends_flushBatch _).bind fun _ _ => ends_ok _
  · exact ends_ok _

theorem fatalAhead_panics {columns : List CopyColumn} {batchRows batchBytes : Nat} {stream : Bytes}
    {d : CopyDecoder F} (hnew : CopyDecoder.withBatchBytes columns batchRows batchBytes = .ok d)
    (hlength : stream.length < 2 ^ 63) (h : FatalAhead rt columns batchRows batchBytes stream) :
    drain (copyStep rt .checked) d.toCopyState stream = .error .panic := by
  obtain ⟨d', c, xs, hnew', hreach, hneg⟩ := h
  rw [hnew] at hnew'
  cases hnew'
  have hstart : Standing d.toCopyState stream := Fresh.standing hnew hlength
  have hstanding : Standing c xs := hstart.reaches hreach
  exact (drain_eq_error (steady_copyStep rt .checked)).mpr ⟨c, xs, hreach, (copyStep_fail hstanding).1 hneg⟩

theorem ends_run_checked {columns : List CopyColumn} {batchRows batchBytes : Nat} {chunks : List Bytes}
    (hlength : chunks.flatten.length < 2 ^ 63) :
    Ends (CopyDecoder.run rt .checked columns batchRows batchBytes chunks) ↔
      ¬FatalAhead rt columns batchRows batchBytes chunks.flatten := by
  rw [run_eq batchRows batchBytes hlength (.inl rfl)]
  unfold runWhole
  cases hnew : (CopyDecoder.withBatchBytes columns batchRows batchBytes : Except EtlError (CopyDecoder F)) with
  | error e =>
    refine iff_of_true (ends_err e) ?_
    rintro ⟨d, -, -, h, -⟩
    rw [hnew] at h
    cases h
  | ok d =>
    have hstart : Standing d.toCopyState chunks.flatten := Fresh.standing hnew hlength
    have hahead := @fatalAhead_panics _ rt _ _ _ _ _ hnew hlength
    simp only [ofExcept, Except.mapError, bind, Except.bind]
    cases hdrain : drain (copyStep rt .checked) d.toCopyState chunks.flatten with
    | error stop =>
      obtain ⟨c, xs, hreach, hfail⟩ := (drain_eq_error (steady_copyStep rt .checked)).mp hdrain
      have hstanding : Standing c xs := hstart.reaches hreach
      obtain ⟨hpanic, hown⟩ := @copyStep_fail _ rt _ _ hstanding
      by_cases hneg : FatalHere rt c xs
      · rw [hpanic hneg] at hfail
        cases hfail
        exact iff_of_false (fun h => h.1 rfl) fun h => h ⟨d, c, xs, hnew, hreach, hneg⟩
      · obtain ⟨e, rfl⟩ := hown hneg _ hfail
        refine iff_of_true (ends_err e) fun h => ?_
        have hcontra := hahead h
        rw [hdrain] at hcontra
        cases hcontra
    | ok r =>
      refine iff_of_true ((ends_finish _).bind fun _ _ => ends_ok _) fun h => ?_
      have hcontra := hahead h
      rw [hdrain] at hcontra
      cases hcontra

end

/-- A stream of bytes in chunks, no more of them than a vector holds. -/
structure ByteChunks where
  chunks : List Bytes
  length_lt : chunks.flatten.length < 2 ^ 63

/-- The decoder ends with batches or an error, whatever the stream and its chunks, and takes only sizes for sizes,
exactly when behind what it decodes there is no negative length or count, and no value too many for its array. -/
theorem decoder_ends_iff {F : Type} (rt : PgRuntime F) (columns : List CopyColumn) (batchRows batchBytes : Nat)
    (stream : ByteChunks) :
    (∀ s, Ends (CopyDecoder.run rt s columns batchRows batchBytes stream.chunks)) ↔
      ¬FatalAhead rt columns batchRows batchBytes stream.chunks.flatten := by
  rw [← ends_run_checked stream.length_lt]
  constructor
  · intro h
    exact h .checked
  · intro h s
    exact (agrees_run rt s columns batchRows batchBytes stream.chunks).ends h

/-- Where no doubles are read. -/
def noDoubles : PgRuntime Unit where
  nan := ()
  infinity := ()
  negInfinity := ()
  ofBits _ := ()
  ofNat _ := ()
  tenTo _ := ()
  mul _ _ := ()
  div _ _ := ()
  neg _ := ()
  parse _ := .ok ()
  utf8Error _ := ""

def int4Column : CopyColumn where
  name := "id"
  nullable := true
  arrow := .int32
  clickhouseInner := "Int32"
  typeId := 23

/-- The header, and a tuple of one field that says it is -2 bytes long. -/
def minusTwoBytes : Bytes := copySignature ++ List.replicate 8 0 ++ [0, 1, 255, 255, 255, 254]

theorem minus_two_bytes_panics : ¬Ends (CopyDecoder.run noDoubles .wrapping [int4Column] 10 0 [minusTwoBytes]) := by
  have hpanic : (match CopyDecoder.run noDoubles .wrapping [int4Column] 10 0 [minusTwoBytes] with
      | .error .panic => true
      | _ => false) = true := by
    decide +kernel
  intro hends
  generalize CopyDecoder.run noDoubles .wrapping [int4Column] 10 0 [minusTwoBytes] = outcome at hpanic hends
  match outcome, hpanic with
  | .error .panic, _ => exact hends.1 rfl

end Quickhouse
