import Mathlib.Data.Nat.Digits.Defs
import Quickhouse.ColumnPlan
import Quickhouse.DecimalRender
import Quickhouse.Lib.Ieee
import Quickhouse.Lib.Protobuf
import Quickhouse.Lib.Slices
import Quickhouse.Lib.TimeFormat

/-!
# Rows as protobuf messages

The storage write appends rows as protobuf messages, with a descriptor that is made of the schema at run time.  The bytes of
a row are written by hand; a decoder with that descriptor reads from them the cells that are not NULL, one field for each
(`proto_rows_decode_back`).
-/

namespace Quickhouse.BigQueryProto

open MachineInt Slices Wire TimeFormat Protobuf

/-! ### Schemas and batches -/

/-- The scale of a decimal is an `i8`. -/
def ScaleFits : ArrowType → Prop
  | .decimal128 d => -2 ^ 7 ≤ d.scale
  | _ => True

/-- The Arrow types a plan has, and the others by their debug text. -/
inductive DataType where
  | arrow (t : ArrowType) (scale : ScaleFits t)
  | other (debug : String)
  deriving DecidableEq, Repr

structure SchemaField where
  name : String
  dataType : DataType
  deriving DecidableEq, Repr

/-- The arrays that columns are stored in. -/
inductive ArrayKind where
  | boolean | int8 | int16 | int32 | int64 | uint8 | uint16 | uint32 | uint64 | float32 | float64 | utf8 | binary
  | date32 | timestampMicros | decimal128
  deriving DecidableEq, Repr

abbrev Signed (w : Nat) := { v : Int // -2 ^ (w - 1) ≤ v ∧ v < 2 ^ (w - 1) }
abbrev Unsigned (w : Nat) := { v : Int // 0 ≤ v ∧ v < 2 ^ w }

/-- The values of an array; offsets into text and binary are of 32 bits. -/
def ArrayKind.Value : ArrayKind → Type
  | .boolean => Bool
  | .int8 => Signed 8
  | .int16 => Signed 16
  | .int32 | .date32 => Signed 32
  | .int64 | .timestampMicros => Signed 64
  | .uint8 => Unsigned 8
  | .uint16 => Unsigned 16
  | .uint32 => Unsigned 32
  | .uint64 => Unsigned 64
  | .float32 => Ieee.Single
  | .float64 => Ieee.Double
  | .utf8 => { s : String // s.utf8ByteSize < 2 ^ 31 }
  | .binary => { bs : List UInt8 // bs.length < 2 ^ 31 }
  | .decimal128 => Signed 128

/-- A value that is not NULL. -/
abbrev Cell := (kind : ArrayKind) × kind.Value

structure Column (rows : Nat) where
  kind : ArrayKind
  values : Fin rows → Option kind.Value

def Column.cell {rows : Nat} (c : Column rows) (row : Fin rows) : Option Cell := (c.values row).map fun v => ⟨c.kind, v⟩

structure RecordBatch where
  rows : Nat
  columns : List (Column rows)

/-! ### The descriptor -/

/-- The protobuf type each Arrow type is written as. -/
def arrowProtoType : ArrowType → FieldType
  | .boolean => .bool
  | .int8 | .int16 | .int32 | .int64 | .uint8 | .uint16 | .uint32 | .uint64 => .int64
  | .float32 | .float64 => .double
  | .utf8 => .string
  | .binary => .bytes
  | .date32 => .int32
  | .timestamp (some _) => .int64
  | .timestamp none => .string
  | .decimal128 _ => .string

def protoTypeFor : DataType → Except EtlError FieldType
  | .arrow t _ => .ok (arrowProtoType t)
  | .other debug => .error (.internal ("no BigQuery Storage Write proto mapping for Arrow type " ++ debug))

/-- A column's field number, from 1 on, and its type. -/
structure FieldEnc where
  name : String
  number : Int
  dataType : DataType
  deriving DecidableEq, Repr

def resolveField (f : SchemaField) (i : Nat) : Except EtlError FieldEnc :=
  (protoTypeFor f.dataType).map fun _ => ⟨f.name, asI32 (i + 1), f.dataType⟩

def resolveFields (schema : List SchemaField) : Except EtlError (List FieldEnc) :=
  schema.zipIdx.mapM fun f => resolveField f.1 f.2

def buildProtoDescriptor (fields : List FieldEnc) : Except EtlError Descriptor :=
  (fields.mapM fun fe => (protoTypeFor fe.dataType).map fun t =>
    (⟨fe.name, fe.number, .optional, t⟩ : FieldDescriptor)).map fun field => ⟨"QuickhouseRow", field⟩

/-! ### The wire format -/

def wireVarint : Nat := 0
def wireI64 : Nat := 1
def wireLen : Nat := 2

/-- The bits of an `i64` or an `i32` as a `u64`. -/
def asU64 (v : Int) : Nat := (v % 2 ^ 64).toNat

def pushVarint (buf : Bytes) (v : Nat) : Bytes :=
  if v / 2 ^ 7 ≠ 0 then pushVarint (buf ++ [UInt8.ofNat (v % 2 ^ 7) ||| 0x80]) (v / 2 ^ 7)
  else buf ++ [UInt8.ofNat (v % 2 ^ 7)]
termination_by v
decreasing_by omega

def pushTag (buf : Bytes) (fieldNumber : Int) (wireType : Nat) : Bytes :=
  pushVarint buf (asU64 fieldNumber * 2 ^ 3 % 2 ^ 64 ||| wireType)

def writeVarint (buf : Bytes) (fieldNumber : Int) (v : Nat) : Bytes := pushVarint (pushTag buf fieldNumber wireVarint) v

/-- A negative number as ten bytes. -/
def writeInt (buf : Bytes) (fieldNumber : Int) (v : Int) : Bytes :=
  pushVarint (pushTag buf fieldNumber wireVarint) (asU64 v)

/-- Eight bytes, the lowest first. -/
def writeDouble (buf : Bytes) (fieldNumber : Int) (v : Ieee.Double) : Bytes :=
  pushTag buf fieldNumber wireI64 ++ (Wire.bigEndian 8 v.toNat).reverse

def writeLen (buf : Bytes) (fieldNumber : Int) (bytes : Bytes) : Bytes :=
  pushVarint (pushTag buf fieldNumber wireLen) bytes.length ++ bytes

/-! ### A row -/

def timestampMicrosToIso (micros : Int) (hasTz : Bool) : Except EtlError String :=
  if Represented (micros / 1000000 / 86400) then
    .ok (String.ofList (dateTimeText 'T' micros ++ if hasTz then ['Z'] else []))
  else .error (.internal ("timestamp " ++ toString micros ++ " (µs) out of representable range"))

/-- The bytes of a text. -/
def utf8Bytes (s : String) : Bytes := s.toByteArray.data.toList

def downcast (want : ArrayKind) (c : Cell) : Outcome EtlError want.Value :=
  if h : c.1 = want then .ok (h ▸ c.2)
  else .error (.err (.internal "Arrow array downcast failed (schema/builder type mismatch)"))

/-- A cell of a column of integers of any width, as an `i64`. -/
def encodeInt (want : ArrayKind) (value : want.Value → Int) (c : Cell) (number : Int) (buf : Bytes) :
    Outcome EtlError Bytes :=
  (downcast want c).map fun v => writeInt buf number ((value v).bmod (2 ^ 64))

section

variable (nan : Ieee.Single → Ieee.Nan)

/-- A cell that is not NULL, after what was written before it. -/
def encodeArrow (t : ArrowType) (number : Int) (c : Cell) (buf : Bytes) : Outcome EtlError Bytes :=
  match t with
  | .boolean => (downcast .boolean c).map fun v => writeVarint buf number (Bool.toNat v)
  | .int8 => encodeInt .int8 Subtype.val c number buf
  | .int16 => encodeInt .int16 Subtype.val c number buf
  | .int32 => encodeInt .int32 Subtype.val c number buf
  | .int64 => encodeInt .int64 Subtype.val c number buf
  | .uint8 => encodeInt .uint8 Subtype.val c number buf
  | .uint16 => encodeInt .uint16 Subtype.val c number buf
  | .uint32 => encodeInt .uint32 Subtype.val c number buf
  | .uint64 => encodeInt .uint64 Subtype.val c number buf
  | .float32 => (downcast .float32 c).map fun v => writeDouble buf number (Ieee.widen nan v)
  | .float64 => (downcast .float64 c).map fun v => writeDouble buf number v
  | .utf8 => (downcast .utf8 c).map fun v => writeLen buf number (utf8Bytes v.val)
  | .binary => (downcast .binary c).map fun v => writeLen buf number v.val
  | .date32 => encodeInt .date32 Subtype.val c number buf
  | .timestamp (some _) => encodeInt .timestampMicros Subtype.val c number buf
  | .timestamp none => do
    let v ← downcast .timestampMicros c
    let s ← (timestampMicrosToIso v.val false).mapError Stop.err
    pure (writeLen buf number (utf8Bytes s))
  | .decimal128 d =>
    (downcast .decimal128 c).map fun v => writeLen buf number (utf8Bytes (decimal128ToString v.val d.scale))

def encodeCell (fe : FieldEnc) (c : Cell) (buf : Bytes) : Outcome EtlError Bytes :=
  match fe.dataType with
  | .arrow t _ => encodeArrow nan t fe.number c buf
  | .other debug => .error (.err (.internal ("no BigQuery Storage Write proto encoding for Arrow type " ++ debug)))

/-- The column's cell in the row; a NULL writes nothing. -/
def encodeField (batch : RecordBatch) (row : Fin batch.rows) (fe : FieldEnc) (buf : Bytes) : Outcome EtlError Bytes := do
  let col ← index batch.columns (asU64 (fe.number - 1))
  match col.cell row with
  | none => .ok buf
  | some c => encodeCell nan fe c buf

def encodeRow (batch : RecordBatch) (row : Fin batch.rows) (fields : List FieldEnc) (buf : Bytes) :
    Outcome EtlError Bytes :=
  fields.foldlM (fun buf fe => encodeField nan batch row fe buf) buf

end

/-! ### What the bytes are -/

theorem or_high {n : Nat} (h : n < 128) : UInt8.ofNat n ||| 0x80 = UInt8.ofNat (n + 128) := by
  refine UInt8.toNat_inj.mp ?_
  have hor := Nat.two_pow_add_eq_or_of_lt (i := 7) h 1
  rw [UInt8.toNat_or, toNat_ofNat_of_lt (by omega), toNat_ofNat_of_lt (by omega), Nat.or_comm]
  exact hor.symm.trans (by omega)

theorem pushVarint_eq (buf : Bytes) (v : Nat) : pushVarint buf v = buf ++ varint v := by
  induction v using Nat.strongRecOn generalizing buf with
  | ind v ih =>
    rw [pushVarint, varint]
    by_cases hsmall : v < 128
    · rw [if_pos hsmall, if_neg (by omega), Nat.mod_eq_of_lt (show v < 2 ^ 7 from hsmall)]
    · rw [if_neg hsmall, if_pos (by omega), ih (v / 2 ^ 7) (by omega), List.append_assoc, List.singleton_append,
        or_high (by omega)]
      rfl

/-- A field number and a wire type are the tag of a field. -/
theorem pushTag_eq (buf : Bytes) {number wireType : Nat} (hnumber : number < 2 ^ 29) (hwire : wireType < 8) :
    pushTag buf number wireType = buf ++ varint (number * 8 + wireType) := by
  have hcast : asU64 (number : Int) = number := by
    unfold asU64
    omega
  have hor := Nat.two_pow_add_eq_or_of_lt (i := 3) hwire number
  unfold pushTag
  rw [pushVarint_eq, hcast, Nat.mod_eq_of_lt (by omega), Nat.mul_comm number, ← hor, Nat.mul_comm number]

section

variable {number : Nat} (hnumber : number < 2 ^ 29) (buf : Bytes)

include hnumber

theorem writeVarint_eq (v : Nat) : writeVarint buf number v = buf ++ Field.bytes ⟨number, .varint v⟩ := by
  unfold writeVarint wireVarint
  rw [pushTag_eq buf hnumber (by decide), pushVarint_eq, List.append_assoc]
  rfl

theorem writeInt_eq (v : Int) : writeInt buf number v = buf ++ Field.bytes ⟨number, .varint (asU64 v)⟩ :=
  writeVarint_eq hnumber buf (asU64 v)

theorem writeDouble_eq (v : Ieee.Double) :
    writeDouble buf number v = buf ++ Field.bytes ⟨number, .fixed64 (bigEndian 8 v.toNat).reverse⟩ := by
  unfold writeDouble wireI64
  rw [pushTag_eq buf hnumber (by decide), List.append_assoc]
  rfl

theorem writeLen_eq (bytes : Bytes) : writeLen buf number bytes = buf ++ Field.bytes ⟨number, .len bytes⟩ := by
  unfold writeLen wireLen
  rw [pushTag_eq buf hnumber (by decide), pushVarint_eq, List.append_assoc, List.append_assoc]
  rfl

end

/-! ### What a decoder makes of them -/

theorem asU64_lt (v : Int) : asU64 v < 2 ^ 64 := by
  unfold asU64
  omega

theorem read_int64 {v : Int} (h : -2 ^ 63 ≤ v ∧ v < 2 ^ 63) :
    FieldType.int64.read (.varint (asU64 (v.bmod (2 ^ 64)))) = some (.int64 v) := by
  have hv : v.bmod (2 ^ 64) = v := Int.bmod_eq_of_le (by omega) (by omega)
  have hcast : ((asU64 v : Nat) : Int) = v % ((2 ^ 64 : Nat) : Int) := by
    unfold asU64
    omega
  show some (Protobuf.Value.int64 (((asU64 (v.bmod (2 ^ 64)) : Nat) : Int).bmod (2 ^ 64))) = _
  rw [hv, hcast, Int.emod_bmod, hv]

theorem read_int32 {v : Int} (h : -2 ^ 31 ≤ v ∧ v < 2 ^ 31) :
    FieldType.int32.read (.varint (asU64 (v.bmod (2 ^ 64)))) = some (.int32 v) := by
  have hv : v.bmod (2 ^ 64) = v := Int.bmod_eq_of_le (by omega) (by omega)
  have hcast : ((asU64 v : Nat) : Int) = v + ((2 ^ 32 : Nat) : Int) * (if v < 0 then 2 ^ 32 else 0) := by
    unfold asU64
    split_ifs <;> omega
  show some (Protobuf.Value.int32 (((asU64 (v.bmod (2 ^ 64)) : Nat) : Int).bmod (2 ^ 32))) = _
  rw [hv, hcast, Int.add_mul_bmod_self_left, Int.bmod_eq_of_le (by omega) (by omega)]

theorem read_double (x : Ieee.Double) :
    FieldType.double.read (.fixed64 (bigEndian 8 x.toNat).reverse) = some (.double x.toNat) := by
  show some (Protobuf.Value.double (natOf (bigEndian 8 x.toNat).reverse.reverse)) = _
  rw [List.reverse_reverse, natOf_bigEndian_of_lt (Nat.lt_of_lt_of_le x.toNat_lt (by decide))]

theorem read_string (s : String) : FieldType.string.read (.len (utf8Bytes s)) = some (.string s) := by
  show (String.fromUTF8? ⟨s.toByteArray.data.toList.toArray⟩).map Protobuf.Value.string = _
  rw [Array.toArray_toList]
  show (String.fromUTF8? s.toByteArray).map Protobuf.Value.string = _
  unfold String.fromUTF8?
  rw [dif_pos s.isValidUTF8]
  rfl

/-! ### The lengths of the texts -/

theorem utf8Bytes_length (s : String) : (utf8Bytes s).length = s.utf8ByteSize := by
  unfold utf8Bytes
  rw [Array.length_toList]
  rfl

theorem utf8Bytes_ofList_le (cs : List Char) : (utf8Bytes (String.ofList cs)).length ≤ 4 * cs.length := by
  rw [utf8Bytes_length, String.utf8ByteSize_ofList]
  induction cs with
  | nil => exact Nat.zero_le _
  | cons c cs ih =>
    have hsize := c.utf8Size_le_four
    rw [String.utf8Len, List.length_cons]
    omega

theorem isoYear_length_le {year : Int} (h : year.natAbs < 10 ^ 9) : (Civil.isoYear year).length ≤ 10 := by
  have hdigits := Nat.toDigits_length 10 year.natAbs 9 (by decide) h
  unfold Civil.isoYear
  by_cases hfour : 0 ≤ year ∧ year ≤ 9999
  · rw [if_pos hfour, Civil.pad_length]
    decide
  · rw [if_neg hfour, List.length_cons]
    split_ifs
    · rw [Civil.pad_length]
      decide
    · omega

theorem dateTimeText_length_le {n : Int} (h : Represented (n / dayMicros)) (c : Char) :
    (dateTimeText c n).length ≤ 40 := by
  obtain ⟨hlow, hhigh⟩ := minYear_le_of_represented h
  have hyear : (Civil.ofDay (n / dayMicros)).year.natAbs < 10 ^ 9 := by
    unfold Civil.minYear at hlow
    unfold Civil.maxYear at hhigh
    omega
  have hlength := isoYear_length_le hyear
  unfold dateTimeText timeText Civil.isoText
  simp only [List.length_append, List.length_cons, Civil.pad_length]
  omega

theorem decimal128ToString_length_le {value scale : Int} (hvalue : -2 ^ 127 ≤ value ∧ value < 2 ^ 127)
    (hscale : -2 ^ 7 ≤ scale ∧ scale ≤ 38) : (utf8Bytes (decimal128ToString value scale)).length ≤ 1000 := by
  have hdigits : (toString value.natAbs).toList.length ≤ 39 := by
    have := Nat.toDigits_length 10 value.natAbs 39 (by decide) (by omega)
    rwa [← digitsOf_chars, List.length_map, digitsOf, List.length_map]
  unfold decimal128ToString
  refine (utf8Bytes_ofList_le _).trans ?_
  dsimp only
  split_ifs <;>
    first
    | omega
    | (simp only [List.length_append, List.length_cons, List.length_replicate, List.length_take, List.length_drop]
       omega)

/-! ### A cell -/

/-- The value that a decoder reads is the cell's. -/
def Denotes (t : ArrowType) (c : Cell) (r : Protobuf.Value) : Prop :=
  match c with
  | ⟨.boolean, b⟩ => r = .bool b
  | ⟨.int8, v⟩ | ⟨.int16, v⟩ | ⟨.int32, v⟩ | ⟨.int64, v⟩ => r = .int64 v.val
  | ⟨.uint8, v⟩ | ⟨.uint16, v⟩ | ⟨.uint32, v⟩ | ⟨.uint64, v⟩ => r = .int64 v.val
  | ⟨.float32, x⟩ => ∃ y : Ieee.Double, y.value = Ieee.Bits.value x ∧ r = .double y.toNat
  | ⟨.float64, x⟩ => r = .double (Ieee.Bits.toNat x)
  | ⟨.utf8, s⟩ => r = .string s.val
  | ⟨.binary, bs⟩ => r = .bytes bs.val
  | ⟨.date32, days⟩ => r = .int32 days.val
  | ⟨.timestampMicros, micros⟩ =>
    match t with
    | .timestamp (some _) => r = .int64 micros.val
    | _ => ∃ s, r = .string s ∧ readNaive (dateTime (.oneOf ['T'])) s.toList = some micros.val
  | ⟨.decimal128, v⟩ =>
    ∃ (d : DecimalType) (x : Numeral), t = .decimal128 d ∧ r = .string x.text ∧
      x.value = (v.val : ℚ) * 10 ^ (-d.scale)

/-- An unsigned number that BigQuery's integers hold. -/
def InRange : Cell → Prop
  | ⟨.uint64, v⟩ => v.val < 2 ^ 63
  | _ => True

theorem downcast_eq_ok {want : ArrayKind} {c : Cell} {v : want.Value} (h : downcast want c = .ok v) : c = ⟨want, v⟩ := by
  obtain ⟨kind, value⟩ := c
  unfold downcast at h
  split_ifs at h with hkind
  subst hkind
  rw [← Except.ok.inj h]

theorem readNaive_timestampMicrosToIso {micros : Int} {s : String} (h : timestampMicrosToIso micros false = .ok s) :
    readNaive (dateTime (.oneOf ['T'])) s.toList = some micros ∧ (utf8Bytes s).length ≤ 160 := by
  unfold timestampMicrosToIso at h
  by_cases hrange : Represented (micros / 1000000 / 86400)
  · rw [if_pos hrange, if_neg Bool.false_ne_true, List.append_nil] at h
    obtain rfl := Except.ok.inj h
    have hday : micros / 1000000 / 86400 = micros / dayMicros := by
      unfold dayMicros
      omega
    rw [hday] at hrange
    have hread := @readItems_dateTimeText (.oneOf ['T']) 'T' (Item.reads_oneOf (List.mem_singleton_self 'T')) micros [] nofun
    rw [List.append_nil] at hread
    refine ⟨?_, (utf8Bytes_ofList_le _).trans (Nat.mul_le_mul_left 4 (dateTimeText_length_le hrange 'T'))⟩
    unfold readNaive TimeFormat.read
    rw [String.toList_ofList, hread]
    exact naive_fields hrange
  · rw [if_neg hrange] at h
    cases h

/-- A field as the descriptor's type reads it: the cell's value. -/
structure Carries (t : ArrowType) (c : Cell) (f : Protobuf.Field) (r : Protobuf.Value) : Prop where
  fits : f.payload.Fits
  read : (arrowProtoType t).read f.payload = some r
  denotes : Denotes t c r

section

variable (nan : Ieee.Single → Ieee.Nan) {fe : FieldEnc} {number : Nat} (hnumber : fe.number = number)
  (hlt : number < 2 ^ 29) {c : Cell} {buf buf' : Bytes}

theorem map_downcast_eq_ok {want : ArrayKind} {f : want.Value → Bytes} (h : (downcast want c).map f = .ok buf') :
    ∃ v : want.Value, c = ⟨want, v⟩ ∧ buf' = f v := by
  obtain ⟨v, hv, rfl⟩ := Results.map_eq_ok.mp h
  exact ⟨v, downcast_eq_ok hv, rfl⟩

include hlt hnumber

theorem encodeInt_carries {want : ArrayKind} {value : want.Value → Int} {t : ArrowType} {r : Int → Protobuf.Value}
    (h : encodeInt want value c fe.number buf = .ok buf')
    (hread : ∀ v : want.Value, c = ⟨want, v⟩ →
      (arrowProtoType t).read (.varint (asU64 ((value v).bmod (2 ^ 64)))) = some (r (value v)))
    (hdenotes : ∀ v : want.Value, Denotes t ⟨want, v⟩ (r (value v))) :
    ∃ f r, f.number = number ∧ buf' = buf ++ f.bytes ∧ Carries t c f r := by
  obtain ⟨v, hc, rfl⟩ := map_downcast_eq_ok h
  have hvalue := hread v hc
  subst hc
  exact ⟨⟨number, .varint (asU64 ((value v).bmod (2 ^ 64)))⟩, _, rfl, by rw [hnumber, writeInt_eq hlt],
    ⟨asU64_lt _, hvalue, hdenotes v⟩⟩

/-- What a cell writes is one field, which carries its value. -/
theorem encodeCell_carries {t : ArrowType} {scale : ScaleFits t} (htype : fe.dataType = .arrow t scale)
    (hrange : InRange c) (h : encodeCell nan fe c buf = .ok buf') :
    ∃ f r, f.number = number ∧ buf' = buf ++ f.bytes ∧ Carries t c f r := by
  unfold encodeCell at h
  rw [htype] at h
  dsimp only at h
  unfold encodeArrow at h
  cases t with
  | boolean =>
    obtain ⟨b, hv, rfl⟩ := Results.map_eq_ok.mp h
    obtain rfl := downcast_eq_ok hv
    refine ⟨⟨number, .varint (Bool.toNat b)⟩, .bool b, rfl, by rw [hnumber, writeVarint_eq hlt], ⟨?_, ?_, rfl⟩⟩
    · show Bool.toNat b < 2 ^ 64
      cases b <;> decide
    · cases b <;> rfl
  | int8 => exact encodeInt_carries hnumber hlt h (fun v _ => read_int64 (by have := v.2; omega)) fun v => rfl
  | int16 => exact encodeInt_carries hnumber hlt h (fun v _ => read_int64 (by have := v.2; omega)) fun v => rfl
  | int32 => exact encodeInt_carries hnumber hlt h (fun v _ => read_int64 (by have := v.2; omega)) fun v => rfl
  | int64 => exact encodeInt_carries hnumber hlt h (fun v _ => read_int64 (by have := v.2; omega)) fun v => rfl
  | uint8 => exact encodeInt_carries hnumber hlt h (fun v _ => read_int64 (by have := v.2; omega)) fun v => rfl
  | uint16 => exact encodeInt_carries hnumber hlt h (fun v _ => read_int64 (by have := v.2; omega)) fun v => rfl
  | uint32 => exact encodeInt_carries hnumber hlt h (fun v _ => read_int64 (by have := v.2; omega)) fun v => rfl
  | uint64 =>
    refine encodeInt_carries hnumber hlt h (fun v hc => read_int64 ?_) fun v => rfl
    subst hc
    have hlow := v.2.1
    exact ⟨by omega, hrange⟩
  | float32 =>
    obtain ⟨x, hv, rfl⟩ := Results.map_eq_ok.mp h
    obtain rfl := downcast_eq_ok hv
    refine ⟨⟨number, .fixed64 _⟩, .double (Ieee.widen nan x).toNat, rfl, by rw [hnumber, writeDouble_eq hlt],
      ⟨?_, read_double _, ?_⟩⟩
    · exact List.length_reverse.trans (bigEndian_length _ _)
    · exact ⟨Ieee.widen nan x, Ieee.widen_value nan x, rfl⟩
  | float64 =>
    obtain ⟨x, hv, rfl⟩ := Results.map_eq_ok.mp h
    obtain rfl := downcast_eq_ok hv
    refine ⟨⟨number, .fixed64 _⟩, .double (Ieee.Bits.toNat x), rfl, by rw [hnumber, writeDouble_eq hlt],
      ⟨?_, read_double _, rfl⟩⟩
    exact List.length_reverse.trans (bigEndian_length _ _)
  | utf8 =>
    obtain ⟨s, rfl, rfl⟩ := map_downcast_eq_ok h
    refine ⟨⟨number, .len (utf8Bytes s.val)⟩, .string s.val, rfl, by rw [hnumber, writeLen_eq hlt],
      ⟨?_, read_string _, rfl⟩⟩
    have hsize := s.2
    show (utf8Bytes s.val).length < 2 ^ 64
    rw [utf8Bytes_length]
    omega
  | binary =>
    obtain ⟨bs, rfl, rfl⟩ := map_downcast_eq_ok h
    refine ⟨⟨number, .len bs.val⟩, .bytes bs.val, rfl, by rw [hnumber, writeLen_eq hlt], ⟨?_, rfl, rfl⟩⟩
    have hsize := bs.2
    show bs.val.length < 2 ^ 64
    omega
  | date32 => exact encodeInt_carries hnumber hlt h (fun v _ => read_int32 (by have := v.2; omega)) fun v => rfl
  | timestamp tz =>
    cases tz with
    | some tz => exact encodeInt_carries hnumber hlt h (fun v _ => read_int64 (by have := v.2; omega)) fun v => rfl
    | none =>
      obtain ⟨v, hv, hrest⟩ := Results.bind_eq_ok.mp h
      obtain ⟨s, hs, hbuf⟩ := Results.bind_eq_ok.mp hrest
      obtain rfl := downcast_eq_ok hv
      obtain rfl := Except.ok.inj hbuf
      obtain ⟨hread, hlength⟩ := readNaive_timestampMicrosToIso (Results.mapError_eq_ok.mp hs)
      refine ⟨⟨number, .len (utf8Bytes s)⟩, .string s, rfl, by rw [hnumber, writeLen_eq hlt],
        ⟨?_, read_string _, s, rfl, hread⟩⟩
      show (utf8Bytes s).length < 2 ^ 64
      omega
  | decimal128 d =>
    obtain ⟨v, rfl, rfl⟩ := map_downcast_eq_ok h
    refine ⟨⟨number, .len _⟩, .string (decimal128ToString v.val d.scale), rfl, by rw [hnumber, writeLen_eq hlt],
      ⟨?_, read_string _, ?_⟩⟩
    · have hlength := decimal128ToString_length_le v.2 ⟨scale, d.valid.2.2.1⟩
      show (utf8Bytes (decimal128ToString v.val d.scale)).length < 2 ^ 64
      omega
    · exact ⟨d, rendered v.val d.scale, rfl, by rw [rendered_text], rendered_value v.val d.scale⟩

end

/-! ### A row -/

/-- A cell that is not NULL, with the number and the type of its column. -/
structure PresentCell where
  number : Nat
  dataType : DataType
  cell : Cell

/-- The cell of the `i`-th column. -/
def presentCell (batch : RecordBatch) (row : Fin batch.rows) (f : SchemaField × Nat) : Option PresentCell :=
  (batch.columns[f.2]?.bind fun col => col.cell row).map fun c => ⟨f.2 + 1, f.1.dataType, c⟩

def presentCells (schema : List SchemaField) (batch : RecordBatch) (row : Fin batch.rows) : List PresentCell :=
  schema.zipIdx.filterMap (presentCell batch row)

/-- The field of a message is the cell's. -/
def Decodes (c : PresentCell) (r : Nat × Protobuf.Value) : Prop :=
  r.1 = c.number ∧ ∃ t scale, c.dataType = .arrow t scale ∧ Denotes t c.cell r.2

/-- What a field of the schema becomes. -/
structure Resolved (f : SchemaField × Nat) (fe : FieldEnc) : Prop where
  name : fe.name = f.1.name
  number : fe.number = ((f.2 + 1 : Nat) : Int)
  dataType : fe.dataType = f.1.dataType
  supported : ∃ t scale, f.1.dataType = .arrow t scale

theorem resolveFields_resolved {schema : List SchemaField} {fields : List FieldEnc} (hcount : schema.length < 2 ^ 29)
    (h : resolveFields schema = .ok fields) : List.Forall₂ Resolved schema.zipIdx fields := by
  have hall := Results.forall₂_of_mapM_eq_ok h
  have hlt : ∀ f ∈ schema.zipIdx, f.2 + 1 < 2 ^ 30 := by
    intro f hf
    obtain ⟨-, hindex, -⟩ := List.mem_zipIdx hf
    omega
  clear h
  generalize schema.zipIdx = fs at hall hlt
  induction hall with
  | nil => exact .nil
  | @cons f fe fs fields hf _ ih =>
    refine .cons ?_ (ih fun g hg => hlt g (List.mem_cons_of_mem _ hg))
    obtain ⟨t, ht, rfl⟩ := Results.map_eq_ok.mp hf
    have hnumber := hlt f List.mem_cons_self
    refine ⟨rfl, ?_, rfl, ?_⟩
    · have := asI32_eq (x := (f.2 : Int) + 1) (by unfold InI32 i32Min i32Max; omega)
      rw [this]
      push_cast
      rfl
    · cases htype : f.1.dataType with
      | arrow t scale => exact ⟨t, scale, rfl⟩
      | other debug =>
        rw [htype] at ht
        cases ht

/-- The fields on the wire, what a decoder reads from them, and the cells they come from. -/
structure Written (fs : List (SchemaField × Nat)) (cells : List PresentCell) (wire : List Protobuf.Field)
    (read : List (Nat × Protobuf.Value)) : Prop where
  fits : ∀ w ∈ wire, w.Fits
  decodes : List.Forall₂ Decodes cells read
  typed : List.Forall₂ (fun w r => w.number = r.1 ∧ ∃ f ∈ fs, r.1 = f.2 + 1 ∧ ∃ t scale, f.1.dataType = .arrow t scale ∧
    (arrowProtoType t).read w.payload = some r.2) wire read

theorem Written.weaken {fs : List (SchemaField × Nat)} {cells : List PresentCell} {wire : List Protobuf.Field}
    {read : List (Nat × Protobuf.Value)} (h : Written fs cells wire read) (f : SchemaField × Nat) :
    Written (f :: fs) cells wire read := by
  refine ⟨h.fits, h.decodes, h.typed.imp ?_⟩
  rintro w r ⟨hnumber, g, hg, hrest⟩
  exact ⟨hnumber, g, List.mem_cons_of_mem _ hg, hrest⟩

theorem encodeRow_written (nan : Ieee.Single → Ieee.Nan) {batch : RecordBatch} {row : Fin batch.rows}
    (hrange : ∀ col ∈ batch.columns, ∀ c, col.cell row = some c → InRange c) {fs : List (SchemaField × Nat)}
    {fields : List FieldEnc} (hfields : List.Forall₂ Resolved fs fields) (hlt : ∀ f ∈ fs, f.2 + 1 < 2 ^ 29)
    {buf bytes : Bytes} (h : encodeRow nan batch row fields buf = .ok bytes) :
    ∃ wire read, bytes = buf ++ wire.flatMap Protobuf.Field.bytes ∧
      Written fs (fs.filterMap (presentCell batch row)) wire read := by
  unfold encodeRow at h
  induction hfields generalizing buf with
  | nil =>
    obtain rfl := Except.ok.inj h
    exact ⟨[], [], (List.append_nil _).symm, ⟨nofun, .nil, .nil⟩⟩
  | @cons f fe fs fields hf _ ih =>
    rw [List.foldlM_cons] at h
    obtain ⟨buf', hfield, hrest⟩ := Results.bind_eq_ok.mp h
    obtain ⟨wire, read, hbytes, hwritten⟩ := ih (fun g hg => hlt g (List.mem_cons_of_mem _ hg)) hrest
    have hnumber := hlt f List.mem_cons_self
    unfold encodeField at hfield
    obtain ⟨col, hcol, hcell⟩ := Results.bind_eq_ok.mp hfield
    have hindex : asU64 (fe.number - 1) = f.2 := by
      rw [hf.number]
      unfold asU64
      omega
    have hcolumn : batch.columns[f.2]? = some col := by
      rw [hindex] at hcol
      unfold index at hcol
      cases hget : batch.columns[f.2]? with
      | none =>
        rw [hget] at hcol
        cases hcol
      | some c =>
        rw [hget] at hcol
        rw [← Except.ok.inj hcol]
    cases hnull : col.cell row with
    | none =>
      rw [hnull] at hcell
      obtain rfl := Except.ok.inj hcell
      have hpresent : presentCell batch row f = none := by
        unfold presentCell
        rw [hcolumn, Option.bind_some, hnull]
        rfl
      rw [List.filterMap_cons_none hpresent]
      exact ⟨wire, read, hbytes, hwritten.weaken f⟩
    | some c =>
      rw [hnull] at hcell
      have hpresent : presentCell batch row f = some ⟨f.2 + 1, f.1.dataType, c⟩ := by
        unfold presentCell
        rw [hcolumn, Option.bind_some, hnull]
        rfl
      obtain ⟨t, scale, htype⟩ := hf.supported
      obtain ⟨w, r, hw, rfl, hcarries⟩ := encodeCell_carries nan hf.number hnumber (hf.dataType.trans htype)
        (hrange col (List.mem_of_getElem? hcolumn) c hnull) hcell
      rw [List.filterMap_cons_some hpresent]
      refine ⟨w :: wire, (f.2 + 1, r) :: read, ?_, ⟨?_, ?_, ?_⟩⟩
      · rw [hbytes, List.flatMap_cons, List.append_assoc]
      · intro v hv
        rcases List.mem_cons.mp hv with rfl | hv
        · exact ⟨⟨by omega, by omega⟩, hcarries.fits⟩
        · exact hwritten.fits v hv
      · exact .cons ⟨rfl, t, scale, htype, hcarries.denotes⟩ hwritten.decodes
      · exact .cons ⟨hw, f, List.mem_cons_self, rfl, t, scale, htype, hcarries.read⟩ (hwritten.weaken f).typed

/-- A field of the schema and what describes it. -/
def Describes (f : SchemaField × Nat) (d : FieldDescriptor) : Prop :=
  d.name = f.1.name ∧ d.number = ((f.2 + 1 : Nat) : Int) ∧ protoTypeFor f.1.dataType = .ok d.type

theorem find_described {fs : List (SchemaField × Nat)} {ds : List FieldDescriptor}
    (h : List.Forall₂ Describes fs ds) (hnodup : (fs.map Prod.snd).Nodup) {f : SchemaField × Nat} (hf : f ∈ fs) :
    ∃ d, ds.find? (fun d => d.number = ((f.2 + 1 : Nat) : Int)) = some d ∧ Describes f d := by
  induction h with
  | nil => cases hf
  | @cons g d fs ds hg _ ih =>
    rw [List.map_cons, List.nodup_cons] at hnodup
    rcases List.mem_cons.mp hf with rfl | hf
    · exact ⟨d, List.find?_cons_of_pos (decide_eq_true hg.2.1), hg⟩
    · have hne : ¬d.number = ((f.2 + 1 : Nat) : Int) := by
        rw [hg.2.1]
        intro heq
        have hsame : g.2 = f.2 := by omega
        exact hnodup.1 (hsame ▸ List.mem_map_of_mem hf)
      rw [List.find?_cons_of_neg (by simpa using hne)]
      exact ih hnodup.2 hf

/-- The descriptor gives each column its type. -/
theorem buildProtoDescriptor_typeOf {schema : List SchemaField} {fields : List FieldEnc}
    (h : List.Forall₂ Resolved schema.zipIdx fields) :
    ∃ d, buildProtoDescriptor fields = .ok d ∧ ∀ f ∈ schema.zipIdx, ∀ t scale, f.1.dataType = .arrow t scale →
      d.typeOf (f.2 + 1) = some (arrowProtoType t) := by
  have hdescribes : ∀ {fs : List (SchemaField × Nat)} {fes : List FieldEnc}, List.Forall₂ Resolved fs fes →
      ∃ ds, fes.mapM (fun fe => (protoTypeFor fe.dataType).map fun t =>
        (⟨fe.name, fe.number, .optional, t⟩ : FieldDescriptor)) = .ok ds ∧ List.Forall₂ Describes fs ds := by
    intro fs fes hall
    induction hall with
    | nil => exact ⟨[], rfl, .nil⟩
    | @cons f fe fs fes hf _ ih =>
      obtain ⟨ds, hds, hrest⟩ := ih
      obtain ⟨t, scale, htype⟩ := hf.supported
      refine ⟨⟨fe.name, fe.number, .optional, arrowProtoType t⟩ :: ds, ?_, .cons ⟨hf.name, hf.number, ?_⟩ hrest⟩
      · rw [List.mapM_cons, hf.dataType, htype, hds]
        rfl
      · rw [htype]
        rfl
  obtain ⟨ds, hds, hall⟩ := hdescribes h
  refine ⟨⟨"QuickhouseRow", ds⟩, ?_, ?_⟩
  · unfold buildProtoDescriptor
    rw [hds]
    rfl
  · intro f hf t scale htype
    have hnodup : (schema.zipIdx.map Prod.snd).Nodup := by
      rw [List.zipIdx_map_snd]
      exact List.nodup_range'
    obtain ⟨d, hfind, -, -, hd⟩ := find_described hall hnodup hf
    rw [htype] at hd
    unfold Descriptor.typeOf
    rw [hfind, Option.map_some, ← Except.ok.inj hd]

/-- A decoder with the descriptor of the schema reads one field for each cell that is not NULL, with its value. -/
theorem proto_rows_decode_back (nan : Ieee.Single → Ieee.Nan) {schema : List SchemaField}
    (hcount : schema.length < 2 ^ 29) {fields : List FieldEnc} (hfields : resolveFields schema = .ok fields)
    (batch : RecordBatch) (row : Fin batch.rows)
    (hrange : ∀ col ∈ batch.columns, ∀ c, col.cell row = some c → InRange c) {bytes : Bytes}
    (hencode : encodeRow nan batch row fields [] = .ok bytes) :
    ∃ descriptor read, buildProtoDescriptor fields = .ok descriptor ∧ decode descriptor bytes = some read ∧
      List.Forall₂ Decodes (presentCells schema batch row) read := by
  have hresolved := resolveFields_resolved hcount hfields
  have hlt : ∀ f ∈ schema.zipIdx, f.2 + 1 < 2 ^ 29 := by
    intro f hf
    obtain ⟨-, hindex, -⟩ := List.mem_zipIdx hf
    omega
  obtain ⟨wire, read, hbytes, hwritten⟩ := encodeRow_written nan hrange hresolved hlt hencode
  obtain ⟨d, hd, htypes⟩ := buildProtoDescriptor_typeOf hresolved
  refine ⟨d, read, hd, ?_, hwritten.decodes⟩
  rw [hbytes, List.nil_append]
  refine decode_bytes hwritten.fits (hwritten.typed.imp ?_)
  rintro w r ⟨hnumber, f, hf, hr, t, scale, htype, hread⟩
  refine ⟨hnumber, _, ?_, hread⟩
  rw [hnumber, hr]
  exact htypes f hf t scale htype

def idAtNote : List SchemaField := [⟨"id", .arrow .int64 trivial⟩, ⟨"at", .arrow (.timestamp none) trivial⟩,
  ⟨"note", .arrow .utf8 trivial⟩]

/-- The number minus one, a second after 1970, and no note. -/
def minusOne : RecordBatch where
  rows := 1
  columns := [⟨.int64, fun _ => some ⟨-1, by decide⟩⟩, ⟨.timestampMicros, fun _ => some ⟨1000000, by decide⟩⟩,
    ⟨.utf8, fun _ => none⟩]

theorem quietNan_exponent_lt : 2047 < 2 ^ 11 := by decide

theorem quietNan_fraction_lt : 2 ^ 51 < 2 ^ 52 := by decide

def quietNan : Ieee.Double := ⟨false, 2047, 2 ^ 51, quietNan_exponent_lt, quietNan_fraction_lt⟩

theorem quietNan_value : quietNan.value = .nan := by
  unfold Ieee.Bits.value
  rw [if_pos (by decide), if_neg (by decide)]

theorem minusOne_decodes_back :
    ∃ fields bytes descriptor read, resolveFields idAtNote = .ok fields ∧
      encodeRow (fun _ => ⟨quietNan, quietNan_value⟩) minusOne ⟨0, Nat.one_pos⟩ fields [] = .ok bytes ∧
      buildProtoDescriptor fields = .ok descriptor ∧ decode descriptor bytes = some read ∧
      List.Forall₂ Decodes (presentCells idAtNote minusOne ⟨0, Nat.one_pos⟩) read := by
  have hfields : resolveFields idAtNote = .ok [⟨"id", 1, .arrow .int64 trivial⟩,
      ⟨"at", 2, .arrow (.timestamp none) trivial⟩, ⟨"note", 3, .arrow .utf8 trivial⟩] := by decide +kernel
  have hencode : encodeRow (fun _ => ⟨quietNan, quietNan_value⟩) minusOne ⟨0, Nat.one_pos⟩ [⟨"id", 1, .arrow .int64 trivial⟩,
      ⟨"at", 2, .arrow (.timestamp none) trivial⟩, ⟨"note", 3, .arrow .utf8 trivial⟩] [] =
      .ok ([8] ++ List.replicate 9 255 ++ [1] ++ [18, 26] ++ utf8Bytes "1970-01-01T00:00:01.000000") := by
    decide +kernel
  have hrange : ∀ col ∈ minusOne.columns, ∀ c, col.cell ⟨0, Nat.one_pos⟩ = some c → InRange c := by
    intro col hcol c hc
    rcases List.mem_cons.mp hcol with rfl | hcol
    · cases hc
      trivial
    · rcases List.mem_cons.mp hcol with rfl | hcol
      · cases hc
        trivial
      · obtain rfl := List.mem_singleton.mp hcol
        cases hc
  obtain ⟨d, read, hd, hread, hall⟩ := proto_rows_decode_back _ (by decide) hfields minusOne _ hrange hencode
  exact ⟨_, _, d, read, hfields, hencode, hd, hread, hall⟩

end Quickhouse.BigQueryProto
