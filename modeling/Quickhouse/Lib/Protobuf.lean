import Mathlib.Data.List.Forall2
import Quickhouse.Lib.Wire

/-!
# Protobuf messages

A message is a run of fields, each a tag and a payload.  `readFields` takes it apart without knowing a type, and `decode`
reads the fields that a descriptor names.  What `Field.bytes` writes is read back field by field (`readFields_bytes`), so
that nothing of one field is taken for another's (`decode_bytes`).
-/

namespace Protobuf

open Wire

/-! ### Numbers -/

/-- Seven bits a byte, the lowest first; all bytes but the last have the high bit. -/
def varint (n : Nat) : Bytes :=
  if n < 128 then [UInt8.ofNat n] else UInt8.ofNat (n % 128 + 128) :: varint (n / 128)
termination_by n
decreasing_by omega

def readVarintIn : Nat → Bytes → Option (Nat × Bytes)
  | 0, _ => none
  | _ + 1, [] => none
  | k + 1, b :: bs =>
    if b.toNat < 128 then some (b.toNat, bs)
    else (readVarintIn k bs).map fun r => (b.toNat - 128 + 128 * r.1, r.2)

/-- Ten bytes at most, and 64 bits. -/
def readVarint (bs : Bytes) : Option (Nat × Bytes) := (readVarintIn 10 bs).filter fun r => r.1 < 2 ^ 64

theorem toNat_ofNat_of_lt {n : Nat} (h : n < 256) : (UInt8.ofNat n).toNat = n := by
  rw [UInt8.toNat_ofNat']
  exact Nat.mod_eq_of_lt h

theorem readVarintIn_varint {k n : Nat} (hn : n < 128 ^ (k + 1)) (rest : Bytes) :
    readVarintIn (k + 1) (varint n ++ rest) = some (n, rest) := by
  induction k generalizing n with
  | zero =>
    rw [pow_one] at hn
    rw [varint, if_pos hn, List.singleton_append, readVarintIn, toNat_ofNat_of_lt (by omega), if_pos hn]
  | succ k ih =>
    rw [varint]
    by_cases hsmall : n < 128
    · rw [if_pos hsmall, List.singleton_append, readVarintIn, toNat_ofNat_of_lt (by omega), if_pos hsmall]
    · have hdiv : n / 128 < 128 ^ (k + 1) := by
        rw [pow_succ] at hn
        exact Nat.div_lt_of_lt_mul (by omega)
      rw [if_neg hsmall, List.cons_append, readVarintIn, toNat_ofNat_of_lt (by omega), if_neg (by omega), ih hdiv,
        Option.map_some]
      dsimp only
      rw [Option.some.injEq, Prod.mk.injEq]
      exact ⟨by omega, rfl⟩

/-- A number of 64 bits is read back. -/
theorem readVarint_varint {n : Nat} (hn : n < 2 ^ 64) (rest : Bytes) : readVarint (varint n ++ rest) = some (n, rest) := by
  unfold readVarint
  rw [readVarintIn_varint (Nat.lt_of_lt_of_le hn (by decide))]
  exact if_pos (decide_eq_true hn)

theorem varint_ne_nil (n : Nat) : varint n ≠ [] := by
  rw [varint]
  split_ifs
  · exact List.cons_ne_nil _ _
  · exact List.cons_ne_nil _ _

/-! ### Fields -/

inductive Payload where
  | varint (n : Nat)
  | fixed64 (bs : Bytes)
  | len (bs : Bytes)
  | fixed32 (bs : Bytes)
  deriving DecidableEq

namespace Payload

def wireType : Payload → Nat
  | varint _ => 0
  | fixed64 _ => 1
  | len _ => 2
  | fixed32 _ => 5

def bytes : Payload → Bytes
  | varint n => Protobuf.varint n
  | fixed64 bs | fixed32 bs => bs
  | len bs => Protobuf.varint bs.length ++ bs

/-- The format can carry it. -/
def Fits : Payload → Prop
  | varint n => n < 2 ^ 64
  | fixed64 bs => bs.length = 8
  | len bs => bs.length < 2 ^ 64
  | fixed32 bs => bs.length = 4

end Payload

structure Field where
  number : Nat
  payload : Payload
  deriving DecidableEq

/-- Field numbers are positive, and the tag has 32 bits. -/
def Field.Fits (f : Field) : Prop := (1 ≤ f.number ∧ f.number < 2 ^ 29) ∧ f.payload.Fits

def Field.tag (f : Field) : Nat := f.number * 8 + f.payload.wireType

def Field.bytes (f : Field) : Bytes := varint f.tag ++ f.payload.bytes

/-- So many bytes, and what follows. -/
def readBytes (n : Nat) (bs : Bytes) : Option (Bytes × Bytes) :=
  if n ≤ bs.length then some (bs.take n, bs.drop n) else none

/-- The payload of a wire type; groups are not read. -/
def readPayload (wireType : Nat) (bs : Bytes) : Option (Payload × Bytes) :=
  match wireType with
  | 0 => (readVarint bs).map fun r => (.varint r.1, r.2)
  | 1 => (readBytes 8 bs).map fun r => (.fixed64 r.1, r.2)
  | 2 => (readVarint bs).bind fun n => (readBytes n.1 n.2).map fun r => (.len r.1, r.2)
  | 5 => (readBytes 4 bs).map fun r => (.fixed32 r.1, r.2)
  | _ => none

def readField (bs : Bytes) : Option (Field × Bytes) :=
  (readVarint bs).bind fun t =>
    if 8 ≤ t.1 ∧ t.1 < 2 ^ 32 then (readPayload (t.1 % 8) t.2).map fun r => (⟨t.1 / 8, r.1⟩, r.2) else none

def readFieldsIn : Nat → Bytes → Option (List Field)
  | _, [] => some []
  | 0, _ :: _ => none
  | k + 1, b :: bs => (readField (b :: bs)).bind fun r => (readFieldsIn k r.2).map (r.1 :: ·)

/-- All fields of a message. -/
def readFields (bs : Bytes) : Option (List Field) := readFieldsIn bs.length bs

theorem readBytes_append {n : Nat} {bs : Bytes} (h : bs.length = n) (rest : Bytes) :
    readBytes n (bs ++ rest) = some (bs, rest) := by
  unfold readBytes
  rw [if_pos (by rw [List.length_append]; omega), List.take_left' h, List.drop_left' h]

theorem readPayload_bytes {p : Payload} (h : p.Fits) (rest : Bytes) :
    readPayload p.wireType (p.bytes ++ rest) = some (p, rest) := by
  cases p with
  | varint n =>
    show (readVarint (varint n ++ rest)).map _ = _
    rw [readVarint_varint h]
    rfl
  | fixed64 bs =>
    show (readBytes 8 (bs ++ rest)).map _ = _
    rw [readBytes_append h]
    rfl
  | len bs =>
    show (readVarint (varint bs.length ++ bs ++ rest)).bind _ = _
    rw [List.append_assoc, readVarint_varint h, Option.bind_some, readBytes_append rfl]
    rfl
  | fixed32 bs =>
    show (readBytes 4 (bs ++ rest)).map _ = _
    rw [readBytes_append h]
    rfl

theorem Payload.wireType_lt (p : Payload) : p.wireType < 8 := by
  cases p <;> simp [wireType]

theorem readField_bytes {f : Field} (h : f.Fits) (rest : Bytes) : readField (f.bytes ++ rest) = some (f, rest) := by
  obtain ⟨⟨hpos, hlt⟩, hfits⟩ := h
  have hwire := f.payload.wireType_lt
  unfold readField Field.bytes
  rw [List.append_assoc, readVarint_varint (by unfold Field.tag; omega), Option.bind_some]
  dsimp only
  have htype : f.tag % 8 = f.payload.wireType := by
    unfold Field.tag
    omega
  have hnumber : f.tag / 8 = f.number := by
    unfold Field.tag
    omega
  rw [if_pos (by unfold Field.tag; omega), htype, hnumber, readPayload_bytes hfits]
  rfl

theorem Field.bytes_ne_nil (f : Field) : f.bytes ≠ [] := List.append_ne_nil_of_left_ne_nil (varint_ne_nil _) _

theorem readFieldsIn_bytes {fs : List Field} (h : ∀ f ∈ fs, f.Fits) {k : Nat} (hk : fs.length ≤ k) :
    readFieldsIn k (fs.flatMap Field.bytes) = some fs := by
  induction fs generalizing k with
  | nil =>
    rw [List.flatMap_nil]
    unfold readFieldsIn
    rfl
  | cons f fs ih =>
    obtain ⟨k, rfl⟩ : ∃ j, k = j + 1 := ⟨k - 1, by rw [List.length_cons] at hk; omega⟩
    rw [List.flatMap_cons]
    obtain ⟨b, bs, hbs⟩ := List.exists_cons_of_ne_nil (List.append_ne_nil_of_left_ne_nil f.bytes_ne_nil
      (fs.flatMap Field.bytes))
    rw [hbs, readFieldsIn, ← hbs, readField_bytes (h f List.mem_cons_self), Option.bind_some]
    dsimp only
    rw [ih (fun g hg => h g (List.mem_cons_of_mem _ hg)) (by rw [List.length_cons] at hk; omega)]
    rfl

theorem length_le_bytes (fs : List Field) : fs.length ≤ (fs.flatMap Field.bytes).length := by
  induction fs with
  | nil => exact Nat.zero_le _
  | cons f fs ih =>
    have hpos := List.length_pos_iff.mpr f.bytes_ne_nil
    rw [List.length_cons, List.flatMap_cons, List.length_append]
    omega

/-- A message is read back field by field. -/
theorem readFields_bytes {fs : List Field} (h : ∀ f ∈ fs, f.Fits) : readFields (fs.flatMap Field.bytes) = some fs :=
  readFieldsIn_bytes h (length_le_bytes fs)

/-! ### Types -/

inductive FieldType where
  | double
  | int64
  | int32
  | bool
  | string
  | bytes
  deriving DecidableEq, Repr

inductive Value where
  | bool (b : Bool)
  | int64 (v : Int)
  | int32 (v : Int)
  /-- A double by its 64 bits. -/
  | double (bits : Nat)
  | string (s : String)
  | bytes (bs : Bytes)
  deriving DecidableEq

/-- The value of a payload; none for a wire type that is not the field's. -/
def FieldType.read : FieldType → Payload → Option Value
  | .bool, .varint n => some (.bool (n ≠ 0))
  | .int64, .varint n => some (.int64 ((n : Int).bmod (2 ^ 64)))
  | .int32, .varint n => some (.int32 ((n : Int).bmod (2 ^ 32)))
  | .double, .fixed64 bs => some (.double (natOf bs.reverse))
  | .string, .len bs => (String.fromUTF8? ⟨bs.toArray⟩).map .string
  | .bytes, .len bs => some (.bytes bs)
  | _, _ => none

inductive Label where
  | optional
  | required
  | repeated
  deriving DecidableEq, Repr

structure FieldDescriptor where
  name : String
  number : Int
  label : Label
  type : FieldType
  deriving DecidableEq, Repr

structure Descriptor where
  name : String
  fields : List FieldDescriptor
  deriving DecidableEq, Repr

def Descriptor.typeOf (d : Descriptor) (number : Nat) : Option FieldType :=
  (d.fields.find? fun f => f.number = (number : Int)).map FieldDescriptor.type

/-- The fields that the descriptor knows, in the order of the message; the others are skipped. -/
def decode (d : Descriptor) (bs : Bytes) : Option (List (Nat × Value)) :=
  (readFields bs).bind fun fs =>
    (fs.filterMap fun f => (d.typeOf f.number).map fun t => (f.number, t.read f.payload)).mapM fun r =>
      r.2.map fun v => (r.1, v)

/-- A message decodes to the values of its fields. -/
theorem decode_bytes {d : Descriptor} {fs : List Field} (h : ∀ f ∈ fs, f.Fits) {vs : List (Nat × Value)}
    (hvalues : List.Forall₂ (fun f v => f.number = v.1 ∧ ∃ t, d.typeOf f.number = some t ∧ t.read f.payload = some v.2)
      fs vs) : decode d (fs.flatMap Field.bytes) = some vs := by
  unfold decode
  rw [readFields_bytes h, Option.bind_some]
  clear h
  induction hvalues with
  | nil => rfl
  | cons hv _ ih =>
    obtain ⟨hnumber, t, ht, hread⟩ := hv
    rw [List.filterMap_cons, ht, Option.map_some]
    dsimp only
    rw [List.mapM_cons, hread, Option.map_some, ih, hnumber]
    rfl

end Protobuf
