import Quickhouse.Lib.Chunks
import Quickhouse.Lib.Results
import Quickhouse.Source.CopyDecoder

/-!
# The framing of a COPY stream

What a stream is, read from its front without a buffer: a header, tuples of fields with their lengths, a trailer.  The
decoder over its buffer is this machine (`feedAll_eq`), so that it does not matter how the stream is cut.
-/

namespace Quickhouse

open Slices Wire Chunks Results

/-! ### Reading from the front -/

inductive HeaderRead where
  | more
  | refused
  /-- The length of the extension is negative. -/
  | negative
  | body (rest : Bytes)
  deriving DecidableEq, Repr

def readHeader (xs : Bytes) : HeaderRead :=
  if xs.length < 19 then .more
  else if xs.take 11 ≠ copySignature then .refused
  else
    let extLen := intOf ((xs.drop 15).take 4)
    if extLen < 0 then .negative
    else if xs.length < 19 + extLen.toNat then .more
    else .body (xs.drop (19 + extLen.toNat))

inductive FieldsRead where
  | more
  /-- The length of a field is negative, and not that of a NULL. -/
  | negative
  | all (fields : List (Option Bytes)) (rest : Bytes)
  deriving DecidableEq, Repr

/-- One field more in front. -/
def FieldsRead.cons (field : Option Bytes) : FieldsRead → FieldsRead
  | all fields rest => all (field :: fields) rest
  | read => read

def readFields : Nat → Bytes → FieldsRead
  | 0, xs => .all [] xs
  | n + 1, xs =>
    if xs.length < 4 then .more
    else
      let len := intOf (xs.take 4)
      if len = -1 then (readFields n (xs.drop 4)).cons none
      else if len < 0 then .negative
      else if xs.length < 4 + len.toNat then .more
      else (readFields n (xs.drop (4 + len.toNat))).cons (some ((xs.drop 4).take len.toNat))

inductive TupleRead where
  | more
  | trailer
  /-- The count of the fields is not that of the columns. -/
  | refused (count : Int)
  | negative
  | tuple (fields : List (Option Bytes)) (rest : Bytes)
  deriving DecidableEq, Repr

def FieldsRead.tuple : FieldsRead → TupleRead
  | more => .more
  | negative => .negative
  | all fields rest => .tuple fields rest

def readTuple (n : Nat) (xs : Bytes) : TupleRead :=
  if xs.length < 2 then .more
  else
    let count := intOf (xs.take 2)
    if count = -1 then .trailer
    else if (count % 2 ^ 64).toNat ≠ n then .refused count
    else (readFields n (xs.drop 2)).tuple

/-- Some tuple of the body has a negative length. -/
inductive NegativeLength (n : Nat) : Bytes → Prop
  | here {xs : Bytes} : readTuple n xs = .negative → NegativeLength n xs
  | later {xs rest : Bytes} {fields : List (Option Bytes)} :
    readTuple n xs = .tuple fields rest → NegativeLength n rest → NegativeLength n xs

/-- The stream has one, in its header or its body. -/
def NegativeFraming (n : Nat) (xs : Bytes) : Prop :=
  readHeader xs = .negative ∨ ∃ rest, readHeader xs = .body rest ∧ NegativeLength n rest

/-! ### The machine -/

section

variable {F : Type} (rt : PgRuntime F) (s : Sizes)

/-- The fields into the columns, from column `i` on. -/
def appendRow : List (Option Bytes) → Nat → CopyState F → Outcome EtlError (CopyState F)
  | [], _, c => pure c
  | field :: fields, i, c => do
    let c ← appendField rt s c i field
    appendRow fields (i + 1) c

/-- A tuple of `n` bytes. -/
def addRow (c : CopyState F) (fields : List (Option Bytes)) (n : Nat) :
    Outcome EtlError (CopyState F × List (Batch (PgValue F))) := do
  let c ← appendRow rt s fields 0 c
  countRow s c n

def fieldCountError (count : Int) (n : Nat) : EtlError :=
  .internal ("row has " ++ toString count ++ " field(s) but the resolved schema has " ++ toString n ++ " column(s)")

/-- One step of the decoder: the header, or a tuple, or the trailer. -/
def copyStep (c : CopyState F) (xs : Bytes) : Step (CopyState F) UInt8 (Batch (PgValue F)) (Stop EtlError) :=
  if c.headerDone then
    match readTuple c.oids.length xs with
    | .more => .more
    | .trailer => .halt { c with finished := true }
    | .refused count => .fail (.err (fieldCountError count c.oids.length))
    | .negative => .fail .panic
    | .tuple fields rest =>
      match addRow rt s c fields (xs.length - rest.length) with
      | .ok (c, batches) => .next c rest batches
      | .error e => .fail e
  else
    match readHeader xs with
    | .more => .more
    | .refused => .fail (.err (.internal "COPY stream did not start with the expected PGCOPY binary signature"))
    | .negative => .fail .panic
    | .body rest => .next { c with headerDone := true } rest []

end

/-! ### What is read is not changed by what follows -/

def HeaderRead.append : HeaderRead → Bytes → HeaderRead
  | body rest, ys => body (rest ++ ys)
  | read, _ => read

def FieldsRead.append : FieldsRead → Bytes → FieldsRead
  | all fields rest, ys => all fields (rest ++ ys)
  | read, _ => read

def TupleRead.append : TupleRead → Bytes → TupleRead
  | tuple fields rest, ys => tuple fields (rest ++ ys)
  | read, _ => read

theorem readHeader_append {xs : Bytes} (ys : Bytes) (h : readHeader xs ≠ .more) :
    readHeader (xs ++ ys) = (readHeader xs).append ys := by
  unfold readHeader at h ⊢
  by_cases hshort : xs.length < 19
  · rw [if_pos hshort] at h
    exact absurd rfl h
  rw [if_neg hshort] at h ⊢
  have hsignature : (xs ++ ys).take 11 = xs.take 11 := List.take_append_of_le_length (by omega)
  have hext : ((xs ++ ys).drop 15).take 4 = (xs.drop 15).take 4 := by
    rw [List.drop_append_of_le_length (by omega), List.take_append_of_le_length (by rw [List.length_drop]; omega)]
  rw [if_neg (by rw [List.length_append]; omega), hsignature, hext]
  by_cases hsig : xs.take 11 ≠ copySignature
  · rw [if_pos hsig, if_pos hsig]
    rfl
  rw [if_neg hsig] at h ⊢
  rw [if_neg hsig]
  dsimp only at h ⊢
  by_cases hneg : intOf ((xs.drop 15).take 4) < 0
  · rw [if_pos hneg, if_pos hneg]
    rfl
  rw [if_neg hneg] at h ⊢
  rw [if_neg hneg]
  by_cases hall : xs.length < 19 + (intOf ((xs.drop 15).take 4)).toNat
  · rw [if_pos hall] at h
    exact absurd rfl h
  · rw [if_neg hall, if_neg (by rw [List.length_append]; omega), List.drop_append_of_le_length (by omega)]
    rfl

theorem FieldsRead.cons_append (r : FieldsRead) (field : Option Bytes) (ys : Bytes) :
    (r.append ys).cons field = (r.cons field).append ys := by
  cases r <;> rfl

theorem FieldsRead.cons_ne_more {r : FieldsRead} {field : Option Bytes} (h : r.cons field ≠ .more) : r ≠ .more := by
  rintro rfl
  exact h rfl

theorem readFields_append {n : Nat} {xs : Bytes} (ys : Bytes) (h : readFields n xs ≠ .more) :
    readFields n (xs ++ ys) = (readFields n xs).append ys := by
  induction n generalizing xs with
  | zero => rfl
  | succ n ih =>
    unfold readFields at h ⊢
    by_cases hshort : xs.length < 4
    · rw [if_pos hshort] at h
      exact absurd rfl h
    rw [if_neg hshort] at h ⊢
    rw [if_neg (by rw [List.length_append]; omega), List.take_append_of_le_length (by omega)]
    dsimp only at h ⊢
    by_cases hnull : intOf (xs.take 4) = -1
    · rw [if_pos hnull] at h ⊢
      rw [if_pos hnull, List.drop_append_of_le_length (by omega), ih (FieldsRead.cons_ne_more h),
        FieldsRead.cons_append]
    rw [if_neg hnull] at h ⊢
    rw [if_neg hnull]
    by_cases hneg : intOf (xs.take 4) < 0
    · rw [if_pos hneg, if_pos hneg]
      rfl
    rw [if_neg hneg] at h ⊢
    rw [if_neg hneg]
    by_cases hall : xs.length < 4 + (intOf (xs.take 4)).toNat
    · rw [if_pos hall] at h
      exact absurd rfl h
    rw [if_neg hall] at h ⊢
    have hvalue : ((xs ++ ys).drop 4).take (intOf (xs.take 4)).toNat = (xs.drop 4).take (intOf (xs.take 4)).toNat := by
      rw [List.drop_append_of_le_length (by omega), List.take_append_of_le_length (by rw [List.length_drop]; omega)]
    rw [if_neg (by rw [List.length_append]; omega), hvalue, List.drop_append_of_le_length (by omega),
      ih (FieldsRead.cons_ne_more h), FieldsRead.cons_append]

theorem readTuple_append {n : Nat} {xs : Bytes} (ys : Bytes) (h : readTuple n xs ≠ .more) :
    readTuple n (xs ++ ys) = (readTuple n xs).append ys := by
  unfold readTuple at h ⊢
  by_cases hshort : xs.length < 2
  · rw [if_pos hshort] at h
    exact absurd rfl h
  rw [if_neg hshort] at h ⊢
  rw [if_neg (by rw [List.length_append]; omega), List.take_append_of_le_length (by omega)]
  dsimp only at h ⊢
  by_cases hend : intOf (xs.take 2) = -1
  · rw [if_pos hend, if_pos hend]
    rfl
  rw [if_neg hend] at h ⊢
  rw [if_neg hend]
  by_cases hcount : (intOf (xs.take 2) % 2 ^ 64).toNat ≠ n
  · rw [if_pos hcount, if_pos hcount]
    rfl
  rw [if_neg hcount] at h ⊢
  rw [if_neg hcount, List.drop_append_of_le_length (by omega)]
  have hsome : readFields n (xs.drop 2) ≠ .more := by
    intro hmore
    rw [hmore] at h
    exact h rfl
  rw [readFields_append ys hsome]
  cases readFields n (xs.drop 2) <;> rfl

/-! ### A tuple takes some bytes -/

theorem readFields_rest_le {n : Nat} {xs rest : Bytes} {fields : List (Option Bytes)}
    (h : readFields n xs = .all fields rest) : fields.length = n ∧ ∃ k, rest = xs.drop k := by
  induction n generalizing xs fields with
  | zero =>
    cases h
    exact ⟨rfl, 0, rfl⟩
  | succ n ih =>
    have hcons : ∀ {k : Nat} {field : Option Bytes}, (readFields n (xs.drop k)).cons field = .all fields rest →
        fields.length = n + 1 ∧ ∃ k, rest = xs.drop k := by
      intro k field hread
      cases hrest : readFields n (xs.drop k) with
      | more => rw [hrest] at hread; cases hread
      | negative => rw [hrest] at hread; cases hread
      | all fs r =>
        rw [hrest] at hread
        cases hread
        obtain ⟨hlength, j, rfl⟩ := ih hrest
        exact ⟨by rw [List.length_cons, hlength], k + j, by rw [List.drop_drop]⟩
    unfold readFields at h
    dsimp only at h
    split_ifs at h
    · exact hcons h
    · exact hcons h

theorem readHeader_eq_body {xs rest : Bytes} (h : readHeader xs = .body rest) : rest.length + 19 ≤ xs.length := by
  unfold readHeader at h
  dsimp only at h
  split_ifs at h with hshort
  cases h
  rw [List.length_drop]
  omega

theorem readTuple_eq_tuple {n : Nat} {xs rest : Bytes} {fields : List (Option Bytes)}
    (h : readTuple n xs = .tuple fields rest) :
    fields.length = n ∧ rest.length + 2 ≤ xs.length ∧ xs.drop (xs.length - rest.length) = rest := by
  unfold readTuple at h
  dsimp only at h
  split_ifs at h with hshort
  cases hfields : readFields n (xs.drop 2) with
  | more => rw [hfields] at h; cases h
  | negative => rw [hfields] at h; cases h
  | all fs r =>
    rw [hfields] at h
    cases h
    obtain ⟨hlength, k, rfl⟩ := readFields_rest_le hfields
    rw [List.drop_drop]
    refine ⟨hlength, ?_, ?_⟩
    · rw [List.length_drop]
      omega
    · rw [List.length_drop]
      by_cases hle : 2 + k ≤ xs.length
      · rw [Nat.sub_sub_self hle]
      · rw [List.drop_of_length_le (by omega), List.drop_of_length_le (by omega)]

/-! ### What a row leaves as it was -/

section

variable {F : Type} {rt : PgRuntime F} {s : Sizes}

/-- The columns are the same ones, and the decoder stands where it stood. -/
structure SamePlan (c c' : CopyState F) : Prop where
  fields : c'.fields = c.fields
  oids : c'.oids = c.oids
  kinds : c'.builders.map ArrayBuilder.kind = c.builders.map ArrayBuilder.kind
  headerDone : c'.headerDone = c.headerDone
  finished : c'.finished = c.finished
  batchRows : c'.batchRows = c.batchRows
  batchBytes : c'.batchBytes = c.batchBytes

theorem SamePlan.rfl {c : CopyState F} : SamePlan c c := ⟨Eq.refl _, Eq.refl _, Eq.refl _, Eq.refl _, Eq.refl _, Eq.refl _, Eq.refl _⟩

theorem SamePlan.trans {c c' c'' : CopyState F} (h : SamePlan c c') (h' : SamePlan c' c'') : SamePlan c c'' where
  fields := h'.fields.trans h.fields
  oids := h'.oids.trans h.oids
  kinds := h'.kinds.trans h.kinds
  headerDone := h'.headerDone.trans h.headerDone
  finished := h'.finished.trans h.finished
  batchRows := h'.batchRows.trans h.batchRows
  batchBytes := h'.batchBytes.trans h.batchBytes

theorem index_eq_ok {ε α : Type} {xs : List α} {i : Nat} {x : α} (h : (index xs i : Outcome ε α) = .ok x) :
    xs[i]? = some x := by
  unfold index at h
  cases hx : xs[i]? with
  | none => rw [hx] at h; cases h
  | some y =>
    rw [hx] at h
    cases h
    rfl

theorem map_kind_set {builders : List (ArrayBuilder F)} {i : Nat} {b : ArrayBuilder F} (h : builders[i]? = some b)
    (cell : Option (PgValue F)) :
    (builders.set i (b.push cell)).map ArrayBuilder.kind = builders.map ArrayBuilder.kind := by
  obtain ⟨hi, -⟩ := List.getElem?_eq_some_iff.mp h
  apply List.ext_getElem?
  intro j
  rw [List.getElem?_map, List.getElem?_map, List.getElem?_set]
  split_ifs with hij
  · subst hij
    rw [h]
    rfl
  · rfl

theorem ArrayBuilder.append_eq_ok {b b' : ArrayBuilder F} {cell : Option (PgValue F)} :
    b.append cell = .ok b' ↔ (b.push cell).Fits ∧ b' = b.push cell := by
  unfold ArrayBuilder.append
  split_ifs with h
  · constructor
    · intro hb
      cases hb
      exact ⟨h, rfl⟩
    · rintro ⟨-, rfl⟩
      rfl
  · exact iff_of_false nofun fun hb => h hb.1

theorem appendField_plan {c c' : CopyState F} {i : Nat} {field : Option Bytes}
    (h : appendField rt s c i field = .ok c') : SamePlan c c' := by
  obtain ⟨b, hb, h⟩ := bind_eq_ok.mp h
  have hbuilder := index_eq_ok hb
  cases field with
  | none =>
    obtain ⟨b', hpush, h⟩ := bind_eq_ok.mp h
    obtain ⟨-, rfl⟩ := ArrayBuilder.append_eq_ok.mp hpush
    cases h
    exact { SamePlan.rfl with kinds := map_kind_set hbuilder _ }
  | some bytes =>
    obtain ⟨oid, -, h⟩ := bind_eq_ok.mp h
    obtain ⟨named, -, h⟩ := bind_eq_ok.mp h
    obtain ⟨v, -, h⟩ := bind_eq_ok.mp h
    obtain ⟨b', hpush, h⟩ := bind_eq_ok.mp h
    obtain ⟨-, rfl⟩ := ArrayBuilder.append_eq_ok.mp hpush
    cases h
    exact { SamePlan.rfl with kinds := map_kind_set hbuilder _ }

theorem appendRow_plan {fields : List (Option Bytes)} {i : Nat} {c c' : CopyState F}
    (h : appendRow rt s fields i c = .ok c') : SamePlan c c' := by
  induction fields generalizing i c with
  | nil =>
    cases h
    exact .rfl
  | cons field fields ih =>
    obtain ⟨d, hfield, h⟩ := bind_eq_ok.mp h
    exact (appendField_plan hfield).trans (ih h)

theorem flushBatch_plan {c c' : CopyState F} {batch : Batch (PgValue F)} (h : flushBatch c = .ok (c', batch)) :
    SamePlan c c' := by
  obtain ⟨b, -, h⟩ := bind_eq_ok.mp h
  cases h
  exact { SamePlan.rfl with kinds := by rw [List.map_map]; rfl }

theorem countRow_plan {c c' : CopyState F} {n : Nat} {batches : List (Batch (PgValue F))}
    (h : countRow s c n = .ok (c', batches)) : SamePlan c c' := by
  obtain ⟨bytes, -, h⟩ := bind_eq_ok.mp h
  dsimp only at h
  split_ifs at h
  · obtain ⟨⟨d, batch⟩, hflush, h⟩ := bind_eq_ok.mp h
    cases h
    have hplan := flushBatch_plan hflush
    exact ⟨hplan.fields, hplan.oids, hplan.kinds, hplan.headerDone, hplan.finished, hplan.batchRows, hplan.batchBytes⟩
  · cases h
    exact ⟨rfl, rfl, rfl, rfl, rfl, rfl, rfl⟩

theorem addRow_plan {c c' : CopyState F} {fields : List (Option Bytes)} {n : Nat} {batches : List (Batch (PgValue F))}
    (h : addRow rt s c fields n = .ok (c', batches)) : SamePlan c c' := by
  obtain ⟨d, hrow, h⟩ := bind_eq_ok.mp h
  exact (appendRow_plan hrow).trans (countRow_plan h)

/-! ### The machine is steady -/

theorem copyStep_header {c : CopyState F} {xs rest : Bytes} (hdone : ¬c.headerDone = true)
    (hread : readHeader xs = .body rest) : copyStep rt s c xs = .next { c with headerDone := true } rest [] := by
  unfold copyStep
  rw [if_neg hdone, hread]

theorem copyStep_trailer {c : CopyState F} {xs : Bytes} (hdone : c.headerDone = true)
    (hread : readTuple c.oids.length xs = .trailer) : copyStep rt s c xs = .halt { c with finished := true } := by
  unfold copyStep
  rw [if_pos hdone, hread]

theorem copyStep_tuple {c : CopyState F} {xs rest : Bytes} {fields : List (Option Bytes)} (hdone : c.headerDone = true)
    (hread : readTuple c.oids.length xs = .tuple fields rest) :
    copyStep rt s c xs =
      match addRow rt s c fields (xs.length - rest.length) with
      | .ok (c, batches) => .next c rest batches
      | .error e => .fail e := by
  unfold copyStep
  rw [if_pos hdone, hread]

theorem copyStep_next {c c' : CopyState F} {xs rest : Bytes} {out : List (Batch (PgValue F))}
    (h : copyStep rt s c xs = .next c' rest out) :
    (¬c.headerDone = true ∧ readHeader xs = .body rest ∧ c' = { c with headerDone := true } ∧ out = []) ∨
      (c.headerDone = true ∧ ∃ fields, readTuple c.oids.length xs = .tuple fields rest ∧
        addRow rt s c fields (xs.length - rest.length) = .ok (c', out)) := by
  by_cases hdone : c.headerDone = true
  · unfold copyStep at h
    rw [if_pos hdone] at h
    cases hread : readTuple c.oids.length xs with
    | tuple fields rest' =>
      rw [hread] at h
      cases hrow : addRow rt s c fields (xs.length - rest'.length) with
      | error e =>
        simp only [hrow] at h
        cases h
      | ok r =>
        simp only [hrow] at h
        cases h
        exact .inr ⟨hdone, fields, rfl, hrow⟩
    | _ => rw [hread] at h; cases h
  · unfold copyStep at h
    rw [if_neg hdone] at h
    cases hread : readHeader xs with
    | body rest' =>
      rw [hread] at h
      cases h
      exact .inl ⟨hdone, rfl, rfl, rfl⟩
    | _ => rw [hread] at h; cases h

theorem copyStep_halt {c c' : CopyState F} {xs : Bytes} (h : copyStep rt s c xs = .halt c') :
    c.headerDone = true ∧ readTuple c.oids.length xs = .trailer ∧ c' = { c with finished := true } := by
  by_cases hdone : c.headerDone = true
  · cases hread : readTuple c.oids.length xs with
    | trailer =>
      rw [copyStep_trailer hdone hread] at h
      cases h
      exact ⟨hdone, rfl, rfl⟩
    | tuple fields rest =>
      rw [copyStep_tuple hdone hread] at h
      cases hrow : addRow rt s c fields (xs.length - rest.length) with
      | error e => simp only [hrow] at h; cases h
      | ok r => simp only [hrow] at h; cases h
    | _ => unfold copyStep at h; rw [if_pos hdone, hread] at h; cases h
  · cases hread : readHeader xs with
    | _ => unfold copyStep at h; rw [if_neg hdone, hread] at h; cases h

theorem steady_copyStep (rt : PgRuntime F) (s : Sizes) : Steady (copyStep rt s) where
  next := by
    intro c c' xs rest out h
    rcases copyStep_next h with ⟨hdone, hread, rfl, rfl⟩ | ⟨hdone, fields, hread, hrow⟩
    · refine ⟨by have := readHeader_eq_body hread; omega, fun ys => copyStep_header hdone ?_⟩
      rw [readHeader_append ys (by rw [hread]; exact fun h => by cases h), hread]
      rfl
    · refine ⟨by have := (readTuple_eq_tuple hread).2.1; omega, fun ys => ?_⟩
      have hmore : readTuple c.oids.length (xs ++ ys) = .tuple fields (rest ++ ys) := by
        rw [readTuple_append ys (by rw [hread]; exact fun h => by cases h), hread]
        rfl
      rw [copyStep_tuple hdone hmore, List.length_append, List.length_append, Nat.add_sub_add_right, hrow]
  fail := by
    intro c xs e h ys
    by_cases hdone : c.headerDone = true
    · cases hread : readTuple c.oids.length xs with
      | tuple fields rest =>
        have hmore : readTuple c.oids.length (xs ++ ys) = .tuple fields (rest ++ ys) := by
          rw [readTuple_append ys (by rw [hread]; exact fun h => by cases h), hread]
          rfl
        rw [copyStep_tuple hdone hread] at h
        rw [copyStep_tuple hdone hmore, List.length_append, List.length_append, Nat.add_sub_add_right]
        cases hrow : addRow rt s c fields (xs.length - rest.length) with
        | error e' => simpa only [hrow, Step.fail.injEq] using h
        | ok r => simp only [hrow] at h; cases h
      | more => unfold copyStep at h; rw [if_pos hdone, hread] at h; cases h
      | trailer => unfold copyStep at h; rw [if_pos hdone, hread] at h; cases h
      | _ =>
        unfold copyStep at h ⊢
        rw [if_pos hdone, hread] at h
        rw [if_pos hdone, readTuple_append ys (by rw [hread]; exact fun h => by cases h), hread]
        exact h
    · cases hread : readHeader xs with
      | more => unfold copyStep at h; rw [if_neg hdone, hread] at h; cases h
      | body rest => unfold copyStep at h; rw [if_neg hdone, hread] at h; cases h
      | _ =>
        unfold copyStep at h ⊢
        rw [if_neg hdone, hread] at h
        rw [if_neg hdone, readHeader_append ys (by rw [hread]; exact fun h => by cases h), hread]
        exact h
  halt := by
    intro c c' xs h ys
    obtain ⟨hdone, hread, rfl⟩ := copyStep_halt h
    have hmore : readTuple c.oids.length (xs ++ ys) = .trailer := by
      rw [readTuple_append ys (by rw [hread]; exact fun h => by cases h), hread]
      rfl
    exact ⟨copyStep_trailer hdone hmore, copyStep_trailer hdone hmore⟩

end

end Quickhouse
