import Quickhouse.CopySafety

/-!
# The rows of a COPY stream

A well-formed stream is a header, tuples and a trailer.  However it is cut into chunks, the decoder does with it what it
does with the whole; and where it comes to the end, the rows of its batches are the tuples, each once and in order.
-/

namespace Quickhouse

open Slices Wire Chunks Results

/-! ### Well-formed streams -/

/-- A field: its length and its bytes, or -1 for a NULL. -/
def fieldBytes : Option Bytes → Bytes
  | none => bigEndian 4 (-1)
  | some bytes => bigEndian 4 bytes.length ++ bytes

def tupleBytes (fields : List (Option Bytes)) : Bytes := bigEndian 2 fields.length ++ fields.flatMap fieldBytes

def trailer : Bytes := bigEndian 2 (-1)

def headerBytes (flags extension : Bytes) : Bytes :=
  copySignature ++ flags ++ bigEndian 4 extension.length ++ extension

/-- A binary COPY stream, with the limits of its counts and lengths. -/
structure CopyStream where
  flags : Bytes
  extension : Bytes
  tuples : List (List (Option Bytes))
  flags_length : flags.length = 4
  extension_lt : extension.length < 2 ^ 31
  count_lt : ∀ fields ∈ tuples, fields.length < 2 ^ 15
  length_lt : ∀ fields ∈ tuples, ∀ bytes, some bytes ∈ fields → bytes.length < 2 ^ 31
  /-- No more than a vector holds. -/
  size_lt : (headerBytes flags extension ++ tuples.flatMap tupleBytes ++ trailer).length < 2 ^ 63

namespace CopyStream

def body (stream : CopyStream) : Bytes := stream.tuples.flatMap tupleBytes ++ trailer

def bytes (stream : CopyStream) : Bytes :=
  headerBytes stream.flags stream.extension ++ stream.tuples.flatMap tupleBytes ++ trailer

end CopyStream

theorem intOf_count {width n : Nat} (h : n < 256 ^ width / 2) : intOf (bigEndian width n) = n := by
  have hpos : 0 < 256 ^ width := by positivity
  have hcast : ((256 ^ width : ℕ) : Int) = 256 ^ width := by push_cast; rfl
  apply intOf_bigEndian
  · omega
  · omega

theorem readFields_bytes {fields : List (Option Bytes)} (h : ∀ bytes, some bytes ∈ fields → bytes.length < 2 ^ 31)
    (ys : Bytes) : readFields fields.length (fields.flatMap fieldBytes ++ ys) = .all fields ys := by
  induction fields with
  | nil => rfl
  | cons field fields ih =>
    have hrest := ih fun bytes hmem => h bytes (List.mem_cons_of_mem _ hmem)
    rw [List.flatMap_cons, List.append_assoc, List.length_cons]
    cases field with
    | none =>
      have htake : (fieldBytes none ++ (fields.flatMap fieldBytes ++ ys)).take 4 = bigEndian 4 (-1) :=
        List.take_left' (bigEndian_length 4 _)
      have hdrop : (fieldBytes none ++ (fields.flatMap fieldBytes ++ ys)).drop 4 = fields.flatMap fieldBytes ++ ys :=
        List.drop_left' (bigEndian_length 4 _)
      have hnull : intOf (bigEndian 4 (-1)) = -1 := by decide
      unfold readFields
      rw [htake, hdrop, hrest, hnull, if_neg]
      · rfl
      · rw [List.length_append, fieldBytes, bigEndian_length]
        omega
    | some bytes =>
      have hlt := h bytes List.mem_cons_self
      have hlen : intOf (bigEndian 4 bytes.length) = bytes.length := intOf_count (by omega)
      have htake : (fieldBytes (some bytes) ++ (fields.flatMap fieldBytes ++ ys)).take 4 = bigEndian 4 bytes.length := by
        unfold fieldBytes
        rw [List.append_assoc, List.take_left' (bigEndian_length 4 _)]
      have hdrop : (fieldBytes (some bytes) ++ (fields.flatMap fieldBytes ++ ys)).drop 4 =
          bytes ++ (fields.flatMap fieldBytes ++ ys) := by
        unfold fieldBytes
        rw [List.append_assoc, List.drop_left' (bigEndian_length 4 _)]
      have hlength : (fieldBytes (some bytes) ++ (fields.flatMap fieldBytes ++ ys)).length =
          4 + (bytes.length + (fields.flatMap fieldBytes ++ ys).length) := by
        rw [List.length_append, fieldBytes, List.length_append, bigEndian_length]
        omega
      unfold readFields
      rw [htake, hlen, hlength, if_neg (by omega)]
      dsimp only
      rw [if_neg (by omega), if_neg (by omega), Int.toNat_natCast, if_neg (by omega), ← List.drop_drop, hdrop,
        List.take_left, List.drop_left, hrest]
      rfl

theorem readTuple_bytes (n : Nat) {fields : List (Option Bytes)} (hcount : fields.length < 2 ^ 15)
    (h : ∀ bytes, some bytes ∈ fields → bytes.length < 2 ^ 31) (ys : Bytes) :
    readTuple n (tupleBytes fields ++ ys) = if fields.length = n then .tuple fields ys else .refused fields.length := by
  have hlen : intOf (bigEndian 2 fields.length) = fields.length := intOf_count (by omega)
  have htake : (tupleBytes fields ++ ys).take 2 = bigEndian 2 fields.length := by
    unfold tupleBytes
    rw [List.append_assoc, List.take_left' (bigEndian_length 2 _)]
  have hdrop : (tupleBytes fields ++ ys).drop 2 = fields.flatMap fieldBytes ++ ys := by
    unfold tupleBytes
    rw [List.append_assoc, List.drop_left' (bigEndian_length 2 _)]
  have hsize : ((fields.length : Int) % 2 ^ 64).toNat = fields.length := by omega
  have hlong : ¬(tupleBytes fields ++ ys).length < 2 := by
    rw [List.length_append, tupleBytes, List.length_append, bigEndian_length]
    omega
  unfold readTuple
  rw [htake, hdrop, hlen, if_neg hlong]
  dsimp only
  rw [hsize, if_neg (by omega)]
  by_cases hn : fields.length = n
  · subst hn
    rw [if_neg (by simp), if_pos rfl, readFields_bytes h]
    rfl
  · rw [if_pos hn, if_neg hn]

theorem readTuple_trailer (n : Nat) (ys : Bytes) : readTuple n (trailer ++ ys) = .trailer := by
  have htake : (trailer ++ ys).take 2 = trailer := List.take_left' (bigEndian_length 2 _)
  have hend : intOf trailer = -1 := by decide
  have hlong : ¬(trailer ++ ys).length < 2 := by
    rw [List.length_append, trailer, bigEndian_length]
    omega
  unfold readTuple
  rw [htake, hend, if_neg hlong]
  rfl

theorem readHeader_bytes {flags extension : Bytes} (hflags : flags.length = 4) (hext : extension.length < 2 ^ 31)
    (ys : Bytes) : readHeader (headerBytes flags extension ++ ys) = .body ys := by
  have hsig : copySignature.length = 11 := rfl
  have hsignature : (headerBytes flags extension ++ ys).take 11 = copySignature := by
    unfold headerBytes
    rw [List.append_assoc, List.append_assoc, List.append_assoc, List.take_left' hsig]
  have hafter : (headerBytes flags extension ++ ys).drop 15 = bigEndian 4 extension.length ++ (extension ++ ys) := by
    unfold headerBytes
    rw [List.append_assoc, List.append_assoc, List.drop_left']
    rw [List.length_append, hflags, hsig]
  have hlen : intOf (bigEndian 4 extension.length) = extension.length := intOf_count (by omega)
  have htotal : (headerBytes flags extension).length = 19 + extension.length := by
    simp [headerBytes, hflags, hsig]
    omega
  unfold readHeader
  rw [hsignature, hafter, List.take_left' (bigEndian_length 4 _), hlen, if_neg (by rw [List.length_append]; omega)]
  dsimp only
  rw [if_neg (by simp), if_neg (by omega), Int.toNat_natCast, if_neg (by rw [List.length_append]; omega),
    List.drop_left' htotal]

theorem not_negativeLength (n : Nat) {tuples : List (List (Option Bytes))}
    (hcount : ∀ fields ∈ tuples, fields.length < 2 ^ 15)
    (hlength : ∀ fields ∈ tuples, ∀ bytes, some bytes ∈ fields → bytes.length < 2 ^ 31) :
    ¬NegativeLength n (tuples.flatMap tupleBytes ++ trailer) := by
  induction tuples with
  | nil =>
    have hread : readTuple n trailer = .trailer := by simpa using readTuple_trailer n []
    rw [List.flatMap_nil, List.nil_append]
    rintro (hneg | ⟨htuple, -⟩)
    · rw [hread] at hneg
      cases hneg
    · rw [hread] at htuple
      cases htuple
  | cons fields tuples ih =>
    have hread := readTuple_bytes n (hcount fields List.mem_cons_self) (hlength fields List.mem_cons_self)
      (tuples.flatMap tupleBytes ++ trailer)
    have hrest := ih (fun fs h => hcount fs (List.mem_cons_of_mem _ h)) fun fs h => hlength fs (List.mem_cons_of_mem _ h)
    rw [List.flatMap_cons, List.append_assoc]
    rintro (hneg | ⟨htuple, hlater⟩)
    · rw [hread] at hneg
      split_ifs at hneg
    · rw [hread] at htuple
      split_ifs at htuple
      cases htuple
      exact hrest hlater

theorem CopyStream.readHeader_eq (stream : CopyStream) : readHeader stream.bytes = .body stream.body := by
  have hread := readHeader_bytes stream.flags_length stream.extension_lt stream.body
  unfold bytes
  rw [List.append_assoc]
  exact hread

theorem CopyStream.not_negativeFraming (stream : CopyStream) (n : Nat) : ¬NegativeFraming n stream.bytes := by
  rintro (hneg | ⟨rest, hbody, hlater⟩)
  · rw [stream.readHeader_eq] at hneg
    cases hneg
  · rw [stream.readHeader_eq] at hbody
    cases hbody
    exact not_negativeLength n stream.count_lt stream.length_lt hlater

theorem ofExcept_eq_ok {α : Type} {x : Except EtlError α} {a : α} : ofExcept x = .ok a ↔ x = .ok a := by
  cases x with
  | error e => exact iff_of_false nofun nofun
  | ok b =>
    constructor
    · intro h
      cases h
      rfl
    · intro h
      cases h
      rfl

/-! ### The row of a tuple -/

section

variable {F : Type}

section

variable (rt : PgRuntime F) (s : Sizes)

def decodeCell (kind : ColBuilder) (oid : Nat) : Option Bytes → Outcome EtlError (Option (PgValue F))
  | none => pure none
  | some bytes => do
    let (cell, _) ← kind.appendValue rt s oid bytes
    pure cell

def decodeField (column : CopyColumn) (field : Option Bytes) : Outcome EtlError (Option (PgValue F)) := do
  let kind ← ofExcept (ColBuilder.new column.arrow)
  decodeCell rt s kind column.typeId field

/-- The row that a tuple stands for. -/
def decodeRow (columns : List CopyColumn) (fields : List (Option Bytes)) : Outcome EtlError (List (Option (PgValue F))) :=
  if fields.length ≠ columns.length then .error (.err (fieldCountError fields.length columns.length))
  else (columns.zip fields).mapM fun (column, field) => decodeField rt s column field

end

variable {rt : PgRuntime F} {s : Sizes}

theorem mapM_decodeCell {columns : List CopyColumn} {kinds : List ColBuilder}
    (h : List.Forall₂ (fun column kind => ColBuilder.new column.arrow = .ok kind) columns kinds)
    (fields : List (Option Bytes)) :
    ((kinds.zip (columns.map CopyColumn.typeId)).zip fields).mapM
        (fun x : (ColBuilder × Nat) × Option Bytes => decodeCell rt s x.1.1 x.1.2 x.2) =
      (columns.zip fields).mapM fun (column, field) => decodeField rt s column field := by
  induction h generalizing fields with
  | nil => rfl
  | @cons column kind columns kinds hkind _ ih =>
    cases fields with
    | nil => rfl
    | cons field fields =>
      have hfield : decodeField rt s column field = decodeCell rt s kind column.typeId field := by
        unfold decodeField
        rw [hkind]
        rfl
      rw [List.map_cons, List.zip_cons_cons, List.zip_cons_cons, List.zip_cons_cons, List.mapM_cons, List.mapM_cons,
        ih fields]
      dsimp only
      rw [hfield]

theorem decodeCell_eq_ok {kind : ColBuilder} {oid : Nat} {field : Option Bytes} {cell : Option (PgValue F)} :
    decodeCell rt s kind oid field = .ok cell ↔ ∃ v, fieldValue rt s kind oid field = .ok v ∧ v.1 = cell := by
  cases field with
  | none =>
    constructor
    · intro h
      cases h
      exact ⟨_, rfl, rfl⟩
    · rintro ⟨v, hv, rfl⟩
      cases hv
      rfl
  | some bytes =>
    constructor
    · intro h
      obtain ⟨v, hv, h⟩ := bind_eq_ok.mp h
      cases h
      exact ⟨v, hv, rfl⟩
    · rintro ⟨v, hv, rfl⟩
      exact bind_eq_ok.mpr ⟨v, hv, rfl⟩

/-- A field is in its column when it decodes to a value that fits. -/
theorem appendField_cell {c : CopyState F} {i : Nat} {b : ArrayBuilder F} {oid : Nat} {named : Field}
    (hb : c.builders[i]? = some b) (ho : c.oids[i]? = some oid) (hf : c.fields[i]? = some named)
    (field : Option Bytes) (builders : List (ArrayBuilder F)) :
    (∃ c', appendField rt s c i field = .ok c' ∧ c'.builders = builders) ↔
      ∃ cell, decodeCell rt s b.kind oid field = .ok cell ∧ (b.push cell).Fits ∧
        builders = c.builders.set i (b.push cell) := by
  constructor
  · rintro ⟨c', hok, rfl⟩
    obtain ⟨v, hv, hfits, rfl⟩ := (appendField_eq_ok hb ho hf).mp hok
    exact ⟨v.1, decodeCell_eq_ok.mpr ⟨v, hv, rfl⟩, hfits, rfl⟩
  · rintro ⟨cell, hcell, hfits, rfl⟩
    obtain ⟨v, hv, rfl⟩ := decodeCell_eq_ok.mp hcell
    exact ⟨_, (appendField_eq_ok hb ho hf).mpr ⟨v, hv, hfits, rfl⟩, rfl⟩

/-- The builders and the types of the columns. -/
def CopyState.plan (c : CopyState F) : List (ColBuilder × Nat) := (c.builders.map ArrayBuilder.kind).zip c.oids

theorem SamePlan.plan_eq {c c' : CopyState F} (h : SamePlan c c') : c'.plan = c.plan := by
  unfold CopyState.plan
  rw [h.kinds, h.oids]

theorem plan_drop (c : CopyState F) (i : Nat) :
    c.plan.drop i = (c.targets.drop i).map fun target => (target.1.kind, target.2) := by
  rw [List.map_drop]
  congr 1
  unfold CopyState.plan CopyState.targets
  rw [List.zip_map_left]
  rfl

/-- A tuple is in its columns when it decodes to values that fit. -/
theorem appendRow_cells {fields : List (Option Bytes)} {i : Nat} {c : CopyState F} (hc : Aligned c)
    (hi : i + fields.length = c.oids.length) (builders : List (ArrayBuilder F)) :
    (∃ c', appendRow rt s fields i c = .ok c' ∧ c'.builders = builders) ↔
      ∃ row, ((c.plan.drop i).zip fields).mapM
          (fun x : (ColBuilder × Nat) × Option Bytes => decodeCell rt s x.1.1 x.1.2 x.2) = .ok row ∧
        (∀ b ∈ List.zipWith ArrayBuilder.push (c.builders.drop i) row, b.Fits) ∧
        builders = c.builders.take i ++ List.zipWith ArrayBuilder.push (c.builders.drop i) row := by
  induction fields generalizing i c builders with
  | nil =>
    rw [List.length_nil, Nat.add_zero] at hi
    have hall : c.builders.take i = c.builders := List.take_of_length_le (by rw [hc.builders]; omega)
    rw [List.zip_nil_right, hall]
    constructor
    · rintro ⟨c', hok, rfl⟩
      cases hok
      exact ⟨[], rfl, by simp, by simp⟩
    · rintro ⟨row, hok, -, rfl⟩
      cases hok
      exact ⟨c, rfl, by simp⟩
  | cons field fields ih =>
    rw [List.length_cons] at hi
    obtain ⟨b, oid, named, hb, ho, hf, htargets⟩ := targets_drop hc (show i < c.oids.length by omega)
    obtain ⟨hlt, rfl⟩ := List.getElem?_eq_some_iff.mp hb
    rw [plan_drop, htargets, List.map_cons, ← plan_drop, List.zip_cons_cons, List.mapM_cons]
    have hset : ∀ (c' : CopyState F) (cell : Option (PgValue F)),
        c'.builders = c.builders.set i (c.builders[i].push cell) →
          c'.builders.drop (i + 1) = c.builders.drop (i + 1) ∧ ∀ row : List (Option (PgValue F)),
            List.zipWith ArrayBuilder.push (c.builders.drop i) (cell :: row) =
              c.builders[i].push cell :: List.zipWith ArrayBuilder.push (c'.builders.drop (i + 1)) row ∧
            c'.builders.take (i + 1) ++ List.zipWith ArrayBuilder.push (c'.builders.drop (i + 1)) row =
              c.builders.take i ++ List.zipWith ArrayBuilder.push (c.builders.drop i) (cell :: row) := by
      intro c' cell hc'
      have hbehind : c'.builders.drop (i + 1) = c.builders.drop (i + 1) := by
        rw [hc', List.drop_set_of_lt (by omega)]
      refine ⟨hbehind, fun row => ?_⟩
      have hcons : List.zipWith ArrayBuilder.push (c.builders.drop i) (cell :: row) =
          c.builders[i].push cell :: List.zipWith ArrayBuilder.push (c'.builders.drop (i + 1)) row := by
        rw [hbehind, List.drop_eq_getElem_cons hlt, List.zipWith_cons_cons]
      refine ⟨hcons, ?_⟩
      rw [hcons, hc', List.take_add_one, List.take_set_of_le le_rfl, List.getElem?_set_self hlt, List.append_assoc]
      rfl
    constructor
    · rintro ⟨c'', hok, rfl⟩
      obtain ⟨c', hfield, hrest⟩ := bind_eq_ok.mp hok
      obtain ⟨cell, hcell, hfits, hset'⟩ := (appendField_cell hb ho hf field _).mp ⟨c', hfield, rfl⟩
      have hsame := appendField_plan hfield
      have hi' : i + 1 + fields.length = c'.oids.length := by rw [hsame.oids]; omega
      obtain ⟨row, hrow, hrowFits, hbuilders⟩ := (ih (hsame.aligned hc) hi' _).mp ⟨c'', hrest, rfl⟩
      obtain ⟨-, hset'⟩ := hset c' cell hset'
      rw [hsame.plan_eq] at hrow
      refine ⟨cell :: row, ?_, ?_, ?_⟩
      · exact bind_eq_ok.mpr ⟨cell, hcell, bind_eq_ok.mpr ⟨row, hrow, rfl⟩⟩
      · rw [(hset' row).1]
        exact List.forall_mem_cons.mpr ⟨hfits, hrowFits⟩
      · rw [hbuilders, (hset' row).2]
    · rintro ⟨row, hok, hrowFits, rfl⟩
      obtain ⟨cell, hcell, hok⟩ := bind_eq_ok.mp hok
      obtain ⟨row', hrow, hok⟩ := bind_eq_ok.mp hok
      cases hok
      have hfits : (c.builders[i].push cell).Fits := by
        rw [List.drop_eq_getElem_cons hlt, List.zipWith_cons_cons] at hrowFits
        exact hrowFits _ List.mem_cons_self
      obtain ⟨c', hfield, hset'⟩ := (appendField_cell hb ho hf field _).mpr ⟨cell, hcell, hfits, rfl⟩
      obtain ⟨-, hset'⟩ := hset c' cell hset'
      have hsame := appendField_plan hfield
      have hi' : i + 1 + fields.length = c'.oids.length := by rw [hsame.oids]; omega
      rw [(hset' row').1] at hrowFits
      obtain ⟨c'', hrest, hbuilders⟩ := (ih (hsame.aligned hc) hi' _).mpr
        ⟨row', by rwa [hsame.plan_eq], (List.forall_mem_cons.mp hrowFits).2, rfl⟩
      refine ⟨c'', bind_eq_ok.mpr ⟨c', hfield, hrest⟩, ?_⟩
      rw [hbuilders, (hset' row').2]

/-! ### The rows between two batches -/

/-- The rows as columns. -/
def columnsOf {V : Type} (n : Nat) (rows : List (List (Option V))) : List (List (Option V)) :=
  (List.range n).map fun j => rows.map fun row => (row[j]?).join

theorem columnsOf_concat {V : Type} {n : Nat} (rows : List (List (Option V))) {row : List (Option V)}
    (h : row.length = n) :
    columnsOf n (rows ++ [row]) = List.zipWith (fun cells cell => cells ++ [cell]) (columnsOf n rows) row := by
  subst h
  apply List.ext_getElem
  · simp [columnsOf]
  · intro i hi hi'
    have hlt : i < row.length := by simpa [columnsOf] using hi
    simp [columnsOf, List.getElem?_eq_getElem hlt]

theorem rowsOfColumns_columnsOf {V : Type} {n : Nat} {rows : List (List (Option V))}
    (h : ∀ row ∈ rows, row.length = n) : rowsOfColumns rows.length (columnsOf n rows) = rows := by
  apply List.ext_getElem
  · simp [rowsOfColumns]
  · intro i hi hi'
    have hrow := h rows[i] (List.getElem_mem hi')
    apply List.ext_getElem
    · simp [rowsOfColumns, columnsOf, hrow]
    · intro j hj hj'
      simp [rowsOfColumns, columnsOf, List.getElem?_eq_getElem hi', List.getElem?_eq_getElem hj']

/-- A batch of columns has their rows. -/
theorem recordBatch_rows {V : Type} {fields : List Field} {n : Nat} {rows : List (List (Option V))}
    (hlength : ∀ row ∈ rows, row.length = n) :
    (∀ batch, recordBatch fields (columnsOf n rows) = .ok batch → batch.rows = rows) ∧
      (0 < n → (∀ row ∈ rows, Conforms fields row) → ∃ batch, recordBatch fields (columnsOf n rows) = .ok batch) := by
  cases n with
  | zero =>
    refine ⟨fun batch h => ?_, fun h => absurd h (Nat.lt_irrefl 0)⟩
    cases h
  | succ n =>
    obtain ⟨first, columns, hcons⟩ : ∃ first columns, columnsOf (n + 1) rows = first :: columns := by
      unfold columnsOf
      rw [List.range_succ_eq_map, List.map_cons]
      exact ⟨_, _, rfl⟩
    have heach : ∀ column ∈ columnsOf (n + 1) rows, column.length = rows.length := by
      intro column hmem
      obtain ⟨j, -, rfl⟩ := List.mem_map.mp hmem
      rw [List.length_map]
    have hfirst : first.length = rows.length := heach first (by rw [hcons]; exact List.mem_cons_self)
    have hsame : ¬((first :: columns).any fun column => column.length ≠ first.length) = true := by
      rw [← hcons, List.any_eq_true]
      rintro ⟨column, hmem, hne⟩
      have := heach column hmem
      simp [hfirst, this] at hne
    have hrows := rowsOfColumns_columnsOf hlength
    have hbatch : recordBatch fields (columnsOf (n + 1) rows) =
        (Batch.tryNew fields rows).mapError fun message => .arrow ("Invalid argument error: " ++ message) := by
      unfold recordBatch
      rw [hcons]
      dsimp only
      rw [if_neg hsame, hfirst, ← hcons, hrows]
    rw [hbatch]
    constructor
    · intro batch h
      unfold Batch.tryNew at h
      split_ifs at h
      · cases h
        rfl
      · cases h
    · intro _ h
      rw [tryNew_ok h]
      exact ⟨_, rfl⟩

/-- Each column of the rows has an offset for all of its values. -/
def ColumnsFit (n : Nat) (rows : List (List (Option (PgValue F)))) : Prop :=
  ∀ cells ∈ columnsOf n rows, (columnBytes cells : Int) ≤ MachineInt.i32Max

theorem columnsFit_nil (n : Nat) : ColumnsFit n ([] : List (List (Option (PgValue F)))) := by
  intro cells hmem
  obtain ⟨j, -, rfl⟩ := List.mem_map.mp hmem
  exact (by decide : (0 : Int) ≤ MachineInt.i32Max)

/-- Rows that fit fit without the last of them. -/
theorem ColumnsFit.of_append {n : Nat} {rows more : List (List (Option (PgValue F)))}
    (h : ColumnsFit n (rows ++ more)) : ColumnsFit n rows := by
  intro cells hmem
  obtain ⟨j, hj, rfl⟩ := List.mem_map.mp hmem
  have hall := h _ (List.mem_map.mpr ⟨j, hj, rfl⟩)
  have hle : columnBytes (rows.map fun row => (row[j]?).join) ≤ columnBytes ((rows ++ more).map fun row => (row[j]?).join) := by
    unfold columnBytes
    rw [List.map_append, List.map_append, List.sum_append]
    exact Nat.le_add_right _ _
  exact (Int.ofNat_le.mpr hle).trans hall

/-- A batch of so many rows, and of tuples of so many bytes, is full. -/
def closesBatch (batchRows batchBytes rows bytes : Nat) : Prop :=
  batchRows ≤ rows ∨ 0 < batchBytes ∧ batchBytes ≤ bytes

instance (batchRows batchBytes rows bytes : Nat) : Decidable (closesBatch batchRows batchBytes rows bytes) :=
  inferInstanceAs (Decidable (_ ∨ _))

/-- The rows that the decoder has and that are in no batch yet. -/
structure Pending (columns : List CopyColumn) (c : CopyState F) (rows : List (List (Option (PgValue F)))) : Prop where
  oids : c.oids = columns.map CopyColumn.typeId
  fields : c.fields = columns.map fun column => column.toColumnType.field
  kinds : List.Forall₂ (fun column kind => ColBuilder.new column.arrow = .ok kind) columns
    (c.builders.map ArrayBuilder.kind)
  cells : c.builders.map ArrayBuilder.cells = columnsOf columns.length rows
  lengths : ∀ row ∈ rows, row.length = columns.length
  count : c.rowsInBatch = rows.length
  fit : ColumnsFit columns.length rows

theorem Pending.aligned {columns : List CopyColumn} {c : CopyState F} {rows : List (List (Option (PgValue F)))}
    (h : Pending columns c rows) : Aligned c := by
  have hkinds := h.kinds.length_eq
  rw [List.length_map] at hkinds
  constructor
  · rw [h.oids, List.length_map, hkinds]
  · rw [h.fields, h.oids, List.length_map, List.length_map]

variable {columns : List CopyColumn} {c : CopyState F} {rows : List (List (Option (PgValue F)))}

/-- With a row more. -/
theorem Pending.columnsOf_push {builders : List (ArrayBuilder F)} {row : List (Option (PgValue F))}
    (h : Pending columns c rows) (hbuilders : builders = List.zipWith ArrayBuilder.push c.builders row)
    (hrow : row.length = columns.length) :
    builders.map ArrayBuilder.cells = columnsOf columns.length (rows ++ [row]) := by
  rw [columnsOf_concat rows hrow, ← h.cells, hbuilders, List.map_zipWith, List.zipWith_map_left]
  rfl

theorem columnsFit_iff {n : Nat} {builders : List (ArrayBuilder F)} {rows : List (List (Option (PgValue F)))}
    (h : builders.map ArrayBuilder.cells = columnsOf n rows) : ColumnsFit n rows ↔ ∀ b ∈ builders, b.Fits := by
  unfold ColumnsFit
  rw [← h]
  exact List.forall_mem_map

theorem Pending.append {c' : CopyState F} {fields : List (Option Bytes)} (h : Pending columns c rows)
    (hrow : appendRow rt s fields 0 c = .ok c') (hlength : fields.length = columns.length) :
    ∃ row, decodeRow rt s columns fields = .ok row ∧ c'.builders = List.zipWith ArrayBuilder.push c.builders row ∧
      row.length = columns.length ∧ ColumnsFit columns.length (rows ++ [row]) := by
  have hoids : 0 + fields.length = c.oids.length := by rw [h.oids, List.length_map, Nat.zero_add, hlength]
  obtain ⟨row, hok, hfits, hbuilders⟩ := (appendRow_cells h.aligned hoids _).mp ⟨c', hrow, rfl⟩
  rw [List.drop_zero, CopyState.plan, h.oids, mapM_decodeCell h.kinds] at hok
  rw [List.drop_zero] at hfits
  rw [List.take_zero, List.nil_append, List.drop_zero] at hbuilders
  have hwidth : row.length = columns.length := by
    have hsame := (forall₂_of_mapM_eq_ok hok).length_eq
    rw [List.length_zip] at hsame
    omega
  refine ⟨row, ?_, hbuilders, hwidth, ?_⟩
  · unfold decodeRow
    rw [if_neg (by simp [hlength]), hok]
  · exact (columnsFit_iff (h.columnsOf_push rfl hwidth)).mpr hfits

theorem decodeRow_lengths {fields : List (Option Bytes)} {row : List (Option (PgValue F))}
    (h : decodeRow rt s columns fields = .ok row) :
    fields.length = columns.length ∧ row.length = columns.length := by
  unfold decodeRow at h
  split_ifs at h with hne
  have hsame := (forall₂_of_mapM_eq_ok h).length_eq
  rw [List.length_zip] at hsame
  exact ⟨not_ne_iff.mp hne, by omega⟩

theorem Pending.appendRow_ok {fields : List (Option Bytes)} {row : List (Option (PgValue F))}
    (h : Pending columns c rows) (hrow : decodeRow rt s columns fields = .ok row)
    (hfit : ColumnsFit columns.length (rows ++ [row])) : ∃ c', appendRow rt s fields 0 c = .ok c' := by
  obtain ⟨hlength, hwidth⟩ := decodeRow_lengths hrow
  have hoids : 0 + fields.length = c.oids.length := by rw [h.oids, List.length_map, Nat.zero_add, hlength]
  have hfits := (columnsFit_iff (h.columnsOf_push rfl hwidth)).mp hfit
  unfold decodeRow at hrow
  rw [if_neg (by simp [hlength]), ← mapM_decodeCell h.kinds, ← h.oids] at hrow
  obtain ⟨c', hok, -⟩ := (appendRow_cells h.aligned hoids _).mpr ⟨row, hrow, hfits, rfl⟩
  exact ⟨c', hok⟩

/-- One row more. -/
theorem Pending.next {c' : CopyState F} {row : List (Option (PgValue F))} (h : Pending columns c rows)
    (hsame : SamePlan c c') (hbuilders : c'.builders = List.zipWith ArrayBuilder.push c.builders row)
    (hcount : c'.rowsInBatch = c.rowsInBatch + 1) (hrow : row.length = columns.length)
    (hfit : ColumnsFit columns.length (rows ++ [row])) : Pending columns c' (rows ++ [row]) where
  oids := by rw [hsame.oids, h.oids]
  fields := by rw [hsame.fields, h.fields]
  kinds := by
    rw [hsame.kinds]
    exact h.kinds
  cells := h.columnsOf_push hbuilders hrow
  lengths := by
    intro r hmem
    rcases List.mem_append.mp hmem with hmem | hmem
    · exact h.lengths r hmem
    · rw [List.mem_singleton.mp hmem, hrow]
  count := by rw [hcount, h.count, List.length_append, List.length_singleton]
  fit := hfit

/-- A batch has all the rows that were in none. -/
theorem Pending.flush {c' : CopyState F} {batch : Batch (PgValue F)} (h : Pending columns c rows)
    (hflush : flushBatch c = .ok (c', batch)) : batch.rows = rows ∧ Pending columns c' [] := by
  have hsame := flushBatch_plan hflush
  obtain ⟨b, hbatch, hflush⟩ := bind_eq_ok.mp hflush
  rw [h.cells] at hbatch
  cases hrecord : recordBatch c.fields (columnsOf columns.length rows) with
  | error e =>
    rw [hrecord] at hbatch
    cases hbatch
  | ok b' =>
    rw [hrecord] at hbatch
    cases hbatch
    cases hflush
    refine ⟨(recordBatch_rows h.lengths).1 _ hrecord, hsame.oids.trans h.oids, hsame.fields.trans h.fields, ?_, ?_, ?_,
      rfl, columnsFit_nil _⟩
    · rw [hsame.kinds]
      exact h.kinds
    · have hlength := congrArg List.length h.cells
      rw [List.length_map, columnsOf, List.length_map, List.length_range] at hlength
      apply List.ext_getElem
      · simp [columnsOf, hlength]
      · intro i hi hi'
        simp [columnsOf]
    · exact fun row hmem => nomatch hmem

theorem Pending.flush_ok (h : Pending columns c rows) (hcolumns : columns ≠ [])
    (hconform : ∀ row ∈ rows, Conforms (columns.map fun column => column.toColumnType.field) row) :
    ∃ r, flushBatch c = .ok r := by
  obtain ⟨batch, hbatch⟩ := (recordBatch_rows h.lengths).2 (List.length_pos_iff.mpr hcolumns) hconform
  unfold flushBatch
  rw [h.fields, h.cells, hbatch]
  exact ⟨_, rfl⟩

variable (columns) in
/-- What a row leaves for the next batch: nothing where it closes its own. -/
structure Counted (c : CopyState F) (rows : List (List (Option (PgValue F)))) (bytes : Nat) (c' : CopyState F)
    (batches : List (Batch (PgValue F))) (rest : List (List (Option (PgValue F)))) : Prop where
  pending : Pending columns c' rest
  closed : closesBatch c.batchRows c.batchBytes rows.length bytes →
    batches.map Batch.rows = [rows] ∧ rest = [] ∧ c'.bytesInBatch = 0
  kept : ¬closesBatch c.batchRows c.batchBytes rows.length bytes →
    batches = [] ∧ rest = rows ∧ c'.bytesInBatch = bytes

theorem Counted.rows_eq {c' : CopyState F} {bytes : Nat} {batches : List (Batch (PgValue F))}
    {rest : List (List (Option (PgValue F)))} (h : Counted columns c rows bytes c' batches rest) :
    rows = batches.flatMap Batch.rows ++ rest := by
  by_cases hclosed : closesBatch c.batchRows c.batchBytes rows.length bytes
  · obtain ⟨hbatches, hrest, -⟩ := h.closed hclosed
    rw [List.flatMap_def, hbatches, hrest]
    simp
  · obtain ⟨hbatches, hrest, -⟩ := h.kept hclosed
    rw [hbatches, hrest]
    rfl

theorem Pending.counted {c' : CopyState F} {n : Nat} {batches : List (Batch (PgValue F))}
    (h : ∀ bytes, Pending columns
      { c with rowsInBatch := c.rowsInBatch + 1, rowsTotal := c.rowsTotal + 1, bytesInBatch := bytes } rows)
    (hsize : c.bytesInBatch + n < 2 ^ 63) (hcount : countRow s c n = .ok (c', batches)) :
    ∃ rest, Counted columns c rows (c.bytesInBatch + n) c' batches rest := by
  have hrows := (h (c.bytesInBatch + n)).count
  unfold countRow at hcount
  rw [Sizes.fit_eq _ (by omega)] at hcount
  simp only [bind, Except.bind] at hcount
  split_ifs at hcount with hfull
  · obtain ⟨⟨d, batch⟩, hflush, hcount⟩ := bind_eq_ok.mp hcount
    cases hcount
    obtain ⟨hbatch, hrest⟩ := (h _).flush hflush
    refine ⟨[], hrest, fun _ => ⟨?_, rfl, ?_⟩, fun hopen => ?_⟩
    · rw [List.map_singleton, hbatch]
    · obtain ⟨b, -, hflush⟩ := bind_eq_ok.mp hflush
      cases hflush
      rfl
    · exact absurd (by rw [← hrows]; exact hfull) hopen
  · cases hcount
    exact ⟨rows, h _, fun hclosed => absurd (by rw [← hrows] at hclosed; exact hclosed) hfull,
      fun _ => ⟨rfl, rfl, rfl⟩⟩

theorem Pending.appended {c' : CopyState F} {fields : List (Option Bytes)} (h : Pending columns c rows)
    (happend : appendRow rt s fields 0 c = .ok c') (hlength : fields.length = columns.length) :
    ∃ row, decodeRow rt s columns fields = .ok row ∧ ColumnsFit columns.length (rows ++ [row]) ∧
      ∀ bytes, Pending columns
        { c' with rowsInBatch := c'.rowsInBatch + 1, rowsTotal := c'.rowsTotal + 1, bytesInBatch := bytes }
        (rows ++ [row]) := by
  obtain ⟨row, hrow, hbuilders, hwidth, hfit⟩ := h.append happend hlength
  have hsame := appendRow_plan happend
  have hkeeps := appendRow_keeps happend
  have hcounted : c'.rowsInBatch + 1 = c.rowsInBatch + 1 := by rw [hkeeps]
  refine ⟨row, hrow, hfit, fun bytes => h.next ?_ hbuilders hcounted hwidth hfit⟩
  exact ⟨hsame.fields, hsame.oids, hsame.kinds, hsame.headerDone, hsame.finished, hsame.batchRows, hsame.batchBytes⟩

/-- What a tuple adds: its row, and the rows of a batch are those that come first. -/
theorem Pending.added {c' : CopyState F} {fields : List (Option Bytes)} {n : Nat} {batches : List (Batch (PgValue F))}
    (h : Pending columns c rows) (hlength : fields.length = columns.length) (hsize : c.bytesInBatch + n < 2 ^ 63)
    (hadd : addRow rt s c fields n = .ok (c', batches)) :
    ∃ row rest, decodeRow rt s columns fields = .ok row ∧ ColumnsFit columns.length (rows ++ [row]) ∧
      Counted columns c (rows ++ [row]) (c.bytesInBatch + n) c' batches rest := by
  obtain ⟨d, happend, hcount⟩ := bind_eq_ok.mp hadd
  obtain ⟨row, hrow, hfit, hnext⟩ := h.appended happend hlength
  have hbytes := appendRow_bytes happend
  have hsame := appendRow_plan happend
  obtain ⟨rest, hrest⟩ := Pending.counted hnext (by rw [hbytes]; exact hsize) hcount
  refine ⟨row, rest, hrow, hfit, hrest.pending, ?_, ?_⟩
  · rw [← hsame.batchRows, ← hsame.batchBytes, ← hbytes]
    exact hrest.closed
  · rw [← hsame.batchRows, ← hsame.batchBytes, ← hbytes]
    exact hrest.kept

theorem Pending.addRow_ok {fields : List (Option Bytes)} {row : List (Option (PgValue F))} {n : Nat}
    (h : Pending columns c rows) (hcolumns : columns ≠ []) (hrow : decodeRow rt s columns fields = .ok row)
    (hfit : ColumnsFit columns.length (rows ++ [row])) (hsize : c.bytesInBatch + n < 2 ^ 63)
    (hconform : ∀ r ∈ rows ++ [row], Conforms (columns.map fun column => column.toColumnType.field) r) :
    ∃ r, addRow rt s c fields n = .ok r := by
  obtain ⟨d, happend⟩ := h.appendRow_ok hrow hfit
  obtain ⟨row', hrow', -, hnext⟩ := h.appended happend (decodeRow_lengths hrow).1
  cases hrow.symm.trans hrow'
  have hbytes := appendRow_bytes happend
  unfold addRow countRow
  rw [happend]
  simp only [bind, Except.bind]
  rw [Sizes.fit_eq _ (by omega)]
  dsimp only
  split_ifs
  · obtain ⟨r, hflush⟩ := (hnext (d.bytesInBatch + n)).flush_ok hcolumns hconform
    rw [hflush]
    exact ⟨_, rfl⟩
  · exact ⟨_, rfl⟩

/-! ### The rows in batches -/

/-- The rows that no batch closed are one more, if there are any. -/
def lastBatch {V : Type} (pending : List (List V)) : List (List (List V)) := if pending.isEmpty then [] else [pending]

/-- The rows of each batch, where each row comes with the bytes of its tuple. -/
def cutBatches {V : Type} (batchRows batchBytes : Nat) :
    (pending : List (List V)) → (bytes : Nat) → List (List V × Nat) → List (List (List V))
  | pending, _, [] => lastBatch pending
  | pending, bytes, (row, n) :: rest =>
    if closesBatch batchRows batchBytes (pending ++ [row]).length (bytes + n) then
      (pending ++ [row]) :: cutBatches batchRows batchBytes [] 0 rest
    else cutBatches batchRows batchBytes (pending ++ [row]) (bytes + n) rest

theorem eq_of_mem_lastBatch {V : Type} {pending batch : List (List V)} (h : batch ∈ lastBatch pending) :
    batch = pending := by
  unfold lastBatch at h
  split_ifs at h
  · exact absurd h List.not_mem_nil
  · exact List.mem_singleton.mp h

theorem cutBatches_cons {V : Type} (batchRows batchBytes : Nat) (pending : List (List V)) (bytes : Nat) (row : List V)
    (n : Nat) (rest : List (List V × Nat)) :
    cutBatches batchRows batchBytes pending bytes ((row, n) :: rest) =
      if closesBatch batchRows batchBytes (pending ++ [row]).length (bytes + n) then
        (pending ++ [row]) :: cutBatches batchRows batchBytes [] 0 rest
      else cutBatches batchRows batchBytes (pending ++ [row]) (bytes + n) rest := rfl

theorem columnsFit_of_cutBatches {n batchRows batchBytes : Nat} {pending : List (List (Option (PgValue F)))} {bytes : Nat}
    {rest : List (List (Option (PgValue F)) × Nat)}
    (h : ∀ batch ∈ cutBatches batchRows batchBytes pending bytes rest, ColumnsFit n batch) : ColumnsFit n pending := by
  induction rest generalizing pending bytes with
  | nil =>
    cases pending with
    | nil => exact columnsFit_nil n
    | cons row pending => exact h (row :: pending) List.mem_cons_self
  | cons next rest ih =>
    obtain ⟨row, size⟩ := next
    rw [cutBatches_cons] at h
    split_ifs at h
    · exact (h _ List.mem_cons_self).of_append
    · exact (ih h).of_append

/-- The batches that a row completes are the first of those that the rows are cut into. -/
theorem Counted.cut {c' : CopyState F} {row : List (Option (PgValue F))} {n : Nat} {batches : List (Batch (PgValue F))}
    {rest : List (List (Option (PgValue F)))} {more : List (List (Option (PgValue F)) × Nat)}
    (h : Counted columns c (rows ++ [row]) (c.bytesInBatch + n) c' batches rest) (hsame : SamePlan c c') :
    cutBatches c.batchRows c.batchBytes rows c.bytesInBatch ((row, n) :: more) =
      batches.map Batch.rows ++ cutBatches c'.batchRows c'.batchBytes rest c'.bytesInBatch more := by
  rw [hsame.batchRows, hsame.batchBytes, cutBatches_cons]
  split_ifs with hclosed
  · obtain ⟨hbatches, hrest, hbytes⟩ := h.closed hclosed
    rw [hbatches, hrest, hbytes]
    rfl
  · obtain ⟨hbatches, hrest, hbytes⟩ := h.kept hclosed
    rw [hbatches, hrest, hbytes]
    rfl

theorem Counted.cut_fit {c' : CopyState F} {row : List (Option (PgValue F))} {n : Nat}
    {batches : List (Batch (PgValue F))} {rest : List (List (Option (PgValue F)))}
    {more : List (List (Option (PgValue F)) × Nat)}
    (h : Counted columns c (rows ++ [row]) (c.bytesInBatch + n) c' batches rest) (hsame : SamePlan c c') :
    (∀ batch ∈ cutBatches c.batchRows c.batchBytes rows c.bytesInBatch ((row, n) :: more),
        ColumnsFit columns.length batch) ↔
      ColumnsFit columns.length (rows ++ [row]) ∧
        ∀ batch ∈ cutBatches c'.batchRows c'.batchBytes rest c'.bytesInBatch more, ColumnsFit columns.length batch := by
  rw [h.cut hsame, List.forall_mem_append]
  by_cases hclosed : closesBatch c.batchRows c.batchBytes (rows ++ [row]).length (c.bytesInBatch + n)
  · obtain ⟨hbatches, -⟩ := h.closed hclosed
    rw [hbatches, List.forall_mem_singleton]
  · obtain ⟨hbatches, hrest, -⟩ := h.kept hclosed
    rw [hbatches, hrest]
    exact ⟨fun hall => ⟨columnsFit_of_cutBatches hall.2, hall.2⟩, fun hall => ⟨nofun, hall.2⟩⟩

/-! ### The whole stream -/

variable {tuples : List (List (Option Bytes))}

def tupleSizes (tuples : List (List (Option Bytes))) : List Nat := tuples.map fun fields => (tupleBytes fields).length

/-- The tuples that the decoder has taken when it comes to the trailer. -/
theorem Pending.drained {c' : CopyState F} {left : Bytes} {batches : List (Batch (PgValue F))}
    (h : Pending columns c rows) (hdone : c.headerDone = true) (hcount : ∀ fields ∈ tuples, fields.length < 2 ^ 15)
    (hlength : ∀ fields ∈ tuples, ∀ bytes, some bytes ∈ fields → bytes.length < 2 ^ 31)
    (hsize : c.bytesInBatch + (tuples.flatMap tupleBytes).length < 2 ^ 63)
    (hdrain : drain (copyStep rt s) c (tuples.flatMap tupleBytes ++ trailer) = .ok (c', left, batches)) :
    ∃ decoded rest, tuples.mapM (decodeRow rt s columns) = .ok decoded ∧
      rows ++ decoded = batches.flatMap Batch.rows ++ rest ∧ Pending columns c' rest ∧ c'.finished = true ∧
      cutBatches c.batchRows c.batchBytes rows c.bytesInBatch (decoded.zip (tupleSizes tuples)) =
        batches.map Batch.rows ++ lastBatch rest ∧
      ∀ batch ∈ cutBatches c.batchRows c.batchBytes rows c.bytesInBatch (decoded.zip (tupleSizes tuples)),
        ColumnsFit columns.length batch := by
  induction tuples generalizing c rows batches with
  | nil =>
    have hread : readTuple c.oids.length trailer = .trailer := by simpa using readTuple_trailer c.oids.length []
    rw [List.flatMap_nil, List.nil_append, drain_halt (copyStep_trailer hdone hread)] at hdrain
    cases hdrain
    refine ⟨[], rows, rfl, by simp, ⟨h.oids, h.fields, h.kinds, h.cells, h.lengths, h.count, h.fit⟩, rfl, rfl, ?_⟩
    exact fun batch hmem => eq_of_mem_lastBatch hmem ▸ h.fit
  | cons fields tuples ih =>
    have hread := readTuple_bytes c.oids.length (hcount fields List.mem_cons_self)
      (hlength fields List.mem_cons_self) (tuples.flatMap tupleBytes ++ trailer)
    rw [List.flatMap_cons, List.length_append] at hsize
    rw [List.flatMap_cons, List.append_assoc] at hdrain
    by_cases hwidth : fields.length = c.oids.length
    · rw [if_pos hwidth] at hread
      have hstep := @copyStep_tuple _ rt s _ _ _ _ hdone hread
      rw [List.length_append, Nat.add_sub_cancel] at hstep
      cases hadd : addRow rt s c fields (tupleBytes fields).length with
      | error e =>
        simp only [hadd] at hstep
        rw [drain_fail hstep] at hdrain
        cases hdrain
      | ok r =>
        obtain ⟨d, out⟩ := r
        simp only [hadd] at hstep
        rw [drain_next (steady_copyStep rt s) hstep] at hdrain
        cases hrest : drain (copyStep rt s) d (tuples.flatMap tupleBytes ++ trailer) with
        | error e =>
          rw [hrest] at hdrain
          cases hdrain
        | ok r =>
          rw [hrest] at hdrain
          cases hdrain
          have hcols : fields.length = columns.length := by rw [hwidth, h.oids, List.length_map]
          have hbytes := addRow_bytes hadd
          have hsame := addRow_plan hadd
          obtain ⟨row, pending, hrow, hfit, hcounted⟩ := h.added hcols (by omega) hadd
          obtain ⟨decoded, rest, hmap, hall, hlast, hfinished, hcut, hfits⟩ := ih hcounted.pending
            (hsame.headerDone.trans hdone) (fun fs hmem => hcount fs (List.mem_cons_of_mem _ hmem))
            (fun fs hmem => hlength fs (List.mem_cons_of_mem _ hmem)) (by omega) hrest
          refine ⟨row :: decoded, rest, ?_, ?_, hlast, hfinished, ?_, (hcounted.cut_fit hsame).mpr ⟨hfit, hfits⟩⟩
          · rw [List.mapM_cons, hrow, hmap]
            rfl
          · calc rows ++ row :: decoded
                = (rows ++ [row]) ++ decoded := by simp
              _ = out.flatMap Batch.rows ++ (pending ++ decoded) := by rw [hcounted.rows_eq, List.append_assoc]
              _ = _ := by rw [hall, List.flatMap_append, List.append_assoc]
          · rw [List.map_append, List.append_assoc, ← hcut]
            exact hcounted.cut hsame
    · rw [if_neg hwidth] at hread
      have hstep : copyStep rt s c (tupleBytes fields ++ (tuples.flatMap tupleBytes ++ trailer)) =
          .fail (.err (fieldCountError fields.length c.oids.length)) := by
        unfold copyStep
        rw [if_pos hdone, hread]
      rw [drain_fail hstep] at hdrain
      cases hdrain

theorem Pending.drain_ok {decoded : List (List (Option (PgValue F)))} (h : Pending columns c rows)
    (hdone : c.headerDone = true) (hcount : ∀ fields ∈ tuples, fields.length < 2 ^ 15)
    (hlength : ∀ fields ∈ tuples, ∀ bytes, some bytes ∈ fields → bytes.length < 2 ^ 31) (hcolumns : columns ≠ [])
    (hsize : c.bytesInBatch + (tuples.flatMap tupleBytes).length < 2 ^ 63)
    (hdecode : tuples.mapM (decodeRow rt s columns) = .ok decoded)
    (hfits : ∀ batch ∈ cutBatches c.batchRows c.batchBytes rows c.bytesInBatch (decoded.zip (tupleSizes tuples)),
      ColumnsFit columns.length batch)
    (hconform : ∀ r ∈ rows ++ decoded, Conforms (columns.map fun column => column.toColumnType.field) r) :
    ∃ r, drain (copyStep rt s) c (tuples.flatMap tupleBytes ++ trailer) = .ok r := by
  induction tuples generalizing c rows decoded with
  | nil =>
    have hread : readTuple c.oids.length trailer = .trailer := by simpa using readTuple_trailer c.oids.length []
    rw [List.flatMap_nil, List.nil_append, drain_halt (copyStep_trailer hdone hread)]
    exact ⟨_, rfl⟩
  | cons fields tuples ih =>
    rw [List.mapM_cons] at hdecode
    obtain ⟨row, hrow, hdecode⟩ := bind_eq_ok.mp hdecode
    obtain ⟨more, hmore, hdecode⟩ := bind_eq_ok.mp hdecode
    cases hdecode
    rw [List.flatMap_cons, List.length_append] at hsize
    rw [List.flatMap_cons, List.append_assoc]
    have hcols := (decodeRow_lengths hrow).1
    have hwidth : fields.length = c.oids.length := by rw [hcols, h.oids, List.length_map]
    have hread := readTuple_bytes c.oids.length (hcount fields List.mem_cons_self)
      (hlength fields List.mem_cons_self) (tuples.flatMap tupleBytes ++ trailer)
    rw [if_pos hwidth] at hread
    have hstep := @copyStep_tuple _ rt s _ _ _ _ hdone hread
    rw [List.length_append, Nat.add_sub_cancel] at hstep
    have hfirst : ∀ r ∈ rows ++ [row], Conforms (columns.map fun column => column.toColumnType.field) r := by
      intro r hmem
      apply hconform r
      simp only [List.mem_append, List.mem_cons, List.not_mem_nil, or_false] at hmem ⊢
      tauto
    have hroom : c.bytesInBatch + (tupleBytes fields).length < 2 ^ 63 := by omega
    have hfit : ColumnsFit columns.length (rows ++ [row]) := by
      unfold tupleSizes at hfits
      rw [List.map_cons, List.zip_cons_cons, cutBatches_cons] at hfits
      split_ifs at hfits
      · exact hfits _ List.mem_cons_self
      · exact columnsFit_of_cutBatches hfits
    obtain ⟨⟨d, out⟩, hadd⟩ := h.addRow_ok hcolumns hrow hfit hroom hfirst
    simp only [hadd] at hstep
    obtain ⟨row', pending, hrow', -, hcounted⟩ := h.added hcols hroom hadd
    cases hrow.symm.trans hrow'
    have hbytes := addRow_bytes hadd
    have hsame := addRow_plan hadd
    have hrest : ∀ r ∈ pending ++ more, Conforms (columns.map fun column => column.toColumnType.field) r := by
      intro r hmem
      apply hconform r
      have hall : rows ++ row :: more = out.flatMap Batch.rows ++ (pending ++ more) := by
        rw [← List.append_assoc, ← hcounted.rows_eq, List.append_assoc]
        rfl
      rw [hall]
      exact List.mem_append_right _ hmem
    obtain ⟨r, hdrain⟩ := ih hcounted.pending (hsame.headerDone.trans hdone)
      (fun fs hmem => hcount fs (List.mem_cons_of_mem _ hmem)) (fun fs hmem => hlength fs (List.mem_cons_of_mem _ hmem))
      (by omega) hmore ((hcounted.cut_fit hsame).mp hfits).2 hrest
    rw [drain_next (steady_copyStep rt s) hstep, hdrain]
    exact ⟨_, rfl⟩

theorem withBatchBytes_ok (h : ∀ column ∈ columns, ∃ kind, ColBuilder.new column.arrow = .ok kind)
    (batchRows batchBytes : Nat) : ∃ d, CopyDecoder.withBatchBytes columns batchRows batchBytes = .ok (d : CopyDecoder F) := by
  obtain ⟨kinds, hkinds⟩ := mapM_ok h
  exact ⟨_, bind_eq_ok.mpr ⟨kinds, hkinds, rfl⟩⟩

theorem withBatchBytes_limits {batchRows batchBytes : Nat} {d : CopyDecoder F}
    (h : CopyDecoder.withBatchBytes columns batchRows batchBytes = .ok d) :
    d.batchRows = batchRows ∧ d.batchBytes = batchBytes := by
  obtain ⟨kinds, -, h⟩ := bind_eq_ok.mp h
  cases h
  exact ⟨rfl, rfl⟩

theorem Pending.start {d : CopyDecoder F} (h : Fresh columns d) :
    Pending columns { d.toCopyState with headerDone := true } [] where
  oids := h.oids
  fields := h.fields
  kinds := h.kinds
  cells := by
    have hlength := h.kinds.length_eq
    rw [List.length_map] at hlength
    apply List.ext_getElem
    · simp [columnsOf, hlength]
    · intro i hi hi'
      have hnone := h.cells _ (List.getElem_mem (by simpa using hi))
      simp [columnsOf, hnone]
  lengths := fun row hmem => nomatch hmem
  count := h.rowsInBatch
  fit := columnsFit_nil _

theorem CopyStream.drain_eq (stream : CopyStream) {d : CopyDecoder F} (h : d.headerDone = false) :
    drain (copyStep rt s) d.toCopyState stream.bytes =
      drain (copyStep rt s) { d.toCopyState with headerDone := true } stream.body := by
  have hdone : ¬d.headerDone = true := by simp [h]
  rw [drain_next (steady_copyStep rt s) (copyStep_header hdone stream.readHeader_eq)]
  cases drain (copyStep rt s) { d.toCopyState with headerDone := true } stream.body with
  | error e => rfl
  | ok r => rfl

theorem Pending.finished {d d' : CopyDecoder F} {last : Option (Batch (PgValue F))}
    (h : Pending columns d.toCopyState rows) (hfinish : d.finish = .ok (d', last)) :
    rows = last.toList.flatMap Batch.rows ∧ last.toList.map Batch.rows = lastBatch rows ∧ d'.finished = d.finished := by
  unfold CopyDecoder.finish at hfinish
  split_ifs at hfinish with hcount
  · obtain ⟨⟨c, batch⟩, hflush, hfinish⟩ := bind_eq_ok.mp hfinish
    cases hfinish
    have hrows := (h.flush hflush).1
    rw [h.count] at hcount
    have hsome : rows.isEmpty = false := by
      rw [List.isEmpty_eq_false_iff]
      exact List.length_pos_iff.mp hcount
    exact ⟨by simp [hrows], by simp [lastBatch, hrows, hsome], (flushBatch_plan hflush).finished⟩
  · cases hfinish
    rw [h.count] at hcount
    have hnone : rows = [] := List.eq_nil_of_length_eq_zero (by omega)
    exact ⟨by simp [hnone], by simp [lastBatch, hnone], rfl⟩

/-- A run over the whole of a well-formed stream, however that is cut. -/
theorem CopyStream.run_eq (stream : CopyStream) {batchRows batchBytes : Nat} {chunks : List Bytes}
    (hchunks : chunks.flatten = stream.bytes) :
    CopyDecoder.run rt s columns batchRows batchBytes chunks =
      runWhole rt s columns batchRows batchBytes stream.bytes := by
  have hclean : s = .checked ∨ ¬NegativeFraming columns.length chunks.flatten := by
    rw [hchunks]
    exact .inr (stream.not_negativeFraming columns.length)
  have hsize : chunks.flatten.length < 2 ^ 63 := by
    rw [hchunks]
    exact stream.size_lt
  rw [← hchunks]
  exact Quickhouse.run_eq batchRows batchBytes hsize hclean

/-- The run's rows are the tuples, its batches are where they are cut, and each batch of them has offsets. -/
theorem runWhole_rows {batchRows batchBytes : Nat} (stream : CopyStream) {d : CopyDecoder F}
    {batches : List (Batch (PgValue F))}
    (hok : runWhole rt s columns batchRows batchBytes stream.bytes = .ok (d, batches)) :
    d.finished = true ∧ stream.tuples.mapM (decodeRow rt s columns) = .ok (batches.flatMap Batch.rows) ∧
      cutBatches batchRows batchBytes [] 0 ((batches.flatMap Batch.rows).zip (tupleSizes stream.tuples)) =
        batches.map Batch.rows ∧
      ∀ batch ∈ batches, ColumnsFit columns.length batch.rows := by
  unfold runWhole at hok
  obtain ⟨d₀, hnew, hok⟩ := bind_eq_ok.mp hok
  obtain ⟨⟨d₁, most⟩, hdrain, hok⟩ := bind_eq_ok.mp hok
  obtain ⟨⟨d₂, last⟩, hfinish, hok⟩ := bind_eq_ok.mp hok
  cases hok
  have hnew := ofExcept_eq_ok.mp hnew
  have hfresh := fresh_withBatchBytes hnew
  have hsize := stream.size_lt
  rw [stream.drain_eq hfresh.headerDone] at hdrain
  obtain ⟨⟨c, left, out⟩, hbody, hdrain⟩ := map_eq_ok.mp hdrain
  cases hdrain
  obtain ⟨decoded, rest, hmap, hall, hpending, hseen, hcut, hfits⟩ :=
    (Pending.start hfresh).drained rfl stream.count_lt stream.length_lt (by
      have hnone : d₀.bytesInBatch = 0 := hfresh.bytesInBatch
      simp only [List.length_append] at hsize
      dsimp only
      omega) hbody
  obtain ⟨hlast, hrest, hkept⟩ := hpending.finished hfinish
  have hrows : decoded = ([] ++ out ++ last.toList).flatMap Batch.rows := by
    rw [List.nil_append, List.flatMap_append, ← hlast]
    exact hall
  obtain ⟨hbatchRows, hbatchBytes⟩ := withBatchBytes_limits hnew
  have hnone : d₀.bytesInBatch = 0 := hfresh.bytesInBatch
  rw [← hrest, ← List.map_append, hbatchRows, hbatchBytes, hnone] at hcut
  rw [hbatchRows, hbatchBytes, hnone, hcut] at hfits
  rw [hrows] at hmap hcut
  exact ⟨hkept.trans hseen, hmap, hcut, fun batch hmem => hfits _ (List.mem_map_of_mem hmem)⟩

theorem Pending.finish_ok {d : CopyDecoder F} (h : Pending columns d.toCopyState rows) (hcolumns : columns ≠ [])
    (hconform : ∀ row ∈ rows, Conforms (columns.map fun column => column.toColumnType.field) row) :
    ∃ r, d.finish = .ok r := by
  unfold CopyDecoder.finish
  split_ifs
  · obtain ⟨r, hflush⟩ := h.flush_ok hcolumns hconform
    rw [hflush]
    exact ⟨_, rfl⟩
  · exact ⟨_, rfl⟩

theorem runWhole_ok {batchRows batchBytes : Nat} (stream : CopyStream)
    {decoded : List (List (Option (PgValue F)))} (hkinds : ∀ column ∈ columns, ∃ kind, ColBuilder.new column.arrow = .ok kind)
    (hcolumns : columns ≠ []) (hdecode : stream.tuples.mapM (decodeRow rt s columns) = .ok decoded)
    (hfits : ∀ batch ∈ cutBatches batchRows batchBytes [] 0 (decoded.zip (tupleSizes stream.tuples)),
      ColumnsFit columns.length batch)
    (hconform : ∀ row ∈ decoded, Conforms (columns.map fun column => column.toColumnType.field) row) :
    ∃ d batches, runWhole rt s columns batchRows batchBytes stream.bytes = .ok (d, batches) := by
  obtain ⟨d₀, hnew⟩ := withBatchBytes_ok (F := F) hkinds batchRows batchBytes
  have hfresh := fresh_withBatchBytes hnew
  have hnone : d₀.bytesInBatch = 0 := hfresh.bytesInBatch
  have hsize : d₀.bytesInBatch + (stream.tuples.flatMap tupleBytes).length < 2 ^ 63 := by
    have hsize := stream.size_lt
    simp only [List.length_append] at hsize
    omega
  obtain ⟨hbatchRows, hbatchBytes⟩ := withBatchBytes_limits hnew
  rw [← hbatchRows, ← hbatchBytes, ← hnone] at hfits
  obtain ⟨⟨c, left, out⟩, hbody⟩ := @Pending.drain_ok _ rt s _ _ _ _ _ (Pending.start hfresh) rfl stream.count_lt
    stream.length_lt hcolumns hsize hdecode hfits hconform
  obtain ⟨rows, rest, hmap, hall, hpending, -⟩ :=
    (Pending.start hfresh).drained rfl stream.count_lt stream.length_lt hsize hbody
  cases hdecode.symm.trans hmap
  have hrest : ∀ row ∈ rest, Conforms (columns.map fun column => column.toColumnType.field) row := by
    intro row hmem
    apply hconform row
    rw [List.nil_append] at hall
    rw [hall]
    exact List.mem_append_right _ hmem
  obtain ⟨⟨d₁, last⟩, hfinish⟩ := @Pending.finish_ok _ _ _ { toCopyState := c, buf := left } hpending hcolumns hrest
  refine ⟨d₁, out ++ last.toList, ?_⟩
  refine bind_eq_ok.mpr ⟨d₀, ofExcept_eq_ok.mpr hnew, bind_eq_ok.mpr ⟨({ toCopyState := c, buf := left }, out), ?_,
    bind_eq_ok.mpr ⟨(d₁, last), hfinish, rfl⟩⟩⟩
  rw [stream.drain_eq hfresh.headerDone]
  exact map_eq_ok.mpr ⟨(c, left, out), hbody, rfl⟩

end

/-- However a well-formed stream is cut, the decoder ends with the same batches and in the same state, or with the same
error; each tuple is one row of the batches, in order, which are cut at their limits, and the trailer was seen; and where each tuple decodes to a row
that the columns take, it comes to that end when no column of a batch is longer than its offsets reach. -/
theorem chunks_irrelevant {F : Type} (rt : PgRuntime F) (s : Sizes) (columns : List CopyColumn)
    (batchRows batchBytes : Nat) (stream : CopyStream) (chunks : List Bytes) (hchunks : chunks.flatten = stream.bytes) :
    CopyDecoder.run rt s columns batchRows batchBytes chunks =
      CopyDecoder.run rt s columns batchRows batchBytes [stream.bytes] ∧
    (∀ d batches, CopyDecoder.run rt s columns batchRows batchBytes chunks = .ok (d, batches) →
      d.finished = true ∧ stream.tuples.mapM (decodeRow rt s columns) = .ok (batches.flatMap Batch.rows) ∧
        batches.map Batch.rows =
          cutBatches batchRows batchBytes [] 0 ((batches.flatMap Batch.rows).zip (tupleSizes stream.tuples))) ∧
    ((∀ column ∈ columns, ∃ kind, ColBuilder.new column.arrow = .ok kind) → columns ≠ [] →
      ∀ rows, stream.tuples.mapM (decodeRow rt s columns) = .ok rows →
        (∀ row ∈ rows, Conforms (columns.map fun column => column.toColumnType.field) row) →
        ((∃ d batches, CopyDecoder.run rt s columns batchRows batchBytes chunks = .ok (d, batches)) ↔
          ∀ batch ∈ cutBatches batchRows batchBytes [] 0 (rows.zip (tupleSizes stream.tuples)),
            ColumnsFit columns.length batch)) := by
  have hrows := @runWhole_rows _ rt s columns batchRows batchBytes stream
  refine ⟨?_, ?_, ?_⟩
  · rw [stream.run_eq hchunks, stream.run_eq (show [stream.bytes].flatten = stream.bytes by simp)]
  · intro d batches hok
    rw [stream.run_eq hchunks] at hok
    obtain ⟨hfinished, hdecode, hcut, -⟩ := hrows hok
    exact ⟨hfinished, hdecode, hcut.symm⟩
  · intro hkinds hcolumns rows hdecode hconform
    rw [stream.run_eq hchunks]
    constructor
    · rintro ⟨d, batches, hok⟩
      obtain ⟨-, hdecode', hcut, hfits⟩ := hrows hok
      cases hdecode.symm.trans hdecode'
      rw [hcut, List.forall_mem_map]
      exact hfits
    · exact fun hfits => runWhole_ok stream hkinds hcolumns hdecode hfits hconform

def byteaColumn : CopyColumn where
  name := "photo"
  nullable := true
  arrow := .binary
  clickhouseInner := "String"
  typeId := 17

/-- Three equal values of one column. -/
def threeValues (x : Bytes) (h : x.length ≤ 10 ^ 9) : CopyStream where
  flags := [0, 0, 0, 0]
  extension := []
  tuples := [[some x], [some x], [some x]]
  flags_length := rfl
  extension_lt := by decide
  count_lt := by simp
  length_lt := by
    intro fields hfields bytes hbytes
    obtain rfl : fields = [some x] := by simpa using hfields
    obtain rfl : bytes = x := by simpa using hbytes
    omega
  size_lt := by
    simp only [headerBytes, tupleBytes, fieldBytes, trailer, copySignature, List.flatMap_cons, List.flatMap_nil,
      List.length_append, List.length_cons, List.length_nil, bigEndian_length]
    omega

theorem threeValues_rows {x : Bytes} (h : x.length ≤ 10 ^ 9) :
    (threeValues x h).tuples.mapM (decodeRow noDoubles .wrapping [byteaColumn]) =
      .ok [[some (.bytes x)], [some (.bytes x)], [some (.bytes x)]] := rfl

theorem threeValues_conform {x : Bytes} {row : List (Option (PgValue Unit))}
    (h : row ∈ [[some (.bytes x)], [some (.bytes x)], [some (.bytes x)]]) : Conforms [byteaColumn.field] row := by
  obtain rfl : row = [some (.bytes x)] := by simpa using h
  exact ⟨rfl, by simp [byteaColumn]⟩

theorem threeValues_not_ok {x : Bytes} (h : x.length ≤ 10 ^ 9) (hlong : 2 ^ 31 ≤ 3 * x.length) {chunks : List Bytes}
    (hchunks : chunks.flatten = (threeValues x h).bytes) :
    ¬∃ d batches, CopyDecoder.run noDoubles .wrapping [byteaColumn] 10 0 chunks = .ok (d, batches) := by
  rintro ⟨d, batches, hok⟩
  rw [(threeValues x h).run_eq hchunks] at hok
  obtain ⟨-, hrows, hcut, hfits⟩ := runWhole_rows (threeValues x h) hok
  rw [← List.forall_mem_map, ← hcut, ← Except.ok.inj ((threeValues_rows h).symm.trans hrows)] at hfits
  have hfit := hfits [[some (.bytes x)], [some (.bytes x)], [some (.bytes x)]] (by
    simp [threeValues, tupleSizes, cutBatches, closesBatch, lastBatch])
  have hcolumn := hfit [some (.bytes x), some (.bytes x), some (.bytes x)] (by simp [columnsOf, byteaColumn])
  simp only [columnBytes, PgValue.bufferBytes, List.map_cons, List.map_nil, Option.map_some, Option.getD_some,
    List.sum_cons, List.sum_nil, MachineInt.i32Max] at hcolumn
  omega

/-- Three values of 10^9 bytes. -/
def threeLongValues : CopyStream := threeValues (List.replicate (10 ^ 9) 0) List.length_replicate.le

/-- Where the bytes do not close their batch, it has no offsets for them. -/
theorem three_long_values_end_the_decoder :
    (∃ rows, threeLongValues.tuples.mapM (decodeRow noDoubles .wrapping [byteaColumn]) = .ok rows ∧
        ∀ row ∈ rows, Conforms [byteaColumn.field] row) ∧
      ¬∃ d batches, CopyDecoder.run noDoubles .wrapping [byteaColumn] 10 0 [threeLongValues.bytes] = .ok (d, batches) := by
  have hlong : 2 ^ 31 ≤ 3 * (List.replicate (10 ^ 9) (0 : UInt8)).length := by
    rw [List.length_replicate]
    decide
  exact ⟨⟨_, threeValues_rows List.length_replicate.le, fun row => threeValues_conform⟩,
    threeValues_not_ok List.length_replicate.le hlong (List.append_nil _)⟩

/-- A seven and a NULL. -/
def sevenAndNull : CopyStream where
  flags := [0, 0, 0, 0]
  extension := []
  tuples := [[some [0, 0, 0, 7]], [none]]
  flags_length := rfl
  extension_lt := by decide
  count_lt := by simp
  length_lt := by simp
  size_lt := by decide

theorem seven_and_null_in_two_chunks :
    CopyDecoder.run noDoubles .wrapping [int4Column] 10 0 [sevenAndNull.bytes.take 23, sevenAndNull.bytes.drop 23] =
      CopyDecoder.run noDoubles .wrapping [int4Column] 10 0 [sevenAndNull.bytes] ∧
    ∃ d batches, CopyDecoder.run noDoubles .wrapping [int4Column] 10 0 [sevenAndNull.bytes] = .ok (d, batches) ∧
      d.finished = true ∧ batches.flatMap Batch.rows = [[some (.int 7)], [none]] := by
  obtain ⟨hsame, hends, hok⟩ := chunks_irrelevant noDoubles .wrapping [int4Column] 10 0 sevenAndNull
    [sevenAndNull.bytes.take 23, sevenAndNull.bytes.drop 23] (by simp)
  have hrows : sevenAndNull.tuples.mapM (decodeRow noDoubles .wrapping [int4Column]) =
      .ok [[some (.int 7)], [none]] := by decide +kernel
  obtain ⟨d, batches, hrun⟩ := (hok (by simp [int4Column, ColBuilder.new]) (by simp) _ hrows (by decide)).mpr (by
    unfold ColumnsFit
    decide)
  obtain ⟨hfinished, hmap, -⟩ := hends d batches hrun
  refine ⟨hsame, d, batches, hsame ▸ hrun, hfinished, ?_⟩
  exact (Except.ok.inj (hrows.symm.trans hmap)).symm

end Quickhouse
