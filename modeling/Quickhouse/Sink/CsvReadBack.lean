import Quickhouse.Sink.CsvWriter

/-!
# Reading a part back

A strict reader gets from a part what was written: a record for each row, a field for each column, NULL apart from the
empty text.  The fields framed by `pushField` always read back; a boolean does where the delimiter is none of its
letters.
-/

namespace Quickhouse

open Csv

variable {δ : Type}

/-! ### Fields -/

private theorem double_of_foldl (value out : Bytes) :
    value.foldl (fun out b => (if b = quote then out ++ [quote] else out) ++ [b]) out = out ++ double value := by
  induction value generalizing out with
  | nil => simp [double]
  | cons b value ih =>
    have hcons : double (b :: value) = (if b = quote then [quote, quote] else [b]) ++ double value := rfl
    rw [List.foldl_cons, ih, hcons]
    by_cases hb : b = quote
    · simp [hb]
    · simp [hb]

/-- A framed field reads back as the value it holds. -/
theorem pushField_spells {d : UInt8} (hd : Delimits d) (value : Bytes) :
    ∃ text f, (∀ out, pushField out value d = out ++ text) ∧ Spells d text [f] ∧ f.value = some value := by
  by_cases hempty : value = []
  · subst hempty
    exact ⟨_, _, fun out => if_pos rfl, spells_quoted hd [], rfl⟩
  · have hvalue : ∀ q, (RawField.mk value q).value = some value := by simp [RawField.value, hempty]
    by_cases hplain : value.any (fun b => b = d || b = quote || b = lf || b = cr) = true
    · refine ⟨_, _, fun out => ?_, spells_quoted hd value, hvalue true⟩
      rw [pushField, if_neg hempty, if_neg (not_not.mpr hplain), double_of_foldl]
      simp
    · have hnone : ∀ b ∈ value, ¬(((b = d ∨ b = quote) ∨ b = lf) ∨ b = cr) := by
        simpa [List.any_eq_true] using hplain
      have hframing : ∀ b ∈ value, framing b = false := by
        intro b hb
        have := hnone b hb
        simp only [not_or] at this
        simp [framing, this]
      have hmem : d ∉ value := fun h => hnone d h (Or.inl (Or.inl (Or.inl rfl)))
      refine ⟨value, _, fun out => ?_, spells_bare hd hframing hmem, hvalue false⟩
      rw [pushField, if_neg hempty, if_pos hplain]

/-- Items pushed one after the other spell the fields of all of them. -/
theorem pushJoined_spells {α ε : Type} {push : Bytes → α → Except ε Bytes} {d : UInt8}
    {P : α → List RawField → Prop}
    (hpush : ∀ x out out', push out x = .ok out' → ∃ text fs, out' = out ++ text ∧ Spells d text fs ∧ P x fs)
    {items : List α} (hne : items ≠ []) {first : Bool} {out out' : Bytes}
    (h : pushJoined push d first items out = .ok out') :
    ∃ text fss, out' = (if first then out else out ++ [d]) ++ text ∧ Spells d text fss.flatten ∧
      List.Forall₂ P items fss := by
  induction items generalizing first out with
  | nil => exact absurd rfl hne
  | cons x xs ih =>
    rw [pushJoined] at h
    cases hx : push (if first then out else out ++ [d]) x with
    | error e =>
      rw [hx] at h
      cases h
    | ok next =>
      rw [hx] at h
      obtain ⟨text, fs, rfl, hspells, hP⟩ := hpush _ _ _ hx
      have hrest : pushJoined push d false xs ((if first then out else out ++ [d]) ++ text) = .ok out' := h
      cases xs with
      | nil =>
        obtain rfl := Except.ok.inj hrest
        exact ⟨text, [fs], rfl, by simpa using hspells, .cons hP .nil⟩
      | cons y ys =>
        obtain ⟨text', fss, rfl, hspells', hPs⟩ := ih (List.cons_ne_nil y ys) hrest
        refine ⟨text ++ d :: text', fs :: fss, ?_, ?_, .cons hP hPs⟩
        · simp
        · rw [List.flatten_cons]
          exact hspells.append hspells'

/-! ### Rows -/

namespace Column

variable {rows : Nat}

/-- What the row holds in this column, as text; NULL is none. -/
def value (r : Renderer δ) (c : Column δ rows) (i : Fin rows) : Option Bytes :=
  (c.cell i).bind fun v => (c.kind.render r v).toOption

/-- The delimiter is a letter of the row's boolean. -/
def Ambiguous (r : Renderer δ) (d : UInt8) (c : Column δ rows) (i : Fin rows) : Prop :=
  c.kind = .boolean ∧ ∃ text, c.value r i = some text ∧ d ∈ text

/-- The fields of a column's text: one, which gives back the value, or more where a boolean holds the delimiter. -/
structure ReadsAs (r : Renderer δ) (d : UInt8) (i : Fin rows) (c : Column δ rows) (fs : List RawField) : Prop where
  length : 1 ≤ fs.length
  ambiguous : c.Ambiguous r d i → 2 ≤ fs.length
  clear : ¬ c.Ambiguous r d i → fs.map RawField.value = [c.value r i]

private theorem render_boolean (r : Renderer δ) {kind : Kind} (hkind : kind = .boolean) {v : kind.Value δ}
    {text : Bytes} (h : kind.render r v = .ok text) : text = trueText ∨ text = falseText := by
  subst hkind
  obtain rfl := Except.ok.inj h
  cases v
  · exact Or.inr rfl
  · exact Or.inl rfl

/-- A boolean is one of the two texts. -/
theorem value_boolean {r : Renderer δ} {c : Column δ rows} {i : Fin rows} {text : Bytes} (hkind : c.kind = .boolean)
    (h : c.value r i = some text) : text = trueText ∨ text = falseText := by
  obtain ⟨v, -, hv⟩ := Option.bind_eq_some_iff.mp h
  cases hrender : c.kind.render r v with
  | error e =>
    rw [hrender] at hv
    cases hv
  | ok text' =>
    rw [hrender] at hv
    obtain rfl := Option.some.inj hv
    exact render_boolean r hkind hrender

theorem push_reads {r : Renderer δ} {d : UInt8} (hd : Delimits d) {c : Column δ rows} {i : Fin rows}
    {out out' : Bytes} (h : c.push r i d out = .ok out') :
    ∃ text fs, out' = out ++ text ∧ Spells d text fs ∧ c.ReadsAs r d i fs := by
  unfold push at h
  cases hcell : c.cell i with
  | none =>
    rw [hcell] at h
    obtain rfl := Except.ok.inj h
    have hvalue : c.value r i = none := by simp [value, hcell]
    have hclear : ¬ c.Ambiguous r d i := by
      rintro ⟨-, text, htext, -⟩
      rw [hvalue] at htext
      cases htext
    refine ⟨[], [⟨[], false⟩], by simp, spells_bare hd nofun nofun, Nat.le_refl _, fun ha => absurd ha hclear,
      fun _ => ?_⟩
    rw [hvalue]
    rfl
  | some v =>
    rw [hcell] at h
    cases htext : c.kind.render r v with
    | error e =>
      simp only [htext] at h
      cases h
    | ok text =>
      have hvalue : c.value r i = some text := by simp [value, hcell, htext, Except.toOption]
      have h' : (if c.kind = .boolean then out ++ text else pushField out text d) = out' := by
        simp only [htext] at h
        exact Except.ok.inj h
      by_cases hkind : c.kind = .boolean
      · -- the letters of a boolean frame nothing, but one of them may be the delimiter
        rw [if_pos hkind] at h'
        subst h'
        have hbool := value_boolean hkind hvalue
        have hletters : ∀ b ∈ text, framing b = false := by
          rcases hbool with rfl | rfl
          · simp [trueText, framing, quote, cr, lf]
          · simp [falseText, framing, quote, cr, lf]
        have hne : text ≠ [] := by
          rcases hbool with rfl | rfl
          · decide
          · decide
        obtain ⟨fs, hspells, hlength, htwo, hone⟩ := exists_spells hd text hletters
        refine ⟨text, fs, rfl, hspells, hlength, ?_, fun hclear => ?_⟩
        · rintro ⟨-, text', htext', hmem⟩
          obtain rfl := Option.some.inj (hvalue.symm.trans htext')
          exact htwo hmem
        · rw [hone fun hmem => hclear ⟨hkind, text, hvalue, hmem⟩, hvalue]
          simp [RawField.value, hne]
      · rw [if_neg hkind] at h'
        obtain ⟨piece, f, hpiece, hspells, hf⟩ := pushField_spells hd text
        refine ⟨piece, [f], ?_, hspells, Nat.le_refl _, fun ha => absurd ha.1 hkind, fun _ => ?_⟩
        · rw [← h', hpiece]
        · rw [List.map_singleton, hf, hvalue]

end Column

namespace CsvBatch

/-- The record of a row. -/
def values (r : Renderer δ) (b : CsvBatch δ) (i : Fin b.rows) : List (Option Bytes) := b.columns.map (·.value r i)

/-- The records of all rows. -/
def records (r : Renderer δ) (b : CsvBatch δ) : List (List (Option Bytes)) := (List.finRange b.rows).map (b.values r)

/-- No boolean of the row has the delimiter among its letters. -/
def ClearRow (r : Renderer δ) (d : UInt8) (b : CsvBatch δ) (i : Fin b.rows) : Prop :=
  ∀ c ∈ b.columns, ¬ c.Ambiguous r d i

end CsvBatch

private theorem flatten_reads {rows : Nat} {r : Renderer δ} {d : UInt8} {i : Fin rows} {cs : List (Column δ rows)}
    {fss : List (List RawField)} (h : List.Forall₂ (Column.ReadsAs r d i) cs fss) :
    cs.length ≤ fss.flatten.length ∧ ((∃ c ∈ cs, c.Ambiguous r d i) → cs.length < fss.flatten.length) ∧
      ((∀ c ∈ cs, ¬ c.Ambiguous r d i) → fss.flatten.map RawField.value = cs.map (·.value r i)) := by
  induction h with
  | nil => simp
  | @cons c fs cs fss hc _ ih =>
    obtain ⟨hle, hlt, hclear⟩ := ih
    have hone := hc.length
    simp only [List.flatten_cons, List.length_append, List.length_cons, List.map_append, List.map_cons,
      List.mem_cons, exists_eq_or_imp, forall_eq_or_imp]
    refine ⟨by omega, ?_, fun ⟨hc', hcs⟩ => ?_⟩
    · rintro (ha | ha)
      · have := hc.ambiguous ha
        omega
      · have := hlt ha
        omega
    · rw [hc.clear hc', hclear hcs, List.singleton_append]

/-! ### The file -/

namespace PartWriter

/-- The lines written so far spell these records. -/
def Holds (w : PartWriter) (records : List (List RawField)) : Prop :=
  ∃ texts, w.out ++ w.buf = texts.flatMap (· ++ [lf]) ∧ List.Forall₂ (Spells w.delimiter) texts records

/-- One more line in the buffer. -/
theorem Holds.line {w : PartWriter} {records : List (List RawField)} (h : w.Holds records) {text : Bytes}
    {fs : List RawField} (hspells : Spells w.delimiter text fs) :
    { w with buf := w.buf ++ text ++ [lf] }.Holds (records ++ [fs]) := by
  obtain ⟨texts, hout, hall⟩ := h
  refine ⟨texts ++ [text], ?_, List.rel_append hall (.cons hspells .nil)⟩
  rw [List.flatMap_append, ← hout]
  simp

theorem Holds.flushBuf {w : PartWriter} {records : List (List RawField)} (h : w.Holds records) :
    w.flushBuf.Holds records := by
  obtain ⟨texts, hout, hall⟩ := h
  exact ⟨texts, by simpa [PartWriter.flushBuf] using hout, hall⟩

/-- The record of a row, as it reads back. -/
structure RowReads (r : Renderer δ) (d : UInt8) (b : CsvBatch δ) (i : Fin b.rows) (fs : List RawField) : Prop where
  clear : b.ClearRow r d i → fs.map RawField.value = b.values r i
  ambiguous : ¬ b.ClearRow r d i → b.columns.length < fs.length

theorem writeRows_holds {r : Renderer δ} {b : CsvBatch δ} {is : List (Fin b.rows)} {w w' : PartWriter}
    {written written' : Nat} (hd : Delimits w.delimiter) {records : List (List RawField)} (hw : w.Holds records)
    (h : writeRows r b is w written = .ok (w', written')) :
    w'.delimiter = w.delimiter ∧
      ∃ more, w'.Holds (records ++ more) ∧ List.Forall₂ (RowReads r w.delimiter b) is more := by
  induction is generalizing w written records with
  | nil =>
    obtain ⟨rfl, -⟩ := Prod.mk.inj (Except.ok.inj h)
    exact ⟨rfl, [], by simpa using hw, .nil⟩
  | cons i is ih =>
    rw [writeRows] at h
    cases hrow : pushJoined (fun out (c : Column δ b.rows) => c.push r i w.delimiter out) w.delimiter true b.columns
        w.buf with
    | error e =>
      rw [hrow] at h
      cases h
    | ok buf =>
      rw [hrow] at h
      obtain ⟨text, fss, rfl, hspells, hall⟩ := pushJoined_spells
        (fun _ _ _ hpush => Column.push_reads hd hpush) b.columns_ne_nil hrow
      obtain ⟨-, hlt, hclear⟩ := flatten_reads hall
      have hreads : RowReads r w.delimiter b i fss.flatten := by
        refine ⟨hclear, fun hnot => hlt ?_⟩
        simpa [CsvBatch.ClearRow] using hnot
      have hline := hw.line hspells
      have hstep : ∃ w₁ written₁, w₁.Holds (records ++ [fss.flatten]) ∧
          writeRows r b is w₁ written₁ = .ok (w', written') ∧ w₁.delimiter = w.delimiter := by
        simp only [bind, Except.bind, if_true] at h
        split at h
        · exact ⟨_, _, hline.flushBuf, h, rfl⟩
        · exact ⟨_, _, hline, h, rfl⟩
      obtain ⟨w₁, written₁, hw₁, hrest, hd₁⟩ := hstep
      obtain ⟨hd', more, hholds, hmore⟩ := ih (hd₁ ▸ hd) hw₁ hrest
      refine ⟨hd'.trans hd₁, fss.flatten :: more, ?_, .cons hreads (hd₁ ▸ hmore)⟩
      simpa using hholds

theorem write_holds {r : Renderer δ} {b : CsvBatch δ} {w w' : PartWriter} {written : Nat} (hd : Delimits w.delimiter)
    {records : List (List RawField)} (hw : w.Holds records) (h : w.write r b = .ok (w', written)) :
    w'.delimiter = w.delimiter ∧ w'.buf = [] ∧
      ∃ more, w'.Holds (records ++ more) ∧ List.Forall₂ (RowReads r w.delimiter b) (List.finRange b.rows) more := by
  unfold write at h
  cases hcheck : b.columns.forM Column.check with
  | error e =>
    rw [hcheck] at h
    cases h
  | ok u =>
    rw [hcheck] at h
    cases hrows : writeRows r b (List.finRange b.rows) w 0 with
    | error e =>
      simp only [bind, Except.bind, hrows] at h
      cases h
    | ok res =>
      simp only [bind, Except.bind, hrows] at h
      obtain ⟨rfl, -⟩ := Prod.mk.inj (Except.ok.inj h)
      obtain ⟨hd', more, hholds, hmore⟩ := writeRows_holds hd hw hrows
      exact ⟨hd', rfl, more, hholds.flushBuf, hmore⟩

/-- Rows read back exactly where each of them is clear. -/
theorem rowReads_iff {r : Renderer δ} {d : UInt8} {b : CsvBatch δ} {is : List (Fin b.rows)}
    {rows : List (List RawField)} (h : List.Forall₂ (RowReads r d b) is rows) :
    rows.map (·.map RawField.value) = is.map (b.values r) ↔ ∀ i ∈ is, b.ClearRow r d i := by
  induction h with
  | nil => simp
  | @cons i fs is rows hi _ ih =>
    have hrow : fs.map RawField.value = b.values r i ↔ b.ClearRow r d i := by
      refine ⟨fun heq => ?_, hi.clear⟩
      by_contra hnot
      have hlt := hi.ambiguous hnot
      have hlength := congrArg List.length heq
      rw [List.length_map, CsvBatch.values, List.length_map] at hlength
      omega
    rw [List.map_cons, List.map_cons, List.cons.injEq, ih, hrow]
    simp

/-- The batches, one after the other: the rows of all of them in their order. -/
theorem writeAll_holds {r : Renderer δ} {batches : List (CsvBatch δ)} {w w' : PartWriter} (hd : Delimits w.delimiter)
    {records : List (List RawField)} (hw : w.Holds records) (hbuf : w.buf = []) (h : writeAll r batches w = .ok w') :
    w'.delimiter = w.delimiter ∧ w'.buf = [] ∧ ∃ more, w'.Holds (records ++ more) ∧
      (more.map (·.map RawField.value) = batches.flatMap (·.records r) ↔
        ∀ b ∈ batches, ∀ i, b.ClearRow r w.delimiter i) := by
  induction batches generalizing w records with
  | nil =>
    obtain rfl := Except.ok.inj h
    exact ⟨rfl, hbuf, [], by simpa using hw, by simp⟩
  | cons b batches ih =>
    rw [writeAll] at h
    cases hwrite : w.write r b with
    | error e =>
      rw [hwrite] at h
      cases h
    | ok res =>
      obtain ⟨w₁, written⟩ := res
      rw [hwrite] at h
      obtain ⟨hd₁, hbuf₁, rows, hw₁, hrows⟩ := write_holds hd hw hwrite
      obtain ⟨hd', hbuf', more, hholds, hiff⟩ := ih (hd₁ ▸ hd) hw₁ hbuf₁ h
      refine ⟨hd'.trans hd₁, hbuf', rows ++ more, by simpa using hholds, ?_⟩
      have hlength : (rows.map (·.map RawField.value)).length = (b.records r).length := by
        simp [CsvBatch.records, ← hrows.length_eq]
      have hrow := rowReads_iff hrows
      rw [List.map_append, List.flatMap_cons, List.forall_mem_cons]
      rw [hd₁] at hiff
      constructor
      · intro heq
        obtain ⟨hthis, hrest⟩ := List.append_inj heq hlength
        exact ⟨fun i => hrow.mp hthis i (List.mem_finRange i), hiff.mp hrest⟩
      · rintro ⟨hthis, hrest⟩
        have hthis' : rows.map (·.map RawField.value) = b.records r := hrow.mpr fun i _ => hthis i
        rw [hthis', hiff.mpr hrest]

end PartWriter

/-- Lines that are spelled read back as the records. -/
theorem read_lines {d : UInt8} {texts : List Bytes} {records : List (List RawField)}
    (h : List.Forall₂ (Spells d) texts records) : Csv.read d (texts.flatMap (· ++ [lf])) = some records := by
  unfold Csv.read
  induction h with
  | nil => rfl
  | cons hspells _ ih =>
    rw [List.flatMap_cons, List.append_assoc, List.singleton_append, readFrom_line hspells, ih]
    rfl

private theorem flatten_names {names : List String} {fss : List (List RawField)}
    (h : List.Forall₂ (fun name fs => fs.map RawField.value = [some (utf8 name)]) names fss) :
    fss.flatten.map RawField.value = names.map fun n => some (utf8 n) := by
  induction h with
  | nil => rfl
  | cons hname _ ih => rw [List.flatten_cons, List.map_append, hname, ih, List.map_cons, List.singleton_append]

/-- The header row is one record: the column names. -/
theorem create_holds {format : PartFormat} {table : TableNames} (hd : Delimits format.delimiter) {w : PartWriter}
    (h : PartWriter.create format table = .ok w) :
    w.delimiter = format.delimiter ∧ w.buf = [] ∧ ∃ records, w.Holds records ∧
      records.map (·.map RawField.value) = if format.header then [table.names.map fun n => some (utf8 n)] else [] := by
  unfold PartWriter.create at h
  split at h
  case isFalse hheader =>
    obtain rfl := Except.ok.inj h
    exact ⟨rfl, rfl, [], ⟨[], rfl, .nil⟩, by simp [hheader]⟩
  case isTrue hheader =>
    unfold pushHeader at h
    cases hjoin : pushJoined (fun out (name : String) => (.ok (pushField out (utf8 name) format.delimiter) :
        Except EtlError Bytes)) format.delimiter true table.names [] with
    | error e =>
      simp only [bind, Except.bind, hjoin] at h
      cases h
    | ok out =>
      simp only [bind, Except.bind, hjoin] at h
      obtain rfl := Except.ok.inj h
      obtain ⟨text, fss, htext, hspells, hall⟩ := @pushJoined_spells String EtlError _ _
        (fun name fs => fs.map RawField.value = [some (utf8 name)]) (fun name out out' hpush => by
          obtain ⟨piece, f, hpiece, hf, hvalue⟩ := pushField_spells hd (utf8 name)
          obtain rfl := Except.ok.inj hpush
          exact ⟨piece, [f], hpiece out, hf, by rw [List.map_singleton, hvalue]⟩) _ table.names_ne_nil _ _ _ hjoin
      have htext' : out = text := htext
      rw [if_pos hheader]
      refine ⟨rfl, rfl, [fss.flatten], ⟨[text], by simp [PartWriter.flushBuf, htext'], .cons hspells .nil⟩, ?_⟩
      rw [List.map_singleton, flatten_names hall]

/-- What a reader of the part should get: the names, where there is a header, and each row's values. -/
def partRecords (r : Renderer δ) (format : PartFormat) (table : TableNames) (batches : List (CsvBatch δ)) :
    List (List (Option Bytes)) :=
  (if format.header then [table.names.map fun n => some (utf8 n)] else []) ++ batches.flatMap (·.records r)

/-- A part reads back as what was written to it exactly where no boolean of a row has the delimiter among its
letters. -/
theorem csv_reads_back_iff (r : Renderer δ) (format : PartFormat) (table : TableNames) (batches : List (CsvBatch δ))
    {w₀ w : PartWriter} (hdelimiter : checkDelimiter format.delimiter = .ok ())
    (hcreate : PartWriter.create format table = .ok w₀) (hwrite : PartWriter.writeAll r batches w₀ = .ok w) :
    (Csv.read format.delimiter w.out).map (fun records => records.map (·.map RawField.value)) =
        some (partRecords r format table batches) ↔
      ∀ b ∈ batches, ∀ i, ∀ c ∈ b.columns, ¬ c.Ambiguous r format.delimiter i := by
  have hd := delimits_of_check hdelimiter
  obtain ⟨hd₀, hbuf₀, names, hw₀, hnames⟩ := create_holds hd hcreate
  obtain ⟨hd', hbuf, more, ⟨texts, hout, hall⟩, hiff⟩ := PartWriter.writeAll_holds (hd₀ ▸ hd) hw₀ hbuf₀ hwrite
  rw [hbuf, List.append_nil] at hout
  rw [hd', hd₀] at hall
  rw [hout, read_lines hall, Option.map_some, Option.some.injEq, List.map_append, hnames, partRecords,
    List.append_right_inj, hiff, hd₀]
  rfl

/-- Natural numbers in their decimal text. -/
def decimals : Renderer Nat where
  base64 bytes := bytes
  display n := .ok (decimal n)

/-- A number, a text that is NULL, then empty, then holds a comma and a quote, and a boolean. -/
def threeRowsOfEach : CsvBatch Nat where
  rows := 3
  columns := [
    ⟨"id", .other, fun i => some (show Nat from i.val + 9)⟩,
    ⟨"name", .utf8, fun i => [none, some [], some [97, 44, 34]][i]⟩,
    ⟨"paid", .boolean, fun i => some (show Bool from i.val = 1)⟩]
  columns_ne_nil := List.cons_ne_nil _ _

theorem csv_reads_back_iff_three_rows : ∃ w₀ w,
    PartWriter.create { delimiter := 44, header := true } ⟨["id", "name", "paid"], List.cons_ne_nil _ _⟩ = .ok w₀ ∧
    PartWriter.writeAll decimals [threeRowsOfEach] w₀ = .ok w ∧
    (Csv.read 44 w.out).map (fun records => records.map (·.map RawField.value)) = some
      ([utf8 "id", utf8 "name", utf8 "paid"].map some ::
        [[some [57], none, some falseText], [some [49, 48], some [], some trueText],
          [some [49, 49], some [97, 44, 34], some falseText]]) := by
  refine ⟨_, _, rfl, rfl, ?_⟩
  refine (csv_reads_back_iff decimals { delimiter := 44, header := true } ⟨["id", "name", "paid"], List.cons_ne_nil _ _⟩ [threeRowsOfEach]
    rfl rfl rfl).mpr ?_
  rintro b hb i c hc ⟨hkind, text, htext, hmem⟩
  obtain rfl := List.mem_singleton.mp hb
  rcases Column.value_boolean hkind htext with rfl | rfl
  · exact absurd hmem (by decide)
  · exact absurd hmem (by decide)

/-- One boolean, in a part whose delimiter is `e`. -/
def onePaid : CsvBatch Nat where
  rows := 1
  columns := [⟨"paid", .boolean, fun _ => some true⟩]
  columns_ne_nil := List.cons_ne_nil _ _

/-- `true` is read as the field `tru` and an empty one. -/
theorem boolean_split_by_delimiter : ∃ w₀ w, checkDelimiter 101 = .ok () ∧
    PartWriter.create { delimiter := 101, header := false } ⟨["paid"], List.cons_ne_nil _ _⟩ = .ok w₀ ∧
    PartWriter.writeAll decimals [onePaid] w₀ = .ok w ∧
    (Csv.read 101 w.out).map (fun records => records.map (·.map RawField.value)) =
      some [[some [116, 114, 117], none]] ∧
    partRecords decimals { delimiter := 101, header := false } ⟨["paid"], List.cons_ne_nil _ _⟩ [onePaid] = [[some trueText]] :=
  ⟨_, _, rfl, rfl, rfl, rfl, rfl⟩

end Quickhouse
