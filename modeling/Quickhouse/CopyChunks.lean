import Quickhouse.CopyFraming

/-!
# Chunks of a COPY stream do not matter

The decoder over its buffer takes the steps of the machine, as long as no length is negative.
-/

namespace Quickhouse

open Slices Wire Chunks Results

/-! ### The spans of a tuple -/

theorem intOf_mem {width : Nat} {bs : Bytes} (h : bs.length = width) :
    -(256 ^ width / 2) ≤ intOf bs ∧ intOf bs < (256 ^ width + 1) / 2 := by
  have hpos : 0 < 256 ^ width := by positivity
  unfold intOf
  rw [h]
  have hlow := Int.le_bmod (x := natOf bs) hpos
  have hhigh := Int.bmod_lt (x := natOf bs) hpos
  push_cast at hlow hhigh
  exact ⟨hlow, hhigh⟩

theorem readI32_of_length {bs : Bytes} (h : bs.length = 4) : readI32 bs = .ok (intOf bs) := by
  unfold readI32 readInt
  rw [if_neg (by omega), List.take_of_length_le (by omega)]

theorem slice_front {buf : Bytes} {pos n : Nat} (h : pos + n ≤ buf.length) :
    (slice buf pos (pos + n) : Outcome EtlError Bytes) = .ok ((buf.drop pos).take n) := by
  rw [slice_eq (by omega) h, Nat.add_sub_cancel_left]

/-- A span is that of a field. -/
inductive SpanOf (buf : Bytes) : Option (Nat × Nat) → Option Bytes → Prop
  | null : SpanOf buf none none
  | value {start finish : Nat} {bytes : Bytes} :
    (slice buf start finish : Outcome EtlError Bytes) = .ok bytes → SpanOf buf (some (start, finish)) (some bytes)

/-- The spans found are those of the fields read. -/
inductive SpansOf (buf : Bytes) (pos : Nat) : FieldsRead → Outcome EtlError Spans → Prop
  | more : SpansOf buf pos .more (.ok .needMore)
  | negative : SpansOf buf pos .negative (.error .panic)
  | all {spans : List (Option (Nat × Nat))} {fields : List (Option Bytes)} {finish : Nat} :
    List.Forall₂ (SpanOf buf) spans fields → pos ≤ finish → finish ≤ buf.length →
      SpansOf buf pos (.all fields (buf.drop finish)) (.ok (.all spans finish))

theorem SpansOf.cons {buf : Bytes} {pos next : Nat} {read : FieldsRead} {found : Outcome EtlError Spans}
    {span : Option (Nat × Nat)} {field : Option Bytes} (h : SpansOf buf next read found) (hpos : pos ≤ next)
    (hspan : SpanOf buf span field) : SpansOf buf pos (read.cons field) (do
      match ← found with
      | .needMore => pure .needMore
      | .all spans finish => pure (.all (span :: spans) finish)) := by
  cases h with
  | more => exact .more
  | negative => exact .negative
  | all hall hle hlen => exact .all (.cons hspan hall) (by omega) hlen

theorem fieldSpans_spec {s : Sizes} {buf : Bytes} (hbuf : buf.length < 2 ^ 63) {n pos : Nat} (hpos : pos ≤ buf.length)
    (hneg : s = .checked ∨ readFields n (buf.drop pos) ≠ .negative) :
    SpansOf buf pos (readFields n (buf.drop pos)) (fieldSpans s buf n pos) := by
  induction n generalizing pos with
  | zero => exact .all .nil le_rfl hpos
  | succ n ih =>
    have hlength : (buf.drop pos).length = buf.length - pos := List.length_drop
    unfold readFields at hneg ⊢
    unfold fieldSpans
    rw [Sizes.fit_eq _ (by omega)]
    simp only [bind, Except.bind, pure, Except.pure] at *
    by_cases hshort : buf.length < pos + 4
    · rw [if_pos hshort, if_pos (by omega)]
      exact .more
    rw [if_neg (by omega)] at hneg
    rw [if_neg hshort, if_neg (by omega), slice_front (by omega)]
    have hfour : ((buf.drop pos).take 4).length = 4 := by
      rw [List.length_take]
      omega
    have hmem := intOf_mem hfour
    simp only [readI32_of_length hfour]
    generalize intOf ((buf.drop pos).take 4) = len at hneg hmem ⊢
    by_cases hnull : len = -1
    · rw [if_pos hnull, List.drop_drop] at hneg
      rw [if_pos hnull, if_pos hnull, List.drop_drop]
      have hrest := @ih (pos + 4) (by omega) (hneg.imp_right fun h hread => h (by rw [hread]; rfl))
      exact hrest.cons (by omega) .null
    rw [if_neg hnull] at hneg
    rw [if_neg hnull, if_neg hnull]
    by_cases hsign : len < 0
    · rw [if_pos hsign] at hneg
      obtain rfl : s = .checked := hneg.resolve_right fun h => h rfl
      rw [if_pos hsign, Sizes.checked_ofInt_neg hsign]
      exact .negative
    rw [if_neg hsign] at hneg
    rw [if_neg hsign, Sizes.ofInt_eq _ (by omega) (by omega)]
    dsimp only
    rw [Sizes.fit_eq _ (by omega)]
    dsimp only
    by_cases hall : buf.length < pos + 4 + len.toNat
    · rw [if_pos hall, if_pos (by omega)]
      exact .more
    rw [if_neg (by omega), List.drop_drop, List.drop_drop] at hneg
    rw [if_neg hall, if_neg (by omega), List.drop_drop, List.drop_drop]
    have hassoc : pos + (4 + len.toNat) = pos + 4 + len.toNat := by omega
    rw [hassoc] at hneg ⊢
    have hrest := @ih (pos + 4 + len.toNat) (by omega) (hneg.imp_right fun h hread => h (by rw [hread]; rfl))
    exact hrest.cons (by omega) (.value (slice_front (by omega)))

/-! ### One tuple -/

section

variable {F : Type} {rt : PgRuntime F} {s : Sizes}

theorem appendFields_eq {buf : Bytes} {spans : List (Option (Nat × Nat))} {fields : List (Option Bytes)}
    (h : List.Forall₂ (SpanOf buf) spans fields) (i : Nat) (c : CopyState F) :
    appendFields rt s buf spans i c = appendRow rt s fields i c := by
  induction h generalizing i c with
  | nil => rfl
  | cons hspan _ ih =>
    cases hspan with
    | null =>
      unfold appendFields appendRow
      simp only [ih]
    | value hslice =>
      unfold appendFields appendRow
      rw [hslice]
      simp only [bind, Except.bind, ih]

/-- What the parser makes of a tuple that was read. -/
def parsed (rt : PgRuntime F) (s : Sizes) (d : CopyDecoder F) (xs : Bytes) :
    TupleRead → Outcome EtlError (Parsed × CopyDecoder F)
  | .more => .ok (.needMore, d)
  | .trailer => .ok (.ended, d)
  | .refused count => .error (.err (fieldCountError count d.oids.length))
  | .negative => .error .panic
  | .tuple fields rest =>
    (appendRow rt s fields 0 d.toCopyState).map fun c =>
      (.tuple (xs.length - rest.length), { d with toCopyState := c })

theorem word_front {buf : Bytes} {start : Nat} (h : start + 2 ≤ buf.length) :
    word buf start = .ok ((buf.drop start).take 2) := by
  obtain ⟨a, b, rest, hdrop⟩ : ∃ a b rest, buf.drop start = a :: b :: rest := by
    have hlength : (buf.drop start).length = buf.length - start := List.length_drop
    cases hx : buf.drop start with
    | nil =>
      rw [hx, List.length_nil] at hlength
      omega
    | cons a xs =>
      cases xs with
      | nil =>
        rw [hx, List.length_singleton] at hlength
        omega
      | cons b rest => exact ⟨a, b, rest, rfl⟩
  rw [word_of_drop hdrop, hdrop]
  rfl

theorem parseTuple_eq {d : CopyDecoder F} (hbuf : d.buf.length < 2 ^ 63) {start : Nat} (hstart : start ≤ d.buf.length)
    (hneg : s = .checked ∨ readTuple d.oids.length (d.buf.drop start) ≠ .negative) :
    parseTuple rt s d start = parsed rt s d (d.buf.drop start) (readTuple d.oids.length (d.buf.drop start)) := by
  have hlength : (d.buf.drop start).length = d.buf.length - start := List.length_drop
  unfold parseTuple readTuple at *
  rw [Sizes.fit_eq _ (by omega)]
  simp only [bind, Except.bind, pure, Except.pure]
  by_cases hshort : d.buf.length < start + 2
  · rw [if_pos hshort, if_pos (by omega)]
    rfl
  rw [if_neg (by omega)] at hneg
  rw [if_neg hshort, if_neg (by omega), word_front (by omega)]
  dsimp only at hneg ⊢
  by_cases hend : intOf ((d.buf.drop start).take 2) = -1
  · rw [if_pos hend, if_pos hend]
    rfl
  rw [if_neg hend] at hneg
  rw [if_neg hend, if_neg hend]
  by_cases hcount : (intOf ((d.buf.drop start).take 2) % 2 ^ 64).toNat ≠ d.oids.length
  · rw [if_pos hcount, if_pos hcount]
    rfl
  rw [if_neg hcount, List.drop_drop] at hneg
  rw [if_neg hcount, if_neg hcount, List.drop_drop]
  have hspec := @fieldSpans_spec s d.buf hbuf d.oids.length (start + 2) (by omega)
    (hneg.imp_right fun h hread => h (by rw [hread]; rfl))
  generalize fieldSpans s d.buf d.oids.length (start + 2) = found at hspec ⊢
  generalize readFields d.oids.length (d.buf.drop (start + 2)) = read at hspec ⊢
  cases hspec with
  | more => rfl
  | negative => rfl
  | @all spans fields finish hall hle hlen =>
    dsimp only
    have hconsumed : (finish : Int) - start = ((d.buf.length - start - (d.buf.length - finish) : ℕ) : Int) := by omega
    rw [appendFields_eq hall]
    simp only [FieldsRead.tuple, parsed, List.length_drop]
    cases appendRow rt s fields 0 d.toCopyState with
    | error e => rfl
    | ok c =>
      dsimp only [Except.map]
      rw [hconsumed, Sizes.ofInt_eq _ (by omega) (by omega), Int.toNat_natCast]

/-! ### All the tuples of the buffer -/

/-- The decoder with the state and the bytes that the machine has left. -/
def resumed (out : List (Batch (PgValue F))) (r : CopyState F × Bytes × List (Batch (PgValue F))) :
    CopyDecoder F × List (Batch (PgValue F)) := ({ toCopyState := r.1, buf := r.2.1 }, out ++ r.2.2)

theorem decodeTuples_eq {fuel : Nat} {d : CopyDecoder F} (hdone : d.headerDone = true) (hbuf : d.buf.length < 2 ^ 63)
    {cursor : Nat} (hcursor : cursor ≤ d.buf.length) (hfuel : (d.buf.drop cursor).length < fuel)
    (hneg : s = .checked ∨ ¬NegativeLength d.oids.length (d.buf.drop cursor)) (out : List (Batch (PgValue F))) :
    decodeTuples rt s fuel cursor out d =
      (drain (copyStep rt s) d.toCopyState (d.buf.drop cursor)).map (resumed out) := by
  induction fuel generalizing d cursor out with
  | zero => omega
  | succ fuel ih =>
    have hend : (slice d.buf cursor d.buf.length : Outcome EtlError Bytes) = .ok (d.buf.drop cursor) := by
      rw [slice_eq hcursor le_rfl, List.take_of_length_le (by rw [List.length_drop])]
    unfold decodeTuples
    rw [parseTuple_eq hbuf hcursor (hneg.imp_right fun h hread => h (.here hread))]
    cases hread : readTuple d.oids.length (d.buf.drop cursor) with
    | more =>
      unfold drain copyStep
      rw [if_pos hdone, hread]
      simp only [parsed, bind, Except.bind, hend]
      simp [resumed, Except.map, pure, Except.pure]
    | trailer =>
      unfold drain copyStep
      rw [if_pos hdone, hread]
      simp only [parsed, bind, Except.bind, hend]
      simp [resumed, Except.map, pure, Except.pure]
    | refused count =>
      unfold drain copyStep
      rw [if_pos hdone, hread]
      rfl
    | negative =>
      unfold drain copyStep
      rw [if_pos hdone, hread]
      rfl
    | tuple fields rest =>
      obtain ⟨-, hrest, hdrop⟩ := readTuple_eq_tuple hread
      have hstep := @copyStep_tuple _ rt s _ _ _ _ hdone hread
      have hlength : (d.buf.drop cursor).length = d.buf.length - cursor := List.length_drop
      rw [List.drop_drop] at hdrop
      generalize hn : (d.buf.drop cursor).length - rest.length = n at *
      simp only [parsed, hn, bind, Except.bind, Except.map]
      unfold addRow at hstep
      cases hrow : appendRow rt s fields 0 d.toCopyState with
      | error e =>
        rw [hrow] at hstep
        simp only [bind, Except.bind] at hstep ⊢
        unfold drain
        rw [hstep]
      | ok c =>
        rw [hrow] at hstep
        simp only [bind, Except.bind] at hstep ⊢
        rw [Sizes.fit_eq _ (by omega)]
        dsimp only
        cases hcount : countRow s c n with
        | error e =>
          simp only [hcount] at hstep ⊢
          unfold drain
          rw [hstep]
        | ok r =>
          obtain ⟨c', batches⟩ := r
          simp only [hcount] at hstep ⊢
          have hplan := (appendRow_plan hrow).trans (countRow_plan hcount)
          have hdone' : c'.headerDone = true := by rw [hplan.headerDone, hdone]
          have hneg' : s = .checked ∨ ¬NegativeLength c'.oids.length rest := by
            rw [hplan.oids]
            exact hneg.imp_right fun h hlater => h (.later hread hlater)
          have hrun := @ih { toCopyState := c', buf := d.buf } hdone' hbuf (cursor + n) (show cursor + n ≤ d.buf.length by omega)
            (by rw [hdrop]; omega) (by rw [hdrop]; exact hneg') (out ++ batches)
          rw [hdrop] at hrun
          rw [drain_next (steady_copyStep rt s) hstep, hrun]
          cases drain (copyStep rt s) c' rest with
          | error e => rfl
          | ok r => simp [resumed, Except.map, List.append_assoc]

/-! ### A chunk, and all of them -/

theorem parseHeader_eq {buf : Bytes} (hbuf : buf.length < 2 ^ 63)
    (hneg : s = .checked ∨ readHeader buf ≠ .negative) :
    match readHeader buf with
    | .more => parseHeader s buf = .ok none
    | .refused => parseHeader s buf =
        .error (.err (.internal "COPY stream did not start with the expected PGCOPY binary signature"))
    | .negative => parseHeader s buf = .error .panic
    | .body rest => ∃ n, n ≤ buf.length ∧ buf.drop n = rest ∧ parseHeader s buf = .ok (some n) := by
  unfold parseHeader readHeader at *
  by_cases hshort : buf.length < 19
  · rw [if_pos hshort, if_pos hshort]
    rfl
  have hsignature : (slice buf 0 11 : Outcome EtlError Bytes) = .ok (buf.take 11) := @slice_front buf 0 11 (by omega)
  have hext : (slice buf 15 19 : Outcome EtlError Bytes) = .ok ((buf.drop 15).take 4) := @slice_front buf 15 4 (by omega)
  have hfour : ((buf.drop 15).take 4).length = 4 := by
    rw [List.length_take, List.length_drop]
    omega
  have hmem := intOf_mem hfour
  rw [if_neg hshort] at hneg
  rw [if_neg hshort, if_neg hshort, hsignature]
  simp only [bind, Except.bind, pure, Except.pure]
  by_cases hsig : buf.take 11 ≠ copySignature
  · rw [if_pos hsig, if_pos hsig]
    rfl
  rw [if_neg hsig] at hneg
  rw [if_neg hsig, if_neg hsig, hext]
  simp only [readI32_of_length hfour] at hneg ⊢
  generalize intOf ((buf.drop 15).take 4) = ext at hneg hmem ⊢
  by_cases hsign : ext < 0
  · rw [if_pos hsign] at hneg
    obtain rfl : s = .checked := hneg.resolve_right fun h => h rfl
    rw [if_pos hsign, Sizes.checked_ofInt_neg hsign]
  rw [if_neg hsign, Sizes.ofInt_eq _ (by omega) (by omega)]
  dsimp only
  rw [Sizes.fit_eq _ (by omega)]
  by_cases hall : buf.length < 19 + ext.toNat
  · rw [if_pos hall]
    dsimp only
    rw [if_pos hall]
  · rw [if_neg hall]
    dsimp only
    rw [if_neg hall]
    exact ⟨19 + ext.toNat, by omega, rfl, rfl⟩

/-- The framing that the decoder still has in front of it has no negative length. -/
def Clean (c : CopyState F) (xs : Bytes) : Prop :=
  if c.headerDone then ¬NegativeLength c.oids.length xs else ¬NegativeFraming c.oids.length xs

theorem feed_eq {d : CopyDecoder F} {chunk : Bytes} (hbuf : (d.buf ++ chunk).length < 2 ^ 63)
    (hneg : s = .checked ∨ Clean d.toCopyState (d.buf ++ chunk)) :
    d.feed rt s chunk = (Chunks.feed (copyStep rt s) d.toCopyState d.buf chunk).map (resumed []) := by
  unfold CopyDecoder.feed Chunks.feed Clean at *
  dsimp only at *
  generalize d.buf ++ chunk = buf at *
  by_cases hdone : d.headerDone = true
  · rw [if_pos hdone] at hneg ⊢
    exact @decodeTuples_eq _ rt s _ { d with buf := buf } hdone hbuf 0 (Nat.zero_le _) (by simp) hneg []
  · rw [if_neg hdone] at hneg ⊢
    have hheader := @parseHeader_eq s buf hbuf (hneg.imp_right fun h hread => h (.inl hread))
    cases hread : readHeader buf with
    | more =>
      rw [hread] at hheader
      dsimp only at hheader
      unfold drain copyStep
      rw [if_neg hdone, hread, hheader]
      rfl
    | refused =>
      rw [hread] at hheader
      dsimp only at hheader
      unfold drain copyStep
      rw [if_neg hdone, hread, hheader]
      rfl
    | negative =>
      rw [hread] at hheader
      dsimp only at hheader
      unfold drain copyStep
      rw [if_neg hdone, hread, hheader]
      rfl
    | body rest =>
      rw [hread] at hheader
      obtain ⟨n, hn, hdrop, hparse⟩ := hheader
      have hbody : s = .checked ∨ ¬NegativeLength d.oids.length rest :=
        hneg.imp_right fun h hlater => h (.inr ⟨rest, hread, hlater⟩)
      have hrun := @decodeTuples_eq _ rt s (buf.length + 1) { d with headerDone := true, buf := buf } rfl hbuf n hn
        (by rw [hdrop]; have := readHeader_eq_body hread; omega) (by rw [hdrop]; exact hbody) []
      rw [drain_next (steady_copyStep rt s) (copyStep_header hdone hread), hparse]
      simp only [bind, Except.bind]
      rw [hrun, hdrop]
      cases drain (copyStep rt s) { d.toCopyState with headerDone := true } rest with
      | error e => rfl
      | ok r => rfl

theorem NegativeLength.append {n : Nat} {xs : Bytes} (h : NegativeLength n xs) (ys : Bytes) :
    NegativeLength n (xs ++ ys) := by
  induction h with
  | here hread =>
    refine .here ?_
    rw [readTuple_append ys (by rw [hread]; exact fun h => by cases h), hread]
    rfl
  | @later xs rest fields hread _ ih =>
    have hmore : readTuple n (xs ++ ys) = .tuple fields (rest ++ ys) := by
      rw [readTuple_append ys (by rw [hread]; exact fun h => by cases h), hread]
      rfl
    exact .later hmore ih

theorem NegativeFraming.append {n : Nat} {xs : Bytes} (h : NegativeFraming n xs) (ys : Bytes) :
    NegativeFraming n (xs ++ ys) := by
  rcases h with hread | ⟨rest, hread, hbody⟩
  · refine .inl ?_
    rw [readHeader_append ys (by rw [hread]; exact fun h => by cases h), hread]
    rfl
  · refine .inr ⟨rest ++ ys, ?_, hbody.append ys⟩
    rw [readHeader_append ys (by rw [hread]; exact fun h => by cases h), hread]
    rfl

/-- Part of a clean framing. -/
theorem Clean.front {c : CopyState F} {xs ys : Bytes} (h : Clean c (xs ++ ys)) : Clean c xs := by
  unfold Clean at *
  split_ifs at h ⊢
  · exact fun hxs => h (hxs.append ys)
  · exact fun hxs => h (hxs.append ys)

theorem Clean.next {c c' : CopyState F} {xs rest : Bytes} {out : List (Batch (PgValue F))} (h : Clean c xs)
    (hstep : copyStep rt s c xs = .next c' rest out) : Clean c' rest := by
  unfold Clean at *
  rcases copyStep_next hstep with ⟨hdone, hread, rfl, -⟩ | ⟨hdone, fields, hread, hrow⟩
  · rw [if_neg hdone] at h
    rw [if_pos rfl]
    exact fun hbody => h (.inr ⟨rest, hread, hbody⟩)
  · have hplan := addRow_plan hrow
    rw [if_pos hdone] at h
    rw [hplan.headerDone, if_pos hdone, hplan.oids]
    exact fun hlater => h (.later hread hlater)

/-- The decoder over its buffer is the machine. -/
theorem feedAll_eq (chunks : List Bytes) {d : CopyDecoder F} (hbuf : (d.buf ++ chunks.flatten).length < 2 ^ 63)
    (hneg : s = .checked ∨ Clean d.toCopyState (d.buf ++ chunks.flatten)) :
    d.feedAll rt s chunks = (Chunks.feedAll (copyStep rt s) chunks d.toCopyState d.buf).map (resumed []) := by
  induction chunks generalizing d with
  | nil => rfl
  | cons chunk chunks ih =>
    rw [List.flatten_cons, ← List.append_assoc] at hbuf hneg
    unfold CopyDecoder.feedAll Chunks.feedAll
    rw [feed_eq (by rw [List.length_append] at hbuf; omega) (hneg.imp_right Clean.front)]
    unfold Chunks.feed
    cases hdrain : drain (copyStep rt s) d.toCopyState (d.buf ++ chunk) with
    | error e => rfl
    | ok r =>
      obtain ⟨c, left, out⟩ := r
      have hkept := drain_invariant (steady_copyStep rt s)
        (P := fun c xs => (xs ++ chunks.flatten).length < 2 ^ 63 ∧ (s = .checked ∨ Clean c (xs ++ chunks.flatten)))
        (fun hP hstep => ?_) (fun hP hstep => ?_) ⟨hbuf, hneg⟩ hdrain
      · simp only [Except.map, bind, Except.bind, resumed]
        rw [ih hkept.1 hkept.2]
        cases Chunks.feedAll (copyStep rt s) chunks c left with
        | error e => rfl
        | ok r => rfl
      · obtain ⟨hlt, hmore⟩ := (steady_copyStep rt s).next hstep
        refine ⟨?_, hP.2.imp_right fun h => h.next (hmore _)⟩
        have := hP.1
        rw [List.length_append] at this ⊢
        omega
      · obtain ⟨-, -, rfl⟩ := copyStep_halt hstep
        exact hP

/-- A decoder that has read nothing. -/
structure Fresh (columns : List CopyColumn) (d : CopyDecoder F) : Prop where
  buf : d.buf = []
  headerDone : d.headerDone = false
  finished : d.finished = false
  rowsInBatch : d.rowsInBatch = 0
  bytesInBatch : d.bytesInBatch = 0
  fields : d.fields = columns.map fun c => c.toColumnType.field
  oids : d.oids = columns.map CopyColumn.typeId
  kinds : List.Forall₂ (fun c kind => ColBuilder.new c.arrow = .ok kind) columns (d.builders.map ArrayBuilder.kind)
  cells : ∀ b ∈ d.builders, b.cells = []

theorem fresh_withBatchBytes {columns : List CopyColumn} {batchRows batchBytes : Nat} {d : CopyDecoder F}
    (h : CopyDecoder.withBatchBytes columns batchRows batchBytes = .ok d) : Fresh columns d := by
  obtain ⟨kinds, hkinds, h⟩ := bind_eq_ok.mp h
  cases h
  refine ⟨rfl, rfl, rfl, rfl, rfl, rfl, rfl, ?_, ?_⟩
  · have hsame : (ArrayBuilder.kind ∘ fun kind => (⟨kind, []⟩ : ArrayBuilder F)) = id := rfl
    rw [List.map_map, hsame, List.map_id]
    exact forall₂_of_mapM_eq_ok hkinds
  · intro b hb
    obtain ⟨kind, -, rfl⟩ := List.mem_map.mp hb
    rfl

variable (rt s) in
/-- The machine over a whole stream, and the rows that are left. -/
def runWhole (columns : List CopyColumn) (batchRows batchBytes : Nat) (stream : Bytes) :
    Outcome EtlError (CopyDecoder F × List (Batch (PgValue F))) := do
  let d ← ofExcept (CopyDecoder.withBatchBytes columns batchRows batchBytes)
  let (d, batches) ← (drain (copyStep rt s) d.toCopyState stream).map (resumed [])
  let (d, last) ← d.finish
  pure (d, batches ++ last.toList)

/-- A whole run sees the stream only, and not how it is cut. -/
theorem run_eq {columns : List CopyColumn} (batchRows batchBytes : Nat) {chunks : List Bytes}
    (hlength : chunks.flatten.length < 2 ^ 63)
    (hneg : s = .checked ∨ ¬NegativeFraming columns.length chunks.flatten) :
    CopyDecoder.run rt s columns batchRows batchBytes chunks =
      runWhole rt s columns batchRows batchBytes chunks.flatten := by
  unfold CopyDecoder.run runWhole
  cases hnew : (CopyDecoder.withBatchBytes columns batchRows batchBytes : Except EtlError (CopyDecoder F)) with
  | error e => rfl
  | ok d =>
    have hfresh := fresh_withBatchBytes hnew
    have hdone : ¬d.headerDone = true := by rw [hfresh.headerDone]; exact Bool.false_ne_true
    have hclean : s = .checked ∨ Clean d.toCopyState (d.buf ++ chunks.flatten) := by
      unfold Clean
      rw [if_neg hdone, hfresh.oids, List.length_map, hfresh.buf, List.nil_append]
      exact hneg
    have hrun := @feedAll_eq _ rt s chunks d (by rwa [hfresh.buf, List.nil_append]) hclean
    have hnothing : drain (copyStep rt s) d.toCopyState [] = .ok (d.toCopyState, [], []) := by
      unfold drain copyStep
      rw [if_neg hdone]
      rfl
    have hall := feedAll_flatten (steady_copyStep rt s) chunks d.toCopyState []
    rw [hnothing, List.nil_append] at hall
    have hmachine : Chunks.feedAll (copyStep rt s) chunks d.toCopyState [] =
        drain (copyStep rt s) d.toCopyState chunks.flatten := by
      rw [← hall]
      simp only [bind, Except.bind, List.nil_append]
      cases Chunks.feedAll (copyStep rt s) chunks d.toCopyState [] with
      | error e => rfl
      | ok r => rfl
    rw [hfresh.buf, hmachine] at hrun
    simp only [ofExcept, Except.mapError, bind, Except.bind]
    rw [hrun]

end

end Quickhouse
