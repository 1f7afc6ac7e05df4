import Quickhouse.Sink.CsvStaging

/-!
# Staging loses and repeats nothing

What the inserts have taken is at every moment in one place: in a closed part, in an open one, or still to be written.
Each part number is given out once.  The rows of a stream stay in order, in the order of its part numbers, as long as
its inserts do not overlap.
-/

namespace Quickhouse

open Runs

variable {σ ρ : Type}

/-- The rows an event hands to the staging folder. -/
def StagingEvent.rows : StagingEvent σ ρ → List ρ
  | .begin _ batches => batches.flatten
  | _ => []

/-- All rows that were inserted. -/
def insertedRows (es : List (StagingEvent σ ρ)) : List ρ := es.flatMap StagingEvent.rows

/-- The rows that one stream inserted, in its order. -/
def StagingEvent.rowsOf [DecidableEq σ] (stream : σ) : StagingEvent σ ρ → List ρ
  | .begin s batches => if s = stream then batches.flatten else []
  | _ => []

def insertedRowsOf [DecidableEq σ] (stream : σ) (es : List (StagingEvent σ ρ)) : List ρ :=
  es.flatMap (StagingEvent.rowsOf stream)

/-- An insert of the stream begins only after the one before it has ended. -/
def InTurn (stream : σ) (s : Staging σ ρ) : StagingEvent σ ρ → Prop
  | .begin t _ => t = stream → ∀ i ∈ s.running, i.stream ≠ stream
  | _ => True

instance InTurn.decidable [DecidableEq σ] (stream : σ) (s : Staging σ ρ) :
    (e : StagingEvent σ ρ) → Decidable (InTurn stream s e)
  | .begin t _ => inferInstanceAs (Decidable (t = stream → ∀ i ∈ s.running, i.stream ≠ stream))
  | .slice _ | .ended _ | .finalize _ => isTrue trivial

namespace Insert

/-- The parts the insert holds: those it has filled and the open one. -/
def parts (i : Insert σ ρ) : List (Part σ ρ) := i.closed ++ i.writer.toList

/-- The rows of its parts and those it has not written, in order. -/
def rows (i : Insert σ ρ) : List ρ := i.parts.flatMap Part.rows ++ i.todo.flatten

/-- The rows of its open part and those it has not written. -/
def coming (i : Insert σ ρ) : List ρ := i.writer.toList.flatMap Part.rows ++ i.todo.flatten

end Insert

namespace Staging

/-- Every part there is. -/
def allParts (s : Staging σ ρ) : List (Part σ ρ) := s.parts ++ s.idle ++ s.running.flatMap Insert.parts

end Staging

/-! ### One slice -/

/-- The part with room is the one that was open, or a new one behind it. -/
structure Roomy (maxRows nextPart : Nat) (i : Insert σ ρ) (w : Part σ ρ) (closed : List (Part σ ρ)) (next : Nat) :
    Prop where
  rows : (closed ++ [w]).flatMap Part.rows = i.parts.flatMap Part.rows
  numbers : ((closed ++ [w]).map Part.number = i.parts.map Part.number ∧ next = nextPart) ∨
    ((closed ++ [w]).map Part.number = i.parts.map Part.number ++ [nextPart] ∧ next = nextPart + 1)
  room : w.rows.length < maxRows
  closed_sub : ∀ p ∈ closed, p ∈ i.parts
  open_sub : w.rows = [] ∨ w.rows = i.writer.toList.flatMap Part.rows
  owner : w ∈ i.parts ∨ w.stream = some i.stream

theorem Insert.roomy_spec {maxRows : Nat} (hmax : 0 < maxRows) (nextPart : Nat) (i : Insert σ ρ) :
    Roomy maxRows nextPart i (i.roomy maxRows nextPart).1 (i.roomy maxRows nextPart).2.1
      (i.roomy maxRows nextPart).2.2 := by
  unfold roomy
  cases hwriter : i.writer with
  | none =>
    have hparts : i.parts = i.closed := by simp [parts, hwriter]
    refine ⟨by simp [hparts], Or.inr ⟨by simp [hparts], rfl⟩, hmax, fun p hp => ?_, Or.inl rfl, Or.inr rfl⟩
    rw [hparts]
    exact hp
  | some w =>
    have hparts : i.parts = i.closed ++ [w] := by simp [parts, hwriter]
    dsimp only
    split_ifs with hroom
    · refine ⟨by rw [hparts], Or.inl ⟨by rw [hparts], rfl⟩, hroom, fun p hp => ?_, Or.inr (by simp [hwriter]),
        Or.inl (by simp [hparts])⟩
      rw [hparts]
      exact List.mem_append_left _ hp
    · refine ⟨by simp [hparts], Or.inr ⟨by simp [hparts], rfl⟩, hmax, fun p hp => ?_, Or.inl rfl, Or.inr rfl⟩
      rw [hparts]
      exact hp

/-- What one slice does to the insert. -/
structure Sliced (maxRows nextPart : Nat) (i i' : Insert σ ρ) (next : Nat) : Prop where
  stream : i'.stream = i.stream
  rows : i'.rows = i.rows
  numbers : (i'.parts.map Part.number = i.parts.map Part.number ∧ next = nextPart) ∨
    (i'.parts.map Part.number = i.parts.map Part.number ++ [nextPart] ∧ next = nextPart + 1)
  closed_sub : ∀ p ∈ i'.closed, p ∈ i.parts
  open_bound : i'.writer = i.writer ∨ ∀ w ∈ i'.writer, w.rows.length ≤ maxRows
  coming : i'.coming.Sublist i.coming
  owner : (∀ p ∈ i.parts, p.stream = some i.stream) → ∀ p ∈ i'.parts, p.stream = some i'.stream

theorem Insert.slice_spec {maxRows nextPart : Nat} (hmax : 0 < maxRows) {i i' : Insert σ ρ} {next : Nat}
    (h : i.slice maxRows nextPart = some (i', next)) : Sliced maxRows nextPart i i' next := by
  unfold slice at h
  split at h
  case h_1 => cases h
  case h_2 rest htodo =>
    obtain ⟨rfl, rfl⟩ := Prod.mk.inj (Option.some.inj h)
    exact ⟨rfl, by simp [rows, parts, htodo], Or.inl ⟨rfl, rfl⟩, fun p hp => List.mem_append_left _ hp, Or.inl rfl,
      by simp [coming, htodo], id⟩
  case h_3 batch rest _ htodo =>
    have hroomy := roomy_spec hmax nextPart i
    generalize i.roomy maxRows nextPart = r at h hroomy
    obtain ⟨w, closed, n⟩ := r
    obtain ⟨rfl, rfl⟩ := Prod.mk.inj (Option.some.inj h)
    -- what is taken from the batch and what is left of it are the batch
    have htake : batch.take (min (maxRows - w.rows.length) batch.length) ++
        (batch.drop (min (maxRows - w.rows.length) batch.length) ++ rest.flatten) = batch ++ rest.flatten := by
      rw [← List.append_assoc, List.take_append_drop]
    have hlength : (w.rows ++ batch.take (min (maxRows - w.rows.length) batch.length)).length ≤ maxRows := by
      have hroom := hroomy.room
      simp only at hroom
      rw [List.length_append, List.length_take]
      omega
    refine ⟨rfl, ?_, ?_, hroomy.closed_sub, Or.inr ?_, ?_, fun hall p hp => ?_⟩
    · have hrows := hroomy.rows
      simp only [List.flatMap_append, List.flatMap_singleton] at hrows
      simp only [rows, parts, Option.toList_some, List.flatMap_append, List.flatMap_singleton, htodo,
        List.flatten_cons, List.append_assoc, htake] at hrows ⊢
      rw [← List.append_assoc, hrows, List.append_assoc]
    · have hnumbers : ({ i with
          todo := batch.drop (min (maxRows - w.rows.length) batch.length) :: rest
          writer := some { w with rows := w.rows ++ batch.take (min (maxRows - w.rows.length) batch.length) }
          closed : Insert σ ρ }.parts).map Part.number = (closed ++ [w]).map Part.number := by
        simp [parts]
      rw [hnumbers]
      exact hroomy.numbers
    · intro p hp
      obtain rfl := Option.some.inj hp
      exact hlength
    · have hopen : w.rows.Sublist (i.writer.toList.flatMap Part.rows) := by
        rcases hroomy.open_sub with hw | hw
        · simp only at hw
          simp [hw]
        · simp only at hw
          rw [hw]
      simp only [coming, Option.toList_some, List.flatMap_singleton, htodo, List.flatten_cons, List.append_assoc,
        htake]
      exact hopen.append (List.Sublist.refl _)
    · rcases List.mem_append.mp hp with hp | hp
      · exact hall p (hroomy.closed_sub p hp)
      · obtain rfl := List.mem_singleton.mp hp
        rcases hroomy.owner with hw | hw
        · exact hall w hw
        · exact hw

/-! ### One step -/

section Steps

variable [DecidableEq σ]

/-- A part goes to the insert or stays. -/
theorem popIdle_perm (stream : σ) (ps : List (Part σ ρ)) :
    ((popIdle stream ps).1.toList ++ (popIdle stream ps).2).Perm ps := by
  induction ps with
  | nil => exact List.Perm.refl _
  | cons p ps ih =>
    unfold popIdle
    split_ifs
    · exact List.Perm.refl _
    · exact List.perm_middle.trans (ih.cons p)

/-- The parts of one stream. -/
def partsOf (t : σ) (ps : List (Part σ ρ)) : List (Part σ ρ) := ps.filter fun p => p.stream = some t

theorem partsOf_cons (t : σ) (p : Part σ ρ) (ps : List (Part σ ρ)) :
    partsOf t (p :: ps) = if p.stream = some t then p :: partsOf t ps else partsOf t ps := by
  simp [partsOf, List.filter_cons]

/-- The insert takes the first of its stream's own. -/
theorem popIdle_own (stream : σ) (ps : List (Part σ ρ)) :
    (popIdle stream ps).1 = (partsOf stream ps).head? ∧
      partsOf stream (popIdle stream ps).2 = (partsOf stream ps).tail := by
  induction ps with
  | nil => exact ⟨rfl, rfl⟩
  | cons p ps ih =>
    unfold popIdle
    rw [partsOf_cons]
    by_cases hp : p.stream = some stream
    · rw [if_pos hp, if_pos hp]
      exact ⟨rfl, rfl⟩
    · rw [if_neg hp, if_neg hp, partsOf_cons, if_neg hp]
      exact ih

theorem popIdle_other {stream t : σ} (hne : stream ≠ t) (ps : List (Part σ ρ)) :
    partsOf t (popIdle stream ps).2 = partsOf t ps := by
  induction ps with
  | nil => rfl
  | cons p ps ih =>
    unfold popIdle
    split_ifs with hp
    · rw [partsOf_cons, if_neg (by simp [hp, hne])]
    · rw [partsOf_cons, partsOf_cons, ih]

theorem popIdle_stream {stream : σ} {ps : List (Part σ ρ)} {p : Part σ ρ} (h : p ∈ (popIdle stream ps).1) :
    p.stream = some stream := by
  rw [(popIdle_own stream ps).1] at h
  have hp := List.mem_of_mem_head? h
  simpa using (List.mem_filter.mp hp).2

/-- All that a step can be. -/
inductive Stepped (ctx : StagingCtx ρ) (s : Staging σ ρ) : StagingEvent σ ρ → Staging σ ρ → Prop where
  | begin {stream batches} (hopen : s.finished = none) : Stepped ctx s (.begin stream batches) (s.begin stream batches)
  | slice {k l₁ i l₂ i' n} (hrunning : s.running = l₁ ++ i :: l₂)
      (hslice : Sliced ctx.cfg.maxRowsPerFile s.nextPart i i' n) :
      Stepped ctx s (.slice k) { s with running := l₁ ++ i' :: l₂, nextPart := n }
  | ended {k l₁ i l₂} (hrunning : s.running = l₁ ++ i :: l₂) (htodo : i.todo = []) :
      Stepped ctx s (.ended k) { s with
        running := l₁ ++ l₂
        parts := s.parts ++ i.closed
        idle := i.writer.toList ++ s.idle }
  | finalize {emptyPart} (hopen : s.finished = none) (hnone : s.running = []) :
      Stepped ctx s (.finalize emptyPart) (s.finalize ctx emptyPart)

omit [DecidableEq σ] in
theorem exists_eq_append {l : List α} {k : Nat} {a : α} (h : l[k]? = some a) :
    ∃ l₁ l₂, l = l₁ ++ a :: l₂ ∧ ∀ b, l.set k b = l₁ ++ b :: l₂ ∧ l.eraseIdx k = l₁ ++ l₂ := by
  induction l generalizing k with
  | nil => simp at h
  | cons c l ih =>
    cases k with
    | zero =>
      obtain rfl := Option.some.inj h
      exact ⟨[], l, rfl, fun b => ⟨rfl, rfl⟩⟩
    | succ k =>
      obtain ⟨l₁, l₂, hl, hrest⟩ := ih h
      refine ⟨c :: l₁, l₂, by rw [hl, List.cons_append], fun b => ?_⟩
      simp [(hrest b).1, (hrest b).2]

theorem Staging.step_cases {ctx : StagingCtx ρ} {s s' : Staging σ ρ} {e : StagingEvent σ ρ}
    (h : s.step ctx e = some s') : Stepped ctx s e s' := by
  cases e with
  | begin stream batches =>
    obtain ⟨hopen, hs⟩ := Option.ite_none_right_eq_some.mp h
    obtain rfl := Option.some.inj hs
    exact .begin hopen
  | slice k =>
    unfold step at h
    dsimp only at h
    split at h
    case h_2 => cases h
    case h_1 i hi =>
      obtain ⟨⟨i', n⟩, hslice, rfl⟩ := Option.map_eq_some_iff.mp h
      obtain ⟨l₁, l₂, hrunning, hset⟩ := exists_eq_append hi
      rw [(hset i').1]
      exact .slice hrunning (Insert.slice_spec ctx.cfg.maxRowsPerFile_pos hslice)
  | ended k =>
    unfold step at h
    dsimp only at h
    split at h
    case h_2 => cases h
    case h_1 i hi =>
      obtain ⟨htodo, hs⟩ := Option.ite_none_right_eq_some.mp h
      obtain rfl := Option.some.inj hs
      obtain ⟨l₁, l₂, hrunning, hset⟩ := exists_eq_append hi
      rw [(hset i).2]
      exact .ended hrunning htodo
  | finalize emptyPart =>
    obtain ⟨⟨hopen, hnone⟩, hs⟩ := Option.ite_none_right_eq_some.mp h
    obtain rfl := Option.some.inj hs
    exact .finalize hopen hnone

/-! ### What every step keeps -/

theorem insertedRowsOf_sublist (t : σ) (es : List (StagingEvent σ ρ)) (e : StagingEvent σ ρ) :
    (insertedRowsOf t es).Sublist (insertedRowsOf t (es ++ [e])) := by
  simp [insertedRowsOf]

/-- A part is within its bound and holds its stream's rows in order. -/
structure Part.Kept (maxRows : Nat) (es : List (StagingEvent σ ρ)) (p : Part σ ρ) : Prop where
  bound : p.rows.length ≤ maxRows
  within : ∀ t, p.stream = some t → p.rows.Sublist (insertedRowsOf t es)

structure Insert.Kept (maxRows : Nat) (es : List (StagingEvent σ ρ)) (i : Insert σ ρ) : Prop where
  owner : ∀ p ∈ i.parts, p.stream = some i.stream
  closed : ∀ p ∈ i.closed, p.Kept maxRows es
  open_bound : ∀ w ∈ i.writer, w.rows.length ≤ maxRows
  coming : i.coming.Sublist (insertedRowsOf i.stream es)

structure Staging.Kept (ctx : StagingCtx ρ) (es : List (StagingEvent σ ρ)) (s : Staging σ ρ) : Prop where
  parts : ∀ p ∈ s.parts ++ s.idle, p.Kept ctx.cfg.maxRowsPerFile es
  running : ∀ i ∈ s.running, i.Kept ctx.cfg.maxRowsPerFile es
  numbers : (s.allParts.map Part.number).Perm (List.range s.nextPart)
  rows : ((s.parts ++ s.idle).flatMap Part.rows ++ s.running.flatMap Insert.rows).Perm (insertedRows es)
  finished : ∀ m, s.finished = some m → s.running = [] ∧ s.idle = [] ∧ m = Manifest.new ctx.cfg ctx.columns
    ((s.parts.map (Part.info ctx)).mergeSort fun a b => decide (a.file ≤ b.file))

variable {ctx : StagingCtx ρ} {maxRows : Nat} {es : List (StagingEvent σ ρ)} {s s' : Staging σ ρ}

theorem Part.Kept.next {p : Part σ ρ} (h : p.Kept maxRows es) (e : StagingEvent σ ρ) :
    p.Kept maxRows (es ++ [e]) :=
  ⟨h.bound, fun t ht => (h.within t ht).trans (insertedRowsOf_sublist t es e)⟩

theorem Insert.Kept.next {i : Insert σ ρ} (h : i.Kept maxRows es) (e : StagingEvent σ ρ) :
    i.Kept maxRows (es ++ [e]) :=
  ⟨h.owner, fun p hp => (h.closed p hp).next e, h.open_bound, h.coming.trans (insertedRowsOf_sublist i.stream es e)⟩

/-- What an insert holds is kept, the open part included. -/
theorem Insert.Kept.part {i : Insert σ ρ} (h : i.Kept maxRows es) {p : Part σ ρ} (hp : p ∈ i.parts) :
    p.Kept maxRows es := by
  rcases List.mem_append.mp hp with hclosed | hopen
  · exact h.closed p hclosed
  · have hwriter : i.writer = some p := by simpa using hopen
    refine ⟨h.open_bound p hwriter, fun t ht => ?_⟩
    obtain rfl : i.stream = t := Option.some.inj ((h.owner p hp).symm.trans ht)
    refine List.Sublist.trans ?_ h.coming
    simp [Insert.coming, hwriter]

theorem Insert.Kept.slice {i i' : Insert σ ρ} {nextPart n : Nat} (h : i.Kept maxRows es)
    (hslice : Sliced maxRows nextPart i i' n) : i'.Kept maxRows es where
  owner := hslice.owner h.owner
  closed p hp := h.part (hslice.closed_sub p hp)
  open_bound := by
    rcases hslice.open_bound with hsame | hnew
    · rw [hsame]
      exact h.open_bound
    · exact hnew
  coming := by
    rw [hslice.stream]
    exact hslice.coming.trans h.coming

/-- An insert that begins goes on where its stream's open part ends. -/
theorem Staging.Kept.insert (h : s.Kept ctx es) (stream : σ) (batches : List (List ρ)) :
    Insert.Kept ctx.cfg.maxRowsPerFile (es ++ [.begin stream batches])
      { stream, todo := batches, writer := (popIdle stream s.idle).1 } where
  owner p hp := by
    have hp : p ∈ (popIdle stream s.idle).1 := by simpa [Insert.parts] using hp
    exact popIdle_stream hp
  closed := by simp
  open_bound w hw := by
    have hidle : w ∈ s.idle := (popIdle_perm stream s.idle).mem_iff.mp (List.mem_append_left _ (by simpa using hw))
    exact (h.parts w (List.mem_append_right _ hidle)).bound
  coming := by
    have hrows : insertedRowsOf stream (es ++ [.begin stream batches]) = insertedRowsOf stream es ++ batches.flatten := by
      simp [insertedRowsOf, StagingEvent.rowsOf]
    rw [hrows]
    refine List.Sublist.append ?_ (List.Sublist.refl _)
    cases hw : (popIdle stream s.idle).1 with
    | none => simp
    | some w =>
      have hidle : w ∈ s.idle := (popIdle_perm stream s.idle).mem_iff.mp (List.mem_append_left _ (by simp [hw]))
      simpa using (h.parts w (List.mem_append_right _ hidle)).within stream (popIdle_stream hw)

theorem Staging.Kept.begin (h : s.Kept ctx es) (hopen : s.finished = none) (stream : σ) (batches : List (List ρ)) :
    (s.begin stream batches).Kept ctx (es ++ [.begin stream batches]) where
  parts p hp := by
    refine (h.parts p ?_).next _
    rcases List.mem_append.mp hp with hp | hp
    · exact List.mem_append_left _ hp
    · exact List.mem_append_right _ ((popIdle_perm stream s.idle).mem_iff.mp (List.mem_append_right _ hp))
  running i hi := by
    rcases List.mem_append.mp hi with hi | hi
    · exact (h.running i hi).next _
    · obtain rfl := List.mem_singleton.mp hi
      exact h.insert stream batches
  numbers := by
    refine List.Perm.trans (List.Perm.map _ ?_) h.numbers
    classical
    rw [List.perm_iff_count]
    intro p
    have hpop := (popIdle_perm stream s.idle).count_eq p
    simp only [allParts, Staging.begin, Insert.parts, List.flatMap_append, List.flatMap_singleton, List.count_append,
      List.count_nil] at hpop ⊢
    omega
  rows := by
    classical
    rw [List.perm_iff_count]
    intro r
    have hold := h.rows.count_eq r
    have hpop := ((popIdle_perm stream s.idle).flatMap_right Part.rows).count_eq r
    simp only [Staging.begin, insertedRows, StagingEvent.rows, Insert.rows, Insert.parts, List.nil_append,
      List.flatMap_append, List.flatMap_singleton, List.count_append] at hold hpop ⊢
    omega
  finished m hm := by
    have hnone : (s.begin stream batches).finished = none := hopen
    rw [hnone] at hm
    cases hm

theorem Staging.Kept.slice (h : s.Kept ctx es) (k : Nat) {l₁ l₂ : List (Insert σ ρ)} {i i' : Insert σ ρ} {n : Nat}
    (hrunning : s.running = l₁ ++ i :: l₂) (hslice : Sliced ctx.cfg.maxRowsPerFile s.nextPart i i' n) :
    Staging.Kept ctx (es ++ [.slice k]) { s with running := l₁ ++ i' :: l₂, nextPart := n } where
  parts p hp := (h.parts p hp).next _
  running j hj := by
    rcases List.mem_append.mp hj with hj | hj
    · exact (h.running j (by simp [hrunning, hj])).next _
    · rcases List.mem_cons.mp hj with rfl | hj
      · exact ((h.running i (by simp [hrunning])).slice hslice).next _
      · exact (h.running j (by simp [hrunning, hj])).next _
  numbers := by
    rw [List.perm_iff_count]
    intro k
    have hold := h.numbers.count_eq k
    simp only [allParts, hrunning, List.flatMap_append, List.flatMap_cons, List.map_append, List.count_append] at hold ⊢
    rcases hslice.numbers with ⟨hnumbers, rfl⟩ | ⟨hnumbers, rfl⟩
    · rw [hnumbers]
      exact hold
    · rw [hnumbers, List.range_succ]
      simp only [List.count_append]
      omega
  rows := by
    have hevents : insertedRows (es ++ [StagingEvent.slice k]) = insertedRows es := by
      simp [insertedRows, StagingEvent.rows]
    have hsame : (l₁ ++ i' :: l₂).flatMap Insert.rows = s.running.flatMap Insert.rows := by
      simp [hrunning, hslice.rows]
    rw [hevents, hsame]
    exact h.rows
  finished m hm := by
    obtain ⟨hnone, _⟩ := h.finished m hm
    simp [hrunning] at hnone

theorem Staging.Kept.ended (h : s.Kept ctx es) (k : Nat) {l₁ l₂ : List (Insert σ ρ)} {i : Insert σ ρ}
    (hrunning : s.running = l₁ ++ i :: l₂) (htodo : i.todo = []) :
    Staging.Kept ctx (es ++ [.ended k]) { s with
      running := l₁ ++ l₂
      parts := s.parts ++ i.closed
      idle := i.writer.toList ++ s.idle } where
  parts p hp := by
    have hi := h.running i (by simp [hrunning])
    simp only [List.mem_append] at hp
    rcases hp with (hp | hp) | hp | hp
    · exact (h.parts p (List.mem_append_left _ hp)).next _
    · exact (hi.part (List.mem_append_left _ hp)).next _
    · exact (hi.part (List.mem_append_right _ hp)).next _
    · exact (h.parts p (List.mem_append_right _ hp)).next _
  running j hj := by
    refine (h.running j ?_).next _
    rcases List.mem_append.mp hj with hj | hj <;> simp [hrunning, hj]
  numbers := by
    refine List.Perm.trans (List.Perm.map _ ?_) h.numbers
    classical
    rw [List.perm_iff_count]
    intro p
    simp only [allParts, hrunning, Insert.parts, List.flatMap_append, List.flatMap_cons, List.count_append]
    omega
  rows := by
    classical
    rw [List.perm_iff_count]
    intro r
    have hold := h.rows.count_eq r
    have hevents : insertedRows (es ++ [StagingEvent.ended k]) = insertedRows es := by
      simp [insertedRows, StagingEvent.rows]
    rw [hevents]
    simp only [hrunning, Insert.rows, Insert.parts, htodo, List.flatten_nil, List.append_nil, List.flatMap_append,
      List.flatMap_cons, List.count_append] at hold ⊢
    omega
  finished m hm := by
    obtain ⟨hnone, _⟩ := h.finished m hm
    simp [hrunning] at hnone

omit [DecidableEq σ] in
/-- The parts when all are closed: a header on its own only where there would be no part. -/
theorem Staging.finalize_parts (ctx : StagingCtx ρ) (s : Staging σ ρ) (emptyPart : Bool) :
    ((s.finalize ctx emptyPart).parts = s.parts ++ s.idle ∧ (s.finalize ctx emptyPart).nextPart = s.nextPart) ∨
      (s.parts ++ s.idle = [] ∧ (s.finalize ctx emptyPart).parts = [⟨s.nextPart, none, []⟩] ∧
        (s.finalize ctx emptyPart).nextPart = s.nextPart + 1) := by
  unfold finalize
  dsimp only
  split_ifs with hheader
  · refine Or.inr ⟨?_, rfl, rfl⟩
    simp only [Bool.and_eq_true, List.isEmpty_iff] at hheader
    exact hheader.1.1
  · exact Or.inl ⟨rfl, rfl⟩

theorem Staging.Kept.finalize (h : s.Kept ctx es) (hnone : s.running = []) (emptyPart : Bool) :
    (s.finalize ctx emptyPart).Kept ctx (es ++ [.finalize emptyPart]) where
  parts p hp := by
    have hp : p ∈ (s.finalize ctx emptyPart).parts := by simpa [Staging.finalize] using hp
    rcases s.finalize_parts ctx emptyPart with ⟨hparts, _⟩ | ⟨_, hparts, _⟩
    · exact (h.parts p (hparts ▸ hp)).next _
    · rw [hparts] at hp
      obtain rfl := List.mem_singleton.mp hp
      exact ⟨Nat.zero_le _, fun t ht => List.nil_sublist _⟩
  running i hi := by
    have hi : i ∈ s.running := hi
    simp [hnone] at hi
  numbers := by
    have hold := h.numbers
    have hidle : (s.finalize ctx emptyPart).idle = [] := rfl
    have hrunning : (s.finalize ctx emptyPart).running = [] := hnone
    simp only [allParts, hnone, hidle, hrunning, List.flatMap_nil, List.append_nil] at hold ⊢
    rcases s.finalize_parts ctx emptyPart with ⟨hparts, hnext⟩ | ⟨hempty, hparts, hnext⟩
    · rw [hparts, hnext]
      exact hold
    · rw [hempty] at hold
      rw [hparts, hnext, List.range_succ]
      exact hold.append_right [s.nextPart]
  rows := by
    have hevents : insertedRows (es ++ [StagingEvent.finalize emptyPart]) = insertedRows es := by
      simp [insertedRows, StagingEvent.rows]
    have hidle : (s.finalize ctx emptyPart).idle = [] := rfl
    have hrunning : (s.finalize ctx emptyPart).running = s.running := rfl
    have hrows : (s.finalize ctx emptyPart).parts.flatMap Part.rows = (s.parts ++ s.idle).flatMap Part.rows := by
      rcases s.finalize_parts ctx emptyPart with ⟨hparts, _⟩ | ⟨hempty, hparts, _⟩
      · rw [hparts]
      · rw [hparts, hempty]
        rfl
    rw [hevents, hidle, hrunning, List.append_nil, hrows]
    exact h.rows
  finished m hm := ⟨hnone, rfl, (Option.some.inj hm).symm⟩

theorem Staging.Kept.step (h : s.Kept ctx es) {e : StagingEvent σ ρ} (hstep : s.step ctx e = some s') :
    s'.Kept ctx (es ++ [e]) := by
  cases Staging.step_cases hstep with
  | begin hopen => exact h.begin hopen _ _
  | slice hrunning hslice => exact h.slice _ hrunning hslice
  | ended hrunning htodo => exact h.ended _ hrunning htodo
  | finalize hopen hnone => exact h.finalize hnone _

theorem Staging.kept_empty (ctx : StagingCtx ρ) : ({} : Staging σ ρ).Kept ctx [] where
  parts := by simp
  running := by simp
  numbers := by simp [allParts]
  rows := by simp [insertedRows]
  finished m hm := by cases hm

theorem Staging.exec_kept (h : exec (Staging.step ctx) {} es = some s) : s.Kept ctx es := by
  have hany : Along (Staging.step ctx) (fun _ _ => True) {} es := along_of_forall (fun _ _ _ => trivial) _
  exact exec_history (fun _ _ _ _ hpast _ hstep => hpast.step hstep) (kept_empty ctx) hany h

/-! ### A stream whose inserts do not overlap -/

def insertsOf (t : σ) (is : List (Insert σ ρ)) : List (Insert σ ρ) := is.filter fun i => i.stream = t

@[simp] theorem partsOf_append (t : σ) (ps qs : List (Part σ ρ)) :
    partsOf t (ps ++ qs) = partsOf t ps ++ partsOf t qs := List.filter_append ..

@[simp] theorem insertsOf_append (t : σ) (is js : List (Insert σ ρ)) :
    insertsOf t (is ++ js) = insertsOf t is ++ insertsOf t js := List.filter_append ..

theorem insertsOf_cons_self (i : Insert σ ρ) (is : List (Insert σ ρ)) :
    insertsOf i.stream (i :: is) = i :: insertsOf i.stream is := by simp [insertsOf]

theorem insertsOf_cons_other {t : σ} {i : Insert σ ρ} (h : i.stream ≠ t) (is : List (Insert σ ρ)) :
    insertsOf t (i :: is) = insertsOf t is := by simp [insertsOf, h]

theorem partsOf_owned {t u : σ} {ps : List (Part σ ρ)} (h : ∀ p ∈ ps, p.stream = some u) :
    partsOf t ps = if u = t then ps else [] := by
  unfold partsOf
  split_ifs with hu
  · exact List.filter_eq_self.mpr fun p hp => by simp [h p hp, hu]
  · exact List.filter_eq_nil_iff.mpr fun p hp => by simp [h p hp, hu]

/-- The stream has one open part at most, its parts are numbered in the order they are filled, and with what its insert
has not written they spell what it was given. -/
structure Staging.InOrder (t : σ) (es : List (StagingEvent σ ρ)) (s : Staging σ ρ) : Prop where
  one : (partsOf t s.idle).length + (insertsOf t s.running).length ≤ 1
  numbers : ((partsOf t s.parts ++ partsOf t s.idle ++ (insertsOf t s.running).flatMap Insert.parts).map
    Part.number).Pairwise (· < ·)
  rows : (partsOf t s.parts ++ partsOf t s.idle).flatMap Part.rows ++ (insertsOf t s.running).flatMap Insert.rows =
    insertedRowsOf t es

variable {t : σ}

/-- The insert that runs is the stream's only one, and no open part waits. -/
theorem Staging.InOrder.alone {l₁ l₂ : List (Insert σ ρ)} {i : Insert σ ρ} (h : s.InOrder i.stream es)
    (hrunning : s.running = l₁ ++ i :: l₂) :
    partsOf i.stream s.idle = [] ∧ insertsOf i.stream l₁ = [] ∧ insertsOf i.stream l₂ = [] := by
  have hone := h.one
  rw [hrunning, insertsOf_append, insertsOf_cons_self, List.length_append, List.length_cons] at hone
  refine ⟨List.eq_nil_of_length_eq_zero ?_, List.eq_nil_of_length_eq_zero ?_, List.eq_nil_of_length_eq_zero ?_⟩ <;> omega

theorem Staging.InOrder.begin (h : s.InOrder t es) {stream : σ} {batches : List (List ρ)}
    (hturn : stream = t → ∀ i ∈ s.running, i.stream ≠ t) :
    (s.begin stream batches).InOrder t (es ++ [.begin stream batches]) := by
  have hparts : (s.begin stream batches).parts = s.parts := rfl
  have hidle : (s.begin stream batches).idle = (popIdle stream s.idle).2 := rfl
  have hrunning : (s.begin stream batches).running =
      s.running ++ [{ stream, todo := batches, writer := (popIdle stream s.idle).1 }] := rfl
  by_cases ht : stream = t
  · subst ht
    have hnone : insertsOf stream s.running = [] :=
      List.filter_eq_nil_iff.mpr fun i hi => by simpa using hturn rfl i hi
    have hevents : insertedRowsOf stream (es ++ [.begin stream batches]) =
        insertedRowsOf stream es ++ batches.flatten := by
      simp [insertedRowsOf, StagingEvent.rowsOf]
    have hone := h.one
    have hnumbers := h.numbers
    have hrows := h.rows
    rw [hnone] at hone hnumbers hrows
    -- the open part, if there is one, goes to the insert
    have hrest : partsOf stream (popIdle stream s.idle).2 = [] := by
      rw [(popIdle_own stream s.idle).2]
      exact List.eq_nil_of_length_eq_zero (by simp at hone ⊢; omega)
    have hwriter : (popIdle stream s.idle).1.toList = partsOf stream s.idle := by
      rw [(popIdle_own stream s.idle).1]
      cases hl : partsOf stream s.idle with
      | nil => rfl
      | cons p ps =>
        rw [(popIdle_own stream s.idle).2, hl] at hrest
        obtain rfl : ps = [] := hrest
        rfl
    have hinserts : insertsOf stream (s.begin stream batches).running =
        [{ stream, todo := batches, writer := (popIdle stream s.idle).1 }] := by
      rw [hrunning, insertsOf_append, hnone]
      simp [insertsOf]
    constructor
    · rw [hinserts, hidle, hrest]
      exact le_refl 1
    · rw [hinserts, hidle, hrest, hparts]
      simpa [Insert.parts, hwriter] using hnumbers
    · rw [hinserts, hidle, hrest, hparts, hevents, ← hrows]
      simp [Insert.rows, Insert.parts, hwriter]
  · have hsame : partsOf t (popIdle stream s.idle).2 = partsOf t s.idle := popIdle_other ht s.idle
    have hinserts : insertsOf t (s.begin stream batches).running = insertsOf t s.running := by
      rw [hrunning, insertsOf_append, insertsOf_cons_other (by exact ht)]
      exact List.append_nil _
    have hevents : insertedRowsOf t (es ++ [.begin stream batches]) = insertedRowsOf t es := by
      simp [insertedRowsOf, StagingEvent.rowsOf, ht]
    constructor
    · rw [hinserts, hidle, hsame]
      exact h.one
    · rw [hinserts, hidle, hsame, hparts]
      exact h.numbers
    · rw [hinserts, hidle, hsame, hparts, hevents]
      exact h.rows

theorem Staging.InOrder.slice (hkept : s.Kept ctx es) (h : s.InOrder t es) (k : Nat) {l₁ l₂ : List (Insert σ ρ)}
    {i i' : Insert σ ρ} {n : Nat} (hrunning : s.running = l₁ ++ i :: l₂)
    (hslice : Sliced ctx.cfg.maxRowsPerFile s.nextPart i i' n) :
    Staging.InOrder t (es ++ [.slice k]) { s with running := l₁ ++ i' :: l₂, nextPart := n } := by
  have hevents : insertedRowsOf t (es ++ [StagingEvent.slice k]) = insertedRowsOf t es := by
    simp [insertedRowsOf, StagingEvent.rowsOf]
  by_cases ht : i.stream = t
  · subst ht
    obtain ⟨hidle, h₁, h₂⟩ := h.alone hrunning
    have hold : insertsOf i.stream s.running = [i] := by
      rw [hrunning, insertsOf_append, insertsOf_cons_self, h₁, h₂]
      rfl
    have hnew : insertsOf i.stream (l₁ ++ i' :: l₂) = [i'] := by
      have hself := insertsOf_cons_self i' l₂
      rw [hslice.stream] at hself
      rw [insertsOf_append, hself, h₁, h₂]
      rfl
    have hnumbers := h.numbers
    have hrows := h.rows
    rw [hold, List.flatMap_singleton] at hnumbers hrows
    constructor
    · simp [hnew, hidle]
    · rw [hnew, List.flatMap_singleton, List.map_append]
      rcases hslice.numbers with ⟨hsame, _⟩ | ⟨hopened, _⟩
      · rwa [hsame, ← List.map_append]
      · rw [hopened, ← List.append_assoc, ← List.map_append]
        refine List.pairwise_append.mpr ⟨hnumbers, List.pairwise_singleton _ _, fun a ha b hb => ?_⟩
        obtain rfl := List.mem_singleton.mp hb
        -- a number that was given out is below the next
        obtain ⟨p, hp, rfl⟩ := List.mem_map.mp ha
        have hall : p ∈ s.allParts := by
          simp only [partsOf, List.mem_append, List.mem_filter] at hp
          simp only [allParts, hrunning, List.flatMap_append, List.flatMap_cons, List.mem_append]
          tauto
        exact List.mem_range.mp (hkept.numbers.mem_iff.mp (List.mem_map_of_mem hall))
    · rw [hnew, List.flatMap_singleton, hslice.rows, hevents]
      exact hrows
  · have hinserts : insertsOf t (l₁ ++ i' :: l₂) = insertsOf t s.running := by
      rw [hrunning, insertsOf_append, insertsOf_append, insertsOf_cons_other ht,
        insertsOf_cons_other (by rw [hslice.stream]; exact ht)]
    constructor
    · rw [hinserts]
      exact h.one
    · rw [hinserts]
      exact h.numbers
    · rw [hinserts, hevents]
      exact h.rows

theorem Staging.InOrder.ended (hkept : s.Kept ctx es) (h : s.InOrder t es) (k : Nat) {l₁ l₂ : List (Insert σ ρ)}
    {i : Insert σ ρ} (hrunning : s.running = l₁ ++ i :: l₂) (htodo : i.todo = []) :
    Staging.InOrder t (es ++ [.ended k]) { s with
      running := l₁ ++ l₂
      parts := s.parts ++ i.closed
      idle := i.writer.toList ++ s.idle } := by
  have hevents : insertedRowsOf t (es ++ [StagingEvent.ended k]) = insertedRowsOf t es := by
    simp [insertedRowsOf, StagingEvent.rowsOf]
  have howner := (hkept.running i (by simp [hrunning])).owner
  have hclosed : ∀ p ∈ i.closed, p.stream = some i.stream := fun p hp => howner p (List.mem_append_left _ hp)
  have hwriter : ∀ p ∈ i.writer.toList, p.stream = some i.stream := fun p hp => howner p (List.mem_append_right _ hp)
  by_cases ht : i.stream = t
  · subst ht
    obtain ⟨hidle, h₁, h₂⟩ := h.alone hrunning
    have hnumbers := h.numbers
    have hrows := h.rows
    rw [hrunning, insertsOf_append, insertsOf_cons_self, h₁, h₂, hidle] at hnumbers hrows
    constructor
    · rw [insertsOf_append, h₁, h₂, partsOf_append, partsOf_owned hwriter, if_pos rfl, hidle]
      cases i.writer <;> simp
    · rw [insertsOf_append, h₁, h₂, partsOf_append, partsOf_append, partsOf_owned hwriter, partsOf_owned hclosed,
        if_pos rfl, if_pos rfl, hidle]
      simpa [Insert.parts] using hnumbers
    · rw [insertsOf_append, h₁, h₂, partsOf_append, partsOf_append, partsOf_owned hwriter, partsOf_owned hclosed,
        if_pos rfl, if_pos rfl, hidle, hevents, ← hrows]
      simp [Insert.rows, Insert.parts, htodo]
  · have hinserts : insertsOf t (l₁ ++ l₂) = insertsOf t s.running := by
      rw [hrunning, insertsOf_append, insertsOf_append, insertsOf_cons_other ht]
    have hparts : partsOf t (s.parts ++ i.closed) = partsOf t s.parts := by
      rw [partsOf_append, partsOf_owned hclosed, if_neg ht, List.append_nil]
    have hidle : partsOf t (i.writer.toList ++ s.idle) = partsOf t s.idle := by
      rw [partsOf_append, partsOf_owned hwriter, if_neg ht, List.nil_append]
    constructor
    · rw [hinserts, hidle]
      exact h.one
    · rw [hinserts, hparts, hidle]
      exact h.numbers
    · rw [hinserts, hparts, hidle, hevents]
      exact h.rows

theorem Staging.InOrder.finalize (h : s.InOrder t es) (hnone : s.running = []) (emptyPart : Bool) :
    (s.finalize ctx emptyPart).InOrder t (es ++ [.finalize emptyPart]) := by
  have hevents : insertedRowsOf t (es ++ [StagingEvent.finalize emptyPart]) = insertedRowsOf t es := by
    simp [insertedRowsOf, StagingEvent.rowsOf]
  have hidle : (s.finalize ctx emptyPart).idle = [] := rfl
  have hrunning : (s.finalize ctx emptyPart).running = s.running := rfl
  -- a header on its own is no stream's part
  have hparts : partsOf t (s.finalize ctx emptyPart).parts = partsOf t s.parts ++ partsOf t s.idle := by
    rw [← partsOf_append]
    rcases s.finalize_parts ctx emptyPart with ⟨hparts, _⟩ | ⟨hempty, hparts, _⟩
    · rw [hparts]
    · rw [hparts, hempty]
      simp [partsOf]
  have hnumbers := h.numbers
  have hrows := h.rows
  rw [hnone] at hnumbers hrows
  constructor
  · rw [hidle, hrunning, hnone]
    exact Nat.zero_le 1
  · rw [hidle, hrunning, hnone, hparts]
    simpa [partsOf, insertsOf] using hnumbers
  · rw [hidle, hrunning, hnone, hparts, hevents]
    simpa [partsOf, insertsOf] using hrows

theorem Staging.InOrder.step (hkept : s.Kept ctx es) (h : s.InOrder t es) {e : StagingEvent σ ρ}
    (hturn : InTurn t s e) (hstep : s.step ctx e = some s') : s'.InOrder t (es ++ [e]) := by
  cases Staging.step_cases hstep with
  | begin hopen => exact h.begin hturn
  | slice hrunning hslice => exact h.slice hkept _ hrunning hslice
  | ended hrunning htodo => exact h.ended hkept _ hrunning htodo
  | finalize hopen hnone => exact h.finalize hnone _

theorem Staging.exec_inOrder (hturn : Along (Staging.step ctx) (InTurn t) {} es)
    (h : exec (Staging.step ctx) {} es = some s) : s.InOrder t es := by
  have hboth := exec_history (P := fun es s => Staging.Kept ctx es s ∧ s.InOrder t es)
    (fun _ _ _ _ hpast hcond hstep => ⟨hpast.1.step hstep, hpast.2.step hpast.1 hcond hstep⟩)
    ⟨kept_empty ctx, by simp [partsOf, insertsOf], by simp [partsOf, insertsOf], by
      simp [partsOf, insertsOf, insertedRowsOf]⟩ hturn h
  exact hboth.2

/-! ### The finished folder -/

/-- No two parts of a run have one name. -/
theorem PartFormat.fileName_injective (format : PartFormat) (runId : String) :
    Function.Injective (format.fileName runId) := by
  intro n m h
  unfold fileName at h
  have hchars := congrArg String.toList h
  simp only [String.toList_append, List.append_cancel_left_eq, List.append_cancel_right_eq, String.toList_ofList]
    at hchars
  have hvalue := congrArg (fun l => Nat.ofDigitChars 10 l 0) hchars
  simpa [Nat.ofDigitChars_append] using hvalue

theorem Manifest.rows_new (cfg : CsvDestConfig) (columns : List ManifestColumn) (parts : List PartInfo) :
    (Manifest.new cfg columns parts).rows = (parts.map (·.rows)).sum := rfl

omit [DecidableEq σ] in
theorem length_flatMap_rows (ps : List (Part σ ρ)) :
    ((ps.map (Part.info ctx)).map (·.rows)).sum = (ps.flatMap Part.rows).length := by
  rw [List.length_flatMap, List.map_map]
  rfl

/-- The manifest lists every part once. -/
theorem Staging.Kept.listed (hkept : s.Kept ctx es) {m : Manifest} (hm : s.finished = some m) :
    m.parts.Perm (s.parts.map (Part.info ctx)) ∧ (m.parts.map (·.file)).Nodup := by
  obtain ⟨hrunning, hidle, hmanifest⟩ := hkept.finished m hm
  have hlisted : m.parts.Perm (s.parts.map (Part.info ctx)) := by
    rw [hmanifest]
    exact List.mergeSort_perm _ _
  have hnumbers := hkept.numbers
  simp only [allParts, hrunning, hidle, List.flatMap_nil, List.append_nil] at hnumbers
  have hnodup := (hnumbers.nodup_iff.mpr List.nodup_range).map (ctx.cfg.partFormat.fileName_injective ctx.runId)
  rw [List.map_map] at hnodup
  rw [(hlisted.map _).nodup_iff, List.map_map]
  exact ⟨hlisted, hnodup⟩

/-- When the manifest is written, the parts are within their bound, the manifest lists each part that was opened once,
with its rows, and the parts hold what was inserted.  A part has rows of one stream, in order, and the rows of a stream
whose inserts took turns are in order across its parts, by their numbers. -/
theorem staging_keeps_every_row (ctx : StagingCtx ρ) (es : List (StagingEvent σ ρ)) (s : Staging σ ρ) (m : Manifest)
    (hexec : exec (Staging.step ctx) {} es = some s) (hm : s.finished = some m) :
    (∀ p ∈ s.parts, p.rows.length ≤ ctx.cfg.maxRowsPerFile) ∧
    m.parts.Perm (s.parts.map (Part.info ctx)) ∧
    (s.parts.map Part.number).Perm (List.range s.nextPart) ∧
    (m.parts.map (·.file)).Nodup ∧
    m.rows = (insertedRows es).length ∧
    (s.parts.flatMap Part.rows).Perm (insertedRows es) ∧
    (∀ p ∈ s.parts, ∀ t, p.stream = some t → p.rows.Sublist (insertedRowsOf t es)) ∧
    ∀ t, Along (Staging.step ctx) (InTurn t) {} es →
      (partsOf t s.parts).Pairwise (fun p q => p.number < q.number) ∧
      (partsOf t s.parts).flatMap Part.rows = insertedRowsOf t es := by
  have hkept := Staging.exec_kept hexec
  obtain ⟨hrunning, hidle, hmanifest⟩ := hkept.finished m hm
  obtain ⟨hlisted, hnodup⟩ := hkept.listed hm
  have hnumbers := hkept.numbers
  have hrows := hkept.rows
  simp only [Staging.allParts, hrunning, hidle, List.flatMap_nil, List.append_nil] at hnumbers hrows
  refine ⟨fun p hp => (hkept.parts p (List.mem_append_left _ hp)).bound, hlisted, hnumbers, hnodup, ?_, hrows,
    fun p hp => (hkept.parts p (List.mem_append_left _ hp)).within, fun t hturn => ?_⟩
  · calc m.rows = (m.parts.map (·.rows)).sum := by rw [hmanifest]; exact Manifest.rows_new ..
      _ = ((s.parts.map (Part.info ctx)).map (·.rows)).sum := (hlisted.map _).sum_nat
      _ = (s.parts.flatMap Part.rows).length := length_flatMap_rows s.parts
      _ = (insertedRows es).length := hrows.length_eq
  · have horder := Staging.exec_inOrder hturn hexec
    have hfilled := horder.numbers
    have hspelled := horder.rows
    rw [hrunning, hidle] at hfilled hspelled
    constructor
    · simpa [partsOf, insertsOf, List.pairwise_map] using hfilled
    · simpa [partsOf, insertsOf] using hspelled

end Steps

/-! ### Two runs -/

/-- Parts of two rows, with a header. -/
def pairCtx : StagingCtx Nat where
  cfg := ⟨44, true, .none, 2, rfl, Nat.two_pos⟩
  runId := "7"
  columns := [⟨"id", "Int64"⟩]
  bytes rows := 2 * rows.length

/-- Two streams side by side: the first fills a part and opens its second. -/
def sideBySide : List (StagingEvent Bool Nat) :=
  [.begin true [[1, 2, 3]], .begin false [[8], [9]], .slice 0, .slice 1, .slice 0, .slice 1, .slice 1, .slice 1,
    .ended 1, .slice 0, .ended 0]

theorem staging_keeps_every_row_side_by_side : ∃ s m,
    exec (Staging.step pairCtx) {} (sideBySide ++ [.finalize true]) = some s ∧ s.finished = some m ∧ m.rows = 5 ∧
      (partsOf true s.parts).flatMap Part.rows = [1, 2, 3] := by
  have hbefore : ∃ s₀, exec (Staging.step pairCtx) {} sideBySide = some s₀ ∧ s₀.finished = none ∧ s₀.running = [] :=
    ⟨((exec (Staging.step pairCtx) {} sideBySide).getD {}), by decide +kernel⟩
  obtain ⟨s₀, hs₀, hopen, hnone⟩ := hbefore
  have hexec : exec (Staging.step pairCtx) {} (sideBySide ++ [.finalize true]) = some (s₀.finalize pairCtx true) :=
    exec_append.mpr ⟨s₀, hs₀, by simp [exec, Staging.step, hopen, hnone]⟩
  refine ⟨_, _, hexec, rfl, ?_⟩
  obtain ⟨_, _, _, _, hrows, _, _, horder⟩ := staging_keeps_every_row pairCtx _ _ _ hexec rfl
  refine ⟨hrows.trans (by decide +kernel), ?_⟩
  have hturn : Along (Staging.step pairCtx) (InTurn true) {} (sideBySide ++ [.finalize true]) := by decide +kernel
  exact (horder true hturn).2.trans (by decide +kernel)

/-- Three inserts of one stream: the second begins while the first runs, the third takes the part the first left. -/
def overlapping : List (StagingEvent Unit Nat) :=
  [.begin () [[1]], .slice 0, .begin () [[2]], .slice 1, .slice 0, .ended 0, .begin () [[3]], .slice 1, .slice 1,
    .ended 1, .slice 0, .ended 0]

/-- Whichever way its parts are put one behind another, the stream's rows are out of order. -/
theorem overlapping_inserts_disorder : ∃ s m,
    exec (Staging.step pairCtx) {} (overlapping ++ [.finalize true]) = some s ∧ s.finished = some m ∧
      ∀ ps : List (Part Unit Nat), ps.Perm s.parts →
        ps.flatMap Part.rows ≠ insertedRowsOf () (overlapping ++ [.finalize true]) := by
  have hbefore : ∃ s₀, exec (Staging.step pairCtx) {} overlapping = some s₀ ∧ s₀.finished = none ∧ s₀.running = [] ∧
      s₀.parts ++ s₀.idle = [⟨1, some (), [2]⟩, ⟨0, some (), [1, 3]⟩] :=
    ⟨((exec (Staging.step pairCtx) {} overlapping).getD {}), by decide +kernel⟩
  obtain ⟨s₀, hs₀, hopen, hnone, hparts⟩ := hbefore
  refine ⟨_, _, exec_append.mpr ⟨s₀, hs₀, by simp [exec, Staging.step, hopen, hnone]; rfl⟩, rfl, fun ps hps => ?_⟩
  rcases s₀.finalize_parts pairCtx true with ⟨hfinal, _⟩ | ⟨hempty, _⟩
  · rw [hfinal, hparts] at hps
    obtain ⟨p, q, rfl⟩ := List.length_eq_two.mp hps.length_eq
    have hp := hps.subset (List.mem_cons_self (l := [q]))
    have hq := hps.subset (List.mem_cons_of_mem p (List.mem_singleton_self q))
    simp only [List.mem_cons, List.not_mem_nil, or_false] at hp hq
    rcases hp with rfl | rfl <;> rcases hq with rfl | rfl <;> decide
  · rw [hparts] at hempty
    cases hempty

end Quickhouse
