import Quickhouse.ChunkedRead
import Quickhouse.WindowedSweep

/-!
# The archive

A run can write what it sends into object storage as well, past the same null guard.  A chunked read has a file for
each chunk, completed once the chunk has landed and before its marker is saved; a statement of another read has a file
of its own, aborted when the statement fails.

`ArchivedRead` is the chunked read with its files beside it; its steps are the steps of `World`.
-/

namespace Quickhouse

open Runs

/-- A chunked read and its archive. -/
structure ArchivedRead where
  world : World
  /-- How many rows of the chunk were handed to the archive. -/
  written : Nat := 0
  /-- The chunk's open file. -/
  writer : Option (List RowVersion) := none
  /-- The landed chunk's file is completed. -/
  finished : Bool := false
  objects : List (List RowVersion) := []
  /-- What landed of the chunk in progress. -/
  landed : List RowVersion := []
  /-- What landed of a chunk whose file a crash cut off, and was in no chunk archived since. -/
  cutOff : List RowVersion := []
  deriving DecidableEq, Repr

inductive ArchiveEvent where
  /-- A step of the read. -/
  | read (e : Event)
  /-- The next batch of the chunk, of `n` rows, is written to the file. -/
  | write (n : Nat)
  | finishChunk

/-- A resume marker or a final cursor is saved. -/
def ArchiveEvent.Saves : ArchiveEvent → Prop
  | .read (.saveMarker ..) | .read (.finish ..) => True
  | _ => False

namespace ArchivedRead

/-- The rows of the batch that the null guard leaves in; the first ones open the file. -/
def append (writer : Option (List RowVersion)) (rows : List RowVersion) : Option (List RowVersion) :=
  if rows = [] then writer else some (writer.getD [] ++ rows)

/-- A batch is archived before it is pushed, so a row that is inserted was written. -/
def mayInsert (a : ArchivedRead) (i : Nat) : Bool :=
  match a.world.run with
  | some r =>
    match r.phase with
    | .inserting chunk todo => todo[i]?.any fun x => (chunk.take a.written).contains x
    | _ => false
  | none => false

/-- Every batch of the chunk is written. -/
def allWritten (a : ArchivedRead) : Bool :=
  match a.world.run with
  | some r =>
    match r.phase with
    | .inserting chunk _ => a.written = chunk.length
    | _ => false
  | none => false

/-- The step of the read lands these rows. -/
def landing (t : ChunkedTransfer) (s : World) : Event → List RowVersion
  | .insert _ i =>
    match s.run with
    | some r =>
      match r.phase with
      | .inserting _ todo => (todo[i]?.toList).filter fun x => t.leavesIn x && !t.staged
      | _ => []
    | none => []
  | .endChunk _ => (s.run.map (·.staging)).getD []
  | _ => []

/-- The archive waits for the read, and the read for the archive. -/
def ready (a : ArchivedRead) : Event → Bool
  | .insert _ i => a.mayInsert i
  | .endChunk _ => a.allWritten
  | .saveMarker .. => a.finished
  | _ => true

/-- What a step of the read does to the archive. -/
def follow (a : ArchivedRead) (world : World) (landing : List RowVersion) : Event → ArchivedRead
  | .readChunk _ => { a with world, written := 0 }
  | .saveMarker .. => { a with world, finished := false }
  | .crash _ =>
    { a with world, written := 0, writer := none, finished := false, landed := [], cutOff := a.cutOff ++ a.landed }
  | _ => { a with world, landed := a.landed ++ landing }

def write (t : ChunkedTransfer) (a : ArchivedRead) (n : Nat) : Option ArchivedRead :=
  match a.world.run with
  | some r =>
    match r.phase with
    | .inserting chunk _ =>
      let rows := ((chunk.drop a.written).take n).filter t.leavesIn
      some { a with written := min (a.written + n) chunk.length, writer := append a.writer rows }
    | _ => none
  | none => none

/-- The file of a landed chunk becomes an object; a chunk without rows past the guard has none. -/
def finishChunk (a : ArchivedRead) : Option ArchivedRead :=
  match a.world.run with
  | some r =>
    match r.phase, a.finished with
    | .landed chunk, false => some { a with
        writer := none
        finished := true
        objects := a.objects ++ a.writer.toList
        landed := []
        cutOff := a.cutOff.filter fun x => !chunk.contains x }
    | _, _ => none
  | none => none

def step (t : ChunkedTransfer) (a : ArchivedRead) : ArchiveEvent → Option ArchivedRead
  | .read e =>
    if a.ready e then (a.world.step t e).map fun world => a.follow world (landing t a.world e) e else none
  | .write n => a.write t n
  | .finishChunk => a.finishChunk

/-! ### What the files hold -/

/-- Between two chunks there is no file and nothing waits for one. -/
structure Idle (a : ArchivedRead) : Prop where
  writer : a.writer.getD [] = []
  landed : a.landed = []
  finished : a.finished = false

/-- The file of the chunk in progress, by where the chunk stands. -/
def FileInv (t : ChunkedTransfer) (a : ArchivedRead) (staging : List RowVersion) : Phase → Prop
  | .inserting chunk _ =>
    a.finished = false ∧ a.writer.getD [] = (chunk.take a.written).filter t.leavesIn ∧
      (∀ x ∈ a.landed, x ∈ chunk.take a.written) ∧ ∀ x ∈ staging, x ∈ chunk.take a.written ∧ t.leavesIn x
  | .landed chunk =>
    if a.finished then a.writer = none ∧ a.landed = []
    else a.writer.getD [] = chunk.filter t.leavesIn ∧ ∀ x ∈ a.landed, x ∈ chunk
  | .chunkStart | .complete => a.Idle

/-- Every row that landed since the destination was `dest₀` is archived, or waits for the file of its chunk, or was
cut off from it. -/
structure Inv (t : ChunkedTransfer) (dest₀ : List RowVersion) (a : ArchivedRead) : Prop where
  kept : ∀ x ∈ a.world.dest, x ∈ dest₀ ∨ x ∈ a.objects.flatten ∨ x ∈ a.landed ∨ x ∈ a.cutOff
  landed : ∀ x ∈ a.landed, t.leavesIn x
  cutOff : ∀ x ∈ a.cutOff, t.leavesIn x
  idle : a.world.run = none → a.Idle
  file : ∀ r, a.world.run = some r → FileInv t a r.staging r.phase

variable {t : ChunkedTransfer} {dest₀ : List RowVersion} {a a' : ArchivedRead}

/-- Where the read is between chunks before the step and after it, the archive rests. -/
theorem Inv.rest (h : Inv t dest₀ a) (hidle : a.Idle) (world : World) (hdest : world.dest = a.world.dest)
    (hphase : ∀ r, world.run = some r → r.phase = .chunkStart ∨ r.phase = .complete) :
    Inv t dest₀ { a with world } where
  kept x hx := h.kept x (hdest ▸ hx)
  landed := h.landed
  cutOff := h.cutOff
  idle _ := ⟨hidle.writer, hidle.landed, hidle.finished⟩
  file r hr := by
    rcases hphase r hr with hphase | hphase
    all_goals
      rw [hphase]
      exact ⟨hidle.writer, hidle.landed, hidle.finished⟩

theorem append_getD (writer : Option (List RowVersion)) (rows : List RowVersion) :
    (append writer rows).getD [] = writer.getD [] ++ rows := by
  unfold append
  split
  case isTrue h => rw [h, List.append_nil]
  case isFalse => rfl

theorem Inv.write (h : Inv t dest₀ a) {n : Nat} (hstep : a.write t n = some a') : Inv t dest₀ a' := by
  unfold ArchivedRead.write at hstep
  split at hstep
  case h_2 => exact nomatch hstep
  case h_1 r hrun =>
    split at hstep
    case h_2 => exact nomatch hstep
    case h_1 chunk todo hphase =>
      obtain rfl := Option.some.inj hstep
      have hfile := h.file r hrun
      rw [hphase] at hfile
      obtain ⟨hfinished, hwriter, hlanded, hstaging⟩ := hfile
      have htake : chunk.take (min (a.written + n) chunk.length) =
          chunk.take a.written ++ (chunk.drop a.written).take n := by
        rw [← List.take_add, ← List.take_take, List.take_length]
      refine ⟨h.kept, h.landed, h.cutOff, fun hnone => ?_, fun r' hr' => ?_⟩
      · exact absurd (hrun.symm.trans hnone) nofun
      · obtain rfl := Option.some.inj (hr'.symm.trans hrun)
        rw [hphase]
        refine ⟨hfinished, ?_, fun x hx => ?_, fun x hx => ?_⟩
        · rw [append_getD, hwriter, htake, List.filter_append]
        · rw [htake]
          exact List.mem_append_left _ (hlanded x hx)
        · rw [htake]
          exact ⟨List.mem_append_left _ (hstaging x hx).1, (hstaging x hx).2⟩

theorem Inv.finishChunk (h : Inv t dest₀ a) (hstep : a.finishChunk = some a') : Inv t dest₀ a' := by
  unfold ArchivedRead.finishChunk at hstep
  split at hstep
  case h_2 => exact nomatch hstep
  case h_1 r hrun =>
    split at hstep
    case h_2 => exact nomatch hstep
    case h_1 chunk hphase hfinished =>
      obtain rfl := Option.some.inj hstep
      have hfile := h.file r hrun
      simp only [hphase, FileInv, hfinished, Bool.false_eq_true, if_false] at hfile
      obtain ⟨hwriter, hlanded⟩ := hfile
      -- the rows of the chunk past the guard are in the object
      have hobject : ∀ x ∈ chunk, t.leavesIn x → x ∈ (a.objects ++ a.writer.toList).flatten := by
        intro x hx hleaves
        have hmem : x ∈ a.writer.getD [] := by
          rw [hwriter]
          exact List.mem_filter.mpr ⟨hx, hleaves⟩
        cases hw : a.writer with
        | none => simp [hw] at hmem
        | some file =>
          rw [hw] at hmem
          simp only [Option.toList_some, List.flatten_append, List.mem_append]
          exact Or.inr (by simpa using hmem)
      refine ⟨fun x hx => ?_, nofun, fun x hx => h.cutOff x (List.mem_filter.mp hx).1, fun hnone => ?_,
        fun r' hr' => ?_⟩
      · rcases h.kept x hx with hx | hx | hx | hx
        · exact Or.inl hx
        · refine Or.inr (Or.inl ?_)
          rw [List.flatten_append]
          exact List.mem_append_left _ hx
        · exact Or.inr (Or.inl (hobject x (hlanded x hx) (h.landed x hx)))
        · by_cases hchunk : x ∈ chunk
          · exact Or.inr (Or.inl (hobject x hchunk (h.cutOff x hx)))
          · refine Or.inr (Or.inr (Or.inr (List.mem_filter.mpr ⟨hx, ?_⟩)))
            simpa using hchunk
      · exact absurd (hrun.symm.trans hnone) nofun
      · obtain rfl := Option.some.inj (hr'.symm.trans hrun)
        simp [hphase, FileInv]

/-- The read goes on where it stood: the archive does not change. -/
theorem Inv.same (h : Inv t dest₀ a) (world : World) (hdest : world.dest = a.world.dest)
    (hrun : world.run = a.world.run) : Inv t dest₀ { a with world } where
  kept x hx := h.kept x (hdest ▸ hx)
  landed := h.landed
  cutOff := h.cutOff
  idle hnone := ⟨(h.idle (hrun ▸ hnone)).writer, (h.idle (hrun ▸ hnone)).landed, (h.idle (hrun ▸ hnone)).finished⟩
  file r hr := by
    have hfile := h.file r (hrun ▸ hr)
    cases hphase : r.phase with
    | inserting chunk todo | landed chunk =>
      rw [hphase] at hfile
      exact hfile
    | chunkStart | complete =>
      rw [hphase] at hfile
      exact ⟨hfile.writer, hfile.landed, hfile.finished⟩

theorem Inv.readChunk (h : Inv t dest₀ a) {now : Nat} {w : World}
    (hstep : World.readChunk t { a.world with clock := now } = some w) :
    Inv t dest₀ { a with world := w, written := 0 } := by
  obtain ⟨r, hrun, hphase, rfl⟩ := World.readChunk_cases hstep
  have hfile := h.file r hrun
  rw [hphase] at hfile
  refine ⟨h.kept, h.landed, h.cutOff, nofun, fun r' hr' => ?_⟩
  obtain rfl := Option.some.inj hr'
  have hlanded : a.landed = [] := hfile.landed
  refine ⟨hfile.finished, ?_, ?_, nofun⟩
  · rw [List.take_zero]
    exact hfile.writer
  · simp [hlanded]

theorem Inv.insert (h : Inv t dest₀ a) {now i : Nat} {w : World} (hready : a.mayInsert i = true)
    (hstep : World.insert t { a.world with clock := now } i = some w) :
    Inv t dest₀ { a with world := w, landed := a.landed ++ landing t a.world (.insert now i) } := by
  obtain ⟨r, chunk, todo, x, hrun, hphase, hx, rfl⟩ := World.insert_cases hstep
  have hrun' : a.world.run = some r := hrun
  have hfile := h.file r hrun'
  rw [hphase] at hfile
  obtain ⟨hfinished, hwriter, hlanded, hstaging⟩ := hfile
  have hwritten : x ∈ chunk.take a.written := by
    simpa [mayInsert, hrun', hphase, hx] using hready
  have hlanding : landing t a.world (.insert now i) = [x].filter fun x => t.leavesIn x && !t.staged := by
    simp only [landing, hrun', hphase, hx]
    rfl
  rw [hlanding]
  -- the row lands at once, or is staged, or is left out
  have hnew : ∀ y ∈ [x].filter (fun x => t.leavesIn x && !t.staged), y = x ∧ t.leavesIn x := by
    intro y hy
    obtain ⟨hy, hleaves⟩ := List.mem_filter.mp hy
    obtain rfl := List.mem_singleton.mp hy
    exact ⟨rfl, (Bool.and_eq_true _ _ ▸ hleaves).1⟩
  refine ⟨fun y hy => ?_, fun y hy => ?_, h.cutOff, nofun, fun r' hr' => ?_⟩
  · have hy' : y ∈ a.world.dest ∨ y ∈ [x].filter fun x => t.leavesIn x && !t.staged := by
      by_cases hleaves : (t.leavesIn x && !t.staged) = true
      · simpa [hleaves] using hy
      · exact Or.inl (by simpa [hleaves] using hy)
    rcases hy' with hy' | hy'
    · rcases h.kept y hy' with hk | hk | hk | hk
      · exact Or.inl hk
      · exact Or.inr (Or.inl hk)
      · exact Or.inr (Or.inr (Or.inl (List.mem_append_left _ hk)))
      · exact Or.inr (Or.inr (Or.inr hk))
    · exact Or.inr (Or.inr (Or.inl (List.mem_append_right _ hy')))
  · rcases List.mem_append.mp hy with hy | hy
    · exact h.landed y hy
    · obtain ⟨rfl, hleaves⟩ := hnew y hy
      exact hleaves
  · obtain rfl := Option.some.inj hr'
    refine ⟨hfinished, hwriter, fun y hy => ?_, fun y hy => ?_⟩
    · rcases List.mem_append.mp hy with hy | hy
      · exact hlanded y hy
      · obtain ⟨rfl, -⟩ := hnew y hy
        exact hwritten
    · by_cases hleaves : (t.leavesIn x && t.staged) = true
      · have hy' : y ∈ r.staging ∨ y = x := by simpa [hleaves] using hy
        rcases hy' with hy' | rfl
        · exact hstaging y hy'
        · exact ⟨hwritten, (Bool.and_eq_true _ _ ▸ hleaves).1⟩
      · exact hstaging y (by simpa [hleaves] using hy)

theorem Inv.endChunk (h : Inv t dest₀ a) {now : Nat} {w : World} (hready : a.allWritten = true)
    (hstep : World.endChunk { a.world with clock := now } = some w) :
    Inv t dest₀ { a with world := w, landed := a.landed ++ landing t a.world (.endChunk now) } := by
  obtain ⟨r, chunk, hrun, hphase, rfl⟩ := World.endChunk_cases hstep
  have hrun' : a.world.run = some r := hrun
  have hfile := h.file r hrun'
  rw [hphase] at hfile
  obtain ⟨hfinished, hwriter, hlanded, hstaging⟩ := hfile
  have hall : chunk.take a.written = chunk := by
    have hlength : a.written = chunk.length := by simpa [allWritten, hrun', hphase] using hready
    rw [hlength, List.take_length]
  rw [hall] at hwriter hlanded hstaging
  have hlanding : landing t a.world (.endChunk now) = r.staging := by simp [landing, hrun']
  rw [hlanding]
  have hchunk : ∀ y ∈ a.landed ++ r.staging, y ∈ chunk := by
    intro y hy
    rcases List.mem_append.mp hy with hy | hy
    · exact hlanded y hy
    · exact (hstaging y hy).1
  refine ⟨fun y hy => ?_, fun y hy => ?_, h.cutOff, nofun, fun r' hr' => ?_⟩
  · rcases List.mem_append.mp hy with hy | hy
    · rcases h.kept y hy with hk | hk | hk | hk
      · exact Or.inl hk
      · exact Or.inr (Or.inl hk)
      · exact Or.inr (Or.inr (Or.inl (List.mem_append_left _ hk)))
      · exact Or.inr (Or.inr (Or.inr hk))
    · exact Or.inr (Or.inr (Or.inl (List.mem_append_right _ hy)))
  · rcases List.mem_append.mp hy with hy | hy
    · exact h.landed y hy
    · exact (hstaging y hy).2
  · obtain rfl := Option.some.inj hr'
    by_cases hempty : chunk = []
    · -- the empty chunk ends the read: it landed nothing and opened no file
      simp only [hempty, if_true]
      refine ⟨by simpa [hempty] using hwriter, ?_, hfinished⟩
      exact List.eq_nil_iff_forall_not_mem.mpr fun y hy => by simpa [hempty] using hchunk y hy
    · simp only [hempty, if_false, FileInv, hfinished, Bool.false_eq_true]
      exact ⟨hwriter, hchunk⟩

theorem Inv.saveMarker (h : Inv t dest₀ a) {now : Nat} {secs : Binary64.F64} {w : World} (hready : a.finished = true)
    (hstep : World.saveMarker t { a.world with clock := now } secs = some w) :
    Inv t dest₀ { a with world := w, finished := false } := by
  obtain ⟨r, chunk, firstRead, last, hrun, hphase, -, -, -, rfl⟩ := World.saveMarker_cases hstep
  have hfile := h.file r hrun
  simp only [hphase, FileInv, hready, if_true] at hfile
  have hidle : Idle { a with finished := false } := ⟨by simp [hfile.1], hfile.2, rfl⟩
  refine ⟨h.kept, h.landed, h.cutOff, nofun, fun r' hr' => ?_⟩
  obtain rfl := Option.some.inj hr'
  dsimp only
  split
  · exact ⟨hidle.writer, hidle.landed, rfl⟩
  · exact ⟨hidle.writer, hidle.landed, rfl⟩

theorem Inv.finish (h : Inv t dest₀ a) {now : Nat} {secs : Binary64.F64} {w : World}
    (hstep : World.finish t { a.world with clock := now } secs = some w) : Inv t dest₀ { a with world := w } := by
  obtain ⟨r, firstRead, hrun, hphase, -, -, hw⟩ := World.finish_cases hstep
  have hfile := h.file r hrun
  rw [hphase] at hfile
  have hdest : w.dest = a.world.dest := by rw [hw]
  have hnone : w.run = none := by rw [hw]
  refine h.rest hfile w hdest fun r' hr' => ?_
  rw [hnone] at hr'
  cases hr'

/-- Every step keeps the archive's books. -/
theorem Inv.step (h : Inv t dest₀ a) {e : ArchiveEvent} (hstep : a.step t e = some a') : Inv t dest₀ a' := by
  cases e with
  | write n => exact h.write hstep
  | finishChunk => exact h.finishChunk hstep
  | read e =>
    simp only [ArchivedRead.step] at hstep
    split at hstep
    case isFalse => exact nomatch hstep
    case isTrue hready =>
      obtain ⟨w, hw, rfl⟩ := Option.map_eq_some_iff.mp hstep
      obtain ⟨-, -, hact⟩ := World.step_cases hw
      -- a step that lands nothing adds nothing to what waits for the file
      have hquiet : ∀ {s : World}, Inv t dest₀ { a with world := s } →
          Inv t dest₀ { a with world := s, landed := a.landed ++ [] } := fun hs => by rwa [List.append_nil]
      cases e with
      | change now key =>
        obtain rfl := Option.some.inj hact
        exact hquiet (h.same _ rfl rfl)
      | delete now key =>
        obtain rfl := Option.some.inj hact
        exact hquiet (h.same _ rfl rfl)
      | start now skipMax =>
        obtain ⟨hnone, -, -, hs⟩ := World.start_cases hact
        have hdest : w.dest = a.world.dest := by rw [hs]
        refine hquiet (h.rest (h.idle hnone) w hdest fun r hr => ?_)
        rw [hs] at hr
        obtain rfl := Option.some.inj hr
        exact Or.inl rfl
      | readChunk now => exact h.readChunk hact
      | insert now i => exact h.insert hready hact
      | endChunk now => exact h.endChunk hready hact
      | saveMarker now secs => exact h.saveMarker hready hact
      | finish now secs => exact hquiet (h.finish hact)
      | crash now =>
        have hs := World.crash_cases hact
        have hdest : w.dest = a.world.dest := by rw [hs]
        have hnone : w.run = none := by rw [hs]
        refine ⟨fun x hx => ?_, nofun, fun x hx => ?_, fun _ => ⟨rfl, rfl, rfl⟩, fun r hr => ?_⟩
        · rcases h.kept x (hdest ▸ hx) with hk | hk | hk | hk
          · exact Or.inl hk
          · exact Or.inr (Or.inl hk)
          · exact Or.inr (Or.inr (Or.inr (List.mem_append_right _ hk)))
          · exact Or.inr (Or.inr (Or.inr (List.mem_append_left _ hk)))
        · rcases List.mem_append.mp hx with hx | hx
          · exact h.cutOff x hx
          · exact h.landed x hx
        · exact absurd (hr.symm.trans hnone) nofun

theorem Inv.start (t : ChunkedTransfer) {s : World} (hrun : s.run = none) : Inv t s.dest { world := s } where
  kept _ hx := Or.inl hx
  landed := nofun
  cutOff := nofun
  idle _ := ⟨rfl, rfl, rfl⟩
  file _ hr := absurd (hr.symm.trans hrun) nofun

/-- When something is saved, no row waits for its file. -/
theorem Inv.landed_of_saves (h : Inv t dest₀ a) {e : ArchiveEvent} (he : e.Saves) (hstep : a.step t e = some a') :
    a'.landed = [] := by
  have h' := h.step hstep
  match e, he with
  | .read (.saveMarker now secs), _ =>
    simp only [ArchivedRead.step] at hstep
    split at hstep
    case isFalse => exact nomatch hstep
    case isTrue hready =>
      obtain ⟨w, hw, rfl⟩ := Option.map_eq_some_iff.mp hstep
      obtain ⟨r, chunk, firstRead, last, hrun, hphase, -⟩ := World.saveMarker_cases (World.step_cases hw).2.2
      have hfile := h.file r hrun
      have hfinished : a.finished = true := hready
      simp only [hphase, FileInv, hfinished, if_true] at hfile
      exact hfile.2
  | .read (.finish now secs), _ =>
    simp only [ArchivedRead.step] at hstep
    split at hstep
    case isFalse => exact nomatch hstep
    case isTrue hready =>
      obtain ⟨w, hw, rfl⟩ := Option.map_eq_some_iff.mp hstep
      obtain ⟨r, firstRead, hrun, hphase, -, -, hs⟩ := World.finish_cases (World.step_cases hw).2.2
      refine (h'.idle ?_).landed
      show w.run = none
      rw [hs]

end ArchivedRead

/-! ### The uploads of a sweep -/

/-- The store does not take back the upload of a cancelled window's file. -/
def abortRefused {ρ : Type} : SweepEvent ρ → Bool
  | .windowCancelled aborted => !aborted
  | _ => false

theorem Sweep.leftOpen_step {ρ : Type} {ctx : SendCtx ρ} {s s' : Sweep ρ} {e : SweepEvent ρ}
    (h : s.step ctx e = some s') : s'.leftOpen ≤ s.leftOpen + if abortRefused e then 1 else 0 := by
  cases e with
  | pushBatch batch pressed =>
    simp only [Sweep.step] at h
    split at h
    case h_2 => cases h
    case h_1 =>
      obtain rfl := Option.some.inj h
      exact (Sweep.pushes_pushBatch ctx
        { s with decoded := s.decoded + batch.length, file := s.file.map (· ++ (ctx.guard batch).1) }
        batch pressed).keeps.leftOpen.le
  | windowDone =>
    simp only [Sweep.step] at h
    split at h
    case h_2 => cases h
    case h_1 =>
      split_ifs at h
      obtain rfl := Option.some.inj h
      exact (Sweep.reports_betweenWindows s.statementDone).keeps.leftOpen.le
  | windowCancelled aborted =>
    simp only [Sweep.step] at h
    split at h
    case h_2 => cases h
    case h_1 =>
      split_ifs at h
      all_goals
        obtain rfl := Option.some.inj h
        cases aborted <;> simp_all [abortRefused]
  | finish =>
    simp only [Sweep.step] at h
    split_ifs at h
    obtain rfl := Option.some.inj h
    exact (Sweep.reports_finish s).keeps.leftOpen.le
  | openWindow | done =>
    simp only [Sweep.step] at h
    split_ifs at h
    obtain rfl := Option.some.inj h
    exact Nat.le_add_right _ _
  | startStream | lastDone | landed =>
    simp only [Sweep.step] at h
    split at h
    · obtain rfl := Option.some.inj h
      exact Nat.le_add_right _ _
    · cases h

theorem Sweep.leftOpen_exec {ρ : Type} {ctx : SendCtx ρ} {s s' : Sweep ρ} {es : List (SweepEvent ρ)}
    (h : exec (Sweep.step ctx) s es = some s') : s'.leftOpen ≤ s.leftOpen + es.countP abortRefused := by
  induction es generalizing s with
  | nil =>
    obtain rfl := Option.some.inj h
    exact Nat.le_add_right _ _
  | cons e es ih =>
    obtain ⟨u, hu, h⟩ := exec_cons.mp h
    have hfirst := Sweep.leftOpen_step hu
    have hrest := ih h
    rw [List.countP_cons]
    omega

/-- What a finished sweep archived is what it sent. -/
theorem Sweep.objects_of_finished {ρ : Type} {ctx : SendCtx ρ} (harchived : ctx.archived = true) {deferred : Bool}
    {es : List (SweepEvent ρ)} {s : Sweep ρ} (hexec : exec (Sweep.step ctx) (Sweep.init ctx deferred) es = some s)
    (hdone : s.stage = .finished) (hunsent : Along (Sweep.step ctx) CancelsUnsent (Sweep.init ctx deferred) es) :
    s.objects.flatten = s.sent.flatten.flatten := by
  have hinv := sendInv_exec (SendInv.init ctx deferred) hexec hunsent
  obtain ⟨hcurrent, -, -, hbatches, -⟩ : StageInv ctx s (es.foldl ReadSoFar.next {}) .finished := hdone ▸ hinv.stage
  have hobjects := hinv.objects
  have hout := hinv.out
  rw [Sweep.out, hbatches, List.append_nil, hcurrent, List.append_nil] at hout
  rw [hobjects, if_pos harchived, ← hout]

/-- Whenever a marker or a cursor is saved, what has landed is in completed files, but for the rows that landed in a
chunk a crash cut off from its file and that no archived chunk read again.  And a run of statements and windows that
succeeds has archived what it sent, and leaves no upload open but those the store did not take back. -/
theorem archive_keeps_what_lands :
    (∀ (t : ChunkedTransfer) (s₀ : World) (es : List ArchiveEvent) (e : ArchiveEvent) (a : ArchivedRead),
      s₀.run = none → e.Saves → exec (ArchivedRead.step t) { world := s₀ } (es ++ [e]) = some a →
      ∀ x ∈ a.world.dest, x ∈ s₀.dest ∨ x ∈ a.objects.flatten ∨ x ∈ a.cutOff) ∧
    (∀ (ι ρ : Type) [DecidableEq ι] (ctx : SendCtx ρ) (deferred : Bool) (es : List (ι × SweepEvent ρ))
      (run : ι → Sweep ρ), ctx.archived = true →
      exec (stepAt (Sweep.step ctx)) (fun _ => Sweep.init ctx deferred) es = some run →
      (∀ p, (run p).stage = .finished) →
      (∀ p, Along (Sweep.step ctx) CancelsUnsent (Sweep.init ctx deferred) (eventsOf p es)) →
      ∀ p, (run p).objects.flatten = (run p).sent.flatten.flatten ∧
        (run p).leftOpen ≤ (eventsOf p es).countP abortRefused) := by
  constructor
  · intro t s₀ es e a hrun hsaves hexec
    obtain ⟨b, hb, hlast⟩ := exec_append.mp hexec
    obtain ⟨a', hstep, hnil⟩ := exec_cons.mp hlast
    obtain rfl := Option.some.inj hnil
    have hinv : ArchivedRead.Inv t s₀.dest b :=
      exec_invariant (fun _ _ _ h hs => h.step hs) (ArchivedRead.Inv.start t hrun) hb
    intro x hx
    rcases (hinv.step hstep).kept x hx with hk | hk | hk | hk
    · exact Or.inl hk
    · exact Or.inr (Or.inl hk)
    · rw [hinv.landed_of_saves hsaves hstep] at hk
      cases hk
    · exact Or.inr (Or.inr hk)
  · intro ι ρ _ ctx deferred es run harchived hexec hdone hunsent p
    have hp := exec_eventsOf hexec p
    refine ⟨Sweep.objects_of_finished harchived hp (hdone p) (hunsent p), ?_⟩
    have := Sweep.leftOpen_exec hp
    rwa [show (Sweep.init ctx deferred).leftOpen = 0 from rfl, Nat.zero_add] at this

private def oneOrder : World where
  clock := 0
  changes := 0
  source := [⟨1, some 5, 0⟩]
  dest := []
  committed := none
  marker := none
  run := none

/-- The chunk lands and the run crashes before its file is completed. -/
private def cutOffChunk : List ArchiveEvent :=
  [.read (.start 10 false), .read (.readChunk 11), .write 1, .read (.insert 12 0), .read (.endChunk 13),
    .read (.crash 14)]

/-- The resumed read finds the row again. -/
private def readAgain : List ArchiveEvent :=
  [.read (.start 15 false), .read (.readChunk 16), .write 1, .read (.insert 17 0), .read (.endChunk 18), .finishChunk]

private def markerAgain : ArchiveEvent := .read (.saveMarker 19 (.fin 1 Binary64.representable_one))

private def bothPartitions : List (Fin 2 × SweepEvent Nat) := sweepReadTwice.flatMap fun e =>
  [(⟨0, Nat.two_pos⟩, e), (⟨1, Nat.one_lt_two⟩, e)]

theorem archive_keeps_what_lands_two_runs :
    (∃ a, exec (ArchivedRead.step (ordersByOne false)) { world := oneOrder }
        (cutOffChunk ++ readAgain ++ [markerAgain]) = some a ∧
      a.world.dest.length = 2 ∧ ∀ x ∈ a.world.dest, x ∈ a.objects.flatten) ∧
    ∃ run, exec (stepAt (Sweep.step oddsLeftOut)) (fun _ => Sweep.init oddsLeftOut true) bothPartitions = some run ∧
      ∀ p, (run p).objects.flatten = (run p).sent.flatten.flatten ∧ (run p).leftOpen ≤ 0 := by
  constructor
  · have hrun : (exec (ArchivedRead.step (ordersByOne false)) { world := oneOrder }
        (cutOffChunk ++ readAgain ++ [markerAgain])).any
        (fun a => decide (a.world.dest.length = 2 ∧ a.cutOff = [])) = true := by
      decide +kernel
    obtain ⟨a, ha, hrun⟩ := (Option.any_eq_true _ _).mp hrun
    obtain ⟨hlength, hcutOff⟩ := of_decide_eq_true hrun
    refine ⟨a, ha, hlength, fun x hx => ?_⟩
    rcases archive_keeps_what_lands.1 (ordersByOne false) oneOrder (cutOffChunk ++ readAgain) markerAgain a
      rfl trivial ha x hx with hk | hk | hk
    · cases hk
    · exact hk
    · rw [hcutOff] at hk
      cases hk
  · have hrun : (exec (stepAt (Sweep.step oddsLeftOut)) (fun _ => Sweep.init oddsLeftOut true) bothPartitions).any
        (fun run => decide (∀ p, (run p).stage = .finished)) = true := by
      decide +kernel
    obtain ⟨run, hexec, hrun⟩ := (Option.any_eq_true _ _).mp hrun
    refine ⟨run, hexec, fun p => ?_⟩
    have hunsent : ∀ p, Along (Sweep.step oddsLeftOut) CancelsUnsent (Sweep.init oddsLeftOut true)
        (eventsOf p bothPartitions) := by
      intro p
      refine cancelsUnsent_of_unpressed (fun _ mark streaming hstage => by cases hstage) ?_
      revert p
      decide +kernel
    have hnone : ∀ p, (eventsOf p bothPartitions).countP abortRefused = 0 := by decide +kernel
    have := archive_keeps_what_lands.2 (Fin 2) Nat oddsLeftOut true bothPartitions run rfl hexec
      (of_decide_eq_true hrun) hunsent p
    rwa [hnone p] at this

/-- A row that is gone before the resumed read is in no file; and an upload the store does not take back stays. -/
theorem cut_off_row_not_archived :
    (∃ a, exec (ArchivedRead.step (ordersByOne false)) { world := oneOrder }
        (cutOffChunk ++ [.read (.delete 15 1), .read (.start 16 false), .read (.readChunk 17), .read (.endChunk 18),
          .read (.finish 19 (.fin 1 Binary64.representable_one))]) = some a ∧
      a.world.dest = [⟨1, some 5, 0⟩] ∧ a.objects = []) ∧
    ∃ s, exec (Sweep.step oddsLeftOut) (Sweep.init oddsLeftOut true)
        [.openWindow, .startStream, .pushBatch [1, 2] false, .windowCancelled false, .finish, .done] = some s ∧
      s.stage = .finished ∧ s.leftOpen = 1 := by
  constructor
  · have hrun : (exec (ArchivedRead.step (ordersByOne false)) { world := oneOrder }
        (cutOffChunk ++ [.read (.delete 15 1), .read (.start 16 false), .read (.readChunk 17), .read (.endChunk 18),
          .read (.finish 19 (.fin 1 Binary64.representable_one))])).any
        (fun a => decide (a.world.dest = [⟨1, some 5, 0⟩] ∧ a.objects = [])) = true := by
      decide +kernel
    obtain ⟨a, ha, hrun⟩ := (Option.any_eq_true _ _).mp hrun
    exact ⟨a, ha, of_decide_eq_true hrun⟩
  · have hrun : (exec (Sweep.step oddsLeftOut) (Sweep.init oddsLeftOut true)
        [.openWindow, .startStream, .pushBatch [1, 2] false, .windowCancelled false, .finish, .done]).any
        (fun s => decide (s.stage = .finished ∧ s.leftOpen = 1)) = true := by
      decide +kernel
    obtain ⟨s, hs, hrun⟩ := (Option.any_eq_true _ _).mp hrun
    exact ⟨s, hs, of_decide_eq_true hrun⟩

end Quickhouse
