import Quickhouse.MemoryBudget

/-!
# Partitions under one memory budget

Any number of partitions decode batches and buffer them, send their buffers as background inserts, and draw their
reservations from one budget.  The steps of different partitions come in any order: each call on the budget is one
step of its own, so that another partition can come between a refused attempt, the flush that follows it and the
wait.  A partition can also fail, or have its window cancelled at any point and read again.
-/

namespace Quickhouse.MemoryPressure

open Runs

variable {ι β : Type}

/-- Where a partition stands. -/
inductive Phase (β : Type) where
  | decoding
  /-- There was no room for the batch at the first attempt. -/
  | declined (batch : β) (size : Nat)
  /-- What was buffered is on its way; the batch asks again. -/
  | asking (batch : β) (size : Nat)
  /-- In the queue of the budget. -/
  | waiting (batch : β) (size : Nat)
  /-- The batch has its reservation. -/
  | reserved (batch : β) (size permit : Nat)
  /-- The group is worth sending. -/
  | due
  /-- The last group of a statement is on its way. -/
  | draining
  | done
  deriving DecidableEq, Repr

namespace Phase

/-- The permits held outside the buffer. -/
def permit : Phase β → Nat
  | .reserved _ _ permit => permit
  | _ => 0

/-- What the partition waits for in the queue. -/
def waitsFor (total : Nat) : Phase β → Option Nat
  | .waiting _ size => some (MemoryBudget.want total size)
  | _ => none

/-- The buffer is empty here. -/
def Cleared : Phase β → Prop
  | .asking .. | .waiting .. | .draining | .done => True
  | _ => False

def isWaiting : Phase β → Bool
  | .waiting .. => true
  | _ => false

/-- The wait is over. -/
def grant (permit : Nat) : Phase β → Phase β
  | .waiting batch size => .reserved batch size permit
  | phase => phase

end Phase

/-- One partition: where it stands and what it has not sent. -/
structure Part (β : Type) where
  phase : Phase β := .decoding
  buffer : InsertBuffer β

/-- The permits the partition itself holds. -/
def Part.held (p : Part β) : Nat := p.phase.permit + p.buffer.reservations.sum

/-- The budget, the partitions, and the inserts in flight with the reservations each one holds. -/
structure World (ι β : Type) where
  budget : MemoryBudget ι
  parts : ι → Part β
  sends : List (ι × List Nat) := []

/-- What can happen next. -/
inductive Event (ι β : Type) where
  /-- A batch is decoded and makes its first attempt. -/
  | decoded (p : ι) (batch : β) (size : Nat)
  /-- The attempt was refused: what is buffered is sent. -/
  | flushed (p : ι)
  | asked (p : ι)
  | pushed (p : ι)
  /-- A group that is due is sent. -/
  | sent (p : ι)
  | betweenWindows (p : ι)
  /-- The statement is read: the rest is sent. -/
  | drain (p : ι)
  /-- All sends of the statement have ended. -/
  | drained (p : ι) (again : Bool)
  /-- A send task ends. -/
  | landed (k : Nat)
  /-- The window is dropped wherever it stands, with the batches since the mark. -/
  | cancelled (p : ι) (mark : BufferMark)
  | failed (p : ι)
  deriving DecidableEq, Repr

/-- The partition that does the step, where it is a step on its own way. -/
def Event.by? : Event ι β → Option ι
  | .decoded p .. | .flushed p | .asked p | .pushed p | .sent p | .betweenWindows p | .drain p | .drained p _ => some p
  | .landed _ | .cancelled .. | .failed _ => none

section Steps

variable [DecidableEq ι]

/-- The reservation of one who waited. -/
def grant (parts : ι → Part β) (w : ι × Nat) : ι → Part β :=
  Function.update parts w.1 { parts w.1 with phase := (parts w.1).phase.grant w.2 }

namespace World

def put (w : World ι β) (p : ι) (part : Part β) : World ι β := { w with parts := Function.update w.parts p part }

def setPhase (w : World ι β) (p : ι) (phase : Phase β) : World ι β := w.put p { w.parts p with phase }

/-- The whole buffer goes to a send task, which then holds its reservations. -/
def flush (w : World ι β) (p : ι) (phase : Phase β) : World ι β :=
  if (w.parts p).buffer.isEmpty then w.setPhase p phase
  else { w.put p { phase, buffer := (w.parts p).buffer.take } with
         sends := w.sends ++ [(p, (w.parts p).buffer.reservations)] }

/-- Those the budget serves go on. -/
def settled (w : World ι β) (r : List (ι × Nat) × MemoryBudget ι) : World ι β :=
  { w with budget := r.2, parts := r.1.foldl grant w.parts }

/-- The partition gives up the batch at hand, its place in the queue and what `buffer` no longer holds. -/
def dropTo (w : World ι β) (p : ι) (part : Part β) : World ι β :=
  (w.put p part).settled (w.budget.leave p ((w.parts p).held - part.held))

/-- One step of the run. -/
def step (w : World ι β) : Event ι β → Option (World ι β)
  | .decoded p batch size =>
    match (w.parts p).phase, w.budget.tryReserve size with
    | .decoding, some (permit, budget) => some ({ w with budget }.setPhase p (.reserved batch size permit))
    | .decoding, none => some (w.setPhase p (.declined batch size))
    | _, _ => none
  | .flushed p =>
    match (w.parts p).phase with
    | .declined batch size => some (w.flush p (.asking batch size))
    | _ => none
  | .asked p =>
    match (w.parts p).phase with
    | .asking batch size =>
      match w.budget.reserve p size with
      | (some permit, budget) => some ({ w with budget }.setPhase p (.reserved batch size permit))
      | (none, budget) => some ({ w with budget }.setPhase p (.waiting batch size))
    | _ => none
  | .pushed p =>
    match (w.parts p).phase with
    | .reserved batch size permit =>
      let buffer := (w.parts p).buffer.push batch permit size
      some (w.put p { phase := if buffer.due then .due else .decoding, buffer })
    | _ => none
  | .sent p =>
    match (w.parts p).phase with
    | .due => some (w.flush p .decoding)
    | _ => none
  | .betweenWindows p =>
    match (w.parts p).phase with
    | .decoding => some (if (w.parts p).buffer.full then w.flush p .decoding else w)
    | _ => none
  | .drain p =>
    match (w.parts p).phase with
    | .decoding => some (w.flush p .draining)
    | _ => none
  | .drained p again =>
    match (w.parts p).phase with
    | .draining =>
      if w.sends.any (fun s => s.1 = p) then none
      else some (w.setPhase p (if again then .decoding else .done))
    | _ => none
  | .landed k =>
    match w.sends[k]? with
    | some send => some ({ w with sends := w.sends.eraseIdx k }.settled (w.budget.release send.2.sum))
    | none => none
  | .cancelled p mark =>
    match (w.parts p).phase with
    | .draining | .done => none
    | _ => some (w.dropTo p { phase := .decoding, buffer := (w.parts p).buffer.truncate mark })
  | .failed p =>
    match (w.parts p).phase with
    | .done => none
    | _ => some (w.dropTo p { phase := .done, buffer := (w.parts p).buffer.take })

/-- A run begins with nothing read. -/
def start (maxBytes : Nat) (target : ι → Nat) (deferred : ι → Bool) : World ι β where
  budget := .new maxBytes
  parts p := { buffer := .new (target p) (deferred p) }

def Waits (w : World ι β) (p : ι) : Prop := (w.parts p).phase.isWaiting = true

instance (w : World ι β) (p : ι) : Decidable (w.Waits p) := inferInstanceAs (Decidable (_ = true))

def Unfinished (w : World ι β) (p : ι) : Prop := (w.parts p).phase ≠ .done

/-- The partition can do a step of its own now. -/
def CanStep (w : World ι β) (p : ι) : Prop := ∃ e w', Event.by? e = some p ∧ w.step e = some w'

end World

/-! ### The accounts -/

section Accounts

variable [Fintype ι]

/-- All permits that are out. -/
def held (parts : ι → Part β) (sends : List (ι × List Nat)) : Nat :=
  (∑ p, (parts p).held) + (sends.map fun s => s.2.sum).sum

/-- What the books say while `free` permits are not given out and `queue` waits. -/
structure Accounts (maxBytes free : Nat) (queue : List (ι × Nat)) (parts : ι → Part β)
    (sends : List (ι × List Nat)) : Prop where
  conserved : free + held parts sends = min maxBytes semaphoreMaxPermits
  nodup : (queue.map Prod.fst).Nodup
  queued : ∀ p k, (p, k) ∈ queue ↔ (parts p).phase.waitsFor maxBytes = some k
  cleared : ∀ p, (parts p).phase.Cleared → (parts p).buffer.batches = []

/-- The books are right, and the budget is the one the run began with. -/
structure Sound (maxBytes : Nat) (w : World ι β) : Prop where
  budget : w.budget.Of maxBytes
  accounts : Accounts maxBytes w.budget.free w.budget.queue w.parts w.sends

theorem held_update (parts : ι → Part β) (sends : List (ι × List Nat)) (p : ι) (part : Part β) :
    held (Function.update parts p part) sends + (parts p).held = held parts sends + part.held := by
  have hcomp : (fun q => (Function.update parts p part q).held) =
      Function.update (fun q => (parts q).held) p part.held := by
    funext q
    by_cases hq : q = p
    · subst hq
      simp
    · simp [hq]
  unfold held
  rw [hcomp, Finset.sum_update_of_mem (Finset.mem_univ p),
    ← Finset.add_sum_erase Finset.univ (fun q => (parts q).held) (Finset.mem_univ p), Finset.sdiff_singleton_eq_erase]
  omega

theorem InsertBuffer.reservations_eq_nil {b : InsertBuffer β} (h : b.batches = []) : b.reservations = [] := by
  have := b.reservations_length
  simpa [h] using this

namespace Accounts

variable {maxBytes free : Nat} {queue : List (ι × Nat)} {parts : ι → Part β} {sends : List (ι × List Nat)}

/-- A partition that does not wait, and will not, goes on; what it holds more comes from what is free. -/
theorem update (h : Accounts maxBytes free queue parts sends) {p : ι} {part : Part β} {free' : Nat}
    (hwait : (parts p).phase.waitsFor maxBytes = none) (hwait' : part.phase.waitsFor maxBytes = none)
    (hcleared : part.phase.Cleared → part.buffer.batches = []) (hheld : free' + part.held = free + (parts p).held) :
    Accounts maxBytes free' queue (Function.update parts p part) sends where
  conserved := by
    have hsum := held_update parts sends p part
    have hcons := h.conserved
    omega
  nodup := h.nodup
  queued q k := by
    by_cases hq : q = p
    · subst hq
      rw [h.queued, Function.update_self, hwait, hwait']
    · rw [h.queued, Function.update_of_ne hq]
  cleared q hq := by
    by_cases hqp : q = p
    · subst hqp
      rw [Function.update_self] at hq ⊢
      exact hcleared hq
    · rw [Function.update_of_ne hqp] at hq ⊢
      exact h.cleared q hq

/-- The head of the queue gets its permits. -/
theorem grant (w : ι × Nat) (h : Accounts maxBytes free (w :: queue) parts sends) (hle : w.2 ≤ free) :
    Accounts maxBytes (free - w.2) queue (grant parts w) sends := by
  have hphase := (h.queued w.1 w.2).mp List.mem_cons_self
  have hnot : w.1 ∉ queue.map Prod.fst := (List.nodup_cons.mp h.nodup).1
  obtain ⟨batch, size, hbatch⟩ : ∃ batch size, (parts w.1).phase = .waiting batch size := by
    cases hph : (parts w.1).phase <;> simp_all [Phase.waitsFor]
  have hpart : ({ parts w.1 with phase := (parts w.1).phase.grant w.2 } : Part β).held = (parts w.1).held + w.2 := by
    simp [Part.held, hbatch, Phase.grant, Phase.permit, Nat.add_comm]
  constructor
  · have hsum := held_update parts sends w.1 { parts w.1 with phase := (parts w.1).phase.grant w.2 }
    have hcons := h.conserved
    unfold MemoryPressure.grant
    omega
  · exact (List.nodup_cons.mp h.nodup).2
  · intro q k
    by_cases hq : q = w.1
    · subst hq
      have : (w.1, k) ∉ queue := fun hmem => hnot (List.mem_map.mpr ⟨_, hmem, rfl⟩)
      simp [this, MemoryPressure.grant, hbatch, Phase.grant, Phase.waitsFor]
    · have := h.queued q k
      rw [MemoryPressure.grant, Function.update_of_ne hq, ← this, List.mem_cons]
      constructor
      · exact Or.inr
      · rintro (rfl | hmem)
        · exact absurd rfl hq
        · exact hmem
  · intro q hq
    by_cases hqw : q = w.1
    · subst hqw
      simp [MemoryPressure.grant, hbatch, Phase.grant, Phase.Cleared] at hq
    · rw [MemoryPressure.grant, Function.update_of_ne hqw] at hq ⊢
      exact h.cleared q hq

end Accounts

namespace Sound

variable {maxBytes : Nat} {w : World ι β}

theorem put (h : Sound maxBytes w) {p : ι} {part : Part β} (hwait : (w.parts p).phase.waitsFor maxBytes = none)
    (hwait' : part.phase.waitsFor maxBytes = none) (hcleared : part.phase.Cleared → part.buffer.batches = [])
    (hheld : part.held = (w.parts p).held) : Sound maxBytes (w.put p part) :=
  ⟨h.budget, h.accounts.update hwait hwait' hcleared (by rw [hheld]; rfl)⟩

theorem setPhase (h : Sound maxBytes w) {p : ι} {phase : Phase β}
    (hwait : (w.parts p).phase.waitsFor maxBytes = none) (hwait' : phase.waitsFor maxBytes = none)
    (hcleared : phase.Cleared → (w.parts p).buffer.batches = []) (hpermit : phase.permit = (w.parts p).phase.permit) :
    Sound maxBytes (w.setPhase p phase) :=
  h.put hwait hwait' hcleared (by unfold Part.held; rw [hpermit])

/-- The reservations of a buffer that is sent are held by the send. -/
theorem flush (h : Sound maxBytes w) {p : ι} {phase : Phase β}
    (hwait : (w.parts p).phase.waitsFor maxBytes = none) (hwait' : phase.waitsFor maxBytes = none)
    (hpermit : (w.parts p).phase.permit = 0) (hpermit' : phase.permit = 0) :
    Sound maxBytes (w.flush p phase) := by
  unfold World.flush
  split
  case isTrue hempty =>
    have hnil : (w.parts p).buffer.batches = [] := by simpa [InsertBuffer.isEmpty] using hempty
    exact h.setPhase hwait hwait' (fun _ => hnil) (hpermit'.trans hpermit.symm)
  case isFalse hempty =>
    -- the sum of all that is held does not change: only its holder does
    have hpart : (w.parts p).held = (w.parts p).buffer.reservations.sum := by
      rw [Part.held, hpermit, Nat.zero_add]
    have hnew : ({ phase, buffer := (w.parts p).buffer.take } : Part β).held = 0 := by
      simp [Part.held, hpermit']
    refine ⟨h.budget, ?_⟩
    have hupdate : Accounts maxBytes (w.budget.free + (w.parts p).held) w.budget.queue
        (Function.update w.parts p { phase, buffer := (w.parts p).buffer.take }) w.sends :=
      h.accounts.update hwait hwait' (fun _ => rfl) (by rw [hnew]; rfl)
    refine ⟨?_, hupdate.nodup, hupdate.queued, hupdate.cleared⟩
    have hcons := hupdate.conserved
    simp only [held, World.put, List.map_append, List.sum_append, List.map_cons, List.map_nil, List.sum_cons,
      List.sum_nil] at hcons ⊢
    omega

/-- The batch at hand gets a reservation from what is free. -/
theorem taken (h : Sound maxBytes w) {p : ι} {batch : β} {size permit : Nat} {budget : MemoryBudget ι}
    (hwait : (w.parts p).phase.waitsFor maxBytes = none) (hpermit : (w.parts p).phase.permit = 0)
    (hbudget : budget.Of maxBytes ∧ budget.free + permit = w.budget.free ∧ budget.queue = w.budget.queue) :
    Sound maxBytes ({ w with budget }.setPhase p (.reserved batch size permit)) := by
  obtain ⟨hof, hfree, hqueue⟩ := hbudget
  refine ⟨hof, ?_⟩
  show Accounts maxBytes budget.free budget.queue _ _
  rw [hqueue]
  refine h.accounts.update hwait rfl False.elim ?_
  have hnew : (Phase.reserved batch size permit).permit = permit := rfl
  simp only [Part.held, hpermit, hnew]
  omega

/-- Where there is no room the partition goes to the end of the queue. -/
theorem queued (h : Sound maxBytes w) {p : ι} {batch : β} {size : Nat} {budget : MemoryBudget ι}
    (hphase : (w.parts p).phase = .asking batch size)
    (hbudget : budget.Of maxBytes ∧ budget.free = w.budget.free ∧
      budget.queue = w.budget.queue ++ [(p, MemoryBudget.want maxBytes size)]) :
    Sound maxBytes ({ w with budget }.setPhase p (.waiting batch size)) := by
  obtain ⟨hof, hfree, hqueue⟩ := hbudget
  have hnot : ∀ k, (p, k) ∉ w.budget.queue := by
    intro k hmem
    have := (h.accounts.queued p k).mp hmem
    simp [hphase, Phase.waitsFor] at this
  refine ⟨hof, ?_⟩
  show Accounts maxBytes budget.free budget.queue _ _
  rw [hqueue, hfree]
  constructor
  · have hsum := held_update w.parts w.sends p { w.parts p with phase := .waiting batch size }
    have hcons := h.accounts.conserved
    simp only [Part.held, hphase, Phase.permit] at hsum
    simp only [World.setPhase, World.put]
    omega
  · rw [List.map_append, List.nodup_append]
    refine ⟨h.accounts.nodup, by simp, ?_⟩
    rintro q hq r hr rfl
    obtain ⟨⟨q, k⟩, hmem, rfl⟩ := List.mem_map.mp hq
    obtain rfl : q = p := by simpa using hr
    exact hnot k hmem
  · intro q k
    by_cases hq : q = p
    · subst hq
      simp [World.setPhase, World.put, Phase.waitsFor, hnot, eq_comm]
    · simp [World.setPhase, World.put, hq, h.accounts.queued]
  · intro q hq
    by_cases hqp : q = p
    · subst hqp
      have hcleared := h.accounts.cleared q
      rw [hphase] at hcleared
      simpa [World.setPhase, World.put] using hcleared trivial
    · simp only [World.setPhase, World.put, Function.update_of_ne hqp] at hq ⊢
      exact h.accounts.cleared q hq

/-- Dropped reservations serve the queue. -/
theorem settled {n : Nat} {queue : List (ι × Nat)} (hbudget : w.budget.Of maxBytes)
    (hqueue : w.budget.queue = [] → queue = [])
    (h : Accounts maxBytes (w.budget.free + n) queue w.parts w.sends) :
    Sound maxBytes (w.settled (w.budget.settle n queue)) := by
  unfold World.settled MemoryBudget.settle
  cases hsem : w.budget.sem with
  | none =>
    -- nothing is counted, so nobody waits and there was nothing to drop
    have hzero : maxBytes = 0 := hbudget.2.mp hsem
    have hempty : w.budget.queue = [] := by simp [MemoryBudget.queue, hsem]
    have hn : n = 0 := by
      have hcons := h.conserved
      omega
    subst hn
    rw [hqueue hempty, ← hempty] at h
    exact ⟨hbudget, h⟩
  | some s =>
    have hfree : w.budget.free = s.free := by simp [MemoryBudget.free, hsem]
    rw [hfree] at h
    have hserved := @Semaphore.serve_keeps ι _ (fun free queue parts => Accounts maxBytes free queue parts w.sends)
      grant (fun _ v _ _ hle h => h.grant v hle) _ _ _ h
    refine ⟨⟨hbudget.1, ?_⟩, hserved⟩
    have hof := hbudget.2
    simp_all

/-- A partition that gives up what it was doing leaves the queue, and what it held more comes back. -/
theorem dropTo (h : Sound maxBytes w) {p : ι} {part : Part β} (hwait : part.phase.waitsFor maxBytes = none)
    (hcleared : part.phase.Cleared → part.buffer.batches = []) (hle : part.held ≤ (w.parts p).held) :
    Sound maxBytes (w.dropTo p part) := by
  have hqueue : ∀ k, (p, k) ∈ w.budget.queue.filter (fun v => v.1 ≠ p) ↔ part.phase.waitsFor maxBytes = some k := by
    intro k
    simp [hwait]
  show Sound maxBytes ((w.put p part).settled ((w.put p part).budget.settle _ _))
  refine settled h.budget (fun hnil => ?_) ?_
  · have : w.budget.queue = [] := hnil
    simp [this]
  · constructor
    · have hsum := held_update w.parts w.sends p part
      have hcons := h.accounts.conserved
      simp only [World.put]
      omega
    · exact h.accounts.nodup.sublist (List.filter_sublist.map Prod.fst)
    · intro q k
      by_cases hq : q = p
      · subst hq
        simpa [World.put] using hqueue k
      · simp [World.put, hq, h.accounts.queued]
    · intro q hq
      by_cases hqp : q = p
      · subst hqp
        simp only [World.put, Function.update_self] at hq ⊢
        exact hcleared hq
      · simp only [World.put, Function.update_of_ne hqp] at hq ⊢
        exact h.accounts.cleared q hq

/-- A send that ends gives its reservations back. -/
theorem landed (h : Sound maxBytes w) {k : Nat} {send : ι × List Nat} (hk : w.sends[k]? = some send) :
    Sound maxBytes ({ w with sends := w.sends.eraseIdx k }.settled (w.budget.release send.2.sum)) := by
  show Sound maxBytes ({ w with sends := w.sends.eraseIdx k }.settled (w.budget.settle _ w.budget.queue))
  refine settled h.budget id ?_
  refine ⟨?_, h.accounts.nodup, h.accounts.queued, h.accounts.cleared⟩
  have hcons := h.accounts.conserved
  have hsum : ((w.sends.eraseIdx k).map fun s => s.2.sum).sum + send.2.sum = (w.sends.map fun s => s.2.sum).sum := by
    obtain ⟨hlt, hget⟩ := List.getElem?_eq_some_iff.mp hk
    have hperm := List.getElem_cons_eraseIdx_perm hlt
    have := (hperm.map fun s => s.2.sum).sum_eq
    rw [List.map_cons, List.sum_cons, hget] at this
    omega
  simp only [held] at hcons ⊢
  omega

/-- Every step keeps the books. -/
theorem step (h : Sound maxBytes w) {e : Event ι β} {w' : World ι β} (hstep : w.step e = some w') :
    Sound maxBytes w' := by
  cases e with
  | decoded p batch size =>
    simp only [World.step] at hstep
    split at hstep
    case h_1 permit budget hphase hreserve =>
      obtain rfl := Option.some.inj hstep
      exact h.taken (by rw [hphase]; rfl) (by rw [hphase]; rfl) (MemoryBudget.tryReserve_some h.budget hreserve)
    case h_2 hphase hreserve =>
      obtain rfl := Option.some.inj hstep
      exact h.setPhase (by rw [hphase]; rfl) rfl False.elim (by rw [hphase]; rfl)
    case h_3 => exact nomatch hstep
  | flushed p =>
    simp only [World.step] at hstep
    split at hstep
    case h_1 batch size hphase =>
      obtain rfl := Option.some.inj hstep
      exact h.flush (by rw [hphase]; rfl) rfl (by rw [hphase]; rfl) rfl
    case h_2 => exact nomatch hstep
  | asked p =>
    simp only [World.step] at hstep
    split at hstep
    case h_1 batch size hphase =>
      split at hstep
      case h_1 permit budget hreserve =>
        obtain rfl := Option.some.inj hstep
        exact h.taken (by rw [hphase]; rfl) (by rw [hphase]; rfl) (MemoryBudget.reserve_some h.budget hreserve)
      case h_2 budget hreserve =>
        obtain rfl := Option.some.inj hstep
        exact h.queued hphase (MemoryBudget.reserve_none h.budget hreserve)
    case h_2 => exact nomatch hstep
  | pushed p =>
    simp only [World.step] at hstep
    split at hstep
    case h_1 batch size permit hphase =>
      obtain rfl := Option.some.inj hstep
      refine h.put (by rw [hphase]; rfl) ?_ ?_ ?_
      · dsimp only
        split <;> rfl
      · dsimp only
        split <;> exact False.elim
      · simp only [Part.held, hphase, InsertBuffer.push_reservations, List.sum_append]
        split <;> simp [Phase.permit, Nat.add_comm]
    case h_2 => exact nomatch hstep
  | sent p =>
    simp only [World.step] at hstep
    split at hstep
    case h_1 hphase =>
      obtain rfl := Option.some.inj hstep
      exact h.flush (by rw [hphase]; rfl) rfl (by rw [hphase]; rfl) rfl
    case h_2 => exact nomatch hstep
  | betweenWindows p =>
    simp only [World.step] at hstep
    split at hstep
    case h_1 hphase =>
      obtain rfl := Option.some.inj hstep
      split
      · exact h.flush (by rw [hphase]; rfl) rfl (by rw [hphase]; rfl) rfl
      · exact h
    case h_2 => exact nomatch hstep
  | drain p =>
    simp only [World.step] at hstep
    split at hstep
    case h_1 hphase =>
      obtain rfl := Option.some.inj hstep
      exact h.flush (by rw [hphase]; rfl) rfl (by rw [hphase]; rfl) rfl
    case h_2 => exact nomatch hstep
  | drained p again =>
    simp only [World.step] at hstep
    split at hstep
    case h_1 hphase =>
      split at hstep
      · exact nomatch hstep
      · obtain rfl := Option.some.inj hstep
        have hcleared := h.accounts.cleared p (by rw [hphase]; trivial)
        refine h.setPhase (by rw [hphase]; rfl) ?_ (fun _ => hcleared) ?_
        · split <;> rfl
        · rw [hphase]
          split <;> rfl
    case h_2 => exact nomatch hstep
  | landed k =>
    simp only [World.step] at hstep
    split at hstep
    case h_1 send hk =>
      obtain rfl := Option.some.inj hstep
      exact h.landed hk
    case h_2 => exact nomatch hstep
  | cancelled p mark =>
    have hle : ((w.parts p).buffer.truncate mark).reservations.sum ≤ (w.parts p).buffer.reservations.sum :=
      (List.take_sublist _ _).sum_le_sum (fun _ _ => Nat.zero_le _)
    simp only [World.step] at hstep
    split at hstep
    case h_3 =>
      obtain rfl := Option.some.inj hstep
      refine h.dropTo rfl False.elim ?_
      simp only [Part.held, Phase.permit]
      omega
    all_goals exact nomatch hstep
  | failed p =>
    simp only [World.step] at hstep
    split at hstep
    case h_2 =>
      obtain rfl := Option.some.inj hstep
      exact h.dropTo rfl (fun _ => rfl) (by simp [Part.held, Phase.permit])
    case h_1 => exact nomatch hstep

omit [DecidableEq ι] in
theorem start (maxBytes : Nat) (target : ι → Nat) (deferred : ι → Bool) :
    Sound maxBytes (World.start maxBytes target deferred : World ι β) := by
  refine ⟨MemoryBudget.of_new maxBytes, ?_, ?_, ?_, ?_⟩
  · rw [World.start, MemoryBudget.free_new]
    simp [held, Part.held, Phase.permit, InsertBuffer.new]
  · simp [World.start, MemoryBudget.queue_new]
  · simp [World.start, MemoryBudget.queue_new, Phase.waitsFor]
  · exact fun _ => False.elim

omit [DecidableEq ι] in
/-- Who waits has nothing in its buffer. -/
theorem reservations_eq_nil (h : Sound maxBytes w) {p : ι} (hp : (w.parts p).phase.Cleared) :
    (w.parts p).buffer.reservations = [] := by
  have := (w.parts p).buffer.reservations_length
  simpa [h.accounts.cleared p hp] using this

/-- A partition that holds permits does not wait: it has a step to do. -/
theorem canStep (h : Sound maxBytes w) {p : ι} (hheld : 0 < (w.parts p).held) :
    w.CanStep p ∧ ¬ w.Waits p ∧ w.Unfinished p := by
  -- where the buffer is empty and there is no reservation, nothing is held
  have hcleared : ¬ ((w.parts p).phase.Cleared ∧ (w.parts p).phase.permit = 0) := by
    rintro ⟨hc, hpermit⟩
    have := h.reservations_eq_nil hc
    simp [Part.held, hpermit, this] at hheld
  unfold World.CanStep World.Waits World.Unfinished
  cases hphase : (w.parts p).phase with
  | decoding =>
    refine ⟨⟨.drain p, w.flush p .draining, rfl, ?_⟩, nofun, nofun⟩
    simp [World.step, hphase]
  | declined batch size =>
    refine ⟨⟨.flushed p, w.flush p (.asking batch size), rfl, ?_⟩, nofun, nofun⟩
    simp [World.step, hphase]
  | reserved batch size permit =>
    have hstep : (w.step (.pushed p)).isSome := by simp [World.step, hphase]
    obtain ⟨w', hw'⟩ := Option.isSome_iff_exists.mp hstep
    exact ⟨⟨.pushed p, w', rfl, hw'⟩, nofun, nofun⟩
  | due =>
    refine ⟨⟨.sent p, w.flush p .decoding, rfl, ?_⟩, nofun, nofun⟩
    simp [World.step, hphase]
  | asking | waiting | draining | done =>
    rw [hphase] at hcleared
    exact absurd ⟨trivial, rfl⟩ hcleared

omit [DecidableEq ι] in
/-- While somebody waits, permits are out. -/
theorem held_pos (h : Sound maxBytes w) {p : ι} (hp : w.Waits p) : 0 < held w.parts w.sends := by
  obtain ⟨batch, size, hphase⟩ : ∃ batch size, (w.parts p).phase = .waiting batch size := by
    unfold World.Waits at hp
    cases hph : (w.parts p).phase <;> simp_all [Phase.isWaiting]
  have hmem : (p, MemoryBudget.want maxBytes size) ∈ w.budget.queue := by
    rw [h.accounts.queued, hphase]
    rfl
  -- the head of the queue asks for no more than there is, and there is not enough
  obtain ⟨v, hv⟩ : ∃ v, w.budget.queue.head? = some v := by
    cases hqueue : w.budget.queue with
    | nil => simp [hqueue] at hmem
    | cons v vs => exact ⟨v, rfl⟩
  have hblocked := MemoryBudget.blocked hv
  obtain ⟨size', hsize'⟩ : ∃ size', v.2 = MemoryBudget.want maxBytes size' := by
    have := (h.accounts.queued v.1 v.2).mp (List.mem_of_mem_head? hv)
    cases hph : (w.parts v.1).phase <;> simp_all [Phase.waitsFor]
    exact ⟨_, this.symm⟩
  have hpos : 0 < maxBytes := by
    rcases Nat.eq_zero_or_pos maxBytes with hzero | hpos
    · have hsem := h.budget.2.mpr hzero
      simp [MemoryBudget.queue, hsem] at hmem
    · exact hpos
  have hwant := MemoryBudget.want_le size' hpos
  have hcons := h.accounts.conserved
  omega

/-- While somebody waits, a send is in flight or a partition that does not wait can go on. -/
theorem sends_or_canStep (h : Sound maxBytes w) {p : ι} (hp : w.Waits p) :
    w.sends ≠ [] ∨ ∃ q, w.CanStep q ∧ ¬ w.Waits q ∧ w.Unfinished q := by
  by_cases hsends : w.sends = []
  · right
    have hpos := h.held_pos hp
    rw [held, hsends] at hpos
    obtain ⟨q, -, hq⟩ := Finset.exists_ne_zero_of_sum_ne_zero (Nat.ne_of_gt (by simpa using hpos))
    exact ⟨q, h.canStep (Nat.pos_of_ne_zero hq)⟩
  · exact Or.inl hsends

end Sound
end Accounts

/-- What is held never exceeds the budget, and there is no deadlock: who waits holds nothing that only itself could
give back, and while somebody waits a send is in flight or somebody else can go on. -/
theorem budget_kept_and_no_deadlock [Fintype ι] (maxBytes : Nat) (target : ι → Nat) (deferred : ι → Bool)
    (events : List (Event ι β)) (w : World ι β)
    (h : exec World.step (World.start maxBytes target deferred) events = some w) :
    held w.parts w.sends ≤ maxBytes ∧
    (∀ p, w.Waits p → (w.parts p).buffer.reservations = [] ∧
      (w.sends ≠ [] ∨ ∃ q, q ≠ p ∧ ¬ w.Waits q ∧ w.CanStep q)) ∧
    (w.sends = [] → (∃ p, w.Unfinished p) → ∃ q, w.Unfinished q ∧ ¬ w.Waits q) := by
  have hsound : Sound maxBytes w := exec_invariant (fun _ _ _ hs hstep => hs.step hstep) (Sound.start maxBytes target deferred) h
  refine ⟨?_, ?_, ?_⟩
  · have hcons := hsound.accounts.conserved
    omega
  · intro p hp
    have hcleared : (w.parts p).phase.Cleared := by
      unfold World.Waits at hp
      cases hph : (w.parts p).phase <;> simp_all [Phase.isWaiting, Phase.Cleared]
    refine ⟨hsound.reservations_eq_nil hcleared, ?_⟩
    rcases hsound.sends_or_canStep hp with hsends | ⟨q, hcan, hq, -⟩
    · exact Or.inl hsends
    · refine Or.inr ⟨q, ?_, hq, hcan⟩
      rintro rfl
      exact hq hp
  · rintro hsends ⟨p, hp⟩
    by_cases hwait : w.Waits p
    · rcases hsound.sends_or_canStep hwait with hne | ⟨q, -, hq, hunfinished⟩
      · exact absurd hsends hne
      · exact ⟨q, hunfinished, hq⟩
    · exact ⟨p, hp, hwait⟩

/-- The first partition has buffered the whole budget and goes on reading while the second one waits. -/
def twoPartitions : List (Event (Fin 2) Unit) :=
  [.decoded 0 () 25, .decoded 1 () 5, .pushed 0, .flushed 1, .asked 1]

theorem budget_kept_and_no_deadlock_two : ∃ w : World (Fin 2) Unit,
    exec World.step (World.start 10 (fun _ => 100) (fun _ => false)) twoPartitions = some w ∧ w.Waits 1 ∧
    held w.parts w.sends ≤ 10 ∧
    (∀ p, w.Waits p → (w.parts p).buffer.reservations = [] ∧
      (w.sends ≠ [] ∨ ∃ q, q ≠ p ∧ ¬ w.Waits q ∧ w.CanStep q)) ∧
    (w.sends = [] → (∃ p, w.Unfinished p) → ∃ q, w.Unfinished q ∧ ¬ w.Waits q) :=
  ⟨_, rfl, rfl, budget_kept_and_no_deadlock 10 (fun _ => 100) (fun _ => false) twoPartitions _ rfl⟩

/-- A batch as large as the whole budget is on its way, and the only partition waits with the next one. -/
def lonePartition : List (Event (Fin 1) Unit) :=
  [.decoded 0 () 10, .pushed 0, .sent 0, .decoded 0 () 25, .flushed 0, .asked 0]

theorem lone_partition_waits :
    ¬ ∀ w, exec World.step (World.start 10 (fun _ => 1) (fun _ => false)) lonePartition = some w →
      (∃ p, w.Unfinished p) → ∃ q, w.Unfinished q ∧ ¬ w.Waits q := by
  intro h
  obtain ⟨q, -, hq⟩ := h _ rfl ⟨0, nofun⟩
  obtain rfl : q = 0 := Subsingleton.elim q 0
  exact hq rfl

end Steps
end Quickhouse.MemoryPressure
