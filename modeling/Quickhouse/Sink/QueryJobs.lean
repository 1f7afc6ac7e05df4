import Quickhouse.Error
import Quickhouse.Lib.Runs
import Quickhouse.Lib.Text

/-!
# Statements run as jobs

BigQuery runs a statement as a job, and creates no second job under an identifier.  A request may be lost, may have been
received although no answer came, and may arrive again later.  So a request that may have failed is sent again under its
identifier, and "already exists" means that it came through; a statement is only sent under a new identifier when the job
it was in has failed.  No statement takes effect twice, and one that is reported as done has (`query_job_applied_once`).
-/

namespace Quickhouse.QueryJobs

open Runs

/-! ### Errors of the service -/

/-- An error of the client library and its text: a response of the service, one without a body that the library reads, no
response, or no token. -/
inductive BqError where
  | response (code : Nat) (text : String)
  | httpClient (status : Option Nat) (text : String)
  | httpMiddleware (text : String)
  | tokenSource (text : String)
  deriving DecidableEq, Repr

def BqError.display : BqError → String
  | response _ text | httpClient _ text | httpMiddleware text | tokenSource text => text

def isTransientBq : BqError → Bool
  | .response code _ => 500 ≤ code || code = 429
  | .httpClient status _ => status.all fun s => (500 ≤ s && s < 600) || s = 429
  | .httpMiddleware _ => true
  | .tokenSource _ => false

/-- What an identifier that is in use is answered with. -/
def isConflict : BqError → Bool
  | .response code _ => code = 409
  | .httpClient status _ => status = some 409
  | _ => false

structure ErrorProto where
  reason : Option String := none
  message : Option String := none
  deriving DecidableEq, Repr

/-- The job applied nothing, and the statement may be run again. -/
def isRetryableJobError (err : ErrorProto) : Bool :=
  err.reason.any (· ∈ ["rateLimitExceeded", "jobRateLimitExceeded", "backendError", "internalError"])

/-! ### The service -/

inductive JobState where
  | running
  | done (errorResult : Option ErrorProto)
  deriving DecidableEq, Repr

structure Request where
  id : String
  query : String
  deriving DecidableEq, Repr

structure Job where
  query : String
  state : JobState := .running
  deriving DecidableEq, Repr

structure Service where
  jobs : String → Option Job := fun _ => none
  /-- The statements that took effect, in order. -/
  applied : List Request := []

namespace Service

/-- A request arrives: an identifier in use stays with its job. -/
def create (s : Service) (r : Request) : Service :=
  if (s.jobs r.id).isSome then s else { s with jobs := Function.update s.jobs r.id (some { query := r.query }) }

/-- A job ends.  One that fails applies nothing. -/
def finish (s : Service) (id : String) (errorResult : Option ErrorProto) : Option Service :=
  match s.jobs id with
  | some ⟨query, .running⟩ => some {
      jobs := Function.update s.jobs id (some { query, state := .done errorResult })
      applied := if errorResult.isNone then s.applied ++ [{ id, query }] else s.applied }
  | _ => none

/-- A job may be shown as running after it ended. -/
def shows (s : Service) (id : String) (state : JobState) : Bool :=
  (s.jobs id).any fun j => state = .running || j.state = state

end Service

/-! ### One statement -/

def jobHttpAttempts : Nat := 5

def rateLimitedJobAttempts : Nat := 6

def uniqueJobId (what table : String) (nanos : Int) : String :=
  "quickhouse_" ++ what ++ "_" ++ String.ofList (table.toList.map fun c => if c.isAlphanum then c else '_') ++ "_" ++
    toString nanos

/-- A statement to run, and the time at which each attempt reads the clock.  One that is not to be run again has one
attempt. -/
structure Call where
  what : String
  table : String
  query : String
  attempts : Nat := rateLimitedJobAttempts
  times : Nat → Int

namespace Call

variable (c : Call)

def jobId (n : Nat) : String := uniqueJobId c.what c.table (c.times n)

def request (n : Nat) : Request := { id := c.jobId n, query := c.query }

end Call

inductive Outcome where
  | applied (id : String)
  | failed (id : String) (err : ErrorProto)
  /-- The service could not be reached. -/
  | lost (e : EtlError)
  deriving DecidableEq, Repr

/-- What the caller is told. -/
def Outcome.result : Outcome → Except EtlError String
  | applied id => .ok id
  | failed id err => .error (.other ("bigquery job " ++ id ++ " failed: " ++ err.message.getD "unknown error"))
  | lost e => .error e

/-- What is waited for, and how often it was asked for. -/
inductive Phase where
  | creating (tries : Nat)
  /-- The job that a request which seemed to have failed created. -/
  | fetching (tries : Nat)
  | polling (tries : Nat)
  | ended (outcome : Outcome)
  deriving DecidableEq, Repr

structure World where
  service : Service
  attempt : Nat := 1
  phase : Phase := .creating 1
  /-- The requests this statement was sent with. -/
  sent : List Request

inductive Event where
  /-- A request of the statement arrives, perhaps not for the first time. -/
  | arrive (k : Nat)
  /-- A request of someone else. -/
  | other (r : Request)
  | finish (id : String) (errorResult : Option ErrorProto)
  /-- The answer to `jobs.insert`. -/
  | inserted (answer : Except BqError JobState)
  /-- The answer to `jobs.get`. -/
  | got (answer : Except BqError JobState)

namespace World

variable (c : Call) (w : World)

def start (c : Call) (service : Service) : World := { service, sent := [c.request 1] }

/-- The next attempt, under an identifier of its own. -/
def again : World :=
  { w with attempt := w.attempt + 1, phase := .creating 1, sent := w.sent ++ [c.request (w.attempt + 1)] }

/-- The job as it was last seen: a running one is asked for, and a statement that may be run again is. -/
def wait : JobState → World
  | .running => { w with phase := .polling 1 }
  | .done (some err) =>
    if isRetryableJobError err ∧ w.attempt < c.attempts then w.again c
    else { w with phase := .ended (.failed (c.jobId w.attempt) err) }
  | .done none => { w with phase := .ended (.applied (c.jobId w.attempt)) }

def lose (text : String) (e : BqError) : World :=
  { w with phase := .ended (.lost (.other ("bigquery " ++ text ++ " error: " ++ e.display))) }

/-- `submit_job`: a request is sent again under its identifier. -/
def onInserted (tries : Nat) : Except BqError JobState → World
  | .ok state => w.wait c state
  | .error e =>
    -- a conflict of the first request is not its own doing
    if 1 < tries ∧ isConflict e then { w with phase := .fetching 1 }
    else if tries < jobHttpAttempts ∧ isTransientBq e then
      { w with phase := .creating (tries + 1), sent := w.sent ++ [c.request w.attempt] }
    else w.lose (c.what ++ " job") e

/-- `retry_job_call`, of a `jobs.get`. -/
def onGot (again : Nat → Phase) (text : String) (tries : Nat) : Except BqError JobState → World
  | .ok state => w.wait c state
  | .error e =>
    if tries < jobHttpAttempts ∧ isTransientBq e then { w with phase := again (tries + 1) }
    else w.lose text e

/-- The service answers with what it has, and with a conflict only where the identifier is in use. -/
def answers : Except BqError JobState → Bool
  | .ok state => w.service.shows (c.jobId w.attempt) state
  | .error e => !isConflict e || (w.service.jobs (c.jobId w.attempt)).isSome

def step : Event → Option World
  | .arrive k => w.sent[k]?.map fun r => { w with service := w.service.create r }
  | .other r => some { w with service := w.service.create r }
  | .finish id errorResult => (w.service.finish id errorResult).map fun s => { w with service := s }
  | .inserted answer =>
    match w.phase with
    | .creating tries => if w.answers c answer then some (w.onInserted c tries answer) else none
    | _ => none
  | .got answer =>
    match w.phase with
    | .fetching tries =>
      if w.answers c answer then some (w.onGot c .fetching (c.what ++ " job") tries answer) else none
    | .polling tries => if w.answers c answer then some (w.onGot c .polling "job get" tries answer) else none
    | _ => none

end World

namespace World

variable {c : Call} {w : World} {err : ErrorProto}

theorem wait_again (h : isRetryableJobError err = true ∧ w.attempt < c.attempts) :
    w.wait c (.done (some err)) = w.again c := if_pos h

theorem wait_failed (h : ¬(isRetryableJobError err = true ∧ w.attempt < c.attempts)) :
    w.wait c (.done (some err)) = { w with phase := .ended (.failed (c.jobId w.attempt) err) } := if_neg h

end World

/-! ### Identifiers -/

theorem uniqueJobId_injective {what table : String} {a b : Int}
    (h : uniqueJobId what table a = uniqueJobId what table b) : a = b := by
  have htext := congrArg String.toList h
  simp only [uniqueJobId, String.toList_append, List.append_cancel_left_eq] at htext
  exact Text.toString_int_injective htext

namespace Call

variable {c : Call}

theorem jobId_inj (hclock : Function.Injective c.times) {m n : Nat} : c.jobId m = c.jobId n ↔ m = n := by
  constructor
  · intro h
    exact hclock (uniqueJobId_injective h)
  · rintro rfl
    rfl

end Call

/-! ### What the service keeps -/

namespace Service

variable {s s' : Service} {r : Request} {id : String} {errorResult : Option ErrorProto}

theorem create_applied : (s.create r).applied = s.applied := by
  unfold create
  split_ifs <;> rfl

/-- A request changes nothing but a free identifier, its own. -/
theorem create_jobs (id : String) : (s.create r).jobs id = s.jobs id ∨
    (id = r.id ∧ s.jobs id = none ∧ (s.create r).jobs id = some { query := r.query }) := by
  unfold create
  split_ifs with h
  · exact .inl rfl
  · by_cases hid : id = r.id
    · refine .inr ⟨hid, ?_, ?_⟩
      · simpa [hid] using h
      · rw [hid]
        exact Function.update_self _ _ _
    · exact .inl (Function.update_of_ne hid _ _)

/-- A job ends once. -/
theorem finish_eq_some (h : s.finish id errorResult = some s') : ∃ query, s.jobs id = some { query } ∧
    s'.jobs = Function.update s.jobs id (some { query, state := .done errorResult }) ∧
    s'.applied = if errorResult.isNone then s.applied ++ [⟨id, query⟩] else s.applied := by
  unfold finish at h
  split at h
  · next query hjob =>
    cases h
    exact ⟨query, hjob, rfl, rfl⟩
  · cases h

end Service

/-! ### One statement, one effect -/

/-- What holds of a statement and its jobs, all through a run. -/
structure Inv (c : Call) (w : World) : Prop where
  attempt : 1 ≤ w.attempt
  sent : ∀ r ∈ w.sent, ∃ n, 1 ≤ n ∧ n ≤ w.attempt ∧ r = c.request n
  current : c.request w.attempt ∈ w.sent
  /-- A job of the statement was sent. -/
  jobs : ∀ n j, w.service.jobs (c.jobId n) = some j → j.query = c.query ∧ 1 ≤ n ∧ n ≤ w.attempt
  /-- An attempt is made when those before it have failed. -/
  earlier : ∀ n, 1 ≤ n → n < w.attempt → ∃ err, w.service.jobs (c.jobId n) = some ⟨c.query, .done (some err)⟩
  applied : ∀ n, w.service.applied.count (c.request n) =
    if w.service.jobs (c.jobId n) = some ⟨c.query, .done none⟩ then 1 else 0
  ended : ∀ outcome, w.phase = .ended outcome →
    (∀ id, outcome = .applied id → id = c.jobId w.attempt ∧ w.service.jobs id = some ⟨c.query, .done none⟩) ∧
    (∀ id err, outcome = .failed id err →
      id = c.jobId w.attempt ∧ w.service.jobs id = some ⟨c.query, .done (some err)⟩)

section

variable {c : Call} {w w' : World}

/-- What a step of the service keeps of the invariant. -/
theorem inv_service {s : Service} (h : Inv c w)
    (hjobs : ∀ n, s.jobs (c.jobId n) = w.service.jobs (c.jobId n) ∨
      (w.service.jobs (c.jobId n) = none ∧ 1 ≤ n ∧ n ≤ w.attempt ∧ s.jobs (c.jobId n) = some { query := c.query }) ∨
      (w.service.jobs (c.jobId n) = some { query := c.query } ∧
        ∃ errorResult, s.jobs (c.jobId n) = some ⟨c.query, .done errorResult⟩))
    (happlied : ∀ n, s.applied.count (c.request n) =
      if s.jobs (c.jobId n) = some ⟨c.query, .done none⟩ then 1 else 0) : Inv c { w with service := s } where
  attempt := h.attempt
  sent := h.sent
  current := h.current
  jobs n j hj := by
    dsimp only at hj
    rcases hjobs n with heq | ⟨-, h1, hle, hnew⟩ | ⟨hrunning, errorResult, hdone⟩
    · rw [heq] at hj
      exact h.jobs n j hj
    · rw [hnew] at hj
      cases hj
      exact ⟨rfl, h1, hle⟩
    · rw [hdone] at hj
      cases hj
      exact ⟨rfl, (h.jobs n _ hrunning).2⟩
  earlier n h1 hlt := by
    obtain ⟨err, herr⟩ := h.earlier n h1 hlt
    rcases hjobs n with heq | ⟨hnone, -⟩ | ⟨hrunning, -⟩
    · exact ⟨err, heq.trans herr⟩
    · rw [herr] at hnone
      cases hnone
    · rw [herr] at hrunning
      cases hrunning
  applied := happlied
  ended outcome hphase := by
    obtain ⟨happ, hfail⟩ := h.ended outcome hphase
    -- a job that has ended stays as it is
    have hkeep : ∀ e, w.service.jobs (c.jobId w.attempt) = some ⟨c.query, .done e⟩ →
        s.jobs (c.jobId w.attempt) = some ⟨c.query, .done e⟩ := by
      intro e he
      rcases hjobs w.attempt with heq | ⟨hnone, -⟩ | ⟨hrunning, -⟩
      · exact heq.trans he
      · rw [he] at hnone
        cases hnone
      · rw [he] at hrunning
        cases hrunning
    constructor
    · intro id hid
      obtain ⟨rfl, hjob⟩ := happ id hid
      exact ⟨rfl, hkeep _ hjob⟩
    · intro id err hid
      obtain ⟨rfl, hjob⟩ := hfail id err hid
      exact ⟨rfl, hkeep _ hjob⟩

theorem inv_create {r : Request} (h : Inv c w)
    (hr : ∀ n, r.id = c.jobId n → r.query = c.query ∧ 1 ≤ n ∧ n ≤ w.attempt) :
    Inv c { w with service := w.service.create r } := by
  have hjobs : ∀ n, (w.service.create r).jobs (c.jobId n) = w.service.jobs (c.jobId n) ∨
      (w.service.jobs (c.jobId n) = none ∧ 1 ≤ n ∧ n ≤ w.attempt ∧
        (w.service.create r).jobs (c.jobId n) = some { query := c.query }) := by
    intro n
    rcases Service.create_jobs (s := w.service) (r := r) (c.jobId n) with heq | ⟨hid, hnone, hnew⟩
    · exact .inl heq
    · obtain ⟨hquery, h1, hle⟩ := hr n hid.symm
      rw [hquery] at hnew
      exact .inr ⟨hnone, h1, hle, hnew⟩
  apply inv_service h
  · intro n
    rcases hjobs n with heq | hnew
    · exact .inl heq
    · exact .inr (.inl hnew)
  · intro n
    rw [Service.create_applied, h.applied n]
    rcases hjobs n with heq | ⟨hnone, -, -, hnew⟩
    · rw [heq]
    · rw [hnone, hnew]
      simp

theorem inv_finish {s : Service} {id : String} {errorResult : Option ErrorProto}
    (h : Inv c w) (hs : w.service.finish id errorResult = some s) : Inv c { w with service := s } := by
  obtain ⟨query, hjob, hjobs, happlied⟩ := Service.finish_eq_some hs
  have hself : ∀ n, c.jobId n = id → query = c.query := by
    intro n hn
    rw [← hn] at hjob
    exact (h.jobs n _ hjob).1
  apply inv_service h
  · intro n
    rw [hjobs]
    by_cases hn : c.jobId n = id
    · rw [hn, Function.update_self, hjob, ← hself n hn]
      exact .inr (.inr ⟨rfl, errorResult, rfl⟩)
    · rw [Function.update_of_ne hn]
      exact .inl rfl
  · intro n
    have hcount := h.applied n
    rw [happlied, hjobs]
    by_cases hn : c.jobId n = id
    · have hquery := hself n hn
      rw [hn, hjob, hquery] at hcount
      rw [hn, Function.update_self, hquery]
      have hrequest : c.request n = ⟨id, c.query⟩ := by
        unfold Call.request
        rw [hn]
      rw [if_neg (by simp), hrequest] at hcount
      rw [hrequest]
      cases errorResult with
      | none => simp [hcount]
      | some err => simp [hcount]
    · have hne : c.request n ≠ ⟨id, query⟩ := fun heq => hn (congrArg Request.id heq)
      rw [Function.update_of_ne hn, ← hcount]
      split_ifs
      · rw [List.count_append, List.count_singleton, if_neg (by simpa using hne.symm), Nat.add_zero]
      · rfl

/-- The statement waits, or has ended, with what was sent before. -/
theorem inv_phase {phase : Phase} (h : Inv c w) (hended : ∀ outcome, phase = .ended outcome →
    (∀ id, outcome = .applied id → id = c.jobId w.attempt ∧ w.service.jobs id = some ⟨c.query, .done none⟩) ∧
    (∀ id err, outcome = .failed id err →
      id = c.jobId w.attempt ∧ w.service.jobs id = some ⟨c.query, .done (some err)⟩)) :
    Inv c { w with phase } :=
  { h with ended := hended }

/-- A job that is shown as ended has. -/
theorem done_of_shows {id : String} {errorResult : Option ErrorProto} {s : Service}
    (h : s.shows id (.done errorResult) = true) : ∃ query, s.jobs id = some ⟨query, .done errorResult⟩ := by
  unfold Service.shows at h
  cases hjob : s.jobs id with
  | none =>
    rw [hjob] at h
    cases h
  | some j =>
    rw [hjob] at h
    obtain ⟨query, state⟩ := j
    obtain rfl : state = .done errorResult := by simpa using h
    exact ⟨query, rfl⟩

/-- The next attempt, when this one has failed. -/
theorem inv_again {err : ErrorProto} (h : Inv c w)
    (hjob : w.service.jobs (c.jobId w.attempt) = some ⟨c.query, .done (some err)⟩) : Inv c (w.again c) where
  attempt := Nat.le_add_left 1 _
  sent r hr := by
    rcases List.mem_append.mp hr with hr | hr
    · obtain ⟨n, h1, hle, rfl⟩ := h.sent r hr
      exact ⟨n, h1, Nat.le_succ_of_le hle, rfl⟩
    · obtain rfl := List.mem_singleton.mp hr
      exact ⟨w.attempt + 1, Nat.le_add_left 1 _, Nat.le_refl _, rfl⟩
  current := List.mem_append_right _ List.mem_cons_self
  jobs n j hj := by
    obtain ⟨hquery, h1, hle⟩ := h.jobs n j hj
    exact ⟨hquery, h1, Nat.le_succ_of_le hle⟩
  earlier n h1 hlt := by
    have hlt : n < w.attempt + 1 := hlt
    rcases Nat.lt_succ_iff_lt_or_eq.mp hlt with hlt | rfl
    · exact h.earlier n h1 hlt
    · exact ⟨err, hjob⟩
  applied := h.applied
  ended := nofun

theorem inv_wait {state : JobState} (h : Inv c w)
    (hshows : w.service.shows (c.jobId w.attempt) state = true) : Inv c (w.wait c state) := by
  cases state with
  | running => exact inv_phase h nofun
  | done errorResult =>
    obtain ⟨query, hjob⟩ := done_of_shows hshows
    obtain rfl : query = c.query := (h.jobs _ _ hjob).1
    cases errorResult with
    | none =>
      apply inv_phase h
      intro outcome houtcome
      cases houtcome
      constructor
      · intro id hid
        cases hid
        exact ⟨rfl, hjob⟩
      · nofun
    | some err =>
      by_cases hagain : isRetryableJobError err = true ∧ w.attempt < c.attempts
      · rw [World.wait_again hagain]
        exact inv_again h hjob
      · rw [World.wait_failed hagain]
        apply inv_phase h
        intro outcome houtcome
        cases houtcome
        constructor
        · nofun
        · intro id err' hid
          cases hid
          exact ⟨rfl, hjob⟩

theorem inv_lose {text : String} {e : BqError} (h : Inv c w) : Inv c (w.lose text e) := by
  apply inv_phase h
  intro outcome houtcome
  cases houtcome
  exact ⟨nofun, nofun⟩

theorem shows_of_answers {state : JobState} (h : w.answers c (.ok state) = true) :
    w.service.shows (c.jobId w.attempt) state = true := h

/-- Sending the request of this attempt again. -/
theorem inv_resend {phase : Phase} (h : Inv c w) (hphase : ∀ outcome, phase ≠ .ended outcome) :
    Inv c { w with phase, sent := w.sent ++ [c.request w.attempt] } where
  attempt := h.attempt
  sent r hr := by
    rcases List.mem_append.mp hr with hr | hr
    · exact h.sent r hr
    · obtain rfl := List.mem_singleton.mp hr
      exact ⟨w.attempt, h.attempt, Nat.le_refl _, rfl⟩
  current := List.mem_append_left _ h.current
  jobs := h.jobs
  earlier := h.earlier
  applied := h.applied
  ended outcome houtcome := absurd houtcome (hphase outcome)

theorem inv_onInserted {tries : Nat} {answer : Except BqError JobState} (h : Inv c w)
    (hanswer : w.answers c answer = true) : Inv c (w.onInserted c tries answer) := by
  cases answer with
  | ok state => exact inv_wait h (shows_of_answers hanswer)
  | error e =>
    unfold World.onInserted
    dsimp only
    split_ifs
    · exact inv_phase h nofun
    · exact inv_resend h nofun
    · exact inv_lose h

theorem inv_onGot {again : Nat → Phase} {text : String} {tries : Nat} {answer : Except BqError JobState} (h : Inv c w)
    (hagain : ∀ n outcome, again n ≠ .ended outcome) (hanswer : w.answers c answer = true) :
    Inv c (w.onGot c again text tries answer) := by
  cases answer with
  | ok state => exact inv_wait h (shows_of_answers hanswer)
  | error e =>
    unfold World.onGot
    dsimp only
    split_ifs
    · exact inv_phase h fun outcome houtcome => absurd houtcome (hagain _ outcome)
    · exact inv_lose h

/-- A step of the statement, of someone else, or of the service. -/
theorem inv_step (hclock : Function.Injective c.times) {event : Event} (h : Inv c w)
    (hother : ∀ r, event = .other r → ∀ n, r.id ≠ c.jobId n) (hstep : w.step c event = some w') : Inv c w' := by
  cases event with
  | arrive k =>
    obtain ⟨r, hr, rfl⟩ := Option.map_eq_some_iff.mp hstep
    apply inv_create h
    intro n hn
    -- it may be a late request of an earlier attempt
    obtain ⟨m, h1, hle, rfl⟩ := h.sent r (List.mem_of_getElem? hr)
    obtain rfl := (Call.jobId_inj hclock).mp hn
    exact ⟨rfl, h1, hle⟩
  | other r =>
    cases hstep
    apply inv_create h
    intro n hn
    exact absurd hn (hother r rfl n)
  | finish id errorResult =>
    obtain ⟨s, hs, rfl⟩ := Option.map_eq_some_iff.mp hstep
    exact inv_finish h hs
  | inserted answer =>
    unfold World.step at hstep
    dsimp only at hstep
    split at hstep
    · split_ifs at hstep with hanswer
      cases hstep
      exact inv_onInserted h hanswer
    · cases hstep
  | got answer =>
    unfold World.step at hstep
    dsimp only at hstep
    split at hstep
    · split_ifs at hstep with hanswer
      cases hstep
      exact inv_onGot h nofun hanswer
    · split_ifs at hstep with hanswer
      cases hstep
      exact inv_onGot h nofun hanswer
    · cases hstep

theorem inv_start {service : Service} (hfresh : ∀ n, service.jobs (c.jobId n) = none)
    (happlied : ∀ r ∈ service.applied, ∀ n, r.id ≠ c.jobId n) : Inv c (World.start c service) where
  attempt := Nat.le_refl 1
  sent r hr := ⟨1, Nat.le_refl 1, Nat.le_refl 1, List.mem_singleton.mp hr⟩
  current := List.mem_singleton.mpr rfl
  jobs n j hj := by
    have hj : service.jobs (c.jobId n) = some j := hj
    rw [hfresh n] at hj
    cases hj
  earlier n h1 hlt := by
    have hlt : n < 1 := hlt
    omega
  applied n := by
    have hzero : service.applied.count (c.request n) = 0 := by
      apply List.count_eq_zero.mpr
      intro hmem
      exact happlied _ hmem n rfl
    have hnone : ¬(World.start c service).service.jobs (c.jobId n) = some ⟨c.query, .done none⟩ := by
      show ¬service.jobs (c.jobId n) = _
      rw [hfresh n]
      simp
    rw [if_neg hnone]
    exact hzero
  ended := nofun

/-- Whatever took effect was sent by the last attempt, whose job succeeded. -/
theorem eq_current {r : Request} (h : Inv c w) (happlied : r ∈ w.service.applied) (hsent : r ∈ w.sent) :
    r = c.request w.attempt ∧ w.service.jobs (c.jobId w.attempt) = some ⟨c.query, .done none⟩ := by
  obtain ⟨n, h1, hle, rfl⟩ := h.sent r hsent
  have hcount := h.applied n
  have hpos := List.count_pos_iff.mpr happlied
  split_ifs at hcount with hjob
  · by_cases hlt : n < w.attempt
    -- an earlier attempt was only given up when its job had failed
    · obtain ⟨err, herr⟩ := h.earlier n h1 hlt
      rw [hjob] at herr
      cases herr
    · obtain rfl : n = w.attempt := by omega
      exact ⟨rfl, hjob⟩
  · omega

/-- How often the statement took effect: once, when the job of the last attempt succeeded. -/
theorem effects_eq (h : Inv c w) : w.service.applied.filter (· ∈ w.sent) =
    if w.service.jobs (c.jobId w.attempt) = some ⟨c.query, .done none⟩ then [c.request w.attempt] else [] := by
  have hall : ∀ r ∈ w.service.applied.filter (· ∈ w.sent), r = c.request w.attempt := by
    intro r hr
    obtain ⟨happlied, hsent⟩ := List.mem_filter.mp hr
    exact (eq_current h happlied (by simpa using hsent)).1
  have hlength := (List.eq_replicate_iff.mpr ⟨rfl, hall⟩).symm
  have hcount : (w.service.applied.filter (· ∈ w.sent)).count (c.request w.attempt) =
      w.service.applied.count (c.request w.attempt) := List.count_filter (by simpa using h.current)
  rw [← hlength, List.count_replicate_self, h.applied] at hcount
  rw [← hlength, hcount]
  split_ifs <;> rfl

end

/-- A statement takes effect at most once, whatever was lost, came late or came again, and whatever else the service
does; once when it is reported as done, and never when its job is reported as failed. -/
theorem query_job_applied_once (c : Call) (service : Service) (events : List Event) (w : World)
    (hclock : Function.Injective c.times) (hfresh : ∀ n, service.jobs (c.jobId n) = none)
    (happlied : ∀ r ∈ service.applied, ∀ n, r.id ≠ c.jobId n)
    (hothers : ∀ r, .other r ∈ events → ∀ n, r.id ≠ c.jobId n)
    (hrun : exec (World.step c) (World.start c service) events = some w) :
    (w.service.applied.filter (· ∈ w.sent)).length ≤ 1 ∧
      (∀ r ∈ w.service.applied.filter (· ∈ w.sent), r.query = c.query) ∧
      (∀ id, w.phase = .ended (.applied id) → w.service.applied.filter (· ∈ w.sent) = [⟨id, c.query⟩]) ∧
      (∀ id err, w.phase = .ended (.failed id err) → w.service.applied.filter (· ∈ w.sent) = []) := by
  have hcond : Along (World.step c) (fun _ event => ∀ r, event = .other r → ∀ n, r.id ≠ c.jobId n)
      (World.start c service) events := by
    apply along_of_forall
    intro event hevent _ r hr
    rw [hr] at hevent
    exact hothers r hevent
  have h : Inv c w := exec_invariant_along (fun _ _ _ h hother hstep => inv_step hclock h hother hstep)
    (inv_start hfresh happlied) hcond hrun
  have heffects := effects_eq h
  refine ⟨?_, ?_, ?_, ?_⟩
  · rw [heffects]
    split_ifs <;> simp
  · rw [heffects]
    split_ifs
    · simp [Call.request]
    · simp
  · intro id hended
    obtain ⟨rfl, hjob⟩ := (h.ended _ hended).1 id rfl
    rw [heffects, if_pos hjob]
    rfl
  · intro id err hended
    obtain ⟨rfl, hjob⟩ := (h.ended _ hended).2 id err rfl
    rw [heffects, hjob, if_neg (by simp)]

/-- A merge whose attempts read the clock at 7, 8, 9 and so on. -/
def mergeOrders : Call where
  what := "merge"
  table := "orders"
  query := "MERGE"
  times n := 6 + n

/-- The first request comes through without an answer, and its job is failed by a limit; it comes again while the second
attempt runs. -/
def mergeEvents : List Event :=
  [.arrive 0, .inserted (.error (.httpMiddleware "timed out")), .inserted (.error (.response 409 "already exists")),
    .got (.error (.response 503 "unavailable")), .got (.ok .running),
    .finish "quickhouse_merge_orders_7" (some { reason := some "rateLimitExceeded" }),
    .got (.ok (.done (some { reason := some "rateLimitExceeded" }))), .arrive 2, .arrive 0,
    .inserted (.ok .running), .finish "quickhouse_merge_orders_8" none, .got (.ok (.done none)), .arrive 1]

theorem merge_applied_once : ∃ w, exec (World.step mergeOrders) (World.start mergeOrders {}) mergeEvents = some w ∧
    w.phase = .ended (.applied "quickhouse_merge_orders_8") ∧ w.sent.length = 3 ∧
    w.service.applied.filter (· ∈ w.sent) = [⟨"quickhouse_merge_orders_8", "MERGE"⟩] := by
  have hsome : (exec (World.step mergeOrders) (World.start mergeOrders {}) mergeEvents).isSome = true := by decide +kernel
  obtain ⟨w, hw⟩ := Option.isSome_iff_exists.mp hsome
  have hphase : (exec (World.step mergeOrders) (World.start mergeOrders {}) mergeEvents).map
      (fun w => (w.phase, w.sent.length)) = some (.ended (.applied "quickhouse_merge_orders_8"), 3) := by decide +kernel
  rw [hw] at hphase
  obtain ⟨hended, hlen⟩ := Prod.mk.inj (Option.some.inj hphase)
  have hmain := query_job_applied_once mergeOrders {} mergeEvents w ?_ (fun _ => rfl) nofun ?_ hw
  · exact ⟨w, hw, hended, hlen, hmain.2.2.1 _ hended⟩
  · intro a b h
    have h : (6 : Int) + a = 6 + b := h
    omega
  · intro r hr
    simp [mergeEvents] at hr

end Quickhouse.QueryJobs
