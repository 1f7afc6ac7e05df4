import Quickhouse.Lib.OffsetLog
import Quickhouse.Sink.BigQueryProto
import Quickhouse.Warnings

/-!
# Rows appended to a stream of their own

The storage write opens a stream for an insert and appends the rows to it slice by slice, each at the offset that the stream is
at.  What may or may not have been committed is sent again at the same offset, and "already exists" counts as success.  Every
row is in the stream once when the insert succeeds, and a prefix of the rows when it does not (`storage_write_exactly_once`).
-/

namespace Quickhouse.StorageWrite

open BigQueryProto OffsetLog Protobuf Slices Wire

def maxInsertAttempts : Nat := 4

def storageWriteMaxRowsPerAppend : Nat := 5000

/-! ### What the service answers -/

inductive Code where
  | ok | cancelled | unknown | invalidArgument | deadlineExceeded | notFound | alreadyExists | permissionDenied
  | resourceExhausted | failedPrecondition | aborted | outOfRange | unimplemented | internal | unavailable | dataLoss
  | unauthenticated
  deriving DecidableEq, Repr

def Code.debug : Code → String
  | .ok => "Ok"
  | .cancelled => "Cancelled"
  | .unknown => "Unknown"
  | .invalidArgument => "InvalidArgument"
  | .deadlineExceeded => "DeadlineExceeded"
  | .notFound => "NotFound"
  | .alreadyExists => "AlreadyExists"
  | .permissionDenied => "PermissionDenied"
  | .resourceExhausted => "ResourceExhausted"
  | .failedPrecondition => "FailedPrecondition"
  | .aborted => "Aborted"
  | .outOfRange => "OutOfRange"
  | .unimplemented => "Unimplemented"
  | .internal => "Internal"
  | .unavailable => "Unavailable"
  | .dataLoss => "DataLoss"
  | .unauthenticated => "Unauthenticated"

/-- The status of a call; `display` is its text as a whole. -/
structure Status where
  code : Code
  message : String
  display : String
  deriving DecidableEq, Repr

/-- A status inside a response, its code a number. -/
structure RpcStatus where
  code : Int
  message : String
  deriving DecidableEq, Repr

structure RowError where
  index : Int
  message : String
  deriving DecidableEq, Repr

inductive Response where
  | appendResult
  | error (status : RpcStatus)
  deriving DecidableEq, Repr

structure AppendRowsResponse where
  rowErrors : List RowError := []
  response : Option Response := none
  deriving DecidableEq, Repr

/-- What a call to append comes to: it is refused, or a stream of responses that may break. -/
inductive Reply where
  | refused (status : Status)
  | responses (messages : List AppendRowsResponse) (broken : Option Status)
  deriving DecidableEq, Repr

/-! ### One attempt -/

inductive SendError where
  | transient (e : EtlError)
  | permanent (e : EtlError)
  deriving DecidableEq, Repr

def classifyStatus (status : Status) (context : String) : SendError :=
  let err := EtlError.other (context ++ ": " ++ status.message ++ " (" ++ status.code.debug ++ ")")
  match status.code with
  | .unavailable | .internal | .aborted | .deadlineExceeded | .resourceExhausted => .transient err
  | _ => .permanent err

def rpcCodeAlreadyExists : Int := 6

def classifyRpcStatus (status : RpcStatus) (table dataset : String) : SendError :=
  let err := EtlError.other ("bigquery storage-write append error into " ++ dataset ++ "." ++ table ++ ": code " ++
    toString status.code ++ " " ++ status.message)
  if status.code ∈ [13, 14, 10, 8, 4] then .transient err else .permanent err

structure TableRef where
  dataset : String
  table : String
  deriving DecidableEq, Repr

def rowErrorsDetail (errors : List RowError) : String :=
  " | ".intercalate (errors.map fun e => "row " ++ toString e.index ++ ": " ++ e.message)

/-- The responses are read to the first that is an error. -/
def drain (dest : TableRef) (broken : Option Status) : List AppendRowsResponse → Except SendError Unit
  | [] =>
    match broken with
    | none => .ok ()
    | some status => .error (classifyStatus status "bigquery storage-write stream")
  | msg :: rest =>
    if !msg.rowErrors.isEmpty then
      .error (.permanent (.other ("bigquery storage-write rejected " ++ toString msg.rowErrors.length ++ " row(s) into " ++
        dest.dataset ++ "." ++ dest.table ++ ": " ++ rowErrorsDetail msg.rowErrors)))
    else
      match msg.response with
      | some (.error status) =>
        if status.code = rpcCodeAlreadyExists then .ok ()
        else .error (classifyRpcStatus status dest.table dest.dataset)
      | _ => drain dest broken rest

def readReply (dest : TableRef) : Reply → Except SendError Unit
  | .refused status =>
    if status.code = .alreadyExists then .ok ()
    else .error (classifyStatus status "bigquery storage-write append")
  | .responses messages broken => drain dest broken messages

/-! ### The insert -/

structure Request where
  descriptor : Descriptor
  offset : Int
  rows : List Bytes

/-- The service: `σ` is what it is before the stream is there, `τ` the stream. -/
structure Service (σ τ : Type) where
  createWriteStream : σ → Except Status τ × σ
  appendRows : τ → Request → Reply × τ
  finalize : τ → Except Status Int × τ
  /-- The rows that the stream holds. -/
  held : τ → List Bytes

/-- An attempt that was made, and what came of it. -/
structure Sent where
  request : Request
  answer : Except SendError Unit

/-- The insert under way: the stream, the offset of the next slice, and what was sent so far. -/
structure Writer (τ : Type) where
  stream : τ
  offset : Int := 0
  totalBytes : Nat := 0
  sent : List Sent := []

/-- What the insert came to. -/
structure Run (τ : Type) where
  result : Slices.Outcome EtlError Nat
  stream : Option τ := none
  sent : List Sent := []
  warnings : List TransferWarning := []

section

variable {σ τ : Type} (service : Service σ τ) (nan : Ieee.Single → Ieee.Nan)

/-- A table that was made a moment ago may not be found for a while. -/
def openStream (resource : String) : Nat → σ → Except EtlError τ × σ
  | retries, s =>
    match service.createWriteStream s, retries with
    | (.ok stream, s), _ => (.ok stream, s)
    | (.error e, s), 0 =>
      (.error (.other ("bigquery storage-write: open committed stream for " ++ resource ++ ": " ++ e.display)), s)
    | (.error e, s), retries + 1 =>
      if e.code = .notFound then openStream resource retries s
      else (.error (.other ("bigquery storage-write: open committed stream for " ++ resource ++ ": " ++ e.display)), s)

def tryAppend (dest : TableRef) (request : Request) (w : Writer τ) : Except SendError Unit × Writer τ :=
  let reply := service.appendRows w.stream request
  let answer := readReply dest reply.1
  (answer, { w with stream := reply.2, sent := w.sent ++ [⟨request, answer⟩] })

/-- The rows are sent until an attempt succeeds, at the same offset each time. -/
def sendRows (dest : TableRef) (request : Request) : Nat → Writer τ → Except EtlError Unit × Writer τ
  | retries, w =>
    match tryAppend service dest request w, retries with
    | (.ok (), w), _ => (.ok (), w)
    | (.error (.permanent e), w), _ => (.error e, w)
    | (.error (.transient e), w), 0 =>
      (.error (.other ("bigquery storage-write append into " ++ dest.dataset ++ "." ++ dest.table ++ " failed after " ++
        toString maxInsertAttempts ++ " attempts: " ++ e.display)), w)
    | (.error (.transient _), w), retries + 1 => sendRows dest request retries w

def encodeRows (batch : RecordBatch) (fields : List FieldEnc) (start finish : Nat) : Slices.Outcome EtlError (List Bytes) :=
  (((List.finRange batch.rows).drop start).take (finish - start)).mapM fun row => encodeRow nan batch row fields []

/-- The rows of a batch from `start` on, in slices. -/
def writeBatch (dest : TableRef) (fields : List FieldEnc) (descriptor : Descriptor) (batch : RecordBatch) (start : Nat)
    (w : Writer τ) : Slices.Outcome EtlError Unit × Writer τ :=
  if start < batch.rows then
    let finish := min (start + storageWriteMaxRowsPerAppend) batch.rows
    match encodeRows nan batch fields start finish with
    | .error e => (.error e, w)
    | .ok serialized =>
      let w := { w with totalBytes := w.totalBytes + (serialized.map List.length).sum }
      match sendRows service dest ⟨descriptor, w.offset, serialized⟩ (maxInsertAttempts - 1) w with
      | (.error e, w) => (.error (.err e), w)
      | (.ok (), w) => writeBatch dest fields descriptor batch finish { w with offset := w.offset + (finish - start : Nat) }
  else (.ok (), w)
termination_by batch.rows - start
decreasing_by
  unfold storageWriteMaxRowsPerAppend at *
  omega

def writeBatches (dest : TableRef) (fields : List FieldEnc) (descriptor : Descriptor) :
    List RecordBatch → Writer τ → Slices.Outcome EtlError Unit × Writer τ
  | [], w => (.ok (), w)
  | batch :: batches, w =>
    match writeBatch service nan dest fields descriptor batch 0 w with
    | (.error e, w) => (.error e, w)
    | (.ok (), w) => writeBatches dest fields descriptor batches w

def finalizedRowCountWarning (dest : TableRef) (rowCount appended : Int) : Option TransferWarning :=
  if rowCount = appended then none
  else
    let diff := (rowCount - appended).natAbs
    let what := if appended < rowCount then "duplicated" else "missing"
    some {
      kind := .storageWriteCountMismatch
      count := diff
      sample := some (dest.dataset ++ "." ++ dest.table)
      message := "bigquery storage-write into " ++ dest.dataset ++ "." ++ dest.table ++ " finalized its stream with " ++
        toString rowCount ++ " row(s), but " ++ toString appended ++ " were appended (" ++ toString diff ++ " " ++ what ++
        "): the offsets did not deduplicate a retried append as they should. If this recurs, use write_method=\"insert_all\"." }

/-- What the messages are made with. -/
def prepare (schema : List SchemaField) : Except EtlError (List FieldEnc × Descriptor) := do
  let fields ← resolveFields schema
  let descriptor ← buildProtoDescriptor fields
  pure (fields, descriptor)

def insertBatchesStorageWrite (project : String) (dest : TableRef) (schema : List SchemaField)
    (batches : List RecordBatch) (s : σ) : Run τ :=
  if batches.all (fun b => b.rows == 0) then { result := .ok 0 }
  else
    match prepare schema with
    | .error e => { result := .error (.err e) }
    | .ok (fields, descriptor) =>
      let resource := "projects/" ++ project ++ "/datasets/" ++ dest.dataset ++ "/tables/" ++ dest.table
      match openStream service resource (maxInsertAttempts - 1) s with
      | (.error e, _) => { result := .error (.err e) }
      | (.ok stream, _) =>
        match writeBatches service nan dest fields descriptor batches { stream } with
        | (.error e, w) => { result := .error e, stream := some w.stream, sent := w.sent }
        | (.ok (), w) =>
          -- every append is committed by now, so a stream that cannot be closed loses nothing
          match service.finalize w.stream with
          | (.error _, stream) => { result := .ok w.totalBytes, stream := some stream, sent := w.sent }
          | (.ok rowCount, stream) =>
            { result := .ok w.totalBytes, stream := some stream, sent := w.sent,
              warnings := (finalizedRowCountWarning dest rowCount w.offset).toList }

end

/-! ### What the service promises -/

/-- A response that is no error. -/
def Clean (m : AppendRowsResponse) : Prop := m.rowErrors = [] ∧ ∀ status, m.response ≠ some (.error status)

/-- What a reply says of its append, as the service documents it. -/
inductive Means : Reply → Answer → Prop
  | acknowledged {messages} : (∀ m ∈ messages, Clean m) → (∃ m ∈ messages, m.response = some .appendResult) →
      Means (.responses messages none) .committed
  | refusedExists {status} : status.code = .alreadyExists → Means (.refused status) .exists
  | brokenExists {messages status} : (∀ m ∈ messages, Clean m) → status.code = .alreadyExists →
      Means (.responses messages (some status)) .exists
  | inBandExists {messages m status rest broken} : (∀ m ∈ messages, Clean m) → m.rowErrors = [] →
      m.response = some (.error status) → status.code = rpcCodeAlreadyExists →
      Means (.responses (messages ++ m :: rest) broken) .exists
  | refused {status} : status.code ≠ .alreadyExists → Means (.refused status) .failed
  | broken {messages status} : (∀ m ∈ messages, Clean m) → status.code ≠ .alreadyExists →
      Means (.responses messages (some status)) .failed
  | rowErrors {messages m rest broken} : (∀ m ∈ messages, Clean m) → m.rowErrors ≠ [] →
      Means (.responses (messages ++ m :: rest) broken) .failed
  | inBand {messages m status rest broken} : (∀ m ∈ messages, Clean m) → m.rowErrors = [] →
      m.response = some (.error status) → status.code ≠ rpcCodeAlreadyExists →
      Means (.responses (messages ++ m :: rest) broken) .failed

/-- A stream is new when it is made, and a log that is appended to at offsets. -/
structure Service.Lawful {σ τ : Type} (service : Service σ τ) : Prop where
  created : ∀ s stream s', service.createWriteStream s = (.ok stream, s') → service.held stream = []
  appended : ∀ stream request, ∃ answer, Means (service.appendRows stream request).1 answer ∧
    Append (service.held stream) request.offset request.rows answer (service.held (service.appendRows stream request).2)
  finalized : ∀ stream, service.held (service.finalize stream).2 = service.held stream

/-! ### One attempt is a success only when the rows are in -/

variable {dest : TableRef}

theorem drain_clean {messages : List AppendRowsResponse} (h : ∀ m ∈ messages, Clean m) (broken : Option Status)
    (rest : List AppendRowsResponse) : drain dest broken (messages ++ rest) = drain dest broken rest := by
  induction messages with
  | nil => rfl
  | cons m messages ih =>
    obtain ⟨hrows, hresponse⟩ := h m List.mem_cons_self
    have hrest := ih fun n hn => h n (List.mem_cons_of_mem _ hn)
    rw [List.cons_append, drain, hrows]
    cases hr : m.response with
    | none => exact hrest
    | some response =>
      cases response with
      | appendResult => exact hrest
      | error status => exact absurd hr (hresponse status)

theorem readReply_ok {reply : Reply} {answer : Answer} (hmeans : Means reply answer) (h : readReply dest reply = .ok ()) :
    answer ≠ .failed := by
  intro hfailed
  subst hfailed
  cases hmeans with
  | refused hcode =>
    rw [readReply, if_neg hcode] at h
    cases h
  | @broken messages status hclean hcode =>
    rw [readReply, ← List.append_nil messages, drain_clean hclean] at h
    cases h
  | @rowErrors messages m rest broken hclean hrows =>
    have hsome : (!m.rowErrors.isEmpty) = true := by simpa using hrows
    rw [readReply, drain_clean hclean, drain, if_pos hsome] at h
    cases h
  | inBand hclean hrows hresponse hcode =>
    rw [readReply, drain_clean hclean, drain, hrows, hresponse] at h
    simp [hcode] at h

/-! ### The offsets -/

/-- The rows of the attempts that succeeded. -/
def knownRows (sent : List Sent) : Nat :=
  ((sent.filter fun a => a.answer.isOk).map fun a => a.request.rows.length).sum

/-- Each attempt was made at the number of rows known to be in. -/
def OffsetsKnown (sent : List Sent) : Prop :=
  ∀ (before : List Sent) (attempt : Sent) (after : List Sent), sent = before ++ attempt :: after →
    attempt.request.offset = knownRows before

theorem knownRows_concat (sent : List Sent) (a : Sent) :
    knownRows (sent ++ [a]) = knownRows sent + if a.answer.isOk then a.request.rows.length else 0 := by
  unfold knownRows
  rw [List.filter_append, List.map_append, List.sum_append]
  by_cases h : a.answer.isOk <;> simp [h]

theorem OffsetsKnown.concat {sent : List Sent} (h : OffsetsKnown sent) {a : Sent}
    (ha : a.request.offset = knownRows sent) : OffsetsKnown (sent ++ [a]) := by
  intro before attempt after heq
  rcases List.eq_nil_or_concat after with rfl | ⟨after, last, rfl⟩
  · obtain ⟨rfl, hlast⟩ := List.append_inj' heq rfl
    rwa [← List.singleton_inj.mp hlast]
  · rw [List.concat_eq_append, ← List.cons_append, ← List.append_assoc] at heq
    exact h before attempt after (List.append_inj' heq rfl).1

section

variable {σ τ : Type} {service : Service σ τ}

/-- The rows were sent once, with one result or the other, or once in vain and then again. -/
theorem sendRows_cases {request : Request} {retries : Nat} {w w' : Writer τ} {r : Except EtlError Unit}
    (h : sendRows service dest request retries w = (r, w')) :
    (tryAppend service dest request w = (.ok (), w') ∧ r = .ok ()) ∨
    (∃ e e', tryAppend service dest request w = (.error e, w') ∧ r = .error e') ∨
    ∃ e w₁ left, tryAppend service dest request w = (.error e, w₁) ∧ retries = left + 1 ∧
      sendRows service dest request left w₁ = (r, w') := by
  unfold sendRows at h
  rcases htry : tryAppend service dest request w with ⟨(e | e) | _, w₁⟩
  · rw [htry] at h
    cases retries with
    | zero =>
      obtain ⟨rfl, rfl⟩ := Prod.mk.inj h
      exact .inr (.inl ⟨_, _, rfl, rfl⟩)
    | succ left => exact .inr (.inr ⟨_, w₁, left, rfl, rfl, h⟩)
  · rw [htry] at h
    obtain ⟨rfl, rfl⟩ := Prod.mk.inj h
    exact .inr (.inl ⟨_, _, rfl, rfl⟩)
  · rw [htry] at h
    obtain ⟨rfl, rfl⟩ := Prod.mk.inj h
    exact .inl ⟨rfl, rfl⟩

variable (hlaw : service.Lawful)


/-- A slice was sent, and may be in. -/
structure Trying (service : Service σ τ) (written part : List Bytes) (w : Writer τ) : Prop where
  held : Within written part (service.held w.stream)
  offsets : OffsetsKnown w.sent
  known : knownRows w.sent = written.length

/-- What was written is in, and nothing else. -/
structure Settled (service : Service σ τ) (written : List Bytes) (w : Writer τ) : Prop where
  held : service.held w.stream = written
  offsets : OffsetsKnown w.sent
  known : knownRows w.sent = written.length
  offset : w.offset = written.length

include hlaw

/-- An attempt that fails changes nothing that is known, one that succeeds has put the slice in. -/
theorem tryAppend_spec {written : List Bytes} {request : Request} (hpart : request.rows ≠ [])
    (hoffset : request.offset = written.length) {w w' : Writer τ} {answer : Except SendError Unit}
    (h : tryAppend service dest request w = (answer, w')) (hw : Trying service written request.rows w) :
    w'.offset = w.offset ∧ OffsetsKnown w'.sent ∧ Within written request.rows (service.held w'.stream) ∧
      match answer with
      | .ok () => service.held w'.stream = written ++ request.rows ∧
          knownRows w'.sent = written.length + request.rows.length
      | .error _ => knownRows w'.sent = written.length := by
  obtain ⟨a, hmeans, happend⟩ := hlaw.appended w.stream request
  unfold tryAppend at h
  obtain ⟨hanswer, rfl⟩ := Prod.mk.inj h
  refine ⟨rfl, hw.offsets.concat ?_, happend.within hpart hoffset hw.held, ?_⟩
  · rw [hw.known]
    exact hoffset
  · cases answer with
    | ok u =>
      refine ⟨happend.done hpart hoffset hw.held (readReply_ok hmeans hanswer), ?_⟩
      rw [knownRows_concat, hw.known, hanswer]
      rfl
    | error e =>
      show knownRows _ = _
      rw [knownRows_concat, hw.known, hanswer]
      rfl

/-- The slice is in when it was sent with success, and else it may be. -/
theorem sendRows_spec {written : List Bytes} {request : Request} (hpart : request.rows ≠ [])
    (hoffset : request.offset = written.length) (retries : Nat) {w w' : Writer τ} {r : Except EtlError Unit}
    (h : sendRows service dest request retries w = (r, w')) (hw : Trying service written request.rows w) :
    w'.offset = w.offset ∧ OffsetsKnown w'.sent ∧ Within written request.rows (service.held w'.stream) ∧
      (r = .ok () → service.held w'.stream = written ++ request.rows ∧
        knownRows w'.sent = written.length + request.rows.length) := by
  induction retries using Nat.strongRecOn generalizing w with
  | ind retries ih =>
    rcases sendRows_cases h with ⟨htry, rfl⟩ | ⟨e, e', htry, rfl⟩ | ⟨e, w₁, left, htry, hleft, hagain⟩
    · obtain ⟨hsame, hoffsets, hwithin, hdone⟩ := tryAppend_spec hlaw hpart hoffset htry hw
      exact ⟨hsame, hoffsets, hwithin, fun _ => hdone⟩
    · obtain ⟨hsame, hoffsets, hwithin, -⟩ := tryAppend_spec hlaw hpart hoffset htry hw
      exact ⟨hsame, hoffsets, hwithin, nofun⟩
    · obtain ⟨hsame, hoffsets, hwithin, hknown⟩ := tryAppend_spec hlaw hpart hoffset htry hw
      obtain ⟨hoffset', hrest⟩ := ih left (by omega) hagain ⟨hwithin, hoffsets, hknown⟩
      exact ⟨hoffset'.trans hsame, hrest⟩

end

/-! ### The rows of the batches -/

/-- A row of a batch. -/
abbrev Row := (batch : RecordBatch) × Fin batch.rows

def batchRows (batch : RecordBatch) : List Row := (List.finRange batch.rows).map fun row => ⟨batch, row⟩

/-- All the rows, in order. -/
def rowsOf (batches : List RecordBatch) : List Row := batches.flatMap batchRows

/-- The messages are those of the rows, one for each, in order. -/
def Encodes (nan : Ieee.Single → Ieee.Nan) (schema : List SchemaField) (rows : List Row) (held : List Bytes) : Prop :=
  List.Forall₂ (fun r bytes => ∃ fields, resolveFields schema = .ok fields ∧ encodeRow nan r.1 r.2 fields [] = .ok bytes)
    rows held

section

variable {σ τ : Type} {service : Service σ τ} (hlaw : service.Lawful) {nan : Ieee.Single → Ieee.Nan}
  {schema : List SchemaField} {fields : List FieldEnc} (hfields : resolveFields schema = .ok fields)
  {descriptor : Descriptor}

include hfields in
theorem encodeRows_encodes {batch : RecordBatch} {start finish : Nat} {serialized : List Bytes}
    (h : encodeRows nan batch fields start finish = .ok serialized) :
    Encodes nan schema (((batchRows batch).drop start).take (finish - start)) serialized := by
  have hall := Results.forall₂_of_mapM_eq_ok h
  unfold Encodes batchRows
  rw [← List.map_drop, ← List.map_take, List.forall₂_map_left_iff]
  exact hall.imp fun row bytes hrow => ⟨fields, hfields, hrow⟩

/-- The insert has kept its word: offsets, and a prefix of the rows; when it went well, all of them. -/
structure Kept (service : Service σ τ) (nan : Ieee.Single → Ieee.Nan) (schema : List SchemaField) (rows : List Row)
    (r : Slices.Outcome EtlError Unit) (w : Writer τ) : Prop where
  offsets : OffsetsKnown w.sent
  within : ∃ done, done <+: rows ∧ Encodes nan schema done (service.held w.stream)
  all : r = .ok () → Settled service (service.held w.stream) w ∧ Encodes nan schema rows (service.held w.stream)

include hlaw hfields

theorem writeBatch_spec {batch : RecordBatch} (before : List Row) {start : Nat} (hstart : start ≤ batch.rows)
    {written : List Bytes} {w w' : Writer τ} {r : Slices.Outcome EtlError Unit}
    (h : writeBatch service nan dest fields descriptor batch start w = (r, w')) (hw : Settled service written w)
    (hwritten : Encodes nan schema (before ++ (batchRows batch).take start) written) :
    Kept service nan schema (before ++ batchRows batch) r w' := by
  have hlength : (batchRows batch).length = batch.rows := by
    unfold batchRows
    rw [List.length_map, List.length_finRange]
  induction hleft : batch.rows - start using Nat.strongRecOn generalizing start w written with
  | ind left ih =>
    have hprefix : ∀ n, before ++ (batchRows batch).take n <+: before ++ batchRows batch := fun n =>
      (List.prefix_append_right_inj before).mpr (List.take_prefix n _)
    unfold writeBatch at h
    by_cases hmore : start < batch.rows
    · rw [if_pos hmore] at h
      have hfinish : start < min (start + storageWriteMaxRowsPerAppend) batch.rows := by
        unfold storageWriteMaxRowsPerAppend
        omega
      have hle : min (start + storageWriteMaxRowsPerAppend) batch.rows ≤ batch.rows := Nat.min_le_right _ _
      generalize min (start + storageWriteMaxRowsPerAppend) batch.rows = finish at h hfinish hle
      dsimp only at h
      cases hserialized : encodeRows nan batch fields start finish with
      | error e =>
        rw [hserialized] at h
        obtain ⟨rfl, rfl⟩ := Prod.mk.inj h
        exact ⟨hw.offsets, ⟨_, hprefix start, hw.held ▸ hwritten⟩, nofun⟩
      | ok serialized =>
        rw [hserialized] at h
        dsimp only at h
        have hslice := encodeRows_encodes hfields hserialized
        have hcount : serialized.length = finish - start := by
          rw [← hslice.length_eq, List.length_take, List.length_drop, hlength]
          omega
        have hpart : serialized ≠ [] := by
          intro hnil
          rw [hnil, List.length_nil] at hcount
          omega
        have hnext : Encodes nan schema (before ++ (batchRows batch).take finish) (written ++ serialized) := by
          have htake : (batchRows batch).take finish =
              (batchRows batch).take start ++ ((batchRows batch).drop start).take (finish - start) := by
            rw [← List.take_add]
            congr 1
            omega
          rw [htake, ← List.append_assoc]
          exact List.rel_append hwritten hslice
        obtain ⟨r₁, w₁, hsend⟩ : ∃ r₁ w₁, sendRows service dest ⟨descriptor, w.offset, serialized⟩ (maxInsertAttempts - 1)
            { w with totalBytes := w.totalBytes + (serialized.map List.length).sum } = (r₁, w₁) := ⟨_, _, rfl⟩
        obtain ⟨hoffset, hoffsets, hwithin, hdone⟩ := sendRows_spec hlaw hpart hw.offset _ hsend
          ⟨.inl hw.held, hw.offsets, hw.known⟩
        rw [hsend] at h
        cases r₁ with
        | error e =>
          obtain ⟨rfl, rfl⟩ := Prod.mk.inj h
          refine ⟨hoffsets, ?_, nofun⟩
          rcases hwithin with hheld | hheld
          · exact ⟨_, hprefix start, hheld ▸ hwritten⟩
          · exact ⟨_, hprefix finish, hheld ▸ hnext⟩
        | ok u =>
          obtain ⟨hheld, hknown⟩ := hdone rfl
          have hsettled : Settled service (written ++ serialized)
              { w₁ with offset := w₁.offset + (finish - start : Nat) } := by
            refine ⟨hheld, hoffsets, hknown.trans List.length_append.symm, ?_⟩
            show w₁.offset + (finish - start : Nat) = _
            rw [hoffset, hw.offset, List.length_append, hcount]
            omega
          exact ih (batch.rows - finish) (by omega) hle h hsettled hnext rfl
    · rw [if_neg hmore] at h
      obtain ⟨rfl, rfl⟩ := Prod.mk.inj h
      have hall : (batchRows batch).take start = batchRows batch := List.take_of_length_le (by omega)
      rw [hall, ← hw.held] at hwritten
      exact ⟨hw.offsets, ⟨_, List.prefix_refl _, hwritten⟩, fun _ => ⟨hw.held.symm ▸ hw, hwritten⟩⟩

theorem writeBatches_spec {batches : List RecordBatch} (before : List Row) {written : List Bytes} {w w' : Writer τ}
    {r : Slices.Outcome EtlError Unit} (h : writeBatches service nan dest fields descriptor batches w = (r, w'))
    (hw : Settled service written w) (hwritten : Encodes nan schema before written) :
    Kept service nan schema (before ++ rowsOf batches) r w' := by
  induction batches generalizing before written w with
  | nil =>
    obtain ⟨rfl, rfl⟩ := Prod.mk.inj h
    rw [← hw.held] at hwritten
    rw [rowsOf, List.flatMap_nil, List.append_nil]
    exact ⟨hw.offsets, ⟨_, List.prefix_refl _, hwritten⟩, fun _ => ⟨hw.held.symm ▸ hw, hwritten⟩⟩
  | cons batch batches ih =>
    have hrows : before ++ rowsOf (batch :: batches) = before ++ batchRows batch ++ rowsOf batches := by
      rw [rowsOf, List.flatMap_cons, ← List.append_assoc, rowsOf]
    rw [writeBatches] at h
    obtain ⟨r₁, w₁, hbatch⟩ : ∃ r₁ w₁, writeBatch service nan dest fields descriptor batch 0 w = (r₁, w₁) := ⟨_, _, rfl⟩
    have hkept := writeBatch_spec hlaw hfields before (Nat.zero_le _) hbatch hw
      (by rwa [List.take_zero, List.append_nil])
    rw [hbatch] at h
    rw [hrows]
    cases r₁ with
    | error e =>
      obtain ⟨rfl, rfl⟩ := Prod.mk.inj h
      obtain ⟨done, hdone, hencodes⟩ := hkept.within
      exact ⟨hkept.offsets, ⟨done, hdone.trans (List.prefix_append _ _), hencodes⟩, nofun⟩
    | ok u =>
      obtain ⟨hsettled, hencodes⟩ := hkept.all rfl
      exact ih _ h hsettled hencodes

end

/-- The rows that the stream holds; there are none where no stream was opened. -/
def Run.held {σ τ : Type} (run : Run τ) (service : Service σ τ) : List Bytes := (run.stream.map service.held).getD []

theorem openStream_held {σ τ : Type} {service : Service σ τ} (hlaw : service.Lawful) {resource : String} {retries : Nat}
    {s s' : σ} {stream : τ} (h : openStream service resource retries s = (.ok stream, s')) : service.held stream = [] := by
  induction retries generalizing s with
  | zero =>
    unfold openStream at h
    rcases hcreate : service.createWriteStream s with ⟨e | made, s₁⟩
    · rw [hcreate] at h
      cases h
    · rw [hcreate] at h
      cases h
      exact hlaw.created s stream s' hcreate
  | succ retries ih =>
    unfold openStream at h
    rcases hcreate : service.createWriteStream s with ⟨e | made, s₁⟩
    · rw [hcreate] at h
      dsimp only at h
      split_ifs at h
      · exact ih h
      · cases h
    · rw [hcreate] at h
      cases h
      exact hlaw.created s stream s' hcreate

theorem rowsOf_eq_nil {batches : List RecordBatch} (h : ∀ b ∈ batches, b.rows = 0) : rowsOf batches = [] := by
  refine List.flatMap_eq_nil_iff.mpr fun b hb => ?_
  rw [batchRows, List.map_eq_nil_iff, ← List.length_eq_zero_iff, List.length_finRange]
  exact h b hb

theorem resolveFields_of_prepare {schema : List SchemaField} {fields : List FieldEnc} {descriptor : Descriptor}
    (h : prepare schema = .ok (fields, descriptor)) : resolveFields schema = .ok fields := by
  obtain ⟨fields', hfields, h⟩ := Results.bind_eq_ok.mp h
  obtain ⟨descriptor', -, h⟩ := Results.bind_eq_ok.mp h
  cases h
  exact hfields

/-- An insert that succeeds leaves every row in the stream, once and in order, and one that fails a prefix of the rows; each
attempt is made at the number of rows known to be in. -/
theorem storage_write_exactly_once {σ τ : Type} {service : Service σ τ} (hlaw : service.Lawful)
    (nan : Ieee.Single → Ieee.Nan) (project : String) (dest : TableRef) (schema : List SchemaField)
    (batches : List RecordBatch) (s : σ) {run : Run τ}
    (hrun : insertBatchesStorageWrite service nan project dest schema batches s = run) :
    (∀ bytes, run.result = .ok bytes → Encodes nan schema (rowsOf batches) (run.held service)) ∧
      (∃ done, done <+: rowsOf batches ∧ Encodes nan schema done (run.held service)) ∧ OffsetsKnown run.sent := by
  have hnothing : ∃ done, done <+: rowsOf batches ∧ Encodes nan schema done [] := ⟨[], List.nil_prefix, .nil⟩
  have hunsent : OffsetsKnown [] := by
    intro before attempt after h
    cases before <;> cases h
  unfold insertBatchesStorageWrite at hrun
  by_cases hempty : batches.all (fun b => b.rows == 0)
  · rw [if_pos hempty] at hrun
    subst hrun
    have hrows : rowsOf batches = [] := rowsOf_eq_nil (by simpa using hempty)
    refine ⟨fun bytes _ => ?_, hnothing, hunsent⟩
    rw [hrows]
    exact .nil
  · rw [if_neg hempty] at hrun
    rcases hprepare : prepare schema with e | ⟨fields, descriptor⟩
    · rw [hprepare] at hrun
      subst hrun
      exact ⟨nofun, hnothing, hunsent⟩
    · have hfields := resolveFields_of_prepare hprepare
      rw [hprepare] at hrun
      dsimp only at hrun
      rcases hopen : openStream service ("projects/" ++ project ++ "/datasets/" ++ dest.dataset ++ "/tables/" ++ dest.table)
        (maxInsertAttempts - 1) s with ⟨e | stream, s₁⟩
      · rw [hopen] at hrun
        subst hrun
        exact ⟨nofun, hnothing, hunsent⟩
      · rw [hopen] at hrun
        have hheld := openStream_held hlaw hopen
        rcases hwrite : writeBatches service nan dest fields descriptor batches { stream } with ⟨r, w⟩
        have hkept := writeBatches_spec hlaw hfields [] hwrite ⟨hheld, hunsent, rfl, rfl⟩ .nil
        dsimp only at hrun
        rw [hwrite] at hrun
        rw [List.nil_append] at hkept
        rcases r with e | u
        · subst hrun
          exact ⟨nofun, hkept.within, hkept.offsets⟩
        · have hfinal := hlaw.finalized w.stream
          obtain ⟨-, hall⟩ := hkept.all rfl
          have hwithin := hkept.within
          rw [← hfinal] at hall hwithin
          dsimp only at hrun
          rcases hfinalize : service.finalize w.stream with ⟨e | rowCount, last⟩
          · rw [hfinalize] at hrun hall hwithin
            subst hrun
            exact ⟨fun _ _ => hall, hwithin, hkept.offsets⟩
          · rw [hfinalize] at hrun hall hwithin
            subst hrun
            exact ⟨fun _ _ => hall, hwithin, hkept.offsets⟩

/-- What becomes of an append at the end of the stream. -/
inductive Fate where
  | answered
  /-- It is committed, and the answer does not arrive. -/
  | lost
  | refused
  deriving DecidableEq, Repr

def unavailable : Status := ⟨.unavailable, "try again", "status: Unavailable"⟩

/-- A service whose appends go as planned. -/
def planned : Service (List Fate) (List Bytes × List Fate) where
  createWriteStream plan := (.ok ([], plan), plan)
  appendRows stream request :=
    if request.offset < stream.1.length then
      (.responses [{ response := some (.error ⟨rpcCodeAlreadyExists, "already there"⟩) }] none, stream)
    else if request.offset = stream.1.length then
      match stream.2 with
      | .lost :: plan => (.refused unavailable, (stream.1 ++ request.rows, plan))
      | .refused :: plan => (.refused unavailable, (stream.1, plan))
      | .answered :: plan => (.responses [{ response := some .appendResult }] none, (stream.1 ++ request.rows, plan))
      | [] => (.responses [{ response := some .appendResult }] none, (stream.1 ++ request.rows, []))
    else (.refused ⟨.outOfRange, "past the end", "status: OutOfRange"⟩, stream)
  finalize stream := (.ok stream.1.length, stream)
  held stream := stream.1

theorem means_acknowledged : Means (.responses [{ response := some .appendResult }] none) .committed := by
  refine .acknowledged ?_ ⟨_, List.mem_singleton_self _, rfl⟩
  intro m hm
  obtain rfl := List.mem_singleton.mp hm
  exact ⟨rfl, nofun⟩

theorem planned_lawful : planned.Lawful where
  created := by
    rintro plan stream plan' h
    cases h
    rfl
  appended := by
    rintro ⟨rows, plan⟩ request
    have hunavailable : Means (.refused unavailable) .failed := .refused nofun
    dsimp only [planned]
    by_cases hlow : request.offset < rows.length
    · rw [if_pos hlow]
      exact ⟨.exists, @Means.inBandExists [] _ _ _ _ nofun rfl rfl rfl, .exists hlow⟩
    · rw [if_neg hlow]
      by_cases hfits : request.offset = rows.length
      · rw [if_pos hfits]
        rcases plan with _ | ⟨_ | _ | _, plan⟩
        · exact ⟨.committed, means_acknowledged, .committed hfits⟩
        · exact ⟨.committed, means_acknowledged, .committed hfits⟩
        · exact ⟨.failed, hunavailable, .lost hfits⟩
        · exact ⟨.failed, hunavailable, .refused⟩
      · rw [if_neg hfits]
        exact ⟨.failed, .refused nofun, .refused⟩
  finalized := fun _ => rfl

theorem seven_signed : -2 ^ (64 - 1) ≤ (7 : Int) ∧ (7 : Int) < 2 ^ (64 - 1) := by decide

theorem paid_utf8 : "paid".utf8ByteSize < 2 ^ 31 := by decide

/-- Seven with a note, seven without one, and a row of NULLs. -/
def sevens : RecordBatch where
  rows := 3
  columns := [⟨.int64, fun i => if i.val < 2 then some ⟨7, seven_signed⟩ else none⟩, ⟨.timestampMicros, fun _ => none⟩,
    ⟨.utf8, fun i => if i.val < 1 then some ⟨"paid", paid_utf8⟩ else none⟩]

/-- The first append is committed and its answer lost, the first of the second batch is refused. -/
theorem planned_exactly_once :
    ∃ run, insertBatchesStorageWrite planned (fun _ => ⟨quietNan, quietNan_value⟩) "p" ⟨"d", "t"⟩ idAtNote
        [sevens, minusOne] [.lost, .refused, .answered] = run ∧ run.sent.length = 4 ∧
      Encodes (fun _ => ⟨quietNan, quietNan_value⟩) idAtNote (rowsOf [sevens, minusOne]) (run.held planned) := by
  refine ⟨_, rfl, by decide +kernel, ?_⟩
  obtain ⟨hall, -⟩ := storage_write_exactly_once planned_lawful (fun _ => ⟨quietNan, quietNan_value⟩) "p" ⟨"d", "t"⟩
    idAtNote [sevens, minusOne] [.lost, .refused, .answered] rfl
  exact hall 49 (by decide +kernel)

end Quickhouse.StorageWrite
