import Quickhouse.Lib.Text
import Quickhouse.Source.HttpApi

/-!
# Records from a CleverTap export

An export's pages are a chain of cursors: a page carries the cursor of the next, and the last carries none.  The loop
keeps the hashes of the cursors it has asked for.
-/

namespace Quickhouse

open Text

inductive PageStatus where
  | partially
  | success
  deriving DecidableEq, Repr

structure EventsPage where
  status : PageStatus
  /-- None where this page is the last. -/
  nextCursor : Option String
  records : List Json

inductive PageOutcome where
  | page (p : EventsPage)
  /-- Not an answer yet: the same cursor is asked for again. -/
  | retry (why : String)

/-- The server's answer to each attempt at a page, and how a body is read and shown. -/
structure CleverTapClient (β : Type) where
  urlError : String → Option String
  send : String → Nat → Except EtlError β
  parseJson : β → Except String Json
  render : Json → String
  head : β → String

def jsonTypeName : Json → String
  | .null => "null"
  | .bool _ => "a boolean"
  | .number _ => "a number"
  | .string _ => "a string"
  | .array _ => "an array"
  | .object _ => "an object"

namespace CleverTapClient

variable {β : Type} (client : CleverTapClient β)

/-- A page of this status: the next cursor under either key, and the records, which may be missing. -/
def pageOf (bytes : β) (v : Json) (status : PageStatus) : Except EtlError PageOutcome :=
  let nextCursor := ((v.get "next_cursor").or (v.get "cursor")).bind Json.asStr
  match v.get "records" with
  | none | some .null => .ok (.page ⟨status, nextCursor, []⟩)
  | some (.array items) => .ok (.page ⟨status, nextCursor, items⟩)
  | some value => .error (.other ("CleverTap events page: `records` is " ++ jsonTypeName value ++
      ", expected an array — body: " ++ client.head bytes))

/-- A `fail` body that asks to wait, or an error. -/
def failed (bytes : β) (v : Json) : Except EtlError PageOutcome :=
  let code := (v.get "code").bind Json.asU64
  let err := ((v.get "error").map client.render).getD "no error field"
  let shown := (code.map fun c => " (code=" ++ toString c ++ ")").getD ""
  if code = some 2 ∨ contains "too many requests" (asciiLower err).toList then .ok (.retry (err ++ shown))
  else .error (.other ("CleverTap events page failed: " ++ err ++ shown ++ " — body: " ++ client.head bytes))

def parseEventsPage (bytes : β) : Except EtlError PageOutcome :=
  match client.parseJson bytes with
  | .error e => .error (.other ("CleverTap events page: bad JSON: " ++ e))
  | .ok v =>
    match (v.get "status").bind Json.asStr with
    | some "partial" => client.pageOf bytes v .partially
    | some "success" => client.pageOf bytes v .success
    | some "fail" => client.failed bytes v
    | some other => .error (.other ("CleverTap events page: unexpected status '" ++ other ++ "'" ++
        ((v.get "code").map fun c => " (code=" ++ client.render c ++ ")").getD "" ++
        ((v.get "error").map fun e => " error=" ++ client.render e).getD "" ++ " — body: " ++ client.head bytes))
    | none => .error (.other ("CleverTap events page: missing status — body: " ++ client.head bytes))

def maxPageRetryAttempts : Nat := 8

/-- Attempt `attempt` at the page, with so many left after it. -/
def pageAttempts (url : String) : (left attempt : Nat) → Except EtlError EventsPage
  | left, attempt =>
    match client.send url attempt with
    | .error e => .error e
    | .ok bytes =>
      match client.parseEventsPage bytes with
      | .error e => .error e
      | .ok (.page p) => .ok p
      | .ok (.retry why) =>
        match left with
        | 0 => .error (.other ("CleverTap page still not ready after " ++ toString maxPageRetryAttempts ++
            " attempts: " ++ why))
        | left + 1 => pageAttempts url left (attempt + 1)

def nextPage (baseUrl cursor : String) : Except EtlError EventsPage :=
  let url := baseUrl ++ "/1/events.json?cursor=" ++ cursor
  match client.urlError url with
  | some e => .error (.config ("invalid CleverTap page URL for base_url '" ++ baseUrl ++ "': " ++ e))
  | none => client.pageAttempts url (maxPageRetryAttempts - 1) 1

end CleverTapClient

/-! ### The page loop -/

/-- What the loop has read, and why it is less than the export where it is. -/
structure ExportRead where
  pages : Nat := 0
  recordsTotal : Nat := 0
  records : List Json := []
  incomplete : Option String := none

structure CleverTapExport (η : Type) where
  baseUrl : String
  eventName : String
  cursorHash : String → η

namespace CleverTapExport

variable {β η : Type} [DecidableEq η] (job : CleverTapExport η) (client : CleverTapClient β)

/-- The page's records are taken before anything is said of the next cursor. -/
def take (r : ExportRead) (page : EventsPage) : ExportRead where
  pages := r.pages + 1
  recordsTotal := r.recordsTotal + page.records.length
  records := r.records ++ page.records
  incomplete :=
    if page.status = .partially ∧ r.incomplete = none then
      some ("CleverTap export for '" ++ job.eventName ++ "' returned a page with status \"partial\" on page " ++
        toString (r.pages + 1) ++ ", a status this API is not documented to send. Treat the export as a contract " ++
        "change and verify the record count against the vendor.")
    else r.incomplete

def stopped (r : ExportRead) : ExportRead :=
  { r with incomplete := some ("CleverTap export for '" ++ job.eventName ++ "' stopped after " ++ toString r.pages ++
      " page(s) and " ++ toString r.recordsTotal ++ " record(s): the vendor returned a cursor already fetched, so " ++
      "the chain was not advancing. The destination holds fewer records than the source has.") }

def single (r : ExportRead) : ExportRead :=
  if r.pages = 1 ∧ 0 < r.recordsTotal ∧ r.incomplete = none then
    { r with incomplete := some ("CleverTap export for '" ++ job.eventName ++ "' ended after a single page (" ++
        toString r.recordsTotal ++ " record(s)). For a busy event that is the signature of a paging failure rather " ++
        "than a quiet day; verify against the vendor's own count before trusting this run.") }
  else r

/-- The loop, with the cursors it asked for; none where it still runs when the fuel is used up. -/
def exportFrom : Nat → List η → String → ExportRead → Option (List String × Except EtlError ExportRead)
  | 0, _, _, _ => none
  | fuel + 1, seen, cursor, r =>
    match client.nextPage job.baseUrl cursor with
    | .error e => some ([cursor], .error e)
    | .ok page =>
      match page.nextCursor with
      | none => some ([cursor], .ok (job.take r page))
      | some next =>
        if job.cursorHash next ∈ seen then some ([cursor], .ok (job.stopped (job.take r page)))
        else
          (exportFrom fuel (job.cursorHash next :: seen) next (job.take r page)).map fun rest =>
            (cursor :: rest.1, rest.2)

def readExport (fuel : Nat) (cursor : String) : Option (List String × Except EtlError ExportRead) :=
  (job.exportFrom client fuel [job.cursorHash cursor] cursor {}).map fun out => (out.1, out.2.map job.single)

def recordsOf (cursor : String) : List Json :=
  match client.nextPage job.baseUrl cursor with
  | .ok page => page.records
  | .error _ => []

def nextOf (cursor : String) : Option String :=
  match client.nextPage job.baseUrl cursor with
  | .ok page => page.nextCursor
  | .error _ => none

end CleverTapExport
end Quickhouse
