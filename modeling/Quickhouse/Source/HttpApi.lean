import Mathlib.Data.List.SplitOn
import Quickhouse.Error

/-!
# Records from an HTTP API

One request a page: the records are at a path of the JSON body, and the cursor of the next page at another.  A CSV body
is all there is.
-/

namespace Quickhouse

/-! ### JSON -/

/-- A whole number that is not negative, or how another is written. -/
inductive JsonNumber where
  | unsigned (n : Nat)
  | written (text : String)
  deriving DecidableEq, Repr

def JsonNumber.text : JsonNumber → String
  | .unsigned n => toString n
  | .written text => text

inductive Json where
  | null
  | bool (b : Bool)
  | number (n : JsonNumber)
  | string (s : String)
  | array (items : List Json)
  | object (fields : List (String × Json))

namespace Json

def get (v : Json) (key : String) : Option Json :=
  match v with
  | .object fields => fields.lookup key
  | _ => none

def asStr : Json → Option String
  | .string s => some s
  | _ => none

def asU64 : Json → Option Nat
  | .number (.unsigned n) => some n
  | _ => none

end Json

/-- The value at a dotted path; at the empty one, the value itself. -/
def resolvePath (v : Json) (path : String) : Option Json :=
  if path = "" then some v
  else (path.toList.splitOn '.').foldlM (fun cur seg => cur.get (String.ofList seg)) v

/-- The records of a body: an array's items, or a value that is not one on its own. -/
def extractRecords (body : Json) (recordsPath : Option String) : List Json :=
  match resolvePath body (recordsPath.getD "") with
  | none => []
  | some (.array items) => items
  | some .null => []
  | some value => [value]

/-- The cursor at a path: a string that is not empty, or a number as it is written. -/
def extractCursor (body : Json) (path : String) : Option String :=
  match resolvePath body path with
  | some (.string s) => if s = "" then none else some s
  | some (.number n) => some n.text
  | _ => none

/-! ### The requests -/

def substituteDates (template first last : String) : String :=
  (template.replace "\x7bfrom\x7d" first).replace "\x7bto\x7d" last

structure HttpRequest where
  url : String
  body : Option String
  /-- The cursor's parameter. -/
  query : Option (String × String)
  deriving DecidableEq, Repr

/-- The server's answers, retries past, and how a body is read. -/
structure HttpClient (β : Type) where
  send : HttpRequest → Except EtlError β
  parseJson : β → Except String Json
  csvRecords : β → List String → Except EtlError (List Json)

inductive HttpFormat where
  | csv
  | json (recordsPath : Option String)
  deriving DecidableEq, Repr

structure HttpApiSource where
  url : String
  body : Option String
  format : HttpFormat
  nextCursorPath : Option String
  cursorParam : Option String
  deriving DecidableEq, Repr

namespace HttpApiSource

variable {β : Type} (src : HttpApiSource) (client : HttpClient β) (first last : String)
  (expectedHeaders : List String)

def request (cursor : Option String) : HttpRequest where
  url := substituteDates src.url first last
  body := src.body.map fun b => substituteDates b first last
  query :=
    match src.cursorParam, cursor with
    | some param, some c => some (param, c)
    | _, _ => none

/-- The records of the cursor's page, and the cursor of the next if the pages are followed. -/
def fetchPage (cursor : Option String) : Except EtlError (List Json × Option String) :=
  match client.send (src.request first last cursor) with
  | .error e => .error e
  | .ok bytes =>
    match src.format with
    | .csv => (client.csvRecords bytes expectedHeaders).map fun records => (records, none)
    | .json recordsPath =>
      match client.parseJson bytes with
      | .error e => .error (.other ("HTTP JSON parse: " ++ e))
      | .ok v => .ok (extractRecords v recordsPath,
          match src.nextCursorPath, src.cursorParam with
          | some path, some _ => extractCursor v path
          | _, _ => none)

/-- The loop, with the cursors it asked for; none where it still runs when the fuel is used up. -/
def fetchFrom : Nat → Option String → List Json → Option (List (Option String) × Except EtlError (List Json))
  | 0, _, _ => none
  | fuel + 1, cursor, out =>
    match src.fetchPage client first last expectedHeaders cursor with
    | .error e => some ([cursor], .error e)
    | .ok (records, next) =>
      match next with
      | some next =>
        -- the guard looks at the cursor of this page only
        if some next ≠ cursor then
          (fetchFrom fuel (some next) (out ++ records)).map fun rest => (cursor :: rest.1, rest.2)
        else some ([cursor], .ok (out ++ records))
      | none => some ([cursor], .ok (out ++ records))

def fetchRecords (fuel : Nat) : Option (List (Option String) × Except EtlError (List Json)) :=
  src.fetchFrom client first last expectedHeaders fuel none []

/-- The page's records, and the cursor it leads to. -/
def recordsOf (cursor : Option String) : List Json :=
  match src.fetchPage client first last expectedHeaders cursor with
  | .ok (records, _) => records
  | .error _ => []

def nextOf (cursor : Option String) : Option (Option String) :=
  match src.fetchPage client first last expectedHeaders cursor with
  | .ok (_, some next) => some (some next)
  | _ => none

end HttpApiSource
end Quickhouse
