import Mathlib.Logic.Function.Basic
import Quickhouse.Sink.CsvTable

/-!
# From staging into the destination's folder

An append moves the staged parts into the destination's folder, one rename each, and then replaces its manifest; what
was moved is moved back where a step fails.  A full refresh swaps the two folders.
-/

namespace Quickhouse

variable {γ : Type}

/-- A folder: its manifest, or why that file is not one, and the other files with what they hold. -/
structure Dir (γ : Type) where
  manifest : Option (Except String Manifest) := none
  files : List (String × γ) := []

/-- What is at a path. -/
inductive Entry (γ : Type) where
  | file
  | dir (d : Dir γ)

/-- The paths that a promotion renames between. -/
inductive Place where
  | dest
  | staging
  | aside
  deriving DecidableEq, Repr

/-- What is at each of them. -/
abbrev Root (γ : Type) := Place → Option (Entry γ)

structure PromoteCtx where
  cfg : CsvDestConfig
  root : String
  path : Place → String
  /-- The temporary file of this manifest write. -/
  tmp : String

inductive WriteStep where
  | create
  | write
  | sync
  | replace
  deriving DecidableEq, Repr

inductive WriteFault where
  | serialize (e : String)
  | step (s : WriteStep) (e : String)

/-- What fails, and the text of its error. -/
structure PromoteFaults where
  lock : Option String := none
  metadata : Option String := none
  read : Option String := none
  list : Option String := none
  movePart : String → Option String := fun _ => none
  undoMove : String → Option String := fun _ => none
  manifest : Option WriteFault := none
  intoPlace : Option String := none
  exchange : Option String := none
  moveAside : Option String := none
  moveIn : Option String := none
  moveBack : Option String := none
  moveOld : Option String := none
  removeAside : Option String := none

def ioError (action path e : String) : EtlError :=
  .other ("csv destination: could not " ++ action ++ " '" ++ path ++ "': " ++ e)

def manifestFile : String := "_quickhouse_manifest.json"

def PromoteCtx.manifestPath (ctx : PromoteCtx) : String := ctx.path .dest ++ "/" ++ manifestFile

/-! ### Reading the destination's folder -/

inductive Folder where
  | missing
  | empty
  | table (m : Manifest)
  deriving DecidableEq, Repr

/-- A folder of files without a manifest is someone else's. -/
def readFolder (ctx : PromoteCtx) (faults : PromoteFaults) (entry : Option (Entry γ)) : Except EtlError Folder :=
  match faults.metadata, entry with
  | some e, _ => .error (ioError "read" (ctx.path .dest) e)
  | none, none => .ok .missing
  | none, some .file =>
    .error (.config ("'" ++ ctx.path .dest ++ "' is a file, where the CSV destination keeps a table's folder"))
  | none, some (.dir d) =>
    match faults.read, d.manifest with
    | some e, _ => .error (ioError "read" ctx.manifestPath e)
    | none, some (.error e) =>
      .error (.other ("csv destination: '" ++ ctx.manifestPath ++ "' is not a manifest quickhouse can read (" ++ e ++
        "); restore it, or remove the folder to start the table over"))
    | none, some (.ok m) =>
      if m.format ≠ manifestFormat ∨ manifestVersion < m.version then
        .error (.other ("csv destination: '" ++ ctx.manifestPath ++ "' is a " ++ stringDebug m.format ++
          " manifest, version " ++ toString m.version ++ ", which this quickhouse can't write to"))
      else .ok (.table m)
    | none, none =>
      match faults.list with
      | some e => .error (ioError "list" (ctx.path .dest) e)
      | none =>
        if d.files.isEmpty then .ok .empty
        else .error (.config ("'" ++ ctx.path .dest ++ "' holds files but no " ++ manifestFile ++
          ", so quickhouse didn't write it and won't replace or add to it. Move it away, or pick another dest_table"))

/-! ### The manifest is replaced in one step -/

/-- The folder during a write of its manifest; a temporary file may hold a part of it, or all. -/
structure Written (γ : Type) where
  result : Except EtlError Unit
  dir : Dir γ
  tmp : Option (Option Manifest)

def writeSteps (ctx : PromoteCtx) (fault : Option (WriteStep × String)) (m : Manifest) (d : Dir γ) : Written γ :=
  match fault with
  | some (.create, e) => ⟨.error (ioError "create" ctx.tmp e), d, none⟩
  | some (.write, e) => ⟨.error (ioError "write" ctx.tmp e), d, some none⟩
  | some (.sync, e) => ⟨.error (ioError "sync" ctx.tmp e), d, some (some m)⟩
  | some (.replace, e) => ⟨.error (ioError "replace" ctx.manifestPath e), d, some (some m)⟩
  | none => ⟨.ok (), { d with manifest := some (.ok m) }, none⟩

/-- A failed write takes its temporary file with it. -/
def writeAtomic (ctx : PromoteCtx) (fault : Option (WriteStep × String)) (m : Manifest) (d : Dir γ) : Written γ :=
  let w := writeSteps ctx fault m d
  match w.result with
  | .ok () => w
  | .error _ => { w with tmp := none }

def writeManifest (ctx : PromoteCtx) (fault : Option WriteFault) (m : Manifest) (d : Dir γ) : Written γ :=
  match fault with
  | some (.serialize e) => ⟨.error (.internal ("csv destination: manifest: " ++ e)), d, none⟩
  | some (.step s e) => writeAtomic ctx (some (s, e)) m d
  | none => writeAtomic ctx none m d

/-- The old manifest or the new one, and no temporary file. -/
theorem writeManifest_cases (ctx : PromoteCtx) (fault : Option WriteFault) (m : Manifest) (d : Dir γ) :
    (writeManifest ctx fault m d).tmp = none ∧
      ((∃ e, (writeManifest ctx fault m d).result = .error e ∧ (writeManifest ctx fault m d).dir = d) ∨
        (writeManifest ctx fault m d).result = .ok () ∧
          (writeManifest ctx fault m d).dir = { d with manifest := some (.ok m) }) := by
  cases fault with
  | none => exact ⟨rfl, Or.inr ⟨rfl, rfl⟩⟩
  | some fault =>
    cases fault with
    | serialize e => exact ⟨rfl, Or.inl ⟨_, rfl, rfl⟩⟩
    | step s e => cases s <;> exact ⟨rfl, Or.inl ⟨_, rfl, rfl⟩⟩

/-! ### Appending -/

namespace Dir

def has (d : Dir γ) (name : String) : Bool :=
  d.files.any (fun f => f.1 = name) || (name = manifestFile && d.manifest.isSome)

def add (d : Dir γ) (name : String) (content : γ) : Dir γ := { d with files := (name, content) :: d.files }

def remove (d : Dir γ) (name : String) : Dir γ := { d with files := d.files.filter fun f => f.1 ≠ name }

end Dir

/-- What the system says of a path that is not there. -/
def notFound : String := "No such file or directory (os error 2)"

/-- The staging folder and the destination's. -/
abbrev Dirs (γ : Type) := Dir γ × Dir γ

def movePart (ctx : PromoteCtx) (faults : PromoteFaults) (name : String) (s : Dirs γ) : Except EtlError (Dirs γ) :=
  let path := ctx.path .dest ++ "/" ++ name
  if s.2.has name then .error (.other ("csv destination: '" ++ path ++ "' exists already"))
  else
    match faults.movePart name, s.1.files.lookup name with
    | some e, _ => .error (ioError "move into place" path e)
    | none, none => .error (ioError "move into place" path notFound)
    | none, some content => .ok (s.1.remove name, s.2.add name content)

/-- A part goes back; that it does not is passed over. -/
def undoMove (faults : PromoteFaults) (s : Dirs γ) (name : String) : Dirs γ :=
  match faults.undoMove name, s.2.files.lookup name with
  | none, some content => (s.1.add name content, s.2.remove name)
  | _, _ => s

def undo (faults : PromoteFaults) (moved : List String) (s : Dirs γ) : Dirs γ :=
  moved.reverse.foldl (undoMove faults) s

/-- Every part is moved, or those that were are moved back. -/
def moveParts (ctx : PromoteCtx) (faults : PromoteFaults) (moved : List String) :
    List PartInfo → Dirs γ → Except EtlError (List String) × Dirs γ
  | [], s => (.ok moved, s)
  | p :: parts, s =>
    match movePart ctx faults p.file s with
    | .error e => (.error e, undo faults moved s)
    | .ok s' => moveParts ctx faults (moved ++ [p.file]) parts s'

def layoutError (path : String) (diffs : List String) : EtlError :=
  .config ("can't append to '" ++ path ++ "': " ++ "; ".intercalate diffs ++ ". Every part in a CSV table's folder " ++
    "shares one column layout and format, so readers can read the folder as one table, and evolve_schema isn't " ++
    "supported for a CSV destination. Run mode=\"full\" once to rewrite the folder with this run's columns, or " ++
    "append to a new dest_table")

/-- A manifest that names no column takes those of the staged parts; another is to have their layout. -/
def checkLayout (ctx : PromoteCtx) (staged target : Manifest) : Except EtlError Manifest :=
  if target.columns.isEmpty then .ok { target with columns := staged.columns }
  else
    let diffs := layoutDifferences target staged.names ctx.cfg
    if diffs.isEmpty then .ok target else .error (layoutError (ctx.path .dest) diffs)

/-- The manifest the staged parts are added to. -/
def appendTarget (ctx : PromoteCtx) (staged : Manifest) : Folder → Except EtlError Manifest
  | .table m => checkLayout ctx staged m
  | .empty => checkLayout ctx staged (Manifest.new ctx.cfg staged.columns [])
  | .missing => .error (.other ("csv destination: '" ++ ctx.path .dest ++ "' disappeared while the run read"))

def Manifest.append (m : Manifest) (parts : List PartInfo) : Manifest :=
  { m with parts := m.parts ++ parts, rows := ((m.parts ++ parts).map (·.rows)).sum }

/-- The folder at a path, for the steps that go through it by name. -/
def Entry.asDir : Option (Entry γ) → Dir γ
  | some (.dir d) => d
  | _ => {}

def Root.setDirs (r : Root γ) (s : Dirs γ) : Root γ
  | .staging => some (.dir s.1)
  | .dest => some (.dir s.2)
  | .aside => r .aside

def CsvSink.insertSelect (ctx : PromoteCtx) (faults : PromoteFaults) (staged : Manifest) (r : Root γ) :
    Except EtlError Unit × Root γ :=
  match faults.lock with
  | some e => (.error (ioError "create" ctx.root e), r)
  | none =>
    match (readFolder ctx faults (r .dest)).bind (appendTarget ctx staged) with
    | .error e => (.error e, r)
    | .ok target =>
      match moveParts ctx faults [] staged.parts (Entry.asDir (r .staging), Entry.asDir (r .dest)) with
      | (.error e, s) => (.error e, r.setDirs s)
      | (.ok moved, s) =>
        let w := writeManifest ctx faults.manifest (target.append staged.parts) s.2
        match w.result with
        | .error e => (.error e, r.setDirs (undo faults moved (s.1, w.dir)))
        | .ok () => (.ok (), r.setDirs (s.1, w.dir))

/-! ### Swapping -/

/-- Only an empty folder gives way to what is renamed to its path. -/
def Entry.givesWay : Option (Entry γ) → Bool
  | none => true
  | some .file => false
  | some (.dir d) => d.files.isEmpty && d.manifest.isNone

def rename (fault : Option String) (a b : Place) (r : Root γ) : Except String (Root γ) :=
  match fault, r a with
  | some e, _ => .error e
  | none, none => .error notFound
  | none, some x =>
    if Entry.givesWay (r b) then .ok (Function.update (Function.update r b (some x)) a none)
    else .error "Directory not empty (os error 39)"

/-- `dest` aside, `staging` into its place, and the old folder to `staging`'s path. -/
def swapDirsByRenames (ctx : PromoteCtx) (faults : PromoteFaults) (r : Root γ) : Except EtlError Unit × Root γ :=
  match rename faults.moveAside .dest .aside r with
  | .error e => (.error (ioError "move aside" (ctx.path .dest) e), r)
  | .ok r₁ =>
    match rename faults.moveIn .staging .dest r₁ with
    | .error e =>
      let failed := "csv destination: could not move '" ++ ctx.path .staging ++ "' into place (" ++ e ++ "); "
      match rename faults.moveBack .aside .dest r₁ with
      | .ok r₂ => (.error (.other (failed ++ "the old folder is back in place")), r₂)
      | .error u =>
        (.error (.other (failed ++ "and moving the old folder back failed too (" ++ u ++ "): it is at '" ++
          ctx.path .aside ++ "'")), r₁)
    | .ok r₂ =>
      match rename faults.moveOld .aside .staging r₂ with
      | .ok r₃ => (.ok (), r₃)
      | .error _ =>
        -- only a warning: the old folder is removed where it is
        (.ok (), if faults.removeAside.isSome then r₂ else Function.update r₂ .aside none)

def swapDirs (ctx : PromoteCtx) (faults : PromoteFaults) (r : Root γ) : Except EtlError Unit × Root γ :=
  match r .dest with
  | none =>
    match rename faults.intoPlace .staging .dest r with
    | .error e => (.error (ioError "move into place" (ctx.path .staging) e), r)
    | .ok r' => (.ok (), r')
  | some old =>
    match faults.exchange, r .staging with
    | none, some new => (.ok (), Function.update (Function.update r .dest (some new)) .staging (some old))
    | _, _ => swapDirsByRenames ctx faults r

def CsvSink.atomicSwap (ctx : PromoteCtx) (faults : PromoteFaults) (r : Root γ) : Except EtlError Unit × Root γ :=
  match faults.lock with
  | some e => (.error (ioError "create" ctx.root e), r)
  | none =>
    match readFolder ctx faults (r .dest) with
    | .error e => (.error e, r)
    | .ok _ => swapDirs ctx faults r

end Quickhouse
