import Quickhouse.Config
import Quickhouse.Lib.Results
import Quickhouse.Lib.Text

/-!
# The select plan

`planForDestination` decides which source columns a transfer reads and under which names they land.  The types
of the columns are not modelled: the checks here are the ones on names.
-/

namespace Quickhouse

open Text Results

/-- What a run reads and where it lands: the lists are parallel. -/
structure SelectPlan where
  sourceColumns : List String
  sourceSelectExprs : List (Option String)
  destColumns : List String

namespace TransferConfig

open TransferConfig

/-- The source columns of the transfer: the allowlist, less the denylist. -/
def included (cfg : TransferConfig) (source : List String) : List String :=
  (source.filter (fun c => cfg.include.isEmpty || cfg.include.contains c)).filter
    (fun c => !cfg.exclude.contains c)

/-- How a destination compares the names of its columns. -/
def sameColumn (dest : DestKind) (a b : String) : Bool :=
  match dest with
  | .bigQuery => asciiLower a = asciiLower b
  | .clickHouse | .csv => a = b

private def missingKeyMessage (source : List String) (cfg : TransferConfig) (destColumns : List String)
    (k : String) : String :=
  let inSource := source.contains k
  let leftOut := (!cfg.include.isEmpty && !cfg.include.contains k) || cfg.exclude.contains k
  let why :=
    if inSource && leftOut then ": the source has it, but include/exclude leaves it out"
    else match cfg.rename.get k with
      | some renamed =>
        if inSource then ": rename turns source column '" ++ k ++ "' into '" ++ renamed ++
          "', and key takes the destination name, so use '" ++ renamed ++ "'"
        else ""
      | none => ""
  "key column '" ++ k ++ "' is not a destination column" ++ why ++
    ". key names columns as the destination has them, after rename/include/exclude; this transfer writes: " ++
    ", ".intercalate destColumns

/-- Every key column must be among the columns the transfer writes. -/
def ensureKeyColumns (source : List String) (cfg : TransferConfig) (dest : DestKind)
    (destColumns : List String) : Except String Unit :=
  match cfg.key.find? (fun k => !destColumns.any (fun c => sameColumn dest c k)) with
  | some k => .error (missingKeyMessage source cfg destColumns k)
  | none => .ok ()

/-- The first entry that a check refuses, if any. -/
def refuseFirst {α : Type} (entries : List α) (bad : α → Bool) (message : α → String) : Except String Unit :=
  match entries.find? bad with
  | some e => .error (message e)
  | none => .ok ()

def planForDestination (source : List String) (cfg : TransferConfig) (dest : DestKind) :
    Except String SelectPlan := do
  let columns := cfg.included source
  refuse (columns = []) "column selection (include/exclude) left no columns to transfer"
  refuseFirst cfg.include (fun want => !source.contains want)
    (fun want => "include column '" ++ want ++ "' not found in source")
  refuseFirst cfg.columnTransforms.entries (fun e => !columns.contains e.1 || isBlank e.2)
    (fun e => if columns.contains e.1 then "column_transforms['" ++ e.1 ++ "'] is an empty expression"
      else "column_transforms references column '" ++ e.1 ++ "', which isn't in the transferred set " ++
        "(check the name, and that it isn't excluded / left out of include)")
  refuseFirst cfg.columnTransformTypes.entries (fun e => (cfg.columnTransforms.get e.1).isNone)
    (fun e => "column_transform_types['" ++ e.1 ++ "'] has no matching column_transforms['" ++ e.1 ++
      "'] entry — a decode-type override only makes sense paired with a value transform " ++
      "that changes what's actually sent on the wire")
  let plan : SelectPlan := {
    sourceColumns := columns
    sourceSelectExprs := columns.map cfg.columnTransforms.get
    destColumns := columns.map cfg.landed }
  ensureKeyColumns source cfg dest plan.destColumns
  pure plan

/-- A plan writes the included columns under their landed names, the key columns among them. -/
theorem planForDestination_eq_ok {source : List String} {cfg : TransferConfig} {dest : DestKind}
    {plan : SelectPlan} (h : planForDestination source cfg dest = .ok plan) :
    plan.destColumns = (cfg.included source).map cfg.landed ∧
      ∀ k ∈ cfg.key, ∃ c ∈ plan.destColumns, sameColumn dest c k = true := by
  unfold planForDestination at h
  obtain ⟨-, -, h⟩ := bind_eq_ok.mp h
  obtain ⟨-, -, h⟩ := bind_eq_ok.mp h
  obtain ⟨-, -, h⟩ := bind_eq_ok.mp h
  obtain ⟨-, -, h⟩ := bind_eq_ok.mp h
  obtain ⟨_, hkey, h⟩ := bind_eq_ok.mp h
  obtain rfl := Except.ok.inj h
  refine ⟨rfl, fun k hk => ?_⟩
  unfold ensureKeyColumns at hkey
  split at hkey
  · cases hkey
  · rename_i hnone
    have := List.find?_eq_none.mp hnone k hk
    simpa using this

end TransferConfig

end Quickhouse
