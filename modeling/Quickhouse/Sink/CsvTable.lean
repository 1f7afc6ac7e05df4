import Quickhouse.Sink.CsvWriter

/-!
# A CSV table's folder

A table is a folder of part files and a manifest that lists them, with the columns and the format they share.
-/

namespace Quickhouse

/-- One finished part, as the manifest lists it. -/
structure PartInfo where
  file : String
  rows : Nat
  bytes : Nat
  deriving DecidableEq, Repr

structure ManifestColumn where
  name : String
  arrowType : String
  deriving DecidableEq, Repr

structure Manifest where
  format : String
  version : Nat
  columns : List ManifestColumn
  delimiter : String
  header : Bool
  compression : Option String
  /-- The rows of all parts. -/
  rows : Nat
  parts : List PartInfo
  deriving DecidableEq, Repr

/-- Where to write, and how; a delimiter that cannot frame a field and parts without rows are refused. -/
structure CsvDestConfig where
  delimiter : UInt8
  header : Bool
  compression : CsvCompression
  maxRowsPerFile : Nat
  delimiter_ok : checkDelimiter delimiter = .ok ()
  maxRowsPerFile_pos : 0 < maxRowsPerFile

def CsvCompression.label : CsvCompression → Option String
  | .none => Option.none
  | .gzip => some "gzip"

def manifestFormat : String := "quickhouse-csv"
def manifestVersion : Nat := 1

namespace CsvDestConfig

def partFormat (cfg : CsvDestConfig) : PartFormat := ⟨cfg.delimiter, cfg.header, cfg.compression⟩

def delimiterText (cfg : CsvDestConfig) : String := String.singleton (Char.ofNat cfg.delimiter.toNat)

end CsvDestConfig

namespace Manifest

def new (cfg : CsvDestConfig) (columns : List ManifestColumn) (parts : List PartInfo) : Manifest where
  format := manifestFormat
  version := manifestVersion
  columns
  delimiter := cfg.delimiterText
  header := cfg.header
  compression := cfg.compression.label
  rows := (parts.map (·.rows)).sum
  parts

def names (m : Manifest) : List String := m.columns.map (·.name)

end Manifest

/-! ### The layout of a folder and of a run -/

def pyBool (b : Bool) : String := if b then "True" else "False"

def pyOpt (s : Option String) : String := (s.map stringDebug).getD "None"

/-- How the columns differ: one is missing, one is new, or their order is another. -/
def columnDifferences (have_ names : List String) : List String :=
  let missing := have_.filter fun c => !names.contains c
  let added := names.filter fun c => !have_.contains c
  if have_ = names then []
  else
    (if missing.isEmpty then [] else
      ["this run doesn't write column(s) " ++ ", ".intercalate missing ++ " that the folder's parts have"]) ++
    (if added.isEmpty then [] else
      ["this run writes column(s) " ++ ", ".intercalate added ++ " that the folder's parts don't have"]) ++
    if missing.isEmpty && added.isEmpty then
      ["the columns are in another order: the folder's parts have [" ++ ", ".intercalate have_ ++
        "], this run writes [" ++ ", ".intercalate names ++ "]"]
    else []

/-- How the folder of `m` differs from what a run writes; nothing where an append can add parts. -/
def layoutDifferences (m : Manifest) (names : List String) (cfg : CsvDestConfig) : List String :=
  columnDifferences m.names names ++
    (if m.delimiter = cfg.delimiterText then [] else
      ["the folder's parts use delimiter " ++ stringDebug m.delimiter ++ " and this run " ++
        stringDebug cfg.delimiterText]) ++
    (if m.header = cfg.header then [] else
      ["the folder's parts were written with header=" ++ pyBool m.header ++ " and this run has header=" ++
        pyBool cfg.header]) ++
    if m.compression = cfg.compression.label then [] else
      ["the folder's parts have compression=" ++ pyOpt m.compression ++ " and this run compression=" ++
        pyOpt cfg.compression.label]

/-- No difference is overlooked: without one the columns and the format are the run's. -/
theorem layoutDifferences_eq_nil {m : Manifest} {names : List String} {cfg : CsvDestConfig} :
    layoutDifferences m names cfg = [] ↔
      m.names = names ∧ m.delimiter = cfg.delimiterText ∧ m.header = cfg.header ∧
        m.compression = cfg.compression.label := by
  have hcolumns : columnDifferences m.names names = [] ↔ m.names = names := by
    unfold columnDifferences
    constructor
    · intro h
      by_contra hne
      simp only [hne, if_false, List.append_eq_nil_iff, ite_eq_left_iff, List.cons_ne_nil, imp_false,
        Bool.not_eq_true, Bool.not_eq_false, ite_eq_right_iff, Bool.and_eq_true, not_and] at h
      exact Bool.false_ne_true ((h.2 h.1.1).symm.trans h.1.2)
    · intro h
      simp [h]
  unfold layoutDifferences
  simp only [List.append_eq_nil_iff, ite_eq_left_iff, List.cons_ne_nil, imp_false, not_not, hcolumns, and_assoc]

end Quickhouse
