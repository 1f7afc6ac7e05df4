import Quickhouse.Error
import Quickhouse.Lib.Sql
import Quickhouse.Lib.Text
import Quickhouse.Source.Keyset
import Quickhouse.Window

/-!
# Range partitions

A read runs in parallel over ranges of an integer key.  One probe finds the least and the greatest key, the range
between them is cut into at most as many parts as there are readers, and the rows whose key is NULL get a part of
their own.  Where the read starts above a cursor, the parts do too: no row with a NULL key is read then, and no part is
made for them (`partitions_exact`, `null_key_left_out`).
-/

namespace Quickhouse

/-! ### The parts of a range -/

/-- The condition of a part.  The bounds are the texts pasted into the statement. -/
inductive KeyCond where
  | between (key start finish : String)
  | isNull (key : String)
  deriving DecidableEq, Repr

def KeyCond.sql : KeyCond → String
  | .between key start finish => key ++ " >= " ++ start ++ " AND " ++ key ++ " <= " ++ finish
  | .isNull key => key ++ " IS NULL"

/-- The rows a `WHERE` with the condition admits, by their key. -/
def KeyCond.holds (key : Option Int) : KeyCond → Bool
  | .between _ start finish => Sql.between3 key (literalValue start) (literalValue finish) == some true
  | .isNull _ => key.isNone

structure KeyPartition where
  label : String
  cond : Option KeyCond
  deriving DecidableEq, Repr

def KeyPartition.partition (p : KeyPartition) : Partition := { label := p.label, predicate := p.cond.map KeyCond.sql }

def KeyPartition.selects (p : KeyPartition) (key : Option Int) : Bool := p.cond.all (KeyCond.holds key)

/-- The loop: parts of `step` keys from `start` on, the last one cut at `hi`. -/
def rangesFrom (quotedCol : String) (hi : Int) (step : Nat) (hstep : 0 < step) (start : Int) (idx : Nat) :
    List KeyPartition :=
  if start ≤ hi then
    let finish := min (start + step - 1) hi
    { label := "range-" ++ toString idx
      cond := some (.between quotedCol (toString start) (toString finish)) } ::
      rangesFrom quotedCol hi step hstep (finish + 1) (idx + 1)
  else []
termination_by (hi + 1 - start).toNat
decreasing_by omega

def rangePartitions (lo hi : Int) (n : Nat) (quotedCol : String) : List KeyPartition :=
  let span := (hi - lo + 1).toNat
  -- rounded up, so that `n` steps reach past `hi`
  let step := max ((span + n - 1) / n) 1
  rangesFrom quotedCol hi step (by omega) lo 0

/-! ### The probe -/

def unquote (s : String) : String :=
  String.ofList ((((Text.trim s.toList).dropWhile (· = '"')).reverse.dropWhile (· = '"')).reverse)

def quotePg (name : String) : String :=
  "\"" ++ String.ofList (name.toList.flatMap fun c => if c = '"' then ['"', '"'] else [c]) ++ "\""

def quotePgTable (table : String) : String :=
  match Text.splitOnce '.' table.toList with
  | some (s, t) => quotePg (unquote (String.ofList s)) ++ "." ++ quotePg (unquote (String.ofList t))
  | none => quotePg (unquote table)

/-- The relation that is read. -/
inductive ReadTarget where
  | table (name : String)
  | query (text : String)
  deriving DecidableEq, Repr

def oidInt2 : Nat := 21
def oidInt4 : Nat := 23
def oidInt8 : Nat := 20

def isRangePartitionable (columnOid : Nat) : Bool := columnOid ∈ [oidInt2, oidInt4, oidInt8]

structure PartitionRequest where
  target : ReadTarget
  column : String
  sourceExpr : Option String
  columnOid : Nat
  n : Nat
  columnNullable : Bool
  above : Option Int
  deriving DecidableEq, Repr

namespace PartitionRequest

variable (req : PartitionRequest)

def key : String := req.sourceExpr.getD (quotePg req.column)

def probeSql : String :=
  let abovePred := match req.above with
    | some c => " WHERE " ++ req.key ++ " > " ++ toString c
    | none => ""
  let select := "SELECT min(" ++ req.key ++ ")::bigint, max(" ++ req.key ++ ")::bigint FROM "
  match req.target with
  | .query q => select ++ "(" ++ q ++ ") AS _src" ++ abovePred
  | .table t => select ++ quotePgTable t ++ abovePred

/-- What a probe of `source_expr` fails with names the option, unless a new attempt may pass. -/
def probeError (e : EtlError) : EtlError :=
  match req.sourceExpr with
  | some expr =>
    if e.isTransientSource then e
    else .config ("partition_source_expr='" ++ expr ++ "' could not be probed for a MIN/MAX range: " ++ e.display ++
      ". It must be a raw SQL expression over a column source_query projects, and it " ++
      "must resolve to an integer type.")
  | none => e

def single : List KeyPartition := [{ label := "all", cond := none }]

/-- The partition a row without a key goes to. -/
def nullKey : List KeyPartition :=
  if req.columnNullable && req.above.isNone then [{ label := "null-key", cond := some (.isNull req.key) }] else []

/-- The lower bound of the ranges: past the cursor, not the least key found above it. -/
def lower (lo : Int) : Int :=
  match req.above with
  | some c => c + 1
  | none => lo

def splits : Bool := 1 < req.n && (req.sourceExpr.isSome || isRangePartitionable req.columnOid)

def ofBounds : Option Int → Option Int → List KeyPartition
  | some lo, some hi =>
    if lo ≤ hi then Quickhouse.rangePartitions (req.lower lo) hi req.n req.key ++ req.nullKey else single
  | _, _ => single

/-- `PgSource::range_partitions`, with what the probe answers. -/
def rangePartitions (queryOne : String → Except EtlError (Option Int × Option Int)) :
    Except EtlError (List KeyPartition) :=
  if req.splits then
    match queryOne req.probeSql with
    | .error e => .error (req.probeError e)
    | .ok (lo, hi) => .ok (req.ofBounds lo hi)
  else .ok single

end PartitionRequest

/-! ### Every key in one part -/

/-- The part of the keys from `start` to `finish`. -/
def rangePart (key : String) (start finish : Int) (idx : Nat) : KeyPartition :=
  { label := "range-" ++ toString idx, cond := some (.between key (toString start) (toString finish)) }

def KeyPartition.isRange (p : KeyPartition) : Bool :=
  match p.cond with
  | some (.between ..) => true
  | _ => false

theorem rangePart_selects {key : String} {start finish k : Int} {idx : Nat} :
    (rangePart key start finish idx).selects (some k) = true ↔ start ≤ k ∧ k ≤ finish := by
  show (Sql.between3 (some k) (literalValue (toString start)) (literalValue (toString finish)) == some true) = true ↔ _
  rw [literalValue_toString, literalValue_toString, beq_iff_eq, Sql.between3_eq_true]
  simp

section Loop

variable {quotedCol : String} {hi : Int} {step : Nat} {hstep : 0 < step}

theorem rangesFrom_cons {start : Int} {idx : Nat} (h : start ≤ hi) :
    rangesFrom quotedCol hi step hstep start idx =
      rangePart quotedCol start (min (start + step - 1) hi) idx ::
        rangesFrom quotedCol hi step hstep (min (start + step - 1) hi + 1) (idx + 1) := by
  rw [rangesFrom, if_pos h]
  rfl

theorem rangesFrom_nil {start : Int} {idx : Nat} (h : hi < start) :
    rangesFrom quotedCol hi step hstep start idx = [] := by
  rw [rangesFrom, if_neg (by omega)]

/-- What holds of the empty range, and of a range when it holds of what its first part leaves. -/
theorem rangesFrom_induct {motive : Int → List KeyPartition → Prop}
    (done : ∀ start, hi < start → motive start [])
    (part : ∀ start idx rest, start ≤ hi → motive (min (start + step - 1) hi + 1) rest →
      motive start (rangePart quotedCol start (min (start + step - 1) hi) idx :: rest)) (start : Int) (idx : Nat) :
    motive start (rangesFrom quotedCol hi step hstep start idx) := by
  by_cases h : start ≤ hi
  · rw [rangesFrom_cons h]
    exact part start idx _ h (rangesFrom_induct done part _ (idx + 1))
  · rw [rangesFrom_nil (by omega)]
    exact done start (by omega)
termination_by (hi + 1 - start).toNat
decreasing_by omega

theorem rangesFrom_range (start : Int) (idx : Nat) :
    ∀ p ∈ rangesFrom quotedCol hi step hstep start idx,
      p.isRange = true ∧ p.selects none = false ∧ ∀ k, p.selects (some k) = true → start ≤ k ∧ k ≤ hi := by
  refine rangesFrom_induct (motive := fun start ps => ∀ p ∈ ps, p.isRange = true ∧ p.selects none = false ∧
    ∀ k, p.selects (some k) = true → start ≤ k ∧ k ≤ hi) ?_ ?_ start idx
  · intro start _ p hp
    exact absurd hp (by simp)
  · intro start idx rest hle ih p hp
    rcases List.mem_cons.mp hp with rfl | hp
    · refine ⟨rfl, rfl, fun k hk => ?_⟩
      have := rangePart_selects.mp hk
      omega
    · obtain ⟨hr, hnull, hk⟩ := ih p hp
      refine ⟨hr, hnull, fun k hsel => ?_⟩
      have := hk k hsel
      omega

theorem countP_rangesFrom (k : Int) (start : Int) (idx : Nat) :
    (rangesFrom quotedCol hi step hstep start idx).countP (·.selects (some k)) =
      if start ≤ k ∧ k ≤ hi then 1 else 0 := by
  refine rangesFrom_induct (motive := fun start ps => ps.countP (·.selects (some k)) =
    if start ≤ k ∧ k ≤ hi then 1 else 0) ?_ ?_ start idx
  · intro start h
    rw [List.countP_nil, if_neg (by omega)]
  · intro start idx rest hle ih
    by_cases hk : start ≤ k ∧ k ≤ min (start + step - 1) hi
    · rw [List.countP_cons, if_pos (rangePart_selects.mpr hk), ih, if_neg (by omega), if_pos (by omega)]
    · rw [List.countP_cons, if_neg (fun h => hk (rangePart_selects.mp h)), ih]
      by_cases hin : start ≤ k ∧ k ≤ hi
      · rw [if_pos hin, if_pos (by omega)]
      · rw [if_neg hin, if_neg (by omega)]

theorem length_rangesFrom {m : Nat} {start : Int} {idx : Nat} (h : hi + 1 - start ≤ m * step) :
    (rangesFrom quotedCol hi step hstep start idx).length ≤ m := by
  refine rangesFrom_induct (motive := fun start ps => ∀ m : Nat, hi + 1 - start ≤ m * step → ps.length ≤ m)
    ?_ ?_ start idx m h
  · intro start _ m _
    exact Nat.zero_le m
  · intro start idx rest hle ih m hm
    cases m with
    | zero => omega
    | succ m =>
      have hmul : ((m + 1 : Nat) : Int) * step = m * step + step := by push_cast; ring
      have hnn : (0 : Int) ≤ m * step := by positivity
      have := ih m (by omega)
      exact Nat.succ_le_succ this

end Loop

/-- The rounding of the step: `n` of them reach past the range. -/
theorem span_le_steps {span n : Nat} (hn : 1 ≤ n) : span ≤ n * max ((span + n - 1) / n) 1 := by
  have h1 : n * ((span + n - 1) / n) ≤ n * max ((span + n - 1) / n) 1 := Nat.mul_le_mul_left n (le_max_left _ _)
  have h2 := Nat.div_add_mod (span + n - 1) n
  have h3 := Nat.mod_lt (span + n - 1) hn
  omega

theorem length_rangePartitions {lo hi : Int} {n : Nat} (hn : 1 ≤ n) (quotedCol : String) :
    (rangePartitions lo hi n quotedCol).length ≤ n := by
  unfold rangePartitions
  apply length_rangesFrom
  have h := @span_le_steps (hi - lo + 1).toNat n hn
  have hcast : ((hi - lo + 1).toNat : Int) ≤ (n : Int) * (max (((hi - lo + 1).toNat + n - 1) / n) 1 : Nat) := by
    exact_mod_cast h
  omega

theorem countP_rangePartitions (lo hi : Int) (n : Nat) (quotedCol : String) (k : Int) :
    (rangePartitions lo hi n quotedCol).countP (·.selects (some k)) = if lo ≤ k ∧ k ≤ hi then 1 else 0 :=
  countP_rangesFrom k lo 0

/-- Parts that no key is counted in twice select disjoint rows. -/
theorem pairwise_of_countP_le_one {α β : Type} {p : α → β → Bool} {l : List α}
    (h : ∀ b, l.countP (p · b) ≤ 1) : l.Pairwise fun x y => ∀ b, ¬ (p x b = true ∧ p y b = true) := by
  induction l with
  | nil => exact List.Pairwise.nil
  | cons a l ih =>
    refine List.pairwise_cons.mpr ⟨?_, ih ?_⟩
    · intro y hy b hb
      have h1 := h b
      rw [List.countP_cons, if_pos hb.1] at h1
      have h2 : 0 < l.countP (p · b) := List.countP_pos_iff.mpr ⟨y, hy, hb.2⟩
      omega
    · intro b
      have hb := h b
      rw [List.countP_cons] at hb
      omega

/-! ### Covering -/

namespace PartitionRequest

variable {req : PartitionRequest}

/-- The keys the read is about: those between the probed bounds, and above a cursor those past it. -/
def Within (req : PartitionRequest) (lo hi : Option Int) (k : Int) : Prop :=
  ∃ l h, lo = some l ∧ hi = some h ∧ k ≤ h ∧
    match req.above with
    | some c => c < k
    | none => l ≤ k

/-- Every key of the read in one part, every NULL key in one where `nulls` says so, no row in two parts, and at most
`n` ranges. -/
structure Exact (req : PartitionRequest) (lo hi : Option Int) (nulls : Prop) (parts : List KeyPartition) : Prop where
  disjoint : parts.Pairwise fun p q => ∀ key, ¬ (p.selects key = true ∧ q.selects key = true)
  keys : ∀ k, req.Within lo hi k → parts.countP (·.selects (some k)) = 1
  null_key : nulls → parts.countP (·.selects none) = 1
  ranges : parts.countP KeyPartition.isRange ≤ req.n

theorem countP_nullKey_some (k : Int) : req.nullKey.countP (·.selects (some k)) = 0 := by
  unfold nullKey
  split
  · rfl
  · rfl

theorem countP_nullKey_none :
    req.nullKey.countP (·.selects none) = if req.columnNullable = true ∧ req.above = none then 1 else 0 := by
  unfold nullKey
  by_cases h : req.columnNullable = true ∧ req.above = none
  · rw [if_pos h, if_pos (by simp [h.1, h.2])]
    rfl
  · rw [if_neg h, if_neg (by simpa using h)]
    rfl

theorem not_range_nullKey : req.nullKey.countP KeyPartition.isRange = 0 := by
  unfold nullKey
  split
  · rfl
  · rfl

theorem ofBounds_cases (req : PartitionRequest) (lo hi : Option Int) :
    req.ofBounds lo hi = single ∨ ∃ l h, lo = some l ∧ hi = some h ∧
      req.ofBounds lo hi = Quickhouse.rangePartitions (req.lower l) h req.n req.key ++ req.nullKey := by
  cases lo with
  | none => exact .inl rfl
  | some l =>
    cases hi with
    | none => exact .inl rfl
    | some h =>
      by_cases hle : l ≤ h
      · exact .inr ⟨l, h, rfl, rfl, if_pos hle⟩
      · exact .inl (if_neg hle)

theorem Within.lower_le {l h k : Int} (hk : req.Within (some l) (some h) k) : req.lower l ≤ k ∧ k ≤ h := by
  obtain ⟨l', h', hl, hh, hkh, hlk⟩ := hk
  cases hl
  cases hh
  unfold lower
  cases habove : req.above with
  | none =>
    rw [habove] at hlk
    exact ⟨hlk, hkh⟩
  | some c =>
    rw [habove] at hlk
    exact ⟨hlk, hkh⟩

theorem exact_single (lo hi : Option Int) (nulls : Prop) : req.Exact lo hi nulls single where
  disjoint := List.pairwise_singleton _ _
  keys _ _ := rfl
  null_key _ := rfl
  ranges := Nat.zero_le _

theorem countP_ranges_none (l h : Int) (n : Nat) :
    (Quickhouse.rangePartitions l h n req.key).countP (·.selects none) = 0 := by
  refine List.countP_eq_zero.mpr fun p hp => ?_
  have := (rangesFrom_range l 0 p hp).2.1
  simp [this]

theorem exact_ranges (l h : Int) (hn : 1 ≤ req.n) :
    req.Exact (some l) (some h) (req.columnNullable = true ∧ req.above = none)
      (Quickhouse.rangePartitions (req.lower l) h req.n req.key ++ req.nullKey) where
  disjoint := by
    refine pairwise_of_countP_le_one (p := KeyPartition.selects) fun key => ?_
    rw [List.countP_append]
    cases key with
    | none =>
      rw [countP_ranges_none, countP_nullKey_none]
      split <;> omega
    | some k =>
      rw [countP_rangePartitions, countP_nullKey_some]
      split <;> omega
  keys k hk := by
    rw [List.countP_append, countP_rangePartitions, if_pos hk.lower_le, countP_nullKey_some]
  null_key hnull := by
    rw [List.countP_append, countP_ranges_none, countP_nullKey_none, if_pos hnull]
  ranges := by
    rw [List.countP_append, not_range_nullKey]
    exact le_trans List.countP_le_length (length_rangePartitions hn req.key)

/-- The rows a parallel read is split into are all of it, each once.  Above a cursor no row with a NULL key is part of
the read. -/
theorem partitions_exact (req : PartitionRequest) (queryOne : String → Except EtlError (Option Int × Option Int))
    (lo hi : Option Int) (parts : List KeyPartition) (hn : 1 ≤ req.n)
    (hprobe : ∀ answer, queryOne req.probeSql = .ok answer → answer = (lo, hi))
    (hparts : req.rangePartitions queryOne = .ok parts) :
    req.Exact lo hi (req.columnNullable = true ∧ req.above = none) parts := by
  unfold PartitionRequest.rangePartitions at hparts
  by_cases hsplits : req.splits = true
  · rw [if_pos hsplits] at hparts
    cases hanswer : queryOne req.probeSql with
    | error e =>
      rw [hanswer] at hparts
      cases hparts
    | ok answer =>
      rw [hanswer, hprobe answer hanswer] at hparts
      cases hparts
      rcases ofBounds_cases req lo hi with hof | ⟨l, h, rfl, rfl, hof⟩
      · rw [hof]
        exact exact_single lo hi _
      · rw [hof]
        exact exact_ranges l h hn
  · rw [if_neg hsplits] at hparts
    cases hparts
    exact exact_single lo hi _

/-- The keys past 0 of a nullable column, for two readers. -/
def pastZero : PartitionRequest where
  target := .table "orders"
  column := "id"
  sourceExpr := none
  columnOid := oidInt8
  n := 2
  columnNullable := true
  above := some 0

def oneToTen : String → Except EtlError (Option Int × Option Int) := fun _ => .ok (some 1, some 10)

theorem null_key_left_out : ∃ parts : List KeyPartition, pastZero.rangePartitions oneToTen = .ok parts ∧
    pastZero.columnNullable = true ∧ parts.countP (KeyPartition.selects · none) = 0 := by
  refine ⟨_, rfl, rfl, ?_⟩
  show (Quickhouse.rangePartitions 1 10 2 pastZero.key ++ []).countP (KeyPartition.selects · none) = 0
  rw [List.append_nil]
  exact countP_ranges_none 1 10 2

/-- The keys from 1 to 10 of the same column, on a first run. -/
def wholeKey : PartitionRequest := { pastZero with above := none }

theorem whole_key_exact : ∃ parts : List KeyPartition, wholeKey.rangePartitions oneToTen = .ok parts ∧
    wholeKey.Exact (some 1) (some 10) True parts := by
  have h := partitions_exact wholeKey oneToTen (some 1) (some 10) _ (by decide) (fun _ h => (Except.ok.inj h).symm) rfl
  exact ⟨_, rfl, h.disjoint, h.keys, fun _ => h.null_key ⟨rfl, rfl⟩, h.ranges⟩

end PartitionRequest

end Quickhouse
