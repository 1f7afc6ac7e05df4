import Mathlib
import Quickhouse.Lib.MachineInt
import Quickhouse.Sink.StateCompaction
import Quickhouse.Source.ClickHouseRows

/-!
# The keys of the state table

`state_keys` lists each key with its newest cursor and the number of its rows, the one that was not written for the longest
time first.  It lists the same keys and cursors after a compaction, with one row each (`state_keys_newest`).
-/

namespace Quickhouse.StateLog

open Runs Supersede MachineInt TabSeparated

structure StateKey where
  stateKey : String
  destTable : String
  lastWatermark : String
  lastRun : String
  stateRows : Nat
  deriving DecidableEq, Repr

/-- A group of the query. -/
structure KeyGroup where
  newest : StateRow
  count : Nat
  deriving DecidableEq

namespace KeyGroup

variable (g : KeyGroup)

/-- The sort key: `max(run_ts)`, then the two columns of the key. -/
def order : Nat ×ₗ String ×ₗ String := toLex (g.newest.runTs, toLex (g.newest.sourceTable, g.newest.destTable))

/-- The columns of the answer as text; `render` is how the engine writes a time. -/
def fields (render : Nat → String) : List (List Char) :=
  [g.newest.sourceTable.toList, g.newest.destTable.toList, g.newest.lastWatermark.toList, (render g.newest.runTs).toList,
    Nat.toDigits 10 g.count]

end KeyGroup

def groupOf (rows : List StateRow) (k : String × String) : Option KeyGroup :=
  (latest (rows.filter (keyOf · = k))).map fun newest => { newest, count := (rows.filter (keyOf · = k)).length }

/-- The groups of the table; with a cutoff, those that were not written since. -/
def keyGroups (cutoff : Option Nat) (rows : List StateRow) : List KeyGroup :=
  (((rows.map keyOf).dedup.filterMap (groupOf rows)).filter fun g => cutoff.all (g.newest.runTs < ·)).mergeSort
    fun a b => a.order ≤ b.order

def stateKeyOf : List (List Char) → Option StateKey
  | [key, dest, watermark, run, n] => some {
      stateKey := String.ofList key
      destTable := String.ofList dest
      lastWatermark := String.ofList watermark
      lastRun := String.ofList run
      stateRows := (Text.parseUnsigned u64Max n).getD 0 }
  | _ => none

/-- ClickHouse's answer is cut into lines and fields, BigQuery's comes as values. -/
def stateKeys (e : StateEngine) (charset : Bool) (render : Nat → String) (cutoff : Option Nat) (rows : List StateRow) :
    Option (List StateKey) :=
  let groups := (keyGroups cutoff rows).map (·.fields render)
  match e with
  | .clickHouse => (queryColumn (answer charset (groups.map (·.map some)))).toOption.bind fun lines =>
      lines.mapM fun line => stateKeyOf ((line.splitOn '\t').map fun f => (tsvField f).getD [])
  | .bigQuery => groups.mapM stateKeyOf

/-! ### The groups -/

section

variable {rows : List StateRow} {cutoff : Option Nat} {g : KeyGroup} {k : String × String}

/-- The group of a key has its last row. -/
theorem groupOf_eq_some (h : Ordered keyOf StateRow.runTs rows) : groupOf rows k = some g ↔
    (rows.filter (keyOf · = k)).getLast? = some g.newest ∧ g.count = (rows.filter (keyOf · = k)).length := by
  obtain ⟨newest, count⟩ := g
  unfold groupOf
  rw [latest_eq h, Option.map_eq_some_iff]
  constructor
  · rintro ⟨r, hr, heq⟩
    obtain ⟨rfl, rfl⟩ := KeyGroup.mk.inj heq
    exact ⟨hr, rfl⟩
  · rintro ⟨hr, hcount⟩
    dsimp only at hr hcount
    exact ⟨newest, hr, by rw [hcount]⟩

theorem keyOf_last {r : StateRow} (h : (rows.filter (keyOf · = k)).getLast? = some r) : r ∈ rows ∧ keyOf r = k := by
  obtain ⟨hr, hkey⟩ := List.mem_filter.mp (List.mem_of_getLast? h)
  exact ⟨hr, by simpa using hkey⟩

theorem mem_keyGroups (h : Ordered keyOf StateRow.runTs rows) : g ∈ keyGroups cutoff rows ↔
    (rows.filter (keyOf · = keyOf g.newest)).getLast? = some g.newest ∧
      g.count = (rows.filter (keyOf · = keyOf g.newest)).length ∧ cutoff.all (g.newest.runTs < ·) = true := by
  unfold keyGroups
  rw [List.mem_mergeSort, List.mem_filter, List.mem_filterMap]
  constructor
  · rintro ⟨⟨k, -, hgroup⟩, hidle⟩
    obtain ⟨hlast, hcount⟩ := (groupOf_eq_some h).mp hgroup
    obtain rfl := (keyOf_last hlast).2
    exact ⟨hlast, hcount, hidle⟩
  · rintro ⟨hlast, hcount, hidle⟩
    refine ⟨⟨keyOf g.newest, ?_, (groupOf_eq_some h).mpr ⟨hlast, hcount⟩⟩, hidle⟩
    exact List.mem_dedup.mpr (List.mem_map_of_mem (keyOf_last hlast).1)

theorem keyGroups_sorted : (keyGroups cutoff rows).Pairwise fun a b => a.order ≤ b.order := by
  have hsorted := @List.pairwise_mergeSort KeyGroup (fun a b => decide (a.order ≤ b.order)) ?_ ?_
    (((rows.map keyOf).dedup.filterMap (groupOf rows)).filter fun g => cutoff.all (g.newest.runTs < ·))
  · exact hsorted.imp fun hle => by simpa using hle
  · intro a b c hab hbc
    simp only [decide_eq_true_eq] at hab hbc ⊢
    exact hab.trans hbc
  · intro a b
    simpa using le_total a.order b.order

/-- No key is listed twice. -/
theorem keyGroups_nodup (h : Ordered keyOf StateRow.runTs rows) :
    ((keyGroups cutoff rows).map fun g => keyOf g.newest).Nodup := by
  have hkey : ∀ (k : String × String) (g : KeyGroup), groupOf rows k = some g → keyOf g.newest = k :=
    fun k g hgroup => (keyOf_last ((groupOf_eq_some h).mp hgroup).1).2
  -- one group a key, and its newest row tells the key
  have hgroups : ((rows.map keyOf).dedup.filterMap (groupOf rows)).Nodup := by
    apply (List.nodup_dedup _).filterMap
    intro k k' g hg hg'
    exact (hkey k g hg).symm.trans (hkey k' g hg')
  have hsorted : (keyGroups cutoff rows).Nodup := (List.mergeSort_perm _ _).nodup_iff.mpr (hgroups.filter _)
  apply List.Nodup.map_on _ hsorted
  intro a ha b hb heq
  obtain ⟨halast, hacount, -⟩ := (mem_keyGroups h).mp ha
  obtain ⟨hblast, hbcount, -⟩ := (mem_keyGroups h).mp hb
  rw [heq] at halast hacount
  have hagroup := (groupOf_eq_some h).mpr ⟨halast, hacount⟩
  rw [(groupOf_eq_some h).mpr ⟨hblast, hbcount⟩] at hagroup
  exact (Option.some.inj hagroup).symm

end

/-! ### The answer -/

/-- What comes of a text: not all of ClickHouse's escapes are undone. -/
def shown (e : StateEngine) (s : String) : String :=
  match e with
  | .clickHouse => String.ofList (readText s.toList)
  | .bigQuery => s

def KeyGroup.listed (e : StateEngine) (render : Nat → String) (g : KeyGroup) : StateKey where
  stateKey := shown e g.newest.sourceTable
  destTable := shown e g.newest.destTable
  lastWatermark := shown e g.newest.lastWatermark
  lastRun := shown e (render g.newest.runTs)
  stateRows := g.count

/-- A key as it arrives at the front of ClickHouse's answer. -/
def arrived (e : StateEngine) (charset : Bool) (key : String) : String :=
  if e = .clickHouse ∧ charset = true ∧ key.toList.head? = some byteOrderMark then String.ofList key.toList.tail else key

def KeyGroup.withKey (g : KeyGroup) (key : String) : KeyGroup := { g with newest := { g.newest with sourceTable := key } }

/-- The groups as they arrive. -/
def arrivals (e : StateEngine) (charset : Bool) : List KeyGroup → List KeyGroup
  | g :: groups => g.withKey (arrived e charset g.newest.sourceTable) :: groups
  | [] => []

section

variable {render : Nat → String} {cutoff : Option Nat} {rows : List StateRow} {g : KeyGroup}

theorem parseUnsigned_digits {n : Nat} (h : n ≤ u64Max) : Text.parseUnsigned u64Max (Nat.toDigits 10 n) = some n := by
  rw [← Nat.toList_repr]
  unfold Text.parseUnsigned
  rw [Text.stripPrefix_repr rfl rfl, Option.getD_none, Text.parseDigits_repr]
  simpa using h

theorem readText_digits (n : Nat) : readText (Nat.toDigits 10 n) = Nat.toDigits 10 n := by
  apply readText_eq_self.mpr
  intro c hc hunread
  have hdigit := Nat.isDigit_of_mem_toDigits (by decide) (by decide) hc
  rcases hunread with rfl | rfl <;> exact absurd hdigit (by decide)

theorem stateKeyOf_fields (h : g.count ≤ u64Max) : stateKeyOf (g.fields render) = some (g.listed .bigQuery render) := by
  unfold KeyGroup.fields stateKeyOf
  dsimp only
  rw [parseUnsigned_digits h]
  simp [KeyGroup.listed, shown]

theorem stateKeyOf_read (h : g.count ≤ u64Max) :
    stateKeyOf ((g.fields render).map readText) = some (g.listed .clickHouse render) := by
  unfold KeyGroup.fields stateKeyOf
  simp only [List.map_cons, List.map_nil, readText_digits]
  rw [parseUnsigned_digits h]
  rfl

theorem mapM_stateKeyOf {e : StateEngine} {groups : List KeyGroup} {fields : KeyGroup → List (List Char)}
    (h : ∀ g ∈ groups, stateKeyOf (fields g) = some (g.listed e render)) :
    (groups.map fields).mapM stateKeyOf = some (groups.map (·.listed e render)) := by
  induction groups with
  | nil => rfl
  | cons g groups ih =>
    rw [List.map_cons, List.mapM_cons, h g List.mem_cons_self, ih fun g hg => h g (List.mem_cons_of_mem _ hg)]
    rfl

/-- The rows of a query for the groups. -/
def keyRows (render : Nat → String) (groups : List KeyGroup) : List TextRow := (groups.map (·.fields render)).map (·.map some)

theorem length_keyRows {groups : List KeyGroup} {row : TextRow} (h : row ∈ keyRows render groups) : row.length = 5 := by
  obtain ⟨fields, hfields, rfl⟩ := List.mem_map.mp h
  obtain ⟨g, -, rfl⟩ := List.mem_map.mp hfields
  rfl

theorem keyRows_ne_nil {groups : List KeyGroup} : ∀ row ∈ keyRows render groups, row ≠ [] := by
  rintro row hrow rfl
  cases length_keyRows hrow

theorem text_keyRows (charset : Bool) (groups : List KeyGroup) :
    (answer charset (keyRows render groups)).text = writeRows (keyRows render (arrivals .clickHouse charset groups)) := by
  cases groups with
  | nil => rfl
  | cons g groups =>
    by_cases hmark : Unmarked charset g.newest.sourceTable.toList
    · have harrived : arrived .clickHouse charset g.newest.sourceTable = g.newest.sourceTable :=
        if_neg fun h => hmark h.2.1 h.2.2
      rw [arrivals, harrived]
      exact text_unmarked hmark keyRows_ne_nil
    · obtain ⟨rfl, rest, hrest⟩ := eq_marked hmark
      have harrived : (arrived .clickHouse true g.newest.sourceTable).toList = rest := by
        unfold arrived
        rw [if_pos ⟨rfl, rfl, by rw [hrest]; rfl⟩, String.toList_ofList, hrest]
        rfl
      have hmarked : keyRows render (g :: groups) =
          (some (byteOrderMark :: rest) :: (g.fields render).tail.map some) :: keyRows render groups := by
        rw [← hrest]
        rfl
      have hunmarked : keyRows render (arrivals .clickHouse true (g :: groups)) =
          (some rest :: (g.fields render).tail.map some) :: keyRows render groups := by
        rw [← harrived]
        rfl
      rw [hmarked, hunmarked, text_marked]

/-- Rows of several fields are cut into their fields again. -/
theorem lines_keyRows (groups : List KeyGroup) :
    ((Text.lines (writeRows (keyRows render groups))).filter (· ≠ [])).map
        (fun line => (line.splitOn '\t').map fun f => (tsvField f).getD []) =
      groups.map fun g => (g.fields render).map readText := by
  have hread := lines_read (@keyRows_ne_nil render groups)
  -- no line is blank, so none is skipped
  have hkept : (keyRows render groups).filter (· ≠ [some []]) = keyRows render groups := by
    refine List.filter_eq_self.mpr fun row hrow => decide_eq_true ?_
    rintro rfl
    cases length_keyRows hrow
  unfold readRows at hread
  rw [hkept] at hread
  have hfields := congrArg (List.map (List.map (Option.getD · []))) hread
  unfold keyRows at hfields ⊢
  simpa [Function.comp_def] using hfields

theorem arrivals_count {e : StateEngine} {charset : Bool} {groups : List KeyGroup} (h : ∀ g ∈ groups, g.count ≤ u64Max) :
    ∀ g ∈ arrivals e charset groups, g.count ≤ u64Max := by
  cases groups with
  | nil => exact h
  | cons g groups =>
    intro g' hg'
    rcases List.mem_cons.mp hg' with rfl | hg'
    · exact h g List.mem_cons_self
    · exact h g' (List.mem_cons_of_mem _ hg')

theorem arrivals_bigQuery (charset : Bool) (groups : List KeyGroup) : arrivals .bigQuery charset groups = groups := by
  cases groups with
  | nil => rfl
  | cons g groups =>
    have harrived : arrived .bigQuery charset g.newest.sourceTable = g.newest.sourceTable := if_neg (by simp)
    rw [arrivals, harrived]
    rfl

/-- A list of the groups comes of the answer, whichever engine gives it. -/
theorem stateKeys_eq (e : StateEngine) (charset : Bool) (h : Ordered keyOf StateRow.runTs rows)
    (hlen : rows.length ≤ u64Max) : stateKeys e charset render cutoff rows =
      some ((arrivals e charset (keyGroups cutoff rows)).map (·.listed e render)) := by
  have hcount : ∀ g ∈ keyGroups cutoff rows, g.count ≤ u64Max := by
    intro g hg
    rw [((mem_keyGroups h).mp hg).2.1]
    exact (List.length_filter_le _ _).trans hlen
  unfold stateKeys
  cases e with
  | clickHouse =>
    show ((Text.lines (answer charset (keyRows render (keyGroups cutoff rows))).text).filter (· ≠ [])).mapM
      (fun line => stateKeyOf ((line.splitOn '\t').map fun f => (tsvField f).getD [])) = _
    have hlines := @lines_keyRows render (arrivals .clickHouse charset (keyGroups cutoff rows))
    rw [text_keyRows]
    rw [← Function.comp_def stateKeyOf, ← List.mapM_map, hlines]
    exact mapM_stateKeyOf fun g hg => stateKeyOf_read (arrivals_count hcount g hg)
  | bigQuery =>
    rw [arrivals_bigQuery]
    exact mapM_stateKeyOf fun g hg => stateKeyOf_fields (hcount g hg)

end

/-! ### Every run -/

section

variable {rows : List StateRow} {k : String × String} {r : StateRow}

/-- Where no key is twice, a key's last row is its only one. -/
theorem filter_of_nodup (h : (rows.map keyOf).Nodup) (hlast : (rows.filter (keyOf · = k)).getLast? = some r) :
    (rows.filter (keyOf · = k)).length = 1 := by
  have hkeys : (rows.filter (keyOf · = k)).map keyOf = List.replicate (rows.filter (keyOf · = k)).length k := by
    apply List.eq_replicate_iff.mpr
    refine ⟨List.length_map _, ?_⟩
    intro k' hk'
    obtain ⟨a, ha, rfl⟩ := List.mem_map.mp hk'
    simpa using (List.mem_filter.mp ha).2
  have hnodup := h.sublist ((List.filter_sublist (p := (keyOf · = k))).map keyOf)
  rw [hkeys, List.nodup_replicate] at hnodup
  have hpos := List.length_pos_of_mem (List.mem_of_getLast? hlast)
  omega

end

/-- `state_keys` lists the keys whose newest write is older than the cutoff, if there is one, each once and the oldest
first, with the row of that write and the number of rows it has; a compaction only makes this number one. -/
theorem state_keys_newest (e : StateEngine) (charset : Bool) (render : Nat → String) (cutoff : Option Nat)
    (events : List Event) (t : Table) (hlater : Along (Table.step e) Table.Later {} events)
    (hrun : exec (Table.step e) {} events = some t) (hlen : t.log.length ≤ u64Max) :
    ∃ groups : List KeyGroup, stateKeys e charset render cutoff t.rows =
        some ((arrivals e charset groups).map (·.listed e render)) ∧
      (groups.Pairwise fun a b => a.order ≤ b.order) ∧ (groups.map fun g => keyOf g.newest).Nodup ∧
      (∀ r, r ∈ groups.map KeyGroup.newest ↔
        ((t.logRows e).filter (keyOf · = keyOf r)).getLast? = some r ∧ cutoff.all (r.runTs < ·) = true) ∧
      (∀ g ∈ groups, g.count = t.rows.countP (keyOf · = keyOf g.newest)) ∧
      (t.progress = .idle → ∀ affected, ∃ groups' : List KeyGroup,
        stateKeys e charset render cutoff (t.compactState e affected).rows =
            some ((arrivals e charset groups').map (·.listed e render)) ∧
          (groups'.Pairwise fun a b => a.order ≤ b.order) ∧
          ∀ g', g' ∈ groups' ↔ ∃ g ∈ groups, g' = { g with count := 1 }) := by
  have h : t.Inv e := exec_invariant_along (fun _ _ _ h hlater hstep => Table.inv_step h hlater hstep) Table.inv_start
    hlater hrun
  have hrows : t.rows.length ≤ u64Max := by
    have hcount := h.count
    omega
  have hordered := h.rows_ordered
  have hlast : ∀ k, (t.rows.filter (keyOf · = k)).getLast? = ((t.logRows e).filter (keyOf · = k)).getLast? :=
    getLast?_kept h.ordered h.kept h.newest
  refine ⟨keyGroups cutoff t.rows, stateKeys_eq e charset hordered hrows, keyGroups_sorted, keyGroups_nodup hordered, ?_, ?_, ?_⟩
  · intro r
    rw [List.mem_map, ← hlast]
    constructor
    · rintro ⟨g, hg, rfl⟩
      obtain ⟨hnewest, -, hidle⟩ := (mem_keyGroups hordered).mp hg
      exact ⟨hnewest, hidle⟩
    · rintro ⟨hnewest, hidle⟩
      exact ⟨⟨r, (t.rows.filter (keyOf · = keyOf r)).length⟩, (mem_keyGroups hordered).mpr ⟨hnewest, rfl, hidle⟩, rfl⟩
  · intro g hg
    rw [((mem_keyGroups hordered).mp hg).2.1, List.countP_eq_length_filter]
  · intro hidle affected
    rw [Table.compactState_eq hordered hidle]
    dsimp only
    have hsub : (deleteStale t.rows).Sublist t.rows := List.filter_sublist
    have hordered' := hordered.sublist hsub
    have hnodup : ((deleteStale t.rows).map keyOf).Nodup := live_nodup hordered
    have hlast' : ∀ k, ((deleteStale t.rows).filter (keyOf · = k)).getLast? = (t.rows.filter (keyOf · = k)).getLast? :=
      getLast?_kept hordered hsub (List.Subset.refl _)
    refine ⟨keyGroups cutoff (deleteStale t.rows), stateKeys_eq e charset hordered' (hsub.length_le.trans hrows),
      keyGroups_sorted, ?_⟩
    rintro ⟨newest, count⟩
    rw [mem_keyGroups hordered']
    dsimp only
    rw [hlast']
    constructor
    · rintro ⟨hnewest, hcount, hold⟩
      have hone := filter_of_nodup hnodup ((hlast' _).trans hnewest)
      refine ⟨⟨newest, (t.rows.filter (keyOf · = keyOf newest)).length⟩,
        (mem_keyGroups hordered).mpr ⟨hnewest, rfl, hold⟩, ?_⟩
      rw [hcount, hone]
    · rintro ⟨g, hg, heq⟩
      obtain ⟨rfl, rfl⟩ := KeyGroup.mk.inj heq
      obtain ⟨hnewest, -, hold⟩ := (mem_keyGroups hordered).mp hg
      exact ⟨hnewest, (filter_of_nodup hnodup ((hlast' _).trans hnewest)).symm, hold⟩

/-- Of the two keys of `orderEvents`, `customers` was not written since 3. -/
theorem orders_listed : ∃ t, exec (Table.step .bigQuery) {} orderEvents = some t ∧
    t.logRows .bigQuery = [⟨"orders", "sales", "10", 5, none, none, none, 1⟩,
      ⟨"customers", "sales", "7", 2, none, none, none, 2⟩, ⟨"orders", "sales", "20", 5, none, none, none, 3⟩,
      ⟨"orders", "sales", "", 3, some "25", some "30", some "id", 4⟩] ∧
    ∃ groups : List KeyGroup,
      stateKeys .bigQuery true toString (some 3) t.rows = some (groups.map (·.listed .bigQuery toString)) ∧
      ∀ r, r ∈ groups.map KeyGroup.newest ↔
        ((t.logRows .bigQuery).filter (keyOf · = keyOf r)).getLast? = some r ∧ r.runTs < 3 := by
  have hlater : Along (Table.step .bigQuery) Table.Later {} orderEvents := by decide +kernel
  have hend : (exec (Table.step .bigQuery) {} orderEvents).map (fun t => (t.log.length, t.logRows .bigQuery)) =
      some (4, [⟨"orders", "sales", "10", 5, none, none, none, 1⟩,
        ⟨"customers", "sales", "7", 2, none, none, none, 2⟩, ⟨"orders", "sales", "20", 5, none, none, none, 3⟩,
        ⟨"orders", "sales", "", 3, some "25", some "30", some "id", 4⟩]) := by decide +kernel
  obtain ⟨t, hrun, hview⟩ := Option.map_eq_some_iff.mp hend
  obtain ⟨hlength, hrows⟩ := Prod.mk.inj hview
  have hlen : t.log.length ≤ u64Max := by
    rw [hlength]
    decide
  obtain ⟨groups, hgroups, -, -, hmem, -⟩ :=
    state_keys_newest .bigQuery true toString (some 3) orderEvents t hlater hrun hlen
  rw [arrivals_bigQuery] at hgroups
  refine ⟨t, hrun, hrows, groups, hgroups, fun r => ?_⟩
  simpa using hmem r

end Quickhouse.StateLog
