import Quickhouse.Lib.Runs
import Quickhouse.Lib.Supersede
import Quickhouse.Sink.StateStore

/-!
# Compacting the state table

Every write of a cursor adds a row, so the table grows until the rows that have a newer one of their key are taken out:
ClickHouse merges them away in the background, or all of them on request, and on BigQuery a statement deletes them.  Writes
may come in between the statements of a compaction.

As long as a key's writes come in the order of their times, no read can tell (`compaction_invisible`): it returns what it
would from a table that was never compacted.
-/

namespace Quickhouse.StateLog

open Runs Supersede

/-- The sorting key of the table. -/
def keyOf (r : StateRow) : String × String := (r.sourceTable, r.destTable)

/-! ### The statements -/

/-- How far a compaction has come: it has counted all the rows (ClickHouse) or the stale ones (BigQuery), or taken the
stale ones out of the `before` rows it counted. -/
inductive Progress where
  | idle
  | counted (n : Nat)
  | optimized (before : Nat)
  deriving DecidableEq, Repr

/-- The table, the writes that reached it with their times, and what the compactions have returned. -/
structure Table where
  rows : List StateRow := []
  log : List (StateWrite × Nat) := []
  progress : Progress := .idle
  reports : List Nat := []
  deriving DecidableEq

/-- The count and the `DELETE` of `build_compact_state_sql` have this condition. -/
def stale (rows : List StateRow) (r : StateRow) : Bool := superseded keyOf StateRow.runTs rows r

def countStale (rows : List StateRow) : Nat := rows.countP (stale rows)

def deleteStale (rows : List StateRow) : List StateRow := rows.filter fun r => !stale rows r

/-- `OPTIMIZE TABLE … FINAL` of a `ReplacingMergeTree` with `run_ts` as its version. -/
def optimizeFinal (rows : List StateRow) : List StateRow := replacing keyOf StateRow.runTs rows

/-- A write; a merge in the background, which takes out what it likes of the stale rows; and what a compaction does, one
statement after the other.  The job of a `DELETE` may not say how many rows it affected. -/
inductive Event where
  | persist (w : StateWrite) (runTs : Nat)
  | merge (keeps : StateRow → Bool)
  | count
  | remove (affected : Bool)
  | recount

namespace Table

variable (e : StateEngine)

def persist (t : Table) (w : StateWrite) (runTs : Nat) : Option Table :=
  (execInsert e (w.insert e) runTs).map fun row => { t with rows := t.rows ++ [row], log := t.log ++ [(w, runTs)] }

def count (t : Table) : Table :=
  match e with
  | .clickHouse => { t with progress := .counted t.rows.length }
  | .bigQuery =>
    -- no `DELETE` is run
    if countStale t.rows = 0 then { t with reports := t.reports ++ [0] }
    else { t with progress := .counted (countStale t.rows) }

def remove (t : Table) (n : Nat) (affected : Bool) : Table :=
  match e with
  | .clickHouse => { t with rows := optimizeFinal t.rows, progress := .optimized n }
  | .bigQuery =>
    { t with
      rows := deleteStale t.rows
      progress := .idle
      reports := t.reports ++ [if affected then countStale t.rows else n] }

/-- `before.saturating_sub(after)`. -/
def recount (t : Table) (before : Nat) : Table :=
  { t with progress := .idle, reports := t.reports ++ [before - t.rows.length] }

def step (t : Table) : Event → Option Table
  | .persist w runTs => t.persist e w runTs
  | .merge keeps =>
    if e = .clickHouse then some { t with rows := t.rows.filter fun r => !stale t.rows r || keeps r } else none
  | .count => if t.progress = .idle then some (t.count e) else none
  | .remove affected => match t.progress with
    | .counted n => some (t.remove e n affected)
    | _ => none
  | .recount => match t.progress with
    | .optimized before => some (t.recount before)
    | _ => none

/-- `compact_state` when nothing comes in between. -/
def compactState (t : Table) (affected : Bool) : Table :=
  let counted := t.count e
  match counted.progress with
  | .counted n =>
    let removed := counted.remove e n affected
    match removed.progress with
    | .optimized before => removed.recount before
    | _ => removed
  | _ => counted

/-- What a read sees: ClickHouse's cursor reads have `FINAL`. -/
def visible (t : Table) : List StateRow :=
  match e with
  | .clickHouse => optimizeFinal t.rows
  | .bigQuery => t.rows

/-- The rows of a table that is never compacted. -/
def logRows (t : Table) : List StateRow := t.log.map fun w => w.1.row e w.2

/-- A key's writes come in the order of their times. -/
def Later (t : Table) : Event → Prop
  | .persist w runTs => ∀ u ∈ t.log, u.1.key = w.key → u.2 < runTs
  | _ => True

instance Later.decidable (t : Table) : (event : Event) → Decidable (t.Later event)
  | .persist w runTs => inferInstanceAs (Decidable (∀ u ∈ t.log, u.1.key = w.key → u.2 < runTs))
  | .merge _ | .count | .remove _ | .recount => isTrue trivial

/-- Only stale rows of the log are missing, and what the compactions return is no more than was taken out. -/
structure Inv (t : Table) : Prop where
  kept : t.rows.Sublist (t.logRows e)
  ordered : Ordered keyOf StateRow.runTs (t.logRows e)
  newest : live keyOf StateRow.runTs (t.logRows e) ⊆ t.rows
  count : t.rows.length + t.reports.sum ≤ t.log.length
  counted : ∀ n, t.progress = .counted n → e = .bigQuery → n ≤ countStale t.rows
  before : ∀ n, (t.progress = .counted n ∧ e = .clickHouse) ∨ t.progress = .optimized n → n + t.reports.sum ≤ t.log.length

end Table

/-! ### Reads -/

section

variable {e : StateEngine} {rows rows' : List StateRow}

theorem deleteStale_eq : deleteStale rows = live keyOf StateRow.runTs rows := rfl

theorem optimizeFinal_eq (h : Ordered keyOf StateRow.runTs rows) : optimizeFinal rows = deleteStale rows :=
  replacing_eq_live h

theorem length_deleteStale : (deleteStale rows).length + countStale rows = rows.length := by
  unfold deleteStale countStale
  rw [← List.countP_eq_length_filter, List.length_eq_countP_add_countP (stale rows)]
  simp only [Bool.not_eq_true, ← Bool.not_eq_true', Bool.decide_eq_true]
  omega

theorem deleteStale_deleteStale : deleteStale (deleteStale rows) = deleteStale rows := live_live

theorem countStale_deleteStale : countStale (deleteStale rows) = 0 := by
  have hlen := @length_deleteStale (deleteStale rows)
  rw [deleteStale_deleteStale] at hlen
  omega

theorem deleteStale_of_countStale (h : countStale rows = 0) : deleteStale rows = rows := by
  apply List.filter_eq_self.mpr
  intro r hr
  simpa using List.countP_eq_zero.mp h r hr

theorem countStale_append (row : StateRow) : countStale rows ≤ countStale (rows ++ [row]) := by
  unfold countStale
  rw [List.countP_append]
  have hmono : rows.countP (stale rows) ≤ rows.countP (stale (rows ++ [row])) := by
    apply List.countP_mono_left
    intro r _ hr
    exact superseded_mono (List.subset_append_left rows [row]) hr
  omega

/-- Of one key's rows, those that are newer come later. -/
theorem latest_eq (h : Ordered keyOf StateRow.runTs rows) (k : String × String) :
    latest (rows.filter (keyOf · = k)) = (rows.filter (keyOf · = k)).getLast? := by
  apply latest_eq_getLast?
  have hordered := h.sublist (List.filter_sublist (p := (keyOf · = k)))
  refine List.Pairwise.imp_of_mem ?_ hordered
  intro a b ha hb hlt
  have ha : keyOf a = k := by simpa using (List.mem_filter.mp ha).2
  have hb : keyOf b = k := by simpa using (List.mem_filter.mp hb).2
  exact hlt (ha.trans hb.symm)

/-- A read finds the same row when only stale rows are missing. -/
theorem selectState_kept (h : Ordered keyOf StateRow.runTs rows) (hsub : rows'.Sublist rows)
    (hlive : live keyOf StateRow.runTs rows ⊆ rows') (key dest : String) :
    selectState e rows' key dest = selectState e rows key dest := by
  have hkey : ∀ rows : List StateRow, rows.filter (fun r => decide (r.sourceTable = key ∧ r.destTable = dest)) =
      rows.filter (keyOf · = (key, dest)) := by
    intro rows
    apply List.filter_congr
    intro r _
    rw [keyOf, decide_eq_decide, Prod.mk.injEq]
  unfold selectState
  rw [lexCondition_stateCondition, Option.map_some, Option.map_some]
  dsimp only
  rw [hkey, hkey, latest_eq h, latest_eq (h.sublist hsub), getLast?_kept h hsub hlive]

end

/-! ### Every step -/

namespace Table

variable {e : StateEngine} {t t' : Table}

theorem Inv.rows_ordered (h : t.Inv e) : Ordered keyOf StateRow.runTs t.rows := h.ordered.sublist h.kept

/-- No newest row is lost when the stale ones are taken out. -/
theorem Inv.newest_kept (h : t.Inv e) {rows : List StateRow} (hrows : deleteStale t.rows ⊆ rows) :
    live keyOf StateRow.runTs (t.logRows e) ⊆ rows := by
  intro r hr
  have hnot : stale t.rows r = false := by
    by_contra hstale
    have hlog := superseded_mono h.kept.subset (by simpa [stale] using hstale)
    rw [(mem_live.mp hr).2] at hlog
    cases hlog
  exact hrows (mem_live.mpr ⟨h.newest hr, hnot⟩)

theorem keyOf_row (w : StateWrite) (runTs : Nat) : keyOf (w.row e runTs) = w.key := w.row_key e runTs

theorem inv_start : Table.Inv e {} where
  kept := List.Sublist.refl _
  ordered := List.Pairwise.nil
  newest := List.nil_subset _
  count := le_refl _
  counted _ hprogress := nomatch hprogress
  before _ hprogress := by simp at hprogress

theorem inv_persist {w : StateWrite} {runTs : Nat} (h : t.Inv e) (hlater : t.Later (.persist w runTs)) :
    Inv e { t with rows := t.rows ++ [w.row e runTs], log := t.log ++ [(w, runTs)] } := by
  have hrows : logRows e { t with rows := t.rows ++ [w.row e runTs], log := t.log ++ [(w, runTs)] } =
      t.logRows e ++ [w.row e runTs] := by simp [logRows]
  have hordered : Ordered keyOf StateRow.runTs (t.logRows e ++ [w.row e runTs]) := by
    refine List.pairwise_append.mpr ⟨h.ordered, List.pairwise_singleton _ _, ?_⟩
    intro a ha b hb hkey
    obtain rfl := List.mem_singleton.mp hb
    obtain ⟨u, hu, rfl⟩ := List.mem_map.mp ha
    rw [keyOf_row, keyOf_row] at hkey
    rw [StateWrite.row_runTs, StateWrite.row_runTs]
    exact hlater u hu hkey
  refine ⟨?_, ?_, ?_, ?_, ?_, ?_⟩
  · rw [hrows]
    exact h.kept.append (List.Sublist.refl _)
  · rw [hrows]
    exact hordered
  · rw [hrows, live_snoc hordered]
    intro r hr
    rcases List.mem_append.mp hr with hr | hr
    · exact List.mem_append_left _ (h.newest (List.mem_filter.mp hr).1)
    · exact List.mem_append_right _ hr
  · have hcount := h.count
    simp only [List.length_append, List.length_singleton]
    omega
  -- a write after the count can only make more rows stale
  · intro n hprogress he
    exact (h.counted n hprogress he).trans (countStale_append _)
  · intro n hprogress
    have hbefore := h.before n hprogress
    simp only [List.length_append, List.length_singleton]
    omega

theorem inv_merge (keeps : StateRow → Bool) (h : t.Inv .clickHouse) :
    Inv .clickHouse { t with rows := t.rows.filter fun r => !stale t.rows r || keeps r } := by
  have hsub : (t.rows.filter fun r => !stale t.rows r || keeps r).Sublist t.rows := List.filter_sublist
  refine ⟨hsub.trans h.kept, h.ordered, h.newest_kept ?_, ?_, nofun, h.before⟩
  · intro r hr
    obtain ⟨hrows, hnot⟩ := List.mem_filter.mp hr
    exact List.mem_filter.mpr ⟨hrows, by simp [hnot]⟩
  · have hcount := h.count
    have hlen := hsub.length_le
    dsimp only
    omega

theorem inv_count (h : t.Inv e) (hidle : t.progress = .idle) : (t.count e).Inv e := by
  obtain ⟨hkept, hordered, hnewest, hcount, -, -⟩ := h
  unfold count
  cases e with
  | clickHouse =>
    refine ⟨hkept, hordered, hnewest, hcount, nofun, ?_⟩
    rintro n (⟨hprogress, -⟩ | hprogress)
    · obtain rfl := Progress.counted.inj hprogress
      exact hcount
    · cases hprogress
  | bigQuery =>
    dsimp only
    split_ifs with hstale
    · refine ⟨hkept, hordered, hnewest, ?_, ?_, ?_⟩
      · simpa using hcount
      · intro n hprogress
        rw [hidle] at hprogress
        cases hprogress
      · intro n hprogress
        simp [hidle] at hprogress
    · refine ⟨hkept, hordered, hnewest, hcount, ?_, ?_⟩
      · intro n hprogress _
        exact (Progress.counted.inj hprogress).ge
      · intro n hprogress
        simp at hprogress

theorem inv_remove {n : Nat} (affected : Bool) (h : t.Inv e) (hprogress : t.progress = .counted n) :
    (t.remove e n affected).Inv e := by
  have hcount := h.count
  have hlen := @length_deleteStale t.rows
  have hnewest := h.newest_kept (List.Subset.refl _)
  have hkept : (deleteStale t.rows).Sublist (t.logRows e) := List.filter_sublist.trans h.kept
  unfold remove
  cases e with
  | clickHouse =>
    have hbefore := h.before n (.inl ⟨hprogress, rfl⟩)
    dsimp only
    rw [optimizeFinal_eq h.rows_ordered]
    refine ⟨hkept, h.ordered, hnewest, ?_, nofun, ?_⟩
    · dsimp only
      omega
    · rintro m (⟨hm, -⟩ | hm)
      · cases hm
      · obtain rfl := Progress.optimized.inj hm
        exact hbefore
  | bigQuery =>
    have hcounted := h.counted n hprogress rfl
    refine ⟨hkept, h.ordered, hnewest, ?_, nofun, ?_⟩
    -- the count may be too low by now, but never too high
    · rw [List.sum_append, List.sum_singleton]
      dsimp only
      split_ifs <;> omega
    · intro m hm
      simp at hm

theorem inv_recount {before : Nat} (h : t.Inv e) (hprogress : t.progress = .optimized before) :
    (t.recount before).Inv e := by
  have hbefore := h.before before (.inr hprogress)
  have hcount := h.count
  unfold recount
  refine ⟨h.kept, h.ordered, h.newest, ?_, nofun, ?_⟩
  -- rows that were written since make the difference smaller, or 0
  · rw [List.sum_append, List.sum_singleton]
    dsimp only
    omega
  · intro m hm
    simp at hm

theorem inv_step {event : Event} (h : t.Inv e) (hlater : t.Later event) (hstep : t.step e event = some t') :
    t'.Inv e := by
  cases event with
  | persist w runTs =>
    rw [step, persist, execInsert_insert, Option.map_some] at hstep
    obtain rfl := Option.some.inj hstep
    exact inv_persist h hlater
  | merge keeps =>
    rw [step] at hstep
    split_ifs at hstep with he
    obtain rfl := Option.some.inj hstep
    subst he
    exact inv_merge keeps h
  | count =>
    rw [step] at hstep
    split_ifs at hstep
    obtain rfl := Option.some.inj hstep
    exact inv_count h ‹_›
  | remove affected =>
    rw [step] at hstep
    split at hstep
    · rename_i n hprogress
      obtain rfl := Option.some.inj hstep
      exact inv_remove affected h hprogress
    · cases hstep
  | recount =>
    rw [step] at hstep
    split at hstep
    · rename_i before hprogress
      obtain rfl := Option.some.inj hstep
      exact inv_recount h hprogress
    · cases hstep

/-! ### A compaction that nothing comes in between -/

theorem compactState_eq (h : Ordered keyOf StateRow.runTs t.rows) (hidle : t.progress = .idle) (affected : Bool) :
    t.compactState e affected =
      { t with rows := deleteStale t.rows, reports := t.reports ++ [countStale t.rows] } := by
  have hlen := @length_deleteStale t.rows
  obtain ⟨rows, log, progress, reports⟩ := t
  dsimp only at h hidle hlen ⊢
  subst hidle
  unfold compactState count
  cases e with
  | clickHouse =>
    dsimp only [remove, recount]
    rw [optimizeFinal_eq h, show rows.length - (deleteStale rows).length = countStale rows by omega]
  | bigQuery =>
    dsimp only
    split_ifs with hstale
    · dsimp only
      rw [deleteStale_of_countStale hstale, hstale]
    · dsimp only [remove]
      rw [ite_self]

/-- It is a run of its statements. -/
theorem compactState_run (hidle : t.progress = .idle) (affected : Bool) : ∃ events,
    Along (step e) Later t events ∧ exec (step e) t events = some (t.compactState e affected) := by
  obtain ⟨rows, log, progress, reports⟩ := t
  dsimp only at hidle
  subst hidle
  cases e with
  | clickHouse => exact ⟨[.count, .remove affected, .recount], by simp [Along, Later], rfl⟩
  | bigQuery =>
    by_cases hstale : countStale rows = 0
    · exact ⟨[.count], by simp [Along, Later], by simp [exec, step, compactState, count, hstale]⟩
    · exact ⟨[.count, .remove affected], by simp [Along, Later], by simp [exec, step, compactState, count, remove, hstale]⟩

/-! ### Every run -/

/-- Every read returns what it would from a table that was never compacted. -/
def ReadsAsWritten (e : StateEngine) (t : Table) : Prop :=
  ∃ rows, persistAll e t.log = some rows ∧ ∀ charset key dest,
    readLastWatermark e charset (t.visible e) key dest = readLastWatermark e charset rows key dest ∧
      readChunkState e charset (t.visible e) key dest = readChunkState e charset rows key dest

theorem Inv.visible_kept (h : t.Inv e) :
    (t.visible e).Sublist (t.logRows e) ∧ live keyOf StateRow.runTs (t.logRows e) ⊆ t.visible e := by
  unfold visible
  cases e with
  | clickHouse =>
    dsimp only
    rw [optimizeFinal_eq h.rows_ordered]
    exact ⟨List.filter_sublist.trans h.kept, h.newest_kept (List.Subset.refl _)⟩
  | bigQuery => exact ⟨h.kept, h.newest⟩

theorem Inv.reads (h : t.Inv e) : t.ReadsAsWritten e := by
  refine ⟨t.logRows e, persistAll_eq e t.log, fun charset key dest => ?_⟩
  obtain ⟨hsub, hnewest⟩ := h.visible_kept
  have hselect := selectState_kept (e := e) h.ordered hsub hnewest key dest
  unfold readLastWatermark readChunkState
  rw [hselect]
  exact ⟨rfl, rfl⟩

theorem Inv.keys (h : t.Inv e) (k : String × String) :
    k ∈ (deleteStale t.rows).map keyOf ↔ k ∈ t.log.map fun w => w.1.key := by
  have hlog : (t.logRows e).map keyOf = t.log.map fun w => w.1.key := by
    unfold logRows
    rw [List.map_map]
    exact List.map_congr_left fun w _ => keyOf_row w.1 w.2
  rw [deleteStale_eq, mem_live_keys h.rows_ordered, ← hlog]
  constructor
  · exact fun hk => (h.kept.map keyOf).subset hk
  · intro hk
    have hlive := (mem_live_keys h.ordered).mpr hk
    obtain ⟨r, hr, rfl⟩ := List.mem_map.mp hlive
    exact List.mem_map_of_mem (h.newest hr)

end Table

/-- The table is written, merged and compacted in any order, with writes between the statements of a compaction.  Every
read returns what it would if nothing had been taken out, and no more rows are reported than were.  A compaction that
nothing comes in between leaves each key one row, loses no key, and reports the rows it took out; the next one reports
none. -/
theorem compaction_invisible (e : StateEngine) (events : List Event) (t : Table)
    (hlater : Along (Table.step e) Table.Later {} events) (hrun : exec (Table.step e) {} events = some t) :
    t.ReadsAsWritten e ∧ t.rows.length + t.reports.sum ≤ t.log.length ∧
      (t.progress = .idle → ∀ affected, ∃ t', t.compactState e affected = t' ∧ t'.ReadsAsWritten e ∧ t'.log = t.log ∧
        (t'.rows.map keyOf).Nodup ∧ (∀ k, k ∈ t'.rows.map keyOf ↔ k ∈ t.log.map fun w => w.1.key) ∧
        t'.reports = t.reports ++ [t.rows.length - t'.rows.length] ∧
        t'.compactState e affected = { t' with reports := t'.reports ++ [0] }) := by
  have hstep : ∀ (s : Table) (event : Event) (s' : Table), s.Inv e → s.Later event → s.step e event = some s' → s'.Inv e :=
    fun _ _ _ h hlater hstep => Table.inv_step h hlater hstep
  have h : t.Inv e := exec_invariant_along hstep Table.inv_start hlater hrun
  refine ⟨h.reads, h.count, fun hidle affected => ⟨_, rfl, ?_⟩⟩
  obtain ⟨steps, hsteps, hexec⟩ := Table.compactState_run (e := e) hidle affected
  have h' : (t.compactState e affected).Inv e := exec_invariant_along hstep h hsteps hexec
  have hreads := h'.reads
  have hordered := h'.rows_ordered
  have hlen := @length_deleteStale t.rows
  rw [Table.compactState_eq h.rows_ordered hidle] at hreads hordered ⊢
  refine ⟨hreads, rfl, live_nodup h.rows_ordered, h.keys, ?_, ?_⟩
  · rw [show t.rows.length - (deleteStale t.rows).length = countStale t.rows by omega]
  · rw [Table.compactState_eq hordered hidle]
    dsimp only
    rw [deleteStale_deleteStale, countStale_deleteStale]

/-- The second write of `orders` makes its first one stale, and the third comes between the count and the `DELETE`. -/
def orderEvents : List Event :=
  [.persist (.watermark "orders" "sales" "10" 5) 1, .persist (.watermark "customers" "sales" "7" 2) 2,
    .persist (.watermark "orders" "sales" "20" 5) 3, .count, .persist (.chunkCursor "orders" "sales" none "25" "30" "id" 3) 4,
    .remove true]

theorem orders_compacted : ∃ t, exec (Table.step .bigQuery) {} orderEvents = some t ∧ t.reports = [2] ∧
    t.rows.map (·.runTs) = [2, 4] ∧ t.ReadsAsWritten .bigQuery ∧ t.rows.length + t.reports.sum ≤ t.log.length ∧
    ∃ t', t.compactState .bigQuery true = t' ∧ t'.ReadsAsWritten .bigQuery ∧ (t'.rows.map keyOf).Nodup := by
  have hlater : Along (Table.step .bigQuery) Table.Later {} orderEvents := by decide +kernel
  have hend : (exec (Table.step .bigQuery) {} orderEvents).map (fun t => (t.reports, t.rows.map (·.runTs), t.progress)) =
      some ([2], [2, 4], .idle) := by decide +kernel
  obtain ⟨t, hrun, hview⟩ := Option.map_eq_some_iff.mp hend
  obtain ⟨hreports, hrows, hidle⟩ : t.reports = [2] ∧ t.rows.map (·.runTs) = [2, 4] ∧ t.progress = .idle := by
    simpa using hview
  have hmain := compaction_invisible .bigQuery orderEvents t hlater hrun
  obtain ⟨t', ht', hreads, -, hnodup, -⟩ := hmain.2.2 hidle true
  exact ⟨t, hrun, hreports, hrows, hmain.1, hmain.2.1, t', ht', hreads, hnodup⟩

end Quickhouse.StateLog
