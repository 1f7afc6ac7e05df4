import Mathlib.Data.List.Dedup
import Mathlib.Data.List.Perm.Subperm
import Mathlib.Data.List.Flatten
import Quickhouse.Sink.FullRefresh

/-!
# What a staging table holds

Each refresh sees its own staging table only (`View`), and no statement of another one touches it.  The table holds parts of
the refresh's own inserts, each that has its answer at least once, unless the server takes it for a repetition of another one;
where the inserts carry tokens that the server knows, once (`Run.Holds`).  Once every insert has its answer that is all the
rows that were read (`Run.Whole`).
-/

namespace Quickhouse.FullRefresh

open LateCalls Runs

/-! ### Staging tables have names of their own -/

theorem stagingName_ne (dest suffix runId : String) : stagingName dest suffix runId ≠ dest := by
  intro h
  have hlength := congrArg String.length h
  unfold stagingName at hlength
  simp only [String.length_append] at hlength
  have : "_".length = 1 := by decide
  omega

/-- The staging table a statement is about; of an exchange the second one. -/
def Statement.own {ρ : Type} : Statement ρ → String
  | .createTable table | .cloneTable table _ | .insert table _ | .exchangeTables _ table | .dropTable table => table

/-- A statement of the refresh with this staging table. -/
def Statement.OfRun {ρ : Type} (dest staging : String) (c : Statement ρ) : Prop :=
  c.own = staging ∧ ∀ d x, c = .exchangeTables d x → d = dest

def Statement.creates {ρ : Type} : Statement ρ → Bool
  | .createTable _ | .cloneTable _ _ => true
  | _ => false

def Statement.exchanges {ρ : Type} : Statement ρ → Bool
  | .exchangeTables _ _ => true
  | _ => false

/-- What a refresh can tell of the server: its staging table, how often it was exchanged, its late statements. -/
structure View (ρ : Type) where
  table : Option (Table ρ)
  swaps : Nat
  late : List (Statement ρ)

section

variable {ρ : Type} {e : Engine ρ}

def view (n : Net (Server ρ) (Statement ρ)) (staging : String) : View ρ where
  table := n.server.tables staging
  swaps := n.server.exchanged.count staging
  late := n.late.filter fun c => decide (c.own = staging)

theorem execute_clone {s s' : Server ρ} {table like : String} (h : execute e s (.cloneTable table like) = some s') :
    s.tables table = none ∧ s' = { s with tables := Function.update s.tables table (some {}) } := by
  rw [execute] at h
  split_ifs at h with hnew
  exact ⟨Option.isNone_iff_eq_none.mp hnew.1, (Option.some.inj h).symm⟩

theorem execute_exchange {s s' : Server ρ} {dest staging : String}
    (h : execute e s (.exchangeTables dest staging) = some s') :
    ∃ old new, s.tables dest = some old ∧ s.tables staging = some new ∧ s' = {
      tables := Function.update (Function.update s.tables dest (some new)) staging (some old)
      exchanged := s.exchanged ++ [staging] } := by
  rw [execute] at h
  split at h
  · rename_i old new hold hnew
    exact ⟨old, new, hold, hnew, (Option.some.inj h).symm⟩
  · cases h

/-- A statement leaves the tables it does not name. -/
theorem execute_other {s s' : Server ρ} {c : Statement ρ} {x : String} (h : execute e s c = some s') (hown : c.own ≠ x)
    (hdest : ∀ d y, c = .exchangeTables d y → d ≠ x) : s'.tables x = s.tables x ∧
      s'.exchanged.count x = s.exchanged.count x := by
  cases c with
  | createTable table =>
    obtain rfl := Option.some.inj h
    split_ifs
    · exact ⟨rfl, rfl⟩
    · exact ⟨Function.update_of_ne (Ne.symm hown) _ _, rfl⟩
  | cloneTable table like =>
    obtain ⟨-, rfl⟩ := execute_clone h
    exact ⟨Function.update_of_ne (Ne.symm hown) _ _, rfl⟩
  | insert table part =>
    obtain ⟨t, -, rfl⟩ := Option.map_eq_some_iff.mp h
    exact ⟨Function.update_of_ne (Ne.symm hown) _ _, rfl⟩
  | exchangeTables dest staging =>
    obtain ⟨old, new, -, -, rfl⟩ := execute_exchange h
    replace hown : staging ≠ x := hown
    refine ⟨?_, ?_⟩
    · dsimp only
      rw [Function.update_of_ne hown.symm, Function.update_of_ne (hdest dest staging rfl).symm]
    · rw [List.count_append, List.count_singleton, if_neg (by simpa using hown)]
      rfl
  | dropTable table =>
    obtain rfl := Option.some.inj h
    exact ⟨Function.update_of_ne (Ne.symm hown) _ _, rfl⟩

theorem view_call_other {n n' : Net (Server ρ) (Statement ρ)} {c : Statement ρ} {answered : Bool} {x : String}
    (h : n.call (execute e) c answered = some n') (hown : c.own ≠ x) (hdest : ∀ d y, c = .exchangeTables d y → d ≠ x) :
    view n' x = view n x := by
  rcases call_cases h with ⟨-, hexec, hlate⟩ | ⟨-, hserver, hlate⟩
  · obtain ⟨htable, hcount⟩ := execute_other hexec hown hdest
    unfold view
    rw [htable, hcount, hlate]
  · unfold view
    rw [hserver, hlate, List.filter_append, List.filter_cons_of_neg (by simpa using hown), List.filter_nil,
      List.append_nil]

theorem view_arrive_other {n n' : Net (Server ρ) (Statement ρ)} {c : Statement ρ} {before after : List (Statement ρ)}
    {x : String} (hlate : n.late = before ++ c :: after) (hlate' : n'.late = before ++ after)
    (h : execute e n.server c = some n'.server ∨ (execute e n.server c = none ∧ n'.server = n.server))
    (hown : c.own ≠ x) (hdest : ∀ d y, c = .exchangeTables d y → d ≠ x) : view n' x = view n x := by
  unfold view
  rw [hlate, hlate', List.filter_append, List.filter_append, List.filter_cons_of_neg (by simpa using hown)]
  rcases h with hexec | ⟨-, hserver⟩
  · obtain ⟨htable, hcount⟩ := execute_other hexec hown hdest
    rw [htable, hcount]
  · rw [hserver]

/-! ### What a staging table holds -/

namespace Run

def parts (r : Run ρ) : List (Part ρ) := r.inserts.map Insert.part

/-- Inserts are numbered, and no two have a token of the sink's own in common. -/
structure Numbered (r : Run ρ) : Prop where
  numbers : r.parts.map Part.number = List.range r.parts.length
  below : r.refresh.sink.callerToken = none → ∀ p ∈ r.parts, ∀ t, p.token = some t →
    ∃ k < r.epoch, t = r.refresh.sink.runToken ++ "-" ++ toString k
  apart : r.refresh.sink.callerToken = none → (r.parts.filterMap Part.token).Nodup
  tokened : r.refresh.sink.callerToken = none → r.refresh.sink.insertDedupToken = true → ∀ p ∈ r.parts, p.token ≠ none

/-- The part is in the table, or one of the same rows is. -/
structure Landed (e : Engine ρ) (sink : ClickHouseSink) (t : Table ρ) (p : Part ρ) : Prop where
  part : sink.KeepsEach e → p ∈ t.parts
  rows : sink.KeepsRows e → ∃ q ∈ t.parts, q.rows = p.rows

/-- What the refresh's inserts have made of a table. -/
structure Holds (e : Engine ρ) (r : Run ρ) (t : Table ρ) : Prop where
  own : ∀ p ∈ t.parts, p ∈ r.parts
  acked : ∀ i ∈ r.inserts, i.acked = true → Landed e r.refresh.sink t i.part
  once : e.dedups = true → (t.parts.filterMap Part.token).Nodup

/-- All that was read is there; as often at least, or as often. -/
structure Whole (e : Engine ρ) (r : Run ρ) (rows : List ρ) : Prop where
  only : ∀ x ∈ rows, x ∈ r.rowsRead
  covers : r.refresh.sink.KeepsRows e → ∀ x ∈ r.rowsRead, x ∈ rows
  all : r.refresh.sink.KeepsEach e → r.rowsRead.Subperm rows
  once : e.dedups = true → r.refresh.sink.insertDedupToken = true → r.refresh.sink.callerToken = none →
    rows.Perm r.rowsRead

end Run

theorem eq_of_nodup_filterMap {α β : Type} {f : α → Option β} {l : List α} (h : (l.filterMap f).Nodup) {a b : α}
    (ha : a ∈ l) (hb : b ∈ l) {y : β} (hfa : f a = some y) (hfb : f b = some y) : a = b := by
  induction l with
  | nil => cases ha
  | cons c l ih =>
    have hmem : ∀ {x : α}, x ∈ l → f x = some y → y ∈ l.filterMap f := fun hx hfx => List.mem_filterMap.mpr ⟨_, hx, hfx⟩
    rcases List.mem_cons.mp ha with rfl | hal
    · rcases List.mem_cons.mp hb with rfl | hbl
      · rfl
      · rw [List.filterMap_cons_some hfa, List.nodup_cons] at h
        exact absurd (hmem hbl hfb) h.1
    · rcases List.mem_cons.mp hb with rfl | hbl
      · rw [List.filterMap_cons_some hfb, List.nodup_cons] at h
        exact absurd (hmem hal hfa) h.1
      · refine ih ?_ hal hbl
        cases hfc : f c with
        | none => rwa [List.filterMap_cons_none hfc] at h
        | some z =>
          rw [List.filterMap_cons_some hfc, List.nodup_cons] at h
          exact h.2

theorem nodup_of_filterMap {α β : Type} {f : α → Option β} {l : List α} (hsome : ∀ a ∈ l, f a ≠ none)
    (h : (l.filterMap f).Nodup) : l.Nodup := by
  induction l with
  | nil => exact List.nodup_nil
  | cons c l ih =>
    obtain ⟨z, hz⟩ := Option.ne_none_iff_exists'.mp (hsome c List.mem_cons_self)
    rw [List.filterMap_cons_some hz, List.nodup_cons] at h
    refine List.nodup_cons.mpr ⟨fun hc => h.1 (List.mem_filterMap.mpr ⟨c, hc, hz⟩), ?_⟩
    exact ih (fun a ha => hsome a (List.mem_cons_of_mem c ha)) h.2

namespace Run

variable {r : Run ρ} {t : Table ρ} {p : Part ρ}

theorem Numbered.nodup (h : r.Numbered) : r.parts.Nodup := by
  apply List.Nodup.of_map Part.number
  rw [h.numbers]
  exact List.nodup_range

theorem Numbered.eq_of_token (h : r.Numbered) (hcaller : r.refresh.sink.callerToken = none) {q : Part ρ} (hp : p ∈ r.parts)
    (hq : q ∈ r.parts) (htoken : q.token = p.token) (hsome : p.token ≠ none) : q = p := by
  obtain ⟨y, hy⟩ := Option.ne_none_iff_exists'.mp hsome
  exact eq_of_nodup_filterMap (h.apart hcaller) hq hp (htoken.trans hy) hy

theorem repeats_token {q : Part ρ} (h : e.repeats p q = true) : q.token = p.token ∧ (p.token = none → q.rows = p.rows) := by
  unfold Engine.repeats at h
  split at h
  · rename_i token token' hp hq
    rw [hp, hq, of_decide_eq_true h]
    exact ⟨rfl, nofun⟩
  · rename_i hp hq
    exact ⟨hq.trans hp.symm, fun _ => (e.eq_of_sameBlock h).symm⟩
  · cases h

theorem insert_cases (e : Engine ρ) (t : Table ρ) (p : Part ρ) :
    (e.dedups = true ∧ ∃ q ∈ t.parts, e.repeats p q = true) ∧ t.insert e p = t ∨
      ((e.dedups = true → ∀ q ∈ t.parts, e.repeats p q = false) ∧ t.insert e p = ⟨t.parts ++ [p]⟩) := by
  unfold Table.insert
  split_ifs with hthere
  · obtain ⟨hdedups, hany⟩ := Bool.and_eq_true_iff.mp hthere
    exact .inl ⟨⟨hdedups, List.any_eq_true.mp hany⟩, rfl⟩
  · refine .inr ⟨fun hdedups q hq => ?_, rfl⟩
    rw [hdedups, Bool.true_and, Bool.not_eq_true, List.any_eq_false] at hthere
    exact Bool.eq_false_iff.mpr (hthere q hq)

/-- The part is there after the insert: it was put there, or had been before. -/
theorem Holds.landed_insert (hr : r.Numbered) (h : Holds e r t) (hp : p ∈ r.parts) :
    Landed e r.refresh.sink (t.insert e p) p := by
  rcases insert_cases e t p with ⟨⟨hdedups, q, hq, hrepeats⟩, hsame⟩ | ⟨-, hsame⟩
  · rw [hsame]
    obtain ⟨htoken, hrows⟩ := repeats_token hrepeats
    have hon : e.dedups ≠ false := by rw [hdedups]; nofun
    refine ⟨fun hkeeps => ?_, fun hkeeps => ⟨q, hq, ?_⟩⟩
    · obtain ⟨htokens, hcaller⟩ := hkeeps.resolve_left hon
      rwa [← hr.eq_of_token hcaller hp (h.own q hq) htoken (hr.tokened hcaller htokens p hp)]
    · by_cases hnone : p.token = none
      · exact hrows hnone
      · rw [hr.eq_of_token (hkeeps.resolve_left hon) hp (h.own q hq) htoken hnone]
  · rw [hsame]
    have hmem : p ∈ t.parts ++ [p] := List.mem_append_right _ (List.mem_singleton_self p)
    exact ⟨fun _ => hmem, fun _ => ⟨p, hmem, rfl⟩⟩

theorem subset_insert (e : Engine ρ) (t : Table ρ) (p : Part ρ) : t.parts ⊆ (t.insert e p).parts := by
  rcases insert_cases e t p with ⟨-, hsame⟩ | ⟨-, hsame⟩ <;> rw [hsame]
  · exact List.Subset.refl _
  · exact List.subset_append_left _ _

theorem Landed.mono {sink : ClickHouseSink} {t' : Table ρ} (h : Landed e sink t p) (hsub : t.parts ⊆ t'.parts) :
    Landed e sink t' p where
  part hkeeps := hsub (h.part hkeeps)
  rows hkeeps := by
    obtain ⟨q, hq, hrows⟩ := h.rows hkeeps
    exact ⟨q, hsub hq, hrows⟩

theorem Holds.insert (h : Holds e r t) (hp : p ∈ r.parts) : Holds e r (t.insert e p) := by
  refine ⟨fun q hq => ?_, fun i hi hacked => (h.acked i hi hacked).mono (subset_insert e t p), fun hdedups => ?_⟩
  · rcases insert_cases e t p with ⟨-, hsame⟩ | ⟨-, hsame⟩
    · exact h.own q (hsame ▸ hq)
    · rw [hsame] at hq
      rcases List.mem_append.mp hq with hq | hq
      · exact h.own q hq
      · rw [List.mem_singleton.mp hq]
        exact hp
  · rcases insert_cases e t p with ⟨-, hsame⟩ | ⟨hnew, hsame⟩
    · rw [hsame]
      exact h.once hdedups
    · rw [hsame, List.filterMap_append]
      cases htoken : p.token with
      | none => rw [List.filterMap_cons_none htoken, List.filterMap_nil, List.append_nil]; exact h.once hdedups
      | some y =>
        rw [List.filterMap_cons_some htoken, List.filterMap_nil, List.nodup_append_comm, List.singleton_append, List.nodup_cons]
        refine ⟨fun hy => ?_, h.once hdedups⟩
        obtain ⟨q, hq, hqy⟩ := List.mem_filterMap.mp hy
        have hno := hnew hdedups q hq
        unfold Engine.repeats at hno
        rw [htoken, hqy] at hno
        exact of_decide_eq_false hno rfl

/-- What a table holds only depends on the refresh's settings and inserts. -/
theorem Holds.congr {r' : Run ρ} (h : r.Holds e t) (hrefresh : r'.refresh = r.refresh) (hinserts : r'.inserts = r.inserts) :
    r'.Holds e t := by
  have hparts : r'.parts = r.parts := by
    unfold Run.parts
    rw [hinserts]
  refine ⟨fun p hp => hparts ▸ h.own p hp, fun i hi hacked => ?_, h.once⟩
  rw [hinserts] at hi
  rw [hrefresh]
  exact h.acked i hi hacked

theorem rowsRead_eq (r : Run ρ) : r.rowsRead = r.parts.flatMap Part.rows := by
  unfold rowsRead parts
  rw [List.flatMap_map]

/-- Once every insert has its answer, the table holds all that was read. -/
theorem Holds.whole (hr : r.Numbered) (h : Holds e r t) (hacked : ∀ i ∈ r.inserts, i.acked = true) : r.Whole e t.rows := by
  have hlanded : ∀ p ∈ r.parts, Landed e r.refresh.sink t p := by
    intro p hp
    obtain ⟨i, hi, rfl⟩ := List.mem_map.mp hp
    exact h.acked i hi (hacked i hi)
  refine ⟨fun x hx => ?_, fun hkeeps x hx => ?_, fun hkeeps => ?_, fun hdedups htokens hcaller => ?_⟩
  · obtain ⟨p, hp, hxp⟩ := List.mem_flatMap.mp hx
    rw [rowsRead_eq]
    exact List.mem_flatMap.mpr ⟨p, h.own p hp, hxp⟩
  · rw [rowsRead_eq] at hx
    obtain ⟨p, hp, hxp⟩ := List.mem_flatMap.mp hx
    obtain ⟨q, hq, hrows⟩ := (hlanded p hp).rows hkeeps
    exact List.mem_flatMap.mpr ⟨q, hq, hrows ▸ hxp⟩
  · obtain ⟨l, hperm, hsub⟩ := List.subperm_of_subset hr.nodup fun p hp => (hlanded p hp).part hkeeps
    rw [rowsRead_eq]
    exact ⟨l.flatMap Part.rows, hperm.flatMap_right _, hsub.flatMap _⟩
  · rw [rowsRead_eq]
    refine List.Perm.flatMap_right _ ((List.perm_ext_iff_of_nodup ?_ hr.nodup).mpr fun p => ⟨h.own p, fun hp => ?_⟩)
    · have hsome : ∀ p ∈ t.parts, p.token ≠ none := fun p hp => hr.tokened hcaller htokens p (h.own p hp)
      exact nodup_of_filterMap hsome (h.once hdedups)
    · exact (hlanded p hp).part (.inr ⟨htokens, hcaller⟩)

end Run

end

end Quickhouse.FullRefresh
