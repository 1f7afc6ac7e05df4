import Quickhouse.Lib.Links
import Quickhouse.Source.CleverTap

/-!
# The page loops end

The CleverTap loop asks for a cursor only if it has not asked for it before, so it ends wherever the server's cursors
are finitely many.  The HTTP loop compares a cursor with the one before it only: a cycle of two pages or more it walks
for ever.
-/

namespace Quickhouse

open Links

variable {β η : Type}

/-- No request is repeated, and the records are those of the pages, in order. -/
structure EachOnce {κ : Type} (recordsOf : κ → List Json) (requests : List κ) (result : Except EtlError (List Json)) :
    Prop where
  nodup : requests.Nodup
  records : ∀ records, result = .ok records → records = requests.flatMap recordsOf

namespace HttpApiSource

variable {src : HttpApiSource} {client : HttpClient β} {first last : String} {headers : List String}

/-- The loop asks for the cursors of the walk along the links. -/
theorem fetchFrom_follow (fuel : Nat) (before : List (Option String)) (cursor : Option String) (out : List Json) :
    (src.fetchFrom client first last headers fuel cursor out).map (fun r => before ++ r.1) =
      follow (src.nextOf client first last headers) other fuel before cursor := by
  induction fuel generalizing before cursor out with
  | zero => rfl
  | succ fuel ih =>
    unfold fetchFrom
    cases hpage : src.fetchPage client first last headers cursor with
    | error e =>
      have hlink : src.nextOf client first last headers cursor = none := by rw [nextOf, hpage]
      rw [follow_of_none hlink]
      rfl
    | ok page =>
      obtain ⟨records, next⟩ := page
      cases next with
      | none =>
        have hlink : src.nextOf client first last headers cursor = none := by rw [nextOf, hpage]
        rw [follow_of_none hlink]
        rfl
      | some next =>
        have hlink : src.nextOf client first last headers cursor = some (some next) := by rw [nextOf, hpage]
        rw [follow_of_some hlink]
        by_cases hnext : some next = cursor
        · simp [other, hnext]
        · simp only [ne_eq, hnext, not_false_eq_true, if_true, other, decide_true, Option.map_map]
          rw [← ih (before ++ [cursor]) (some next) (out ++ records)]
          simp [Function.comp_def]

theorem fetchFrom_records {fuel : Nat} {cursor : Option String} {out records : List Json}
    {requests : List (Option String)}
    (h : src.fetchFrom client first last headers fuel cursor out = some (requests, .ok records)) :
    records = out ++ requests.flatMap (src.recordsOf client first last headers) := by
  induction fuel generalizing cursor out requests with
  | zero => cases h
  | succ fuel ih =>
    unfold fetchFrom at h
    cases hpage : src.fetchPage client first last headers cursor with
    | error e =>
      rw [hpage] at h
      cases h
    | ok page =>
      obtain ⟨found, next⟩ := page
      have hfound : src.recordsOf client first last headers cursor = found := by rw [recordsOf, hpage]
      rw [hpage] at h
      cases next with
      | none =>
        obtain ⟨rfl, hout⟩ := Prod.mk.inj (Option.some.inj h)
        obtain rfl := Except.ok.inj hout
        simp [hfound]
      | some next =>
        dsimp only at h
        split_ifs at h with hnext
        · obtain ⟨⟨requests', result⟩, hrest, heq⟩ := Option.map_eq_some_iff.mp h
          obtain ⟨rfl, rfl⟩ := Prod.mk.inj heq
          rw [ih hrest]
          simp [hfound]
        · obtain ⟨rfl, hout⟩ := Prod.mk.inj (Option.some.inj h)
          obtain rfl := Except.ok.inj hout
          simp [hfound]

/-- It ends, with each page once, just where a cursor that comes back is the one its own page names. -/
theorem fetchRecords_iff (hfinite : {c | ∃ n, walk (src.nextOf client first last headers) none n = some c}.Finite) :
    (∃ fuel requests result, src.fetchRecords client first last headers fuel = some (requests, result) ∧
      EachOnce (src.recordsOf client first last headers) requests result) ↔
    BackAtOnce (src.nextOf client first last headers) none := by
  rw [← follow_other_iff hfinite]
  constructor
  · rintro ⟨fuel, requests, result, hfetch, _⟩
    refine ⟨fuel, requests, ?_⟩
    rw [← fetchFrom_follow fuel [] none []]
    unfold fetchRecords at hfetch
    rw [hfetch]
    rfl
  · rintro ⟨fuel, requests, hfollow⟩
    have hnodup := follow_other_nodup hfollow
    rw [← fetchFrom_follow fuel [] none []] at hfollow
    obtain ⟨⟨requests', result⟩, hfetch, rfl⟩ := Option.map_eq_some_iff.mp hfollow
    refine ⟨fuel, requests', result, hfetch, by simpa using hnodup, fun records hok => ?_⟩
    rw [hok] at hfetch
    simpa using fetchFrom_records hfetch

end HttpApiSource

namespace CleverTapExport

variable [DecidableEq η] {job : CleverTapExport η} {client : CleverTapClient β}

/-- Goes on to a cursor whose hash is new. -/
def fresh (job : CleverTapExport η) (before : List String) (cursor next : String) : Bool :=
  job.cursorHash next ∉ (before ++ [cursor]).map job.cursorHash

theorem fresh_not_mem (before : List String) (cursor next : String) (h : job.fresh before cursor next = true) :
    next ∉ before ++ [cursor] := by
  intro hmem
  have hhash : job.cursorHash next ∉ (before ++ [cursor]).map job.cursorHash := by simpa only [fresh, decide_eq_true_eq] using h
  exact hhash (List.mem_map_of_mem hmem)

theorem exportFrom_follow (fuel : Nat) (before : List String) (seen : List η) (cursor : String) (r : ExportRead)
    (hseen : ∀ x, x ∈ seen ↔ x ∈ (before ++ [cursor]).map job.cursorHash) :
    (job.exportFrom client fuel seen cursor r).map (fun out => before ++ out.1) =
      follow (job.nextOf client) job.fresh fuel before cursor := by
  induction fuel generalizing before seen cursor r with
  | zero => rfl
  | succ fuel ih =>
    unfold exportFrom
    cases hpage : client.nextPage job.baseUrl cursor with
    | error e =>
      have hlink : job.nextOf client cursor = none := by rw [nextOf, hpage]
      rw [follow_of_none hlink]
      rfl
    | ok page =>
      have hlink : job.nextOf client cursor = page.nextCursor := by rw [nextOf, hpage]
      dsimp only
      cases hnext : page.nextCursor with
      | none =>
        rw [follow_of_none (hlink.trans hnext)]
        rfl
      | some next =>
        rw [follow_of_some (hlink.trans hnext)]
        dsimp only
        by_cases hmet : job.cursorHash next ∈ seen
        · have hstale : job.fresh before cursor next = false := by
            unfold fresh
            rw [decide_eq_false_iff_not, not_not]
            exact (hseen _).mp hmet
          simp [hmet, hstale]
        · have hfresh : job.fresh before cursor next = true := by
            unfold fresh
            rw [decide_eq_true_iff]
            exact mt (hseen _).mpr hmet
          have hnow : ∀ x, x ∈ job.cursorHash next :: seen ↔
              x ∈ (before ++ [cursor] ++ [next]).map job.cursorHash := by
            intro x
            rw [List.mem_cons, hseen]
            simp only [List.map_append, List.mem_append, List.map_cons, List.map_nil, List.mem_singleton]
            tauto
          rw [if_neg hmet, if_pos hfresh, ← ih (before ++ [cursor]) _ next (job.take r page) hnow]
          simp [Function.comp_def]

theorem exportFrom_records {fuel : Nat} {seen : List η} {cursor : String} {r r' : ExportRead} {requests : List String}
    (h : job.exportFrom client fuel seen cursor r = some (requests, .ok r')) :
    r'.records = r.records ++ requests.flatMap (job.recordsOf client) := by
  induction fuel generalizing seen cursor r requests with
  | zero => cases h
  | succ fuel ih =>
    unfold exportFrom at h
    cases hpage : client.nextPage job.baseUrl cursor with
    | error e =>
      rw [hpage] at h
      cases h
    | ok page =>
      have hfound : job.recordsOf client cursor = page.records := by rw [recordsOf, hpage]
      rw [hpage] at h
      dsimp only at h
      cases hnext : page.nextCursor with
      | none =>
        rw [hnext] at h
        obtain ⟨rfl, hout⟩ := Prod.mk.inj (Option.some.inj h)
        obtain rfl := Except.ok.inj hout
        simp [take, hfound]
      | some next =>
        rw [hnext] at h
        dsimp only at h
        split_ifs at h with hmet
        · obtain ⟨rfl, hout⟩ := Prod.mk.inj (Option.some.inj h)
          obtain rfl := Except.ok.inj hout
          simp [take, stopped, hfound]
        · obtain ⟨⟨requests', result⟩, hrest, heq⟩ := Option.map_eq_some_iff.mp h
          obtain ⟨rfl, rfl⟩ := Prod.mk.inj heq
          rw [ih hrest]
          simp [take, hfound]

omit [DecidableEq η] in
theorem single_records (r : ExportRead) : (job.single r).records = r.records := by
  unfold single
  split_ifs <;> rfl

/-- It ends, with each page once. -/
theorem readExport_ends {cursor : String}
    (hfinite : {c | ∃ n, walk (job.nextOf client) cursor n = some c}.Finite) :
    ∃ fuel requests result, job.readExport client fuel cursor = some (requests, result) ∧
      EachOnce (job.recordsOf client) requests (result.map ExportRead.records) := by
  obtain ⟨fuel, requests, hfollow, hnodup⟩ := follow_fresh hfinite (@fresh_not_mem _ _ job)
  rw [← exportFrom_follow fuel [] [job.cursorHash cursor] cursor {} (by simp)] at hfollow
  obtain ⟨⟨requests', result⟩, hread, rfl⟩ := Option.map_eq_some_iff.mp hfollow
  refine ⟨fuel, requests', result.map job.single, ?_, by simpa using hnodup, fun records hok => ?_⟩
  · rw [readExport, hread]
    rfl
  · cases result with
    | error e => cases hok
    | ok r =>
      obtain rfl := Except.ok.inj hok
      rw [single_records]
      simpa using exportFrom_records hread

end CleverTapExport

/-- Where the cursors are finitely many, the CleverTap loop ends with each page once, and the HTTP loop does just where
a cursor that comes back is the one its own page names. -/
theorem pagination_ends_iff [DecidableEq η] (job : CleverTapExport η) (client : CleverTapClient β) (start : String)
    (src : HttpApiSource) (server : HttpClient β) (first last : String) (headers : List String)
    (hexport : {c | ∃ n, walk (job.nextOf client) start n = some c}.Finite)
    (hserver : {c | ∃ n, walk (src.nextOf server first last headers) none n = some c}.Finite) :
    (∃ fuel requests result, job.readExport client fuel start = some (requests, result) ∧
      EachOnce (job.recordsOf client) requests (result.map ExportRead.records)) ∧
    ((∃ fuel requests result, src.fetchRecords server first last headers fuel = some (requests, result) ∧
      EachOnce (src.recordsOf server first last headers) requests result) ↔
    ∀ n m c, walk (src.nextOf server first last headers) none n = some c →
      walk (src.nextOf server first last headers) none (n + m + 1) = some c →
        src.nextOf server first last headers c = some c) :=
  ⟨CleverTapExport.readExport_ends hexport, HttpApiSource.fetchRecords_iff hserver⟩

/-! ### Servers with a cycle -/

def pagedSource : HttpApiSource where
  url := "https://api/rows"
  body := none
  format := .json (some "rows")
  nextCursorPath := some "next"
  cursorParam := some "cursor"

def jsonPage (row : Nat) (next : String) : Json :=
  .object [("rows", .array [.number (.unsigned row)]), ("next", .string next), ("status", .string "success"),
    ("next_cursor", .string next), ("records", .array [.number (.unsigned row)])]

/-- The first page leads to `a`, and each page on. -/
def pagedServer (afterA afterB : String) : HttpClient Json where
  send req := .ok (match req.query with
    | none => jsonPage 1 "a"
    | some (_, "a") => jsonPage 2 afterA
    | some _ => jsonPage 3 afterB)
  parseJson v := .ok v
  csvRecords _ _ := .ok []

def cyclicExport : CleverTapClient Json where
  urlError _ := none
  send url _ := .ok (if url = "https://ct/1/events.json?cursor=a" then jsonPage 1 "b" else jsonPage 2 "a")
  parseJson v := .ok v
  render _ := ""
  head _ := ""

def exportJob : CleverTapExport String := ⟨"https://ct", "App Launched", id⟩

theorem pagedServer_finite {afterA afterB : String} (hA : afterA = "a" ∨ afterA = "b")
    (hB : afterB = "a" ∨ afterB = "b") :
    {c | ∃ n, walk (pagedSource.nextOf (pagedServer afterA afterB) "" "" []) none n = some c}.Finite := by
  refine finite_of_closed (l := [none, some "a", some "b"]) List.mem_cons_self ?_
  rcases hA with rfl | rfl <;> rcases hB with rfl | rfl <;> decide +kernel

/-- A CleverTap server with a cycle of two pages, and an HTTP server whose second page names itself. -/
theorem pagination_ends_iff_cycle :
    (∃ fuel requests result, exportJob.readExport cyclicExport fuel "a" = some (requests, result) ∧
      EachOnce (exportJob.recordsOf cyclicExport) requests (result.map ExportRead.records)) ∧
    ∃ fuel requests result, pagedSource.fetchRecords (pagedServer "a" "a") "" "" [] fuel = some (requests, result) ∧
      EachOnce (pagedSource.recordsOf (pagedServer "a" "a") "" "" []) requests result := by
  have hexport : {c | ∃ n, walk (exportJob.nextOf cyclicExport) "a" n = some c}.Finite :=
    finite_of_closed (l := ["a", "b"]) List.mem_cons_self (by decide +kernel)
  have hends : Ends (pagedSource.nextOf (pagedServer "a" "a") "" "" []) none :=
    ⟨1, some "a", by decide +kernel, Or.inr (by decide +kernel)⟩
  have hboth := pagination_ends_iff exportJob cyclicExport "a" pagedSource (pagedServer "a" "a") "" "" [] hexport
    (pagedServer_finite (Or.inl rfl) (Or.inl rfl))
  exact ⟨hboth.1, hboth.2.mpr hends.backAtOnce⟩

/-- Two pages that name each other are read for ever. -/
theorem http_cycle_never_ends :
    {c | ∃ n, walk (pagedSource.nextOf (pagedServer "b" "a") "" "" []) none n = some c}.Finite ∧
      ∀ fuel, pagedSource.fetchRecords (pagedServer "b" "a") "" "" [] fuel = none := by
  refine ⟨pagedServer_finite (Or.inr rfl) (Or.inl rfl), fun fuel => ?_⟩
  cases hfetch : pagedSource.fetchRecords (pagedServer "b" "a") "" "" [] fuel with
  | none => rfl
  | some out =>
    have hfollow := @HttpApiSource.fetchFrom_follow _ pagedSource (pagedServer "b" "a") "" "" [] fuel [] none []
    unfold HttpApiSource.fetchRecords at hfetch
    rw [hfetch] at hfollow
    have hself := (ends_of_follow_other hfollow.symm).backAtOnce 1 1 (some "a") (by decide +kernel) (by decide +kernel)
    exact absurd hself (by decide +kernel)

end Quickhouse
