import Quickhouse.Sink.RefreshStaging

/-!
# What a refresh can rely on

The invariant of one refresh, in what it can tell of the server (`RunInv`).  A step of the refresh keeps it (`step_spec`), and
so does any of its own late statements when it arrives (`inv_arrive`).
-/

namespace Quickhouse.FullRefresh

open LateCalls Runs

section

variable {ρ : Type} {e : Engine ρ}

/-! ### What holds of each refresh -/

namespace Phase

/-- Nothing is staged yet. -/
def opening : Phase → Bool
  | .probing | .creatingDest | .creatingStaging _ => true
  | _ => false

/-- Every insert has its answer. -/
def past : Phase → Bool
  | .loaded | .validated | .countingMerged _ | .countingStaged _ _ | .guarded | .checked | .swapped | .succeeded => true
  | _ => false

def stopped : Phase → Bool
  | .failing _ | .failed _ | .crashed => true
  | _ => false

/-- After the exchange, or stopped. -/
def closed : Phase → Bool
  | .swapped | .succeeded => true
  | phase => phase.stopped

theorem closed_of_stopped {phase : Phase} (h : phase.stopped = true) : phase.closed = true := by
  cases phase <;> first | rfl | cases h

end Phase

structure RunInv (e : Engine ρ) (v : View ρ) (r : Run ρ) : Prop where
  numbered : r.Numbered
  fresh : r.phase.opening = true → v = ⟨none, 0, []⟩ ∧ r.inserts = []
  acked : r.phase.past = true ∨ r.swapSent = true → ∀ i ∈ r.inserts, i.acked = true
  closed : r.swapSent = true → r.phase.closed = true
  /-- The exchange is sent once, and executed once at most. -/
  swaps : v.late.countP Statement.exchanges + v.swaps ≤ if r.swapSent then 1 else 0
  swapped : r.phase = .swapped ∨ r.phase = .succeeded → v.swaps = 1
  gone : r.phase = .succeeded → v.table = none
  lateInsert : ∀ table p, .insert table p ∈ v.late → p ∈ r.parts
  lateCreate : ∀ c ∈ v.late, c.creates = true → r.inserts = [] ∧ r.phase.stopped = true
  held : v.swaps = 0 → ∀ t, v.table = some t → r.Holds e t
  harmless : r.phase = .checked ∨ r.swapSent = true → ∀ k ∈ r.warnings.kinds, k ∉ r.refresh.cfg.failOnWarnings
  error : r.swapSent = true → ∀ error, r.phase = .failing error ∨ r.phase = .failed error → error = .statement

variable {r : Run ρ}

/-- A late statement may also never arrive. -/
theorem RunInv.sublist {t : Option (Table ρ)} {swaps : Nat} {late late' : List (Statement ρ)}
    (h : RunInv e ⟨t, swaps, late⟩ r) (hsub : late'.Sublist late) : RunInv e ⟨t, swaps, late'⟩ r where
  numbered := h.numbered
  fresh hopening := by
    obtain ⟨hview, hinserts⟩ := h.fresh hopening
    obtain ⟨rfl, rfl, rfl⟩ := View.mk.inj hview
    rw [List.sublist_nil.mp hsub]
    exact ⟨rfl, hinserts⟩
  acked := h.acked
  closed := h.closed
  swaps := by
    have := h.swaps
    have := hsub.countP_le (p := Statement.exchanges)
    dsimp only at *
    omega
  swapped := h.swapped
  gone := h.gone
  lateInsert table p hp := h.lateInsert table p (hsub.subset hp)
  lateCreate c hc := h.lateCreate c (hsub.subset hc)
  held := h.held
  harmless := h.harmless
  error := h.error

/-- The staging table becomes another one. -/
theorem RunInv.table {t t' : Option (Table ρ)} {swaps : Nat} {late : List (Statement ρ)}
    (h : RunInv e ⟨t, swaps, late⟩ r) (hstaged : r.phase.opening ≠ true) (hgone : r.phase = .succeeded → t' = none)
    (hheld : swaps = 0 → ∀ t, t' = some t → r.Holds e t) : RunInv e ⟨t', swaps, late⟩ r where
  numbered := h.numbered
  fresh hopening := absurd hopening hstaged
  acked := h.acked
  closed := h.closed
  swaps := h.swaps
  swapped := h.swapped
  gone := hgone
  lateInsert := h.lateInsert
  lateCreate := h.lateCreate
  held := hheld
  harmless := h.harmless
  error := h.error

theorem Run.holds_nil (h : r.inserts = []) : r.Holds e {} := by
  refine ⟨nofun, fun i hi => ?_, fun _ => List.nodup_nil⟩
  rw [h] at hi
  cases hi

/-- Whatever late statement is executed, the refresh's invariant still holds. -/
theorem RunInv.executed {s s' : Server ρ} {c : Statement ρ} {before after : List (Statement ρ)}
    (h : RunInv e ⟨s.tables r.staging, s.exchanged.count r.staging, before ++ c :: after⟩ r) (hown : c.own = r.staging)
    (hexec : execute e s c = some s') :
    RunInv e ⟨s'.tables r.staging, s'.exchanged.count r.staging, before ++ after⟩ r := by
  have hc : c ∈ before ++ c :: after := List.mem_append_right _ List.mem_cons_self
  have hstaged : r.phase.opening ≠ true := by
    intro hopening
    have := (View.mk.inj (h.fresh hopening).1).2.2
    rw [this] at hc
    cases hc
  have hsub : (before ++ after).Sublist (before ++ c :: after) :=
    List.Sublist.append_left (List.sublist_cons_self c after) before
  have hless := h.sublist hsub
  cases c with
  | createTable table =>
    obtain rfl : table = r.staging := hown
    obtain ⟨hinserts, hstopped⟩ := h.lateCreate _ hc rfl
    obtain rfl := Option.some.inj hexec
    split_ifs with hthere
    · exact hless
    · refine hless.table hstaged (fun hdone => ?_) fun _ t ht => ?_
      · rw [hdone] at hstopped
        cases hstopped
      · dsimp only at ht
        rw [Function.update_self] at ht
        obtain rfl := Option.some.inj ht
        exact Run.holds_nil hinserts
  | cloneTable table like =>
    obtain rfl : table = r.staging := hown
    obtain ⟨hinserts, hstopped⟩ := h.lateCreate _ hc rfl
    obtain ⟨-, rfl⟩ := execute_clone hexec
    refine hless.table hstaged (fun hdone => ?_) fun _ t ht => ?_
    · rw [hdone] at hstopped
      cases hstopped
    · dsimp only at ht
      rw [Function.update_self] at ht
      obtain rfl := Option.some.inj ht
      exact Run.holds_nil hinserts
  | insert table p =>
    obtain rfl : table = r.staging := hown
    have hp := h.lateInsert _ p hc
    obtain ⟨t, ht, rfl⟩ := Option.map_eq_some_iff.mp hexec
    refine hless.table hstaged (fun hdone => ?_) fun hswaps t' ht' => ?_
    · have hnone : s.tables r.staging = none := h.gone hdone
      rw [ht] at hnone
      cases hnone
    · dsimp only at ht'
      rw [Function.update_self] at ht'
      obtain rfl := Option.some.inj ht'
      exact (h.held hswaps t ht).insert hp
  | exchangeTables dest staging =>
    obtain rfl : staging = r.staging := hown
    obtain ⟨old, new, -, -, rfl⟩ := execute_exchange hexec
    have hswaps := h.swaps
    dsimp only at hswaps ⊢
    rw [List.countP_append, List.countP_cons_of_pos (by rfl)] at hswaps
    have hsent : r.swapSent = true := by
      by_contra hno
      rw [if_neg hno] at hswaps
      omega
    rw [if_pos hsent] at hswaps
    have hnot : ¬ (r.phase = .swapped ∨ r.phase = .succeeded) := by
      intro hphase
      have := h.swapped hphase
      dsimp only at this
      omega
    rw [List.count_append, List.count_singleton_self]
    refine ⟨h.numbered, fun hopening => absurd hopening hstaged, h.acked, h.closed, ?_, fun hphase => absurd hphase hnot,
      fun hphase => absurd (.inr hphase) hnot, hless.lateInsert, hless.lateCreate, fun hzero => ?_, h.harmless, h.error⟩
    · rw [if_pos hsent, List.countP_append]
      dsimp only
      omega
    · dsimp only at hzero
      omega
  | dropTable table =>
    obtain rfl : table = r.staging := hown
    obtain rfl := Option.some.inj hexec
    refine hless.table hstaged (fun _ => Function.update_self _ _ _) fun _ t ht => ?_
    dsimp only at ht
    rw [Function.update_self] at ht
    cases ht

/-- A statement of the refresh is sent: what holds while it is late holds when it was executed, too. -/
theorem inv_call {n n' : Net (Server ρ) (Statement ρ)} {c : Statement ρ} {answered : Bool} (hown : c.own = r.staging)
    (hcall : n.call (execute e) c answered = some n')
    (h : RunInv e ⟨(view n r.staging).table, (view n r.staging).swaps, (view n r.staging).late ++ [c]⟩ r) :
    RunInv e (view n' r.staging) r := by
  rcases call_cases hcall with ⟨-, hexec, hlate⟩ | ⟨-, hserver, hlate⟩
  · have hafter := h.executed hown hexec
    rw [List.append_nil] at hafter
    unfold view
    rw [hlate]
    exact hafter
  · unfold view
    rw [hserver, hlate, List.filter_append, List.filter_cons_of_pos (by simpa using hown), List.filter_nil]
    exact h

theorem inv_arrive {n n' : Net (Server ρ) (Statement ρ)} {c : Statement ρ} {before after : List (Statement ρ)}
    (hlate : n.late = before ++ c :: after) (hlate' : n'.late = before ++ after)
    (hexec : execute e n.server c = some n'.server ∨ (execute e n.server c = none ∧ n'.server = n.server))
    (hown : c.own = r.staging) (h : RunInv e (view n r.staging) r) : RunInv e (view n' r.staging) r := by
  unfold view at h ⊢
  rw [hlate, List.filter_append, List.filter_cons_of_pos (by simpa using hown)] at h
  rw [hlate', List.filter_append]
  rcases hexec with hexec | ⟨-, hserver⟩
  · exact h.executed hown hexec
  · rw [hserver]
    exact h.sublist (List.Sublist.append_left (List.sublist_cons_self c _) _)

/-- The exchange is still to come, and the refresh moves on. -/
theorem RunInv.moves {v : View ρ} (h : RunInv e v r) (hclosed : r.phase.closed = false) {phase : Phase} (warnings : Warnings)
    (createdDest : Bool) (hopening : phase.opening = true → r.phase.opening = true)
    (hpast : phase.past = true → ∀ i ∈ r.inserts, i.acked = true) (hswapped : phase ≠ .swapped) (hdone : phase ≠ .succeeded)
    (hharmless : phase = .checked → ∀ k ∈ warnings.kinds, k ∉ r.refresh.cfg.failOnWarnings) :
    RunInv e v { r with phase := phase, warnings := warnings, createdDest := createdDest } := by
  have hsent : r.swapSent = false := by
    cases hsent : r.swapSent with
    | false => rfl
    | true => exact absurd (h.closed hsent) (by rw [hclosed]; exact Bool.false_ne_true)
  refine ⟨⟨h.numbered.numbers, h.numbered.below, h.numbered.apart, h.numbered.tokened⟩, fun hphase => h.fresh (hopening hphase),
    ?_, ?_, h.swaps, ?_, fun hphase => absurd hphase hdone, h.lateInsert, fun c hc hcreates => ?_,
    fun hzero t ht => (h.held hzero t ht).congr rfl rfl, ?_, ?_⟩
  · rintro (hphase | hphase)
    · exact hpast hphase
    · exact absurd (hsent.symm.trans hphase) Bool.false_ne_true
  · exact fun hphase => absurd (hsent.symm.trans hphase) Bool.false_ne_true
  · rintro (hphase | hphase)
    · exact absurd hphase hswapped
    · exact absurd hphase hdone
  · have hstopped := Phase.closed_of_stopped (h.lateCreate c hc hcreates).2
    rw [hclosed] at hstopped
    cases hstopped
  · rintro (hphase | hphase)
    · exact hharmless hphase
    · exact absurd (hsent.symm.trans hphase) Bool.false_ne_true
  · exact fun hphase => absurd (hsent.symm.trans hphase) Bool.false_ne_true

/-- The process dies. -/
theorem RunInv.crashed {v : View ρ} (h : RunInv e v r) : RunInv e v { r with phase := .crashed } where
  numbered := ⟨h.numbered.numbers, h.numbered.below, h.numbered.apart, h.numbered.tokened⟩
  fresh := nofun
  acked := by
    rintro (hphase | hphase)
    · cases hphase
    · exact h.acked (.inr hphase)
  closed _ := rfl
  swaps := h.swaps
  swapped := by rintro (hphase | hphase) <;> cases hphase
  gone := nofun
  lateInsert := h.lateInsert
  lateCreate c hc hcreates := ⟨(h.lateCreate c hc hcreates).1, rfl⟩
  held hzero t ht := (h.held hzero t ht).congr rfl rfl
  harmless := by
    rintro (hphase | hphase)
    · cases hphase
    · exact h.harmless (.inr hphase)
  error _ error := by rintro (hphase | hphase) <;> cases hphase

/-! ### What a step does -/

structure Stepped (e : Engine ρ) (n n' : Net (Server ρ) (Statement ρ)) (r r' : Run ρ) : Prop where
  refresh : r'.refresh = r.refresh
  /-- A refresh whose exchange is sent reads no more. -/
  kept : r.swapSent = true → r'.swapSent = true ∧ r'.inserts = r.inserts
  net : n' = n ∨ ∃ c answered, n.call (execute e) c answered = some n' ∧
    (c = .createTable r.dest ∨ c.OfRun r.dest r.staging) ∧
    ∀ d x, c = .exchangeTables d x → x = r.staging ∧ r.phase = .checked ∧ r'.swapSent = true ∧ r'.inserts = r.inserts
  inv : RunInv e (view n' r.staging) r'

/-- Nothing is sent. -/
theorem stepped_quiet {n : Net (Server ρ) (Statement ρ)} {r' : Run ρ} (hrefresh : r'.refresh = r.refresh)
    (hkept : r.swapSent = true → r'.swapSent = true ∧ r'.inserts = r.inserts) (h : RunInv e (view n r.staging) r') :
    Stepped e n n r r' := ⟨hrefresh, hkept, .inl rfl, h⟩

/-- The phase changes, before the exchange. -/
theorem stepped_moves {n : Net (Server ρ) (Statement ρ)} (h : RunInv e (view n r.staging) r) (hclosed : r.phase.closed = false)
    {phase : Phase} (warnings : Warnings) (createdDest : Bool) (hopening : phase.opening = true → r.phase.opening = true)
    (hpast : phase.past = true → ∀ i ∈ r.inserts, i.acked = true) (hswapped : phase ≠ .swapped) (hdone : phase ≠ .succeeded)
    (hharmless : phase = .checked → ∀ k ∈ warnings.kinds, k ∉ r.refresh.cfg.failOnWarnings) :
    Stepped e n n r { r with phase := phase, warnings := warnings, createdDest := createdDest } :=
  stepped_quiet rfl (fun hsent => ⟨hsent, rfl⟩) (h.moves hclosed warnings createdDest hopening hpast hswapped hdone hharmless)

/-- The guard decides before the exchange. -/
theorem stepped_decideShrink {n : Net (Server ρ) (Statement ρ)} (h : RunInv e (view n r.staging) r)
    (hclosed : r.phase.closed = false) (hpast : r.phase.past = true) (existing : Option Nat) (merged : Option (Nat × Nat)) :
    Stepped e n n r (r.decideShrink existing merged) := by
  unfold Run.decideShrink
  cases guardFullRefreshShrink r.refresh r.warnings existing merged r.rowsWritten with
  | ok ws => exact stepped_moves h hclosed ws r.createdDest nofun (fun _ => h.acked (.inl hpast)) nofun nofun nofun
  | error err => exact stepped_moves h hclosed r.warnings r.createdDest nofun nofun nofun nofun nofun

theorem RunInv.not_sent {v : View ρ} (h : RunInv e v r) (hclosed : r.phase.closed = false) : r.swapSent = false := by
  cases hsent : r.swapSent with
  | false => rfl
  | true =>
    have := h.closed hsent
    rw [hclosed] at this
    cases this

theorem RunInv.not_swapped {v : View ρ} (h : RunInv e v r) (hclosed : r.phase.closed = false) : v.swaps = 0 := by
  have := h.swaps
  rw [h.not_sent hclosed, if_neg Bool.false_ne_true] at this
  omega

theorem toString_nat_injective {a b : Nat} (h : toString a = toString b) : a = b := by
  have hdigits : Nat.toDigits 10 a = Nat.toDigits 10 b := by
    rw [← Nat.toList_repr, ← Nat.toList_repr]
    exact congrArg String.toList h
  rw [← @Nat.ofDigitChars_ten_toDigits a, hdigits, Nat.ofDigitChars_ten_toDigits]

theorem read_numbered (h : r.Numbered) (rows : List ρ) : (r.read rows).Numbered := by
  unfold Run.read
  split_ifs with hrows
  · exact h
  · have hparts : ∀ epoch (i : Insert ρ), Run.parts { r with inserts := r.inserts ++ [i], epoch := epoch } =
        r.parts ++ [i.part] := fun _ _ => List.map_append
    have hnext : r.refresh.sink.callerToken = none → (r.refresh.sink.nextDedupToken r.epoch =
        if r.refresh.sink.insertDedupToken then (some (r.refresh.sink.runToken ++ "-" ++ toString r.epoch), r.epoch + 1)
        else (none, r.epoch)) := by
      intro hcaller
      unfold ClickHouseSink.nextDedupToken
      rw [hcaller]
      cases r.refresh.sink.insertDedupToken <;> rfl
    refine ⟨?_, fun hcaller p hp t ht => ?_, fun hcaller => ?_, fun hcaller htokens p hp => ?_⟩
    · rw [hparts, List.map_append, h.numbers, List.length_append]
      show List.range r.parts.length ++ [r.inserts.length] = List.range (r.parts.length + 1)
      rw [List.range_succ, show r.parts.length = r.inserts.length from List.length_map _]
    · dsimp only at hcaller ⊢
      rw [hparts] at hp
      rw [hnext hcaller] at hp ⊢
      rcases List.mem_append.mp hp with hp | hp
      · obtain ⟨k, hk, hkt⟩ := h.below hcaller p hp t ht
        refine ⟨k, ?_, hkt⟩
        split_ifs
        · show k < r.epoch + 1
          omega
        · exact hk
      · rw [List.mem_singleton.mp hp, hcaller] at ht
        split_ifs at ht ⊢
        · exact ⟨r.epoch, Nat.lt_succ_self _, (Option.some.inj ht).symm⟩
        · cases ht
    · dsimp only at hcaller ⊢
      rw [hparts, List.filterMap_append, hnext hcaller, hcaller]
      split_ifs
      · show (r.parts.filterMap Part.token ++ [r.refresh.sink.runToken ++ "-" ++ toString r.epoch]).Nodup
        rw [List.nodup_append_comm, List.singleton_append, List.nodup_cons]
        refine ⟨fun hmem => ?_, h.apart hcaller⟩
        obtain ⟨p, hp, htoken⟩ := List.mem_filterMap.mp hmem
        obtain ⟨k, hk, heq⟩ := h.below hcaller p hp _ htoken
        have := toString_nat_injective (String.append_right_inj _ |>.mp heq)
        omega
      · show (r.parts.filterMap Part.token ++ []).Nodup
        rw [List.append_nil]
        exact h.apart hcaller
    · dsimp only at hcaller htokens
      rw [hparts, hnext hcaller, if_pos htokens] at hp
      rcases List.mem_append.mp hp with hp | hp
      · exact h.tokened hcaller htokens p hp
      · rw [List.mem_singleton.mp hp, hcaller]
        nofun

theorem parts_read (r : Run ρ) (rows : List ρ) : ∃ added, (r.read rows).inserts = r.inserts ++ added ∧
    ∀ i ∈ added, i.acked = false := by
  unfold Run.read
  split_ifs
  · exact ⟨[], (List.append_nil _).symm, nofun⟩
  · refine ⟨[_], rfl, fun i hi => ?_⟩
    rw [List.mem_singleton.mp hi]

theorem RunInv.read {v : View ρ} (h : RunInv e v r) (hphase : r.phase = .loading) (rows : List ρ) :
    RunInv e v (r.read rows) := by
  have hsent := h.not_sent (by rw [hphase]; rfl)
  have hnumbered := read_numbered h.numbered rows
  obtain ⟨added, hinserts, hunacked⟩ := parts_read r rows
  have hfields : (r.read rows).phase = r.phase ∧ (r.read rows).swapSent = r.swapSent ∧
      (r.read rows).refresh = r.refresh := by
    unfold Run.read
    split_ifs <;> exact ⟨rfl, rfl, rfl⟩
  obtain ⟨hsame, hsent', hrefresh⟩ := hfields
  have hparts : ∀ p ∈ r.parts, p ∈ (r.read rows).parts := by
    intro p hp
    unfold Run.parts
    rw [hinserts, List.map_append]
    exact List.mem_append_left _ hp
  refine ⟨hnumbered, ?_, ?_, ?_, ?_, ?_, ?_, fun table p hp => hparts p (h.lateInsert table p hp), fun c hc hcreates => ?_,
    fun hzero t ht => ?_, ?_, ?_⟩
  · rw [hsame, hphase]
    exact nofun
  · rw [hsame, hphase, hsent', hsent]
    rintro (hno | hno) <;> cases hno
  · rw [hsent', hsent]
    exact nofun
  · rw [hsent']
    exact h.swaps
  · rw [hsame]
    exact h.swapped
  · rw [hsame]
    exact h.gone
  · have hstopped := (h.lateCreate c hc hcreates).2
    rw [hphase] at hstopped
    cases hstopped
  · have hheld := h.held hzero t ht
    refine ⟨fun p hp => hparts p (hheld.own p hp), fun i hi hacked => ?_, hheld.once⟩
    rw [hinserts] at hi
    rcases List.mem_append.mp hi with hi | hi
    · rw [hrefresh]
      exact hheld.acked i hi hacked
    · rw [hunacked i hi] at hacked
      cases hacked
  · rw [hsame, hphase, hsent', hsent]
    rintro (hno | hno) <;> cases hno
  · rw [hsent', hsent]
    exact nofun

/-- An insert is tried, or has its answer. -/
theorem RunInv.set {v : View ρ} (h : RunInv e v r) (hphase : r.phase = .loading) {k : Nat} {i i' : Insert ρ}
    (hi : r.inserts[k]? = some i) (hpart : i'.part = i.part)
    (hacked : i'.acked = true → ∀ t, v.table = some t → Run.Landed e r.refresh.sink t i.part) :
    RunInv e v { r with inserts := r.inserts.set k i' } := by
  have hsent := h.not_sent (by rw [hphase]; rfl)
  have hparts : Run.parts { r with inserts := r.inserts.set k i' } = r.parts := by
    unfold Run.parts
    dsimp only
    obtain ⟨hk, hget⟩ := List.getElem?_eq_some_iff.mp hi
    have hk' : k < (r.inserts.map Insert.part).length := by rwa [List.length_map]
    have hsame : i.part = (r.inserts.map Insert.part)[k] := by rw [List.getElem_map, hget]
    rw [List.map_set, hpart, hsame, List.set_getElem_self]
  refine ⟨⟨?_, ?_, ?_, ?_⟩, ?_, ?_, h.closed, h.swaps, h.swapped, h.gone, fun table p hp => hparts ▸ h.lateInsert table p hp,
    fun c hc hcreates => ?_, fun hzero t ht => ⟨fun p hp => hparts ▸ (h.held hzero t ht).own p hp, fun j hj hj' => ?_,
      (h.held hzero t ht).once⟩, h.harmless, h.error⟩
  · rw [hparts]
    exact h.numbered.numbers
  · rw [hparts]
    exact h.numbered.below
  · rw [hparts]
    exact h.numbered.apart
  · rw [hparts]
    exact h.numbered.tokened
  · dsimp only
    rw [hphase]
    exact nofun
  · dsimp only
    rw [hphase, hsent]
    rintro (hno | hno) <;> cases hno
  · have hstopped := (h.lateCreate c hc hcreates).2
    rw [hphase] at hstopped
    cases hstopped
  · rcases List.mem_or_eq_of_mem_set hj with hj | rfl
    · exact (h.held hzero t ht).acked j hj hj'
    · rw [hpart]
      exact hacked hj' t ht

/-- A statement that neither creates nor exchanges. -/
theorem RunInv.sends {v : View ρ} (h : RunInv e v r) (hstaged : r.phase.opening ≠ true) {c : Statement ρ}
    (hcreates : c.creates = false) (hexchanges : c.exchanges = false) (hinsert : ∀ table p, c = .insert table p → p ∈ r.parts) :
    RunInv e ⟨v.table, v.swaps, v.late ++ [c]⟩ r := by
  refine ⟨h.numbered, fun hopening => absurd hopening hstaged, h.acked, h.closed, ?_, h.swapped, h.gone, fun table p hp => ?_,
    fun d hd hcreates' => ?_, h.held, h.harmless, h.error⟩
  · rw [List.countP_append, List.countP_singleton, hexchanges]
    exact h.swaps
  · rcases List.mem_append.mp hp with hp | hp
    · exact h.lateInsert table p hp
    · exact hinsert table p (List.mem_singleton.mp hp).symm
  · rcases List.mem_append.mp hd with hd | hd
    · exact h.lateCreate d hd hcreates'
    · rw [List.mem_singleton.mp hd, hcreates] at hcreates'
      cases hcreates'

variable {n n' : Net (Server ρ) (Statement ρ)}

theorem ofRun_insert (r : Run ρ) (p : Part ρ) : (Statement.insert r.staging p).OfRun r.dest r.staging := ⟨rfl, nofun⟩

theorem ofRun_drop (r : Run ρ) : (Statement.dropTable r.staging : Statement ρ).OfRun r.dest r.staging := ⟨rfl, nofun⟩

theorem stepped_attempt {r' : Run ρ} (h : RunInv e (view n r.staging) r) (hphase : r.phase = .loading) {k : Nat}
    {i : Insert ρ} (hi : r.inserts[k]? = some i) (hunacked : i.acked = false) {response : Option Nat}
    (hstep : Run.attempt e n r k i response = some (n', r')) : Stepped e n n' r r' := by
  have hclosed : r.phase.closed = false := by rw [hphase]; rfl
  have hstaged : r.phase.opening ≠ true := by rw [hphase]; exact Bool.false_ne_true
  have hsent := h.not_sent hclosed
  have hkept : ∀ r' : Run ρ, r.swapSent = true → r'.swapSent = true ∧ r'.inserts = r.inserts := fun r' hno =>
    absurd (hsent.symm.trans hno) Bool.false_ne_true
  have hp : i.part ∈ r.parts := List.mem_map_of_mem (List.mem_of_getElem? hi)
  have hsends : RunInv e ⟨(view n r.staging).table, (view n r.staging).swaps,
      (view n r.staging).late ++ [.insert r.staging i.part]⟩ r := by
    refine h.sends hstaged rfl rfl fun table p heq => ?_
    obtain ⟨-, rfl⟩ := Statement.insert.inj heq
    exact hp
  unfold Run.attempt at hstep
  dsimp only at hstep
  split at hstep
  · -- the insert has been executed
    obtain ⟨n₁, hcall, heq⟩ := Option.map_eq_some_iff.mp hstep
    obtain ⟨rfl, rfl⟩ := Prod.mk.inj heq
    refine ⟨rfl, hkept _, .inr ⟨_, _, hcall, .inr (ofRun_insert r i.part), nofun⟩, ?_⟩
    refine (inv_call rfl hcall hsends).set hphase hi rfl fun _ t ht => ?_
    rcases call_cases hcall with ⟨-, hexec, -⟩ | ⟨hno, -, -⟩
    · obtain ⟨t₀, ht₀, hserver⟩ := Option.map_eq_some_iff.mp hexec
      have hheld := h.held (h.not_swapped hclosed) t₀ ht₀
      have htable : (view n₁ r.staging).table = some (t₀.insert e i.part) := by
        show n₁.server.tables r.staging = _
        rw [← hserver]
        exact Function.update_self _ _ _
      obtain rfl := Option.some.inj (htable.symm.trans ht)
      exact hheld.landed_insert h.numbered hp
    · cases hno
  · -- it may be executed later
    obtain ⟨n₁, hcall, heq⟩ := Option.map_eq_some_iff.mp hstep
    obtain ⟨rfl, rfl⟩ := Prod.mk.inj heq
    have hset : RunInv e (view n₁ r.staging) { r with inserts := r.inserts.set k { i with attempts := i.attempts + 1 } } :=
      (inv_call rfl hcall hsends).set hphase hi rfl fun hacked => absurd (hunacked.symm.trans hacked) Bool.false_ne_true
    refine ⟨?_, hkept _, .inr ⟨_, _, hcall, .inr (ofRun_insert r i.part), nofun⟩, ?_⟩
    · split_ifs <;> rfl
    · split_ifs
      · exact hset.moves hclosed _ _ nofun nofun nofun nofun nofun
      · exact hset
  · obtain ⟨rfl, rfl⟩ := Prod.mk.inj (Option.some.inj hstep)
    have hset : RunInv e (view n r.staging) { r with inserts := r.inserts.set k { i with attempts := i.attempts + 1 } } :=
      h.set hphase hi rfl fun hacked => absurd (hunacked.symm.trans hacked) Bool.false_ne_true
    exact stepped_quiet rfl (hkept _) (hset.moves hclosed _ _ nofun nofun nofun nofun nofun)

theorem stepped_createStaging {r' : Run ρ} (h : RunInv e (view n r.staging) r) (hphase : ∃ cloned, r.phase = .creatingStaging cloned)
    {c : Statement ρ} (hcreate : c = .cloneTable r.staging r.dest ∨ c = .createTable r.staging) {answered : Bool}
    (hcall : n.call (execute e) c answered = some n')
    (hr' : r' = { r with phase := if answered then .loading else .failed .statement }) : Stepped e n n' r r' := by
  obtain ⟨cloned, hphase⟩ := hphase
  have hsent := h.not_sent (by rw [hphase]; rfl)
  obtain ⟨hview, hinserts⟩ := h.fresh (by rw [hphase]; rfl)
  obtain ⟨htable, hswaps, hlate⟩ := View.mk.inj hview
  have hown : c.OfRun r.dest r.staging := by
    rcases hcreate with rfl | rfl
    · exact ⟨rfl, nofun⟩
    · exact ⟨rfl, nofun⟩
  have hexchange : ∀ d x, c ≠ .exchangeTables d x := by
    rcases hcreate with rfl | rfl <;> nofun
  have hnumbered : ∀ phase, Run.Numbered { r with phase := phase } := fun _ =>
    ⟨h.numbered.numbers, h.numbered.below, h.numbered.apart, h.numbered.tokened⟩
  have hacked : ∀ i ∈ r.inserts, i.acked = true := by
    intro i hi
    rw [hinserts] at hi
    cases hi
  have hno : ¬ r.swapSent = true := by rw [hsent]; exact Bool.false_ne_true
  subst hr'
  refine ⟨rfl, fun hyes => absurd hyes hno, .inr ⟨c, answered, hcall, .inr hown, fun d x heq => absurd heq (hexchange d x)⟩, ?_⟩
  rcases call_cases hcall with ⟨rfl, hexec, hlate'⟩ | ⟨rfl, hserver, hlate'⟩
  · have hafter : n'.server.tables r.staging = some {} ∧ n'.server.exchanged = n.server.exchanged := by
      rcases hcreate with rfl | rfl
      · obtain ⟨-, hserver⟩ := execute_clone hexec
        rw [hserver]
        exact ⟨Function.update_self _ _ _, rfl⟩
      · have hserver := (Option.some.inj hexec).symm
        rw [if_neg (by rw [htable]; exact Bool.false_ne_true)] at hserver
        rw [hserver]
        exact ⟨Function.update_self _ _ _, rfl⟩
    have hview' : view n' r.staging = ⟨some {}, 0, []⟩ := by
      unfold view
      rw [hafter.1, hafter.2, hlate', hswaps, hlate]
    rw [hview', if_pos rfl]
    refine ⟨hnumbered _, nofun, fun _ => hacked, fun hyes => absurd hyes hno, ?_, ?_, nofun, nofun, nofun, fun _ t ht => ?_, ?_,
      fun hyes => absurd hyes hno⟩
    · exact Nat.zero_le _
    · rintro (heq | heq) <;> cases heq
    · obtain rfl := Option.some.inj ht
      exact Run.holds_nil hinserts
    · rintro (heq | hyes)
      · cases heq
      · exact absurd hyes hno
  · have hview' : view n' r.staging = ⟨none, 0, [c]⟩ := by
      unfold view
      rw [hserver, hlate', List.filter_append, htable, hswaps, hlate, List.filter_cons_of_pos (by simpa using hown.1)]
      rfl
    rw [hview', if_neg Bool.false_ne_true]
    refine ⟨hnumbered _, nofun, fun _ => hacked, fun hyes => absurd hyes hno, ?_, ?_, nofun, fun table p hp => ?_,
      fun d _ _ => ⟨hinserts, rfl⟩, fun _ t ht => ?_, ?_, fun hyes => absurd hyes hno⟩
    · rcases hcreate with rfl | rfl <;> exact Nat.zero_le _
    · rintro (heq | heq) <;> cases heq
    · rcases hcreate with rfl | rfl <;> cases List.mem_singleton.mp hp
    · cases ht
    · rintro (heq | hyes)
      · cases heq
      · exact absurd hyes hno

theorem stepped_swap {r' : Run ρ} (h : RunInv e (view n r.staging) r) (hphase : r.phase = .checked) {answered : Bool}
    (hcall : n.call (execute e) (.exchangeTables r.dest r.staging) answered = some n')
    (hr' : r' = { r with phase := if answered then .swapped else .failing .statement, swapSent := true }) :
    Stepped e n n' r r' := by
  have hsent := h.not_sent (by rw [hphase]; rfl)
  have hzero := h.not_swapped (by rw [hphase]; rfl)
  have hacked := h.acked (.inl (by rw [hphase]; rfl))
  have hharmless := h.harmless (.inl hphase)
  have hcreates : ∀ c ∈ (view n r.staging).late, c.creates = true → False := by
    intro c hc hcreates
    have hstopped := (h.lateCreate c hc hcreates).2
    rw [hphase] at hstopped
    cases hstopped
  have hlate : (view n r.staging).late.countP Statement.exchanges = 0 := by
    have := h.swaps
    rw [if_neg (by rw [hsent]; exact Bool.false_ne_true)] at this
    omega
  have hnumbered : ∀ phase, Run.Numbered { r with phase := phase, swapSent := true } := fun _ =>
    ⟨h.numbered.numbers, h.numbered.below, h.numbered.apart, h.numbered.tokened⟩
  have hsends : RunInv e ⟨(view n r.staging).table, (view n r.staging).swaps,
      (view n r.staging).late ++ [.exchangeTables r.dest r.staging]⟩
      { r with phase := .failing .statement, swapSent := true } := by
    refine ⟨hnumbered _, nofun, fun _ => hacked, fun _ => rfl, ?_, ?_, nofun, fun table p hp => ?_, fun c hc hcreate => ?_,
      fun _ t ht => (h.held hzero t ht).congr rfl rfl, fun _ => hharmless,
      fun _ error herror => ?_⟩
    · rw [List.countP_append, hlate, hzero]
      exact Nat.le_refl 1
    · rintro (heq | heq) <;> cases heq
    · rcases List.mem_append.mp hp with hp | hp
      · exact h.lateInsert table p hp
      · cases List.mem_singleton.mp hp
    · rcases List.mem_append.mp hc with hc | hc
      · exact (hcreates c hc hcreate).elim
      · rw [List.mem_singleton.mp hc] at hcreate
        cases hcreate
    · rcases herror with herror | herror
      · exact (Phase.failing.inj herror).symm
      · cases herror
  have hinv : RunInv e (view n' r.staging) { r with phase := .failing .statement, swapSent := true } :=
    @inv_call _ _ { r with phase := .failing .statement, swapSent := true } _ _ _ _ rfl hcall hsends
  subst hr'
  refine ⟨rfl, fun hyes => absurd (hsent.symm.trans hyes) Bool.false_ne_true,
    .inr ⟨_, answered, hcall, .inr ⟨rfl, fun d x heq => (Statement.exchangeTables.inj heq).1.symm⟩, fun d x heq =>
      ⟨(Statement.exchangeTables.inj heq).2.symm, hphase, rfl, rfl⟩⟩, ?_⟩
  rcases call_cases hcall with ⟨rfl, hexec, hlate'⟩ | ⟨rfl, -, -⟩
  · obtain ⟨old, new, -, -, hserver⟩ := execute_exchange hexec
    have hone : (view n' r.staging).swaps = 1 := by
      show n'.server.exchanged.count r.staging = 1
      rw [hserver, List.count_append, List.count_singleton_self]
      have : n.server.exchanged.count r.staging = 0 := hzero
      omega
    have hsame : (view n' r.staging).late = (view n r.staging).late := by
      unfold view
      rw [hlate']
    refine ⟨hnumbered _, nofun, fun _ => hacked, fun _ => rfl, hinv.swaps, fun _ => hone, nofun, hinv.lateInsert,
      fun c hc hcreate => (hcreates c (hsame ▸ hc) hcreate).elim, fun hno => ?_, fun _ => hharmless, fun _ error herror => ?_⟩
    · rw [hone] at hno
      cases hno
    · rcases herror with herror | herror <;> cases herror
  · exact hinv

theorem stepped_drop {r' : Run ρ} (h : RunInv e (view n r.staging) r) {phase : Phase} {answered : Bool}
    (hcall : n.call (execute e) (.dropTable r.staging) answered = some n') (hr' : r' = { r with phase := phase })
    (hphases : (r.phase = .swapped ∧ phase = if answered then .succeeded else .failing .statement) ∨
      ∃ error, r.phase = .failing error ∧ phase = .failed error) : Stepped e n n' r r' := by
  have hstaged : r.phase.opening ≠ true := by
    rcases hphases with ⟨hphase, -⟩ | ⟨error, hphase, -⟩ <;> rw [hphase] <;> exact Bool.false_ne_true
  have hinv := inv_call rfl hcall (h.sends hstaged rfl rfl nofun)
  have hnumbered : ∀ phase, Run.Numbered { r with phase := phase } := fun _ =>
    ⟨h.numbered.numbers, h.numbered.below, h.numbered.apart, h.numbered.tokened⟩
  have hheld : (view n' r.staging).swaps = 0 → ∀ t, (view n' r.staging).table = some t →
      Run.Holds e { r with phase := phase } t := fun hzero t ht =>
    (hinv.held hzero t ht).congr rfl rfl
  subst hr'
  refine ⟨rfl, fun hsent => ⟨hsent, rfl⟩, .inr ⟨_, answered, hcall, .inr (ofRun_drop r), nofun⟩, ?_⟩
  rcases hphases with ⟨hphase, rfl⟩ | ⟨error, hphase, rfl⟩
  · have hacked := hinv.acked (.inl (by rw [hphase]; rfl))
    have hcreates : ∀ c ∈ (view n' r.staging).late, c.creates = true → False := by
      intro c hc hcreates
      have hstopped := (hinv.lateCreate c hc hcreates).2
      rw [hphase] at hstopped
      cases hstopped
    have hharmless : ∀ {phase : Phase}, phase ≠ .checked → phase = .checked ∨ r.swapSent = true →
        ∀ k ∈ r.warnings.kinds, k ∉ r.refresh.cfg.failOnWarnings := by
      rintro phase hno (heq | hsent)
      · exact absurd heq hno
      · exact hinv.harmless (.inr hsent)
    rcases call_cases hcall with ⟨rfl, hexec, -⟩ | ⟨rfl, -, -⟩
    · refine ⟨hnumbered _, nofun, fun _ => hacked, fun _ => rfl, hinv.swaps, fun _ => hinv.swapped (.inl hphase), fun _ => ?_,
        hinv.lateInsert, fun c hc hcreate => (hcreates c hc hcreate).elim, hheld, hharmless nofun, fun _ error herror => ?_⟩
      · show n'.server.tables r.staging = none
        rw [← Option.some.inj hexec]
        exact Function.update_self _ _ _
      · rcases herror with herror | herror <;> cases herror
    · refine ⟨hnumbered _, nofun, fun _ => hacked, fun _ => rfl, hinv.swaps, ?_, nofun, hinv.lateInsert,
        fun c hc hcreate => (hcreates c hc hcreate).elim, hheld, hharmless nofun, fun _ error herror => ?_⟩
      · rintro (heq | heq) <;> cases heq
      · rcases herror with herror | herror
        · exact (Phase.failing.inj herror).symm
        · cases herror
  · refine ⟨hnumbered _, nofun, ?_, fun _ => rfl, hinv.swaps, ?_, nofun, hinv.lateInsert,
      fun c hc hcreate => ⟨(hinv.lateCreate c hc hcreate).1, rfl⟩, hheld, ?_, fun hsent error' herror => ?_⟩
    · rintro (heq | hsent)
      · cases heq
      · exact hinv.acked (.inr hsent)
    · rintro (heq | heq) <;> cases heq
    · rintro (heq | hsent)
      · cases heq
      · exact hinv.harmless (.inr hsent)
    · rcases herror with herror | herror
      · cases herror
      · exact hinv.error hsent error' (.inl (hphase.trans (congrArg Phase.failing (Phase.failed.inj herror))))

theorem step_spec {r' : Run ρ} {event : RunEvent ρ} (h : RunInv e (view n r.staging) r)
    (hstep : r.step e n event = some (n', r')) : Stepped e n n' r r' := by
  have hsame : r.swapSent = true → r.swapSent = true ∧ r.inserts = r.inserts := fun hsent => ⟨hsent, rfl⟩
  cases event with
  | probe known =>
    rw [Run.step] at hstep
    split_ifs at hstep with hphase hknown hthere hcreate
    all_goals obtain ⟨rfl, rfl⟩ := Prod.mk.inj (Option.some.inj hstep)
    all_goals have hphase : r.phase = .probing := not_not.mp hphase
    all_goals have hclosed : r.phase.closed = false := by rw [hphase]; rfl
    · exact stepped_moves h hclosed _ _ nofun nofun nofun nofun nofun
    · exact stepped_moves h hclosed _ _ (fun _ => by rw [hphase]; rfl) nofun nofun nofun nofun
    · exact stepped_moves h hclosed _ _ (fun _ => by rw [hphase]; rfl) nofun nofun nofun nofun
    · exact stepped_moves h hclosed _ _ nofun nofun nofun nofun nofun
  | createDest answered =>
    rw [Run.step] at hstep
    by_cases hphase : r.phase = .creatingDest
    swap
    · rw [if_neg hphase] at hstep
      cases hstep
    rw [if_pos hphase] at hstep
    have hclosed : r.phase.closed = false := by rw [hphase]; rfl
    obtain ⟨n₁, hcall, heq⟩ := Option.map_eq_some_iff.mp hstep
    obtain ⟨rfl, rfl⟩ := Prod.mk.inj heq
    have hview : view n₁ r.staging = view n r.staging :=
      view_call_other hcall (stagingName_ne _ _ _).symm nofun
    refine ⟨rfl, hsame, .inr ⟨_, _, hcall, .inl rfl, nofun⟩, ?_⟩
    rw [hview]
    cases answered with
    | true => exact h.moves hclosed _ _ (fun _ => by rw [hphase]; rfl) nofun nofun nofun nofun
    | false => exact h.moves hclosed _ _ nofun nofun nofun nofun nofun
  | createStaging answered =>
    rw [Run.step] at hstep
    split at hstep
    · rename_i cloned hphase
      obtain ⟨n₁, hcall, heq⟩ := Option.map_eq_some_iff.mp hstep
      obtain ⟨rfl, rfl⟩ := Prod.mk.inj heq
      refine stepped_createStaging h ⟨cloned, hphase⟩ ?_ hcall rfl
      cases cloned with
      | true => exact .inl rfl
      | false => exact .inr rfl
    · cases hstep
  | read rows =>
    rw [Run.step] at hstep
    split_ifs at hstep with hphase
    obtain ⟨rfl, rfl⟩ := Prod.mk.inj (Option.some.inj hstep)
    have hsent := h.not_sent (by rw [hphase]; rfl)
    refine stepped_quiet ?_ (fun hyes => absurd (hsent.symm.trans hyes) Bool.false_ne_true) (h.read hphase rows)
    unfold Run.read
    split_ifs <;> rfl
  | attempt k response =>
    rw [Run.step] at hstep
    split at hstep
    · rename_i i hi
      split_ifs at hstep with hready
      exact stepped_attempt h hready.1 hi hready.2 hstep
    · cases hstep
  | raise w =>
    rw [Run.step] at hstep
    split_ifs at hstep with hphase
    obtain ⟨rfl, rfl⟩ := Prod.mk.inj (Option.some.inj hstep)
    exact stepped_moves h (by rw [hphase]; rfl) _ _ (fun hopening => by rwa [hphase] at hopening ⊢)
      (by rw [hphase]; exact nofun) (by rw [hphase]; exact nofun) (by rw [hphase]; exact nofun) (by rw [hphase]; exact nofun)
  | nullRows kind column count =>
    rw [Run.step] at hstep
    split_ifs at hstep with hphase
    obtain ⟨rfl, rfl⟩ := Prod.mk.inj (Option.some.inj hstep)
    exact stepped_moves h (by rw [hphase]; rfl) _ _ (fun hopening => by rwa [hphase] at hopening ⊢)
      (by rw [hphase]; exact nofun) (by rw [hphase]; exact nofun) (by rw [hphase]; exact nofun) (by rw [hphase]; exact nofun)
  | readDone =>
    rw [Run.step] at hstep
    split_ifs at hstep with hready
    obtain ⟨rfl, rfl⟩ := Prod.mk.inj (Option.some.inj hstep)
    exact stepped_moves h (by rw [hready.1]; rfl) _ _ nofun (fun _ => List.all_eq_true.mp hready.2) nofun nofun nofun
  | validate passed =>
    rw [Run.step] at hstep
    split_ifs at hstep with hphase hpassed
    all_goals obtain ⟨rfl, rfl⟩ := Prod.mk.inj (Option.some.inj hstep)
    · exact stepped_moves h (by rw [hphase]; rfl) _ _ nofun (fun _ => h.acked (.inl (by rw [hphase]; rfl))) nofun nofun nofun
    · exact stepped_moves h (by rw [hphase]; rfl) _ _ nofun nofun nofun nofun nofun
  | countDest reply =>
    unfold Run.step at hstep
    dsimp only at hstep
    by_cases hphase : r.phase = .validated
    swap
    · rw [if_pos hphase] at hstep
      cases hstep
    rw [if_neg (not_not_intro hphase)] at hstep
    have hclosed : r.phase.closed = false := by rw [hphase]; rfl
    have hpast : r.phase.past = true := by rw [hphase]; rfl
    split at hstep
    · split_ifs at hstep
      all_goals obtain ⟨rfl, rfl⟩ := Prod.mk.inj (Option.some.inj hstep)
      · exact stepped_moves h hclosed _ _ nofun (fun _ => h.acked (.inl hpast)) nofun nofun nofun
      · exact stepped_decideShrink h hclosed hpast _ _
    · obtain ⟨rfl, rfl⟩ := Prod.mk.inj (Option.some.inj hstep)
      exact stepped_moves h hclosed _ _ nofun (fun _ => h.acked (.inl hpast)) nofun nofun nofun
    · obtain ⟨rfl, rfl⟩ := Prod.mk.inj (Option.some.inj hstep)
      exact stepped_decideShrink h hclosed hpast _ _
  | countMerged reply =>
    unfold Run.step at hstep
    dsimp only at hstep
    split at hstep
    · rename_i existing hphase
      have hclosed : r.phase.closed = false := by rw [hphase]; rfl
      have hpast : r.phase.past = true := by rw [hphase]; rfl
      split at hstep
      · obtain ⟨rfl, rfl⟩ := Prod.mk.inj (Option.some.inj hstep)
        exact stepped_moves h hclosed _ _ nofun (fun _ => h.acked (.inl hpast)) nofun nofun nofun
      · obtain ⟨rfl, rfl⟩ := Prod.mk.inj (Option.some.inj hstep)
        exact stepped_decideShrink h hclosed hpast _ _
    · cases hstep
  | countStaged reply =>
    unfold Run.step at hstep
    dsimp only at hstep
    split at hstep
    · rename_i existing destMerged hphase
      have hclosed : r.phase.closed = false := by rw [hphase]; rfl
      have hpast : r.phase.past = true := by rw [hphase]; rfl
      split at hstep
      all_goals obtain ⟨rfl, rfl⟩ := Prod.mk.inj (Option.some.inj hstep)
      · exact stepped_decideShrink h hclosed hpast _ _
      · exact stepped_decideShrink h hclosed hpast _ _
    · cases hstep
  | checkFatal =>
    rw [Run.step] at hstep
    split_ifs at hstep with hphase
    have hclosed : r.phase.closed = false := by rw [hphase]; rfl
    have hpast : r.phase.past = true := by rw [hphase]; rfl
    split at hstep
    · rename_i ws hok
      obtain ⟨rfl, rfl⟩ := Prod.mk.inj (Option.some.inj hstep)
      exact stepped_moves h hclosed _ _ nofun (fun _ => h.acked (.inl hpast)) nofun nofun fun _ => (checkFatal_ok hok).2
    · obtain ⟨rfl, rfl⟩ := Prod.mk.inj (Option.some.inj hstep)
      exact stepped_moves h hclosed _ _ nofun nofun nofun nofun nofun
  | swap answered =>
    rw [Run.step] at hstep
    by_cases hphase : r.phase = .checked
    swap
    · rw [if_neg hphase] at hstep
      cases hstep
    rw [if_pos hphase] at hstep
    obtain ⟨n₁, hcall, heq⟩ := Option.map_eq_some_iff.mp hstep
    obtain ⟨rfl, rfl⟩ := Prod.mk.inj heq
    exact stepped_swap h hphase hcall rfl
  | dropStaging answered =>
    rw [Run.step] at hstep
    by_cases hphase : r.phase = .swapped
    swap
    · rw [if_neg hphase] at hstep
      cases hstep
    rw [if_pos hphase] at hstep
    obtain ⟨n₁, hcall, heq⟩ := Option.map_eq_some_iff.mp hstep
    obtain ⟨rfl, rfl⟩ := Prod.mk.inj heq
    exact stepped_drop h hcall rfl (.inl ⟨hphase, rfl⟩)
  | cleanup answered =>
    rw [Run.step] at hstep
    split at hstep
    · rename_i error hphase
      obtain ⟨n₁, hcall, heq⟩ := Option.map_eq_some_iff.mp hstep
      obtain ⟨rfl, rfl⟩ := Prod.mk.inj heq
      exact stepped_drop h hcall rfl (.inr ⟨error, hphase, rfl⟩)
    · cases hstep
  | fail =>
    rw [Run.step] at hstep
    split_ifs at hstep with hphase
    obtain ⟨rfl, rfl⟩ := Prod.mk.inj (Option.some.inj hstep)
    exact stepped_moves h (by rw [hphase]; rfl) _ _ nofun nofun nofun nofun nofun
  | crash =>
    rw [Run.step] at hstep
    split_ifs at hstep with hended
    obtain ⟨rfl, rfl⟩ := Prod.mk.inj (Option.some.inj hstep)
    exact stepped_quiet rfl (fun hsent => ⟨hsent, rfl⟩) h.crashed

end

end Quickhouse.FullRefresh
