import Quickhouse.Sink.RefreshSteps

/-!
# A full refresh replaces all or nothing

Whatever is interleaved, lost or late, the destination holds what it held at first or all that one refresh read
(`refresh_all_or_nothing`).
-/

namespace Quickhouse.FullRefresh

open LateCalls Runs

section

variable {ρ : Type} {e : Engine ρ} {r : Run ρ} {n : Net (Server ρ) (Statement ρ)}

/-! ### Any number of refreshes -/

/-- The destination holds what the last exchange put there; before the first one what it held, or nothing where a refresh
created it. -/
def DestOk (e : Engine ρ) (initial : Option (Table ρ)) (dest : String) (s : Server ρ) (runs : List (Run ρ)) : Prop :=
  (s.exchanged = [] ∧ (s.tables dest = initial ∨ (initial = none ∧ s.tables dest = some {}))) ∨
    ∃ before, ∃ r ∈ runs, s.exchanged = before ++ [r.staging] ∧ r.swapSent = true ∧
      ∃ t, s.tables dest = some t ∧ r.Holds e t

structure Inv (e : Engine ρ) (initial : Option (Table ρ)) (w : World ρ) : Prop where
  dests : ∀ r ∈ w.runs, r.dest = w.dest
  names : (w.runs.map Run.staging).Nodup
  late : ∀ c ∈ w.net.late, c = .createTable w.dest ∨ ∃ r ∈ w.runs, c.OfRun w.dest r.staging
  log : ∀ x ∈ w.net.server.exchanged, x ∈ w.runs.map Run.staging
  runs : ∀ r ∈ w.runs, RunInv e (view w.net r.staging) r
  dest : DestOk e initial w.dest w.net.server w.runs

theorem staging_ne_dest {dest : String} {r : Run ρ} (h : r.dest = dest) : r.staging ≠ dest := by
  rw [← h]
  exact stagingName_ne _ _ _

/-- What a statement of a refresh does to the destination. -/
theorem execute_dest {s s' : Server ρ} {c : Statement ρ} {dest x : String} (hexec : execute e s c = some s')
    (hc : c = .createTable dest ∨ c.OfRun dest x) (hx : x ≠ dest) :
    (s'.exchanged = s.exchanged ∧ (s'.tables dest = s.tables dest ∨ (s.tables dest = none ∧ s'.tables dest = some {}))) ∨
      ∃ new, c = .exchangeTables dest x ∧ s.tables x = some new ∧ s'.tables dest = some new ∧
        s'.exchanged = s.exchanged ++ [x] := by
  rcases hc with rfl | ⟨rfl, hdest⟩
  · obtain rfl := Option.some.inj hexec
    refine .inl ?_
    split_ifs with hthere
    · exact ⟨rfl, .inl rfl⟩
    · refine ⟨rfl, .inr ⟨by simpa using hthere, ?_⟩⟩
      exact Function.update_self _ _ _
  · cases c with
    | exchangeTables d y =>
      obtain ⟨old, new, -, hnew, rfl⟩ := execute_exchange hexec
      obtain rfl := hdest d y rfl
      replace hx : y ≠ d := hx
      refine .inr ⟨new, rfl, hnew, ?_, rfl⟩
      dsimp only
      rw [Function.update_of_ne (Ne.symm hx), Function.update_self]
    | createTable table =>
      obtain rfl := Option.some.inj hexec
      refine .inl ?_
      split_ifs
      · exact ⟨rfl, .inl rfl⟩
      · exact ⟨rfl, .inl (Function.update_of_ne (Ne.symm hx) _ _)⟩
    | cloneTable table like =>
      obtain ⟨-, rfl⟩ := execute_clone hexec
      exact .inl ⟨rfl, .inl (Function.update_of_ne (Ne.symm hx) _ _)⟩
    | insert table p =>
      obtain ⟨t, -, rfl⟩ := Option.map_eq_some_iff.mp hexec
      exact .inl ⟨rfl, .inl (Function.update_of_ne (Ne.symm hx) _ _)⟩
    | dropTable table =>
      obtain rfl := Option.some.inj hexec
      exact .inl ⟨rfl, .inl (Function.update_of_ne (Ne.symm hx) _ _)⟩

/-- The destination stays in order when `r`, whose staging table an exchange takes, has sent it. -/
theorem DestOk.executed {initial : Option (Table ρ)} {dest : String} {s s' : Server ρ} {runs : List (Run ρ)}
    {c : Statement ρ} {x : String} (h : DestOk e initial dest s runs) (hexec : execute e s c = some s')
    (hc : c = .createTable dest ∨ c.OfRun dest x) (hx : x ≠ dest)
    (hexchange : c = .exchangeTables dest x → ∀ t, s.tables x = some t →
      ∃ r ∈ runs, r.staging = x ∧ r.swapSent = true ∧ r.Holds e t) : DestOk e initial dest s' runs := by
  rcases execute_dest hexec hc hx with ⟨hlog, hdest⟩ | ⟨new, hswap, hnew, hdest, hlog⟩
  · rcases h with ⟨hempty, hinitial⟩ | ⟨before, r, hr, hlast, hsent, t, ht, hheld⟩
    · refine .inl ⟨hlog.trans hempty, ?_⟩
      rcases hdest with hdest | ⟨hnone, hdest⟩
      · rw [hdest]
        exact hinitial
      · rcases hinitial with hinitial | ⟨-, hsome⟩
        · exact .inr ⟨hinitial.symm.trans hnone, hdest⟩
        · rw [hnone] at hsome
          cases hsome
    · refine .inr ⟨before, r, hr, hlog.trans hlast, hsent, t, ?_, hheld⟩
      rcases hdest with hdest | ⟨hnone, -⟩
      · exact hdest.trans ht
      · rw [ht] at hnone
        cases hnone
  · obtain ⟨r, hr, rfl, hsent, hheld⟩ := hexchange hswap new hnew
    exact .inr ⟨s.exchanged, r, hr, hlog, hsent, new, hdest, hheld⟩

theorem start_inv {initial : Option (Table ρ)} {w : World ρ} (hw : Inv e initial w) {refresh : Refresh} {epoch : Nat}
    (hdest : refresh.cfg.destTable = w.dest) (hfresh : refresh.staging ∉ w.runs.map Run.staging)
    (hnone : w.net.server.tables refresh.staging = none) :
    Inv e initial { w with runs := w.runs ++ [{ refresh, epoch }] } := by
  have hne : refresh.staging ≠ w.dest := by
    rw [← hdest]
    exact stagingName_ne _ _ _
  have hview : view w.net refresh.staging = ⟨none, 0, []⟩ := by
    unfold view
    rw [hnone, List.count_eq_zero_of_not_mem fun hmem => hfresh (hw.log _ hmem)]
    congr 1
    refine List.filter_eq_nil_iff.mpr fun c hc hown => ?_
    replace hown : c.own = refresh.staging := of_decide_eq_true hown
    rcases hw.late c hc with rfl | ⟨r, hr, hrun, -⟩
    · exact hne hown.symm
    · exact hfresh (List.mem_map.mpr ⟨r, hr, hrun.symm.trans hown⟩)
  have hnew : RunInv e ⟨none, 0, []⟩ ({ refresh, epoch } : Run ρ) := by
    refine ⟨⟨rfl, nofun, fun _ => List.nodup_nil, nofun⟩, fun _ => ⟨rfl, rfl⟩, fun _ => nofun, nofun, Nat.le_refl 0, ?_, nofun,
      nofun, nofun, nofun, ?_, nofun⟩
    · rintro (heq | heq) <;> cases heq
    · rintro (heq | heq) <;> cases heq
  refine ⟨fun r hr => ?_, ?_, fun c hc => ?_, fun x hx => ?_, fun r hr => ?_, ?_⟩
  · rcases List.mem_append.mp hr with hr | hr
    · exact hw.dests r hr
    · rw [List.mem_singleton.mp hr]
      exact hdest
  · rw [List.map_append, List.nodup_append_comm]
    exact List.nodup_cons.mpr ⟨hfresh, hw.names⟩
  · rcases hw.late c hc with hc | ⟨r, hr, hrun⟩
    · exact .inl hc
    · exact .inr ⟨r, List.mem_append_left _ hr, hrun⟩
  · rw [List.map_append]
    exact List.mem_append_left _ (hw.log x hx)
  · rcases List.mem_append.mp hr with hr | hr
    · exact hw.runs r hr
    · rw [List.mem_singleton.mp hr]
      show RunInv e (view w.net refresh.staging) _
      rw [hview]
      exact hnew
  · rcases hw.dest with hbefore | ⟨before, r, hr, hrest⟩
    · exact .inl hbefore
    · exact .inr ⟨before, r, List.mem_append_left _ hr, hrest⟩

/-- A late statement of `r` leaves what the other refreshes can tell. -/
theorem other_view {runs : List (Run ρ)} (hnames : (runs.map Run.staging).Nodup) {r r' : Run ρ} (hr : r ∈ runs)
    (hr' : r' ∈ runs) : r' = r ∨ r.staging ≠ r'.staging := by
  by_cases hsame : r.staging = r'.staging
  · exact .inl (List.inj_on_of_nodup_map hnames hr' hr hsame.symm)
  · exact .inr hsame

theorem arrive_inv {initial : Option (Table ρ)} {w : World ρ} (hw : Inv e initial w) {k : Nat}
    {n : Net (Server ρ) (Statement ρ)} (h : w.net.arrive (execute e) k = some n) : Inv e initial { w with net := n } := by
  obtain ⟨c, before, after, hlate, hlate', hexec⟩ := arrive_cases h
  have hc : c ∈ w.net.late := by
    rw [hlate]
    exact List.mem_append_right _ List.mem_cons_self
  have hsub : n.late ⊆ w.net.late := by
    rw [hlate, hlate']
    exact (List.Sublist.append_left (List.sublist_cons_self c after) before).subset
  have hlogs : ∀ x ∈ n.server.exchanged, x ∈ w.runs.map Run.staging := by
    intro x hx
    rcases hexec with hexec | ⟨-, hserver⟩
    · rcases hw.late c hc with rfl | ⟨r, hr, hrun⟩
      · have := (execute_dest (x := w.dest ++ "_") hexec (.inl rfl) (by simp)).resolve_right nofun
        exact hw.log x (this.1 ▸ hx)
      · rcases execute_dest hexec (.inr hrun) (staging_ne_dest (hw.dests r hr)) with ⟨hlog, -⟩ | ⟨-, -, -, -, hlog⟩
        · exact hw.log x (hlog ▸ hx)
        · rw [hlog] at hx
          rcases List.mem_append.mp hx with hx | hx
          · exact hw.log x hx
          · rw [List.mem_singleton.mp hx]
            exact List.mem_map_of_mem hr
    · exact hw.log x (hserver ▸ hx)
  refine ⟨hw.dests, hw.names, fun d hd => hw.late d (hsub hd), hlogs, fun r hr => ?_, ?_⟩
  · have hne := staging_ne_dest (hw.dests r hr)
    rcases hw.late c hc with rfl | ⟨r₁, hr₁, hown, hdest⟩
    · rw [view_arrive_other hlate hlate' hexec hne.symm nofun]
      exact hw.runs r hr
    · rcases other_view hw.names hr₁ hr with rfl | hother
      · exact inv_arrive hlate hlate' hexec hown (hw.runs r hr)
      · rw [view_arrive_other hlate hlate' hexec (hown ▸ hother) fun d y heq => by rw [hdest d y heq]; exact hne.symm]
        exact hw.runs r hr
  · rcases hexec with hexec | ⟨-, hserver⟩
    · rcases hw.late c hc with rfl | ⟨r, hr, hrun⟩
      · exact hw.dest.executed (x := w.dest ++ "_") hexec (.inl rfl) (by simp) nofun
      · refine hw.dest.executed hexec (.inr hrun) (staging_ne_dest (hw.dests r hr)) fun hswap t ht => ?_
        have hinv := hw.runs r hr
        have hpos : 0 < (view w.net r.staging).late.countP Statement.exchanges := by
          refine List.countP_pos_iff.mpr ⟨c, ?_, by rw [hswap]; rfl⟩
          exact List.mem_filter.mpr ⟨hc, decide_eq_true hrun.1⟩
        have hswaps := hinv.swaps
        have hsent : r.swapSent = true := by
          by_contra hno
          rw [if_neg hno] at hswaps
          omega
        rw [if_pos hsent] at hswaps
        exact ⟨r, hr, rfl, hsent, hinv.held (by omega) t ht⟩
    · show DestOk e initial w.dest n.server w.runs
      rw [hserver]
      exact hw.dest

theorem mem_set_cases {runs : List (Run ρ)} (hnames : (runs.map Run.staging).Nodup) {k : Nat} {r r' r₀ : Run ρ}
    (hr : runs[k]? = some r) (h : r₀ ∈ runs.set k r') :
    r₀ = r' ∨ (r₀ ∈ runs ∧ r.staging ≠ r₀.staging) := by
  obtain ⟨j, hj⟩ := List.mem_iff_getElem?.mp h
  by_cases hjk : k = j
  · subst hjk
    obtain ⟨hk, -⟩ := List.getElem?_eq_some_iff.mp hr
    rw [List.getElem?_set_self hk] at hj
    exact .inl (Option.some.inj hj).symm
  · rw [List.getElem?_set_ne hjk] at hj
    refine .inr ⟨List.mem_of_getElem? hj, fun hsame => hjk ?_⟩
    have hmap : (runs.map Run.staging)[k]? = (runs.map Run.staging)[j]? := by
      rw [List.getElem?_map, List.getElem?_map, hr, hj, Option.map_some, Option.map_some, hsame]
    exact (List.getElem?_inj (by rw [List.length_map]; exact (List.getElem?_eq_some_iff.mp hr).1) hnames).mp hmap

theorem mem_set_other {runs : List (Run ρ)} {k : Nat} {r r' r₀ : Run ρ} (hr : runs[k]? = some r) (h : r₀ ∈ runs)
    (hne : r₀ ≠ r) : r₀ ∈ runs.set k r' := by
  obtain ⟨j, hj⟩ := List.mem_iff_getElem?.mp h
  refine List.mem_iff_getElem?.mpr ⟨j, ?_⟩
  rw [List.getElem?_set_ne, hj]
  rintro rfl
  exact hne (Option.some.inj (hj.symm.trans hr))

theorem run_inv {initial : Option (Table ρ)} {w : World ρ} (hw : Inv e initial w) {k : Nat} {r r' : Run ρ}
    (hr : w.runs[k]? = some r) {event : RunEvent ρ} (h : r.step e w.net event = some (n, r')) :
    Inv e initial { w with net := n, runs := w.runs.set k r' } := by
  have hmem : r ∈ w.runs := List.mem_of_getElem? hr
  obtain ⟨hrefresh, hkept, hnet, hinv⟩ := step_spec (hw.runs r hmem) h
  have hstaging : r'.staging = r.staging := congrArg Refresh.staging hrefresh
  have hmem' : r' ∈ w.runs.set k r' :=
    List.mem_iff_getElem?.mpr ⟨k, List.getElem?_set_self (List.getElem?_eq_some_iff.mp hr).1⟩
  have hne := staging_ne_dest (hw.dests r hmem)
  have hmap : (w.runs.set k r').map Run.staging = w.runs.map Run.staging := by
    obtain ⟨hk, hget⟩ := List.getElem?_eq_some_iff.mp hr
    have hk' : k < (w.runs.map Run.staging).length := by rwa [List.length_map]
    have hsame : r'.staging = (w.runs.map Run.staging)[k] := by rw [List.getElem_map, hget, hstaging]
    rw [List.map_set, hsame, List.set_getElem_self]
  have hstays : ∀ r₀ ∈ w.runs, ∃ r₁ ∈ w.runs.set k r', r₁.staging = r₀.staging ∧ (r₀ = r ∧ r₁ = r' ∨ r₁ = r₀) := by
    intro r₀ hr₀
    by_cases hsame : r₀ = r
    · exact ⟨r', hmem', by rw [hsame]; exact hstaging, .inl ⟨hsame, rfl⟩⟩
    · exact ⟨r₀, mem_set_other hr hr₀ hsame, rfl, .inr rfl⟩
  have hviews : ∀ r₀ ∈ w.runs, r.staging ≠ r₀.staging → view n r₀.staging = view w.net r₀.staging := by
    intro r₀ hr₀ hother
    rcases hnet with rfl | ⟨c, answered, hcall, hc, -⟩
    · rfl
    · have hne₀ := staging_ne_dest (hw.dests r₀ hr₀)
      rcases hc with rfl | ⟨hown, hdest⟩
      · refine view_call_other hcall ?_ nofun
        show r.dest ≠ r₀.staging
        rw [hw.dests r hmem]
        exact hne₀.symm
      · refine view_call_other hcall (hown ▸ hother) fun d y heq => ?_
        rw [hdest d y heq, hw.dests r hmem]
        exact hne₀.symm
  have hdests : DestOk e initial w.dest w.net.server (w.runs.set k r') := by
    rcases hw.dest with hbefore | ⟨before, r₀, hr₀, hlast, hsent, t, ht, hheld⟩
    · exact .inl hbefore
    · obtain ⟨r₁, hr₁, hname, hcase⟩ := hstays r₀ hr₀
      refine .inr ⟨before, r₁, hr₁, hname ▸ hlast, ?_⟩
      rcases hcase with ⟨rfl, rfl⟩ | rfl
      · obtain ⟨hsent', hinserts⟩ := hkept hsent
        exact ⟨hsent', t, ht, hheld.congr hrefresh hinserts⟩
      · exact ⟨hsent, t, ht, hheld⟩
  refine ⟨fun r₀ hr₀ => ?_, hmap ▸ hw.names, fun c hc => ?_, fun x hx => ?_, fun r₀ hr₀ => ?_, ?_⟩
  · rcases mem_set_cases hw.names hr hr₀ with rfl | ⟨hr₀, -⟩
    · exact (congrArg (fun f : Refresh => f.cfg.destTable) hrefresh).trans (hw.dests r hmem)
    · exact hw.dests r₀ hr₀
  · have hold : c ∈ w.net.late → c = .createTable w.dest ∨ ∃ r₀ ∈ w.runs.set k r', c.OfRun w.dest r₀.staging := by
      intro hc
      rcases hw.late c hc with hc | ⟨r₀, hr₀, hrun⟩
      · exact .inl hc
      · obtain ⟨r₁, hr₁, hname, -⟩ := hstays r₀ hr₀
        exact .inr ⟨r₁, hr₁, hname ▸ hrun⟩
    rcases hnet with rfl | ⟨c', answered, hcall, hc', -⟩
    · exact hold hc
    · rcases call_cases hcall with ⟨-, -, hlate⟩ | ⟨-, -, hlate⟩
      · exact hold (hlate ▸ hc)
      · rw [show n.late = _ from hlate] at hc
        rcases List.mem_append.mp hc with hc | hc
        · exact hold hc
        · rw [List.mem_singleton.mp hc]
          rcases hc' with rfl | hrun
          · exact .inl (by rw [hw.dests r hmem])
          · refine .inr ⟨r', hmem', ?_⟩
            rw [hstaging, ← hw.dests r hmem]
            exact hrun
  · show x ∈ (w.runs.set k r').map Run.staging
    rw [hmap]
    rcases hnet with rfl | ⟨c', answered, hcall, hc', -⟩
    · exact hw.log x hx
    · rcases call_cases hcall with ⟨-, hexec, -⟩ | ⟨-, hserver, -⟩
      · rw [hw.dests r hmem] at hc'
        rcases execute_dest hexec hc' hne with ⟨hlog, -⟩ | ⟨-, -, -, -, hlog⟩
        · exact hw.log x (hlog ▸ hx)
        · rw [show n.server.exchanged = _ from hlog] at hx
          rcases List.mem_append.mp hx with hx | hx
          · exact hw.log x hx
          · rw [List.mem_singleton.mp hx]
            exact List.mem_map_of_mem hmem
      · exact hw.log x (hserver ▸ hx)
  · show RunInv e (view n r₀.staging) r₀
    rcases mem_set_cases hw.names hr hr₀ with rfl | ⟨hr₀, hother⟩
    · rw [hstaging]
      exact hinv
    · rw [hviews r₀ hr₀ hother]
      exact hw.runs r₀ hr₀
  · show DestOk e initial w.dest n.server (w.runs.set k r')
    rcases hnet with rfl | ⟨c', answered, hcall, hc', hswap⟩
    · exact hdests
    · rcases call_cases hcall with ⟨-, hexec, -⟩ | ⟨-, hserver, -⟩
      · rw [hw.dests r hmem] at hc'
        refine hdests.executed hexec hc' hne fun heq t ht => ?_
        obtain ⟨-, -, hsent, hinserts⟩ := hswap _ _ heq
        refine ⟨r', hmem', hstaging, hsent, Run.Holds.congr ((hw.runs r hmem).held ?_ t ht) hrefresh hinserts⟩
        -- the exchange just executed is the only one
        have hswaps := hinv.swaps
        subst heq
        obtain ⟨old, new, -, -, hserver⟩ := execute_exchange hexec
        rw [if_pos hsent] at hswaps
        have hcount : (view n r.staging).swaps = (view w.net r.staging).swaps + 1 := by
          show n.server.exchanged.count r.staging = _
          rw [hserver, List.count_append, List.count_singleton_self]
          rfl
        omega
      · rw [hserver]
        exact hdests

theorem step_inv {initial : Option (Table ρ)} {w w' : World ρ} {event : Event ρ} (hw : Inv e initial w)
    (h : step e w event = some w') : Inv e initial w' := by
  cases event with
  | start refresh epoch =>
    rw [step] at h
    split_ifs at h with hready
    obtain rfl := Option.some.inj h
    exact start_inv hw hready.1 hready.2.1 (Option.isNone_iff_eq_none.mp hready.2.2)
  | run k event =>
    rw [step] at h
    split at h
    · rename_i r hr
      obtain ⟨⟨n, r'⟩, hstep, rfl⟩ := Option.map_eq_some_iff.mp h
      exact run_inv hw hr hstep
    · cases h
  | arrive k =>
    obtain ⟨n, harrive, rfl⟩ := Option.map_eq_some_iff.mp h
    exact arrive_inv hw harrive

theorem step_dest {w w' : World ρ} {event : Event ρ} (h : step e w event = some w') : w'.dest = w.dest := by
  cases event with
  | start refresh epoch =>
    rw [step] at h
    split_ifs at h
    rw [← Option.some.inj h]
  | run k event =>
    rw [step] at h
    split at h
    · obtain ⟨-, -, rfl⟩ := Option.map_eq_some_iff.mp h
      rfl
    · cases h
  | arrive k =>
    obtain ⟨n, -, rfl⟩ := Option.map_eq_some_iff.mp h
    rfl

theorem start_of_empty {w₀ : World ρ} (hruns : w₀.runs = []) (hlate : w₀.net.late = [])
    (hlog : w₀.net.server.exchanged = []) : Inv e (w₀.net.server.tables w₀.dest) w₀ := by
  have hnone : ∀ r, r ∉ w₀.runs := by
    intro r
    rw [hruns]
    exact List.not_mem_nil
  refine ⟨fun r hr => absurd hr (hnone r), ?_, fun c hc => ?_, fun x hx => ?_, fun r hr => absurd hr (hnone r),
    .inl ⟨hlog, .inl rfl⟩⟩
  · rw [hruns]
    exact List.nodup_nil
  · rw [hlate] at hc
    cases hc
  · rw [hlog] at hx
    cases hx

/-- Over any interleaving of full refreshes, with statements that fail, are lost or come late: the destination holds what it held
at first, nothing where a refresh created it, or all that one refresh read; that refresh was not stopped by its validation, the
shrink guard or a fatal warning; and a refresh that succeeds leaves no staging table. -/
theorem refresh_all_or_nothing {w₀ w : World ρ} (hruns : w₀.runs = []) (hlate : w₀.net.late = [])
    (hlog : w₀.net.server.exchanged = []) {events : List (Event ρ)} (h : exec (step e) w₀ events = some w) :
    (w.net.server.tables w₀.dest = w₀.net.server.tables w₀.dest ∨
      (w₀.net.server.tables w₀.dest = none ∧ w.net.server.tables w₀.dest = some {}) ∨
      ∃ r ∈ w.runs, ∃ t, w.net.server.tables w₀.dest = some t ∧ r.Whole e t.rows ∧
        w.net.server.exchanged.getLast? = some r.staging ∧ (∀ k ∈ r.warnings.kinds, k ∉ r.refresh.cfg.failOnWarnings) ∧
        ∀ error, r.phase = .failing error ∨ r.phase = .failed error → error = .statement) ∧
    ∀ r ∈ w.runs, r.phase = .succeeded →
      w.net.server.tables r.staging = none ∧ w.net.server.exchanged.count r.staging = 1 := by
  have hstart := @start_of_empty ρ e w₀ hruns hlate hlog
  have hend : Inv e (w₀.net.server.tables w₀.dest) w := exec_invariant (fun _ _ _ hs hstep => step_inv hs hstep) hstart h
  have hdest : w.dest = w₀.dest :=
    @exec_invariant _ _ (step e) (fun w => w.dest = w₀.dest) (fun _ _ _ hs hstep => (step_dest hstep).trans hs) _ _ _ rfl h
  constructor
  · rw [← hdest]
    rcases hend.dest with ⟨-, hinitial⟩ | ⟨before, r, hr, hlast, hsent, t, ht, hheld⟩
    · rcases hinitial with hinitial | hcreated
      · exact .inl (by rw [hinitial, hdest])
      · exact .inr (.inl ⟨by rw [hdest]; exact hcreated.1, hcreated.2⟩)
    · have hinv := hend.runs r hr
      refine .inr (.inr ⟨r, hr, t, ht, hheld.whole hinv.numbered (hinv.acked (.inr hsent)), ?_, hinv.harmless (.inr hsent),
        hinv.error hsent⟩)
      rw [hlast, List.getLast?_concat]
  · intro r hr hdone
    have hinv := hend.runs r hr
    exact ⟨hinv.gone hdone, hinv.swapped (.inr hdone)⟩

end

def nightlyRefresh : Refresh where
  cfg := { destTable := "orders", mode := .full, sourceTable := some "orders" }
  allowFullRefreshShrink := false
  stagingSuffix := "_quickhouse_tmp"
  runId := "7"
  sink := { runToken := "7", insertDedupToken := true, callerToken := none }
  texts := { coercion := fun _ _ _ => "", defaulted := fun _ _ => "", leftOut := fun _ _ _ => "" }

def ordersWorld : World Nat where
  dest := "orders"
  net := { server := { tables := fun name => if name = "orders" then some ⟨[⟨0, none, [1, 2]⟩]⟩ else none } }

/-- An insert is repeated and both attempts arrive, and the exchange arrives after the refresh has died. -/
def lateExchange : List (Event Nat) :=
  [.start nightlyRefresh 0, .run 0 (.probe true), .run 0 (.createStaging true), .run 0 (.read [3, 4]),
    .run 0 (.attempt 0 (some 503)), .arrive 0, .run 0 (.attempt 0 (some 200)), .run 0 .readDone, .run 0 (.validate true),
    .run 0 (.countDest .read), .run 0 .checkFatal, .run 0 (.swap false), .run 0 .crash, .arrive 0]

def clickHouse : Engine Nat where
  dedups := true
  sameBlock xs ys := xs = ys
  eq_of_sameBlock := of_decide_eq_true
  merged := none

theorem late_exchange_whole : ∃ w, exec (step clickHouse) ordersWorld lateExchange = some w ∧
    (w.net.server.tables "orders").map Table.rows = some [3, 4] ∧
    ((w.net.server.tables "orders" = ordersWorld.net.server.tables "orders" ∨
      (ordersWorld.net.server.tables "orders" = none ∧ w.net.server.tables "orders" = some {}) ∨
      ∃ r ∈ w.runs, ∃ t, w.net.server.tables "orders" = some t ∧ r.Whole clickHouse t.rows ∧
        w.net.server.exchanged.getLast? = some r.staging ∧ (∀ k ∈ r.warnings.kinds, k ∉ r.refresh.cfg.failOnWarnings) ∧
        ∀ error, r.phase = .failing error ∨ r.phase = .failed error → error = .statement) ∧
    ∀ r ∈ w.runs, r.phase = .succeeded →
      w.net.server.tables r.staging = none ∧ w.net.server.exchanged.count r.staging = 1) := by
  have hrun : (exec (step clickHouse) ordersWorld lateExchange).map
      (fun w => (w.net.server.tables "orders").map Table.rows) = some (some [3, 4]) := by decide +kernel
  obtain ⟨w, hw, hrows⟩ := Option.map_eq_some_iff.mp hrun
  exact ⟨w, hw, hrows, refresh_all_or_nothing rfl rfl rfl hw⟩

end Quickhouse.FullRefresh
