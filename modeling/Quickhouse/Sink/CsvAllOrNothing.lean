import Quickhouse.Lib.Results
import Quickhouse.Sink.CsvNothingLost
import Quickhouse.Sink.CsvPromote

/-!
# A promotion is all or nothing

Whatever step fails, the destination's folder is as it was; if none does, it holds the staged parts and its manifest
lists them.
-/

namespace Quickhouse

open Results

variable {γ : Type}

/-- A staging folder whose parts are closed: its manifest lists each once, with all their rows, and each is there. -/
structure StagedFolder (γ : Type) where
  manifest : Manifest
  files : List (String × γ)
  rows_eq : manifest.rows = (manifest.parts.map (·.rows)).sum
  nodup : (manifest.parts.map (·.file)).Nodup
  present : ∀ p ∈ manifest.parts, p.file ∈ files.map Prod.fst

def StagedFolder.dir (staged : StagedFolder γ) : Dir γ := ⟨some (.ok staged.manifest), staged.files⟩

/-- What the inserts of a run leave when the manifest is written. -/
def Staging.folder [DecidableEq σ] {ctx : StagingCtx ρ} {es : List (StagingEvent σ ρ)} {s : Staging σ ρ} {m : Manifest}
    (hkept : s.Kept ctx es) (hm : s.finished = some m) : StagedFolder (List ρ) where
  manifest := m
  files := s.parts.map fun p => (ctx.cfg.partFormat.fileName ctx.runId p.number, p.rows)
  rows_eq := by
    rw [(hkept.finished m hm).2.2]
    exact Manifest.rows_new ..
  nodup := (hkept.listed hm).2
  present p hp := by
    obtain ⟨q, hq, rfl⟩ := List.mem_map.mp ((hkept.listed hm).1.mem_iff.mp hp)
    rw [List.map_map]
    exact List.mem_map_of_mem hq

namespace Dir

/-- The parts its manifest lists. -/
def listed (d : Dir γ) : List PartInfo :=
  match d.manifest with
  | some (.ok m) => m.parts
  | _ => []

/-- The manifest lists a part once, each is there, and the rows are theirs. -/
def Sound (d : Dir γ) : Prop :=
  ∀ m, d.manifest = some (.ok m) → m.rows = (m.parts.map (·.rows)).sum ∧ (m.parts.map (·.file)).Nodup ∧
    ∀ p ∈ m.parts, p.file ∈ d.files.map Prod.fst

theorem mem_has {d : Dir γ} {name : String} (h : name ∈ d.files.map Prod.fst) : d.has name = true := by
  obtain ⟨f, hf, rfl⟩ := List.mem_map.mp h
  unfold has
  rw [Bool.or_eq_true, List.any_eq_true]
  exact Or.inl ⟨f, hf, by simp⟩

/-- A file that was not there can be added and removed again. -/
theorem remove_add {d : Dir γ} {name : String} (h : d.has name = false) (content : γ) :
    (d.add name content).remove name = d := by
  have hother : ∀ f ∈ d.files, f.1 ≠ name := by
    rintro f hf rfl
    rw [mem_has (List.mem_map_of_mem hf)] at h
    cases h
  unfold add remove
  rw [List.filter_cons_of_neg (by simp), List.filter_eq_self.mpr (fun f hf => by simpa using hother f hf)]

end Dir

theorem StagedFolder.sound (staged : StagedFolder γ) : staged.dir.Sound := by
  intro m hm
  obtain rfl : staged.manifest = m := Except.ok.inj (Option.some.inj hm)
  exact ⟨staged.rows_eq, staged.nodup, staged.present⟩

/-! ### Moving the parts and moving them back -/

section Moves

variable {ctx : PromoteCtx} {faults : PromoteFaults}

theorem mem_of_lookup {l : List (String × γ)} {name : String} {content : γ} (h : l.lookup name = some content) :
    (name, content) ∈ l := by
  induction l with
  | nil => cases h
  | cons f l ih =>
    rw [List.lookup_cons] at h
    split at h
    · obtain rfl := Option.some.inj h
      simp_all
    · exact List.mem_cons_of_mem _ (ih h)

theorem movePart_ok {name : String} {s s' : Dirs γ} (h : movePart ctx faults name s = .ok s') :
    s.2.has name = false ∧
      ∃ content, (name, content) ∈ s.1.files ∧ s' = (s.1.remove name, s.2.add name content) := by
  unfold movePart at h
  dsimp only at h
  split_ifs at h with hhas
  split at h
  case h_3 content _ hlookup =>
    obtain rfl := Except.ok.inj h
    exact ⟨by simpa using hhas, content, mem_of_lookup hlookup, rfl⟩
  all_goals cases h

theorem undoMove_snd (hundo : ∀ f, faults.undoMove f = none) (s : Dirs γ) (name : String) :
    (undoMove faults s name).2 = s.2.remove name := by
  unfold undoMove
  rw [hundo name]
  cases hlookup : s.2.files.lookup name with
  | some content => rfl
  | none =>
    have hother : s.2.files.filter (fun f => f.1 ≠ name) = s.2.files := by
      refine List.filter_eq_self.mpr fun f hf => ?_
      have hne : (name != f.1) = true := List.lookup_eq_none_iff.mp hlookup f hf
      have hname : f.1 ≠ name := fun heq => by simp [heq] at hne
      exact decide_eq_true hname
    exact (congrArg (Dir.mk s.2.manifest) hother).symm

theorem undo_snd (hundo : ∀ f, faults.undoMove f = none) (moved : List String) (s : Dirs γ) :
    (undo faults moved s).2 = moved.reverse.foldl Dir.remove s.2 := by
  unfold undo
  induction moved.reverse generalizing s with
  | nil => rfl
  | cons f fs ih => rw [List.foldl_cons, List.foldl_cons, ih, undoMove_snd hundo]

/-- Where the moves stand: what they put into the destination's folder, and how to be rid of it. -/
structure Moved (s₀ : Dirs γ) (moved : List String) (s : Dirs γ) : Prop where
  back : moved.reverse.foldl Dir.remove s.2 = s₀.2
  manifest : s.2.manifest = s₀.2.manifest
  kept : s₀.2.files ⊆ s.2.files
  left : s.1.files ⊆ s₀.1.files
  landed : ∀ f ∈ moved, ∃ content, (f, content) ∈ s₀.1.files ∧ (f, content) ∈ s.2.files
  fresh : ∀ f ∈ moved, s₀.2.has f = false

theorem Moved.step {s₀ s s' : Dirs γ} {moved : List String} {name : String} (h : Moved s₀ moved s)
    (hmove : movePart ctx faults name s = .ok s') : Moved s₀ (moved ++ [name]) s' := by
  obtain ⟨hhas, content, hmem, rfl⟩ := movePart_ok hmove
  constructor
  · rw [List.reverse_append, List.reverse_singleton, List.singleton_append, List.foldl_cons, Dir.remove_add hhas]
    exact h.back
  · exact h.manifest
  · exact fun f hf => List.mem_cons_of_mem _ (h.kept hf)
  · exact fun f hf => h.left (List.mem_filter.mp hf).1
  · intro f hf
    rcases List.mem_append.mp hf with hf | hf
    · obtain ⟨c, hfrom, hthere⟩ := h.landed f hf
      exact ⟨c, hfrom, List.mem_cons_of_mem _ hthere⟩
    · obtain rfl := List.mem_singleton.mp hf
      exact ⟨content, h.left hmem, List.mem_cons_self⟩
  · intro f hf
    rcases List.mem_append.mp hf with hf | hf
    · exact h.fresh f hf
    · obtain rfl := List.mem_singleton.mp hf
      -- the name was free after the earlier moves, so before them too
      by_contra hthere
      have hbefore : s₀.2.has f = true := by simpa using hthere
      unfold Dir.has at hbefore hhas
      rw [Bool.or_eq_true, List.any_eq_true] at hbefore
      rw [Bool.or_eq_false_iff, List.any_eq_false, h.manifest] at hhas
      rcases hbefore with ⟨g, hg, hname⟩ | hmanifest
      · exact hhas.1 g (h.kept hg) hname
      · rw [hmanifest] at hhas
        cases hhas.2

theorem moveParts_spec (hundo : ∀ f, faults.undoMove f = none) {s₀ s : Dirs γ} {moved : List String}
    (parts : List PartInfo) (h : Moved s₀ moved s) :
    (∃ e, (moveParts ctx faults moved parts s).1 = .error e ∧ (moveParts ctx faults moved parts s).2.2 = s₀.2) ∨
      ∃ s', moveParts ctx faults moved parts s = (.ok (moved ++ parts.map (·.file)), s') ∧
        Moved s₀ (moved ++ parts.map (·.file)) s' := by
  induction parts generalizing moved s with
  | nil => exact Or.inr ⟨s, by simp [moveParts], by simpa using h⟩
  | cons p parts ih =>
    unfold moveParts
    cases hmove : movePart ctx faults p.file s with
    | error e =>
      refine Or.inl ⟨e, rfl, ?_⟩
      rw [undo_snd hundo]
      exact h.back
    | ok s' =>
      have hrest := ih (h.step hmove)
      simpa using hrest

end Moves

/-! ### Appending -/

section Append

variable {ctx : PromoteCtx} {faults : PromoteFaults}

/-- A folder that can be added to is one of a table, or an empty one. -/
theorem readFolder_ok {entry : Option (Entry γ)} {folder : Folder} (h : readFolder ctx faults entry = .ok folder) :
    (entry = none ∧ folder = .missing) ∨
      ∃ d, entry = some (.dir d) ∧
        ((∃ m, d.manifest = some (.ok m) ∧ folder = .table m) ∨ d.manifest = none ∧ folder = .empty) := by
  unfold readFolder at h
  split at h
  case h_1 => cases h
  case h_2 =>
    obtain rfl := Except.ok.inj h
    exact Or.inl ⟨rfl, rfl⟩
  case h_3 => cases h
  case h_4 d _ =>
    refine Or.inr ⟨d, rfl, ?_⟩
    split at h
    case h_1 => cases h
    case h_2 => cases h
    case h_3 m _ hmanifest =>
      split_ifs at h
      obtain rfl := Except.ok.inj h
      exact Or.inl ⟨m, hmanifest, rfl⟩
    case h_4 _ hmanifest =>
      split at h
      · cases h
      · split_ifs at h
        obtain rfl := Except.ok.inj h
        exact Or.inr ⟨hmanifest, rfl⟩

theorem checkLayout_ok {staged m target : Manifest} (h : checkLayout ctx staged m = .ok target) :
    target.parts = m.parts ∧ (m.columns ≠ [] → layoutDifferences m staged.names ctx.cfg = []) := by
  unfold checkLayout at h
  dsimp only at h
  split_ifs at h with hcolumns hdiffs
  · obtain rfl := Except.ok.inj h
    exact ⟨rfl, fun hne => absurd (List.isEmpty_iff.mp hcolumns) hne⟩
  · obtain rfl := Except.ok.inj h
    exact ⟨rfl, fun _ => List.isEmpty_iff.mp hdiffs⟩

/-- The parts are added to those the folder has. -/
theorem appendTarget_parts {staged target : Manifest} {entry : Option (Entry γ)}
    (h : (readFolder ctx faults entry).bind (appendTarget ctx staged) = .ok target) :
    ∃ d, entry = some (.dir d) ∧ target.parts = d.listed := by
  obtain ⟨folder, hfolder, htarget⟩ := bind_eq_ok.mp h
  rcases readFolder_ok hfolder with ⟨_, rfl⟩ | ⟨d, hentry, ⟨m, hm, rfl⟩ | ⟨hm, rfl⟩⟩
  · cases htarget
  · exact ⟨d, hentry, by rw [(checkLayout_ok htarget).1, Dir.listed, hm]⟩
  · exact ⟨d, hentry, by rw [(checkLayout_ok htarget).1, Dir.listed, hm]; rfl⟩

/-- What an append leaves: the staged parts behind the earlier ones, in the folder and in its manifest. -/
structure Appended (staged : StagedFolder γ) (d d' : Dir γ) : Prop where
  manifest : ∃ m, d'.manifest = some (.ok m) ∧ m.parts = d.listed ++ staged.manifest.parts ∧
    m.rows = (m.parts.map (·.rows)).sum
  kept : d.files ⊆ d'.files
  landed : ∀ p ∈ staged.manifest.parts, d.has p.file = false ∧
    ∃ content, (p.file, content) ∈ staged.files ∧ (p.file, content) ∈ d'.files

/-- A folder that was sound is sound after it. -/
theorem Appended.sound {staged : StagedFolder γ} {d d' : Dir γ} (h : Appended staged d d') (hd : d.Sound) :
    d'.Sound := by
  obtain ⟨m, hmanifest, hparts, hrows⟩ := h.manifest
  have hlisted : (d.listed.map (·.file)).Nodup ∧ ∀ p ∈ d.listed, p.file ∈ d.files.map Prod.fst := by
    unfold Dir.listed
    split
    case h_1 m₀ hm₀ => exact (hd m₀ hm₀).2
    case h_2 => exact ⟨List.nodup_nil, by simp⟩
  intro m' hm'
  obtain rfl : m = m' := Except.ok.inj (Option.some.inj (hmanifest.symm.trans hm'))
  refine ⟨hrows, ?_, ?_⟩
  · rw [hparts, List.map_append, List.nodup_append]
    refine ⟨hlisted.1, staged.nodup, ?_⟩
    -- an earlier part is in the folder, where no staged part was
    rintro name hearlier _ hstaged rfl
    obtain ⟨p, hp, rfl⟩ := List.mem_map.mp hearlier
    obtain ⟨q, hq, hname⟩ := List.mem_map.mp hstaged
    have hfresh := (h.landed q hq).1
    rw [hname, Dir.mem_has (hlisted.2 p hp)] at hfresh
    cases hfresh
  · intro p hp
    rw [hparts] at hp
    rcases List.mem_append.mp hp with hp | hp
    · obtain ⟨f, hf, hname⟩ := List.mem_map.mp (hlisted.2 p hp)
      exact List.mem_map.mpr ⟨f, h.kept hf, hname⟩
    · obtain ⟨content, _, hthere⟩ := (h.landed p hp).2
      exact List.mem_map.mpr ⟨_, hthere, rfl⟩

theorem insertSelect_spec (hundo : ∀ f, faults.undoMove f = none) (staged : StagedFolder γ) {r : Root γ}
    (hstaging : r .staging = some (.dir staged.dir)) :
    ((∃ e, (CsvSink.insertSelect ctx faults staged.manifest r).1 = .error e) ∧
      (CsvSink.insertSelect ctx faults staged.manifest r).2 .dest = r .dest) ∨
    ((CsvSink.insertSelect ctx faults staged.manifest r).1 = .ok () ∧ ∃ d d', r .dest = some (.dir d) ∧
      (CsvSink.insertSelect ctx faults staged.manifest r).2 .dest = some (.dir d') ∧ Appended staged d d') := by
  unfold CsvSink.insertSelect
  split
  case h_1 e _ => exact Or.inl ⟨⟨_, rfl⟩, rfl⟩
  case h_2 =>
  cases htarget : (readFolder ctx faults (r .dest)).bind (appendTarget ctx staged.manifest) with
  | error e => exact Or.inl ⟨⟨e, rfl⟩, rfl⟩
  | ok target =>
    obtain ⟨d, hdest, hparts⟩ := appendTarget_parts htarget
    have hdirs : (Entry.asDir (r .staging), Entry.asDir (r .dest)) = (staged.dir, d) := by rw [hstaging, hdest]; rfl
    have hstart : Moved (staged.dir, d) [] (staged.dir, d) :=
      ⟨rfl, rfl, List.Subset.refl _, List.Subset.refl _, by simp, by simp⟩
    rcases @moveParts_spec _ ctx _ hundo _ _ _ staged.manifest.parts hstart with ⟨e, herror, hback⟩ | ⟨s, hmoved, hs⟩
    · dsimp only
      rw [hdirs]
      revert herror hback
      generalize moveParts ctx faults [] staged.manifest.parts (staged.dir, d) = out
      obtain ⟨result, s⟩ := out
      rintro rfl hback
      have hsame : s.2 = d := hback
      exact Or.inl ⟨⟨e, rfl⟩, by rw [hdest, ← hsame]; rfl⟩
    · dsimp only
      rw [hdirs, hmoved]
      dsimp only
      obtain ⟨_, ⟨e, hresult, hdir⟩ | ⟨hresult, hdir⟩⟩ := writeManifest_cases ctx faults.manifest
        (target.append staged.manifest.parts) s.2
      · rw [hresult, hdir]
        refine Or.inl ⟨⟨e, rfl⟩, ?_⟩
        have hundone : (undo faults ([] ++ staged.manifest.parts.map (·.file)) (s.1, s.2)).2 = d := by
          rw [undo_snd hundo]
          exact hs.back
        rw [hdest, ← hundone]
        rfl
      · rw [hresult, hdir]
        refine Or.inr ⟨rfl, d, _, hdest, rfl, ⟨_, rfl, ?_, rfl⟩, hs.kept, fun p hp => ?_⟩
        · rw [← hparts]
          rfl
        · have hname : p.file ∈ [] ++ staged.manifest.parts.map (·.file) := List.mem_map_of_mem hp
          exact ⟨hs.fresh _ hname, hs.landed _ hname⟩

/-- Where the folder's columns are named, another layout is refused before a file moves. -/
theorem insertSelect_refuses (staged : Manifest) {r : Root γ} {d : Dir γ} {m : Manifest}
    (hdest : r .dest = some (.dir d)) (hm : d.manifest = some (.ok m)) (hnamed : m.columns ≠ [])
    (hdiffs : layoutDifferences m staged.names ctx.cfg ≠ []) :
    ∃ e, CsvSink.insertSelect ctx faults staged r = (.error e, r) := by
  unfold CsvSink.insertSelect
  split
  case h_1 e _ => exact ⟨_, rfl⟩
  case h_2 =>
  cases htarget : (readFolder ctx faults (r .dest)).bind (appendTarget ctx staged) with
  | error e => exact ⟨e, rfl⟩
  | ok target =>
    obtain ⟨folder, hfolder, hlayout⟩ := bind_eq_ok.mp htarget
    rw [hdest] at hfolder
    rcases readFolder_ok hfolder with ⟨hnone, _⟩ | ⟨d', hd', ⟨m', hm', rfl⟩ | ⟨hnone, rfl⟩⟩
    · cases hnone
    · obtain rfl := Entry.dir.inj (Option.some.inj hd')
      obtain rfl := Except.ok.inj (Option.some.inj (hm.symm.trans hm'))
      exact absurd ((checkLayout_ok hlayout).2 hnamed) hdiffs
    · obtain rfl := Entry.dir.inj (Option.some.inj hd')
      rw [hm] at hnone
      cases hnone

end Append

/-! ### Swapping -/

section Swap

variable {ctx : PromoteCtx} {faults : PromoteFaults}

theorem rename_ok {fault : Option String} {a b : Place} {r r' : Root γ} (h : rename fault a b r = .ok r') :
    ∃ x, r a = some x ∧ r' = Function.update (Function.update r b (some x)) a none := by
  unfold rename at h
  split at h
  case h_1 => cases h
  case h_2 => cases h
  case h_3 _ _ x hx =>
    split_ifs at h
    obtain rfl := Except.ok.inj h
    exact ⟨x, hx, rfl⟩

/-- Without a fault, what is somewhere can be renamed to where nothing is. -/
theorem rename_free {a b : Place} {r : Root γ} {x : Entry γ} (ha : r a = some x) (hb : r b = none) :
    rename none a b r = .ok (Function.update (Function.update r b (some x)) a none) := by
  unfold rename
  rw [ha, hb]
  rfl

theorem swapDirsByRenames_spec (hback : faults.moveBack = none) {r : Root γ} {x : Entry γ}
    (hstaging : r .staging = some x) :
    ((∃ e, (swapDirsByRenames ctx faults r).1 = .error e) ∧ (swapDirsByRenames ctx faults r).2 .dest = r .dest) ∨
      (swapDirsByRenames ctx faults r).1 = .ok () ∧ (swapDirsByRenames ctx faults r).2 .dest = some x := by
  unfold swapDirsByRenames
  cases haside : rename faults.moveAside .dest .aside r with
  | error e => exact Or.inl ⟨⟨_, rfl⟩, rfl⟩
  | ok r₁ =>
    obtain ⟨old, hold, rfl⟩ := rename_ok haside
    dsimp only
    cases hin : rename faults.moveIn .staging .dest
        (Function.update (Function.update r .aside (some old)) .dest none) with
    | error e =>
      -- the old folder goes back to a path where nothing is
      have hundo := rename_free (a := .aside) (b := .dest)
        (r := Function.update (Function.update r .aside (some old)) .dest none) (x := old) rfl rfl
      rw [hback, hundo]
      exact Or.inl ⟨⟨_, rfl⟩, hold.symm⟩
    | ok r₂ =>
      obtain ⟨new, hnew, rfl⟩ := rename_ok hin
      obtain rfl : x = new := Option.some.inj (hstaging.symm.trans hnew)
      dsimp only
      cases hlast : rename faults.moveOld .aside .staging
          (Function.update (Function.update (Function.update (Function.update r .aside (some old)) .dest none) .dest
            (some x)) .staging none) with
      | error e =>
        refine Or.inr ⟨rfl, ?_⟩
        dsimp only
        split_ifs <;> rfl
      | ok r₃ =>
        obtain ⟨_, _, rfl⟩ := rename_ok hlast
        exact Or.inr ⟨rfl, rfl⟩

theorem swapDirs_spec (hback : faults.moveBack = none) {r : Root γ} {x : Entry γ} (hstaging : r .staging = some x) :
    ((∃ e, (swapDirs ctx faults r).1 = .error e) ∧ (swapDirs ctx faults r).2 .dest = r .dest) ∨
      (swapDirs ctx faults r).1 = .ok () ∧ (swapDirs ctx faults r).2 .dest = some x := by
  unfold swapDirs
  cases hdest : r .dest with
  | none =>
    dsimp only
    cases hin : rename faults.intoPlace .staging .dest r with
    | error e => exact Or.inl ⟨⟨_, rfl⟩, hdest⟩
    | ok r' =>
      obtain ⟨new, hnew, rfl⟩ := rename_ok hin
      obtain rfl : x = new := Option.some.inj (hstaging.symm.trans hnew)
      exact Or.inr ⟨rfl, rfl⟩
  | some old =>
    dsimp only
    cases faults.exchange with
    | none =>
      rw [hstaging]
      exact Or.inr ⟨rfl, rfl⟩
    | some e =>
      rw [← hdest]
      exact swapDirsByRenames_spec hback hstaging

theorem atomicSwap_spec (hback : faults.moveBack = none) {r : Root γ} {x : Entry γ} (hstaging : r .staging = some x) :
    ((∃ e, (CsvSink.atomicSwap ctx faults r).1 = .error e) ∧ (CsvSink.atomicSwap ctx faults r).2 .dest = r .dest) ∨
      (CsvSink.atomicSwap ctx faults r).1 = .ok () ∧ (CsvSink.atomicSwap ctx faults r).2 .dest = some x := by
  unfold CsvSink.atomicSwap
  split
  case h_1 e _ => exact Or.inl ⟨⟨_, rfl⟩, rfl⟩
  case h_2 =>
  cases readFolder ctx faults (r .dest) with
  | error e => exact Or.inl ⟨⟨_, rfl⟩, rfl⟩
  | ok folder => exact swapDirs_spec hback hstaging

end Swap

/-! ### All or nothing -/

/-- Whatever fails, moving the parts back apart: an append leaves the destination as it was, with an error, or the
staged parts behind the earlier ones; a swap leaves it as it was, with an error, or the staged parts only; and an
append to a folder with named columns and another layout moves nothing. -/
theorem promote_all_or_nothing (ctx : PromoteCtx) (faults : PromoteFaults) (staged : StagedFolder γ) (r : Root γ)
    (hundo : ∀ f, faults.undoMove f = none) (hback : faults.moveBack = none)
    (hstaging : r .staging = some (.dir staged.dir)) :
    (((∃ e, (CsvSink.insertSelect ctx faults staged.manifest r).1 = .error e) ∧
        (CsvSink.insertSelect ctx faults staged.manifest r).2 .dest = r .dest) ∨
      (CsvSink.insertSelect ctx faults staged.manifest r).1 = .ok () ∧ ∃ d d', r .dest = some (.dir d) ∧
        (CsvSink.insertSelect ctx faults staged.manifest r).2 .dest = some (.dir d') ∧ Appended staged d d' ∧
        (d.Sound → d'.Sound)) ∧
    (((∃ e, (CsvSink.atomicSwap ctx faults r).1 = .error e) ∧ (CsvSink.atomicSwap ctx faults r).2 .dest = r .dest) ∨
      (CsvSink.atomicSwap ctx faults r).1 = .ok () ∧ (CsvSink.atomicSwap ctx faults r).2 .dest = some (.dir staged.dir) ∧
        staged.dir.Sound) ∧
    ∀ d m, r .dest = some (.dir d) → d.manifest = some (.ok m) → m.columns ≠ [] →
      ¬(m.names = staged.manifest.names ∧ m.delimiter = ctx.cfg.delimiterText ∧ m.header = ctx.cfg.header ∧
        m.compression = ctx.cfg.compression.label) →
      ∃ e, CsvSink.insertSelect ctx faults staged.manifest r = (.error e, r) := by
  refine ⟨?_, ?_, fun d m hdest hm hnamed hlayout => ?_⟩
  · rcases @insertSelect_spec _ ctx _ hundo staged r hstaging with herror | ⟨hok, d, d', hdest, hdest', happended⟩
    · exact Or.inl herror
    · exact Or.inr ⟨hok, d, d', hdest, hdest', happended, happended.sound⟩
  · rcases @atomicSwap_spec _ ctx _ hback r _ hstaging with herror | ⟨hok, hdest⟩
    · exact Or.inl herror
    · exact Or.inr ⟨hok, hdest, staged.sound⟩
  · exact insertSelect_refuses staged.manifest hdest hm hnamed (mt layoutDifferences_eq_nil.mp hlayout)

/-! ### Two folders -/

def semicolonCtx : PromoteCtx where
  cfg := ⟨59, true, .none, 2, rfl, Nat.two_pos⟩
  root := "out"
  path
    | .dest => "out/t"
    | .staging => "out/t_tmp_7"
    | .aside => "out/t_tmp_7_old"
  tmp := "out/t/.tmp"

def stagedPair : StagedFolder Nat where
  manifest := Manifest.new semicolonCtx.cfg [⟨"id", "Int64"⟩] [⟨"part-7-00000.csv", 2, 9⟩, ⟨"part-7-00001.csv", 1, 6⟩]
  files := [("part-7-00000.csv", 1), ("part-7-00001.csv", 2)]
  rows_eq := rfl
  nodup := by decide
  present := by decide

/-- A destination with one part, and the staged folder beside it. -/
def besidePair (m : Manifest) : Root Nat
  | .dest => some (.dir ⟨some (.ok m), [("part-3-00000.csv", 0)]⟩)
  | .staging => some (.dir stagedPair.dir)
  | .aside => none

def earlier (columns : List ManifestColumn) (delimiter : String) : Manifest :=
  ⟨manifestFormat, 1, columns, delimiter, true, none, 5, [⟨"part-3-00000.csv", 5, 20⟩]⟩

/-- The second part cannot be moved: the first is moved back. -/
theorem promote_all_or_nothing_second_fails :
    (CsvSink.insertSelect semicolonCtx { movePart := fun f => if f = "part-7-00001.csv" then some "no space left" else none }
      stagedPair.manifest (besidePair (earlier [⟨"id", "Int64"⟩] ";"))).2 .dest =
        besidePair (earlier [⟨"id", "Int64"⟩] ";") .dest := by
  rcases (promote_all_or_nothing semicolonCtx
    { movePart := fun f => if f = "part-7-00001.csv" then some "no space left" else none } stagedPair
    (besidePair (earlier [⟨"id", "Int64"⟩] ";")) (fun _ => rfl) rfl rfl).1 with ⟨_, hsame⟩ | ⟨hok, _⟩
  · exact hsame
  · have herror : (CsvSink.insertSelect semicolonCtx
        { movePart := fun f => if f = "part-7-00001.csv" then some "no space left" else none } stagedPair.manifest
        (besidePair (earlier [⟨"id", "Int64"⟩] ";"))).1.isOk = false := by decide +kernel
    rw [hok] at herror
    cases herror

/-- A folder whose manifest names no column takes parts of another delimiter. -/
theorem unnamed_layout_not_refused :
    layoutDifferences (earlier [] ",") stagedPair.manifest.names semicolonCtx.cfg ≠ [] ∧
      (CsvSink.insertSelect semicolonCtx {} stagedPair.manifest (besidePair (earlier [] ","))).1 = .ok () ∧
      (Entry.asDir ((CsvSink.insertSelect semicolonCtx {} stagedPair.manifest (besidePair (earlier [] ","))).2 .dest)).files =
        [("part-7-00001.csv", 2), ("part-7-00000.csv", 1), ("part-3-00000.csv", 0)] := by
  refine ⟨?_, ?_, ?_⟩
  · rw [Ne, layoutDifferences_eq_nil]
    decide +kernel
  · decide +kernel
  · decide +kernel

end Quickhouse
