import Backlog.Import.Analysis
import Backlog.Proofs.Graph.Links
import Backlog.Proofs.Import.Python.RoundTrip
import Backlog.Proofs.Import.SourceFiles
import Backlog.Proofs.Import.Whereabouts
import Mathlib

namespace Backlog

open Backlog.Files Backlog.Number Backlog.Text

/-!
# The answers to imports

An import is answered by the source files that it leads to, or by one answer without a file.

* `Sources.LeadsTo` — how a place leads to a source file: it is one, or it is there and its real path
  is one;
* `Sources.firstOf_some`, `Sources.hits_ok`, `Sources.firstHits_ok` — what the search finds, list by
  list, row by row;
* `Sources.IsAnswered` — what the answers to an import say; `Sources.isAnswered_of_resolveOne` — they
  all do;
* `Sources.resolve_answers` — the answers to the imports of a file, in order; and those without a file
  are the ones that a graph leaves out.
-/

/-- The results of a list of computations, one for each member in order. This turns a loop that may
    stop into one that did not. -/
theorem forall₂_of_mapM_ok {ε α β : Type} {f : α → Except ε β} {items : List α} {results : List β}
    (h : items.mapM f = .ok results) : List.Forall₂ (fun a b => f a = .ok b) items results := by
  induction items generalizing results with
  | nil =>
    obtain rfl := pure_ok_iff.mp h
    exact .nil
  | cons a items ih =>
    rw [List.mapM_cons] at h
    obtain ⟨b, hb, h⟩ := bind_ok_iff.mp h
    obtain ⟨rest, hrest, h⟩ := bind_ok_iff.mp h
    obtain rfl := pure_ok_iff.mp h
    exact .cons hb (ih hrest)

namespace Sources

variable {s : Sources} {c p : Path}

/-! ### The search -/

/-- A place leads to a source file. -/
inductive LeadsTo (s : Sources) (c : Path) : Path → Prop
  /-- It is a source file itself. -/
  | known (h : c ∈ s.known) : LeadsTo s c c
  /-- Something is there, and its real path is a source file. -/
  | real {p : Path} (hthere : s.tree.present c.text = .ok true) (hreal : s.tree.resolve c = .ok p)
      (h : p ∈ s.known) : LeadsTo s c p

theorem LeadsTo.mem (h : s.LeadsTo c p) : p ∈ s.known := by
  cases h with
  | known h => exact h
  | real _ _ h => exact h

/-- Looking up a place finds a source file that it leads to, or it leads to none. For a look that is
    not refused tells what is there. -/
theorem lookup_ok {found : Option Path} (h : s.lookup c = .ok found) :
    (found = none ∧ ∀ p, ¬ s.LeadsTo c p) ∨ ∃ p, found = some p ∧ s.LeadsTo c p := by
  unfold lookup at h
  split at h
  · rename_i hknown
    obtain rfl := Except.ok.inj h
    exact .inr ⟨c, rfl, .known (List.contains_iff_mem.mp hknown)⟩
  · rename_i hunknown
    have hunknown : c ∉ s.known := fun hmem => hunknown (List.contains_iff_mem.mpr hmem)
    obtain ⟨isThere, hthere, h⟩ := bind_ok_iff.mp h
    rw [mapError_ok_iff] at hthere
    -- A place that is no source file leads to one only if its real path is one.
    cases isThere with
    | false =>
      obtain rfl := pure_ok_iff.mp h
      refine .inl ⟨rfl, fun p hp => ?_⟩
      cases hp with
      | known hmem => exact hunknown hmem
      | real hthere' =>
        rw [hthere] at hthere'
        cases hthere'
    | true =>
      obtain ⟨real, hreal, h⟩ := bind_ok_iff.mp h
      rw [mapError_ok_iff] at hreal
      obtain rfl := pure_ok_iff.mp h
      by_cases hmem : real ∈ s.known
      · rw [if_pos (List.contains_iff_mem.mpr hmem)]
        exact .inr ⟨real, rfl, .real hthere hreal hmem⟩
      · rw [if_neg fun hcontains => hmem (List.contains_iff_mem.mp hcontains)]
        refine .inl ⟨rfl, fun p hp => ?_⟩
        cases hp with
        | known hc => exact hunknown hc
        | real _ hreal' hp =>
          rw [hreal] at hreal'
          exact hmem (Except.ok.inj hreal' ▸ hp)

/-- A place where nothing is found leads to no source file. -/
theorem not_leadsTo_of_lookup (h : s.lookup c = .ok none) : ∀ p, ¬ s.LeadsTo c p := by
  rcases lookup_ok h with ⟨_, hnone⟩ | ⟨p, hp, _⟩
  · exact hnone
  · cases hp

/-- The first hit of a list is what one of its places leads to. -/
theorem firstOf_some {candidates : Candidates} (h : s.firstOf candidates = .ok (some p)) :
    ∃ c ∈ candidates, s.LeadsTo c p := by
  induction candidates with
  | nil => cases h
  | cons c rest ih =>
    rw [firstOf] at h
    obtain ⟨found, hfound, h⟩ := bind_ok_iff.mp h
    cases found with
    | none =>
      obtain ⟨d, hd, hleads⟩ := ih h
      exact ⟨d, List.mem_cons_of_mem _ hd, hleads⟩
    | some q =>
      obtain rfl := Option.some.inj (pure_ok_iff.mp h)
      rcases lookup_ok hfound with ⟨hnone, _⟩ | ⟨q, hq, hleads⟩
      · cases hnone
      · rw [Option.some.inj hq]
        exact ⟨c, List.mem_cons_self, hleads⟩

/-- Adding what is new adds all of it, and nothing twice. Members keep the order in which they came
    first. -/
theorem foldl_new (found : List Path) {paths : List Path} (h : paths.Nodup) :
    let all := found.foldl (fun paths p => if paths.contains p then paths else paths ++ [p]) paths
    all.Nodup ∧ ∀ p, p ∈ all ↔ p ∈ paths ∨ p ∈ found := by
  induction found generalizing paths with
  | nil => exact ⟨h, fun p => by simp⟩
  | cons q found ih =>
    rw [List.foldl_cons]
    by_cases hq : q ∈ paths
    · rw [if_pos (List.contains_iff_mem.mpr hq)]
      refine ⟨(ih h).1, fun p => ((ih h).2 p).trans ?_⟩
      rw [List.mem_cons]
      exact ⟨fun hp => hp.imp_right .inr, fun hp => hp.elim .inl fun hp =>
        hp.elim (fun heq => .inl (heq ▸ hq)) .inr⟩
    · rw [if_neg fun hcontains => hq (List.contains_iff_mem.mp hcontains)]
      have hnodup : (paths ++ [q]).Nodup := by
        rw [List.nodup_append]
        refine ⟨h, List.nodup_singleton q, fun p hp r hr heq => hq ?_⟩
        rwa [← List.mem_singleton.mp hr, ← heq]
      refine ⟨(ih hnodup).1, fun p => ((ih hnodup).2 p).trans ?_⟩
      rw [List.mem_append, List.mem_singleton, List.mem_cons, or_assoc]

/-- The source files that a row leads to are distinct, and each is found in one of its lists. One
    list gives one source file at most. -/
theorem hits_ok {row : List Candidates} {paths : List Path} (h : s.hits row = .ok paths) :
    paths.Nodup ∧ ∀ p ∈ paths, ∃ candidates ∈ row, ∃ c ∈ candidates, s.LeadsTo c p := by
  unfold hits at h
  obtain ⟨found, hfound, h⟩ := bind_ok_iff.mp h
  obtain rfl := pure_ok_iff.mp h
  obtain ⟨hnodup, hmem⟩ := foldl_new (found.filterMap id) List.nodup_nil
  refine ⟨hnodup, fun p hp => ?_⟩
  obtain ⟨_, hp, rfl⟩ := List.mem_filterMap.mp (((hmem p).mp hp).resolve_left List.not_mem_nil)
  obtain ⟨candidates, hcandidates, hfirst⟩ := (mem_of_mapM_ok hfound _).mp hp
  exact ⟨candidates, hcandidates, firstOf_some hfirst⟩

/-- A search finds what the first row leads to that leads to anything. The rows before it were
    searched in vain. -/
theorem firstHits_ok {rows : List (List Candidates)} {paths : List Path}
    (h : s.firstHits rows = .ok paths) :
    (paths = [] ∧ ∀ row ∈ rows, s.hits row = .ok []) ∨
      (paths ≠ [] ∧ ∃ row, IsBehind (fun other => s.hits other = .ok []) rows row ∧
        s.hits row = .ok paths) := by
  induction rows with
  | nil =>
    obtain rfl := Except.ok.inj h
    exact .inl ⟨rfl, List.forall_mem_nil _⟩
  | cons row rest ih =>
    rw [firstHits] at h
    obtain ⟨found, hfound, h⟩ := bind_ok_iff.mp h
    cases found with
    | nil =>
      rcases ih h with ⟨hnil, hall⟩ | ⟨hne, other, hbehind, hother⟩
      · exact .inl ⟨hnil, List.forall_mem_cons.mpr ⟨hfound, hall⟩⟩
      · exact .inr ⟨hne, other, isBehind_cons.mpr (.inr ⟨hfound, hbehind⟩), hother⟩
    | cons first more =>
      obtain rfl := pure_ok_iff.mp h
      exact .inr ⟨List.cons_ne_nil _ _, row, isBehind_head, hfound⟩

/-! ### The answers -/

/-- The answer to an import that leads nowhere. -/
def external (i : WrittenImport) : ResolvedImport := ⟨i.specifier, i.line, none⟩

/-- What the answers to an import of a file say. -/
structure IsAnswered (s : Sources) (language : Language) (importer : Path) (i : WrittenImport)
    (answers : List ResolvedImport) : Prop where
  /-- There is an answer. -/
  ne_nil : answers ≠ []
  /-- Each says what is imported and on which line. -/
  written : ∀ a ∈ answers, a.specifier = i.specifier ∧ a.line = i.line
  /-- A file in an answer is a source file that a place of the import leads to. -/
  leads : ∀ a ∈ answers, ∀ t, a.target = some t →
    ∃ c p, IsCandidate i importer s.root language c ∧ s.LeadsTo c p ∧ t = p.text
  /-- An answer without a file is the only one. -/
  alone : ∀ a ∈ answers, a.target = none → answers = [external i]
  /-- It is given exactly if no place of the import leads to a source file. -/
  external_iff : answers = [external i] ↔
    ∀ c, IsCandidate i importer s.root language c → ∀ p, ¬ s.LeadsTo c p
  /-- No file is given twice. -/
  distinct : (∀ p ∈ s.known, p.IsSpelled) → (answers.map ResolvedImport.target).Nodup
  /-- The files of an import of Python are found in one folder, and none is found in the folders that
  come before it. -/
  folder : language = .python → answers ≠ [external i] →
    ∃ base, IsBehind (fun other => ∀ c, IsModulePlace i.names other c → ∀ p, ¬ s.LeadsTo c p)
        (pythonBases i.specifier importer s.root) base ∧
      ∀ a ∈ answers, ∃ c p, IsModulePlace i.names base c ∧ s.LeadsTo c p ∧ a.target = some p.text

variable {language : Language} {importer : Path} {i : WrittenImport}

/-- Rows without a hit hold no place that leads to a source file. So to find nothing is a statement
    about every place. -/
theorem not_leadsTo_of_hits {row : List Candidates} (h : s.hits row = .ok []) :
    ∀ candidates ∈ row, ∀ c ∈ candidates, ∀ p, ¬ s.LeadsTo c p :=
  fun candidates hcandidates c hc =>
    not_leadsTo_of_lookup (hits_nil_iff.mp h candidates hcandidates c hc)

/-- The row behind which a search of Python stops belongs to a folder. The rows are in the order of
    the folders. -/
theorem exists_base_of_isBehind {row : List Candidates}
    (h : IsBehind (fun other => s.hits other = .ok [])
      ((pythonBases i.specifier importer s.root).map
        fun base => pythonCandidates i.names base.1 base.2) row) :
    ∃ base, row = pythonCandidates i.names base.1 base.2 ∧
      IsBehind (fun other => ∀ c, IsModulePlace i.names other c → ∀ p, ¬ s.LeadsTo c p)
        (pythonBases i.specifier importer s.root) base := by
  obtain ⟨before, after, heq, hbefore⟩ := h
  obtain ⟨bases, rest, hbases, rfl, hrest⟩ := List.map_eq_append_iff.mp heq
  obtain ⟨base, more, rfl, rfl, rfl⟩ := List.map_eq_cons_iff.mp hrest
  refine ⟨base, rfl, bases, more, hbases, fun other hother c hc => ?_⟩
  obtain ⟨candidates, hcandidates, hc⟩ := mem_pythonCandidates_iff.mpr hc
  exact not_leadsTo_of_hits (hbefore _ (List.mem_map_of_mem hother)) candidates hcandidates c hc

/-- An import that is found nowhere is answered without a file. -/
theorem isAnswered_external {rows : List (List Candidates)}
    (hsearch : i.search language importer s.root = .ok rows)
    (h : ∀ row ∈ rows, s.hits row = .ok []) : s.IsAnswered language importer i [external i] where
  ne_nil := nofun
  written := by
    intro a ha
    rw [List.mem_singleton.mp ha]
    exact ⟨rfl, rfl⟩
  leads := by
    intro a ha t ht
    rw [List.mem_singleton.mp ha] at ht
    cases ht
  alone := fun _ _ _ => rfl
  external_iff := by
    refine iff_of_true rfl fun c hc => ?_
    obtain ⟨row, hrow, candidates, hcandidates, hc⟩ := (mem_search_iff hsearch).mpr hc
    exact not_leadsTo_of_hits (h row hrow) candidates hcandidates c hc
  distinct := fun _ => List.nodup_singleton _
  folder := fun _ hne => absurd rfl hne

/-- An import that is found in a row is answered by the source files that the row leads to. -/
theorem isAnswered_internal {rows : List (List Candidates)} {row : List Candidates}
    {paths : List Path} (hsearch : i.search language importer s.root = .ok rows)
    (hbehind : IsBehind (fun other => s.hits other = .ok []) rows row)
    (h : s.hits row = .ok paths) (hne : paths ≠ []) :
    s.IsAnswered language importer i
      (paths.map fun p => ⟨i.specifier, i.line, some p.text⟩) := by
  obtain ⟨hnodup, hfound⟩ := hits_ok h
  have hcandidate : ∀ candidates ∈ row, ∀ c ∈ candidates,
      IsCandidate i importer s.root language c := fun candidates hcandidates c hc =>
    (mem_search_iff hsearch).mp ⟨row, hbehind.mem, candidates, hcandidates, hc⟩
  -- The answer of an external import has no target.
  have hnot : (paths.map fun p => (⟨i.specifier, i.line, some p.text⟩ : ResolvedImport)) ≠
      [external i] := by
    intro heq
    obtain ⟨p, _, hp⟩ := List.mem_map.mp (heq ▸ List.mem_singleton_self (external i))
    cases congrArg ResolvedImport.target hp
  exact {
    ne_nil := fun hnil => hne (List.map_eq_nil_iff.mp hnil)
    written := by
      intro a ha
      obtain ⟨p, _, rfl⟩ := List.mem_map.mp ha
      exact ⟨rfl, rfl⟩
    leads := by
      intro a ha t ht
      obtain ⟨p, hp, rfl⟩ := List.mem_map.mp ha
      obtain ⟨candidates, hcandidates, c, hc, hleads⟩ := hfound p hp
      exact ⟨c, p, hcandidate candidates hcandidates c hc, hleads, (Option.some.inj ht).symm⟩
    alone := by
      intro a ha hnone
      obtain ⟨p, _, rfl⟩ := List.mem_map.mp ha
      cases hnone
    external_iff := by
      refine iff_of_false hnot fun hnowhere => ?_
      obtain ⟨p, hp⟩ := List.exists_mem_of_ne_nil paths hne
      obtain ⟨candidates, hcandidates, c, hc, hleads⟩ := hfound p hp
      exact hnowhere c (hcandidate candidates hcandidates c hc) p hleads
    distinct := by
      intro hspelled
      have hmem : ∀ p ∈ paths, p ∈ s.known := by
        intro p hp
        obtain ⟨_, _, _, _, hleads⟩ := hfound p hp
        exact hleads.mem
      rw [List.map_map]
      refine hnodup.map_on fun p hp q hq heq => ?_
      exact (hspelled p (hmem p hp)).text_inj (hspelled q (hmem q hq)) (Option.some.inj heq)
    folder := by
      intro hpython _
      subst hpython
      rw [WrittenImport.search, Except.ok.injEq] at hsearch
      obtain ⟨base, rfl, hbase⟩ := exists_base_of_isBehind (hsearch ▸ hbehind)
      refine ⟨base, hbase, fun a ha => ?_⟩
      obtain ⟨p, hp, rfl⟩ := List.mem_map.mp ha
      obtain ⟨candidates, hcandidates, c, hc, hleads⟩ := hfound p hp
      exact ⟨c, p, mem_pythonCandidates_iff.mp ⟨candidates, hcandidates, hc⟩, hleads, rfl⟩ }

/-- Every answer to an import is one that is due to it. -/
theorem isAnswered_of_resolveOne {answers : List ResolvedImport}
    (h : s.resolveOne language importer i = .ok answers) :
    s.IsAnswered language importer i answers := by
  unfold resolveOne at h
  obtain ⟨rows, hrows, h⟩ := bind_ok_iff.mp h
  obtain ⟨paths, hpaths, h⟩ := bind_ok_iff.mp h
  rcases firstHits_ok hpaths with ⟨rfl, hall⟩ | ⟨hne, row, hbehind, hrow⟩
  · obtain rfl := pure_ok_iff.mp h
    exact isAnswered_external hrows hall
  · cases paths with
    | nil => exact absurd rfl hne
    | cons p paths =>
      obtain rfl := pure_ok_iff.mp h
      exact isAnswered_internal hrows hbehind hrow hne

/-- The imports of a file are answered one by one. A row of answers is never empty, so no import
    goes unanswered. -/
theorem exists_answers_of_resolve {grammars : Grammars} {imports : List WrittenImport}
    {answers : List ResolvedImport} (hlanguage : grammars.language? importer.suffix = some language)
    (h : s.resolve grammars importer imports = .ok answers) :
    ∃ rows, answers = rows.flatten ∧ List.Forall₂ (s.IsAnswered language importer) imports rows := by
  unfold resolve at h
  rw [hlanguage] at h
  obtain ⟨rows, hrows, h⟩ := bind_ok_iff.mp h
  obtain rfl := pure_ok_iff.mp h
  exact ⟨rows, rfl, (forall₂_of_mapM_ok hrows).imp fun _ _ => isAnswered_of_resolveOne⟩

/-- Whatever is given for the imports of a file is a source file. So a graph has no edges to files
    that it does not know. -/
theorem exists_known_of_resolve {grammars : Grammars} {imports : List WrittenImport}
    {answers : List ResolvedImport} (h : s.resolve grammars importer imports = .ok answers)
    {a : ResolvedImport} (ha : a ∈ answers) {t : String} (ht : a.target = some t) :
    ∃ p ∈ s.known, t = p.text := by
  cases hlanguage : grammars.language? importer.suffix with
  | none =>
    rw [resolve, hlanguage, Except.ok.injEq] at h
    rw [← h] at ha
    cases ha
  | some language =>
    rw [resolve, hlanguage] at h
    obtain ⟨rows, hrows, h⟩ := bind_ok_iff.mp h
    obtain rfl := pure_ok_iff.mp h
    obtain ⟨row, hrow, ha⟩ := List.mem_flatten.mp ha
    obtain ⟨i, _, hi⟩ := (mem_of_mapM_ok hrows row).mp hrow
    obtain ⟨c, p, _, hleads, rfl⟩ := (isAnswered_of_resolveOne hi).leads a ha t ht
    exact ⟨p, hleads.mem, rfl⟩

end Sources

/-! ### The graph of a project -/

namespace Project

variable {grammars : Grammars} {suffixes exclude : List String} {project : Project}
  {modules : List SourceModule}

/-- A module has the path of its file, and answers to the imports that were read from it. -/
theorem sourceModule_ok {sources : Sources} {path : Path} {m : SourceModule}
    (h : sourceModule grammars sources path = .ok m) :
    m.source = path.text ∧
      ∃ imports, sources.resolve grammars path imports = .ok m.imports := by
  unfold sourceModule at h
  obtain ⟨imports, _, h⟩ := bind_ok_iff.mp h
  obtain ⟨answers, hanswers, h⟩ := bind_ok_iff.mp h
  obtain rfl := pure_ok_iff.mp h
  exact ⟨rfl, imports, hanswers⟩

/-- An import of a project that leads to a file leads to one of its modules. The known source files
    are those that the modules are made of. -/
theorem target_mem_modules (h : project.modules grammars suffixes exclude = .ok modules)
    {m : SourceModule} (hm : m ∈ modules) {i : ResolvedImport} (hi : i ∈ m.imports) {t : String}
    (ht : i.target = some t) : t ∈ modules.map SourceModule.source := by
  unfold Project.modules at h
  obtain ⟨root, _, h⟩ := bind_ok_iff.mp h
  split at h
  · cases h
  · obtain ⟨files, hfiles, h⟩ := bind_ok_iff.mp h
    rw [mapError_ok_iff] at h
    obtain ⟨file, hfile, hmodule⟩ := (mem_of_mapM_ok h m).mp hm
    obtain ⟨_, imports, hresolve⟩ := sourceModule_ok hmodule
    obtain ⟨p, hp, rfl⟩ := Sources.exists_known_of_resolve hresolve hi ht
    -- Every source file has become a module.
    obtain ⟨target, htarget⟩ := exists_mapM_ok_iff.mp ⟨modules, h⟩ p hp
    rw [← (sourceModule_ok htarget).1]
    exact List.mem_map_of_mem ((mem_of_mapM_ok h target).mpr ⟨p, hp, htarget⟩)

/-- So the imports that its graph leaves out are those that lead to no file. For every other import
    is an edge of the graph. -/
theorem excludedImports_ofModules (h : project.modules grammars suffixes exclude = .ok modules)
    (entryPoints : List String) (maxDepth : Option Int) (builtAt : Binary64) :
    (ImportGraph.ofModules modules entryPoints maxDepth builtAt).excludedImports =
      (modules.flatMap SourceModule.imports).countP fun i => i.target.isNone := by
  refine congrArg Nat.cast (List.countP_congr fun i hi => ?_)
  obtain ⟨m, hm, hi⟩ := List.mem_flatMap.mp hi
  rw [Bool.not_eq_true', ← Bool.not_eq_true, ImportGraph.isKnown_iff]
  cases htarget : i.target with
  | none => simp
  | some t =>
    have hmem := target_mem_modules h hm hi htarget
    simp only [Option.mem_def, Option.some.injEq, exists_eq_left', Option.isNone_some,
      Bool.false_eq_true, iff_false, not_not]
    exact hmem

end Project

/-- Let the imports of a file, written in a language that can be read, be looked for without a
    refusal.  Then they are answered in order, and each as `Sources.IsAnswered` says.  If the modules of
    a project are found in this way, then the imports that their graph leaves out are those that are
    answered without a file. -/
theorem Sources.resolve_answers {s : Sources} {grammars : Grammars} {language : Language}
    {importer : Path} {imports : List WrittenImport} {answers : List ResolvedImport}
    (hlanguage : grammars.language? importer.suffix = some language)
    (h : s.resolve grammars importer imports = .ok answers) :
    (∃ rows, answers = rows.flatten ∧
      List.Forall₂ (s.IsAnswered language importer) imports rows) ∧
    ∀ (project : Project) (suffixes exclude : List String) (modules : List SourceModule),
      project.modules grammars suffixes exclude = .ok modules →
        ∀ (entryPoints : List String) (maxDepth : Option Int) (builtAt : Binary64),
          (ImportGraph.ofModules modules entryPoints maxDepth builtAt).excludedImports =
            (modules.flatMap SourceModule.imports).countP fun i => i.target.isNone :=
  ⟨exists_answers_of_resolve hlanguage h, fun _ _ _ _ hmodules =>
    Project.excludedImports_ofModules hmodules⟩

/-! ### One module -/

/-- A place below a folder that the root does not have leads to no source file. That is how the
    places of an example are shown to be vacant, without searching the tree for each. -/
theorem Sources.lookup_of_absent {s : Sources} {entries : List (String × Node)}
    (hroot : s.tree.root = .folder entries) {name : String} {names : List String}
    (hclean : (Files.Path.mk 1 (name :: names)).IsClean) (hdown : Path.IsDown name)
    (habsent : Node.childNamed? name entries = none)
    (hshort : (Files.Path.mk 1 (name :: names)).text.utf8ByteSize < FileTree.maxPathSize)
    (hunknown : s.known.contains ⟨1, name :: names⟩ = false) :
    s.lookup ⟨1, name :: names⟩ = .ok none := by
  have hfolder : s.tree.root.find? ([] : List String).reverse = some (.folder entries) :=
    congrArg some hroot
  have hstat : s.tree.stat (Files.Path.mk 1 (name :: names)).text = .error .missing := by
    rw [FileTree.stat, FileTree.locate_text _ hclean, if_neg (Nat.not_le.mpr hshort)]
    show (FileTree.walk s.tree.root true FileTree.maxLinks [] (name :: names) >>= _) = _
    rw [FileTree.walk_down hfolder hdown, habsent]
    cases names <;> rfl
  rw [lookup, hunknown, if_neg Bool.false_ne_true, FileTree.present, FileTree.leadsTo, hstat]
  rfl

/-- A project of one module, which imports itself and another one. -/
def loneProject : Project :=
  ⟨⟨.folder [("a.py", .file "import a, os".toUTF8.toList 0)], []⟩, ⟨1, []⟩⟩

/-- Its source files. -/
def loneSources : Sources := ⟨loneProject.tree, ⟨1, []⟩, [⟨1, ["a.py"]⟩]⟩

/-- The places of the two modules, apart from the one where there is a file. -/
def vacantPlaces : List (String × List String) :=
  [("src", ["a.py"]), ("src", ["a", "__init__.py"]), ("lib", ["a.py"]), ("lib", ["a", "__init__.py"]),
    ("app", ["a.py"]), ("app", ["a", "__init__.py"]), ("src", ["os.py"]),
    ("src", ["os", "__init__.py"]), ("lib", ["os.py"]), ("lib", ["os", "__init__.py"]),
    ("app", ["os.py"]), ("app", ["os", "__init__.py"]), ("os.py", []), ("os", ["__init__.py"])]

/-- Nothing is found in them. These are all the places where the imports of the example might have
    been found. -/
theorem lookup_vacantPlaces :
    ∀ place ∈ vacantPlaces, loneSources.lookup ⟨1, place.1 :: place.2⟩ = .ok none := by
  have hall : ∀ place ∈ vacantPlaces, (∀ name ∈ place.1 :: place.2, Path.IsName name) ∧
      (place.1 ≠ ".." ∧ place.1.utf8ByteSize ≤ 255) ∧
      (Files.Path.mk 1 (place.1 :: place.2)).text.utf8ByteSize < FileTree.maxPathSize ∧
      place.1 ≠ "a.py" ∧ loneSources.known.contains ⟨1, place.1 :: place.2⟩ = false := by
    decide
  intro place hplace
  obtain ⟨hnames, ⟨hup, hsize⟩, hshort, hother, hunknown⟩ := hall place hplace
  have hidle := (hnames _ List.mem_cons_self).1
  exact Sources.lookup_of_absent rfl ⟨nofun, hnames⟩ ⟨hidle, hup, hsize⟩ (if_neg hother.symm) hshort
    hunknown

/-- The module is found in the project itself, after three folders where it is not; the other one is
    found nowhere. -/
theorem resolve_loneSources :
    loneSources.resolve .all ⟨1, ["a.py"]⟩ [⟨"a", 1, []⟩, ⟨"os", 1, []⟩] =
      .ok [⟨"a", 1, some "/a.py"⟩, ⟨"os", 1, none⟩] := by
  have hlanguage : Grammars.all.language? (Path.suffix ⟨1, ["a.py"]⟩) = some .python := by cbv
  have ha : (WrittenImport.mk "a" 1 []).search .python ⟨1, ["a.py"]⟩ loneSources.root =
      .ok [[[⟨1, ["src", "a.py"]⟩, ⟨1, ["src", "a", "__init__.py"]⟩]],
        [[⟨1, ["lib", "a.py"]⟩, ⟨1, ["lib", "a", "__init__.py"]⟩]],
        [[⟨1, ["app", "a.py"]⟩, ⟨1, ["app", "a", "__init__.py"]⟩]],
        [[⟨1, ["a.py"]⟩, ⟨1, ["a", "__init__.py"]⟩]]] := by cbv
  have hos : (WrittenImport.mk "os" 1 []).search .python ⟨1, ["a.py"]⟩ loneSources.root =
      .ok [[[⟨1, ["src", "os.py"]⟩, ⟨1, ["src", "os", "__init__.py"]⟩]],
        [[⟨1, ["lib", "os.py"]⟩, ⟨1, ["lib", "os", "__init__.py"]⟩]],
        [[⟨1, ["app", "os.py"]⟩, ⟨1, ["app", "os", "__init__.py"]⟩]],
        [[⟨1, ["os.py"]⟩, ⟨1, ["os", "__init__.py"]⟩]]] := by cbv
  have hthere : loneSources.lookup ⟨1, ["a.py"]⟩ = .ok (some ⟨1, ["a.py"]⟩) := rfl
  have htext : Path.text ⟨1, ["a.py"]⟩ = "/a.py" := by decide
  have hvacant := lookup_vacantPlaces
  simp only [vacantPlaces, List.forall_mem_cons] at hvacant
  simp [Sources.resolve, hlanguage, Sources.resolveOne, ha, hos, Sources.firstHits, Sources.hits,
    Sources.firstOf, hthere, hvacant, htext, bind, Except.bind, pure, Except.pure]

/-- The module has a name. -/
theorem isName_a : Import.Python.isName "a" = true := by decide

/-- So has the other one. -/
theorem isName_os : Import.Python.isName "os" = true := by decide

/-- The one statement of the module. -/
def loneStatement : Import.Python.ImportStatement :=
  .modules ⟨⟨⟨"a", isName_a⟩, []⟩, none⟩ [⟨⟨⟨"os", isName_os⟩, []⟩, none⟩]

theorem imports_loneProject :
    loneProject.tree.imports .all ⟨1, ["a.py"]⟩ = .ok [⟨"a", 1, []⟩, ⟨"os", 1, []⟩] := by
  have hlanguage : Grammars.all.language? (Path.suffix ⟨1, ["a.py"]⟩) = some .python := by cbv
  have hread : loneProject.tree.read (Path.text ⟨1, ["a.py"]⟩) =
      .ok "import a, os".toUTF8.toList := by cbv
  have hfull : "import a, os".toUTF8.toList.all isBlankByte = false := by cbv
  have hsource : "import a, os".toUTF8.toList =
      Utf8.encode (Import.Python.sourceText [loneStatement] false) := by cbv
  have himports : Grammars.all.imports .python "import a, os".toUTF8.toList =
      .ok [⟨"a", 1, []⟩, ⟨"os", 1, []⟩] := by
    rw [hsource]
    exact Import.Python.imports_ofSourceText [loneStatement] false
  unfold FileTree.imports
  rw [hlanguage]
  simp only [hread, hfull, Bool.false_eq_true, if_false, himports, mapError_ok]

/-- The project of the example has one module. -/
theorem modules_loneProject : loneProject.modules .all [".py"] [] =
    .ok [⟨"/a.py", [⟨"a", 1, some "/a.py"⟩, ⟨"os", 1, none⟩]⟩] := by
  have hroot : loneProject.realRoot = .ok ⟨1, []⟩ := by cbv
  have hfiles : Project.sourceFiles ⟨loneProject.tree, ⟨1, []⟩⟩ [] [".py"] = .ok [⟨1, ["a.py"]⟩] := by
    cbv
  have hmodule : Project.sourceModule .all loneSources ⟨1, ["a.py"]⟩ =
      .ok ⟨"/a.py", [⟨"a", 1, some "/a.py"⟩, ⟨"os", 1, none⟩]⟩ := by
    show (loneProject.tree.imports .all ⟨1, ["a.py"]⟩ >>= _) = _
    rw [imports_loneProject]
    show (loneSources.resolve .all ⟨1, ["a.py"]⟩ _ >>= _) = _
    rw [resolve_loneSources]
    rfl
  rw [Project.modules, hroot]
  show ((Project.sourceFiles ⟨loneProject.tree, ⟨1, []⟩⟩ [] [".py"]).mapError _ >>= _) = _
  rw [hfiles]
  show (([⟨1, ["a.py"]⟩] : List Path).mapM (Project.sourceModule .all loneSources)).mapError _ = _
  rw [List.mapM_cons, hmodule]
  rfl

/-- Its two imports are answered, and its graph leaves one of them out. -/
theorem resolve_answers_loneProject :
    Grammars.all.language? (Path.suffix ⟨1, ["a.py"]⟩) = some .python ∧
      (∃ rows, [⟨"a", 1, some "/a.py"⟩, ⟨"os", 1, none⟩] = rows.flatten ∧
        List.Forall₂ (loneSources.IsAnswered .python ⟨1, ["a.py"]⟩)
          [⟨"a", 1, []⟩, ⟨"os", 1, []⟩] rows) ∧
      (ImportGraph.ofModules [⟨"/a.py", [⟨"a", 1, some "/a.py"⟩, ⟨"os", 1, none⟩]⟩] [] none
        (.zero false)).excludedImports = 1 := by
  have hlanguage : Grammars.all.language? (Path.suffix ⟨1, ["a.py"]⟩) = some .python := by cbv
  obtain ⟨hrows, hgraph⟩ := Sources.resolve_answers hlanguage resolve_loneSources
  exact ⟨hlanguage, hrows, hgraph loneProject [".py"] [] _ modules_loneProject [] none (.zero false)⟩

/-- The imports of a file in no language that can be read have no answers at all, not even ones
    without a file. -/
theorem resolve_without_language :
    loneSources.resolve .all ⟨1, ["a.txt"]⟩ [⟨"a", 1, []⟩] = .ok [] ∧
      ∀ language, ¬∃ rows, ([] : List ResolvedImport) = rows.flatten ∧
        List.Forall₂ (loneSources.IsAnswered language ⟨1, ["a.txt"]⟩) [⟨"a", 1, []⟩] rows := by
  have hlanguage : Grammars.all.language? (Path.suffix ⟨1, ["a.txt"]⟩) = none := by cbv
  refine ⟨by rw [Sources.resolve, hlanguage], fun language => ?_⟩
  rintro ⟨rows, hnil, hanswered⟩
  cases hanswered with
  | cons hrow _ => exact hrow.ne_nil (List.append_eq_nil_iff.mp hnil.symm).1

end Backlog
