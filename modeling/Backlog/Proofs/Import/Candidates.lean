import Backlog.Import.Resolution
import Backlog.Proofs.Files.Existence
import Backlog.Proofs.Outcome

namespace Backlog

open Backlog.Files

/-!
# Looking for the file of an import

What an import stands for is looked for in places that start from the root, whatever the import
spells.  Such a search can be refused in one way only.

* `isRooted_of_search` — the places where an import is looked for;
* `WrittenImport.search_error_iff` — an import has no such places exactly if it climbs to the root;
* `Sources.lookup_error_iff` — a place is refused exactly if a name in it is too long;
* `Sources.firstHits_error_iff` — a search is refused exactly if it comes to such a place.
-/

/-! ### Names made from others -/

/-- What makes a name of any text without a slash that it is put behind. -/
def IsEnding (ending : String) : Prop := '/' ∉ ending.toList ∧ 2 ≤ ending.length

instance (ending : String) : Decidable (IsEnding ending) := inferInstanceAs (Decidable (_ ∧ _))

/-- A name without slashes is still one component when an ending is put behind it. -/
theorem isSegment_append {text ending : String} (htext : '/' ∉ text.toList)
    (hending : IsEnding ending) : Path.IsSegment (text ++ ending) := by
  obtain ⟨hslash, hlength⟩ := hending
  refine ⟨?_, by simp [htext, hslash]⟩
  have hsize : 2 ≤ (text ++ ending).length := by
    rw [String.length_append]
    omega
  have hempty : text ++ ending ≠ "" := fun heq => absurd hsize (by rw [heq]; decide)
  have hdot : text ++ ending ≠ "." := fun heq => absurd hsize (by rw [heq]; decide)
  simp [Path.isIdle, hempty, hdot]

theorem slash_not_mem_name {p : Path} (h : p.IsSpelled) : '/' ∉ p.name.toList := by
  by_cases hne : p.names = []
  · simp [Path.name, hne]
  · exact (h p.name (Path.name_mem hne)).2

theorem slash_not_mem_stemOf {name : String} (h : '/' ∉ name.toList) :
    '/' ∉ (Path.stemOf name).toList := by
  rw [Path.stemOf, String.toList_ofList]
  exact fun hmem => h (List.mem_of_mem_take hmem)

/-! ### The places of an import -/

/-- Climbing from a rooted path ends at a rooted path, at worst at the root. -/
theorem isRooted_above {p : Path} (h : p.IsRooted) (n : Nat) : (above p n).IsRooted := by
  induction n generalizing p with
  | zero => exact h
  | succ n ih => exact ih h.parent

/-- The two files of a module are below the base from which its name starts. -/
theorem isRooted_moduleFiles {base : Path} (h : base.IsRooted) (dotted : String) :
    ∀ c ∈ moduleFiles base dotted, c.IsRooted := by
  have hpackage : Path.IsSegment "__init__.py" := by decide
  have hjoin : ∀ (names : List String) (p : Path), p.IsRooted →
      (names.foldl (fun p name => p.join (.ofText name)) p).IsRooted := by
    intro names
    induction names with
    | nil => exact fun _ hp => hp
    | cons name names ih => exact fun p hp => ih _ (hp.join (Path.isSpelled_ofText name))
  unfold moduleFiles
  split
  · intro c hc
    rw [List.mem_singleton.mp hc]
    exact h.child hpackage
  · have htarget := hjoin (splitDots dotted.toList) base h
    have hending : IsEnding ".py" := by decide
    have hfile := isSegment_append (slash_not_mem_name htarget.isSpelled) hending
    intro c hc
    rcases List.mem_cons.mp hc with rfl | hc
    · exact htarget.parent.child hfile
    · rw [List.mem_singleton.mp hc]
      exact htarget.child hpackage

/-- The bases of an import are above the importing file, or the root and folders in it. -/
theorem isRooted_pythonBases {importer root : Path} (himporter : importer.IsRooted)
    (hroot : root.IsRooted) (specifier : String) :
    ∀ base ∈ pythonBases specifier importer root, base.1.IsRooted := by
  intro base hbase
  unfold pythonBases at hbase
  split at hbase
  · obtain ⟨folder, _, rfl⟩ := List.mem_map.mp hbase
    exact hroot.join (Path.isSpelled_ofText folder)
  · rw [List.mem_singleton.mp hbase]
    exact isRooted_above himporter.parent _

/-- The target of an import of a script is beside the importing file or in the project. -/
theorem isRooted_scriptTarget {importer root target : Path} (himporter : importer.IsRooted)
    (hroot : root.IsRooted) {specifier : String}
    (h : scriptTarget? specifier importer root = some target) : target.IsRooted := by
  unfold scriptTarget? at h
  split at h
  · rw [← Option.some.inj h]
    exact (himporter.parent.join (Path.isSpelled_ofText specifier)).collapsed
  · obtain ⟨text, _, rfl⟩ := Option.map_eq_some_iff.mp h
    exact (hroot.join (Path.isSpelled_ofText text)).collapsed

/-- What is put in place of the suffix of a target is an ending, without slashes. -/
theorem isEnding_of_mem_sourceSuffixes {suffix ending : String}
    (h : ending ∈ sourceSuffixes suffix) : IsEnding ending := by
  have hall : ∀ ending ∈ [".ts", ".tsx", ".mts", ".cts"], IsEnding ending := by decide
  refine hall ending ?_
  unfold sourceSuffixes at h
  split at h <;> simp_all
  · rcases h with rfl | rfl <;> simp

/-- What is looked for is the target with an ending, or a file in it. -/
theorem isRooted_scriptCandidates {target : Path} (h : target.IsRooted) {candidates : Candidates}
    (hcandidates : scriptCandidates target = .ok candidates) : ∀ c ∈ candidates, c.IsRooted := by
  have hsuffixes : ∀ suffix ∈ scriptSuffixes, IsEnding suffix := by decide
  have hname := slash_not_mem_name h.isSpelled
  unfold scriptCandidates at hcandidates
  split at hcandidates
  · cases hcandidates
  · rw [Except.ok.injEq] at hcandidates
    subst hcandidates
    intro c hc
    simp only [List.cons_append, List.append_assoc, List.mem_cons, List.mem_append,
      List.mem_map] at hc
    rcases hc with rfl | ⟨ending, hending, rfl⟩ | ⟨suffix, hsuffix, rfl⟩ | ⟨suffix, hsuffix, rfl⟩
    · exact h
    · have hfile := isSegment_append (slash_not_mem_stemOf hname)
        (isEnding_of_mem_sourceSuffixes hending)
      exact h.parent.child hfile
    · exact h.parent.child (isSegment_append hname (hsuffixes suffix hsuffix))
    · exact h.child (isSegment_append (by decide) (hsuffixes suffix hsuffix))

/-- An import of a script is looked for nowhere, or in the one row of places of its target. This is
    the inversion of the search for scripts, by which nothing else unfolds it. -/
theorem WrittenImport.search_script_ok {i : WrittenImport} {markup : Bool} {importer root : Path}
    {rows : List (List Candidates)} (h : i.search (.ecmascript markup) importer root = .ok rows) :
    (scriptTarget? i.specifier importer root = none ∧ rows = []) ∨
      ∃ target candidates, scriptTarget? i.specifier importer root = some target ∧
        scriptCandidates target = .ok candidates ∧ rows = [[candidates]] := by
  rw [search] at h
  cases htarget : scriptTarget? i.specifier importer root with
  | none =>
    simp only [htarget, Except.ok.injEq] at h
    exact .inl ⟨rfl, h.symm⟩
  | some target =>
    simp only [htarget, map_ok_iff] at h
    obtain ⟨candidates, hcandidates, rfl⟩ := h
    exact .inr ⟨target, candidates, rfl, hcandidates, rfl⟩

/-- An import is looked for in places that start from the root. So a look at any of them depends on
    nothing but the tree. -/
theorem isRooted_of_search {i : WrittenImport} {language : Language} {importer root : Path}
    (himporter : importer.IsRooted) (hroot : root.IsRooted) {rows : List (List Candidates)}
    (h : i.search language importer root = .ok rows) :
    ∀ row ∈ rows, ∀ candidates ∈ row, ∀ c ∈ candidates, c.IsRooted := by
  cases language with
  | python =>
    rw [WrittenImport.search, Except.ok.injEq] at h
    subst h
    intro row hrow candidates hcandidates
    obtain ⟨base, hbase, rfl⟩ := List.mem_map.mp hrow
    have hrooted := isRooted_pythonBases himporter hroot i.specifier base hbase
    rcases List.mem_cons.mp hcandidates with rfl | hcandidates
    · exact isRooted_moduleFiles hrooted base.2
    · obtain ⟨name, _, rfl⟩ := List.mem_map.mp hcandidates
      exact isRooted_moduleFiles hrooted _
  | ecmascript markup =>
    obtain ⟨_, rfl⟩ | ⟨target, candidates, htarget, hcandidates, rfl⟩ := WrittenImport.search_script_ok h
    · exact nofun
    · intro row hrow found hfound
      rw [List.mem_singleton.mp hrow, List.mem_singleton] at hfound
      rw [hfound]
      exact isRooted_scriptCandidates (isRooted_scriptTarget himporter hroot htarget) hcandidates

/-- An import has no places to be looked for exactly if it is that of a script that climbs to the
    root, where there is no name. It is the suffix of the target that is asked for, and only a path
    with a name has one. -/
theorem WrittenImport.search_error_iff {i : WrittenImport} {language : Language}
    {importer root : Path} {cause : Trouble} :
    i.search language importer root = .error cause ↔
      ∃ markup target, language = .ecmascript markup ∧
        scriptTarget? i.specifier importer root = some target ∧ target.names = [] ∧
          cause = .nameless target.text := by
  cases language with
  | python => simp [search]
  | ecmascript markup =>
    rw [search]
    cases htarget : scriptTarget? i.specifier importer root with
    | none => simp
    | some target =>
      by_cases hnil : target.names = []
      · simp [scriptCandidates, hnil, Except.map, eq_comm]
      · simp [scriptCandidates, hnil, Except.map]

/-! ### The search -/

namespace Sources

variable {s : Sources} {cause : Trouble}

/-- A place is refused exactly if the look at it is: what is there has a real path. A look at a
    known source file is never refused, as it asks nothing of the tree. -/
theorem lookup_error_iff {c : Path} (h : c.IsRooted) :
    s.lookup c = .error cause ↔
      c ∉ s.known ∧ ∃ fault, s.tree.stat c.text = .error fault ∧
        FileTree.meansAbsent fault = false ∧ cause = .file fault c.text := by
  by_cases hknown : c ∈ s.known
  · simp [lookup, hknown]
  · unfold lookup
    have hcontains : s.known.contains c = false := by simpa using hknown
    rw [hcontains, if_neg Bool.false_ne_true, bind_error_iff, mapError_error_iff]
    constructor
    · rintro (⟨fault, hfault, rfl⟩ | ⟨isThere, hthere, h'⟩)
      · obtain ⟨hstat, hsays⟩ := FileTree.leadsTo_error_iff.mp hfault
        exact ⟨hknown, fault, hstat, hsays, rfl⟩
      · cases isThere with
        | false => cases h'
        | true =>
          obtain ⟨node, hstat, _⟩ := FileTree.leadsTo_ok_true_iff.mp (mapError_ok_iff.mp hthere)
          obtain ⟨real, hreal⟩ := FileTree.exists_resolve_of_stat h.isSpelled h.isAbsolute hstat
          simp only [if_true, hreal, mapError_ok] at h'
          cases h'
    · rintro ⟨_, fault, hstat, hsays, rfl⟩
      exact .inl ⟨fault, FileTree.leadsTo_error_iff.mpr ⟨hstat, hsays⟩, rfl⟩

/-- The first place that leads to a source file is missing exactly if none of the places does. -/
theorem firstOf_none_iff {candidates : Candidates} :
    s.firstOf candidates = .ok none ↔ ∀ c ∈ candidates, s.lookup c = .ok none := by
  induction candidates with
  | nil => simp [firstOf]
  | cons c rest ih =>
    rw [firstOf, List.forall_mem_cons, ← ih]
    cases s.lookup c with
    | error cause => simp [bind, Except.bind]
    | ok found => cases found <;> simp [bind, Except.bind, pure, Except.pure]

/-- The search in a list of places is refused by the first one that is refused, if no place before
    it leads to a source file. -/
theorem firstOf_error_iff {candidates : Candidates} :
    s.firstOf candidates = .error cause ↔
      ∃ c, IsBehind (fun d => s.lookup d = .ok none) candidates c ∧ s.lookup c = .error cause := by
  induction candidates with
  | nil => simp [firstOf, not_isBehind_nil]
  | cons c rest ih =>
    simp only [isBehind_cons, or_and_right, exists_or, exists_eq_left, and_assoc,
      exists_and_left, ← ih]
    rw [firstOf]
    cases s.lookup c with
    | error cause => simp [bind, Except.bind]
    | ok found => cases found <;> simp [bind, Except.bind, pure, Except.pure]

/-- A row is refused by the first of its lists that is, and all before it were searched. -/
theorem hits_error_iff {row : List Candidates} :
    s.hits row = .error cause ↔
      ∃ candidates, IsBehind (fun other => ∃ found, s.firstOf other = .ok found) row candidates ∧
        s.firstOf candidates = .error cause := by
  have hpure : ∀ found : List Path, (pure found : Except Trouble (List Path)) ≠ .error cause := nofun
  simp only [hits, bind_error_iff, hpure, and_false, exists_false, or_false, mapM_error_iff]

/-- Adding what is new makes no list empty. -/
theorem foldl_new_ne_nil {found paths : List Path} (h : paths ≠ []) :
    found.foldl (fun paths p => if paths.contains p then paths else paths ++ [p]) paths ≠ [] := by
  induction found generalizing paths with
  | nil => exact h
  | cons p found ih =>
    rw [List.foldl_cons]
    refine ih ?_
    split
    · exact h
    · simp

/-- A row leads to no source file exactly if none of its places does. This is when the search goes
    on with the next row. -/
theorem hits_nil_iff {row : List Candidates} :
    s.hits row = .ok [] ↔ ∀ candidates ∈ row, ∀ c ∈ candidates, s.lookup c = .ok none := by
  simp only [hits, bind_ok_iff, pure_ok_iff, ← firstOf_none_iff]
  constructor
  · rintro ⟨found, hfound, hnil⟩ candidates hcandidates
    obtain ⟨path, hpath⟩ := exists_mapM_ok_iff.mp ⟨found, hfound⟩ candidates hcandidates
    cases path with
    | none => exact hpath
    | some p =>
      -- What one list leads to would be among what the row leads to.
      have hmem : p ∈ found.filterMap id :=
        List.mem_filterMap.mpr ⟨some p, (mem_of_mapM_ok hfound _).mpr ⟨_, hcandidates, hpath⟩, rfl⟩
      cases hlist : found.filterMap id with
      | nil =>
        rw [hlist] at hmem
        cases hmem
      | cons first rest =>
        rw [hlist, List.foldl_cons] at hnil
        exact absurd hnil.symm (foldl_new_ne_nil (by simp))
  · intro h
    obtain ⟨found, hfound⟩ := exists_mapM_ok_iff.mpr fun candidates hcandidates =>
      ⟨none, h candidates hcandidates⟩
    refine ⟨found, hfound, ?_⟩
    have hnone : found.filterMap id = [] := by
      rw [List.filterMap_eq_nil_iff]
      intro path hpath
      obtain ⟨candidates, hcandidates, hfirst⟩ := (mem_of_mapM_ok hfound _).mp hpath
      rw [h candidates hcandidates] at hfirst
      exact (Except.ok.inj hfirst).symm
    rw [hnone]
    rfl

/-- A search comes to a place: the rows before lead to no source file, the lists before it in its row
    are searched through, and the places before it in its list lead to no source file. -/
def IsTried (s : Sources) (rows : List (List Candidates)) (c : Path) : Prop :=
  ∃ row candidates,
    IsBehind (fun other => ∀ candidates ∈ other, ∀ d ∈ candidates, s.lookup d = .ok none) rows row ∧
      IsBehind (fun other => ∃ found, s.firstOf other = .ok found) row candidates ∧
        IsBehind (fun d => s.lookup d = .ok none) candidates c

theorem IsTried.mem {rows : List (List Candidates)} {c : Path} (h : s.IsTried rows c) :
    ∃ row ∈ rows, ∃ candidates ∈ row, c ∈ candidates := by
  obtain ⟨row, candidates, hrow, hcandidates, hc⟩ := h
  exact ⟨row, hrow.mem, candidates, hcandidates.mem, hc.mem⟩

/-- A search is refused exactly if it comes to a place that is. Behind a row that has led to source
    files nothing is looked for any more. -/
theorem firstHits_error_iff {rows : List (List Candidates)} :
    s.firstHits rows = .error cause ↔ ∃ c, s.IsTried rows c ∧ s.lookup c = .error cause := by
  -- Rows are gone through as long as they lead nowhere.
  have hrow : s.firstHits rows = .error cause ↔
      ∃ row, IsBehind (fun other => s.hits other = .ok []) rows row ∧ s.hits row = .error cause := by
    induction rows with
    | nil => simp [firstHits, not_isBehind_nil]
    | cons row rest ih =>
      simp only [isBehind_cons, or_and_right, exists_or, exists_eq_left, and_assoc,
        exists_and_left, ← ih]
      rw [firstHits]
      cases s.hits row with
      | error cause => simp [bind, Except.bind]
      | ok paths => cases paths <;> simp [bind, Except.bind, pure, Except.pure]
  simp only [hrow, hits_error_iff, firstOf_error_iff, hits_nil_iff, IsTried]
  constructor
  · rintro ⟨row, hrow, candidates, hcandidates, c, hc, hcause⟩
    exact ⟨c, ⟨row, candidates, hrow, hcandidates, hc⟩, hcause⟩
  · rintro ⟨c, ⟨row, candidates, hrow, hcandidates, hc⟩, hcause⟩
    exact ⟨row, hrow, candidates, hcandidates, c, hc, hcause⟩

end Sources

end Backlog
