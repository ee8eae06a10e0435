import Backlog.Command.Run
import Backlog.Proofs.Cache.Keys
import Backlog.Proofs.Files.Relative
import Backlog.Proofs.Import.RealSources

namespace Backlog.Command

open Backlog.Files Backlog.Text

/-!
# What is listed for a graph

A list of files stands for some modules if every file resolves to one of them, every module is
listed, and none is listed twice. As texts the files are sorted, whereas the modules come in the
order of the graph, so the two are compared up to their order.

* `IsListing` — a list of files that stands for the modules which a scope leads to: as relative paths,
  each of them once, and just as ledger paths are matched;
* `isListing_of_perm` — so it is if the files, as a whole, resolve to those modules;
* `isListing_of_listedFiles` — which they do if the nodes of the graph are real paths.
-/

/-- A list of files, in strict order, that stands for the modules which a scope leads to. -/
structure IsListing (g : ImportGraph) (scope : DependencyScope) (project : Project)
    (reached files : List String) : Prop where
  reach : g.scopeReach scope project = .ok reached
  distinct : reached.Nodup
  sorted : files.Pairwise (· < ·)
  length_eq : files.length = reached.length
  /-- A file that is listed resolves to a module that is reached. -/
  leads : ∀ f ∈ files, ∃ path ∈ reached, project.resolve f = .ok path
  /-- A module that is reached is what just one file resolves to. -/
  shown : ∀ path ∈ reached, ∃! f, f ∈ files ∧ project.resolve f = .ok path
  /-- The files that are listed are matched by the same scope. -/
  matched : g.sortFiles scope project files = .ok ⟨files, []⟩
  /-- Others are matched exactly if they are spellings of files that are listed. -/
  matched_iff : ∀ texts sorted, g.sortFiles scope project texts = .ok sorted → ∀ f,
    f ∈ sorted.reached ↔ f ∈ texts ∧ ∃ other ∈ files, project.resolve f = project.resolve other

/-! ### Files that resolve to the modules -/

section

variable {g : ImportGraph} {scope : DependencyScope} {project : Project} {reached files : List String}

/-- Files are sorted by two tests, that of being among what is reached and that of not being so. -/
theorem sortFiles_ok_iff {texts : List String} {sorted : SortedFiles} :
    g.sortFiles scope project texts = .ok sorted ↔ ∃ paths, g.scopeReach scope project = .ok paths ∧
      filterFiles (project.isAmong paths) texts = .ok sorted.reached ∧
      filterFiles (fun f => (project.isAmong paths f).map not) texts = .ok sorted.unreached := by
  obtain ⟨matched, unmatched⟩ := sorted
  simp only [ImportGraph.sortFiles, bind_ok_iff, pure_ok_iff, SortedFiles.mk.injEq]
  constructor
  · rintro ⟨paths, hpaths, _, hmatched, _, hunmatched, rfl, rfl⟩
    exact ⟨paths, hpaths, hmatched, hunmatched⟩
  · rintro ⟨paths, hpaths, hmatched, hunmatched⟩
    exact ⟨paths, hpaths, _, hmatched, _, hunmatched, rfl, rfl⟩

/-- A file is among some paths if it resolves to one of them. A file that has no real path is among
    none. -/
theorem saysYes_isAmong_iff {paths : List String} {f : String} :
    saysYes (project.isAmong paths f) = true ↔ ∃ path ∈ paths, project.resolve f = .ok path := by
  unfold Project.isAmong
  cases project.resolve f with
  | error cause => simp [Except.map, saysYes]
  | ok path => simp [Except.map, saysYes]

/-- Files that resolve to modules which are reached are matched. None is left over, and they stay in
    order. -/
theorem sortFiles_of_leads (hreach : g.scopeReach scope project = .ok reached)
    (hleads : ∀ f ∈ files, ∃ path ∈ reached, project.resolve f = .ok path) :
    g.sortFiles scope project files = .ok ⟨files, []⟩ := by
  have hyes : ∀ f ∈ files, project.isAmong reached f = .ok true := by
    intro f hf
    obtain ⟨path, hpath, hresolve⟩ := hleads f hf
    rw [Project.isAmong, hresolve]
    exact congrArg Except.ok (List.contains_iff_mem.mpr hpath)
  refine sortFiles_ok_iff.mpr ⟨reached, hreach, filterFiles_ok_iff.mpr ⟨?_, ?_⟩,
    filterFiles_ok_iff.mpr ⟨?_, ?_⟩⟩
  · exact fun f hf => ⟨true, hyes f hf⟩
  · exact (List.filter_eq_self.mpr fun f hf => by rw [hyes f hf]; rfl).symm
  · exact fun f hf => ⟨false, by rw [hyes f hf]; rfl⟩
  · exact (List.filter_eq_nil_iff.mpr fun f hf => by rw [hyes f hf]; exact Bool.false_ne_true).symm

/-- Distinct files that resolve to the modules, each to one of them, stand for these. The list is
    sorted, so it is one list that stands for them. -/
theorem isListing_of_perm (hreach : g.scopeReach scope project = .ok reached)
    (hsorted : files.Pairwise (· ≤ ·))
    (hperm : (files.map project.resolve).Perm (reached.map .ok)) :
    IsListing g scope project reached files := by
  have hdistinct := (ImportGraph.nodup_of_scopeReach hreach).1
  have hresolved : (files.map project.resolve).Nodup :=
    hperm.nodup_iff.mpr (hdistinct.map fun _ _ => Except.ok.inj)
  have hleads : ∀ f ∈ files, ∃ path ∈ reached, project.resolve f = .ok path := by
    intro f hf
    obtain ⟨path, hpath, heq⟩ := List.mem_map.mp (hperm.subset (List.mem_map_of_mem hf))
    exact ⟨path, hpath, heq.symm⟩
  have hexists : ∀ path ∈ reached, ∃ f ∈ files, project.resolve f = .ok path := by
    intro path hpath
    exact List.mem_map.mp (hperm.symm.subset (List.mem_map_of_mem hpath))
  refine ⟨hreach, hdistinct, ?_, ?_, hleads, fun path hpath => ?_, ?_, fun texts sorted h f => ?_⟩
  · -- no file comes twice, since none is resolved twice
    refine hsorted.imp₂ (fun a b hle hne => ?_) hresolved.of_map
    exact String.not_le.mp fun hge => hne (String.le_antisymm hle hge)
  · simpa using hperm.length_eq
  · obtain ⟨f, hf, hfpath⟩ := hexists path hpath
    refine ⟨f, ⟨hf, hfpath⟩, ?_⟩
    rintro other ⟨hother, hotherpath⟩
    exact List.inj_on_of_nodup_map hresolved hother hf (hotherpath.trans hfpath.symm)
  · exact sortFiles_of_leads hreach hleads
  · obtain ⟨paths, hpaths, hmatched, _⟩ := sortFiles_ok_iff.mp h
    obtain rfl := Except.ok.inj (hreach.symm.trans hpaths)
    rw [(filterFiles_ok_iff.mp hmatched).2, List.mem_filter, saysYes_isAmong_iff]
    refine and_congr_right fun _ => ⟨?_, ?_⟩
    · rintro ⟨path, hpath, hf⟩
      obtain ⟨other, hother, hotherpath⟩ := hexists path hpath
      exact ⟨other, hother, hf.trans hotherpath.symm⟩
    · rintro ⟨other, hother, heq⟩
      obtain ⟨path, hpath, hotherpath⟩ := hleads other hother
      exact ⟨path, hpath, heq.trans hotherpath⟩

end

/-! ### Relative paths of the modules -/

section

variable {tree : FileTree} {root p : Path} {scope : DependencyScope} {g : ImportGraph}
  {files : List String}

theorem collapsed_of_isRealPath (h : tree.IsRealPath p) : p.collapsed = p := by
  obtain ⟨names, rfl, hreal, _⟩ := h
  show Path.absolute (Path.collapseNames true names) = .absolute names
  rw [FileTree.collapseNames_of_ne_up fun name hname => (hreal.isDown name hname).2]

/-- The path of a module is read again from the text of the node. So nothing is lost by keeping
    nodes as texts. -/
theorem ofText_of_isRealPath (h : tree.IsRealPath p) : Path.ofText p.text = p := by
  refine Path.ofText_text h.isRooted.isSpelled ?_
  obtain ⟨names, rfl, _⟩ := h
  exact Nat.le_succ 1

/-- A module is shown by its relative path. It goes up from the folder of the project where it has
    to. -/
theorem shownModule_of_isRealPath (h : tree.IsRealPath p) :
    shownModule tree root p.text = .ok (p.from root).text := by
  have hne : p.text ≠ "" := by
    intro hempty
    have hnothing : p = .ofText "" := by rw [← hempty, ofText_of_isRealPath h]
    have habsolute := h.isRooted.isAbsolute
    rw [hnothing] at habsolute
    exact absurd habsolute (by decide)
  have hjoin : (currentFolder tree).join p = p := if_pos h.isRooted.isAbsolute
  rw [shownModule, if_neg hne, ofText_of_isRealPath h, hjoin, collapsed_of_isRealPath h]

/-- What is shown for a module resolves to it. This is what makes a listing readable. -/
theorem resolve_of_shownModule (hroot : tree.IsRealPath root) {path f : String}
    (hpath : ∃ p : Path, path = p.text ∧ tree.IsRealPath p) (h : shownModule tree root path = .ok f) :
    Project.resolve ⟨tree, root⟩ f = .ok path := by
  obtain ⟨p, rfl, hp⟩ := hpath
  rw [shownModule_of_isRealPath hp] at h
  obtain rfl := Except.ok.inj h
  rw [Project.resolve, hroot.resolve_from hp]
  rfl

/-- What is shown for some modules resolves to them, one for one. -/
theorem map_resolve_of_mapM (hroot : tree.IsRealPath root) {paths shown : List String}
    (hpaths : ∀ path ∈ paths, ∃ p : Path, path = p.text ∧ tree.IsRealPath p)
    (h : paths.mapM (shownModule tree root) = .ok shown) :
    shown.map (Project.resolve ⟨tree, root⟩) = paths.map .ok := by
  induction paths generalizing shown with
  | nil =>
    obtain rfl := pure_ok_iff.mp h
    rfl
  | cons path paths ih =>
    obtain ⟨hpath, hpaths⟩ := List.forall_mem_cons.mp hpaths
    rw [List.mapM_cons] at h
    obtain ⟨f, hf, h⟩ := bind_ok_iff.mp h
    obtain ⟨rest, hrest, h⟩ := bind_ok_iff.mp h
    obtain rfl := pure_ok_iff.mp h
    rw [List.map_cons, List.map_cons, resolve_of_shownModule hroot hpath hf, ih hpaths hrest]

/-- If the nodes of a graph are real paths, the files that are listed stand for what is reached,
    from wherever paths are resolved as they are from the folder of the project. The files are
    sorted as texts, so their order is not that of the modules. -/
theorem isListing_of_listedFiles (hroot : tree.IsRealPath root)
    (hnodes : ∀ path ∈ g.nodes.keys, ∃ p : Path, path = p.text ∧ tree.IsRealPath p)
    (h : listedFiles tree root scope g = .ok files) :
    ∃ reached, ∀ given, (∀ f, Project.resolve ⟨tree, given⟩ f = Project.resolve ⟨tree, root⟩ f) →
      IsListing g scope ⟨tree, given⟩ reached files := by
  obtain ⟨reached, hreach, h⟩ := bind_ok_iff.mp h
  rw [mapError_ok_iff] at hreach
  obtain ⟨shown, hshown, h⟩ := bind_ok_iff.mp h
  obtain rfl := pure_ok_iff.mp h
  have hreached := (ImportGraph.nodup_of_scopeReach hreach).2
  have hmap := map_resolve_of_mapM hroot (fun path hpath => hnodes path (hreached path hpath)) hshown
  refine ⟨reached, fun given hgiven => ?_⟩
  have hresolve : Project.resolve ⟨tree, given⟩ = Project.resolve ⟨tree, root⟩ := funext hgiven
  have hreach' : g.scopeReach scope ⟨tree, given⟩ = .ok reached := by
    rw [← hreach, ImportGraph.scopeReach, ImportGraph.scopeReach, Project.resolveEntries,
      Project.resolveEntries, hresolve]
  refine isListing_of_perm hreach' (GraphKey.pairwise_sortedTexts shown) ?_
  have hperm : (sortedTexts shown).Perm shown := List.mergeSort_perm _ _
  rw [hresolve, ← hmap]
  exact hperm.map _

end

end Backlog.Command
