import Backlog.Import.Discovery
import Backlog.Proofs.Files.Edits
import Backlog.Proofs.Files.Existence
import Backlog.Proofs.Outcome

namespace Backlog

open Backlog.Files

/-!
# The source files that are found

The search may be stopped by a single file: by a link that cannot be resolved, a name that is too
long, or a folder that may not be searched. Which of them stops it is a matter of the order in which
they are come to, and all that can do so are listed here.

* `Node.IsNamed` — the entries of all folders have names that a path can hold, as they do in every
  file system;
* `PathObstacle` — what keeps a path from being taken up: it has no real path, or the system refuses
  to look at that, since a name in it is too long or a folder on the way may not be searched;
* `FileTree.realFile?_error_iff`, `Project.sourceFiles_error_iff` — nothing else does, and the first
  such file that is come to stops the search;
* `Project.mem_sourceFiles_iff` — what is found otherwise are the real paths that are files.
-/

/-! ### Trees with names -/

namespace Files

/-- The entries of all folders have names that a path can hold, those that are only listed
    included. -/
inductive Node.IsNamed : Node → Prop
  | file {content : Text.Bytes} {time : Int} : IsNamed (.file content time)
  | link {target : String} : IsNamed (.link target)
  | folder {entries : List (String × Node)} (hname : ∀ e ∈ entries, Path.IsName e.1)
      (hinner : ∀ e ∈ entries, IsNamed e.2) : IsNamed (.folder entries)
  | sealed {listed : List String} (hname : ∀ name ∈ listed, Path.IsName name) :
      IsNamed (.sealed listed)

/-- So it is below every place. Names are asked for in every folder of the tree. -/
theorem Node.IsNamed.find? {root node : Node} (h : root.IsNamed) {names : List String}
    (hfind : root.find? names = some node) : node.IsNamed := by
  induction names generalizing root with
  | nil => exact Option.some.inj hfind ▸ h
  | cons name names ih =>
    cases h with
    | file | link | sealed => cases hfind
    | folder hname hinner =>
      obtain ⟨inner, hchild, hfind⟩ := Option.bind_eq_some_iff.mp hfind
      exact ih (hinner _ (Node.mem_of_childNamed? hchild)) hfind

end Files

namespace Files.FileTree

variable {tree : FileTree} {path real : Path} {cause : Trouble}

/-- The order in which folders are searched changes nothing about what is found in them. -/
theorem mem_inOrder {names : List String} {folders : List (String × List (List String))} :
    names ∈ inOrder folders ↔ ∃ folder ∈ folders, names ∈ folder.2 := by
  simp [inOrder, (List.mergeSort_perm _ _).mem_iff]

mutual

/-- The files below a folder are found by names of entries. The induction is on the node, together
    with the one over the entries of a folder. -/
theorem isName_of_mem_candidatesBelow (tree : FileTree) (root : Path) :
    ∀ (node : Node) (before : List String), node.IsNamed →
      ∀ names ∈ candidatesBelow tree root before node,
        ∀ name ∈ names, name ∈ before ∨ Path.IsName name
  | .file _ _, before, _ => by simp [candidatesBelow]
  | .link _, before, _ => by simp [candidatesBelow]
  | .sealed listed, before, h => by
    cases h with
    | sealed hname =>
      intro names hnames name hmem
      obtain ⟨last, hlast, rfl⟩ := List.mem_map.mp hnames
      rcases List.mem_append.mp hmem with hmem | hmem
      · exact .inl hmem
      · rw [List.mem_singleton.mp hmem]
        exact .inr (hname last hlast)
  | .folder entries, before, h => by
    cases h with
    | folder hname hinner =>
      intro names hnames name hmem
      rw [candidatesBelow, List.mem_append] at hnames
      rcases hnames with hnames | hnames
      · obtain ⟨e, he, rfl⟩ := List.mem_map.mp hnames
        rcases List.mem_append.mp hmem with hmem | hmem
        · exact .inl hmem
        · rw [List.mem_singleton.mp hmem]
          exact .inr (hname e (List.mem_filter.mp he).1)
      · obtain ⟨folder, hfolder, hnames⟩ := mem_inOrder.mp hnames
        exact isName_of_mem_candidatesOfFolders tree root entries before hname hinner folder hfolder
          names hnames name hmem

/-- The files below the folders among some entries are found by names of entries as well. -/
theorem isName_of_mem_candidatesOfFolders (tree : FileTree) (root : Path) :
    ∀ (entries : List (String × Node)) (before : List String),
      (∀ e ∈ entries, Path.IsName e.1) → (∀ e ∈ entries, e.2.IsNamed) →
        ∀ folder ∈ candidatesOfFolders tree root before entries, ∀ names ∈ folder.2,
          ∀ name ∈ names, name ∈ before ∨ Path.IsName name
  | [], before, _, _ => by simp [candidatesOfFolders]
  | (first, node) :: rest, before, hname, hinner => by
    intro folder hfolder names hnames name hmem
    obtain ⟨hfirst, hname⟩ := List.forall_mem_cons.mp hname
    obtain ⟨hnode, hinner⟩ := List.forall_mem_cons.mp hinner
    have hrest := isName_of_mem_candidatesOfFolders tree root rest before hname hinner
    rw [candidatesOfFolders] at hfolder
    split at hfolder
    · exact hrest folder hfolder names hnames name hmem
    · rcases List.mem_cons.mp hfolder with rfl | hfolder
      · rcases isName_of_mem_candidatesBelow tree root node (before ++ [first]) hnode names hnames
          name hmem with hmem | hmem
        · rcases List.mem_append.mp hmem with hmem | hmem
          · exact .inl hmem
          · rw [List.mem_singleton.mp hmem]
            exact .inr hfirst
        · exact .inr hmem
      · exact hrest folder hfolder names hnames name hmem

end

/-- The candidates below a folder are found by names of entries. So they can be joined to the path
    of the folder, and the result is a path. -/
theorem isName_of_mem_candidates (h : tree.root.IsNamed) {root : Path} {names : List String}
    (hnames : names ∈ tree.candidates root) : ∀ name ∈ names, Path.IsName name := by
  unfold candidates at hnames
  split at hnames
  · rename_i node hstat
    obtain ⟨place, hlocate⟩ := stat_ok_iff.mp hstat
    have hnode := h.find? (node_of_locate hlocate).1.symm
    intro name hmem
    exact (isName_of_mem_candidatesBelow tree root node [] hnode names hnames name hmem).resolve_left
      List.not_mem_nil
  · cases hnames

end Files.FileTree

/-! ### What is found -/

/-- What keeps a path from being taken up. -/
inductive PathObstacle (tree : FileTree) (path : Path) : Trouble → Prop
  /-- It has no real path. -/
  | link {cause : FileTree.ResolveError} (h : tree.resolve path = .error cause) :
      PathObstacle tree path (.link cause)
  /-- The look at its real path is refused: a name in it is too long, or the real path is, or a
      folder on the way may not be searched. -/
  | refused {real : Path} {fault : Fault} (h : tree.resolve path = .ok real)
      (hstat : tree.stat real.text = .error fault) (hfault : FileTree.meansAbsent fault = false) :
      PathObstacle tree path (.file fault real.text)

namespace Files.FileTree

variable {tree : FileTree} {path real : Path} {cause : Trouble}

/-- A path cannot be taken up exactly if one of the obstacles on it is met. -/
theorem realFile?_error_iff :
    tree.realFile? path = .error cause ↔ PathObstacle tree path cause := by
  unfold realFile?
  rw [bind_error_iff, mapError_error_iff]
  constructor
  · rintro (⟨c, hc, rfl⟩ | ⟨real, hreal, h⟩)
    · exact .link hc
    · rcases bind_error_iff.mp h with h | ⟨isThere, _, h⟩
      · obtain ⟨fault, hfault, rfl⟩ := mapError_error_iff.mp h
        obtain ⟨hstat, hsays⟩ := leadsTo_error_iff.mp hfault
        exact .refused (mapError_ok_iff.mp hreal) hstat hsays
      · cases h
  · rintro (hc | ⟨hreal, hstat, hfault⟩)
    · exact .inl ⟨_, hc, rfl⟩
    · refine .inr ⟨_, mapError_ok_iff.mpr hreal, bind_error_iff.mpr (.inl ?_)⟩
      exact mapError_error_iff.mpr ⟨_, leadsTo_error_iff.mpr ⟨hstat, hfault⟩, rfl⟩

/-- What is taken up is the real path of the path, if there is a file. -/
theorem realFile?_some_iff :
    tree.realFile? path = .ok (some real) ↔
      tree.resolve path = .ok real ∧ tree.isFile real.text = .ok true := by
  simp only [realFile?, bind_ok_iff, mapError_ok_iff, pure_ok_iff]
  constructor
  · rintro ⟨found, hfound, isThere, hthere, h⟩
    cases isThere with
    | false => cases h
    | true =>
      obtain rfl : real = found := Option.some.inj h
      exact ⟨hfound, hthere⟩
  · rintro ⟨hreal, hfile⟩
    exact ⟨real, hreal, true, hfile, rfl⟩

end Files.FileTree

/-- Of the same paths one after the other, one is kept. So nothing is lost by dropping the
    others. -/
theorem mem_dropRepeats {p : Path} {paths : List Path} :
    p ∈ paths.foldr (fun p rest => if rest.head? = some p then rest else p :: rest) [] ↔
      p ∈ paths := by
  induction paths with
  | nil => rfl
  | cons q rest ih =>
    rw [List.foldr_cons, List.mem_cons, ← ih]
    split
    · rename_i hhead
      -- The path is there already.
      refine ⟨.inr, fun h => h.elim (fun heq => ?_) id⟩
      rw [heq]
      exact List.mem_of_mem_head? hhead
    · exact List.mem_cons

theorem mem_sortedPaths {p : Path} {paths : List Path} : p ∈ sortedPaths paths ↔ p ∈ paths := by
  rw [sortedPaths, mem_dropRepeats, (List.mergeSort_perm _ _).mem_iff]

namespace Project

variable {project : Project} {exclude suffixes : List String}

/-- The files that are looked at, each by its names. -/
def sourceNames (project : Project) (excluded : GlobSet) (suffixes : List String) :
    List (List String) :=
  (project.tree.candidates project.root).filter (isSource excluded suffixes)

/-- The search is stopped by globs, or by the first file that it comes to and cannot take up. The
    candidates before that file were taken up, or led to no file. -/
theorem sourceFiles_error_iff {cause : Trouble} :
    project.sourceFiles exclude suffixes = .error cause ↔
      (∃ limit, GlobSet.compile exclude = .error limit ∧ cause = .pattern limit) ∨
        ∃ excluded names, GlobSet.compile exclude = .ok excluded ∧
          IsBehind (fun other => ∃ found,
              project.tree.realFile? (project.root.join ⟨0, other⟩) = .ok found)
            (project.sourceNames excluded suffixes) names ∧
          PathObstacle project.tree (project.root.join ⟨0, names⟩) cause := by
  have hpure : ∀ files : List Path, (pure files : Except Trouble (List Path)) ≠ .error cause := nofun
  simp only [sourceFiles, bind_error_iff, mapError_error_iff, mapError_ok_iff, mapM_error_iff, hpure,
    and_false, exists_false, or_false, FileTree.realFile?_error_iff, sourceNames, exists_and_left]

/-- A search that is not stopped: the globs compile, every candidate is taken up or leads to no
    file, and the files are sorted. -/
theorem sourceFiles_ok_iff {files : List Path} :
    project.sourceFiles exclude suffixes = .ok files ↔
      ∃ excluded found, GlobSet.compile exclude = .ok excluded ∧
        (project.sourceNames excluded suffixes).mapM
          (fun names => project.tree.realFile? (project.root.join ⟨0, names⟩)) = .ok found ∧
        files = sortedPaths (found.filterMap id) := by
  simp only [sourceFiles, bind_ok_iff, mapError_ok_iff, pure_ok_iff, sourceNames, exists_and_left]

/-- What is found are the real paths that are files. Two candidates that are links to one file are
    one file. -/
theorem mem_sourceFiles_iff {files : List Path}
    (h : project.sourceFiles exclude suffixes = .ok files) {file : Path} :
    file ∈ files ↔ ∃ excluded names, GlobSet.compile exclude = .ok excluded ∧
      names ∈ project.sourceNames excluded suffixes ∧
      project.tree.resolve (project.root.join ⟨0, names⟩) = .ok file ∧
      project.tree.isFile file.text = .ok true := by
  obtain ⟨excluded, found, hexcluded, hfound, rfl⟩ := sourceFiles_ok_iff.mp h
  simp only [mem_sortedPaths, List.mem_filterMap, id_eq, exists_eq_right, mem_of_mapM_ok hfound,
    FileTree.realFile?_some_iff]
  constructor
  · rintro ⟨names, hnames, hfile⟩
    exact ⟨excluded, names, hexcluded, hnames, hfile⟩
  · rintro ⟨excluded', names, hexcluded', hnames, hfile⟩
    obtain rfl := Except.ok.inj (hexcluded.symm.trans hexcluded')
    exact ⟨names, hnames, hfile⟩

/-- What is found are the real paths of files. The globs are left out, for they only take candidates
    away. -/
theorem exists_of_mem_sourceFiles {files : List Path}
    (h : project.sourceFiles exclude suffixes = .ok files) {file : Path} (hfile : file ∈ files) :
    ∃ names ∈ project.tree.candidates project.root,
      project.tree.resolve (project.root.join ⟨0, names⟩) = .ok file ∧
        project.tree.isFile file.text = .ok true := by
  obtain ⟨excluded, names, _, hnames, hreal⟩ := (mem_sourceFiles_iff h).mp hfile
  exact ⟨names, (List.mem_filter.mp hnames).1, hreal⟩

/-- They start from the root. So what they import is looked for from the root as well. -/
theorem isRooted_of_mem_sourceFiles {files : List Path} (hnamed : project.tree.root.IsNamed)
    (hroot : project.root.IsRooted) (h : project.sourceFiles exclude suffixes = .ok files)
    {file : Path} (hfile : file ∈ files) : file.IsRooted := by
  obtain ⟨names, hnames, hreal, _⟩ := exists_of_mem_sourceFiles h hfile
  have hisName := FileTree.isName_of_mem_candidates hnamed hnames
  have hpath : (project.root.join ⟨0, names⟩).IsRooted :=
    hroot.join fun name hname => (hisName name hname).isSegment
  refine FileTree.isRooted_of_resolve (fun name hname => ?_) hreal
  rw [FileTree.namesFromRoot, if_pos hpath.isAbsolute] at hname
  exact (hpath.isSpelled name hname).2

end Project

end Backlog
