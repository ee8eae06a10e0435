import Backlog.Proofs.Files.Relisting
import Backlog.Proofs.Files.Sound
import Backlog.Proofs.Import.SourceFiles
import Mathlib.Data.List.Sort

namespace Backlog

open Backlog.Files

/-!
# Which source files are found

The search goes down through folders and takes names along; which files it finds is stated by the
tree, without the search. So it can be seen that the order in which folders list their entries does
not matter: the search only shows in the order of the candidates, and these are sorted. Folders that
may not be searched still list names, and these are candidates, though no file can be at the end of
them.

* `pairwise_sortedPaths` — the paths that are found come in strict order;
* `FileTree.Descends` — a way down from a folder, through no link and through no folder that is
  skipped; `FileTree.Lists` — a name in a folder that may not be searched, at the end of such a way;
  `FileTree.mem_candidates_iff` — the candidates are the files at the end of such a way, and these
  names;
* `FileTree.isEntryFile_of_isFile` — whatever leads to a file counts as one;
* `Project.IsSourceFile` — the real path of a file with the name of a source;
* `Project.sourceFiles_exact` — these are found, in strict order, and in whatever order the folders
  list their entries.
-/

/-! ### The order of paths -/

namespace Files.Path

/-- Paths from the root are told apart by their components. -/
theorem components_inj {p q : Path} (hp : p.isAbsolute = true) (hq : q.isAbsolute = true)
    (h : p.components = q.components) : p = q := by
  rw [components, components, if_pos hp, if_pos hq, List.cons.injEq, String.ofList_inj] at h
  have hslashes := congrArg List.length h.1
  rw [List.length_replicate, List.length_replicate] at hslashes
  calc p = ⟨p.slashes, p.names⟩ := rfl
    _ = ⟨q.slashes, q.names⟩ := by rw [hslashes, h.2]
    _ = q := rfl

end Files.Path

/-- Sorted by their components, no path has one before it that is greater. -/
theorem pairwise_mergeSort_before (paths : List Path) :
    (paths.mergeSort (fun p q => !q.before p)).Pairwise fun p q => ¬q.components < p.components := by
  have hle : ∀ p q : Path, (!q.before p) = true ↔ ¬q.components < p.components := by
    simp [Path.before]
  refine (List.pairwise_mergeSort (fun p q r hpq hqr => ?_) (fun p q => ?_) paths).imp (hle _ _).mp
  · have hpq := List.not_lt.mp ((hle p q).mp hpq)
    have hqr := List.not_lt.mp ((hle q r).mp hqr)
    exact (hle p r).mpr (List.not_lt.mpr (List.le_trans hpq hqr))
  · rw [Bool.or_eq_true, hle, hle]
    by_cases hlt : q.components < p.components
    · exact .inr (List.lt_asymm hlt)
    · exact .inl hlt

/-- Without repeats, paths in order are in strict order. Paths with the same components are the same
    path, so what is left differs. -/
theorem pairwise_dropRepeats {paths : List Path} (habsolute : ∀ p ∈ paths, p.isAbsolute = true)
    (hsorted : paths.Pairwise fun p q => ¬q.components < p.components) :
    (paths.foldr (fun p rest => if rest.head? = some p then rest else p :: rest) []).Pairwise
      fun p q => p.components < q.components := by
  induction paths with
  | nil => exact .nil
  | cons p rest ih =>
    obtain ⟨hp, habsolute⟩ := List.forall_mem_cons.mp habsolute
    obtain ⟨hfirst, hsorted⟩ := List.pairwise_cons.mp hsorted
    have hkept := ih habsolute hsorted
    rw [List.foldr_cons]
    split
    · exact hkept
    · rename_i hhead
      refine List.pairwise_cons.mpr ⟨fun q hq => ?_, hkept⟩
      have hqrest := mem_dropRepeats.mp hq
      by_contra hnot
      -- Then the path is there already, behind another one that is not before it.
      obtain rfl := Path.components_inj hp (habsolute q hqrest)
        (List.le_antisymm (List.not_lt.mp (hfirst q hqrest)) (List.not_lt.mp hnot))
      obtain ⟨head, others, hcons⟩ := List.exists_cons_of_ne_nil (List.ne_nil_of_mem hq)
      rw [hcons] at hq hkept hhead
      rcases List.mem_cons.mp hq with rfl | hothers
      · exact hhead rfl
      · have hbefore := (List.pairwise_cons.mp hkept).1 p hothers
        have hheadrest : head ∈ rest := mem_dropRepeats.mp (hcons ▸ List.mem_cons_self)
        exact hfirst head hheadrest hbefore

theorem pairwise_sortedPaths {paths : List Path} (habsolute : ∀ p ∈ paths, p.isAbsolute = true) :
    (sortedPaths paths).Pairwise fun p q => p.components < q.components :=
  pairwise_dropRepeats (fun p hp => habsolute p ((List.mergeSort_perm _ _).mem_iff.mp hp))
    (pairwise_mergeSort_before paths)

/-- Paths in strict order are told by what is among them. This is why the order in which folders
    list their entries cannot show. -/
theorem eq_of_pairwise_components {paths paths' : List Path}
    (h : paths.Pairwise fun p q => p.components < q.components)
    (h' : paths'.Pairwise fun p q => p.components < q.components)
    (hmem : ∀ p, p ∈ paths ↔ p ∈ paths') : paths = paths' := by
  have hirrefl : ∀ {p q : Path}, p.components < q.components → p ≠ q := by
    rintro p q hlt rfl
    exact List.lt_irrefl _ hlt
  have hperm : paths.Perm paths' :=
    (List.perm_ext_iff_of_nodup (h.imp hirrefl) (h'.imp hirrefl)).mpr hmem
  exact hperm.eq_of_pairwise (fun p q _ _ hpq hqp => absurd hqp (List.lt_asymm hpq)) h h'

/-! ### The files below a folder -/

namespace Files.FileTree

variable {tree : FileTree} {root : Path}

/-- The names below a folder are those below its folders. Folders of tools and of installed packages
    are not searched. -/
theorem mem_candidatesOfFolders {before : List String} {entries : List (String × Node)}
    {folder : String × List (List String)} :
    folder ∈ candidatesOfFolders tree root before entries ↔
      ∃ e ∈ entries, e.1 ∉ skippedFolders ∧
        folder = (e.1, candidatesBelow tree root (before ++ [e.1]) e.2) := by
  induction entries with
  | nil => simp [candidatesOfFolders]
  | cons e rest ih =>
    obtain ⟨name, node⟩ := e
    rw [candidatesOfFolders]
    by_cases hskip : name ∈ skippedFolders
    · simp [hskip, ih]
    · simp [hskip, ih]

/-- A name behind names that are joined to a path is joined to it with them. -/
theorem child_join (before : List String) (name : String) :
    (root.join ⟨0, before⟩).child name = root.join ⟨0, before ++ [name]⟩ := by
  simp [Path.join, Path.child, Path.isAbsolute]

/-- A file below a folder is one of its entries, or below a folder among them that is not skipped.
    This is the step of the induction over a tree. -/
theorem mem_candidatesBelow_folder {before names : List String} {entries : List (String × Node)} :
    names ∈ candidatesBelow tree root before (.folder entries) ↔
      (∃ e ∈ entries, tree.isEntryFile (root.join ⟨0, names⟩) e.2 = true ∧ names = before ++ [e.1]) ∨
        ∃ e ∈ entries, e.1 ∉ skippedFolders ∧
          names ∈ candidatesBelow tree root (before ++ [e.1]) e.2 := by
  rw [candidatesBelow, List.mem_append, mem_inOrder]
  refine or_congr ?_ ?_
  · simp only [List.mem_map, List.mem_filter, child_join]
    constructor
    · rintro ⟨e, ⟨he, hfile⟩, rfl⟩
      exact ⟨e, he, hfile, rfl⟩
    · rintro ⟨e, he, hfile, rfl⟩
      exact ⟨e, ⟨he, hfile⟩, rfl⟩
  · simp only [mem_candidatesOfFolders]
    constructor
    · rintro ⟨_, ⟨e, he, hskip, rfl⟩, hnames⟩
      exact ⟨e, he, hskip, hnames⟩
    · rintro ⟨e, he, hskip, hnames⟩
      exact ⟨_, ⟨e, he, hskip, rfl⟩, hnames⟩

/-- A way down from a node by names of entries: through no link, and through no folder that is
    skipped. -/
structure Descends (node : Node) (names : List String) (leaf : Node) : Prop where
  find? : node.find? names = some leaf
  ne_nil : names ≠ []
  notSkipped : ∀ folder ∈ names.dropLast, folder ∉ skippedFolders

/-- One name leads to the entry of that name, whatever that is. -/
theorem descends_singleton {entries : List (String × Node)} {name : String} {leaf : Node} :
    Descends (.folder entries) [name] leaf ↔ Node.childNamed? name entries = some leaf := by
  constructor
  · intro h
    simpa [Node.find?] using h.find?
  · intro h
    exact ⟨by simpa [Node.find?] using h, by simp, by simp⟩

/-- Further down it leads through a folder that is not skipped. -/
theorem descends_cons {entries : List (String × Node)} {name : String} {names : List String}
    (hne : names ≠ []) {leaf : Node} :
    Descends (.folder entries) (name :: names) leaf ↔
      name ∉ skippedFolders ∧ ∃ inner, Node.childNamed? name entries = some inner ∧
        Descends inner names leaf := by
  have hlast : (name :: names).dropLast = name :: names.dropLast := List.dropLast_cons_of_ne_nil hne
  constructor
  · intro h
    have hskip := h.notSkipped
    rw [hlast, List.forall_mem_cons] at hskip
    obtain ⟨inner, hchild, hfind⟩ := Option.bind_eq_some_iff.mp h.find?
    exact ⟨hskip.1, inner, hchild, hfind, hne, hskip.2⟩
  · rintro ⟨hskip, inner, hchild, h⟩
    refine ⟨Option.bind_eq_some_iff.mpr ⟨inner, hchild, h.find?⟩, by simp, ?_⟩
    rw [hlast, List.forall_mem_cons]
    exact ⟨hskip, h.notSkipped⟩

/-- A name that a folder lists although it may not be searched, at the end of a way down through
    folders of which none is skipped. -/
def Lists (node : Node) (names : List String) : Prop :=
  ∃ folder listed name, names = folder ++ [name] ∧ node.find? folder = some (.sealed listed) ∧
    name ∈ listed ∧ ∀ n ∈ folder, n ∉ skippedFolders

/-- A folder that may not be searched tells the names in it, but not what they are. -/
theorem lists_sealed {listed names : List String} :
    Lists (.sealed listed) names ↔ ∃ name ∈ listed, names = [name] := by
  constructor
  · rintro ⟨folder, listed', name, rfl, hfind, hname, _⟩
    cases folder with
    | nil =>
      obtain rfl := Node.sealed.inj (Option.some.inj hfind)
      exact ⟨name, hname, rfl⟩
    | cons _ _ => cases hfind
  · rintro ⟨name, hname, rfl⟩
    exact ⟨[], listed, name, rfl, rfl, hname, List.forall_mem_nil _⟩

/-- Names that are listed below a folder are listed in one of the folders in it, or further down. -/
theorem lists_folder {entries : List (String × Node)} {names : List String} :
    Lists (.folder entries) names ↔ ∃ name rest inner, names = name :: rest ∧
      name ∉ skippedFolders ∧ Node.childNamed? name entries = some inner ∧ Lists inner rest := by
  constructor
  · rintro ⟨folder, listed, last, rfl, hfind, hlast, hskip⟩
    cases folder with
    | nil => cases hfind
    | cons name folder =>
      obtain ⟨hname, hskip⟩ := List.forall_mem_cons.mp hskip
      obtain ⟨inner, hchild, hfind⟩ := Option.bind_eq_some_iff.mp hfind
      exact ⟨name, folder ++ [last], inner, rfl, hname, hchild,
        folder, listed, last, rfl, hfind, hlast, hskip⟩
  · rintro ⟨name, _, inner, rfl, hname, hchild, folder, listed, last, rfl, hfind, hlast, hskip⟩
    exact ⟨name :: folder, listed, last, rfl, Option.bind_eq_some_iff.mpr ⟨inner, hchild, hfind⟩,
      hlast, List.forall_mem_cons.mpr ⟨hname, hskip⟩⟩

/-- The files that are found below a node. The induction is on the node. Its entries have different
    names, so a name leads to one of them only. -/
theorem mem_candidatesBelow_iff (node : Node) (hsound : node.IsSound) (before names : List String) :
    names ∈ candidatesBelow tree root before node ↔ ∃ more, names = before ++ more ∧
      ((∃ leaf, Descends node more leaf ∧ tree.isEntryFile (root.join ⟨0, names⟩) leaf = true) ∨
        Lists node more) := by
  match node with
  | .file _ _ | .link _ =>
    refine iff_of_false (by simp [candidatesBelow]) ?_
    rintro ⟨more, _, ⟨leaf, h, _⟩ | ⟨folder, _, _, _, hfind, _⟩⟩
    · obtain ⟨name, rest, rfl⟩ := List.exists_cons_of_ne_nil h.ne_nil
      cases h.find?
    · cases folder <;> cases hfind
  | .sealed listed =>
    simp only [candidatesBelow, List.mem_map, lists_sealed]
    constructor
    · rintro ⟨name, hname, rfl⟩
      exact ⟨[name], rfl, .inr ⟨name, hname, rfl⟩⟩
    · rintro ⟨more, rfl, ⟨leaf, h, _⟩ | ⟨name, hname, rfl⟩⟩
      · obtain ⟨name, rest, rfl⟩ := List.exists_cons_of_ne_nil h.ne_nil
        cases h.find?
      · exact ⟨name, hname, rfl⟩
  | .folder entries =>
    have hchild : ∀ name inner,
        Node.childNamed? name entries = some inner ↔ (name, inner) ∈ entries := fun _ _ =>
      Node.childNamed?_eq_some_iff (hsound.tidy [] entries rfl)
    -- The entries are smaller, and sound as well.
    have hinner : ∀ e ∈ entries, e.2.IsSound := by
      intro e he
      have hfind : (Node.folder entries).find? [e.1] = some e.2 := by
        simpa [Node.find?] using (hchild e.1 e.2).mpr he
      exact hsound.find? hfind
    have hsize : ∀ e ∈ entries, sizeOf e.2 < 1 + sizeOf entries := by
      intro e he
      have hentry := List.sizeOf_lt_of_mem he
      obtain ⟨name, inner⟩ := e
      simp only [Prod.mk.sizeOf_spec] at hentry ⊢
      omega
    rw [mem_candidatesBelow_folder]
    constructor
    · rintro (⟨e, he, hfile, rfl⟩ | ⟨e, he, hskip, hnames⟩)
      · exact ⟨[e.1], rfl, .inl ⟨e.2, descends_singleton.mpr ((hchild e.1 e.2).mpr he), hfile⟩⟩
      · have hless := hsize e he
        obtain ⟨more, rfl, hmore⟩ :=
          (mem_candidatesBelow_iff e.2 (hinner e he) (before ++ [e.1]) names).mp hnames
        refine ⟨e.1 :: more, by simp, hmore.imp ?_ fun hlists => ?_⟩
        · rintro ⟨leaf, hmore, hfile⟩
          exact ⟨leaf, (descends_cons hmore.ne_nil).mpr
            ⟨hskip, e.2, (hchild e.1 e.2).mpr he, hmore⟩, hfile⟩
        · exact lists_folder.mpr ⟨e.1, more, e.2, rfl, hskip, (hchild e.1 e.2).mpr he, hlists⟩
    · rintro ⟨more, rfl, ⟨leaf, hmore, hfile⟩ | hlists⟩
      · obtain ⟨name, rest, rfl⟩ := List.exists_cons_of_ne_nil hmore.ne_nil
        by_cases hrest : rest = []
        · subst hrest
          exact .inl ⟨(name, leaf), (hchild name leaf).mp (descends_singleton.mp hmore), hfile, rfl⟩
        · obtain ⟨hskip, inner, hentry, hrest⟩ := (descends_cons hrest).mp hmore
          have he := (hchild name inner).mp hentry
          have hless := hsize (name, inner) he
          refine .inr ⟨(name, inner), he, hskip, ?_⟩
          refine (mem_candidatesBelow_iff inner (hinner _ he) (before ++ [name]) _).mpr ?_
          exact ⟨rest, by simp, .inl ⟨leaf, hrest, hfile⟩⟩
      · obtain ⟨name, rest, inner, rfl, hskip, hentry, hrest⟩ := lists_folder.mp hlists
        have he := (hchild name inner).mp hentry
        have hless := hsize (name, inner) he
        refine .inr ⟨(name, inner), he, hskip, ?_⟩
        exact (mem_candidatesBelow_iff inner (hinner _ he) (before ++ [name]) _).mpr
          ⟨rest, by simp, .inr hrest⟩
termination_by sizeOf node

/-- The candidates below a folder. They are leaves that count as files, and names that a folder
    lists without letting them be looked at. -/
theorem mem_candidates_iff (hsound : tree.root.IsSound) {names : List String} :
    names ∈ tree.candidates root ↔ ∃ base, tree.stat root.text = .ok base ∧
      ((∃ leaf, Descends base names leaf ∧ tree.isEntryFile (root.join ⟨0, names⟩) leaf = true) ∨
        Lists base names) := by
  unfold candidates
  cases hstat : tree.stat root.text with
  | error fault => simp
  | ok base =>
    obtain ⟨place, hlocate⟩ := stat_ok_iff.mp hstat
    have hbase := hsound.find? (node_of_locate hlocate).1.symm
    simp [mem_candidatesBelow_iff base hbase [] names]

/-- What is found below the folder of a path is found below the folder's place. The path of the
    folder may go through links, but from its place there are only names. -/
theorem exists_place_of_find? (hsound : tree.root.IsSound) {base leaf : Node} {names : List String}
    (hbase : tree.stat root.text = .ok base) (hfind : base.find? names = some leaf) :
    ∃ place, tree.locate root.text = .ok ⟨place, some base⟩ ∧
      tree.root.find? (place ++ names) = some leaf ∧
      ∀ name ∈ names, Path.IsName name ∧ name ≠ ".." := by
  obtain ⟨place, hlocate⟩ := stat_ok_iff.mp hbase
  have hfound : tree.root.find? (place ++ names) = some leaf := by
    rw [Node.find?_append, ← (node_of_locate hlocate).1, Option.bind_some, hfind]
  exact ⟨place, hlocate, hfound, fun name hname =>
    hsound.isEntryName hfound name (List.mem_append_right _ hname)⟩

/-- The names below a folder, in front of which its place stands, settle where they settle from
    there. So what is found below a folder is resolved like a path below the place of that
    folder. -/
theorem settle_join (hroot : root.IsRooted) {base : Node} {place names : List String}
    (hlocate : tree.locate root.text = .ok ⟨place, some base⟩)
    (hnames : ∀ name ∈ names, Path.IsName name) :
    settle tree.root (tree.root.linkCount + 1) [] [] (tree.namesFromRoot (root.join ⟨0, names⟩)) =
      settle tree.root (tree.root.linkCount + 1) [] place.reverse names := by
  have hjoin : (root.join ⟨0, names⟩).IsRooted :=
    hroot.join fun name hname => (hnames name hname).isSegment
  rw [namesFromRoot, if_pos hjoin.isAbsolute, Path.join, if_neg (by simp [Path.isAbsolute]),
    settle_append _ _ _ _ (settle_of_locate hroot hlocate)]

/-- What a folder lists that may not be searched leads to no file. For the folder cannot be searched
    for it. -/
theorem not_isFile_of_lists (hsound : tree.root.IsSound) (hroot : root.IsRooted) {base : Node}
    {names : List String} (hbase : tree.stat root.text = .ok base) (h : Lists base names) {real : Path}
    (hreal : tree.resolve (root.join ⟨0, names⟩) = .ok real) : tree.isFile real.text ≠ .ok true := by
  intro hfile
  obtain ⟨folder, listed, name, rfl, hfind, hname, _⟩ := h
  obtain ⟨place, hlocate, hfound, hfolder⟩ := exists_place_of_find? hsound hbase hfind
  have hlast := hsound.isListedName hfound name hname
  have hnames : ∀ n ∈ folder ++ [name], Path.IsName n ∧ n ≠ ".." :=
    List.forall_mem_append.mpr ⟨hfolder, List.forall_mem_singleton.mpr hlast⟩
  have hplace : ∀ n ∈ place ++ folder ++ [name], Path.IsName n ∧ n ≠ ".." :=
    List.forall_mem_append.mpr ⟨hsound.isEntryName hfound, List.forall_mem_singleton.mpr hlast⟩
  -- The name is taken as it is behind the place of the folder.
  have hsettle := settle_of_sealed (tree.root.linkCount + 1) [] place.reverse hnames
    (by rwa [List.reverse_reverse])
  have hself := settle_of_sealed (tree.root.linkCount + 1) [] [] hplace hfound
  rw [← settle_join hroot hlocate fun n hn => (hnames n hn).1] at hsettle
  obtain ⟨node, hnode, _⟩ := exists_file_of_settle hplace hreal (by simpa using hsettle)
    (by simpa using hself) hfile
  -- But nothing is found there.
  rw [Node.find?_append, hfound] at hnode
  cases hnode

/-- Whatever leads to a file counts as one. So every source file is found among the candidates. -/
theorem isEntryFile_of_isFile (hsound : tree.root.IsSound) (hroot : root.IsRooted)
    {base leaf : Node} {names : List String} (hbase : tree.stat root.text = .ok base)
    (hfind : base.find? names = some leaf) {real : Path}
    (hreal : tree.resolve (root.join ⟨0, names⟩) = .ok real)
    (hfile : tree.isFile real.text = .ok true) :
    tree.isEntryFile (root.join ⟨0, names⟩) leaf = true := by
  obtain ⟨place, hlocate, hfound, hnames⟩ := exists_place_of_find? hsound hbase hfind
  -- The names settle at the entry itself, unless it is a link.
  have hentry : (∀ target, leaf ≠ .link target) → isFileNode leaf = true := by
    refine fun hleaf => isFileNode_of_settle hsound hreal ?_ hfound hleaf hfile
    have hfound' : tree.root.find? (place.reverse.reverse ++ names) = some leaf := by
      rwa [List.reverse_reverse]
    rw [settle_join hroot hlocate fun name hname => (hnames name hname).1,
      settle_of_find? _ _ hnames hfound' hleaf, List.reverse_append]
  cases leaf with
  | file _ _ => rfl
  | folder entries | sealed listed => cases hentry nofun
  | link target =>
    have hjoin : (root.join ⟨0, names⟩).IsRooted :=
      hroot.join fun name hname => (hnames name hname).1.isSegment
    rw [isEntryFile]
    cases hfolder : tree.isFolder (root.join ⟨0, names⟩).text with
    | error fault => rfl
    | ok leadsToFolder =>
      cases leadsToFolder with
      | false => rfl
      | true =>
        -- A link to a folder has the real path of the folder.
        obtain ⟨node, hstat, hnode⟩ := leadsTo_ok_true_iff.mp hfolder
        have hisFile := isFileNode_of_stat hsound hjoin hstat hreal hfile
        cases node <;> simp [isFolderNode, isFileNode] at hnode hisFile

/-! ### Entries in another order -/

theorem Resembles.symm {other : FileTree} (h : tree.Resembles other) : other.Resembles tree :=
  ⟨h.here.symm, h.count.symm, fun names => (h.outline names).symm⟩

/-- A tree stays sound when its folders list their entries in another order. Sound means tidy with
    well-formed names, neither of which depends on an order. -/
theorem Relists.isSound {other : FileTree} (h : tree.Relists other) (hsound : tree.root.IsSound) :
    other.root.IsSound where
  tidy := (h.root.tidy_and_outlineAt? hsound.tidy).1
  isEntryName {names node} hfind := by
    have houtline := (h.root.tidy_and_outlineAt? hsound.tidy).2 names
    rw [Node.outlineAt?, Node.outlineAt?, hfind, Option.map_some, eq_comm,
      Option.map_eq_some_iff] at houtline
    obtain ⟨before, hbefore, _⟩ := houtline
    exact hsound.isEntryName hbefore
  isListedName {names listed} hfind := by
    have houtline := (h.root.tidy_and_outlineAt? hsound.tidy).2 names
    have hleaf : ∀ entries, Node.sealed listed ≠ .folder entries := by simp
    rw [(Node.outlineAt?_eq_some_iff hleaf).mpr hfind] at houtline
    exact hsound.isListedName ((Node.outlineAt?_eq_some_iff hleaf).mp houtline.symm)

/-- A file is taken up alike. Resolving and asking for a file look entries up by name. -/
theorem Resembles.realFile?_eq {other : FileTree} (h : tree.Resembles other) (path : Path) :
    other.realFile? path = tree.realFile? path := by
  unfold realFile?
  simp only [h.resolve_eq, h.isFile_eq]

/-- An entry with the same outline counts alike as a file. The outline of a node says whether it is
    a folder, a file or a link. -/
theorem Resembles.isEntryFile_eq {other : FileTree} (h : tree.Resembles other) (path : Path)
    {node node' : Node} (houtline : node'.outline = node.outline) :
    other.isEntryFile path node' = tree.isEntryFile path node := by
  cases node <;> cases node' <;> simp_all [Node.outline, isEntryFile, h.isFolder_eq]

/-- What is found below a folder is found there in a tree with the same outline. The outlines are
    the same level by level. -/
theorem Resembles.exists_find? {other : FileTree} (h : tree.Resembles other) {base leaf : Node}
    {names : List String} (hbase : tree.stat root.text = .ok base)
    (hfind : base.find? names = some leaf) :
    ∃ base' leaf', other.stat root.text = .ok base' ∧ base'.find? names = some leaf' ∧
      leaf'.outline = leaf.outline := by
  obtain ⟨place, hlocate⟩ := stat_ok_iff.mp hbase
  -- The folder is in the same place.
  have hplaces := h.locate_eq root.text true
  rw [hlocate] at hplaces
  obtain ⟨⟨place', node'⟩, hlocate', hplace'⟩ := map_ok_iff.mp hplaces
  obtain ⟨hsame, hnode'⟩ := Place.mk.inj hplace'
  obtain ⟨base', rfl, _⟩ := Option.map_eq_some_iff.mp hnode'.symm
  obtain rfl : place = place' := hsame
  -- And what is found below has the same outline.
  have hfound : tree.root.find? (place ++ names) = some leaf := by
    rw [Node.find?_append, ← (node_of_locate hlocate).1, Option.bind_some, hfind]
  have houtline := h.outline (place ++ names)
  rw [Node.outlineAt?, Node.outlineAt?, hfound, Option.map_some, Option.map_eq_some_iff] at houtline
  obtain ⟨leaf', hfound', hleaf'⟩ := houtline
  rw [Node.find?_append, ← (node_of_locate hlocate').1, Option.bind_some] at hfound'
  exact ⟨base', leaf', stat_ok_iff.mpr ⟨place, hlocate'⟩, hfound', hleaf'⟩

/-- A tree with the same outline has the same candidates. The converse is the same statement, with
    the trees exchanged. -/
theorem Resembles.mem_candidates {other : FileTree} (h : tree.Resembles other)
    (hsound : tree.root.IsSound) (hsound' : other.root.IsSound) {names : List String}
    (hnames : names ∈ tree.candidates root) : names ∈ other.candidates root := by
  rw [mem_candidates_iff hsound']
  obtain ⟨base, hbase, ⟨leaf, hleaf, hfile⟩ | hlists⟩ := (mem_candidates_iff hsound).mp hnames
  · obtain ⟨base', leaf', hbase', hfind', hleaf'⟩ := h.exists_find? hbase hleaf.find?
    refine ⟨base', hbase', .inl ⟨leaf', ⟨hfind', hleaf.ne_nil, hleaf.notSkipped⟩, ?_⟩⟩
    rw [h.isEntryFile_eq _ hleaf', hfile]
  · obtain ⟨folder, listed, name, rfl, hfind, hlisted⟩ := hlists
    obtain ⟨base', leaf', hbase', hfind', hleaf'⟩ := h.exists_find? hbase hfind
    obtain rfl : leaf' = .sealed listed := by
      cases leaf' with
      | sealed listed' => exact hleaf'
      | file _ _ | link _ | folder _ => cases hleaf'
    exact ⟨base', hbase', .inr ⟨folder, listed, name, rfl, hfind', hlisted⟩⟩

end Files.FileTree

/-! ### The sources of a project -/

namespace Project

variable {project : Project} {exclude suffixes : List String} {files : List Path}

/-- The name of a file that may be a source: it is found on a way down from the project's folder,
    and has one of the suffixes, and is not excluded. -/
structure IsSourceName (project : Project) (excluded : GlobSet) (suffixes names : List String) :
    Prop where
  found : ∃ base leaf, project.tree.stat project.root.text = .ok base ∧
    FileTree.Descends base names leaf
  suffix : Path.suffixOf (names.getLastD "") ∈ suffixes
  notExcluded : excluded.matches ("/".intercalate names) = false

/-- The real path of a file with the name of a source. -/
def IsSourceFile (project : Project) (exclude suffixes : List String) (file : Path) : Prop :=
  ∃ excluded names, GlobSet.compile exclude = .ok excluded ∧
    project.IsSourceName excluded suffixes names ∧
    project.tree.resolve (project.root.join ⟨0, names⟩) = .ok file ∧
    project.tree.isFile file.text = .ok true

/-- The candidates with the names of sources: those below the root that have a suffix of a language
    and that no glob excludes. -/
theorem mem_sourceNames_iff (hsound : project.tree.root.IsSound) {excluded : GlobSet}
    {names : List String} : names ∈ project.sourceNames excluded suffixes ↔
      (∃ base, project.tree.stat project.root.text = .ok base ∧
        ((∃ leaf, FileTree.Descends base names leaf ∧
            project.tree.isEntryFile (project.root.join ⟨0, names⟩) leaf = true) ∨
          FileTree.Lists base names)) ∧
      Path.suffixOf (names.getLastD "") ∈ suffixes ∧
      excluded.matches ("/".intercalate names) = false := by
  rw [sourceNames, List.mem_filter, FileTree.mem_candidates_iff hsound, isSource, Bool.and_eq_true,
    List.contains_iff_mem, Bool.not_eq_true']

/-- What is found are the real paths of files with the names of sources. The right side speaks of
    the tree, and not of how it is searched. -/
theorem mem_sourceFiles_iff_isSourceFile (hsound : project.tree.root.IsSound)
    (hroot : project.root.IsRooted) (h : project.sourceFiles exclude suffixes = .ok files)
    (file : Path) : file ∈ files ↔ project.IsSourceFile exclude suffixes file := by
  rw [mem_sourceFiles_iff h, IsSourceFile]
  constructor
  · rintro ⟨excluded, names, hexcluded, hnames, hreal, hfile⟩
    obtain ⟨⟨base, hbase, ⟨leaf, hleaf, _⟩ | hlists⟩, hsuffix, hkept⟩ :=
      (mem_sourceNames_iff hsound).mp hnames
    · exact ⟨excluded, names, hexcluded, ⟨⟨base, leaf, hbase, hleaf⟩, hsuffix, hkept⟩, hreal, hfile⟩
    · exact absurd hfile (FileTree.not_isFile_of_lists hsound hroot hbase hlists hreal)
  · rintro ⟨excluded, names, hexcluded, ⟨⟨base, leaf, hbase, hleaf⟩, hsuffix, hkept⟩, hreal, hfile⟩
    have hentry := FileTree.isEntryFile_of_isFile hsound hroot hbase hleaf.find? hreal hfile
    exact ⟨excluded, names, hexcluded,
      (mem_sourceNames_iff hsound).mpr ⟨⟨base, hbase, .inl ⟨leaf, hleaf, hentry⟩⟩, hsuffix, hkept⟩,
      hreal, hfile⟩

/-- They come in strict order. So no file is among them twice. -/
theorem pairwise_sourceFiles (hsound : project.tree.root.IsSound) (hroot : project.root.IsRooted)
    (h : project.sourceFiles exclude suffixes = .ok files) :
    files.Pairwise fun p q => p.components < q.components := by
  have habsolute : ∀ file ∈ files, file.isAbsolute = true := by
    intro file hfile
    obtain ⟨_, names, _, ⟨⟨base, leaf, hbase, hleaf⟩, _⟩, hreal, _⟩ :=
      (mem_sourceFiles_iff_isSourceFile hsound hroot h file).mp hfile
    obtain ⟨_, _, _, hnames⟩ := FileTree.exists_place_of_find? hsound hbase hleaf.find?
    have hjoin : (project.root.join ⟨0, names⟩).IsRooted :=
      hroot.join fun name hname => (hnames name hname).1.isSegment
    refine (FileTree.isRooted_of_resolve (fun name hname => ?_) hreal).isAbsolute
    rw [FileTree.namesFromRoot, if_pos hjoin.isAbsolute] at hname
    exact (hjoin.isSpelled name hname).2
  obtain ⟨excluded, found, _, _, rfl⟩ := sourceFiles_ok_iff.mp h
  exact pairwise_sortedPaths fun p hp => habsolute p (mem_sortedPaths.mpr hp)

/-- In whatever order the folders list their entries, the same is found. Both lists are in strict
    order and have the same members. -/
theorem sourceFiles_of_relists (hsound : project.tree.root.IsSound) (hroot : project.root.IsRooted)
    (h : project.sourceFiles exclude suffixes = .ok files) {other : FileTree}
    (hother : project.tree.Relists other) :
    sourceFiles ⟨other, project.root⟩ exclude suffixes = .ok files := by
  have hsound' := hother.isSound hsound
  have hresembles := hother.resembles hsound.tidy
  have hnames : ∀ excluded names, names ∈ sourceNames ⟨other, project.root⟩ excluded suffixes ↔
      names ∈ project.sourceNames excluded suffixes := by
    intro excluded names
    rw [sourceNames, sourceNames, List.mem_filter, List.mem_filter]
    exact and_congr_left fun _ => ⟨hresembles.symm.mem_candidates hsound' hsound,
      hresembles.mem_candidates hsound hsound'⟩
  obtain ⟨excluded, found, hexcluded, hfound, _⟩ := sourceFiles_ok_iff.mp h
  obtain ⟨found', hfound'⟩ : ∃ found', (sourceNames ⟨other, project.root⟩ excluded suffixes).mapM
      (fun names => other.realFile? (project.root.join ⟨0, names⟩)) = .ok found' := by
    refine exists_mapM_ok_iff.mpr fun names hmem => ?_
    rw [hresembles.realFile?_eq]
    exact exists_mapM_ok_iff.mp ⟨found, hfound⟩ names ((hnames excluded names).mp hmem)
  have h' : sourceFiles ⟨other, project.root⟩ exclude suffixes =
      .ok (sortedPaths (found'.filterMap id)) :=
    sourceFiles_ok_iff.mpr ⟨excluded, found', hexcluded, hfound', rfl⟩
  -- Both are in strict order, and hold the same.
  have hsame : sortedPaths (found'.filterMap id) = files := by
    refine eq_of_pairwise_components
      (@pairwise_sourceFiles ⟨other, project.root⟩ _ _ _ hsound' hroot h')
      (pairwise_sourceFiles hsound hroot h) fun file => ?_
    rw [mem_sourceFiles_iff h', mem_sourceFiles_iff h]
    simp only [hnames, hresembles.resolve_eq, hresembles.isFile_eq]
  rw [h', hsame]

/-- Two sources, a link to one of them, a file that is left out, and a folder that is skipped. -/
def linkedEntries : List (String × Node) :=
  [("b.py", .file [] 0), ("again.py", .link "a.py"), ("old.py", .file [] 0),
    ("venv", .folder [("c.py", .file [] 0)]), ("a.py", .file [] 0)]

/-- A project with these in its folder. -/
def linkedSources : Project := ⟨⟨.folder [("p", .folder linkedEntries)], []⟩, ⟨1, ["p"]⟩⟩

theorem isSound_linkedSources : linkedSources.tree.root.IsSound := by
  have hvenv : (Node.folder [("c.py", .file [] 0)]).IsSound :=
    Node.isSound_folder (by decide) (by decide) (by simp [Node.isSound_file])
  have hentries : (Node.folder linkedEntries).IsSound := by
    refine Node.isSound_folder (by decide) (by decide) ?_
    simp [linkedEntries, Node.isSound_file, Node.isSound_link, hvenv]
  exact Node.isSound_folder (by decide) (by decide) (by simpa using hentries)

/-- What the paths of the sources lead to. -/
theorem stat_linkedSources : ∀ name ∈ ["b.py", "again.py", "a.py"],
    linkedSources.tree.stat (Path.text ⟨1, ["p", name]⟩) = .ok (.file [] 0) := by
  intro name hname
  have hclean : Path.IsClean ⟨1, ["p", name]⟩ :=
    ⟨List.cons_ne_nil _ _, List.forall_mem_cons.mpr ⟨by decide, by revert name; decide⟩⟩
  have hsize : ∀ name ∈ ["b.py", "again.py", "a.py"],
      (Path.text ⟨1, ["p", name]⟩).utf8ByteSize < FileTree.maxPathSize := by decide
  have hshort : ∀ name ∈ ["p", "b.py", "again.py", "a.py"],
      ¬FileTree.maxNameSize < name.utf8ByteSize := by decide
  have hlink : namesOf "a.py" = ["a.py"] ∧ "a.py".startsWith "/" = false := by decide +kernel
  refine FileTree.stat_ok_iff.mpr ⟨if name = "again.py" then ["p", "a.py"] else ["p", name], ?_⟩
  rw [FileTree.locate_text _ hclean, if_neg (Nat.not_le.mpr (hsize name hname))]
  simp only [List.forall_mem_cons] at hshort
  simp only [List.mem_cons, List.not_mem_nil, or_false] at hname
  rcases hname with rfl | rfl | rfl <;>
    simp [FileTree.walk, FileTree.startOf, Path.isAbsolute, linkedSources, linkedEntries, Node.find?,
      Node.childNamed?, Path.isIdle, FileTree.maxLinks, hshort, hlink]

/-- The real files of the sources. -/
theorem realFile?_linkedSources :
    ∀ e ∈ [("b.py", "b.py"), ("again.py", "a.py"), ("a.py", "a.py")],
      linkedSources.tree.realFile? ⟨1, ["p", e.1]⟩ = .ok (some ⟨1, ["p", e.2]⟩) := by
  have hlink : namesOf "a.py" = ["a.py"] ∧ "a.py".startsWith "/" = false := by decide +kernel
  have hsettle : ∀ e ∈ [("b.py", "b.py"), ("again.py", "a.py"), ("a.py", "a.py")],
      FileTree.settle linkedSources.tree.root (linkedSources.tree.root.linkCount + 1) [] []
        (linkedSources.tree.namesFromRoot ⟨1, ["p", e.1]⟩) = ([e.2, "p"], true) := by
    simp [FileTree.settle, linkedSources, linkedEntries, FileTree.namesFromRoot, Path.isAbsolute,
      Node.find?, Node.childNamed?, Path.isIdle, Node.linkCount, Node.entryLinkCount, hlink]
  intro e he
  have hresolve : linkedSources.tree.resolve ⟨1, ["p", e.1]⟩ = .ok ⟨1, ["p", e.2]⟩ := by
    have hsettles : linkedSources.tree.Settles ⟨1, ["p", e.1]⟩ := by
      rw [FileTree.Settles, hsettle e he]
    rw [hsettles.resolve_eq, hsettle e he]
    clear hsettle hsettles
    revert e
    decide
  have hfile : linkedSources.tree.isFile (Path.text ⟨1, ["p", e.2]⟩) = .ok true := by
    have hreal : e.2 ∈ ["b.py", "again.py", "a.py"] := by
      clear hsettle hresolve
      revert e
      decide
    rw [FileTree.isFile, FileTree.leadsTo, stat_linkedSources e.2 hreal]
    rfl
  exact FileTree.realFile?_some_iff.mpr ⟨hresolve, hfile⟩

theorem candidates_linkedSources : linkedSources.tree.candidates linkedSources.root =
    [["b.py"], ["again.py"], ["old.py"], ["a.py"]] := by
  have hroot : linkedSources.tree.stat linkedSources.root.text = .ok (.folder linkedEntries) := by
    have hclean : linkedSources.root.IsClean :=
      ⟨List.cons_ne_nil _ _, List.forall_mem_singleton.mpr (by decide)⟩
    have hsize : linkedSources.root.text.utf8ByteSize < FileTree.maxPathSize := by decide
    have hshort : ¬FileTree.maxNameSize < "p".utf8ByteSize := by decide
    refine FileTree.stat_ok_iff.mpr ⟨["p"], ?_⟩
    rw [FileTree.locate_text _ hclean, if_neg (Nat.not_le.mpr hsize)]
    simp [FileTree.walk, FileTree.startOf, Path.isAbsolute, linkedSources, Node.find?,
      Node.childNamed?, Path.isIdle, hshort]
  have hagain : linkedSources.tree.isFolder (Path.text ⟨1, ["p", "again.py"]⟩) = .ok false := by
    rw [FileTree.isFolder, FileTree.leadsTo, stat_linkedSources "again.py" (by decide)]
    rfl
  -- The only folder below is skipped.
  have hfolders : inOrder (FileTree.candidatesOfFolders linkedSources.tree linkedSources.root []
      linkedEntries) = [] := by
    refine List.eq_nil_iff_forall_not_mem.mpr fun names hnames => ?_
    obtain ⟨_, hfolder, hnames⟩ := FileTree.mem_inOrder.mp hnames
    obtain ⟨e, he, hskip, rfl⟩ := FileTree.mem_candidatesOfFolders.mp hfolder
    simp only [linkedEntries, List.mem_cons, List.not_mem_nil, or_false] at he
    rcases he with rfl | rfl | rfl | rfl | rfl
    case inr.inr.inr.inl => exact hskip (by decide)
    all_goals simp [FileTree.candidatesBelow] at hnames
  have hplace : ∀ name, (linkedSources.root.join ⟨0, []⟩).child name = ⟨1, ["p", name]⟩ :=
    fun _ => rfl
  have hlink : linkedSources.tree.isEntryFile ⟨1, ["p", "again.py"]⟩ (.link "a.py") = true := by
    rw [FileTree.isEntryFile, hagain]
    rfl
  unfold FileTree.candidates
  simp only [hroot]
  rw [FileTree.candidatesBelow, hfolders]
  simp only [hplace, linkedEntries, List.filter_cons, hlink]
  rfl

end Project

end Backlog
