import Backlog.Proofs.Files.Existence

namespace Backlog.Files

open Node

/-!
# Trees as file systems hold them

A tree as a value may hold what no file system does: two entries of one name, or a name with a slash
in it. What is said about finding source files is said of trees without these.

* `Node.IsSound` — no folder has two entries of one name, and each entry has a name that a path can
  hold;
* `FileTree.settle_append`, `FileTree.settle_of_find?` — names that lead from folder to folder settle
  where they lead; `FileTree.settle_of_sealed` — so does a name in a folder that may not be searched;
* `FileTree.isFileNode_of_settle`, `FileTree.isFileNode_of_stat` — the real path of a path to something
  is one of a file only if that is a file.
-/

namespace Node

/-- A tree as a file system holds it. -/
structure IsSound (root : Node) : Prop where
  tidy : root.Tidy
  isEntryName : ∀ {names node}, root.find? names = some node →
    ∀ name ∈ names, Path.IsName name ∧ name ≠ ".."
  /-- So has each name in a folder that may not be searched. -/
  isListedName : ∀ {names listed}, root.find? names = some (.sealed listed) →
    ∀ name ∈ listed, Path.IsName name ∧ name ≠ ".."

theorem isSound_file (content : Text.Bytes) (time : Int) : IsSound (.file content time) where
  tidy := tidy_file content time
  isEntryName {names node} h := by
    cases names with
    | nil => exact List.forall_mem_nil _
    | cons name names => cases h
  isListedName {names listed} h := by cases names <;> cases h

theorem isSound_link (target : String) : IsSound (.link target) where
  tidy := by
    intro names entries h
    cases names <;> cases h
  isEntryName {names node} h := by
    cases names with
    | nil => exact List.forall_mem_nil _
    | cons name names => cases h
  isListedName {names listed} h := by cases names <;> cases h

/-- A folder is sound if its entries are. Beside that, its names have to differ, and to be names. -/
theorem isSound_folder {entries : List (String × Node)} (hnodup : (entries.map Prod.fst).Nodup)
    (hname : ∀ e ∈ entries, Path.IsName e.1 ∧ e.1 ≠ "..") (hinner : ∀ e ∈ entries, e.2.IsSound) :
    IsSound (.folder entries) where
  tidy := tidy_folder_iff.mpr ⟨hnodup, fun name inner hchild =>
    (hinner (name, inner) (mem_of_childNamed? hchild)).tidy⟩
  isEntryName {names node} h := by
    cases names with
    | nil => exact List.forall_mem_nil _
    | cons name names =>
      obtain ⟨inner, hchild, h⟩ := Option.bind_eq_some_iff.mp h
      have hmem := mem_of_childNamed? hchild
      exact List.forall_mem_cons.mpr ⟨hname _ hmem, (hinner _ hmem).isEntryName h⟩
  isListedName {names listed} h := by
    cases names with
    | nil => cases h
    | cons name names =>
      obtain ⟨inner, hchild, h⟩ := Option.bind_eq_some_iff.mp h
      exact (hinner _ (mem_of_childNamed? hchild)).isListedName h

/-- What is below a place of a sound tree is sound. Soundness speaks of all names and nodes of a
    tree, so a part of it has it as well. -/
theorem IsSound.find? {root node : Node} (h : root.IsSound) {names : List String}
    (hfind : root.find? names = some node) : node.IsSound where
  tidy := by
    intro more entries hmore
    exact h.tidy (names ++ more) entries (by rw [find?_append, hfind, Option.bind_some, hmore])
  isEntryName {more inner} hmore name hname := by
    have hfound : root.find? (names ++ more) = some inner := by
      rw [find?_append, hfind, Option.bind_some, hmore]
    exact h.isEntryName hfound name (List.mem_append_right _ hname)
  isListedName {more listed} hmore := by
    have hfound : root.find? (names ++ more) = some (.sealed listed) := by
      rw [find?_append, hfind, Option.bind_some, hmore]
    exact h.isListedName hfound

end Node

namespace FileTree

variable {root : Node} {t : FileTree}

/-- Names that settle are followed by what comes behind them. Settling may be interrupted anywhere
    and taken up where it stopped. -/
theorem settle_append (fuel : Nat) (active : List (List String)) (start names : List String)
    {stop : List String} (h : settle root fuel active start names = (stop, true))
    (rest : List String) :
    settle root fuel active start (names ++ rest) = settle root fuel active stop rest := by
  fun_induction settle root fuel active start names with
  | case1 =>
    obtain rfl := (Prod.mk.inj h).1
    rfl
  | case2 _ _ _ _ _ hidle ih => rw [List.cons_append, settle_idle hidle, ih h]
  | case3 _ _ _ _ _ ih => rw [List.cons_append, settle_dots, ih h]
  | case4 | case5 | case7 => cases h
  | case6 _ _ _ _ hidle hup _ _ hlink _ hactive _ _ hfound _ ih =>
    rw [List.cons_append, settle_through hidle hup hlink hactive hfound, ih h]
  | case8 _ _ _ _ _ hidle hup _ hno ih =>
    rw [List.cons_append, settle_down hidle hup hno, ih h]

/-- Names that lead from folder to folder to something that is no link settle there. No link is
    passed, so that they stay as they are. -/
theorem settle_of_find? (fuel : Nat) (active : List (List String)) {start names : List String}
    {node : Node} (hnames : ∀ name ∈ names, Path.IsName name ∧ name ≠ "..")
    (hfind : root.find? (start.reverse ++ names) = some node)
    (hnode : ∀ target, node ≠ .link target) :
    settle root fuel active start names = (names.reverse ++ start, true) := by
  induction names generalizing start with
  | nil => rw [settle_nil, List.reverse_nil, List.nil_append]
  | cons name names ih =>
    obtain ⟨⟨hname, hup⟩, hnames⟩ := List.forall_mem_cons.mp hnames
    have hnext : root.find? ((name :: start).reverse ++ names) = some node := by
      rwa [List.reverse_cons, List.append_assoc, List.singleton_append]
    have hno : ∀ target, root.find? (name :: start).reverse ≠ some (.link target) := by
      -- On the way there are folders only.
      intro target hlink
      rw [find?_append, hlink, Option.bind_some] at hnext
      cases names with
      | nil => exact hnode target (Option.some.inj hnext).symm
      | cons next names => cases hnext
    rw [settle_down (by simp [hname.1]) hup hno, ih hnames hnext, List.reverse_cons,
      List.append_assoc, List.singleton_append]

/-- A name in a folder that may not be searched is taken as it is. Nothing is found under it,
    neither a link nor anything else. -/
theorem settle_of_sealed (fuel : Nat) (active : List (List String)) (start : List String)
    {names listed : List String} {name : String}
    (hnames : ∀ n ∈ names ++ [name], Path.IsName n ∧ n ≠ "..")
    (hfind : root.find? (start.reverse ++ names) = some (.sealed listed)) :
    settle root fuel active start (names ++ [name]) = (name :: (names.reverse ++ start), true) := by
  obtain ⟨hnames, hname⟩ := List.forall_mem_append.mp hnames
  obtain ⟨hisName, hup⟩ := hname name (List.mem_singleton_self name)
  have hsettle := settle_of_find? fuel active hnames hfind nofun
  have hno : ∀ target, root.find? (name :: (names.reverse ++ start)).reverse ≠ some (.link target) := by
    rw [List.reverse_cons, List.reverse_append, List.reverse_reverse, find?_append, hfind]
    exact fun _ => nofun
  rw [settle_append fuel active start names hsettle, settle_down (by simp [hisName.1]) hup hno,
    settle_nil]

/-- Where names settle without going up, their place is the real path. There is nothing to collapse
    in such names. -/
theorem resolve_eq_of_settle {p real : Path} {names : List String}
    (hnames : ∀ name ∈ names, Path.IsName name ∧ name ≠ "..") (hreal : t.resolve p = .ok real)
    (hsettle : settle t.root (t.root.linkCount + 1) [] [] (t.namesFromRoot p) =
      (names.reverse, true)) : real = Path.absolute names := by
  have hsettles : t.Settles p := by rw [Settles, hsettle]
  rw [hsettles.resolve_eq, hsettle, List.reverse_reverse, collapseNames_of_ne_up
    fun name hname => (hnames name hname).2] at hreal
  split at hreal
  · cases hreal
  · exact (Except.ok.inj hreal).symm

/-- Where the names of a path settle there is a file, if its real path is one of a file and these
    names settle where they are. The second hypothesis on settling says that no link is met by the
    names themselves. -/
theorem exists_file_of_settle {p real : Path} {names : List String}
    (hnames : ∀ name ∈ names, Path.IsName name ∧ name ≠ "..") (hreal : t.resolve p = .ok real)
    (hsettle : settle t.root (t.root.linkCount + 1) [] [] (t.namesFromRoot p) = (names.reverse, true))
    (hself : settle t.root (t.root.linkCount + 1) [] [] names = (names.reverse, true))
    (hfile : t.isFile real.text = .ok true) :
    ∃ node, t.root.find? names = some node ∧ isFileNode node = true := by
  obtain rfl := resolve_eq_of_settle hnames hreal hsettle
  obtain ⟨node, hstat, hnode⟩ := leadsTo_ok_true_iff.mp hfile
  obtain ⟨place, hlocate⟩ := stat_ok_iff.mp hstat
  have hrooted : (Path.absolute names).IsRooted :=
    Path.isRooted_absolute fun name hname => (hnames name hname).1.isSegment
  have hplace := (settle_of_locate hrooted hlocate).symm.trans hself
  rw [Prod.mk.injEq, List.reverse_inj] at hplace
  exact ⟨node, hplace.1 ▸ (node_of_locate hlocate).1.symm, hnode⟩

/-- Where names settle at something that is no link, the real path is one of a file only if that is
    a file. Two ways of looking at the same place are compared here: by its names, and by the text
    of its path. -/
theorem isFileNode_of_settle {p real : Path} {names : List String} {node : Node}
    (hsound : t.root.IsSound) (hreal : t.resolve p = .ok real)
    (hsettle : settle t.root (t.root.linkCount + 1) [] [] (t.namesFromRoot p) = (names.reverse, true))
    (hfind : t.root.find? names = some node) (hnode : ∀ target, node ≠ .link target)
    (hfile : t.isFile real.text = .ok true) : isFileNode node = true := by
  have hnames := hsound.isEntryName hfind
  have hstart : t.root.find? (([] : List String).reverse ++ names) = some node := hfind
  have hself := settle_of_find? (t.root.linkCount + 1) [] hnames hstart hnode
  rw [List.append_nil] at hself
  obtain ⟨found, hfound, hisFile⟩ := exists_file_of_settle hnames hreal hsettle hself hfile
  rw [hfind, Option.some_inj] at hfound
  exact hfound ▸ hisFile

/-- If the real path of a path is one of a file, the path leads to a file or nowhere. So it is safe
    to ask the real path instead of the path that was written. -/
theorem isFileNode_of_stat {p real : Path} {node : Node} (hsound : t.root.IsSound)
    (hrooted : p.IsRooted) (hstat : t.stat p.text = .ok node) (hreal : t.resolve p = .ok real)
    (hfile : t.isFile real.text = .ok true) : isFileNode node = true := by
  obtain ⟨names, hlocate⟩ := stat_ok_iff.mp hstat
  obtain ⟨hfind, hlink⟩ := node_of_locate hlocate
  refine isFileNode_of_settle hsound hreal ?_ hfind.symm
    (fun target heq => hlink rfl target (congrArg some heq)) hfile
  rw [namesFromRoot, if_pos hrooted.isAbsolute, settle_of_locate hrooted hlocate]

end FileTree

end Backlog.Files
