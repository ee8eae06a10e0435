import Backlog.Proofs.Files.Growth

namespace Backlog.Files

/-!
# Folders made in two trees alike

The outline of a tree says of each place whether a folder is there, and else which file or link.
Paths see no more of a tree on their way.

* `Node.mem_leavesBelow` — what is found and is no folder is among the leaves;
* `Node.outlineAt?_put` — a put changes the outline at and below its place only;
* `FileTree.Founds.find?_leaf` — making folders makes no file and no link;
* `FileTree.Founds.replay` — folders that are made in one tree can be made in another one as well, if
  the outlines differ in the place of a file only.
* `FileTree.SameFile` — a path leads to the same content with the same time; `sameFile_of_write` — all
  paths do but those to a file that is written.
-/

open Node

namespace Node

/-- A node without what it holds, if it is a folder. -/
def outline : Node → Node
  | .folder _ => .folder []
  | node => node

/-- What is in a place, but for the entries of a folder. -/
def outlineAt? (root : Node) (names : List String) : Option Node := (root.find? names).map outline

/-- The outline of a place below a folder is that of a place below one of its entries. -/
theorem outlineAt?_cons (entries : List (String × Node)) (name : String) (names : List String) :
    (Node.folder entries).outlineAt? (name :: names) =
      (childNamed? name entries).bind (·.outlineAt? names) := by
  rw [outlineAt?, find?, Option.map_bind]
  rfl

/-- What is passed in a place shows in its outline: folders are passed whatever is in them. -/
theorem passageAt?_eq_bind_outlineAt? (root : Node) (names : List String) :
    root.passageAt? names = (root.outlineAt? names).bind passage? := by
  rw [passageAt?, outlineAt?, Option.bind_map]
  congr 1
  funext node
  cases node <;> rfl

/-- Where there is no folder, the outline is what is there. The outline only leaves out what folders
    hold. -/
theorem outlineAt?_eq_some_iff {root node : Node} {names : List String}
    (h : ∀ entries, node ≠ .folder entries) :
    root.outlineAt? names = some node ↔ root.find? names = some node := by
  unfold outlineAt?
  cases root.find? names with
  | none => simp
  | some found =>
    cases found with
    | file _ _ | link _ | sealed _ => simp [outline]
    | folder entries =>
      simp only [Option.map_some, outline, Option.some.injEq]
      exact ⟨fun heq => absurd heq.symm (h []), fun heq => absurd heq.symm (h entries)⟩

/-- The outline of a place is an empty folder exactly if a folder is there, with or without
    entries. -/
theorem outlineAt?_eq_folder_iff {root : Node} {names : List String} :
    root.outlineAt? names = some (.folder []) ↔
      ∃ entries, root.find? names = some (.folder entries) := by
  unfold outlineAt?
  cases root.find? names with
  | none => simp
  | some found => cases found <;> simp [outline]

/-- There is no outline exactly where there is nothing. -/
theorem outlineAt?_eq_none_iff {root : Node} {names : List String} :
    root.outlineAt? names = none ↔ root.find? names = none :=
  Option.map_eq_none_iff

/-- A put changes the outline at and below its place only. Above the place, folders get another
    entry, which their outline does not show. -/
theorem outlineAt?_put {value : Option Node} {root : Node} {place names : List String}
    (h : ¬place <+: names) : (put value root place).outlineAt? names = root.outlineAt? names := by
  rcases find?_put_cases h with heq | ⟨_, _, _, hbefore, hafter⟩
  · rw [outlineAt?, outlineAt?, heq]
  · rw [outlineAt?, outlineAt?, hbefore, hafter]
    rfl

mutual

/-- What is found below a node, but for folders, each with the names that lead there. -/
def leavesBelow (before : List String) : Node → List (List String × Node)
  | .folder entries => entryLeavesBelow before entries
  | node => [(before, node)]

/-- What is found below the entries of a folder, but for folders. -/
def entryLeavesBelow (before : List String) : List (String × Node) → List (List String × Node)
  | [] => []
  | (name, node) :: rest => leavesBelow (before ++ [name]) node ++ entryLeavesBelow before rest

end

/-- The leaves below an entry are below the folder. Leaves are what is no folder, with their
    places. -/
theorem mem_entryLeavesBelow {name : String} {inner : Node} {entries : List (String × Node)}
    (h : childNamed? name entries = some inner) {before : List String} {leaf : List String × Node}
    (hleaf : leaf ∈ inner.leavesBelow (before ++ [name])) :
    leaf ∈ entryLeavesBelow before entries := by
  induction entries with
  | nil => cases h
  | cons e rest ih =>
    rw [entryLeavesBelow, List.mem_append]
    rw [childNamed?] at h
    split at h
    · rename_i hname
      obtain rfl := Option.some.inj h
      rw [hname]
      exact .inl hleaf
    · exact .inr (ih h)

/-- What is found and is no folder is among the leaves. So the finitely many leaves stand for all
    places that hold content, a time or a target. -/
theorem mem_leavesBelow {node leaf : Node} {names : List String}
    (h : node.find? names = some leaf) (hleaf : ∀ entries, leaf ≠ .folder entries)
    (before : List String) : (before ++ names, leaf) ∈ node.leavesBelow before := by
  induction names generalizing node before with
  | nil =>
    obtain rfl := Option.some.inj h
    cases node with
    | folder entries => exact absurd rfl (hleaf entries)
    | file _ _ | link _ | sealed _ => simp [leavesBelow]
  | cons name names ih =>
    cases node with
    | file _ _ | link _ | sealed _ => cases h
    | folder entries =>
      obtain ⟨inner, hchild, h⟩ := Option.bind_eq_some_iff.mp h
      rw [leavesBelow, List.append_cons]
      exact mem_entryLeavesBelow hchild (ih h _)

end Node

namespace FileTree

variable {t t' u u' : FileTree}

/-- Below a file there is nothing. Only folders have places below them. -/
theorem not_prefix_of_file {root node : Node} {place names : List String} {content : Text.Bytes}
    {time : Int} (hfile : root.find? place = some (.file content time))
    (hfound : root.find? names = some node) (hne : place ≠ names) : ¬place <+: names := by
  rintro ⟨more, rfl⟩
  rw [find?_append, hfile, Option.bind_some] at hfound
  cases more with
  | nil => exact hne (List.append_nil place).symm
  | cons next more => cases hfound

/-- Making folders makes no file and no link. What is found afterwards and is no folder was there
    before, in the same place. -/
theorem Founds.find?_leaf {node : Node} {names : List String} (h : t.Founds t')
    (hnode : ∀ entries, node ≠ .folder entries) (hfound : t'.root.find? names = some node) :
    t.root.find? names = some node := by
  induction h with
  | refl => exact hfound
  | @step t' above name entries _ habove hnone ih =>
    refine ih ?_
    by_cases hprefix : above ++ [name] <+: names
    · -- the new folder is empty
      obtain ⟨more, rfl⟩ := hprefix
      rw [find?_put_self habove] at hfound
      cases more with
      | nil => exact absurd (Option.some.inj hfound).symm (hnode _)
      | cons next more => cases hfound
    · rwa [← outlineAt?_eq_some_iff hnode, outlineAt?_put hprefix, outlineAt?_eq_some_iff hnode]
        at hfound

/-- Two trees look alike outside of a place. -/
structure AlikeOutside (place : List String) (t t' : FileTree) : Prop where
  here : t'.here = t.here
  outline : ∀ names, ¬place <+: names → t'.root.outlineAt? names = t.root.outlineAt? names

/-- Trees that differ by what was put in a place look alike outside of it. -/
theorem alikeOutside_put (t : FileTree) (value : Option Node) (place : List String) :
    AlikeOutside place t { t with root := t.root.put value place } :=
  ⟨rfl, fun _ => outlineAt?_put⟩

/-- The same new folder, made in two trees that look alike outside of a place. The two folders above
    may hold different entries, as long as they are folders. -/
theorem AlikeOutside.step {place above : List String} {name : String}
    {entries entries' : List (String × Node)} (h : AlikeOutside place t u)
    (habove : t.root.find? above = some (.folder entries))
    (habove' : u.root.find? above = some (.folder entries')) :
    AlikeOutside place { t with root := t.root.put (some (.folder [])) (above ++ [name]) }
      { u with root := u.root.put (some (.folder [])) (above ++ [name]) } where
  here := h.here
  outline := by
    intro names hnames
    by_cases hprefix : above ++ [name] <+: names
    · obtain ⟨more, rfl⟩ := hprefix
      rw [outlineAt?, outlineAt?, find?_put_self habove, find?_put_self habove']
    · rw [outlineAt?_put hprefix, outlineAt?_put hprefix, h.outline names hnames]

/-- Folders that are made in one tree can be made in another one as well, if the trees look alike
    outside of a place where the first has a file. The proof makes them one after the other in both
    trees. -/
theorem Founds.replay {place : List String} {content : Text.Bytes} {time : Int}
    (hfile : u.root.find? place = some (.file content time)) (halike : AlikeOutside place t u)
    (h : u.Founds u') : ∃ t', t.Founds t' ∧ AlikeOutside place t' u' := by
  induction h with
  | refl => exact ⟨t, .refl, halike⟩
  | @step u' above name entries hfounds habove hnone ih =>
    obtain ⟨t', ht', halike'⟩ := ih
    have hfile' := hfounds.find? hfile (fun _ => nofun)
    -- The new folder is not below the file, nor in its place.
    have hnot : ¬place <+: above :=
      not_prefix_of_file hfile' habove (by rintro rfl; rw [hfile'] at habove; cases habove)
    have hnone' := find?_concat habove name
    rw [hnone] at hnone'
    have hnot' : ¬place <+: above ++ [name] := by
      intro hprefix
      rcases List.prefix_concat_iff.mp hprefix with rfl | hprefix
      · rw [hfile'] at hnone'
        cases hnone'
      · exact hnot hprefix
    obtain ⟨entries', hfolder⟩ := outlineAt?_eq_folder_iff.mp
      ((halike'.outline above hnot).symm.trans (outlineAt?_eq_folder_iff.mpr ⟨entries, habove⟩))
    have hfree : childNamed? name entries' = none := by
      rw [← find?_concat hfolder, ← outlineAt?_eq_none_iff, ← halike'.outline _ hnot',
        outlineAt?_eq_none_iff, hnone']
    exact ⟨_, .step ht' hfolder hfree, halike'.step hfolder habove⟩

/-- A path leads to the same place in a tree that looks alike, unless it leads to a file in the
    place where they differ. A way through the tree meets folders and links only, and those are the
    same in both. -/
theorem AlikeOutside.locate {place : List String} {content : Text.Bytes} {time : Int} {text : String}
    {found : Place} (h : AlikeOutside place t u)
    (hfile : u.root.find? place = some (.file content time)) (hlocate : u.locate text = .ok found)
    (hnot : ¬place <+: found.names) :
    t.locate text = .ok ⟨found.names, t.root.find? found.names⟩ := by
  rw [locate_ok_iff] at hlocate ⊢
  rw [← h.here]
  refine ⟨hlocate.1, walk_of_passages ?_ _ _ _ hlocate.2 ?_⟩
  · intro q passage hpassage
    have hq : ¬place <+: q := by
      rintro ⟨more, rfl⟩
      rw [passageAt?_below (by rw [passageAt?, hfile]; rfl)] at hpassage
      cases hpassage
    rw [← hpassage, passageAt?_eq_bind_outlineAt?, passageAt?_eq_bind_outlineAt?, h.outline q hq]
  · intro target hlink
    -- No link stands at the end of the path.
    have hfound := node_of_locate (locate_ok_iff.mpr hlocate)
    have hleaf : ∀ entries, Node.link target ≠ .folder entries := by
      intro entries heq
      cases heq
    refine hfound.2 rfl target ?_
    rw [hfound.1, ← outlineAt?_eq_some_iff hleaf, h.outline _ hnot, outlineAt?_eq_some_iff hleaf,
      hlink]

/-! ### Files that are the same -/

/-- The content of the file that a path leads to. -/
def content? (t : FileTree) (path : String) : Option Text.Bytes := (t.read path).toOption

/-- A path leads to a file of the same content and of the same time in both trees, or to none. -/
def SameFile (t t' : FileTree) (path : String) : Prop :=
  t'.time? path = t.time? path ∧ t'.content? path = t.content? path

variable {path : String}

/-- What cannot be found has no content. Both questions begin by following the path. -/
theorem content?_of_time?_none (h : t.time? path = .ok none) : t.content? path = none := by
  rw [content?, read]
  rw [time?] at h
  cases hstat : t.stat path with
  | error fault => rfl
  | ok node => cases node <;> simp [hstat] at h

/-- In the same tree every path leads to the same file. -/
theorem SameFile.refl (t : FileTree) (path : String) : t.SameFile t path := ⟨rfl, rfl⟩

/-- What has a time is found. A folder has a time as well, so that nothing is said about the
    node. -/
theorem exists_locate_of_time? {time : Int} (h : t.time? path = .ok (some time)) :
    ∃ names node, t.locate path = .ok ⟨names, some node⟩ := by
  rw [time?] at h
  cases hstat : t.stat path with
  | error fault => cases fault <;> simp [hstat] at h
  | ok node =>
    obtain ⟨names, hlocate⟩ := stat_ok_iff.mp hstat
    exact ⟨names, node, hlocate⟩

/-- Only the outline of what a path leads to matters for its content and its time. Folders count as
    never changed and have no content, whatever is in them. -/
theorem sameFile_of_outline {names names' : List String} {node node' : Node}
    (h : t.locate path = .ok ⟨names, some node⟩) (h' : t'.locate path = .ok ⟨names', some node'⟩)
    (houtline : node'.outline = node.outline) : t.SameFile t' path := by
  have hstat := stat_ok_iff.mpr ⟨names, h⟩
  have hstat' := stat_ok_iff.mpr ⟨names', h'⟩
  rw [SameFile, time?, time?, content?, content?, read, read, hstat, hstat']
  cases node <;> cases node' <;> simp_all [outline, bind, Except.bind]

/-- In a tree that looks alike outside of the place of a file, a path leads to what it led to, or to
    nothing, or to the file. It may come to nothing where the new tree has a file in place of a
    folder, or a link is gone. -/
theorem AlikeOutside.sameFile {place : List String} {content : Text.Bytes} {time : Int}
    (h : AlikeOutside place t t') (hfile : t'.root.find? place = some (.file content time))
    (path : String) :
    t.SameFile t' path ∨ t'.time? path = .ok none ∨ t'.time? path = .ok (some time) := by
  cases htime : t'.time? path with
  | error fault =>
    obtain ⟨rfl, hnul⟩ := time?_error_iff.mp htime
    refine .inl ⟨?_, ?_⟩
    · rw [htime, time?_error_iff.mpr ⟨rfl, hnul⟩]
    · rw [content?, content?, read_eq_nul_iff.mpr hnul, read_eq_nul_iff.mpr hnul]
  | ok time? =>
    cases time? with
    | none => exact .inr (.inl rfl)
    | some time' =>
      obtain ⟨names, node, hlocate⟩ := exists_locate_of_time? htime
      have hnode : t'.root.find? names = some node := (node_of_locate hlocate).1.symm
      by_cases hnames : place = names
      · -- this is the file itself
        subst hnames
        obtain rfl := Option.some.inj (hfile.symm.trans hnode)
        rw [time?, stat_ok_iff.mpr ⟨place, hlocate⟩] at htime
        exact .inr (.inr htime.symm)
      · have hnot := not_prefix_of_file hfile hnode hnames
        have hbefore := h.locate hfile hlocate hnot
        have houtline := h.outline names hnot
        rw [outlineAt?, outlineAt?, hnode] at houtline
        obtain ⟨node', hnode', heq⟩ := Option.map_eq_some_iff.mp houtline.symm
        rw [hnode'] at hbefore
        exact .inl (sameFile_of_outline hbefore hlocate heq.symm)

/-- When a file is written, every path leads to what it led to, or to nothing, or to what is new.
    This is why a tracked file that keeps its time has kept its content. -/
theorem sameFile_of_write {written : String} {old content : Text.Bytes} {time : Int}
    (hread : t.read written = .ok old) (h : t.write written content time = .ok t')
    (path : String) :
    t.SameFile t' path ∨ t'.time? path = .ok none ∨ t'.time? path = .ok (some time) := by
  obtain ⟨names, since, hlocate, rfl⟩ := exists_place_of_write hread h
  exact (alikeOutside_put t _ names).sameFile
    (find?_put_of_find? (node_of_locate hlocate).1.symm _) path

end FileTree

end Backlog.Files
