import Backlog.Proofs.Files.Places
import Backlog.Proofs.Files.RealPaths

namespace Backlog.Files

open Node

/-!
# Folders that list their entries in another order

Nothing that is asked of a tree by paths depends on the order in which its folders list their
entries.

* `Node.Relisted` — the same tree with entries in another order;
  `Node.Relisted.tidy_and_outlineAt?` — it has the same outline in every place;
* `FileTree.Resembles` — trees with the same outline and as many links;
* `FileTree.Resembles.stat_eq`, `FileTree.Resembles.leadsTo_eq`, `FileTree.Resembles.resolve_eq` — in
  such trees paths lead to the same, and have the same real paths.
-/

namespace Node

/-! ### Entries in another order -/

/-- What is found under a name is just what is listed under it, if names differ. -/
theorem childNamed?_eq_some_iff {name : String} {inner : Node} {entries : List (String × Node)}
    (h : (entries.map Prod.fst).Nodup) :
    childNamed? name entries = some inner ↔ (name, inner) ∈ entries := by
  induction entries with
  | nil => simp [childNamed?]
  | cons e rest ih =>
    obtain ⟨other, node⟩ := e
    rw [List.map_cons, List.nodup_cons] at h
    rw [childNamed?, List.mem_cons, ← ih h.2, Prod.mk.injEq]
    by_cases hname : other = name
    · subst hname
      have hnone : childNamed? other rest = none := childNamed?_eq_none_iff.mpr h.1
      simp [hnone, eq_comm]
    · simp [hname, Ne.symm hname]

/-- The order of the entries does not matter for looking one up, if names differ. -/
theorem childNamed?_of_perm {entries entries' : List (String × Node)} (h : entries.Perm entries')
    (hnodup : (entries.map Prod.fst).Nodup) (name : String) :
    childNamed? name entries' = childNamed? name entries := by
  have hnodup' : (entries'.map Prod.fst).Nodup := (h.map Prod.fst).nodup_iff.mp hnodup
  ext inner
  rw [childNamed?_eq_some_iff hnodup', childNamed?_eq_some_iff hnodup, h.mem_iff]

/-- The same tree, with the entries of some folders in another order. -/
inductive Relisted : Node → Node → Prop
  | refl (node : Node) : Relisted node node
  | trans {node node' node'' : Node} (h : Relisted node node') (h' : Relisted node' node'') :
      Relisted node node''
  | folder {entries entries' : List (String × Node)} (h : entries.Perm entries') :
      Relisted (.folder entries) (.folder entries')
  /-- A change of order further below. -/
  | entry {entries : List (String × Node)} {name : String} {inner inner' : Node}
      (hchild : childNamed? name entries = some inner) (h : Relisted inner inner') :
      Relisted (.folder entries) (.folder (setEntry name (some inner') entries))

/-- The order of the entries does not matter for counting links. -/
theorem entryLinkCount_of_perm {entries entries' : List (String × Node)} (h : entries.Perm entries') :
    entryLinkCount entries' = entryLinkCount entries := by
  induction h with
  | nil => rfl
  | cons e _ ih => rw [entryLinkCount, entryLinkCount, ih]
  | swap e f rest =>
    simp only [entryLinkCount]
    omega
  | trans _ _ ih ih' => rw [ih', ih]

/-- A tree that is listed in another order has as many links. -/
theorem Relisted.linkCount_eq {root root' : Node} (h : root.Relisted root') :
    root'.linkCount = root.linkCount := by
  induction h with
  | refl => rfl
  | trans _ _ ih ih' => rw [ih', ih]
  | folder h => exact entryLinkCount_of_perm h
  | entry hchild _ ih =>
    refine entryLinkCount_setEntry (fun old hold => ?_) fun hnone => ?_
    · rw [hchild, Option.some_inj] at hold
      rw [← hold, ih]
    · rw [hchild] at hnone
      cases hnone

/-- What is listed in another order has the same outline everywhere, and no name twice. The
    induction is on how the trees are listed, with both facts at once, since the second needs the
    first. -/
theorem Relisted.tidy_and_outlineAt? {root root' : Node} (h : root.Relisted root')
    (htidy : root.Tidy) :
    root'.Tidy ∧ ∀ names, root'.outlineAt? names = root.outlineAt? names := by
  induction h with
  | refl => exact ⟨htidy, fun _ => rfl⟩
  | trans _ _ ih ih' =>
    obtain ⟨htidy', hsame⟩ := ih htidy
    obtain ⟨htidy'', hsame'⟩ := ih' htidy'
    exact ⟨htidy'', fun names => (hsame' names).trans (hsame names)⟩
  | @folder entries entries' h =>
    obtain ⟨hnodup, hinner⟩ := tidy_folder_iff.mp htidy
    have hchild := childNamed?_of_perm h hnodup
    refine ⟨tidy_folder_iff.mpr ⟨(h.map Prod.fst).nodup_iff.mp hnodup, fun name inner hfound => ?_⟩,
      fun names => ?_⟩
    · exact hinner name inner (hchild name ▸ hfound)
    · cases names with
      | nil => rfl
      | cons name names => rw [outlineAt?_cons, outlineAt?_cons, hchild]
  | @entry entries name inner inner' hchild _ ih =>
    obtain ⟨hnodup, hinner⟩ := tidy_folder_iff.mp htidy
    obtain ⟨htidy', hsame⟩ := ih (hinner name inner hchild)
    refine ⟨tidy_folder_iff.mpr ⟨nodup_setEntry hnodup, fun other found hfound => ?_⟩,
      fun names => ?_⟩
    -- Only the entry of the name is another one.
    · by_cases hother : other = name
      · rw [hother, childNamed?_setEntry_some, Option.some_inj] at hfound
        exact hfound ▸ htidy'
      · rw [childNamed?_setEntry_of_ne hother] at hfound
        exact hinner other found hfound
    · cases names with
      | nil => rfl
      | cons other names =>
        rw [outlineAt?_cons, outlineAt?_cons]
        by_cases hother : other = name
        · rw [hother, childNamed?_setEntry_some, hchild]
          exact hsame names
        · rw [childNamed?_setEntry_of_ne hother]

end Node

/-! ### Trees with the same outline -/

/-- Where a path leads, and the outline of what is there. -/
def Place.outline (place : Place) : Place := ⟨place.names, place.node.map Node.outline⟩

namespace FileTree

/-- The same tree, with the entries of some folders in another order. -/
structure Relists (t t' : FileTree) : Prop where
  here : t'.here = t.here
  root : t.root.Relisted t'.root

/-- Two trees have the same outline, and as many links. -/
structure Resembles (t t' : FileTree) : Prop where
  here : t'.here = t.here
  count : t'.root.linkCount = t.root.linkCount
  outline : ∀ names, t'.root.outlineAt? names = t.root.outlineAt? names

/-- A tidy file system that is listed in another order resembles the first. -/
theorem Relists.resembles {t t' : FileTree} (h : t.Relists t') (htidy : t.root.Tidy) :
    t.Resembles t' :=
  ⟨h.here, h.root.linkCount_eq, (h.root.tidy_and_outlineAt? htidy).2⟩

variable {t t' : FileTree}

/-- What is no folder stands in a place of both trees or of neither, if the place has the same
    outline. -/
theorem find?_iff_of_outline {root root' node : Node} {names : List String}
    (h : root'.outlineAt? names = root.outlineAt? names)
    (hleaf : ∀ entries, node ≠ .folder entries) :
    root'.find? names = some node ↔ root.find? names = some node := by
  rw [← outlineAt?_eq_some_iff hleaf, h, outlineAt?_eq_some_iff hleaf]

/-- File systems that resemble each other have the same links. -/
theorem Resembles.linksAlike (h : t.Resembles t') : t.LinksAlike t' where
  here := h.here
  count := h.count
  link names target := find?_iff_of_outline (h.outline names) (by simp)

/-- A walk leads to the same place, and what is there differs at most in the entries of a folder.
    Only the outline of folders on the way is looked at. -/
theorem walk_of_outline {root root' : Node}
    (h : ∀ names, root'.outlineAt? names = root.outlineAt? names) (followLast : Bool) (links : Nat)
    (start rest : List String) :
    (walk root' followLast links start rest).map Place.outline =
      (walk root followLast links start rest).map Place.outline := by
  match rest with
  | [] =>
    rw [walk, walk]
    exact congrArg (fun found => Except.ok (Place.mk start.reverse found)) (h start.reverse)
  | name :: rest =>
    have hhere := h start.reverse
    cases hfound : root.find? start.reverse with
    | none =>
      have hfound' := outlineAt?_eq_none_iff.mp (hhere.trans (outlineAt?_eq_none_iff.mpr hfound))
      rw [walk, walk, hfound, hfound']
    | some node =>
      cases node with
      | file _ _ | link _ =>
        have hfound' := (find?_iff_of_outline hhere (by simp)).mpr hfound
        rw [walk, walk, hfound, hfound']
      | sealed listed =>
        have hfound' := (find?_iff_of_outline hhere (by simp)).mpr hfound
        by_cases hempty : name = ""
        · rw [hempty, walk_slash (passageAt?_eq_sealed_iff.mpr ⟨listed, hfound⟩),
            walk_slash (passageAt?_eq_sealed_iff.mpr ⟨listed, hfound'⟩)]
          exact walk_of_outline h followLast links start rest
        · have hnames : ∃ n ∈ name :: rest, n ≠ "" := ⟨name, List.mem_cons_self, hempty⟩
          rw [walk_sealed hfound hnames, walk_sealed hfound' hnames]
      | folder entries =>
        obtain ⟨entries', hfound'⟩ := outlineAt?_eq_folder_iff.mp
          (hhere.trans (outlineAt?_eq_folder_iff.mpr ⟨entries, hfound⟩))
        have hpassage := passageAt?_eq_folder_iff.mpr ⟨entries, hfound⟩
        have hpassage' := passageAt?_eq_folder_iff.mpr ⟨entries', hfound'⟩
        by_cases hidle : Path.isIdle name = true
        · rw [walk_idle hpassage hidle, walk_idle hpassage' hidle]
          exact walk_of_outline h followLast links start rest
        by_cases hup : name = ".."
        · subst hup
          rw [walk_up hpassage, walk_up hpassage']
          exact walk_of_outline h followLast links start.tail rest
        by_cases hlong : maxNameSize < name.utf8ByteSize
        · rw [walk, walk, hfound, hfound']
          simp only [hidle, hup, hlong, if_true, if_false, Bool.false_eq_true]
        have hname : Path.IsDown name := ⟨by simpa using hidle, hup, Nat.not_lt.mp hlong⟩
        have hchild := h (start.reverse ++ [name])
        rw [outlineAt?, outlineAt?, find?_concat hfound, find?_concat hfound'] at hchild
        rw [walk_down hfound hname, walk_down hfound' hname]
        cases hentry : childNamed? name entries with
        | none =>
          rw [hentry, Option.map_none, Option.map_eq_none_iff] at hchild
          rw [hchild]
        | some inner =>
          -- Both entries of this name have the same outline, so that the walks go on alike.
          rw [hentry, Option.map_some, Option.map_eq_some_iff] at hchild
          obtain ⟨inner', hentry', houtline⟩ := hchild
          rw [hentry']
          cases inner with
          | file _ _ | folder _ | sealed _ =>
            cases inner' <;> simp only [Node.outline, reduceCtorEq] at houtline
            exact walk_of_outline h followLast links (name :: start) rest
          | link target =>
            cases inner' <;> simp only [Node.outline, reduceCtorEq] at houtline
            obtain rfl := Node.link.inj houtline
            simp only
            split
            · rfl
            · cases links with
              | zero => rfl
              | succ links => exact walk_of_outline h followLast links _ _
termination_by (links, rest.length)

/-- A path leads to the same place. It is refused with the same fault, or not refused in either. -/
theorem Resembles.locate_eq (h : t.Resembles t') (path : String) (followLast : Bool) :
    (t'.locate path followLast).map Place.outline = (t.locate path followLast).map Place.outline := by
  unfold locate
  rw [h.here]
  split
  · rfl
  · split
    · rfl
    · split
      · rfl
      · exact walk_of_outline h.outline _ _ _ _

/-- A path leads to something with the same outline. If it leads nowhere in the one, it does not in
    the other. -/
theorem Resembles.stat_eq (h : t.Resembles t') (path : String) :
    (t'.stat path).map Node.outline = (t.stat path).map Node.outline := by
  have hlocate := h.locate_eq path true
  have hstat : ∀ u : FileTree, (u.stat path).map Node.outline =
      match (u.locate path).map Place.outline with
      | .ok ⟨_, some node⟩ => .ok node
      | .ok ⟨_, none⟩ => .error .missing
      | .error fault => .error fault := by
    intro u
    unfold stat
    cases u.locate path with
    | error fault => rfl
    | ok place =>
      obtain ⟨names, node⟩ := place
      cases node <;> rfl
  rw [hstat, hstat, hlocate]

/-- A path is refused alike, or leads to something with the same outline. This is the lemma before
    as a case distinction. -/
theorem Resembles.stat_cases (h : t.Resembles t') (path : String) :
    (∃ fault, t.stat path = .error fault ∧ t'.stat path = .error fault) ∨
      ∃ node node', t.stat path = .ok node ∧ t'.stat path = .ok node' ∧
        node'.outline = node.outline := by
  have hstat := h.stat_eq path
  cases hbefore : t.stat path with
  | error fault =>
    cases hafter : t'.stat path with
    | error fault' =>
      rw [hbefore, hafter] at hstat
      obtain rfl := Except.error.inj hstat
      exact .inl ⟨fault', rfl, rfl⟩
    | ok node' =>
      rw [hbefore, hafter] at hstat
      cases hstat
  | ok node =>
    cases hafter : t'.stat path with
    | error fault' =>
      rw [hbefore, hafter] at hstat
      cases hstat
    | ok node' =>
      rw [hbefore, hafter] at hstat
      exact .inr ⟨node, node', rfl, rfl, Except.ok.inj hstat⟩

/-- A test of the outline is passed alike. Such a test does not ask what is in a folder. -/
theorem Resembles.leadsTo_eq (h : t.Resembles t') {path : String} {test : Node → Bool}
    (htest : ∀ node : Node, test node.outline = test node) :
    t'.leadsTo path test = t.leadsTo path test := by
  unfold leadsTo
  obtain ⟨fault, hbefore, hafter⟩ | ⟨node, node', hbefore, hafter, houtline⟩ := h.stat_cases path
  · rw [hbefore, hafter]
  · simp only [hbefore, hafter]
    rw [← htest node', houtline, htest]

theorem Resembles.isFile_eq (h : t.Resembles t') (path : String) : t'.isFile path = t.isFile path :=
  h.leadsTo_eq fun node => by cases node <;> rfl

theorem Resembles.isFolder_eq (h : t.Resembles t') (path : String) :
    t'.isFolder path = t.isFolder path :=
  h.leadsTo_eq fun node => by cases node <;> rfl

/-- A path has the same real path. Where names do not settle, the system is asked whether there is a
    loop, and answers alike. -/
theorem Resembles.resolve_eq (h : t.Resembles t') (p : Path) : t'.resolve p = t.resolve p := by
  unfold resolve
  rw [h.linksAlike.settle_eq]
  generalize settle t.root (t.root.linkCount + 1) [] [] (t.namesFromRoot p) = settled
  -- Only whether there are too many links is asked of what a path that does not settle leads to.
  obtain ⟨fault, hbefore, hafter⟩ | ⟨node, node', hbefore, hafter, _⟩ :=
    h.stat_cases (writtenPath settled.1.reverse).collapsed.text
  · simp only [hbefore, hafter]
  · simp only [hbefore, hafter]

end FileTree

end Backlog.Files
