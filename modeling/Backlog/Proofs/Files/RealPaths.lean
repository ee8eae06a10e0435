import Backlog.Proofs.Files.Outlines

namespace Backlog.Files

open Node

/-!
# Real paths

The real path of a path depends on nothing but the links of a tree.

* `FileTree.settle_nil`, `settle_idle`, `settle_dots`, `settle_down`, `settle_follow`,
  `settle_through`, `settle_barred` — what following a path does with its first name;
* `FileTree.LinksAlike` — two trees have the same links; `linksAlike_put`, `Founds.linksAlike` — so it
  is when something without links takes the place of something without links;
* `FileTree.settle_of_linksAlike` — then paths are followed alike, and `LinksAlike.resolve` — have the
  same real path, if no link on the way leads back to itself;
* `FileTree.resolve_of_linkCount` — without links the real path is the path from the root.
-/

namespace Node

/-- The links of an entry are among those of the folder. -/
theorem linkCount_le {name : String} {inner : Node} {entries : List (String × Node)}
    (h : childNamed? name entries = some inner) : inner.linkCount ≤ entryLinkCount entries := by
  induction entries with
  | nil => cases h
  | cons e rest ih =>
    rw [childNamed?] at h
    rw [entryLinkCount]
    split at h
    · obtain rfl := Option.some.inj h
      exact Nat.le_add_right _ _
    · exact Nat.le_trans (ih h) (Nat.le_add_left _ _)

/-- Where no links are counted there are none. The induction is along the names, each of which leads
    into a tree without links again. -/
theorem find?_ne_link {node : Node} (h : node.linkCount = 0) (names : List String)
    (target : String) : node.find? names ≠ some (.link target) := by
  induction names generalizing node with
  | nil =>
    rintro heq
    obtain rfl := Option.some.inj heq
    cases h
  | cons name names ih =>
    cases node with
    | file _ _ | sealed _ =>
      intro heq
      cases heq
    | link _ => cases h
    | folder entries =>
      rw [find?]
      cases hchild : childNamed? name entries with
      | none =>
        intro heq
        cases heq
      | some inner =>
        exact ih (Nat.le_zero.mp (Nat.le_trans (linkCount_le hchild) (Nat.le_of_eq h)))

/-- The links below a folder are those of the entry of a name and of the others. Their number is
    kept if the new entry has as many as the old one. -/
theorem entryLinkCount_setEntry {name : String} {new : Node} {entries : List (String × Node)}
    (h : ∀ old, childNamed? name entries = some old → old.linkCount = new.linkCount)
    (hnone : childNamed? name entries = none → new.linkCount = 0) :
    entryLinkCount (setEntry name (some new) entries) = entryLinkCount entries := by
  induction entries with
  | nil => simp [setEntry, entryLinkCount, hnone rfl]
  | cons e rest ih =>
    obtain ⟨other, node⟩ := e
    rw [setEntry]
    by_cases hname : other = name
    · subst hname
      simp [entryLinkCount, h node (by simp [childNamed?])]
    · rw [if_neg hname, entryLinkCount, entryLinkCount, ih]
      · intro old hold
        exact h old (by simp [childNamed?, hname, hold])
      · intro hrest
        exact hnone (by simp [childNamed?, hname, hrest])

/-- A put changes the number of links by those in its place. The count is the fuel for settling
    names, so it is compared along with the links. -/
theorem linkCount_put {root new : Node} {place : List String}
    {entries : List (String × Node)} {name : String}
    (hfolder : root.find? place = some (.folder entries))
    (h : ∀ old, childNamed? name entries = some old → old.linkCount = new.linkCount)
    (hnone : childNamed? name entries = none → new.linkCount = 0) :
    (put (some new) root (place ++ [name])).linkCount = root.linkCount := by
  induction place generalizing root with
  | nil =>
    obtain rfl := Option.some.inj hfolder
    exact entryLinkCount_setEntry h hnone
  | cons next place ih =>
    cases root with
    | file _ _ | link _ | sealed _ => cases hfolder
    | folder outer =>
      obtain ⟨inner, hinner, hfolder⟩ := Option.bind_eq_some_iff.mp hfolder
      rw [List.cons_append, put_cons (by simp) hinner]
      refine entryLinkCount_setEntry (fun old hold => ?_) fun hnone => ?_
      · rw [hinner] at hold
        rw [ih hfolder, Option.some.inj hold]
      · rw [hinner] at hnone
        cases hnone

end Node

namespace FileTree

variable {t t' : FileTree}

/-- Two trees have the same links. -/
structure LinksAlike (t t' : FileTree) : Prop where
  here : t'.here = t.here
  count : t'.root.linkCount = t.root.linkCount
  link : ∀ names target,
    t'.root.find? names = some (.link target) ↔ t.root.find? names = some (.link target)

theorem LinksAlike.refl (t : FileTree) : t.LinksAlike t := ⟨rfl, rfl, fun _ _ => .rfl⟩

/-- To have the same links goes on from tree to tree. -/
theorem LinksAlike.trans {t'' : FileTree} (h : t.LinksAlike t') (h' : t'.LinksAlike t'') :
    t.LinksAlike t'' :=
  ⟨h'.here.trans h.here, h'.count.trans h.count,
    fun names target => (h'.link names target).trans (h.link names target)⟩

/-- Something without links takes the place of something without links. Files and folders without
    links can come and go in this way. -/
theorem linksAlike_put {new : Node} {place : List String} {entries : List (String × Node)}
    {name : String} (hfolder : t.root.find? place = some (.folder entries))
    (hnew : new.linkCount = 0)
    (hold : ∀ old, childNamed? name entries = some old → old.linkCount = 0) :
    t.LinksAlike { t with root := t.root.put (some new) (place ++ [name]) } where
  here := rfl
  count := linkCount_put hfolder (fun old h => (hold old h).trans hnew.symm) fun _ => hnew
  link := by
    intro names target
    have hleaf : ∀ entries, Node.link target ≠ .folder entries := fun _ => nofun
    by_cases hprefix : place ++ [name] <+: names
    · obtain ⟨more, rfl⟩ := hprefix
      rw [find?_put_self hfolder, find?_append, find?_concat hfolder]
      -- Neither below what was there nor below what is new is there a link.
      refine iff_of_false (find?_ne_link hnew _ _) ?_
      cases hchild : childNamed? name entries with
      | none => exact nofun
      | some old => exact find?_ne_link (hold old hchild) _ _
    · rw [← outlineAt?_eq_some_iff hleaf, outlineAt?_put hprefix, outlineAt?_eq_some_iff hleaf]

theorem Founds.linksAlike (h : t.Founds t') : t.LinksAlike t' := by
  induction h with
  | refl => exact .refl t
  | step _ habove hnone ih =>
    exact ih.trans (linksAlike_put habove rfl fun old hold => by rw [hnone] at hold; cases hold)

/-! ### The steps of following a path -/

section Steps

variable {root : Node} {fuel : Nat} {active : List (List String)} {name target : String}
  {reversed found rest : List String}

/-- No names are left: one stands where they have led. -/
theorem settle_nil : settle root fuel active reversed [] = (reversed, true) := by
  rw [settle]

theorem settle_idle (hidle : Path.isIdle name = true) :
    settle root fuel active reversed (name :: rest) = settle root fuel active reversed rest := by
  rw [settle, if_pos hidle]

/-- Two points lead to the folder above; at the root there is none, and one stays. -/
theorem settle_dots :
    settle root fuel active reversed (".." :: rest) =
      settle root fuel active reversed.tail rest := by
  rw [settle, if_neg (by decide), if_pos rfl]

/-- A name that is no link is taken as it is. It may be a file, a folder, or nothing at all. -/
theorem settle_down (hidle : ¬Path.isIdle name = true) (hup : name ≠ "..")
    (hno : ∀ target, root.find? (name :: reversed).reverse ≠ some (.link target)) :
    settle root fuel active reversed (name :: rest) =
      settle root fuel active (name :: reversed) rest := by
  rw [settle, if_neg hidle, if_neg hup]
  dsimp only
  split
  · exact absurd ‹_› (hno _)
  · rfl

/-- A link is followed as far as the names of its target go. If they do not settle, what is left of
    the way is written down behind them. -/
theorem settle_follow {settled : Bool} (hidle : ¬Path.isIdle name = true) (hup : name ≠ "..")
    (hlink : root.find? (name :: reversed).reverse = some (.link target))
    (hactive : ¬active.contains (name :: reversed) = true)
    (hfound : settle root fuel ((name :: reversed) :: active)
      (if target.startsWith "/" then [] else reversed) (namesOf target) = (found, settled)) :
    settle root (fuel + 1) active reversed (name :: rest) =
      if settled then settle root (fuel + 1) active found rest else (leftOver found rest, false) := by
  rw [settle, if_neg hidle, if_neg hup]
  simp only [hlink]
  rw [if_neg hactive, hfound]
  cases settled <;> rfl

/-- Where those settle, the rest of the way begins. The fuel is given back, since the link is done
    with. -/
theorem settle_through (hidle : ¬Path.isIdle name = true) (hup : name ≠ "..")
    (hlink : root.find? (name :: reversed).reverse = some (.link target))
    (hactive : ¬active.contains (name :: reversed) = true)
    (hfound : settle root fuel ((name :: reversed) :: active)
      (if target.startsWith "/" then [] else reversed) (namesOf target) = (found, true)) :
    settle root (fuel + 1) active reversed (name :: rest) =
      settle root (fuel + 1) active found rest := by
  rw [settle_follow hidle hup hlink hactive hfound, if_pos rfl]

/-- A link that is being followed, or that no fuel is left for, is not followed. The names are then
    taken as they are written, the link among them. -/
theorem settle_barred (hidle : ¬Path.isIdle name = true) (hup : name ≠ "..")
    (hlink : root.find? (name :: reversed).reverse = some (.link target))
    (hbarred : fuel = 0 ∨ active.contains (name :: reversed) = true) :
    settle root fuel active reversed (name :: rest) =
      (leftOver (name :: reversed) rest, false) := by
  rw [settle, if_neg hidle, if_neg hup]
  simp only [hlink]
  cases fuel with
  | zero => rfl
  | succ fuel => exact if_pos (hbarred.resolve_left (Nat.succ_ne_zero fuel))

end Steps

/-- Paths are followed alike in trees with the same links. Nothing but links is looked at when names
    settle. -/
theorem settle_of_linksAlike {root root' : Node}
    (h : ∀ names target,
      root'.find? names = some (.link target) ↔ root.find? names = some (.link target))
    (fuel : Nat) (active : List (List String)) (reversed rest : List String) :
    settle root' fuel active reversed rest = settle root fuel active reversed rest := by
  fun_induction settle root fuel active reversed rest with
  | case1 => exact settle_nil
  | case2 _ _ _ _ _ hidle ih => rw [settle_idle hidle, ih]
  | case3 _ _ _ _ _ ih => rw [settle_dots, ih]
  | case4 _ _ _ _ hidle hup _ target hlink =>
    exact settle_barred hidle hup ((h _ target).mpr hlink) (.inl rfl)
  | case5 _ _ _ _ hidle hup _ target hlink _ hactive =>
    exact settle_barred hidle hup ((h _ target).mpr hlink) (.inr hactive)
  | case6 _ _ _ _ hidle hup _ target hlink _ hactive _ _ hfound ihlink ih =>
    rw [settle_through hidle hup ((h _ target).mpr hlink) hactive (ihlink.trans hfound), ih]
  | case7 _ _ _ _ hidle hup _ target hlink _ hactive _ _ hfound ihlink =>
    rw [settle_follow hidle hup ((h _ target).mpr hlink) hactive (ihlink.trans hfound)]
    exact if_neg Bool.false_ne_true
  | case8 _ _ _ _ _ hidle hup _ hno ih =>
    rw [settle_down hidle hup fun target hlink => hno target ((h _ target).mp hlink), ih]

/-- Following a path does not come to a link that leads back to itself. -/
def Settles (t : FileTree) (p : Path) : Prop :=
  (settle t.root (t.root.linkCount + 1) [] [] (t.namesFromRoot p)).2 = true

/-- In trees with the same links, the names of a path settle alike, with the fuel of each tree. -/
theorem LinksAlike.settle_eq (h : t.LinksAlike t') (p : Path) :
    settle t'.root (t'.root.linkCount + 1) [] [] (t'.namesFromRoot p) =
      settle t.root (t.root.linkCount + 1) [] [] (t.namesFromRoot p) := by
  rw [namesFromRoot, h.here, h.count, ← namesFromRoot]
  exact settle_of_linksAlike h.link _ _ _ _

/-- A path without NUL that settles has a real path, and any other one that settles has none. The
    collapsing only matters where a link target held a `..` that was left over. -/
theorem Settles.resolve_eq {p : Path} (h : t.Settles p) :
    t.resolve p = if p.names.any (fun n => n.toList.contains '\x00') then .error .nul
      else .ok (Path.absolute (Path.collapseNames true
        (settle t.root (t.root.linkCount + 1) [] [] (t.namesFromRoot p)).1.reverse)) := by
  rw [resolve]
  simp only [show (settle t.root (t.root.linkCount + 1) [] [] (t.namesFromRoot p)).2 = true from h,
    if_true]

/-- Trees with the same links have the same real paths. A path that does not settle is another
    matter, as the system is then asked what is there. -/
theorem LinksAlike.resolve (h : t.LinksAlike t') {p : Path} (hsettles : t.Settles p) :
    t'.Settles p ∧ t'.resolve p = t.resolve p := by
  have hsettles' : t'.Settles p := by
    rw [Settles, h.settle_eq]
    exact hsettles
  refine ⟨hsettles', ?_⟩
  rw [hsettles.resolve_eq, hsettles'.resolve_eq, h.settle_eq]

/-! ### Trees without links -/

/-- Without links a path is taken as it is. Neither the fuel nor the list of links is ever
    touched. -/
theorem settle_of_linkCount {root : Node} (h : root.linkCount = 0) (fuel : Nat)
    (active : List (List String)) {rest : List String}
    (hrest : ∀ name ∈ rest, Path.isIdle name = false ∧ name ≠ "..") (reversed : List String) :
    settle root fuel active reversed rest = (rest.reverse ++ reversed, true) := by
  induction rest generalizing reversed with
  | nil => rw [settle_nil, List.reverse_nil, List.nil_append]
  | cons name rest ih =>
    obtain ⟨⟨hidle, hup⟩, hrest⟩ := List.forall_mem_cons.mp hrest
    rw [settle_down (by simp [hidle]) hup (find?_ne_link h _), ih hrest, List.reverse_cons,
      List.append_assoc, List.singleton_append]

theorem collapseNames_of_ne_up {names : List String} (h : ∀ name ∈ names, name ≠ "..") :
    Path.collapseNames true names = names := by
  have hfold : ∀ reversed, names.foldl (Path.collapseStep true) reversed =
      names.reverse ++ reversed := by
    induction names with
    | nil => exact fun _ => rfl
    | cons name names ih =>
      obtain ⟨hup, hnames⟩ := List.forall_mem_cons.mp h
      intro reversed
      have hstep : Path.collapseStep true reversed name = name :: reversed := if_neg hup
      rw [List.foldl_cons, hstep, ih hnames, List.reverse_cons, List.append_assoc,
        List.singleton_append]
  rw [Path.collapseNames, hfold, List.append_nil, List.reverse_reverse]

/-- In a tree without links the real path is the path from the root. It begins at the current folder
    if the path is a relative one. -/
theorem resolve_of_linkCount (h : t.root.linkCount = 0) {p : Path}
    (hnames : ∀ name ∈ t.namesFromRoot p, Path.isIdle name = false ∧ name ≠ "..")
    (hnul : ∀ name ∈ p.names, '\x00' ∉ name.toList) :
    t.Settles p ∧ t.resolve p = .ok (Path.absolute (t.namesFromRoot p)) := by
  have hsettle := settle_of_linkCount h (t.root.linkCount + 1) [] hnames []
  have hsettles : t.Settles p := by rw [Settles, hsettle]
  refine ⟨hsettles, ?_⟩
  rw [hsettles.resolve_eq, hsettle, if_neg (by simpa using hnul), List.append_nil,
    List.reverse_reverse, collapseNames_of_ne_up fun name hname => (hnames name hname).2]

end FileTree

end Backlog.Files
