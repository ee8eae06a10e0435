import Backlog.Proofs.Files.Collapsing

namespace Backlog.Files

open Node

/-!
# Names that a real path has

Resolving a path follows its links until there are none left. What comes out are names that lead
down from the root through folders only, and such names resolve to themselves. The one exception is
a link that leads back to itself: it is given up on, and what is behind it is left as it is written,
so that the result need not be a real path.

* `FileTree.IsReal` — names that lead down from the root, through no link;
* `FileTree.isReal_of_settle` — where names settle, the place has such names; and such names settle as
  they are: `IsReal.settle_eq`, `IsReal.resolve_eq`;
* `FileTree.exists_settle_of_stat` — a path that leads somewhere settles there;
* `FileTree.IsRealPath` — a path of such names; `isRealPath_of_resolve` — the real path of something
  is one; `IsRealPath.resolve_join` — and stands for all paths that have it;
* `FileTree.resolve_of_stray` — what is behind a link that leads back to itself is taken as it is written.
-/

namespace FileTree

variable {root : Node} {t : FileTree} {names : List String}

/-- Names that lead down from the root, through no link. -/
structure IsReal (root : Node) (names : List String) : Prop where
  isDown : ∀ name ∈ names, Path.isIdle name = false ∧ name ≠ ".."
  notLink : ∀ before, before <+: names → ∀ target, root.find? before ≠ some (.link target)

theorem IsReal.of_prefix {before : List String} (h : IsReal root names) (hbefore : before <+: names) :
    IsReal root before where
  isDown name hname := h.isDown name (hbefore.subset hname)
  notLink other hother := h.notLink other (hother.trans hbefore)

/-- Names in a tree without other links lead through no link either. What else changes in the tree
    does not matter. -/
theorem IsReal.mono {root' : Node} (h : IsReal root names)
    (hlinks : ∀ place target, root'.find? place = some (.link target) →
      root.find? place = some (.link target)) : IsReal root' names where
  isDown := h.isDown
  notLink before hbefore target hlink := h.notLink before hbefore target (hlinks before target hlink)

/-- One more name, if it is no link. Real names are built up by this, beginning at the root. -/
theorem IsReal.concat {name : String} (h : IsReal root names)
    (hname : Path.isIdle name = false ∧ name ≠ "..")
    (hlink : ∀ target, root.find? (names ++ [name]) ≠ some (.link target)) :
    IsReal root (names ++ [name]) where
  isDown := List.forall_mem_append.mpr ⟨h.isDown, List.forall_mem_singleton.mpr hname⟩
  notLink before hbefore := by
    rcases List.prefix_concat_iff.mp hbefore with rfl | hbefore
    · exact hlink
    · exact h.notLink before hbefore

/-- The place of a folder is real in a tree as file systems hold it. Soundness gives that its names
    are names, and what is found below a place shows that no link is on the way. -/
theorem isReal_of_find? {node : Node} (hsound : root.IsSound) (h : root.find? names = some node)
    (hnode : ∀ target, node ≠ .link target) : IsReal root names where
  isDown name hname := ⟨(hsound.isEntryName h name hname).1.1, (hsound.isEntryName h name hname).2⟩
  notLink before hbefore target hlink := by
    obtain ⟨more, rfl⟩ := hbefore
    rw [find?_append, hlink, Option.bind_some] at h
    -- Nothing is below a link.
    cases more with
    | nil => exact hnode target (Option.some.inj h).symm
    | cons name more => cases h

/-! ### Where names settle -/

/-- The place where names settle is real. Each name is added only where no link was found, and each
    link is exchanged for its target. -/
theorem isReal_of_settle (hroot : IsReal root []) {fuel : Nat} {active : List (List String)}
    {start rest : List String} (hstart : IsReal root start.reverse)
    (h : (settle root fuel active start rest).2 = true) :
    IsReal root (settle root fuel active start rest).1.reverse := by
  -- `hstart` is kept by every step: up, down past no link, and along a link that settles.
  fun_induction settle root fuel active start rest with
  | case1 => exact hstart
  | case2 _ _ _ _ _ _ ih => exact ih hstart h
  | case3 _ start _ _ _ ih =>
    refine ih (hstart.of_prefix ?_) h
    rw [← List.dropLast_reverse]
    exact List.dropLast_prefix _
  | case4 | case5 | case7 => cases h
  | case6 active reversed name rest hidle hup next target hlink fuel hactive start found hfound ihlink
      ih =>
    -- The link may lead back to the root, and is followed from there.
    have hback : IsReal root start.reverse := by
      by_cases habsolute : target.startsWith "/" = true
      · simpa [start, habsolute] using hroot
      · simpa [start, habsolute] using hstart
    rw [hfound] at ihlink
    exact ih (ihlink hback rfl) h
  | case8 fuel active reversed name rest hidle hup next hno ih =>
    refine ih ?_ h
    rw [List.reverse_cons]
    refine hstart.concat ⟨by simpa using hidle, hup⟩ fun target hlink => ?_
    exact hno target (by rw [← hlink, ← List.reverse_cons])

/-- Such names settle as they are. It does not matter which links are being followed, as none is
    met. -/
theorem IsReal.settle_eq (h : IsReal root names) (fuel : Nat) (active : List (List String)) :
    settle root fuel active [] names = (names.reverse, true) := by
  rw [settle_eq_foldl fuel active List.not_mem_nil fun name hname => (h.isDown name hname).1,
    foldl_of_ne_up fun name hname => (h.isDown name hname).2]
  intro before hbefore target
  rw [foldl_of_ne_up fun name hname => (h.isDown name (hbefore.subset hname)).2, List.reverse_reverse]
  exact h.notLink before hbefore target

/-- They are their own real path. So resolving is idempotent on the paths that it gives. -/
theorem IsReal.resolve_eq (h : IsReal t.root names) (hnul : ∀ name ∈ names, '\x00' ∉ name.toList) :
    t.resolve (Path.absolute names) = .ok (.absolute names) := by
  have hsettle := h.settle_eq (t.root.linkCount + 1) []
  rw [← List.reverse_reverse names]
  refine resolve_of_settle (by simpa [Path.absolute] using hnul) (fun hup => ?_) ?_
  · exact (h.isDown _ (List.mem_reverse.mp hup)).2 rfl
  · simpa [namesFromRoot, Path.absolute, Path.isAbsolute] using hsettle

/-- A path that settles has a real path of such names. The names come with the settling that they
    are from. -/
theorem exists_isReal_of_resolve {p real : Path} (hroot : IsReal t.root []) (hsettles : t.Settles p)
    (h : t.resolve p = .ok real) : ∃ names, real = .absolute names ∧ IsReal t.root names ∧
      settle t.root (t.root.linkCount + 1) [] [] (t.namesFromRoot p) = (names.reverse, true) := by
  have hstart : IsReal t.root (List.reverse []) := hroot
  have hreal := isReal_of_settle hroot hstart hsettles
  rw [hsettles.resolve_eq] at h
  split at h
  · cases h
  · rw [collapseNames_of_ne_up fun name hname => (hreal.isDown name hname).2] at h
    exact ⟨_, (Except.ok.inj h).symm, hreal, Prod.ext (List.reverse_reverse _).symm hsettles⟩

/-! ### Paths that lead somewhere -/

/-- Names that settle also do so without those that say nothing. A path read from text has lost
    these names already. -/
theorem settle_filter_idle {fuel : Nat} {active : List (List String)} {start rest stop : List String}
    (h : settle root fuel active start rest = (stop, true)) :
    settle root fuel active start (rest.filter fun name => !Path.isIdle name) = (stop, true) := by
  fun_induction settle root fuel active start rest with
  | case1 =>
    rw [List.filter_nil, settle_nil]
    exact h
  | case2 _ _ _ _ _ hidle ih =>
    rw [List.filter_cons_of_neg (by simp [hidle])]
    exact ih h
  | case3 _ _ _ _ hidle ih =>
    rw [List.filter_cons_of_pos (by simp [hidle]), settle_dots]
    exact ih h
  | case4 | case5 | case7 => cases h
  | case6 _ _ _ _ hidle hup _ _ hlink _ hactive _ _ hfound _ ih =>
    rw [List.filter_cons_of_pos (by simp [hidle]), settle_through hidle hup hlink hactive hfound]
    exact ih h
  | case8 _ _ _ _ _ hidle hup _ hno ih =>
    rw [List.filter_cons_of_pos (by simp [hidle]), settle_down hidle hup hno]
    exact ih h

/-- The path of a text that leads somewhere settles there, from wherever it is seen. The system and
    the settling of names follow the same links in the same order. -/
theorem exists_settle_of_stat (hhere : IsReal t.root t.here) {text : String} {node : Node}
    (h : t.stat text = .ok node) : ∃ names, t.root.find? names = some node ∧
      (∀ target, node ≠ .link target) ∧
      settle t.root (t.root.linkCount + 1) [] [] (t.namesFromRoot (.ofText text)) =
        (names.reverse, true) := by
  obtain ⟨names, hlocate⟩ := stat_ok_iff.mp h
  obtain ⟨hfind, hlink⟩ := node_of_locate hlocate
  refine ⟨names, hfind.symm, fun target heq => hlink rfl target (congrArg some heq), ?_⟩
  have hsettle := settle_filter_idle (settle_of_walk _ (t.root.linkCount + 1) [] _ _
    (locate_ok_iff.mp hlocate).2
    ⟨List.nodup_nil, List.forall_mem_nil _, by simp, List.forall_mem_nil _⟩)
  rw [namesFromRoot]
  by_cases habsolute : text.startsWith "/" = true
  · rw [if_pos habsolute] at hsettle
    rw [if_pos (Path.isRooted_ofText habsolute).isAbsolute]
    exact hsettle
  · rw [if_neg habsolute] at hsettle
    have hrelative : ¬(Path.ofText text).isAbsolute = true := by
      simp [Path.isAbsolute, slashes_ofText_eq_zero habsolute]
    rw [if_neg hrelative, settle_append _ _ _ _ (hhere.settle_eq _ _)]
    exact hsettle

/-! ### Real paths of what is there -/

/-- A path that is its own real path, since it leads from the root down and through no link. -/
def IsRealPath (t : FileTree) (p : Path) : Prop :=
  ∃ names, p = .absolute names ∧ IsReal t.root names ∧ ∀ name ∈ names, Path.IsName name

theorem IsRealPath.resolve_eq {p : Path} (h : t.IsRealPath p) : t.resolve p = .ok p := by
  obtain ⟨names, rfl, hreal, hnames⟩ := h
  exact hreal.resolve_eq fun name hname => (hnames name hname).2.2

theorem IsRealPath.isRooted {p : Path} (h : t.IsRealPath p) : p.IsRooted := by
  obtain ⟨names, rfl, _, hnames⟩ := h
  exact Path.isRooted_absolute fun name hname => (hnames name hname).isSegment

/-- A real path is one in a tree without other links as well. A graph that was kept in the cache
    meanwhile does not change which paths are real. -/
theorem IsRealPath.mono {t' : FileTree} {p : Path} (h : t.IsRealPath p)
    (hlinks : ∀ place target, t'.root.find? place = some (.link target) →
      t.root.find? place = some (.link target)) : t'.IsRealPath p := by
  obtain ⟨names, rfl, hreal, hnames⟩ := h
  exact ⟨names, rfl, hreal.mono hlinks, hnames⟩

/-- What is found by names from the root has them as its real path. It must be no link itself, or it
    would be followed. -/
theorem isRealPath_of_find? {node : Node} (hsound : t.root.IsSound)
    (h : t.root.find? names = some node) (hnode : ∀ target, node ≠ .link target) :
    t.IsRealPath (.absolute names) :=
  ⟨names, rfl, isReal_of_find? hsound h hnode, fun name hname => (hsound.isEntryName h name hname).1⟩

/-- The real path of a path that settles is such a one, if something is there. That something is
    there shows that no link led back to itself. -/
theorem isRealPath_of_resolve {p real : Path} {node : Node} (hroot : IsReal t.root [])
    (hsettles : t.Settles p) (hnames : ∀ name ∈ t.namesFromRoot p, '/' ∉ name.toList)
    (h : t.resolve p = .ok real) (hstat : t.stat real.text = .ok node) : t.IsRealPath real := by
  have hspelled := (isRooted_of_resolve hnames h).isSpelled
  obtain ⟨names, rfl, hreal, _⟩ := exists_isReal_of_resolve hroot hsettles h
  refine ⟨names, rfl, hreal, fun name hname => ?_⟩
  refine ⟨(hspelled name hname).1, (hspelled name hname).2, fun hnul => ?_⟩
  exact nul_not_mem_of_stat hstat (Path.nul_mem_text (p := .absolute names) hname hnul)

/-- A path that has a real path holds no NUL. -/
theorem nul_not_mem_of_resolve {p real : Path} (h : t.resolve p = .ok real) :
    (p.names.any fun name => name.toList.contains '\x00') = false := by
  unfold resolve at h
  split at h
  · cases h
  · rename_i hno
    exact Bool.not_eq_true _ ▸ hno

/-- A path that is not absolute goes on behind another one. -/
theorem namesFromRoot_join_of_relative {q : Path} (h : ¬q.isAbsolute = true) (p : Path) :
    t.namesFromRoot (p.join q) = t.namesFromRoot p ++ q.names := by
  have hslashes : Path.isAbsolute ⟨p.slashes, p.names ++ q.names⟩ = p.isAbsolute := rfl
  rw [Path.join, if_neg h, namesFromRoot, namesFromRoot, hslashes]
  split
  · rfl
  · exact (List.append_assoc _ _ _).symm

/-- Seen from a path that settles, everything is as seen from its real path. -/
theorem IsRealPath.resolve_join {p real : Path} (h : t.IsRealPath real) (hsettles : t.Settles p)
    (hresolve : t.resolve p = .ok real) (q : Path) : t.resolve (p.join q) = t.resolve (real.join q) := by
  by_cases habsolute : q.isAbsolute = true
  · rw [Path.join, Path.join, if_pos habsolute, if_pos habsolute]
  have hnil : IsReal t.root [] := by
    obtain ⟨_, _, hreal, _⟩ := h
    exact hreal.of_prefix List.nil_prefix
  obtain ⟨names, rfl, hreal, hsettle⟩ := exists_isReal_of_resolve hnil hsettles hresolve
  -- Neither path holds a NUL.
  have hany : (p.join q).names.any (fun n => n.toList.contains '\x00') =
      ((Path.absolute names).join q).names.any (fun n => n.toList.contains '\x00') := by
    rw [Path.join, Path.join, if_neg habsolute, if_neg habsolute, List.any_append, List.any_append,
      nul_not_mem_of_resolve hresolve, nul_not_mem_of_resolve h.resolve_eq]
  -- And from both the rest of the way begins in the same place.
  have hsettle' : settle t.root (t.root.linkCount + 1) [] [] (t.namesFromRoot (.absolute names)) =
      (names.reverse, true) := hreal.settle_eq _ _
  rw [resolve, resolve, hany, namesFromRoot_join_of_relative habsolute,
    namesFromRoot_join_of_relative habsolute, settle_append _ _ _ _ hsettle,
    settle_append _ _ _ _ hsettle']

/-! ### Given trees -/

/-- What a path leads to is what a walk along its text comes to. -/
theorem stat_of_walk {text : String} (place : List String) {node : Node}
    (hplain : text.toList.contains '\x00' = false ∧ text.isEmpty = false ∧
      text.utf8ByteSize < maxPathSize)
    (h : walk t.root true maxLinks (if text.startsWith "/" then [] else t.here.reverse)
      (namesOf text) = .ok ⟨place, some node⟩) : t.stat text = .ok node :=
  stat_ok_iff.mpr ⟨place, locate_ok_iff.mpr ⟨hplain, h⟩⟩

theorem leadsTo_of_stat {text : String} {node : Node} {test : Node → Bool}
    (h : t.stat text = .ok node) : t.leadsTo text test = .ok (test node) := by
  rw [leadsTo, h]

/-- A link that leads back to itself is taken as it is written, and so is what is behind it. -/
theorem resolve_of_stray {p real : Path} {reversed : List String} {node : Node}
    (hnul : ∀ name ∈ p.names, '\x00' ∉ name.toList)
    (hsettle : settle t.root (t.root.linkCount + 1) [] [] (t.namesFromRoot p) = (reversed, false))
    (hreal : (writtenPath reversed.reverse).collapsed = real) (hstat : t.stat real.text = .ok node) :
    t.resolve p = .ok real := by
  simpa [resolve, hsettle, hreal, hstat] using hnul

end FileTree

end Backlog.Files
