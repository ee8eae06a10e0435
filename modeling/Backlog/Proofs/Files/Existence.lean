import Backlog.Proofs.Files.Places
import Backlog.Proofs.Files.RealPaths
import Mathlib.Data.List.Nodup
import Mathlib.Data.List.Perm.Subperm
import Mathlib.Data.Nat.Find

namespace Backlog.Files

/-!
# What exists has a real path

A walk gives up after so many links, whereas a real path is looked for until a link leads back to
itself. Still, a link on a way to something does not lead back to itself, since following it takes
more links than are left on the way once it has been followed.

* `Node.length_le_linkCount` — there are no more links than are counted;
* `FileTree.walk_mono`, `FileTree.exists_least_walk` — a walk with more links to follow, and with as
  few as it takes; `FileTree.exists_walks_of_append` — a walk in two parts;
* `FileTree.settle_of_walk` — where a walk comes to an end, the names settle in the same place;
* `FileTree.exists_resolve_of_stat` — a path that leads somewhere has a real path;
* `FileTree.isRooted_of_resolve` — a real path starts from the root and could be spelled.
-/

open Node

/-! ### The links of a tree -/

namespace Node

mutual

/-- The places of the links in a tree, by their names behind some others. -/
def linkPlaces (before : List String) : Node → List (List String)
  | .file _ _ => []
  | .link _ => [before]
  | .folder entries => entryLinkPlaces before entries
  | .sealed _ => []

/-- The places of the links below the entries of a folder. -/
def entryLinkPlaces (before : List String) : List (String × Node) → List (List String)
  | [] => []
  | (name, node) :: rest => linkPlaces (before ++ [name]) node ++ entryLinkPlaces before rest

end

mutual

/-- There are as many places of links as links are counted. The two recursions run side by side. -/
theorem length_linkPlaces (before : List String) : ∀ node : Node,
    (linkPlaces before node).length = node.linkCount
  | .file _ _ => rfl
  | .link _ => rfl
  | .folder entries => length_entryLinkPlaces before entries
  | .sealed _ => rfl

/-- There are as many places of links below some entries as are counted there. -/
theorem length_entryLinkPlaces (before : List String) : ∀ entries : List (String × Node),
    (entryLinkPlaces before entries).length = entryLinkCount entries
  | [] => rfl
  | (name, node) :: rest => by
    rw [entryLinkPlaces, entryLinkCount, List.length_append, length_linkPlaces,
      length_entryLinkPlaces]

end

/-- The places below an entry are among those below all entries. -/
theorem mem_entryLinkPlaces {before place : List String} {name : String} {inner : Node}
    {entries : List (String × Node)} (h : childNamed? name entries = some inner)
    (hplace : place ∈ linkPlaces (before ++ [name]) inner) :
    place ∈ entryLinkPlaces before entries := by
  induction entries with
  | nil => cases h
  | cons e rest ih =>
    obtain ⟨other, node⟩ := e
    rw [childNamed?] at h
    rw [entryLinkPlaces, List.mem_append]
    split at h
    · rename_i heq
      obtain rfl : node = inner := Option.some.inj h
      obtain rfl : other = name := heq
      exact .inl hplace
    · exact .inr (ih h)

/-- Each link that is found has its place in the list. -/
theorem mem_linkPlaces {before names : List String} {node : Node} {target : String}
    (h : node.find? names = some (.link target)) : before ++ names ∈ linkPlaces before node := by
  induction names generalizing node before with
  | nil =>
    obtain rfl := Option.some.inj h
    simp [linkPlaces]
  | cons name names ih =>
    cases node with
    | file _ _ | link _ | sealed _ => cases h
    | folder entries =>
      obtain ⟨inner, hinner, h⟩ := Option.bind_eq_some_iff.mp h
      have hmem := @ih (before ++ [name]) inner h
      rw [List.append_assoc, List.singleton_append] at hmem
      exact mem_entryLinkPlaces hinner hmem

/-- There are no more links than are counted. Links that are being followed are pairwise different,
    so that their number is bounded. -/
theorem length_le_linkCount {root : Node} {places : List (List String)} (hnodup : places.Nodup)
    (h : ∀ place ∈ places, ∃ target, root.find? place = some (.link target)) :
    places.length ≤ root.linkCount := by
  rw [← length_linkPlaces [] root]
  refine (List.subperm_of_subset hnodup fun place hplace => ?_).length_le
  obtain ⟨target, htarget⟩ := h place hplace
  exact mem_linkPlaces htarget

end Node

/-! ### Walks with more links, and in two parts -/

namespace FileTree

variable {root : Node} {followLast : Bool}

/-- With more links to follow, a walk that comes to an end comes to the same end. A walk only ever
    fails for want of links, or for reasons that more links do not mend. -/
theorem walk_mono (links links' : Nat) (start rest : List String) {place : Place}
    (h : walk root followLast links start rest = .ok place) (hle : links ≤ links') :
    walk root followLast links' start rest = .ok place := by
  match rest with
  | [] =>
    rw [walk] at h ⊢
    exact h
  | name :: rest =>
    cases walkStep h with
    | idle hfolder hidle h =>
      rw [walk_idle hfolder hidle]
      exact walk_mono links links' start rest h hle
    | slash hsealed hempty h =>
      rw [hempty, walk_slash hsealed]
      exact walk_mono links links' start rest h hle
    | up hfound hup h =>
      rw [hup, walk_up (passageAt?_eq_folder_iff.mpr ⟨_, hfound⟩)]
      exact walk_mono links links' start.tail rest h hle
    | missing hfound hname hchild hrest hplace =>
      rw [walk_down hfound hname, hchild, hrest, hplace]
      rfl
    | stay hfound hname hchild hrest hfollow hplace =>
      rw [walk_down hfound hname, hchild, hrest, hfollow, hplace]
      rfl
    | @follow links _ target hfound hname hchild hwalk =>
      -- The link that is followed takes one of both.
      obtain ⟨links', rfl⟩ : ∃ n, links' = n + 1 := ⟨links' - 1, by omega⟩
      rw [walk_down hfound hname, hchild] at h ⊢
      dsimp only at h ⊢
      split
      · rename_i hstay
        rwa [if_pos hstay] at h
      · exact walk_mono links links' _ _ hwalk (by omega)
    | down hfound hname hchild hlink h =>
      rw [walk_inner hfound hname hchild hlink]
      exact walk_mono links links' (name :: start) rest h hle
termination_by (links, rest.length)

/-- A walk in two parts: the first comes to a place, and the second goes on from there. Some of the
    links may be used up by the first part. -/
theorem exists_walks_of_append (links : Nat) (start names : List String) {rest : List String}
    {place : Place} (h : walk root true links start (names ++ rest) = .ok place) :
    ∃ links' stop node last, links' ≤ links ∧
      walk root true links start names = .ok ⟨stop, node⟩ ∧
      walk root true links' stop.reverse rest = .ok last ∧ last.names = place.names := by
  match names with
  | [] => exact ⟨links, start.reverse, _, place, Nat.le_refl _, by rw [walk], by
      rwa [List.reverse_reverse], rfl⟩
  | name :: names =>
    rw [List.cons_append] at h
    cases walkStep h with
    | idle hfolder hidle h =>
      rw [walk_idle hfolder hidle]
      exact exists_walks_of_append links start names h
    | slash hsealed hempty h =>
      rw [hempty, walk_slash hsealed]
      exact exists_walks_of_append links start names h
    | up hfound hup h =>
      rw [hup, walk_up (passageAt?_eq_folder_iff.mpr ⟨_, hfound⟩)]
      exact exists_walks_of_append links start.tail names h
    | missing hfound hname hchild hrest hplace =>
      obtain ⟨rfl, rfl⟩ := List.append_eq_nil_iff.mp hrest
      subst hplace
      refine ⟨links, _, none, _, Nat.le_refl _, ?_, by rw [walk], List.reverse_reverse _⟩
      rw [walk_down hfound hname, hchild]
      rfl
    | stay _ _ _ _ hfollow _ => cases hfollow
    | @follow links _ target hfound hname hchild hwalk =>
      rw [← List.append_assoc] at hwalk
      obtain ⟨links', stop, node, last, hle, hfirst, hsecond⟩ :=
        exists_walks_of_append links _ _ hwalk
      refine ⟨links', stop, node, last, Nat.le_succ_of_le hle, ?_, hsecond⟩
      rw [walk_down hfound hname, hchild]
      simpa using hfirst
    | down hfound hname hchild hlink h =>
      rw [walk_inner hfound hname hchild hlink]
      exact exists_walks_of_append links (name :: start) names h
termination_by (links, names.length)

/-- A walk that comes to an end takes a least number of links. The least number is what the settling
    of the same names is compared with. -/
theorem exists_least_walk {links : Nat} {start rest : List String} {place : Place}
    (h : walk root followLast links start rest = .ok place) :
    ∃ few ≤ links, walk root followLast few start rest = .ok place ∧
      ∀ fewer < few, ∀ other, walk root followLast fewer start rest ≠ .ok other := by
  classical
  have hexists : ∃ few, walk root followLast few start rest = .ok place := ⟨links, h⟩
  refine ⟨Nat.find hexists, Nat.find_min' hexists h, Nat.find_spec hexists, ?_⟩
  intro fewer hfewer other hother
  -- The end would be the same one, and the number not the least.
  have hmore := walk_mono fewer (Nat.find hexists) start rest hother (Nat.le_of_lt hfewer)
  obtain rfl : place = other := Except.ok.inj ((Nat.find_spec hexists).symm.trans hmore)
  exact Nat.find_min hexists hfewer hother

/-! ### Settling along a walk -/

/-- Following a link, which stands at the end of a row of names in reverse, takes no more than so
    many links. -/
def IsFollowed (root : Node) (links : Nat) (next : List String) : Prop :=
  ∃ target place, root.find? next.reverse = some (.link target) ∧
    walk root true links (if target.startsWith "/" then [] else next.tail) (namesOf target) = .ok place

/-- The links that are being followed are different ones, there is fuel for all others, and to follow
    one of them takes at least as many links as there are left. -/
structure IsActive (root : Node) (links fuel : Nat) (active : List (List String)) : Prop where
  nodup : active.Nodup
  link : ∀ next ∈ active, ∃ target, root.find? next.reverse = some (.link target)
  fuel : root.linkCount < fuel + active.length
  costly : ∀ next ∈ active, ∀ fewer < links, ¬IsFollowed root fewer next

/-- With fewer links left, the same links are being followed. -/
theorem IsActive.mono {links links' fuel : Nat} {active : List (List String)}
    (h : IsActive root links fuel active) (hle : links' ≤ links) :
    IsActive root links' fuel active :=
  ⟨h.nodup, h.link, h.fuel, fun next hnext fewer hfewer => h.costly next hnext fewer (by omega)⟩

/-- A link that can be followed with fewer links than are left is not being followed. Otherwise it
    would be followed inside itself with fewer links than it takes at the least. -/
theorem IsActive.not_mem {links fewer fuel : Nat} {active : List (List String)} {next : List String}
    (h : IsActive root links fuel active) (hfollowed : IsFollowed root fewer next)
    (hlt : fewer < links) : next ∉ active :=
  fun hmem => h.costly next hmem fewer hlt hfollowed

/-- Such a link is followed with the least number of links that it takes. The list of links that are
    being followed grows by one and stays without repetition. -/
theorem IsActive.cons {links few fuel : Nat} {active : List (List String)} {next : List String}
    {target : String} (h : IsActive root links (fuel + 1) active) (hle : few ≤ links)
    (hnew : next ∉ active) (hlink : root.find? next.reverse = some (.link target))
    (hleast : ∀ fewer < few, ¬IsFollowed root fewer next) :
    IsActive root few fuel (next :: active) where
  nodup := List.nodup_cons.mpr ⟨hnew, h.nodup⟩
  link := List.forall_mem_cons.mpr ⟨⟨target, hlink⟩, h.link⟩
  fuel := by
    have hfuel := h.fuel
    rw [List.length_cons]
    omega
  costly := List.forall_mem_cons.mpr
    ⟨hleast, fun other hother fewer hfewer => h.costly other hother fewer (by omega)⟩

/-- There is fuel left while links are being followed. There are fewer links on the way than in the
    whole tree. -/
theorem IsActive.fuel_pos {links fuel : Nat} {active : List (List String)}
    (h : IsActive root links fuel active) : 0 < fuel := by
  have hreverse : (active.map List.reverse).Nodup :=
    List.Nodup.map List.reverse_injective h.nodup
  have hlength : (active.map List.reverse).length ≤ root.linkCount := by
    refine length_le_linkCount hreverse fun place hplace => ?_
    obtain ⟨next, hnext, rfl⟩ := List.mem_map.mp hplace
    exact h.link next hnext
  rw [List.length_map] at hlength
  have hfuel := h.fuel
  omega

/-- Where a walk comes to an end, the names settle in the same place. The induction is on the walk;
    what carries it is that no link on the way is followed inside itself. -/
theorem settle_of_walk (links fuel : Nat) (active : List (List String)) (start rest : List String)
    {place : Place} (h : walk root true links start rest = .ok place)
    (hactive : IsActive root links fuel active) :
    settle root fuel active start rest = (place.names.reverse, true) := by
  match rest with
  | [] =>
    rw [walk, Except.ok.injEq] at h
    rw [settle_nil, ← h, List.reverse_reverse]
  | name :: rest =>
    have hdown : Path.IsDown name → ¬Path.isIdle name = true := fun hname => by simp [hname.isIdle]
    have hchildAt : ∀ {entries}, root.find? start.reverse = some (.folder entries) →
        root.find? (name :: start).reverse = childNamed? name entries := fun hfound => by
      rw [List.reverse_cons, find?_concat hfound]
    cases walkStep h with
    | idle _ hidle h =>
      rw [settle_idle hidle]
      exact settle_of_walk links fuel active start rest h hactive
    | slash _ hempty h =>
      rw [settle_idle (hempty ▸ by decide)]
      exact settle_of_walk links fuel active start rest h hactive
    | up _ hup h =>
      rw [hup, settle_dots]
      exact settle_of_walk links fuel active start.tail rest h hactive
    | missing hfound hname hchild hrest hplace =>
      have hno : ∀ target, root.find? (name :: start).reverse ≠ some (.link target) := by
        rw [hchildAt hfound, hchild]
        simp
      rw [settle_down (hdown hname) hname.ne_up hno, hrest, settle_nil, hplace,
        List.reverse_reverse]
    | stay _ _ _ _ hfollow _ => cases hfollow
    | down hfound hname hchild hlink h =>
      have hno : ∀ target, root.find? (name :: start).reverse ≠ some (.link target) := by
        rw [hchildAt hfound, hchild]
        exact fun target heq => hlink target (Option.some.inj heq)
      rw [settle_down (hdown hname) hname.ne_up hno]
      exact settle_of_walk links fuel active (name :: start) rest h hactive
    | @follow links _ target hfound hname hchild hwalk =>
      have hfind := (hchildAt hfound).trans hchild
      obtain ⟨links', stop, node, last, hle, hbody, hrest, hlast⟩ :=
        exists_walks_of_append _ _ _ hwalk
      obtain ⟨fuel, rfl⟩ : ∃ n, fuel = n + 1 := ⟨fuel - 1, by have := hactive.fuel_pos; omega⟩
      obtain ⟨few, hfewle, hfew, hleast⟩ := exists_least_walk hbody
      have hnew : (name :: start) ∉ active :=
        hactive.not_mem ⟨target, _, hfind, hbody⟩ (Nat.lt_succ_self links)
      have hinner : settle root fuel ((name :: start) :: active)
          (if target.startsWith "/" then [] else start) (namesOf target) =
            (stop.reverse, true) := by
        refine settle_of_walk few fuel _ _ _ hfew (hactive.cons (by omega) hnew hfind ?_)
        rintro fewer hfewer ⟨target', place', hfind', hwalk'⟩
        rw [hfind, Option.some.injEq, Node.link.injEq] at hfind'
        exact hleast fewer hfewer place' (hfind' ▸ hwalk')
      rw [settle_through (hdown hname) hname.ne_up hfind (by simpa using hnew) hinner, ← hlast]
      exact settle_of_walk links' (fuel + 1) active stop.reverse rest hrest
        (hactive.mono (by omega))
termination_by (links, rest.length)

/-! ### Paths that lead somewhere -/

/-- Empty names in front change nothing. A text has an empty name before each slash in front. -/
theorem settle_replicate (fuel : Nat) (active : List (List String)) (start rest : List String)
    (n : Nat) : settle root fuel active start (List.replicate n "" ++ rest) =
      settle root fuel active start rest := by
  induction n with
  | zero => rfl
  | succ n ih => rw [List.replicate_succ, List.cons_append, settle_idle (by decide), ih]

/-- Where a path from the root leads, its names settle. The fuel is the number of links in the tree,
    which is enough. -/
theorem settle_of_locate {t : FileTree} {p : Path} (hrooted : p.IsRooted) {place : Place}
    (h : t.locate p.text = .ok place) :
    settle t.root (t.root.linkCount + 1) [] [] p.names = (place.names.reverse, true) := by
  obtain ⟨⟨hnul, _⟩, hwalk⟩ := locate_ok_iff.mp h
  -- Between the slashes of the text are the names, after empty ones.
  obtain ⟨hslash, n, hnames⟩ : p.text.startsWith "/" = true ∧
      ∃ n, namesOf p.text = List.replicate n "" ++ p.names := by
    by_cases hne : p.names = []
    · obtain ⟨slashes, names⟩ := p
      obtain rfl : names = [] := hne
      obtain ⟨n, rfl⟩ : ∃ n, slashes = n + 1 :=
        Nat.exists_eq_succ_of_ne_zero (of_decide_eq_true hrooted.isAbsolute)
      have htext : (Path.text ⟨n + 1, []⟩).toList = List.replicate (n + 1) '/' ++ [] := by
        simp [Path.text]
      refine ⟨String.startsWith_string_iff.mpr ?_, n + 2, ?_⟩
      · rw [htext, List.replicate_succ]
        exact List.prefix_append ['/'] _
      · rw [namesOf, htext, splitSlashes_replicate, splitSlashes]
        simp [List.replicate_succ']
    · have hclean := (hrooted.isSpelled.isClean_or_nul hne).resolve_right (by simpa using hnul)
      exact ⟨(Path.startsWith_text hclean).trans hrooted.isAbsolute, p.slashes,
        Path.namesOf_text hclean⟩
  rw [if_pos hslash] at hwalk
  have hsettle := settle_of_walk maxLinks (t.root.linkCount + 1) [] [] (namesOf p.text) hwalk
    ⟨List.nodup_nil, List.forall_mem_nil _, by simp, List.forall_mem_nil _⟩
  rwa [hnames, settle_replicate] at hsettle

/-- A path from the root that leads somewhere has a real path. Only links that lead nowhere but to
    themselves keep a path from having one. -/
theorem exists_resolve_of_stat {t : FileTree} {p : Path} (hspelled : p.IsSpelled)
    (habsolute : p.isAbsolute = true) {node : Node} (h : t.stat p.text = .ok node) :
    ∃ real, t.resolve p = .ok real := by
  obtain ⟨names, hlocate⟩ := stat_ok_iff.mp h
  have hsettles : t.Settles p := by
    rw [Settles, namesFromRoot, if_pos habsolute, settle_of_locate ⟨habsolute, hspelled⟩ hlocate]
  rw [hsettles.resolve_eq, if_neg]
  · exact ⟨_, rfl⟩
  · intro hany
    obtain ⟨name, hname, hmem⟩ := List.any_eq_true.mp hany
    exact nul_not_mem_of_stat h (Path.nul_mem_text hname (by simpa using hmem))

/-! ### The names of real paths -/

/-- Names that settle are names of the path, or of the links that it goes through. Names are taken
    over from texts, where they stand between slashes. -/
theorem isSegment_of_mem_settle (root : Node) (fuel : Nat) (active : List (List String))
    (start rest : List String)
    (hstart : ∀ name ∈ start, Path.IsSegment name) (hrest : ∀ name ∈ rest, '/' ∉ name.toList)
    (h : (settle root fuel active start rest).2 = true) :
    ∀ name ∈ (settle root fuel active start rest).1, Path.IsSegment name := by
  fun_induction settle root fuel active start rest with
  | case1 => exact hstart
  | case2 _ _ _ _ _ _ ih => exact ih hstart (List.forall_mem_cons.mp hrest).2 h
  | case3 _ _ _ _ _ ih =>
    refine ih (fun name hname => ?_) (List.forall_mem_cons.mp hrest).2 h
    exact hstart name (List.mem_of_mem_tail hname)
  | case4 | case5 | case7 => cases h
  | case6 active reversed name rest hidle hup next target hlink fuel hactive start found hfound ihlink
      ih =>
    -- What a link leads to takes the place of its name.
    rw [hfound] at ihlink
    refine ih (ihlink ?_ (fun name hname => Path.slash_not_mem_namesOf hname) rfl)
      (List.forall_mem_cons.mp hrest).2 h
    show ∀ name ∈ (if target.startsWith "/" then [] else reversed), _
    split
    · exact List.forall_mem_nil _
    · exact hstart
  | case8 fuel active reversed name rest hidle hup next hno ih =>
    obtain ⟨hname, hrest⟩ := List.forall_mem_cons.mp hrest
    exact ih (List.forall_mem_cons.mpr ⟨⟨by simpa using hidle, hname⟩, hstart⟩) hrest h

/-- A path that is written with a slash in front is one from the root. -/
theorem isRooted_writtenPath (names : List String) : (writtenPath names).IsRooted := by
  unfold writtenPath
  refine Path.isRooted_ofText ?_
  split
  · assumption
  · rw [String.startsWith_string_iff, String.toList_append]
    exact List.prefix_append _ _

/-- A real path starts from the root. This holds for both ways of getting it: where all links could
    be followed, and where one leads back to itself. -/
theorem isRooted_of_resolve {t : FileTree} {p real : Path}
    (hnames : ∀ name ∈ t.namesFromRoot p, '/' ∉ name.toList) (h : t.resolve p = .ok real) :
    real.IsRooted := by
  have hsegment := isSegment_of_mem_settle t.root (t.root.linkCount + 1) [] [] (t.namesFromRoot p)
    (List.forall_mem_nil _) hnames
  unfold resolve at h
  split at h
  · cases h
  · cases hsettle : settle t.root (t.root.linkCount + 1) [] [] (t.namesFromRoot p) with
    | mk reversed settled =>
      simp only [hsettle] at h hsegment
      cases settled with
      | true =>
        rw [if_pos rfl, Except.ok.injEq] at h
        subst h
        refine Path.isRooted_absolute fun name hname => hsegment rfl name ?_
        exact List.mem_reverse.mp (Path.mem_of_mem_collapseNames hname)
      | false =>
        have hreal := (isRooted_writtenPath reversed.reverse).collapsed
        simp only [Bool.false_eq_true, if_false] at h
        split at h
        · cases h
        · exact Except.ok.inj h ▸ hreal

end FileTree

end Backlog.Files
