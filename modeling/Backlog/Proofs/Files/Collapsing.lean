import Backlog.Proofs.Files.Sound

namespace Backlog.Files

/-!
# Paths without links on the way

Taking back names for `..` in the text of a path is only right where no name in front of it is a
link. Where there are no links at all, the real path of a path can be read off from its names.
Examples of real paths are made in such trees.

* `FileTree.settle_eq_foldl` — where there is no link on the way, names settle as if `..` took back the
  name in front of it;
* `FileTree.exists_foldl_eq_append` — fewer names than are behind a place do not lead out of it;
* `FileTree.resolve_join` — so the real path of a path is what is left of its names, seen from a folder.
-/

/-- A text begins with a slash exactly if its first character is one. -/
theorem startsWith_slash_iff {text : String} :
    text.startsWith "/" = true ↔ ∃ rest, text.toList = '/' :: rest := by
  rw [String.startsWith_string_iff]
  constructor
  · rintro ⟨rest, hrest⟩
    exact ⟨rest, hrest.symm⟩
  · rintro ⟨rest, hrest⟩
    exact ⟨rest, hrest.symm⟩

/-- A path whose text does not begin with a slash has none in front. -/
theorem slashes_ofText_eq_zero {text : String} (h : ¬text.startsWith "/" = true) :
    (Path.ofText text).slashes = 0 := by
  show Path.leadingSlashes text = 0
  unfold Path.leadingSlashes
  split
  · rename_i hchars
    exact absurd (startsWith_slash_iff.mpr ⟨_, hchars⟩) h
  · rename_i hchars
    exact absurd (startsWith_slash_iff.mpr ⟨_, hchars⟩) h
  · rename_i hchars
    exact absurd (startsWith_slash_iff.mpr ⟨_, hchars⟩) h
  · rfl

namespace FileTree

/-- Where no `..` is left over, one goes up whenever there is something to leave, so that a step is
    a plain push or pop. -/
theorem collapseStep_of_up_not_mem {reversed : List String} (h : ".." ∉ reversed) (name : String) :
    Path.collapseStep true reversed name = if name = ".." then reversed.tail else name :: reversed := by
  by_cases hname : name = ".."
  · rw [if_pos hname]
    cases reversed with
    | nil => simp [Path.collapseStep, hname]
    | cons last reversed =>
      have hlast : last ≠ ".." := fun heq => h (heq ▸ List.mem_cons_self ..)
      simp [Path.collapseStep.eq_def, hname]
  · rw [Path.collapseStep.eq_def, if_neg hname, if_neg hname]

/-- From the root no `..` is ever left over, as there is nothing above the root. -/
theorem up_not_mem_collapseStep {reversed : List String} (h : ".." ∉ reversed) (name : String) :
    ".." ∉ Path.collapseStep true reversed name := by
  rw [collapseStep_of_up_not_mem h]
  split
  · exact fun hmem => h (List.mem_of_mem_tail hmem)
  · rename_i hname
    rw [List.mem_cons, not_or]
    exact ⟨fun heq => hname heq.symm, h⟩

theorem up_not_mem_foldl {reversed : List String} (h : ".." ∉ reversed) (names : List String) :
    ".." ∉ names.foldl (Path.collapseStep true) reversed := by
  induction names generalizing reversed with
  | nil => exact h
  | cons name names ih => exact ih (up_not_mem_collapseStep h name)

/-- Names that are fewer than those behind a place do not lead out of it. This bounds how far a
    relative path can climb, by counting its names. -/
theorem exists_foldl_eq_append {names kept : List String} (hlength : names.length ≤ kept.length)
    (hup : ".." ∉ kept) (place : List String) (hplace : ".." ∉ place) :
    ∃ behind, names.foldl (Path.collapseStep true) (kept ++ place) = behind ++ place := by
  -- What is kept is generalized, since each name takes one from it or adds one.
  induction names generalizing kept with
  | nil => exact ⟨kept, rfl⟩
  | cons name names ih =>
    have hstart : ".." ∉ kept ++ place := by simp [hup, hplace]
    rw [List.length_cons] at hlength
    rw [List.foldl_cons, collapseStep_of_up_not_mem hstart]
    by_cases hname : name = ".."
    · rw [if_pos hname]
      cases kept with
      | nil => simp at hlength
      | cons last kept =>
        rw [List.length_cons] at hlength
        exact ih (by omega) fun hmem => hup (List.mem_cons_of_mem _ hmem)
    · rw [if_neg hname]
      have hkept : ".." ∉ name :: kept := by simp [hup, eq_comm, hname]
      exact ih (by rw [List.length_cons]; omega) hkept

/-- Where there is no link on the way, names settle as they are written. What is found on the way
    may be files, folders or nothing at all: only links would matter. -/
theorem settle_eq_foldl {root : Node} (fuel : Nat) (active : List (List String))
    {reversed rest : List String} (hup : ".." ∉ reversed)
    (hidle : ∀ name ∈ rest, Path.isIdle name = false)
    (hno : ∀ names, names <+: rest → ∀ target,
      root.find? (names.foldl (Path.collapseStep true) reversed).reverse ≠ some (.link target)) :
    settle root fuel active reversed rest =
      (rest.foldl (Path.collapseStep true) reversed, true) := by
  induction rest generalizing reversed with
  | nil => rw [settle_nil, List.foldl_nil]
  | cons name rest ih =>
    obtain ⟨hname, hidle⟩ := List.forall_mem_cons.mp hidle
    -- Each place on the rest of the way is one on the whole way, a name further.
    have hrest := ih (up_not_mem_collapseStep hup name) hidle fun names hnames =>
      hno (name :: names) (List.cons_prefix_cons.mpr ⟨rfl, hnames⟩)
    have hnext := hno [name] (List.cons_prefix_cons.mpr ⟨rfl, List.nil_prefix⟩)
    rw [List.foldl_cons, ← hrest]
    simp only [List.foldl_cons, List.foldl_nil] at hnext
    rw [collapseStep_of_up_not_mem hup] at hnext ⊢
    by_cases hdots : name = ".."
    · rw [if_pos hdots, hdots, settle_dots]
    · rw [if_neg hdots] at hnext
      rw [if_neg hdots, settle_down (by simp [hname]) hdots hnext]

/-- Names that settle without `..` are the real path. Both the settling and the collapsing after it
    are then the same row of names. -/
theorem resolve_of_settle {t : FileTree} {p : Path} {reversed : List String}
    (hnul : ∀ name ∈ p.names, '\x00' ∉ name.toList) (hup : ".." ∉ reversed)
    (h : settle t.root (t.root.linkCount + 1) [] [] (t.namesFromRoot p) = (reversed, true)) :
    t.resolve p = .ok (Path.absolute reversed.reverse) := by
  have hsettles : t.Settles p := by rw [Settles, h]
  rw [hsettles.resolve_eq, h, if_neg (by simpa using hnul), collapseNames_of_ne_up]
  intro name hname heq
  exact hup (heq ▸ List.mem_reverse.mp hname)

/-- Names that do not go up settle in the reverse order. The row stands in reverse, as the last name
    is the first to be left. -/
theorem foldl_of_ne_up {names : List String} (h : ∀ name ∈ names, name ≠ "..") :
    names.foldl (Path.collapseStep true) [] = names.reverse :=
  List.reverse_eq_iff.mp (collapseNames_of_ne_up h)

/-! ### Seen from a folder -/

/-- Every member of a row that is collapsed was in it before. So a property of names holds of all
    names of a real path. -/
theorem mem_of_mem_foldl {names : List String} {name : String}
    (h : name ∈ names.foldl (Path.collapseStep true) []) : name ∈ names :=
  (Path.mem_of_mem_foldl_collapseStep h).resolve_left List.not_mem_nil

/-- A path seen from an absolute one does not depend on the current folder. -/
theorem namesFromRoot_join (t : FileTree) (folders : List String) (q : Path) :
    t.namesFromRoot ((Path.absolute folders).join q) = ((Path.absolute folders).join q).names := by
  have habsolute : ((Path.absolute folders).join q).isAbsolute = true := by
    unfold Path.join
    split
    · assumption
    · rfl
  rw [namesFromRoot, if_pos habsolute]

/-- The names of a path seen from a folder: its own if it is absolute, and behind those of the
    folder if not. -/
theorem names_join (folders : List String) (q : Path) :
    ((Path.absolute folders).join q).names =
      if q.isAbsolute then q.names else folders ++ q.names := by
  unfold Path.join
  split <;> rfl

/-- From the root a path goes along its own names. It does not matter whether it is absolute. -/
theorem names_join_root (q : Path) : ((Path.absolute []).join q).names = q.names := by
  rw [names_join, List.nil_append, ite_self]

theorem nul_not_mem_names {file name : String} (h : '\x00' ∉ file.toList)
    (hname : name ∈ (Path.ofText file).names) : '\x00' ∉ name.toList :=
  fun hnul => h ((Path.of_mem_names_ofText hname).2 _ hnul)

/-- Seen from a folder, a path without links on the way is collapsed. The hypothesis only asks about
    places that are passed on the way, one for each beginning of the row. -/
theorem resolve_join {t : FileTree} {folders names : List String} {file : String}
    (hfolders : ∀ name ∈ folders, Path.IsName name) (hnul : '\x00' ∉ file.toList)
    (hnames : ((Path.absolute folders).join (.ofText file)).names = names)
    (hno : ∀ before, before <+: names → ∀ target,
      t.root.find? (before.foldl (Path.collapseStep true) []).reverse ≠ some (.link target)) :
    t.resolve ((Path.absolute folders).join (.ofText file)) =
      .ok (.absolute (names.foldl (Path.collapseStep true) []).reverse) := by
  have hfile : ∀ name ∈ (Path.ofText file).names,
      Path.isIdle name = false ∧ '\x00' ∉ name.toList :=
    fun name hname => ⟨(Path.of_mem_names_ofText hname).1.1, nul_not_mem_names hnul hname⟩
  have hmem : ∀ name ∈ names, Path.isIdle name = false ∧ '\x00' ∉ name.toList := by
    rw [← hnames, names_join]
    split
    · exact hfile
    · exact List.forall_mem_append.mpr
        ⟨fun name hname => ⟨(hfolders name hname).1, (hfolders name hname).2.2⟩, hfile⟩
  refine resolve_of_settle (fun name hname => (hmem name (hnames ▸ hname)).2)
    (up_not_mem_foldl List.not_mem_nil _) ?_
  rw [namesFromRoot_join, hnames]
  exact settle_eq_foldl _ _ List.not_mem_nil (fun name hname => (hmem name hname).1) hno

end FileTree

end Backlog.Files
