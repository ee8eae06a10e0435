import Backlog.Graph.Reach
import Backlog.Proofs.Files.Collapsing
import Backlog.Proofs.Glob.Escaping
import Mathlib.Data.Set.Finite.Basic

namespace Backlog

open Backlog.Files Backlog.Files.FileTree

/-!
# Spellings of one file

Globs match a path with slashes for its backslashes and without `./` in front. The file system knows
no backslashes: they belong to a name like any other character.

* `GlobSet.matches_normalizePath` — globs do not tell a spelling apart from the one that they match;
* `Project.SameFile` — two spellings lead to the same real path in a project;
* `IsPlain` — a spelling that is matched as the file system takes it: `ofText_normalizePath`;
* `sameFile_normalizePath_iff` — only such spellings lead to the same file in every project.
-/

/-! ### The spelling that is matched -/

theorem dropDotSlashes_dropDotSlashes (cs : List Char) :
    dropDotSlashes (dropDotSlashes cs) = dropDotSlashes cs := by
  fun_induction dropDotSlashes cs with
  | case1 rest ih => exact ih
  | case2 cs hno =>
    unfold dropDotSlashes
    split
    · rename_i rest
      exact absurd rfl (hno rest)
    · rfl

/-- Where there are no backslashes, none is replaced. Then all that is done is to drop a dot in
    front. -/
theorem normalizeChars_of_not_mem {cs : List Char} (h : '\\' ∉ cs) :
    normalizeChars cs = dropDotSlashes cs := by
  have hmap : cs.map (fun c => if c = '\\' then '/' else c) = cs := by
    refine (List.map_congr_left fun c hc => ?_).trans (List.map_id cs)
    rw [if_neg]
    · rfl
    · rintro rfl
      exact h hc
  rw [normalizeChars, hmap]

/-- The spelling that is matched is matched as it is. So what is said of spellings that are matched
    may be said of any. -/
theorem normalizeChars_normalizeChars (cs : List Char) :
    normalizeChars (normalizeChars cs) = normalizeChars cs := by
  rw [normalizeChars_of_not_mem (not_mem_normalizeChars cs)]
  exact dropDotSlashes_dropDotSlashes _

/-- The spelling that is matched, character by character. -/
theorem toList_normalizePath (path : String) :
    (normalizePath path).toList = normalizeChars path.toList := by
  rw [normalizePath, String.toList_ofList]

/-- A set of globs does not tell apart spellings that are matched alike. So globs and paths can only
    differ about what a path is. -/
theorem GlobSet.matches_normalizePath (globs : GlobSet) (path : String) :
    globs.matches (normalizePath path) = globs.matches path := by
  unfold GlobSet.matches
  rw [toList_normalizePath, normalizeChars_normalizeChars]

/-! ### As the file system takes it -/

/-- A spelling without backslashes that stays relative when `./` is dropped in front of it. -/
def IsPlain (file : String) : Prop :=
  '\\' ∉ file.toList ∧ ((normalizePath file).startsWith "/" → file.startsWith "/")

/-- A dot in front of a path is no name. Names are what is between slashes, without what is idle. -/
theorem names_dropDotSlashes (cs : List Char) :
    ((splitSlashes (dropDotSlashes cs)).map String.ofList).filter (fun n => !Path.isIdle n) =
      ((splitSlashes cs).map String.ofList).filter (fun n => !Path.isIdle n) := by
  fun_induction dropDotSlashes cs with
  | case1 rest ih =>
    have hsplit : splitSlashes ('.' :: '/' :: rest) = ['.'] :: splitSlashes rest :=
      @splitSlashes_append ['.'] (by decide) rest
    rw [ih, hsplit, List.map_cons, List.filter_cons_of_neg (by decide)]
  | case2 cs _ => rfl

/-- Without backslashes, the names stay as they are. -/
theorem names_ofText_normalizePath {file : String} (h : '\\' ∉ file.toList) :
    (Path.ofText (normalizePath file)).names = (Path.ofText file).names := by
  show (namesOf _).filter _ = (namesOf _).filter _
  rw [namesOf, toList_normalizePath, normalizeChars_of_not_mem h, names_dropDotSlashes, namesOf]

/-- As it is matched, a plain spelling is the same path. What could differ is whether it starts from
    the root. -/
theorem ofText_normalizePath {file : String} (h : IsPlain file) :
    Path.ofText (normalizePath file) = Path.ofText file := by
  obtain ⟨hbackslash, habsolute⟩ := h
  have hslashes : (Path.ofText (normalizePath file)).slashes = (Path.ofText file).slashes := by
    by_cases hfile : file.startsWith "/" = true
    · -- then nothing is dropped
      obtain ⟨rest, hrest⟩ := startsWith_slash_iff.mp hfile
      have hsame : normalizePath file = file := by
        rw [normalizePath, normalizeChars_of_not_mem hbackslash, hrest, dropDotSlashes, ← hrest,
          String.ofList_toList]
        rintro rest ⟨⟩
      rw [hsame]
    · rw [slashes_ofText_eq_zero hfile, slashes_ofText_eq_zero fun h => hfile (habsolute h)]
  have hnames := names_ofText_normalizePath hbackslash
  generalize Path.ofText (normalizePath file) = p at hslashes hnames
  generalize Path.ofText file = q at hslashes hnames
  cases p
  cases q
  cases hslashes
  cases hnames
  rfl

/-! ### Names -/

/-- A character that is no slash is in one of the parts between them. -/
theorem exists_mem_splitSlashes {c : Char} {cs : List Char} (hc : c ∈ cs) (hslash : c ≠ '/') :
    ∃ part ∈ splitSlashes cs, c ∈ part := by
  induction cs with
  | nil => cases hc
  | cons d cs ih =>
    rw [splitSlashes]
    by_cases hd : d = '/'
    · have hrest : c ∈ cs := (List.mem_cons.mp hc).resolve_left fun heq => hslash (heq.trans hd)
      obtain ⟨part, hpart, hmem⟩ := ih hrest
      rw [if_pos hd]
      exact ⟨part, List.mem_cons_of_mem _ hpart, hmem⟩
    · rw [if_neg hd]
      rcases List.mem_cons.mp hc with rfl | hrest
      · split
        · exact ⟨_, List.mem_cons_self .., List.mem_cons_self ..⟩
        · exact ⟨_, List.mem_cons_self .., List.mem_cons_self ..⟩
      · obtain ⟨part, hpart, hmem⟩ := ih hrest
        split
        · rename_i name names hsplit
          rw [hsplit, List.mem_cons] at hpart
          rcases hpart with rfl | hpart
          · exact ⟨_, List.mem_cons_self .., List.mem_cons_of_mem _ hmem⟩
          · exact ⟨part, List.mem_cons_of_mem _ hpart, hmem⟩
        · rename_i hsplit
          rw [hsplit] at hpart
          cases hpart

/-- Every character but slashes and dots is part of a name. So a backslash or a NUL in a path is one
    in a name. -/
theorem exists_name_mem {text : String} {c : Char} (hc : c ∈ text.toList) (hslash : c ≠ '/')
    (hdot : c ≠ '.') : ∃ name ∈ (Path.ofText text).names, c ∈ name.toList := by
  obtain ⟨part, hpart, hmem⟩ := exists_mem_splitSlashes hc hslash
  refine ⟨String.ofList part, List.mem_filter.mpr ⟨List.mem_map.mpr ⟨part, hpart, rfl⟩, ?_⟩, ?_⟩
  · have hidle : ∀ idle : String, c ∉ idle.toList → String.ofList part ≠ idle := by
      rintro idle hnot rfl
      exact hnot (by rwa [String.toList_ofList])
    have hempty := hidle "" (by simp)
    have hone := hidle "." (by simpa using hdot)
    simp [Path.isIdle, hempty, hone]
  · rwa [String.toList_ofList]

/-- A name of some length. -/
def rowName (n : Nat) : String := String.ofList (List.replicate (n + 1) 'w')

theorem isName_rowName (n : Nat) : Path.IsName (rowName n) ∧ rowName n ≠ ".." := by
  have hchars : (rowName n).toList = List.replicate (n + 1) 'w' := String.toList_ofList
  have hne : ∀ other : String, 'w' ∉ other.toList → rowName n ≠ other := by
    rintro other hnot rfl
    exact hnot (by simp [hchars])
  have hempty := hne "" (by decide)
  have hdot := hne "." (by decide)
  refine ⟨⟨by simp [Path.isIdle, hempty, hdot], ?_, ?_⟩, hne ".." (by decide)⟩
  all_goals
    rw [hchars]
    simp [List.mem_replicate]

/-- There is always another name. There is a row of letters of every length, and a list is
    finite. -/
theorem exists_fresh_name (names : List String) :
    ∃ name, Path.IsName name ∧ name ≠ ".." ∧ name ∉ names := by
  have hinjective : Function.Injective rowName := by
    intro n m h
    have hlength := congrArg (fun name : String => name.toList.length) h
    simpa [rowName] using hlength
  obtain ⟨_, ⟨n, rfl⟩, hfresh⟩ :=
    (Set.infinite_range_of_injective hinjective).exists_notMem_finset names.toFinset
  exact ⟨rowName n, (isName_rowName n).1, (isName_rowName n).2, by simpa using hfresh⟩

/-! ### Files in a project -/

/-- Two spellings lead to the same real path in a project, or both to none. -/
def Project.SameFile (p : Project) (file other : String) : Prop :=
  ∀ real, p.resolve file = .ok real ↔ p.resolve other = .ok real

/-- A file resolves to the text of the real path of its spelling below the folder of the project. -/
theorem Project.resolve_ok_iff {p : Project} {file text : String} :
    p.resolve file = .ok text ↔
      ∃ real, p.tree.resolve (p.root.join (.ofText file)) = .ok real ∧ text = real.text :=
  map_ok_iff

/-- Real paths differ if a name is in one of them only. Texts of paths tell their names. -/
theorem Project.not_sameFile {p : Project} {file other name : String} {names names' : List String}
    (hroot : p.root.IsRooted)
    (h : p.tree.resolve (p.root.join (.ofText file)) = .ok (.absolute names))
    (h' : p.tree.resolve (p.root.join (.ofText other)) = .ok (.absolute names'))
    (hname : name ∈ names) (hname' : name ∉ names') : ¬p.SameFile file other := by
  intro hsame
  have hspelled : ∀ {text real}, p.tree.resolve (p.root.join (.ofText text)) = .ok real →
      real.IsSpelled := by
    intro text real hreal
    have hjoin := hroot.join (Path.isSpelled_ofText text)
    refine (isRooted_of_resolve (fun name hname => ?_) hreal).isSpelled
    rw [namesFromRoot, if_pos hjoin.isAbsolute] at hname
    exact (hjoin.isSpelled name hname).2
  obtain ⟨real, hreal, htext⟩ :=
    Project.resolve_ok_iff.mp ((hsame _).mp (Project.resolve_ok_iff.mpr ⟨_, h, rfl⟩))
  obtain rfl := Except.ok.inj (h'.symm.trans hreal)
  cases (hspelled h).text_inj (hspelled h') htext
  exact hname' hname

/-- A spelling with a NUL has no real path. So it is the same file as any other such spelling,
    namely none. -/
theorem Project.resolve_of_nul {p : Project} {file text : String} (h : '\x00' ∈ file.toList) :
    p.resolve file ≠ .ok text := by
  intro hok
  obtain ⟨real, hreal, _⟩ := Project.resolve_ok_iff.mp hok
  obtain ⟨name, hname, hnul⟩ := exists_name_mem h (by decide) (by decide)
  have hjoin : name ∈ (p.root.join (.ofText file)).names := by
    unfold Path.join
    split
    · exact hname
    · exact List.mem_append_right _ hname
  have hany : (p.root.join (.ofText file)).names.any (fun n => n.toList.contains '\x00') = true :=
    List.any_eq_true.mpr ⟨name, hjoin, by simpa using hnul⟩
  rw [FileTree.resolve, if_pos hany] at hreal
  cases hreal

/-- Plain spellings lead where the spelling leads that is matched. They are the same path, whatever
    the project. -/
theorem Project.sameFile_of_isPlain (p : Project) {file : String} (h : IsPlain file) :
    p.SameFile file (normalizePath file) := by
  intro real
  rw [Project.resolve, Project.resolve, ofText_normalizePath h]

/-- A NUL stays in the spelling that is matched. Nothing that is dropped or replaced is one. -/
theorem nul_mem_normalizePath_iff {file : String} :
    '\x00' ∈ (normalizePath file).toList ↔ '\x00' ∈ file.toList := by
  rw [toList_normalizePath, normalizeChars]
  have hmap : '\x00' ∈ file.toList.map (fun c => if c = '\\' then '/' else c) ↔
      '\x00' ∈ file.toList := by
    rw [List.mem_map]
    constructor
    · rintro ⟨c, hc, heq⟩
      split at heq
      · cases heq
      · exact heq ▸ hc
    · intro hmem
      exact ⟨_, hmem, rfl⟩
  rw [← hmap]
  refine ⟨fun h => (dropDotSlashes_suffix _).mem h, ?_⟩
  generalize file.toList.map _ = cs
  fun_induction dropDotSlashes cs with
  | case1 rest ih =>
    intro h
    exact ih (by simpa using h)
  | case2 cs _ => exact id

/-! ### Dots in front of a slash -/

/-- Where a path is made absolute by dropping `./`, it no longer leads into the folder. An empty
    project, deeper down than the path can go up, tells them apart. -/
theorem exists_not_sameFile_of_relative {file : String} (hnul : '\x00' ∉ file.toList)
    (hbackslash : '\\' ∉ file.toList) (habsolute : (normalizePath file).startsWith "/" = true)
    (hrelative : ¬file.startsWith "/" = true) :
    ∃ p : Project, ¬p.SameFile file (normalizePath file) := by
  have hnames := names_ofText_normalizePath hbackslash
  obtain ⟨w, hw, hup, hfresh⟩ := exists_fresh_name (Path.ofText file).names
  -- More folders deep than the path can go up.
  have hfolders : ∀ name ∈ List.replicate ((Path.ofText file).names.length + 1) w,
      Path.IsName name := by
    intro name hname
    rwa [(List.mem_replicate.mp hname).2]
  have hno : ∀ (place : List String) (target : String),
      FileTree.empty.root.find? place ≠ some (.link target) :=
    fun place target => Node.find?_ne_link rfl place target
  have hfile : (Path.ofText file).isAbsolute = false := by
    simp [Path.isAbsolute, slashes_ofText_eq_zero hrelative]
  have hreal := resolve_join (t := .empty) hfolders hnul (names_join _ _) fun _ _ => hno _
  have hreal' := resolve_join (t := .empty) hfolders
    (fun h => hnul (nul_mem_normalizePath_iff.mp h)) (names_join _ _) fun _ _ => hno _
  rw [hfile, if_neg Bool.false_ne_true] at hreal
  rw [if_pos (Path.isRooted_ofText habsolute).isAbsolute, hnames] at hreal'
  refine ⟨⟨.empty, _⟩, Project.not_sameFile
    (Path.isRooted_absolute fun name hname => (hfolders name hname).isSegment) hreal hreal'
    (?_ : w ∈ _) ?_⟩
  · rw [List.foldl_append, foldl_of_ne_up, List.reverse_replicate, List.replicate_succ']
    · have hlength : (Path.ofText file).names.length ≤
          (List.replicate (Path.ofText file).names.length w).length := by simp
      obtain ⟨behind, hbehind⟩ :=
        exists_foldl_eq_append hlength (by simp [hup.symm]) [w] (by simp [hup.symm])
      rw [hbehind]
      simp
    · intro name hname
      rwa [(List.mem_replicate.mp hname).2]
  · intro hmem
    exact hfresh (mem_of_mem_foldl (List.mem_reverse.mp hmem))

/-! ### Backslashes -/

/-- A node inside folders of these names, each of which holds nothing else. -/
def nested (inner : Node) : List String → Node
  | [] => inner
  | name :: names => .folder [(name, nested inner names)]

theorem place_of_nested_link {target other : String} {names place : List String}
    (h : (nested (.link target) names).find? place = some (.link other)) :
    place = names ∧ other = target := by
  induction names generalizing place with
  | nil =>
    cases place with
    | nil =>
      obtain ⟨⟩ := Option.some.inj h
      exact ⟨rfl, rfl⟩
    | cons name place => cases h
  | cons name names ih =>
    cases place with
    | nil => cases Option.some.inj h
    | cons first place =>
      obtain ⟨inner, hinner, h⟩ := Option.bind_eq_some_iff.mp h
      rw [Node.childNamed?] at hinner
      split at hinner
      · rename_i hfirst
        obtain rfl := Option.some.inj hinner
        obtain ⟨hplace, htarget⟩ := ih h
        exact ⟨by rw [hplace, ← show name = first from hfirst], htarget⟩
      · cases hinner

theorem find?_nested (inner : Node) (names : List String) :
    (nested inner names).find? names = some inner := by
  induction names with
  | nil => rfl
  | cons name names ih => simpa [nested, Node.find?, Node.childNamed?] using ih

/-- The first name with a backslash, and the names before and behind it. All that comes before leads
    to the same place in either spelling. -/
theorem exists_first_backslash {names : List String} (h : ∃ name ∈ names, '\\' ∈ name.toList) :
    ∃ before name after, names = before ++ name :: after ∧ '\\' ∈ name.toList ∧ name ∉ before := by
  have hfound : (names.find? fun name => name.toList.contains '\\').isSome := by simpa using h
  obtain ⟨name, hname⟩ := Option.isSome_iff_exists.mp hfound
  obtain ⟨hmem, before, after, hnames, hbefore⟩ := List.find?_eq_some_iff_append.mp hname
  refine ⟨before, name, after, hnames, by simpa using hmem, fun hin => ?_⟩
  have hnot := hbefore name hin
  rw [hmem] at hnot
  cases hnot

/-- A tree with nothing but a link in some place, which leads to the path of other names. -/
def signpost (place far : List String) : FileTree :=
  ⟨nested (.link (Path.absolute far).text) place, []⟩

theorem eq_of_signpost_link {place far names : List String} {target : String}
    (h : (signpost place far).root.find? names = some (.link target)) : names = place :=
  (place_of_nested_link h).1

/-- Names that come to the link for the first time go on from where it leads. It is followed once,
    since the name does not come again before it. -/
theorem settle_signpost {before far : List String} {name : String} (rest : List String)
    (hbefore : ∀ other ∈ before, Path.isIdle other = false) (hname : Path.isIdle name = false)
    (hup : name ≠ "..") (hnot : name ∉ before) (hne : far ≠ [])
    (hfar : ∀ other ∈ far, Path.IsName other ∧ other ≠ ".." ∧ other ≠ name) {t : FileTree}
    (ht : t = signpost ((name :: before.foldl (Path.collapseStep true) []).reverse) far) :
    settle t.root (t.root.linkCount + 1) [] [] (before ++ name :: rest) =
      settle t.root (t.root.linkCount + 1) [] far.reverse rest := by
  -- The place of the link has the name, so nothing else that is passed is the link.
  have hno : ∀ {names}, name ∉ names → ∀ before, before <+: names → ∀ target,
      t.root.find? (before.foldl (Path.collapseStep true) []).reverse ≠ some (.link target) := by
    intro names hnot other hother target h
    rw [ht] at h
    have hmem : name ∈ (other.foldl (Path.collapseStep true) []).reverse := by
      simp [eq_of_signpost_link h]
    exact hnot (hother.subset (mem_of_mem_foldl (List.mem_reverse.mp hmem)))
  have hto := settle_eq_foldl (t.root.linkCount + 1) [] List.not_mem_nil hbefore (hno hnot)
  have hclean : (Path.absolute far).IsClean := ⟨hne, fun other hother => (hfar other hother).1⟩
  have htarget : (Path.absolute far).text.startsWith "/" = true := Path.startsWith_text hclean
  have hfollow : settle t.root t.root.linkCount [name :: before.foldl (Path.collapseStep true) []]
      (if (Path.absolute far).text.startsWith "/" then []
        else before.foldl (Path.collapseStep true) []) (namesOf (Path.absolute far).text) =
        (far.reverse, true) := by
    rw [if_pos htarget, Path.namesOf_text hclean, settle_replicate]
    refine (settle_eq_foldl _ _ List.not_mem_nil (fun other hother => (hfar other hother).1.1)
      (hno fun hmem => (hfar name hmem).2.2 rfl)).trans ?_
    rw [foldl_of_ne_up fun other hother => (hfar other hother).2.1]
  have hlink : t.root.find? (name :: before.foldl (Path.collapseStep true) []).reverse =
      some (.link (Path.absolute far).text) := by
    rw [ht]
    exact find?_nested _ _
  rw [settle_append _ _ _ _ hto, settle_through (by simp [hname]) hup hlink (by simp) hfollow]

/-- Behind a link to more names than a path can go up, the real path keeps the first of them.
    However many of the names behind go up, some of the way is left. -/
theorem exists_resolve_of_signpost {file w name : String} {before after : List String}
    (hnul : '\x00' ∉ file.toList) (hnames : (Path.ofText file).names = before ++ name :: after)
    (hup : name ≠ "..") (hnot : name ∉ before) (hw : Path.IsName w) (hwup : w ≠ "..")
    (hfresh : w ∉ before ++ name :: after) {t : FileTree}
    (ht : t = signpost ((name :: before.foldl (Path.collapseStep true) []).reverse)
      (List.replicate (after.length + 1) w)) :
    ∃ names, t.resolve ((Path.absolute []).join (.ofText file)) = .ok (.absolute names) ∧
      w ∈ names := by
  have hidle : ∀ other ∈ before ++ name :: after, Path.isIdle other = false :=
    fun other hother => (Path.of_mem_names_ofText (hnames ▸ hother)).1.1
  rw [List.forall_mem_append, List.forall_mem_cons] at hidle
  rw [List.mem_append, List.mem_cons, not_or, not_or] at hfresh
  obtain ⟨hfreshBefore, hfreshName, _⟩ := hfresh
  have hfar : ∀ other ∈ List.replicate (after.length + 1) w,
      Path.IsName other ∧ other ≠ ".." ∧ other ≠ name := by
    intro other hother
    obtain rfl := (List.mem_replicate.mp hother).2
    exact ⟨hw, hwup, hfreshName⟩
  have hsettle := settle_signpost after hidle.1 hidle.2.1 hup hnot (by simp) hfar ht
  rw [List.reverse_replicate, List.replicate_succ'] at hsettle
  -- The names behind cannot lead up out of the place that the link leads to.
  have hback : ∀ rest : List String, rest.length ≤ after.length → ∃ behind,
      rest.foldl (Path.collapseStep true) (List.replicate after.length w ++ [w]) = behind ++ [w] :=
    fun rest hlength => exists_foldl_eq_append (by simpa using hlength) (by simp [hwup.symm]) [w]
      (by simp [hwup.symm])
  have hstart : ".." ∉ List.replicate after.length w ++ [w] := by simp [hwup.symm]
  rw [settle_eq_foldl _ _ hstart hidle.2.2] at hsettle
  · rw [← hnames, ← names_join_root (.ofText file), ← namesFromRoot_join t] at hsettle
    refine ⟨_, resolve_of_settle ?_ (up_not_mem_foldl hstart _) hsettle, ?_⟩
    · intro other hother
      rw [names_join_root] at hother
      exact nul_not_mem_names hnul hother
    · obtain ⟨behind, hrest⟩ := hback after (Nat.le_refl _)
      simp [hrest]
  · intro rest hbefore target h
    obtain ⟨behind, hrest⟩ := hback rest hbefore.length_le
    rw [ht] at h
    have hmem : w ∈ (name :: before.foldl (Path.collapseStep true) []).reverse := by
      rw [← eq_of_signpost_link h, hrest]
      simp
    rw [List.mem_reverse, List.mem_cons] at hmem
    exact hmem.elim hfreshName fun hmem => hfreshBefore (mem_of_mem_foldl hmem)

/-- Where the first name with a backslash is a link to far away, the spelling that is matched leads
    somewhere else: it does not have the name. So for every such spelling there is a project that
    tells the two apart. -/
theorem exists_not_sameFile_of_backslash {file : String} (hnul : '\x00' ∉ file.toList)
    (hbackslash : '\\' ∈ file.toList) : ∃ p : Project, ¬p.SameFile file (normalizePath file) := by
  obtain ⟨before, name, after, hnames, hname, hbefore⟩ :=
    exists_first_backslash (exists_name_mem hbackslash (by decide) (by decide))
  have hup : name ≠ ".." := by
    rintro rfl
    revert hname
    decide
  -- The spelling that is matched has no backslash, so it does not pass the link.
  have hmatched : name ∉ (Path.ofText (normalizePath file)).names := by
    intro hmem
    have hchar := (Path.of_mem_names_ofText hmem).2 _ hname
    rw [toList_normalizePath] at hchar
    exact not_mem_normalizeChars _ hchar
  obtain ⟨w, hw, hwup, hfresh⟩ :=
    exists_fresh_name ((Path.ofText file).names ++ (Path.ofText (normalizePath file)).names)
  rw [List.mem_append, not_or, hnames] at hfresh
  obtain ⟨names, hreal, hmem⟩ :=
    exists_resolve_of_signpost hnul hnames hup hbefore hw hwup hfresh.1 rfl
  refine ⟨⟨_, .absolute []⟩, Project.not_sameFile (Path.isRooted_absolute (List.forall_mem_nil _))
    hreal (resolve_join (List.forall_mem_nil _) (fun h => hnul (nul_mem_normalizePath_iff.mp h))
      (names_join_root _) ?_) hmem fun h => hfresh.2 (mem_of_mem_foldl (List.mem_reverse.mp h))⟩
  intro rest hbefore target h
  have hmem : name ∈ (rest.foldl (Path.collapseStep true) []).reverse := by
    simp [eq_of_signpost_link h]
  exact hmatched (hbefore.subset (mem_of_mem_foldl (List.mem_reverse.mp hmem)))

/-- A spelling leads to the same file as the one that is matched, whatever the project, exactly if
    it is plain or has no file at all. In the one direction the two are the same path; in the other,
    projects are built that tell them apart. -/
theorem sameFile_normalizePath_iff {file : String} :
    (∀ p : Project, p.SameFile file (normalizePath file)) ↔
      '\x00' ∈ file.toList ∨ IsPlain file := by
  constructor
  · intro h
    by_contra hneither
    obtain ⟨hnul, hplain⟩ := not_or.mp hneither
    have hother : ∃ p : Project, ¬p.SameFile file (normalizePath file) := by
      by_cases hbackslash : '\\' ∈ file.toList
      · exact exists_not_sameFile_of_backslash hnul hbackslash
      · obtain ⟨habsolute, hrelative⟩ :=
          Classical.not_imp.mp fun himp => hplain ⟨hbackslash, himp⟩
        exact exists_not_sameFile_of_relative hnul hbackslash habsolute hrelative
    obtain ⟨p, hp⟩ := hother
    exact hp (h p)
  · rintro (hnul | hplain) p
    · intro real
      exact iff_of_false (Project.resolve_of_nul hnul)
        (Project.resolve_of_nul (nul_mem_normalizePath_iff.mpr hnul))
    · exact p.sameFile_of_isPlain hplain

end Backlog
