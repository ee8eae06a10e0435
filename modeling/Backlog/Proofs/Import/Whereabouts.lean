import Backlog.Proofs.Import.Candidates

namespace Backlog

open Backlog.Files

/-!
# Where an import is looked for

The places of an import, said without the search: which folders count, which files a module can have
there, and which files a script may mean by a path.

* `IsPythonBase`, `IsModuleFile`, `IsModulePlace` — the folders where an absolute or a relative import
  begins, and the files of a module and of the names that are imported from it;
* `IsScriptTarget`, `IsScriptFile` — the path that a specifier stands for, and the files that it can
  mean;
* `IsCandidate` — the places of an import; `mem_search_iff` — they are the ones that are searched.
-/

/-! ### Modules of Python -/

/-- A folder that an import begins at, with the dotted name that is looked for there. -/
inductive IsPythonBase (specifier : String) (importer root : Path) : Path × String → Prop
  /-- Without dots in front, some folders of the project count. -/
  | folder {name : String} (h : specifier.toList.head? ≠ some '.') (hname : name ∈ ["src", "lib", "app"]) :
      IsPythonBase specifier importer root (root.child name, specifier)
  /-- So does the project itself. -/
  | root (h : specifier.toList.head? ≠ some '.') :
      IsPythonBase specifier importer root (root, specifier)
  /-- One dot is the folder of the importing file, and each further dot one folder up. -/
  | package {level : Nat} {rest : List Char}
      (h : specifier.toList = List.replicate (level + 1) '.' ++ rest) (hrest : rest.head? ≠ some '.') :
      IsPythonBase specifier importer root (above importer (level + 1), String.ofList rest)

/-- The path of some names below a folder. -/
def Files.Path.below (base : Path) (names : List String) : Path :=
  names.foldl (fun p name => p.join (.ofText name)) base

/-- A file of the module with a dotted name, looked for below a folder. -/
inductive IsModuleFile (base : Path) (dotted : String) : Path → Prop
  /-- The module is a file of its own. -/
  | file (h : splitDots dotted.toList ≠ []) :
      IsModuleFile base dotted
        ((base.below (splitDots dotted.toList)).parent.child
          ((base.below (splitDots dotted.toList)).name ++ ".py"))
  /-- The module is a package. -/
  | package : IsModuleFile base dotted ((base.below (splitDots dotted.toList)).child "__init__.py")

/-- A file of a module below a folder, or of a name that is imported from it. -/
inductive IsModulePlace (names : List String) (base : Path × String) (c : Path) : Prop
  | module (h : IsModuleFile base.1 base.2 c)
  | member {name : String} (hname : name ∈ names) (h : IsModuleFile base.1 s!"{base.2}.{name}" c)

/-- The dots in front are counted in one way only. What is behind them begins with no dot. -/
theorem leadingDots_eq_iff {cs rest : List Char} {level : Nat} :
    leadingDots cs = (level, rest) ↔
      cs = List.replicate level '.' ++ rest ∧ rest.head? ≠ some '.' := by
  induction cs generalizing level with
  | nil =>
    have hnil : leadingDots [] = (0, []) := rfl
    cases level with
    | zero =>
      rw [hnil, List.replicate_zero, List.nil_append, Prod.mk.injEq, and_iff_right rfl]
      exact ⟨fun h => ⟨h, h ▸ nofun⟩, fun h => h.1⟩
    | succ level => simp [hnil, List.replicate_succ]
  | cons c cs ih =>
    by_cases hc : c = '.'
    · subst hc
      rw [leadingDots]
      cases level with
      | zero =>
        constructor
        · intro h
          cases h
        · rintro ⟨rfl, hrest⟩
          exact absurd rfl hrest
      | succ level =>
        rw [List.replicate_succ, List.cons_append, List.cons.injEq, and_iff_right rfl, ← ih]
        show (((leadingDots cs).1 + 1, (leadingDots cs).2) = (level + 1, rest)) ↔ _
        rw [Prod.mk.injEq, Nat.add_right_cancel_iff, Prod.ext_iff]
    · have hzero : leadingDots (c :: cs) = (0, c :: cs) := by
        rw [leadingDots]
        simpa using hc
      rw [hzero]
      cases level with
      | zero =>
        rw [List.replicate_zero, List.nil_append, Prod.mk.injEq, and_iff_right rfl]
        refine ⟨fun h => ⟨h, ?_⟩, fun h => h.1⟩
        rw [← h, List.head?_cons, ne_eq, Option.some.injEq]
        exact hc
      | succ level =>
        simp only [List.replicate_succ, List.cons_append, List.cons.injEq, hc, false_and, iff_false]
        exact nofun

/-- The folders in which sources are often kept are entries of the root. -/
theorem join_folder {root : Path} {name : String} (h : name ∈ ["src", "lib", "app"]) :
    root.join (.ofText name) = root.child name := by
  have hname : ∀ name ∈ ["src", "lib", "app"], Path.IsName name := by decide
  rw [Path.ofText_name (hname name h)]
  rfl

theorem join_nothing (root : Path) : root.join (.ofText "") = root := by
  show (⟨root.slashes, root.names ++ []⟩ : Path) = root
  rw [List.append_nil]

/-- The bases of an import in Python: folders above the importing file for one with dots, and
    otherwise the root and the folders in which sources are often kept. -/
theorem mem_pythonBases_iff {specifier : String} {importer root : Path} {base : Path × String} :
    base ∈ pythonBases specifier importer root ↔ IsPythonBase specifier importer root base := by
  have hfolders : pythonFolders = ["src", "lib", "app"] ++ [""] := rfl
  unfold pythonBases
  split
  · rename_i rest hdots
    obtain ⟨heq, hrest⟩ := leadingDots_eq_iff.mp hdots
    -- Without dots in front, the module is looked for in all folders of the project.
    have hhead : specifier.toList.head? ≠ some '.' := heq ▸ hrest
    rw [hfolders, List.map_append, List.mem_append, List.mem_map, List.map_singleton,
      List.mem_singleton, join_nothing]
    constructor
    · rintro (⟨name, hname, rfl⟩ | rfl)
      · rw [join_folder hname]
        exact .folder hhead hname
      · exact .root hhead
    · rintro (⟨_, hname⟩ | _ | ⟨hdotted, _⟩)
      · exact .inl ⟨_, hname, by rw [join_folder hname]⟩
      · exact .inr rfl
      · rw [hdotted] at hhead
        exact absurd rfl hhead
  · rename_i level rest hlevel hdots
    obtain ⟨heq, hrest⟩ := leadingDots_eq_iff.mp hdots
    -- With dots in front, only the folder that these lead to will do.
    obtain ⟨level, rfl⟩ := Nat.exists_eq_succ_of_ne_zero hlevel
    have hhead : specifier.toList.head? = some '.' := by rw [heq]; rfl
    rw [List.mem_singleton, Nat.succ_sub_one]
    constructor
    · rintro rfl
      exact .package heq hrest
    · rintro (⟨hno, _⟩ | hno | ⟨hdotted, hafter⟩)
      · exact absurd hhead hno
      · exact absurd hhead hno
      · have hsame := (leadingDots_eq_iff.mpr ⟨hdotted, hafter⟩).symm.trans hdots
        obtain ⟨hlevels, rfl⟩ := Prod.mk.inj hsame
        rw [hlevels]
        rfl

/-- A module is a file with its name or a package, which is a folder with an initial file. -/
theorem mem_moduleFiles_iff {base : Path} {dotted : String} {c : Path} :
    c ∈ moduleFiles base dotted ↔ IsModuleFile base dotted c := by
  unfold moduleFiles
  split
  · rename_i hnil
    rw [List.mem_singleton]
    constructor
    · rintro rfl
      have hpackage : IsModuleFile base dotted _ := .package
      rwa [hnil] at hpackage
    · rintro (hne | _)
      · exact absurd hnil hne
      · rw [hnil]
        rfl
  · rename_i names hne
    rw [List.mem_cons, List.mem_singleton]
    constructor
    · rintro (rfl | rfl)
      · exact .file hne
      · exact .package
    · rintro (_ | _)
      · exact .inl rfl
      · exact .inr rfl

/-- From a base, an import is that of the module or of one of the names imported from it, which may
    be modules themselves. -/
theorem mem_pythonCandidates_iff {names : List String} {base : Path × String} {c : Path} :
    (∃ candidates ∈ pythonCandidates names base.1 base.2, c ∈ candidates) ↔
      IsModulePlace names base c := by
  unfold pythonCandidates
  constructor
  · rintro ⟨candidates, hcandidates, hc⟩
    rcases List.mem_cons.mp hcandidates with rfl | hmember
    · exact .module (mem_moduleFiles_iff.mp hc)
    · obtain ⟨name, hname, rfl⟩ := List.mem_map.mp hmember
      exact .member hname (mem_moduleFiles_iff.mp hc)
  · rintro (h | ⟨hname, h⟩)
    · exact ⟨_, List.mem_cons_self, mem_moduleFiles_iff.mpr h⟩
    · exact ⟨_, List.mem_cons_of_mem _ (List.mem_map_of_mem hname), mem_moduleFiles_iff.mpr h⟩

/-! ### Paths of scripts -/

/-- The path that a specifier of a script stands for. Every other specifier names a package. -/
inductive IsScriptTarget (specifier : String) (importer root : Path) : Path → Prop
  /-- A relative path begins at the folder of the importing file. -/
  | relative (h : specifier = "." ∨ specifier = ".." ∨ ∃ start ∈ ["./", "../"], ∃ rest,
      specifier = start ++ rest) :
      IsScriptTarget specifier importer root ((importer.parent.join (.ofText specifier)).collapsed)
  /-- An alias begins at a folder of the project. -/
  | alias {start rest : String} (hstart : start ∈ ["@/", "~/"]) (h : specifier = start ++ rest) :
      IsScriptTarget specifier importer root ((root.join (.ofText ("src/" ++ rest))).collapsed)

/-- The suffix of a file that is made from another one, and the suffix of that. -/
def emittedSuffixes : List (String × String) :=
  [(".js", ".ts"), (".js", ".tsx"), (".jsx", ".tsx"), (".mjs", ".mts"), (".cjs", ".cts")]

/-- A file that the path of a script can mean. -/
inductive IsScriptFile (target : Path) : Path → Prop
  | itself : IsScriptFile target target
  /-- The source that the file is made from. -/
  | source {ending : String} (h : (target.suffix, ending) ∈ emittedSuffixes) :
      IsScriptFile target (target.withSuffix ending)
  /-- The file whose suffix is left out. -/
  | extended {suffix : String} (h : suffix ∈ scriptSuffixes) :
      IsScriptFile target (target.parent.child (target.name ++ suffix))
  /-- The index of a folder. -/
  | index {suffix : String} (h : suffix ∈ scriptSuffixes) :
      IsScriptFile target (target.child ("index" ++ suffix))

/-- A text starts with another one if it is that one with something behind it. -/
theorem startsWith_iff_append {text start : String} :
    text.startsWith start = true ↔ ∃ rest, text = start ++ rest := by
  rw [String.startsWith_string_iff]
  constructor
  · rintro ⟨rest, hrest⟩
    exact ⟨String.ofList rest, by rw [← String.toList_inj, String.toList_append, String.toList_ofList,
      hrest]⟩
  · rintro ⟨rest, rfl⟩
    exact ⟨rest.toList, String.toList_append.symm⟩

/-- The start of a text is exchanged only if the text has it. What is behind it is kept. -/
theorem exchangeStart_eq_some_iff {text start replacement result : String} :
    exchangeStart text start replacement = some result ↔
      ∃ rest, text = start ++ rest ∧ result = replacement ++ rest := by
  unfold exchangeStart
  by_cases h : text.startsWith start = true
  · obtain ⟨rest, rfl⟩ := startsWith_iff_append.mp h
    have hdrop : String.ofList ((start ++ rest).toList.drop start.length) = rest := by
      rw [String.toList_append, ← String.length_toList, List.drop_left, String.ofList_toList]
    rw [if_pos h, hdrop, Option.some.injEq]
    constructor
    · rintro rfl
      exact ⟨rest, rfl, rfl⟩
    · rintro ⟨other, heq, rfl⟩
      rw [String.append_right_inj] at heq
      rw [heq]
  · rw [if_neg h]
    constructor
    · exact nofun
    · rintro ⟨rest, rfl, _⟩
      exact absurd (startsWith_iff_append.mpr ⟨rest, rfl⟩) h

/-- The table of suffixes, read from both sides: an emitted suffix and one that it may have been
    compiled from. -/
theorem mem_emittedSuffixes_iff {suffix ending : String} :
    (suffix, ending) ∈ emittedSuffixes ↔ ending ∈ sourceSuffixes suffix := by
  unfold sourceSuffixes
  split
  · simp [emittedSuffixes]
  · simp [emittedSuffixes]
  · simp [emittedSuffixes]
  · simp [emittedSuffixes]
  · rename_i h₁ h₂ h₃ h₄
    simp only [emittedSuffixes, List.mem_cons, Prod.mk.injEq, List.not_mem_nil, or_false, iff_false]
    rintro (⟨rfl, _⟩ | ⟨rfl, _⟩ | ⟨rfl, _⟩ | ⟨rfl, _⟩ | ⟨rfl, _⟩)
    · exact h₁ rfl
    · exact h₁ rfl
    · exact h₂ rfl
    · exact h₃ rfl
    · exact h₄ rfl

/-- The beginnings of relative paths. Two dots without a slash are a path of their own, and a name
    that begins with dots is not relative. -/
theorem isRelative_iff {specifier : String} :
    (specifier.startsWith "./" || specifier.startsWith "../" || specifier = "." || specifier = "..") =
        true ↔
      specifier = "." ∨ specifier = ".." ∨ ∃ start ∈ ["./", "../"], ∃ rest,
        specifier = start ++ rest := by
  simp only [Bool.or_eq_true, startsWith_iff_append, decide_eq_true_eq, List.mem_cons,
    List.not_mem_nil, or_false, exists_eq_or_imp, exists_eq_left]
  constructor
  · rintro (((h | h) | h) | h)
    · exact .inr (.inr (.inl h))
    · exact .inr (.inr (.inr h))
    · exact .inl h
    · exact .inr (.inl h)
  · rintro (h | h | h | h)
    · exact .inl (.inr h)
    · exact .inr h
    · exact .inl (.inl (.inl h))
    · exact .inl (.inl (.inr h))

/-- A text begins as its first part does. So it is told by its first character that it is not an
    alias. -/
theorem head?_append_of_head? (start : String) {c : Char} (h : start.toList.head? = some c)
    (rest : String) : (start ++ rest).toList.head? = some c := by
  rw [String.toList_append, List.head?_append, h, Option.some_or]

/-- A relative path begins with a dot. -/
theorem head?_of_relative {specifier : String}
    (h : specifier = "." ∨ specifier = ".." ∨ ∃ start ∈ ["./", "../"], ∃ rest,
      specifier = start ++ rest) : specifier.toList.head? = some '.' := by
  rcases h with rfl | rfl | ⟨start, hstart, rest, rfl⟩
  · rfl
  · rfl
  · have hdots : ∀ start ∈ ["./", "../"], start.toList.head? = some '.' := by decide
    exact head?_append_of_head? start (hdots start hstart) rest

/-- An alias stands for one path only: what is in front of it tells which one. So the order in which
    the aliases are tried does not matter. -/
theorem findSome?_scriptAliases_iff {specifier text : String} :
    scriptAliases.findSome? (fun a => exchangeStart specifier a.1 a.2) = some text ↔
      ∃ start ∈ ["@/", "~/"], ∃ rest, specifier = start ++ rest ∧ text = "src/" ++ rest := by
  have hapart : ∀ rest other : String, "@/" ++ rest ≠ "~/" ++ other := by
    intro rest other heq
    have hat := head?_append_of_head? "@/" rfl rest
    rw [heq, head?_append_of_head? "~/" rfl other] at hat
    exact absurd hat (by decide)
  have hfind : scriptAliases.findSome? (fun a => exchangeStart specifier a.1 a.2) = some text ↔
      exchangeStart specifier "@/" "src/" = some text ∨
        exchangeStart specifier "@/" "src/" = none ∧
          exchangeStart specifier "~/" "src/" = some text := by
    simp only [scriptAliases, List.findSome?_cons, List.findSome?_nil]
    cases exchangeStart specifier "@/" "src/" <;> cases exchangeStart specifier "~/" "src/" <;> simp
  rw [hfind]
  simp only [List.mem_cons, List.not_mem_nil, or_false, exists_eq_or_imp, exists_eq_left,
    exchangeStart_eq_some_iff]
  constructor
  · rintro (h | ⟨_, h⟩)
    · exact .inl h
    · exact .inr h
  · rintro (h | ⟨rest, rfl, htext⟩)
    · exact .inl h
    · refine .inr ⟨?_, rest, rfl, htext⟩
      rw [Option.eq_none_iff_forall_ne_some]
      intro other hother
      obtain ⟨_, heq, _⟩ := exchangeStart_eq_some_iff.mp hother
      exact hapart _ _ heq.symm

/-- The target of an import of a script: beside the importing file if the path is relative, in the
    sources of the project behind an alias. A package of another project has none. -/
theorem scriptTarget?_eq_some_iff {specifier : String} {importer root target : Path} :
    scriptTarget? specifier importer root = some target ↔
      IsScriptTarget specifier importer root target := by
  unfold scriptTarget?
  split
  · rename_i hrelative
    have h := isRelative_iff.mp hrelative
    rw [Option.some.injEq]
    constructor
    · rintro rfl
      exact .relative h
    · rintro (_ | ⟨hstart, rfl⟩)
      · rfl
      · -- no alias begins with a dot
        rename_i start rest
        have hdot := head?_of_relative h
        simp only [List.mem_cons, List.not_mem_nil, or_false] at hstart
        rcases hstart with rfl | rfl
        · rw [head?_append_of_head? "@/" rfl rest] at hdot
          exact absurd hdot (by decide)
        · rw [head?_append_of_head? "~/" rfl rest] at hdot
          exact absurd hdot (by decide)
  · rename_i hrelative
    rw [Option.map_eq_some_iff]
    simp only [findSome?_scriptAliases_iff]
    constructor
    · rintro ⟨_, ⟨start, hstart, rest, rfl, rfl⟩, rfl⟩
      exact .alias hstart rfl
    · rintro (h | ⟨hstart, rfl⟩)
      · exact absurd (isRelative_iff.mpr h) hrelative
      · exact ⟨_, ⟨_, hstart, _, rfl, rfl⟩, rfl⟩

/-- The files that the target of an import may be: itself with each of the suffixes, in exchange for
    an emitted one too, and the index of a folder. -/
theorem mem_scriptCandidates_iff {target : Path} {candidates : Candidates}
    (h : scriptCandidates target = .ok candidates) {c : Path} :
    c ∈ candidates ↔ IsScriptFile target c := by
  unfold scriptCandidates at h
  split at h
  · cases h
  · rw [Except.ok.injEq] at h
    subst h
    simp only [List.cons_append, List.append_assoc, List.mem_cons, List.mem_append, List.mem_map]
    constructor
    · rintro (rfl | ⟨ending, hending, rfl⟩ | ⟨suffix, hsuffix, rfl⟩ | ⟨suffix, hsuffix, rfl⟩)
      · exact .itself
      · exact .source (mem_emittedSuffixes_iff.mpr hending)
      · exact .extended hsuffix
      · exact .index hsuffix
    · rintro (_ | hending | hsuffix | hsuffix)
      · exact .inl rfl
      · exact .inr (.inl ⟨_, mem_emittedSuffixes_iff.mp hending, rfl⟩)
      · exact .inr (.inr (.inl ⟨_, hsuffix, rfl⟩))
      · exact .inr (.inr (.inr ⟨_, hsuffix, rfl⟩))

/-! ### Both -/

/-- A place where an import is looked for. -/
inductive IsCandidate (i : WrittenImport) (importer root : Path) : Language → Path → Prop
  | python {base : Path × String} {c : Path} (hbase : IsPythonBase i.specifier importer root base)
      (h : IsModulePlace i.names base c) : IsCandidate i importer root .python c
  | script {markup : Bool} {target c : Path} (htarget : IsScriptTarget i.specifier importer root target)
      (h : IsScriptFile target c) : IsCandidate i importer root (.ecmascript markup) c

/-- What is searched are the places of the import. Whether the import is one of Python or of a
    script, this is the one statement that tells what is searched. -/
theorem mem_search_iff {i : WrittenImport} {language : Language} {importer root : Path}
    {rows : List (List Candidates)} (h : i.search language importer root = .ok rows) {c : Path} :
    (∃ row ∈ rows, ∃ candidates ∈ row, c ∈ candidates) ↔ IsCandidate i importer root language c := by
  cases language with
  | python =>
    rw [WrittenImport.search, Except.ok.injEq] at h
    subst h
    constructor
    · rintro ⟨row, hrow, hc⟩
      obtain ⟨base, hbase, rfl⟩ := List.mem_map.mp hrow
      exact .python (mem_pythonBases_iff.mp hbase) (mem_pythonCandidates_iff.mp hc)
    · rintro (⟨hbase, hc⟩ | _)
      exact ⟨_, List.mem_map_of_mem (mem_pythonBases_iff.mpr hbase), mem_pythonCandidates_iff.mpr hc⟩
  | ecmascript markup =>
    obtain ⟨htarget, rfl⟩ | ⟨target, candidates, htarget, hcandidates, rfl⟩ :=
      WrittenImport.search_script_ok h
    · constructor
      · rintro ⟨_, hrow, _⟩
        cases hrow
      · rintro (_ | ⟨hsome, _⟩)
        rw [scriptTarget?_eq_some_iff.mpr hsome] at htarget
        cases htarget
    · simp only [List.mem_singleton, exists_eq_left, mem_scriptCandidates_iff hcandidates]
      constructor
      · intro hc
        exact .script (scriptTarget?_eq_some_iff.mp htarget) hc
      · rintro (_ | ⟨hsome, hc⟩)
        have hsame := (scriptTarget?_eq_some_iff.mpr hsome).symm.trans htarget
        rw [← Option.some.inj hsame]
        exact hc

end Backlog
