import Backlog.Proofs.Selection.Admission
import Backlog.Proofs.Selection.SameFile

namespace Backlog

open Backlog.Files

/-!
# Which spellings the filters treat alike

Three guards look at a file: the scope, by its real path, and the two lists of globs, by its
spelling with slashes. The globs never tell a spelling apart from the one that they match. So what
is left to say concerns the scope alone, and is said for one project and for all of them.

* `Eligibility.Keeps` — the filters leave the violations of a rule in a single file as they are;
* `Eligibility.keeps_iff` — so it is if each guard lets the rule or the file pass;
* `keeps_normalizePath_iff` — only the guard of the scope tells a spelling apart from the one that
  globs match, and it does so exactly in the projects in which they are different files.
-/

/-- The violations of a rule in a single file. -/
def Counts.single (file : String) (n : Int) : Counts := ⟨[(file, n)], by simp⟩

namespace Eligibility

variable {e : Eligibility} {rule file other : String} {n : Int}

/-- The filters leave the violations of a rule in a single file as they are. -/
def Keeps (e : Eligibility) (rule file : String) (n : Int) : Prop :=
  e.filter rule (.single file n) = .ok (.eligible (.single file n))

theorem admits_iff :
    e.admits rule file = true ↔
      e.ruleReason? rule = none ∧ e.inScope file = .ok true ∧ e.globsAllow file = true := by
  have hyes : saysYes (e.inScope file) = true ↔ e.inScope file = .ok true := by
    cases e.inScope file with
    | error cause => simp [saysYes]
    | ok b => simp [saysYes]
  rw [admits, Bool.and_eq_true, Bool.and_eq_true, hyes, Option.isNone_iff_eq_none]

theorem kept_single :
    e.kept rule (.single file n) = if e.admits rule file then .single file n else .empty := by
  apply OrderedMap.ext
  by_cases h : e.admits rule file <;> simp [kept, Counts.single, OrderedMap.empty, h]

/-- The filters keep a file if every guard lets the rule or the file pass. The guards are those on
    the rule, on the scope and on the globs. -/
theorem keeps_iff :
    e.Keeps rule file n ↔
      e.ruleReason? rule = none ∧ e.inScope file = .ok true ∧ e.globsAllow file = true := by
  rw [Keeps, filter_ok_iff, eq_comm (a := Verdict.eligible _), verdict_eq_eligible_iff, kept_single,
    ← admits_iff]
  constructor
  · -- a file that is not admitted leaves nothing
    rintro ⟨_, hne, _⟩
    by_contra h
    rw [if_neg h] at hne
    exact hne rfl
  · intro h
    rw [if_pos h]
    refine ⟨fun other hother _ => ?_, nofun, rfl⟩
    obtain rfl : other = file := by simpa [Counts.single, OrderedMap.keys] using hother
    exact ⟨true, (admits_iff.mp h).2.1⟩

/-- Globs do not tell a spelling apart from the one that they match. So where the two are treated
    differently it is for the scope. -/
theorem globsAllow_normalizePath (e : Eligibility) (file : String) :
    e.globsAllow (normalizePath file) = e.globsAllow file := by
  rw [globsAllow, globsAllow, GlobSet.matches_normalizePath, GlobSet.matches_normalizePath]

/-- A scope lets a file pass whose real path is among those that it allows. It is the spelling as it
    is given that is resolved. -/
theorem inScope_iff {reach : Reach} (h : e.reach = some reach) :
    e.inScope file = .ok true ↔
      ∃ real, reach.project.resolve file = .ok real ∧ real ∈ reach.paths := by
  rw [inScope, h]
  simp only [mapError_ok_iff, Project.isAmong, map_ok_iff]
  constructor
  · rintro ⟨real, hreal, hmem⟩
    exact ⟨real, hreal, by simpa using hmem.symm⟩
  · rintro ⟨real, hreal, hmem⟩
    exact ⟨real, hreal, by simpa using hmem⟩

/-- Filters restrict files to those of a project only if their options have an active scope. Without
    one, no spelling is ever resolved. -/
theorem reach_of_ofOptions {rules : Rules} {options : Options} {paths : Option (List String)}
    {project : Option Project} (h : ofOptions rules options paths project = .ok e) :
    e.reach = none ∨ activeScope options ≠ none ∧
      ∃ allowed p, project = some p ∧ e.reach = some ⟨allowed, p⟩ := by
  obtain ⟨reach, hreach, h⟩ := bind_ok_iff.mp h
  obtain ⟨_, _, h⟩ := bind_ok_iff.mp h
  obtain ⟨_, _, h⟩ := bind_ok_iff.mp h
  obtain rfl := pure_ok_iff.mp h
  unfold reachOf at hreach
  split at hreach
  · exact .inl (Except.ok.inj hreach).symm
  · rename_i scope hscope
    cases paths with
    | none => cases hreach
    | some allowed =>
      cases project with
      | none => cases hreach
      | some p =>
        refine .inr ⟨by simp [hscope], allowed, p, rfl, (Except.ok.inj hreach).symm⟩

/-- Two spellings of the same file that globs match alike are treated alike. This is the direction
    that is always safe. -/
theorem keeps_normalizePath_of_sameFile
    (h : ∀ reach, e.reach = some reach → reach.project.SameFile file (normalizePath file)) :
    e.Keeps rule file n ↔ e.Keeps rule (normalizePath file) n := by
  have hscope : e.inScope file = .ok true ↔ e.inScope (normalizePath file) = .ok true := by
    cases hreach : e.reach with
    | none => simp [inScope, hreach]
    | some reach =>
      have hsame := h reach hreach
      rw [inScope_iff hreach, inScope_iff hreach]
      simp only [hsame _]
  rw [keeps_iff, keeps_iff, globsAllow_normalizePath, hscope]

/-- Options that let every rule pass, and of the files only those that a scope allows. -/
def scopeOnly : Options :=
  { Options.default with onlyAutoFixable := false, scope := some ⟨["a.py"], .connected, none, []⟩ }

/-- With them, the filters keep the files with a real path. So by such filters alone, projects tell
    spellings apart. -/
theorem keeps_scopeOnly_iff (p : Project) (real : String) :
    ∃ e, ofOptions .empty scopeOnly (some [real]) (some p) = .ok e ∧
      ∀ rule file n, e.Keeps rule file n ↔ p.resolve file = .ok real := by
  refine ⟨⟨.empty, scopeOnly, some ⟨[real], p⟩, .empty, .empty⟩, rfl, fun rule file n => ?_⟩
  rw [keeps_iff, inScope_iff rfl]
  have hguards : ruleReason? ⟨.empty, scopeOnly, some ⟨[real], p⟩, .empty, .empty⟩ rule = none ∧
      globsAllow ⟨.empty, scopeOnly, some ⟨[real], p⟩, .empty, .empty⟩ file = true := ⟨rfl, rfl⟩
  constructor
  · rintro ⟨_, ⟨found, hfound, hmem⟩, _⟩
    rwa [← List.mem_singleton.mp hmem]
  · intro h
    exact ⟨hguards.1, ⟨real, h, List.mem_singleton_self _⟩, hguards.2⟩

end Eligibility

/-- The filters treat a spelling like the one that globs match: always without an active scope, and
    with one exactly if both are the same file in the project. They are the same in every project
    only if the spelling is plain, or no path at all. The rule and the count play no part in it. -/
theorem keeps_normalizePath_iff (file : String) :
    (∀ rules options paths project e,
      Eligibility.ofOptions rules options paths project = .ok e →
        Eligibility.activeScope options = none →
          ∀ rule n, e.Keeps rule file n ↔ e.Keeps rule (normalizePath file) n) ∧
      (∀ p : Project, (∀ rules options paths e,
        Eligibility.ofOptions rules options paths (some p) = .ok e →
          ∀ rule n, e.Keeps rule file n ↔ e.Keeps rule (normalizePath file) n) ↔
            p.SameFile file (normalizePath file)) ∧
      ((∀ p : Project, p.SameFile file (normalizePath file)) ↔
        '\x00' ∈ file.toList ∨ IsPlain file) := by
  refine ⟨?_, fun p => ⟨fun h real => ?_, fun h => ?_⟩, sameFile_normalizePath_iff⟩
  · intro rules options paths project e he hscope rule n
    obtain hnone | ⟨hactive, _⟩ := Eligibility.reach_of_ofOptions he
    · apply Eligibility.keeps_normalizePath_of_sameFile
      intro reach hreach
      rw [hnone] at hreach
      cases hreach
    · exact absurd hscope hactive
  · -- filters that allow just one real path tell whether a spelling has it
    obtain ⟨e, he, hkeeps⟩ := Eligibility.keeps_scopeOnly_iff p real
    rw [← hkeeps "" file 0, ← hkeeps "" (normalizePath file) 0]
    exact h _ _ _ e he "" 0
  · intro rules options paths e he rule n
    apply Eligibility.keeps_normalizePath_of_sameFile
    intro reach hreach
    obtain hnone | ⟨_, allowed, q, hq, hsome⟩ := Eligibility.reach_of_ofOptions he
    · rw [hnone] at hreach
      cases hreach
    · obtain rfl := Option.some.inj hq
      obtain rfl := Option.some.inj (hsome.symm.trans hreach)
      exact h

/-- With a backslash for the slash in its path, a file that the scope allows is not found. -/
theorem not_keeps_backslash :
    ∃ e, Eligibility.ofOptions .empty Eligibility.scopeOnly (some ["/p/a/b.py"])
        (some ⟨.empty, .absolute ["p"]⟩) = .ok e ∧
      normalizePath "a\\b.py" = "a/b.py" ∧ e.Keeps "r" "a/b.py" 1 ∧ ¬e.Keeps "r" "a\\b.py" 1 := by
  have hfolders : ∀ name ∈ ["p"], Path.IsName name := by decide
  have hno : ∀ place target, FileTree.empty.root.find? place ≠ some (.link target) :=
    fun place target => Node.find?_ne_link rfl place target
  have hnames : ((Path.absolute ["p"]).join (.ofText "a/b.py")).names = ["p", "a", "b.py"] := by
    decide
  have hslash := FileTree.resolve_join hfolders (by decide) hnames fun _ _ => hno _
  have hnames' : ((Path.absolute ["p"]).join (.ofText "a\\b.py")).names = ["p", "a\\b.py"] := by
    decide
  have hbackslash := FileTree.resolve_join hfolders (by decide) hnames' fun _ _ => hno _
  obtain ⟨e, he, hkeeps⟩ :=
    Eligibility.keeps_scopeOnly_iff ⟨.empty, .absolute ["p"]⟩ "/p/a/b.py"
  refine ⟨e, he, by decide, (hkeeps _ _ _).mpr ?_, fun h => ?_⟩
  · rw [Project.resolve, hslash]
    decide
  · rw [hkeeps, Project.resolve, hbackslash] at h
    revert h
    decide

end Backlog
