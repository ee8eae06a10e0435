import Backlog.Proofs.Selection.Aggregation

namespace Backlog

open Backlog.Files

/-!
# The verdict on a rule as a sieve of files

Once a rule has passed, its files are taken through three sieves, each of which may be absent: the graph
of what is imported, the globs that exclude and the globs that include.

* `Policy.AllowsRule` — what is asked of the rule alone;
* `Policy.matched`, `Policy.sift` — the files that the import graph sorts out as reached, and what the
  globs leave of them;
* `map_reached_sortFiles` — files can be sorted by the import graph if they can be tested by it;
* `Policy.leaves_append_iff` — a verdict on two lists of files together is that on each of them;
* `Policy.verdict_sifts` — a verdict keeps what the sieves let through, keeps it when it is repeated,
  and may be given piece by piece.
-/

/-! ### Sorting by the import graph -/

/-- The reached files are those that pass the test. The others are sorted out by the same test,
    which is not refused where it has been answered. So sorting is filtering, as far as one of the
    two lists goes. -/
theorem map_reached_sortFiles (g : ImportGraph) (scope : DependencyScope) (project : Project)
    (files : List String) :
    (g.sortFiles scope project files).map SortedFiles.reached =
      g.scopeReach scope project >>= fun paths => filterFiles (project.isAmong paths) files := by
  unfold ImportGraph.sortFiles
  cases g.scopeReach scope project with
  | error cause => rfl
  | ok paths =>
    show Except.map SortedFiles.reached (filterFiles (project.isAmong paths) files >>= fun reached =>
      filterFiles (fun f => (project.isAmong paths f).map not) files >>= fun unreached =>
        pure ⟨reached, unreached⟩) = filterFiles (project.isAmong paths) files
    cases hreached : filterFiles (project.isAmong paths) files with
    | error cause => rfl
    | ok reached =>
      -- The second sieve asks the same of each file as the first, so it is not refused.
      have hsettled := (filterFiles_ok_iff.mp hreached).1
      have hunreached : ∃ unreached,
          filterFiles (fun f => (project.isAmong paths f).map not) files = .ok unreached := by
        refine ⟨_, filterFiles_ok_iff.mpr ⟨fun f hf => ?_, rfl⟩⟩
        obtain ⟨b, hb⟩ := hsettled f hf
        exact ⟨!b, by rw [hb]; rfl⟩
      obtain ⟨unreached, hunreached⟩ := hunreached
      rw [hunreached]
      rfl

namespace Policy

variable {p : Policy} {e : Eligibility} {excluded included : GlobSet} {rule : String}
  {counts : Counts}

/-! ### The sieves -/

/-- A rule passes: it is fixable where that is asked for, it is not excluded, and if there are rules
    to include, then it is one of them. -/
structure AllowsRule (p : Policy) (rule : String) : Prop where
  fixable : p.config.options.onlyAutoFixable → p.rules.isFixable rule
  notExcluded : rule ∉ p.config.options.excludeRules
  included : p.config.options.includeRules ≠ [] → rule ∈ p.config.options.includeRules

/-- The files that the import graph sorts out as reached; without an active scope, all of them. -/
def matched (p : Policy) (files : List String) : Except FileTree.ResolveError (List String) :=
  match Eligibility.activeScope p.config.options with
  | none => .ok files
  | some scope => (p.graph.sortFiles scope p.project files).map SortedFiles.reached

/-- The matched files without those that are excluded, and of these the ones that are included; if
    there are no globs to include files, all of these. -/
def sift (p : Policy) (excluded included : GlobSet) (files : List String) :
    Except FileTree.ResolveError (List String) :=
  (p.matched files).map fun matched =>
    if p.config.options.includeGlobs = [] then excluded.reject matched
    else included.select (excluded.reject matched)

/-- A verdict on the violations of a rule leaves these. -/
def Leaves (p : Policy) (rule : String) (counts : Counts) (left : List (String × Int)) : Prop :=
  ∃ v, p.verdict rule counts = .ok v ∧ v.counts.entries = left

/-! ### The filters of a verdict -/

theorem options_eq_of_filters (h : p.filters = .ok e) : e.options = p.config.options := by
  simp only [filters, Eligibility.ofOptions, bind_ok_iff, mapError_ok_iff, pure_ok_iff] at h
  obtain ⟨_, _, _, _, _, _, _, _, rfl⟩ := h
  rfl

/-- The guards that look at the rule alone find nothing exactly if the rule passes. What the policy
    asks of a rule is said without the guards. -/
theorem ruleReason?_eq_none_iff (h : p.filters = .ok e) :
    e.ruleReason? rule = none ↔ p.AllowsRule rule := by
  have hrules := (hasFilters_of_filters h).rules_eq
  have hoptions := options_eq_of_filters h
  have hfields : p.AllowsRule rule ↔
      (p.config.options.onlyAutoFixable → p.rules.isFixable rule) ∧
        rule ∉ p.config.options.excludeRules ∧
          (p.config.options.includeRules ≠ [] → rule ∈ p.config.options.includeRules) :=
    ⟨fun ⟨hfix, hnot, hin⟩ => ⟨hfix, hnot, hin⟩, fun ⟨hfix, hnot, hin⟩ => ⟨hfix, hnot, hin⟩⟩
  rw [hfields, Eligibility.ruleReason?, hrules, hoptions]
  split_ifs <;> simp_all

/-- A verdict is given by the filters, if they can be set up. Setting them up may be refused for
    globs and for entry points. -/
theorem verdict_ok_iff {v : Verdict} :
    p.verdict rule counts = .ok v ↔ ∃ e, p.filters = .ok e ∧ e.filter rule counts = .ok v := by
  constructor
  · intro h
    unfold verdict filterRule at h
    unfold filters reachablePaths
    cases hscope : Eligibility.activeScope p.config.options with
    | none =>
      simp only [hscope, bind_ok_iff, pure_ok_iff] at h
      obtain ⟨_, rfl, e, he, h⟩ := h
      exact ⟨e, mapError_ok_iff.mpr he, h⟩
    | some scope =>
      simp only [hscope, bind_ok_iff, map_ok_iff, mapError_ok_iff] at h
      obtain ⟨_, ⟨reached, hreached, rfl⟩, e, he, h⟩ := h
      refine ⟨e, ?_, h⟩
      simp only [bind_ok_iff, mapError_ok_iff, pure_ok_iff]
      exact ⟨some reached, ⟨p.graph, rfl, reached, hreached, rfl⟩, he⟩
  · rintro ⟨e, he, h⟩
    rw [verdict_eq_filter he]
    exact h

/-- If the globs can be read, then the filters can be set up, unless an entry point of the scope
    has no real path; and then there is neither a sieve nor a verdict. So the two are refused
    together. -/
theorem exists_filters_or_error
    (hexcluded : GlobSet.compile p.config.options.excludeGlobs = .ok excluded)
    (hincluded : GlobSet.compile p.config.options.includeGlobs = .ok included) :
    (∃ reach, p.filters = .ok ⟨p.rules, p.config.options, reach, excluded, included⟩) ∨
      ∃ cause, (∀ files, p.sift excluded included files = .error cause) ∧
        ∀ rule counts, p.verdict rule counts = .error (.trouble (.link cause)) := by
  cases hscope : Eligibility.activeScope p.config.options with
  | none =>
    refine .inl ⟨none, ?_⟩
    simp only [filters, reachablePaths, Eligibility.ofOptions, Eligibility.reachOf, hscope,
      bind_ok_iff, mapError_ok_iff, pure_ok_iff]
    exact ⟨none, rfl, none, rfl, excluded, hexcluded, included, hincluded, rfl⟩
  | some scope =>
    cases hreached : p.graph.scopeReach scope p.project with
    | error cause =>
      refine .inr ⟨cause, fun files => ?_, fun rule counts => ?_⟩
      · simp only [sift, matched, hscope, map_reached_sortFiles, hreached]
        rfl
      · unfold verdict filterRule
        simp only [hscope, hreached]
        rfl
    | ok reached =>
      refine .inl ⟨some ⟨reached, p.project⟩, ?_⟩
      simp only [filters, reachablePaths, Eligibility.ofOptions, Eligibility.reachOf, hscope,
        bind_ok_iff, mapError_ok_iff, pure_ok_iff]
      exact ⟨some reached, ⟨p.graph, rfl, reached, hreached, rfl⟩, some ⟨reached, p.project⟩, rfl,
        excluded, hexcluded, included, hincluded, rfl⟩

/-! ### Filters and sieves -/

/-- The files that the filters let through are those that the sieves do, and they are refused for
    the same paths. The filters first go through the scope and then through the globs, and so does
    the sieve. -/
theorem files_eq_sift (h : p.filters = .ok e) (files : List String) :
    e.files files =
      (p.sift e.excluded e.included files).mapError (fun c => .trouble (.link c)) := by
  have hparts := hasFilters_of_filters h
  have hmatched : (p.matched files).mapError (fun c => .trouble (.link c)) =
      e.reachedFiles files := by
    have hreach := hparts.reach_eq
    unfold matched Eligibility.reachedFiles
    cases hscope : Eligibility.activeScope p.config.options with
    | none =>
      rw [hscope] at hreach
      simp only at hreach
      rw [hreach]
      rfl
    | some scope =>
      rw [hscope] at hreach
      obtain ⟨paths, hpaths, hreach⟩ := hreach
      simp only [map_reached_sortFiles, hpaths, hreach]
      rfl
  have hglobs : ∀ matched : List String, matched.filter e.globsAllow =
      if p.config.options.includeGlobs = [] then e.excluded.reject matched
      else e.included.select (e.excluded.reject matched) := by
    intro matched
    have hallow : ∀ file, e.globsAllow file = (decide (p.config.options.includeGlobs = [] ∨
        e.included.matches file) && !e.excluded.matches file) := by
      intro file
      rw [Bool.eq_iff_iff, hparts.globsAllow_iff file, Bool.and_eq_true, decide_eq_true_eq,
        or_iff_not_imp_left, and_comm, Bool.not_eq_true', Bool.not_eq_true]
    split_ifs with hnil
    · exact List.filter_congr fun file _ => by simp [hallow, hnil]
    · rw [GlobSet.select, GlobSet.reject, List.filter_filter]
      exact List.filter_congr fun file _ => by simp [hallow, hnil]
  rw [Eligibility.files, ← hmatched, sift]
  cases p.matched files with
  | error cause => rfl
  | ok matched => simp [Except.map, Except.mapError, hglobs]

/-- What a verdict leaves is what the filters keep, if they are settled about each file. Whether the
    verdict is favourable does not matter here. -/
theorem leaves_iff {left : List (String × Int)} :
    p.Leaves rule counts left ↔
      ∃ e, p.filters = .ok e ∧ (∀ file ∈ counts.keys, e.Settles rule file) ∧
        left = (e.kept rule counts).entries := by
  simp only [Leaves, verdict_ok_iff, Eligibility.filter_ok_iff]
  constructor
  · rintro ⟨_, ⟨e, he, hsettled, rfl⟩, rfl⟩
    exact ⟨e, he, hsettled, by rw [Eligibility.counts_verdict]⟩
  · rintro ⟨e, he, hsettled, rfl⟩
    exact ⟨_, ⟨e, he, hsettled, rfl⟩, by rw [Eligibility.counts_verdict]⟩

/-- A verdict on the files of two maps together leaves what those on each of them leave. So files
    may be judged in any portions. -/
theorem leaves_append_iff {front back : Counts} (h : counts.entries = front.entries ++ back.entries)
    {left : List (String × Int)} :
    p.Leaves rule counts left ↔
      ∃ a b, p.Leaves rule front a ∧ p.Leaves rule back b ∧ left = a ++ b := by
  have hkeys : counts.keys = front.keys ++ back.keys := by simp [OrderedMap.keys, h]
  have hkept : ∀ e : Eligibility, (e.kept rule counts).entries =
      (e.kept rule front).entries ++ (e.kept rule back).entries := by
    intro e
    simp [Eligibility.kept, h]
  simp only [leaves_iff, hkeys, List.forall_mem_append, hkept]
  constructor
  · rintro ⟨e, he, ⟨hfront, hback⟩, rfl⟩
    exact ⟨_, _, ⟨e, he, hfront, rfl⟩, ⟨e, he, hback, rfl⟩, rfl⟩
  -- The filters are a matter of the policy alone, so both verdicts have the same.
  · rintro ⟨_, _, ⟨e, he, hfront, rfl⟩, ⟨e', he', hback, rfl⟩, rfl⟩
    obtain rfl : e = e' := Except.ok.inj (he.symm.trans he')
    exact ⟨e, he, ⟨hfront, hback⟩, rfl⟩

/-- What is kept is kept again. So judging what is left changes nothing more. -/
theorem verdict_eligible_again {left : Counts} (h : p.verdict rule counts = .ok (.eligible left)) :
    p.verdict rule left = .ok (.eligible left) := by
  obtain ⟨e, he, hfilter⟩ := verdict_ok_iff.mp h
  obtain ⟨hsettled, hverdict⟩ := Eligibility.filter_ok_iff.mp hfilter
  obtain ⟨hne, rfl⟩ := Eligibility.verdict_eq_eligible_iff.mp hverdict.symm
  have hagain : e.kept rule (e.kept rule counts) = e.kept rule counts := by
    apply OrderedMap.ext
    simp [Eligibility.kept, List.filter_filter]
  refine verdict_ok_iff.mpr ⟨e, he, Eligibility.filter_ok_iff.mpr ⟨fun file hfile => ?_, ?_⟩⟩
  · obtain ⟨n, hn⟩ := OrderedMap.mem_keys.mp hfile
    exact hsettled file (OrderedMap.mem_keys.mpr ⟨n, (Eligibility.mem_kept.mp hn).1⟩)
  · exact (Eligibility.verdict_eq_eligible_iff.mpr ⟨by rwa [hagain], hagain.symm⟩).symm

/-- A rule that passes keeps the violations of the files that the sieves let through. The two
    outcomes are told apart by whether a file is left. -/
theorem verdict_of_sift (h : p.filters = .ok e) (hrule : p.AllowsRule rule) {files : List String}
    (hfiles : p.sift e.excluded e.included counts.keys = .ok files) :
    (e.kept rule counts).keys = files ∧
      p.verdict rule counts =
        .ok (if files = [] then .ineligible .noFiles else .eligible (e.kept rule counts)) := by
  have hreason := (ruleReason?_eq_none_iff h).mpr hrule
  have hpassed : e.files counts.keys = .ok files := by rw [files_eq_sift h, hfiles]; rfl
  obtain ⟨hsettled, rfl⟩ := Eligibility.files_ok_iff.mp hpassed
  rw [← Eligibility.keys_kept counts hreason]
  refine ⟨rfl, ?_⟩
  rw [verdict_eq_filter h, Eligibility.filter_ok_iff]
  refine ⟨fun file hfile _ => hsettled file hfile, ?_⟩
  simp [Eligibility.verdict, hreason, OrderedMap.keys]

/-- A file that the sieves cannot decide about stops the verdict. The refusal is the same. -/
theorem verdict_of_sift_error (h : p.filters = .ok e) (hrule : p.AllowsRule rule)
    {cause : FileTree.ResolveError}
    (hcause : p.sift e.excluded e.included counts.keys = .error cause) :
    p.verdict rule counts = .error (.trouble (.link cause)) := by
  rw [verdict_eq_filter h, Eligibility.filter, (ruleReason?_eq_none_iff h).mpr hrule]
  simp only [files_eq_sift h, hcause]
  rfl

/-- The verdict on a rule that passes is a sieve: it keeps the files that the import graph sorts out as
    reached, that are not excluded and, if there are globs to include files, that are included, each
    with its count and in order; it is unfavourable exactly if none is left; and where a file stops
    the sieves, it stops the verdict. Of any rule, what is eligible is eligible again, and the verdict
    on two lists of files together leaves what those on each of them leave. -/
theorem verdict_sifts (hexcluded : GlobSet.compile p.config.options.excludeGlobs = .ok excluded)
    (hincluded : GlobSet.compile p.config.options.includeGlobs = .ok included)
    (rule : String) (counts : Counts) :
    (p.AllowsRule rule →
      (∀ files, p.sift excluded included counts.keys = .ok files →
        ∃ left : Counts, left.keys = files ∧ left.entries.Sublist counts.entries ∧
          p.verdict rule counts =
            .ok (if files = [] then .ineligible .noFiles else .eligible left)) ∧
      ∀ cause, p.sift excluded included counts.keys = .error cause →
        p.verdict rule counts = .error (.trouble (.link cause))) ∧
    (∀ left, p.verdict rule counts = .ok (.eligible left) →
      p.verdict rule left = .ok (.eligible left)) ∧
    ∀ front back : Counts, counts.entries = front.entries ++ back.entries →
      ∀ left, p.Leaves rule counts left ↔
        ∃ a b, p.Leaves rule front a ∧ p.Leaves rule back b ∧ left = a ++ b := by
  refine ⟨fun hrule => ?_, fun _ => verdict_eligible_again,
    fun front back h left => leaves_append_iff h⟩
  rcases exists_filters_or_error hexcluded hincluded with ⟨reach, hfilters⟩ | ⟨cause, hsift, hverdict⟩
  · refine ⟨fun files hfiles => ?_, fun cause hcause => verdict_of_sift_error hfilters hrule hcause⟩
    obtain ⟨hkeys, hverdict⟩ := verdict_of_sift hfilters hrule hfiles
    exact ⟨_, hkeys, List.filter_sublist, hverdict⟩
  · refine ⟨fun files hfiles => ?_, fun cause' hcause => ?_⟩
    · rw [hsift] at hfiles
      cases hfiles
    · rw [hsift, Except.error.injEq] at hcause
      rw [hverdict, hcause]

/-! ### All three sieves

The scope reaches three of five files, two of them under other spellings; one of these is generated,
and the globs include the other two.
-/

/-- What the entry point imports, without what is generated, and Python files only. -/
def sievePolicy : Policy where
  rules := .empty
  config := ⟨⟨.known .file, 1⟩,
    ⟨false, false, ["eqeqeq"], ["semi"], ["gen/**"], ["*.py", "**/c.py"],
      some ⟨["src/../a.py"], .dependencies, none, []⟩⟩⟩
  project := ⟨.empty, .ofText "/p"⟩
  graph := .ofModules
    [⟨"/p/a.py", [⟨"gen.b", 1, some "/p/gen/b.py"⟩, ⟨"lib.c", 2, some "/p/lib/c.py"⟩]⟩,
      ⟨"/p/gen/b.py", []⟩, ⟨"/p/lib/c.py", []⟩, ⟨"/p/d.py", []⟩] ["/p/a.py"] none (.zero false)

/-- The set of some globs that can be read. -/
def sieveGlobs (globs : List String) : GlobSet :=
  match GlobSet.compile globs with
  | .ok set => set
  | .error _ => .empty

def sieveFront : Counts := .ofList [("./a.py", 2), ("gen/b.py", 1)]

def sieveBack : Counts := .ofList [("lib//c.py", 3), ("d.py", 4), ("a.py/../lib/c.txt", 5)]

def sieveCounts : Counts := .ofList (sieveFront.entries ++ sieveBack.entries)

theorem sift_sieveCounts :
    sievePolicy.sift (sieveGlobs ["gen/**"]) (sieveGlobs ["*.py", "**/c.py"]) sieveCounts.keys =
      .ok ["./a.py", "lib//c.py"] := by
  cbv

/-- What the verdict of the example leaves, of all files and of two portions of them. -/
theorem verdict_sieveCounts :
    GlobSet.compile ["gen/**"] = .ok (sieveGlobs ["gen/**"]) ∧
      GlobSet.compile ["*.py", "**/c.py"] = .ok (sieveGlobs ["*.py", "**/c.py"]) ∧
      sievePolicy.AllowsRule "semi" ∧ sieveCounts.entries = sieveFront.entries ++ sieveBack.entries ∧
      ∃ left : Counts, left.keys = ["./a.py", "lib//c.py"] ∧
        sievePolicy.verdict "semi" sieveCounts = .ok (.eligible left) ∧
        sievePolicy.verdict "semi" left = .ok (.eligible left) ∧
        ∃ a b, sievePolicy.Leaves "semi" sieveFront a ∧ sievePolicy.Leaves "semi" sieveBack b ∧
          left.entries = a ++ b := by
  have hexcluded : GlobSet.compile ["gen/**"] = .ok (sieveGlobs ["gen/**"]) := by cbv
  have hincluded : GlobSet.compile ["*.py", "**/c.py"] =
      .ok (sieveGlobs ["*.py", "**/c.py"]) := by cbv
  have hrule : sievePolicy.AllowsRule "semi" := ⟨by decide, by decide, by decide⟩
  have hsplit : sieveCounts.entries = sieveFront.entries ++ sieveBack.entries := by decide
  obtain ⟨hsift, hagain, happend⟩ :=
    verdict_sifts (p := sievePolicy) hexcluded hincluded "semi" sieveCounts
  obtain ⟨left, hkeys, _, hverdict⟩ := (hsift hrule).1 _ sift_sieveCounts
  exact ⟨hexcluded, hincluded, hrule, hsplit, left, hkeys, hverdict, hagain left hverdict,
    (happend _ _ hsplit _).mp ⟨_, hverdict, rfl⟩⟩

end Policy

end Backlog
