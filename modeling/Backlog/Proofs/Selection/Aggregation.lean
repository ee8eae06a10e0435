import Backlog.Proofs.Ledger.Loading
import Backlog.Proofs.Selection.Policy
import Mathlib

namespace Backlog

open Backlog.Files

/-!
# From a ledger to its candidates

The candidates are made from the rules' violations, and those from the files' by turning the ledger
around; here they are described by the ledger's entries alone.

* `Policy.Passes` — what the scope and the globs ask of a file;
* `Policy.HasFilters.saysYes_and_globsAllow_iff` — the filters let through exactly the files that pass;
* `Policy.IsCandidate` — the candidate of a rule, by the entries of the ledger;
* `Policy.candidates_ofLedger` — there is one for each rule that gets a favourable verdict, in the
  order of the rule ids; a rule without a verdict stops it all.
-/

/-- The entries of a ledger for one rule. -/
def Ledger.entriesOf (ledger : Ledger) (rule : String) : List Entry :=
  ledger.entries.filter fun x => x.rule = rule

namespace Policy

/-- The scope reaches a file, no glob excludes it, and if there are globs to include files, then one
    of them includes it. -/
structure Passes (p : Policy) (file : String) : Prop where
  reached : ∀ scope, Eligibility.activeScope p.config.options = some scope →
    ∃ paths path, p.graph.scopeReach scope p.project = .ok paths ∧
      p.project.resolve file = .ok path ∧ path ∈ paths
  notExcluded : ∀ globs, GlobSet.compile p.config.options.excludeGlobs = .ok globs →
    ¬globs.matches file
  included : p.config.options.includeGlobs ≠ [] →
    ∀ globs, GlobSet.compile p.config.options.includeGlobs = .ok globs → globs.matches file

/-- What the filters of a policy are made of. -/
structure HasFilters (p : Policy) (e : Eligibility) : Prop where
  rules_eq : e.rules = p.rules
  reach_eq : match Eligibility.activeScope p.config.options with
    | none => e.reach = none
    | some scope => ∃ paths, p.graph.scopeReach scope p.project = .ok paths ∧
        e.reach = some ⟨paths, p.project⟩
  excluded_ok : GlobSet.compile p.config.options.excludeGlobs = .ok e.excluded
  included_ok : GlobSet.compile p.config.options.includeGlobs = .ok e.included

variable {p : Policy} {e : Eligibility} {kind : LimitKind} {ledger : Ledger}

/-- Filters that are set up are those of the policy. -/
theorem hasFilters_of_filters (h : p.filters = .ok e) : p.HasFilters e := by
  rw [filters, bind_ok_iff] at h
  obtain ⟨paths, hpaths, he⟩ := h
  simp only [mapError_ok_iff, Eligibility.ofOptions, bind_ok_iff, pure_ok_iff] at he
  obtain ⟨reach, hreach, excluded, hexcluded, included, hincluded, rfl⟩ := he
  refine ⟨rfl, ?_, hexcluded, hincluded⟩
  unfold Eligibility.reachOf at hreach
  rcases reachablePaths_ok_iff.mp hpaths with ⟨hscope, rfl⟩ | ⟨scope, reached, hscope, hreached, rfl⟩
  · simp only [hscope, Except.ok.injEq] at hreach ⊢
    exact hreach.symm
  · simp only [hscope, Except.ok.injEq] at hreach ⊢
    exact ⟨reached, hreached, hreach.symm⟩

/-- A set of globs is empty just if there are no globs. -/
theorem isEmpty_of_compile {globs : List String} {set : GlobSet}
    (h : GlobSet.compile globs = .ok set) : set.isEmpty = globs.isEmpty := by
  rw [GlobSet.compile, map_ok_iff] at h
  obtain ⟨patterns, _, rfl⟩ := h
  rfl

/-- A set of no globs matches nothing. That is why the two lists of globs are asked about in
    different ways. -/
theorem not_matches_of_isEmpty {globs : List String} {set : GlobSet}
    (h : GlobSet.compile globs = .ok set) (hempty : set.isEmpty) (file : String) :
    ¬set.matches file := by
  rw [isEmpty_of_compile h, List.isEmpty_iff] at hempty
  subst hempty
  obtain rfl : GlobSet.empty = set := Except.ok.inj h
  simp [GlobSet.matches, GlobSet.empty]

/-- The globs allow a file that none of them excludes and, if there are any to include files, one of
    them includes. An exclusion counts more than an inclusion. -/
theorem HasFilters.globsAllow_iff (h : p.HasFilters e) (file : String) :
    e.globsAllow file ↔ ¬e.excluded.matches file ∧
      (p.config.options.includeGlobs ≠ [] → e.included.matches file) := by
  have hexcluded : (e.excluded.isEmpty || !e.excluded.matches file) ↔
      ¬e.excluded.matches file := by
    cases hempty : e.excluded.isEmpty with
    | true => simp [not_matches_of_isEmpty h.excluded_ok hempty file]
    | false => simp
  have hincluded : (e.included.isEmpty || e.included.matches file) ↔
      (p.config.options.includeGlobs ≠ [] → e.included.matches file) := by
    rw [isEmpty_of_compile h.included_ok, Bool.or_eq_true, List.isEmpty_iff, ne_eq,
      or_iff_not_imp_left]
  rw [Eligibility.globsAllow, Bool.and_eq_true, hexcluded, hincluded]

/-- The filters let through exactly the files that pass. The right side speaks of the policy
    alone. -/
theorem HasFilters.saysYes_and_globsAllow_iff (h : p.HasFilters e) (file : String) :
    (saysYes (e.inScope file) && e.globsAllow file) ↔ p.Passes file := by
  have hscope : saysYes (e.inScope file) ↔ ∀ scope,
      Eligibility.activeScope p.config.options = some scope →
        ∃ paths path, p.graph.scopeReach scope p.project = .ok paths ∧
          p.project.resolve file = .ok path ∧ path ∈ paths := by
    have hreach := h.reach_eq
    cases hactive : Eligibility.activeScope p.config.options with
    | none =>
      rw [hactive] at hreach
      simp only at hreach
      simp [Eligibility.inScope, hreach, saysYes]
    | some scope =>
      rw [hactive] at hreach
      obtain ⟨paths, hpaths, hreach⟩ := hreach
      simp only [Eligibility.inScope, hreach, Project.isAmong]
      cases hfile : p.project.resolve file with
      | error cause => simp [Except.map, Except.mapError, saysYes]
      | ok path => simp [Except.map, Except.mapError, saysYes, hpaths]
  rw [Bool.and_eq_true, hscope, h.globsAllow_iff]
  constructor
  · rintro ⟨hreached, hnot, hin⟩
    refine ⟨hreached, fun globs hglobs => ?_, fun hne globs hglobs => ?_⟩
    · rw [h.excluded_ok] at hglobs
      exact Except.ok.inj hglobs ▸ hnot
    · rw [h.included_ok] at hglobs
      exact Except.ok.inj hglobs ▸ hin hne
  · rintro ⟨hreached, hnot, hin⟩
    exact ⟨hreached, hnot _ h.excluded_ok, fun hne => hin hne _ h.included_ok⟩

/-! ### The candidates -/

/-- The verdict on the violations of a rule is favourable. -/
def allows (p : Policy) (ledger : Ledger) (rule : String) : Bool :=
  match p.verdict rule (ledger.countsOf rule) with
  | .ok (.eligible _) => true
  | _ => false

/-- The candidate of a rule, by the entries of the ledger. -/
structure IsCandidate (p : Policy) (kind : LimitKind) (ledger : Ledger) (c : Candidate) : Prop where
  verdict_eq : p.verdict c.rule (ledger.countsOf c.rule) = .ok (.eligible c.eligible)
  isFixable_eq : c.isFixable = p.rules.isFixable c.rule
  files_eq : c.files = (ledger.entriesOf c.rule).map Ledger.Entry.file
  total_eq : c.total = ((ledger.entriesOf c.rule).map Ledger.Entry.count).sum
  /-- What is eligible stands in the order of the ledger. -/
  eligible_sublist : c.eligible.entries.Sublist
    ((ledger.entriesOf c.rule).map fun x => (x.file, x.count))
  mem_eligible : ∀ x, x ∈ c.eligible.entries ↔
    (⟨x.1, c.rule, x.2⟩ : Ledger.Entry) ∈ ledger.entries ∧ p.Passes x.1
  size_eq : c.size = kind.measure c.eligible
  size_pos : 1 ≤ c.size

/-- A rule has a favourable verdict just if the filters keep something of it. -/
theorem allows_iff {rule : String} (h : p.filters = .ok e)
    (hsettled : ∀ x ∈ ledger.entries, e.Settles x.rule x.file) :
    p.allows ledger rule ↔ (e.kept rule (ledger.countsOf rule)).entries ≠ [] := by
  have hverdict : p.verdict rule (ledger.countsOf rule) =
      .ok (e.verdict rule (ledger.countsOf rule)) := by
    rw [verdict_eq_filter h, Eligibility.filter_ok_iff]
    refine ⟨fun file hfile => ?_, rfl⟩
    obtain ⟨n, hn⟩ := OrderedMap.mem_keys.mp hfile
    exact hsettled _ (Ledger.mem_countsOf.mp hn)
  rw [allows, hverdict]
  cases hv : e.verdict rule (ledger.countsOf rule) with
  | eligible left => simp [(Eligibility.verdict_eq_eligible_iff.mp hv).1]
  | ineligible reason =>
    -- Were something kept, the verdict would be favourable.
    have hnil : (e.kept rule (ledger.countsOf rule)).entries = [] := by
      by_contra hne
      rw [Eligibility.verdict_eq_eligible_iff.mpr ⟨hne, rfl⟩] at hv
      cases hv
    simp [hnil]

/-- Every rule gets a verdict exactly if every entry is settled. An entry is settled if its rule is
    out already or its file can be looked for. -/
theorem exists_verdict_iff (h : p.filters = .ok e) :
    (∀ rule ∈ ledger.ruleIds, ∃ v, p.verdict rule (ledger.countsOf rule) = .ok v) ↔
      ∀ x ∈ ledger.entries, e.Settles x.rule x.file := by
  simp only [verdict_eq_filter h, Eligibility.filter_ok_iff, exists_and_left, exists_eq, and_true]
  constructor
  · intro hall x hx
    refine hall x.rule (Ledger.mem_ruleIds.mpr ⟨x, hx, rfl⟩) x.file ?_
    exact OrderedMap.mem_keys.mpr ⟨x.count, Ledger.mem_countsOf.mpr hx⟩
  · intro hall rule _ file hfile
    obtain ⟨n, hn⟩ := OrderedMap.mem_keys.mp hfile
    exact hall _ (Ledger.mem_countsOf.mp hn)

/-- The rules of the candidates are those that keep something, in order. No candidate is made of a
    rule that keeps nothing. -/
theorem map_rule_filterMap (e : Eligibility) (kind : LimitKind) (groups : List (String × Counts)) :
    (groups.filterMap (e.candidate? kind)).map Candidate.rule =
      (groups.filter fun g => (e.kept g.1 g.2).entries ≠ []).map Prod.fst := by
  induction groups with
  | nil => rfl
  | cons g rest ih =>
    by_cases hnil : (e.kept g.1 g.2).entries = []
    · simp [Eligibility.candidate?, hnil, ih]
    · simp [Eligibility.candidate?, hnil, ih, Eligibility.candidate]

/-- The rules of the candidates of a ledger, in the order of the rule ids. -/
theorem map_rule_candidates (h : p.filters = .ok e)
    (hsettled : ∀ x ∈ ledger.entries, e.Settles x.rule x.file) :
    (e.candidates kind ledger).map Candidate.rule = ledger.ruleIds.filter (p.allows ledger) := by
  rw [Eligibility.candidates, map_rule_filterMap, ← Ledger.keys_byRule, OrderedMap.keys,
    List.filter_map]
  refine congrArg (List.map Prod.fst) (List.filter_congr fun g hg => ?_)
  obtain ⟨_, hcounts⟩ := Ledger.mem_byRule.mp hg
  rw [Bool.eq_iff_iff, decide_eq_true_eq, Function.comp_apply, allows_iff h hsettled, hcounts]

/-- Violations that are more than none have a positive size. So no candidate has a size of
    nothing. -/
theorem measure_pos (kind : LimitKind) {counts : Counts} (hne : counts.entries ≠ [])
    (hpos : ∀ x ∈ counts.entries, 0 < x.2) : 1 ≤ kind.measure counts := by
  obtain ⟨x, rest, hx⟩ := List.exists_cons_of_ne_nil hne
  have hrest : 0 ≤ (rest.map Prod.snd).sum :=
    sum_counts_nonneg fun y hy => hpos y (hx ▸ List.mem_cons_of_mem _ hy)
  cases kind with
  | file =>
    show 1 ≤ (counts.entries.length : Int)
    rw [hx, List.length_cons]
    omega
  | violation =>
    have hfirst : 0 < x.2 := hpos x (hx ▸ List.mem_cons_self)
    show 1 ≤ (counts.entries.map Prod.snd).sum
    rw [hx, List.map_cons, List.sum_cons]
    omega

/-- A rule that keeps something makes the candidate that the entries describe. Its parts are said in
    terms of the ledger's entries alone. -/
theorem isCandidate_candidate {rule : String} (h : p.filters = .ok e)
    (hsettled : ∀ x ∈ ledger.entries, e.Settles x.rule x.file)
    (hpos : ∀ x ∈ ledger.entries, 0 < x.count)
    (hne : (e.kept rule (ledger.countsOf rule)).entries ≠ []) :
    p.IsCandidate kind ledger (e.candidate kind rule (ledger.countsOf rule)) := by
  have hparts := hasFilters_of_filters h
  -- A rule that is refused as a whole keeps nothing.
  have hreason : e.ruleReason? rule = none := by
    cases hr : e.ruleReason? rule with
    | none => rfl
    | some reason =>
      rw [Eligibility.kept_of_reason _ hr] at hne
      exact absurd rfl hne
  refine ⟨?_, ?_, ?_, ?_, ?_, ?_, rfl, ?_⟩
  · show p.verdict rule _ = .ok (.eligible (e.kept rule (ledger.countsOf rule)))
    rw [verdict_eq_filter h, Eligibility.filter_ok_iff]
    refine ⟨fun file hfile => ?_, (Eligibility.verdict_eq_eligible_iff.mpr ⟨hne, rfl⟩).symm⟩
    obtain ⟨n, hn⟩ := OrderedMap.mem_keys.mp hfile
    exact hsettled _ (Ledger.mem_countsOf.mp hn)
  · show e.rules.isFixable rule = _
    rw [hparts.rules_eq]
    rfl
  · show (ledger.countsOf rule).entries.map Prod.fst = _
    rw [Ledger.entries_countsOf, List.map_map]
    rfl
  · show ((ledger.countsOf rule).entries.map Prod.snd).sum = _
    rw [Ledger.entries_countsOf, List.map_map]
    rfl
  · show (e.kept rule (ledger.countsOf rule)).entries.Sublist _
    have hsub : (e.kept rule (ledger.countsOf rule)).entries.Sublist
        (ledger.countsOf rule).entries := List.filter_sublist
    rw [Ledger.entries_countsOf] at hsub
    exact hsub
  · intro x
    show x ∈ (e.kept rule (ledger.countsOf rule)).entries ↔ _
    rw [Eligibility.mem_kept, Ledger.mem_countsOf, Eligibility.admits, hreason, Option.isNone_none,
      Bool.true_and, hparts.saysYes_and_globsAllow_iff]
    rfl
  · refine measure_pos kind hne fun x hx => ?_
    exact hpos _ (Ledger.mem_countsOf.mp (Eligibility.mem_kept.mp hx).1)

/-- From a ledger that was read, candidates are made exactly if every rule gets a verdict: one for
    each rule whose verdict is favourable, in the order of the rule ids.  The rules' violations that
    they are made from are the ledger's entries, each of them once. -/
theorem candidates_ofLedger {data : Data} (hdata : Ledger.ofData data = .ok ledger)
    (h : p.filters = .ok e) (kind : LimitKind) :
    ((∃ cs, Candidate.ofLedger e (.known kind) ledger = .ok cs) ↔
        ∀ rule ∈ ledger.ruleIds, ∃ v, p.verdict rule (ledger.countsOf rule) = .ok v) ∧
      (∀ cs, Candidate.ofLedger e (.known kind) ledger = .ok cs →
        cs.map Candidate.rule = ledger.ruleIds.filter (p.allows ledger) ∧
          ∀ c ∈ cs, p.IsCandidate kind ledger c) ∧
      ledger.byRule.keys = ledger.ruleIds ∧ ledger.ruleEntries.Perm ledger.entries := by
  refine ⟨?_, ?_, ledger.keys_byRule, ledger.ruleEntries_perm⟩
  · simp only [Eligibility.ofLedger_ok_iff, exists_verdict_iff h, exists_and_left, exists_eq,
      and_true]
  · intro cs hcs
    obtain ⟨hsettled, rfl⟩ := Eligibility.ofLedger_ok_iff.mp hcs
    refine ⟨map_rule_candidates h hsettled, fun c hc => ?_⟩
    obtain ⟨rule, hne, rfl⟩ := Eligibility.mem_candidates.mp hc
    exact isCandidate_candidate h hsettled (Ledger.count_pos_of_ofData hdata) hne

/-! ### Two ledgers under a scope

The scope reaches one file.  A second file is left out, and one that is no path stops the filters.
-/

/-- One file at a time, among those that the entry point leads to. -/
def scopedPolicy : Policy where
  rules := .empty
  config := ⟨⟨.known .file, 1⟩,
    ⟨false, false, [], [], [], [], some ⟨["a.py"], .connected, none, []⟩⟩⟩
  project := ⟨.empty, .ofText "/p"⟩
  graph := .ofModules [⟨"/p/a.py", []⟩] ["/p/a.py"] none (.zero false)

/-- Two rules in the file that is reached, one of which is in another file as well. -/
def scopedLedger : Ledger :=
  .ofFiles (.ofList [("b.py", .ofList [("semi", 1)]),
    ("a.py", .ofList [("eqeqeq", 1), ("semi", 2)])])

/-- Candidates under a scope, of which one loses a file that does not pass. -/
theorem scoped_candidates :
    Ledger.ofData scopedLedger.toData = .ok scopedLedger ∧
      ∃ e, scopedPolicy.filters = .ok e ∧
        ∃ cs, Candidate.ofLedger e (.known .violation) scopedLedger = .ok cs ∧
          cs.map Candidate.rule = ["semi", "eqeqeq"] ∧
            ∀ c ∈ cs, c.eligible =
              if c.rule = "semi" then .ofList [("a.py", 2)] else .ofList [("a.py", 1)] := by
  have hdata : Ledger.ofData scopedLedger.toData = .ok scopedLedger :=
    Ledger.ofData_toData (by decide)
  have hfilters : ∃ e, scopedPolicy.filters = .ok e := ⟨_, by cbv⟩
  obtain ⟨e, he⟩ := hfilters
  obtain ⟨hexists, hall, _⟩ := candidates_ofLedger hdata he .violation
  have hsemi : scopedPolicy.verdict "semi" (scopedLedger.countsOf "semi") =
      .ok (.eligible (.ofList [("a.py", 2)])) := by cbv
  have heqeqeq : scopedPolicy.verdict "eqeqeq" (scopedLedger.countsOf "eqeqeq") =
      .ok (.eligible (.ofList [("a.py", 1)])) := by cbv
  have hrules : ∀ rule ∈ scopedLedger.ruleIds, rule = "semi" ∨ rule = "eqeqeq" := by decide
  have hverdicts : ∀ rule ∈ scopedLedger.ruleIds, ∃ v,
      scopedPolicy.verdict rule (scopedLedger.countsOf rule) = .ok v := by
    intro rule hrule
    rcases hrules rule hrule with rfl | rfl
    · exact ⟨_, hsemi⟩
    · exact ⟨_, heqeqeq⟩
  obtain ⟨cs, hcs⟩ := hexists.mpr hverdicts
  obtain ⟨hnames, hcandidates⟩ := hall cs hcs
  have hrow : cs.map Candidate.rule = ["semi", "eqeqeq"] := by
    rw [hnames, show scopedLedger.ruleIds = ["semi", "eqeqeq"] by decide]
    simp [allows, hsemi, heqeqeq]
  refine ⟨hdata, e, he, cs, hcs, hrow, fun c hc => ?_⟩
  have hverdict := (hcandidates c hc).verdict_eq
  have hrule : c.rule = "semi" ∨ c.rule = "eqeqeq" := by
    simpa [hrow] using List.mem_map_of_mem (f := Candidate.rule) hc
  rcases hrule with hrule | hrule
  · rw [hrule, hsemi, Except.ok.injEq, Verdict.eligible.injEq] at hverdict
    rw [← hverdict, if_pos hrule]
  · rw [hrule, heqeqeq, Except.ok.injEq, Verdict.eligible.injEq] at hverdict
    rw [← hverdict, if_neg (by rw [hrule]; decide)]

/-- A file whose name is no path, next to one that is reached. -/
def nulLedger : Ledger :=
  .ofFiles (.ofList [("a.py", .ofList [("semi", 1)]), ("\x00", .ofList [("eqeqeq", 1)])])

/-- A file with a NUL in its name has no real path, so no candidates are made, though the rule is
    allowed. -/
theorem not_exists_candidates_nulLedger :
    Ledger.ofData nulLedger.toData = .ok nulLedger ∧
      scopedPolicy.allows nulLedger "semi" ∧
      ∃ e, scopedPolicy.filters = .ok e ∧
        ¬∃ cs, Candidate.ofLedger e (.known .file) nulLedger = .ok cs := by
  have hfilters : ∃ e, scopedPolicy.filters = .ok e := ⟨_, by cbv⟩
  obtain ⟨e, he⟩ := hfilters
  have hverdict : ∃ cause, scopedPolicy.verdict "eqeqeq" (nulLedger.countsOf "eqeqeq") =
      .error cause := ⟨_, by cbv⟩
  obtain ⟨cause, hcause⟩ := hverdict
  refine ⟨Ledger.ofData_toData (by decide), by cbv, e, he, ?_⟩
  rintro ⟨cs, hcs⟩
  have hsettled := (Eligibility.ofLedger_ok_iff.mp hcs).1
  obtain ⟨v, hv⟩ := (exists_verdict_iff he).mpr hsettled "eqeqeq" (by decide)
  rw [hcause] at hv
  cases hv

end Policy

end Backlog
