import Backlog.Proofs.Selection.Candidate
import Backlog.Proofs.Selection.Choice

namespace Backlog

/-!
# Selections under a policy

All that a selection depends on besides the ledger stays the same while a backlog is worked off.

* `Policy` — what stays the same: rules, settings, project and import graph;
* `Policy.select` — one selection from a ledger;
* `Policy.eligible`, `Policy.eligibleEntries` — what `filterRule` leaves of a ledger;
* `Policy.Applies` — what a selection needs to come to a result at all: a usable limit, filters that
  can be set up, and an answer from them for every entry;
* `Policy.Applies.mono` — a ledger with fewer entries needs no more than that;
* `Policy.Applies.select_eq` — the result is then the choice among the candidates.
-/

/-- What stays the same from one selection to the next. -/
structure Policy where
  rules : Rules
  config : Config
  project : Project
  graph : ImportGraph

namespace Policy

/-- One selection from a ledger, with the import graph at hand. -/
def select (p : Policy) (ledger : Ledger) : Except SelectError (Option Selection) :=
  selectRule ledger p.rules p.config p.project (fun _ => .ok p.graph)

/-- The verdict on the violations of one rule. -/
def verdict (p : Policy) (rule : String) (counts : Counts) : Except FilterError Verdict :=
  filterRule rule counts p.rules p.config.options (some p.graph) (some p.project)

/-- The eligible violations of a rule in a ledger: those that its verdict leaves. -/
def eligible (p : Policy) (ledger : Ledger) (rule : String) : Counts :=
  match p.verdict rule (ledger.countsOf rule) with
  | .ok v => v.counts
  | .error _ => .empty

/-- The eligible entries of a ledger, in its order. -/
def eligibleEntries (p : Policy) (ledger : Ledger) : List Ledger.Entry :=
  ledger.entries.filter (fun x => (x.file, x.count) ∈ (p.eligible ledger x.rule).entries)

/-! ### When there is a result -/

/-- The filters of a selection. -/
def filters (p : Policy) : Except SelectError Eligibility := do
  let paths ← reachablePaths (fun _ => .ok p.graph) p.config.options p.project
  (Eligibility.ofOptions p.rules p.config.options paths (some p.project)).mapError
    (fun c => .candidates (.filter c))

/-- A policy applies to a ledger if its limit is usable, its filters can be set up, and they decide
    about every entry. -/
structure Applies (p : Policy) (kind : LimitKind) (e : Eligibility) (ledger : Ledger) : Prop where
  limit_ok : p.config.limit.validate = .ok kind
  filters_ok : p.filters = .ok e
  settled : ∀ x ∈ ledger.entries, e.Settles x.rule x.file

variable {p : Policy} {kind : LimitKind} {e : Eligibility} {ledger : Ledger}

/-- A selection comes to a result just if the policy applies to the ledger, and the result is the
    choice among the candidates. By this, no later proof unfolds what selecting is made of. -/
theorem select_ok_iff {r : Option Selection} :
    p.select ledger = .ok r ↔
      ∃ kind e, p.Applies kind e ledger ∧
        r = choose (e.candidates kind ledger) kind p.config.limit.count
          p.config.options.allowPartial := by
  simp only [select, selectRule, selectAmong, bind_ok_iff, mapError_ok_iff, pure_ok_iff,
    Eligibility.ofLedger_ok_iff]
  constructor
  · rintro ⟨kind, hkind, paths, hpaths, e, he, _, ⟨hsettled, rfl⟩, rfl⟩
    refine ⟨kind, e, ⟨hkind, ?_, hsettled⟩, rfl⟩
    rw [filters, bind_ok_iff]
    exact ⟨paths, hpaths, mapError_ok_iff.mpr he⟩
  · rintro ⟨kind, e, ⟨hkind, hfilters, hsettled⟩, rfl⟩
    rw [filters, bind_ok_iff] at hfilters
    obtain ⟨paths, hpaths, he⟩ := hfilters
    exact ⟨kind, hkind, paths, hpaths, e, mapError_ok_iff.mp he, _, ⟨hsettled, rfl⟩, rfl⟩

/-- Files are looked for only if a scope asks for them. They are what the entry points of the scope
    lead to. -/
theorem reachablePaths_ok_iff {graph : ImportGraph} {options : Options} {project : Project}
    {paths : Option (List String)} :
    reachablePaths (fun _ => .ok graph) options project = .ok paths ↔
      (Eligibility.activeScope options = none ∧ paths = none) ∨
        ∃ scope reached, Eligibility.activeScope options = some scope ∧
          graph.scopeReach scope project = .ok reached ∧ paths = some reached := by
  rw [reachablePaths]
  cases hscope : Eligibility.activeScope options with
  | none => simp [eq_comm]
  | some scope =>
    simp only [bind_ok_iff, mapError_ok_iff, pure_ok_iff, Option.some.injEq, Except.ok.injEq,
      exists_eq_left', reduceCtorEq, false_and, false_or, exists_and_left]

/-- The filters of a selection are those by which a single rule is judged. So what is said of
    verdicts on rules is said of candidates. -/
theorem verdict_eq_filter (h : p.filters = .ok e) (rule : String) (counts : Counts) :
    p.verdict rule counts = e.filter rule counts := by
  rw [filters, bind_ok_iff] at h
  obtain ⟨paths, hpaths, he⟩ := h
  rw [mapError_ok_iff] at he
  unfold verdict filterRule
  -- Both look for the reachable files first, and only if the scope asks for them.
  rcases reachablePaths_ok_iff.mp hpaths with ⟨hscope, rfl⟩ | ⟨scope, reached, hscope, hreached, rfl⟩
  · simp only [hscope]
    show (Eligibility.ofOptions p.rules p.config.options none (some p.project) >>= _) = _
    rw [he]
    rfl
  · simp only [hscope, hreached]
    show (Eligibility.ofOptions p.rules p.config.options (some reached) (some p.project) >>= _) = _
    rw [he]
    rfl

namespace Applies

theorem limit_pos (h : p.Applies kind e ledger) : 0 < p.config.limit.count := by
  have hlimit := h.limit_ok
  unfold Limit.validate at hlimit
  split at hlimit
  · cases hlimit
  · split at hlimit
    · cases hlimit
    · omega

theorem unit_eq (h : p.Applies kind e ledger) : p.config.limit.unit = .known kind := by
  have hlimit := h.limit_ok
  unfold Limit.validate at hlimit
  split at hlimit
  · cases hlimit
  · rename_i hunit
    split at hlimit
    · cases hlimit
    · cases hlimit
      exact hunit

/-- Where a selection comes to a result, the policy applies. A limit that cannot be used, globs that
    cannot be matched and paths that cannot be resolved are what it would be refused for. -/
theorem exists_of_select {r : Option Selection} (hunit : p.config.limit.unit = .known kind)
    (h : p.select ledger = .ok r) : ∃ e, p.Applies kind e ledger := by
  obtain ⟨kind', e, happlies, _⟩ := select_ok_iff.mp h
  obtain rfl : kind' = kind := LimitUnit.known.inj (happlies.unit_eq.symm.trans hunit)
  exact ⟨e, happlies⟩

/-- A ledger that has only entries of another one needs nothing more. For it asks about each entry
    on its own. -/
theorem mono {after : Ledger} (h : p.Applies kind e ledger)
    (hsub : ∀ x ∈ after.entries, x ∈ ledger.entries) : p.Applies kind e after :=
  ⟨h.limit_ok, h.filters_ok, fun x hx => h.settled x (hsub x hx)⟩

/-- The result is the choice among the candidates. Nothing else can go wrong once the policy
    applies. -/
theorem select_eq (h : p.Applies kind e ledger) :
    p.select ledger = .ok (choose (e.candidates kind ledger) kind p.config.limit.count
      p.config.options.allowPartial) :=
  select_ok_iff.mpr ⟨kind, e, h, rfl⟩

/-! ### What is eligible -/

/-- Where the policy applies, every rule gets a verdict. -/
theorem verdict_eq (h : p.Applies kind e ledger) (rule : String) :
    p.verdict rule (ledger.countsOf rule) = .ok (e.verdict rule (ledger.countsOf rule)) := by
  rw [verdict_eq_filter h.filters_ok]
  refine Eligibility.filter_ok_iff.mpr ⟨fun file hfile => ?_, rfl⟩
  obtain ⟨n, hn⟩ := OrderedMap.mem_keys.mp hfile
  exact h.settled _ (Ledger.mem_countsOf.mp hn)

/-- What is eligible of a rule is what the filters keep. -/
theorem eligible_eq (h : p.Applies kind e ledger) (rule : String) :
    p.eligible ledger rule = e.kept rule (ledger.countsOf rule) := by
  rw [eligible, h.verdict_eq rule]
  exact Eligibility.counts_verdict e rule _

/-- An entry is eligible for what its rule and file are, whatever else the ledger holds. This is
    what lets runs be followed: a selection changes the ledger, and never what an entry is eligible
    for. -/
theorem mem_eligible (h : p.Applies kind e ledger) {rule : String} {x : String × Int} :
    x ∈ (p.eligible ledger rule).entries ↔
      (⟨x.1, rule, x.2⟩ : Ledger.Entry) ∈ ledger.entries ∧ e.admits rule x.1 := by
  rw [h.eligible_eq, Eligibility.mem_kept, Ledger.mem_countsOf]

/-- The eligible entries are those that are admitted, in the order of the ledger. -/
theorem eligibleEntries_eq (h : p.Applies kind e ledger) :
    p.eligibleEntries ledger = ledger.entries.filter (fun x => e.admits x.rule x.file) := by
  refine List.filter_congr fun x hx => ?_
  rw [Bool.eq_iff_iff, decide_eq_true_eq, h.mem_eligible]
  simp [hx]

/-- An entry is eligible if it is among what is eligible of its rule. -/
theorem mem_eligibleEntries (h : p.Applies kind e ledger) {x : Ledger.Entry} :
    x ∈ p.eligibleEntries ledger ↔ (x.file, x.count) ∈ (p.eligible ledger x.rule).entries := by
  rw [eligibleEntries, List.mem_filter, decide_eq_true_eq, and_iff_right_iff_imp]
  exact fun hx => (h.mem_eligible.mp hx).1

/-! ### Candidates -/

/-- The rules of the filters are those of the policy. -/
theorem rules_eq (h : p.Applies kind e ledger) : e.rules = p.rules := by
  have hfilters := h.filters_ok
  simp only [filters, Eligibility.ofOptions, bind_ok_iff, mapError_ok_iff, pure_ok_iff] at hfilters
  obtain ⟨_, _, _, _, _, _, _, _, rfl⟩ := hfilters
  rfl

/-- The candidate of a rule: all that is eligible of it, and its size. Its size is in the unit of
    the limit. -/
theorem candidate_eq (h : p.Applies kind e ledger) (rule : String) :
    e.candidate kind rule (ledger.countsOf rule) =
      ⟨rule, p.rules.isFixable rule, (ledger.countsOf rule).keys, (ledger.countsOf rule).total,
        p.eligible ledger rule, kind.measure (p.eligible ledger rule)⟩ := by
  rw [Eligibility.candidate, h.eligible_eq, h.rules_eq]

/-- A rule has a candidate if something of it is eligible. -/
theorem mem_candidates (h : p.Applies kind e ledger) {c : Candidate} :
    c ∈ e.candidates kind ledger ↔
      ∃ rule, (p.eligible ledger rule).entries ≠ [] ∧
        c = e.candidate kind rule (ledger.countsOf rule) := by
  simp only [Eligibility.mem_candidates, h.eligible_eq]

end Applies

end Policy

end Backlog
