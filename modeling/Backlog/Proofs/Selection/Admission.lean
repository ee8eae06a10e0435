import Backlog.Proofs.OrderedMap
import Backlog.Proofs.Outcome
import Backlog.Selection.Eligibility

namespace Backlog

open Backlog.Files

/-!
# Which entries the filters let through

The filters of a run look at whole rules, but what they decide about an entry depends on its rule
and its file alone. So nothing that happens to the rest of a ledger changes it.

* `Eligibility.admits` — whether the filters let an entry of a rule and a file through;
* `Eligibility.Settles` — whether they come to a decision at all: a path that cannot be resolved
  stops them;
* `Eligibility.kept` — the admitted ones among the violations of a rule;
* `Eligibility.filter_ok_iff` — the filters give a verdict exactly if every file is settled, and the
  verdict is what `kept` says.
-/

/-- The violations that a verdict leaves. -/
def Verdict.counts : Verdict → Counts
  | .eligible counts => counts
  | .ineligible _ => .empty

namespace Eligibility

/-- Whether the scope allows a file; without a scope every file is allowed. -/
def inScope (e : Eligibility) (file : String) : Except FilterError Bool :=
  match e.reach with
  | none => .ok true
  | some reach => (reach.project.isAmong reach.paths file).mapError (fun c => .trouble (.link c))

/-- Whether the filters let an entry of a rule and a file through. -/
def admits (e : Eligibility) (rule file : String) : Bool :=
  (e.ruleReason? rule).isNone && (saysYes (e.inScope file) && e.globsAllow file)

/-- The filters decide about a rule and a file: either the rule is refused before its files are
    looked at, or the real path of the file can be found. -/
def Settles (e : Eligibility) (rule file : String) : Prop :=
  e.ruleReason? rule = none → ∃ b, e.inScope file = .ok b

/-- The admitted ones among the violations of a rule. -/
def kept (e : Eligibility) (rule : String) (counts : Counts) : Counts :=
  counts.filter (fun file _ => e.admits rule file)

/-- The verdict on the violations of a rule when every file is settled. -/
def verdict (e : Eligibility) (rule : String) (counts : Counts) : Verdict :=
  match e.ruleReason? rule with
  | some reason => .ineligible reason
  | none =>
    if (e.kept rule counts).entries = [] then .ineligible .noFiles
    else .eligible (e.kept rule counts)

/-- A violation is kept if the rule and the file are admitted. -/
theorem mem_kept {e : Eligibility} {rule : String} {counts : Counts} {x : String × Int} :
    x ∈ (e.kept rule counts).entries ↔ x ∈ counts.entries ∧ e.admits rule x.1 := by
  simp [kept]

/-- A rule that a guard refuses keeps nothing. The files are not looked at then. -/
theorem kept_of_reason {e : Eligibility} {rule : String} {reason : Reason} (counts : Counts)
    (h : e.ruleReason? rule = some reason) : e.kept rule counts = .empty := by
  apply OrderedMap.ext
  simp [kept, admits, h]

/-- A verdict leaves what is kept. So a verdict need not be taken apart. -/
theorem counts_verdict (e : Eligibility) (rule : String) (counts : Counts) :
    (e.verdict rule counts).counts = e.kept rule counts := by
  unfold verdict
  cases h : e.ruleReason? rule with
  | some reason => exact (kept_of_reason counts h).symm
  | none =>
    by_cases hnil : (e.kept rule counts).entries = []
    · rw [if_pos hnil]
      exact OrderedMap.ext hnil.symm
    · rw [if_neg hnil]
      rfl

/-- A verdict is favourable exactly if something is kept. What is left is stated with it. -/
theorem verdict_eq_eligible_iff {e : Eligibility} {rule : String} {counts left : Counts} :
    e.verdict rule counts = .eligible left ↔
      (e.kept rule counts).entries ≠ [] ∧ left = e.kept rule counts := by
  unfold verdict
  cases h : e.ruleReason? rule with
  | some reason => simp [kept_of_reason counts h]
  | none =>
    by_cases hnil : (e.kept rule counts).entries = []
    · simp [hnil]
    · simp [hnil, eq_comm]

/-! ### What the filters answer -/

theorem reachedFiles_eq (e : Eligibility) (files : List String) :
    e.reachedFiles files = filterFiles e.inScope files := by
  unfold reachedFiles
  cases h : e.reach with
  | none =>
    have hscope : e.inScope = fun _ => .ok true := funext fun f => by rw [inScope, h]
    rw [hscope, filterFiles_yes]
  | some reach =>
    have hscope : e.inScope = fun f =>
        (reach.project.isAmong reach.paths f).mapError (fun c => .trouble (.link c)) :=
      funext fun f => by rw [inScope, h]
    rw [hscope, ← mapError_filterFiles]

/-- The files that pass can be told if each file can be looked for; they are those in scope that the
    globs allow. -/
theorem files_ok_iff {e : Eligibility} {files passed : List String} :
    e.files files = .ok passed ↔
      (∀ f ∈ files, ∃ b, e.inScope f = .ok b) ∧
        passed = files.filter (fun f => saysYes (e.inScope f) && e.globsAllow f) := by
  rw [Eligibility.files, map_ok_iff, reachedFiles_eq]
  constructor
  · rintro ⟨reached, hreached, rfl⟩
    obtain ⟨hall, rfl⟩ := filterFiles_ok_iff.mp hreached
    exact ⟨hall, by rw [List.filter_filter]; simp only [Bool.and_comm]⟩
  · rintro ⟨hall, rfl⟩
    refine ⟨_, filterFiles_ok_iff.mpr ⟨hall, rfl⟩, ?_⟩
    rw [List.filter_filter]
    simp only [Bool.and_comm]

/-- The files that pass are those with a violation that is kept. The order is that of the files. -/
theorem keys_kept {e : Eligibility} {rule : String} (counts : Counts)
    (h : e.ruleReason? rule = none) :
    (e.kept rule counts).keys =
      counts.keys.filter (fun f => saysYes (e.inScope f) && e.globsAllow f) := by
  simp [kept, OrderedMap.keys, List.filter_map, Function.comp_def, admits, h]

/-- Keeping the violations of the files that pass is keeping the admitted ones. The program goes by
    the files that pass; the statements go by each violation. -/
theorem filter_keys_kept {e : Eligibility} {rule : String} (counts : Counts) :
    counts.filter (fun file _ => (e.kept rule counts).keys.contains file) =
      e.kept rule counts := by
  apply OrderedMap.ext
  refine List.filter_congr (fun x hx => ?_)
  rw [Bool.eq_iff_iff, List.contains_iff_mem, OrderedMap.mem_keys]
  constructor
  · rintro ⟨n, hn⟩
    exact (mem_kept.mp hn).2
  · intro hadmits
    exact ⟨x.2, mem_kept.mpr ⟨hx, hadmits⟩⟩

/-- The filters give a verdict exactly if every file is settled. The verdict does not depend on how
    the files are gone through. -/
theorem filter_ok_iff {e : Eligibility} {rule : String} {counts : Counts} {v : Verdict} :
    e.filter rule counts = .ok v ↔
      (∀ file ∈ counts.keys, e.Settles rule file) ∧ v = e.verdict rule counts := by
  unfold filter Settles verdict
  cases h : e.ruleReason? rule with
  | some reason => simp [eq_comm]
  | none =>
    -- The filters look at the names of files that are left, and the verdict at the violations.
    have hempty : (e.kept rule counts).keys.isEmpty = true ↔
        (e.kept rule counts).entries = [] := by
      simp [OrderedMap.keys]
    simp only [bind_ok_iff, pure_ok_iff, files_ok_iff, forall_const, ← keys_kept counts h]
    constructor
    · rintro ⟨_, ⟨hall, rfl⟩, rfl⟩
      refine ⟨hall, ?_⟩
      simp only [filter_keys_kept, hempty]
    · rintro ⟨hall, rfl⟩
      refine ⟨_, ⟨hall, rfl⟩, ?_⟩
      simp only [filter_keys_kept, hempty]

end Eligibility

end Backlog
