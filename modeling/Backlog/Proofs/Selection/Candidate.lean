import Backlog.Proofs.Ledger.ByRule
import Backlog.Proofs.Selection.Admission
import Backlog.Selection.Candidate

namespace Backlog

/-!
# The candidates of a ledger

Candidates are made rule by rule, and the filters may stop at any file of any rule. Where they do
not stop, the candidates can be written down as a list without any refusals in it, and that list is
what all later statements are about.

* `Eligibility.candidates` — the candidates when every entry is settled: the rules with a violation
  that is kept;
* `Eligibility.ofLedger_ok_iff` — a ledger has candidates exactly if every entry is settled, and
  then they are these;
* `Eligibility.mem_candidates` — one for every rule that keeps something.
-/

namespace Eligibility

/-- The candidate that some violations of a rule make. -/
def candidate (e : Eligibility) (kind : LimitKind) (rule : String) (counts : Counts) : Candidate :=
  ⟨rule, e.rules.isFixable rule, counts.keys, counts.total, e.kept rule counts,
    kind.measure (e.kept rule counts)⟩

/-- The candidate of a rule that keeps something. -/
def candidate? (e : Eligibility) (kind : LimitKind) (g : String × Counts) : Option Candidate :=
  if (e.kept g.1 g.2).entries = [] then none else some (e.candidate kind g.1 g.2)

/-- The candidates of a ledger, as far as its entries are settled. -/
def candidates (e : Eligibility) (kind : LimitKind) (ledger : Ledger) : List Candidate :=
  ledger.byRule.entries.filterMap (e.candidate? kind)

/-- A rule has a candidate, or none, if each of its files is settled. -/
theorem ofRule_ok_iff {e : Eligibility} {kind : LimitKind} {rule : String} {counts : Counts}
    {c : Option Candidate} :
    Candidate.ofRule e (.known kind) rule counts = .ok c ↔
      (∀ file ∈ counts.keys, e.Settles rule file) ∧ c = e.candidate? kind (rule, counts) := by
  simp only [Candidate.ofRule, bind_ok_iff, mapError_ok_iff, filter_ok_iff]
  have hverdict := @verdict_eq_eligible_iff e rule counts
  by_cases hnil : (e.kept rule counts).entries = []
  · -- nothing is kept: whatever the reason, there is no candidate
    cases hv : e.verdict rule counts with
    | eligible left => exact absurd hnil (hverdict.mp hv).1
    | ineligible reason =>
      constructor
      · rintro ⟨_, ⟨hall, rfl⟩, hc⟩
        rw [pure_ok_iff] at hc
        exact ⟨hall, by rw [hc, candidate?, if_pos hnil]⟩
      · rintro ⟨hall, rfl⟩
        exact ⟨_, ⟨hall, rfl⟩, by rw [candidate?, if_pos hnil]; rfl⟩
  · have hv : e.verdict rule counts = .eligible (e.kept rule counts) :=
      hverdict.mpr ⟨hnil, rfl⟩
    rw [hv]
    constructor
    · rintro ⟨_, ⟨hall, rfl⟩, hc⟩
      simp only [bind_ok_iff, mapError_ok_iff, pure_ok_iff, LimitUnit.measure] at hc
      obtain ⟨_, hsize, rfl⟩ := hc
      cases hsize
      exact ⟨hall, by rw [candidate?, if_neg hnil]; rfl⟩
    · rintro ⟨hall, rfl⟩
      exact ⟨_, ⟨hall, rfl⟩, by rw [candidate?, if_neg hnil]; rfl⟩

/-- So have rules one after another, and those without a candidate are passed over. -/
theorem ofRules_ok_iff {e : Eligibility} {kind : LimitKind} {groups : List (String × Counts)}
    {cs : List Candidate} :
    Candidate.ofRules e (.known kind) groups = .ok cs ↔
      (∀ g ∈ groups, ∀ file ∈ g.2.keys, e.Settles g.1 file) ∧
        cs = groups.filterMap (e.candidate? kind) := by
  induction groups generalizing cs with
  | nil => simp [Candidate.ofRules, eq_comm]
  | cons g rest ih =>
    simp only [Candidate.ofRules, bind_ok_iff, pure_ok_iff, ofRule_ok_iff, ih,
      List.forall_mem_cons]
    have hcons : (e.candidate? kind g).toList ++ rest.filterMap (e.candidate? kind) =
        (g :: rest).filterMap (e.candidate? kind) := by
      cases hg : e.candidate? kind g <;> simp [hg]
    constructor
    · rintro ⟨_, ⟨hg, rfl⟩, _, ⟨hrest, rfl⟩, rfl⟩
      exact ⟨⟨hg, hrest⟩, hcons⟩
    · rintro ⟨⟨hg, hrest⟩, rfl⟩
      exact ⟨_, ⟨hg, rfl⟩, _, ⟨hrest, rfl⟩, hcons.symm⟩

/-- A ledger has candidates exactly if each of its entries is settled. The entries are gone through
    by rule and file. -/
theorem ofLedger_ok_iff {e : Eligibility} {kind : LimitKind} {ledger : Ledger}
    {cs : List Candidate} :
    Candidate.ofLedger e (.known kind) ledger = .ok cs ↔
      (∀ x ∈ ledger.entries, e.Settles x.rule x.file) ∧ cs = e.candidates kind ledger := by
  rw [Candidate.ofLedger, ofRules_ok_iff]
  refine and_congr_left fun _ => ?_
  constructor
  · intro h x hx
    refine h (x.rule, ledger.countsOf x.rule) (Ledger.mem_byRule.mpr ⟨⟨x, hx, rfl⟩, rfl⟩) x.file ?_
    exact OrderedMap.mem_keys.mpr ⟨x.count, Ledger.mem_countsOf.mpr hx⟩
  · rintro h ⟨rule, counts⟩ hg file hfile
    obtain ⟨_, rfl⟩ := Ledger.mem_byRule.mp hg
    obtain ⟨n, hn⟩ := OrderedMap.mem_keys.mp hfile
    exact h _ (Ledger.mem_countsOf.mp hn)

/-- There is one candidate for every rule that keeps something. It has all that is eligible of the
    rule. -/
theorem mem_candidates {e : Eligibility} {kind : LimitKind} {ledger : Ledger} {c : Candidate} :
    c ∈ e.candidates kind ledger ↔
      ∃ rule, (e.kept rule (ledger.countsOf rule)).entries ≠ [] ∧
        c = e.candidate kind rule (ledger.countsOf rule) := by
  rw [candidates, List.mem_filterMap]
  constructor
  · rintro ⟨⟨rule, counts⟩, hg, hc⟩
    obtain ⟨_, rfl⟩ := Ledger.mem_byRule.mp hg
    unfold candidate? at hc
    split at hc
    · cases hc
    · rename_i hne
      exact ⟨rule, hne, (Option.some.inj hc).symm⟩
  · rintro ⟨rule, hne, rfl⟩
    -- A rule that keeps something has an entry.
    obtain ⟨y, hy⟩ := List.exists_mem_of_ne_nil _ hne
    have hentry := Ledger.mem_countsOf.mp (mem_kept.mp hy).1
    exact ⟨(rule, ledger.countsOf rule), Ledger.mem_byRule.mpr ⟨⟨_, hentry, rfl⟩, rfl⟩,
      if_neg hne⟩

end Eligibility

end Backlog
