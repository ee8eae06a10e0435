import Backlog.Ledger.Basic
import Backlog.Selection.Eligibility

namespace Backlog

/-!
# Candidates of a selection

A rule is chosen, and not single violations. So for each rule the violations that pass the filters
are gathered, with their size in the unit of the limit, before anything is chosen.

* `Candidate` — a rule of the ledger with its eligible violations;
* `Candidate.ofLedger` — one candidate per rule that has any.
-/

/-- A rule that may be selected. -/
structure Candidate where
  rule : String
  isFixable : Bool
  /-- All files of the rule in the ledger. -/
  files : List String
  /-- The number of all its violations in the ledger. -/
  total : Int
  /-- The violations that may be selected, in ledger order. -/
  eligible : Counts
  /-- The size of those violations in the unit of the limit. -/
  size : Int
  deriving DecidableEq

/-- Why candidates cannot be listed. -/
inductive CandidateError where
  | filter (cause : FilterError)
  | unit (cause : UnknownUnit)

/-- The wording of a refusal. -/
def CandidateError.message : CandidateError → String
  | .filter cause => cause.message
  | .unit cause => cause.message

namespace Candidate

/-- The candidate of one rule, if it has eligible violations. -/
def ofRule (e : Eligibility) (unit : LimitUnit) (rule : String) (counts : Counts) :
    Except CandidateError (Option Candidate) := do
  match ← (e.filter rule counts).mapError .filter with
  | .ineligible _ => return none
  | .eligible eligible =>
    let size ← (unit.measure eligible).mapError .unit
    return some ⟨rule, e.rules.isFixable rule, counts.keys, counts.total, eligible, size⟩

/-- The candidates among some rules, in order. -/
def ofRules (e : Eligibility) (unit : LimitUnit) :
    List (String × Counts) → Except CandidateError (List Candidate)
  | [] => .ok []
  | (rule, counts) :: rest => do
    let candidate ← ofRule e unit rule counts
    let candidates ← ofRules e unit rest
    return candidate.toList ++ candidates

/-- The candidates of a ledger, in the order in which their rules first come. -/
def ofLedger (e : Eligibility) (unit : LimitUnit) (ledger : Ledger) :
    Except CandidateError (List Candidate) :=
  ofRules e unit ledger.byRule.entries

end Candidate

end Backlog
