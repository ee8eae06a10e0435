import Backlog.Selection.Choice

namespace Backlog

/-!
# Applying a selection

* `Ledger.apply` — the ledger without the selected violations.

An entry goes only if its count is still the one that was selected.
-/

/-- The violations that a selection removes; `none` stands for all of its rule. -/
def Selection.covered (s : Selection) : Option Counts :=
  match s.extent with
  | .whole => s.eligible
  | .slice => some (s.violations.getD .empty)

/-- Whether a selection removes an entry. -/
def Selection.removes (s : Selection) (file rule : String) (count : Int) : Bool :=
  rule = s.rule && match s.covered with
    | none => true
    | some counts => counts.lookup file = some count

/-- The ledger without the entries that a selection removes. -/
def Ledger.apply (ledger : Ledger) : Option Selection → Ledger
  | none => ledger
  | some s => .ofFiles (ledger.files.map fun file counts =>
      counts.filter (fun rule count => !s.removes file rule count))

end Backlog
