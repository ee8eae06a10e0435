import Backlog.Data
import Backlog.OrderedMap
import Backlog.Text.Sorted

namespace Backlog

open Backlog.Text

/-!
# The ledger of suppressed violations

How many violations of each lint rule each file still has. Files keep the order in which they were
given, since a partial selection takes them in that order, and no file stands without a rule.

* `Ledger.ofFiles` — drops the files without rules;
* `Ledger.ruleIds` — the rules in the order in which they first come;
* `Ledger.byRule` — the same counts, rule by rule;
* `Ledger.sameAs` — equality regardless of order.
-/

/-- A number for each name: violations per rule of a file, or per file of a rule. -/
abbrev Counts := OrderedMap String Int

/-- The sum of the counts. -/
def Counts.total (counts : Counts) : Int := counts.values.foldr (· + ·) 0

/-- The counts of every file. -/
abbrev FileCounts := OrderedMap String Counts

/-- The counts of every file that has any. -/
structure Ledger where
  /-- The files in order, each with its rules in order. -/
  files : FileCounts
  /-- No file is without rules. -/
  nonempty : ∀ e ∈ files.entries, e.2.entries ≠ []

namespace Ledger

/-- Two ledgers with the same files are the same ledger. -/
@[ext] theorem ext {a b : Ledger} (h : a.files = b.files) : a = b := by
  cases a; cases b; cases h; rfl

instance : DecidableEq Ledger := fun a b =>
  decidable_of_iff (a.files = b.files) ⟨Ledger.ext, fun h => h ▸ rfl⟩

/-- The ledger of these files, without those that have no rules. -/
def ofFiles (files : FileCounts) : Ledger where
  files := files.filter (fun _ rules => !rules.entries.isEmpty)
  nonempty := by
    intro e he
    have h := (List.mem_filter.mp he).2
    intro hn
    simp [hn] at h

instance : Inhabited Ledger := ⟨ofFiles .empty⟩

/-- The rules of all files, each where it first comes. -/
def ruleIds (ledger : Ledger) : List String :=
  distinctTexts (ledger.files.entries.flatMap (fun e => e.2.keys))

/-- Enters the count of a file under a rule. -/
def enter (byRule : OrderedMap String Counts) (rule file : String) (count : Int) :
    OrderedMap String Counts :=
  byRule.insert rule (((byRule.lookup rule).getD .empty).insert file count)

/-- The counts rule by rule: rules in the order in which they first come, and the files of each in
    the ledger's order. -/
def byRule (ledger : Ledger) : OrderedMap String Counts :=
  ledger.files.entries.foldl
    (fun acc e => e.2.entries.foldl (fun acc r => enter acc r.1 e.1 r.2) acc) .empty

/-- Whether two sets of files hold the same counts, in any order. -/
def sameFiles (a b : FileCounts) : Bool := a.agree (fun r s => r.sameEntries s) b

/-- Whether two ledgers hold the same counts, in any order. -/
def sameAs (a b : Ledger) : Bool := sameFiles a.files b.files

end Ledger

end Backlog
