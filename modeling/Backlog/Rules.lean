import Backlog.Data
import Backlog.OrderedMap

namespace Backlog

open Backlog.Text

/-!
# Rule metadata

Which lint rules the linter can fix by itself.

* `Rules.isFixable` — a rule that is not listed is not fixable;
* `Rules.ofData` — a document gives each rule a truth value, or a mapping with one under `fixable`.
-/

/-- Whether each listed rule can be fixed automatically. -/
abbrev Rules := OrderedMap String Bool

/-- What is wrong with a document that should be rule metadata. -/
inductive RulesError where
  | notAMapping
  | badRule (key : Scalar)
  | notABool (rule : String)

/-- The wording of a refusal. -/
def RulesError.message : RulesError → String
  | .notAMapping => "rule metadata must be a mapping of rule ids"
  | .badRule key => Data.keyShownIn key fun shown =>
    s!"rule metadata: rule id must be a string, got {shown}"
  | .notABool rule => s!"rule metadata: 'fixable' for {quoted rule} must be a boolean"

namespace Rules

/-- Whether a rule is listed as fixable. -/
def isFixable (rules : Rules) (rule : String) : Bool := rules.lookup rule = some true

/-- The truth value given for one rule; a mapping without `fixable` says no. A mapping inside itself
    can only be the document, whose entries are `document`. -/
def fixableValue (document : List (Scalar × Data)) : Data → Data
  | .map entries => (Data.field? entries "fixable").getD (.bool false)
  | .loopedMap => (Data.field? document "fixable").getD (.bool false)
  | value => value

/-- The rules of some entries of a document. -/
def readRules (document : List (Scalar × Data)) :
    List (Scalar × Data) → Except RulesError (List (String × Bool))
  | [] => .ok []
  | (key, value) :: rest =>
    match key with
    | .text rule =>
      match fixableValue document value with
      | .bool b => (readRules document rest).map ((rule, b) :: ·)
      | _ => .error (.notABool rule)
    | _ => .error (.badRule key)

/-- The metadata that a document holds; an empty document holds none. -/
def ofData : Data → Except RulesError Rules
  | .null => .ok .empty
  | .map entries => (readRules entries entries).map OrderedMap.ofList
  | _ => .error .notAMapping

end Rules

end Backlog
