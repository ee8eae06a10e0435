import Backlog.Selection.Candidate

namespace Backlog

open Backlog.Files

/-!
# Choosing a rule

A rule that fits the limit as a whole is preferred: a fixable one first, then the one with more
violations, then the one that comes first by name. If none fits, the largest rule may be cut down to
its first files.

* `Selection` — a chosen rule;
* `choose` — the choice among candidates;
* `selectRule` — one selection from a ledger.
-/

/-- Whether a selection takes all eligible violations of its rule. -/
inductive Extent where
  | whole
  | slice
  deriving DecidableEq, Repr

/-- The word for an extent. -/
def Extent.name : Extent → String
  | whole => "full"
  | slice => "partial"

/-- A chosen rule. -/
structure Selection where
  rule : String
  extent : Extent
  /-- The violations of a slice. -/
  violations : Option Counts := none
  /-- The violations that the whole rule covers. -/
  eligible : Option Counts := none
  deriving DecidableEq

/-- The selection as a document; the violations that a whole rule covers are left out. -/
def Selection.toData (s : Selection) : Data :=
  let fields : List (Scalar × Data) := match s.violations with
    | none => []
    | some counts =>
      [(.text "violations", .map (counts.entries.map fun e => (.text e.1, .int e.2)))]
  .map [
    (.text "success", .bool true),
    (.text "selection", .map
      ([(.text "ruleId", .text s.rule), (.text "type", .text s.extent.name)] ++ fields))]

/-- What a selection comes to, as a document. -/
def selectionData : Option Selection → Data
  | none => .map [(.text "success", .bool false)]
  | some s => s.toData

/-- Whether one candidate is preferred to another. -/
def Candidate.precedes (a b : Candidate) : Bool :=
  if a.isFixable ≠ b.isFixable then a.isFixable
  else if a.size ≠ b.size then b.size < a.size
  else a.rule < b.rule

/-- The first item of a list to which no other one is preferred. -/
def leastBy {α : Type} (precedes : α → α → Bool) : List α → Option α
  | [] => none
  | a :: rest =>
    match leastBy precedes rest with
    | none => some a
    -- Only a strict preference moves an item ahead of an earlier one, so ties keep the order.
    | some b => if precedes b a then some b else some a

/-- The longest beginning of some counts whose sum stays within a limit, after others that sum up to
    `used`. -/
def sumPrefix (limit used : Int) : List (String × Int) → List (String × Int)
  | [] => []
  | e :: rest =>
    -- The first entry that does not fit ends the beginning, even if later ones would fit.
    if limit < used + e.2 then [] else e :: sumPrefix limit (used + e.2) rest

/-- What is cut off at a limit is a part of the entries, in their order. So a map that is cut off is
    a map again. -/
theorem sumPrefix_sublist (limit : Int) :
    ∀ (used : Int) (entries : List (String × Int)),
      (sumPrefix limit used entries).Sublist entries
  | _, [] => List.Sublist.refl _
  | used, e :: rest => by
    unfold sumPrefix
    split
    · exact List.nil_sublist _
    · exact (sumPrefix_sublist limit (used + e.2) rest).cons_cons e

/-- The longest beginning of some violations that fits a limit. -/
def fittingPrefix (kind : LimitKind) (limit : Int) (counts : Counts) : Counts :=
  match kind with
  -- Each file counts once, so the limit is a number of entries.
  | .file => counts.take limit.toNat
  | .violation =>
    ⟨sumPrefix limit 0 counts.entries,
      List.Nodup.sublist ((sumPrefix_sublist limit 0 counts.entries).map Prod.fst)
        counts.nodup_keys⟩

/-- The choice among candidates. -/
def choose (candidates : List Candidate) (kind : LimitKind) (limit : Int) (allowPartial : Bool) :
    Option Selection :=
  match leastBy Candidate.precedes (candidates.filter (fun c => c.size ≤ limit)) with
  | some best => some { rule := best.rule, extent := .whole, eligible := some best.eligible }
  | none =>
    if !allowPartial then none
    -- The largest of all candidates, fixable or not.
    else match leastBy (fun a b => decide (b.size < a.size)) candidates with
      | none => none
      | some target =>
        let slice := fittingPrefix kind limit target.eligible
        -- A first file above the limit leaves an empty slice, which is no selection.
        if slice.isEmpty then none
        else some { rule := target.rule, extent := .slice, violations := some slice }

/-- The choice among candidates, if the limit is usable. -/
def chooseWithin (candidates : List Candidate) (limit : Limit) (options : Options) :
    Except ConfigError (Option Selection) := do
  let kind ← limit.validate
  return choose candidates kind limit.count options.allowPartial

/-- Why there is no selection to speak of. -/
inductive SelectError where
  | config (cause : ConfigError)
  | build (cause : BuildError)
  | candidates (cause : CandidateError)

/-- The files that an active scope allows in a project, with a graph that is made if needed. -/
def reachablePaths (graph : DependencyScope → Except BuildError ImportGraph) (options : Options)
    (project : Project) : Except SelectError (Option (List String)) :=
  match Eligibility.activeScope options with
  | none => .ok none
  | some scope => do
    let graph ← (graph scope).mapError .build
    let paths ← (graph.scopeReach scope project).mapError
      (fun c => .candidates (.filter (.trouble (.link c))))
    return some paths

/-- One selection from a ledger, restricted to some paths if any are given: the rules are filtered,
    and one of them is chosen. -/
def selectAmong (paths : Option (List String)) (kind : LimitKind) (ledger : Ledger) (rules : Rules)
    (config : Config) (project : Project) : Except SelectError (Option Selection) := do
  let eligibility ← (Eligibility.ofOptions rules config.options paths (some project)).mapError
    (fun c => .candidates (.filter c))
  let candidates ← (Candidate.ofLedger eligibility (.known kind) ledger).mapError .candidates
  return choose candidates kind config.limit.count config.options.allowPartial

/-- One selection from a ledger: the limit is checked, then the graph is made, then a rule is
    selected. -/
def selectRule (ledger : Ledger) (rules : Rules) (config : Config) (project : Project)
    (graph : DependencyScope → Except BuildError ImportGraph) :
    Except SelectError (Option Selection) := do
  let kind ← config.limit.validate.mapError .config
  let paths ← reachablePaths graph config.options project
  selectAmong paths kind ledger rules config project

end Backlog
