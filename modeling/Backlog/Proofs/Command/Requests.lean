import Backlog.Command.Selecting
import Backlog.Proofs.Files.Places
import Backlog.Proofs.Outcome

namespace Backlog.Command

open Backlog.Files Backlog.Files.FileTree Backlog.Text

/-!
# Requests that are accepted

A command line is sorted into options and words twice, once for the whole program and once for the
command. What a request is about can be traced back to the second of these, and this is where
statements about command lines get hold of their options.

* `Request.selection?` — the selection that a request is about;
* `commandReading` — the options and words behind the name of a command that makes a selection;
* `IsAsked` — what words can ask for, and the options and words that it comes from;
* `ofWords_select`, `ofWords_apply`, `ofWords_graph` — where those come from, they are asked for;
* `exists_reading` — so a selection comes from the options and words of its command;
* `ledger_of_selectionOf`, `project_of_selectionOf` — its ledger is a file, and the path of its
  project is one that can be written.
-/

/-- The selection that a request is about. -/
def Request.selection? : Request → Option SelectionRequest
  | .select r _ => some r
  | .apply r _ => some r
  | _ => none

/-- The options of a command that makes a selection. -/
def selectionOptionsOf? (command : String) : Option (List OptionSpec) :=
  if command = "select" then some selectOptions
  else if command = "apply" then some applyOptions
  else none

/-- The options and words behind the name of a command that makes a selection. -/
def commandReading (words : List String) : Option Reading :=
  match readArguments mainOptions false words with
  | .ok ⟨_, name :: rest⟩ =>
    (selectionOptionsOf? name).bind fun options => (readArguments options true rest).toOption
  | _ => none

/-! ### Where requests come from -/

/-- What is asked of a group of commands is a call for help, or asked of one command. The options of
    the group come first, and then the name of the command. -/
theorem dispatch_ok {options : List OptionSpec} {names words : List String}
    {command : String → List String → Option (Except RequestError Request)} {request : Request}
    (h : dispatch options names words command = .ok request) :
    request = .help ∨ request = .version ∨ ∃ given name rest,
      readArguments options false words = .ok ⟨given, name :: rest⟩ ∧
        command name rest = some (.ok request) := by
  unfold dispatch at h
  dsimp only at h
  split at h
  · cases h
  obtain ⟨⟨given, behind⟩, hreading, h⟩ := bind_ok_iff.mp h
  split at h
  · exact .inr (.inl (pure_ok_iff.mp h))
  · exact .inl (pure_ok_iff.mp h)
  · split at h
    · cases h
    · rename_i name rest hbehind
      obtain rfl : behind = name :: rest := hbehind
      split at h
      · rename_i found hfound
        exact .inr (.inr ⟨given, name, rest, mapError_ok_iff.mp hreading, by rw [hfound, h]⟩)
      · -- what is no command may still stand in front of a call for help
        have hagain : ∀ again : Reading,
            (if again.isOn .version then pure .version
              else if again.isOn .help then pure .help
              else throw (.usage (.noSuchCommand name (similarTexts name names)))) =
                (.ok request : Except RequestError Request) →
              request = .help ∨ request = .version := by
          intro again h
          split at h
          · exact .inr (pure_ok_iff.mp h)
          · split at h
            · exact .inl (pure_ok_iff.mp h)
            · cases h
        split at h
        all_goals
          obtain ⟨again, _, h⟩ := bind_ok_iff.mp h
          exact (hagain again h).imp_right .inl

/-- What is asked of a command is a call for help, or comes from its options and words. Help counts
    before anything is checked. -/
theorem requestOf_ok {options : List OptionSpec} {words : List String}
    {command : Reading → Except ArgumentError Request} {request : Request}
    (h : requestOf options words command = .ok request) :
    request = .help ∨
      ∃ reading, readArguments options true words = .ok reading ∧ command reading = .ok request := by
  obtain ⟨reading, hreading, h⟩ := bind_ok_iff.mp h
  split at h
  · exact .inl (pure_ok_iff.mp h)
  · exact .inr ⟨reading, mapError_ok_iff.mp hreading, mapError_ok_iff.mp h⟩

/-- What a command is built of is found in its options and words. What is built is either the ledger
    and settings of a selection or those of a graph. -/
theorem requestOf_bind_ok {α : Type} {options : List OptionSpec} {words : List String}
    {build : Reading → Except ArgumentError α} {command : α → Reading → Request} {request : Request}
    (h : requestOf options words (fun reading => do
      return command (← build reading) reading) = .ok request) :
    request = .help ∨ ∃ reading a, readArguments options true words = .ok reading ∧
      build reading = .ok a ∧ request = command a reading := by
  obtain hhelp | ⟨reading, hreading, h⟩ := requestOf_ok h
  · exact .inl hhelp
  · obtain ⟨a, ha, h⟩ := bind_ok_iff.mp h
    exact .inr ⟨reading, a, hreading, ha, pure_ok_iff.mp h⟩

/-- A command is asked for by its name, with nothing in front of it, and the words behind it. This
    is the way by which the examples are read. -/
theorem dispatch_of_command {options : List OptionSpec} {names words rest : List String}
    {name : String} {command : String → List String → Option (Except RequestError Request)}
    {outcome : Except RequestError Request}
    (hwords : readArguments options false words = .ok ⟨[], name :: rest⟩)
    (hcommand : command name rest = some outcome) :
    dispatch options names words command = outcome := by
  have hsome : words.isEmpty = false := by
    cases words with
    | nil => cases hwords
    | cons _ _ => rfl
  simp [dispatch, hsome, hwords, mapError_ok, hcommand, bind, Except.bind]

/-- A command is built of its options and words, unless help is asked for. This is the converse of
    the inversion above, for the examples. -/
theorem requestOf_bind {α : Type} {options : List OptionSpec} {words : List String}
    {build : Reading → Except ArgumentError α} {command : α → Reading → Request} {reading : Reading}
    {a : α} (hwords : readArguments options true words = .ok reading)
    (hhelp : reading.isOn .help = false) (h : build reading = .ok a) :
    requestOf options words (fun reading => do return command (← build reading) reading) =
      .ok (command a reading) := by
  rw [requestOf, hwords]
  show (if reading.isOn .help then _ else _) = _
  rw [hhelp, h]
  rfl

variable {tree : FileTree} {words : List String} {request : Request} {r : SelectionRequest}

/-- What words can ask for: help, or one of the commands by its name, with the options and words
    behind it. -/
inductive IsAsked (tree : FileTree) (words : List String) : Request → Prop
  | help : IsAsked tree words .help
  | version : IsAsked tree words .version
  | select {given : List (Key × Given)} {rest : List String} {reading : Reading} {r : SelectionRequest}
      (hwords : readArguments mainOptions false words = .ok ⟨given, "select" :: rest⟩)
      (hreading : readArguments selectOptions true rest = .ok reading)
      (h : selectionOf tree reading selectOptions = .ok r) :
      IsAsked tree words (.select r (reading.isOn .json))
  | apply {given : List (Key × Given)} {rest : List String} {reading : Reading} {r : SelectionRequest}
      (hwords : readArguments mainOptions false words = .ok ⟨given, "apply" :: rest⟩)
      (hreading : readArguments applyOptions true rest = .ok reading)
      (h : selectionOf tree reading applyOptions = .ok r) :
      IsAsked tree words (.apply r (reading.isOn .write))
  | graph {given : List (Key × Given)} {rest : List String} {reading : Reading} {r : GraphRequest}
      (hwords : readArguments mainOptions false words = .ok ⟨given, "graph" :: rest⟩)
      (hreading : readArguments graphOptions true rest = .ok reading)
      (h : graphOf tree reading = .ok r) : IsAsked tree words (.graph r (reading.isOn .json))
  | clearCache (project : Option Path) : IsAsked tree words (.clearCache project)

/-- Whatever a command line asks for, it asks for in one of the ways that are listed. -/
theorem isAsked_of_ofWords (h : Request.ofWords tree words = .ok request) :
    IsAsked tree words request := by
  rcases dispatch_ok h with rfl | rfl | ⟨given, name, rest, hwords, h⟩
  · exact .help
  · exact .version
  split at h
  · rcases requestOf_bind_ok (Option.some.inj h) with rfl | ⟨_, _, hreading, hr, rfl⟩
    · exact .help
    · exact .select hwords hreading hr
  · rcases requestOf_bind_ok (Option.some.inj h) with rfl | ⟨_, _, hreading, hr, rfl⟩
    · exact .help
    · exact .apply hwords hreading hr
  · rcases requestOf_bind_ok (Option.some.inj h) with rfl | ⟨_, _, hreading, hr, rfl⟩
    · exact .help
    · exact .graph hwords hreading hr
  · -- the commands about the cache are a group of their own
    rcases dispatch_ok (Option.some.inj h) with rfl | rfl | ⟨_, name, rest, _, h⟩
    · exact .help
    · exact .version
    split at h
    · rcases requestOf_ok (Option.some.inj h) with rfl | ⟨reading, _, h⟩
      · exact .help
      · obtain ⟨_, _, h⟩ := bind_ok_iff.mp h
        obtain ⟨_, _, h⟩ := bind_ok_iff.mp h
        obtain rfl := pure_ok_iff.mp h
        exact .clearCache _
    · cases h
  · cases h

section Commands

variable {rest : List String} {reading : Reading}

/-- A command line that asks for a selection to be shown. -/
theorem ofWords_select
    (hwords : readArguments mainOptions false words = .ok ⟨[], "select" :: rest⟩)
    (hreading : readArguments selectOptions true rest = .ok reading)
    (hhelp : reading.isOn .help = false) (h : selectionOf tree reading selectOptions = .ok r) :
    Request.ofWords tree words = .ok (.select r (reading.isOn .json)) :=
  (dispatch_of_command hwords rfl).trans (requestOf_bind hreading hhelp h)

/-- A command line that asks for a selection to be applied. -/
theorem ofWords_apply
    (hwords : readArguments mainOptions false words = .ok ⟨[], "apply" :: rest⟩)
    (hreading : readArguments applyOptions true rest = .ok reading)
    (hhelp : reading.isOn .help = false) (h : selectionOf tree reading applyOptions = .ok r) :
    Request.ofWords tree words = .ok (.apply r (reading.isOn .write)) :=
  (dispatch_of_command hwords rfl).trans (requestOf_bind hreading hhelp h)

theorem ofWords_graph {r : GraphRequest}
    (hwords : readArguments mainOptions false words = .ok ⟨[], "graph" :: rest⟩)
    (hreading : readArguments graphOptions true rest = .ok reading)
    (hhelp : reading.isOn .help = false) (h : graphOf tree reading = .ok r) :
    Request.ofWords tree words = .ok (.graph r (reading.isOn .json)) :=
  (dispatch_of_command hwords rfl).trans (requestOf_bind hreading hhelp h)

end Commands

/-- A selection that is asked for comes from the options and words of a command line; all options of
    a selection are among those of the command. The reading is that of the words behind the name of
    the command. -/
theorem exists_reading (h : Request.ofWords tree words = .ok request)
    (hr : request.selection? = some r) :
    ∃ reading options, commandReading words = some reading ∧ selectionOptions <+: options ∧
      selectionOf tree reading options = .ok r := by
  cases isAsked_of_ofWords h with
  | help | version | graph | clearCache => cases hr
  | select hwords hreading hselection =>
    obtain rfl := Option.some.inj hr
    refine ⟨_, _, ?_, List.prefix_append _ _, hselection⟩
    simp [commandReading, hwords, selectionOptionsOf?, hreading, Except.toOption]
  | apply hwords hreading hselection =>
    obtain rfl := Option.some.inj hr
    refine ⟨_, _, ?_, List.prefix_append _ _, hselection⟩
    simp [commandReading, hwords, selectionOptionsOf?, hreading, Except.toOption]

/-! ### What is checked -/

/-- A path that passes leads to something, which is a folder just if one is asked for. -/
theorem checkPath_ok {place value : String} {folder : Bool}
    (h : checkPath tree place value folder = .ok ()) :
    ∃ node, tree.stat value = .ok node ∧ isFolderNode node = folder := by
  unfold checkPath at h
  dsimp only at h
  cases hstat : tree.stat value with
  | error fault =>
    rw [hstat] at h
    cases fault <;> cases h
  | ok node =>
    rw [hstat] at h
    dsimp only at h
    split at h
    · exact ⟨node, rfl, ‹_›⟩
    · cases h

/-- The ledger of a selection is given by the text of a path to something that is no folder. Whether
    it can be read is only found out later. -/
theorem ledger_of_selectionOf {reading : Reading} {options : List OptionSpec}
    (h : selectionOf tree reading options = .ok r) :
    ∃ value node, r.ledger = .ofText value ∧ tree.stat value = .ok node ∧
      isFolderNode node = false := by
  obtain ⟨_, _, h⟩ := bind_ok_iff.mp h
  obtain ⟨⟨value, rest⟩, _, h⟩ := bind_ok_iff.mp h
  obtain ⟨_, hcheck, h⟩ := bind_ok_iff.mp h
  obtain ⟨_, _, h⟩ := bind_ok_iff.mp h
  obtain rfl := pure_ok_iff.mp h
  obtain ⟨node, hstat, hnode⟩ := checkPath_ok hcheck
  exact ⟨value, node, rfl, hstat, hnode⟩

/-- The project of a selection is given by the text of a path. So its spelling is that of a path. -/
theorem project_of_selectionOf {reading : Reading} {options : List OptionSpec} {project : Path}
    (h : selectionOf tree reading options = .ok r) (hproject : r.project = some project) :
    ∃ value, project = .ofText value := by
  obtain ⟨_, _, h⟩ := bind_ok_iff.mp h
  obtain ⟨_, _, h⟩ := bind_ok_iff.mp h
  obtain ⟨_, _, h⟩ := bind_ok_iff.mp h
  obtain ⟨_, _, h⟩ := bind_ok_iff.mp h
  obtain rfl := pure_ok_iff.mp h
  obtain ⟨value, _, rfl⟩ := Option.map_eq_some_iff.mp hproject
  exact ⟨value, rfl⟩

end Backlog.Command
