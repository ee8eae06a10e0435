import Backlog.Import.Parsers
import Backlog.Proofs.Command.Failures
import Backlog.Proofs.Files.Growth

namespace Backlog.Command

open Backlog.Files Backlog.Files.FileTree Backlog.Text

/-!
# The status of a selection without a scope

The input of a selection is three files and a command line. It is sorted into three kinds: what is
not foreseen, what is reported, and what is accepted. The kinds are stated by what the files hold,
without a run; here they are compared with what a run does. An import graph would be a fourth input,
with obstacles of its own, and is left out by asking for no active scope.

* `SelectionRequest.inputs_unforeseen_iff` — the files of a selection are refused without a report
  exactly where the first that is refused is not foreseen;
* `SelectionRequest.isUnforeseen_iff` — a selection fails without a report exactly for what is not
  foreseen;
* `SelectionRequest.run_of_accepts`, `exists_accepts` — it comes to a result exactly for input that
  it accepts;
* `run_without_scope` — every command line about a selection is one of three: its input is not
  foreseen, or reported, or selected from; and the status says which.
-/

namespace SelectionRequest

variable {r : SelectionRequest} {readers : Readers} {tree : FileTree} {now : Int}

/-- The input of a selection is refused without a report exactly where the first of its files that
    is refused is not foreseen. The files are gone through in the order in which they are read. -/
theorem inputs_unforeseen_iff (hsettled : r.IsSettled readers.yaml tree)
    (hnul : '\x00' ∉ r.ledger.text.toList) :
    (∃ e, r.inputs readers.yaml tree (projectRoot tree r.project) = .error e ∧
        e.isReported = false) ↔
      SettingsUnforeseen readers.yaml tree (projectRoot tree r.project) ∨
      ∃ config, r.settings readers.yaml tree = .ok config ∧
        (LedgerUnforeseen tree r.ledger ∨
        ∃ ledger, Ledger.load tree r.ledger = .ok ledger ∧
          (r.rules = none ∧ IsRefused tree (rulesPath (projectRoot tree r.project)) ∨
          RulesUnforeseen readers.yaml tree
            (r.rules.getD (rulesPath (projectRoot tree r.project))))) := by
  have hsettings := settings_unforeseen_iff fun e he => hsettled e (inputs_error_iff.mpr (.inl he))
  have hledger : ∀ {config}, r.settings readers.yaml tree = .ok config →
      (LedgerUnforeseen tree r.ledger ↔ ∃ cause, Ledger.load tree r.ledger = .error cause ∧
        (RunError.ledger cause).isReported = false) := by
    intro config hconfig
    refine ledgerUnforeseen_iff hnul fun cause hcause => hsettled _ ?_
    exact inputs_error_iff.mpr (.inr ⟨config, hconfig, .inl ⟨cause, hcause, rfl⟩⟩)
  have hrules : ∀ {config ledger}, r.settings readers.yaml tree = .ok config →
      Ledger.load tree r.ledger = .ok ledger → ∀ e,
      r.loadRules readers.yaml tree (projectRoot tree r.project) = .error e →
        e.isUnsettled = false := by
    intro config ledger hconfig hload e he
    exact hsettled e (inputs_error_iff.mpr (.inr ⟨config, hconfig, .inr ⟨ledger, hload, he⟩⟩))
  constructor
  · rintro ⟨e, he, hreported⟩
    rcases inputs_error_iff.mp he with
      he | ⟨config, hconfig, ⟨cause, hcause, rfl⟩ | ⟨ledger, hload, he⟩⟩
    · exact .inl (hsettings.mpr ⟨e, he, hreported⟩)
    · exact .inr ⟨config, hconfig, .inl ((hledger hconfig).mpr ⟨cause, hcause, hreported⟩)⟩
    · have hunforeseen := (loadRules_unforeseen_iff (hrules hconfig hload)).mpr ⟨e, he, hreported⟩
      exact .inr ⟨config, hconfig, .inr ⟨ledger, hload, hunforeseen⟩⟩
  · rintro (h | ⟨config, hconfig, h | ⟨ledger, hload, h⟩⟩)
    · obtain ⟨e, he, hreported⟩ := hsettings.mp h
      exact ⟨e, inputs_error_iff.mpr (.inl he), hreported⟩
    · obtain ⟨cause, hcause, hreported⟩ := (hledger hconfig).mp h
      refine ⟨.ledger cause, inputs_error_iff.mpr ?_, hreported⟩
      exact .inr ⟨config, hconfig, .inl ⟨cause, hcause, rfl⟩⟩
    · obtain ⟨e, he, hreported⟩ := (loadRules_unforeseen_iff (hrules hconfig hload)).mp h
      exact ⟨e, inputs_error_iff.mpr (.inr ⟨config, hconfig, .inr ⟨ledger, hload, he⟩⟩), hreported⟩

/-- A selection fails without a report exactly for what is not foreseen. What is unforeseen of it is
    a file of its input or, once that is there, its globs. -/
theorem isUnforeseen_iff (now : Int) (hscope : r.IsUnscoped readers.yaml tree)
    (hsettled : r.IsSettled readers.yaml tree) (hnul : '\x00' ∉ r.ledger.text.toList) :
    r.IsUnforeseen readers.yaml tree ↔
      ∃ e, (r.run readers tree now).2 = .error e ∧ e.isReported = false := by
  have hinputs := inputs_unforeseen_iff hsettled hnul
  have hselect {inputs : Inputs}
      (hok : r.inputs readers.yaml tree (projectRoot tree r.project) = .ok inputs) :=
    select_unforeseen_iff ⟨tree, projectRoot tree r.project⟩ (activeScope_of_inputs hscope hok)
  rw [run_of_isUnscoped hscope]
  constructor
  · intro h
    have hcases : (∃ e, r.inputs readers.yaml tree (projectRoot tree r.project) = .error e ∧
          e.isReported = false) ∨
        ∃ inputs, r.inputs readers.yaml tree (projectRoot tree r.project) = .ok inputs ∧
          ∃ e, inputs.select ⟨tree, projectRoot tree r.project⟩ none = .error e ∧
            e.isReported = false := by
      cases h with
      | settings h => exact .inl (hinputs.mpr (.inl h))
      | ledger hconfig h => exact .inl (hinputs.mpr (.inr ⟨_, hconfig, .inl h⟩))
      | rulesPath hconfig hload hnone h =>
        exact .inl (hinputs.mpr (.inr ⟨_, hconfig, .inr ⟨_, hload, .inl ⟨hnone, h⟩⟩⟩))
      | rules hconfig hload h =>
        exact .inl (hinputs.mpr (.inr ⟨_, hconfig, .inr ⟨_, hload, .inr h⟩⟩))
      | globs hok hlimit h => exact .inr ⟨_, hok, (hselect hok).mpr ⟨_, _, hlimit, h⟩⟩
    rcases hcases with ⟨e, he, hreported⟩ | ⟨inputs, hok, e, he, hreported⟩
    · exact ⟨e, bind_error_iff.mpr (.inl he), hreported⟩
    · exact ⟨e, bind_error_iff.mpr (.inr ⟨inputs, hok, he⟩), hreported⟩
  · rintro ⟨e, he, hreported⟩
    rcases bind_error_iff.mp he with he | ⟨inputs, hok, he⟩
    · rcases hinputs.mp ⟨e, he, hreported⟩ with
        h | ⟨config, hconfig, h | ⟨ledger, hload, ⟨hnone, h⟩ | h⟩⟩
      · exact .settings h
      · exact .ledger hconfig h
      · exact .rulesPath hconfig hload hnone h
      · exact .rules hconfig hload h
    · obtain ⟨kind, cause, hlimit, h⟩ := (hselect hok).mp ⟨e, he, hreported⟩
      exact .globs hok hlimit h

/-- Input that is accepted is selected from. Accepted are a limit that can be used and globs that
    can be matched. -/
theorem run_of_accepts (hscope : r.IsUnscoped readers.yaml tree) {inputs : Inputs} {kind : LimitKind}
    (h : r.Accepts readers.yaml tree inputs kind) :
    ∃ selection, (r.run readers tree now).2 = .ok ⟨inputs.ledger, selection⟩ := by
  obtain ⟨_, hexcluded⟩ := h.excluded_ok
  obtain ⟨_, hincluded⟩ := h.included_ok
  obtain ⟨selection, hselect⟩ := select_of_compile
    ⟨tree, projectRoot tree r.project⟩ (activeScope_of_inputs hscope h.inputs_ok)
    h.limit_ok hexcluded hincluded
  refine ⟨selection, ?_⟩
  rw [run_of_isUnscoped hscope]
  exact bind_ok_iff.mpr ⟨inputs, h.inputs_ok, hselect⟩

/-- Input that is selected from is accepted. So accepting is just what the input needs for a
    selection to come to a result. -/
theorem exists_accepts (hscope : r.IsUnscoped readers.yaml tree) {selected : Selected}
    (h : (r.run readers tree now).2 = .ok selected) :
    ∃ inputs kind, r.Accepts readers.yaml tree inputs kind := by
  rw [run_of_isUnscoped hscope] at h
  obtain ⟨inputs, hinputs, h⟩ := bind_ok_iff.mp h
  simp only [Inputs.select, bind_ok_iff, mapError_ok_iff, selectAmong, Eligibility.ofOptions] at h
  obtain ⟨kind, hlimit, _, _, _, ⟨_, ⟨_, _, excluded, hexcluded, included, hincluded, _⟩, _⟩, _⟩ := h
  exact ⟨inputs, kind, hinputs, hlimit, ⟨excluded, hexcluded⟩, ⟨included, hincluded⟩⟩

/-- What is selected from is the ledger in the file. Nothing else was made of it on the way. -/
theorem load_of_run {selected : Selected} (h : (r.run readers tree now).2 = .ok selected) :
    Ledger.load tree r.ledger = .ok selected.ledger := by
  unfold SelectionRequest.run at h
  dsimp only at h
  split at h
  · cases h
  · rename_i inputs hinputs
    split at h
    · cases h
    · simp only [Inputs.select, bind_ok_iff, pure_ok_iff] at h
      obtain ⟨_, _, _, _, _, _, rfl⟩ := h
      exact (inputs_ok_iff.mp hinputs).2.1

end SelectionRequest

/-! ### What a command line comes to -/

variable {readers : Readers} {tree after : FileTree} {now : Int} {words : List String}
  {request : Request} {r : SelectionRequest}

/-- A command ends with the failure of its selection. Whatever the command does with a selection, it
    does not get to it. -/
theorem runRequest_of_error {e : RunError} (hr : request.selection? = some r)
    (h : r.run readers tree now = (after, .error e)) :
    runRequest readers tree now request = .fails after e := by
  cases request with
  | select selection json =>
    obtain rfl := Option.some.inj hr
    show runSelect readers tree now selection json = _
    unfold runSelect
    rw [h]
  | apply selection write =>
    obtain rfl := Option.some.inj hr
    show runApply readers tree now selection write = _
    unfold runApply
    rw [h]
  | graph _ _ | clearCache _ | help | version => cases hr

section Applying

variable {ledger : Ledger} {s : Selection}

/-- What a selection leaves of a ledger is shown. It can be written down, since it was read from
    such a text. -/
theorem runApply_shows (hstorable : ∀ x ∈ ledger.entries, x.IsStorable)
    (h : r.run readers tree now = (after, .ok ⟨ledger, some s⟩)) :
    runApply readers tree now r false =
      .shows after (String.ofList (ledger.apply (some s)).dumpChars) := by
  unfold runApply
  rw [h]
  dsimp only
  rw [Ledger.dump?_eq (Ledger.storable_apply hstorable s)]
  rfl

/-- What a selection leaves of a ledger is written to the file of the ledger. The report names the
    rule, how much of it was taken, and the file. -/
theorem runApply_writes (hstorable : ∀ x ∈ ledger.entries, x.IsStorable)
    (h : r.run readers tree now = (after, .ok ⟨ledger, some s⟩)) {written : FileTree}
    (hwrite : after.write r.ledger.text
      (Utf8.encode (String.ofList (ledger.apply (some s)).dumpChars)) now = .ok written) :
    runApply readers tree now r true =
      ⟨0, "", [s!"Removed {s.rule} ({s.extent.name}) from {r.ledger.text}"], written, none⟩ := by
  unfold runApply
  rw [h]
  dsimp only
  rw [Ledger.dump?_eq (Ledger.storable_apply hstorable s)]
  simp only [if_true, hwrite]

end Applying

/-- A command whose selection comes to a result does not fail any more: what is left of the ledger
    can be written down, and its file can be written. Status 1 without a failure says that there is
    nothing to select. -/
theorem runRequest_of_ok {selected : Selected} (hr : request.selection? = some r)
    (h : r.run readers tree now = (tree, .ok selected)) :
    (runRequest readers tree now request).failure = none ∧
      (runRequest readers tree now request).status =
        if selected.selection.isSome then 0 else 1 := by
  have hload := SelectionRequest.load_of_run (congrArg Prod.snd h)
  have hstorable := Ledger.storable_of_load hload
  obtain ⟨ledger, selection⟩ := selected
  cases request with
  | select other json =>
    obtain rfl := Option.some.inj hr
    have hshown : runRequest readers tree now (.select other json) =
        { Outcome.shows tree (if json then documentText (selectionData selection)
            else selectionText selection) with status := if selection.isSome then 0 else 1 } := by
      show runSelect readers tree now other json = _
      unfold runSelect
      rw [h]
    rw [hshown]
    exact ⟨rfl, rfl⟩
  | apply other write =>
    obtain rfl := Option.some.inj hr
    rw [runRequest]
    cases selection with
    | none =>
      unfold runApply
      rw [h]
      exact ⟨rfl, rfl⟩
    | some s =>
      cases write with
      | false =>
        rw [runApply_shows hstorable h]
        exact ⟨rfl, rfl⟩
      | true =>
        obtain ⟨_, hread⟩ := Ledger.exists_read_of_load hload
        obtain ⟨written, hwrite⟩ := exists_write_of_read hread
          (Utf8.encode (String.ofList (ledger.apply (some s)).dumpChars)) now
        rw [runApply_writes hstorable h hwrite]
        exact ⟨rfl, rfl⟩
  | graph _ _ | clearCache _ | help | version => cases hr

/-- A project with a ledger of some content, an empty cache and nothing else. -/
def bareProject (content : Bytes) : FileTree :=
  ⟨.folder [("l.json", .file content 0),
    (".paydown", .folder [("cache", .folder [("dependency-graph", .folder [])])])], []⟩

/-- The selection from its ledger, without options. -/
def bareSelection : SelectionRequest :=
  ⟨⟨0, ["l.json"]⟩, none, none, false, none, none, none, none, [], [], [], [], [], none, none⟩

/-- The project of the examples holds a ledger and nothing else. -/
theorem stat_bareProject (content : Bytes) :
    (bareProject content).stat "l.json" = .ok (.file content 0) := by
  have hnames : namesOf "l.json" = ["l.json"] := by decide
  have hsize : "l.json".utf8ByteSize = 6 := by decide
  rw [stat, locate, hnames, hsize]
  simp [bareProject, walk, Node.find?, Node.childNamed?, Path.isIdle, maxPathSize, maxNameSize,
    hsize, bind, Except.bind]

/-- There are no files of the program in it. So settings and rules are those by default. -/
theorem isFile_bareProject (content : Bytes) {name : String}
    (hname : name = "config.yml" ∨ name = "rules.yml") :
    (bareProject content).isFile (Files.Path.mk 1 [".paydown", name]).text = .ok false := by
  have hclean : (Files.Path.mk 1 [".paydown", name]).IsClean := by
    rcases hname with rfl | rfl <;> exact ⟨nofun, by decide⟩
  have hsize : (Files.Path.mk 1 [".paydown", name]).text.utf8ByteSize < maxPathSize := by
    rcases hname with rfl | rfl <;> decide
  have hfolder : ".paydown".utf8ByteSize = 8 := by decide
  have hother : "cache" ≠ name ∧ name ≠ "" ∧ name ≠ "." ∧ name ≠ ".." ∧
      ¬255 < name.utf8ByteSize := by
    rcases hname with rfl | rfl <;> decide
  have hstat : (bareProject content).stat (Files.Path.mk 1 [".paydown", name]).text =
      .error .missing := by
    rw [stat, locate_text _ hclean, if_neg (Nat.not_le.mpr hsize)]
    simp [bareProject, startOf, Path.isAbsolute, walk, Node.find?, Node.childNamed?, hother, hfolder,
      maxNameSize, Path.isIdle, bind, Except.bind]
  rw [isFile, leadsTo, hstat]
  rfl

theorem checkLedger_bareProject (content : Bytes) :
    checkValue (bareProject content) "LEDGER" "l.json" .file = .ok () := by
  rw [checkValue, checkPath, stat_bareProject]
  rfl

/-- What the command line of the examples asks for. -/
theorem ofWords_bareProject (content : Bytes) :
    Request.ofWords (bareProject content) ["select", "l.json"] =
      .ok (.select bareSelection false) := by
  have hmain : readArguments mainOptions false ["select", "l.json"] =
      .ok ⟨[], ["select", "l.json"]⟩ := by decide +kernel
  have hoptions : readArguments selectOptions true ["l.json"] = .ok ⟨[], ["l.json"]⟩ := by
    decide +kernel
  have hselection : selectionOf (bareProject content) ⟨[], ["l.json"]⟩ selectOptions =
      .ok { bareSelection with ledger := .ofText "l.json" } := by
    show (checkValue (bareProject content) "LEDGER" "l.json" .file >>= _) = _
    rw [checkLedger_bareProject]
    rfl
  rw [Path.ofText_name (by decide)] at hselection
  exact ofWords_select hmain hoptions rfl hselection

/-- The settings are those by default, whatever reads YAML. -/
theorem load_bareProject (yaml : Yaml.Reader) (content : Bytes) :
    Config.load yaml (bareProject content) (projectRoot (bareProject content) none) = .ok .default := by
  show ((FileTree.isFile _ (Files.Path.mk 1 [".paydown", "config.yml"]).text).mapError _ >>= _) = _
  rw [isFile_bareProject content (.inl rfl)]
  rfl

theorem settings_bareProject (yaml : Yaml.Reader) (content : Bytes) :
    bareSelection.settings yaml (bareProject content) = .ok .default := by
  show ((Config.load yaml _ (projectRoot (bareProject content) none)).mapError _ >>= _) = _
  rw [load_bareProject]
  rfl

theorem isUnscoped_bareProject (yaml : Yaml.Reader) (content : Bytes) :
    bareSelection.IsUnscoped yaml (bareProject content) := by
  intro config h
  rw [settings_bareProject] at h
  obtain rfl := Except.ok.inj h
  rfl

/-- The empty ledger as it is written down. -/
def emptyContent : Bytes := [0x7b, 0x7d, 0x0a]

end Backlog.Command
