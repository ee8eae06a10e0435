import Backlog.Command.Run
import Backlog.Proofs.Command.Requests
import Backlog.Proofs.Ledger.Loading
import Backlog.Proofs.Selection.Policy

namespace Backlog

open Backlog.Files Backlog.Files.FileTree Backlog.Text

/-!
# How a selection fails

Most input that cannot be used is reported: the user is told what is wrong, and the status is 2. Some
is not foreseen; then nothing is told, and the status is the one of a run that has nothing to select.
Three files are read, one after the other, and each has contents of its own that are not foreseen:
bytes that are no text, numbers with too many digits, texts that do not keep what their form promises.

* `SettingsUnforeseen`, `LedgerUnforeseen`, `RulesUnforeseen` — the contents of the three files that
  are not foreseen;
* `SelectionRequest.IsUnforeseen` — the same for the input of a command as a whole, globs included;
* `SelectionRequest.Accepts` — the input that a selection is made from.

The reader of YAML is a parameter throughout. What it refuses a text with is all that counts, and
nothing is assumed about which texts it refuses.

Two things that the program can hold have no counterpart here: a text with half of a surrogate pair,
and what a value inside itself shows when it is taken out of what it stands in.
`SelectionRequest.IsSettled` says that the input does not fail over either of them.
-/

/-! ### What is left open -/

namespace Data

mutual

/-- Whether there is a value inside itself among the parts of a value. -/
def isKnotted : Data → Bool
  | .scalar _ => false
  | .list items => itemsKnotted items
  | .tuple items => itemsKnotted items
  | .map entries => entriesKnotted entries
  | .set _ => false
  | .loopedList => true
  | .loopedMap => true

/-- Whether there is one in an item of a list. -/
def itemsKnotted : List Data → Bool
  | [] => false
  | item :: rest => item.isKnotted || itemsKnotted rest

/-- Whether there is one in an entry of a mapping. -/
def entriesKnotted : List (Scalar × Data) → Bool
  | [] => false
  | (_, v) :: rest => v.isKnotted || entriesKnotted rest

end

end Data

namespace Command

/-- Whether a failure says nothing about the program. Half of a surrogate pair is refused here, while
    the program takes it for a character; and of a value inside itself too little is known to say what
    it shows. -/
def RunError.isUnsettled : RunError → Bool
  | .config (.value cause) => cause = .halfPair
  | .config (.shape cause) => cause.given?.any Data.isKnotted
  | .ledger cause => match cause with
    | .halfPair => true
    | _ => false
  | .rules _ (.json cause) => cause = .halfPair
  | .rules _ (.yaml cause) => cause = .halfPair
  | _ => false

/-! ### Reading the files -/

section Reading

variable {yaml : Yaml.Reader} {tree : FileTree} {path root : Path}

/-- The look at a path is refused: it is too long, or it leads through a folder that may not be
    searched. -/
def IsRefused (tree : FileTree) (path : Path) : Prop :=
  ∃ fault, tree.stat path.text = .error fault ∧ meansAbsent fault = false

theorem isFile_true_iff {text : String} :
    tree.isFile text = .ok true ↔ ∃ content, tree.read text = .ok content := by
  unfold isFile leadsTo FileTree.read
  cases tree.stat text with
  | ok node => cases node <;> simp [isFileNode, bind, Except.bind]
  | error other => cases other <;> simp [meansAbsent, bind, Except.bind]

theorem isFile_of_readText {text : String} (h : tree.readText path = .ok text) :
    tree.isFile path.text = .ok true := by
  obtain ⟨content, hread, _⟩ := bind_ok_iff.mp h
  exact isFile_true_iff.mpr ⟨content, mapError_ok_iff.mp hread⟩

/-- A file is no text if it cannot be read, or if its bytes are no UTF-8. A path with a NUL and a
    folder are among what cannot be read. -/
theorem readText_error_iff {cause : ReadError} :
    tree.readText path = .error cause ↔
      (∃ fault, tree.read path.text = .error fault ∧ cause = .file fault path.text) ∨
      ∃ content e, tree.read path.text = .ok content ∧ Utf8.decode content = .error e ∧
        cause = .encoding e := by
  simp only [FileTree.readText, bind_error_iff, mapError_error_iff, mapError_ok_iff]
  constructor
  · rintro (h | ⟨content, hread, ⟨e, he, rfl⟩ | ⟨_, _, h⟩⟩)
    · exact .inl h
    · exact .inr ⟨content, e, hread, he, rfl⟩
    · cases h
  · rintro (h | ⟨content, e, hread, he, rfl⟩)
    · exact .inl h
    · exact .inr ⟨content, hread, .inl ⟨e, he, rfl⟩⟩

/-! ### Settings -/

/-- What can be wrong with the file of the settings and is not foreseen. -/
inductive SettingsUnforeseen (yaml : Yaml.Reader) (tree : FileTree) (root : Path) : Prop
  /-- The look at its path is refused. -/
  | path (h : IsRefused tree (configPath root))
  /-- Its bytes are no UTF-8. -/
  | bytes {content : Bytes} {cause : Utf8.Error}
      (hread : tree.read (configPath root).text = .ok content)
      (h : Utf8.decode content = .error cause)
  /-- It is a YAML document, with a value that is not of the form that its tag promises. -/
  | value {text : String} {cause : Yaml.Error}
      (hread : tree.readText (configPath root) = .ok text) (h : yaml text = .error cause)
      (hvalue : cause ≠ .malformed) (hpair : cause ≠ .halfPair)
  /-- It is refused over a value with a number that is too long to be written. -/
  | number {text : String} {data given : Data} {cause : ConfigError}
      (hread : tree.readText (configPath root) = .ok text) (h : yaml text = .ok data)
      (hrefused : Config.ofData data = .error cause) (hgiven : cause.given? = some given)
      (hlong : given.isTooLong = true)

/-- A report that would have to show a number with too many digits cannot be written. -/
theorem ofShape_of_isTooLong {cause : ConfigError} {given : Data} (hgiven : cause.given? = some given)
    (hlong : given.isTooLong = true) : ConfigLoadError.ofShape cause = .unwritable := by
  simp [ConfigLoadError.ofShape, hgiven, hlong]

/-- Settings of the wrong shape are refused with a report, unless that would have to show such a
    number. -/
theorem ofShape_cases (cause : ConfigError) :
    (∃ given, cause.given? = some given ∧ given.isTooLong = true) ∨
      ConfigLoadError.ofShape cause = .shape cause := by
  unfold ConfigLoadError.ofShape
  cases hgiven : cause.given? with
  | none => exact .inr rfl
  | some given =>
    cases hlong : given.isTooLong with
    | true => exact .inl ⟨given, rfl, hlong⟩
    | false => exact .inr (by simp [hlong])

/-- A text is no settings if it is no YAML, if it holds a value that cannot be made, or if its
    document is of the wrong shape. -/
theorem configOfText_error_iff {text : String} {cause : ConfigLoadError} :
    Config.ofText yaml text = .error cause ↔
      (yaml text = .error .malformed ∧ cause = .malformed) ∨
      (∃ e, yaml text = .error e ∧ e ≠ .malformed ∧ cause = .value e) ∨
      ∃ data e, yaml text = .ok data ∧ Config.ofData data = .error e ∧ cause = .ofShape e := by
  unfold Config.ofText
  cases yaml text with
  | ok data => simp [mapError_error_iff]
  | error e => cases e <;> simp [eq_comm]

/-- Settings cannot be loaded if the look at their path is refused, if there is a file and its bytes
    are no UTF-8, or if its text holds no settings. That there is no file is no failure. -/
theorem configLoad_error_iff {cause : ConfigLoadError} :
    Config.load yaml tree root = .error cause ↔
      (∃ fault, tree.isFile (configPath root).text = .error fault ∧
        cause = .file fault (configPath root).text) ∨
      (∃ content e, tree.read (configPath root).text = .ok content ∧
        Utf8.decode content = .error e ∧ cause = .read (.encoding e)) ∨
      ∃ text, tree.readText (configPath root) = .ok text ∧ Config.ofText yaml text = .error cause := by
  simp only [Config.load, bind_error_iff, mapError_error_iff, mapError_ok_iff]
  constructor
  · rintro (h | ⟨isThere, hthere, h⟩)
    · exact .inl h
    · cases isThere with
      | false => cases h
      | true =>
        rw [if_pos rfl, bind_error_iff] at h
        rcases h with h | ⟨text, htext, h⟩
        -- There is a file, so that reading it can fail in decoding only.
        · obtain ⟨content, hread⟩ := isFile_true_iff.mp hthere
          obtain ⟨e, he, rfl⟩ := mapError_error_iff.mp h
          rcases readText_error_iff.mp he with ⟨fault, hfault, _⟩ | ⟨_, e, hread, hdecode, rfl⟩
          · rw [hread] at hfault
            cases hfault
          · exact .inr (.inl ⟨_, e, hread, hdecode, rfl⟩)
        · exact .inr (.inr ⟨text, mapError_ok_iff.mp htext, h⟩)
  · rintro (h | ⟨content, e, hread, hdecode, rfl⟩ | ⟨text, htext, h⟩)
    · exact .inl h
    · refine .inr ⟨true, isFile_true_iff.mpr ⟨content, hread⟩, ?_⟩
      rw [if_pos rfl, bind_error_iff, mapError_error_iff]
      exact .inl ⟨_, readText_error_iff.mpr (.inr ⟨content, e, hread, hdecode, rfl⟩), rfl⟩
    · refine .inr ⟨true, isFile_of_readText htext, ?_⟩
      rw [if_pos rfl, bind_error_iff, mapError_ok_iff.mpr htext]
      exact .inr ⟨text, rfl, h⟩

/-- Settings are refused without a report exactly for what is not foreseen. Failures that say
    nothing about the program are excluded by `hsettled`. -/
theorem settingsUnforeseen_iff (hsettled : ∀ cause, Config.load yaml tree root = .error cause →
      (RunError.config cause).isUnsettled = false) :
    SettingsUnforeseen yaml tree root ↔
      ∃ cause, Config.load yaml tree root = .error cause ∧
        (RunError.config cause).isReported = false := by
  constructor
  · intro h
    cases h with
    | path h =>
      obtain ⟨fault, hstat, hfault⟩ := h
      exact ⟨_, configLoad_error_iff.mpr
        (.inl ⟨fault, leadsTo_error_iff.mpr ⟨hstat, hfault⟩, rfl⟩), rfl⟩
    | bytes hread h => exact ⟨_, configLoad_error_iff.mpr (.inr (.inl ⟨_, _, hread, h, rfl⟩)), rfl⟩
    | value hread h hvalue =>
      have hrefused := configOfText_error_iff.mpr (.inr (.inl ⟨_, h, hvalue, rfl⟩))
      exact ⟨_, configLoad_error_iff.mpr (.inr (.inr ⟨_, hread, hrefused⟩)), rfl⟩
    | number hread h hrefused hgiven hlong =>
      have hrefused := configOfText_error_iff.mpr
        (.inr (.inr ⟨_, _, h, hrefused, (ofShape_of_isTooLong hgiven hlong).symm⟩))
      exact ⟨_, configLoad_error_iff.mpr (.inr (.inr ⟨_, hread, hrefused⟩)), rfl⟩
  · rintro ⟨cause, h, hreported⟩
    have hknown := hsettled cause h
    obtain ⟨fault, hfault, rfl⟩ | ⟨_, _, hread, hdecode, rfl⟩ | ⟨text, htext, h⟩ :=
      configLoad_error_iff.mp h
    · exact .path ⟨fault, leadsTo_error_iff.mp hfault⟩
    · exact .bytes hread hdecode
    · rcases configOfText_error_iff.mp h with
        ⟨_, rfl⟩ | ⟨e, he, hvalue, rfl⟩ | ⟨data, e, hdata, he, rfl⟩
      · cases hreported
      · exact .value htext he hvalue (by simpa [RunError.isUnsettled] using hknown)
      · rcases ofShape_cases e with ⟨_, hgiven, hlong⟩ | heq
        · exact .number htext hdata he hgiven hlong
        · rw [heq] at hreported
          cases hreported

/-! ### Ledgers -/

/-- What can be wrong with the file of a ledger and is not foreseen. -/
inductive LedgerUnforeseen (tree : FileTree) (path : Path) : Prop
  /-- Its bytes are no UTF-8. -/
  | bytes {content : Bytes} {cause : Utf8.Error} (hread : tree.read path.text = .ok content)
      (h : Utf8.decode content = .error cause)
  /-- A number in it has too many digits. -/
  | number {text : String} {digits : Nat} (hread : tree.readText path = .ok text)
      (h : Json.parse text = .error (.tooLong digits))

/-- A ledger is refused without a report exactly for what is not foreseen. A path with a NUL is
    excluded, for the command line refuses it before. -/
theorem ledgerUnforeseen_iff (hnul : '\x00' ∉ path.text.toList)
    (hsettled : ∀ cause, Ledger.load tree path = .error cause →
      (RunError.ledger cause).isUnsettled = false) :
    LedgerUnforeseen tree path ↔
      ∃ cause, Ledger.load tree path = .error cause ∧
        (RunError.ledger cause).isReported = false := by
  simp only [Ledger.load, Ledger.ofText, bind_error_iff, mapError_error_iff, mapError_ok_iff]
    at hsettled ⊢
  constructor
  · rintro (⟨hread, h⟩ | ⟨hread, h⟩)
    · exact ⟨_, .inl ⟨_, readText_error_iff.mpr (.inr ⟨_, _, hread, h, rfl⟩), rfl⟩, rfl⟩
    · exact ⟨_, .inr ⟨_, hread, .inl ⟨_, h, rfl⟩⟩, rfl⟩
  · rintro ⟨cause, h, hreported⟩
    have hknown := hsettled cause h
    obtain ⟨e, he, rfl⟩ | ⟨text, hread, ⟨e, he, rfl⟩ | ⟨_, _, _, _, rfl⟩⟩ := h
    · rcases readText_error_iff.mp he with ⟨fault, hfault, rfl⟩ | ⟨_, _, hread, hdecode, _⟩
      -- All faults of the file system are reported but one, a NUL in the path.
      · have hne : fault ≠ .nul := fun heq => hnul (read_eq_nul_iff.mp (heq ▸ hfault))
        cases fault <;> first | exact absurd rfl hne | cases hreported
      · exact .bytes hread hdecode
    · cases e with
      | malformed => cases hreported
      | tooLong digits => exact .number hread he
      | halfPair => cases hknown
    · cases hreported

/-! ### Rule metadata -/

/-- What can be wrong with a file of rule metadata and is not foreseen: it is read as YAML, and
    either is none or has a value that is not of the form that its tag promises. -/
def RulesUnforeseen (yaml : Yaml.Reader) (tree : FileTree) (path : Path) : Prop :=
  ∃ text cause, tree.readText path = .ok text ∧ path.suffix ≠ ".json" ∧
    yaml text = .error cause ∧ isExpected (.yaml cause) = false ∧ cause ≠ .halfPair

/-- Rule metadata is refused without a report exactly for what is not foreseen. As for settings,
    failures that say nothing about the program are excluded. -/
theorem rulesUnforeseen_iff (hsettled : ∀ e, Command.loadRules yaml tree path = .error e →
      e.isUnsettled = false) :
    RulesUnforeseen yaml tree path ↔
      ∃ e, Command.loadRules yaml tree path = .error e ∧ e.isReported = false := by
  simp only [Command.loadRules, Rules.load, mapError_error_iff, bind_error_iff, mapError_ok_iff]
    at hsettled ⊢
  constructor
  · rintro ⟨text, cause, hread, hsuffix, h, hexpected, _⟩
    refine ⟨.rules path (.yaml cause), ⟨_, .inr ⟨text, hread, ?_⟩, rfl⟩, hexpected⟩
    rw [if_neg hsuffix, bind_error_iff]
    exact .inl (mapError_error_iff.mpr ⟨cause, h, rfl⟩)
  · rintro ⟨e, h, hreported⟩
    have hknown := hsettled e h
    obtain ⟨cause, ⟨e, _, rfl⟩ | ⟨text, hread, h⟩, rfl⟩ := h
    · cases hreported
    · by_cases hsuffix : path.suffix = ".json"
      -- Whatever is wrong with JSON is reported.
      · rw [if_pos hsuffix, bind_error_iff] at h
        rcases h with h | ⟨_, _, h⟩
        all_goals obtain ⟨e, _, rfl⟩ := mapError_error_iff.mp h
        · cases e with
          | malformed | tooLong => cases hreported
          | halfPair => cases hknown
        · cases hreported
      · rw [if_neg hsuffix, bind_error_iff] at h
        rcases h with h | ⟨_, _, h⟩
        all_goals obtain ⟨e, he, rfl⟩ := mapError_error_iff.mp h
        -- Of YAML, what cannot be parsed may be unforeseen; what has the wrong shape is reported.
        · exact ⟨text, e, hread, hsuffix, he, hreported,
            by simpa [RunError.isUnsettled] using hknown⟩
        · cases hreported

end Reading

/-! ### The input of a selection -/

namespace SelectionRequest

variable {r : SelectionRequest} {yaml : Yaml.Reader} {tree : FileTree} {e : RunError}
  {kind : LimitKind}

/-- The settings of the project, replaced by those of the command line. -/
def settings (r : SelectionRequest) (yaml : Yaml.Reader) (tree : FileTree) :
    Except RunError Config := do
  let loaded ← (Config.load yaml tree (projectRoot tree r.project)).mapError .config
  (r.config loaded).mapError .override

/-- No scope is active, whatever the settings are. -/
def IsUnscoped (r : SelectionRequest) (yaml : Yaml.Reader) (tree : FileTree) : Prop :=
  ∀ config, r.settings yaml tree = .ok config → Eligibility.activeScope config.options = none

/-- No file that is come to holds half of a surrogate pair, and no value that is refused stands inside
    itself. -/
def IsSettled (r : SelectionRequest) (yaml : Yaml.Reader) (tree : FileTree) : Prop :=
  ∀ e, r.inputs yaml tree (projectRoot tree r.project) = .error e → e.isUnsettled = false

/-- What can be wrong with the input of a selection and is not foreseen. Each part of the input is
    looked at only if the parts before it are fine. -/
inductive IsUnforeseen (r : SelectionRequest) (yaml : Yaml.Reader) (tree : FileTree) : Prop
  | settings (h : SettingsUnforeseen yaml tree (projectRoot tree r.project))
  | ledger {config : Config} (hconfig : r.settings yaml tree = .ok config)
      (h : LedgerUnforeseen tree r.ledger)
  /-- The look at the path of the rule metadata of the project is refused. -/
  | rulesPath {config : Config} {ledger : Ledger} (hconfig : r.settings yaml tree = .ok config)
      (hledger : Ledger.load tree r.ledger = .ok ledger) (hnone : r.rules = none)
      (h : IsRefused tree (rulesPath (projectRoot tree r.project)))
  | rules {config : Config} {ledger : Ledger} (hconfig : r.settings yaml tree = .ok config)
      (hledger : Ledger.load tree r.ledger = .ok ledger)
      (h : RulesUnforeseen yaml tree (r.rules.getD (Command.rulesPath (projectRoot tree r.project))))
  /-- A list of globs stands for too many patterns. -/
  | globs {inputs : Inputs} {kind : LimitKind} {cause : PatternLimit}
      (hinputs : r.inputs yaml tree (projectRoot tree r.project) = .ok inputs)
      (hlimit : inputs.config.limit.validate = .ok kind)
      (h : GlobSet.compile inputs.config.options.excludeGlobs = .error cause ∨
        GlobSet.compile inputs.config.options.includeGlobs = .error cause)

/-- What a selection is made from: files that could be loaded, a limit that can be used, and globs
    that can be matched. -/
structure Accepts (r : SelectionRequest) (yaml : Yaml.Reader) (tree : FileTree) (inputs : Inputs)
    (kind : LimitKind) : Prop where
  inputs_ok : r.inputs yaml tree (projectRoot tree r.project) = .ok inputs
  limit_ok : inputs.config.limit.validate = .ok kind
  excluded_ok : ∃ globs, GlobSet.compile inputs.config.options.excludeGlobs = .ok globs
  included_ok : ∃ globs, GlobSet.compile inputs.config.options.includeGlobs = .ok globs

theorem inputs_eq (r : SelectionRequest) (yaml : Yaml.Reader) (tree : FileTree) :
    r.inputs yaml tree (projectRoot tree r.project) = do
      let config ← r.settings yaml tree
      let ledger ← (Ledger.load tree r.ledger).mapError .ledger
      let rules ← r.loadRules yaml tree (projectRoot tree r.project)
      return ⟨config, ledger, rules⟩ := by
  rw [inputs, settings, bind_assoc]

/-- The input of a selection is the settings, the ledger and the rules. -/
theorem inputs_ok_iff {inputs : Inputs} :
    r.inputs yaml tree (projectRoot tree r.project) = .ok inputs ↔
      r.settings yaml tree = .ok inputs.config ∧ Ledger.load tree r.ledger = .ok inputs.ledger ∧
        r.loadRules yaml tree (projectRoot tree r.project) = .ok inputs.rules := by
  simp only [inputs_eq, bind_ok_iff, mapError_ok_iff, pure_ok_iff]
  constructor
  · rintro ⟨config, hconfig, ledger, hledger, rules, hrules, rfl⟩
    exact ⟨hconfig, hledger, hrules⟩
  · rintro ⟨hconfig, hledger, hrules⟩
    exact ⟨_, hconfig, _, hledger, _, hrules, rfl⟩

theorem activeScope_of_inputs (hscope : r.IsUnscoped yaml tree) {inputs : Inputs}
    (h : r.inputs yaml tree (projectRoot tree r.project) = .ok inputs) :
    Eligibility.activeScope inputs.config.options = none :=
  hscope _ (inputs_ok_iff.mp h).1

/-- Settings of the command line are of the right form: they were checked when it was read. So
    replacing settings cannot fail. -/
theorem exists_config (r : SelectionRequest) (config : Config) :
    ∃ replaced, r.config config = .ok replaced := by
  unfold SelectionRequest.config Config.override overrides
  rcases r.limitKind with _ | kind
  · cases r.limitCount <;> exact ⟨_, rfl⟩
  · cases kind <;> cases r.limitCount <;> exact ⟨_, rfl⟩

/-- The settings of a selection are refused just if those of the project are. -/
theorem settings_error_iff :
    r.settings yaml tree = .error e ↔
      ∃ cause, Config.load yaml tree (projectRoot tree r.project) = .error cause ∧
        e = .config cause := by
  simp only [settings, bind_error_iff, mapError_error_iff]
  constructor
  · rintro (h | ⟨config, _, cause, h, _⟩)
    · exact h
    · obtain ⟨_, hok⟩ := r.exists_config config
      rw [hok] at h
      cases h
  · exact .inl

/-- The input of a selection fails in one of its three parts, the parts before being fine. The order
    is that in which they are read. -/
theorem inputs_error_iff :
    r.inputs yaml tree (projectRoot tree r.project) = .error e ↔
      r.settings yaml tree = .error e ∨
      ∃ config, r.settings yaml tree = .ok config ∧
        ((∃ cause, Ledger.load tree r.ledger = .error cause ∧ e = .ledger cause) ∨
        ∃ ledger, Ledger.load tree r.ledger = .ok ledger ∧
          r.loadRules yaml tree (projectRoot tree r.project) = .error e) := by
  simp only [inputs_eq, bind_error_iff, mapError_error_iff, mapError_ok_iff]
  constructor
  · rintro (h | ⟨config, hconfig, h | ⟨ledger, hledger, h | ⟨_, _, h⟩⟩⟩)
    · exact .inl h
    · exact .inr ⟨config, hconfig, .inl h⟩
    · exact .inr ⟨config, hconfig, .inr ⟨ledger, hledger, h⟩⟩
    · cases h
  · rintro (h | ⟨config, hconfig, h | ⟨ledger, hledger, h⟩⟩)
    · exact .inl h
    · exact .inr ⟨config, hconfig, .inl h⟩
    · exact .inr ⟨config, hconfig, .inr ⟨ledger, hledger, .inl h⟩⟩

/-- The settings of a selection are refused without a report exactly for what is not foreseen. -/
theorem settings_unforeseen_iff
    (hsettled : ∀ e, r.settings yaml tree = .error e → e.isUnsettled = false) :
    SettingsUnforeseen yaml tree (projectRoot tree r.project) ↔
      ∃ e, r.settings yaml tree = .error e ∧ e.isReported = false := by
  rw [settingsUnforeseen_iff fun cause h => hsettled _ (settings_error_iff.mpr ⟨cause, h, rfl⟩)]
  constructor
  · rintro ⟨cause, h, hreported⟩
    exact ⟨_, settings_error_iff.mpr ⟨cause, h, rfl⟩, hreported⟩
  · rintro ⟨e, h, hreported⟩
    obtain ⟨cause, hcause, rfl⟩ := settings_error_iff.mp h
    exact ⟨cause, hcause, hreported⟩

/-- Rule metadata cannot be loaded if the look at its usual path is refused, or if there is a file
    that cannot be loaded. A path that was given has to lead to a file; the usual one need not be
    there. -/
theorem loadRules_error_iff {root : Path} :
    r.loadRules yaml tree root = .error e ↔
      (r.rules = none ∧ ∃ fault, tree.isFile (rulesPath root).text = .error fault ∧
        e = .file fault (rulesPath root).text) ∨
      (r.rules = none → tree.isFile (rulesPath root).text = .ok true) ∧
        Command.loadRules yaml tree (r.rules.getD (rulesPath root)) = .error e := by
  unfold SelectionRequest.loadRules
  cases r.rules with
  | some given => simp
  | none =>
    simp only [Option.getD_none, true_and, forall_const, bind_error_iff, mapError_error_iff,
      mapError_ok_iff]
    constructor
    · rintro (h | ⟨isThere, hthere, h⟩)
      · exact .inl h
      · cases isThere with
        | false => cases h
        | true => exact .inr ⟨hthere, h⟩
    · rintro (h | ⟨hthere, h⟩)
      · exact .inl h
      · exact .inr ⟨true, hthere, h⟩

/-- The rules of a selection are refused without a report exactly for what is not foreseen, be it of
    the look at their usual path. -/
theorem loadRules_unforeseen_iff {root : Path}
    (hsettled : ∀ e, r.loadRules yaml tree root = .error e → e.isUnsettled = false) :
    (r.rules = none ∧ IsRefused tree (rulesPath root) ∨
      RulesUnforeseen yaml tree (r.rules.getD (rulesPath root))) ↔
      ∃ e, r.loadRules yaml tree root = .error e ∧ e.isReported = false := by
  constructor
  · rintro (⟨hnone, fault, hstat, hfault⟩ | h)
    · exact ⟨_, loadRules_error_iff.mpr
        (.inl ⟨hnone, fault, leadsTo_error_iff.mpr ⟨hstat, hfault⟩, rfl⟩), rfl⟩
    · have hthere : r.rules = none → tree.isFile (rulesPath root).text = .ok true := by
        intro hnone
        obtain ⟨text, _, hread, _⟩ := h
        rw [hnone, Option.getD_none] at hread
        exact isFile_of_readText hread
      have hfails : ∀ e, Command.loadRules yaml tree (r.rules.getD (rulesPath root)) = .error e →
          r.loadRules yaml tree root = .error e :=
        fun e he => loadRules_error_iff.mpr (.inr ⟨hthere, he⟩)
      obtain ⟨e, he, hreported⟩ := (rulesUnforeseen_iff fun e he => hsettled e (hfails e he)).mp h
      exact ⟨e, hfails e he, hreported⟩
  · rintro ⟨e, h, hreported⟩
    rcases loadRules_error_iff.mp h with ⟨hnone, fault, hfault, _⟩ | ⟨hthere, he⟩
    · exact .inl ⟨hnone, fault, leadsTo_error_iff.mp hfault⟩
    · refine .inr ((rulesUnforeseen_iff fun e he => hsettled e ?_).mpr ⟨e, he, hreported⟩)
      exact loadRules_error_iff.mpr (.inr ⟨hthere, he⟩)

/-! ### Selecting without a scope -/

variable {inputs : Inputs}

/-- Where globs can be matched and no scope asks for paths, a selection comes to a result. For
    candidates are then made of any ledger. -/
theorem select_of_compile (project : Project)
    (hscope : Eligibility.activeScope inputs.config.options = none)
    (hlimit : inputs.config.limit.validate = .ok kind) {excluded included : GlobSet}
    (hexcluded : GlobSet.compile inputs.config.options.excludeGlobs = .ok excluded)
    (hincluded : GlobSet.compile inputs.config.options.includeGlobs = .ok included) :
    ∃ selection, inputs.select project none = .ok ⟨inputs.ledger, selection⟩ := by
  have hfilters : Eligibility.ofOptions inputs.rules inputs.config.options none (some project) =
      .ok ⟨inputs.rules, inputs.config.options, none, excluded, included⟩ := by
    simp only [Eligibility.ofOptions, Eligibility.reachOf, hscope, hexcluded, hincluded,
      mapError_ok, bind, Except.bind, pure, Except.pure]
  have hcandidates : Candidate.ofLedger
      ⟨inputs.rules, inputs.config.options, none, excluded, included⟩ (.known kind) inputs.ledger =
        .ok (Eligibility.candidates _ kind inputs.ledger) :=
    Eligibility.ofLedger_ok_iff.mpr ⟨fun _ _ _ => ⟨true, rfl⟩, rfl⟩
  simp only [Inputs.select, allowedPaths, selectAmong, hlimit, hfilters, hcandidates,
    mapError_ok, bind, Except.bind, pure, Except.pure]
  exact ⟨_, rfl⟩

/-- Where they cannot be matched, this is not foreseen. The limit on patterns is not one that the
    commands expect to meet. -/
theorem select_of_compile_error (project : Project)
    (hscope : Eligibility.activeScope inputs.config.options = none)
    (hlimit : inputs.config.limit.validate = .ok kind) {cause : PatternLimit}
    (h : GlobSet.compile inputs.config.options.excludeGlobs = .error cause ∨
      GlobSet.compile inputs.config.options.includeGlobs = .error cause) :
    ∃ e, inputs.select project none = .error e ∧ e.isReported = false := by
  have hfilters : ∃ c, Eligibility.ofOptions inputs.rules inputs.config.options none
      (some project) = .error c := by
    cases hexcluded : GlobSet.compile inputs.config.options.excludeGlobs with
    | error _ =>
      simp only [Eligibility.ofOptions, Eligibility.reachOf, hscope, hexcluded, mapError_error,
        bind, Except.bind]
      exact ⟨_, rfl⟩
    | ok excluded =>
      have hincluded : GlobSet.compile inputs.config.options.includeGlobs = .error cause := by
        rcases h with h | h
        · rw [hexcluded] at h
          cases h
        · exact h
      simp only [Eligibility.ofOptions, Eligibility.reachOf, hscope, hexcluded, hincluded,
        mapError_error, bind, Except.bind]
      exact ⟨_, rfl⟩
  obtain ⟨c, hfilters⟩ := hfilters
  refine ⟨.select (.candidates (.filter c)), ?_, rfl⟩
  simp only [Inputs.select, allowedPaths, selectAmong, hlimit, hfilters, mapError_ok,
    mapError_error, bind, Except.bind]

/-- A limit that cannot be used is refused before anything else is done. -/
theorem select_of_limit_error (project : Project) {cause : ConfigError}
    (hlimit : inputs.config.limit.validate = .error cause) :
    inputs.select project none = .error (.select (.config cause)) := by
  simp only [Inputs.select, hlimit, mapError_error, bind, Except.bind]

/-- A selection without a scope fails without a report exactly where its limit can be used and its
    globs cannot be matched. -/
theorem select_unforeseen_iff (project : Project)
    (hscope : Eligibility.activeScope inputs.config.options = none) :
    (∃ e, inputs.select project none = .error e ∧ e.isReported = false) ↔
      ∃ kind cause, inputs.config.limit.validate = .ok kind ∧
        (GlobSet.compile inputs.config.options.excludeGlobs = .error cause ∨
          GlobSet.compile inputs.config.options.includeGlobs = .error cause) := by
  constructor
  · rintro ⟨e, he, hreported⟩
    cases hlimit : inputs.config.limit.validate with
    | error cause =>
      rw [select_of_limit_error _ hlimit] at he
      cases he
      cases hreported
    | ok kind =>
      cases hexcluded : GlobSet.compile inputs.config.options.excludeGlobs with
      | error cause => exact ⟨kind, cause, rfl, .inl rfl⟩
      | ok excluded =>
        cases hincluded : GlobSet.compile inputs.config.options.includeGlobs with
        | error cause => exact ⟨kind, cause, rfl, .inr rfl⟩
        | ok included =>
          obtain ⟨selection, hselect⟩ :=
            select_of_compile project hscope hlimit hexcluded hincluded
          rw [hselect] at he
          cases he
  · rintro ⟨kind, cause, hlimit, h⟩
    exact select_of_compile_error project hscope hlimit h

/-- Without a scope the file system stays as it is, and no graph is made. So what it does is a
    matter of its input alone. -/
theorem run_of_isUnscoped {readers : Readers} (h : r.IsUnscoped readers.yaml tree) (now : Int) :
    r.run readers tree now = (tree, do
      let inputs ← r.inputs readers.yaml tree (projectRoot tree r.project)
      inputs.select ⟨tree, projectRoot tree r.project⟩ none) := by
  unfold SelectionRequest.run
  dsimp only
  cases hinputs : r.inputs readers.yaml tree (projectRoot tree r.project) with
  | error e => rfl
  | ok inputs =>
    have hscope := activeScope_of_inputs h hinputs
    cases hlimit : inputs.config.limit.validate with
    | error cause =>
      have hselect := select_of_limit_error ⟨tree, projectRoot tree r.project⟩ hlimit
      simp only [neededGraph, hlimit, mapError_error, bind, Except.bind, hselect]
    | ok kind =>
      simp only [neededGraph, hlimit, hscope, mapError_ok, bind, Except.bind, pure,
        Except.pure, Option.map_none, Option.getD_none]

end SelectionRequest

end Command

end Backlog
