import Backlog.Proofs.Command.Status
import Backlog.Proofs.Config.Documents
import Backlog.Proofs.Config.Overriding

namespace Backlog.Command

open Backlog.Files Backlog.Number Backlog.Text

/-!
# Where the settings of a selection come from

Options are words, and are read as numbers and kinds only when a selection is made of them. By then
they have been checked, so that reading them does not fail. Where they are not given, the settings
of the project stay. Each setting is gone through for this on its own, and the scope, which has
settings of its own and may be missing, as one of them.

* `Reading.checkValue_of_checkOptions` — the values of all options have been checked, so that none is
  lost when it is read;
* `Reading.Settles` — every setting comes from the option for it; if that is not given, it is as the
  project has it;
* `SelectionRequest.settles_iff` — this is what the settings of a selection are, and it leaves nothing
  about them open;
* `SelectionRequest.settings_settled` — so it is for every command line and every document.
-/

/-! ### Options that are given -/

namespace Reading

variable {reading : Reading} {key : Key} {value : String} {tree : FileTree}

theorem exists_given_of_text? (h : reading.text? key = some value) :
    (key, Given.text value) ∈ reading.given := by
  unfold text? at h
  split at h
  · rename_i found hlast
    obtain rfl := Option.some.inj h
    obtain ⟨⟨other, given⟩, hgiven, rfl⟩ := Option.map_eq_some_iff.mp hlast
    have hmem := List.mem_of_getLast? hgiven
    rw [List.mem_filter, decide_eq_true_eq] at hmem
    obtain ⟨hmem, rfl⟩ := hmem
    exact hmem
  · cases h

/-- Collecting distinct keys loses none. So every option that was given is checked once. -/
theorem mem_foldl_keys (given keys : List Key) :
    key ∈ given.foldl (fun keys key => if keys.contains key then keys else keys ++ [key]) keys ↔
      key ∈ keys ∨ key ∈ given := by
  induction given generalizing keys with
  | nil => simp
  | cons first given ih =>
    rw [List.foldl_cons, ih, List.mem_cons]
    by_cases hfirst : keys.contains first
    · rw [if_pos hfirst]
      rw [List.contains_iff_mem] at hfirst
      by_cases heq : key = first
      · simp [heq, hfirst]
      · simp [heq]
    · rw [if_neg hfirst, List.mem_append, List.mem_singleton, or_assoc]

/-- An option with a value is among those that are checked. -/
theorem mem_keys_of_text? (h : reading.text? key = some value) : key ∈ reading.keys := by
  have hgiven := exists_given_of_text? h
  exact (mem_foldl_keys _ _).mpr (.inr (List.mem_map.mpr ⟨_, hgiven, rfl⟩))

theorem ok_of_forM {check : Key → Except ArgumentError Unit} {keys : List Key}
    (h : keys.forM check = .ok ()) (hkey : key ∈ keys) : check key = .ok () := by
  induction keys with
  | nil => cases hkey
  | cons first keys ih =>
    obtain ⟨_, hfirst, h⟩ := bind_ok_iff.mp h
    rcases List.mem_cons.mp hkey with rfl | hkey
    · exact hfirst
    · exact ih h hkey

/-- The value that counts for an option of a command has been checked. It is the last one that was
    given, and the others have been checked as well. -/
theorem checkValue_of_checkOptions {options : List OptionSpec}
    (h : reading.checkOptions tree options = .ok ()) (hvalue : reading.text? key = some value)
    (hoption : ∃ option ∈ options, option.key = key) :
    ∃ place, checkValue tree place value key.form = .ok () := by
  have hcheck := ok_of_forM h (mem_keys_of_text? hvalue)
  have hfind : (options.find? fun option => option.key = key).isSome := by
    simpa using hoption
  obtain ⟨option, hfind⟩ := Option.isSome_iff_exists.mp hfind
  rw [hvalue, hfind] at hcheck
  exact ⟨_, hcheck⟩

end Reading

theorem exists_readInt_of_check {tree : FileTree} {place value : String}
    (h : checkValue tree place value .integer = .ok ()) : ∃ n, readInt value = .ok n := by
  unfold checkValue at h
  cases hread : readInt value with
  | ok n => exact ⟨n, rfl⟩
  | error cause =>
    rw [hread] at h
    cases h

/-- A value that passes as one of some words is one of them. -/
theorem mem_of_check {tree : FileTree} {place value : String} {words : List String}
    (h : checkValue tree place value (.choice words) = .ok ()) : value ∈ words := by
  by_cases hvalue : words.contains value
  · simpa using hvalue
  · rw [checkValue, if_neg hvalue] at h
    cases h

/-! ### Settings from options -/

/-- The scope of a project, where each setting is taken from the option for it. -/
structure Reading.SettlesScope (reading : Reading) (project scope : DependencyScope) : Prop where
  entryPoints : IsTaken (unlessEmpty (reading.texts .entryPoint)) (fun given texts => texts = given)
    project.entryPoints scope.entryPoints
  mode : IsTaken (reading.text? .graphMode) (fun word mode => word = mode.name)
    project.mode scope.mode
  maxDepth : IsTaken (reading.text? .graphDepth)
    (fun word depth => ∃ n, readInt word = .ok n ∧ depth = some n) project.maxDepth scope.maxDepth
  /-- There is no option for it. -/
  exclude : scope.exclude = project.exclude

/-- No option about the scope is given. -/
def Reading.IsScopeless (reading : Reading) : Prop :=
  reading.texts .entryPoint = [] ∧ reading.text? .graphMode = none ∧
    reading.text? .graphDepth = none

/-- The settings of a project, where each setting is taken from the option for it. -/
structure Reading.Settles (reading : Reading) (project config : Config) : Prop where
  unit : IsTaken (reading.text? .limitType)
    (fun word unit => ∃ kind : LimitKind, word = kind.name ∧ unit = .known kind)
    project.limit.unit config.limit.unit
  count : IsTaken (reading.text? .limit) (fun word n => readInt word = .ok n)
    project.limit.count config.limit.count
  onlyAutoFixable : IsTaken (reading.switch? .fixableOnly) (fun on is => is = on)
    project.options.onlyAutoFixable config.options.onlyAutoFixable
  allowPartial : IsTaken (reading.switch? .slices) (fun on is => is = on)
    project.options.allowPartial config.options.allowPartial
  excludeRules : IsTaken (unlessEmpty (reading.texts .excludeRule)) (fun given texts => texts = given)
    project.options.excludeRules config.options.excludeRules
  includeRules : IsTaken (unlessEmpty (reading.texts .includeRule)) (fun given texts => texts = given)
    project.options.includeRules config.options.includeRules
  excludeGlobs : IsTaken (unlessEmpty (reading.texts .excludeFile)) (fun given texts => texts = given)
    project.options.excludeGlobs config.options.excludeGlobs
  includeGlobs : IsTaken (unlessEmpty (reading.texts .includeFile)) (fun given texts => texts = given)
    project.options.includeGlobs config.options.includeGlobs
  scope : reading.SettlesScope (project.options.scope.getD .default)
    (config.options.scope.getD .default)
  /-- A scope comes from the project or from an option. -/
  scope_eq_none : config.options.scope = none ↔ project.options.scope = none ∧ reading.IsScopeless

/-- The values of options that are read are all of the right form. -/
structure Reading.IsReadable (reading : Reading) : Prop where
  limitType : ∀ {word}, reading.text? .limitType = some word →
    ∃ kind, LimitKind.ofName? word = some kind
  limit : ∀ {word}, reading.text? .limit = some word → ∃ n, readInt word = .ok n
  graphMode : ∀ {word}, reading.text? .graphMode = some word →
    ∃ mode, DependencyMode.ofName? word = some mode
  graphDepth : ∀ {word}, reading.text? .graphDepth = some word → ∃ n, readInt word = .ok n

/-- Checked options can be read: numbers are numbers, and words are those that have a meaning. -/
theorem Reading.isReadable_of_checkOptions {reading : Reading} {tree : FileTree}
    {options : List OptionSpec} (hoptions : selectionOptions <+: options)
    (h : reading.checkOptions tree options = .ok ()) : reading.IsReadable := by
  have hcheck : ∀ option {value}, option ∈ selectionOptions →
      reading.text? option.key = some value →
        ∃ place, checkValue tree place value option.key.form = .ok () :=
    fun _ _ hoption hvalue =>
      checkValue_of_checkOptions h hvalue ⟨_, hoptions.subset hoption, rfl⟩
  constructor
  · intro word hword
    obtain ⟨_, hword⟩ := hcheck (valueOption "--limit-type" .limitType) (by decide) hword
    obtain ⟨kind, _, rfl⟩ := List.mem_map.mp (mem_of_check hword)
    exact ⟨kind, Config.kindName?_eq_some_iff.mpr rfl⟩
  · intro word hword
    obtain ⟨_, hword⟩ := hcheck (valueOption "--limit" .limit) (by decide) hword
    exact exists_readInt_of_check hword
  · intro word hword
    obtain ⟨_, hword⟩ := hcheck (valueOption "--graph-mode" .graphMode) (by decide) hword
    obtain ⟨mode, _, rfl⟩ := List.mem_map.mp (mem_of_check hword)
    exact ⟨mode, Config.modeName?_eq_some_iff.mpr rfl⟩
  · intro word hword
    obtain ⟨_, hword⟩ := hcheck (valueOption "--graph-depth" .graphDepth) (by decide) hword
    exact exists_readInt_of_check hword

/-- The selection from a ledger that some options ask for. -/
def Reading.selection (reading : Reading) (ledger : Path) : SelectionRequest where
  ledger := ledger
  rules := reading.path? .rules
  project := reading.path? .project
  noCache := reading.isOn .noCache
  limitKind := (reading.text? .limitType).bind LimitKind.ofName?
  limitCount := reading.int? .limit
  allowPartial := reading.switch? .slices
  onlyAutoFixable := reading.switch? .fixableOnly
  includeRules := reading.texts .includeRule
  excludeRules := reading.texts .excludeRule
  includeGlobs := reading.texts .includeFile
  excludeGlobs := reading.texts .excludeFile
  entryPoints := reading.texts .entryPoint
  mode := (reading.text? .graphMode).bind DependencyMode.ofName?
  maxDepth := reading.int? .graphDepth

/-- A selection that is asked for comes from checked options, and from the ledger that is named. -/
theorem selectionOf_ok {tree : FileTree} {reading : Reading} {options : List OptionSpec}
    {r : SelectionRequest} (h : selectionOf tree reading options = .ok r) :
    reading.checkOptions tree options = .ok () ∧ ∃ ledger, r = reading.selection ledger := by
  obtain ⟨_, hcheck, h⟩ := bind_ok_iff.mp h
  obtain ⟨⟨ledger, rest⟩, _, h⟩ := bind_ok_iff.mp h
  obtain ⟨_, _, h⟩ := bind_ok_iff.mp h
  obtain ⟨_, _, h⟩ := bind_ok_iff.mp h
  obtain rfl := pure_ok_iff.mp h
  exact ⟨hcheck, .ofText ledger, rfl⟩

section Settling

variable {reading : Reading} {project config : Config} {scope after : Option DependencyScope}

/-- A unit that is given as a word is the kind with that name. -/
theorem readUnit_text_iff {word : String} {unit : LimitUnit} :
    readUnit (.text word) = .ok unit ↔
      ∃ kind : LimitKind, word = kind.name ∧ unit = .known kind := by
  simp [readUnit_ok_iff, Config.kindField_isReadBy.ok_iff, Config.kindField]

/-- A size that is given as a whole number is that number. -/
theorem readSize_int_iff {n m : Int} : readSize (.int n) = .ok m ↔ m = n := by
  rw [readSize_ok_iff, Data.toInt, Except.ok.injEq, eq_comm]

/-- A word that is read as a whole number. Reading it cannot fail any more, since it was checked. -/
theorem exists_toOption_readInt {α : Type} {Reads : Int → α → Prop} {word : String}
    (h : ∃ n, readInt word = .ok n) :
    ∃ n, (readInt word).toOption = some n ∧
      ∀ b, Reads n b ↔ ∃ m, readInt word = .ok m ∧ Reads m b := by
  obtain ⟨n, hn⟩ := h
  refine ⟨n, by rw [hn]; rfl, fun b => ?_⟩
  simp [hn]

/-- The scope with what the options give for it. -/
def Reading.scopeOver (reading : Reading) (base : DependencyScope) : DependencyScope where
  entryPoints := (unlessEmpty (reading.texts .entryPoint)).getD base.entryPoints
  mode := ((reading.text? .graphMode).bind DependencyMode.ofName?).getD base.mode
  maxDepth := (reading.int? .graphDepth).or base.maxDepth
  exclude := base.exclude

/-- A limit that is given takes the place of the one before, which may be none. -/
theorem isTaken_or_iff {given was is : Option Int} :
    IsTaken given (fun n depth => depth = some n) was is ↔ is = given.or was := by
  cases given <;> simp

/-- Options settle a scope as they are laid over it, each part in its own way. -/
theorem settlesScope_iff (hread : reading.IsReadable) {base settled : DependencyScope} :
    reading.SettlesScope base settled ↔ settled = reading.scopeOver base := by
  have hmode : IsTaken (reading.text? .graphMode) (fun word mode => word = mode.name) base.mode
      settled.mode ↔ settled.mode = (reading.scopeOver base).mode := by
    refine Iff.trans (isTaken_bind_iff fun word hword => ?_).symm isTaken_self_iff
    obtain ⟨mode, hmode⟩ := hread.graphMode hword
    refine ⟨mode, hmode, fun other => ?_⟩
    rw [← Config.modeName?_eq_some_iff, hmode, Option.some.injEq, eq_comm]
  have hdepth : IsTaken (reading.text? .graphDepth)
      (fun word depth => ∃ n, readInt word = .ok n ∧ depth = some n) base.maxDepth
      settled.maxDepth ↔ settled.maxDepth = (reading.scopeOver base).maxDepth :=
    Iff.trans (isTaken_bind_iff fun word hword =>
      exists_toOption_readInt (hread.graphDepth hword)).symm isTaken_or_iff
  constructor
  · rintro ⟨hentries, hm, hd, hexclude⟩
    obtain ⟨entryPoints, mode, maxDepth, exclude⟩ := settled
    rw [isTaken_self_iff] at hentries
    rw [hmode] at hm
    rw [hdepth] at hd
    simp only at hentries hm hd hexclude
    rw [hentries, hm, hd, hexclude]
    rfl
  · rintro rfl
    exact ⟨isTaken_self_iff.mpr rfl, hmode.mpr rfl, hdepth.mpr rfl, rfl⟩

/-- A value that can always be read is none just if none was given. -/
theorem bind_isNone_iff {α β : Type} {given : Option α} {f : α → Option β}
    (h : ∀ {value}, given = some value → ∃ b, f value = some b) :
    (given.bind f).isNone ↔ given = none := by
  cases given with
  | none => simp
  | some value =>
    obtain ⟨b, hb⟩ := h rfl
    simp [hb]

/-- No option about the scope is given just if the selection has none. -/
theorem isScopeless_iff (hread : reading.IsReadable) (ledger : Path) :
    reading.IsScopeless ↔ ((reading.selection ledger).entryPoints.isEmpty &&
      (reading.selection ledger).mode.isNone && (reading.selection ledger).maxDepth.isNone) := by
  have hmode : (reading.selection ledger).mode.isNone ↔ reading.text? .graphMode = none :=
    bind_isNone_iff hread.graphMode
  have hdepth : (reading.selection ledger).maxDepth.isNone ↔ reading.text? .graphDepth = none := by
    refine bind_isNone_iff fun hword => ?_
    obtain ⟨n, hn⟩ := hread.graphDepth hword
    exact ⟨n, by rw [hn]; rfl⟩
  rw [Bool.and_eq_true, Bool.and_eq_true, hmode, hdepth, List.isEmpty_iff, and_assoc]
  rfl

/-- Without an option about it the scope is the one of the project. -/
theorem scope_selection_of_isScopeless (hread : reading.IsReadable) (h : reading.IsScopeless)
    (ledger : Path) : (reading.selection ledger).scope scope = scope := by
  rw [SelectionRequest.scope, if_pos ((isScopeless_iff hread ledger).mp h)]

theorem getD_unlessEmpty (texts fallback : List String) :
    (unlessEmpty texts).getD fallback = if texts.isEmpty then fallback else texts := by
  cases texts <;> rfl

/-- With one there is a scope. What the options do not say of it is that of the project, or a
    default. -/
theorem scope_selection_of_not_isScopeless (hread : reading.IsReadable) (h : ¬reading.IsScopeless)
    (ledger : Path) :
    (reading.selection ledger).scope scope = some (reading.scopeOver (scope.getD .default)) := by
  rw [SelectionRequest.scope, if_neg (fun hnone => h ((isScopeless_iff hread ledger).mpr hnone))]
  rw [Reading.scopeOver, getD_unlessEmpty]
  rfl

/-- A scope is settled as the selection has it. An option about the scope makes one even where the
    project has none. -/
theorem scope_selection_iff (hread : reading.IsReadable) (ledger : Path) :
    after = ((reading.selection ledger).scope scope).or scope ↔
      reading.SettlesScope (scope.getD .default) (after.getD .default) ∧
        (after = none ↔ scope = none ∧ reading.IsScopeless) := by
  rw [settlesScope_iff hread]
  by_cases hnone : reading.IsScopeless
  · have hover : ∀ base, reading.scopeOver base = base := by
      intro base
      obtain ⟨hentries, hmode, hdepth⟩ := hnone
      simp [Reading.scopeOver, Reading.int?, unlessEmpty, hentries, hmode, hdepth]
    rw [scope_selection_of_isScopeless hread hnone, hover, Option.or_self]
    constructor
    · rintro rfl
      exact ⟨rfl, by simp [hnone]⟩
    · rintro ⟨hdefault, hiff⟩
      -- Two scopes with the same settings differ only if one of them is missing.
      cases after with
      | none => exact (hiff.mp rfl).1.symm
      | some given =>
        cases scope with
        | none => cases hiff.mpr ⟨rfl, hnone⟩
        | some base => exact congrArg some hdefault
  · rw [scope_selection_of_not_isScopeless hread hnone, Option.some_or]
    constructor
    · rintro rfl
      exact ⟨rfl, by simp [hnone]⟩
    · rintro ⟨hsettled, hiff⟩
      cases after with
      | none => exact absurd (hiff.mp rfl).2 hnone
      | some given => exact congrArg some hsettled

/-- The unit of the limit is taken from the word of an option as from the kind that it names. The
    word was checked, so it names a kind. -/
theorem isTaken_unit_iff (hread : reading.IsReadable) {was is : LimitUnit} :
    IsTaken (reading.text? .limitType)
        (fun word unit => ∃ kind : LimitKind, word = kind.name ∧ unit = .known kind) was is ↔
      IsTaken (((reading.text? .limitType).bind LimitKind.ofName?).map fun kind => .text kind.name)
        (fun given unit => readUnit given = .ok unit) was is := by
  refine Iff.symm (isTaken_map_iff.trans (isTaken_bind_iff fun word hword => ?_))
  obtain ⟨kind, hkind⟩ := hread.limitType hword
  refine ⟨kind, hkind, fun unit => ?_⟩
  rw [Config.kindName?_eq_some_iff] at hkind
  rw [hkind, readUnit_text_iff]

/-- The size of the limit is taken from the word of an option as from the number that it says. The
    word was checked, so it says a number. -/
theorem isTaken_count_iff (hread : reading.IsReadable) {was is : Int} :
    IsTaken (reading.text? .limit) (fun word n => readInt word = .ok n) was is ↔
      IsTaken ((reading.int? .limit).map .int) (fun given n => readSize given = .ok n) was is := by
  refine Iff.symm (isTaken_map_iff.trans (isTaken_bind_iff fun word hword => ?_))
  obtain ⟨n, hn⟩ := hread.limit hword
  refine ⟨n, by rw [hn]; rfl, fun m => ?_⟩
  rw [readSize_int_iff, hn, Except.ok.injEq, eq_comm]

/-- Settings that come from where they should are those of the selection, and there are no others.
    This gathers the settings one by one; for each there is a statement above. -/
theorem settles_iff (hread : reading.IsReadable) (ledger : Path) :
    reading.Settles project config ↔
      (reading.selection ledger).config project = .ok config := by
  rw [SelectionRequest.config, Config.override_ok_iff]
  -- Only the limit and the scope are read from words; the rest is taken as it is given.
  constructor
  · intro h
    refine ⟨(isTaken_unit_iff hread).mp h.unit, (isTaken_count_iff hread).mp h.count,
      Options.eq_override_iff.mpr ?_⟩
    exact ⟨isTaken_self_iff.mp h.onlyAutoFixable, isTaken_self_iff.mp h.allowPartial,
      isTaken_self_iff.mp h.excludeRules, isTaken_self_iff.mp h.includeRules,
      isTaken_self_iff.mp h.excludeGlobs, isTaken_self_iff.mp h.includeGlobs,
      (scope_selection_iff hread ledger).mpr ⟨h.scope, h.scope_eq_none⟩⟩
  · rintro ⟨hunit, hcount, hoptions⟩
    obtain ⟨hfixable, hpartial, hexcludeRules, hincludeRules, hexcludeGlobs, hincludeGlobs, hscope⟩ :=
      Options.eq_override_iff.mp hoptions
    obtain ⟨hscope, hnone⟩ := (scope_selection_iff hread ledger).mp hscope
    exact ⟨(isTaken_unit_iff hread).mpr hunit, (isTaken_count_iff hread).mpr hcount,
      isTaken_self_iff.mpr hfixable,
      isTaken_self_iff.mpr hpartial, isTaken_self_iff.mpr hexcludeRules,
      isTaken_self_iff.mpr hincludeRules, isTaken_self_iff.mpr hexcludeGlobs,
      isTaken_self_iff.mpr hincludeGlobs, hscope, hnone⟩

end Settling

/-! ### The settings of a command line -/

/-- The document with the settings of a project: what its file holds, or nothing if it has none. -/
def IsSettingsDocument (yaml : Yaml.Reader) (tree : FileTree) (root : Path) (data : Data) : Prop :=
  (tree.isFile (configPath root).text = .ok false ∧ data = .null) ∨
    tree.isFile (configPath root).text = .ok true ∧
      ∃ text, tree.readText (configPath root) = .ok text ∧ yaml text = .ok data

/-- Settings are read from a text by way of the document that it holds. -/
theorem ofText_ok_iff {yaml : Yaml.Reader} {text : String} {config : Config} :
    Config.ofText yaml text = .ok config ↔
      ∃ data, yaml text = .ok data ∧ Config.ofData data = .ok config := by
  unfold Config.ofText
  cases yaml text with
  | ok data => simp [mapError_ok_iff]
  | error cause => cases cause <;> simp

/-- Settings are those of a document. Where there is no file, the document is an empty one, with all
    settings by default. -/
theorem exists_document_of_load {yaml : Yaml.Reader} {tree : FileTree} {root : Path} {config : Config}
    (h : Config.load yaml tree root = .ok config) :
    ∃ data, IsSettingsDocument yaml tree root data ∧ Config.ofData data = .ok config := by
  obtain ⟨isThere, hthere, h⟩ := bind_ok_iff.mp h
  rw [mapError_ok_iff] at hthere
  cases isThere with
  | false =>
    rw [if_neg Bool.false_ne_true] at h
    obtain rfl := pure_ok_iff.mp h
    exact ⟨.null, .inl ⟨hthere, rfl⟩, rfl⟩
  | true =>
    rw [if_pos rfl] at h
    obtain ⟨text, htext, h⟩ := bind_ok_iff.mp h
    obtain ⟨data, hdata, hconfig⟩ := ofText_ok_iff.mp h
    exact ⟨data, .inr ⟨hthere, text, mapError_ok_iff.mp htext, hdata⟩, hconfig⟩

namespace SelectionRequest

variable {tree : FileTree} {words : List String} {request : Request} {r : SelectionRequest}

/-- A command line that asks for a selection takes each setting from the option for it. Where that
    is not given, the setting stays what the document of the project gives, or its default.
    Replacing settings one set after the other is replacing them once, later ones on top. -/
theorem settings_settled (hwords : Request.ofWords tree words = .ok request)
    (hr : request.selection? = some r) :
    (∃ reading, commandReading words = some reading ∧
      (∀ data project, Config.ofData data = .ok project →
        Config.Gives data project ∧ ∃ config, r.config project = .ok config ∧
          ∀ other, reading.Settles project other ↔ other = config) ∧
      ∀ yaml inputs, r.inputs yaml tree (projectRoot tree r.project) = .ok inputs →
        ∃ data project, IsSettingsDocument yaml tree (projectRoot tree r.project) data ∧
          Config.ofData data = .ok project ∧ reading.Settles project inputs.config) ∧
      ∀ (project first : Config) (o later : Overrides), project.override o = .ok first →
        first.override later = project.override (o.updated later) := by
  obtain ⟨reading, options, hreading, hoptions, hselection⟩ := exists_reading hwords hr
  obtain ⟨hcheck, ledger, rfl⟩ := selectionOf_ok hselection
  have hread := Reading.isReadable_of_checkOptions hoptions hcheck
  refine ⟨⟨reading, hreading, ?_, ?_⟩, fun _ _ _ later h => Config.override_override later h⟩
  · intro data project hdata
    obtain ⟨config, hconfig⟩ := (reading.selection ledger).exists_config project
    refine ⟨(Config.gives_of_ofData hdata).2, config, hconfig, fun other => ?_⟩
    rw [settles_iff hread ledger, hconfig, Except.ok.injEq, eq_comm]
  · intro yaml inputs hinputs
    obtain ⟨project, hproject, hconfig⟩ :=
      bind_ok_iff.mp (SelectionRequest.inputs_ok_iff.mp hinputs).1
    obtain ⟨data, hdocument, hdata⟩ := exists_document_of_load (mapError_ok_iff.mp hproject)
    rw [mapError_ok_iff] at hconfig
    exact ⟨data, project, hdocument, hdata, (settles_iff hread ledger).mpr hconfig⟩

/-- Options for the unit of the limit, a rule to leave out and the number of hops. -/
def optionWords : List String :=
  ["select", "l.json", "--limit-type=file", "--exclude-rule", "E1", "--graph-depth", "2"]

/-- What these words ask for. -/
def optionSelection : SelectionRequest :=
  { bareSelection with limitKind := some .file, excludeRules := ["E1"], maxDepth := some 2 }

theorem ofWords_optionWords (content : Bytes) :
    Request.ofWords (bareProject content) optionWords = .ok (.select optionSelection false) := by
  have hmain : readArguments mainOptions false optionWords = .ok ⟨[], optionWords⟩ := by
    decide +kernel
  have hoptions : readArguments selectOptions true optionWords.tail =
      .ok ⟨[(.limitType, .text "file"), (.excludeRule, .text "E1"), (.graphDepth, .text "2")],
        ["l.json"]⟩ := by
    decide +kernel
  have hselection : selectionOf (bareProject content)
      ⟨[(.limitType, .text "file"), (.excludeRule, .text "E1"), (.graphDepth, .text "2")],
        ["l.json"]⟩ selectOptions = .ok { optionSelection with ledger := .ofText "l.json" } := by
    show (checkValue (bareProject content) "LEDGER" "l.json" .file >>= _) = _
    rw [checkLedger_bareProject]
    rfl
  rw [Path.ofText_name (by decide)] at hselection
  exact ofWords_select hmain hoptions rfl hselection

/-- A document with a limit, a rule to leave out and a scope. -/
def scopedDocument : Data :=
  .map [(.text "limit", .map [(.text "count", .int 5)]),
    (.text "exclude", .map [(.text "rules", .list [.text "E9"])]),
    (.text "import_graph", .map [(.text "entry_points", .list [.text "a.py"]),
      (.text "mode", .text "dependents"), (.text "exclude", .list [.text "t/*"])])]

/-- The settings that it gives. -/
def scopedConfig : Config :=
  ⟨⟨.known .violation, 5⟩,
    { Options.default with excludeRules := ["E9"], scope := some ⟨["a.py"], .dependents, none, ["t/*"]⟩ }⟩

/-- The options replace what they are for; the size of the limit and the rest of the scope stay. -/
theorem settings_settled_scoped :
    Request.ofWords (bareProject emptyContent) optionWords = .ok (.select optionSelection false) ∧
      Config.ofData scopedDocument = .ok scopedConfig ∧
      ∃ reading, commandReading optionWords = some reading ∧
        reading.Settles scopedConfig ⟨⟨.known .file, 5⟩,
          { Options.default with
            excludeRules := ["E1"]
            scope := some ⟨["a.py"], .dependents, some 2, ["t/*"]⟩ }⟩ := by
  have hwords := ofWords_optionWords emptyContent
  have hdata : Config.ofData scopedDocument = .ok scopedConfig := by rfl
  refine ⟨hwords, hdata, ?_⟩
  obtain ⟨⟨reading, hreading, hsettled, _⟩, _⟩ := settings_settled hwords rfl
  obtain ⟨_, config, hconfig, hunique⟩ := hsettled scopedDocument scopedConfig hdata
  refine ⟨reading, hreading, (hunique _).mpr ?_⟩
  have hchosen : optionSelection.config scopedConfig = .ok ⟨⟨.known .file, 5⟩,
      { Options.default with
        excludeRules := ["E1"]
        scope := some ⟨["a.py"], .dependents, some 2, ["t/*"]⟩ }⟩ := rfl
  exact Except.ok.inj (hchosen.symm.trans hconfig)

end SelectionRequest

end Backlog.Command
