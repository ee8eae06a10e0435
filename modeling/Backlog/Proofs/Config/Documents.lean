import Backlog.Config
import Backlog.Proofs.Graph.Document
import Backlog.Proofs.Outcome

namespace Backlog

/-!
# What settings are read from

A document gives settings under keys of its sections, each with a default, a check and a message of
its own. They are all instances of one notion, a field, which says what a value stands for and how
it is refused; so reading is described once, and each setting by its field. What is wrong with a
document is then a field that refuses its value, or a section that is no mapping.

* `Config.part` — the entries of a section of a document;
* `Config.Field` — a setting: its key, its default, and what the values under the key stand for;
  `Config.readField_ok_iff`, `Config.readField_error_iff` — how it is read;
* `Config.Gives` — the settings that a document gives; `Config.HasFault` — all that may be wrong with
  a document, with the refusal that says so;
* `Config.ofData_settings` — a document without a fault is read as the settings that it gives, and a
  refusal names a fault;
* `Config.ofData_zeroLimit` — a section that is zero or empty is no fault, though it is no mapping.
-/

namespace Config

/-! ### Sections -/

/-- The entries of a value that should be a section; a mapping inside itself is the document. -/
def entriesOf? (document : List (Scalar × Data)) : Data → Option (List (Scalar × Data))
  | .map entries => some entries
  | .loopedMap => some document
  | _ => none

/-- The entries of a section; there are none where no mapping is. -/
def part (document : List (Scalar × Data)) (name : String) : List (Scalar × Data) :=
  ((Data.field? document name).bind (entriesOf? document)).getD []

/-- A section that holds something else than entries. -/
def IsNoSection (document : List (Scalar × Data)) (name : String) : Prop :=
  ∃ value, Data.field? document name = some value ∧ value.isBlank = false ∧
    entriesOf? document value = none

section Sections

variable {document entries : List (Scalar × Data)} {name : String} {cause : ConfigError}

/-- What is blank has no entries. So a section that is null or left empty is one without settings,
    each of them by default. -/
theorem part_of_isBlank {value : Data} (hfield : Data.field? document name = some value)
    (hblank : value.isBlank = true) : part document name = [] := by
  rw [part, hfield, Option.bind_some]
  cases value with
  | map entries =>
    rw [Data.isBlank, List.isEmpty_iff] at hblank
    rw [hblank]
    rfl
  | loopedMap => cases hblank
  | scalar _ | list _ | tuple _ | set _ | loopedList => rfl

/-- A section is read unless it is there and no mapping. What is read is the part of the document
    that it is. -/
theorem readSection_ok_iff : readSection document name = .ok entries ↔
    ¬IsNoSection document name ∧ entries = part document name := by
  rw [readSection, eq_comm (a := entries)]
  split
  · rename_i hfield
    simp [IsNoSection, part, hfield]
  · rename_i value hfield
    split
    · rename_i hblank
      rw [part_of_isBlank hfield hblank]
      simp [IsNoSection, hfield, hblank]
    · rename_i hblank
      simp only [Bool.not_eq_true] at hblank
      cases value <;> simp [IsNoSection, part, hfield, hblank, entriesOf?]

theorem readSection_error_iff : readSection document name = .error cause ↔
    IsNoSection document name ∧ cause = .sectionNotAMapping name := by
  rw [readSection, eq_comm (a := cause)]
  split
  · rename_i hfield
    simp [IsNoSection, hfield]
  · rename_i value hfield
    split
    · rename_i hblank
      simp [IsNoSection, hfield, hblank]
    · rename_i hblank
      simp only [Bool.not_eq_true] at hblank
      cases value <;> simp [IsNoSection, hfield, hblank, entriesOf?]

/-- What goes wrong when a section is read and then used: the section itself, or what is done with
    the part. -/
theorem readSection_bind_error {α : Type} {next : List (Scalar × Data) → Except ConfigError α}
    (h : readSection document name >>= next = .error cause) :
    (IsNoSection document name ∧ cause = .sectionNotAMapping name) ∨
      next (part document name) = .error cause := by
  obtain h | ⟨_, hpart, h⟩ := bind_error_iff.mp h
  · exact .inl (readSection_error_iff.mp h)
  · obtain ⟨_, rfl⟩ := readSection_ok_iff.mp hpart
    exact .inr h

end Sections

/-! ### Settings -/

/-- A setting: where it stands, its default, what a value there stands for, and what is said about a
    value that stands for nothing. -/
structure Field (α : Type) where
  key : String
  fallback : α
  Reads : Data → α → Prop
  refusal : Data → ConfigError

section Fields

variable {α : Type} {entries : List (Scalar × Data)} {cause : ConfigError}

/-- Entries give a setting by their value, or leave it at its default. -/
def Field.Holds (field : Field α) (entries : List (Scalar × Data)) (a : α) : Prop :=
  (Data.field? entries field.key = none ∧ a = field.fallback) ∨
    ∃ value, Data.field? entries field.key = some value ∧ field.Reads value a

/-- Entries have a value for a setting that stands for nothing. -/
def Field.Refuses (field : Field α) (entries : List (Scalar × Data)) (cause : ConfigError) : Prop :=
  ∃ value, Data.field? entries field.key = some value ∧ (∀ a, ¬field.Reads value a) ∧
    cause = field.refusal value

/-- A reader that finds what the values of a setting stand for. -/
structure Field.IsReadBy (field : Field α) (read : Data → Except ConfigError α) : Prop where
  ok_iff : ∀ {value a}, read value = .ok a ↔ field.Reads value a
  refusal_eq : ∀ {value cause}, read value = .error cause → cause = field.refusal value

variable {field : Field α} {read : Data → Except ConfigError α}

/-- A reader that reads a field refuses the values that the field does not read, with the refusal of
    the field. -/
theorem Field.IsReadBy.error_iff (h : field.IsReadBy read) {value : Data} :
    read value = .error cause ↔ (∀ a, ¬field.Reads value a) ∧ cause = field.refusal value := by
  constructor
  · intro hread
    refine ⟨fun a ha => ?_, h.refusal_eq hread⟩
    rw [h.ok_iff.mpr ha] at hread
    cases hread
  · rintro ⟨hnone, rfl⟩
    cases hread : read value with
    | ok a => exact absurd (h.ok_iff.mp hread) (hnone a)
    | error found => rw [h.refusal_eq hread]

/-- A field is read with what it holds: the value that is given, or its default. -/
theorem readField_ok_iff (hread : field.IsReadBy read) {a : α} :
    readField entries field.key field.fallback read = .ok a ↔ field.Holds entries a := by
  rw [readField, Field.Holds]
  split
  · rename_i hfield
    simp [hfield, eq_comm]
  · rename_i value hfield
    simp [hfield, hread.ok_iff]

/-- A field is refused with the refusal of the value that is given. -/
theorem readField_error_iff (hread : field.IsReadBy read) :
    readField entries field.key field.fallback read = .error cause ↔
      field.Refuses entries cause := by
  rw [readField, Field.Refuses]
  split
  · rename_i hfield
    simp [hfield]
  · rename_i value hfield
    simp [hfield, hread.error_iff]

/-- What a value stands for is not refused. So the two cases of a field exclude each other. -/
theorem Field.not_refuses_of_holds {a : α} (h : field.Holds entries a) :
    ¬field.Refuses entries cause := by
  rintro ⟨value, hvalue, hnone, _⟩
  obtain ⟨habsent, _⟩ | ⟨found, hfound, ha⟩ := h
  · rw [habsent] at hvalue
    cases hvalue
  · obtain rfl := Option.some.inj (hfound.symm.trans hvalue)
    exact hnone a ha

end Fields

/-! ### All settings -/

/-- The size of the limit: a whole number. -/
def countField : Field Int :=
  ⟨"count", 100, fun value n => value = .int n, fun _ => .countNotAnInteger⟩

/-- What the limit counts: a kind, or its name. -/
def kindField : Field LimitKind :=
  ⟨"type", .violation, fun value kind => value = .scalar (.limitKind kind) ∨ value = .text kind.name,
    .unknownLimitKind⟩

/-- The direction that imports are followed in: a mode, or its name. -/
def modeField : Field DependencyMode :=
  ⟨"mode", .connected, fun value mode => value = .scalar (.mode mode) ∨ value = .text mode.name,
    .unknownMode⟩

/-- The greatest number of hops: a whole number; with null there is none. -/
def depthField : Field (Option Int) :=
  ⟨"depth", none, fun value depth =>
    (value = .null ∧ depth = none) ∨ ∃ n, value = .int n ∧ depth = some n,
    fun _ => .depthNotAnInteger⟩

/-- A list of texts; null is the empty one. -/
def textsField (part key : String) : Field (List String) :=
  ⟨key, [], fun value texts => (value = .null ∧ texts = []) ∨ value = .list (texts.map Data.text),
    fun _ => .notTexts part key⟩

/-- A truth value. -/
def switchField (key : String) (fallback : Bool) : Field Bool :=
  ⟨key, fallback, fun value b => value = .bool b, fun _ => .notABool key⟩

/-- How much may be taken on is read as a whole number that is positive. -/
theorem countField_isReadBy : countField.IsReadBy readCount where
  ok_iff {value n} := by
    unfold readCount
    split <;> simp_all [countField, eq_comm]
  refusal_eq {value cause} h := by
    unfold readCount at h
    split at h <;> simp_all [countField]

/-- A word names a kind of limit if it is the name of that kind. -/
theorem kindName?_eq_some_iff {word : String} {kind : LimitKind} :
    LimitKind.ofName? word = some kind ↔ word = kind.name := by
  constructor
  · intro h
    simpa [eq_comm] using List.find?_some h
  · rintro rfl
    cases kind <;> rfl

/-- A word names a mode if it is the name of that mode. -/
theorem modeName?_eq_some_iff {word : String} {mode : DependencyMode} :
    DependencyMode.ofName? word = some mode ↔ word = mode.name := by
  constructor
  · intro h
    simpa [eq_comm] using List.find?_some h
  · rintro rfl
    cases mode <;> rfl

theorem kindField_isReadBy : kindField.IsReadBy readLimitKind where
  ok_iff {value kind} := by
    unfold readLimitKind
    split
    · simp [kindField, eq_comm]
    · rename_i word
      cases hword : LimitKind.ofName? word <;> simp [kindField, ← kindName?_eq_some_iff, hword]
    · simp_all [kindField]
  refusal_eq {value cause} h := by
    unfold readLimitKind at h
    split at h
    · cases h
    · split at h <;> cases h
      rfl
    · cases h
      rfl

theorem modeField_isReadBy : modeField.IsReadBy readMode where
  ok_iff {value mode} := by
    unfold readMode
    split
    · simp [modeField, eq_comm]
    · rename_i word
      cases hword : DependencyMode.ofName? word <;> simp [modeField, ← modeName?_eq_some_iff, hword]
    · simp_all [modeField]
  refusal_eq {value cause} h := by
    unfold readMode at h
    split at h
    · cases h
    · split at h <;> cases h
      rfl
    · cases h
      rfl

/-- How far a scope reaches is read as nothing or as a whole number that is not negative. -/
theorem depthField_isReadBy : depthField.IsReadBy readDepth where
  ok_iff {value depth} := by
    unfold readDepth
    split <;> simp_all [depthField, eq_comm]
  refusal_eq {value cause} h := by
    unfold readDepth at h
    split at h <;> simp_all [depthField]

/-- A list of texts is read as one, and a single text as itself. What it is refused for names the
    list and its part. -/
theorem textsField_isReadBy (part key : String) :
    (textsField part key).IsReadBy (readItems part key) where
  ok_iff {value texts} := by
    unfold readItems
    split
    · simp [textsField, eq_comm]
    · rename_i items
      cases hitems : Data.texts? items <;> simp [textsField, ← Data.texts?_eq_some_iff, hitems]
    · simp_all [textsField]
  refusal_eq {value cause} h := by
    unfold readItems at h
    split at h
    · cases h
    · split at h <;> cases h
      rfl
    · cases h
      rfl

/-- A switch is read as what it says, and nothing but true and false is a switch. -/
theorem switchField_isReadBy (key : String) (fallback : Bool) :
    (switchField key fallback).IsReadBy (readSwitch key) where
  ok_iff {value b} := by
    unfold readSwitch
    split
    · simp [switchField, eq_comm]
    · rename_i hother
      simpa [switchField] using hother b
  refusal_eq {value cause} h := by
    unfold readSwitch at h
    split at h <;> simp_all [switchField]

/-! ### Documents -/

/-- The scope that a section gives; one without entries gives none. -/
structure IsScopeOf (entries : List (Scalar × Data)) (scope : DependencyScope) : Prop where
  nonempty : entries ≠ []
  entryPoints : (textsField "import_graph" "entry_points").Holds entries scope.entryPoints
  mode : modeField.Holds entries scope.mode
  maxDepth : depthField.Holds entries scope.maxDepth
  exclude : (textsField "import_graph" "exclude").Holds entries scope.exclude

/-- A section gives a scope, or none if it has no entries. -/
def GivesScope (entries : List (Scalar × Data)) : Option DependencyScope → Prop
  | none => entries = []
  | some scope => IsScopeOf entries scope

/-- The limit that a document gives. -/
structure IsLimitOf (document : List (Scalar × Data)) (limit : Limit) : Prop where
  count : countField.Holds (part document "limit") limit.count
  kind : ∃ kind, limit.unit = .known kind ∧ kindField.Holds (part document "limit") kind

/-- The settings that a document gives; what it does not give has its default. -/
structure IsConfigOf (document : List (Scalar × Data)) (config : Config) : Prop where
  limit : IsLimitOf document config.limit
  onlyAutoFixable : (switchField "auto_fixable_only" true).Holds document
    config.options.onlyAutoFixable
  allowPartial : (switchField "partial_selection" false).Holds document config.options.allowPartial
  excludeRules : (textsField "exclude" "rules").Holds (part document "exclude")
    config.options.excludeRules
  includeRules : (textsField "include" "rules").Holds (part document "include")
    config.options.includeRules
  excludeGlobs : (textsField "exclude" "files").Holds (part document "exclude")
    config.options.excludeGlobs
  includeGlobs : (textsField "include" "files").Holds (part document "include")
    config.options.includeGlobs
  scope : GivesScope (part document "import_graph") config.options.scope

/-- The settings that a decoded value gives; null gives none. -/
inductive Gives : Data → Config → Prop
  | default : Gives .null .default
  | entries {document : List (Scalar × Data)} {config : Config} (h : IsConfigOf document config) :
      Gives (.map document) config

/-- What may be wrong with the entries of a document, and how that is said. -/
inductive IsFault (document : List (Scalar × Data)) : ConfigError → Prop
  | noSection {name : String} (hname : name ∈ ["limit", "include", "exclude", "import_graph"])
      (h : IsNoSection document name) : IsFault document (.sectionNotAMapping name)
  | count {cause : ConfigError} (h : countField.Refuses (part document "limit") cause) :
      IsFault document cause
  | kind {cause : ConfigError} (h : kindField.Refuses (part document "limit") cause) :
      IsFault document cause
  | depth {cause : ConfigError} (h : depthField.Refuses (part document "import_graph") cause) :
      IsFault document cause
  | mode {cause : ConfigError} (h : modeField.Refuses (part document "import_graph") cause) :
      IsFault document cause
  | onlyAutoFixable {cause : ConfigError}
      (h : (switchField "auto_fixable_only" true).Refuses document cause) : IsFault document cause
  | allowPartial {cause : ConfigError}
      (h : (switchField "partial_selection" false).Refuses document cause) : IsFault document cause
  | texts {name key : String} {cause : ConfigError}
      (hplace : (name, key) ∈ [("include", "rules"), ("include", "files"), ("exclude", "rules"),
        ("exclude", "files"), ("import_graph", "entry_points"), ("import_graph", "exclude")])
      (h : (textsField name key).Refuses (part document name) cause) : IsFault document cause

/-- What may be wrong with a decoded value. -/
inductive HasFault : Data → ConfigError → Prop
  | notAMapping {d : Data} (hnull : d ≠ .null) (hmap : ∀ document, d ≠ .map document) :
      HasFault d .notAMapping
  | entries {document : List (Scalar × Data)} {cause : ConfigError} (h : IsFault document cause) :
      HasFault (.map document) cause

variable {document entries : List (Scalar × Data)} {cause : ConfigError}

/-- A list of texts is read with what its field holds. -/
theorem readTexts_ok_iff {part key : String} {texts : List String} :
    readTexts entries part key = .ok texts ↔ (textsField part key).Holds entries texts :=
  readField_ok_iff (textsField_isReadBy part key)

theorem readTexts_error_iff {part key : String} :
    readTexts entries part key = .error cause ↔ (textsField part key).Refuses entries cause :=
  readField_error_iff (textsField_isReadBy part key)

theorem readBool_ok_iff {key : String} {fallback b : Bool} :
    readBool entries key fallback = .ok b ↔ (switchField key fallback).Holds entries b :=
  readField_ok_iff (switchField_isReadBy key fallback)

theorem readBool_error_iff {key : String} {fallback : Bool} :
    readBool entries key fallback = .error cause ↔ (switchField key fallback).Refuses entries cause :=
  readField_error_iff (switchField_isReadBy key fallback)

/-- The limit is read from its section if that is one, with its kind and its size. -/
theorem readLimit_ok_iff {limit : Limit} :
    readLimit document = .ok limit ↔ ¬IsNoSection document "limit" ∧ IsLimitOf document limit := by
  simp only [readLimit, bind_ok_iff, pure_ok_iff, readSection_ok_iff]
  constructor
  · rintro ⟨_, ⟨hsection, rfl⟩, count, hcount, kind, hkind, rfl⟩
    exact ⟨hsection, (readField_ok_iff countField_isReadBy).mp hcount, kind, rfl,
      (readField_ok_iff kindField_isReadBy).mp hkind⟩
  · rintro ⟨hsection, hcount, kind, hunit, hkind⟩
    refine ⟨_, ⟨hsection, rfl⟩, limit.count, (readField_ok_iff countField_isReadBy).mpr hcount, kind,
      (readField_ok_iff kindField_isReadBy).mpr hkind, ?_⟩
    rw [← hunit]

/-- What the limit is refused for is a fault of the document. -/
theorem isFault_of_readLimit (h : readLimit document = .error cause) : IsFault document cause := by
  obtain ⟨hsection, rfl⟩ | h := readSection_bind_error h
  · exact .noSection (by simp) hsection
  obtain h | ⟨_, _, h⟩ := bind_error_iff.mp h
  · exact .count ((readField_error_iff countField_isReadBy).mp h)
  obtain h | ⟨_, _, h⟩ := bind_error_iff.mp h
  · exact .kind ((readField_error_iff kindField_isReadBy).mp h)
  · cases h

/-- The scope is read if it is enabled, and then with all its settings. Where it is not enabled, its
    settings are not looked at. -/
theorem readScope_ok_iff {scope : Option DependencyScope} :
    readScope entries = .ok scope ↔ GivesScope entries scope := by
  rw [readScope]
  split
  · rename_i hempty
    rw [List.isEmpty_iff] at hempty
    cases scope with
    | none => simp [GivesScope, hempty]
    | some scope =>
      refine iff_of_false (by simp) fun h => h.nonempty hempty
  · rename_i hentries
    rw [List.isEmpty_iff] at hentries
    simp only [bind_ok_iff, pure_ok_iff, readTexts_ok_iff]
    constructor
    · rintro ⟨maxDepth, hdepth, entryPoints, hpoints, mode, hmode, exclude, hexclude, rfl⟩
      exact ⟨hentries, hpoints, (readField_ok_iff modeField_isReadBy).mp hmode,
        (readField_ok_iff depthField_isReadBy).mp hdepth, hexclude⟩
    · intro h
      cases scope with
      | none => exact absurd h hentries
      | some scope =>
        exact ⟨_, (readField_ok_iff depthField_isReadBy).mpr h.maxDepth, _, h.entryPoints, _,
          (readField_ok_iff modeField_isReadBy).mpr h.mode, _, h.exclude, rfl⟩

/-- What the scope is refused for is a fault of the document. -/
theorem isFault_of_readScope (h : readScope (part document "import_graph") = .error cause) :
    IsFault document cause := by
  rw [readScope] at h
  split at h
  · cases h
  obtain h | ⟨_, _, h⟩ := bind_error_iff.mp h
  · exact .depth ((readField_error_iff depthField_isReadBy).mp h)
  obtain h | ⟨_, _, h⟩ := bind_error_iff.mp h
  · exact .texts (by simp) (readTexts_error_iff.mp h)
  obtain h | ⟨_, _, h⟩ := bind_error_iff.mp h
  · exact .mode ((readField_error_iff modeField_isReadBy).mp h)
  obtain h | ⟨_, _, h⟩ := bind_error_iff.mp h
  · exact .texts (by simp) (readTexts_error_iff.mp h)
  · cases h

/-- A document that is a mapping is read if its four sections are, with what they give. -/
theorem readEntries_ok_iff {config : Config} : readEntries document = .ok config ↔
    (∀ name ∈ ["limit", "include", "exclude", "import_graph"], ¬IsNoSection document name) ∧
      IsConfigOf document config := by
  -- Every part is read for itself; the order matters only for which fault is reported.
  simp only [readEntries, bind_ok_iff, pure_ok_iff, readLimit_ok_iff, readSection_ok_iff,
    readScope_ok_iff, readTexts_ok_iff, readBool_ok_iff, List.forall_mem_cons, List.not_mem_nil,
    false_implies, implies_true, and_true]
  constructor
  · rintro ⟨limit, ⟨hlimit, hlimitOf⟩, _, ⟨hinclude, rfl⟩, _, ⟨hexclude, rfl⟩, _, ⟨hgraph, rfl⟩, scope,
      hscope, fixable, hfixable, allow, hallow, excludeRules, hexcludeRules, includeRules,
      hincludeRules, excludeGlobs, hexcludeGlobs, includeGlobs, hincludeGlobs, rfl⟩
    exact ⟨⟨hlimit, hinclude, hexclude, hgraph⟩, hlimitOf, hfixable, hallow, hexcludeRules,
      hincludeRules, hexcludeGlobs, hincludeGlobs, hscope⟩
  · rintro ⟨⟨hlimit, hinclude, hexclude, hgraph⟩, h⟩
    exact ⟨_, ⟨hlimit, h.limit⟩, _, ⟨hinclude, rfl⟩, _, ⟨hexclude, rfl⟩, _, ⟨hgraph, rfl⟩, _, h.scope, _,
      h.onlyAutoFixable, _, h.allowPartial, _, h.excludeRules, _, h.includeRules, _, h.excludeGlobs,
      _, h.includeGlobs, rfl⟩

/-- What a document that is a mapping is refused for is a fault of it. -/
theorem isFault_of_readEntries (h : readEntries document = .error cause) :
    IsFault document cause := by
  obtain h | ⟨_, _, h⟩ := bind_error_iff.mp h
  · exact isFault_of_readLimit h
  obtain ⟨hsection, rfl⟩ | h := readSection_bind_error h
  · exact .noSection (by simp) hsection
  obtain ⟨hsection, rfl⟩ | h := readSection_bind_error h
  · exact .noSection (by simp) hsection
  obtain ⟨hsection, rfl⟩ | h := readSection_bind_error h
  · exact .noSection (by simp) hsection
  obtain h | ⟨_, _, h⟩ := bind_error_iff.mp h
  · exact isFault_of_readScope h
  obtain h | ⟨_, _, h⟩ := bind_error_iff.mp h
  · exact .onlyAutoFixable (readBool_error_iff.mp h)
  obtain h | ⟨_, _, h⟩ := bind_error_iff.mp h
  · exact .allowPartial (readBool_error_iff.mp h)
  obtain h | ⟨_, _, h⟩ := bind_error_iff.mp h
  · exact .texts (by simp) (readTexts_error_iff.mp h)
  obtain h | ⟨_, _, h⟩ := bind_error_iff.mp h
  · exact .texts (by simp) (readTexts_error_iff.mp h)
  obtain h | ⟨_, _, h⟩ := bind_error_iff.mp h
  · exact .texts (by simp) (readTexts_error_iff.mp h)
  obtain h | ⟨_, _, h⟩ := bind_error_iff.mp h
  · exact .texts (by simp) (readTexts_error_iff.mp h)
  · cases h

/-- Where a scope is given, none of its settings is refused. For the scope is enabled, so all its
    settings were read. -/
theorem GivesScope.refuses {α : Type} {scope : Option DependencyScope} {field : Field α}
    (h : GivesScope entries scope) (hfield : field.Refuses entries cause) :
    ∃ given, scope = some given ∧ IsScopeOf entries given := by
  cases scope with
  | none =>
    obtain ⟨value, hvalue, _⟩ := hfield
    rw [show entries = [] from h] at hvalue
    cases hvalue
  | some given => exact ⟨given, rfl, h⟩

/-- Settings are given by a document without faults. Each setting holds a value, and what holds a
    value is not refused. -/
theorem IsConfigOf.not_isFault {config : Config} (h : IsConfigOf document config)
    (hsections : ∀ name ∈ ["limit", "include", "exclude", "import_graph"], ¬IsNoSection document name) :
    ¬IsFault document cause := by
  rintro (⟨hname, hfault⟩ | hfault | hfault | hfault | hfault | hfault | hfault | ⟨hplace, hfault⟩)
  · exact hsections _ hname hfault
  · exact Field.not_refuses_of_holds h.limit.count hfault
  · obtain ⟨kind, _, hkind⟩ := h.limit.kind
    exact Field.not_refuses_of_holds hkind hfault
  · obtain ⟨given, _, hgiven⟩ := h.scope.refuses hfault
    exact Field.not_refuses_of_holds hgiven.maxDepth hfault
  · obtain ⟨given, _, hgiven⟩ := h.scope.refuses hfault
    exact Field.not_refuses_of_holds hgiven.mode hfault
  · exact Field.not_refuses_of_holds h.onlyAutoFixable hfault
  · exact Field.not_refuses_of_holds h.allowPartial hfault
  · simp only [List.mem_cons, Prod.mk.injEq, List.not_mem_nil, or_false] at hplace
    rcases hplace with ⟨rfl, rfl⟩ | ⟨rfl, rfl⟩ | ⟨rfl, rfl⟩ | ⟨rfl, rfl⟩ | ⟨rfl, rfl⟩ | ⟨rfl, rfl⟩
    · exact Field.not_refuses_of_holds h.includeRules hfault
    · exact Field.not_refuses_of_holds h.includeGlobs hfault
    · exact Field.not_refuses_of_holds h.excludeRules hfault
    · exact Field.not_refuses_of_holds h.excludeGlobs hfault
    · obtain ⟨given, _, hgiven⟩ := h.scope.refuses hfault
      exact Field.not_refuses_of_holds hgiven.entryPoints hfault
    · obtain ⟨given, _, hgiven⟩ := h.scope.refuses hfault
      exact Field.not_refuses_of_holds hgiven.exclude hfault

/-- A refusal names a fault. The settings are read one after another, and it is the first fault that
    is named. -/
theorem hasFault_of_ofData {d : Data} (h : ofData d = .error cause) : HasFault d cause := by
  unfold ofData at h
  split at h
  · cases h
  · exact .entries (isFault_of_readEntries h)
  · rename_i hnull hmap
    cases h
    exact .notAMapping hnull hmap

/-- Settings that are read are given, and nothing is wrong. By what is read of each part. -/
theorem gives_of_ofData {d : Data} {config : Config} (h : ofData d = .ok config) :
    (∀ cause, ¬HasFault d cause) ∧ Gives d config := by
  unfold ofData at h
  split at h
  · cases h
    refine ⟨fun cause hfault => ?_, .default⟩
    cases hfault with
    | notAMapping hnull _ => exact hnull rfl
  · obtain ⟨hsections, hconfig⟩ := readEntries_ok_iff.mp h
    refine ⟨fun cause hfault => ?_, .entries hconfig⟩
    cases hfault with
    | notAMapping _ hmap => exact hmap _ rfl
    | entries hfault => exact hconfig.not_isFault hsections hfault
  · cases h

/-- A document is read as settings exactly if nothing is wrong with it and it gives them, what it
    does not give by default. It is refused exactly if something is wrong, and the refusal says
    what. -/
theorem ofData_settings (d : Data) :
    (∀ config, ofData d = .ok config ↔ (∀ cause, ¬HasFault d cause) ∧ Gives d config) ∧
      ((∃ cause, ofData d = .error cause) ↔ ∃ cause, HasFault d cause) ∧
      ∀ cause, ofData d = .error cause → HasFault d cause := by
  refine ⟨fun config => ⟨gives_of_ofData, ?_⟩, ⟨?_, ?_⟩, fun cause => hasFault_of_ofData⟩
  · rintro ⟨hfault, hgives⟩
    cases hgives with
    | default => rfl
    | entries hconfig =>
      refine readEntries_ok_iff.mpr ⟨fun name hname hsection => ?_, hconfig⟩
      exact hfault _ (.entries (.noSection hname hsection))
  · rintro ⟨cause, h⟩
    exact ⟨cause, hasFault_of_ofData h⟩
  · rintro ⟨cause, hfault⟩
    cases h : ofData d with
    | error found => exact ⟨found, rfl⟩
    | ok config => exact absurd hfault ((gives_of_ofData h).1 cause)

/-- A limit of zero is neither missing nor null nor a mapping, and yet it is taken for no limit. -/
theorem ofData_zeroLimit :
    Data.field? [(.text "limit", .int 0)] "limit" = some (.int 0) ∧ Data.int 0 ≠ .null ∧
      entriesOf? [(.text "limit", .int 0)] (.int 0) = none ∧
      ofData (.map [(.text "limit", .int 0)]) = .ok default :=
  ⟨rfl, by simp, rfl, rfl⟩

end Config

end Backlog
