import Backlog.Config
import Backlog.Proofs.Outcome

namespace Backlog

/-!
# Replacing settings

Settings may be replaced, by options of the command line as by a program that uses the library. A
replacement says for each setting whether it is replaced, and by what; the value is checked as if it
had come from a document.

* `IsTaken` — a setting is what the value that is given for it stands for, or as it was;
* `Config.override_ok_iff` — replacing settings takes each of them from the replacement of its own;
* `Overrides.updated` — replacements with others on top of them;
* `Config.override_override` — replacing settings twice is replacing them once, with the later
  replacements on top of the earlier ones.
-/

section Taking

variable {α β ε : Type} {given later : Option α} {read : α → Except ε β} {was is : β}

/-- A setting is what the value that is given for it stands for; if none is given, it is as it was. -/
def IsTaken (given : Option α) (Reads : α → β → Prop) (was is : β) : Prop :=
  match given with
  | none => is = was
  | some value => Reads value is

@[simp] theorem isTaken_none {Reads : α → β → Prop} : IsTaken none Reads was is ↔ is = was := .rfl

@[simp] theorem isTaken_some {Reads : α → β → Prop} {value : α} :
    IsTaken (some value) Reads was is ↔ Reads value is := .rfl

/-- A value that stands for itself. It takes the place of the one before. -/
theorem isTaken_self_iff {given : Option β} :
    IsTaken given (fun value is => is = value) was is ↔ is = given.getD was := by
  cases given <;> simp

/-- A value that is first turned into another one, which never fails. So the two steps of reading a
    value can be taken for one. -/
theorem isTaken_bind_iff {γ : Type} {f : α → Option γ} {Reads : γ → β → Prop} {Stands : α → β → Prop}
    (h : ∀ value, given = some value → ∃ c, f value = some c ∧ ∀ b, Reads c b ↔ Stands value b) :
    IsTaken (given.bind f) Reads was is ↔ IsTaken given Stands was is := by
  cases given with
  | none => simp
  | some value =>
    obtain ⟨c, hc, hstands⟩ := h value rfl
    rw [Option.bind_some, hc, isTaken_some, isTaken_some, hstands]

/-- A value that is turned into another one before it is read. -/
theorem isTaken_map_iff {γ : Type} {f : α → γ} {Reads : γ → β → Prop} :
    IsTaken (given.map f) Reads was is ↔ IsTaken given (fun value => Reads (f value)) was is := by
  cases given <;> simp

/-- What the value that is given for a setting is read as; if none is given, the setting as it was. -/
def taken (given : Option α) (read : α → Except ε β) (was : β) : Except ε β :=
  match given with
  | none => .ok was
  | some value => read value

/-- What is taken is what the relation says, since a reader is a function. -/
theorem taken_ok_iff :
    taken given read was = .ok is ↔ IsTaken given (fun value is => read value = .ok is) was is := by
  cases given <;> simp [taken, eq_comm]

/-- A value that is given later counts more than one that was given before. The first value was
    read, and that it could be is all that is left of it. -/
theorem taken_taken (h : taken given read was = .ok is) (later : Option α) :
    taken later read is = taken (later.or given) read was := by
  cases later with
  | none => exact h.symm
  | some value => rfl

end Taking

/-! ### All settings -/

/-- The unit of a limit from a value that is given for it. -/
def readUnit (given : Data) : Except OverrideError LimitUnit :=
  ((Config.readLimitKind given).mapError .limitKind).map .known

/-- The size of a limit from a value that is given for it. -/
def readSize (given : Data) : Except OverrideError Int := given.toInt.mapError .limitCount

/-- A unit that is given is a known kind, as in a document. -/
theorem readUnit_ok_iff {given : Data} {unit : LimitUnit} :
    readUnit given = .ok unit ↔
      ∃ kind, Config.readLimitKind given = .ok kind ∧ unit = .known kind := by
  simp only [readUnit, map_ok_iff, mapError_ok_iff, eq_comm (a := unit)]

/-- A size that is given is the whole number that it converts to, as in a document. -/
theorem readSize_ok_iff {given : Data} {n : Int} :
    readSize given = .ok n ↔ given.toInt = .ok n := mapError_ok_iff

/-- The replacements `o` with those of `later` on top of them. -/
def Overrides.updated (o later : Overrides) : Overrides where
  limitKind := later.limitKind.or o.limitKind
  limitCount := later.limitCount.or o.limitCount
  onlyAutoFixable := later.onlyAutoFixable.or o.onlyAutoFixable
  allowPartial := later.allowPartial.or o.allowPartial
  excludeRules := later.excludeRules.or o.excludeRules
  includeRules := later.includeRules.or o.includeRules
  excludeGlobs := later.excludeGlobs.or o.excludeGlobs
  includeGlobs := later.includeGlobs.or o.includeGlobs
  scope := later.scope.or o.scope

/-- Options are replaced one by one. Each is that of the replacement, or as it was. -/
theorem Options.eq_override_iff {options after : Options} {o : Overrides} :
    after = options.override o ↔
      after.onlyAutoFixable = o.onlyAutoFixable.getD options.onlyAutoFixable ∧
        after.allowPartial = o.allowPartial.getD options.allowPartial ∧
        after.excludeRules = o.excludeRules.getD options.excludeRules ∧
        after.includeRules = o.includeRules.getD options.includeRules ∧
        after.excludeGlobs = o.excludeGlobs.getD options.excludeGlobs ∧
        after.includeGlobs = o.includeGlobs.getD options.includeGlobs ∧
        after.scope = o.scope.or options.scope := by
  cases after
  simp [Options.override]

/-- Replacing options twice is replacing them once by both, of which the later one counts more. -/
theorem Options.override_override (options : Options) (o later : Overrides) :
    (options.override o).override later = options.override (o.updated later) := by
  simp [Options.override, Overrides.updated, Option.getD_or, Option.or_assoc]

namespace Config

/-- Replacing settings, setting by setting: first the unit is read, then the count, and the options
    cannot fail. -/
theorem override_eq (config : Config) (o : Overrides) :
    config.override o = do
      let unit ← taken o.limitKind readUnit config.limit.unit
      let count ← taken o.limitCount readSize config.limit.count
      return ⟨⟨unit, count⟩, config.options.override o⟩ := by
  unfold override
  cases o.limitKind <;> cases o.limitCount <;> rfl

/-- Replacing settings takes each of them from the replacement of its own. So no setting is changed
    on account of another one. -/
theorem override_ok_iff {config after : Config} {o : Overrides} :
    config.override o = .ok after ↔
      IsTaken o.limitKind (fun given unit => readUnit given = .ok unit) config.limit.unit
          after.limit.unit ∧
        IsTaken o.limitCount (fun given n => readSize given = .ok n) config.limit.count
          after.limit.count ∧
        after.options = config.options.override o := by
  rw [override_eq, ← taken_ok_iff, ← taken_ok_iff, bind_ok_iff]
  constructor
  · rintro ⟨unit, hunit, h⟩
    obtain ⟨count, hcount, h⟩ := bind_ok_iff.mp h
    obtain rfl := pure_ok_iff.mp h
    exact ⟨hunit, hcount, rfl⟩
  · rintro ⟨hunit, hcount, hoptions⟩
    refine ⟨_, hunit, bind_ok_iff.mpr ⟨_, hcount, ?_⟩⟩
    rw [← hoptions]
    rfl

/-- Replacing settings twice is replacing them once. This is how options of the command line are put
    in front of those of a file. -/
theorem override_override {config first : Config} {o : Overrides} (later : Overrides)
    (h : config.override o = .ok first) :
    first.override later = config.override (o.updated later) := by
  rw [override_ok_iff, ← taken_ok_iff, ← taken_ok_iff] at h
  obtain ⟨hunit, hcount, hoptions⟩ := h
  -- The first value of the limit is read again only where there is no later one.
  rw [override_eq, override_eq, taken_taken hunit, taken_taken hcount, hoptions,
    Options.override_override]
  rfl

end Config

end Backlog
