import Backlog.Graph.Reach

namespace Backlog

/-!
# Computations that may be refused

What it takes for a computation in `Except` to give a result.

* `bind_ok_iff`, `map_ok_iff`, `mapError_ok_iff` — by the parts it is made of; `bind_error_iff`,
  `mapError_error_iff` — where it is refused;
* `exists_mapM_ok_iff`, `mem_of_mapM_ok`, `mapM_congr` — for a list of computations;
  `mapM_error_iff` — such a list is refused by the first one that is;
* `filterFiles_ok_iff` — for the files that pass a test: the test has to give an answer for every
  one of them.
-/

variable {ε ε' α β : Type}

/-- Two steps give a result exactly if the first gives one from which the second does. Proofs about
    functions written with `do` take them apart with this lemma. -/
theorem bind_ok_iff {x : Except ε α} {next : α → Except ε β} {b : β} :
    (x >>= next) = .ok b ↔ ∃ a, x = .ok a ∧ next a = .ok b := by
  cases x with
  | error e =>
    constructor
    · intro h
      cases h
    · rintro ⟨_, h, _⟩
      cases h
  | ok a =>
    constructor
    · intro h
      exact ⟨a, rfl, h⟩
    · rintro ⟨_, h, hnext⟩
      cases h
      exact hnext

/-- Two steps are refused at once, or by the second after the first gave a result. -/
theorem bind_error_iff {x : Except ε α} {next : α → Except ε β} {cause : ε} :
    (x >>= next) = .error cause ↔ x = .error cause ∨ ∃ a, x = .ok a ∧ next a = .error cause := by
  cases x with
  | error e =>
    constructor
    · intro h
      cases h
      exact .inl rfl
    · rintro (h | ⟨_, h, _⟩)
      · cases h
        rfl
      · cases h
  | ok a =>
    constructor
    · intro h
      exact .inr ⟨a, rfl, h⟩
    · rintro (h | ⟨_, h, hnext⟩)
      · cases h
      · cases h
        exact hnext

theorem pure_ok_iff {a b : α} : (pure a : Except ε α) = .ok b ↔ b = a := by
  constructor
  · intro h
    cases h
    rfl
  · rintro rfl
    rfl

theorem map_ok_iff {x : Except ε α} {f : α → β} {b : β} :
    x.map f = .ok b ↔ ∃ a, x = .ok a ∧ b = f a := by
  cases x with
  | error e => simp [Except.map]
  | ok a => simp [Except.map, eq_comm]

/-- A result stays what it is when refusals are put into other words. -/
theorem mapError_ok (f : ε → ε') (a : α) : (Except.ok a).mapError f = .ok a := rfl

theorem mapError_error (f : ε → ε') (e : ε) :
    (Except.error e : Except ε α).mapError f = .error (f e) := rfl

/-- The wording of refusals decides nothing about results. -/
theorem mapError_ok_iff {x : Except ε α} {f : ε → ε'} {a : α} :
    x.mapError f = .ok a ↔ x = .ok a := by
  cases x with
  | error e =>
    constructor
    · intro h
      cases h
    · intro h
      cases h
  | ok b =>
    constructor
    · intro h
      cases h
      rfl
    · intro h
      cases h
      rfl

/-- A refusal in other words comes from one in the words before. -/
theorem mapError_error_iff {x : Except ε α} {f : ε → ε'} {cause : ε'} :
    x.mapError f = .error cause ↔ ∃ e, x = .error e ∧ cause = f e := by
  cases x with
  | error e => simp [mapError_error, eq_comm]
  | ok a => simp [mapError_ok]

/-! ### Filtering by a test that may be refused -/

/-- Whether a test answers yes; a refusal is no yes. -/
def saysYes : Except ε Bool → Bool
  | .ok b => b
  | .error _ => false

/-! ### Lists of computations -/

/-- A list of computations gives results if each of them does. Which results they are is another
    question, for `mem_of_mapM_ok`. -/
theorem exists_mapM_ok_iff {f : α → Except ε β} {items : List α} :
    (∃ results, items.mapM f = .ok results) ↔ ∀ a ∈ items, ∃ b, f a = .ok b := by
  induction items with
  | nil => simp [pure_ok_iff]
  | cons a items ih =>
    rw [List.forall_mem_cons, ← ih]
    simp only [List.mapM_cons, bind_ok_iff, pure_ok_iff]
    constructor
    · rintro ⟨_, b, hb, results, hresults, _⟩
      exact ⟨⟨b, hb⟩, results, hresults⟩
    · rintro ⟨⟨b, hb⟩, results, hresults⟩
      exact ⟨_, b, hb, results, hresults, rfl⟩

/-- The results of a list of computations are those of its members. The order is that of the
    members, but only membership is told here. -/
theorem mem_of_mapM_ok {f : α → Except ε β} {items : List α} {results : List β}
    (h : items.mapM f = .ok results) (b : β) : b ∈ results ↔ ∃ a ∈ items, f a = .ok b := by
  induction items generalizing results with
  | nil =>
    obtain rfl := pure_ok_iff.mp h
    simp
  | cons a items ih =>
    rw [List.mapM_cons] at h
    obtain ⟨c, hc, h⟩ := bind_ok_iff.mp h
    obtain ⟨rest, hrest, h⟩ := bind_ok_iff.mp h
    obtain rfl := pure_ok_iff.mp h
    simp [ih hrest, hc, eq_comm]

/-- An item of a list with none but such items before it. -/
def IsBehind (p : α → Prop) (items : List α) (a : α) : Prop :=
  ∃ before after, items = before ++ a :: after ∧ ∀ b ∈ before, p b

theorem not_isBehind_nil {p : α → Prop} {a : α} : ¬IsBehind p [] a := by
  rintro ⟨before, after, heq, _⟩
  cases before <;> cases heq

/-- Something comes up in a list if it is the first, or if the first is passed and it comes up in
    the rest. -/
theorem isBehind_cons {p : α → Prop} {items : List α} {a b : α} :
    IsBehind p (a :: items) b ↔ b = a ∨ (p a ∧ IsBehind p items b) := by
  constructor
  · rintro ⟨before, after, heq, hbefore⟩
    cases before with
    | nil => exact .inl (List.cons.inj heq).1.symm
    | cons first before =>
      obtain ⟨rfl, rfl⟩ := List.cons.inj heq
      obtain ⟨hfirst, hbefore⟩ := List.forall_mem_cons.mp hbefore
      exact .inr ⟨hfirst, before, after, rfl, hbefore⟩
  · rintro (rfl | ⟨hfirst, before, after, rfl, hbefore⟩)
    · exact ⟨[], items, rfl, nofun⟩
    · exact ⟨a :: before, after, rfl, List.forall_mem_cons.mpr ⟨hfirst, hbefore⟩⟩

/-- Nothing is before the first. It comes up whatever is passed. -/
theorem isBehind_head {p : α → Prop} {items : List α} {a : α} : IsBehind p (a :: items) a :=
  isBehind_cons.mpr (.inl rfl)

theorem IsBehind.mem {p : α → Prop} {items : List α} {a : α} (h : IsBehind p items a) :
    a ∈ items := by
  obtain ⟨before, after, rfl, _⟩ := h
  simp

/-- A list of computations is refused by the first one that is. All before it gave results; what the
    ones behind it would do is never asked. -/
theorem mapM_error_iff {f : α → Except ε β} {items : List α} {cause : ε} :
    items.mapM f = .error cause ↔
      ∃ a, IsBehind (fun b => ∃ result, f b = .ok result) items a ∧ f a = .error cause := by
  induction items with
  | nil => simp [not_isBehind_nil, pure, Except.pure]
  | cons a items ih =>
    have hpure : ∀ results : List β, (pure results : Except ε (List β)) ≠ .error cause := nofun
    simp only [List.mapM_cons, bind_error_iff, hpure, and_false, exists_false, or_false, ih,
      isBehind_cons]
    constructor
    · rintro (ha | ⟨result, ha, b, hb, hcause⟩)
      · exact ⟨a, .inl rfl, ha⟩
      · exact ⟨b, .inr ⟨⟨result, ha⟩, hb⟩, hcause⟩
    · rintro ⟨b, rfl | ⟨⟨result, ha⟩, hb⟩, hcause⟩
      · exact .inl hcause
      · exact .inr ⟨result, ha, b, hb, hcause⟩

/-- Computations that agree on the members of a list give the same for the list. -/
theorem mapM_congr {f g : α → Except ε β} {items : List α} (h : ∀ a ∈ items, f a = g a) :
    items.mapM f = items.mapM g := by
  induction items with
  | nil => rfl
  | cons a items ih =>
    obtain ⟨ha, hitems⟩ := List.forall_mem_cons.mp h
    rw [List.mapM_cons, List.mapM_cons, ha, ih hitems]

/-- Files are filtered exactly if the test gives an answer for each of them. Those remain for which
    it says yes, in their order. -/
theorem filterFiles_ok_iff {test : String → Except ε Bool} {files kept : List String} :
    filterFiles test files = .ok kept ↔
      (∀ f ∈ files, ∃ b, test f = .ok b) ∧ kept = files.filter (fun f => saysYes (test f)) := by
  induction files generalizing kept with
  | nil => simp [filterFiles, eq_comm]
  | cons f rest ih =>
    simp only [filterFiles, bind_ok_iff, pure_ok_iff, ih, List.forall_mem_cons]
    constructor
    · rintro ⟨b, hb, _, ⟨hrest, rfl⟩, rfl⟩
      refine ⟨⟨⟨b, hb⟩, hrest⟩, ?_⟩
      cases b <;> simp [saysYes, hb]
    · rintro ⟨⟨⟨b, hb⟩, hrest⟩, rfl⟩
      refine ⟨b, hb, _, ⟨hrest, rfl⟩, ?_⟩
      cases b <;> simp [saysYes, hb]

/-- The same refusals under other names filter the same files. So a test may be brought to the
    refusals of its caller before or after the filtering. -/
theorem mapError_filterFiles (test : String → Except ε Bool) (f : ε → ε') (files : List String) :
    (filterFiles test files).mapError f = filterFiles (fun x => (test x).mapError f) files := by
  induction files with
  | nil => rfl
  | cons x rest ih =>
    rw [filterFiles, filterFiles, ← ih]
    cases test x with
    | error e => rfl
    | ok b => cases filterFiles test rest <;> rfl

theorem filterFiles_yes (files : List String) :
    filterFiles (fun _ => (.ok true : Except ε Bool)) files = .ok files := by
  rw [filterFiles_ok_iff]
  exact ⟨fun _ _ => ⟨true, rfl⟩, (List.filter_eq_self.mpr fun _ _ => rfl).symm⟩

end Backlog
