import Backlog.Proofs.Selection.Run

namespace Backlog

/-!
# Runs that pay off whole rules

When slices are not allowed, a rule is paid off as a whole or not at all. Paying one off leaves the
eligible violations of the others as they are, so that the first ledger already tells what the run
will do.

* `Policy.payable` — the rules that fit the limit as a whole;
* `Policy.Outranks` — the order in which they are paid off;
* `Policy.Applies.payable_apply` — a selection pays off the first of them and leaves the rest;
* `Policy.PaysOff` — what a run does, read off from the ledger that it starts from;
* `Policy.whole_run_pays_off` — there is a run, and it does just that.
-/

namespace Policy

/-- The rules that can be paid off: they have eligible violations, and these fit the limit. -/
def payable (p : Policy) (kind : LimitKind) (ledger : Ledger) : List String :=
  ledger.ruleIds.filter (fun rule => (p.eligible ledger rule).entries ≠ [] ∧
    kind.measure (p.eligible ledger rule) ≤ p.config.limit.count)

/-- A rule is paid off before another one if it alone is fixable, or else if it is the larger one, or
    else if its id comes first. -/
def Outranks (p : Policy) (kind : LimitKind) (ledger : Ledger) (a b : String) : Prop :=
  (p.rules.isFixable a ∧ ¬p.rules.isFixable b) ∨
    (p.rules.isFixable a = p.rules.isFixable b ∧
      (kind.measure (p.eligible ledger b) < kind.measure (p.eligible ledger a) ∨
        (kind.measure (p.eligible ledger a) = kind.measure (p.eligible ledger b) ∧ a < b)))

/-- The selection of everything that is eligible of a rule. -/
def wholeOf (p : Policy) (ledger : Ledger) (rule : String) : Selection :=
  { rule := rule, extent := .whole, eligible := some (p.eligible ledger rule) }

/-- The entries that can be paid off. -/
def payableEntries (p : Policy) (kind : LimitKind) (ledger : Ledger) : List Ledger.Entry :=
  (p.eligibleEntries ledger).filter (fun x => x.rule ∈ p.payable kind ledger)

/-- What a run of whole rules does. -/
structure PaysOff (p : Policy) (kind : LimitKind) (ledger : Ledger) (selections : List Selection)
    (final : Ledger) : Prop where
  /-- Just the payable rules are selected, each of them once. -/
  rules_perm : (selections.map Selection.rule).Perm (p.payable kind ledger)
  /-- They are selected by rank. -/
  ordered : (selections.map Selection.rule).Pairwise (p.Outranks kind ledger)
  /-- Each of them is selected with all that is eligible of it at the start. -/
  whole : ∀ s ∈ selections, s = p.wholeOf ledger s.rule
  /-- Their eligible entries are gone, and the others are left as they were. -/
  entries_eq : final.entries = ledger.entries.filter (fun x => x ∉ p.payableEntries kind ledger)

variable {p : Policy} {kind : LimitKind} {e : Eligibility} {ledger final : Ledger} {s : Selection}
  {selections : List Selection}

theorem nodup_payable : (p.payable kind ledger).Nodup := (Ledger.nodup_ruleIds ledger).filter _

namespace Applies

/-! ### Payable rules and candidates -/

/-- A rule is payable if something of it is eligible and all of that fits. -/
theorem mem_payable (h : p.Applies kind e ledger) {rule : String} :
    rule ∈ p.payable kind ledger ↔
      (p.eligible ledger rule).entries ≠ [] ∧
        kind.measure (p.eligible ledger rule) ≤ p.config.limit.count := by
  rw [payable, List.mem_filter, decide_eq_true_eq, and_iff_right_iff_imp]
  rintro ⟨hne, _⟩
  -- An eligible violation is an entry of the ledger.
  obtain ⟨x, hx⟩ := List.exists_mem_of_ne_nil _ hne
  exact Ledger.mem_ruleIds.mpr ⟨_, (h.mem_eligible.mp hx).1, rfl⟩

/-- Of two rules, the one whose candidate has the lower rank comes first. So ranks, which are made
    for candidates, can be spoken of as an order of rules. -/
theorem outranks_iff (h : p.Applies kind e ledger) {a b : String} :
    p.Outranks kind ledger a b ↔
      (e.candidate kind a (ledger.countsOf a)).rank <
        (e.candidate kind b (ledger.countsOf b)).rank := by
  rw [← Candidate.precedes_iff_rank_lt, Candidate.precedes_iff, h.candidate_eq, h.candidate_eq,
    Outranks]

/-! ### One selection of a whole rule -/

/-- A selection of a whole rule is the whole of a payable one, the first of them by rank. The
    candidates that fit are those of the payable rules. -/
theorem first_of_select (h : p.Applies kind e ledger) (hs : p.select ledger = .ok (some s))
    (hextent : s.extent = .whole) :
    s = p.wholeOf ledger s.rule ∧ s.rule ∈ p.payable kind ledger ∧
      ∀ rule ∈ p.payable kind ledger, rule ≠ s.rule → p.Outranks kind ledger s.rule rule := by
  rw [h.select_eq, Except.ok.injEq] at hs
  rcases choose_cases hs with ⟨c, hc, hsize, hleast, rfl⟩ | ⟨_, _, _, _, _, rfl⟩
  · obtain ⟨rule, hne, rfl⟩ := h.mem_candidates.mp hc
    rw [h.candidate_eq] at hsize
    refine ⟨?_, h.mem_payable.mpr ⟨hne, hsize⟩, fun other hother hdiff => ?_⟩
    · rw [h.candidate_eq]
      rfl
    · obtain ⟨hother, hfits⟩ := h.mem_payable.mp hother
      have hle := hleast _ (h.mem_candidates.mpr ⟨other, hother, rfl⟩)
        (by rw [h.candidate_eq]; exact hfits)
      refine h.outranks_iff.mpr (lt_of_le_of_ne hle fun heq => hdiff ?_)
      exact (Candidate.rule_eq_of_rank_eq heq).symm
  · cases hextent

/-- Without slices a selection is of a whole rule. The other case of a choice is a slice. -/
theorem extent_of_select (h : p.Applies kind e ledger)
    (hwhole : p.config.options.allowPartial = false) (hs : p.select ledger = .ok (some s)) :
    s.extent = .whole := by
  rw [h.select_eq, Except.ok.injEq] at hs
  rcases choose_cases hs with ⟨c, _, _, _, rfl⟩ | ⟨hpartial, _⟩
  · rfl
  · rw [hwhole] at hpartial
    cases hpartial

theorem whole_of_select (h : p.Applies kind e ledger)
    (hwhole : p.config.options.allowPartial = false) (hs : p.select ledger = .ok (some s)) :
    s = p.wholeOf ledger s.rule ∧ s.rule ∈ p.payable kind ledger ∧
      ∀ rule ∈ p.payable kind ledger, rule ≠ s.rule → p.Outranks kind ledger s.rule rule :=
  h.first_of_select hs (h.extent_of_select hwhole hs)

/-- Where a rule is payable, a whole rule is selected. It need not be of that rule. -/
theorem exists_whole_of_payable (h : p.Applies kind e ledger) {rule : String}
    (hrule : rule ∈ p.payable kind ledger) :
    ∃ s, p.select ledger = .ok (some s) ∧ s.extent = .whole := by
  obtain ⟨hne, hsize⟩ := h.mem_payable.mp hrule
  have hfits : (e.candidate kind rule (ledger.countsOf rule)).size ≤ p.config.limit.count := by
    rw [h.candidate_eq]
    exact hsize
  obtain ⟨best, _, _, _, hchoice⟩ :=
    choose_of_fits _ _ (h.mem_candidates.mpr ⟨rule, hne, rfl⟩) hfits
  exact ⟨best.whole, h.select_eq.trans (congrArg _ hchoice), rfl⟩

/-- Without a selection no rule is payable. So a run ends when nothing is payable. -/
theorem payable_eq_nil (h : p.Applies kind e ledger) (hs : p.select ledger = .ok none) :
    p.payable kind ledger = [] := by
  refine List.eq_nil_iff_forall_not_mem.mpr fun rule hrule => ?_
  obtain ⟨s, hsome, _⟩ := h.exists_whole_of_payable hrule
  rw [hs] at hsome
  cases hsome

/-- The whole of a rule takes its eligible entries. Those of other files are left. -/
theorem mem_taken_wholeOf (h : p.Applies kind e ledger) {rule : String} {x : Ledger.Entry} :
    x ∈ (p.wholeOf ledger rule).taken ↔ x ∈ p.eligibleEntries ledger ∧ x.rule = rule := by
  have hlisted : (p.wholeOf ledger rule).listed = some (p.eligible ledger rule) := rfl
  rw [Selection.mem_taken hlisted, h.mem_eligibleEntries, and_comm]
  refine and_congr_left fun hrule => ?_
  rw [hrule]
  rfl

/-- After the whole of a rule was taken, nothing of it is eligible. So a rule is paid off once. -/
theorem eligible_apply_self (h : p.Applies kind e ledger) (hs : p.select ledger = .ok (some s))
    (hwhole : s = p.wholeOf ledger s.rule) :
    p.eligible (ledger.apply (some s)) s.rule = .empty := by
  refine OrderedMap.ext (List.eq_nil_iff_forall_not_mem.mpr fun x hx => ?_)
  obtain ⟨hmem, hnot⟩ := (h.mem_eligible_apply hs).mp hx
  rw [hwhole, h.mem_taken_wholeOf, h.mem_eligibleEntries] at hnot
  exact hnot ⟨hmem, rfl⟩

/-- A selection leaves what is eligible of the other rules. Entries of other rules are neither taken
    nor judged anew. -/
theorem eligible_apply_of_ne (h : p.Applies kind e ledger) (hs : p.select ledger = .ok (some s))
    {rule : String} (hne : rule ≠ s.rule) :
    p.eligible (ledger.apply (some s)) rule = p.eligible ledger rule := by
  have hcounts : (ledger.apply (some s)).countsOf rule = ledger.countsOf rule := by
    apply OrderedMap.ext
    rw [Ledger.entries_countsOf, Ledger.entries_countsOf, h.entries_apply hs, List.filter_filter]
    refine congrArg _ (List.filter_congr fun x _ => ?_)
    -- An entry of this rule was not taken.
    rw [Bool.and_eq_left_iff_imp, decide_eq_true_eq, decide_eq_true_eq]
    intro hrule hx
    obtain ⟨listed, hlisted, _⟩ := h.listed_of_select hs
    exact hne (hrule ▸ ((Selection.mem_taken hlisted).mp hx).1)
  rw [(h.apply hs).eligible_eq, h.eligible_eq, hcounts]

/-- A selection pays off its rule; the other payable rules stay payable, and no new ones come. This
    is the step of the induction along a run. -/
theorem payable_apply (h : p.Applies kind e ledger)
    (hwhole : p.config.options.allowPartial = false) (hs : p.select ledger = .ok (some s)) :
    (s.rule :: p.payable kind (ledger.apply (some s))).Perm (p.payable kind ledger) := by
  obtain ⟨hself, hrule, _⟩ := h.whole_of_select hwhole hs
  have hpaid : s.rule ∉ p.payable kind (ledger.apply (some s)) := by
    intro hmem
    apply ((h.apply hs).mem_payable.mp hmem).1
    rw [h.eligible_apply_self hs hself]
    rfl
  rw [List.perm_ext_iff_of_nodup (List.nodup_cons.mpr ⟨hpaid, nodup_payable⟩) nodup_payable]
  intro rule
  rw [List.mem_cons]
  by_cases heq : rule = s.rule
  · subst heq
    simp [hrule]
  · rw [(h.apply hs).mem_payable, h.eligible_apply_of_ne hs heq, ← h.mem_payable]
    simp [heq]

/-- The order of two other rules stays the same. For their candidates stay the same. -/
theorem outranks_apply (h : p.Applies kind e ledger) (hs : p.select ledger = .ok (some s))
    {a b : String} (ha : a ≠ s.rule) (hb : b ≠ s.rule) :
    p.Outranks kind (ledger.apply (some s)) a b ↔ p.Outranks kind ledger a b := by
  rw [Outranks, Outranks, h.eligible_apply_of_ne hs ha, h.eligible_apply_of_ne hs hb]

/-- The entries of payable rules are those that are taken now and those that are payable
    afterwards. -/
theorem mem_payableEntries_apply (h : p.Applies kind e ledger)
    (hwhole : p.config.options.allowPartial = false) (hs : p.select ledger = .ok (some s))
    (x : Ledger.Entry) :
    x ∈ p.payableEntries kind ledger ↔
      x ∈ s.taken ∨ x ∈ p.payableEntries kind (ledger.apply (some s)) := by
  obtain ⟨hself, _⟩ := h.whole_of_select hwhole hs
  have htaken : x ∈ s.taken ↔ x ∈ p.eligibleEntries ledger ∧ x.rule = s.rule := by
    rw [hself]
    exact h.mem_taken_wholeOf
  rw [payableEntries, payableEntries, List.mem_filter, List.mem_filter, decide_eq_true_eq,
    decide_eq_true_eq, h.eligibleEntries_apply hs, List.mem_filter, decide_eq_true_eq,
    ← (h.payable_apply hwhole hs).mem_iff, List.mem_cons, htaken]
  tauto

end Applies

/-! ### Whole runs -/

/-- A run without slices pays off the payable rules by rank. The induction is along the run, with
    what a step does to the payable rules and to their order. -/
theorem Run.pays_off (hrun : p.Run ledger selections final) (h : p.Applies kind e ledger)
    (hwhole : p.config.options.allowPartial = false) :
    p.PaysOff kind ledger selections final := by
  -- What is to be shown of the rest of the run speaks of what the first selection leaves; the step
  -- lemmas bring it back to the ledger before it.
  induction hrun with
  | stop hs =>
    have hnil := h.payable_eq_nil hs
    refine ⟨by simp [hnil], List.Pairwise.nil, fun s hs => absurd hs List.not_mem_nil, ?_⟩
    simp [payableEntries, hnil]
  | @step ledger s selections final hs rest ih =>
    obtain ⟨hself, hrule, hfirst⟩ := h.whole_of_select hwhole hs
    obtain ⟨hperm, hordered, hselections, hentries⟩ := ih (h.apply hs)
    have hrules := (hperm.cons s.rule).trans (h.payable_apply hwhole hs)
    -- The rules of the rest are payable from the start, and different from the first one.
    have hnodup := hrules.nodup_iff.mpr nodup_payable
    have hothers : ∀ rule ∈ selections.map Selection.rule,
        rule ∈ p.payable kind ledger ∧ rule ≠ s.rule := fun rule hmem =>
      ⟨hrules.subset (List.mem_cons_of_mem _ hmem),
        fun heq => (List.nodup_cons.mp hnodup).1 (heq ▸ hmem)⟩
    refine ⟨hrules, ?_, ?_, ?_⟩
    · rw [List.map_cons, List.pairwise_cons]
      refine ⟨fun rule hmem => hfirst rule (hothers rule hmem).1 (hothers rule hmem).2, ?_⟩
      exact hordered.imp_of_mem fun ha hb hab =>
        (h.outranks_apply hs (hothers _ ha).2 (hothers _ hb).2).mp hab
    · rw [List.forall_mem_cons]
      refine ⟨hself, fun t ht => ?_⟩
      have hne := (hothers t.rule (List.mem_map_of_mem ht)).2
      have ht' := hselections t ht
      rwa [wholeOf, h.eligible_apply_of_ne hs hne] at ht'
    · rw [hentries, h.entries_apply hs, List.filter_filter]
      refine List.filter_congr fun x _ => ?_
      rw [Bool.eq_iff_iff, Bool.and_eq_true, decide_eq_true_eq, decide_eq_true_eq,
        decide_eq_true_eq, h.mem_payableEntries_apply hwhole hs x]
      tauto

/-- If a selection from a ledger comes to a result at all, and slices are not allowed, then the
    ledger has one run, and this pays off the payable rules. The run exists because every selection
    leaves fewer entries. -/
theorem whole_run_pays_off {first : Option Selection} (hunit : p.config.limit.unit = .known kind)
    (hwhole : p.config.options.allowPartial = false) (hfirst : p.select ledger = .ok first) :
    ∃ selections final,
      (∀ others other, p.Run ledger others other ↔ others = selections ∧ other = final) ∧
      selections.length = (p.payable kind ledger).length ∧
      p.PaysOff kind ledger selections final := by
  obtain ⟨e, happlies⟩ := Applies.exists_of_select hunit hfirst
  obtain ⟨selections, final, hrun⟩ := happlies.exists_run
  have hpays := hrun.pays_off happlies hwhole
  refine ⟨selections, final, hrun.iff_eq, ?_, hpays⟩
  rw [← hpays.rules_perm.length_eq, List.length_map]

/-! ### Two examples

Two rules of the same size fit the limit, one after the other; what is built is left alone.  Globs
that stand for too many patterns stop the selection, even if there is nothing to select.
-/

/-- Five violations at a time, whole rules only, without what is built. -/
def wholePolicy : Policy :=
  { samplePolicy with
    config := ⟨⟨.known .violation, 5⟩, { samplePolicy.config.options with allowPartial := false }⟩ }

/-- A ledger of two rules that are paid off one after the other. -/
theorem sample_whole_run :
    ∃ selections final,
      (∀ others other, wholePolicy.Run sampleLedger others other ↔
        others = selections ∧ other = final) ∧
      selections.length = 2 ∧
      (selections.map Selection.rule).Pairwise (wholePolicy.Outranks .violation sampleLedger) ∧
      final.entries = [⟨"dist/b.js", "semi", 3⟩] := by
  have hfirst : wholePolicy.select sampleLedger = .ok (some
      { rule := "eqeqeq", extent := .whole, eligible := some (.ofList [("src/a.ts", 4)]) }) := by
    cbv
  obtain ⟨selections, final, hruns, hlength, hpays⟩ := whole_run_pays_off rfl rfl hfirst
  refine ⟨selections, final, hruns, hlength.trans ?_, hpays.ordered, hpays.entries_eq.trans ?_⟩
  · decide +kernel
  · decide +kernel

/-- A policy whose glob stands for two thousand patterns. -/
def overlargePolicy : Policy :=
  { samplePolicy with
    config := ⟨⟨.known .file, 1⟩, ⟨false, false, [], [], ["x\x7b1..2000\x7d"], [], none⟩⟩ }

/-- Where the first selection is refused there is no run. -/
theorem not_exists_whole_run :
    overlargePolicy.config.limit.validate = .ok .file ∧
      overlargePolicy.config.options.allowPartial = false ∧
      overlargePolicy.payable .file (.ofFiles .empty) = [] ∧
      ¬∃ selections final, overlargePolicy.Run (.ofFiles .empty) selections final := by
  have herror : overlargePolicy.select (.ofFiles .empty) =
      .error (.candidates (.filter (.trouble (.pattern ⟨1000⟩)))) := by
    cbv
  exact ⟨rfl, rfl, by decide, not_exists_run_of_error herror⟩

end Policy

end Backlog
