import Backlog.Proofs.Selection.WholeRun

namespace Backlog

/-!
# Ledgers in another order

A ledger keeps its files and their rules in the order in which they were given, and the candidates
of a selection, their violations and the search for the best of them all follow that order. Which
whole rule is selected does not:

* `LimitKind.measure_perm` — the size of a rule's violations is the same in any order;
* `Policy.Applies.of_perm` — a policy applies to a ledger if it applies to it in another order;
* `Policy.Applies.mem_payable_of_perm`, `Policy.Applies.outranks_of_perm` — the same rules are
  payable, and they have the same ranks;
* `Policy.SelectsWhole` — whether a selection takes a whole rule;
* `Policy.whole_select_of_sameAs` — ledgers that are equal regardless of order have the same whole
  rule selected.
-/

/-- The order of some violations does not change their size. It is a number of files, or a sum. -/
theorem LimitKind.measure_perm (kind : LimitKind) {x y : Counts}
    (h : x.entries.Perm y.entries) : kind.measure x = kind.measure y := by
  cases kind with
  | file =>
    show (x.entries.length : Int) = y.entries.length
    rw [h.length_eq]
  | violation => exact (h.map Prod.snd).foldr_eq 0

namespace Policy

/-- A selection takes a whole rule. -/
def SelectsWhole (p : Policy) (ledger : Ledger) : Prop :=
  ∃ s, p.select ledger = .ok (some s) ∧ s.extent = .whole

variable {p : Policy} {kind : LimitKind} {e : Eligibility} {a b : Ledger} {s t : Selection}

namespace Applies

/-- A policy that applies to a ledger applies to it in any order. -/
theorem of_perm (h : p.Applies kind e a) (hperm : a.entries.Perm b.entries) :
    p.Applies kind e b :=
  h.mono fun _ hx => hperm.symm.subset hx

/-! ### Payable rules and their ranks -/

/-- What is eligible of a rule is the same up to the order. The order is that of the entries. -/
theorem eligible_perm (h : p.Applies kind e a) (hperm : a.entries.Perm b.entries)
    (rule : String) : (p.eligible a rule).entries.Perm (p.eligible b rule).entries := by
  rw [h.eligible_eq, (h.of_perm hperm).eligible_eq]
  exact (Ledger.countsOf_perm hperm rule).filter _

theorem measure_eligible (h : p.Applies kind e a) (hperm : a.entries.Perm b.entries)
    (rule : String) : kind.measure (p.eligible a rule) = kind.measure (p.eligible b rule) :=
  kind.measure_perm (h.eligible_perm hperm rule)

theorem mem_payable_of_perm (h : p.Applies kind e a) (hperm : a.entries.Perm b.entries)
    {rule : String} : rule ∈ p.payable kind a ↔ rule ∈ p.payable kind b := by
  rw [h.mem_payable, (h.of_perm hperm).mem_payable, h.measure_eligible hperm rule]
  have hnil : (p.eligible a rule).entries = [] ↔ (p.eligible b rule).entries = [] := by
    rw [← List.length_eq_zero_iff, (h.eligible_perm hperm rule).length_eq,
      List.length_eq_zero_iff]
  exact and_congr_left fun _ => not_congr hnil

theorem outranks_of_perm (h : p.Applies kind e a) (hperm : a.entries.Perm b.entries)
    {first second : String} :
    p.Outranks kind a first second ↔ p.Outranks kind b first second := by
  rw [Outranks, Outranks, h.measure_eligible hperm first, h.measure_eligible hperm second]

/-! ### The whole rule that is selected -/

/-- Of two ledgers with the same entries the same whole rule is selected. It is the first by rank
    among the rules that fit. -/
theorem rule_eq_of_perm (h : p.Applies kind e a) (hperm : a.entries.Perm b.entries)
    (hs : p.select a = .ok (some s)) (hswhole : s.extent = .whole)
    (ht : p.select b = .ok (some t)) (htwhole : t.extent = .whole) : t.rule = s.rule := by
  obtain ⟨_, hsrule, hsfirst⟩ := h.first_of_select hs hswhole
  obtain ⟨_, htrule, htfirst⟩ := (h.of_perm hperm).first_of_select ht htwhole
  -- Otherwise each of the two rules would have a lower rank than the other.
  by_contra hne
  have hst : p.Outranks kind a s.rule t.rule :=
    hsfirst _ ((h.mem_payable_of_perm hperm).mpr htrule) hne
  have hts : p.Outranks kind b t.rule s.rule :=
    htfirst _ ((h.mem_payable_of_perm hperm).mp hsrule) (Ne.symm hne)
  rw [← h.outranks_of_perm hperm, h.outranks_iff] at hts
  rw [h.outranks_iff] at hst
  exact lt_asymm hst hts

/-- The whole of a rule in two ledgers with the same entries. Their order may differ, as the
    ledgers' do. -/
theorem eligible_sameEntries (h : p.Applies kind e a) (hperm : a.entries.Perm b.entries)
    (hs : p.select a = .ok (some s)) (hswhole : s.extent = .whole)
    (ht : p.select b = .ok (some t)) (htwhole : t.extent = .whole) :
    ∃ x y, s.eligible = some x ∧ t.eligible = some y ∧ x.sameEntries y := by
  have hself := (h.first_of_select hs hswhole).1
  have htself := ((h.of_perm hperm).first_of_select ht htwhole).1
  refine ⟨p.eligible a s.rule, p.eligible b t.rule, congrArg Selection.eligible hself,
    congrArg Selection.eligible htself, ?_⟩
  rw [OrderedMap.sameEntries_iff_perm, h.rule_eq_of_perm hperm hs hswhole ht htwhole]
  exact h.eligible_perm hperm s.rule

/-- Without slices there is a whole rule to take, or nothing is selected. For a selection would be
    of a whole rule. -/
theorem select_eq_none (h : p.Applies kind e a) (hpartial : p.config.options.allowPartial = false)
    (hnot : ¬p.SelectsWhole a) : p.select a = .ok none := by
  rw [h.select_eq]
  cases hchoice : choose (e.candidates kind a) kind p.config.limit.count
      p.config.options.allowPartial with
  | none => rfl
  | some s =>
    have hs : p.select a = .ok (some s) := by rw [h.select_eq, hchoice]
    exact absurd ⟨s, hs, h.extent_of_select hpartial hs⟩ hnot

end Applies

/-- A policy that comes to a result for a ledger applies to it in any order. So results exist for
    both or for neither. -/
theorem exists_applies_of_perm (hperm : a.entries.Perm b.entries)
    (hresult : ∃ r, p.select a = .ok r) :
    ∃ kind e, p.Applies kind e a ∧ p.Applies kind e b := by
  obtain ⟨r, hr⟩ := hresult
  obtain ⟨kind, e, happlies, _⟩ := select_ok_iff.mp hr
  exact ⟨kind, e, happlies, happlies.of_perm hperm⟩

/-- Whether a whole rule is selected does not depend on the order. -/
theorem SelectsWhole.of_perm (hwhole : p.SelectsWhole a) (hperm : a.entries.Perm b.entries) :
    p.SelectsWhole b := by
  obtain ⟨s, hs, hextent⟩ := hwhole
  obtain ⟨kind, e, ha, hb⟩ := exists_applies_of_perm hperm ⟨_, hs⟩
  have hrule : s.rule ∈ p.payable kind a := (ha.first_of_select hs hextent).2.1
  exact hb.exists_whole_of_payable ((ha.mem_payable_of_perm hperm).mp hrule)

/-- If two ledgers hold the same counts, whatever the order of their files and rules, then a
    selection takes a whole rule of one of them exactly if it does so of the other; it is the same
    rule then, with the same eligible violations.  It comes to a result for one of them exactly if it
    does for the other; and if there is no whole rule to take, and slices are not allowed, then
    nothing is selected from either of them. -/
theorem whole_select_of_sameAs (p : Policy) (h : a.sameAs b) :
    (p.SelectsWhole a ↔ p.SelectsWhole b) ∧
      (∀ s t, p.select a = .ok (some s) → s.extent = .whole → p.select b = .ok (some t) →
        t.extent = .whole ∧ t.rule = s.rule ∧
          ∃ x y, s.eligible = some x ∧ t.eligible = some y ∧ x.sameEntries y) ∧
      ((∃ r, p.select a = .ok r) ↔ ∃ r, p.select b = .ok r) ∧
      (p.config.options.allowPartial = false → (∃ r, p.select a = .ok r) → ¬p.SelectsWhole a →
        p.select a = .ok none ∧ p.select b = .ok none) := by
  have hperm : a.entries.Perm b.entries := Ledger.entries_perm h
  have hiff : p.SelectsWhole a ↔ p.SelectsWhole b :=
    ⟨fun hwhole => hwhole.of_perm hperm, fun hwhole => hwhole.of_perm hperm.symm⟩
  refine ⟨hiff, ?_, ?_, ?_⟩
  · intro s t hs hswhole ht
    obtain ⟨kind, e, happlies, _⟩ := exists_applies_of_perm hperm ⟨_, hs⟩
    obtain ⟨t', ht', htwhole⟩ := hiff.mp ⟨s, hs, hswhole⟩
    obtain rfl : t = t' := Option.some.inj (Except.ok.inj (ht.symm.trans ht'))
    exact ⟨htwhole, happlies.rule_eq_of_perm hperm hs hswhole ht htwhole,
      happlies.eligible_sameEntries hperm hs hswhole ht htwhole⟩
  · constructor
    · intro hresult
      obtain ⟨_, _, _, hb⟩ := exists_applies_of_perm hperm hresult
      exact ⟨_, hb.select_eq⟩
    · intro hresult
      obtain ⟨_, _, _, ha⟩ := exists_applies_of_perm hperm.symm hresult
      exact ⟨_, ha.select_eq⟩
  · intro hpartial hresult hnot
    obtain ⟨_, _, ha, hb⟩ := exists_applies_of_perm hperm hresult
    exact ⟨ha.select_eq_none hpartial hnot,
      hb.select_eq_none hpartial fun hwhole => hnot (hiff.mpr hwhole)⟩

/-! ### Two examples

Two rules of the same size fit the limit, and the one that comes second in the ledger goes first by
name; it is selected from the ledger in another order as well.  Globs that stand for too many
patterns leave no result.
-/

/-- The sample ledger, with its files and the rules of one of them in another order. -/
def reorderedLedger : Ledger :=
  .ofFiles (.ofList [("src/c.ts", .ofList [("semi", 2)]),
    ("src/a.ts", .ofList [("eqeqeq", 4), ("semi", 2)]), ("dist/b.js", .ofList [("semi", 3)])])

theorem whole_select_reorderedLedger :
    sampleLedger.sameAs reorderedLedger ∧
      ∃ t, wholePolicy.select reorderedLedger = .ok (some t) ∧ t.extent = .whole ∧
        t.rule = "eqeqeq" := by
  have hsame : sampleLedger.sameAs reorderedLedger := by decide
  have hs : wholePolicy.select sampleLedger = .ok (some
      { rule := "eqeqeq", extent := .whole, eligible := some (.ofList [("src/a.ts", 4)]) }) := by
    cbv
  obtain ⟨hiff, hrule, _⟩ := whole_select_of_sameAs wholePolicy hsame
  obtain ⟨t, ht, htwhole⟩ := hiff.mp ⟨_, hs, rfl⟩
  exact ⟨hsame, t, ht, htwhole, (hrule _ t hs rfl ht).2.1⟩

/-- Without a whole rule to select, a selection may still be refused, as it is for globs with too
    many patterns. -/
theorem not_select_none_of_overlarge :
    (Ledger.ofFiles .empty).sameAs (.ofFiles .empty) ∧
      overlargePolicy.config.limit.validate = .ok .file ∧
      overlargePolicy.config.options.allowPartial = false ∧
      ¬overlargePolicy.SelectsWhole (.ofFiles .empty) ∧
      overlargePolicy.select (.ofFiles .empty) ≠ .ok none := by
  have herror : overlargePolicy.select (.ofFiles .empty) =
      .error (.candidates (.filter (.trouble (.pattern ⟨1000⟩)))) := by
    cbv
  refine ⟨by decide, rfl, rfl, ?_, ?_⟩
  · rintro ⟨s, hs, _⟩
    rw [herror] at hs
    cases hs
  · intro hnone
    rw [herror] at hnone
    cases hnone

end Policy

end Backlog
