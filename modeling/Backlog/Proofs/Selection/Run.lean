import Backlog.Proofs.Selection.Removal

namespace Backlog

/-!
# Runs of selections

Working off a backlog: select, apply, and select again from what is left, until there is nothing
more to select.

* `Policy.Run` — the relation between a ledger, the selections made from it and the ledger left;
* `Policy.Run.unique` — a ledger has at most one run;
* `Policy.Applies.exists_run` — it has one if the policy applies to it, since every selection takes
  an entry out;
* `Policy.Applies.mem_eligible_apply`, `Policy.Applies.eligibleEntries_apply` — what stays eligible
  after a selection: everything that was not taken.
-/

namespace Policy

/-- Selections made one after the other, each from what the earlier ones left, until there is
    none. -/
inductive Run (p : Policy) : Ledger → List Selection → Ledger → Prop where
  | stop {ledger : Ledger} (h : p.select ledger = .ok none) : Run p ledger [] ledger
  | step {ledger : Ledger} {s : Selection} {selections : List Selection} {final : Ledger}
      (h : p.select ledger = .ok (some s)) (rest : Run p (ledger.apply (some s)) selections final) :
      Run p ledger (s :: selections) final

variable {p : Policy} {kind : LimitKind} {e : Eligibility} {ledger final : Ledger} {s : Selection}
  {selections : List Selection}

/-- A ledger has at most one run. Each selection is the result of a function of the ledger. -/
theorem Run.unique {others : List Selection} {other : Ledger} (h : p.Run ledger selections final)
    (h' : p.Run ledger others other) : others = selections ∧ other = final := by
  -- Both runs make the same selection first, or none.
  induction h generalizing others other with
  | stop hnone =>
    cases h' with
    | stop _ => exact ⟨rfl, rfl⟩
    | step hsome _ =>
      rw [hnone] at hsome
      cases hsome
  | step hsome _ ih =>
    cases h' with
    | stop hnone =>
      rw [hsome] at hnone
      cases hnone
    | step hsome' rest' =>
      rw [hsome] at hsome'
      cases hsome'
      obtain ⟨rfl, rfl⟩ := ih rest'
      exact ⟨rfl, rfl⟩

/-- Without a result of the first selection there is no run. A run ends with a selection of nothing,
    which is a result. -/
theorem not_exists_run_of_error {cause : SelectError} (h : p.select ledger = .error cause) :
    ¬∃ selections final, p.Run ledger selections final := by
  rintro ⟨selections, final, hrun⟩
  cases hrun with
  | stop hnone =>
    rw [h] at hnone
    cases hnone
  | step hsome _ =>
    rw [h] at hsome
    cases hsome

namespace Applies

/-! ### One step of a run -/

theorem taken_ne_nil (h : p.Applies kind e ledger) (hs : p.select ledger = .ok (some s)) :
    s.taken ≠ [] := by
  obtain ⟨listed, hlisted, hne, _, _⟩ := h.listed_of_select hs
  rw [Selection.taken_eq hlisted]
  exact fun hnil => hne (List.map_eq_nil_iff.mp hnil)

theorem entries_apply (h : p.Applies kind e ledger) (hs : p.select ledger = .ok (some s)) :
    (ledger.apply (some s)).entries = ledger.entries.filter (fun x => x ∉ s.taken) := by
  obtain ⟨listed, hlisted, _⟩ := h.listed_of_select hs
  exact Ledger.entries_apply_of_listed hlisted ledger

/-- The policy applies to what a selection leaves. So a run that has begun comes to an end. -/
theorem apply (h : p.Applies kind e ledger) (hs : p.select ledger = .ok (some s)) :
    p.Applies kind e (ledger.apply (some s)) := by
  refine h.mono fun x hx => ?_
  rw [h.entries_apply hs] at hx
  exact (List.mem_filter.mp hx).1

/-- What was eligible and not taken stays eligible, and nothing becomes so. Being eligible is a
    matter of the entry alone. -/
theorem mem_eligible_apply (h : p.Applies kind e ledger) (hs : p.select ledger = .ok (some s))
    {rule : String} {x : String × Int} :
    x ∈ (p.eligible (ledger.apply (some s)) rule).entries ↔
      x ∈ (p.eligible ledger rule).entries ∧ (⟨x.1, rule, x.2⟩ : Ledger.Entry) ∉ s.taken := by
  rw [(h.apply hs).mem_eligible, h.mem_eligible, h.entries_apply hs, List.mem_filter,
    decide_eq_true_eq]
  tauto

/-- The eligible entries that are left are those that are not taken. -/
theorem eligibleEntries_apply (h : p.Applies kind e ledger)
    (hs : p.select ledger = .ok (some s)) :
    p.eligibleEntries (ledger.apply (some s)) =
      (p.eligibleEntries ledger).filter (fun x => x ∉ s.taken) := by
  rw [(h.apply hs).eligibleEntries_eq, h.eligibleEntries_eq, h.entries_apply hs,
    List.filter_filter, List.filter_filter]
  exact List.filter_congr fun x _ => Bool.and_comm _ _

/-- The eligible entries are those that a selection takes and those that stay eligible. So all of
    them are accounted for. -/
theorem eligibleEntries_perm (h : p.Applies kind e ledger)
    (hs : p.select ledger = .ok (some s)) :
    (s.taken ++ p.eligibleEntries (ledger.apply (some s))).Perm (p.eligibleEntries ledger) := by
  -- A selection takes a part of the eligible entries; the rest is what stays eligible.
  have htaken := filter_mem_of_sublist (h.taken_sublist hs)
    (ledger.nodup_entries.sublist List.filter_sublist)
  rw [h.eligibleEntries_apply hs]
  have hsplit := List.filter_append_perm (fun x => decide (x ∈ s.taken)) (p.eligibleEntries ledger)
  rw [htaken] at hsplit
  simpa using hsplit

/-! ### Every run ends -/

/-- A selection leaves fewer eligible entries. This is why there is a run, and it bounds its
    length. -/
theorem length_eligibleEntries_apply_lt (h : p.Applies kind e ledger)
    (hs : p.select ledger = .ok (some s)) :
    (p.eligibleEntries (ledger.apply (some s))).length < (p.eligibleEntries ledger).length := by
  have hlen := (h.eligibleEntries_perm hs).length_eq
  have hpos := List.length_pos_iff.mpr (h.taken_ne_nil hs)
  rw [List.length_append] at hlen
  omega

/-- A selection leaves fewer entries. So a selection that is applied is not found again. -/
theorem length_entries_apply_lt (h : p.Applies kind e ledger)
    (hs : p.select ledger = .ok (some s)) :
    (ledger.apply (some s)).entries.length < ledger.entries.length := by
  rw [h.entries_apply hs]
  obtain ⟨x, hx⟩ := List.exists_mem_of_ne_nil _ (h.taken_ne_nil hs)
  have hmem := List.mem_of_mem_filter ((h.taken_sublist hs).subset hx)
  exact List.length_filter_lt_length_iff_exists.mpr ⟨x, hmem, by simpa using hx⟩

/-- A ledger to which the policy applies has a run. The induction is on the number of eligible
    entries. -/
theorem exists_run (h : p.Applies kind e ledger) :
    ∃ selections final, p.Run ledger selections final := by
  -- The eligible entries become fewer with each selection.
  induction hn : (p.eligibleEntries ledger).length using Nat.strongRecOn generalizing ledger with
  | ind n ih =>
    have hselect := h.select_eq
    cases hr : choose (e.candidates kind ledger) kind p.config.limit.count
        p.config.options.allowPartial with
    | none =>
      rw [hr] at hselect
      exact ⟨[], ledger, .stop hselect⟩
    | some s =>
      rw [hr] at hselect
      have hlt := h.length_eligibleEntries_apply_lt hselect
      obtain ⟨selections, final, hrun⟩ := ih _ (hn ▸ hlt) (h.apply hselect) rfl
      exact ⟨s :: selections, final, .step hselect hrun⟩

end Applies

/-- The selections of a run, and the ledger that it leaves, are determined by the ledger that it
    starts from; so what holds of one run holds of every run. It is the form in which the results
    below are stated. -/
theorem Run.iff_eq (h : p.Run ledger selections final) (others : List Selection) (other : Ledger) :
    p.Run ledger others other ↔ others = selections ∧ other = final := by
  constructor
  · exact h.unique
  · rintro ⟨rfl, rfl⟩
    exact h

end Policy

end Backlog
