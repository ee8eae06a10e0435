import Backlog.Proofs.Selection.Removal

namespace Backlog

/-!
# Applying selections more than once

A selection may be stale: it comes from another ledger, or it has been applied already. What it takes
out is decided for each entry by itself, so that neither repetition nor order matters.

* `Selection.Drops` — what a selection says about an entry, whatever ledger it came from;
* `Ledger.isDropped`, `Ledger.entries_apply_result` — what is gone after a selection, or after the
  failure to find one;
* `Ledger.apply_idem_and_comm` — applying a selection again changes nothing, two selections may be
  applied in either order, and the entries that go are those that the selection drops.
-/

/-- A selection drops an entry of its rule if it stands for all of the rule, or if what it lists
    holds the file with just that count. -/
def Selection.Drops (s : Selection) (x : Ledger.Entry) : Prop :=
  x.rule = s.rule ∧
    ((s.extent = .whole ∧ s.eligible = none) ∨
      ∃ listed, s.listed = some listed ∧ (x.file, x.count) ∈ listed.entries)

/-- The test for an entry to be removed tells whether it is dropped. -/
theorem Selection.removes_iff_drops (s : Selection) (x : Ledger.Entry) :
    s.removes x.file x.rule x.count ↔ s.Drops x := by
  cases hlisted : s.listed with
  | some listed =>
    have hall : ¬(s.extent = .whole ∧ s.eligible = none) := by
      rintro ⟨hextent, heligible⟩
      simp [Selection.listed, hextent, heligible] at hlisted
    rw [removes_iff hlisted, mem_taken hlisted, Drops, or_iff_right hall, hlisted]
    simp
  | none =>
    -- Without a list, a whole rule goes everywhere and a slice nowhere.
    unfold Selection.listed at hlisted
    cases hextent : s.extent with
    | whole =>
      simp only [hextent] at hlisted
      simp [removes, covered, Drops, hextent, hlisted]
    | slice =>
      simp only [hextent] at hlisted
      simp [removes, covered, Drops, Selection.listed, hextent, hlisted, OrderedMap.lookup]

namespace Ledger

/-- Whether an entry is gone after a selection; a failure to select leaves all of them. -/
def isDropped (r : Option Selection) (x : Entry) : Bool :=
  r.any fun s => s.removes x.file x.rule x.count

/-- An entry is dropped by a result if this is a selection that drops it. -/
theorem isDropped_iff {r : Option Selection} {x : Entry} :
    isDropped r x ↔ ∃ s, r = some s ∧ s.Drops x := by
  rw [isDropped, Option.any_eq_true]
  exact exists_congr fun s => and_congr Iff.rfl (s.removes_iff_drops x)

/-- The entries that are not dropped stay, in their order. A result of nothing leaves all of
    them. -/
theorem entries_apply_result (ledger : Ledger) (r : Option Selection) :
    (ledger.apply r).entries = ledger.entries.filter (fun x => !isDropped r x) := by
  cases r with
  | none => exact (List.filter_eq_self.mpr fun _ _ => rfl).symm
  | some s => exact entries_apply ledger s

theorem mem_entries_apply {ledger : Ledger} {r : Option Selection} {x : Entry} :
    x ∈ (ledger.apply r).entries ↔ x ∈ ledger.entries ∧ ¬isDropped r x := by
  rw [entries_apply_result, List.mem_filter, Bool.not_eq_true', Bool.not_eq_true]

/-- A ledger that has nothing to drop stays as it is. So applying a result again does nothing. -/
theorem apply_eq_self {ledger : Ledger} {r : Option Selection}
    (h : ∀ x ∈ ledger.entries, ¬isDropped r x) : ledger.apply r = ledger := by
  apply entries_inj
  rw [entries_apply_result, List.filter_eq_self]
  intro x hx
  rw [Bool.not_eq_true', ← Bool.not_eq_true]
  exact h x hx

/-- The result of a selection may be applied again without effect, and the results of two
    selections in either order, with the same entries in the same places.  An entry goes if and
    only if the selection drops it, and nothing else moves. All of it follows from how the
    entries are filtered. -/
theorem apply_idem_and_comm (ledger : Ledger) (r₁ r₂ : Option Selection) :
    (ledger.apply r₁).apply r₁ = ledger.apply r₁ ∧
      (ledger.apply r₁).apply r₂ = (ledger.apply r₂).apply r₁ ∧
      (ledger.apply r₁).entries.Sublist ledger.entries ∧
      ∀ x ∈ ledger.entries,
        x ∉ (ledger.apply r₁).entries ↔ ∃ s, r₁ = some s ∧ s.Drops x := by
  refine ⟨?_, ?_, ?_, fun x hx => ?_⟩
  · exact apply_eq_self fun x hx => (mem_entries_apply.mp hx).2
  · apply entries_inj
    simp only [entries_apply_result, List.filter_filter]
    exact List.filter_congr fun x _ => Bool.and_comm _ _
  · rw [entries_apply_result]
    exact List.filter_sublist
  · rw [mem_entries_apply, not_and_not_right, ← isDropped_iff]
    exact ⟨fun h => h hx, fun h _ => h⟩

end Ledger

end Backlog
