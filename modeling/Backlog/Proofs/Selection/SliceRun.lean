import Backlog.Proofs.Selection.Run

namespace Backlog

/-!
# Runs with slices

When slices are allowed, a rule that is too large is taken piece by piece, and what is left of it
may fit as a whole later on. Whichever way the pieces fall, a run takes every eligible entry, and
takes it once.

* `Policy.Fits` — no single entry is above the limit, so that there is always a slice;
* `Policy.Applies.eligibleEntries_eq_nil` — a run stops only when nothing eligible is left;
* `Policy.Run.taken_perm` — what the selections of a run take, all together;
* `Policy.slice_run_takes_all` — there is a run, and it takes all that is eligible.
-/

namespace Policy

/-- Every eligible entry fits the limit on its own. -/
def Fits (p : Policy) (kind : LimitKind) (ledger : Ledger) : Prop :=
  kind = .violation → ∀ x ∈ p.eligibleEntries ledger, x.count ≤ p.config.limit.count

variable {p : Policy} {kind : LimitKind} {e : Eligibility} {ledger final : Ledger} {s : Selection}
  {selections : List Selection}

namespace Applies

/-- Without a selection nothing is eligible. For the first file of the largest rule would fit. -/
theorem eligibleEntries_eq_nil (h : p.Applies kind e ledger)
    (hslices : p.config.options.allowPartial = true) (hfits : p.Fits kind ledger)
    (hs : p.select ledger = .ok none) : p.eligibleEntries ledger = [] := by
  rw [h.select_eq, Except.ok.injEq] at hs
  have hnone : e.candidates kind ledger = [] := by
    rcases (choose_none hs).2 hslices with hnil | ⟨c, hc, hslice⟩
    · exact hnil
    · -- the first violation of a candidate fits, so its slice cannot be empty
      obtain ⟨rule, hne, rfl⟩ := h.mem_candidates.mp (mem_of_largest hc)
      rw [h.candidate_eq] at hslice
      refine absurd hslice (fittingPrefix_ne_nil h.limit_pos hne fun hkind x hx => ?_)
      exact hfits hkind ⟨x.1, rule, x.2⟩ (h.mem_eligibleEntries.mpr hx)
  refine List.eq_nil_iff_forall_not_mem.mpr fun x hx => ?_
  have hne := List.ne_nil_of_mem (h.mem_eligibleEntries.mp hx)
  have hmem := h.mem_candidates.mpr ⟨x.rule, hne, rfl⟩
  rw [hnone] at hmem
  exact List.not_mem_nil hmem

/-- What is left after a selection still fits. What is left was there before. -/
theorem fits_apply (h : p.Applies kind e ledger) (hfits : p.Fits kind ledger)
    (hs : p.select ledger = .ok (some s)) : p.Fits kind (ledger.apply (some s)) := by
  intro hkind x hx
  rw [h.eligibleEntries_apply hs] at hx
  exact hfits hkind x (List.mem_filter.mp hx).1

end Applies

namespace Run

/-- A run has no more selections than there are eligible entries. Every selection takes one at
    least. -/
theorem length_le (hrun : p.Run ledger selections final) (h : p.Applies kind e ledger) :
    selections.length ≤ (p.eligibleEntries ledger).length := by
  induction hrun with
  | stop _ => exact Nat.zero_le _
  | step hs _ ih =>
    have hlt := h.length_eligibleEntries_apply_lt hs
    have hrest := ih (h.apply hs)
    rw [List.length_cons]
    omega

/-- A run with slices takes every eligible entry once. The induction is along the run; where it ends
    nothing is eligible. -/
theorem taken_perm (hrun : p.Run ledger selections final) (h : p.Applies kind e ledger)
    (hslices : p.config.options.allowPartial = true) (hfits : p.Fits kind ledger) :
    (selections.flatMap Selection.taken).Perm (p.eligibleEntries ledger) := by
  induction hrun with
  | stop hs =>
    rw [h.eligibleEntries_eq_nil hslices hfits hs]
    exact List.Perm.nil
  | step hs _ ih =>
    -- The rest of the run takes what the first selection leaves eligible.
    rw [List.flatMap_cons]
    exact ((ih (h.apply hs) (h.fits_apply hfits hs)).append_left _).trans
      (h.eligibleEntries_perm hs)

/-- A run leaves the entries that none of its selections takes. They are left in their order. -/
theorem entries_eq (hrun : p.Run ledger selections final) (h : p.Applies kind e ledger) :
    final.entries = ledger.entries.filter (fun x => x ∉ selections.flatMap Selection.taken) := by
  induction hrun with
  | stop _ => simp
  | step hs _ ih =>
    rw [ih (h.apply hs), h.entries_apply hs, List.filter_filter]
    refine List.filter_congr fun x _ => ?_
    rw [Bool.eq_iff_iff, Bool.and_eq_true, decide_eq_true_eq, decide_eq_true_eq, decide_eq_true_eq,
      List.flatMap_cons, List.mem_append]
    tauto

end Run

/-- If a selection from a ledger comes to a result at all, slices are allowed, and no eligible entry
    is above the limit, then the ledger has one run.  It takes every eligible entry, no file and
    rule twice, and leaves the other entries. The condition on counts says that a slice is never
    empty. -/
theorem slice_run_takes_all {first : Option Selection} (hunit : p.config.limit.unit = .known kind)
    (hslices : p.config.options.allowPartial = true) (hfirst : p.select ledger = .ok first)
    (hfits : kind = .violation → ∀ x ∈ p.eligibleEntries ledger, x.count ≤ p.config.limit.count) :
    ∃ selections final,
      (∀ others other, p.Run ledger others other ↔ others = selections ∧ other = final) ∧
      selections.length ≤ (p.eligibleEntries ledger).length ∧
      selections.Pairwise (fun s t => ∀ x ∈ s.taken, ∀ y ∈ t.taken, x.key ≠ y.key) ∧
      (∀ x, (∃ s ∈ selections, x ∈ s.taken) ↔ x ∈ p.eligibleEntries ledger) ∧
      final.entries = ledger.entries.filter (fun x => x ∉ p.eligibleEntries ledger) := by
  obtain ⟨e, happlies⟩ := Applies.exists_of_select hunit hfirst
  obtain ⟨selections, final, hrun⟩ := happlies.exists_run
  have hperm := hrun.taken_perm happlies hslices hfits
  refine ⟨selections, final, hrun.iff_eq, hrun.length_le happlies, ?_, fun x => ?_, ?_⟩
  · -- no key comes twice among the entries, so none is taken by two selections
    have hkeys : ((selections.flatMap Selection.taken).map Ledger.Entry.key).Nodup :=
      (hperm.map _).nodup_iff.mpr
        (ledger.nodup_keys_entries.sublist (List.filter_sublist.map _))
    rw [List.map_flatMap, List.nodup_flatMap] at hkeys
    refine hkeys.2.imp fun hdisjoint x hx y hy heq => ?_
    exact hdisjoint (List.mem_map_of_mem hx) (heq ▸ List.mem_map_of_mem hy)
  · rw [← hperm.mem_iff, List.mem_flatMap]
  · rw [hrun.entries_eq happlies]
    simp only [hperm.mem_iff]

/-! ### Two examples

One rule fits as a whole; the other one, first in the ledger, is cut into two pieces, the second of
which is what remains of it.  Globs that stand for too many patterns stop the selection again.
-/

/-- Four violations at a time, slices allowed, without one of the files. -/
def slicePolicy : Policy :=
  { samplePolicy with
    config := ⟨⟨.known .violation, 4⟩, ⟨false, true, [], [], ["src/c*"], [], none⟩⟩ }

/-- A ledger of which all eligible entries are taken in slices. -/
theorem sample_slice_run :
    ∃ selections final,
      (∀ others other, slicePolicy.Run sampleLedger others other ↔
        others = selections ∧ other = final) ∧
      selections.length ≤ 3 ∧
      (∀ x, (∃ s ∈ selections, x ∈ s.taken) ↔
        x ∈ [⟨"src/a.ts", "semi", 2⟩, ⟨"src/a.ts", "eqeqeq", 4⟩, ⟨"dist/b.js", "semi", 3⟩]) ∧
      final.entries = [⟨"src/c.ts", "semi", 2⟩] := by
  have hfirst : slicePolicy.select sampleLedger = .ok (some
      { rule := "eqeqeq", extent := .whole, eligible := some (.ofList [("src/a.ts", 4)]) }) := by
    cbv
  have heligible : slicePolicy.eligibleEntries sampleLedger =
      [⟨"src/a.ts", "semi", 2⟩, ⟨"src/a.ts", "eqeqeq", 4⟩, ⟨"dist/b.js", "semi", 3⟩] := by
    decide +kernel
  obtain ⟨selections, final, hruns, hlength, _, htaken, hentries⟩ :=
    slice_run_takes_all rfl rfl hfirst (fun _ => by rw [heligible]; decide)
  rw [heligible] at hlength htaken hentries
  exact ⟨selections, final, hruns, hlength, htaken, hentries.trans (by decide)⟩

/-- A policy whose glob stands for two thousand patterns. -/
def overlargeSlicePolicy : Policy :=
  { samplePolicy with
    config := ⟨⟨.known .file, 1⟩, ⟨false, true, [], [], [], ["x\x7b1..2000\x7d"], none⟩⟩ }

/-- Where the first selection is refused there is no run. -/
theorem not_exists_slice_run :
    overlargeSlicePolicy.config.limit.validate = .ok .file ∧
      overlargeSlicePolicy.config.options.allowPartial = true ∧
      overlargeSlicePolicy.eligibleEntries (.ofFiles .empty) = [] ∧
      ¬∃ selections final, overlargeSlicePolicy.Run (.ofFiles .empty) selections final := by
  have herror : overlargeSlicePolicy.select (.ofFiles .empty) =
      .error (.candidates (.filter (.trouble (.pattern ⟨1000⟩)))) := by
    cbv
  exact ⟨rfl, rfl, by decide, not_exists_run_of_error herror⟩

end Policy

end Backlog
