import Backlog.Proofs.Selection.Policy
import Mathlib

namespace Backlog

/-!
# What a selection takes out of a ledger

What a selection removes is decided by a test on single entries, with a look at the count. That it
comes to just the violations which the selection lists needs two facts: that these are entries of
the ledger, and that no file has two entries for a rule.

* `Selection.listed`, `Selection.taken` — the violations that a selection lists, and the entries
  that they stand for;
* `Policy.Applies.listed_of_select` — a selection lists something; it lists eligible violations only,
  and no more than the limit allows;
* `Policy.apply_select_removes_listed` — applying it takes out just the entries that it lists.
-/

/-- The violations that a selection lists: those of the whole rule, or those of the slice. -/
def Selection.listed (s : Selection) : Option Counts :=
  match s.extent with
  | .whole => s.eligible
  | .slice => s.violations

/-- The entries that a selection lists. -/
def Selection.taken (s : Selection) : List Ledger.Entry :=
  (s.listed.getD .empty).entries.map (fun x => ⟨x.1, s.rule, x.2⟩)

namespace Selection

variable {s : Selection} {listed : Counts}

theorem taken_eq (h : s.listed = some listed) :
    s.taken = listed.entries.map (fun x => ⟨x.1, s.rule, x.2⟩) := by
  rw [taken, h, Option.getD_some]

/-- An entry is taken if it is for the rule and is listed. -/
theorem mem_taken (h : s.listed = some listed) {x : Ledger.Entry} :
    x ∈ s.taken ↔ x.rule = s.rule ∧ (x.file, x.count) ∈ listed.entries := by
  rw [taken_eq h, List.mem_map]
  constructor
  · rintro ⟨y, hy, rfl⟩
    exact ⟨rfl, hy⟩
  · rintro ⟨hrule, hmem⟩
    exact ⟨(x.file, x.count), hmem, by rw [← hrule]⟩

/-- A selection that lists its violations removes the entries for them. The count has to agree as
    well. -/
theorem removes_iff (h : s.listed = some listed) (x : Ledger.Entry) :
    s.removes x.file x.rule x.count ↔ x ∈ s.taken := by
  have hcovered : s.covered = some listed := by
    unfold Selection.listed at h
    unfold covered
    cases hextent : s.extent with
    | whole => simpa [hextent] using h
    | slice =>
      simp only [hextent] at h
      simp [h]
  rw [mem_taken h, removes, hcovered, Bool.and_eq_true, decide_eq_true_eq, decide_eq_true_eq,
    OrderedMap.lookup_eq_some_iff]

end Selection

/-- Applying a selection that lists its violations takes the entries for them out of the ledger. The
    others keep their places. -/
theorem Ledger.entries_apply_of_listed {s : Selection} {listed : Counts}
    (h : s.listed = some listed) (ledger : Ledger) :
    (ledger.apply (some s)).entries = ledger.entries.filter (fun x => x ∉ s.taken) := by
  rw [entries_apply]
  refine List.filter_congr fun x _ => ?_
  rw [Bool.eq_iff_iff, decide_eq_true_eq, ← Selection.removes_iff h x]
  simp

/-- A part of a list without repetitions can be filtered out of it again. So what was taken is what
    is missing. -/
theorem filter_mem_of_sublist {α : Type} [DecidableEq α] {part items : List α}
    (hsub : part.Sublist items) (hnd : items.Nodup) : items.filter (fun x => x ∈ part) = part := by
  have hself : part.filter (fun x => x ∈ part) = part :=
    List.filter_eq_self.mpr (fun x hx => by simpa using hx)
  have hfilter : part.Sublist (items.filter (fun x => x ∈ part)) := by
    have h := hsub.filter (fun x => x ∈ part)
    rwa [hself] at h
  have hperm : part.Perm (items.filter (fun x => x ∈ part)) := by
    rw [List.perm_ext_iff_of_nodup (hnd.sublist hsub) (hnd.filter _)]
    intro x
    rw [List.mem_filter, decide_eq_true_eq]
    exact ⟨fun hx => ⟨hsub.subset hx, hx⟩, fun hx => hx.2⟩
  exact (hfilter.eq_of_length hperm.length_eq).symm

namespace Policy

variable {p : Policy} {kind : LimitKind} {e : Eligibility} {ledger : Ledger} {s : Selection}

namespace Applies

/-- A selection lists violations that the filters keep: at least one, and no more than the limit
    allows. It is a whole rule or a slice, and in both cases a beginning of what is eligible. -/
theorem listed_of_select (h : p.Applies kind e ledger) (hs : p.select ledger = .ok (some s)) :
    ∃ listed, s.listed = some listed ∧ listed.entries ≠ [] ∧
      listed.entries.Sublist (p.eligible ledger s.rule).entries ∧
      kind.measure listed ≤ p.config.limit.count := by
  rw [h.select_eq, Except.ok.injEq] at hs
  rcases choose_cases hs with ⟨c, hc, hsize, _, rfl⟩ | ⟨_, _, c, hc, hne, rfl⟩
  · obtain ⟨rule, hkept, rfl⟩ := Eligibility.mem_candidates.mp hc
    refine ⟨e.kept rule (ledger.countsOf rule), rfl, hkept, ?_, hsize⟩
    rw [h.eligible_eq]
    exact List.Sublist.refl _
  · obtain ⟨rule, _, rfl⟩ := Eligibility.mem_candidates.mp (mem_of_largest hc)
    refine ⟨_, rfl, hne, ?_, measure_fittingPrefix_le kind h.limit_pos _⟩
    rw [h.eligible_eq]
    exact fittingPrefix_sublist _ _ _

/-- The eligible violations of a rule stand for eligible entries. Their order is that of the
    ledger. -/
theorem map_eligible_sublist (h : p.Applies kind e ledger) (rule : String) :
    ((p.eligible ledger rule).entries.map (fun x => (⟨x.1, rule, x.2⟩ : Ledger.Entry))).Sublist
      (p.eligibleEntries ledger) := by
  rw [h.eligible_eq, h.eligibleEntries_eq]
  -- Entries are picked by rule and then by the filters, or the other way round.
  have hmap : (e.kept rule (ledger.countsOf rule)).entries.map
        (fun x => (⟨x.1, rule, x.2⟩ : Ledger.Entry)) =
      (ledger.entries.filter (fun x => x.rule = rule)).filter (fun x => e.admits rule x.file) := by
    rw [← Ledger.map_entries_countsOf, List.filter_map]
    rfl
  have hfilter : (ledger.entries.filter (fun x => x.rule = rule)).filter
        (fun x => e.admits rule x.file) =
      (ledger.entries.filter (fun x => e.admits x.rule x.file)).filter (fun x => x.rule = rule) := by
    rw [List.filter_filter, List.filter_filter]
    refine List.filter_congr fun x _ => ?_
    by_cases hrule : x.rule = rule <;> simp [hrule]
  rw [hmap, hfilter]
  exact List.filter_sublist

theorem taken_sublist (h : p.Applies kind e ledger) (hs : p.select ledger = .ok (some s)) :
    s.taken.Sublist (p.eligibleEntries ledger) := by
  obtain ⟨listed, hlisted, _, hsub, _⟩ := h.listed_of_select hs
  rw [Selection.taken_eq hlisted]
  exact (hsub.map _).trans (h.map_eligible_sublist s.rule)

end Applies

/-- Applying a selection takes out just what it lists: at least one entry, all of them eligible, and
    in the unit of the limit no more than it allows.  Every other entry keeps its count and its
    place. -/
theorem apply_select_removes_listed (h : p.select ledger = .ok (some s)) :
    ∃ kind listed,
      p.config.limit.unit = .known kind ∧ s.listed = some listed ∧
      listed.entries ≠ [] ∧
      (∀ x ∈ listed.entries, x ∈ (p.eligible ledger s.rule).entries) ∧
      kind.measure listed ≤ p.config.limit.count ∧
      ledger.entries.filter (fun x => x ∉ (ledger.apply (some s)).entries) = s.taken ∧
      (ledger.apply (some s)).entries = ledger.entries.filter (fun x => x ∉ s.taken) := by
  obtain ⟨kind, e, happlies, _⟩ := select_ok_iff.mp h
  obtain ⟨listed, hlisted, hne, hsub, hmeasure⟩ := happlies.listed_of_select h
  have hentries := Ledger.entries_apply_of_listed hlisted ledger
  refine ⟨kind, listed, happlies.unit_eq, hlisted, hne, fun x hx => hsub.subset hx, hmeasure, ?_,
    hentries⟩
  -- What is listed stands in the ledger, so all of it is really taken out.
  have htaken : s.taken.Sublist ledger.entries :=
    (happlies.taken_sublist h).trans List.filter_sublist
  rw [hentries]
  calc ledger.entries.filter (fun x => x ∉ ledger.entries.filter (fun y => y ∉ s.taken))
      = ledger.entries.filter (fun x => x ∈ s.taken) := by
        refine List.filter_congr fun x hx => ?_
        simp [List.mem_filter, hx]
    _ = s.taken := filter_mem_of_sublist htaken ledger.nodup_entries

/-! ### An example

Under a limit of three violations, neither rule of the sources fits as a whole; the first file of
one of them does.
-/

/-- Two rules in three files, one of which is built from the others. -/
def sampleLedger : Ledger :=
  .ofFiles (.ofList [("src/a.ts", .ofList [("semi", 2), ("eqeqeq", 4)]),
    ("dist/b.js", .ofList [("semi", 3)]), ("src/c.ts", .ofList [("semi", 2)])])

/-- Three violations at a time, slices allowed, without what is built. -/
def samplePolicy : Policy where
  rules := .empty
  config := ⟨⟨.known .violation, 3⟩, ⟨false, true, [], [], ["dist/**"], [], none⟩⟩
  project := ⟨.empty, .ofText "/p"⟩
  graph := ⟨.empty, [], .zero false, 0⟩

/-- A ledger, what is selected from it, and what is left. -/
theorem sample_apply_select :
    ∃ s, samplePolicy.select sampleLedger = .ok (some s) ∧
      s.taken = [⟨"src/a.ts", "semi", 2⟩] ∧
      (sampleLedger.apply (some s)).entries =
        [⟨"src/a.ts", "eqeqeq", 4⟩, ⟨"dist/b.js", "semi", 3⟩, ⟨"src/c.ts", "semi", 2⟩] := by
  have h : samplePolicy.select sampleLedger = .ok (some
      { rule := "semi", extent := .slice, violations := some (.ofList [("src/a.ts", 2)]) }) := by
    cbv
  obtain ⟨_, _, _, _, _, _, _, _, hentries⟩ := apply_select_removes_listed h
  exact ⟨_, h, by decide, hentries.trans (by decide)⟩

end Policy

end Backlog
