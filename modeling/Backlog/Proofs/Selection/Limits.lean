import Backlog.Proofs.Ledger.Loading
import Backlog.Proofs.Selection.Removal

namespace Backlog

/-!
# Selections under a larger limit

Raising a limit may change the rule that is selected: a fixable one that was too large comes before
all others as soon as it fits. Yet nothing is lost by it.

* `fittingPrefix_prefix`, `LimitKind.measure_le_of_sublist` — a slice under a larger limit goes on
  where the other one stops, and is no smaller;
* `choose_mono` — whatever the choice is under a limit, under a larger one there is a choice too, of
  no smaller size, and of a whole rule if it was one;
* `Policy.within` — a policy with another limit;
* `Policy.select_within_mono` — the same for a selection from a ledger that was read.
-/

/-! ### Longer slices -/

/-- What is cut off at a limit is the beginning of what is cut off at a larger one. -/
theorem sumPrefix_prefix {n m : Int} (h : n ≤ m) (used : Int) (items : List (String × Int)) :
    sumPrefix n used items <+: sumPrefix m used items := by
  induction items generalizing used with
  | nil => exact List.prefix_refl _
  | cons e rest ih =>
    unfold sumPrefix
    by_cases hn : n < used + e.2
    · rw [if_pos hn]
      exact List.nil_prefix
    · have hm : ¬m < used + e.2 := by omega
      rw [if_neg hn, if_neg hm]
      exact (List.prefix_cons_inj e).mpr (ih (used + e.2))

/-- A slice is the beginning of the one under a larger limit. So it is no larger. -/
theorem fittingPrefix_prefix (kind : LimitKind) {n m : Int} (h : n ≤ m) (counts : Counts) :
    (fittingPrefix kind n counts).entries <+: (fittingPrefix kind m counts).entries := by
  cases kind with
  | file =>
    have hlength : n.toNat ≤ m.toNat := by omega
    exact List.take_prefix_take_left hlength
  | violation => exact sumPrefix_prefix h 0 counts.entries

/-- Some of the violations are no more than all of them. Counts are positive, so none takes away
    from the sum. -/
theorem LimitKind.measure_le_of_sublist (kind : LimitKind) {x y : Counts}
    (h : x.entries.Sublist y.entries) (hcounts : ∀ e ∈ y.entries, 0 < e.2) :
    kind.measure x ≤ kind.measure y := by
  cases kind with
  | file =>
    have hlength : x.entries.length ≤ y.entries.length := h.length_le
    show (x.entries.length : Int) ≤ y.entries.length
    omega
  | violation =>
    show (x.entries.map Prod.snd).sum ≤ (y.entries.map Prod.snd).sum
    refine (h.map Prod.snd).sum_le_sum fun n hn => ?_
    obtain ⟨e, he, rfl⟩ := List.mem_map.mp hn
    exact le_of_lt (hcounts e he)

/-! ### The choice under a larger limit -/

/-- Where there is a choice under a limit, there is one under a larger limit: of a whole rule if it
    was of one, and of no smaller size. Where a whole rule fits that did not before, it may be
    another rule; its size is above the old limit, or it was the best already. -/
theorem choose_mono {candidates : List Candidate} {kind : LimitKind} {n m : Int}
    {allowPartial : Bool} {s : Selection} (hpos : 0 < n) (hnm : n ≤ m)
    (hsize : ∀ c ∈ candidates, c.size = kind.measure c.eligible)
    (hcounts : ∀ c ∈ candidates, ∀ e ∈ c.eligible.entries, 0 < e.2)
    (h : choose candidates kind n allowPartial = some s) :
    ∃ t, choose candidates kind m allowPartial = some t ∧
      (s.extent = .whole → t.extent = .whole) ∧
      ∃ x y, s.listed = some x ∧ t.listed = some y ∧ kind.measure x ≤ kind.measure y := by
  rcases choose_cases h with ⟨c, hc, hfits, hleast, rfl⟩ | ⟨rfl, hnone, c, hlargest, hne, rfl⟩
  · obtain ⟨d, hd, hdfits, hdleast, hchoice⟩ :=
      choose_of_fits kind allowPartial hc (hfits.trans hnm)
    refine ⟨d.whole, hchoice, fun _ => rfl, c.eligible, d.eligible, rfl, rfl, ?_⟩
    rw [← hsize c hc, ← hsize d hd]
    -- A smaller rule would have fitted before, and would not have been passed over.
    by_contra hlt
    have hrank : c.rank ≤ d.rank := hleast d hd (by omega)
    have heq : c.rank = d.rank := le_antisymm hrank (hdleast c hc (hfits.trans hnm))
    have hsame : c.size = d.size := Candidate.size_eq_of_rank_eq heq
    omega
  · have hslice := measure_fittingPrefix_le kind hpos c.eligible
    by_cases hexists : ∃ d ∈ candidates, d.size ≤ m
    · -- a whole rule fits now: it was larger than the limit, and thus than the slice
      obtain ⟨d, hd, hdfits⟩ := hexists
      obtain ⟨best, hbest, _, _, hchoice⟩ :=
        choose_of_fits kind true hd hdfits
      have hlarge := hnone best hbest
      rw [hsize best hbest] at hlarge
      exact ⟨best.whole, hchoice, fun _ => rfl, _, best.eligible, rfl, rfl, by omega⟩
    · -- still none fits: the slice of the same rule goes on
      have hprefix := fittingPrefix_prefix kind hnm c.eligible
      have hmore : (fittingPrefix kind m c.eligible).entries ≠ [] := by
        intro hnil
        rw [hnil] at hprefix
        exact hne (List.prefix_nil.mp hprefix)
      have hnone' : ∀ d ∈ candidates, ¬d.size ≤ m := fun d hd hfits => hexists ⟨d, hd, hfits⟩
      have hchoice := choose_of_not_fits kind hnone' hlargest hmore
      have hmeasure := kind.measure_le_of_sublist hprefix.sublist fun e he =>
        hcounts c (mem_of_largest hlargest) e ((fittingPrefix_sublist kind m _).subset he)
      exact ⟨_, hchoice, fun hextent => hextent, _, _, rfl, rfl, hmeasure⟩

namespace Policy

/-- The policy with another limit. -/
def within (p : Policy) (kind : LimitKind) (count : Int) : Policy :=
  { p with config := { p.config with limit := ⟨.known kind, count⟩ } }

variable {p : Policy} {kind : LimitKind} {e : Eligibility} {ledger : Ledger} {s : Selection}
  {n m : Int}

/-- A limit takes no part in the filters. All that it takes part in is whether it can be used. -/
theorem Applies.within (h : (p.within kind n).Applies kind e ledger) (hnm : n ≤ m) :
    (p.within kind m).Applies kind e ledger := by
  have hpos : 0 < n := h.limit_pos
  refine ⟨?_, h.filters_ok, h.settled⟩
  show Limit.validate ⟨.known kind, m⟩ = .ok kind
  have hm : ¬m ≤ 0 := by omega
  simp [Limit.validate, hm]

/-- If something is selected from a ledger that was read, then something is selected under a larger
    limit as well: a whole rule if it was one, and of a size that is no smaller. -/
theorem select_within_mono {data : Data} (hdata : Ledger.ofData data = .ok ledger) (hnm : n ≤ m)
    (hs : (p.within kind n).select ledger = .ok (some s)) :
    ∃ t, (p.within kind m).select ledger = .ok (some t) ∧
      (s.extent = .whole → t.extent = .whole) ∧
      ∃ x y, s.listed = some x ∧ t.listed = some y ∧ kind.measure x ≤ kind.measure y := by
  have hunit : (p.within kind n).config.limit.unit = .known kind := rfl
  obtain ⟨e, happlies⟩ := Applies.exists_of_select hunit hs
  have hsize : ∀ c ∈ e.candidates kind ledger, c.size = kind.measure c.eligible := by
    intro c hc
    obtain ⟨rule, _, rfl⟩ := Eligibility.mem_candidates.mp hc
    rfl
  have hcounts : ∀ c ∈ e.candidates kind ledger, ∀ x ∈ c.eligible.entries, 0 < x.2 := by
    intro c hc x hx
    obtain ⟨rule, _, rfl⟩ := Eligibility.mem_candidates.mp hc
    have hentry := Ledger.mem_countsOf.mp (Eligibility.mem_kept.mp hx).1
    exact Ledger.count_pos_of_ofData hdata _ hentry
  rw [happlies.select_eq, Except.ok.injEq] at hs
  obtain ⟨t, ht, hextent, hmeasure⟩ := choose_mono happlies.limit_pos hnm hsize hcounts hs
  exact ⟨t, (happlies.within hnm).select_eq.trans (congrArg _ ht), hextent, hmeasure⟩

/-- Where three violations allow for a slice of two, four violations give no less. -/
theorem sample_select_within :
    Ledger.ofData sampleLedger.toData = .ok sampleLedger ∧
      ∃ t, (samplePolicy.within .violation 4).select sampleLedger = .ok (some t) ∧
        ∃ y, t.listed = some y ∧ 2 ≤ LimitKind.violation.measure y := by
  have hdata : Ledger.ofData sampleLedger.toData = .ok sampleLedger :=
    Ledger.ofData_toData (by decide)
  have hs : (samplePolicy.within .violation 3).select sampleLedger = .ok (some
      { rule := "semi", extent := .slice, violations := some (.ofList [("src/a.ts", 2)]) }) := by
    cbv
  obtain ⟨t, ht, _, x, y, hx, hy, hmeasure⟩ :=
    select_within_mono hdata (show (3 : Int) ≤ 4 by decide) hs
  obtain rfl : OrderedMap.ofList [("src/a.ts", 2)] = x := Option.some.inj hx
  exact ⟨hdata, t, ht, y, hy, hmeasure⟩

end Policy

end Backlog
