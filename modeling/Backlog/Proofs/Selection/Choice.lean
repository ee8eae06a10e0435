import Backlog.Proofs.Outcome
import Backlog.Selection.Choice
import Mathlib.Algebra.Ring.Int.Defs
import Mathlib.Data.Prod.Lex
import Mathlib.Data.String.Basic
import Mathlib.Order.BooleanAlgebra.Basic

namespace Backlog

/-!
# What is chosen among candidates

The choice compares candidates as triples: whether the rule is fixable, its size, its name. Read as
ranks these are linearly ordered, so that the search for the best one is that for a least rank, and
ties cannot come up between different rules.

* `leastBy_mem`, `leastBy_minimal` — the least item of a list by a strict order;
* `Candidate.precedes_iff` — the preference between candidates, spelt out;
* `fittingPrefix_sublist`, `measure_fittingPrefix_le` — a slice is a beginning of the violations and
  fits the limit;
* `choose_cases` — a choice is a whole rule that fits and that no fitting one precedes, or a slice of
  the largest one;
* `choose_none` — without a choice no whole rule fits, and no slice was to be had either;
* `choose_of_fits`, `choose_of_not_fits` — where a whole rule fits, one is chosen, and otherwise a
  slice of the largest one.
-/

/-! ### The least item -/

section leastBy

variable {α : Type} {precedes : α → α → Bool}

/-- The least item is the first one, or that of the others if it precedes the first one. This is the
    recursion of the search, as it is used in inductions. -/
theorem leastBy_cons {a b : α} {items : List α} (h : leastBy precedes (b :: items) = some a) :
    (leastBy precedes items = none ∧ a = b) ∨
      ∃ c, leastBy precedes items = some c ∧ a = if precedes c b then c else b := by
  unfold leastBy at h
  cases hrest : leastBy precedes items with
  | none =>
    rw [hrest] at h
    exact .inl ⟨rfl, (Option.some.inj h).symm⟩
  | some c =>
    simp only [hrest, ← apply_ite some] at h
    exact .inr ⟨c, rfl, (Option.some.inj h).symm⟩

theorem leastBy_mem {items : List α} {a : α} (h : leastBy precedes items = some a) : a ∈ items := by
  induction items generalizing a with
  | nil => simp [leastBy] at h
  | cons b rest ih =>
    obtain ⟨_, rfl⟩ | ⟨c, hrest, rfl⟩ := leastBy_cons h
    · exact List.mem_cons_self
    · split
      · exact List.mem_cons_of_mem _ (ih hrest)
      · exact List.mem_cons_self

/-- There is a least item unless there are no items. -/
theorem leastBy_eq_none_iff {items : List α} : leastBy precedes items = none ↔ items = [] := by
  cases items with
  | nil => simp [leastBy]
  | cons b rest =>
    unfold leastBy
    cases leastBy precedes rest with
    | none => simp
    | some c => by_cases h : precedes c b = true <;> simp [h]

/-- No item has a lower rank than the least one. The order is given by ranks, as these are compared
    in a linear order. -/
theorem leastBy_minimal {ρ : Type} [LinearOrder ρ] (rank : α → ρ)
    (hrank : ∀ a b, precedes a b ↔ rank a < rank b) {items : List α} {a : α}
    (h : leastBy precedes items = some a) : ∀ b ∈ items, rank a ≤ rank b := by
  induction items generalizing a with
  | nil => simp [leastBy] at h
  | cons b rest ih =>
    rw [List.forall_mem_cons]
    obtain ⟨hrest, rfl⟩ | ⟨c, hrest, rfl⟩ := leastBy_cons h
    · simp [leastBy_eq_none_iff.mp hrest]
    · by_cases hcb : precedes c b = true
      · rw [if_pos hcb]
        exact ⟨le_of_lt ((hrank c b).mp hcb), ih hrest⟩
      · rw [if_neg hcb]
        -- The first item was kept, and the rest is not below its own least item.
        have hbc : rank b ≤ rank c := not_lt.mp (fun hlt => hcb ((hrank c b).mpr hlt))
        exact ⟨le_refl _, fun d hd => le_trans hbc (ih hrest d hd)⟩

end leastBy

/-! ### The preference between candidates -/

namespace Candidate

/-- A fixable rule is preferred, then the larger one, then the one that comes first by name. This
    says in words what the comparison of tuples does. -/
theorem precedes_iff {a b : Candidate} :
    a.precedes b ↔
      (a.isFixable ∧ ¬b.isFixable) ∨
        (a.isFixable = b.isFixable ∧
          (b.size < a.size ∨ (a.size = b.size ∧ a.rule < b.rule))) := by
  unfold precedes
  by_cases hfix : a.isFixable = b.isFixable
  · rw [if_neg (not_not_intro hfix)]
    by_cases hsize : a.size = b.size
    · simp [hfix, hsize]
    · simp [hfix, hsize]
  · rw [if_pos hfix]
    cases ha : a.isFixable <;> cases hb : b.isFixable <;> simp_all

/-- The rank of a candidate; the best one has the lowest. -/
def rank (c : Candidate) : Bool ×ₗ Int ×ₗ String := toLex (!c.isFixable, toLex (-c.size, c.rule))

theorem precedes_iff_rank_lt (a b : Candidate) : a.precedes b ↔ a.rank < b.rank := by
  rw [precedes_iff, rank, rank, Prod.Lex.toLex_lt_toLex, Prod.Lex.toLex_lt_toLex]
  cases a.isFixable <;> cases b.isFixable <;> simp

/-- Candidates of the same rank have the same size. -/
theorem size_eq_of_rank_eq {a b : Candidate} (h : a.rank = b.rank) : a.size = b.size := by
  simp only [rank, toLex_inj, Prod.mk.injEq] at h
  have hsize : -a.size = -b.size := h.2.1
  omega

/-- Candidates of different rules have different ranks. So there is one best candidate. -/
theorem rule_eq_of_rank_eq {a b : Candidate} (h : a.rank = b.rank) : a.rule = b.rule := by
  simp only [rank, toLex_inj, Prod.mk.injEq] at h
  exact h.2.2

end Candidate

/-! ### Slices -/

theorem sum_counts_nonneg {items : List (String × Int)} (h : ∀ e ∈ items, 0 < e.2) :
    0 ≤ (items.map Prod.snd).sum := by
  induction items with
  | nil => simp
  | cons e rest ih =>
    obtain ⟨he, hrest⟩ := List.forall_mem_cons.mp h
    have hsum := ih hrest
    rw [List.map_cons, List.sum_cons]
    omega

/-- A beginning that was cut off at a limit stays within it. The induction is along the items, with
    what has been used left general. -/
theorem sumPrefix_le {limit used : Int} (h : used ≤ limit) (items : List (String × Int)) :
    used + ((sumPrefix limit used items).map Prod.snd).foldr (· + ·) 0 ≤ limit := by
  induction items generalizing used with
  | nil => simpa [sumPrefix] using h
  | cons e rest ih =>
    unfold sumPrefix
    by_cases he : limit < used + e.2
    · simpa [he] using h
    · have hrest := ih (not_lt.mp he)
      rw [if_neg he, List.map_cons, List.foldr_cons]
      omega

theorem fittingPrefix_sublist (kind : LimitKind) (limit : Int) (counts : Counts) :
    (fittingPrefix kind limit counts).entries.Sublist counts.entries := by
  cases kind with
  | file => exact List.take_sublist _ _
  | violation => exact sumPrefix_sublist limit 0 counts.entries

/-- A slice fits the limit in its unit. For files the slice is a number of them; for violations it
    is cut off by their sum. -/
theorem measure_fittingPrefix_le (kind : LimitKind) {limit : Int} (h : 0 < limit)
    (counts : Counts) : kind.measure (fittingPrefix kind limit counts) ≤ limit := by
  cases kind with
  | file =>
    have hlen : (counts.entries.take limit.toNat).length ≤ limit.toNat := List.length_take_le _ _
    show ((counts.entries.take limit.toNat).length : Int) ≤ limit
    omega
  | violation =>
    have hsum := sumPrefix_le (le_of_lt h) counts.entries
    rw [Int.zero_add] at hsum
    exact hsum

/-- A slice is empty only if already the first violations are too many. For a limit on files, which
    is positive, that cannot be. -/
theorem fittingPrefix_ne_nil {kind : LimitKind} {limit : Int} {counts : Counts} (h : 0 < limit)
    (hne : counts.entries ≠ [])
    (hfits : kind = .violation → ∀ e ∈ counts.entries, e.2 ≤ limit) :
    (fittingPrefix kind limit counts).entries ≠ [] := by
  cases hcs : counts.entries with
  | nil => exact absurd hcs hne
  | cons e rest =>
    cases kind with
    | file =>
      have hlimit : limit.toNat ≠ 0 := by omega
      simp [fittingPrefix, hcs, hlimit]
    | violation =>
      have he : ¬limit < 0 + e.2 := by
        have := hfits rfl e (hcs ▸ List.mem_cons_self)
        omega
      simp only [fittingPrefix, hcs, sumPrefix, if_neg he]
      exact List.cons_ne_nil _ _

/-! ### The choice -/

/-- The largest candidate, the first of them if there are several. -/
def largest (candidates : List Candidate) : Option Candidate :=
  leastBy (fun a b => decide (b.size < a.size)) candidates

/-- The selection of a whole rule. -/
def Candidate.whole (c : Candidate) : Selection :=
  { rule := c.rule, extent := .whole, eligible := some c.eligible }

/-- The selection of a part of a rule's violations. -/
def Candidate.slice (c : Candidate) (part : Counts) : Selection :=
  { rule := c.rule, extent := .slice, violations := some part }

section choose

variable {candidates : List Candidate} {kind : LimitKind} {limit : Int} {allowPartial : Bool}

theorem mem_of_largest {c : Candidate} (h : largest candidates = some c) : c ∈ candidates :=
  leastBy_mem h

/-- The best of the rules that fit. No rank among those that fit is lower. -/
theorem best_of_leastBy_some {best : Candidate}
    (h : leastBy Candidate.precedes (candidates.filter (fun c => c.size ≤ limit)) = some best) :
    best ∈ candidates ∧ best.size ≤ limit ∧
      ∀ d ∈ candidates, d.size ≤ limit → best.rank ≤ d.rank := by
  obtain ⟨hmem, hsize⟩ := List.mem_filter.mp (leastBy_mem h)
  refine ⟨hmem, by simpa using hsize, fun d hd hfits => ?_⟩
  exact leastBy_minimal Candidate.rank Candidate.precedes_iff_rank_lt h d
    (List.mem_filter.mpr ⟨hd, by simpa using hfits⟩)

/-- If there is no best one among the rules that fit, none fits. For the search is among just
    these. -/
theorem not_fits_of_leastBy_none
    (h : leastBy Candidate.precedes (candidates.filter (fun c => c.size ≤ limit)) = none) :
    ∀ c ∈ candidates, ¬c.size ≤ limit := by
  intro c hc hfits
  have hmem : c ∈ candidates.filter (fun c => c.size ≤ limit) :=
    List.mem_filter.mpr ⟨hc, by simpa using hfits⟩
  rw [leastBy_eq_none_iff.mp h] at hmem
  exact List.not_mem_nil hmem

/-- A choice is a whole rule that fits, and that no other fitting one precedes; or, if none fits and
    that is allowed, a slice of the largest rule that is not empty. These are the two forms in which
    a selection comes. -/
theorem choose_cases {s : Selection} (h : choose candidates kind limit allowPartial = some s) :
    (∃ c ∈ candidates, c.size ≤ limit ∧ (∀ d ∈ candidates, d.size ≤ limit → c.rank ≤ d.rank) ∧
        s = c.whole) ∨
      (allowPartial = true ∧ (∀ d ∈ candidates, ¬d.size ≤ limit) ∧
        ∃ c, largest candidates = some c ∧
          (fittingPrefix kind limit c.eligible).entries ≠ [] ∧
            s = c.slice (fittingPrefix kind limit c.eligible)) := by
  unfold choose at h
  cases hbest : leastBy Candidate.precedes (candidates.filter (fun c => c.size ≤ limit)) with
  | some best =>
    simp only [hbest, Option.some.injEq] at h
    -- Some whole rule fits: the best of these is chosen.
    obtain ⟨hmem, hsize, hleast⟩ := best_of_leastBy_some hbest
    exact .inl ⟨best, hmem, hsize, hleast, h.symm⟩
  | none =>
    simp only [hbest] at h
    cases allowPartial with
    | false => simp at h
    | true =>
      cases htarget : leastBy (fun a b => decide (b.size < a.size)) candidates with
      | none => simp [htarget] at h
      | some target =>
        simp only [htarget, Bool.not_true, Bool.false_eq_true, if_false] at h
        split at h
        · simp at h
        · rename_i hslice
          rw [Option.some.injEq] at h
          exact .inr ⟨rfl, not_fits_of_leastBy_none hbest, target, htarget,
            fun hnil => hslice (by simp [OrderedMap.isEmpty, hnil]), h.symm⟩

/-- Without a choice no whole rule fits; and if slices are allowed, there is no candidate at all, or
    the slice of the largest one is empty. Together with the theorem before, this is all that a
    choice can be. -/
theorem choose_none (h : choose candidates kind limit allowPartial = none) :
    (∀ c ∈ candidates, ¬c.size ≤ limit) ∧
      (allowPartial = true → candidates = [] ∨
        ∃ c, largest candidates = some c ∧
          (fittingPrefix kind limit c.eligible).entries = []) := by
  unfold choose at h
  cases hbest : leastBy Candidate.precedes (candidates.filter (fun c => c.size ≤ limit)) with
  | some best => simp [hbest] at h
  | none =>
    refine ⟨not_fits_of_leastBy_none hbest, fun hpartial => ?_⟩
    subst hpartial
    cases htarget : leastBy (fun a b => decide (b.size < a.size)) candidates with
    | none => exact .inl (leastBy_eq_none_iff.mp htarget)
    | some target =>
      simp only [hbest, htarget, Bool.not_true, Bool.false_eq_true, if_false] at h
      split at h
      · rename_i hslice
        exact .inr ⟨target, htarget, by simpa [OrderedMap.isEmpty] using hslice⟩
      · simp at h

/-- Where some rule fits, the best of those that fit is chosen as a whole. Whether slices are
    allowed does not matter then. -/
theorem choose_of_fits (kind : LimitKind) (allowPartial : Bool) {c : Candidate}
    (hc : c ∈ candidates) (hfits : c.size ≤ limit) :
    ∃ best ∈ candidates, best.size ≤ limit ∧
      (∀ d ∈ candidates, d.size ≤ limit → best.rank ≤ d.rank) ∧
        choose candidates kind limit allowPartial = some best.whole := by
  cases hchoice : choose candidates kind limit allowPartial with
  | none => exact absurd hfits ((choose_none hchoice).1 c hc)
  | some s =>
    rcases choose_cases hchoice with ⟨best, hmem, hsize, hleast, rfl⟩ | ⟨_, hnone, _⟩
    · exact ⟨best, hmem, hsize, hleast, rfl⟩
    · exact absurd hfits (hnone c hc)

/-- Where none fits, and slices are allowed, the slice of the largest rule is chosen, unless it is
    empty. It is the largest rule, not the best one. -/
theorem choose_of_not_fits (kind : LimitKind) {c : Candidate} (hnone : ∀ d ∈ candidates, ¬d.size ≤ limit)
    (hlargest : largest candidates = some c)
    (hne : (fittingPrefix kind limit c.eligible).entries ≠ []) :
    choose candidates kind limit true = some (c.slice (fittingPrefix kind limit c.eligible)) := by
  cases hchoice : choose candidates kind limit true with
  | none =>
    rcases (choose_none hchoice).2 rfl with hnil | ⟨d, hd, hslice⟩
    · rw [hnil] at hlargest
      cases hlargest
    · obtain rfl : c = d := Option.some.inj (hlargest.symm.trans hd)
      exact absurd hslice hne
  | some s =>
    rcases choose_cases hchoice with ⟨d, hd, hsize, _⟩ | ⟨_, _, d, hd, _, rfl⟩
    · exact absurd hsize (hnone d hd)
    · obtain rfl : c = d := Option.some.inj (hlargest.symm.trans hd)
      rfl

end choose

end Backlog
