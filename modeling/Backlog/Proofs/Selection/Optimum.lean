import Backlog.Proofs.Selection.Limits

namespace Backlog

/-!
# The best choice among candidates

What is chosen, said without the way in which it is found.

* `Candidate.Outranks`, `IsBest` — the order of the candidates, and the first of those that fit;
* `IsTarget` — the first of the largest candidates, and `largest_eq_some_iff` — that is the one to
  be cut down;
* `IsLongestFitting` — the longest beginning of some violations that fits a limit, and
  `isLongestFitting_fittingPrefix` — a slice is just that;
* `IsChoice` — a whole rule, a slice or nothing, each under the one condition that makes it so;
* `chooseWithin_outcome` — a choice is refused for an unusable limit alone, and otherwise it is such
  a one.
-/

/-! ### The best candidate -/

/-- A candidate comes before another one if it alone is fixable, or else if it is the larger one, or
    else if its rule comes first by code points. -/
def Candidate.Outranks (a b : Candidate) : Prop :=
  (a.isFixable ∧ ¬b.isFixable) ∨
    (a.isFixable = b.isFixable ∧ (b.size < a.size ∨ (a.size = b.size ∧ a.rule < b.rule)))

theorem Candidate.outranks_iff_rank_lt {a b : Candidate} : a.Outranks b ↔ a.rank < b.rank := by
  rw [← Candidate.precedes_iff_rank_lt, Candidate.precedes_iff, Candidate.Outranks]

/-- The candidate that comes before all others that fit a limit as a whole. -/
structure IsBest (candidates : List Candidate) (limit : Int) (c : Candidate) : Prop where
  mem : c ∈ candidates
  fits : c.size ≤ limit
  first : ∀ d ∈ candidates, d.size ≤ limit → d ≠ c → c.Outranks d

section best

variable {candidates : List Candidate} {kind : LimitKind} {limit : Int} {allowPartial : Bool}
  {c d : Candidate}

/-- There is only one best candidate. Two of them would outrank each other. -/
theorem IsBest.unique (hc : IsBest candidates limit c) (hd : IsBest candidates limit d) : d = c := by
  by_contra hne
  have hcd : c.rank < d.rank := Candidate.outranks_iff_rank_lt.mp (hc.first d hd.mem hd.fits hne)
  have hdc : d.rank < c.rank :=
    Candidate.outranks_iff_rank_lt.mp (hd.first c hc.mem hc.fits fun heq => hne heq.symm)
  exact absurd hcd (not_lt_of_gt hdc)

/-- Of candidates for different rules, one that no other precedes is the best. Ranks of different
    rules differ. -/
theorem isBest_of_least (hrules : (candidates.map Candidate.rule).Nodup) (hc : c ∈ candidates)
    (hfits : c.size ≤ limit) (hleast : ∀ d ∈ candidates, d.size ≤ limit → c.rank ≤ d.rank) :
    IsBest candidates limit c := by
  refine ⟨hc, hfits, fun d hd hdfits hne => ?_⟩
  rw [Candidate.outranks_iff_rank_lt]
  refine lt_of_le_of_ne (hleast d hd hdfits) fun heq => hne ?_
  -- Equal ranks are those of one rule, and that has one candidate only.
  have hrule : c.rule = d.rule := Candidate.rule_eq_of_rank_eq heq
  exact List.inj_on_of_nodup_map hrules hd hc hrule.symm

/-! ### The target -/

/-- The candidate that is larger than those before it, and no smaller than those behind it. -/
def IsTarget (candidates : List Candidate) (c : Candidate) : Prop :=
  ∃ before after, candidates = before ++ c :: after ∧
    (∀ d ∈ before, d.size < c.size) ∧ ∀ d ∈ after, d.size ≤ c.size

/-- The largest candidate, by recursion: a later one has to be larger to take the place of an
    earlier one. -/
theorem largest_cons (a : Candidate) (rest : List Candidate) :
    largest (a :: rest) = match largest rest with
      | none => some a
      | some b => if a.size < b.size then some b else some a := by
  show leastBy _ (a :: rest) = match leastBy _ rest with
    | none => some a
    | some b => if a.size < b.size then some b else some a
  rw [leastBy]
  cases leastBy (fun a b : Candidate => decide (b.size < a.size)) rest with
  | none => rfl
  | some b => simp only [decide_eq_true_eq]

/-- No candidate is larger than the largest one. There may be others of the same size. -/
theorem size_le_of_largest (h : largest candidates = some c) : ∀ d ∈ candidates, d.size ≤ c.size := by
  intro d hd
  have hrank : -c.size ≤ -d.size := leastBy_minimal (fun a : Candidate => -a.size)
    (fun a b => by rw [decide_eq_true_eq]; omega) h d hd
  omega

/-- The largest candidate, or the first of the largest ones, is the target. The target is what a
    slice is cut from. -/
theorem largest_eq_some_iff : largest candidates = some c ↔ IsTarget candidates c := by
  constructor
  · intro h
    induction candidates with
    | nil => simp [largest, leastBy] at h
    | cons a rest ih =>
      have hle := size_le_of_largest h
      rw [largest_cons] at h
      cases hrest : largest rest with
      | none =>
        rw [hrest, Option.some.injEq] at h
        obtain rfl : rest = [] := leastBy_eq_none_iff.mp hrest
        subst h
        exact ⟨[], [], rfl, by simp, by simp⟩
      | some b =>
        simp only [hrest] at h
        by_cases hab : a.size < b.size
        · -- the first candidate is smaller than the largest one of the rest
          rw [if_pos hab, Option.some.injEq] at h
          subst h
          obtain ⟨before, after, rfl, hbefore, hafter⟩ := ih hrest
          refine ⟨a :: before, after, rfl, ?_, hafter⟩
          intro d hd
          rcases List.mem_cons.mp hd with rfl | hd
          · exact hab
          · exact hbefore d hd
        · rw [if_neg hab, Option.some.injEq] at h
          subst h
          exact ⟨[], rest, rfl, by simp, fun d hd => hle d (List.mem_cons_of_mem _ hd)⟩
  · rintro ⟨before, after, rfl, hbefore, hafter⟩
    induction before with
    | nil =>
      rw [List.nil_append, largest_cons]
      cases hrest : largest after with
      | none => rfl
      | some b =>
        have hb := hafter b (mem_of_largest hrest)
        exact if_neg (by omega)
    | cons a before ih =>
      have ha := hbefore a List.mem_cons_self
      rw [List.cons_append, largest_cons, ih fun d hd => hbefore d (List.mem_cons_of_mem _ hd)]
      exact if_pos ha

theorem IsTarget.mem (h : IsTarget candidates c) : c ∈ candidates :=
  mem_of_largest (largest_eq_some_iff.mpr h)

theorem IsTarget.unique (hc : IsTarget candidates c) (hd : IsTarget candidates d) : d = c := by
  have heq := (largest_eq_some_iff.mpr hd).symm.trans (largest_eq_some_iff.mpr hc)
  exact Option.some.inj heq

end best

/-! ### The longest slice -/

/-- A beginning of some violations that fits a limit, and that goes on as long as any other one. -/
structure IsLongestFitting (kind : LimitKind) (limit : Int) (counts part : Counts) : Prop where
  isPrefix : part.entries <+: counts.entries
  fits : kind.measure part ≤ limit
  longest : ∀ other : Counts, other.entries <+: counts.entries → kind.measure other ≤ limit →
    other.entries <+: part.entries

theorem sumPrefix_prefix_self (limit used : Int) (items : List (String × Int)) :
    sumPrefix limit used items <+: items := by
  induction items generalizing used with
  | nil => exact List.prefix_refl _
  | cons e rest ih =>
    unfold sumPrefix
    by_cases he : limit < used + e.2
    · rw [if_pos he]
      exact List.nil_prefix
    · rw [if_neg he]
      exact (List.prefix_cons_inj e).mpr (ih (used + e.2))

/-- Beginnings whose sum stays within the limit are not cut off. Counts are positive, so a shorter
    beginning has a smaller sum. -/
theorem prefix_sumPrefix {limit used : Int} {items other : List (String × Int)}
    (hpos : ∀ e ∈ items, 0 < e.2) (hbegin : other <+: items)
    (hsum : used + (other.map Prod.snd).sum ≤ limit) : other <+: sumPrefix limit used items := by
  induction items generalizing used other with
  | nil => rwa [sumPrefix]
  | cons e rest ih =>
    cases other with
    | nil => exact List.nil_prefix
    | cons e' other =>
      obtain ⟨rfl, hother⟩ := List.cons_prefix_cons.mp hbegin
      have hrest : ∀ d ∈ rest, 0 < d.2 := fun d hd => hpos d (List.mem_cons_of_mem _ hd)
      have hothers : 0 ≤ (other.map Prod.snd).sum :=
        sum_counts_nonneg fun d hd => hrest d (hother.subset hd)
      rw [List.map_cons, List.sum_cons] at hsum
      -- What comes later only adds to the sum, so the first entry fits.
      have hfirst : ¬limit < used + e'.2 := by omega
      rw [sumPrefix, if_neg hfirst, List.prefix_cons_inj]
      exact ih hrest hother (by omega)

/-- A slice is the longest beginning that fits. It is a beginning, it fits, and any other that fits
    is a beginning of it. -/
theorem isLongestFitting_fittingPrefix (kind : LimitKind) {limit : Int} (hlimit : 0 < limit)
    {counts : Counts} (hpos : ∀ e ∈ counts.entries, 0 < e.2) :
    IsLongestFitting kind limit counts (fittingPrefix kind limit counts) where
  isPrefix := by
    cases kind with
    | file => exact List.take_prefix _ _
    | violation => exact sumPrefix_prefix_self limit 0 counts.entries
  fits := measure_fittingPrefix_le kind hlimit counts
  longest := by
    intro other hbegin hfits
    cases kind with
    | file =>
      have hlength : (other.entries.length : Int) ≤ limit := hfits
      show other.entries <+: counts.entries.take limit.toNat
      exact List.prefix_take_iff.mpr ⟨hbegin, by omega⟩
    | violation =>
      have hsum : (other.entries.map Prod.snd).sum ≤ limit := hfits
      exact prefix_sumPrefix hpos hbegin (by omega)

section longest

variable {kind : LimitKind} {limit : Int} {counts part : Counts}

/-- The longest slice has a violation exactly if already the first file fits. The first file is the
    shortest beginning that is not empty. -/
theorem IsLongestFitting.ne_nil_iff (h : IsLongestFitting kind limit counts part)
    (hne : counts.entries ≠ []) (hpos : ∀ e ∈ counts.entries, 0 < e.2) :
    part.entries ≠ [] ↔ kind.measure (counts.take 1) ≤ limit := by
  constructor
  · intro hpart
    -- The first file is in the slice, which fits.
    have hone : 1 ≤ part.entries.length := List.length_pos_iff.mpr hpart
    have hfirst : counts.entries.take 1 = part.entries.take 1 := by
      obtain ⟨rest, hrest⟩ := h.isPrefix
      rw [← hrest, List.take_append_of_le_length hone]
    have hsub : (counts.take 1).entries.Sublist part.entries := by
      rw [OrderedMap.entries_take, hfirst]
      exact List.take_sublist 1 _
    have hle := kind.measure_le_of_sublist hsub fun e he => hpos e (h.isPrefix.subset he)
    exact hle.trans h.fits
  · intro hfits hnil
    have hbegin := h.longest (counts.take 1) (List.take_prefix 1 _) hfits
    rw [hnil, List.prefix_nil, OrderedMap.entries_take] at hbegin
    rcases List.take_eq_nil_iff.mp hbegin with hone | hempty
    · cases hone
    · exact hne hempty

/-- Of violations that do not fit, a slice leaves some out. Otherwise it would be all of them, and
    fit. -/
theorem IsLongestFitting.ne_of_not_fits (h : IsLongestFitting kind limit counts part)
    (hlarge : ¬kind.measure counts ≤ limit) : part.entries ≠ counts.entries := by
  intro heq
  obtain rfl : part = counts := OrderedMap.ext heq
  exact hlarge h.fits

end longest

/-! ### The outcome -/

/-- Some target may be cut down: its first file fits. -/
def Sliceable (candidates : List Candidate) (kind : LimitKind) (limit : Int) : Prop :=
  ∃ c, IsTarget candidates c ∧ kind.measure (c.eligible.take 1) ≤ limit

/-- What is chosen among some candidates, and when. -/
structure IsChoice (candidates : List Candidate) (kind : LimitKind) (limit : Int)
    (allowPartial : Bool) (choice : Option Selection) : Prop where
  whole_iff : (∃ s, choice = some s ∧ s.extent = .whole) ↔ ∃ c ∈ candidates, c.size ≤ limit
  /-- A whole rule is that of the one best candidate. -/
  whole : ∀ s, choice = some s → s.extent = .whole →
    ∃ c, (∀ d, IsBest candidates limit d ↔ d = c) ∧ s = c.whole
  slice_iff : (∃ s, choice = some s ∧ s.extent = .slice) ↔
    (¬∃ c ∈ candidates, c.size ≤ limit) ∧ allowPartial = true ∧ Sliceable candidates kind limit
  /-- A slice is of the one target, as long as it can be, neither empty nor all of it. -/
  slice : ∀ s, choice = some s → s.extent = .slice →
    ∃ c part, (∀ d, IsTarget candidates d ↔ d = c) ∧
      IsLongestFitting kind limit c.eligible part ∧ part.entries ≠ [] ∧
        part.entries ≠ c.eligible.entries ∧ s = c.slice part
  none_iff : choice = none ↔
    (¬∃ c ∈ candidates, c.size ≤ limit) ∧ ¬(allowPartial = true ∧ Sliceable candidates kind limit)

section outcome

variable {candidates : List Candidate} {kind : LimitKind} {limit : Int} {allowPartial : Bool}

/-- The slice of the target is the longest one, and it has a violation exactly if the target may be
    cut down. Whether it may is asked of its first file. -/
theorem sliceable_iff_fittingPrefix_ne_nil (hlimit : 0 < limit)
    (hne : ∀ c ∈ candidates, c.eligible.entries ≠ [])
    (hcounts : ∀ c ∈ candidates, ∀ e ∈ c.eligible.entries, 0 < e.2) :
    Sliceable candidates kind limit ↔
      ∃ c, largest candidates = some c ∧ (fittingPrefix kind limit c.eligible).entries ≠ [] := by
  refine exists_congr fun c => ?_
  rw [largest_eq_some_iff]
  refine and_congr_right fun htarget => ?_
  have hlongest := isLongestFitting_fittingPrefix kind hlimit (hcounts c htarget.mem)
  exact (hlongest.ne_nil_iff (hne c htarget.mem) (hcounts c htarget.mem)).symm

/-- What is chosen is what ought to be chosen: the best whole rule that fits, or a slice of the
    target, or nothing. -/
theorem isChoice_choose (allowPartial : Bool) (hlimit : 0 < limit)
    (hrules : (candidates.map Candidate.rule).Nodup)
    (hne : ∀ c ∈ candidates, c.eligible.entries ≠ [])
    (hcounts : ∀ c ∈ candidates, ∀ e ∈ c.eligible.entries, 0 < e.2)
    (hsize : ∀ c ∈ candidates, c.size = kind.measure c.eligible) :
    IsChoice candidates kind limit allowPartial (choose candidates kind limit allowPartial) := by
  have hsliceable : Sliceable candidates kind limit ↔ _ :=
    sliceable_iff_fittingPrefix_ne_nil hlimit hne hcounts
  cases hchoice : choose candidates kind limit allowPartial with
  | none =>
    obtain ⟨hnone, hslice⟩ := choose_none hchoice
    have hfits : ¬∃ c ∈ candidates, c.size ≤ limit := fun ⟨c, hc, hle⟩ => hnone c hc hle
    -- No slice was made, so the first file of the target does not fit either.
    have hnot : ¬(allowPartial = true ∧ Sliceable candidates kind limit) := by
      rintro ⟨hpartial, hs⟩
      obtain ⟨c, hlargest, hpart⟩ := hsliceable.mp hs
      rcases hslice hpartial with hnil | ⟨d, hd, hempty⟩
      · rw [hnil] at hlargest
        cases hlargest
      · obtain rfl : c = d := Option.some.inj (hlargest.symm.trans hd)
        exact hpart hempty
    exact ⟨by simp [hfits], by simp, by simp [hfits, hnot], by simp, by simp [hfits, hnot]⟩
  | some s =>
    rcases choose_cases hchoice with ⟨c, hc, hle, hleast, rfl⟩ | ⟨rfl, hnone, c, hlargest, hpart, rfl⟩
    · have hfits : ∃ c ∈ candidates, c.size ≤ limit := ⟨c, hc, hle⟩
      have hbest := isBest_of_least hrules hc hle hleast
      refine ⟨by simpa [Candidate.whole] using hfits, ?_, by simp [hfits, Candidate.whole], ?_,
        by simp [hfits]⟩
      · rintro _ ⟨⟩ _
        exact ⟨c, fun d => ⟨hbest.unique, fun heq => heq ▸ hbest⟩, rfl⟩
      · rintro _ ⟨⟩ hextent
        cases hextent
    · have hfits : ¬∃ c ∈ candidates, c.size ≤ limit := fun ⟨d, hd, hle⟩ => hnone d hd hle
      have hs : Sliceable candidates kind limit := hsliceable.mpr ⟨c, hlargest, hpart⟩
      have htarget := largest_eq_some_iff.mp hlargest
      have hlongest := isLongestFitting_fittingPrefix kind hlimit (hcounts c htarget.mem)
      have hlarge : ¬kind.measure c.eligible ≤ limit := hsize c htarget.mem ▸ hnone c htarget.mem
      refine ⟨by simp [hfits, Candidate.slice], ?_, by simp [hfits, hs, Candidate.slice], ?_,
        by simp [hs]⟩
      · rintro _ ⟨⟩ hextent
        cases hextent
      · rintro _ ⟨⟩ _
        exact ⟨c, _, fun d => ⟨htarget.unique, fun heq => heq ▸ htarget⟩, hlongest, hpart,
          hlongest.ne_of_not_fits hlarge, rfl⟩

/-- A limit cannot be used if its unit is unknown or its size is not positive. -/
theorem Limit.validate_error_iff {limit : Limit} :
    (∃ cause, limit.validate = .error cause) ↔
      (∃ given, limit.unit = .unknown given) ∨ limit.count ≤ 0 := by
  unfold Limit.validate
  cases hunit : limit.unit with
  | unknown given => simp
  | known kind => by_cases hcount : limit.count ≤ 0 <;> simp [hcount]

/-- The choice is refused exactly if the limit cannot be used; otherwise it is a whole rule, a slice
    or nothing, as the candidates have it. -/
theorem chooseWithin_outcome {limit : Limit} {options : Options}
    (hrules : (candidates.map Candidate.rule).Nodup)
    (hne : ∀ c ∈ candidates, c.eligible.entries ≠ [])
    (hcounts : ∀ c ∈ candidates, ∀ e ∈ c.eligible.entries, 0 < e.2)
    (hsize : ∀ kind, limit.unit = .known kind →
      ∀ c ∈ candidates, c.size = kind.measure c.eligible) :
    ((∃ cause, chooseWithin candidates limit options = .error cause) ↔
        (∃ given, limit.unit = .unknown given) ∨ limit.count ≤ 0) ∧
      ∀ kind, limit.unit = .known kind → 0 < limit.count →
        ∃ choice, chooseWithin candidates limit options = .ok choice ∧
          IsChoice candidates kind limit.count options.allowPartial choice := by
  constructor
  · rw [← Limit.validate_error_iff]
    unfold chooseWithin
    cases limit.validate with
    | error cause => simp [bind, Except.bind]
    | ok kind => simp [bind, Except.bind, pure, Except.pure]
  · intro kind hunit hcount
    have hnot : ¬limit.count ≤ 0 := by omega
    have hvalid : limit.validate = .ok kind := by
      simp [Limit.validate, hunit, hnot]
    refine ⟨choose candidates kind limit.count options.allowPartial, ?_, ?_⟩
    · rw [chooseWithin, hvalid]
      rfl
    · exact isChoice_choose _ hcount hrules hne hcounts (hsize kind hunit)

/-- Two rules of five violations each. -/
def sampleCandidates : List Candidate :=
  [⟨"semi", false, ["a.ts", "b.ts", "c.ts"], 5, .ofList [("a.ts", 2), ("b.ts", 2), ("c.ts", 1)], 5⟩,
    ⟨"eqeqeq", true, ["a.ts"], 5, .ofList [("a.ts", 5)], 5⟩]

/-- Under a limit of four, neither rule fits, and the first one is cut down to two files. -/
theorem sample_chooseWithin :
    ∃ choice, chooseWithin sampleCandidates ⟨.known .violation, 4⟩
        ⟨false, true, [], [], [], [], none⟩ = .ok choice ∧
      (∃ s, choice = some s ∧ s.extent = .slice) ∧
      choice = some ⟨"semi", .slice, some (.ofList [("a.ts", 2), ("b.ts", 2)]), none⟩ := by
  have houtcome := @chooseWithin_outcome sampleCandidates ⟨.known .violation, 4⟩
    ⟨false, true, [], [], [], [], none⟩ (by decide) (by decide) (by decide)
    (by rintro kind ⟨⟩; decide)
  obtain ⟨choice, hchoice, hspec⟩ := houtcome.2 .violation rfl (by decide)
  refine ⟨choice, hchoice, hspec.slice_iff.mpr ⟨by decide, rfl, ?_⟩, ?_⟩
  · -- the two are of one size, so the first one is the target
    exact ⟨_, ⟨[], _, rfl, by simp, by decide⟩, by decide⟩
  · have heq : choice = choose sampleCandidates .violation 4 true := (Except.ok.inj hchoice).symm
    rw [heq]
    decide

end outcome

end Backlog
