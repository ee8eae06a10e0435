import Backlog.Proofs.Number.Rounding
import Mathlib.Data.Nat.Cast.Field
import Mathlib.Data.Nat.Cast.Order.Field

namespace Backlog.Number.Binary64

/-!
# The shortest digits of a double

The digits of a double are searched for on coarser grids first. Whatever the search comes upon reads
back as the double; and it comes upon something, since seventeen digits are enough for any double.

* `zpow_guess_le` — how far off a decimal logarithm is that is guessed from the binary one;
* `decimalPoint_le` — no more digits are taken to stand before the point than there are;
* `roundsTo_of_gridPoint?`, `exists_gridPoint?` — a hit on a grid reads back, and a grid that is
  fine enough has one;
* `isNear_shortest`, `ofDecimal_of_shownValue` — the digits that are found read back, in whatever
  way their value is written.
-/

variable {m : Nat} {e : Int} {num den : Nat}

/-! ### Guessing a decimal logarithm -/

/-- Powers of ten and two are compared by their own powers, once the exponents nearly agree. The
    statement has the shape that the next one needs, with the error in the exponents as a
    constant. -/
theorem ten_zpow_le {a b c g k : Int} (hb : 0 < b)
    (hbase : ((10 : ℚ) ^ a) ^ k ≤ ((2 : ℚ) ^ b) ^ k) (hexponent : b * g ≤ a * k - c)
    (hc : (10 : ℚ) ^ (-c) ≤ 2 ^ (-b)) : (10 : ℚ) ^ g ≤ 2 ^ (k - 1) := by
  have hpower : ((10 : ℚ) ^ g) ^ b ≤ ((2 : ℚ) ^ (k - 1)) ^ b := by
    calc ((10 : ℚ) ^ g) ^ b = 10 ^ (b * g) := by rw [← zpow_mul, mul_comm]
      _ ≤ 10 ^ (a * k + -c) := zpow_le_zpow_right₀ (by norm_num) (by omega)
      _ = (10 ^ a) ^ k * 10 ^ (-c) := by rw [zpow_add₀ (by norm_num), zpow_mul]
      _ ≤ (2 ^ b) ^ k * 2 ^ (-b) := by gcongr
      _ = (2 ^ (k - 1)) ^ b := by
        rw [← zpow_mul, ← zpow_mul, ← zpow_add₀ (by norm_num)]
        congr 1
        ring
  exact (zpow_le_zpow_iff_left₀ (by positivity) (by positivity) hb).mp hpower

/-- The decimal logarithm that is guessed from a binary one is too large by less than two. The
    bounds are far beyond what a double can hold. -/
theorem zpow_guess_le {k : Int} (hlow : -1100 ≤ k) (hhigh : k ≤ 1100) :
    (10 : ℚ) ^ (k * 30103 / 100000 - 2) ≤ 2 ^ (k - 1) := by
  -- Ten bits are more than three decimal digits, and 93 bits are less than 28 of them.
  rcases le_total 0 k with hk | hk
  · refine ten_zpow_le (a := 3) (b := 10) (c := 9) (by decide) ?_ (by omega) (by norm_num)
    exact zpow_le_zpow_left₀ hk (by norm_num) (by norm_num)
  · refine ten_zpow_le (a := 28) (b := 93) (c := 180) (by decide) ?_ (by omega) (by norm_num)
    obtain ⟨n, rfl⟩ : ∃ n : Nat, k = -(n : Int) := ⟨(-k).toNat, by omega⟩
    rw [zpow_neg, zpow_neg, zpow_natCast, zpow_natCast]
    gcongr
    norm_num

/-! ### The digits before the point -/

/-- The value of a double lies in its own interval. The interval goes beyond the double on both
    sides. -/
theorem isNear_self (m : Nat) (e : Int) : IsNear m e (m * 2 ^ e) := by
  have hpos := two_zpow_pos e
  have hreach := reachBelow_pos m e
  refine isNear_of_lt ?_ ?_
  · exact mul_lt_mul_of_pos_right (by linarith) hpos
  · exact mul_lt_mul_of_pos_right (by linarith) hpos

/-- The guess is off by less than two, since the logarithms of a double are not too large. A
    logarithm is guessed with a fraction for that of two. -/
theorem IsCanonical.guess_le (h : IsCanonical m e) (hm : m ≠ 0) (hnum : num ≠ 0) (hden : den ≠ 0)
    (hvalue : (num : ℚ) / den = m * 2 ^ e) :
    (10 : ℚ) ^ (((num.log2 : Int) - den.log2) * 30103 / 100000 - 2) ≤ m * 2 ^ e := by
  obtain ⟨hlow, hhigh⟩ := log2_bounds hnum hden
  rw [hvalue] at hlow hhigh
  generalize (num.log2 : Int) - den.log2 = k at hlow hhigh ⊢
  have hpos := two_zpow_pos e
  have hone : (1 : ℚ) ≤ m := by exact_mod_cast Nat.one_le_iff_ne_zero.mpr hm
  have hlt : (m : ℚ) ≤ 2 ^ (53 : Int) := by exact_mod_cast h.lt.le
  have hmono : ∀ {a b : Int}, (2 : ℚ) ^ a < 2 ^ b → a < b := fun hab =>
    (zpow_lt_zpow_iff_right₀ (by norm_num)).mp hab
  have hmin := h.min_le
  have hmax := h.le_max
  unfold minExponent at hmin
  unfold maxExponent at hmax
  have hupper : k - 1 < 53 + e := by
    refine hmono (hlow.trans_le ?_)
    rw [zpow_add₀ (by norm_num)]
    exact mul_le_mul_of_nonneg_right hlt hpos.le
  have hlower : e < k + 1 := hmono ((le_mul_of_one_le_left hpos.le hone).trans_lt hhigh)
  exact (zpow_guess_le (by omega) (by omega)).trans hlow.le

/-- Of the candidates for the number of digits before the point, one is taken only if the one before
    is too small, unless it is the first. The candidates begin with the guess and go up. -/
theorem decimalPoint_cases (num den : Nat) (hden : 0 < den) :
    decimalPoint num den - 1 = ((num.log2 : Int) - den.log2) * 30103 / 100000 - 2 ∨
      (10 : ℚ) ^ (decimalPoint num den - 1) ≤ num / den := by
  -- A power of ten is compared without fractions, on one side or on the other.
  have hbelow : ∀ k : Int,
      (if 0 ≤ k then decide (num < den * Nat.pow 10 k.toNat)
        else decide (num * Nat.pow 10 (-k).toNat < den)) = false → (10 : ℚ) ^ k ≤ num / den := by
    intro k hk
    have hcast : (0 : ℚ) < den := by exact_mod_cast hden
    rw [le_div_iff₀ hcast]
    by_cases hsign : 0 ≤ k
    · obtain ⟨n, rfl⟩ := Int.eq_ofNat_of_zero_le hsign
      rw [if_pos hsign, decide_eq_false_iff_not, not_lt] at hk
      rw [zpow_natCast, mul_comm]
      exact_mod_cast hk
    · obtain ⟨n, hn⟩ := Int.eq_ofNat_of_zero_le (show 0 ≤ -k by omega)
      obtain rfl : k = -(n : Int) := by omega
      rw [if_neg hsign, decide_eq_false_iff_not, not_lt, neg_neg] at hk
      rw [zpow_neg, zpow_natCast, inv_mul_le_iff₀ (by positivity), mul_comm]
      exact_mod_cast hk
  unfold decimalPoint
  dsimp only
  generalize ((num.log2 : Int) - den.log2) * 30103 / 100000 = guess
  simp only [List.find?_cons, List.find?_nil]
  split
  · exact .inl (by simp only [Option.getD_some]; omega)
  · rename_i hfirst
    right
    split
    · exact (hbelow _ hfirst).trans_eq' (by simp)
    · rename_i hsecond
      split
      · exact (hbelow _ hsecond).trans_eq' (by simp)
      · rename_i hthird
        split
        · rename_i hfourth
          exact (hbelow _ hthird).trans_eq' (by congr 1; simp; omega)
        · rename_i hfourth
          exact (hbelow _ hfourth).trans_eq' (by congr 1; simp; omega)

/-- No more digits are taken to stand before the point than there are. Both cases of the lemma
    before give this bound. -/
theorem IsCanonical.decimalPoint_le (h : IsCanonical m e) (hm : m ≠ 0) (hnum : num ≠ 0)
    (hden : 0 < den) (hvalue : (num : ℚ) / den = m * 2 ^ e) :
    (10 : ℚ) ^ (decimalPoint num den - 1) ≤ m * 2 ^ e := by
  rcases decimalPoint_cases num den hden with hguess | hpoint
  · rw [hguess]
    exact h.guess_le hm hnum hden.ne' hvalue
  · rwa [hvalue] at hpoint

/-! ### Grids -/

/-- A quotient on the grid of a power of ten. A grid is made of the multiples of a power of ten. -/
theorem exists_grid (num : Nat) {den : Nat} (hden : 0 < den) (power : Int) :
    ∃ n d, (if 0 ≤ power then (num, den * Nat.pow 10 power.natAbs)
        else (num * Nat.pow 10 power.natAbs, den)) = (n, d) ∧ 0 < d ∧
      (n : ℚ) / d * 10 ^ power = num / den := by
  by_cases hp : 0 ≤ power
  · obtain ⟨k, rfl⟩ := Int.eq_ofNat_of_zero_le hp
    refine ⟨_, _, if_pos hp, Nat.mul_pos hden (Nat.pow_pos (by decide)), ?_⟩
    simp only [Int.natAbs_natCast, Nat.pow_eq, Nat.cast_mul, Nat.cast_pow, zpow_natCast]
    field_simp
    push_cast
    ring
  · obtain ⟨k, hk⟩ := Int.eq_ofNat_of_zero_le (show 0 ≤ -power by omega)
    obtain rfl : power = -(k : Int) := by omega
    refine ⟨_, _, if_neg hp, hden, ?_⟩
    simp only [Int.natAbs_neg, Int.natAbs_natCast, Nat.pow_eq, Nat.cast_mul, Nat.cast_pow, zpow_neg,
      zpow_natCast]
    field_simp
    push_cast
    ring

/-- What a grid comes upon reads back. It is tested before it is given. -/
theorem roundsTo_of_gridPoint? {power : Int} {digits : Nat}
    (h : gridPoint? m e num den power = some digits) : roundsTo m e digits power = true := by
  unfold gridPoint? at h
  dsimp only at h
  generalize (if 0 ≤ power then (num, den * Nat.pow 10 power.natAbs)
    else (num * Nat.pow 10 power.natAbs, den)) = grid at h
  split at h
  · rename_i hlow hhigh
    have hnext := (Bool.and_eq_true_iff.mp hhigh).2
    -- Both neighbours read back, whichever of them is taken.
    repeat' split at h
    all_goals
      obtain rfl := Option.some.inj h
      first | exact hlow | exact hnext
  · rename_i hlow _
    obtain rfl := Option.some.inj h
    exact hlow
  · rename_i _ hhigh
    obtain rfl := Option.some.inj h
    exact (Bool.and_eq_true_iff.mp hhigh).2
  · cases h

/-- Where a grid comes upon nothing, neither neighbour of the quotient reads back. The neighbours
    are those just below and above, and the one below alone if the quotient lies on the grid. -/
theorem misses_of_gridPoint? {power : Int} {n d : Nat}
    (hratio : (if 0 ≤ power then (num, den * Nat.pow 10 power.natAbs)
      else (num * Nat.pow 10 power.natAbs, den)) = (n, d))
    (h : gridPoint? m e num den power = none) :
    roundsTo m e (n / d) power = false ∧
      (n % d ≠ 0 → roundsTo m e (n / d + 1) power = false) := by
  unfold gridPoint? at h
  simp only [hratio] at h
  split at h
  · repeat' split at h
    all_goals cases h
  · cases h
  · cases h
  · rename_i hlow hhigh
    refine ⟨hlow, fun hne => ?_⟩
    simpa [hne] using hhigh

/-- A grid that is finer than the interval of a double has a point in it. The interval is longer
    than the distance of two points, so that it holds a neighbour of the double itself. -/
theorem exists_gridPoint? (hm : m ≠ 0) (hden : 0 < den) (hvalue : (num : ℚ) / den = m * 2 ^ e)
    {power : Int} (hfine : (10 : ℚ) ^ power < (reachBelow m e + 1 / 2) * 2 ^ e) :
    ∃ digits, gridPoint? m e num den power = some digits := by
  cases hgrid : gridPoint? m e num den power with
  | some digits => exact ⟨digits, rfl⟩
  | none =>
    obtain ⟨n, d, hratio, hd, hpoint⟩ := exists_grid num hden power
    obtain ⟨hmissLow, hmissHigh⟩ := misses_of_gridPoint? hratio hgrid
    have hcast : (0 : ℚ) < d := by exact_mod_cast hd
    have hstep : (0 : ℚ) < 10 ^ power := zpow_pos (by norm_num) power
    have hpos := two_zpow_pos e
    have hreach := reachBelow_pos m e
    rw [hvalue] at hpoint
    -- The value lies between two neighbours on the grid.
    have hbelow : ((n / d : Nat) : ℚ) * 10 ^ power ≤ m * 2 ^ e := by
      rw [← hpoint]
      exact mul_le_mul_of_nonneg_right Nat.cast_div_le hstep.le
    have habove : (m : ℚ) * 2 ^ e < ((n / d + 1 : Nat) : ℚ) * 10 ^ power := by
      rw [← hpoint]
      refine mul_lt_mul_of_pos_right ?_ hstep
      rw [div_lt_iff₀ hcast]
      rw [mul_comm]
      exact_mod_cast Nat.lt_mul_div_succ n hd
    -- The lower one is below the interval.
    have hlow : ((n / d : Nat) : ℚ) * 10 ^ power ≤ (m - reachBelow m e) * 2 ^ e := by
      by_contra hlt
      have hnear : IsNear m e ((n / d : Nat) * 10 ^ power) :=
        isNear_of_lt (not_le.mp hlt) (by nlinarith)
      rw [← roundsTo_iff hm, hmissLow] at hnear
      cases hnear
    -- It is not the value itself, so the upper one does not read back either, and is above it.
    have hexact : n % d ≠ 0 := by
      intro hzero
      have hself := isNear_self m e
      rw [← hpoint, ← Nat.cast_div (Nat.dvd_of_mod_eq_zero hzero) hcast.ne', ← roundsTo_iff hm,
        hmissLow] at hself
      cases hself
    have hhigh : ((m : ℚ) + 1 / 2) * 2 ^ e ≤ ((n / d + 1 : Nat) : ℚ) * 10 ^ power := by
      by_contra hlt
      have hnear : IsNear m e ((n / d + 1 : Nat) * 10 ^ power) :=
        isNear_of_lt (by nlinarith) (not_le.mp hlt)
      rw [← roundsTo_iff hm, hmissHigh hexact] at hnear
      cases hnear
    push_cast at hhigh
    nlinarith

/-! ### The search -/

/-- With seventeen digits, a grid is finer than the interval of a double. Seventeen digits are known
    to be enough for doubles of this size. -/
theorem IsCanonical.step_lt (h : IsCanonical m e) {point : Int}
    (hpoint : (10 : ℚ) ^ (point - 1) ≤ m * 2 ^ e) :
    (10 : ℚ) ^ (point - 17) < (reachBelow m e + 1 / 2) * 2 ^ e := by
  have hpos := two_zpow_pos e
  have hstep : (10 : ℚ) ^ (point - 17) = 10 ^ (point - 1) / 10 ^ 16 := by
    rw [show point - 17 = point - 1 - (16 : Nat) by push_cast; ring, zpow_sub₀ (by norm_num),
      zpow_natCast]
  have hlt : (m : ℚ) + 1 ≤ 2 ^ 53 := by exact_mod_cast h.lt
  rw [hstep, div_lt_iff₀ (by positivity)]
  refine lt_of_le_of_lt hpoint ?_
  unfold reachBelow
  split
  · rename_i hpower
    rw [hpower.1]
    push_cast
    linarith
  · nlinarith

/-- A search comes upon digits that read back, if some grid has them. The search stops at the first
    grid that does, which has the fewest digits. -/
theorem roundsTo_searchGrids {point : Int} {counts : List Nat}
    (h : ∃ count ∈ counts, ∃ digits, gridPoint? m e num den (point - count) = some digits) :
    roundsTo m e (searchGrids m e num den point counts).1
      (searchGrids m e num den point counts).2 = true := by
  induction counts with
  | nil =>
    obtain ⟨_, hmem, _⟩ := h
    exact absurd hmem List.not_mem_nil
  | cons count counts ih =>
    rw [searchGrids]
    cases hgrid : gridPoint? m e num den (point - count) with
    | some digits => exact roundsTo_of_gridPoint? hgrid
    | none =>
      refine ih ?_
      obtain ⟨found, hmem, digits, hdigits⟩ := h
      rcases List.mem_cons.mp hmem with rfl | hmem
      · rw [hgrid] at hdigits
        cases hdigits
      · exact ⟨found, hmem, digits, hdigits⟩

/-- The shortest digits of a double read back. The grid of seventeen digits is the last that is
    searched, so the search does not fail. -/
theorem isNear_shortest (h : IsCanonical m e) (hm : m ≠ 0) :
    IsNear m e ((shortest m e).1 * 10 ^ (shortest m e).2) := by
  obtain ⟨num, den, hscale, hden, hvalue⟩ := exists_scaleDown m Nat.one_pos (-e)
  rw [Nat.cast_one, div_one, zpow_neg, div_inv_eq_mul] at hvalue
  have hnum : num ≠ 0 := by
    rintro rfl
    have hone : (0 : ℚ) < m := by exact_mod_cast Nat.pos_of_ne_zero hm
    rw [Nat.cast_zero, zero_div] at hvalue
    exact absurd hvalue (mul_pos hone (two_zpow_pos e)).ne
  have hpoint := h.decimalPoint_le hm hnum hden hvalue
  have hhit := exists_gridPoint? hm hden hvalue (h.step_lt hpoint)
  rw [← roundsTo_iff hm, shortest, hscale]
  exact roundsTo_searchGrids ⟨17, by decide, hhit⟩

/-! ### The value that is shown -/

/-- A finite double: a sign with a mantissa and an exponent that belong together. -/
def IsFinite : Binary64 → Prop
  | .finite _ m e => IsCanonical m e
  | _ => False

/-- The value of the digits that a double shows. -/
def shownValue (m : Nat) (e : Int) : ℚ :=
  if m = 0 then 0 else (shortest m e).1 * 10 ^ (shortest m e).2

/-- Any decimal of the value that a double shows is read as the double. What shows is the value of
    the shortest digits, in whatever form it is written. -/
theorem ofDecimal_of_shownValue (h : IsCanonical m e) {digits : Nat} {power : Int}
    (hvalue : (digits : ℚ) * 10 ^ power = shownValue m e) (negative : Bool) :
    ofDecimal negative digits power = .finite negative m e := by
  by_cases hm : m = 0
  · obtain rfl : e = minExponent := h.normal.resolve_right (by omega)
    rw [shownValue, if_pos hm] at hvalue
    have hten : (10 : ℚ) ^ power ≠ 0 := zpow_ne_zero _ (by norm_num)
    have hdigits : digits = 0 := by
      exact_mod_cast (mul_eq_zero.mp hvalue).resolve_right hten
    rw [ofDecimal, if_pos hdigits, hm]
    rfl
  · rw [shownValue, if_neg hm] at hvalue
    have hnear := isNear_shortest h hm
    rw [← hvalue] at hnear
    exact ofDecimal_eq h hm hnear negative

end Backlog.Number.Binary64
