import Backlog.Number.Binary64
import Mathlib.Algebra.Order.Field.Power
import Mathlib.Tactic.FieldSimp
import Mathlib.Tactic.Linarith
import Mathlib.Tactic.NormNum
import Mathlib.Tactic.Positivity
import Mathlib.Tactic.Ring

namespace Backlog.Number.Binary64

/-!
# Rounding to a double

A quotient is rounded to the double that it is nearest to. The quotients that are nearest to one
double make up an interval around it, whose ends belong to it if the mantissa is even.

* `IsCanonical` — mantissa and exponent as a finite double has them;
* `IsNear` — the interval around a double;
* `roundsTo_iff` — whether a decimal lies in it is decided without dividing;
* `roundHalfEven_eq`, `pickExponent_spec` — the two steps of rounding: an exponent is picked, and
  then the mantissa is rounded;
* `ofRatio_eq`, `ofDecimal_eq` — a quotient in the interval of a double rounds to it, and a decimal
  in it is read as it.
-/

/-- Mantissa and exponent of a finite double: the mantissa has at most 53 bits, and less only if the
    exponent is the least one. -/
structure IsCanonical (m : Nat) (e : Int) : Prop where
  lt : m < 2 ^ 53
  min_le : minExponent ≤ e
  le_max : e ≤ maxExponent
  normal : e = minExponent ∨ 2 ^ 52 ≤ m

/-- How far the interval of a double reaches down, in units of its last place: half a unit, or half
    of the smaller unit that doubles have below a power of two. -/
def reachBelow (m : Nat) (e : Int) : ℚ := if m = 2 ^ 52 ∧ minExponent < e then 1 / 4 else 1 / 2

/-- A quotient lies in the interval of a double. -/
def IsNear (m : Nat) (e : Int) (x : ℚ) : Prop :=
  if m % 2 = 0 then (m - reachBelow m e) * 2 ^ e ≤ x ∧ x ≤ (m + 1 / 2) * 2 ^ e
  else (m - reachBelow m e) * 2 ^ e < x ∧ x < (m + 1 / 2) * 2 ^ e

variable {m : Nat} {e : Int} {x : ℚ}

/-- Below a double the interval reaches by half a place at most. -/
theorem reachBelow_le (m : Nat) (e : Int) : reachBelow m e ≤ 1 / 2 := by
  unfold reachBelow
  split <;> norm_num

/-- Below a double the interval reaches some way, if only a quarter of a place. -/
theorem reachBelow_pos (m : Nat) (e : Int) : 0 < reachBelow m e := by
  unfold reachBelow
  split <;> norm_num

/-- Powers of two are positive, also those below one. -/
theorem two_zpow_pos (e : Int) : (0 : ℚ) < 2 ^ e := zpow_pos (by norm_num) e

theorem two_zpow_mono {a b : Int} (h : a ≤ b) : (2 : ℚ) ^ a ≤ 2 ^ b :=
  zpow_le_zpow_right₀ (by norm_num) h

/-- What is near a double is not below the lower end of its interval. -/
theorem IsNear.ge (h : IsNear m e x) : (m - reachBelow m e) * 2 ^ e ≤ x := by
  unfold IsNear at h
  split at h
  · exact h.1
  · exact h.1.le

/-- What is near a double is not above the upper end of its interval. -/
theorem IsNear.le (h : IsNear m e x) : x ≤ (m + 1 / 2) * 2 ^ e := by
  unfold IsNear at h
  split at h
  · exact h.2
  · exact h.2.le

/-- What lies strictly between the ends is in the interval. At the ends it depends on whether the
    mantissa is even. -/
theorem isNear_of_lt (hlow : (m - reachBelow m e) * 2 ^ e < x) (hhigh : x < (m + 1 / 2) * 2 ^ e) :
    IsNear m e x := by
  unfold IsNear
  split
  · exact ⟨hlow.le, hhigh.le⟩
  · exact ⟨hlow, hhigh⟩

/-! ### Quotients of naturals -/

/-- Scaling divides by a power of two. The quotient is given by numbers again, so that no fraction
    is ever computed. -/
theorem exists_scaleDown (num : Nat) {den : Nat} (hden : 0 < den) (e : Int) :
    ∃ n d, scaleDown num den e = (n, d) ∧ 0 < d ∧ (n : ℚ) / d = num / den / 2 ^ e := by
  unfold scaleDown
  by_cases he : 0 ≤ e
  · obtain ⟨k, rfl⟩ := Int.eq_ofNat_of_zero_le he
    refine ⟨_, _, if_pos he, Nat.mul_pos hden (Nat.pow_pos (by decide)), ?_⟩
    simp [div_div]
  · obtain ⟨k, hk⟩ := Int.eq_ofNat_of_zero_le (show 0 ≤ -e by omega)
    obtain rfl : e = -(k : Int) := by omega
    refine ⟨_, _, if_neg he, hden, ?_⟩
    simp [mul_div_right_comm]

/-- A decimal is a quotient with a power of ten above or below the line. Which of the two it is
    depends on the sign of the power. -/
theorem exists_tens (digits : Nat) (power : Int) :
    ∃ n d, (if 0 ≤ power then (digits * Nat.pow 10 power.natAbs, 1)
        else (digits, Nat.pow 10 power.natAbs)) = (n, d) ∧ 0 < d ∧
      (n : ℚ) / d = digits * 10 ^ power := by
  by_cases hp : 0 ≤ power
  · obtain ⟨k, rfl⟩ := Int.eq_ofNat_of_zero_le hp
    refine ⟨_, _, if_pos hp, Nat.one_pos, ?_⟩
    simp
  · obtain ⟨k, hk⟩ := Int.eq_ofNat_of_zero_le (show 0 ≤ -power by omega)
    obtain rfl : power = -(k : Int) := by omega
    refine ⟨_, _, if_neg hp, Nat.pow_pos (by decide), ?_⟩
    simp [div_eq_mul_inv]

/-- The ends of the interval are multiples of a quarter of the last place. So the comparison with a
    decimal is one of whole numbers. -/
theorem roundingEnds_cast (hm : m ≠ 0) (e : Int) :
    ((roundingEnds m e).1 : ℚ) * 2 ^ (e - 2) = (m - reachBelow m e) * 2 ^ e ∧
      ((roundingEnds m e).2 : ℚ) * 2 ^ (e - 2) = (m + 1 / 2) * 2 ^ e := by
  have hquarter : (2 : ℚ) ^ (e - 2) = 2 ^ e / 4 := by
    rw [zpow_sub₀ (by norm_num)]
    norm_num
  rw [hquarter]
  refine ⟨?_, ?_⟩
  · unfold roundingEnds reachBelow
    by_cases hpower : m = 2 ^ 52 ∧ minExponent < e
    · have hlow : (1 : Nat) ≤ 4 * m := by omega
      simp only [Nat.pow_eq, hpower.1, hpower.2, decide_true, Bool.and_self, if_true, and_self]
      norm_num
      ring
    · have hlow : (2 : Nat) ≤ 4 * m := by omega
      have hfalse : (decide (m = 2 ^ 52) && decide (minExponent < e)) = false := by
        simpa [Bool.and_eq_false_iff, Classical.not_and_iff_not_or_not] using hpower
      simp only [Nat.pow_eq, hfalse, Bool.false_eq_true, if_false, if_neg hpower,
        Nat.cast_sub hlow]
      push_cast
      ring
  · show ((4 * m + 2 : Nat) : ℚ) * _ = _
    push_cast
    ring

/-- Whether a decimal lies in the interval of a double is decided without dividing. The left side is
    what the program computes, and the right what it means. -/
theorem roundsTo_iff (hm : m ≠ 0) {digits : Nat} {power : Int} :
    roundsTo m e digits power = true ↔ IsNear m e (digits * 10 ^ power) := by
  obtain ⟨n, d, hratio, hd, hvalue⟩ := exists_tens digits power
  obtain ⟨n', d', hscale, hd', hvalue'⟩ := exists_scaleDown n hd (e - 2)
  obtain ⟨hlow, hhigh⟩ := roundingEnds_cast hm e
  unfold roundsTo IsNear
  simp only [hratio, hscale]
  rw [← hlow, ← hhigh, ← hvalue]
  have hcast : (0 : ℚ) < d' := by exact_mod_cast hd'
  have hle : ∀ k : Nat, k * (2 : ℚ) ^ (e - 2) ≤ n / d ↔ k * d' ≤ n' := by
    intro k
    rw [← le_div_iff₀ (two_zpow_pos _), ← hvalue', le_div_iff₀ hcast]
    exact_mod_cast Iff.rfl
  have hge : ∀ k : Nat, (n : ℚ) / d ≤ k * (2 : ℚ) ^ (e - 2) ↔ n' ≤ k * d' := by
    intro k
    rw [← div_le_iff₀ (two_zpow_pos _), ← hvalue', div_le_iff₀ hcast]
    exact_mod_cast Iff.rfl
  by_cases heven : m % 2 = 0
  · rw [if_pos heven, if_pos heven, Bool.and_eq_true, decide_eq_true_eq, decide_eq_true_eq, hle,
      hge]
  · rw [if_neg heven, if_neg heven, Bool.and_eq_true, decide_eq_true_eq, decide_eq_true_eq,
      ← not_le, ← not_le, ← not_le, ← not_le, hle, hge]

/-! ### The two steps of rounding -/

/-- A quotient rounds to a natural that is at most a half away, and to an even one if it is a half
    away. The hypotheses are multiplied out, as the program never divides with a fraction. -/
theorem roundHalfEven_eq {n d k : Nat} (hd : 0 < d) (hlow : 2 * k * d ≤ 2 * n + d)
    (hhigh : 2 * n ≤ (2 * k + 1) * d)
    (hodd : k % 2 = 1 → 2 * k * d < 2 * n + d ∧ 2 * n < (2 * k + 1) * d) :
    roundHalfEven n d = k := by
  have hn : d * (n / d) + n % d = n := Nat.div_add_mod n d
  have hr : n % d < d := Nat.mod_lt n hd
  unfold roundHalfEven
  dsimp only
  generalize n / d = q at hn ⊢
  generalize n % d = r at hn hr ⊢
  have hle : q ≤ k := by
    by_contra hlt
    have hmul : d * (k + 1) ≤ d * q := Nat.mul_le_mul_left d (by omega)
    nlinarith
  have hge : k ≤ q + 1 := by
    by_contra hlt
    have hmul : d * (q + 2) ≤ d * k := Nat.mul_le_mul_left d (by omega)
    nlinarith
  -- The natural is the whole part of the quotient or the next one.
  rcases (show k = q ∨ k = q + 1 by omega) with rfl | rfl
  · have hhalf : 2 * r ≤ d := by nlinarith
    have hstrict : k % 2 = 1 → 2 * r < d := by
      intro hk
      have hlt := (hodd hk).2
      nlinarith
    have hstay : ¬(d < 2 * r || (2 * r = d && k % 2 = 1)) = true := by
      simp only [Bool.or_eq_true, Bool.and_eq_true, decide_eq_true_eq]
      omega
    rw [if_neg hstay]
  · have hhalf : d ≤ 2 * r := by nlinarith
    have hstrict : (q + 1) % 2 = 1 → d < 2 * r := by
      intro hk
      have hlt := (hodd hk).1
      nlinarith
    have hmove : (d < 2 * r || (2 * r = d && q % 2 = 1)) = true := by
      simp only [Bool.or_eq_true, Bool.and_eq_true, decide_eq_true_eq]
      omega
    rw [if_pos hmove]

/-- The exponent that a quotient is rounded with. -/
def pickExponent (num den : Nat) : Int :=
  let guess : Int := max ((num.log2 : Int) - (den.log2 : Int) - 53) minExponent
  if Nat.pow 2 53 ≤ (scaleDown num den guess).1 / (scaleDown num den guess).2 then guess + 1
  else guess

/-- The logarithms of numerator and denominator bound a quotient. They are whole numbers, so that
    the quotient is known up to a factor of two. -/
theorem log2_bounds {num den : Nat} (hnum : num ≠ 0) (hden : den ≠ 0) :
    (2 : ℚ) ^ ((num.log2 : Int) - den.log2 - 1) < num / den ∧
      (num : ℚ) / den < 2 ^ ((num.log2 : Int) - den.log2 + 1) := by
  have hnumLow : (2 : ℚ) ^ num.log2 ≤ num := by exact_mod_cast Nat.log2_self_le hnum
  have hnumHigh : (num : ℚ) < 2 ^ (num.log2 + 1) := by exact_mod_cast Nat.lt_log2_self
  have hdenLow : (2 : ℚ) ^ den.log2 ≤ den := by exact_mod_cast Nat.log2_self_le hden
  have hdenHigh : (den : ℚ) < 2 ^ (den.log2 + 1) := by exact_mod_cast Nat.lt_log2_self
  have hpos : (0 : ℚ) < den := by exact_mod_cast Nat.pos_of_ne_zero hden
  have htwo : (0 : ℚ) < 2 ^ den.log2 := by positivity
  rw [zpow_sub₀ (by norm_num), zpow_sub₀ (by norm_num), zpow_add₀ (by norm_num),
    zpow_sub₀ (by norm_num)]
  simp only [zpow_natCast, zpow_one]
  rw [pow_succ] at hnumHigh hdenHigh
  constructor
  · rw [div_div, div_lt_div_iff₀ (by positivity) hpos]
    nlinarith
  · rw [div_mul_eq_mul_div, div_lt_div_iff₀ hpos htwo]
    nlinarith

/-- With the exponent that is picked, a quotient has 53 bits before the point, or fewer if it is the
    least exponent. This decides how many bits are lost in rounding. -/
theorem pickExponent_spec {num den : Nat} (hnum : num ≠ 0) (hden : 0 < den) :
    minExponent ≤ pickExponent num den ∧
      (num : ℚ) / den < 2 ^ 53 * 2 ^ pickExponent num den ∧
      (pickExponent num den = minExponent ∨
        2 ^ 52 * 2 ^ pickExponent num den ≤ (num : ℚ) / den) := by
  obtain ⟨hlow, hhigh⟩ := log2_bounds hnum hden.ne'
  unfold pickExponent
  generalize (num.log2 : Int) - (den.log2 : Int) = k at hlow hhigh ⊢
  dsimp only
  have hguess : k - 53 ≤ max (k - 53) minExponent := le_max_left ..
  have hmin : minExponent ≤ max (k - 53) minExponent := le_max_right ..
  have hcases : max (k - 53) minExponent = k - 53 ∨ max (k - 53) minExponent = minExponent :=
    max_choice ..
  generalize max (k - 53) minExponent = guess at hguess hmin hcases ⊢
  obtain ⟨n, d, hscale, hd, hvalue⟩ := exists_scaleDown num hden guess
  have hcast : (0 : ℚ) < d := by exact_mod_cast hd
  have hpow : ∀ (c : Nat) (a : Int), (2 : ℚ) ^ c * 2 ^ a = 2 ^ (c + a) := by
    intro c a
    rw [zpow_add₀ (by norm_num), zpow_natCast]
  rw [hscale]
  dsimp only
  by_cases hlarge : Nat.pow 2 53 ≤ n / d
  · rw [if_pos hlarge]
    have hscaled : (2 : ℚ) ^ 53 ≤ num / den / 2 ^ guess := by
      rw [← hvalue, le_div_iff₀ hcast]
      exact_mod_cast (Nat.le_div_iff_mul_le hd).mp hlarge
    rw [le_div_iff₀ (two_zpow_pos _)] at hscaled
    refine ⟨by omega, ?_, .inr ?_⟩
    · rw [hpow]
      exact hhigh.trans_le (two_zpow_mono (by push_cast; omega))
    · rw [hpow] at hscaled ⊢
      refine le_trans (two_zpow_mono ?_) hscaled
      push_cast
      omega
  · rw [if_neg hlarge]
    have hscaled : (num : ℚ) / den / 2 ^ guess < 2 ^ 53 := by
      rw [← hvalue, div_lt_iff₀ hcast]
      exact_mod_cast (Nat.div_lt_iff_lt_mul hd).mp (not_le.mp hlarge)
    rw [div_lt_iff₀ (two_zpow_pos _)] at hscaled
    refine ⟨hmin, hscaled, ?_⟩
    rcases hcases with hguess | hguess
    · right
      rw [hpow]
      refine le_trans (two_zpow_mono ?_) hlow.le
      push_cast
      omega
    · exact .inl hguess

/-! ### Rounding the quotients near a double -/

/-- A quotient near a double has the exponent of the double; but just below a power of two it has 53
    bits already with the exponent before. Of the interval of a power of two, the lower part lies
    among doubles that are closer together. -/
theorem IsNear.exponent_cases (hx : IsNear m e x) (h : IsCanonical m e) {k : Int}
    (hmin : minExponent ≤ k) (hlt : x < 2 ^ 53 * 2 ^ k)
    (hnormal : k = minExponent ∨ 2 ^ 52 * 2 ^ k ≤ x) :
    k = e ∨ (k = e - 1 ∧ m = 2 ^ 52 ∧ minExponent < e) := by
  have hpos := two_zpow_pos e
  have hge := hx.ge
  rcases lt_trichotomy k e with hke | rfl | hek
  · right
    have he : minExponent < e := by omega
    have hm : 2 ^ 52 ≤ m := h.normal.resolve_left (by omega)
    have hstep : (2 : ℚ) ^ (e - 1) = 2 ^ e / 2 := by
      rw [zpow_sub_one₀ (by norm_num)]
      ring
    by_cases hpower : m = 2 ^ 52
    · refine ⟨?_, hpower, he⟩
      by_contra hne
      have hquarter : (2 : ℚ) ^ k ≤ 2 ^ e / 4 := by
        refine (two_zpow_mono (show k ≤ e - 1 - 1 by omega)).trans (le_of_eq ?_)
        rw [zpow_sub_one₀ (by norm_num), hstep]
        ring
      rw [reachBelow, if_pos ⟨hpower, he⟩, hpower] at hge
      push_cast at hge
      linarith
    · have hmore : (2 : ℚ) ^ 52 + 1 ≤ m := by
        exact_mod_cast (show 2 ^ 52 + 1 ≤ m by omega)
      have hhalf : (2 : ℚ) ^ k ≤ 2 ^ e / 2 := hstep ▸ two_zpow_mono (show k ≤ e - 1 by omega)
      rw [reachBelow, if_neg fun hboth => hpower hboth.1] at hge
      nlinarith
  · exact .inl rfl
  · have hle := hx.le
    have hm : (m : ℚ) + 1 ≤ 2 ^ 53 := by exact_mod_cast h.lt
    have hdouble : 2 * (2 : ℚ) ^ e ≤ 2 ^ k := by
      refine le_trans (le_of_eq ?_) (two_zpow_mono (show e + 1 ≤ k by omega))
      rw [zpow_add_one₀ (by norm_num)]
      ring
    have hlarge : 2 ^ 52 * 2 ^ k ≤ x := by
      refine hnormal.resolve_left fun hk => ?_
      have := h.min_le
      omega
    nlinarith

/-- The mantissa of a quotient near a double, rounded with the exponent of the double. The ends of
    the interval are where rounding changes to a neighbour. -/
theorem IsNear.roundHalfEven {n d : Nat} (hx : IsNear m e x) (hd : 0 < d)
    (hvalue : (n : ℚ) / d = x / 2 ^ e) : roundHalfEven n d = m := by
  have hpos := two_zpow_pos e
  have hcast : (0 : ℚ) < d := by exact_mod_cast hd
  have hreach := reachBelow_le m e
  have hx' : x = n / d * 2 ^ e := by
    rw [hvalue, div_mul_cancel₀ _ hpos.ne']
  -- The ends of the interval, in units of the last place.
  have hlow : (m : ℚ) - 1 / 2 ≤ n / d := by
    have hge := hx.ge
    rw [hx', mul_le_mul_iff_left₀ hpos] at hge
    linarith
  have hhigh : (n : ℚ) / d ≤ m + 1 / 2 := by
    have hle := hx.le
    rwa [hx', mul_le_mul_iff_left₀ hpos] at hle
  rw [le_div_iff₀ hcast] at hlow
  rw [div_le_iff₀ hcast] at hhigh
  refine roundHalfEven_eq hd ?_ ?_ fun hodd => ?_
  · have : (2 * m * d : ℚ) ≤ 2 * n + d := by linarith
    exact_mod_cast this
  · have : (2 * n : ℚ) ≤ (2 * m + 1) * d := by linarith
    exact_mod_cast this
  · rw [IsNear, if_neg (by omega), hx', mul_lt_mul_iff_left₀ hpos, mul_lt_mul_iff_left₀ hpos,
      div_lt_iff₀ hcast, lt_div_iff₀ hcast] at hx
    have hreach' : (m - 1 / 2 : ℚ) * d ≤ (m - reachBelow m e) * d := by
      refine mul_le_mul_of_nonneg_right ?_ hcast.le
      linarith
    constructor
    · have : (2 * m * d : ℚ) < 2 * n + d := by linarith [hx.1]
      exact_mod_cast this
    · have : (2 * n : ℚ) < (2 * m + 1) * d := by linarith [hx.2]
      exact_mod_cast this

/-- A quotient just below a power of two rounds up to it. The exponent that was picked is then one
    too small, and the mantissa one bit too long. -/
theorem IsNear.roundHalfEven_of_below {n d : Nat} (hx : IsNear m e x) (hm : m = 2 ^ 52)
    (he : minExponent < e) (hlt : x < 2 ^ 53 * 2 ^ (e - 1)) (hd : 0 < d)
    (hvalue : (n : ℚ) / d = x / 2 ^ (e - 1)) : Binary64.roundHalfEven n d = 2 ^ 53 := by
  have hpos := two_zpow_pos (e - 1)
  have hcast : (0 : ℚ) < d := by exact_mod_cast hd
  have hx' : x = n / d * 2 ^ (e - 1) := by
    rw [hvalue, div_mul_cancel₀ _ hpos.ne']
  have hdouble : (2 : ℚ) ^ e = 2 * 2 ^ (e - 1) := by
    rw [zpow_sub_one₀ (by norm_num)]
    ring
  have hlow : (2 : ℚ) ^ 53 - 1 / 2 ≤ n / d := by
    have hge := hx.ge
    rw [reachBelow, if_pos ⟨hm, he⟩, hm, hdouble, ← mul_assoc, hx',
      mul_le_mul_iff_left₀ hpos] at hge
    push_cast at hge
    linarith
  have hhigh : (n : ℚ) / d < 2 ^ 53 := by
    rwa [hx', mul_lt_mul_iff_left₀ hpos] at hlt
  rw [le_div_iff₀ hcast] at hlow
  rw [div_lt_iff₀ hcast] at hhigh
  have hlow' : 2 * 2 ^ 53 * d ≤ 2 * n + d := by
    have : (2 * 2 ^ 53 * d : ℚ) ≤ 2 * n + d := by linarith
    exact_mod_cast this
  have hhigh' : n < 2 ^ 53 * d := by exact_mod_cast hhigh
  exact roundHalfEven_eq hd hlow' (by omega) (by omega)

/-- A quotient in the interval of a double rounds to it. The two lemmas before cover the two
    exponents that can be picked. -/
theorem ofRatio_eq {num den : Nat} (h : IsCanonical m e) (hm : m ≠ 0) (hden : 0 < den)
    (hx : IsNear m e (num / den)) (negative : Bool) :
    ofRatio negative num den = .finite negative m e := by
  have hnum : num ≠ 0 := by
    rintro rfl
    have hge := hx.ge
    have hone : (1 : ℚ) ≤ m := by exact_mod_cast Nat.one_le_iff_ne_zero.mpr hm
    have hhalf := reachBelow_le m e
    have hpos : (0 : ℚ) < (m - reachBelow m e) * 2 ^ e :=
      mul_pos (by linarith) (two_zpow_pos e)
    rw [Nat.cast_zero, zero_div] at hge
    linarith
  obtain ⟨hmin, hlt, hnormal⟩ := pickExponent_spec hnum hden
  obtain ⟨n, d, hscale, hd, hvalue⟩ := exists_scaleDown num hden (pickExponent num den)
  have hround : ∀ p : Nat × Int,
      (if roundHalfEven n d = Nat.pow 2 53 then (Nat.pow 2 52, pickExponent num den + 1)
        else (roundHalfEven n d, pickExponent num den)) = p →
      p.2 ≤ maxExponent → ofRatio negative num den = .finite negative p.1 p.2 := by
    rintro p rfl hmax
    unfold ofRatio
    rw [if_neg hnum]
    unfold pickExponent at hscale hmax ⊢
    dsimp only at hscale hmax ⊢
    rw [hscale]
    exact if_neg (not_lt.mpr hmax)
  -- The mantissa is `m` where `e` is picked, and 2 ^ 53 where the exponent below is.
  refine hround (m, e) ?_ h.le_max
  rcases hx.exponent_cases h hmin hlt hnormal with hexponent | ⟨hexponent, hpower, he⟩
  · rw [hexponent] at hvalue ⊢
    have hmantissa : roundHalfEven n d = m := hx.roundHalfEven hd hvalue
    have hsmall : m ≠ Nat.pow 2 53 := Nat.ne_of_lt h.lt
    rw [hmantissa, if_neg hsmall]
  · rw [hexponent] at hvalue hlt ⊢
    have hmantissa : roundHalfEven n d = Nat.pow 2 53 :=
      hx.roundHalfEven_of_below hpower he hlt hd hvalue
    rw [hmantissa, if_pos rfl, Int.sub_add_cancel, hpower]
    rfl

/-! ### Reading decimals -/

/-- A number by the length of its digits. A number of that many digits lies between two powers of
    ten. -/
theorem toDigits_bounds {n : Nat} (hn : n ≠ 0) :
    10 ^ ((Nat.toDigits 10 n).length - 1) ≤ n ∧ n < 10 ^ (Nat.toDigits 10 n).length := by
  have hpos : 0 < (Nat.toDigits 10 n).length := Nat.length_toDigits_pos
  refine ⟨?_, (Nat.length_toDigits_le_iff (by decide) hpos).mp le_rfl⟩
  by_contra hlt
  rcases Nat.eq_zero_or_pos ((Nat.toDigits 10 n).length - 1) with hone | hmore
  · rw [hone] at hlt
    omega
  · have hle := (Nat.length_toDigits_le_iff (by decide) hmore).mpr (not_le.mp hlt)
    omega

/-- A decimal by the number of digits before its point. This is how decimals far out of range are
    told without computing them. -/
theorem decimal_bounds {digits : Nat} (hdigits : digits ≠ 0) (power : Int) :
    (10 : ℚ) ^ ((Nat.toDigits 10 digits).length + power - 1) ≤ digits * 10 ^ power ∧
      (digits : ℚ) * 10 ^ power < 10 ^ ((Nat.toDigits 10 digits).length + power) := by
  obtain ⟨hlow, hhigh⟩ := toDigits_bounds hdigits
  have hlength : 0 < (Nat.toDigits 10 digits).length := Nat.length_toDigits_pos
  generalize (Nat.toDigits 10 digits).length = len at hlow hhigh hlength ⊢
  have hpos : (0 : ℚ) < 10 ^ power := zpow_pos (by norm_num) power
  constructor
  · have hexponent : (len : Int) + power - 1 = ((len - 1 : Nat) : Int) + power := by omega
    rw [hexponent, zpow_add₀ (by norm_num), zpow_natCast]
    exact mul_le_mul_of_nonneg_right (by exact_mod_cast hlow) hpos.le
  · rw [zpow_add₀ (by norm_num), zpow_natCast]
    exact mul_lt_mul_of_pos_right (by exact_mod_cast hhigh) hpos

/-- What is near a finite double lies far inside of the range of decimals that are looked at. The
    range is generous, so that a rough comparison of powers of two and ten is enough. -/
theorem IsNear.range (hx : IsNear m e x) (h : IsCanonical m e) (hm : m ≠ 0) :
    (10 : ℚ) ^ (-400 : Int) < x ∧ x < 10 ^ (400 : Int) := by
  have hone : (1 : ℚ) ≤ m := by exact_mod_cast Nat.one_le_iff_ne_zero.mpr hm
  have hlt : (m : ℚ) + 1 ≤ 2 ^ (53 : Int) := by exact_mod_cast h.lt
  have hhalf := reachBelow_le m e
  have hpos := two_zpow_pos e
  -- Three bits are less than a decimal digit.
  have htens : (2 : ℚ) ^ (1200 : Int) < 10 ^ (400 : Int) := by
    have height : (2 : ℚ) ^ (3 : Int) < 10 := by norm_num
    calc (2 : ℚ) ^ (1200 : Int) = (2 ^ (3 : Int)) ^ (400 : Int) := zpow_mul 2 3 400
      _ < 10 ^ (400 : Int) := zpow_lt_zpow_left₀ (by decide) (by positivity) height
  constructor
  · have hbelow : (10 : ℚ) ^ (-400 : Int) < 2 ^ (-1200 : Int) := by
      rw [zpow_neg, zpow_neg]
      exact inv_strictAnti₀ (two_zpow_pos _) htens
    calc (10 : ℚ) ^ (-400 : Int) < 2 ^ (-1200 : Int) := hbelow
      _ ≤ 2 ^ (e - 1) := two_zpow_mono (by have := h.min_le; unfold minExponent at this; omega)
      _ = 1 / 2 * 2 ^ e := by
        rw [zpow_sub_one₀ (by norm_num)]
        ring
      _ ≤ (m - reachBelow m e) * 2 ^ e := mul_le_mul_of_nonneg_right (by linarith) hpos.le
      _ ≤ x := hx.ge
  · calc x ≤ (m + 1 / 2) * 2 ^ e := hx.le
      _ ≤ 2 ^ (53 : Int) * 2 ^ e := mul_le_mul_of_nonneg_right (by linarith) hpos.le
      _ = 2 ^ (53 + e) := (zpow_add₀ (by norm_num) _ _).symm
      _ ≤ 2 ^ (1200 : Int) := two_zpow_mono (by have := h.le_max; unfold maxExponent at this; omega)
      _ < 10 ^ (400 : Int) := htens

/-- A decimal in the interval of a double is read as it. The decimal is in range, and as a quotient
    it rounds to the double. -/
theorem ofDecimal_eq {digits : Nat} {power : Int} (h : IsCanonical m e) (hm : m ≠ 0)
    (hx : IsNear m e (digits * 10 ^ power)) (negative : Bool) :
    ofDecimal negative digits power = .finite negative m e := by
  obtain ⟨hsmall, hlarge⟩ := hx.range h hm
  have hdigits : digits ≠ 0 := by
    rintro rfl
    rw [Nat.cast_zero, zero_mul] at hsmall
    exact absurd hsmall (not_lt.mpr (zpow_pos (by norm_num) _).le)
  obtain ⟨hlow, hhigh⟩ := decimal_bounds hdigits power
  unfold ofDecimal
  rw [if_neg hdigits]
  dsimp only
  generalize ((Nat.toDigits 10 digits).length : Int) + power = magnitude at hlow hhigh ⊢
  have hmono : ∀ {a b : Int}, (10 : ℚ) ^ a < 10 ^ b → a < b := fun hab =>
    (zpow_lt_zpow_iff_right₀ (by norm_num)).mp hab
  have hupper : magnitude - 1 < 400 := hmono (hlow.trans_lt hlarge)
  have hlower : -400 < magnitude := hmono (hsmall.trans hhigh)
  rw [if_neg (by omega), if_neg (by omega)]
  obtain ⟨n, d, hratio, hd, hvalue⟩ := exists_tens digits power
  rw [← hvalue] at hx
  by_cases hpower : 0 ≤ power
  · rw [if_pos hpower] at hratio ⊢
    obtain ⟨rfl, rfl⟩ := Prod.mk.inj hratio
    have habs : power.toNat = power.natAbs := by omega
    rw [habs]
    exact ofRatio_eq h hm hd hx negative
  · rw [if_neg hpower] at hratio ⊢
    obtain ⟨rfl, rfl⟩ := Prod.mk.inj hratio
    have habs : (-power).toNat = power.natAbs := by omega
    rw [habs]
    exact ofRatio_eq h hm hd hx negative

end Backlog.Number.Binary64
