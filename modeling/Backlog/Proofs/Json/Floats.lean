import Backlog.Proofs.Json.Scalars
import Backlog.Proofs.Number.Shortest

namespace Backlog.Json

open Backlog.Number Backlog.Text

/-!
# Floating-point numbers in JSON

The text of a number with a fraction or an exponent is read as such a number again, and as no other
value than its digits have.

* `readNumber_parts` — a whole part, and then a fraction or an exponent, is a floating-point number;
* `isFloat_layOut` — so are significant digits, wherever the point falls among them;
* `exists_readsAs_float` — what is written of a floating-point number is read as one;
* `readsBack_float` — a finite one is read as it was written.
-/

/-! ### The parts of a number -/

theorem isWhole_zero : IsWhole ['0'] :=
  ⟨by simp, List.forall_mem_singleton.mpr rfl, fun _ => rfl⟩

theorem endsDigits_cons {c : Char} {rest : List Char} (h : c.isDigit = false) :
    EndsDigits (c :: rest) := by
  intro d hd
  obtain rfl := Option.some.inj hd
  exact h

/-- Behind the whole part, a point and digits are the fraction. -/
theorem fractionPart_digits {fraction rest : List Char} (hne : fraction ≠ [])
    (hdigits : ∀ c ∈ fraction, c.isDigit = true) (hrest : EndsDigits rest) :
    fractionPart ('.' :: (fraction ++ rest)) = (some fraction, rest) := by
  obtain ⟨htake, hdrop⟩ := takeWhile_digits hdigits hrest
  have hempty : fraction.isEmpty = false := by simpa using hne
  simp only [fractionPart, htake, hdrop, hempty, Bool.false_eq_true, if_false]

/-- Behind that, a mark, a sign and digits are the exponent. -/
theorem exponentPart_digits {sign : Char} (hsign : sign = '-' ∨ sign = '+')
    {digits rest : List Char} (hne : digits ≠ []) (hdigits : ∀ c ∈ digits, c.isDigit = true)
    (hrest : EndsDigits rest) :
    exponentPart ('e' :: sign :: (digits ++ rest)) =
      (some (signed (sign = '-') (Nat.ofDigitChars 10 digits 0)), rest) := by
  have hempty : digits.isEmpty = false := by simpa using hne
  obtain ⟨htake, hdrop⟩ := takeWhile_digits hdigits hrest
  rcases hsign with rfl | rfl <;>
    simp [exponentPart, splitSign, htake, hdrop, hempty]

/-- A whole part, and then a fraction or an exponent, is a floating-point number. Without either of
    them it would be a whole number. -/
theorem readNumber_parts {whole behind more rest : List Char} {fraction : Option (List Char)}
    {exponent : Option Int} (hwhole : IsWhole whole) (hbehind : EndsDigits behind)
    (hfraction : fractionPart behind = (fraction, more))
    (hexponent : exponentPart more = (exponent, rest)) (hpart : fraction.isSome ∨ exponent.isSome)
    (negative : Bool) :
    readNumber (signChars negative ++ (whole ++ behind)) =
      .ok (.float (ofParts negative whole fraction exponent), rest) := by
  rw [readNumber_signChars hwhole hbehind hfraction hexponent]
  -- Without a fraction, an exponent makes it a floating-point number.
  cases fraction with
  | some _ => rfl
  | none =>
    cases exponent with
    | some _ => rfl
    | none => simp at hpart

/-! ### Digits with a point among them -/

/-- Significant digits: at least one, of which the first is no zero. -/
structure IsSignificant (digits : List Char) : Prop where
  ne_nil : digits ≠ []
  isDigit : ∀ c ∈ digits, c.isDigit = true
  head : digits.head? ≠ some '0'

theorem isDigit_of_mem_replicate {n : Nat} : ∀ c ∈ List.replicate n '0', c.isDigit = true := by
  intro c hc
  obtain rfl := List.eq_of_mem_replicate hc
  rfl

/-- The first digits, with zeros behind them, are a whole part. The first digit is no zero, so that
    the rule about leading zeros does not apply. -/
theorem IsSignificant.isWhole_take {digits : List Char} (h : IsSignificant digits) {count : Nat}
    (hcount : 0 < count) (zeros : Nat) :
    IsWhole (digits.take count ++ List.replicate zeros '0') := by
  obtain ⟨d, ds, rfl⟩ := List.exists_cons_of_ne_nil h.ne_nil
  obtain ⟨count, rfl⟩ : ∃ n, count = n + 1 := ⟨count - 1, by omega⟩
  refine ⟨by simp, fun c hc => ?_, fun hhead => absurd hhead ?_⟩
  · rcases List.mem_append.mp hc with hc | hc
    · exact h.isDigit c (List.mem_of_mem_take hc)
    · exact isDigit_of_mem_replicate c hc
  · simpa using h.head

/-- Characters that read as a decimal of some value, with a minus sign in front or without, whatever
    stands behind them. -/
def IsFloat (cs : List Char) (value : ℚ) : Prop :=
  ∃ (digits : Nat) (power : Int), (digits : ℚ) * 10 ^ power = value ∧
    ∀ negative rest, EndsScalar rest →
      readNumber (signChars negative ++ (cs ++ rest)) =
        .ok (.float (.ofDecimal negative digits power), rest)

/-- Digits before the point, or a zero, and digits behind it. The value is that of all digits, with
    the point moved. -/
theorem isFloat_positional {whole fraction : List Char} (hwhole : IsWhole whole)
    (hne : fraction ≠ []) (hfraction : ∀ c ∈ fraction, c.isDigit = true) :
    IsFloat (whole ++ '.' :: fraction)
      (Nat.ofDigitChars 10 (whole ++ fraction) 0 * 10 ^ (0 - (fraction.length : Int))) := by
  refine ⟨_, _, rfl, fun negative rest hrest => ?_⟩
  rw [List.append_assoc, List.cons_append]
  exact readNumber_parts hwhole (endsDigits_cons (by decide))
    (fractionPart_digits hne hfraction hrest.endsDigits) (exponentPart_eq_none hrest)
    (.inl rfl) negative

/-- One digit, perhaps others behind a point, and an exponent. The value is that of all digits, with
    the point moved by the exponent too. -/
theorem isFloat_scientific {whole tail digits : List Char} {sign : Char}
    (hwhole : IsWhole whole) (htail : ∀ c ∈ tail, c.isDigit = true)
    (hsign : sign = '-' ∨ sign = '+') (hne : digits ≠ [])
    (hdigits : ∀ c ∈ digits, c.isDigit = true) :
    IsFloat (whole ++ ((if tail.isEmpty then [] else '.' :: tail) ++ 'e' :: sign :: digits))
      (Nat.ofDigitChars 10 (whole ++ tail) 0 *
        10 ^ (signed (sign = '-') (Nat.ofDigitChars 10 digits 0) - (tail.length : Int))) := by
  refine ⟨_, _, rfl, fun negative rest hrest => ?_⟩
  have hexponent := exponentPart_digits hsign hne hdigits hrest.endsDigits
  cases tail with
  | nil =>
    have hnone : fractionPart ('e' :: sign :: (digits ++ rest)) =
        (none, 'e' :: sign :: (digits ++ rest)) := rfl
    simpa [ofParts] using readNumber_parts hwhole (endsDigits_cons (by decide)) hnone hexponent
      (.inr rfl) negative
  | cons d ds =>
    have hsome : fractionPart ('.' :: (d :: ds ++ 'e' :: sign :: (digits ++ rest))) =
        (some (d :: ds), 'e' :: sign :: (digits ++ rest)) :=
      fractionPart_digits (List.cons_ne_nil d ds) htail (endsDigits_cons (by decide))
    simpa [ofParts] using readNumber_parts hwhole (endsDigits_cons (by decide)) hsome hexponent
      (.inr rfl) negative

/-- Zeros in front of the digits do not count. They stand between the point and the digits of a
    small number. -/
theorem ofDigitChars_zeros (count : Nat) (digits : List Char) :
    Nat.ofDigitChars 10 (['0'] ++ (List.replicate count '0' ++ digits)) 0 =
      Nat.ofDigitChars 10 digits 0 := by
  rw [Nat.ofDigitChars_append, Nat.ofDigitChars_append, Nat.ofDigitChars_replicate_zero]
  simp [Nat.ofDigitChars_cons]

/-- The digits of an exponent, with zeros in front and a sign, are the exponent. An exponent of one
    digit gets a zero in front. -/
theorem signed_digits (count : Nat) (exponent : Int) :
    signed ((if exponent < 0 then '-' else '+') = '-')
      (Nat.ofDigitChars 10 (List.replicate count '0' ++ Nat.toDigits 10 exponent.natAbs) 0) =
        exponent := by
  rw [Nat.ofDigitChars_append, Nat.ofDigitChars_replicate_zero, Nat.mul_zero,
    Nat.ofDigitChars_ten_toDigits]
  by_cases hsign : exponent < 0
  · simp only [if_pos hsign, decide_true, signed, if_true]
    omega
  · simp only [if_neg hsign, signed]
    rw [if_neg (by decide)]
    omega

/-- Significant digits are a floating-point number, wherever the point falls among them. The layout
    has three forms, by where the point falls, and a fourth with an exponent. -/
theorem IsSignificant.isFloat_layOut {digits : List Char} (h : IsSignificant digits) (point : Int) :
    IsFloat (Binary64.layOut digits point)
      (Nat.ofDigitChars 10 digits 0 * 10 ^ (point - digits.length)) := by
  unfold Binary64.layOut
  split
  · split
    · -- all digits are behind the point, after a zero
      have hdigits : ∀ c ∈ List.replicate (-point).toNat '0' ++ digits, c.isDigit = true := by
        intro c hc
        exact (List.mem_append.mp hc).elim (isDigit_of_mem_replicate c) (h.isDigit c)
      have hfloat := isFloat_positional isWhole_zero (by simp [h.ne_nil]) hdigits
      have hpower : 0 - ((List.replicate (-point).toNat '0' ++ digits).length : Int) =
          point - digits.length := by
        rw [List.length_append, List.length_replicate]
        omega
      rwa [ofDigitChars_zeros, hpower] at hfloat
    · rename_i hpoint
      have hwhole := h.isWhole_take (show 0 < point.toNat by omega)
        (point.toNat - digits.length)
      have hdrop : ∀ c ∈ digits.drop point.toNat, c.isDigit = true :=
        fun c hc => h.isDigit c (List.mem_of_mem_drop hc)
      dsimp only
      split
      · -- no digits are left for behind the point, where a zero stands
        rename_i hfraction
        have hlength : digits.length ≤ point.toNat := by simpa using hfraction
        have hfloat := isFloat_positional hwhole (List.cons_ne_nil '0' [])
          (List.forall_mem_singleton.mpr rfl)
        have hvalue : (Nat.ofDigitChars 10 (digits.take point.toNat ++
              List.replicate (point.toNat - digits.length) '0' ++ ['0']) 0 : ℚ) *
            10 ^ (0 - ((['0'] : List Char).length : Int)) =
              Nat.ofDigitChars 10 digits 0 * 10 ^ (point - digits.length) := by
          have hexponent : point - digits.length = ((point.toNat - digits.length : Nat) : Int) := by
            omega
          rw [List.take_of_length_le hlength, Nat.ofDigitChars_append, Nat.ofDigitChars_append,
            Nat.ofDigitChars_replicate_zero, hexponent, zpow_natCast]
          simp [Nat.ofDigitChars_cons]
          ring
        rwa [hvalue] at hfloat
      · rename_i hfraction
        have hlength : point.toNat < digits.length := by simpa using hfraction
        have hfloat := isFloat_positional hwhole (by simpa using hfraction) hdrop
        have hpadding : point.toNat - digits.length = 0 := by omega
        have hpower : 0 - ((digits.drop point.toNat).length : Int) = point - digits.length := by
          rw [List.length_drop]
          omega
        rw [hpower] at hfloat
        rw [hpadding, List.replicate_zero, List.append_nil] at hfloat ⊢
        rwa [List.take_append_drop] at hfloat
  -- One digit before the point, and the rest behind it, with an exponent.
  · have hwhole := h.isWhole_take Nat.one_pos 0
    have htail : ∀ c ∈ digits.drop 1, c.isDigit = true :=
      fun c hc => h.isDigit c (List.mem_of_mem_drop hc)
    have hsign : (if point - 1 < 0 then '-' else '+') = '-' ∨
        (if point - 1 < 0 then '-' else '+') = '+' := by
      split
      · exact .inl rfl
      · exact .inr rfl
    have hshown : ∀ c ∈ List.replicate (Binary64.layout.exponentWidth -
          (Nat.toDigits 10 (point - 1).natAbs).length) '0' ++ Nat.toDigits 10 (point - 1).natAbs,
        c.isDigit = true := by
      intro c hc
      exact (List.mem_append.mp hc).elim (isDigit_of_mem_replicate c) (isDigit_of_mem_toDigits c)
    have hfloat := isFloat_scientific hwhole htail hsign (by simp) hshown
    have hpower : point - 1 - ((digits.drop 1).length : Int) = point - digits.length := by
      have hlength := List.length_pos_iff.mpr h.ne_nil
      rw [List.length_drop]
      omega
    rw [signed_digits, hpower] at hfloat
    simpa only [List.replicate_zero, List.append_nil, List.append_assoc, List.cons_append,
      List.take_append_drop] using hfloat

/-- They begin with a digit. A number below one begins with a zero. -/
theorem IsSignificant.exists_digit_layOut {digits : List Char} (h : IsSignificant digits)
    (point : Int) : ∃ d ds, Binary64.layOut digits point = d :: ds ∧ d.isDigit = true := by
  obtain ⟨d, ds, rfl⟩ := List.exists_cons_of_ne_nil h.ne_nil
  have hd := h.isDigit d (List.mem_cons_self ..)
  unfold Binary64.layOut
  split
  · split
    · exact ⟨'0', _, rfl, rfl⟩
    · obtain ⟨count, hcount⟩ : ∃ n, point.toNat = n + 1 := ⟨point.toNat - 1, by omega⟩
      rw [hcount]
      exact ⟨d, _, rfl, hd⟩
  · exact ⟨d, _, rfl, hd⟩

/-! ### The shortest digits -/

/-- Of digits that do not begin with zero, at least the first one is kept. The zeros that are
    dropped stand at the end. -/
theorem dropTrailingZeros_cons {d : Char} (hd : d ≠ '0') (ds : List Char) :
    Binary64.dropTrailingZeros (d :: ds) = d :: (ds.reverse.dropWhile (· = '0')).reverse := by
  have hkept : ((d :: ds).reverse.dropWhile (· = '0')).reverse =
      d :: (ds.reverse.dropWhile (· = '0')).reverse := by
    rw [List.reverse_cons, List.dropWhile_append]
    split
    · rename_i hempty
      rw [List.isEmpty_iff.mp hempty]
      simp [hd]
    · simp
  rw [Binary64.dropTrailingZeros, hkept]

/-- The digits that are dropped are zeros. How many they are is left open. -/
theorem exists_trailingZeros {d : Char} (hd : d ≠ '0') (ds : List Char) :
    ∃ count, d :: ds = Binary64.dropTrailingZeros (d :: ds) ++ List.replicate count '0' := by
  have hsplit : ds = (ds.reverse.dropWhile (· = '0')).reverse ++
      (ds.reverse.takeWhile (· = '0')).reverse := by
    rw [← List.reverse_append, List.takeWhile_append_dropWhile, List.reverse_reverse]
  have hzeros : ∀ c ∈ (ds.reverse.takeWhile (· = '0')).reverse, c = '0' := by
    intro c hc
    simpa using List.all_eq_true.mp List.all_takeWhile c (List.mem_reverse.mp hc)
  refine ⟨(ds.reverse.takeWhile (· = '0')).reverse.length, ?_⟩
  rw [dropTrailingZeros_cons hd, List.cons_append, ← List.eq_replicate_of_mem hzeros, ← hsplit]

/-- The digits of a number begin with a digit that is no zero. It is the first of the significant
    digits. -/
theorem exists_cons_toDigits {n : Nat} (hn : n ≠ 0) :
    ∃ d ds, Nat.toDigits 10 n = d :: ds ∧ d ≠ '0' := by
  obtain ⟨d, ds, hdigits⟩ :=
    List.exists_cons_of_ne_nil (Nat.toDigits_ne_nil : Nat.toDigits 10 n ≠ [])
  have hhead := head?_toDigits_ne hn
  rw [hdigits] at hhead
  exact ⟨d, ds, hdigits, by simpa using hhead⟩

/-- The digits of a number, without zeros at their end. They are neither empty nor begin with
    zero. -/
theorem isSignificant_dropTrailingZeros {n : Nat} (hn : n ≠ 0) :
    IsSignificant (Binary64.dropTrailingZeros (Nat.toDigits 10 n)) := by
  have hdigit : ∀ c ∈ Nat.toDigits 10 n, c.isDigit = true := isDigit_of_mem_toDigits
  obtain ⟨d, ds, hdigits, hd⟩ := exists_cons_toDigits hn
  obtain ⟨count, hzeros⟩ := exists_trailingZeros hd ds
  rw [hdigits] at hdigit ⊢
  refine ⟨?_, fun c hc => hdigit c ?_, ?_⟩
  · rw [dropTrailingZeros_cons hd]
    exact List.cons_ne_nil _ _
  · rw [hzeros]
    exact List.mem_append_left _ hc
  · rw [dropTrailingZeros_cons hd]
    simpa using hd

/-- Without their zeros the digits stand for a multiple of a greater power of ten. The digits and
    the power of ten change together, and the value stays. -/
theorem value_dropTrailingZeros {n : Nat} (hn : n ≠ 0) (power : Int) :
    (Nat.ofDigitChars 10 (Binary64.dropTrailingZeros (Nat.toDigits 10 n)) 0 : ℚ) *
        10 ^ ((Nat.toDigits 10 n).length + power -
          (Binary64.dropTrailingZeros (Nat.toDigits 10 n)).length) = n * 10 ^ power := by
  obtain ⟨d, ds, hdigits, hd⟩ := exists_cons_toDigits hn
  obtain ⟨count, hzeros⟩ := exists_trailingZeros hd ds
  have hvalue : Nat.ofDigitChars 10 (Nat.toDigits 10 n) 0 = n := Nat.ofDigitChars_ten_toDigits
  rw [← hdigits] at hzeros
  generalize Binary64.dropTrailingZeros (Nat.toDigits 10 n) = kept at hzeros ⊢
  have hpower : ((Nat.toDigits 10 n).length : Int) + power - kept.length = count + power := by
    rw [hzeros, List.length_append, List.length_replicate]
    omega
  have hkept : 10 ^ count * Nat.ofDigitChars 10 kept 0 = n := by
    rw [← Nat.ofDigitChars_replicate_zero, ← Nat.ofDigitChars_append, ← hzeros, hvalue]
  have hcast : (n : ℚ) = 10 ^ count * Nat.ofDigitChars 10 kept 0 := by exact_mod_cast hkept.symm
  rw [hpower, zpow_add₀ (by norm_num), zpow_natCast, hcast]
  ring

/-- Scaling keeps zero and a denominator that is not zero. A quotient without value stays
    without. -/
theorem scaleDown_zero {den : Nat} (h : den ≠ 0) (e : Int) :
    (Binary64.scaleDown 0 den e).1 = 0 ∧ (Binary64.scaleDown 0 den e).2 ≠ 0 := by
  unfold Binary64.scaleDown
  split
  · exact ⟨rfl, by simp [h]⟩
  · exact ⟨by simp, h⟩

/-- Zero rounds to no number but zero. No other interval reaches down to it. -/
theorem roundsTo_zero {mantissa : Nat} (h : mantissa ≠ 0) (exponent power : Int) :
    Binary64.roundsTo mantissa exponent 0 power = false := by
  have hlow : 0 < (Binary64.roundingEnds mantissa exponent).1 := by
    unfold Binary64.roundingEnds
    dsimp only
    split <;> omega
  have htens : Nat.pow 10 power.natAbs ≠ 0 := by simp
  obtain ⟨hnum, hden⟩ : (Binary64.scaleDown 0 (if 0 ≤ power then 1 else Nat.pow 10 power.natAbs)
      (exponent - 2)).1 = 0 ∧ (Binary64.scaleDown 0
        (if 0 ≤ power then 1 else Nat.pow 10 power.natAbs) (exponent - 2)).2 ≠ 0 := by
    refine scaleDown_zero ?_ _
    split
    · exact Nat.one_ne_zero
    · exact htens
  have hpair : (if 0 ≤ power then (0 * Nat.pow 10 power.natAbs, 1)
      else (0, Nat.pow 10 power.natAbs)) =
        (0, if 0 ≤ power then 1 else Nat.pow 10 power.natAbs) := by
    split <;> simp
  have hpos := Nat.mul_pos hlow (Nat.pos_of_ne_zero hden)
  unfold Binary64.roundsTo
  simp only [hpair, hnum]
  split <;> simp only [Bool.and_eq_false_iff, decide_eq_false_iff_not] <;> left <;> omega

/-- Where a grid hits, there are digits. A grid that hits has a point in the interval of the number,
    which zero is not. -/
theorem gridPoint?_ne_zero {mantissa : Nat} (h : mantissa ≠ 0) {exponent power : Int}
    {num den digits : Nat}
    (hits : Binary64.gridPoint? mantissa exponent num den power = some digits) :
    digits ≠ 0 := by
  rintro rfl
  unfold Binary64.gridPoint? at hits
  dsimp only at hits
  generalize (if 0 ≤ power then (num, den * Nat.pow 10 power.natAbs)
    else (num * Nat.pow 10 power.natAbs, den)) = grid at hits
  -- Nothing below the first multiple is hit.
  by_cases hq : grid.1 / grid.2 = 0
  · simp only [hq, roundsTo_zero h, Nat.zero_add] at hits
    split at hits <;> simp_all
  · split at hits
    · grind
    · exact hq (Option.some.inj hits)
    · simp at hits
    · cases hits

/-- Where the search hits, there are digits; otherwise it ends with a whole number. The second case
    has no digits behind the point, so that it is a plain number as well. -/
theorem searchGrids_cases {mantissa : Nat} (h : mantissa ≠ 0) (exponent : Int) (num den : Nat)
    (point : Int) (counts : List Nat) :
    (Binary64.searchGrids mantissa exponent num den point counts).1 ≠ 0 ∨
      (Binary64.searchGrids mantissa exponent num den point counts).2 = 0 := by
  induction counts with
  | nil => exact .inr rfl
  | cons count counts ih =>
    rw [Binary64.searchGrids]
    split
    · rename_i digits hdigits
      exact .inl (gridPoint?_ne_zero h hdigits)
    · exact ih

/-! ### Numbers as they are written -/

/-- A zero, a point and a zero. Zero is written like this. -/
theorem isFloat_zero : IsFloat ['0', '.', '0'] 0 := by
  have hfloat := isFloat_positional isWhole_zero (List.cons_ne_nil '0' [])
    (List.forall_mem_singleton.mpr rfl)
  simpa [Nat.ofDigitChars_cons] using hfloat

/-- The characters of a finite number begin with a digit, and read as a decimal of the value that
    the number shows. Which digits they are does not matter here; that they are enough is proved
    with the numbers. -/
theorem isFloat_magnitudeChars (mantissa : Nat) (exponent : Int) :
    (∃ d ds, Binary64.magnitudeChars mantissa exponent = d :: ds ∧ d.isDigit = true) ∧
      IsFloat (Binary64.magnitudeChars mantissa exponent)
        (Binary64.shownValue mantissa exponent) := by
  by_cases hmantissa : mantissa = 0
  · subst hmantissa
    exact ⟨⟨'0', _, rfl, rfl⟩, isFloat_zero⟩
  have hcases : (Binary64.shortest mantissa exponent).1 ≠ 0 ∨
      (Binary64.shortest mantissa exponent).2 = 0 := searchGrids_cases hmantissa _ _ _ _ _
  have hchars : Binary64.magnitudeChars mantissa exponent =
      Binary64.layOut (Binary64.dropTrailingZeros
          (Nat.toDigits 10 (Binary64.shortest mantissa exponent).1))
        ((Nat.toDigits 10 (Binary64.shortest mantissa exponent).1).length +
          (Binary64.shortest mantissa exponent).2) := by
    rw [Binary64.magnitudeChars, if_neg hmantissa]
  rw [hchars, Binary64.shownValue, if_neg hmantissa]
  generalize Binary64.shortest mantissa exponent = found at hcases ⊢
  obtain ⟨digits, power⟩ := found
  by_cases hdigits : digits = 0
  · -- then it is the whole number zero
    obtain rfl : power = 0 := hcases.resolve_left (fun h => h hdigits)
    subst hdigits
    refine ⟨⟨'0', _, rfl, rfl⟩, ?_⟩
    rw [Nat.cast_zero, zero_mul]
    exact isFloat_zero
  · have hsignificant := isSignificant_dropTrailingZeros hdigits
    have hfloat := hsignificant.isFloat_layOut ((Nat.toDigits 10 digits).length + power)
    rw [value_dropTrailingZeros hdigits] at hfloat
    exact ⟨hsignificant.exists_digit_layOut _, hfloat⟩

/-- What is written of a finite number is read as a decimal of the value that it shows. The sign in
    front is passed on to the number. -/
theorem exists_readsAs_finite (ascii negative : Bool) (mantissa : Nat) (exponent : Int) :
    ∃ (digits : Nat) (power : Int),
      (digits : ℚ) * 10 ^ power = Binary64.shownValue mantissa exponent ∧
      ReadsAs ascii (.float (.finite negative mantissa exponent))
        (.float (.ofDecimal negative digits power)) := by
  obtain ⟨⟨d, ds, hchars, hd⟩, digits, power, hvalue, hread⟩ :=
    isFloat_magnitudeChars mantissa exponent
  have hwrite : writeScalar ascii (.float (.finite negative mantissa exponent)) =
      signChars negative ++ Binary64.magnitudeChars mantissa exponent := by
    rw [writeScalar, writeFloat, Binary64.textWith, String.toList_ofList]
    rfl
  obtain ⟨hopening, hquote, hbrace, hbracket⟩ := isOpening_of_isDigit hd
  rw [hchars] at hwrite hread
  refine ⟨digits, power, hvalue, ?_, fun fuel rest hrest => ?_⟩
  · rw [hwrite]
    cases negative with
    | true => exact ⟨'-', _, rfl, by decide⟩
    | false => exact ⟨d, ds, rfl, hopening⟩
  · rw [hwrite, List.append_assoc, ← hread negative rest hrest]
    cases negative with
    | true =>
      rw [signChars, if_pos rfl, List.cons_append, List.nil_append, List.cons_append,
        readValue_eq_readPlain (by decide) (by decide) (by decide), (readPlain_digits hd).2]
    | false =>
      rw [signChars, if_neg Bool.false_ne_true, List.nil_append, List.cons_append,
        readValue_eq_readPlain hquote hbrace hbracket, (readPlain_digits hd).1]

/-- What is written of a floating-point number is read as one. Infinities and what is no number have
    words of their own. -/
theorem exists_readsAs_float (ascii : Bool) (x : Binary64) :
    ∃ y, ReadsAs ascii (.float x) (.float y) := by
  cases x with
  | nan =>
    refine ⟨.nan, ⟨'N', ['a', 'N'], rfl, by decide⟩, fun fuel rest _ => ?_⟩
    rw [show writeScalar ascii (.float .nan) = ['N', 'a', 'N'] from rfl, List.cons_append,
      readValue_eq_readPlain (by decide) (by decide) (by decide)]
    simp [readPlain, words, List.isPrefixOf]
  | infinity negative =>
    refine ⟨.infinity negative, ?_, fun fuel rest _ => ?_⟩
    · cases negative with
      | true => exact ⟨'-', _, rfl, by decide⟩
      | false => exact ⟨'I', _, rfl, by decide⟩
    · have hwrite : writeScalar ascii (.float (.infinity negative)) =
          signChars negative ++ ['I', 'n', 'f', 'i', 'n', 'i', 't', 'y'] := by
        cases negative <;> rfl
      rw [hwrite]
      cases negative <;>
        simp only [signChars, if_true, Bool.false_eq_true, if_false, List.nil_append,
          List.cons_append] <;>
        rw [readValue_eq_readPlain (by decide) (by decide) (by decide)] <;>
        simp [readPlain, words, List.isPrefixOf]
  | finite negative mantissa exponent =>
    obtain ⟨digits, power, _, hread⟩ := exists_readsAs_finite ascii negative mantissa exponent
    exact ⟨_, hread⟩

/-- A finite number is read as it was written. Its shortest digits lie in its own interval, and the
    reader rounds them back. -/
theorem readsBack_float (ascii : Bool) {x : Binary64} (h : x.IsFinite) :
    ReadsBack ascii (.float x) := by
  cases x with
  | nan => exact absurd h id
  | infinity _ => exact absurd h id
  | finite negative mantissa exponent =>
    obtain ⟨digits, power, hvalue, hread⟩ :=
      exists_readsAs_finite ascii negative mantissa exponent
    rwa [Binary64.ofDecimal_of_shownValue h hvalue] at hread

end Backlog.Json
