import Backlog.Text.Utf8

namespace Backlog.Text

/-!
# Texts as bytes, written and read

Encoding a character and decoding it again goes by the number of its bytes, with a case for each.
For a whole text it is an induction over its characters, each of which is read whatever stands
behind it.

* `Utf8.decode_encode` — a text is decoded from its own bytes;
* `unifyLineEnds_eq_self` — a text without carriage returns keeps its line ends.
-/

namespace Utf8

theorem toNat_byte {n : Nat} (h : n < 256) : (UInt8.ofNat n).toNat = n := by
  rw [UInt8.toNat_ofNat']
  exact Nat.mod_eq_of_lt h

/-- Continuation bytes are those that begin with the bits `10`. -/
theorem isContinuation_iff {b : Nat} : isContinuation b = true ↔ 0x80 ≤ b ∧ b < 0xc0 := by
  simp [isContinuation]

/-- A character is no surrogate and has at most four bytes. This is the invariant of `Char`, as
    numbers. -/
theorem toNat_bounds (c : Char) : c.toNat < 0x110000 ∧ ¬(0xd800 ≤ c.toNat ∧ c.toNat < 0xe000) := by
  have h := c.valid
  simp only [UInt32.isValidChar, Nat.isValidChar] at h
  have heq : c.toNat = c.val.toNat := rfl
  omega

/-! ### Sequences of each length -/

section Sequences

variable {lead : Nat} {b c d : UInt8} (rest : Bytes)

theorem decodeStep_one (h : lead < 0x80) : decodeStep lead rest = .ok (Char.ofNat lead, 1) := by
  unfold decodeStep
  rw [if_pos h]

/-- A sequence of two bytes gives five bits and six. The lead 0xc2 is the least one that does not
    spell an ASCII character at length. -/
theorem decodeStep_two (hlow : 0xc2 ≤ lead) (hhigh : lead < 0xe0)
    (hb : isContinuation b.toNat = true) :
    decodeStep lead (b :: rest) =
      .ok (Char.ofNat ((lead - 0xc0) * 64 + (b.toNat - 0x80)), 2) := by
  have hstart : ¬(decide (lead < 0xc2) || decide (0xf5 ≤ lead)) = true := by simp; omega
  unfold decodeStep
  rw [if_neg (by omega), if_neg hstart, if_pos hhigh]
  simp only [hb, if_true]

/-- A sequence of three bytes gives four bits and twice six, if the second byte is one of those
    allowed after the lead. -/
theorem decodeStep_three (hlow : 0xe0 ≤ lead) (hhigh : lead < 0xf0)
    (hb : secondAllowed lead b.toNat = true) (hc : isContinuation c.toNat = true) :
    decodeStep lead (b :: c :: rest) =
      .ok (Char.ofNat ((lead - 0xe0) * 4096 + (b.toNat - 0x80) * 64 + (c.toNat - 0x80)), 3) := by
  have hstart : ¬(decide (lead < 0xc2) || decide (0xf5 ≤ lead)) = true := by simp; omega
  unfold decodeStep
  rw [if_neg (by omega), if_neg hstart, if_neg (by omega), if_pos hhigh]
  simp only [hb, hc, Bool.not_true, Bool.false_eq_true, if_true, if_false]

/-- A sequence of four bytes gives three bits and three times six, if the second byte is one of
    those allowed after the lead. -/
theorem decodeStep_four (hlow : 0xf0 ≤ lead) (hhigh : lead < 0xf5)
    (hb : secondAllowed lead b.toNat = true) (hc : isContinuation c.toNat = true)
    (hd : isContinuation d.toNat = true) :
    decodeStep lead (b :: c :: d :: rest) =
      .ok (Char.ofNat ((lead - 0xf0) * 262144 + (b.toNat - 0x80) * 4096 +
        (c.toNat - 0x80) * 64 + (d.toNat - 0x80)), 4) := by
  have hstart : ¬(decide (lead < 0xc2) || decide (0xf5 ≤ lead)) = true := by simp; omega
  unfold decodeStep
  rw [if_neg (by omega), if_neg hstart, if_neg (by omega), if_neg (by omega)]
  simp only [hb, hc, hd, Bool.not_true, Bool.false_eq_true, if_true, if_false]

end Sequences

/-- The second byte is a continuation byte; four leads narrow it, against spellings that are too
    long, surrogates, and numbers above the last character. -/
theorem secondAllowed_iff {lead second : Nat} :
    secondAllowed lead second = true ↔ (0x80 ≤ second ∧ second < 0xc0) ∧
      (lead = 0xe0 → 0xa0 ≤ second) ∧ (lead = 0xed → second < 0xa0) ∧
      (lead = 0xf0 → 0x90 ≤ second) ∧ (lead = 0xf4 → second < 0x90) := by
  unfold secondAllowed
  rw [Bool.and_eq_true, isContinuation_iff]
  refine and_congr_right fun _ => ?_
  grind

/-- The bytes of a character are decoded as the character, whatever follows. The proof goes by the
    number of bytes, of which there are one to four. -/
theorem decodeStep_encodeChar (c : Char) :
    ∃ lead bytes, encodeChar c = lead :: bytes ∧
      ∀ rest, decodeStep lead.toNat (bytes ++ rest) = .ok (c, bytes.length + 1) := by
  obtain ⟨hmax, hsurrogate⟩ := toNat_bounds c
  have hchar : ∀ m, m = c.toNat → Char.ofNat m = c := by
    rintro m rfl
    exact Char.ofNat_toNat c
  unfold encodeChar
  -- One to four bytes, by the number of bits; every bound on the bytes follows from the number.
  by_cases h1 : c.toNat < 0x80
  · refine ⟨_, [], by rw [if_pos h1], fun rest => ?_⟩
    rw [toNat_byte (by omega), decodeStep_one _ h1, hchar _ rfl]
    rfl
  by_cases h2 : c.toNat < 0x800
  · refine ⟨_, [_], by rw [if_neg h1, if_pos h2], fun rest => ?_⟩
    have hb := toNat_byte (by omega : 0x80 + c.toNat % 64 < 256)
    rw [toNat_byte (by omega), List.singleton_append, decodeStep_two _ (by omega) (by omega)
      (by rw [hb, isContinuation_iff]; omega), hb, hchar _ (by omega)]
    rfl
  by_cases h3 : c.toNat < 0x10000
  · refine ⟨_, [_, _], by rw [if_neg h1, if_neg h2, if_pos h3], fun rest => ?_⟩
    have hb := toNat_byte (by omega : 0x80 + c.toNat / 64 % 64 < 256)
    have hc := toNat_byte (by omega : 0x80 + c.toNat % 64 < 256)
    rw [toNat_byte (by omega), List.cons_append, List.singleton_append,
      decodeStep_three _ (by omega) (by omega) (by rw [hb, secondAllowed_iff]; omega)
      (by rw [hc, isContinuation_iff]; omega), hb, hc, hchar _ (by omega)]
    rfl
  · refine ⟨_, [_, _, _], by rw [if_neg h1, if_neg h2, if_neg h3], fun rest => ?_⟩
    have hb := toNat_byte (by omega : 0x80 + c.toNat / 4096 % 64 < 256)
    have hc := toNat_byte (by omega : 0x80 + c.toNat / 64 % 64 < 256)
    have hd := toNat_byte (by omega : 0x80 + c.toNat % 64 < 256)
    rw [toNat_byte (by omega), List.cons_append, List.cons_append, List.singleton_append,
      decodeStep_four _ (by omega) (by omega) (by rw [hb, secondAllowed_iff]; omega)
      (by rw [hc, isContinuation_iff]; omega) (by rw [hd, isContinuation_iff]; omega), hb, hc, hd,
      hchar _ (by omega)]
    rfl

/-! ### Texts -/

/-- The bytes of characters are decoded as these, from any position on. The position is only for the
    message of a fault, so that the induction leaves it open. -/
theorem decodeFrom_encodeChars {cs : List Char} {fuel position : Nat}
    (hfuel : (encodeChars cs).length ≤ fuel) :
    decodeFrom fuel position (encodeChars cs) = .ok cs := by
  induction cs generalizing fuel position with
  | nil => cases fuel <;> rfl
  | cons c cs ih =>
    obtain ⟨lead, bytes, heq, hstep⟩ := decodeStep_encodeChar c
    have hcons : encodeChars (c :: cs) = lead :: (bytes ++ encodeChars cs) := by
      rw [encodeChars, List.flatMap_cons, heq, List.cons_append, ← encodeChars]
    rw [hcons, List.length_cons, List.length_append] at hfuel
    obtain ⟨fuel, rfl⟩ : ∃ n, fuel = n + 1 := ⟨fuel - 1, by omega⟩
    rw [hcons, decodeFrom]
    simp only [hstep, Nat.add_sub_cancel, List.drop_left]
    rw [ih (by omega)]
    rfl

/-- A text is decoded from its own bytes. What the program writes it can read, whatever is in the
    text. -/
theorem decode_encode (s : String) : decode (encode s) = .ok s := by
  rw [decode, decodeChars, encode, decodeFrom_encodeChars (Nat.le_refl _), Except.map,
    String.ofList_toList]

/-- Texts with the same bytes are the same. Two spellings of a hash key that differ as texts differ
    as bytes too. -/
theorem encode_injective : Function.Injective encode := by
  intro s t h
  have hdecode := decode_encode s
  rw [h, decode_encode] at hdecode
  exact (Except.ok.inj hdecode).symm

end Utf8

/-- A text without carriage returns keeps its line ends. Texts that the program itself writes are of
    this kind. -/
theorem unifyLineEnds_eq_self {cs : List Char} (h : '\r' ∉ cs) : unifyLineEnds cs = cs := by
  fun_induction unifyLineEnds cs with
  | case1 => rfl
  | case2 => simp at h
  | case3 => simp at h
  | case4 c rest _ _ ih => rw [ih fun hmem => h (List.mem_cons_of_mem _ hmem)]

end Backlog.Text
