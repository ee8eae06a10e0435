import Backlog.Proofs.Text.Utf8
import Backlog.Text.Letter
import Mathlib

namespace Backlog.Text

/-!
# Texts as letters

The parsers work on letters, which may be bytes that make no character. On a text that was encoded
they are the characters of the text.

* `lettersOf_encode` — the letters of a text are its characters;
* `of_isAlphanum` — what holds of the letters and digits of ASCII holds of all letters and digits.
-/

/-- There are no other letters and digits than those of ASCII. So a property of all of them is
    checked by going through 128 characters. -/
theorem of_isAlphanum {P : Char → Prop}
    (hascii : ∀ n < 128, (Char.ofNat n).isAlphanum = true → P (Char.ofNat n)) {c : Char}
    (h : c.isAlphanum = true) : P c := by
  have hlt : c.toNat < 128 := by
    simp only [Char.isAlphanum, Char.isAlpha, Char.isUpper, Char.isLower, Char.isDigit,
      Bool.or_eq_true, Bool.and_eq_true, decide_eq_true_eq, UInt32.le_iff_toNat_le, ge_iff_le,
      UInt32.reduceToNat, Char.reduceVal] at h
    rw [Char.toNat]
    omega
  have hc := hascii c.toNat hlt
  rw [Char.ofNat_toNat] at hc
  exact hc h

/-- Characters look like themselves. A letter looks like something else only if it stands for bytes
    that are no text. -/
theorem look_ofChars (cs : List Char) : (cs.map Letter.char).map Letter.look = cs := by
  rw [List.map_map]
  exact List.map_id _

/-- The letters of the bytes of characters are these characters, with enough fuel. -/
theorem lettersFrom_encodeChars {cs : List Char} {fuel : Nat}
    (hfuel : (Utf8.encodeChars cs).length ≤ fuel) :
    lettersFrom fuel (Utf8.encodeChars cs) = cs.map .char := by
  induction cs generalizing fuel with
  | nil => cases fuel <;> rfl
  | cons c cs ih =>
    obtain ⟨lead, bytes, heq, hstep⟩ := Utf8.decodeStep_encodeChar c
    have hcons : Utf8.encodeChars (c :: cs) = lead :: (bytes ++ Utf8.encodeChars cs) := by
      rw [Utf8.encodeChars, List.flatMap_cons, heq, List.cons_append, ← Utf8.encodeChars]
    rw [hcons, List.length_cons, List.length_append] at hfuel
    obtain ⟨fuel, rfl⟩ : ∃ n, fuel = n + 1 := ⟨fuel - 1, by omega⟩
    rw [hcons, lettersFrom]
    simp only [hstep, Nat.add_sub_cancel, List.drop_left]
    rw [ih (by omega), List.map_cons]

/-- The letters of a text are its characters, unless it begins with a byte order mark. A mark at the
    beginning is passed over. -/
theorem lettersOf_encode {s : String} (hmark : '\uFEFF' ∉ s.toList.head?) :
    lettersOf (Utf8.encode s) = s.toList.map .char := by
  rw [lettersOf, Utf8.encode, lettersFrom_encodeChars (Nat.le_refl _)]
  split
  · rename_i letters heq
    obtain ⟨c, cs, hcs, hc, -⟩ := List.map_eq_cons_iff.mp heq
    obtain rfl : c = '\uFEFF' := Letter.char.inj hc
    exact absurd (by rw [hcs]; rfl) hmark
  · rfl

end Backlog.Text
