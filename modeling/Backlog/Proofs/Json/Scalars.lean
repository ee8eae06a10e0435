import Backlog.Json.Canonical
import Backlog.Json.Parser
import Backlog.Proofs.Json.Strings
import Mathlib.Data.Nat.Digits.Defs

namespace Backlog.Json

open Backlog.Number Backlog.Text

/-!
# Scalars in JSON, written and read

A number has no closing mark: it ends where something comes that cannot be a part of it. So what is
read of a scalar depends on what stands behind, and statements about it speak of all that may stand
there.

* `EndsScalar` — what may stand behind a number without being taken for a part of it;
* `ReadsAs` — how a scalar that was written is read, whatever stands behind it; `ReadsBack` — it is
  read as it was written;
* `readNumber_signChars` — a number is read by its sign, its whole part and what comes behind that;
* `IsExact` — nothing, truth values, texts, and whole numbers up to the greatest number of digits;
* `IsExact.readsBack` — these are read as they were written;
* `IsExact.isPlain` — in ASCII they are written with printable characters only.
-/

/-- What may stand behind a number: no digit, no point, and no mark of an exponent. -/
def EndsScalar (rest : List Char) : Prop :=
  ∀ c ∈ rest.head?, c.isDigit = false ∧ c ≠ '.' ∧ c ≠ 'e' ∧ c ≠ 'E'

/-- At the end of the text nothing goes on with a number. -/
theorem endsScalar_nil : EndsScalar [] := by
  intro c hc
  cases hc

/-- A number goes on with a digit, a point or the mark of an exponent, and with nothing else. -/
theorem endsScalar_cons {c : Char} {rest : List Char}
    (h : c.isDigit = false ∧ c ≠ '.' ∧ c ≠ 'e' ∧ c ≠ 'E') : EndsScalar (c :: rest) := by
  intro d hd
  obtain rfl := Option.some.inj hd
  exact h

/-- A character that a value can begin with: no blank, no closing bracket or brace, and no byte
    order mark. -/
def IsOpening (c : Char) : Prop := isBlank c = false ∧ c ≠ ']' ∧ c ≠ '\x7d' ∧ c ≠ '\ufeff'

instance (c : Char) : Decidable (IsOpening c) := inferInstanceAs (Decidable (_ ∧ _ ∧ _ ∧ _))

/-- What was written of one scalar is read as another one, whatever stands behind it. -/
structure ReadsAs (ascii : Bool) (s s' : Scalar) : Prop where
  opening : ∃ c cs, writeScalar ascii s = c :: cs ∧ IsOpening c
  read : ∀ fuel rest, EndsScalar rest →
    readValue (fuel + 1) (writeScalar ascii s ++ rest) = .ok (.scalar s', rest)

/-- A scalar is read as it was written. -/
abbrev ReadsBack (ascii : Bool) (s : Scalar) : Prop := ReadsAs ascii s s

/-! ### Words and strings -/

/-- A value that begins with neither a quote nor a bracket is a word or a number. The first
    character decides which it is. -/
theorem readValue_eq_readPlain {fuel : Nat} {c : Char} {cs : List Char} (hquote : c ≠ '"')
    (hbrace : c ≠ '\x7b') (hbracket : c ≠ '[') :
    readValue (fuel + 1) (c :: cs) = readPlain (c :: cs) := by
  unfold readValue
  split
  · rename_i heq
    exact absurd (List.cons.inj heq).1 hquote
  · rename_i heq
    exact absurd (List.cons.inj heq).1 hbrace
  · rename_i heq
    exact absurd (List.cons.inj heq).1 hbracket
  · rfl

theorem readsBack_null (ascii : Bool) : ReadsBack ascii .null where
  opening := ⟨'n', ['u', 'l', 'l'], rfl, by decide⟩
  read fuel rest _ := by
    rw [writeScalar, List.cons_append, readValue_eq_readPlain (by decide) (by decide) (by decide)]
    simp [readPlain, words, List.isPrefixOf]

theorem readsBack_bool (ascii b : Bool) : ReadsBack ascii (.bool b) where
  opening := by
    cases b with
    | true => exact ⟨'t', ['r', 'u', 'e'], rfl, by decide⟩
    | false => exact ⟨'f', ['a', 'l', 's', 'e'], rfl, by decide⟩
  read fuel rest _ := by
    cases b <;>
      rw [writeScalar, List.cons_append,
        readValue_eq_readPlain (by decide) (by decide) (by decide)] <;>
      simp [readPlain, words, List.isPrefixOf]

/-- A text is read as it was written, with escapes or without. -/
theorem readsBack_text (ascii : Bool) (s : String) : ReadsBack ascii (.text s) where
  opening := ⟨'"', s.toList.flatMap (writeChar ascii) ++ ['"'], rfl, by decide⟩
  read fuel rest _ := by
    rw [writeScalar, writeString, List.cons_append, List.cons_append, List.append_assoc,
      List.singleton_append]
    simp only [readValue, readString_writeString, bind, Except.bind, pure, Except.pure,
      String.ofList_toList]

/-! ### Whole numbers -/

theorem isDigit_of_mem_toDigits {n : Nat} : ∀ c ∈ Nat.toDigits 10 n, c.isDigit = true :=
  fun _ hc => Nat.isDigit_of_mem_toDigits (by decide) (by decide) hc

/-- The digits of a number that is not zero do not begin with zero. The reader takes a zero in front
    for the whole of the digits. -/
theorem head?_toDigits_ne {n : Nat} (hn : n ≠ 0) : (Nat.toDigits 10 n).head? ≠ some '0' := by
  induction n using Nat.strongRecOn with
  | ind n ih =>
    by_cases hlt : n < 10
    · rw [Nat.toDigits_of_lt_base hlt]
      exact (by decide : ∀ m < 10, m ≠ 0 → [Nat.digitChar m].head? ≠ some '0') n hlt hn
    · rw [Nat.toDigits_of_base_le (by decide) (by omega), List.head?_append]
      have hhead := ih (n / 10) (by omega) (by omega)
      cases hdigits : Nat.toDigits 10 (n / 10) with
      | nil => exact absurd hdigits Nat.toDigits_ne_nil
      | cons d ds => simpa [hdigits] using hhead

/-- The digits before the point: at least one, and the first is no zero unless it is alone. -/
structure IsWhole (digits : List Char) : Prop where
  ne_nil : digits ≠ []
  isDigit : ∀ c ∈ digits, c.isDigit = true
  head : digits.head? = some '0' → digits = ['0']

/-- The digits of a number are a whole part: a zero alone, or digits that do not begin with zero. -/
theorem isWhole_toDigits (n : Nat) : IsWhole (Nat.toDigits 10 n) where
  ne_nil := Nat.toDigits_ne_nil
  isDigit := isDigit_of_mem_toDigits
  head hhead := by
    obtain rfl : n = 0 := by
      by_contra hn
      exact head?_toDigits_ne hn hhead
    rfl

/-- A row of characters that does not go on with digits. -/
def EndsDigits (rest : List Char) : Prop := ∀ c ∈ rest.head?, c.isDigit = false

theorem EndsScalar.endsDigits {rest : List Char} (h : EndsScalar rest) : EndsDigits rest :=
  fun c hc => (h c hc).1

theorem takeWhile_digits {digits rest : List Char} (hdigits : ∀ c ∈ digits, c.isDigit = true)
    (hrest : EndsDigits rest) :
    (digits ++ rest).takeWhile Char.isDigit = digits ∧
      (digits ++ rest).dropWhile Char.isDigit = rest := by
  rw [List.takeWhile_append_of_pos hdigits, List.dropWhile_append_of_pos hdigits]
  cases rest with
  | nil => simp
  | cons c rest => simp [hrest c rfl]

/-- A whole part is read up to where its digits end. A zero alone is read by a rule of its own. -/
theorem IsWhole.wholePart_append {whole rest : List Char} (h : IsWhole whole)
    (hrest : EndsDigits rest) : wholePart (whole ++ rest) = (whole, rest) := by
  obtain ⟨htake, hdrop⟩ := takeWhile_digits h.isDigit hrest
  unfold wholePart
  split
  · rename_i more heq
    have hwhole : whole = ['0'] := by
      obtain ⟨d, ds, rfl⟩ := List.exists_cons_of_ne_nil h.ne_nil
      obtain ⟨rfl, _⟩ := List.cons.inj heq
      exact h.head rfl
    subst hwhole
    obtain ⟨_, rfl⟩ := List.cons.inj heq
    rfl
  · rw [htake, hdrop]

theorem fractionPart_eq_none {rest : List Char} (hrest : EndsScalar rest) :
    fractionPart rest = (none, rest) := by
  unfold fractionPart
  split
  · exact absurd rfl (hrest '.' rfl).2.1
  · rfl

theorem exponentPart_eq_none {rest : List Char} (hrest : EndsScalar rest) :
    exponentPart rest = (none, rest) := by
  cases rest with
  | nil => rfl
  | cons c rest =>
    obtain ⟨_, _, he, hE⟩ := hrest c rfl
    simp [exponentPart, he, hE]

/-- The sign of a number. -/
def signChars (negative : Bool) : List Char := if negative then ['-'] else []

/-- The number with these parts. -/
def ofParts (negative : Bool) (whole : List Char) (fraction : Option (List Char))
    (exponent : Option Int) : Binary64 :=
  .ofDecimal negative (Nat.ofDigitChars 10 (whole ++ fraction.getD []) 0)
    (exponent.getD 0 - (fraction.getD []).length)

/-- What is read of a number with these parts. -/
def readOfParts (negative : Bool) (whole : List Char) (fraction : Option (List Char))
    (exponent : Option Int) (rest : List Char) : Except Stop (Data × List Char) :=
  match fraction, exponent with
  | none, none =>
    match natOfDigits whole with
    | .ok n => .ok (.int (signed negative n), rest)
    | .error _ => .error (.tooLong whole.length)
  | _, _ => .ok (.float (ofParts negative whole fraction exponent), rest)

/-- A number is a sign, a whole part, and then a fraction and an exponent or not. The lemma is about
    reading part by part, and leaves open what the parts are. -/
theorem readNumber_signChars {whole behind more rest : List Char} {fraction : Option (List Char)}
    {exponent : Option Int} (hwhole : IsWhole whole) (hbehind : EndsDigits behind)
    (hfraction : fractionPart behind = (fraction, more))
    (hexponent : exponentPart more = (exponent, rest)) (negative : Bool) :
    readNumber (signChars negative ++ (whole ++ behind)) =
      readOfParts negative whole fraction exponent rest := by
  have hempty : whole.isEmpty = false := by simpa using hwhole.ne_nil
  -- The digits do not begin with a minus sign.
  have hplus : ∀ cs, whole ++ behind ≠ '-' :: cs := by
    intro cs heq
    obtain ⟨d, ds, rfl⟩ := List.exists_cons_of_ne_nil hwhole.ne_nil
    obtain ⟨rfl, _⟩ := List.cons.inj heq
    exact absurd (hwhole.isDigit _ (List.mem_cons_self ..)) (by decide)
  cases negative with
  | true =>
    simp only [signChars, if_true, List.cons_append, List.nil_append, readNumber,
      hwhole.wholePart_append hbehind, hempty, hfraction, hexponent, Bool.false_eq_true, if_false]
    rfl
  | false =>
    rw [signChars, if_neg Bool.false_ne_true, List.nil_append]
    unfold readNumber
    split
    rename_i heq
    split at heq
    · rename_i hcs
      exact absurd hcs (hplus _)
    obtain ⟨rfl, rfl⟩ := Prod.mk.inj heq
    simp only [hwhole.wholePart_append hbehind, hempty, hfraction, hexponent, Bool.false_eq_true,
      if_false]
    rfl

/-- A number of digits, after a minus sign or not. The limit on the number of digits is the one that
    the reader has. -/
theorem readNumber_toDigits {n : Nat} (hn : (Nat.toDigits 10 n).length ≤ maxDigits)
    {rest : List Char} (hrest : EndsScalar rest) :
    readNumber (Nat.toDigits 10 n ++ rest) = .ok (.int n, rest) ∧
      readNumber ('-' :: (Nat.toDigits 10 n ++ rest)) = .ok (.int (-n), rest) := by
  have hread := readNumber_signChars (isWhole_toDigits n) hrest.endsDigits
    (fractionPart_eq_none hrest) (exponentPart_eq_none hrest)
  simp only [readOfParts, natOfDigits_toDigits n hn] at hread
  exact ⟨hread false, hread true⟩

/-- No word begins like a number. One of the words begins with a minus sign, but a letter follows in
    it. -/
theorem readPlain_digits {cs : List Char} {d : Char} (hd : d.isDigit = true) :
    readPlain (d :: cs) = readNumber (d :: cs) ∧
      readPlain ('-' :: d :: cs) = readNumber ('-' :: d :: cs) := by
  have hne : ∀ c : Char, c.isDigit = false → (c == d) = false := by
    intro c hc
    rw [beq_eq_false_iff_ne]
    rintro rfl
    rw [hd] at hc
    cases hc
  constructor <;>
    simp [readPlain, words, List.isPrefixOf, hne 'n' rfl, hne 't' rfl, hne 'f' rfl, hne 'N' rfl,
      hne 'I' rfl, hne '-' rfl]

/-- A digit is none of the characters with a meaning of their own. It begins a value and is none of
    the marks that the reader looks for first. -/
theorem isOpening_of_isDigit {d : Char} (hd : d.isDigit = true) :
    IsOpening d ∧ d ≠ '"' ∧ d ≠ '\x7b' ∧ d ≠ '[' := by
  have hne : ∀ c : Char, c.isDigit = false → d ≠ c := by
    rintro c hc rfl
    rw [hd] at hc
    cases hc
  refine ⟨⟨?_, hne _ rfl, hne _ rfl, hne _ rfl⟩, hne _ rfl, hne _ rfl, hne _ rfl⟩
  simp [isBlank, hne ' ' rfl, hne '\t' rfl, hne '\n' rfl, hne '\r' rfl]

/-- A whole number that is not too long to be written is read as it was written. -/
theorem readsBack_int (ascii : Bool) {n : Int} (h : isTooLong n = false) :
    ReadsBack ascii (.int n) := by
  have hlength : (Nat.toDigits 10 n.natAbs).length ≤ maxDigits := by simpa [isTooLong] using h
  have hne : Nat.toDigits 10 n.natAbs ≠ [] := Nat.toDigits_ne_nil
  obtain ⟨d, ds, hdigits⟩ := List.exists_cons_of_ne_nil hne
  have hd : d.isDigit = true := isDigit_of_mem_toDigits d (by rw [hdigits]; simp)
  obtain ⟨hopening, hquote, hbrace, hbracket⟩ := isOpening_of_isDigit hd
  cases n with
  | ofNat m =>
    rw [show (Int.ofNat m).natAbs = m from rfl] at hdigits hlength
    refine ⟨⟨d, ds, hdigits, hopening⟩, fun fuel rest hrest => ?_⟩
    have hread := (readNumber_toDigits hlength hrest).1
    rw [writeScalar, intChars, hdigits, List.cons_append,
      readValue_eq_readPlain hquote hbrace hbracket, (readPlain_digits hd).1, ← List.cons_append,
      ← hdigits, hread]
    rfl
  | negSucc m =>
    rw [show (Int.negSucc m).natAbs = m + 1 from rfl] at hdigits hlength
    refine ⟨⟨'-', _, rfl, by decide⟩, fun fuel rest hrest => ?_⟩
    have hread := (readNumber_toDigits hlength hrest).2
    rw [writeScalar, intChars, hdigits, List.cons_append, List.cons_append,
      readValue_eq_readPlain (by decide) (by decide) (by decide), (readPlain_digits hd).2,
      ← List.cons_append, ← hdigits, hread]
    rfl

/-! ### The scalars that lose nothing -/

/-- Whether a scalar is nothing, a truth value, a text, or a whole number that is not too long. -/
def IsExact : Scalar → Prop
  | .null | .bool _ | .text _ => True
  | .int n => isTooLong n = false
  | _ => False

/-- Exact scalars are read as they were written. Among floats these are the finite ones; they have a
    module of their own. -/
theorem IsExact.readsBack {s : Scalar} (h : IsExact s) (ascii : Bool) : ReadsBack ascii s := by
  cases s with
  | null => exact readsBack_null ascii
  | bool b => exact readsBack_bool ascii b
  | int n => exact readsBack_int ascii h
  | text s => exact readsBack_text ascii s
  | float _ | bytes _ | date _ | moment _ | limitKind _ | mode _ => exact absurd h id

/-- Nothing keeps an exact scalar from being written. -/
theorem IsExact.scalarObstacle? {s : Scalar} (h : IsExact s) (refusal : String → Obstacle) :
    Json.scalarObstacle? refusal s = none := by
  cases s with
  | null | bool _ | text _ => rfl
  | int n => rw [Json.scalarObstacle?, if_neg (by simpa [IsExact] using h)]
  | float _ | bytes _ | date _ | moment _ | limitKind _ | mode _ => exact absurd h id

theorem isPlain_of_isDigit {c : Char} (h : c.isDigit = true) : IsPlain c := by
  simp only [Char.isDigit, Bool.and_eq_true, decide_eq_true_eq, ge_iff_le,
    UInt32.le_iff_toNat_le] at h
  have hlow : 48 ≤ c.toNat := h.1
  have hhigh : c.toNat ≤ 57 := h.2
  exact ⟨by omega, by omega⟩

/-- In ASCII they are written with printable characters only. Texts come with escapes, and numbers
    and words are ASCII by themselves. -/
theorem IsExact.isPlain {s : Scalar} (h : IsExact s) : ∀ c ∈ writeScalar true s, IsPlain c := by
  cases s with
  | null => simp [writeScalar, IsPlain]
  | bool b => cases b <;> simp [writeScalar, IsPlain]
  | int n =>
    intro c hc
    cases n with
    | ofNat m => exact isPlain_of_isDigit (isDigit_of_mem_toDigits c hc)
    | negSucc m =>
      rcases List.mem_cons.mp hc with rfl | hc
      · decide
      · exact isPlain_of_isDigit (isDigit_of_mem_toDigits c hc)
  | text s => exact writeString_isPlain s
  | float _ | bytes _ | date _ | moment _ | limitKind _ | mode _ => exact absurd h id

end Backlog.Json
