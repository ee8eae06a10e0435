import Backlog.Json.Parser
import Backlog.Json.Printer
import Backlog.Proofs.Text.Utf8

namespace Backlog.Json

open Backlog.Text

/-!
# Strings in JSON, written and read

A string is written character by character, and each is read again on its own, whatever follows.
Characters beyond the first plane are written as two escapes, which the reader puts together again.

* `hex4?_hexDigits` — four hexadecimal digits are read as the number they were written from;
* `readString_writeChar` — a character is read as the one that was written, escaped or not;
* `readString_writeString` — so is a string up to its closing quote;
* `writeChar_isPlain` — in ASCII a string is written with printable characters only.
-/

/-! ### Code escapes -/

/-- The hexadecimal digits of the numbers below sixteen are read as these. -/
theorem hexValue?_hexDigit : ∀ n < 16, hexValue? (hexDigit n) = some n := by decide

/-- The four digits of a number. The definition is by recursion, and the reader takes them one by
    one. -/
theorem hexDigits_four (n : Nat) :
    hexDigits 4 n =
      [hexDigit (n / 4096 % 16), hexDigit (n / 256 % 16), hexDigit (n / 16 % 16),
        hexDigit (n % 16)] := by
  simp [hexDigits, Nat.div_div_eq_div_mul]

/-- Four hexadecimal digits are read as the number they were written from. Every number of a code
    escape is below the bound. -/
theorem hex4?_hexDigits {n : Nat} (h : n < 0x10000) :
    hex4? (hexDigit (n / 4096 % 16)) (hexDigit (n / 256 % 16)) (hexDigit (n / 16 % 16))
      (hexDigit (n % 16)) = some n := by
  have hvalue : ∀ m, hexValue? (hexDigit (m % 16)) = some (m % 16) :=
    fun m => hexValue?_hexDigit _ (Nat.mod_lt _ (by decide))
  simp only [hex4?, hvalue, Option.bind_eq_bind, Option.bind_some, Option.pure_def,
    Option.some.injEq]
  omega

/-- The escape of a character that is no half of a pair. Something has to follow, if only the
    closing quote of the string. -/
theorem readCode_hexDigits {n : Nat} (hn : n < 0x10000) (hhalf : ¬(0xd800 ≤ n ∧ n < 0xe000))
    {rest : List Char} (hrest : rest ≠ []) :
    readCode (hexDigits 4 n ++ rest) = .ok (Char.ofNat n, rest) := by
  have hempty : rest.isEmpty = false := by simpa using hrest
  have hhigh : (decide (0xd800 ≤ n) && decide (n < 0xdc00)) = false := by
    simpa using fun h => by omega
  have hlow : (decide (0xdc00 ≤ n) && decide (n < 0xe000)) = false := by
    simpa using fun h => by omega
  rw [hexDigits_four]
  simp only [List.cons_append, List.nil_append, readCode, hempty, hex4?_hexDigits hn, hhigh, hlow,
    Bool.false_eq_true, if_false]

/-- The escapes of the two halves of a pair. The reader asks for the second half as soon as it has
    the first. -/
theorem readCode_pair {n m : Nat} (hn : 0xd800 ≤ n ∧ n < 0xdc00) (hm : 0xdc00 ≤ m ∧ m < 0xe000)
    {rest : List Char} (hrest : rest ≠ []) :
    readCode (hexDigits 4 n ++ (unitEscape m ++ rest)) =
      .ok (Char.ofNat (0x10000 + (n - 0xd800) * 1024 + (m - 0xdc00)), rest) := by
  have hempty : rest.isEmpty = false := by simpa using hrest
  have hhigh : (decide (0xd800 ≤ n) && decide (n < 0xdc00)) = true := by simpa using hn
  have hlow : (decide (0xdc00 ≤ m) && decide (m < 0xe000)) = true := by simpa using hm
  have hread : lowSurrogate? (unitEscape m ++ rest) = some (some m, rest) := by
    rw [unitEscape, hexDigits_four]
    simp only [List.cons_append, List.nil_append, lowSurrogate?, hempty, Bool.false_eq_true,
      if_false, hex4?_hexDigits (Nat.lt_trans hm.2 (by decide))]
  have hmore : (unitEscape m ++ rest).isEmpty = false := by simp [unitEscape]
  rw [hexDigits_four]
  simp only [List.cons_append, List.nil_append, readCode, hmore, Bool.false_eq_true, if_false,
    hex4?_hexDigits (Nat.lt_trans hn.2 (by decide)), hhigh, if_true, hread, hlow]

/-! ### Characters -/

/-- Whether a character is a printable ASCII one. -/
def IsPlain (c : Char) : Prop := 0x20 ≤ c.toNat ∧ c.toNat < 0x7f

instance (c : Char) : Decidable (IsPlain c) := inferInstanceAs (Decidable (_ ∧ _))

/-- The characters with a short escape, each with its letter. -/
def shortEscapes : List (Char × Char) :=
  [('"', '"'), ('\\', '\\'), ('\n', 'n'), ('\r', 'r'), ('\t', 't'), ('\x0c', 'f'), ('\x08', 'b')]

/-- Every short escape is in the list. The function is a row of tests, and the list is easier to go
    through. -/
theorem mem_shortEscapes {c e : Char} (h : shortEscape? c = some e) : (c, e) ∈ shortEscapes := by
  unfold shortEscape? at h
  split at h
  · rename_i hc
    obtain rfl := Option.some.inj h
    rcases (by simpa using hc : c = '"' ∨ c = '\\') with rfl | rfl <;> decide
  · repeat' split at h
    all_goals
      first
        | (obtain rfl := Option.some.inj h; subst_vars; decide)
        | exact absurd h (by simp)

/-- Each letter of a short escape is printable and is read as what it stands for. None begins a code
    escape. -/
theorem shortEscapes_sound :
    ∀ p ∈ shortEscapes, escaped? p.2 = some p.1 ∧ p.2 ≠ 'u' ∧ IsPlain p.2 := by decide

/-- How a character is written: with a short escape, as itself, with a code escape, or as the two
    halves of a pair. The writer's tests become one disjunction here, with what each of them found
    out. -/
theorem writeChar_cases (ascii : Bool) (c : Char) :
    (∃ e, shortEscape? c = some e ∧ writeChar ascii c = ['\\', e]) ∨
      (shortEscape? c = none ∧ 0x20 ≤ c.toNat ∧ (ascii = true → c.toNat < 0x7f) ∧
        writeChar ascii c = [c]) ∨
      (c.toNat < 0x10000 ∧ writeChar ascii c = unitEscape c.toNat) ∨
      (0x10000 ≤ c.toNat ∧ writeChar ascii c =
        unitEscape (0xd800 + (c.toNat - 0x10000) / 1024) ++
          unitEscape (0xdc00 + (c.toNat - 0x10000) % 1024)) := by
  unfold writeChar
  cases hshort : shortEscape? c with
  | some e => exact .inl ⟨e, rfl, rfl⟩
  | none =>
    by_cases hcontrol : c.toNat < 0x20
    · exact .inr (.inr (.inl ⟨by omega, by simp [hcontrol]⟩))
    · by_cases hself : (!ascii || decide (c.toNat < 0x7f)) = true
      · refine .inr (.inl ⟨rfl, by omega, ?_, by simp only [hcontrol, hself, if_true, if_false]⟩)
        rintro rfl
        simpa using hself
      · by_cases hbasic : c.toNat < 0x10000
        · exact .inr (.inr (.inl ⟨hbasic, by
            simp only [hcontrol, hself, hbasic, if_true, if_false, Bool.false_eq_true]⟩))
        · exact .inr (.inr (.inr ⟨by omega, by
            simp only [hcontrol, hself, hbasic, if_false, Bool.false_eq_true]⟩))

/-! ### Reading characters -/

/-- What begins with a code escape is read as the character that this stands for. For a pair that is
    both escapes together. -/
theorem readString_unitEscape {start fuel n : Nat} {c : Char} {cs code rest more : List Char}
    (hcode : readCode (hexDigits 4 n ++ code) = .ok (c, rest))
    (hrest : readString start fuel rest = .ok (cs, more)) :
    readString start (fuel + 1) (unitEscape n ++ code) = .ok (c :: cs, more) := by
  simp only [unitEscape, List.cons_append]
  simp [readString, hcode, hrest, bind, Except.bind, pure, Except.pure]

/-- A character outside the basic plane is the one that its two halves stand for. The halves carry
    ten bits each of what is above the basic plane. -/
theorem ofNat_halves {c : Char} (h : 0x10000 ≤ c.toNat) :
    Char.ofNat (0x10000 + (0xd800 + (c.toNat - 0x10000) / 1024 - 0xd800) * 1024 +
      (0xdc00 + (c.toNat - 0x10000) % 1024 - 0xdc00)) = c := by
  have heq : 0x10000 + (0xd800 + (c.toNat - 0x10000) / 1024 - 0xd800) * 1024 +
      (0xdc00 + (c.toNat - 0x10000) % 1024 - 0xdc00) = c.toNat := by omega
  rw [heq, Char.ofNat_toNat]

/-- A character is read as the one that was written. Each of the four ways of writing it is read by
    another branch. -/
theorem readString_writeChar {ascii : Bool} {start fuel : Nat} {c : Char} {cs rest more : List Char}
    (hne : rest ≠ []) (hrest : readString start fuel rest = .ok (cs, more)) :
    readString start (fuel + 1) (writeChar ascii c ++ rest) = .ok (c :: cs, more) := by
  obtain ⟨hmax, hhalf⟩ := Utf8.toNat_bounds c
  rcases writeChar_cases ascii c with
    ⟨e, hshort, heq⟩ | ⟨hshort, hlow, _, heq⟩ | ⟨hbasic, heq⟩ | ⟨hbig, heq⟩ <;> rw [heq]
  -- A short escape.
  · obtain ⟨hescaped, hu, _⟩ := shortEscapes_sound _ (mem_shortEscapes hshort)
    simp [readString, hu, hescaped, hrest, bind, Except.bind, pure, Except.pure]
  -- As itself, which neither ends the string nor begins an escape.
  · have hquote : c ≠ '"' := by
      rintro rfl
      simp [shortEscape?] at hshort
    have hslash : c ≠ '\\' := by
      rintro rfl
      simp [shortEscape?] at hshort
    have hcontrol : ¬c.toNat < 0x20 := by omega
    simp [readString, hquote, hslash, hcontrol, hrest, bind, Except.bind, pure, Except.pure]
  -- A code escape, of no half of a pair.
  · have hcode := readCode_hexDigits hbasic hhalf hne
    rw [Char.ofNat_toNat] at hcode
    exact readString_unitEscape hcode hrest
  -- Two code escapes, of which the first asks for the second.
  · have hcode := readCode_pair
      (⟨by omega, by omega⟩ : 0xd800 ≤ 0xd800 + (c.toNat - 0x10000) / 1024 ∧ _ < 0xdc00)
      (⟨by omega, by omega⟩ : 0xdc00 ≤ 0xdc00 + (c.toNat - 0x10000) % 1024 ∧ _ < 0xe000) hne
    rw [ofNat_halves hbig] at hcode
    rw [List.append_assoc]
    exact readString_unitEscape hcode hrest

/-! ### Strings -/

theorem writeChar_ne_nil (ascii : Bool) (c : Char) : writeChar ascii c ≠ [] := by
  rcases writeChar_cases ascii c with ⟨e, _, h⟩ | ⟨_, _, _, h⟩ | ⟨_, h⟩ | ⟨_, h⟩ <;>
    simp [h, unitEscape]

/-- A string is read up to its closing quote. The induction is along the characters, each of which
    takes one unit of fuel. -/
theorem readString_flatMap {ascii : Bool} {start fuel : Nat} {cs rest : List Char}
    (hfuel : cs.length < fuel) :
    readString start fuel (cs.flatMap (writeChar ascii) ++ '"' :: rest) = .ok (cs, rest) := by
  induction cs generalizing fuel with
  | nil =>
    obtain ⟨fuel, rfl⟩ : ∃ n, fuel = n + 1 := ⟨fuel - 1, by simp at hfuel; omega⟩
    simp [readString]
  | cons c cs ih =>
    obtain ⟨fuel, rfl⟩ : ∃ n, fuel = n + 1 := ⟨fuel - 1, by simp at hfuel; omega⟩
    rw [List.flatMap_cons, List.append_assoc]
    exact readString_writeChar (by simp) (ih (by simpa using hfuel))

/-- Each character of a string is written as one character or more. So the fuel, which is the number
    of characters that are left, is enough. -/
theorem length_le_length_flatMap (ascii : Bool) (cs : List Char) :
    cs.length ≤ (cs.flatMap (writeChar ascii)).length := by
  induction cs with
  | nil => simp
  | cons c cs ih =>
    have hpos := List.length_pos_iff.mpr (writeChar_ne_nil ascii c)
    rw [List.flatMap_cons, List.length_append, List.length_cons]
    omega

/-- A string is read up to its closing quote, with the fuel that the reader gives itself. This is
    the lemma that the proofs about documents use. -/
theorem readString_writeString (ascii : Bool) (start : Nat) (s : String) (rest : List Char) :
    readString start (s.toList.flatMap (writeChar ascii) ++ '"' :: rest).length
      (s.toList.flatMap (writeChar ascii) ++ '"' :: rest) = .ok (s.toList, rest) := by
  refine readString_flatMap ?_
  have hle := length_le_length_flatMap ascii s.toList
  rw [List.length_append, List.length_cons]
  omega

/-! ### Printable characters -/

theorem hexDigit_isPlain (n : Nat) : IsPlain (hexDigit (n % 16)) :=
  (by decide : ∀ m < 16, IsPlain (hexDigit m)) _ (Nat.mod_lt _ (by decide))

/-- A code escape is printable: a backslash, a letter and four digits. -/
theorem unitEscape_isPlain {n : Nat} : ∀ c ∈ unitEscape n, IsPlain c := by
  intro c hc
  simp only [unitEscape, hexDigits_four, List.mem_cons, List.not_mem_nil, or_false] at hc
  rcases hc with rfl | rfl | rfl | rfl | rfl | rfl
  · decide
  · decide
  all_goals exact hexDigit_isPlain _

/-- In ASCII a character is written with printable characters only. All other characters have an
    escape. -/
theorem writeChar_isPlain (c : Char) : ∀ d ∈ writeChar true c, IsPlain d := by
  intro d hd
  rcases writeChar_cases true c with
    ⟨e, hshort, heq⟩ | ⟨_, hlow, hhigh, heq⟩ | ⟨_, heq⟩ | ⟨_, heq⟩ <;> rw [heq] at hd
  · rw [List.mem_cons, List.mem_singleton] at hd
    rcases hd with rfl | rfl
    · decide
    · exact (shortEscapes_sound _ (mem_shortEscapes hshort)).2.2
  · obtain rfl := List.mem_singleton.mp hd
    exact ⟨hlow, hhigh rfl⟩
  · exact unitEscape_isPlain d hd
  · rcases List.mem_append.mp hd with h | h <;> exact unitEscape_isPlain d h

/-- In ASCII a string is written with printable characters only, its quotes among them. -/
theorem writeString_isPlain (s : String) : ∀ c ∈ writeString true s, IsPlain c := by
  intro c hc
  rw [writeString, List.cons_append, List.mem_cons, List.mem_append, List.mem_flatMap,
    List.mem_singleton] at hc
  rcases hc with rfl | ⟨d, _, hc⟩ | rfl
  · decide
  · exact writeChar_isPlain d c hc
  · decide

end Backlog.Json
