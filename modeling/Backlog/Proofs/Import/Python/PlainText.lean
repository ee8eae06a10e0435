import Backlog.Import.Python.Statement
import Backlog.Proofs.Text.Letter
import Mathlib

namespace Backlog.Import.Python

open Backlog.Text

/-!
# Plain texts, read part by part

In a text without brackets, quotes, backslashes and comments, what a character is depends on nothing
but the character itself. Such a text can be cut, and its parts are read on their own, as long as no
cut goes through a word.

* `IsPlain`, `plainRole` — the characters of a plain text, and what they are;
* `tokens_ofChars` — the tokens of a plain text;
* `Reads` — a part of a plain text is read as some tokens, whatever comes after it;
  `Reads.append`, `Reads.word`, `Reads.mark`, `Reads.space` — the ways to make one up.
-/

/-! ### Characters -/

/-- Whether a character can be part of an ASCII name. -/
def isNameChar (c : Char) : Bool := c.isAlphanum || c = '_'

/-- What a character of a plain text is. -/
def plainRole (c : Char) : Role :=
  if isNameChar c then .word
  else if c = '\n' then .lineEnd
  else if c = ' ' then .blank
  else .mark

/-- A character that says nothing about those that follow. -/
def IsPlain (c : Char) : Prop := isNameChar c = true ∨ c ∈ ['\n', ' ', '.', ',', '*']

variable {c : Char}

theorem isBlank_of_isNameChar (h : isNameChar c = true) : isBlank c = false := by
  simp only [isNameChar, Bool.or_eq_true, decide_eq_true_eq] at h
  rcases h with h | rfl
  · exact of_isAlphanum (P := fun c => isBlank c = false) (by decide) h
  · rfl

theorem isWordChar_of_isNameChar (h : isNameChar c = true) : isWordChar c = true := by
  unfold isWordChar
  rw [isBlank_of_isNameChar h, Bool.not_false, Bool.true_and, Bool.or_eq_true]
  exact .inl h

/-- Outside of brackets, a plain character leads to the same state, up to the word in front. The
    word in front decides only whether a quote begins a string of bytes, and there is none. -/
theorem codeStep_plain {s : State} (rest : List Char) (hdepth : s.depth = 0) (hc : IsPlain c) :
    ∃ word, codeStep s c rest = (plainRole c, { s with word := word }) := by
  rcases hc with hname | hmark
  · have hrole : plainRole c = .word := if_pos hname
    refine ⟨c :: s.word, ?_⟩
    rw [hrole]
    unfold codeStep
    split
    case h_12 =>
      rw [isBlank_of_isNameChar hname, isWordChar_of_isNameChar hname]
      rfl
    -- The other characters with a case of their own are in no name.
    all_goals exact absurd hname (by decide)
  · refine ⟨[], ?_⟩
    simp only [List.mem_cons, List.not_mem_nil, or_false] at hmark
    rcases hmark with rfl | rfl | rfl | rfl | rfl
    · show (if s.depth = 0 then _ else _, _) = _
      rw [if_pos hdepth]
      rfl
    all_goals rfl

/-- The roles of a plain text are those of its characters. The induction is along the text, with the
    word in front left general. -/
theorem rolesFrom_eq_map {cs : List Char} (hplain : ∀ c ∈ cs, IsPlain c) (word : List Char) :
    rolesFrom ⟨[], 0, word, []⟩ cs = cs.map plainRole := by
  induction cs generalizing word with
  | nil => rfl
  | cons c cs ih =>
    rw [List.forall_mem_cons] at hplain
    obtain ⟨next, hcode⟩ := codeStep_plain (s := ⟨[], 0, word, []⟩) cs rfl hplain.1
    have hstep : step ⟨[], 0, word, []⟩ c cs = (plainRole c, ⟨[], 0, next, []⟩) := hcode
    rw [rolesFrom, hstep, List.map_cons]
    show plainRole c :: rolesFrom ⟨[], 0, next, []⟩ cs = _
    rw [ih hplain.2]

/-! ### Tokens -/

/-- The tokens of a plain text, from a line on. -/
def plainTokens (row : Nat) (cs : List Char) : List Token :=
  tokensFrom row (cs.map fun c => (.char c, plainRole c))

/-- Tokens are made from the roles of characters, so a plain text has plain tokens. -/
theorem tokens_ofChars {cs : List Char} (hplain : ∀ c ∈ cs, IsPlain c) :
    tokens (cs.map .char) = plainTokens 0 cs := by
  rw [tokens, look_ofChars, roles, State.start, rolesFrom_eq_map hplain, List.zip_map']
  rfl

variable {row : Nat} {cs rest : List Char} {ts : List Token}

/-- The token of a word. -/
def wordToken (row : Nat) (word : List Char) : Token := ⟨row, .word, [], word.map .char⟩

/-- The token of a mark. -/
def markToken (row : Nat) (c : Char) : Token := ⟨row, .mark, [], [.char c]⟩

/-- The token of a line end. -/
def endToken (row : Nat) : Token := ⟨row, .lineEnd, [], [.char '\n']⟩

/-- A token with a space in front. -/
def Token.spaced (t : Token) : Token := { t with gap := .char ' ' :: t.gap }

/-- A character on a line, in front of the rest of the line. -/
theorem plainTokens_cons (hline : c ≠ '\n') :
    plainTokens row (c :: rest) =
      Token.attach row (.char c) (plainRole c) (plainTokens row rest) := by
  show Token.attach _ _ _ (tokensFrom (if c = '\n' then row + 1 else row) _) = _
  rw [if_neg hline]
  rfl

theorem plainTokens_mark (hmark : c ∈ ['.', ',', '*']) :
    plainTokens row (c :: rest) = markToken row c :: plainTokens row rest := by
  have hrole : plainRole c = .mark ∧ c ≠ '\n' := by
    simp only [List.mem_cons, List.not_mem_nil, or_false] at hmark
    rcases hmark with rfl | rfl | rfl <;> decide
  rw [plainTokens_cons hrole.2, hrole.1]
  cases plainTokens row rest <;> rfl

/-- A line feed ends a line, and the tokens behind it are in the next row. -/
theorem plainTokens_lineEnd :
    plainTokens row ('\n' :: rest) = endToken row :: plainTokens (row + 1) rest := by
  show Token.attach row (.char '\n') .lineEnd (plainTokens (row + 1) rest) = _
  cases plainTokens (row + 1) rest <;> rfl

/-- A text that does not go on with a word. -/
def EndsWord (cs : List Char) : Prop := ∀ c ∈ cs.head?, isNameChar c = false

theorem endsWord_nil : EndsWord [] := nofun

theorem endsWord_cons (h : isNameChar c = false) : EndsWord (c :: cs) := by
  intro d hd
  obtain rfl : c = d := Option.some.inj hd
  exact h

/-- What ends a word does so in front of more that does. -/
theorem EndsWord.append (hcs : EndsWord cs) (hrest : EndsWord rest) : EndsWord (cs ++ rest) := by
  cases cs with
  | nil => exact hrest
  | cons c cs => exact endsWord_cons (hcs c rfl)

/-- Nothing goes on with a word that has ended: the first token after it is no word, or there is
    space in front of it. This is what makes a word a token of its own. -/
theorem not_joins_of_endsWord (row : Nat) (hrest : EndsWord rest) :
    ∀ t ∈ (plainTokens row rest).head?, t.role = .word → t.gap.isEmpty = false := by
  cases rest with
  | nil => exact nofun
  | cons c rest =>
    have hname := hrest c rfl
    by_cases hline : c = '\n'
    · subst hline
      rw [plainTokens_lineEnd]
      rintro t ht hrole
      obtain rfl : endToken row = t := Option.some.inj ht
      cases hrole
    rw [plainTokens_cons hline]
    by_cases hspace : c = ' '
    · subst hspace
      cases plainTokens row rest with
      | nil => exact nofun
      | cons u us =>
        rintro t ht -
        obtain rfl := Option.some.inj ht
        rfl
    · have hrole : plainRole c = .mark := by
        unfold plainRole
        rw [hname, if_neg Bool.false_ne_true, if_neg hline, if_neg hspace]
      rw [hrole]
      intro t ht htrole
      have hhead : t = ⟨row, .mark, [], [.char c]⟩ := by
        cases htokens : plainTokens row rest with
        | nil =>
          rw [htokens] at ht
          exact (Option.some.inj ht).symm
        | cons u us =>
          rw [htokens] at ht
          exact (Option.some.inj ht).symm
      rw [hhead] at htrole
      cases htrole

/-- A word is one token, if it is ended by what comes after it. -/
theorem plainTokens_word {word : List Char} (hne : word ≠ [])
    (hword : ∀ c ∈ word, isNameChar c = true) (hrest : EndsWord rest) :
    plainTokens row (word ++ rest) = wordToken row word :: plainTokens row rest := by
  induction word with
  | nil => exact absurd rfl hne
  | cons c word ih =>
    rw [List.forall_mem_cons] at hword
    have hrole : plainRole c = .word := if_pos hword.1
    have hline : c ≠ '\n' := by
      rintro rfl
      exact absurd hword.1 (by decide)
    rw [List.cons_append, plainTokens_cons hline, hrole]
    by_cases hnil : word = []
    · subst hnil
      have hjoins := not_joins_of_endsWord row hrest
      rw [List.nil_append]
      cases htokens : plainTokens row rest with
      | nil => rfl
      | cons t ts =>
        rw [htokens] at hjoins
        have hnot : ((Role.word = .word || Role.word = .literal) && t.role = .word &&
            t.gap.isEmpty) = false := by
          by_cases ht : t.role = .word
          · rw [hjoins t rfl ht, Bool.and_false]
          · rw [decide_eq_false ht, Bool.and_false, Bool.false_and]
        show (if _ = true then _ else _) = _
        rw [hnot]
        rfl
    · rw [ih hnil hword.2]
      rfl

/-! ### Parts of a text -/

/-- A part of a line is read as some tokens, whatever comes after it, as long as that does not go on
    with the last word. No statement ends within it. -/
structure Reads (row : Nat) (cs : List Char) (ts : List Token) : Prop where
  plain : ∀ c ∈ cs, IsPlain c
  tokens : ∀ rest, EndsWord rest → plainTokens row (cs ++ rest) = ts ++ plainTokens row rest
  letters : ts.flatMap (fun t => t.gap ++ t.letters) = cs.map .char
  inside : ∀ t ∈ ts, t.endsStatement = false

namespace Reads

variable {cs' : List Char} {ts' : List Token} {t : Token}

theorem nil : Reads row [] [] := ⟨nofun, fun _ _ => rfl, rfl, nofun⟩

/-- Texts that are read are read one after the other, if the second one ends a word. -/
theorem append (h : Reads row cs ts) (h' : Reads row cs' ts') (hends : EndsWord cs') :
    Reads row (cs ++ cs') (ts ++ ts') where
  plain := List.forall_mem_append.mpr ⟨h.plain, h'.plain⟩
  tokens rest hrest := by
    rw [List.append_assoc, h.tokens _ (hends.append hrest), h'.tokens _ hrest, List.append_assoc]
  letters := by rw [List.flatMap_append, List.map_append, h.letters, h'.letters]
  inside := List.forall_mem_append.mpr ⟨h.inside, h'.inside⟩

/-- A mark follows on anything, and anything follows on it. So a dot needs no space around it. -/
theorem mark (hmark : c ∈ ['.', ',', '*']) (h : Reads row cs ts) :
    Reads row (c :: cs) (markToken row c :: ts) where
  plain := by
    refine List.forall_mem_cons.mpr ⟨.inr ?_, h.plain⟩
    exact List.mem_cons_of_mem _ (List.mem_cons_of_mem _ hmark)
  tokens rest hrest := by
    rw [List.cons_append, plainTokens_mark hmark, h.tokens _ hrest, List.cons_append]
  letters := by
    rw [List.flatMap_cons, h.letters]
    rfl
  inside := by
    refine List.forall_mem_cons.mpr ⟨?_, h.inside⟩
    simp only [List.mem_cons, List.not_mem_nil, or_false] at hmark
    rcases hmark with rfl | rfl | rfl <;> rfl

/-- Space in front of a part is in front of its first token. The token keeps it as what stands
    between it and the one before. -/
theorem space (h : Reads row cs ts) (hne : ts ≠ []) :
    Reads row (' ' :: cs) (ts.modifyHead Token.spaced) := by
  obtain ⟨t, ts, rfl⟩ := List.exists_cons_of_ne_nil hne
  refine ⟨List.forall_mem_cons.mpr ⟨.inr (by decide), h.plain⟩, fun rest hrest => ?_, ?_, ?_⟩
  · rw [List.cons_append, plainTokens_cons (by decide), h.tokens _ hrest]
    rfl
  · show .char ' ' :: (t :: ts).flatMap (fun t => t.gap ++ t.letters) = _
    rw [h.letters]
    rfl
  · obtain ⟨ht, hts⟩ := List.forall_mem_cons.mp h.inside
    exact List.forall_mem_cons.mpr ⟨ht, hts⟩

theorem word {word : List Char} (hne : word ≠ []) (hword : word.all isNameChar = true) :
    Reads row word [wordToken row word] where
  plain c hc := .inl (List.all_eq_true.mp hword c hc)
  tokens rest hrest := by
    rw [plainTokens_word hne (List.all_eq_true.mp hword) hrest]
    rfl
  letters := List.append_nil _
  inside := List.forall_mem_singleton.mpr rfl

/-- A list of parts, each of which ends the word before it. The induction is along the list. -/
theorem flatMap {α : Type} {items : List α} {text : α → List Char} {tokens : α → List Token}
    (hreads : ∀ a ∈ items, Reads row (text a) (tokens a))
    (hends : ∀ a ∈ items, EndsWord (text a)) :
    Reads row (items.flatMap text) (items.flatMap tokens) ∧ EndsWord (items.flatMap text) := by
  induction items with
  | nil => exact ⟨.nil, endsWord_nil⟩
  | cons a items ih =>
    rw [List.forall_mem_cons] at hreads hends
    obtain ⟨ih, ihends⟩ := ih hreads.2 hends.2
    exact ⟨hreads.1.append ih ihends, hends.1.append ihends⟩

/-- The bytes of tokens are those of the text that they are read from, without the space in front.
    The gaps further on are part of the text and stay in it. -/
theorem span_eq (h : Reads row cs (t :: ts)) (hgap : t.gap = []) (gap : List Letter) :
    span ({ t with gap := gap } :: ts) = Utf8.encodeChars cs := by
  have hletters := h.letters
  rw [List.flatMap_cons, hgap, List.nil_append] at hletters
  show (t.letters ++ ts.flatMap (fun u => u.gap ++ u.letters)).flatMap Letter.bytes = _
  rw [hletters, List.flatMap_map]
  rfl

/-- A part that is a line of its own, at the end of a text. The reading is stated with any rest
    behind it; here there is none. -/
theorem plainTokens_eq (h : Reads row cs ts) : plainTokens row cs = ts := by
  have htokens := h.tokens [] endsWord_nil
  rwa [List.append_nil, show plainTokens row [] = [] from rfl, List.append_nil] at htokens

/-- A part that is a line of its own, with another line after it. The line feed ends the last word
    of the part. -/
theorem plainTokens_line (h : Reads row cs ts) :
    plainTokens row (cs ++ '\n' :: rest) = ts ++ endToken row :: plainTokens (row + 1) rest := by
  rw [h.tokens _ (endsWord_cons (by decide)), plainTokens_lineEnd]

end Reads

end Backlog.Import.Python
