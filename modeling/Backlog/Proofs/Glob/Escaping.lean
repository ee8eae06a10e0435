import Backlog.Glob.GlobSet
import Backlog.Proofs.Files.Paths

namespace Backlog

open Backlog.Files Backlog.Glob

/-!
# Escaped paths as globs

A path with a backslash before each special character is a pattern for the path itself. No layer of
the reader takes anything else in it: there is no brace list to expand, and every token is a
character or a row of slashes.

* `Glob.expandWithin_escaped` — the braces are literal;
* `Glob.Pattern.literalTokens`, `Glob.Pattern.ofChars_escaped` — so is everything else;
* `Glob.Pattern.run_literalTokens`, `Glob.Pattern.aligns_of_run` — such tokens match their own text,
  and only what has the same segments;
* `escapeGlob_matches_only` — an escaped path matches the path, and nothing but its segments.
-/

namespace Glob

/-- A character as it stands in an escaped path. -/
def escapeChar (c : Char) : List Char := if specialChars.contains c then ['\\', c] else [c]

/-- A character is escaped by a backslash in front of it, or it stands as it is and is not
    special. -/
theorem escapeChar_cases (c : Char) :
    escapeChar c = ['\\', c] ∨ (escapeChar c = [c] ∧ c ∉ specialChars) := by
  unfold escapeChar
  split
  · exact .inl rfl
  · rename_i h
    exact .inr ⟨rfl, by simpa using h⟩

/-- A slash is not special: an escaped path has the same segments. -/
theorem escapeChar_slash : escapeChar '/' = ['/'] := by decide

/-- Escaping makes no text shorter. So fuel for the escaped text is fuel for the text. -/
theorem length_le_length_escaped (cs : List Char) :
    cs.length ≤ (cs.flatMap escapeChar).length := by
  induction cs with
  | nil => exact Nat.le_refl 0
  | cons c cs ih =>
    have hone : 1 ≤ (escapeChar c).length := by
      obtain h | ⟨h, _⟩ := escapeChar_cases c <;> simp [h]
    rw [List.flatMap_cons, List.length_append, List.length_cons]
    omega

/-- An escaped path begins with no special character. The backslash itself is left out, since that
    is what escaping puts in front. -/
theorem head_escaped_ne {special : Char} (hspecial : special ∈ specialChars)
    (hbackslash : special ≠ '\\') (cs rest : List Char) :
    cs.flatMap escapeChar ≠ special :: rest := by
  cases cs with
  | nil => simp
  | cons c cs =>
    obtain h | ⟨h, hc⟩ := escapeChar_cases c
    · simp [h, Ne.symm hbackslash]
    · simp only [List.flatMap_cons, h, List.cons_append, List.nil_append, ne_eq, List.cons.injEq]
      rintro ⟨rfl, _⟩
      exact hc hspecial

/-! ### Brace lists -/

/-- The characters of an escaped path, each with its backslash. -/
def escapedPieces (cs : List Char) : List Piece := cs.map fun c => .chars (escapeChar c)

/-- Read for braces, an escaped text is nothing but its characters, since no brace in it is bare.
    The induction is along the text, with the fuel left general. -/
theorem Piece.run_escaped {cs : List Char} (hcs : '\\' ∉ cs) {fuel : Nat} (hfuel : cs.length < fuel)
    (afterDollar : Bool) :
    run fuel 0 afterDollar (cs.flatMap escapeChar) = some (escapedPieces cs, []) := by
  induction cs generalizing fuel afterDollar with
  | nil =>
    obtain ⟨fuel, rfl⟩ := Nat.exists_eq_add_of_lt hfuel
    simp [run, escapedPieces]
  | cons c cs ih =>
    obtain ⟨hc, hrest⟩ : c ≠ '\\' ∧ '\\' ∉ cs := by simpa [eq_comm] using hcs
    cases fuel with
    | zero => cases hfuel
    | succ fuel =>
      have htail := ih hrest (Nat.lt_of_succ_lt_succ hfuel)
      obtain h | ⟨h, hspecial⟩ := escapeChar_cases c
      · simp [h, run, htail, escapedPieces]
      · have hbrace : c ≠ '\x7b' := by
          rintro rfl
          exact hspecial (by decide)
        simp [h, run, htail, escapedPieces, hbrace]

/-- The fuel that a pattern is given is enough for this. -/
theorem Piece.ofChars_escaped {cs : List Char} (hcs : '\\' ∉ cs) :
    ofChars (cs.flatMap escapeChar) = escapedPieces cs := by
  have hlength := length_le_length_escaped cs
  unfold ofChars
  split
  · rename_i heq
    exact absurd heq (head_escaped_ne (by decide) (by decide) cs _)
  · have hfuel : cs.length < 3 * (cs.flatMap escapeChar).length + 3 := by omega
    simp only [run_escaped hcs hfuel]
    rfl

/-- Pieces without braces expand to one text, the one that they came from. -/
theorem Piece.expand_escaped (cs : List Char) :
    expand (escapedPieces cs) = [cs.flatMap escapeChar] := by
  induction cs with
  | nil => simp [escapedPieces, expand]
  | cons c cs ih =>
    rw [escapedPieces, List.map_cons, expand, texts, ← escapedPieces, ih]
    simp

/-- Nothing is repeated, so the row costs one and the peak is not raised beyond one. -/
theorem Piece.rowCost_escaped (peak : Nat) (cs : List Char) :
    rowCost 0 1 peak false (escapedPieces cs) = ⟨1, max peak 1⟩ := by
  induction cs with
  | nil => simp [escapedPieces, rowCost]
  | cons c cs ih => 
    rw [escapedPieces, List.map_cons, rowCost, cost?, ← escapedPieces, ih]

theorem Piece.size_rowExtent_escaped (cs : List Char) : (rowExtent (escapedPieces cs)).size = 1 := by
  induction cs with
  | nil => simp [escapedPieces, rowExtent]
  | cons c cs ih =>
    rw [escapedPieces, List.map_cons, rowExtent, extent, ← escapedPieces, ih]
    rfl

theorem Piece.dropEmptyEnd_singleton (t : List Char) : dropEmptyEnd [t] = [t] := by
  cases t <;> rfl

/-- An escaped path stands for no other pattern. So no limit on the number of patterns stops it,
    except one of none at all. -/
theorem expandWithin_escaped {limit : Nat} (hlimit : 0 < limit) {cs : List Char} (hcs : '\\' ∉ cs) :
    expandWithin limit (cs.flatMap escapeChar) = some [cs.flatMap escapeChar] := by
  have hcost : (Piece.cost (escapedPieces cs)).peak = 1 := by
    rw [Piece.cost, Piece.rowCost_escaped]
    rfl
  have hsize := Piece.size_rowExtent_escaped cs
  rw [expandWithin, Piece.ofChars_escaped hcs]
  simp only [hcost, hsize, Piece.expand_escaped, Piece.dropEmptyEnd_singleton]
  rw [if_neg]
  simp
  omega

/-! ### Tokens -/

namespace Pattern

/-- The tokens of a text without any special meaning; behind a slash, more of them add nothing. -/
def literalTokens (behindSlash : Bool) : List Char → List Token
  | [] => []
  | c :: cs =>
    if c = '/' then
      if behindSlash then literalTokens true cs else .separator :: literalTokens true cs
    else .literal c :: literalTokens false cs

/-- Behind a slash, further slashes in front of a text are dropped. -/
theorem literalTokens_behindSlash (cs : List Char) :
    literalTokens true cs = literalTokens false (dropSlashes cs) := by
  induction cs with
  | nil => rfl
  | cons c cs ih =>
    by_cases hc : c = '/'
    · simpa [literalTokens, dropSlashes, hc] using ih
    · simp [literalTokens, dropSlashes, hc]

/-- Dropping slashes in front goes along with escaping, as a slash is not escaped. -/
theorem dropSlashes_escaped (cs : List Char) :
    dropSlashes (cs.flatMap escapeChar) = (dropSlashes cs).flatMap escapeChar := by
  induction cs with
  | nil => rfl
  | cons c cs ih =>
    by_cases hc : c = '/'
    · subst hc
      simpa [dropSlashes, escapeChar_slash] using ih
    · obtain h | ⟨h, _⟩ := escapeChar_cases c <;> simp [dropSlashes, h, hc]

/-- An escaped text is read as the tokens that stand for its characters. The induction is along the
    text. What was read before is kept in reverse, as the reader keeps it. -/
theorem read_escaped {cs : List Char} (hcs : '\\' ∉ cs) {fuel : Nat} (hfuel : cs.length < fuel)
    (leads : Bool) (before : List Token) :
    read fuel leads before (cs.flatMap escapeChar) = before.reverse ++ literalTokens false cs := by
  induction fuel generalizing cs leads before with
  | zero => cases hfuel
  | succ fuel ih =>
    cases cs with
    | nil => simp [read, literalTokens]
    | cons c cs =>
      obtain ⟨hc, hrest⟩ : c ≠ '\\' ∧ '\\' ∉ cs := by simpa [eq_comm] using hcs
      replace hfuel : cs.length < fuel := Nat.lt_of_succ_lt_succ hfuel
      by_cases hslash : c = '/'
      · subst hslash
        have hdrop : dropSlashes cs <:+ cs := List.dropWhile_suffix _
        have htail := ih (fun h => hrest (hdrop.mem h)) (Nat.lt_of_le_of_lt hdrop.length_le hfuel) true
          (.separator :: before)
        simp [escapeChar_slash, read, dropSlashes_escaped, htail, literalTokens,
          literalTokens_behindSlash]
      · have htail := ih hrest hfuel false (.literal c :: before)
        obtain h | ⟨h, hspecial⟩ := escapeChar_cases c
        · simp [h, read, htail, literalTokens, hslash]
        · -- what would begin a star, a question mark or a class is special
          have hstar : c ≠ '*' := by
            rintro rfl
            exact hspecial (by decide)
          have hone : c ≠ '?' := by
            rintro rfl
            exact hspecial (by decide)
          have hclass : c ≠ '[' := by
            rintro rfl
            exact hspecial (by decide)
          simp [h, read, htail, literalTokens, hslash]

/-- Read as a pattern, an escaped path has no special meaning. The text must not be empty, since an
    empty pattern matches nothing. -/
theorem ofChars_escaped {cs : List Char} (hcs : '\\' ∉ cs) (hne : cs ≠ []) :
    ofChars (cs.flatMap escapeChar) = .tokens (literalTokens false cs) := by
  have hlength := length_le_length_escaped cs
  have hpos : 0 < cs.length := List.length_pos_iff.mpr hne
  rw [ofChars, if_neg, read_escaped hcs (Nat.lt_succ_of_le hlength)]
  · rfl
  · rw [List.isEmpty_iff, ← List.length_eq_zero_iff]
    omega

/-! ### Matching -/

/-- What may follow slashes follows some number of them. -/
theorem afterSlashes_iff {k : List Char → Bool} {text : List Char} :
    afterSlashes k text = true ↔ ∃ n rest, text = List.replicate n '/' ++ rest ∧ k rest = true := by
  induction text with
  | nil => simp [afterSlashes, List.nil_eq, and_assoc]
  | cons c text ih =>
    rw [afterSlashes, Bool.or_eq_true, Bool.and_eq_true, decide_eq_true_eq, ih]
    constructor
    · rintro (h | ⟨rfl, n, rest, rfl, h⟩)
      · exact ⟨0, c :: text, rfl, h⟩
      · exact ⟨n + 1, rest, rfl, h⟩
    · rintro ⟨n, rest, heq, h⟩
      cases n with
      | zero =>
        obtain rfl : c :: text = rest := heq
        exact .inl h
      | succ n =>
        obtain ⟨rfl, rfl⟩ := List.cons.inj heq
        exact .inr ⟨rfl, n, rest, rfl, h⟩

/-- The tokens of a text match it, also behind slashes that are there already. Both hold at once
    because a slash leads from the one to the other. -/
theorem run_literalTokens (cs : List Char) (atStart : Bool) :
    run (literalTokens false cs) atStart cs = true ∧
      afterSlashes (run (literalTokens true cs) atStart) cs = true := by
  induction cs generalizing atStart with
  | nil => exact ⟨rfl, rfl⟩
  | cons c cs ih =>
    by_cases hc : c = '/'
    · subst hc
      simp [literalTokens, run, afterSlashes, (ih false).2, (ih atStart).2]
    · simp [literalTokens, run, afterSlashes, hc, (ih false).1]

/-- The segments of a text. -/
def segmentsOf (cs : List Char) : List (List Char) := (splitSlashes cs).filter (· ≠ [])

/-- Two texts that go on with the same segments, the first of them perhaps cut off in front. -/
def Aligns (cs text : List Char) : Prop :=
  ∃ first after others, splitSlashes cs = first :: after ∧ splitSlashes text = first :: others ∧
    after.filter (· ≠ []) = others.filter (· ≠ [])

theorem Aligns.segmentsOf_eq {cs text : List Char} (h : Aligns cs text) :
    segmentsOf cs = segmentsOf text := by
  obtain ⟨first, after, others, hcs, htext, hrest⟩ := h
  rw [segmentsOf, segmentsOf, hcs, htext, List.filter_cons, List.filter_cons, hrest]

theorem segmentsOf_replicate (n : Nat) (cs : List Char) :
    segmentsOf (List.replicate n '/' ++ cs) = segmentsOf cs := by
  rw [segmentsOf, splitSlashes_replicate, List.filter_append, List.filter_replicate]
  simp [segmentsOf]

/-- The same character in front of aligned texts leaves them aligned, unless it is a slash. -/
theorem Aligns.cons {c : Char} (hc : c ≠ '/') {cs text : List Char} (h : Aligns cs text) :
    Aligns (c :: cs) (c :: text) := by
  obtain ⟨first, after, others, hcs, htext, hrest⟩ := h
  refine ⟨c :: first, after, others, ?_, ?_, hrest⟩
  · rw [splitSlashes, if_neg hc, hcs]
  · rw [splitSlashes, if_neg hc, htext]

/-- At the end of a pattern there may be slashes, which add no segment. -/
theorem aligns_nil_replicate (n : Nat) : Aligns [] (List.replicate n '/') := by
  refine ⟨[], [], List.replicate n [], rfl, ?_, ?_⟩
  · rw [← List.append_nil (List.replicate n '/'), splitSlashes_replicate, splitSlashes,
      ← List.replicate_succ', List.replicate_succ]
  · simp

/-- What the tokens of a text match goes on with the segments of the text; behind a slash it may do
    so after more of them. -/
theorem aligns_of_run {cs text : List Char} {atStart : Bool} :
    (run (literalTokens false cs) atStart text = true → Aligns cs text) ∧
      (afterSlashes (run (literalTokens true cs) atStart) text = true →
        segmentsOf cs = segmentsOf text) := by
  induction cs generalizing text atStart with
  | nil =>
    have hnil : ∀ text, run [] atStart text = true → Aligns [] text := by
      intro text h
      rw [run, List.all_eq_true] at h
      rw [List.eq_replicate_of_mem fun c hc => of_decide_eq_true (h c hc)]
      exact aligns_nil_replicate text.length
    refine ⟨hnil text, fun h => ?_⟩
    obtain ⟨n, rest, rfl, hrest⟩ := afterSlashes_iff.mp h
    rw [segmentsOf_replicate, (hnil rest hrest).segmentsOf_eq]
  | cons c cs ih =>
    by_cases hc : c = '/'
    · subst hc
      constructor
      · intro h
        cases text with
        | nil => simp [literalTokens, run] at h
        | cons x text =>
          rw [literalTokens, if_pos rfl, if_neg Bool.false_ne_true, run, Bool.and_eq_true,
            decide_eq_true_eq] at h
          obtain ⟨rfl, hrest⟩ := h
          exact ⟨[], splitSlashes cs, splitSlashes text, rfl, rfl, ih.2 hrest⟩
      · intro h
        rw [literalTokens, if_pos rfl, if_pos rfl] at h
        rw [← ih.2 h]
        exact segmentsOf_replicate 1 cs
    -- A character that is no slash stands for itself, in front of which there may be slashes.
    · have hstep : ∀ text, run (.literal c :: literalTokens false cs) atStart text = true →
          Aligns (c :: cs) text := by
        intro text h
        cases text with
        | nil => simp [run] at h
        | cons x text =>
          simp only [run, Bool.and_eq_true, decide_eq_true_eq] at h
          obtain ⟨rfl, h⟩ := h
          exact (ih.1 h).cons hc
      rw [literalTokens, if_neg hc, literalTokens, if_neg hc]
      refine ⟨hstep text, fun h => ?_⟩
      obtain ⟨n, rest, rfl, hrest⟩ := afterSlashes_iff.mp h
      rw [segmentsOf_replicate, (hstep rest hrest).segmentsOf_eq]

end Pattern

end Glob

/-! ### Paths -/

theorem dropDotSlashes_suffix (cs : List Char) : dropDotSlashes cs <:+ cs := by
  fun_induction dropDotSlashes cs with
  | case1 cs ih => exact ih.trans ((List.suffix_cons _ _).trans (List.suffix_cons _ _))
  | case2 cs _ => exact List.suffix_rfl

/-- As it is matched, a path has no backslashes. They were turned into slashes. -/
theorem not_mem_normalizeChars (cs : List Char) : '\\' ∉ normalizeChars cs := by
  intro h
  obtain ⟨c, _, hc⟩ := List.mem_map.mp ((dropDotSlashes_suffix _).mem h)
  split at hc
  · cases hc
  · rename_i hne
    exact hne hc

/-- The segments of a path as it is matched; empty ones do not count. -/
def segments (path : String) : List String := (namesOf (normalizePath path)).filter (· ≠ "")

/-- The segments of a path are those of its characters in the spelling in which it is matched. -/
theorem segments_eq (path : String) :
    segments path = (Pattern.segmentsOf (normalizeChars path.toList)).map String.ofList := by
  have hempty : ((fun name : String => decide (name ≠ "")) ∘ String.ofList) =
      fun cs : List Char => decide (cs ≠ []) := by
    funext cs
    simp
  rw [segments, namesOf, normalizePath, String.toList_ofList, List.filter_map, hempty,
    Pattern.segmentsOf]

/-- An escaped path is the path in that spelling, each special character of it behind a
    backslash. -/
theorem toList_escapeGlob (path : String) :
    (escapeGlob path).toList = (normalizeChars path.toList).flatMap escapeChar := by
  rw [escapeGlob, String.toList_ofList]
  rfl

/-- An escaped path is a single pattern without special meaning. It compiles whatever its length,
    since it is one pattern only. -/
theorem compile_escapeGlob {path : String} (h : normalizePath path ≠ "") :
    GlobSet.compile [escapeGlob path] = .ok ⟨[escapeGlob path],
      [.tokens (Pattern.literalTokens false (normalizeChars path.toList))]⟩ := by
  have hcs := not_mem_normalizeChars path.toList
  have hne : normalizeChars path.toList ≠ [] := by
    intro hnil
    rw [normalizePath, hnil] at h
    exact h rfl
  have hexpand : expandWithin (max 1 (maxPatterns - 0)) (escapeGlob path).toList =
      some [(escapeGlob path).toList] := by
    rw [toList_escapeGlob]
    exact expandWithin_escaped (by decide) hcs
  rw [GlobSet.compile, GlobSet.expandAll, hexpand, ← Pattern.ofChars_escaped hcs hne,
    ← toList_escapeGlob]
  rfl

/-- An escaped path matches the path, and only paths with the same segments. -/
theorem escapeGlob_matches_only {path : String} (h : normalizePath path ≠ "") :
    ∃ globs, GlobSet.compile [escapeGlob path] = .ok globs ∧ globs.matches path = true ∧
      ∀ other, globs.matches other = true → segments other = segments path := by
  refine ⟨_, compile_escapeGlob h, ?_, fun other hmatch => ?_⟩
  · rw [GlobSet.matches, List.any_cons, List.any_nil, Bool.or_false]
    exact (Pattern.run_literalTokens _ true).1
  · rw [GlobSet.matches, List.any_cons, List.any_nil, Bool.or_false] at hmatch
    rw [segments_eq, segments_eq, (Pattern.aligns_of_run.1 hmatch).segmentsOf_eq]

/-- A route with a class, a brace list, a star and a negation in its name, spelled with a backslash
    and a dot in front. -/
theorem escapeGlob_bracketRoute :
    normalizePath "./app\\[id]/\x7ba,!b\x7d*.tsx" ≠ "" ∧
      ∃ globs, GlobSet.compile [escapeGlob "./app\\[id]/\x7ba,!b\x7d*.tsx"] = .ok globs ∧
        globs.matches "./app\\[id]/\x7ba,!b\x7d*.tsx" = true ∧
        ∀ other, globs.matches other = true →
          segments other = ["app", "[id]", "\x7ba,!b\x7d*.tsx"] := by
  have hne : normalizePath "./app\\[id]/\x7ba,!b\x7d*.tsx" ≠ "" := by decide
  have hsegments : segments "./app\\[id]/\x7ba,!b\x7d*.tsx" =
      ["app", "[id]", "\x7ba,!b\x7d*.tsx"] := by decide
  obtain ⟨globs, hglobs, hself, hother⟩ := escapeGlob_matches_only hne
  exact ⟨hne, globs, hglobs, hself, fun other hmatch => (hother other hmatch).trans hsegments⟩

end Backlog
