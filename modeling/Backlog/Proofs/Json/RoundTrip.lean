import Backlog.Proofs.Json.Scalars

namespace Backlog.Json

open Backlog.Number Backlog.Text

/-!
# Documents in JSON, written and read

A text that was written is read by following the writer: for each value it is shown that the reader,
in front of what was written and of anything that may stand behind it, takes just that and gives the
value. Scalars are a parameter of this, for floats are not all read as they were written; and so is
the style, as long as its line breaks are blank.

* `IsDocument` — documents made of some scalars, of lists, and of mappings with texts as keys;
* `IsReading` — documents that differ in their scalars only;
* `readValue_writeAt` — what was written of a document is read as the document whose scalars are those
  that are read, whatever stands behind it;
* `parseChars_write` — so is the text of a document, up to blanks behind it;
* `IsDocument.obstacle?_eq_none` — documents of exact scalars can be written;
* `IsDocument.isLinear` — in lines of ASCII they are written with printable characters and line feeds
  only.
-/

/-- Members with texts as keys. -/
def pairsOf (members : List (String × Data)) : List (Scalar × Data) :=
  members.map fun e => (.text e.1, e.2)

@[simp] theorem pairsOf_nil : pairsOf [] = [] := rfl

@[simp] theorem pairsOf_cons (e : String × Data) (members : List (String × Data)) :
    pairsOf (e :: members) = (.text e.1, e.2) :: pairsOf members := rfl

/-- Members are told apart by their pairs, as texts are by being keys. -/
theorem pairsOf_inj {members members' : List (String × Data)} :
    pairsOf members = pairsOf members' ↔ members = members' :=
  List.map_inj_right fun _ _ h => Prod.ext (Scalar.text.inj (Prod.mk.inj h).1) (Prod.mk.inj h).2

/-- The mapping with these members. -/
def mapOf (members : List (String × Data)) : Data := .map (pairsOf members)

/-- Members are told apart by the object that they make. -/
theorem mapOf_inj {members members' : List (String × Data)} :
    mapOf members = mapOf members' ↔ members = members' := by
  rw [mapOf, mapOf, Data.map.injEq, pairsOf_inj]

/-- Documents made of scalars that pass a test, of lists, and of mappings from texts. -/
inductive IsDocument (leaf : Scalar → Prop) : Data → Prop
  | scalar {s : Scalar} (h : leaf s) : IsDocument leaf (.scalar s)
  | list {items : List Data} (h : ∀ item ∈ items, IsDocument leaf item) :
      IsDocument leaf (.list items)
  | map {members : List (String × Data)} (hkeys : (members.map Prod.fst).Nodup)
      (h : ∀ e ∈ members, IsDocument leaf e.2) : IsDocument leaf (mapOf members)

/-- A document of scalars of one sort is one of every wider sort. The sorts used are those that are
    read back exactly, and those that can be read at all. -/
theorem IsDocument.mono {leaf leaf' : Scalar → Prop} {d : Data} (h : IsDocument leaf d)
    (hleaf : ∀ s, leaf s → leaf' s) : IsDocument leaf' d := by
  induction h with
  | scalar h => exact .scalar (hleaf _ h)
  | list _ ih => exact .list ih
  | map hkeys _ ih => exact .map hkeys ih

/-- A list of texts is a document, and its texts are read back exactly. -/
theorem isDocument_texts (texts : List String) :
    IsDocument IsExact (.list (texts.map Data.text)) :=
  .list (List.forall_mem_map.mpr fun _ _ => .scalar trivial)

/-- Documents that differ in their scalars only, by a relation that holds for each of these. -/
inductive IsReading (leaf : Scalar → Scalar → Prop) : Data → Data → Prop
  | scalar {s s' : Scalar} (h : leaf s s') : IsReading leaf (.scalar s) (.scalar s')
  | list {items : List (Data × Data)} (h : ∀ item ∈ items, IsReading leaf item.1 item.2) :
      IsReading leaf (.list (items.map Prod.fst)) (.list (items.map Prod.snd))
  | map {members : List (String × Data × Data)} (hkeys : (members.map Prod.fst).Nodup)
      (h : ∀ e ∈ members, IsReading leaf e.2.1 e.2.2) :
      IsReading leaf (mapOf (members.map fun e => (e.1, e.2.1)))
        (mapOf (members.map fun e => (e.1, e.2.2)))

/-- A document is a reading of itself if the relation holds between each of its scalars and itself.
    So exact documents are a special case of readings, and one proof serves both. -/
theorem IsDocument.isReading {leaf : Scalar → Prop} {rel : Scalar → Scalar → Prop} {d : Data}
    (h : IsDocument leaf d) (hleaf : ∀ s, leaf s → rel s s) : IsReading rel d d := by
  induction h with
  | scalar h => exact .scalar (hleaf _ h)
  | @list items _ ih =>
    have hitems : ∀ item ∈ items.map fun d => (d, d), IsReading rel item.1 item.2 :=
      List.forall_mem_map.mpr ih
    simpa [Function.comp_def] using IsReading.list hitems
  | @map members hkeys _ ih =>
    have hmembers : ∀ e ∈ members.map fun e => (e.1, e.2, e.2), IsReading rel e.2.1 e.2.2 :=
      List.forall_mem_map.mpr ih
    simpa [Function.comp_def] using IsReading.map (by simpa [Function.comp_def] using hkeys) hmembers

/-! ### Blanks -/

/-- Whether a style sets nothing but blanks between the colon and a value. -/
def Style.IsReadable (style : Style) : Prop :=
  ∃ blanks, style.colon = ':' :: blanks ∧ ∀ c ∈ blanks, isBlank c = true

/-- The style in which ledgers and cache entries are written can be read. -/
theorem isReadable_asciiLines : Style.asciiLines.IsReadable :=
  ⟨[' '], rfl, List.forall_mem_singleton.mpr rfl⟩

/-- A line break holds a line feed and spaces, which are blanks. -/
theorem isBlank_of_mem_lineBreak {style : Style} {level : Nat} :
    ∀ c ∈ lineBreak style level, isBlank c = true := by
  intro c hc
  unfold lineBreak at hc
  split at hc
  · cases hc
  · rcases List.mem_cons.mp hc with rfl | hc
    · rfl
    · obtain rfl := List.eq_of_mem_replicate hc
      rfl

/-- Blanks in front are skipped, however many there are. -/
theorem skipBlanks_append {blanks cs : List Char} (h : ∀ c ∈ blanks, isBlank c = true) :
    skipBlanks (blanks ++ cs) = skipBlanks cs :=
  List.dropWhile_append_of_pos h

theorem skipBlanks_cons {c : Char} {cs : List Char} (h : isBlank c = false) :
    skipBlanks (c :: cs) = c :: cs :=
  List.dropWhile_cons_of_neg (by simpa using h)

/-- A blank does not go on with a number. So a number is read up to the blank, and no further. -/
theorem endsScalar_of_isBlank {c : Char} {rest : List Char} (h : isBlank c = true) :
    EndsScalar (c :: rest) := by
  refine endsScalar_cons ?_
  simp only [isBlank, Bool.or_eq_true, decide_eq_true_eq] at h
  rcases h with ((rfl | rfl) | rfl) | rfl <;> decide

/-- A line break, or what comes after it, does not go on with a number. In the dense style the line
    break is empty, and what comes after it decides. -/
theorem endsScalar_lineBreak {style : Style} {level : Nat} {rest : List Char}
    (h : EndsScalar rest) : EndsScalar (lineBreak style level ++ rest) := by
  cases hbreak : lineBreak style level with
  | nil => exact h
  | cons c cs =>
    have hmem : c ∈ lineBreak style level := hbreak ▸ List.mem_cons_self ..
    exact endsScalar_of_isBlank (isBlank_of_mem_lineBreak c hmem)

/-! ### How values begin -/

/-- A value begins with a character that ends nothing. This is what tells a value from the bracket
    that closes an empty list. -/
theorem exists_opening {style : Style} {d d' : Data} (h : IsReading (ReadsAs style.ascii) d d')
    (level : Nat) : ∃ c cs, writeAt style level d = c :: cs ∧ IsOpening c := by
  cases h with
  | scalar h => exact h.opening
  | @list items h =>
    cases items with
    | nil => exact ⟨'[', [']'], rfl, by decide⟩
    | cons item items => exact ⟨'[', _, by rw [List.map_cons, writeAt, writeList]; rfl, by decide⟩
  | @map members hkeys h =>
    cases members with
    | nil => exact ⟨'\x7b', ['\x7d'], by simp [mapOf, writeAt], by decide⟩
    | cons e members =>
      rw [List.map_cons, mapOf, pairsOf_cons, writeAt, List.cons_append, List.cons_append]
      exact ⟨'\x7b', _, rfl, by decide⟩

/-- Blanks in front of a value are skipped, and nothing of the value. The first character of a value
    is no blank, since it is one that opens something. -/
theorem skipBlanks_writeAt {style : Style} {d d' : Data}
    (h : IsReading (ReadsAs style.ascii) d d') (level : Nat) {blanks rest : List Char}
    (hblanks : ∀ c ∈ blanks, isBlank c = true) :
    skipBlanks (blanks ++ (writeAt style level d ++ rest)) = writeAt style level d ++ rest := by
  obtain ⟨c, cs, heq, hopening⟩ := exists_opening h level
  rw [skipBlanks_append hblanks, heq, List.cons_append, skipBlanks_cons hopening.1]

/-! ### Mappings -/

/-- A new key goes to the end. Whether texts are the same key is whether they are equal. -/
theorem setPair_of_new {key : String} {value : Data} {members : List (String × Data)}
    (h : key ∉ members.map Prod.fst) :
    setPair (.text key) value (pairsOf members) = pairsOf (members ++ [(key, value)]) := by
  induction members with
  | nil => rfl
  | cons e rest ih =>
    rw [List.map_cons, List.mem_cons, not_or] at h
    have hne : (Scalar.text e.1).sameKey (.text key) = false := by
      simpa using fun heq => h.1 heq.symm
    rw [pairsOf_cons, setPair, if_neg (by simpa using hne), ih h.2, List.cons_append, pairsOf_cons]

/-- Pairs with different texts as keys are the mapping that they make. No pair finds its key taken
    by one before it. -/
theorem ofPairs_pairsOf {members : List (String × Data)} (h : (members.map Prod.fst).Nodup) :
    Data.ofPairs (pairsOf members) = mapOf members := by
  have hfold : ∀ before after : List (String × Data), ((before ++ after).map Prod.fst).Nodup →
      (pairsOf after).foldl (fun entries e => setPair e.1 e.2 entries) (pairsOf before) =
        pairsOf (before ++ after) := by
    intro before after
    -- Each key of `after` is new, so its pair goes to the end.
    induction after generalizing before with
    | nil => simp
    | cons e after ih =>
      intro hnodup
      have hnew : e.1 ∉ before.map Prod.fst := by
        rw [List.map_append, List.nodup_append] at hnodup
        exact fun he => hnodup.2.2 _ he _ (List.mem_cons_self ..) rfl
      rw [pairsOf_cons, List.foldl_cons, setPair_of_new hnew, ih _ (by simpa using hnodup),
        List.append_assoc, List.singleton_append]
  exact congrArg Data.map (hfold [] members h)

/-! ### Reading what was written -/

/-- What was written of one value is read as another one, whatever stands behind it. -/
def IsReadAs (style : Style) (d d' : Data) : Prop :=
  ∀ level fuel rest, EndsScalar rest → (writeAt style level d).length < fuel →
    readValue fuel (writeAt style level d ++ rest) = .ok (d', rest)

variable {style : Style}

/-- The closing bracket, after the line break in front of it. It is the bracket or the comma that
    the reader looks for behind a value. -/
theorem skipBlanks_lineBreak {level : Nat} {c : Char} {rest : List Char} (h : isBlank c = false) :
    skipBlanks (lineBreak style level ++ c :: rest) = c :: rest := by
  rw [skipBlanks_append isBlank_of_mem_lineBreak, skipBlanks_cons h]

/-- The items of a list are read up to its closing bracket, if each of them is read. The induction
    is along the items. The fuel is more than the characters that were written, and every item takes
    some. -/
theorem readItems_write (item : Data × Data) (items : List (Data × Data)) (level fuel : Nat)
    (rest : List Char)
    (hdoc : ∀ d ∈ item :: items, IsReading (ReadsAs style.ascii) d.1 d.2)
    (hread : ∀ d ∈ item :: items, IsReadAs style d.1 d.2)
    (hfuel : (writeAt style (level + 1) item.1).length +
      (writeItems style level (items.map Prod.fst)).length < fuel) :
    readItems (fuel + 1) (writeAt style (level + 1) item.1 ++
      (writeItems style level (items.map Prod.fst) ++
        (lineBreak style level ++ ']' :: rest))) =
      .ok (item.2 :: items.map Prod.snd, rest) := by
  -- `item` is the one to be read next, and the comma before it has been read.
  induction items generalizing item fuel with
  | nil =>
    have hitem := hread item (List.mem_cons_self ..) (level + 1) fuel
      (lineBreak style level ++ ']' :: rest) (endsScalar_lineBreak (endsScalar_cons (by decide)))
      (by omega)
    rw [List.map_nil, writeItems, List.nil_append, readItems]
    simp only [hitem, skipBlanks_lineBreak (by decide : isBlank ']' = false), bind, Except.bind,
      pure, Except.pure, List.map_nil]
  | cons next items ih =>
    have hitem := hread item (List.mem_cons_self ..) (level + 1) fuel
      (writeItems style level ((next :: items).map Prod.fst) ++
        (lineBreak style level ++ ']' :: rest))
      (by rw [List.map_cons, writeItems]; exact endsScalar_cons (by decide)) (by omega)
    have hmore : skipBlanks (writeItems style level ((next :: items).map Prod.fst) ++
          (lineBreak style level ++ ']' :: rest)) =
        ',' :: (lineBreak style (level + 1) ++ (writeAt style (level + 1) next.1 ++
          (writeItems style level (items.map Prod.fst) ++
            (lineBreak style level ++ ']' :: rest)))) := by
      simp only [List.map_cons, writeItems, List.cons_append, List.append_assoc]
      exact skipBlanks_cons (by decide)
    simp only [List.map_cons, writeItems, List.length_append, List.length_cons] at hfuel
    obtain ⟨fuel, rfl⟩ : ∃ n, fuel = n + 1 := ⟨fuel - 1, by omega⟩
    have htail := ih next fuel (fun d hd => hdoc d (List.mem_cons_of_mem _ hd))
      (fun d hd => hread d (List.mem_cons_of_mem _ hd)) (by omega)
    rw [readItems]
    simp only [hitem, hmore, skipBlanks_writeAt (hdoc next (by simp)) (level + 1)
      isBlank_of_mem_lineBreak, htail, bind, Except.bind, pure, Except.pure]
    rfl

/-- A key is read up to its closing quote. What is between the quotes is left open. -/
theorem exists_writeKey (style : Style) (key : String) :
    ∃ cs, writeKey style.ascii (.text key) = '"' :: cs ∧
    ∀ start rest, readString start (cs ++ rest).length (cs ++ rest) = .ok (key.toList, rest) := by
  refine ⟨key.toList.flatMap (writeChar style.ascii) ++ ['"'], rfl, fun start rest => ?_⟩
  rw [List.append_assoc, List.singleton_append]
  exact readString_writeString _ _ _ _

/-- A member of an object is read, and what stands behind it decides how to go on. Behind it comes a
    comma or the closing brace, which the tail stands for. -/
theorem readMembers_member (hstyle : style.IsReadable) {key : String} {value value' : Data}
    (hdoc : IsReading (ReadsAs style.ascii) value value') (hread : IsReadAs style value value')
    {level fuel : Nat} {tail : List Char} (htail : EndsScalar tail)
    (hfuel : (writeAt style level value).length < fuel) :
    readMembers (fuel + 1) (writeKey style.ascii (.text key) ++
        (style.colon ++ (writeAt style level value ++ tail))) =
      match skipBlanks tail with
      | '\x7d' :: rest => .ok ([(.text key, value')], rest)
      | ',' :: rest => do
        let (entries, rest) ← readMembers fuel (skipBlanks rest)
        return ((.text key, value') :: entries, rest)
      | rest => .error (.fault .expectedComma rest.length) := by
  obtain ⟨blanks, hcolon, hblanks⟩ := hstyle
  obtain ⟨cs, hkey, hreadKey⟩ := exists_writeKey style key
  rw [hkey, hcolon, List.cons_append, List.cons_append, readMembers]
  simp only [hreadKey, skipBlanks_cons (by decide : isBlank ':' = false),
    skipBlanks_writeAt hdoc level hblanks, hread level fuel tail htail hfuel, bind, Except.bind,
    pure, Except.pure, String.ofList_toList]
  rfl

/-- A line break in front of a key is skipped, and nothing of the key. -/
theorem skipBlanks_writeKey (key : String) (level : Nat) (rest : List Char) :
    skipBlanks (lineBreak style level ++ (writeKey style.ascii (.text key) ++ rest)) =
      writeKey style.ascii (.text key) ++ rest := by
  obtain ⟨cs, hkey, _⟩ := exists_writeKey style key
  rw [hkey, List.cons_append, skipBlanks_lineBreak (by decide)]

/-- An object's members begin with the quote of the first key. The reader tells by the quote that
    the object is not empty. -/
theorem exists_skipBlanks_writeMembers (style : Style) (e : String × Data)
    (members : List (String × Data))
    (level : Nat) (rest : List Char) :
    ∃ cs, skipBlanks (writeMembers style level (pairsOf (e :: members)) ++ rest) = '"' :: cs := by
  obtain ⟨cs, hkey, _⟩ := exists_writeKey style e.1
  rw [pairsOf_cons, writeMembers]
  simp only [List.append_assoc]
  rw [skipBlanks_writeKey, hkey]
  exact ⟨_, List.cons_append⟩

/-- Members, each with what its value is read as: those that are written. -/
def writtenOf (members : List (String × Data × Data)) : List (String × Data) :=
  members.map fun e => (e.1, e.2.1)

/-- Those that are read. -/
def readOf (members : List (String × Data × Data)) : List (String × Data) :=
  members.map fun e => (e.1, e.2.2)

/-- What is written of some members, one after the other. -/
@[simp] theorem writtenOf_cons (e : String × Data × Data) (members : List (String × Data × Data)) :
    writtenOf (e :: members) = (e.1, e.2.1) :: writtenOf members := rfl

/-- What is read of some members, one after the other. -/
@[simp] theorem readOf_cons (e : String × Data × Data) (members : List (String × Data × Data)) :
    readOf (e :: members) = (e.1, e.2.2) :: readOf members := rfl

/-- The members of an object, from the first key on, are read up to the closing brace, if each of
    their values is read. The induction is along the members, as for the items of a list. -/
theorem readMembers_write (hstyle : style.IsReadable) (e : String × Data × Data)
    (members : List (String × Data × Data)) (level fuel : Nat) (rest : List Char)
    (hdoc : ∀ m ∈ e :: members, IsReading (ReadsAs style.ascii) m.2.1 m.2.2)
    (hread : ∀ m ∈ e :: members, IsReadAs style m.2.1 m.2.2)
    (hfuel : (writeMembers style level (pairsOf (writtenOf (e :: members)))).length < fuel) :
    readMembers (fuel + 1)
        (skipBlanks (writeMembers style level (pairsOf (writtenOf (e :: members))) ++
          (lineBreak style level ++ '\x7d' :: rest))) =
      .ok (pairsOf (readOf (e :: members)), rest) := by
  have hdoc₁ := hdoc e (List.mem_cons_self ..)
  have hread₁ := hread e (List.mem_cons_self ..)
  -- `e` is the member to be read next, and the comma before it has been read.
  induction members generalizing e fuel with
  | nil =>
    have hwrite : writeMembers style level (pairsOf (writtenOf [e])) =
        lineBreak style (level + 1) ++ (writeKey style.ascii (.text e.1) ++
          (style.colon ++ writeAt style (level + 1) e.2.1)) := by
      simp [writtenOf, writeMembers]
    rw [hwrite] at hfuel ⊢
    simp only [List.length_append] at hfuel
    simp only [List.append_assoc]
    rw [skipBlanks_writeKey, readMembers_member hstyle hdoc₁ hread₁
      (endsScalar_lineBreak (endsScalar_cons (by decide))) (by omega),
      skipBlanks_lineBreak (by decide)]
    rfl
  | cons next members ih =>
    have hwrite : writeMembers style level (pairsOf (writtenOf (e :: next :: members))) =
        lineBreak style (level + 1) ++ (writeKey style.ascii (.text e.1) ++
          (style.colon ++ (writeAt style (level + 1) e.2.1 ++
            ',' :: writeMembers style level (pairsOf (writtenOf (next :: members)))))) := by
      simp [writeMembers]
    rw [hwrite] at hfuel ⊢
    simp only [List.length_append, List.length_cons] at hfuel
    obtain ⟨fuel, rfl⟩ : ∃ n, fuel = n + 1 := ⟨fuel - 1, by omega⟩
    have htail := ih next fuel (fun m hm => hdoc m (List.mem_cons_of_mem _ hm))
      (fun m hm => hread m (List.mem_cons_of_mem _ hm)) (by omega)
      (hdoc next (by simp)) (hread next (by simp))
    simp only [List.append_assoc, List.cons_append]
    rw [skipBlanks_writeKey, readMembers_member hstyle hdoc₁ hread₁ (endsScalar_cons (by decide))
      (by omega), skipBlanks_cons (by decide)]
    simp only [htail, bind, Except.bind, pure, Except.pure]
    rfl

/-- A list that is not empty is read item by item. The first item begins with a character that opens
    something, which is not the closing bracket. -/
theorem readValue_bracket {fuel : Nat} {cs rest more : List Char} {items : List Data}
    (hskip : skipBlanks cs = rest) (hopening : ∃ c ds, rest = c :: ds ∧ IsOpening c)
    (hread : readItems fuel rest = .ok (items, more)) :
    readValue (fuel + 1) ('[' :: cs) = .ok (.list items, more) := by
  obtain ⟨c, ds, rfl, hc⟩ := hopening
  rw [readValue, hskip]
  split
  · rename_i heq
    exact absurd (List.cons.inj heq).1 hc.2.1
  · simp only [hread, bind, Except.bind, pure, Except.pure]

/-- An object that is not empty is read member by member. Pairs that were read make the object,
    equal keys being one key. -/
theorem readValue_brace {fuel : Nat} {cs rest more : List Char} {pairs : List (Scalar × Data)}
    (hskip : skipBlanks cs = rest) (hopening : ∃ c ds, rest = c :: ds ∧ IsOpening c)
    (hread : readMembers fuel rest = .ok (pairs, more)) :
    readValue (fuel + 1) ('\x7b' :: cs) = .ok (.ofPairs pairs, more) := by
  obtain ⟨c, ds, rfl, hc⟩ := hopening
  rw [readValue, hskip]
  split
  · rename_i heq
    exact absurd (List.cons.inj heq).1 hc.2.2.1
  · simp only [hread, bind, Except.bind, pure, Except.pure]

/-- What was written of a document is read as the document whose scalars are those that are read,
    whatever stands behind it. The induction is on the document, with a case for each way of putting
    documents together. -/
theorem readValue_writeAt (hstyle : style.IsReadable) {d d' : Data}
    (h : IsReading (ReadsAs style.ascii) d d') : IsReadAs style d d' := by
  induction h with
  | @scalar s s' h =>
    intro level fuel rest hrest hfuel
    obtain ⟨fuel, rfl⟩ : ∃ n, fuel = n + 1 := ⟨fuel - 1, by omega⟩
    exact h.read fuel rest hrest
  | @list items h ih =>
    intro level fuel rest hrest hfuel
    obtain ⟨fuel, rfl⟩ : ∃ n, fuel = n + 1 := ⟨fuel - 1, by omega⟩
    cases items with
    | nil => rfl
    | cons item items =>
      rw [List.map_cons, writeAt, writeList] at hfuel ⊢
      simp only [List.length_append, List.length_cons] at hfuel
      obtain ⟨fuel, rfl⟩ : ∃ n, fuel = n + 1 := ⟨fuel - 1, by omega⟩
      have hitem := h item (List.mem_cons_self ..)
      simp only [List.append_assoc, List.cons_append, List.nil_append]
      refine readValue_bracket (skipBlanks_writeAt hitem _ isBlank_of_mem_lineBreak) ?_
        (readItems_write item items level fuel rest h ih (by omega))
      obtain ⟨c, ds, heq, hc⟩ := exists_opening hitem (level + 1)
      exact ⟨c, _, by rw [heq, List.cons_append], hc⟩
  | @map members hkeys h ih =>
    intro level fuel rest hrest hfuel
    obtain ⟨fuel, rfl⟩ : ∃ n, fuel = n + 1 := ⟨fuel - 1, by omega⟩
    rw [← writtenOf] at hfuel ⊢
    rw [← readOf]
    cases members with
    | nil => rfl
    | cons e members =>
      have hwrite : writeAt style level (mapOf (writtenOf (e :: members))) =
          '\x7b' :: (writeMembers style level (pairsOf (writtenOf (e :: members))) ++
            (lineBreak style level ++ ['\x7d'])) := by
        rw [writtenOf_cons, mapOf, pairsOf_cons, writeAt, List.append_assoc, List.cons_append]
      rw [hwrite] at hfuel ⊢
      simp only [List.length_append, List.length_cons] at hfuel
      obtain ⟨fuel, rfl⟩ : ∃ n, fuel = n + 1 := ⟨fuel - 1, by omega⟩
      simp only [List.append_assoc, List.cons_append, List.nil_append]
      -- The pairs are read one by one, and only then become a mapping.
      have hread : ((readOf (e :: members)).map Prod.fst).Nodup := by
        simpa [readOf, Function.comp_def] using hkeys
      rw [← ofPairs_pairsOf hread]
      refine readValue_brace rfl ?_
        (readMembers_write hstyle e members level fuel rest h ih (by omega))
      obtain ⟨cs, hcs⟩ := exists_skipBlanks_writeMembers style (e.1, e.2.1) (writtenOf members) level
        (lineBreak style level ++ '\x7d' :: rest)
      exact ⟨'"', cs, hcs, by decide⟩

/-! ### Texts -/

/-- The text of a document is read as the document whose scalars are those that are read, with
    blanks behind it or without. Floats are written in decimal, so that what is read may be another
    float where the first is no number. -/
theorem parseChars_write_of_reading (hstyle : style.IsReadable) {d d' : Data}
    (h : IsReading (ReadsAs style.ascii) d d') {blanks : List Char}
    (hblanks : ∀ c ∈ blanks, isBlank c = true) :
    parseChars (write style d ++ blanks) = .ok d' := by
  obtain ⟨c, cs, heq, hopening⟩ := exists_opening h 0
  have hskip : skipBlanks (write style d ++ blanks) = write style d ++ blanks := by
    rw [write, heq, List.cons_append, skipBlanks_cons hopening.1]
  have hends : EndsScalar blanks := by
    cases blanks with
    | nil => exact endsScalar_nil
    | cons b blanks => exact endsScalar_of_isBlank (hblanks b (List.mem_cons_self ..))
  have hread := readValue_writeAt hstyle h 0 (2 * (write style d ++ blanks).length + 1) blanks hends
    (by rw [List.length_append, write]; omega)
  rw [← write] at hread
  have hrest : skipBlanks blanks = [] := by
    rw [← List.append_nil blanks, skipBlanks_append hblanks]
    rfl
  rw [parseChars, readDocument, hskip]
  · simp only [hread, hrest, bind, Except.bind, pure, Except.pure, List.isEmpty_nil, if_true]
    rfl
  · intro rest heq'
    rw [write, heq, List.cons_append] at heq'
    exact hopening.2.2.2 (List.cons.inj heq').1

/-- The text of a document is read as the document, if its scalars are read as they were written.
    Such are all scalars but floats that are not finite. -/
theorem parseChars_write (hstyle : style.IsReadable) {d : Data}
    (h : IsDocument (ReadsBack style.ascii) d) {blanks : List Char}
    (hblanks : ∀ c ∈ blanks, isBlank c = true) :
    parseChars (write style d ++ blanks) = .ok d :=
  parseChars_write_of_reading hstyle (h.isReading fun _ => id) hblanks

/-- The text of a document is read as the document. -/
theorem parse_writeText (hstyle : style.IsReadable) {d : Data}
    (h : IsDocument (ReadsBack style.ascii) d) : parse (writeText style d) = .ok d := by
  have hread := parseChars_write hstyle h (List.forall_mem_nil _)
  rwa [List.append_nil, ← String.toList_ofList (l := write style d)] at hread

/-! ### Writing -/

/-- Items without obstacles make a list without one. -/
theorem itemsObstacle?_eq_none {items : List Data} {sorting : Bool}
    (h : ∀ d ∈ items, obstacle? sorting d = none) : itemsObstacle? sorting items = none := by
  induction items with
  | nil => rfl
  | cons item items ih =>
    rw [itemsObstacle?, h item (List.mem_cons_self ..), Option.none_or]
    exact ih fun d hd => h d (List.mem_cons_of_mem _ hd)

/-- An object can be written if its members can. Keys are texts, which can always be written, and
    need no order here. -/
theorem obstacle?_mapOf_iff {members : List (String × Data)} :
    obstacle? false (mapOf members) = none ↔ ∀ e ∈ members, obstacle? false e.2 = none := by
  show entriesObstacle? false (pairsOf members) = none ↔ _
  induction members with
  | nil => simp [entriesObstacle?]
  | cons e members ih =>
    rw [pairsOf_cons, entriesObstacle?, scalarObstacle?, Option.none_or, Option.or_eq_none_iff, ih,
      List.forall_mem_cons]

/-- Documents of exact scalars can be written. The obstacles are kinds of values without a form in
    JSON, and numbers with too many digits. -/
theorem IsDocument.obstacle?_eq_none {d : Data} (h : IsDocument IsExact d) :
    obstacle? false d = none := by
  induction h with
  | scalar h => exact h.scalarObstacle? _
  | list _ ih => exact itemsObstacle?_eq_none ih
  | map _ _ ih => exact obstacle?_mapOf_iff.mpr ih

/-- What is written in lines of ASCII: printable characters, and line feeds. -/
def IsLinear (c : Char) : Prop := IsPlain c ∨ c = '\n'

/-- A printable character and a line feed are ASCII and no carriage return. -/
theorem IsLinear.ascii {c : Char} (h : IsLinear c) : c.toNat < 128 ∧ c ≠ '\r' := by
  rcases h with ⟨hlow, hhigh⟩ | rfl
  · refine ⟨by omega, ?_⟩
    rintro rfl
    exact absurd hlow (by decide)
  · decide

/-- A line break holds a line feed and spaces only. -/
theorem isLinear_of_mem_lineBreak {level : Nat} :
    ∀ c ∈ lineBreak .asciiLines level, IsLinear c := by
  intro c hc
  rcases List.mem_cons.mp hc with rfl | hc
  · exact .inr rfl
  · obtain rfl := List.eq_of_mem_replicate hc
    exact .inl (by decide)

/-- Items that are written with such characters are so with their commas and line breaks. -/
theorem isLinear_of_mem_writeItems {items : List Data} {level : Nat}
    (h : ∀ d ∈ items, ∀ level, ∀ c ∈ writeAt .asciiLines level d, IsLinear c) :
    ∀ c ∈ writeItems .asciiLines level items, IsLinear c := by
  induction items with
  | nil => simp [writeItems]
  | cons item items ih =>
    intro c hc
    rw [writeItems] at hc
    simp only [List.cons_append, List.append_assoc, List.mem_cons, List.mem_append] at hc
    rcases hc with rfl | hc | hc | hc
    · exact .inl (by decide)
    · exact isLinear_of_mem_lineBreak c hc
    · exact h item (List.mem_cons_self ..) _ c hc
    · exact ih (fun d hd => h d (List.mem_cons_of_mem _ hd)) c hc

/-- Members whose values are written with such characters are so with their keys, colons, commas and
    line breaks. -/
theorem isLinear_of_mem_writeMembers {members : List (String × Data)} {level : Nat}
    (h : ∀ e ∈ members, ∀ level, ∀ c ∈ writeAt .asciiLines level e.2, IsLinear c) :
    ∀ c ∈ writeMembers .asciiLines level (pairsOf members), IsLinear c := by
  induction members with
  | nil => simp [writeMembers]
  | cons e members ih =>
    intro c hc
    rw [pairsOf_cons, writeMembers] at hc
    simp only [List.append_assoc, List.mem_append] at hc
    rcases hc with hc | hc | hc | hc | hc
    · exact isLinear_of_mem_lineBreak c hc
    · exact .inl (writeString_isPlain e.1 c hc)
    · have hcolon : ∀ c ∈ Style.asciiLines.colon, IsPlain c := by simp [Style.asciiLines, IsPlain]
      exact .inl (hcolon c hc)
    · exact h e (List.mem_cons_self ..) _ c hc
    · split at hc
      · cases hc
      · rcases List.mem_cons.mp hc with rfl | hc
        · exact .inl (by decide)
        · exact ih (fun d hd => h d (List.mem_cons_of_mem _ hd)) c hc

/-- In lines of ASCII documents are written with printable characters and line feeds only. So a file
    that was written comes back as it was when its line ends are made line feeds. -/
theorem IsDocument.isLinear {d : Data} (h : IsDocument IsExact d) :
    ∀ level, ∀ c ∈ writeAt .asciiLines level d, IsLinear c := by
  induction h with
  | scalar h => exact fun _ c hc => .inl (h.isPlain c hc)
  | @list items _ ih =>
    intro level c hc
    cases items with
    | nil =>
      have hbrackets : ∀ c ∈ ['[', ']'], IsPlain c := by simp [IsPlain]
      exact .inl (hbrackets c hc)
    | cons item items =>
      rw [writeAt, writeList] at hc
      simp only [List.cons_append, List.append_assoc, List.mem_cons, List.mem_append,
        List.not_mem_nil, or_false] at hc
      rcases hc with rfl | hc | hc | hc | hc | rfl
      · exact .inl (by decide)
      · exact isLinear_of_mem_lineBreak c hc
      · exact ih item (List.mem_cons_self ..) _ c hc
      · exact isLinear_of_mem_writeItems (fun d hd => ih d (List.mem_cons_of_mem _ hd)) c hc
      · exact isLinear_of_mem_lineBreak c hc
      · exact .inl (by decide)
  | @map members _ _ ih =>
    intro level c hc
    cases members with
    | nil =>
      have hbraces : ∀ c ∈ ['\x7b', '\x7d'], IsPlain c := by simp [IsPlain]
      exact .inl (hbraces c hc)
    | cons e members =>
      rw [mapOf, pairsOf_cons, writeAt, ← pairsOf_cons] at hc
      simp only [List.cons_append, List.append_assoc, List.mem_cons, List.mem_append,
        List.not_mem_nil, or_false] at hc
      rcases hc with rfl | hc | hc | rfl
      · exact .inl (by decide)
      · exact isLinear_of_mem_writeMembers ih c hc
      · exact isLinear_of_mem_lineBreak c hc
      · exact .inl (by decide)

end Backlog.Json
