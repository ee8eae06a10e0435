import Backlog.Proofs.Json.RoundTrip
import Backlog.Proofs.Outcome

namespace Backlog.Json

open Backlog.Number Backlog.Text

/-!
# What reading JSON can give

The reader is a recursion with fuel over characters. What it gives is described by one induction: a
document whose scalars are legible, and in whose mappings no key comes twice, since a later member
takes the place of an earlier one.

* `IsLegible` — the scalars that the reader knows: nothing, truth values, texts, floats, and whole
  numbers up to the greatest number of digits;
* `exists_ofPairs` — pairs with texts as keys make a mapping in which no key comes twice;
* `isDocument_of_parse` — whatever is read is a document of legible scalars.
-/

/-- A scalar that can be read. -/
def IsLegible : Scalar → Prop
  | .null | .bool _ | .text _ | .float _ => True
  | .int n => isTooLong n = false
  | _ => False

/-- The members of a mapping in a document. All its keys are texts, and its values are documents. -/
theorem IsDocument.exists_members {leaf : Scalar → Prop} {entries : List (Scalar × Data)}
    (h : IsDocument leaf (.map entries)) :
    ∃ members, entries = pairsOf members ∧ (members.map Prod.fst).Nodup ∧
      ∀ e ∈ members, IsDocument leaf e.2 := by
  generalize hd : Data.map entries = d at h
  cases h with
  | scalar _ | list _ => cases hd
  | @map members hkeys h => exact ⟨members, Data.map.inj hd, hkeys, h⟩

/-- The value of an entry of a document is a document. -/
theorem IsDocument.value {leaf : Scalar → Prop} {entries : List (Scalar × Data)}
    (h : IsDocument leaf (.map entries)) {e : Scalar × Data} (he : e ∈ entries) :
    IsDocument leaf e.2 := by
  obtain ⟨members, rfl, _, hmembers⟩ := h.exists_members
  obtain ⟨m, hm, rfl⟩ := List.mem_map.mp he
  exact hmembers m hm

/-- The keys of a mapping in a document are different. Equal keys were made one key when the mapping
    was put together. -/
theorem IsDocument.nodup_keys {leaf : Scalar → Prop} {entries : List (Scalar × Data)}
    (h : IsDocument leaf (.map entries)) : (entries.map Prod.fst).Nodup := by
  obtain ⟨members, rfl, hkeys, _⟩ := h.exists_members
  have hmap : (pairsOf members).map Prod.fst = (members.map Prod.fst).map Scalar.text := by
    simp [pairsOf, Function.comp_def]
  rw [hmap, List.nodup_iff_pairwise_ne]
  exact (List.nodup_iff_pairwise_ne.mp hkeys).map _ fun _ _ hne h => hne (Scalar.text.inj h)

/-! ### Numbers -/

/-- Digits stand for less than a power of ten with as many zeros. The number in front is what the
    digits before them stand for, so that the induction goes through. -/
theorem ofDigitChars_lt {digits : List Char} (h : ∀ c ∈ digits, c.isDigit = true) (n : Nat) :
    Nat.ofDigitChars 10 digits n < (n + 1) * 10 ^ digits.length := by
  -- `n` is the value of the digits before these.
  induction digits generalizing n with
  | nil => simp [Nat.ofDigitChars]
  | cons c digits ih =>
    have hdigit : c.toNat - '0'.toNat < 10 := by
      have hc := h c (List.mem_cons_self ..)
      simp only [Char.isDigit, Bool.and_eq_true, decide_eq_true_eq, ge_iff_le,
        UInt32.le_iff_toNat_le] at hc
      have hhigh : c.toNat ≤ 57 := hc.2
      have hzero : '0'.toNat = 48 := rfl
      omega
    have hrest := ih (fun d hd => h d (List.mem_cons_of_mem _ hd)) (10 * n + (c.toNat - '0'.toNat))
    rw [Nat.ofDigitChars_cons, List.length_cons, Nat.pow_succ']
    calc Nat.ofDigitChars 10 digits (10 * n + (c.toNat - '0'.toNat))
        < (10 * n + (c.toNat - '0'.toNat) + 1) * 10 ^ digits.length := hrest
      _ ≤ ((n + 1) * 10) * 10 ^ digits.length := Nat.mul_le_mul_right _ (by omega)
      _ = (n + 1) * (10 * 10 ^ digits.length) := Nat.mul_assoc _ _ _

/-- A number that was read in digits is not too long to be written. Reading and writing share one
    limit, and a number has no more digits than it was read in. -/
theorem isTooLong_of_natOfDigits {digits : List Char} (h : ∀ c ∈ digits, c.isDigit = true)
    (hne : digits ≠ []) {n : Nat} (hread : natOfDigits digits = .ok n) (negative : Bool) :
    isTooLong (signed negative n) = false := by
  rw [natOfDigits] at hread
  split at hread
  · cases hread
  · rename_i hshort
    obtain rfl := Except.ok.inj hread
    have hlt := ofDigitChars_lt h 0
    rw [Nat.zero_add, Nat.one_mul] at hlt
    have hlength := (Nat.length_toDigits_le_iff (by decide) (List.length_pos_iff.mpr hne)).mpr hlt
    have habs : (signed negative (Nat.ofDigitChars 10 digits 0)).natAbs =
        Nat.ofDigitChars 10 digits 0 := by
      cases negative <;> simp [signed]
    rw [isTooLong, habs, decide_eq_false_iff_not]
    omega

theorem isDigit_of_mem_wholePart {cs : List Char} : ∀ c ∈ (wholePart cs).1, c.isDigit = true := by
  intro c hc
  unfold wholePart at hc
  split at hc
  · rw [List.mem_singleton.mp hc]
    rfl
  · exact List.all_eq_true.mp List.all_takeWhile c hc

/-- What is read as a number is a legible scalar: a number not too long, or a float. -/
theorem legible_of_readNumber {cs rest : List Char} {d : Data}
    (h : readNumber cs = .ok (d, rest)) : ∃ s, d = .scalar s ∧ IsLegible s := by
  unfold readNumber at h
  split at h
  rename_i negative body _
  dsimp only at h
  by_cases hempty : (wholePart body).1.isEmpty = true
  · rw [if_pos hempty] at h
    cases h
  rw [if_neg hempty] at h
  split at h
  · split at h
    · rename_i n hread
      obtain ⟨rfl, _⟩ := Prod.mk.inj (Except.ok.inj h)
      exact ⟨_, rfl, isTooLong_of_natOfDigits isDigit_of_mem_wholePart (by simpa using hempty)
        hread _⟩
    · cases h
  · obtain ⟨rfl, _⟩ := Prod.mk.inj (Except.ok.inj h)
    exact ⟨_, rfl, trivial⟩

/-- What is read as a word or a number is a legible scalar. -/
theorem legible_of_readPlain {cs rest : List Char} {d : Data} (h : readPlain cs = .ok (d, rest)) :
    ∃ s, d = .scalar s ∧ IsLegible s := by
  unfold readPlain at h
  split at h
  · rename_i word value hword
    obtain ⟨rfl, _⟩ := Prod.mk.inj (Except.ok.inj h)
    have hwords : ∀ w ∈ words, ∃ s, w.2 = .scalar s ∧ IsLegible s := by
      intro w hw
      simp only [words, List.mem_cons, List.not_mem_nil, or_false] at hw
      rcases hw with rfl | rfl | rfl | rfl | rfl | rfl <;> exact ⟨_, rfl, trivial⟩
    exact hwords _ (List.mem_of_find?_eq_some hword)
  · exact legible_of_readNumber h

/-! ### Mappings -/

/-- A key is set in place, or goes to the end. Either way keys stay different, and values keep the
    property. -/
theorem exists_setPair {holds : Data → Prop} (key : String) {value : Data} (hvalue : holds value)
    {members : List (String × Data)} (hkeys : (members.map Prod.fst).Nodup)
    (h : ∀ e ∈ members, holds e.2) :
    ∃ members', setPair (.text key) value (pairsOf members) = pairsOf members' ∧
      (members'.map Prod.fst).Nodup ∧ (∀ e ∈ members', holds e.2) ∧
      ∀ e ∈ members', e.1 = key ∨ e.1 ∈ members.map Prod.fst := by
  induction members with
  | nil => exact ⟨[(key, value)], rfl, by simp, by simpa using hvalue, by simp⟩
  | cons e members ih =>
    rw [List.map_cons, List.nodup_cons] at hkeys
    rw [List.forall_mem_cons] at h
    rw [pairsOf_cons, setPair, Scalar.sameKey_text]
    by_cases he : e.1 = key
    · refine ⟨(e.1, value) :: members, by simp [he], ?_, ?_, ?_⟩
      · rw [List.map_cons, List.nodup_cons]
        exact hkeys
      · exact List.forall_mem_cons.mpr ⟨hvalue, h.2⟩
      · intro x hx
        rcases List.mem_cons.mp hx with rfl | hx
        · exact .inl he
        · exact .inr (List.mem_cons_of_mem _ (List.mem_map_of_mem hx))
    · obtain ⟨members', heq, hnodup, hholds, hfrom⟩ := ih hkeys.2 h.2
      refine ⟨e :: members', by simp [he, heq], ?_, List.forall_mem_cons.mpr ⟨h.1, hholds⟩, ?_⟩
      · rw [List.map_cons, List.nodup_cons]
        refine ⟨fun hmem => ?_, hnodup⟩
        -- The key of the first member is neither the new key nor one of the others.
        obtain ⟨x, hx, hxe⟩ := List.mem_map.mp hmem
        rcases hfrom x hx with hkey | hold
        · exact he (hxe.symm.trans hkey)
        · exact hkeys.1 (hxe ▸ hold)
      · intro x hx
        rcases List.mem_cons.mp hx with rfl | hx
        · exact .inr (List.mem_cons_self ..)
        · exact (hfrom x hx).imp id (List.mem_cons_of_mem _)

/-- Pairs with texts as keys make a mapping in which no key comes twice. The property of the values
    is left open, as it is used for being a document. -/
theorem exists_ofPairs {holds : Data → Prop} {members : List (String × Data)}
    (h : ∀ e ∈ members, holds e.2) :
    ∃ members', Data.ofPairs (pairsOf members) = mapOf members' ∧
      (members'.map Prod.fst).Nodup ∧ ∀ e ∈ members', holds e.2 := by
  have hfold : ∀ before : List (String × Data), (before.map Prod.fst).Nodup →
      (∀ e ∈ before, holds e.2) →
      ∃ members', (pairsOf members).foldl (fun entries e => setPair e.1 e.2 entries)
          (pairsOf before) = pairsOf members' ∧
        (members'.map Prod.fst).Nodup ∧ ∀ e ∈ members', holds e.2 := by
    -- Pair by pair, the keys of `before` stay different and its values hold.
    induction members with
    | nil => exact fun before hkeys hbefore => ⟨before, rfl, hkeys, hbefore⟩
    | cons e members ih =>
      intro before hkeys hbefore
      rw [List.forall_mem_cons] at h
      obtain ⟨next, heq, hnodup, hnext, _⟩ := exists_setPair e.1 h.1 hkeys hbefore
      rw [pairsOf_cons, List.foldl_cons, heq]
      exact ih h.2 next hnodup hnext
  obtain ⟨members', heq, hnodup, hholds⟩ := hfold [] List.nodup_nil nofun
  exact ⟨members', congrArg Data.map heq, hnodup, hholds⟩

/-! ### Documents -/

/-- What is read with some fuel: values, items and members. -/
structure ReadsDocuments (fuel : Nat) : Prop where
  value {cs rest : List Char} {d : Data} (h : readValue fuel cs = .ok (d, rest)) :
    IsDocument IsLegible d
  items {cs rest : List Char} {ds : List Data} (h : readItems fuel cs = .ok (ds, rest)) :
    ∀ d ∈ ds, IsDocument IsLegible d
  members {cs rest : List Char} {pairs : List (Scalar × Data)}
    (h : readMembers fuel cs = .ok (pairs, rest)) :
    ∃ members, pairs = pairsOf members ∧ ∀ e ∈ members, IsDocument IsLegible e.2

/-- With any fuel, values, items and members that are read are documents. The three readers call
    each other, so they are proved together, by induction on the fuel. -/
theorem readsDocuments (fuel : Nat) : ReadsDocuments fuel := by
  -- Values, items and members are read by mutual recursion, each with one step of fuel less.
  induction fuel with
  | zero =>
    constructor
    · intro cs rest d h
      cases h
    · intro cs rest ds h
      cases h
    · intro cs rest pairs h
      cases h
  | succ fuel ih =>
    refine ⟨fun {cs rest d} h => ?_, fun {cs rest ds} h => ?_, fun {cs rest pairs} h => ?_⟩
    · unfold readValue at h
      split at h
      · obtain ⟨⟨s, _⟩, _, h⟩ := bind_ok_iff.mp h
        obtain ⟨rfl, _⟩ := Prod.mk.inj (Except.ok.inj h)
        exact .scalar trivial
      · split at h
        · obtain ⟨rfl, _⟩ := Prod.mk.inj (Except.ok.inj h)
          have hnil : (([] : List (String × Data)).map Prod.fst).Nodup := List.nodup_nil
          exact .map hnil (List.forall_mem_nil _)
        · obtain ⟨⟨pairs, _⟩, hpairs, h⟩ := bind_ok_iff.mp h
          obtain ⟨rfl, _⟩ := Prod.mk.inj (Except.ok.inj h)
          obtain ⟨members, rfl, hmembers⟩ := ih.members hpairs
          obtain ⟨members', heq, hkeys, hdoc⟩ := exists_ofPairs hmembers
          rw [heq]
          exact .map hkeys hdoc
      · split at h
        · obtain ⟨rfl, _⟩ := Prod.mk.inj (Except.ok.inj h)
          exact .list (List.forall_mem_nil _)
        · obtain ⟨⟨items, _⟩, hitems, h⟩ := bind_ok_iff.mp h
          obtain ⟨rfl, _⟩ := Prod.mk.inj (Except.ok.inj h)
          exact .list (ih.items hitems)
      · obtain ⟨s, rfl, hs⟩ := legible_of_readPlain h
        exact .scalar hs
    · unfold readItems at h
      obtain ⟨⟨item, more⟩, hitem, h⟩ := bind_ok_iff.mp h
      have hfirst := ih.value hitem
      dsimp only at h
      split at h
      · obtain ⟨rfl, _⟩ := Prod.mk.inj (Except.ok.inj h)
        exact List.forall_mem_singleton.mpr hfirst
      · obtain ⟨⟨items, _⟩, hitems, h⟩ := bind_ok_iff.mp h
        obtain ⟨rfl, _⟩ := Prod.mk.inj (Except.ok.inj h)
        exact List.forall_mem_cons.mpr ⟨hfirst, ih.items hitems⟩
      · cases h
    · unfold readMembers at h
      split at h
      · obtain ⟨⟨key, more⟩, _, h⟩ := bind_ok_iff.mp h
        dsimp only at h
        split at h
        · obtain ⟨⟨value, more⟩, hvalue, h⟩ := bind_ok_iff.mp h
          have hfirst := ih.value hvalue
          dsimp only at h
          split at h
          · obtain ⟨rfl, _⟩ := Prod.mk.inj (Except.ok.inj h)
            exact ⟨[(String.ofList key, value)], rfl, List.forall_mem_singleton.mpr hfirst⟩
          · obtain ⟨⟨entries, _⟩, hentries, h⟩ := bind_ok_iff.mp h
            obtain ⟨rfl, _⟩ := Prod.mk.inj (Except.ok.inj h)
            obtain ⟨members, rfl, hmembers⟩ := ih.members hentries
            exact ⟨(String.ofList key, value) :: members, rfl,
              List.forall_mem_cons.mpr ⟨hfirst, hmembers⟩⟩
          · cases h
        · cases h
      · cases h

/-- Whatever is read is a document of legible scalars. A key is a text, no key comes twice in a
    mapping, and no number is too long to be written again. -/
theorem isDocument_of_parse {text : String} {d : Data} (h : parse text = .ok d) :
    IsDocument IsLegible d := by
  rw [parse, parseChars, mapError_ok_iff] at h
  unfold readDocument at h
  split at h
  · cases h
  · obtain ⟨⟨value, rest⟩, hvalue, h⟩ := bind_ok_iff.mp h
    dsimp only at h
    split at h
    · obtain rfl := Except.ok.inj h
      exact (readsDocuments _).value hvalue
    · cases h

end Backlog.Json
