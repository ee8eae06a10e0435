import Backlog.Cache.Key
import Backlog.Proofs.Json.RoundTrip

namespace Backlog

open Backlog.Number Backlog.Text

/-!
# What the text of a key tells

A key is hashed as a text. The text is a document in JSON, with the members in a fixed order and the
lists sorted, so that keys which differ in the order of their lists have the same text. That no
others do is shown by reading the text back: the document is what the parser makes of it, and from
it the members of the key can be told.

* `GraphKey.sortMembers_toData` — the document of a key, its members in order;
* `GraphKey.isLike_of_canonicalText`, `IsLike.canonicalText_eq` — keys with the same text have the
  same mode, limit and root, and the same entry points and globs up to their order, and conversely;
* `GraphKey.digest_ok_iff` — a key is refused for the digits of its limit, and otherwise the hash is
  that of its text;
* `GraphKey.hashed_texts_eq_iff` — two keys hash the same text exactly if they are alike.
-/

namespace Json

theorem entryLe_text (s t : String) (x y : Data) :
    entryLe (.text s, x) (.text t, y) = !decide (t < s) := by
  by_cases h : t < s <;> simp [entryLe, keyLess?, h]

/-- How five entries are merged. A key has five members, and sorting them is unfolded here and
    nowhere else. -/
theorem mergeSort_five {α : Type} (le : α → α → Bool) (a b c d e : α) :
    [a, b, c, d, e].mergeSort le =
      (([a].merge [b] le).merge [c] le).merge ([d].merge [e] le) le := by
  simp [List.mergeSort, List.MergeSort.Internal.splitInTwo]

/-- Lists are left in their order: only members are sorted. -/
theorem sortItems_texts (texts : List String) :
    sortItems (texts.map Data.text) = texts.map Data.text := by
  induction texts with
  | nil => rfl
  | cons text texts ih =>
    rw [List.map_cons, sortItems, ih]
    rfl

/-- The style in which keys are written can be read. -/
theorem isReadable_dense : Style.dense.IsReadable := ⟨[], rfl, nofun⟩

end Json

namespace GraphKey

/-- A limit as a document holds it. -/
def limitMember : Option Int → Data
  | none => .null
  | some n => .int n

/-- The members of a key's document in order. -/
def sortedMembers (key : GraphKey) : List (String × Data) :=
  [("entryPoints", .list ((sortedTexts key.entryPoints).map Data.text)),
    ("exclude", .list ((sortedTexts key.exclude).map Data.text)),
    ("maxDepth", limitMember key.maxDepth), ("mode", .text key.mode.name),
    ("rootDirectory", .text key.root)]

/-- The document of a key, its members in order. So the text of a key is that of its sorted
    members. -/
theorem sortMembers_toData (key : GraphKey) :
    Json.sortMembers key.toData = Json.mapOf key.sortedMembers := by
  have horder : decide ("entryPoints" < "mode") = true ∧ decide ("maxDepth" < "mode") = true ∧
      decide ("maxDepth" < "entryPoints") = false ∧ decide ("exclude" < "rootDirectory") = true ∧
      decide ("exclude" < "entryPoints") = false ∧ decide ("exclude" < "maxDepth") = true ∧
      decide ("rootDirectory" < "maxDepth") = false ∧
      decide ("rootDirectory" < "mode") = false := by decide
  simp only [toData, Json.sortMembers, Json.sortValues, Json.sortItems_texts, Json.sortEntries,
    Json.mergeSort_five, List.merge, Json.entryLe_text, horder, Bool.not_true, Bool.not_false,
    if_true, Bool.false_eq_true, if_false]
  rw [sortedMembers]
  cases key.maxDepth <;> rfl

/-- A key is a document that is read back exactly, if its limit can be written down. -/
theorem isDocument_sortedMembers {key : GraphKey}
    (hshort : ∀ n ∈ key.maxDepth, isTooLong n = false) :
    Json.IsDocument Json.IsExact (Json.mapOf key.sortedMembers) := by
  refine .map (by simp [sortedMembers]) fun e he => ?_
  simp only [sortedMembers, List.mem_cons, List.not_mem_nil, or_false] at he
  rcases he with rfl | rfl | rfl | rfl | rfl
  · exact Json.isDocument_texts _
  · exact Json.isDocument_texts _
  · cases hlimit : key.maxDepth with
    | none => exact .scalar trivial
    | some n => exact .scalar (hshort n hlimit)
  · exact .scalar trivial
  · exact .scalar trivial

/-- Keys that differ in nothing but the order of their lists. -/
structure IsLike (key other : GraphKey) : Prop where
  mode : key.mode = other.mode
  maxDepth : key.maxDepth = other.maxDepth
  root : key.root = other.root
  entryPoints : key.entryPoints.Perm other.entryPoints
  exclude : key.exclude.Perm other.exclude

/-- Lists that are the same when sorted are the same in some order. -/
theorem perm_of_sortedTexts {texts texts' : List String}
    (h : (sortedTexts texts).map Data.text = (sortedTexts texts').map Data.text) :
    texts.Perm texts' := by
  have hsorted : sortedTexts texts = sortedTexts texts' :=
    List.map_inj_right (fun _ _ heq => Scalar.text.inj (Data.scalar.inj heq)) |>.mp h
  have hperm : (sortedTexts texts).Perm texts := List.mergeSort_perm _ _
  rw [hsorted] at hperm
  exact hperm.symm.trans (List.mergeSort_perm _ _)

theorem pairwise_sortedTexts (texts : List String) : (sortedTexts texts).Pairwise (· ≤ ·) := by
  have hle : (fun a b : String => !decide (b < a)) = fun a b => decide (a ≤ b) := by
    funext a b
    simp [← String.not_lt]
  have hsorted := @List.pairwise_mergeSort String (fun a b => decide (a ≤ b))
    (fun a b c hab hbc => decide_eq_true (String.le_trans (of_decide_eq_true hab)
      (of_decide_eq_true hbc)))
    (fun a b => by simpa using String.le_total a b) texts
  rw [sortedTexts, hle]
  exact hsorted.imp of_decide_eq_true

/-- Lists that are the same in some order are the same when sorted. -/
theorem sortedTexts_eq_of_perm {texts texts' : List String} (h : texts.Perm texts') :
    sortedTexts texts = sortedTexts texts' :=
  List.Perm.eq_of_pairwise (fun _ _ _ _ => String.le_antisymm) (pairwise_sortedTexts texts)
    (pairwise_sortedTexts texts')
    ((List.mergeSort_perm _ _).trans (h.trans (List.mergeSort_perm _ _).symm))

/-- The order of the lists of a key does not show in its text. For the lists are sorted before they
    are written. -/
theorem IsLike.canonicalText_eq {key other : GraphKey} (h : key.IsLike other) :
    key.canonicalText = other.canonicalText := by
  rw [canonicalText, canonicalText, toData, toData, h.mode, h.maxDepth, h.root,
    sortedTexts_eq_of_perm h.entryPoints, sortedTexts_eq_of_perm h.exclude]

/-- Keys with the same sorted members are alike, member by member. -/
theorem isLike_of_sortedMembers {key other : GraphKey}
    (h : Json.mapOf key.sortedMembers = Json.mapOf other.sortedMembers) : key.IsLike other := by
  simp only [Json.mapOf, sortedMembers, Json.pairsOf_cons, Json.pairsOf_nil, Data.map.injEq,
    List.cons.injEq, Prod.mk.injEq, Data.list.injEq, true_and, and_true] at h
  obtain ⟨hentries, hexclude, hlimit, hmode, hroot⟩ := h
  refine ⟨?_, ?_, Scalar.text.inj (Data.scalar.inj hroot), perm_of_sortedTexts hentries,
    perm_of_sortedTexts hexclude⟩
  · have hname := Scalar.text.inj (Data.scalar.inj hmode)
    revert hname
    cases key.mode <;> cases other.mode <;> decide
  · revert hlimit
    cases key.maxDepth <;> cases other.maxDepth <;> simp [limitMember]

/-- Keys with the same text differ in nothing but the order of their lists. The text is read back,
    and gives the members. -/
theorem isLike_of_canonicalText {key other : GraphKey}
    (hkey : ∀ n ∈ key.maxDepth, isTooLong n = false)
    (hother : ∀ n ∈ other.maxDepth, isTooLong n = false)
    (h : key.canonicalText = other.canonicalText) : key.IsLike other := by
  -- The text is read as the document.
  have hread : ∀ k : GraphKey, (∀ n ∈ k.maxDepth, isTooLong n = false) →
      Json.parseChars (k.canonicalText.toList ++ []) = .ok (Json.mapOf k.sortedMembers) := by
    intro k hk
    rw [canonicalText, Json.canonical, sortMembers_toData, Json.writeText, String.toList_ofList]
    exact Json.parseChars_write Json.isReadable_dense
      ((isDocument_sortedMembers hk).mono fun s hs => hs.readsBack _) nofun
  have hsame := hread key hkey
  rw [h, hread other hother] at hsame
  exact isLike_of_sortedMembers (Except.ok.inj hsame).symm

/-! ### What is hashed -/

/-- Nothing keeps a list of texts from being written down. -/
theorem itemsObstacle?_texts (sorting : Bool) (texts : List String) :
    Json.itemsObstacle? sorting (texts.map Data.text) = none := by
  induction texts with
  | nil => rfl
  | cons text texts ih =>
    rw [List.map_cons, Json.itemsObstacle?, ih]
    rfl

/-- A key has a hash unless its limit has too many digits. The limit is the only number in a key. -/
theorem digest_ok_iff {key : GraphKey} {hash : String} :
    key.digest = .ok hash ↔
      (∀ n ∈ key.maxDepth, isTooLong n = false) ∧ hash = Digest.sha256Hex key.canonicalText := by
  have hordered : Json.unorderedPair? [.text "mode", .text "entryPoints", .text "maxDepth",
      .text "rootDirectory", .text "exclude"] = none := by decide
  have hobstacle : Json.obstacle? true key.toData =
      if ∀ n ∈ key.maxDepth, isTooLong n = false then none else some .tooLong := by
    rw [toData, Json.obstacle?]
    -- Texts can always be written, which leaves the limit.
    simp only [List.map_cons, List.map_nil, hordered, if_true, Json.entriesObstacle?,
      Json.obstacle?, itemsObstacle?_texts, Json.scalarObstacle?, Option.none_or, Option.or_none]
    cases key.maxDepth with
    | none => simp [Json.obstacle?, Json.scalarObstacle?]
    | some n => cases h : isTooLong n <;> simp [Json.obstacle?, Json.scalarObstacle?, h]
  rw [digest, hobstacle]
  by_cases h : ∀ n ∈ key.maxDepth, isTooLong n = false
  · rw [if_pos h, Except.ok.injEq, eq_comm, and_iff_right h]
  · rw [if_neg h]
    constructor
    · intro herror
      cases herror
    · exact fun hshort => absurd hshort.1 h

/-- Keys whose limits can be written down hash their texts, and two of them hash the same text if and
    only if they have the same mode, limit and root, and the same entry points and globs in some
    order. -/
theorem hashed_texts_eq_iff {key other : GraphKey}
    (hkey : ∀ n ∈ key.maxDepth, isTooLong n = false)
    (hother : ∀ n ∈ other.maxDepth, isTooLong n = false) :
    key.digest = .ok (Digest.sha256Hex key.canonicalText) ∧
      other.digest = .ok (Digest.sha256Hex other.canonicalText) ∧
      (key.canonicalText = other.canonicalText ↔
        key.mode = other.mode ∧ key.maxDepth = other.maxDepth ∧ key.root = other.root ∧
          key.entryPoints.Perm other.entryPoints ∧ key.exclude.Perm other.exclude) := by
  refine ⟨digest_ok_iff.mpr ⟨hkey, rfl⟩, digest_ok_iff.mpr ⟨hother, rfl⟩, ?_⟩
  constructor
  · intro htext
    have hlike := isLike_of_canonicalText hkey hother htext
    exact ⟨hlike.mode, hlike.maxDepth, hlike.root, hlike.entryPoints, hlike.exclude⟩
  · rintro ⟨hmode, hdepth, hroot, hentries, hexclude⟩
    exact IsLike.canonicalText_eq ⟨hmode, hdepth, hroot, hentries, hexclude⟩

/-- Two entry points in either order, and one whose name spells the end of a text and the start of
    another. -/
def pairKey : GraphKey := ⟨.connected, ["b", "a"], some 3, "/p", ["*.ts"]⟩

def swappedKey : GraphKey := ⟨.connected, ["a", "b"], some 3, "/p", ["*.ts"]⟩

def quotedKey : GraphKey := ⟨.connected, ["a\",\"b"], some 3, "/p", ["*.ts"]⟩

/-- The order of two names does not show, but quotes and commas in a name do not make it two. -/
theorem hashed_texts_pairKey :
    (∀ n ∈ pairKey.maxDepth, isTooLong n = false) ∧
      (∀ n ∈ swappedKey.maxDepth, isTooLong n = false) ∧
      (∀ n ∈ quotedKey.maxDepth, isTooLong n = false) ∧
      pairKey.canonicalText = swappedKey.canonicalText ∧
      pairKey.canonicalText ≠ quotedKey.canonicalText := by
  have hpair : ∀ n ∈ pairKey.maxDepth, isTooLong n = false := by decide
  have hswapped : ∀ n ∈ swappedKey.maxDepth, isTooLong n = false := by decide
  have hquoted : ∀ n ∈ quotedKey.maxDepth, isTooLong n = false := by decide
  refine ⟨hpair, hswapped, hquoted, ?_, fun htext => ?_⟩
  · exact (hashed_texts_eq_iff hpair hswapped).2.2.mpr ⟨rfl, rfl, rfl, .swap _ _ _, .refl _⟩
  · have halike := (hashed_texts_eq_iff hpair hquoted).2.2.mp htext
    exact absurd halike.2.2.2.1.length_eq (by decide)

end GraphKey

end Backlog
