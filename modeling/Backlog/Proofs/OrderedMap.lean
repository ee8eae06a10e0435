import Backlog.OrderedMap
import Mathlib.Data.List.Nodup
import Mathlib.Data.List.Perm.Subperm

namespace Backlog

/-!
# Looking up in ordered maps

The entries of an `OrderedMap` are its only state, and no key occurs twice in them. This file ties
the other views to them:

* `lookup_eq_some_iff` — a look-up finds exactly the entries;
* `contains_iff` — the test for a key finds exactly the keys;
* `entries_insert_of_new` — a new key goes to the end;
* `lookup_insert` — what an insertion changes for a later look-up;
* `entries_ofList` — pairs with different keys are the entries of their map;
* `agree_iff`, `sameEntries_iff_perm` — what it means that two maps hold the same in any order.
-/

/-! ### Inserting into a list of pairs -/

/-- A key that no pair has is appended. The recursion passes all pairs without a match and comes to
    the end. -/
theorem insertEntry_of_new {κ ν : Type} [DecidableEq κ] {key : κ} {entries : List (κ × ν)}
    (h : key ∉ entries.map Prod.fst) (value : ν) :
    insertEntry key value entries = entries ++ [(key, value)] := by
  induction entries with
  | nil => rfl
  | cons e rest ih =>
    simp only [List.map_cons, List.mem_cons, not_or] at h
    rw [insertEntry, if_neg (fun he => h.1 he.symm), ih h.2, List.cons_append]

/-- The pairs after an insertion: the one that was put in, and those with another key. Without the
    hypothesis a second pair with the same key would stay, with its old value. -/
theorem mem_insertEntry {κ ν : Type} [DecidableEq κ] {key : κ} {value : ν} {e : κ × ν}
    {entries : List (κ × ν)} (hnd : (entries.map Prod.fst).Nodup) :
    e ∈ insertEntry key value entries ↔ e = (key, value) ∨ (e.1 ≠ key ∧ e ∈ entries) := by
  induction entries with
  | nil => simp [insertEntry]
  | cons d rest ih =>
    rw [List.map_cons, List.nodup_cons] at hnd
    by_cases hd : d.1 = key
    · -- no other pair of the rest has the key that is replaced
      have hrest : ∀ x ∈ rest, x.1 ≠ key := by
        intro x hx hxk
        exact hnd.1 (List.mem_map.mpr ⟨x, hx, hxk.trans hd.symm⟩)
      rw [insertEntry, if_pos hd, List.mem_cons, List.mem_cons]
      constructor
      · rintro (rfl | hmem)
        · exact .inl rfl
        · exact .inr ⟨hrest e hmem, .inr hmem⟩
      · rintro (rfl | ⟨hne, rfl | hmem⟩)
        · exact .inl rfl
        · exact absurd hd hne
        · exact .inr hmem
    · rw [insertEntry, if_neg hd, List.mem_cons, ih hnd.2, List.mem_cons]
      constructor
      · rintro (rfl | rfl | ⟨hne, hmem⟩)
        · exact .inr ⟨hd, .inl rfl⟩
        · exact .inl rfl
        · exact .inr ⟨hne, .inr hmem⟩
      · rintro (rfl | ⟨hne, rfl | hmem⟩)
        · exact .inr (.inl rfl)
        · exact .inl rfl
        · exact .inr (.inr ⟨hne, hmem⟩)

namespace OrderedMap

variable {κ ν : Type}

/-! ### Entries, keys and look-ups -/

theorem mem_keys {m : OrderedMap κ ν} {key : κ} :
    key ∈ m.keys ↔ ∃ value, (key, value) ∈ m.entries := by
  simp [keys]

theorem length_keys (m : OrderedMap κ ν) : m.keys.length = m.size := by
  rw [keys, List.length_map, size]

/-- A key has at most one value. The keys are pairwise different, which is part of what a map is. -/
theorem value_unique {m : OrderedMap κ ν} {key : κ} {v w : ν} (hv : (key, v) ∈ m.entries)
    (hw : (key, w) ∈ m.entries) : v = w := by
  have h := List.inj_on_of_nodup_map m.nodup_keys hv hw rfl
  exact (Prod.mk.inj h).2

variable [DecidableEq κ]

/-- A look-up finds exactly the entries. As keys differ, the first entry with the key is also the
    only one. -/
theorem lookup_eq_some_iff {m : OrderedMap κ ν} {key : κ} {value : ν} :
    m.lookup key = some value ↔ (key, value) ∈ m.entries := by
  constructor
  · intro h
    obtain ⟨e, he, rfl⟩ := Option.map_eq_some_iff.mp h
    have hkey : e.1 = key := by simpa using List.find?_some he
    exact hkey ▸ List.mem_of_find?_eq_some he
  · intro h
    cases hf : m.entries.find? (fun e => e.1 = key) with
    | none => simpa using List.find?_eq_none.mp hf _ h
    | some e =>
      have hkey : e.1 = key := by simpa using List.find?_some hf
      have hmem : (key, e.2) ∈ m.entries := hkey ▸ List.mem_of_find?_eq_some hf
      rw [lookup, hf, Option.map_some, value_unique hmem h]

/-- A look-up finds nothing exactly for a key that the map does not have. -/
theorem lookup_eq_none_iff {m : OrderedMap κ ν} {key : κ} :
    m.lookup key = none ↔ key ∉ m.keys := by
  rw [Option.eq_none_iff_forall_not_mem, mem_keys, not_exists]
  exact forall_congr' fun v => not_congr lookup_eq_some_iff

theorem contains_iff {m : OrderedMap κ ν} {key : κ} : m.contains key ↔ key ∈ m.keys := by
  simp [contains, keys]

/-! ### Insertion -/

/-- A new key goes to the end. The entries before it stay as they are, in their order. -/
theorem entries_insert_of_new {m : OrderedMap κ ν} {key : κ} (h : key ∉ m.keys) (value : ν) :
    (m.insert key value).entries = m.entries ++ [(key, value)] :=
  insertEntry_of_new h value

/-- An insertion leaves the keys in their places; a new one goes to the end. So the keys stand in
    the order of their first insertion, whatever their values are set to later. -/
theorem keys_insert (m : OrderedMap κ ν) (key : κ) (value : ν) :
    (m.insert key value).keys = if key ∈ m.keys then m.keys else m.keys ++ [key] :=
  map_fst_insertEntry key value m.entries

/-- The entries after an insertion: the new one, and the old ones with another key. -/
theorem mem_insert {m : OrderedMap κ ν} {key : κ} {value : ν} {e : κ × ν} :
    e ∈ (m.insert key value).entries ↔ e = (key, value) ∨ (e.1 ≠ key ∧ e ∈ m.entries) :=
  mem_insertEntry m.nodup_keys

/-- An insertion sets the value of its key and leaves the other keys alone. Together with `ext` this
    says all about an insertion but the order. -/
theorem lookup_insert (m : OrderedMap κ ν) (key other : κ) (value : ν) :
    (m.insert key value).lookup other = if other = key then some value else m.lookup other := by
  ext v
  rw [lookup_eq_some_iff, mem_insert]
  by_cases h : other = key
  · simp [h, eq_comm]
  · simp [h, lookup_eq_some_iff]

/-- Inserting pairs with new and different keys appends them. The hypothesis speaks of both lists of
    keys at once, so that it is kept along the fold. -/
theorem entries_foldl_insert {pairs : List (κ × ν)} {m : OrderedMap κ ν}
    (h : (m.keys ++ pairs.map Prod.fst).Nodup) :
    (pairs.foldl (fun m e => m.insert e.1 e.2) m).entries = m.entries ++ pairs := by
  induction pairs generalizing m with
  | nil => simp
  | cons e rest ih =>
    rw [List.map_cons, List.nodup_append, List.nodup_cons] at h
    obtain ⟨hm, ⟨hrest, hnd⟩, hdisjoint⟩ := h
    have hnew : e.1 ∉ m.keys := fun he => hdisjoint _ he _ (List.mem_cons_self ..) rfl
    have hentries : (m.insert e.1 e.2).entries = m.entries ++ [e] := entries_insert_of_new hnew e.2
    have hkeys : (m.insert e.1 e.2).keys = m.keys ++ [e.1] := by
      rw [keys, hentries, List.map_append, List.map_singleton, keys]
    rw [List.foldl_cons, ih, hentries, List.append_assoc, List.singleton_append]
    rw [hkeys, List.append_assoc, List.singleton_append, List.nodup_append, List.nodup_cons]
    exact ⟨hm, ⟨hrest, hnd⟩, hdisjoint⟩

/-- Pairs with different keys are the entries of their map. A map can thus be given by its entries
    wherever the keys are known to differ. -/
theorem entries_ofList {pairs : List (κ × ν)} (h : (pairs.map Prod.fst).Nodup) :
    (ofList pairs).entries = pairs := by
  rw [ofList, entries_foldl_insert (by simpa [keys] using h), entries_empty, List.nil_append]

/-- Inserting pairs adds none but these. A key that comes twice may lose a value, but no value comes
    from elsewhere. -/
theorem mem_foldl_insert {pairs : List (κ × ν)} {m : OrderedMap κ ν} {e : κ × ν}
    (h : e ∈ (pairs.foldl (fun m e => m.insert e.1 e.2) m).entries) :
    e ∈ m.entries ∨ e ∈ pairs := by
  induction pairs generalizing m with
  | nil => exact .inl h
  | cons d rest ih =>
    rcases ih h with hmem | hmem
    · rcases mem_insert.mp hmem with rfl | ⟨_, hold⟩
      · exact .inr (List.mem_cons_self ..)
      · exact .inl hold
    · exact .inr (List.mem_cons_of_mem _ hmem)

/-- A map holds only pairs that it was made from. The other direction fails for a pair whose key
    comes again later. -/
theorem mem_of_mem_ofList {pairs : List (κ × ν)} {e : κ × ν} (h : e ∈ (ofList pairs).entries) :
    e ∈ pairs :=
  (mem_foldl_insert h).resolve_left List.not_mem_nil

/-- A look-up after the values have been changed. The value may be changed before it is looked up or
    afterwards. -/
theorem lookup_map {μ : Type} (m : OrderedMap κ ν) (f : κ → ν → μ) (key : κ) :
    (m.map f).lookup key = (m.lookup key).map (f key) := by
  ext v
  rw [lookup_eq_some_iff, Option.map_eq_some_iff, entries_map, List.mem_map]
  constructor
  · rintro ⟨⟨k, w⟩, hmem, heq⟩
    obtain ⟨rfl, rfl⟩ := Prod.mk.inj heq
    exact ⟨w, lookup_eq_some_iff.mpr hmem, rfl⟩
  · rintro ⟨w, hw, rfl⟩
    exact ⟨(key, w), lookup_eq_some_iff.mp hw, rfl⟩

/-! ### The same entries in another order -/

/-- Maps that agree have the same keys, and under each of them values that are accepted. The order
    of the entries does not matter, though it is part of both maps. -/
theorem agree_iff {same : ν → ν → Bool} {a b : OrderedMap κ ν} :
    a.agree same b ↔
      a.keys.Perm b.keys ∧
        ∀ key v w, (key, v) ∈ a.entries → (key, w) ∈ b.entries → same v w := by
  simp only [agree, Bool.and_eq_true, decide_eq_true_eq, List.all_eq_true, Option.any_eq_true,
    lookup_eq_some_iff]
  constructor
  · rintro ⟨hsize, hall⟩
    have hsub : a.keys ⊆ b.keys := by
      intro key hkey
      obtain ⟨v, hv⟩ := mem_keys.mp hkey
      obtain ⟨w, hw, _⟩ := hall _ hv
      exact mem_keys.mpr ⟨w, hw⟩
    refine ⟨?_, fun key v w hv hw => ?_⟩
    · -- as many keys, all of them among the others, are the same keys
      have hlength : b.keys.length ≤ a.keys.length := by
        rw [length_keys, length_keys]
        exact Nat.le_of_eq hsize.symm
      exact (List.Nodup.subperm a.nodup_keys hsub).perm_of_length_le hlength
    · obtain ⟨w', hw', hsame⟩ := hall _ hv
      rwa [value_unique hw hw']
  · rintro ⟨hperm, hall⟩
    refine ⟨?_, fun e he => ?_⟩
    · rw [← length_keys, ← length_keys, hperm.length_eq]
    · have hkey : e.1 ∈ b.keys := hperm.subset (mem_keys.mpr ⟨e.2, he⟩)
      obtain ⟨w, hw⟩ := mem_keys.mp hkey
      exact ⟨w, hw, hall e.1 e.2 w he hw⟩

/-- Two maps hold the same entries exactly if one has those of the other in some order. The keys
    differ, so that a permutation is as much as having the same entries. -/
theorem sameEntries_iff_perm [DecidableEq ν] {a b : OrderedMap κ ν} :
    a.sameEntries b ↔ a.entries.Perm b.entries := by
  rw [sameEntries, agree_iff]
  have hnodup : ∀ m : OrderedMap κ ν, m.entries.Nodup := fun m => m.nodup_keys.of_map
  constructor
  · rintro ⟨hperm, hsame⟩
    rw [List.perm_ext_iff_of_nodup (hnodup a) (hnodup b)]
    intro e
    constructor
    · intro he
      obtain ⟨w, hw⟩ := mem_keys.mp (hperm.subset (mem_keys.mpr ⟨e.2, he⟩))
      have hvalue := hsame e.1 e.2 w he hw
      rw [decide_eq_true_eq] at hvalue
      rwa [← hvalue] at hw
    · intro he
      obtain ⟨v, hv⟩ := mem_keys.mp (hperm.symm.subset (mem_keys.mpr ⟨e.2, he⟩))
      have hvalue := hsame e.1 v e.2 hv he
      rw [decide_eq_true_eq] at hvalue
      rwa [hvalue] at hv
  · intro hperm
    refine ⟨hperm.map _, fun key v w hv hw => ?_⟩
    rw [decide_eq_true_eq]
    exact value_unique (hperm.subset hv) hw

end OrderedMap

end Backlog
