namespace Backlog

/-!
# Ordered maps

A finite map that keeps its keys in the order in which they were first inserted, as the list of
its entries together with the fact that no key occurs twice.

* `OrderedMap.insert` — replaces in place, or appends;
* `OrderedMap.ofList` — inserts from left to right, so that the last value of a key wins and its
  first position is kept;
* `OrderedMap.filter`, `OrderedMap.map` — keep the order of what remains;
* `OrderedMap.lookup` — the value of a key.
-/

/-- Replaces the value of `key` in place, or appends the pair when the key is new. -/
def insertEntry {κ ν : Type} [DecidableEq κ] (key : κ) (value : ν) : List (κ × ν) → List (κ × ν)
  | [] => [(key, value)]
  | e :: rest => if e.1 = key then (key, value) :: rest else e :: insertEntry key value rest

/-- The keys after an insertion, by recursion along the pairs. A key that is there keeps its place,
    and a new one comes last. -/
theorem map_fst_insertEntry {κ ν : Type} [DecidableEq κ] (key : κ) (value : ν) :
    ∀ entries : List (κ × ν),
      (insertEntry key value entries).map Prod.fst =
        if key ∈ entries.map Prod.fst then entries.map Prod.fst
        else entries.map Prod.fst ++ [key]
  | [] => by simp [insertEntry]
  | e :: rest => by
    have ih := map_fst_insertEntry key value rest
    by_cases h : e.1 = key
    · simp [insertEntry, h]
    · have h' : ¬key = e.1 := fun hk => h hk.symm
      by_cases hm : key ∈ rest.map Prod.fst
      · simp only [insertEntry, if_neg h, List.map_cons, ih, List.mem_cons, hm, or_true,
          if_true]
      · simp only [insertEntry, if_neg h, List.map_cons, ih, List.mem_cons, hm, h',
          or_self, if_false, List.cons_append]

/-- An insertion never makes a second pair with the same key. This is what keeps the invariant of
    `OrderedMap`, so that no later proof has to go through the pairs again. -/
theorem nodup_insertEntry {κ ν : Type} [DecidableEq κ] (key : κ) (value : ν)
    {entries : List (κ × ν)} (h : (entries.map Prod.fst).Nodup) :
    ((insertEntry key value entries).map Prod.fst).Nodup := by
  rw [map_fst_insertEntry]
  split
  · exact h
  · rename_i hm
    rw [List.nodup_append]
    refine ⟨h, by simp, ?_⟩
    intro a ha b hb hab
    rw [List.mem_singleton] at hb
    exact hm (hb ▸ hab ▸ ha)

/-- A finite map that remembers the order in which its keys first came. -/
structure OrderedMap (κ ν : Type) where
  /-- The pairs, in insertion order. -/
  entries : List (κ × ν)
  /-- No key occurs twice. -/
  nodup_keys : (entries.map Prod.fst).Nodup

namespace OrderedMap

variable {κ ν μ : Type}

/-- Two maps with the same entries are the same map. Nothing but the entries tells maps apart: that
    their keys differ is a proof, and any two proofs are the same. -/
@[ext] theorem ext {a b : OrderedMap κ ν} (h : a.entries = b.entries) : a = b := by
  cases a; cases b; cases h; rfl

instance [DecidableEq κ] [DecidableEq ν] : DecidableEq (OrderedMap κ ν) := fun a b =>
  decidable_of_iff (a.entries = b.entries) ⟨OrderedMap.ext, fun h => h ▸ rfl⟩

/-- The map without entries. -/
def empty : OrderedMap κ ν := ⟨[], List.nodup_nil⟩

instance : Inhabited (OrderedMap κ ν) := ⟨empty⟩

instance : EmptyCollection (OrderedMap κ ν) := ⟨empty⟩

/-- The keys, in order. -/
def keys (m : OrderedMap κ ν) : List κ := m.entries.map Prod.fst

/-- The values, in the order of their keys. -/
def values (m : OrderedMap κ ν) : List ν := m.entries.map Prod.snd

/-- The number of entries. -/
def size (m : OrderedMap κ ν) : Nat := m.entries.length

/-- Whether there is no entry. -/
def isEmpty (m : OrderedMap κ ν) : Bool := m.entries.isEmpty

/-- Sets the value of a key: in place when the key is there, at the end otherwise. -/
def insert [DecidableEq κ] (m : OrderedMap κ ν) (key : κ) (value : ν) : OrderedMap κ ν :=
  ⟨insertEntry key value m.entries, nodup_insertEntry key value m.nodup_keys⟩

/-- Inserts the pairs from left to right. -/
def ofList [DecidableEq κ] (pairs : List (κ × ν)) : OrderedMap κ ν :=
  pairs.foldl (fun m e => m.insert e.1 e.2) empty

/-- The value of a key. -/
def lookup [DecidableEq κ] (m : OrderedMap κ ν) (key : κ) : Option ν :=
  (m.entries.find? (fun e => e.1 = key)).map Prod.snd

/-- Whether the key has an entry. -/
def contains [DecidableEq κ] (m : OrderedMap κ ν) (key : κ) : Bool :=
  m.entries.any (fun e => e.1 = key)

/-- The entries that pass the test, in order. -/
def filter (m : OrderedMap κ ν) (p : κ → ν → Bool) : OrderedMap κ ν :=
  ⟨m.entries.filter (fun e => p e.1 e.2),
    List.Nodup.sublist (List.Sublist.map _ List.filter_sublist) m.nodup_keys⟩

/-- Changes each value; the keys stay. -/
def map (m : OrderedMap κ ν) (f : κ → ν → μ) : OrderedMap κ μ :=
  ⟨m.entries.map (fun e => (e.1, f e.1 e.2)), by
    have : (m.entries.map (fun e => (e.1, f e.1 e.2))).map Prod.fst = m.entries.map Prod.fst := by
      simp [List.map_map, Function.comp_def]
    rw [this]
    exact m.nodup_keys⟩

/-- The first `n` entries. -/
def take (m : OrderedMap κ ν) (n : Nat) : OrderedMap κ ν :=
  ⟨m.entries.take n,
    List.Nodup.sublist (List.Sublist.map _ (List.take_sublist n m.entries)) m.nodup_keys⟩

/-- Whether two maps have the same keys, in any order, with values that `same` accepts. -/
def agree [DecidableEq κ] (same : ν → ν → Bool) (a b : OrderedMap κ ν) : Bool :=
  -- Keys are distinct, so with equal sizes one inclusion is enough.
  a.size = b.size && a.entries.all (fun e => (b.lookup e.1).any (same e.2))

/-- Whether two maps hold the same entries, in any order. -/
def sameEntries [DecidableEq κ] [DecidableEq ν] (a b : OrderedMap κ ν) : Bool :=
  a.agree (fun v w => v = w) b

@[simp] theorem entries_empty : (empty : OrderedMap κ ν).entries = [] := rfl

/-- The entries after an insertion are those of the plain list with the pair put in. -/
@[simp] theorem entries_insert [DecidableEq κ] (m : OrderedMap κ ν) (key : κ) (value : ν) :
    (m.insert key value).entries = insertEntry key value m.entries := rfl

/-- Filtering a map filters its entries and keeps their order. -/
@[simp] theorem entries_filter (m : OrderedMap κ ν) (p : κ → ν → Bool) :
    (m.filter p).entries = m.entries.filter (fun e => p e.1 e.2) := rfl

/-- Changing the values leaves the keys and the order as they are. -/
@[simp] theorem entries_map (m : OrderedMap κ ν) (f : κ → ν → μ) :
    (m.map f).entries = m.entries.map (fun e => (e.1, f e.1 e.2)) := rfl

/-- Taking the first entries takes them from the front of the list. -/
@[simp] theorem entries_take (m : OrderedMap κ ν) (n : Nat) :
    (m.take n).entries = m.entries.take n := rfl

end OrderedMap

end Backlog
