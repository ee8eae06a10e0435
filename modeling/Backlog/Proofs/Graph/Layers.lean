import Backlog.Graph.Basic
import Backlog.Proofs.Text.Distinct
import Mathlib.Data.List.Perm.Subperm
import Mathlib.Data.Nat.Find

namespace Backlog

open Backlog.Text

/-!
# Rows of nodes by distance

Spreading out from a start, row by row, finds every node at its distance.

* `StepsTo` — ways of a given length;
* `Distance` — the length of a shortest way;
* `mem_layers_iff` — each row holds the nodes at one distance, up to the last row that is made;
* `Distance.lt_length` — a distance is less than the number of nodes;
* `mem_flatten_layers_iff` — so that the nodes of all rows are those that a way leads to, of a length
  that is allowed.
-/

/-- A way of a given length leads from one of the starts to a node. -/
def StepsTo (next : String → List String) (start : List String) : Nat → String → Prop
  | 0, x => x ∈ start
  | k + 1, x => ∃ y, StepsTo next start k y ∧ x ∈ next y

/-- A way of this length leads to a node, and no shorter one does. -/
structure Distance (next : String → List String) (start : List String) (k : Nat) (x : String) :
    Prop where
  steps : StepsTo next start k x
  least : ∀ j < k, ¬StepsTo next start j x

variable {next : String → List String} {start : List String} {j k : Nat} {x : String}

/-- A node that a way leads to has a distance, at most the length of the way. It is the least of
    such lengths. -/
theorem StepsTo.exists_distance (h : StepsTo next start k x) :
    ∃ j ≤ k, Distance next start j x := by
  classical
  have hex : ∃ n, StepsTo next start n x := ⟨k, h⟩
  exact ⟨Nat.find hex, Nat.find_min' hex h, Nat.find_spec hex, fun _ hj => Nat.find_min hex hj⟩

namespace Distance

theorem unique (hj : Distance next start j x) (hk : Distance next start k x) : j = k := by
  rcases Nat.lt_trichotomy j k with hlt | heq | hgt
  · exact absurd hj.steps (hk.least j hlt)
  · exact heq
  · exact absurd hk.steps (hj.least k hgt)

/-- The last node but one of a shortest way is one step nearer. By this, rows are made from the rows
    before. -/
theorem exists_pred (h : Distance next start (k + 1) x) :
    ∃ y, Distance next start k y ∧ x ∈ next y := by
  obtain ⟨y, hy, hxy⟩ := h.steps
  exact ⟨y, ⟨hy, fun j hj hjy => h.least (j + 1) (by omega) ⟨y, hjy, hxy⟩⟩, hxy⟩

/-- There are nodes at every smaller distance. So no row in between is empty. -/
theorem exists_of_le (h : Distance next start k x) (hjk : j ≤ k) :
    ∃ y, Distance next start j y := by
  induction k generalizing x with
  | zero =>
    obtain rfl : j = 0 := by omega
    exact ⟨x, h⟩
  | succ k ih =>
    rcases Nat.lt_or_ge k j with hlt | hle
    · obtain rfl : j = k + 1 := by omega
      exact ⟨x, h⟩
    · obtain ⟨y, hy, _⟩ := h.exists_pred
      exact ih hy hle

end Distance

/-! ### Rows and distances -/

/-- A row of a spread: the nodes at one distance, and what has been seen up to there. -/
structure Spread (next : String → List String) (start : List String) (i : Nat)
    (row seen : List String) : Prop where
  row_iff : ∀ x, x ∈ row ↔ Distance next start i x
  seen_iff : ∀ x, x ∈ seen ↔ ∃ j ≤ i, StepsTo next start j x

namespace Spread

variable {i hops : Nat} {row seen : List String}

/-- At first, the row is the start, and nothing else has been seen. -/
theorem init (next : String → List String) (start : List String) :
    Spread next start 0 start start where
  row_iff x := ⟨fun hx => ⟨hx, fun j hj => absurd hj (Nat.not_lt_zero j)⟩, fun hx => hx.steps⟩
  seen_iff x := by
    constructor
    · exact fun hx => ⟨0, Nat.le_refl 0, hx⟩
    · rintro ⟨j, hj, hx⟩
      obtain rfl : j = 0 := by omega
      exact hx

/-- The new neighbours of a row are the nodes one step farther. What has been seen is nearer, and is
    left out. -/
theorem mem_fresh_iff (h : Spread next start i row seen) :
    x ∈ newTexts seen (row.flatMap next) ↔ Distance next start (i + 1) x := by
  rw [mem_newTexts, List.mem_flatMap, h.seen_iff]
  constructor
  · rintro ⟨⟨y, hy, hxy⟩, hnew⟩
    refine ⟨⟨y, ((h.row_iff y).mp hy).steps, hxy⟩, fun j hj hjx => hnew ⟨j, by omega, hjx⟩⟩
  · intro hx
    obtain ⟨y, hy, hxy⟩ := hx.exists_pred
    exact ⟨⟨y, (h.row_iff y).mpr hy, hxy⟩, fun ⟨j, hj, hjx⟩ => hx.least j (by omega) hjx⟩

/-- The next row. This is the step of the induction over the rows. -/
theorem step (h : Spread next start i row seen) :
    Spread next start (i + 1) (newTexts seen (row.flatMap next))
      (seen ++ newTexts seen (row.flatMap next)) where
  row_iff _ := h.mem_fresh_iff
  seen_iff x := by
    rw [List.mem_append, h.seen_iff, h.mem_fresh_iff]
    constructor
    · rintro (⟨j, hj, hx⟩ | hx)
      · exact ⟨j, by omega, hx⟩
      · exact ⟨i + 1, Nat.le_refl _, hx.steps⟩
    · rintro ⟨j, hj, hx⟩
      -- A way as long as this one was seen, or is shortest.
      obtain ⟨k, hk, hdist⟩ := hx.exists_distance
      rcases Nat.lt_or_ge i k with hlt | hle
      · obtain rfl : k = i + 1 := by omega
        exact .inr hdist
      · exact .inl ⟨k, hle, hdist.steps⟩

/-- The rows that follow hold the nodes at the distances that follow. The induction is on the number
    of rows, with the row and what has been seen left general. -/
theorem mem_layers_iff (h : Spread next start i row seen) :
    (∃ r, (layers next hops row seen)[j]? = some r ∧ x ∈ r) ↔
      j ≤ hops ∧ Distance next start (i + j) x := by
  induction hops generalizing i j row seen with
  | zero =>
    rw [layers]
    cases j with
    | zero => simp [h.row_iff]
    | succ j => simp
  | succ hops ih =>
    unfold layers
    split
    · -- no node is one step farther, so none is at a greater distance
      rename_i hnil
      cases j with
      | zero => simp [h.row_iff]
      | succ j =>
        have hnone : ¬Distance next start (i + (j + 1)) x := by
          intro hx
          obtain ⟨y, hy⟩ := hx.exists_of_le (show i + 1 ≤ i + (j + 1) by omega)
          have hmem := h.mem_fresh_iff.mpr hy
          rw [hnil] at hmem
          exact List.not_mem_nil hmem
        simp [hnone]
    · cases j with
      | zero => simp [h.row_iff]
      | succ j =>
        rw [List.getElem?_cons_succ, ih h.step, Nat.add_assoc, Nat.add_comm 1 j,
          Nat.add_le_add_iff_right]

end Spread

/-- Each row holds the nodes at one distance. So a search in rows finds distances. -/
theorem mem_layers_iff {hops : Nat} :
    (∃ r, (layers next hops start start)[k]? = some r ∧ x ∈ r) ↔
      k ≤ hops ∧ Distance next start k x := by
  rw [(Spread.init next start).mem_layers_iff, Nat.zero_add]

/-! ### Distances and the number of nodes -/

/-- All that is to be found: the starts, and the neighbours of what it holds. -/
structure Closed (next : String → List String) (start nodes : List String) : Prop where
  start_subset : start ⊆ nodes
  next_subset : ∀ x, next x ⊆ nodes

theorem StepsTo.mem_of_closed {nodes : List String} (hclosed : Closed next start nodes)
    (h : StepsTo next start k x) : x ∈ nodes := by
  cases k with
  | zero => exact hclosed.start_subset h
  | succ k =>
    obtain ⟨y, _, hxy⟩ := h
    exact hclosed.next_subset y hxy

/-- The nodes of a shortest way are all different. Each is at its own distance. -/
theorem Distance.exists_way (h : Distance next start k x) :
    ∃ way : List String, way.Nodup ∧ way.length = k + 1 ∧
      ∀ y ∈ way, ∃ j ≤ k, Distance next start j y := by
  induction k generalizing x with
  | zero => exact ⟨[x], List.nodup_singleton x, rfl, by simpa using h⟩
  | succ k ih =>
    obtain ⟨y, hy, _⟩ := h.exists_pred
    obtain ⟨way, hnodup, hlength, hway⟩ := ih hy
    refine ⟨x :: way, List.nodup_cons.mpr ⟨fun hx => ?_, hnodup⟩, by simp [hlength], ?_⟩
    · -- the end is farther away than all the nodes before it
      obtain ⟨j, hj, hdist⟩ := hway x hx
      have := h.unique hdist
      omega
    · rw [List.forall_mem_cons]
      refine ⟨⟨k + 1, Nat.le_refl _, h⟩, fun z hz => ?_⟩
      obtain ⟨j, hj, hdist⟩ := hway z hz
      exact ⟨j, by omega, hdist⟩

/-- A distance is less than the number of nodes. That is the bound after which a search can stop. -/
theorem Distance.lt_length {nodes : List String} (hclosed : Closed next start nodes)
    (h : Distance next start k x) : k < nodes.length := by
  obtain ⟨way, hnodup, hlength, hway⟩ := h.exists_way
  have hsub : way ⊆ nodes := by
    intro y hy
    obtain ⟨j, _, hdist⟩ := hway y hy
    exact hdist.steps.mem_of_closed hclosed
  have hle := (hnodup.subperm hsub).length_le
  omega

/-- Whether ways of a length are allowed. -/
def AllowsLength (maxDepth : Option Int) (k : Nat) : Prop :=
  ∀ n, maxDepth = some n → (k : Int) ≤ max n 0

/-- Of the distances, the number of steps cuts off just those that are not allowed. Without a limit,
    the number of nodes is one. -/
theorem le_hopCount_iff {nodes : List String} (hclosed : Closed next start nodes)
    {maxDepth : Option Int} (h : Distance next start k x) :
    k ≤ hopCount nodes.length maxDepth ↔ AllowsLength maxDepth k := by
  have hlt := h.lt_length hclosed
  cases maxDepth with
  | none => simpa [hopCount, AllowsLength] using Nat.le_of_lt hlt
  | some n =>
    simp only [hopCount, AllowsLength, Option.some.injEq, forall_eq']
    omega

/-- The rows hold what a way leads to that is not too long. This is all that is used of rows
    elsewhere. -/
theorem mem_flatten_layers_iff {nodes : List String} (hclosed : Closed next start nodes)
    {maxDepth : Option Int} :
    x ∈ (layers next (hopCount nodes.length maxDepth) start start).flatten ↔
      ∃ k, AllowsLength maxDepth k ∧ StepsTo next start k x := by
  rw [List.mem_flatten]
  constructor
  · rintro ⟨row, hrow, hx⟩
    obtain ⟨k, hk⟩ := List.mem_iff_getElem?.mp hrow
    obtain ⟨hle, hdist⟩ := mem_layers_iff.mp ⟨row, hk, hx⟩
    exact ⟨k, (le_hopCount_iff hclosed hdist).mp hle, hdist.steps⟩
  · rintro ⟨k, hallows, hsteps⟩
    -- The rows know only shortest ways; a way that is allowed gives one that is.
    obtain ⟨j, hj, hdist⟩ := hsteps.exists_distance
    have hj' : AllowsLength maxDepth j := fun n hn => by
      have := hallows n hn
      omega
    obtain ⟨row, hrow, hx⟩ :=
      mem_layers_iff.mpr ⟨(le_hopCount_iff hclosed hdist).mpr hj', hdist⟩
    exact ⟨row, List.mem_of_getElem? hrow, hx⟩

end Backlog
