import Backlog.Cache.Sample
import Backlog.Proofs.OrderedMap

namespace Backlog

/-!
# How many files guard a graph

The entry points guard a cached graph, and other nodes at even distances as far as there is room. The
distance is a quotient that is rounded down; here it is shown that no room is left over for that.

* `getElem?_everyNth`, `lt_length_everyNth` — the places that are drawn from, and how many there are;
* `length_take_everyNth` — at the distance of a sample, drawing ends only for want of room or items;
* `ImportGraph.entryNodes_append_otherNodes_perm` — the nodes, entry points first;
* `ImportGraph.drawSample?` — the sample step by step, with a quotient that may be missing;
* `ImportGraph.sample_fills_room` — it never is, and the sample is as large as it can be.
-/

/-! ### Every so many items -/

/-- Items are drawn in their order, and none twice. -/
theorem everyNth_sublist {α : Type} (step skip : Nat) (items : List α) :
    (everyNth step skip items).Sublist items := by
  induction items generalizing skip with
  | nil => exact .slnil
  | cons a rest ih =>
    cases skip with
    | zero => exact (ih _).cons_cons a
    | succ skip => exact (ih skip).cons a

/-- The items that are drawn stand at multiples of the distance. The induction follows the recursion
    of the function, which counts down to the next item. -/
theorem getElem?_everyNth {α : Type} {step : Nat} (hstep : 0 < step) (skip k : Nat)
    (items : List α) : (everyNth step skip items)[k]? = items[skip + k * step]? := by
  induction items generalizing skip k with
  | nil => rfl
  | cons a rest ih =>
    cases skip with
    | succ skip =>
      rw [everyNth, ih, Nat.add_right_comm, List.getElem?_cons_succ]
    | zero =>
      cases k with
      | zero => simp [everyNth]
      | succ k =>
        have hplace : 0 + (k + 1) * step = step - 1 + k * step + 1 := by
          rw [Nat.succ_mul]
          omega
        rw [everyNth, List.getElem?_cons_succ, ih, hplace, List.getElem?_cons_succ]

/-- An item is drawn for each multiple of the distance that is a place of the list. This is the
    count of drawn items, without a division. -/
theorem lt_length_everyNth {α : Type} {step : Nat} (hstep : 0 < step) {k : Nat} {items : List α} :
    k < (everyNth step 0 items).length ↔ k * step < items.length := by
  have h := getElem?_everyNth hstep 0 k items
  rw [Nat.zero_add] at h
  rw [← Nat.not_le, ← Nat.not_le, ← List.getElem?_eq_none_iff, ← List.getElem?_eq_none_iff, h]

/-- At the distance for some room, as many items are drawn as there is room, or all of them. The
    distance is rounded down, so there are enough items; it is at least one, so there is no division
    by zero. -/
theorem length_take_everyNth {α : Type} (room : Nat) (items : List α) :
    ((everyNth (max 1 (items.length / room)) 0 items).take room).length =
      min room items.length := by
  have hstep : 0 < max 1 (items.length / room) := by omega
  have hdrawn := (everyNth_sublist (max 1 (items.length / room)) 0 items).length_le
  -- As long as there is room, the next multiple of the distance is a place of the list.
  have hplace : ∀ k, k < min room items.length →
      k * max 1 (items.length / room) < items.length := by
    intro k hk
    obtain ⟨hroom, hitems⟩ := Nat.lt_min.mp hk
    rcases Nat.eq_zero_or_pos (items.length / room) with hzero | hpos
    · simpa [hzero] using hitems
    · rw [Nat.max_eq_right hpos]
      calc k * (items.length / room)
          < room * (items.length / room) := Nat.mul_lt_mul_of_pos_right hroom hpos
        _ ≤ items.length := Nat.mul_div_le _ _
  have henough : min room items.length ≤
      (everyNth (max 1 (items.length / room)) 0 items).length :=
    Nat.le_of_not_lt fun hfew =>
      Nat.lt_irrefl _ ((lt_length_everyNth hstep).mpr (hplace _ hfew))
  rw [List.length_take]
  omega

namespace ImportGraph

variable {g : ImportGraph} {maxSize : Int}

/-! ### The nodes of a sample -/

/-- A sample is drawn from the entry points among the nodes and the others behind them, in that
    order. -/
theorem sample_sublist (g : ImportGraph) (maxSize : Int) :
    (g.sample maxSize).Sublist (g.entryNodes ++ g.otherNodes) :=
  (List.Sublist.refl _).append ((List.take_sublist _ _).trans (everyNth_sublist _ _ _))

/-- The files that guard a graph are nodes of it. Entry points that are no nodes have been left
    out. -/
theorem mem_keys_of_mem_sample {path : String} (h : path ∈ g.sample maxSize) :
    path ∈ g.nodes.keys := by
  rcases List.mem_append.mp ((g.sample_sublist maxSize).mem h) with hentry | hother
  · exact OrderedMap.contains_iff.mp (List.mem_filter.mp hentry).2
  · exact (List.mem_filter.mp hother).1

/-- If no entry point is repeated, then the entry points among the nodes and the other nodes are all
    nodes, each of them once. So the size of a sample can be counted in nodes. -/
theorem entryNodes_append_otherNodes_perm (h : g.entryPoints.Nodup) :
    (g.entryNodes ++ g.otherNodes).Perm g.nodes.keys := by
  have hnodup : g.entryNodes.Nodup := h.filter _
  have hkeys : g.nodes.keys.Nodup := g.nodes.nodup_keys
  have hentries : g.entryNodes.Perm (g.nodes.keys.filter fun path => g.entryNodes.contains path) := by
    refine (List.perm_ext_iff_of_nodup hnodup (hkeys.filter _)).mpr fun path => ?_
    rw [List.mem_filter, List.contains_iff_mem]
    exact ⟨fun hp => ⟨OrderedMap.contains_iff.mp (List.mem_filter.mp hp).2, hp⟩, fun hp => hp.2⟩
  exact (hentries.append_right _).trans (List.filter_append_perm _ _)

/-! ### The quotient -/

/-- A quotient, rounded down; there is none by zero. -/
def quotient? (a b : Int) : Option Int := if b = 0 then none else some (a.fdiv b)

/-- The sample step by step: a quotient is only asked for when there are other nodes and there is room
    for them. -/
def drawSample? (g : ImportGraph) (maxSize : Int) : Option (List String) :=
  let room := maxSize - g.entryNodes.length
  if room ≤ 0 then some g.entryNodes
  else if g.otherNodes = [] then some g.entryNodes
  else (quotient? g.otherNodes.length room).map fun distance =>
    g.entryNodes ++ (everyNth (max 1 distance).toNat 0 g.otherNodes).take room.toNat

/-- The quotient is there whenever it is asked for. There is a sample to draw only if the room is
    positive. -/
theorem drawSample?_eq (g : ImportGraph) (maxSize : Int) :
    g.drawSample? maxSize = some (g.sample maxSize) := by
  unfold drawSample? sample
  by_cases hroom : maxSize - g.entryNodes.length ≤ 0
  · simp [hroom, Int.toNat_of_nonpos hroom]
  · by_cases hother : g.otherNodes = []
    · simp [hroom, hother, everyNth]
    · obtain ⟨room, hnat⟩ := Int.eq_ofNat_of_zero_le (Int.le_of_lt (Int.not_le.mp hroom))
      rw [hnat] at hroom ⊢
      have hne : (room : Int) ≠ 0 := by omega
      have hdistance : (max 1 (Int.fdiv g.otherNodes.length room)).toNat =
          max 1 (g.otherNodes.length / room) := by
        rw [Int.fdiv_eq_ediv_of_nonneg _ (Int.natCast_nonneg room)]
        omega
      simp only [if_neg hroom, if_neg hother, quotient?, if_neg hne, Option.map_some, hdistance,
        Int.toNat_natCast]

/-- Drawing a sample never divides by zero.  If no entry point is repeated, it gives different nodes:
    first the entry points among them in their order, then others in the order of the nodes, and
    together as many as are asked for, unless there are fewer nodes or more entry points. -/
theorem sample_fills_room (g : ImportGraph) (maxSize : Int)
    (h : g.entryPoints.Nodup) :
    g.drawSample? maxSize = some (g.sample maxSize) ∧
      (g.sample maxSize).Nodup ∧ (∀ path ∈ g.sample maxSize, path ∈ g.nodes.keys) ∧
      (∃ others, g.sample maxSize = g.entryPoints.filter g.contains ++ others ∧
        others.Sublist g.nodes.keys) ∧
      ((g.sample maxSize).length : Int) =
        max ((g.entryPoints.filter g.contains).length : Int) (min maxSize g.nodes.size) := by
  have hperm := entryNodes_append_otherNodes_perm h
  refine ⟨g.drawSample?_eq maxSize, ?_, fun _ => mem_keys_of_mem_sample, ⟨_, rfl, ?_⟩, ?_⟩
  · exact (hperm.nodup_iff.mpr g.nodes.nodup_keys).sublist (g.sample_sublist maxSize)
  · exact ((List.take_sublist _ _).trans (everyNth_sublist _ _ _)).trans List.filter_sublist
  · have hsize := hperm.length_eq
    rw [List.length_append, OrderedMap.length_keys] at hsize
    rw [sample, List.length_append, length_take_everyNth]
    unfold entryNodes at *
    omega

/-- Nine modules, of which two are entry points; a third entry point is none of them. -/
def looseGraph : ImportGraph :=
  .ofModules (["a", "b", "c", "d", "e", "f", "g", "h", "i"].map (⟨·, []⟩)) ["c", "gone", "a"] none
    (.zero false)

/-- There is room for three of the other seven, and every second one is drawn. -/
theorem sample_looseGraph :
    looseGraph.entryPoints.Nodup ∧ looseGraph.drawSample? 5 = some ["c", "a", "b", "e", "g"] ∧
      ((looseGraph.sample 5).length : Int) = max 2 (min 5 9) := by
  have hnodup : looseGraph.entryPoints.Nodup := by decide
  obtain ⟨hdraw, _, _, _, hlength⟩ := sample_fills_room looseGraph 5 hnodup
  exact ⟨hnodup, hdraw.trans (by decide), hlength⟩

end ImportGraph

end Backlog
