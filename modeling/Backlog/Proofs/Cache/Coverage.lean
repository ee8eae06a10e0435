import Backlog.Proofs.Cache.Sampling
import Mathlib.Logic.Basic

namespace Backlog

/-!
# How evenly the files are spread that guard a graph

The distance between two drawn nodes is a quotient that is rounded down, and drawing ends when there is
no room left.  What the rounding loses adds up behind the last drawn node: the stretch there can be
almost as long as all that is drawn from.

* `longestGap` — how many nodes in a row are left out, at most;
* `watchesBlocks_take_everyNth_iff` — a block of nodes is sure to hold a drawn one exactly if it is
  longer than that;
* `ImportGraph.watchesBlocks_sample_iff` — when blocks of twice the distance, rounded up, are.
-/

/-- Every block of so many items in a row holds one that is watched. -/
def WatchesBlocks {α : Type} (watched items : List α) (size : Nat) : Prop :=
  ∀ block, block <:+: items → block ≠ [] → block.length = size → ∃ a ∈ block, a ∈ watched

/-- The number of items in a row that are left out of `count` items where there is room for `room`: the
    most are left out behind the last one that is drawn. -/
def longestGap (count room : Nat) : Nat :=
  if count < room then 0 else count / room + count % room - 1

variable {α : Type} {items : List α} {room size : Nat}

/-- The items that are drawn are those at multiples of the distance, as far as there is room. Blocks
    are stated by places, and so is what is drawn. -/
theorem mem_take_everyNth_iff {step : Nat} (hstep : 0 < step) {a : α} :
    a ∈ (everyNth step 0 items).take room ↔ ∃ k < room, items[k * step]? = some a := by
  have hplace : ∀ k, (everyNth step 0 items)[k]? = items[k * step]? := by
    intro k
    rw [getElem?_everyNth hstep, Nat.zero_add]
  rw [List.mem_iff_getElem?]
  constructor
  · rintro ⟨k, hk⟩
    rw [List.getElem?_take] at hk
    split at hk
    · rename_i hroom
      exact ⟨k, hroom, hplace k ▸ hk⟩
    · cases hk
  · rintro ⟨k, hroom, hk⟩
    exact ⟨k, by rw [List.getElem?_take_of_lt hroom, hplace k, hk]⟩

/-- Where the last item is drawn from: what lies behind it is the longest gap. It is stated as a
    sum, which has no subtraction. -/
theorem longestGap_eq (hroom : 0 < room) {count : Nat} (h : room ≤ count) :
    longestGap count room + (room - 1) * (count / room) + 1 = count := by
  have hdiv : room * (count / room) + count % room = count := Nat.div_add_mod count room
  have hpos : 0 < count / room := Nat.div_pos h hroom
  obtain ⟨r, rfl⟩ := Nat.exists_eq_succ_of_ne_zero (Nat.pos_iff_ne_zero.mp hroom)
  rw [Nat.succ_mul] at hdiv
  rw [longestGap, if_neg (Nat.not_lt.mpr h), Nat.succ_sub_one]
  omega

/-- A block behind the last drawn item holds none that is drawn. The last block of the list is one,
    if the longest gap is behind the last item. -/
theorem exists_unwatched_block (hnodup : items.Nodup) (hroom : 0 < room) (hsize : 0 < size)
    (hgap : size ≤ longestGap items.length room) :
    ¬ WatchesBlocks ((everyNth (max 1 (items.length / room)) 0 items).take room) items size := by
  have hcount : room ≤ items.length := by
    -- With room for all items there is no gap.
    by_contra hlt
    rw [longestGap, if_pos (Nat.not_le.mp hlt)] at hgap
    omega
  have hlast := longestGap_eq hroom hcount
  have hstep : max 1 (items.length / room) = items.length / room :=
    Nat.max_eq_right (Nat.div_pos hcount hroom)
  rw [hstep]
  intro hwatches
  have hlength : (items.drop (items.length - size)).length = size := by
    rw [List.length_drop]
    omega
  obtain ⟨a, hmem, hdrawn⟩ := hwatches (items.drop (items.length - size))
    (List.drop_suffix _ _).isInfix (List.ne_nil_of_length_pos (by rwa [hlength])) hlength
  obtain ⟨k, hk, hplace⟩ :=
    (mem_take_everyNth_iff (Nat.div_pos hcount hroom)).mp hdrawn
  obtain ⟨j, hj⟩ := List.mem_iff_getElem?.mp hmem
  rw [List.getElem?_drop] at hj
  -- The same item stands in both places, so they are one place.
  have hsame : k * (items.length / room) = items.length - size + j :=
    (List.getElem?_inj (List.getElem?_eq_some_iff.mp hplace).1 hnodup).mp (hplace.trans hj.symm)
  have hbound : k * (items.length / room) ≤ (room - 1) * (items.length / room) :=
    Nat.mul_le_mul_right _ (Nat.le_sub_one_of_lt hk)
  omega

/-- The first multiple of a distance that is not before a place. It is less than one distance
    away. -/
theorem exists_multiple {step : Nat} (hstep : 0 < step) (place : Nat) :
    ∃ k, place ≤ k * step ∧ k * step < place + step := by
  have hdiv := Nat.div_add_mod (place + step - 1) step
  have hmod := Nat.mod_lt (place + step - 1) hstep
  rw [Nat.mul_comm] at hdiv
  exact ⟨(place + step - 1) / step, by omega, by omega⟩

/-- A block that is longer than the longest gap holds a drawn item: the first multiple of the
    distance that is not before the block is in the block, or else the block is behind the last
    drawn item. The two cases are those of the gap. -/
theorem watchesBlocks_of_longestGap_lt (hroom : 0 < room)
    (hgap : longestGap items.length room < size) :
    WatchesBlocks ((everyNth (max 1 (items.length / room)) 0 items).take room) items size := by
  rintro block ⟨front, back, hitems⟩ - hlength
  subst hlength
  have hcount : front.length + block.length ≤ items.length := by
    rw [← hitems, List.length_append, List.length_append]
    omega
  have hplace : ∀ j < block.length, items[front.length + j]? = block[j]? := by
    intro j hj
    rw [← hitems, List.append_assoc, List.getElem?_append_right (Nat.le_add_right _ _),
      Nat.add_sub_cancel_left, List.getElem?_append_left hj]
  -- It is enough to find a multiple of the distance among the places of the block.
  suffices hmultiple : ∃ k < room, ∃ j < block.length,
      k * max 1 (items.length / room) = front.length + j by
    obtain ⟨k, hk, j, hj, heq⟩ := hmultiple
    refine ⟨block[j], List.getElem_mem hj, (mem_take_everyNth_iff (by omega)).mpr ⟨k, hk, ?_⟩⟩
    rw [heq, hplace j hj, List.getElem?_eq_getElem hj]
  by_cases hall : items.length < room
  · -- there is room for every item
    have hone : max 1 (items.length / room) = 1 := by rw [Nat.div_eq_of_lt hall]; rfl
    exact ⟨front.length, by omega, 0, by omega, by rw [hone]; omega⟩
  · have hfull : room ≤ items.length := Nat.not_lt.mp hall
    have hpos : 0 < items.length / room := Nat.div_pos hfull hroom
    have hlast := longestGap_eq hroom hfull
    have hshare : room * (items.length / room) ≤ items.length := Nat.mul_div_le _ _
    rw [Nat.max_eq_right hpos]
    generalize items.length / room = step at hpos hlast hshare ⊢
    obtain ⟨k, hfirst, hnear⟩ := exists_multiple hpos front.length
    have hsucc : room * step = (room - 1) * step + step := by
      rw [← Nat.succ_mul, Nat.succ_eq_add_one, Nat.sub_add_cancel hroom]
    by_cases hk : k < room
    · exact ⟨k, hk, k * step - front.length, by omega, by omega⟩
    · -- the block begins behind the last drawn item, where it does not fit in
      have hbehind : room * step ≤ k * step := Nat.mul_le_mul_right _ (Nat.not_lt.mp hk)
      omega

/-- Blocks of a size are watched exactly if they are longer than the longest gap. Items must be
    distinct, or a drawn one might stand in the block as well. -/
theorem watchesBlocks_take_everyNth_iff (hnodup : items.Nodup) (hroom : 0 < room)
    (hsize : 0 < size) :
    WatchesBlocks ((everyNth (max 1 (items.length / room)) 0 items).take room) items size ↔
      longestGap items.length room < size :=
  ⟨fun h => Nat.not_le.mp fun hgap => exists_unwatched_block hnodup hroom hsize hgap h,
    watchesBlocks_of_longestGap_lt hroom⟩

/-- The longest gap is shorter than twice the distance, rounded up, exactly if the rounding loses
    little: no more than two nodes over the distance. This is the arithmetic of the division, with
    nothing of the graph in it. -/
theorem longestGap_lt_iff {count : Nat} (hroom : 0 < room) (hcount : 0 < count) :
    longestGap count room < 2 * ((count + room - 1) / room) ↔
      count < room ∨ count % room ≤ count / room + 2 := by
  have hdiv := Nat.div_add_mod count room
  have hmod := Nat.mod_lt count hroom
  rw [longestGap]
  by_cases hall : count < room
  · have hceil : (count + room - 1) / room = 1 :=
      Nat.div_eq_of_lt_le (by omega) (by omega)
    rw [if_pos hall, hceil]
    exact ⟨fun _ => .inl hall, fun _ => by decide⟩
  · have hpos : 0 < count / room := Nat.div_pos (Nat.not_lt.mp hall) hroom
    rw [if_neg hall]
    rcases Nat.eq_zero_or_pos (count % room) with hzero | hrest
    · have hceil : (count + room - 1) / room = count / room := by
        refine Nat.div_eq_of_lt_le ?_ ?_
        · rw [Nat.mul_comm]
          omega
        · rw [Nat.succ_mul, Nat.mul_comm]
          omega
      rw [hceil, hzero]
      omega
    · have hceil : (count + room - 1) / room = count / room + 1 := by
        refine Nat.div_eq_of_lt_le ?_ ?_
        · rw [Nat.succ_mul, Nat.mul_comm]
          omega
        · rw [Nat.succ_mul, Nat.succ_mul, Nat.mul_comm]
          omega
      rw [hceil]
      omega

namespace ImportGraph

variable {g : ImportGraph} {maxSize : Int}

/-- The nodes that are no entry points are distinct. -/
theorem nodup_otherNodes (g : ImportGraph) : g.otherNodes.Nodup := g.nodes.nodup_keys.filter _

/-- Among the nodes that are no entry points, a sample has exactly those that are drawn. The entry
    points are drawn in any case, and take their places first. -/
theorem mem_sample_of_other {path : String} (h : path ∈ g.otherNodes) :
    path ∈ g.sample maxSize ↔
      path ∈ (everyNth (max 1 (g.otherNodes.length / (maxSize - g.entryNodes.length).toNat)) 0
        g.otherNodes).take (maxSize - g.entryNodes.length).toNat := by
  have hother : path ∉ g.entryNodes := by
    intro hentry
    have hno := (List.mem_filter.mp h).2
    rw [List.contains_iff_mem.mpr hentry] at hno
    cases hno
  rw [sample, List.mem_append, or_iff_right hother]

/-- Let there be room for `room` nodes besides the entry points. In every block of nodes that are no
    entry points, twice as long as the number of them for each place, rounded up, there is one that
    guards the graph, exactly if there are fewer than `room`, or if the division by `room` leaves at
    most two more than it gives. -/
theorem watchesBlocks_sample_iff (g : ImportGraph) (maxSize : Int) {room : Nat} (hroom : 1 ≤ room)
    (h : maxSize = g.entryNodes.length + room) :
    WatchesBlocks (g.sample maxSize) g.otherNodes (2 * ((g.otherNodes.length + room - 1) / room)) ↔
      g.otherNodes.length < room ∨
        g.otherNodes.length % room ≤ g.otherNodes.length / room + 2 := by
  have hnat : (maxSize - g.entryNodes.length).toNat = room := by omega
  -- Only the drawn nodes count, since a block has no entry points.
  have hdrawn : WatchesBlocks (g.sample maxSize) g.otherNodes
        (2 * ((g.otherNodes.length + room - 1) / room)) ↔
      WatchesBlocks ((everyNth (max 1 (g.otherNodes.length / room)) 0 g.otherNodes).take room)
        g.otherNodes (2 * ((g.otherNodes.length + room - 1) / room)) := by
    refine forall_congr' fun block => forall_congr' fun hblock => forall_congr' fun _ =>
      forall_congr' fun _ => exists_congr fun path => and_congr_right fun hmem => ?_
    rw [mem_sample_of_other (hblock.subset hmem), hnat]
  rw [hdrawn]
  rcases Nat.eq_zero_or_pos g.otherNodes.length with hzero | hpos
  · -- there is no block at all
    refine ⟨fun _ => .inl (by omega), fun _ block hblock hne _ => ?_⟩
    rw [List.length_eq_zero_iff.mp hzero, List.infix_nil] at hblock
    exact absurd hblock hne
  · have hsize : 0 < 2 * ((g.otherNodes.length + room - 1) / room) :=
      Nat.mul_pos Nat.two_pos (Nat.div_pos (by omega) hroom)
    rw [watchesBlocks_take_everyNth_iff g.nodup_otherNodes hroom hsize,
      longestGap_lt_iff hroom hpos]

/-- The loose graph has room for three of seven nodes, which leaves one. -/
theorem watchesBlocks_looseGraph :
    (5 : Int) = looseGraph.entryNodes.length + (3 : Nat) ∧
      WatchesBlocks (looseGraph.sample 5) looseGraph.otherNodes 6 := by
  have hroom : (5 : Int) = looseGraph.entryNodes.length + (3 : Nat) := by decide
  exact ⟨hroom, (watchesBlocks_sample_iff looseGraph 5 (by decide) hroom).mpr (.inr (by decide))⟩

/-- Nine modules without an entry point. -/
def rowGraph : ImportGraph :=
  .ofModules (["a", "b", "c", "d", "e", "f", "g", "h", "i"].map (⟨·, []⟩)) [] none (.zero false)

/-- Where there is room for five of them, the distance is one, and the last four are left out. -/
theorem not_watchesBlocks_rowGraph :
    rowGraph.sample 5 = ["a", "b", "c", "d", "e"] ∧
      ¬ WatchesBlocks (rowGraph.sample 5) rowGraph.otherNodes
        (2 * ((rowGraph.otherNodes.length + 5 - 1) / 5)) := by
  have hsample : rowGraph.sample 5 = ["a", "b", "c", "d", "e"] := by decide
  refine ⟨hsample, fun hwatches => ?_⟩
  obtain ⟨path, hblock, hwatched⟩ := hwatches ["f", "g", "h", "i"]
    ⟨["a", "b", "c", "d", "e"], [], by decide⟩ (by decide) (by decide)
  rw [hsample] at hwatched
  have hapart : ∀ path ∈ ["f", "g", "h", "i"], path ∉ ["a", "b", "c", "d", "e"] := by decide
  exact hapart path hblock hwatched

end ImportGraph

end Backlog
