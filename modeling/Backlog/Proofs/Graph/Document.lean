import Backlog.Graph.Codec
import Backlog.Proofs.Json.Floats
import Backlog.Proofs.Json.RoundTrip
import Backlog.Proofs.OrderedMap
import Backlog.Proofs.Outcome

namespace Backlog

open Backlog.Number Backlog.Text

/-!
# Import graphs as documents, written and read

A graph is read from more documents than those that are written of graphs: members that no node
keeps may stand beside the others, and members that are null may be missing. So reading is described
by what a document keeps, which makes the two directions meet.

* `ImportGraph.toData?_ok_iff` — the document of a graph, if every distance fits a double;
* `ModuleNode.ofData_ok_iff`, `ImportGraph.readNodes_ok_iff` — what nodes are read from: from what
  they keep, and members beside it;
* `ImportGraph.ofData_members_iff` — it is read as the graph with the time that it holds, if each
  node is filed under its own path and all neighbours are nodes;
* `ImportGraph.exists_isReading` — its text is read as the graph with some time.
-/

/-- A list is read as texts if these are its items. So a list is read as one of texts only in one
    way. -/
theorem Data.texts?_eq_some_iff {items : List Data} {texts : List String} :
    Data.texts? items = some texts ↔ items = texts.map Data.text := by
  induction items generalizing texts with
  | nil => rw [texts?, Option.some_inj, eq_comm (a := []), eq_comm (a := []), List.map_eq_nil_iff]
  | cons item items ih =>
    cases texts with
    | nil =>
      cases item with
      | scalar s => cases s <;> simp [texts?]
      | _ => simp [texts?]
    | cons text texts =>
      rw [List.map_cons, List.cons.injEq, ← ih]
      cases item with
      | scalar s => cases s <;> simp [texts?, and_comm]
      | _ => simp [texts?]

theorem Data.texts?_map_text (texts : List String) :
    Data.texts? (texts.map Data.text) = some texts :=
  texts?_eq_some_iff.mpr rfl

/-- A member that is not null is there. A member that is missing is read as one that is null. -/
theorem Data.getD_null_eq_iff {found : Option Data} {d : Data} (h : d ≠ .null) :
    found.getD .null = d ↔ found = some d := by
  rw [Option.getD_eq_iff]
  exact ⟨fun hd => hd.elim id fun hnone => absurd hnone.2.symm h, .inl⟩

/-! ### Nodes -/

namespace ModuleNode

/-- A distance as a document holds it. -/
def depthMember : Option Nat → Data
  | none => .null
  | some n => .int n

/-- The members of a node's document. -/
def members (node : ModuleNode) : List (String × Data) :=
  [("path", .text node.path), ("dependencies", .list (node.dependencies.map Data.text)),
    ("dependents", .list (node.dependents.map Data.text)), ("isEntryPoint", .bool node.isEntry),
    ("depth", depthMember node.depth)]

/-- A node has a document if its depth is a double, and the document is that of its members. -/
theorem toData?_ok_iff {node : ModuleNode} {data : Data} :
    node.toData? = .ok data ↔
      (∀ n ∈ node.depth, (Binary64.ofInt? n).isSome) ∧ data = Json.mapOf node.members := by
  obtain ⟨path, dependencies, dependents, isEntry, depth⟩ := node
  rw [toData?, bind_ok_iff]
  cases depth with
  | none => simp [depthData?, members, depthMember, Json.mapOf, pure_ok_iff]
  | some n =>
    cases h : Binary64.ofInt? n with
    | none => simp [depthData?, h]
    | some x => simp [depthData?, h, members, depthMember, Json.mapOf, pure_ok_iff]

/-- Nodes with the same members are the same. So a node is read from its members in one way only. -/
theorem members_inj {node found : ModuleNode} : node.members = found.members ↔ node = found := by
  refine ⟨fun h => ?_, congrArg members⟩
  obtain ⟨path, dependencies, dependents, isEntry, depth⟩ := node
  obtain ⟨path', dependencies', dependents', isEntry', depth'⟩ := found
  have htext : ∀ s s', Data.text s = Data.text s' → s = s' :=
    fun _ _ h => Scalar.text.inj (Data.scalar.inj h)
  simp only [members, List.cons.injEq, Prod.mk.injEq, true_and, and_true] at h
  obtain ⟨hpath, hdependencies, hdependents, hentry, hdepth⟩ := h
  have hdepth' : depth = depth' := by
    cases depth <;> cases depth' <;> simp_all [depthMember]
  rw [htext _ _ hpath, (List.map_inj_right htext).mp (Data.list.inj hdependencies),
    (List.map_inj_right htext).mp (Data.list.inj hdependents),
    Scalar.bool.inj (Data.scalar.inj hentry), hdepth']

/-- The keys of a node's document. -/
def memberKeys : List String := ["path", "dependencies", "dependents", "isEntryPoint", "depth"]

/-- The members of a mapping that a node keeps; what is absent is null. -/
def keptMembers (fields : List (Scalar × Data)) : List (String × Data) :=
  memberKeys.map fun key => (key, (Data.field? fields key).getD .null)

/-- A document without the members that no node keeps. -/
def kept : Data → Data
  | .map fields => Json.mapOf (keptMembers fields)
  | d => d

/-- A node keeps all members of its document. What else a document has is passed over. -/
theorem kept_members (node : ModuleNode) :
    kept (Json.mapOf node.members) = Json.mapOf node.members := by
  simp [Json.mapOf, kept, keptMembers, memberKeys, members, Data.field?]

variable {fields : List (Scalar × Data)} {node : ModuleNode}

/-- A list of texts is read from a member that is that list. -/
theorem readTexts_ok_iff (key : Scalar) {part : String} {texts : List String} :
    readTexts key fields part = .ok texts ↔
      (Data.field? fields part).getD .null = .list (texts.map Data.text) := by
  rw [Data.getD_null_eq_iff (by simp), readTexts]
  split
  · rename_i items hfield
    rw [hfield, Option.some_inj, Data.list.injEq, ← Data.texts?_eq_some_iff]
    cases Data.texts? items with
    | none => simp
    | some found => simp
  · rename_i hother
    simpa using fun h => hother _ h

/-- A depth is read from a member that is that number, and no depth from none. -/
theorem readDepth_ok_iff (key : Scalar) {depth : Option Nat} : readDepth key fields = .ok depth ↔
    (Data.field? fields "depth").getD .null = depthMember depth := by
  rw [readDepth]
  split
  · rename_i hfield
    rw [hfield]
    cases depth <;> simp [depthMember]
  · rename_i hfield
    rw [hfield]
    cases depth <;> simp [depthMember]
  · rename_i n hfield
    rw [hfield]
    cases depth with
    -- A number below zero is no distance.
    | none => split <;> simp [depthMember]
    | some m => split <;> simp [depthMember] <;> omega
  · rename_i d hnull hint hfield
    rw [hfield]
    cases depth with
    | none => simpa [depthMember] using fun h => hnull h
    | some m => simpa [depthMember] using fun h => hint _ h

/-- A node is read from a mapping that is filed under the path of the node and has the members of
    its document, whatever else it has. The path is there twice, and has to be the same. -/
theorem ofData_map_ok_iff {key : Scalar} : ofData key (.map fields) = .ok node ↔
    key = .text node.path ∧ keptMembers fields = node.members := by
  obtain ⟨path, dependencies, dependents, isEntry, depth⟩ := node
  simp only [keptMembers, memberKeys, members, List.map_cons, List.map_nil, List.cons.injEq,
    Prod.mk.injEq, true_and, and_true, ← readTexts_ok_iff key,
    ← readDepth_ok_iff key, Data.getD_null_eq_iff (d := .text path) (by simp),
    Data.getD_null_eq_iff (d := .bool isEntry) (by simp)]
  -- The path is compared with the key before anything else is read.
  constructor
  · intro h
    unfold ofData at h
    dsimp only at h
    split at h
    · rename_i k found hpath
      split at h
      · rename_i hsame
        split at h
        · rename_i b hentry
          simp only [bind_ok_iff, pure_ok_iff] at h
          obtain ⟨_, rfl, _, rfl, _, hdepth, _, hdependencies, _, hdependents, heq⟩ := h
          obtain ⟨rfl, rfl, rfl, rfl, rfl⟩ := ModuleNode.mk.inj heq
          exact ⟨congrArg Scalar.text hsame.symm, hpath, hdependencies, hdependents, hentry, hdepth⟩
        · cases h
      · cases h
    · cases h
  · rintro ⟨rfl, hpath, hdependencies, hdependents, hentry, hdepth⟩
    unfold ofData
    simp only [hpath, hdependencies, hdependents, hentry, hdepth, if_true]
    rfl

/-- A node is read from the document that is its own but for members that no node keeps, filed under
    its path. This covers values that are no mapping as well, which are no node. -/
theorem ofData_ok_iff {key : Scalar} {data : Data} : ofData key data = .ok node ↔
    key = .text node.path ∧ kept data = Json.mapOf node.members := by
  cases data with
  | map fields => rw [ofData_map_ok_iff, kept, Json.mapOf_inj]
  | _ => simp [ofData, kept, Json.mapOf]

/-- A node's document holds only what is read as it was written, if its distance is not too long.
    Its depth is the only number of a node. -/
theorem isDocument_members {node : ModuleNode} (h : ∀ n ∈ node.depth, isTooLong n = false) :
    Json.IsDocument Json.IsExact (Json.mapOf node.members) := by
  refine .map (by simp [members]) fun e he => ?_
  simp only [members, List.mem_cons, List.not_mem_nil, or_false] at he
  rcases he with rfl | rfl | rfl | rfl | rfl
  · exact .scalar trivial
  · exact Json.isDocument_texts _
  · exact Json.isDocument_texts _
  · exact .scalar trivial
  · cases hdepth : node.depth with
    | none => exact .scalar trivial
    | some n => exact .scalar (h n hdepth)

end ModuleNode

/-! ### Graphs -/

namespace ImportGraph

/-- The documents of the nodes, under their paths. -/
def nodeMembers (entries : List (String × ModuleNode)) : List (String × Data) :=
  entries.map fun e => (e.1, Json.mapOf e.2.members)

theorem nodeMembers_inj {entries found : List (String × ModuleNode)} :
    nodeMembers entries = nodeMembers found ↔ entries = found := by
  refine List.map_inj_right fun e e' h => ?_
  obtain ⟨hkey, hmembers⟩ := Prod.mk.inj h
  exact Prod.ext hkey (ModuleNode.members_inj.mp (Json.mapOf_inj.mp hmembers))

/-- The members of a graph's document, with a time. -/
def members (g : ImportGraph) (builtAt : Binary64) : List (String × Data) :=
  [("nodes", Json.mapOf (nodeMembers g.nodes.entries)),
    ("entryPoints", .list (g.entryPoints.map Data.text)), ("builtAt", .float builtAt),
    ("excludedImports", .int g.excludedImports)]

/-- Every distance fits a double. -/
def HasDepths (g : ImportGraph) : Prop :=
  ∀ e ∈ g.nodes.entries, ∀ n ∈ e.2.depth, (Binary64.ofInt? n).isSome

/-- Each node is filed under its own path, and its neighbours are nodes. -/
structure IsConsistent (g : ImportGraph) : Prop where
  path : ∀ e ∈ g.nodes.entries, e.2.path = e.1
  edges : ∀ e ∈ g.nodes.entries, ∀ edge ∈ e.2.dependencies ++ e.2.dependents, g.contains edge = true

variable {g found : ImportGraph} {data : Data} {builtAt : Binary64}

/-- The nodes of a graph have documents if each of them has one. -/
theorem mapM_toData?_ok_iff {entries : List (String × ModuleNode)} {nodes : List (Scalar × Data)} :
    (entries.mapM fun e => do
      let node ← e.2.toData?
      return (Scalar.text e.1, node)) = .ok nodes ↔
      (∀ e ∈ entries, ∀ n ∈ e.2.depth, (Binary64.ofInt? n).isSome) ∧
        nodes = Json.pairsOf (nodeMembers entries) := by
  induction entries generalizing nodes with
  | nil => simp [nodeMembers, pure_ok_iff]
  | cons e entries ih =>
    simp only [List.mapM_cons, bind_ok_iff, pure_ok_iff, ModuleNode.toData?_ok_iff, ih,
      List.forall_mem_cons]
    constructor
    · rintro ⟨_, ⟨_, ⟨hdepth, rfl⟩, rfl⟩, _, ⟨hdepths, rfl⟩, rfl⟩
      exact ⟨⟨hdepth, hdepths⟩, rfl⟩
    · rintro ⟨⟨hdepth, hdepths⟩, rfl⟩
      exact ⟨_, ⟨_, ⟨hdepth, rfl⟩, rfl⟩, _, ⟨hdepths, rfl⟩, rfl⟩

/-- A graph has a document if every distance fits a double. The depths are turned into doubles on
    the way, as numbers of the document. -/
theorem toData?_ok_iff :
    g.toData? = .ok data ↔ g.HasDepths ∧ data = Json.mapOf (g.members g.builtAt) := by
  simp only [toData?, bind_ok_iff, pure_ok_iff, mapM_toData?_ok_iff]
  constructor
  · rintro ⟨_, ⟨hdepths, rfl⟩, rfl⟩
    exact ⟨hdepths, rfl⟩
  · rintro ⟨hdepths, rfl⟩
    exact ⟨_, ⟨hdepths, rfl⟩, rfl⟩

/-- Nodes are read from their documents, members that no node keeps apart, under their paths. It
    says in both directions what a document of nodes is. -/
theorem readNodes_ok_iff {raw : List (Scalar × Data)} {read : List (String × ModuleNode)} :
    readNodes raw = .ok read ↔ (∀ e ∈ read, e.2.path = e.1) ∧
      raw.map (fun e => (e.1, ModuleNode.kept e.2)) = Json.pairsOf (nodeMembers read) := by
  induction raw generalizing read with
  | nil => cases read <;> simp [readNodes, nodeMembers]
  | cons e raw ih =>
    simp only [readNodes, bind_ok_iff, pure_ok_iff, ModuleNode.ofData_ok_iff, ih]
    constructor
    · rintro ⟨node, ⟨hkey, hkept⟩, nodes, ⟨hpaths, hnodes⟩, rfl⟩
      refine ⟨List.forall_mem_cons.mpr ⟨rfl, hpaths⟩, ?_⟩
      rw [List.map_cons, hkept, hnodes, hkey]
      rfl
    · rintro ⟨hpaths, hnodes⟩
      cases read with
      | nil => cases hnodes
      | cons first nodes =>
        obtain ⟨hpath, hpaths⟩ := List.forall_mem_cons.mp hpaths
        obtain ⟨hfirst, hnodes⟩ := List.cons.inj hnodes
        obtain ⟨hkey, hkept⟩ := Prod.mk.inj hfirst
        exact ⟨first.2, ⟨hpath ▸ hkey, hkept⟩, nodes, ⟨hpaths, hnodes⟩, by rw [hpath]⟩

/-- The nodes are read if each is filed under its own path. Nothing else of a node can be at fault,
    as it was written from one. -/
theorem readNodes_nodeMembers_iff {entries read : List (String × ModuleNode)} :
    readNodes (Json.pairsOf (nodeMembers entries)) = .ok read ↔
      (∀ e ∈ entries, e.2.path = e.1) ∧ read = entries := by
  have hkept : (Json.pairsOf (nodeMembers entries)).map (fun e => (e.1, ModuleNode.kept e.2)) =
      Json.pairsOf (nodeMembers entries) := by
    simp [Json.pairsOf, nodeMembers, ModuleNode.kept_members]
  rw [readNodes_ok_iff, hkept, Json.pairsOf_inj, nodeMembers_inj]
  constructor
  · rintro ⟨hpaths, rfl⟩
    exact ⟨hpaths, rfl⟩
  · rintro ⟨hpaths, rfl⟩
    exact ⟨hpaths, rfl⟩

/-- The edges pass if all neighbours are nodes. Both lists of neighbours are gone through. Whether
    both ends of an edge know of it is not asked. -/
theorem checkEdges_ok_iff {nodes : OrderedMap String ModuleNode} {checked : List ModuleNode} :
    checkEdges nodes checked = .ok () ↔
      ∀ node ∈ checked, ∀ edge ∈ node.dependencies ++ node.dependents,
        nodes.contains edge = true := by
  induction checked with
  | nil => simp [checkEdges]
  | cons node checked ih =>
    rw [checkEdges, List.forall_mem_cons, ← ih]
    cases h : unknownEdge? nodes node with
    | none =>
      have hall := List.find?_eq_none.mp h
      simp only [Bool.not_eq_true', Bool.not_eq_false] at hall
      exact ⟨fun hchecked => ⟨hall, hchecked⟩, And.right⟩
    | some edge =>
      have hmem := List.mem_of_find?_eq_some h
      have hunknown : nodes.contains edge = false := by simpa using List.find?_some h
      refine ⟨nofun, fun hall => ?_⟩
      rw [hall.1 edge hmem] at hunknown
      cases hunknown

theorem ofList_entries (m : OrderedMap String ModuleNode) : OrderedMap.ofList m.entries = m :=
  OrderedMap.ext (OrderedMap.entries_ofList m.nodup_keys)

/-- The document of a graph is read as the graph with the time that it holds, if the graph is
    consistent, and as no other graph. The time is kept apart because it alone may be read as
    another one. -/
theorem ofData_members_iff :
    ofData (Json.mapOf (g.members builtAt)) = .ok found ↔
      g.IsConsistent ∧ found = { g with builtAt := builtAt } := by
  have hread : ofData (Json.mapOf (g.members builtAt)) = (do
      let read ← readNodes (Json.pairsOf (nodeMembers g.nodes.entries))
      checkEdges (OrderedMap.ofList read) (OrderedMap.ofList read).values
      return ⟨OrderedMap.ofList read, g.entryPoints, builtAt, g.excludedImports⟩) := by
    simp [members, Json.mapOf, ofData, Data.field?, Data.texts?_map_text, readTime, toBinary64,
      bind, Except.bind, pure, Except.pure]
  rw [hread]
  simp only [bind_ok_iff, pure_ok_iff, readNodes_nodeMembers_iff]
  constructor
  · rintro ⟨_, ⟨hpath, rfl⟩, _, hedges, rfl⟩
    rw [ofList_entries] at hedges ⊢
    exact ⟨⟨hpath, fun e he => checkEdges_ok_iff.mp hedges e.2 (List.mem_map_of_mem he)⟩, rfl⟩
  · rintro ⟨⟨hpath, hedges⟩, rfl⟩
    refine ⟨_, ⟨hpath, rfl⟩, (), ?_, ?_⟩
    · rw [ofList_entries, checkEdges_ok_iff]
      exact List.forall_mem_map.mpr hedges
    · rw [ofList_entries]

/-- The document of the nodes is read as it was written, if no depth is too long. The texts in it
    are read back whatever they are. -/
theorem isDocument_nodeMembers
    (hdepths : ∀ e ∈ g.nodes.entries, ∀ n ∈ e.2.depth, isTooLong n = false) :
    Json.IsDocument Json.IsExact (Json.mapOf (nodeMembers g.nodes.entries)) := by
  refine .map ?_ (List.forall_mem_map.mpr fun e he => ModuleNode.isDocument_members (hdepths e he))
  rw [nodeMembers, List.map_map]
  exact g.nodes.nodup_keys

/-- A graph whose numbers are not too long can be written down. Nor is there a key that could not be
    written. -/
theorem obstacle?_members
    (hdepths : ∀ e ∈ g.nodes.entries, ∀ n ∈ e.2.depth, isTooLong n = false)
    (hexcluded : isTooLong g.excludedImports = false) :
    Json.obstacle? false (Json.mapOf (g.members builtAt)) = none := by
  rw [Json.obstacle?_mapOf_iff]
  intro e he
  simp only [members, List.mem_cons, List.not_mem_nil, or_false] at he
  rcases he with rfl | rfl | rfl | rfl
  · exact (isDocument_nodeMembers hdepths).obstacle?_eq_none
  · exact (Json.isDocument_texts _).obstacle?_eq_none
  · rfl
  · simp [Json.obstacle?, Json.scalarObstacle?, hexcluded]

/-- The text of a graph's document is read as that of the graph with some time, if its numbers
    are not too long. A time that is no number is written as such, and read as one that is none
    either. -/
theorem exists_isReading (g : ImportGraph)
    (hdepths : ∀ e ∈ g.nodes.entries, ∀ n ∈ e.2.depth, isTooLong n = false)
    (hexcluded : isTooLong g.excludedImports = false) (ascii : Bool) :
    ∃ builtAt, Json.IsReading (Json.ReadsAs ascii) (Json.mapOf (g.members g.builtAt))
      (Json.mapOf (g.members builtAt)) := by
  obtain ⟨builtAt, hfloat⟩ := Json.exists_readsAs_float ascii g.builtAt
  have hexact : ∀ s, Json.IsExact s → Json.ReadsAs ascii s s := fun s hs => hs.readsBack ascii
  have hnodes := isDocument_nodeMembers hdepths
  refine ⟨builtAt, @Json.IsReading.map _ [
    ("nodes", Json.mapOf (nodeMembers g.nodes.entries), Json.mapOf (nodeMembers g.nodes.entries)),
    ("entryPoints", .list (g.entryPoints.map Data.text), .list (g.entryPoints.map Data.text)),
    ("builtAt", .float g.builtAt, .float builtAt),
    ("excludedImports", .int g.excludedImports, .int g.excludedImports)] (by simp) fun e he => ?_⟩
  simp only [List.mem_cons, List.not_mem_nil, or_false] at he
  rcases he with rfl | rfl | rfl | rfl
  · exact hnodes.isReading hexact
  · exact (Json.isDocument_texts _).isReading hexact
  · exact .scalar hfloat
  · exact .scalar (Json.readsBack_int ascii hexcluded)

end ImportGraph

end Backlog
