import Backlog.Proofs.Graph.Building
import Backlog.Proofs.Json.Reading
import Mathlib.Algebra.Group.Action.Defs
import Mathlib.Algebra.Order.BigOperators.Group.List

namespace Backlog

open Backlog.Number Backlog.Text

/-!
# Import graphs to documents and back

Both directions are stated at once: from a graph to its document, its text and back; and from a
document to the graph and back, where what the graph does not keep is lost, and what was missing is
filled in. Times are doubles, and those that are no number are left out of the first.

* `ImportGraph.isDocument_members` — the document of a graph that was built at a finite time is read
  as it was written;
* `ImportGraph.exists_isReadFrom` — what a graph has of the document that it is read from;
* `ImportGraph.isConsistent_of_ofData` — its nodes are filed under their paths, and all neighbours
  are nodes;
* `ImportGraph.IsReadFrom.toData?` — it is written as that document, without the members that no
  node keeps and with those that were absent;
* `ImportGraph.document_round_trips` — graphs come back from the texts of their documents, and
  documents from the graphs that are read from them.
-/

/-- The value under a text key is one of the values. So what holds of all values holds of it. -/
theorem Data.exists_mem_of_field? {fields : List (Scalar × Data)} {key : String} {d : Data}
    (h : Data.field? fields key = some d) : ∃ e ∈ fields, e.2 = d := by
  obtain ⟨e, hfind, heq⟩ := Option.map_eq_some_iff.mp h
  exact ⟨e, List.mem_of_find?_eq_some hfind, heq⟩

namespace ImportGraph

variable {g : ImportGraph} {d : Data}

/-! ### From a graph to its document -/

/-- The document of a graph that was built at a finite time is read as it was written, if its
    numbers are not too long. An infinite time, or one that is no number, is not read as it was
    written. -/
theorem isDocument_members (hdepths : ∀ e ∈ g.nodes.entries, ∀ n ∈ e.2.depth, isTooLong n = false)
    (hexcluded : isTooLong g.excludedImports = false) (hbuiltAt : g.builtAt.IsFinite)
    (ascii : Bool) :
    Json.IsDocument (Json.ReadsBack ascii) (Json.mapOf (g.members g.builtAt)) := by
  have hexact : ∀ s, Json.IsExact s → Json.ReadsBack ascii s := fun s hs => hs.readsBack ascii
  refine .map (by simp [members]) fun e he => ?_
  simp only [members, List.mem_cons, List.not_mem_nil, or_false] at he
  rcases he with rfl | rfl | rfl | rfl
  · exact (isDocument_nodeMembers hdepths).mono hexact
  · exact (Json.isDocument_texts _).mono hexact
  · exact .scalar (Json.readsBack_float ascii hbuiltAt)
  · exact .scalar (Json.readsBack_int ascii hexcluded)

/-- Modules of a list that fits a memory, each with such a list of imports, have no more imports
    together than can be written down. The product of the two sizes is far from having too many
    digits. -/
theorem isTooLong_imports {modules : List SourceModule} (hmodules : IsListSize modules.length)
    (himports : ∀ m ∈ modules, IsListSize m.imports.length) :
    isTooLong (modules.flatMap SourceModule.imports).length = false := by
  have hle : (modules.flatMap SourceModule.imports).length ≤ modules.length * 2 ^ 63 := by
    rw [List.length_flatMap]
    have hsum := List.sum_le_card_nsmul (modules.map fun m => m.imports.length) (2 ^ 63)
      (List.forall_mem_map.mpr fun m hm => (himports m hm).le)
    rwa [List.length_map, smul_eq_mul] at hsum
  refine isTooLong_of_lt_two_pow (k := 126) (Nat.lt_of_le_of_lt hle ?_) (by decide)
  calc modules.length * 2 ^ 63 < 2 ^ 63 * 2 ^ 63 := Nat.mul_lt_mul_of_pos_right hmodules (by decide)
    _ = 2 ^ 126 := by rw [← Nat.pow_add]

/-! ### From a document to its graph -/

/-- What a graph has of the members that it is read from, and of the nodes among these. -/
structure IsReadFrom (g : ImportGraph) (fields raw : List (Scalar × Data)) : Prop where
  nodes : Data.field? fields "nodes" = some (.map raw)
  entryPoints : Data.field? fields "entryPoints" = some (.list (g.entryPoints.map Data.text))
  builtAt : ∃ time, Data.field? fields "builtAt" = some time ∧ toBinary64 time = .ok g.builtAt
  excludedImports :
    (Data.field? fields "excludedImports").getD (.int 0) = .int g.excludedImports
  entries : ∃ read, readNodes raw = .ok read ∧ g.nodes = OrderedMap.ofList read
  edges : checkEdges g.nodes g.nodes.values = .ok ()

theorem readTime_ok {found : Option Data} {time : Data} (h : readTime found = .ok time) :
    found = some time := by
  unfold readTime at h
  split at h
  · exact congrArg some (Except.ok.inj h)
  · exact congrArg some (Except.ok.inj h)
  · cases h

/-- A graph is read from a mapping, and it has what the mapping says. The parts are those of the
    reader, in its order. -/
theorem exists_isReadFrom (h : ofData d = .ok g) :
    ∃ fields raw, d = .map fields ∧ g.IsReadFrom fields raw := by
  unfold ofData at h
  split at h
  · rename_i fields
    dsimp only at h
    split at h
    · rename_i hnodes
      split at h
      · rename_i items hentries
        split at h
        · rename_i htexts
          simp only [bind_ok_iff, pure_ok_iff] at h
          obtain ⟨raw, rfl, texts, rfl, time, htime, h⟩ := h
          -- A count that is absent is zero.
          have hexcluded : ∃ count,
              (Data.field? fields "excludedImports").getD (.int 0) = .int count ∧
              (do
                let nodes ← readNodes raw
                checkEdges (OrderedMap.ofList nodes) (OrderedMap.ofList nodes).values
                let builtAt ← toBinary64 time
                return (⟨OrderedMap.ofList nodes, texts, builtAt, count⟩ : ImportGraph)) =
                  .ok g := by
            split at h
            · rename_i hfield
              exact ⟨0, by rw [hfield]; rfl, h⟩
            · rename_i n hfield
              exact ⟨n, by rw [hfield]; rfl, h⟩
            · cases h
          obtain ⟨count, hcount, h⟩ := hexcluded
          simp only [bind_ok_iff, pure_ok_iff] at h
          obtain ⟨read, hread, _, hedges, builtAt, hbuiltAt, rfl⟩ := h
          rw [Data.texts?_eq_some_iff] at htexts
          exact ⟨fields, raw, rfl, hnodes, htexts ▸ hentries, ⟨time, readTime_ok htime, hbuiltAt⟩,
            hcount, ⟨read, hread, rfl⟩, hedges⟩
        · cases h
      · cases h
    · cases h
  · cases h

/-- A graph that is read is consistent. What is asked of a document is what consistency is. -/
theorem isConsistent_of_ofData (h : ofData d = .ok g) : g.IsConsistent := by
  obtain ⟨fields, raw, rfl, hread⟩ := exists_isReadFrom h
  obtain ⟨read, hnodes, heq⟩ := hread.entries
  have hpaths := (readNodes_ok_iff.mp hnodes).1
  refine ⟨fun e he => ?_, fun e he => ?_⟩
  · rw [heq] at he
    exact hpaths e (OrderedMap.mem_of_mem_ofList he)
  · exact checkEdges_ok_iff.mp hread.edges e.2 (List.mem_map_of_mem he)

/-- A graph that is read is written as the members that it was read from, without those that no node
    keeps, if no key among the nodes comes twice. So nothing but what is passed over is lost. -/
theorem IsReadFrom.toData? {fields raw : List (Scalar × Data)} (h : g.IsReadFrom fields raw)
    (hkeys : (raw.map Prod.fst).Nodup) (hdepths : g.HasDepths) :
    g.toData? = .ok (Json.mapOf [
      ("nodes", .map (raw.map fun e => (e.1, ModuleNode.kept e.2))),
      ("entryPoints", (Data.field? fields "entryPoints").getD .null),
      ("builtAt", .float g.builtAt),
      ("excludedImports", (Data.field? fields "excludedImports").getD (.int 0))]) := by
  obtain ⟨read, hread, heq⟩ := h.entries
  obtain ⟨_, hkept⟩ := readNodes_ok_iff.mp hread
  have hnodup : (read.map Prod.fst).Nodup := by
    have hmap : raw.map Prod.fst = (read.map Prod.fst).map Scalar.text := by
      have := congrArg (List.map Prod.fst) hkept
      simpa [Json.pairsOf, nodeMembers, Function.comp_def] using this
    exact List.Nodup.of_map _ (hmap ▸ hkeys)
  have hentries : g.nodes.entries = read := by rw [heq, OrderedMap.entries_ofList hnodup]
  rw [toData?_ok_iff]
  refine ⟨hdepths, ?_⟩
  rw [members, h.entryPoints, h.excludedImports, hkept, hentries]
  rfl

/-! ### There and back -/

/-- A graph that is built, of lists that fit a memory, has a document, whose text is read as the
    document, which is read as the graph: the same nodes in the same order, with the same
    neighbours, marks and distances. Whatever graph is read from a document is consistent, and its
    document is the one that it was read from, but for members that no node keeps, distances that
    were absent and are null, and a count that was absent and is zero. -/
theorem document_round_trips :
    (∀ (modules : List SourceModule) (entryPoints : List String) (maxDepth : Option Int)
        (builtAt : Binary64) (style : Json.Style),
      IsListSize modules.length → (∀ m ∈ modules, IsListSize m.imports.length) →
      builtAt.IsFinite → style.IsReadable →
      ∃ d, (ofModules modules entryPoints maxDepth builtAt).toData? = .ok d ∧
        Json.obstacle? false d = none ∧ Json.parse (Json.writeText style d) = .ok d ∧
        ofData d = .ok (ofModules modules entryPoints maxDepth builtAt)) ∧
    (∀ (text : String) (d : Data) (g : ImportGraph),
      Json.parse text = .ok d → ofData d = .ok g → g.HasDepths →
      g.IsConsistent ∧ ∃ fields nodes entryPoints time, d = .map fields ∧
        Data.field? fields "nodes" = some (.map nodes) ∧
        Data.field? fields "entryPoints" = some entryPoints ∧
        Data.field? fields "builtAt" = some time ∧ toBinary64 time = .ok g.builtAt ∧
        g.toData? = .ok (Json.mapOf [
          ("nodes", .map (nodes.map fun e => (e.1, ModuleNode.kept e.2))),
          ("entryPoints", entryPoints),
          ("builtAt", .float g.builtAt),
          ("excludedImports", (Data.field? fields "excludedImports").getD (.int 0))])) := by
  constructor
  · intro modules entryPoints maxDepth builtAt style hmodules himports hfinite hstyle
    obtain ⟨hfits, hdepths, hexcluded⟩ := fits_ofModules hmodules
      (isTooLong_imports hmodules himports)
    have hdoc := isDocument_members hdepths hexcluded hfinite style.ascii
    exact ⟨_, toData?_ok_iff.mpr ⟨hfits, rfl⟩, obstacle?_members hdepths hexcluded,
      Json.parse_writeText hstyle hdoc, ofData_members_iff.mpr ⟨isConsistent_ofModules, rfl⟩⟩
  · intro text d g hparse hread hdepths
    refine ⟨isConsistent_of_ofData hread, ?_⟩
    obtain ⟨fields, nodes, rfl, hfrom⟩ := exists_isReadFrom hread
    obtain ⟨time, htime, hbuiltAt⟩ := hfrom.builtAt
    -- A mapping that is read from a text has different keys.
    obtain ⟨e, he, hnodes⟩ := Data.exists_mem_of_field? hfrom.nodes
    have hdoc := (Json.isDocument_of_parse hparse).value he
    rw [hnodes] at hdoc
    have hwritten := hfrom.toData? hdoc.nodup_keys hdepths
    rw [hfrom.entryPoints] at hwritten
    exact ⟨fields, nodes, _, time, rfl, hfrom.nodes, hfrom.entryPoints, htime, hbuiltAt, hwritten⟩

/-- Two modules that import each other, and one of them a package, next to a module on its own. -/
def ringModules : List SourceModule := [
  ⟨"/p/a.ts", [⟨"./b", 1, some "/p/b.ts"⟩, ⟨"react", 2, none⟩]⟩,
  ⟨"/p/b.ts", [⟨"./a", 1, some "/p/a.ts"⟩]⟩,
  ⟨"/p/c.ts", []⟩]

/-- A document with a note, which no node keeps, and without a distance and a count. -/
def bareDocument : Data := Json.mapOf [
  ("nodes", Json.mapOf [
    ("/p/a.ts", Json.mapOf [("path", .text "/p/a.ts"), ("note", .bool true),
      ("dependencies", .list []), ("dependents", .list [.text "/p/a.ts"]),
      ("isEntryPoint", .bool false)])]),
  ("entryPoints", .list [.text "/p/b.ts"]), ("builtAt", .int 2)]

/-- The graph that it is read as. -/
def bareGraph : ImportGraph :=
  ⟨.ofList [("/p/a.ts", ⟨"/p/a.ts", [], ["/p/a.ts"], false, none⟩)], ["/p/b.ts"],
    .finite false (2 ^ 52) (-51), 0⟩

/-- The bare document is one that is read back exactly. -/
theorem isDocument_bareDocument : Json.IsDocument Json.IsExact bareDocument := by
  have hnode : Json.IsDocument Json.IsExact (Json.mapOf [("path", .text "/p/a.ts"),
      ("note", .bool true), ("dependencies", .list []), ("dependents", .list [.text "/p/a.ts"]),
      ("isEntryPoint", .bool false)]) := by
    refine .map (by decide) fun e he => ?_
    simp only [List.mem_cons, List.not_mem_nil, or_false] at he
    rcases he with rfl | rfl | rfl | rfl | rfl
    · exact .scalar trivial
    · exact .scalar trivial
    · exact Json.isDocument_texts []
    · exact Json.isDocument_texts ["/p/a.ts"]
    · exact .scalar trivial
  refine .map (by decide) fun e he => ?_
  simp only [List.mem_cons, List.not_mem_nil, or_false] at he
  rcases he with rfl | rfl | rfl
  · exact .map (by decide) (List.forall_mem_singleton.mpr hnode)
  · exact Json.isDocument_texts ["/p/b.ts"]
  · exact .scalar (isTooLong_of_isListSize (n := 2) (by decide : 2 < 2 ^ 63))

/-- The graph of the ring comes back from its document, and the bare document is written again with
    what it lacked. -/
theorem sample_document_round_trips :
    (∃ d, (ofModules ringModules ["/p/a.ts"] none (.finite false (3 * 2 ^ 51) (-52))).toData? =
        .ok d ∧
      Json.parse (Json.writeText .asciiLines d) = .ok d ∧
      ofData d = .ok (ofModules ringModules ["/p/a.ts"] none (.finite false (3 * 2 ^ 51) (-52)))) ∧
    Json.parse (Json.writeText .asciiLines bareDocument) = .ok bareDocument ∧
      ofData bareDocument = .ok bareGraph ∧ bareGraph.HasDepths ∧ bareGraph.IsConsistent ∧
      bareGraph.toData? = .ok (Json.mapOf [
        ("nodes", Json.mapOf [
          ("/p/a.ts", Json.mapOf [("path", .text "/p/a.ts"), ("dependencies", .list []),
            ("dependents", .list [.text "/p/a.ts"]), ("isEntryPoint", .bool false),
            ("depth", .null)])]),
        ("entryPoints", .list [.text "/p/b.ts"]),
        ("builtAt", .float (.finite false (2 ^ 52) (-51))), ("excludedImports", .int 0)]) := by
  have hmodules : IsListSize ringModules.length := show 3 < 2 ^ 63 by decide
  have himports : ∀ m ∈ ringModules, IsListSize m.imports.length := by
    simp [ringModules, IsListSize]
  have hfinite : (Binary64.finite false (3 * 2 ^ 51) (-52)).IsFinite :=
    ⟨by decide, by decide, by decide, by decide⟩
  have hparse : Json.parse (Json.writeText .asciiLines bareDocument) = .ok bareDocument :=
    Json.parse_writeText Json.isReadable_asciiLines
      (isDocument_bareDocument.mono fun _ hs => hs.readsBack _)
  have hread : ofData bareDocument = .ok bareGraph := rfl
  have hdepths : bareGraph.HasDepths := by
    intro e he n hn
    obtain rfl := List.mem_singleton.mp he
    cases hn
  obtain ⟨d, hdata, _, htext, hback⟩ := document_round_trips.1 ringModules ["/p/a.ts"] none
    (.finite false (3 * 2 ^ 51) (-52)) .asciiLines hmodules himports hfinite
    Json.isReadable_asciiLines
  obtain ⟨hconsistent, fields, nodes, entryPoints, _, hfields, hnodes, hentries, _, _, hwritten⟩ :=
    document_round_trips.2 _ bareDocument bareGraph hparse hread hdepths
  obtain rfl := Data.map.inj hfields
  obtain rfl := Data.map.inj (Option.some.inj hnodes)
  obtain rfl := Option.some.inj hentries
  exact ⟨⟨d, hdata, htext, hback⟩, hparse, hread, hdepths, hconsistent, hwritten⟩

end ImportGraph

end Backlog
