import Backlog.Proofs.Cache.Holdings
import Backlog.Proofs.Cache.Recall
import Backlog.Proofs.Files.RealPaths

namespace Backlog

open Backlog.Files Backlog.Files.FileTree Backlog.Number Backlog.Text

/-!
# Calls and edits, interleaved

Several calls use one cache of graphs while the files that their builder reads are edited. A call
looks up its key, has the graph built if there is none, and stores it; files may be edited after each
of these steps.

* `GraphUse.Step`, `GraphUse.Run` — one step of a call or one edit, and many of them;
* `GraphUse.run_of_ofScope` — a call of `ImportGraph.ofScope` is one that nothing interrupts;
* `GraphUse.IsSound`, `Step.isSound`, `Run.isSound` — what every step preserves: a file that has a
  time again has its content again, and the cache holds nothing but graphs that were stored;
* `GraphUse.content_eq_iff_of_hit` — so the files that guard a graph that is found are as they were
  when it was stored. They are as the builder read them just if they still were so then.
-/

/-- A cache of graphs with a builder that reads some files. -/
structure GraphUse where
  cache : GraphCache
  builder : Builder
  /-- The files that are nodes of the graphs. -/
  IsSource : String → Prop
  isSpelled : cache.store.folder.IsSpelled
  isSource_of_built : ∀ request graph, builder request = .ok graph →
    ∀ path ∈ graph.nodes.keys, IsSource path

namespace GraphUse

/-- A call that has found nothing in the cache. -/
structure MissedCall where
  scope : DependencyScope
  root : Path
  key : GraphKey

/-- A call whose graph has been built, and the files as the builder read them. -/
structure BuiltCall where
  key : GraphKey
  graph : ImportGraph
  seen : FileTree

/-- A call whose graph has been stored, and the files as they were when their times were taken. -/
structure StoredCall extends BuiltCall where
  found : FileTree

/-- The files and the calls. -/
structure World where
  tree : FileTree
  /-- All that the files have been so far. -/
  past : List FileTree
  missed : List MissedCall
  built : List BuiltCall
  stored : List StoredCall

/-- Before the first call. -/
def World.start (t : FileTree) : World := ⟨t, [t], [], [], []⟩

variable (use : GraphUse)

/-- Sources are edited: those that are not what they were are gone, or they have a time that they
    never had before. Nothing is added to the cache. -/
structure IsEdit (w : World) (after : FileTree) : Prop where
  source : ∀ path, use.IsSource path → w.tree.SameFile after path ∨ after.time? path = .ok none ∨
    ∀ earlier ∈ w.past, after.time? path ≠ earlier.time? path
  apart : ∀ name node, use.cache.store.MayHold after "dependency-graph" name node →
    use.cache.store.MayHold w.tree "dependency-graph" name node

/-- An edit, or a step of one of the calls. The cache is apart from the sources. -/
inductive Step (w : World) : World → Prop
  | edit {after : FileTree} (h : use.IsEdit w after) :
      Step w { w with tree := after, past := after :: w.past }
  | lookup {scope : DependencyScope} {root : Path} {key : GraphKey}
      (hkey : GraphKey.ofScope scope ⟨w.tree, root⟩ = .ok key)
      (hmiss : use.cache.get? w.tree key = .ok none) :
      Step w { w with missed := ⟨scope, root, key⟩ :: w.missed }
  | build {before rest : List MissedCall} {call : MissedCall} {graph : ImportGraph}
      (hcall : w.missed = before ++ call :: rest)
      (hbuilt : use.builder (call.scope.request ⟨w.tree, call.root⟩) = .ok graph) :
      Step w { w with
        missed := before ++ rest
        built := ⟨call.key, graph, w.tree⟩ :: w.built }
  | store {before rest : List BuiltCall} {call : BuiltCall} {now : Int} {after : FileTree}
      (hcall : w.built = before ++ call :: rest)
      (hset : use.cache.set w.tree now call.key call.graph = .ok after)
      (hapart : ∀ path, use.IsSource path → w.tree.SameFile after path) :
      Step w { w with
        tree := after
        past := after :: w.past
        built := before ++ rest
        stored := ⟨call, w.tree⟩ :: w.stored }

/-- Any number of steps. -/
inductive Run (w : World) : World → Prop
  | refl : Run w w
  | step {w' w'' : World} (h : Run w w') (hstep : use.Step w' w'') : Run w w''

/-- What every step preserves. -/
structure IsSound (w : World) : Prop where
  mem_past : w.tree ∈ w.past
  content : ∀ earlier ∈ w.past, ∀ path, use.IsSource path →
    w.tree.time? path = earlier.time? path → w.tree.content? path = earlier.content? path
  built : ∀ call ∈ w.built, ∀ path ∈ call.graph.nodes.keys, use.IsSource path
  stored : ∀ call ∈ w.stored, call.found ∈ w.past ∧
    ∀ path ∈ call.graph.nodes.keys, use.IsSource path
  holds : use.cache.store.HoldsOnly w.tree "dependency-graph" fun bytes =>
    ∃ call ∈ w.stored, use.cache.IsRecord call.found call.key call.graph bytes

variable {use} {w w' : World} {t : FileTree}

/-- Where nothing has happened, nothing is stored and the past is the tree itself. -/
theorem isSound_start (h : use.cache.store.IsVacant t "dependency-graph") :
    use.IsSound (.start t) where
  mem_past := List.mem_singleton_self t
  content := by
    rintro _ hearlier path _ _
    rw [List.mem_singleton.mp hearlier]
    rfl
  built := nofun
  stored := nofun
  holds := h.holdsOnly

/-- A file that has a time again has its content again, also after the files have changed. A source
    changes only if its time becomes one that no file has had before. -/
theorem IsSound.content_cons (h : use.IsSound w) {after : FileTree}
    (hsource : ∀ path, use.IsSource path → w.tree.SameFile after path ∨
      after.time? path = .ok none ∨ ∀ earlier ∈ w.past, after.time? path ≠ earlier.time? path) :
    ∀ earlier ∈ after :: w.past, ∀ path, use.IsSource path →
      after.time? path = earlier.time? path → after.content? path = earlier.content? path := by
  intro earlier hearlier path hpath htime
  rcases List.mem_cons.mp hearlier with rfl | hpast
  · rfl
  rcases hsource path hpath with ⟨hsame, hcontent⟩ | hgone | hnew
  · rw [hcontent, h.content earlier hpast path hpath (hsame ▸ htime)]
  · rw [content?_of_time?_none hgone, content?_of_time?_none (htime ▸ hgone)]
  · exact absurd htime (hnew earlier hpast)

/-- Each step leaves the history sound, with a case for each kind: an edit, a look-up that misses, a
    build, and a graph that is stored. -/
theorem Step.isSound (hstep : use.Step w w') (h : use.IsSound w) : use.IsSound w' := by
  cases hstep with
  | @edit after hedit =>
    exact {
      mem_past := List.mem_cons_self
      content := h.content_cons hedit.source
      built := h.built
      stored := fun call hcall =>
        ⟨List.mem_cons_of_mem _ (h.stored call hcall).1, (h.stored call hcall).2⟩
      holds := fun name node hmay => h.holds name node (hedit.apart name node hmay) }
  -- A look-up changes nothing at all.
  | lookup _ _ => exact ⟨h.mem_past, h.content, h.built, h.stored, h.holds⟩
  | build hcall hbuilt =>
    refine ⟨h.mem_past, h.content, ?_, h.stored, h.holds⟩
    exact List.forall_mem_cons.mpr ⟨use.isSource_of_built _ _ hbuilt, h.built⟩
  | @store before rest call now after hcall hset hapart =>
    have hmem : call ∈ w.built := by simp [hcall]
    obtain ⟨bytes, hrecord, rfl⟩ := GraphCache.set_ok_iff_exists_record.mp hset
    exact {
      mem_past := List.mem_cons_self
      content := h.content_cons fun path hpath => .inl (hapart path hpath)
      built := fun other hother => h.built other (by
        rw [hcall]
        exact (List.mem_append.mp hother).elim (List.mem_append_left _)
          fun hrest => List.mem_append_right _ (List.mem_cons_of_mem _ hrest))
      stored := List.forall_mem_cons.mpr ⟨⟨List.mem_cons_of_mem _ h.mem_past, h.built call hmem⟩,
        fun call hcall => ⟨List.mem_cons_of_mem _ (h.stored call hcall).1, (h.stored call hcall).2⟩⟩
      holds := by
        refine (h.holds.write CacheStore.isPart_graphs (GraphCache.isSlot_slotName _) use.isSpelled
          bytes now).mono ?_
        -- Under a name there is now what was stored last, or what was there before.
        rintro other (rfl | ⟨old, hold, hother⟩)
        · exact ⟨_, List.mem_cons_self, hrecord⟩
        · exact ⟨old, List.mem_cons_of_mem _ hold, hother⟩ }

/-- So does each run, by induction along its steps. -/
theorem Run.isSound (hrun : use.Run w w') (h : use.IsSound w) : use.IsSound w' := by
  induction hrun with
  | refl => exact h
  | step _ hstep ih => exact hstep.isSound ih

/-- To write a source is an edit if the time is new and the file does not have the name of a slot. -/
theorem isEdit_write {written : String} {old content : Bytes} {time : Int} {after : FileTree}
    (hread : w.tree.read written = .ok old) (h : w.tree.write written content time = .ok after)
    (hnew : ∀ path, use.IsSource path → ∀ earlier ∈ w.past, earlier.time? path ≠ .ok (some time))
    (hplace : ∀ place node above name, w.tree.locate written = .ok ⟨place, node⟩ →
      place ≠ above ++ [name ++ ".json"]) : use.IsEdit w after where
  source := by
    intro path hpath
    rcases sameFile_of_write hread h path with hsame | hgone | htime
    · exact .inl hsame
    · exact .inr (.inl hgone)
    · exact .inr (.inr fun earlier hearlier heq => hnew path hpath earlier hearlier (heq ▸ htime))
  apart := by
    intro name node hmay
    obtain ⟨names, since, hlocate⟩ := read_ok_iff.mp hread
    obtain ⟨place, hfound, h⟩ := bind_ok_iff.mp h
    rw [hlocate] at hfound
    obtain rfl := Except.ok.inj hfound
    obtain rfl := Except.ok.inj h
    have hput := find?_put_of_find? (node_of_locate hlocate).1.symm (.file content time)
    rcases CacheStore.MayHold.put hput hmay with ⟨⟨above, hname⟩, _⟩ | hold
    · exact absurd hname (hplace _ _ above name hlocate)
    · exact hold

/-- A call that nothing interrupts: what it finds was found, or it is built and stored in a row. The
    cache's own writes are steps, since they are apart from the sources. -/
theorem run_of_ofScope {scope : DependencyScope} {root : Path} {now : Int} {found : ScopeGraph}
    (h : ImportGraph.ofScope scope ⟨w.tree, root⟩ (some use.cache) now use.builder = .ok found)
    (hapart : ∀ path, use.IsSource path → w.tree.SameFile found.tree path) :
    ∃ key w', GraphKey.ofScope scope ⟨w.tree, root⟩ = .ok key ∧ use.Run w w' ∧
      w'.tree = found.tree ∧
      (w' = w ∧ use.cache.get? w.tree key = .ok (some found.graph) ∨
        w'.stored = ⟨⟨key, found.graph, w.tree⟩, w.tree⟩ :: w.stored) := by
  obtain ⟨key, hkey, ⟨cache, hcache, hget, htree⟩ |
    ⟨hbuilt, ⟨hnone, _⟩ | ⟨cache, hcache, hmiss, hset⟩⟩⟩ := ImportGraph.ofScope_ok h
  · obtain rfl := Option.some.inj hcache
    exact ⟨key, w, hkey, .refl, htree.symm, .inl ⟨rfl, hget⟩⟩
  · cases hnone
  · obtain rfl := Option.some.inj hcache
    let missed : World := { w with missed := ⟨scope, root, key⟩ :: w.missed }
    let built : World := { w with built := ⟨key, found.graph, w.tree⟩ :: w.built }
    have hlookup : use.Step w missed := .lookup hkey hmiss
    have hbuild : use.Step missed built := @Step.build use missed [] w.missed _ _ rfl hbuilt
    exact ⟨key, _, hkey, ((Run.refl.step hlookup).step hbuild).step
      (@Step.store use built [] w.built _ now _ rfl hset hapart), rfl, .inr rfl⟩

/-- A graph that is found under a key comes from a call: the cache holds its record. -/
structure Serves (use : GraphUse) (w : World) (key : GraphKey) (graph : ImportGraph)
    (call : StoredCall) : Prop where
  stored : call ∈ w.stored
  record : ∃ bytes, use.cache.store.read w.tree "dependency-graph" (GraphCache.slotName key) =
    .ok (some bytes) ∧ use.cache.IsRecord call.found call.key call.graph bytes
  graph_eq : graph = { call.graph with builtAt := graph.builtAt }

variable {key : GraphKey} {graph : ImportGraph}

/-- What is found is what the record is of that is read, and its files have their times. A lookup
    compares the times that were recorded with those that the files have. -/
theorem time?_eq_of_hit {call : StoredCall} (hhit : use.cache.get? w.tree key = .ok (some graph))
    {bytes : Bytes}
    (hread : use.cache.store.read w.tree "dependency-graph" (GraphCache.slotName key) =
      .ok (some bytes)) (hrecord : use.cache.IsRecord call.found call.key call.graph bytes) :
    graph = { call.graph with builtAt := graph.builtAt } ∧
      ∀ path ∈ call.graph.sample use.cache.maxSample,
        w.tree.time? path = call.found.time? path := by
  obtain ⟨hshort, _⟩ := GraphCache.exists_read_of_get? hhit
  obtain ⟨builtAt, result, hget, hresult⟩ := hrecord.get? hshort hread
  rw [hhit] at hget
  obtain ⟨⟨_, _, htimes⟩, rfl⟩ := (hresult graph).mp (Except.ok.inj hget).symm
  exact ⟨rfl, htimes⟩

/-- What is found was stored by a call. What is stored under the name of the key was written by one
    of the calls. -/
theorem IsSound.exists_serves (h : use.IsSound w)
    (hhit : use.cache.get? w.tree key = .ok (some graph)) :
    ∃ call, use.Serves w key graph call := by
  obtain ⟨_, stored, hread, hnone⟩ := GraphCache.exists_read_of_get? hhit
  obtain ⟨bytes, rfl⟩ := Option.ne_none_iff_exists'.mp fun heq => nomatch hnone heq
  obtain ⟨call, hstored, hrecord⟩ := h.holds.read CacheStore.isPart_graphs
    (GraphCache.isSlot_slotName key) use.isSpelled hread
  exact ⟨call, hstored, ⟨bytes, hread, hrecord⟩, (time?_eq_of_hit hhit hread hrecord).1⟩

/-- The files that guard a graph that is found have the content that its builder read just if they
    still had it when the graph was stored. The times were recorded when the graph was stored, so
    they say nothing about what happened to the files while it was built. -/
theorem content_eq_iff_of_hit (hvacant : use.cache.store.IsVacant t "dependency-graph")
    (hrun : use.Run (.start t) w) (hhit : use.cache.get? w.tree key = .ok (some graph)) :
    (∃ call, use.Serves w key graph call) ∧ ∀ call, use.Serves w key graph call →
      ((∀ path ∈ call.graph.sample use.cache.maxSample,
          w.tree.content? path = call.seen.content? path) ↔
        ∀ path ∈ call.graph.sample use.cache.maxSample,
          call.found.content? path = call.seen.content? path) := by
  have h := hrun.isSound (isSound_start hvacant)
  refine ⟨h.exists_serves hhit, fun call hserves => ?_⟩
  obtain ⟨bytes, hread, hrecord⟩ := hserves.record
  obtain ⟨_, htimes⟩ := time?_eq_of_hit hhit hread hrecord
  obtain ⟨hfound, hsource⟩ := h.stored call hserves.stored
  refine forall_congr' fun path => forall_congr' fun hpath => ?_
  rw [h.content call.found hfound path (hsource path (ImportGraph.mem_keys_of_mem_sample hpath))
    (htimes path hpath)]

/-! ### An edit before a graph is stored -/

/-- A source, and a cache with some graphs. -/
def editedTree (content : Bytes) (time : Int) (slots : List (String × Node)) : FileTree :=
  ⟨.folder [("p", .folder [("a.py", .file content time)]),
    ("cache", .folder [("dependency-graph", .folder slots)])], []⟩

/-- The imports that an analysis finds in the source: one if there is anything in it. -/
def importsIn (content : Bytes) : List ResolvedImport :=
  if content.isEmpty then [] else [⟨"b", 1, none⟩]

/-- Reads the source. -/
def readSource : Analyzer := fun project _ =>
  match project.tree.read "/p/a.py" with
  | .ok content => .ok [⟨"/p/a.py", importsIn content⟩]
  | .error _ => .error (.refused .noLanguage)

def editedUse : GraphUse where
  cache := ⟨⟨⟨0, ["cache"]⟩⟩, 50⟩
  builder := ImportGraph.build readSource (.zero false)
  IsSource := (· = "/p/a.py")
  isSpelled := by
    intro name hname
    rw [List.mem_singleton.mp hname]
    decide
  isSource_of_built := by
    intro request graph hgraph path hpath
    obtain ⟨modules, entries, hmodules, _, _, rfl⟩ := ImportGraph.build_ok_iff.mp hgraph
    rw [ImportGraph.keys_ofModules, mem_distinctTexts] at hpath
    unfold readSource at hmodules
    split at hmodules
    · obtain rfl := Except.ok.inj hmodules
      simpa using hpath
    · cases hmodules

/-- The scope of all calls. -/
def editedScope : DependencyScope := ⟨["a.py"], .connected, none, []⟩

/-- The graph of the source. -/
def editedGraph (content : Bytes) : ImportGraph :=
  .ofModules [⟨"/p/a.py", importsIn content⟩] ["/p/a.py"] none (.zero false)

theorem edited_names :
    namesOf "/p/a.py" = ["", "p", "a.py"] ∧ namesOf "cache/dependency-graph" =
      ["cache", "dependency-graph"] ∧ namesOf "cache/dependency-graph/b3819494b54e43a6.json" =
      ["cache", "dependency-graph", "b3819494b54e43a6.json"] ∧
      namesOf "cache/dependency-graph/.b3819494b54e43a6.tmp" =
        ["cache", "dependency-graph", ".b3819494b54e43a6.tmp"] := by
  decide

theorem edited_sizes :
    "p".utf8ByteSize = 1 ∧ "a.py".utf8ByteSize = 4 ∧ "/p/a.py".utf8ByteSize = 7 ∧
      "cache".utf8ByteSize = 5 ∧ "dependency-graph".utf8ByteSize = 16 ∧
      "b3819494b54e43a6.json".utf8ByteSize = 21 ∧ ".b3819494b54e43a6.tmp".utf8ByteSize = 21 ∧
      "cache/dependency-graph".utf8ByteSize = 22 ∧
      "cache/dependency-graph/b3819494b54e43a6.json".utf8ByteSize = 44 ∧
      "cache/dependency-graph/.b3819494b54e43a6.tmp".utf8ByteSize = 44 := by
  decide

variable (content later : Bytes) (time : Int) (slots : List (String × Node))

theorem locate_editedTree : (editedTree content time slots).locate "/p/a.py" =
    .ok ⟨["p", "a.py"], some (.file content time)⟩ := by
  have hstart : "/p/a.py".startsWith "/" = true := by decide +kernel
  simp [editedTree, locate, walk, Node.find?, Node.childNamed?, Path.isIdle, maxPathSize,
    maxNameSize, edited_names, edited_sizes, hstart]

theorem read_editedTree : (editedTree content time slots).read "/p/a.py" = .ok content :=
  read_ok_iff.mpr ⟨_, time, locate_editedTree content time slots⟩

/-- When the source of the example was last written. -/
theorem time?_editedTree : (editedTree content time slots).time? "/p/a.py" = .ok (some time) := by
  rw [time?, stat_ok_iff.mpr ⟨_, locate_editedTree content time slots⟩]

/-- Writing the source changes its content and its time, and nothing else. -/
theorem write_editedTree (since : Int) :
    (editedTree content time slots).write "/p/a.py" later since =
      .ok (editedTree later since slots) := by
  rw [FileTree.write, locate_editedTree]
  simp [editedTree, Node.put, Node.setEntry, Node.childNamed?, bind, Except.bind]

theorem linkCount_editedTree : (editedTree content time []).root.linkCount = 0 := rfl

/-- Without graphs in the cache there is no file but the source. So the section of the cache is
    vacant. -/
theorem find?_editedTree {names : List String} {node : Node}
    (hleaf : ∀ entries, node ≠ .folder entries)
    (h : (editedTree content time []).root.find? names = some node) :
    names = ["p", "a.py"] ∧ node = .file content time := by
  have hmem : (names, node) ∈ [(["p", "a.py"], Node.file content time)] :=
    Node.mem_leavesBelow h hleaf []
  exact Prod.mk.inj (List.mem_singleton.mp hmem)

theorem resolve_editedTree {names : List String} (h : ∀ name ∈ names, name = "p" ∨ name = "a.py") :
    (editedTree content time []).resolve ⟨1, names⟩ = .ok ⟨1, names⟩ := by
  have hnames : ∀ name ∈ ["p", "a.py"],
      (Path.isIdle name = false ∧ name ≠ "..") ∧ '\x00' ∉ name.toList := by
    decide
  have hclean : ∀ name ∈ names, (Path.isIdle name = false ∧ name ≠ "..") ∧ '\x00' ∉ name.toList :=
    fun name hname => hnames name (by simpa using h name hname)
  have hroot : (editedTree content time []).namesFromRoot ⟨1, names⟩ = names := rfl
  rw [(resolve_of_linkCount (linkCount_editedTree content time) (fun name hname =>
    (hclean name (hroot ▸ hname)).1) fun name hname => (hclean name hname).2).2, hroot]
  rfl

/-- The key of the scope of the example, which does not depend on what the source holds. -/
theorem key_editedTree : GraphKey.ofScope editedScope ⟨editedTree content time [], ⟨1, ["p"]⟩⟩ =
    .ok GraphCache.sampleKey := by
  have htext : Path.text ⟨1, ["p"]⟩ = "/p" := by decide
  rw [GraphKey.ofScope, resolve_editedTree content time (by simp)]
  simp [htext, editedScope, GraphCache.sampleKey, bind, Except.bind, pure, Except.pure]

/-- The graph of the example, with one module and what its source holds in its time. -/
theorem build_editedTree :
    editedUse.builder (editedScope.request ⟨editedTree content time [], ⟨1, ["p"]⟩⟩) =
      .ok (editedGraph content) := by
  have hread : readSource ⟨editedTree content time [], ⟨1, ["p"]⟩⟩ [] =
      .ok [⟨"/p/a.py", importsIn content⟩] := by
    rw [readSource, read_editedTree]
  refine ImportGraph.build_ok_iff.mpr ⟨_, ["/p/a.py"], hread, by simp, ?_, rfl⟩
  have hentry : Path.join ⟨1, ["p"]⟩ (Path.ofText "a.py") = ⟨1, ["p", "a.py"]⟩ := by decide
  have htext : Path.text ⟨1, ["p", "a.py"]⟩ = "/p/a.py" := by decide
  have hdistinct : distinctTexts ["/p/a.py"] = ["/p/a.py"] := by decide
  simp [Project.resolveEntries, Project.resolve, DependencyScope.request, editedScope, hentry,
    resolve_editedTree, htext, hdistinct, Except.map, bind, Except.bind, pure, Except.pure]

theorem slotName_sampleKey : GraphCache.slotName GraphCache.sampleKey = "b3819494b54e43a6" := by
  rw [GraphCache.slotName, ← (GraphKey.digest_ok_iff.mp GraphCache.sampleKey_digest).2]
  decide

/-- Where the graph of the example is stored, part by part. -/
theorem edited_paths :
    editedUse.cache.store.sectionPath "dependency-graph" = ⟨0, ["cache", "dependency-graph"]⟩ ∧
      (editedUse.cache.store.path "dependency-graph" "b3819494b54e43a6").text =
        "cache/dependency-graph/b3819494b54e43a6.json" ∧
      (editedUse.cache.store.path "dependency-graph" "b3819494b54e43a6").parent =
        ⟨0, ["cache", "dependency-graph"]⟩ ∧
      Path.text ⟨0, ["cache", "dependency-graph"]⟩ = "cache/dependency-graph" ∧
      (Path.child ⟨0, ["cache", "dependency-graph"]⟩ ("." ++ "b3819494b54e43a6" ++ ".tmp")).text =
        "cache/dependency-graph/.b3819494b54e43a6.tmp" := by
  decide

theorem store_write_editedTree (bytes : Bytes) (now : Int) :
    (editedUse.cache.store.write (editedTree content time []) "dependency-graph" "b3819494b54e43a6"
      bytes now).tree = editedTree content time [("b3819494b54e43a6.json", .file bytes now)] := by
  obtain ⟨_, hpath, hparent, hsection, hhidden⟩ := edited_paths
  have hfolder : (editedTree content time []).isFolder "cache/dependency-graph" = .ok true := by
    have hlocate : (editedTree content time []).locate "cache/dependency-graph" =
        .ok ⟨["cache", "dependency-graph"], some (.folder [])⟩ := by
      simp [editedTree, locate, walk, Node.find?, Node.childNamed?, Path.isIdle, maxPathSize,
        maxNameSize, edited_names, edited_sizes]
    exact isFolder_of_locate_folder hlocate
  unfold CacheStore.write
  simp only [hparent, hpath, hhidden]
  rw [makeFolders_of_isFolder (by rw [hsection, hfolder])]
  simp [editedTree, replace, locate, walk, Node.find?, Node.childNamed?, Path.isIdle, maxPathSize,
    maxNameSize, edited_names, edited_sizes, Node.put, Node.setEntry, bind, Except.bind]

theorem store_read_editedTree :
    editedUse.cache.store.read (editedTree content time []) "dependency-graph" "b3819494b54e43a6" =
      .ok none := by
  unfold CacheStore.read
  rw [edited_paths.2.1]
  simp [editedTree, FileTree.read, stat, locate, walk, Node.find?, Node.childNamed?, Path.isIdle,
    maxPathSize, maxNameSize, edited_names, edited_sizes, bind, Except.bind]

theorem store_read_editedTree_slot (bytes : Bytes) (now : Int) :
    editedUse.cache.store.read
      (editedTree content time [("b3819494b54e43a6.json", .file bytes now)]) "dependency-graph"
      "b3819494b54e43a6" = .ok (some bytes) := by
  unfold CacheStore.read
  rw [edited_paths.2.1]
  simp [editedTree, FileTree.read, stat, locate, walk, Node.find?, Node.childNamed?, Path.isIdle,
    maxPathSize, maxNameSize, edited_names, edited_sizes, bind, Except.bind]

/-- The source does not have the name of a slot. It does not end like one. -/
theorem not_slot_of_source (above : List String) (name : String) :
    ["p", "a.py"] ≠ above ++ [name ++ ".json"] := by
  intro heq
  have hlast := congrArg List.getLast? heq
  rw [List.getLast?_concat] at hlast
  have hchar := congrArg (fun s => s.toList.getLast?) (Option.some.inj hlast)
  simp at hchar

theorem isVacant_editedTree :
    editedUse.cache.store.IsVacant (editedTree content time []) "dependency-graph" := by
  refine CacheStore.isVacant_of_find? fun place name node hleaf hfound => ?_
  obtain ⟨hnames, _⟩ := find?_editedTree content time hleaf hfound
  exact not_slot_of_source place name hnames.symm

theorem mem_sample_editedGraph_iff {path : String} :
    path ∈ (editedGraph content).sample editedUse.cache.maxSample ↔ path = "/p/a.py" := by
  have hkeys : (editedGraph content).nodes.keys = ["/p/a.py"] := ImportGraph.keys_ofModules
  constructor
  · intro h
    have hmem := ImportGraph.mem_keys_of_mem_sample h
    rwa [hkeys, List.mem_singleton] at hmem
  · rintro rfl
    refine List.mem_append_left _ (List.mem_filter.mpr ⟨List.mem_singleton_self _, ?_⟩)
    rw [ImportGraph.contains, OrderedMap.contains_iff, hkeys]
    exact List.mem_singleton_self _

/-- The key has no limit, so none with too many digits. -/
theorem short_sampleKey : ∀ n ∈ GraphCache.sampleKey.maxDepth, isTooLong n = false := nofun

theorem miss_editedTree :
    editedUse.cache.get? (editedTree content time []) GraphCache.sampleKey = .ok none := by
  have hread := store_read_editedTree content time
  rw [← slotName_sampleKey] at hread
  exact GraphCache.get?_of_read_none short_sampleKey hread

/-- The source is written. The time is a new one, so the write is an edit. -/
theorem isEdit_editedTree (built : List BuiltCall) :
    editedUse.IsEdit ⟨editedTree content 1 [], [editedTree content 1 []], [], built, []⟩
      (editedTree later 2 []) := by
  refine isEdit_write (read_editedTree content 1 []) (write_editedTree content later 1 [] 2) ?_ ?_
  · rintro path rfl earlier hearlier
    rw [List.mem_singleton.mp hearlier, time?_editedTree]
    decide
  · intro place node above name hlocate heq
    rw [locate_editedTree] at hlocate
    obtain ⟨rfl, _⟩ := Place.mk.inj (Except.ok.inj hlocate)
    exact not_slot_of_source above name heq

/-- The graph of what the source was is stored. The record has the time of the later source. -/
theorem exists_set_editedTree : ∃ bytes,
    editedUse.cache.IsRecord (editedTree later 2 []) GraphCache.sampleKey (editedGraph content)
      bytes ∧
    editedUse.cache.set (editedTree later 2 []) 3 GraphCache.sampleKey (editedGraph content) =
      .ok (editedTree later 2 [("b3819494b54e43a6.json", .file bytes 3)]) := by
  have hdated : (editedTree later 2 []).IsDated := by
    intro names found time hfound
    obtain ⟨_, heq⟩ := find?_editedTree later 2 (fun _ => Node.noConfusion) hfound
    rw [(Node.file.inj heq).2]
    decide
  have himports : IsListSize (([⟨"/p/a.py", importsIn content⟩] : List SourceModule).flatMap
      SourceModule.imports).length := by
    rw [List.flatMap_singleton, importsIn]
    split
    · exact show 0 < 2 ^ 63 by decide
    · exact show 1 < 2 ^ 63 by decide
  obtain ⟨bytes, hrecord⟩ : ∃ bytes, editedUse.cache.IsRecord (editedTree later 2 [])
      GraphCache.sampleKey (editedGraph content) bytes :=
    GraphCache.exists_isRecord_ofModules short_sampleKey (show 1 < 2 ^ 63 by decide) himports
      (List.forall_mem_singleton.mpr (show '\x00' ∉ "/p/a.py".toList by decide)) hdated
  refine ⟨bytes, hrecord, GraphCache.set_ok_iff_exists_record.mpr ⟨bytes, hrecord, ?_⟩⟩
  rw [slotName_sampleKey, store_write_editedTree]

/-- The source is written after the graph has been built and before it is stored. So the graph that
    is found is of a source that is no more. -/
theorem exists_edited_run : ∃ w graph call,
    editedUse.Run (.start (editedTree content 1 [])) w ∧
      editedUse.cache.get? w.tree GraphCache.sampleKey = .ok (some graph) ∧
      editedUse.Serves w GraphCache.sampleKey graph call ∧
      call.graph = editedGraph content ∧ call.seen = editedTree content 1 [] ∧
      call.found = editedTree later 2 [] ∧ w.tree.content? "/p/a.py" = some later := by
  let before := editedTree content 1 []
  let after := editedTree later 2 []
  let missed : MissedCall := ⟨editedScope, ⟨1, ["p"]⟩, GraphCache.sampleKey⟩
  let built : BuiltCall := ⟨GraphCache.sampleKey, editedGraph content, before⟩
  have hlookup : editedUse.Step (.start before) ⟨before, [before], [missed], [], []⟩ :=
    .lookup (key_editedTree content 1) (miss_editedTree content 1)
  have hbuild : editedUse.Step ⟨before, [before], [missed], [], []⟩
      ⟨before, [before], [], [built], []⟩ :=
    @Step.build editedUse ⟨before, [before], [missed], [], []⟩ [] [] missed _ rfl
      (build_editedTree content 1)
  have hedit : editedUse.Step ⟨before, [before], [], [built], []⟩
      ⟨after, [after, before], [], [built], []⟩ := .edit (isEdit_editedTree content later _)
  obtain ⟨bytes, hrecord, hset⟩ := exists_set_editedTree content later
  let filled := editedTree later 2 [("b3819494b54e43a6.json", .file bytes 3)]
  have hstore : editedUse.Step ⟨after, [after, before], [], [built], []⟩
      ⟨filled, [filled, after, before], [], [], [⟨built, after⟩]⟩ := by
    refine @Step.store editedUse ⟨after, [after, before], [], [built], []⟩ [] [] built 3 filled rfl
      hset ?_
    rintro path rfl
    exact ⟨by rw [time?_editedTree, time?_editedTree],
      by rw [content?, content?, read_editedTree, read_editedTree]⟩
  -- The look-up comes upon the record, and the source has the time that was recorded.
  have hread := store_read_editedTree_slot later 2 bytes 3
  rw [← slotName_sampleKey] at hread
  obtain ⟨builtAt, result, hget, hresult⟩ := hrecord.get? short_sampleKey hread
  have htimes : ∀ path ∈ (editedGraph content).sample editedUse.cache.maxSample,
      filled.time? path = after.time? path := by
    intro path hpath
    rw [(mem_sample_editedGraph_iff content).mp hpath, time?_editedTree, time?_editedTree]
  obtain rfl := (hresult _).mpr ⟨⟨rfl, ImportGraph.isConsistent_ofModules, htimes⟩, rfl⟩
  exact ⟨_, _, ⟨built, after⟩, (((Run.refl.step hlookup).step hbuild).step hedit).step hstore, hget,
    ⟨List.mem_singleton_self _, ⟨bytes, hread, hrecord⟩, rfl⟩, rfl, rfl, rfl,
    by rw [content?, read_editedTree]; rfl⟩

/-- When the graph is found, a file that was edited after the graph had been built and before it was
    stored is not as the builder read it. -/
theorem hit_of_edited_source :
    editedUse.cache.store.IsVacant (editedTree [98] 1 []) "dependency-graph" ∧ ∃ w graph call path,
      editedUse.Run (.start (editedTree [98] 1 [])) w ∧
        editedUse.cache.get? w.tree GraphCache.sampleKey = .ok (some graph) ∧
        editedUse.Serves w GraphCache.sampleKey graph call ∧
        path ∈ call.graph.sample editedUse.cache.maxSample ∧
        w.tree.content? path ≠ call.seen.content? path := by
  refine ⟨isVacant_editedTree _ _, ?_⟩
  obtain ⟨w, graph, call, hrun, hhit, hserves, hgraph, hseen, _, hcontent⟩ :=
    exists_edited_run [98] []
  refine ⟨w, graph, call, "/p/a.py", hrun, hhit, hserves, ?_, ?_⟩
  · rw [hgraph, mem_sample_editedGraph_iff]
  · rw [hcontent, hseen, content?, read_editedTree]
    decide

/-- A file that is written with the same content is. -/
theorem hit_of_touched_source : ∃ w graph call,
    editedUse.Run (.start (editedTree [98] 1 [])) w ∧
      editedUse.cache.get? w.tree GraphCache.sampleKey = .ok (some graph) ∧
      editedUse.Serves w GraphCache.sampleKey graph call ∧
      ∀ path ∈ call.graph.sample editedUse.cache.maxSample,
        w.tree.content? path = call.seen.content? path := by
  obtain ⟨w, graph, call, hrun, hhit, hserves, hgraph, hseen, hfound, _⟩ :=
    exists_edited_run [98] [98]
  refine ⟨w, graph, call, hrun, hhit, hserves,
    ((content_eq_iff_of_hit (isVacant_editedTree _ _) hrun hhit).2 call hserves).mpr
      fun path hpath => ?_⟩
  rw [hgraph, mem_sample_editedGraph_iff] at hpath
  rw [hpath, hseen, hfound, content?, content?, read_editedTree, read_editedTree]

end GraphUse

end Backlog
