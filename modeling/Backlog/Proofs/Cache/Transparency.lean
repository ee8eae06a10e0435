import Backlog.Proofs.Cache.Holdings
import Backlog.Proofs.Cache.Recall

namespace Backlog

open Backlog.Files Backlog.Files.FileTree Backlog.Number Backlog.Text

/-!
# A cache that does not show

Graphs of scopes are asked for one after another, all with one cache that is empty at first, while no
file changes but those of the cache.

* `ImportGraph.ofScopes` — the outcomes of such calls;
* `CacheStore.Filled` — what the files become by writes to one section;
* `CachedCalls.IsFaithful`, `IsFaithful.step` — what every call preserves: the cache holds nothing but
  graphs that were built for scopes;
* `CachedCalls.isTransparent_of_isSteady` — so every outcome is that of the builder.
-/

/-! ### Writes to one section -/

namespace CacheStore

/-- What the files become by writes to one section of a store. -/
inductive Filled (store : CacheStore) (part : String) (t : FileTree) : FileTree → Prop
  | refl : Filled store part t t
  | write {t' : FileTree} {name : String} (h : Filled store part t t') (hname : IsSlot name)
      (bytes : Bytes) (now : Int) :
      Filled store part t (store.write t' part name bytes now).tree

variable {store : CacheStore} {t : FileTree} {part name : String}

/-- A section that held nothing holds nothing but what was written. The section is then made of
    entries that calls have stored. -/
theorem Filled.holdsOnly {t' : FileTree} (h : store.Filled part t t') (hpart : IsPart part)
    (hspelled : store.folder.IsSpelled) (hvacant : store.IsVacant t part) :
    store.HoldsOnly t' part fun _ => True := by
  induction h with
  | refl => exact hvacant.holdsOnly
  | write _ hname bytes now ih =>
    exact (ih.write hpart hname hspelled bytes now).mono fun _ _ => trivial

/-- Writes to a section that held nothing leave all links as they are. A write makes folders and
    files, and never a link. -/
theorem Filled.linksAlike {t' : FileTree} (h : store.Filled part t t') (hpart : IsPart part)
    (hspelled : store.folder.IsSpelled) (hvacant : store.IsVacant t part) : t.LinksAlike t' := by
  induction h with
  | refl => exact .refl t
  | write hfilled hname bytes now ih =>
    have hholds := hfilled.holdsOnly hpart hspelled hvacant
    exact ih.trans (hholds.linksAlike_write hpart hname hspelled bytes now)

/-- A write of which the time is not too long leaves none that is. So times can be written down
    again. -/
theorem isDated_write (hpart : IsPart part) (hname : IsSlot name)
    (hspelled : store.folder.IsSpelled) (h : t.IsDated) (bytes : Bytes) {now : Int}
    (hnow : isTooLong now = false) : (store.write t part name bytes now).tree.IsDated := by
  have hmade : ∀ made, t.makeFolders (store.sectionPath part) = .ok made → made.IsDated :=
    fun made hmake names content time hfound =>
      h names content time ((founds_of_makeFolders hmake).find?_leaf (fun _ => nofun) hfound)
  rcases write_cases store t hpart hname hspelled bytes now with
    heq | ⟨made, hmake, heq | ⟨place, entries, hsection, _, heq⟩⟩
  · rwa [heq]
  · rw [heq]
    exact hmade made hmake
  · rw [heq]
    intro names content time hfound
    have hleaf : ∀ entries, Node.file content time ≠ .folder entries := fun _ => nofun
    by_cases hprefix : place ++ [name ++ ".json"] <+: names
    · obtain ⟨more, rfl⟩ := hprefix
      rw [Node.find?_put_self (node_of_locate hsection).1.symm] at hfound
      cases more with
      | nil =>
        obtain ⟨_, rfl⟩ := Node.file.inj (Option.some.inj hfound)
        exact hnow
      | cons next more => cases hfound
    · rw [← Node.outlineAt?_eq_some_iff hleaf, Node.outlineAt?_put hprefix,
        Node.outlineAt?_eq_some_iff hleaf] at hfound
      exact hmade made hmake names content time hfound

end CacheStore

/-- The key of a scope: what the scope says, and the real path of the root. The modules play no part
    in it. -/
theorem GraphKey.ofScope_ok_iff {scope : DependencyScope} {project : Project} {key : GraphKey} :
    ofScope scope project = .ok key ↔ ∃ real, project.tree.resolve project.root = .ok real ∧
      key = ⟨scope.mode, scope.entryPoints, scope.maxDepth, real.text, scope.exclude⟩ := by
  rw [ofScope, bind_ok_iff]
  exact exists_congr fun real => and_congr_right' pure_ok_iff

/-! ### Calls -/

/-- A call: a scope, when it is made, and the time of the graph if one is built. -/
structure ScopeCall where
  scope : DependencyScope
  now : Int
  builtAt : Binary64

/-- The outcomes of calls with one cache, each finding the files as the one before left them. -/
def ImportGraph.ofScopes (cache : GraphCache) (analyze : Analyzer) (root : Path) :
    FileTree → List ScopeCall → List (Except ScopeGraphError ImportGraph)
  | _, [] => []
  | t, call :: calls =>
    match ImportGraph.ofScope call.scope ⟨t, root⟩ (some cache) call.now
      (build analyze call.builtAt) with
    | .ok found => .ok found.graph :: ofScopes cache analyze root found.tree calls
    | .error cause => .error cause :: ofScopes cache analyze root t calls

/-- A call ends as the builder does: with the same failure, or with a graph of the same nodes, as
    many imports that lead out, and the same entry points. -/
inductive SameOutcome : Except ScopeGraphError ImportGraph → Except BuildError ImportGraph → Prop
  | refused (cause : BuildError) : SameOutcome (.error (.build cause)) (.error cause)
  | graph {graph built : ImportGraph} (nodes : graph.nodes = built.nodes)
      (excludedImports : graph.excludedImports = built.excludedImports)
      (entryPoints : ∀ e, e ∈ graph.entryPoints ↔ e ∈ built.entryPoints) :
      SameOutcome (.ok graph) (.ok built)

/-- A cache, an analysis, the files and the calls. -/
structure CachedCalls where
  cache : GraphCache
  analyze : Analyzer
  root : Path
  tree : FileTree
  calls : List ScopeCall

namespace CachedCalls

/-- What the builder makes of a call, in the files as they were. -/
def built (c : CachedCalls) (call : ScopeCall) : Except BuildError ImportGraph :=
  ImportGraph.build c.analyze call.builtAt (call.scope.request ⟨c.tree, c.root⟩)

/-- The files may become this by writes of the cache. -/
def Leads (c : CachedCalls) (t : FileTree) : Prop := c.cache.store.Filled "dependency-graph" c.tree t

/-- No file changes but those of the cache, which is empty: what it writes changes neither what an
    analysis finds, which depends on the set of the globs alone, nor where entry points lead. There
    are no more modules and imports than fit a list, the times of files are not too long, and no two
    keys share a hash. -/
structure IsQuiet (c : CachedCalls) : Prop where
  spelled : c.cache.store.folder.IsSpelled
  vacant : c.cache.store.IsVacant c.tree "dependency-graph"
  analysis : ∀ t, c.Leads t → ∀ globs others, (∀ glob, glob ∈ globs ↔ glob ∈ others) →
    c.analyze ⟨t, c.root⟩ globs = c.analyze ⟨c.tree, c.root⟩ others
  sources : ∀ globs modules, c.analyze ⟨c.tree, c.root⟩ globs = .ok modules →
    ∀ m ∈ modules, '\x00' ∉ m.source.toList
  sizes : ∀ globs modules, c.analyze ⟨c.tree, c.root⟩ globs = .ok modules →
    IsListSize modules.length ∧ IsListSize (modules.flatMap SourceModule.imports).length
  entries : ∀ t, c.Leads t → ∀ call ∈ c.calls, ∀ e ∈ call.scope.entryPoints,
    Project.resolve ⟨t, c.root⟩ e = Project.resolve ⟨c.tree, c.root⟩ e
  times : c.tree.IsDated ∧ ∀ call ∈ c.calls, isTooLong call.now = false
  hashes : ∀ call ∈ c.calls, ∀ other ∈ c.calls, ∀ key key',
    GraphKey.ofScope call.scope ⟨c.tree, c.root⟩ = .ok key →
    GraphKey.ofScope other.scope ⟨c.tree, c.root⟩ = .ok key' →
    Digest.sha256Hex key.canonicalText = Digest.sha256Hex key'.canonicalText →
    key.canonicalText = key'.canonicalText

/-- Besides, the root has a real path, there is no NUL in the path of the cache, and no limit has
    too many digits. -/
structure IsSteady (c : CachedCalls) : Prop extends IsQuiet c where
  root : ∃ real, ∀ t, c.Leads t → t.resolve c.root = .ok real
  store : ∀ name ∈ c.cache.store.folder.names, '\x00' ∉ name.toList
  limits : ∀ call ∈ c.calls, ∀ n ∈ call.scope.maxDepth, isTooLong n = false

/-- Every call ends as the builder does. -/
def IsTransparent (c : CachedCalls) : Prop :=
  List.Forall₂ (fun call outcome => SameOutcome outcome (c.built call)) c.calls
    (ImportGraph.ofScopes c.cache c.analyze c.root c.tree c.calls)

/-- What every call preserves. -/
structure IsFaithful (c : CachedCalls) (t : FileTree) : Prop where
  leads : c.Leads t
  dated : t.IsDated
  holds : c.cache.store.HoldsOnly t "dependency-graph" fun bytes =>
    ∃ call ∈ c.calls, ∃ key graph found,
      GraphKey.ofScope call.scope ⟨c.tree, c.root⟩ = .ok key ∧ c.built call = .ok graph ∧
        c.cache.IsRecord found key graph bytes

variable {c : CachedCalls} {t : FileTree} {call : ScopeCall}

/-- At first the cache holds nothing, so nothing that was not built. -/
theorem IsSteady.isFaithful (h : c.IsSteady) : c.IsFaithful c.tree where
  leads := .refl
  dated := h.times.1
  holds := h.vacant.holdsOnly

/-- The key of a scope is the same after writes of the cache. For the real path of the root is. -/
theorem IsFaithful.exists_key (h : c.IsFaithful t) (hsteady : c.IsSteady) (scope : DependencyScope) :
    ∃ key, GraphKey.ofScope scope ⟨t, c.root⟩ = .ok key ∧
      GraphKey.ofScope scope ⟨c.tree, c.root⟩ = .ok key := by
  obtain ⟨real, hreal⟩ := hsteady.root
  exact ⟨_, GraphKey.ofScope_ok_iff.mpr ⟨real, hreal t h.leads, rfl⟩,
    GraphKey.ofScope_ok_iff.mpr ⟨real, hreal c.tree .refl, rfl⟩⟩

/-- The builder gives the same after writes of the cache. It reads the sources, from which the cache
    is apart. -/
theorem IsFaithful.built_eq (h : c.IsFaithful t) (hsteady : c.IsSteady) (hcall : call ∈ c.calls) :
    ImportGraph.build c.analyze call.builtAt (call.scope.request ⟨t, c.root⟩) = c.built call :=
  ImportGraph.build_congr rfl (hsteady.analysis t h.leads _ _ fun _ => .rfl)
    (hsteady.entries t h.leads call hcall)

/-- A look-up is a miss, or it finds a graph like that of the builder. What is found was stored for
    a key with the same text, so by a call that asked for the same. -/
theorem IsFaithful.get? (h : c.IsFaithful t) (hsteady : c.IsSteady) (hcall : call ∈ c.calls)
    {key : GraphKey} (hkey : GraphKey.ofScope call.scope ⟨c.tree, c.root⟩ = .ok key) :
    c.cache.get? t key = .ok none ∨ ∃ graph built, c.cache.get? t key = .ok (some graph) ∧
      c.built call = .ok built ∧ SameOutcome (.ok graph) (.ok built) := by
  obtain ⟨real, hreal, rfl⟩ := GraphKey.ofScope_ok_iff.mp hkey
  have hshort := hsteady.limits call hcall
  cases hread : c.cache.store.read t "dependency-graph" (GraphCache.slotName
      ⟨call.scope.mode, call.scope.entryPoints, call.scope.maxDepth, real.text,
        call.scope.exclude⟩) with
  | error fault =>
    -- The path of the cache has no NUL.
    obtain ⟨_, hnul⟩ := CacheStore.read_error_iff.mp hread
    rw [CacheStore.path_eq CacheStore.isPart_graphs (GraphCache.isSlot_slotName _)] at hnul
    refine absurd hnul (Path.nul_not_mem_text (Path.isClean_child (fun name hname => ?_)
      (GraphCache.isSlot_slotName _).isPart.isName))
    rcases List.mem_append.mp hname with hname | hname
    · exact ⟨(hsteady.spelled name hname).1, (hsteady.spelled name hname).2,
        hsteady.store name hname⟩
    · rw [List.mem_singleton.mp hname]
      exact CacheStore.isPart_graphs.isName
  | ok stored =>
    cases stored with
    | none => exact .inl (GraphCache.get?_of_read_none hshort hread)
    | some bytes =>
      obtain ⟨other, hother, key', built, found, hkey', hbuilt, hrecord⟩ :=
        h.holds.read CacheStore.isPart_graphs (GraphCache.isSlot_slotName _) hsteady.spelled hread
      obtain ⟨builtAt, result, hget, hresult⟩ := hrecord.get? hshort hread
      cases result with
      | none => exact .inl hget
      | some graph =>
        obtain ⟨⟨hhash, _⟩, rfl⟩ := (hresult graph).mp rfl
        have htext := hsteady.hashes other hother call hcall _ _ hkey' hkey hhash
        obtain ⟨real', _, rfl⟩ := GraphKey.ofScope_ok_iff.mp hkey'
        have hlike := GraphKey.isLike_of_canonicalText (hsteady.limits other hother) hshort htext
        have hanalysis := hsteady.analysis c.tree .refl _ _ fun _ => hlike.exclude.mem_iff
        obtain ⟨graph, hgraph, hnodes, hexcluded, hentries⟩ := ImportGraph.exists_build_of_same
          hanalysis hlike.maxDepth (fun _ => hlike.entryPoints.mem_iff) hbuilt call.builtAt
        exact .inr ⟨_, graph, hget, hgraph, .graph hnodes hexcluded hentries⟩

/-- A graph that is built is stored, and the cache still holds nothing but such graphs. Nothing
    keeps the graph from being written down. -/
theorem IsFaithful.set (h : c.IsFaithful t) (hsteady : c.IsSteady) (hcall : call ∈ c.calls)
    {key : GraphKey} (hkey : GraphKey.ofScope call.scope ⟨c.tree, c.root⟩ = .ok key)
    {graph : ImportGraph} (hbuilt : c.built call = .ok graph) :
    ∃ after, c.cache.set t call.now key graph = .ok after ∧ c.IsFaithful after := by
  obtain ⟨modules, entries, hmodules, _, _, hgraph⟩ := ImportGraph.build_ok_iff.mp hbuilt
  obtain ⟨hcount, himports⟩ := hsteady.sizes _ _ hmodules
  have hlimit : ∀ n ∈ key.maxDepth, isTooLong n = false := by
    obtain ⟨_, _, rfl⟩ := GraphKey.ofScope_ok_iff.mp hkey
    exact hsteady.limits call hcall
  have hname := GraphCache.isSlot_slotName key
  have hnow := hsteady.times.2 call hcall
  obtain ⟨bytes, hrecord⟩ : ∃ bytes, c.cache.IsRecord t key graph bytes := by
    rw [hgraph]
    exact GraphCache.exists_isRecord_ofModules hlimit hcount himports
      (hsteady.sources _ _ hmodules) h.dated
  refine ⟨_, GraphCache.set_ok_iff_exists_record.mpr ⟨bytes, hrecord, rfl⟩, ?_⟩
  exact {
    leads := h.leads.write hname bytes call.now
    dated := CacheStore.isDated_write CacheStore.isPart_graphs hname hsteady.spelled h.dated bytes
      hnow
    holds := by
      refine (h.holds.write CacheStore.isPart_graphs hname hsteady.spelled bytes call.now).mono ?_
      rintro other (rfl | hold)
      · exact ⟨call, hcall, key, graph, t, hkey, hbuilt, hrecord⟩
      · exact hold }

/-- A call ends as the builder does, and the cache still holds nothing but graphs that were built.
    This is one call; the next theorem is by induction along a list of them. -/
theorem IsFaithful.step (h : c.IsFaithful t) (hsteady : c.IsSteady) (hcall : call ∈ c.calls) :
    (∃ cause, ImportGraph.ofScope call.scope ⟨t, c.root⟩ (some c.cache) call.now
        (ImportGraph.build c.analyze call.builtAt) = .error (.build cause) ∧
      c.built call = .error cause) ∨
    ∃ found, ImportGraph.ofScope call.scope ⟨t, c.root⟩ (some c.cache) call.now
        (ImportGraph.build c.analyze call.builtAt) = .ok found ∧
      SameOutcome (.ok found.graph) (c.built call) ∧ c.IsFaithful found.tree := by
  obtain ⟨key, hkey, hkey'⟩ := h.exists_key hsteady call.scope
  rcases h.get? hsteady hcall hkey' with hmiss | ⟨graph, built, hhit, hbuilt, hsame⟩
  · have hbuilder := h.built_eq hsteady hcall
    cases hbuilt : c.built call with
    | error cause =>
      exact .inl ⟨cause, ImportGraph.ofScope_of_refusal hkey hmiss (hbuilder.trans hbuilt), rfl⟩
    | ok graph =>
      obtain ⟨after, hset, hafter⟩ := h.set hsteady hcall hkey' hbuilt
      exact .inr ⟨_, ImportGraph.ofScope_of_miss hkey hmiss (hbuilder.trans hbuilt) hset,
        .graph rfl rfl fun _ => .rfl, hafter⟩
  · rw [hbuilt]
    exact .inr ⟨_, ImportGraph.ofScope_of_hit hkey hhit, hsame, h⟩

/-- So do calls one after another. The cases of a call are those of the step. -/
theorem IsFaithful.ofScopes (h : c.IsFaithful t) (hsteady : c.IsSteady) {calls : List ScopeCall}
    (hcalls : ∀ call ∈ calls, call ∈ c.calls) :
    List.Forall₂ (fun call outcome => SameOutcome outcome (c.built call)) calls
      (ImportGraph.ofScopes c.cache c.analyze c.root t calls) := by
  induction calls generalizing t with
  | nil => exact .nil
  | cons call calls ih =>
    obtain ⟨hcall, hcalls⟩ := List.forall_mem_cons.mp hcalls
    rw [ImportGraph.ofScopes]
    rcases h.step hsteady hcall with ⟨cause, heq, hbuilt⟩ | ⟨found, heq, hsame, hafter⟩
    · simp only [heq]
      refine .cons ?_ (ih h hcalls)
      rw [hbuilt]
      exact .refused cause
    · simp only [heq]
      exact .cons hsame (ih hafter hcalls)

/-- Whatever was asked for before, a call ends as the builder does. The calls before are the start
    of a list of calls. -/
theorem isTransparent_of_isSteady (h : c.IsSteady) : c.IsTransparent :=
  h.isFaithful.ofScopes h fun _ hcall => hcall

/-- If the first call ends as the builder does, with a graph, then its key is looked up. So what
    keeps a key from being made or looked up keeps calls from ending as the builder does. -/
theorem IsTransparent.exists_get? (h : c.IsTransparent) {calls : List ScopeCall}
    (hcalls : c.calls = call :: calls) (hbuilt : ∃ graph, c.built call = .ok graph) :
    ∃ key result, GraphKey.ofScope call.scope ⟨c.tree, c.root⟩ = .ok key ∧
      c.cache.get? c.tree key = .ok result := by
  obtain ⟨graph, hbuilt⟩ := hbuilt
  rw [IsTransparent, hcalls, ImportGraph.ofScopes] at h
  split at h
  · rename_i found hfound
    obtain ⟨key, hkey, hget⟩ := ImportGraph.ofScope_ok hfound
    rcases hget with ⟨_, ⟨⟩, hget, _⟩ | ⟨_, ⟨⟨⟩, _⟩ | ⟨_, ⟨⟩, hget, _⟩⟩
    · exact ⟨key, _, hkey, hget⟩
    · exact ⟨key, _, hkey, hget⟩
  · obtain ⟨hsame, _⟩ := List.forall₂_cons.mp h
    rw [hbuilt] at hsame
    cases hsame

/-! ### Calls beside a link to itself -/

/-- The files. -/
def loopedTree : FileTree := ⟨.folder [("loop", .link "loop")], []⟩

/-- Calls with a cache in a folder of this name, from each of some lists of entry points. -/
def loopedCalls (folder : String) (root : Path) (maxDepth : Option Int)
    (scopes : List (List String)) : CachedCalls where
  cache := ⟨⟨⟨0, [folder]⟩⟩, 50⟩
  analyze := fun _ _ => .ok [⟨"/m.py", []⟩]
  root := root
  tree := loopedTree
  calls := scopes.map fun entryPoints => ⟨⟨entryPoints, .connected, maxDepth, []⟩, 1, .zero false⟩

/-- The tree of the examples holds folders and one link to itself. -/
theorem find?_loopedTree {names : List String} {node : Node}
    (h : loopedTree.root.find? names = some node) :
    (∃ entries, node = .folder entries) ∨ names = ["loop"] ∧ node = .link "loop" := by
  cases names with
  | nil => exact .inl ⟨_, (Option.some.inj h).symm⟩
  | cons name names =>
    by_cases hname : "loop" = name
    · subst hname
      cases names with
      | nil => exact .inr ⟨rfl, by simpa [loopedTree, Node.find?, Node.childNamed?] using h.symm⟩
      | cons next names => simp [loopedTree, Node.find?, Node.childNamed?] at h
    · simp [loopedTree, Node.find?, Node.childNamed?, hname] at h

theorem namesOf_loop : namesOf "loop" = ["loop"] ∧ "loop".startsWith "/" = false := by decide +kernel

/-- The link is followed until there have been too many. -/
theorem walk_loop (links : Nat) :
    walk loopedTree.root true links [] ["loop"] = .error .tooManyLinks := by
  have hsize : "loop".utf8ByteSize ≤ maxNameSize := by decide
  induction links with
  | zero => simp [walk, loopedTree, Node.find?, Node.childNamed?, Path.isIdle, Nat.not_lt.mpr hsize]
  | succ links ih =>
    rw [walk]
    simp [loopedTree, Node.find?, Node.childNamed?, Path.isIdle, Nat.not_lt.mpr hsize, namesOf_loop]
    exact ih

theorem resolve_loop : loopedTree.resolve ⟨0, ["loop"]⟩ = .error (.loop "/loop") := by
  have hreal : (writtenPath ["loop"]).collapsed.text = "/loop" := by decide +kernel
  have hpath : "/loop".toList.contains '\x00' = false ∧ "/loop".isEmpty = false ∧
      ¬maxPathSize ≤ "/loop".utf8ByteSize ∧ "/loop".startsWith "/" = true ∧
      namesOf "/loop" = ["", "loop"] := by decide +kernel
  have hstat : loopedTree.stat "/loop" = .error .tooManyLinks := by
    have hwalk : walk loopedTree.root true maxLinks [] ["", "loop"] = .error .tooManyLinks := by
      rw [walk]
      exact walk_loop maxLinks
    simp [stat, locate, hpath, hwalk, bind, Except.bind]
  have hsettle : settle loopedTree.root (loopedTree.root.linkCount + 1) [] []
      (loopedTree.namesFromRoot ⟨0, ["loop"]⟩) = (["loop"], false) := by
    have hnames : loopedTree.namesFromRoot ⟨0, ["loop"]⟩ = ["loop"] := by decide
    -- The link is come to again while it is followed.
    have hagain : settle loopedTree.root 1 [["loop"]] [] ["loop"] = (["loop"], false) := by
      rw [settle]
      simp [loopedTree, Node.find?, Node.childNamed?, Path.isIdle, leftOver]
    rw [hnames, settle]
    simp only [loopedTree] at hagain ⊢
    simp [Node.find?, Node.childNamed?, Path.isIdle, Node.linkCount, Node.entryLinkCount,
      namesOf_loop, hagain, leftOver]
  rw [resolve, hsettle]
  simp [hreal, hstat]

theorem settles_name {name : String}
    (hname : Path.isIdle name = false ∧ name ≠ ".." ∧ "loop" ≠ name) :
    loopedTree.Settles ⟨1, [name]⟩ := by
  obtain ⟨hidle, hup, hloop⟩ := hname
  have hnames : loopedTree.namesFromRoot ⟨1, [name]⟩ = [name] := rfl
  rw [Settles, hnames, settle, if_neg (by simp [hidle]), if_neg hup]
  simp [loopedTree, Node.find?, Node.childNamed?, hloop, settle]

theorem settles_root : loopedTree.Settles ⟨1, []⟩ := by
  rw [Settles, show loopedTree.namesFromRoot ⟨1, []⟩ = [] from rfl, settle]

theorem isVacant_loopedTree (store : CacheStore) (part : String) :
    store.IsVacant loopedTree part := by
  refine CacheStore.isVacant_of_find? fun place name node hleaf hfound => ?_
  rcases find?_loopedTree hfound with ⟨entries, rfl⟩ | ⟨hnames, _⟩
  · exact hleaf entries rfl
  · have hlast := congrArg List.getLast? hnames
    rw [List.getLast?_concat] at hlast
    have hchar := congrArg (fun s => s.toList.getLast?) (Option.some.inj hlast)
    simp at hchar

variable {folder : String} {root : Path} {maxDepth : Option Int} {scopes : List (List String)}

/-- After writes of a cache with a name of its own, paths resolve as before. -/
theorem leads_resolve {t : FileTree} (hfolder : Path.isIdle folder = false ∧ '/' ∉ folder.toList)
    (hleads : (loopedCalls folder root maxDepth scopes).Leads t) {p : Path}
    (hp : loopedTree.Settles p) : t.resolve p = loopedTree.resolve p := by
  have hspelled : Path.IsSpelled ⟨0, [folder]⟩ := by
    intro name hname
    rwa [List.mem_singleton.mp hname]
  exact ((hleads.linksAlike CacheStore.isPart_graphs hspelled
    (isVacant_loopedTree _ _)).resolve hp).2

/-- Calls of the examples are quiet if their entry points settle and differ in their order only. -/
theorem isQuiet_loopedCalls (hfolder : Path.isIdle folder = false ∧ '/' ∉ folder.toList)
    (hentries : ∀ texts ∈ scopes, ∀ e ∈ texts, loopedTree.Settles (root.join (.ofText e)))
    (hperm : ∀ texts ∈ scopes, ∀ others ∈ scopes, texts.Perm others) :
    (loopedCalls folder root maxDepth scopes).IsQuiet where
  spelled := by
    intro name hname
    rwa [List.mem_singleton.mp hname]
  vacant := isVacant_loopedTree _ _
  analysis := fun _ _ _ _ _ => rfl
  sources := by
    rintro globs modules ⟨⟩ m hm
    rw [List.mem_singleton.mp hm]
    decide
  sizes := by
    rintro globs modules ⟨⟩
    exact ⟨show 1 < 2 ^ 63 by decide, show 0 < 2 ^ 63 by decide⟩
  entries := by
    intro t hleads call hcall e he
    obtain ⟨texts, htexts, rfl⟩ := List.mem_map.mp hcall
    exact congrArg (Except.map Path.text) (leads_resolve hfolder hleads (hentries texts htexts e he))
  times := by
    refine ⟨fun names content time hfound => ?_,
      List.forall_mem_map.mpr fun _ _ => show isTooLong 1 = false by decide⟩
    rcases find?_loopedTree hfound with ⟨_, ⟨⟩⟩ | ⟨_, ⟨⟩⟩
  hashes := by
    intro call hcall other hother key key' hkey hkey' _
    obtain ⟨texts, htexts, rfl⟩ := List.mem_map.mp hcall
    obtain ⟨others, hothers, rfl⟩ := List.mem_map.mp hother
    obtain ⟨real, hreal, rfl⟩ := GraphKey.ofScope_ok_iff.mp hkey
    obtain ⟨real', hreal', rfl⟩ := GraphKey.ofScope_ok_iff.mp hkey'
    obtain rfl := Except.ok.inj (hreal.symm.trans hreal')
    exact GraphKey.IsLike.canonicalText_eq
      ⟨rfl, rfl, rfl, hperm texts htexts others hothers, .refl _⟩

/-- A root that is a link to itself, a limit with too many digits and a NUL in the path of the cache
    each make a call end otherwise. -/
theorem not_isTransparent_loopedCalls :
    ((loopedCalls "cache" ⟨0, ["loop"]⟩ none [[]]).IsQuiet ∧
      ¬(loopedCalls "cache" ⟨0, ["loop"]⟩ none [[]]).IsTransparent) ∧
    ((loopedCalls "cache" ⟨1, []⟩ (some (10 ^ 4300)) [[]]).IsQuiet ∧
      ¬(loopedCalls "cache" ⟨1, []⟩ (some (10 ^ 4300)) [[]]).IsTransparent) ∧
    (loopedCalls "\x00" ⟨1, []⟩ none [[]]).IsQuiet ∧
      ¬(loopedCalls "\x00" ⟨1, []⟩ none [[]]).IsTransparent := by
  have hquiet : ∀ folder root maxDepth, Path.isIdle folder = false ∧ '/' ∉ folder.toList →
      (loopedCalls folder root maxDepth [[]]).IsQuiet :=
    fun folder root maxDepth hfolder => isQuiet_loopedCalls hfolder (by simp) (by simp)
  have hbuilt : ∀ folder root maxDepth, ∃ graph, (loopedCalls folder root maxDepth [[]]).built
      ⟨⟨[], .connected, maxDepth, []⟩, 1, .zero false⟩ = .ok graph :=
    fun folder root maxDepth => ⟨_, ImportGraph.build_ok_iff.mpr ⟨_, [], rfl, by simp, rfl, rfl⟩⟩
  refine ⟨⟨hquiet _ _ _ (by decide), fun h => ?_⟩,
    ⟨hquiet _ _ _ (by decide), fun h => ?_⟩, hquiet _ _ _ (by decide), fun h => ?_⟩
  · obtain ⟨key, _, hkey, _⟩ := h.exists_get? rfl (hbuilt _ _ _)
    obtain ⟨real, hreal, _⟩ := GraphKey.ofScope_ok_iff.mp hkey
    cases resolve_loop.symm.trans hreal
  · obtain ⟨key, _, hkey, hget⟩ := h.exists_get? rfl (hbuilt _ _ _)
    obtain ⟨real, _, rfl⟩ := GraphKey.ofScope_ok_iff.mp hkey
    have hshort : isTooLong (10 ^ 4300) = false := (GraphCache.exists_read_of_get? hget).1 _ rfl
    exact absurd hshort (by decide +kernel)
  · obtain ⟨key, _, _, hget⟩ := h.exists_get? rfl (hbuilt _ _ _)
    obtain ⟨_, _, hread, _⟩ := GraphCache.exists_read_of_get? hget
    have hnul : '\x00' ∈ ((loopedCalls "\x00" ⟨1, []⟩ none [[]]).cache.store.path "dependency-graph"
        (GraphCache.slotName key)).text.toList := by
      rw [CacheStore.path_eq CacheStore.isPart_graphs (GraphCache.isSlot_slotName key),
        @Path.toList_text _ "\x00" _ rfl]
      simp
    exact CacheStore.nul_not_mem_of_read hread hnul

/-- Calls from the same entry points in another order are steady, and end as the builder does. -/
theorem isTransparent_loopedCalls :
    (loopedCalls "cache" ⟨1, []⟩ (some 3) [["m.py", "n.py"], ["n.py", "m.py"]]).IsSteady ∧
      (loopedCalls "cache" ⟨1, []⟩ (some 3) [["m.py", "n.py"], ["n.py", "m.py"]]).IsTransparent := by
  have hfolder : Path.isIdle "cache" = false ∧ '/' ∉ "cache".toList := by decide
  have hpaths : ∀ e, e = "m.py" ∨ e = "n.py" →
      loopedTree.Settles (Path.join ⟨1, []⟩ (.ofText e)) := by
    have hnames : ∀ e, e = "m.py" ∨ e = "n.py" → Path.join ⟨1, []⟩ (.ofText e) = ⟨1, [e]⟩ ∧
        Path.isIdle e = false ∧ e ≠ ".." ∧ "loop" ≠ e := by
      rintro e (rfl | rfl) <;> decide
    intro e he
    obtain ⟨hpath, hname⟩ := hnames e he
    rw [hpath]
    exact settles_name hname
  have hswap : ["m.py", "n.py"].Perm ["n.py", "m.py"] := .swap ..
  have hroot : loopedTree.resolve ⟨1, []⟩ = .ok ⟨1, []⟩ := by
    rw [settles_root.resolve_eq, show loopedTree.namesFromRoot ⟨1, []⟩ = [] from rfl, settle]
    rfl
  have hquiet : (loopedCalls "cache" ⟨1, []⟩ (some 3)
      [["m.py", "n.py"], ["n.py", "m.py"]]).IsQuiet :=
    isQuiet_loopedCalls hfolder (by simp [hpaths "m.py" (.inl rfl), hpaths "n.py" (.inr rfl)])
      (by simpa [List.Perm.refl] using ⟨hswap, hswap.symm⟩)
  have hsteady : (loopedCalls "cache" ⟨1, []⟩ (some 3)
      [["m.py", "n.py"], ["n.py", "m.py"]]).IsSteady :=
    { hquiet with
      root := ⟨⟨1, []⟩, fun t hleads => (leads_resolve hfolder hleads settles_root).trans hroot⟩
      store := List.forall_mem_singleton.mpr (by decide)
      limits := List.forall_mem_map.mpr fun _ _ n hn => by
        obtain rfl := Option.some.inj hn
        decide }
  exact ⟨hsteady, isTransparent_of_isSteady hsteady⟩

end CachedCalls

end Backlog
