import Snoozer.Benchctl
import Snoozer.Results
import Snoozer.Worklist

/-! The dependency check of `tools/benchctl/src/build.rs`: every local package that the
benchmark's package reaches must be a tracked part of the repository. Cargo's metadata
and the answers of the file system and of Git are data here. -/
namespace Snoozer.Benchctl
open Results

structure PackageId where
  repr : String
  deriving DecidableEq, Repr

structure NodeDep where
  pkg : PackageId
  deriving DecidableEq, Repr

structure Node where
  id : PackageId
  deps : List NodeDep
  deriving DecidableEq, Repr

structure Resolve where
  nodes : List Node
  deriving DecidableEq, Repr

structure Target where
  name : String
  srcPath : PathBuf
  deriving DecidableEq, Repr

structure Package where
  id : PackageId
  name : String
  source : Option String
  manifestPath : PathBuf
  targets : List Target
  deriving DecidableEq, Repr

structure Metadata where
  packages : List Package
  resolve : Option Resolve
  deriving DecidableEq, Repr

/-- `canonicalize`, and whether `git ls-files --error-unmatch` in a repository succeeds on a
path relative to it. -/
structure Checkout where
  canonicalize : PathBuf → Except IoError PathBuf
  lsFiles : PathBuf → PathBuf → Except IoError Bool

/-- The order in which a `HashSet` hands out its elements. -/
structure SetOrder where
  order : List PackageId → List PackageId
  perm : ∀ ids, (order ids).Perm ids

def PathBuf.stripPrefix (path base : PathBuf) : Option PathBuf :=
  if path.startsWith base then some ⟨false, path.components.drop base.components.length⟩ else none

def requireTracked (checkout : Checkout) (repository path : PathBuf) (label : String) :
    Except BenchError Unit :=
  match path.stripPrefix repository with
  | none => .error (.preflight s!"{label} is outside its Git repository")
  | some relative =>
    match checkout.lsFiles repository relative with
    | .error error => .error (.io "checking tracked build input" error)
    | .ok tracked =>
      if !tracked then .error (.preflight s!"{label} is not tracked by Git: {path.display}")
      else .ok ()

/-- A canonical path in the repository that Git tracks. -/
def Tracked (checkout : Checkout) (repository path : PathBuf) : Prop :=
  ∃ relative, path.stripPrefix repository = some relative ∧
    checkout.lsFiles repository relative = .ok true

theorem requireTracked_eq_ok {checkout : Checkout} {repository path : PathBuf} {label : String} :
    requireTracked checkout repository path label = .ok () ↔ Tracked checkout repository path := by
  unfold requireTracked Tracked
  cases path.stripPrefix repository with
  | none => simp
  | some relative =>
    cases hls : checkout.lsFiles repository relative with
    | error e => simp [hls]
    | ok tracked => cases tracked <;> simp [hls]

theorem Tracked.inside {checkout : Checkout} {repository path : PathBuf}
    (h : Tracked checkout repository path) : path.startsWith repository = true := by
  obtain ⟨relative, hrelative, _⟩ := h
  unfold PathBuf.stripPrefix at hrelative
  split at hrelative
  · assumption
  · cases hrelative

/-- The first node with the id, as `iter().find` gives it. -/
def Resolve.node (resolve : Resolve) (id : PackageId) : Option Node :=
  resolve.nodes.find? fun node => node.id = id

def Metadata.package (metadata : Metadata) (id : PackageId) : Option Package :=
  metadata.packages.find? fun package => package.id = id

/-- The dependencies of the package's node. -/
def Resolve.next (resolve : Resolve) (id : PackageId) : Option (List PackageId) :=
  (resolve.node id).map fun node => node.deps.map NodeDep.pkg

theorem Resolve.next_of_node {resolve : Resolve} {id : PackageId} {node : Node}
    (h : resolve.node id = some node) : resolve.next id = some (node.deps.map NodeDep.pkg) := by
  rw [Resolve.next, h]
  rfl

theorem Resolve.next_eq_none {resolve : Resolve} {id : PackageId} :
    resolve.next id = none ↔ resolve.node id = none := Option.map_eq_none_iff

def Resolve.domain (resolve : Resolve) : Worklist.Domain resolve.next where
  elements := resolve.nodes.map Node.id
  complete id deps h := by
    obtain ⟨node, hnode, _⟩ := Option.map_eq_some_iff.mp h
    have hid : node.id = id := by simpa using List.find?_some hnode
    exact hid ▸ List.mem_map_of_mem (List.mem_of_find?_eq_some hnode)

/-- The `while let` loop: `pending` is the queue, and `reachable` the set in the order of its
insertions. -/
def collectReachable (resolve : Resolve) :
    List PackageId → List PackageId → Except BenchError (List PackageId)
  | [], reachable => .ok reachable
  | packageId :: pending, reachable =>
    if _hvisited : packageId ∈ reachable then collectReachable resolve pending reachable
    else
      match _hnode : resolve.node packageId with
      | none => .error
          (.preflight s!"Cargo resolve graph has no node for package {packageId.repr}")
      | some node =>
        collectReachable resolve (pending ++ node.deps.map NodeDep.pkg) (reachable ++ [packageId])
termination_by pending reachable => (resolve.domain.unvisited reachable, pending.length)
decreasing_by
  · exact .right _ (Nat.lt_succ_self _)
  · exact .left _ _ (resolve.domain.unvisited_lt (by assumption)
      (Resolve.next_of_node (by assumption)))

/-- It is the worklist search over the nodes. -/
theorem collectReachable_eq (resolve : Resolve) (pending reachable : List PackageId) :
    collectReachable resolve pending reachable =
      (Worklist.search resolve.next resolve.domain pending reachable).mapError fun packageId =>
        .preflight s!"Cargo resolve graph has no node for package {packageId.repr}" := by
  induction pending, reachable using collectReachable.induct resolve with
  | case1 reachable =>
    rw [collectReachable, Worklist.search_nil]
    rfl
  | case2 packageId pending reachable hvisited ih =>
    rw [collectReachable, dif_pos hvisited, Worklist.search_visited hvisited]
    exact ih
  | case3 packageId pending reachable hvisited hnode =>
    rw [collectReachable, dif_neg hvisited,
      Worklist.search_missing hvisited (Resolve.next_eq_none.mpr hnode)]
    split
    · rfl
    · next node hsome => exact nomatch hsome.symm.trans hnode
  | case4 packageId pending reachable hvisited node hnode ih =>
    rw [collectReachable, dif_neg hvisited,
      Worklist.search_found hvisited (Resolve.next_of_node hnode)]
    split
    · next hnone => exact nomatch hnone.symm.trans hnode
    · next node' hsome =>
      rw [Option.some.inj (hsome.symm.trans hnode)]
      exact ih

def checkTargets (checkout : Checkout) (repository : PathBuf) (package : Package) :
    List Target → Except BenchError Unit
  | [] => .ok ()
  | target :: rest => do
    let source ← (checkout.canonicalize target.srcPath).mapError
      (BenchError.io "canonicalizing local Cargo target")
    if !source.startsWith repository then
      .error (.preflight (s!"Cargo target {target.name} for local package {package.name} " ++
        s!"is outside the Git repository: {source.display}"))
    else do
      requireTracked checkout repository source "reachable local Cargo target"
      checkTargets checkout repository package rest

def checkPackage (checkout : Checkout) (repository : PathBuf) (package : Package) :
    Except BenchError Unit :=
  if package.source.isSome then .ok ()
  else do
    let manifest ← (checkout.canonicalize package.manifestPath).mapError
      (BenchError.io "canonicalizing local package manifest")
    if !manifest.startsWith repository then
      .error (.preflight (s!"reachable local package {package.name} " ++
        s!"is outside the Git repository: {manifest.display}"))
    else do
      requireTracked checkout repository manifest "reachable local package manifest"
      checkTargets checkout repository package package.targets

def checkPackages (checkout : Checkout) (repository : PathBuf) (metadata : Metadata) :
    List PackageId → Except BenchError Unit
  | [] => .ok ()
  | packageId :: rest =>
    match metadata.package packageId with
    | none => .error
        (.preflight s!"Cargo metadata has no package for resolved node {packageId.repr}")
    | some package => do
      checkPackage checkout repository package
      checkPackages checkout repository metadata rest

def validateReachableLocalGraph (checkout : Checkout) (setOrder : SetOrder) (metadata : Metadata)
    (root : PackageId) (repository : PathBuf) : Except BenchError Unit :=
  match metadata.resolve with
  | none => .error (.preflight "Cargo metadata did not include a resolved graph")
  | some resolve => do
    let reachable ← collectReachable resolve [root] []
    checkPackages checkout repository metadata (setOrder.order reachable)

/-- `b` is a dependency of the node of `a`. -/
def Resolve.DependsOn (resolve : Resolve) (a b : PackageId) : Prop :=
  ∃ node, resolve.node a = some node ∧ b ∈ node.deps.map NodeDep.pkg

abbrev Resolve.Reachable (resolve : Resolve) (root id : PackageId) : Prop :=
  Relation.ReflTransGen resolve.DependsOn root id

/-- The canonical manifest and every canonical target path are in the repository and tracked. -/
def SourcesTracked (checkout : Checkout) (repository : PathBuf) (package : Package) : Prop :=
  (∃ manifest, checkout.canonicalize package.manifestPath = .ok manifest ∧
    Tracked checkout repository manifest) ∧
  ∀ target ∈ package.targets, ∃ source, checkout.canonicalize target.srcPath = .ok source ∧
    Tracked checkout repository source

/-- The package has a record, and is not local or has tracked sources. -/
def Accepted (checkout : Checkout) (repository : PathBuf) (metadata : Metadata) (id : PackageId) :
    Prop :=
  ∃ package, metadata.package id = some package ∧
    (package.source = none → SourcesTracked checkout repository package)

section Decides

variable {checkout : Checkout} {setOrder : SetOrder} {metadata : Metadata} {resolve : Resolve}
  {root id : PackageId} {repository : PathBuf} {package : Package}

theorem edge_eq_dependsOn (resolve : Resolve) : Worklist.Edge resolve.next = resolve.DependsOn := by
  funext a b
  apply propext
  constructor
  · rintro ⟨deps, hdeps, hb⟩
    obtain ⟨node, hnode, rfl⟩ := Option.map_eq_some_iff.mp hdeps
    exact ⟨node, hnode, hb⟩
  · rintro ⟨node, hnode, hb⟩
    exact ⟨_, Resolve.next_of_node hnode, hb⟩

/-- The worklist from the root ends with what is reachable, or at a package that is missing. -/
theorem collectReachable_found (resolve : Resolve) (root : PackageId) :
    match collectReachable resolve [root] [] with
    | .ok visited => (visited.Nodup ∧ ∀ id, id ∈ visited ↔ resolve.Reachable root id) ∧
        ∀ id, resolve.Reachable root id → (resolve.node id).isSome
    | .error error => ∃ id, resolve.Reachable root id ∧ resolve.node id = none ∧
        error = .preflight s!"Cargo resolve graph has no node for package {id.repr}" := by
  obtain ⟨hfound, hnodes⟩ := Worklist.search_root (D := resolve.domain) root
  rw [collectReachable_eq]
  cases hsearch : Worklist.search resolve.next resolve.domain [root] [] with
  | error id =>
    rw [hsearch, Worklist.Found, edge_eq_dependsOn, Resolve.next_eq_none] at hfound
    exact ⟨id, hfound.1, hfound.2, rfl⟩
  | ok visited =>
    rw [hsearch, Worklist.Found, edge_eq_dependsOn] at hfound
    refine ⟨hfound, fun id hid => ?_⟩
    obtain ⟨deps, hdeps⟩ := hnodes visited hsearch id ((hfound.2 id).mpr hid)
    obtain ⟨node, hnode, _⟩ := Option.map_eq_some_iff.mp hdeps
    exact Option.isSome_iff_exists.mpr ⟨node, hnode⟩

/-- A check made only inside the repository is the tracking check. -/
theorem inside_eq_ok {path : PathBuf} {label : String} {error : BenchError}
    {rest : Except BenchError Unit} :
    (if !path.startsWith repository then .error error
      else do
        requireTracked checkout repository path label
        rest) = .ok () ↔ Tracked checkout repository path ∧ rest = .ok () := by
  cases hinside : path.startsWith repository with
  | false =>
    refine ⟨fun h => (nomatch h), fun h => ?_⟩
    exact nomatch h.1.inside.symm.trans hinside
  | true =>
    rw [Bool.not_true, if_neg Bool.false_ne_true, bind_eq_ok]
    constructor
    · rintro ⟨_, htracked, hrest⟩
      exact ⟨requireTracked_eq_ok.mp htracked, hrest⟩
    · rintro ⟨htracked, hrest⟩
      exact ⟨(), requireTracked_eq_ok.mpr htracked, hrest⟩

/-- The targets are accepted when the source of each is tracked. -/
theorem checkTargets_eq_ok {targets : List Target} :
    checkTargets checkout repository package targets = .ok () ↔
      ∀ target ∈ targets, ∃ source, checkout.canonicalize target.srcPath = .ok source ∧
        Tracked checkout repository source := by
  induction targets with
  | nil => exact ⟨fun _ _ h => (nomatch h), fun _ => rfl⟩
  | cons target rest ih =>
    rw [checkTargets, bind_eq_ok, List.forall_mem_cons]
    constructor
    · rintro ⟨source, hsource, h⟩
      rw [inside_eq_ok, ih] at h
      exact ⟨⟨source, mapError_eq_ok.mp hsource, h.1⟩, h.2⟩
    · rintro ⟨⟨source, hsource, htracked⟩, hrest⟩
      refine ⟨source, mapError_eq_ok.mpr hsource, ?_⟩
      rw [inside_eq_ok, ih]
      exact ⟨htracked, hrest⟩

/-- A package is accepted when it is not local or its sources are tracked. -/
theorem checkPackage_eq_ok :
    checkPackage checkout repository package = .ok () ↔
      (package.source = none → SourcesTracked checkout repository package) := by
  unfold checkPackage
  cases hsource : package.source with
  | some source => simp
  | none =>
    simp only [Option.isSome_none, Bool.false_eq_true, if_false, forall_const]
    rw [bind_eq_ok, SourcesTracked]
    constructor
    · rintro ⟨manifest, hmanifest, h⟩
      rw [inside_eq_ok, checkTargets_eq_ok] at h
      exact ⟨⟨manifest, mapError_eq_ok.mp hmanifest, h.1⟩, h.2⟩
    · rintro ⟨⟨manifest, hmanifest, htracked⟩, htargets⟩
      refine ⟨manifest, mapError_eq_ok.mpr hmanifest, ?_⟩
      rw [inside_eq_ok, checkTargets_eq_ok]
      exact ⟨htracked, htargets⟩

/-- Packages are accepted when each of them is. -/
theorem checkPackages_eq_ok {ids : List PackageId} :
    checkPackages checkout repository metadata ids = .ok () ↔
      ∀ id ∈ ids, Accepted checkout repository metadata id := by
  induction ids with
  | nil => exact ⟨fun _ _ h => (nomatch h), fun _ => rfl⟩
  | cons id rest ih =>
    rw [checkPackages, List.forall_mem_cons]
    cases hpackage : metadata.package id with
    | none =>
      refine ⟨fun h => (nomatch h), fun h => ?_⟩
      obtain ⟨package, hsome, _⟩ := h.1
      exact nomatch hsome.symm.trans hpackage
    | some package =>
      rw [bind_eq_ok, ← ih]
      constructor
      · rintro ⟨_, hcheck, hrest⟩
        exact ⟨⟨package, hpackage, checkPackage_eq_ok.mp hcheck⟩, hrest⟩
      · rintro ⟨⟨package', hpackage', hcheck⟩, hrest⟩
        rw [Option.some.inj (hpackage'.symm.trans hpackage)] at hcheck
        exact ⟨(), checkPackage_eq_ok.mpr hcheck, hrest⟩

/-- The check succeeds exactly when the graph is there, every reachable package has its node
and its record, and every reachable local package has its sources tracked. -/
theorem validateReachableLocalGraph_eq_ok :
    validateReachableLocalGraph checkout setOrder metadata root repository = .ok () ↔
      ∃ resolve, metadata.resolve = some resolve ∧ ∀ id, resolve.Reachable root id →
        (resolve.node id).isSome ∧ Accepted checkout repository metadata id := by
  unfold validateReachableLocalGraph
  cases metadata.resolve with
  | none => exact ⟨fun h => (nomatch h), fun ⟨_, h, _⟩ => (nomatch h)⟩
  | some resolve =>
    have hfound := collectReachable_found resolve root
    constructor
    · intro h
      obtain ⟨visited, hvisited, hcheck⟩ := bind_eq_ok.mp h
      rw [hvisited] at hfound
      obtain ⟨⟨_, hmem⟩, hnodes⟩ := hfound
      refine ⟨resolve, rfl, fun id hid => ⟨hnodes id hid, ?_⟩⟩
      apply checkPackages_eq_ok.mp hcheck
      exact (setOrder.perm visited).mem_iff.mpr ((hmem id).mpr hid)
    · rintro ⟨_, ⟨⟩, haccepted⟩
      cases hvisited : collectReachable resolve [root] [] with
      | error error =>
        rw [hvisited] at hfound
        obtain ⟨id, hid, hnone, _⟩ := hfound
        have hsome := (haccepted id hid).1
        rw [hnone] at hsome
        cases hsome
      | ok visited =>
        rw [hvisited] at hfound
        refine bind_eq_ok.mpr ⟨visited, hvisited, checkPackages_eq_ok.mpr fun id hid => ?_⟩
        exact (haccepted id ((hfound.1.2 id).mp ((setOrder.perm visited).mem_iff.mp hid))).2

theorem checkPackages_congr {metadata' : Metadata} {ids : List PackageId}
    (h : ∀ id ∈ ids, metadata'.package id = metadata.package id) :
    checkPackages checkout repository metadata' ids =
      checkPackages checkout repository metadata ids := by
  induction ids with
  | nil => rfl
  | cons id rest ih =>
    rw [checkPackages, checkPackages, h id List.mem_cons_self]
    rw [ih fun id' hid' => h id' (List.mem_cons_of_mem _ hid')]

/-- Nodes and records that cannot be reached do not matter, not even for the error. -/
theorem validateReachableLocalGraph_congr {metadata' : Metadata} {resolve' : Resolve}
    (hresolve : metadata.resolve = some resolve) (hresolve' : metadata'.resolve = some resolve')
    (h : ∀ id, resolve.Reachable root id →
      resolve'.node id = resolve.node id ∧ metadata'.package id = metadata.package id) :
    validateReachableLocalGraph checkout setOrder metadata' root repository =
      validateReachableLocalGraph checkout setOrder metadata root repository := by
  have hcollect : collectReachable resolve' [root] [] = collectReachable resolve [root] [] := by
    rw [collectReachable_eq, collectReachable_eq]
    rw [Worklist.search_congr (D := resolve.domain)]
    intro p hp id hid
    rw [List.mem_singleton.mp hp, edge_eq_dependsOn] at hid
    rw [Resolve.next, Resolve.next, (h id hid).1]
  unfold validateReachableLocalGraph
  rw [hresolve, hresolve']
  dsimp only
  rw [hcollect]
  have hfound := collectReachable_found resolve root
  cases hvisited : collectReachable resolve [root] [] with
  | error error => rfl
  | ok visited =>
    rw [hvisited] at hfound
    apply checkPackages_congr
    intro id hid
    exact (h id ((hfound.1.2 id).mp ((setOrder.perm visited).mem_iff.mp hid))).2

end Decides

/-- The search ends with exactly the reachable packages, or at one without a node; the check
succeeds exactly when every reachable package is accepted; what cannot be reached changes
nothing; and the order in which the set is walked does not change whether it succeeds. -/
theorem reachable_local_graph_decided (checkout : Checkout) (setOrder : SetOrder)
    (metadata : Metadata) (root : PackageId) (repository : PathBuf) :
    (∀ resolve, metadata.resolve = some resolve →
      (∀ visited, collectReachable resolve [root] [] = .ok visited →
        visited.Nodup ∧ ∀ id, id ∈ visited ↔ resolve.Reachable root id) ∧
      ∀ error, collectReachable resolve [root] [] = .error error →
        ∃ id, resolve.Reachable root id ∧ resolve.node id = none ∧
          error = .preflight s!"Cargo resolve graph has no node for package {id.repr}") ∧
    (validateReachableLocalGraph checkout setOrder metadata root repository = .ok () ↔
      ∃ resolve, metadata.resolve = some resolve ∧ ∀ id, resolve.Reachable root id →
        (∃ node, resolve.node id = some node) ∧
        ∃ package, metadata.package id = some package ∧
          (package.source = none → SourcesTracked checkout repository package)) ∧
    (∀ metadata' resolve resolve', metadata.resolve = some resolve →
      metadata'.resolve = some resolve' →
      (∀ id, resolve.Reachable root id →
        resolve'.node id = resolve.node id ∧ metadata'.package id = metadata.package id) →
      validateReachableLocalGraph checkout setOrder metadata' root repository =
        validateReachableLocalGraph checkout setOrder metadata root repository) ∧
    ∀ setOrder',
      validateReachableLocalGraph checkout setOrder' metadata root repository = .ok () ↔
        validateReachableLocalGraph checkout setOrder metadata root repository = .ok () := by
  refine ⟨fun resolve _ => ?_, ?_, fun metadata' resolve resolve' hresolve hresolve' h =>
    validateReachableLocalGraph_congr hresolve hresolve' h, fun setOrder' => ?_⟩
  · have hfound := collectReachable_found resolve root
    constructor
    · intro visited hvisited
      rw [hvisited] at hfound
      exact hfound.1
    · intro error herror
      rw [herror] at hfound
      exact hfound
  · rw [validateReachableLocalGraph_eq_ok]
    simp only [Option.isSome_iff_exists, Accepted]
  · rw [validateReachableLocalGraph_eq_ok, validateReachableLocalGraph_eq_ok]

end Snoozer.Benchctl
