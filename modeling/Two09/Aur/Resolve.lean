import Two09.Lib.Bytes

/-!
# Resolving packages of the AUR

`resolve_targets` with what it calls: the request of `aur_info_batch`, the rounds of the search, the graph
of dependencies and its sorting.
-/

namespace Two09.Aur

open Two09.Lib

/-! ### Requests -/

/-- What a response says about a package. -/
structure AurPkg where
  name : Bytes
  version : Option Bytes
  pkgbase : Option Bytes
  depends : List Bytes
  makedepends : List Bytes
  checkdepends : List Bytes
  deriving DecidableEq

/-- What the requests go through: the URL of the server, the encoding of `curl_easy_escape`, and the
packages in the response to a request, by the texts of its arguments. -/
structure Rpc where
  baseUrl : Bytes
  escape : Bytes → Bytes
  answer : List Bytes → List AurPkg

/-- The loop of `aur_info_batch`: the texts that the buffer of 8192 bytes has room for, from `pos` on. The
last one may be cut off. -/
def askedTexts (escape : Bytes → Bytes) : Nat → List Bytes → List Bytes
  | _, [] => []
  | pos, name :: names =>
    if pos < 8192 - 256 then
      (escape name).take (8191 - pos - 7) ::
        askedTexts escape (pos + (7 + (escape name).length)) names
    else []

/-- `aur_info_batch`: the request begins with the URL and `/info`. -/
def Rpc.infoBatch (rpc : Rpc) (names : List Bytes) : List AurPkg :=
  if names = [] then [] else rpc.answer (askedTexts rpc.escape (rpc.baseUrl.length + 5) names)

/-- `is_aur_package` -/
def Rpc.isAurPackage (rpc : Rpc) (name : Bytes) : Bool := !(rpc.infoBatch [name]).isEmpty

/-! ### The graph -/

/-- Each package with the packages that it depends on. -/
abbrev DepGraph := List (Bytes × List Bytes)

/-- `str_set_add` -/
def addName (names : List Bytes) (name : Bytes) : List Bytes :=
  if name ∈ names then names else names ++ [name]

/-- `dep_graph_get_or_create` -/
def DepGraph.getOrCreate (g : DepGraph) (name : Bytes) : DepGraph :=
  if name ∈ g.map Prod.fst then g else g ++ [(name, [])]

/-- The names at the first entry of a package. -/
def DepGraph.deps (g : DepGraph) (pkg : Bytes) : List Bytes :=
  ((g.find? (·.1 = pkg)).map Prod.snd).getD []

/-- One more name at the first entry of a package. -/
def DepGraph.append (pkg dep : Bytes) : DepGraph → DepGraph
  | [] => []
  | e :: g => if e.1 = pkg then (e.1, e.2 ++ [dep]) :: g else e :: DepGraph.append pkg dep g

/-- `dep_graph_add_edge` -/
def DepGraph.addEdge (g : DepGraph) (pkg dep : Bytes) : DepGraph :=
  let g := g.getOrCreate pkg
  if dep ∈ g.deps pkg then g else DepGraph.getOrCreate (DepGraph.append pkg dep g) dep

/-! ### Sorting -/

/-- `in_degree` counts at the package that is depended on. -/
def DepGraph.addDegree (g : DepGraph) (inDegree : List Nat) (dep : Bytes) : List Nat :=
  inDegree.modify (g.findIdx (·.1 = dep)) (· + 1)

def DepGraph.inDegrees (g : DepGraph) : List Nat :=
  (g.flatMap Prod.snd).foldl g.addDegree (List.replicate g.length 0)

/-- What the loop of `dep_graph_topo_sort` works on. -/
structure Sorting where
  inDegree : List Nat
  queue : List Bytes
  sorted : List Bytes

/-- A package `pkg` that the `i`th entry depends on is done. The count wraps around. -/
def Sorting.relax (pkg : Bytes) (s : Sorting) (i : Nat) (e : Bytes × List Bytes) : Sorting :=
  e.2.foldl (fun s dep =>
    if dep = pkg then
      let s := { s with inDegree := s.inDegree.modify i fun d => (d + (2 ^ 64 - 1)) % 2 ^ 64 }
      if s.inDegree[i]? = some 0 then { s with queue := addName s.queue e.1 } else s
    else s) s

/-- The `while` loop; nothing when it is not over after so many rounds. -/
def DepGraph.sortLoop (g : DepGraph) : Nat → Sorting → Option (List Bytes)
  | 0, _ => none
  | fuel + 1, s =>
    match s.queue with
    | [] => some s.sorted
    | pkg :: queue =>
      g.sortLoop fuel (g.zipIdx.foldl (fun s e => s.relax pkg e.2 e.1)
        { s with queue := queue, sorted := addName s.sorted pkg })

/-- `dep_graph_topo_sort`: nothing when there is a cycle. -/
def DepGraph.topoSort (g : DepGraph) (fuel : Nat) : Option (Option (List Bytes)) :=
  let roots := (g.zip g.inDegrees).filter (·.2 = 0)
  let start : Sorting := ⟨g.inDegrees, roots.foldl (fun q e => addName q e.1.1) [], []⟩
  (g.sortLoop fuel start).map fun sorted => if sorted.length < g.length then none else some sorted

/-! ### The search -/

structure Action where
  name : Bytes
  version : Option Bytes
  isAur : Bool
  pkgbase : Option Bytes
  deriving DecidableEq

/-- `strip_dep_version` -/
def stripDepVersion (dep : Bytes) : Bytes := dep.takeWhile fun c => decide (c ≠ 60 ∧ c ≠ 62 ∧ c ≠ 61)

/-- The action for a package that is not in the AUR, or not found there. -/
def plainAction (name : Bytes) : Action := ⟨name, none, false, none⟩

/-- The action for a package of a response. -/
def AurPkg.action (p : AurPkg) : Action := ⟨p.name, p.version, true, p.pkgbase⟩

/-- `action_list_contains` -/
def containsAction (actions : List Action) (name : Bytes) : Bool := actions.any (·.name = name)

/-- What `process_deps` works on. -/
structure Round where
  seen : List Bytes
  next : List Bytes
  changed : Bool
  install : List Action
  graph : DepGraph

section Search
variable (rpc : Rpc)

/-- One dependency in `process_deps`. -/
def Round.dep (build : List Action) (parent : Bytes) (r : Round) (dep : Bytes) : Round :=
  let name := stripDepVersion dep
  if name = [] then r
  else if name ∉ r.seen then
    if rpc.isAurPackage name then
      { r with seen := addName r.seen name, next := addName r.next name, changed := true,
               graph := r.graph.addEdge parent name }
    else if containsAction r.install name then { r with seen := addName r.seen name }
    else { r with seen := addName r.seen name, install := r.install ++ [plainAction name] }
  else if containsAction build name then { r with graph := r.graph.addEdge parent name }
  else r

/-- `process_deps` -/
def processDeps (build : List Action) (parent : Bytes) (r : Round) (deps : List Bytes) : Round :=
  deps.foldl (Round.dep rpc build parent) r

/-- A package of the response in `resolve_targets`. -/
def Round.pkg (x : List Action × Round) (p : AurPkg) : List Action × Round :=
  let build := if containsAction x.1 p.name then x.1 else x.1 ++ [p.action]
  (build, processDeps rpc build p.name (processDeps rpc build p.name (processDeps rpc build p.name x.2
    p.depends) p.makedepends) p.checkdepends)

/-- What `resolve_targets` works on. -/
structure Search where
  queue : List Bytes
  seen : List Bytes
  install : List Action
  build : List Action
  graph : DepGraph

/-- One round of the loop, and whether it found packages to ask for. -/
def Search.round (s : Search) : Search × Bool :=
  let x := (rpc.infoBatch s.queue).foldl (Round.pkg rpc)
    (s.build, ⟨s.seen, [], false, s.install, s.graph⟩)
  (⟨x.2.next, x.2.seen, x.2.install, x.1, x.2.graph⟩, x.2.changed)

/-- The loop, for so many rounds at most. -/
def Search.loop : Nat → Search → Search
  | 0, s => s
  | rounds + 1, s =>
    if s.queue = [] then s
    else
      let next := s.round rpc
      if next.2 then Search.loop rounds next.1 else next.1

/-- The first pass over the targets. -/
def Search.start (targets : List Bytes) : Search :=
  targets.foldl (fun s target => { s with seen := addName s.seen target,
                                          queue := addName s.queue target,
                                          graph := s.graph.getOrCreate target })
    ⟨[], [], [], [], []⟩

structure Plan where
  install : List Action
  build : List Action
  missing : List Action
  deriving DecidableEq

/-- The build list in the order of the sorted packages. -/
def sortedBuild (build : List Action) (sorted : List Bytes) : List Action :=
  sorted.filterMap fun name => build.find? (·.name = name)

/-- The plan at the end of the search, in the order of the graph if it can be sorted. -/
def Search.plan (s : Search) (sorted : Option (List Bytes)) : Plan :=
  { install := s.install
    build := match sorted with
      | some sorted => if sorted = [] then s.build else sortedBuild s.build sorted
      | none => s.build
    missing := s.queue.map plainAction }

/-- `resolve_targets`; nothing when the sorting is not over after so many rounds. -/
def resolveTargets (fuel : Nat) (targets : List Bytes) : Option Plan :=
  if targets = [] then some ⟨[], [], []⟩
  else
    let s := Search.loop rpc 50 (Search.start targets)
    (s.graph.topoSort fuel).map s.plan

end Search

end Two09.Aur
