import Two09.Alpm.Lists
import Two09.Alpm.Remove
import Two09.Lib.DepthFirst

/-!
# The order of a transaction

`_alpm_sortbydeps`: packages are installed after those that they depend on, and removed before them. The order is
that in which a depth-first search leaves the packages, among them the installed ones through which a package may
need another one; where a dependency closes a cycle, the order is a warning instead.
-/

namespace Two09.Alpm

open Lib

/-- `_alpm_pkg_cmp` -/
def pkgCmp (pkg1 pkg2 : Pkg) : Ordering := strcmp pkg1.name pkg2.name

/-- The vertices that a package has an edge to. -/
def edgesAmong (vertices : List Pkg) (pkg : Pkg) : List ℕ :=
  (List.range vertices.length).filter fun j => (vertices[j]?).any (pkgDependsOn pkg)

/-- The loop of `dep_graph_init` from the vertex `i` on: all vertices, and the children of those from `i` on. -/
def depGraphLoop : ℕ → List Pkg → ℕ → List Pkg → List Pkg × List (List ℕ)
  | 0, vertices, _, _ => (vertices, [])
  | n + 1, vertices, i, localpkgs =>
    match vertices[i]? with
    | none => (vertices, [])
    | some p =>
      let moved := localpkgs.filter (pkgDependsOn p)
      let children := edgesAmong vertices p ++ List.range' vertices.length moved.length
      let rest := depGraphLoop n (vertices ++ moved) (i + 1) (localpkgs.filter fun q => !pkgDependsOn p q)
      (rest.1, children :: rest.2)

/-- The installed packages that may become vertices. -/
def graphLocals (dbLocal targets ignore : List Pkg) : List Pkg :=
  let localpkgs := listDiff pkgCmp dbLocal targets
  if ignore.isEmpty then localpkgs else listDiff pkgCmp localpkgs ignore

/-- `dep_graph_init` -/
def depGraphInit (dbLocal targets ignore : List Pkg) : List Pkg × List (List ℕ) :=
  let localpkgs := graphLocals dbLocal targets ignore
  depGraphLoop (targets.length + localpkgs.length) targets 0 localpkgs

/-- `alpm_list_find_ptr` -/
def findPtr (haystack : List Pkg) (needle : Pkg) : Bool := haystack.any fun pkg => pkg.addr = needle.addr

/-- `_alpm_warn_dep_cycle`: the nearest ancestor and the child that it is to be warned of, if it is. -/
def warnDepCycle (targets vertices : List Pkg) (ancestors : List ℕ) (child : ℕ) : Option (Pkg × Pkg) :=
  let isTarget := fun v => (vertices[v]?).any (findPtr targets)
  if isTarget child then
    match ancestors.find? isTarget with
    | none => none
    | some ancestor =>
      if ancestor = child then none
      else (vertices[ancestor]?).bind fun ancestorpkg => (vertices[child]?).map fun childpkg => (ancestorpkg, childpkg)
  else none

/-- The text of such a warning. -/
def cycleText (reverse : Bool) (warning : Pkg × Pkg) : Bytes :=
  ascii "dependency cycle detected:\\n" ++ warning.1.name ++
    ascii (if reverse then " will be removed after its " else " will be installed before its ") ++ warning.2.name ++
    ascii " dependency\\n"

/-- `_alpm_sortbydeps`, with the cycles that it warns of; none when it does not come to an end. -/
def sortbydeps (dbLocal targets ignore : List Pkg) (reverse : Bool) : Option (List Pkg × List (Pkg × Pkg)) :=
  if targets.isEmpty then some ([], [])
  else
    let graph := depGraphInit dbLocal targets ignore
    (depthFirst graph.1.length fun v => (graph.2[v]?).getD []).map fun search =>
      let newtargs := (search.1.filterMap fun v => graph.1[v]?).filter (findPtr targets)
      (if reverse then newtargs.reverse else newtargs,
        search.2.filterMap fun e => warnDepCycle targets graph.1 e.1 e.2)

variable {dbLocal targets ignore vertices localpkgs : List Pkg} {p q x : Pkg} {n i k v w u : ℕ} {reverse : Bool}

/-! ### The graph -/

section Graph

lemma mem_edgesAmong : w ∈ edgesAmong vertices p ↔ ∃ q, vertices[w]? = some q ∧ pkgDependsOn p q = true := by
  rw [edgesAmong, List.mem_filter, List.mem_range, Option.any_eq_true]
  exact and_iff_right_of_imp fun ⟨q, hq, _⟩ => (List.getElem?_eq_some_iff.1 hq).1

/-- The children that a vertex gets in its turn are those that it has in the end. -/
lemma mem_children_iff {moved more : List Pkg} (hmoved : ∀ x ∈ moved, pkgDependsOn p x = true)
    (hmore : ∀ x ∈ more, pkgDependsOn p x = false) :
    w ∈ edgesAmong vertices p ++ List.range' vertices.length moved.length ↔
      ∃ q, (vertices ++ (moved ++ more))[w]? = some q ∧ pkgDependsOn p q = true := by
  rw [List.mem_append, mem_edgesAmong, List.mem_range'_1]
  by_cases hw : w < vertices.length
  · rw [List.getElem?_append_left hw]
    exact or_iff_left fun h => absurd h.1 (by omega)
  · have hnone : vertices[w]? = none := List.getElem?_eq_none (by omega)
    rw [List.getElem?_append_right (by omega), hnone]
    simp only [reduceCtorEq, false_and, exists_false, false_or]
    by_cases hw' : w - vertices.length < moved.length
    · rw [List.getElem?_append_left hw', List.getElem?_eq_getElem hw']
      exact iff_of_true (by omega) ⟨_, rfl, hmoved _ (List.getElem_mem _)⟩
    · rw [List.getElem?_append_right (by omega)]
      refine iff_of_false (by omega) ?_
      rintro ⟨q, hq, hdep⟩
      rw [hmore q (List.mem_of_getElem? hq)] at hdep
      cases hdep

/-- **The graph**: some of the installed packages become vertices, and a vertex depends on no other installed package;
its children are the vertices that it depends on. -/
lemma depGraphLoop_spec (n : ℕ) (vertices : List Pkg) (i : ℕ) (localpkgs : List Pkg)
    (hn : vertices.length + localpkgs.length ≤ i + n) :
    ∃ moved stay, (depGraphLoop n vertices i localpkgs).1 = vertices ++ moved ∧ (moved ++ stay).Perm localpkgs ∧
      (depGraphLoop n vertices i localpkgs).2.length ≤ (vertices ++ moved).length - i ∧ ∀ k p, i ≤ k → (vertices ++ moved)[k]? = some p → (∀ x ∈ stay, pkgDependsOn p x = false) ∧
        ∃ children, (depGraphLoop n vertices i localpkgs).2[k - i]? = some children ∧
          ∀ w, w ∈ children ↔ ∃ q, (vertices ++ moved)[w]? = some q ∧ pkgDependsOn p q = true := by
  induction n generalizing vertices i localpkgs with
  | zero =>
    refine ⟨[], localpkgs, by rw [List.append_nil]; rfl, .refl _, Nat.zero_le _, fun k p hk hp => ?_⟩
    rw [List.append_nil, List.getElem?_eq_none (by omega)] at hp
    cases hp
  | succ n ih =>
    cases hi : vertices[i]? with
    | none =>
      have hlen := List.getElem?_eq_none_iff.1 hi
      refine ⟨[], localpkgs, by rw [depGraphLoop, hi, List.append_nil], .refl _, ?_, fun k p hk hp => ?_⟩
      · rw [depGraphLoop, hi]
        exact Nat.zero_le _
      rw [List.append_nil, List.getElem?_eq_none (by omega)] at hp
      cases hp
    | some p =>
      have hlt := (List.getElem?_eq_some_iff.1 hi).1
      have hfilter := List.length_eq_length_filter_add (pkgDependsOn p) (l := localpkgs)
      obtain ⟨moved, stay, hvertices, hperm, hlen, hchildren⟩ := ih
        (vertices ++ localpkgs.filter (pkgDependsOn p)) (i + 1) (localpkgs.filter fun q => !pkgDependsOn p q)
        (by rw [List.length_append]; omega)
      have hrest : ∀ x, x ∈ moved ++ stay → pkgDependsOn p x = false := fun x hx => by
        simpa using (List.mem_filter.1 (hperm.mem_iff.1 hx)).2
      rw [List.append_assoc] at hvertices hlen hchildren
      rw [depGraphLoop, hi]
      simp only
      refine ⟨localpkgs.filter (pkgDependsOn p) ++ moved, stay, hvertices, ?_, ?_, fun k r hk hr => ?_⟩
      · rw [List.append_assoc]
        exact (hperm.append_left _).trans (List.filter_append_perm _ _)
      · rw [List.length_append] at hlen ⊢
        rw [List.length_cons]
        omega
      rcases hk.eq_or_lt with rfl | hk
      · rw [List.getElem?_append_left hlt, hi] at hr
        cases hr
        refine ⟨fun x hx => hrest x (List.mem_append_right _ hx), _, by rw [Nat.sub_self]; rfl, fun w => ?_⟩
        exact mem_children_iff (fun x hx => (List.mem_filter.1 hx).2) fun x hx => hrest x (List.mem_append_left _ hx)
      · obtain ⟨hstay, children, hget, hmem⟩ := hchildren k r hk hr
        refine ⟨hstay, children, ?_, hmem⟩
        rw [← hget, show k - i = k - (i + 1) + 1 by omega, List.getElem?_cons_succ]

instance : Std.TransCmp pkgCmp := transCmp_comap strcmp Pkg.name

lemma pkgCmp_eq_iff : pkgCmp p q = .eq ↔ p.name = q.name := by
  unfold pkgCmp strcmp
  exact Std.LawfulEqCmp.compare_eq_iff_eq

/-- The installed packages that are not of the transaction. -/
def otherPkgs (dbLocal targets ignore : List Pkg) : List Pkg :=
  dbLocal.filter fun p => (targets ++ ignore).all fun q => pkgCmp p q ≠ .eq

lemma mem_otherPkgs : p ∈ otherPkgs dbLocal targets ignore ↔ p ∈ dbLocal ∧ ∀ q ∈ targets ++ ignore, q.name ≠ p.name := by
  rw [otherPkgs, List.mem_filter, List.all_eq_true]
  refine and_congr_right fun _ => forall₂_congr fun q _ => ?_
  rw [decide_eq_true_eq, Ne, pkgCmp_eq_iff, eq_comm]

lemma graphLocals_perm (hlocal : (dbLocal.map Pkg.name).Nodup) :
    (graphLocals dbLocal targets ignore).Perm (otherPkgs dbLocal targets ignore) := by
  have hne : dbLocal.Pairwise fun p q => pkgCmp p q ≠ .eq :=
    (List.pairwise_map.1 hlocal).imp fun {p q} h heq => h (pkgCmp_eq_iff.1 heq)
  have htargets := listDiff_perm targets hne
  have hsub : (dbLocal.filter fun a => targets.all fun b => pkgCmp a b ≠ .eq).Pairwise fun p q => pkgCmp p q ≠ .eq :=
    hne.sublist List.filter_sublist
  have hdiff : (listDiff pkgCmp dbLocal targets).Pairwise fun p q => pkgCmp p q ≠ .eq :=
    htargets.symm.pairwise hsub fun {p q} h heq => h (Std.OrientedCmp.eq_symm heq)
  unfold graphLocals
  simp only
  split
  next hnil =>
    rw [List.isEmpty_iff.1 hnil, otherPkgs, List.append_nil]
    exact htargets
  next =>
    refine ((listDiff_perm ignore hdiff).trans (htargets.filter _)).trans ?_
    rw [List.filter_filter, otherPkgs]
    refine .of_eq (List.filter_congr fun p _ => ?_)
    rw [List.all_append, Bool.and_comm]

/-- A graph of the packages that the targets need. -/
structure IsGraph (dbLocal targets ignore : List Pkg) (graph : List Pkg × List (List ℕ)) : Prop where
  nodup : graph.1.Nodup
  covers : ∀ p ∈ targets, p ∈ graph.1
  filter : graph.1.filter (findPtr targets) = targets
  mem : ∀ p ∈ graph.1, p ∈ targets ++ otherPkgs dbLocal targets ignore
  closed : ∀ p ∈ graph.1, ∀ q ∈ targets ++ otherPkgs dbLocal targets ignore, pkgDependsOn p q = true → q ∈ graph.1
  length : graph.2.length ≤ graph.1.length
  edge : ∀ (v : ℕ) (p : Pkg), graph.1[v]? = some p →
    ∀ w, w ∈ (graph.2[v]?).getD [] ↔ ∃ q, graph.1[w]? = some q ∧ pkgDependsOn p q = true

lemma isGraph_init (hlocal : (dbLocal.map Pkg.name).Nodup)
    (haddr : ∀ p ∈ targets, ∀ q ∈ dbLocal, p.addr = q.addr → p.name = q.name) (htargets : targets.Nodup)
    (ignore : List Pkg) : IsGraph dbLocal targets ignore (depGraphInit dbLocal targets ignore) := by
  obtain ⟨moved, stay, hvertices, hperm, hlen, hchildren⟩ := depGraphLoop_spec
    (targets.length + (graphLocals dbLocal targets ignore).length) targets 0 (graphLocals dbLocal targets ignore)
    (by omega)
  have hothers : ∀ p, p ∈ moved ++ stay ↔ p ∈ otherPkgs dbLocal targets ignore := fun p =>
    (hperm.trans (graphLocals_perm hlocal)).mem_iff
  have hmoved : ∀ p ∈ moved, p ∈ otherPkgs dbLocal targets ignore := fun p hp =>
    (hothers p).1 (List.mem_append_left _ hp)
  have hnot : ∀ p ∈ moved, findPtr targets p = false := by
    intro p hp
    obtain ⟨hdb, hnames⟩ := mem_otherPkgs.1 (hmoved p hp)
    by_contra hfound
    obtain ⟨t, ht, heq⟩ := List.any_eq_true.1 (Bool.not_eq_false _ ▸ hfound)
    exact hnames t (List.mem_append_left _ ht) (haddr t ht p hdb (of_decide_eq_true heq))
  have hself : ∀ p ∈ targets, findPtr targets p = true := fun p hp =>
    List.any_eq_true.2 ⟨p, hp, decide_eq_true rfl⟩
  have hfst : (depGraphInit dbLocal targets ignore).1 = targets ++ moved := hvertices
  refine ⟨?_, fun p hp => ?_, ?_, fun p hp => ?_, fun p hp q hq hdep => ?_, ?_, fun v p hp w => ?_⟩
  · have hlocals : (moved ++ stay).Nodup :=
      (hperm.trans (graphLocals_perm hlocal)).nodup_iff.2 (hlocal.of_map.sublist List.filter_sublist)
    rw [hfst]
    refine List.nodup_append.2 ⟨htargets, (List.nodup_append.1 hlocals).1, fun p hp q hq heq => ?_⟩
    have hfalse := hnot q hq
    rw [← heq, hself p hp] at hfalse
    cases hfalse
  · rw [hfst]
    exact List.mem_append_left _ hp
  · rw [hfst, List.filter_append, List.filter_eq_self.2 hself, List.filter_eq_nil_iff.2 fun p hp => by simp [hnot p hp],
      List.append_nil]
  · rw [hfst] at hp
    exact List.mem_append.2 ((List.mem_append.1 hp).imp_right (hmoved p))
  · rw [hfst] at hp ⊢
    rcases List.mem_append.1 hq with hq | hq
    · exact List.mem_append_left _ hq
    rcases List.mem_append.1 ((hothers q).2 hq) with hq | hq
    · exact List.mem_append_right _ hq
    · obtain ⟨v, hv⟩ := List.mem_iff_getElem?.1 hp
      rw [(hchildren v p (Nat.zero_le _) hv).1 q hq] at hdep
      cases hdep
  · rw [hfst]
    exact hlen
  · rw [hfst] at hp ⊢
    obtain ⟨-, children, hget, hmem⟩ := hchildren v p (Nat.zero_le _) hp
    have hget' : (depGraphInit dbLocal targets ignore).2[v]? = some children := hget
    rw [hget', Option.getD_some, hmem]

end Graph

/-! ### The order -/

/-- A package depends on another one, and both may be vertices. -/
def DependsAmong (dbLocal targets ignore : List Pkg) (p q : Pkg) : Prop :=
  p ∈ targets ++ otherPkgs dbLocal targets ignore ∧ q ∈ targets ++ otherPkgs dbLocal targets ignore ∧
    pkgDependsOn p q = true

/-- The second comes before the first, up to the direction. -/
def Precedes (reverse : Bool) (sorted : List Pkg) (q p : Pkg) : Prop :=
  [q, p].Sublist (if reverse then sorted.reverse else sorted)

section Order

lemma mem_takeWhile_of_find? {path : List ℕ} {isTarget : ℕ → Bool} (h : path.find? isTarget = some u)
    (hw : isTarget w = true) (hne : u ≠ w) : u ∈ path.takeWhile (· ≠ w) := by
  induction path with
  | nil => cases h
  | cons v path ih =>
    rw [List.find?_cons] at h
    cases hv : isTarget v with
    | true =>
      rw [hv] at h
      cases h
      rw [List.takeWhile_cons_of_pos (by simpa using hne)]
      exact List.mem_cons_self
    | false =>
      rw [hv] at h
      have hvw : v ≠ w := fun heq => by rw [heq, hw] at hv; cases hv
      rw [List.takeWhile_cons_of_pos (by simpa using hvw)]
      exact List.mem_cons_of_mem _ (ih h)

lemma filterMap_range (vertices : List Pkg) : (List.range vertices.length).filterMap (fun v => vertices[v]?) = vertices := by
  induction vertices using List.reverseRecOn with
  | nil => rfl
  | append_singleton l p ih =>
    rw [List.length_append, List.length_singleton, List.range_succ, List.filterMap_append]
    have hinit : (List.range l.length).filterMap (fun v => (l ++ [p])[v]?) =
        (List.range l.length).filterMap fun v => l[v]? :=
      List.filterMap_congr fun v hv => List.getElem?_append_left (List.mem_range.1 hv)
    rw [hinit, ih]
    simp

variable {graph : List Pkg × List (List ℕ)}

/-- The edges of a graph, from vertex to vertex. -/
abbrev Edge (graph : List Pkg × List (List ℕ)) (v w : ℕ) : Prop := w ∈ (graph.2[v]?).getD []

lemma IsGraph.lt (h : IsGraph dbLocal targets ignore graph) (hedge : Edge graph v w) : v < graph.1.length := by
  by_contra hv
  have hlen := h.length
  rw [Edge, List.getElem?_eq_none (by omega)] at hedge
  cases hedge

lemma IsGraph.edge_lt (h : IsGraph dbLocal targets ignore graph) (hedge : Edge graph v w) : w < graph.1.length := by
  obtain ⟨q, hq, -⟩ := (h.edge v _ (List.getElem?_eq_getElem (h.lt hedge)) w).1 hedge
  exact (List.getElem?_eq_some_iff.1 hq).1

/-- Vertices that are reached are packages that are needed. -/
lemma IsGraph.reaches (h : IsGraph dbLocal targets ignore graph) (hvw : Relation.ReflTransGen (Edge graph) v w)
    (hv : graph.1[v]? = some p) :
    ∃ q, graph.1[w]? = some q ∧ Relation.ReflTransGen (DependsAmong dbLocal targets ignore) p q := by
  induction hvw with
  | refl => exact ⟨p, hv, .refl⟩
  | tail _ hedge ih =>
    obtain ⟨r, hr, hpr⟩ := ih
    obtain ⟨q, hq, hdep⟩ := (h.edge _ r hr _).1 hedge
    exact ⟨q, hq, hpr.tail ⟨h.mem r (List.mem_of_getElem? hr), h.mem q (List.mem_of_getElem? hq), hdep⟩⟩

lemma IsGraph.comesTo (h : IsGraph dbLocal targets ignore graph) (hvw : Relation.TransGen (Edge graph) v w)
    (hv : graph.1[v]? = some p) (hw : graph.1[w]? = some q) :
    Relation.TransGen (DependsAmong dbLocal targets ignore) p q := by
  obtain ⟨u, hvu, hedge⟩ := Relation.TransGen.tail'_iff.1 hvw
  obtain ⟨r, hr, hpr⟩ := h.reaches hvu hv
  obtain ⟨q', hq', hdep⟩ := (h.edge _ r hr _).1 hedge
  rw [hw] at hq'
  cases hq'
  exact .tail' hpr ⟨h.mem r (List.mem_of_getElem? hr), h.mem q (List.mem_of_getElem? hw), hdep⟩

/-- What a vertex needs without a cycle are vertices that are reached without one. -/
lemma IsGraph.reached (h : IsGraph dbLocal targets ignore graph) (hv : graph.1[v]? = some p)
    (hpq : Relation.TransGen (fun a b => DependsAmong dbLocal targets ignore a b ∧
      ¬ Relation.ReflTransGen (DependsAmong dbLocal targets ignore) b a) p q) :
    ∃ w, graph.1[w]? = some q ∧ Relation.TransGen (fun a b => a < graph.1.length ∧ Edge graph a b ∧
      ¬ Relation.ReflTransGen (Edge graph) b a) v w := by
  have hstep : ∀ u r s, graph.1[u]? = some r → DependsAmong dbLocal targets ignore r s →
      ¬ Relation.ReflTransGen (DependsAmong dbLocal targets ignore) s r →
      ∃ w, graph.1[w]? = some s ∧ u < graph.1.length ∧ Edge graph u w ∧ ¬ Relation.ReflTransGen (Edge graph) w u := by
    rintro u r s hu ⟨-, hs, hdep⟩ hback
    obtain ⟨w, hw⟩ := List.mem_iff_getElem?.1 (h.closed r (List.mem_of_getElem? hu) s hs hdep)
    refine ⟨w, hw, (List.getElem?_eq_some_iff.1 hu).1, (h.edge u r hu w).2 ⟨s, hw, hdep⟩, fun hwu => hback ?_⟩
    obtain ⟨r', hr', hreach⟩ := h.reaches hwu hw
    rw [hu] at hr'
    cases hr'
    exact hreach
  induction hpq with
  | single hdep =>
    obtain ⟨w, hw, hedge⟩ := hstep v p _ hv hdep.1 hdep.2
    exact ⟨w, hw, .single hedge⟩
  | tail _ hdep ih =>
    obtain ⟨u, hu, hvu⟩ := ih
    obtain ⟨w, hw, hedge⟩ := hstep u _ _ hu hdep.1 hdep.2
    exact ⟨w, hw, hvu.tail hedge⟩

/-- What the search says of two vertices, said of their packages. -/
lemma sublist_newtargs {order : List ℕ} (h : [w, v].Sublist order) (hw : vertices[w]? = some q) (hv : vertices[v]? = some p)
    (hq : findPtr targets q = true) (hp : findPtr targets p = true) :
    [q, p].Sublist ((order.filterMap fun v => vertices[v]?).filter (findPtr targets)) := by
  have hmap := (h.filterMap fun v => vertices[v]?).filter (findPtr targets)
  simpa [hw, hv, hq, hp] using hmap

lemma precedes_reverse {sorted : List Pkg} :
    Precedes reverse (if reverse then sorted.reverse else sorted) q p ↔ [q, p].Sublist sorted := by
  unfold Precedes
  cases reverse <;> simp

/-- What is warned of are two targets on a cycle, in the order in which the search leaves them. -/
lemma IsGraph.warned (h : IsGraph dbLocal targets ignore graph) {order path : List ℕ}
    (hcloses : ClosesCycle (fun v => (graph.2[v]?).getD []) order path w)
    (hwarn : warnDepCycle targets graph.1 path w = some (p, q)) :
    ∃ u, graph.1[u]? = some p ∧ graph.1[w]? = some q ∧ findPtr targets p = true ∧ findPtr targets q = true ∧
      [u, w].Sublist order ∧ Relation.TransGen (DependsAmong dbLocal targets ignore) p q ∧
      Relation.ReflTransGen (DependsAmong dbLocal targets ignore) q p := by
  unfold warnDepCycle at hwarn
  simp only at hwarn
  split at hwarn
  next hw =>
    split at hwarn
    next => cases hwarn
    next u hfind =>
      split at hwarn
      next => cases hwarn
      next hne =>
        obtain ⟨p', hp, hwarn⟩ := Option.bind_eq_some_iff.1 hwarn
        obtain ⟨q', hq, heq⟩ := Option.map_eq_some_iff.1 hwarn
        cases heq
        have hu := List.find?_some hfind
        have hmem := mem_takeWhile_of_find? hfind hw hne
        obtain ⟨huw, hwu⟩ := hcloses.cycle hmem
        rw [hp, Option.any_some] at hu
        rw [hq, Option.any_some] at hw
        obtain ⟨p', hp', hqp⟩ := h.reaches hwu hq
        rw [hp] at hp'
        cases hp'
        exact ⟨u, hp, hq, hu, hw, hcloses.before u hmem, h.comesTo huw hp hq, hqp⟩
  next => cases hwarn

/-- A target with an edge to another one that closes a cycle is its own nearest ancestor among the targets. -/
lemma warnDepCycle_of_edge {path : List ℕ} (hv : vertices[v]? = some p) (hw : vertices[w]? = some q)
    (hp : findPtr targets p = true) (hq : findPtr targets q = true) (hne : p ≠ q) :
    warnDepCycle targets vertices (v :: path) w = some (p, q) := by
  have hvw : v ≠ w := by
    rintro rfl
    rw [hv] at hw
    exact hne (Option.some_inj.1 hw)
  unfold warnDepCycle
  simp only [List.find?_cons, hv, hw, hp, hq, Option.any_some, if_true, hvw, if_false, Option.bind_some, Option.map_some]

/-- The sort comes to an end with the targets in another order. A target that depends on another one comes behind it
or is warned of, and what is warned of are two targets on a cycle, the first before the second. What a target needs by
way of others, without a cycle, comes before it. -/
lemma sortbydeps_spec (hlocal : (dbLocal.map Pkg.name).Nodup)
    (haddr : ∀ p ∈ targets, ∀ q ∈ dbLocal, p.addr = q.addr → p.name = q.name) (htargets : targets.Nodup)
    (ignore : List Pkg) (reverse : Bool) :
    ∃ sorted warnings, sortbydeps dbLocal targets ignore reverse = some (sorted, warnings) ∧ sorted.Perm targets ∧
      (∀ p ∈ targets, ∀ q ∈ targets, p ≠ q → pkgDependsOn p q = true →
        Precedes reverse sorted q p ∨ (p, q) ∈ warnings) ∧
      (∀ e ∈ warnings, e.1 ∈ targets ∧ e.2 ∈ targets ∧ Precedes reverse sorted e.1 e.2 ∧
        Relation.TransGen (DependsAmong dbLocal targets ignore) e.1 e.2 ∧
        Relation.ReflTransGen (DependsAmong dbLocal targets ignore) e.2 e.1) ∧
      ∀ p ∈ targets, ∀ q ∈ targets, Relation.TransGen (fun a b => DependsAmong dbLocal targets ignore a b ∧
        ¬ Relation.ReflTransGen (DependsAmong dbLocal targets ignore) b a) p q → Precedes reverse sorted q p := by
  cases hempty : targets.isEmpty with
  | true =>
    obtain rfl := List.isEmpty_iff.1 hempty
    exact ⟨[], [], rfl, .refl _, by simp, by simp, by simp⟩
  | false =>
  have h := isGraph_init hlocal haddr htargets ignore
  unfold sortbydeps
  rw [hempty, if_neg Bool.false_ne_true]
  simp only
  generalize depGraphInit dbLocal targets ignore = graph at h ⊢
  obtain ⟨order, cycles, hsearch, hperm, hedges, hcloses⟩ := depthFirst_spec graph.1.length
    (fun v => (graph.2[v]?).getD []) fun v w hw => h.edge_lt hw
  have hptr : ∀ p ∈ targets, findPtr targets p = true := fun p hp =>
    (List.mem_filter.1 (h.filter.symm ▸ hp : p ∈ graph.1.filter (findPtr targets))).2
  have hmem : ∀ p ∈ graph.1, findPtr targets p = true → p ∈ targets := fun p hp hfound => by
    rw [← h.filter]
    exact List.mem_filter.2 ⟨hp, hfound⟩
  rw [hsearch]
  refine ⟨_, _, rfl, ?_, fun p hp q hq hne hdep => ?_, fun e he => ?_, fun p hp q hq hpq => ?_⟩
  · have hsorted : ((order.filterMap fun v => graph.1[v]?).filter (findPtr targets)).Perm targets := by
      have hmap := (hperm.filterMap fun v => graph.1[v]?).filter (findPtr targets)
      rwa [filterMap_range, h.filter] at hmap
    simp only
    split
    · exact (List.reverse_perm _).trans hsorted
    · exact hsorted
  · obtain ⟨v, hv⟩ := List.mem_iff_getElem?.1 (h.covers p hp)
    obtain ⟨w, hw⟩ := List.mem_iff_getElem?.1 (h.covers q hq)
    rcases hedges v (List.getElem?_eq_some_iff.1 hv).1 w ((h.edge v p hv w).2 ⟨q, hw, hdep⟩) with hbefore | ⟨path, hcycle⟩
    · exact .inl (precedes_reverse.2 (sublist_newtargs hbefore hw hv (hptr q hq) (hptr p hp)))
    · exact .inr (List.mem_filterMap.2 ⟨_, hcycle, warnDepCycle_of_edge hv hw (hptr p hp) (hptr q hq) hne⟩)
  · obtain ⟨⟨path, w⟩, hcycle, hwarn⟩ := List.mem_filterMap.1 he
    obtain ⟨u, hu, hw, hp, hq, hbefore, huw, hwu⟩ := h.warned (hcloses _ hcycle) hwarn
    exact ⟨hmem _ (List.mem_of_getElem? hu) hp, hmem _ (List.mem_of_getElem? hw) hq,
      precedes_reverse.2 (sublist_newtargs hbefore hu hw hp hq), huw, hwu⟩
  · obtain ⟨v, hv⟩ := List.mem_iff_getElem?.1 (h.covers p hp)
    obtain ⟨w, hw, hvw⟩ := h.reached hv hpq
    have hbefore := before_of_reaches (hperm.nodup_iff.2 List.nodup_range) hedges hcloses hvw
    exact precedes_reverse.2 (sublist_newtargs hbefore hw hv (hptr q hq) (hptr p hp))

/-- **What a target needs comes before it**, and behind it when packages are removed: what it depends on directly or by
way of other packages, those of the transaction or installed ones, over dependencies that are on no cycle. -/
theorem sortbydeps_needed_first (hlocal : (dbLocal.map Pkg.name).Nodup)
    (haddr : ∀ p ∈ targets, ∀ q ∈ dbLocal, p.addr = q.addr → p.name = q.name) (htargets : targets.Nodup)
    (ignore : List Pkg) (reverse : Bool) :
    ∃ sorted warnings, sortbydeps dbLocal targets ignore reverse = some (sorted, warnings) ∧ sorted.Perm targets ∧
      ∀ p ∈ targets, ∀ q ∈ targets, Relation.TransGen (fun a b => DependsAmong dbLocal targets ignore a b ∧
        ¬ Relation.ReflTransGen (DependsAmong dbLocal targets ignore) b a) p q → Precedes reverse sorted q p := by
  obtain ⟨sorted, warnings, hsort, hperm, -, -, hneeds⟩ := sortbydeps_spec hlocal haddr htargets ignore reverse
  exact ⟨sorted, warnings, hsort, hperm, hneeds⟩

/-- **The order is a topological one up to its warnings**: a target comes before another one that it depends on exactly
if there is a warning of the two, and only targets on a cycle are warned of, those that come in this order. -/
theorem sortbydeps_warned_iff (hlocal : (dbLocal.map Pkg.name).Nodup)
    (haddr : ∀ p ∈ targets, ∀ q ∈ dbLocal, p.addr = q.addr → p.name = q.name) (htargets : targets.Nodup)
    (ignore : List Pkg) (reverse : Bool) :
    ∃ sorted warnings, sortbydeps dbLocal targets ignore reverse = some (sorted, warnings) ∧
      (∀ p ∈ targets, ∀ q ∈ targets, p ≠ q → pkgDependsOn p q = true →
        ((p, q) ∈ warnings ↔ ¬ Precedes reverse sorted q p)) ∧
      ∀ e ∈ warnings, e.1 ∈ targets ∧ e.2 ∈ targets ∧ Precedes reverse sorted e.1 e.2 ∧
        Relation.TransGen (DependsAmong dbLocal targets ignore) e.1 e.2 ∧
        Relation.ReflTransGen (DependsAmong dbLocal targets ignore) e.2 e.1 := by
  obtain ⟨sorted, warnings, hsort, hperm, horder, hwarned, -⟩ := sortbydeps_spec hlocal haddr htargets ignore reverse
  have hnodup : (if reverse then sorted.reverse else sorted).Nodup := by
    have hsorted := hperm.nodup_iff.2 htargets
    split
    · exact List.nodup_reverse.2 hsorted
    · exact hsorted
  refine ⟨sorted, warnings, hsort, fun p hp q hq hne hdep => ⟨fun hwarn hbefore => ?_, fun hnot => ?_⟩, hwarned⟩
  · exact not_before_swap hnodup hbefore (hwarned _ hwarn).2.2.1
  · exact (horder p hp q hq hne hdep).resolve_left hnot

/-- Two packages to install, the first with an installed one that needs the second. -/
def chainA : Pkg := { pkgOf [97] [depOn [109]] true with addr := 1 }

def chainB : Pkg := { pkgOf [98] [] true with addr := 2 }

def chainM : Pkg := { pkgOf [109] [depOn [98]] false with addr := 3 }

theorem sortbydeps_needed_first_chain : ∃ sorted warnings,
    sortbydeps [chainM] [chainA, chainB] [] false = some (sorted, warnings) ∧ sorted.Perm [chainA, chainB] ∧
      ∀ p ∈ [chainA, chainB], ∀ q ∈ [chainA, chainB],
        Relation.TransGen (fun a b => DependsAmong [chainM] [chainA, chainB] [] a b ∧
          ¬ Relation.ReflTransGen (DependsAmong [chainM] [chainA, chainB] []) b a) p q → Precedes false sorted q p :=
  sortbydeps_needed_first (by decide +kernel) (by decide +kernel) (by decide +kernel) [] false

theorem sortbydeps_warned_iff_chain : ∃ sorted warnings,
    sortbydeps [chainM] [chainA, chainB] [] true = some (sorted, warnings) ∧
      (∀ p ∈ [chainA, chainB], ∀ q ∈ [chainA, chainB], p ≠ q → pkgDependsOn p q = true →
        ((p, q) ∈ warnings ↔ ¬ Precedes true sorted q p)) ∧
      ∀ e ∈ warnings, e.1 ∈ [chainA, chainB] ∧ e.2 ∈ [chainA, chainB] ∧ Precedes true sorted e.1 e.2 ∧
        Relation.TransGen (DependsAmong [chainM] [chainA, chainB] []) e.1 e.2 ∧
        Relation.ReflTransGen (DependsAmong [chainM] [chainA, chainB] []) e.2 e.1 :=
  sortbydeps_warned_iff (by decide +kernel) (by decide +kernel) (by decide +kernel) [] true

end Order

end Two09.Alpm
