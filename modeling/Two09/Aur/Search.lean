import Two09.Aur.Resolve

/-!
# The rounds of the search

What a round adds to the plan, said at once for all packages of a response, and what the graph has edges
for.
-/

namespace Two09.Aur

open Two09.Lib

/-! ### Names -/

/-- The names a package depends on. -/
def AurPkg.depNames (p : AurPkg) : List Bytes :=
  ((p.depends ++ p.makedepends ++ p.checkdepends).map stripDepVersion).filter (· ≠ [])

/-- The names that are new, in the order in which they come. -/
def fresh (seen : List Bytes) : List Bytes → List Bytes
  | [] => []
  | name :: names =>
    if name ∈ seen then fresh seen names else name :: fresh (seen ++ [name]) names

section Fresh
variable {seen names more : List Bytes} {name : Bytes}

lemma mem_fresh : name ∈ fresh seen names ↔ name ∈ names ∧ name ∉ seen := by
  induction names generalizing seen with
  | nil => simp [fresh]
  | cons n names ih =>
    rw [fresh]
    split_ifs with hn
    · rw [ih, List.mem_cons]
      constructor
      · exact fun h => ⟨.inr h.1, h.2⟩
      · rintro ⟨rfl | h, hs⟩
        · exact absurd hn hs
        · exact ⟨h, hs⟩
    · rw [List.mem_cons, ih, List.mem_cons, List.mem_append, List.mem_singleton, not_or]
      constructor
      · rintro (rfl | ⟨h, hs, -⟩)
        · exact ⟨.inl rfl, hn⟩
        · exact ⟨.inr h, hs⟩
      · rintro ⟨rfl | h, hs⟩
        · exact .inl rfl
        · by_cases heq : name = n
          · exact .inl heq
          · exact .inr ⟨h, hs, heq⟩

lemma nodup_fresh (seen names : List Bytes) : (fresh seen names).Nodup := by
  induction names generalizing seen with
  | nil => exact List.nodup_nil
  | cons n names ih =>
    rw [fresh]
    split_ifs with hn
    · exact ih seen
    · refine List.nodup_cons.2 ⟨fun h => (mem_fresh.1 h).2 ?_, ih _⟩
      exact List.mem_append_right _ (List.mem_singleton.2 rfl)

lemma fresh_append : fresh seen (names ++ more) =
    fresh seen names ++ fresh (seen ++ fresh seen names) more := by
  induction names generalizing seen with
  | nil => simp [fresh]
  | cons n names ih =>
    rw [List.cons_append, fresh, fresh]
    split_ifs with hn
    · exact ih
    · rw [ih, List.cons_append, List.append_assoc, List.singleton_append]

lemma mem_addName {n : Bytes} : n ∈ addName names name ↔ n ∈ names ∨ n = name := by
  unfold addName
  split_ifs with h
  · exact ⟨.inl, fun hn => hn.elim id fun heq => heq ▸ h⟩
  · rw [List.mem_append, List.mem_singleton]

lemma addName_of_notMem (h : name ∉ names) : addName names name = names ++ [name] := if_neg h

end Fresh

/-! ### The graph -/

namespace DepGraph

/-- That the graph says that `a` depends on `b`. -/
def Edge (g : DepGraph) (a b : Bytes) : Prop := ∃ e ∈ g, e.1 = a ∧ b ∈ e.2

/-- One entry for a package, and one for each that is depended on. -/
structure WF (g : DepGraph) : Prop where
  nodup : (g.map Prod.fst).Nodup
  closed : ∀ a b, g.Edge a b → b ∈ g.map Prod.fst

section Graph
variable {g : DepGraph} {a b pkg dep name : Bytes}

lemma map_getOrCreate (g : DepGraph) (name : Bytes) :
    (g.getOrCreate name).map Prod.fst = addName (g.map Prod.fst) name := by
  unfold getOrCreate addName
  split_ifs
  · rfl
  · simp

lemma edge_getOrCreate : (g.getOrCreate name).Edge a b ↔ g.Edge a b := by
  unfold getOrCreate
  split_ifs
  · rfl
  · constructor
    · rintro ⟨e, he, heq, hb⟩
      rcases List.mem_append.1 he with he | he
      · exact ⟨e, he, heq, hb⟩
      · obtain rfl := List.mem_singleton.1 he
        cases hb
    · rintro ⟨e, he, heq, hb⟩
      exact ⟨e, List.mem_append_left _ he, heq, hb⟩

lemma nodup_addName {names : List Bytes} (h : names.Nodup) : (addName names name).Nodup := by
  unfold addName
  split_ifs with hn
  · exact h
  · rw [List.nodup_append]
    refine ⟨h, List.nodup_singleton _, fun x hx y hy hxy => hn ?_⟩
    obtain rfl := List.mem_singleton.1 hy
    exact hxy ▸ hx

lemma WF.getOrCreate (h : g.WF) (name : Bytes) : (g.getOrCreate name).WF := by
  constructor
  · rw [map_getOrCreate]
    exact nodup_addName h.nodup
  · intro a b hab
    rw [map_getOrCreate]
    exact mem_addName.2 (.inl (h.closed a b (edge_getOrCreate.1 hab)))

lemma map_append (g : DepGraph) (pkg dep : Bytes) :
    (DepGraph.append pkg dep g).map Prod.fst = g.map Prod.fst := by
  induction g with
  | nil => rfl
  | cons e g ih =>
    rw [DepGraph.append]
    split_ifs
    · rfl
    · rw [List.map_cons, List.map_cons, ih]

lemma edge_append (h : pkg ∈ g.map Prod.fst) :
    Edge (DepGraph.append pkg dep g) a b ↔ g.Edge a b ∨ (a = pkg ∧ b = dep) := by
  induction g with
  | nil => cases h
  | cons e g ih =>
    rw [DepGraph.append]
    split_ifs with he
    · constructor
      · rintro ⟨e', he', rfl, hb⟩
        rcases List.mem_cons.1 he' with rfl | he'
        · rcases List.mem_append.1 hb with hb | hb
          · exact .inl ⟨e, List.mem_cons_self, rfl, hb⟩
          · exact .inr ⟨he, List.mem_singleton.1 hb⟩
        · exact .inl ⟨e', List.mem_cons_of_mem _ he', rfl, hb⟩
      · rintro (⟨e', he', rfl, hb⟩ | ⟨rfl, rfl⟩)
        · rcases List.mem_cons.1 he' with rfl | he'
          · exact ⟨_, List.mem_cons_self, rfl, List.mem_append_left _ hb⟩
          · exact ⟨e', List.mem_cons_of_mem _ he', rfl, hb⟩
        · exact ⟨_, List.mem_cons_self, he, List.mem_append_right _ (List.mem_singleton.2 rfl)⟩
    · have hrest : pkg ∈ g.map Prod.fst :=
        (List.mem_cons.1 h).resolve_left fun heq => he heq.symm
      have hstep : ∀ {g' : DepGraph}, Edge (e :: g') a b ↔ (e.1 = a ∧ b ∈ e.2) ∨ Edge g' a b := by
        intro g'
        constructor
        · rintro ⟨e', he', heq, hb⟩
          rcases List.mem_cons.1 he' with rfl | he'
          · exact .inl ⟨heq, hb⟩
          · exact .inr ⟨e', he', heq, hb⟩
        · rintro (⟨heq, hb⟩ | ⟨e', he', heq, hb⟩)
          · exact ⟨e, List.mem_cons_self, heq, hb⟩
          · exact ⟨e', List.mem_cons_of_mem _ he', heq, hb⟩
      rw [hstep, hstep, ih hrest, or_assoc]

lemma edge_of_mem_deps (h : dep ∈ g.deps pkg) : g.Edge pkg dep := by
  unfold deps at h
  cases hfind : g.find? (·.1 = pkg) with
  | none => simp [hfind] at h
  | some e =>
    rw [hfind] at h
    exact ⟨e, List.mem_of_find?_eq_some hfind, by simpa using List.find?_some hfind, h⟩

/-- **An edge more.** -/
lemma edge_addEdge : (g.addEdge pkg dep).Edge a b ↔ g.Edge a b ∨ (a = pkg ∧ b = dep) := by
  have hmem : pkg ∈ (g.getOrCreate pkg).map Prod.fst := by
    rw [map_getOrCreate]
    exact mem_addName.2 (.inr rfl)
  unfold addEdge
  simp only
  split_ifs with hdep
  · rw [edge_getOrCreate]
    refine ⟨.inl, fun h => h.elim id ?_⟩
    rintro ⟨rfl, rfl⟩
    exact edge_getOrCreate.1 (edge_of_mem_deps hdep)
  · rw [edge_getOrCreate, edge_append hmem, edge_getOrCreate]

lemma WF.addEdge (h : g.WF) (pkg dep : Bytes) : (g.addEdge pkg dep).WF := by
  have hcreate := h.getOrCreate pkg
  unfold DepGraph.addEdge
  simp only
  split_ifs with hdep
  · exact hcreate
  · have hmem : pkg ∈ (g.getOrCreate pkg).map Prod.fst := by
      rw [map_getOrCreate]
      exact mem_addName.2 (.inr rfl)
    constructor
    · rw [map_getOrCreate, map_append]
      exact nodup_addName hcreate.nodup
    · intro a b hab
      rw [map_getOrCreate, map_append]
      rw [edge_getOrCreate, edge_append hmem] at hab
      rcases hab with hab | ⟨-, rfl⟩
      · exact mem_addName.2 (.inl (hcreate.closed a b hab))
      · exact mem_addName.2 (.inr rfl)

/-! ### The sorting -/

lemma length_foldl_addDegree (g : DepGraph) (deps : List Bytes) (degrees : List Nat) :
    (deps.foldl g.addDegree degrees).length = degrees.length := by
  induction deps generalizing degrees with
  | nil => rfl
  | cons d deps ih => rw [List.foldl_cons, ih, addDegree, List.length_modify]

/-- A count that is zero in the end was never raised. -/
lemma foldl_addDegree_zero {deps : List Bytes} {degrees : List Nat} {i : Nat}
    (h : (deps.foldl g.addDegree degrees)[i]? = some 0) :
    degrees[i]? = some 0 ∧ ∀ d ∈ deps, g.findIdx (·.1 = d) ≠ i := by
  induction deps generalizing degrees with
  | nil => exact ⟨h, List.forall_mem_nil _⟩
  | cons d deps ih =>
    obtain ⟨hzero, hdeps⟩ := ih h
    rw [addDegree, List.getElem?_modify] at hzero
    split_ifs at hzero with hi
    · obtain ⟨n, -, hn⟩ := Option.map_eq_some_iff.1 hzero
      omega
    · exact ⟨by simpa using hzero, List.forall_mem_cons.2 ⟨hi, hdeps⟩⟩

lemma findIdx_eq (h : (g.map Prod.fst).Nodup) {i : Nat} (hi : i < g.length) :
    g.findIdx (·.1 = g[i].1) = i := by
  rw [List.findIdx_eq hi]
  refine ⟨by simp, fun j hj => ?_⟩
  have hlt : j < g.length := by omega
  have hne : g[j].1 ≠ g[i].1 :=
    List.pairwise_iff_getElem.1 (List.pairwise_map.1 h) j i hlt hi hj
  simpa using hne

/-- The packages that nothing depends on, as the counts tell them. -/
def roots (g : DepGraph) : List Bytes := ((g.zip g.inDegrees).filter (·.2 = 0)).map (·.1.1)

lemma length_inDegrees (g : DepGraph) : g.inDegrees.length = g.length := by
  rw [inDegrees, length_foldl_addDegree, List.length_replicate]

lemma roots_sublist (g : DepGraph) : (roots g).Sublist (g.map Prod.fst) := by
  have hzip : (g.zip g.inDegrees).map (·.1.1) = g.map Prod.fst := by
    have hfst : (g.zip g.inDegrees).map Prod.fst = g :=
      List.map_fst_zip (by rw [length_inDegrees])
    calc (g.zip g.inDegrees).map (·.1.1) = ((g.zip g.inDegrees).map Prod.fst).map Prod.fst := by
          rw [List.map_map]
          rfl
      _ = g.map Prod.fst := by rw [hfst]
  rw [← hzip]
  exact List.filter_sublist.map _

lemma not_edge_root (h : g.WF) (hb : b ∈ roots g) (a : Bytes) : ¬ g.Edge a b := by
  rintro ⟨e, he, -, hdep⟩
  obtain ⟨x, hx, rfl⟩ := List.mem_map.1 hb
  obtain ⟨hzip, hzero⟩ := List.mem_filter.1 hx
  obtain ⟨i, hi, hxi⟩ := List.mem_iff_getElem.1 hzip
  have hlt : i < g.length := by
    rw [List.length_zip] at hi
    omega
  have hdeg : i < g.inDegrees.length := by rwa [length_inDegrees]
  rw [List.getElem_zip] at hxi
  have hcount : g.inDegrees[i]? = some 0 := by
    rw [List.getElem?_eq_getElem hdeg]
    simpa [← hxi] using hzero
  have hnever := (foldl_addDegree_zero hcount).2 x.1.1 (List.mem_flatMap.2 ⟨e, he, hdep⟩)
  rw [← hxi] at hnever
  exact hnever (findIdx_eq h.nodup hlt)

lemma roots_eq_of_no_edge (h : ∀ a b, ¬ g.Edge a b) : roots g = g.map Prod.fst := by
  have hnone : g.flatMap Prod.snd = [] := by
    refine List.flatMap_eq_nil_iff.2 fun e he => List.eq_nil_iff_forall_not_mem.2 fun b hb => ?_
    exact h e.1 b ⟨e, he, rfl, hb⟩
  have hdeg : g.inDegrees = List.replicate g.length 0 := by
    rw [inDegrees, hnone]
    rfl
  refine (roots_sublist g).eq_of_length_le ?_
  rw [roots, hdeg, List.length_map, List.length_map, List.filter_eq_self.2]
  · simp
  · intro x hx
    have hmem := (List.of_mem_zip hx).2
    simpa using List.eq_of_mem_replicate hmem

lemma relax_eq_self {e : Bytes × List Bytes} (h : pkg ∉ e.2) (s : Sorting) (i : Nat) :
    s.relax pkg i e = s := by
  have hrun : ∀ deps : List Bytes, pkg ∉ deps → deps.foldl (fun s dep =>
      if dep = pkg then
        let s := { s with inDegree := s.inDegree.modify i fun d => (d + (2 ^ 64 - 1)) % 2 ^ 64 }
        if s.inDegree[i]? = some 0 then { s with queue := addName s.queue e.1 } else s
      else s) s = s := by
    intro deps hdeps
    induction deps with
    | nil => rfl
    | cons d deps ih =>
      have hd : d ≠ pkg := fun h => hdeps (h ▸ List.mem_cons_self)
      rw [List.foldl_cons, if_neg hd]
      exact ih fun hm => hdeps (List.mem_cons_of_mem _ hm)
  exact hrun e.2 h

/-- A package that nothing depends on is taken out, and that is all. -/
lemma sortLoop_eq {fuel : Nat} {s : Sorting} (hfuel : s.queue.length < fuel)
    (h : ∀ b ∈ s.queue, ∀ a, ¬ g.Edge a b) :
    g.sortLoop fuel s = some (s.queue.foldl addName s.sorted) := by
  induction fuel generalizing s with
  | zero => omega
  | succ fuel ih =>
    obtain ⟨degrees, queue, sorted⟩ := s
    cases queue with
    | nil => rfl
    | cons pkg queue =>
      have hstep : ∀ (es : List ((Bytes × List Bytes) × Nat)), (∀ e ∈ es, e.1 ∈ g) → ∀ s : Sorting,
          es.foldl (fun s e => s.relax pkg e.2 e.1) s = s := by
        intro es hes
        induction es with
        | nil => exact fun _ => rfl
        | cons e es ih' =>
          intro s
          obtain ⟨he, hes⟩ := List.forall_mem_cons.1 hes
          have hout : pkg ∉ e.1.2 :=
            fun hdep => h pkg List.mem_cons_self e.1.1 ⟨e.1, he, rfl, hdep⟩
          rw [List.foldl_cons, relax_eq_self hout, ih' hes]
      have hmem : ∀ e ∈ g.zipIdx, e.1 ∈ g := fun e he => List.fst_mem_of_mem_zipIdx he
      rw [sortLoop]
      simp only [hstep g.zipIdx hmem]
      exact ih (Nat.lt_of_succ_lt_succ hfuel) fun b hb => h b (List.mem_cons_of_mem _ hb)

lemma foldl_addName {names more : List Bytes} (h : (names ++ more).Nodup) :
    more.foldl addName names = names ++ more := by
  induction more generalizing names with
  | nil => simp
  | cons n more ih =>
    have hn : n ∉ names := by
      intro hm
      exact (List.nodup_append.1 h).2.2 n hm n List.mem_cons_self rfl
    rw [List.foldl_cons, addName_of_notMem hn]
    have hnext : (names ++ [n] ++ more).Nodup := by simpa using h
    rw [ih hnext]
    simp

/-- **The sorting gives the packages as they are in the graph, and nothing as soon as one depends on
another.** -/
theorem topoSort_eq (h : g.WF) {fuel : Nat} (hfuel : g.length < fuel) :
    ((∀ a b, ¬ g.Edge a b) → g.topoSort fuel = some (some (g.map Prod.fst))) ∧
    ((∃ a b, g.Edge a b) → g.topoSort fuel = some none) := by
  have hnodup := (roots_sublist g).nodup h.nodup
  have hlen := (roots_sublist g).length_le
  rw [List.length_map] at hlen
  have hqueue : ((g.zip g.inDegrees).filter (·.2 = 0)).foldl (fun q e => addName q e.1.1) [] =
      roots g := by
    have hmap : ((g.zip g.inDegrees).filter (·.2 = 0)).foldl (fun q e => addName q e.1.1) [] =
        (roots g).foldl addName [] := by
      rw [roots, List.foldl_map]
    rw [hmap, foldl_addName (by simpa using hnodup), List.nil_append]
  have hsorted : g.topoSort fuel = some (if (roots g).length < g.length then none
      else some (roots g)) := by
    have hloop := @sortLoop_eq g fuel ⟨g.inDegrees, roots g, []⟩ (by simpa using by omega)
      fun b hb a => not_edge_root h hb a
    rw [foldl_addName (by simpa using hnodup), List.nil_append] at hloop
    rw [topoSort]
    simp only [hqueue, hloop]
    rfl
  constructor
  · intro hnone
    rw [hsorted, roots_eq_of_no_edge hnone, List.length_map, if_neg (lt_irrefl _)]
  · rintro ⟨a, b, hab⟩
    rw [hsorted, if_pos]
    by_contra hge
    have heq := (roots_sublist g).eq_of_length_le (by rw [List.length_map]; omega)
    exact not_edge_root h (heq ▸ h.closed a b hab) a hab

end Graph

/-- That some package depends on another, as far as the graph says. -/
def HasEdge (g : DepGraph) : Prop := ∃ a b, g.Edge a b

lemma hasEdge_addEdge (g : DepGraph) (pkg dep : Bytes) : (g.addEdge pkg dep).HasEdge :=
  ⟨pkg, dep, edge_addEdge.2 (.inr ⟨rfl, rfl⟩)⟩

end DepGraph

/-! ### The dependencies of a package -/

/-- A dependency by its name. -/
def Round.named (rpc : Rpc) (build : List Action) (parent : Bytes) (r : Round) (name : Bytes) : Round :=
  if name ∉ r.seen then
    if rpc.isAurPackage name then
      { r with seen := addName r.seen name, next := addName r.next name, changed := true,
               graph := r.graph.addEdge parent name }
    else if containsAction r.install name then { r with seen := addName r.seen name }
    else { r with seen := addName r.seen name, install := r.install ++ [plainAction name] }
  else if containsAction build name then { r with graph := r.graph.addEdge parent name }
  else r

section Names
variable {rpc : Rpc} {build : List Action} {parent : Bytes} {r r₁ r₂ : Round}
  {names more : List Bytes} {name : Bytes}

lemma processDeps_eq (deps : List Bytes) : processDeps rpc build parent r deps =
    ((deps.map stripDepVersion).filter (· ≠ [])).foldl (Round.named rpc build parent) r := by
  unfold processDeps
  induction deps generalizing r with
  | nil => rfl
  | cons dep deps ih =>
    rw [List.foldl_cons, ih, List.map_cons]
    by_cases hname : stripDepVersion dep = []
    · rw [List.filter_cons_of_neg (by simpa using hname), Round.dep, if_pos hname]
    · rw [List.filter_cons_of_pos (by simpa using hname), List.foldl_cons, Round.dep, if_neg hname]
      rfl

/-- A package of the response, by the names it depends on. -/
lemma pkg_eq (x : List Action × Round) (p : AurPkg) :
    Round.pkg rpc x p =
      (if containsAction x.1 p.name then x.1 else x.1 ++ [p.action],
        p.depNames.foldl (Round.named rpc
          (if containsAction x.1 p.name then x.1 else x.1 ++ [p.action]) p.name) x.2) := by
  rw [Round.pkg]
  simp only [processDeps_eq, AurPkg.depNames, List.map_append, List.filter_append, List.foldl_append]

/-- What is asked for next and what is to be installed has been seen. -/
structure Round.Tidy (r : Round) : Prop where
  next : ∀ n ∈ r.next, n ∈ r.seen
  install : ∀ a ∈ r.install, a.name ∈ r.seen

/-- What some names add to a round. -/
structure Found (rpc : Rpc) (r r' : Round) (names : List Bytes) : Prop where
  seen : r'.seen = r.seen ++ fresh r.seen names
  next : r'.next = r.next ++ (fresh r.seen names).filter rpc.isAurPackage
  changed : r'.changed = (r.changed || (fresh r.seen names).any rpc.isAurPackage)
  install : r'.install = r.install ++
    ((fresh r.seen names).filter fun n => !rpc.isAurPackage n).map plainAction

lemma Found.rfl' : Found rpc r r [] := ⟨by simp [fresh], by simp [fresh], by simp [fresh], by simp [fresh]⟩

lemma Found.trans (h₁ : Found rpc r r₁ names) (h₂ : Found rpc r₁ r₂ more) :
    Found rpc r r₂ (names ++ more) := by
  constructor
  · rw [h₂.seen, h₁.seen, fresh_append, List.append_assoc]
  · rw [h₂.next, h₁.next, h₁.seen, fresh_append, List.filter_append, List.append_assoc]
  · rw [h₂.changed, h₁.changed, h₁.seen, fresh_append, List.any_append, Bool.or_assoc]
  · rw [h₂.install, h₁.install, h₁.seen, fresh_append, List.filter_append, List.map_append,
      List.append_assoc]

lemma Found.tidy (h : Found rpc r r₁ names) (ht : r.Tidy) : r₁.Tidy := by
  constructor
  · intro n hn
    rw [h.next] at hn
    rw [h.seen]
    rcases List.mem_append.1 hn with hn | hn
    · exact List.mem_append_left _ (ht.next n hn)
    · exact List.mem_append_right _ (List.mem_of_mem_filter hn)
  · intro a ha
    rw [h.install] at ha
    rw [h.seen]
    rcases List.mem_append.1 ha with ha | ha
    · exact List.mem_append_left _ (ht.install a ha)
    · obtain ⟨n, hn, rfl⟩ := List.mem_map.1 ha
      exact List.mem_append_right _ (List.mem_of_mem_filter hn)

/-- One name. -/
lemma found_named (ht : r.Tidy) (name : Bytes) :
    Found rpc r (Round.named rpc build parent r name) [name] := by
  unfold Round.named
  by_cases hseen : name ∈ r.seen
  · have hfresh : fresh r.seen [name] = [] := by simp [fresh, hseen]
    rw [if_neg (not_not.2 hseen)]
    split_ifs <;> exact ⟨by simp [hfresh], by simp [hfresh], by simp [hfresh], by simp [hfresh]⟩
  · have hfresh : fresh r.seen [name] = [name] := by simp [fresh, hseen]
    have hadd : addName r.seen name = r.seen ++ [name] := addName_of_notMem hseen
    rw [if_pos hseen]
    by_cases haur : rpc.isAurPackage name = true
    · have hnext : addName r.next name = r.next ++ [name] :=
        addName_of_notMem fun hm => hseen (ht.next name hm)
      rw [if_pos haur]
      exact ⟨by simp [hfresh, hadd], by simp [hfresh, hnext, haur], by simp [hfresh, haur],
        by simp [hfresh, haur]⟩
    · have hinstall : containsAction r.install name = false := by
        rw [containsAction, List.any_eq_false]
        intro a ha heq
        exact hseen (of_decide_eq_true heq ▸ ht.install a ha)
      rw [if_neg haur, hinstall]
      exact ⟨by simp [hfresh, hadd], by simp [hfresh, haur], by simp [hfresh, haur],
        by simp [hfresh, haur]⟩

/-- All names of a package. -/
lemma found_names (ht : r.Tidy) (names : List Bytes) :
    Found rpc r (names.foldl (Round.named rpc build parent) r) names := by
  induction names generalizing r with
  | nil => exact .rfl'
  | cons name names ih =>
    have hstep := @found_named rpc build parent r ht name
    exact hstep.trans (ih (hstep.tidy ht))

/-- What a name does to the graph. -/
lemma graph_named : (Round.named rpc build parent r name).graph = r.graph ∨
    (Round.named rpc build parent r name).graph = r.graph.addEdge parent name := by
  unfold Round.named
  split_ifs
  · exact .inr rfl
  · exact .inl rfl
  · exact .inr rfl
  · exact .inl rfl
  · exact .inl rfl

/-- A name is entered as an edge if it is that of a package found now or before. -/
lemma hasEdge_named : (Round.named rpc build parent r name).graph.HasEdge ↔ r.graph.HasEdge ∨
    (name ∉ r.seen ∧ rpc.isAurPackage name = true) ∨
    (name ∈ r.seen ∧ containsAction build name = true) := by
  have hadd := DepGraph.hasEdge_addEdge r.graph parent name
  unfold Round.named
  split_ifs with hseen hbuild haur
  · exact ⟨fun _ => .inr (.inr ⟨hseen, hbuild⟩), fun _ => hadd⟩
  · exact ⟨.inl, fun h => h.elim id fun h => h.elim (fun h => absurd hseen h.1)
      fun h => absurd h.2 hbuild⟩
  · exact ⟨fun _ => .inr (.inl ⟨hseen, haur⟩), fun _ => hadd⟩
  · exact ⟨.inl, fun h => h.elim id fun h => h.elim (fun h => absurd h.2 haur)
      fun h => absurd h.1 hseen⟩
  · exact ⟨.inl, fun h => h.elim id fun h => h.elim (fun h => absurd h.2 haur)
      fun h => absurd h.1 hseen⟩

end Names

/-! ### The packages of a response -/

/-- The build list with a package. -/
def addAction (build : List Action) (p : AurPkg) : List Action :=
  if containsAction build p.name then build else build ++ [p.action]

/-- The graph of a search: with edges, or only the targets. -/
structure GraphOf (targets : List Bytes) (g : DepGraph) : Prop where
  wf : g.WF
  bare : ¬ g.HasEdge → g.map Prod.fst = targets

section Packages
variable {rpc : Rpc} {x : List Action × Round} {p : AurPkg} {pkgs : List AurPkg} {targets : List Bytes}
  {build : List Action} {parent name : Bytes} {names : List Bytes} {r : Round}

lemma graphOf_names (h : GraphOf targets r.graph) (names : List Bytes) :
    GraphOf targets (names.foldl (Round.named rpc build parent) r).graph := by
  induction names generalizing r with
  | nil => exact h
  | cons name names ih =>
    refine ih ?_
    rcases @graph_named rpc build parent r name with heq | heq
    · rw [heq]
      exact h
    · rw [heq]
      exact ⟨h.wf.addEdge parent name, fun hno => absurd (DepGraph.hasEdge_addEdge _ _ _) hno⟩

lemma hasEdge_names_mono (h : r.graph.HasEdge) (names : List Bytes) :
    (names.foldl (Round.named rpc build parent) r).graph.HasEdge := by
  induction names generalizing r with
  | nil => exact h
  | cons name names ih => exact ih (hasEdge_named.2 (.inl h))

/-- A package that is found leaves an edge. -/
lemma hasEdge_of_found (h : ∃ n ∈ fresh r.seen names, rpc.isAurPackage n = true) (ht : r.Tidy) :
    (names.foldl (Round.named rpc build parent) r).graph.HasEdge := by
  induction names generalizing r with
  | nil =>
    obtain ⟨n, hn, -⟩ := h
    cases hn
  | cons name names ih =>
    obtain ⟨n, hn, haur⟩ := h
    have hstep := @found_named rpc build parent r ht name
    rw [← List.singleton_append, fresh_append, ← hstep.seen] at hn
    rcases List.mem_append.1 hn with hn | hn
    · have hname : name ∉ r.seen := by
        intro hseen
        simp [fresh, hseen] at hn
      obtain rfl : n = name := by simpa [fresh, hname] using hn
      exact hasEdge_names_mono (hasEdge_named.2 (.inr (.inl ⟨hname, haur⟩))) names
    · exact ih ⟨n, hn, haur⟩ (hstep.tidy ht)

/-- The edges that names leave when what is to be built has been seen. -/
lemma hasEdge_names (ht : r.Tidy) (hbuild : ∀ a ∈ build, a.name ∈ r.seen) :
    (names.foldl (Round.named rpc build parent) r).graph.HasEdge ↔ r.graph.HasEdge ∨
      (∃ n ∈ fresh r.seen names, rpc.isAurPackage n = true) ∨
      ∃ n ∈ names, containsAction build n = true := by
  have hseen : ∀ n, containsAction build n = true → n ∈ r.seen := by
    intro n hn
    obtain ⟨a, ha, heq⟩ := List.any_eq_true.1 hn
    exact of_decide_eq_true heq ▸ hbuild a ha
  induction names generalizing r with
  | nil => simp [fresh]
  | cons name names ih =>
    have hstep := @found_named rpc build parent r ht name
    have hmono : ∀ n ∈ r.seen, n ∈ (Round.named rpc build parent r name).seen := by
      intro n hn
      rw [hstep.seen]
      exact List.mem_append_left _ hn
    have hnext := ih (hstep.tidy ht) (fun a ha => hmono _ (hbuild a ha))
      fun n hn => hmono n (hseen n hn)
    rw [List.foldl_cons]
    refine hnext.trans ?_
    rw [hasEdge_named, hstep.seen]
    have hfresh : fresh r.seen (name :: names) =
        fresh r.seen [name] ++ fresh (r.seen ++ fresh r.seen [name]) names :=
      @fresh_append r.seen [name] names
    have hfirst : (∃ n ∈ fresh r.seen [name], rpc.isAurPackage n = true) ↔
        name ∉ r.seen ∧ rpc.isAurPackage name = true := by
      by_cases hname : name ∈ r.seen
      · simp [fresh, hname]
      · simp [fresh, hname]
    have hknown : (name ∈ r.seen ∧ containsAction build name = true) ↔
        containsAction build name = true := ⟨And.right, fun h => ⟨hseen name h, h⟩⟩
    have hfound : (∃ n ∈ fresh r.seen [name] ++ fresh (r.seen ++ fresh r.seen [name]) names,
        rpc.isAurPackage n = true) ↔ (∃ n ∈ fresh r.seen [name], rpc.isAurPackage n = true) ∨
          ∃ n ∈ fresh (r.seen ++ fresh r.seen [name]) names, rpc.isAurPackage n = true := by
      simp only [List.mem_append, or_and_right, exists_or]
    have hbuilt : (∃ n ∈ name :: names, containsAction build n = true) ↔
        containsAction build name = true ∨ ∃ n ∈ names, containsAction build n = true :=
      List.exists_mem_cons_iff ..
    rw [hfresh, hknown, ← hfirst, hfound, hbuilt]
    constructor
    · rintro ((h | h | h) | h | h)
      · exact .inl h
      · exact .inr (.inl (.inl h))
      · exact .inr (.inr (.inl h))
      · exact .inr (.inl (.inr h))
      · exact .inr (.inr (.inr h))
    · rintro (h | (h | h) | h | h)
      · exact .inl (.inl h)
      · exact .inl (.inr (.inl h))
      · exact .inr (.inl h)
      · exact .inl (.inr (.inr h))
      · exact .inr (.inr h)

/-- **What a whole response adds.** -/
lemma found_pkgs (ht : x.2.Tidy) (pkgs : List AurPkg) :
    Found rpc x.2 (pkgs.foldl (Round.pkg rpc) x).2 (pkgs.flatMap AurPkg.depNames) ∧
      (pkgs.foldl (Round.pkg rpc) x).1 = pkgs.foldl addAction x.1 := by
  induction pkgs generalizing x with
  | nil => exact ⟨.rfl', rfl⟩
  | cons p pkgs ih =>
    have hpkg := @pkg_eq rpc x p
    have hfound := @found_names rpc (addAction x.1 p) p.name x.2 ht p.depNames
    have hstep : Found rpc x.2 (Round.pkg rpc x p).2 p.depNames := by
      rw [hpkg]
      exact hfound
    obtain ⟨hrest, hbuild⟩ := ih (hstep.tidy ht)
    rw [List.foldl_cons, List.flatMap_cons]
    refine ⟨hstep.trans hrest, ?_⟩
    rw [hbuild, hpkg]
    rfl

lemma graphOf_pkgs (h : GraphOf targets x.2.graph) (pkgs : List AurPkg) :
    GraphOf targets (pkgs.foldl (Round.pkg rpc) x).2.graph := by
  induction pkgs generalizing x with
  | nil => exact h
  | cons p pkgs ih =>
    refine ih ?_
    rw [pkg_eq]
    exact graphOf_names h p.depNames

lemma hasEdge_pkgs_mono (h : x.2.graph.HasEdge) (pkgs : List AurPkg) :
    (pkgs.foldl (Round.pkg rpc) x).2.graph.HasEdge := by
  induction pkgs generalizing x with
  | nil => exact h
  | cons p pkgs ih =>
    refine ih ?_
    rw [pkg_eq]
    exact hasEdge_names_mono h p.depNames

lemma hasEdge_of_found_pkgs (ht : x.2.Tidy)
    (h : ∃ n ∈ fresh x.2.seen (pkgs.flatMap AurPkg.depNames), rpc.isAurPackage n = true) :
    (pkgs.foldl (Round.pkg rpc) x).2.graph.HasEdge := by
  induction pkgs generalizing x with
  | nil =>
    obtain ⟨n, hn, -⟩ := h
    cases hn
  | cons p pkgs ih =>
    obtain ⟨n, hn, haur⟩ := h
    have hfound := @found_names rpc (addAction x.1 p) p.name x.2 ht p.depNames
    have hgraph := @hasEdge_of_found rpc (addAction x.1 p) p.name p.depNames x.2
    have hpkg := @pkg_eq rpc x p
    rw [List.flatMap_cons, fresh_append] at hn
    rw [List.foldl_cons, hpkg]
    rcases List.mem_append.1 hn with hn | hn
    · exact hasEdge_pkgs_mono (hgraph ⟨n, hn, haur⟩ ht) pkgs
    · refine ih (hfound.tidy ht) ⟨n, ?_, haur⟩
      exact hfound.seen.symm ▸ hn

lemma containsAction_iff {n : Bytes} : containsAction build n = true ↔ n ∈ build.map Action.name := by
  rw [containsAction, List.any_eq_true, List.mem_map]
  exact exists_congr fun a => and_congr_right fun _ => decide_eq_true_iff

lemma map_addAction (build : List Action) (p : AurPkg) :
    (addAction build p).map Action.name = addName (build.map Action.name) p.name := by
  unfold addAction addName
  by_cases h : p.name ∈ build.map Action.name
  · rw [if_pos (containsAction_iff.2 h), if_pos h]
  · rw [if_neg (mt containsAction_iff.1 h), if_neg h, List.map_append]
    rfl

/-- That a package depends on one that comes before it, or on itself. -/
def LooksBack (built : List Bytes) : List AurPkg → Prop
  | [] => False
  | p :: pkgs => (∃ n ∈ p.depNames, n ∈ addName built p.name) ∨ LooksBack (addName built p.name) pkgs

lemma not_looksBack_iff {built : List Bytes} : ¬ LooksBack built pkgs ↔
    (∀ p ∈ pkgs, p.name ∉ p.depNames ∧ ∀ n ∈ built, n ∉ p.depNames) ∧
      pkgs.Pairwise fun q p => q.name ∉ p.depNames := by
  induction pkgs generalizing built with
  | nil => simp [LooksBack]
  | cons p pkgs ih =>
    rw [LooksBack, not_or, ih, List.forall_mem_cons, List.pairwise_cons]
    have hbuilt : (¬ ∃ n ∈ p.depNames, n ∈ addName built p.name) ↔
        p.name ∉ p.depNames ∧ ∀ n ∈ built, n ∉ p.depNames := by
      constructor
      · intro h
        exact ⟨fun hn => h ⟨_, hn, mem_addName.2 (.inr rfl)⟩,
          fun n hb hn => h ⟨n, hn, mem_addName.2 (.inl hb)⟩⟩
      · rintro ⟨hself, hb⟩ ⟨n, hn, hmem⟩
        rcases mem_addName.1 hmem with h | rfl
        · exact hb n h hn
        · exact hself hn
    rw [hbuilt]
    constructor
    · rintro ⟨hp, hrest, hpair⟩
      refine ⟨⟨hp, fun q hq => ⟨(hrest q hq).1, fun n hn => ?_⟩⟩, fun q hq => ?_, hpair⟩
      · exact (hrest q hq).2 n (mem_addName.2 (.inl hn))
      · exact (hrest q hq).2 p.name (mem_addName.2 (.inr rfl))
    · rintro ⟨⟨hp, hrest⟩, hfirst, hpair⟩
      refine ⟨hp, fun q hq => ⟨(hrest q hq).1, fun n hn => ?_⟩, hpair⟩
      rcases mem_addName.1 hn with h | rfl
      · exact (hrest q hq).2 n h
      · exact hfirst q hq

/-- The edges that a response leaves when all its packages have been seen. -/
lemma hasEdge_pkgs (ht : x.2.Tidy) (hbuild : ∀ a ∈ x.1, a.name ∈ x.2.seen)
    (hpkgs : ∀ p ∈ pkgs, p.name ∈ x.2.seen) :
    (pkgs.foldl (Round.pkg rpc) x).2.graph.HasEdge ↔ x.2.graph.HasEdge ∨
      (∃ n ∈ fresh x.2.seen (pkgs.flatMap AurPkg.depNames), rpc.isAurPackage n = true) ∨
      LooksBack (x.1.map Action.name) pkgs := by
  induction pkgs generalizing x with
  | nil => simp [fresh, LooksBack]
  | cons p pkgs ih =>
    obtain ⟨hp, hpkgs⟩ := List.forall_mem_cons.1 hpkgs
    have hfound := @found_names rpc (addAction x.1 p) p.name x.2 ht p.depNames
    have hadd : ∀ a ∈ addAction x.1 p, a.name ∈ x.2.seen := by
      intro a ha
      have hname : a.name ∈ (addAction x.1 p).map Action.name := List.mem_map_of_mem ha
      rw [map_addAction] at hname
      rcases mem_addName.1 hname with h | h
      · obtain ⟨b, hb, heq⟩ := List.mem_map.1 h
        exact heq ▸ hbuild b hb
      · exact h ▸ hp
    have hedge := @hasEdge_names rpc (addAction x.1 p) p.name p.depNames x.2 ht hadd
    have hmono : ∀ n ∈ x.2.seen, n ∈ (p.depNames.foldl (Round.named rpc (addAction x.1 p) p.name)
        x.2).seen := by
      intro n hn
      rw [hfound.seen]
      exact List.mem_append_left _ hn
    have hpkg : Round.pkg rpc x p = (addAction x.1 p,
      p.depNames.foldl (Round.named rpc (addAction x.1 p) p.name) x.2) := pkg_eq x p
    have hrest := @ih (addAction x.1 p, p.depNames.foldl (Round.named rpc (addAction x.1 p) p.name) x.2)
      (hfound.tidy ht) (fun a ha => hmono _ (hadd a ha)) (fun q hq => hmono _ (hpkgs q hq))
    simp only at hrest
    rw [hedge, hfound.seen, map_addAction] at hrest
    rw [List.foldl_cons, hpkg, hrest, LooksBack, List.flatMap_cons, fresh_append]
    have hsplit : (∃ n ∈ fresh x.2.seen p.depNames ++
        fresh (x.2.seen ++ fresh x.2.seen p.depNames) (pkgs.flatMap AurPkg.depNames),
        rpc.isAurPackage n = true) ↔ (∃ n ∈ fresh x.2.seen p.depNames, rpc.isAurPackage n = true) ∨
          ∃ n ∈ fresh (x.2.seen ++ fresh x.2.seen p.depNames) (pkgs.flatMap AurPkg.depNames),
            rpc.isAurPackage n = true := by
      simp only [List.mem_append, or_and_right, exists_or]
    have hcontains : (∃ n ∈ p.depNames, containsAction (addAction x.1 p) n = true) ↔
        ∃ n ∈ p.depNames, n ∈ addName (x.1.map Action.name) p.name := by
      simp only [containsAction_iff, map_addAction]
    rw [hsplit, hcontains]
    constructor
    · rintro ((h | h | h) | h | h)
      · exact .inl h
      · exact .inr (.inl (.inl h))
      · exact .inr (.inr (.inl h))
      · exact .inr (.inl (.inr h))
      · exact .inr (.inr (.inr h))
    · rintro (h | (h | h) | h | h)
      · exact .inl (.inl h)
      · exact .inl (.inr (.inl h))
      · exact .inr (.inl h)
      · exact .inl (.inr (.inr h))
      · exact .inr (.inr h)

end Packages

/-! ### Runs of the search -/

/-- One round, without the word on whether it found anything. -/
def Search.step (rpc : Rpc) (s : Search) : Search := (s.round rpc).1

/-- The search after so many rounds. -/
def Search.run (rpc : Rpc) (targets : List Bytes) (rounds : Nat) : Search :=
  (Search.step rpc)^[rounds] (Search.start targets)

/-- The names that a round sees for the first time. -/
def Search.found (rpc : Rpc) (s : Search) : List Bytes :=
  fresh s.seen ((rpc.infoBatch s.queue).flatMap AurPkg.depNames)

section Runs
variable {rpc : Rpc} {s : Search} {targets : List Bytes}

/-- What is to be installed has been seen. -/
def Search.Tidy (s : Search) : Prop := ∀ a ∈ s.install, a.name ∈ s.seen

/-- **One round**: what it puts in the queue, sees, installs and builds. -/
lemma step_spec (ht : s.Tidy) :
    (s.step rpc).queue = (s.found rpc).filter rpc.isAurPackage ∧
    (s.step rpc).seen = s.seen ++ s.found rpc ∧
    (s.step rpc).install =
      s.install ++ ((s.found rpc).filter fun n => !rpc.isAurPackage n).map plainAction ∧
    (s.step rpc).build = (rpc.infoBatch s.queue).foldl addAction s.build ∧
    (s.round rpc).2 = (s.found rpc).any rpc.isAurPackage := by
  have htidy : (⟨s.seen, [], false, s.install, s.graph⟩ : Round).Tidy :=
    ⟨List.forall_mem_nil _, ht⟩
  obtain ⟨hfound, hbuild⟩ := @found_pkgs rpc (s.build, ⟨s.seen, [], false, s.install, s.graph⟩) htidy
    (rpc.infoBatch s.queue)
  exact ⟨hfound.next, hfound.seen, hfound.install, hbuild, hfound.changed.trans (Bool.false_or _)⟩

lemma tidy_step (ht : s.Tidy) : (s.step rpc).Tidy := by
  obtain ⟨-, hseen, hinstall, -, -⟩ := @step_spec rpc s ht
  intro a ha
  rw [hinstall] at ha
  rw [hseen]
  rcases List.mem_append.1 ha with ha | ha
  · exact List.mem_append_left _ (ht a ha)
  · obtain ⟨n, hn, rfl⟩ := List.mem_map.1 ha
    exact List.mem_append_right _ (List.mem_of_mem_filter hn)

/-- A round without anything to ask for changes nothing. -/
lemma step_of_empty (hq : s.queue = []) : s.step rpc = s := by
  obtain ⟨queue, seen, install, build, graph⟩ := s
  obtain rfl : queue = [] := hq
  rfl

/-- **The loop is its rounds**, those after its end included. -/
lemma loop_eq (ht : s.Tidy) (rounds : Nat) : Search.loop rpc rounds s = (Search.step rpc)^[rounds] s := by
  have hstay : ∀ (rounds : Nat) (s : Search), s.queue = [] → (Search.step rpc)^[rounds] s = s := by
    intro rounds s hq
    exact Function.iterate_fixed (step_of_empty hq) rounds
  induction rounds generalizing s with
  | zero => rfl
  | succ rounds ih =>
    rw [Search.loop]
    by_cases hq : s.queue = []
    · rw [if_pos hq, hstay _ s hq]
    · rw [if_neg hq, Function.iterate_succ_apply]
      obtain ⟨hqueue, -, -, -, hchanged⟩ := @step_spec rpc s ht
      simp only
      split_ifs with hmore
      · exact ih (tidy_step ht)
      · have hnone : (s.step rpc).queue = [] := by
          rw [hqueue, List.filter_eq_nil_iff]
          intro n hn haur
          rw [hchanged] at hmore
          exact hmore (List.any_eq_true.2 ⟨n, hn, haur⟩)
        rw [hstay rounds _ hnone]
        rfl

end Runs

end Two09.Aur
