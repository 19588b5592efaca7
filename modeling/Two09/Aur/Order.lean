import Two09.Aur.Search

/-!
# The order of the builds

What `dep_graph_topo_sort` owes for any graph of packages, and the graphs it owes it for and keeps it: it
counts how many packages depend on each one, and takes the count down where a package depends on another, so
that nothing that another package depends on is ever put out.
-/

namespace Two09.Aur

open Relation Two09.Lib

/-! ### Any graph -/

/-- What a graph is made by. -/
inductive GraphCall
  | getOrCreate (name : Bytes)
  | addEdge (pkg dep : Bytes)

/-- The entries at which the counts are taken down when `pkg` is put out. -/
def Sorting.relaxAll (pkg : Bytes) (entries : List ((Bytes × List Bytes) × Nat)) (s : Sorting) : Sorting :=
  entries.foldl (fun s e => s.relax pkg e.2 e.1) s

/-- `pkg` leaves the queue, and is put out. -/
def Sorting.take (pkg : Bytes) (queue : List Bytes) (s : Sorting) : Sorting :=
  { s with queue := queue, sorted := addName s.sorted pkg }

namespace DepGraph

def made (g : DepGraph) : GraphCall → DepGraph
  | .getOrCreate name => g.getOrCreate name
  | .addEdge pkg dep => g.addEdge pkg dep

/-- The graph after some calls, from `dep_graph_new` on. -/
def ofCalls (calls : List GraphCall) : DepGraph := calls.foldl made []

lemma wf_ofCalls (calls : List GraphCall) : (ofCalls calls).WF := by
  have hrun : ∀ g : DepGraph, g.WF → (calls.foldl made g).WF := by
    induction calls with
    | nil => exact fun _ hg => hg
    | cons call calls ih =>
      intro g hg
      refine ih _ ?_
      cases call with
      | getOrCreate name => exact hg.getOrCreate name
      | addEdge pkg dep => exact hg.addEdge pkg dep
  exact hrun [] ⟨List.nodup_nil, by rintro a b ⟨e, he, -⟩; cases he⟩

/-- A package depends on itself, through others or not. -/
def Cyclic (g : DepGraph) : Prop := ∃ a, TransGen g.Edge a a

/-! ### The loop -/

section Loop

variable (g : DepGraph)

/-- Where the loop begins. -/
def start : Sorting :=
  ⟨g.inDegrees, ((g.zip g.inDegrees).filter (·.2 = 0)).foldl (fun q e => addName q e.1.1) [], []⟩

/-- A round of the loop. -/
def Turn (s t : Sorting) : Prop :=
  ∃ pkg queue, s.queue = pkg :: queue ∧ t = (s.take pkg queue).relaxAll pkg g.zipIdx

/-- In the round that `s` is in front of, a count that is zero is taken down. -/
def Wraps (s : Sorting) : Prop :=
  ∃ pkg queue, s.queue = pkg :: queue ∧
    ∃ before e i after, g.zipIdx = before ++ (e, i) :: after ∧
      ∃ deps more, e.2 = deps ++ pkg :: more ∧
        (((s.take pkg queue).relaxAll pkg before).relax pkg i (e.1, deps)).inDegree[i]? = some 0

end Loop

/-- The loop goes from turn to turn, and ends where the queue is empty. -/
lemma sortLoop_runs {g : DepGraph} {fuel : Nat} {s : Sorting} {names : List Bytes}
    (h : g.sortLoop fuel s = some names) : ∃ t, ReflTransGen g.Turn s t ∧ t.queue = [] ∧ t.sorted = names := by
  induction fuel generalizing s with
  | zero => cases h
  | succ fuel ih =>
    rw [sortLoop] at h
    cases hqueue : s.queue with
    | nil =>
      rw [hqueue] at h
      exact ⟨s, .refl, hqueue, Option.some.inj h⟩
    | cons pkg queue =>
      rw [hqueue] at h
      obtain ⟨t, hrun, hend⟩ := ih h
      exact ⟨t, .head ⟨pkg, queue, hqueue, rfl⟩ hrun, hend⟩

/-! ### What the sorting owes -/

/-- Every package once, each behind those that it depends on, and nothing exactly for a cycle. -/
structure Orders (g : DepGraph) (result : Option (List Bytes)) : Prop where
  none_iff : result = none ↔ g.Cyclic
  all : ∀ names, result = some names → names.Perm (g.map Prod.fst)
  behind : ∀ names, result = some names → ∀ a b, g.Edge a b → names.idxOf b < names.idxOf a

/-- The loop ends, takes down no count that is zero, and what it gives is an order. -/
structure Sorts (g : DepGraph) : Prop where
  counts : ∀ s, ReflTransGen g.Turn g.start s → ¬ g.Wraps s
  ends : ∃ rounds result, (∀ fuel ≥ rounds, g.topoSort fuel = some result) ∧ g.Orders result

section Sorting

variable {g : DepGraph} {s t : Sorting} {pkg : Bytes}

/-- Nothing depends on a package in the queue. -/
def Idle (g : DepGraph) (s : Sorting) : Prop := ∀ b ∈ s.queue, ∀ a, ¬ g.Edge a b

lemma idle_start (h : g.WF) : g.Idle g.start := by
  intro b hb
  refine not_edge_root h ?_
  have hmem : ∀ (es : List ((Bytes × List Bytes) × Nat)) (q : List Bytes),
      b ∈ es.foldl (fun q e => addName q e.1.1) q → b ∈ q ∨ b ∈ es.map (·.1.1) := by
    intro es
    induction es with
    | nil => exact fun q hq => .inl hq
    | cons e es ih =>
      intro q hq
      rcases ih _ hq with hq | hes
      · exact (mem_addName.1 hq).imp id fun h => List.mem_cons.2 (.inl h)
      · exact .inr (List.mem_cons_of_mem _ hes)
  exact (hmem _ _ hb).resolve_left List.not_mem_nil

/-- What is taken down is what something depends on: in front of an idle queue, nothing. -/
lemma relaxAll_eq_self {entries : List ((Bytes × List Bytes) × Nat)} (hpkg : ∀ a, ¬ g.Edge a pkg)
    (hentries : ∀ e ∈ entries, e.1 ∈ g) (s : Sorting) : s.relaxAll pkg entries = s := by
  induction entries generalizing s with
  | nil => rfl
  | cons e es ih =>
    obtain ⟨he, hes⟩ := List.forall_mem_cons.1 hentries
    have hout : pkg ∉ e.1.2 := fun hdep => hpkg e.1.1 ⟨e.1, he, rfl, hdep⟩
    show (s.relax pkg e.2 e.1).relaxAll pkg es = s
    rw [relax_eq_self hout, ih hes]

lemma Idle.turn (h : g.Idle s) (hturn : g.Turn s t) : g.Idle t := by
  obtain ⟨pkg, queue, hqueue, rfl⟩ := hturn
  have hpkg : ∀ a, ¬ g.Edge a pkg := h pkg (by rw [hqueue]; exact List.mem_cons_self)
  rw [relaxAll_eq_self hpkg fun e he => List.fst_mem_of_mem_zipIdx he]
  intro b hb
  exact h b (by rw [hqueue]; exact List.mem_cons_of_mem _ hb)

lemma Idle.run (h : g.Idle s) (hrun : ReflTransGen g.Turn s t) : g.Idle t := by
  induction hrun with
  | refl => exact h
  | tail _ hturn ih => exact ih.turn hturn

lemma Idle.not_wraps (h : g.Idle s) : ¬ g.Wraps s := by
  rintro ⟨pkg, queue, hqueue, before, e, i, after, hentries, deps, more, hdeps, -⟩
  have hmem : (e, i) ∈ g.zipIdx := by
    rw [hentries]
    exact List.mem_append_right _ List.mem_cons_self
  refine h pkg (by rw [hqueue]; exact List.mem_cons_self) e.1 ⟨e, List.fst_mem_of_mem_zipIdx hmem, rfl, ?_⟩
  rw [hdeps]
  exact List.mem_append_right _ List.mem_cons_self

/-- **No count is ever taken down**, whatever the graph. -/
lemma counts_start (h : g.WF) (hrun : ReflTransGen g.Turn g.start s) : ¬ g.Wraps s :=
  ((idle_start h).run hrun).not_wraps

lemma not_cyclic (h : ¬ g.HasEdge) : ¬ g.Cyclic := by
  rintro ⟨a, ha⟩
  obtain ⟨b, hab, -⟩ := TransGen.head'_iff.1 ha
  exact h ⟨a, b, hab⟩

lemma sorts_wf_iff (h : g.WF) : g.Sorts ↔ (¬ g.HasEdge ∨ g.Cyclic) := by
  constructor
  · rintro ⟨-, rounds, result, hends, horders⟩
    by_contra hneither
    obtain ⟨hedge, hcyclic⟩ := not_or.1 hneither
    have hfuel : g.length < max rounds (g.length + 1) := by omega
    have hnone := (topoSort_eq h hfuel).2 (not_not.1 hedge)
    rw [hends _ (le_max_left _ _)] at hnone
    exact hcyclic (horders.none_iff.1 (Option.some.inj hnone))
  · intro hor
    refine ⟨fun s hrun => counts_start h hrun, ?_⟩
    by_cases hedge : g.HasEdge
    · have hcyclic := hor.resolve_left (not_not.2 hedge)
      refine ⟨g.length + 1, none, fun fuel hfuel => (topoSort_eq h hfuel).2 hedge, ?_⟩
      refine ⟨⟨fun _ => hcyclic, fun _ => rfl⟩, ?_, ?_⟩
      · intro names hnames
        cases hnames
      · intro names hnames
        cases hnames
    · have hnone : ∀ a b, ¬ g.Edge a b := fun a b hab => hedge ⟨a, b, hab⟩
      refine ⟨g.length + 1, some (g.map Prod.fst), fun fuel hfuel => (topoSort_eq h hfuel).1 hnone, ?_⟩
      refine ⟨⟨fun heq => (by cases heq), fun hcyclic => absurd hcyclic (not_cyclic hedge)⟩, ?_, ?_⟩
      · intro names hnames
        cases hnames
        exact .refl _
      · intro names _ a b hab
        exact absurd hab (hnone a b)

end Sorting

/-- **The sorting does what it owes for the graphs in which no package depends on another, and for those with
a cycle.** -/
theorem sorts_iff (calls : List GraphCall) :
    (ofCalls calls).Sorts ↔ (¬ (ofCalls calls).HasEdge ∨ (ofCalls calls).Cyclic) :=
  sorts_wf_iff (wf_ofCalls calls)

/-- One package depends on another: there is no cycle, and nothing is put out. -/
theorem one_edge_not_sorts : ¬ (ofCalls [.addEdge (ascii "a") (ascii "b")]).Sorts := by
  have hedge : ∀ {x y}, (ofCalls [.addEdge (ascii "a") (ascii "b")]).Edge x y ↔ x = ascii "a" ∧ y = ascii "b" := by
    intro x y
    show (addEdge [] (ascii "a") (ascii "b")).Edge x y ↔ _
    rw [edge_addEdge]
    exact ⟨fun h => h.resolve_left (by rintro ⟨e, he, -⟩; cases he), .inr⟩
  intro hsorts
  rcases (sorts_wf_iff (wf_ofCalls _)).1 hsorts with hnone | ⟨x, hx⟩
  · exact hnone ⟨_, _, hedge.2 ⟨rfl, rfl⟩⟩
  · obtain ⟨y, hxy, -⟩ := TransGen.head'_iff.1 hx
    obtain ⟨z, -, hzx⟩ := TransGen.tail'_iff.1 hx
    have hab : ascii "a" = ascii "b" := (hedge.1 hxy).1.symm.trans (hedge.1 hzx).2
    exact absurd hab (by decide)

end DepGraph

end Two09.Aur
