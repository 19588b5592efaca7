import Two09.Aur.Requests

/-!
# What a plan has to be

When the plan of `resolve_targets` builds the packages that are reachable, installs what they need besides,
tells which targets are missing and orders what it builds: exactly when every target is known, every request
has room for its names, 50 rounds are enough, and the order in which the packages happen to be found will do.
-/

namespace Two09.Aur

open Two09.Lib

/-- What is asked of a plan. -/
structure Plan.Right (u : Universe) (targets : List Bytes) (plan : Plan) : Prop where
  once : (plan.build.map Action.name).Nodup
  build : ∀ a, a ∈ plan.build ↔ ∃ p, u.Reachable targets p ∧ a = p.action
  install : ∀ n, n ∈ plan.install.map Action.name ↔
    ∃ p, u.Reachable targets p ∧ n ∈ p.depNames ∧ ¬ u.Known n
  missing : ∀ n, n ∈ plan.missing.map Action.name ↔ n ∈ targets ∧ ¬ u.Known n
  ordered : u.Acyclic → (plan.build.map Action.name).Pairwise fun a b => ¬ u.DependsOn a b

/-! ### Layers -/

/-- The names of a round, and those seen up to it. -/
structure Layer where
  seen : List Bytes
  names : List Bytes

/-- The known packages that those of a layer depend on, as far as they are new. -/
def Layer.next (rpc : Rpc) (u : Universe) (l : Layer) : Layer :=
  let found := fresh l.seen ((rpc.answer (l.names.map rpc.escape)).flatMap AurPkg.depNames)
  ⟨l.seen ++ found, found.filter u.Known⟩

def layer (rpc : Rpc) (u : Universe) (targets : List Bytes) (k : Nat) : Layer :=
  (Layer.next rpc u)^[k] ⟨fresh [] targets, fresh [] targets⟩

/-- That a search comes by every package: the targets are known, the requests have room for the names of
each layer, a request for a name alone tells whether it is known, and the layers end within 50 rounds. -/
structure Searchable (rpc : Rpc) (u : Universe) (targets : List Bytes) : Prop where
  known : ∀ t ∈ targets, u.Known t
  room : ∀ k < 50, rpc.texts (layer rpc u targets k).names = (layer rpc u targets k).names.map rpc.escape
  told : ∀ p, u.Reachable targets p → ∀ d ∈ p.depNames, d ∉ targets →
    (rpc.isAurPackage d = true ↔ u.Known d)
  ends : (layer rpc u targets 50).names = []

/-- The packages of the targets, as the first response has them. -/
def responseNames (rpc : Rpc) (targets : List Bytes) : List Bytes :=
  (rpc.answer ((fresh [] targets).map rpc.escape)).map AurPkg.name

/-- That the order will do: only targets are to be built, and none of them comes in the response before one
that it depends on, or else each that depends on another comes before it there, but after it among the
targets. -/
def Orderable (rpc : Rpc) (u : Universe) (targets : List Bytes) : Prop :=
  u.Acyclic → (layer rpc u targets 1).names = [] ∧
    ((responseNames rpc targets).Pairwise (fun a b => ¬ u.DependsOn a b) ∨
      (responseNames rpc targets).Pairwise (fun a b => ¬ u.DependsOn b a) ∧
        (fresh [] targets).Pairwise fun a b => ¬ u.DependsOn a b)

/-! ### The graph of a search -/

section Runs
variable {rpc : Rpc} {u : Universe} {targets : List Bytes} {p q : AurPkg} {name : Bytes} {k : Nat}

lemma graphOf_run (k : Nat) : GraphOf (fresh [] targets) (Search.run rpc targets k).graph := by
  induction k with
  | zero =>
    obtain ⟨-, -, -, -, hwf, hnames, -⟩ := start_spec targets
    exact ⟨hwf, fun _ => hnames⟩
  | succ k ih =>
    rw [run_succ]
    exact @graphOf_pkgs rpc (_, ⟨_, [], false, _, _⟩) _ ih _

lemma hasEdge_run {j : Nat} (hjk : j ≤ k) (h : (Search.run rpc targets j).graph.HasEdge) :
    (Search.run rpc targets k).graph.HasEdge := by
  induction k, hjk using Nat.le_induction with
  | base => exact h
  | succ k _ ih =>
    rw [run_succ]
    exact @hasEdge_pkgs_mono rpc (_, ⟨_, [], false, _, _⟩) ih _

lemma tidy_round (s : Search) (ht : s.Tidy) : (⟨s.seen, [], false, s.install, s.graph⟩ : Round).Tidy :=
  ⟨List.forall_mem_nil _, ht⟩

/-- A queue that is not empty leaves an edge. -/
lemma hasEdge_of_queueAt (h : name ∈ queueAt rpc targets (k + 1)) :
    (Search.run rpc targets (k + 1)).graph.HasEdge := by
  rw [queueAt_succ, List.mem_filter] at h
  rw [run_succ]
  exact @hasEdge_of_found_pkgs rpc (_, ⟨_, [], false, _, _⟩) _ (tidy_round _ (tidy_run k)) ⟨name, h⟩

/-- The edges of the first round. -/
lemma hasEdge_first (h : ∀ p ∈ rpc.infoBatch (queueAt rpc targets 0), p.name ∈ targets)
    (hnone : queueAt rpc targets 1 = []) : (Search.run rpc targets 1).graph.HasEdge ↔
      LooksBack [] (rpc.infoBatch (queueAt rpc targets 0)) := by
  obtain ⟨-, hseen, -, hbuild, -, -, hedge⟩ := start_spec targets
  have hback := @hasEdge_pkgs rpc
    ((Search.start targets).build, ⟨(Search.start targets).seen, [], false, (Search.start targets).install,
      (Search.start targets).graph⟩)
    (rpc.infoBatch (queueAt rpc targets 0)) (tidy_round _ (@tidy_run rpc targets 0))
    (by
      rw [hbuild]
      exact List.forall_mem_nil _)
    (fun p hp => by
      simp only [hseen]
      exact mem_targets.2 (h p hp))
  have hfirst : (Search.run rpc targets 1).graph.HasEdge ↔ (Search.start targets).graph.HasEdge ∨
      (∃ n ∈ foundAt rpc targets 0, rpc.isAurPackage n = true) ∨
      LooksBack ((Search.start targets).build.map Action.name)
        (rpc.infoBatch (queueAt rpc targets 0)) := hback
  have hfound : ¬ ∃ n ∈ foundAt rpc targets 0, rpc.isAurPackage n = true := by
    rintro ⟨n, hn⟩
    have hmem : n ∈ queueAt rpc targets 1 := by
      rw [queueAt_succ]
      exact List.mem_filter.2 hn
    rw [hnone] at hmem
    cases hmem
  rw [hfirst, hbuild]
  exact ⟨fun hcase => (hcase.resolve_left hedge).resolve_left hfound, fun hback => .inr (.inr hback)⟩

/-- Once the queue is empty, nothing changes. -/
lemma run_of_empty {j : Nat} (hjk : j ≤ k) (h : queueAt rpc targets j = []) :
    Search.run rpc targets k = Search.run rpc targets j := by
  induction k, hjk using Nat.le_induction with
  | base => rfl
  | succ k _ ih =>
    rw [run_succ, ih]
    exact step_of_empty h

/-! ### The plan -/

/-- **What the plan of a search is**: with an edge, the packages as they were found, else those of the
targets. -/
lemma plan_spec {s : Search} {names : List Bytes} (hnames : names ≠ []) (hgraph : GraphOf names s.graph) :
    ∃ plan : Plan, (∀ fuel > s.graph.length, (s.graph.topoSort fuel).map s.plan = some plan) ∧
      plan.install = s.install ∧ plan.missing.map Action.name = s.queue ∧
      (s.graph.HasEdge → plan.build = s.build) ∧
      (¬ s.graph.HasEdge → plan.build = sortedBuild s.build names) := by
  have hmissing : (s.queue.map plainAction).map Action.name = s.queue := by
    rw [List.map_map]
    exact List.map_id'' (fun _ => rfl) _
  by_cases hedge : s.graph.HasEdge
  · refine ⟨s.plan none, fun fuel hfuel => ?_, rfl, hmissing, fun _ => rfl, fun hno => absurd hedge hno⟩
    rw [(DepGraph.topoSort_eq hgraph.wf hfuel).2 hedge]
    rfl
  · have hnone : ∀ a b, ¬ s.graph.Edge a b := fun a b hab => hedge ⟨a, b, hab⟩
    refine ⟨s.plan (some names), fun fuel hfuel => ?_, rfl, hmissing, fun hyes => absurd hyes hedge,
      fun _ => ?_⟩
    · rw [(DepGraph.topoSort_eq hgraph.wf hfuel).1 hnone, hgraph.bare hedge]
      rfl
    · simp only [Search.plan]
      rw [if_neg hnames]

/-- What a plan has to do with the search that it comes from. -/
structure Outcome (rpc : Rpc) (targets : List Bytes) (plan : Plan) : Prop where
  install : plan.install = (Search.run rpc targets 50).install
  missing : plan.missing.map Action.name = queueAt rpc targets 50
  found : (Search.run rpc targets 50).graph.HasEdge → plan.build = (Search.run rpc targets 50).build
  sorted : ¬ (Search.run rpc targets 50).graph.HasEdge →
    plan.build = sortedBuild (Search.run rpc targets 50).build (fresh [] targets)

lemma resolveTargets_spec (htargets : targets ≠ []) : ∃ plan : Plan,
    (∃ enough, ∀ fuel > enough, resolveTargets rpc fuel targets = some plan) ∧
      Outcome rpc targets plan := by
  obtain ⟨t, ht⟩ := List.exists_mem_of_ne_nil targets htargets
  have hne : fresh [] targets ≠ [] := List.ne_nil_of_mem (mem_targets.2 ht)
  obtain ⟨plan, hplan, hinstall, hmissing, hfound, hsorted⟩ := plan_spec hne (@graphOf_run rpc targets 50)
  refine ⟨plan, ⟨List.length (Search.run rpc targets 50).graph, fun fuel hfuel => ?_⟩,
    ⟨hinstall, hmissing, hfound, hsorted⟩⟩
  have hloop : Search.loop rpc 50 (Search.start targets) = Search.run rpc targets 50 :=
    loop_eq (@tidy_run rpc targets 0) 50
  rw [resolveTargets, if_neg htargets]
  simp only
  rw [hloop]
  exact hplan fuel hfuel

lemma map_sortedBuild (build : List Action) (names : List Bytes) :
    (sortedBuild build names).map Action.name = names.filter fun n => containsAction build n := by
  induction names with
  | nil => rfl
  | cons n names ih =>
    have hcons : sortedBuild build (n :: names) =
        ((build.find? (·.name = n)).toList ++ sortedBuild build names) := by
      unfold sortedBuild
      rw [List.filterMap_cons]
      cases build.find? (·.name = n) with
      | none => rfl
      | some a => rfl
    rw [hcons, List.map_append, ih]
    cases hfind : build.find? (·.name = n) with
    | none =>
      have hout : containsAction build n = false := by
        rw [containsAction, List.any_eq_false]
        intro a ha
        exact List.find?_eq_none.1 hfind a ha
      rw [List.filter_cons_of_neg (by simp [hout])]
      rfl
    | some a =>
      have hname : a.name = n := by simpa using List.find?_some hfind
      have hin : containsAction build n = true :=
        List.any_eq_true.2 ⟨a, List.mem_of_find?_eq_some hfind, by simpa using hname⟩
      rw [List.filter_cons_of_pos hin, Option.toList_some, List.map_singleton, hname,
        List.singleton_append]

lemma mem_of_mem_sortedBuild {build : List Action} {names : List Bytes} {a : Action}
    (h : a ∈ sortedBuild build names) : a ∈ build := by
  obtain ⟨n, -, hfind⟩ := List.mem_filterMap.1 h
  exact List.mem_of_find?_eq_some hfind

lemma prefix_build (rpc : Rpc) (targets : List Bytes) {j : Nat} (hjk : j ≤ k) :
    (Search.run rpc targets j).build <+: (Search.run rpc targets k).build := by
  have hadd : ∀ (pkgs : List AurPkg) (build : List Action), build <+: pkgs.foldl addAction build := by
    intro pkgs
    induction pkgs with
    | nil => exact fun build => List.prefix_rfl
    | cons p pkgs ih =>
      intro build
      have hp : build <+: addAction build p := by
        unfold addAction
        split_ifs
        · exact List.prefix_rfl
        · exact List.prefix_append ..
      exact hp.trans (ih _)
  induction k, hjk using Nat.le_induction with
  | base => exact List.prefix_rfl
  | succ k _ ih =>
    rw [run_succ, (step_spec (tidy_run k)).2.2.2.1]
    exact ih.trans (hadd _ _)

/-! ### A search that comes by every package -/

/-- That the queue of a round is a layer, of known packages that the targets lead to. -/
structure Agrees (rpc : Rpc) (u : Universe) (targets : List Bytes) (k : Nat) : Prop where
  names : (layer rpc u targets k).names = queueAt rpc targets k
  seen : (layer rpc u targets k).seen = (Search.run rpc targets k).seen
  reached : ∀ n ∈ queueAt rpc targets k, u.Known n ∧ u.Leads targets n

/-- That a request has room for the names of a queue. -/
def Room (rpc : Rpc) (targets : List Bytes) (k : Nat) : Prop :=
  rpc.texts (queueAt rpc targets k) = (queueAt rpc targets k).map rpc.escape

lemma agrees_zero (hknown : ∀ t ∈ targets, u.Known t) : Agrees rpc u targets 0 := by
  obtain ⟨hqueue, hseen, -⟩ := start_spec targets
  refine ⟨hqueue.symm, hseen.symm, fun n hn => ?_⟩
  rw [queueAt_zero, mem_targets] at hn
  exact ⟨hknown n hn, n, hn, .refl⟩

/-- The packages of a response are those of the queue, if there is room. -/
lemma mem_response (h : rpc.Answers u) (hroom : Room rpc targets k) :
    p ∈ rpc.infoBatch (queueAt rpc targets k) ↔ p ∈ u.pkgs ∧ p.name ∈ queueAt rpc targets k := by
  rw [mem_infoBatch h, hroom, List.mem_map]
  refine and_congr_right fun _ => ⟨?_, fun hn => ⟨_, hn, rfl⟩⟩
  rintro ⟨n, hn, heq⟩
  exact h.escape heq ▸ hn

lemma reachable_of_mem_response (h : rpc.Answers u) (hroom : Room rpc targets k)
    (hreached : ∀ n ∈ queueAt rpc targets k, u.Known n ∧ u.Leads targets n)
    (hp : p ∈ rpc.infoBatch (queueAt rpc targets k)) : u.Reachable targets p := by
  obtain ⟨hmem, hname⟩ := (mem_response h hroom).1 hp
  exact ⟨hmem, (hreached _ hname).2⟩

/-- **One round on.** -/
lemma agrees_succ (h : rpc.Answers u)
    (htold : ∀ p, u.Reachable targets p → ∀ d ∈ p.depNames, d ∉ targets →
      (rpc.isAurPackage d = true ↔ u.Known d))
    (hroom : Room rpc targets k) (hk : Agrees rpc u targets k) : Agrees rpc u targets (k + 1) := by
  have hlayer : layer rpc u targets (k + 1) = (layer rpc u targets k).next rpc u :=
    Function.iterate_succ_apply' ..
  have hfound : fresh (layer rpc u targets k).seen
      ((rpc.answer ((layer rpc u targets k).names.map rpc.escape)).flatMap AurPkg.depNames) =
        foundAt rpc targets k := by
    unfold foundAt Search.found
    rw [infoBatch_eq h, hk.names, hk.seen]
    unfold Room at hroom
    rw [← hroom]
    rfl
  have hparent : ∀ n ∈ foundAt rpc targets k, ∃ p, u.Reachable targets p ∧ n ∈ p.depNames ∧ n ∉ targets := by
    intro n hn
    obtain ⟨⟨p, hp, hdep⟩, -⟩ := mem_foundAt.1 hn
    exact ⟨p, reachable_of_mem_response h hroom hk.reached hp, hdep, foundAt_notMem_targets hn⟩
  have hknown : ∀ n ∈ foundAt rpc targets k, rpc.isAurPackage n = true ↔ u.Known n := by
    intro n hn
    obtain ⟨p, hp, hdep, hout⟩ := hparent n hn
    exact htold p hp n hdep hout
  constructor
  · rw [hlayer, Layer.next, hfound, queueAt_succ]
    refine List.filter_congr fun n hn => ?_
    rw [Bool.eq_iff_iff, decide_eq_true_iff]
    exact (hknown n hn).symm
  · rw [hlayer, Layer.next, hfound, hk.seen, run_succ, (step_spec (tidy_run k)).2.1]
    rfl
  · intro n hn
    rw [queueAt_succ, List.mem_filter] at hn
    obtain ⟨p, hp, hdep, -⟩ := hparent n hn.1
    have hn' := (hknown n hn.1).1 hn.2
    exact ⟨hn', Universe.Leads.step hp hdep hn'⟩

lemma agrees_of_room (h : rpc.Answers u) (hknown : ∀ t ∈ targets, u.Known t)
    (htold : ∀ p, u.Reachable targets p → ∀ d ∈ p.depNames, d ∉ targets →
      (rpc.isAurPackage d = true ↔ u.Known d))
    (hroom : ∀ k < 50, Room rpc targets k) (hk : k ≤ 50) : Agrees rpc u targets k := by
  induction k with
  | zero => exact agrees_zero hknown
  | succ k ih => exact agrees_succ h htold (hroom k (by omega)) (ih (by omega))

namespace Searchable

variable (h : rpc.Answers u) (hs : Searchable rpc u targets)

include h hs

lemma agrees (hk : k ≤ 50) : Agrees rpc u targets k := by
  induction k with
  | zero => exact agrees_zero hs.known
  | succ k ih =>
    have hprev := ih (by omega)
    refine agrees_succ h hs.told ?_ hprev
    unfold Room
    rw [← hprev.names]
    exact hs.room k (by omega)

lemma roomAt (hk : k < 50) : Room rpc targets k := by
  unfold Room
  rw [← (agrees h hs hk.le).names]
  exact hs.room k hk

lemma queueAt_last : queueAt rpc targets 50 = [] := by
  rw [← (agrees h hs le_rfl).names]
  exact hs.ends

/-- Every name that the targets lead to is asked for. -/
lemma asked (hlead : u.Leads targets name) : ∃ k < 50, name ∈ queueAt rpc targets k := by
  obtain ⟨t, ht, hpath⟩ := hlead
  induction hpath with
  | refl => exact ⟨0, by omega, by rwa [queueAt_zero, mem_targets]⟩
  | tail hpath hstep ih =>
    rename_i b c
    obtain ⟨k, hk, hb⟩ := ih
    obtain ⟨hc, p, hp, rfl, hdep⟩ := hstep
    by_cases hct : c ∈ targets
    · exact ⟨0, by omega, by rwa [queueAt_zero, mem_targets]⟩
    · have hresponse := (mem_response h (roomAt h hs hk)).2 ⟨hp, hb⟩
      obtain ⟨j, hj, hfound⟩ := found_of_dep hresponse hdep hct
      have hnext : c ∈ queueAt rpc targets (j + 1) := by
        rw [queueAt_succ, List.mem_filter]
        exact ⟨hfound, (hs.told p ⟨hp, t, ht, hpath⟩ c hdep hct).2 hc⟩
      refine ⟨j + 1, ?_, hnext⟩
      by_contra hlast
      obtain rfl : j = 49 := by omega
      rw [queueAt_last h hs] at hnext
      cases hnext

lemma answered (hp : u.Reachable targets p) : ∃ k < 50, p ∈ rpc.infoBatch (queueAt rpc targets k) := by
  obtain ⟨k, hk, hname⟩ := asked h hs hp.2
  exact ⟨k, hk, (mem_response h (roomAt h hs hk)).2 ⟨hp.1, hname⟩⟩

lemma reachable {k : Nat} (hk : k < 50) (hp : p ∈ rpc.infoBatch (queueAt rpc targets k)) :
    u.Reachable targets p :=
  reachable_of_mem_response h (roomAt h hs hk) (agrees h hs hk.le).reached hp

lemma mem_build (a : Action) : a ∈ (Search.run rpc targets 50).build ↔
    ∃ p, u.Reachable targets p ∧ a = p.action := by
  rw [(build_spec h targets 50).2]
  constructor
  · rintro ⟨j, hj, p, hp, rfl⟩
    exact ⟨p, reachable h hs hj hp, rfl⟩
  · rintro ⟨p, hp, rfl⟩
    obtain ⟨k, hk, hanswer⟩ := answered h hs hp
    exact ⟨k, hk, p, hanswer, rfl⟩

/-- Without an edge only targets have been looked up. -/
lemma target_of_bare (hedge : ¬ (Search.run rpc targets 50).graph.HasEdge) (hp : u.Reachable targets p) :
    p.name ∈ targets := by
  obtain ⟨k, hk, hname⟩ := asked h hs hp.2
  cases k with
  | zero => rwa [queueAt_zero, mem_targets] at hname
  | succ k => exact absurd (hasEdge_run hk.le (hasEdge_of_queueAt hname)) hedge

/-- **All but the order.** -/
lemma right_iff {plan : Plan} (ho : Outcome rpc targets plan) : plan.Right u targets ↔
    (u.Acyclic → (plan.build.map Action.name).Pairwise fun a b => ¬ u.DependsOn a b) := by
  refine ⟨Plan.Right.ordered, fun hordered => ?_⟩
  have hnodup := (build_spec h targets 50).1
  have hmem := mem_build h hs
  constructor
  · by_cases hedge : (Search.run rpc targets 50).graph.HasEdge
    · rw [ho.found hedge]
      exact hnodup
    · rw [ho.sorted hedge, map_sortedBuild]
      exact (nodup_fresh _ _).filter _
  · intro a
    rw [← hmem]
    by_cases hedge : (Search.run rpc targets 50).graph.HasEdge
    · rw [ho.found hedge]
    · rw [ho.sorted hedge]
      refine ⟨mem_of_mem_sortedBuild, fun ha => ?_⟩
      obtain ⟨p, hp, rfl⟩ := (hmem a).1 ha
      have hname : p.name ∈ (sortedBuild (Search.run rpc targets 50).build (fresh [] targets)).map
          Action.name := by
        rw [map_sortedBuild, List.mem_filter, containsAction_iff]
        exact ⟨mem_targets.2 (target_of_bare h hs hedge hp), List.mem_map.2 ⟨p.action, ha, rfl⟩⟩
      obtain ⟨b, hb, heq⟩ := List.mem_map.1 hname
      have hab := List.inj_on_of_nodup_map hnodup (mem_of_mem_sortedBuild hb) ha heq
      exact hab ▸ hb
  · intro n
    rw [ho.install, mem_install]
    constructor
    · rintro ⟨j, hj, hfound, haur⟩
      obtain ⟨⟨p, hp, hdep⟩, -⟩ := mem_foundAt.1 hfound
      have hreach := reachable h hs hj hp
      refine ⟨p, hreach, hdep, fun hknown => ?_⟩
      rw [(hs.told p hreach n hdep (foundAt_notMem_targets hfound)).2 hknown] at haur
      cases haur
    · rintro ⟨p, hp, hdep, hn⟩
      obtain ⟨k, hk, hanswer⟩ := answered h hs hp
      have hout : n ∉ targets := fun ht => hn (hs.known n ht)
      obtain ⟨j, hj, hfound⟩ := found_of_dep hanswer hdep hout
      refine ⟨j, by omega, hfound, ?_⟩
      rw [Bool.eq_false_iff]
      exact fun haur => hn ((hs.told p hp n hdep hout).1 haur)
  · intro n
    rw [ho.missing, queueAt_last h hs]
    constructor
    · intro hn
      cases hn
    · rintro ⟨ht, hn⟩
      exact absurd (hs.known n ht) hn
  · exact hordered

/-! ### The order -/

lemma response_eq : rpc.infoBatch (queueAt rpc targets 0) = rpc.answer ((fresh [] targets).map rpc.escape) := by
  have hroom := roomAt h hs (show 0 < 50 by omega)
  unfold Room at hroom
  rw [infoBatch_eq h, hroom, queueAt_zero]

lemma responseNames_eq :
    (rpc.infoBatch (queueAt rpc targets 0)).map AurPkg.name = responseNames rpc targets := by
  rw [response_eq h hs]
  rfl

lemma nodup_responseNames : (responseNames rpc targets).Nodup := by
  rw [← responseNames_eq h hs, response_eq h hs]
  refine List.Nodup.map_on (fun p hp q hq heq => ?_) (h.nodup _)
  exact Universe.eq_of_name ((h.mem _ p).1 hp).1 ((h.mem _ q).1 hq).1 heq

lemma mem_responseNames : name ∈ responseNames rpc targets ↔ name ∈ targets := by
  rw [← responseNames_eq h hs, List.mem_map]
  constructor
  · rintro ⟨p, hp, rfl⟩
    have hname := ((mem_response h (roomAt h hs (by omega))).1 hp).2
    rwa [queueAt_zero, mem_targets] at hname
  · intro ht
    obtain ⟨p, hp, rfl⟩ := List.mem_map.1 (hs.known _ ht)
    refine ⟨p, (mem_response h (roomAt h hs (by omega))).2 ⟨hp, ?_⟩, rfl⟩
    rwa [queueAt_zero, mem_targets]

/-- What is built after the first round, in its order. -/
lemma names_first :
    (Search.run rpc targets 1).build.map Action.name = responseNames rpc targets := by
  have hbuild : (Search.run rpc targets 1).build =
      (rpc.infoBatch (queueAt rpc targets 0)).foldl addAction (Search.start targets).build :=
    (step_spec (@tidy_run rpc targets 0)).2.2.2.1
  rw [hbuild, names_foldl_addAction, (start_spec targets).2.2.2.1, responseNames_eq h hs, List.map_nil,
    DepGraph.foldl_addName, List.nil_append]
  rw [List.nil_append]
  exact nodup_responseNames h hs

/-- Whether a package of the first response depends on one before it, or on itself. -/
lemma not_looksBack_first (hacyclic : u.Acyclic) :
    ¬ LooksBack [] (rpc.infoBatch (queueAt rpc targets 0)) ↔
      (responseNames rpc targets).Pairwise fun a b => ¬ u.DependsOn b a := by
  have hmem : ∀ p ∈ rpc.infoBatch (queueAt rpc targets 0), p ∈ u.pkgs :=
    fun p hp => ((mem_infoBatch h).1 hp).1
  have hpairs : (rpc.infoBatch (queueAt rpc targets 0)).Pairwise (fun q p => q.name ∉ p.depNames) ↔
      (responseNames rpc targets).Pairwise fun a b => ¬ u.DependsOn b a := by
    rw [← responseNames_eq h hs, List.pairwise_map]
    refine List.Pairwise.iff_of_mem fun {q p} hq hp => ?_
    rw [Universe.dependsOn_iff (hmem p hp) (hmem q hq)]
  rw [not_looksBack_iff, hpairs]
  refine ⟨And.right, fun hpair => ⟨fun p hp => ⟨fun hself => ?_, List.forall_mem_nil _⟩, hpair⟩⟩
  exact hacyclic _ (.single ((Universe.dependsOn_iff (hmem p hp) (hmem p hp)).2 hself))

/-- A second layer comes after the packages that depend on it. -/
lemma not_ordered_of_second {plan : Plan} (ho : Outcome rpc targets plan)
    (hsecond : name ∈ queueAt rpc targets 1) :
    ¬ (plan.build.map Action.name).Pairwise fun a b => ¬ u.DependsOn a b := by
  intro hpair
  have hedge := hasEdge_run (show 1 ≤ 50 by omega) (hasEdge_of_queueAt hsecond)
  rw [ho.found hedge] at hpair
  obtain ⟨hknown, hlead⟩ := (agrees h hs (show 1 ≤ 50 by omega)).reached name hsecond
  rw [queueAt_succ, List.mem_filter] at hsecond
  obtain ⟨⟨p, hp, hdep⟩, -⟩ := mem_foundAt.1 hsecond.1
  obtain ⟨q, hq, rfl⟩ := List.mem_map.1 hknown
  have hbefore : p.name ∈ (Search.run rpc targets 1).build.map Action.name := by
    rw [names_first h hs, ← responseNames_eq h hs]
    exact List.mem_map_of_mem hp
  have hnot : q.name ∉ (Search.run rpc targets 1).build.map Action.name := by
    rw [names_first h hs, mem_responseNames h hs]
    exact foundAt_notMem_targets hsecond.1
  have hafter : q.name ∈ (Search.run rpc targets 50).build.map Action.name :=
    List.mem_map.2 ⟨q.action, (mem_build h hs _).2 ⟨q, ⟨hq, hlead⟩, rfl⟩, rfl⟩
  obtain ⟨more, hmore⟩ := prefix_build rpc targets (show 1 ≤ 50 by omega)
  rw [← hmore, List.map_append, List.mem_append] at hafter
  rw [← hmore, List.map_append, List.pairwise_append] at hpair
  exact hpair.2.2 _ hbefore _ (hafter.resolve_left hnot)
    ⟨Universe.known_of_mem hq, p, ((mem_infoBatch h).1 hp).1, rfl, hdep⟩

/-- **The order that a plan comes in.** -/
lemma ordered_iff {plan : Plan} (ho : Outcome rpc targets plan) (hacyclic : u.Acyclic) :
    ((plan.build.map Action.name).Pairwise fun a b => ¬ u.DependsOn a b) ↔
      (layer rpc u targets 1).names = [] ∧
        ((responseNames rpc targets).Pairwise (fun a b => ¬ u.DependsOn a b) ∨
          (responseNames rpc targets).Pairwise (fun a b => ¬ u.DependsOn b a) ∧
            (fresh [] targets).Pairwise fun a b => ¬ u.DependsOn a b) := by
  rw [(agrees h hs (show 1 ≤ 50 by omega)).names]
  by_cases hsecond : queueAt rpc targets 1 = []
  · have hrun := run_of_empty (show 1 ≤ 50 by omega) hsecond
    have htargets : ∀ p ∈ rpc.infoBatch (queueAt rpc targets 0), p.name ∈ targets := by
      intro p hp
      rw [← mem_responseNames h hs, ← responseNames_eq h hs]
      exact List.mem_map_of_mem hp
    have hfirst := hasEdge_first htargets hsecond
    have hback := not_looksBack_first h hs hacyclic
    by_cases hedge : (Search.run rpc targets 50).graph.HasEdge
    · have hlooks : LooksBack [] (rpc.infoBatch (queueAt rpc targets 0)) := by
        rw [← hfirst, ← hrun]
        exact hedge
      rw [ho.found hedge, hrun, names_first h hs]
      refine ⟨fun hpair => ⟨hsecond, .inl hpair⟩, ?_⟩
      rintro ⟨-, hpair | ⟨hrev, -⟩⟩
      · exact hpair
      · exact absurd hlooks (hback.2 hrev)
    · have hrev : (responseNames rpc targets).Pairwise fun a b => ¬ u.DependsOn b a := by
        rw [← hback, ← hfirst, ← hrun]
        exact hedge
      have hall : (fresh [] targets).filter
          (fun n => containsAction (Search.run rpc targets 50).build n) = fresh [] targets := by
        refine List.filter_eq_self.2 fun n hn => ?_
        rw [containsAction_iff, hrun, names_first h hs, mem_responseNames h hs]
        exact mem_targets.1 hn
      rw [ho.sorted hedge, map_sortedBuild, hall]
      refine ⟨fun hpair => ⟨hsecond, .inr ⟨hrev, hpair⟩⟩, ?_⟩
      rintro ⟨-, hpair | ⟨-, hpair⟩⟩
      · have hnone := List.Pairwise.forall_of_forall_of_flip
          (fun a _ haa => hacyclic a (.single haa)) hpair hrev
        refine List.pairwise_of_forall_mem_list fun a ha b hb => ?_
        exact hnone ((mem_responseNames h hs).2 (mem_targets.1 ha))
          ((mem_responseNames h hs).2 (mem_targets.1 hb))
      · exact hpair
  · obtain ⟨n, hn⟩ := List.exists_mem_of_ne_nil _ hsecond
    refine ⟨fun hpair => absurd hpair (not_ordered_of_second h hs ho hn), ?_⟩
    rintro ⟨hnone, -⟩
    exact absurd hnone hsecond

end Searchable

/-! ### When a plan is right -/

/-- **A search that leads to a plan that is right comes by every package.** -/
lemma searchable_of_right (h : rpc.Answers u) {plan : Plan} (ho : Outcome rpc targets plan)
    (hr : plan.Right u targets) : Searchable rpc u targets := by
  have hlast : queueAt rpc targets 50 = [] := by
    refine List.eq_nil_iff_forall_not_mem.2 fun n hn => ?_
    have hmissing : n ∈ plan.missing.map Action.name := by
      rw [ho.missing]
      exact hn
    rw [queueAt_succ, List.mem_filter] at hn
    exact foundAt_notMem_targets hn.1 ((hr.missing n).1 hmissing).1
  have hknown : ∀ t ∈ targets, u.Known t := by
    intro t ht
    by_contra hn
    have hmissing := (hr.missing t).2 ⟨ht, hn⟩
    rw [ho.missing, hlast] at hmissing
    cases hmissing
  -- what is in the plan has been looked up
  have hbuilt : ∀ p, u.Reachable targets p → ∃ k < 50, p ∈ rpc.infoBatch (queueAt rpc targets k) := by
    intro p hp
    have hmem := (hr.build p.action).2 ⟨p, hp, rfl⟩
    have hrun : p.action ∈ (Search.run rpc targets 50).build := by
      by_cases hedge : (Search.run rpc targets 50).graph.HasEdge
      · exact ho.found hedge ▸ hmem
      · rw [ho.sorted hedge] at hmem
        exact mem_of_mem_sortedBuild hmem
    obtain ⟨k, hk, q, hq, heq⟩ := ((build_spec h targets 50).2 _).1 hrun
    obtain rfl : p = q := Universe.eq_of_name hp.1 ((mem_infoBatch h).1 hq).1 (congrArg Action.name heq)
    exact ⟨k, hk, hq⟩
  have hreached : ∀ k ≤ 50, ∀ n ∈ queueAt rpc targets k, u.Known n ∧ u.Leads targets n := by
    intro k hk n hn
    cases k with
    | zero =>
      rw [queueAt_zero, mem_targets] at hn
      exact ⟨hknown n hn, n, hn, .refl⟩
    | succ k =>
      have hedge := hasEdge_run hk (hasEdge_of_queueAt hn)
      rw [queueAt_succ, List.mem_filter] at hn
      obtain ⟨hfound, haur⟩ := hn
      obtain ⟨⟨p, hp, hdep⟩, -⟩ := mem_foundAt.1 hfound
      have hplan : p.action ∈ plan.build := by
        rw [ho.found hedge]
        exact ((build_spec h targets 50).2 _).2 ⟨k, hk, p, hp, rfl⟩
      obtain ⟨q, hq, heq⟩ := (hr.build _).1 hplan
      obtain rfl : p = q :=
        Universe.eq_of_name ((mem_infoBatch h).1 hp).1 hq.1 (congrArg Action.name heq)
      have hn : u.Known n := by
        by_contra hn
        have hinstall := (hr.install n).2 ⟨p, hq, hdep, hn⟩
        rw [ho.install, mem_install] at hinstall
        obtain ⟨-, -, -, hno⟩ := hinstall
        rw [haur] at hno
        cases hno
      exact ⟨hn, Universe.Leads.step hq hdep hn⟩
  -- a name that is cut off is looked up through a longer one that is cut off too
  obtain ⟨bound, hbound⟩ : ∃ bound, ∀ p ∈ u.pkgs, (rpc.escape p.name).length ≤ bound :=
    ⟨(u.pkgs.map fun p => (rpc.escape p.name).length).sum, fun p hp =>
      List.le_sum_of_mem (List.mem_map.2 ⟨p, hp, rfl⟩)⟩
  have hfull : ∀ d k n, bound - (rpc.escape n).length < d → k < 50 → n ∈ queueAt rpc targets k →
      rpc.escape n ∈ rpc.texts (queueAt rpc targets k) := by
    intro d
    induction d with
    | zero =>
      intro k n hd
      omega
    | succ d ih =>
      intro k n hd hk hn
      obtain ⟨hn', hlead⟩ := hreached k hk.le n hn
      obtain ⟨p, hp, rfl⟩ := List.mem_map.1 hn'
      obtain ⟨j, hj, hanswer⟩ := hbuilt p ⟨hp, hlead⟩
      have htext := ((mem_infoBatch h).1 hanswer).2
      obtain ⟨m, hm, heq | ⟨hlt, hcut⟩⟩ := of_mem_askedTexts h.escape (nodup_queueAt j) htext
      · rw [h.escape heq] at hn htext ⊢
        rw [queueAt_unique hn hm]
        exact htext
      · obtain ⟨q, hq, rfl⟩ := List.mem_map.1 (hreached j hj.le m hm).1
        have hq' := hbound q hq
        exact absurd (ih j q.name (by omega) hj hm) hcut
  have hroom : ∀ k < 50, Room rpc targets k := by
    intro k hk
    exact askedTexts_eq h.escape (nodup_queueAt k) fun n hn => hfull _ k n (Nat.lt_succ_self _) hk hn
  have htold : ∀ p, u.Reachable targets p → ∀ d ∈ p.depNames, d ∉ targets →
      (rpc.isAurPackage d = true ↔ u.Known d) := by
    intro p hp d hdep hout
    obtain ⟨k, hk, hanswer⟩ := hbuilt p hp
    obtain ⟨j, hj, hfound⟩ := found_of_dep hanswer hdep hout
    constructor
    · intro haur
      have hmem : d ∈ queueAt rpc targets (j + 1) := by
        rw [queueAt_succ, List.mem_filter]
        exact ⟨hfound, haur⟩
      exact (hreached (j + 1) (by omega) d hmem).1
    · intro hd
      by_contra haur
      have hinstall : d ∈ plan.install.map Action.name := by
        rw [ho.install, mem_install]
        exact ⟨j, by omega, hfound, Bool.eq_false_iff.2 haur⟩
      obtain ⟨-, -, -, hno⟩ := (hr.install d).1 hinstall
      exact hno hd
  have hagrees : ∀ k ≤ 50, Agrees rpc u targets k := fun k hk => agrees_of_room h hknown htold hroom hk
  refine ⟨hknown, fun k hk => ?_, htold, ?_⟩
  · rw [(hagrees k hk.le).names]
    exact hroom k hk
  · rw [(hagrees 50 le_rfl).names]
    exact hlast

lemma right_iff_of_outcome (h : rpc.Answers u) {plan : Plan} (ho : Outcome rpc targets plan) :
    plan.Right u targets ↔ Searchable rpc u targets ∧ Orderable rpc u targets := by
  constructor
  · intro hr
    have hs := searchable_of_right h ho hr
    exact ⟨hs, fun hacyclic => (Searchable.ordered_iff h hs ho hacyclic).1 (hr.ordered hacyclic)⟩
  · rintro ⟨hs, horder⟩
    refine (Searchable.right_iff h hs ho).2 fun hacyclic => ?_
    exact (Searchable.ordered_iff h hs ho hacyclic).2 (horder hacyclic)

end Runs

/-- Without targets there is nothing to do. -/
lemma resolveTargets_nil {rpc : Rpc} {u : Universe} (h : rpc.Answers u) :
    (⟨[], [], []⟩ : Plan).Right u [] ∧ Searchable rpc u [] ∧ Orderable rpc u [] := by
  have hnone : ∀ p, ¬ u.Reachable [] p := by
    rintro p ⟨-, t, ht, -⟩
    cases ht
  have hempty : rpc.answer [] = [] :=
    List.eq_nil_iff_forall_not_mem.2 fun p hp => List.not_mem_nil ((h.mem _ p).1 hp).2
  have hlayer : ∀ k, layer rpc u [] k = ⟨[], []⟩ := by
    intro k
    have hfix : Layer.next rpc u ⟨[], []⟩ = ⟨[], []⟩ := by
      rw [Layer.next, List.map_nil, hempty]
      rfl
    exact Function.iterate_fixed hfix k
  refine ⟨⟨List.nodup_nil, fun a => ?_, fun n => ?_, fun n => ?_, fun _ => .nil⟩,
    ⟨List.forall_mem_nil _, fun k _ => ?_, fun p hp => absurd hp (hnone p), ?_⟩, fun _ => ⟨?_, .inl ?_⟩⟩
  · exact ⟨fun ha => absurd ha List.not_mem_nil, fun ⟨p, hp, _⟩ => absurd hp (hnone p)⟩
  · exact ⟨fun hn => absurd hn List.not_mem_nil, fun ⟨p, hp, _⟩ => absurd hp (hnone p)⟩
  · exact ⟨fun hn => absurd hn List.not_mem_nil, fun hn => absurd hn.1 List.not_mem_nil⟩
  · rw [hlayer]
    rfl
  · rw [hlayer]
  · rw [hlayer]
  · rw [responseNames, fresh, List.map_nil, hempty]
    exact .nil

/-- **resolve_targets, in full**: it comes to a plan, and the plan is right exactly if the search comes by
every package and the order will do. -/
theorem resolveTargets_right_iff (rpc : Rpc) (u : Universe) (h : rpc.Answers u) (targets : List Bytes) :
    ∃ plan, (∃ enough, ∀ fuel > enough, resolveTargets rpc fuel targets = some plan) ∧
      (plan.Right u targets ↔ Searchable rpc u targets ∧ Orderable rpc u targets) := by
  by_cases htargets : targets = []
  · subst htargets
    obtain ⟨hright, hcond⟩ := resolveTargets_nil h
    exact ⟨⟨[], [], []⟩, ⟨0, fun _ _ => rfl⟩, fun _ => hcond, fun _ => hright⟩
  · obtain ⟨plan, hplan, ho⟩ := @resolveTargets_spec rpc targets htargets
    exact ⟨plan, hplan, right_iff_of_outcome h ho⟩

/-! ### A package that needs another -/

/-- A server that answers for the packages by their names. -/
def Universe.rpc (u : Universe) : Rpc :=
  ⟨ascii "https://aur.archlinux.org/rpc/v5", id, fun texts => u.pkgs.filter (·.name ∈ texts)⟩

lemma Universe.answers_rpc (u : Universe) : u.rpc.Answers u where
  nodup texts := (List.Nodup.of_map _ u.distinct).filter _
  mem texts p := by
    rw [Universe.rpc, List.mem_filter, decide_eq_true_iff]
    rfl
  escape := Function.injective_id

def lib : AurPkg := ⟨ascii "lib", none, none, [], [], []⟩

def app : AurPkg := ⟨ascii "app", none, none, [ascii "lib>=2"], [], []⟩

def appAndLib : Universe := ⟨[app, lib], by decide⟩

theorem resolveTargets_app : ∃ plan,
    (∃ enough, ∀ fuel > enough, resolveTargets appAndLib.rpc fuel [app.name] = some plan) ∧
      (plan.Right appAndLib [app.name] ↔
        Searchable appAndLib.rpc appAndLib [app.name] ∧ Orderable appAndLib.rpc appAndLib [app.name]) :=
  resolveTargets_right_iff appAndLib.rpc appAndLib appAndLib.answers_rpc [app.name]

lemma dependsOn_appAndLib {a b : Bytes} (h : appAndLib.DependsOn a b) : a = app.name ∧ b = lib.name := by
  obtain ⟨-, p, hp, rfl, hdep⟩ := h
  have happ : app.depNames = [lib.name] := by decide
  have hlib : lib.depNames = [] := by decide
  rcases List.mem_cons.1 hp with rfl | hp
  · rw [happ, List.mem_singleton] at hdep
    exact ⟨rfl, hdep⟩
  · obtain rfl := List.mem_singleton.1 hp
    rw [hlib] at hdep
    cases hdep

lemma acyclic_appAndLib : appAndLib.Acyclic := by
  have hne : app.name ≠ lib.name := by decide
  have hpath : ∀ a b, Relation.TransGen appAndLib.DependsOn a b → a = app.name ∧ b = lib.name := by
    intro a b hab
    induction hab with
    | single h => exact dependsOn_appAndLib h
    | tail _ h ih => exact ⟨ih.1, (dependsOn_appAndLib h).2⟩
  intro a ha
  obtain ⟨happ, hlib⟩ := hpath a a ha
  exact hne (happ.symm.trans hlib)

/-- **The order that is wrong**: `app` is built before `lib`, which it needs. -/
theorem app_before_lib : appAndLib.rpc.Answers appAndLib ∧ appAndLib.Acyclic ∧
    resolveTargets appAndLib.rpc 10 [app.name] = some ⟨[], [app.action, lib.action], []⟩ ∧
    ¬ (⟨[], [app.action, lib.action], []⟩ : Plan).Right appAndLib [app.name] := by
  refine ⟨appAndLib.answers_rpc, acyclic_appAndLib, by decide, fun hright => ?_⟩
  have hpair := hright.ordered acyclic_appAndLib
  have hdep : appAndLib.DependsOn app.name lib.name := ⟨by decide, app, by decide, rfl, by decide⟩
  exact (List.pairwise_cons.1 hpair).1 lib.name List.mem_cons_self hdep

end Two09.Aur
