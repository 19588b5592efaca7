import Mathlib.Logic.Relation
import Two09.Aur.Search

/-!
# What is asked for in a whole search

The packages the AUR knows and what a request has of them, and the lists of a search after any number of
rounds: each in terms of the responses and the names found up to then.
-/

namespace Two09.Aur

open Two09.Lib

/-! ### The packages the AUR knows -/

/-- The packages the AUR knows, each under a name of its own. -/
structure Universe where
  pkgs : List AurPkg
  distinct : (pkgs.map AurPkg.name).Nodup

namespace Universe

def Known (u : Universe) (name : Bytes) : Prop := name ∈ u.pkgs.map AurPkg.name

instance (u : Universe) (name : Bytes) : Decidable (u.Known name) :=
  inferInstanceAs (Decidable (name ∈ u.pkgs.map AurPkg.name))

/-- That the package `a` depends on the package `b`. -/
def DependsOn (u : Universe) (a b : Bytes) : Prop :=
  u.Known b ∧ ∃ p ∈ u.pkgs, p.name = a ∧ b ∈ p.depNames

/-- That a target leads to the name. -/
def Leads (u : Universe) (targets : List Bytes) (name : Bytes) : Prop :=
  ∃ t ∈ targets, Relation.ReflTransGen u.DependsOn t name

/-- A package that is reachable from the targets. -/
def Reachable (u : Universe) (targets : List Bytes) (p : AurPkg) : Prop :=
  p ∈ u.pkgs ∧ u.Leads targets p.name

def Acyclic (u : Universe) : Prop := ∀ a, ¬ Relation.TransGen u.DependsOn a a

section Universe
variable {u : Universe} {targets : List Bytes} {p q : AurPkg} {name : Bytes}

lemma known_of_mem (hp : p ∈ u.pkgs) : u.Known p.name := List.mem_map_of_mem hp

lemma eq_of_name (hp : p ∈ u.pkgs) (hq : q ∈ u.pkgs) (h : p.name = q.name) : p = q :=
  List.inj_on_of_nodup_map u.distinct hp hq h

lemma dependsOn_iff (hp : p ∈ u.pkgs) (hq : q ∈ u.pkgs) :
    u.DependsOn p.name q.name ↔ q.name ∈ p.depNames := by
  constructor
  · rintro ⟨-, p', hp', heq, hdep⟩
    exact eq_of_name hp' hp heq ▸ hdep
  · exact fun hdep => ⟨known_of_mem hq, p, hp, rfl, hdep⟩

lemma Leads.step (h : u.Reachable targets p) (hdep : name ∈ p.depNames) (hknown : u.Known name) :
    u.Leads targets name := by
  obtain ⟨hp, t, ht, hpath⟩ := h
  exact ⟨t, ht, hpath.tail ⟨hknown, p, hp, rfl, hdep⟩⟩

end Universe

end Universe

/-- That each response has the known packages among those asked for, each once. -/
structure Rpc.Answers (rpc : Rpc) (u : Universe) : Prop where
  nodup : ∀ texts, (rpc.answer texts).Nodup
  mem : ∀ texts p, p ∈ rpc.answer texts ↔ p ∈ u.pkgs ∧ rpc.escape p.name ∈ texts
  escape : Function.Injective rpc.escape

section Requests
variable {rpc : Rpc} {u : Universe} {names targets : List Bytes} {name text : Bytes} {p q : AurPkg}

/-- The texts of a request for the names. -/
def Rpc.texts (rpc : Rpc) (names : List Bytes) : List Bytes :=
  askedTexts rpc.escape (rpc.baseUrl.length + 5) names

lemma mem_infoBatch (h : rpc.Answers u) :
    p ∈ rpc.infoBatch names ↔ p ∈ u.pkgs ∧ rpc.escape p.name ∈ rpc.texts names := by
  unfold Rpc.infoBatch Rpc.texts
  split_ifs with hnil
  · subst hnil
    simp [askedTexts]
  · exact h.mem _ p

lemma infoBatch_eq (h : rpc.Answers u) (names : List Bytes) :
    rpc.infoBatch names = rpc.answer (rpc.texts names) := by
  unfold Rpc.infoBatch Rpc.texts
  split_ifs with hnil
  · subst hnil
    exact (List.eq_nil_iff_forall_not_mem.2 fun p hp => by simpa [askedTexts] using (h.mem _ p).1 hp).symm
  · rfl

/-- A text is that of a name in full, or the beginning of one that is not asked for in full. -/
lemma of_mem_askedTexts {escape : Bytes → Bytes} (hinj : Function.Injective escape) {pos : Nat}
    (hnames : names.Nodup) (h : text ∈ askedTexts escape pos names) :
    ∃ n ∈ names, text = escape n ∨
      (text.length < (escape n).length ∧ escape n ∉ askedTexts escape pos names) := by
  induction names generalizing pos with
  | nil => cases h
  | cons n names ih =>
    obtain ⟨hn, hnames⟩ := List.nodup_cons.1 hnames
    rw [askedTexts] at h ⊢
    split_ifs at h ⊢ with hpos
    · by_cases hfull : (escape n).length ≤ 8191 - pos - 7
      · rw [List.take_of_length_le hfull] at h ⊢
        rcases List.mem_cons.1 h with h | h
        · exact ⟨n, List.mem_cons_self, .inl h⟩
        · obtain ⟨m, hm, hcase⟩ := ih hnames h
          refine ⟨m, List.mem_cons_of_mem _ hm, hcase.imp id ?_⟩
          rintro ⟨hlt, hout⟩
          refine ⟨hlt, fun hmem => ?_⟩
          rcases List.mem_cons.1 hmem with heq | hmem
          · exact hn (hinj heq ▸ hm)
          · exact hout hmem
      · -- the last name, cut off: nothing comes after it
        have hrest : askedTexts escape (pos + (7 + (escape n).length)) names = [] := by
          cases names with
          | nil => rfl
          | cons m names => rw [askedTexts, if_neg (by omega)]
        rw [hrest, List.mem_singleton] at h
        have hlen : text.length < (escape n).length := by
          rw [h, List.length_take]
          omega
        refine ⟨n, List.mem_cons_self, .inr ⟨hlen, fun hmem => ?_⟩⟩
        rw [hrest, List.mem_singleton] at hmem
        rw [h, ← hmem] at hlen
        exact lt_irrefl _ hlen
    · cases h

/-- When each name is asked for in full, the texts are those of the names. -/
lemma askedTexts_eq {escape : Bytes → Bytes} (hinj : Function.Injective escape) {pos : Nat}
    (hnames : names.Nodup) (h : ∀ n ∈ names, escape n ∈ askedTexts escape pos names) :
    askedTexts escape pos names = names.map escape := by
  induction names generalizing pos with
  | nil => rfl
  | cons n names ih =>
    obtain ⟨hn, hnames⟩ := List.nodup_cons.1 hnames
    rw [askedTexts] at h ⊢
    split_ifs at h ⊢ with hpos
    · have hfull : (escape n).length ≤ 8191 - pos - 7 := by
        by_contra hcut
        have hrest : askedTexts escape (pos + (7 + (escape n).length)) names = [] := by
          cases names with
          | nil => rfl
          | cons m names => rw [askedTexts, if_neg (by omega)]
        have hmem := h n List.mem_cons_self
        rw [hrest, List.mem_singleton] at hmem
        have hlen : (escape n).length = ((escape n).take (8191 - pos - 7)).length := by rw [← hmem]
        rw [List.length_take] at hlen
        omega
      rw [List.take_of_length_le hfull] at h ⊢
      rw [List.map_cons, ih hnames]
      intro m hm
      rcases List.mem_cons.1 (h m (List.mem_cons_of_mem _ hm)) with heq | hmem
      · exact absurd (hinj heq ▸ hm) hn
      · exact hmem
    · cases h n List.mem_cons_self

end Requests

/-! ### The lists of a search -/

section Runs
variable {rpc : Rpc} {u : Universe} {targets : List Bytes} {name : Bytes} {p : AurPkg} {k : Nat}

/-- **The first pass**: every target is in the queue, and the graph has no edges. -/
lemma start_spec (targets : List Bytes) :
    (Search.start targets).queue = fresh [] targets ∧ (Search.start targets).seen = fresh [] targets ∧
    (Search.start targets).install = [] ∧ (Search.start targets).build = [] ∧
    (Search.start targets).graph.WF ∧ (Search.start targets).graph.map Prod.fst = fresh [] targets ∧
    ¬ (Search.start targets).graph.HasEdge := by
  have hrun : ∀ (targets names : List Bytes) (g : DepGraph), g.WF → g.map Prod.fst = names →
      ¬ g.HasEdge → let s := targets.foldl (fun s target => { s with
          seen := addName s.seen target, queue := addName s.queue target,
          graph := s.graph.getOrCreate target }) (⟨names, names, [], [], g⟩ : Search)
        s.queue = names ++ fresh names targets ∧ s.seen = names ++ fresh names targets ∧
        s.install = [] ∧ s.build = [] ∧ s.graph.WF ∧
        s.graph.map Prod.fst = names ++ fresh names targets ∧ ¬ s.graph.HasEdge := by
    intro targets
    induction targets with
    | nil =>
      intro names g hwf hnames hedge
      simpa [fresh] using ⟨hwf, hnames, hedge⟩
    | cons t targets ih =>
      intro names g hwf hnames hedge
      have hnext := ih (addName names t) (g.getOrCreate t) (hwf.getOrCreate t)
        (by rw [DepGraph.map_getOrCreate, hnames]) fun hab => by
          obtain ⟨a, b, hab⟩ := hab
          exact hedge ⟨a, b, DepGraph.edge_getOrCreate.1 hab⟩
      have hfresh : addName names t ++ fresh (addName names t) targets =
          names ++ fresh names (t :: targets) := by
        unfold addName
        rw [fresh]
        split_ifs
        · rfl
        · rw [List.append_assoc, List.singleton_append]
      rw [hfresh] at hnext
      exact hnext
  have hwf : DepGraph.WF [] := ⟨List.nodup_nil, by rintro a b ⟨e, he, -⟩; cases he⟩
  have hedge : ¬ DepGraph.HasEdge [] := by
    rintro ⟨a, b, e, he, -⟩
    cases he
  have hstart := hrun targets [] [] hwf rfl hedge
  simp only [List.nil_append] at hstart
  exact hstart

lemma run_zero : Search.run rpc targets 0 = Search.start targets := rfl

lemma run_succ (k : Nat) : Search.run rpc targets (k + 1) = (Search.run rpc targets k).step rpc :=
  Function.iterate_succ_apply' ..

lemma tidy_run (k : Nat) : (Search.run rpc targets k).Tidy := by
  induction k with
  | zero =>
    obtain ⟨-, -, hinstall, -⟩ := start_spec targets
    intro a ha
    rw [run_zero, hinstall] at ha
    cases ha
  | succ k ih =>
    rw [run_succ]
    exact tidy_step ih

/-- The queue before the `k`th round. -/
def queueAt (rpc : Rpc) (targets : List Bytes) (k : Nat) : List Bytes := (Search.run rpc targets k).queue

/-- The names that the `k`th round finds. -/
def foundAt (rpc : Rpc) (targets : List Bytes) (k : Nat) : List Bytes :=
  (Search.run rpc targets k).found rpc

lemma queueAt_zero : queueAt rpc targets 0 = fresh [] targets := (start_spec targets).1

lemma queueAt_succ (k : Nat) :
    queueAt rpc targets (k + 1) = (foundAt rpc targets k).filter rpc.isAurPackage := by
  unfold queueAt foundAt
  rw [run_succ]
  exact (step_spec (tidy_run k)).1

lemma nodup_queueAt (k : Nat) : (queueAt rpc targets k).Nodup := by
  cases k with
  | zero =>
    rw [queueAt_zero]
    exact nodup_fresh _ _
  | succ k =>
    rw [queueAt_succ]
    exact (nodup_fresh _ _).filter _

lemma mem_targets : name ∈ fresh [] targets ↔ name ∈ targets := by
  rw [mem_fresh]
  exact ⟨And.left, fun h => ⟨h, List.not_mem_nil⟩⟩

/-- **What has been seen**: the targets and what was found. -/
lemma mem_seen : name ∈ (Search.run rpc targets k).seen ↔
    name ∈ targets ∨ ∃ j < k, name ∈ foundAt rpc targets j := by
  induction k with
  | zero =>
    rw [run_zero, (start_spec targets).2.1, mem_targets]
    simp
  | succ k ih =>
    rw [run_succ, (step_spec (tidy_run k)).2.1, List.mem_append, ih, or_assoc]
    refine or_congr_right ⟨?_, ?_⟩
    · rintro (⟨j, hj, h⟩ | h)
      · exact ⟨j, by omega, h⟩
      · exact ⟨k, by omega, h⟩
    · rintro ⟨j, hj, h⟩
      rcases Nat.lt_succ_iff_lt_or_eq.1 hj with hj | rfl
      · exact .inl ⟨j, hj, h⟩
      · exact .inr h

lemma mem_foundAt : name ∈ foundAt rpc targets k ↔
    (∃ p ∈ rpc.infoBatch (queueAt rpc targets k), name ∈ p.depNames) ∧
      name ∉ (Search.run rpc targets k).seen := by
  unfold foundAt Search.found queueAt
  rw [mem_fresh, List.mem_flatMap]

/-- **What is to be installed**: what was found and is not in the AUR, as a request for it tells. -/
lemma mem_install : name ∈ (Search.run rpc targets k).install.map Action.name ↔
    ∃ j < k, name ∈ foundAt rpc targets j ∧ rpc.isAurPackage name = false := by
  induction k with
  | zero =>
    rw [run_zero, (start_spec targets).2.2.1]
    simp
  | succ k ih =>
    have hnames : ((foundAt rpc targets k).filter fun n => !rpc.isAurPackage n).map
        (Action.name ∘ plainAction) = (foundAt rpc targets k).filter fun n => !rpc.isAurPackage n :=
      List.map_id'' (fun _ => rfl) _
    rw [run_succ, (step_spec (tidy_run k)).2.2.1, List.map_append, List.mem_append, ih, List.map_map]
    have hlast : name ∈ (((Search.run rpc targets k).found rpc).filter fun n =>
        !rpc.isAurPackage n).map (Action.name ∘ plainAction) ↔
        name ∈ foundAt rpc targets k ∧ rpc.isAurPackage name = false := by
      rw [show (Search.run rpc targets k).found rpc = foundAt rpc targets k from rfl, hnames,
        List.mem_filter]
      simp
    rw [hlast]
    constructor
    · rintro (⟨j, hj, h⟩ | h)
      · exact ⟨j, by omega, h⟩
      · exact ⟨k, by omega, h⟩
    · rintro ⟨j, hj, h⟩
      rcases Nat.lt_succ_iff_lt_or_eq.1 hj with hj | rfl
      · exact .inl ⟨j, hj, h⟩
      · exact .inr h

/-- A name is found once. -/
lemma foundAt_unique {i j : Nat} (hi : name ∈ foundAt rpc targets i) (hj : name ∈ foundAt rpc targets j) :
    i = j := by
  by_contra hne
  rcases Nat.lt_or_gt_of_ne hne with hlt | hlt
  · exact (mem_foundAt.1 hj).2 (mem_seen.2 (.inr ⟨i, hlt, hi⟩))
  · exact (mem_foundAt.1 hi).2 (mem_seen.2 (.inr ⟨j, hlt, hj⟩))

lemma foundAt_notMem_targets (h : name ∈ foundAt rpc targets k) : name ∉ targets :=
  fun ht => (mem_foundAt.1 h).2 (mem_seen.2 (.inl ht))

/-- A name is asked for once. -/
lemma queueAt_unique {i j : Nat} (hi : name ∈ queueAt rpc targets i) (hj : name ∈ queueAt rpc targets j) :
    i = j := by
  cases i with
  | zero =>
    rw [queueAt_zero, mem_targets] at hi
    cases j with
    | zero => rfl
    | succ j =>
      rw [queueAt_succ] at hj
      exact absurd hi (foundAt_notMem_targets (List.mem_of_mem_filter hj))
  | succ i =>
    rw [queueAt_succ] at hi
    cases j with
    | zero =>
      rw [queueAt_zero, mem_targets] at hj
      exact absurd hj (foundAt_notMem_targets (List.mem_of_mem_filter hi))
    | succ j =>
      rw [queueAt_succ] at hj
      rw [foundAt_unique (List.mem_of_mem_filter hi) (List.mem_of_mem_filter hj)]

/-- A dependency of a package that was looked up has been found, or is a target. -/
lemma found_of_dep {d : Bytes} (hp : p ∈ rpc.infoBatch (queueAt rpc targets k)) (hd : d ∈ p.depNames)
    (ht : d ∉ targets) : ∃ j ≤ k, d ∈ foundAt rpc targets j := by
  by_cases hseen : d ∈ (Search.run rpc targets k).seen
  · rcases mem_seen.1 hseen with h | ⟨j, hj, h⟩
    · exact absurd h ht
    · exact ⟨j, hj.le, h⟩
  · exact ⟨k, le_rfl, mem_foundAt.2 ⟨⟨p, hp, hd⟩, hseen⟩⟩

lemma names_foldl_addAction (build : List Action) (pkgs : List AurPkg) :
    ((pkgs.foldl addAction build).map Action.name) =
      (pkgs.map AurPkg.name).foldl addName (build.map Action.name) := by
  induction pkgs generalizing build with
  | nil => rfl
  | cons p pkgs ih => rw [List.foldl_cons, ih, map_addAction, List.map_cons, List.foldl_cons]

/-- **What is to be built**: the packages of the responses, each once. -/
lemma build_spec (h : rpc.Answers u) (targets : List Bytes) (k : Nat) :
    ((Search.run rpc targets k).build.map Action.name).Nodup ∧
    ∀ a, a ∈ (Search.run rpc targets k).build ↔
      ∃ j < k, ∃ p ∈ rpc.infoBatch (queueAt rpc targets j), a = p.action := by
  have hadd : ∀ (build : List Action) (p : AurPkg), p ∈ u.pkgs →
      (∀ a ∈ build, ∃ q ∈ u.pkgs, a = q.action) → (build.map Action.name).Nodup →
      ((addAction build p).map Action.name).Nodup ∧
        ∀ a, a ∈ addAction build p ↔ a ∈ build ∨ a = p.action := by
    intro build p hp hbuild hnodup
    rw [map_addAction]
    refine ⟨DepGraph.nodup_addName hnodup, fun a => ?_⟩
    unfold addAction
    split_ifs with hname
    · obtain ⟨b, hb, heq⟩ := List.mem_map.1 (containsAction_iff.1 hname)
      obtain ⟨q, hq, rfl⟩ := hbuild b hb
      obtain rfl : q = p := Universe.eq_of_name hq hp heq
      exact ⟨.inl, fun ha => ha.elim id fun ha => ha ▸ hb⟩
    · rw [List.mem_append, List.mem_singleton]
  have hfold : ∀ (pkgs : List AurPkg) (build : List Action), (∀ p ∈ pkgs, p ∈ u.pkgs) →
      (∀ a ∈ build, ∃ q ∈ u.pkgs, a = q.action) → (build.map Action.name).Nodup →
      ((pkgs.foldl addAction build).map Action.name).Nodup ∧
        ∀ a, a ∈ pkgs.foldl addAction build ↔ a ∈ build ∨ ∃ p ∈ pkgs, a = p.action := by
    intro pkgs
    induction pkgs with
    | nil => exact fun build _ _ hnodup => ⟨hnodup, by simp⟩
    | cons p pkgs ih =>
      intro build hpkgs hbuild hnodup
      obtain ⟨hp, hpkgs⟩ := List.forall_mem_cons.1 hpkgs
      obtain ⟨hnodup', hmem⟩ := hadd build p hp hbuild hnodup
      obtain ⟨hnodup'', hmem'⟩ := ih (addAction build p) hpkgs (fun a ha => by
        rcases (hmem a).1 ha with ha | rfl
        · exact hbuild a ha
        · exact ⟨p, hp, rfl⟩) hnodup'
      refine ⟨hnodup'', fun a => ?_⟩
      rw [List.foldl_cons, hmem', hmem, or_assoc, List.exists_mem_cons_iff]
  induction k with
  | zero =>
    rw [run_zero, (start_spec targets).2.2.2.1]
    simp
  | succ k ih =>
    obtain ⟨hnodup, hmem⟩ := ih
    rw [run_succ, (step_spec (tidy_run k)).2.2.2.1]
    have hpkgs : ∀ p ∈ rpc.infoBatch (queueAt rpc targets k), p ∈ u.pkgs :=
      fun p hp => ((mem_infoBatch h).1 hp).1
    obtain ⟨hnodup', hmem'⟩ := hfold (rpc.infoBatch (queueAt rpc targets k)) _ hpkgs (fun a ha => by
      obtain ⟨j, -, p, hp, heq⟩ := (hmem a).1 ha
      exact ⟨p, ((mem_infoBatch h).1 hp).1, heq⟩) hnodup
    refine ⟨hnodup', fun a => (hmem' a).trans ?_⟩
    rw [hmem]
    constructor
    · rintro (⟨j, hj, ha⟩ | ha)
      · exact ⟨j, by omega, ha⟩
      · exact ⟨k, by omega, ha⟩
    · rintro ⟨j, hj, ha⟩
      rcases Nat.lt_succ_iff_lt_or_eq.1 hj with hj | rfl
      · exact .inl ⟨j, hj, ha⟩
      · exact .inr ha

end Runs

end Two09.Aur
