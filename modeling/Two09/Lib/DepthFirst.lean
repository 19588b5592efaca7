import Mathlib

/-!
# Depth-first search without recursion

A search that goes from vertex to vertex. Every vertex keeps an iterator over its children, and the vertex that the
search came from. The vertices are the numbers below `n`, and the search begins anew at every one of them that it
has not come to. The order in which it leaves them is a topological one as far as there is one: an edge that it does
not respect is found to close a cycle.
-/

namespace Two09.Lib

/-- How far the search is with a vertex. -/
inductive Mark
  | unprocessed
  | processing
  | processed
  deriving DecidableEq

/-- A search under way. `roots` are the vertices from the one on at which it began last, `cycles` the edges to a
vertex in progress, each with the vertices from its source back to the root. -/
structure Dfs where
  mark : ℕ → Mark
  iterator : ℕ → List ℕ
  parent : ℕ → Option ℕ
  vertex : ℕ
  roots : List ℕ
  finished : List ℕ
  cycles : List (List ℕ × ℕ)

namespace Dfs

/-- A vertex and its ancestors, so many of them. -/
def ancestors (parent : ℕ → Option ℕ) : ℕ → ℕ → List ℕ
  | 0, _ => []
  | n + 1, v => v :: ((parent v).map (ancestors parent n)).getD []

/-- Along an iterator: the children in progress, up to the first child that is unprocessed, and this with the rest. -/
def scan (mark : ℕ → Mark) : List ℕ → List ℕ × Option (ℕ × List ℕ)
  | [] => ([], none)
  | c :: cs =>
    match mark c with
    | .unprocessed => ([], some (c, cs))
    | .processing => (c :: (scan mark cs).1, (scan mark cs).2)
    | .processed => scan mark cs

/-- The vertex of the search is in progress, with the edges found so far that close a cycle. -/
def enter (n : ℕ) (s : Dfs) : Dfs :=
  let mark := Function.update s.mark s.vertex .processing
  { s with
    mark := mark
    cycles := s.cycles ++
      (scan mark (s.iterator s.vertex)).1.map fun c => (ancestors s.parent n s.vertex, c) }

/-- On to a child. -/
def descend (s : Dfs) (child : ℕ) (rest : List ℕ) : Dfs :=
  { s with
    iterator := Function.update s.iterator s.vertex rest
    parent := Function.update s.parent child (some s.vertex)
    vertex := child }

/-- Back from a vertex without further children. -/
def leave (s : Dfs) : Dfs :=
  { s with
    mark := Function.update s.mark s.vertex .processed
    iterator := Function.update s.iterator s.vertex []
    finished := s.finished ++ [s.vertex] }

/-- On to the next vertex that the search has not come to. -/
def nextRoot (s : Dfs) : Dfs :=
  let roots := s.roots.tail.dropWhile fun v => s.mark v ≠ .unprocessed
  { s with
    roots := roots
    vertex := roots.headD s.vertex }

/-- One turn of the search. -/
def turn (n : ℕ) (s : Dfs) : Dfs :=
  let entered := s.enter n
  match (scan entered.mark (s.iterator s.vertex)).2 with
  | some (child, rest) => entered.descend child rest
  | none =>
    match s.parent s.vertex with
    | some parent => { entered.leave with vertex := parent }
    | none => entered.leave.nextRoot

/-- The search to its end; none when it does not come to it within so many turns. -/
def run (n : ℕ) : ℕ → Dfs → Option Dfs
  | 0, s => if s.roots.isEmpty then some s else none
  | fuel + 1, s => if s.roots.isEmpty then some s else run n fuel (s.turn n)

def start (n : ℕ) (children : ℕ → List ℕ) : Dfs := ⟨fun _ => .unprocessed, children, fun _ => none, 0, List.range n, [], []⟩

end Dfs

/-- The search from the beginning to the end: the order in which the vertices are left, and the edges that close a
cycle. -/
def depthFirst (n : ℕ) (children : ℕ → List ℕ) : Option (List ℕ × List (List ℕ × ℕ)) :=
  (Dfs.run n (2 * n) (Dfs.start n children)).map fun s => (s.finished, s.cycles)

/-! ### Order in a list -/

section Before

variable {α : Type*} {l : List α} {a b c : α}

lemma before_iff : [a, b].Sublist l ↔ ∃ l₁ l₂, l = l₁ ++ l₂ ∧ a ∈ l₁ ∧ b ∈ l₂ := by
  rw [show [a, b] = [a] ++ [b] from rfl, List.append_sublist_iff]
  simp only [List.singleton_sublist]

lemma before_trans (hl : l.Nodup) (hab : [a, b].Sublist l) (hbc : [b, c].Sublist l) : [a, c].Sublist l := by
  obtain ⟨l₁, l₂, rfl, ha, hb⟩ := before_iff.1 hab
  obtain ⟨m₁, m₂, heq, hb', hc⟩ := before_iff.1 hbc
  rcases List.append_eq_append_iff.1 heq with ⟨k, rfl, rfl⟩ | ⟨k, rfl, rfl⟩
  · exact before_iff.2 ⟨l₁ ++ k, m₂, by rw [List.append_assoc], List.mem_append_left _ ha, hc⟩
  · exact absurd hb (List.disjoint_of_nodup_append hl (List.mem_append_left _ hb'))

lemma not_before_swap (hl : l.Nodup) (hab : [a, b].Sublist l) : ¬ [b, a].Sublist l := by
  intro hba
  have haa := before_trans hl hab hba
  have hnodup := hl.sublist haa
  simp at hnodup

end Before

/-- An edge from the first of `path` to `w` closes a cycle, and what the search found between them comes before `w` in
the order. -/
structure ClosesCycle (children : ℕ → List ℕ) (order path : List ℕ) (w : ℕ) : Prop where
  edge : ∃ v ∈ path.head?, w ∈ children v
  chain : path.IsChain fun a b => a ∈ children b
  mem : w ∈ path
  before : ∀ a ∈ path.takeWhile (· ≠ w), [a, w].Sublist order

lemma ClosesCycle.mono {children : ℕ → List ℕ} {order order' path : List ℕ} {w : ℕ} (h : ClosesCycle children order path w)
    (hsub : order.Sublist order') : ClosesCycle children order' path w :=
  ⟨h.edge, h.chain, h.mem, fun a ha => (h.before a ha).trans hsub⟩

namespace Dfs

/-- The vertices of the list are those from which the search came to the first. -/
def Linked (parent : ℕ → Option ℕ) : List ℕ → Prop
  | [] => True
  | v :: rest => parent v = rest.head? ∧ Linked parent rest

/-- The search is on the path `stack` from the vertex back to the root. -/
structure At (n : ℕ) (children : ℕ → List ℕ) (s : Dfs) (stack : List ℕ) : Prop where
  linked : Linked s.parent stack
  chain : stack.IsChain fun a b => a ∈ children b
  nodup : (s.finished ++ stack).Nodup
  lt : ∀ v ∈ s.finished ++ stack, v < n
  processed : ∀ v, s.mark v = .processed ↔ v ∈ s.finished
  onStack : ∀ v, s.mark v = .processing → v ∈ stack
  fresh : ∀ v, v ∉ s.finished → v ∉ stack → s.iterator v = children v ∧ s.parent v = none
  sub : ∀ v, s.iterator v ⊆ children v
  waiting : ∀ above u below, stack = above ++ u :: below → ∀ w ∈ children u,
    w ∈ s.iterator u ∨ w ∈ s.finished ∨ above.getLast? = some w ∨ ∃ l, (u :: l, w) ∈ s.cycles
  left : ∀ v ∈ s.finished, ∀ w ∈ children v, [w, v].Sublist s.finished ∨ ∃ l, (v :: l, w) ∈ s.cycles
  closes : ∀ e ∈ s.cycles, ClosesCycle children (s.finished ++ stack) e.1 e.2

/-- Between two turns: all but the first of the path are in progress. -/
structure Good (n : ℕ) (children : ℕ → List ℕ) (s : Dfs) (stack : List ℕ) : Prop extends s.At n children stack where
  head : s.roots ≠ [] → stack.head? = some s.vertex
  processing : ∀ v ∈ stack.tail, s.mark v = .processing
  bottom : stack.getLast? = s.roots.head?
  passed : ∃ passed, List.range n = passed ++ s.roots ∧ ∀ v ∈ passed, v ∈ s.finished

variable {n : ℕ} {children : ℕ → List ℕ} {s : Dfs} {stack rest it : List ℕ} {parent parent' : ℕ → Option ℕ}
  {mark : ℕ → Mark} {v w c : ℕ}

section Parts

lemma of_mem_scan (h : c ∈ (scan mark it).1) : c ∈ it ∧ mark c = .processing := by
  induction it with
  | nil => cases h
  | cons d it ih =>
    unfold scan at h
    cases hd : mark d <;> rw [hd] at h
    · cases h
    · rcases List.mem_cons.1 h with rfl | h
      · exact ⟨List.mem_cons_self, hd⟩
      · exact (ih h).imp_left (List.mem_cons_of_mem _)
    · exact (ih h).imp_left (List.mem_cons_of_mem _)

lemma of_scan_some (h : (scan mark it).2 = some (c, rest)) : c ∈ it ∧ mark c = .unprocessed ∧ rest ⊆ it := by
  induction it with
  | nil => cases h
  | cons d it ih =>
    unfold scan at h
    cases hd : mark d <;> rw [hd] at h
    · cases h
      exact ⟨List.mem_cons_self, hd, List.subset_cons_self _ _⟩
    · obtain ⟨hc, hmark, hsub⟩ := ih h
      exact ⟨List.mem_cons_of_mem _ hc, hmark, List.subset_cons_of_subset _ hsub⟩
    · obtain ⟨hc, hmark, hsub⟩ := ih h
      exact ⟨List.mem_cons_of_mem _ hc, hmark, List.subset_cons_of_subset _ hsub⟩

/-- What is on an iterator is done with, in progress, or still to come. -/
lemma scan_covers (mark : ℕ → Mark) (hw : w ∈ it) : mark w = .processed ∨ w ∈ (scan mark it).1 ∨
    ∃ c rest, (scan mark it).2 = some (c, rest) ∧ (w = c ∨ w ∈ rest) := by
  induction it with
  | nil => cases hw
  | cons d it ih =>
    unfold scan
    cases hd : mark d with
    | unprocessed => exact .inr (.inr ⟨d, it, rfl, List.mem_cons.1 hw⟩)
    | processing =>
      rcases List.mem_cons.1 hw with rfl | hw
      · exact .inr (.inl List.mem_cons_self)
      · exact (ih hw).imp_right (Or.imp_left (List.mem_cons_of_mem _))
    | processed =>
      rcases List.mem_cons.1 hw with rfl | hw
      · exact .inl hd
      · exact ih hw

lemma Linked.congr (h : Linked parent stack) (heq : ∀ v ∈ stack, parent' v = parent v) : Linked parent' stack := by
  induction stack with
  | nil => trivial
  | cons v stack ih =>
    exact ⟨(heq v List.mem_cons_self).trans h.1, ih h.2 fun u hu => heq u (List.mem_cons_of_mem _ hu)⟩

lemma ancestors_eq (h : Linked parent (v :: rest)) (hn : rest.length < n) : ancestors parent n v = v :: rest := by
  induction n generalizing v rest with
  | zero => omega
  | succ n ih =>
    rw [ancestors, h.1]
    cases rest with
    | nil => rfl
    | cons p rest =>
      rw [List.length_cons] at hn
      rw [List.head?_cons, Option.map_some, Option.getD_some, ih h.2 (by omega)]

lemma before_of_mem_takeWhile {l : List ℕ} (hw : w ∈ l) (hv : v ∈ l.takeWhile (· ≠ w)) : [v, w].Sublist l := by
  have hsplit := List.takeWhile_append_dropWhile (p := (· ≠ w)) (l := l)
  refine before_iff.2 ⟨_, _, hsplit.symm, hv, ?_⟩
  rw [← hsplit] at hw
  refine (List.mem_append.1 hw).resolve_left fun hmem => ?_
  simpa using List.mem_takeWhile_imp hmem

lemma At.length_le (h : s.At n children stack) : (s.finished ++ stack).length ≤ n := by
  have hsub : s.finished ++ stack ⊆ List.range n := fun v hv => List.mem_range.2 (h.lt v hv)
  simpa using (h.nodup.subperm hsub).length_le

end Parts

/-! ### One turn -/

section Turn

lemma Good.not_mem_finished (h : s.Good n children (s.vertex :: rest)) : s.vertex ∉ s.finished := fun hv =>
  List.disjoint_of_nodup_append h.nodup hv List.mem_cons_self

lemma Good.not_mem_rest (h : s.Good n children (s.vertex :: rest)) : s.vertex ∉ rest :=
  (List.nodup_cons.1 (List.nodup_append.1 h.nodup).2.1).1

lemma Good.mark_enter (h : s.Good n children (s.vertex :: rest)) (hv : v ∈ s.vertex :: rest) :
    (s.enter n).mark v = .processing := by
  rcases List.mem_cons.1 hv with rfl | hv
  · exact Function.update_self ..
  · have hne : v ≠ s.vertex := fun heq => h.not_mem_rest (heq ▸ hv)
    exact (Function.update_of_ne hne ..).trans (h.processing v hv)

/-- A vertex that the search enters is in progress, and its edges to vertices in progress close cycles. -/
lemma Good.enter (h : s.Good n children (s.vertex :: rest)) : (s.enter n).At n children (s.vertex :: rest) where
  linked := h.linked
  chain := h.chain
  nodup := h.nodup
  lt := h.lt
  processed v := by
    by_cases hv : v = s.vertex
    · have hnot := h.not_mem_finished
      subst hv
      simp [Dfs.enter, hnot]
    · have hsame : (s.enter n).mark v = s.mark v := Function.update_of_ne hv ..
      rw [hsame]
      exact h.processed v
  onStack v hv := by
    by_cases heq : v = s.vertex
    · exact heq ▸ List.mem_cons_self
    · have hsame : (s.enter n).mark v = s.mark v := Function.update_of_ne heq ..
      exact h.onStack v (hsame ▸ hv)
  fresh := h.fresh
  sub := h.sub
  waiting above u below heq w hw :=
    (h.waiting above u below heq w hw).imp_right <| Or.imp_right <| Or.imp_right fun ⟨l, hl⟩ =>
      ⟨l, List.mem_append_left _ hl⟩
  left v hv w hw := (h.left v hv w hw).imp_right fun ⟨l, hl⟩ => ⟨l, List.mem_append_left _ hl⟩
  closes e he := by
    rcases List.mem_append.1 he with he | he
    · exact h.closes e he
    · obtain ⟨c, hc, rfl⟩ := List.mem_map.1 he
      obtain ⟨hit, hmark⟩ := of_mem_scan hc
      have hstack : c ∈ s.vertex :: rest := by
        by_cases heq : c = s.vertex
        · exact heq ▸ List.mem_cons_self
        · rw [Function.update_of_ne heq] at hmark
          exact h.onStack c hmark
      have hlen := h.length_le
      rw [List.length_append, List.length_cons] at hlen
      rw [ancestors_eq h.linked (by omega)]
      exact ⟨⟨s.vertex, rfl, h.sub _ hit⟩, h.chain, hstack, fun a ha =>
        (before_of_mem_takeWhile hstack ha).trans (List.sublist_append_right _ _)⟩

/-- The children of the vertex that the search is at. -/
lemma Good.children_cases (h : s.Good n children (s.vertex :: rest)) (hw : w ∈ children s.vertex) :
    w ∈ s.finished ∨ (∃ l, (s.vertex :: l, w) ∈ (s.enter n).cycles) ∨
      ∃ c it, (scan (s.enter n).mark (s.iterator s.vertex)).2 = some (c, it) ∧ (w = c ∨ w ∈ it) := by
  rcases h.waiting [] s.vertex rest rfl w hw with hit | hdone | habove | ⟨l, hl⟩
  · rcases scan_covers (s.enter n).mark hit with hmark | hback | hnext
    · exact .inl ((h.enter.processed w).1 hmark)
    · have hlen := h.length_le
      rw [List.length_append, List.length_cons] at hlen
      refine .inr (.inl ⟨rest, List.mem_append_right _ (List.mem_map.2 ⟨w, hback, ?_⟩)⟩)
      rw [ancestors_eq h.linked (by omega)]
    · exact .inr (.inr hnext)
  · exact .inl hdone
  · cases habove
  · exact .inr (.inl ⟨l, List.mem_append_left _ hl⟩)

/-- The search goes on to an unprocessed child. -/
lemma Good.descend (h : s.Good n children (s.vertex :: rest)) (hclosed : ∀ v, ∀ w ∈ children v, w < n)
    (hscan : (scan (s.enter n).mark (s.iterator s.vertex)).2 = some (c, it)) :
    ((s.enter n).descend c it).Good n children (c :: s.vertex :: rest) := by
  obtain ⟨hcit, hmark, hsub⟩ := of_scan_some hscan
  have hc : c ∈ children s.vertex := h.sub _ hcit
  have hnew : c ∉ s.vertex :: rest := by
    intro hmem
    rw [h.mark_enter hmem] at hmark
    cases hmark
  have hnot : c ∉ s.finished := by
    intro hmem
    rw [(h.enter.processed c).2 hmem] at hmark
    cases hmark
  have horder : (s.finished ++ s.vertex :: rest).Sublist (s.finished ++ c :: s.vertex :: rest) :=
    (List.sublist_cons_self _ _).append_left _
  refine ⟨⟨⟨Function.update_self .., h.linked.congr fun v hv => ?_⟩, h.chain.cons_cons hc, ?_, fun v hv => ?_,
    h.enter.processed, fun v hv => List.mem_cons_of_mem _ (h.enter.onStack v hv), fun v hv hv' => ?_, fun v => ?_,
    fun above u below heq w hw => ?_, h.enter.left, fun e he => (h.enter.closes e he).mono horder⟩, fun _ => rfl,
    fun v hv => h.mark_enter hv, ?_, h.passed⟩
  · exact Function.update_of_ne (fun heq => hnew (by rw [← heq]; exact hv)) ..
  · refine List.nodup_middle.2 (List.nodup_cons.2 ⟨?_, h.nodup⟩)
    exact fun hmem => (List.mem_append.1 hmem).elim hnot hnew
  · rcases List.mem_append.1 hv with hv | hv
    · exact h.lt v (List.mem_append_left _ hv)
    rcases List.mem_cons.1 hv with rfl | hv
    · exact hclosed _ _ hc
    · exact h.lt v (List.mem_append_right _ hv)
  · rw [List.mem_cons, not_or] at hv'
    obtain ⟨hit, hparent⟩ := h.fresh v hv hv'.2
    have hne : v ≠ s.vertex := fun heq => hv'.2 (heq ▸ List.mem_cons_self)
    exact ⟨(Function.update_of_ne hne ..).trans hit, (Function.update_of_ne hv'.1 ..).trans hparent⟩
  · by_cases hv : v = s.vertex
    · subst hv
      have hsame : ((s.enter n).descend c it).iterator s.vertex = it := Function.update_self ..
      rw [hsame]
      exact List.Subset.trans hsub (h.sub _)
    · have hsame : ((s.enter n).descend c it).iterator v = s.iterator v := Function.update_of_ne hv ..
      rw [hsame]
      exact h.sub v
  · cases above with
    | nil =>
      obtain ⟨rfl, -⟩ := List.cons_eq_cons.1 heq
      obtain ⟨hit, -⟩ := h.fresh c hnot hnew
      have hne : c ≠ s.vertex := fun heq => hnew (heq ▸ List.mem_cons_self)
      have hsame : ((s.enter n).descend c it).iterator c = children c := (Function.update_of_ne hne ..).trans hit
      exact .inl (hsame.symm ▸ hw)
    | cons c' above =>
      obtain ⟨rfl, hrest⟩ := List.cons_eq_cons.1 heq
      cases above with
      | nil =>
        obtain ⟨rfl, -⟩ := List.cons_eq_cons.1 hrest
        rcases h.children_cases hw with hdone | hcycle | ⟨c', it', hscan', hw⟩
        · exact .inr (.inl hdone)
        · exact .inr (.inr (.inr hcycle))
        · rw [hscan] at hscan'
          cases hscan'
          rcases hw with rfl | hw
          · exact .inr (.inr (.inl rfl))
          · have hsame : ((s.enter n).descend c it).iterator s.vertex = it := Function.update_self ..
            exact .inl (hsame.symm ▸ hw)
      | cons d above =>
        have hmem : u ∈ rest := by
          rw [(List.cons_eq_cons.1 hrest).2]
          exact List.mem_append_right _ List.mem_cons_self
        have hne : u ≠ s.vertex := fun heq => h.not_mem_rest (heq ▸ hmem)
        have hsame : ((s.enter n).descend c it).iterator u = s.iterator u := Function.update_of_ne hne ..
        rw [hsame, List.getLast?_cons_cons]
        exact h.enter.waiting (d :: above) u below hrest w hw
  · rw [List.getLast?_cons_cons]
    exact h.bottom

/-- The search is done with a vertex whose children it has all come to. -/
lemma Good.leave (h : s.Good n children (s.vertex :: rest))
    (hscan : (scan (s.enter n).mark (s.iterator s.vertex)).2 = none) : (s.enter n).leave.At n children rest := by
  have horder : s.finished ++ [s.vertex] ++ rest = s.finished ++ s.vertex :: rest := by rw [List.append_assoc]; rfl
  have hsame : ∀ v ≠ s.vertex, (s.enter n).leave.mark v = (s.enter n).mark v := fun v hv => Function.update_of_ne hv ..
  have hiter : ∀ v ≠ s.vertex, (s.enter n).leave.iterator v = s.iterator v := fun v hv => Function.update_of_ne hv ..
  refine ⟨h.linked.2, h.chain.tail, horder ▸ h.nodup, horder ▸ h.lt, fun v => ?_, fun v hv => ?_, fun v hv hv' => ?_,
    fun v => ?_, fun above u below heq w hw => ?_, fun v hv w hw => ?_, fun e he => horder ▸ h.enter.closes e he⟩
  · by_cases hv : v = s.vertex
    · subst hv
      simp [Dfs.leave, Dfs.enter]
    · rw [hsame v hv, h.enter.processed v]
      simp [Dfs.leave, Dfs.enter, hv]
  · by_cases heq : v = s.vertex
    · subst heq
      simp [Dfs.leave, Dfs.enter] at hv
    · rw [hsame v heq] at hv
      exact (List.mem_cons.1 (h.enter.onStack v hv)).resolve_left heq
  · have hv₂ : v ∉ s.finished ∧ v ≠ s.vertex := by simpa [Dfs.leave, Dfs.enter] using hv
    obtain ⟨hit, hparent⟩ := h.fresh v hv₂.1 fun hmem => (List.mem_cons.1 hmem).elim hv₂.2 hv'
    exact ⟨(hiter v hv₂.2).trans hit, hparent⟩
  · by_cases hv : v = s.vertex
    · subst hv
      simp [Dfs.leave, Dfs.enter]
    · rw [hiter v hv]
      exact h.sub v
  · have hmem : u ∈ rest := heq ▸ List.mem_append_right _ List.mem_cons_self
    have hne : u ≠ s.vertex := fun heq => h.not_mem_rest (heq ▸ hmem)
    rw [hiter u hne]
    rcases h.enter.waiting (s.vertex :: above) u below (by rw [heq]; rfl) w hw with hit | hdone | habove | hcycle
    · exact .inl hit
    · exact .inr (.inl (List.mem_append_left _ hdone))
    · cases above with
      | nil =>
        cases habove
        exact .inr (.inl (List.mem_append_right _ List.mem_cons_self))
      | cons d above => exact .inr (.inr (.inl (by rwa [List.getLast?_cons_cons] at habove)))
    · exact .inr (.inr (.inr hcycle))
  · rcases List.mem_append.1 hv with hv | hv
    · exact (h.enter.left v hv w hw).imp_left fun hsub => hsub.trans (List.sublist_append_left _ _)
    · obtain rfl := List.mem_singleton.1 hv
      rcases h.children_cases hw with hdone | hcycle | ⟨c, it, hsome, -⟩
      · exact .inl (before_iff.2 ⟨_, _, rfl, hdone, List.mem_cons_self⟩)
      · exact .inr hcycle
      · rw [hscan] at hsome
        cases hsome

/-- The search begins anew at an unprocessed vertex. -/
lemma At.root (h : s.At n children []) (hlt : v < n) (hmark : s.mark v = .unprocessed) : s.At n children [v] := by
  have hnot : v ∉ s.finished := by
    intro hmem
    rw [(h.processed v).2 hmem] at hmark
    cases hmark
  obtain ⟨hit, hparent⟩ := h.fresh v hnot List.not_mem_nil
  have horder : (s.finished ++ []).Sublist (s.finished ++ [v]) := (List.nil_sublist _).append_left _
  refine ⟨⟨hparent, trivial⟩, .singleton _, ?_, fun u hu => ?_, h.processed, fun u hu => ?_, fun u hu hu' => ?_, h.sub,
    fun above u below heq w hw => ?_, h.left, fun e he => (h.closes e he).mono horder⟩
  · have hnodup := h.nodup
    rw [List.append_nil] at hnodup
    exact List.nodup_append.2 ⟨hnodup, List.nodup_singleton _, fun a ha b hb heq =>
      hnot (List.mem_singleton.1 hb ▸ heq ▸ ha)⟩
  · rcases List.mem_append.1 hu with hu | hu
    · exact h.lt u (List.mem_append_left _ hu)
    · exact List.mem_singleton.1 hu ▸ hlt
  · cases h.onStack u hu
  · exact h.fresh u hu List.not_mem_nil
  · obtain ⟨rfl, rfl⟩ : above = [] ∧ u = v := by
      rcases above with _ | ⟨a, above⟩
      · exact ⟨rfl, (List.cons_eq_cons.1 heq).1.symm⟩
      · have hlen := congrArg List.length heq
        simp at hlen
    exact .inl (hit.symm ▸ hw)

/-- The search goes on to the next root, if there is one. -/
lemma Good.nextRoot (h : s.Good n children [s.vertex])
    (hscan : (scan (s.enter n).mark (s.iterator s.vertex)).2 = none) :
    ∃ stack, (s.enter n).leave.nextRoot.Good n children stack := by
  have hleft := h.leave hscan
  have hfin : ∀ v, (s.enter n).leave.mark v ≠ .unprocessed → v ∈ s.finished ++ [s.vertex] := by
    intro v hv
    cases hmark : (s.enter n).leave.mark v with
    | unprocessed => exact absurd hmark hv
    | processing => cases hleft.onStack v hmark
    | processed => exact (hleft.processed v).1 hmark
  obtain ⟨passed, hpassed, hdone⟩ := h.passed
  obtain ⟨roots, hroots⟩ : ∃ roots, s.roots = s.vertex :: roots := by
    have hbottom := h.bottom
    rw [List.getLast?_singleton] at hbottom
    exact List.head?_eq_some_iff.1 hbottom.symm
  have hnext : (s.enter n).leave.nextRoot.roots =
      roots.dropWhile fun v => (s.enter n).leave.mark v ≠ .unprocessed := by
    show List.dropWhile _ (s.roots.tail) = _
    rw [hroots, List.tail_cons]
  have hsplit := List.takeWhile_append_dropWhile (p := fun v => (s.enter n).leave.mark v ≠ .unprocessed) (l := roots)
  have hpassed' : ∃ passed, List.range n = passed ++ (s.enter n).leave.nextRoot.roots ∧
      ∀ v ∈ passed, v ∈ s.finished ++ [s.vertex] := by
    refine ⟨passed ++ s.vertex :: roots.takeWhile fun v => (s.enter n).leave.mark v ≠ .unprocessed, ?_, fun v hv => ?_⟩
    · rw [hnext, hpassed, hroots, List.append_assoc, List.cons_append, hsplit]
    rcases List.mem_append.1 hv with hv | hv
    · exact List.mem_append_left _ (hdone v hv)
    rcases List.mem_cons.1 hv with rfl | hv
    · exact List.mem_append_right _ List.mem_cons_self
    · exact hfin v (by simpa using List.mem_takeWhile_imp hv)
  cases hdrop : roots.dropWhile fun v => (s.enter n).leave.mark v ≠ .unprocessed with
  | nil =>
    rw [hdrop] at hnext
    refine ⟨[], { hleft with }, fun hne => absurd hnext hne, fun v hv => absurd hv List.not_mem_nil,
      by rw [hnext]; rfl, hpassed'⟩
  | cons r rest =>
    rw [hdrop] at hnext
    have hmark : (s.enter n).leave.mark r = .unprocessed := by
      have hhead := List.head?_dropWhile_not (p := fun v => (s.enter n).leave.mark v ≠ .unprocessed) (l := roots)
      rw [hdrop] at hhead
      simpa using hhead
    have hlt : r < n := by
      have hmem : r ∈ List.range n := by
        rw [hpassed, hroots, ← hsplit, hdrop]
        simp
      exact List.mem_range.1 hmem
    have hroot := hleft.root hlt hmark
    have hvertex : (s.enter n).leave.nextRoot.vertex = r := by
      show List.headD (s.enter n).leave.nextRoot.roots s.vertex = r
      rw [hnext]
      rfl
    refine ⟨[r], { hroot with }, fun _ => by rw [hvertex]; rfl, fun v hv => absurd hv List.not_mem_nil,
      by rw [hnext]; rfl, hpassed'⟩

/-- **A turn goes on with the search**, and leaves less of it. -/
lemma Good.turn (h : s.Good n children stack) (hclosed : ∀ v, ∀ w ∈ children v, w < n) (hroots : s.roots ≠ []) :
    ∃ stack', (s.turn n).Good n children stack' ∧
      2 * s.finished.length + stack.length < 2 * (s.turn n).finished.length + stack'.length := by
  obtain ⟨rest, rfl⟩ := List.head?_eq_some_iff.1 (h.head hroots)
  unfold Dfs.turn
  simp only
  cases hscan : (scan (s.enter n).mark (s.iterator s.vertex)).2 with
  | some next =>
    exact ⟨_, h.descend hclosed hscan, Nat.lt_succ_self _⟩
  | none =>
    have hleft := h.leave hscan
    have hfin : (s.enter n).leave.finished.length = s.finished.length + 1 := List.length_append
    have hlinked := h.linked.1
    cases hparent : s.parent s.vertex with
    | some parent =>
      rw [hparent] at hlinked
      obtain ⟨rest, rfl⟩ := List.head?_eq_some_iff.1 hlinked.symm
      obtain ⟨passed, hpassed, hdone⟩ := h.passed
      refine ⟨parent :: rest, ⟨{ hleft with }, fun _ => rfl, fun v hv => ?_, ?_,
        passed, hpassed, fun v hv => List.mem_append_left _ (hdone v hv)⟩, ?_⟩
      · have hmem : v ∈ parent :: rest := List.mem_cons_of_mem _ hv
        have hne : v ≠ s.vertex := fun heq => h.not_mem_rest (heq ▸ hmem)
        exact (Function.update_of_ne hne ..).trans (h.mark_enter (List.mem_cons_of_mem _ hmem))
      · have hbottom := h.bottom
        rwa [List.getLast?_cons_cons] at hbottom
      · simp only [List.length_cons, hfin]
        omega
    | none =>
      rw [hparent] at hlinked
      obtain rfl := List.head?_eq_none_iff.1 hlinked.symm
      obtain ⟨stack', hgood⟩ := h.nextRoot hscan
      refine ⟨stack', hgood, ?_⟩
      have hfin' : (s.enter n).leave.nextRoot.finished.length = s.finished.length + 1 := hfin
      rw [List.length_singleton, hfin']
      omega

end Turn

/-! ### The whole search -/

section Run

lemma run_spec (fuel : ℕ) (h : s.Good n children stack) (hclosed : ∀ v, ∀ w ∈ children v, w < n)
    (hfuel : 2 * n ≤ 2 * s.finished.length + stack.length + fuel) :
    ∃ s', run n fuel s = some s' ∧ s'.roots = [] ∧ s'.Good n children [] := by
  have hend : s.roots = [] → s.Good n children [] := by
    intro hroots
    have hbottom := h.bottom
    rw [hroots, List.head?_nil, List.getLast?_eq_none_iff] at hbottom
    exact hbottom ▸ h
  have hlen := h.length_le
  rw [List.length_append] at hlen
  induction fuel generalizing s stack with
  | zero =>
    have hroots : s.roots = [] := by
      have hnil : stack = [] := List.length_eq_zero_iff.1 (by omega)
      have hbottom := h.bottom
      rw [hnil] at hbottom
      exact List.head?_eq_none_iff.1 hbottom.symm
    exact ⟨s, by rw [run, hroots]; rfl, hroots, hend hroots⟩
  | succ fuel ih =>
    by_cases hroots : s.roots = []
    · exact ⟨s, by rw [run, hroots]; rfl, hroots, hend hroots⟩
    · obtain ⟨stack', hgood, hlt⟩ := h.turn hclosed hroots
      have hempty : s.roots.isEmpty = false := by simpa using hroots
      rw [run, hempty, if_neg Bool.false_ne_true]
      have hlen' := hgood.length_le
      rw [List.length_append] at hlen'
      refine ih hgood (by omega) (fun hnil => ?_) hlen'
      have hbottom := hgood.bottom
      rw [hnil, List.head?_nil, List.getLast?_eq_none_iff] at hbottom
      exact hbottom ▸ hgood

lemma exists_good_start (n : ℕ) (children : ℕ → List ℕ) : ∃ stack, (start n children).Good n children stack := by
  have hat : (start n children).At n children [] := by
    refine ⟨trivial, .nil, List.nodup_nil, ?_, ?_, ?_, fun v _ _ => ⟨rfl, rfl⟩, fun v => List.Subset.refl _, ?_, ?_, ?_⟩
      <;> simp [start]
  cases n with
  | zero =>
    exact ⟨[], hat, fun h => absurd rfl h, fun v hv => absurd hv List.not_mem_nil, rfl, [], rfl,
      fun v hv => absurd hv List.not_mem_nil⟩
  | succ n =>
    have hrange : (List.range (n + 1)).head? = some 0 := by rw [List.range_succ_eq_map, List.head?_cons]
    exact ⟨[0], hat.root (Nat.succ_pos n) rfl, fun _ => rfl, fun v hv => absurd hv List.not_mem_nil, hrange.symm, [],
      rfl,
      fun v hv => absurd hv List.not_mem_nil⟩

end Run

end Dfs

section DepthFirst

variable {n : ℕ} {children : ℕ → List ℕ} {order path : List ℕ} {u v w : ℕ}

/-- **The search comes to an end** and leaves every vertex once. The target of an edge is left before its source, or
the edge is found to close a cycle. -/
theorem depthFirst_spec (n : ℕ) (children : ℕ → List ℕ) (hclosed : ∀ v, ∀ w ∈ children v, w < n) :
    ∃ order cycles, depthFirst n children = some (order, cycles) ∧ order.Perm (List.range n) ∧
      (∀ v < n, ∀ w ∈ children v, [w, v].Sublist order ∨ ∃ l, (v :: l, w) ∈ cycles) ∧
      ∀ e ∈ cycles, ClosesCycle children order e.1 e.2 := by
  obtain ⟨stack, hstart⟩ := Dfs.exists_good_start n children
  obtain ⟨s, hrun, hroots, hgood⟩ := Dfs.run_spec (2 * n) hstart hclosed (by omega)
  obtain ⟨passed, hpassed, hdone⟩ := hgood.passed
  have hnodup := hgood.nodup
  have hcloses := hgood.closes
  rw [List.append_nil] at hnodup hcloses
  rw [hroots, List.append_nil] at hpassed
  have hmem : ∀ v, v ∈ s.finished ↔ v ∈ List.range n := fun v =>
    ⟨fun hv => List.mem_range.2 (hgood.lt v (List.mem_append_left _ hv)), fun hv => hdone v (hpassed ▸ hv)⟩
  refine ⟨s.finished, s.cycles, by rw [depthFirst, hrun]; rfl, ?_, fun v hv => ?_, hcloses⟩
  · exact (List.perm_ext_iff_of_nodup hnodup List.nodup_range).2 hmem
  · exact hgood.left v ((hmem v).2 (List.mem_range.2 hv))

/-- Of the vertices of a path, the last comes to the first. -/
lemma reaches_of_chain (h : path.IsChain fun a b => a ∈ children b) (hv : v ∈ path.head?) (hw : w ∈ path) :
    Relation.ReflTransGen (fun a b => b ∈ children a) w v := by
  induction path generalizing v with
  | nil => cases hw
  | cons u path ih =>
    obtain rfl := Option.some_inj.1 hv
    rcases List.mem_cons.1 hw with rfl | hw
    · exact .refl
    · cases path with
      | nil => cases hw
      | cons u' path =>
        rw [List.isChain_cons_cons] at h
        exact (ih h.2 rfl hw).tail h.1

/-- An edge that closes a cycle is on one. -/
lemma ClosesCycle.reaches (h : ClosesCycle children order (v :: path) w) :
    w ∈ children v ∧ Relation.ReflTransGen (fun a b => b ∈ children a) w v := by
  obtain ⟨u, hu, hw⟩ := h.edge
  obtain rfl := Option.some_inj.1 hu
  exact ⟨hw, reaches_of_chain h.chain rfl h.mem⟩

/-- A vertex that the search found between is on the cycle. -/
lemma ClosesCycle.cycle (h : ClosesCycle children order path w) (hu : u ∈ path.takeWhile (· ≠ w)) :
    Relation.TransGen (fun a b => b ∈ children a) u w ∧ Relation.ReflTransGen (fun a b => b ∈ children a) w u := by
  obtain ⟨v, hv, hw⟩ := h.edge
  have hsplit := List.takeWhile_append_dropWhile (p := (· ≠ w)) (l := path)
  have hu' : u ∈ path := (List.takeWhile_sublist _).mem hu
  refine ⟨.tail' (reaches_of_chain h.chain hv hu') hw, ?_⟩
  obtain ⟨l₁, l₂, heq⟩ := List.append_of_mem hu
  have hpath : path = l₁ ++ u :: (l₂ ++ path.dropWhile (· ≠ w)) := by
    rw [← List.cons_append, ← List.append_assoc, ← heq, hsplit]
  have hchain : (u :: (l₂ ++ path.dropWhile (· ≠ w))).IsChain fun a b => a ∈ children b :=
    (hpath ▸ h.chain).right_of_append
  refine reaches_of_chain hchain rfl (List.mem_cons_of_mem _ (List.mem_append_right _ ?_))
  have hmem := h.mem
  rw [← hsplit] at hmem
  refine (List.mem_append.1 hmem).resolve_left fun hleft => ?_
  simpa using List.mem_takeWhile_imp hleft

/-- **An order without the cycles is respected**: what is reached over edges that are on no cycle comes before. -/
theorem before_of_reaches (hnodup : order.Nodup) {cycles : List (List ℕ × ℕ)}
    (hedges : ∀ v < n, ∀ w ∈ children v, [w, v].Sublist order ∨ ∃ l, (v :: l, w) ∈ cycles)
    (hcloses : ∀ e ∈ cycles, ClosesCycle children order e.1 e.2)
    (h : Relation.TransGen (fun a b => a < n ∧ b ∈ children a ∧
      ¬ Relation.ReflTransGen (fun a b => b ∈ children a) b a) v w) : [w, v].Sublist order := by
  have hstep : ∀ a b, a < n ∧ b ∈ children a ∧ ¬ Relation.ReflTransGen (fun a b => b ∈ children a) b a →
      [b, a].Sublist order := by
    rintro a b ⟨ha, hb, hnot⟩
    refine (hedges a ha b hb).resolve_right ?_
    rintro ⟨l, hl⟩
    exact hnot (hcloses _ hl).reaches.2
  induction h with
  | single h => exact hstep _ _ h
  | tail _ h ih => exact before_trans hnodup (hstep _ _ h) ih

end DepthFirst

end Two09.Lib
