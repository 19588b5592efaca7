import Mathlib

/-!
# Closure by a worklist

A breadth-first search that keeps one growing list: its first part has been processed, all of it
is in the result. The successors of an element come from a query that may depend on how many
queries were made before, so that a query cut short is a query too.
-/

namespace Two09.Lib.Worklist

/-! ### Reachability -/

section Reachability
variable {α : Type} {next : α → List α} {roots : List α} {a : α}

/-- Reachability along the query's successors. -/
def Reach (next : α → List α) : α → α → Prop := Relation.ReflTransGen fun a b => b ∈ next a

/-- The elements reachable from some root. -/
def Reachable (next : α → List α) (roots : List α) (a : α) : Prop :=
  ∃ r ∈ roots, Reach next r a

lemma Reachable.root (h : a ∈ roots) : Reachable next roots a := ⟨a, h, .refl⟩

lemma Reachable.step {b : α} (h : Reachable next roots a) (hb : b ∈ next a) :
    Reachable next roots b := by
  obtain ⟨r, hr, hra⟩ := h
  exact ⟨r, hr, hra.tail hb⟩

/-- Reachability is the least set that holds the roots and is closed under successors. -/
lemma Reachable.mem_of_closed {S : α → Prop} (h : Reachable next roots a)
    (hroots : ∀ r ∈ roots, S r) (hclosed : ∀ x, S x → ∀ y ∈ next x, S y) : S a := by
  obtain ⟨r, hr, hra⟩ := h
  induction hra with
  | refl => exact hroots r hr
  | tail _ hbc ih => exact hclosed _ ih _ hbc

end Reachability

/-! ### The search -/

variable {α : Type} [DecidableEq α]

/-- Adds an element at the end unless it is there. -/
def setAdd (set : List α) (a : α) : List α := if a ∈ set then set else set ++ [a]

/-- Adds elements one by one. -/
def setAddAll (set as : List α) : List α := as.foldl setAdd set

/-- Processes the elements from index `processed` on, until all are processed. -/
def drain (query : ℕ → α → List α) : ℕ → List α → ℕ → List α
  | 0, set, _ => set
  | fuel + 1, set, processed =>
    match set[processed]? with
    | none => set
    | some cur => drain query fuel (setAddAll set (query processed cur)) (processed + 1)

/-- The search is over before the fuel is: all elements are processed. -/
def Ends (query : ℕ → α → List α) : ℕ → List α → ℕ → Prop
  | 0, _, _ => False
  | fuel + 1, set, processed =>
    match set[processed]? with
    | none => True
    | some cur => Ends query fuel (setAddAll set (query processed cur)) (processed + 1)

/-- The closure of the roots under the query. -/
def closure (query : ℕ → α → List α) (fuel : ℕ) (roots : List α) : List α :=
  drain query fuel (setAddAll [] roots) 0

/-! ### Adding -/

section Add
variable {set as : List α} {a b : α}

lemma mem_setAdd : b ∈ setAdd set a ↔ b ∈ set ∨ b = a := by
  unfold setAdd
  split_ifs with h
  · constructor
    · exact .inl
    · rintro (hb | rfl)
      · exact hb
      · exact h
  · simp

lemma nodup_setAdd (h : set.Nodup) : (setAdd set a).Nodup := by
  unfold setAdd
  split_ifs with ha
  · exact h
  · exact h.append (by simp) (by simpa using ha)

lemma prefix_setAdd : set <+: setAdd set a := by
  unfold setAdd
  split_ifs
  · exact List.prefix_rfl
  · exact List.prefix_append set [a]

lemma mem_setAddAll : b ∈ setAddAll set as ↔ b ∈ set ∨ b ∈ as := by
  induction as generalizing set with
  | nil => simp [setAddAll]
  | cons a as ih =>
    have hstep : setAddAll set (a :: as) = setAddAll (setAdd set a) as := rfl
    rw [hstep, ih, mem_setAdd, List.mem_cons, or_assoc]

lemma nodup_setAddAll (h : set.Nodup) : (setAddAll set as).Nodup := by
  induction as generalizing set with
  | nil => exact h
  | cons a as ih => exact ih (nodup_setAdd h)

lemma prefix_setAddAll : set <+: setAddAll set as := by
  induction as generalizing set with
  | nil => exact List.prefix_rfl
  | cons a as ih => exact prefix_setAdd.trans ih

lemma setAddAll_eq_append (h : (set ++ as).Nodup) : setAddAll set as = set ++ as := by
  induction as generalizing set with
  | nil => simp [setAddAll]
  | cons a as ih =>
    have ha : a ∉ set := fun hs => (List.nodup_append'.1 h).2.2 hs List.mem_cons_self
    have hstep : setAddAll set (a :: as) = setAddAll (set ++ [a]) as := by
      rw [setAddAll, List.foldl_cons, setAdd, if_neg ha]
      rfl
    rw [hstep, ih (by simpa using h)]
    simp

end Add

/-! ### What the search finds -/

section Search
variable {query : ℕ → α → List α} {next : α → List α} {roots univ set : List α} {fuel i : ℕ} {a : α}

/-- What holds of the list each time an element is taken: no repetitions, all of it reachable, the
roots in it. -/
structure Base (next : α → List α) (roots set : List α) : Prop where
  nodup : set.Nodup
  reachable : ∀ a ∈ set, Reachable next roots a
  roots : ∀ r ∈ roots, r ∈ set

/-- The successors of everything processed are in the list. -/
def Closed (next : α → List α) (set : List α) (i : ℕ) : Prop :=
  ∀ j < i, ∀ a, set[j]? = some a → ∀ b ∈ next a, b ∈ set

lemma base_init : Base next roots (setAddAll [] roots) where
  nodup := nodup_setAddAll List.nodup_nil
  reachable a ha := by
    rcases mem_setAddAll.1 ha with h | h
    · cases h
    · exact .root h
  roots r hr := mem_setAddAll.2 (.inr hr)

lemma Base.process (h : Base next roots set) (ha : set[i]? = some a)
    (hquery : ∀ b ∈ query i a, b ∈ next a) : Base next roots (setAddAll set (query i a)) where
  nodup := nodup_setAddAll h.nodup
  reachable b hb := by
    rcases mem_setAddAll.1 hb with hb | hb
    · exact h.reachable b hb
    · exact (h.reachable a (List.mem_of_getElem? ha)).step (hquery b hb)
  roots r hr := mem_setAddAll.2 (.inl (h.roots r hr))

lemma Closed.process (h : Closed next set i) (ha : set[i]? = some a)
    (hquery : ∀ b ∈ next a, b ∈ query i a) : Closed next (setAddAll set (query i a)) (i + 1) := by
  intro j hj x hx b hb
  have hlt : i < set.length := (List.getElem?_eq_some_iff.1 ha).1
  -- the elements up to `i` stand where they stood
  have hold : set[j]? = some x := by
    obtain ⟨t, ht⟩ : set <+: setAddAll set (query i a) := prefix_setAddAll
    rw [← ht, List.getElem?_append_left (by omega)] at hx
    exact hx
  refine mem_setAddAll.2 ?_
  by_cases hji : j = i
  · subst hji
    rw [ha] at hold
    cases hold
    exact .inr (hquery b hb)
  · exact .inl (h j (by omega) x hold b hb)

/-- **Everything the search finds is reachable**, also when queries are cut short. -/
lemma drain_sound (hquery : ∀ i a, ∀ b ∈ query i a, b ∈ next a) (h : Base next roots set) :
    Base next roots (drain query fuel set i) := by
  induction fuel generalizing set i with
  | zero => exact h
  | succ fuel ih =>
    rw [drain]
    cases ha : set[i]? with
    | none => exact h
    | some a => exact ih (h.process ha (hquery i a))

/-- What only one element leads to is not found when the query for that element, at the index where
it stands, leaves it out. -/
lemma notMem_drain (a₀ : α) {c : α} (i₀ : ℕ) (hquery : ∀ i a, c ∈ query i a → a = a₀ ∧ i ≠ i₀)
    (hnd : set.Nodup) (h₀ : set[i₀]? = some a₀) (hc : c ∉ set) : c ∉ drain query fuel set i := by
  induction fuel generalizing set i with
  | zero => exact hc
  | succ fuel ih =>
    rw [drain]
    cases ha : set[i]? with
    | none => exact hc
    | some a =>
      obtain ⟨t, ht⟩ : set <+: setAddAll set (query i a) := prefix_setAddAll
      obtain ⟨hi₀, hget₀⟩ := List.getElem?_eq_some_iff.1 h₀
      refine ih (nodup_setAddAll hnd) ?_ fun hmem => ?_
      · rw [← ht, List.getElem?_append_left hi₀, h₀]
      · rcases mem_setAddAll.1 hmem with h | h
        · exact hc h
        · obtain ⟨rfl, hne⟩ := hquery i a h
          obtain ⟨hi, hget⟩ := List.getElem?_eq_some_iff.1 ha
          exact hne ((hnd.getElem_inj_iff).1 (hget.trans hget₀.symm))

/-- With fuel for the whole universe the search ends with everything processed. -/
lemma drain_closed (hquery : ∀ i a, query i a = next a) (h : Base next roots set)
    (hc : Closed next set i) (hi : i ≤ set.length) (huniv : ∀ a, Reachable next roots a → a ∈ univ)
    (hfuel : univ.length < fuel + i) :
    Closed next (drain query fuel set i) (drain query fuel set i).length := by
  have hsize : ∀ {set : List α}, Base next roots set → set.length ≤ univ.length := fun hb =>
    (hb.nodup.subperm fun a ha => huniv a (hb.reachable a ha)).length_le
  induction fuel generalizing set i with
  | zero =>
    have := hsize h
    omega
  | succ fuel ih =>
    rw [drain]
    cases ha : set[i]? with
    | none =>
      have hlen : set.length ≤ i := List.getElem?_eq_none_iff.1 ha
      obtain rfl : i = set.length := le_antisymm hi hlen
      exact hc
    | some a =>
      have hlt : i < set.length := (List.getElem?_eq_some_iff.1 ha).1
      have hle : set.length ≤ (setAddAll set (query i a)).length := prefix_setAddAll.length_le
      exact ih (h.process ha fun b hb => hquery i a ▸ hb)
        (hc.process ha fun b hb => hquery i a ▸ hb) (by omega) (by omega)

/-- **The search ends** when the fuel is more than what there is to be found. -/
lemma drain_ends (hquery : ∀ i a, ∀ b ∈ query i a, b ∈ next a) (h : Base next roots set)
    (hi : i ≤ set.length) (huniv : ∀ a, Reachable next roots a → a ∈ univ)
    (hfuel : univ.length < fuel + i) : Ends query fuel set i := by
  induction fuel generalizing set i with
  | zero =>
    have hsize : set.length ≤ univ.length :=
      (h.nodup.subperm fun a ha => huniv a (h.reachable a ha)).length_le
    omega
  | succ fuel ih =>
    rw [Ends]
    cases ha : set[i]? with
    | none => trivial
    | some a =>
      have hlt : i < set.length := (List.getElem?_eq_some_iff.1 ha).1
      have hle : set.length ≤ (setAddAll set (query i a)).length := prefix_setAddAll.length_le
      show Ends query fuel (setAddAll set (query i a)) (i + 1)
      exact ih (h.process ha (hquery i a)) (by omega) (by omega)

/-- **The closure is the set of reachable elements**, each once. -/
theorem mem_closure_iff (hquery : ∀ i a, query i a = next a)
    (huniv : ∀ a, Reachable next roots a → a ∈ univ) (hfuel : univ.length < fuel) :
    a ∈ closure query fuel roots ↔ Reachable next roots a := by
  have hbase : Base next roots (closure query fuel roots) :=
    drain_sound (fun i a b hb => hquery i a ▸ hb) base_init
  have hclosed : Closed next (closure query fuel roots) (closure query fuel roots).length :=
    drain_closed hquery base_init (fun j hj => absurd hj (by omega)) (by omega) huniv
      (by omega)
  refine ⟨hbase.reachable a, fun h => ?_⟩
  refine h.mem_of_closed hbase.roots fun x hx y hy => ?_
  obtain ⟨j, hj, hget⟩ := List.getElem_of_mem hx
  exact hclosed j hj x (by rw [List.getElem?_eq_getElem hj, hget]) y hy

lemma nodup_closure : (closure query fuel roots).Nodup := by
  have key : ∀ (fuel : ℕ) (set : List α) (i : ℕ), set.Nodup → (drain query fuel set i).Nodup := by
    intro fuel
    induction fuel with
    | zero => exact fun set i h => h
    | succ fuel ih =>
      intro set i h
      rw [drain]
      cases set[i]? with
      | none => exact h
      | some a => exact ih _ _ (nodup_setAddAll h)
  exact key _ _ _ (nodup_setAddAll List.nodup_nil)

/-- Everything in the closure is reachable, also when queries are cut short. -/
theorem reachable_of_mem_closure (hquery : ∀ i a, ∀ b ∈ query i a, b ∈ next a)
    (h : a ∈ closure query fuel roots) : Reachable next roots a :=
  (drain_sound hquery base_init).reachable a h

/-- The roots are in the closure, also when queries are cut short. -/
theorem root_mem_closure (h : a ∈ roots) : a ∈ closure query fuel roots := by
  have key : ∀ (fuel : ℕ) (set : List α) (i : ℕ), a ∈ set → a ∈ drain query fuel set i := by
    intro fuel
    induction fuel with
    | zero => exact fun set i h => h
    | succ fuel ih =>
      intro set i h
      rw [drain]
      cases set[i]? with
      | none => exact h
      | some b => exact ih _ _ (mem_setAddAll.2 (.inl h))
  exact key _ _ _ (mem_setAddAll.2 (.inr h))

end Search

end Two09.Lib.Worklist
