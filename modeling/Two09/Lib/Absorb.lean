import Mathlib

/-!
# Closure by moving

Two lists. What is related to an element of the second moves over to its end, and is looked at in its turn, until
the end of the second list is reached.
-/

namespace Two09.Lib

variable {α : Type*}

/-- What stays and what moves, when the elements `todo` are still to be looked at. So many are looked at, at most. -/
def absorb (r : α → α → Bool) : ℕ → List α → List α → List α × List α
  | 0, stay, _ => (stay, [])
  | _ + 1, stay, [] => (stay, [])
  | n + 1, stay, i :: todo =>
    let moved := stay.filter (r i)
    let rest := absorb r n (stay.filter fun x => !r i x) (todo ++ moved)
    (rest.1, moved ++ rest.2)

/-- Related to one of `todo`, directly or by way of others that may move. -/
inductive Pulled (r : α → α → Bool) (todo stay : List α) : α → Prop
  | first {i x : α} (hi : i ∈ todo) (hx : x ∈ stay) (hr : r i x = true) : Pulled r todo stay x
  | next {i x : α} (hi : Pulled r todo stay i) (hx : x ∈ stay) (hr : r i x = true) : Pulled r todo stay x

section Absorb

variable {r : α → α → Bool} {todo todo' stay stay' : List α} {i x : α} {n : ℕ}

lemma Pulled.mem (h : Pulled r todo stay x) : x ∈ stay := by
  cases h <;> assumption

lemma Pulled.mono (h : Pulled r todo' stay' x) (htodo : ∀ i ∈ todo', i ∈ todo ∨ Pulled r todo stay i)
    (hstay : ∀ x ∈ stay', x ∈ stay) : Pulled r todo stay x := by
  induction h with
  | first hi hx hr =>
    rcases htodo _ hi with hi | hi
    · exact .first hi (hstay _ hx) hr
    · exact .next hi (hstay _ hx) hr
  | next _ hx hr ih => exact .next ih (hstay _ hx) hr

lemma absorb_perm (n : ℕ) (stay todo : List α) :
    ((absorb r n stay todo).1 ++ (absorb r n stay todo).2).Perm stay := by
  induction n generalizing stay todo with
  | zero => rw [absorb, List.append_nil]
  | succ n ih =>
    cases todo with
    | nil => rw [absorb, List.append_nil]
    | cons i todo =>
      rw [absorb]
      simp only
      have hrest := ih (stay.filter fun x => !r i x) (todo ++ stay.filter (r i))
      refine (List.perm_append_comm_assoc _ _ _).trans ((hrest.append_left _).trans ?_)
      exact List.filter_append_perm _ _

lemma absorb_sublist (n : ℕ) (stay todo : List α) : (absorb r n stay todo).1.Sublist stay := by
  induction n generalizing stay todo with
  | zero => exact .refl _
  | succ n ih =>
    cases todo with
    | nil => exact .refl _
    | cons i todo => exact (ih _ _).trans List.filter_sublist

/-- What moves was pulled. -/
lemma pulled_of_mem (hx : x ∈ (absorb r n stay todo).2) : Pulled r todo stay x := by
  induction n generalizing stay todo with
  | zero => cases hx
  | succ n ih =>
    cases todo with
    | nil => cases hx
    | cons i todo =>
      rw [absorb, List.mem_append, List.mem_filter] at hx
      rcases hx with ⟨hx, hr⟩ | hx
      · exact .first List.mem_cons_self hx hr
      · refine (ih hx).mono (fun j hj => ?_) fun x hx => (List.mem_filter.1 hx).1
        rcases List.mem_append.1 hj with hj | hj
        · exact .inl (List.mem_cons_of_mem _ hj)
        · obtain ⟨hj, hr⟩ := List.mem_filter.1 hj
          exact .inr (.first List.mem_cons_self hj hr)

/-- **Nothing that stays is related to what was looked at**, nor to what has moved. -/
theorem absorb_closed (hn : stay.length + todo.length ≤ n) (hi : i ∈ todo ∨ i ∈ (absorb r n stay todo).2)
    (hx : x ∈ (absorb r n stay todo).1) : r i x = false := by
  induction n generalizing stay todo with
  | zero =>
    obtain rfl := List.length_eq_zero_iff.1 (show todo.length = 0 by omega)
    rcases hi with hi | hi <;> cases hi
  | succ n ih =>
    cases todo with
    | nil => rcases hi with hi | hi <;> cases hi
    | cons j todo =>
      rw [absorb] at hi hx
      simp only [List.mem_cons, List.mem_append] at hi hx
      have hlen := List.length_eq_length_filter_add (r j) (l := stay)
      rw [List.length_cons] at hn
      have hfuel : (stay.filter fun x => !r j x).length + (todo ++ stay.filter (r j)).length ≤ n := by
        rw [List.length_append]
        omega
      rcases hi with (rfl | hi) | hi | hi
      · simpa using (List.mem_filter.1 ((absorb_sublist _ _ _).mem hx)).2
      · exact ih hfuel (.inl (List.mem_append_left _ hi)) hx
      · exact ih hfuel (.inl (List.mem_append_right _ hi)) hx
      · exact ih hfuel (.inr hi) hx

/-- **What moves is what is pulled.** -/
theorem mem_absorb_iff (hn : stay.length + todo.length ≤ n) :
    x ∈ (absorb r n stay todo).2 ↔ Pulled r todo stay x := by
  refine ⟨pulled_of_mem, fun h => ?_⟩
  have hmem : ∀ x ∈ stay, x ∈ (absorb r n stay todo).1 ∨ x ∈ (absorb r n stay todo).2 := fun x hx =>
    List.mem_append.1 ((absorb_perm n stay todo).mem_iff.2 hx)
  induction h with
  | first hi hx hr =>
    refine (hmem _ hx).resolve_left fun hstay => ?_
    rw [absorb_closed hn (.inl hi) hstay] at hr
    cases hr
  | next _ hx hr ih =>
    refine (hmem _ hx).resolve_left fun hstay => ?_
    rw [absorb_closed hn (.inr ih) hstay] at hr
    cases hr

/-- What stays is what is not pulled. -/
lemma mem_absorb_stay_iff (hn : stay.length + todo.length ≤ n) :
    x ∈ (absorb r n stay todo).1 ↔ x ∈ stay ∧ ¬ Pulled r todo stay x := by
  constructor
  · intro hx
    refine ⟨(absorb_sublist _ _ _).mem hx, fun hpulled => ?_⟩
    cases hpulled with
    | first hi _ hr => rw [absorb_closed hn (.inl hi) hx] at hr; cases hr
    | next hi _ hr => rw [absorb_closed hn (.inr ((mem_absorb_iff hn).2 hi)) hx] at hr; cases hr
  · rintro ⟨hx, hnot⟩
    have hmem := List.mem_append.1 ((absorb_perm (r := r) n stay todo).mem_iff.2 hx)
    exact hmem.resolve_right fun hmoved => hnot (pulled_of_mem hmoved)

end Absorb

end Two09.Lib
