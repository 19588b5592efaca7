import Mathlib

/-!
# Runs of operations

A run is a list of operations that a step function applies one after the other. What each operation
finds, and what it leaves, can be asked of every one of them.
-/

namespace Two09.Lib

section
variable {σ ι : Type} (step : σ → ι → σ)

/-- Each operation of a run meets `C` in the state it finds. -/
def AtEach (C : σ → ι → Prop) : σ → List ι → Prop
  | _, [] => True
  | s, i :: is => C s i ∧ AtEach C (step s i) is

variable {step} {C P H : σ → ι → Prop} {I : σ → Prop} {s : σ} {i : ι} {is : List ι}

@[simp] lemma atEach_nil : AtEach step C s [] := trivial

@[simp] lemma atEach_cons : AtEach step C s (i :: is) ↔ C s i ∧ AtEach step C (step s i) is := Iff.rfl

/-- What every operation meets in every state. -/
lemma atEach_of_forall (h : ∀ s i, C s i) : AtEach step C s is := by
  induction is generalizing s with
  | nil => trivial
  | cons i is ih => exact ⟨h s i, ih⟩

/-- What an operation leaves is as it should be exactly when the operation meets its condition: under
an invariant that the condition keeps, so it is along whole runs. -/
lemma atEach_iff (hiff : ∀ s i, I s → H s i → (P s i ↔ C s i))
    (hstep : ∀ s i, I s → H s i → C s i → I (step s i)) (hs : I s) (hH : AtEach step H s is) :
    AtEach step P s is ↔ AtEach step C s is := by
  induction is generalizing s with
  | nil => exact Iff.rfl
  | cons i is ih =>
    obtain ⟨hi, his⟩ := hH
    rw [atEach_cons, atEach_cons, hiff s i hs hi]
    exact and_congr_right fun hC => ih (hstep s i hs hi hC) his

/-- Each operation of a run, by what came before it. -/
lemma atEach_iff_split : AtEach step C s is ↔
    ∀ before i after, is = before ++ i :: after → C (before.foldl step s) i := by
  induction is generalizing s with
  | nil => exact iff_of_true trivial fun before i after h => absurd h (by simp)
  | cons i is ih =>
    rw [atEach_cons, ih]
    constructor
    · rintro ⟨hfirst, hrest⟩ before j after heq
      cases before with
      | nil =>
        obtain ⟨rfl, -⟩ := List.cons.inj heq
        exact hfirst
      | cons k before =>
        rw [List.cons_append, List.cons.injEq] at heq
        obtain ⟨rfl, htail⟩ := heq
        exact hrest before j after htail
    · intro hall
      refine ⟨hall [] i is rfl, fun before j after heq => ?_⟩
      exact hall (i :: before) j after (by rw [heq, List.cons_append])

/-! ### Operations with a key each -/

variable {α : Type} {read : σ → ι → α} {R : α → α → Prop} {j : ι}

/-- An operation leaves what is read at the other keys. -/
def Local (step : σ → ι → σ) (read : σ → ι → α) : Prop := ∀ s i j, j ≠ i → read (step s i) j = read s j

lemma Local.run (h : Local step read) (hj : j ∉ is) : read (is.foldl step s) j = read s j := by
  induction is generalizing s with
  | nil => rfl
  | cons i is ih =>
    rw [List.mem_cons, not_or] at hj
    rw [List.foldl_cons, ih hj.2, h s i j hj.1]

/-- **A run with no key twice relates what is read before to what is read after exactly if** each of its
operations does so at its own key. -/
lemma Local.run_iff (h : Local step read) (hrefl : ∀ a, R a a) (hnodup : is.Nodup) :
    (∀ j, R (read s j) (read (is.foldl step s) j)) ↔
      AtEach step (fun s i => R (read s i) (read (step s i) i)) s is := by
  induction is generalizing s with
  | nil => exact iff_of_true (fun j => hrefl _) trivial
  | cons i is ih =>
    rw [List.nodup_cons] at hnodup
    have hown : read (is.foldl step (step s i)) i = read (step s i) i := h.run hnodup.1
    rw [List.foldl_cons, atEach_cons, ← ih hnodup.2]
    constructor
    · intro hall
      refine ⟨hown ▸ hall i, fun j => ?_⟩
      by_cases hj : j = i
      · subst hj
        rw [hown]
        exact hrefl _
      · rw [h s i j hj]
        exact hall j
    · rintro ⟨hfirst, hrest⟩ j
      by_cases hj : j = i
      · subst hj
        rwa [hown]
      · rw [← h s i j hj]
        exact hrest j

end

end Two09.Lib
