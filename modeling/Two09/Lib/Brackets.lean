import Mathlib

/-!
# Matching brackets

Where a text closes the brackets that were open in front of it, by counting. `l` opens and `r` closes.
-/

namespace Two09.Lib

variable {α : Type} [DecidableEq α] {l r a : α} {d : Nat} {s e rest : List α}

/-- The text closes no more than `d` of the brackets in front of it. -/
def Within (l r : α) (d : Nat) (s : List α) : Prop := ∀ t, t <+: s → t.count r ≤ t.count l + d

/-- The text closes just `d` of the brackets in front of it, and no more on the way. -/
structure Closes (l r : α) (d : Nat) (s : List α) : Prop where
  within : Within l r d s
  count : s.count r = s.count l + d

lemma within_nil : Within l r d [] := by
  intro t ht
  rw [List.prefix_nil.1 ht]
  simp

/-- What is within `d` behind the first character is within as many as are open in front of it. -/
lemma within_cons {d' : Nat} (h : [a].count r + d' = [a].count l + d) :
    Within l r d (a :: s) ↔ Within l r d' s := by
  constructor
  · intro hs t ht
    have hcons := hs (a :: t) (List.cons_prefix_cons.2 ⟨rfl, ht⟩)
    rw [← List.singleton_append, List.count_append, List.count_append] at hcons
    omega
  · intro hs t ht
    cases t with
    | nil => simp
    | cons b t =>
      obtain ⟨rfl, htail⟩ := List.cons_prefix_cons.1 ht
      have hle := hs t htail
      rw [← List.singleton_append, List.count_append, List.count_append]
      omega

lemma closes_cons {d' : Nat} (h : [a].count r + d' = [a].count l + d) :
    Closes l r d (a :: s) ↔ Closes l r d' s := by
  have hcount : (a :: s).count r = (a :: s).count l + d ↔ s.count r = s.count l + d' := by
    rw [← List.singleton_append, List.count_append, List.count_append]
    omega
  constructor
  · intro hs
    exact ⟨(within_cons h).1 hs.within, hcount.1 hs.count⟩
  · intro hs
    exact ⟨(within_cons h).2 hs.within, hcount.2 hs.count⟩

/-- What is open behind a character: one more, one less or as many. -/
lemma count_open (hne : l ≠ r) : [l].count r + (d + 1) = [l].count l + d := by
  simp [hne]
  omega

lemma count_close (hne : l ≠ r) : [r].count r + d = [r].count l + (d + 1) := by
  simp [hne.symm]
  omega

lemma count_other (hl : a ≠ l) (hr : a ≠ r) : [a].count r + d = [a].count l + d := by
  simp [hl, hr]

/-- **A text is within `d` brackets, or one character closes the next one.** -/
lemma within_or_closes (hne : l ≠ r) (s : List α) (d : Nat) :
    Within l r d s ∨ ∃ e rest, s = e ++ r :: rest ∧ Closes l r d e := by
  induction s generalizing d with
  | nil => exact .inl within_nil
  | cons a s ih =>
    have hstep : ∀ d', [a].count r + d' = [a].count l + d →
        Within l r d (a :: s) ∨ ∃ e rest, a :: s = e ++ r :: rest ∧ Closes l r d e := by
      intro d' hd
      rcases ih d' with hwithin | ⟨e, rest, rfl, he⟩
      · exact .inl ((within_cons hd).2 hwithin)
      · exact .inr ⟨a :: e, rest, rfl, (closes_cons hd).2 he⟩
    by_cases hl : a = l
    · subst hl
      exact hstep _ (count_open hne)
    · by_cases hr : a = r
      · subst hr
        cases d with
        | zero => exact .inr ⟨[], s, rfl, within_nil, rfl⟩
        | succ d => exact hstep _ (count_close hne)
      · exact hstep _ (count_other hl hr)

end Two09.Lib
