import Two09.Lib.Bytes

/-!
# Words of a string

The words `strtok` cuts a string into: the maximal runs of elements that are no delimiters.
-/

namespace Two09.Lib

/-- `isspace` in the C locale. -/
def isSpace (c : UInt8) : Bool := decide (c = 32 ∨ 9 ≤ c ∧ c ≤ 13)

section Words

variable {α : Type} {p : α → Bool} {s : List α}

/-- The words between the delimiters `p`. -/
def words (p : α → Bool) (s : List α) : List (List α) := (s.splitOnP p).filter fun w => !w.isEmpty

lemma of_mem_splitOnP {w : List α} (hw : w ∈ s.splitOnP p) : ∀ c ∈ w, p c = false := by
  induction s generalizing w with
  | nil =>
    obtain rfl := List.mem_singleton.1 hw
    exact List.forall_mem_nil _
  | cons d s ih =>
    rw [List.splitOnP_cons_eq_if_modifyHead] at hw
    split_ifs at hw with hd
    · rcases List.mem_cons.1 hw with rfl | hw
      · exact List.forall_mem_nil _
      · exact ih hw
    · cases h : s.splitOnP p with
      | nil => exact absurd h (List.splitOnP_ne_nil p s)
      | cons v vs =>
        rw [h] at hw ih
        rcases List.mem_cons.1 hw with rfl | hw
        · exact List.forall_mem_cons.2 ⟨by simpa using hd, ih List.mem_cons_self⟩
        · exact ih (List.mem_cons_of_mem _ hw)

/-- A word is not empty, and has no delimiter in it. -/
lemma of_mem_words {w : List α} (hw : w ∈ words p s) : w ≠ [] ∧ ∀ c ∈ w, p c = false := by
  obtain ⟨hmem, hne⟩ := List.mem_filter.1 hw
  exact ⟨by simpa using hne, of_mem_splitOnP hmem⟩

lemma mem_of_mem_splitOnP {w : List α} {c : α} (hw : w ∈ s.splitOnP p) (hc : c ∈ w) : c ∈ s := by
  induction s generalizing w with
  | nil =>
    obtain rfl := List.mem_singleton.1 hw
    exact hc
  | cons d s ih =>
    rw [List.splitOnP_cons_eq_if_modifyHead] at hw
    split_ifs at hw with hd
    · rcases List.mem_cons.1 hw with rfl | hw
      · cases hc
      · exact List.mem_cons_of_mem _ (ih hw hc)
    · cases h : s.splitOnP p with
      | nil => exact absurd h (List.splitOnP_ne_nil p s)
      | cons v vs =>
        rw [h] at hw ih
        rcases List.mem_cons.1 hw with rfl | hw
        · rcases List.mem_cons.1 hc with rfl | hc
          · exact List.mem_cons_self
          · exact List.mem_cons_of_mem _ (ih List.mem_cons_self hc)
        · exact List.mem_cons_of_mem _ (ih (List.mem_cons_of_mem _ hw) hc)

lemma mem_of_mem_words {w : List α} {c : α} (hw : w ∈ words p s) (hc : c ∈ w) : c ∈ s :=
  mem_of_mem_splitOnP (List.mem_filter.1 hw).1 hc

/-! ### Reading words back -/

lemma words_cons {c : α} (hc : p c = true) : words p (c :: s) = words p s := by
  unfold words
  rw [List.splitOnP_cons_eq_if_modifyHead, if_pos hc, List.filter_cons_of_neg (by simp)]

lemma words_append_cons {w : List α} {c : α} (hw : ∀ x ∈ w, p x = false) (hne : w ≠ []) (hc : p c = true) :
    words p (w ++ c :: s) = w :: words p s := by
  unfold words
  rw [List.splitOnP_append_cons_of_forall_mem hw c hc, List.filter_cons_of_pos (by simpa using hne)]

lemma words_eq_singleton {w : List α} (hw : ∀ x ∈ w, p x = false) (hne : w ≠ []) : words p w = [w] := by
  unfold words
  rw [List.splitOnP_eq_singleton hw, List.filter_cons_of_pos (by simpa using hne), List.filter_nil]

/-- What is no delimiter begins the first word, alone or in front of what was the first word. -/
lemma words_cons_of_not {d : α} (hd : p d = false) :
    words p (d :: s) = [d] :: words p s ∨ ∃ v ws, words p s = v :: ws ∧ words p (d :: s) = (d :: v) :: ws := by
  unfold words
  rw [List.splitOnP_cons_eq_if_modifyHead, if_neg (by simp [hd])]
  cases h : s.splitOnP p with
  | nil => exact absurd h (List.splitOnP_ne_nil p s)
  | cons v vs =>
    rw [List.modifyHead_cons, List.filter_cons_of_pos (by simp)]
    cases v with
    | nil =>
      left
      rw [List.filter_cons_of_neg (by simp)]
    | cons c v =>
      right
      rw [List.filter_cons_of_pos (by simp)]
      exact ⟨c :: v, _, rfl, rfl⟩

lemma head?_words {d : α} (hd : p d = false) : ∃ w ws, words p (d :: s) = (d :: w) :: ws := by
  rcases words_cons_of_not (s := s) hd with h | ⟨v, ws, -, h⟩
  · exact ⟨[], _, h⟩
  · exact ⟨v, ws, h⟩

lemma getLast?_words {c : α} (hc : p c = false) : ∃ ws w, words p (s ++ [c]) = ws ++ [w ++ [c]] := by
  induction s with
  | nil =>
    refine ⟨[], [], ?_⟩
    rw [List.nil_append, List.nil_append]
    exact words_eq_singleton (by simpa using hc) (List.cons_ne_nil _ _)
  | cons d s ih =>
    obtain ⟨ws, w, ih⟩ := ih
    rw [List.cons_append]
    cases hd : p d with
    | true => exact ⟨ws, w, by rw [words_cons hd, ih]⟩
    | false =>
      rcases words_cons_of_not (s := s ++ [c]) hd with h | ⟨v, vs, hv, h⟩
      · exact ⟨[d] :: ws, w, by rw [h, ih, List.cons_append]⟩
      · rw [ih] at hv
        cases ws with
        | nil =>
          obtain ⟨rfl, rfl⟩ := List.cons.inj hv
          exact ⟨[], d :: w, h⟩
        | cons u ws =>
          obtain ⟨rfl, rfl⟩ := List.cons.inj hv
          exact ⟨(d :: u) :: ws, w, h⟩

/-- Words that each end with a delimiter, and what follows them. -/
lemma words_terminated {c : α} (hc : p c = true) {ws : List (List α)}
    (hws : ∀ w ∈ ws, w ≠ [] ∧ ∀ x ∈ w, p x = false) (s : List α) :
    words p (ws.flatMap (· ++ [c]) ++ s) = ws ++ words p s := by
  induction ws with
  | nil => rfl
  | cons w ws ih =>
    obtain ⟨⟨hne, hw⟩, hws⟩ := List.forall_mem_cons.1 hws
    have heq : (w :: ws).flatMap (· ++ [c]) ++ s = w ++ c :: (ws.flatMap (· ++ [c]) ++ s) := by simp
    rw [heq, words_append_cons hw hne hc, ih hws, List.cons_append]

/-- Words that each begin with a delimiter. -/
lemma words_preceded {c : α} (hc : p c = true) {ws : List (List α)}
    (hws : ∀ w ∈ ws, w ≠ [] ∧ ∀ x ∈ w, p x = false) : words p (ws.flatMap (c :: ·)) = ws := by
  induction ws with
  | nil => rfl
  | cons w ws ih =>
    obtain ⟨⟨hne, hw⟩, hws⟩ := List.forall_mem_cons.1 hws
    rw [List.flatMap_cons, List.cons_append, words_cons hc]
    cases ws with
    | nil => rw [List.flatMap_nil, List.append_nil, words_eq_singleton hw hne]
    | cons v ws =>
      have ih := ih hws
      rw [List.flatMap_cons, List.cons_append, words_cons hc] at ih
      rw [List.flatMap_cons, List.cons_append, words_append_cons hw hne hc, ih]

/-- Words with a delimiter between them. -/
lemma words_intercalate {c : α} (hc : p c = true) {ws : List (List α)}
    (hws : ∀ w ∈ ws, w ≠ [] ∧ ∀ x ∈ w, p x = false) : words p ([c].intercalate ws) = ws := by
  cases ws with
  | nil => rfl
  | cons w ws =>
    have hflat : (w :: ws).flatMap (c :: ·) = c :: [c].intercalate (w :: ws) := by
      clear hws
      induction ws generalizing w with
      | nil => simp
      | cons v ws ih =>
        rw [List.flatMap_cons, ih v, List.intercalate_cons_cons]
        simp
    have hread := words_preceded hc hws
    rwa [hflat, words_cons hc] at hread

end Words

end Two09.Lib
