import Mathlib.Data.List.Destutter
import Mathlib.Data.List.DropRight

/-!
# Histories

A position in a sequence: what was left behind it, and what was undone after it. Undo and redo move the
position, a visit forgets what was undone and, past a bound, what is oldest.
-/

namespace Two09.Lib

variable {α : Type}

/-- A position in a sequence, the past oldest first and the future nearest first. -/
structure Timeline (α : Type) where
  past : List α
  now : α
  future : List α
  deriving DecidableEq

namespace Timeline

/-- The sequence. -/
def track (t : Timeline α) : List α := t.past ++ t.now :: t.future

/-- What there is of the sequence up to the position. -/
def upToNow (t : Timeline α) : List α := t.past ++ [t.now]

/-- The number of positions other than the one it is at. -/
def size (t : Timeline α) : ℕ := t.past.length + t.future.length

/-- One step towards the past. -/
def back (t : Timeline α) : Option (Timeline α) :=
  match t.past.getLast? with
  | none => none
  | some p => some ⟨t.past.dropLast, p, t.now :: t.future⟩

/-- One step towards the future. -/
def forth (t : Timeline α) : Option (Timeline α) :=
  match t.future with
  | [] => none
  | f :: fs => some ⟨t.past ++ [t.now], f, fs⟩

/-- Another position is visited: the future is forgotten, and of the past what exceeds the bound. -/
def visit [DecidableEq α] (cap : ℕ) (t : Timeline α) (v : α) : Timeline α :=
  if v = t.now then t else ⟨(t.past ++ [t.now]).rtake cap, v, []⟩

/-- `k` steps, if there are as many. -/
def steps (f : Timeline α → Option (Timeline α)) : ℕ → Timeline α → Option (Timeline α)
  | 0, t => some t
  | k + 1, t => (f t).bind (steps f k)

variable {t u : Timeline α}

/-! ### One step -/

lemma back_eq_some : t.back = some u ↔ t.past = u.past ++ [u.now] ∧ u.future = t.now :: t.future := by
  obtain ⟨past, now, future⟩ := t
  obtain ⟨past', now', future'⟩ := u
  unfold back
  rcases List.eq_nil_or_concat past with rfl | ⟨init, p, rfl⟩
  · simp
  · simp only [List.concat_eq_append, List.getLast?_append, List.getLast?_singleton, Option.some_or,
      List.dropLast_concat, Option.some.injEq, Timeline.mk.injEq]
    constructor
    · rintro ⟨rfl, rfl, rfl⟩
      exact ⟨rfl, rfl⟩
    · rintro ⟨hpast, rfl⟩
      obtain ⟨rfl, hp⟩ := List.append_inj' hpast rfl
      exact ⟨rfl, List.head_eq_of_cons_eq hp, rfl⟩

lemma forth_eq_some : t.forth = some u ↔ t.future = u.now :: u.future ∧ u.past = t.past ++ [t.now] := by
  obtain ⟨past, now, future⟩ := t
  obtain ⟨past', now', future'⟩ := u
  unfold forth
  cases future with
  | nil => simp
  | cons f fs =>
    simp only [Option.some.injEq, Timeline.mk.injEq, List.cons.injEq]
    constructor
    · rintro ⟨rfl, rfl, rfl⟩
      exact ⟨⟨rfl, rfl⟩, rfl⟩
    · rintro ⟨⟨rfl, rfl⟩, rfl⟩
      exact ⟨rfl, rfl, rfl⟩

/-- A step forth takes a step back away, and the other way round. -/
theorem back_iff_forth : t.back = some u ↔ u.forth = some t := by
  rw [back_eq_some, forth_eq_some, and_comm]

lemma track_back (h : t.back = some u) : u.track = t.track := by
  obtain ⟨hpast, hfuture⟩ := back_eq_some.1 h
  simp [track, hpast, hfuture]

lemma length_back (h : t.back = some u) : u.past.length + 1 = t.past.length := by
  simp [(back_eq_some.1 h).1]

lemma size_back (h : t.back = some u) : u.size = t.size := by
  obtain ⟨hpast, hfuture⟩ := back_eq_some.1 h
  simp only [size, hpast, hfuture, List.length_append, List.length_cons, List.length_nil]
  omega

lemma back_eq_none : t.back = none ↔ t.past = [] := by
  unfold back
  cases h : t.past.getLast? with
  | none => simpa using h
  | some p =>
    simp only [reduceCtorEq, false_iff]
    rintro hnil
    simp [hnil] at h

lemma forth_eq_none : t.forth = none ↔ t.future = [] := by
  unfold forth
  cases t.future <;> simp

/-! ### Several steps -/

section Steps

variable {f g : Timeline α → Option (Timeline α)}

lemma steps_succ (k : ℕ) (t : Timeline α) : steps f (k + 1) t = (steps f k t).bind f := by
  induction k generalizing t with
  | zero => simp [steps]
  | succ k ih =>
    rw [steps]
    cases h : f t with
    | none => simp [steps, h]
    | some u =>
      rw [Option.bind_some, ih u]
      simp [steps, h]

/-- Steps that undo each other do so any number of times. -/
theorem steps_iff (h : ∀ t u, f t = some u ↔ g u = some t) (k : ℕ) (t u : Timeline α) :
    steps f k t = some u ↔ steps g k u = some t := by
  induction k generalizing t u with
  | zero => simp [steps, eq_comm]
  | succ k ih =>
    rw [steps, steps_succ, Option.bind_eq_some_iff, Option.bind_eq_some_iff]
    constructor
    · rintro ⟨v, hv, hu⟩
      exact ⟨v, (ih v u).1 hu, (h t v).1 hv⟩
    · rintro ⟨v, hv, hu⟩
      exact ⟨v, (h t v).2 hu, (ih v u).2 hv⟩

end Steps

/-- There are as many steps back as there is past. -/
theorem steps_back_isSome (k : ℕ) (t : Timeline α) : (steps back k t).isSome ↔ k ≤ t.past.length := by
  induction k generalizing t with
  | zero => simp [steps]
  | succ k ih =>
    rw [steps]
    cases h : t.back with
    | none => simp [back_eq_none.1 h]
    | some u =>
      rw [Option.bind_some, ih u, ← length_back h]
      omega

/-- Where `k` steps back lead, in the sequence up to now. -/
theorem steps_back_now {k : ℕ} (h : steps back k t = some u) : t.upToNow.reverse[k]? = some u.now := by
  induction k generalizing t with
  | zero =>
    obtain rfl : t = u := by simpa [steps] using h
    simp [upToNow]
  | succ k ih =>
    obtain ⟨v, hv, hu⟩ := Option.bind_eq_some_iff.1 h
    have hup : t.upToNow = v.upToNow ++ [t.now] := by simp [upToNow, (back_eq_some.1 hv).1]
    rw [hup, List.reverse_append, List.reverse_singleton, List.singleton_append, List.getElem?_cons_succ]
    exact ih hu

/-! ### Visits -/

lemma rtake_rtake_append {D : List α} (hD : D ≠ []) (l : List α) (n : ℕ) :
    (l.rtake n ++ D).rtake (n + 1) = (l ++ D).rtake (n + 1) := by
  have hpos := List.length_pos_of_ne_nil hD
  simp only [List.rtake, List.length_append, List.length_drop]
  rcases Nat.le_total l.length n with hn | hn
  · rw [Nat.sub_eq_zero_of_le hn]
    simp
  · have hdrop : (l.drop (l.length - n) ++ D) = (l ++ D).drop (l.length - n) := by
      rw [List.drop_append_of_le_length (by omega)]
    rw [hdrop, List.drop_drop]
    congr 1
    omega

variable [DecidableEq α] {cap : ℕ}

lemma length_past_visit (v : α) (h : t.past.length ≤ cap) : (t.visit cap v).past.length ≤ cap := by
  unfold visit
  split_ifs with hv
  · exact h
  · simp only [List.rtake, List.length_drop]
    omega

lemma size_visit (v : α) (h : t.size ≤ cap) : (t.visit cap v).size ≤ cap := by
  unfold visit
  split_ifs with hv
  · exact h
  · simp only [size, List.rtake, List.length_drop, List.length_nil]
    omega

/-- What is left of the sequence after some visits: its end, each position once where it was visited again
at once. -/
theorem upToNow_visits (vs : List α) (h : t.past.length ≤ cap) :
    (vs.foldl (visit cap) t).upToNow = (t.past ++ (t.now :: vs).destutter (· ≠ ·)).rtake (cap + 1) := by
  induction vs generalizing t with
  | nil => simp [upToNow, List.rtake, Nat.sub_eq_zero_of_le h]
  | cons v vs ih =>
    rw [List.foldl_cons, ih (length_past_visit v h)]
    simp only [List.destutter_cons']
    by_cases hv : v = t.now
    · simp [visit, hv]
    · rw [List.destutter'_cons_pos _ (Ne.symm hv)]
      simp only [visit, if_neg hv]
      rw [rtake_rtake_append (List.destutter'_ne_nil _ _)]
      simp

end Timeline

end Two09.Lib
