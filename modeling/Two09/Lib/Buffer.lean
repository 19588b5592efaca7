import Two09.Lib.Slab

/-!
# A buffer that doubles

An allocation with its capacity and the number of cells that are in use, which a program doubles before it writes
more than there is room for. One cell more than what is in use is kept for a terminator.
-/

namespace Two09.Lib

/-- What is allocated, the variable that counts it, and how much of it is in use. A cell is `none` until it is
written. -/
structure Buffer (α : Type) where
  cells : List (Option α)
  cap : ℕ
  len : ℕ

namespace Buffer

variable {α : Type}

/-- `calloc` -/
def zeroed (zero : α) (cap : ℕ) : Buffer α := ⟨List.replicate cap (some zero), cap, 0⟩

/-- `cap *= 2` and the `realloc` to it, which succeeds. -/
def double (b : Buffer α) : Buffer α := { b with cells := Slab.realloc (some b.cells) (b.cap * 2), cap := b.cap * 2 }

/-- `while (len + n + 1 >= cap)`, doubling so often at most. -/
def reserve (n : ℕ) : ℕ → Buffer α → Option (Buffer α)
  | 0, b => if b.len + n + 1 ≥ b.cap then none else some b
  | fuel + 1, b => if b.len + n + 1 ≥ b.cap then reserve n fuel b.double else some b

/-- `memcpy` behind what is in use, inside of what is allocated or not at all. -/
def append (b : Buffer α) (xs : List α) : Option (Buffer α) :=
  if b.len + xs.length ≤ b.cells.length then
    some { b with
      cells := b.cells.take b.len ++ (xs.map some ++ b.cells.drop (b.len + xs.length))
      len := b.len + xs.length }
  else none

/-- What is in use, once there is a terminator behind it. -/
def finish (b : Buffer α) : Option (List α) :=
  if b.len < b.cells.length then (b.cells.take b.len).mapM id else none

/-- The buffer has `out` in it, and room for a terminator. -/
structure Filled (b : Buffer α) (out : List α) : Prop where
  room : b.cap = b.cells.length
  len : b.len = out.length
  cells : b.cells.take b.len = out.map some
  lt : b.len < b.cap

variable {b : Buffer α} {out : List α}

lemma filled_zeroed (zero : α) {cap : ℕ} (hcap : 0 < cap) : Filled (zeroed zero cap) [] where
  room := List.length_replicate.symm
  len := rfl
  cells := rfl
  lt := hcap

lemma Filled.double (h : Filled b out) : Filled b.double out where
  room := (Slab.length_realloc _ _).symm
  len := h.len
  cells := by
    have hroom := h.room
    have hlt := h.lt
    show (Slab.realloc (some b.cells) (b.cap * 2)).take b.len = out.map some
    rw [Slab.take_realloc (by omega) (by simp only [Option.getD_some]; omega)]
    exact h.cells
  lt := by
    have hlt := h.lt
    show b.len < b.cap * 2
    omega

/-- **Doubling ends** with room for what is to come, in no more rounds than that is long. -/
lemma Filled.reserve (h : Filled b out) {n fuel : ℕ} (hfuel : b.len + n + 1 < b.cap * 2 ^ fuel) :
    ∃ b', b.reserve n fuel = some b' ∧ Filled b' out ∧ b'.len + n + 1 < b'.cap := by
  induction fuel generalizing b with
  | zero =>
    rw [pow_zero, mul_one] at hfuel
    exact ⟨b, if_neg (by omega), h, hfuel⟩
  | succ fuel ih =>
    rw [Buffer.reserve]
    by_cases hfull : b.len + n + 1 ≥ b.cap
    · rw [if_pos hfull]
      refine ih h.double ?_
      show b.len + n + 1 < b.cap * 2 * 2 ^ fuel
      rw [mul_assoc, ← pow_succ']
      exact hfuel
    · rw [if_neg hfull]
      exact ⟨b, rfl, h, by omega⟩

/-- What is written is in the buffer. -/
lemma Filled.append (h : Filled b out) (xs : List α) (hroom : b.len + xs.length < b.cap) :
    ∃ b', b.append xs = some b' ∧ Filled b' (out ++ xs) := by
  have hcap := h.room
  have hlen := h.len
  have htake : (b.cells.take b.len).length = b.len := by
    rw [List.length_take]
    omega
  refine ⟨_, if_pos (by omega), ?_, ?_, ?_, hroom⟩
  · simp only [List.length_append, List.length_map, List.length_drop, htake]
    omega
  · simp only [List.length_append]
    omega
  · show (b.cells.take b.len ++ (xs.map some ++ b.cells.drop (b.len + xs.length))).take (b.len + xs.length) =
      (out ++ xs).map some
    rw [← List.append_assoc, List.take_left' (by simp [htake]), h.cells, List.map_append]

lemma mapM_some (xs : List α) : (xs.map some).mapM id = some xs := by
  induction xs with
  | nil => rfl
  | cons x xs ih => simp [ih]

lemma Filled.finish (h : Filled b out) : b.finish = some out := by
  have hroom := h.room
  have hlt := h.lt
  rw [Buffer.finish, if_pos (by omega), h.cells, mapM_some]

end Buffer

end Two09.Lib
