import Mathlib.Algebra.Order.Group.Nat
import Mathlib.Data.List.Basic
import Mathlib.Tactic.Common

/-!
# An array that grows in slabs

An array behind a pointer, whose capacity is not stored but worked out from the number of its entries. A cell that
is outside of what is allocated cannot be written.
-/

namespace Two09.Lib

/-- What is allocated, none while the pointer is null, and the number of entries. A cell is `none` until it is
written. -/
structure Slab (α : Type) where
  cells : Option (List (Option α))
  count : ℕ

namespace Slab

variable {α : Type}

/-- No array yet. -/
def empty : Slab α := ⟨none, 0⟩

/-- `realloc`, which succeeds: the cells that are kept, and new ones. -/
def realloc (cells : Option (List (Option α))) (n : ℕ) : List (Option α) :=
  (cells.getD []).take n ++ List.replicate (n - (cells.getD []).length) none

/-- A write, inside of what is allocated or not at all. -/
def write (cells : List (Option α)) (i : ℕ) (x : α) : Option (List (Option α)) :=
  if i < cells.length then some (cells.set i (some x)) else none

/-- How many cells there are. -/
def allocated (s : Slab α) : ℕ := (s.cells.getD []).length

/-- The cells that are entries. -/
def entries (s : Slab α) : List (Option α) := (s.cells.getD []).take s.count

variable (round : ℕ → ℕ) (k : ℕ)

/-- How many cells there are by the number of entries. -/
def capacity (s : Slab α) : ℕ := if s.cells.isNone then 0 else round s.count

/-- An entry is appended. -/
def push (s : Slab α) (x : α) : Option (Slab α) :=
  let cells := if s.count + 1 > s.capacity round then realloc s.cells (s.count + k) else s.cells.getD []
  (write cells s.count x).map fun cells => ⟨some cells, s.count + 1⟩

/-- `round` rounds up to a multiple of `k`. -/
structure RoundsUp : Prop where
  pos : 0 < k
  le : ∀ n, n ≤ round n
  dvd : ∀ n, k ∣ round n
  least : ∀ n m, n ≤ m → k ∣ m → round n ≤ m

/-- The entries are there, and the capacity worked out is within what is allocated. -/
structure Holds (s : Slab α) (xs : List α) : Prop where
  count : s.count = xs.length
  entries : s.entries = xs.map some
  room : s.capacity round ≤ s.allocated

variable {round k} {s : Slab α} {xs : List α} {x : α}

lemma holds_empty : Holds round (empty : Slab α) [] := ⟨rfl, rfl, Nat.le_refl 0⟩

lemma length_realloc (cells : Option (List (Option α))) (n : ℕ) : (realloc cells n).length = n := by
  simp only [realloc, List.length_append, List.length_take, List.length_replicate]
  omega

lemma take_realloc {cells : Option (List (Option α))} {n m : ℕ} (hm : m ≤ n) (hlen : m ≤ (cells.getD []).length) :
    (realloc cells n).take m = (cells.getD []).take m := by
  rw [realloc, List.take_append_of_le_length (by rw [List.length_take]; omega), List.take_take, Nat.min_eq_left hm]

/-- The entries are within what is allocated. -/
lemma Holds.count_le (h : Holds round s xs) : s.count ≤ s.allocated := by
  have hlen := congrArg List.length h.entries
  rw [Slab.entries, List.length_take, List.length_map, ← h.count] at hlen
  rw [allocated]
  omega

/-- What is worked out for one entry more, when there is no room for it by what was worked out before. -/
lemma Holds.round_le (hround : RoundsUp round k) (h : Holds round s xs) (hfull : s.count + 1 > s.capacity round) :
    round (s.count + 1) ≤ s.count + k := by
  have hpos := hround.pos
  have hdvd : k ∣ s.count := by
    cases hcells : s.cells with
    | none =>
      have hzero : s.count = 0 := by
        have hle := h.count_le
        simpa [allocated, hcells] using hle
      rw [hzero]
      exact Nat.dvd_zero k
    | some cells =>
      have hcap : s.capacity round = round s.count := by simp [capacity, hcells]
      have heq : round s.count = s.count := by
        have hle := hround.le s.count
        omega
      rw [← heq]
      exact hround.dvd s.count
  exact hround.least _ _ (by omega) (Nat.dvd_add hdvd (Nat.dvd_refl k))

/-- **Appending an entry** is a write inside of what is allocated, and loses nothing. -/
lemma Holds.push (hround : RoundsUp round k) (h : Holds round s xs) (x : α) :
    ∃ s', s.push round k x = some s' ∧ Holds round s' (xs ++ [x]) := by
  have hpos := hround.pos
  have hle := h.count_le
  have hentries := h.entries
  obtain ⟨cells, hcells, hlt, htake, hroom⟩ : ∃ cells,
      (if s.count + 1 > s.capacity round then realloc s.cells (s.count + k) else s.cells.getD []) = cells ∧
        s.count < cells.length ∧ cells.take s.count = xs.map some ∧ round (s.count + 1) ≤ cells.length := by
    refine ⟨_, rfl, ?_⟩
    by_cases hfull : s.count + 1 > s.capacity round
    · rw [if_pos hfull, length_realloc, take_realloc (by omega) hle]
      exact ⟨by omega, hentries, h.round_le hround hfull⟩
    · rw [if_neg hfull]
      have hroom : s.capacity round ≤ (s.cells.getD []).length := h.room
      have hcap : s.capacity round ≤ round s.count := by
        unfold capacity
        split
        · exact Nat.zero_le _
        · exact Nat.le_refl _
      have hnext : round (s.count + 1) ≤ round s.count :=
        hround.least _ _ (by omega) (hround.dvd s.count)
      have hsame : s.capacity round = round s.count := by
        unfold capacity at hfull ⊢
        split
        next hnone => simp [hnone] at hfull
        next => rfl
      exact ⟨by omega, hentries, by omega⟩
  refine ⟨⟨some (cells.set s.count (some x)), s.count + 1⟩, ?_, ?_, ?_, ?_⟩
  · simp only [Slab.push, hcells, write, if_pos hlt, Option.map_some]
  · simp [h.count]
  · show (cells.set s.count (some x)).take (s.count + 1) = (xs ++ [x]).map some
    rw [List.take_add_one, List.take_set_of_le (Nat.le_refl _), htake, List.getElem?_set_self hlt]
    simp
  · simpa [capacity, allocated] using hroom

end Slab

end Two09.Lib
