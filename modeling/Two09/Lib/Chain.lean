import Mathlib

/-!
# Linked lists with a tail pointer

Cells on a heap, each with a pointer to the next one, and a head. A list grows at the place that a tail pointer
points to; whatever was linked there is no longer in the list.
-/

namespace Two09.Lib

/-- Where a pointer to a cell stands: in the head, or in the cell with an index. -/
abbrev Slot := Option Nat

structure Chain (α : Type) where
  cells : List α
  next : Slot → Option Nat

namespace Chain

variable {α : Type}

def empty : Chain α := ⟨[], fun _ => none⟩

/-- `*tail = e`, for a new cell `e` without a successor. -/
def link (c : Chain α) (tail : Slot) (a : α) : Chain α where
  cells := c.cells ++ [a]
  next := Function.update (Function.update c.next (some c.cells.length) none) tail (some c.cells.length)

/-- What is found along the pointers from a slot on. -/
inductive Reads (c : Chain α) : Slot → List α → Prop
  | nil {s : Slot} : c.next s = none → Reads c s []
  | cons {s : Slot} {i : Nat} {a : α} {l : List α} :
    c.next s = some i → c.cells[i]? = some a → Reads c (some i) l → Reads c s (a :: l)

/-- The same for so many steps. -/
def readFrom (c : Chain α) : Nat → Slot → List α
  | 0, _ => []
  | fuel + 1, s =>
    match c.next s with
    | none => []
    | some i =>
      match c.cells[i]? with
      | none => []
      | some a => a :: readFrom c fuel (some i)

/-- The list. -/
def toList (c : Chain α) : List α := c.readFrom c.cells.length none

/-- A slot that exists when there are so many cells. -/
def Below (n : Nat) (s : Slot) : Prop := ∀ i, s = some i → i < n

section
variable {c : Chain α} {s tail : Slot} {a : α} {l : List α}

lemma below_head (n : Nat) : Below n none := by
  rintro i ⟨⟩

lemma below_own : Below (c.link tail a).cells.length (some c.cells.length) := by
  intro i hi
  obtain rfl := Option.some.inj hi
  simp [link]

lemma Below.mono {n m : Nat} (h : Below n s) (hle : n ≤ m) : Below m s :=
  fun i hi => (h i hi).trans_le hle

lemma Below.ne_own (h : Below c.cells.length s) : s ≠ some c.cells.length := by
  intro hs
  exact lt_irrefl _ (h _ hs)

@[simp] lemma cells_link : (c.link tail a).cells = c.cells ++ [a] := rfl

@[simp] lemma next_link_tail : (c.link tail a).next tail = some c.cells.length := Function.update_self ..

lemma next_link_own (h : Below c.cells.length tail) : (c.link tail a).next (some c.cells.length) = none := by
  unfold link
  dsimp only
  rw [Function.update_of_ne h.ne_own.symm, Function.update_self]

lemma next_link_of_ne (h : Below c.cells.length s) (hne : s ≠ tail) : (c.link tail a).next s = c.next s := by
  unfold link
  dsimp only
  rw [Function.update_of_ne hne, Function.update_of_ne h.ne_own]

lemma Reads.readFrom (h : c.Reads s l) {fuel : Nat} (hfuel : l.length ≤ fuel) : c.readFrom fuel s = l := by
  induction h generalizing fuel with
  | nil hnext =>
    cases fuel with
    | zero => rfl
    | succ fuel =>
      rw [Chain.readFrom, hnext]
  | cons hnext hcell _ ih =>
    cases fuel with
    | zero => simp at hfuel
    | succ fuel =>
      rw [Chain.readFrom, hnext]
      dsimp only
      rw [hcell]
      dsimp only
      rw [ih (Nat.le_of_succ_le_succ hfuel)]

lemma Reads.toList (h : c.Reads none l) (hlen : l.length ≤ c.cells.length) : c.toList = l := h.readFrom hlen

end

end Chain

end Two09.Lib
