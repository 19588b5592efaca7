import Two09.Nix.Eval
import Two09.Nix.JsonRoundTrip

/-!
# Equality of values

`nix_values_equal`, which `==` uses and which ends the iteration of a configuration, on values that are data.
-/

namespace Two09.Nix

open Two09.Lib

/-! ### Values -/

/-- A value that is data, with the thunks that were forced in it. -/
inductive Datum
  | null
  | bool (b : Bool)
  | int (n : Int)
  | string (s : Bytes)
  | path (s : Bytes)
  | list (items : List Datum)
  | attrSet (entries : List (Bytes × Datum))
  | forced (v : Datum)

/-- Induction over data. -/
theorem Datum.ind {motive : Datum → Prop} (null : motive .null) (bool : ∀ b, motive (.bool b))
    (int : ∀ n, motive (.int n)) (string : ∀ s, motive (.string s)) (path : ∀ s, motive (.path s))
    (list : ∀ items, (∀ v ∈ items, motive v) → motive (.list items))
    (attrSet : ∀ entries, (∀ e ∈ entries, motive e.2) → motive (.attrSet entries))
    (forced : ∀ v, motive v → motive (.forced v)) (v : Datum) : motive v :=
  @Datum.rec motive (fun items => ∀ v ∈ items, motive v) (fun entries => ∀ e ∈ entries, motive e.2)
    (fun e => motive e.2) null bool int string path list attrSet forced
    (List.forall_mem_nil _) (fun _ _ h hs => List.forall_mem_cons.2 ⟨h, hs⟩)
    (List.forall_mem_nil _) (fun _ _ h hs => List.forall_mem_cons.2 ⟨h, hs⟩) (fun _ _ h => h) v

mutual

/-- The tree that `json_serialize` walks. -/
def Datum.tree : Datum → Tree
  | .null => .null
  | .bool b => .bool b
  | .int n => .int n
  | .string s => .string s
  | .path s => .path s
  | .list items => .list (Datum.treeItems items)
  | .attrSet entries => .attrSet (Datum.treeEntries entries)
  | .forced v => v.tree

def Datum.treeItems : List Datum → List Tree
  | [] => []
  | item :: items => item.tree :: Datum.treeItems items

def Datum.treeEntries : List (Bytes × Datum) → List (Bytes × Tree)
  | [] => []
  | (key, v) :: entries => (key, v.tree) :: Datum.treeEntries entries

end

mutual

/-- How deep the recursion goes into a value. -/
def Datum.depth : Datum → ℕ
  | .list items => Datum.depthItems items + 1
  | .attrSet entries => Datum.depthEntries entries + 1
  | .forced v => v.depth + 1
  | _ => 1

def Datum.depthItems : List Datum → ℕ
  | [] => 0
  | item :: items => max item.depth (Datum.depthItems items)

def Datum.depthEntries : List (Bytes × Datum) → ℕ
  | [] => 0
  | (_, v) :: entries => max v.depth (Datum.depthEntries entries)

end

/-- What C can have: integers of 64 bits, strings without NUL, and the distinct keys that `attrset_bind` keeps. -/
inductive Datum.Fine : Datum → Prop
  | null : Fine .null
  | bool (b : Bool) : Fine (.bool b)
  | int {n : Int} (hle : -2 ^ 63 ≤ n) (hlt : n < 2 ^ 63) : Fine (.int n)
  | string {s : Bytes} (hs : (0 : UInt8) ∉ s) : Fine (.string s)
  | path {s : Bytes} (hs : (0 : UInt8) ∉ s) : Fine (.path s)
  | list {items : List Datum} (hitems : ∀ v ∈ items, Fine v) : Fine (.list items)
  | attrSet {entries : List (Bytes × Datum)} (hkeys : (entries.map Prod.fst).Nodup)
    (hnames : ∀ e ∈ entries, (0 : UInt8) ∉ e.1) (hvalues : ∀ e ∈ entries, Fine e.2) : Fine (.attrSet entries)
  | forced {v : Datum} (hv : Fine v) : Fine (.forced v)

/-- No thunk is left in the value. -/
inductive Datum.Plain : Datum → Prop
  | null : Plain .null
  | bool (b : Bool) : Plain (.bool b)
  | int (n : Int) : Plain (.int n)
  | string (s : Bytes) : Plain (.string s)
  | path (s : Bytes) : Plain (.path s)
  | list {items : List Datum} (hitems : ∀ v ∈ items, Plain v) : Plain (.list items)
  | attrSet {entries : List (Bytes × Datum)} (hvalues : ∀ e ∈ entries, Plain e.2) : Plain (.attrSet entries)

/-- The value at `p` in the memory. -/
inductive Denotes (h : Heap) : Ptr → Datum → Prop
  | null {p : Ptr} (hp : h.Holds p .null) : Denotes h p .null
  | bool {p : Ptr} {b : Bool} (hp : h.Holds p (.bool b)) : Denotes h p (.bool b)
  | int {p : Ptr} {n : Int} (hp : h.Holds p (.int n)) : Denotes h p (.int n)
  | string {p : Ptr} {s : Bytes} (hp : h.Holds p (.string s)) : Denotes h p (.string s)
  | path {p : Ptr} {s : Bytes} (hp : h.Holds p (.path s)) : Denotes h p (.path s)
  | list {p : Ptr} {ptrs : List Ptr} {items : List Datum} (hp : h.Holds p (.list (ptrs.map some)))
    (hlen : ptrs.length = items.length) (hitems : ∀ x ∈ ptrs.zip items, Denotes h x.1 x.2) : Denotes h p (.list items)
  | attrSet {p : Ptr} {ptrs : List Ptr} {entries : List (Bytes × Datum)}
    (hp : h.Holds p (.attrSet ((entries.map Prod.fst).zip (ptrs.map some))))
    (hlen : ptrs.length = entries.length) (hvalues : ∀ x ∈ ptrs.zip entries, Denotes h x.1 x.2.2) :
    Denotes h p (.attrSet entries)
  | forced {p q : Ptr} {expr : Ast} {v : Datum} (hp : h.Holds p (.thunk expr (some q))) (hv : Denotes h q v) :
    Denotes h p (.forced v)

/-! ### The comparison -/

/-- What a key stands for among entries that are data. -/
def Datum.lookup (entries : List (Bytes × Datum)) (key : Bytes) : Option Datum :=
  (entries.find? (·.1 = key)).map Prod.snd

mutual

/-- What `nix_values_equal` gives for two values. -/
def Datum.equal : Datum → Datum → Bool
  | .null, .null => true
  | .bool x, .bool y => x = y
  | .int x, .int y => x = y
  | .string x, .string y => x = y
  | .path x, .path y => x = y
  | .list xs, .list ys => Datum.equalItems xs ys
  | .attrSet xs, .attrSet ys => xs.length = ys.length && Datum.equalEntries xs ys
  | _, _ => false

def Datum.equalItems : List Datum → List Datum → Bool
  | [], [] => true
  | x :: xs, y :: ys => x.equal y && Datum.equalItems xs ys
  | _, _ => false

def Datum.equalEntries : List (Bytes × Datum) → List (Bytes × Datum) → Bool
  | [], _ => true
  | (key, x) :: xs, ys =>
    match Datum.lookup ys key with
    | none => false
    | some y => x.equal y && Datum.equalEntries xs ys

end

section Comparison

variable {h : Heap} {p q : Ptr} {d e : Datum} {n : ℕ} {ptrs : List Ptr} {items items' : List Datum}
  {entries : List (Bytes × Datum)}

lemma Datum.depth_pos (d : Datum) : 0 < d.depth := by
  cases d <;> simp [Datum.depth]

lemma Datum.depth_le_items (hv : d ∈ items) : d.depth ≤ Datum.depthItems items := by
  induction items with
  | nil => cases hv
  | cons item items ih =>
    rw [Datum.depthItems]
    rcases List.mem_cons.1 hv with rfl | hv
    · exact le_max_left _ _
    · exact (ih hv).trans (le_max_right _ _)

lemma Datum.depth_le_entries {entry : Bytes × Datum} (hv : entry ∈ entries) :
    entry.2.depth ≤ Datum.depthEntries entries := by
  induction entries with
  | nil => cases hv
  | cons entry' entries ih =>
    rw [Datum.depthEntries]
    rcases List.mem_cons.1 hv with rfl | hv
    · exact le_max_left _ _
    · exact (ih hv).trans (le_max_right _ _)

lemma Datum.length_of_equalItems (heq : Datum.equalItems items items' = true) : items.length = items'.length := by
  induction items generalizing items' with
  | nil => cases items' with
    | nil => rfl
    | cons _ _ => cases heq
  | cons x xs ih => cases items' with
    | nil => cases heq
    | cons y ys =>
      rw [Datum.equalItems, Bool.and_eq_true] at heq
      rw [List.length_cons, List.length_cons, ih heq.2]

/-- One round of a loop that ends with the first item that fails. -/
lemma allM_cons {α : Type} {f : α → Eval Bool} {x : α} {b b' : Bool} {xs : List α} (hx : f x h = .ok (b, h))
    (hxs : xs.allM f h = .ok (b', h)) : (x :: xs).allM f h = .ok (b && b', h) := by
  rw [List.allM_cons, bind_run hx]
  cases b
  · rfl
  · exact hxs

/-- Two values, of which the first may be compared so deep. -/
def Compares (n : ℕ) (h : Heap) (d : Datum) : Prop := ∀ {e p q}, Denotes h p d → Denotes h q e → d.depth ≤ n →
  valuesEqual n (some p) (some q) h = .ok (d.equal e, h)

lemma allM_items (hitems : ∀ d ∈ items, Compares n h d) (hdepth : ∀ d ∈ items, d.depth ≤ n) {ptrs' : List Ptr}
    (hlen : ptrs.length = items.length) (hlen' : ptrs'.length = items'.length) (hsame : ptrs.length = ptrs'.length)
    (hptrs : ∀ x ∈ ptrs.zip items, Denotes h x.1 x.2) (hptrs' : ∀ x ∈ ptrs'.zip items', Denotes h x.1 x.2) :
    ((ptrs.map some).zip (ptrs'.map some)).allM (fun pair => valuesEqual n pair.1 pair.2) h =
      .ok (Datum.equalItems items items', h) := by
  induction items generalizing items' ptrs ptrs' with
  | nil =>
    obtain rfl := List.length_eq_zero_iff.1 hlen
    obtain rfl := List.length_eq_zero_iff.1 hsame.symm
    obtain rfl := List.length_eq_zero_iff.1 hlen'.symm
    rfl
  | cons d items ih =>
    obtain ⟨p, ptrs, rfl⟩ := List.exists_cons_of_length_eq_add_one hlen
    obtain ⟨q, ptrs', rfl⟩ := List.exists_cons_of_length_eq_add_one hsame.symm
    obtain ⟨e, items', rfl⟩ := List.exists_cons_of_length_eq_add_one hlen'.symm
    simp only [List.length_cons, Nat.add_right_cancel_iff] at hlen hlen' hsame
    rw [List.zip_cons_cons, List.forall_mem_cons] at hptrs hptrs'
    rw [List.forall_mem_cons] at hitems hdepth
    exact allM_cons (hitems.1 hptrs.1 hptrs'.1 hdepth.1) (ih hitems.2 hdepth.2 hlen hlen' hsame hptrs.2 hptrs'.2)

/-- A key is found where its value is. -/
lemma find_zip (hlen : ptrs.length = entries.length) (hptrs : ∀ x ∈ ptrs.zip entries, Denotes h x.1 x.2.2)
    (key : Bytes) : (Datum.lookup entries key = none ∧ find ((entries.map Prod.fst).zip (ptrs.map some)) key = none) ∨
      ∃ e q, Datum.lookup entries key = some e ∧
        find ((entries.map Prod.fst).zip (ptrs.map some)) key = some q ∧ Denotes h q e := by
  induction entries generalizing ptrs with
  | nil => exact .inl ⟨rfl, rfl⟩
  | cons entry entries ih =>
    obtain ⟨p, ptrs, rfl⟩ := List.exists_cons_of_length_eq_add_one hlen
    simp only [List.length_cons, Nat.add_right_cancel_iff] at hlen
    rw [List.zip_cons_cons, List.forall_mem_cons] at hptrs
    simp only [Datum.lookup, find, List.map_cons, List.zip_cons_cons]
    by_cases hkey : entry.1 = key
    · refine .inr ⟨entry.2, p, ?_, ?_, hptrs.1⟩
      · rw [List.find?_cons_of_pos (by simpa using hkey), Option.map_some]
      · rw [List.find?_cons_of_pos (by simpa using hkey), Option.bind_some]
    · rw [List.find?_cons_of_neg (by simpa using hkey), List.find?_cons_of_neg (by simpa using hkey)]
      exact ih hlen hptrs.2

lemma allM_entries {ys : List (Bytes × Datum)} {ptrs' : List Ptr} (hentries : ∀ entry ∈ entries, Compares n h entry.2)
    (hdepth : ∀ entry ∈ entries, entry.2.depth ≤ n) (hlen : ptrs.length = entries.length)
    (hlen' : ptrs'.length = ys.length) (hptrs : ∀ x ∈ ptrs.zip entries, Denotes h x.1 x.2.2)
    (hptrs' : ∀ x ∈ ptrs'.zip ys, Denotes h x.1 x.2.2) :
    List.allM (m := Eval) (fun entry => do
      match find ((ys.map Prod.fst).zip (ptrs'.map some)) entry.1 with
      | none => return false
      | some y => valuesEqual n entry.2 (some y)) ((entries.map Prod.fst).zip (ptrs.map some)) h =
      .ok (Datum.equalEntries entries ys, h) := by
  induction entries generalizing ptrs with
  | nil => rfl
  | cons entry entries ih =>
    obtain ⟨p, ptrs, rfl⟩ := List.exists_cons_of_length_eq_add_one hlen
    obtain ⟨key, d⟩ := entry
    simp only [List.length_cons, Nat.add_right_cancel_iff] at hlen
    rw [List.zip_cons_cons, List.forall_mem_cons] at hptrs
    rw [List.forall_mem_cons] at hentries hdepth
    have hrest := ih hentries.2 hdepth.2 hlen hptrs.2
    rw [List.map_cons, List.map_cons, List.zip_cons_cons, Datum.equalEntries]
    rcases find_zip hlen' hptrs' key with ⟨hnone, hfind⟩ | ⟨e, q, hsome, hfind, hq⟩
    · rw [hnone]
      simp only
      rw [← Bool.false_and (Datum.equalEntries entries ys)]
      refine allM_cons ?_ hrest
      simp only [hfind]
      rfl
    · rw [hsome]
      refine allM_cons ?_ hrest
      simp only [hfind]
      exact hentries.1 hptrs.1 hq hdepth.1

/-- The comparison once both values are loaded. -/
def compareLoaded (k : ℕ) : Val → Val → Eval Bool
  | .null, .null => return true
  | .bool x, .bool y => return x = y
  | .int x, .int y => return x = y
  | .string x, .string y => return x = y
  | .path x, .path y => return x = y
  | .list xs, .list ys => do
    if xs.length ≠ ys.length then return false
    (xs.zip ys).allM fun pair => valuesEqual k pair.1 pair.2
  | .attrSet xs, .attrSet ys => do
    if xs.length ≠ ys.length then return false
    xs.allM fun entry => do
      match find ys entry.1 with
      | none => return false
      | some y => valuesEqual k entry.2 (some y)
  | _, _ => return false

/-- The comparison looks at both values first. -/
lemma valuesEqual_load {v w : Val} (hp : h.Holds p v) (hq : h.Holds q w) (hn : d.depth ≤ n) :
    ∃ k, n = k + 1 ∧ valuesEqual n (some p) (some q) h = compareLoaded k v w h := by
  have hpos := d.depth_pos
  obtain ⟨k, rfl⟩ := Nat.exists_eq_add_of_lt (Nat.lt_of_lt_of_le hpos hn)
  rw [Nat.zero_add]
  exact ⟨k, rfl, by rw [valuesEqual, bind_run (load_run hp), bind_run (load_run hq)]; rfl⟩

/-- **The comparison of two values in memory** is that of the data they are. -/
theorem valuesEqual_run (d : Datum) : ∀ n, Compares n h d := by
  induction d using Datum.ind with
  | list items ih =>
    intro n e p q hp hq hn
    obtain ⟨ptrs, hv, hlen, hptrs⟩ : ∃ ptrs : List Ptr, h.Holds p (.list (ptrs.map some)) ∧
        ptrs.length = items.length ∧ ∀ x ∈ ptrs.zip items, Denotes h x.1 x.2 := by
      cases hp with
      | list hp hlen hptrs => exact ⟨_, hp, hlen, hptrs⟩
    cases hq with
    | @list _ ptrs' items' hq hlen' hptrs' =>
      obtain ⟨k, rfl, hrun⟩ := valuesEqual_load hv hq hn
      rw [hrun]
      simp only [compareLoaded, List.length_map]
      by_cases hsame : ptrs.length = ptrs'.length
      · rw [if_neg (by simpa using hsame)]
        rw [Datum.depth, Nat.add_le_add_iff_right] at hn
        exact allM_items (fun d hd => ih d hd k) (fun d hd => (Datum.depth_le_items hd).trans hn) hlen hlen' hsame
          hptrs hptrs'
      · have hfalse : Datum.equalItems items items' = false := by
          rw [Bool.eq_false_iff]
          exact fun heq => hsame (hlen.trans ((Datum.length_of_equalItems heq).trans hlen'.symm))
        rw [if_pos hsame, Datum.equal, hfalse]
        rfl
    | _ => obtain ⟨k, rfl, hrun⟩ := valuesEqual_load hv ‹h.Holds q _› hn; exact hrun
  | attrSet entries ih =>
    intro n e p q hp hq hn
    obtain ⟨ptrs, hv, hlen, hptrs⟩ : ∃ ptrs : List Ptr,
        h.Holds p (.attrSet ((entries.map Prod.fst).zip (ptrs.map some))) ∧
        ptrs.length = entries.length ∧ ∀ x ∈ ptrs.zip entries, Denotes h x.1 x.2.2 := by
      cases hp with
      | attrSet hp hlen hptrs => exact ⟨_, hp, hlen, hptrs⟩
    cases hq with
    | @attrSet _ ptrs' ys hq hlen' hptrs' =>
      obtain ⟨k, rfl, hrun⟩ := valuesEqual_load hv hq hn
      rw [hrun]
      simp only [compareLoaded, List.length_zip, List.length_map, hlen, hlen', min_self]
      by_cases hsame : entries.length = ys.length
      · rw [if_neg (by simpa using hsame), Datum.equal, decide_eq_true hsame, Bool.true_and]
        rw [Datum.depth, Nat.add_le_add_iff_right] at hn
        exact allM_entries (fun entry he => ih entry he k) (fun entry he => (Datum.depth_le_entries he).trans hn) hlen
          hlen' hptrs hptrs'
      · rw [if_pos hsame, Datum.equal, decide_eq_false hsame]
        rfl
    | _ => obtain ⟨k, rfl, hrun⟩ := valuesEqual_load hv ‹h.Holds q _› hn; exact hrun
  | forced v ih =>
    intro n e p q hp hq hn
    cases hp with
    | forced hp hv =>
      cases hq <;> (obtain ⟨k, rfl, hrun⟩ := valuesEqual_load hp ‹h.Holds q _› hn; exact hrun)
  | _ =>
    intro n e p q hp hq hn
    cases hp
    cases hq <;> (obtain ⟨k, rfl, hrun⟩ := valuesEqual_load ‹h.Holds p _› ‹h.Holds q _› hn; exact hrun)

end Comparison

/-! ### The serialization -/

section Serialization

variable {h : Heap} {n : ℕ} {items : List Datum} {entries : List (Bytes × Datum)}

lemma mapM_items {ptrs : List Ptr} (hlen : ptrs.length = items.length)
    (hptrs : ∀ x ∈ ptrs.zip items, toTree n (some x.1) h = .ok (x.2.tree, h)) :
    (ptrs.map some).mapM (toTree n) h = .ok (Datum.treeItems items, h) := by
  induction items generalizing ptrs with
  | nil =>
    obtain rfl := List.length_eq_zero_iff.1 hlen
    rfl
  | cons d items ih =>
    obtain ⟨p, ptrs, rfl⟩ := List.exists_cons_of_length_eq_add_one hlen
    simp only [List.length_cons, Nat.add_right_cancel_iff] at hlen
    rw [List.zip_cons_cons, List.forall_mem_cons] at hptrs
    rw [List.map_cons, List.mapM_cons, bind_run hptrs.1, bind_run (ih hlen hptrs.2)]
    rfl

lemma mapM_entries {ptrs : List Ptr} (hlen : ptrs.length = entries.length)
    (hptrs : ∀ x ∈ ptrs.zip entries, toTree n (some x.1) h = .ok (x.2.2.tree, h)) :
    List.mapM (m := Eval) (fun entry => return (entry.1, ← toTree n entry.2))
      ((entries.map Prod.fst).zip (ptrs.map some)) h = .ok (Datum.treeEntries entries, h) := by
  induction entries generalizing ptrs with
  | nil => rfl
  | cons entry entries ih =>
    obtain ⟨p, ptrs, rfl⟩ := List.exists_cons_of_length_eq_add_one hlen
    obtain ⟨key, d⟩ := entry
    simp only [List.length_cons, Nat.add_right_cancel_iff] at hlen
    rw [List.zip_cons_cons, List.forall_mem_cons] at hptrs
    have hhead : (do return (key, ← toTree n (some p)) : Eval (Bytes × Tree)) h = .ok ((key, d.tree), h) := by
      rw [bind_run hptrs.1]
      rfl
    rw [List.map_cons, List.map_cons, List.zip_cons_cons, List.mapM_cons, bind_run hhead, bind_run (ih hlen hptrs.2)]
    rfl

/-- **What `json_serialize` walks** is the tree of the data. -/
theorem toTree_run {p : Ptr} {d : Datum} (hp : Denotes h p d) (hn : d.depth ≤ n) :
    toTree n (some p) h = .ok (d.tree, h) := by
  induction hp generalizing n with
  | list hp hlen hitems ih =>
    obtain ⟨k, rfl⟩ := Nat.exists_eq_succ_of_ne_zero (show n ≠ 0 by rw [Datum.depth] at hn; omega)
    rw [Datum.depth, Nat.succ_eq_add_one, Nat.add_le_add_iff_right] at hn
    have hmap := mapM_items hlen fun x hx =>
      ih x hx ((Datum.depth_le_items (List.of_mem_zip hx).2).trans hn)
    rw [toTree, bind_run (load_run hp)]
    exact bind_run hmap
  | attrSet hp hlen hvalues ih =>
    obtain ⟨k, rfl⟩ := Nat.exists_eq_succ_of_ne_zero (show n ≠ 0 by rw [Datum.depth] at hn; omega)
    rw [Datum.depth, Nat.succ_eq_add_one, Nat.add_le_add_iff_right] at hn
    have hmap := mapM_entries hlen fun x hx =>
      ih x hx ((Datum.depth_le_entries (List.of_mem_zip hx).2).trans hn)
    rw [toTree, bind_run (load_run hp)]
    exact bind_run hmap
  | forced hp hv ih =>
    obtain ⟨k, rfl⟩ := Nat.exists_eq_succ_of_ne_zero (show n ≠ 0 by rw [Datum.depth] at hn; omega)
    rw [Datum.depth, Nat.succ_eq_add_one, Nat.add_le_add_iff_right] at hn
    rw [toTree, bind_run (load_run hp)]
    exact ih hn
  | _ hp =>
    obtain ⟨k, rfl⟩ := Nat.exists_eq_succ_of_ne_zero (show n ≠ 0 by simp only [Datum.depth] at hn; omega)
    rw [toTree, bind_run (load_run hp)]
    rfl

end Serialization

end Two09.Nix
