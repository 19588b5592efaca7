import Two09.Lib.Run

/-!
# Trees in memory

Nodes that are allocated in an arena and point at their children, the trees that such pointers stand for, and a
recursive copy that allocates a node for each node it comes to. A tree is given by how it unfolds into the data
of its root and the trees below it; a tree that does not unfold is the null pointer.
-/

namespace Two09.Lib.Arena

/-- A node: its data, and its children or `NULL`. -/
structure Cell (S : Type) where
  shape : S
  children : List (Option Nat)

/-- The allocations, in order. -/
abbrev Memory (S : Type) := List (Cell S)

abbrev Alloc (S : Type) := StateT (Memory S) (Except Unit)

section Copy
variable {S : Type}

/-- A new node, not yet with children. -/
def alloc (shape : S) : Alloc S Nat := fun m => .ok (m.length, m ++ [⟨shape, []⟩])

def read (p : Nat) : Alloc S (Cell S) := fun m =>
  match m[p]? with
  | some c => .ok (c, m)
  | none => .error ()

def write (p : Nat) (c : Cell S) : Alloc S Unit := modify fun m => m.set p c

/-- The children that a copy looks at; the others are left `NULL`. -/
def kept {α : Type} (keeps : S → Nat → Bool) (null : α) (shape : S) (children : List α) : List α :=
  children.mapIdx fun i x => if keeps shape i then x else null

/-- The copy, so deep. -/
def copy (copyShape : S → S) (keeps : S → Nat → Bool) : Nat → Option Nat → Alloc S (Option Nat)
  | _, none => return none
  | 0, some _ => throw ()
  | n + 1, some p => do
    let cell ← read p
    let c ← alloc (copyShape cell.shape)
    let children ← (kept keeps none cell.shape cell.children).mapM (copy copyShape keeps n)
    write c ⟨copyShape cell.shape, children⟩
    return some c

end Copy

/-! ### Trees -/

section Trees
variable {S T : Type} (unfold : T → Option (S × List T))

/-- The pointer stands for the tree, in nodes from `lo` on. -/
inductive Stands (m : Memory S) (lo : Nat) : Option Nat → T → Prop
  | null {t} (h : unfold t = none) : Stands m lo none t
  | node {p c t ts} (hlo : lo ≤ p) (hcell : m[p]? = some c) (hunfold : unfold t = some (c.shape, ts))
      (hlength : c.children.length = ts.length) (hchildren : ∀ x ∈ c.children.zip ts, Stands m lo x.1 x.2) :
      Stands m lo (some p) t

/-- The nodes below a pointer. -/
inductive Reaches (m : Memory S) : Option Nat → Nat → Prop
  | root {p c} (hcell : m[p]? = some c) : Reaches m (some p) p
  | child {p c x r} (hcell : m[p]? = some c) (hx : x ∈ c.children) (h : Reaches m x r) : Reaches m (some p) r

variable {unfold} {m m' : Memory S} {lo lo' : Nat} {q : Option Nat} {t : T}

/-- Trees stay as long as their nodes do. -/
lemma Stands.mono (h : Stands unfold m lo q t) (hm : ∀ i c, lo ≤ i → m[i]? = some c → m'[i]? = some c)
    (hlo : lo' ≤ lo) : Stands unfold m' lo' q t := by
  induction h with
  | null h => exact .null h
  | node hp hcell hunfold hlength _ ih =>
    exact .node (hlo.trans hp) (hm _ _ hp hcell) hunfold hlength ih

lemma Stands.extend (h : Stands unfold m lo q t) (hm : m <+: m') : Stands unfold m' lo q t := by
  refine h.mono (fun i c _ hcell => ?_) le_rfl
  obtain ⟨rest, rfl⟩ := hm
  rwa [List.getElem?_append_left (List.getElem?_eq_some_iff.1 hcell).1]

lemma exists_mem_zip {α β : Type} {xs : List α} {ys : List β} (hlength : xs.length = ys.length) {x : α}
    (hx : x ∈ xs) : ∃ y, (x, y) ∈ xs.zip ys := by
  induction xs generalizing ys with
  | nil => cases hx
  | cons x' xs ih =>
    cases ys with
    | nil => simp at hlength
    | cons y ys =>
      rcases List.mem_cons.1 hx with rfl | hx
      · exact ⟨y, List.mem_cons_self⟩
      · obtain ⟨y', hy'⟩ := ih (by simpa using hlength) hx
        exact ⟨y', List.mem_cons_of_mem _ hy'⟩

/-- The nodes of a tree are from `lo` on. -/
lemma Stands.le_of_reaches (h : Stands unfold m lo q t) {r : Nat} (hr : Reaches m q r) : lo ≤ r := by
  induction h with
  | null h => cases hr
  | node hp hcell hunfold hlength _ ih =>
    cases hr with
    | root _ => exact hp
    | child hcell' hx hr =>
      obtain rfl := Option.some.inj (hcell.symm.trans hcell')
      obtain ⟨y, hy⟩ := exists_mem_zip hlength hx
      exact ih _ hy hr

/-- And those that it had before stay below what was allocated before. -/
lemma Stands.lt_of_reaches (h : Stands unfold m lo q t) (hm : m <+: m') {r : Nat} (hr : Reaches m' q r) :
    r < m.length := by
  induction h with
  | null h => cases hr
  | node hp hcell hunfold hlength _ ih =>
    cases hr with
    | root _ => exact (List.getElem?_eq_some_iff.1 hcell).1
    | child hcell' hx hr =>
      obtain ⟨rest, rfl⟩ := hm
      rw [List.getElem?_append_left (List.getElem?_eq_some_iff.1 hcell).1] at hcell'
      obtain rfl := Option.some.inj (hcell.symm.trans hcell')
      obtain ⟨y, hy⟩ := exists_mem_zip hlength hx
      exact ih _ hy hr

end Trees

/-! ### What a copy stands for -/

section Copies
variable {S T : Type} {unfold : T → Option (S × List T)} {copyShape : S → S} {keeps : S → Nat → Bool}
  {null : T} {clone : T → T} {m m' : Memory S} {lo : Nat} {q : Option Nat} {t : T}

/-- Any copy of the pointer, in a memory that has grown, stands for the tree, in nodes that are new. -/
def Copies (unfold : T → Option (S × List T)) (copyShape : S → S) (keeps : S → Nat → Bool) (m : Memory S)
    (q : Option Nat) (t : T) : Prop :=
  ∃ fuel, ∀ n, fuel ≤ n → ∀ m', m <+: m' → ∃ q' m'', copy copyShape keeps n q m' = .ok (q', m'') ∧
    m' <+: m'' ∧ Stands unfold m'' m'.length q' t

lemma copies_null (h : unfold t = none) : Copies unfold copyShape keeps m none t := by
  refine ⟨0, fun n _ m' _ => ⟨none, m', ?_, List.prefix_refl m', .null h⟩⟩
  cases n <;> rfl

lemma copies_list {ps : List (Option Nat)} {ts : List T} (hlength : ps.length = ts.length)
    (h : ∀ x ∈ ps.zip ts, Copies unfold copyShape keeps m x.1 x.2) :
    ∃ fuel, ∀ n, fuel ≤ n → ∀ m', m <+: m' → ∃ qs m'', ps.mapM (copy copyShape keeps n) m' = .ok (qs, m'') ∧
      m' <+: m'' ∧ qs.length = ts.length ∧ ∀ x ∈ qs.zip ts, Stands unfold m'' m'.length x.1 x.2 := by
  induction ps generalizing ts with
  | nil =>
    obtain rfl := List.length_eq_zero_iff.1 hlength.symm
    exact ⟨0, fun n _ m' _ => ⟨[], m', rfl, List.prefix_refl m', rfl, fun x hx => by cases hx⟩⟩
  | cons p ps ih =>
    obtain ⟨t, ts, rfl⟩ := List.exists_cons_of_length_pos (by rw [← hlength]; simp : 0 < ts.length)
    obtain ⟨fuel₁, hfirst⟩ := h (p, t) List.mem_cons_self
    obtain ⟨fuel₂, hrest⟩ := ih (by simpa using hlength) fun x hx => h x (List.mem_cons_of_mem _ hx)
    refine ⟨max fuel₁ fuel₂, fun n hn m' hm' => ?_⟩
    obtain ⟨q, m₁, hq, hm₁, hstands⟩ := hfirst n (by omega) m' hm'
    obtain ⟨qs, m₂, hqs, hm₂, hlen, hall⟩ := hrest n (by omega) m₁ (hm'.trans hm₁)
    refine ⟨q :: qs, m₂, ?_, hm₁.trans hm₂, by simpa using hlen, fun x hx => ?_⟩
    · rw [List.mapM_cons, bind_run hq, bind_run hqs]
      rfl
    · rcases List.mem_cons.1 hx with rfl | hx
      · exact hstands.extend hm₂
      · exact (hall x hx).mono (fun i c _ hc => hc) hm₁.length_le

/-- **A copy stands for what is copied of the tree, and shares no node with it.** -/
theorem copies (hnull : unfold null = none)
    (hclone : ∀ t, unfold (clone t) = (unfold t).map fun st =>
      (copyShape st.1, (kept keeps null st.1 st.2).map clone))
    (h : Stands unfold m lo q t) : Copies unfold copyShape keeps m q (clone t) := by
  induction h with
  | null h => exact copies_null (by rw [hclone, h]; rfl)
  | @node p c t ts hp hcell hunfold hlength _ ih =>
    have hkept : (kept keeps none c.shape c.children).length =
        ((kept keeps null c.shape ts).map clone).length := by
      simp [kept, hlength]
    have hchildren : ∀ x ∈ (kept keeps none c.shape c.children).zip
        ((kept keeps null c.shape ts).map clone), Copies unfold copyShape keeps m x.1 x.2 := by
      intro x hx
      obtain ⟨i, hi, rfl⟩ := List.getElem_of_mem hx
      have hlen : i < c.children.length ∧ i < ts.length := by
        simp [kept] at hi
        exact hi
      have hmem : (c.children[i], ts[i]) ∈ c.children.zip ts := by
        have hzip : i < (c.children.zip ts).length := by
          rw [List.length_zip]
          omega
        have hget := List.getElem_mem hzip
        rwa [List.getElem_zip] at hget
      simp only [kept, List.getElem_zip, List.getElem_mapIdx, List.getElem_map]
      split_ifs
      · exact ih _ hmem
      · exact copies_null (by rw [hclone, hnull]; rfl)
    obtain ⟨fuel, hfuel⟩ := copies_list hkept hchildren
    refine ⟨fuel + 1, fun n hn m' hm' => ?_⟩
    obtain ⟨k, rfl⟩ := Nat.exists_eq_add_of_le' (show 1 ≤ n by omega)
    have hcell' : m'[p]? = some c := by
      obtain ⟨rest, rfl⟩ := hm'
      rwa [List.getElem?_append_left (List.getElem?_eq_some_iff.1 hcell).1]
    obtain ⟨qs, m'', hrun, hm'', hlen, hall⟩ := hfuel k (by omega) (m' ++ [⟨copyShape c.shape, []⟩])
      (hm'.trans (List.prefix_append _ _))
    obtain ⟨rest, rfl⟩ := hm''
    have hset : ((m' ++ [(⟨copyShape c.shape, []⟩ : Cell S)]) ++ rest).set m'.length
        ⟨copyShape c.shape, qs⟩ = (m' ++ [⟨copyShape c.shape, qs⟩]) ++ rest := by
      simp
    have hnew : ((m' ++ [(⟨copyShape c.shape, qs⟩ : Cell S)]) ++ rest)[m'.length]? =
        some ⟨copyShape c.shape, qs⟩ := by
      simp
    refine ⟨some m'.length, (m' ++ [⟨copyShape c.shape, qs⟩]) ++ rest, ?_, ?_, ?_⟩
    · have hread : (read p : Alloc S (Cell S)) m' = .ok (c, m') := by
        unfold read
        rw [hcell']
      have halloc : alloc (copyShape c.shape) m' = .ok (m'.length, m' ++ [⟨copyShape c.shape, []⟩]) := rfl
      rw [copy, bind_run hread, bind_run halloc, bind_run hrun]
      exact congrArg (fun memory => Except.ok (some m'.length, memory)) hset
    · rw [List.append_assoc]
      exact List.prefix_append _ _
    · have hunfold' : unfold (clone t) = some (copyShape c.shape, (kept keeps null c.shape ts).map clone) := by
        rw [hclone, hunfold]
        rfl
      refine .node le_rfl hnew hunfold' hlen fun x hx => ?_
      refine (hall x hx).mono (fun i d hi hd => ?_) (by simp)
      have hi' : m'.length + 1 ≤ i := by simpa using hi
      rw [← hset, List.getElem?_set_ne (by omega)]
      exact hd

end Copies

end Two09.Lib.Arena
