import Mathlib

/-!
# Programs of atomic acts

A program over a shared state is a sequence of labelled atomic acts, each of which changes the
state and lets what follows depend on the state it found. The same program can be run to its end,
cut off after any act, or interleaved with another one.
-/

namespace Two09.Lib

/-- A program over the state `σ` with acts labelled in `ι` and a result in `α`. -/
inductive Prog (σ ι α : Type) where
  | ret (a : α)
  | act (i : ι) (f : σ → σ) (k : σ → Prog σ ι α)

namespace Prog

variable {σ τ ι κ α β : Type}

/-- Sequential composition. -/
def bind : Prog σ ι α → (α → Prog σ ι β) → Prog σ ι β
  | ret a, c => c a
  | act i f k, c => act i f fun s => (k s).bind c

/-- A single act whose result is computed from the state it found. -/
def step (i : ι) (f : σ → σ) (r : σ → α) : Prog σ ι α := act i f fun s => ret (r s)

/-- Reads the state. -/
def read (i : ι) (r : σ → α) : Prog σ ι α := step i id r

/-- Changes the state. -/
def modify (i : ι) (f : σ → σ) : Prog σ ι Unit := step i f fun _ => ()

/-- Runs a program for each element of a list. -/
def forEach (f : β → Prog σ ι Unit) : List β → Prog σ ι Unit
  | [] => ret ()
  | b :: bs => (f b).bind fun _ => forEach f bs

/-- A program over a part of the state. -/
def lift (get : τ → σ) (set : σ → τ → τ) (label : ι → κ) : Prog σ ι α → Prog τ κ α
  | ret a => ret a
  | act i f k => act (label i) (fun t => set (f (get t)) t) fun t => lift get set label (k (get t))

/-- Runs a program without interruption. -/
def run : Prog σ ι α → σ → α × σ
  | ret a, s => (a, s)
  | act _ f k, s => (k s).run (f s)

/-- The state after the first acts of a program, with their labels. -/
inductive Reaches : Prog σ ι α → σ → List ι → σ → Prop
  | start {p s} : Reaches p s [] s
  | act {i f k s ls s'} : Reaches (k s) (f s) ls s' → Reaches (act i f k) s (i :: ls) s'

/-- Every act of the program satisfies `P`. -/
inductive All (P : ι → (σ → σ) → Prop) : Prog σ ι α → Prop
  | ret {a} : All P (ret a)
  | act {i f k} : P i f → (∀ s, All P (k s)) → All P (act i f k)

section
variable {p : Prog σ ι α} {c : α → Prog σ ι β} {i : ι} {f : σ → σ} {k : σ → Prog σ ι α}
  {s s' : σ} {ls : List ι} {a : α}

@[simp] lemma bind_ret (c : α → Prog σ ι β) : (ret a : Prog σ ι α).bind c = c a := rfl

@[simp] lemma bind_act (c : α → Prog σ ι β) :
    (act i f k).bind c = act i f fun s => (k s).bind c := rfl

@[simp] lemma run_ret : (ret a : Prog σ ι α).run s = (a, s) := rfl

@[simp] lemma run_act : (act i f k).run s = (k s).run (f s) := rfl

@[simp] lemma run_step (r : σ → α) : (step i f r).run s = (r s, f s) := rfl

@[simp] lemma run_read (r : σ → α) : (read i r : Prog σ ι α).run s = (r s, s) := rfl

@[simp] lemma run_modify : (modify i f).run s = ((), f s) := rfl

@[simp] lemma run_bind (p : Prog σ ι α) (c : α → Prog σ ι β) (s : σ) :
    (p.bind c).run s = (c (p.run s).1).run (p.run s).2 := by
  induction p generalizing s with
  | ret a => rfl
  | act i f k ih => exact ih s (f s)

lemma run_forEach (f : β → Prog σ ι Unit) (bs : List β) (s : σ) :
    (forEach f bs).run s = ((), bs.foldl (fun s b => ((f b).run s).2) s) := by
  induction bs generalizing s with
  | nil => rfl
  | cons b bs ih => rw [forEach, run_bind, ih, List.foldl_cons]

lemma run_lift (get : τ → σ) (set : σ → τ → τ) (hget : ∀ s t, get (set s t) = s)
    (hset : ∀ s s' t, set s' (set s t) = set s' t) (hself : ∀ t, set (get t) t = t)
    (label : ι → κ) (p : Prog σ ι α) (t : τ) :
    (p.lift get set label).run t = ((p.run (get t)).1, set (p.run (get t)).2 t) := by
  induction p generalizing t with
  | ret a => exact congrArg (Prod.mk a) (hself t).symm
  | act i f k ih =>
    rw [lift, run_act, ih, hget, hset]
    rfl

/-- A program that returns at once is never anywhere but at its start. -/
@[simp] lemma reaches_ret : Reaches (ret a : Prog σ ι α) s ls s' ↔ ls = [] ∧ s' = s := by
  constructor
  · intro h
    cases h
    exact ⟨rfl, rfl⟩
  · rintro ⟨rfl, rfl⟩
    exact .start

/-- Where a program can be after some of its acts: at its start, or past the first one. -/
lemma reaches_act :
    Reaches (act i f k) s ls s' ↔
      (ls = [] ∧ s' = s) ∨ ∃ ls', ls = i :: ls' ∧ Reaches (k s) (f s) ls' s' := by
  constructor
  · intro h
    cases h with
    | start => exact .inl ⟨rfl, rfl⟩
    | act h => exact .inr ⟨_, rfl, h⟩
  · rintro (⟨rfl, rfl⟩ | ⟨ls', rfl, h⟩)
    · exact .start
    · exact .act h

/-! ### Composition -/

/-- The labels of a whole run. -/
def labels : Prog σ ι α → σ → List ι
  | ret _, _ => []
  | act i f k, s => i :: (k s).labels (f s)

/-- **Somewhere in a composition** is somewhere in its first part or, after all of that, somewhere
in the second. -/
lemma Reaches.of_bind (h : Reaches (p.bind c) s ls s') :
    Reaches p s ls s' ∨
      ∃ ls', ls = p.labels s ++ ls' ∧ Reaches (c (p.run s).1) (p.run s).2 ls' s' := by
  induction p generalizing s ls with
  | ret a => exact .inr ⟨ls, rfl, h⟩
  | act i f k ih =>
    rw [bind_act, reaches_act] at h
    rcases h with ⟨rfl, rfl⟩ | ⟨ls', rfl, h⟩
    · exact .inl .start
    · rcases ih s h with h' | ⟨ls'', rfl, h'⟩
      · exact .inl (.act h')
      · exact .inr ⟨ls'', rfl, h'⟩

/-- And somewhere in the second part, behind all of the first, is somewhere in the composition. -/
lemma Reaches.bind (h : Reaches (c (p.run s).1) (p.run s).2 ls s') : Reaches (p.bind c) s (p.labels s ++ ls) s' := by
  induction p generalizing s with
  | ret a => exact h
  | act i f k ih => exact .act (ih s h)

/-- The end of a run is one of the points the program reaches. -/
lemma reaches_run (p : Prog σ ι α) (s : σ) : Reaches p s (p.labels s) (p.run s).2 := by
  induction p generalizing s with
  | ret a => exact .start
  | act i f k ih => exact .act (ih s (f s))

/-- Computing a result takes no act. -/
lemma Reaches.of_bind_ret {g : α → β} (h : Reaches (p.bind fun a => ret (g a)) s ls s') :
    Reaches p s ls s' := by
  rcases h.of_bind with h₁ | ⟨ls', rfl, h₁⟩
  · exact h₁
  · obtain ⟨rfl, rfl⟩ := reaches_ret.1 h₁
    rw [List.append_nil]
    exact reaches_run p s

/-! ### Postconditions -/

/-- What holds of the result and the state when the program has run. -/
def Ensures (p : Prog σ ι α) (s : σ) (Q : α → σ → Prop) : Prop := Q (p.run s).1 (p.run s).2

section Ensures
variable {Q : α → σ → Prop} {R : β → σ → Prop}

@[simp] lemma ensures_ret : (ret a : Prog σ ι α).Ensures s Q ↔ Q a s := Iff.rfl

@[simp] lemma ensures_step {r : σ → α} : (step i f r).Ensures s Q ↔ Q (r s) (f s) := Iff.rfl

@[simp] lemma ensures_read {r : σ → α} : (read i r : Prog σ ι α).Ensures s Q ↔ Q (r s) s := Iff.rfl

@[simp] lemma ensures_modify {Q : Unit → σ → Prop} : (modify i f).Ensures s Q ↔ Q () (f s) := Iff.rfl

@[simp] lemma ensures_bind :
    (p.bind c).Ensures s R ↔ p.Ensures s fun a t => (c a).Ensures t R := by
  simp only [Ensures, run_bind]

lemma Ensures.mono {Q' : α → σ → Prop} (h : p.Ensures s Q) (hQ : ∀ a t, Q a t → Q' a t) :
    p.Ensures s Q' := hQ _ _ h

lemma ensures_forEach_iff {f : β → Prog σ ι Unit} {bs : List β} {Q : Unit → σ → Prop} :
    (forEach f bs).Ensures s Q ↔ Q () (bs.foldl (fun s b => ((f b).run s).2) s) := by
  rw [Ensures, run_forEach]

/-- A relation that each round keeps is kept by all. -/
lemma ensures_forEach {f : β → Prog σ ι Unit} {bs : List β} {I : σ → Prop}
    (hf : ∀ b ∈ bs, ∀ t, I t → (f b).Ensures t fun _ => I) (hs : I s) :
    (forEach f bs).Ensures s fun _ => I := by
  induction bs generalizing s with
  | nil => exact hs
  | cons b bs ih =>
    rw [forEach, ensures_bind]
    exact (hf b List.mem_cons_self s hs).mono fun _ t ht =>
      ih (fun b hb => hf b (List.mem_cons_of_mem _ hb)) ht

end Ensures

/-! ### Two programs side by side -/

/-- What a program that has returned came to. -/
def result? : Prog σ ι α → Option α
  | ret a => some a
  | act _ _ _ => none

lemma result?_eq_some {p : Prog σ ι α} {a : α} : p.result? = some a ↔ p = ret a := by
  cases p <;> simp [result?]

/-- The program whose turn it is. -/
inductive Side
  | left
  | right
  deriving DecidableEq, Repr

/-- Two programs side by side, each act where the schedule puts it. A turn of a program that has
returned passes. -/
def race : List Side → Prog σ ι α → Prog σ κ β → σ → Prog σ ι α × Prog σ κ β × σ
  | [], p, q, s => (p, q, s)
  | .left :: sched, ret a, q, s => race sched (ret a) q s
  | .left :: sched, act _ f k, q, s => race sched (k s) q (f s)
  | .right :: sched, p, ret b, s => race sched p (ret b) s
  | .right :: sched, p, act _ f k, s => race sched p (k s) (f s)

lemma race_append (s₁ s₂ : List Side) (p : Prog σ ι α) (q : Prog σ κ β) (s : σ) :
    race (s₁ ++ s₂) p q s =
      race s₂ (race s₁ p q s).1 (race s₁ p q s).2.1 (race s₁ p q s).2.2 := by
  induction s₁ generalizing p q s with
  | nil => rfl
  | cons side s₁ ih =>
    cases side with
    | left => cases p <;> exact ih _ _ _
    | right => cases q <;> exact ih _ _ _

/-- Turns of the left program do not change what it comes to. -/
lemma race_left (n : ℕ) (p : Prog σ ι α) (q : Prog σ κ β) (s : σ) :
    (race (List.replicate n .left) p q s).2.1 = q ∧
      (race (List.replicate n .left) p q s).1.run (race (List.replicate n .left) p q s).2.2 =
        p.run s := by
  induction n generalizing p s with
  | zero => exact ⟨rfl, rfl⟩
  | succ n ih => cases p <;> exact ih _ _

lemma race_right (n : ℕ) (p : Prog σ ι α) (q : Prog σ κ β) (s : σ) :
    (race (List.replicate n .right) p q s).1 = p ∧
      (race (List.replicate n .right) p q s).2.1.run (race (List.replicate n .right) p q s).2.2 =
        q.run s := by
  induction n generalizing q s with
  | zero => exact ⟨rfl, rfl⟩
  | succ n ih => cases q <;> exact ih _ _

/-- **One program after the other** is what a schedule comes to that gives each of them its turns in
one go. -/
lemma race_left_right {n m : ℕ} {p : Prog σ ι α} {q : Prog σ κ β} {s : σ} {b : β}
    (hp : (race (List.replicate n .left ++ List.replicate m .right) p q s).1.result?.isSome = true)
    (hq : (race (List.replicate n .left ++ List.replicate m .right) p q s).2.1.result? = some b) :
    q.run (p.run s).2 =
      (b, (race (List.replicate n .left ++ List.replicate m .right) p q s).2.2) := by
  obtain ⟨hq₁, hp₁⟩ := race_left n p q s
  rw [race_append] at hp hq ⊢
  generalize race (List.replicate n .left) p q s = r at hp hq hq₁ hp₁ ⊢
  obtain ⟨p₁, q₁, s₁⟩ := r
  obtain rfl : q₁ = q := hq₁
  obtain ⟨hp₂, hq₂⟩ := race_right m p₁ q₁ s₁
  obtain ⟨a, ha⟩ := Option.isSome_iff_exists.1 hp
  obtain rfl : p₁ = ret a := hp₂.symm.trans (result?_eq_some.1 ha)
  rw [result?_eq_some.1 hq, run_ret] at hq₂
  have hs : s₁ = (p.run s).2 := congrArg Prod.snd hp₁
  rw [← hs, hq₂]

lemma race_right_left {n m : ℕ} {p : Prog σ ι α} {q : Prog σ κ β} {s : σ} {b : β}
    (hp : (race (List.replicate n .right ++ List.replicate m .left) p q s).1.result?.isSome = true)
    (hq : (race (List.replicate n .right ++ List.replicate m .left) p q s).2.1.result? = some b) :
    (q.run s).1 = b ∧ (p.run (q.run s).2).2 =
      (race (List.replicate n .right ++ List.replicate m .left) p q s).2.2 := by
  obtain ⟨hp₁, hq₁⟩ := race_right n p q s
  rw [race_append] at hp hq ⊢
  generalize race (List.replicate n .right) p q s = r at hp hq hp₁ hq₁ ⊢
  obtain ⟨p₁, q₁, s₁⟩ := r
  obtain rfl : p₁ = p := hp₁
  obtain ⟨hq₂, hp₂⟩ := race_left m p₁ q₁ s₁
  obtain ⟨a, ha⟩ := Option.isSome_iff_exists.1 hp
  obtain rfl : q₁ = ret b := hq₂.symm.trans (result?_eq_some.1 hq)
  rw [result?_eq_some.1 ha, run_ret] at hp₂
  have hs : s₁ = (q.run s).2 := congrArg Prod.snd hq₁
  have hend := congrArg Prod.snd hp₂
  rw [hs] at hend
  exact ⟨(congrArg Prod.fst hq₁).symm, by rw [← hend, hs]⟩

/-! ### What all acts have in common -/

variable {P Q : ι → (σ → σ) → Prop}

lemma All.bind (hp : All P p) (hc : ∀ a, All P (c a)) : All P (p.bind c) := by
  induction hp with
  | ret => exact hc _
  | act hact _ ih => exact .act hact ih

lemma All.mono (hp : All P p) (h : ∀ i f, P i f → Q i f) : All Q p := by
  induction hp with
  | ret => exact .ret
  | act hact _ ih => exact .act (h _ _ hact) ih

/-- The labels passed are those of acts of the program. -/
lemma All.labels_of_reaches (hp : All P p) (h : Reaches p s ls s') : ∀ i ∈ ls, ∃ f, P i f := by
  induction h with
  | start => simp
  | act _ ih =>
    cases hp with
    | act hact hk =>
      intro i hi
      rcases List.mem_cons.1 hi with rfl | hi
      · exact ⟨_, hact⟩
      · exact ih (hk _) i hi

/-- A relation that every act steps along holds between the start and any later point. -/
lemma All.rel_of_reaches {R : σ → σ → Prop} (hp : All P p) (hrefl : ∀ s, R s s)
    (htrans : ∀ s t u, R s t → R t u → R s u) (hR : ∀ i f, P i f → ∀ s, R s (f s))
    (h : Reaches p s ls s') : R s s' := by
  induction h with
  | start => exact hrefl _
  | act _ ih =>
    cases hp with
    | act hact hk => exact htrans _ _ _ (hR _ _ hact _) (ih (hk _))

end

end Prog

end Two09.Lib
