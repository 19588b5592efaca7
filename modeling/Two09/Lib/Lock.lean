import Two09.Lib.Prog

/-!
# Transactions under a lock

A program that takes a lock, works on a part of the state while it holds it and gives it back is a
transaction on that part. Two such programs side by side come to what the two transactions come to,
one after the other.
-/

namespace Two09.Lib.Prog

variable {σ τ ι κ α β : Type}

/-! ### What each side finds -/

/-- The turns of a race in which a program acts, with the state it finds there. -/
def turns : List Side → Prog σ ι α → Prog σ κ β → σ → List (Side × σ)
  | [], _, _, _ => []
  | .left :: sched, ret a, q, s => turns sched (ret a) q s
  | .left :: sched, act _ f k, q, s => (.left, s) :: turns sched (k s) q (f s)
  | .right :: sched, p, ret b, s => turns sched p (ret b) s
  | .right :: sched, p, act _ f k, s => (.right, s) :: turns sched p (k s) (f s)

/-- The states one side finds at its turns. -/
def found (side : Side) (ts : List (Side × σ)) : List σ :=
  ts.filterMap fun t => if t.1 = side then some t.2 else none

@[simp] lemma found_nil (side : Side) : found side ([] : List (Side × σ)) = [] := rfl

@[simp] lemma found_cons (side : Side) (t : Side × σ) (ts : List (Side × σ)) :
    found side (t :: ts) = if t.1 = side then t.2 :: found side ts else found side ts := by
  unfold found
  by_cases h : t.1 = side
  · rw [List.filterMap_cons_some (b := t.2) (by simp [h]), if_pos h]
  · rw [List.filterMap_cons_none (by simp [h]), if_neg h]

/-- The other side. -/
def Side.swap : Side → Side
  | .left => .right
  | .right => .left

lemma race_swap (sched : List Side) (p : Prog σ ι α) (q : Prog σ κ β) (s : σ) :
    race (sched.map Side.swap) q p s =
      ((race sched p q s).2.1, (race sched p q s).1, (race sched p q s).2.2) := by
  induction sched generalizing p q s with
  | nil => rfl
  | cons side sched ih =>
    cases side with
    | left => cases p <;> exact ih _ _ _
    | right => cases q <;> exact ih _ _ _

lemma turns_swap (sched : List Side) (p : Prog σ ι α) (q : Prog σ κ β) (s : σ) :
    turns (sched.map Side.swap) q p s = (turns sched p q s).map fun t => (t.1.swap, t.2) := by
  induction sched generalizing p q s with
  | nil => rfl
  | cons side sched ih =>
    cases side with
    | left =>
      cases p with
      | ret a => exact ih _ _ _
      | act i f k => exact congrArg (List.cons (Side.right, s)) (ih _ _ _)
    | right =>
      cases q with
      | ret b => exact ih _ _ _
      | act i f k => exact congrArg (List.cons (Side.left, s)) (ih _ _ _)

lemma found_swap (side : Side) (ts : List (Side × σ)) :
    found side.swap (ts.map fun t => (t.1.swap, t.2)) = found side ts := by
  have hswap : ∀ a b : Side, a.swap = b.swap ↔ a = b := by
    intro a b
    cases a <;> cases b <;> simp [Side.swap]
  induction ts with
  | nil => rfl
  | cons t ts ih => simp only [List.map_cons, found_cons, hswap, ih]

/-- A program that has returned stays as it is. -/
lemma race_ret_right (sched : List Side) (p : Prog σ ι α) (b : β) (s : σ) :
    (race sched p (ret b : Prog σ κ β) s).2.1 = ret b := by
  induction sched generalizing p s with
  | nil => rfl
  | cons side sched ih =>
    cases side with
    | left => cases p <;> exact ih _ _
    | right => exact ih _ _

lemma race_ret_left (sched : List Side) (a : α) (q : Prog σ κ β) (s : σ) :
    (race sched (ret a : Prog σ ι α) q s).1 = ret a := by
  induction sched generalizing q s with
  | nil => rfl
  | cons side sched ih =>
    cases side with
    | left => exact ih _ _
    | right => cases q <;> exact ih _ _

lemma race_ret_ret (sched : List Side) (a : α) (b : β) (s : σ) :
    race sched (ret a : Prog σ ι α) (ret b : Prog σ κ β) s = (ret a, ret b, s) := by
  induction sched with
  | nil => rfl
  | cons side sched ih => cases side <;> exact ih

/-! ### Transactions -/

/-- Both programs have returned that they succeeded. -/
def Succeed (r : Prog σ ι Bool × Prog σ κ Bool × σ) : Prop :=
  r.1.result? = some true ∧ r.2.1.result? = some true

section
variable (get : σ → τ) (held : τ → Bool)

/-- A program that leaves a part of the state alone, whatever it finds, and whose result is in
`Q`. -/
inductive Quiet (Q : α → Prop) : Prog σ ι α → Prop
  | ret {a} : Q a → Quiet Q (ret a)
  | act {i f k} : (∀ s, get (f s) = get s) → (∀ s, Quiet Q (k s)) → Quiet Q (act i f k)

/-- A program that holds the lock on a part of the state, where it finds `t`: what it does depends on
that part only, up to its last act, with which it gives the lock back and leaves `t'`. -/
inductive Inside (b : Bool) (t' : τ) : Prog σ ι Bool → τ → Prop
  | last {i f k t} : held t = true → held t' = false → (∀ s, get s = t → get (f s) = t') →
      (∀ s, get s = t → k s = ret b) → Inside b t' (act i f k) t
  | more {i f k t t₁} : held t = true → (∀ s, get s = t → get (f s) = t₁) →
      (∀ s, get s = t → Inside b t' (k s) t₁) → Inside b t' (act i f k) t

/-- A program before it takes the lock, when it has found the states `ws` at its acts so far. If it
succeeds, then as the transaction `R` from the state in which it takes the lock; `R` may depend on
what the program had found up to there. -/
inductive Outside (R : List σ → τ → τ → Prop) : List σ → Prog σ ι Bool → Prop
  | fail {ws} : Outside R ws (ret false)
  | wait {ws i f k} : (∀ s, get (f s) = get s) → (∀ s, Outside R (ws ++ [s]) (k s)) →
      Outside R ws (act i f k)
  | lock {ws i f k} : (∀ s, held (get s) = true → get (f s) = get s ∧ k s = ret false) →
      (∀ s, held (get s) = false → ∃ b t', Inside get held b t' (k s) (get (f s)) ∧
        (b = true → ∀ rest, R (ws ++ s :: rest) (get s) t')) →
      Outside R ws (act i f k)

end

section
variable {get : σ → τ} {held : τ → Bool} {R : List σ → τ → τ → Prop} {Q : List σ → τ → τ → Prop}
  {P : α → Prop} {P' : β → Prop} {p : Prog σ ι Bool} {q : Prog σ κ Bool} {s : σ} {t t' : τ} {b : Bool}
  {ws vs : List σ}

lemma Quiet.bind {p : Prog σ ι α} {c : α → Prog σ ι β} (hp : Quiet get P p)
    (hc : ∀ a, P a → Quiet get P' (c a)) : Quiet get P' (p.bind c) := by
  induction hp with
  | ret h => exact hc _ h
  | act hf _ ih => exact .act hf ih

lemma Quiet.step {i : ι} {f : σ → σ} {r : σ → α} (hf : ∀ s, get (f s) = get s)
    (hr : ∀ s, P (r s)) : Quiet get P (step i f r) := .act hf fun s => .ret (hr s)

lemma Quiet.forEach {f : β → Prog σ ι Unit} (hf : ∀ b, Quiet get (fun _ => True) (f b))
    (bs : List β) : Quiet get (fun _ => True) (forEach f bs) := by
  induction bs with
  | nil => exact .ret trivial
  | cons b bs ih => exact (hf b).bind fun _ _ => ih

/-- Before the lock comes whatever leaves its part of the state alone. -/
lemma Outside.of_quiet {p : Prog σ ι α} {c : α → Prog σ ι Bool} (hp : Quiet get P p)
    (hc : ∀ a, P a → ∀ ws, Outside get held R ws (c a)) (ws : List σ) :
    Outside get held R ws (p.bind c) := by
  induction hp generalizing ws with
  | ret h => exact hc _ h ws
  | act hf _ ih => exact .wait hf fun s => ih s _

/-- **A lifted program that ends with giving the lock back** runs as if it were alone. -/
lemma inside_lift {set : τ → σ → σ} (hget : ∀ t s, get (set t s) = t) {r : Prog τ κ α}
    (hr : r.All fun _ f => ∀ t, held (f t) = held t) {label : κ → ι} {i : ι} {g : σ → σ} (g' : τ → τ)
    (hg : ∀ s, get (g s) = g' (get s)) (hfree : ∀ t, held (g' t) = false) (ok : α → Bool)
    (ht : held t = true) :
    Inside get held (ok (r.run t).1) (g' (r.run t).2)
      ((r.lift get set label).bind fun a => (modify i g).bind fun _ => .ret (ok a)) t := by
  induction hr generalizing t with
  | ret =>
    refine .last ht (hfree _) (fun s hs => ?_) fun _ _ => rfl
    rw [hg, hs]
    rfl
  | act hf _ ih =>
    refine .more ht (fun s hs => (hget _ s).trans (congrArg _ hs)) fun s hs => ?_
    subst hs
    exact ih _ ((hf _).trans ht)

/-! ### Two transactions -/

lemma not_succeed_ret_false {sched : List Side} {p : Prog σ ι Bool} :
    ¬ Succeed (race sched p (ret false : Prog σ κ Bool) s) := by
  rintro ⟨-, h⟩
  rw [race_ret_right] at h
  cases h

/-- Inside, with the other program gone. -/
lemma Inside.alone {a : Bool} {sched : List Side} (hq : Inside get held b t' q t) (hs : get s = t)
    (hend : Succeed (race sched (ret a : Prog σ ι Bool) q s)) :
    b = true ∧ get (race sched (ret a : Prog σ ι Bool) q s).2.2 = t' := by
  induction sched generalizing q s t with
  | nil => cases hq <;> cases hend.2
  | cons side sched ih =>
    cases side with
    | left => exact ih hq hs hend
    | right =>
      cases hq with
      | last _ _ hf hk =>
        simp only [race, hk s hs, race_ret_ret] at hend ⊢
        exact ⟨by simpa [result?] using hend.2, hf s hs⟩
      | more _ hf hk => exact ih (hk s hs) (hf s hs) hend

/-- Outside, with the other program gone. -/
lemma Outside.alone {a : Bool} {sched : List Side} (hq : Outside get held Q vs q)
    (hend : Succeed (race sched (ret a : Prog σ ι Bool) q s)) :
    Q (vs ++ found .right (turns sched (ret a : Prog σ ι Bool) q s)) (get s)
      (get (race sched (ret a : Prog σ ι Bool) q s).2.2) := by
  induction sched generalizing q s vs with
  | nil =>
    cases hq with
    | fail => cases hend.2
    | wait => cases hend.2
    | lock => cases hend.2
  | cons side sched ih =>
    cases side with
    | left => exact ih hq hend
    | right =>
      cases hq with
      | fail => exact absurd hend not_succeed_ret_false
      | wait hf hk =>
        have h := ih (hk s) hend
        rw [hf s, List.append_assoc] at h
        exact h
      | lock hbusy hfree =>
        cases hheld : held (get s) with
        | true =>
          rw [race, (hbusy s hheld).2] at hend
          exact absurd hend not_succeed_ret_false
        | false =>
          obtain ⟨b, t', hin, hR⟩ := hfree s hheld
          obtain ⟨hb, hget⟩ := hin.alone rfl hend
          rw [race, hget]
          exact hR hb _

/-- While one program holds the lock, the other does not get it: it comes after. -/
lemma Inside.outside {sched : List Side} (hp : Inside get held b t' p t)
    (hq : Outside get held Q vs q) (hs : get s = t) (hend : Succeed (race sched p q s)) :
    b = true ∧ Q (vs ++ found .right (turns sched p q s)) t' (get (race sched p q s).2.2) := by
  induction sched generalizing p q s t vs with
  | nil => cases hp <;> cases hend.1
  | cons side sched ih =>
    cases side with
    | left =>
      cases hp with
      | last _ _ hf hk =>
        simp only [race, turns, hk s hs, found_cons] at hend ⊢
        have hb := hend.1
        rw [race_ret_left] at hb
        have h := hq.alone hend
        rw [hf s hs] at h
        exact ⟨by simpa [result?] using hb, h⟩
      | more _ hf hk => exact ih (hk s hs) hq (hf s hs) hend
    | right =>
      have hheld : held (get s) = true := by
        subst hs
        cases hp with
        | last h => exact h
        | more h => exact h
      cases hq with
      | fail => exact absurd hend not_succeed_ret_false
      | wait hf hk =>
        obtain ⟨hb, h⟩ := ih hp (hk s) ((hf s).trans hs) hend
        rw [List.append_assoc] at h
        exact ⟨hb, h⟩
      | lock hbusy _ =>
        rw [race, (hbusy s hheld).2] at hend
        exact absurd hend not_succeed_ret_false

/-- The two transactions one after the other, the left one first. -/
def InOrder (get : σ → τ) (R Q : List σ → τ → τ → Prop) (ws vs : List σ) (s s' : σ) : Prop :=
  ∃ t, R ws (get s) t ∧ Q vs t (get s')

/-- **Two programs that both succeed** come to what their transactions come to, in one of the two
orders. -/
theorem serializable {sched : List Side} (hp : Outside get held R ws p) (hq : Outside get held Q vs q)
    (hend : Succeed (race sched p q s)) :
    InOrder get R Q (ws ++ found .left (turns sched p q s)) (vs ++ found .right (turns sched p q s))
        s (race sched p q s).2.2 ∨
      InOrder get Q R (vs ++ found .right (turns sched p q s))
        (ws ++ found .left (turns sched p q s)) s (race sched p q s).2.2 := by
  induction sched generalizing p q s ws vs with
  | nil =>
    cases hp with
    | fail => cases hend.1
    | wait => cases hend.1
    | lock => cases hend.1
  | cons side sched ih =>
    cases side with
    | left =>
      cases hp with
      | fail =>
        have h := hend.1
        rw [race_ret_left] at h
        cases h
      | wait hf hk =>
        have h := ih (hk s) hq hend
        simp only [InOrder, hf s, List.append_assoc] at h
        exact h
      | lock hbusy hfree =>
        cases hheld : held (get s) with
        | true =>
          have h := hend.1
          rw [race, (hbusy s hheld).2, race_ret_left] at h
          cases h
        | false =>
          obtain ⟨b, t', hin, hR⟩ := hfree s hheld
          obtain ⟨hb, h⟩ := hin.outside hq rfl hend
          exact .inl ⟨t', hR hb _, h⟩
    | right =>
      cases hq with
      | fail => exact absurd hend not_succeed_ret_false
      | wait hf hk =>
        have h := ih hp (hk s) hend
        simp only [InOrder, hf s, List.append_assoc] at h
        exact h
      | @lock vs i f k hbusy hfree =>
        cases hheld : held (get s) with
        | true =>
          rw [race, (hbusy s hheld).2] at hend
          exact absurd hend not_succeed_ret_false
        | false =>
          obtain ⟨b, t', hin, hR⟩ := hfree s hheld
          -- seen from the other side, the program on the right is the one inside
          have hswap := race_swap sched p (k s) (f s)
          have hend' : Succeed (race (sched.map Side.swap) (k s) p (f s)) := by
            rw [hswap]
            exact ⟨hend.2, hend.1⟩
          obtain ⟨hb, h⟩ := hin.outside hp rfl hend'
          rw [turns_swap, show Side.right = Side.left.swap from rfl, found_swap, hswap] at h
          exact .inr ⟨t', hR hb _, h⟩

end

end Two09.Lib.Prog
