import Two09.Nix.Files

/-!
# Selections with a default

`e.a₁…aₙ or d` beside `e.a₁…aₙ`. Only the last selection has the default. It does not force the object, as a
selection does, and it frees the object before the default is evaluated.
-/

namespace Two09.Nix

open Two09.Lib

/-- `e.a₁…aₙ` -/
def selects (e : Ast) (path : List Bytes) : Ast := path.foldl .select e

lemma selects_append (e : Ast) (path : List Bytes) (attr : Bytes) (after : List Bytes) :
    selects e (path ++ attr :: after) = selects (.select (selects e path) attr) after := List.foldl_append

/-! ### Parsing -/

section Parsing
variable {select : Parse Ast} {base d : Ast} {p q' : Parser} {n : Nat} {attr : Bytes} {rest : List Token}

/-- The tokens of `.a₁…aₙ`. -/
def dotTokens (path : List Bytes) : List Token := path.flatMap fun attr => [.dot, .ident attr]

/-- **The last selection has the default**, and the others are selections. -/
lemma parseAttrs_orDefault {path : List Bytes} (hp : p.Sees (dotTokens path ++ .dot :: .ident attr :: .kwOr :: rest))
    (hn : path.length + 1 < n) (hselect : ∀ q : Parser, q.Sees rest → select q = .ok (d, q')) (hq' : q'.cur ≠ .dot) :
    parseAttrs select n base p = .ok (.orDefault (selects base path) attr d, q') := by
  induction path generalizing base p n with
  | nil =>
    obtain ⟨n, rfl⟩ := Nat.exists_eq_add_of_le' hn
    have hsees : p.Sees (.dot :: .ident attr :: .kwOr :: rest) := hp
    have hor : p.next.next.cur = .kwOr := cur_of_sees hsees.next.next
    unfold parseAttrs
    rw [get_run, if_pos (cur_of_sees hsees), advance_run, get_run]
    simp only [cur_of_sees hsees.next]
    rw [advance_run, get_run, if_pos hor, advance_run, bind_run (hselect _ hsees.next.next.next)]
    exact parseAttrs_stop hq'
  | cons a path ih =>
    obtain ⟨n, rfl⟩ := Nat.exists_eq_add_of_le' (Nat.zero_lt_of_lt hn)
    have hsees : p.Sees (.dot :: .ident a :: (dotTokens path ++ .dot :: .ident attr :: .kwOr :: rest)) := hp
    have hor : p.next.next.cur ≠ .kwOr := by
      rw [hsees.next.next.cur]
      cases path <;> exact Token.noConfusion
    rw [parseAttrs_attr (cur_of_sees hsees) (cur_of_sees hsees.next) hor]
    exact ih hsees.next.next (by simpa using hn)

end Parsing

/-! ### What is there and what is missing -/

/-- A value without such an attribute. -/
def Lacks (attr : Bytes) : Val → Prop
  | .attrSet entries => find entries attr = none
  | _ => True

/-- The heap where the value is freed. -/
def Heap.without (h : Heap) (p : Ptr) : Heap := { h with values := h.values.set p none }

/-- The expression evaluates to a value, which is this tree. -/
def Evaluates (eval : Evaluator) (env : EnvPtr) (h : Heap) (expr : Ast) (t : Tree) : Prop :=
  ∃ p h' k h'', eval env expr h = .ok (some p, h') ∧ toTree k (some p) h' = .ok (t, h'')

/-- The expression gives the object `p` and leaves `h₁`; forcing it, which leaves `h₂`, gives a value without
such an attribute. -/
def Misses (eval : Evaluator) (env : EnvPtr) (h : Heap) (expr : Ast) (attr : Bytes) (h₁ : Heap) (p : Ptr)
    (h₂ : Heap) : Prop :=
  eval env expr h = .ok (some p, h₁) ∧
    ∃ o v, force eval env p h₁ = .ok (some o, h₂) ∧ h₂.Holds o v ∧ Lacks attr v

section OrDefault
variable (call : Builtins) (n : Nat) (env : EnvPtr) (h : Heap) (e : Ast) (path : List Bytes) (attr : Bytes)

/-- `e.a₁…aₙ or d`, where `path` is all but the last attribute: the value of `e.a₁…aₙ` when it has one, and
that of `d` when an attribute is missing. -/
structure OrDefault (d : Ast) : Prop where
  present : ∀ p h', nixEval call (n + 2) env (selects e (path ++ [attr])) h = .ok (some p, h') →
    nixEval call (n + 2) env (.orDefault (selects e path) attr d) h = .ok (some p, h')
  missing : ∀ before a after, path ++ [attr] = before ++ a :: after → ∀ h₁ p h₂,
    Misses (nixEval call (n + 1 - after.length)) env h (selects e before) a h₁ p h₂ →
    ∀ t, Evaluates (nixEval call (n + 1)) env h₂ d t →
      Evaluates (nixEval call (n + 2)) env h (.orDefault (selects e path) attr d) t

/-- No attribute but the last is missing. The object that has the last is a set, and not a thunk; an object that
has not can be freed without any expression being evaluated otherwise. -/
structure Defaultable : Prop where
  early : ∀ before a after, path = before ++ a :: after → ∀ h₁ p h₂,
    ¬Misses (nixEval call (n - after.length)) env h (selects e before) a h₁ p h₂
  present : ∀ p h₁ q h', nixEval call (n + 1) env (selects e path) h = .ok (some p, h₁) →
    nixEval call (n + 2) env (selects e (path ++ [attr])) h = .ok (some q, h') →
    ∃ entries, h₁.Holds p (.attrSet entries)
  missing : ∀ h₁ p h₂, Misses (nixEval call (n + 1)) env h (selects e path) attr h₁ p h₂ →
    ∀ d t, Evaluates (nixEval call (n + 1)) env h₂ d t → Evaluates (nixEval call (n + 1)) env (h₁.without p) d t

end OrDefault

/-! ### One selection -/

section Steps
variable {eval : Evaluator} {env : EnvPtr} {h h₁ h₂ : Heap} {expr d : Ast} {attr : Bytes} {p o : Ptr} {v : Val}
  {entries : List (Bytes × Option Ptr)}

/-- What is forced is held, and is its own value unless it is a thunk. -/
lemma of_force (hforce : force eval env p h₁ = .ok (some o, h₂)) :
    ∃ v, h₁.Holds p v ∧ ((∃ source forced, v = .thunk source forced) ∨ (o = p ∧ h₂ = h₁)) := by
  unfold force at hforce
  obtain ⟨v, t, hload, hrun⟩ := of_bind_run hforce
  obtain ⟨hp, rfl⟩ := of_load_run hload
  refine ⟨v, hp, ?_⟩
  cases v with
  | thunk source forced => exact .inl ⟨source, forced, rfl⟩
  | _ =>
    obtain ⟨heq, rfl⟩ := Prod.mk.inj (Except.ok.inj hrun)
    exact .inr ⟨(Option.some.inj heq).symm, rfl⟩

lemma force_set (hp : h₁.Holds p (.attrSet entries)) : force eval env p h₁ = .ok (some p, h₁) := by
  unfold force
  rw [bind_run (load_run hp)]
  rfl

/-- A selection of what is missing is an error. -/
lemma evalSelect_of_misses (hmiss : Misses eval env h expr attr h₁ p h₂) :
    ∃ h', evalSelect eval env expr attr h = .ok (none, h') := by
  obtain ⟨hexpr, o, v, hforce, ho, hlacks⟩ := hmiss
  unfold evalSelect
  rw [bind_run hexpr]
  show ∃ h', (force eval env p >>= _ : Eval (Option Ptr)) h₁ = .ok (none, h')
  rw [bind_run hforce]
  show ∃ h', (load o >>= _ : Eval (Option Ptr)) h₂ = .ok (none, h')
  rw [bind_run (load_run ho)]
  cases v with
  | attrSet entries =>
    have hnone : find entries attr = none := hlacks
    simp only [hnone]
    rw [bind_run (freeValue_run ho)]
    exact ⟨_, rfl⟩
  | _ =>
    show ∃ h', (freeValue o >>= _ : Eval (Option Ptr)) h₂ = .ok (none, h')
    rw [bind_run (freeValue_run ho)]
    exact ⟨_, rfl⟩

/-- A selection from nothing gives nothing. -/
lemma evalSelect_of_none (hexpr : eval env expr h = .ok (none, h₁)) :
    evalSelect eval env expr attr h = .ok (none, h₁) := by
  unfold evalSelect
  rw [bind_run hexpr]
  rfl

/-- A selection with a value has an object, which is held. -/
lemma of_evalSelect (hselect : evalSelect eval env expr attr h = .ok (some o, h₂)) :
    ∃ p h₁ v, eval env expr h = .ok (some p, h₁) ∧ h₁.Holds p v ∧
      ∀ entries, v = .attrSet entries → find entries attr = some o ∧ h₂ = h₁ := by
  unfold evalSelect at hselect
  obtain ⟨p, h₁, hexpr, hobj⟩ := of_bind_run hselect
  cases p with
  | none => cases hobj
  | some p =>
    obtain ⟨q, t, hforce, hrun⟩ := of_bind_run hobj
    cases q with
    | none => cases hrun
    | some q =>
      obtain ⟨v, hp, -⟩ := of_force hforce
      refine ⟨p, h₁, v, hexpr, hp, ?_⟩
      rintro entries rfl
      obtain ⟨hq, rfl⟩ := Prod.mk.inj (Except.ok.inj (hforce.symm.trans (force_set hp)))
      obtain rfl := Option.some.inj hq
      dsimp only at hrun
      rw [bind_run (load_run hp)] at hrun
      cases hfind : find entries attr with
      | none =>
        simp only [hfind] at hrun
        rw [bind_run (freeValue_run hp)] at hrun
        cases hrun
      | some w =>
        simp only [hfind] at hrun
        obtain ⟨hw, rfl⟩ := Prod.mk.inj (Except.ok.inj hrun)
        exact ⟨hw, rfl⟩

lemma evalOrDefault_of_none (hexpr : eval env expr h = .ok (none, h₁)) :
    evalOrDefault eval env expr attr d h = .ok (none, h₁) := by
  unfold evalOrDefault
  rw [bind_run hexpr]
  rfl

/-- The attribute of a set. -/
lemma evalOrDefault_of_find (hexpr : eval env expr h = .ok (some p, h₁)) (hp : h₁.Holds p (.attrSet entries))
    (hfind : find entries attr = some o) : evalOrDefault eval env expr attr d h = .ok (some o, h₁) := by
  unfold evalOrDefault
  rw [bind_run hexpr]
  show (attrsetLookup p attr >>= _ : Eval (Option Ptr)) h₁ = _
  rw [bind_run (attrsetLookup_run hp), hfind]
  rfl

/-- The default, when the object that was not forced is freed. -/
lemma evalOrDefault_of_lacks (hexpr : eval env expr h = .ok (some p, h₁)) (hp : h₁.Holds p v)
    (hlacks : Lacks attr v) : evalOrDefault eval env expr attr d h = eval env d (h₁.without p) := by
  have hlookup : attrsetLookup p attr h₁ = .ok (none, h₁) := by
    unfold attrsetLookup
    rw [bind_run (load_run hp)]
    cases v with
    | attrSet entries =>
      have hnone : find entries attr = none := hlacks
      simp only [hnone]
      rfl
    | _ => rfl
  unfold evalOrDefault
  rw [bind_run hexpr]
  show (attrsetLookup p attr >>= _ : Eval (Option Ptr)) h₁ = _
  rw [bind_run hlookup]
  show (freeValue p >>= _ : Eval (Option Ptr)) h₁ = _
  rw [bind_run (freeValue_run hp)]
  rfl

/-- What is missing behind a thunk is missing in front of it. -/
lemma evalOrDefault_of_misses (hmiss : Misses eval env h expr attr h₁ p h₂) :
    evalOrDefault eval env expr attr d h = eval env d (h₁.without p) := by
  obtain ⟨hexpr, o, v, hforce, ho, hlacks⟩ := hmiss
  obtain ⟨w, hp, hw⟩ := of_force hforce
  refine evalOrDefault_of_lacks hexpr hp ?_
  obtain ⟨source, forced, rfl⟩ | ⟨rfl, rfl⟩ := hw
  · trivial
  · obtain rfl : v = w := Option.some.inj (Option.some.inj (ho.symm.trans hp))
    exact hlacks

end Steps

/-! ### Paths -/

section Paths
variable {call : Builtins} {env : EnvPtr} {h h₁ h₂ : Heap} {e d : Ast} {attr : Bytes} {p : Ptr}

/-- Selections from nothing give nothing. -/
lemma nixEval_selects_of_none {n : Nat} {base : Ast} {h' : Heap} (path : List Bytes)
    (hbase : nixEval call n env base h = .ok (none, h')) :
    nixEval call (n + path.length) env (selects base path) h = .ok (none, h') := by
  induction path generalizing base n with
  | nil => exact hbase
  | cons attr path ih =>
    have hselect : nixEval call (n + 1) env (.select base attr) h = .ok (none, h') := evalSelect_of_none hbase
    have hlen : n + (attr :: path).length = n + 1 + path.length := by
      rw [List.length_cons]
      omega
    rw [hlen]
    exact ih hselect

/-- Where an attribute is missing, the whole selection gives nothing. -/
lemma nixEval_selects_of_misses {n : Nat} {before after : List Bytes}
    (hmiss : Misses (nixEval call n) env h (selects e before) attr h₁ p h₂) :
    ∃ h', nixEval call (n + 1 + after.length) env (selects e (before ++ attr :: after)) h = .ok (none, h') := by
  obtain ⟨h', hselect⟩ := evalSelect_of_misses hmiss
  refine ⟨h', ?_⟩
  rw [selects_append]
  exact nixEval_selects_of_none after hselect

/-- An integer is a tree of its own. -/
lemma evaluates_int (n : Nat) (value : Int) : Evaluates (nixEval call (n + 1)) env h (.int value) (.int value) := by
  refine ⟨h.values.length, { h with values := h.values ++ [some (.int value)] }, 1,
    { h with values := h.values ++ [some (.int value)] }, rfl, ?_⟩
  unfold toTree
  rw [bind_run (load_run (holds_new h.values h.envs h.error (.int value)))]
  rfl

end Paths

/-- Builtins that are not called. -/
def noBuiltins : Builtins := fun _ _ _ _ _ => throw .unparsed

/-- What the body of a function that is a file sees: `config`, a thunk forced to the set that is being built. -/
def configHeap : Heap :=
  ⟨[some (.int 2), some (.attrSet [(ascii "x", some 0)]), some (.thunk .missing (some 1))],
    [some ⟨[(ascii "config", some 2)], none, none⟩], none⟩

/-- What the body of `let s = {}; in …` sees. -/
def emptyHeap : Heap := ⟨[some (.attrSet [])], [some ⟨[(ascii "s", some 0)], none, none⟩], none⟩

end Two09.Nix
