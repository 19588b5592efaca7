import Two09.Nix.OrDefault

/-!
# `map` and `filter`

The two builtins beside the application of a function in the evaluator. Each binds parameters and runs the body
by itself: `map` knows no formal parameters and `filter` no defaults, and a failing application is a `null`, or
drops the element, and fails nothing.
-/

namespace Two09.Nix

open Two09.Lib

/-! ### Application -/

/-- The application of a function that is a value. -/
def applyValue (fuel : Nat) (call : Builtins) (eval : Evaluator) (env : EnvPtr) (func arg : Ptr) :
    Eval (Option Ptr) := do
  match ← load func with
  | .builtin name ctx => call eval name ctx env arg
  | .lambda closureEnv param body => applyLambda fuel eval func arg closureEnv param body
  | _ => evalError (ascii "cannot apply non-function")

/-- `func arg` is the application of the one value to the other. -/
lemma evalApply_eq (fuel : Nat) (call : Builtins) (eval : Evaluator) (env : EnvPtr) (func arg : Ast) :
    evalApply fuel call eval env func arg = (do
      let some f ← eval env func | return none
      let some a ← eval env arg | return none
      applyValue fuel call eval env f a) := rfl

/-! ### The builtins -/

/-- What the builtins do with `NULL`, which an item of a list may be. -/
abbrev NullBuiltins := BuiltinName → Option Ptr → EnvPtr → Eval (Option Ptr)

section Builtins
variable (call : Builtins) (callNull : NullBuiltins) (eval : Evaluator) (env : EnvPtr)

/-- A builtin on an item of a list. -/
def callItem (name : BuiltinName) (ctx item : Option Ptr) : Eval (Option Ptr) :=
  match item with
  | some x => call eval name ctx env x
  | none => callNull name ctx env

/-- One round of `builtin_map`. -/
def mapItem (func : Ptr) (item : Option Ptr) : Eval Ptr := do
  match ← load func with
  | .lambda closureEnv param body =>
    let callEnv ← envPush closureEnv
    match param with
    | .ident name => envBind callEnv name item
    | _ => pure ()
    let r ← ownError (eval callEnv body)
    envFree callEnv
    match r.1 with
    | some v => return v
    | none => newValue .null
  | .builtin name ctx =>
    match ← callItem call callNull eval env name ctx item with
    | some v => return v
    | none => newValue .null
  | _ => newValue .null

/-- The rounds from `i`, of which there are so many; the list may have become empty. -/
def mapItems (func arg : Ptr) : Nat → Nat → Eval (List (Option Ptr))
  | 0, _ => return []
  | n + 1, i => do
    match ← load arg with
    | .list items =>
      match items[i]? with
      | some item =>
        let v ← mapItem call callNull eval env func item
        return some v :: (← mapItems func arg n (i + 1))
      | none => return List.replicate (n + 1) none
    | _ => throw .outOfBounds

/-- `builtin_map` -/
def builtinMap (ctx : Option Ptr) (arg : Ptr) : Eval (Option Ptr) := do
  match ← load arg, ctx with
  | .lambda _ _ _, _ => return some (← newValue (.builtin .mapPartial (some arg)))
  | .builtin _ _, _ => return some (← newValue (.builtin .mapPartial (some arg)))
  | .list items, some func =>
    let result ← newValue (.list [])
    let values ← mapItems call callNull eval env func arg items.length 0
    store result (.list values)
    return some result
  | _, _ => return none

/-- An item of a list, forced if it is a thunk. -/
def forceItem (item : Option Ptr) : Eval (Option Ptr) := do
  match item with
  | none => return none
  | some p =>
    match ← load p with
    | .thunk _ _ => return (← ownError (force eval env p)).1
    | _ => return some p

/-- The formal parameters in `builtin_filter`: the attributes of a set, or the item itself, and `null` for what is
missing. -/
def bindItem (callEnv : EnvPtr) (item : Option Ptr) : List (Option Bytes × Ast) → Eval Unit
  | [] => return ()
  | (name, _) :: formals => do
    let v ← match item with
      | none => pure none
      | some p => do
        match ← load p with
        | .attrSet entries =>
          match name with
          | some key => pure (find entries key)
          | none => throw .nullPointer
        | _ => pure (some p)
    match v with
    | some v => envBind callEnv name (some v)
    | none => envBind callEnv name (some (← newValue .null))
    bindItem callEnv item formals

/-- Whether there is a value, and it is true. -/
def truthyValue (v : Option Ptr) : Eval Bool :=
  match v with
  | some v => truthy v
  | none => return false

/-- The test of an item in `builtin_filter`. -/
def testItem (pred : Ptr) (item : Option Ptr) : Eval Bool := do
  match ← load pred with
  | .lambda closureEnv param body =>
    let callEnv ← envPush closureEnv
    match param with
    | .ident name => envBind callEnv name item
    | .attrSet formals => bindItem callEnv item formals
    | _ => pure ()
    let r ← ownError (eval callEnv body)
    let keep ← truthyValue r.1
    envFree callEnv
    return keep
  | .builtin name ctx => truthyValue (← callItem call callNull eval env name ctx item)
  | _ => return false

/-- One round of `builtin_filter`: the item, forced, and whether it is kept. -/
def filterItem (pred : Ptr) (item : Option Ptr) : Eval (Option Ptr × Bool) := do
  let forced ← forceItem eval env item
  return (forced, ← testItem call callNull eval env pred forced)

/-- The rounds from `i`, of which there are no more than so many. -/
def filterItems (pred arg : Ptr) : Nat → Nat → Eval (List (Option Ptr))
  | 0, _ => return []
  | n + 1, i => do
    match ← load arg with
    | .list items =>
      match items[i]? with
      | some item =>
        let r ← filterItem call callNull eval env pred item
        let rest ← filterItems pred arg n (i + 1)
        return if r.2 then r.1 :: rest else rest
      | none => return []
    | _ => throw .outOfBounds

/-- `builtin_filter` -/
def builtinFilter (ctx : Option Ptr) (arg : Ptr) : Eval (Option Ptr) := do
  match ← load arg, ctx with
  | .lambda _ _ _, _ => return some (← newValue (.builtin .filterPartial (some arg)))
  | .builtin _ _, _ => return some (← newValue (.builtin .filterPartial (some arg)))
  | .list items, some pred =>
    let result ← newValue (.list [])
    let values ← filterItems call callNull eval env pred arg items.length 0
    store result (.list values)
    return some result
  | _, _ => return none

end Builtins

/-! ### The same value in two heaps -/

section Alike
variable (R : Ptr → Ptr → Prop) (S : EnvPtr → EnvPtr → Prop)

/-- Values of one shape, whose parts are related. -/
def Val.Matches : Val → Val → Prop
  | .null, .null => True
  | .bool a, .bool b => a = b
  | .int a, .int b => a = b
  | .string a, .string b => a = b
  | .path a, .path b => a = b
  | .list a, .list b => List.Forall₂ (Option.Rel R) a b
  | .attrSet a, .attrSet b => List.Forall₂ (fun x y => x.1 = y.1 ∧ Option.Rel R x.2 y.2) a b
  | .lambda e param body, .lambda e' param' body' => S e e' ∧ param = param' ∧ body = body'
  | .thunk expr forced, .thunk expr' forced' => expr = expr' ∧ Option.Rel R forced forced'
  | .builtin name ctx, .builtin name' ctx' => name = name' ∧ Option.Rel R ctx ctx'
  | _, _ => False

/-- Environments that bind the same names, to what is related. -/
structure Env.Matches (env env' : Env) : Prop where
  entries : List.Forall₂ (fun x y => x.1 = y.1 ∧ Option.Rel R x.2 y.2) env.entries env'.entries
  parent : Option.Rel S env.parent env'.parent
  baseDir : env.baseDir = env'.baseDir

end Alike

/-- The value at `p` in `h` is the value at `q` in `h'`, with all that can be reached from it, wherever it lies: a
relation of the pointers that what they point at respects. -/
def Alike (p : Ptr) (h : Heap) (q : Ptr) (h' : Heap) : Prop :=
  ∃ (R : Ptr → Ptr → Prop) (S : EnvPtr → EnvPtr → Prop), R p q ∧
    (∀ a b, R a b → Option.Rel (Val.Matches R S) h.values[a]?.join h'.values[b]?.join) ∧
    ∀ a b, S a b → Option.Rel (Env.Matches R S) h.envs[a]?.join h'.envs[b]?.join

section Alike
variable {h h' : Heap} {p q : Ptr} {e : EnvPtr}

lemma optionRel_refl {α : Type} {R : α → α → Prop} (hR : ∀ a, R a a) (x : Option α) : Option.Rel R x x := by
  cases x with
  | none => exact .none
  | some a => exact .some (hR a)

lemma matches_refl (v : Val) : v.Matches (· = ·) (· = ·) v := by
  have hrel := optionRel_refl fun a : Ptr => (rfl : a = a)
  cases v with
  | list items => exact List.forall₂_same.2 fun x _ => hrel x
  | attrSet entries => exact List.forall₂_same.2 fun x _ => ⟨rfl, hrel x.2⟩
  | lambda e param body => exact ⟨rfl, rfl, rfl⟩
  | thunk expr forced => exact ⟨rfl, hrel forced⟩
  | builtin name ctx => exact ⟨rfl, hrel ctx⟩
  | null => trivial
  | _ => rfl

lemma alike_refl (p : Ptr) (h : Heap) : Alike p h p h := by
  have hrel := optionRel_refl fun a : Ptr => (rfl : a = a)
  refine ⟨(· = ·), (· = ·), rfl, ?_, ?_⟩
  · rintro a _ rfl
    exact optionRel_refl matches_refl _
  · rintro a _ rfl
    exact optionRel_refl (fun env => ⟨List.forall₂_same.2 fun x _ => ⟨rfl, hrel x.2⟩, hrel env.parent, rfl⟩) _

/-- A function whose environment is there is not one whose environment is gone. -/
lemma not_alike {env : Env} {param body param' body' : Ast} (hp : h.Holds p (.lambda e param body))
    (he : h.HoldsEnv e env) (hq : h'.Holds q (.lambda e param' body')) (hgone : h'.envs[e]?.join = none) :
    ¬Alike p h q h' := by
  rintro ⟨R, S, hR, hvalues, henvs⟩
  have hmatch := hvalues p q hR
  rw [show h.values[p]? = _ from hp, show h'.values[q]? = _ from hq] at hmatch
  obtain ⟨hS⟩ | - := hmatch
  have hrel := henvs e e hS.1
  rw [show h.envs[e]? = _ from he, hgone] at hrel
  cases hrel

end Alike

/-! ### What agreement means -/

/-- The heap with a new list, for the result. -/
def Heap.withList (h : Heap) : Heap := { h with values := h.values ++ [some (.list [])] }

/-- In each of the states in which the rounds come to an element, it is still the `i`th of the list that is walked,
and `P`. -/
def Along {β : Type} (round : Option Ptr → Eval β) (arg : Ptr) (P : Ptr → Heap → Prop) :
    List Ptr → Nat → Heap → Prop
  | [], _, _ => True
  | x :: xs, i, h => (∃ items, h.Holds arg (.list items) ∧ items[i]? = some (some x)) ∧ P x h ∧
      ∀ b h', round (some x) h = .ok (b, h') → Along round arg P xs (i + 1) h'

/-- The rounds over the elements in turn, and what each of them gives. -/
inductive Walk {β : Type} (round : Option Ptr → Eval β) : List Ptr → Heap → List β → Heap → Prop
  | nil (h : Heap) : Walk round [] h [] h
  | cons {x : Ptr} {xs : List Ptr} {h h' h'' : Heap} {b : β} {bs : List β} (hround : round (some x) h = .ok (b, h'))
      (hwalk : Walk round xs h' bs h'') : Walk round (x :: xs) h (b :: bs) h''

/-- The body with no parameter bound, and `null` for nothing. -/
def bareItem (eval : Evaluator) (closureEnv : EnvPtr) (body : Ast) : Eval Ptr := do
  let callEnv ← envPush closureEnv
  let r ← ownError (eval callEnv body)
  envFree callEnv
  match r.1 with
  | some v => return v
  | none => newValue .null

/-- The truth of the body with each parameter an attribute of the item, or the item if that is no set, or `null`. -/
def boundItem (eval : Evaluator) (closureEnv : EnvPtr) (formals : List (Option Bytes × Ast)) (body : Ast)
    (item : Ptr) : Eval Bool := do
  let callEnv ← envPush closureEnv
  bindItem callEnv (some item) formals
  let r ← ownError (eval callEnv body)
  let keep ← truthyValue r.1
  envFree callEnv
  return keep

/-- What `map` needs of a function whose application in `h` gave `v` and left `h'`. For a parameter that is a word,
`v` is no function in the environment of this call, which `map` frees; for formal parameters, the body alone gives
the same. -/
def MapSuits (eval : Evaluator) (h : Heap) (v : Ptr) (h' : Heap) : Val → Prop
  | .lambda _ (.ident _) _ => ∀ param body, ¬h'.Holds v (.lambda h.envs.length param body)
  | .lambda closureEnv _ body => ∃ w h'', bareItem eval closureEnv body h = .ok (w, h'') ∧ Alike v h' w h''
  | _ => True

/-- What `filter` needs of a predicate whose application to `y` in `h` gave `v` and left `h'`: `v` is there. For a
parameter that is a word, so is the environment of a call that the application keeps; for formal parameters, the
body is as true without their defaults. -/
def FilterSuits (eval : Evaluator) (h : Heap) (y v : Ptr) (h' : Heap) : Val → Prop
  | .lambda _ (.ident _) _ => ∀ param body, h'.Holds v (.lambda h.envs.length param body) →
      ∃ e, h'.HoldsEnv h.envs.length e
  | .lambda closureEnv (.attrSet formals) body => ∃ b h₂, truthy v h' = .ok (b, h') ∧
      boundItem eval closureEnv formals body y h = .ok (b, h₂)
  | _ => ∃ w, h'.Holds v w

section Agreement
variable (fuel : Nat) (call : Builtins) (callNull : NullBuiltins) (eval : Evaluator) (env : EnvPtr) (func arg : Ptr)

/-- Where the application to `x` ends, it gives a value, and the round of `map` gives the same one. `map` itself
never gives nothing, so that no application may. -/
def MapAgrees (x : Ptr) (h : Heap) : Prop := ∀ r h', applyValue fuel call eval env func x h = .ok (r, h') →
  ∃ v w h'', r = some v ∧ mapItem call callNull eval env func (some x) h = .ok (w, h'') ∧ Alike v h' w h''

/-- Where the application to `x`, forced, ends, it gives a value, which is true when the test of `filter` is. -/
def FilterAgrees (x : Ptr) (h : Heap) : Prop := ∀ item h₁, forceItem eval env (some x) h = .ok (item, h₁) →
  ∃ y, item = some y ∧ ∀ r h', applyValue fuel call eval env func y h₁ = .ok (r, h') →
    ∃ v b h₂, r = some v ∧ truthy v h' = .ok (b, h') ∧
      testItem call callNull eval env func (some y) h₁ = .ok (b, h₂)

/-- `map` of the function at `func` over the elements `xs` of the list at `arg` is the list of what the applications
give. -/
structure MapRight (xs : List Ptr) (h : Heap) : Prop where
  agrees : Along (mapItem call callNull eval env func) arg (MapAgrees fuel call callNull eval env func) xs 0 h.withList
  result : ∀ r h', builtinMap call callNull eval env (some func) arg h = .ok (r, h') → ∃ list vs t, r = some list ∧
    Walk (mapItem call callNull eval env func) xs h.withList vs t ∧ h'.Holds list (.list (vs.map some))

/-- `filter` by the function at `func` of the elements `xs` of the list at `arg` is the list of those for which the
applications give something true. -/
structure FilterRight (xs : List Ptr) (h : Heap) : Prop where
  agrees : Along (filterItem call callNull eval env func) arg (FilterAgrees fuel call callNull eval env func) xs 0
    h.withList
  result : ∀ r h', builtinFilter call callNull eval env (some func) arg h = .ok (r, h') → ∃ list rs t, r = some list ∧
    Walk (filterItem call callNull eval env func) xs h.withList rs t ∧
      h'.Holds list (.list ((rs.filter (·.2)).map (·.1)))

/-- Where the application to `x` ends, it gives a value that the function makes fit for `map`. -/
def MapFits (x : Ptr) (h : Heap) : Prop := ∀ r h', applyValue fuel call eval env func x h = .ok (r, h') →
  ∃ v f, r = some v ∧ h.Holds func f ∧ MapSuits eval h v h' f

/-- The element can be forced, and where the application to what that gives ends, it gives a value that the
predicate makes fit for `filter`. -/
def FilterFits (x : Ptr) (h : Heap) : Prop := ∀ item h₁, forceItem eval env (some x) h = .ok (item, h₁) →
  ∃ y, item = some y ∧ ∀ r h', applyValue fuel call eval env func y h₁ = .ok (r, h') →
    ∃ v f, r = some v ∧ h₁.Holds func f ∧ FilterSuits eval h₁ y v h' f

end Agreement

/-! ### Runs that ended -/

section Runs
variable {fuel : Nat} {eval : Evaluator} {env e closureEnv : EnvPtr} {func x v : Ptr} {h h' : Heap} {name : Bytes}
  {body : Ast}

lemma of_loadEnv {r : Env × Heap} (hr : loadEnv e h = .ok r) : h.HoldsEnv e r.1 ∧ r.2 = h := by
  unfold loadEnv at hr
  split at hr
  · obtain rfl := Except.ok.inj hr
    exact ⟨‹_›, rfl⟩
  · cases hr

lemma of_discard_run {α : Type} {m : Eval α} {r : PUnit × Heap} (hr : (discard m : Eval PUnit) h = .ok r) :
    ∃ a, m h = .ok (a, r.2) := by
  obtain ⟨a, t, hm, rfl⟩ := of_map_run hr
  exact ⟨a, hm⟩

/-- A call has the next environment. -/
lemma of_envPush {r : EnvPtr × Heap} (hr : envPush e h = .ok r) : r.1 = h.envs.length ∧ r.2.values = h.values := by
  unfold envPush at hr
  obtain ⟨env, t, hload, hrun⟩ := of_bind_run hr
  obtain ⟨-, rfl⟩ := of_loadEnv hload
  obtain rfl := Except.ok.inj hrun
  exact ⟨rfl, rfl⟩

/-- What is freed was there. -/
lemma of_envFree {r : Unit × Heap} (hr : envFree e h = .ok r) :
    (∃ env, h.HoldsEnv e env) ∧ r.2 = { h with envs := h.envs.set e none } := by
  unfold envFree at hr
  obtain ⟨u, t, hdiscard, hrun⟩ := of_bind_run hr
  obtain ⟨env, hload⟩ := of_discard_run hdiscard
  obtain ⟨henv, rfl⟩ := of_loadEnv hload
  obtain rfl := Except.ok.inj hrun
  exact ⟨⟨env, henv⟩, rfl⟩

/-- Where a run with an error of its own gives a value, both ways of keeping the error do the same. -/
lemma of_withError {m : Eval (Option Ptr)} (hr : withError m h = .ok (some v, h')) :
    ∃ error, ownError m h = .ok ((some v, error), h') := by
  unfold withError at hr
  rw [get_run, modify_run] at hr
  obtain ⟨r, t, hm, hrun⟩ := of_bind_run hr
  cases r with
  | none => cases hrun
  | some w =>
    obtain ⟨hw, rfl⟩ := Prod.mk.inj (Except.ok.inj hrun)
    obtain rfl := Option.some.inj hw
    refine ⟨t.error, ?_⟩
    unfold ownError
    rw [get_run, modify_run, bind_run hm]
    rfl

/-- **A body that has a value** is run with an error of its own; its environment is then freed, unless it is that of
the value. -/
lemma of_evalBody (hbody : evalBody eval e func body h = .ok (some v, h')) :
    ∃ error h₁ w, ownError (eval e body) h = .ok ((some v, error), h₁) ∧ h₁.Holds v w ∧
      ((∃ param body, w = .lambda e param body) ∧ h' = h₁ ∨
        (∀ param body, w ≠ .lambda e param body) ∧ envFree e h₁ = .ok ((), h')) := by
  unfold evalBody at hbody
  obtain ⟨u, t, hdiscard, hrun⟩ := of_bind_run hbody
  obtain ⟨f, hload⟩ := of_discard_run hdiscard
  obtain rfl : t = h := (of_load_run hload).2
  obtain ⟨r, h₁, hwith, htail⟩ := of_bind_run hrun
  cases r with
  | none =>
    obtain ⟨u', t', hfree, hret⟩ := of_bind_run htail
    cases hret
  | some result =>
    obtain ⟨w, t', hloadw, hend⟩ := of_bind_run htail
    obtain ⟨hw, rfl⟩ := of_load_run hloadw
    obtain ⟨error, hown⟩ := of_withError hwith
    by_cases hclosure : ∃ param body, w = .lambda e param body
    · obtain ⟨param, body', rfl⟩ := hclosure
      replace hend : (if e ≠ e then _ else pure (some result) : Eval (Option Ptr)) t' = .ok (some v, h') := hend
      rw [if_neg (not_not.2 rfl)] at hend
      obtain ⟨hv, rfl⟩ := Prod.mk.inj (Except.ok.inj hend)
      obtain rfl := Option.some.inj hv
      exact ⟨error, _, _, hown, hw, .inl ⟨⟨param, body', rfl⟩, rfl⟩⟩
    · have hfree : (envFree e >>= fun _ => pure (some result) : Eval (Option Ptr)) t' = .ok (some v, h') := by
        cases w with
        | lambda c param body' =>
          have hne : c ≠ e := by
            rintro rfl
            exact hclosure ⟨param, body', rfl⟩
          replace hend : (if c ≠ e then envFree e >>= fun _ => pure (some result)
            else pure (some result) : Eval (Option Ptr)) t' = .ok (some v, h') := hend
          rwa [if_pos hne] at hend
        | _ => exact hend
      obtain ⟨u', t'', hfreed, hret⟩ := of_bind_run hfree
      obtain ⟨hv, rfl⟩ := Prod.mk.inj (Except.ok.inj hret)
      obtain rfl := Option.some.inj hv
      refine ⟨error, _, _, hown, hw, .inr ⟨?_, hfreed⟩⟩
      intro param body' hw'
      exact hclosure ⟨param, body', hw'⟩

/-- The application of a function of one word. -/
lemma of_applyLambda_ident (happly : applyLambda fuel eval func x closureEnv (.ident name) body h = .ok (some v, h')) :
    ∃ h₁ h₂, envPush closureEnv h = .ok (h.envs.length, h₁) ∧
      envBind h.envs.length (some name) (some x) h₁ = .ok ((), h₂) ∧
      evalBody eval h.envs.length func body h₂ = .ok (some v, h') := by
  unfold applyLambda at happly
  obtain ⟨callEnv, h₁, hpush, hrest⟩ := of_bind_run happly
  obtain rfl : callEnv = h.envs.length := (of_envPush hpush).1
  obtain ⟨u, h₂, hbind, hbody⟩ := of_bind_run hrest
  exact ⟨h₁, h₂, hpush, hbind, hbody⟩

end Runs

/-! ### One round -/

section Rounds
variable {fuel : Nat} {call : Builtins} {callNull : NullBuiltins} {eval : Evaluator} {env e closureEnv : EnvPtr}
  {func x v : Ptr} {h h' h₁ h₂ h₃ : Heap} {name : Bytes} {param body : Ast} {formals : List (Option Bytes × Ast)}
  {error : Option Bytes} {b : Bool} {f w : Val}

/-- What is true of a value goes by what is there. -/
lemma truthy_run (w : Val) : ∃ b, ∀ {v : Ptr} {h : Heap}, h.Holds v w → truthy v h = .ok (b, h) := by
  cases w with
  | bool b => exact ⟨b, fun hv => bind_run (load_run hv)⟩
  | null => exact ⟨false, fun hv => bind_run (load_run hv)⟩
  | int n => exact ⟨decide (n ≠ 0), fun hv => bind_run (load_run hv)⟩
  | string s => exact ⟨decide (s ≠ []), fun hv => bind_run (load_run hv)⟩
  | list items => exact ⟨decide (items ≠ []), fun hv => bind_run (load_run hv)⟩
  | _ => exact ⟨true, fun hv => bind_run (load_run hv)⟩

lemma of_truthy {r : Bool × Heap} (hr : truthy v h = .ok r) : ∃ w, h.Holds v w := by
  unfold truthy at hr
  obtain ⟨w, t, hload, hrun⟩ := of_bind_run hr
  exact ⟨w, (of_load_run hload).1⟩

lemma applyValue_lambda (hf : h.Holds func (.lambda closureEnv param body)) :
    applyValue fuel call eval env func x h = applyLambda fuel eval func x closureEnv param body h := by
  unfold applyValue
  rw [bind_run (load_run hf)]

lemma applyValue_builtin {name : BuiltinName} {ctx : Option Ptr} (hf : h.Holds func (.builtin name ctx)) :
    applyValue fuel call eval env func x h = call eval name ctx env x h := by
  unfold applyValue
  rw [bind_run (load_run hf)]

/-- What has no value when it is applied. -/
lemma applyValue_none (hf : h.Holds func f) (hlambda : ∀ c p d, f ≠ .lambda c p d)
    (hbuiltin : ∀ name ctx, f ≠ .builtin name ctx) : applyValue fuel call eval env func x h ≠ .ok (some v, h') := by
  intro happly
  unfold applyValue at happly
  rw [bind_run (load_run hf)] at happly
  cases f with
  | lambda c p d => exact hlambda c p d rfl
  | builtin name ctx => exact hbuiltin name ctx rfl
  | _ => cases happly

lemma applyLambda_none (hident : ∀ name, param ≠ .ident name) (hset : ∀ formals, param ≠ .attrSet formals) :
    applyLambda fuel eval func x closureEnv param body h ≠ .ok (some v, h') := by
  intro happly
  unfold applyLambda at happly
  obtain ⟨callEnv, t, hpush, hrun⟩ := of_bind_run happly
  cases param with
  | ident name => exact hident name rfl
  | attrSet formals => exact hset formals rfl
  | _ =>
    obtain ⟨u, t', hfree, herror⟩ := of_bind_run hrun
    cases herror

/-! `map` -/

lemma mapItem_ident (hf : h.Holds func (.lambda closureEnv (.ident name) body))
    (hpush : envPush closureEnv h = .ok (e, h₁)) (hbind : envBind e (some name) (some x) h₁ = .ok ((), h₂))
    (hown : ownError (eval e body) h₂ = .ok ((some v, error), h₃)) :
    mapItem call callNull eval env func (some x) h = (envFree e >>= fun _ => pure v : Eval Ptr) h₃ := by
  unfold mapItem
  rw [bind_run (load_run hf)]
  show (envPush closureEnv >>= _ : Eval Ptr) h = _
  rw [bind_run hpush]
  show (envBind e (some name) (some x) >>= _ : Eval Ptr) h₁ = _
  rw [bind_run hbind]
  show (ownError (eval e body) >>= _ : Eval Ptr) h₂ = _
  rw [bind_run hown]

/-- The parameters are not bound. -/
lemma mapItem_bare (hf : h.Holds func (.lambda closureEnv param body)) (hident : ∀ name, param ≠ .ident name) :
    mapItem call callNull eval env func (some x) h = bareItem eval closureEnv body h := by
  unfold mapItem
  rw [bind_run (load_run hf)]
  cases param with
  | ident name => exact absurd rfl (hident name)
  | _ => rfl

/-- Where the parameter is a word, `map` gives the value of the application, and frees the environment. -/
lemma mapItem_ident_iff (hf : h.Holds func (.lambda closureEnv (.ident name) body))
    (happly : applyLambda fuel eval func x closureEnv (.ident name) body h = .ok (some v, h')) :
    (∃ w h'', mapItem call callNull eval env func (some x) h = .ok (w, h'') ∧ Alike v h' w h'') ↔
      ∀ param body, ¬h'.Holds v (.lambda h.envs.length param body) := by
  obtain ⟨h₁, h₂, hpush, hbind, hbody⟩ := of_applyLambda_ident happly
  obtain ⟨error, h₃, w, hown, hw, hend⟩ := of_evalBody hbody
  rw [mapItem_ident hf hpush hbind hown]
  obtain ⟨⟨param, body', rfl⟩, rfl⟩ | ⟨hother, hfree⟩ := hend
  · constructor
    · rintro ⟨w, h'', hround, halike⟩
      obtain ⟨u, t, hfree, hret⟩ := of_bind_run hround
      obtain ⟨rfl, rfl⟩ := Prod.mk.inj (Except.ok.inj hret)
      obtain ⟨⟨env', henv⟩, rfl⟩ := of_envFree hfree
      refine absurd halike (not_alike hw henv hw ?_)
      rw [List.getElem?_set_self henv.lt]
      rfl
    · intro hno
      exact absurd hw (hno param body')
  · constructor
    · intro hround param body' hown'
      obtain ⟨henv, rfl⟩ := of_envFree hfree
      exact hother param body' (Option.some.inj (Option.some.inj (hw.symm.trans hown')))
    · intro hno
      exact ⟨v, h', bind_run hfree, alike_refl v h'⟩

/-- **`map` does what the application does** exactly where it fits. -/
lemma mapAgrees_iff :
    MapAgrees fuel call callNull eval env func x h ↔ MapFits fuel call eval env func x h := by
  refine forall₃_congr fun r h' happly => ?_
  have hload := happly
  unfold applyValue at hload
  obtain ⟨f, t, hloadf, hrun⟩ := of_bind_run hload
  obtain ⟨hf, -⟩ := of_load_run hloadf
  cases r with
  | none => simp
  | some v =>
    have hround : (∃ w h'', mapItem call callNull eval env func (some x) h = .ok (w, h'') ∧ Alike v h' w h'') ↔
        MapSuits eval h v h' f := by
      cases f with
      | lambda c param body =>
        by_cases hident : ∃ name, param = .ident name
        · obtain ⟨name, rfl⟩ := hident
          exact mapItem_ident_iff hf ((applyValue_lambda hf).symm.trans happly)
        · rw [mapItem_bare hf fun name hname => hident ⟨name, hname⟩]
          cases param with
          | ident name => exact absurd ⟨name, rfl⟩ hident
          | _ => exact Iff.rfl
      | builtin name ctx =>
        have hcall : mapItem call callNull eval env func (some x) h = .ok (v, h') := by
          unfold mapItem
          rw [bind_run (load_run hf)]
          exact bind_run ((applyValue_builtin hf).symm.trans happly)
        exact iff_of_true ⟨v, h', hcall, alike_refl v h'⟩ trivial
      | _ => exact absurd happly (applyValue_none hf (by simp) (by simp))
    constructor
    · rintro ⟨v', w, h'', hv, hagrees⟩
      obtain rfl := Option.some.inj hv
      exact ⟨v, f, rfl, hf, hround.1 ⟨w, h'', hagrees⟩⟩
    · rintro ⟨v', f', hv, hf', hsuits⟩
      obtain rfl := Option.some.inj hv
      obtain rfl : f' = f := Option.some.inj (Option.some.inj (hf'.symm.trans hf))
      obtain ⟨w, h'', hagrees⟩ := hround.2 hsuits
      exact ⟨v, w, h'', rfl, hagrees⟩

/-! `filter` -/

lemma testItem_ident (hf : h.Holds func (.lambda closureEnv (.ident name) body))
    (hpush : envPush closureEnv h = .ok (e, h₁)) (hbind : envBind e (some name) (some x) h₁ = .ok ((), h₂))
    (hown : ownError (eval e body) h₂ = .ok ((some v, error), h₃)) :
    testItem call callNull eval env func (some x) h =
      (truthy v >>= fun keep => envFree e >>= fun _ => pure keep : Eval Bool) h₃ := by
  unfold testItem
  rw [bind_run (load_run hf)]
  show (envPush closureEnv >>= _ : Eval Bool) h = _
  rw [bind_run hpush]
  show (envBind e (some name) (some x) >>= _ : Eval Bool) h₁ = _
  rw [bind_run hbind]
  show (ownError (eval e body) >>= _ : Eval Bool) h₂ = _
  rw [bind_run hown]
  rfl

/-- Where the parameter is a word, `filter` tests the value of the application, and frees the environment. -/
lemma testItem_ident_iff (hf : h.Holds func (.lambda closureEnv (.ident name) body))
    (happly : applyLambda fuel eval func x closureEnv (.ident name) body h = .ok (some v, h')) :
    (∃ b h₂, truthy v h' = .ok (b, h') ∧ testItem call callNull eval env func (some x) h = .ok (b, h₂)) ↔
      ∀ param body, h'.Holds v (.lambda h.envs.length param body) → ∃ e, h'.HoldsEnv h.envs.length e := by
  obtain ⟨h₁, h₂, hpush, hbind, hbody⟩ := of_applyLambda_ident happly
  obtain ⟨error, h₃, w, hown, hw, hend⟩ := of_evalBody hbody
  obtain ⟨b, htruthy⟩ := truthy_run w
  rw [testItem_ident hf hpush hbind hown, bind_run (htruthy hw)]
  obtain ⟨⟨param, body', rfl⟩, rfl⟩ | ⟨hother, hfree⟩ := hend
  · constructor
    · rintro ⟨b', h₂', -, htest⟩ - - -
      obtain ⟨u, t, hfree, hret⟩ := of_bind_run htest
      exact (of_envFree hfree).1
    · intro hkept
      obtain ⟨env', henv⟩ := hkept param body' hw
      exact ⟨b, _, htruthy hw, bind_run (envFree_run henv)⟩
  · obtain ⟨henv, rfl⟩ := of_envFree hfree
    refine iff_of_true ⟨b, _, htruthy hw, bind_run hfree⟩ ?_
    intro param body' hown'
    exact absurd (Option.some.inj (Option.some.inj (hw.symm.trans hown'))) (hother param body')

/-- **`filter` tests what the application gives** exactly where it fits. -/
lemma filterAgrees_iff :
    FilterAgrees fuel call callNull eval env func x h ↔ FilterFits fuel call eval env func x h := by
  refine forall₃_congr fun item h₁ hforce => exists_congr fun y => and_congr_right fun hitem => ?_
  refine forall₃_congr fun r h' happly => ?_
  have hload := happly
  unfold applyValue at hload
  obtain ⟨f, t, hloadf, hrun⟩ := of_bind_run hload
  obtain ⟨hf, -⟩ := of_load_run hloadf
  cases r with
  | none => simp
  | some v =>
    have hround : (∃ b h₂, truthy v h' = .ok (b, h') ∧
        testItem call callNull eval env func (some y) h₁ = .ok (b, h₂)) ↔ FilterSuits eval h₁ y v h' f := by
      cases f with
      | lambda c param body =>
        cases param with
        | ident name => exact testItem_ident_iff hf ((applyValue_lambda hf).symm.trans happly)
        | attrSet formals =>
          have htest : testItem call callNull eval env func (some y) h₁ = boundItem eval c formals body y h₁ := by
            unfold testItem
            rw [bind_run (load_run hf)]
            rfl
          rw [htest]
          exact Iff.rfl
        | _ => exact absurd ((applyValue_lambda hf).symm.trans happly) (applyLambda_none (by simp) (by simp))
      | builtin name ctx =>
        have htest : testItem call callNull eval env func (some y) h₁ = truthy v h' := by
          unfold testItem
          rw [bind_run (load_run hf)]
          exact bind_run ((applyValue_builtin hf).symm.trans happly)
        rw [htest]
        constructor
        · rintro ⟨b, h₂, htruthy, -⟩
          exact of_truthy htruthy
        · rintro ⟨w, hw⟩
          obtain ⟨b, htruthy⟩ := truthy_run w
          exact ⟨b, h', htruthy hw, htruthy hw⟩
      | _ => exact absurd happly (applyValue_none hf (by simp) (by simp))
    constructor
    · rintro ⟨v', b, h₂, hv, hagrees⟩
      obtain rfl := Option.some.inj hv
      exact ⟨v, f, rfl, hf, hround.1 ⟨b, h₂, hagrees⟩⟩
    · rintro ⟨v', f', hv, hf', hsuits⟩
      obtain rfl := Option.some.inj hv
      obtain rfl : f' = f := Option.some.inj (Option.some.inj (hf'.symm.trans hf))
      obtain ⟨b, h₂, hagrees⟩ := hround.2 hsuits
      exact ⟨v, b, h₂, rfl, hagrees⟩

end Rounds

/-! Formal parameters that are all supplied -/

section Supplied
variable {fuel : Nat} {eval : Evaluator} {e closureEnv : EnvPtr} {func x v : Ptr} {h h' : Heap} {body : Ast}
  {entries : List (Bytes × Option Ptr)} {formals : List (Option Bytes × Ast)}

/-- Each of the formal parameters is an attribute. -/
def Supplies (entries : List (Bytes × Option Ptr)) (formals : List (Option Bytes × Ast)) : Prop :=
  ∀ formal ∈ formals, ∃ name y, formal.1 = some name ∧ find entries name = some y

lemma of_envBind {name : Option Bytes} {y : Option Ptr} {r : Unit × Heap} (hr : envBind e name y h = .ok r) :
    r.2.values = h.values := by
  cases name with
  | none =>
    obtain rfl := Except.ok.inj hr
    rfl
  | some name =>
    obtain ⟨env, t, hload, hrun⟩ := of_bind_run hr
    obtain ⟨-, rfl⟩ := of_loadEnv hload
    obtain rfl := Except.ok.inj hrun
    rfl

/-- Both bind the attributes then, and no default is looked at. -/
lemma bindItem_of_bindFormals {b : Bool} (hx : h.Holds x (.attrSet entries)) (hall : Supplies entries formals)
    (hrun : bindFormals eval e func x formals h = .ok (b, h')) :
    b = true ∧ bindItem e (some x) formals h = .ok ((), h') := by
  induction formals generalizing h with
  | nil =>
    obtain ⟨rfl, rfl⟩ := Prod.mk.inj (Except.ok.inj hrun)
    exact ⟨rfl, rfl⟩
  | cons formal formals ih =>
    obtain ⟨key, default⟩ := formal
    obtain ⟨name, y, hkey, hfind⟩ := hall _ List.mem_cons_self
    obtain rfl : key = some name := hkey
    unfold bindFormals at hrun
    obtain ⟨u, t, hdiscard, hformal⟩ := of_bind_run hrun
    obtain ⟨f, hload⟩ := of_discard_run hdiscard
    obtain rfl : t = h := (of_load_run hload).2
    obtain ⟨bound, t', hbound, hrest⟩ := of_bind_run hformal
    replace hbound : (attrsetLookup x name >>= _ : Eval Bool) t = .ok (bound, t') := hbound
    rw [bind_run (attrsetLookup_run hx), hfind] at hbound
    obtain ⟨u', t'', hbind, hret⟩ := of_bind_run hbound
    obtain ⟨rfl, rfl⟩ := Prod.mk.inj (Except.ok.inj hret)
    have hx' : t''.Holds x (.attrSet entries) := by
      unfold Heap.Holds
      rw [of_envBind hbind]
      exact hx
    obtain ⟨hb, hitem⟩ := ih hx' (fun formal hmem => hall formal (List.mem_cons_of_mem _ hmem)) hrest
    refine ⟨hb, ?_⟩
    unfold bindItem
    show (load x >>= _ : Eval Unit) t = _
    rw [bind_run (load_run hx)]
    show (match find entries name with | some v => _ | none => _ : Eval Unit) t = _
    simp only [hfind]
    rw [bind_run hbind]
    exact hitem

/-- **Formal parameters that a set supplies** suit `filter`, where no `config` is in scope. -/
lemma filterSuits_supplied (hx : h.Holds x (.attrSet entries)) (hall : Supplies entries formals)
    (hconfig : ∀ h₁ h₂, envPush closureEnv h = .ok (h.envs.length, h₁) →
      bindItem h.envs.length (some x) formals h₁ = .ok ((), h₂) →
      envLookup h.envs.length (ascii "config") h₂ = .ok (none, h₂))
    (happly : applyLambda fuel eval func x closureEnv (.attrSet formals) body h = .ok (some v, h'))
    (hkept : ∀ param body, h'.Holds v (.lambda h.envs.length param body) → ∃ env, h'.HoldsEnv h.envs.length env) :
    FilterSuits eval h x v h' (.lambda closureEnv (.attrSet formals) body) := by
  unfold applyLambda at happly
  obtain ⟨callEnv, h₁, hpush, hrest⟩ := of_bind_run happly
  obtain ⟨rfl, hvalues⟩ := of_envPush hpush
  obtain ⟨b, h₂, hbind, hbody⟩ := of_bind_run hrest
  have hx₁ : h₁.Holds x (.attrSet entries) := by
    unfold Heap.Holds
    rw [hvalues]
    exact hx
  obtain ⟨rfl, hitem⟩ := bindItem_of_bindFormals hx₁ hall hbind
  rw [if_pos rfl, bind_run (hconfig h₁ h₂ hpush hitem)] at hbody
  obtain ⟨error, h₃, w, hown, hw, hend⟩ := of_evalBody hbody
  obtain ⟨b, htruthy⟩ := truthy_run w
  have hbound : boundItem eval closureEnv formals body x h =
      (envFree h.envs.length >>= fun _ => pure b : Eval Bool) h₃ := by
    unfold boundItem
    rw [bind_run hpush, bind_run hitem, bind_run hown]
    show (truthy v >>= _ : Eval Bool) h₃ = _
    rw [bind_run (htruthy hw)]
  obtain ⟨⟨param, body', rfl⟩, rfl⟩ | ⟨-, hfree⟩ := hend
  · obtain ⟨env, henv⟩ := hkept param body' hw
    exact ⟨b, _, htruthy hw, hbound.trans (bind_run (envFree_run henv))⟩
  · obtain ⟨-, rfl⟩ := of_envFree hfree
    exact ⟨b, _, htruthy hw, hbound.trans (bind_run hfree)⟩

end Supplied

/-! ### All rounds -/

section Runs
variable {call : Builtins} {callNull : NullBuiltins} {eval : Evaluator} {env : EnvPtr} {func arg : Ptr}
  {P : Ptr → Heap → Prop} {xs : List Ptr} {i : Nat} {h h' : Heap}

/-- Over a list that is not emptied, the values are those of the rounds. -/
lemma of_mapItems {vs : List (Option Ptr)} (halong : Along (mapItem call callNull eval env func) arg P xs i h)
    (hrun : mapItems call callNull eval env func arg xs.length i h = .ok (vs, h')) :
    ∃ ws, vs = ws.map some ∧ Walk (mapItem call callNull eval env func) xs h ws h' := by
  induction xs generalizing i h vs with
  | nil =>
    obtain ⟨rfl, rfl⟩ := Prod.mk.inj (Except.ok.inj hrun)
    exact ⟨[], rfl, .nil h⟩
  | cons x xs ih =>
    obtain ⟨⟨items, harg, hitem⟩, -, hafter⟩ := halong
    rw [List.length_cons, mapItems, bind_run (load_run harg)] at hrun
    simp only [hitem] at hrun
    obtain ⟨v, h₁, hround, hrest⟩ := of_bind_run hrun
    obtain ⟨rest, t, hitems, hret⟩ := of_bind_run hrest
    obtain ⟨rfl, rfl⟩ := Prod.mk.inj (Except.ok.inj hret)
    obtain ⟨ws, rfl, hwalk⟩ := ih (hafter v h₁ hround) hitems
    exact ⟨v :: ws, rfl, .cons hround hwalk⟩

/-- Over a list that is not emptied, the values are those that the rounds keep. -/
lemma of_filterItems {vs : List (Option Ptr)} (halong : Along (filterItem call callNull eval env func) arg P xs i h)
    (hrun : filterItems call callNull eval env func arg xs.length i h = .ok (vs, h')) :
    ∃ rs, vs = (rs.filter (·.2)).map (·.1) ∧ Walk (filterItem call callNull eval env func) xs h rs h' := by
  induction xs generalizing i h vs with
  | nil =>
    obtain ⟨rfl, rfl⟩ := Prod.mk.inj (Except.ok.inj hrun)
    exact ⟨[], rfl, .nil h⟩
  | cons x xs ih =>
    obtain ⟨⟨items, harg, hitem⟩, -, hafter⟩ := halong
    rw [List.length_cons, filterItems, bind_run (load_run harg)] at hrun
    simp only [hitem] at hrun
    obtain ⟨r, h₁, hround, hrest⟩ := of_bind_run hrun
    obtain ⟨rest, t, hitems, hret⟩ := of_bind_run hrest
    obtain ⟨rfl, rfl⟩ := Prod.mk.inj (Except.ok.inj hret)
    obtain ⟨rs, rfl, hwalk⟩ := ih (hafter r h₁ hround) hitems
    refine ⟨r :: rs, ?_, .cons hround hwalk⟩
    cases hkeep : r.2 <;> simp [hkeep]

/-- What is written is there. -/
lemma of_store {p : Ptr} {w : Val} {r : Unit × Heap} (hr : store p w h = .ok r) : r.2.Holds p w := by
  unfold store at hr
  obtain ⟨u, t, hdiscard, hrun⟩ := of_bind_run hr
  obtain ⟨v, hload⟩ := of_discard_run hdiscard
  obtain ⟨hp, rfl⟩ := of_load_run hload
  obtain rfl := Except.ok.inj hrun
  exact List.getElem?_set_self hp.lt

end Runs

section Main
variable (fuel : Nat) (call : Builtins) (callNull : NullBuiltins) (eval : Evaluator) (env : EnvPtr) (func arg : Ptr)
  (xs : List Ptr) (h : Heap)

lemma mapRight_iff (hlist : h.Holds arg (.list (xs.map some))) :
    MapRight fuel call callNull eval env func arg xs h ↔
      Along (mapItem call callNull eval env func) arg (MapFits fuel call eval env func) xs 0 h.withList := by
  have heq : MapAgrees fuel call callNull eval env func = MapFits fuel call eval env func :=
    funext₂ fun x h => propext mapAgrees_iff
  constructor
  · intro hright
    exact heq ▸ hright.agrees
  · intro hfits
    refine ⟨heq ▸ hfits, fun r h' hrun => ?_⟩
    unfold builtinMap at hrun
    rw [bind_run (load_run hlist)] at hrun
    obtain ⟨list, t, hnew, hitems⟩ := of_bind_run hrun
    obtain ⟨rfl, rfl⟩ := Prod.mk.inj (Except.ok.inj hnew)
    obtain ⟨vs, t, hvalues, hstore⟩ := of_bind_run hitems
    obtain ⟨u, t', hstored, hret⟩ := of_bind_run hstore
    obtain ⟨rfl, rfl⟩ := Prod.mk.inj (Except.ok.inj hret)
    rw [List.length_map] at hvalues
    obtain ⟨ws, rfl, hwalk⟩ := of_mapItems hfits hvalues
    exact ⟨_, ws, t, rfl, hwalk, of_store hstored⟩

lemma filterRight_iff (hlist : h.Holds arg (.list (xs.map some))) :
    FilterRight fuel call callNull eval env func arg xs h ↔
      Along (filterItem call callNull eval env func) arg (FilterFits fuel call eval env func) xs 0 h.withList := by
  have heq : FilterAgrees fuel call callNull eval env func = FilterFits fuel call eval env func :=
    funext₂ fun x h => propext filterAgrees_iff
  constructor
  · intro hright
    exact heq ▸ hright.agrees
  · intro hfits
    refine ⟨heq ▸ hfits, fun r h' hrun => ?_⟩
    unfold builtinFilter at hrun
    rw [bind_run (load_run hlist)] at hrun
    obtain ⟨list, t, hnew, hitems⟩ := of_bind_run hrun
    obtain ⟨rfl, rfl⟩ := Prod.mk.inj (Except.ok.inj hnew)
    obtain ⟨vs, t, hvalues, hstore⟩ := of_bind_run hitems
    obtain ⟨u, t', hstored, hret⟩ := of_bind_run hstore
    obtain ⟨rfl, rfl⟩ := Prod.mk.inj (Except.ok.inj hret)
    rw [List.length_map] at hvalues
    obtain ⟨rs, rfl, hwalk⟩ := of_filterItems hfits hvalues
    exact ⟨_, rs, t, rfl, hwalk, of_store hstored⟩

end Main

/-! ### Programs -/

def noNullBuiltins : NullBuiltins := fun _ _ _ => throw .unparsed

/-- The top level, with a function at `0` and a list at `2`, whose element is at `1`. -/
def oneElement (param body : Ast) (v : Val) : Heap :=
  ⟨[some (.lambda 0 param body), some v, some (.list [some 1])], [some ⟨[], none, none⟩], none⟩

end Two09.Nix
