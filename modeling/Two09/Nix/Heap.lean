import Two09.Lib.Run
import Two09.Nix.Parser
import Two09.Nix.Serialize

/-!
# Values and environments

What `nix_value_t` and `nix_env_t` point at. Memory is never used again, so that a pointer is the number of
an allocation, and what is freed is gone.
-/

namespace Two09.Nix

open Two09.Lib

/-- A `nix_value_t *` that is not `NULL`. -/
abbrev Ptr := Nat

/-- A `nix_env_t *` that is not `NULL`. -/
abbrev EnvPtr := Nat

/-- `nix_value_t`; a value in a set or a list may be `NULL`. The environment of a thunk, which nothing reads, is left
out. -/
inductive Val
  | null
  | bool (b : Bool)
  | int (n : Int)
  | string (s : Bytes)
  | path (s : Bytes)
  | list (items : List (Option Ptr))
  | attrSet (entries : List (Bytes × Option Ptr))
  | lambda (closureEnv : EnvPtr) (param body : Ast)
  | thunk (expr : Ast) (forced : Option Ptr)
  | builtin (name : BuiltinName) (ctx : Option Ptr)

/-- `nix_val_type_t`, as messages show it. -/
def Val.type : Val → Nat
  | null => 0
  | bool _ => 1
  | int _ => 2
  | string _ => 3
  | path _ => 4
  | list _ => 5
  | attrSet _ => 6
  | lambda _ _ _ => 7
  | thunk _ _ => 8
  | builtin _ _ => 9

/-- `nix_env_t` -/
structure Env where
  entries : List (Bytes × Option Ptr)
  parent : Option EnvPtr
  baseDir : Option Bytes

/-- The values and environments that were allocated, in order, `none` once they are freed, and `*error`. -/
structure Heap where
  values : List (Option Val)
  envs : List (Option Env)
  error : Option Bytes

abbrev Eval := StateT Heap (Except Fault)

/-! ### Values -/

/-- `nix_value_new`, with what is then put in. -/
def newValue (v : Val) : Eval Ptr := fun h => .ok (h.values.length, { h with values := h.values ++ [some v] })

/-- Reading a value. -/
def load (p : Ptr) : Eval Val := fun h =>
  match h.values[p]? with
  | some (some v) => .ok (v, h)
  | _ => .error .freed

/-- Writing into a value. -/
def store (p : Ptr) (v : Val) : Eval Unit := do
  discard (load p)
  modify fun h => { h with values := h.values.set p (some v) }

/-- `nix_value_free` -/
def freeValue (p : Ptr) : Eval Unit := do
  discard (load p)
  modify fun h => { h with values := h.values.set p none }

/-! ### Entries -/

/-- What a key stands for. -/
def find (entries : List (Bytes × Option Ptr)) (key : Bytes) : Option Ptr :=
  (entries.find? (·.1 = key)).bind Prod.snd

/-- The entries with another value for a key, which comes last if it is new. -/
def put (key : Bytes) (v : Option Ptr) : List (Bytes × Option Ptr) → List (Bytes × Option Ptr)
  | [] => [(key, v)]
  | entry :: entries => if entry.1 = key then (key, v) :: entries else entry :: put key v entries

/-- `attrset_lookup` -/
def attrsetLookup (set : Ptr) (key : Bytes) : Eval (Option Ptr) := do
  match ← load set with
  | .attrSet entries => return find entries key
  | _ => return none

/-- `attrset_bind` -/
def attrsetBind (set : Ptr) (key : Bytes) (v : Option Ptr) : Eval Unit := do
  match ← load set with
  | .attrSet entries => store set (.attrSet (put key v entries))
  | _ => return ()

/-- `attrset_bind_path` from the set that it has come to. -/
def attrsetBindPath (v : Option Ptr) : Ptr → List Bytes → Eval Unit
  | _, [] => return ()
  | current, [part] => attrsetBind current part v
  | current, part :: next :: parts => do
    let fresh : Eval Unit := do
      let set ← newValue (.attrSet [])
      attrsetBind current part set
      attrsetBindPath v set (next :: parts)
    match ← attrsetLookup current part with
    | none => fresh
    | some set =>
      match ← load set with
      | .thunk _ _ => attrsetBind current ((next :: parts).getLast (List.cons_ne_nil _ _)) v
      | .attrSet _ => attrsetBindPath v set (next :: parts)
      | _ => fresh

/-- What `strtok_r` finds between dots. -/
def dotted (key : Bytes) : List Bytes := (key.splitOn 46).filter (· ≠ [])

/-- Binding a key, which is a path if it has a dot. -/
def bindKey (set : Ptr) (key : Option Bytes) (v : Option Ptr) : Eval Unit := do
  match key with
  | none => throw .nullPointer
  | some key => if 46 ∈ key then attrsetBindPath v set (dotted key) else attrsetBind set key v

/-! ### Environments -/

/-- Reading an environment. -/
def loadEnv (e : EnvPtr) : Eval Env := fun h =>
  match h.envs[e]? with
  | some (some env) => .ok (env, h)
  | _ => .error .freed

def newEnv (env : Env) : Eval EnvPtr := fun h =>
  .ok (h.envs.length, { h with envs := h.envs ++ [some env] })

/-- `nix_env_push` -/
def envPush (parent : EnvPtr) : Eval EnvPtr := do
  newEnv ⟨[], some parent, (← loadEnv parent).baseDir⟩

/-- `nix_env_free` -/
def envFree (e : EnvPtr) : Eval Unit := do
  discard (loadEnv e)
  modify fun h => { h with envs := h.envs.set e none }

/-- `nix_env_bind`; without a name it does nothing. -/
def envBind (e : EnvPtr) (name : Option Bytes) (v : Option Ptr) : Eval Unit := do
  match name with
  | none => return ()
  | some name =>
    let env ← loadEnv e
    modify fun h => { h with envs := h.envs.set e (some { env with entries := put name v env.entries }) }

/-- `nix_env_lookup`, up so many scopes. -/
def lookupUp (name : Bytes) : Nat → Option EnvPtr → Eval (Option Ptr)
  | _, none => return none
  | 0, some _ => throw .outOfFuel
  | n + 1, some e => do
    let env ← loadEnv e
    match env.entries.find? (·.1 = name) with
    | some entry => return entry.2
    | none => lookupUp name n env.parent

/-- `nix_env_lookup`; there are no more scopes than environments. -/
def envLookup (e : EnvPtr) (name : Bytes) : Eval (Option Ptr) := do
  lookupUp name (← get).envs.length (some e)

/-! ### Errors -/

/-- `eval_error`; messages are without the line. -/
def evalError (msg : Bytes) : Eval (Option Ptr) := do
  modify fun h => { h with error := some msg }
  return none

/-- Running `x` with an error of its own, which becomes the error where `x` gives nothing. -/
def withError (x : Eval (Option Ptr)) : Eval (Option Ptr) := do
  let error := (← get).error
  modify fun h => { h with error := none }
  let r ← x
  if r.isSome then modify fun h => { h with error }
  return r

/-! ### What the operations do -/

section Operations

variable {h : Heap} {p : Ptr} {e : EnvPtr} {v w : Val} {env : Env} {name key : Bytes} {x : Option Ptr}
  {entries : List (Bytes × Option Ptr)}

/-- The value `v` is at `p`. -/
def Heap.Holds (h : Heap) (p : Ptr) (v : Val) : Prop := h.values[p]? = some (some v)

/-- The environment at `e` is `env`. -/
def Heap.HoldsEnv (h : Heap) (e : EnvPtr) (env : Env) : Prop := h.envs[e]? = some (some env)

lemma Heap.Holds.lt (hp : h.Holds p v) : p < h.values.length := (List.getElem?_eq_some_iff.1 hp).1

lemma Heap.HoldsEnv.lt (he : h.HoldsEnv e env) : e < h.envs.length := (List.getElem?_eq_some_iff.1 he).1

lemma load_run (hp : h.Holds p v) : load p h = .ok (v, h) := by
  unfold load
  rw [hp]

lemma of_load_run {r : Val × Heap} (hr : load p h = .ok r) : h.Holds p r.1 ∧ r.2 = h := by
  unfold load at hr
  split at hr
  · obtain rfl := Except.ok.inj hr
    exact ⟨‹_›, rfl⟩
  · cases hr

lemma store_run (hp : h.Holds p v) :
    store p w h = .ok ((), { h with values := h.values.set p (some w) }) := by
  unfold store
  rw [bind_run (discard_run (load_run hp))]
  rfl

lemma freeValue_run (hp : h.Holds p v) :
    freeValue p h = .ok ((), { h with values := h.values.set p none }) := by
  unfold freeValue
  rw [bind_run (discard_run (load_run hp))]
  rfl

lemma attrsetLookup_run (hp : h.Holds p (.attrSet entries)) :
    attrsetLookup p key h = .ok (find entries key, h) := by
  unfold attrsetLookup
  rw [bind_run (load_run hp)]
  rfl

lemma attrsetBind_run (hp : h.Holds p (.attrSet entries)) :
    attrsetBind p key x h =
      .ok ((), { h with values := h.values.set p (some (.attrSet (put key x entries))) }) := by
  unfold attrsetBind
  rw [bind_run (load_run hp)]
  exact store_run hp

lemma loadEnv_run (he : h.HoldsEnv e env) : loadEnv e h = .ok (env, h) := by
  unfold loadEnv
  rw [he]

lemma envBind_run (he : h.HoldsEnv e env) : envBind e (some name) x h =
    .ok ((), { h with envs := h.envs.set e (some { env with entries := put name x env.entries }) }) := by
  unfold envBind
  show (loadEnv e >>= _ : Eval Unit) h = _
  rw [bind_run (loadEnv_run he)]
  rfl

lemma envFree_run (he : h.HoldsEnv e env) : envFree e h = .ok ((), { h with envs := h.envs.set e none }) := by
  unfold envFree
  rw [bind_run (discard_run (loadEnv_run he))]
  rfl

lemma holds_new (values : List (Option Val)) (envs : List (Option Env)) (error : Option Bytes) (v : Val) :
    Heap.Holds ⟨values ++ [some v], envs, error⟩ values.length v := List.getElem?_concat_length

lemma Heap.Holds.append {values : List (Option Val)} {envs : List (Option Env)} {error : Option Bytes}
    (hp : Heap.Holds ⟨values, envs, error⟩ p v) (more : List (Option Val)) (envs' : List (Option Env))
    (error' : Option Bytes) : Heap.Holds ⟨values ++ more, envs', error'⟩ p v :=
  (List.getElem?_append_left hp.lt).trans hp

lemma holdsEnv_set (he : e < h.envs.length) :
    Heap.HoldsEnv { h with envs := h.envs.set e (some env) } e env := List.getElem?_set_self he

end Operations

end Two09.Nix
