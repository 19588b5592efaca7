import Two09.Nix.Heap

/-!
# The evaluator

`nix_eval`, over the evaluator of subexpressions, and `nix_eval_file_with_base`. The builtins are a parameter,
as they are pointers to functions in the code; messages are without the line. The parser makes no `import`
node.
-/

namespace Two09.Nix

open Two09.Lib

/-- An evaluator: `nix_eval` in an environment, with the result or `NULL`. -/
abbrev Evaluator := EnvPtr → Ast → Eval (Option Ptr)

/-- The builtins: with their name and context, in the environment of the call, on the argument. -/
abbrev Builtins := Evaluator → BuiltinName → Option Ptr → EnvPtr → Ptr → Eval (Option Ptr)

/-! ### Values -/

def newBool (b : Bool) : Eval (Option Ptr) := return some (← newValue (.bool b))

def newInt (n : Int) : Eval (Option Ptr) := return some (← newValue (.int (Int.bmod n (2 ^ 64))))

/-- `nix_is_truthy` -/
def truthy (p : Ptr) : Eval Bool := do
  match ← load p with
  | .bool b => return b
  | .null => return false
  | .int n => return n ≠ 0
  | .string s => return s ≠ []
  | .list items => return items ≠ []
  | _ => return true

/-- `nix_values_equal`, so deep. -/
def valuesEqual : Nat → Option Ptr → Option Ptr → Eval Bool
  | _, none, none => return true
  | _, none, some _ => return false
  | _, some _, none => return false
  | 0, some _, some _ => throw .outOfFuel
  | n + 1, some a, some b => do
    match ← load a, ← load b with
    | .null, .null => return true
    | .bool x, .bool y => return x = y
    | .int x, .int y => return x = y
    | .string x, .string y => return x = y
    | .path x, .path y => return x = y
    | .list xs, .list ys =>
      if xs.length ≠ ys.length then return false
      (xs.zip ys).allM fun pair => valuesEqual n pair.1 pair.2
    | .attrSet xs, .attrSet ys =>
      if xs.length ≠ ys.length then return false
      xs.allM fun entry => do
        match find ys entry.1 with
        | none => return false
        | some y => valuesEqual n entry.2 (some y)
    | _, _ => return false

/-- `nix_force` -/
def force (eval : Evaluator) (env : EnvPtr) (p : Ptr) : Eval (Option Ptr) := do
  match ← load p with
  | .thunk _ (some forced) => return some forced
  | .thunk expr none =>
    let forced ← eval env expr
    store p (.thunk expr forced)
    return forced
  | _ => return some p

/-- `resolve_path` -/
def resolvePath (baseDir : Option Bytes) (path : Bytes) : Bytes :=
  match baseDir with
  | some dir => if path.head? = some 47 then path else dir ++ 47 :: path
  | none => path

/-! ### Strings, sets and lists -/

/-- What a value is in a string. -/
def coerced : Val → Option Bytes
  | .string s => some s
  | .path s => some s
  | .int n => some (signedDecimal n)
  | .bool b => some (ascii (if b then "true" else "false"))
  | .null => some (ascii "null")
  | _ => none

/-- The parts of a string, behind `buf`. What is interpolated is freed; the message about what cannot be looks
at its type afterwards. -/
def evalParts (eval : Evaluator) (env : EnvPtr) : List (Bytes ⊕ Ast) → Bytes → Eval (Option Ptr)
  | [], buf => return some (← newValue (.string buf))
  | .inl text :: parts, buf => evalParts eval env parts (buf ++ text)
  | .inr expr :: parts, buf => do
    let some v ← eval env expr | return none
    match coerced (← load v) with
    | some s =>
      freeValue v
      evalParts eval env parts (buf ++ s)
    | none =>
      freeValue v
      let attrSet := (← load v).type = 6
      evalError (ascii "cannot interpolate " ++ ascii (if attrSet then "attrset" else "non-string") ++
        ascii " value into string")

/-- The bindings of a plain set; whether all have a value. -/
def evalBindings (eval : Evaluator) (env : EnvPtr) (set : Ptr) : List (Option Bytes × Ast) → Eval Bool
  | [] => return true
  | binding :: bindings => do
    let some v ← eval env binding.2 | return false
    bindKey set binding.1 (some v)
    evalBindings eval env set bindings

/-- A plain set. -/
def evalAttrSet (eval : Evaluator) (env : EnvPtr) (bindings : List (Option Bytes × Ast)) : Eval (Option Ptr) := do
  let set ← newValue (.attrSet [])
  if ← evalBindings eval env set bindings then return some set
  freeValue set
  return none

/-- The first pass over a recursive set: a thunk for each binding, in the set and in its scope. -/
def bindThunks (set : Ptr) (recEnv : EnvPtr) : List (Option Bytes × Ast) → Eval Unit
  | [] => return ()
  | (key, expr) :: bindings => do
    let thunk ← newValue (.thunk expr none)
    match key with
    | none => throw .nullPointer
    | some name =>
      attrsetBind set name thunk
      envBind recEnv name thunk
      bindThunks set recEnv bindings

/-- The second pass, with so many entries left: the thunks are forced and replaced; whether all could be. -/
def forceThunks (eval : Evaluator) (set : Ptr) (recEnv : EnvPtr) : Nat → Nat → Eval Bool
  | 0, _ => return true
  | n + 1, i => do
    match ← load set with
    | .attrSet entries =>
      match entries[i]? with
      | some (key, some p) =>
        match ← load p with
        | .thunk _ none =>
          let some resolved ← withError (force eval recEnv p) | return false
          match ← load set with
          | .attrSet entries => store set (.attrSet (entries.set i (key, some resolved)))
          | _ => pure ()
          envBind recEnv key (some resolved)
          freeValue p
          forceThunks eval set recEnv n (i + 1)
        | _ => forceThunks eval set recEnv n (i + 1)
      | _ => forceThunks eval set recEnv n (i + 1)
    | _ => return true

/-- A recursive set. -/
def evalRecAttrSet (eval : Evaluator) (env : EnvPtr) (bindings : List (Option Bytes × Ast)) :
    Eval (Option Ptr) := do
  let set ← newValue (.attrSet [])
  let recEnv ← envPush env
  bindThunks set recEnv bindings
  let forced ← forceThunks eval set recEnv bindings.length 0
  envFree recEnv
  if forced then return some set
  freeValue set
  return none

/-- The items of a list, as far as they have values. -/
def evalItems (eval : Evaluator) (env : EnvPtr) : List Ast → Eval (Option (List (Option Ptr)))
  | [] => return some []
  | item :: items => do
    let some v ← eval env item | return none
    return (← evalItems eval env items).map (some v :: ·)

/-- A list. -/
def evalList (eval : Evaluator) (env : EnvPtr) (items : List Ast) : Eval (Option Ptr) := do
  let list ← newValue (.list [])
  match ← evalItems eval env items with
  | some values =>
    store list (.list values)
    return some list
  | none =>
    freeValue list
    return none

/-! ### Attributes -/

/-- `e.attr` -/
def evalSelect (eval : Evaluator) (env : EnvPtr) (expr : Ast) (attr : Bytes) : Eval (Option Ptr) := do
  let some obj ← eval env expr | return none
  let some obj ← force eval env obj | return none
  match ← load obj with
  | .attrSet entries =>
    match find entries attr with
    | some v => return some v
    | none =>
      freeValue obj
      evalError (ascii "attribute '" ++ attr ++ ascii "' not found")
  | _ =>
    freeValue obj
    evalError (ascii "cannot select '" ++ attr ++ ascii "' from non-attrset")

/-- `e ? attr` -/
def evalHasAttr (eval : Evaluator) (env : EnvPtr) (expr : Ast) (attr : Bytes) : Eval (Option Ptr) := do
  let some obj ← eval env expr | return none
  let found ← attrsetLookup obj attr
  let result ← newBool found.isSome
  freeValue obj
  return result

/-- `e.attr or default` -/
def evalOrDefault (eval : Evaluator) (env : EnvPtr) (expr : Ast) (attr : Bytes) (default : Ast) :
    Eval (Option Ptr) := do
  let some obj ← eval env expr | return none
  match ← attrsetLookup obj attr with
  | some v => return some v
  | none =>
    freeValue obj
    eval env default

/-! ### Functions -/

/-- One formal parameter in the environment of a call: what is supplied, or its default, which `null` is not;
whether there is a value. -/
def bindFormal (eval : Evaluator) (callEnv : EnvPtr) (arg : Ptr) (name : Option Bytes) (default : Ast) :
    Eval Bool := do
  match name with
  | none => throw .nullPointer
  | some name =>
    match ← attrsetLookup arg name with
    | some v =>
      envBind callEnv name v
      return true
    | none =>
      match default with
      | .missing | .null =>
        envFree callEnv
        discard (evalError (ascii "missing argument '" ++ name ++ ascii "'"))
        return false
      | _ =>
        match ← withError (eval callEnv default) with
        | some v =>
          envBind callEnv name v
          return true
        | none =>
          envFree callEnv
          return false

/-- The formal parameters; the function is looked at before each. -/
def bindFormals (eval : Evaluator) (callEnv : EnvPtr) (func arg : Ptr) :
    List (Option Bytes × Ast) → Eval Bool
  | [] => return true
  | formal :: formals => do
    discard (load func)
    if ← bindFormal eval callEnv arg formal.1 formal.2 then bindFormals eval callEnv func arg formals
    else return false

/-- The body again and again, `config` being what it gave before, until it gives the same twice. -/
def iterate (fuel : Nat) (eval : Evaluator) (callEnv : EnvPtr) (func : Ptr) (body : Ast) :
    Nat → Option Ptr → Eval (Option Ptr)
  | 0, _ => do
    envFree callEnv
    evalError (ascii "fixed-point iteration did not converge after 100 iterations")
  | n + 1, prev => do
    discard (load func)
    match ← withError (eval callEnv body) with
    | none =>
      envFree callEnv
      return none
    | some result =>
      match prev with
      | none =>
        envBind callEnv (ascii "config") result
        iterate fuel eval callEnv func body n result
      | some p =>
        if ← valuesEqual fuel p result then
          freeValue p
          envFree callEnv
          return some result
        envBind callEnv (ascii "config") result
        freeValue p
        iterate fuel eval callEnv func body n result

/-- The body of a function, whose environment is kept if it is the closure of the result. -/
def evalBody (eval : Evaluator) (callEnv : EnvPtr) (func : Ptr) (body : Ast) : Eval (Option Ptr) := do
  discard (load func)
  let some result ← withError (eval callEnv body) | do
    envFree callEnv
    return none
  match ← load result with
  | .lambda closureEnv _ _ => if closureEnv ≠ callEnv then envFree callEnv
  | _ => envFree callEnv
  return some result

/-- The application of a function. -/
def applyLambda (fuel : Nat) (eval : Evaluator) (func arg : Ptr) (closureEnv : EnvPtr) (param body : Ast) :
    Eval (Option Ptr) := do
  let callEnv ← envPush closureEnv
  match param with
  | .ident name =>
    envBind callEnv name arg
    evalBody eval callEnv func body
  | .attrSet formals =>
    if ← bindFormals eval callEnv func arg formals then
      match ← envLookup callEnv (ascii "config") with
      | some _ => iterate fuel eval callEnv func body 100 none
      | none => evalBody eval callEnv func body
    else return none
  | _ =>
    envFree callEnv
    evalError (ascii "invalid lambda parameter type")

/-- `func arg` -/
def evalApply (fuel : Nat) (call : Builtins) (eval : Evaluator) (env : EnvPtr) (func arg : Ast) :
    Eval (Option Ptr) := do
  let some f ← eval env func | return none
  let some a ← eval env arg | return none
  match ← load f with
  | .builtin name ctx => call eval name ctx env a
  | .lambda closureEnv param body => applyLambda fuel eval f a closureEnv param body
  | _ => evalError (ascii "cannot apply non-function")

/-! ### Scopes and branches -/

/-- The bindings of a `let`, each in the scope of those before it; whether all have a value. -/
def bindLets (eval : Evaluator) (letEnv : EnvPtr) : List (Option Bytes × Ast) → Eval Bool
  | [] => return true
  | (name, expr) :: bindings => do
    let some v ← eval letEnv expr | return false
    envBind letEnv name v
    bindLets eval letEnv bindings

def evalLet (eval : Evaluator) (env : EnvPtr) (bindings : List (Option Bytes × Ast)) (body : Ast) :
    Eval (Option Ptr) := do
  let letEnv ← envPush env
  if ← bindLets eval letEnv bindings then
    let result ← eval letEnv body
    envFree letEnv
    return result
  else
    envFree letEnv
    return none

/-- `if`; the condition is freed. -/
def evalIf (eval : Evaluator) (env : EnvPtr) (cond thenExpr elseExpr : Ast) : Eval (Option Ptr) := do
  let some c ← eval env cond | return none
  let holds ← truthy c
  freeValue c
  if holds then eval env thenExpr else eval env elseExpr

def bindEntries (e : EnvPtr) : List (Bytes × Option Ptr) → Eval Unit
  | [] => return ()
  | (key, v) :: entries => do
    envBind e key v
    bindEntries e entries

def evalWith (eval : Evaluator) (env : EnvPtr) (scope body : Ast) : Eval (Option Ptr) := do
  let some s ← eval env scope | return none
  match ← load s with
  | .attrSet entries =>
    let withEnv ← envPush env
    bindEntries withEnv entries
    let result ← eval withEnv body
    envFree withEnv
    return result
  | _ =>
    freeValue s
    evalError (ascii "'with' expects attrset")

def evalAssert (eval : Evaluator) (env : EnvPtr) (cond body : Ast) : Eval (Option Ptr) := do
  let some c ← eval env cond | return none
  if ← truthy c then
    freeValue c
    eval env body
  else
    freeValue c
    evalError (ascii "assertion failed")

/-! ### Operators -/

/-- A text that `+` joins. -/
def joinable : Val → Option Bytes
  | .string s => some s
  | .path s => some s
  | _ => none

/-- An operator that needs both operands, on their values. -/
def evalOperator (op : Token) (left right : Ptr) : Eval (Option Ptr) := do
  let l ← load left
  let r ← load right
  match op, l, r with
  | .plus, .int a, .int b => newInt (a + b)
  | .plus, l, r =>
    match joinable l, joinable r with
    | some a, some b => return some (← newValue (.string (a ++ b)))
    | _, _ => evalError (ascii "cannot add " ++ decimal l.type ++ ascii " + " ++ decimal r.type)
  | .plusPlus, .list a, .list b =>
    let joined ← newValue (.list (a ++ b))
    store left (.list [])
    store right (.list [])
    return some joined
  | .plusPlus, _, _ => evalError (ascii "cannot concatenate non-lists")
  | .minus, .int a, .int b => newInt (a - b)
  | .minus, _, _ => evalError (ascii "cannot subtract non-integers")
  | .star, .int a, .int b => newInt (a * b)
  | .star, _, _ => evalError (ascii "cannot multiply non-integers")
  | .slash, .int a, .int b =>
    if b = 0 then evalError (ascii "division by zero")
    else if a = -2 ^ 63 ∧ b = -1 then throw .noQuotient
    else newInt (a.tdiv b)
  | .slash, _, _ => evalError (ascii "cannot divide non-integers")
  | .lt, .int a, .int b => newBool (a < b)
  | .lt, _, _ => evalError (ascii "cannot compare non-integers with <")
  | .le, .int a, .int b => newBool (a ≤ b)
  | .le, _, _ => evalError (ascii "cannot compare non-integers with <=")
  | .gt, .int a, .int b => newBool (a > b)
  | .gt, _, _ => evalError (ascii "cannot compare non-integers with >")
  | .ge, .int a, .int b => newBool (a ≥ b)
  | .ge, _, _ => evalError (ascii "cannot compare non-integers with >=")
  | _, _, _ => evalError (ascii "unsupported binary op")

def evalBinop (fuel : Nat) (eval : Evaluator) (env : EnvPtr) (op : Token) (left right : Ast) :
    Eval (Option Ptr) := do
  let some l ← eval env left | return none
  match op with
  | .and =>
    if ← truthy l then
      let some r ← eval env right | return none
      newBool (← truthy r)
    else newBool false
  | .or =>
    if ← truthy l then newBool true
    else
      let some r ← eval env right | return none
      newBool (← truthy r)
  | .arrow =>
    if ← truthy l then
      let some r ← eval env right | return none
      newBool (← truthy r)
    else newBool true
  | .eq =>
    let some r ← eval env right | return none
    newBool (← valuesEqual fuel l r)
  | .neq =>
    let some r ← eval env right | return none
    newBool (!(← valuesEqual fuel l r))
  | op =>
    let some r ← eval env right | return none
    evalOperator op l r

def evalNot (eval : Evaluator) (env : EnvPtr) (operand : Ast) : Eval (Option Ptr) := do
  let some v ← eval env operand | return none
  newBool (!(← truthy v))

def evalNegate (eval : Evaluator) (env : EnvPtr) (operand : Ast) : Eval (Option Ptr) := do
  let some v ← eval env operand | return none
  match ← load v with
  | .int n => newInt (-n)
  | _ => evalError (ascii "cannot negate non-integer")

/-! ### Expressions -/

/-- `nix_eval_inner` -/
def evalInner (fuel : Nat) (call : Builtins) (eval : Evaluator) (env : EnvPtr) : Ast → Eval (Option Ptr)
  | .missing => evalError (ascii "null AST")
  | .int value => return some (← newValue (.int value))
  | .bool value => newBool value
  | .null => return some (← newValue .null)
  | .path path => return some (← newValue (.path (resolvePath (← loadEnv env).baseDir path)))
  | .ident name => do
    match ← envLookup env name with
    | some v => return some v
    | none => evalError (ascii "undefined variable '" ++ name ++ ascii "'")
  | .string parts => evalParts eval env parts []
  | .attrSet bindings => evalAttrSet eval env bindings
  | .recAttrSet bindings => evalRecAttrSet eval env bindings
  | .list items => evalList eval env items
  | .select expr attr => evalSelect eval env expr attr
  | .hasAttr expr attr => evalHasAttr eval env expr attr
  | .orDefault expr attr default => evalOrDefault eval env expr attr default
  | .lambda param body => return some (← newValue (.lambda env param body))
  | .apply func arg => evalApply fuel call eval env func arg
  | .letIn bindings body => evalLet eval env bindings body
  | .ifThen cond thenExpr elseExpr => evalIf eval env cond thenExpr elseExpr
  | .withIn scope body => evalWith eval env scope body
  | .assertIn cond body => evalAssert eval env cond body
  | .binop op left right => evalBinop fuel eval env op left right
  | .unaryNot operand => evalNot eval env operand
  | .negate operand => evalNegate eval env operand
  | .importFile _ => throw .unparsed

/-- `nix_eval`, so deep. -/
def nixEval (call : Builtins) : Nat → Evaluator
  | 0 => fun _ _ => throw .outOfFuel
  | n + 1 => evalInner n call (nixEval call n)

/-! ### Files -/

def builtinNames : List BuiltinName :=
  [.map, .filter, .length, .head, .tail, .attrNames, .attrValues, .hasAttr, .getAttr, .toJSON, .fromJSON,
    .trace, .pathExists, .readFile, .abort, .throw, .toString, .stringLength, .replaceStrings]

/-- The entries of `builtins`. -/
def newBuiltins : List BuiltinName → Eval (List (Bytes × Option Ptr))
  | [] => return []
  | name :: names => do
    let builtin ← newValue (.builtin name none)
    return (ascii name.text, some builtin) :: (← newBuiltins names)

/-- `nix_env_new` -/
def nixEnvNew (baseDir : Option Bytes) : Eval EnvPtr := do
  let env ← newEnv ⟨[], none, baseDir⟩
  let entries ← newBuiltins builtinNames
  envBind env (ascii "builtins") (← newValue (.attrSet entries))
  envBind env (ascii "true") (← newValue (.bool true))
  envBind env (ascii "false") (← newValue (.bool false))
  envBind env (ascii "null") (← newValue .null)
  envBind env (ascii "map") (find entries (ascii "map"))
  return env

/-- Running `x` with an error of its own: what it gives, and that error. -/
def ownError (x : Eval (Option Ptr)) : Eval (Option Ptr × Option Bytes) := do
  let error := (← get).error
  modify fun h => { h with error := none }
  let r ← x
  let own := (← get).error
  modify fun h => { h with error }
  return (r, own)

/-- The formal parameters of the function that a file is; one without a value is `null`. -/
def bindFileFormals (eval : Evaluator) (callEnv : EnvPtr) (arg : Ptr) : List (Option Bytes × Ast) → Eval Unit
  | [] => return ()
  | (none, _) :: _ => throw .nullPointer
  | (some name, default) :: formals => do
    let supplied ← attrsetLookup arg name
    let v ← match supplied, default with
      | some v, _ => pure (some v)
      | none, .missing => pure none
      | none, .null => pure none
      | none, default => do pure (← ownError (eval callEnv default)).1
    match v with
    | some v => envBind callEnv name v
    | none => envBind callEnv name (some (← newValue .null))
    bindFileFormals eval callEnv arg formals

/-- The bindings of the set that the function's body is, one by one; whether none had an error. -/
def evalFileBindings (eval : Evaluator) (callEnv : EnvPtr) (set : Ptr) : List (Option Bytes × Ast) → Eval Bool
  | [] => return true
  | (key, expr) :: bindings => do
    let r ← ownError (eval callEnv expr)
    if r.2.isSome then
      modify fun h => { h with error := r.2 }
      envFree callEnv
      return false
    bindKey set key r.1
    evalFileBindings eval callEnv set bindings

/-- The function that a file is, applied to a `config` that is its result; a parameter that is a word has no
formal ones. -/
def autoApply (eval : Evaluator) (f : Ptr) (closureEnv : EnvPtr) (param body : Ast) : Eval (Option Ptr) := do
  let result ← newValue (.attrSet [])
  let config ← newValue (.thunk .missing (some result))
  let arg ← newValue (.attrSet [(ascii "config", some config)])
  let callEnv ← envPush closureEnv
  match param with
  | .attrSet formals => bindFileFormals eval callEnv arg formals
  | _ => pure ()
  match body with
  | .missing => throw .nullPointer
  | .attrSet bindings =>
    if ← evalFileBindings eval callEnv result bindings then
      envFree callEnv
      return some result
    else return none
  | body =>
    let r ← ownError (eval callEnv body)
    if r.2.isSome then modify fun h => { h with error := r.2 }
    envFree callEnv
    return some (r.1.getD f)

/-- The tree that `json_serialize` walks, so deep. -/
def toTree : Nat → Option Ptr → Eval Tree
  | _, none => return .null
  | 0, some _ => throw .outOfFuel
  | n + 1, some p => do
    match ← load p with
    | .null => return .null
    | .bool b => return .bool b
    | .int k => return .int k
    | .string s => return .string s
    | .path s => return .path s
    | .list items => return .list (← items.mapM (toTree n))
    | .attrSet entries => return .attrSet (← entries.mapM fun entry => return (entry.1, ← toTree n entry.2))
    | .lambda _ _ _ => return .lambda
    | .thunk _ (some forced) => toTree n (some forced)
    | .thunk _ none => return .thunk
    | .builtin name _ => return .builtin name

/-- A file that was parsed, as a tree. -/
def evalParsed (call : Builtins) (fuel : Nat) (env : EnvPtr) (ast : Ast) (error : Option Bytes) :
    Eval (Option Tree) := do
  modify fun h => { h with error }
  if ast.isMissing then return none
  let some v ← nixEval call fuel env ast | return none
  match ← load v with
  | .lambda closureEnv param body =>
    let some v ← autoApply (nixEval call fuel) v closureEnv param body | return none
    return some (← toTree fuel (some v))
  | _ => return some (← toTree fuel (some v))

/-- A file, as a tree. -/
def evalFile (call : Builtins) (fuel : Nat) (src : Bytes) (baseDir : Option Bytes) : Eval (Option Tree) := do
  let env ← nixEnvNew baseDir
  match nixParse src with
  | .ok r => evalParsed call fuel env r.1 r.2
  | .error fault => throw fault

/-- `nix_eval_file_with_base`: the text, and the error. -/
def nixEvalFileWithBase (call : Builtins) (fuel : Nat) (src : Bytes) (baseDir : Option Bytes) :
    Except Fault (Option Bytes × Option Bytes) := do
  let r ← evalFile call fuel src baseDir ⟨[], [], none⟩
  return (r.1.map nixToJson, r.2.error)

end Two09.Nix
