import Two09.Nix.Lexer

/-!
# The parser

`nix_parse`. The functions that call each other take the parsers of the level below, and loops take the
number of rounds they have; messages are without line and column.
-/

namespace Two09.Nix

open Two09.Lib

/-- `nix_ast_t`; `missing` is `NULL`. -/
inductive Ast
  | missing
  | int (value : Int)
  | bool (value : Bool)
  | null
  | string (parts : List (Bytes ⊕ Ast))
  | path (path : Bytes)
  | ident (name : Bytes)
  | attrSet (bindings : List (Option Bytes × Ast))
  | recAttrSet (bindings : List (Option Bytes × Ast))
  | letIn (bindings : List (Option Bytes × Ast)) (body : Ast)
  | list (items : List Ast)
  | select (expr : Ast) (attr : Bytes)
  | hasAttr (expr : Ast) (attr : Bytes)
  | orDefault (expr : Ast) (attr : Bytes) (default : Ast)
  | apply (func arg : Ast)
  | lambda (param body : Ast)
  | ifThen (cond thenExpr elseExpr : Ast)
  | withIn (env body : Ast)
  | assertIn (cond body : Ast)
  | binop (op : Token) (left right : Ast)
  | unaryNot (operand : Ast)
  | negate (operand : Ast)
  | importFile (path : Bytes)

def Ast.isMissing : Ast → Bool
  | .missing => true
  | _ => false

mutual

/-- `nix_ast_clone`; of the nodes that it does not know the copy has no content, and of a `let` it has no
body. -/
def Ast.clone : Ast → Ast
  | .missing => .missing
  | .int value => .int value
  | .bool value => .bool value
  | .null => .null
  | .string parts => .string (cloneParts parts)
  | .path text => .path text
  | .ident name => .ident name
  | .attrSet bindings => .attrSet (cloneBindings bindings)
  | .recAttrSet bindings => .recAttrSet (cloneBindings bindings)
  | .letIn bindings _ => .letIn (cloneBindings bindings) .missing
  | .list items => .list (cloneItems items)
  | .select expr attr => .select expr.clone attr
  | .hasAttr expr attr => .hasAttr expr.clone attr
  | .orDefault _ _ _ => .orDefault .missing [] .missing
  | .apply func arg => .apply func.clone arg.clone
  | .lambda param body => .lambda param.clone body.clone
  | .ifThen cond thenExpr elseExpr => .ifThen cond.clone thenExpr.clone elseExpr.clone
  | .withIn env body => .withIn env.clone body.clone
  | .assertIn cond body => .assertIn cond.clone body.clone
  | .binop op left right => .binop op left.clone right.clone
  | .unaryNot operand => .unaryNot operand.clone
  | .negate _ => .negate .missing
  | .importFile _ => .importFile []

def cloneParts : List (Bytes ⊕ Ast) → List (Bytes ⊕ Ast)
  | [] => []
  | .inl text :: parts => .inl text :: cloneParts parts
  | .inr expr :: parts => .inr expr.clone :: cloneParts parts

def cloneBindings : List (Option Bytes × Ast) → List (Option Bytes × Ast)
  | [] => []
  | (key, value) :: bindings => (key, value.clone) :: cloneBindings bindings

def cloneItems : List Ast → List Ast
  | [] => []
  | item :: items => item.clone :: cloneItems items

end

/-! ### The state of the parser -/

/-- `nix_parser_t` -/
structure Parser where
  rest : Bytes
  cur : Token
  hasError : Bool
  error : Option Bytes

/-- Why there is no result: the rounds do not suffice, or the code copies from outside a buffer, reads what
is freed, reads through `NULL` or divides what has no quotient; `unparsed` is a node that the parser never
makes. -/
inductive Fault
  | outOfFuel
  | outOfBounds
  | freed
  | nullPointer
  | noQuotient
  | unparsed

abbrev Parse := StateT Parser (Except Fault)

/-- `parser_error` -/
def parserError (msg : String) : Parse Unit :=
  modify fun p => if p.hasError then p else { p with hasError := true, error := some (ascii msg) }

/-- `advance` -/
def advance : Parse Unit :=
  modify fun p => { p with rest := (nextToken p.rest).2, cur := (nextToken p.rest).1 }

/-- `expect` -/
def expect (type : Token) (msg : String) : Parse Unit := do
  if (← get).cur = type then advance else parserError msg

/-! ### Paths of attributes -/

/-- Whether `strstr` finds the beginning of an interpolation. -/
def interpolates (text : Bytes) : Bool := [36, 123] <:+: text

/-- One segment; `none` where there is none. -/
def parseSegment (msg : String) : Parse (Option Bytes) := do
  match (← get).cur with
  | .ident name =>
    advance
    return some name
  | .string text =>
    if interpolates text then
      parserError "interpolated strings cannot be attrset keys"
      return none
    else
      advance
      return some text
  | _ =>
    parserError msg
    return none

/-- The segments that follow dots. -/
def parseSegments : Nat → Parse (List Bytes)
  | 0 => throw .outOfFuel
  | n + 1 => do
    if (← get).cur = .dot then
      advance
      match ← parseSegment "expected identifier or string after '.'" with
      | some part => return part :: (← parseSegments n)
      | none => return []
    else return []

/-- `parse_attrpath` -/
def parseAttrpath (n : Nat) : Parse (List Bytes) := do
  match ← parseSegment "expected identifier or string in attrpath" with
  | some part => return part :: (← parseSegments n)
  | none => return []

/-! ### Bindings -/

/-- `nix_bind_t` -/
structure Bind where
  path : List Bytes
  value : Ast

/-- The names of an `inherit`, bound to themselves or to what they are in `src`. -/
def parseInherited (src : Ast) : Nat → Parse (List Bind)
  | 0 => throw .outOfFuel
  | n + 1 => do
    match (← get).cur with
    | .ident name =>
      advance
      let value := if src.isMissing then .ident name else .select src.clone name
      return ⟨[name], value⟩ :: (← parseInherited src n)
    | _ => return []

/-- An `inherit` behind its source, if it has one. -/
def parseInherit (n : Nat) (src : Ast) : Parse (List Bind) := do
  let binds ← parseInherited src n
  expect .semicolon "expected ';' after inherit"
  return binds

/-- The value of a binding, behind its path. -/
def parseValue (expr : Parse Ast) (path : List Bytes) : Parse (List Bind) := do
  if (← get).hasError then return []
  expect .equals "expected '=' in binding"
  if (← get).hasError then return []
  let value ← expr
  if (← get).hasError then return []
  expect .semicolon "expected ';' after binding"
  if (← get).hasError then return []
  return [⟨path, value⟩]

/-- `parse_bind`: the bindings that it adds. -/
def parseBind (n : Nat) (expr : Parse Ast) : Parse (List Bind) := do
  if (← get).cur = .ident (ascii "inherit") then
    advance
    if (← get).cur = .lparen then
      advance
      let src ← expr
      if (← get).hasError then return []
      expect .rparen "expected ')' after inherit source expression"
      if (← get).hasError then return []
      parseInherit n src
    else parseInherit n .missing
  else parseValue expr (← parseAttrpath n)

/-- Bindings up to `close` or to the end; `none` at an error. -/
def parseBinds (expr : Parse Ast) (close : Token) : Nat → Parse (Option (List Bind))
  | 0 => throw .outOfFuel
  | n + 1 => do
    let cur := (← get).cur
    if cur = close ∨ cur = .eof then return some []
    let binds ← parseBind n expr
    if (← get).hasError then return none
    return (← parseBinds expr close n).map (binds ++ ·)

/-! ### Strings -/

/-- How far it is, behind so many opened braces, to behind the brace that closes the first, or to the end. -/
def closing : Nat → Bytes → Nat
  | 0, _ => 0
  | _ + 1, [] => 0
  | depth + 1, c :: s =>
    closing (if c = 123 then depth + 2 else if c = 125 then depth else depth + 1) s + 1

/-- What is in front of the next interpolation, and the rest. -/
def literal : Bytes → Bytes × Bytes
  | [] => ([], [])
  | c :: s =>
    if [36, 123] <+: c :: s then ([], c :: s)
    else (c :: (literal s).1, (literal s).2)

/-- Parsing the text of an interpolation, with a parser of its own that shares the error. -/
def parseInner (expr : Parse Ast) (text : Bytes) : Parse Ast := fun p => do
  let (ast, sub) ← expr ⟨(nextToken text).2, (nextToken text).1, false, p.error⟩
  return (ast, { p with error := sub.error })

/-- `parse_string`. The length of an interpolation that ends at once is below zero. -/
def parseString (expr : Parse Ast) : Nat → Bytes → Parse (List (Bytes ⊕ Ast))
  | 0, _ => throw .outOfFuel
  | _ + 1, [] => return []
  | n + 1, c :: s => do
    if [36, 123] <+: c :: s then
      let text := s.tail
      if text = [] then throw .outOfBounds
      let inner ← parseInner expr (text.take (closing 1 text - 1))
      return .inr inner :: (← parseString expr n (text.drop (closing 1 text)))
    else return .inl (literal (c :: s)).1 :: (← parseString expr n (literal (c :: s)).2)

/-! ### Braces -/

/-- The bindings of a plain set; a path is one key with dots. -/
def dottedKey (path : List Bytes) : Option Bytes := some ([46].intercalate path)

/-- The key of a path in a recursive set or a `let`: only a path of one segment has one. -/
def singleKey : List Bytes → Option Bytes
  | [part] => some part
  | _ => none

def entries (key : List Bytes → Option Bytes) (binds : List Bind) : List (Option Bytes × Ast) :=
  binds.map fun bind => (key bind.path, bind.value)

/-- The end of a set that may turn out to be the parameter of a function. -/
def parseSetEnd (expr : Parse Ast) (key : List Bytes → Option Bytes) (binds : List Bind) : Parse Ast := do
  expect .rbrace "expected '\x7d'"
  if (← get).cur = .colon then
    advance
    return .lambda (.attrSet (entries List.head? binds)) (← expr)
  else return .attrSet (entries key binds)

/-- A plain set behind its first bindings. -/
def parseSet (n : Nat) (expr : Parse Ast) (key : List Bytes → Option Bytes) (first : List Bind) :
    Parse Ast := do
  if (← get).hasError then return .missing
  match ← parseBinds expr .rbrace n with
  | some binds => parseSetEnd expr key (first ++ binds)
  | none => return .missing

/-- A plain set behind the first segment of its first path. -/
def parseSetFrom (n : Nat) (expr : Parse Ast) (part : Bytes) : Parse Ast := do
  let parts ← parseSegments n
  parseSet n expr dottedKey (← parseValue expr (part :: parts))

/-- Three dots, the first of which is there. -/
def parseDots : Parse Bool := do
  advance
  if (← get).cur = .dot then
    advance
    if (← get).cur = .dot then
      advance
      return true
    else return false
  else return false

def skipComma : Parse Unit := do
  if (← get).cur = .comma then advance

/-- The default of a parameter; `null` if it has none. -/
def parseDefault (expr : Parse Ast) : Parse Ast := do
  if (← get).cur = .question then
    advance
    expr
  else return .null

/-- The parameters of a function; three dots may be among them unless they came first. -/
def parseFormals (expr : Parse Ast) (dots : Bool) : Nat → Parse (List (Option Bytes × Ast))
  | 0 => throw .outOfFuel
  | n + 1 => do
    match (← get).cur with
    | .rbrace => return []
    | .eof => return []
    | .ident name =>
      advance
      let value ← parseDefault expr
      skipComma
      return (some name, value) :: (← parseFormals expr dots n)
    | .dot =>
      if dots then
        if ← parseDots then
          skipComma
          parseFormals expr dots n
        else
          parserError "unexpected '.' in formals (did you mean '...'?)"
          return []
      else
        parserError "expected identifier in formals"
        return []
    | _ =>
      parserError "expected identifier in formals"
      return []

/-- A function behind its parameters. -/
def parseFunction (expr : Parse Ast) (formals : List (Option Bytes × Ast)) : Parse Ast := do
  expect .rbrace "expected '\x7d'"
  expect .colon "expected ':' after formals"
  return .lambda (.attrSet formals) (← expr)

/-- Behind a brace and a name: a function if what follows is one's, or a set. -/
def parseNamed (n : Nat) (expr : Parse Ast) (name : Bytes) : Parse Ast := do
  let cur := (← get).cur
  if cur = .comma ∨ cur = .question ∨ cur = .rbrace then
    let value ← parseDefault expr
    skipComma
    parseFunction expr ((some name, value) :: (← parseFormals expr true n))
  else parseSetFrom n expr name

/-- The braces of `parse_base`, behind the first. -/
def parseBraces (n : Nat) (expr : Parse Ast) : Parse Ast := do
  match (← get).cur with
  | .rbrace =>
    advance
    if (← get).cur = .colon then
      advance
      return .lambda (.attrSet []) (← expr)
    else return .attrSet []
  | .dot =>
    if ← parseDots then
      skipComma
      parseFunction expr (← parseFormals expr false n)
    else
      parserError "unexpected '.' in attrset"
      return .missing
  | .ident name =>
    if name = ascii "inherit" then parseSet n expr List.head? (← parseBind n expr)
    else
      advance
      parseNamed n expr name
  | .string text =>
    if interpolates text then
      parserError "interpolated strings cannot be attrset keys"
      return .missing
    else
      advance
      parseSetFrom n expr text
  | _ =>
    parserError "expected identifier, string, or '\x7d' in attrset"
    return .missing

/-- A recursive set, behind its `rec`. -/
def parseRecSet (n : Nat) (expr : Parse Ast) : Parse Ast := do
  expect .lbrace "expected '\x7b' after 'rec'"
  if (← get).hasError then return .missing
  match ← parseBinds expr .rbrace n with
  | some binds =>
    expect .rbrace "expected '\x7d'"
    return .recAttrSet (entries singleKey binds)
  | none => return .missing

/-! ### Expressions without operators -/

/-- The items of a list; `none` at an error. -/
def parseItems (select : Parse Ast) : Nat → Parse (Option (List Ast))
  | 0 => throw .outOfFuel
  | n + 1 => do
    let cur := (← get).cur
    if cur = .rbracket ∨ cur = .eof then return some []
    let item ← select
    if (← get).hasError then return none
    return (← parseItems select n).map (item :: ·)

/-- A word, behind it: a function of one parameter, a literal or a variable. -/
def parseWord (expr : Parse Ast) (name : Bytes) : Parse Ast := do
  match (← get).cur with
  | .colon =>
    advance
    return .lambda (.ident name) (← expr)
  | .path text =>
    if name = ascii "import" then
      advance
      return .importFile text
    else return word name
  | _ => return word name
where
  word (name : Bytes) : Ast :=
    if name = ascii "true" then .bool true
    else if name = ascii "false" then .bool false
    else if name = ascii "null" then .null
    else .ident name

/-- `parse_base` -/
def parseBase (n : Nat) (expr select : Parse Ast) : Parse Ast := do
  match (← get).cur with
  | .lparen =>
    advance
    let inner ← expr
    expect .rparen "expected ')'"
    return inner
  | .lbrace =>
    advance
    parseBraces n expr
  | .lbracket =>
    advance
    match ← parseItems select n with
    | some items =>
      expect .rbracket "expected ']'"
      return .list items
    | none => return .missing
  | .string text =>
    advance
    return .string (← parseString expr n text)
  | .path text =>
    advance
    return .path text
  | .ident name =>
    advance
    parseWord expr name
  | .int value =>
    advance
    return .int value
  | .kwRec =>
    advance
    parseRecSet n expr
  | _ =>
    parserError "unexpected token"
    return .missing

/-- The attributes selected from `ast`. -/
def parseAttrs (select : Parse Ast) : Nat → Ast → Parse Ast
  | 0, _ => throw .outOfFuel
  | n + 1, ast => do
    if (← get).cur = .dot then
      advance
      match (← get).cur with
      | .ident attr =>
        advance
        if (← get).cur = .kwOr then
          advance
          parseAttrs select n (.orDefault ast attr (← select))
        else parseAttrs select n (.select ast attr)
      | _ =>
        parserError "expected attribute name after '.'"
        return .missing
    else return ast

/-- `parse_select` -/
def parseSelect (n : Nat) (expr select : Parse Ast) : Parse Ast := do
  let ast ← parseBase n expr select
  if ast.isMissing ∨ (← get).hasError then return ast
  parseAttrs select n ast

/-- The tokens that an argument begins with. -/
def beginsArg : Token → Bool
  | .ident _ | .int _ | .string _ | .path _ | .lparen | .lbrace | .lbracket | .kwRec => true
  | _ => false

/-- The arguments of `func`. -/
def parseArgs (arg : Parse Ast) : Nat → Ast → Parse Ast
  | 0, _ => throw .outOfFuel
  | n + 1, func => do
    let p ← get
    if ¬p.hasError ∧ beginsArg p.cur then
      let ast ← arg
      if ast.isMissing then return func
      parseArgs arg n (.apply func ast)
    else return func

/-- `parse_apply` -/
def parseApply (n : Nat) (expr select : Parse Ast) : Parse Ast := do
  let func ← parseSelect n expr select
  if func.isMissing ∨ (← get).hasError then return func
  parseArgs (parseSelect n expr select) n func

/-! ### Operators -/

/-- The loop of `parse_binop_left`. -/
def parseOperands (next : Parse Ast) (ops : List Token) : Nat → Ast → Parse Ast
  | 0, _ => throw .outOfFuel
  | n + 1, left => do
    let p ← get
    if ¬p.hasError ∧ p.cur ∈ ops then
      advance
      let right ← next
      if right.isMissing then return .missing
      parseOperands next ops n (.binop p.cur left right)
    else return left

/-- `parse_binop_left` -/
def parseBinopLeft (n : Nat) (next : Parse Ast) (ops : List Token) : Parse Ast := do
  let left ← next
  if left.isMissing ∨ (← get).hasError then return left
  parseOperands next ops n left

/-- `parse_binop_right` -/
def parseBinopRight (next : Parse Ast) (op : Token) : Nat → Parse Ast
  | 0 => throw .outOfFuel
  | n + 1 => do
    let left ← next
    if left.isMissing ∨ (← get).hasError then return left
    if (← get).cur = op then
      advance
      let right ← parseBinopRight next op n
      if right.isMissing then return .missing
      return .binop op left right
    else return left

/-- `parse_unary` -/
def parseUnary (apply : Parse Ast) : Nat → Parse Ast
  | 0 => throw .outOfFuel
  | n + 1 => do
    match (← get).cur with
    | .not =>
      advance
      let operand ← parseUnary apply n
      return if operand.isMissing then .missing else .unaryNot operand
    | .minus =>
      advance
      let operand ← parseUnary apply n
      return if operand.isMissing then .missing else .negate operand
    | _ => apply

/-- `parse_mul` -/
def parseMul (n : Nat) (apply : Parse Ast) : Parse Ast :=
  parseBinopLeft n (parseUnary apply n) [.star, .slash]

/-- `parse_add` -/
def parseAdd (n : Nat) (apply : Parse Ast) : Parse Ast :=
  parseBinopLeft n (parseMul n apply) [.plus, .minus]

/-- `parse_concat` -/
def parseConcat (n : Nat) (apply : Parse Ast) : Parse Ast :=
  parseBinopRight (parseAdd n apply) .plusPlus n

/-- `parse_comparison` -/
def parseComparison (n : Nat) (apply : Parse Ast) : Parse Ast :=
  parseBinopLeft n (parseConcat n apply) [.lt, .le, .gt, .ge]

/-- `parse_equality` -/
def parseEquality (n : Nat) (apply : Parse Ast) : Parse Ast :=
  parseBinopLeft n (parseComparison n apply) [.eq, .neq]

/-- `parse_and` -/
def parseAnd (n : Nat) (apply : Parse Ast) : Parse Ast :=
  parseBinopLeft n (parseEquality n apply) [.and]

/-- `parse_or` -/
def parseOr (n : Nat) (apply : Parse Ast) : Parse Ast :=
  parseBinopLeft n (parseAnd n apply) [.or]

/-- `parse_implication` -/
def parseImplication (n : Nat) (apply : Parse Ast) : Parse Ast :=
  parseBinopRight (parseOr n apply) .arrow n

/-! ### Expressions -/

/-- An `if`, behind the word. -/
def parseIf (expr : Parse Ast) : Parse Ast := do
  let cond ← expr
  expect .kwThen "expected 'then'"
  let thenExpr ← expr
  expect .kwElse "expected 'else'"
  return .ifThen cond thenExpr (← expr)

/-- An `assert` or a `with`, behind the word. -/
def parseFollowed (expr : Parse Ast) (node : Ast → Ast → Ast) (msg : String) : Parse Ast := do
  let first ← expr
  expect .semicolon msg
  return node first (← expr)

/-- A `let`, behind the word. -/
def parseLet (n : Nat) (expr : Parse Ast) : Parse Ast := do
  match ← parseBinds expr .kwIn n with
  | some binds =>
    expect .kwIn "expected 'in' after let bindings"
    return .letIn (entries singleKey binds) (← expr)
  | none => return .missing

/-- `parse_expr` -/
def parseExpr (n : Nat) (expr select : Parse Ast) : Parse Ast := do
  if (← get).hasError then return .missing
  match (← get).cur with
  | .kwIf =>
    advance
    parseIf expr
  | .kwAssert =>
    advance
    parseFollowed expr .assertIn "expected ';' after assert"
  | .kwWith =>
    advance
    parseFollowed expr .withIn "expected ';' after with"
  | .kwLet =>
    advance
    parseLet n expr
  | _ => parseImplication n (parseApply n expr select)

/-- The parsers of expressions and of selections with so many levels below. -/
def parsers : Nat → Parse Ast × Parse Ast
  | 0 => (throw .outOfFuel, throw .outOfFuel)
  | n + 1 => (parseExpr n (parsers n).1 (parsers n).2, parseSelect n (parsers n).1 (parsers n).2)

/-- A parser at the beginning of the source. -/
def Parser.start (src : Bytes) : Parser := ⟨(nextToken src).2, (nextToken src).1, false, none⟩

/-- What follows the expression of a source. -/
def parseEnd (ast : Ast) : Parse Ast := do
  let p ← get
  if ¬p.hasError ∧ p.cur ≠ .eof then
    parserError "unexpected token after expression"
    return .missing
  else return ast

/-- `nix_parse`: the tree, and the error. -/
def nixParse (src : Bytes) : Except Fault (Ast × Option Bytes) := do
  let (ast, p) ← (do parseEnd (← (parsers (src.length + 2)).1) : Parse Ast) (.start src)
  return (ast, p.error)

end Two09.Nix
