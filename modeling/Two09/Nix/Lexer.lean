import Two09.Lib.Bytes

/-!
# The lexer

`nix_lexer_next`, on what is left of the source. Lines and columns, which only go into messages, are left
out.
-/

namespace Two09.Nix

open Two09.Lib

/-- `nix_token_t`; the texts are those up to a NUL. -/
inductive Token
  | eof
  | ident (text : Bytes)
  | int (value : Int)
  | string (text : Bytes)
  | path (text : Bytes)
  | lbrace | rbrace | lbracket | rbracket | lparen | rparen | colon | semicolon | comma | dot | equals
  | question | plus | plusPlus | minus | star | slash | and | or | not | lt | le | gt | ge | eq | neq
  | arrow
  | kwIf | kwThen | kwElse | kwLet | kwIn | kwWith | kwRec | kwAssert | kwOr | kwImport
  deriving DecidableEq

/-! ### Characters -/

def isDigit (c : UInt8) : Bool := 48 ≤ c ∧ c ≤ 57

def isAlpha (c : UInt8) : Bool := (65 ≤ c ∧ c ≤ 90) ∨ (97 ≤ c ∧ c ≤ 122)

def isBlank (c : UInt8) : Bool := c = 32 ∨ c = 9 ∨ c = 10 ∨ c = 13

/-- The characters that an identifier goes on with: letters, digits, `_`, `-` and the apostrophe. -/
def isIdentChar (c : UInt8) : Bool := isAlpha c ∨ isDigit c ∨ c = 95 ∨ c = 45 ∨ c = 39

/-- The characters of a path: letters, digits and those of `/.-_+~`. -/
def isPathChar (c : UInt8) : Bool :=
  isAlpha c ∨ isDigit c ∨ c = 47 ∨ c = 46 ∨ c = 45 ∨ c = 95 ∨ c = 43 ∨ c = 126

/-- The characters that a slash begins a path with: letters and those of `_/.-~+`. -/
def isPathSecond (c : UInt8) : Bool :=
  isAlpha c ∨ c = 95 ∨ c = 47 ∨ c = 46 ∨ c = 45 ∨ c = 126 ∨ c = 43

/-! ### Between tokens -/

/-- Where `skip_whitespace` is: outside comments, in a line comment, or in so many block comments and one
more. -/
inductive Gap
  | blank
  | line
  | block (depth : Nat)

/-- `skip_whitespace`: a block comment may be left open at the end. -/
def skip : Gap → Bytes → Bytes
  | _, [] => []
  | .blank, c :: s =>
    if isBlank c then skip .blank s
    else if c = 35 then skip .line s
    else match s with
      | [] => [c]
      | d :: s => if c = 47 ∧ d = 42 then skip (.block 0) s else c :: d :: s
  | .line, c :: s => if c = 10 then skip .blank s else skip .line s
  | .block n, c :: s =>
    match s with
    | [] => []
    | d :: s =>
      if c = 47 ∧ d = 42 then skip (.block (n + 1)) s
      else if c = 42 ∧ d = 47 then
        match n with
        | 0 => skip .blank s
        | n + 1 => skip (.block n) s
      else skip (.block n) (d :: s)

/-! ### Tokens of several characters -/

/-- What a backslash makes of the character after it. -/
def unescaped (c : UInt8) : UInt8 :=
  if c = 110 then 10 else if c = 116 then 9 else if c = 114 then 13 else c

/-- The loops of `lex_string` behind the opening quote, with so many braces open in an interpolation: what
they collect, and what is left. The end of the source ends the string too; a backslash there adds a NUL. -/
def scan : Nat → Bytes → Bytes × Bytes
  | _, [] => ([], [])
  | 0, c :: s =>
    if c = 34 then ([], s)
    else match s with
      | [] => if c = 92 then ([0], []) else ([c], [])
      | d :: s =>
        if c = 92 then
          let r := scan 0 s
          (unescaped d :: r.1, r.2)
        else if c = 36 ∧ d = 123 then
          let r := scan 1 s
          (36 :: 123 :: r.1, r.2)
        else
          let r := scan 0 (d :: s)
          (c :: r.1, r.2)
  | n + 1, c :: s =>
    let r := scan (if c = 123 then n + 2 else if c = 125 then n else n + 1) s
    (c :: r.1, r.2)

/-- `lex_string` -/
def lexString (s : Bytes) : Token × Bytes := (.string (cstr (scan 0 s).1), (scan 0 s).2)

/-- `lex_path` -/
def lexPath (s : Bytes) : Token × Bytes := (.path (s.takeWhile isPathChar), s.dropWhile isPathChar)

/-- `keywords` -/
def keywords : List (Bytes × Token) :=
  [(ascii "if", .kwIf), (ascii "then", .kwThen), (ascii "else", .kwElse), (ascii "let", .kwLet),
    (ascii "in", .kwIn), (ascii "with", .kwWith), (ascii "rec", .kwRec), (ascii "assert", .kwAssert),
    (ascii "import", .kwImport), (ascii "or", .kwOr)]

/-- The token for a word. -/
def wordToken (word : Bytes) : Token :=
  match keywords.find? (·.1 = word) with
  | some (_, t) => t
  | none => .ident word

/-- `lex_ident` -/
def lexIdent (s : Bytes) : Token × Bytes := (wordToken (s.takeWhile isIdentChar), s.dropWhile isIdentChar)

/-- One more digit; the value is one of 64 bits. -/
def addDigit (value : Int) (c : UInt8) : Int := Int.bmod (value * 10 + (c.toNat - 48)) (2 ^ 64)

/-- `lex_integer` -/
def lexInteger (s : Bytes) : Token × Bytes :=
  (.int ((s.takeWhile isDigit).foldl addDigit 0), s.dropWhile isDigit)

/-! ### Operators -/

/-- The operators of two characters. -/
def twoChars (c d : UInt8) : Option Token :=
  if c = 43 ∧ d = 43 then some .plusPlus
  else if c = 61 ∧ d = 61 then some .eq
  else if c = 33 ∧ d = 61 then some .neq
  else if c = 60 ∧ d = 61 then some .le
  else if c = 62 ∧ d = 61 then some .ge
  else if c = 38 ∧ d = 38 then some .and
  else if c = 124 ∧ d = 124 then some .or
  else if c = 45 ∧ d = 62 then some .arrow
  else none

/-- The tokens of one character; any other is skipped, and ends the source. -/
def oneChar (c : UInt8) : Token :=
  if c = 123 then .lbrace
  else if c = 125 then .rbrace
  else if c = 91 then .lbracket
  else if c = 93 then .rbracket
  else if c = 40 then .lparen
  else if c = 41 then .rparen
  else if c = 58 then .colon
  else if c = 59 then .semicolon
  else if c = 44 then .comma
  else if c = 46 then .dot
  else if c = 61 then .equals
  else if c = 63 then .question
  else if c = 43 then .plus
  else if c = 45 then .minus
  else if c = 42 then .star
  else if c = 47 then .slash
  else if c = 60 then .lt
  else if c = 62 then .gt
  else if c = 33 then .not
  else .eof

/-- The operator at `c`, with `s` behind it. -/
def operator (c : UInt8) (s : Bytes) : Token × Bytes :=
  match s with
  | [] => (oneChar c, [])
  | d :: s =>
    match twoChars c d with
    | some t => (t, s)
    | none => (oneChar c, d :: s)

/-- Whether a path begins with `c`, with `s` behind it. -/
def beginsPath (c : UInt8) (s : Bytes) : Bool :=
  match s with
  | [] => false
  | d :: _ => (c = 47 ∧ isPathSecond d) ∨ ((c = 46 ∨ c = 126) ∧ d = 47)

/-- `nix_lexer_next`: the next token, and what is left behind it. -/
def nextToken (s : Bytes) : Token × Bytes :=
  match skip .blank s with
  | [] => (.eof, [])
  | c :: s =>
    if c = 34 then lexString s
    else if beginsPath c s then lexPath (c :: s)
    else if isAlpha c ∨ c = 95 then lexIdent (c :: s)
    else if isDigit c then lexInteger (c :: s)
    else operator c s

end Two09.Nix
