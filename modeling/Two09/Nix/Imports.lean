import Two09.Nix.Literals

/-!
# Imports

`import` is a keyword of the lexer, and the parser looks for an identifier of that name in front of a path:
no expression begins with the keyword, so an import is an error wherever it stands.
-/

namespace Two09.Nix

open Two09.Lib

/-! ### Places -/

/-- The parsers that read an expression, one for each place it can stand in: a whole expression, and the
operand, the argument, the item and what is selected from, which are read by a level of the grammar. -/
inductive Reader : Parse Ast → Prop
  | expr (n : Nat) : Reader (parsers (n + 2)).1
  | level (n m : Nat) {L : Nat} (hL : L ≤ 11) : Reader (parserAt (n + 1) (m + 1) L)

/-- The parser has come to `text`. -/
def Parser.At (p : Parser) (text : Bytes) : Prop := (p.cur, p.rest) = nextToken text

/-- What is read at a place evaluates to a value, in some environment. -/
def ReadsTo (call : Builtins) (read : Parse Ast) (p : Parser) (v : Tree) : Prop :=
  ∃ ast q fuel e h x h₁ h₂, read p = .ok (ast, q) ∧ nixEval call fuel e ast h = .ok (some x, h₁) ∧
    toTree fuel (some x) h₁ = .ok (v, h₂)

/-- `import` of a path, and what follows it. -/
def importOf (path rest : Bytes) : Bytes := ascii "import " ++ path ++ rest

/-- Importing the file gives what the file evaluates to, at this place. -/
def Transparent (call : Builtins) (contents : Bytes) (dir : Option Bytes) (read : Parse Ast) (p : Parser) : Prop :=
  ∀ v, EvaluatesTo call contents dir v → ReadsTo call read p v

section Import
variable {call : Builtins} {read : Parse Ast} {p : Parser} {path rest src contents : Bytes} {v : Tree}
  {baseDir dir : Option Bytes}

/-! ### What is read -/

lemma nextToken_import (path rest : Bytes) :
    nextToken (importOf path rest) = (.kwImport, 32 :: (path ++ rest)) := by
  have hword : importOf path rest = ascii "import" ++ 32 :: (path ++ rest) := by
    rw [importOf, List.append_assoc]
    rfl
  have hgap : Gapped (32 :: (path ++ rest)) := by
    intro c hc
    simpa [eq_comm] using hc
  have hchars : ∀ c ∈ ascii "import", isIdentChar c = true := by decide +kernel
  rw [hword]
  show nextToken (105 :: (ascii "mport" ++ 32 :: (path ++ rest))) = _
  rw [nextToken_cons (by decide), if_pos (by decide)]
  show (wordToken ((ascii "import" ++ 32 :: (path ++ rest)).takeWhile isIdentChar),
    (ascii "import" ++ 32 :: (path ++ rest)).dropWhile isIdentChar) = _
  rw [takeWhile_gapped hchars hgap (by decide), dropWhile_gapped hchars hgap (by decide)]
  rfl

/-- The innermost level has nothing that begins with the keyword. -/
lemma parseBase_import (n : Nat) (expr select : Parse Ast) (hp : p.cur = .kwImport) :
    ∃ q, parseBase n expr select p = .ok (.missing, q) ∧ q.hasError = true := by
  have hrun : parseBase n expr select p = (parserError "unexpected token" >>= fun _ => pure .missing) p := by
    unfold parseBase
    rw [get_run, hp]
  cases herr : p.hasError with
  | false =>
    rw [hrun, bind_run (parserError_run herr)]
    exact ⟨_, rfl, rfl⟩
  | true =>
    have hsame : parserError "unexpected token" p = .ok ((), p) := by
      show Except.ok ((), if p.hasError then p else _) = _
      rw [if_pos herr]
    rw [hrun, bind_run hsame]
    exact ⟨p, rfl, herr⟩

/-- **Whatever place it is, what begins with the keyword is missing.** -/
lemma read_import (hread : Reader read) (hp : p.cur = .kwImport) : ∃ q, read p = .ok (.missing, q) := by
  have hfront : isPrefix p.cur = false := by rw [hp]; rfl
  cases hread with
  | expr n =>
    cases herr : p.hasError with
    | false =>
      obtain ⟨q, hbase, -⟩ := parseBase_import (n + 1) (parsers (n + 1)).1 (parsers (n + 1)).2 hp
      exact ⟨q, parsers_atom hfront herr hbase (.inl (.inl rfl))⟩
    | true =>
      refine ⟨p, ?_⟩
      show parseExpr (n + 1) _ _ p = _
      unfold parseExpr
      rw [get_run, if_pos herr]
      rfl
  | level n m hL =>
    obtain ⟨q, hbase, -⟩ := parseBase_import (n + 1) (parsers (n + 1)).1 (parsers (n + 1)).2 hp
    exact ⟨q, parserAt_atom hfront hbase (.inl (.inl rfl)) hL⟩

/-- A file that is an import, and whatever comes behind it. -/
lemma nixParse_import (path rest : Bytes) :
    ∃ error, nixParse (importOf path rest) = .ok (.missing, error) := by
  have hcur : (Parser.start (importOf path rest)).cur = .kwImport := by
    rw [Parser.start, nextToken_import]
  have hfront : isPrefix (Parser.start (importOf path rest)).cur = false := by rw [hcur]; rfl
  generalize hn : (importOf path rest).length = n
  obtain ⟨q, hbase, hq⟩ := parseBase_import (n + 1) (parsers (n + 1)).1 (parsers (n + 1)).2 hcur
  exact ⟨q.error, nixParse_atom hn hfront hbase (.inl hq)⟩

lemma nixEval_missing (call : Builtins) (fuel : Nat) (e : EnvPtr) (h h' : Heap) (x : Ptr) :
    nixEval call fuel e .missing h ≠ .ok (some x, h') := by
  cases fuel with
  | zero => exact fun hno => by cases hno
  | succ n => exact fun hno => by cases hno

/-- What is missing has no value, wherever it is evaluated. -/
lemma not_readsTo_import (hread : Reader read) (hp : p.At (importOf path rest)) : ¬ ReadsTo call read p v := by
  rintro ⟨ast, q, fuel, e, h, x, h₁, h₂, hast, heval, -⟩
  have hcur : p.cur = .kwImport := by
    have hfst := congrArg Prod.fst hp
    rw [nextToken_import] at hfst
    exact hfst
  obtain ⟨q', hmissing⟩ := read_import hread hcur
  rw [hmissing] at hast
  cases hast
  exact nixEval_missing call fuel e h h₁ x heval

/-- **No import is transparent**: whatever the file evaluates to, `import` of a path has no value in any
place of another file, nor as a file of its own. -/
theorem import_not_transparent (hfile : EvaluatesTo call contents dir v) (hread : Reader read)
    (hp : p.At (importOf path rest)) :
    ¬ Transparent call contents dir read p ∧ ∀ w, ¬ EvaluatesTo call (importOf path rest) baseDir w := by
  refine ⟨fun htransparent => not_readsTo_import hread hp (htransparent v hfile), fun w => ?_⟩
  obtain ⟨error, hparse⟩ := nixParse_import path rest
  exact not_evaluatesTo_of_missing hparse w

end Import

/-! ### A string in a file -/

/-- The file is `"x"`, and `import ./p` stands at the beginning of another one. -/
theorem import_not_transparent_x :
    ¬ Transparent (fun _ _ _ _ _ => pure none) (literalOf (ascii "x")) none (parsers 2).1
        (.start (importOf (ascii "./p") [])) ∧
      ∀ w, ¬ EvaluatesTo (fun _ _ _ _ _ => pure none) (importOf (ascii "./p") []) none w :=
  import_not_transparent (literalOf_evaluatesTo (s := ascii "x") (by decide) (by decide)) (.expr 0) rfl

/-- **A file that is a string, imported from the next one, is no string there.** -/
theorem imported_string_lost :
    EvaluatesTo (fun _ _ _ _ _ => pure none) (literalOf (ascii "x")) none (.string (ascii "x")) ∧
      ¬ EvaluatesTo (fun _ _ _ _ _ => pure none) (ascii "import ./p") none (.string (ascii "x")) := by
  refine ⟨literalOf_evaluatesTo (by decide) (by decide), ?_⟩
  obtain ⟨error, hparse⟩ := nixParse_import (ascii "./p") []
  exact not_evaluatesTo_of_missing hparse _

end Two09.Nix
