import Two09.Nix.Precedence
import Two09.Nix.Eval

/-!
# Files

A file that is one expression, from its first token to the tree of its value.
-/

namespace Two09.Nix

open Two09.Lib

/-- A file evaluates to a value. -/
def EvaluatesTo (call : Builtins) (src : Bytes) (baseDir : Option Bytes) (v : Tree) : Prop :=
  ∃ fuel h, evalFile call fuel src baseDir ⟨[], [], none⟩ = .ok (some v, h)

/-! ### The parser -/

section Parsing

variable {n m L : Nat} {p q : Parser} {a : Ast}

/-- The tokens that an operator or a keyword in front of an expression is. -/
def isPrefix : Token → Bool
  | .not | .minus | .kwIf | .kwAssert | .kwWith | .kwLet => true
  | _ => false

/-- What the innermost level parses is parsed by every level, if it fails or the outermost stops behind it. -/
lemma parserAt_atom (hp : isPrefix p.cur = false)
    (hbase : parseBase (n + 1) (parsers (n + 1)).1 (parsers (n + 1)).2 p = .ok (a, q))
    (hstop : (a.isMissing = true ∨ q.hasError = true) ∨ Stops 0 q.cur) (hL : L ≤ 11) :
    parserAt (n + 1) (m + 1) L p = .ok (a, q) := by
  induction hd : 11 - L generalizing L m with
  | zero =>
    obtain rfl : L = 11 := by omega
    exact hbase
  | succ d ih =>
    have hnext : parserAt (n + 1) (n + 1) (L + 1) p = .ok (a, q) := ih (by omega) (by omega)
    have hleft : ∀ op : Operator, op.rightAssoc = false → op.level = L →
        parserAt (n + 1) (m + 1) L p = .ok (a, q) := by
      rintro op hop rfl
      rw [parserAt_left hop]
      unfold parseBinopLeft
      rw [bind_run hnext, get_run]
      split_ifs with hdone
      · rfl
      · refine parseOperands_stop fun hmem => ?_
        obtain ⟨o, ho, -⟩ := mem_opsAt.1 hmem
        exact absurd ((hstop.resolve_left hdone).op o ho) (Nat.not_lt_zero _)
    have hright : ∀ op : Operator, op.rightAssoc = true → op.level = L →
        parserAt (n + 1) (m + 1) L p = .ok (a, q) := by
      rintro op hop rfl
      rw [parserAt_right hop]
      unfold parseBinopRight
      rw [bind_run hnext, get_run]
      split_ifs with hdone
      · rfl
      · have hcur : q.cur ≠ op.token := fun hcur =>
          absurd ((hstop.resolve_left hdone).op op hcur.symm) (Nat.not_lt_zero _)
        show (if q.cur = op.token then _ else _ : Parse Ast) q = _
        rw [if_neg hcur]
        rfl
    interval_cases L
    · exact hright .implies rfl rfl
    · exact hleft .or rfl rfl
    · exact hleft .and rfl rfl
    · exact hleft .eq rfl rfl
    · exact hleft .lt rfl rfl
    · exact hright .concat rfl rfl
    · exact hleft .add rfl rfl
    · exact hleft .mul rfl rfl
    · rw [← hnext]
      show parseUnary (applyParser (n + 1)) (m + 1) p = applyParser (n + 1) p
      unfold parseUnary
      rw [get_run]
      generalize p.cur = t at hp
      cases t <;> first | rfl | cases hp
    · show parseApply (n + 1) _ _ p = _
      unfold parseApply
      rw [bind_run (x := parseSelect (n + 1) _ _) hnext, get_run]
      split_ifs with hdone
      · rfl
      · exact parseArgs_stop fun harg =>
          absurd ((hstop.resolve_left hdone).arg harg) (Nat.not_lt_zero _)
    · show parseSelect (n + 1) _ _ p = _
      unfold parseSelect
      rw [bind_run hbase, get_run]
      split_ifs with hdone
      · rfl
      · exact parseAttrs_stop fun hdot =>
          absurd ((hstop.resolve_left hdone).dot hdot) (Nat.not_lt_zero _)
    · omega

/-- The same for a whole expression. -/
lemma parsers_atom (hp : isPrefix p.cur = false) (hno : p.hasError = false)
    (hbase : parseBase (n + 1) (parsers (n + 1)).1 (parsers (n + 1)).2 p = .ok (a, q))
    (hstop : (a.isMissing = true ∨ q.hasError = true) ∨ Stops 0 q.cur) :
    (parsers (n + 2)).1 p = .ok (a, q) := by
  rw [← parserAt_atom (m := n) (L := 0) hp hbase hstop (by omega)]
  show parseExpr (n + 1) _ _ p = _
  unfold parseExpr
  rw [get_run, if_neg (by simp [hno])]
  show (get >>= _ : Parse Ast) p = _
  rw [get_run]
  generalize p.cur = t at hp
  cases t <;> first | rfl | cases hp

lemma expect_run {t : Token} {msg : String} (h : p.cur = t) : expect t msg p = .ok ((), p.next) := by
  unfold expect
  rw [get_run, if_pos h]
  rfl

lemma parserError_run {msg : String} (h : p.hasError = false) :
    parserError msg p = .ok ((), { p with hasError := true, error := some (ascii msg) }) := by
  show Except.ok ((), if p.hasError then p else _) = _
  rw [if_neg (by simp [h])]

/-- A file that is one expression. -/
lemma nixParse_atom {src : Bytes} (hn : src.length = n) (hp : isPrefix (Parser.start src).cur = false)
    (hbase : parseBase (n + 1) (parsers (n + 1)).1 (parsers (n + 1)).2 (.start src) = .ok (a, q))
    (hend : q.hasError = true ∨ q.cur = .eof) : nixParse src = .ok (a, q.error) := by
  have hstop : (a.isMissing = true ∨ q.hasError = true) ∨ Stops 0 q.cur :=
    hend.imp Or.inr fun hcur => by
      rw [hcur]
      exact stops_eof 0
  have hparse : parseEnd a q = .ok (a, q) := by
    unfold parseEnd
    rw [get_run, if_neg fun hno => hend.elim hno.1 hno.2]
    rfl
  unfold nixParse
  rw [hn, bind_run (parsers_atom hp rfl hbase hstop), hparse]
  rfl

end Parsing

/-! ### The evaluator -/

section Evaluating

variable {call : Builtins} {fuel : Nat} {s src : Bytes} {baseDir : Option Bytes} {h h' : Heap} {p : Ptr} {v w : Val}

lemma newValue_run (v : Val) (h : Heap) :
    newValue v h = .ok (h.values.length, { h with values := h.values ++ [some v] }) := rfl

lemma newBuiltins_run (names : List BuiltinName) (h : Heap) :
    ∃ entries h', newBuiltins names h = .ok (entries, h') ∧ h'.envs = h.envs := by
  induction names generalizing h with
  | nil => exact ⟨[], h, rfl, rfl⟩
  | cons name names ih =>
    obtain ⟨entries, h', hrun, henvs⟩ := ih { h with values := h.values ++ [some (.builtin name none)] }
    refine ⟨(ascii name.text, some h.values.length) :: entries, h', ?_, henvs⟩
    unfold newBuiltins
    rw [bind_run (newValue_run _ h), bind_run hrun]
    rfl

/-- Binding a new value to a name where there is an environment. -/
lemma newBound_run {β : Type} {e : EnvPtr} (v : Val) (name : Bytes) (f : Unit → Eval β)
    (he : ∃ env, h.HoldsEnv e env) :
    ∃ h', (newValue v >>= fun p => envBind e (some name) (some p) >>= f) h = f () h' ∧
      ∃ env, h'.HoldsEnv e env := by
  obtain ⟨env, henv⟩ := he
  have halive : Heap.HoldsEnv { h with values := h.values ++ [some v] } e env := henv
  obtain ⟨h', hbind, halive⟩ : ∃ h', envBind e (some name) (some h.values.length)
      { h with values := h.values ++ [some v] } = .ok ((), h') ∧ ∃ env, h'.HoldsEnv e env :=
    ⟨_, envBind_run halive, _, holdsEnv_set halive.lt⟩
  exact ⟨h', (bind_run (newValue_run v h)).trans (bind_run hbind), halive⟩

/-- The environment that a file is evaluated in. -/
lemma nixEnvNew_run (baseDir : Option Bytes) : ∃ e h, nixEnvNew baseDir ⟨[], [], none⟩ = .ok (e, h) := by
  obtain ⟨entries, h, hbuiltins, henvs⟩ := newBuiltins_run builtinNames ⟨[], [some ⟨[], none, baseDir⟩], none⟩
  have halive : ∃ env, h.HoldsEnv 0 env := ⟨_, (congrArg (·[0]?) henvs :)⟩
  unfold nixEnvNew
  have hnew : newEnv ⟨[], none, baseDir⟩ ⟨[], [], none⟩ = .ok (0, ⟨[], [some ⟨[], none, baseDir⟩], none⟩) := rfl
  rw [bind_run hnew, bind_run hbuiltins]
  obtain ⟨h, hrun, halive⟩ := newBound_run (.attrSet entries) (ascii "builtins") _ halive
  rw [hrun]
  obtain ⟨h, hrun, halive⟩ := newBound_run (.bool true) (ascii "true") _ halive
  rw [hrun]
  obtain ⟨h, hrun, halive⟩ := newBound_run (.bool false) (ascii "false") _ halive
  rw [hrun]
  obtain ⟨h, hrun, env, henv⟩ := newBound_run .null (ascii "null") _ halive
  rw [hrun, bind_run (envBind_run henv)]
  exact ⟨_, _, rfl⟩

/-- A file that is parsed, in the environment of a file. -/
lemma evalFile_parsed (call : Builtins) {ast : Ast} {error : Option Bytes} (hparse : nixParse src = .ok (ast, error))
    (baseDir : Option Bytes) :
    ∃ e h, ∀ fuel, evalFile call fuel src baseDir ⟨[], [], none⟩ = evalParsed call fuel e ast error h := by
  obtain ⟨e, h, henv⟩ := nixEnvNew_run baseDir
  refine ⟨e, h, fun fuel => ?_⟩
  unfold evalFile
  rw [bind_run henv, hparse]

/-- A file whose tree is missing has no value. -/
lemma not_evaluatesTo_of_missing {error : Option Bytes} (hparse : nixParse src = .ok (.missing, error))
    (t : Tree) : ¬EvaluatesTo call src baseDir t := by
  rintro ⟨fuel, h', hrun⟩
  obtain ⟨e, h, hfile⟩ := evalFile_parsed call hparse baseDir
  rw [hfile] at hrun
  cases hrun

/-- What a file is up to its value, when that is no function. -/
lemma evalFile_eq (call : Builtins) {ast : Ast} {error : Option Bytes} (hparse : nixParse src = .ok (ast, error))
    (hast : ast.isMissing = false) (baseDir : Option Bytes) : ∃ e h, ∀ fuel p h' v,
      nixEval call fuel e ast h = .ok (some p, h') → h'.Holds p v → v.type ≠ 7 →
        evalFile call fuel src baseDir ⟨[], [], none⟩ = (some <$> toTree fuel (some p)) h' := by
  obtain ⟨e, h, hfile⟩ := evalFile_parsed call hparse baseDir
  refine ⟨e, { h with error }, fun fuel p h' v heval hp hv => ?_⟩
  rw [hfile]
  unfold evalParsed
  rw [modify_run, if_neg (by simp [hast]), bind_run heval]
  show (load p >>= _ : Eval (Option Tree)) h' = _
  rw [bind_run (load_run hp)]
  cases v with
  | lambda => exact absurd rfl hv
  | _ => rfl

lemma toTree_int {n : Int} (hp : h.Holds p (.int n)) : toTree (fuel + 1) (some p) h = .ok (.int n, h) := by
  unfold toTree
  rw [bind_run (load_run hp)]
  rfl

lemma toTree_string (hp : h.Holds p (.string s)) : toTree (fuel + 1) (some p) h = .ok (.string s, h) := by
  unfold toTree
  rw [bind_run (load_run hp)]
  rfl

end Evaluating

end Two09.Nix
