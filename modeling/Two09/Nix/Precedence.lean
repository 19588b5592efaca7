import Two09.Nix.Lexing

/-!
# Precedence

Expressions of names, numbers, operators, applications and selections, written with the parentheses that the
table of the grammar asks for, and what the parser makes of them.
-/

namespace Two09.Nix

open Two09.Lib

/-! ### Expressions -/

/-- The binary operators. -/
inductive Operator
  | implies | or | and | eq | neq | lt | le | gt | ge | concat | add | sub | mul | div

namespace Operator

def token : Operator → Token
  | implies => .arrow
  | or => .or
  | and => .and
  | eq => .eq
  | neq => .neq
  | lt => .lt
  | le => .le
  | gt => .gt
  | ge => .ge
  | concat => .plusPlus
  | add => .plus
  | sub => .minus
  | mul => .star
  | div => .slash

/-- How tightly an operator binds, from the loosest. -/
def level : Operator → Nat
  | implies => 0
  | or => 1
  | and => 2
  | eq | neq => 3
  | lt | le | gt | ge => 4
  | concat => 5
  | add | sub => 6
  | mul | div => 7

def rightAssoc : Operator → Bool
  | implies | concat => true
  | _ => false

lemma level_lt (op : Operator) : op.level < 8 := by cases op <;> decide

end Operator

/-- A variable, or the name of an attribute. -/
abbrev Name := {name : Bytes // IsName name}

inductive Expr
  | name (name : Name)
  | number (value : Fin (2 ^ 63))
  | binary (op : Operator) (left right : Expr)
  | not (operand : Expr)
  | negate (operand : Expr)
  | apply (func arg : Expr)
  | select (expr : Expr) (attr : Name)

namespace Expr

/-- How tightly the outermost construct of an expression binds. -/
def level : Expr → Nat
  | binary op _ _ => op.level
  | not _ | negate _ => 8
  | apply _ _ => 9
  | select _ _ => 10
  | name _ | number _ => 11

/-- The tree of an expression. -/
def tree : Expr → Ast
  | name x => .ident x
  | number value => .int value.val
  | binary op left right => .binop op.token left.tree right.tree
  | not operand => .unaryNot operand.tree
  | negate operand => .negate operand.tree
  | apply func arg => .apply func.tree arg.tree
  | select expr attr => .select expr.tree attr

/-- Parentheses around what binds more loosely than its place. -/
def parens (place level : Nat) (tokens : List Token) : List Token :=
  if level < place then .lparen :: (tokens ++ [.rparen]) else tokens

def tokens : Expr → List Token
  | name x => [.ident x]
  | number value => [.int value.val]
  | binary op left right =>
    parens (if op.rightAssoc then op.level + 1 else op.level) left.level left.tokens ++
      op.token :: parens (if op.rightAssoc then op.level else op.level + 1) right.level right.tokens
  | not operand => .not :: parens 8 operand.level operand.tokens
  | negate operand => .minus :: parens 8 operand.level operand.tokens
  | apply func arg => parens 9 func.level func.tokens ++ parens 10 arg.level arg.tokens
  | select expr attr => parens 10 expr.level expr.tokens ++ [.dot, .ident attr]

/-- An expression in a place. -/
def tokensAt (place : Nat) (e : Expr) : List Token := parens place e.level e.tokens

/-- The text of an expression. -/
def render (e : Expr) : Bytes := spellAll e.tokens

/-! ### Its tokens -/

variable {e : Expr} {L : Nat}

lemma tokensAt_of_le (h : L ≤ e.level) : e.tokensAt L = e.tokens := if_neg (by omega)

lemma tokensAt_of_lt (h : e.level < L) : e.tokensAt L = .lparen :: (e.tokens ++ [.rparen]) := if_pos h

lemma tokensAt_succ (h : e.level ≠ L) : e.tokensAt L = e.tokensAt (L + 1) := by
  rcases Nat.lt_or_gt_of_ne h with hlt | hgt
  · rw [tokensAt_of_lt hlt, tokensAt_of_lt (by omega)]
  · rw [tokensAt_of_le hgt.le, tokensAt_of_le hgt]

lemma spelled_parens {place level : Nat} {tokens : List Token} (h : ∀ t ∈ tokens, Spelled t) :
    ∀ t ∈ parens place level tokens, Spelled t := by
  unfold parens
  split_ifs
  · intro t ht
    simp only [List.mem_cons, List.mem_append, List.not_mem_nil, or_false] at ht
    rcases ht with rfl | ht | rfl
    · exact .symbol (by decide)
    · exact h t ht
    · exact .symbol (by decide)
  · exact h

lemma spelled_token (op : Operator) : Spelled op.token := .symbol (by cases op <;> decide)

lemma spelled_tokens (e : Expr) : ∀ t ∈ e.tokens, Spelled t := by
  induction e with
  | name x =>
    intro t ht
    obtain rfl := List.mem_singleton.1 ht
    exact .name x.2
  | number value =>
    intro t ht
    obtain rfl := List.mem_singleton.1 ht
    exact .number value.2
  | binary op left right hleft hright =>
    intro t ht
    rcases List.mem_append.1 ht with ht | ht
    · exact spelled_parens hleft t ht
    · rcases List.mem_cons.1 ht with rfl | ht
      · exact spelled_token op
      · exact spelled_parens hright t ht
  | not operand ih =>
    intro t ht
    rcases List.mem_cons.1 ht with rfl | ht
    · exact .symbol (by decide)
    · exact spelled_parens ih t ht
  | negate operand ih =>
    intro t ht
    rcases List.mem_cons.1 ht with rfl | ht
    · exact .symbol (by decide)
    · exact spelled_parens ih t ht
  | apply func arg hfunc harg =>
    intro t ht
    rcases List.mem_append.1 ht with ht | ht
    · exact spelled_parens hfunc t ht
    · exact spelled_parens harg t ht
  | select expr attr ih =>
    intro t ht
    rcases List.mem_append.1 ht with ht | ht
    · exact spelled_parens ih t ht
    · simp only [List.mem_cons, List.not_mem_nil, or_false] at ht
      rcases ht with rfl | rfl
      · exact .symbol (by decide)
      · exact .name attr.2

/-- The tokens that an operand begins with. -/
inductive Opens : Token → Prop
  | lparen : Opens .lparen
  | ident (name : Bytes) : Opens (.ident name)
  | int (value : Int) : Opens (.int value)

lemma opens_parens (place : Nat) {level : Nat} {tokens : List Token}
    (h : place ≤ level → ∃ t ts, tokens = t :: ts ∧ Opens t) :
    ∃ t ts, parens place level tokens = t :: ts ∧ Opens t := by
  unfold parens
  split_ifs with hlt
  · exact ⟨_, _, rfl, .lparen⟩
  · exact h (by omega)

/-- An application, and what binds more tightly, begins with an operand. -/
lemma opens_tokens (h : 9 ≤ e.level) : ∃ t ts, e.tokens = t :: ts ∧ Opens t := by
  induction e with
  | name x => exact ⟨_, _, rfl, .ident _⟩
  | number value => exact ⟨_, _, rfl, .int _⟩
  | binary op left right =>
    have hop := op.level_lt
    exact absurd h (by show ¬9 ≤ op.level; omega)
  | not operand => exact absurd h (by show ¬9 ≤ 8; omega)
  | negate operand => exact absurd h (by show ¬9 ≤ 8; omega)
  | apply func arg hfunc =>
    obtain ⟨t, ts, heq, ht⟩ := opens_parens 9 hfunc
    exact ⟨t, _, (congrArg (· ++ _) heq).trans (List.cons_append ..), ht⟩
  | select expr attr ih =>
    obtain ⟨t, ts, heq, ht⟩ := opens_parens 10 fun hle : 10 ≤ expr.level => ih (by omega)
    exact ⟨t, _, (congrArg (· ++ _) heq).trans (List.cons_append ..), ht⟩

lemma opens_tokensAt (h : 9 ≤ L) : ∃ t ts, e.tokensAt L = t :: ts ∧ Opens t :=
  opens_parens L fun hle => opens_tokens (h.trans hle)

/-- An expression begins with an operand or with a prefix. -/
lemma begins_tokens (e : Expr) : ∃ t ts, e.tokens = t :: ts ∧ (Opens t ∨ t = .not ∨ t = .minus) := by
  induction e with
  | name x => exact ⟨_, _, rfl, .inl (.ident _)⟩
  | number value => exact ⟨_, _, rfl, .inl (.int _)⟩
  | binary op left right hleft =>
    obtain ⟨t, ts, heq, ht⟩ : ∃ t ts, left.tokensAt (if op.rightAssoc then op.level + 1 else op.level) = t :: ts ∧
        (Opens t ∨ t = .not ∨ t = .minus) := by
      rcases Nat.lt_or_ge left.level (if op.rightAssoc then op.level + 1 else op.level) with hlt | hle
      · exact ⟨_, _, tokensAt_of_lt hlt, .inl .lparen⟩
      · rw [tokensAt_of_le hle]
        exact hleft
    exact ⟨t, _, (congrArg (· ++ _) heq).trans (List.cons_append ..), ht⟩
  | not operand => exact ⟨_, _, rfl, .inr (.inl rfl)⟩
  | negate operand => exact ⟨_, _, rfl, .inr (.inr rfl)⟩
  | apply func arg =>
    obtain ⟨t, ts, heq, ht⟩ := opens_tokens (e := apply func arg) (by show 9 ≤ 9; omega)
    exact ⟨t, ts, heq, .inl ht⟩
  | select expr attr =>
    obtain ⟨t, ts, heq, ht⟩ := opens_tokens (e := select expr attr) (by show 9 ≤ 10; omega)
    exact ⟨t, ts, heq, .inl ht⟩

lemma length_tokensAt_pos (L : Nat) (e : Expr) : 0 < (e.tokensAt L).length := by
  obtain ⟨t, ts, heq, -⟩ := begins_tokens e
  unfold tokensAt parens
  split_ifs
  · exact Nat.succ_pos _
  · rw [heq]
    exact Nat.succ_pos _

lemma isMissing_tree (e : Expr) : e.tree.isMissing = false := by cases e <;> rfl

end Expr

/-! ### The levels of the parser -/

/-- The parser of applications with so many rounds. -/
def applyParser (n : Nat) : Parse Ast := parseApply n (parsers n).1 (parsers n).2

/-- The parser of a level; one that calls itself has `m` rounds of its own. -/
def parserAt (n m : Nat) : Nat → Parse Ast
  | 0 => parseBinopRight (parseOr n (applyParser n)) .arrow m
  | 1 => parseOr n (applyParser n)
  | 2 => parseAnd n (applyParser n)
  | 3 => parseEquality n (applyParser n)
  | 4 => parseComparison n (applyParser n)
  | 5 => parseBinopRight (parseAdd n (applyParser n)) .plusPlus m
  | 6 => parseAdd n (applyParser n)
  | 7 => parseMul n (applyParser n)
  | 8 => parseUnary (applyParser n) m
  | 9 => applyParser n
  | 10 => parseSelect n (parsers n).1 (parsers n).2
  | _ => parseBase n (parsers n).1 (parsers n).2

def operators : List Operator :=
  [.implies, .or, .and, .eq, .neq, .lt, .le, .gt, .ge, .concat, .add, .sub, .mul, .div]

lemma mem_operators (o : Operator) : o ∈ operators := by cases o <;> simp [operators]

/-- The operators of a level. -/
def opsAt (L : Nat) : List Token := (operators.filter (·.level = L)).map Operator.token

lemma parserAt_left {op : Operator} (h : op.rightAssoc = false) (n m : Nat) :
    parserAt n m op.level = parseBinopLeft n (parserAt n n (op.level + 1)) (opsAt op.level) := by
  cases op <;> first | rfl | cases h

lemma parserAt_right {op : Operator} (h : op.rightAssoc = true) (n m : Nat) :
    parserAt n m op.level = parseBinopRight (parserAt n n (op.level + 1)) op.token m := by
  cases op <;> first | rfl | cases h

lemma mem_opsAt {L : Nat} {t : Token} : t ∈ opsAt L ↔ ∃ o : Operator, o.token = t ∧ o.level = L := by
  simp [opsAt, mem_operators, and_comm]

lemma op_eq_of_level {op o : Operator} (h : op.rightAssoc = true) (ho : o.level = op.level) : o = op := by
  cases op <;> cases o <;> first | rfl | exact absurd h (by decide) | exact absurd ho (by decide)

/-! ### Where a level stops -/

/-- The parser of the level `L` does not go on at `t`. -/
structure Stops (L : Nat) (t : Token) : Prop where
  colon : t ≠ .colon
  kwOr : t ≠ .kwOr
  dot : t = .dot → 10 < L
  arg : beginsArg t = true → 9 < L
  op : ∀ o : Operator, o.token = t → o.level < L

lemma Stops.mono {L M : Nat} {t : Token} (h : Stops L t) (hle : L ≤ M) : Stops M t :=
  ⟨h.colon, h.kwOr, fun hdot => (h.dot hdot).trans_le hle, fun harg => (h.arg harg).trans_le hle,
    fun o ho => (h.op o ho).trans_le hle⟩

lemma token_injective {o op : Operator} (h : o.token = op.token) : o = op := by
  cases op <;> cases o <;> first | rfl | cases h

lemma stops_op {op : Operator} {L : Nat} (h : op.level < L) : Stops L op.token := by
  refine ⟨?_, ?_, ?_, ?_, fun o ho => token_injective ho ▸ h⟩ <;> cases op <;>
    first | exact Token.noConfusion | exact fun hno => absurd hno (by decide)

lemma stops_eof (L : Nat) : Stops L .eof :=
  ⟨by decide, by decide, fun hno => (by cases hno), fun hno => (by cases hno),
    fun o ho => (by cases o <;> cases ho)⟩

lemma stops_rparen (L : Nat) : Stops L .rparen :=
  ⟨by decide, by decide, fun hno => (by cases hno), fun hno => (by cases hno),
    fun o ho => (by cases o <;> cases ho)⟩

lemma stops_dot {L : Nat} (h : 10 < L) : Stops L .dot :=
  ⟨by decide, by decide, fun _ => h, fun hno => (by cases hno), fun o ho => (by cases o <;> cases ho)⟩

lemma stops_opens {L : Nat} (h : 9 < L) {t : Token} (ht : Expr.Opens t) : Stops L t := by
  cases ht <;> refine ⟨Token.noConfusion, Token.noConfusion, fun hno => (by cases hno), fun _ => h,
    fun o ho => (by cases o <;> cases ho)⟩

/-! ### One round of each loop -/

section Round

variable {next : Parse Ast} {ops : List Token} {n : Nat} {left a : Ast} {p q : Parser}

lemma parseOperands_op (herr : p.hasError = false) (hop : p.cur ∈ ops) (hnext : next p.next = .ok (a, q))
    (ha : a.isMissing = false) :
    parseOperands next ops (n + 1) left p = parseOperands next ops n (.binop p.cur left a) q := by
  unfold parseOperands
  rw [get_run, if_pos ⟨by simp [herr], hop⟩, advance_run, bind_run hnext, if_neg (by simp [ha])]
  cases n <;> rfl

lemma parseOperands_stop (hop : p.cur ∉ ops) : parseOperands next ops (n + 1) left p = .ok (left, p) := by
  unfold parseOperands
  rw [get_run, if_neg (fun h => hop h.2)]
  rfl

lemma parseArgs_arg (herr : p.hasError = false) (harg : beginsArg p.cur = true)
    (hnext : next p = .ok (a, q)) (ha : a.isMissing = false) :
    parseArgs next (n + 1) left p = parseArgs next n (.apply left a) q := by
  unfold parseArgs
  rw [get_run, if_pos ⟨by simp [herr], harg⟩, bind_run hnext, if_neg (by simp [ha])]
  cases n <;> rfl

lemma parseArgs_stop (harg : ¬beginsArg p.cur = true) : parseArgs next (n + 1) left p = .ok (left, p) := by
  unfold parseArgs
  rw [get_run, if_neg (fun h => harg h.2)]
  rfl

lemma parseAttrs_attr {attr : Bytes} (hdot : p.cur = .dot) (hattr : p.next.cur = .ident attr)
    (hor : p.next.next.cur ≠ .kwOr) :
    parseAttrs next (n + 1) left p = parseAttrs next n (.select left attr) p.next.next := by
  unfold parseAttrs
  rw [get_run, if_pos hdot, advance_run, get_run]
  simp only [hattr]
  rw [advance_run, get_run, if_neg hor]
  cases n <;> rfl

lemma parseAttrs_stop (hdot : p.cur ≠ .dot) : parseAttrs next (n + 1) left p = .ok (left, p) := by
  unfold parseAttrs
  rw [get_run, if_neg hdot]
  rfl

end Round

/-! ### Parsing what is written -/

/-- Written in a place of the level `L`, the expression is parsed. -/
def Parses (n m L : Nat) (e : Expr) : Prop :=
  ∀ p rest, p.Sees (e.tokensAt L ++ rest) → Stops L (rest.headD .eof) →
    ∃ q, parserAt n m L p = .ok (e.tree, q) ∧ q.Sees rest

variable {n m L N : Nat} {e : Expr} {p : Parser} {rest : List Token}

lemma cur_of_sees {t : Token} (h : p.Sees (t :: rest)) : p.cur = t := h.cur

/-- A loop that has parsed the expression goes on behind it. -/
def Loops (loop : Nat → Ast → Parse Ast) (n m L M : Nat) (e : Expr) : Prop :=
  ∀ p rest, p.Sees (e.tokensAt L ++ rest) → Stops M (rest.headD .eof) →
    ∃ k q, k < (e.tokensAt L).length ∧ parserAt n m L p = loop (n - k) e.tree q ∧ q.Sees rest

/-- A loop that stops parses. -/
lemma Loops.parses {loop : Nat → Ast → Parse Ast} {M : Nat} (h : Loops loop n m L M e) (hle : L ≤ M)
    (hn : (e.tokensAt L).length ≤ n)
    (hstop : ∀ k left q, Stops L q.cur → loop (k + 1) left q = .ok (left, q)) : Parses n m L e := by
  intro p rest hp hrest
  obtain ⟨k, q, hk, hrun, hq⟩ := h p rest hp (hrest.mono hle)
  refine ⟨q, ?_, hq⟩
  obtain ⟨j, hj⟩ : ∃ j, n - k = j + 1 := ⟨n - k - 1, by omega⟩
  rw [hrun, hj, hstop j e.tree q (hq.cur ▸ hrest)]

/-- A loop begins behind an expression that the next level parses. -/
lemma loops_of_parses {op : Operator} (hop : op.rightAssoc = false) (hne : e.level ≠ op.level)
    (h : Parses n n (op.level + 1) e) :
    Loops (parseOperands (parserAt n n (op.level + 1)) (opsAt op.level)) n m op.level (op.level + 1) e := by
  intro p rest hp hrest
  rw [Expr.tokensAt_succ hne] at hp
  obtain ⟨q, hrun, hq⟩ := h p rest hp hrest
  refine ⟨0, q, Expr.length_tokensAt_pos _ _, ?_, hq⟩
  rw [parserAt_left hop]
  unfold parseBinopLeft
  rw [bind_run hrun, get_run, if_neg (by simp [Expr.isMissing_tree, hq.hasError])]
  rfl

lemma tokensAt_left {o op : Operator} (hop : op.rightAssoc = false) (h : o.level = op.level) (left right : Expr) :
    (Expr.binary o left right).tokensAt op.level =
      left.tokensAt op.level ++ o.token :: right.tokensAt (op.level + 1) := by
  have ho : o.rightAssoc = false := by
    cases hright : o.rightAssoc with
    | false => rfl
    | true =>
      rw [← op_eq_of_level hright h.symm, hop] at hright
      cases hright
  rw [Expr.tokensAt_of_le h.ge]
  show Expr.parens _ _ _ ++ _ = _
  rw [ho, h]
  rfl

lemma loops_left {op : Operator} (hop : op.rightAssoc = false)
    (ih : ∀ e, (e.tokensAt (op.level + 1)).length ≤ n → Parses n n (op.level + 1) e)
    (hn : (e.tokensAt op.level).length ≤ n) :
    Loops (parseOperands (parserAt n n (op.level + 1)) (opsAt op.level)) n m op.level (op.level + 1) e := by
  induction e with
  | binary o left right hleft hright =>
    by_cases hlevel : o.level = op.level
    · have htokens := tokensAt_left hop hlevel left right
      rw [htokens, List.length_append, List.length_cons] at hn
      intro p rest hp hrest
      rw [htokens, List.append_assoc, List.cons_append] at hp
      obtain ⟨k, q, hk, hrun, hq⟩ := hleft (by omega) p _ hp (stops_op (by omega))
      obtain ⟨r, hright, hr⟩ := ih right (by omega) q.next rest hq.next hrest
      refine ⟨k + 1, r, ?_, ?_, hr⟩
      · rw [htokens, List.length_append, List.length_cons]
        omega
      · obtain ⟨j, hj⟩ : ∃ j, n - k = j + 1 := ⟨n - k - 1, by omega⟩
        have hcur : q.cur = o.token := hq.cur
        rw [hrun, hj, parseOperands_op hq.hasError (hcur ▸ mem_opsAt.2 ⟨o, rfl, hlevel⟩) hright
          (Expr.isMissing_tree _), hcur, show n - (k + 1) = j by omega]
        rfl
    · have hne : (Expr.binary o left right).level ≠ op.level := hlevel
      exact loops_of_parses hop hne (ih _ (by rwa [← Expr.tokensAt_succ hne]))
  | name _ | number _ | not _ | negate _ | apply _ _ | select _ _ =>
    have hlt := op.level_lt
    refine loops_of_parses hop ?_ (ih _ ?_)
    · simp only [Expr.level]
      omega
    · rwa [← Expr.tokensAt_succ (by simp only [Expr.level]; omega)]

/-- A level of left-associative operators. -/
lemma parses_left (op : Operator) (hop : op.rightAssoc = false)
    (ih : ∀ e, (e.tokensAt (op.level + 1)).length ≤ n → Parses n n (op.level + 1) e)
    (hn : (e.tokensAt op.level).length ≤ n) : Parses n m op.level e := by
  refine (loops_left hop ih hn).parses (by omega) hn fun k left q hq => ?_
  refine parseOperands_stop fun hmem => ?_
  obtain ⟨o, ho, hlevel⟩ := mem_opsAt.1 hmem
  exact absurd (hq.op o ho) (by omega)

lemma exists_rounds {L : Nat} (h : (e.tokensAt L).length ≤ m) : ∃ k, m = k + 1 := by
  have hpos := Expr.length_tokensAt_pos L e
  exact ⟨m - 1, by omega⟩

lemma tokensAt_right {op : Operator} (hop : op.rightAssoc = true) (left right : Expr) :
    (Expr.binary op left right).tokensAt op.level =
      left.tokensAt (op.level + 1) ++ op.token :: right.tokensAt op.level := by
  have hle : op.level ≤ (Expr.binary op left right).level := le_rfl
  rw [Expr.tokensAt_of_le hle]
  show Expr.parens _ _ _ ++ _ = _
  rw [hop]
  rfl

/-- A level of one right-associative operator, which calls itself for the right operand. -/
lemma parses_right (op : Operator) (hop : op.rightAssoc = true)
    (ih : ∀ e, (e.tokensAt (op.level + 1)).length ≤ n → Parses n n (op.level + 1) e)
    (hn : (e.tokensAt op.level).length ≤ n) (hm : (e.tokensAt op.level).length ≤ m) : Parses n m op.level e := by
  -- on what the operator does not join, the level is the next one
  have hnext : ∀ m e, e.level ≠ op.level → (e.tokensAt op.level).length ≤ n → Parses n (m + 1) op.level e := by
    intro m e hne hn p rest hp hrest
    rw [Expr.tokensAt_succ hne] at hp hn
    obtain ⟨q, hrun, hq⟩ := ih e hn p rest hp (hrest.mono (by omega))
    have hcur : q.cur ≠ op.token := fun hcur => absurd (hrest.op op (hcur.symm.trans hq.cur)) (by omega)
    refine ⟨q, ?_, hq⟩
    rw [parserAt_right hop]
    unfold parseBinopRight
    rw [bind_run hrun, get_run, if_neg (by simp [Expr.isMissing_tree, hq.hasError])]
    show (if q.cur = op.token then _ else _ : Parse Ast) q = _
    rw [if_neg hcur]
    rfl
  induction e generalizing m with
  | binary o left right hleft hright =>
    obtain ⟨m, rfl⟩ := exists_rounds hm
    by_cases hlevel : o.level = op.level
    · obtain rfl := op_eq_of_level hop hlevel
      intro p rest hp hrest
      rw [tokensAt_right hop, List.length_append, List.length_cons] at hn hm
      rw [tokensAt_right hop, List.append_assoc, List.cons_append] at hp
      have hpos := Expr.length_tokensAt_pos (o.level + 1) left
      obtain ⟨q, hrun, hq⟩ := ih left (by omega) p _ hp (stops_op (by omega))
      obtain ⟨r, hrunr, hr⟩ := hright (m := m) (by omega) (by omega) q.next rest hq.next hrest
      refine ⟨r, ?_, hr⟩
      rw [parserAt_right hop] at hrunr ⊢
      unfold parseBinopRight
      rw [bind_run hrun, get_run, if_neg (by simp [Expr.isMissing_tree, hq.hasError])]
      show (if q.cur = o.token then _ else _ : Parse Ast) q = _
      rw [if_pos (cur_of_sees hq), advance_run, bind_run hrunr, if_neg (by simp [Expr.isMissing_tree])]
      rfl
    · exact hnext m _ hlevel hn
  | name _ | number _ | not _ | negate _ | apply _ _ | select _ _ =>
    have hlt := op.level_lt
    obtain ⟨m, rfl⟩ := exists_rounds hm
    refine hnext m _ ?_ hn
    simp only [Expr.level]
    omega

/-- An operator in front of an operand takes one round more. -/
lemma parses_prefixed {t : Token} {operand : Expr} (htokens : e.tokensAt 8 = t :: operand.tokensAt 8)
    (hround : ∀ m (p q : Parser), p.cur = t → parseUnary (applyParser n) m p.next = .ok (operand.tree, q) →
      parseUnary (applyParser n) (m + 1) p = .ok (e.tree, q))
    (ih : ∀ {m}, (operand.tokensAt 8).length ≤ n → (operand.tokensAt 8).length ≤ m → Parses n m 8 operand)
    (hn : (e.tokensAt 8).length ≤ n) (hm : (e.tokensAt 8).length ≤ m) : Parses n m 8 e := by
  obtain ⟨m, rfl⟩ := exists_rounds hm
  rw [htokens, List.length_cons] at hn hm
  intro p rest hp hrest
  rw [htokens] at hp
  obtain ⟨q, hrun, hq⟩ := ih (m := m) (by omega) (by omega) p.next rest hp.next hrest
  exact ⟨q, hround m p q hp.cur hrun, hq⟩

/-- The level of the prefixes, which calls itself for the operand. -/
lemma parses_unary (ih : ∀ e, (e.tokensAt 9).length ≤ n → Parses n n 9 e)
    (hn : (e.tokensAt 8).length ≤ n) (hm : (e.tokensAt 8).length ≤ m) : Parses n m 8 e := by
  have hnext : ∀ m e, e.level ≠ 8 → (e.tokensAt 8).length ≤ n → Parses n (m + 1) 8 e := by
    intro m e hne hn p rest hp hrest
    rw [Expr.tokensAt_succ hne] at hp hn
    obtain ⟨q, hrun, hq⟩ := ih e hn p rest hp (hrest.mono (by omega))
    obtain ⟨t, ts, htokens, ht⟩ := Expr.opens_tokensAt (e := e) (L := 9) le_rfl
    rw [htokens] at hp
    refine ⟨q, ?_, hq⟩
    rw [← hrun]
    show parseUnary (applyParser n) (m + 1) p = applyParser n p
    unfold parseUnary
    rw [get_run, cur_of_sees hp]
    cases ht <;> rfl
  induction e generalizing m with
  | not operand ih =>
    refine parses_prefixed (t := .not) rfl (fun m p q hcur hrun => ?_) ih hn hm
    unfold parseUnary
    rw [get_run, hcur]
    show (advance >>= _ : Parse Ast) p = _
    rw [advance_run, bind_run hrun, Expr.isMissing_tree]
    rfl
  | negate operand ih =>
    refine parses_prefixed (t := .minus) rfl (fun m p q hcur hrun => ?_) ih hn hm
    unfold parseUnary
    rw [get_run, hcur]
    show (advance >>= _ : Parse Ast) p = _
    rw [advance_run, bind_run hrun, Expr.isMissing_tree]
    rfl
  | binary o _ _ =>
    have hlt := o.level_lt
    obtain ⟨m, rfl⟩ := exists_rounds hm
    refine hnext m _ ?_ hn
    simp only [Expr.level]
    omega
  | name _ | number _ | apply _ _ | select _ _ =>
    obtain ⟨m, rfl⟩ := exists_rounds hm
    exact hnext m _ (by simp only [Expr.level]; omega) hn

/-- The level of applications, whose arguments are selections. -/
lemma parses_apply (ih : ∀ e, (e.tokensAt 10).length ≤ n → Parses n n 10 e)
    (hn : (e.tokensAt 9).length ≤ n) : Parses n m 9 e := by
  have hnext : ∀ e, e.level ≠ 9 → (e.tokensAt 9).length ≤ n →
      Loops (parseArgs (parserAt n n 10)) n m 9 10 e := by
    intro e hne hn p rest hp hrest
    rw [Expr.tokensAt_succ hne] at hp hn
    obtain ⟨q, hrun, hq⟩ := ih e hn p rest hp hrest
    refine ⟨0, q, Expr.length_tokensAt_pos _ _, ?_, hq⟩
    change parseSelect n (parsers n).1 (parsers n).2 p = _ at hrun
    show parseApply n (parsers n).1 (parsers n).2 p = _
    unfold parseApply
    rw [bind_run hrun, get_run, if_neg (by simp [Expr.isMissing_tree, hq.hasError])]
    rfl
  have hloops : Loops (parseArgs (parserAt n n 10)) n m 9 10 e := by
    induction e with
    | apply func arg hfunc =>
      have htokens : (func.apply arg).tokensAt 9 = func.tokensAt 9 ++ arg.tokensAt 10 := rfl
      rw [htokens, List.length_append] at hn
      intro p rest hp hrest
      rw [htokens, List.append_assoc] at hp
      obtain ⟨t, ts, heq, ht⟩ := Expr.opens_tokensAt (e := arg) (L := 10) (by omega)
      have hpos := Expr.length_tokensAt_pos 10 arg
      have hstops : Stops 10 ((arg.tokensAt 10 ++ rest).headD .eof) := by
        rw [heq]
        exact stops_opens (by omega) ht
      obtain ⟨k, q, hk, hrun, hq⟩ := hfunc (by omega) p _ hp hstops
      obtain ⟨r, harg, hr⟩ := ih arg (by omega) q rest hq hrest
      have hbegins : beginsArg q.cur = true := by
        rw [hq.cur, heq]
        cases ht <;> rfl
      refine ⟨k + 1, r, ?_, ?_, hr⟩
      · rw [htokens, List.length_append]
        omega
      · obtain ⟨j, hj⟩ : ∃ j, n - k = j + 1 := ⟨n - k - 1, by omega⟩
        rw [hrun, hj, parseArgs_arg hq.hasError hbegins harg (Expr.isMissing_tree _),
          show n - (k + 1) = j by omega]
        rfl
    | binary o _ _ =>
      have hlt := o.level_lt
      exact hnext _ (by simp only [Expr.level]; omega) hn
    | name _ | number _ | not _ | negate _ | select _ _ =>
      exact hnext _ (by simp only [Expr.level]; omega) hn
  refine hloops.parses (by omega) hn fun k left q hq => parseArgs_stop fun harg => ?_
  exact absurd (hq.arg harg) (by omega)

/-- The level of selections. -/
lemma parses_select (ih : ∀ e, (e.tokensAt 11).length ≤ n → Parses n n 11 e)
    (hn : (e.tokensAt 10).length ≤ n) : Parses n m 10 e := by
  have hnext : ∀ e, e.level ≠ 10 → (e.tokensAt 10).length ≤ n →
      Loops (parseAttrs (parsers n).2) n m 10 11 e := by
    intro e hne hn p rest hp hrest
    rw [Expr.tokensAt_succ hne] at hp hn
    obtain ⟨q, hrun, hq⟩ := ih e hn p rest hp hrest
    refine ⟨0, q, Expr.length_tokensAt_pos _ _, ?_, hq⟩
    change parseBase n (parsers n).1 (parsers n).2 p = _ at hrun
    show parseSelect n (parsers n).1 (parsers n).2 p = _
    unfold parseSelect
    rw [bind_run hrun, get_run, if_neg (by simp [Expr.isMissing_tree, hq.hasError])]
    rfl
  have hloops : Loops (parseAttrs (parsers n).2) n m 10 11 e := by
    induction e with
    | select expr attr hexpr =>
      have htokens : (expr.select attr).tokensAt 10 = expr.tokensAt 10 ++ [.dot, .ident attr] := rfl
      rw [htokens, List.length_append] at hn
      intro p rest hp hrest
      rw [htokens, List.append_assoc] at hp
      have hlen : [Token.dot, .ident attr].length = 2 := rfl
      obtain ⟨k, q, hk, hrun, hq⟩ := hexpr (by omega) p _ hp (stops_dot (by omega))
      have hor : q.next.next.cur ≠ .kwOr := hq.next.next.cur ▸ hrest.kwOr
      refine ⟨k + 1, q.next.next, ?_, ?_, hq.next.next⟩
      · rw [htokens, List.length_append]
        omega
      · obtain ⟨j, hj⟩ : ∃ j, n - k = j + 1 := ⟨n - k - 1, by omega⟩
        rw [hrun, hj, parseAttrs_attr hq.cur hq.next.cur hor, show n - (k + 1) = j by omega]
        rfl
    | binary o _ _ =>
      have hlt := o.level_lt
      exact hnext _ (by simp only [Expr.level]; omega) hn
    | name _ | number _ | not _ | negate _ | apply _ _ =>
      exact hnext _ (by simp only [Expr.level]; omega) hn
  refine hloops.parses (by omega) hn fun k left q hq => parseAttrs_stop fun hdot => ?_
  exact absurd (hq.dot hdot) (by omega)

/-- What is not a reserved word is a variable, unless a colon follows. -/
lemma parseWord_name {expr : Parse Ast} {name : Bytes} (h : IsName name) (hcolon : p.cur ≠ .colon) :
    parseWord expr name p = .ok (.ident name, p) := by
  have hne : ∀ word ∈ reserved, name ≠ word := fun word hword heq => h.free (heq ▸ hword)
  have hword : parseWord.word name = .ident name := by
    unfold parseWord.word
    rw [if_neg (hne _ (by decide)), if_neg (hne _ (by decide)), if_neg (hne _ (by decide))]
  have himport : name ≠ ascii "import" := hne _ (by decide)
  unfold parseWord
  rw [get_run]
  simp only [if_neg himport, hword]
  cases hcur : p.cur <;> first | exact absurd hcur hcolon | rfl

/-- An expression that begins with no keyword is parsed at the outermost level. -/
lemma parsers_expr (hp : p.Sees (e.tokensAt 0 ++ rest)) : (parsers (n + 1)).1 p = parserAt n n 0 p := by
  obtain ⟨t, ts, htokens, ht⟩ := Expr.begins_tokens e
  rw [Expr.tokensAt_of_le (Nat.zero_le _), htokens] at hp
  show parseExpr n (parsers n).1 (parsers n).2 p = _
  unfold parseExpr
  rw [get_run, if_neg (by simp [hp.hasError])]
  show (get >>= _ : Parse Ast) p = _
  rw [get_run, cur_of_sees hp]
  rcases ht with (_ | _ | _) | rfl | rfl <;> rfl

/-- The innermost level, given the outermost of the level below. -/
lemma parses_base {e : Expr} (hn : (e.tokensAt 11).length ≤ n + 1)
    (ih : e.tokens.length + 2 ≤ n + 1 → Parses n n 0 e) : Parses (n + 1) m 11 e := by
  have hparens : e.level < 11 → Parses (n + 1) m 11 e := by
    intro hlt p rest hp hrest
    rw [Expr.tokensAt_of_lt hlt] at hp hn
    rw [List.length_cons, List.length_append] at hn
    rw [List.cons_append, List.append_assoc] at hp
    have hnext : p.next.Sees (e.tokensAt 0 ++ ([.rparen] ++ rest)) := by
      rw [Expr.tokensAt_of_le (Nat.zero_le _)]
      exact hp.next
    obtain ⟨q, hrun, hq⟩ := ih hn p.next _ hnext (stops_rparen 0)
    refine ⟨q.next, ?_, hq.next⟩
    have hexpr := (parsers_expr hnext).trans hrun
    show parseBase (n + 1) (parsers (n + 1)).1 (parsers (n + 1)).2 p = _
    unfold parseBase
    rw [get_run, cur_of_sees hp]
    show (advance >>= _ : Parse Ast) p = _
    rw [advance_run, bind_run hexpr]
    have hexpect : expect .rparen "expected ')'" q = .ok ((), q.next) := by
      unfold expect
      rw [get_run, if_pos (cur_of_sees hq)]
      rfl
    rw [bind_run hexpect]
    rfl
  cases e with
  | name x =>
    intro p rest hp hrest
    have hcur : p.cur = .ident x := hp.cur
    refine ⟨p.next, ?_, hp.next⟩
    show parseBase (n + 1) (parsers (n + 1)).1 (parsers (n + 1)).2 p = _
    unfold parseBase
    rw [get_run, hcur]
    show (advance >>= _ : Parse Ast) p = _
    rw [advance_run, parseWord_name x.2]
    · rfl
    · rw [hp.next.cur]
      exact hrest.colon
  | number value =>
    intro p rest hp hrest
    have hcur : p.cur = .int value.val := hp.cur
    refine ⟨p.next, ?_, hp.next⟩
    show parseBase (n + 1) (parsers (n + 1)).1 (parsers (n + 1)).2 p = _
    unfold parseBase
    rw [get_run, hcur]
    rfl
  | binary o _ _ =>
    have hlt := o.level_lt
    exact hparens (by simp only [Expr.level]; omega)
  | not _ | negate _ | apply _ _ | select _ _ => exact hparens (by simp only [Expr.level]; omega)

/-- From the innermost level to the outermost. -/
lemma parses_levels (h11 : ∀ m e, (e.tokensAt 11).length ≤ n → Parses n m 11 e) {L : Nat} (hL : L ≤ 11)
    (hn : (e.tokensAt L).length ≤ n) (hm : (e.tokensAt L).length ≤ m) : Parses n m L e := by
  induction hd : 11 - L generalizing L m e with
  | zero =>
    obtain rfl : L = 11 := by omega
    exact h11 m e hn
  | succ d ihd =>
    have ih : ∀ e : Expr, (e.tokensAt (L + 1)).length ≤ n → Parses n n (L + 1) e :=
      fun e hn => ihd (by omega) hn hn (by omega)
    interval_cases L
    · exact parses_right .implies rfl ih hn hm
    · exact parses_left .or rfl ih hn
    · exact parses_left .and rfl ih hn
    · exact parses_left .eq rfl ih hn
    · exact parses_left .lt rfl ih hn
    · exact parses_right .concat rfl ih hn hm
    · exact parses_left .add rfl ih hn
    · exact parses_left .mul rfl ih hn
    · exact parses_unary ih hn hm
    · exact parses_apply ih hn
    · exact parses_select ih hn
    · omega

/-- **An expression is parsed in every place**, with as many rounds as it has tokens. -/
lemma parses (e : Expr) {L : Nat} (hL : L ≤ 11) (hn : (e.tokensAt L).length ≤ n)
    (hm : (e.tokensAt L).length ≤ m) : Parses n m L e := by
  induction n generalizing m L e with
  | zero => exact absurd hn (by have := Expr.length_tokensAt_pos L e; omega)
  | succ n ih =>
    refine parses_levels (fun m e hn => parses_base hn fun hlen => ?_) hL hn hm
    have hlen : (e.tokensAt 0).length ≤ n := by
      rw [Expr.tokensAt_of_le (Nat.zero_le _)]
      omega
    exact ih e (Nat.zero_le _) hlen hlen

lemma length_spell_pos {t : Token} (h : Spelled t) : 0 < (spell t).length := by
  cases h with
  | name hname =>
    obtain ⟨c, hc, -⟩ := hname.first
    obtain ⟨s, rfl⟩ := List.head?_eq_some_iff.1 hc
    exact Nat.succ_pos _
  | number => exact List.length_pos_iff.2 (decimal_ne_nil _)
  | symbol hsymbol => fin_cases hsymbol <;> decide

lemma length_le_spellAll {tokens : List Token} (h : ∀ t ∈ tokens, Spelled t) :
    tokens.length ≤ (spellAll tokens).length := by
  induction tokens with
  | nil => exact Nat.zero_le _
  | cons t tokens ih =>
    have ht := length_spell_pos (h t List.mem_cons_self)
    cases tokens with
    | nil =>
      have hall : spellAll [t] = spell t := by simp [spellAll, List.intercalate]
      rw [hall]
      exact ht
    | cons u tokens =>
      have ih := ih fun u hu => h u (List.mem_cons_of_mem _ hu)
      rw [spellAll_cons]
      simp only [List.length_append, List.length_cons] at ih ⊢
      omega

/-- **Precedence and associativity**: an expression written with the parentheses that the grammar asks for is
parsed as it is. -/
theorem nixParse_render (e : Expr) : nixParse e.render = .ok (e.tree, none) := by
  have hspelled := e.spelled_tokens
  have hlen : (e.tokensAt 0).length ≤ e.render.length + 1 := by
    have hle := length_le_spellAll hspelled
    rw [Expr.tokensAt_of_le (Nat.zero_le _)]
    show _ ≤ (spellAll e.tokens).length + 1
    omega
  have hsees : (Parser.start e.render).Sees (e.tokensAt 0 ++ []) := by
    rw [Expr.tokensAt_of_le (Nat.zero_le _), List.append_nil]
    exact sees_start (lexes_spellAll hspelled)
  obtain ⟨q, hrun, hq⟩ := parses e (Nat.zero_le _) hlen hlen _ _ hsees (stops_eof 0)
  have hexpr := (parsers_expr hsees).trans hrun
  have hend : parseEnd e.tree q = .ok (e.tree, q) := by
    unfold parseEnd
    rw [get_run, if_neg (fun h => h.2 hq.cur)]
    rfl
  unfold nixParse
  rw [bind_run hexpr, hend]
  show Except.ok (e.tree, q.error) = _
  rw [hq.error]

end Two09.Nix
