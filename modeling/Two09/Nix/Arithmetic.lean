import Two09.Nix.Files

/-!
# Integer arithmetic

What integer literals, the four operations and the unary minus evaluate to, beside the mathematical values: the
results are those when 64 bits can hold them.
-/

namespace Two09.Nix

open Two09.Lib

/-! ### Values -/

/-- `int64_t` -/
def IsInt64 (n : Int) : Prop := -2 ^ 63 ≤ n ∧ n < 2 ^ 63

instance (n : Int) : Decidable (IsInt64 n) := inferInstanceAs (Decidable (_ ∧ _))

/-- That 64 bits can hold the exact value, if there is one. -/
def Fits (value : Option Int) : Prop := ∀ n ∈ value, IsInt64 n

/-- The number that digits denote. -/
def digitsValue (digits : Bytes) : Nat := digits.foldl (fun value c => value * 10 + (c.toNat - 48)) 0

/-- An operation on two integers. -/
inductive Operation
  | add
  | sub
  | mul
  | div
  deriving DecidableEq

def Operation.token : Operation → Token
  | add => .plus
  | sub => .minus
  | mul => .star
  | div => .slash

/-- The exact value; division is truncating. -/
def Operation.exact : Operation → Int → Int → Option Int
  | add, a, b => some (a + b)
  | sub, a, b => some (a - b)
  | mul, a, b => some (a * b)
  | div, a, b => if b = 0 then none else some (a.tdiv b)

/-- An evaluation gives exactly this value, or it reports an error. -/
def ExactOrError (value : Option Int) : Except Fault (Option Ptr × Heap) → Prop
  | .ok (some p, h) => ∃ n, value = some n ∧ h.Holds p (.int n)
  | .ok (none, h) => h.error.isSome
  | .error _ => False

/-- The expression evaluates to an integer, and leaves the heap `h'`. -/
def Gives (eval : Evaluator) (env : EnvPtr) (h : Heap) (expr : Ast) (a : Int) (p : Ptr) (h' : Heap) : Prop :=
  eval env expr h = .ok (some p, h') ∧ h'.Holds p (.int a) ∧ IsInt64 a

/-! ### Literals -/

section Literals
variable {digits : Bytes}

/-- What 64 bits hold of the value. -/
lemma foldl_addDigit_bmod (h : ∀ c ∈ digits, isDigit c = true) (v : Nat) :
    digits.foldl addDigit (Int.bmod v (2 ^ 64)) =
      Int.bmod (digits.foldl (fun value c => value * 10 + (c.toNat - 48)) v : Nat) (2 ^ 64) := by
  induction digits generalizing v with
  | nil => rw [List.foldl_nil, List.foldl_nil]
  | cons c digits ih =>
    obtain ⟨hc, hdigits⟩ := List.forall_mem_cons.1 h
    have hdigit : 48 ≤ c.toNat := by
      have hrange : 48 ≤ c ∧ c ≤ 57 := of_decide_eq_true hc
      exact UInt8.le_iff_toNat_le.1 hrange.1
    have hstep : addDigit (Int.bmod v (2 ^ 64)) c = Int.bmod (v * 10 + (c.toNat - 48) : Nat) (2 ^ 64) := by
      unfold addDigit
      rw [← Int.bmod_add_bmod, Int.bmod_mul_bmod, Int.bmod_add_bmod]
      congr 1
      omega
    rw [List.foldl_cons, List.foldl_cons, hstep, ih hdigits]

/-- A literal is one token wherever it stands, with what 64 bits hold of it. -/
lemma nextToken_digits (hne : digits ≠ []) (h : ∀ c ∈ digits, isDigit c = true) {rest : Bytes}
    (hrest : ∀ c ∈ rest.head?, isDigit c = false) :
    nextToken (digits ++ rest) = (.int (Int.bmod (digitsValue digits) (2 ^ 64)), rest) := by
  obtain ⟨c, tail, rfl⟩ := List.exists_cons_of_ne_nil hne
  have hc := h c List.mem_cons_self
  have hnone : rest.takeWhile isDigit = [] ∧ rest.dropWhile isDigit = rest := by
    cases rest with
    | nil => exact ⟨rfl, rfl⟩
    | cons d rest =>
      have hd : ¬isDigit d = true := by
        rw [hrest d rfl]
        exact Bool.false_ne_true
      exact ⟨List.takeWhile_cons_of_neg hd, List.dropWhile_cons_of_neg hd⟩
  rw [List.cons_append, nextToken_cons (digit_first hc), if_neg (not_word_of_digit hc), if_pos hc,
    ← List.cons_append]
  unfold lexInteger
  rw [List.takeWhile_append_of_pos h, List.dropWhile_append_of_pos h, hnone.1, hnone.2, List.append_nil]
  exact congrArg (fun value => (Token.int value, rest)) (foldl_addDigit_bmod h 0)

/-- A literal is parsed, with what 64 bits hold of it. -/
lemma nixParse_digits (hne : digits ≠ []) (h : ∀ c ∈ digits, isDigit c = true) :
    nixParse digits = .ok (.int (Int.bmod (digitsValue digits) (2 ^ 64)), none) := by
  have htoken := @nextToken_digits _ hne h [] (fun c hc => absurd hc (Option.not_mem_none c))
  rw [List.append_nil] at htoken
  have hlexes : Lexes digits [.int (Int.bmod (digitsValue digits) (2 ^ 64))] := by
    refine ⟨congrArg Prod.fst htoken, ?_⟩
    rw [htoken]
    rfl
  have hsees := sees_start hlexes
  have hcur : (Parser.start digits).cur = .int (Int.bmod (digitsValue digits) (2 ^ 64)) := hsees.cur
  rw [nixParse_atom (q := (Parser.start digits).next) rfl (by rw [hcur]; rfl) ?_ (.inr hsees.next.cur),
    hsees.next.error]
  unfold parseBase
  rw [get_run, hcur]
  rfl

end Literals

/-! ### Results -/

section Results
variable {h : Heap} {n : Int}

lemma bmod_eq_self_iff (n : Int) : Int.bmod n (2 ^ 64) = n ↔ IsInt64 n := by
  constructor
  · intro heq
    have hlow := Int.le_bmod (x := n) (m := 2 ^ 64) (by norm_num)
    have hhigh := Int.bmod_lt (x := n) (m := 2 ^ 64) (by norm_num)
    rw [heq] at hlow hhigh
    unfold IsInt64
    omega
  · rintro ⟨hlow, hhigh⟩
    refine Int.bmod_eq_of_le ?_ ?_ <;> omega

/-- A new integer is exact when it fits. -/
lemma exactOrError_newInt (n : Int) (h : Heap) : ExactOrError (some n) (newInt n h) ↔ Fits (some n) := by
  have hfits : Fits (some n) ↔ IsInt64 n := by simp [Fits]
  have hnew : newInt n h = .ok (some h.values.length,
      { h with values := h.values ++ [some (.int (Int.bmod n (2 ^ 64)))] }) := rfl
  rw [hnew, hfits, ← bmod_eq_self_iff]
  constructor
  · rintro ⟨m, hm, hholds⟩
    obtain rfl := Option.some.inj hm
    have hthere := holds_new h.values h.envs h.error (.int (Int.bmod n (2 ^ 64)))
    have hsame := Option.some.inj (Option.some.inj (hholds.symm.trans hthere))
    exact (Val.int.inj hsame).symm
  · intro heq
    refine ⟨n, rfl, ?_⟩
    rw [heq]
    exact holds_new h.values h.envs h.error (.int n)

lemma fits_some_iff : Fits (some n) ↔ IsInt64 n := by simp [Fits]

/-- A quotient fits, but for the least integer by minus one. -/
lemma isInt64_tdiv_iff {a b : Int} (ha : IsInt64 a) (hb : b ≠ 0) :
    IsInt64 (a.tdiv b) ↔ ¬(a = -2 ^ 63 ∧ b = -1) := by
  constructor
  · rintro hfits ⟨rfl, rfl⟩
    exact absurd hfits (by decide)
  · intro hnot
    have habs : (a.tdiv b).natAbs = a.natAbs / b.natAbs := Int.natAbs_tdiv a b
    have hle : a.natAbs / b.natAbs ≤ a.natAbs := Nat.div_le_self _ _
    unfold IsInt64 at ha ⊢
    by_cases hone : b = 1 ∨ b = -1
    · obtain rfl | rfl := hone
      · rw [Int.tdiv_one]
        exact ha
      · have hquotient : a.tdiv (-1) = -a := by rw [Int.tdiv_neg, Int.tdiv_one]
        rw [hquotient]
        omega
    · have htwo : 2 ≤ b.natAbs := by omega
      have hhalf : a.natAbs / b.natAbs ≤ a.natAbs / 2 := Nat.div_le_div_left htwo (by norm_num)
      omega

/-- An operation on two integers is exact, or reports an error, when 64 bits can hold the exact value. -/
lemma exactOrError_evalOperator {op : Operation} {a b : Int} {p q : Ptr} (hp : h.Holds p (.int a))
    (hq : h.Holds q (.int b)) (ha : IsInt64 a) :
    ExactOrError (op.exact a b) (evalOperator op.token p q h) ↔ Fits (op.exact a b) := by
  unfold evalOperator
  rw [bind_run (load_run hp), bind_run (load_run hq)]
  cases op with
  | add => exact exactOrError_newInt (a + b) h
  | sub => exact exactOrError_newInt (a - b) h
  | mul => exact exactOrError_newInt (a * b) h
  | div =>
    show ExactOrError (if b = 0 then none else some (a.tdiv b)) ((if b = 0 then evalError (ascii "division by zero")
      else if a = -2 ^ 63 ∧ b = -1 then throw .noQuotient else newInt (a.tdiv b) : Eval (Option Ptr)) h) ↔ _
    by_cases hzero : b = 0
    · rw [if_pos hzero, if_pos hzero]
      refine iff_of_true rfl ?_
      show Fits (if b = 0 then none else some (a.tdiv b))
      rw [if_pos hzero]
      exact fun n hn => absurd hn (Option.not_mem_none n)
    · rw [if_neg hzero, if_neg hzero]
      show _ ↔ Fits (if b = 0 then none else some (a.tdiv b))
      rw [if_neg hzero]
      by_cases htrap : a = -2 ^ 63 ∧ b = -1
      · rw [if_pos htrap, fits_some_iff, isInt64_tdiv_iff ha hzero]
        exact iff_of_false id (not_not.2 htrap)
      · rw [if_neg htrap]
        exact exactOrError_newInt (a.tdiv b) h

end Results

/-! ### Arithmetic -/

section Arithmetic
variable (call : Builtins) (n : Nat) (env : EnvPtr) (h : Heap)

/-- A literal. -/
lemma exactOrError_digits {digits : Bytes} (hne : digits ≠ []) (hdigits : ∀ c ∈ digits, isDigit c = true) :
    ∃ v, (∀ rest : Bytes, (∀ c ∈ rest.head?, isDigit c = false) → nextToken (digits ++ rest) = (.int v, rest)) ∧
      nixParse digits = .ok (.int v, none) ∧
      (ExactOrError (some (digitsValue digits)) (nixEval call (n + 1) env (.int v) h) ↔
        Fits (some (digitsValue digits : Int))) :=
  ⟨_, fun _ hrest => nextToken_digits hne hdigits hrest, nixParse_digits hne hdigits,
    exactOrError_newInt (digitsValue digits) h⟩

variable {call n env h}

/-- An operation, on what its operands give. -/
lemma exactOrError_binop {op : Operation} {left right : Ast} {a b : Int} {p q : Ptr} {h₁ h₂ : Heap}
    (hleft : Gives (nixEval call n) env h left a p h₁) (hright : Gives (nixEval call n) env h₁ right b q h₂)
    (hp : h₂.Holds p (.int a)) :
    ExactOrError (op.exact a b) (nixEval call (n + 1) env (.binop op.token left right) h) ↔ Fits (op.exact a b) := by
  rw [← exactOrError_evalOperator hp hright.2.1 hleft.2.2]
  have hrun : nixEval call (n + 1) env (.binop op.token left right) h = evalOperator op.token p q h₂ := by
    show evalBinop n (nixEval call n) env op.token left right h = _
    unfold evalBinop
    rw [bind_run hleft.1]
    cases op <;> exact bind_run hright.1
  rw [hrun]

/-- The unary minus. -/
lemma exactOrError_negate {operand : Ast} {a : Int} {p : Ptr} {h₁ : Heap}
    (hoperand : Gives (nixEval call n) env h operand a p h₁) :
    ExactOrError (some (-a)) (nixEval call (n + 1) env (.negate operand) h) ↔ Fits (some (-a)) := by
  rw [← exactOrError_newInt (-a) h₁]
  have hrun : nixEval call (n + 1) env (.negate operand) h = newInt (-a) h₁ := by
    show evalNegate (nixEval call n) env operand h = _
    unfold evalNegate
    rw [bind_run hoperand.1]
    exact bind_run (load_run hoperand.2.1)
  rw [hrun]

end Arithmetic

/-- A literal, an operation on two integers and a unary minus are exact, or report an error, just when 64 bits can
hold the exact value, if there is one. -/
theorem arithmetic_exact_iff (call : Builtins) (n : Nat) (env : EnvPtr) (h : Heap) :
    (∀ digits : Bytes, digits ≠ [] → (∀ c ∈ digits, isDigit c = true) →
      ∃ v, (∀ rest : Bytes, (∀ c ∈ rest.head?, isDigit c = false) → nextToken (digits ++ rest) = (.int v, rest)) ∧
        nixParse digits = .ok (.int v, none) ∧
        (ExactOrError (some (digitsValue digits)) (nixEval call (n + 1) env (.int v) h) ↔
          Fits (some (digitsValue digits : Int)))) ∧
    (∀ (op : Operation) (left right : Ast) (a b : Int) (p q : Ptr) (h₁ h₂ : Heap),
      Gives (nixEval call n) env h left a p h₁ → Gives (nixEval call n) env h₁ right b q h₂ → h₂.Holds p (.int a) →
      (ExactOrError (op.exact a b) (nixEval call (n + 1) env (.binop op.token left right) h) ↔
        Fits (op.exact a b))) ∧
    ∀ (operand : Ast) (a : Int) (p : Ptr) (h₁ : Heap), Gives (nixEval call n) env h operand a p h₁ →
      (ExactOrError (some (-a)) (nixEval call (n + 1) env (.negate operand) h) ↔ Fits (some (-a))) :=
  ⟨fun _ hne hdigits => exactOrError_digits call n env h hne hdigits,
    fun _ _ _ _ _ _ _ _ _ hleft hright hp => exactOrError_binop hleft hright hp,
    fun _ _ _ _ hoperand => exactOrError_negate hoperand⟩

/-! ### At the ends of 64 bits -/

/-- Evaluating an expression where there is nothing yet. -/
def evalAlone (expr : Ast) : Except Fault (Option Ptr × Heap) :=
  nixEval (fun _ _ _ _ _ => throw .unparsed) 4 0 expr ⟨[], [], none⟩

/-- `2^63` is a negative number, and so is `2^63 - 1` plus one; the least integer has no quotient by minus one. -/
theorem arithmetic_not_exact :
    (∃ e, nixParse (ascii "9223372036854775808") = .ok (e, none) ∧
      ¬ExactOrError (some (digitsValue (ascii "9223372036854775808"))) (evalAlone e)) ∧
    ¬ExactOrError (some (9223372036854775807 + 1))
      (evalAlone (.binop .plus (.int 9223372036854775807) (.int 1))) ∧
    evalAlone (.binop .slash (.binop .minus (.negate (.int 9223372036854775807)) (.int 1)) (.negate (.int 1))) =
      .error .noQuotient := by
  refine ⟨?_, ?_, rfl⟩
  · have hdigits : ∀ c ∈ ascii "9223372036854775808", isDigit c = true := List.all_eq_true.1 (by decide)
    obtain ⟨v, -, hparse, hiff⟩ := exactOrError_digits (fun _ _ _ _ _ => throw .unparsed) 3 0 ⟨[], [], none⟩
      (by decide : ascii "9223372036854775808" ≠ []) hdigits
    refine ⟨.int v, hparse, fun hexact => ?_⟩
    exact absurd (fits_some_iff.1 (hiff.1 hexact)) (by decide)
  · rintro ⟨n, hn, hholds⟩
    have hwrapped : Val.int n = .int (-9223372036854775808) :=
      Option.some.inj (Option.some.inj (hholds.symm.trans rfl))
    cases hwrapped
    exact absurd hn (by decide)

/-- A literal, an operation and a minus that are exact. -/
theorem arithmetic_exact_small :
    (∃ e, nixParse (ascii "42") = .ok (e, none) ∧ ExactOrError (some (digitsValue (ascii "42"))) (evalAlone e)) ∧
    ExactOrError (some (7 * 6)) (evalAlone (.binop .star (.int 7) (.int 6))) ∧
    ExactOrError (some (-7)) (evalAlone (.negate (.int 7))) := by
  obtain ⟨hliteral, hbinop, hnegate⟩ :=
    arithmetic_exact_iff (fun _ _ _ _ _ => throw .unparsed) 3 0 ⟨[], [], none⟩
  have hseven : Gives (nixEval (fun _ _ _ _ _ => throw .unparsed) 3) 0 ⟨[], [], none⟩ (.int 7) 7 0
      ⟨[some (.int 7)], [], none⟩ := ⟨rfl, rfl, by decide⟩
  have hsix : Gives (nixEval (fun _ _ _ _ _ => throw .unparsed) 3) 0 ⟨[some (.int 7)], [], none⟩ (.int 6) 6 1
      ⟨[some (.int 7), some (.int 6)], [], none⟩ := ⟨rfl, rfl, by decide⟩
  refine ⟨?_, ?_, ?_⟩
  · obtain ⟨v, -, hparse, hiff⟩ := hliteral (ascii "42") (by decide) (List.all_eq_true.1 (by decide))
    exact ⟨.int v, hparse, hiff.2 (fits_some_iff.2 (by decide))⟩
  · exact (hbinop .mul (.int 7) (.int 6) 7 6 0 1 _ _ hseven hsix rfl).2 (fits_some_iff.2 (by decide))
  · exact (hnegate (.int 7) 7 0 _ hseven).2 (fits_some_iff.2 (by decide))

end Two09.Nix
