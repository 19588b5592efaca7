import Two09.Lib.Arena
import Two09.Nix.Eval
import Two09.Nix.Precedence

/-!
# Copies of expressions

`nix_ast_clone` on nodes in memory, which is `Ast.clone` on the trees they stand for, and the bindings that
`inherit (e)` makes with it. It leaves out the body of a `let` and all of the nodes it does not know.
-/

namespace Two09.Nix

open Two09.Lib Two09.Lib.Arena

/-! ### Nodes -/

/-- `nix_ast_t` without its children. -/
inductive Shape
  | int (value : Int)
  | bool (value : Bool)
  | null
  | string (parts : List (Option Bytes))
  | path (path : Bytes)
  | ident (name : Bytes)
  | attrSet (keys : List (Option Bytes))
  | recAttrSet (keys : List (Option Bytes))
  | letIn (names : List (Option Bytes))
  | list
  | select (attr : Bytes)
  | hasAttr (attr : Bytes)
  | orDefault (attr : Bytes)
  | apply
  | lambda
  | ifThen
  | withIn
  | assertIn
  | binop (op : Token)
  | unaryNot
  | negate
  | importFile (path : Bytes)

/-- The root of a tree and what is below it. -/
def Ast.unfold : Ast → Option (Shape × List Ast)
  | .missing => none
  | .int value => some (.int value, [])
  | .bool value => some (.bool value, [])
  | .null => some (.null, [])
  | .string parts => some (.string (parts.map fun part => part.getLeft?), parts.filterMap fun part => part.getRight?)
  | .path text => some (.path text, [])
  | .ident name => some (.ident name, [])
  | .attrSet bindings => some (.attrSet (bindings.map Prod.fst), bindings.map Prod.snd)
  | .recAttrSet bindings => some (.recAttrSet (bindings.map Prod.fst), bindings.map Prod.snd)
  | .letIn bindings body => some (.letIn (bindings.map Prod.fst), bindings.map Prod.snd ++ [body])
  | .list items => some (.list, items)
  | .select expr attr => some (.select attr, [expr])
  | .hasAttr expr attr => some (.hasAttr attr, [expr])
  | .orDefault expr attr default => some (.orDefault attr, [expr, default])
  | .apply func arg => some (.apply, [func, arg])
  | .lambda param body => some (.lambda, [param, body])
  | .ifThen cond thenExpr elseExpr => some (.ifThen, [cond, thenExpr, elseExpr])
  | .withIn env body => some (.withIn, [env, body])
  | .assertIn cond body => some (.assertIn, [cond, body])
  | .binop op left right => some (.binop op, [left, right])
  | .unaryNot operand => some (.unaryNot, [operand])
  | .negate operand => some (.negate, [operand])
  | .importFile file => some (.importFile file, [])

/-- The texts of the copy of a node. -/
def copyShape : Shape → Shape
  | .orDefault _ => .orDefault []
  | .importFile _ => .importFile []
  | s => s

/-- Which children `nix_ast_clone` copies. -/
def keepsChild : Shape → Nat → Bool
  | .letIn names, i => i < names.length
  | .orDefault _, _ => false
  | .negate, _ => false
  | _, _ => true

/-- `nix_ast_clone` of a pointer, so deep. -/
def nixAstClone : Nat → Option Nat → Alloc Shape (Option Nat) := copy copyShape keepsChild

/-! ### The copy of a tree -/

section Trees
variable {t : Ast}

lemma cloneBindings_eq (bindings : List (Option Bytes × Ast)) :
    cloneBindings bindings = bindings.map fun b => (b.1, b.2.clone) := by
  induction bindings with
  | nil => rfl
  | cons b bindings ih => rw [cloneBindings, ih, List.map_cons]

lemma cloneItems_eq (items : List Ast) : cloneItems items = items.map Ast.clone := by
  induction items with
  | nil => rfl
  | cons item items ih => rw [cloneItems, ih, List.map_cons]

lemma cloneParts_eq (parts : List (Bytes ⊕ Ast)) : cloneParts parts = parts.map (Sum.map id Ast.clone) := by
  induction parts with
  | nil => rfl
  | cons part parts ih => cases part <;> rw [cloneParts, ih, List.map_cons] <;> rfl

/-- Where every child is copied. -/
lemma kept_eq_self {s : Shape} {ts : List Ast} (h : ∀ i, i < ts.length → keepsChild s i = true) :
    kept keepsChild .missing s ts = ts := by
  refine List.ext_getElem (by simp [kept]) fun i hi hi' => ?_
  simp [kept, h i hi']

lemma mapIdx_self (ts : List Ast) : ts.mapIdx (fun _ t => t) = ts :=
  List.ext_getElem (by simp) fun i hi hi' => by simp

lemma kept_let (names : List (Option Bytes)) (values : List Ast) (body : Ast)
    (h : names.length = values.length) :
    kept keepsChild .missing (.letIn names) (values ++ [body]) = values ++ [.missing] := by
  refine List.ext_getElem (by simp [kept]) fun i hi hi' => ?_
  rw [List.length_append] at hi'
  have hi'' : i < values.length + 1 := hi'
  by_cases hlt : i < values.length
  · simp [kept, keepsChild, h, hlt, List.getElem_append_left]
  · obtain rfl : i = values.length := by omega
    simp [kept, keepsChild, h]

/-- **The copy of a tree**, node by node. -/
lemma unfold_clone (t : Ast) : t.clone.unfold = t.unfold.map fun st =>
    (copyShape st.1, (kept keepsChild .missing st.1 st.2).map Ast.clone) := by
  cases t with
  | letIn bindings body =>
    have hkept := kept_let (bindings.map Prod.fst) (bindings.map Prod.snd) body (by simp)
    simp only [Ast.clone, Ast.unfold, cloneBindings_eq, Option.map_some, hkept]
    simp [copyShape, Ast.clone, Function.comp_def]
  | string parts =>
    have hkept : kept keepsChild .missing (.string (parts.map fun part => part.getLeft?))
        (parts.filterMap fun part => part.getRight?) = parts.filterMap fun part => part.getRight? :=
      kept_eq_self fun _ _ => rfl
    simp only [Ast.clone, Ast.unfold, cloneParts_eq, Option.map_some, hkept]
    simp [copyShape, Function.comp_def, List.filterMap_map, List.map_filterMap]
  | _ =>
    simp [Ast.clone, Ast.unfold, kept, copyShape, keepsChild, cloneBindings_eq, cloneItems_eq, mapIdx_self,
      Function.comp_def]

/-- What is below a node is smaller. -/
lemma sizeOf_lt_of_unfold {s : Shape} {ts : List Ast} (h : t.unfold = some (s, ts)) {u : Ast} (hu : u ∈ ts) :
    sizeOf u < sizeOf t := by
  have hvalues : ∀ {bindings : List (Option Bytes × Ast)}, u ∈ bindings.map Prod.snd →
      sizeOf u < sizeOf bindings := by
    intro bindings hmem
    obtain ⟨b, hb, rfl⟩ := List.mem_map.1 hmem
    have hlt := List.sizeOf_lt_of_mem hb
    obtain ⟨key, value⟩ := b
    simp only [Prod.mk.sizeOf_spec] at hlt
    show sizeOf value < _
    omega
  cases t with
  | missing => simp [Ast.unfold] at h
  | string parts =>
    obtain ⟨-, rfl⟩ := Prod.mk.inj (Option.some.inj h)
    obtain ⟨part, hpart, hright⟩ := List.mem_filterMap.1 hu
    have hlt := List.sizeOf_lt_of_mem hpart
    cases part with
    | inl text => simp at hright
    | inr expr =>
      obtain rfl : expr = u := by simpa using hright
      simp only [Sum.inr.sizeOf_spec] at hlt
      simp only [Ast.string.sizeOf_spec]
      omega
  | attrSet bindings =>
    obtain ⟨-, rfl⟩ := Prod.mk.inj (Option.some.inj h)
    have hlt := hvalues hu
    simp only [Ast.attrSet.sizeOf_spec]
    omega
  | recAttrSet bindings =>
    obtain ⟨-, rfl⟩ := Prod.mk.inj (Option.some.inj h)
    have hlt := hvalues hu
    simp only [Ast.recAttrSet.sizeOf_spec]
    omega
  | letIn bindings body =>
    obtain ⟨-, rfl⟩ := Prod.mk.inj (Option.some.inj h)
    simp only [Ast.letIn.sizeOf_spec]
    rcases List.mem_append.1 hu with hu | hu
    · have hlt := hvalues hu
      omega
    · obtain rfl := List.mem_singleton.1 hu
      omega
  | list items =>
    obtain ⟨-, rfl⟩ := Prod.mk.inj (Option.some.inj h)
    have hlt := List.sizeOf_lt_of_mem hu
    simp only [Ast.list.sizeOf_spec]
    omega
  | _ =>
    obtain ⟨-, rfl⟩ := Prod.mk.inj (Option.some.inj h)
    simp only [List.mem_cons, List.not_mem_nil, or_false] at hu <;>
      rcases hu with rfl | rfl | rfl <;> simp <;> omega

/-! ### What a copy has -/

/-- Every node of the tree is in `P`. -/
inductive Ast.Everywhere (P : Ast → Prop) : Ast → Prop
  | missing : Everywhere P .missing
  | node {t s ts} (h : P t) (hunfold : t.unfold = some (s, ts)) (hchildren : ∀ u ∈ ts, Everywhere P u) :
      Everywhere P t

/-- A node that the copy has all of. It is no `let`, no negation, no selection with a default and no import,
unless one without content, which the parser does not make. -/
def Ast.Known : Ast → Prop
  | .letIn _ body => body = .missing
  | .negate operand => operand = .missing
  | .orDefault expr attr default => expr = .missing ∧ attr = [] ∧ default = .missing
  | .importFile file => file = []
  | _ => True

lemma cloneBindings_eq_self {bindings : List (Option Bytes × Ast)}
    (h : ∀ u ∈ bindings.map Prod.snd, u.clone = u) : cloneBindings bindings = bindings := by
  rw [cloneBindings_eq]
  refine (List.map_congr_left fun b hb => ?_).trans (List.map_id _)
  exact Prod.ext rfl (h b.2 (List.mem_map_of_mem hb))

lemma clone_eq_self (h : t.Everywhere Ast.Known) : t.clone = t := by
  induction h with
  | missing => rfl
  | @node t s ts hknown hunfold hchildren ih =>
    cases t with
    | missing => rfl
    | string parts =>
      obtain ⟨-, rfl⟩ := Prod.mk.inj (Option.some.inj hunfold)
      rw [Ast.clone, cloneParts_eq]
      refine congrArg Ast.string ((List.map_congr_left fun part hpart => ?_).trans (List.map_id _))
      cases part with
      | inl text => rfl
      | inr expr => exact congrArg Sum.inr (ih expr (List.mem_filterMap.2 ⟨_, hpart, rfl⟩))
    | attrSet bindings =>
      obtain ⟨-, rfl⟩ := Prod.mk.inj (Option.some.inj hunfold)
      rw [Ast.clone, cloneBindings_eq_self ih]
    | recAttrSet bindings =>
      obtain ⟨-, rfl⟩ := Prod.mk.inj (Option.some.inj hunfold)
      rw [Ast.clone, cloneBindings_eq_self ih]
    | letIn bindings body =>
      obtain ⟨-, rfl⟩ := Prod.mk.inj (Option.some.inj hunfold)
      obtain rfl : body = .missing := hknown
      rw [Ast.clone, cloneBindings_eq_self fun u hu => ih u (List.mem_append_left _ hu)]
    | list items =>
      obtain ⟨-, rfl⟩ := Prod.mk.inj (Option.some.inj hunfold)
      rw [Ast.clone, cloneItems_eq]
      exact congrArg Ast.list ((List.map_congr_left ih).trans (List.map_id _))
    | orDefault expr attr default =>
      obtain ⟨rfl, rfl, rfl⟩ := hknown
      rfl
    | negate operand =>
      obtain rfl : operand = .missing := hknown
      rfl
    | importFile file =>
      obtain rfl : file = [] := hknown
      rfl
    | _ =>
      obtain ⟨-, rfl⟩ := Prod.mk.inj (Option.some.inj hunfold)
      simp only [List.mem_cons, List.not_mem_nil, or_false, forall_eq_or_imp, forall_eq] at ih
      simp only [Ast.clone, ih]

lemma known_of_clone (h : t.clone = t) : t.Known := by
  cases t with
  | letIn bindings body => exact (Ast.letIn.inj h).2.symm
  | negate operand => exact (Ast.negate.inj h).symm
  | orDefault expr attr default =>
    obtain ⟨hexpr, hattr, hdefault⟩ := Ast.orDefault.inj h
    exact ⟨hexpr.symm, hattr.symm, hdefault.symm⟩
  | importFile file => exact (Ast.importFile.inj h).symm
  | _ => trivial

/-- Below a copy that is equal the copies are equal. -/
lemma clone_of_unfold {s : Shape} {ts : List Ast} (h : t.clone = t) (hunfold : t.unfold = some (s, ts)) {u : Ast}
    (hu : u ∈ ts) : u.clone = u := by
  have hclone := unfold_clone t
  rw [h, hunfold] at hclone
  obtain ⟨-, hts⟩ := Prod.mk.inj (Option.some.inj hclone)
  obtain ⟨i, hi, rfl⟩ := List.getElem_of_mem hu
  have hget := (List.getElem_of_eq hts hi).symm
  simp only [kept, List.getElem_map, List.getElem_mapIdx] at hget
  split_ifs at hget with hkeeps
  · exact hget
  · rw [← hget]
    rfl

lemma everywhere_of_clone (t : Ast) (h : t.clone = t) : t.Everywhere Ast.Known := by
  cases hunfold : t.unfold with
  | none =>
    cases t with
    | missing => exact .missing
    | _ => cases hunfold
  | some st =>
    refine .node (known_of_clone h) hunfold fun u hu => ?_
    have hlt := sizeOf_lt_of_unfold hunfold hu
    exact everywhere_of_clone u (clone_of_unfold h hunfold hu)
termination_by sizeOf t

/-- **A copy is equal** exactly when it has all of every node. -/
lemma clone_eq_self_iff (t : Ast) : t.clone = t ↔ t.Everywhere Ast.Known :=
  ⟨everywhere_of_clone t, clone_eq_self⟩

end Trees

/-! ### Inheriting -/

/-- The bindings of `inherit (e) x1 … xn;`. -/
def inheritedBinds (e : Ast) (names : List Bytes) : List Bind :=
  names.map fun name => ⟨[name], .select e.clone name⟩

/-- The bindings of `x1 = (e).x1; … xn = (e).xn;`. -/
def selectedBinds (e : Ast) (names : List Bytes) : List Bind := names.map fun name => ⟨[name], .select e name⟩

/-- That a set or a `let` made from its bindings evaluates alike with both, among other bindings. -/
def SelectsAlike (e : Ast) : Prop :=
  ∀ (names : List Bytes) (before after : List Bind) (key : List Bytes → Option Bytes)
    (make : List (Option Bytes × Ast) → Ast) (call : Builtins) (fuel : Nat) (env : EnvPtr) (h : Heap),
    nixEval call fuel env (make (entries key (before ++ inheritedBinds e names ++ after))) h =
      nixEval call fuel env (make (entries key (before ++ selectedBinds e names ++ after))) h

/-- That a copy in memory stands for the tree, beside the one that is copied, and shares no node with it. -/
def CopiesApart (e : Ast) : Prop :=
  ∀ (m : Memory Shape) (q : Option Nat), Stands Ast.unfold m 0 q e →
    ∃ fuel q' m', nixAstClone fuel q m = .ok (q', m') ∧ Stands Ast.unfold m' 0 q e ∧
      Stands Ast.unfold m' 0 q' e ∧ ∀ r, Reaches m' q r → ¬ Reaches m' q' r

section Parsing
variable {e : Ast} {p q : Parser} {rest : List Token} {n : Nat} {expr select : Parse Ast}

/-- The names of an `inherit (e)`. -/
lemma parseInherited_names (he : e.isMissing = false) {names : List Bytes} {t : Token}
    (hp : p.Sees (names.map Token.ident ++ t :: rest)) (ht : ∀ name, t ≠ .ident name) (hn : names.length < n) :
    ∃ q, parseInherited e n p = .ok (inheritedBinds e names, q) ∧ q.Sees (t :: rest) := by
  induction names generalizing p n with
  | nil =>
    obtain ⟨n, rfl⟩ := Nat.exists_eq_add_of_le' hn
    refine ⟨p, ?_, hp⟩
    unfold parseInherited
    rw [get_run, cur_of_sees hp]
    cases t with
    | ident name => exact absurd rfl (ht name)
    | _ => rfl
  | cons name names ih =>
    obtain ⟨n, rfl⟩ := Nat.exists_eq_add_of_le' (Nat.one_le_of_lt hn)
    obtain ⟨q, hrun, hq⟩ := ih hp.next (by simpa using hn)
    refine ⟨q, ?_, hq⟩
    unfold parseInherited
    rw [get_run, cur_of_sees hp]
    show (advance >>= _ : Parse (List Bind)) p = _
    rw [advance_run, bind_run hrun]
    simp [he, inheritedBinds, pure_run]

/-- **`inherit (e) x1 … xn;`**, where `e` is parsed behind the parenthesis. -/
lemma parseBind_inherit (he : e.isMissing = false) {names : List Bytes} (hcur : p.cur = .ident (ascii "inherit"))
    (hparen : p.next.cur = .lparen) (hexpr : expr p.next.next = .ok (e, q))
    (hq : q.Sees (.rparen :: (names.map Token.ident ++ .semicolon :: rest))) (hn : names.length < n) :
    ∃ q', parseBind n expr p = .ok (inheritedBinds e names, q') ∧ q'.Sees rest := by
  obtain ⟨q₁, hrun, hq₁⟩ := parseInherited_names he hq.next (by simp) hn
  refine ⟨q₁.next, ?_, hq₁.next⟩
  have hrparen : expect .rparen "expected ')' after inherit source expression" q = .ok ((), q.next) := by
    unfold expect
    rw [get_run, if_pos (cur_of_sees hq)]
    rfl
  have hsemicolon : expect .semicolon "expected ';' after inherit" q₁ = .ok ((), q₁.next) := by
    unfold expect
    rw [get_run, if_pos (cur_of_sees hq₁)]
    rfl
  unfold parseBind
  rw [get_run, if_pos hcur, advance_run, get_run, if_pos hparen, advance_run, bind_run hexpr, get_run,
    if_neg (by simp [hq.hasError]), bind_run hrparen, get_run, if_neg (by simp [hq.next.hasError])]
  unfold parseInherit
  rw [bind_run hrun, bind_run hsemicolon]
  rfl

/-- **`(e).x`**, where `e` is parsed behind the parenthesis. -/
lemma parseSelect_parens (he : e.isMissing = false) {name : Bytes} {t : Token} (hcur : p.cur = .lparen)
    (hexpr : expr p.next = .ok (e, q)) (hq : q.Sees (.rparen :: .dot :: .ident name :: t :: rest))
    (hdot : t ≠ .dot) (hor : t ≠ .kwOr) :
    ∃ q', parseSelect (n + 2) expr select p = .ok (.select e name, q') ∧ q'.Sees (t :: rest) := by
  refine ⟨q.next.next.next, ?_, hq.next.next.next⟩
  have hrparen : expect .rparen "expected ')'" q = .ok ((), q.next) := by
    unfold expect
    rw [get_run, if_pos (cur_of_sees hq)]
    rfl
  have hbase : parseBase (n + 2) expr select p = .ok (e, q.next) := by
    unfold parseBase
    rw [get_run, hcur]
    show (advance >>= _ : Parse Ast) p = _
    rw [advance_run, bind_run hexpr, bind_run hrparen]
    rfl
  have hstop : q.next.next.next.cur ≠ .dot := by
    rw [cur_of_sees hq.next.next.next]
    exact hdot
  have hnor : q.next.next.next.cur ≠ .kwOr := by
    rw [cur_of_sees hq.next.next.next]
    exact hor
  unfold parseSelect
  rw [bind_run hbase, get_run, if_neg (by simp [he, hq.next.hasError]),
    parseAttrs_attr (cur_of_sees hq.next) (cur_of_sees hq.next.next) hnor, parseAttrs_stop hstop]

end Parsing

/-- **`inherit (e)` is selection** exactly for an expression that has no `let`, negation, selection with a
default or import in it. Then a copy is equal, and apart from what is copied. -/
theorem inherit_selects_iff (e : Ast) :
    (e.clone = e ∧ CopiesApart e ∧ SelectsAlike e) ↔ e.Everywhere Ast.Known := by
  rw [← clone_eq_self_iff]
  refine ⟨fun h => h.1, fun heq => ⟨heq, fun m q hstands => ?_, ?_⟩⟩
  · obtain ⟨fuel, hfuel⟩ := @copies Shape Ast Ast.unfold copyShape keepsChild .missing Ast.clone m 0 q e rfl
      unfold_clone hstands
    obtain ⟨q', m', hrun, hm, hcopy⟩ := hfuel fuel le_rfl m (List.prefix_refl m)
    rw [heq] at hcopy
    refine ⟨fuel, q', m', hrun, hstands.extend hm, hcopy.mono (fun _ _ _ h => h) (Nat.zero_le _), ?_⟩
    intro r hr hr'
    have hlt := hstands.lt_of_reaches hm hr
    have hle := hcopy.le_of_reaches hr'
    omega
  · intro names before after key make call fuel env h
    have hbinds : inheritedBinds e names = selectedBinds e names := by
      rw [inheritedBinds, selectedBinds, heq]
    rw [hbinds]

/-- The source `let t = { a = 1; }; in t`. -/
def letSource : Ast :=
  .letIn [(some (ascii "t"), .attrSet [(some (ascii "a"), .int 1)])] (.ident (ascii "t"))

/-- **`{ inherit (let t = { a = 1; }; in t) a; }` is an error**, as the copy of the `let` has no body, and
`{ a = (let t = { a = 1; }; in t).a; }` is a set. -/
theorem inherit_not_select :
    ¬ ∀ e : Ast, e.isMissing = false → e.clone = e ∧ CopiesApart e ∧ SelectsAlike e := by
  intro h
  have halike := (h letSource rfl).2.2 [ascii "a"] [] [] dottedKey .attrSet (fun _ _ _ _ _ => pure none) 6 0
    ⟨[], [some ⟨[], none, none⟩], none⟩
  have hsome := congrArg (fun r => (r.map fun x => x.1.isSome).toOption) halike
  exact absurd hsome (by decide)

end Two09.Nix
