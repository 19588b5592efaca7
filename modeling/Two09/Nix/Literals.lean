import Two09.Nix.Files

/-!
# String literals

What a string becomes when it is written as a literal, with a backslash in front of each quote, backslash and
dollar sign, and read back: by itself, and as the key of an attribute.
-/

namespace Two09.Nix

open Two09.Lib

/-- A string with a backslash in front of what has a meaning in a literal. -/
def escape (s : Bytes) : Bytes := s.flatMap fun c => if c ∈ [34, 92, 36] then [92, c] else [c]

/-- The literal for a string. -/
def literalOf (s : Bytes) : Bytes := 34 :: escape s ++ [34]

/-- A set of one attribute, the key of which is the literal. -/
def keyedBy (s : Bytes) : Bytes := ascii "\x7b " ++ literalOf s ++ ascii " = 1; \x7d"

/-! ### The lexer -/

section Lexer

variable {s rest : Bytes}

lemma escape_cons (c : UInt8) (s : Bytes) :
    escape (c :: s) = (if c ∈ [34, 92, 36] then [92, c] else [c]) ++ escape s := List.flatMap_cons

lemma unescaped_special {c : UInt8} (h : c ∈ [34, 92, 36]) : unescaped c = c := by
  fin_cases h <;> rfl

/-- The lexer undoes the escapes, and finds no interpolation. -/
lemma scan_escape (s rest : Bytes) : scan 0 (escape s ++ 34 :: rest) = (s, rest) := by
  induction s with
  | nil => cases rest <;> rfl
  | cons c s ih =>
    rw [escape_cons]
    by_cases hc : c ∈ [34, 92, 36]
    · rw [if_pos hc]
      show scan 0 (92 :: c :: (escape s ++ 34 :: rest)) = _
      rw [scan, if_neg (by decide), if_pos rfl]
      rw [ih, unescaped_special hc]
    · rw [if_neg hc]
      simp only [List.mem_cons, List.not_mem_nil, or_false, not_or] at hc
      obtain ⟨d, t, hd⟩ : ∃ d t, escape s ++ 34 :: rest = d :: t :=
        List.exists_cons_of_ne_nil (by simp)
      show scan 0 (c :: (escape s ++ 34 :: rest)) = _
      rw [hd, scan, if_neg hc.1, if_neg hc.2.1, if_neg (fun h => hc.2.2 h.1), ← hd, ih]

lemma nextToken_literalOf (h : (0 : UInt8) ∉ s) : nextToken (literalOf s ++ rest) = (.string s, rest) := by
  have hcons : literalOf s ++ rest = 34 :: (escape s ++ 34 :: rest) := by simp [literalOf]
  have hskip : ∀ t, skip .blank (34 :: t) = 34 :: t := by
    intro t
    cases t <;> rfl
  unfold nextToken
  rw [hcons, hskip]
  show lexString (escape s ++ 34 :: rest) = _
  unfold lexString
  rw [scan_escape, cstr_eq_self h]

lemma lexes_literalOf (h : (0 : UInt8) ∉ s) : Lexes (literalOf s) [.string s] := by
  have hnext : nextToken (literalOf s ++ []) = (.string s, []) := nextToken_literalOf h
  rw [List.append_nil] at hnext
  unfold Lexes
  rw [hnext]
  exact ⟨rfl, rfl⟩

lemma lexes_keyedBy (h : (0 : UInt8) ∉ s) :
    Lexes (keyedBy s) [.lbrace, .string s, .equals, .int 1, .semicolon, .rbrace] := by
  have hcons : keyedBy s = 123 :: 32 :: (literalOf s ++ ascii " = 1; \x7d") := by
    simp only [keyedBy, List.append_assoc]
    rfl
  have hbrace : nextToken (123 :: 32 :: (literalOf s ++ ascii " = 1; \x7d")) =
      (.lbrace, 32 :: (literalOf s ++ ascii " = 1; \x7d")) := rfl
  rw [hcons]
  refine ⟨congrArg Prod.fst hbrace, ?_⟩
  rw [hbrace]
  refine lexes_blank ?_
  unfold Lexes
  rw [nextToken_literalOf h]
  refine ⟨rfl, ?_⟩
  show Lexes (ascii " = 1; \x7d") [.equals, .int 1, .semicolon, .rbrace]
  decide +kernel

end Lexer

/-! ### The parser -/

section Parsing

variable {n m L : Nat} {s : Bytes} {p q : Parser} {a : Ast}

/-- The parts of a string without interpolation. -/
def partsOf (s : Bytes) : List (Bytes ⊕ Ast) := if s = [] then [] else [.inl s]

lemma literal_eq (h : ¬interpolates s = true) : literal s = (s, []) := by
  have h : ¬[36, 123] <:+: s := fun hin => h (decide_eq_true hin)
  induction s with
  | nil => rfl
  | cons c s ih =>
    have hs : ¬[36, 123] <:+: s := fun hin => h (hin.trans (List.suffix_cons c s).isInfix)
    rw [literal, if_neg (fun hpre => h hpre.isInfix), ih (fun hin => hs (of_decide_eq_true hin)) hs]

lemma parseString_plain {expr : Parse Ast} (h : ¬interpolates s = true) :
    parseString expr (n + 2) s p = .ok (partsOf s, p) := by
  cases s with
  | nil => rfl
  | cons c s =>
    have hpre : ¬[36, 123] <+: c :: s := fun hpre => h (decide_eq_true hpre.isInfix)
    unfold parseString
    rw [if_neg hpre, literal_eq h]
    rfl

lemma parseBase_string {expr select : Parse Ast} (h : ¬interpolates s = true) (hp : p.cur = .string s) :
    parseBase (n + 2) expr select p = .ok (.string (partsOf s), p.next) := by
  unfold parseBase
  rw [get_run, hp]
  show (advance >>= _ : Parse Ast) p = _
  rw [advance_run, bind_run (parseString_plain h)]
  rfl

/-- A literal without the beginning of an interpolation is parsed as the string. -/
lemma nixParse_literalOf (h0 : (0 : UInt8) ∉ s) (h : ¬interpolates s = true) :
    nixParse (literalOf s) = .ok (.string (partsOf s), none) := by
  have hsees := sees_start (lexes_literalOf h0)
  obtain ⟨n, hn⟩ : ∃ n, (literalOf s).length = n + 1 := ⟨(escape s).length + 1, by simp [literalOf]⟩
  have hcur : (Parser.start (literalOf s)).cur = .string s := hsees.cur
  rw [nixParse_atom hn (by rw [hcur]; rfl) (parseBase_string h hcur) (.inr hsees.next.cur), hsees.next.error]

/-- The value of the one binding. -/
lemma parsers_one (hp : p.Sees [.int 1, .semicolon, .rbrace]) :
    (parsers (n + 2)).1 p = .ok (.int 1, p.next) := by
  have hcur : p.cur = .int 1 := hp.cur
  refine parsers_atom (by rw [hcur]; rfl) hp.hasError ?_ (.inr ?_)
  · unfold parseBase
    rw [get_run, hcur]
    rfl
  · rw [hp.next.cur]
    exact ⟨by decide, by decide, fun hno => (by cases hno), fun hno => (by cases hno),
      fun o ho => (by cases o <;> cases ho)⟩

lemma parseValue_one {expr : Parse Ast} (hp : p.Sees [.equals, .int 1, .semicolon, .rbrace])
    (hexpr : expr p.next = .ok (.int 1, p.next.next)) :
    parseValue expr [s] p = .ok ([⟨[s], .int 1⟩], p.next.next.next) := by
  unfold parseValue
  rw [get_run, if_neg (by simp [hp.hasError]), bind_run (expect_run (cur_of_sees hp)), get_run,
    if_neg (by simp [hp.next.hasError]), bind_run hexpr, get_run, if_neg (by simp [hp.next.next.hasError]),
    bind_run (expect_run (cur_of_sees hp.next.next)), get_run, if_neg (by simp [hp.next.next.next.hasError])]
  rfl

/-- The end of a set without more bindings. -/
lemma parseSet_end {expr : Parse Ast} {key : List Bytes → Option Bytes} {binds : List Bind}
    (hp : p.Sees [.rbrace]) :
    parseSet (n + 1) expr key binds p = .ok (.attrSet (entries key binds), p.next) := by
  have hbinds : parseBinds expr .rbrace (n + 1) p = .ok (some [], p) := by
    unfold parseBinds
    rw [get_run, if_pos (.inl (cur_of_sees hp))]
    rfl
  have hcolon : p.next.cur ≠ .colon := by
    rw [hp.next.cur]
    decide
  unfold parseSet
  rw [get_run, if_neg (by simp [hp.hasError]), bind_run hbinds]
  show parseSetEnd expr key (binds ++ []) p = _
  unfold parseSetEnd
  rw [List.append_nil, bind_run (expect_run (cur_of_sees hp)), get_run, if_neg hcolon]
  rfl

lemma parseBase_keyed {expr select : Parse Ast} (h : ¬interpolates s = true)
    (hp : p.Sees [.lbrace, .string s, .equals, .int 1, .semicolon, .rbrace])
    (hexpr : expr p.next.next.next = .ok (.int 1, p.next.next.next.next)) :
    parseBase (n + 1) expr select p =
      .ok (.attrSet [(some s, .int 1)], p.next.next.next.next.next.next) := by
  have hdot : p.next.next.cur ≠ .dot := by
    rw [hp.next.next.cur]
    exact Token.noConfusion
  have hsegments : parseSegments (n + 1) p.next.next = .ok ([], p.next.next) := by
    unfold parseSegments
    rw [get_run, if_neg hdot]
    rfl
  have hkey : entries dottedKey [⟨[s], .int 1⟩] = [(some s, .int 1)] := by
    simp [entries, dottedKey, List.intercalate]
  unfold parseBase
  rw [get_run, cur_of_sees hp]
  show (advance >>= _ : Parse Ast) p = _
  rw [advance_run]
  unfold parseBraces
  rw [get_run, cur_of_sees hp.next]
  show (if interpolates s = true then _ else _ : Parse Ast) p.next = _
  rw [if_neg h, advance_run]
  unfold parseSetFrom
  rw [bind_run hsegments, bind_run (parseValue_one hp.next.next hexpr),
    parseSet_end hp.next.next.next.next.next, hkey]

/-- A set whose key is a literal without the beginning of an interpolation. -/
lemma nixParse_keyedBy (h0 : (0 : UInt8) ∉ s) (h : ¬interpolates s = true) :
    nixParse (keyedBy s) = .ok (.attrSet [(some s, .int 1)], none) := by
  have hsees := sees_start (lexes_keyedBy h0)
  obtain ⟨n, hn⟩ : ∃ n, (keyedBy s).length = n + 1 :=
    Nat.exists_eq_succ_of_ne_zero (by simp [keyedBy, literalOf])
  have hprefix : isPrefix (Parser.start (keyedBy s)).cur = false := by
    rw [hsees.cur]
    rfl
  have hbase : parseBase (n + 2) (parsers (n + 2)).1 (parsers (n + 2)).2 (.start (keyedBy s)) = .ok _ :=
    parseBase_keyed h hsees (parsers_one hsees.next.next.next)
  rw [nixParse_atom hn hprefix hbase (.inr hsees.next.next.next.next.next.next.cur),
    hsees.next.next.next.next.next.next.error]

/-- A literal with the beginning of an interpolation is no key. -/
lemma nixParse_keyedBy_interpolates (h0 : (0 : UInt8) ∉ s) (h : interpolates s = true) :
    nixParse (keyedBy s) = .ok (.missing, some (ascii "interpolated strings cannot be attrset keys")) := by
  have hsees := sees_start (lexes_keyedBy h0)
  obtain ⟨n, hn⟩ : ∃ n, (keyedBy s).length = n + 1 :=
    Nat.exists_eq_succ_of_ne_zero (by simp [keyedBy, literalOf])
  have hprefix : isPrefix (Parser.start (keyedBy s)).cur = false := by
    rw [hsees.cur]
    rfl
  have hbase : parseBase (n + 2) (parsers (n + 2)).1 (parsers (n + 2)).2 (.start (keyedBy s)) = .ok (.missing,
      { (Parser.start (keyedBy s)).next with
        hasError := true, error := some (ascii "interpolated strings cannot be attrset keys") }) := by
    unfold parseBase
    rw [get_run, cur_of_sees hsees]
    show (advance >>= _ : Parse Ast) _ = _
    rw [advance_run]
    unfold parseBraces
    rw [get_run, cur_of_sees hsees.next]
    show (if interpolates s = true then _ else _ : Parse Ast) _ = _
    rw [if_pos h, bind_run (parserError_run hsees.next.hasError)]
    rfl
  rw [nixParse_atom hn hprefix hbase (.inl rfl)]

end Parsing

/-! ### The evaluator -/

section Evaluating

variable {call : Builtins} {fuel : Nat} {s src : Bytes} {baseDir : Option Bytes} {h h' : Heap} {p : Ptr} {v w : Val}

/-- Evaluating a string without interpolation. -/
lemma nixEval_string (e : EnvPtr) (h : Heap) : nixEval call (fuel + 1) e (.string (partsOf s)) h =
    .ok (some h.values.length, { h with values := h.values ++ [some (.string s)] }) := by
  show evalParts (nixEval call fuel) e (partsOf s) [] h = _
  cases s <;> rfl

/-- **A literal without the beginning of an interpolation is the string.** -/
lemma literalOf_evaluatesTo (h0 : (0 : UInt8) ∉ s) (hs : ¬interpolates s = true) :
    EvaluatesTo call (literalOf s) baseDir (.string s) := by
  obtain ⟨e, h, hfile⟩ := evalFile_eq call (nixParse_literalOf h0 hs) rfl baseDir
  have hp := holds_new h.values h.envs h.error (.string s)
  refine ⟨1, { h with values := h.values ++ [some (.string s)] }, ?_⟩
  rw [hfile 1 _ _ _ (nixEval_string e h) hp (by simp [Val.type])]
  exact map_run (toTree_string hp)

/-- Evaluating a number in a string. -/
lemma nixEval_interpolated (call : Builtins) (fuel : Nat) (e : EnvPtr) (n : Int) (h : Heap) :
    ∃ p h', nixEval call (fuel + 2) e (.string [.inr (.int n)]) h = .ok (some p, h') ∧
      h'.Holds p (.string (signedDecimal n)) := by
  have hint : nixEval call (fuel + 1) e (.int n) h =
      .ok (some h.values.length, { h with values := h.values ++ [some (.int n)] }) := bind_run (newValue_run _ h)
  have hp := holds_new h.values h.envs h.error (.int n)
  have hrun : nixEval call (fuel + 2) e (.string [.inr (.int n)]) h =
      evalParts (nixEval call (fuel + 1)) e [] ([] ++ signedDecimal n)
        ⟨(h.values ++ [some (Val.int n)]).set h.values.length none, h.envs, h.error⟩ := by
    show evalParts (nixEval call (fuel + 1)) e [.inr (.int n)] [] h = _
    unfold evalParts
    rw [bind_run hint]
    show (load h.values.length >>= _ : Eval (Option Ptr)) _ = _
    rw [bind_run (load_run hp)]
    exact bind_run (freeValue_run hp)
  exact ⟨_, _, hrun.trans (bind_run (newValue_run _ _)), holds_new _ _ _ _⟩

/-- What binding a path puts into an empty set. -/
lemma attrsetBindPath_run {x : Option Ptr} (parts : List Bytes) (hp : h.Holds p (.attrSet [])) :
    ∃ h' entries, attrsetBindPath x p parts h = .ok ((), h') ∧ h'.Holds p (.attrSet entries) ∧
      (∀ entry ∈ entries, entry.1 ∈ parts) ∧ ∀ q w, q ≠ p → h.Holds q w → h'.Holds q w := by
  induction parts generalizing p h with
  | nil => exact ⟨h, [], rfl, hp, by simp, fun _ _ _ hq => hq⟩
  | cons part parts ih =>
    cases parts with
    | nil =>
      refine ⟨_, [(part, x)], attrsetBind_run hp, List.getElem?_set_self hp.lt, by simp, fun q w hne hq => ?_⟩
      exact (List.getElem?_set_ne hne.symm).trans hq
    | cons next parts =>
      -- the new set comes after `p`, so that what is bound in it leaves `p` as it is
      set set' := h.values.length with hset'
      have hlt : p < set' := hp.lt
      have hold : Heap.Holds ⟨h.values ++ [some (Val.attrSet [])], h.envs, h.error⟩ p (.attrSet []) :=
        hp.append _ _ _
      have hnew : Heap.Holds ⟨(h.values ++ [some (Val.attrSet [])]).set p (some (.attrSet [(part, some set')])),
          h.envs, h.error⟩ set' (.attrSet []) :=
        (List.getElem?_set_ne hlt.ne).trans (holds_new h.values h.envs h.error (.attrSet []))
      obtain ⟨h', entries, hrun, -, -, hframe⟩ := ih hnew
      have hpath : attrsetBindPath x p (part :: next :: parts) h = .ok ((), h') := by
        unfold attrsetBindPath
        rw [bind_run (attrsetLookup_run hp)]
        show (newValue (Val.attrSet []) >>= _ : Eval Unit) h = _
        rw [bind_run (newValue_run _ h)]
        exact (bind_run (attrsetBind_run hold)).trans hrun
      refine ⟨h', [(part, some set')], hpath, hframe p _ hlt.ne (List.getElem?_set_self hold.lt), by simp,
        fun q w hne hq => ?_⟩
      have hne' : q ≠ set' := hq.lt.ne
      exact hframe q w hne' ((List.getElem?_set_ne hne.symm).trans (hq.append _ h.envs h.error))

/-- The keys of a set stay in its tree. -/
lemma toTree_keys {entries : List (Bytes × Option Ptr)} {t : Tree} (hp : h.Holds p (.attrSet entries))
    (hrun : toTree fuel (some p) h = .ok (t, h')) :
    ∃ members, t = .attrSet members ∧ members.map Prod.fst = entries.map Prod.fst := by
  cases fuel with
  | zero => cases hrun
  | succ n =>
    unfold toTree at hrun
    rw [bind_run (load_run hp)] at hrun
    obtain ⟨members, h'', hmembers, ht⟩ := of_bind_run hrun
    refine ⟨members, (congrArg Prod.fst (Except.ok.inj ht)).symm, ?_⟩
    clear ht hrun hp
    induction entries generalizing h h'' members with
    | nil =>
      obtain rfl := congrArg Prod.fst (Except.ok.inj hmembers)
      rfl
    | cons entry entries ih =>
      rw [List.mapM_cons] at hmembers
      obtain ⟨member, h₁, hmember, hrest⟩ := of_bind_run hmembers
      obtain ⟨rest, h₂, htail, hcons⟩ := of_bind_run hrest
      obtain ⟨tree, h₃, -, hpair⟩ := of_bind_run hmember
      obtain rfl : (entry.1, tree) = member := congrArg Prod.fst (Except.ok.inj hpair)
      obtain rfl : (entry.1, tree) :: rest = members := congrArg Prod.fst (Except.ok.inj hcons)
      exact congrArg (entry.1 :: ·) (ih rest _ htail)

lemma evalBindings_one {eval : Evaluator} {e : EnvPtr} {ast : Ast} {h₁ h₂ : Heap} {x : Ptr} {key : Option Bytes}
    (heval : eval e ast h = .ok (some x, h₁)) (hbind : bindKey p key (some x) h₁ = .ok ((), h₂)) :
    evalBindings eval e p [(key, ast)] h = .ok (true, h₂) := by
  unfold evalBindings
  rw [bind_run heval]
  show (bindKey p key (some x) >>= _ : Eval Bool) h₁ = _
  rw [bind_run hbind]
  rfl

/-- Evaluating a set of one attribute: what its key is bound to in a new set. -/
lemma nixEval_one (e : EnvPtr) (h : Heap)
    (hbind : bindKey h.values.length (some s) (some (h.values.length + 1))
      { h with values := h.values ++ [some (Val.attrSet []), some (Val.int 1)] } = .ok ((), h')) :
    nixEval call (fuel + 2) e (.attrSet [(some s, .int 1)]) h = .ok (some h.values.length, h') := by
  have hone : nixEval call (fuel + 1) e (.int 1) { h with values := h.values ++ [some (Val.attrSet [])] } =
      .ok (some (h.values.length + 1),
        { h with values := h.values ++ [some (Val.attrSet []), some (Val.int 1)] }) := by
    have hrun := newValue_run (.int 1) { h with values := h.values ++ [some (Val.attrSet [])] }
    rw [List.length_append, List.append_assoc] at hrun
    exact (bind_run hrun :)
  show evalAttrSet (nixEval call (fuel + 1)) e [(some s, .int 1)] h = _
  unfold evalAttrSet
  rw [bind_run (newValue_run _ h), bind_run (evalBindings_one hone hbind)]
  rfl

/-- The value of a set whose key is a literal, up to the binding of the key. -/
lemma keyedBy_eq (call : Builtins) (h0 : (0 : UInt8) ∉ s) (hs : ¬interpolates s = true) (baseDir : Option Bytes) :
    ∃ h : Heap, ∀ entries h', h'.Holds h.values.length (.attrSet entries) →
      bindKey h.values.length (some s) (some (h.values.length + 1))
        { h with values := h.values ++ [some (Val.attrSet []), some (Val.int 1)] } = .ok ((), h') →
      ∀ fuel, evalFile call (fuel + 2) (keyedBy s) baseDir ⟨[], [], none⟩ =
        (some <$> toTree (fuel + 2) (some h.values.length)) h' := by
  obtain ⟨e, h, hfile⟩ := evalFile_eq call (nixParse_keyedBy h0 hs) rfl baseDir
  exact ⟨h, fun entries h' hp hbind fuel => hfile _ _ _ _ (nixEval_one e h hbind) hp (by simp [Val.type])⟩

/-- It takes an evaluator of the value. -/
lemma keyedBy_fuel {t : Tree} (h0 : (0 : UInt8) ∉ s) (hs : ¬interpolates s = true)
    (hrun : evalFile call fuel (keyedBy s) baseDir ⟨[], [], none⟩ = .ok (some t, h')) : 2 ≤ fuel := by
  obtain ⟨e, h, hfile⟩ := evalFile_parsed call (nixParse_keyedBy h0 hs) baseDir
  rw [hfile] at hrun
  by_contra! hlt
  interval_cases fuel <;> cases hrun

lemma bindKey_plain {entries : List (Bytes × Option Ptr)} {x : Option Ptr} (hdot : 46 ∉ s)
    (hp : h.Holds p (.attrSet entries)) : bindKey p (some s) x h =
      .ok ((), { h with values := h.values.set p (some (.attrSet (put s x entries))) }) := by
  show (if 46 ∈ s then _ else _ : Eval Unit) h = _
  rw [if_neg hdot]
  exact attrsetBind_run hp

lemma bindKey_path {x : Option Ptr} (hdot : 46 ∈ s) (hrun : attrsetBindPath x p (dotted s) h = .ok ((), h')) :
    bindKey p (some s) x h = .ok ((), h') := by
  show (if 46 ∈ s then _ else _ : Eval Unit) h = _
  rw [if_pos hdot]
  exact hrun

lemma notMem_of_mem_splitOn {part : Bytes} {c : UInt8} (h : part ∈ s.splitOn c) : c ∉ part := by
  induction s generalizing part with
  | nil =>
    rw [List.splitOn_nil, List.mem_singleton] at h
    simp [h]
  | cons d s ih =>
    rw [List.splitOn_cons_eq_if_modifyHead] at h
    obtain ⟨first, rest, hs⟩ : ∃ first rest, s.splitOn c = first :: rest :=
      List.exists_cons_of_ne_nil (List.splitOn_ne_nil c s)
    rw [hs] at h ih
    split at h
    · rcases List.mem_cons.1 h with rfl | h
      · simp
      · exact ih h
    · rename_i hne
      rcases List.mem_cons.1 h with rfl | h
      · intro hc
        rcases List.mem_cons.1 hc with rfl | hc
        · exact hne (by simp)
        · exact ih (List.mem_cons_self ..) hc
      · exact ih (List.mem_cons_of_mem _ h)

lemma toTree_one {q : Ptr} {t : Tree} (hp : h.Holds p (.attrSet [(s, some q)]))
    (hq : toTree fuel (some q) h = .ok (t, h)) : toTree (fuel + 1) (some p) h = .ok (.attrSet [(s, t)], h) := by
  have hmember : (toTree fuel (some q) >>= fun t => pure (s, t) : Eval (Bytes × Tree)) h = .ok ((s, t), h) := by
    rw [bind_run hq]
    rfl
  unfold toTree
  rw [bind_run (load_run hp)]
  show (List.mapM _ [(s, some q)] >>= _ : Eval Tree) h = _
  rw [List.mapM_cons]
  exact bind_run ((bind_run hmember).trans rfl)

/-- **A literal that is no path is a key.** -/
lemma keyedBy_evaluatesTo (h0 : (0 : UInt8) ∉ s) (hs : ¬interpolates s = true) (hdot : 46 ∉ s) :
    EvaluatesTo call (keyedBy s) baseDir (.attrSet [(s, .int 1)]) := by
  obtain ⟨h, heq⟩ := keyedBy_eq call h0 hs baseDir
  have hset : Heap.Holds ⟨h.values ++ [some (Val.attrSet []), some (Val.int 1)], h.envs, h.error⟩
      h.values.length (.attrSet []) := by simp [Heap.Holds]
  have hbind := bindKey_plain (x := some (h.values.length + 1)) hdot hset
  obtain ⟨h', hh'⟩ : ∃ h' : Heap, h' = ⟨(h.values ++ [some (Val.attrSet []), some (Val.int 1)]).set
    h.values.length (some (.attrSet [(s, some (h.values.length + 1))])), h.envs, h.error⟩ := ⟨_, rfl⟩
  rw [show put s (some (h.values.length + 1)) [] = [(s, some (h.values.length + 1))] from rfl, ← hh'] at hbind
  have hkey : h'.Holds h.values.length (.attrSet [(s, some (h.values.length + 1))]) := by
    simp [Heap.Holds, hh']
  have hone : h'.Holds (h.values.length + 1) (.int 1) := by
    simp [Heap.Holds, hh']
  exact ⟨2, h', (heq _ h' hkey hbind 0).trans (map_run (toTree_one hkey (toTree_int hone)))⟩

/-- **A literal that is a path is no key.** -/
lemma not_keyedBy_evaluatesTo (h0 : (0 : UInt8) ∉ s) (hs : ¬interpolates s = true) (hdot : 46 ∈ s) (t : Tree) :
    ¬EvaluatesTo call (keyedBy s) baseDir (.attrSet [(s, t)]) := by
  rintro ⟨fuel, h', hrun⟩
  obtain ⟨h, heq⟩ := keyedBy_eq call h0 hs baseDir
  have hset : Heap.Holds ⟨h.values ++ [some (Val.attrSet []), some (Val.int 1)], h.envs, h.error⟩
      h.values.length (.attrSet []) := by simp [Heap.Holds]
  obtain ⟨h₁, entries, hbind, hentries, hkeys, -⟩ :=
    attrsetBindPath_run (x := some (h.values.length + 1)) (dotted s) hset
  obtain ⟨n, rfl⟩ := Nat.exists_eq_add_of_le' (keyedBy_fuel h0 hs hrun)
  rw [heq entries h₁ hentries (bindKey_path hdot hbind) n] at hrun
  obtain ⟨tree, h₂, htree, ht⟩ := of_map_run hrun
  obtain ⟨members, rfl, hmembers⟩ := toTree_keys hentries htree
  obtain rfl : members = [(s, t)] := Tree.attrSet.inj (Option.some.inj (congrArg Prod.fst ht)).symm
  obtain ⟨entry, hentry, hfst⟩ := List.mem_map.1 (hmembers ▸ List.mem_singleton_self s : s ∈ entries.map Prod.fst)
  -- the pieces of a path have no dots
  exact notMem_of_mem_splitOn (List.mem_of_mem_filter (hkeys entry hentry)) (hfst ▸ hdot)

/-- A string that can be written as a literal: the literal is it, and is a key for it. -/
def Expressible (call : Builtins) (baseDir : Option Bytes) (s : Bytes) : Prop :=
  EvaluatesTo call (literalOf s) baseDir (.string s) ∧
    EvaluatesTo call (keyedBy s) baseDir (.attrSet [(s, .int 1)])

/-- **A string can be written as a literal exactly when it has neither the beginning of an interpolation nor a
dot.** -/
theorem expressible_iff (h0 : (0 : UInt8) ∉ s) :
    Expressible call baseDir s ↔ interpolates s = false ∧ 46 ∉ s := by
  constructor
  · rintro ⟨-, hkey⟩
    have hs : ¬interpolates s = true := fun hs =>
      not_evaluatesTo_of_missing (nixParse_keyedBy_interpolates h0 hs) _ hkey
    exact ⟨by simpa using hs, fun hdot => not_keyedBy_evaluatesTo h0 hs hdot _ hkey⟩
  · rintro ⟨hs, hdot⟩
    exact ⟨literalOf_evaluatesTo h0 (by simp [hs]), keyedBy_evaluatesTo h0 (by simp [hs]) hdot⟩

end Evaluating

/-- A path in a directory is expressible. -/
theorem expressible_iff_dir :
    Expressible (fun _ _ _ _ _ => pure none) none (ascii "/var/\"lib\"") ↔
      interpolates (ascii "/var/\"lib\"") = false ∧ 46 ∉ ascii "/var/\"lib\"" :=
  expressible_iff (by decide)

/-- An escaped dollar begins an interpolation. -/
theorem not_expressible_interpolation : (0 : UInt8) ∉ ascii "$\x7b1\x7d" ∧ ∀ call baseDir,
    EvaluatesTo call (literalOf (ascii "$\x7b1\x7d")) baseDir (.string (ascii "1")) ∧
      ¬Expressible call baseDir (ascii "$\x7b1\x7d") := by
  refine ⟨by decide, fun call baseDir => ⟨?_, fun hno => ?_⟩⟩
  · have hparse : nixParse (literalOf (ascii "$\x7b1\x7d")) = .ok (.string [.inr (.int 1)], none) := by rfl
    obtain ⟨e, h, hfile⟩ := evalFile_eq call hparse rfl baseDir
    obtain ⟨p, h', hrun, hp⟩ := nixEval_interpolated call 0 e 1 h
    exact ⟨2, h', (hfile 2 p h' _ hrun hp (by simp [Val.type])).trans (map_run (toTree_string hp))⟩
  · exact not_evaluatesTo_of_missing (nixParse_keyedBy_interpolates (by decide) (by decide)) _ hno.2

end Two09.Nix
