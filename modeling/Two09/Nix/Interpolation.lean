import Two09.Lib.Brackets
import Two09.Nix.Literals

/-!
# Interpolation

How the text of a string token falls into texts and interpolated expressions, and what `parse_string` makes of
it: the right thing when every interpolation is closed, and is one whole expression.
-/

namespace Two09.Nix

open Two09.Lib

/-! ### The texts of tokens -/

lemma wordToken_ne_string (word text : Bytes) : wordToken word ≠ .string text := by
  have hall : ∀ k ∈ keywords, k.2 ≠ Token.string text := by
    intro k hk
    fin_cases hk <;> exact Token.noConfusion
  unfold wordToken
  split
  · exact hall _ (List.mem_of_find?_eq_some ‹_›)
  · exact Token.noConfusion

lemma ite_token_ne {p : Prop} [Decidable p] {t u v : Token} (ht : t ≠ v) (hu : u ≠ v) : (if p then t else u) ≠ v := by
  split
  · exact ht
  · exact hu

lemma operator_ne_string (c : UInt8) (s text : Bytes) : (operator c s).1 ≠ .string text := by
  have hone : ∀ c, oneChar c ≠ .string text := by
    intro c
    unfold oneChar
    repeat' refine ite_token_ne ?_ ?_
    all_goals exact Token.noConfusion
  have htwo : ∀ c d t, twoChars c d = some t → t ≠ .string text := by
    intro c d t ht
    unfold twoChars at ht
    repeat' split at ht
    all_goals cases ht
    all_goals exact Token.noConfusion
  unfold operator
  split
  · exact hone c
  · split
    · exact htwo _ _ _ ‹_›
    · exact hone c

/-- **The lexer emits every text** without a zero byte, and no other. -/
lemma exists_string_token_iff (text : Bytes) : (∃ s, (nextToken s).1 = .string text) ↔ (0 : UInt8) ∉ text := by
  constructor
  · rintro ⟨s, hs⟩
    unfold nextToken at hs
    split at hs
    · cases hs
    · split_ifs at hs
      · obtain rfl := Token.string.inj hs
        exact zero_notMem_cstr _
      · cases hs
      · exact absurd hs (wordToken_ne_string _ _)
      · cases hs
      · exact absurd hs (operator_ne_string _ _ _)
  · intro h
    refine ⟨literalOf text ++ [], ?_⟩
    rw [nextToken_literalOf h]

/-! ### The pieces of a text -/

/-- The text falls into these pieces, texts and what stands between the braces of an interpolation, and what is
left is behind the beginning of an interpolation that is not closed. -/
inductive Cut : Bytes → List (Bytes ⊕ Bytes) → Option Bytes → Prop
  | nil : Cut [] [] none
  | unclosed {t : Bytes} (ht : Within 123 125 0 t) : Cut (36 :: 123 :: t) [] (some t)
  | text {s rest : Bytes} {pieces : List (Bytes ⊕ Bytes)} {left : Option Bytes} (hne : s ≠ [])
      (hs : ¬[36, 123] <:+: s) (hrest : rest = [] ∨ [36, 123] <+: rest) (hcut : Cut rest pieces left) :
      Cut (s ++ rest) (.inl s :: pieces) left
  | expr {e rest : Bytes} {pieces : List (Bytes ⊕ Bytes)} {left : Option Bytes} (he : Closes 123 125 0 e)
      (hcut : Cut rest pieces left) : Cut (36 :: 123 :: (e ++ 125 :: rest)) (.inr e :: pieces) left

section Cutting
variable {s e rest text : Bytes} {d : Nat} {pieces : List (Bytes ⊕ Bytes)} {left : Option Bytes}

/-- The depth behind one more character. -/
lemma closing_cons (c : UInt8) (s : Bytes) (d d' : Nat)
    (h : [c].count (125 : UInt8) + d' = [c].count (123 : UInt8) + d) :
    closing (d + 1) (c :: s) = closing (d' + 1) s + 1 := by
  rw [closing]
  by_cases hopen : c = 123
  · subst hopen
    rw [if_pos rfl, show d' = d + 1 by simpa [add_comm] using h]
  · by_cases hclose : c = 125
    · subst hclose
      rw [if_neg hopen, if_pos rfl, show d = d' + 1 by simpa [add_comm] using h.symm]
    · rw [if_neg hopen, if_neg hclose, show d' = d by simpa [hopen, hclose] using h]

lemma closing_of_within (h : Within 123 125 d s) : closing (d + 1) s = s.length := by
  induction s generalizing d with
  | nil => rfl
  | cons c s ih =>
    obtain ⟨d', hd⟩ : ∃ d', [c].count (125 : UInt8) + d' = [c].count (123 : UInt8) + d := by
      have hle := h [c] (List.cons_prefix_cons.2 ⟨rfl, List.nil_prefix⟩)
      exact ⟨[c].count 123 + d - [c].count 125, by omega⟩
    rw [closing_cons c s d d' hd, ih ((within_cons hd).1 h), List.length_cons]

lemma closing_of_closes (h : Closes 123 125 d e) : closing (d + 1) (e ++ 125 :: rest) = e.length + 1 := by
  induction e generalizing d with
  | nil =>
    obtain rfl : d = 0 := by simpa using h.count.symm
    show closing 1 (125 :: rest) = 1
    unfold closing
    rw [if_neg (by decide), if_pos rfl]
    cases rest <;> rfl
  | cons c e ih =>
    obtain ⟨d', hd⟩ : ∃ d', [c].count (125 : UInt8) + d' = [c].count (123 : UInt8) + d := by
      have hle := h.within [c] (List.cons_prefix_cons.2 ⟨rfl, List.nil_prefix⟩)
      exact ⟨[c].count 123 + d - [c].count 125, by omega⟩
    rw [List.cons_append, closing_cons c _ d d' hd, ih ((closes_cons hd).1 h), List.length_cons]

/-- The literal text in front of the next interpolation. -/
lemma literal_append (hs : ¬[36, 123] <:+: s) (hrest : rest = [] ∨ [36, 123] <+: rest) :
    literal (s ++ rest) = (s, rest) := by
  induction s with
  | nil =>
    obtain rfl | hpre := hrest
    · rfl
    · obtain ⟨t, rfl⟩ := hpre
      rfl
  | cons c s ih =>
    have htail : ¬[36, 123] <:+: s := fun hin => hs (hin.trans (List.suffix_cons c s).isInfix)
    have hpre : ¬[36, 123] <+: c :: (s ++ rest) := by
      intro hpre
      obtain ⟨hc, hnext⟩ := List.cons_prefix_cons.1 hpre
      cases s with
      | nil =>
        obtain rfl | hrest := hrest
        · simp at hnext
        · obtain ⟨t, rfl⟩ := hrest
          have h36 : (123 : UInt8) = 36 := (List.cons_prefix_cons.1 hnext).1
          exact absurd h36 (by decide)
      | cons d s =>
        have hd := (List.cons_prefix_cons.1 hnext).1
        exact hs (List.IsPrefix.isInfix ⟨s, by rw [← hc, ← hd]; rfl⟩)
    rw [List.cons_append, literal, if_neg hpre, ih htail]

lemma exists_literal (s : Bytes) : ∃ t rest, s = t ++ rest ∧ ¬[36, 123] <:+: t ∧ (rest = [] ∨ [36, 123] <+: rest) := by
  induction s with
  | nil => exact ⟨[], [], rfl, by decide, .inl rfl⟩
  | cons c s ih =>
    by_cases hpre : [36, 123] <+: c :: s
    · exact ⟨[], c :: s, rfl, by decide, .inr hpre⟩
    · obtain ⟨t, rest, rfl, ht, hrest⟩ := ih
      refine ⟨c :: t, rest, rfl, fun hin => ?_, hrest⟩
      rcases List.infix_cons_iff.1 hin with hpre' | hin
      · exact hpre (hpre'.trans ⟨rest, rfl⟩)
      · exact ht hin

/-- **Every text falls into pieces.** -/
lemma exists_cut (text : Bytes) : ∃ pieces left, Cut text pieces left := by
  induction hn : text.length using Nat.strong_induction_on generalizing text with
  | _ n ih =>
    subst hn
    obtain ⟨s, rest, rfl, hs, hrest⟩ := exists_literal text
    by_cases hne : s = []
    · subst hne
      obtain rfl | ⟨t, rfl⟩ := hrest
      · exact ⟨[], none, .nil⟩
      · obtain hwithin | ⟨e, rest, rfl, he⟩ := within_or_closes (l := 123) (r := 125) (by decide) t 0
        · exact ⟨[], some t, .unclosed hwithin⟩
        · obtain ⟨pieces, left, hcut⟩ := ih rest.length (by simp; omega) rest rfl
          exact ⟨.inr e :: pieces, left, .expr he hcut⟩
    · have hpos := List.length_pos_of_ne_nil hne
      obtain ⟨pieces, left, hcut⟩ := ih rest.length (by rw [List.length_append]; omega) rest rfl
      exact ⟨.inl s :: pieces, left, .text hne hs hrest hcut⟩

end Cutting

/-! ### What `parse_string` does with the pieces -/

/-- The parts for the pieces, one by one; what is not closed loses its last character. -/
def parsePieces (expr : Parse Ast) : List (Bytes ⊕ Bytes) → Option Bytes → Parse (List (Bytes ⊕ Ast))
  | [], none => return []
  | [], some [] => throw .outOfBounds
  | [], some (c :: text) => return [.inr (← parseInner expr (c :: text).dropLast)]
  | .inl text :: pieces, left => return .inl text :: (← parsePieces expr pieces left)
  | .inr text :: pieces, left => do
    let inner ← parseInner expr text
    return .inr inner :: (← parsePieces expr pieces left)

section Parsing
variable {expr : Parse Ast} {text : Bytes} {pieces : List (Bytes ⊕ Bytes)} {left : Option Bytes} {n : Nat}
  {p q : Parser} {parts : List (Bytes ⊕ Ast)}

lemma parseString_open (h : text ≠ []) : parseString expr (n + 1) (36 :: 123 :: text) = (do
    let inner ← parseInner expr (text.take (closing 1 text - 1))
    return .inr inner :: (← parseString expr n (text.drop (closing 1 text)))) := by
  rw [parseString, if_pos ⟨text, rfl⟩]
  show (if text = [] then _ else _) = _
  rw [if_neg h]
  rfl

lemma parseString_text {s rest : Bytes} (hne : s ≠ []) (hs : ¬[36, 123] <:+: s)
    (hrest : rest = [] ∨ [36, 123] <+: rest) : parseString expr (n + 1) (s ++ rest) = (do
    return .inl s :: (← parseString expr n rest)) := by
  have hliteral := literal_append hs hrest
  obtain ⟨c, t, rfl⟩ := List.exists_cons_of_ne_nil hne
  have hpre : ¬[36, 123] <+: c :: (t ++ rest) := by
    intro hpre
    rw [List.cons_append, literal, if_pos hpre] at hliteral
    cases hliteral
  rw [List.cons_append, parseString, if_neg hpre, ← List.cons_append, hliteral]

/-- **`parse_string` goes through the pieces.** -/
lemma parseString_cut (hcut : Cut text pieces left) (hn : text.length < n) :
    parseString expr n text = parsePieces expr pieces left := by
  induction hcut generalizing n with
  | nil =>
    obtain ⟨n, rfl⟩ := Nat.exists_eq_add_of_le' hn
    rfl
  | @unclosed t ht =>
    obtain ⟨n, rfl⟩ := Nat.exists_eq_add_of_le' hn
    cases t with
    | nil => rfl
    | cons c t =>
      have hend : parseString expr (n + (36 :: 123 :: c :: t).length) [] = pure [] := rfl
      rw [Nat.add_succ, parseString_open (List.cons_ne_nil c t), closing_of_within ht, List.drop_length, hend,
        ← List.dropLast_eq_take]
      rfl
  | @text s rest pieces left hne hs hrest hcut ih =>
    have hpos := List.length_pos_of_ne_nil hne
    obtain ⟨n, rfl⟩ := Nat.exists_eq_add_of_le' (Nat.zero_lt_of_lt hn)
    rw [List.length_append] at hn
    rw [parseString_text hne hs hrest, ih (by omega)]
    rfl
  | @expr e rest pieces left he hcut ih =>
    obtain ⟨n, rfl⟩ := Nat.exists_eq_add_of_le' (Nat.zero_lt_of_lt hn)
    have hdrop : (e ++ 125 :: rest).drop (e.length + 1) = rest := by
      rw [List.drop_append, List.drop_of_length_le (by omega)]
      simp
    rw [parseString_open (by simp), closing_of_closes he, hdrop, Nat.add_sub_cancel, List.take_left,
      ih (by simp at hn; omega)]
    rfl

/-- The texts between, and each expression parsed to its end without an error, from one error to the next. -/
def StandsFor (expr : Parse Ast) : List (Bytes ⊕ Bytes) → Option Bytes → List (Bytes ⊕ Ast) → Option Bytes → Prop
  | [], error, parts, error' => parts = [] ∧ error' = error
  | .inl text :: pieces, error, parts, error' =>
    ∃ rest, parts = .inl text :: rest ∧ StandsFor expr pieces error rest error'
  | .inr text :: pieces, error, parts, error' => ∃ ast sub rest,
    expr ⟨(nextToken text).2, (nextToken text).1, false, error⟩ = .ok (ast, sub) ∧ sub.hasError = false ∧
      sub.cur = .eof ∧ parts = .inr ast :: rest ∧ StandsFor expr pieces sub.error rest error'

/-- Every expression is parsed to its end without an error. -/
def Whole (expr : Parse Ast) : List (Bytes ⊕ Bytes) → Option Bytes → Prop
  | [], _ => True
  | .inl _ :: pieces, error => Whole expr pieces error
  | .inr text :: pieces, error => ∃ ast sub,
    expr ⟨(nextToken text).2, (nextToken text).1, false, error⟩ = .ok (ast, sub) ∧ sub.hasError = false ∧
      sub.cur = .eof ∧ Whole expr pieces sub.error

/-- The string is parsed within its bounds, and unless that is an error of the parser, its parts are the texts and
the whole expressions between the braces. -/
def StringRight (expr : Parse Ast) (n : Nat) (text : Bytes) (p : Parser) : Prop :=
  ∃ parts q, parseString expr n text p = .ok (parts, q) ∧
    (q.hasError = true ∨ ∃ pieces, Cut text pieces none ∧ StandsFor expr pieces p.error parts q.error)

lemma whole_of_standsFor {error error' : Option Bytes} (h : StandsFor expr pieces error parts error') :
    Whole expr pieces error := by
  induction pieces generalizing error parts with
  | nil => trivial
  | cons piece pieces ih =>
    cases piece with
    | inl text =>
      obtain ⟨rest, -, hrest⟩ := h
      exact ih hrest
    | inr text =>
      obtain ⟨ast, sub, rest, hrun, herror, hcur, -, hrest⟩ := h
      exact ⟨ast, sub, hrun, herror, hcur, ih hrest⟩

/-- An inner parser only shares its error. -/
lemma parseInner_run {ast : Ast} {sub : Parser}
    (h : expr ⟨(nextToken text).2, (nextToken text).1, false, p.error⟩ = .ok (ast, sub)) :
    parseInner expr text p = .ok (ast, { p with error := sub.error }) := by
  unfold parseInner
  rw [h]
  rfl

lemma of_parseInner_run {r : Ast × Parser} (h : parseInner expr text p = .ok r) : r.2.hasError = p.hasError := by
  unfold parseInner at h
  cases hrun : expr ⟨(nextToken text).2, (nextToken text).1, false, p.error⟩ with
  | error f =>
    rw [hrun] at h
    cases h
  | ok r' =>
    rw [hrun] at h
    obtain rfl := Except.ok.inj h
    rfl

/-- Whole expressions are the parts. -/
lemma parsePieces_whole (h : Whole expr pieces p.error) : ∃ parts q, parsePieces expr pieces none p = .ok (parts, q) ∧
    StandsFor expr pieces p.error parts q.error := by
  induction pieces generalizing p with
  | nil => exact ⟨[], p, rfl, rfl, rfl⟩
  | cons piece pieces ih =>
    cases piece with
    | inl text =>
      obtain ⟨parts, q, hrun, hparts⟩ := ih h
      refine ⟨.inl text :: parts, q, ?_, parts, rfl, hparts⟩
      unfold parsePieces
      rw [bind_run hrun]
      rfl
    | inr text =>
      obtain ⟨ast, sub, hsub, herror, hcur, hwhole⟩ := h
      obtain ⟨parts, q, hrun, hparts⟩ := @ih { p with error := sub.error } hwhole
      refine ⟨.inr ast :: parts, q, ?_, ast, sub, parts, hsub, herror, hcur, rfl, hparts⟩
      unfold parsePieces
      rw [bind_run (parseInner_run hsub), bind_run hrun]
      rfl

/-- **No string is an error of the parser**, whatever is in it. -/
lemma parsePieces_hasError {r : List (Bytes ⊕ Ast) × Parser} (h : parsePieces expr pieces left p = .ok r) :
    r.2.hasError = p.hasError := by
  induction pieces generalizing p r with
  | nil =>
    cases left with
    | none =>
      obtain rfl := Except.ok.inj h
      rfl
    | some text =>
      cases text with
      | nil => cases h
      | cons c text =>
        obtain ⟨ast, q, hinner, hret⟩ := of_bind_run h
        obtain rfl := Except.ok.inj hret
        exact of_parseInner_run hinner
  | cons piece pieces ih =>
    cases piece with
    | inl text =>
      obtain ⟨rest, q, hrest, hret⟩ := of_bind_run h
      obtain rfl := Except.ok.inj hret
      exact @ih p (rest, q) hrest
    | inr text =>
      obtain ⟨ast, q, hinner, hrun⟩ := of_bind_run h
      obtain ⟨rest, u, hrest, hret⟩ := of_bind_run hrun
      obtain rfl := Except.ok.inj hret
      exact (@ih q (rest, u) hrest).trans (of_parseInner_run hinner)

/-- Where the expressions can be parsed, what is out of bounds is an interpolation that ends the text. -/
lemma parsePieces_outOfBounds (hexpr : ∀ q, ∃ r, expr q = .ok r) (p : Parser) :
    parsePieces expr pieces left p = .error .outOfBounds ↔ left = some [] := by
  have hinner : ∀ text p, ∃ r, parseInner expr text p = .ok r := by
    intro text p
    obtain ⟨r, hr⟩ := hexpr ⟨(nextToken text).2, (nextToken text).1, false, p.error⟩
    exact ⟨_, parseInner_run hr⟩
  induction pieces generalizing p with
  | nil =>
    cases left with
    | none => exact iff_of_false (fun h => by cases h) (fun h => by cases h)
    | some text =>
      cases text with
      | nil => exact iff_of_true rfl rfl
      | cons c text =>
        obtain ⟨r, hr⟩ := hinner (c :: text).dropLast p
        refine iff_of_false (fun h => ?_) (fun h => by cases h)
        unfold parsePieces at h
        rw [bind_run hr] at h
        cases h
  | cons piece pieces ih =>
    have hnext : ∀ (part : Bytes ⊕ Ast) (q : Parser),
        (do return part :: (← parsePieces expr pieces left) : Parse (List (Bytes ⊕ Ast))) q =
          .error .outOfBounds ↔ left = some [] := by
      intro part q
      refine Iff.trans ?_ (ih q)
      cases hrun : parsePieces expr pieces left q with
      | error f => rw [bind_error hrun]
      | ok r =>
        rw [bind_run hrun]
        exact iff_of_false (fun h => by cases h) (fun h => by cases h)
    cases piece with
    | inl text => exact hnext (.inl text) p
    | inr text =>
      obtain ⟨r, hr⟩ := hinner text p
      unfold parsePieces
      rw [bind_run hr]
      exact hnext (.inr r.1) r.2

end Parsing

/-- **Interpolation.** Every text without a zero byte is one of a string token. Splitting it runs out of bounds when
it ends in the beginning of an interpolation, and its parts are the texts and whole expressions, unless the parser
fails, when every interpolation is closed and has one whole expression. -/
theorem interpolation_iff (expr : Parse Ast) (n : Nat) (text : Bytes) (p : Parser) (hn : text.length < n) :
    ((∃ s, (nextToken s).1 = .string text) ↔ (0 : UInt8) ∉ text) ∧
    ((∀ q, ∃ r, expr q = .ok r) →
      (parseString expr n text p = .error .outOfBounds ↔ ∃ pieces, Cut text pieces (some []))) ∧
    (p.hasError = false →
      (StringRight expr n text p ↔ ∃ pieces, Cut text pieces none ∧ Whole expr pieces p.error)) := by
  refine ⟨exists_string_token_iff text, fun hexpr => ?_, fun hp => ?_⟩
  · obtain ⟨pieces, left, hcut⟩ := exists_cut text
    constructor
    · intro h
      rw [parseString_cut hcut hn, parsePieces_outOfBounds hexpr] at h
      exact ⟨pieces, h ▸ hcut⟩
    · rintro ⟨pieces, hcut⟩
      rw [parseString_cut hcut hn, parsePieces_outOfBounds hexpr]
  · constructor
    · rintro ⟨parts, q, hrun, hfailed | ⟨pieces, hcut, hparts⟩⟩
      · obtain ⟨pieces, left, hcut⟩ := exists_cut text
        rw [parseString_cut hcut hn] at hrun
        have hkept := parsePieces_hasError hrun
        rw [hp, hfailed] at hkept
        cases hkept
      · exact ⟨pieces, hcut, whole_of_standsFor hparts⟩
    · rintro ⟨pieces, hcut, hwhole⟩
      obtain ⟨parts, q, hrun, hparts⟩ := parsePieces_whole hwhole
      exact ⟨parts, q, (congrFun (parseString_cut hcut hn) p).trans hrun, .inr ⟨pieces, hcut, hparts⟩⟩

/-- A string with one whole expression. -/
theorem interpolation_one : ∃ pieces, Cut (ascii "a$\x7b1\x7d") pieces none ∧
    Whole (parsers 7).1 pieces none ∧ StringRight (parsers 7).1 7 (ascii "a$\x7b1\x7d") (.start []) := by
  have hcloses : Closes 123 125 0 (ascii "1") := by
    have hother : [(49 : UInt8)].count 125 + 0 = [(49 : UInt8)].count 123 + 0 := by decide
    exact (closes_cons hother).2 ⟨within_nil, rfl⟩
  have hcut : Cut (ascii "a$\x7b1\x7d") [.inl (ascii "a"), .inr (ascii "1")] none :=
    .text (s := ascii "a") (by decide) (by decide) (.inr (by decide)) (.expr hcloses .nil)
  have hwhole : Whole (parsers 7).1 [.inl (ascii "a"), .inr (ascii "1")] none :=
    ⟨.int 1, _, rfl, rfl, rfl, trivial⟩
  exact ⟨_, hcut, hwhole,
    ((interpolation_iff (parsers 7).1 7 (ascii "a$\x7b1\x7d") (.start []) (by decide)).2.2 rfl).2 ⟨_, hcut, hwhole⟩⟩

/-- Whether a parse is out of bounds. -/
def isOut : Except Fault (Ast × Option Bytes) → Bool
  | .error .outOfBounds => true
  | _ => false

/-- Whether it is the string of an interpolation that is so, and whether there is an error. -/
def isInterpolation (expr : Ast → Bool) (failed : Bool) : Except Fault (Ast × Option Bytes) → Bool
  | .ok (.string [.inr e], error) => expr e && error.isSome == failed
  | _ => false

def Ast.isOne : Ast → Bool
  | .int n => n == 1
  | _ => false

lemma of_isOut {r : Except Fault (Ast × Option Bytes)} (h : isOut r = true) : r = .error .outOfBounds := by
  unfold isOut at h
  split at h
  · rfl
  · cases h

lemma of_isInterpolation {expr : Ast → Bool} {failed : Bool} {r : Except Fault (Ast × Option Bytes)}
    (h : isInterpolation expr failed r = true) :
    ∃ e error, r = .ok (.string [.inr e], error) ∧ expr e = true ∧ error.isSome = failed := by
  unfold isInterpolation at h
  split at h
  · obtain ⟨he, herror⟩ := Bool.and_eq_true_iff.1 h
    exact ⟨_, _, rfl, he, eq_of_beq herror⟩
  · cases h

lemma Ast.eq_of_isOne {e : Ast} (h : e.isOne = true) : e = .int 1 := by
  cases e with
  | int n => rw [show n = 1 from eq_of_beq h]
  | _ => cases h

lemma Ast.eq_of_isMissing {e : Ast} (h : e.isMissing = true) : e = .missing := by
  cases e with
  | missing => rfl
  | _ => cases h

/-- **`"\${"` is out of bounds, `"${12` loses a digit, and `"${1)}"` and `"${)}"` are parsed**, the one with a token left
over, the other with an error. -/
theorem interpolation_not_right :
    nixParse (ascii "\"\\$\x7b\"") = .error .outOfBounds ∧
    nixParse (ascii "\"$\x7b12") = .ok (.string [.inr (.int 1)], none) ∧
    nixParse (ascii "\"$\x7b1)\x7d\"") = .ok (.string [.inr (.int 1)], none) ∧
    ∃ error, nixParse (ascii "\"$\x7b)\x7d\"") = .ok (.string [.inr .missing], some error) := by
  have hone : ∀ src, isInterpolation Ast.isOne false (nixParse src) = true →
      nixParse src = .ok (.string [.inr (.int 1)], none) := by
    intro src h
    obtain ⟨e, error, hparse, he, herror⟩ := of_isInterpolation h
    obtain rfl := Ast.eq_of_isOne he
    rw [hparse, Option.not_isSome_iff_eq_none.1 (Bool.eq_false_iff.1 herror)]
  refine ⟨of_isOut (by decide +kernel), hone _ (by decide +kernel), hone _ (by decide +kernel), ?_⟩
  have hmissing : isInterpolation Ast.isMissing true (nixParse (ascii "\"$\x7b)\x7d\"")) = true := by decide +kernel
  obtain ⟨e, error, hparse, he, herror⟩ := of_isInterpolation hmissing
  obtain ⟨error, rfl⟩ := Option.isSome_iff_exists.1 herror
  obtain rfl := Ast.eq_of_isMissing he
  exact ⟨error, hparse⟩

end Two09.Nix
