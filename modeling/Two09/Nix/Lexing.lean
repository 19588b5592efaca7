import Two09.Lib.Run
import Two09.Nix.Parser

/-!
# Spelling tokens

How names, numbers and operators are written, and that the lexer finds them again when blanks stand between
them.
-/

namespace Two09.Nix

open Two09.Lib

/-! ### What the lexer finds -/

/-- `s` is read as `tokens`, and nothing is left. -/
def Lexes : Bytes → List Token → Prop
  | s, [] => nextToken s = (.eof, [])
  | s, t :: tokens => (nextToken s).1 = t ∧ Lexes (nextToken s).2 tokens

instance decidableLexes : ∀ s tokens, Decidable (Lexes s tokens)
  | s, [] => inferInstanceAs (Decidable (nextToken s = (.eof, [])))
  | s, t :: tokens =>
    have := decidableLexes (nextToken s).2 tokens
    inferInstanceAs (Decidable ((nextToken s).1 = t ∧ Lexes (nextToken s).2 tokens))

/-- The parser stands in front of `tokens`, and there was no error. -/
structure Parser.Sees (p : Parser) (tokens : List Token) : Prop where
  cur : p.cur = tokens.headD .eof
  rest : Lexes p.rest tokens.tail
  hasError : p.hasError = false
  error : p.error = none

/-- The parser behind its token. -/
def Parser.next (p : Parser) : Parser := { p with rest := (nextToken p.rest).2, cur := (nextToken p.rest).1 }

lemma sees_start {src : Bytes} {tokens : List Token} (h : Lexes src tokens) :
    (Parser.start src).Sees tokens := by
  cases tokens with
  | nil =>
    have hend : nextToken src = (.eof, []) := h
    refine ⟨congrArg Prod.fst hend, ?_, rfl, rfl⟩
    show Lexes (nextToken src).2 []
    rw [hend]
    rfl
  | cons t tokens => exact ⟨h.1, h.2, rfl, rfl⟩

lemma Parser.Sees.next {p : Parser} {t : Token} {tokens : List Token} (h : p.Sees (t :: tokens)) :
    p.next.Sees tokens := by
  have hstart := sees_start h.rest
  exact ⟨hstart.cur, hstart.rest, h.hasError, h.error⟩

lemma advance_run {β : Type} {p : Parser} (f : Unit → Parse β) : (advance >>= f) p = f () p.next := rfl

/-! ### Names and numbers -/

/-- The words that are not variables. -/
def reserved : List Bytes := keywords.map Prod.fst ++ [ascii "true", ascii "false", ascii "null"]

/-- A word that is a variable. -/
structure IsName (name : Bytes) : Prop where
  first : ∃ c ∈ name.head?, isAlpha c ∨ c = 95
  chars : ∀ c ∈ name, isIdentChar c = true
  free : name ∉ reserved

instance (name : Bytes) : Decidable (IsName name) :=
  decidable_of_iff ((∃ c ∈ name.head?, isAlpha c ∨ c = 95) ∧ (∀ c ∈ name, isIdentChar c = true) ∧
    name ∉ reserved) ⟨fun h => ⟨h.1, h.2.1, h.2.2⟩, fun h => ⟨h.first, h.chars, h.free⟩⟩

lemma wordToken_name {name : Bytes} (h : IsName name) : wordToken name = .ident name := by
  have hnone : keywords.find? (fun k => k.1 = name) = none := by
    refine List.find?_eq_none.2 fun k hk => ?_
    have hne : k.1 ≠ name := fun heq =>
      h.free (List.mem_append_left _ (List.mem_map.2 ⟨k, hk, heq⟩))
    simpa using hne
  unfold wordToken
  rw [hnone]

lemma bmod_of_lt {v : Nat} (h : v < 2 ^ 63) : Int.bmod (v : Int) (2 ^ 64) = v := by
  refine Int.bmod_eq_of_le ?_ ?_ <;> omega

/-- The digits of `n`, last first, give what `64` bits hold of it. -/
lemma foldr_addDigit (n : Nat) :
    (Nat.digits 10 n).foldr (fun d v => addDigit v (UInt8.ofNat (48 + d))) 0 = Int.bmod n (2 ^ 64) := by
  induction n using Nat.strong_induction_on with
  | _ n ih =>
    rcases Nat.eq_zero_or_pos n with rfl | hpos
    · rfl
    · have hdigit : (UInt8.ofNat (48 + n % 10)).toNat = 48 + n % 10 :=
        Nat.mod_eq_of_lt (by omega)
      rw [Nat.digits_def' (by omega) hpos, List.foldr_cons, ih (n / 10) (by omega)]
      unfold addDigit
      rw [hdigit, ← Int.bmod_add_bmod, Int.bmod_mul_bmod, Int.bmod_add_bmod,
        show ((n / 10 : Nat) : Int) * 10 + (((48 + n % 10 : Nat) : Int) - 48) = (n : Int) by omega]

lemma foldl_addDigit_eq (n : Nat) : (decimal n).foldl addDigit 0 = Int.bmod n (2 ^ 64) := by
  unfold decimal
  split_ifs with hzero
  · subst hzero
    rfl
  · rw [List.foldl_map, List.foldl_reverse]
    exact foldr_addDigit n

lemma foldl_addDigit {n : Nat} (h : n < 2 ^ 63) : (decimal n).foldl addDigit 0 = n := by
  rw [foldl_addDigit_eq, bmod_of_lt h]

/-! ### Spelling -/

/-- The symbols that are spelled here. -/
def symbols : List Token :=
  [.lparen, .rparen, .dot, .arrow, .or, .and, .eq, .neq, .lt, .le, .gt, .ge, .plusPlus, .plus, .minus, .star,
    .slash, .not]

/-- How a token is written. -/
def spell : Token → Bytes
  | .ident name => name
  | .int value => decimal value.toNat
  | .lparen => ascii "("
  | .rparen => ascii ")"
  | .dot => ascii "."
  | .arrow => ascii "->"
  | .or => ascii "||"
  | .and => ascii "&&"
  | .eq => ascii "=="
  | .neq => ascii "!="
  | .lt => ascii "<"
  | .le => ascii "<="
  | .gt => ascii ">"
  | .ge => ascii ">="
  | .plusPlus => ascii "++"
  | .plus => ascii "+"
  | .minus => ascii "-"
  | .star => ascii "*"
  | .slash => ascii "/"
  | .not => ascii "!"
  | _ => []

/-- The tokens that are spelled here. -/
inductive Spelled : Token → Prop
  | name {name : Bytes} (h : IsName name) : Spelled (.ident name)
  | number {value : Nat} (h : value < 2 ^ 63) : Spelled (.int value)
  | symbol {t : Token} (h : t ∈ symbols) : Spelled t

/-- A token may end in front of `s`: at the end, and at a blank. -/
def Gapped (s : Bytes) : Prop := ∀ c ∈ s.head?, c = 32

lemma takeWhile_gapped {p : UInt8 → Bool} {t s : Bytes} (ht : ∀ c ∈ t, p c = true) (hs : Gapped s)
    (hblank : p 32 = false) : (t ++ s).takeWhile p = t := by
  rw [List.takeWhile_append_of_pos ht]
  cases s with
  | nil => exact List.append_nil t
  | cons c s =>
    obtain rfl : c = 32 := hs c rfl
    rw [List.takeWhile_cons_of_neg (by simp [hblank]), List.append_nil]

lemma dropWhile_gapped {p : UInt8 → Bool} {t s : Bytes} (ht : ∀ c ∈ t, p c = true) (hs : Gapped s)
    (hblank : p 32 = false) : (t ++ s).dropWhile p = s := by
  rw [List.dropWhile_append_of_pos ht]
  cases s with
  | nil => rfl
  | cons c s =>
    obtain rfl : c = 32 := hs c rfl
    exact List.dropWhile_cons_of_neg (by simp [hblank])

lemma nextToken_symbol {t : Token} (h : t ∈ symbols) {s : Bytes} (hs : Gapped s) :
    nextToken (spell t ++ s) = (t, s) := by
  have hnil : ∀ t ∈ symbols, nextToken (spell t ++ []) = (t, []) := by decide
  cases s with
  | nil => exact hnil t h
  | cons c s =>
    obtain rfl : c = 32 := hs c rfl
    fin_cases h <;> rfl

lemma skip_blank (s : Bytes) : skip .blank (32 :: s) = skip .blank s := by
  cases s <;> rfl

lemma nextToken_blank (s : Bytes) : nextToken (32 :: s) = nextToken s := by
  unfold nextToken
  rw [skip_blank]

/-- The characters that begin blanks, comments, strings and paths. -/
def others : Bytes := [32, 9, 10, 13, 35, 47, 34, 46, 126]

lemma isBlank_eq {c : UInt8} (h : c ∉ others) : isBlank c = false := by
  simp only [others, List.mem_cons, not_or] at h
  simp [isBlank, h]

lemma beginsPath_eq {c : UInt8} (h : c ∉ others) (s : Bytes) : beginsPath c s = false := by
  simp only [others, List.mem_cons, not_or] at h
  cases s with
  | nil => rfl
  | cons d s => simp [beginsPath, h]

lemma skip_solid {c : UInt8} (h : c ∉ others) (s : Bytes) : skip .blank (c :: s) = c :: s := by
  have hblank := isBlank_eq h
  simp only [others, List.mem_cons, not_or] at h
  cases s with
  | nil => simp [skip, hblank, h]
  | cons d s => simp [skip, hblank, h]

/-- Of a character that begins none of these, `nextToken` only asks what it is. -/
lemma nextToken_cons {c : UInt8} (h : c ∉ others) (s : Bytes) : nextToken (c :: s) =
    if isAlpha c ∨ c = 95 then lexIdent (c :: s) else if isDigit c then lexInteger (c :: s)
    else operator c s := by
  unfold nextToken
  rw [skip_solid h]
  show (if c = 34 then _ else _) = _
  have hquote : c ≠ 34 := fun hquote => h (hquote.symm ▸ (by decide : (34 : UInt8) ∈ others))
  rw [if_neg hquote, beginsPath_eq h, if_neg (by decide)]

lemma word_first {c : UInt8} (h : isAlpha c ∨ c = 95) : c ∉ others := by
  have hall : others.all (fun k => !isAlpha k && k != 95) = true := by decide
  intro hc
  have hfree := List.all_eq_true.1 hall c hc
  simp only [Bool.and_eq_true, Bool.not_eq_true', bne_iff_ne, ne_eq] at hfree
  rcases h with halpha | heq
  · rw [hfree.1] at halpha
    cases halpha
  · exact hfree.2 heq

lemma digit_first {c : UInt8} (h : isDigit c) : c ∉ others := by
  have hall : others.all (fun k => !isDigit k) = true := by decide
  intro hc
  have hfree := List.all_eq_true.1 hall c hc
  rw [h] at hfree
  cases hfree

lemma not_word_of_digit {c : UInt8} (h : isDigit c) : ¬(isAlpha c ∨ c = 95) := by
  simp only [isDigit, isAlpha, decide_eq_true_eq, UInt8.le_iff_toNat_le, ← UInt8.toNat_inj] at h ⊢
  have h57 : (57 : UInt8).toNat = 57 := rfl
  have h65 : (65 : UInt8).toNat = 65 := rfl
  have h95 : (95 : UInt8).toNat = 95 := rfl
  have h97 : (97 : UInt8).toNat = 97 := rfl
  omega

lemma nextToken_name {name : Bytes} (h : IsName name) {s : Bytes} (hs : Gapped s) :
    nextToken (name ++ s) = (.ident name, s) := by
  obtain ⟨c, hc, hfirst⟩ := h.first
  obtain ⟨tail, rfl⟩ := List.head?_eq_some_iff.1 hc
  rw [List.cons_append, nextToken_cons (word_first hfirst), if_pos hfirst, ← List.cons_append]
  unfold lexIdent
  rw [takeWhile_gapped h.chars hs (by decide), dropWhile_gapped h.chars hs (by decide), wordToken_name h]

lemma nextToken_number {value : Nat} (h : value < 2 ^ 63) {s : Bytes} (hs : Gapped s) :
    nextToken (decimal value ++ s) = (.int value, s) := by
  have hdigits : ∀ c ∈ decimal value, isDigit c = true := fun c hc => decide_eq_true (digit_of_mem_decimal hc)
  obtain ⟨c, tail, htail⟩ := List.exists_cons_of_ne_nil (decimal_ne_nil value)
  have hfirst : isDigit c = true := hdigits c (htail ▸ List.mem_cons_self)
  have hcons : decimal value ++ s = c :: (tail ++ s) := by
    rw [htail]
    rfl
  rw [hcons, nextToken_cons (digit_first hfirst), if_neg (not_word_of_digit hfirst), if_pos hfirst, ← hcons]
  unfold lexInteger
  rw [takeWhile_gapped hdigits hs (by decide), dropWhile_gapped hdigits hs (by decide), foldl_addDigit h]

/-- **A spelled token is read again.** -/
lemma nextToken_spell {t : Token} (h : Spelled t) {s : Bytes} (hs : Gapped s) :
    nextToken (spell t ++ s) = (t, s) := by
  cases h with
  | name hname => exact nextToken_name hname hs
  | number hvalue => exact nextToken_number hvalue hs
  | symbol hsymbol => exact nextToken_symbol hsymbol hs

/-- The tokens, with a blank between each two. -/
def spellAll (tokens : List Token) : Bytes := [32].intercalate (tokens.map spell)

lemma spellAll_cons (t u : Token) (tokens : List Token) :
    spellAll (t :: u :: tokens) = spell t ++ 32 :: spellAll (u :: tokens) := by
  simp [spellAll, List.intercalate]

lemma lexes_blank {s : Bytes} {t : Token} {tokens : List Token} (h : Lexes s (t :: tokens)) :
    Lexes (32 :: s) (t :: tokens) := by
  unfold Lexes at h ⊢
  rwa [nextToken_blank]

lemma lexes_spellAll {tokens : List Token} (h : ∀ t ∈ tokens, Spelled t) : Lexes (spellAll tokens) tokens := by
  induction tokens with
  | nil => rfl
  | cons t tokens ih =>
    have ht := h t List.mem_cons_self
    have ih := ih fun u hu => h u (List.mem_cons_of_mem _ hu)
    cases tokens with
    | nil =>
      have hnext := nextToken_spell ht (s := []) (fun c hc => (by cases hc))
      rw [List.append_nil] at hnext
      have hall : spellAll [t] = spell t := by simp [spellAll, List.intercalate]
      rw [hall]
      unfold Lexes
      rw [hnext]
      exact ⟨rfl, rfl⟩
    | cons u tokens =>
      rw [spellAll_cons]
      unfold Lexes
      have hgap : Gapped (32 :: spellAll (u :: tokens)) := fun c hc => (Option.mem_some_iff.1 hc).symm
      rw [nextToken_spell ht hgap]
      exact ⟨rfl, lexes_blank ih⟩

end Two09.Nix
