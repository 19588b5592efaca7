import Two09.Lib.JsonGrammar
import Two09.Lib.JsonPrint
import Mathlib

/-!
# What a JSON text means

The grammar of JSON with the values: what stands at the front of a text, which value it is, and what is left of the
text behind it. A number is kept as it is written.
-/

namespace Two09.Lib.JsonText

open JsonGrammar (blanks isBlank isDigit isHexDigit)
open Json (encodeUtf8 unescapeChar isNumberChar Stops)

/-! ### The grammar -/

/-- The number that four hexadecimal digits are. -/
def hexValue (a b c d : UInt8) : ℕ := Json.parseHex4 [a, b, c, d]

def IsHex (a b c d : UInt8) : Prop :=
  isHexDigit a = true ∧ isHexDigit b = true ∧ isHexDigit c = true ∧ isHexDigit d = true

/-- What follows a backslash for a character that is given by its number, or by the two halves of it. -/
inductive Unicode : Bytes → Bytes → Prop
  | single {a b c d : UInt8} (h : IsHex a b c d)
    (hplane : ¬ (0xD800 ≤ hexValue a b c d ∧ hexValue a b c d ≤ 0xDFFF)) :
    Unicode [117, a, b, c, d] (encodeUtf8 (hexValue a b c d))
  | pair {a b c d a' b' c' d' : UInt8} (h : IsHex a b c d) (h' : IsHex a' b' c' d')
    (hhigh : 0xD800 ≤ hexValue a b c d ∧ hexValue a b c d ≤ 0xDBFF)
    (hlow : 0xDC00 ≤ hexValue a' b' c' d' ∧ hexValue a' b' c' d' ≤ 0xDFFF) :
    Unicode [117, a, b, c, d, 92, 117, a', b', c', d']
      (encodeUtf8 (0x10000 + (hexValue a b c d % 0x400 * 0x400 + hexValue a' b' c' d' % 0x400)))

/-- The characters of a string, up to and past the quote that closes it. -/
inductive Chars : Bytes → Bytes → Bytes → Prop
  | close (rest : Bytes) : Chars (34 :: rest) [] rest
  | plain {c : UInt8} {s out rest : Bytes} (h32 : 32 ≤ c) (h34 : c ≠ 34) (h92 : c ≠ 92) (hs : Chars s out rest) :
    Chars (c :: s) (c :: out) rest
  | escape {e c : UInt8} {s out rest : Bytes} (he : unescapeChar e = some c) (hs : Chars s out rest) :
    Chars (92 :: e :: s) (c :: out) rest
  | unicode {u w s out rest : Bytes} (hu : Unicode u w) (hs : Chars s out rest) : Chars (92 :: (u ++ s)) (w ++ out) rest

mutual

inductive Value : Bytes → Json → Bytes → Prop
  | litNull (rest : Bytes) : Value (110 :: 117 :: 108 :: 108 :: rest) .null rest
  | litTrue (rest : Bytes) : Value (116 :: 114 :: 117 :: 101 :: rest) (.bool true) rest
  | litFalse (rest : Bytes) : Value (102 :: 97 :: 108 :: 115 :: 101 :: rest) (.bool false) rest
  | number {c : UInt8} {s : Bytes} (hc : c = 45 ∨ isDigit c = true)
    (hs : JsonGrammar.Number ((c :: s).takeWhile isNumberChar) []) :
    Value (c :: s) (.number ((c :: s).takeWhile isNumberChar)) ((c :: s).dropWhile isNumberChar)
  | string {s out rest : Bytes} (hs : Chars s out rest) : Value (34 :: s) (.string out) rest
  | array_nil {s rest : Bytes} (hs : blanks s = 93 :: rest) : Value (91 :: s) (.array []) rest
  | array {s rest : Bytes} {vs : List Json} (hs : Elements (blanks s) vs rest) : Value (91 :: s) (.array vs) rest
  | object_nil {s rest : Bytes} (hs : blanks s = 125 :: rest) : Value (123 :: s) (.object []) rest
  | object {s rest : Bytes} {ms : List (Bytes × Json)} (hs : Members (blanks s) ms rest) :
    Value (123 :: s) (.object ms) rest

/-- The elements of an array, up to and past its bracket. -/
inductive Elements : Bytes → List Json → Bytes → Prop
  | last {s s₁ rest : Bytes} {v : Json} (hs : Value s v s₁) (hs₁ : blanks s₁ = 93 :: rest) : Elements s [v] rest
  | more {s s₁ s₂ rest : Bytes} {v : Json} {vs : List Json} (hs : Value s v s₁) (hs₁ : blanks s₁ = 44 :: s₂)
    (hs₂ : Elements (blanks s₂) vs rest) : Elements s (v :: vs) rest

/-- The members of an object, up to and past its brace. -/
inductive Members : Bytes → List (Bytes × Json) → Bytes → Prop
  | last {s s₁ s₂ s₃ rest key : Bytes} {v : Json} (hs : Chars s key s₁) (hs₁ : blanks s₁ = 58 :: s₂)
    (hs₂ : Value (blanks s₂) v s₃) (hs₃ : blanks s₃ = 125 :: rest) : Members (34 :: s) [(key, v)] rest
  | more {s s₁ s₂ s₃ s₄ rest key : Bytes} {v : Json} {ms : List (Bytes × Json)} (hs : Chars s key s₁)
    (hs₁ : blanks s₁ = 58 :: s₂) (hs₂ : Value (blanks s₂) v s₃) (hs₃ : blanks s₃ = 44 :: s₄)
    (hs₄ : Members (blanks s₄) ms rest) : Members (34 :: s) ((key, v) :: ms) rest

end

/-- The text is the value, with nothing but white space around it. -/
def Means (text : Bytes) (v : Json) : Prop := ∃ rest, Value (blanks text) v rest ∧ blanks rest = []

/-! ### Characters -/

section Chars

variable {c : UInt8} {s t u w out rest tail : Bytes}

lemma Unicode.head (h : Unicode u w) : ∃ u', u = 117 :: u' := by
  cases h with
  | single => exact ⟨_, rfl⟩
  | pair => exact ⟨_, rfl⟩

lemma quote_ne_of_hex (h : isHexDigit c = true) : 34 ≠ c := by
  rintro rfl
  exact absurd h (by decide)

lemma quote_ne_of_isHex {a b c d : UInt8} (h : IsHex a b c d) : 34 ≠ a ∧ 34 ≠ b ∧ 34 ≠ c ∧ 34 ≠ d :=
  ⟨quote_ne_of_hex h.1, quote_ne_of_hex h.2.1, quote_ne_of_hex h.2.2.1, quote_ne_of_hex h.2.2.2⟩

lemma Unicode.quote_notMem (h : Unicode u w) : 34 ∉ u := by
  cases h with
  | single h => simpa using quote_ne_of_isHex h
  | pair h h' =>
    have hfirst := quote_ne_of_isHex h
    have hsecond := quote_ne_of_isHex h'
    simp [hfirst, hsecond]

lemma length_encodeUtf8_le (n : ℕ) : (encodeUtf8 n).length ≤ 4 := by
  unfold encodeUtf8
  split_ifs <;> simp

lemma Unicode.length_le (h : Unicode u w) : w.length ≤ 4 ∧ 5 ≤ u.length := by
  cases h with
  | single => exact ⟨length_encodeUtf8_le _, by simp⟩
  | pair => exact ⟨length_encodeUtf8_le _, by simp⟩

lemma Unicode.unique {u' w' s' : Bytes} (h : Unicode u w) (h' : Unicode u' w') (heq : u ++ s = u' ++ s') :
    u = u' ∧ w = w' ∧ s = s' := by
  cases h with
  | single h hplane =>
    cases h' with
    | single h' hplane' => simp_all
    | pair h' h'' hhigh hlow =>
      simp only [List.cons_append, List.nil_append, List.cons.injEq] at heq
      obtain ⟨-, rfl, rfl, rfl, rfl, -⟩ := heq
      omega
  | pair h h₂ hhigh hlow =>
    cases h' with
    | single h' hplane' =>
      simp only [List.cons_append, List.nil_append, List.cons.injEq] at heq
      obtain ⟨-, rfl, rfl, rfl, rfl, -⟩ := heq
      omega
    | pair h' h'' hhigh' hlow' => simp_all

/-- Quotes and backslashes are escaped as themselves. -/
lemma eq_of_unescapeChar {e : UInt8} (h : unescapeChar e = some c) (hc : c = 34 ∨ c = 92) : e = c := by
  unfold unescapeChar at h
  split_ifs at h
  all_goals
    obtain rfl := Option.some.inj h
    first
    | rfl
    | exact absurd hc (by decide)

/-- What a string can begin with. -/
lemma Chars.cons_inv (h : Chars (c :: s) out rest) :
    (c = 34 ∧ out = [] ∧ rest = s) ∨
      (32 ≤ c ∧ c ≠ 34 ∧ c ≠ 92 ∧ ∃ out', out = c :: out' ∧ Chars s out' rest) ∨
      (c = 92 ∧ ∃ e d s' out', s = e :: s' ∧ unescapeChar e = some d ∧ out = d :: out' ∧ Chars s' out' rest) ∨
      c = 92 ∧ ∃ u w s' out', s = u ++ s' ∧ Unicode u w ∧ out = w ++ out' ∧ Chars s' out' rest := by
  cases h with
  | close => exact .inl ⟨rfl, rfl, rfl⟩
  | plain h32 h34 h92 hs => exact .inr (.inl ⟨h32, h34, h92, _, rfl, hs⟩)
  | escape he hs => exact .inr (.inr (.inl ⟨rfl, _, _, _, _, rfl, he, rfl, hs⟩))
  | unicode hu hs => exact .inr (.inr (.inr ⟨rfl, _, _, _, _, rfl, hu, rfl, hs⟩))

lemma Chars.ne_nil (h : Chars s out rest) : s ≠ [] := by
  cases h <;> exact List.cons_ne_nil _ _

lemma Chars.unique {out' rest' : Bytes} (h : Chars s out rest) (h' : Chars s out' rest') :
    out = out' ∧ rest = rest' := by
  induction h generalizing out' rest' with
  | close rest =>
    rcases h'.cons_inv with ⟨-, rfl, rfl⟩ | ⟨-, h34, -⟩ | ⟨h34, -⟩ | ⟨h34, -⟩
    · exact ⟨rfl, rfl⟩
    · exact absurd rfl h34
    · exact absurd h34 (by decide)
    · exact absurd h34 (by decide)
  | plain h32 h34 h92 hs ih =>
    rcases h'.cons_inv with ⟨h34', -⟩ | ⟨-, -, -, out', rfl, hs'⟩ | ⟨h92', -⟩ | ⟨h92', -⟩
    · exact absurd h34' h34
    · obtain ⟨rfl, rfl⟩ := ih hs'
      exact ⟨rfl, rfl⟩
    · exact absurd h92' h92
    · exact absurd h92' h92
  | @escape e c s out rest he hs ih =>
    rcases h'.cons_inv with ⟨h34, -⟩ | ⟨-, -, h92, -⟩ | ⟨-, e', d, s', out', heq, he', rfl, hs'⟩ |
      ⟨-, u, w, s', out', heq, hu, -⟩
    · exact absurd h34 (by decide)
    · exact absurd rfl h92
    · obtain ⟨rfl, rfl⟩ := List.cons.inj heq
      obtain ⟨rfl, rfl⟩ := ih hs'
      exact ⟨by rw [Option.some.inj (he.symm.trans he')], rfl⟩
    · obtain ⟨u', rfl⟩ := hu.head
      obtain ⟨rfl, -⟩ := List.cons.inj heq
      exact absurd he (by simp [unescapeChar])
  | @unicode u w s out rest hu hs ih =>
    rcases h'.cons_inv with ⟨h34, -⟩ | ⟨-, -, h92, -⟩ | ⟨-, e', d, s', out', heq, he', -⟩ |
      ⟨-, u', w', s', out', heq, hu', rfl, hs'⟩
    · exact absurd h34 (by decide)
    · exact absurd rfl h92
    · obtain ⟨u', rfl⟩ := hu.head
      obtain ⟨rfl, -⟩ := List.cons.inj heq
      exact absurd he' (by simp [unescapeChar])
    · obtain ⟨rfl, rfl, rfl⟩ := hu.unique hu' heq
      obtain ⟨rfl, rfl⟩ := ih hs'
      exact ⟨rfl, rfl⟩

lemma chars_plain_iff (h34 : c ≠ 34) (h92 : c ≠ 92) : Chars (c :: s) (c :: out) rest ↔ 32 ≤ c ∧ Chars s out rest := by
  constructor
  · intro h
    rcases h.cons_inv with ⟨h34', -⟩ | ⟨h32, -, -, out', hout, hs⟩ | ⟨h92', -⟩ | ⟨h92', -⟩
    · exact absurd h34' h34
    · obtain ⟨-, rfl⟩ := List.cons.inj hout
      exact ⟨h32, hs⟩
    · exact absurd h92' h92
    · exact absurd h92' h92
  · exact fun ⟨h32, hs⟩ => .plain h32 h34 h92 hs

lemma chars_escape_iff {e : UInt8} (he : unescapeChar e = some c) :
    Chars (92 :: e :: s) (c :: out) rest ↔ Chars s out rest := by
  constructor
  · intro h
    rcases h.cons_inv with ⟨h34, -⟩ | ⟨-, -, h92, -⟩ | ⟨-, e', d, s', out', heq, -, hout, hs⟩ |
      ⟨-, u, w, s', out', heq, hu, -⟩
    · exact absurd h34 (by decide)
    · exact absurd rfl h92
    · obtain ⟨-, rfl⟩ := List.cons.inj heq
      obtain ⟨-, rfl⟩ := List.cons.inj hout
      exact hs
    · obtain ⟨u', rfl⟩ := hu.head
      obtain ⟨rfl, -⟩ := List.cons.inj heq
      exact absurd he (by simp [unescapeChar])
  · exact .escape he

/-- Bytes that a string can hold as they are. -/
def Clean (s : Bytes) : Prop := ∀ c ∈ s, 32 ≤ c ∧ c ≠ 34 ∧ c ≠ 92

instance (s : Bytes) : Decidable (Clean s) := inferInstanceAs (Decidable (∀ c ∈ s, _))

lemma Clean.chars (h : Clean s) : Chars (s ++ 34 :: tail) s tail := by
  induction s with
  | nil => exact .close tail
  | cons c s ih =>
    obtain ⟨⟨h32, h34, h92⟩, hs⟩ := List.forall_mem_cons.1 h
    exact .plain h32 h34 h92 (ih hs)

/-- Where a string reads as it is written, but for what `t` is ahead, nothing in it is escaped: an escape would only
get it further behind, and what is behind cannot close it. -/
lemma chars_behind (n : ℕ) {m : Bytes} (hn : m.length ≤ n) (ht : 34 ∉ t) (h : Chars (m ++ 34 :: tail) (t ++ m) rest) :
    t = [] ∧ Clean m ∧ rest = tail := by
  induction n generalizing m t with
  | zero =>
    obtain rfl := List.length_eq_zero_iff.1 (Nat.le_zero.1 hn)
    rcases h.cons_inv with ⟨-, hout, rfl⟩ | ⟨-, h34, -⟩ | ⟨h34, -⟩ | ⟨h34, -⟩
    · exact ⟨by simpa using hout, List.forall_mem_nil _, rfl⟩
    · exact absurd rfl h34
    · exact absurd h34 (by decide)
    · exact absurd h34 (by decide)
  | succ n ih =>
    cases m with
    | nil => exact ih (Nat.zero_le n) ht h
    | cons c m =>
      rw [List.length_cons] at hn
      rcases h.cons_inv with ⟨-, hout, -⟩ | ⟨h32, h34, h92, out, hout, hs⟩ | ⟨rfl, e, d, s, out, hs, he, hout, hout'⟩ |
        ⟨rfl, u, w, s, out, hs, hu, hout, hout'⟩
      · simp at hout
      · cases t with
        | nil =>
          obtain ⟨-, rfl⟩ := List.cons.inj hout
          obtain ⟨-, hclean, rfl⟩ := ih (by omega) ht hs
          exact ⟨rfl, List.forall_mem_cons.2 ⟨⟨h32, h34, h92⟩, hclean⟩, rfl⟩
        | cons x t =>
          obtain ⟨rfl, rfl⟩ := List.cons.inj hout
          have hmore : 34 ∉ t ++ [x] := by
            simp only [List.mem_cons, not_or] at ht
            simp [ht.1, ht.2]
          have hlag := (ih (m := m) (t := t ++ [x]) (by omega) hmore (by simpa using hs)).1
          simp at hlag
      · cases m with
        | nil =>
          -- the backslash takes the quote that is to close the string
          obtain ⟨rfl, rfl⟩ := List.cons.inj hs
          obtain rfl : 34 = d := by simpa [unescapeChar] using he
          cases t with
          | nil => exact absurd (List.cons.inj hout).1 (by decide)
          | cons x t =>
            obtain ⟨rfl, -⟩ := List.cons.inj hout
            exact absurd (List.mem_cons_self ..) ht
        | cons e' m =>
          obtain ⟨rfl, rfl⟩ := List.cons.inj hs
          rw [List.length_cons] at hn
          cases t with
          | nil =>
            obtain ⟨rfl, rfl⟩ := List.cons.inj hout
            obtain rfl := eq_of_unescapeChar he (by decide)
            exact absurd (ih (t := [92]) (by omega) (by decide) hout').1 (List.cons_ne_nil _ _)
          | cons x t =>
            obtain ⟨rfl, rfl⟩ := List.cons.inj hout
            simp only [List.mem_cons, not_or] at ht
            have he' : 34 ≠ e' := by
              rintro rfl
              exact ht.1 (Option.some.inj he)
            have hmore : 34 ∉ t ++ [92, e'] := by simp [ht.2, he']
            have hlag := (ih (m := m) (t := t ++ [92, e']) (by omega) hmore (by simpa using hout')).1
            simp at hlag
      · -- what the number of a character is written with is longer than the character
        obtain ⟨m', rfl, rfl⟩ : ∃ m', m = u ++ m' ∧ s = m' ++ 34 :: tail := by
          rcases List.append_eq_append_iff.1 hs with ⟨m', rfl, hm'⟩ | ⟨m', rfl, rfl⟩
          · cases m' with
            | nil => exact ⟨[], by simp, by simpa using hm'.symm⟩
            | cons x m' =>
              obtain ⟨rfl, -⟩ := List.cons.inj hm'
              exact absurd (by simp) hu.quote_notMem
          · exact ⟨m', rfl, rfl⟩
        obtain ⟨hw, hlen⟩ := hu.length_le
        rw [List.length_append] at hn
        obtain ⟨t', ht', rfl⟩ : ∃ t', t ++ 92 :: u = w ++ t' ∧ out = t' ++ m' := by
          have hassoc : (t ++ 92 :: u) ++ m' = w ++ out := by simpa using hout
          rcases List.append_eq_append_iff.1 hassoc with ⟨x, hx, rfl⟩ | ⟨x, hx, hx'⟩
          · have hlength := congrArg List.length hx
            simp only [List.length_append, List.length_cons] at hlength
            omega
          · exact ⟨x, hx, hx'⟩
        have hmore : 34 ∉ t' := by
          have hall : 34 ∉ t ++ 92 :: u := by simp [ht, hu.quote_notMem]
          rw [ht'] at hall
          exact fun hmem => hall (List.mem_append_right _ hmem)
        obtain ⟨rfl, -⟩ := ih (m := m') (by omega) hmore hout'
        have hlength := congrArg List.length ht'
        simp only [List.length_append, List.length_cons, List.append_nil] at hlength
        omega

/-- **A string that reads as it is written** has nothing in it that is to be escaped. -/
theorem chars_raw_iff : Chars (s ++ 34 :: tail) s rest ↔ Clean s ∧ rest = tail := by
  constructor
  · exact fun h => (chars_behind s.length (t := []) le_rfl (List.not_mem_nil) h).2
  · rintro ⟨hclean, rfl⟩
    exact hclean.chars

end Chars

/-! ### Values -/

section Values

variable {c : UInt8} {s rest : Bytes} {v : Json} {vs : List Json} {ms : List (Bytes × Json)}

lemma Value.word_inv (h : Value (c :: s) v rest) (hc : c = 110 ∨ c = 116 ∨ c = 102) :
    (c = 110 ∧ s = 117 :: 108 :: 108 :: rest ∧ v = .null) ∨
      (c = 116 ∧ s = 114 :: 117 :: 101 :: rest ∧ v = .bool true) ∨
      c = 102 ∧ s = 97 :: 108 :: 115 :: 101 :: rest ∧ v = .bool false := by
  cases h with
  | litNull => exact .inl ⟨rfl, rfl, rfl⟩
  | litTrue => exact .inr (.inl ⟨rfl, rfl, rfl⟩)
  | litFalse => exact .inr (.inr ⟨rfl, rfl, rfl⟩)
  | number hc' =>
    rcases hc with rfl | rfl | rfl <;> exact absurd hc' (by decide)
  | _ => exact absurd hc (by decide)

lemma Value.string_inv (h : Value (34 :: s) v rest) : ∃ out, v = .string out ∧ Chars s out rest := by
  obtain ⟨c, hc⟩ : ∃ c : UInt8, c = 34 := ⟨_, rfl⟩
  rw [← hc] at h
  cases h with
  | string hs => exact ⟨_, rfl, hs⟩
  | number hc' =>
    rw [hc] at hc'
    exact absurd hc' (by decide)
  | _ => exact absurd hc (by decide)

lemma Value.array_inv (h : Value (91 :: s) v rest) :
    (v = .array [] ∧ blanks s = 93 :: rest) ∨ ∃ vs, v = .array vs ∧ Elements (blanks s) vs rest := by
  obtain ⟨c, hc⟩ : ∃ c : UInt8, c = 91 := ⟨_, rfl⟩
  rw [← hc] at h
  cases h with
  | array_nil hs => exact .inl ⟨rfl, hs⟩
  | array hs => exact .inr ⟨_, rfl, hs⟩
  | number hc' =>
    rw [hc] at hc'
    exact absurd hc' (by decide)
  | _ => exact absurd hc (by decide)

lemma Value.object_inv (h : Value (123 :: s) v rest) :
    (v = .object [] ∧ blanks s = 125 :: rest) ∨ ∃ ms, v = .object ms ∧ Members (blanks s) ms rest := by
  obtain ⟨c, hc⟩ : ∃ c : UInt8, c = 123 := ⟨_, rfl⟩
  rw [← hc] at h
  cases h with
  | object_nil hs => exact .inl ⟨rfl, hs⟩
  | object hs => exact .inr ⟨_, rfl, hs⟩
  | number hc' =>
    rw [hc] at hc'
    exact absurd hc' (by decide)
  | _ => exact absurd hc (by decide)

lemma Value.number_inv (h : Value (c :: s) v rest) (hc : c = 45 ∨ isDigit c = true) :
    v = .number ((c :: s).takeWhile isNumberChar) ∧ rest = (c :: s).dropWhile isNumberChar ∧
      JsonGrammar.Number ((c :: s).takeWhile isNumberChar) [] := by
  cases h with
  | number hc' hs => exact ⟨rfl, rfl, hs⟩
  | _ => exact absurd hc (by decide)

/-- What a value begins with: nothing that closes a bracket or a brace. -/
lemma Value.head (h : Value s v rest) : ∃ c t, s = c :: t ∧ c ≠ 93 ∧ c ≠ 125 := by
  cases h with
  | number hc =>
    refine ⟨_, _, rfl, ?_, ?_⟩
    all_goals
      rintro rfl
      exact absurd hc (by decide)
  | _ => exact ⟨_, _, rfl, by decide, by decide⟩

lemma Elements.head (h : Elements s vs rest) : ∃ c t, s = c :: t ∧ c ≠ 93 ∧ c ≠ 125 := by
  cases h with
  | last hs => exact hs.head
  | more hs => exact hs.head

lemma Members.head (h : Members s ms rest) : ∃ t, s = 34 :: t := by
  cases h with
  | last => exact ⟨_, rfl⟩
  | more => exact ⟨_, rfl⟩

/-- The first element, if it can be read one way only, and what comes behind it. -/
lemma Elements.front_inv {s₁ : Bytes} (h : Elements s vs rest) (hv : ∀ v' s', Value s v' s' → v = v' ∧ s₁ = s') :
    (vs = [v] ∧ blanks s₁ = 93 :: rest) ∨
      ∃ vs' s₂, vs = v :: vs' ∧ blanks s₁ = 44 :: s₂ ∧ Elements (blanks s₂) vs' rest := by
  cases h with
  | last hs hs₁ =>
    obtain ⟨rfl, rfl⟩ := hv _ _ hs
    exact .inl ⟨rfl, hs₁⟩
  | more hs hs₁ hs₂ =>
    obtain ⟨rfl, rfl⟩ := hv _ _ hs
    exact .inr ⟨_, _, rfl, hs₁, hs₂⟩

lemma Members.front_inv {s₁ s₂ s₃ key : Bytes} (h : Members (34 :: s) ms rest) (hs : Chars s key s₁)
    (hs₁ : blanks s₁ = 58 :: s₂) (hv : ∀ v' s', Value (blanks s₂) v' s' → v = v' ∧ s₃ = s') :
    (ms = [(key, v)] ∧ blanks s₃ = 125 :: rest) ∨
      ∃ ms' s₄, ms = (key, v) :: ms' ∧ blanks s₃ = 44 :: s₄ ∧ Members (blanks s₄) ms' rest := by
  cases h with
  | last hs' hs₁' hs₂' hs₃' =>
    obtain ⟨rfl, rfl⟩ := hs.unique hs'
    obtain ⟨-, rfl⟩ := List.cons.inj (hs₁.symm.trans hs₁')
    obtain ⟨rfl, rfl⟩ := hv _ _ hs₂'
    exact .inl ⟨rfl, hs₃'⟩
  | more hs' hs₁' hs₂' hs₃' hs₄' =>
    obtain ⟨rfl, rfl⟩ := hs.unique hs'
    obtain ⟨-, rfl⟩ := List.cons.inj (hs₁.symm.trans hs₁')
    obtain ⟨rfl, rfl⟩ := hv _ _ hs₂'
    exact .inr ⟨_, _, rfl, hs₃', hs₄'⟩

/-- **A value is read one way only.** -/
theorem Value.unique {v' : Json} {rest' : Bytes} (h : Value s v rest) (h' : Value s v' rest') :
    v = v' ∧ rest = rest' := by
  refine @Value.rec (fun s v rest _ => ∀ v' rest', Value s v' rest' → v = v' ∧ rest = rest')
    (fun s vs rest _ => ∀ vs' rest', Elements s vs' rest' → vs = vs' ∧ rest = rest')
    (fun s ms rest _ => ∀ ms' rest', Members s ms' rest' → ms = ms' ∧ rest = rest')
    ?_ ?_ ?_ ?_ ?_ ?_ ?_ ?_ ?_ ?_ ?_ ?_ ?_ s v rest h v' rest' h'
  · intro rest v' rest' h'
    rcases h'.word_inv (.inl rfl) with ⟨-, heq, rfl⟩ | ⟨heq, -⟩ | ⟨heq, -⟩
    · exact ⟨rfl, by simpa using heq⟩
    all_goals exact absurd heq (by decide)
  · intro rest v' rest' h'
    rcases h'.word_inv (.inr (.inl rfl)) with ⟨heq, -⟩ | ⟨-, heq, rfl⟩ | ⟨heq, -⟩
    · exact absurd heq (by decide)
    · exact ⟨rfl, by simpa using heq⟩
    · exact absurd heq (by decide)
  · intro rest v' rest' h'
    rcases h'.word_inv (.inr (.inr rfl)) with ⟨heq, -⟩ | ⟨heq, -⟩ | ⟨-, heq, rfl⟩
    · exact absurd heq (by decide)
    · exact absurd heq (by decide)
    · exact ⟨rfl, by simpa using heq⟩
  · intro c s hc hs v' rest' h'
    obtain ⟨rfl, rfl, -⟩ := h'.number_inv hc
    exact ⟨rfl, rfl⟩
  · intro s out rest hs v' rest' h'
    obtain ⟨out', rfl, hs'⟩ := h'.string_inv
    obtain ⟨rfl, rfl⟩ := hs.unique hs'
    exact ⟨rfl, rfl⟩
  · intro s rest hs v' rest' h'
    rcases h'.array_inv with ⟨rfl, hs'⟩ | ⟨vs, rfl, hs'⟩
    · exact ⟨rfl, (List.cons.inj (hs.symm.trans hs')).2⟩
    · obtain ⟨c, t, heq, hc, -⟩ := hs'.head
      exact absurd (List.cons.inj (hs.symm.trans heq)).1.symm hc
  · intro s rest vs hs ih v' rest' h'
    rcases h'.array_inv with ⟨rfl, hs'⟩ | ⟨vs', rfl, hs'⟩
    · obtain ⟨c, t, heq, hc, -⟩ := hs.head
      exact absurd (List.cons.inj (hs'.symm.trans heq)).1.symm hc
    · obtain ⟨rfl, rfl⟩ := ih _ _ hs'
      exact ⟨rfl, rfl⟩
  · intro s rest hs v' rest' h'
    rcases h'.object_inv with ⟨rfl, hs'⟩ | ⟨ms, rfl, hs'⟩
    · exact ⟨rfl, (List.cons.inj (hs.symm.trans hs')).2⟩
    · obtain ⟨t, heq⟩ := hs'.head
      exact absurd (List.cons.inj (hs.symm.trans heq)).1 (by decide)
  · intro s rest ms hs ih v' rest' h'
    rcases h'.object_inv with ⟨rfl, hs'⟩ | ⟨ms', rfl, hs'⟩
    · obtain ⟨t, heq⟩ := hs.head
      exact absurd (List.cons.inj (hs'.symm.trans heq)).1 (by decide)
    · obtain ⟨rfl, rfl⟩ := ih _ _ hs'
      exact ⟨rfl, rfl⟩
  · intro s s₁ rest v hs hs₁ ih vs' rest' h'
    rcases h'.front_inv ih with ⟨rfl, hs₁'⟩ | ⟨vs'', s₂, -, hs₁', -⟩
    · exact ⟨rfl, (List.cons.inj (hs₁.symm.trans hs₁')).2⟩
    · exact absurd (List.cons.inj (hs₁.symm.trans hs₁')).1 (by decide)
  · intro s s₁ s₂ rest v vs hs hs₁ hs₂ ih ih₂ vs' rest' h'
    rcases h'.front_inv ih with ⟨rfl, hs₁'⟩ | ⟨vs'', s₂', rfl, hs₁', hs₂'⟩
    · exact absurd (List.cons.inj (hs₁.symm.trans hs₁')).1 (by decide)
    · obtain ⟨-, rfl⟩ := List.cons.inj (hs₁.symm.trans hs₁')
      obtain ⟨rfl, rfl⟩ := ih₂ _ _ hs₂'
      exact ⟨rfl, rfl⟩
  · intro s s₁ s₂ s₃ rest key v hs hs₁ hs₂ hs₃ ih ms' rest' h'
    rcases h'.front_inv hs hs₁ ih with ⟨rfl, hs₃'⟩ | ⟨ms'', s₄, -, hs₃', -⟩
    · exact ⟨rfl, (List.cons.inj (hs₃.symm.trans hs₃')).2⟩
    · exact absurd (List.cons.inj (hs₃.symm.trans hs₃')).1 (by decide)
  · intro s s₁ s₂ s₃ s₄ rest key v ms hs hs₁ hs₂ hs₃ hs₄ ih ih₄ ms' rest' h'
    rcases h'.front_inv hs hs₁ ih with ⟨rfl, hs₃'⟩ | ⟨ms'', s₄', rfl, hs₃', hs₄'⟩
    · exact absurd (List.cons.inj (hs₃.symm.trans hs₃')).1 (by decide)
    · obtain ⟨-, rfl⟩ := List.cons.inj (hs₃.symm.trans hs₃')
      obtain ⟨rfl, rfl⟩ := ih₄ _ _ hs₄'
      exact ⟨rfl, rfl⟩

/-- **A document is one value at most.** -/
theorem Means.unique {text : Bytes} {v' : Json} (h : Means text v) (h' : Means text v') : v = v' := by
  obtain ⟨rest, h, -⟩ := h
  obtain ⟨rest', h', -⟩ := h'
  exact (h.unique h').1

end Values

/-! ### Parts of a document -/

/-- A part of a document: its text, the value it is to be read as, and when it is. -/
structure Part where
  text : Bytes
  value : Json
  ok : Prop

namespace Part

/-- The part is read as the value just when it is all right, and up to its end. -/
structure Reads (p : Part) : Prop where
  front : ∀ tail, blanks (p.text ++ tail) = p.text ++ tail
  iff : ∀ tail rest : Bytes, Stops tail → (Value (p.text ++ tail) p.value rest ↔ p.ok ∧ rest = tail)

/-- A string, as it is. -/
def string (s : Bytes) : Part := ⟨34 :: (s ++ [34]), .string s, Clean s⟩

def number (n : ℤ) : Part := ⟨signedDecimal n, .number (signedDecimal n), True⟩

/-- The texts with commas between them. -/
def separated : List Bytes → Bytes
  | [] => []
  | [b] => b
  | b :: bs => b ++ 44 :: 32 :: separated bs

def array (ps : List Part) : Part :=
  ⟨91 :: (separated (ps.map text) ++ [93]), .array (ps.map value), ∀ p ∈ ps, p.ok⟩

/-- The members with white space in front of each and in front of the brace that closes the object. -/
def members (before close : Bytes) : List (Bytes × Part) → Bytes
  | [] => close ++ [125]
  | [m] => before ++ (34 :: (m.1 ++ 34 :: 58 :: 32 :: (m.2.text ++ (close ++ [125]))))
  | m :: ms => before ++ (34 :: (m.1 ++ 34 :: 58 :: 32 :: (m.2.text ++ 44 :: members before close ms)))

def object (before close : Bytes) (ms : List (Bytes × Part)) : Part :=
  ⟨123 :: members before close ms, .object (ms.map fun m => (m.1, m.2.value)), ∀ m ∈ ms, m.2.ok⟩

lemma reads_string (s : Bytes) : (string s).Reads where
  front tail := JsonGrammar.blanks_of_not (by decide) _
  iff tail rest _ := by
    have htext : (string s).text ++ tail = 34 :: (s ++ 34 :: tail) := by simp [string]
    rw [htext]
    constructor
    · intro h
      obtain ⟨out, hout, hs⟩ := h.string_inv
      obtain rfl := Json.string.inj hout
      exact chars_raw_iff.1 hs
    · exact fun h => .string (chars_raw_iff.2 h)

lemma separated_cons (b : Bytes) (bs : List Bytes) : ∃ t, separated (b :: bs) = b ++ t := by
  cases bs with
  | nil => exact ⟨[], (List.append_nil b).symm⟩
  | cons b' bs => exact ⟨_, rfl⟩

lemma elements_iff {ps : List Part} (h : ∀ p ∈ ps, p.Reads) (hne : ps ≠ []) (tail rest : Bytes) :
    Elements (separated (ps.map text) ++ 93 :: tail) (ps.map value) rest ↔ (∀ p ∈ ps, p.ok) ∧ rest = tail := by
  have hclose : blanks (93 :: tail) = 93 :: tail := JsonGrammar.blanks_of_not (by decide) _
  induction ps with
  | nil => exact absurd rfl hne
  | cons p ps ih =>
    obtain ⟨hp, hps⟩ := List.forall_mem_cons.1 h
    cases ps with
    | nil =>
      have hvalue := fun s => hp.iff (93 :: tail) s (Json.stops_cons (by decide))
      simp only [List.map_cons, List.map_nil, separated, List.forall_mem_singleton]
      constructor
      · intro h
        cases h with
        | last hs hs₁ =>
          obtain ⟨hok, rfl⟩ := (hvalue _).1 hs
          exact ⟨hok, (List.cons.inj (hclose.symm.trans hs₁)).2.symm⟩
        | more hs hs₁ hs₂ => cases hs₂
      · rintro ⟨hok, rfl⟩
        exact .last ((hvalue _).2 ⟨hok, rfl⟩) hclose
    | cons q ps =>
      have htext : separated ((p :: q :: ps).map text) ++ 93 :: tail =
          p.text ++ 44 :: 32 :: (separated ((q :: ps).map text) ++ 93 :: tail) := by simp [separated]
      have hvalue := fun s => hp.iff (44 :: 32 :: (separated ((q :: ps).map text) ++ 93 :: tail)) s
        (Json.stops_cons (by decide))
      have hcomma : blanks (44 :: 32 :: (separated ((q :: ps).map text) ++ 93 :: tail)) =
          44 :: 32 :: (separated ((q :: ps).map text) ++ 93 :: tail) := JsonGrammar.blanks_of_not (by decide) _
      have hnext : blanks (32 :: (separated ((q :: ps).map text) ++ 93 :: tail)) =
          separated ((q :: ps).map text) ++ 93 :: tail := by
        obtain ⟨t, ht⟩ := separated_cons q.text (ps.map text)
        rw [JsonGrammar.blanks_cons (by decide), List.map_cons, ht, List.append_assoc]
        exact (hps q (List.mem_cons_self ..)).front _
      have hrest : Elements (separated ((q :: ps).map text) ++ 93 :: tail) ((q :: ps).map value) rest ↔
          (∀ p ∈ q :: ps, p.ok) ∧ rest = tail := ih hps (List.cons_ne_nil q ps)
      rw [htext, List.map_cons, List.forall_mem_cons, and_assoc, ← hrest]
      constructor
      · intro h
        cases h with
        | more hs hs₁ hs₂ =>
          obtain ⟨hok, rfl⟩ := (hvalue _).1 hs
          obtain ⟨-, rfl⟩ := List.cons.inj (hcomma.symm.trans hs₁)
          rw [hnext] at hs₂
          exact ⟨hok, hs₂⟩
      · rintro ⟨hok, hs₂⟩
        rw [← hnext] at hs₂
        exact .more ((hvalue _).2 ⟨hok, rfl⟩) hcomma hs₂

lemma reads_array {ps : List Part} (h : ∀ p ∈ ps, p.Reads) : (array ps).Reads where
  front tail := JsonGrammar.blanks_of_not (by decide) _
  iff tail rest _ := by
    have htext : (array ps).text ++ tail = 91 :: (separated (ps.map text) ++ 93 :: tail) := by simp [array]
    rw [htext]
    cases ps with
    | nil =>
      have hclose : blanks (93 :: tail) = 93 :: tail := JsonGrammar.blanks_of_not (by decide) _
      constructor
      · intro h
        rcases h.array_inv with ⟨-, hs⟩ | ⟨vs, hvs, hs⟩
        · exact ⟨List.forall_mem_nil _, (List.cons.inj (hclose.symm.trans hs)).2.symm⟩
        · obtain rfl := Json.array.inj hvs
          cases hs
      · rintro ⟨-, rfl⟩
        exact .array_nil hclose
    | cons p ps =>
      have hfront : blanks (separated ((p :: ps).map text) ++ 93 :: tail) =
          separated ((p :: ps).map text) ++ 93 :: tail := by
        obtain ⟨t, ht⟩ := separated_cons p.text (ps.map text)
        rw [List.map_cons, ht, List.append_assoc]
        exact (h p (List.mem_cons_self ..)).front _
      have helements := elements_iff h (List.cons_ne_nil p ps) tail rest
      constructor
      · intro hvalue
        rcases hvalue.array_inv with ⟨hvs, -⟩ | ⟨vs, hvs, hs⟩
        · cases hvs
        · obtain rfl := Json.array.inj hvs
          rw [hfront] at hs
          exact helements.1 hs
      · intro hok
        refine .array ?_
        rw [hfront]
        exact helements.2 hok

/-! ### Objects -/

/-- White space. -/
def Blank (ws : Bytes) : Prop := ∀ c ∈ ws, isBlank c = true

instance (ws : Bytes) : Decidable (Blank ws) := inferInstanceAs (Decidable (∀ c ∈ ws, _))

lemma not_numberChar_of_blank {c : UInt8} (h : isBlank c = true) : isNumberChar c = false := by
  have hc : c = 32 ∨ c = 9 ∨ c = 10 ∨ c = 13 := of_decide_eq_true h
  rcases hc with rfl | rfl | rfl | rfl <;> decide

lemma stops_append {ws : Bytes} (h : Blank ws) {c : UInt8} (hc : isNumberChar c = false) (s : Bytes) :
    Stops (ws ++ c :: s) := by
  cases ws with
  | nil => exact Json.stops_cons hc
  | cons d ws => exact Json.stops_cons (not_numberChar_of_blank (h d (List.mem_cons_self ..)))

/-- One member, in front of what `after` goes on with. -/
lemma members_cons_iff {key after rest : Bytes} {p : Part} {ms : List (Bytes × Json)} (hkey : Clean key) (hp : p.Reads)
    (hafter : Stops after) : Members (34 :: (key ++ 34 :: 58 :: 32 :: (p.text ++ after))) ((key, p.value) :: ms) rest ↔
      p.ok ∧ ((ms = [] ∧ blanks after = 125 :: rest) ∨
        ∃ s, blanks after = 44 :: s ∧ Members (blanks s) ms rest) := by
  have hname : Chars (key ++ 34 :: 58 :: 32 :: (p.text ++ after)) key (58 :: 32 :: (p.text ++ after)) := hkey.chars
  have hcolon : blanks (58 :: 32 :: (p.text ++ after)) = 58 :: 32 :: (p.text ++ after) :=
    JsonGrammar.blanks_of_not (by decide) _
  have hspace : blanks (32 :: (p.text ++ after)) = p.text ++ after := by
    rw [JsonGrammar.blanks_cons (by decide)]
    exact hp.front after
  constructor
  · intro h
    cases h with
    | last hs hs₁ hs₂ hs₃ =>
      obtain ⟨-, rfl⟩ := hname.unique hs
      obtain ⟨-, rfl⟩ := List.cons.inj (hcolon.symm.trans hs₁)
      rw [hspace] at hs₂
      obtain ⟨hok, rfl⟩ := (hp.iff _ _ hafter).1 hs₂
      exact ⟨hok, .inl ⟨rfl, hs₃⟩⟩
    | more hs hs₁ hs₂ hs₃ hs₄ =>
      obtain ⟨-, rfl⟩ := hname.unique hs
      obtain ⟨-, rfl⟩ := List.cons.inj (hcolon.symm.trans hs₁)
      rw [hspace] at hs₂
      obtain ⟨hok, rfl⟩ := (hp.iff _ _ hafter).1 hs₂
      exact ⟨hok, .inr ⟨_, hs₃, hs₄⟩⟩
  · rintro ⟨hok, hend⟩
    have hvalue : Value (blanks (32 :: (p.text ++ after))) p.value after := by
      rw [hspace]
      exact (hp.iff _ _ hafter).2 ⟨hok, rfl⟩
    rcases hend with ⟨rfl, hs₃⟩ | ⟨s, hs₃, hs₄⟩
    · exact .last hname hcolon hvalue hs₃
    · exact .more hname hcolon hvalue hs₃ hs₄

lemma members_iff {before close : Bytes} (hbefore : Blank before) (hclose : Blank close) {ms : List (Bytes × Part)}
    (h : ∀ m ∈ ms, Clean m.1 ∧ m.2.Reads) (hne : ms ≠ []) (tail rest : Bytes) :
    Members (blanks (members before close ms ++ tail)) (ms.map fun m => (m.1, m.2.value)) rest ↔
      (∀ m ∈ ms, m.2.ok) ∧ rest = tail := by
  induction ms with
  | nil => exact absurd rfl hne
  | cons m ms ih =>
    obtain ⟨⟨hkey, hp⟩, hms⟩ := List.forall_mem_cons.1 h
    have hquote : ∀ s, blanks (before ++ 34 :: s) = 34 :: s := fun s => by
      rw [JsonGrammar.blanks_append hbefore, JsonGrammar.blanks_of_not (by decide)]
    cases ms with
    | nil =>
      have hend : blanks (close ++ 125 :: tail) = 125 :: tail := by
        rw [JsonGrammar.blanks_append hclose, JsonGrammar.blanks_of_not (by decide)]
      have htext : members before close [m] ++ tail =
          before ++ 34 :: (m.1 ++ 34 :: 58 :: 32 :: (m.2.text ++ (close ++ 125 :: tail))) := by simp [members]
      rw [htext, hquote, List.map_cons, List.map_nil, members_cons_iff hkey hp (stops_append hclose (by decide) tail),
        hend, List.forall_mem_singleton]
      simp [eq_comm]
    | cons m' ms =>
      have htext : members before close (m :: m' :: ms) ++ tail = before ++
          34 :: (m.1 ++ 34 :: 58 :: 32 :: (m.2.text ++ 44 :: (members before close (m' :: ms) ++ tail))) := by
        simp [members]
      have hcomma : blanks (44 :: (members before close (m' :: ms) ++ tail)) =
          44 :: (members before close (m' :: ms) ++ tail) := JsonGrammar.blanks_of_not (by decide) _
      have hrest : Members (blanks (members before close (m' :: ms) ++ tail))
          ((m' :: ms).map fun m => (m.1, m.2.value)) rest ↔ (∀ m ∈ m' :: ms, m.2.ok) ∧ rest = tail :=
        ih hms (List.cons_ne_nil m' ms)
      rw [htext, hquote, List.map_cons, members_cons_iff hkey hp (Json.stops_cons (by decide)), hcomma,
        List.forall_mem_cons, and_assoc, ← hrest]
      simp

lemma reads_object {before close : Bytes} (hbefore : Blank before) (hclose : Blank close) {ms : List (Bytes × Part)}
    (h : ∀ m ∈ ms, Clean m.1 ∧ m.2.Reads) (hne : ms ≠ []) : (object before close ms).Reads where
  front tail := JsonGrammar.blanks_of_not (by decide) _
  iff tail rest _ := by
    have hmembers := members_iff hbefore hclose h hne tail rest
    constructor
    · intro hvalue
      rcases Value.object_inv hvalue with ⟨hnil, -⟩ | ⟨vs, hvs, hs⟩
      · exact absurd (List.map_eq_nil_iff.1 (Json.object.inj hnil)) hne
      · obtain rfl := Json.object.inj hvs
        exact hmembers.1 hs
    · exact fun hok => .object (hmembers.2 hok)

/-- **A document** means the value of its part just when the part is all right. -/
theorem means_iff {p : Part} (hp : p.Reads) {c : UInt8} {after : Bytes} (h : Blank (c :: after)) :
    Means (p.text ++ c :: after) p.value ↔ p.ok := by
  have hstops : Stops (c :: after) := Json.stops_cons (not_numberChar_of_blank (h c (List.mem_cons_self ..)))
  have hend : blanks (c :: after) = [] := List.dropWhile_eq_nil_iff.2 h
  unfold Means
  simp only [hp.front, hp.iff _ _ hstops]
  constructor
  · rintro ⟨rest, ⟨hok, -⟩, -⟩
    exact hok
  · exact fun hok => ⟨_, ⟨hok, rfl⟩, hend⟩

/-! ### Numbers -/

/-- A decimal number begins with a digit or the sign, and all of it is a number's. -/
lemma signedDecimal_chars (n : ℤ) :
    (∃ c t, signedDecimal n = c :: t ∧ (c = 45 ∨ isDigit c = true)) ∧ ∀ c ∈ signedDecimal n, isNumberChar c = true := by
  have hdigit : ∀ c ∈ decimal n.natAbs, isDigit c = true := fun c hc => decide_eq_true (digit_of_mem_decimal hc)
  have hchar : ∀ c, isDigit c = true → isNumberChar c = true := fun c hc => by
    rw [isNumberChar, show Json.isDigit c = true from hc, Bool.true_or]
  obtain ⟨c, t, hct⟩ := List.exists_cons_of_ne_nil (decimal_ne_nil n.natAbs)
  unfold signedDecimal
  split_ifs
  · exact ⟨⟨_, _, rfl, .inl rfl⟩, List.forall_mem_cons.2 ⟨by decide, fun c hc => hchar c (hdigit c hc)⟩⟩
  · exact ⟨⟨c, t, hct, .inr (hdigit c (hct ▸ List.mem_cons_self ..))⟩, fun c hc => hchar c (hdigit c hc)⟩

lemma not_blank_of_numberChar {c : UInt8} (h : isNumberChar c = true) : isBlank c = false := by
  by_contra hblank
  rw [not_numberChar_of_blank (by simpa using hblank)] at h
  cases h

lemma reads_number (n : ℤ) : (number n).Reads where
  front tail := by
    obtain ⟨⟨c, t, hct, -⟩, hall⟩ := signedDecimal_chars n
    rw [number, hct, List.cons_append]
    exact JsonGrammar.blanks_of_not (not_blank_of_numberChar (hall c (hct ▸ List.mem_cons_self ..))) _
  iff tail rest hstops := by
    obtain ⟨d, s, rfl, hd⟩ := hstops
    obtain ⟨⟨c, t, hct, hc⟩, hall⟩ := signedDecimal_chars n
    have htake : (signedDecimal n ++ d :: s).takeWhile isNumberChar = signedDecimal n := by
      rw [List.takeWhile_append_of_pos hall, List.takeWhile_cons_of_neg (by simp [hd]), List.append_nil]
    have hdrop : (signedDecimal n ++ d :: s).dropWhile isNumberChar = d :: s := by
      rw [List.dropWhile_append_of_pos hall, List.dropWhile_cons_of_neg (by simp [hd])]
    have hnumber := JsonGrammar.number_signedDecimal n []
    have htext : (number n).text ++ d :: s = c :: (t ++ d :: s) := by
      rw [number, hct, List.cons_append]
    rw [hct, List.cons_append] at htake hdrop
    rw [htext]
    constructor
    · intro h
      exact ⟨trivial, (h.number_inv hc).2.1.trans hdrop⟩
    · rintro ⟨-, rfl⟩
      have hvalue := Value.number (s := t ++ d :: s) hc (by
        rw [htake, ← hct]
        simpa using hnumber)
      rw [htake, hdrop, ← hct] at hvalue
      exact hvalue

end Part

end Two09.Lib.JsonText
