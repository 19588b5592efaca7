import Two09.Lib.Bytes

/-!
# The grammar of JSON

What it is for a value to stand at the front of a text, which is one of bytes: what is beyond ASCII is not decoded.
Each relation is between a text and what is left of it.
-/

namespace Two09.Lib.JsonGrammar

/-- White space between tokens. -/
def isBlank (c : UInt8) : Bool := decide (c = 32 ∨ c = 9 ∨ c = 10 ∨ c = 13)

def blanks (s : Bytes) : Bytes := s.dropWhile isBlank

def isDigit (c : UInt8) : Bool := decide (48 ≤ c ∧ c ≤ 57)

def isHexDigit (c : UInt8) : Bool := isDigit c || decide (65 ≤ c ∧ c ≤ 70 ∨ 97 ≤ c ∧ c ≤ 102)

/-- The characters of a string, up to and past the quote that closes it. -/
inductive Chars : Bytes → Bytes → Prop
  | close (rest : Bytes) : Chars (34 :: rest) rest
  | plain {c : UInt8} {s rest : Bytes} (h32 : 32 ≤ c) (h34 : c ≠ 34) (h92 : c ≠ 92) (hs : Chars s rest) :
    Chars (c :: s) rest
  | escape {e : UInt8} {s rest : Bytes} (he : e ∈ ascii "\"\\/bfnrt") (hs : Chars s rest) : Chars (92 :: e :: s) rest
  | unicode {a b c d : UInt8} {s rest : Bytes} (ha : isHexDigit a = true) (hb : isHexDigit b = true)
    (hc : isHexDigit c = true) (hd : isHexDigit d = true) (hs : Chars s rest) :
    Chars (92 :: 117 :: a :: b :: c :: d :: s) rest

/-- One digit at least. -/
inductive Digits : Bytes → Bytes → Prop
  | one {c : UInt8} (hc : isDigit c = true) (rest : Bytes) : Digits (c :: rest) rest
  | more {c : UInt8} {s rest : Bytes} (hc : isDigit c = true) (hs : Digits s rest) : Digits (c :: s) rest

/-- Without zeros in front. -/
inductive Whole : Bytes → Bytes → Prop
  | zero (rest : Bytes) : Whole (48 :: rest) rest
  | one {c : UInt8} (hc : isDigit c = true) (h0 : c ≠ 48) (rest : Bytes) : Whole (c :: rest) rest
  | more {c : UInt8} {s rest : Bytes} (hc : isDigit c = true) (h0 : c ≠ 48) (hs : Digits s rest) : Whole (c :: s) rest

inductive Fraction : Bytes → Bytes → Prop
  | absent (rest : Bytes) : Fraction rest rest
  | present {s rest : Bytes} (hs : Digits s rest) : Fraction (46 :: s) rest

inductive Exponent : Bytes → Bytes → Prop
  | absent (rest : Bytes) : Exponent rest rest
  | bare {e : UInt8} {s rest : Bytes} (he : e = 101 ∨ e = 69) (hs : Digits s rest) : Exponent (e :: s) rest
  | signed {e sign : UInt8} {s rest : Bytes} (he : e = 101 ∨ e = 69) (hsign : sign = 43 ∨ sign = 45)
    (hs : Digits s rest) : Exponent (e :: sign :: s) rest

inductive Unsigned : Bytes → Bytes → Prop
  | mk {s s₁ s₂ rest : Bytes} (hs : Whole s s₁) (hs₁ : Fraction s₁ s₂) (hs₂ : Exponent s₂ rest) : Unsigned s rest

inductive Number : Bytes → Bytes → Prop
  | nonneg {s rest : Bytes} (hs : Unsigned s rest) : Number s rest
  | neg {s rest : Bytes} (hs : Unsigned s rest) : Number (45 :: s) rest

mutual

inductive Value : Bytes → Bytes → Prop
  | litNull (rest : Bytes) : Value (ascii "null" ++ rest) rest
  | litTrue (rest : Bytes) : Value (ascii "true" ++ rest) rest
  | litFalse (rest : Bytes) : Value (ascii "false" ++ rest) rest
  | number {s rest : Bytes} (hs : Number s rest) : Value s rest
  | string {s rest : Bytes} (hs : Chars s rest) : Value (34 :: s) rest
  | array_nil {s rest : Bytes} (hs : blanks s = 93 :: rest) : Value (91 :: s) rest
  | array {s rest : Bytes} (hs : Elements (blanks s) rest) : Value (91 :: s) rest
  | object_nil {s rest : Bytes} (hs : blanks s = 125 :: rest) : Value (123 :: s) rest
  | object {s rest : Bytes} (hs : Members (blanks s) rest) : Value (123 :: s) rest

/-- The elements of an array, up to and past its bracket. -/
inductive Elements : Bytes → Bytes → Prop
  | last {s s₁ rest : Bytes} (hs : Value s s₁) (hs₁ : blanks s₁ = 93 :: rest) : Elements s rest
  | more {s s₁ s₂ rest : Bytes} (hs : Value s s₁) (hs₁ : blanks s₁ = 44 :: s₂) (hs₂ : Elements (blanks s₂) rest) :
    Elements s rest

/-- The members of an object, up to and past its brace. -/
inductive Members : Bytes → Bytes → Prop
  | last {s s₁ s₂ s₃ rest : Bytes} (hs : Chars s s₁) (hs₁ : blanks s₁ = 58 :: s₂) (hs₂ : Value (blanks s₂) s₃)
    (hs₃ : blanks s₃ = 125 :: rest) : Members (34 :: s) rest
  | more {s s₁ s₂ s₃ s₄ rest : Bytes} (hs : Chars s s₁) (hs₁ : blanks s₁ = 58 :: s₂) (hs₂ : Value (blanks s₂) s₃)
    (hs₃ : blanks s₃ = 44 :: s₄) (hs₄ : Members (blanks s₄) rest) : Members (34 :: s) rest

end

/-- A value behind white space. -/
def StartsWithValue (text : Bytes) : Prop := ∃ rest, Value (blanks text) rest

/-- A value with nothing but white space around it. -/
def Document (text : Bytes) : Prop := ∃ rest, Value (blanks text) rest ∧ blanks rest = []

/-! ### Fronts -/

section
variable {c : UInt8} {s rest : Bytes}

lemma blanks_cons (h : isBlank c = true) (s : Bytes) : blanks (c :: s) = blanks s := List.dropWhile_cons_of_pos h

lemma blanks_of_not (h : isBlank c = false) (s : Bytes) : blanks (c :: s) = c :: s :=
  List.dropWhile_cons_of_neg (by rw [h]; decide)

lemma blanks_suffix (s : Bytes) : blanks s <:+ s := List.dropWhile_suffix _

lemma blanks_append {ws : Bytes} (h : ∀ c ∈ ws, isBlank c = true) (s : Bytes) : blanks (ws ++ s) = blanks s :=
  List.dropWhile_append_of_pos h

lemma head_blanks (h : blanks s = c :: rest) : isBlank c = false := by
  have hne : blanks s ≠ [] := by rw [h]; exact List.cons_ne_nil _ _
  have hnot := List.head_dropWhile_not isBlank hne
  have hhead : (blanks s).head hne = c := by simp only [h, List.head_cons]
  rw [← hhead]
  exact hnot

lemma blanks_blanks (s : Bytes) : blanks (blanks s) = blanks s := List.dropWhile_idempotent _ _

lemma not_blank_of_digit (h : isDigit c = true) : isBlank c = false := by
  have hc : 48 ≤ c ∧ c ≤ 57 := of_decide_eq_true h
  refine decide_eq_false ?_
  rintro (rfl | rfl | rfl | rfl) <;> exact absurd hc.1 (by decide)

/-- Quotes, brackets, braces, digits, the sign, and the first letters of the three words. -/
def startsValue (c : UInt8) : Bool := decide (c ∈ ascii "\"[\x7b-ntf") || isDigit c

lemma Whole.head (h : Whole s rest) : ∃ c t, s = c :: t ∧ isDigit c = true := by
  cases h with
  | zero => exact ⟨48, rest, rfl, by decide⟩
  | one hc h0 => exact ⟨_, _, rfl, hc⟩
  | more hc h0 hs => exact ⟨_, _, rfl, hc⟩

lemma startsValue_of_digit (h : isDigit c = true) : startsValue c = true := by
  unfold startsValue
  rw [h, Bool.or_true]

lemma Value.head (h : Value s rest) : ∃ c t, s = c :: t ∧ startsValue c = true := by
  cases h with
  | litNull => exact ⟨110, _, rfl, by decide⟩
  | litTrue => exact ⟨116, _, rfl, by decide⟩
  | litFalse => exact ⟨102, _, rfl, by decide⟩
  | number hs =>
    cases hs with
    | nonneg hs =>
      obtain ⟨hwhole, -, -⟩ := hs
      obtain ⟨c, t, rfl, hc⟩ := hwhole.head
      exact ⟨c, t, rfl, startsValue_of_digit hc⟩
    | neg hs => exact ⟨45, _, rfl, by decide⟩
  | string hs => exact ⟨34, _, rfl, by decide⟩
  | array_nil hs => exact ⟨91, _, rfl, by decide⟩
  | array hs => exact ⟨91, _, rfl, by decide⟩
  | object_nil hs => exact ⟨123, _, rfl, by decide⟩
  | object hs => exact ⟨123, _, rfl, by decide⟩

lemma Elements.head (h : Elements s rest) : ∃ c t, s = c :: t ∧ startsValue c = true := by
  cases h with
  | last hs => exact hs.head
  | more hs => exact hs.head

/-! ### Decimal numbers -/

lemma digits_append (hne : s ≠ []) (hs : ∀ c ∈ s, isDigit c = true) (rest : Bytes) : Digits (s ++ rest) rest := by
  induction s with
  | nil => exact absurd rfl hne
  | cons c s ih =>
    obtain ⟨hc, hs⟩ := List.forall_mem_cons.1 hs
    cases s with
    | nil => exact .one hc rest
    | cons d s => exact .more hc (ih (List.cons_ne_nil _ _) hs)

/-- A decimal number has no zero in front. -/
lemma whole_decimal (n : Nat) (rest : Bytes) : Whole (decimal n ++ rest) rest := by
  have hdigits : ∀ c ∈ decimal n, isDigit c = true := fun c hc => decide_eq_true (digit_of_mem_decimal hc)
  by_cases hzero : n = 0
  · rw [hzero]
    exact .zero rest
  · have hne : Nat.digits 10 n ≠ [] := mt Nat.digits_eq_nil_iff_eq_zero.1 hzero
    have hlast := Nat.getLast_digit_ne_zero 10 hzero
    have hlt : (Nat.digits 10 n).getLast hne < 10 := Nat.digits_lt_base (by norm_num) (List.getLast_mem hne)
    obtain ⟨t, ht⟩ : ∃ t, decimal n = UInt8.ofNat (48 + (Nat.digits 10 n).getLast hne) :: t := by
      unfold decimal
      rw [if_neg hzero]
      nth_rewrite 1 [← List.dropLast_append_getLast hne]
      rw [List.reverse_append, List.reverse_singleton, List.singleton_append, List.map_cons]
      exact ⟨_, rfl⟩
    have h48 : ∀ d < 10, d ≠ 0 → UInt8.ofNat (48 + d) ≠ 48 := by decide
    rw [ht] at hdigits ⊢
    obtain ⟨hc, hs⟩ := List.forall_mem_cons.1 hdigits
    by_cases hnil : t = []
    · rw [hnil]
      exact .one hc (h48 _ hlt hlast) rest
    · exact .more hc (h48 _ hlt hlast) (digits_append hnil hs rest)

lemma number_signedDecimal (n : Int) (rest : Bytes) : Number (signedDecimal n ++ rest) rest := by
  have hunsigned : Unsigned (decimal n.natAbs ++ rest) rest := ⟨whole_decimal _ rest, .absent rest, .absent rest⟩
  unfold signedDecimal
  split_ifs
  · exact .neg hunsigned
  · exact .nonneg hunsigned

end

end Two09.Lib.JsonGrammar
