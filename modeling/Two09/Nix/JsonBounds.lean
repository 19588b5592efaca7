import Two09.Nix.FromJson

/-!
# Where `fromJSON` stops

A text that starts with a JSON value is parsed to its end, or to a fraction or an exponent, where every loop stops. What
the parser does with other texts tells when it stays in bounds.
-/

namespace Two09.Nix

open Two09.Lib
open JsonGrammar (blanks isBlank Chars Digits Whole Fraction Exponent Unsigned Number Value Elements Members
  StartsWithValue)

section
variable {c d : UInt8} {s t r rest : Bytes}

/-! ### What is skipped -/

lemma skipAnd_blanks (separator : UInt8) (s : Bytes) : skipAnd separator (blanks s) = skipAnd separator s := by
  induction s with
  | nil => rfl
  | cons c s ih =>
    cases hc : isBlank c with
    | true =>
      have hskip : skipAnd separator (c :: s) = skipAnd separator s :=
        List.dropWhile_cons_of_pos (by rw [hc, Bool.true_or])
      rw [JsonGrammar.blanks_cons hc, ih, hskip]
    | false => rw [JsonGrammar.blanks_of_not hc]

lemma skipAnd_cons (hblank : isBlank c = false) (hc : c ≠ d) (t : Bytes) : skipAnd d (c :: t) = c :: t :=
  List.dropWhile_cons_of_neg (by rw [hblank, Bool.false_or, decide_eq_false hc]; decide)

lemma skipAnd_separator (separator : UInt8) (s : Bytes) : skipAnd separator (separator :: s) = skipAnd separator s :=
  List.dropWhile_cons_of_pos (by rw [decide_eq_true rfl, Bool.or_true])

/-- Up to what is neither blank nor the separator. -/
lemma skipAnd_of_blanks (h : blanks s = c :: t) (hc : c ≠ d) : skipAnd d s = c :: t := by
  rw [← skipAnd_blanks, h, skipAnd_cons (JsonGrammar.head_blanks h) hc]

/-- Past a separator. -/
lemma skipAnd_past {s' : Bytes} (h : blanks s = d :: s') (h' : blanks s' = c :: t) (hc : c ≠ d) :
    skipAnd d s = c :: t := by
  rw [← skipAnd_blanks, h, skipAnd_separator, skipAnd_of_blanks h' hc]

/-- What a value starts with separates nothing. -/
lemma starts_ne (h : JsonGrammar.startsValue c = true) : c ≠ 44 ∧ c ≠ 58 ∧ c ≠ 93 ∧ c ≠ 125 ∧ isBlank c = false := by
  have hall : ∀ d ∈ [(44 : UInt8), 58, 93, 125, 32, 9, 10, 13], JsonGrammar.startsValue d = false := by decide +kernel
  have hne : ∀ d ∈ [(44 : UInt8), 58, 93, 125, 32, 9, 10, 13], c ≠ d := by
    rintro d hd rfl
    rw [hall c hd] at h
    cases h
  refine ⟨hne 44 (by decide), hne 58 (by decide), hne 93 (by decide), hne 125 (by decide), decide_eq_false ?_⟩
  rintro (hc | hc | hc | hc)
  · exact hne 32 (by decide) hc
  · exact hne 9 (by decide) hc
  · exact hne 10 (by decide) hc
  · exact hne 13 (by decide) hc

/-! ### Where the loops stop -/

/-- A fraction or an exponent. -/
def Stuck (r : Bytes) : Prop := ∃ c t, r = c :: t ∧ (c = 46 ∨ c = 101 ∨ c = 69)

/-- The parser has got to the end of a value, or it is stuck in it. -/
def Reached (r rest : Bytes) : Prop := r = rest ∨ Stuck r

lemma stuck_ne (hc : c = 46 ∨ c = 101 ∨ c = 69) : isBlank c = false ∧ c ≠ 44 ∧ c ≠ 93 ∧ c ≠ 125 ∧ c ≠ 34 ∧
    c ∉ ascii "\"[\x7btfn" ∧ ¬ (c = 45 ∨ isDigit c = true) := by
  rcases hc with rfl | rfl | rfl <;> decide +kernel

lemma Stuck.value (h : Stuck r) : ValueAt r none r := by
  obtain ⟨c, t, rfl, hc⟩ := h
  obtain ⟨hblank, -, -, -, -, hword, hnumber⟩ := stuck_ne hc
  exact .none hblank hword hnumber t

lemma Stuck.items (h : Stuck r) : ItemsAt r [] r := by
  have hvalue := h.value
  obtain ⟨c, t, rfl, hc⟩ := h
  obtain ⟨hblank, hcomma, hbracket, -⟩ := stuck_ne hc
  exact .stop (skipAnd_cons hblank hcomma t) (fun h => hbracket (Option.some.inj h)) (List.cons_ne_nil _ _) hvalue

lemma Stuck.entries (h : Stuck r) (entries : List (Bytes × Tree)) : EntriesAt entries r entries r := by
  obtain ⟨c, t, rfl, hc⟩ := h
  obtain ⟨hblank, hcomma, -, hbrace, hquote, -⟩ := stuck_ne hc
  exact .stop (skipAnd_cons hblank hcomma t) hbrace hquote

/-! ### Values of the grammar -/

lemma chars_parsed (h : Chars s rest) : ∃ str, jsonParseChars s = .ok (str, rest) := by
  induction h with
  | close rest => exact ⟨[], jsonParseChars_quote rest⟩
  | @plain c s rest h32 h34 h92 hs ih =>
    obtain ⟨str, hstr⟩ := ih
    refine ⟨c :: str, ?_⟩
    rw [jsonParseChars_plain h34 h92, hstr]
    rfl
  | @escape e s rest he hs ih =>
    obtain ⟨str, hstr⟩ := ih
    refine ⟨unescapeJson e :: str, ?_⟩
    rw [jsonParseChars_escape, hstr]
    rfl
  | @unicode a b c d s rest ha hb hc hd hs ih =>
    obtain ⟨str, hstr⟩ := ih
    have hhex : ∀ {x : UInt8}, JsonGrammar.isHexDigit x = true → x ≠ 34 ∧ x ≠ 92 := by
      intro x hx
      constructor <;> rintro rfl <;> exact absurd hx (by decide)
    refine ⟨117 :: a :: b :: c :: d :: str, ?_⟩
    rw [jsonParseChars_escape, jsonParseChars_plain (hhex ha).1 (hhex ha).2,
      jsonParseChars_plain (hhex hb).1 (hhex hb).2, jsonParseChars_plain (hhex hc).1 (hhex hc).2,
      jsonParseChars_plain (hhex hd).1 (hhex hd).2, hstr]
    rfl

lemma digits_dropped (h : Digits s rest) : s.dropWhile isDigit = rest.dropWhile isDigit := by
  induction h with
  | one hc rest => exact List.dropWhile_cons_of_pos hc
  | more hc hs ih => exact (List.dropWhile_cons_of_pos hc).trans ih

lemma whole_dropped (h : Whole s rest) : s.dropWhile isDigit = rest.dropWhile isDigit := by
  cases h with
  | zero => exact List.dropWhile_cons_of_pos (by decide)
  | one hc h0 => exact List.dropWhile_cons_of_pos hc
  | more hc h0 hs => exact (List.dropWhile_cons_of_pos hc).trans (digits_dropped hs)

/-- No digit comes next. -/
def NoDigit (s : Bytes) : Prop := ∀ c, s.head? = some c → isDigit c = false

lemma NoDigit.dropWhile (h : NoDigit s) : s.dropWhile isDigit = s := by
  cases s with
  | nil => rfl
  | cons c s => exact List.dropWhile_cons_of_neg (by rw [h c rfl]; decide)

lemma unsigned_reached (h : Unsigned s rest) (hrest : NoDigit rest) : Reached (s.dropWhile isDigit) rest := by
  obtain ⟨hwhole, hfraction, hexponent⟩ := h
  rw [whole_dropped hwhole]
  have hstuck : ∀ {e : UInt8} {t : Bytes}, e = 46 ∨ e = 101 ∨ e = 69 → Stuck ((e :: t).dropWhile isDigit) := by
    intro e t he
    refine ⟨e, t, List.dropWhile_cons_of_neg ?_, he⟩
    rcases he with rfl | rfl | rfl <;> decide
  cases hfraction with
  | present hs => exact .inr (hstuck (.inl rfl))
  | absent =>
    cases hexponent with
    | absent => exact .inl hrest.dropWhile
    | bare he hs => exact .inr (hstuck (.inr he))
    | signed he hsign hs => exact .inr (hstuck (.inr he))

lemma number_reached (h : Number s rest) : ∃ c t, s = c :: t ∧ (c = 45 ∨ isDigit c = true) ∧
    (NoDigit rest → Reached (jsonParseNumber s).2 rest) := by
  cases h with
  | nonneg hs =>
    obtain ⟨c, t, rfl, hc⟩ : ∃ c t, s = c :: t ∧ isDigit c = true := by
      obtain ⟨hwhole, -, -⟩ := hs
      exact hwhole.head
    refine ⟨c, t, rfl, .inr hc, fun hrest => ?_⟩
    have h45 : ¬ (c :: t).head? = some 45 := by
      intro heq
      obtain rfl := Option.some.inj heq
      exact absurd hc (by decide)
    unfold jsonParseNumber
    simp only [if_neg h45]
    exact unsigned_reached hs hrest
  | neg hs => exact ⟨45, _, rfl, .inl rfl, fun hrest => unsigned_reached hs hrest⟩

lemma noDigit_of_blanks (h : blanks s = c :: t) (hc : isDigit c = false) : NoDigit s := by
  intro d hd
  cases hdigit : isDigit d with
  | false => rfl
  | true =>
    cases s with
    | nil => cases hd
    | cons e s =>
      obtain rfl := Option.some.inj hd
      rw [JsonGrammar.blanks_of_not (JsonGrammar.not_blank_of_digit hdigit)] at h
      obtain ⟨heq, -⟩ := List.cons_eq_cons.1 h
      rw [heq, hc] at hdigit
      cases hdigit

/-- A value is parsed, up to its end or up to where the loops stop. -/
def ValueParsed (s rest : Bytes) : Prop := ∃ v r, ValueAt s (some v) r ∧ (NoDigit rest → Reached r rest)

def ItemsParsed (s rest : Bytes) : Prop := ∃ items r, ItemsAt s items r ∧ Reached r rest

def EntriesParsed (s rest : Bytes) : Prop := ∀ entries, ∃ entries' r, EntriesAt entries s entries' r ∧ Reached r rest

lemma number_parsed (h : Number s rest) : ValueParsed s rest := by
  obtain ⟨c, t, rfl, hc, hreached⟩ := number_reached h
  exact ⟨_, _, .number hc t, hreached⟩

lemma string_parsed (h : Chars s rest) : ValueParsed (34 :: s) rest := by
  obtain ⟨str, hstr⟩ := chars_parsed h
  exact ⟨_, _, .string hstr, fun _ => .inl rfl⟩

lemma array_parsed (hs : Elements (blanks s) rest) (h : ItemsParsed (blanks s) rest) : ValueParsed (91 :: s) rest := by
  obtain ⟨items, r, hitems, hreached⟩ := h
  obtain ⟨c, t, hfront, hc⟩ := hs.head
  have hne : blanks s ≠ [] := by
    rw [hfront]
    exact List.cons_ne_nil _ _
  exact ⟨_, _, .list (hitems.skip (skipAnd_blanks 44 s).symm hne (JsonGrammar.blanks_suffix s).length_le),
    fun _ => hreached⟩

lemma members_head (h : Members s rest) : ∃ t, s = 34 :: t := by
  cases h with
  | last => exact ⟨_, rfl⟩
  | more => exact ⟨_, rfl⟩

lemma object_parsed (hs : Members (blanks s) rest) (h : EntriesParsed (blanks s) rest) :
    ValueParsed (123 :: s) rest := by
  obtain ⟨entries, r, hentries, hreached⟩ := h []
  obtain ⟨t, hfront⟩ := members_head hs
  have hne : blanks s ≠ [] := by
    rw [hfront]
    exact List.cons_ne_nil _ _
  exact ⟨_, _, .attrSet (hentries.skip (skipAnd_blanks 44 s).symm hne (JsonGrammar.blanks_suffix s).length_le),
    fun _ => hreached⟩

/-- One element, and what the loop does behind it. -/
lemma items_cons {s₁ : Bytes} (hs : Value s s₁) (h : ValueParsed s s₁) (hdigit : NoDigit s₁)
    (hrest : ItemsParsed s₁ rest) : ItemsParsed s rest := by
  obtain ⟨v, r, hv, hreached⟩ := h
  obtain ⟨c, t, rfl, hc⟩ := hs.head
  obtain ⟨hcomma, -, hbracket, -, hblank⟩ := starts_ne hc
  have hfront : (c :: t).head? ≠ some 93 := fun h => hbracket (Option.some.inj h)
  have hskip := skipAnd_cons hblank hcomma t
  rcases hreached hdigit with rfl | hstuck
  · obtain ⟨items, r', hitems, hreached'⟩ := hrest
    exact ⟨v :: items, r', .cons hskip hfront hv hitems, hreached'⟩
  · exact ⟨[v], r, .cons hskip hfront hv hstuck.items, .inr hstuck⟩

/-- On behind a comma. -/
lemma items_comma {s₁ s₂ : Bytes} (hs₁ : blanks s₁ = 44 :: s₂) (hs₂ : Elements (blanks s₂) rest)
    (h : ItemsParsed (blanks s₂) rest) : ItemsParsed s₁ rest := by
  obtain ⟨items, r, hitems, hreached⟩ := h
  obtain ⟨d, t, hnext, hd⟩ := hs₂.head
  obtain ⟨hcomma, -, -, -, hblank⟩ := starts_ne hd
  have hskip : skipAnd 44 s₁ = skipAnd 44 (blanks s₂) := by
    rw [skipAnd_past hs₁ hnext hcomma, hnext, skipAnd_cons hblank hcomma]
  have hne : blanks s₂ ≠ [] := by
    rw [hnext]
    exact List.cons_ne_nil _ _
  have hle₁ := (JsonGrammar.blanks_suffix s₁).length_le
  have hle₂ := (JsonGrammar.blanks_suffix s₂).length_le
  rw [hs₁, List.length_cons] at hle₁
  exact ⟨items, r, hitems.skip hskip hne (by omega), hreached⟩

/-- One member, and what the loop does behind it. -/
lemma entries_cons {s₁ s₂ s₃ : Bytes} (hs : Chars s s₁) (hs₁ : blanks s₁ = 58 :: s₂) (hs₂ : Value (blanks s₂) s₃)
    (h : ValueParsed (blanks s₂) s₃) (hdigit : NoDigit s₃) (hrest : EntriesParsed s₃ rest) :
    EntriesParsed (34 :: s) rest := by
  intro entries
  obtain ⟨key, hkey⟩ := chars_parsed hs
  obtain ⟨v, r, hv, hreached⟩ := h
  obtain ⟨c, t, hfront, hc⟩ := hs₂.head
  have hskip : skipAnd 44 (34 :: s) = 34 :: s := skipAnd_cons (by decide) (by decide) s
  have hcolon : skipAnd 58 s₁ = blanks s₂ := by
    rw [skipAnd_past hs₁ hfront (starts_ne hc).2.1, hfront]
  rcases hreached hdigit with rfl | hstuck
  · obtain ⟨entries', r', hentries, hreached'⟩ := hrest (attrsetBindTree entries key v)
    exact ⟨entries', r', .cons hskip hkey (hcolon ▸ hv) hentries, hreached'⟩
  · exact ⟨_, r, .cons hskip hkey (hcolon ▸ hv) (hstuck.entries _), .inr hstuck⟩

lemma entries_comma {s₁ s₂ : Bytes} (hs₁ : blanks s₁ = 44 :: s₂) (hs₂ : Members (blanks s₂) rest)
    (h : EntriesParsed (blanks s₂) rest) : EntriesParsed s₁ rest := by
  intro entries
  obtain ⟨entries', r, hentries, hreached⟩ := h entries
  obtain ⟨t, hnext⟩ := members_head hs₂
  have hskip : skipAnd 44 s₁ = skipAnd 44 (blanks s₂) := by
    rw [skipAnd_past hs₁ hnext (by decide), hnext, skipAnd_cons (by decide) (by decide)]
  have hne : blanks s₂ ≠ [] := by
    rw [hnext]
    exact List.cons_ne_nil _ _
  have hle₁ := (JsonGrammar.blanks_suffix s₁).length_le
  have hle₂ := (JsonGrammar.blanks_suffix s₂).length_le
  rw [hs₁, List.length_cons] at hle₁
  exact ⟨entries', r, hentries.skip hskip hne (by omega), hreached⟩

/-- **A value of the grammar is parsed.** -/
theorem value_parsed (h : Value s rest) : ValueParsed s rest := by
  refine @Value.rec (fun s rest _ => ValueParsed s rest) (fun s rest _ => ItemsParsed s rest)
    (fun s rest _ => EntriesParsed s rest) ?_ ?_ ?_ ?_ ?_ ?_ ?_ ?_ ?_ ?_ ?_ ?_ ?_ s rest h
  · exact fun rest => ⟨_, _, valueAt_null rest, fun _ => .inl rfl⟩
  · exact fun rest => ⟨_, _, valueAt_true rest, fun _ => .inl rfl⟩
  · exact fun rest => ⟨_, _, valueAt_false rest, fun _ => .inl rfl⟩
  · exact fun hs => number_parsed hs
  · exact fun hs => string_parsed hs
  · exact fun hs => ⟨_, _, .list (.close (skipAnd_of_blanks hs (by decide))), fun _ => .inl rfl⟩
  · exact fun hs ih => array_parsed hs ih
  · exact fun hs => ⟨_, _, .attrSet (.close (skipAnd_of_blanks hs (by decide))), fun _ => .inl rfl⟩
  · exact fun hs ih => object_parsed hs ih
  · intro s s₁ rest hs hs₁ ih
    exact items_cons hs ih (noDigit_of_blanks hs₁ (by decide))
      ⟨[], rest, .close (skipAnd_of_blanks hs₁ (by decide)), .inl rfl⟩
  · intro s s₁ s₂ rest hs hs₁ hs₂ ih ih₂
    exact items_cons hs ih (noDigit_of_blanks hs₁ (by decide)) (items_comma hs₁ hs₂ ih₂)
  · intro s s₁ s₂ s₃ rest hs hs₁ hs₂ hs₃ ih
    exact entries_cons hs hs₁ hs₂ ih (noDigit_of_blanks hs₃ (by decide)) fun entries =>
      ⟨entries, rest, .close (skipAnd_of_blanks hs₃ (by decide)), .inl rfl⟩
  · intro s s₁ s₂ s₃ s₄ rest hs hs₁ hs₂ hs₃ hs₄ ih ih₄
    exact entries_cons hs hs₁ hs₂ ih (noDigit_of_blanks hs₃ (by decide)) (entries_comma hs₃ hs₄ ih₄)

/-! ### Staying in bounds -/

/-- The parser ends and stays in the text, and it returns a value only where one stands at the front. -/
def StaysInBounds (text : Bytes) : Prop :=
  ∃ v r, builtinFromJson text = .ok (v, r) ∧ r <:+ cstr text ∧ (v.isSome = true → StartsWithValue (cstr text))

/-- What is parsed, where it ends. -/
lemma staysInBounds_of {v : Option Tree} {text : Bytes} (h : ValueAt (blanks (cstr text)) v r)
    (hvalue : v.isSome = true → StartsWithValue (cstr text)) : StaysInBounds text :=
  ⟨v, r, h.of_blanks _ le_rfl, h.of_blanks.advances.1, hvalue⟩

lemma startsWithValue_of_digit (h : blanks s = c :: t) (hc : isDigit c = true) : StartsWithValue s := by
  refine ⟨t, ?_⟩
  rw [h]
  by_cases h0 : c = 48
  · rw [h0]
    exact .number (.nonneg ⟨.zero t, .absent t, .absent t⟩)
  · exact .number (.nonneg ⟨.one hc h0 t, .absent t, .absent t⟩)

lemma startsWithValue_of_word {word : Bytes} (hword : ∀ rest, Value (word ++ rest) rest) (h : blanks s = c :: t)
    (hfront : word.isPrefixOf (c :: t) = true) : StartsWithValue s := by
  obtain ⟨rest, hrest⟩ := List.isPrefixOf_iff_prefix.1 hfront
  refine ⟨rest, ?_⟩
  rw [h, ← hrest]
  exact hword rest

/-- Behind a quote, a bracket, a brace or a sign there is always a value, be it only the beginning of one. -/
lemma isSome_of_front {fuel : Nat} {v : Option Tree} (h : blanks s = c :: t) (hc : c ∈ ascii "\"[\x7b-")
    (hparse : jsonParseValue fuel s = .ok (v, r)) : v.isSome = true := by
  have hmap : ∀ {α : Type} (f : α → Option Tree) (x : JsonStep α), (∀ a, (f a).isSome = true) →
      (x.map fun r => (f r.1, r.2)) = .ok (v, r) → v.isSome = true := by
    intro α f x hf hx
    cases x with
    | error e => cases hx
    | ok a =>
      obtain ⟨rfl, -⟩ := Prod.mk.inj (Except.ok.inj hx)
      exact hf a.1
  cases fuel with
  | zero => cases hparse
  | succ fuel =>
    rw [jsonParseValue, h] at hparse
    dsimp only at hparse
    have hcases : c = 34 ∨ c = 91 ∨ c = 123 ∨ c = 45 := by simpa [ascii] using hc
    rcases hcases with rfl | rfl | rfl | rfl
    · rw [if_pos rfl, jsonParseString, if_pos rfl] at hparse
      cases hchars : jsonParseChars t with
      | error e =>
        rw [hchars] at hparse
        cases hparse
      | ok a =>
        rw [hchars] at hparse
        obtain ⟨rfl, -⟩ := Prod.mk.inj (Except.ok.inj hparse)
        rfl
    · rw [if_neg (by decide), if_pos rfl] at hparse
      exact hmap (fun items => some (.list items)) _ (fun _ => rfl) hparse
    · rw [if_neg (by decide), if_neg (by decide), if_pos rfl] at hparse
      exact hmap (fun entries => some (.attrSet entries)) _ (fun _ => rfl) hparse
    · obtain ⟨-, -, -, htrue, hfalse, hnull⟩ := not_word (c := 45) (by decide) t
      rw [if_neg (by decide), if_neg (by decide), if_neg (by decide), htrue, hfalse, hnull,
        if_neg Bool.false_ne_true, if_neg Bool.false_ne_true, if_neg Bool.false_ne_true, if_pos (.inl rfl)] at hparse
      obtain ⟨rfl, -⟩ := Prod.mk.inj (Except.ok.inj hparse)
      rfl

/-- **The parser stays in bounds, and returns no part of a value,** exactly when a value stands at the front of the
text, or no string, list, attribute set or negative number starts there. -/
theorem staysInBounds_iff (text : Bytes) : StaysInBounds text ↔ StartsWithValue (cstr text) ∨
    ∀ c, (blanks (cstr text)).head? = some c → c ∉ ascii "\"[\x7b-" := by
  constructor
  · rintro ⟨v, r, hparse, -, hvalue⟩
    by_cases hfront : ∃ c, (blanks (cstr text)).head? = some c ∧ c ∈ ascii "\"[\x7b-"
    · obtain ⟨c, hc, hmem⟩ := hfront
      obtain ⟨t, ht⟩ := List.head?_eq_some_iff.1 hc
      exact .inl (hvalue (isSome_of_front ht hmem hparse))
    · exact .inr fun c hc hmem => hfront ⟨c, hc, hmem⟩
  · intro h
    by_cases hstarts : StartsWithValue (cstr text)
    · obtain ⟨rest, hrest⟩ := hstarts
      obtain ⟨v, r, hv, -⟩ := value_parsed hrest
      exact staysInBounds_of hv fun _ => ⟨rest, hrest⟩
    · have hfront := h.resolve_left hstarts
      cases hblanks : blanks (cstr text) with
      | nil => exact staysInBounds_of (hblanks ▸ valueAt_nil) fun h => by cases h
      | cons c t =>
        rw [hblanks] at hfront
        have hc := hfront c rfl
        have hne : ∀ d ∈ ascii "\"[\x7b-", c ≠ d := by
          rintro d hd rfl
          exact hc hd
        have hdigit : isDigit c = false :=
          Bool.eq_false_of_not_eq_true fun h => hstarts (startsWithValue_of_digit hblanks h)
        have hnumber : ¬ (c = 45 ∨ isDigit c = true) := by
          rintro (h | h)
          · exact hne 45 (by decide) h
          · rw [hdigit] at h
            cases h
        have hword : ∀ {word : Bytes}, (∀ rest, Value (word ++ rest) rest) → ¬ word.isPrefixOf (c :: t) = true :=
          fun hword h => hstarts (startsWithValue_of_word hword hblanks h)
        have hnone : ValueAt (c :: t) none (c :: t) := by
          refine valueAt_of (JsonGrammar.head_blanks hblanks) fun fuel _ => ?_
          rw [if_neg (hne 34 (by decide)), if_neg (hne 91 (by decide)), if_neg (hne 123 (by decide)),
            if_neg (hword .litTrue), if_neg (hword .litFalse), if_neg (hword .litNull), if_neg hnumber]
        exact staysInBounds_of (hblanks ▸ hnone) fun h => by cases h

/-- The backslash takes the NUL. -/
theorem cut_in_escape_overruns : ¬ StaysInBounds (ascii "\"abc\\") := by
  rintro ⟨v, r, hparse, -⟩
  have hfault : builtinFromJson (ascii "\"abc\\") = .error .overrun := rfl
  rw [hfault] at hparse
  cases hparse

/-- Half a list is returned as one. -/
example : ¬ StaysInBounds (ascii "[") := by
  rintro ⟨v, r, hparse, -, hvalue⟩
  have hsome := isSome_of_front (s := ascii "[") rfl (by decide) hparse
  obtain ⟨rest, hrest⟩ := hvalue hsome
  cases hrest with
  | number hs =>
    obtain ⟨c, t, heq, hc, -⟩ := number_reached hs
    obtain ⟨rfl, -⟩ := List.cons_eq_cons.1 heq
    exact absurd hc (by decide)
  | array_nil hs => cases hs
  | array hs =>
    obtain ⟨c, t, heq, -⟩ := hs.head
    cases heq

end

end Two09.Nix
