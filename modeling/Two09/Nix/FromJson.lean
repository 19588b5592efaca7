import Two09.Lib.JsonGrammar
import Two09.Nix.Lexer
import Two09.Nix.Serialize

/-!
# `fromJSON`

`builtin_from_json`: what is made of a text that need not be JSON. A position is what is left of the text in front of
its NUL.
-/

namespace Two09.Nix

open Two09.Lib
open JsonGrammar (blanks isBlank StartsWithValue)

/-! ### The parser -/

/-- Why there is no result: the position is past the NUL, or there are no rounds left. -/
inductive JsonFault
  | overrun
  | fuel
  deriving DecidableEq

/-- What a parser gives, and where it stops. -/
abbrev JsonStep (α : Type) := Except JsonFault (α × Bytes)

/-- The character an escape stands for. -/
def unescapeJson (c : UInt8) : UInt8 := if c = 110 then 10 else if c = 116 then 9 else if c = 114 then 13 else c

/-- The loop of `json_parse_string`. A backslash in front of the NUL takes it, and the loop goes on behind it. -/
def jsonParseChars : Bytes → JsonStep Bytes
  | [] => .ok ([], [])
  | c :: s =>
    if c = 34 then .ok ([], s)
    else if c = 92 then
      match s with
      | [] => .error .overrun
      | e :: s => (jsonParseChars s).map fun r => (unescapeJson e :: r.1, r.2)
    else (jsonParseChars s).map fun r => (c :: r.1, r.2)

/-- `json_parse_string` -/
def jsonParseString : Bytes → JsonStep (Option Bytes)
  | [] => .ok (none, [])
  | c :: s => if c = 34 then (jsonParseChars s).map fun r => (some r.1, r.2) else .ok (none, c :: s)

/-- White space, and a separator wherever it stands. -/
def skipAnd (separator : UInt8) (s : Bytes) : Bytes := s.dropWhile fun c => isBlank c || decide (c = separator)

/-- The number of `json_parse_value`. -/
def jsonParseNumber (s : Bytes) : Int × Bytes :=
  let neg := s.head? = some 45
  let s := if neg then s.tail else s
  let n := (s.takeWhile isDigit).foldl addDigit 0
  (if neg then Int.bmod (-n) (2 ^ 64) else n, s.dropWhile isDigit)

/-- `attrset_bind` -/
def attrsetBindTree (entries : List (Bytes × Tree)) (key : Bytes) (value : Tree) : List (Bytes × Tree) :=
  match entries with
  | [] => [(key, value)]
  | entry :: entries =>
    if entry.1 = key then (key, value) :: entries else entry :: attrsetBindTree entries key value

mutual

/-- `json_parse_value` -/
def jsonParseValue : Nat → Bytes → JsonStep (Option Tree)
  | 0, _ => .error .fuel
  | fuel + 1, s =>
    match blanks s with
    | [] => .ok (none, [])
    | c :: t =>
      if c = 34 then (jsonParseString (c :: t)).map fun r => (r.1.map .string, r.2)
      else if c = 91 then (jsonParseItems fuel t).map fun r => (some (.list r.1), r.2)
      else if c = 123 then (jsonParseEntries fuel [] t).map fun r => (some (.attrSet r.1), r.2)
      else if (ascii "true").isPrefixOf (c :: t) then .ok (some (.bool true), (c :: t).drop 4)
      else if (ascii "false").isPrefixOf (c :: t) then .ok (some (.bool false), (c :: t).drop 5)
      else if (ascii "null").isPrefixOf (c :: t) then .ok (some .null, (c :: t).drop 4)
      else if c = 45 ∨ isDigit c = true then
        .ok (some (.int (jsonParseNumber (c :: t)).1), (jsonParseNumber (c :: t)).2)
      else .ok (none, c :: t)

/-- The loop over a list. -/
def jsonParseItems : Nat → Bytes → JsonStep (List Tree)
  | 0, _ => .error .fuel
  | fuel + 1, s =>
    if s = [] then .ok ([], [])
    else if (skipAnd 44 s).head? = some 93 then .ok ([], (skipAnd 44 s).tail)
    else match jsonParseValue fuel (skipAnd 44 s) with
      | .error e => .error e
      | .ok (none, s) => .ok ([], s)
      | .ok (some item, s) => (jsonParseItems fuel s).map fun r => (item :: r.1, r.2)

/-- The loop over an attribute set. -/
def jsonParseEntries : Nat → List (Bytes × Tree) → Bytes → JsonStep (List (Bytes × Tree))
  | 0, _, _ => .error .fuel
  | fuel + 1, entries, s =>
    if s = [] then .ok (entries, [])
    else if (skipAnd 44 s).head? = some 125 then .ok (entries, (skipAnd 44 s).tail)
    else match jsonParseString (skipAnd 44 s) with
      | .error e => .error e
      | .ok (none, s) => .ok (entries, s)
      | .ok (some key, s) =>
        match jsonParseValue fuel (skipAnd 58 s) with
        | .error e => .error e
        | .ok (none, s) => .ok (entries, s)
        | .ok (some value, s) => jsonParseEntries fuel (attrsetBindTree entries key value) s

end

/-- `builtin_from_json` of a string. Two rounds for each byte are as many as the recursion takes. -/
def builtinFromJson (text : Bytes) : JsonStep (Option Tree) := jsonParseValue (2 * (cstr text).length + 1) (cstr text)

/-! ### Progress -/

section
variable {c e : UInt8} {s r : Bytes} {fuel : Nat}

lemma jsonParseChars_quote (s : Bytes) : jsonParseChars (34 :: s) = .ok ([], s) := by
  cases s <;> rfl

lemma jsonParseChars_escape (e : UInt8) (s : Bytes) :
    jsonParseChars (92 :: e :: s) = (jsonParseChars s).map fun r => (unescapeJson e :: r.1, r.2) := rfl

lemma jsonParseChars_plain (h34 : c ≠ 34) (h92 : c ≠ 92) (s : Bytes) :
    jsonParseChars (c :: s) = (jsonParseChars s).map fun r => (c :: r.1, r.2) := by
  cases s with
  | nil =>
    show (if c = 34 then .ok ([], []) else if c = 92 then .error .overrun else
      (jsonParseChars []).map fun r => (c :: r.1, r.2)) = _
    rw [if_neg h34, if_neg h92]
  | cons e s => rw [jsonParseChars, if_neg h34, if_neg h92]

/-- A parser stays in the text, and it gets on where it has a result. -/
def Advances {α : Type} (found : α → Prop) (s : Bytes) : JsonStep α → Prop
  | .error .overrun => True
  | .error .fuel => False
  | .ok (a, r) => r <:+ s ∧ (found a → r.length < s.length)

lemma Advances.map {α β : Type} {found : α → Prop} {found' : β → Prop} {x : JsonStep α} (h : Advances found s x)
    (f : α → β) (hf : ∀ a, found' (f a) → found a) : Advances found' s (x.map fun r => (f r.1, r.2)) := by
  match x with
  | .error .overrun => trivial
  | .error .fuel => exact h
  | .ok (a, r) => exact ⟨h.1, fun hb => h.2 (hf a hb)⟩

lemma Advances.mono {α : Type} {found found' : α → Prop} {x : JsonStep α} (h : Advances found s x) {s' : Bytes}
    (hs : s <:+ s') (hfound : ∀ a, found' a → found a ∨ s.length < s'.length) : Advances found' s' x := by
  match x with
  | .error .overrun => trivial
  | .error .fuel => exact h
  | .ok (a, r) =>
    have hle := hs.length_le
    refine ⟨h.1.trans hs, fun ha => ?_⟩
    rcases hfound a ha with ha | hlt
    · have hlt := h.2 ha
      omega
    · have hle' := h.1.length_le
      omega

lemma suffix_tail (s : Bytes) : s.tail <:+ s := List.tail_suffix s

lemma skipAnd_suffix (separator : UInt8) (s : Bytes) : skipAnd separator s <:+ s := List.dropWhile_suffix _

lemma jsonParseChars_advances : ∀ s : Bytes, Advances (fun _ => False) s (jsonParseChars s)
  | [] => ⟨List.suffix_refl _, False.elim⟩
  | [c] => by
    rw [jsonParseChars]
    split_ifs
    · exact ⟨List.suffix_cons _ _, False.elim⟩
    · trivial
    · exact (jsonParseChars_advances []).mono (List.suffix_cons _ _) (fun _ => False.elim) |>.map (c :: ·) fun _ => id
  | c :: e :: s => by
    rw [jsonParseChars]
    split_ifs
    · exact ⟨List.suffix_cons _ _, False.elim⟩
    · exact ((jsonParseChars_advances s).mono ((List.suffix_cons _ _).trans (List.suffix_cons _ _))
        (fun _ => False.elim)).map (unescapeJson e :: ·) fun _ => id
    · exact ((jsonParseChars_advances (e :: s)).mono (List.suffix_cons _ _) (fun _ => False.elim)).map (c :: ·)
        fun _ => id

lemma jsonParseString_advances (s : Bytes) : Advances (·.isSome = true) s (jsonParseString s) := by
  cases s with
  | nil => exact ⟨List.suffix_refl _, fun h => by cases h⟩
  | cons c s =>
    rw [jsonParseString]
    split_ifs
    · exact ((jsonParseChars_advances s).mono (List.suffix_cons c s) (fun _ _ => .inr (Nat.lt_succ_self _)) :
        Advances (fun _ => True) _ _).map some fun _ _ => trivial
    · exact ⟨List.suffix_refl _, fun h => by cases h⟩

lemma jsonParseNumber_suffix (c : UInt8) (s : Bytes) (hc : c = 45 ∨ isDigit c = true) :
    (jsonParseNumber (c :: s)).2 <:+ s := by
  unfold jsonParseNumber
  by_cases h45 : c = 45
  · simp only [List.head?_cons, h45, if_true, List.tail_cons]
    exact List.dropWhile_suffix _
  · have hne : ¬ (c :: s).head? = some 45 := fun h => h45 (Option.some.inj h)
    have hdrop : (c :: s).dropWhile isDigit = s.dropWhile isDigit :=
      List.dropWhile_cons_of_pos (hc.resolve_left h45)
    simp only [if_neg hne, hdrop]
    exact List.dropWhile_suffix _

/-- **The parser gets on** with two rounds for each byte: it ends, and where it stays in the text it has taken some of
it for every value. -/
theorem jsonParse_advances (fuel : Nat) :
    (∀ s : Bytes, 2 * s.length + 1 ≤ fuel → Advances (·.isSome = true) s (jsonParseValue fuel s)) ∧
    (∀ s : Bytes, 2 * s.length + 2 ≤ fuel → Advances (fun _ => False) s (jsonParseItems fuel s)) ∧
    ∀ (entries : List (Bytes × Tree)) (s : Bytes), 2 * s.length + 2 ≤ fuel →
      Advances (fun _ => False) s (jsonParseEntries fuel entries s) := by
  induction fuel with
  | zero => exact ⟨fun s h => by omega, fun s h => by omega, fun entries s h => by omega⟩
  | succ fuel ih =>
    obtain ⟨ihValue, ihItems, ihEntries⟩ := ih
    refine ⟨fun s hfuel => ?_, fun s hfuel => ?_, fun entries s hfuel => ?_⟩
    · have hle := (JsonGrammar.blanks_suffix s).length_le
      rw [jsonParseValue]
      refine Advances.mono ?_ (JsonGrammar.blanks_suffix s) fun _ => .inl
      cases hblanks : blanks s with
      | nil => exact ⟨List.suffix_refl _, fun h => by cases h⟩
      | cons c t =>
        rw [hblanks, List.length_cons] at hle
        have hword : ∀ (v : Tree) n, 0 < n →
            Advances (·.isSome = true) (c :: t) (.ok (some v, (c :: t).drop n) : JsonStep (Option Tree)) := by
          intro v n hn
          refine ⟨List.drop_suffix _ _, fun _ => ?_⟩
          rw [List.length_drop, List.length_cons]
          omega
        dsimp only
        split_ifs with hquote hbracket hbrace htrue hfalse hnull hnumber
        · exact (jsonParseString_advances (c :: t)).map (Option.map Tree.string) fun a h => by
            rwa [Option.isSome_map] at h
        · exact ((ihItems t (by omega)).mono (List.suffix_cons c t) fun _ _ => .inr (Nat.lt_succ_self _) :
            Advances (fun _ => True) _ _).map (fun items => some (Tree.list items)) fun _ _ => trivial
        · exact ((ihEntries [] t (by omega)).mono (List.suffix_cons c t) fun _ _ => .inr (Nat.lt_succ_self _) :
            Advances (fun _ => True) _ _).map (fun entries => some (Tree.attrSet entries)) fun _ _ => trivial
        · exact hword _ _ (by omega)
        · exact hword _ _ (by omega)
        · exact hword _ _ (by omega)
        · have hsuffix := jsonParseNumber_suffix c t hnumber
          exact ⟨hsuffix.trans (List.suffix_cons c t), fun _ => Nat.lt_succ_of_le hsuffix.length_le⟩
        · exact ⟨List.suffix_refl _, fun h => by cases h⟩
    · rw [jsonParseItems]
      have hskip := skipAnd_suffix 44 s
      have hle := hskip.length_le
      split_ifs with hnil hclose
      · exact ⟨List.nil_suffix, False.elim⟩
      · exact ⟨(suffix_tail _).trans hskip, False.elim⟩
      · have hvalue := ihValue (skipAnd 44 s) (by omega)
        match jsonParseValue fuel (skipAnd 44 s), hvalue with
        | .error .overrun, _ => trivial
        | .ok (none, r), h => exact ⟨h.1.trans hskip, False.elim⟩
        | .ok (some v, r), h =>
          have hlt : r.length < (skipAnd 44 s).length := h.2 rfl
          exact ((ihItems r (by omega)).mono (h.1.trans hskip) fun _ => False.elim).map (v :: ·) fun _ => id
    · rw [jsonParseEntries]
      have hskip := skipAnd_suffix 44 s
      have hle := hskip.length_le
      split_ifs with hnil hclose
      · exact ⟨List.nil_suffix, False.elim⟩
      · exact ⟨(suffix_tail _).trans hskip, False.elim⟩
      · have hkey := jsonParseString_advances (skipAnd 44 s)
        match jsonParseString (skipAnd 44 s), hkey with
        | .error .overrun, _ => trivial
        | .ok (none, r), h => exact ⟨h.1.trans hskip, False.elim⟩
        | .ok (some key, r), h =>
          have hlt : r.length < (skipAnd 44 s).length := h.2 rfl
          have hskip' := skipAnd_suffix 58 r
          have hle' := hskip'.length_le
          have hvalue := ihValue (skipAnd 58 r) (by omega)
          dsimp only
          match jsonParseValue fuel (skipAnd 58 r), hvalue with
          | .error .overrun, _ => trivial
          | .ok (none, r'), h' => exact ⟨h'.1.trans (hskip'.trans (h.1.trans hskip)), False.elim⟩
          | .ok (some v, r'), h' =>
            have hlt' : r'.length < (skipAnd 58 r).length := h'.2 rfl
            exact (ihEntries _ r' (by omega)).mono (h'.1.trans (hskip'.trans (h.1.trans hskip))) fun _ => False.elim

/-! ### What is made of what -/

/-- A value is made of what stands at the front, if it is one, with `r` left. -/
def ValueAt (s : Bytes) (v : Option Tree) (r : Bytes) : Prop :=
  ∀ fuel, 2 * s.length + 1 ≤ fuel → jsonParseValue fuel s = .ok (v, r)

def ItemsAt (s : Bytes) (items : List Tree) (r : Bytes) : Prop :=
  ∀ fuel, 2 * s.length + 2 ≤ fuel → jsonParseItems fuel s = .ok (items, r)

def EntriesAt (entries : List (Bytes × Tree)) (s : Bytes) (entries' : List (Bytes × Tree)) (r : Bytes) : Prop :=
  ∀ fuel, 2 * s.length + 2 ≤ fuel → jsonParseEntries fuel entries s = .ok (entries', r)

variable {s' r' : Bytes} {v : Option Tree} {item value : Tree} {items : List Tree}
  {entries entries' : List (Bytes × Tree)} {key : Bytes}

lemma ValueAt.advances (h : ValueAt s v r) : r <:+ s ∧ (v.isSome = true → r.length < s.length) := by
  have hadv := (jsonParse_advances (2 * s.length + 1)).1 s le_rfl
  rw [h _ le_rfl] at hadv
  exact hadv

/-- White space in front of a value is skipped. -/
lemma ValueAt.of_blanks (h : ValueAt (blanks s) v r) : ValueAt s v r := by
  intro fuel hfuel
  have hle := (JsonGrammar.blanks_suffix s).length_le
  obtain ⟨fuel, rfl⟩ := Nat.exists_eq_add_of_le' (show 1 ≤ fuel by omega)
  have hfront := h (fuel + 1) (by omega)
  rw [jsonParseValue, JsonGrammar.blanks_blanks] at hfront
  rw [jsonParseValue]
  exact hfront

/-- The round in front of a value. -/
lemma valueAt_of {t : Bytes} (hc : isBlank c = false) (h : ∀ fuel, 2 * t.length + 2 ≤ fuel →
    (if c = 34 then (jsonParseString (c :: t)).map fun r => (r.1.map .string, r.2)
      else if c = 91 then (jsonParseItems fuel t).map fun r => (some (.list r.1), r.2)
      else if c = 123 then (jsonParseEntries fuel [] t).map fun r => (some (.attrSet r.1), r.2)
      else if (ascii "true").isPrefixOf (c :: t) then .ok (some (.bool true), (c :: t).drop 4)
      else if (ascii "false").isPrefixOf (c :: t) then .ok (some (.bool false), (c :: t).drop 5)
      else if (ascii "null").isPrefixOf (c :: t) then .ok (some .null, (c :: t).drop 4)
      else if c = 45 ∨ isDigit c = true then
        .ok (some (.int (jsonParseNumber (c :: t)).1), (jsonParseNumber (c :: t)).2)
      else .ok (none, c :: t)) = (.ok (v, r) : JsonStep (Option Tree))) : ValueAt (c :: t) v r := by
  intro fuel hfuel
  rw [List.length_cons] at hfuel
  obtain ⟨fuel, rfl⟩ := Nat.exists_eq_add_of_le' (show 1 ≤ fuel by omega)
  rw [jsonParseValue, JsonGrammar.blanks_of_not hc]
  exact h fuel (by omega)

lemma ValueAt.string {str : Bytes} (h : jsonParseChars s = .ok (str, r)) : ValueAt (34 :: s) (some (.string str)) r := by
  refine valueAt_of (by decide) fun fuel _ => ?_
  rw [if_pos rfl, jsonParseString, if_pos rfl, h]
  rfl

lemma ValueAt.list (h : ItemsAt s items r) : ValueAt (91 :: s) (some (.list items)) r := by
  refine valueAt_of (by decide) fun fuel hfuel => ?_
  rw [if_neg (by decide), if_pos rfl, h fuel hfuel]
  rfl

lemma ValueAt.attrSet (h : EntriesAt [] s entries r) : ValueAt (123 :: s) (some (.attrSet entries)) r := by
  refine valueAt_of (by decide) fun fuel hfuel => ?_
  rw [if_neg (by decide), if_neg (by decide), if_pos rfl, h fuel hfuel]
  rfl

lemma valueAt_true (r : Bytes) : ValueAt (ascii "true" ++ r) (some (.bool true)) r :=
  valueAt_of (by decide) fun _ _ => rfl

lemma valueAt_false (r : Bytes) : ValueAt (ascii "false" ++ r) (some (.bool false)) r :=
  valueAt_of (by decide) fun _ _ => rfl

lemma valueAt_null (r : Bytes) : ValueAt (ascii "null" ++ r) (some .null) r :=
  valueAt_of (by decide) fun _ _ => rfl

/-- None of the quotes, brackets and words in front. -/
lemma not_word (h : c ∉ ascii "\"[\x7btfn") (t : Bytes) : c ≠ 34 ∧ c ≠ 91 ∧ c ≠ 123 ∧
    (ascii "true").isPrefixOf (c :: t) = false ∧ (ascii "false").isPrefixOf (c :: t) = false ∧
      (ascii "null").isPrefixOf (c :: t) = false := by
  have hne : ∀ d ∈ ascii "\"[\x7btfn", c ≠ d := by
    rintro d hd rfl
    exact h hd
  have hword : ∀ d w, d ∈ ascii "\"[\x7btfn" → (d :: w).isPrefixOf (c :: t) = false := by
    intro d w hd
    rw [List.isPrefixOf, beq_eq_false_iff_ne.2 (hne d hd).symm, Bool.false_and]
  exact ⟨hne 34 (by decide), hne 91 (by decide), hne 123 (by decide), hword 116 _ (by decide), hword 102 _ (by decide),
    hword 110 _ (by decide)⟩

lemma ValueAt.number (hc : c = 45 ∨ isDigit c = true) (t : Bytes) :
    ValueAt (c :: t) (some (.int (jsonParseNumber (c :: t)).1)) (jsonParseNumber (c :: t)).2 := by
  have hword : c ∉ ascii "\"[\x7btfn" := by
    have hall : ∀ d ∈ ascii "\"[\x7btfn", d ≠ 45 ∧ isDigit d = false := by decide +kernel
    intro hmem
    obtain ⟨h45, hdigit⟩ := hall c hmem
    rcases hc with rfl | hc
    · exact h45 rfl
    · rw [hdigit] at hc
      cases hc
  have hblank : isBlank c = false := by
    rcases hc with rfl | hc
    · decide
    · exact JsonGrammar.not_blank_of_digit hc
  obtain ⟨h34, h91, h123, htrue, hfalse, hnull⟩ := not_word hword t
  refine valueAt_of hblank fun fuel _ => ?_
  rw [if_neg h34, if_neg h91, if_neg h123, htrue, hfalse, hnull, if_neg Bool.false_ne_true, if_neg Bool.false_ne_true,
    if_neg Bool.false_ne_true, if_pos hc]

/-- There is no value in front of anything else. -/
lemma ValueAt.none (hblank : isBlank c = false) (hword : c ∉ ascii "\"[\x7btfn")
    (hc : ¬ (c = 45 ∨ isDigit c = true)) (t : Bytes) : ValueAt (c :: t) none (c :: t) := by
  obtain ⟨h34, h91, h123, htrue, hfalse, hnull⟩ := not_word hword t
  refine valueAt_of hblank fun fuel _ => ?_
  rw [if_neg h34, if_neg h91, if_neg h123, htrue, hfalse, hnull, if_neg Bool.false_ne_true, if_neg Bool.false_ne_true,
    if_neg Bool.false_ne_true, if_neg hc]

lemma valueAt_nil : ValueAt [] none [] := by
  intro fuel hfuel
  obtain ⟨fuel, rfl⟩ := Nat.exists_eq_add_of_le' (show 1 ≤ fuel by omega)
  rfl

lemma ValueAt.ne_nil (h : ValueAt s (some value) r) : s ≠ [] := by
  rintro rfl
  have hsame := (valueAt_nil 1 le_rfl).symm.trans (h 1 le_rfl)
  cases hsame

lemma ItemsAt.close (h : skipAnd 44 s = 93 :: r) : ItemsAt s [] r := by
  intro fuel hfuel
  obtain ⟨fuel, rfl⟩ := Nat.exists_eq_add_of_le' (show 1 ≤ fuel by omega)
  have hne : s ≠ [] := by
    rintro rfl
    cases h
  rw [jsonParseItems, if_neg hne, h, List.head?_cons, if_pos rfl]
  rfl

lemma skipAnd_length_le (separator : UInt8) (s : Bytes) : (skipAnd separator s).length ≤ s.length :=
  (skipAnd_suffix separator s).length_le

lemma ItemsAt.cons (hs : skipAnd 44 s = s') (hne : s'.head? ≠ some 93) (h : ValueAt s' (some item) r)
    (hr : ItemsAt r items r') : ItemsAt s (item :: items) r' := by
  intro fuel hfuel
  obtain ⟨fuel, rfl⟩ := Nat.exists_eq_add_of_le' (show 1 ≤ fuel by omega)
  have hle := skipAnd_length_le 44 s
  have hlt := h.advances.2 rfl
  have hnil : s ≠ [] := by
    rintro rfl
    exact h.ne_nil hs.symm
  rw [hs] at hle
  rw [jsonParseItems, if_neg hnil, hs, if_neg hne, h fuel (by omega)]
  dsimp only
  rw [hr fuel (by omega)]
  rfl

lemma ItemsAt.stop (hs : skipAnd 44 s = s') (hne : s'.head? ≠ some 93) (hnil : s ≠ []) (h : ValueAt s' none r) :
    ItemsAt s [] r := by
  intro fuel hfuel
  obtain ⟨fuel, rfl⟩ := Nat.exists_eq_add_of_le' (show 1 ≤ fuel by omega)
  have hle := skipAnd_length_le 44 s
  rw [hs] at hle
  rw [jsonParseItems, if_neg hnil, hs, if_neg hne, h fuel (by omega)]

/-- What the loop skips in front makes no difference. -/
lemma ItemsAt.skip (h : ItemsAt s items r) (hs : skipAnd 44 s' = skipAnd 44 s) (hnil : s ≠ [])
    (hle : s.length ≤ s'.length) : ItemsAt s' items r := by
  intro fuel hfuel
  obtain ⟨fuel, rfl⟩ := Nat.exists_eq_add_of_le' (show 1 ≤ fuel by omega)
  have hnil' : s' ≠ [] := by
    rintro rfl
    exact hnil (List.eq_nil_of_length_eq_zero (Nat.le_zero.1 hle))
  have hloop := h (fuel + 1) (by omega)
  rw [jsonParseItems, if_neg hnil] at hloop
  rw [jsonParseItems, if_neg hnil', hs, hloop]

lemma EntriesAt.close (h : skipAnd 44 s = 125 :: r) : EntriesAt entries s entries r := by
  intro fuel hfuel
  obtain ⟨fuel, rfl⟩ := Nat.exists_eq_add_of_le' (show 1 ≤ fuel by omega)
  have hne : s ≠ [] := by
    rintro rfl
    cases h
  rw [jsonParseEntries, if_neg hne, h, List.head?_cons, if_pos rfl]
  rfl

lemma EntriesAt.cons {s₁ : Bytes} (hs : skipAnd 44 s = 34 :: s') (hkey : jsonParseChars s' = .ok (key, s₁))
    (h : ValueAt (skipAnd 58 s₁) (some value) r) (hr : EntriesAt (attrsetBindTree entries key value) r entries' r') :
    EntriesAt entries s entries' r' := by
  intro fuel hfuel
  obtain ⟨fuel, rfl⟩ := Nat.exists_eq_add_of_le' (show 1 ≤ fuel by omega)
  have hle := skipAnd_length_le 44 s
  have hle' := skipAnd_length_le 58 s₁
  have hlt := h.advances.2 rfl
  have hchars := jsonParseChars_advances s'
  rw [hkey] at hchars
  have hle₁ := hchars.1.length_le
  have hnil : s ≠ [] := by
    rintro rfl
    cases hs
  rw [hs, List.length_cons] at hle
  rw [jsonParseEntries, if_neg hnil, hs, if_neg (by simp), jsonParseString, if_pos rfl, hkey]
  rw [Except.map]
  dsimp only
  rw [h fuel (by omega)]
  exact hr fuel (by omega)

lemma EntriesAt.stop (hs : skipAnd 44 s = c :: s') (hc : c ≠ 125) (h34 : c ≠ 34) :
    EntriesAt entries s entries (c :: s') := by
  intro fuel hfuel
  obtain ⟨fuel, rfl⟩ := Nat.exists_eq_add_of_le' (show 1 ≤ fuel by omega)
  have hnil : s ≠ [] := by
    rintro rfl
    cases hs
  have hclose : ¬ (c :: s').head? = some 125 := fun h => hc (Option.some.inj h)
  rw [jsonParseEntries, if_neg hnil, hs, if_neg hclose, jsonParseString, if_neg h34]

lemma EntriesAt.skip (h : EntriesAt entries s entries' r) (hs : skipAnd 44 s' = skipAnd 44 s) (hnil : s ≠ [])
    (hle : s.length ≤ s'.length) : EntriesAt entries s' entries' r := by
  intro fuel hfuel
  obtain ⟨fuel, rfl⟩ := Nat.exists_eq_add_of_le' (show 1 ≤ fuel by omega)
  have hnil' : s' ≠ [] := by
    rintro rfl
    exact hnil (List.eq_nil_of_length_eq_zero (Nat.le_zero.1 hle))
  have hloop := h (fuel + 1) (by omega)
  rw [jsonParseEntries, if_neg hnil] at hloop
  rw [jsonParseEntries, if_neg hnil', hs, hloop]

end

end Two09.Nix
