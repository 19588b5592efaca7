import Two09.Nix.JsonBounds
import Two09.Nix.Lexing

/-!
# `fromJSON` of `toJSON`

What `builtin_from_json` makes of the text of a value, and which values it gives back.
-/

namespace Two09.Nix

open Two09.Lib
open JsonGrammar (blanks isBlank Chars Digits Whole Fraction Exponent Unsigned Number Value Elements Members Document)

/-! ### What is read where a value was written -/

/-- A fully evaluated value: null, booleans, integers of 64 bits, C strings, lists, and attribute sets with distinct
names. -/
inductive Data : Tree → Prop
  | null : Data .null
  | bool (b : Bool) : Data (.bool b)
  | int {n : Int} (hle : -2 ^ 63 ≤ n) (hlt : n < 2 ^ 63) : Data (.int n)
  | string {s : Bytes} (hs : (0 : UInt8) ∉ s) : Data (.string s)
  | list {items : List Tree} (hitems : ∀ v ∈ items, Data v) : Data (.list items)
  | attrSet {entries : List (Bytes × Tree)} (hkeys : (entries.map Prod.fst).Nodup)
    (hnames : ∀ e ∈ entries, (0 : UInt8) ∉ e.1) (hvalues : ∀ e ∈ entries, Data e.2) : Data (.attrSet entries)

/-- What is read where a character was escaped. -/
def decodeChar (c : UInt8) : Bytes :=
  if c = 8 then [98]
  else if c = 12 then [102]
  else if 32 ≤ c ∨ c = 9 ∨ c = 10 ∨ c = 13 then [c]
  else [117, 48, 48, hexChar (c.toNat / 16), hexChar (c.toNat % 16)]

def decodeString (s : Bytes) : Bytes := s.flatMap decodeChar

mutual

/-- What is read where a value was written. -/
def decode : Tree → Tree
  | .string s => .string (decodeString s)
  | .list items => .list (decodeItems items)
  | .attrSet entries => .attrSet (decodeEntries [] entries)
  | v => v

def decodeItems : List Tree → List Tree
  | [] => []
  | item :: items => decode item :: decodeItems items

def decodeEntries (bound : List (Bytes × Tree)) : List (Bytes × Tree) → List (Bytes × Tree)
  | [] => bound
  | (key, value) :: entries => decodeEntries (attrsetBindTree bound (decodeString key) (decode value)) entries

end

section
variable {c : UInt8} {s r rest : Bytes} {indent : Nat} {v w : Tree} {items : List Tree}
  {entries : List (Bytes × Tree)}

/-! ### Strings -/

lemma hexChar_ne : ∀ n < 16, hexChar n ≠ 34 ∧ hexChar n ≠ 92 := by decide

/-- One character is one round of the loop, or five. -/
lemma jsonParseChars_escapeChar (c : UInt8) (s : Bytes) :
    jsonParseChars (escapeChar c ++ s) = (jsonParseChars s).map fun r => (decodeChar c ++ r.1, r.2) := by
  have hescape : ∀ e, e ≠ 117 → escapeChar c = [92, e] → decodeChar c = [unescapeJson e] →
      jsonParseChars (escapeChar c ++ s) = (jsonParseChars s).map fun r => (decodeChar c ++ r.1, r.2) := by
    intro e _ hesc hdec
    rw [hesc, hdec]
    exact jsonParseChars_escape e s
  by_cases h34 : c = 34
  · exact hescape 34 (by decide) (by rw [h34]; decide) (by rw [h34]; decide)
  by_cases h92 : c = 92
  · exact hescape 92 (by decide) (by rw [h92]; decide) (by rw [h92]; decide)
  by_cases h10 : c = 10
  · exact hescape 110 (by decide) (by rw [h10]; decide) (by rw [h10]; decide)
  by_cases h13 : c = 13
  · exact hescape 114 (by decide) (by rw [h13]; decide) (by rw [h13]; decide)
  by_cases h9 : c = 9
  · exact hescape 116 (by decide) (by rw [h9]; decide) (by rw [h9]; decide)
  by_cases h8 : c = 8
  · exact hescape 98 (by decide) (by rw [h8]; decide) (by rw [h8]; decide)
  by_cases h12 : c = 12
  · exact hescape 102 (by decide) (by rw [h12]; decide) (by rw [h12]; decide)
  unfold escapeChar decodeChar
  rw [if_neg h34, if_neg h92, if_neg h10, if_neg h13, if_neg h9, if_neg h8, if_neg h12, if_neg h8, if_neg h12]
  by_cases h32 : c < 32
  · have hkept : ¬ (32 ≤ c ∨ c = 9 ∨ c = 10 ∨ c = 13) := by
      rintro (h | h | h | h)
      · exact absurd h32 (UInt8.not_lt.2 h)
      · exact h9 h
      · exact h10 h
      · exact h13 h
    have hlt : c.toNat < 32 := UInt8.lt_iff_toNat_lt.1 h32
    obtain ⟨hhigh, hhigh'⟩ := hexChar_ne (c.toNat / 16) (by omega)
    obtain ⟨hlow, hlow'⟩ := hexChar_ne (c.toNat % 16) (by omega)
    rw [if_pos h32, if_neg hkept]
    simp only [List.cons_append, List.nil_append]
    rw [jsonParseChars_escape, jsonParseChars_plain (by decide) (by decide), jsonParseChars_plain (by decide) (by decide),
      jsonParseChars_plain hhigh hhigh', jsonParseChars_plain hlow hlow']
    cases jsonParseChars s <;> rfl
  · rw [if_neg h32, if_pos (.inl (UInt8.not_lt.1 h32))]
    exact jsonParseChars_plain h34 h92 s

lemma jsonParseChars_flatMap (s rest : Bytes) :
    jsonParseChars (s.flatMap escapeChar ++ 34 :: rest) = .ok (decodeString s, rest) := by
  induction s with
  | nil => exact jsonParseChars_quote rest
  | cons c s ih =>
    rw [List.flatMap_cons, List.append_assoc, jsonParseChars_escapeChar, ih]
    rfl

lemma jsonEscapeString_append (hs : (0 : UInt8) ∉ s) (rest : Bytes) :
    jsonEscapeString s ++ rest = 34 :: (s.flatMap escapeChar ++ 34 :: rest) := by
  unfold jsonEscapeString
  rw [cstr_eq_self hs]
  simp

/-! ### Numbers -/

lemma noDigit_cons (h : isDigit c = false) (s : Bytes) : NoDigit (c :: s) := by
  rintro d hd
  obtain rfl := Option.some.inj hd
  exact h

lemma decimal_noDigit (h : NoDigit rest) (n : Nat) :
    (decimal n ++ rest).takeWhile isDigit = decimal n ∧ (decimal n ++ rest).dropWhile isDigit = rest := by
  have hdigits : ∀ c ∈ decimal n, isDigit c = true := fun c hc => decide_eq_true (digit_of_mem_decimal hc)
  have htake : rest.takeWhile isDigit = [] := by
    cases rest with
    | nil => rfl
    | cons c s => exact List.takeWhile_cons_of_neg (by rw [h c rfl]; decide)
  rw [List.takeWhile_append_of_pos hdigits, List.dropWhile_append_of_pos hdigits, htake, h.dropWhile, List.append_nil]
  exact ⟨rfl, rfl⟩

lemma jsonParseNumber_neg (s : Bytes) : jsonParseNumber (45 :: s) =
    (Int.bmod (-(s.takeWhile isDigit).foldl addDigit 0) (2 ^ 64), s.dropWhile isDigit) := rfl

lemma jsonParseNumber_nonneg (h : s.head? ≠ some 45) :
    jsonParseNumber s = ((s.takeWhile isDigit).foldl addDigit 0, s.dropWhile isDigit) := by
  unfold jsonParseNumber
  simp only [if_neg h]

/-- **A number is read back**, the least one by an overflow. -/
lemma jsonParseNumber_signedDecimal {n : Int} (hle : -2 ^ 63 ≤ n) (hlt : n < 2 ^ 63) (h : NoDigit rest) :
    jsonParseNumber (signedDecimal n ++ rest) = (n, rest) := by
  obtain ⟨htake, hdrop⟩ := decimal_noDigit h n.natAbs
  by_cases hneg : n < 0
  · have htext : signedDecimal n = 45 :: decimal n.natAbs := if_pos hneg
    rw [htext, List.cons_append, jsonParseNumber_neg, htake, hdrop, foldl_addDigit_eq]
    have hbmod : Int.bmod (-Int.bmod (n.natAbs : Int) (2 ^ 64)) (2 ^ 64) = n := by
      rw [Int.bmod_neg_bmod, show -((n.natAbs : Nat) : Int) = n by omega]
      exact Int.bmod_eq_of_le (by omega) (by omega)
    rw [hbmod]
  · have htext : signedDecimal n = decimal n.natAbs := if_neg hneg
    have hhead : (decimal n.natAbs ++ rest).head? ≠ some 45 := by
      obtain ⟨d, t, hdt⟩ := List.exists_cons_of_ne_nil (decimal_ne_nil n.natAbs)
      have hdigit := digit_of_mem_decimal (hdt ▸ List.mem_cons_self : d ∈ decimal n.natAbs)
      rw [hdt]
      intro heq
      obtain rfl : d = 45 := Option.some.inj heq
      exact absurd hdigit.1 (by decide)
    rw [htext, jsonParseNumber_nonneg hhead, htake, hdrop, foldl_addDigit_eq,
      show ((n.natAbs : Nat) : Int) = n by omega, Int.bmod_eq_of_le (by omega) (by omega)]

lemma signedDecimal_front (n : Int) : ∃ c t, signedDecimal n = c :: t ∧ (c = 45 ∨ isDigit c = true) := by
  unfold signedDecimal
  split_ifs
  · exact ⟨45, _, rfl, .inl rfl⟩
  · obtain ⟨d, t, hdt⟩ := List.exists_cons_of_ne_nil (decimal_ne_nil n.natAbs)
    exact ⟨d, t, hdt, .inr (decide_eq_true (digit_of_mem_decimal (hdt ▸ List.mem_cons_self : d ∈ decimal n.natAbs)))⟩

/-! ### Values -/

lemma serialize_front (h : Data v) (indent : Nat) :
    ∃ c t, jsonSerialize indent v = c :: t ∧ JsonGrammar.startsValue c = true := by
  cases h with
  | null => exact ⟨110, _, rfl, by decide⟩
  | bool b =>
    cases b with
    | false => exact ⟨102, _, rfl, by decide⟩
    | true => exact ⟨116, _, rfl, by decide⟩
  | @int n hle hlt =>
    obtain ⟨c, t, hct, hc⟩ := signedDecimal_front n
    refine ⟨c, t, hct, ?_⟩
    rcases hc with rfl | hc
    · decide
    · exact JsonGrammar.startsValue_of_digit hc
  | string hs => exact ⟨34, _, rfl, by decide⟩
  | @list items hitems => cases items <;> exact ⟨91, _, rfl, by decide⟩
  | @attrSet entries hkeys hnames hvalues => cases entries <;> exact ⟨123, _, rfl, by decide⟩

lemma skipAnd_append {ws : Bytes} (h : ∀ c ∈ ws, isBlank c = true) (separator : UInt8) (s : Bytes) :
    skipAnd separator (ws ++ s) = skipAnd separator s :=
  List.dropWhile_append_of_pos fun c hc => by rw [h c hc, Bool.true_or]

lemma isBlank_of_indent (n : Nat) : ∀ c ∈ jsonIndent n, isBlank c = true := by
  intro c hc
  rw [List.eq_of_mem_replicate hc]
  decide

/-- What stands behind an item. -/
def behind (last : Bool) (s : Bytes) : Bytes := (if last then [] else [44]) ++ 10 :: s

lemma noDigit_behind (last : Bool) (s : Bytes) : NoDigit (behind last s) := by
  cases last <;> exact noDigit_cons (by decide) _

lemma skipAnd_behind (last : Bool) (s : Bytes) : skipAnd 44 (behind last s) = skipAnd 44 s := by
  cases last <;> rfl

lemma length_behind (last : Bool) (s : Bytes) : s.length ≤ (behind last s).length := by
  unfold behind
  rw [List.length_append, List.length_cons]
  omega

/-- The items of a list, up to and past its bracket. -/
def itemsText (indent : Nat) (items : List Tree) (rest : Bytes) : Bytes :=
  jsonItems indent items ++ (jsonIndent indent ++ 93 :: rest)

lemma itemsText_cons (indent : Nat) (v : Tree) (items : List Tree) (rest : Bytes) :
    itemsText indent (v :: items) rest = jsonIndent (indent + 2) ++
      (jsonSerialize (indent + 2) v ++ behind items.isEmpty (itemsText indent items rest)) := by
  unfold itemsText behind
  rw [jsonItems]
  simp only [List.append_assoc, List.cons_append]

lemma itemsText_ne_nil (indent : Nat) (items : List Tree) (rest : Bytes) : itemsText indent items rest ≠ [] := by
  simp [itemsText]

/-- The entries of an attribute set, up to and past its brace. -/
def entriesText (indent : Nat) (entries : List (Bytes × Tree)) (rest : Bytes) : Bytes :=
  jsonEntries indent entries ++ (jsonIndent indent ++ 125 :: rest)

lemma entriesText_cons (indent : Nat) (key : Bytes) (v : Tree) (entries : List (Bytes × Tree)) (rest : Bytes) :
    entriesText indent ((key, v) :: entries) rest = jsonIndent (indent + 2) ++ (jsonEscapeString key ++
      (58 :: 32 :: (jsonSerialize (indent + 2) v ++ behind entries.isEmpty (entriesText indent entries rest)))) := by
  unfold entriesText behind
  rw [jsonEntries]
  simp [ascii]

lemma entriesText_ne_nil (indent : Nat) (entries : List (Bytes × Tree)) (rest : Bytes) :
    entriesText indent entries rest ≠ [] := by
  simp [entriesText]

lemma serialize_list (indent : Nat) (v : Tree) (items : List Tree) (rest : Bytes) :
    jsonSerialize indent (.list (v :: items)) ++ rest = 91 :: 10 :: itemsText indent (v :: items) rest := by
  unfold itemsText
  rw [jsonSerialize]
  simp [ascii]

lemma serialize_attrSet (indent : Nat) (e : Bytes × Tree) (entries : List (Bytes × Tree)) (rest : Bytes) :
    jsonSerialize indent (.attrSet (e :: entries)) ++ rest = 123 :: 10 :: entriesText indent (e :: entries) rest := by
  unfold entriesText
  rw [jsonSerialize]
  simp [ascii]

/-- The text of a value is parsed to what is read there. -/
def Serialized (v : Tree) : Prop :=
  ∀ indent rest, NoDigit rest → ValueAt (jsonSerialize indent v ++ rest) (some (decode v)) rest

lemma items_serialized (hdata : ∀ v ∈ items, Data v) (h : ∀ v ∈ items, Serialized v) (indent : Nat) (rest : Bytes) :
    ItemsAt (itemsText indent items rest) (decodeItems items) rest := by
  induction items with
  | nil =>
    refine .close ?_
    show skipAnd 44 (jsonIndent indent ++ 93 :: rest) = 93 :: rest
    rw [skipAnd_append (isBlank_of_indent indent), skipAnd_cons (by decide) (by decide)]
  | cons v items ih =>
    obtain ⟨hv, hitems⟩ := List.forall_mem_cons.1 h
    obtain ⟨hdv, hditems⟩ := List.forall_mem_cons.1 hdata
    obtain ⟨c, t, hfront, hc⟩ := serialize_front hdv (indent + 2)
    obtain ⟨hcomma, -, hbracket, -, hblank⟩ := starts_ne hc
    rw [itemsText_cons]
    have hskip : skipAnd 44 (jsonIndent (indent + 2) ++ (jsonSerialize (indent + 2) v ++
        behind items.isEmpty (itemsText indent items rest))) =
          jsonSerialize (indent + 2) v ++ behind items.isEmpty (itemsText indent items rest) := by
      rw [skipAnd_append (isBlank_of_indent _), hfront, List.cons_append, skipAnd_cons hblank hcomma]
    have hhead : (jsonSerialize (indent + 2) v ++ behind items.isEmpty (itemsText indent items rest)).head? ≠
        some 93 := by
      rw [hfront]
      exact fun h => hbracket (Option.some.inj h)
    exact .cons hskip hhead (hv _ _ (noDigit_behind _ _))
      ((ih hditems hitems).skip (skipAnd_behind _ _) (itemsText_ne_nil _ _ _) (length_behind _ _))

lemma entries_serialized (hnames : ∀ e ∈ entries, (0 : UInt8) ∉ e.1) (hdata : ∀ e ∈ entries, Data e.2)
    (h : ∀ e ∈ entries, Serialized e.2) (indent : Nat) (rest : Bytes) (bound : List (Bytes × Tree)) :
    EntriesAt bound (entriesText indent entries rest) (decodeEntries bound entries) rest := by
  induction entries generalizing bound with
  | nil =>
    refine .close ?_
    show skipAnd 44 (jsonIndent indent ++ 125 :: rest) = 125 :: rest
    rw [skipAnd_append (isBlank_of_indent indent), skipAnd_cons (by decide) (by decide)]
  | cons e entries ih =>
    obtain ⟨key, v⟩ := e
    obtain ⟨hv, hentries⟩ := List.forall_mem_cons.1 h
    obtain ⟨hdv, hdentries⟩ := List.forall_mem_cons.1 hdata
    obtain ⟨hkey, hkeys⟩ := List.forall_mem_cons.1 hnames
    obtain ⟨c, t, hfront, hc⟩ := serialize_front hdv (indent + 2)
    obtain ⟨-, hcolon, -, -, hblank⟩ := starts_ne hc
    rw [entriesText_cons, jsonEscapeString_append hkey]
    have hskip : ∀ s, skipAnd 44 (jsonIndent (indent + 2) ++ 34 :: s) = 34 :: s := by
      intro s
      rw [skipAnd_append (isBlank_of_indent _), skipAnd_cons (by decide) (by decide)]
    have hpast : ∀ s, skipAnd 58 (58 :: 32 :: (jsonSerialize (indent + 2) v ++ s)) =
        jsonSerialize (indent + 2) v ++ s := by
      intro s
      rw [skipAnd_separator, hfront]
      exact skipAnd_of_blanks (JsonGrammar.blanks_of_not hblank _) hcolon
    have hvalue := hv (indent + 2) (behind entries.isEmpty (entriesText indent entries rest)) (noDigit_behind _ _)
    rw [← hpast] at hvalue
    exact .cons (hskip _) (jsonParseChars_flatMap key _) hvalue
      ((ih hkeys hdentries hentries _).skip (skipAnd_behind _ _) (entriesText_ne_nil _ _ _) (length_behind _ _))

/-- **The text of a value is parsed**, and nothing behind it. -/
theorem serialized (h : Data v) : Serialized v := by
  induction h with
  | null => exact fun _ rest _ => valueAt_null rest
  | bool b =>
    intro _ rest _
    cases b with
    | false => exact valueAt_false rest
    | true => exact valueAt_true rest
  | @int n hle hlt =>
    intro indent rest hrest
    obtain ⟨c, t, hct, hc⟩ := signedDecimal_front n
    have hvalue := ValueAt.number hc (t ++ rest)
    have hnumber := jsonParseNumber_signedDecimal hle hlt hrest
    rw [hct, List.cons_append] at hnumber
    rw [hnumber] at hvalue
    show ValueAt (signedDecimal n ++ rest) (some (.int n)) rest
    rw [hct]
    exact hvalue
  | @string s hs =>
    intro indent rest _
    show ValueAt (jsonEscapeString s ++ rest) (some (.string (decodeString s))) rest
    rw [jsonEscapeString_append hs]
    exact .string (jsonParseChars_flatMap s rest)
  | @list items hitems ih =>
    intro indent rest _
    cases items with
    | nil => exact .list (.close rfl)
    | cons v items =>
      rw [serialize_list]
      exact .list ((items_serialized hitems ih indent rest).skip rfl (itemsText_ne_nil _ _ _) (Nat.le_succ _))
  | @attrSet entries hkeys hnames hvalues ih =>
    intro indent rest _
    cases entries with
    | nil => exact .attrSet (.close rfl)
    | cons e entries =>
      rw [serialize_attrSet]
      exact .attrSet ((entries_serialized hnames hvalues ih indent rest []).skip rfl (entriesText_ne_nil _ _ _)
        (Nat.le_succ _))

/-! ### What is read back -/

/-- The characters that are read back: all but most control characters. -/
def survives (c : UInt8) : Prop := 32 ≤ c ∨ c = 9 ∨ c = 10 ∨ c = 13

mutual

/-- Every character of every string and name is read back. -/
def Tree.Survives : Tree → Prop
  | .string s => ∀ c ∈ s, survives c
  | .list items => Tree.SurvivesItems items
  | .attrSet entries => Tree.SurvivesEntries entries
  | _ => True

def Tree.SurvivesItems : List Tree → Prop
  | [] => True
  | item :: items => item.Survives ∧ Tree.SurvivesItems items

def Tree.SurvivesEntries : List (Bytes × Tree) → Prop
  | [] => True
  | (key, value) :: entries => (∀ c ∈ key, survives c) ∧ value.Survives ∧ Tree.SurvivesEntries entries

end

lemma decodeChar_eq_iff (c : UInt8) : decodeChar c = [c] ↔ survives c := by
  unfold decodeChar survives
  split_ifs with h8 h12 hkept
  · rw [h8]
    decide
  · rw [h12]
    decide
  · exact iff_of_true rfl hkept
  · exact iff_of_false (by simp) hkept

lemma length_decodeChar (c : UInt8) : 1 ≤ (decodeChar c).length := by
  unfold decodeChar
  split_ifs <;> simp

lemma length_decodeString (s : Bytes) : s.length ≤ (decodeString s).length := by
  unfold decodeString
  induction s with
  | nil => exact le_rfl
  | cons c s ih =>
    have hc := length_decodeChar c
    rw [List.flatMap_cons, List.length_append, List.length_cons]
    omega

lemma decodeString_eq_iff (s : Bytes) : decodeString s = s ↔ ∀ c ∈ s, survives c := by
  induction s with
  | nil => exact iff_of_true rfl (List.forall_mem_nil _)
  | cons c s ih =>
    have hcons : decodeString (c :: s) = decodeChar c ++ decodeString s := List.flatMap_cons
    rw [hcons, List.forall_mem_cons, ← ih, ← decodeChar_eq_iff]
    constructor
    · intro h
      have hlen := congrArg List.length h
      have hc := length_decodeChar c
      have hs := length_decodeString s
      rw [List.length_append, List.length_cons] at hlen
      obtain ⟨d, hd⟩ := List.length_eq_one_iff.1 (show (decodeChar c).length = 1 by omega)
      rw [hd, List.singleton_append] at h
      obtain ⟨rfl, htail⟩ := List.cons_eq_cons.1 h
      exact ⟨hd, htail⟩
    · rintro ⟨hc, hs⟩
      rw [hc, hs, List.singleton_append]

/-- A binding is added at the end, or it takes the place of one of that name. -/
lemma attrsetBindTree_cases (bound : List (Bytes × Tree)) (key : Bytes) (v : Tree) :
    (attrsetBindTree bound key v).length = bound.length ∨ attrsetBindTree bound key v = bound ++ [(key, v)] := by
  induction bound with
  | nil => exact .inr rfl
  | cons e bound ih =>
    rw [attrsetBindTree]
    split_ifs
    · exact .inl rfl
    · rcases ih with h | h
      · exact .inl (by rw [List.length_cons, h, List.length_cons])
      · exact .inr (by rw [h, List.cons_append])

lemma attrsetBindTree_fresh {bound : List (Bytes × Tree)} {key : Bytes} (h : key ∉ bound.map Prod.fst) (v : Tree) :
    attrsetBindTree bound key v = bound ++ [(key, v)] := by
  induction bound with
  | nil => rfl
  | cons e bound ih =>
    rw [List.map_cons, List.mem_cons, not_or] at h
    rw [attrsetBindTree, if_neg (Ne.symm h.1), ih h.2, List.cons_append]

lemma length_decodeEntries_le (bound entries : List (Bytes × Tree)) :
    (decodeEntries bound entries).length ≤ bound.length + entries.length := by
  induction entries generalizing bound with
  | nil => exact le_rfl
  | cons e entries ih =>
    obtain ⟨key, v⟩ := e
    have hle := ih (attrsetBindTree bound (decodeString key) (decode v))
    rw [decodeEntries, List.length_cons]
    rcases attrsetBindTree_cases bound (decodeString key) (decode v) with h | h
    · omega
    · rw [h, List.length_append, List.length_singleton] at hle
      rw [h]
      omega

/-- If no entry is lost, each stands for itself. -/
lemma decodeEntries_of_length {bound : List (Bytes × Tree)}
    (h : (decodeEntries bound entries).length = bound.length + entries.length) :
    decodeEntries bound entries = bound ++ entries.map fun e => (decodeString e.1, decode e.2) := by
  induction entries generalizing bound with
  | nil => exact (List.append_nil bound).symm
  | cons e entries ih =>
    obtain ⟨key, v⟩ := e
    rw [decodeEntries, List.length_cons] at h
    rw [decodeEntries]
    have hle := length_decodeEntries_le (attrsetBindTree bound (decodeString key) (decode v)) entries
    rcases attrsetBindTree_cases bound (decodeString key) (decode v) with hbind | hbind
    · omega
    · rw [hbind] at h ⊢
      rw [ih (by rw [h, List.length_append, List.length_singleton]; omega), List.append_assoc]
      rfl

lemma decodeItems_eq_iff (h : ∀ v ∈ items, (decode v = v ↔ v.Survives)) :
    decodeItems items = items ↔ Tree.SurvivesItems items := by
  induction items with
  | nil => exact iff_of_true rfl trivial
  | cons v items ih =>
    obtain ⟨hv, hitems⟩ := List.forall_mem_cons.1 h
    rw [decodeItems, List.cons_eq_cons, hv, ih hitems]
    rfl

lemma map_decode_eq_iff (h : ∀ e ∈ entries, (decode e.2 = e.2 ↔ e.2.Survives)) :
    (entries.map fun e => (decodeString e.1, decode e.2)) = entries ↔ Tree.SurvivesEntries entries := by
  induction entries with
  | nil => exact iff_of_true rfl trivial
  | cons e entries ih =>
    obtain ⟨key, v⟩ := e
    obtain ⟨hv, hentries⟩ := List.forall_mem_cons.1 h
    rw [List.map_cons, List.cons_eq_cons, Prod.mk.injEq, decodeString_eq_iff, hv, ih hentries, and_assoc]
    rfl

/-- With distinct names nothing is lost. -/
lemma decodeEntries_of_survives {bound : List (Bytes × Tree)}
    (hmap : (entries.map fun e => (decodeString e.1, decode e.2)) = entries)
    (hnodup : ((bound ++ entries).map Prod.fst).Nodup) : decodeEntries bound entries = bound ++ entries := by
  induction entries generalizing bound with
  | nil => exact (List.append_nil bound).symm
  | cons e entries ih =>
    obtain ⟨key, v⟩ := e
    obtain ⟨hhead, htail⟩ := List.cons_eq_cons.1 hmap
    obtain ⟨hkey, hv⟩ := Prod.mk.inj hhead
    have hfresh : key ∉ bound.map Prod.fst := by
      rw [List.map_append, List.map_cons] at hnodup
      exact fun hmem => (List.nodup_append.1 hnodup).2.2 key hmem key List.mem_cons_self rfl
    rw [decodeEntries, hkey, hv, attrsetBindTree_fresh hfresh, ih htail (by rwa [List.append_assoc]), List.append_assoc]
    rfl

/-- **A value is read back** exactly when its characters are. -/
theorem decode_eq_iff (h : Data v) : decode v = v ↔ v.Survives := by
  induction h with
  | null => exact iff_of_true rfl trivial
  | bool b => exact iff_of_true rfl trivial
  | int hle hlt => exact iff_of_true rfl trivial
  | @string s hs =>
    rw [decode, Tree.string.injEq, decodeString_eq_iff]
    rfl
  | @list items hitems ih =>
    rw [decode, Tree.list.injEq, decodeItems_eq_iff ih]
    rfl
  | @attrSet entries hkeys hnames hvalues ih =>
    rw [decode, Tree.attrSet.injEq]
    refine Iff.trans ?_ (map_decode_eq_iff ih)
    constructor
    · intro heq
      have hlen := congrArg List.length heq
      rw [decodeEntries_of_length (by rw [hlen]; simp), List.nil_append] at heq
      exact heq
    · exact fun hmap => decodeEntries_of_survives hmap hkeys

/-! ### Well-formed texts -/

lemma isHexDigit_hexChar : ∀ n < 16, JsonGrammar.isHexDigit (hexChar n) = true := by decide

lemma chars_escapeChar (c : UInt8) (h : Chars s rest) : Chars (escapeChar c ++ s) rest := by
  have hescape : ∀ e, e ∈ ascii "\"\\/bfnrt" → Chars ([92, e] ++ s) rest := fun e he => .escape he h
  unfold escapeChar
  split_ifs with h34 h92 h10 h13 h9 h8 h12 h32
  · exact hescape 34 (by decide)
  · exact hescape 92 (by decide)
  · exact hescape 110 (by decide)
  · exact hescape 114 (by decide)
  · exact hescape 116 (by decide)
  · exact hescape 98 (by decide)
  · exact hescape 102 (by decide)
  · have hlt : c.toNat < 32 := UInt8.lt_iff_toNat_lt.1 h32
    exact .unicode (by decide) (by decide) (isHexDigit_hexChar _ (by omega)) (isHexDigit_hexChar _ (by omega)) h
  · exact .plain (UInt8.not_lt.1 h32) h34 h92 h

lemma chars_flatMap (s rest : Bytes) : Chars (s.flatMap escapeChar ++ 34 :: rest) rest := by
  induction s with
  | nil => exact .close rest
  | cons c s ih =>
    rw [List.flatMap_cons, List.append_assoc]
    exact chars_escapeChar c ih

lemma blanks_behind_last (s : Bytes) : blanks (behind true s) = blanks s := JsonGrammar.blanks_cons (by decide) s

lemma blanks_behind (s : Bytes) : blanks (behind false s) = 44 :: 10 :: s := JsonGrammar.blanks_of_not (by decide) _

/-- A value does not begin with white space. -/
lemma blanks_serialize (h : Data v) (indent : Nat) (rest : Bytes) :
    blanks (jsonSerialize indent v ++ rest) = jsonSerialize indent v ++ rest := by
  obtain ⟨c, t, hfront, hc⟩ := serialize_front h indent
  rw [hfront]
  exact JsonGrammar.blanks_of_not (starts_ne hc).2.2.2.2 _

/-- The text of a value is one of the grammar. -/
def WellFormed (v : Tree) : Prop := ∀ indent rest, Value (jsonSerialize indent v ++ rest) rest

lemma elements_wellFormed (hdata : ∀ v ∈ items, Data v) (h : ∀ v ∈ items, WellFormed v) (hne : items ≠ [])
    (indent : Nat) (rest : Bytes) : Elements (blanks (itemsText indent items rest)) rest := by
  induction items with
  | nil => exact absurd rfl hne
  | cons v items ih =>
    obtain ⟨hv, hitems⟩ := List.forall_mem_cons.1 h
    obtain ⟨hdv, hditems⟩ := List.forall_mem_cons.1 hdata
    rw [itemsText_cons, JsonGrammar.blanks_append (isBlank_of_indent _), blanks_serialize hdv]
    cases items with
    | nil =>
      refine .last (hv _ _) ?_
      show blanks (behind true (jsonIndent indent ++ 93 :: rest)) = 93 :: rest
      rw [blanks_behind_last, JsonGrammar.blanks_append (isBlank_of_indent _), JsonGrammar.blanks_of_not (by decide)]
    | cons w items =>
      refine .more (hv _ _) (blanks_behind _) ?_
      rw [JsonGrammar.blanks_cons (by decide)]
      exact ih hditems hitems (List.cons_ne_nil _ _)

lemma members_wellFormed (hnames : ∀ e ∈ entries, (0 : UInt8) ∉ e.1) (hdata : ∀ e ∈ entries, Data e.2)
    (h : ∀ e ∈ entries, WellFormed e.2) (hne : entries ≠ []) (indent : Nat) (rest : Bytes) :
    Members (blanks (entriesText indent entries rest)) rest := by
  induction entries with
  | nil => exact absurd rfl hne
  | cons e entries ih =>
    obtain ⟨key, v⟩ := e
    obtain ⟨hv, hentries⟩ := List.forall_mem_cons.1 h
    obtain ⟨hdv, hdentries⟩ := List.forall_mem_cons.1 hdata
    obtain ⟨hkey, hkeys⟩ := List.forall_mem_cons.1 hnames
    have hcolon : ∀ s : Bytes, blanks (58 :: 32 :: s) = 58 :: 32 :: s := fun s => JsonGrammar.blanks_of_not (by decide) _
    have hvalue : ∀ s, Value (blanks (32 :: (jsonSerialize (indent + 2) v ++ s))) s := by
      intro s
      rw [JsonGrammar.blanks_cons (by decide), blanks_serialize hdv]
      exact hv _ _
    rw [entriesText_cons, JsonGrammar.blanks_append (isBlank_of_indent _), jsonEscapeString_append hkey,
      JsonGrammar.blanks_of_not (by decide)]
    cases entries with
    | nil =>
      refine .last (chars_flatMap key _) (hcolon _) (hvalue _) ?_
      show blanks (behind true (jsonIndent indent ++ 125 :: rest)) = 125 :: rest
      rw [blanks_behind_last, JsonGrammar.blanks_append (isBlank_of_indent _), JsonGrammar.blanks_of_not (by decide)]
    | cons e' entries =>
      refine .more (chars_flatMap key _) (hcolon _) (hvalue _) (blanks_behind _) ?_
      rw [JsonGrammar.blanks_cons (by decide)]
      exact ih hkeys hdentries hentries (List.cons_ne_nil _ _)

/-- **The text of a value is well formed.** -/
theorem wellFormed (h : Data v) : WellFormed v := by
  induction h with
  | null => exact fun _ rest => .litNull rest
  | bool b =>
    intro _ rest
    cases b with
    | false => exact .litFalse rest
    | true => exact .litTrue rest
  | @int n hle hlt => exact fun _ rest => .number (JsonGrammar.number_signedDecimal n rest)
  | @string s hs =>
    intro indent rest
    show Value (jsonEscapeString s ++ rest) rest
    rw [jsonEscapeString_append hs]
    exact .string (chars_flatMap s rest)
  | @list items hitems ih =>
    intro indent rest
    cases items with
    | nil => exact .array_nil rfl
    | cons v items =>
      rw [serialize_list]
      refine .array ?_
      rw [JsonGrammar.blanks_cons (by decide)]
      exact elements_wellFormed hitems ih (List.cons_ne_nil _ _) indent rest
  | @attrSet entries hkeys hnames hvalues ih =>
    intro indent rest
    cases entries with
    | nil => exact .object_nil rfl
    | cons e entries =>
      rw [serialize_attrSet]
      refine .object ?_
      rw [JsonGrammar.blanks_cons (by decide)]
      exact members_wellFormed hnames hvalues ih (List.cons_ne_nil _ _) indent rest

/-! ### Different values, different texts -/

/-- The text of a value tells it, and what is behind it. -/
def Told (v : Tree) : Prop := ∀ w, Data w → ∀ indent r r', NoDigit r → NoDigit r' →
  jsonSerialize indent v ++ r = jsonSerialize indent w ++ r' → v = w ∧ r = r'

/-- What is read in texts that are the same. -/
lemma decode_eq_of_text {r' : Bytes} (hv : Data v) (hw : Data w) (hr : NoDigit r) (hr' : NoDigit r')
    (h : jsonSerialize indent v ++ r = jsonSerialize indent w ++ r') : decode v = decode w ∧ r = r' := by
  have hreadv := serialized hv indent r hr _ le_rfl
  have hreadw := serialized hw indent r' hr' _ le_rfl
  rw [h] at hreadv
  obtain ⟨hvalue, hrest⟩ := Prod.mk.inj (Except.ok.inj (hreadv.symm.trans hreadw))
  exact ⟨Option.some.inj hvalue, hrest⟩

lemma jsonEscapeString_inj {s' r' : Bytes} (hs : (0 : UInt8) ∉ s) (hs' : (0 : UInt8) ∉ s')
    (h : jsonEscapeString s ++ r = jsonEscapeString s' ++ r') : s = s' ∧ r = r' := by
  have hread := parseString_jsonEscapeString s r
  rw [h, parseString_jsonEscapeString, cstr_eq_self hs, cstr_eq_self hs'] at hread
  obtain ⟨heq, hrest⟩ := Prod.mk.inj (Option.some.inj hread)
  exact ⟨heq.symm, hrest.symm⟩

/-- Where a list ends no item begins. -/
lemma closes_ne_begins {c : UInt8} (hc : c ≠ 32) (indent : Nat) (s s' : Bytes) :
    jsonIndent indent ++ c :: s ≠ jsonIndent (indent + 2) ++ s' := by
  intro h
  have hindent : jsonIndent (indent + 2) = jsonIndent indent ++ [32, 32] := List.replicate_add indent 2 32
  rw [hindent, List.append_assoc, List.append_cancel_left_eq] at h
  exact hc (List.cons_eq_cons.1 h).1

lemma behind_inj {last last' : Bool} {s s' : Bytes} (h : behind last s = behind last' s') : last = last' ∧ s = s' := by
  cases last <;> cases last'
  · exact ⟨rfl, (List.cons_eq_cons.1 (List.cons_eq_cons.1 h).2).2⟩
  · exact absurd (List.cons_eq_cons.1 h).1 (by decide)
  · exact absurd (List.cons_eq_cons.1 h).1 (by decide)
  · exact ⟨rfl, (List.cons_eq_cons.1 h).2⟩

lemma itemsText_inj (h : ∀ v ∈ items, Told v) {items' : List Tree} (hdata' : ∀ w ∈ items', Data w)
    (htext : itemsText indent items rest = itemsText indent items' rest) : items = items' := by
  induction items generalizing items' with
  | nil =>
    cases items' with
    | nil => rfl
    | cons w items' =>
      rw [itemsText_cons] at htext
      exact absurd htext (closes_ne_begins (by decide) _ _ _)
  | cons v items ih =>
    obtain ⟨hv, hitems⟩ := List.forall_mem_cons.1 h
    cases items' with
    | nil =>
      rw [itemsText_cons] at htext
      exact absurd htext.symm (closes_ne_begins (by decide) _ _ _)
    | cons w items' =>
      obtain ⟨hdw, hditems'⟩ := List.forall_mem_cons.1 hdata'
      rw [itemsText_cons, itemsText_cons, List.append_cancel_left_eq] at htext
      obtain ⟨rfl, hbehind⟩ := hv w hdw _ _ _ (noDigit_behind _ _) (noDigit_behind _ _) htext
      rw [ih hitems hditems' (behind_inj hbehind).2]

lemma entriesText_inj (hnames : ∀ e ∈ entries, (0 : UInt8) ∉ e.1) (h : ∀ e ∈ entries, Told e.2)
    {entries' : List (Bytes × Tree)} (hnames' : ∀ e ∈ entries', (0 : UInt8) ∉ e.1) (hdata' : ∀ e ∈ entries', Data e.2)
    (htext : entriesText indent entries rest = entriesText indent entries' rest) : entries = entries' := by
  induction entries generalizing entries' with
  | nil =>
    cases entries' with
    | nil => rfl
    | cons e' entries' =>
      rw [entriesText_cons] at htext
      exact absurd htext (closes_ne_begins (by decide) _ _ _)
  | cons e entries ih =>
    obtain ⟨key, v⟩ := e
    obtain ⟨hv, hentries⟩ := List.forall_mem_cons.1 h
    obtain ⟨hkey, hkeys⟩ := List.forall_mem_cons.1 hnames
    cases entries' with
    | nil =>
      rw [entriesText_cons] at htext
      exact absurd htext.symm (closes_ne_begins (by decide) _ _ _)
    | cons e' entries' =>
      obtain ⟨key', w⟩ := e'
      obtain ⟨hkey', hkeys'⟩ := List.forall_mem_cons.1 hnames'
      obtain ⟨hdw, hdentries'⟩ := List.forall_mem_cons.1 hdata'
      rw [entriesText_cons, entriesText_cons, List.append_cancel_left_eq] at htext
      obtain ⟨rfl, hcolon⟩ := jsonEscapeString_inj hkey hkey' htext
      obtain ⟨-, hvalue⟩ := List.cons_eq_cons.1 (List.cons_eq_cons.1 hcolon).2
      obtain ⟨rfl, hbehind⟩ := hv w hdw _ _ _ (noDigit_behind _ _) (noDigit_behind _ _) hvalue
      rw [ih hkeys hentries hkeys' hdentries' (behind_inj hbehind).2]

/-- **The text tells the value.** -/
theorem told (h : Data v) : Told v := by
  induction h with
  | null =>
    intro w hw indent r r' hr hr' htext
    obtain ⟨hdecode, hrest⟩ := decode_eq_of_text .null hw hr hr' htext
    cases hw with
    | null => exact ⟨rfl, hrest⟩
    | _ => cases hdecode
  | bool b =>
    intro w hw indent r r' hr hr' htext
    obtain ⟨hdecode, hrest⟩ := decode_eq_of_text (.bool b) hw hr hr' htext
    cases hw with
    | bool b' => exact ⟨hdecode, hrest⟩
    | _ => cases hdecode
  | @int n hle hlt =>
    intro w hw indent r r' hr hr' htext
    obtain ⟨hdecode, hrest⟩ := decode_eq_of_text (.int hle hlt) hw hr hr' htext
    cases hw with
    | int _ _ => exact ⟨hdecode, hrest⟩
    | _ => cases hdecode
  | @string s hs =>
    intro w hw indent r r' hr hr' htext
    obtain ⟨hdecode, -⟩ := decode_eq_of_text (.string hs) hw hr hr' htext
    cases hw with
    | string hs' =>
      obtain ⟨rfl, hrest⟩ := jsonEscapeString_inj hs hs' htext
      exact ⟨rfl, hrest⟩
    | _ => cases hdecode
  | @list items hitems ih =>
    intro w hw indent r r' hr hr' htext
    obtain ⟨hdecode, rfl⟩ := decode_eq_of_text (.list hitems) hw hr hr' htext
    cases hw with
    | @list items' hitems' =>
      refine ⟨?_, rfl⟩
      cases items with
      | nil =>
        cases items' with
        | nil => rfl
        | cons w items' =>
          rw [serialize_list] at htext
          exact absurd (List.cons_eq_cons.1 (List.cons_eq_cons.1 htext).2).1 (by decide)
      | cons v items =>
        cases items' with
        | nil =>
          rw [serialize_list] at htext
          exact absurd (List.cons_eq_cons.1 (List.cons_eq_cons.1 htext).2).1 (by decide)
        | cons w items' =>
          rw [serialize_list, serialize_list] at htext
          rw [itemsText_inj ih hitems' (List.cons_eq_cons.1 (List.cons_eq_cons.1 htext).2).2]
    | _ => cases hdecode
  | @attrSet entries hkeys hnames hvalues ih =>
    intro w hw indent r r' hr hr' htext
    obtain ⟨hdecode, rfl⟩ := decode_eq_of_text (.attrSet hkeys hnames hvalues) hw hr hr' htext
    cases hw with
    | @attrSet entries' hkeys' hnames' hvalues' =>
      refine ⟨?_, rfl⟩
      cases entries with
      | nil =>
        cases entries' with
        | nil => rfl
        | cons e' entries' =>
          rw [serialize_attrSet] at htext
          exact absurd (List.cons_eq_cons.1 (List.cons_eq_cons.1 htext).2).1 (by decide)
      | cons e entries =>
        cases entries' with
        | nil =>
          rw [serialize_attrSet] at htext
          exact absurd (List.cons_eq_cons.1 (List.cons_eq_cons.1 htext).2).1 (by decide)
        | cons e' entries' =>
          rw [serialize_attrSet, serialize_attrSet] at htext
          rw [entriesText_inj hnames ih hnames' hvalues' (List.cons_eq_cons.1 (List.cons_eq_cons.1 htext).2).2]
    | _ => cases hdecode

/-! ### The round trip -/

/-- The text of a value is a JSON document, all of it is read back as the value, and no other value has it. -/
structure Undone (v : Tree) : Prop where
  document : Document (nixToJson v)
  undone : builtinFromJson (nixToJson v) = .ok (some v, [])
  injective : ∀ w, Data w → nixToJson w = nixToJson v → w = v

lemma noDigit_nil : NoDigit [] := by
  rintro c ⟨⟩

/-- What is read in the text of a value, all of which is read. -/
lemma builtinFromJson_nixToJson (h : Data v) : builtinFromJson (nixToJson v) = .ok (some (decode v), []) := by
  have hcstr : cstr (nixToJson v) = nixToJson v := cstr_eq_self (zero_notMem_jsonSerialize v 0)
  have hvalue := serialized h 0 [] noDigit_nil
  rw [List.append_nil] at hvalue
  unfold builtinFromJson
  rw [hcstr]
  exact hvalue _ le_rfl

/-- **`fromJSON` undoes `toJSON`** exactly for values without other control characters than tabs, line feeds and
carriage returns. -/
theorem undone_iff (h : Data v) : Undone v ↔ v.Survives := by
  rw [← decode_eq_iff h]
  constructor
  · intro hundone
    have hread := (builtinFromJson_nixToJson h).symm.trans hundone.undone
    exact Option.some.inj (Prod.mk.inj (Except.ok.inj hread)).1
  · intro hdecode
    refine ⟨⟨[], ?_, rfl⟩, ?_, fun w hw htext => ?_⟩
    · have hfront := blanks_serialize h 0 []
      have hvalue := wellFormed h 0 []
      rw [List.append_nil] at hfront hvalue
      show Value (blanks (jsonSerialize 0 v)) []
      rwa [hfront]
    · rw [builtinFromJson_nixToJson h, hdecode]
    · exact (told hw v h 0 [] [] noDigit_nil noDigit_nil (congrArg (· ++ []) htext)).1

/-- An attribute set whose names are read back, with the least integer in it. -/
theorem undone_iff_least : Undone (.attrSet [(ascii "a\n", .list [.int (-2 ^ 63)])]) ↔
    Tree.Survives (.attrSet [(ascii "a\n", .list [.int (-2 ^ 63)])]) := by
  refine undone_iff (.attrSet (by decide) ?_ ?_)
  · intro e he
    obtain rfl := List.mem_singleton.1 he
    decide
  · intro e he
    obtain rfl := List.mem_singleton.1 he
    refine .list fun v hv => ?_
    obtain rfl := List.mem_singleton.1 hv
    exact .int le_rfl (by decide)

/-- A backspace is read as a letter. -/
theorem backspace_not_undone : Data (.string [8]) ∧ ¬ Undone (.string [8]) := by
  refine ⟨.string (by decide), fun h => ?_⟩
  have hread : builtinFromJson (nixToJson (.string [8])) = .ok (some (.string [98]), []) := rfl
  have hundone := hread.symm.trans h.undone
  cases hundone

end

end Two09.Nix
