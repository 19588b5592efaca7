import Two09.Lib.JsonParse

/-!
# Printing JSON

`cJSON_Print`, and that `cJSON_Parse` reads what it writes. The parser and the printer stop at the same depth.
-/

namespace Two09.Lib.Json

open Two09.Lib

/-! ### Strings -/

/-- A digit of `%04x`. -/
def hexChar (n : Nat) : UInt8 := if n < 10 then UInt8.ofNat (48 + n) else UInt8.ofNat (87 + n)

/-- One round of the last loop of `print_string_ptr`. -/
def printChar (c : UInt8) : Bytes :=
  if 31 < c ∧ c ≠ 34 ∧ c ≠ 92 then [c]
  else if c = 92 then [92, 92]
  else if c = 34 then [92, 34]
  else if c = 8 then [92, 98]
  else if c = 12 then [92, 102]
  else if c = 10 then [92, 110]
  else if c = 13 then [92, 114]
  else if c = 9 then [92, 116]
  else [92, 117, 48, 48, hexChar (c.toNat / 16), hexChar (c.toNat % 16)]

/-- `print_string_ptr`, of a C string. -/
def printString (s : Bytes) : Bytes := 34 :: (cstr s).flatMap printChar ++ [34]

section Strings
variable {c : UInt8} {s rest : Bytes}

lemma hexDigit_hexChar : ∀ n < 16, hexDigit (hexChar n) = some n := by decide

/-- What stands behind an escaped control character. -/
lemma utf16LiteralToUtf8_control {n : Nat} (hn : n < 32) (s : Bytes) :
    utf16LiteralToUtf8 (92 :: 117 :: 48 :: 48 :: hexChar (n / 16) :: hexChar (n % 16) :: s) =
      some ([UInt8.ofNat n], 6) := by
  have hhigh := hexDigit_hexChar (n / 16) (by omega)
  have hlow := hexDigit_hexChar (n % 16) (by omega)
  have hzero : hexDigit 48 = some 0 := by decide
  have hcode : parseHex4 (48 :: 48 :: hexChar (n / 16) :: hexChar (n % 16) :: s) = n := by
    simp only [parseHex4, List.take_succ_cons, List.take_zero, List.mapM_cons, List.mapM_nil, hhigh,
      hlow, hzero]
    show ((0 * 16 + 0) * 16 + n / 16) * 16 + n % 16 = n
    omega
  have hlen : ¬ (92 :: 117 :: 48 :: 48 :: hexChar (n / 16) :: hexChar (n % 16) :: s).length < 6 := by
    simp only [List.length_cons]
    omega
  rw [utf16LiteralToUtf8, if_neg hlen]
  simp only [List.drop_succ_cons, List.drop_zero, hcode]
  rw [if_neg (by omega), if_neg (by omega), encodeUtf8, if_pos (by omega)]

/-- What `printChar` can give. -/
lemma printChar_cases (c : UInt8) :
    (31 < c ∧ c ≠ 34 ∧ c ≠ 92 ∧ printChar c = [c]) ∨
    (∃ e, 31 < e ∧ e ≠ 117 ∧ unescapeChar e = some c ∧ printChar c = [92, e]) ∨
    c.toNat < 32 ∧ printChar c = [92, 117, 48, 48, hexChar (c.toNat / 16), hexChar (c.toNat % 16)] := by
  by_cases hplain : 31 < c ∧ c ≠ 34 ∧ c ≠ 92
  · exact .inl ⟨hplain.1, hplain.2.1, hplain.2.2, if_pos hplain⟩
  have hesc : ∀ c, c ∈ [92, 34, 8, 12, 10, 13, 9] → ∃ e, 31 < e ∧ e ≠ 117 ∧ unescapeChar e = some c ∧
      printChar c = [92, e] := by
    intro c hc
    fin_cases hc
    · exact ⟨92, by decide⟩
    · exact ⟨34, by decide⟩
    · exact ⟨98, by decide⟩
    · exact ⟨102, by decide⟩
    · exact ⟨110, by decide⟩
    · exact ⟨114, by decide⟩
    · exact ⟨116, by decide⟩
  by_cases hc : c ∈ ([92, 34, 8, 12, 10, 13, 9] : Bytes)
  · exact .inr (.inl (hesc c hc))
  · have hno : ∀ d ∈ ([92, 34, 8, 12, 10, 13, 9] : Bytes), c ≠ d := fun d hd hcd => hc (hcd ▸ hd)
    refine .inr (.inr ⟨?_, ?_⟩)
    · by_contra hlt
      exact hplain ⟨UInt8.lt_iff_toNat_lt.2 (by show 31 < c.toNat; omega), hno 34 (by decide), hno 92 (by decide)⟩
    · unfold printChar
      rw [if_neg hplain, if_neg (hno 92 (by decide)), if_neg (hno 34 (by decide)), if_neg (hno 8 (by decide)),
        if_neg (hno 12 (by decide)), if_neg (hno 10 (by decide)), if_neg (hno 13 (by decide)),
        if_neg (hno 9 (by decide))]

/-- One character is one round. -/
lemma unescape_printChar (c : UInt8) (n : Nat) (s : Bytes) :
    unescape (n + 1) (printChar c ++ s) = (unescape n s).map (c :: ·) := by
  obtain ⟨-, -, h92, hesc⟩ | ⟨e, -, h117, he, hesc⟩ | ⟨h32, hesc⟩ := printChar_cases c
  · rw [hesc, List.singleton_append, unescape.eq_def]
    simp only [if_pos h92]
  · rw [hesc, List.cons_append, List.singleton_append, unescape.eq_def]
    simp only [ne_eq, not_true_eq_false, if_false, if_neg h117, he]
  · rw [hesc, unescape.eq_def]
    simp only [List.cons_append, List.nil_append, ne_eq, not_true_eq_false, if_false, if_true,
      utf16LiteralToUtf8_control h32]
    simp

lemma unescape_flatMap (n : Nat) (hn : s.length ≤ n) : unescape n (s.flatMap printChar) = some s := by
  induction s generalizing n with
  | nil => cases n <;> rfl
  | cons c s ih =>
    obtain ⟨n, rfl⟩ := Nat.exists_eq_add_of_le' (Nat.le_trans (Nat.succ_le_succ (Nat.zero_le _)) hn)
    rw [List.flatMap_cons, unescape_printChar, ih n (Nat.le_of_succ_le_succ hn)]
    rfl

lemma scanString_cons_plain (h34 : c ≠ 34) (h92 : c ≠ 92) (hne : s ≠ []) :
    scanString (c :: s) = (scanString s).map fun r => (c :: r.1, r.2) := by
  obtain ⟨e, t, rfl⟩ := List.exists_cons_of_ne_nil hne
  rw [scanString, if_neg h34, if_neg h92]

lemma hexChar_plain : ∀ n < 16, hexChar n ≠ 0 ∧ hexChar n ≠ 34 ∧ hexChar n ≠ 92 := by decide

lemma scanString_printChar (c : UInt8) (hne : s ≠ []) :
    scanString (printChar c ++ s) = (scanString s).map fun r => (printChar c ++ r.1, r.2) := by
  obtain ⟨-, h34, h92, hesc⟩ | ⟨e, -, h117, he, hesc⟩ | ⟨h32, hesc⟩ := printChar_cases c
  · rw [hesc, List.singleton_append, scanString_cons_plain h34 h92 hne]
    rfl
  · rw [hesc, List.cons_append, List.singleton_append, scanString, if_neg (by decide),
      if_pos rfl]
    rfl
  · obtain ⟨-, hhigh, hhigh'⟩ := hexChar_plain (c.toNat / 16) (by omega)
    obtain ⟨-, hlow, hlow'⟩ := hexChar_plain (c.toNat % 16) (by omega)
    rw [hesc]
    simp only [List.cons_append, List.nil_append]
    rw [scanString, if_neg (by decide), if_pos rfl, scanString_cons_plain (by decide) (by decide)
      (List.cons_ne_nil _ _), scanString_cons_plain (by decide) (by decide) (List.cons_ne_nil _ _),
      scanString_cons_plain hhigh hhigh' (List.cons_ne_nil _ _), scanString_cons_plain hlow hlow' hne]
    cases scanString s <;> rfl

lemma scanString_flatMap (s rest : Bytes) :
    scanString (s.flatMap printChar ++ 34 :: rest) = some (s.flatMap printChar, rest) := by
  induction s with
  | nil => cases rest <;> rfl
  | cons c s ih =>
    rw [List.flatMap_cons, List.append_assoc, scanString_printChar c (by simp), ih]
    rfl

/-- **A string is read back** up to its first NUL. -/
lemma parseString_printString (s rest : Bytes) : parseString (printString s ++ rest) = some (cstr s, rest) := by
  have hz := zero_notMem_cstr s
  have hlen : (cstr s).length ≤ ((cstr s).flatMap printChar).length := by
    induction cstr s with
    | nil => exact le_rfl
    | cons c t ih =>
      have hpos : 0 < (printChar c).length := by
        unfold printChar
        split_ifs <;> exact Nat.succ_pos _
      rw [List.flatMap_cons, List.length_cons, List.length_append]
      omega
  have htext : printString s ++ rest = 34 :: ((cstr s).flatMap printChar ++ 34 :: rest) := by
    simp [printString]
  rw [htext, parseString, if_pos rfl, scanString_flatMap]
  simp only [unescape_flatMap _ hlen, Option.map_some, cstr_eq_self hz]

lemma zero_notMem_printString (s : Bytes) : (0 : UInt8) ∉ printString s := by
  have hchar : ∀ c, c ≠ 0 → (0 : UInt8) ∉ printChar c := by
    intro c hc
    obtain ⟨-, -, -, hesc⟩ | ⟨e, he, -, -, hesc⟩ | ⟨h32, hesc⟩ := printChar_cases c
    · rw [hesc, List.mem_singleton]
      exact hc.symm
    · rw [hesc]
      have hne : e ≠ 0 := by
        rintro rfl
        exact absurd he (by decide)
      simp [hne.symm]
    · rw [hesc]
      have hhigh := (hexChar_plain (c.toNat / 16) (by omega)).1
      have hlow := (hexChar_plain (c.toNat % 16) (by omega)).1
      simp [hhigh.symm, hlow.symm]
  unfold printString
  intro h
  rcases List.mem_append.1 h with h | h
  · rcases List.mem_cons.1 h with h | h
    · exact absurd h (by decide)
    · obtain ⟨c, hc, h⟩ := List.mem_flatMap.1 h
      refine hchar c ?_ h
      rintro rfl
      exact zero_notMem_cstr s hc
  · exact absurd h (by decide)

end Strings

/-! ### Values -/

/-- A text that `parse_number` takes whole. -/
structure IsNumber (t : Bytes) : Prop where
  front : ∃ c s, t = c :: s ∧ (c = 45 ∨ isDigit c = true)
  chars : ∀ c ∈ t, isNumberChar c = true
  whole : strtodLength t = t.length

/-- What `print_number` writes for the `double` that a text is read as, which is `none` where it is not finite. -/
structure NumberFormat where
  text : Bytes → Option Bytes
  isNumber : ∀ t t', text t = some t' → IsNumber t'

section Print
variable (fmt : NumberFormat)

mutual

/-- `print_value` with `format`, inside so many brackets and braces. -/
def printValue (depth : Nat) : Json → Option Bytes
  | null => some (ascii "null")
  | bool false => some (ascii "false")
  | bool true => some (ascii "true")
  | number t => some ((fmt.text t).getD (ascii "null"))
  | string s => some (printString s)
  | array items =>
    if nestingLimit ≤ depth then none else (printElements (depth + 1) items).map fun b => 91 :: b ++ [93]
  | object members =>
    if nestingLimit ≤ depth then none
    else (printMembers (depth + 1) members).map fun b => 123 :: 10 :: b ++ (List.replicate depth 9 ++ [125])

/-- The loop of `print_array`. -/
def printElements (depth : Nat) : List Json → Option Bytes
  | [] => some []
  | v :: vs =>
    (printValue depth v).bind fun b =>
      (printElements depth vs).map fun rest => b ++ ((if vs.isEmpty then [] else [44, 32]) ++ rest)

/-- The loop of `print_object`. -/
def printMembers (depth : Nat) : List (Bytes × Json) → Option Bytes
  | [] => some []
  | (key, v) :: ms =>
    (printValue depth v).bind fun b =>
      (printMembers depth ms).map fun rest =>
        List.replicate depth 9 ++ (printString key ++ (58 :: 9 :: (b ++ ((if ms.isEmpty then [] else [44]) ++ 10 :: rest))))

end

/-- `cJSON_Print` -/
def print (v : Json) : Option Bytes := printValue fmt 0 v

mutual

/-- What is read where a value was printed: numbers as they are written, and strings up to their first NUL. -/
def reread : Json → Json
  | null => null
  | bool b => bool b
  | number t => ((fmt.text t).map number).getD null
  | string s => string (cstr s)
  | array items => array (rereadElements items)
  | object members => object (rereadMembers members)

def rereadElements : List Json → List Json
  | [] => []
  | v :: vs => reread v :: rereadElements vs

def rereadMembers : List (Bytes × Json) → List (Bytes × Json)
  | [] => []
  | (key, v) :: ms => (cstr key, reread v) :: rereadMembers ms

end

end Print

mutual

/-- How many brackets and braces are open at once, at most. -/
def nesting : Json → Nat
  | array items => nestingElements items + 1
  | object members => nestingMembers members + 1
  | _ => 0

def nestingElements : List Json → Nat
  | [] => 0
  | v :: vs => max (nesting v) (nestingElements vs)

def nestingMembers : List (Bytes × Json) → Nat
  | [] => 0
  | (_, v) :: ms => max (nesting v) (nestingMembers ms)

end

/-- Induction over values. -/
theorem ind {motive : Json → Prop} (null : motive .null) (bool : ∀ b, motive (.bool b))
    (number : ∀ t, motive (.number t)) (string : ∀ s, motive (.string s))
    (array : ∀ items, (∀ v ∈ items, motive v) → motive (.array items))
    (object : ∀ members, (∀ m ∈ members, motive m.2) → motive (.object members)) (v : Json) : motive v :=
  @Json.rec motive (fun items => ∀ v ∈ items, motive v) (fun members => ∀ m ∈ members, motive m.2)
    (fun m => motive m.2) null bool number string array object
    (List.forall_mem_nil _) (fun _ _ h hs => List.forall_mem_cons.2 ⟨h, hs⟩)
    (List.forall_mem_nil _) (fun _ _ h hs => List.forall_mem_cons.2 ⟨h, hs⟩) (fun _ _ h => h) v

section Values
variable {fmt : NumberFormat} {depth : Nat} {b rest : Bytes} {v : Json} {vs : List Json} {ms : List (Bytes × Json)}
  {key : Bytes}

lemma rereadElements_eq_map (vs : List Json) : rereadElements fmt vs = vs.map (reread fmt) := by
  induction vs with
  | nil => rfl
  | cons v vs ih => rw [rereadElements, ih, List.map_cons]

/-- A text that a value has been read up to. -/
def Stops (s : Bytes) : Prop := ∃ c t, s = c :: t ∧ isNumberChar c = false

/-- A text of a value: not white space, and no bracket that closes. -/
def Opens (s : Bytes) : Prop := ∃ c t, s = c :: t ∧ 32 < c ∧ c ≠ 93

lemma Opens.skip (h : Opens b) (hws : ∀ c ∈ rest, c ≤ 32) (rest' : Bytes) :
    skipWhitespace (rest ++ (b ++ rest')) = b ++ rest' := by
  obtain ⟨c, t, rfl, hc, -⟩ := h
  exact skipWhitespace_append hws hc

lemma opens_printValue (h : printValue fmt depth v = some b) : Opens b := by
  cases v with
  | null =>
    obtain rfl := Option.some.inj h
    exact ⟨110, ascii "ull", rfl, by decide, by decide⟩
  | bool x =>
    cases x with
    | false =>
      obtain rfl := Option.some.inj h
      exact ⟨102, ascii "alse", rfl, by decide, by decide⟩
    | true =>
      obtain rfl := Option.some.inj h
      exact ⟨116, ascii "rue", rfl, by decide, by decide⟩
  | number t =>
    obtain rfl := Option.some.inj h
    cases htext : fmt.text t with
    | none => exact ⟨110, ascii "ull", rfl, by decide, by decide⟩
    | some t' =>
      obtain ⟨c, s, rfl, hc⟩ := (fmt.isNumber t t' htext).front
      refine ⟨c, s, rfl, ?_⟩
      rcases hc with rfl | hc
      · decide
      · have hle : 48 ≤ c ∧ c ≤ 57 := of_decide_eq_true hc
        refine ⟨UInt8.lt_of_lt_of_le (by decide) hle.1, ?_⟩
        rintro rfl
        exact absurd hle.2 (by decide)
  | string s =>
    obtain rfl := Option.some.inj h
    exact ⟨34, _, rfl, by decide, by decide⟩
  | array items =>
    rw [printValue] at h
    split_ifs at h
    obtain ⟨b', -, rfl⟩ := Option.map_eq_some_iff.1 h
    exact ⟨91, _, rfl, by decide, by decide⟩
  | object members =>
    rw [printValue] at h
    split_ifs at h
    obtain ⟨b', -, rfl⟩ := Option.map_eq_some_iff.1 h
    exact ⟨123, _, rfl, by decide, by decide⟩

/-- A value is read back in front of what stops it. -/
def ReadsBack (fmt : NumberFormat) (v : Json) : Prop :=
  ∀ depth b rest, printValue fmt depth v = some b → Stops rest → Parses depth (b ++ rest) (reread fmt v) rest

lemma readsBack_number (t : Bytes) : ReadsBack fmt (.number t) := by
  intro depth b rest h hrest
  obtain rfl := Option.some.inj h
  obtain ⟨c, s, rfl, hc⟩ := hrest
  rw [reread]
  cases htext : fmt.text t with
  | none => exact ⟨1, parseValue_literal rfl⟩
  | some t' =>
    have hnum := fmt.isNumber t t' htext
    obtain ⟨d, s', rfl, hd⟩ := hnum.front
    have hread := @parseNumber_whole c (d :: s') s (List.cons_ne_nil _ _) hnum.chars hnum.whole hc
    exact .number hread hd

lemma stops_cons {c : UInt8} (hc : isNumberChar c = false) : Stops (c :: rest) := ⟨c, rest, rfl, hc⟩

lemma parsesElements_print (hvs : ∀ v ∈ vs, ReadsBack fmt v) (hne : vs ≠ []) (h : printElements fmt depth vs = some b) :
    Opens b ∧ ParsesElements depth (b ++ 93 :: rest) (rereadElements fmt vs) rest := by
  induction vs generalizing b with
  | nil => exact absurd rfl hne
  | cons v vs ih =>
    obtain ⟨hv, hvs⟩ := List.forall_mem_cons.1 hvs
    rw [printElements] at h
    obtain ⟨b₁, hb₁, h⟩ := Option.bind_eq_some_iff.1 h
    obtain ⟨b₂, hb₂, rfl⟩ := Option.map_eq_some_iff.1 h
    have hopens := opens_printValue hb₁
    constructor
    · obtain ⟨c, t, rfl, hc⟩ := hopens
      exact ⟨c, _, rfl, hc⟩
    rw [rereadElements]
    cases vs with
    | nil =>
      obtain rfl := Option.some.inj hb₂
      have hread : Parses depth (b₁ ++ 93 :: rest) (reread fmt v) (93 :: rest) :=
        hv depth b₁ (93 :: rest) hb₁ (stops_cons (by decide))
      simpa [rereadElements] using ParsesElements.last hread (skipWhitespace_cons (by decide))
    | cons w ws =>
      obtain ⟨hopens₂, hread₂⟩ := ih hvs (List.cons_ne_nil _ _) hb₂
      have htext : b₁ ++ ((if (w :: ws).isEmpty then [] else [44, 32]) ++ b₂) ++ 93 :: rest =
          b₁ ++ 44 :: ([32] ++ (b₂ ++ 93 :: rest)) := by simp
      rw [htext]
      refine .cons (hv depth b₁ _ hb₁ (stops_cons (by decide))) (skipWhitespace_cons (by decide)) ?_
      rw [hopens₂.skip (by simp)]
      exact hread₂

lemma le_of_mem_tabs {n : Nat} : ∀ c ∈ List.replicate n (9 : UInt8), c ≤ 32 := by
  intro c hc
  rw [List.eq_of_mem_replicate hc]
  decide

/-- The name of a member, its colon, and the tabulator behind it. -/
lemma memberFront_print (key rest : Bytes) : MemberFront (printString key ++ 58 :: rest) (cstr key) rest :=
  ⟨_, parseString_printString key _, skipWhitespace_cons (by decide)⟩

/-- The tabulators in front of a name are skipped. -/
lemma skip_member (n : Nat) (key rest : Bytes) :
    skipWhitespace (10 :: (List.replicate n 9 ++ (printString key ++ rest))) = printString key ++ rest := by
  have hws : ∀ c ∈ (10 : UInt8) :: List.replicate n 9, c ≤ 32 := List.forall_mem_cons.2 ⟨by decide, le_of_mem_tabs⟩
  exact skipWhitespace_append hws (by decide)

lemma parsesMembers_print (n : Nat) (hms : ∀ m ∈ ms, ReadsBack fmt m.2) (hne : ms ≠ [])
    (h : printMembers fmt depth ms = some b) :
    ∃ front, skipWhitespace (10 :: (b ++ (List.replicate n 9 ++ 125 :: rest))) = front ∧ front.head? = some 34 ∧
      ParsesMembers depth front (rereadMembers fmt ms) rest := by
  induction ms generalizing b with
  | nil => exact absurd rfl hne
  | cons m ms ih =>
    obtain ⟨key, v⟩ := m
    obtain ⟨hv, hms⟩ := List.forall_mem_cons.1 hms
    rw [printMembers] at h
    obtain ⟨b₁, hb₁, h⟩ := Option.bind_eq_some_iff.1 h
    obtain ⟨b₂, hb₂, rfl⟩ := Option.map_eq_some_iff.1 h
    simp only [List.append_assoc, List.cons_append]
    refine ⟨_, skip_member depth key _, rfl, ?_⟩
    have hfront := memberFront_print key
      (9 :: (b₁ ++ ((if ms.isEmpty then [] else [44]) ++ 10 :: (b₂ ++ (List.replicate n 9 ++ 125 :: rest)))))
    have hskip : ∀ s, skipWhitespace (9 :: (b₁ ++ s)) = b₁ ++ s := fun s =>
      (opens_printValue hb₁).skip (by simp : ∀ c ∈ [(9 : UInt8)], c ≤ 32) s
    rw [rereadMembers]
    cases ms with
    | nil =>
      obtain rfl := Option.some.inj hb₂
      refine .last hfront ?_ (skipWhitespace_append (List.forall_mem_cons.2 ⟨by decide, le_of_mem_tabs⟩) (by decide) :
        skipWhitespace (10 :: List.replicate n 9 ++ 125 :: rest) = 125 :: rest)
      rw [hskip]
      exact hv depth b₁ _ hb₁ (stops_cons (by decide))
    | cons m' ms' =>
      obtain ⟨front, hfront₂, -, hread₂⟩ := ih hms (List.cons_ne_nil _ _) hb₂
      refine .cons hfront ?_ (skipWhitespace_cons (by decide)) (hfront₂ ▸ hread₂)
      rw [hskip]
      exact hv depth b₁ _ hb₁ (stops_cons (by decide))

/-- **What is printed is read back.** -/
theorem readsBack (v : Json) : ReadsBack fmt v := by
  induction v using Json.ind with
  | null =>
    intro depth b rest h _
    obtain rfl := Option.some.inj h
    exact ⟨1, parseValue_literal rfl⟩
  | bool x =>
    intro depth b rest h _
    cases x with
    | false =>
      obtain rfl := Option.some.inj h
      exact ⟨1, parseValue_literal rfl⟩
    | true =>
      obtain rfl := Option.some.inj h
      exact ⟨1, parseValue_literal rfl⟩
  | number t => exact readsBack_number t
  | string s =>
    intro depth b rest h _
    obtain rfl := Option.some.inj h
    exact .string (parseString_printString s rest) rfl
  | array items ih =>
    intro depth b rest h _
    rw [printValue] at h
    split_ifs at h with hd
    obtain ⟨b', hb', rfl⟩ := Option.map_eq_some_iff.1 h
    rw [reread]
    cases items with
    | nil =>
      obtain rfl := Option.some.inj hb'
      exact .array_nil (Nat.not_le.1 hd) (skipWhitespace_cons (by decide))
    | cons v vs =>
      obtain ⟨hopens, hread⟩ := @parsesElements_print fmt (depth + 1) b' rest (v :: vs) ih (List.cons_ne_nil _ _) hb'
      have hskip : skipWhitespace (b' ++ 93 :: rest) = b' ++ 93 :: rest := hopens.skip (List.forall_mem_nil _) _
      have htext : 91 :: b' ++ [93] ++ rest = 91 :: (b' ++ 93 :: rest) := by simp
      rw [htext]
      refine .array (Nat.not_le.1 hd) ?_ (hskip.symm ▸ hread)
      rw [hskip]
      obtain ⟨c, t, rfl, -, hc⟩ := hopens
      exact fun heq => hc (Option.some.inj heq)
  | object members ih =>
    intro depth b rest h _
    rw [printValue] at h
    split_ifs at h with hd
    obtain ⟨b', hb', rfl⟩ := Option.map_eq_some_iff.1 h
    rw [reread]
    have htext : 123 :: 10 :: b' ++ (List.replicate depth 9 ++ [125]) ++ rest =
        123 :: 10 :: (b' ++ (List.replicate depth 9 ++ 125 :: rest)) := by simp
    rw [htext]
    cases members with
    | nil =>
      obtain rfl := Option.some.inj hb'
      exact .object_nil (Nat.not_le.1 hd) (skipWhitespace_append (List.forall_mem_cons.2 ⟨by decide, le_of_mem_tabs⟩)
        (by decide) : skipWhitespace (10 :: List.replicate depth 9 ++ 125 :: rest) = 125 :: rest)
    | cons m ms =>
      obtain ⟨front, hfront, hhead, hread⟩ :=
        @parsesMembers_print fmt (depth + 1) b' rest (m :: ms) depth ih (List.cons_ne_nil _ _) hb'
      refine .object (Nat.not_le.1 hd) ?_ (hfront.symm ▸ hread)
      rw [hfront, hhead]
      decide

/-! ### Whole texts -/

/-- What is printed is a C string. -/
lemma zero_notMem_printValue (v : Json) : ∀ depth b, printValue fmt depth v = some b → (0 : UInt8) ∉ b := by
  induction v using Json.ind with
  | null =>
    intro depth b h
    obtain rfl := Option.some.inj h
    decide
  | bool x =>
    intro depth b h
    cases x with
    | false =>
      obtain rfl := Option.some.inj h
      decide
    | true =>
      obtain rfl := Option.some.inj h
      decide
  | number t =>
    intro depth b h
    obtain rfl := Option.some.inj h
    cases htext : fmt.text t with
    | none => decide
    | some t' => exact fun hz => absurd ((fmt.isNumber t t' htext).chars 0 hz) (by decide)
  | string s =>
    intro depth b h
    obtain rfl := Option.some.inj h
    exact zero_notMem_printString s
  | array items ih =>
    have helements : ∀ (vs : List Json) depth b, (∀ v ∈ vs, ∀ depth b, printValue fmt depth v = some b → (0 : UInt8) ∉ b) →
        printElements fmt depth vs = some b → (0 : UInt8) ∉ b := by
      intro vs depth
      induction vs with
      | nil =>
        intro b _ h
        obtain rfl := Option.some.inj h
        exact List.not_mem_nil
      | cons v vs ihvs =>
        intro b hvs h
        rw [printElements] at h
        obtain ⟨b₁, hb₁, h⟩ := Option.bind_eq_some_iff.1 h
        obtain ⟨b₂, hb₂, rfl⟩ := Option.map_eq_some_iff.1 h
        have h₁ := hvs v List.mem_cons_self depth b₁ hb₁
        have h₂ := ihvs b₂ (fun w hw => hvs w (List.mem_cons_of_mem _ hw)) hb₂
        split_ifs <;> simp [h₁, h₂]
    intro depth b h
    rw [printValue] at h
    split_ifs at h
    obtain ⟨b', hb', rfl⟩ := Option.map_eq_some_iff.1 h
    have hz := helements items (depth + 1) b' ih hb'
    simp [hz]
  | object members ih =>
    have htabs : ∀ n, (0 : UInt8) ∉ List.replicate n (9 : UInt8) := by
      intro n h
      exact absurd (List.eq_of_mem_replicate h) (by decide)
    have hmembers : ∀ (ms : List (Bytes × Json)) depth b,
        (∀ m ∈ ms, ∀ depth b, printValue fmt depth m.2 = some b → (0 : UInt8) ∉ b) →
        printMembers fmt depth ms = some b → (0 : UInt8) ∉ b := by
      intro ms depth
      induction ms with
      | nil =>
        intro b _ h
        obtain rfl := Option.some.inj h
        exact List.not_mem_nil
      | cons m ms ihms =>
        intro b hms h
        rw [printMembers] at h
        obtain ⟨b₁, hb₁, h⟩ := Option.bind_eq_some_iff.1 h
        obtain ⟨b₂, hb₂, rfl⟩ := Option.map_eq_some_iff.1 h
        have h₁ := hms m List.mem_cons_self depth b₁ hb₁
        have h₂ := ihms b₂ (fun w hw => hms w (List.mem_cons_of_mem _ hw)) hb₂
        have hkey := zero_notMem_printString m.1
        have htab := htabs depth
        split_ifs <;> simp only [List.mem_append, List.mem_cons, h₁, h₂, hkey, htab, List.not_mem_nil] <;> decide
    intro depth b h
    rw [printValue] at h
    split_ifs at h
    obtain ⟨b', hb', rfl⟩ := Option.map_eq_some_iff.1 h
    have hz := hmembers members (depth + 1) b' ih hb'
    have htab := htabs depth
    simp only [List.mem_append, List.mem_cons, List.cons_append, hz, htab, List.not_mem_nil]
    decide

/-- A value is printed when there is room for what it nests, and only then. -/
lemma isSome_printValue (v : Json) :
    ∀ depth ≤ nestingLimit, (printValue fmt depth v).isSome = true ↔ depth + nesting v ≤ nestingLimit := by
  induction v using Json.ind with
  | null => exact fun depth hd => iff_of_true rfl hd
  | bool x => exact fun depth hd => iff_of_true (by cases x <;> rfl) hd
  | number t => exact fun depth hd => iff_of_true rfl hd
  | string s => exact fun depth hd => iff_of_true rfl hd
  | array items ih =>
    have helements : ∀ (vs : List Json) depth, depth ≤ nestingLimit →
        (∀ v ∈ vs, ∀ depth ≤ nestingLimit, (printValue fmt depth v).isSome = true ↔ depth + nesting v ≤ nestingLimit) →
        ((printElements fmt depth vs).isSome = true ↔ depth + nestingElements vs ≤ nestingLimit) := by
      intro vs depth hd hvs
      induction vs with
      | nil => exact iff_of_true rfl hd
      | cons v vs ihvs =>
        have h₁ := hvs v List.mem_cons_self depth hd
        have h₂ := ihvs fun w hw => hvs w (List.mem_cons_of_mem _ hw)
        rw [printElements, nestingElements, Option.isSome_bind]
        cases hv : printValue fmt depth v with
        | none =>
          rw [hv] at h₁
          exact iff_of_false Bool.false_ne_true fun h => Bool.false_ne_true (h₁.2 (by omega))
        | some b =>
          rw [hv] at h₁
          have hroom := h₁.1 rfl
          rw [Option.any_some, Option.isSome_map, h₂]
          omega
    intro depth hd
    rw [printValue, nesting]
    split_ifs with hfull
    · exact iff_of_false Bool.false_ne_true (by omega)
    · rw [Option.isSome_map, helements items (depth + 1) (by omega) ih]
      omega
  | object members ih =>
    have hmembers : ∀ (ms : List (Bytes × Json)) depth, depth ≤ nestingLimit →
        (∀ m ∈ ms, ∀ depth ≤ nestingLimit,
          (printValue fmt depth m.2).isSome = true ↔ depth + nesting m.2 ≤ nestingLimit) →
        ((printMembers fmt depth ms).isSome = true ↔ depth + nestingMembers ms ≤ nestingLimit) := by
      intro ms depth hd hms
      induction ms with
      | nil => exact iff_of_true rfl hd
      | cons m ms ihms =>
        obtain ⟨key, v⟩ := m
        have h₁ := hms (key, v) List.mem_cons_self depth hd
        have h₂ := ihms fun w hw => hms w (List.mem_cons_of_mem _ hw)
        rw [printMembers, nestingMembers, Option.isSome_bind]
        cases hv : printValue fmt depth v with
        | none =>
          rw [hv] at h₁
          exact iff_of_false Bool.false_ne_true fun h => Bool.false_ne_true (h₁.2 (by show depth + nesting v ≤ _; omega))
        | some b =>
          rw [hv] at h₁
          have hroom : depth + nesting v ≤ nestingLimit := h₁.1 rfl
          rw [Option.any_some, Option.isSome_map, h₂]
          omega
    intro depth hd
    rw [printValue, nesting]
    split_ifs with hfull
    · exact iff_of_false Bool.false_ne_true (by omega)
    · rw [Option.isSome_map, hmembers members (depth + 1) (by omega) ih]
      omega

/-- **The text of an object is parsed** to what is read back of it. -/
theorem parse_print (h : print fmt (.object ms) = some b) : parse b = some (reread fmt (.object ms)) := by
  have hhead : b.head? = some 123 := by
    rw [print, printValue] at h
    split_ifs at h
    obtain ⟨b', -, rfl⟩ := Option.map_eq_some_iff.1 h
    rfl
  exact (readsBack (.object ms) 0 b [0] h (stops_cons (by decide))).parse (zero_notMem_printValue _ 0 b h) hhead

end Values

end Two09.Lib.Json
