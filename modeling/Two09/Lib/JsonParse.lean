import Two09.Lib.Json

/-!
# Parsing JSON

`cJSON_Parse`, which reads a C string up to the end of the first value. The parse buffer is what is
left of the text, with the NUL at its end.
-/

namespace Two09.Lib.Json

/-! ### Tokens -/

/-- `CJSON_NESTING_LIMIT` -/
def nestingLimit : Nat := 1000

/-- `buffer_skip_whitespace`, which stays in front of the last byte. -/
def skipWhitespace (s : Bytes) : Bytes :=
  match s.dropWhile (· ≤ 32) with
  | [] => s.drop (s.length - 1)
  | c :: rest => c :: rest

def isDigit (c : UInt8) : Bool := decide (48 ≤ c ∧ c ≤ 57)

/-- One digit of `parse_hex4`. -/
def hexDigit (c : UInt8) : Option Nat :=
  if isDigit c then some (c.toNat - 48)
  else if 65 ≤ c ∧ c ≤ 70 then some (10 + c.toNat - 65)
  else if 97 ≤ c ∧ c ≤ 102 then some (10 + c.toNat - 97)
  else none

/-- `parse_hex4`: 0 if one of the digits is none. -/
def parseHex4 (s : Bytes) : Nat :=
  match (s.take 4).mapM hexDigit with
  | some digits => digits.foldl (fun h d => h * 16 + d) 0
  | none => 0

/-- The UTF-8 encoding at the end of `utf16_literal_to_utf8`. -/
def encodeUtf8 (codepoint : Nat) : Bytes :=
  let byte (n : Nat) : UInt8 := UInt8.ofNat n
  let next (n : Nat) : UInt8 := byte (0x80 + n % 64)
  if codepoint < 0x80 then [byte codepoint]
  else if codepoint < 0x800 then [byte (0xC0 + codepoint / 64), next codepoint]
  else if codepoint < 0x10000 then
    [byte (0xE0 + codepoint / 4096), next (codepoint / 64), next codepoint]
  else [byte (0xF0 + codepoint / 262144), next (codepoint / 4096), next (codepoint / 64),
    next codepoint]

/-- `utf16_literal_to_utf8`: the bytes, and how long the literal is. -/
def utf16LiteralToUtf8 (s : Bytes) : Option (Bytes × Nat) :=
  if s.length < 6 then none
  else
    let first := parseHex4 (s.drop 2)
    if 0xDC00 ≤ first ∧ first ≤ 0xDFFF then none
    else if 0xD800 ≤ first ∧ first ≤ 0xDBFF then
      let second := s.drop 6
      if second.length < 6 ∨ second.take 2 ≠ ascii "\\u" then none
      else
        let code := parseHex4 (second.drop 2)
        if code < 0xDC00 ∨ 0xDFFF < code then none
        else some (encodeUtf8 (0x10000 + (first % 0x400 * 0x400 + code % 0x400)), 12)
    else some (encodeUtf8 first, 6)

/-- The character a backslash and `c` stand for. -/
def unescapeChar (c : UInt8) : Option UInt8 :=
  if c = 98 then some 8
  else if c = 102 then some 12
  else if c = 110 then some 10
  else if c = 114 then some 13
  else if c = 116 then some 9
  else if c = 34 ∨ c = 92 ∨ c = 47 then some c
  else none

/-- The second loop of `parse_string`, over what stands between the quotes. Each round takes a byte at
least. -/
def unescape : Nat → Bytes → Option Bytes
  | _, [] => some []
  | 0, _ :: _ => none
  | n + 1, c :: s =>
    if c ≠ 92 then (unescape n s).map (c :: ·)
    else match s with
      | [] => none
      | e :: s =>
        if e = 117 then
          match utf16LiteralToUtf8 (c :: e :: s) with
          | none => none
          | some (out, len) => (unescape n (s.drop (len - 2))).map (out ++ ·)
        else match unescapeChar e with
          | none => none
          | some out => (unescape n s).map (out :: ·)

/-- The first loop of `parse_string`: up to the closing quote, and past it. -/
def scanString : Bytes → Option (Bytes × Bytes)
  | [] => none
  | [c] => if c = 34 then some ([], []) else none
  | c :: e :: s =>
    if c = 34 then some ([], e :: s)
    else if c = 92 then (scanString s).map fun r => (c :: e :: r.1, r.2)
    else (scanString (e :: s)).map fun r => (c :: r.1, r.2)

/-- `parse_string`: the value as a C string, and what is left. -/
def parseString : Bytes → Option (Bytes × Bytes)
  | [] => none
  | c :: s =>
    if c = 34 then
      match scanString s with
      | none => none
      | some (raw, rest) => (unescape raw.length raw).map fun out => (cstr out, rest)
    else none

/-- The digits at the front. -/
def digits (s : Bytes) : Nat := (s.takeWhile isDigit).length

/-- How much of a decimal number `strtod` takes. -/
def strtodLength (s : Bytes) : Nat :=
  let isSign (c : UInt8) : Bool := decide (c = 43 ∨ c = 45)
  let sign (s : Bytes) : Nat := if s.head?.any isSign then 1 else 0
  let int := sign s
  let whole := digits (s.drop int)
  let dot := if (s.drop (int + whole)).head? = some 46 then 1 else 0
  let frac := if dot = 1 then digits (s.drop (int + whole + 1)) else 0
  if whole + frac = 0 then 0
  else
    let mantissa := int + whole + dot + frac
    let exp := s.drop mantissa
    if exp.head? = some 101 ∨ exp.head? = some 69 then
      let power := digits (exp.drop (1 + sign (exp.drop 1)))
      if power = 0 then mantissa else mantissa + 1 + sign (exp.drop 1) + power
    else mantissa

/-- The characters `parse_number` gives to `strtod`. -/
def isNumberChar (c : UInt8) : Bool := isDigit c || decide (c ∈ ascii "+-eE.")

/-- `parse_number` -/
def parseNumber (s : Bytes) : Option (Json × Bytes) :=
  let n := strtodLength (s.takeWhile isNumberChar)
  if n = 0 then none else some (number (s.take n), s.drop n)

/-! ### Values -/

/-- The words that `parse_value` looks for first. -/
def parseLiteral (s : Bytes) : Option (Json × Bytes) :=
  if (ascii "null").isPrefixOf s then some (null, s.drop 4)
  else if (ascii "false").isPrefixOf s then some (bool false, s.drop 5)
  else if (ascii "true").isPrefixOf s then some (bool true, s.drop 4)
  else none

mutual

/-- `parse_value`, with `parse_array` and `parse_object`. -/
def parseValue : Nat → Nat → Bytes → Option (Json × Bytes)
  | 0, _, _ => none
  | fuel + 1, depth, s =>
    match parseLiteral s, s with
    | some r, _ => some r
    | none, [] => none
    | none, c :: rest =>
        if c = 34 then (parseString (c :: rest)).map fun r => (string r.1, r.2)
        else if c = 45 ∨ isDigit c = true then parseNumber (c :: rest)
        else if c = 91 then
          if nestingLimit ≤ depth then none
          else if (skipWhitespace rest).head? = some 93 then
            some (array [], (skipWhitespace rest).tail)
          else (parseElements fuel (depth + 1) (skipWhitespace rest)).map fun r => (array r.1, r.2)
        else if c = 123 then
          if nestingLimit ≤ depth then none
          else if (skipWhitespace rest).head? = some 125 then
            some (object [], (skipWhitespace rest).tail)
          else (parseMembers fuel (depth + 1) (skipWhitespace rest)).map fun r => (object r.1, r.2)
        else none

/-- The loop of `parse_array`, in front of an element. -/
def parseElements : Nat → Nat → Bytes → Option (List Json × Bytes)
  | 0, _, _ => none
  | fuel + 1, depth, s =>
    match parseValue fuel depth s with
    | none => none
    | some (v, s) =>
      match skipWhitespace s with
      | [] => none
      | c :: s =>
        if c = 44 then
          (parseElements fuel depth (skipWhitespace s)).map fun r => (v :: r.1, r.2)
        else if c = 93 then some ([v], s)
        else none

/-- The loop of `parse_object`, in front of a name. -/
def parseMembers : Nat → Nat → Bytes → Option (List (Bytes × Json) × Bytes)
  | 0, _, _ => none
  | fuel + 1, depth, s =>
    match parseString s with
    | none => none
    | some (key, s) =>
      match skipWhitespace s with
      | [] => none
      | colon :: s =>
        if colon = 58 then
          match parseValue fuel depth (skipWhitespace s) with
          | none => none
          | some (v, s) =>
            match skipWhitespace s with
            | [] => none
            | c :: s =>
              if c = 44 then
                (parseMembers fuel depth (skipWhitespace s)).map fun r => ((key, v) :: r.1, r.2)
              else if c = 125 then some ([(key, v)], s)
              else none
        else none

end

section Unfold
variable {fuel depth : Nat} {c : UInt8} {s : Bytes} {r : Json × Bytes}

lemma parseValue_literal (h : parseLiteral s = some r) : parseValue (fuel + 1) depth s = some r := by
  rw [parseValue.eq_def]
  simp only [h]

lemma parseValue_cons (h : parseLiteral (c :: s) = none) : parseValue (fuel + 1) depth (c :: s) =
    if c = 34 then (parseString (c :: s)).map fun r => (string r.1, r.2)
    else if c = 45 ∨ isDigit c = true then parseNumber (c :: s)
    else if c = 91 then
      if nestingLimit ≤ depth then none
      else if (skipWhitespace s).head? = some 93 then some (array [], (skipWhitespace s).tail)
      else (parseElements fuel (depth + 1) (skipWhitespace s)).map fun r => (array r.1, r.2)
    else if c = 123 then
      if nestingLimit ≤ depth then none
      else if (skipWhitespace s).head? = some 125 then some (object [], (skipWhitespace s).tail)
      else (parseMembers fuel (depth + 1) (skipWhitespace s)).map fun r => (object r.1, r.2)
    else none := by
  rw [parseValue.eq_def]
  simp only [h]

end Unfold

/-! ### How much is read -/

lemma length_skipWhitespace_le (s : Bytes) : (skipWhitespace s).length ≤ s.length := by
  unfold skipWhitespace
  split
  · simp
  next c rest h =>
    rw [← h]
    exact (List.dropWhile_suffix _).length_le

lemma scanString_length {s raw rest : Bytes} (h : scanString s = some (raw, rest)) :
    rest.length < s.length := by
  induction s using scanString.induct generalizing raw rest with
  | case1 => cases h
  | case2 =>
    obtain ⟨-, rfl⟩ := Prod.mk.injEq .. ▸ Option.some.inj h
    simp
  | case3 c hc =>
    rw [scanString, if_neg hc] at h
    cases h
  | case4 e s =>
    obtain ⟨-, rfl⟩ := Prod.mk.injEq .. ▸ Option.some.inj h
    simp
  | case5 e s _ ih =>
    rw [scanString, if_neg (by decide), if_pos rfl] at h
    obtain ⟨r, hr, heq⟩ := Option.map_eq_some_iff.1 h
    obtain ⟨-, rfl⟩ := Prod.mk.injEq .. ▸ heq
    have hlt := ih hr
    simp only [List.length_cons]
    omega
  | case6 c e s hc hb ih =>
    rw [scanString, if_neg hc, if_neg hb] at h
    obtain ⟨r, hr, heq⟩ := Option.map_eq_some_iff.1 h
    obtain ⟨-, rfl⟩ := Prod.mk.injEq .. ▸ heq
    have hlt := ih hr
    simp only [List.length_cons] at hlt ⊢
    omega

lemma parseString_length {s v rest : Bytes} (h : parseString s = some (v, rest)) :
    rest.length < s.length := by
  cases s with
  | nil => cases h
  | cons c s =>
    rw [parseString] at h
    split_ifs at h
    split at h
    next => cases h
    next raw rest' hscan =>
      obtain ⟨out, -, heq⟩ := Option.map_eq_some_iff.1 h
      obtain ⟨-, rfl⟩ := Prod.mk.injEq .. ▸ heq
      have := scanString_length hscan
      simp only [List.length_cons]
      omega

lemma parseNumber_length {c : UInt8} {s rest : Bytes} {v : Json}
    (h : parseNumber (c :: s) = some (v, rest)) : rest.length < (c :: s).length := by
  unfold parseNumber at h
  simp only at h
  split_ifs at h with hn
  obtain ⟨-, rfl⟩ := Prod.mk.injEq .. ▸ Option.some.inj h
  simp only [List.length_drop, List.length_cons]
  omega

lemma parseLiteral_length {s rest : Bytes} {v : Json} (h : parseLiteral s = some (v, rest)) :
    rest.length < s.length := by
  have hword : ∀ (word : Bytes) (n : Nat), word.length = n → 0 < n → word.isPrefixOf s = true →
      (s.drop n).length < s.length := by
    intro word n hn hpos hpre
    have hle := (List.isPrefixOf_iff_prefix.1 hpre).length_le
    rw [List.length_drop]
    omega
  unfold parseLiteral at h
  split_ifs at h with hnull hfalse htrue
  · obtain ⟨-, rfl⟩ := Prod.mk.injEq .. ▸ Option.some.inj h
    exact hword _ 4 rfl (by omega) hnull
  · obtain ⟨-, rfl⟩ := Prod.mk.injEq .. ▸ Option.some.inj h
    exact hword _ 5 rfl (by omega) hfalse
  · obtain ⟨-, rfl⟩ := Prod.mk.injEq .. ▸ Option.some.inj h
    exact hword _ 4 rfl (by omega) htrue

/-- Whatever is parsed takes a byte at least. -/
lemma parse_length (fuel : Nat) :
    (∀ depth s v rest, parseValue fuel depth s = some (v, rest) → rest.length < s.length) ∧
    (∀ depth s vs rest, parseElements fuel depth s = some (vs, rest) → rest.length < s.length) ∧
    ∀ depth s ms rest, parseMembers fuel depth s = some (ms, rest) → rest.length < s.length := by
  induction fuel with
  | zero =>
    refine ⟨fun depth s v rest h => ?_, fun depth s vs rest h => ?_, fun depth s ms rest h => ?_⟩
    · cases h
    · cases h
    · cases h
  | succ fuel ih =>
    obtain ⟨ihValue, ihElements, ihMembers⟩ := ih
    refine ⟨fun depth s v rest h => ?_, fun depth s vs rest h => ?_, fun depth s ms rest h => ?_⟩
    · cases hlit : parseLiteral s with
      | some r =>
        rw [parseValue_literal hlit] at h
        obtain rfl := Option.some.inj h
        exact parseLiteral_length hlit
      | none =>
      cases s with
      | nil => cases h
      | cons c s =>
        rw [parseValue_cons hlit] at h
        have hskip := length_skipWhitespace_le s
        split_ifs at h
        · obtain ⟨r, hr, heq⟩ := Option.map_eq_some_iff.1 h
          obtain ⟨-, rfl⟩ := Prod.mk.injEq .. ▸ heq
          exact parseString_length hr
        · exact parseNumber_length h
        · obtain ⟨-, rfl⟩ := Prod.mk.injEq .. ▸ Option.some.inj h
          simp only [List.length_tail, List.length_cons]
          omega
        · obtain ⟨r, hr, heq⟩ := Option.map_eq_some_iff.1 h
          obtain ⟨-, rfl⟩ := Prod.mk.injEq .. ▸ heq
          have hlt := ihElements _ _ _ _ hr
          simp only [List.length_cons]
          omega
        · obtain ⟨-, rfl⟩ := Prod.mk.injEq .. ▸ Option.some.inj h
          simp only [List.length_tail, List.length_cons]
          omega
        · obtain ⟨r, hr, heq⟩ := Option.map_eq_some_iff.1 h
          obtain ⟨-, rfl⟩ := Prod.mk.injEq .. ▸ heq
          have hlt := ihMembers _ _ _ _ hr
          simp only [List.length_cons]
          omega
    · rw [parseElements] at h
      split at h
      next => cases h
      next v s₁ hv =>
        have hlt := ihValue _ _ _ _ hv
        have hskip := length_skipWhitespace_le s₁
        split at h
        next => cases h
        next c s₂ hs₂ =>
          rw [hs₂, List.length_cons] at hskip
          split_ifs at h
          · obtain ⟨r, hr, heq⟩ := Option.map_eq_some_iff.1 h
            obtain ⟨-, rfl⟩ := Prod.mk.injEq .. ▸ heq
            have hlt' := ihElements _ _ _ _ hr
            have hskip' := length_skipWhitespace_le s₂
            omega
          · obtain ⟨-, rfl⟩ := Prod.mk.injEq .. ▸ Option.some.inj h
            omega
    · rw [parseMembers] at h
      split at h
      next => cases h
      next key s₁ hkey =>
        have hlt := parseString_length hkey
        have hskip := length_skipWhitespace_le s₁
        split at h
        next => cases h
        next colon s₂ hs₂ =>
          rw [hs₂, List.length_cons] at hskip
          have hskip₂ := length_skipWhitespace_le s₂
          split_ifs at h
          split at h
          next => cases h
          next v s₃ hv =>
            have hlt₃ := ihValue _ _ _ _ hv
            have hskip₃ := length_skipWhitespace_le s₃
            split at h
            next => cases h
            next c s₄ hs₄ =>
              rw [hs₄, List.length_cons] at hskip₃
              split_ifs at h
              · obtain ⟨r, hr, heq⟩ := Option.map_eq_some_iff.1 h
                obtain ⟨-, rfl⟩ := Prod.mk.injEq .. ▸ heq
                have hlt' := ihMembers _ _ _ _ hr
                have hskip₄ := length_skipWhitespace_le s₄
                omega
              · obtain ⟨-, rfl⟩ := Prod.mk.injEq .. ▸ Option.some.inj h
                omega

/-- With more fuel, and less deep, what is parsed stays as it is. -/
lemma parse_mono (fuel : Nat) :
    (∀ fuel' depth depth' s r, fuel ≤ fuel' → depth' ≤ depth → parseValue fuel depth s = some r →
      parseValue fuel' depth' s = some r) ∧
    (∀ fuel' depth depth' s r, fuel ≤ fuel' → depth' ≤ depth → parseElements fuel depth s = some r →
      parseElements fuel' depth' s = some r) ∧
    ∀ fuel' depth depth' s r, fuel ≤ fuel' → depth' ≤ depth → parseMembers fuel depth s = some r →
      parseMembers fuel' depth' s = some r := by
  induction fuel with
  | zero =>
    refine ⟨fun _ _ _ _ _ _ _ h => ?_, fun _ _ _ _ _ _ _ h => ?_, fun _ _ _ _ _ _ _ h => ?_⟩
    · cases h
    · cases h
    · cases h
  | succ fuel ih =>
    obtain ⟨ihValue, ihElements, ihMembers⟩ := ih
    refine ⟨fun fuel' depth depth' s r hf hd h => ?_, fun fuel' depth depth' s r hf hd h => ?_,
      fun fuel' depth depth' s r hf hd h => ?_⟩
    · obtain ⟨fuel', rfl⟩ := Nat.exists_eq_add_of_le' hf
      cases hlit : parseLiteral s with
      | some r' => rwa [← Nat.add_assoc, parseValue_literal hlit, ← parseValue_literal hlit]
      | none =>
      cases s with
      | nil => cases h
      | cons c s =>
        rw [← Nat.add_assoc, parseValue_cons hlit]
        rw [parseValue_cons hlit] at h
        split_ifs at h ⊢ with hstring hnumber harray hdeep hdeep' hempty hobject hdeep hdeep' hempty
        all_goals first | exact h | omega | skip
        · obtain ⟨vs, hvs, rfl⟩ := Option.map_eq_some_iff.1 h
          rw [ihElements _ _ _ _ _ (by omega) (by omega) hvs]
          rfl
        · obtain ⟨ms, hms, rfl⟩ := Option.map_eq_some_iff.1 h
          rw [ihMembers _ _ _ _ _ (by omega) (by omega) hms]
          rfl
    · obtain ⟨fuel', rfl⟩ := Nat.exists_eq_add_of_le' hf
      rw [← Nat.add_assoc, parseElements]
      rw [parseElements] at h
      split at h
      next => cases h
      next v s₁ hv =>
        rw [ihValue _ _ _ _ _ (by omega) hd hv]
        simp only
        split at h
        next => cases h
        next c s₂ hs₂ =>
          split_ifs at h ⊢
          · obtain ⟨vs, hvs, rfl⟩ := Option.map_eq_some_iff.1 h
            rw [ihElements _ _ _ _ _ (by omega) hd hvs]
            rfl
          · exact h
    · obtain ⟨fuel', rfl⟩ := Nat.exists_eq_add_of_le' hf
      rw [← Nat.add_assoc, parseMembers]
      rw [parseMembers] at h
      split at h
      next => cases h
      next key s₁ hkey =>
        split at h
        next => cases h
        next colon s₂ hs₂ =>
          split_ifs at h ⊢
          split at h
          next => cases h
          next v s₃ hv =>
            rw [ihValue _ _ _ _ _ (by omega) hd hv]
            simp only
            split at h
            next => cases h
            next c s₄ hs₄ =>
              split_ifs at h ⊢
              · obtain ⟨ms, hms, rfl⟩ := Option.map_eq_some_iff.1 h
                rw [ihMembers _ _ _ _ _ (by omega) hd hms]
                rfl
              · exact h

/-- **The text bounds the recursion**: with two rounds for each byte, more change nothing. -/
lemma parse_stable (fuel : Nat) :
    (∀ depth (s : Bytes), 2 * s.length ≤ fuel →
      parseValue (fuel + 1) depth s = parseValue fuel depth s) ∧
    (∀ depth (s : Bytes), 2 * s.length + 1 ≤ fuel →
      parseElements (fuel + 1) depth s = parseElements fuel depth s) ∧
    ∀ depth (s : Bytes), 2 * s.length + 1 ≤ fuel →
      parseMembers (fuel + 1) depth s = parseMembers fuel depth s := by
  induction fuel with
  | zero =>
    refine ⟨fun depth s h => ?_, fun depth s h => ?_, fun depth s h => ?_⟩
    · obtain rfl : s = [] := List.eq_nil_of_length_eq_zero (by omega)
      rfl
    · omega
    · omega
  | succ fuel ih =>
    obtain ⟨ihValue, ihElements, ihMembers⟩ := ih
    refine ⟨fun depth s hf => ?_, fun depth s hf => ?_, fun depth s hf => ?_⟩
    · cases hlit : parseLiteral s with
      | some r => rw [parseValue_literal hlit, parseValue_literal hlit]
      | none =>
      cases s with
      | nil => rfl
      | cons c s =>
        have hskip := length_skipWhitespace_le s
        rw [List.length_cons] at hf
        rw [parseValue_cons hlit, parseValue_cons hlit, ihElements _ _ (by omega),
          ihMembers _ _ (by omega)]
    · rw [parseElements, parseElements, ihValue _ _ (by omega)]
      split
      next => rfl
      next v s₁ hv =>
        have hlt := (parse_length fuel).1 _ _ _ _ hv
        have hskip := length_skipWhitespace_le s₁
        split
        next => rfl
        next c s₂ hs₂ =>
          have hskip₂ := length_skipWhitespace_le s₂
          rw [hs₂, List.length_cons] at hskip
          rw [ihElements _ _ (by omega)]
    · rw [parseMembers, parseMembers]
      split
      next => rfl
      next key s₁ hkey =>
        have hlt := parseString_length hkey
        have hskip := length_skipWhitespace_le s₁
        split
        next => rfl
        next colon s₂ hs₂ =>
          have hskip₂ := length_skipWhitespace_le s₂
          rw [hs₂, List.length_cons] at hskip
          rw [ihValue _ _ (by omega)]
          split_ifs
          · split
            next => rfl
            next v s₃ hv =>
              have hlt₃ := (parse_length fuel).1 _ _ _ _ hv
              have hskip₃ := length_skipWhitespace_le s₃
              split
              next => rfl
              next c s₄ hs₄ =>
                have hskip₄ := length_skipWhitespace_le s₄
                rw [hs₄, List.length_cons] at hskip₃
                rw [ihMembers _ _ (by omega)]
          · rfl

/-- `skip_utf8_bom` -/
def skipUtf8Bom (s : Bytes) : Bytes :=
  if 4 < s.length ∧ s.take 3 = [0xEF, 0xBB, 0xBF] then s.drop 3 else s

/-- `cJSON_Parse`. Two rounds for each byte are more than the recursion takes. -/
def parse (text : Bytes) : Option Json :=
  let s := skipWhitespace (skipUtf8Bom (cstr text ++ [0]))
  (parseValue (2 * s.length) 0 s).map Prod.fst

/-! ### What parses as what -/

/-- A value can be read in front of `s`, with `rest` left. -/
def Parses (depth : Nat) (s : Bytes) (v : Json) (rest : Bytes) : Prop :=
  ∃ fuel, parseValue fuel depth s = some (v, rest)

def ParsesElements (depth : Nat) (s : Bytes) (vs : List Json) (rest : Bytes) : Prop :=
  ∃ fuel, parseElements fuel depth s = some (vs, rest)

def ParsesMembers (depth : Nat) (s : Bytes) (ms : List (Bytes × Json)) (rest : Bytes) : Prop :=
  ∃ fuel, parseMembers fuel depth s = some (ms, rest)

section Rules
variable {depth depth' : Nat} {s s₁ s₂ s₃ s₄ rest rest' : Bytes} {v v' : Json} {vs : List Json}
  {ms : List (Bytes × Json)} {key out : Bytes}

/-- What can be read is read with two rounds for each byte. -/
lemma parses_iff : Parses depth s v rest ↔ parseValue (2 * s.length) depth s = some (v, rest) := by
  refine ⟨?_, fun h => ⟨_, h⟩⟩
  rintro ⟨fuel, h⟩
  have hbig : ∀ k, parseValue (2 * s.length + k) depth s = parseValue (2 * s.length) depth s := by
    intro k
    induction k with
    | zero => rfl
    | succ k ih => rw [← Nat.add_assoc, (parse_stable _).1 _ _ (by omega), ih]
  rw [← hbig fuel]
  exact (parse_mono fuel).1 _ _ _ _ _ (by omega) le_rfl h

lemma Parses.unique (h : Parses depth s v rest) (h' : Parses depth s v' rest') :
    v = v' ∧ rest = rest' := by
  rw [parses_iff] at h h'
  rw [h] at h'
  exact Prod.mk.injEq .. ▸ Option.some.inj h'

lemma Parses.string (h : parseString s = some (out, rest)) (hs : s.head? = some 34) :
    Parses depth s (.string out) rest := by
  cases s with
  | nil => cases h
  | cons c s =>
    obtain rfl := Option.some.inj hs
    refine ⟨1, ?_⟩
    rw [parseValue_cons rfl, if_pos rfl, h]
    rfl

lemma Parses.number {c : UInt8} (h : parseNumber (c :: s) = some (v, rest))
    (hc : c = 45 ∨ isDigit c = true) : Parses depth (c :: s) v rest := by
  have hword : ∀ d : UInt8, d ≠ 45 → isDigit d = false → c ≠ d := by
    rintro d h45 hd rfl
    rcases hc with hc | hc
    · exact h45 hc
    · rw [hc] at hd
      cases hd
  have hlit : parseLiteral (c :: s) = none := by
    have hn := hword 110 (by decide) (by decide)
    have hf := hword 102 (by decide) (by decide)
    have ht := hword 116 (by decide) (by decide)
    simp [parseLiteral, ascii, List.isPrefixOf, Ne.symm hn, Ne.symm hf, Ne.symm ht]
  exact ⟨1, by rw [parseValue_cons hlit, if_neg (hword 34 (by decide) (by decide)), if_pos hc, h]⟩

lemma Parses.array_nil (hd : depth < nestingLimit) (h : skipWhitespace s = 93 :: rest) :
    Parses depth (91 :: s) (.array []) rest := by
  refine ⟨1, ?_⟩
  rw [parseValue_cons rfl, h]
  simp [Nat.not_le.2 hd, isDigit]

lemma Parses.array (hd : depth < nestingLimit) (hne : (skipWhitespace s).head? ≠ some 93)
    (h : ParsesElements (depth + 1) (skipWhitespace s) vs rest) :
    Parses depth (91 :: s) (.array vs) rest := by
  obtain ⟨fuel, h⟩ := h
  refine ⟨fuel + 1, ?_⟩
  rw [parseValue_cons rfl, h]
  simp [Nat.not_le.2 hd, isDigit, hne]

lemma Parses.object (hd : depth < nestingLimit) (hne : (skipWhitespace s).head? ≠ some 125)
    (h : ParsesMembers (depth + 1) (skipWhitespace s) ms rest) :
    Parses depth (123 :: s) (.object ms) rest := by
  obtain ⟨fuel, h⟩ := h
  refine ⟨fuel + 1, ?_⟩
  rw [parseValue_cons rfl, h]
  simp [Nat.not_le.2 hd, isDigit, hne]

lemma Parses.object_nil (hd : depth < nestingLimit) (h : skipWhitespace s = 125 :: rest) :
    Parses depth (123 :: s) (.object []) rest := by
  refine ⟨1, ?_⟩
  rw [parseValue_cons rfl, h]
  simp [Nat.not_le.2 hd, isDigit]

/-- Brackets and braces are read within the limit only. -/
lemma Parses.depth_lt {c : UInt8} (h : Parses depth (c :: s) v rest) (hc : c = 91 ∨ c = 123) :
    depth < nestingLimit := by
  obtain ⟨fuel, h⟩ := h
  by_contra hd
  cases fuel with
  | zero => cases h
  | succ fuel =>
    rcases hc with rfl | rfl
    · rw [parseValue_cons rfl] at h
      simp [isDigit, Nat.not_lt.1 hd] at h
    · rw [parseValue_cons rfl] at h
      simp [isDigit, Nat.not_lt.1 hd] at h

lemma Parses.elements_of_array (hne : (skipWhitespace s).head? ≠ some 93)
    (h : Parses depth (91 :: s) v rest) :
    ∃ vs, ParsesElements (depth + 1) (skipWhitespace s) vs rest := by
  have hd := h.depth_lt (.inl rfl)
  obtain ⟨fuel, h⟩ := h
  cases fuel with
  | zero => cases h
  | succ fuel =>
    rw [parseValue_cons rfl] at h
    simp [isDigit, Nat.not_le.2 hd, hne] at h
    obtain ⟨vs, hvs, -⟩ := h
    exact ⟨vs, fuel, hvs⟩

lemma Parses.members_of_object (hne : (skipWhitespace s).head? ≠ some 125)
    (h : Parses depth (123 :: s) v rest) :
    ∃ ms, ParsesMembers (depth + 1) (skipWhitespace s) ms rest := by
  have hd := h.depth_lt (.inr rfl)
  obtain ⟨fuel, h⟩ := h
  cases fuel with
  | zero => cases h
  | succ fuel =>
    rw [parseValue_cons rfl] at h
    simp [isDigit, Nat.not_le.2 hd, hne] at h
    obtain ⟨ms, hms, -⟩ := h
    exact ⟨ms, fuel, hms⟩

lemma ParsesElements.last (h : Parses depth s v s₁) (hend : skipWhitespace s₁ = 93 :: rest) :
    ParsesElements depth s [v] rest := by
  obtain ⟨fuel, h⟩ := h
  refine ⟨fuel + 1, ?_⟩
  rw [parseElements, h]
  simp [hend]

lemma ParsesElements.cons (h : Parses depth s v s₁) (hcomma : skipWhitespace s₁ = 44 :: s₂)
    (hvs : ParsesElements depth (skipWhitespace s₂) vs rest) :
    ParsesElements depth s (v :: vs) rest := by
  obtain ⟨fuel, h⟩ := h
  obtain ⟨fuel', hvs⟩ := hvs
  refine ⟨fuel + fuel' + 1, ?_⟩
  rw [parseElements, (parse_mono fuel).1 _ _ _ _ _ (by omega) le_rfl h]
  simp only [hcomma, if_true]
  rw [(parse_mono fuel').2.1 _ _ _ _ _ (by omega) le_rfl hvs]
  rfl

/-- The first element can be read, and what follows its comma. -/
lemma ParsesElements.first (h : ParsesElements depth s vs rest) :
    ∃ v s₁, Parses depth s v s₁ ∧ ∀ s₂, skipWhitespace s₁ = 44 :: s₂ →
      ∃ vs, ParsesElements depth (skipWhitespace s₂) vs rest := by
  obtain ⟨fuel, h⟩ := h
  cases fuel with
  | zero => cases h
  | succ fuel =>
    rw [parseElements] at h
    split at h
    next => cases h
    next v s₁ hv =>
      refine ⟨v, s₁, ⟨fuel, hv⟩, fun s₂ hs₂ => ?_⟩
      simp only [hs₂, if_true] at h
      obtain ⟨r, hr, heq⟩ := Option.map_eq_some_iff.1 h
      obtain ⟨-, rfl⟩ := Prod.mk.injEq .. ▸ heq
      exact ⟨r.1, fuel, hr⟩

/-- The front of a member, up to its value. -/
structure MemberFront (s key rest : Bytes) : Prop where
  name : ∃ s₁, parseString s = some (key, s₁) ∧ skipWhitespace s₁ = 58 :: rest

lemma ParsesMembers.last (hkey : MemberFront s key s₂) (h : Parses depth (skipWhitespace s₂) v s₃)
    (hend : skipWhitespace s₃ = 125 :: rest) : ParsesMembers depth s [(key, v)] rest := by
  obtain ⟨s₁, hs₁, hcolon⟩ := hkey.name
  obtain ⟨fuel, h⟩ := h
  refine ⟨fuel + 1, ?_⟩
  rw [parseMembers, hs₁]
  simp [hcolon, h, hend]

lemma ParsesMembers.cons (hkey : MemberFront s key s₂) (h : Parses depth (skipWhitespace s₂) v s₃)
    (hcomma : skipWhitespace s₃ = 44 :: s₄)
    (hms : ParsesMembers depth (skipWhitespace s₄) ms rest) :
    ParsesMembers depth s ((key, v) :: ms) rest := by
  obtain ⟨s₁, hs₁, hcolon⟩ := hkey.name
  obtain ⟨fuel, h⟩ := h
  obtain ⟨fuel', hms⟩ := hms
  refine ⟨fuel + fuel' + 1, ?_⟩
  rw [parseMembers, hs₁]
  simp only [hcolon, if_true]
  rw [(parse_mono fuel).1 _ _ _ _ _ (by omega) le_rfl h]
  simp only [hcomma, if_true]
  rw [(parse_mono fuel').2.2 _ _ _ _ _ (by omega) le_rfl hms]
  rfl

/-- The first member's value can be read, and what follows its comma. -/
lemma ParsesMembers.first (h : ParsesMembers depth s ms rest) (hkey : MemberFront s key s₂) :
    ∃ v s₃, Parses depth (skipWhitespace s₂) v s₃ ∧ ∀ s₄, skipWhitespace s₃ = 44 :: s₄ →
      ∃ ms, ParsesMembers depth (skipWhitespace s₄) ms rest := by
  obtain ⟨s₁, hs₁, hcolon⟩ := hkey.name
  obtain ⟨fuel, h⟩ := h
  cases fuel with
  | zero => cases h
  | succ fuel =>
    rw [parseMembers, hs₁] at h
    simp only [hcolon, if_true] at h
    split at h
    next => cases h
    next v s₃ hv =>
      refine ⟨v, s₃, ⟨fuel, hv⟩, fun s₄ hs₄ => ?_⟩
      simp only [hs₄, if_true] at h
      obtain ⟨r, hr, heq⟩ := Option.map_eq_some_iff.1 h
      obtain ⟨-, rfl⟩ := Prod.mk.injEq .. ▸ heq
      exact ⟨r.1, fuel, hr⟩

end Rules

/-! ### Tokens written out -/

section Tokens
variable {c : UInt8} {s ws rest : Bytes}

lemma skipWhitespace_append (hws : ∀ c ∈ ws, c ≤ 32) (hc : 32 < c) :
    skipWhitespace (ws ++ c :: rest) = c :: rest := by
  have hdrop : (ws ++ c :: rest).dropWhile (· ≤ 32) = c :: rest := by
    rw [List.dropWhile_append_of_pos (by simpa using hws), List.dropWhile_cons_of_neg]
    simpa using hc
  rw [skipWhitespace, hdrop]

lemma skipWhitespace_blank (hc : c ≤ 32) (hne : s ≠ []) :
    skipWhitespace (c :: s) = skipWhitespace s := by
  have hdrop : (c :: s).dropWhile (· ≤ 32) = s.dropWhile (· ≤ 32) :=
    List.dropWhile_cons_of_pos (decide_eq_true hc)
  have hlast : (c :: s).drop ((c :: s).length - 1) = s.drop (s.length - 1) := by
    obtain ⟨d, t, rfl⟩ := List.exists_cons_of_ne_nil hne
    rfl
  rw [skipWhitespace, skipWhitespace, hdrop, hlast]

/-- A text that does not begin with white space. -/
def Solid (s : Bytes) : Prop := ∃ c t, s = c :: t ∧ 32 < c

lemma Solid.append (h : Solid s) (rest : Bytes) : Solid (s ++ rest) := by
  obtain ⟨c, t, rfl, hc⟩ := h
  exact ⟨c, t ++ rest, rfl, hc⟩

lemma Solid.skip (h : Solid s) (hws : ∀ c ∈ ws, c ≤ 32) : skipWhitespace (ws ++ s) = s := by
  obtain ⟨c, t, rfl, hc⟩ := h
  exact skipWhitespace_append hws hc

lemma skipWhitespace_cons (hc : 32 < c) : skipWhitespace (c :: rest) = c :: rest :=
  skipWhitespace_append (List.forall_mem_nil _) hc

/-- Bytes that stand for themselves in a string. -/
def Plain (s : Bytes) : Prop := ∀ c ∈ s, c ≠ 0 ∧ c ≠ 34 ∧ c ≠ 92

lemma scanString_plain (h : Plain s) : scanString (s ++ 34 :: rest) = some (s, rest) := by
  induction s with
  | nil => cases rest <;> simp [scanString]
  | cons c s ih =>
    obtain ⟨hc, hs⟩ := List.forall_mem_cons.1 h
    obtain ⟨e, t, ht⟩ : ∃ e t, s ++ 34 :: rest = e :: t := by cases s <;> simp
    have hrest := ih hs
    rw [List.cons_append, ht, scanString, if_neg hc.2.1, if_neg hc.2.2, ← ht, hrest]
    rfl

lemma unescape_plain (h : Plain s) : unescape s.length s = some s := by
  induction s with
  | nil => rfl
  | cons c s ih =>
    obtain ⟨hc, hs⟩ := List.forall_mem_cons.1 h
    rw [List.length_cons, unescape.eq_def]
    simp only [if_pos hc.2.2, ih hs, Option.map_some]

/-- **A plain string is read as it is.** -/
lemma parseString_plain (h : Plain s) : parseString (34 :: (s ++ 34 :: rest)) = some (s, rest) := by
  have hzero : (0 : UInt8) ∉ s := fun hz => (h 0 hz).1 rfl
  rw [parseString, if_pos rfl, scanString_plain h]
  simp only [unescape_plain h, Option.map_some, cstr_eq_self hzero]

lemma digits_append (hs : ∀ c ∈ s, isDigit c = true) (hc : isDigit c = false) :
    digits (s ++ c :: rest) = s.length := by
  rw [digits, List.takeWhile_append_of_pos hs, List.takeWhile_cons_of_neg (by simp [hc]),
    List.append_nil]

lemma digits_eq_length (hs : ∀ c ∈ s, isDigit c = true) : digits s = s.length := by
  rw [digits, List.takeWhile_eq_self_iff.2 hs]

lemma strtodLength_digits (hs : ∀ c ∈ s, isDigit c = true) : strtodLength s = s.length := by
  have hdig := digits_eq_length hs
  cases s with
  | nil => rfl
  | cons d t =>
    have hd := hs d List.mem_cons_self
    have hsign : ¬ (d = 43 ∨ d = 45) := by
      rintro (rfl | rfl) <;> exact absurd hd (by decide)
    simp [strtodLength, hsign, hdig]

lemma strtodLength_minus (hne : s ≠ []) (hs : ∀ c ∈ s, isDigit c = true) :
    strtodLength (45 :: s) = (45 :: s).length := by
  have hdig := digits_eq_length hs
  have hlen : s.length ≠ 0 := fun h => hne (List.eq_nil_of_length_eq_zero h)
  simp [strtodLength, hdig, hlen, Nat.add_comm]

/-- What `strtod` takes whole is read as a number, up to what is not part of one. -/
lemma parseNumber_whole (hne : s ≠ []) (hs : ∀ c ∈ s, isNumberChar c = true)
    (hlen : strtodLength s = s.length) (hc : isNumberChar c = false) :
    parseNumber (s ++ c :: rest) = some (number s, c :: rest) := by
  have htake : (s ++ c :: rest).takeWhile isNumberChar = s := by
    rw [List.takeWhile_append_of_pos hs, List.takeWhile_cons_of_neg (by simp [hc]), List.append_nil]
  have hpos : s.length ≠ 0 := fun h => hne (List.eq_nil_of_length_eq_zero h)
  rw [parseNumber, htake, hlen]
  simp [hpos]

/-- **A number is read back** up to what is not part of one. -/
lemma parses_signedDecimal {depth : Nat} (n : Int) (hc : isNumberChar c = false) :
    Parses depth (signedDecimal n ++ c :: rest) (number (signedDecimal n)) (c :: rest) := by
  have hdigits : ∀ d ∈ decimal n.natAbs, isDigit d = true :=
    fun d hd => decide_eq_true (digit_of_mem_decimal hd)
  have hchars : ∀ d ∈ decimal n.natAbs, isNumberChar d = true :=
    fun d hd => by simp [isNumberChar, hdigits d hd]
  have hne := decimal_ne_nil n.natAbs
  unfold signedDecimal
  split_ifs with hn
  · have hminus : ∀ d ∈ 45 :: decimal n.natAbs, isNumberChar d = true := List.forall_mem_cons.2 ⟨by decide, hchars⟩
    have hread := @parseNumber_whole c _ rest (List.cons_ne_nil _ _) hminus (strtodLength_minus hne hdigits) hc
    exact .number hread (.inl rfl)
  · have hread := @parseNumber_whole c _ rest hne hchars (strtodLength_digits hdigits) hc
    obtain ⟨d, t, hdt⟩ := List.exists_cons_of_ne_nil hne
    rw [hdt] at hread hdigits ⊢
    exact .number hread (.inr (hdigits d List.mem_cons_self))

end Tokens

/-! ### Whole texts -/

section Text
variable {text rest : Bytes} {v : Json}

/-- A text that begins with an object is read from its first byte. -/
lemma parse_eq (hz : 0 ∉ text) (hhead : text.head? = some 123) :
    parse text = (parseValue (2 * (text ++ [0]).length) 0 (text ++ [0])).map Prod.fst := by
  cases text with
  | nil => cases hhead
  | cons c s =>
    obtain rfl := Option.some.inj hhead
    have hbom : skipUtf8Bom ((123 :: s) ++ [0]) = (123 :: s) ++ [0] := by
      rw [skipUtf8Bom, if_neg]
      simp
    rw [parse, cstr_eq_self hz, hbom, List.cons_append, skipWhitespace_cons (by decide)]

lemma Parses.parse (h : Parses 0 (text ++ [0]) v rest) (hz : 0 ∉ text)
    (hhead : text.head? = some 123) : parse text = some v := by
  rw [parse_eq hz hhead, parses_iff.1 h]
  rfl

lemma parses_of_parse (h : parse text = some v) (hz : 0 ∉ text) (hhead : text.head? = some 123) :
    ∃ rest, Parses 0 (text ++ [0]) v rest := by
  rw [parse_eq hz hhead] at h
  obtain ⟨r, hr, rfl⟩ := Option.map_eq_some_iff.1 h
  exact ⟨r.2, _, hr⟩

/-- A value does not begin with white space. -/
lemma Parses.skipWhitespace {depth : Nat} {s : Bytes} (h : Parses depth s v rest) :
    skipWhitespace s = s := by
  obtain ⟨fuel, h⟩ := h
  cases fuel with
  | zero => cases h
  | succ fuel =>
  cases s with
  | nil => rfl
  | cons c s =>
    refine skipWhitespace_cons ?_
    by_contra hc
    have hlow : ∀ d : UInt8, 32 < d → c ≠ d := by
      rintro d hd rfl
      exact hc hd
    have hlit : parseLiteral (c :: s) = none := by
      simp [parseLiteral, ascii, List.isPrefixOf, Ne.symm (hlow 110 (by decide)),
        Ne.symm (hlow 102 (by decide)), Ne.symm (hlow 116 (by decide))]
    have hdigit : ¬ (c = 45 ∨ isDigit c = true) := by
      rintro (h45 | hdig)
      · exact hlow 45 (by decide) h45
      · refine hc (UInt8.lt_of_lt_of_le ?_ (of_decide_eq_true hdig).1)
        decide
    rw [parseValue_cons hlit, if_neg (hlow 34 (by decide)), if_neg hdigit,
      if_neg (hlow 91 (by decide)), if_neg (hlow 123 (by decide))] at h
    cases h

end Text

end Two09.Lib.Json
