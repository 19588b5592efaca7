import Two09.Lib.JsonPrint

/-!
# The output of the evaluator

`nix_to_json`, over the tree that `json_serialize` walks, and what cJSON reads in its text.
-/

namespace Two09.Nix

open Two09.Lib

/-- The names that `ADD_BUILTIN` gives, and those of partial applications. -/
inductive BuiltinName
  | map | mapPartial | filter | filterPartial | length | head | tail | attrNames | attrValues
  | hasAttr | hasAttrPartial | getAttr | getAttrPartial | toJSON | fromJSON | trace | tracePartial
  | pathExists | readFile | abort | throw | toString | stringLength
  | replaceStrings | replaceStringsPartial1 | replaceStringsPartial2
  deriving DecidableEq

def BuiltinName.text : BuiltinName → String
  | map => "map"
  | mapPartial => "map(partial)"
  | filter => "filter"
  | filterPartial => "filter(partial)"
  | length => "length"
  | head => "head"
  | tail => "tail"
  | attrNames => "attrNames"
  | attrValues => "attrValues"
  | hasAttr => "hasAttr"
  | hasAttrPartial => "hasAttr(partial)"
  | getAttr => "getAttr"
  | getAttrPartial => "getAttr(partial)"
  | toJSON => "toJSON"
  | fromJSON => "fromJSON"
  | trace => "trace"
  | tracePartial => "trace(partial)"
  | pathExists => "pathExists"
  | readFile => "readFile"
  | abort => "abort"
  | throw => "throw"
  | toString => "toString"
  | stringLength => "stringLength"
  | replaceStrings => "replaceStrings"
  | replaceStringsPartial1 => "replaceStrings(partial1)"
  | replaceStringsPartial2 => "replaceStrings(partial2)"

/-- A value as `json_serialize` finds it: forced thunks are what they were forced to. -/
inductive Tree
  | null
  | bool (b : Bool)
  | int (n : Int)
  | string (s : Bytes)
  | path (s : Bytes)
  | list (items : List Tree)
  | attrSet (entries : List (Bytes × Tree))
  | lambda
  | builtin (name : BuiltinName)
  | thunk

/-- Induction over values. -/
theorem Tree.ind {motive : Tree → Prop} (null : motive .null) (bool : ∀ b, motive (.bool b))
    (int : ∀ n, motive (.int n)) (string : ∀ s, motive (.string s)) (path : ∀ s, motive (.path s))
    (list : ∀ items, (∀ v ∈ items, motive v) → motive (.list items))
    (attrSet : ∀ entries, (∀ e ∈ entries, motive e.2) → motive (.attrSet entries))
    (lambda : motive .lambda) (builtin : ∀ name, motive (.builtin name)) (thunk : motive .thunk)
    (v : Tree) : motive v :=
  @Tree.rec motive (fun items => ∀ v ∈ items, motive v) (fun entries => ∀ e ∈ entries, motive e.2)
    (fun e => motive e.2) null bool int string path list attrSet lambda builtin thunk
    (List.forall_mem_nil _) (fun _ _ h hs => List.forall_mem_cons.2 ⟨h, hs⟩)
    (List.forall_mem_nil _) (fun _ _ h hs => List.forall_mem_cons.2 ⟨h, hs⟩) (fun _ _ h => h) v

/-! ### Serializing -/

/-- A digit of `%04x`. -/
def hexChar (n : Nat) : UInt8 := if n < 10 then UInt8.ofNat (48 + n) else UInt8.ofNat (87 + n)

/-- One round of the loop of `json_escape_string`. -/
def escapeChar (c : UInt8) : Bytes :=
  if c = 34 then [92, 34]
  else if c = 92 then [92, 92]
  else if c = 10 then [92, 110]
  else if c = 13 then [92, 114]
  else if c = 9 then [92, 116]
  else if c = 8 then [92, 98]
  else if c = 12 then [92, 102]
  else if c < 32 then [92, 117, 48, 48, hexChar (c.toNat / 16), hexChar (c.toNat % 16)]
  else [c]

/-- `json_escape_string`, of a C string. -/
def jsonEscapeString (s : Bytes) : Bytes := 34 :: (cstr s).flatMap escapeChar ++ [34]

/-- `json_indent` -/
def jsonIndent (indent : Nat) : Bytes := List.replicate indent 32

mutual

/-- `json_serialize` -/
def jsonSerialize (indent : Nat) : Tree → Bytes
  | .null => ascii "null"
  | .bool b => ascii (if b then "true" else "false")
  | .int n => signedDecimal n
  | .string s => jsonEscapeString s
  | .path s => jsonEscapeString s
  | .list [] => ascii "[]"
  | .list (item :: items) =>
      ascii "[\n" ++ jsonItems indent (item :: items) ++ jsonIndent indent ++ ascii "]"
  | .attrSet [] => ascii "\x7b\x7d"
  | .attrSet (entry :: entries) =>
      ascii "\x7b\n" ++ jsonEntries indent (entry :: entries) ++ jsonIndent indent ++ ascii "\x7d"
  | .lambda => ascii "\"<lambda>\""
  | .builtin name => ascii "\"<builtin:" ++ ascii name.text ++ ascii ">\""
  | .thunk => ascii "\"<thunk>\""

/-- The loop over a list. -/
def jsonItems (indent : Nat) : List Tree → Bytes
  | [] => []
  | item :: items =>
      jsonIndent (indent + 2) ++ jsonSerialize (indent + 2) item ++
        (if items.isEmpty then [] else [44]) ++ 10 :: jsonItems indent items

/-- The loop over an attribute set. -/
def jsonEntries (indent : Nat) : List (Bytes × Tree) → Bytes
  | [] => []
  | (key, value) :: entries =>
      jsonIndent (indent + 2) ++ jsonEscapeString key ++ ascii ": " ++
        jsonSerialize (indent + 2) value ++
        (if entries.isEmpty then [] else [44]) ++ 10 :: jsonEntries indent entries

end

/-- `nix_to_json` -/
def nixToJson (value : Tree) : Bytes := jsonSerialize 0 value

/-! ### The value in the text -/

mutual

/-- What the text of a value stands for. -/
def Tree.json : Tree → Json
  | .null => .null
  | .bool b => .bool b
  | .int n => .number (signedDecimal n)
  | .string s => .string (cstr s)
  | .path s => .string (cstr s)
  | .list items => .array (Tree.jsonItems items)
  | .attrSet entries => .object (Tree.jsonEntries entries)
  | .lambda => .string (ascii "<lambda>")
  | .builtin name => .string (ascii "<builtin:" ++ ascii name.text ++ ascii ">")
  | .thunk => .string (ascii "<thunk>")

def Tree.jsonItems : List Tree → List Json
  | [] => []
  | item :: items => item.json :: Tree.jsonItems items

def Tree.jsonEntries : List (Bytes × Tree) → List (Bytes × Json)
  | [] => []
  | (key, value) :: entries => (cstr key, value.json) :: Tree.jsonEntries entries

end

mutual

/-- How many brackets and braces are open at once, at most. -/
def Tree.nesting : Tree → Nat
  | .list items => Tree.nestingItems items + 1
  | .attrSet entries => Tree.nestingEntries entries + 1
  | _ => 0

def Tree.nestingItems : List Tree → Nat
  | [] => 0
  | item :: items => max item.nesting (Tree.nestingItems items)

def Tree.nestingEntries : List (Bytes × Tree) → Nat
  | [] => 0
  | (_, value) :: entries => max value.nesting (Tree.nestingEntries entries)

end

/-! ### Strings read back -/

/-- The characters are escaped as by the printer of cJSON. -/
lemma escapeChar_eq (c : UInt8) : escapeChar c = Json.printChar c := by
  unfold escapeChar Json.printChar
  split_ifs <;> first | rfl | (exfalso; grind)

lemma jsonEscapeString_eq (s : Bytes) : jsonEscapeString s = Json.printString s := by
  unfold jsonEscapeString Json.printString
  rw [List.flatMap_congr fun c _ => escapeChar_eq c]

/-- **A string is read back** up to its first NUL. -/
lemma parseString_jsonEscapeString (s rest : Bytes) :
    Json.parseString (jsonEscapeString s ++ rest) = some (cstr s, rest) := by
  rw [jsonEscapeString_eq, Json.parseString_printString]

/-! ### Values read back -/

section Values
variable {c : UInt8} {s rest : Bytes} {depth : Nat}

open Json

lemma le_of_mem_jsonIndent {n : Nat} : ∀ c ∈ jsonIndent n, c ≤ 32 := by
  intro c hc
  rw [List.eq_of_mem_replicate hc]
  decide

lemma solid_jsonEscapeString (s : Bytes) : Solid (jsonEscapeString s) := ⟨34, _, rfl, by decide⟩

lemma solid_signedDecimal (n : Int) : Solid (signedDecimal n) := by
  unfold signedDecimal
  split_ifs with hn
  · exact ⟨45, _, rfl, by decide⟩
  · obtain ⟨d, t, hdt⟩ := List.exists_cons_of_ne_nil (decimal_ne_nil n.natAbs)
    have hd := (digit_of_mem_decimal (hdt ▸ List.mem_cons_self : d ∈ decimal n.natAbs)).1
    exact ⟨d, t, hdt, UInt8.lt_of_lt_of_le (by decide) hd⟩

lemma solid_jsonSerialize (indent : Nat) (v : Tree) : Solid (jsonSerialize indent v) := by
  cases v with
  | null => exact ⟨_, _, rfl, by decide⟩
  | bool b => cases b <;> exact ⟨_, _, rfl, by decide⟩
  | int n => exact solid_signedDecimal n
  | string s => exact solid_jsonEscapeString s
  | path s => exact solid_jsonEscapeString s
  | list items => cases items <;> exact ⟨91, _, rfl, by decide⟩
  | attrSet entries => cases entries <;> exact ⟨123, _, rfl, by decide⟩
  | lambda => exact ⟨_, _, rfl, by decide⟩
  | builtin name => exact ⟨34, _, rfl, by decide⟩
  | thunk => exact ⟨_, _, rfl, by decide⟩

lemma plain_ascii {s : String}
    (h : (ascii s).all (fun c => decide (c ≠ 0 ∧ c ≠ 34 ∧ c ≠ 92)) = true) : Plain (ascii s) :=
  fun c hc => of_decide_eq_true (List.all_eq_true.1 h c hc)

/-- A string without quotes in it is read back. -/
lemma parses_quoted (hs : Plain s) : Json.Parses depth (34 :: (s ++ 34 :: rest)) (.string s) rest :=
  .string (Json.parseString_plain hs) rfl

lemma parses_jsonEscapeString (s rest : Bytes) :
    Json.Parses depth (jsonEscapeString s ++ rest) (.string (cstr s)) rest :=
  .string (parseString_jsonEscapeString s rest) rfl

/-- Something can be read at a depth when there is room for what it nests, and only then. -/
structure Reads {α : Type} (parses : α → Bytes → Prop) (depth nesting : Nat) (v : α)
    (rest : Bytes) : Prop where
  read : depth + nesting ≤ nestingLimit → parses v rest
  room : ∀ v' rest', parses v' rest' → depth + nesting ≤ nestingLimit

section Reads
variable {nesting more : Nat} {v : Json} {vs : List Json} {ms : List (Bytes × Json)} {key : Bytes}
  {s₁ s₂ s₃ s₄ : Bytes}

lemma Reads.flat (hd : depth ≤ nestingLimit) (h : Json.Parses depth s v rest) :
    Reads (Json.Parses depth s) depth 0 v rest := ⟨fun _ => h, fun _ _ _ => hd⟩

lemma Reads.last_element (h : Reads (Json.Parses depth s) depth nesting v s₁)
    (hend : skipWhitespace s₁ = 93 :: rest) :
    Reads (ParsesElements depth s) depth (max nesting 0) [v] rest := by
  rw [Nat.max_zero]
  refine ⟨fun hroom => .last (h.read hroom) hend, fun vs' rest' hvs => ?_⟩
  obtain ⟨v', s', hv', -⟩ := hvs.first
  exact h.room v' s' hv'

lemma Reads.next_element (h : Reads (Json.Parses depth s) depth nesting v s₁)
    (hcomma : skipWhitespace s₁ = 44 :: s₂)
    (hvs : Reads (ParsesElements depth (skipWhitespace s₂)) depth more vs rest) :
    Reads (ParsesElements depth s) depth (max nesting more) (v :: vs) rest := by
  refine ⟨fun hroom => .cons (h.read (by omega)) hcomma (hvs.read (by omega)),
    fun vs' rest' hvs' => ?_⟩
  obtain ⟨v', s', hv', hnext⟩ := hvs'.first
  have hroom := h.room v' s' hv'
  obtain ⟨-, rfl⟩ := (h.read hroom).unique hv'
  obtain ⟨ws, hws⟩ := hnext s₂ hcomma
  have hmore := hvs.room ws rest' hws
  omega

lemma Reads.last_member (hkey : MemberFront s key s₂)
    (h : Reads (Json.Parses depth (skipWhitespace s₂)) depth nesting v s₃)
    (hend : skipWhitespace s₃ = 125 :: rest) :
    Reads (ParsesMembers depth s) depth (max nesting 0) [(key, v)] rest := by
  rw [Nat.max_zero]
  refine ⟨fun hroom => .last hkey (h.read hroom) hend, fun ms' rest' hms => ?_⟩
  obtain ⟨v', s', hv', -⟩ := hms.first hkey
  exact h.room v' s' hv'

lemma Reads.next_member (hkey : MemberFront s key s₂)
    (h : Reads (Json.Parses depth (skipWhitespace s₂)) depth nesting v s₃)
    (hcomma : skipWhitespace s₃ = 44 :: s₄)
    (hms : Reads (ParsesMembers depth (skipWhitespace s₄)) depth more ms rest) :
    Reads (ParsesMembers depth s) depth (max nesting more) ((key, v) :: ms) rest := by
  refine ⟨fun hroom => .cons hkey (h.read (by omega)) hcomma (hms.read (by omega)),
    fun ms' rest' hms' => ?_⟩
  obtain ⟨v', s', hv', hnext⟩ := hms'.first hkey
  have hroom := h.room v' s' hv'
  obtain ⟨-, rfl⟩ := (h.read hroom).unique hv'
  obtain ⟨ns, hns⟩ := hnext s₄ hcomma
  have hmore := hms.room ns rest' hns
  omega

lemma Reads.array (hne : (skipWhitespace s).head? ≠ some 93)
    (h : depth < nestingLimit →
      Reads (ParsesElements (depth + 1) (skipWhitespace s)) (depth + 1) nesting vs rest) :
    Reads (Json.Parses depth (91 :: s)) depth (nesting + 1) (.array vs) rest := by
  constructor
  · intro hroom
    have hd : depth < nestingLimit := by omega
    exact .array hd hne ((h hd).read (by omega))
  · intro v' rest' hv
    obtain ⟨vs', hvs⟩ := hv.elements_of_array hne
    have hroom := (h (hv.depth_lt (.inl rfl))).room vs' rest' hvs
    omega

lemma Reads.object (hne : (skipWhitespace s).head? ≠ some 125)
    (h : depth < nestingLimit →
      Reads (ParsesMembers (depth + 1) (skipWhitespace s)) (depth + 1) nesting ms rest) :
    Reads (Json.Parses depth (123 :: s)) depth (nesting + 1) (.object ms) rest := by
  constructor
  · intro hroom
    have hd : depth < nestingLimit := by omega
    exact .object hd hne ((h hd).read (by omega))
  · intro v' rest' hv
    obtain ⟨ms', hms⟩ := hv.members_of_object hne
    have hroom := (h (hv.depth_lt (.inr rfl))).room ms' rest' hms
    omega

end Reads

/-- The closing line of a list or a set. -/
lemma skip_close (n : Nat) (hc : 32 < c) :
    skipWhitespace (10 :: (jsonIndent n ++ c :: rest)) = c :: rest :=
  @skipWhitespace_append c (10 :: jsonIndent n) rest
    (List.forall_mem_cons.2 ⟨by decide, le_of_mem_jsonIndent⟩) hc

lemma jsonItems_last (indent : Nat) (item : Tree) (tail : Bytes) :
    jsonItems indent [item] ++ tail =
      jsonIndent (indent + 2) ++ (jsonSerialize (indent + 2) item ++ 10 :: tail) := by
  simp [jsonItems]

lemma jsonItems_cons (indent : Nat) (item next : Tree) (items : List Tree) (tail : Bytes) :
    jsonItems indent (item :: next :: items) ++ tail =
      jsonIndent (indent + 2) ++ (jsonSerialize (indent + 2) item ++
        44 :: 10 :: (jsonItems indent (next :: items) ++ tail)) := by
  simp [jsonItems]

lemma jsonItems_front (indent : Nat) (item : Tree) (items : List Tree) (tail : Bytes) :
    jsonItems indent (item :: items) ++ tail = jsonIndent (indent + 2) ++
      (jsonSerialize (indent + 2) item ++ ((if items.isEmpty then [] else [44]) ++
        10 :: (jsonItems indent items ++ tail))) := by
  simp [jsonItems]

lemma jsonEntries_front (indent : Nat) (entry : Bytes × Tree) (entries : List (Bytes × Tree))
    (tail : Bytes) :
    jsonEntries indent (entry :: entries) ++ tail = jsonIndent (indent + 2) ++
      (jsonEscapeString entry.1 ++ (58 :: 32 :: (jsonSerialize (indent + 2) entry.2 ++
        ((if entries.isEmpty then [] else [44]) ++ 10 :: (jsonEntries indent entries ++ tail))))) := by
  simp [jsonEntries, ascii]

lemma jsonEntries_last (indent : Nat) (key : Bytes) (value : Tree) (tail : Bytes) :
    jsonEntries indent [(key, value)] ++ tail =
      jsonIndent (indent + 2) ++ (jsonEscapeString key ++ 58 :: 32 ::
        (jsonSerialize (indent + 2) value ++ 10 :: tail)) := by
  simp [jsonEntries, ascii]

lemma jsonEntries_cons (indent : Nat) (key : Bytes) (value : Tree) (next : Bytes × Tree)
    (entries : List (Bytes × Tree)) (tail : Bytes) :
    jsonEntries indent ((key, value) :: next :: entries) ++ tail =
      jsonIndent (indent + 2) ++ (jsonEscapeString key ++ 58 :: 32 ::
        (jsonSerialize (indent + 2) value ++
          44 :: 10 :: (jsonEntries indent (next :: entries) ++ tail))) := by
  simp [jsonEntries, ascii]

lemma skip_jsonIndent (n : Nat) (hs : Solid s) : skipWhitespace (jsonIndent n ++ s) = s :=
  hs.skip le_of_mem_jsonIndent

lemma solid_entry (key tail : Bytes) : Solid (jsonEscapeString key ++ 58 :: 32 :: tail) :=
  (solid_jsonEscapeString key).append _

lemma memberFront_entry (key tail : Bytes) :
    MemberFront (jsonEscapeString key ++ 58 :: 32 :: tail) (cstr key) (32 :: tail) :=
  ⟨58 :: 32 :: tail, parseString_jsonEscapeString _ _, skipWhitespace_cons (by decide)⟩

lemma head_jsonSerialize (indent : Nat) (v : Tree) (tail : Bytes) :
    (jsonSerialize indent v ++ tail).head? ≠ some 93 := by
  have hdigit : ∀ n : Int, (signedDecimal n).head? ≠ some 93 := by
    intro n hhead
    have hmem := List.mem_of_head? hhead
    unfold signedDecimal at hmem
    split_ifs at hmem with hn
    · rcases List.mem_cons.1 hmem with h | h
      · exact absurd h (by decide)
      · exact absurd (digit_of_mem_decimal h).2 (by decide)
    · exact absurd (digit_of_mem_decimal hmem).2 (by decide)
  obtain ⟨d, t, hdt, -⟩ := solid_jsonSerialize indent v
  intro hhead
  rw [hdt, List.cons_append, List.head?_cons, Option.some_inj] at hhead
  subst hhead
  cases v with
  | null => exact absurd (List.cons.inj hdt).1 (by decide)
  | bool b => cases b <;> exact absurd (List.cons.inj hdt).1 (by decide)
  | int n =>
    rw [jsonSerialize] at hdt
    exact hdigit n (by rw [hdt]; rfl)
  | string s => exact absurd (List.cons.inj hdt).1 (by decide)
  | path s => exact absurd (List.cons.inj hdt).1 (by decide)
  | list items => cases items <;> exact absurd (List.cons.inj hdt).1 (by decide)
  | attrSet entries => cases entries <;> exact absurd (List.cons.inj hdt).1 (by decide)
  | lambda => exact absurd (List.cons.inj hdt).1 (by decide)
  | builtin name => exact absurd (List.cons.inj hdt).1 (by decide)
  | thunk => exact absurd (List.cons.inj hdt).1 (by decide)

/-- That the text of a value can be read back, in front of what does not belong to a number. -/
def ReadsBack (v : Tree) : Prop := ∀ (depth indent : Nat) (c : UInt8) (rest : Bytes),
  depth ≤ nestingLimit → isNumberChar c = false →
  Reads (Json.Parses depth (jsonSerialize indent v ++ c :: rest)) depth v.nesting v.json (c :: rest)

/-- The loop over a list, in front of its first item. -/
lemma reads_jsonItems (item : Tree) (items : List Tree) (h : ∀ v ∈ item :: items, ReadsBack v)
    (indent : Nat) (rest : Bytes) (hd : depth ≤ nestingLimit) :
    Reads (ParsesElements depth
        (skipWhitespace (jsonItems indent (item :: items) ++ (jsonIndent indent ++ 93 :: rest))))
      depth (Tree.nestingItems (item :: items)) (Tree.jsonItems (item :: items)) rest := by
  induction items generalizing item with
  | nil =>
    have hitem := h item List.mem_cons_self depth (indent + 2) 10 (jsonIndent indent ++ 93 :: rest) hd
      (by decide)
    rw [jsonItems_last, skip_jsonIndent _ ((solid_jsonSerialize _ _).append _)]
    exact hitem.last_element (skip_close _ (by decide))
  | cons next items ih =>
    have hitem := h item List.mem_cons_self depth (indent + 2) 44
      (10 :: (jsonItems indent (next :: items) ++ (jsonIndent indent ++ 93 :: rest))) hd (by decide)
    have hitems := ih next fun v hv => h v (List.mem_cons_of_mem _ hv)
    rw [← @skipWhitespace_blank 10 _ (by decide) (by simp)] at hitems
    rw [jsonItems_cons, skip_jsonIndent _ ((solid_jsonSerialize _ _).append _)]
    exact hitem.next_element (skipWhitespace_cons (by decide)) hitems

/-- The loop over an attribute set, in front of its first key. -/
lemma reads_jsonEntries (key : Bytes) (value : Tree) (entries : List (Bytes × Tree))
    (h : ∀ e ∈ (key, value) :: entries, ReadsBack e.2) (indent : Nat) (rest : Bytes)
    (hd : depth ≤ nestingLimit) :
    Reads (ParsesMembers depth (skipWhitespace
        (jsonEntries indent ((key, value) :: entries) ++ (jsonIndent indent ++ 125 :: rest))))
      depth (Tree.nestingEntries ((key, value) :: entries))
      (Tree.jsonEntries ((key, value) :: entries)) rest := by
  have hblank : ∀ c ∈ ([32] : Bytes), c ≤ 32 :=
    List.forall_mem_cons.2 ⟨UInt8.le_refl 32, List.forall_mem_nil _⟩
  induction entries generalizing key value with
  | nil =>
    have hvalue := h (key, value) List.mem_cons_self depth (indent + 2) 10
      (jsonIndent indent ++ 125 :: rest) hd (by decide)
    rw [← ((solid_jsonSerialize (indent + 2) value).append _).skip hblank] at hvalue
    rw [jsonEntries_last, skip_jsonIndent _ (solid_entry _ _)]
    exact hvalue.last_member (memberFront_entry _ _) (skip_close _ (by decide))
  | cons next entries ih =>
    have hvalue := h (key, value) List.mem_cons_self depth (indent + 2) 44
      (10 :: (jsonEntries indent (next :: entries) ++ (jsonIndent indent ++ 125 :: rest))) hd
      (by decide)
    have hentries := ih next.1 next.2 fun e he => h e (List.mem_cons_of_mem _ he)
    rw [← ((solid_jsonSerialize (indent + 2) value).append _).skip hblank] at hvalue
    rw [← @skipWhitespace_blank 10 _ (by decide) (by simp)] at hentries
    rw [jsonEntries_cons, skip_jsonIndent _ (solid_entry _ _)]
    exact hvalue.next_member (memberFront_entry _ _) (skipWhitespace_cons (by decide)) hentries

lemma readsBack_list (items : List Tree) (h : ∀ v ∈ items, ReadsBack v) : ReadsBack (.list items) := by
  intro depth indent c rest hd hc
  cases items with
  | nil => exact ⟨fun hroom => .array_nil hroom (skipWhitespace_cons (by decide)),
      fun _ _ hv => hv.depth_lt (.inl rfl)⟩
  | cons item items =>
    have htext : jsonSerialize indent (.list (item :: items)) ++ c :: rest =
        91 :: 10 :: (jsonItems indent (item :: items) ++ (jsonIndent indent ++ 93 :: c :: rest)) := by
      simp [jsonSerialize, ascii]
    have hskip := @skipWhitespace_blank 10
      (jsonItems indent (item :: items) ++ (jsonIndent indent ++ 93 :: c :: rest)) (by decide)
      (by simp)
    rw [htext]
    refine .array ?_ fun hlt => ?_
    · rw [hskip, jsonItems_front, skip_jsonIndent _ ((solid_jsonSerialize _ _).append _)]
      exact head_jsonSerialize _ _ _
    · rw [hskip]
      exact reads_jsonItems item items h indent (c :: rest) hlt

lemma readsBack_attrSet (entries : List (Bytes × Tree)) (h : ∀ e ∈ entries, ReadsBack e.2) :
    ReadsBack (.attrSet entries) := by
  intro depth indent c rest hd hc
  cases entries with
  | nil => exact ⟨fun hroom => .object_nil hroom (skipWhitespace_cons (by decide)),
      fun _ _ hv => hv.depth_lt (.inr rfl)⟩
  | cons entry entries =>
    have htext : jsonSerialize indent (.attrSet (entry :: entries)) ++ c :: rest =
        123 :: 10 :: (jsonEntries indent (entry :: entries) ++
          (jsonIndent indent ++ 125 :: c :: rest)) := by
      simp [jsonSerialize, ascii]
    have hskip := @skipWhitespace_blank 10
      (jsonEntries indent (entry :: entries) ++ (jsonIndent indent ++ 125 :: c :: rest)) (by decide)
      (by simp)
    rw [htext]
    refine .object ?_ fun hlt => ?_
    · rw [hskip, jsonEntries_front, skip_jsonIndent _ ((solid_jsonEscapeString _).append _)]
      intro hhead
      have hquote : (34 : UInt8) = 125 := Option.some.inj hhead
      exact absurd hquote (by decide)
    · rw [hskip]
      exact reads_jsonEntries entry.1 entry.2 entries h indent (c :: rest) hlt

lemma plain_builtin (name : BuiltinName) : Plain (ascii "<builtin:" ++ ascii name.text ++ ascii ">") := by
  have htext : Plain (ascii name.text) := by
    cases name <;> exact plain_ascii (by decide)
  have hfront : Plain (ascii "<builtin:") := plain_ascii (by decide)
  have hback : Plain (ascii ">") := plain_ascii (by decide)
  intro c hc
  rcases List.mem_append.1 hc with hc | hc
  · exact (List.mem_append.1 hc).elim (hfront c) (htext c)
  · exact hback c hc

/-- **Every value can be read back**, as deep as cJSON goes. -/
theorem readsBack (v : Tree) : ReadsBack v := by
  induction v using Tree.ind with
  | list items ih => exact readsBack_list items ih
  | attrSet entries ih => exact readsBack_attrSet entries ih
  | null => exact fun _ _ _ _ hd _ => .flat hd ⟨1, parseValue_literal rfl⟩
  | bool b =>
    intro _ _ _ _ hd _
    cases b
    · exact .flat hd ⟨1, parseValue_literal rfl⟩
    · exact .flat hd ⟨1, parseValue_literal rfl⟩
  | int n => exact fun _ _ _ _ hd hc => .flat hd (parses_signedDecimal n hc)
  | string s => exact fun _ _ _ _ hd _ => .flat hd (parses_jsonEscapeString s _)
  | path s => exact fun _ _ _ _ hd _ => .flat hd (parses_jsonEscapeString s _)
  | lambda =>
    intro depth _ c rest hd _
    exact .flat hd (@parses_quoted (ascii "<lambda>") (c :: rest) depth (plain_ascii (by decide)))
  | builtin name =>
    intro depth indent c rest hd _
    have htext : jsonSerialize indent (.builtin name) ++ c :: rest =
        34 :: ((ascii "<builtin:" ++ ascii name.text ++ ascii ">") ++ 34 :: c :: rest) := by
      simp [jsonSerialize, ascii]
    rw [htext]
    exact .flat hd (parses_quoted (plain_builtin name))
  | thunk =>
    intro depth _ c rest hd _
    exact .flat hd (@parses_quoted (ascii "<thunk>") (c :: rest) depth (plain_ascii (by decide)))

end Values

/-! ### C strings -/

section Zero

lemma zero_notMem_ascii {s : String} (h : (ascii s).all (fun c => decide (c ≠ 0)) = true) :
    (0 : UInt8) ∉ ascii s :=
  fun hz => absurd rfl (of_decide_eq_true (List.all_eq_true.1 h 0 hz))

lemma zero_notMem_jsonEscapeString (s : Bytes) : (0 : UInt8) ∉ jsonEscapeString s := by
  rw [jsonEscapeString_eq]
  exact Json.zero_notMem_printString s

lemma zero_notMem_jsonIndent (n : Nat) : (0 : UInt8) ∉ jsonIndent n :=
  fun h => absurd (List.eq_of_mem_replicate h) (by decide)

lemma zero_notMem_decimal (n : Nat) : (0 : UInt8) ∉ decimal n :=
  fun h => absurd (digit_of_mem_decimal h).1 (by decide)

lemma zero_notMem_signedDecimal (n : Int) : (0 : UInt8) ∉ signedDecimal n := by
  have hz := zero_notMem_decimal n.natAbs
  unfold signedDecimal
  split_ifs
  · simpa using hz
  · exact hz

/-- The text of a value is a C string. -/
theorem zero_notMem_jsonSerialize (v : Tree) : ∀ indent, (0 : UInt8) ∉ jsonSerialize indent v := by
  induction v using Tree.ind with
  | null => exact fun _ => zero_notMem_ascii (by decide)
  | bool b =>
    intro _
    cases b
    · exact zero_notMem_ascii (by decide)
    · exact zero_notMem_ascii (by decide)
  | int n => exact fun _ => zero_notMem_signedDecimal n
  | string s => exact fun _ => zero_notMem_jsonEscapeString s
  | path s => exact fun _ => zero_notMem_jsonEscapeString s
  | list items ih =>
    intro indent
    have hitems : (0 : UInt8) ∉ jsonItems indent items := by
      induction items with
      | nil => exact List.not_mem_nil
      | cons item items ih' =>
        obtain ⟨hitem, hrest⟩ := List.forall_mem_cons.1 ih
        have hhead := hitem (indent + 2)
        have htail := ih' hrest
        have hindent := zero_notMem_jsonIndent (indent + 2)
        cases items <;> simp_all [jsonItems]
    have hindent := zero_notMem_jsonIndent indent
    cases items with
    | nil => exact zero_notMem_ascii (by decide)
    | cons item items => simp [jsonSerialize, ascii, hitems, hindent]
  | attrSet entries ih =>
    intro indent
    have hentries : (0 : UInt8) ∉ jsonEntries indent entries := by
      induction entries with
      | nil => exact List.not_mem_nil
      | cons entry entries ih' =>
        obtain ⟨hentry, hrest⟩ := List.forall_mem_cons.1 ih
        have hhead := hentry (indent + 2)
        have htail := ih' hrest
        have hindent := zero_notMem_jsonIndent (indent + 2)
        have hkey := zero_notMem_jsonEscapeString entry.1
        cases entries <;> simp_all [jsonEntries, ascii]
    have hindent := zero_notMem_jsonIndent indent
    cases entries with
    | nil => exact zero_notMem_ascii (by decide)
    | cons entry entries => simp [jsonSerialize, ascii, hentries, hindent]
  | lambda => exact fun _ => zero_notMem_ascii (by decide)
  | builtin name =>
    intro _ hz
    have hname := plain_builtin name
    have htext : jsonSerialize 0 (.builtin name) =
        34 :: ((ascii "<builtin:" ++ ascii name.text ++ ascii ">") ++ [34]) := by
      simp [jsonSerialize, ascii]
    have hz' : (0 : UInt8) ∈ 34 :: ((ascii "<builtin:" ++ ascii name.text ++ ascii ">") ++ [34]) :=
      htext ▸ hz
    rcases List.mem_cons.1 hz' with h | h
    · exact absurd h (by decide)
    · rcases List.mem_append.1 h with h | h
      · exact (hname 0 h).1 rfl
      · exact absurd h (by decide)
  | thunk => exact fun _ => zero_notMem_ascii (by decide)

end Zero

end Two09.Nix
