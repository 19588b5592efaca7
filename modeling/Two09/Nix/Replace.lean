import Two09.Nix.Eval
import Two09.Lib.Buffer

/-!
# `replaceStrings`

`builtin_replace_strings`, which takes its three arguments one at a time and then rewrites the string from left to
right into a buffer that it doubles. No allocation fails.
-/

namespace Two09.Nix

open Two09.Lib

/-! ### The builtin -/

/-- `x`, or the fault if there is nothing. -/
def orFault {α : Type} (fault : Fault) : Option α → Eval α
  | some x => return x
  | none => throw fault

/-- What an item of a list is a string of. -/
def itemText (item : Option Ptr) : Eval (Option Bytes) := do
  match item with
  | none => return none
  | some p =>
    match ← load p with
    | .string s => return some s
    | _ => return none

/-- The loop over `from_list` from its `j`th item: the number of the pattern that is at `i`, and its length. -/
def findPattern (src : Bytes) (i : ℕ) : List (Option Ptr) → ℕ → Eval (Option (ℕ × ℕ))
  | [], _ => return none
  | item :: items, j => do
    match ← itemText item with
    | none => findPattern src i items (j + 1)
    | some text =>
      if text.length = 0 then findPattern src i items (j + 1)
      else if i + text.length ≤ src.length ∧ (src.drop i).take text.length = text then return some (j, text.length)
      else findPattern src i items (j + 1)

/-- `replacement` -/
def replacementAt (toList : List (Option Ptr)) (j : ℕ) : Eval Bytes :=
  match toList[j]? with
  | some item => do return (← itemText item).getD []
  | none => return []

/-- The loop over the string, from `i`; `fuel` bounds how often the buffer is doubled at once. -/
def replaceLoop (fuel : ℕ) (src : Bytes) (fromList toList : List (Option Ptr)) :
    ℕ → ℕ → Buffer UInt8 → Eval (Buffer UInt8)
  | 0, i, b => if i < src.length then throw .outOfFuel else return b
  | n + 1, i, b =>
    if i < src.length then do
      match ← findPattern src i fromList 0 with
      | some (j, flen) =>
        let replacement ← replacementAt toList j
        let b ← orFault .outOfFuel (b.reserve replacement.length fuel)
        let b ← orFault .outOfBounds (b.append replacement)
        replaceLoop fuel src fromList toList n (i + flen) b
      | none =>
        let b := if b.len + 1 ≥ b.cap then b.double else b
        let c ← orFault .outOfBounds src[i]?
        let b ← orFault .outOfBounds (b.append [c])
        replaceLoop fuel src fromList toList n (i + 1) b
    else return b

/-- `builtin_replace_strings`, with so much fuel for either loop. Where the three arguments are not of the right
types it gives a string that is `NULL`, which no value here is. -/
def builtinReplaceStrings (fuel : ℕ) (ctx : Option Ptr) (arg : Ptr) : Eval (Option Ptr) := do
  match ctx with
  | none => return some (← newValue (.builtin .replaceStringsPartial1 (some arg)))
  | some from_ =>
    match ← load from_ with
    | .list _ =>
      let pair ← newValue (.attrSet [])
      attrsetBind pair (ascii "__from") (some from_)
      attrsetBind pair (ascii "__to") (some arg)
      return some (← newValue (.builtin .replaceStringsPartial2 (some pair)))
    | .attrSet _ =>
      let some fromSet ← attrsetLookup from_ (ascii "__from") | throw .nullPointer
      let some toSet ← attrsetLookup from_ (ascii "__to") | throw .nullPointer
      match ← load arg, ← load fromSet, ← load toSet with
      | .string src, .list fromList, .list toList =>
        let b ← replaceLoop fuel src fromList toList fuel 0 (Buffer.zeroed 0 (src.length * 2 + 1))
        let result ← orFault .outOfBounds b.finish
        return some (← newValue (.string result))
      | _, _, _ => throw .nullPointer
    | _ => return none

/-- The application of what an earlier application gave. -/
def applyReplaceStrings (fuel : ℕ) (func : Option Ptr) (arg : Ptr) : Eval (Option Ptr) := do
  match func with
  | none => return none
  | some func =>
    match ← load func with
    | .builtin _ ctx => builtinReplaceStrings fuel ctx arg
    | _ => return none

/-- `replaceStrings fromArg toArg str` -/
def replaceStrings (fuel : ℕ) (fromArg toArg str : Ptr) : Eval (Option Ptr) := do
  let func ← builtinReplaceStrings fuel none fromArg
  let func ← applyReplaceStrings fuel func toArg
  applyReplaceStrings fuel func str

/-! ### Rewriting from left to right -/

/-- The patterns with their replacements: a pattern that is no string is left out, a replacement that is missing or
no string is empty. -/
def pairUp : List (Option Bytes) → List (Option Bytes) → List (Bytes × Bytes)
  | [], _ => []
  | none :: patterns, replacements => pairUp patterns replacements.tail
  | some pattern :: patterns, replacements =>
    (pattern, (replacements.head?.join).getD []) :: pairUp patterns replacements.tail

/-- The first pattern that is not empty and that `src` begins with. -/
def firstMatch (pairs : List (Bytes × Bytes)) (src : Bytes) : Option (Bytes × Bytes) :=
  pairs.find? fun p => p.1 ≠ [] ∧ p.1 <+: src

lemma firstMatch_spec {pairs : List (Bytes × Bytes)} {src : Bytes} {p : Bytes × Bytes}
    (hmatch : firstMatch pairs src = some p) : p.1 ≠ [] ∧ p.1 <+: src := by
  have hp := List.find?_some hmatch
  exact of_decide_eq_true hp

/-- The string with the first pattern that is there replaced at each place in turn, and all else as it is. -/
def rewrite (pairs : List (Bytes × Bytes)) (src : Bytes) : Bytes :=
  match src with
  | [] => []
  | c :: rest =>
    match _hmatch : firstMatch pairs (c :: rest) with
    | some p => p.2 ++ rewrite pairs ((c :: rest).drop p.1.length)
    | none => c :: rewrite pairs rest
termination_by src.length
decreasing_by
  · have hpos := List.length_pos_iff.2 (firstMatch_spec _hmatch).1
    rw [List.length_drop, List.length_cons]
    omega
  · exact Nat.lt_succ_self _

section Rewrite

variable {pairs : List (Bytes × Bytes)} {src rest : Bytes} {p : Bytes × Bytes} {c : UInt8}

lemma rewrite_match (hmatch : firstMatch pairs (c :: rest) = some p) :
    rewrite pairs (c :: rest) = p.2 ++ rewrite pairs ((c :: rest).drop p.1.length) := by
  rw [rewrite]
  split
  next q hq =>
    obtain rfl := Option.some.inj (hmatch.symm.trans hq)
    rfl
  next hnone => cases hmatch.symm.trans hnone

lemma rewrite_copy (hmatch : firstMatch pairs (c :: rest) = none) :
    rewrite pairs (c :: rest) = c :: rewrite pairs rest := by
  rw [rewrite]
  split
  next q hq => cases hmatch.symm.trans hq
  next => rfl

end Rewrite

/-! ### What the loops do -/

/-- What the item of a list is a string of. -/
def Heap.text (h : Heap) (item : Option Ptr) : Option Bytes :=
  match item.bind fun p => h.values[p]?.join with
  | some (.string s) => some s
  | _ => none

/-- The items that are no `NULL` are there. -/
def Heap.HasItems (h : Heap) (items : List (Option Ptr)) : Prop := ∀ p, some p ∈ items → ∃ v, h.Holds p v

section Loops

variable {h : Heap} {items fromList toList : List (Option Ptr)} {src : Bytes}

lemma itemText_run {item : Option Ptr} (hitem : ∀ p, item = some p → ∃ v, h.Holds p v) :
    itemText item h = .ok (h.text item, h) := by
  cases item with
  | none => rfl
  | some p =>
    obtain ⟨v, hv⟩ := hitem p rfl
    have hload : (h.values[p]?).join = some v := by rw [show h.values[p]? = _ from hv]; rfl
    unfold itemText
    show (load p >>= _ : Eval _) h = _
    rw [bind_run (load_run hv)]
    unfold Heap.text
    rw [Option.bind_some, hload]
    cases v <;> rfl

lemma replacementAt_run (hto : h.HasItems toList) (j : ℕ) :
    replacementAt toList j h = .ok (((toList.map h.text)[j]?.join).getD [], h) := by
  unfold replacementAt
  rw [List.getElem?_map]
  cases hj : toList[j]? with
  | none => rfl
  | some item =>
    have hmem := List.mem_of_getElem? hj
    show (itemText item >>= _ : Eval _) h = _
    rw [bind_run (itemText_run fun p hp => hto p (hp ▸ hmem))]
    rfl

/-- The test of the inner loop is whether the pattern is there. -/
lemma at_iff_begins {text : Bytes} (htext : text.length ≠ 0) (i : ℕ) :
    (i + text.length ≤ src.length ∧ (src.drop i).take text.length = text) ↔ text <+: src.drop i := by
  rw [List.prefix_iff_eq_take]
  constructor
  · exact fun hat => hat.2.symm
  · intro hat
    have hlen := congrArg List.length hat
    rw [List.length_take, List.length_drop] at hlen
    exact ⟨by omega, hat.symm⟩

/-- **The inner loop** finds the first pattern that is there. -/
lemma findPattern_run (src : Bytes) (hfrom : h.HasItems items) (replacements : List (Option Bytes)) (i j : ℕ) :
    ∃ r, findPattern src i items j h = .ok (r, h) ∧
      (firstMatch (pairUp (items.map h.text) (replacements.drop j)) (src.drop i)).map (fun p => (p.1.length, p.2)) =
        r.map fun q => (q.2, (replacements[q.1]?.join).getD []) := by
  induction items generalizing j with
  | nil => exact ⟨none, rfl, rfl⟩
  | cons item items ih =>
    have hitem : ∀ p, item = some p → ∃ v, h.Holds p v := fun p hp => hfrom p (hp ▸ List.mem_cons_self)
    obtain ⟨r, hr, hmatch⟩ := ih (fun p hp => hfrom p (List.mem_cons_of_mem _ hp)) (j + 1)
    rw [findPattern, bind_run (itemText_run hitem), List.map_cons]
    rw [← List.tail_drop] at hmatch
    cases htext : h.text item with
    | none => exact ⟨r, hr, by rw [pairUp]; exact hmatch⟩
    | some text =>
      rw [pairUp]
      by_cases hempty : text.length = 0
      · obtain rfl := List.length_eq_zero_iff.1 hempty
        refine ⟨r, by simpa using hr, ?_⟩
        rw [firstMatch, List.find?_cons_of_neg (by simp)]
        exact hmatch
      · have hne : text ≠ [] := fun h => hempty (h ▸ rfl)
        by_cases hat : text <+: src.drop i
        · refine ⟨some (j, text.length), ?_, ?_⟩
          · simp only [if_neg hempty, if_pos ((at_iff_begins hempty i).2 hat)]
            rfl
          · rw [firstMatch, List.find?_cons_of_pos (by simpa using ⟨hne, hat⟩)]
            simp [List.head?_drop]
        · refine ⟨r, ?_, ?_⟩
          · simp only [if_neg hempty, if_neg (mt (at_iff_begins hempty i).1 hat)]
            exact hr
          · rw [firstMatch, List.find?_cons_of_neg (by simpa using fun _ => hat)]
            exact hmatch

lemma orFault_run {α : Type} (fault : Fault) (x : α) : orFault fault (some x) h = .ok (x, h) := rfl

/-- **The loop over the string** writes what is left of it, rewritten, behind what there is already. -/
lemma replaceLoop_run (src : Bytes) (hfrom : h.HasItems fromList) (hto : h.HasItems toList) {fuel : ℕ} (n i : ℕ) {b : Buffer UInt8}
    {out : Bytes} (hfilled : b.Filled out) (hi : i ≤ src.length) (hn : src.length ≤ i + n)
    (hfuel : out.length +
      (rewrite (pairUp (fromList.map h.text) (toList.map h.text)) (src.drop i)).length < fuel) :
    ∃ b', replaceLoop fuel src fromList toList n i b h = .ok (b', h) ∧
      b'.Filled (out ++ rewrite (pairUp (fromList.map h.text) (toList.map h.text)) (src.drop i)) := by
  induction n generalizing i b out with
  | zero =>
    refine ⟨b, by rw [replaceLoop, if_neg (by omega)]; rfl, ?_⟩
    rw [List.drop_of_length_le (by omega), rewrite, List.append_nil]
    exact hfilled
  | succ n ih =>
    rcases Nat.eq_or_lt_of_le hi with rfl | hlt
    · refine ⟨b, by rw [replaceLoop, if_neg (by omega)]; rfl, ?_⟩
      rw [List.drop_length, rewrite, List.append_nil]
      exact hfilled
    · have hlen := hfilled.len
      have hcap := hfilled.lt
      rw [replaceLoop, if_pos hlt]
      obtain ⟨r, hr, hmatch⟩ := findPattern_run src hfrom (toList.map h.text) i 0
      rw [List.drop_zero] at hmatch
      rw [List.drop_eq_getElem_cons hlt] at hmatch hfuel ⊢
      rw [bind_run hr]
      cases hfirst : firstMatch (pairUp (fromList.map h.text) (toList.map h.text)) (src[i] :: src.drop (i + 1)) with
      | some p =>
        -- A pattern is there, and its replacement goes behind what is written.
        rw [hfirst] at hmatch
        obtain ⟨⟨j, flen⟩, rfl, hj⟩ := Option.map_eq_some_iff.1 hmatch.symm
        obtain ⟨rfl, hp⟩ := Prod.mk.inj hj
        rw [rewrite_match hfirst, ← List.drop_eq_getElem_cons hlt, List.drop_drop] at hfuel ⊢
        rw [List.length_append] at hfuel
        have hle : i + p.1.length ≤ src.length := by
          have hprefix := (firstMatch_spec hfirst).2.length_le
          rw [← List.drop_eq_getElem_cons hlt, List.length_drop] at hprefix
          omega
        have hpos := List.length_pos_iff.2 (firstMatch_spec hfirst).1
        have hpow : b.len + p.2.length + 1 < b.cap * 2 ^ fuel :=
          calc b.len + p.2.length + 1 ≤ fuel := by omega
            _ < 2 ^ fuel := Nat.lt_two_pow_self
            _ ≤ b.cap * 2 ^ fuel := Nat.le_mul_of_pos_left _ (by omega)
        obtain ⟨b₁, hreserve, hfilled₁, hroom⟩ := hfilled.reserve hpow
        obtain ⟨b₂, happend, hfilled₂⟩ := hfilled₁.append p.2 (by omega)
        obtain ⟨b', hloop, hfilled'⟩ := ih (i + p.1.length) hfilled₂ hle (by omega)
          (by rw [List.length_append]; omega)
        refine ⟨b', ?_, by rw [← List.append_assoc]; exact hfilled'⟩
        show (replacementAt toList j >>= _ : Eval _) h = _
        rw [bind_run (replacementAt_run hto j), hp, hreserve, bind_run (orFault_run _ b₁), happend,
          bind_run (orFault_run _ b₂)]
        exact hloop
      | none =>
        -- No pattern is there, and one character is copied.
        rw [hfirst] at hmatch
        obtain rfl := Option.map_eq_none_iff.1 hmatch.symm
        rw [rewrite_copy hfirst] at hfuel ⊢
        rw [List.length_cons] at hfuel
        obtain ⟨b₁, hb₁, hfilled₁, hroom⟩ : ∃ b₁, (if b.len + 1 ≥ b.cap then b.double else b) = b₁ ∧
            b₁.Filled out ∧ b₁.len + 1 < b₁.cap := by
          by_cases hfull : b.len + 1 ≥ b.cap
          · exact ⟨b.double, if_pos hfull, hfilled.double, show b.len + 1 < b.cap * 2 by omega⟩
          · exact ⟨b, if_neg hfull, hfilled, by omega⟩
        obtain ⟨b₂, happend, hfilled₂⟩ := hfilled₁.append [src[i]] (by simpa using hroom)
        obtain ⟨b', hloop, hfilled'⟩ := ih (i + 1) hfilled₂ (by omega) (by omega)
          (by rw [List.length_append, List.length_singleton]; omega)
        refine ⟨b', ?_, by rw [List.append_cons]; exact hfilled'⟩
        show (orFault .outOfBounds src[i]? >>= _ : Eval _) h = _
        rw [List.getElem?_eq_getElem hlt, bind_run (orFault_run _ src[i]), hb₁, happend,
          bind_run (orFault_run _ b₂)]
        exact hloop

end Loops

/-! ### The three applications -/

section Applications

variable {h : Heap} {items fromList toList : List (Option Ptr)} {src : Bytes} {fromArg toArg str : Ptr}

/-- The heap with more values. -/
def Heap.more (h : Heap) (values : List (Option Val)) : Heap := { h with values := h.values ++ values }

lemma Heap.HasItems.more (hitems : h.HasItems items) (values : List (Option Val)) : (h.more values).HasItems items := by
  intro p hp
  obtain ⟨v, hv⟩ := hitems p hp
  exact ⟨v, hv.append values h.envs h.error⟩

lemma map_text_more (hitems : h.HasItems items) (values : List (Option Val)) :
    items.map (h.more values).text = items.map h.text := by
  refine List.map_congr_left fun item hitem => ?_
  cases item with
  | none => rfl
  | some p =>
    obtain ⟨v, hv⟩ := hitems p hitem
    unfold Heap.text
    rw [Option.bind_some, Option.bind_some, show h.values[p]? = _ from hv,
      show (h.more values).values[p]? = _ from hv.append values h.envs h.error]

lemma Heap.Holds.more {p : Ptr} {v : Val} (hp : h.Holds p v) (values : List (Option Val)) :
    (h.more values).Holds p v := hp.append values h.envs h.error

lemma holds_more {values : List (Option Val)} {i : ℕ} {v : Val} (hv : values[i]? = some (some v)) :
    (h.more values).Holds (h.values.length + i) v := by
  show (h.values ++ values)[h.values.length + i]? = _
  rw [List.getElem?_append_right (Nat.le_add_right _ _), Nat.add_sub_cancel_left]
  exact hv

lemma newValue_more (v : Val) : newValue v h = .ok (h.values.length, h.more [some v]) := rfl

lemma attrsetBind_new (key : Bytes) (v : Option Ptr) (entries : List (Bytes × Option Ptr)) :
    attrsetBind h.values.length key v (h.more [some (.attrSet entries)]) =
      .ok ((), h.more [some (.attrSet (put key v entries))]) := by
  have hset : (h.more [some (.attrSet entries)]).Holds h.values.length (.attrSet entries) := holds_more (i := 0) rfl
  rw [attrsetBind_run hset]
  unfold Heap.more
  rw [List.set_append_right _ _ (Nat.le_refl _), Nat.sub_self]
  rfl

/-- The set in which the first two arguments are kept. -/
def replacePair (fromArg toArg : Ptr) : Val :=
  .attrSet [(ascii "__from", some fromArg), (ascii "__to", some toArg)]

/-- The application to the replacements. -/
lemma second_run (hfrom : h.Holds fromArg (.list fromList)) (fuel : ℕ) (toArg : Ptr) :
    builtinReplaceStrings fuel (some fromArg) toArg h = .ok (some (h.values.length + 1),
      h.more [some (replacePair fromArg toArg), some (.builtin .replaceStringsPartial2 (some h.values.length))]) := by
  rw [builtinReplaceStrings, bind_run (load_run hfrom)]
  show (newValue _ >>= _ : Eval _) h = _
  rw [bind_run (newValue_more _), bind_run (attrsetBind_new _ _ _), bind_run (attrsetBind_new _ _ _),
    bind_run (newValue_more _)]
  have hkeys : ascii "__from" ≠ ascii "__to" := by decide
  simp [Heap.more, pure_run, replacePair, put, hkeys]

/-- The application to the string, whose arguments come out of the set. -/
lemma third_run {pair : Ptr} (hpair : h.Holds pair (replacePair fromArg toArg)) (hfrom : h.Holds fromArg (.list fromList))
    (hto : h.Holds toArg (.list toList)) (hstr : h.Holds str (.string src)) (hfromItems : h.HasItems fromList)
    (htoItems : h.HasItems toList) (fuel : ℕ) (hlen : src.length ≤ fuel)
    (hfuel : (rewrite (pairUp (fromList.map h.text) (toList.map h.text)) src).length < fuel) :
    builtinReplaceStrings fuel (some pair) str h = .ok (some h.values.length,
      h.more [some (.string (rewrite (pairUp (fromList.map h.text) (toList.map h.text)) src))]) := by
  obtain ⟨b, hloop, hfilled⟩ := replaceLoop_run src hfromItems htoItems fuel 0
    (Buffer.filled_zeroed 0 (Nat.succ_pos (src.length * 2))) (Nat.zero_le _) (by omega) (by simpa using hfuel)
  rw [List.drop_zero, List.nil_append] at hfilled
  have hfind : attrsetLookup pair (ascii "__from") h = .ok (some fromArg, h) := attrsetLookup_run hpair
  have hfind' : attrsetLookup pair (ascii "__to") h = .ok (some toArg, h) := attrsetLookup_run hpair
  rw [builtinReplaceStrings, bind_run (load_run hpair)]
  show (attrsetLookup pair _ >>= _ : Eval _) h = _
  rw [bind_run hfind]
  show (attrsetLookup pair _ >>= _ : Eval _) h = _
  rw [bind_run hfind']
  show (load str >>= _ : Eval _) h = _
  rw [bind_run (load_run hstr), bind_run (load_run hfrom), bind_run (load_run hto)]
  show (replaceLoop _ _ _ _ _ _ _ >>= _ : Eval _) h = _
  rw [bind_run hloop, hfilled.finish, bind_run (orFault_run _ _), bind_run (newValue_more _)]
  rfl

lemma apply_run {func : Ptr} {name : BuiltinName} {ctx : Option Ptr} (hfunc : h.Holds func (.builtin name ctx))
    (fuel : ℕ) (arg : Ptr) : applyReplaceStrings fuel (some func) arg h = builtinReplaceStrings fuel ctx arg h := by
  unfold applyReplaceStrings
  show (load func >>= _ : Eval _) h = _
  rw [bind_run (load_run hfunc)]

/-- **`replaceStrings` rewrites from left to right**: from any memory with the three arguments in it, and whatever
fuel there is from some amount on, no cell outside of the buffer is written, and the string that it gives is the
third argument with the first pattern that is there replaced at each place in turn. -/
theorem replaceStrings_run (hfrom : h.Holds fromArg (.list fromList)) (hto : h.Holds toArg (.list toList))
    (hstr : h.Holds str (.string src)) (hfromItems : h.HasItems fromList) (htoItems : h.HasItems toList) :
    ∃ n, ∀ fuel ≥ n, ∃ r h', replaceStrings fuel fromArg toArg str h = .ok (some r, h') ∧
      h'.Holds r (.string (rewrite (pairUp (fromList.map h.text) (toList.map h.text)) src)) := by
  refine ⟨src.length + (rewrite (pairUp (fromList.map h.text) (toList.map h.text)) src).length + 1,
    fun fuel hfuel => ?_⟩
  -- The values that the first two applications leave.
  let partial1 : Val := .builtin .replaceStringsPartial1 (some fromArg)
  let h₁ := h.more [some partial1]
  let h₂ := h₁.more [some (replacePair fromArg toArg), some (.builtin .replaceStringsPartial2 (some h₁.values.length))]
  have hfirst : builtinReplaceStrings fuel none fromArg h = .ok (some h.values.length, h₁) := rfl
  have hfunc₁ : h₁.Holds h.values.length partial1 := holds_more (i := 0) rfl
  have hsecond : applyReplaceStrings fuel (some h.values.length) toArg h₁ = .ok (some (h₁.values.length + 1), h₂) :=
    (apply_run hfunc₁ fuel toArg).trans (second_run (hfrom.more [some partial1]) fuel toArg)
  have hpair : h₂.Holds h₁.values.length (replacePair fromArg toArg) := holds_more (i := 0) rfl
  have hfunc : h₂.Holds (h₁.values.length + 1) (.builtin .replaceStringsPartial2 (some h₁.values.length)) :=
    holds_more (i := 1) rfl
  have htexts : (fromList.map h₂.text) = fromList.map h.text ∧ (toList.map h₂.text) = toList.map h.text :=
    ⟨(map_text_more (hfromItems.more _) _).trans (map_text_more hfromItems _),
      (map_text_more (htoItems.more _) _).trans (map_text_more htoItems _)⟩
  have hthird := third_run hpair ((hfrom.more _).more _) ((hto.more _).more _) ((hstr.more _).more _)
    ((hfromItems.more _).more _) ((htoItems.more _).more _) fuel (by omega)
    (by rw [htexts.1, htexts.2]; omega)
  rw [htexts.1, htexts.2] at hthird
  refine ⟨h₂.values.length, h₂.more [some (.string _)], ?_, holds_more (i := 0) rfl⟩
  unfold replaceStrings
  rw [bind_run hfirst]
  rw [bind_run hsecond]
  exact (apply_run hfunc fuel str).trans hthird

end Applications

/-- A memory with the patterns `a` and `b`, the one replacement `bb`, and the string `cab`. -/
def cabHeap : Heap :=
  ⟨[some (.list [some 1, some 2]), some (.string (ascii "a")), some (.string (ascii "b")), some (.list [some 4]),
    some (.string (ascii "bb")), some (.string (ascii "cab"))], [], none⟩

lemma rewrite_cab : rewrite (pairUp [some (ascii "a"), some (ascii "b")] [some (ascii "bb")]) (ascii "cab") =
    ascii "cbb" := by
  show rewrite _ [99, 97, 98] = _
  rw [rewrite_copy (by decide), rewrite_match (p := (ascii "a", ascii "bb")) (by decide)]
  show 99 :: (ascii "bb" ++ rewrite _ [98]) = _
  rw [rewrite_match (p := (ascii "b", [])) (by decide)]
  show 99 :: (ascii "bb" ++ ([] ++ rewrite _ [])) = _
  rw [rewrite]
  rfl

theorem replaceStrings_cab :
    ∃ n, ∀ fuel ≥ n, ∃ r h', replaceStrings fuel 0 3 5 cabHeap = .ok (some r, h') ∧
      h'.Holds r (.string (ascii "cbb")) := by
  have hfrom : cabHeap.HasItems [some 1, some 2] := by
    intro p hp
    rcases List.mem_pair.1 hp with hp | hp <;> obtain rfl := Option.some.inj hp
    · exact ⟨.string (ascii "a"), rfl⟩
    · exact ⟨.string (ascii "b"), rfl⟩
  have hto : cabHeap.HasItems [some 4] := by
    intro p hp
    obtain rfl := Option.some.inj (List.mem_singleton.1 hp)
    exact ⟨.string (ascii "bb"), rfl⟩
  have hfromArg : cabHeap.Holds 0 (.list [some 1, some 2]) := rfl
  have htoArg : cabHeap.Holds 3 (.list [some 4]) := rfl
  have hstr : cabHeap.Holds 5 (.string (ascii "cab")) := rfl
  rw [← rewrite_cab]
  exact replaceStrings_run hfromArg htoArg hstr hfrom hto

end Two09.Nix
