import Two09.Lib.Bytes

/-!
# Comparing versions

`version.c`. The segments of two versions are compared one after the other, digits as numbers and letters as text,
and where one version ends the other may go on in a way that is newer or older. The characters are those of the C
locale.
-/

namespace Two09.Alpm

open Lib

/-- `isdigit` -/
def isDigit (c : UInt8) : Bool := decide (48 ≤ c ∧ c ≤ 57)

/-- `isalpha` -/
def isAlpha (c : UInt8) : Bool := decide (65 ≤ c ∧ c ≤ 90 ∨ 97 ≤ c ∧ c ≤ 122)

/-- `isalnum` -/
def isAlnum (c : UInt8) : Bool := isDigit c || isAlpha c

/-- `strcmp`, as what is less, equal and greater. -/
def strcmp (a b : Bytes) : Ordering := List.compareLex compare a b

/-- `strrchr(s, '-')`: what is before the last dash, and behind it if there is one. -/
def splitRelease (s : Bytes) : Bytes × Option Bytes :=
  if 45 ∈ s then (((s.reverse.dropWhile (· ≠ 45)).drop 1).reverse, some (s.reverse.takeWhile (· ≠ 45)).reverse)
  else (s, none)

/-- `parseEVR`: the epoch, the version and the release. -/
def parseEVR (evr : Bytes) : Bytes × Bytes × Option Bytes :=
  let digits := evr.takeWhile isDigit
  let s := evr.dropWhile isDigit
  if s.head? = some 58 then (if digits = [] then ascii "0" else digits, splitRelease s.tail)
  else (ascii "0", splitRelease evr)

/-- The showdown at the end of `rpmvercmp`, of what is left of both. -/
def showdown (one two : Bytes) : Ordering :=
  if one = [] ∧ two = [] then .eq
  else if (one = [] ∧ ¬ (two.head?.any isAlpha)) ∨ one.head?.any isAlpha then .lt
  else .gt

/-- The segment of `two` that is compared to one of digits, or of letters. -/
def segment (isnum : Bool) (s : Bytes) : Bytes := s.takeWhile fun c => if isnum then isDigit c else isAlpha c

/-- Two segments, which are not empty. -/
def compareSegments (isnum : Bool) (one two : Bytes) : Ordering :=
  if isnum then
    let one := one.dropWhile (· = 48)
    let two := two.dropWhile (· = 48)
    if two.length < one.length then .gt
    else if one.length < two.length then .lt
    else strcmp one two
  else strcmp one two

/-- The loop of `rpmvercmp`, with the showdown behind it. It takes at least one character of each per turn. -/
def rpmvercmpLoop : ℕ → Bytes → Bytes → Ordering
  | 0, one, two => showdown one two
  | fuel + 1, ptr1, ptr2 =>
    if ptr1 = [] ∨ ptr2 = [] then showdown ptr1 ptr2
    else
      let one := ptr1.dropWhile fun c => !isAlnum c
      let two := ptr2.dropWhile fun c => !isAlnum c
      -- the loop ends here, with the separators behind it
      if one = [] ∨ two = [] then showdown one two
      else if ptr1.length - one.length ≠ ptr2.length - two.length then
        if ptr1.length - one.length < ptr2.length - two.length then .lt else .gt
      else
        let isnum := one.head?.any isDigit
        -- one segment of digits, the other of letters
        if segment isnum two = [] then if isnum then .gt else .lt
        else
          (compareSegments isnum (segment isnum one) (segment isnum two)).then
            (rpmvercmpLoop fuel (one.drop (segment isnum one).length) (two.drop (segment isnum two).length))

/-- `rpmvercmp`: -1, 0 and 1 are what is less, equal and greater. -/
def rpmvercmp (a b : Bytes) : Ordering := if a = b then .eq else rpmvercmpLoop (a.length + b.length) a b

/-- The releases count where both have one. -/
def compareReleases : Option Bytes → Option Bytes → Ordering
  | some rel1, some rel2 => rpmvercmp rel1 rel2
  | _, _ => .eq

/-- `alpm_pkg_vercmp`, of two strings. -/
def compareEVR (a b : Bytes) : Ordering :=
  if a = b then .eq
  else
    let (epoch1, ver1, rel1) := parseEVR a
    let (epoch2, ver2, rel2) := parseEVR b
    (rpmvercmp epoch1 epoch2).then ((rpmvercmp ver1 ver2).then (compareReleases rel1 rel2))

/-- `alpm_pkg_vercmp` -/
def vercmp : Option Bytes → Option Bytes → Ordering
  | none, none => .eq
  | none, some _ => .lt
  | some _, none => .gt
  | some a, some b => compareEVR a b

variable {a b c one two s t cs : Bytes} {n m : ℕ} {isnum : Bool} {c₀ : UInt8}

/-! ### The other way round -/

section Swap

instance : Std.TransCmp strcmp := inferInstanceAs (Std.TransCmp (List.compareLex compare))

lemma strcmp_swap (a b : Bytes) : strcmp b a = (strcmp a b).swap := Std.OrientedCmp.eq_swap

lemma isAlpha_eq_false (h : isDigit c₀ = true) : isAlpha c₀ = false := by
  simp only [isDigit, isAlpha, decide_eq_true_eq, decide_eq_false_iff_not] at h ⊢
  obtain ⟨hlow, hhigh⟩ := h
  rw [UInt8.le_iff_toNat_le] at hlow hhigh
  simp only [UInt8.le_iff_toNat_le]
  have h48 : (48 : UInt8).toNat = 48 := rfl
  have h57 : (57 : UInt8).toNat = 57 := rfl
  have h65 : (65 : UInt8).toNat = 65 := rfl
  have h97 : (97 : UInt8).toNat = 97 := rfl
  omega

/-- What is left behind separators begins with a letter or a digit. -/
lemma exists_cons_of_dropWhile (h : s.dropWhile (fun c => !isAlnum c) ≠ []) :
    ∃ c₀ cs, s.dropWhile (fun c => !isAlnum c) = c₀ :: cs ∧ isAlnum c₀ = true := by
  obtain ⟨c₀, cs, hcons⟩ := List.exists_cons_of_ne_nil h
  refine ⟨c₀, cs, hcons, ?_⟩
  have hhead := List.head?_dropWhile_not (fun c => !isAlnum c) s
  rw [hcons] at hhead
  simpa using hhead

lemma segment_cons : segment isnum (c₀ :: cs) = [] ↔ (if isnum then isDigit c₀ else isAlpha c₀) = false := by
  rw [segment, List.takeWhile_cons]
  cases isnum <;> simp

/-- A letter or digit begins a segment of its kind. -/
lemma segment_ne_nil (cs : Bytes) (h : isAlnum c₀ = true) : segment (isDigit c₀) (c₀ :: cs) ≠ [] := by
  rw [Ne, segment_cons]
  cases hd : isDigit c₀ with
  | true => simp
  | false => simpa [isAlnum, hd] using h

/-- And one of the other kind is empty. -/
lemma segment_eq_nil (cs : Bytes) (h : isnum ≠ isDigit c₀) : segment isnum (c₀ :: cs) = [] := by
  rw [segment_cons]
  cases hd : isDigit c₀ with
  | true =>
    obtain rfl : isnum = false := by simpa [hd] using h
    exact isAlpha_eq_false hd
  | false =>
    obtain rfl : isnum = true := by simpa [hd] using h
    rfl

lemma showdown_swap (h : one = [] ∨ two = []) : showdown two one = (showdown one two).swap := by
  unfold showdown
  rcases h with rfl | rfl
  · cases two with
    | nil => rfl
    | cons c₀ cs => cases hc : isAlpha c₀ <;> simp [hc]
  · cases one with
    | nil => rfl
    | cons c₀ cs => cases hc : isAlpha c₀ <;> simp [hc]

lemma compareSegments_swap (isnum : Bool) (one two : Bytes) :
    compareSegments isnum two one = (compareSegments isnum one two).swap := by
  unfold compareSegments
  cases isnum with
  | false => exact strcmp_swap _ _
  | true =>
    simp only [if_true]
    generalize one.dropWhile (fun c => decide (c = 48)) = x
    generalize two.dropWhile (fun c => decide (c = 48)) = y
    rcases Nat.lt_trichotomy x.length y.length with hlt | heq | hgt
    · rw [if_pos hlt, if_neg (by omega), if_pos hlt]
      rfl
    · rw [if_neg (by omega), if_neg (by omega), if_neg (by omega), if_neg (by omega)]
      exact strcmp_swap _ _
    · rw [if_neg (by omega), if_pos hgt, if_pos hgt]
      rfl

lemma rpmvercmpLoop_swap (hn : one.length + two.length ≤ n) :
    rpmvercmpLoop n two one = (rpmvercmpLoop n one two).swap := by
  induction n generalizing one two with
  | zero => exact showdown_swap (.inl (List.length_eq_zero_iff.1 (by omega)))
  | succ n ih =>
    unfold rpmvercmpLoop
    by_cases hempty : one = [] ∨ two = []
    · rw [if_pos hempty, if_pos hempty.symm, showdown_swap hempty]
    rw [if_neg hempty, if_neg (mt Or.symm hempty)]
    simp only
    by_cases hdone : one.dropWhile (fun c => !isAlnum c) = [] ∨ two.dropWhile (fun c => !isAlnum c) = []
    · rw [if_pos hdone, if_pos hdone.symm, showdown_swap hdone]
    rw [if_neg hdone, if_neg (mt Or.symm hdone)]
    rw [not_or] at hdone
    obtain ⟨c₁, cs₁, h₁, halnum₁⟩ := exists_cons_of_dropWhile hdone.1
    obtain ⟨c₂, cs₂, h₂, halnum₂⟩ := exists_cons_of_dropWhile hdone.2
    have hlen₁ := List.length_dropWhile_le (fun c => !isAlnum c) one
    have hlen₂ := List.length_dropWhile_le (fun c => !isAlnum c) two
    rw [h₁] at hlen₁
    rw [h₂] at hlen₂
    simp only [h₁, h₂, List.head?_cons, Option.any_some]
    by_cases hsep : one.length - (c₁ :: cs₁).length = two.length - (c₂ :: cs₂).length
    · rw [if_neg (not_not.2 hsep.symm), if_neg (not_not.2 hsep)]
      have hseg₁ := segment_ne_nil cs₁ halnum₁
      have hseg₂ := segment_ne_nil cs₂ halnum₂
      by_cases hkind : isDigit c₁ = isDigit c₂
      · rw [← hkind] at hseg₂ ⊢
        rw [if_neg hseg₁, if_neg hseg₂, compareSegments_swap, Ordering.swap_then, ih]
        have := List.length_pos_iff.2 hseg₁
        have := List.length_pos_iff.2 hseg₂
        simp only [List.length_drop]
        omega
      · rw [if_pos (segment_eq_nil cs₁ (Ne.symm hkind)), if_pos (segment_eq_nil cs₂ hkind)]
        cases h : isDigit c₁ <;> cases h' : isDigit c₂
        · exact absurd (h.trans h'.symm) hkind
        · rfl
        · rfl
        · exact absurd (h.trans h'.symm) hkind
    · rw [if_pos (Ne.symm hsep), if_pos hsep]
      rcases Nat.lt_or_gt_of_ne hsep with hlt | hgt
      · rw [if_neg (by omega), if_pos hlt]
        rfl
      · rw [if_pos hgt, if_neg (by omega)]
        rfl

lemma rpmvercmp_swap (a b : Bytes) : rpmvercmp b a = (rpmvercmp a b).swap := by
  unfold rpmvercmp
  by_cases hab : a = b
  · rw [if_pos hab, if_pos hab.symm]
    rfl
  · rw [if_neg hab, if_neg (Ne.symm hab), Nat.add_comm]
    exact rpmvercmpLoop_swap le_rfl

lemma compareReleases_swap (rel1 rel2 : Option Bytes) :
    compareReleases rel2 rel1 = (compareReleases rel1 rel2).swap := by
  rcases rel1 with _ | rel1 <;> rcases rel2 with _ | rel2
  · rfl
  · rfl
  · rfl
  · exact rpmvercmp_swap rel1 rel2

lemma compareEVR_swap (a b : Bytes) : compareEVR b a = (compareEVR a b).swap := by
  unfold compareEVR
  by_cases hab : a = b
  · rw [if_pos hab, if_pos hab.symm]
    rfl
  rw [if_neg hab, if_neg (Ne.symm hab)]
  obtain ⟨epoch1, ver1, rel1⟩ := parseEVR a
  obtain ⟨epoch2, ver2, rel2⟩ := parseEVR b
  simp only [Ordering.swap_then]
  rw [rpmvercmp_swap epoch1, rpmvercmp_swap ver1, compareReleases_swap rel1]

/-- **The comparison of two versions is that of the second to the first, turned around**, for all strings and for
`NULL`. -/
theorem vercmp_swap (v w : Option Bytes) : vercmp w v = (vercmp v w).swap := by
  rcases v with _ | v <;> rcases w with _ | w
  · rfl
  · rfl
  · rfl
  · exact compareEVR_swap v w

end Swap

/-! ### The order of versions -/

/-- A version, or what is left of one, that does not end with a separator. -/
def Ends (s : Bytes) : Prop := ∀ c ∈ s.getLast?, isAlnum c = true

instance : Decidable (Ends s) := inferInstanceAs (Decidable (∀ c ∈ s.getLast?, isAlnum c = true))

/-- What a segment is compared by: its separator and its kind in one number, its length if it is a number, and the
segment. The end of a version is between letters and digits that follow without a separator. -/
structure Token where
  rank : ℕ
  digits : ℕ
  text : Bytes

/-- The order of segments. -/
def Token.cmp : Token → Token → Ordering :=
  compareLex (compareOn Token.rank) (compareLex (compareOn Token.digits) (compareOn Token.text))

instance : Std.TransCmp Token.cmp := inferInstanceAs (Std.TransCmp (compareLex _ (compareLex _ _)))

/-- The end of a version. -/
def endToken : Token := ⟨1, 0, []⟩

/-- The first segment of what is left of a version. -/
def firstToken (s : Bytes) : Token :=
  let rest := s.dropWhile fun c => !isAlnum c
  let sep := s.length - rest.length
  if rest.head?.any isDigit then
    let number := (segment true rest).dropWhile (· = 48)
    ⟨2 * sep + 2, number.length, number⟩
  else ⟨if sep = 0 then 0 else 2 * sep + 1, 0, segment false rest⟩

/-- What is left behind it. -/
def behind (s : Bytes) : Bytes :=
  let rest := s.dropWhile fun c => !isAlnum c
  rest.drop (segment (rest.head?.any isDigit) rest).length

/-- All segments, and the end. -/
def tokens : ℕ → Bytes → List Token
  | 0, _ => [endToken]
  | n + 1, s => if s = [] then [endToken] else firstToken s :: tokens n (behind s)

section Order

lemma Ends.behind (h : Ends s) : Ends (behind s) := by
  have hsuffix : Two09.Alpm.behind s <:+ s := (List.drop_suffix _ _).trans (List.dropWhile_suffix _)
  obtain ⟨t, ht⟩ := hsuffix
  intro c hc
  refine h c ?_
  rw [← ht, List.getLast?_append, Option.mem_def.1 hc]
  rfl

/-- Something is left behind the separators. -/
lemma Ends.exists_cons (h : Ends s) (hs : s ≠ []) :
    ∃ c₀ cs, s.dropWhile (fun c => !isAlnum c) = c₀ :: cs ∧ isAlnum c₀ = true := by
  refine exists_cons_of_dropWhile fun hnil => ?_
  rw [List.dropWhile_eq_nil_iff] at hnil
  have halnum := h _ (List.getLast?_eq_some_getLast hs)
  simpa [halnum] using hnil _ (List.getLast_mem hs)

lemma behind_eq (hs : s.dropWhile (fun c => !isAlnum c) = c₀ :: cs) :
    behind s = (c₀ :: cs).drop (segment (isDigit c₀) (c₀ :: cs)).length := by
  simp only [behind, hs, List.head?_cons, Option.any_some]

/-- Every turn takes a segment. -/
lemma Ends.length_behind_lt (h : Ends s) (hs : s ≠ []) : (Two09.Alpm.behind s).length < s.length := by
  obtain ⟨c₀, cs, hcons, halnum⟩ := h.exists_cons hs
  have hpos := List.length_pos_iff.2 (segment_ne_nil cs halnum)
  have hlen := List.length_dropWhile_le (fun c => !isAlnum c) s
  have hdrop : (c₀ :: cs).length = cs.length + 1 := List.length_cons
  rw [hcons] at hlen
  rw [behind_eq hcons, List.length_drop]
  omega

lemma Token.cmp_eq (x y : Token) :
    x.cmp y = (compare x.rank y.rank).then ((compare x.digits y.digits).then (strcmp x.text y.text)) := rfl

lemma Token.cmp_of_rank {x y : Token} (h : x.rank ≠ y.rank) : x.cmp y = compare x.rank y.rank := by
  rw [cmp_eq]
  rcases Nat.lt_or_gt_of_ne h with hlt | hgt
  · rw [compare_lt_iff_lt.2 hlt]
    rfl
  · rw [compare_gt_iff_gt.2 hgt]
    rfl

lemma firstToken_of_digit (hs : s.dropWhile (fun c => !isAlnum c) = c₀ :: cs) (hd : isDigit c₀ = true) :
    firstToken s = ⟨2 * (s.length - (c₀ :: cs).length) + 2, ((segment true (c₀ :: cs)).dropWhile (· = 48)).length,
      (segment true (c₀ :: cs)).dropWhile (· = 48)⟩ := by
  unfold firstToken
  simp only [hs, List.head?_cons, Option.any_some, hd, if_true]

lemma firstToken_of_alpha (hs : s.dropWhile (fun c => !isAlnum c) = c₀ :: cs) (hd : isDigit c₀ = false) :
    firstToken s = ⟨if s.length - (c₀ :: cs).length = 0 then 0 else 2 * (s.length - (c₀ :: cs).length) + 1, 0,
      segment false (c₀ :: cs)⟩ := by
  unfold firstToken
  simp only [hs, List.head?_cons, Option.any_some, hd, Bool.false_eq_true, if_false]

/-- The separator counts more than the kind. -/
lemma rank_firstToken (hs : s.dropWhile (fun c => !isAlnum c) = c₀ :: cs) :
    (firstToken s).rank ≤ 2 * (s.length - (c₀ :: cs).length) + 2 ∧
      (s.length - (c₀ :: cs).length ≠ 0 → 2 * (s.length - (c₀ :: cs).length) + 1 ≤ (firstToken s).rank) := by
  cases hd : isDigit c₀ with
  | true =>
    rw [firstToken_of_digit hs hd]
    exact ⟨le_rfl, fun _ => Nat.le_succ _⟩
  | false =>
    rw [firstToken_of_alpha hs hd]
    simp only
    split_ifs <;> omega

/-- A version begins with a letter if its first segment is one of letters, without a separator. -/
lemma head_isAlpha (hs : s.dropWhile (fun c => !isAlnum c) = c₀ :: cs) :
    s.head?.any isAlpha = (decide (s.length - (c₀ :: cs).length = 0) && isAlpha c₀) := by
  cases s with
  | nil => cases hs
  | cons x xs =>
    rw [List.dropWhile_cons] at hs
    split at hs
    next hx =>
      have hlen := List.length_dropWhile_le (fun c => !isAlnum c) xs
      rw [hs] at hlen
      have hcons : (x :: xs).length = xs.length + 1 := rfl
      have hsep : ¬ (x :: xs).length - (c₀ :: cs).length = 0 := by omega
      have hnot : isAlpha x = false := by
        simp only [isAlnum, Bool.not_or, Bool.and_eq_true, Bool.not_eq_true'] at hx
        exact hx.2
      rw [decide_eq_false hsep, Bool.false_and, List.head?_cons, Option.any_some, hnot]
    next =>
      cases hs
      simp

/-- A version that ends, against one that goes on. -/
lemma cmp_endToken (h : Ends two) (hne : two ≠ []) :
    endToken.cmp (firstToken two) = showdown [] two ∧ showdown [] two ≠ .eq := by
  obtain ⟨c₀, cs, hs, halnum⟩ := h.exists_cons hne
  have hshow : showdown [] two = if two.head?.any isAlpha then .gt else .lt := by
    unfold showdown
    rw [if_neg (fun hnil => hne hnil.2)]
    cases two.head?.any isAlpha <;> simp
  rw [hshow, head_isAlpha hs]
  cases hd : isDigit c₀ with
  | true =>
    rw [firstToken_of_digit hs hd, isAlpha_eq_false hd, Bool.and_false]
    refine ⟨?_, by simp⟩
    rw [Token.cmp_of_rank (by simp [endToken])]
    exact compare_lt_iff_lt.2 (by simp only [endToken]; omega)
  | false =>
    have halpha : isAlpha c₀ = true := by simpa [isAlnum, hd] using halnum
    rw [firstToken_of_alpha hs hd, halpha, Bool.and_true]
    by_cases hsep : two.length - (c₀ :: cs).length = 0
    · rw [if_pos hsep, decide_eq_true hsep, if_pos rfl]
      exact ⟨by rw [Token.cmp_of_rank (by simp [endToken])]; rfl, by simp⟩
    · rw [if_neg hsep, decide_eq_false hsep, if_neg Bool.false_ne_true]
      refine ⟨?_, by simp⟩
      rw [Token.cmp_of_rank (by simp only [endToken]; omega)]
      exact compare_lt_iff_lt.2 (by simp only [endToken]; omega)

/-- Two segments of one kind, without separators. -/
lemma compareSegments_eq (one two : Bytes) : compareSegments true one two =
    (compare (one.dropWhile (· = 48)).length (two.dropWhile (· = 48)).length).then
      (strcmp (one.dropWhile (· = 48)) (two.dropWhile (· = 48))) := by
  unfold compareSegments
  simp only [if_true]
  generalize one.dropWhile (fun c => decide (c = 48)) = x
  generalize two.dropWhile (fun c => decide (c = 48)) = y
  rcases Nat.lt_trichotomy x.length y.length with hlt | heq | hgt
  · rw [if_neg (by omega), if_pos hlt, compare_lt_iff_lt.2 hlt]
    rfl
  · rw [if_neg (by omega), if_neg (by omega), compare_eq_iff_eq.2 heq]
    rfl
  · rw [if_pos hgt, compare_gt_iff_gt.2 hgt]
    rfl

/-- **Versions that do not end with a separator are compared segment by segment**, the end being one. -/
lemma rpmvercmpLoop_eq (hone : Ends one) (htwo : Ends two) (hn : one.length + two.length ≤ n) :
    rpmvercmpLoop n one two = List.compareLex Token.cmp (tokens n one) (tokens n two) := by
  induction n generalizing one two with
  | zero =>
    obtain rfl := List.length_eq_zero_iff.1 (show one.length = 0 by omega)
    obtain rfl := List.length_eq_zero_iff.1 (show two.length = 0 by omega)
    rfl
  | succ n ih =>
    unfold rpmvercmpLoop tokens
    by_cases h₁ : one = []
    · subst h₁
      rw [if_pos (.inl rfl), if_pos rfl]
      by_cases h₂ : two = []
      · subst h₂
        rfl
      · obtain ⟨hcmp, hne⟩ := cmp_endToken htwo h₂
        rw [if_neg h₂, List.compareLex_cons_cons, hcmp]
        cases hshow : showdown [] two <;> first | rfl | exact absurd hshow hne
    by_cases h₂ : two = []
    · subst h₂
      obtain ⟨hcmp, hne⟩ := cmp_endToken hone h₁
      rw [if_pos (.inr rfl), if_neg h₁, if_pos rfl, List.compareLex_cons_cons, @Std.OrientedCmp.eq_swap _ Token.cmp,
        hcmp, showdown_swap (.inl rfl)]
      cases hshow : showdown [] one <;> first | rfl | exact absurd hshow hne
    rw [if_neg (not_or.2 ⟨h₁, h₂⟩), if_neg h₁, if_neg h₂, List.compareLex_cons_cons]
    obtain ⟨c₁, cs₁, hs₁, halnum₁⟩ := hone.exists_cons h₁
    obtain ⟨c₂, cs₂, hs₂, halnum₂⟩ := htwo.exists_cons h₂
    have hlen₁ := List.length_dropWhile_le (fun c => !isAlnum c) one
    have hlen₂ := List.length_dropWhile_le (fun c => !isAlnum c) two
    rw [hs₁] at hlen₁
    rw [hs₂] at hlen₂
    simp only [hs₁, hs₂, List.head?_cons, Option.any_some, reduceCtorEq, or_self, if_false]
    by_cases hsep : one.length - (c₁ :: cs₁).length = two.length - (c₂ :: cs₂).length
    · rw [if_neg (not_not.2 hsep)]
      by_cases hkind : isDigit c₁ = isDigit c₂
      · have hseg₂ := segment_ne_nil cs₂ halnum₂
        have hlt₁ := hone.length_behind_lt h₁
        have hlt₂ := htwo.length_behind_lt h₂
        have hrest := ih hone.behind htwo.behind (by omega)
        rw [behind_eq hs₁, behind_eq hs₂, ← hkind] at hrest
        rw [behind_eq hs₁, behind_eq hs₂, ← hkind]
        rw [← hkind] at hseg₂
        rw [if_neg hseg₂, hrest]
        congr 1
        cases hd : isDigit c₁ with
        | true =>
          rw [firstToken_of_digit hs₁ hd, firstToken_of_digit hs₂ (hkind ▸ hd), Token.cmp_eq, compareSegments_eq, hsep]
          simp
        | false =>
          rw [firstToken_of_alpha hs₁ hd, firstToken_of_alpha hs₂ (hkind ▸ hd), Token.cmp_eq, hsep]
          simp [compareSegments]
      · rw [if_pos (segment_eq_nil cs₂ hkind)]
        cases hd₁ : isDigit c₁ <;> cases hd₂ : isDigit c₂
        · exact absurd (hd₁.trans hd₂.symm) hkind
        · rw [firstToken_of_alpha hs₁ hd₁, firstToken_of_digit hs₂ hd₂, hsep, Token.cmp_of_rank, compare_lt_iff_lt.2]
          · rfl
          all_goals
            simp only
            split_ifs <;> omega
        · rw [firstToken_of_digit hs₁ hd₁, firstToken_of_alpha hs₂ hd₂, hsep, Token.cmp_of_rank, compare_gt_iff_gt.2]
          · rfl
          all_goals
            simp only
            split_ifs <;> omega
        · exact absurd (hd₁.trans hd₂.symm) hkind
    · obtain ⟨hle₁, hge₁⟩ := rank_firstToken hs₁
      obtain ⟨hle₂, hge₂⟩ := rank_firstToken hs₂
      rw [if_pos hsep]
      rcases Nat.lt_or_gt_of_ne hsep with hlt | hgt
      · have hrank : (firstToken one).rank < (firstToken two).rank := by
          have := hge₂ (by omega)
          omega
        rw [if_pos hlt, Token.cmp_of_rank hrank.ne, compare_lt_iff_lt.2 hrank]
        rfl
      · have hrank : (firstToken two).rank < (firstToken one).rank := by
          have := hge₁ (by omega)
          omega
        rw [if_neg (by omega), Token.cmp_of_rank hrank.ne', compare_gt_iff_gt.2 hrank]
        rfl

/-- The segments of a version. -/
def versionKey (s : Bytes) : List Token := tokens s.length s

lemma tokens_eq_versionKey (h : Ends s) (hn : s.length ≤ n) : tokens n s = versionKey s := by
  have haux : ∀ n m s, Ends s → s.length ≤ n → s.length ≤ m → tokens n s = tokens m s := by
    intro n
    induction n with
    | zero =>
      intro m s _ hn _
      obtain rfl := List.length_eq_zero_iff.1 (Nat.le_zero.1 hn)
      cases m <;> rfl
    | succ n ih =>
      intro m s h hn hm
      by_cases hs : s = []
      · subst hs
        cases m <;> rfl
      have hlt := h.length_behind_lt hs
      have hpos := List.length_pos_iff.2 hs
      obtain ⟨m, rfl⟩ := Nat.exists_eq_succ_of_ne_zero (show m ≠ 0 by omega)
      rw [tokens, tokens, if_neg hs, if_neg hs, ih m (behind s) h.behind (by omega) (by omega)]
  exact haux n s.length s h hn le_rfl

/-- The order of versions that do not end with a separator. -/
def cmpKey (a b : Bytes) : Ordering := List.compareLex Token.cmp (versionKey a) (versionKey b)

/-- A comparison of images. -/
lemma transCmp_comap {α β : Type*} (cmp : α → α → Ordering) [Std.TransCmp cmp] (f : β → α) :
    Std.TransCmp fun x y => cmp (f x) (f y) where
  eq_swap := Std.OrientedCmp.eq_swap
  isLE_trans := Std.TransCmp.isLE_trans

instance : Std.TransCmp cmpKey := transCmp_comap _ versionKey

lemma rpmvercmp_eq (ha : Ends a) (hb : Ends b) : rpmvercmp a b = cmpKey a b := by
  unfold rpmvercmp
  split
  next hab =>
    subst hab
    exact Std.ReflCmp.compare_self.symm
  next =>
    rw [rpmvercmpLoop_eq ha hb le_rfl, tokens_eq_versionKey ha (Nat.le_add_right _ _), tokens_eq_versionKey hb (Nat.le_add_left _ _)]
    rfl

end Order

/-! ### Full versions -/

/-- The version and the release do not end with a separator. -/
structure Proper (s : Bytes) : Prop where
  version : Ends (parseEVR s).2.1
  release : ∀ rel ∈ (parseEVR s).2.2, Ends rel

/-- And there is a release. -/
structure Full (s : Bytes) : Prop extends Proper s where
  isSome : (parseEVR s).2.2.isSome

instance (s : Bytes) : Decidable (Proper s) :=
  decidable_of_iff (Ends (parseEVR s).2.1 ∧ ∀ rel ∈ (parseEVR s).2.2, Ends rel)
    ⟨fun h => ⟨h.1, h.2⟩, fun h => ⟨h.version, h.release⟩⟩

instance (s : Bytes) : Decidable (Full s) :=
  decidable_of_iff (Proper s ∧ (parseEVR s).2.2.isSome) ⟨fun h => ⟨h.1, h.2⟩, fun h => ⟨h.toProper, h.isSome⟩⟩

section Full

variable {u v w : Bytes}

lemma ends_epoch (s : Bytes) : Ends (parseEVR s).1 := by
  have hzero : Ends (ascii "0") := by
    rw [ascii, Ends]
    simp [isAlnum, isDigit]
  unfold parseEVR
  simp only
  split
  · split
    · exact hzero
    · intro c hc
      have hmem := List.mem_takeWhile_imp (List.mem_of_getLast? hc)
      rw [isAlnum, hmem, Bool.true_or]
  · exact hzero

lemma compareEVR_eq (a b : Bytes) : compareEVR a b =
    (rpmvercmp (parseEVR a).1 (parseEVR b).1).then ((rpmvercmp (parseEVR a).2.1 (parseEVR b).2.1).then
      (compareReleases (parseEVR a).2.2 (parseEVR b).2.2)) := by
  unfold compareEVR
  split
  next hab =>
    subst hab
    have hself : ∀ s, rpmvercmp s s = .eq := fun s => if_pos rfl
    rw [hself, hself]
    cases (parseEVR a).2.2 with
    | none => rfl
    | some rel => exact (hself rel).symm
  next => rfl

/-- The order of full versions, by epoch and version only, and with the release. -/
def cmpVersion (a b : Bytes) : Ordering :=
  compareLex (fun x y => cmpKey (parseEVR x).1 (parseEVR y).1) (fun x y => cmpKey (parseEVR x).2.1 (parseEVR y).2.1) a b

def cmpFull (a b : Bytes) : Ordering :=
  compareLex cmpVersion (fun x y => cmpKey ((parseEVR x).2.2.getD []) ((parseEVR y).2.2.getD [])) a b

instance : Std.TransCmp cmpVersion := by
  have := transCmp_comap cmpKey fun x => (parseEVR x).1
  have := transCmp_comap cmpKey fun x => (parseEVR x).2.1
  exact inferInstanceAs (Std.TransCmp (compareLex _ _))

instance : Std.TransCmp cmpFull := by
  have := transCmp_comap cmpKey fun x => (parseEVR x).2.2.getD []
  exact inferInstanceAs (Std.TransCmp (compareLex _ _))

lemma compareEVR_full (hv : Full v) (hw : Full w) : compareEVR v w = cmpFull v w := by
  obtain ⟨rel1, h₁⟩ := Option.isSome_iff_exists.1 hv.isSome
  obtain ⟨rel2, h₂⟩ := Option.isSome_iff_exists.1 hw.isSome
  rw [compareEVR_eq, rpmvercmp_eq (ends_epoch v) (ends_epoch w), rpmvercmp_eq hv.version hw.version, h₁, h₂,
    compareReleases, rpmvercmp_eq (hv.release rel1 h₁) (hw.release rel2 h₂), cmpFull, compareLex, cmpVersion, compareLex,
    h₁, h₂, Ordering.then_assoc]
  rfl

lemma compareEVR_of_none (hv : Proper v) (hw : Proper w)
    (hnone : (parseEVR v).2.2 = none ∨ (parseEVR w).2.2 = none) : compareEVR v w = cmpVersion v w := by
  have hrel : compareReleases (parseEVR v).2.2 (parseEVR w).2.2 = .eq := by
    rcases hnone with h | h
    · rw [h]
      rfl
    · rw [h]
      cases (parseEVR v).2.2 <;> rfl
  rw [compareEVR_eq, rpmvercmp_eq (ends_epoch v) (ends_epoch w), rpmvercmp_eq hv.version hw.version, hrel,
    Ordering.then_eq]
  rfl

lemma isLE_cmpVersion (h : (cmpFull v w).isLE) : (cmpVersion v w).isLE := by
  rw [cmpFull, compareLex] at h
  cases hcmp : cmpVersion v w with
  | gt => rw [hcmp] at h; cases h
  | lt => rfl
  | eq => rfl

/-- **What a full version is not newer than, none before it is newer than.** The release of the last may be missing. -/
lemma compareEVR_trans_right (hu : Full u) (hv : Full v) (hw : Proper w) (huv : (compareEVR u v).isLE)
    (hvw : (compareEVR v w).isLE) : (compareEVR u w).isLE := by
  rw [compareEVR_full hu hv] at huv
  cases hrel : (parseEVR w).2.2 with
  | none =>
    rw [compareEVR_of_none hv.toProper hw (.inr hrel)] at hvw
    rw [compareEVR_of_none hu.toProper hw (.inr hrel)]
    exact Std.TransCmp.isLE_trans (isLE_cmpVersion huv) hvw
  | some rel =>
    have hfull : Full w := ⟨hw, by rw [hrel]; rfl⟩
    rw [compareEVR_full hv hfull] at hvw
    rw [compareEVR_full hu hfull]
    exact Std.TransCmp.isLE_trans huv hvw

/-- **What is not newer than a full version is not newer than those behind it.** Its release may be missing. -/
lemma compareEVR_trans_left (hu : Proper u) (hv : Full v) (hw : Full w) (huv : (compareEVR u v).isLE)
    (hvw : (compareEVR v w).isLE) : (compareEVR u w).isLE := by
  rw [compareEVR_full hv hw] at hvw
  cases hrel : (parseEVR u).2.2 with
  | none =>
    rw [compareEVR_of_none hu hv.toProper (.inl hrel)] at huv
    rw [compareEVR_of_none hu hw.toProper (.inl hrel)]
    exact Std.TransCmp.isLE_trans huv (isLE_cmpVersion hvw)
  | some rel =>
    have hfull : Full u := ⟨hu, by rw [hrel]; rfl⟩
    rw [compareEVR_full hfull hv] at huv
    rw [compareEVR_full hfull hw]
    exact Std.TransCmp.isLE_trans huv hvw

end Full

/-- Versions that end with a separator need not be in an order: each of these is newer than the next, and the last is
newer than the first. -/
example : compareEVR (ascii "1..a") (ascii "1.1") = .gt ∧ compareEVR (ascii "1.1") (ascii "1.") = .gt ∧
    compareEVR (ascii "1.") (ascii "1..a") = .gt := by
  decide +kernel

end Two09.Alpm
