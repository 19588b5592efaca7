import Two09.Share.Serialize

/-!
# Reading a narinfo back

What the parser makes of the text of a narinfo, and when that is the narinfo: as long as each piece of the text
fits into the array that it is formatted in, where the last one may lose its line break.
-/

namespace Two09.Share

open Two09.Lib

/-! ### What can be written -/

/-- No whitespace at the ends. -/
structure Trimmed (s : Bytes) : Prop where
  head : ∀ c ∈ s.head?, isSpace c = false
  last : ∀ c ∈ s.getLast?, isSpace c = false

/-- A C string without line breaks and without whitespace at the ends. -/
structure Clean (s : Bytes) : Prop extends Trimmed s where
  inner : ∀ c ∈ s, c ≠ 13 ∧ c ≠ 10 ∧ c ≠ 0

/-- A C string that is not empty and has no whitespace in it. -/
structure Solid (s : Bytes) : Prop where
  ne_nil : s ≠ []
  inner : ∀ c ∈ s, isSpace c = false ∧ c ≠ 0

/-- A size of 64 bits that is not negative. -/
def IsSize (n : Int) : Prop := 0 ≤ n ∧ n < 2 ^ 63

structure NarinfoFile.Wf (ni : NarinfoFile) : Prop where
  storePath : Clean ni.storePath
  url : ∀ s ∈ ni.url, Clean s
  compression : ∀ s ∈ ni.compression, Clean s
  fileHash : ∀ s ∈ ni.fileHash, Clean s
  fileSize : IsSize ni.fileSize
  narHash : ∀ s ∈ ni.narHash, Clean s
  narSize : IsSize ni.narSize
  references : ∀ refs ∈ ni.references, refs ≠ [] ∧ ∀ r ∈ refs, Solid r
  deriver : ∀ s ∈ ni.deriver, Clean s
  signatures : ∀ sigs ∈ ni.signatures, sigs ≠ [] ∧ ∀ s ∈ sigs, Clean s
  ca : ∀ s ∈ ni.ca, Clean s

def Field.Wf : Field → Prop
  | storePath s | url s | compression s | fileHash s | narHash s | deriver s | sig s | ca s => Clean s
  | fileSize n | narSize n => IsSize n
  | references refs => refs ≠ [] ∧ ∀ r ∈ refs, Solid r

/-- What the parser does with a field that it has read. -/
def Field.fill : Field → Filled → Filled
  | storePath s, ni => { ni with storePath := some s }
  | url s, ni => { ni with url := some s }
  | compression s, ni => { ni with compression := some s }
  | fileHash s, ni => { ni with fileHash := some s }
  | fileSize n, ni => { ni with fileSize := n }
  | narHash s, ni => { ni with narHash := some s }
  | narSize n, ni => { ni with narSize := n }
  | references refs, ni => { ni with references := some refs }
  | deriver s, ni => { ni with deriver := some s }
  | sig s, ni => { ni with signatures := some (ni.signatures.getD [] ++ [s]) }
  | ca s, ni => { ni with ca := some s }

/-! ### One line -/

section Line

variable {s key val : Bytes} {refs : List Bytes} {f : Field} {n : Int}

lemma trim_blank (h : Trimmed s) : trim (32 :: s) = s := by
  have hdrop : (32 :: s).dropWhile isSpace = s := by
    rw [List.dropWhile_cons_of_pos (by decide)]
    cases s with
    | nil => rfl
    | cons c s => rw [List.dropWhile_cons_of_neg (by simp [h.head c rfl])]
  unfold trim
  rw [hdrop, List.rdropWhile_eq_self_iff]
  intro hne
  rw [h.last _ (List.getLast?_eq_some_getLast hne)]
  exact Bool.false_ne_true

lemma splitColon_key (h : colon ∉ key) : splitColon (key ++ ascii ":" ++ val) = some (key, val) := by
  have hkey : ∀ c ∈ key, decide (c ≠ colon) = true := fun c hc => by
    simpa using fun heq : c = colon => h (heq ▸ hc)
  have heq : key ++ ascii ":" ++ val = key ++ colon :: val := by
    rw [List.append_assoc]
    rfl
  unfold splitColon
  rw [heq, if_pos (List.mem_append_right _ List.mem_cons_self), List.takeWhile_append_of_pos hkey,
    List.dropWhile_append_of_pos hkey]
  simp

lemma strtoll_signedDecimal (h : IsSize n) : strtoll (signedDecimal n) = n := by
  obtain ⟨m, rfl⟩ := Int.eq_ofNat_of_zero_le h.1
  have hm : m < 2 ^ 63 := by exact_mod_cast h.2
  have hdigits : ∀ c ∈ decimal m, isDigit c = true := fun c hc => by
    unfold isDigit
    exact decide_eq_true (digit_of_mem_decimal hc)
  have hdec : signedDecimal (m : Int) = decimal m := if_neg (by omega)
  obtain ⟨c, t, hct⟩ := List.exists_cons_of_ne_nil (decimal_ne_nil m)
  have hc : isDigit c = true := hdigits c (by rw [hct]; exact List.mem_cons_self)
  have hrange : 48 ≤ c ∧ c ≤ 57 := of_decide_eq_true hc
  have hspace : isSpace c = false := by
    unfold isSpace
    refine decide_eq_false fun hor => ?_
    rcases hor with rfl | ⟨-, hle⟩
    · exact absurd hrange.1 (by decide)
    · exact absurd (UInt8.le_trans hrange.1 hle) (by decide)
  have hminus : c ≠ 45 := by
    rintro rfl
    exact absurd hrange.1 (by decide)
  have hplus : c ≠ 43 := by
    rintro rfl
    exact absurd hrange.1 (by decide)
  have htake : (decimal m).takeWhile isDigit = decimal m := List.takeWhile_eq_self_iff.2 hdigits
  unfold strtoll
  rw [hdec]
  have hdrop : (decimal m).dropWhile isSpace = decimal m := by
    rw [hct, List.dropWhile_cons_of_neg (by simp [hspace])]
  have hsign : (decimal m).head? ≠ some 45 ∧ (decimal m).head? ≠ some 43 := by
    rw [hct]
    exact ⟨fun heq => hminus (Option.some.inj heq), fun heq => hplus (Option.some.inj heq)⟩
  simp only [hdrop, hsign.1, hsign.2, decide_false, Bool.false_eq_true, or_self, if_false, htake, foldl_decimal]
  exact min_eq_left (by omega)

lemma trimmed_append {t : Bytes} (hs : s ≠ []) (hhead : ∀ c ∈ s.head?, isSpace c = false) (ht : t ≠ [])
    (hlast : ∀ c ∈ t.getLast?, isSpace c = false) : Trimmed (s ++ t) := by
  constructor
  · rw [List.head?_append_of_ne_nil _ hs]
    exact hhead
  · rw [List.getLast?_append_of_ne_nil _ ht]
    exact hlast

lemma Solid.trimmed (h : Solid s) : Trimmed s where
  head c hc := (h.inner c (List.mem_of_mem_head? hc)).1
  last c hc := (h.inner c (List.mem_of_mem_getLast? hc)).1

/-- The references behind one another, without the blank in front of the first. -/
lemma trimmed_references {r : Bytes} (hr : Solid r) (hrefs : ∀ r ∈ refs, Solid r) :
    Trimmed (r ++ refs.flatMap (32 :: ·)) := by
  rcases List.eq_nil_or_concat refs with rfl | ⟨rs, t, rfl⟩
  · rw [List.flatMap_nil, List.append_nil]
    exact hr.trimmed
  · have ht : Solid t := hrefs t (by simp)
    have heq : r ++ (rs.concat t).flatMap (32 :: ·) = r ++ rs.flatMap (32 :: ·) ++ [32] ++ t := by simp
    rw [heq, List.append_assoc, List.append_assoc]
    refine trimmed_append hr.ne_nil hr.trimmed.head (by simp) ?_
    rw [← List.append_assoc, List.getLast?_append_of_ne_nil _ ht.ne_nil]
    exact ht.trimmed.last

lemma words_references {r : Bytes} (hr : Solid r) (hrefs : ∀ r ∈ refs, Solid r) :
    words (fun c => decide (c = 32 ∨ c = 9)) (r ++ refs.flatMap (32 :: ·)) = r :: refs := by
  have hword : ∀ w ∈ r :: refs, w ≠ [] ∧ ∀ c ∈ w, decide (c = 32 ∨ c = 9) = false := by
    intro w hw
    have hsolid : Solid w := (List.mem_cons.1 hw).elim (fun heq => heq ▸ hr) (hrefs w)
    refine ⟨hsolid.ne_nil, fun c hc => decide_eq_false fun hor => ?_⟩
    rcases hor with rfl | rfl
    · exact absurd (hsolid.inner _ hc).1 (by decide)
    · exact absurd (hsolid.inner _ hc).1 (by decide)
  have hread := words_preceded (c := 32) (by decide) hword
  rwa [List.flatMap_cons, List.cons_append, words_cons (by decide)] at hread

lemma clean_signedDecimal (h : IsSize n) : Clean (signedDecimal n) := by
  have hdigit : ∀ c ∈ signedDecimal n, 48 ≤ c := by
    intro c hc
    rw [signedDecimal, if_neg (by have := h.1; omega)] at hc
    exact (digit_of_mem_decimal hc).1
  have hspace : ∀ c : UInt8, 48 ≤ c → isSpace c = false := by
    intro c hc
    refine decide_eq_false fun hor => ?_
    rcases hor with rfl | ⟨-, hle⟩
    · exact absurd hc (by decide)
    · exact absurd (UInt8.le_trans hc hle) (by decide)
  refine ⟨⟨fun c hc => hspace c (hdigit c (List.mem_of_mem_head? hc)),
    fun c hc => hspace c (hdigit c (List.mem_of_mem_getLast? hc))⟩, fun c hc => ?_⟩
  have hle := hdigit c hc
  refine ⟨?_, ?_, ?_⟩
  · rintro rfl
    exact absurd hle (by decide)
  · rintro rfl
    exact absurd hle (by decide)
  · rintro rfl
    exact absurd hle (by decide)

lemma key_mem (f : Field) : f.key ∈ keys := by
  cases f <;> simp only [Field.key] <;> decide

/-- **A line is read as what was written.** -/
lemma line_text (h : f.Wf) (ni : Filled) : ni.line f.text = f.fill ni := by
  have hkeys : ∀ k ∈ keys, colon ∉ k ∧ trim k = k := by decide
  obtain ⟨hcolon, hkey⟩ := hkeys f.key (key_mem f)
  have hsplit : splitColon f.text = some (f.key, f.value) := splitColon_key hcolon
  have hval : ∀ s, f.value = 32 :: s → Trimmed s → trim f.value = s := by
    intro s heq hs
    rw [heq, trim_blank hs]
  unfold Filled.line
  rw [hsplit]
  dsimp only
  rw [hkey]
  cases f with
  | fileSize n =>
    rw [hval (signedDecimal n) rfl (clean_signedDecimal h).toTrimmed, strtoll_signedDecimal h]
    rfl
  | narSize n =>
    rw [hval (signedDecimal n) rfl (clean_signedDecimal h).toTrimmed, strtoll_signedDecimal h]
    rfl
  | references refs =>
    obtain ⟨hne, hrefs⟩ := h
    cases refs with
    | nil => exact absurd rfl hne
    | cons r refs =>
      obtain ⟨hr, hrefs⟩ := List.forall_mem_cons.1 hrefs
      rw [hval (r ++ refs.flatMap (32 :: ·)) rfl (trimmed_references hr hrefs), words_references hr hrefs,
        if_neg (c := _ = []) (by simp [hr.ne_nil])]
      rfl
  | storePath s | url s | compression s | fileHash s | narHash s | deriver s | sig s | ca s =>
    rw [hval s rfl h.toTrimmed]
    rfl

end Line

/-! ### All lines -/

section Lines

variable {fs : List Field} {f : Field}

/-- The lines of some fields. -/
def linesOf (fs : List Field) : Bytes := fs.flatMap fun f => f.text ++ ascii "\n"

/-- What the parser has filled in at the end of a text. -/
def filled (text : Bytes) : Filled := (words isBreak (cstr text)).foldl Filled.line .none

def fillAll (fs : List Field) : Filled := fs.foldl (fun ni f => f.fill ni) .none

/-- A character that ends neither a line nor the text. -/
def Plain (c : UInt8) : Prop := c ≠ 13 ∧ c ≠ 10 ∧ c ≠ 0

lemma Solid.plain {s : Bytes} (h : Solid s) : ∀ c ∈ s, Plain c := by
  intro c hc
  obtain ⟨hspace, hzero⟩ := h.inner c hc
  refine ⟨?_, ?_, hzero⟩
  · rintro rfl
    exact absurd hspace (by decide)
  · rintro rfl
    exact absurd hspace (by decide)

lemma plain_append {s t : Bytes} (hs : ∀ c ∈ s, Plain c) (ht : ∀ c ∈ t, Plain c) : ∀ c ∈ s ++ t, Plain c :=
  fun c hc => (List.mem_append.1 hc).elim (hs c) (ht c)

instance (c : UInt8) : Decidable (Plain c) := inferInstanceAs (Decidable (_ ∧ _))

lemma plain_text (h : f.Wf) : ∀ c ∈ f.text, Plain c := by
  have hall : (keys.all fun k => k.all fun c => decide (Plain c)) = true := by decide
  have hkeys : ∀ k ∈ keys, ∀ c ∈ k, Plain c := fun k hk c hc =>
    of_decide_eq_true (List.all_eq_true.1 (List.all_eq_true.1 hall k hk) c hc)
  have hcolon : ∀ c ∈ ascii ":", Plain c := by decide +kernel
  have hone : ∀ c ∈ ascii " ", Plain c := by decide +kernel
  have hblank : ∀ s : Bytes, (∀ c ∈ s, Plain c) → ∀ c ∈ ascii " " ++ s, Plain c :=
    fun s hs => plain_append hone hs
  refine plain_append (plain_append (hkeys f.key (key_mem f)) hcolon) ?_
  cases f with
  | fileSize n | narSize n => exact hblank _ (clean_signedDecimal h).inner
  | references refs =>
    intro c hc
    obtain ⟨r, hr, hc⟩ := List.mem_flatMap.1 hc
    exact hblank r (h.2 r hr).plain c hc
  | storePath s | url s | compression s | fileHash s | narHash s | deriver s | sig s | ca s =>
    exact hblank s h.inner

lemma text_ne_nil (f : Field) : f.text ≠ [] := by
  have hkeys : ∀ k ∈ keys, k ≠ [] := by decide
  intro hnil
  have hkey := (List.append_eq_nil_iff.1 (List.append_eq_nil_iff.1 hnil).1).1
  exact hkeys f.key (key_mem f) hkey

lemma foldl_line (h : ∀ f ∈ fs, f.Wf) (ni : Filled) :
    (fs.map Field.text).foldl Filled.line ni = fs.foldl (fun ni f => f.fill ni) ni := by
  induction fs generalizing ni with
  | nil => rfl
  | cons f fs ih =>
    obtain ⟨hf, hfs⟩ := List.forall_mem_cons.1 h
    rw [List.map_cons, List.foldl_cons, line_text hf, ih hfs, List.foldl_cons]

lemma linesOf_eq (fs : List Field) : linesOf fs = (fs.map Field.text).flatMap (· ++ [10]) := by
  rw [List.flatMap_map]
  rfl

lemma words_lines (h : ∀ f ∈ fs, ∀ c ∈ f.text, Plain c) (s : Bytes) :
    words isBreak (linesOf fs ++ s) = fs.map Field.text ++ words isBreak s := by
  rw [linesOf_eq]
  refine words_terminated (by decide) (fun w hw => ?_) s
  obtain ⟨f, hf, rfl⟩ := List.mem_map.1 hw
  refine ⟨text_ne_nil f, fun c hc => decide_eq_false fun hor => ?_⟩
  obtain ⟨hcr, hlf, -⟩ := h f hf c hc
  exact hor.elim hcr hlf

lemma zero_notMem_linesOf (h : ∀ f ∈ fs, ∀ c ∈ f.text, Plain c) : (0 : UInt8) ∉ linesOf fs := by
  intro hzero
  obtain ⟨f, hf, hzero⟩ := List.mem_flatMap.1 hzero
  rcases List.mem_append.1 hzero with hzero | hzero
  · exact (h f hf 0 hzero).2.2 rfl
  · exact absurd hzero (by decide)

/-- **The lines are read as what was written.** -/
lemma filled_lines (h : ∀ f ∈ fs, f.Wf) : filled (linesOf fs) = fillAll fs := by
  have hplain : ∀ f ∈ fs, ∀ c ∈ f.text, Plain c := fun f hf => plain_text (h f hf)
  have hwords := words_lines hplain []
  rw [List.append_nil] at hwords
  unfold filled
  rw [cstr_eq_self (zero_notMem_linesOf hplain), hwords, show words isBreak [] = [] by rfl, List.append_nil, foldl_line h]
  rfl

/-- The last line is read without its break too, and the text ends with a NUL. -/
lemma filled_cut (h : ∀ f ∈ fs, f.Wf) (hf : f.Wf) (s : Bytes) :
    filled (linesOf fs ++ f.text ++ 0 :: s) = fillAll (fs ++ [f]) := by
  have hplain : ∀ f ∈ fs, ∀ c ∈ f.text, Plain c := fun f hf => plain_text (h f hf)
  have hzero : ∀ c ∈ linesOf fs ++ f.text, decide (c ≠ 0) = true := by
    intro c hc
    refine decide_eq_true ?_
    rintro rfl
    rcases List.mem_append.1 hc with hc | hc
    · exact zero_notMem_linesOf hplain hc
    · exact (plain_text hf 0 hc).2.2 rfl
  have hcstr : cstr (linesOf fs ++ f.text ++ 0 :: s) = linesOf fs ++ f.text := by
    unfold cstr
    rw [List.takeWhile_append_of_pos hzero, List.takeWhile_cons_of_neg (by decide), List.append_nil]
  have hword : ∀ c ∈ f.text, isBreak c = false := by
    intro c hc
    obtain ⟨hcr, hlf, -⟩ := plain_text hf c hc
    exact decide_eq_false fun hor => hor.elim hcr hlf
  unfold filled fillAll
  rw [hcstr, words_lines hplain, words_eq_singleton hword (text_ne_nil f), List.foldl_append, foldl_line h,
    List.foldl_append, List.foldl_cons, List.foldl_nil, line_text hf]
  rfl

/-! ### The fields of a narinfo -/

lemma pieces_flatten (f : Field) : f.pieces.flatten = f.text ++ ascii "\n" := by
  cases f with
  | references refs =>
    show (ascii "References" ++ ascii ":") ++ (refs.map (ascii " " ++ ·) ++ [ascii "\n"]).flatten = _
    rw [List.flatten_append, ← List.flatMap_def, List.flatten_singleton, ← List.append_assoc]
    rfl
  | _ => exact List.flatten_singleton

lemma flatten_pieces (fs : List Field) : (fs.flatMap Field.pieces).flatten = linesOf fs := by
  induction fs with
  | nil => rfl
  | cons f fs ih =>
    rw [List.flatMap_cons, List.flatten_append, ih, pieces_flatten]
    rfl

/-- How many fields are filled in. -/
def Filled.count (ni : Filled) : Nat :=
  ni.storePath.toList.length + ni.url.toList.length + ni.compression.toList.length + ni.fileHash.toList.length +
    (if ni.fileSize = 0 then 0 else 1) + ni.narHash.toList.length + (if ni.narSize = 0 then 0 else 1) +
    ni.references.toList.length + ni.deriver.toList.length + (ni.signatures.getD []).length + ni.ca.toList.length

lemma count_fill (f : Field) (ni : Filled) : (f.fill ni).count ≤ ni.count + 1 := by
  cases f with
  | fileSize n | narSize n =>
    unfold Field.fill Filled.count
    dsimp only
    split_ifs <;> omega
  | sig s =>
    unfold Field.fill Filled.count
    simp only [Option.getD_some, List.length_append, List.length_singleton]
    omega
  | _ =>
    unfold Field.fill Filled.count
    simp only [Option.toList_some, List.length_singleton]
    omega

lemma count_fillAll (fs : List Field) : (fillAll fs).count ≤ fs.length := by
  have hrun : ∀ ni : Filled, (fs.foldl (fun ni f => f.fill ni) ni).count ≤ ni.count + fs.length := by
    induction fs with
    | nil => exact fun _ => le_rfl
    | cons f fs ih =>
      intro ni
      have hstep := count_fill f ni
      have hrest := ih (f.fill ni)
      rw [List.foldl_cons, List.length_cons]
      omega
  have hnone : Filled.none.count = 0 := rfl
  have hcount := hrun .none
  rw [hnone] at hcount
  unfold fillAll
  omega

end Lines

section Narinfo

variable {ni : NarinfoFile} {fs : List Field} {f : Field}

/-- A narinfo that is filled in. -/
def NarinfoFile.whole (ni : NarinfoFile) : Filled := ⟨ni.toOptional, some ni.storePath⟩

lemma narinfoParseAll_eq (text : Bytes) :
    narinfoParseAll text = (filled text).storePath.map fun path => ⟨(filled text).toOptional, path⟩ := rfl

lemma narinfoParseAll_eq_some {text : Bytes} : narinfoParseAll text = some ni ↔ filled text = ni.whole := by
  rw [narinfoParseAll_eq]
  generalize filled text = d
  obtain ⟨o, path⟩ := d
  obtain ⟨o', path'⟩ := ni
  cases path <;> simp [NarinfoFile.whole, and_comm]

lemma wf_fields (h : ni.Wf) : ∀ f ∈ ni.fields, f.Wf := by
  have hwritten : ∀ n, IsSize n → ∀ m ∈ written n, IsSize m := by
    intro n hn m hm
    unfold written at hm
    split_ifs at hm
    · obtain rfl := List.mem_singleton.1 hm
      exact hn
    · cases hm
  intro f hf
  simp only [NarinfoFile.fields, List.mem_cons, List.mem_append, List.mem_map, Option.mem_toList, List.mem_filter] at hf
  rcases hf with rfl | ((((((((⟨s, hs, rfl⟩ | ⟨s, hs, rfl⟩) | ⟨s, hs, rfl⟩) | ⟨n, hn, rfl⟩) | ⟨s, hs, rfl⟩) |
    ⟨n, hn, rfl⟩) | ⟨refs, ⟨hrefs, -⟩, rfl⟩) | ⟨s, hs, rfl⟩) | ⟨s, hs, rfl⟩) | ⟨s, hs, rfl⟩
  · exact h.storePath
  · exact h.url s hs
  · exact h.compression s hs
  · exact h.fileHash s hs
  · exact hwritten _ h.fileSize n hn
  · exact h.narHash s hs
  · exact hwritten _ h.narSize n hn
  · exact h.references refs hrefs
  · exact h.deriver s hs
  · cases hsigs : ni.signatures with
    | none =>
      rw [hsigs] at hs
      cases hs
    | some sigs =>
      rw [hsigs] at hs
      exact (h.signatures sigs hsigs).2 s hs
  · exact h.ca s hs

lemma foldl_toList {α : Type} (mk : α → Field) (put : Option α → Filled → Filled) (d : Filled)
    (hsome : ∀ a, (mk a).fill d = put (some a) d) (hnone : put none d = d) (o : Option α) :
    (o.toList.map mk).foldl (fun ni f => f.fill ni) d = put o d := by
  cases o with
  | none => exact hnone.symm
  | some a => exact hsome a

lemma foldl_written (mk : Int → Field) (put : Int → Filled → Filled) (d : Filled)
    (hfill : ∀ n, (mk n).fill d = put n d) (hzero : put 0 d = d) {n : Int} (hn : IsSize n) :
    ((written n).map mk).foldl (fun ni f => f.fill ni) d = put n d := by
  unfold written
  split_ifs with hpos
  · exact hfill n
  · obtain rfl : n = 0 := le_antisymm (not_lt.1 hpos) hn.1
    exact hzero.symm

lemma foldl_sig (d : Filled) (hd : d.signatures = none) {o : Option (List Bytes)} (ho : ∀ sigs ∈ o, sigs ≠ []) :
    ((o.getD []).map Field.sig).foldl (fun ni f => f.fill ni) d = { d with signatures := o } := by
  have hsome : ∀ (sigs l : List Bytes) (d : Filled), d.signatures = some l →
      (sigs.map Field.sig).foldl (fun ni f => f.fill ni) d = { d with signatures := some (l ++ sigs) } := by
    intro sigs
    induction sigs with
    | nil =>
      intro l d hd
      rw [List.append_nil, ← hd]
      rfl
    | cons s sigs ih =>
      intro l d hd
      rw [List.map_cons, List.foldl_cons, ih (l ++ [s]) _ (by rw [Field.fill, hd]; rfl), List.append_assoc]
      rfl
  cases o with
  | none =>
    show d = { d with signatures := none }
    rw [← hd]
  | some sigs =>
    cases sigs with
    | nil => exact absurd rfl (ho [] rfl)
    | cons s sigs =>
      rw [Option.getD_some, List.map_cons, List.foldl_cons, hsome sigs [s] _ (by rw [Field.fill, hd]; rfl)]
      rfl

lemma references_filter (h : ni.Wf) : ni.references.toList.filter (· ≠ []) = ni.references.toList := by
  refine List.filter_eq_self.2 fun refs hrefs => ?_
  exact decide_eq_true (h.references refs (Option.mem_toList.1 hrefs)).1

/-- **The fields that are written make the narinfo.** -/
lemma fillAll_fields (h : ni.Wf) : fillAll ni.fields = ni.whole := by
  have hrefs := references_filter h
  have hfileSize := h.fileSize
  have hnarSize := h.narSize
  have hsigs := fun sigs hmem => (h.signatures sigs hmem).1
  unfold fillAll NarinfoFile.fields
  rw [hrefs]
  clear h hrefs
  obtain ⟨⟨url, compression, fileHash, fileSize, narHash, narSize, references, deriver, signatures, ca⟩, path⟩ := ni
  simp only [List.foldl_cons, List.foldl_append]
  rw [foldl_toList .url fun o d => { d with url := o }, foldl_toList .compression fun o d => { d with compression := o },
    foldl_toList .fileHash fun o d => { d with fileHash := o },
    foldl_written .fileSize (fun n d => { d with fileSize := n }) _ _ _ hfileSize,
    foldl_toList .narHash fun o d => { d with narHash := o },
    foldl_written .narSize (fun n d => { d with narSize := n }) _ _ _ hnarSize,
    foldl_toList .references fun o d => { d with references := o }, foldl_toList .deriver fun o d => { d with deriver := o },
    foldl_sig _ rfl hsigs, foldl_toList .ca fun o d => { d with ca := o }]
  all_goals first | rfl | exact fun _ => rfl

/-- Each field that is written is one that is filled in. -/
lemma length_fields (h : ni.Wf) : ni.fields.length = ni.whole.count := by
  have hwritten : ∀ n, IsSize n → (written n).length = if n = 0 then 0 else 1 := by
    intro n hn
    have hnonneg := hn.1
    unfold written
    split_ifs <;> first | rfl | omega
  unfold NarinfoFile.fields Filled.count NarinfoFile.whole
  rw [references_filter h]
  simp only [List.length_cons, List.length_append, List.length_map, hwritten _ h.fileSize, hwritten _ h.narSize,
    Option.toList_some, List.length_nil]
  omega

/-! ### Copying through the array -/

lemma foldlM_bufAppend {pieces : List Bytes} (h : ∀ p ∈ pieces, p.length < 512) (buf : Bytes) :
    pieces.foldlM bufAppend buf = .ok (buf ++ pieces.flatten) := by
  induction pieces generalizing buf with
  | nil =>
    rw [List.flatten_nil, List.append_nil]
    rfl
  | cons p pieces ih =>
    obtain ⟨hp, hpieces⟩ := List.forall_mem_cons.1 h
    have hstep : bufAppend buf p = .ok (buf ++ p) := by
      unfold bufAppend
      rw [if_neg (by omega), if_neg (by omega), if_neg (by omega)]
    rw [List.foldlM_cons, hstep]
    show pieces.foldlM bufAppend (buf ++ p) = _
    rw [ih hpieces, List.flatten_cons, List.append_assoc]

lemma prefix_of_foldlM {pieces : List Bytes} {buf text : Bytes} (h : pieces.foldlM bufAppend buf = .ok text) :
    buf <+: text := by
  induction pieces generalizing buf with
  | nil =>
    obtain rfl := Except.ok.inj h
    exact List.prefix_rfl
  | cons p pieces ih =>
    rw [List.foldlM_cons] at h
    cases hp : bufAppend buf p with
    | error e =>
      rw [hp] at h
      cases h
    | ok buf' =>
      rw [hp] at h
      refine List.IsPrefix.trans ?_ (ih h)
      unfold bufAppend at hp
      split_ifs at hp <;> obtain rfl := Except.ok.inj hp <;> exact List.prefix_append _ _

/-- The pieces in front of the first that does not fit, and that one. -/
lemma foldlM_cut {before after : List Bytes} {p text : Bytes} (hbefore : ∀ p ∈ before, p.length < 512)
    (hp : 512 ≤ p.length) (h : (before ++ p :: after).foldlM bufAppend [] = .ok text) :
    p.length = 512 ∧ before.flatten ++ (p.take 511 ++ [0]) <+: text := by
  rw [List.foldlM_append, foldlM_bufAppend hbefore, List.nil_append] at h
  replace h : (bufAppend before.flatten p >>= fun buf => after.foldlM bufAppend buf) = .ok text := by
    rw [← h]
    rfl
  unfold bufAppend at h
  split_ifs at h with hfail hover hfull
  · cases h
  · cases h
  · exact ⟨hfull, prefix_of_foldlM h⟩
  · omega

/-- A place among the pieces is a place among those of one field. -/
lemma split_pieces {before after : List Bytes} {p : Bytes} (h : fs.flatMap Field.pieces = before ++ p :: after) :
    ∃ gs f gs' ps ps', fs = gs ++ f :: gs' ∧ f.pieces = ps ++ p :: ps' ∧
      before = gs.flatMap Field.pieces ++ ps ∧ after = ps' ++ gs'.flatMap Field.pieces := by
  induction fs generalizing before with
  | nil => exact absurd h (by simp)
  | cons f fs ih =>
    rw [List.flatMap_cons] at h
    rcases List.append_eq_append_iff.1 h with ⟨rest, hbefore, hrest⟩ | ⟨rest, hpieces, hrest⟩
    · obtain ⟨gs, f', gs', ps, ps', rfl, hf', rfl, rfl⟩ := ih hrest
      exact ⟨f :: gs, f', gs', ps, ps', rfl, hf', by rw [hbefore, List.flatMap_cons, List.append_assoc], rfl⟩
    · cases rest with
      | nil =>
        obtain ⟨gs, f', gs', ps, ps', rfl, hf', hnil, rfl⟩ := @ih [] hrest.symm
        refine ⟨f :: gs, f', gs', ps, ps', rfl, hf', ?_, rfl⟩
        rw [List.flatMap_cons, List.append_assoc, ← hnil, hpieces, List.append_nil, List.append_nil]
      | cons q rest =>
        obtain ⟨rfl, hafter⟩ := List.cons.inj hrest
        exact ⟨[], f, fs, before, rest, rfl, hpieces, rfl, hafter⟩

/-- The pieces of the references: the one that is full is a reference. -/
lemma split_references {refs ps ps' : List Bytes} {p : Bytes} (hp : p.length = 512)
    (h : (Field.references refs).pieces = ps ++ p :: ps') :
    ∃ rs r rs', refs = rs ++ r :: rs' ∧ p = 32 :: r ∧ ps.flatten = ascii "References:" ++ rs.flatMap (32 :: ·) := by
  have hhead : (Field.references refs).pieces =
      ascii "References:" :: (refs.map (ascii " " ++ ·) ++ [ascii "\n"]) := rfl
  rw [hhead] at h
  cases ps with
  | nil =>
    obtain ⟨rfl, -⟩ := List.cons.inj h
    exact absurd hp (by decide)
  | cons q ps =>
    obtain ⟨rfl, htail⟩ := List.cons.inj h
    rcases List.append_eq_append_iff.1 htail with ⟨rest, -, hrest⟩ | ⟨rest, hmap, hrest⟩
    · -- the line break is not full
      have hmem : p ∈ [ascii "\n"] := by
        rw [hrest]
        exact List.mem_append_right _ List.mem_cons_self
      obtain rfl := List.mem_singleton.1 hmem
      exact absurd hp (by decide)
    · cases rest with
      | nil =>
        obtain ⟨rfl, -⟩ := List.cons.inj hrest
        exact absurd hp (by decide)
      | cons q rest =>
        obtain ⟨rfl, -⟩ := List.cons.inj hrest
        obtain ⟨rs, rest', rfl, rfl, hrest'⟩ := List.map_eq_append_iff.1 hmap
        obtain ⟨r, rs', rfl, rfl, -⟩ := List.map_eq_cons_iff.1 hrest'
        refine ⟨rs, r, rs', rfl, rfl, ?_⟩
        rw [List.flatten_cons, ← List.flatMap_def]
        rfl

/-! ### The round trip -/

/-- The text is written without reading past the array, and the parser makes the narinfo of it. -/
def RoundTrips (ni : NarinfoFile) : Prop :=
  ∃ text, narinfoSerialize ni = .ok text ∧ narinfoParseAll text = some ni

/-- The pieces fit into the array with the NUL behind them, the last one without its line break. -/
def Fits (ni : NarinfoFile) : Prop :=
  (∀ p ∈ ni.pieces.dropLast, p.length < 512) ∧ ∀ p ∈ ni.pieces.getLast?, p.length ≤ 512

/-- Where a text is cut, the fields behind are not filled in. -/
lemma filled_cut_ne (h : ni.Wf) {before after : List Bytes} {p s : Bytes} (hpieces : ni.pieces = before ++ p :: after)
    (hp : p.length = 512) (hafter : after ≠ []) :
    filled (before.flatten ++ p.take 511 ++ 0 :: s) ≠ ni.whole := by
  obtain ⟨gs, f, gs', ps, ps', hfields, hf, rfl, rfl⟩ := split_pieces hpieces
  have hwf := wf_fields h
  rw [hfields] at hwf
  have hgs : ∀ g ∈ gs, g.Wf := fun g hg => hwf g (List.mem_append_left _ hg)
  have hfwf : f.Wf := hwf f (List.mem_append_right _ List.mem_cons_self)
  have hcut : ∀ f' : Field, f'.Wf → ps.flatten ++ p.take 511 = f'.text →
      filled ((gs.flatMap Field.pieces ++ ps).flatten ++ p.take 511 ++ 0 :: s) = fillAll (gs ++ [f']) := by
    intro f' hf' htext
    rw [List.flatten_append, flatten_pieces, List.append_assoc (linesOf gs), htext]
    exact filled_cut hgs hf' s
  by_cases hrefs : ∃ refs, f = .references refs
  · obtain ⟨refs, rfl⟩ := hrefs
    obtain ⟨rs, r, rs', rfl, rfl, hps⟩ := split_references hp hf
    have hr : Solid r := hfwf.2 r (List.mem_append_right _ List.mem_cons_self)
    have hlen : r.length = 511 := by simpa using hp
    have hshort : Solid (r.take 510) := by
      refine ⟨fun hnil => ?_, fun c hc => hr.inner c (List.mem_of_mem_take hc)⟩
      have hzero := congrArg List.length hnil
      rw [List.length_take, hlen] at hzero
      cases hzero
    have hwf' : (Field.references (rs ++ [r.take 510])).Wf := by
      refine ⟨by simp, fun t ht => ?_⟩
      rcases List.mem_append.1 ht with ht | ht
      · exact hfwf.2 t (List.mem_append_left _ ht)
      · obtain rfl := List.mem_singleton.1 ht
        exact hshort
    rw [hcut _ hwf' (by
      rw [hps, List.append_assoc]
      show _ = ascii "References:" ++ (rs ++ [r.take 510]).flatMap (32 :: ·)
      rw [List.flatMap_append, List.flatMap_singleton]
      rfl)]
    intro heq
    have hwhole : ni.references = some (rs ++ r :: rs') := by
      have hmem : Field.references (rs ++ r :: rs') ∈ ni.fields := by
        rw [hfields]
        exact List.mem_append_right _ List.mem_cons_self
      simpa [NarinfoFile.fields] using hmem
    have hread : (fillAll (gs ++ [Field.references (rs ++ [r.take 510])])).references =
        some (rs ++ [r.take 510]) := by
      unfold fillAll
      rw [List.foldl_append]
      rfl
    rw [heq] at hread
    have hlists := Option.some.inj (hwhole.symm.trans hread)
    have hhead := (List.cons.inj (List.append_cancel_left hlists)).1
    have hshorter := congrArg List.length hhead
    rw [List.length_take, hlen] at hshorter
    cases hshorter
  · have hone : f.pieces = [f.text ++ ascii "\n"] := by
      cases f with
      | references refs => exact absurd ⟨refs, rfl⟩ hrefs
      | _ => rfl
    rw [hone] at hf
    obtain ⟨rfl, rfl, rfl⟩ : ps = [] ∧ p = f.text ++ ascii "\n" ∧ ps' = [] := by
      cases ps with
      | nil =>
        obtain ⟨rfl, hnil⟩ := List.cons.inj hf
        exact ⟨rfl, rfl, hnil.symm⟩
      | cons q ps => exact absurd (List.cons.inj hf).2 (by simp)
    have hlen : f.text.length = 511 := by
      have heq : f.text.length + 1 = 512 := by
        rw [← hp, List.length_append]
        rfl
      omega
    rw [hcut f hfwf (by rw [List.flatten_nil, List.nil_append, ← hlen, List.take_left])]
    intro heq
    have hcount := count_fillAll (gs ++ [f])
    rw [heq, ← length_fields h, hfields] at hcount
    cases gs' with
    | nil => exact hafter rfl
    | cons g gs' =>
      simp only [List.length_append, List.length_cons, List.length_nil] at hcount
      omega

/-- A last piece that is full has lost its line break, and nothing else. -/
lemma filled_full (h : ni.Wf) {before : List Bytes} {p : Bytes} (hpieces : ni.pieces = before ++ [p])
    (hp : p.length = 512) : filled (before.flatten ++ (p.take 511 ++ [0])) = ni.whole := by
  obtain ⟨gs, f, gs', ps, ps', hfields, hf, rfl, hafter⟩ := split_pieces hpieces
  obtain ⟨rfl, hgs'⟩ := List.append_eq_nil_iff.1 hafter.symm
  have hnil : gs' = [] := by
    cases gs' with
    | nil => rfl
    | cons g gs' => cases g <;> cases hgs'
  subst hnil
  have hwf := wf_fields h
  rw [hfields] at hwf
  have hgs : ∀ g ∈ gs, g.Wf := fun g hg => hwf g (List.mem_append_left _ hg)
  have htext : ps.flatten ++ p.take 511 = f.text := by
    have hflat := pieces_flatten f
    rw [hf, List.flatten_append, List.flatten_singleton, ← List.take_append_drop 511 p, ← List.append_assoc] at hflat
    refine (List.append_inj' hflat ?_).1
    rw [List.length_drop, hp]
    rfl
  rw [List.flatten_append, flatten_pieces, List.append_assoc, ← List.append_assoc ps.flatten, htext,
    ← List.append_assoc, filled_cut hgs (hwf f (List.mem_append_right _ List.mem_cons_self)), ← hfields,
    fillAll_fields h]

/-- **The round trip succeeds exactly when the pieces fit.** -/
theorem narinfo_roundTrips_iff (h : ni.Wf) : RoundTrips ni ↔ Fits ni := by
  let short (p : Bytes) : Bool := decide (p.length < 512)
  have hsplit : ni.pieces = ni.pieces.takeWhile short ++ ni.pieces.dropWhile short :=
    (List.takeWhile_append_dropWhile).symm
  have hshort : ∀ p ∈ ni.pieces.takeWhile short, p.length < 512 := by
    intro p hp
    have himp : short p = true := List.mem_takeWhile_imp hp
    exact of_decide_eq_true himp
  have hlong : ∀ p ∈ (ni.pieces.dropWhile short).head?, 512 ≤ p.length := by
    intro p hp
    have hnot := List.head?_dropWhile_not short ni.pieces
    rw [Option.mem_def.1 hp] at hnot
    exact not_lt.1 (of_decide_eq_false hnot)
  generalize ni.pieces.takeWhile short = before at hsplit hshort
  generalize ni.pieces.dropWhile short = rest at hsplit hlong
  rcases rest with _ | ⟨p, _ | ⟨q, after⟩⟩
  · -- all of them fit
    rw [List.append_nil] at hsplit
    have hser : narinfoSerialize ni = .ok (linesOf ni.fields) := by
      unfold narinfoSerialize
      rw [hsplit, foldlM_bufAppend hshort, ← hsplit, ← flatten_pieces]
      rfl
    refine iff_of_true ⟨_, hser, ?_⟩ ⟨fun p hp => ?_, fun p hp => ?_⟩
    · rw [narinfoParseAll_eq_some, filled_lines (wf_fields h), fillAll_fields h]
    · exact hshort p (hsplit ▸ List.mem_of_mem_dropLast hp)
    · exact (hshort p (hsplit ▸ List.mem_of_mem_getLast? hp)).le
  · -- all but the last
    have hser : narinfoSerialize ni = bufAppend before.flatten p := by
      unfold narinfoSerialize
      rw [hsplit, List.foldlM_append, foldlM_bufAppend hshort]
      show (bufAppend ([] ++ before.flatten) p >>= fun buf => .ok buf) = _
      rw [List.nil_append]
      cases bufAppend before.flatten p <;> rfl
    have hfits : Fits ni ↔ p.length ≤ 512 := by
      unfold Fits
      rw [hsplit, List.dropLast_concat, List.getLast?_concat]
      exact ⟨fun h => h.2 p rfl, fun h => ⟨hshort, fun q hq => by cases hq; exact h⟩⟩
    have hge := hlong p rfl
    rw [hfits]
    constructor
    · rintro ⟨text, htext, -⟩
      rw [narinfoSerialize, hsplit] at htext
      exact (foldlM_cut hshort hge htext).1.le
    · intro hle
      have hp : p.length = 512 := le_antisymm hle hge
      refine ⟨before.flatten ++ (p.take 511 ++ [0]), ?_, narinfoParseAll_eq_some.2 (filled_full h hsplit hp)⟩
      rw [hser, bufAppend, if_neg (by omega), if_neg (by omega), if_pos hp]
  · -- one that is not the last does not fit
    refine iff_of_false ?_ fun hfits => ?_
    · rintro ⟨text, htext, hparse⟩
      rw [narinfoSerialize, hsplit] at htext
      obtain ⟨hp, s, rfl⟩ := foldlM_cut hshort (hlong p rfl) htext
      refine filled_cut_ne h hsplit hp (List.cons_ne_nil q after) (s := s) ?_
      rw [← narinfoParseAll_eq_some.1 hparse]
      simp
    · have hlt := hfits.1 p (by
        rw [hsplit, List.dropLast_append_of_ne_nil (by simp)]
        exact List.mem_append_right _ (by simp))
      have hge := hlong p rfl
      omega

end Narinfo

/-! ### A long deriver -/

/-- A narinfo with nothing but a path and a deriver. -/
def derived (n : Nat) : NarinfoFile :=
  ⟨⟨none, none, none, 0, none, 0, none, some (List.replicate n 97), none, some (ascii "x")⟩, ascii "/p"⟩

lemma wf_derived (n : Nat) : (derived n).Wf := by
  have hspace : isSpace 97 = false := by decide
  have hclean : Clean (List.replicate n 97) := by
    refine ⟨⟨fun c hc => ?_, fun c hc => ?_⟩, fun c hc => ?_⟩
    · rw [List.eq_of_mem_replicate (List.mem_of_mem_head? hc), hspace]
    · rw [List.eq_of_mem_replicate (List.mem_of_mem_getLast? hc), hspace]
    · rw [List.eq_of_mem_replicate hc]
      decide
  have hsmall : ∀ s ∈ [ascii "/p", ascii "x"], (∀ c ∈ s.head?, isSpace c = false) ∧
      (∀ c ∈ s.getLast?, isSpace c = false) ∧ ∀ c ∈ s, c ≠ 13 ∧ c ≠ 10 ∧ c ≠ 0 := by decide +kernel
  have hsmall' : ∀ s ∈ [ascii "/p", ascii "x"], Clean s := fun s hs =>
    ⟨⟨(hsmall s hs).1, (hsmall s hs).2.1⟩, (hsmall s hs).2.2⟩
  constructor
  case storePath => exact hsmall' _ (by simp [derived])
  case fileSize | narSize =>
    show IsSize 0
    exact ⟨le_rfl, by decide⟩
  case deriver =>
    rintro s ⟨⟩
    exact hclean
  case ca =>
    rintro s ⟨⟩
    exact hsmall' _ (by simp)
  all_goals rintro s ⟨⟩

/-- With a short one the text is read back. -/
theorem narinfo_roundTrips_iff_short : RoundTrips (derived 3) ↔ Fits (derived 3) := narinfo_roundTrips_iff (wf_derived 3)

lemma pieces_derived (n : Nat) : (derived n).pieces = [(Field.storePath (ascii "/p")).text ++ ascii "\n"] ++
    ((Field.deriver (List.replicate n 97)).text ++ ascii "\n") :: [(Field.ca (ascii "x")).text ++ ascii "\n"] := rfl

lemma length_deriver (n : Nat) : ((Field.deriver (List.replicate n 97)).text ++ ascii "\n").length = n + 10 := by
  show (ascii "Deriver" ++ ascii ":" ++ (ascii " " ++ List.replicate n 97) ++ ascii "\n").length = n + 10
  simp only [List.length_append, List.length_replicate]
  show 7 + 1 + (1 + n) + 1 = n + 10
  omega

/-- A deriver of 512 characters is copied with what stands behind the array. -/
theorem long_not_roundTrips : (derived 512).Wf ∧ ¬ RoundTrips (derived 512) := by
  refine ⟨wf_derived 512, ?_⟩
  rintro ⟨text, htext, -⟩
  have hlen := length_deriver 512
  rw [narinfoSerialize, pieces_derived] at htext
  have hshort : ∀ p ∈ [(Field.storePath (ascii "/p")).text ++ ascii "\n"], p.length < 512 := by
    intro p hp
    obtain rfl := List.mem_singleton.1 hp
    decide +kernel
  obtain ⟨hfull, -⟩ := foldlM_cut hshort (by omega) htext
  omega

end Two09.Share
