import Two09.Share.Push

/-!
# What a reader gets of a pushed narinfo

The store path and the references of any narinfo that was read; and the text of a pushed one, which is read back up to
the piece in which it was cut.
-/

namespace Two09.Share

open Two09.Lib Two09.Store

/-! ### What the parser can give -/

/-- References that are read back from the line in which they stand. -/
structure Legible (refs : List Bytes) : Prop where
  word : ∀ r ∈ refs, r ≠ [] ∧ ∀ c ∈ r, c ≠ 32 ∧ c ≠ 9 ∧ Plain c
  head : ∀ r ∈ refs.head?, ∀ c ∈ r.head?, isSpace c = false
  last : ∀ r ∈ refs.getLast?, ∀ c ∈ r.getLast?, isSpace c = false

/-- The characters that separate references. -/
def isBlank (c : UInt8) : Bool := decide (c = 32 ∨ c = 9)

section Reading

variable {s val : Bytes} {refs : List Bytes}

lemma mem_of_mem_trim {c : UInt8} (h : c ∈ trim s) : c ∈ s :=
  (List.dropWhile_sublist _).subset ((List.rdropWhile_prefix isSpace _).subset h)

lemma trimmed_trim (s : Bytes) : Trimmed (trim s) := by
  constructor
  · intro c hc
    have hpre : trim s <+: s.dropWhile isSpace := List.rdropWhile_prefix isSpace _
    obtain ⟨t, ht⟩ := hpre
    have hhead : (s.dropWhile isSpace).head? = some c := by
      rw [← ht, List.head?_append, Option.mem_def.1 hc]
      rfl
    have hnot := List.head?_dropWhile_not isSpace s
    rw [hhead] at hnot
    exact hnot
  · intro c hc
    have hne : trim s ≠ [] := by
      intro h
      rw [h] at hc
      cases hc
    have hnot := List.rdropWhile_last_not isSpace (s.dropWhile isSpace) hne
    rw [List.getLast?_eq_some_getLast hne, Option.mem_some_iff] at hc
    rw [← hc]
    exact Bool.eq_false_iff.2 hnot

lemma clean_trim (h : ∀ c ∈ val, Plain c) : Clean (trim val) :=
  ⟨trimmed_trim val, fun c hc => h c (mem_of_mem_trim hc)⟩

lemma not_isBlank {c : UInt8} (h : isSpace c = false) : isBlank c = false := by
  have hne := of_decide_eq_false h
  refine decide_eq_false fun hor => ?_
  rcases hor with rfl | rfl
  · exact hne (.inl rfl)
  · exact hne (.inr (by decide))

/-- The references of a line. -/
lemma legible_words (h : ∀ c ∈ val, Plain c) : Legible (words isBlank (trim val)) := by
  have htrim := trimmed_trim val
  constructor
  · intro r hr
    obtain ⟨hne, hword⟩ := of_mem_words hr
    refine ⟨hne, fun c hc => ?_⟩
    have hblank := of_decide_eq_false (hword c hc)
    exact ⟨fun heq => hblank (.inl heq), fun heq => hblank (.inr heq), h c (mem_of_mem_trim (mem_of_mem_words hr hc))⟩
  · cases hs : trim val with
    | nil => rintro r ⟨⟩
    | cons d s =>
      have hd : isSpace d = false := htrim.head d (by rw [hs]; rfl)
      obtain ⟨w, ws, hwords⟩ := head?_words (s := s) (not_isBlank hd)
      rw [hwords]
      rintro r hr c hc
      obtain rfl : d :: w = r := Option.some.inj hr
      obtain rfl : d = c := Option.some.inj hc
      exact hd
  · rcases List.eq_nil_or_concat (trim val) with hs | ⟨s, d, hs⟩
    · rw [hs]
      rintro r ⟨⟩
    · rw [List.concat_eq_append] at hs
      have hd : isSpace d = false := htrim.last d (by rw [hs]; exact List.getLast?_concat)
      obtain ⟨ws, w, hwords⟩ := getLast?_words (s := s) (not_isBlank hd)
      rw [hs, hwords, List.getLast?_concat]
      rintro r hr c hc
      obtain rfl : w ++ [d] = r := Option.some.inj hr
      rw [List.getLast?_concat] at hc
      obtain rfl : d = c := Option.some.inj hc
      exact hd

lemma splitColon_mem {line key val : Bytes} (h : splitColon line = some (key, val)) : ∀ c ∈ val, c ∈ line := by
  unfold splitColon at h
  split_ifs at h
  obtain ⟨-, rfl⟩ := Prod.mk.inj (Option.some.inj h)
  exact fun c hc => (List.dropWhile_sublist _).subset (List.mem_of_mem_drop hc)

/-- What holds of every narinfo that was read. -/
structure Draft.Readable (d : Draft) : Prop where
  storePath : ∀ path ∈ d.storePath, Clean path
  references : Legible d.references

lemma Draft.Readable.line {d : Draft} (h : d.Readable) {line : Bytes} (hline : ∀ c ∈ line, Plain c) :
    (d.line line).Readable := by
  unfold Draft.line
  cases hsplit : splitColon line with
  | none => exact h
  | some kv =>
    obtain ⟨key, val⟩ := kv
    have hval : ∀ c ∈ val, Plain c := fun c hc => hline c (splitColon_mem hsplit c hc)
    dsimp only
    split_ifs
    · refine ⟨?_, h.references⟩
      rintro path ⟨⟩
      exact clean_trim hval
    · exact ⟨h.storePath, h.references⟩
    · exact ⟨h.storePath, h.references⟩
    · exact ⟨h.storePath, h.references⟩
    · exact ⟨h.storePath, legible_words hval⟩
    · exact ⟨h.storePath, h.references⟩
    · exact h

/-- **The path of a narinfo that was read is clean, and its references are legible.** -/
lemma readable_of_parse {text : Bytes} {ni : Narinfo} (h : narinfoParse text = some ni) :
    Clean ni.storePath ∧ Legible ni.references := by
  have hstart : Draft.Readable ⟨none, none, none, 0, [], []⟩ := by
    refine ⟨?_, List.forall_mem_nil _, ?_, ?_⟩
    · rintro path ⟨⟩
    · rintro r ⟨⟩
    · rintro r ⟨⟩
  have hread := parse_induction Draft.Readable hstart (fun d line hline hd => hd.line hline) h
  exact ⟨hread.storePath _ rfl, hread.references⟩

/-! ### Reading them back -/

lemma trimmed_value {r : Bytes} (h : Legible (r :: refs)) : Trimmed (r ++ refs.flatMap (32 :: ·)) := by
  have hr := (h.word r List.mem_cons_self).1
  constructor
  · rw [List.head?_append_of_ne_nil _ hr]
    exact h.head r rfl
  · rcases List.eq_nil_or_concat refs with rfl | ⟨rs, t, rfl⟩
    · rw [List.flatMap_nil, List.append_nil]
      exact h.last r rfl
    · rw [List.concat_eq_append] at h ⊢
      have ht : t ≠ [] := (h.word t (by simp)).1
      have heq : r ++ (rs ++ [t]).flatMap (32 :: ·) = (r ++ rs.flatMap (32 :: ·) ++ [32]) ++ t := by simp
      rw [heq, List.getLast?_append_of_ne_nil _ ht]
      exact h.last t (by rw [← List.cons_append, List.getLast?_concat]; rfl)

/-- **Legible references are read back.** -/
lemma words_value (h : Legible refs) : words isBlank (trim (refs.flatMap (32 :: ·))) = refs := by
  cases refs with
  | nil => rfl
  | cons r refs =>
    have hword : ∀ w ∈ r :: refs, w ≠ [] ∧ ∀ c ∈ w, isBlank c = false := by
      intro w hw
      obtain ⟨hne, hall⟩ := h.word w hw
      exact ⟨hne, fun c hc => decide_eq_false fun hor => hor.elim (hall c hc).1 (hall c hc).2.1⟩
    have hread := words_preceded (c := 32) (by decide) hword
    rw [List.flatMap_cons, List.cons_append] at hread ⊢
    rw [trim_blank (trimmed_value h)]
    rwa [words_cons (by decide)] at hread

end Reading

/-! ### The text of a pushed narinfo -/

/-- The part of a narinfo that stands in front of its references. -/
def NarinfoFile.front (ni : NarinfoFile) : NarinfoFile := { ni with references := none, signatures := none }

/-- What stands in front of the signature. -/
def NarinfoFile.lead (ni : NarinfoFile) : List Field :=
  ni.front.fields ++ (ni.references.toList.filter (· ≠ [])).map Field.references

/-- A narinfo with one signature, whose other fields are read back. -/
structure Pushed (ni : NarinfoFile) (s : Bytes) : Prop where
  front : ni.front.Wf
  deriver : ni.deriver = none
  ca : ni.ca = none
  signatures : ni.signatures = some [s]
  references : Legible (ni.references.getD [])
  sig : ∀ c ∈ s, Plain c

section Text

variable {ni : NarinfoFile} {s text : Bytes} {up : Uplink} {f : Field}

lemma fields_pushed (h : Pushed ni s) : ni.fields = ni.lead ++ [Field.sig s] := by
  unfold NarinfoFile.lead NarinfoFile.fields NarinfoFile.front
  rw [h.deriver, h.ca, h.signatures]
  simp

lemma pieces_sig (s : Bytes) : (Field.sig s).pieces = [(Field.sig s).text ++ ascii "\n"] := rfl

lemma plain_value (h : Legible (ni.references.getD [])) {refs : List Bytes} (hrefs : ni.references = some refs) :
    ∀ c ∈ (Field.references refs).text, Plain c := by
  have hhead : ∀ c ∈ ascii "References" ++ ascii ":", Plain c := by decide +kernel
  rw [hrefs] at h
  refine plain_append hhead fun c hc => ?_
  obtain ⟨r, hr, hc⟩ := List.mem_flatMap.1 hc
  rcases List.mem_cons.1 hc with rfl | hc
  · decide
  · exact ((h.word r hr).2 c hc).2.2

lemma plain_lead (h : Pushed ni s) (hf : f ∈ ni.lead) : ∀ c ∈ f.text, Plain c := by
  rcases List.mem_append.1 hf with hf | hf
  · exact plain_text (wf_fields h.front f hf)
  · obtain ⟨refs, hrefs, rfl⟩ := List.mem_map.1 hf
    exact plain_value h.references (Option.mem_toList.1 (List.mem_filter.1 hrefs).1)

lemma key_lead (hf : f ∈ ni.lead) : f.key ≠ ascii "Sig" := by
  have hkey : ∀ f : Field, (∀ s, f ≠ .sig s) → f.key ≠ ascii "Sig" := by
    intro f hne
    cases f with
    | sig s => exact absurd rfl (hne s)
    | _ =>
      simp only [Field.key]
      decide
  refine hkey f fun s => ?_
  rintro rfl
  rcases List.mem_append.1 hf with hf | hf
  · simp [NarinfoFile.fields, NarinfoFile.front] at hf
  · simp at hf

/-- Whole lines, and the beginning of one more. -/
lemma filled_beginning {fs : List Field} (h : ∀ f ∈ fs, ∀ c ∈ f.text, Plain c) {l : Bytes} (hne : l ≠ [])
    (hl : ∀ c ∈ l, Plain c) : filled (linesOf fs ++ l) = ((fs.map Field.text).foldl Filled.line .none).line l := by
  have hzero : (0 : UInt8) ∉ linesOf fs ++ l := by
    intro hc
    rcases List.mem_append.1 hc with hc | hc
    · exact zero_notMem_linesOf h hc
    · exact (hl 0 hc).2.2 rfl
  have hlast : ∀ c ∈ l, isBreak c = false := fun c hc => decide_eq_false fun hor => hor.elim (hl c hc).1 (hl c hc).2.1
  unfold filled
  rw [cstr_eq_self hzero, words_lines h, words_eq_singleton hlast hne, List.foldl_append]
  rfl

/-- A line break behind it makes no difference. -/
lemma filled_break {fs : List Field} (h : ∀ f ∈ fs, ∀ c ∈ f.text, Plain c) (hf : ∀ c ∈ f.text, Plain c) :
    filled (linesOf fs ++ (f.text ++ ascii "\n")) = ((fs.map Field.text).foldl Filled.line .none).line f.text := by
  have hall : ∀ g ∈ fs ++ [f], ∀ c ∈ g.text, Plain c := by
    intro g hg
    rcases List.mem_append.1 hg with hg | hg
    · exact h g hg
    · rw [List.mem_singleton.1 hg]
      exact hf
  have heq : linesOf fs ++ (f.text ++ ascii "\n") = linesOf (fs ++ [f]) := by
    unfold linesOf
    rw [List.flatMap_append, List.flatMap_singleton]
  have hwords := words_lines hall []
  rw [List.append_nil] at hwords
  unfold filled
  rw [heq, cstr_eq_self (zero_notMem_linesOf hall), hwords, show words isBreak [] = [] by rfl, List.append_nil,
    List.map_append, List.foldl_append]
  rfl

/-- The signature line, as far as it stands in the array. -/
lemma line_sig (d : Filled) (s : Bytes) :
    (d.line ((Field.sig s).text.take 511)) =
      { d with signatures := some (d.signatures.getD [] ++ [trim ((32 :: s).take 507)]) } := by
  have htake : (Field.sig s).text.take 511 = ascii "Sig" ++ ascii ":" ++ (32 :: s).take 507 := by
    have htext : (Field.sig s).text = (ascii "Sig" ++ ascii ":") ++ (32 :: s) := rfl
    rw [htext, List.take_append]
    rfl
  have hsplit : splitColon (ascii "Sig" ++ ascii ":" ++ (32 :: s).take 507) =
      some (ascii "Sig", (32 :: s).take 507) := splitColon_key (by decide)
  unfold Filled.line
  rw [htake, hsplit]
  rfl

/-- The lines in front of the signature. -/
lemma foldl_lead (h : Pushed ni s) : ((ni.lead.map Field.text).foldl Filled.line .none) =
    { ni.front.whole with references := (ni.references.toList.filter (· ≠ [])).head? } := by
  have hfront : (ni.front.fields.map Field.text).foldl Filled.line .none = ni.front.whole :=
    (foldl_line (wf_fields h.front) .none).trans (fillAll_fields h.front)
  unfold NarinfoFile.lead
  rw [List.map_append, List.foldl_append, hfront]
  have hlegible := h.references
  generalize ni.references = o at hlegible ⊢
  cases o with
  | none => rfl
  | some refs =>
    by_cases hnil : refs = []
    · subst hnil
      rfl
    · have hfilter : (some refs).toList.filter (· ≠ []) = [refs] := by simp [hnil]
      rw [Option.getD_some] at hlegible
      have hwords : words (fun c => decide (c = 32 ∨ c = 9)) (trim (refs.flatMap (32 :: ·))) = refs :=
        words_value hlegible
      have hval : trim (refs.flatMap (32 :: ·)) ≠ [] := by
        intro h0
        rw [h0] at hwords
        exact hnil hwords.symm
      have hkey : trim (ascii "References") = ascii "References" := by decide
      have hcolon : colon ∉ ascii "References" := by decide
      have hsplit : splitColon (Field.references refs).text = some (ascii "References", refs.flatMap (32 :: ·)) :=
        splitColon_key hcolon
      rw [hfilter]
      show Filled.line _ (Field.references refs).text = _
      unfold Filled.line
      rw [hsplit]
      dsimp only
      rw [hkey, if_neg (c := trim _ = []) hval, hwords]
      rfl

lemma references_getD (refs : Option (List Bytes)) : ((refs.toList.filter (· ≠ [])).head?).getD [] = refs.getD [] := by
  cases refs with
  | none => rfl
  | some refs => by_cases h : refs = [] <;> simp [h]

/-- **As long as what stands in front of the signature fits**, all of it is read, and what fits of the signature. -/
lemma parse_whole (h : Pushed ni s) (hshort : ∀ p ∈ ni.lead.flatMap Field.pieces, p.length < 512)
    (htext : pushText up ni = some text) : narinfoParse text =
      some ⟨ni.storePath, ni.url, ni.narHash, ni.narSize, ni.references.getD [], [trim ((32 :: s).take 507)]⟩ := by
  have hplain : ∀ f ∈ ni.lead, ∀ c ∈ f.text, Plain c := fun f hf => plain_lead h hf
  have hsig : ∀ c ∈ (Field.sig s).text, Plain c := by
    have hhead : ∀ c ∈ ascii "Sig" ++ ascii ":" ++ ascii " ", Plain c := by decide +kernel
    have heq : (Field.sig s).text = (ascii "Sig" ++ ascii ":" ++ ascii " ") ++ s := rfl
    rw [heq]
    exact plain_append hhead h.sig
  obtain ⟨raw, hraw, rfl⟩ := Option.map_eq_some_iff.1 htext
  unfold NarinfoFile.pieces at hraw
  rw [fields_pushed h, List.flatMap_append, List.flatMap_singleton, pieces_sig] at hraw
  have hzero : (0 : UInt8) ∉ (ni.lead.flatMap Field.pieces).flatten ++ ((Field.sig s).text ++ ascii "\n") := by
    rw [flatten_pieces]
    intro hc
    rcases List.mem_append.1 hc with hc | hc
    · exact zero_notMem_linesOf hplain hc
    · rcases List.mem_append.1 hc with hc | hc
      · exact (hsig 0 hc).2.2 rfl
      · exact absurd hc (by decide)
  have hcut := text_last hshort hzero hraw
  rw [flatten_pieces] at hcut
  have hfilled : filled (cstr raw) =
      ((ni.lead.map Field.text).foldl Filled.line .none).line ((Field.sig s).text.take 511) := by
    rw [hcut]
    rcases lt_or_ge (Field.sig s).text.length 511 with hlt | hge
    · have hwhole : ((Field.sig s).text ++ ascii "\n").take 511 = (Field.sig s).text ++ ascii "\n" := by
        refine List.take_of_length_le ?_
        rw [List.length_append]
        show (Field.sig s).text.length + 1 ≤ 511
        omega
      rw [hwhole, filled_break hplain hsig, List.take_of_length_le (by omega)]
    · rw [List.take_append_of_le_length hge]
      refine filled_beginning hplain ?_ fun c hc => hsig c (List.mem_of_mem_take hc)
      intro hnil
      have hlen := congrArg List.length hnil
      rw [List.length_take, List.length_nil] at hlen
      omega
  rw [narinfoParse_eq, narinfoParseAll_eq, hfilled, line_sig, foldl_lead h]
  have hrefs := references_getD ni.references
  show some _ = some _
  unfold NarinfoFile.read NarinfoFile.front
  rw [← hrefs]
  rfl

/-! ### A text that is cut before the signature -/

/-- Where some piece does not fit there is a first one. -/
lemma first_long {ps : List Bytes} (h : ¬ ∀ p ∈ ps, p.length < 512) :
    ∃ before p after, ps = before ++ p :: after ∧ (∀ q ∈ before, q.length < 512) ∧ 512 ≤ p.length := by
  induction ps with
  | nil => exact absurd (List.forall_mem_nil _) h
  | cons q ps ih =>
    rcases lt_or_ge q.length 512 with hq | hq
    · have hrest : ¬ ∀ p ∈ ps, p.length < 512 := fun hall => h (List.forall_mem_cons.2 ⟨hq, hall⟩)
      obtain ⟨before, p, after, rfl, hbefore, hp⟩ := ih hrest
      exact ⟨q :: before, p, after, rfl, List.forall_mem_cons.2 ⟨hq, hbefore⟩, hp⟩
    · exact ⟨[], q, ps, rfl, List.forall_mem_nil _, hq⟩

lemma key_short (f : Field) : f.key.length ≤ 11 ∧ trim f.key = f.key ∧ colon ∉ f.key := by
  have hkeys : ∀ k ∈ keys, k.length ≤ 11 ∧ trim k = k ∧ colon ∉ k := by decide
  exact hkeys f.key (key_mem f)

/-- A line with another key leaves the signatures alone. -/
lemma signatures_line {key : Bytes} (hcolon : colon ∉ key) (htrim : trim key = key) (hkey : key ≠ ascii "Sig")
    (d : Filled) (val : Bytes) : (d.line (key ++ ascii ":" ++ val)).draft.signatures = d.draft.signatures := by
  rw [draft_line]
  unfold Draft.line
  rw [splitColon_key hcolon]
  dsimp only
  rw [htrim, if_neg (c := key = ascii "Sig") hkey]
  split_ifs <;> rfl

lemma signatures_foldl {fs : List Field} (h : ∀ f ∈ fs, f.key ≠ ascii "Sig") (d : Filled) :
    ((fs.map Field.text).foldl Filled.line d).draft.signatures = d.draft.signatures := by
  induction fs generalizing d with
  | nil => rfl
  | cons f fs ih =>
    obtain ⟨hf, hfs⟩ := List.forall_mem_cons.1 h
    obtain ⟨-, htrim, hcolon⟩ := key_short f
    rw [List.map_cons, List.foldl_cons, ih hfs]
    exact signatures_line hcolon htrim hf d f.value

/-- The beginning of a line that has its key. -/
lemma beginning_of_cut {ps ps' : List Bytes} {p : Bytes} (hf : f.pieces = ps ++ p :: ps') (hp : 512 ≤ p.length) :
    (∃ val, ps.flatten ++ p.take 511 = f.key ++ ascii ":" ++ val) ∧ ps.flatten ++ p.take 511 <+: f.text := by
  have hflat := pieces_flatten f
  rw [hf, List.flatten_append, List.flatten_cons] at hflat
  have hlen := congrArg List.length hflat
  rw [List.length_append, List.length_append, List.length_append] at hlen
  have hone : (ascii "\n").length = 1 := rfl
  have hcut : (ps.flatten ++ p.take 511).length = ps.flatten.length + 511 := by
    rw [List.length_append, List.length_take, min_eq_left (by omega)]
  have hpre : ps.flatten ++ p.take 511 <+: f.text ++ ascii "\n" := by
    refine ⟨p.drop 511 ++ ps'.flatten, ?_⟩
    rw [← hflat]
    simp only [List.append_assoc]
    rw [← List.append_assoc (p.take 511), List.take_append_drop]
  have htext : ps.flatten ++ p.take 511 <+: f.text :=
    List.prefix_of_prefix_length_le hpre (List.prefix_append _ _) (by omega)
  have hkey : f.key ++ ascii ":" <+: f.text := List.prefix_append _ _
  have hkeylen : (f.key ++ ascii ":").length ≤ (ps.flatten ++ p.take 511).length := by
    have hshort := (key_short f).1
    have hcolon : (ascii ":").length = 1 := rfl
    rw [List.length_append]
    omega
  obtain ⟨val, hval⟩ := List.prefix_of_prefix_length_le hkey htext hkeylen
  exact ⟨⟨val, hval.symm⟩, htext⟩

/-- **If something in front of the signature does not fit**, no signature is read. -/
lemma parse_cut (h : Pushed ni s) (hlong : ¬ ∀ p ∈ ni.lead.flatMap Field.pieces, p.length < 512)
    (htext : pushText up ni = some text) {ni' : Narinfo} (hparse : narinfoParse text = some ni') :
    ni'.signatures = [] := by
  obtain ⟨before, p, after, hpieces, hbefore, hp⟩ := first_long hlong
  obtain ⟨gs, f, gs', ps, ps', hlead, hf, rfl, -⟩ := split_pieces hpieces
  have hgs : ∀ g ∈ gs, g ∈ ni.lead := fun g hg => hlead ▸ List.mem_append_left _ hg
  have hfmem : f ∈ ni.lead := hlead ▸ List.mem_append_right _ List.mem_cons_self
  obtain ⟨⟨val, hval⟩, hpre⟩ := beginning_of_cut hf hp
  have hplain : ∀ c ∈ ps.flatten ++ p.take 511, Plain c := fun c hc => plain_lead h hfmem c (hpre.subset hc)
  have hplaings : ∀ g ∈ gs, ∀ c ∈ g.text, Plain c := fun g hg => plain_lead h (hgs g hg)
  have hflat : (gs.flatMap Field.pieces ++ ps).flatten ++ p.take 511 = linesOf gs ++ (ps.flatten ++ p.take 511) := by
    rw [List.flatten_append, flatten_pieces, List.append_assoc]
  have hzero : (0 : UInt8) ∉ (gs.flatMap Field.pieces ++ ps).flatten ++ p.take 511 := by
    rw [hflat]
    intro hc
    rcases List.mem_append.1 hc with hc | hc
    · exact zero_notMem_linesOf hplaings hc
    · exact (hplain 0 hc).2.2 rfl
  obtain ⟨raw, hraw, rfl⟩ := Option.map_eq_some_iff.1 htext
  unfold NarinfoFile.pieces at hraw
  rw [fields_pushed h, List.flatMap_append, hpieces, List.append_assoc, List.cons_append] at hraw
  have hne : ps.flatten ++ p.take 511 ≠ [] := by
    rw [hval]
    simp [ascii]
  obtain ⟨-, htrim, hcolon⟩ := key_short f
  rw [text_cut hbefore hp hzero hraw, hflat, narinfoParse_eq, narinfoParseAll_eq, filled_beginning hplaings hne hplain,
    hval, Option.map_map] at hparse
  obtain ⟨path, -, rfl⟩ := Option.map_eq_some_iff.1 hparse
  have hsigs := signatures_line hcolon htrim (key_lead hfmem) ((gs.map Field.text).foldl Filled.line .none) val
  rw [signatures_foldl fun g hg => key_lead (hgs g hg)] at hsigs
  exact hsigs

/-! ### What is left of a signature -/

lemma trim_of_trimmed {t : Bytes} (h : ∀ c ∈ t.getLast?, isSpace c = false) : t.rdropWhile isSpace = t := by
  rw [List.rdropWhile_eq_self_iff]
  intro hne
  rw [h _ (List.getLast?_eq_some_getLast hne)]
  exact Bool.false_ne_true

/-- The name of the key is read without the blanks in front of it. -/
lemma splitColon_sig {name sig : Bytes} (hname : colon ∉ name) (hsig : ∀ c ∈ sig, isSpace c = false) :
    splitColon (trim ((32 :: (name ++ ascii ":" ++ sig)).take 507)) =
      if name.length ≤ 505 then some (name.dropWhile isSpace, sig.take (505 - name.length)) else none := by
  have hcolon : isSpace colon = false := by decide
  split_ifs with hlen
  · have htake : (32 :: (name ++ ascii ":" ++ sig)).take 507 =
        32 :: (name ++ colon :: sig.take (505 - name.length)) := by
      have heq : 32 :: (name ++ ascii ":" ++ sig) = (32 :: name) ++ colon :: sig := by simp [ascii, colon]
      have hsub : 507 - (32 :: name).length = (505 - name.length) + 1 := by
        rw [List.length_cons]
        omega
      rw [heq, List.take_append, hsub, List.take_of_length_le (by rw [List.length_cons]; omega), List.take_succ_cons]
      rfl
    have hdrop : (32 :: (name ++ colon :: sig.take (505 - name.length))).dropWhile isSpace =
        name.dropWhile isSpace ++ colon :: sig.take (505 - name.length) := by
      rw [List.dropWhile_cons_of_pos (by decide), List.dropWhile_append]
      split_ifs with hall
      · rw [List.isEmpty_iff.1 hall, List.dropWhile_cons_of_neg (by simp [hcolon]), List.nil_append]
      · rfl
    have hlast : ∀ c ∈ (name.dropWhile isSpace ++ colon :: sig.take (505 - name.length)).getLast?, isSpace c = false := by
      intro c hc
      rw [List.getLast?_append_of_ne_nil _ (List.cons_ne_nil _ _)] at hc
      rcases List.mem_cons.1 (List.mem_of_mem_getLast? hc) with rfl | hmem
      · exact hcolon
      · exact hsig c (List.mem_of_mem_take hmem)
    have hkept : colon ∉ name.dropWhile isSpace := fun hc => hname ((List.dropWhile_sublist _).subset hc)
    unfold trim
    rw [htake, hdrop, trim_of_trimmed hlast]
    have hread : splitColon (name.dropWhile isSpace ++ ascii ":" ++ sig.take (505 - name.length)) = _ :=
      splitColon_key hkept
    rw [List.append_assoc] at hread
    exact hread
  · have htake : (32 :: (name ++ ascii ":" ++ sig)).take 507 = 32 :: name.take 506 := by
      rw [List.append_assoc, List.take_succ_cons, List.take_append_of_le_length (by omega)]
    have hno : colon ∉ trim ((32 :: (name ++ ascii ":" ++ sig)).take 507) := by
      intro hc
      have hmem := mem_of_mem_trim hc
      rw [htake] at hmem
      rcases List.mem_cons.1 hmem with heq | hmem
      · exact absurd heq (by decide)
      · exact hname (List.mem_of_mem_take hmem)
    unfold splitColon
    rw [if_neg hno]

end Text

end Two09.Share
