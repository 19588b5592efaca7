import Two09.Debag.Scriptlets
import Mathlib

/-!
# What an analysis says of a script

Install scripts as they are written, function by function, the analysis of all of their lines, and the scripts of which
it says what each command does.
-/

namespace Two09.Debag.Script

open Lib

/-! ### Scripts -/

def Blank (s : Bytes) : Prop := ∀ c ∈ s, isSpace c = true

/-- `name() {`, with any blanks before the parentheses, in them and behind them. -/
def HeaderOf (name gap text : Bytes) : Prop :=
  (name ≠ [] ∧ name.head? ≠ some 35 ∧ ∀ c ∈ name, isSpace c = false ∧ c ≠ 40) ∧ Blank gap ∧
    ∃ inner outer, Blank inner ∧ Blank outer ∧ text = name ++ gap ++ 40 :: (inner ++ 41 :: (outer ++ [123]))

/-- A line that neither opens nor closes a function. -/
def Inner (text : Bytes) : Prop := text ≠ [125] ∧ ∀ name gap, ¬ HeaderOf name gap text

/-- A line of a text file. -/
def OneLine (line : Bytes) : Prop := 10 ∉ line ∧ 0 ∉ line

/-- A line of a text file, shorter than 4095 bytes. -/
def ShortLine (line : Bytes) : Prop := OneLine line ∧ line.length < 4095

/-- A function as it is written: its header, the lines of its body and the closing brace. -/
structure ScriptFunction where
  name : Bytes
  gap : Bytes
  header : Bytes
  body : List Bytes
  closing : Bytes
  header_of : HeaderOf name gap (trim header)
  closing_brace : trim closing = [125]
  inner : ∀ line ∈ body, Inner (trim line)
  short : ∀ line ∈ header :: body ++ [closing], ShortLine line

/-- What a script is made of. -/
inductive Item
  | function (f : ScriptFunction)
  | outside (line : Bytes) (one : OneLine line) (inner : ∀ name gap, ¬ HeaderOf name gap (trim line))

def Item.lines : Item → List Bytes
  | .function f => f.header :: f.body ++ [f.closing]
  | .outside line _ _ => [line]

def Item.function? : Item → Option ScriptFunction
  | .function f => some f
  | .outside .. => none

/-- The functions of a script, in order. -/
def functions (s : List Item) : List ScriptFunction := s.filterMap Item.function?

/-- The file: the lines of the script. -/
def text (s : List Item) : Bytes := List.intercalate [10] (s.flatMap Item.lines)

/-- The commands of a function that are to be reported. -/
def ScriptFunction.commands (f : ScriptFunction) : List Bytes := (f.body.map trim).filter (Reported ·)

/-- One entry for each function, and in it one intent for each of its commands. -/
def Complete (s : List Item) : Prop :=
  List.Forall₂ (fun f entry => entry.functionName = f.name ∧ List.Forall₂ Shows f.commands entry.intents)
    (functions s) (debagAnalyzeScript (text s))

/-! ### When it is said -/

/-- The pieces in which a file is read, trimmed. -/
def pieces (file : Bytes) : List Bytes := (fgetsLines 4094 file).map fun line => trim (cstr line)

/-- The function has one of the four beginnings, its name fits into 63 bytes, with no blank behind it unless they are
all taken, and its lines are no headers and are visible. -/
structure ScriptFunction.Transparent (f : ScriptFunction) : Prop where
  isHeader : IsHeader f.name
  length_le : f.name.length ≤ 63
  gap : f.gap ≠ [] → f.name.length = 63
  not_isHeader : ∀ line ∈ f.body, ¬ IsHeader (trim line)
  visible : ∀ line ∈ f.body, Visible (trim line)

/-- Outside of the functions nothing has one of the four beginnings. -/
def Item.Transparent : Item → Prop
  | .function f => f.Transparent
  | .outside line _ _ => ∀ piece ∈ pieces (line ++ [10]), ¬ IsHeader piece

/-! ### Lines -/

section Lines

variable {line rest s t name gap : Bytes} {c : UInt8} {n : ℕ} {a : Analyzer}

lemma fgetsLines_ne_nil (n : ℕ) (c : UInt8) (s : Bytes) : fgetsLines n (c :: s) ≠ [] := by
  rw [fgetsLines]
  split_ifs
  · exact List.cons_ne_nil _ _
  · cases fgetsLines (n - 1) s <;> exact List.cons_ne_nil _ _

/-- What is behind the end of a line is read from a new piece on. -/
lemma fgetsLines_newline (n : ℕ) (line rest : Bytes) :
    fgetsLines n (line ++ 10 :: rest) = fgetsLines n (line ++ [10]) ++ fgetsLines 4094 rest := by
  induction line generalizing n with
  | nil =>
    rw [List.nil_append, List.nil_append, fgetsLines, fgetsLines, if_pos (.inl rfl), if_pos (.inl rfl)]
    rfl
  | cons c line ih =>
    rw [List.cons_append, List.cons_append, fgetsLines, fgetsLines]
    split_ifs
    · rw [ih, List.cons_append]
    · rw [ih]
      cases hpieces : fgetsLines (n - 1) (line ++ [10]) with
      | nil =>
        cases line with
        | nil => exact absurd hpieces (fgetsLines_ne_nil _ _ _)
        | cons d line => exact absurd hpieces (fgetsLines_ne_nil _ _ _)
      | cons piece pieces => rfl

lemma fgetsLines_short (hline : 10 ∉ line) (hn : line.length ≤ n) : fgetsLines n (line ++ [10]) = [line ++ [10]] := by
  induction line generalizing n with
  | nil => rw [List.nil_append, fgetsLines, if_pos (.inl rfl), fgetsLines]
  | cons c line ih =>
    rw [List.length_cons] at hn
    have hc : c ≠ 10 := fun hc => hline (hc ▸ List.mem_cons_self ..)
    rw [List.cons_append, fgetsLines, if_neg (by rintro (h | h); exacts [hc h, by omega]),
      ih (fun h => hline (List.mem_cons_of_mem _ h)) (by omega)]

lemma pieces_newline (line rest : Bytes) : pieces (line ++ 10 :: rest) = pieces (line ++ [10]) ++ pieces rest := by
  rw [pieces, fgetsLines_newline, List.map_append]
  rfl

lemma trim_newline (s : Bytes) : trim (s ++ [10]) = trim s := by
  unfold trim
  rw [List.dropWhile_append]
  split_ifs with h
  · rw [List.isEmpty_iff] at h
    rw [h]
    rfl
  · exact List.rdropWhile_concat_pos _ _ _ (by decide)

lemma pieces_short (h : ShortLine line) : pieces (line ++ [10]) = [trim line] := by
  obtain ⟨⟨hnewline, hnul⟩, hlength⟩ := h
  rw [pieces, fgetsLines_short hnewline (by omega), List.map_singleton, cstr_eq_self (by simpa using hnul),
    trim_newline]

/-- The end of a line stands in the last piece, or in one of its own. -/
lemma fgetsLines_concat_newline (n : ℕ) (s : Bytes) :
    (∃ init last, fgetsLines n s = init ++ [last] ∧ fgetsLines n (s ++ [10]) = init ++ [last ++ [10]]) ∨
      fgetsLines n (s ++ [10]) = fgetsLines n s ++ [[10]] := by
  induction s generalizing n with
  | nil =>
    rw [fgetsLines, List.nil_append, List.nil_append, fgetsLines, if_pos (.inl rfl), fgetsLines]
    exact .inr rfl
  | cons c s ih =>
    rw [List.cons_append, fgetsLines, fgetsLines]
    split_ifs with hc
    · rcases ih 4094 with ⟨init, last, hs, hs'⟩ | hs'
      · exact .inl ⟨[c] :: init, last, by rw [hs, List.cons_append], by rw [hs', List.cons_append]⟩
      · exact .inr (by rw [hs', List.cons_append])
    · rcases ih (n - 1) with ⟨init, last, hs, hs'⟩ | hs'
      · rw [hs, hs']
        cases init with
        | nil => exact .inl ⟨[], c :: last, rfl, rfl⟩
        | cons piece init => exact .inl ⟨(c :: piece) :: init, last, rfl, rfl⟩
      · rw [hs']
        cases fgetsLines (n - 1) s with
        | nil => exact .inl ⟨[], [c], rfl, rfl⟩
        | cons piece pieces => exact .inr rfl

lemma trim_cstr_newline (s : Bytes) : trim (cstr (s ++ [10])) = trim (cstr s) := by
  unfold cstr
  rw [List.takeWhile_append]
  split_ifs with h
  · rw [List.takeWhile_cons_of_pos (by decide), List.takeWhile_nil, trim_newline,
      (List.takeWhile_prefix _).eq_of_length h]
  · rfl

/-- The end of the last line makes no difference, but for an empty piece behind the others. -/
lemma pieces_concat_newline (s : Bytes) : pieces (s ++ [10]) = pieces s ∨ pieces (s ++ [10]) = pieces s ++ [[]] := by
  unfold pieces
  rcases fgetsLines_concat_newline 4094 s with ⟨init, last, hs, hs'⟩ | hs'
  · rw [hs, hs', List.map_append, List.map_append, List.map_singleton, List.map_singleton, trim_cstr_newline]
    exact .inl rfl
  · rw [hs', List.map_append]
    exact .inr rfl

/-! ### The run -/

/-- What the analysis makes of a trimmed line. -/
def Analyzer.read (a : Analyzer) (piece : Bytes) : Analyzer :=
  if IsHeader piece then ⟨a.functions, some ⟨functionName piece, []⟩⟩
  else match a.current with
    | none => a
    | some f =>
      if piece.head? = some 125 then ⟨a.functions, none⟩
      else ⟨a.done, some { f with intents := f.intents ++ (parseLine piece).toList }⟩

/-- The entries for lines that are read from a state on. -/
def Analyzer.entries (a : Analyzer) (ps : List Bytes) : List ScriptAnalysis := (ps.foldl Analyzer.read a).functions

lemma debagAnalyzeScript_eq (file : Bytes) : debagAnalyzeScript file = Analyzer.entries ⟨[], none⟩ (pieces file) := by
  rw [Analyzer.entries, pieces, List.foldl_map]
  rfl

lemma read_nil (a : Analyzer) : (a.read []).functions = a.functions := by
  have hheader : ¬ IsHeader [] := by decide
  rcases a with ⟨done, _ | f⟩
  · rfl
  · rw [Analyzer.read, if_neg hheader]
    simp [Analyzer.functions, parseLine, trim]

lemma entries_concat_newline (a : Analyzer) (s : Bytes) : a.entries (pieces (s ++ [10])) = a.entries (pieces s) := by
  rcases pieces_concat_newline s with h | h
  · rw [h]
  · rw [h, Analyzer.entries, List.foldl_append]
    exact read_nil _

/-- Outside of the functions a line without a header is passed over. -/
lemma foldl_outside {ps : List Bytes} (hps : ∀ p ∈ ps, ¬ IsHeader p) (done : List ScriptAnalysis) :
    ps.foldl Analyzer.read ⟨done, none⟩ = ⟨done, none⟩ := by
  induction ps with
  | nil => rfl
  | cons p ps ih =>
    obtain ⟨hp, hps⟩ := List.forall_mem_cons.1 hps
    rw [List.foldl_cons, Analyzer.read, if_neg hp, ih hps]

/-- The lines of a function up to its brace, or to what is taken for it. -/
lemma foldl_body {ps : List Bytes} (hps : ∀ p ∈ ps, ¬ IsHeader p) (done : List ScriptAnalysis) (f : ScriptAnalysis) :
    (ps ++ [[125]]).foldl Analyzer.read ⟨done, some f⟩ =
      ⟨done ++ [{ f with intents := f.intents ++ reported ps }], none⟩ := by
  induction ps generalizing f with
  | nil =>
    rw [List.nil_append, List.foldl_cons, List.foldl_nil, Analyzer.read, if_neg (by decide)]
    simp [Analyzer.functions, reported]
  | cons p ps ih =>
    obtain ⟨hp, hps⟩ := List.forall_mem_cons.1 hps
    rw [List.cons_append, List.foldl_cons, Analyzer.read, if_neg hp, reported_cons]
    by_cases hbrace : p.head? = some 125
    · have hrest : ∀ q ∈ ps ++ [[125]], ¬ IsHeader q := by
        rw [List.forall_mem_append, List.forall_mem_singleton]
        exact ⟨hps, by decide⟩
      simp only [if_pos hbrace, List.append_nil]
      exact foldl_outside hrest _
    · simp only [if_neg hbrace]
      rw [ih hps, List.append_assoc]

/-- The names of the entries are those that the headers have. -/
lemma map_functionName_entries (a : Analyzer) (ps : List Bytes) : (a.entries ps).map (·.functionName) =
    a.functions.map (·.functionName) ++ (ps.filter (IsHeader ·)).map functionName := by
  induction ps generalizing a with
  | nil => rw [List.filter_nil, List.map_nil, List.append_nil, Analyzer.entries, List.foldl_nil]
  | cons p ps ih =>
    rw [Analyzer.entries, List.foldl_cons, ← Analyzer.entries, ih]
    by_cases hp : IsHeader p
    · rw [Analyzer.read, if_pos hp, List.filter_cons_of_pos (by simpa using hp)]
      simp [Analyzer.functions]
    · rw [Analyzer.read, if_neg hp, List.filter_cons_of_neg (by simpa using hp)]
      congr 1
      rcases a with ⟨done, _ | f⟩
      · rfl
      · by_cases hbrace : p.head? = some 125
        · simp [Analyzer.functions, hbrace]
        · simp [Analyzer.functions, hbrace]

/-! ### Headers -/

lemma headers_plain : ∀ start ∈ headers, start.length ≤ 63 ∧ ∀ c ∈ start, isSpace c = false ∧ c ≠ 40 := by
  simp [headers, isSpace, ascii]

/-- A header is one for its name. -/
lemma isHeader_iff (h : HeaderOf name gap t) : IsHeader t ↔ IsHeader name := by
  obtain ⟨⟨-, -, hname⟩, hgap, inner, outer, -, -, rfl⟩ := h
  refine exists_congr fun start => and_congr_right fun hstart => ⟨fun h => ?_, fun h => ?_⟩
  · rw [List.append_assoc] at h
    rcases List.prefix_or_prefix_of_prefix h (List.prefix_append name _) with hp | ⟨rest, rfl⟩
    · exact hp
    · rw [List.prefix_append_right_inj] at h
      cases rest with
      | nil => rw [List.append_nil]
      | cons c rest =>
        -- the byte behind the name is a blank or a parenthesis
        obtain ⟨hspace, hparen⟩ := (headers_plain _ hstart).2 c (by simp)
        cases gap with
        | nil => exact absurd (List.cons_prefix_cons.1 h).1 hparen
        | cons d gap =>
          have hd := hgap d (List.mem_cons_self ..)
          rw [← (List.cons_prefix_cons.1 h).1, hspace] at hd
          cases hd
  · rw [List.append_assoc]
    exact h.trans (List.prefix_append _ _)

lemma functionName_header (h : HeaderOf name gap t) : functionName t = (name ++ gap).take 63 := by
  obtain ⟨⟨-, -, hname⟩, hgap, inner, outer, -, -, rfl⟩ := h
  have hplain : ∀ c ∈ name ++ gap, decide (c ≠ 40) = true := by
    intro c hc
    rcases List.mem_append.1 hc with hc | hc
    · simpa using (hname c hc).2
    · have hspace := hgap c hc
      rw [decide_eq_true_eq]
      rintro rfl
      revert hspace
      decide
  rw [functionName, List.takeWhile_append_of_pos hplain, List.takeWhile_cons_of_neg (by simp), List.append_nil]

lemma take_eq_name_iff : (name ++ gap).take 63 = name ↔ name.length ≤ 63 ∧ (gap ≠ [] → name.length = 63) := by
  constructor
  · intro h
    have hlength := congrArg List.length h
    rw [List.length_take, List.length_append] at hlength
    refine ⟨by omega, fun hgap => ?_⟩
    have hpos := List.length_pos_of_ne_nil hgap
    omega
  · rintro ⟨hle, hgap⟩
    by_cases hnil : gap = []
    · rw [hnil, List.append_nil, List.take_of_length_le hle]
    · exact List.take_left' (hgap hnil)

/-- What is taken for the name of a header begins as the header does. -/
lemma isHeader_functionName (h : IsHeader t) : IsHeader (functionName t) := by
  obtain ⟨start, hstart, rest, rfl⟩ := h
  obtain ⟨hlength, hplain⟩ := headers_plain start hstart
  refine ⟨start, hstart, ?_⟩
  rw [functionName, List.takeWhile_append_of_pos fun c hc => by simpa using (hplain c hc).2, List.take_append,
    List.take_of_length_le hlength]
  exact List.prefix_append _ _

/-! ### Items -/

/-- The pieces in which an item is read. -/
def Item.pieces : Item → List Bytes
  | .function f => trim f.header :: (f.body.map trim ++ [[125]])
  | .outside line _ _ => Script.pieces (line ++ [10])

/-- Those of them that are to be no headers. -/
def Item.inner : Item → List Bytes
  | .function f => f.body.map trim
  | .outside line _ _ => Script.pieces (line ++ [10])

lemma intercalate_concat {lines : List Bytes} (h : lines ≠ []) :
    List.intercalate [10] lines ++ [10] = lines.flatMap (· ++ [10]) := by
  induction lines with
  | nil => exact absurd rfl h
  | cons line lines ih =>
    cases lines with
    | nil => simp
    | cons line' lines =>
      rw [List.intercalate_cons_cons, List.append_assoc, ih (List.cons_ne_nil _ _)]
      rfl

lemma pieces_lines (lines : List Bytes) :
    pieces (lines.flatMap (· ++ [10])) = lines.flatMap fun line => pieces (line ++ [10]) := by
  induction lines with
  | nil => rfl
  | cons line lines ih =>
    rw [List.flatMap_cons, List.flatMap_cons, List.append_assoc, List.singleton_append, pieces_newline, ih]

lemma pieces_item (item : Item) : (item.lines.flatMap fun line => pieces (line ++ [10])) = item.pieces := by
  cases item with
  | function f =>
    have hshort : (f.header :: f.body ++ [f.closing]).flatMap (fun line => pieces (line ++ [10])) =
        (f.header :: f.body ++ [f.closing]).map trim := by
      rw [← List.flatMap_pure_eq_map]
      exact List.flatMap_congr fun line hline => pieces_short (f.short line hline)
    rw [Item.lines, hshort, List.map_append, List.map_cons, List.map_singleton, f.closing_brace]
    rfl
  | outside line one inner => exact List.append_nil _

/-- The analysis reads the items one after the other. -/
lemma debagAnalyzeScript_text (s : List Item) :
    debagAnalyzeScript (text s) = Analyzer.entries ⟨[], none⟩ (s.flatMap Item.pieces) := by
  cases s with
  | nil => rfl
  | cons item s =>
    have hlines : (item :: s).flatMap Item.lines ≠ [] := by
      cases item <;> simp [Item.lines]
    rw [debagAnalyzeScript_eq, ← entries_concat_newline, text, intercalate_concat hlines, pieces_lines,
      List.flatMap_assoc]
    congr 2
    exact funext pieces_item

/-- No header is left out, and nothing else is taken for one. -/
def Item.Regular : Item → Prop
  | .function f => IsHeader f.name ∧ ∀ line ∈ f.body, ¬ IsHeader (trim line)
  | .outside line _ _ => ∀ piece ∈ Script.pieces (line ++ [10]), ¬ IsHeader piece

/-- The entry for a function whose lines are read one after the other. -/
def ScriptFunction.analysis (f : ScriptFunction) : ScriptAnalysis :=
  ⟨functionName (trim f.header), reported (f.body.map trim)⟩

lemma foldl_items {s : List Item} (hs : ∀ item ∈ s, item.Regular) (done : List ScriptAnalysis) :
    (s.flatMap Item.pieces).foldl Analyzer.read ⟨done, none⟩ =
      ⟨done ++ (functions s).map ScriptFunction.analysis, none⟩ := by
  induction s generalizing done with
  | nil => rw [functions, List.filterMap_nil, List.map_nil, List.append_nil, List.flatMap_nil, List.foldl_nil]
  | cons item s ih =>
    obtain ⟨hitem, hrest⟩ := List.forall_mem_cons.1 hs
    rw [List.flatMap_cons, List.foldl_append]
    cases item with
    | function f =>
      have hbody : ∀ p ∈ f.body.map trim, ¬ IsHeader p := by simpa using hitem.2
      rw [Item.pieces, List.foldl_cons, Analyzer.read, if_pos ((isHeader_iff f.header_of).2 hitem.1), foldl_body hbody,
        ih hrest]
      simp [Analyzer.functions, functions, Item.function?, ScriptFunction.analysis]
    | outside line one inner =>
      rw [Item.pieces, foldl_outside hitem, ih hrest]
      rfl

/-- **The run**: one entry for each function, with what its lines make. -/
lemma debagAnalyzeScript_of_regular {s : List Item} (hs : ∀ item ∈ s, item.Regular) :
    debagAnalyzeScript (text s) = (functions s).map ScriptFunction.analysis := by
  rw [debagAnalyzeScript_text, Analyzer.entries, foldl_items hs, Analyzer.functions]
  exact List.append_nil _

/-- There are as many headers as functions if nothing else is taken for one. -/
lemma countP_pieces {s : List Item} (hs : ∀ f ∈ functions s, IsHeader f.name) :
    (s.flatMap Item.pieces).countP (IsHeader ·) =
      (functions s).length + (s.flatMap Item.inner).countP (IsHeader ·) := by
  induction s with
  | nil => rfl
  | cons item s ih =>
    rw [List.flatMap_cons, List.flatMap_cons, List.countP_append, List.countP_append]
    cases item with
    | function f =>
      obtain ⟨hf, hs⟩ : IsHeader f.name ∧ ∀ f ∈ functions s, IsHeader f.name := by
        simpa [functions, Item.function?] using hs
      have hheader := (isHeader_iff f.header_of).2 hf
      have hbrace : ¬ IsHeader [125] := by decide
      rw [ih hs, Item.pieces, Item.inner, List.countP_cons_of_pos (by simpa using hheader), List.countP_append,
        List.countP_singleton]
      simp [functions, Item.function?, hbrace]
      omega
    | outside line one inner =>
      have hfunctions : functions (.outside line one inner :: s) = functions s := rfl
      rw [hfunctions] at hs ⊢
      rw [ih hs, Item.pieces, Item.inner]
      omega

lemma functionName_eq_iff (f : ScriptFunction) :
    functionName (trim f.header) = f.name ↔ f.name.length ≤ 63 ∧ (f.gap ≠ [] → f.name.length = 63) := by
  rw [functionName_header f.header_of, take_eq_name_iff]

/-- If the entries are there, every function has one of the beginnings and nothing else has. -/
lemma regular_of_complete {s : List Item} (h : Complete s) : ∀ item ∈ s, item.Regular := by
  have hnames : (functions s).map (·.name) =
      ((s.flatMap Item.pieces).filter (IsHeader ·)).map functionName := by
    have hentries := map_functionName_entries ⟨[], none⟩ (s.flatMap Item.pieces)
    rw [← debagAnalyzeScript_text] at hentries
    have hmap : (functions s).map (·.name) = (debagAnalyzeScript (text s)).map (·.functionName) := by
      rw [← List.forall₂_eq_eq_eq, List.forall₂_map_left_iff, List.forall₂_map_right_iff]
      exact h.imp fun f entry hentry => hentry.1.symm
    rw [hmap, hentries]
    rfl
  have hheader : ∀ f ∈ functions s, IsHeader f.name := by
    intro f hf
    have hmem : f.name ∈ (functions s).map (·.name) := List.mem_map_of_mem hf
    rw [hnames] at hmem
    obtain ⟨p, hp, hname⟩ := List.mem_map.1 hmem
    rw [← hname]
    exact isHeader_functionName (by simpa using (List.mem_filter.1 hp).2)
  have hcount : (s.flatMap Item.inner).countP (IsHeader ·) = 0 := by
    have hlength := congrArg List.length hnames
    rw [List.length_map, List.length_map, ← List.countP_eq_length_filter, countP_pieces hheader] at hlength
    omega
  rw [List.countP_eq_zero] at hcount
  intro item hitem
  have hinner : ∀ p ∈ item.inner, ¬ IsHeader p := by
    intro p hp
    simpa using hcount p (List.mem_flatMap_of_mem hitem hp)
  cases item with
  | function f =>
    refine ⟨hheader f (List.mem_filterMap.2 ⟨_, hitem, rfl⟩), fun line hline => ?_⟩
    exact hinner _ (List.mem_map_of_mem hline)
  | outside line one inner => exact hinner

lemma trim_trim (s : Bytes) : trim (trim s) = trim s := by
  have hprefix : trim s <+: s.dropWhile isSpace := List.rdropWhile_prefix _ _
  cases ht : trim s with
  | nil => rfl
  | cons c r =>
    rw [ht] at hprefix
    obtain ⟨rest, hrest⟩ := hprefix
    have hne : s.dropWhile isSpace ≠ [] := by rw [← hrest]; exact List.cons_ne_nil _ _
    have hc := List.head_dropWhile_not isSpace hne
    simp only [← hrest, List.cons_append, List.head_cons] at hc
    have hidem : (trim s).rdropWhile isSpace = trim s := List.rdropWhile_idempotent _ _
    rw [trim, List.dropWhile_cons_of_neg (by simp [hc]), ← ht, hidem]

lemma trimmed_trim (h : ShortLine line) : Trimmed (trim line) := by
  refine ⟨trim_trim line, ?_⟩
  have hle : (trim line).length ≤ line.length :=
    (List.rdropWhile_prefix _ _).length_le.trans (List.dropWhile_suffix _).length_le
  have hlt := h.2
  omega

/-- The entry for a function says what it is to just if it has the name and all of its commands are visible. -/
lemma analysis_complete_iff (f : ScriptFunction) :
    (f.analysis.functionName = f.name ∧ List.Forall₂ Shows f.commands f.analysis.intents) ↔
      (f.name.length ≤ 63 ∧ (f.gap ≠ [] → f.name.length = 63)) ∧ ∀ line ∈ f.body, Visible (trim line) := by
  have hbody : ∀ t ∈ f.body.map trim, Trimmed t := by
    rw [List.forall_mem_map]
    exact fun line hline => trimmed_trim (f.short line (by simp [hline]))
  rw [ScriptFunction.analysis, ScriptFunction.commands, functionName_eq_iff, forall₂_shows_iff hbody,
    List.forall_mem_map]

/-- **Completeness**: an analysis says of every function and each of its commands what it is to, just if every line is
read as what it is. -/
theorem complete_iff_transparent (s : List Item) : Complete s ↔ ∀ item ∈ s, item.Transparent := by
  have hiff (hs : ∀ item ∈ s, item.Regular) : Complete s ↔ ∀ f ∈ functions s,
      (f.name.length ≤ 63 ∧ (f.gap ≠ [] → f.name.length = 63)) ∧ ∀ line ∈ f.body, Visible (trim line) := by
    rw [Complete, debagAnalyzeScript_of_regular hs, List.forall₂_map_right_iff, List.forall₂_same]
    exact forall₂_congr fun f _ => analysis_complete_iff f
  constructor
  · intro h item hitem
    have hregular := regular_of_complete h
    have hf := (hiff hregular).1 h
    cases item with
    | function f =>
      obtain ⟨⟨hlength, hgap⟩, hvisible⟩ := hf f (List.mem_filterMap.2 ⟨_, hitem, rfl⟩)
      obtain ⟨hheader, hinner⟩ := hregular _ hitem
      exact ⟨hheader, hlength, hgap, hinner, hvisible⟩
    | outside line one inner => exact hregular _ hitem
  · intro h
    have hregular : ∀ item ∈ s, item.Regular := by
      intro item hitem
      specialize h item hitem
      cases item with
      | function f => exact ⟨h.isHeader, h.not_isHeader⟩
      | outside line one inner => exact h
    refine (hiff hregular).2 fun f hf => ?_
    obtain ⟨item, hitem, hfunction⟩ := List.mem_filterMap.1 hf
    cases item with
    | function f' =>
      obtain rfl := Option.some.inj hfunction
      have hf' := h _ hitem
      exact ⟨⟨hf'.length_le, hf'.gap⟩, hf'.visible⟩
    | outside line one inner => cases hfunction

end Lines

/-! ### A name that extends another -/

lemma headerOf_post_install : HeaderOf (ascii "post_install") [] (trim (ascii "post_install() \x7b")) := by
  refine ⟨by simp [ascii, isSpace], by simp [Blank], [], [32], by simp [Blank], ?_, ?_⟩
  · simp [Blank, isSpace]
  · decide +kernel

lemma inner_exportfs : ∀ line ∈ [ascii "  exportfs -a"], Inner (trim line) := by
  rw [List.forall_mem_singleton]
  refine ⟨by decide +kernel, fun name gap hheader => ?_⟩
  obtain ⟨-, -, inner, outer, -, -, h⟩ := hheader
  have hparen : 40 ∈ trim (ascii "  exportfs -a") := by simp [h]
  revert hparen
  decide +kernel

lemma short_exportfs :
    ∀ line ∈ ascii "post_install() \x7b" :: [ascii "  exportfs -a"] ++ [[125]], ShortLine line := by
  simp [ShortLine, OneLine, ascii]

/-- A function that calls `exportfs`. -/
def exportfsFunction : ScriptFunction where
  name := ascii "post_install"
  gap := []
  header := ascii "post_install() \x7b"
  body := [ascii "  exportfs -a"]
  closing := [125]
  header_of := headerOf_post_install
  closing_brace := rfl
  inner := inner_exportfs
  short := short_exportfs

/-- `exportfs` is taken for `export`. -/
theorem not_complete_exportfs : ¬ Complete [.function exportfsFunction] := by
  have hentries : debagAnalyzeScript (text [.function exportfsFunction]) = [⟨ascii "post_install", []⟩] := by
    decide +kernel
  have hcommands : exportfsFunction.commands ≠ [] := by decide +kernel
  intro h
  rw [Complete, hentries] at h
  cases h with
  | cons hentry hrest => exact hcommands (List.forall₂_nil_right_iff.1 hentry.2)

end Two09.Debag.Script
