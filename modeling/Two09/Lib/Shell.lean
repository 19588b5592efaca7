import Two09.Lib.Bytes

/-!
# Words of a shell command line

How a POSIX shell splits a command line into words and operators, for lines without double quotes:
the lexer of single quotes, backslashes, comments and operators, which gives up at what is subject
to expansion. Every byte of a line is marked as fixed text or as data, and the marks stay on the
bytes of the words, so that it can be said which byte a shell took literally.

A line is put together from fixed text, from data in single quotes and from bare data, and may be
cut by the buffer it is written to. `lex_take_eq_intended_iff` says exactly when the shell splits it
as intended, every datum one literal word.
-/

namespace Two09.Lib.Shell

/-! ### The lexer -/

/-- What a word is made of: literal bytes, data or not, and the marks where a quotation began. -/
inductive Elem
  | byte (c : UInt8) (data : Bool)
  | quote
deriving DecidableEq, Repr

/-- What a line is split into. An operator of several characters is one token for each, the later
ones glued to what is before them; so is the operator behind a file descriptor. What is subject to
an expansion, or between double quotes, is `active`. -/
inductive Tok
  | word (w : List Elem)
  | op (c : UInt8) (glued : Bool)
  | active
deriving DecidableEq, Repr

/-- Where the lexer is. -/
inductive Mode
  | plain
  | single
  | escaped
  | comment
  | lost
deriving DecidableEq, Repr

/-- The lexer: the word it is in, whether there was a blank just before, and the tokens so far, the
latest first. -/
structure Lexer where
  mode : Mode
  word : Option (List Elem)
  gap : Bool
  toks : List Tok
deriving DecidableEq, Repr

/-- What an unquoted character does. -/
inductive Kind
  | blank
  | operator
  | quote
  | escape
  | comment
  | expansion
  | inert
deriving DecidableEq, Repr

/-- The characters that operators are made of, the newline among them. -/
def operators : Bytes := 10 :: ascii "&|;<>()"

/-- The double quote and the characters of parameters, substitutions and patterns. -/
def expansions : Bytes := [34, 36, 42, 63, 91, 96]

/-- `fresh`: no word has begun. There `#` begins a comment and `~` is expanded. -/
def kind (fresh : Bool) (c : UInt8) : Kind :=
  if c = 32 ∨ c = 9 then .blank
  else if c ∈ operators then .operator
  else if c = 39 then .quote
  else if c = 92 then .escape
  else if fresh = true ∧ c = 35 then .comment
  else if c ∈ expansions ∨ fresh = true ∧ c = 126 then .expansion
  else .inert

namespace Lexer

/-- The word ends. -/
def flush (st : Lexer) : Lexer :=
  match st.word with
  | some w => { st with word := none, toks := .word w :: st.toks }
  | none => st

/-- The word goes on. -/
def push (st : Lexer) (e : Elem) : Lexer :=
  { st with word := some (st.word.getD [] ++ [e]), gap := false }

/-- The step for a byte of the line. -/
def code (st : Lexer) (x : UInt8 × Bool) : Lexer :=
  match st.mode with
  | .plain =>
    match kind st.word.isNone x.1 with
    | .blank => { st.flush with gap := true }
    | .operator => { st.flush with gap := false, toks := .op x.1 (!st.gap) :: st.flush.toks }
    | .quote => { st.push .quote with mode := .single }
    | .escape => { st with mode := .escaped }
    | .comment => { st with mode := .comment }
    | .expansion => { st.flush with mode := .lost, toks := .active :: st.flush.toks }
    | .inert => st.push (.byte x.1 x.2)
  | .single => if x.1 = 39 then { st with mode := .plain } else st.push (.byte x.1 x.2)
  | .escaped =>
    if x.1 = 10 then { st with mode := .plain }
    else { (st.push .quote).push (.byte x.1 x.2) with mode := .plain }
  | .comment =>
    if x.1 = 10 then
      { st.flush with mode := .plain, gap := false, toks := .op 10 false :: st.flush.toks }
    else st
  | .lost => st

/-- The steps for a line. -/
def run (st : Lexer) (xs : List (UInt8 × Bool)) : Lexer := xs.foldl code st

/-- The end of the line: a quotation must not be open. -/
def finish (st : Lexer) : Option (List Tok) :=
  match st.mode with
  | .single | .escaped => none
  | _ => some st.flush.toks.reverse

/-- Between two words. -/
def ready (toks : List Tok) : Lexer := ⟨.plain, none, true, toks⟩

end Lexer

open Lexer

/-- The tokens of a line. -/
def lex (xs : List (UInt8 × Bool)) : Option (List Tok) := ((ready []).run xs).finish

/-! ### Lines -/

/-- The parts of a command line. -/
inductive Item
  | text (t : Bytes)
  | quoted (v : Bytes)
  | bare (v : Bytes)
deriving DecidableEq, Repr

namespace Item

/-- The bytes of a part: `'%s'` and `%s`. -/
def render : Item → List (UInt8 × Bool)
  | text t => t.map (·, false)
  | quoted v => (39, false) :: (v.map (·, true) ++ [(39, false)])
  | bare v => v.map (·, true)

/-- What the part is meant to be: a datum is one literal word. -/
def intended : Item → List Tok
  | text t => (lex (t.map (·, false))).getD []
  | quoted v => [.word (.quote :: v.map (.byte · true))]
  | bare v => [.word (v.map (.byte · true))]

/-- The datum is taken literally where it stands. -/
def Harmless : Item → Prop
  | text _ => True
  | quoted v => 39 ∉ v
  | bare v => v ≠ [] ∧ (∀ c ∈ v, kind false c = .inert) ∧ ∀ c ∈ v.head?, kind true c = .inert

/-- Fixed text is complete by itself. -/
def Closed : Item → Prop
  | text t => ((ready []).run (t.map (·, false))).mode = .plain ∧ t ≠ [] ∧
      ∀ c ∈ t.getLast?, kind false c ≠ .blank ∧ c ≠ 10
  | _ => True

instance : (i : Item) → Decidable i.Harmless
  | text _ => inferInstanceAs (Decidable True)
  | quoted v => inferInstanceAs (Decidable (39 ∉ v))
  | bare v => inferInstanceAs
      (Decidable (v ≠ [] ∧ (∀ c ∈ v, kind false c = .inert) ∧ ∀ c ∈ v.head?, kind true c = .inert))

instance : (i : Item) → Decidable i.Closed
  | text t => inferInstanceAs (Decidable (((ready []).run (t.map (·, false))).mode = .plain ∧
      t ≠ [] ∧ ∀ c ∈ t.getLast?, kind false c ≠ .blank ∧ c ≠ 10))
  | quoted _ => inferInstanceAs (Decidable True)
  | bare _ => inferInstanceAs (Decidable True)

end Item

/-- The parts, with a blank behind each. -/
def spaced (items : List Item) : List (UInt8 × Bool) :=
  items.flatMap fun i => i.render ++ [(32, false)]

/-- The command line: the parts, with blanks between them. -/
def line (items : List Item) : List (UInt8 × Bool) := (spaced items).dropLast

/-- The words and operators that are meant. -/
def intended (items : List Item) : List Tok := items.flatMap Item.intended

/-! ### Runs -/

section Run

variable {st : Lexer} {xs ys : List (UInt8 × Bool)} {toks : List Tok}

@[simp] lemma run_nil : st.run [] = st := rfl

@[simp] lemma run_cons (x : UInt8 × Bool) : st.run (x :: xs) = (st.code x).run xs := rfl

lemma run_append : st.run (xs ++ ys) = (st.run xs).run ys := List.foldl_append

/-- The tokens so far do not matter for the rest. -/
def Lexer.onto (st : Lexer) (toks : List Tok) : Lexer := { st with toks := st.toks ++ toks }

lemma flush_onto : (st.onto toks).flush = st.flush.onto toks := by
  obtain ⟨mode, word, gap, ts⟩ := st
  cases word <;> rfl

lemma code_onto (x : UInt8 × Bool) : (st.onto toks).code x = (st.code x).onto toks := by
  have hflush : (st.onto toks).flush = st.flush.onto toks := flush_onto
  unfold code
  cases hm : st.mode with
  | plain =>
    simp only [show (st.onto toks).mode = .plain from hm, show (st.onto toks).word = st.word from rfl]
    cases kind st.word.isNone x.1 <;> simp only [hflush] <;> rfl
  | single =>
    simp only [show (st.onto toks).mode = .single from hm]
    split_ifs <;> rfl
  | escaped =>
    simp only [show (st.onto toks).mode = .escaped from hm]
    split_ifs <;> rfl
  | comment =>
    simp only [show (st.onto toks).mode = .comment from hm, hflush]
    split_ifs <;> rfl
  | lost => simp only [show (st.onto toks).mode = .lost from hm]

lemma run_onto : (st.onto toks).run xs = (st.run xs).onto toks := by
  induction xs generalizing st with
  | nil => rfl
  | cons x xs ih => rw [run_cons, code_onto, ih, run_cons]

/-- A blank ends the word. -/
lemma code_blank (h : st.mode = .plain) : st.code (32, false) = ready st.flush.toks := by
  obtain ⟨mode, word, gap, ts⟩ := st
  obtain rfl : mode = .plain := h
  cases word <;> rfl

lemma finish_plain (h : st.mode = .plain) : st.finish = some st.flush.toks.reverse := by
  unfold finish
  rw [h]

/-- The blank behind the last part makes no difference. -/
lemma finish_of_code_blank (h : st.code (32, false) = ready toks) :
    st.mode = .plain ∧ st.finish = some toks.reverse := by
  obtain ⟨mode, word, gap, ts⟩ := st
  cases mode with
  | plain =>
    rw [code_blank rfl] at h
    refine ⟨rfl, ?_⟩
    rw [finish_plain rfl]
    exact congrArg (fun s : Lexer => some s.toks.reverse) h
  | _ => simp [code, push, ready] at h

end Run

/-! ### Data taken literally -/

section Literal

variable {w : List Elem} {toks : List Tok} {v : Bytes}

lemma run_single (hv : 39 ∉ v) :
    (⟨.single, some w, false, toks⟩ : Lexer).run (v.map (·, true)) =
      ⟨.single, some (w ++ v.map (.byte · true)), false, toks⟩ := by
  induction v generalizing w with
  | nil => simp
  | cons c v ih =>
    obtain ⟨hc, hv⟩ : c ≠ 39 ∧ 39 ∉ v := by
      simpa [eq_comm] using hv
    have hcode : (⟨.single, some w, false, toks⟩ : Lexer).code (c, true) =
        ⟨.single, some (w ++ [.byte c true]), false, toks⟩ := by
      simp [code, hc, push]
    rw [List.map_cons, run_cons, hcode, ih hv]
    simp

lemma run_plain (hv : ∀ c ∈ v, kind false c = .inert) :
    (⟨.plain, some w, false, toks⟩ : Lexer).run (v.map (·, true)) =
      ⟨.plain, some (w ++ v.map (.byte · true)), false, toks⟩ := by
  induction v generalizing w with
  | nil => simp
  | cons c v ih =>
    obtain ⟨hc, hv⟩ := List.forall_mem_cons.1 hv
    have hcode : (⟨.plain, some w, false, toks⟩ : Lexer).code (c, true) =
        ⟨.plain, some (w ++ [.byte c true]), false, toks⟩ := by
      simp [code, hc, push]
    rw [List.map_cons, run_cons, hcode, ih hv]
    simp

end Literal

/-- The tokens the shell makes of a part when it takes its data literally: of an empty bare datum it
makes none. -/
def Item.actual : Item → List Tok
  | .bare [] => []
  | i => i.intended

/-- The data of a part are taken literally, if there are any. -/
def Item.Literal (i : Item) : Prop := i = .bare [] ∨ i.Harmless

section Parts

variable {i : Item} {items : List Item} {toks : List Tok}

lemma run_item (hc : i.Closed) (hl : i.Literal) :
    (ready toks).run (i.render ++ [(32, false)]) = ready (i.actual.reverse ++ toks) := by
  rw [run_append]
  cases i with
  | text t =>
    have hplain : ((ready []).run (t.map (·, false))).mode = .plain := hc.1
    have honto : (ready toks).run (t.map (·, false)) = ((ready []).run (t.map (·, false))).onto toks := by
      show ((ready []).onto toks).run (t.map (·, false)) = _
      exact run_onto
    have htoks : (Item.text t).actual = ((ready []).run (t.map (·, false))).flush.toks.reverse := by
      show (lex (t.map (·, false))).getD [] = _
      unfold lex
      rw [finish_plain hplain, Option.getD_some]
    show (ready toks |>.run (t.map (·, false))).code (32, false) = _
    rw [honto, code_onto, code_blank hplain, htoks, List.reverse_reverse]
    rfl
  | quoted v =>
    have hv : 39 ∉ v := by
      rcases hl with hl | hl
      · cases hl
      · exact hl
    show (((⟨.single, some [.quote], false, toks⟩ : Lexer).run (v.map (·, true) ++ [(39, false)])).code
      (32, false)) = _
    rw [run_append, run_single hv]
    rfl
  | bare v =>
    cases v with
    | nil => rfl
    | cons c v =>
      obtain ⟨-, hv, hfirst⟩ : (Item.bare (c :: v)).Harmless := by
        rcases hl with hl | hl
        · cases hl
        · exact hl
      have hc : kind true c = .inert := hfirst c rfl
      have hcode : (ready toks).code (c, true) = ⟨.plain, some [.byte c true], false, toks⟩ := by
        simp [code, ready, push, hc]
      show (((ready toks).code (c, true)).run (v.map (·, true))).code (32, false) = _
      rw [hcode, run_plain (List.forall_mem_cons.1 hv).2]
      rfl

lemma run_spaced (hc : ∀ i ∈ items, i.Closed) (hl : ∀ i ∈ items, i.Literal) :
    (ready toks).run (spaced items) = ready ((items.flatMap Item.actual).reverse ++ toks) := by
  induction items generalizing toks with
  | nil => rfl
  | cons i items ih =>
    obtain ⟨hci, hci'⟩ := List.forall_mem_cons.1 hc
    obtain ⟨hli, hli'⟩ := List.forall_mem_cons.1 hl
    rw [spaced, List.flatMap_cons, run_append, run_item hci hli, ← spaced, ih hci' hli',
      List.flatMap_cons, List.reverse_append, List.append_assoc]

end Parts

/-! ### What is counted -/

/-- A byte of data. -/
def Elem.isData : Elem → Bool
  | .byte _ data => data
  | .quote => false

/-- The elements of a word; an operator has none. -/
def Tok.elems : Tok → List Elem
  | .word w => w
  | _ => []

/-- The bytes of data that were taken literally. -/
def dataCount (toks : List Tok) : Nat := (toks.flatMap Tok.elems).countP Elem.isData

/-- A word counts for itself and for its elements. -/
def Tok.size : Tok → Nat
  | .word w => w.length + 1
  | _ => 1

/-- The size of a list of tokens. -/
def size (toks : List Tok) : Nat := (toks.map Tok.size).sum

namespace Lexer

/-- The tokens, the word in progress among them. -/
def all (st : Lexer) : List Tok :=
  match st.word with
  | some w => .word w :: st.toks
  | none => st.toks

end Lexer

section Counts

variable {st : Lexer} {xs ys : List (UInt8 × Bool)} {toks : List Tok}

@[simp] lemma dataCount_cons (t : Tok) (toks : List Tok) :
    dataCount (t :: toks) = t.elems.countP Elem.isData + dataCount toks := by
  simp [dataCount]

@[simp] lemma size_cons (t : Tok) (toks : List Tok) : size (t :: toks) = t.size + size toks := by
  simp [size]

lemma dataCount_reverse (toks : List Tok) : dataCount toks.reverse = dataCount toks := by
  unfold dataCount
  exact ((List.reverse_perm toks).flatMap_right Tok.elems).countP_eq _

lemma size_reverse (toks : List Tok) : size toks.reverse = size toks := by
  unfold size
  rw [List.map_reverse, List.sum_reverse]

lemma toks_flush : st.flush.toks = st.all := by
  obtain ⟨mode, word, gap, ts⟩ := st
  cases word <;> rfl

lemma word_flush : st.flush.word = none := by
  obtain ⟨mode, word, gap, ts⟩ := st
  cases word <;> rfl

lemma all_of_word (h : st.word = none) : st.all = st.toks := by
  unfold all
  rw [h]

lemma all_flushed (mode : Mode) (gap : Bool) (t : Tok) :
    (⟨mode, st.flush.word, gap, t :: st.flush.toks⟩ : Lexer).all = t :: st.all := by
  obtain ⟨_, word, _, ts⟩ := st
  cases word <;> rfl

lemma all_of_finish (h : st.finish = some toks) : toks = st.all.reverse := by
  unfold finish at h
  split at h
  · cases h
  · cases h
  · rw [← toks_flush]
    exact (Option.some.inj h).symm

lemma dataCount_push (e : Elem) :
    dataCount (st.push e).all = dataCount st.all + if e.isData then 1 else 0 := by
  obtain ⟨mode, word, gap, ts⟩ := st
  cases word with
  | none => simp [push, Lexer.all, Tok.elems, List.countP_cons, Nat.add_comm]
  | some w =>
    simp only [push, Lexer.all, Option.getD_some, dataCount_cons, Tok.elems,
      List.countP_append, List.countP_singleton]
    omega

lemma size_push (e : Elem) : size st.all < size (st.push e).all := by
  obtain ⟨mode, word, gap, ts⟩ := st
  cases word with
  | none => simp [push, Lexer.all, Tok.size]
  | some w => simp [push, Lexer.all, Tok.size]

/-- What a step does to the tokens: nothing, a token that is no word, or elements of the word, the
byte itself last if at all. -/
lemma all_code (x : UInt8 × Bool) :
    (st.code x).all = st.all ∨ (∃ t, t.elems = [] ∧ t.size = 1 ∧ (st.code x).all = t :: st.all) ∨
      (st.code x).all = (st.push .quote).all ∨ (st.code x).all = (st.push (.byte x.1 x.2)).all ∨
      (st.code x).all = ((st.push .quote).push (.byte x.1 x.2)).all := by
  unfold code
  cases hm : st.mode with
  | plain =>
    cases kind st.word.isNone x.1 with
    | blank => exact .inl ((all_of_word word_flush).trans toks_flush)
    | operator => exact .inr (.inl ⟨.op x.1 (!st.gap), rfl, rfl, all_flushed .plain false _⟩)
    | quote => exact .inr (.inr (.inl rfl))
    | escape => exact .inl rfl
    | comment => exact .inl rfl
    | expansion => exact .inr (.inl ⟨.active, rfl, rfl, all_flushed .lost _ _⟩)
    | inert => exact .inr (.inr (.inr (.inl rfl)))
  | single =>
    dsimp only
    split_ifs
    · exact .inl rfl
    · exact .inr (.inr (.inr (.inl rfl)))
  | escaped =>
    dsimp only
    split_ifs
    · exact .inl rfl
    · exact .inr (.inr (.inr (.inr rfl)))
  | comment =>
    dsimp only
    split_ifs
    · exact .inr (.inl ⟨.op 10 false, rfl, rfl, all_flushed .plain false _⟩)
    · exact .inl rfl
  | lost => exact .inl rfl

/-- One step takes at most its own byte literally. -/
lemma dataCount_code_le (x : UInt8 × Bool) :
    dataCount (st.code x).all ≤ dataCount st.all + if x.2 then 1 else 0 := by
  rcases all_code x with h | ⟨t, ht, -, h⟩ | h | h | h
  · rw [h]
    omega
  · rw [h, dataCount_cons, ht, List.countP_nil]
    omega
  · rw [h, dataCount_push, show Elem.quote.isData = false from rfl, if_neg Bool.false_ne_true]
    omega
  · rw [h, dataCount_push]
    exact Nat.le_refl _
  · rw [h, dataCount_push, dataCount_push, show Elem.quote.isData = false from rfl,
      if_neg Bool.false_ne_true]
    exact Nat.le_refl _

lemma size_code_le (x : UInt8 × Bool) : size st.all ≤ size (st.code x).all := by
  rcases all_code x with h | ⟨t, -, ht, h⟩ | h | h | h
  · rw [h]
  · rw [h, size_cons]
    omega
  · rw [h]
    exact (size_push _).le
  · rw [h]
    exact (size_push _).le
  · rw [h]
    exact (size_push _).le.trans (size_push _).le

lemma dataCount_run_le : dataCount (st.run xs).all ≤ dataCount st.all + xs.countP (·.2) := by
  induction xs generalizing st with
  | nil => exact Nat.le_refl _
  | cons x xs ih =>
    have hx : dataCount (st.code x).all ≤ dataCount st.all + if x.2 then 1 else 0 :=
      dataCount_code_le x
    have hxs : dataCount ((st.code x).run xs).all ≤ dataCount (st.code x).all + xs.countP (·.2) := ih
    rw [run_cons, List.countP_cons]
    omega

lemma size_run_le : size st.all ≤ size (st.run xs).all := by
  induction xs generalizing st with
  | nil => exact Nat.le_refl _
  | cons x xs ih => exact (size_code_le x).trans ih

end Counts

/-! ### Data that stray -/

/-- On the way through the line there is a byte of data that is not taken literally. -/
def Strays (st : Lexer) (xs : List (UInt8 × Bool)) : Prop :=
  ∃ a c b, xs = a ++ (c, true) :: b ∧
    dataCount ((st.run a).code (c, true)).all ≤ dataCount (st.run a).all

section Strays

variable {st : Lexer} {xs ys : List (UInt8 × Bool)} {toks : List Tok} {w : List Elem} {v : Bytes}

lemma Strays.append_left (h : Strays (st.run ys) xs) : Strays st (ys ++ xs) := by
  obtain ⟨a, c, b, rfl, hc⟩ := h
  refine ⟨ys ++ a, c, b, by rw [List.append_assoc], ?_⟩
  rwa [run_append]

lemma Strays.append_right (h : Strays st xs) : Strays st (xs ++ ys) := by
  obtain ⟨a, c, b, rfl, hc⟩ := h
  exact ⟨a, c, b ++ ys, by rw [List.append_assoc, List.cons_append], hc⟩

/-- **A byte that strays is missing** from the words, and so is one that was cut off. -/
lemma Strays.lt (h : Strays st xs) (n : Nat) :
    dataCount (st.run (xs.take n)).all < dataCount st.all + xs.countP (·.2) := by
  obtain ⟨a, c, b, rfl, hc⟩ := h
  have hcount : (a ++ (c, true) :: b).countP (·.2) = a.countP (·.2) + (b.countP (·.2) + 1) := by
    rw [List.countP_append, List.countP_cons, if_pos rfl]
  rw [hcount, List.take_append]
  cases hn : n - a.length with
  | zero =>
    have ha : (a.take n).countP (·.2) ≤ a.countP (·.2) := (List.take_sublist n a).countP_le
    have hrun : dataCount (st.run (a.take n)).all ≤ dataCount st.all + (a.take n).countP (·.2) :=
      dataCount_run_le
    rw [List.take_zero, List.append_nil]
    omega
  | succ m =>
    have ha : a.take n = a := List.take_of_length_le (by omega)
    have hb : (b.take m).countP (·.2) ≤ b.countP (·.2) := (List.take_sublist m b).countP_le
    have hrun : dataCount (st.run a).all ≤ dataCount st.all + a.countP (·.2) := dataCount_run_le
    have hrest : dataCount (((st.run a).code (c, true)).run (b.take m)).all ≤
        dataCount ((st.run a).code (c, true)).all + (b.take m).countP (·.2) := dataCount_run_le
    rw [ha, List.take_succ_cons, run_append, run_cons]
    omega

lemma strays_single (h : 39 ∈ v) :
    Strays ⟨.single, some w, false, toks⟩ (v.map (·, true)) := by
  induction v generalizing w with
  | nil => cases h
  | cons c v ih =>
    by_cases hc : c = 39
    · subst hc
      exact ⟨[], 39, v.map (·, true), rfl, Nat.le_refl _⟩
    · have hv : 39 ∈ v := (List.mem_cons.1 h).resolve_left fun h39 => hc h39.symm
      have hcode : (⟨.single, some w, false, toks⟩ : Lexer).run [(c, true)] =
          ⟨.single, some (w ++ [.byte c true]), false, toks⟩ := by
        simp [code, hc, push]
      show Strays _ ([(c, true)] ++ v.map (·, true))
      apply Strays.append_left
      rw [hcode]
      exact ih hv

/-- A character that is not inert is not taken literally outside quotes. -/
lemma dataCount_code_of_kind (hm : st.mode = .plain) {c : UInt8}
    (hk : kind st.word.isNone c ≠ .inert) : dataCount (st.code (c, true)).all ≤ dataCount st.all := by
  unfold code
  rw [hm]
  dsimp only
  cases hkind : kind st.word.isNone c with
  | blank =>
    rw [show (⟨st.flush.mode, st.flush.word, true, st.flush.toks⟩ : Lexer).all = st.all from
      (all_of_word word_flush).trans toks_flush]
  | operator =>
    rw [show (⟨st.flush.mode, st.flush.word, false, .op c (!st.gap) :: st.flush.toks⟩ : Lexer).all = _
      from all_flushed st.flush.mode false _]
    simp [Tok.elems]
  | quote =>
    show dataCount (st.push .quote).all ≤ _
    rw [dataCount_push]
    exact Nat.le_refl _
  | escape => exact Nat.le_refl _
  | comment => exact Nat.le_refl _
  | expansion =>
    rw [show (⟨.lost, st.flush.word, st.flush.gap, .active :: st.flush.toks⟩ : Lexer).all = _
      from all_flushed .lost st.flush.gap _]
    simp [Tok.elems]
  | inert => exact absurd hkind hk

lemma strays_plain (h : ∃ c ∈ v, kind false c ≠ .inert) :
    Strays ⟨.plain, some w, false, toks⟩ (v.map (·, true)) := by
  induction v generalizing w with
  | nil =>
    obtain ⟨c, hc, -⟩ := h
    cases hc
  | cons c v ih =>
    by_cases hc : kind false c = .inert
    · have hv : ∃ c ∈ v, kind false c ≠ .inert := by
        obtain ⟨d, hd, hkind⟩ := h
        rcases List.mem_cons.1 hd with rfl | hd
        · exact absurd hc hkind
        · exact ⟨d, hd, hkind⟩
      have hcode : (⟨.plain, some w, false, toks⟩ : Lexer).run [(c, true)] =
          ⟨.plain, some (w ++ [.byte c true]), false, toks⟩ := by
        simp [code, hc, push]
      show Strays _ ([(c, true)] ++ v.map (·, true))
      apply Strays.append_left
      rw [hcode]
      exact ih hv
    · exact ⟨[], c, v.map (·, true), rfl, dataCount_code_of_kind rfl hc⟩

lemma strays_item {i : Item} (h : ¬i.Literal) : Strays (ready toks) i.render := by
  cases i with
  | text t => exact absurd (.inr trivial) h
  | quoted v =>
    have hv : 39 ∈ v := by
      by_contra hv
      exact h (.inr hv)
    show Strays _ ([(39, false)] ++ (v.map (·, true) ++ [(39, false)]))
    exact Strays.append_left (Strays.append_right (strays_single hv))
  | bare v =>
    cases v with
    | nil => exact absurd (.inl rfl) h
    | cons c v =>
      by_cases hc : kind true c = .inert
      · have hv : ∃ d ∈ v, kind false d ≠ .inert := by
          by_contra hv
          push Not at hv
          have hc' : kind false c = .inert := by
            unfold kind at hc ⊢
            split_ifs at hc ⊢ <;> simp_all
          exact h (.inr ⟨List.cons_ne_nil _ _, List.forall_mem_cons.2 ⟨hc', hv⟩, fun d hd =>
            (Option.some.inj hd) ▸ hc⟩)
        have hcode : (ready toks).run [(c, true)] = ⟨.plain, some [.byte c true], false, toks⟩ := by
          simp [code, ready, hc, push]
        show Strays _ ([(c, true)] ++ v.map (·, true))
        apply Strays.append_left
        rw [hcode]
        exact strays_plain hv
      · exact ⟨[], c, v.map (·, true), rfl, dataCount_code_of_kind rfl hc⟩

lemma strays_spaced {items : List Item} (hc : ∀ i ∈ items, i.Closed)
    (h : ∃ i ∈ items, ¬i.Literal) : Strays (ready toks) (spaced items) := by
  induction items generalizing toks with
  | nil =>
    obtain ⟨i, hi, -⟩ := h
    cases hi
  | cons i items ih =>
    obtain ⟨hci, hci'⟩ := List.forall_mem_cons.1 hc
    rw [spaced, List.flatMap_cons]
    by_cases hl : i.Literal
    · have hrest : ∃ j ∈ items, ¬j.Literal := by
        obtain ⟨j, hj, hnot⟩ := h
        rcases List.mem_cons.1 hj with rfl | hj
        · exact absurd hl hnot
        · exact ⟨j, hj, hnot⟩
      apply Strays.append_left
      rw [run_item hci hl]
      exact ih hci' hrest
    · exact (strays_item hl).append_right.append_right

end Strays

/-! ### Lines that are cut -/

section Cut

variable {st : Lexer} {xs : List (UInt8 × Bool)} {toks : List Tok}

lemma mode_flush : st.flush.mode = st.mode := by
  obtain ⟨mode, word, gap, ts⟩ := st
  cases word <;> rfl

/-- Only an unquoted quote opens a quotation. -/
lemma all_code_of_single {x : UInt8 × Bool} (h : st.mode ≠ .single) (hx : (st.code x).mode = .single) :
    (st.code x).all = (st.push .quote).all := by
  unfold code at hx ⊢
  cases hm : st.mode with
  | plain =>
    rw [hm] at hx
    dsimp only at hx ⊢
    cases hk : kind st.word.isNone x.1 with
    | quote => rfl
    | blank =>
      rw [hk] at hx
      exact absurd (mode_flush.symm.trans hx) h
    | operator =>
      rw [hk] at hx
      exact absurd (mode_flush.symm.trans hx) h
    | inert =>
      rw [hk] at hx
      exact absurd hx h
    | _ =>
      rw [hk] at hx
      cases hx
  | single => exact absurd hm h
  | escaped =>
    rw [hm] at hx
    dsimp only at hx
    split_ifs at hx
  | comment =>
    rw [hm] at hx
    dsimp only at hx
    split_ifs at hx
    exact absurd hx h
  | lost =>
    rw [hm] at hx
    exact absurd hx h

/-- A quotation cannot be entered for nothing. -/
lemma size_lt_of_single (h : st.mode ≠ .single) (hs : (st.run xs).mode = .single) :
    size st.all < size (st.run xs).all := by
  induction xs generalizing st with
  | nil => exact absurd hs h
  | cons x xs ih =>
    by_cases hx : (st.code x).mode = .single
    · calc size st.all < size (st.push .quote).all := size_push _
        _ = size (st.code x).all := by rw [all_code_of_single h hx]
        _ ≤ size ((st.code x).run xs).all := size_run_le
    · exact (size_code_le x).trans_lt (ih hx hs)

/-- A last character that is no blank and leaves no quotation open either goes into the tokens or
closes a quotation. -/
lemma size_code_lt {x : UInt8 × Bool} (hx : kind false x.1 ≠ .blank ∧ x.1 ≠ 10)
    (hp : (st.code x).mode = .plain) : size st.all < size (st.code x).all ∨ st.mode = .single := by
  unfold code at hp ⊢
  cases hm : st.mode with
  | single => exact .inr rfl
  | plain =>
    left
    rw [hm] at hp
    dsimp only at hp ⊢
    cases hk : kind st.word.isNone x.1 with
    | blank =>
      exfalso
      apply hx.1
      unfold kind at hk ⊢
      split_ifs at hk ⊢ with hblank
      rfl
    | operator =>
      show size st.all < size (⟨st.flush.mode, st.flush.word, false,
        .op x.1 (!st.gap) :: st.flush.toks⟩ : Lexer).all
      rw [all_flushed, size_cons, show (Tok.op x.1 (!st.gap)).size = 1 from rfl]
      omega
    | inert => exact size_push _
    | _ =>
      rw [hk] at hp
      cases hp
  | escaped =>
    left
    rw [hm] at hp
    dsimp only at hp ⊢
    rw [if_neg hx.2]
    exact (size_push _).trans (size_push _)
  | comment =>
    left
    rw [hm] at hp
    dsimp only at hp ⊢
    rw [if_neg hx.2, hm] at hp
    cases hp
  | lost =>
    rw [hm] at hp
    cases hm.symm.trans hp

/-- **A line that is cut has lost a token**, or a quotation in it is open. -/
lemma size_lt_of_cut {x : UInt8 × Bool} {ys : List (UInt8 × Bool)}
    (hx : kind false x.1 ≠ .blank ∧ x.1 ≠ 10) (hp : (st.run (ys ++ [x])).mode = .plain)
    (hf : st.finish = some toks) : size st.all < size (st.run (ys ++ [x])).all := by
  rw [run_append] at hp ⊢
  rcases size_code_lt hx hp with hlt | hsingle
  · have hys : size st.all ≤ size (st.run ys).all := size_run_le
    exact hys.trans_lt hlt
  · have hmode : st.mode ≠ .single := by
      intro hm
      unfold finish at hf
      rw [hm] at hf
      cases hf
    exact (size_lt_of_single hmode hsingle).trans_le (size_code_le x)

end Cut

/-! ### Lines as they are meant -/

section Line

variable {items : List Item}

lemma countP_data (v : Bytes) (data : Bool) :
    (v.map (·, data)).countP (·.2) = if data then v.length else 0 := by
  induction v with
  | nil => cases data <;> rfl
  | cons c v ih =>
    rw [List.map_cons, List.countP_cons, ih]
    cases data <;> simp

lemma countP_bytes (v : Bytes) : (v.map (Elem.byte · true)).countP Elem.isData = v.length := by
  induction v with
  | nil => rfl
  | cons c v ih =>
    rw [List.map_cons, List.countP_cons, ih]
    rfl

/-- A part is meant to have all its data in its words. -/
lemma dataCount_item (i : Item) : dataCount i.intended = i.render.countP (·.2) := by
  cases i with
  | text t =>
    have hle : dataCount ((ready []).run (t.map (·, false))).all ≤ 0 + (t.map (·, false)).countP (·.2) :=
      dataCount_run_le
    rw [countP_data, if_neg Bool.false_ne_true] at hle
    show dataCount ((lex (t.map (·, false))).getD []) = (t.map (·, false)).countP (·.2)
    rw [countP_data, if_neg Bool.false_ne_true]
    cases hlex : lex (t.map (·, false)) with
    | none => rfl
    | some toks =>
      rw [Option.getD_some, all_of_finish hlex, dataCount_reverse]
      omega
  | quoted v =>
    show dataCount [.word (.quote :: v.map (.byte · true))] =
      ((39, false) :: (v.map (·, true) ++ [(39, false)])).countP (·.2)
    rw [dataCount_cons, List.countP_cons, List.countP_append, countP_data, if_pos rfl]
    show (Elem.quote :: v.map (.byte · true)).countP Elem.isData + 0 = v.length + 0 + 0
    rw [List.countP_cons, countP_bytes]
    rfl
  | bare v =>
    show dataCount [.word (v.map (.byte · true))] = (v.map (·, true)).countP (·.2)
    rw [dataCount_cons, countP_data, if_pos rfl]
    show (v.map (Elem.byte · true)).countP Elem.isData + 0 = v.length
    rw [countP_bytes]
    rfl

lemma dataCount_intended : dataCount (intended items) = (spaced items).countP (·.2) := by
  induction items with
  | nil => rfl
  | cons i items ih =>
    rw [intended, spaced, List.flatMap_cons, List.flatMap_cons, List.countP_append,
      List.countP_append, ← dataCount_item, ← spaced, ← ih]
    unfold dataCount intended
    rw [List.flatMap_append, List.countP_append]
    rfl

lemma size_append (a b : List Tok) : size (a ++ b) = size a + size b := by
  simp [size]

lemma size_actual_le (i : Item) : size i.actual ≤ size i.intended := by
  unfold Item.actual
  split
  · exact Nat.zero_le _
  · exact Nat.le_refl _

lemma size_flatMap_actual_le : size (items.flatMap Item.actual) ≤ size (intended items) := by
  induction items with
  | nil => exact Nat.le_refl _
  | cons i items ih =>
    rw [intended, List.flatMap_cons, List.flatMap_cons, size_append, size_append, ← intended]
    have hi : size i.actual ≤ size i.intended := size_actual_le i
    omega

/-- An empty bare datum is missed. -/
lemma size_flatMap_actual_lt (h : Item.bare [] ∈ items) :
    size (items.flatMap Item.actual) < size (intended items) := by
  induction items with
  | nil => cases h
  | cons i items ih =>
    rw [intended, List.flatMap_cons, List.flatMap_cons, size_append, size_append, ← intended]
    rcases List.mem_cons.1 h with rfl | h
    · have hrest : size (items.flatMap Item.actual) ≤ size (intended items) := size_flatMap_actual_le
      show 0 + _ < 1 + _
      omega
    · have hi : size i.actual ≤ size i.intended := size_actual_le i
      have hrest : size (items.flatMap Item.actual) < size (intended items) := ih h
      omega

lemma actual_of_harmless {i : Item} (h : i.Harmless) : i.actual = i.intended := by
  unfold Item.actual
  split
  · exact absurd rfl h.1
  · rfl

lemma flatMap_actual (h : ∀ i ∈ items, i.Harmless) : items.flatMap Item.actual = intended items :=
  List.flatMap_congr fun i hi => actual_of_harmless (h i hi)

/-- The line ends in a character of its last part. -/
lemma line_eq_concat (hne : items ≠ []) (hc : ∀ i ∈ items, i.Closed) (hl : ∀ i ∈ items, i.Harmless) :
    ∃ xs x, line items = xs ++ [x] ∧ kind false x.1 ≠ .blank ∧ x.1 ≠ 10 := by
  obtain ⟨init, i, rfl⟩ : ∃ init i, items = init ++ [i] := by
    exact ⟨_, _, (List.dropLast_append_getLast hne).symm⟩
  have hline : line (init ++ [i]) = spaced init ++ i.render := by
    rw [line, spaced, List.flatMap_append, List.flatMap_singleton, ← List.append_assoc,
      List.dropLast_concat]
    rfl
  have hci : i.Closed := hc i (by simp)
  have hli : i.Harmless := hl i (by simp)
  obtain ⟨ys, x, hrender, hx⟩ : ∃ ys x, i.render = ys ++ [x] ∧ kind false x.1 ≠ .blank ∧ x.1 ≠ 10 := by
    cases i with
    | text t =>
      obtain ⟨-, hne, hlast⟩ := hci
      refine ⟨t.dropLast.map (·, false), (t.getLast hne, false), ?_,
        hlast _ (List.getLast?_eq_some_getLast hne)⟩
      show t.map (·, false) = _
      conv_lhs => rw [← List.dropLast_append_getLast hne]
      rw [List.map_append]
      rfl
    | quoted v => exact ⟨(39, false) :: v.map (·, true), (39, false), rfl, by decide, by decide⟩
    | bare v =>
      obtain ⟨hne, hv, -⟩ := hli
      refine ⟨v.dropLast.map (·, true), (v.getLast hne, true), ?_, ?_, ?_⟩
      · show v.map (·, true) = _
        conv_lhs => rw [← List.dropLast_append_getLast hne]
        rw [List.map_append]
        rfl
      · rw [hv _ (List.getLast_mem hne)]
        decide
      · intro h10
        have hinert : kind false (v.getLast hne) = .inert := hv _ (List.getLast_mem hne)
        rw [show v.getLast hne = 10 from h10] at hinert
        revert hinert
        decide
  exact ⟨spaced init ++ ys, x, by rw [hline, hrender, List.append_assoc], hx⟩

/-- The whole line, when its data are taken literally. -/
lemma run_line (hne : items ≠ []) (hc : ∀ i ∈ items, i.Closed) (hl : ∀ i ∈ items, i.Literal) :
    ((ready []).run (line items)).mode = .plain ∧
      lex (line items) = some (items.flatMap Item.actual) := by
  have hspaced : spaced items = line items ++ [(32, false)] := by
    obtain ⟨init, i, rfl⟩ : ∃ init i, items = init ++ [i] :=
      ⟨_, _, (List.dropLast_append_getLast hne).symm⟩
    rw [line, spaced, List.flatMap_append, List.flatMap_singleton, ← List.append_assoc,
      List.dropLast_concat]
  have hrun : (ready []).run (spaced items) = ready ((items.flatMap Item.actual).reverse ++ []) :=
    run_spaced hc hl
  rw [hspaced, run_append, List.append_nil] at hrun
  obtain ⟨hplain, hfinish⟩ := finish_of_code_blank hrun
  exact ⟨hplain, hfinish.trans (by rw [List.reverse_reverse])⟩

/-- **The shell splits a line as intended** exactly when the line is not cut and its data are
harmless where they stand. -/
theorem lex_take_eq_intended_iff (hne : items ≠ []) (hc : ∀ i ∈ items, i.Closed) (n : Nat) :
    lex ((line items).take n) = some (intended items) ↔
      (line items).length ≤ n ∧ ∀ i ∈ items, i.Harmless := by
  constructor
  · intro h
    have hall : intended items = ((ready []).run ((line items).take n)).all.reverse := all_of_finish h
    -- every byte of data is in the words, hence none strays
    have hlit : ∀ i ∈ items, i.Literal := by
      by_contra hnot
      push Not at hnot
      have hlt : dataCount ((ready []).run ((spaced items).take (min n ((spaced items).length - 1)))).all <
          0 + (spaced items).countP (·.2) := (strays_spaced hc hnot).lt _
      rw [line, List.dropLast_eq_take, List.take_take] at hall
      rw [← dataCount_intended, hall, dataCount_reverse] at hlt
      omega
    obtain ⟨hplain, hwhole⟩ := run_line hne hc hlit
    have hwhole : items.flatMap Item.actual = ((ready []).run (line items)).all.reverse :=
      all_of_finish hwhole
    have hsplit : (ready []).run (line items) =
        ((ready []).run ((line items).take n)).run ((line items).drop n) := by
      rw [← run_append, List.take_append_drop]
    -- the cut line has all the tokens, hence none is missed
    have hle : size (intended items) ≤ size (items.flatMap Item.actual) := by
      rw [hall, hwhole, size_reverse, size_reverse, hsplit]
      exact size_run_le
    have hharm : ∀ i ∈ items, i.Harmless := by
      intro i hi
      rcases hlit i hi with rfl | hharm
      · exact absurd (size_flatMap_actual_lt hi) (by omega)
      · exact hharm
    refine ⟨?_, hharm⟩
    by_contra hn
    obtain ⟨xs, x, hline, hx⟩ := line_eq_concat hne hc hharm
    have hdrop : (line items).drop n = xs.drop n ++ [x] := by
      rw [hline, List.length_append] at hn
      rw [hline, List.drop_append_of_le_length (by simpa using hn)]
    rw [hsplit, hdrop] at hplain
    have hlt : size ((ready []).run ((line items).take n)).all <
        size (((ready []).run ((line items).take n)).run (xs.drop n ++ [x])).all :=
      size_lt_of_cut hx hplain h
    rw [← hdrop, ← hsplit, ← size_reverse, ← hall, ← size_reverse ((ready []).run _).all,
      ← hwhole] at hlt
    rw [flatMap_actual hharm] at hlt
    exact absurd hlt (Nat.lt_irrefl _)
  · rintro ⟨hn, hharm⟩
    rw [List.take_of_length_le hn, (run_line hne hc fun i hi => .inr (hharm i hi)).2,
      flatMap_actual hharm]

end Line

end Two09.Lib.Shell
