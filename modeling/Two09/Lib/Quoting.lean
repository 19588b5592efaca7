import Two09.Lib.Words
import Mathlib

/-!
# Words with quotation marks

The words of a command as it is written: white space separates them unless it is quoted, and the marks stay in the
words.
-/

namespace Two09.Lib

/-- Where a byte of a command stands. -/
inductive Quoting
  | plain
  | escaped
  | single
  | double
  | doubleEscaped
  deriving DecidableEq

/-- What a byte makes of the quotation. -/
def Quoting.step (q : Quoting) (c : UInt8) : Quoting :=
  match q with
  | .plain => if c = 39 then .single else if c = 34 then .double else if c = 92 then .escaped else .plain
  | .escaped => .plain
  | .single => if c = 39 then .plain else .single
  | .double => if c = 34 then .plain else if c = 92 then .doubleEscaped else .double
  | .doubleEscaped => .double

/-- The word, if it is one, and those behind it. -/
def consWord (w : Bytes) (ws : List Bytes) : List Bytes := if w = [] then ws else w :: ws

/-- The rest of the word that has begun, and the words behind it. -/
def cutWord : Quoting → Bytes → Bytes × List Bytes
  | _, [] => ([], [])
  | q, c :: s =>
    if q = .plain ∧ isSpace c = true then ([], consWord (cutWord .plain s).1 (cutWord .plain s).2)
    else (c :: (cutWord (q.step c) s).1, (cutWord (q.step c) s).2)

/-- The words of a command. -/
def commandWords (s : Bytes) : List Bytes := consWord (cutWord .plain s).1 (cutWord .plain s).2

section CommandWords

variable {c : UInt8} {s w : Bytes} {q : Quoting}

lemma cutWord_space (hc : isSpace c = true) (s : Bytes) : cutWord .plain (c :: s) = ([], commandWords s) :=
  if_pos ⟨rfl, hc⟩

lemma commandWords_space (hc : isSpace c = true) (s : Bytes) : commandWords (c :: s) = commandWords s := by
  rw [commandWords, cutWord_space hc, consWord, if_pos rfl]

lemma commandWords_dropWhile (s : Bytes) : commandWords (s.dropWhile isSpace) = commandWords s := by
  induction s with
  | nil => rfl
  | cons c s ih =>
    by_cases hc : isSpace c = true
    · rw [List.dropWhile_cons_of_pos hc, ih, commandWords_space hc]
    · rw [List.dropWhile_cons_of_neg hc]

/-- A word is there to be read. -/
lemma cutWord_prefix (q : Quoting) (s : Bytes) : (cutWord q s).1 <+: s := by
  induction s generalizing q with
  | nil => exact List.nil_prefix
  | cons c s ih =>
    rw [cutWord]
    split_ifs
    · exact List.nil_prefix
    · exact (List.prefix_cons_inj c).2 (ih _)

/-- Up to the first white space, quoted or not, the words of a command are the text. -/
lemma cutWord_takeWhile (q : Quoting) (s : Bytes) :
    (cutWord q s).1.takeWhile (fun c => !isSpace c) = s.takeWhile fun c => !isSpace c := by
  induction s generalizing q with
  | nil => rfl
  | cons c s ih =>
    by_cases hc : isSpace c = true
    · rw [List.takeWhile_cons_of_neg (by simp [hc]), cutWord]
      split_ifs
      · rfl
      · exact List.takeWhile_cons_of_neg (by simp [hc])
    · rw [cutWord, if_neg fun h => hc h.2, List.takeWhile_cons_of_pos (by simpa using hc),
        List.takeWhile_cons_of_pos (by simpa using hc), ih]

/-- A command that does not begin with white space begins with a word. -/
lemma commandWords_cons (hc : isSpace c = false) (s : Bytes) :
    commandWords (c :: s) = (cutWord .plain (c :: s)).1 :: (cutWord .plain (c :: s)).2 := by
  have hne : (cutWord .plain (c :: s)).1 ≠ [] := by
    rw [cutWord, if_neg fun h => by simp [hc] at h]
    exact List.cons_ne_nil _ _
  rw [commandWords, consWord, if_neg hne]

/-- Bytes without white space and marks. -/
def Unquoted (w : Bytes) : Prop := ∀ c ∈ w, isSpace c = false ∧ c ≠ 39 ∧ c ≠ 34 ∧ c ≠ 92

instance (w : Bytes) : Decidable (Unquoted w) := inferInstanceAs (Decidable (∀ c ∈ w, _))

lemma cutWord_unquoted (hw : Unquoted w) (s : Bytes) :
    cutWord .plain (w ++ s) = (w ++ (cutWord .plain s).1, (cutWord .plain s).2) := by
  induction w with
  | nil => rfl
  | cons c w ih =>
    obtain ⟨⟨hc, h39, h34, h92⟩, hw⟩ := List.forall_mem_cons.1 hw
    have hstep : Quoting.plain.step c = .plain := by
      rw [Quoting.step, if_neg h39, if_neg h34, if_neg h92]
    rw [List.cons_append, cutWord, if_neg fun h => by simp [hc] at h, hstep, ih hw, List.cons_append]

/-- A word without marks, with white space behind it. -/
lemma commandWords_append (hw : Unquoted w) (hne : w ≠ []) (hc : isSpace c = true) (s : Bytes) :
    commandWords (w ++ c :: s) = w :: commandWords s := by
  rw [commandWords, cutWord_unquoted hw, cutWord_space hc, List.append_nil, consWord, if_neg hne]

end CommandWords

end Two09.Lib
