import Two09.Lib.Posix

/-!
# Tokens of a NAR stream

The readers of `nar.c` on the bytes that are left, and for each the fact that it takes back exactly
the token that was written, whatever follows.
-/

namespace Two09.Nar

open Two09.Lib Two09.Lib.Posix

def newline : UInt8 := 10

/-! ### Tokens -/

def tokMagic : Bytes := ascii "nix-archive-1"
def tokRegular : Bytes := ascii "type:regular"
def tokSymlink : Bytes := ascii "type:symlink"
def tokDirectory : Bytes := ascii "type:directory"
def tokEntry : Bytes := ascii "entry"
def tokEnd : Bytes := ascii "end"
def tokExecutable : Bytes := ascii "executable\n"
def tokContents : Bytes := ascii "contents:"
def tokTarget : Bytes := ascii "target:"
def tokName : Bytes := ascii "name:"

/-- A line as the writer emits it. -/
def line (tok : Bytes) : Bytes := tok ++ [newline]

/-- `emit_u64_be`: eight big-endian bytes of a `uint64_t`. -/
def emitU64 (n : Nat) : Bytes := beDigits 8 (n % 2 ^ 64)

/-! ### Readers -/

/-- `read_exact`. -/
def readExact (n : Nat) (input : Bytes) : Option (Bytes × Bytes) :=
  if n ≤ input.length then some (input.take n, input.drop n) else none

/-- `read_u64_be`. -/
def readU64 (input : Bytes) : Option (Nat × Bytes) :=
  (readExact 8 input).map fun (b, rest) => (beValue b, rest)

/-- `read_line`: up to a newline or the end, `NULL` only when nothing is left. The line is compared
as a C string by the callers. -/
def readLine (input : Bytes) : Option (Bytes × Bytes) :=
  if input = [] then none
  else some (cstr (input.takeWhile (· ≠ newline)), (input.dropWhile (· ≠ newline)).drop 1)

/-- `try_consume`: whether the token was there. A short read is an error even when the token
could not have matched. -/
def tryConsume (tok input : Bytes) : Option (Bool × Bytes) :=
  (readExact tok.length input).map fun (b, rest) =>
    if b = tok then (true, rest) else (false, input)

/-- `expect_token`. -/
def expectToken (tok input : Bytes) : Option Bytes :=
  (readExact tok.length input).bind fun (b, rest) => if b = tok then some rest else none

section
variable {input rest tok b : Bytes} {n : Nat}

lemma readExact_append (b rest : Bytes) : readExact b.length (b ++ rest) = some (b, rest) := by
  simp [readExact]

lemma readExact_some (h : readExact n input = some (b, rest)) :
    input = b ++ rest ∧ b.length = n := by
  unfold readExact at h
  split_ifs at h with hn
  cases h
  exact ⟨(List.take_append_drop n input).symm, by simp [hn]⟩

lemma readU64_emitU64 (h : n < 2 ^ 64) (rest : Bytes) :
    readU64 (emitU64 n ++ rest) = some (n, rest) := by
  have hlen : (emitU64 n).length = 8 := length_beDigits 8 _
  have hread : readExact 8 (emitU64 n ++ rest) = some (emitU64 n, rest) := by
    simpa [hlen] using readExact_append (emitU64 n) rest
  have hmod : n % 2 ^ 64 = n := Nat.mod_eq_of_lt h
  have hval : beValue (emitU64 n) = n := by
    rw [emitU64, hmod, beValue_beDigits 8 n (by simpa using h)]
  rw [readU64, hread]
  exact congrArg (fun v => some (v, rest)) hval

lemma readLine_line (tok : Bytes) (hnl : newline ∉ tok) (hnul : (0 : UInt8) ∉ tok) (rest : Bytes) :
    readLine (line tok ++ rest) = some (tok, rest) := by
  have hall : ∀ x ∈ tok, decide (x ≠ newline) = true := by
    intro x hx
    have : x ≠ newline := fun h => hnl (h ▸ hx)
    simpa using this
  have htake : (line tok ++ rest).takeWhile (· ≠ newline) = tok := by
    rw [line, List.append_assoc, List.takeWhile_append_of_pos hall]
    simp
  have hdrop : (line tok ++ rest).dropWhile (· ≠ newline) = newline :: rest := by
    rw [line, List.append_assoc, List.dropWhile_append_of_pos hall]
    simp
  rw [readLine, if_neg (by simp [line]), htake, hdrop, cstr_eq_self hnul]
  rfl

lemma readLine_some (h : readLine input = some (b, rest)) : rest.length < input.length := by
  unfold readLine at h
  split_ifs at h with hne
  cases h
  have hle := (List.dropWhile_suffix (l := input) (· ≠ newline)).length_le
  have hpos : 0 < input.length := List.length_pos_of_ne_nil hne
  simp only [List.length_drop]
  omega

lemma expectToken_append (tok rest : Bytes) : expectToken tok (tok ++ rest) = some rest := by
  simp [expectToken, readExact_append]

lemma expectToken_some (h : expectToken tok input = some rest) : input = tok ++ rest := by
  unfold expectToken at h
  cases hr : readExact tok.length input with
  | none => simp [hr] at h
  | some v =>
    obtain ⟨b, rest'⟩ := v
    simp only [hr, Option.bind_some] at h
    split_ifs at h with hb
    cases h
    exact hb ▸ (readExact_some hr).1

lemma tryConsume_append (tok rest : Bytes) :
    tryConsume tok (tok ++ rest) = some (true, rest) := by
  simp [tryConsume, readExact_append]

/-- A token of the same length that differs leaves the stream as it was. -/
lemma tryConsume_other (hlen : tok.length ≤ input.length) (hne : input.take tok.length ≠ tok) :
    tryConsume tok input = some (false, input) := by
  simp [tryConsume, readExact, hlen, hne]

lemma tryConsume_length {x : Bool} (h : tryConsume tok input = some (x, rest)) :
    rest.length ≤ input.length := by
  unfold tryConsume at h
  cases hr : readExact tok.length input with
  | none => simp [hr] at h
  | some v =>
    obtain ⟨b, rest'⟩ := v
    have := (readExact_some hr).1
    simp only [hr, Option.map_some, Option.some.injEq] at h
    split_ifs at h with hb <;> cases h
    · simp [this]
    · exact le_refl _

lemma readU64_length (h : readU64 input = some (n, rest)) : rest.length ≤ input.length := by
  unfold readU64 at h
  cases hr : readExact 8 input with
  | none => simp [hr] at h
  | some v =>
    obtain ⟨b, rest'⟩ := v
    have := (readExact_some hr).1
    simp only [hr, Option.map_some, Option.some.injEq] at h
    cases h
    simp [this]

end

/-! ### Node heads and directory entries -/

/-- What `parse_node` has read of a node when its first file-system call is due. -/
inductive Head
  | regular (executable : Bool) (flen : Nat)
  | symlink (target : Bytes)
  | directory
  deriving DecidableEq, Repr

/-- The reads of `parse_node` before its first file-system call. -/
def readHead (input : Bytes) : Option (Head × Bytes) := do
  let (typeLine, rest) ← readLine input
  if typeLine = tokRegular then
    let (executable, rest) ← tryConsume tokExecutable rest
    let rest ← expectToken tokContents rest
    let (flen, rest) ← readU64 rest
    return (.regular executable flen, rest)
  else if typeLine = tokSymlink then
    let rest ← expectToken tokTarget rest
    let (tlen, rest) ← readU64 rest
    if tlen = 0 ∨ pathMax ≤ tlen then none
    else
      let (target, rest) ← readExact tlen rest
      return (.symlink (cstr target), rest)
  else if typeLine = tokDirectory then
    return (.directory, rest)
  else none

/-- The reads of one round of the entry loop of `parse_node`: `none` is an error, `some (none, _)`
the end of the directory. -/
def readEntry (input : Bytes) : Option (Option Name × Bytes) := do
  let (entryLine, rest) ← readLine input
  if entryLine = tokEnd then return (none, rest)
  else if entryLine ≠ tokEntry then none
  else
    let rest ← expectToken tokName rest
    let (nlen, rest) ← readU64 rest
    if nlen = 0 ∨ 256 ≤ nlen then none
    else
      let (buf, rest) ← readExact nlen rest
      let name := cstr buf
      -- the path-traversal guard
      if slash ∈ name ∨ name = dotdot ∨ name = dot then none
      else return (some name, rest)

section
variable {input rest : Bytes}

lemma readHead_length {h : Head} (hr : readHead input = some (h, rest)) :
    rest.length < input.length := by
  simp only [readHead, Option.bind_eq_bind, Option.bind_eq_some_iff] at hr
  obtain ⟨⟨l, rest₁⟩, h₁, hr⟩ := hr
  have hl := readLine_some h₁
  split_ifs at hr
  · simp only [Option.bind_eq_some_iff, Option.pure_def] at hr
    obtain ⟨⟨x, rest₂⟩, h₂, rest₃, h₃, ⟨n, rest₄⟩, h₄, hr⟩ := hr
    have := tryConsume_length h₂
    have := congrArg List.length (expectToken_some h₃)
    have := readU64_length h₄
    cases hr
    simp at *
    omega
  · simp only [Option.bind_eq_some_iff, Option.pure_def] at hr
    obtain ⟨rest₃, h₃, ⟨n, rest₄⟩, h₄, hr⟩ := hr
    split_ifs at hr
    simp only [Option.bind_eq_some_iff] at hr
    obtain ⟨⟨t, rest₅⟩, h₅, hr⟩ := hr
    have := congrArg List.length (expectToken_some h₃)
    have := readU64_length h₄
    have := congrArg List.length (readExact_some h₅).1
    cases hr
    simp at *
    omega
  · cases hr
    exact hl

/-- What `readEntry` lets through: a C string without a slash, neither `.` nor `..`, that fits a
directory entry. It may be empty. -/
structure EntryName (n : Name) : Prop where
  noSlash : slash ∉ n
  notDotdot : n ≠ dotdot
  notDot : n ≠ dot
  length_le : n.length ≤ nameMax

lemma readEntry_some {o : Option Name} (hr : readEntry input = some (o, rest)) :
    rest.length < input.length ∧ ∀ n, o = some n → EntryName n := by
  simp only [readEntry, Option.bind_eq_bind, Option.bind_eq_some_iff] at hr
  obtain ⟨⟨l, rest₁⟩, h₁, hr⟩ := hr
  have hl := readLine_some h₁
  split_ifs at hr
  · cases hr
    exact ⟨hl, by simp⟩
  · simp only [Option.bind_eq_some_iff] at hr
    obtain ⟨rest₂, h₂, ⟨n, rest₃⟩, h₃, hr⟩ := hr
    split_ifs at hr with hlen
    simp only [Option.bind_eq_some_iff] at hr
    obtain ⟨⟨buf, rest₄⟩, h₄, hr⟩ := hr
    split_ifs at hr with hguard
    have := congrArg List.length (expectToken_some h₂)
    have := readU64_length h₃
    obtain ⟨hsplit, hbuf⟩ := readExact_some h₄
    have := congrArg List.length hsplit
    cases hr
    refine ⟨by simp at *; omega, fun m hm => ?_⟩
    cases hm
    push Not at hguard
    have hle : (cstr buf).length ≤ buf.length := length_cstr_le buf
    exact ⟨hguard.1, hguard.2.1, hguard.2.2, by simp only [nameMax]; omega⟩

end

end Two09.Nar
