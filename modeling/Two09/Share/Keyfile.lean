import Two09.Install.Extract
import Two09.Share.Base64
import Two09.Share.Narinfo

/-!
# Key files

What `209 keygen` writes, and `signing_load_keyfile`, which reads it: one line of a name and one or two keys. The keys
themselves are made by a library.
-/

namespace Two09.Share

open Two09.Lib

/-! ### Writing -/

/-- `--out` and `--name` -/
structure KeygenOptions where
  outPath : Option Bytes
  name : Bytes

/-- The loop over the arguments, nothing for `--help`. -/
def keygenOptions : List Bytes → KeygenOptions → Option KeygenOptions
  | [], o => some o
  | [a], o => if a = ascii "--help" then none else some o
  | a :: b :: argv, o =>
    if a = ascii "--out" then keygenOptions argv { o with outPath := some b }
    else if a = ascii "--name" then keygenOptions argv { o with name := b }
    else if a = ascii "--help" then none
    else keygenOptions (b :: argv) o

/-- What comes of `209 keygen`, as long as the file can be opened. -/
inductive Keygen
  | help
  | failed
  | wrote (path : Option Bytes) (text : Bytes)

/-- `cmd_keygen`, with the public and the secret key of `signing_keygen` -/
def cmdKeygen (keys : Option (Bytes × Bytes)) (argv : List Bytes) : Keygen :=
  match keygenOptions argv ⟨none, ascii "209-local-1"⟩ with
  | none => .help
  | some o =>
    match keys with
    | none => .failed
    | some (pub, sec) =>
      .wrote o.outPath (o.name ++ ascii ":" ++ b64Encode pub ++ ascii ":" ++ b64Encode sec ++ ascii "\n")

/-! ### Reading -/

structure Keyfile where
  name : Bytes
  pub : Bytes
  sec : Bytes

/-- What precedes the first colon and what follows it. -/
def cutColon (s : Bytes) : Option (Bytes × Bytes) :=
  if colon ∈ s then some (s.takeWhile (· ≠ colon), (s.dropWhile (· ≠ colon)).tail) else none

/-- `signing_load_keyfile` on the bytes of the file if it can be opened, with the arrays for the keys and what the
library makes of a secret key: the name and the keys, or nothing for -1. None where an array is left. -/
def signingLoadKeyfile (derive : Bytes → Option Bytes) (file : Option Bytes) (outPub outSec : Bytes) :
    Option (Option Keyfile) := do
  let some content := file | return none
  let some line := (Install.fgetsLines 1023 [] content).head? | return none
  let line := (cstr line).rdropWhile fun c => c = 10 ∨ c = 13
  let some (name, rest) := cutColon line | return none
  let (pubB64, secB64) := match cutColon rest with
    | some (pub, sec) => (some pub, sec)
    | none => (none, rest)
  let (seclen, sec) ← b64Decode secB64 outSec 32
  if seclen ≠ some 32 then return none
  match pubB64 with
  | some pubB64 =>
    let (publen, pub) ← b64Decode pubB64 outPub 32
    if publen ≠ some 32 then return none
    return some ⟨name, pub, sec⟩
  | none =>
    let some pub := derive sec | return none
    return some ⟨name, pub, sec⟩

/-! ### The line -/

lemma cutColon_append {s : Bytes} (hs : colon ∉ s) (rest : Bytes) : cutColon (s ++ colon :: rest) = some (s, rest) := by
  have hall : ∀ c ∈ s, (decide (c ≠ colon)) = true := fun c hc => decide_eq_true fun h => hs (h ▸ hc)
  rw [cutColon, if_pos (List.mem_append_right _ List.mem_cons_self), List.takeWhile_append_of_pos hall,
    List.dropWhile_append_of_pos hall]
  simp

/-- The characters of a key are neither colons nor ends of lines nor ends of strings. -/
lemma of_mem_b64Encode {x : Bytes} {c : UInt8} (hc : c ∈ b64Encode x) : c ≠ 0 ∧ c ≠ 10 ∧ c ≠ 13 ∧ c ≠ colon := by
  rcases mem_b64Encode x c hc with ⟨v, hv⟩ | rfl
  · have hsome : (b64Val c).isSome = true := by rw [hv]; rfl
    refine ⟨?_, ?_, ?_, ?_⟩ <;> rintro rfl <;> exact absurd hsome (by decide)
  · decide

/-- The first line, whether its end is still read or not. -/
lemma head?_fgetsLines {n : ℕ} {line : Bytes} (hline : 10 ∉ line) (cur : Bytes) (hpos : 0 < line.length)
    (hlen : cur.length + line.length ≤ n) :
    ∃ e, (e = [10] ∨ e = []) ∧ (Install.fgetsLines n cur (line ++ [10])).head? = some (cur ++ line ++ e) := by
  induction line generalizing cur with
  | nil => simp at hpos
  | cons c line ih =>
    have hc : c ≠ 10 := fun h => hline (h ▸ List.mem_cons_self)
    have hrest : 10 ∉ line := fun h => hline (List.mem_cons_of_mem _ h)
    rw [List.cons_append, Install.fgetsLines]
    simp only [List.length_cons] at hlen
    rcases Nat.eq_zero_or_pos line.length with hzero | hmore
    · obtain rfl := List.length_eq_zero_iff.1 hzero
      by_cases hfull : (cur ++ [c]).length = n
      · rw [if_pos (.inr hfull)]
        exact ⟨[], .inr rfl, by simp⟩
      · rw [if_neg (by simp only [hc, hfull, or_self, not_false_eq_true]), List.nil_append, Install.fgetsLines,
          if_pos (.inl rfl)]
        exact ⟨[10], .inl rfl, rfl⟩
    · have hfull : (cur ++ [c]).length ≠ n := by
        rw [List.length_append, List.length_singleton]
        omega
      rw [if_neg (by simp only [hc, hfull, or_self, not_false_eq_true])]
      obtain ⟨e, he, hhead⟩ := ih hrest (cur ++ [c]) hmore (by rw [List.length_append, List.length_singleton]; omega)
      exact ⟨e, he, by rw [hhead, List.append_assoc cur]; rfl⟩

/-- The end of the line is stripped, and no more. -/
lemma rdropWhile_line (s : Bytes) {t e : Bytes} (he : e = [10] ∨ e = []) (ht : t ≠ []) (hplain : ∀ c ∈ t, c ≠ 10 ∧ c ≠ 13) :
    (s ++ t ++ e).rdropWhile (fun c => c = 10 ∨ c = 13) = s ++ t := by
  obtain ⟨init, c, rfl⟩ := (List.eq_nil_or_concat' t).resolve_left ht
  have hc := hplain c (List.mem_append_right _ List.mem_cons_self)
  have hkeep : (s ++ init ++ [c]).rdropWhile (fun c => c = 10 ∨ c = 13) = s ++ init ++ [c] :=
    List.rdropWhile_concat_neg _ _ _ (by simpa using hc)
  rw [← List.append_assoc]
  rcases he with rfl | rfl
  · rw [List.rdropWhile_concat_pos _ _ _ (by decide), hkeep]
  · rw [List.append_nil, hkeep]

/-- The line that is written is read back. -/
lemma signingLoadKeyfile_line (derive : Bytes → Option Bytes) {name pub sec outPub outSec : Bytes}
    (hname : ∀ c ∈ name, c ≠ 0 ∧ c ≠ 10 ∧ c ≠ colon) (hlen : name.length + 90 ≤ 1023) (hpub : pub.length = 32)
    (hsec : sec.length = 32) (houtPub : outPub.length = 32) (houtSec : outSec.length = 32) :
    signingLoadKeyfile derive
      (some (name ++ ascii ":" ++ b64Encode pub ++ ascii ":" ++ b64Encode sec ++ ascii "\n")) outPub outSec =
      some (some ⟨name, pub, sec⟩) := by
  have hlenPub : (b64Encode pub).length = 44 := by rw [length_b64Encode, hpub]
  have hlenSec : (b64Encode sec).length = 44 := by rw [length_b64Encode, hsec]
  have hnotMem : ∀ {x : Bytes}, colon ∉ b64Encode x := fun h => (of_mem_b64Encode h).2.2.2 rfl
  obtain ⟨line, hline⟩ : ∃ line, line = name ++ ascii ":" ++ b64Encode pub ++ ascii ":" ++ b64Encode sec := ⟨_, rfl⟩
  have hbytes : ∀ c ∈ line, c ≠ 0 ∧ c ≠ 10 := by
    rw [hline]
    simp only [List.mem_append]
    rintro c ((((hc | hc) | hc) | hc) | hc)
    · exact ⟨(hname c hc).1, (hname c hc).2.1⟩
    · obtain rfl := List.mem_singleton.1 hc
      decide
    · exact ⟨(of_mem_b64Encode hc).1, (of_mem_b64Encode hc).2.1⟩
    · obtain rfl := List.mem_singleton.1 hc
      decide
    · exact ⟨(of_mem_b64Encode hc).1, (of_mem_b64Encode hc).2.1⟩
  have hlineLen : line.length = name.length + 90 := by
    rw [hline]
    simp only [List.length_append, hlenPub, hlenSec]
    rfl
  obtain ⟨e, he, hhead⟩ := head?_fgetsLines (n := 1023) (fun h => (hbytes 10 h).2 rfl) [] (by omega)
    (by simpa [hlineLen] using hlen)
  have hcstr : cstr (line ++ e) = line ++ e := by
    refine cstr_eq_self fun h => ?_
    rcases List.mem_append.1 h with h | h
    · exact (hbytes 0 h).1 rfl
    · rcases he with rfl | rfl <;> simp at h
  have hstrip : (line ++ e).rdropWhile (fun c => c = 10 ∨ c = 13) = line := by
    rw [hline]
    exact rdropWhile_line _ he (List.ne_nil_of_length_pos (by omega)) fun c hc =>
      ⟨(of_mem_b64Encode hc).2.1, (of_mem_b64Encode hc).2.2.1⟩
  have hcut : cutColon line = some (name, b64Encode pub ++ colon :: b64Encode sec) := by
    rw [← cutColon_append fun h => (hname colon h).2.2 rfl, hline]
    simp [ascii, colon]
  have hdecSec := b64Decode_encode sec outSec 32 hsec.le houtSec.ge
  have hdecPub := b64Decode_encode pub outPub 32 hpub.le houtPub.ge
  rw [List.drop_of_length_le (by omega), List.append_nil, hsec] at hdecSec
  rw [List.drop_of_length_le (by omega), List.append_nil, hpub] at hdecPub
  rw [show name ++ ascii ":" ++ b64Encode pub ++ ascii ":" ++ b64Encode sec ++ ascii "\n" = line ++ [10] from hline ▸ rfl]
  simp only [signingLoadKeyfile, hhead, List.nil_append, hcstr, hstrip, hcut, cutColon_append hnotMem, hdecSec, hdecPub]
  rfl

/-- **Keys survive the key file.** Decoding gives back what was encoded wherever there is room for it, writes nothing
from the capacity on, and refuses what is foreign; and a name with neither colon nor newline, that leaves room for two
keys on one line, is read from the file of `209 keygen` with both keys. -/
theorem keygen_load :
    (∀ (x out : Bytes) (cap : ℕ), x.length ≤ cap → cap ≤ out.length →
      b64Decode (b64Encode x) out cap = some (some x.length, x ++ out.drop x.length)) ∧
    (∀ (str out : Bytes) (cap : ℕ), cap ≤ out.length → ∃ r out', b64Decode str out cap = some (r, out') ∧
      out'.length = out.length ∧ out'.drop cap = out.drop cap ∧ ((∃ c ∈ str, Foreign c) → r = none)) ∧
    ∀ (derive : Bytes → Option Bytes) (argv : List Bytes) (o : KeygenOptions) (pub sec outPub outSec : Bytes),
      keygenOptions argv ⟨none, ascii "209-local-1"⟩ = some o → pub.length = 32 → sec.length = 32 →
      outPub.length = 32 → outSec.length = 32 → (∀ c ∈ o.name, c ≠ 0 ∧ c ≠ 10 ∧ c ≠ colon) →
      o.name.length + 90 ≤ 1023 → ∃ text, cmdKeygen (some (pub, sec)) argv = .wrote o.outPath text ∧
        signingLoadKeyfile derive (some text) outPub outSec = some (some ⟨o.name, pub, sec⟩) := by
  refine ⟨b64Decode_encode, fun str out cap hcap => ?_, ?_⟩
  · obtain ⟨⟨ok, d⟩, hrun, hlen, hdrop, hforeign⟩ := b64Loop_spec str ⟨0, 0, out, 0⟩ hcap
    refine ⟨_, _, by rw [b64Decode, hrun]; rfl, hlen, hdrop, fun h => ?_⟩
    exact if_neg (by rw [hforeign h]; decide)
  · intro derive argv o pub sec outPub outSec ho hpub hsec houtPub houtSec hname hlen
    refine ⟨_, by rw [cmdKeygen, ho], ?_⟩
    exact signingLoadKeyfile_line derive hname hlen hpub hsec houtPub houtSec

theorem keygen_load_k :
    b64Decode (b64Encode [1, 2]) [0, 0, 0] 2 = some (some 2, [1, 2, 0]) ∧
    (∃ out, b64Decode (ascii "AQ*I") [0, 0, 0] 2 = some (none, out)) ∧
    ∃ text, cmdKeygen (some (List.replicate 32 1, List.replicate 32 2)) [ascii "--name", ascii "k"] = .wrote none text ∧
      signingLoadKeyfile (fun _ => none) (some text) (List.replicate 32 0) (List.replicate 32 0) =
        some (some ⟨ascii "k", List.replicate 32 1, List.replicate 32 2⟩) := by
  obtain ⟨hround, hany, hload⟩ := keygen_load
  refine ⟨hround [1, 2] [0, 0, 0] 2 (by decide) (by decide), ?_, ?_⟩
  · obtain ⟨r, out, hrun, -, -, hforeign⟩ := hany (ascii "AQ*I") [0, 0, 0] 2 (by decide)
    rw [hforeign ⟨42, by decide, by decide +kernel, by decide⟩] at hrun
    exact ⟨out, hrun⟩
  · have hname : ∀ c ∈ ascii "k", c ≠ 0 ∧ c ≠ 10 ∧ c ≠ colon := by
      intro c hc
      obtain rfl := List.mem_singleton.1 hc
      decide
    exact hload (fun _ => none) [ascii "--name", ascii "k"] ⟨none, ascii "k"⟩ (List.replicate 32 1) (List.replicate 32 2)
      (List.replicate 32 0) (List.replicate 32 0) rfl rfl rfl rfl rfl hname (by decide)

end Two09.Share
