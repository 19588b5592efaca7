import Two09.Lib.X86
import Mathlib

/-!
# The length of a call

`call_insn_length`, which finds where `dso` plants its breakpoint, as it is where no disassembler is built in.
-/

namespace Two09.Debag

open Two09.Lib.X86

attribute [local instance] neZeroFour neZeroEight

/-- The loop over the legacy prefixes, fourteen at most. -/
def skipLegacyPrefixes (insn : List UInt8) : ℕ :=
  ((insn.take 14).takeWhile fun b =>
    b == 0xF0 || b == 0xF2 || b == 0xF3 ||
    b == 0x2E || b == 0x36 || b == 0x3E || b == 0x26 ||
    b == 0x64 || b == 0x65 || b == 0x66 || b == 0x67).length

/-- Where the operand of a call ends, the bytes after the ModRM byte being at `p`: nothing if its SIB byte is
not there. -/
def operandEnd (insn : List UInt8) (mod rm p : ℕ) : Option ℕ :=
  if mod ≠ 3 ∧ rm = 4 then
    match insn[p]? with
    | none => none
    | some sib =>
      let base := sib.toNat % 8
      if mod = 0 ∧ base = 5 then some (p + 1 + 4) else some (p + 1)
  else if mod = 0 ∧ rm = 5 then some (p + 4)
  else if mod = 1 then some (p + 1)
  else if mod = 2 then some (p + 4)
  else some p

/-- The length once the opcode is known. -/
def opcodeLength (insn : List UInt8) (op : UInt8) (afterOp : ℕ) : ℤ :=
  if op = 0xE8 then
    if afterOp + 4 > insn.length then -1 else (afterOp + 4 : ℕ)
  else if op = 0xFF then
    match insn[afterOp]? with
    | none => -1
    | some modrm =>
      let reg := modrm.toNat / 8 % 8
      let mod := modrm.toNat / 64
      let rm := modrm.toNat % 8
      if reg ≠ 2 ∧ reg ≠ 3 then 0
      else
        match operandEnd insn mod rm (afterOp + 1) with
        | none => -1
        | some p => if p > insn.length then -1 else (p : ℕ)
  else 0

/-- `call_insn_length`: the length of a call, nothing for another instruction, `-1` without enough bytes. -/
def callInsnLength (insn : List UInt8) : ℤ :=
  let i := skipLegacyPrefixes insn
  match insn[i]? with
  | none => -1
  | some b =>
    let i := if b.toNat / 16 = 4 then i + 1 else i
    match insn[i]? with
    | none => -1
    | some op => opcodeLength insn op (i + 1)

/-! ### What it is to return -/

/-- The length of a call, and nothing for another instruction. -/
def callLengthOf (i : Insn) : ℤ := if i.body.IsCall then i.bytes.length else 0

/-- The decoder is exact on a buffer: it returns what it is to return, or that the bytes are not enough where
the buffer ends inside the instruction. -/
def DecodesExactly (i : Insn) (buf : List UInt8) : Prop :=
  callInsnLength buf = callLengthOf i ∨ callInsnLength buf = -1 ∧ buf.length < i.bytes.length

instance (i : Insn) (buf : List UInt8) : Decidable (DecodesExactly i buf) := inferInstanceAs (Decidable (_ ∨ _))

/-- A call through memory whose operand has a displacement behind its SIB byte, with a base. -/
def SibThenDisp : Body → Prop
  | .groupFF o => (o.reg = 2 ∨ o.reg = 3) ∧ (o.mod = 1 ∨ o.mod = 2) ∧ o.rm = 4
  | _ => False

/-! ### The prefixes -/

section Prefixes

variable {i : Insn} {t : List UInt8}

/-- The test of the loop is that of a legacy prefix. -/
lemma skipLegacyPrefixes_eq (insn : List UInt8) :
    skipLegacyPrefixes insn = ((insn.take 14).takeWhile fun b => decide (b ∈ legacyPrefixes)).length := by
  unfold skipLegacyPrefixes
  congr 2
  funext b
  simp only [legacyPrefixes, List.mem_cons, List.not_mem_nil, or_false, beq_eq_decide, Bool.decide_or,
    Bool.or_assoc]

lemma length_prefixes_le (i : Insn) : i.prefixes.length ≤ 14 := by
  have := i.length_le
  omega

lemma takeWhile_prefixes (i : Insn) (t : List UInt8) (h : ∀ b ∈ t.head?, b ∉ legacyPrefixes) :
    ((i.prefixes ++ t).take 14).takeWhile (fun b => decide (b ∈ legacyPrefixes)) = i.prefixes := by
  have hlen := length_prefixes_le i
  have hall : ∀ b ∈ i.prefixes, decide (b ∈ legacyPrefixes) = true := by
    simpa using i.mem_prefixes
  rw [List.take_append, List.take_of_length_le hlen, List.takeWhile_append_of_pos hall]
  cases t with
  | nil => simp
  | cons b t =>
    have hb : b ∉ legacyPrefixes := h b rfl
    cases hn : 14 - i.prefixes.length <;> simp [hb]

lemma skip_prefixes (i : Insn) (t : List UInt8) (h : ∀ b ∈ t.head?, b ∉ legacyPrefixes) :
    skipLegacyPrefixes (i.prefixes ++ t) = i.prefixes.length := by
  rw [skipLegacyPrefixes_eq, takeWhile_prefixes i t h]

/-- A buffer that ends among the legacy prefixes. -/
lemma callInsnLength_take_prefixes (i : Insn) (k : ℕ) : callInsnLength (i.prefixes.take k) = -1 := by
  have hlen : (i.prefixes.take k).length ≤ 14 := (List.length_take_le' _ _).trans (length_prefixes_le i)
  have hall : ∀ b ∈ i.prefixes.take k, decide (b ∈ legacyPrefixes) = true := by
    intro b hb
    simpa using i.mem_prefixes b (List.mem_of_mem_take hb)
  have hskip : skipLegacyPrefixes (i.prefixes.take k) = (i.prefixes.take k).length := by
    rw [skipLegacyPrefixes_eq, List.take_of_length_le hlen, List.takeWhile_eq_self_iff.2 hall]
  simp [callInsnLength, hskip]

/-- A buffer that ends before the opcode. -/
lemma callInsnLength_take_head (i : Insn) (k : ℕ) : callInsnLength (i.head.take k) = -1 := by
  cases hrex : i.rex with
  | none =>
    have hhead : i.head = i.prefixes := by simp [Insn.head, hrex]
    rw [hhead]
    exact callInsnLength_take_prefixes i k
  | some r =>
    have hhead : i.head = i.prefixes ++ [r] := by simp [Insn.head, hrex]
    have hr : r.toNat / 16 = 4 := i.isRex_rex r (by simp [hrex])
    rw [hhead]
    rcases Nat.lt_or_ge i.prefixes.length k with hk | hk
    · rw [List.take_of_length_le (by rw [List.length_append]; exact hk)]
      unfold callInsnLength
      rw [skip_prefixes i [r] (by simpa using isRex_notMem_prefixes hr)]
      simp [hr]
    · rw [List.take_append_of_le_length hk]
      exact callInsnLength_take_prefixes i k

/-- A buffer that reaches the opcode. -/
lemma callInsnLength_of_opcode (i : Insn) (t : List UInt8) :
    callInsnLength (i.head ++ i.body.opcode :: t) =
      opcodeLength (i.head ++ i.body.opcode :: t) i.body.opcode (i.head.length + 1) := by
  have hop := opcode_notMem_prefixes i.body
  have hrexop : ¬ i.body.opcode.toNat / 16 = 4 := opcode_not_isRex i.body
  unfold callInsnLength
  cases hrex : i.rex with
  | none =>
    have hhead : i.head = i.prefixes := by simp [Insn.head, hrex]
    rw [hhead, skip_prefixes i _ (by simpa using hop)]
    simp [hrexop]
  | some r =>
    have hr : r.toNat / 16 = 4 := i.isRex_rex r (by simp [hrex])
    have hhead : i.head ++ i.body.opcode :: t = i.prefixes ++ r :: i.body.opcode :: t := by
      simp [Insn.head, hrex]
    have hlen : i.head.length = i.prefixes.length + 1 := by simp [Insn.head, hrex]
    rw [hhead, skip_prefixes i _ (by simpa using isRex_notMem_prefixes hr), hlen]
    simp [hr]

end Prefixes

/-! ### The operand -/

section Operand

variable (o : Operand) {pre t : List UInt8}

/-- The opcode `FF` before a buffer with its ModRM byte. -/
lemma opcodeLength_groupFF (pre t : List UInt8) :
    opcodeLength (pre ++ 0xFF :: o.modrm :: t) 0xFF (pre.length + 1) =
      if o.reg ≠ 2 ∧ o.reg ≠ 3 then 0
      else
        match operandEnd (pre ++ 0xFF :: o.modrm :: t) o.mod o.rm (pre.length + 2) with
        | none => -1
        | some p => if p > pre.length + 2 + t.length then -1 else (p : ℕ) := by
  have hmodrm : (pre ++ 0xFF :: o.modrm :: t)[pre.length + 1]? = some o.modrm := by
    rw [List.getElem?_append_right (by omega)]
    simp
  have hlen : (pre ++ 0xFF :: o.modrm :: t).length = pre.length + 2 + t.length := by
    simp
    omega
  have hreg : ((o.reg : ℕ) ≠ 2 ∧ (o.reg : ℕ) ≠ 3) ↔ (o.reg ≠ 2 ∧ o.reg ≠ 3) := by
    simp only [ne_eq, Fin.ext_iff]
    rfl
  rw [opcodeLength, if_neg (by decide), if_pos rfl, hmodrm]
  simp only [o.modrm_reg, o.modrm_mod, o.modrm_rm, hlen, hreg]

/-- Where the operand ends by the decoder, if its SIB byte is there: the displacement is counted but where it
follows an SIB byte with a base. -/
lemma operandEnd_eq {insn : List UInt8} {p : ℕ} (h : ∀ s ∈ o.sib, insn[p]? = some s.byte) :
    operandEnd insn o.mod o.rm p =
      some (p + o.sibBytes.length + if (o.mod = 1 ∨ o.mod = 2) ∧ o.rm = 4 then 0 else o.disp.length) := by
  have hmod : o.mod = 0 ∨ o.mod = 1 ∨ o.mod = 2 ∨ o.mod = 3 := by omega
  have hrm5 : (o.rm : ℕ) = 5 ↔ o.rm = 5 := by omega
  have hhas : ((o.mod : ℕ) ≠ 3 ∧ (o.rm : ℕ) = 4) ↔ o.sib.isSome := by
    rw [o.isSome_sib, HasSib]
    omega
  have hdisp := o.length_disp
  unfold operandEnd
  simp only [hhas]
  cases hsib : o.sib with
  | none =>
    have hno : ¬ ((o.mod = 1 ∨ o.mod = 2) ∧ o.rm = 4) := by
      have := o.isSome_sib
      simp only [hsib, HasSib] at this
      simp only [Option.isSome_none, Bool.false_eq_true, false_iff, not_and] at this
      rintro ⟨hm | hm, hr⟩ <;> exact this (by rw [hm]; decide) hr
    rw [hsib] at hdisp
    rw [if_neg (by simp), if_neg hno, hdisp]
    simp only [hrm5]
    rcases hmod with hm | hm | hm | hm
    · by_cases hr : o.rm = 5 <;> simp [hm, dispSize, Operand.sibBytes, hsib, hr]
    · simp [hm, dispSize, Operand.sibBytes, hsib]
    · simp [hm, dispSize, Operand.sibBytes, hsib]
    · have hval : ((3 : Fin 4) : ℕ) = 3 := rfl
      simp [hm, hval, dispSize, Operand.sibBytes, hsib]
  | some s =>
    have hhas' := o.isSome_sib
    simp only [hsib, Option.isSome_some, true_iff, HasSib] at hhas'
    obtain ⟨hm3, hr⟩ := hhas'
    rw [hsib] at hdisp
    rw [if_pos (by simp), h s hsib]
    simp only [s.byte_base]
    rcases hmod with hm | hm | hm | hm
    · by_cases hb : s.base = 5
      · have hval : ((5 : Fin 8) : ℕ) = 5 := rfl
        simp [hm, hr, hb, hval, dispSize, Operand.sibBytes, hsib, hdisp]
      · have hb' : ¬ (s.base : ℕ) = 5 := by omega
        simp [hm, hr, hb, hb', dispSize, Operand.sibBytes, hsib, hdisp]
    · simp [hm, hr, Operand.sibBytes, hsib]
    · simp [hm, hr, Operand.sibBytes, hsib]
    · exact absurd hm hm3

/-- The decoder on a call whose operand is in the buffer up to its displacement. -/
lemma opcodeLength_of_sib (hcall : o.reg = 2 ∨ o.reg = 3) (pre u : List UInt8) :
    opcodeLength (pre ++ 0xFF :: o.modrm :: (o.sibBytes ++ u)) 0xFF (pre.length + 1) =
      if (o.mod = 1 ∨ o.mod = 2) ∧ o.rm = 4 then ((pre.length + 2 + o.sibBytes.length : ℕ) : ℤ)
      else if o.disp.length > u.length then -1
      else ((pre.length + 2 + o.sibBytes.length + o.disp.length : ℕ) : ℤ) := by
  have hsib : ∀ s ∈ o.sib, (pre ++ 0xFF :: o.modrm :: (o.sibBytes ++ u))[pre.length + 2]? = some s.byte := by
    intro s hs
    rw [List.getElem?_append_right (by omega)]
    simp [Operand.sibBytes, Option.mem_def.1 hs]
  rw [opcodeLength_groupFF, if_neg (by tauto), operandEnd_eq o hsib, List.length_append]
  by_cases hbug : (o.mod = 1 ∨ o.mod = 2) ∧ o.rm = 4
  · simp only [if_pos hbug]
    rw [if_neg (by omega), Nat.add_zero]
  · simp only [if_neg hbug]
    by_cases hlen : o.disp.length > u.length
    · rw [if_pos hlen, if_pos (by omega)]
    · rw [if_neg hlen, if_neg (by omega)]

/-- The decoder on a call whose SIB byte is not in the buffer. -/
lemma opcodeLength_of_no_sib (hcall : o.reg = 2 ∨ o.reg = 3) (hsome : o.sib.isSome) (pre : List UInt8) :
    opcodeLength (pre ++ [0xFF, o.modrm]) 0xFF (pre.length + 1) = -1 := by
  have hhas := o.isSome_sib.1 hsome
  have hcond : (o.mod : ℕ) ≠ 3 ∧ (o.rm : ℕ) = 4 := by
    unfold HasSib at hhas
    omega
  have hend : operandEnd (pre ++ [0xFF, o.modrm]) o.mod o.rm (pre.length + 2) = none := by
    rw [operandEnd, if_pos hcond, List.getElem?_eq_none (by simp)]
  rw [opcodeLength_groupFF, if_neg (by tauto), hend]

end Operand

/-! ### The whole instruction -/

section Insn

variable (i : Insn) (rest : List UInt8) (n : ℕ)

/-- A buffer with the opcode, and what there is in it of the rest. -/
lemma take_bytes (h : i.head.length < n) :
    (i.bytes ++ rest).take n =
      i.head ++ i.body.opcode :: (i.body.tail ++ rest).take (n - i.head.length - 1) := by
  obtain ⟨m, rfl⟩ := Nat.exists_eq_add_of_lt h
  rw [Insn.bytes, List.append_assoc, List.cons_append, List.take_append, List.take_of_length_le (by omega)]
  simp [show i.head.length + m + 1 - i.head.length = m + 1 by omega]

/-- A buffer without the opcode. -/
lemma decodesExactly_of_short (h : n ≤ i.head.length) : DecodesExactly i ((i.bytes ++ rest).take n) := by
  have htake : (i.bytes ++ rest).take n = i.head.take n := by
    rw [Insn.bytes, List.append_assoc, List.take_append_of_le_length h]
  rw [htake]
  refine .inr ⟨callInsnLength_take_head i n, ?_⟩
  rw [i.length_bytes, List.length_take]
  omega

variable {i} {t u : List UInt8}

lemma decodesExactly_iff_opcodeLength (t : List UInt8) :
    DecodesExactly i (i.head ++ i.body.opcode :: t) ↔
      opcodeLength (i.head ++ i.body.opcode :: t) i.body.opcode (i.head.length + 1) = callLengthOf i ∨
        opcodeLength (i.head ++ i.body.opcode :: t) i.body.opcode (i.head.length + 1) = -1 ∧
          t.length < i.body.tail.length := by
  have hlen : (i.head ++ i.body.opcode :: t).length < i.bytes.length ↔ t.length < i.body.tail.length := by
    rw [i.length_bytes, List.length_append, List.length_cons]
    omega
  rw [DecodesExactly, callInsnLength_of_opcode, hlen]

lemma callLengthOf_of_isCall (h : i.body.IsCall) :
    callLengthOf i = ((i.head.length + 1 + i.body.tail.length : ℕ) : ℤ) := by
  rw [callLengthOf, if_pos h, i.length_bytes]

/-- A near call with its target in the instruction. -/
lemma decodesExactly_callRel {rel hrel} (hbody : i.body = .callRel rel hrel) (t : List UInt8) :
    DecodesExactly i (i.head ++ i.body.opcode :: t) := by
  have htail : i.body.tail.length = 4 := by rw [hbody]; exact hrel
  have hcall : i.body.IsCall := by rw [hbody]; trivial
  have hop : i.body.opcode = 0xE8 := by rw [hbody]; rfl
  rw [decodesExactly_iff_opcodeLength, callLengthOf_of_isCall hcall, htail, hop, opcodeLength, if_pos rfl,
    List.length_append, List.length_cons]
  by_cases hlen : t.length < 4
  · exact .inr ⟨if_pos (by omega), hlen⟩
  · exact .inl (if_neg (by omega))

/-- Another opcode. -/
lemma decodesExactly_other {op bytes h₁ h₂ h₃ h₄} (hbody : i.body = .other op bytes h₁ h₂ h₃ h₄)
    (t : List UInt8) : DecodesExactly i (i.head ++ i.body.opcode :: t) := by
  have hcall : ¬ i.body.IsCall := by rw [hbody]; exact id
  have hop : i.body.opcode = op := by rw [hbody]; rfl
  rw [decodesExactly_iff_opcodeLength, callLengthOf, if_neg hcall, hop, opcodeLength, if_neg h₃, if_neg h₄]
  exact .inl rfl

variable {o : Operand}

/-- The opcode `FF` without its ModRM byte. -/
lemma decodesExactly_groupFF_nil (hbody : i.body = .groupFF o) :
    DecodesExactly i (i.head ++ i.body.opcode :: []) := by
  have hop : i.body.opcode = 0xFF := by rw [hbody]; rfl
  have htail : 0 < i.body.tail.length := by
    rw [hbody]
    exact Nat.zero_lt_succ _
  rw [decodesExactly_iff_opcodeLength]
  refine .inr ⟨?_, htail⟩
  rw [hop, opcodeLength, if_neg (by decide), if_pos rfl, List.getElem?_eq_none (by simp)]

/-- The opcode `FF` of another instruction than a call. -/
lemma decodesExactly_groupFF_other (hbody : i.body = .groupFF o) (hcall : ¬ (o.reg = 2 ∨ o.reg = 3))
    (t : List UInt8) : DecodesExactly i (i.head ++ i.body.opcode :: o.modrm :: t) := by
  have hop : i.body.opcode = 0xFF := by rw [hbody]; rfl
  have hnot : ¬ i.body.IsCall := by rw [hbody]; exact hcall
  rw [decodesExactly_iff_opcodeLength, callLengthOf, if_neg hnot, hop, opcodeLength_groupFF, if_pos (by tauto)]
  exact .inl rfl

/-- A call without its SIB byte. -/
lemma decodesExactly_groupFF_no_sib (hbody : i.body = .groupFF o) (hcall : o.reg = 2 ∨ o.reg = 3)
    (hsome : o.sib.isSome) : DecodesExactly i (i.head ++ i.body.opcode :: [o.modrm]) := by
  have hop : i.body.opcode = 0xFF := by rw [hbody]; rfl
  have htail : 1 < i.body.tail.length := by
    obtain ⟨s, hs⟩ := Option.isSome_iff_exists.1 hsome
    rw [hbody]
    simp [Body.tail, Operand.bytes, Operand.sibBytes, hs]
  rw [decodesExactly_iff_opcodeLength]
  refine .inr ⟨?_, htail⟩
  rw [hop]
  exact opcodeLength_of_no_sib o hcall hsome i.head

/-- A call with its SIB byte, if it has one: the displacement behind it is forgotten. -/
lemma decodesExactly_groupFF_sib (hbody : i.body = .groupFF o) (hcall : o.reg = 2 ∨ o.reg = 3)
    (u : List UInt8) :
    DecodesExactly i (i.head ++ i.body.opcode :: o.modrm :: (o.sibBytes ++ u)) ↔ ¬ SibThenDisp i.body := by
  have hop : i.body.opcode = 0xFF := by rw [hbody]; rfl
  have hisCall : i.body.IsCall := by rw [hbody]; exact hcall
  have htail : i.body.tail.length = 1 + o.sibBytes.length + o.disp.length := by
    rw [hbody]
    simp only [Body.tail, Operand.bytes, List.length_cons, List.length_append]
    omega
  have hbug : SibThenDisp i.body ↔ (o.mod = 1 ∨ o.mod = 2) ∧ o.rm = 4 := by
    rw [hbody]
    exact ⟨fun h => h.2, fun h => ⟨hcall, h⟩⟩
  rw [decodesExactly_iff_opcodeLength, callLengthOf_of_isCall hisCall, htail, hop,
    opcodeLength_of_sib o hcall, hbug, List.length_cons, List.length_append]
  by_cases h : (o.mod = 1 ∨ o.mod = 2) ∧ o.rm = 4
  · have hdisp : 0 < o.disp.length := by
      rw [o.length_disp]
      rcases h.1 with hm | hm <;> simp [hm, dispSize]
    rw [if_pos h]
    refine iff_of_false ?_ (not_not.2 h)
    omega
  · rw [if_neg h]
    refine iff_of_true ?_ h
    by_cases hlen : o.disp.length > u.length
    · rw [if_pos hlen]
      exact .inr ⟨rfl, by omega⟩
    · rw [if_neg hlen]
      left
      omega

end Insn

/-- **The length of a call is exact** for every instruction, and for every buffer that starts with it or ends
inside it, but where the operand of the call has a displacement behind its SIB byte and the buffer has that byte. -/
theorem decodesExactly_iff (i : Insn) (rest : List UInt8) (n : ℕ) :
    DecodesExactly i ((i.bytes ++ rest).take n) ↔
      (SibThenDisp i.body → ((i.bytes ++ rest).take n).length < i.head.length + 3) := by
  rcases Nat.lt_or_ge i.head.length n with hn | hn
  swap
  · refine iff_of_true (decodesExactly_of_short i rest n hn) fun _ => ?_
    rw [List.length_take]
    omega
  rw [take_bytes i rest n hn]
  cases hbody : i.body with
  | callRel rel hrel =>
    rw [← hbody]
    refine iff_of_true (decodesExactly_callRel hbody _) fun h => ?_
    rw [hbody] at h
    exact h.elim
  | other op bytes h₁ h₂ h₃ h₄ =>
    rw [← hbody]
    refine iff_of_true (decodesExactly_other hbody _) fun h => ?_
    rw [hbody] at h
    exact h.elim
  | groupFF o =>
    rw [← hbody]
    have htail : i.body.tail = o.modrm :: (o.sibBytes ++ o.disp) := by rw [hbody]; rfl
    rw [htail]
    cases hm : n - i.head.length - 1 with
    | zero =>
      rw [List.take_zero]
      refine iff_of_true (decodesExactly_groupFF_nil hbody) fun _ => ?_
      simp
    | succ m =>
      rw [List.cons_append, List.take_succ_cons, List.append_assoc]
      by_cases hcall : o.reg = 2 ∨ o.reg = 3
      swap
      · refine iff_of_true (decodesExactly_groupFF_other hbody hcall _) fun h => ?_
        rw [hbody] at h
        exact absurd h.1 hcall
      have hsib : o.sibBytes.length = if o.sib.isSome then 1 else 0 := by
        cases hs : o.sib <;> simp [Operand.sibBytes, hs]
      by_cases hfits : o.sibBytes.length ≤ m
      · rw [List.take_append, List.take_of_length_le hfits, decodesExactly_groupFF_sib hbody hcall]
        refine ⟨fun h h' => absurd h' h, fun h hbug => ?_⟩
        have hshort := h hbug
        have hone : o.sibBytes.length = 1 := by
          rw [hbody] at hbug
          rw [hsib, if_pos]
          refine o.isSome_sib.2 ⟨?_, hbug.2.2⟩
          rcases hbug.2.1 with hmod | hmod <;> rw [hmod] <;> decide
        simp only [List.length_append, List.length_cons] at hshort
        omega
      · have hsome : o.sib.isSome := by
          by_contra hno
          rw [if_neg hno] at hsib
          omega
        obtain rfl : m = 0 := by
          rw [if_pos hsome] at hsib
          omega
        rw [List.take_zero]
        refine iff_of_true (decodesExactly_groupFF_no_sib hbody hcall hsome) fun _ => ?_
        simp

/-- `call [rsp+8]` takes four bytes. -/
def callRspDisp8 : Insn where
  prefixes := []
  rex := none
  body := .groupFF ⟨1, 2, 4, some ⟨0, 4, 4⟩, [8], by decide, rfl⟩
  mem_prefixes := by simp
  isRex_rex := by simp
  length_le := by decide

/-- The decoder finds three. -/
theorem callRspDisp8_short :
    callRspDisp8.bytes = [0xFF, 0x54, 0x24, 0x08] ∧ callInsnLength callRspDisp8.bytes = 3 ∧
      ¬ DecodesExactly callRspDisp8 callRspDisp8.bytes := by
  decide

end Two09.Debag
