import Mathlib.Tactic.Common
import Mathlib.Data.List.Basic
import Mathlib.Data.Nat.Bitwise

/-!
# The instruction format of x86-64

Legacy prefixes, a REX prefix, an opcode and, after `FF`, a ModRM byte with its SIB byte and displacement.
-/

namespace Two09.Lib.X86

/-- The legacy prefixes: lock and repeat, segment overrides, operand size and address size. -/
def legacyPrefixes : List UInt8 := [0xF0, 0xF2, 0xF3, 0x2E, 0x36, 0x3E, 0x26, 0x64, 0x65, 0x66, 0x67]

/-- A REX prefix. -/
def IsRex (b : UInt8) : Prop := b.toNat / 16 = 4

instance : DecidablePred IsRex := fun b => inferInstanceAs (Decidable (b.toNat / 16 = 4))

lemma neZeroFour : NeZero 4 := inferInstance

lemma neZeroEight : NeZero 8 := inferInstance

attribute [local instance] neZeroFour neZeroEight

/-- Whether a SIB byte follows. -/
def HasSib (mod : Fin 4) (rm : Fin 8) : Prop := mod ≠ 3 ∧ rm = 4

instance (mod : Fin 4) (rm : Fin 8) : Decidable (HasSib mod rm) := inferInstanceAs (Decidable (_ ∧ _))

/-- The size of the displacement: none or, without a base, four bytes; one byte; four bytes; none for a register. -/
def dispSize (mod : Fin 4) (rm : Fin 8) (base : Option (Fin 8)) : ℕ :=
  match mod with
  | 0 => if rm = 5 ∨ base = some 5 then 4 else 0
  | 1 => 1
  | 2 => 4
  | 3 => 0

/-- An SIB byte. -/
structure Sib where
  scale : Fin 4
  index : Fin 8
  base : Fin 8
  deriving DecidableEq

def Sib.byte (s : Sib) : UInt8 := .ofNat (s.scale * 64 + s.index * 8 + s.base)

/-- An operand with its ModRM byte. -/
structure Operand where
  mod : Fin 4
  reg : Fin 8
  rm : Fin 8
  sib : Option Sib
  disp : List UInt8
  isSome_sib : sib.isSome ↔ HasSib mod rm
  length_disp : disp.length = dispSize mod rm (sib.map Sib.base)

namespace Operand

def modrm (o : Operand) : UInt8 := .ofNat (o.mod * 64 + o.reg * 8 + o.rm)

def sibBytes (o : Operand) : List UInt8 := (o.sib.map Sib.byte).toList

def bytes (o : Operand) : List UInt8 := o.modrm :: (o.sibBytes ++ o.disp)

end Operand

/-- What follows the prefixes. -/
inductive Body
  | /-- `E8 rel32` -/
    callRel (rel : List UInt8) (length_rel : rel.length = 4)
  | /-- `FF` with any operand: `/2` and `/3` are calls. -/
    groupFF (operand : Operand)
  | /-- Any other opcode, with what belongs to it. -/
    other (op : UInt8) (rest : List UInt8) (not_legacy : op ∉ legacyPrefixes) (not_rex : ¬ IsRex op)
      (not_call : op ≠ 0xE8) (not_groupFF : op ≠ 0xFF)

namespace Body

def opcode : Body → UInt8
  | callRel _ _ => 0xE8
  | groupFF _ => 0xFF
  | other op _ _ _ _ _ => op

/-- The bytes after the opcode. -/
def tail : Body → List UInt8
  | callRel rel _ => rel
  | groupFF o => o.bytes
  | other _ rest _ _ _ _ => rest

def IsCall : Body → Prop
  | callRel _ _ => True
  | groupFF o => o.reg = 2 ∨ o.reg = 3
  | other _ _ _ _ _ _ => False

instance : DecidablePred IsCall
  | callRel _ _ => inferInstanceAs (Decidable True)
  | groupFF _ => inferInstanceAs (Decidable (_ ∨ _))
  | other _ _ _ _ _ _ => inferInstanceAs (Decidable False)

end Body

/-- An instruction. -/
structure Insn where
  prefixes : List UInt8
  rex : Option UInt8
  body : Body
  mem_prefixes : ∀ b ∈ prefixes, b ∈ legacyPrefixes
  isRex_rex : ∀ b ∈ rex, IsRex b
  length_le : prefixes.length + rex.toList.length + 1 + body.tail.length ≤ 15

namespace Insn

/-- The bytes before the opcode. -/
def head (i : Insn) : List UInt8 := i.prefixes ++ i.rex.toList

def bytes (i : Insn) : List UInt8 := i.head ++ i.body.opcode :: i.body.tail

lemma length_bytes (i : Insn) : i.bytes.length = i.head.length + 1 + i.body.tail.length := by
  simp [bytes]
  omega

end Insn

/-! ### Reading the bytes back -/

lemma opcode_notMem_prefixes (b : Body) : b.opcode ∉ legacyPrefixes := by
  cases b with
  | callRel => simp [Body.opcode, legacyPrefixes]
  | groupFF => simp [Body.opcode, legacyPrefixes]
  | other op rest hprefix => exact hprefix

lemma opcode_not_isRex (b : Body) : ¬ IsRex b.opcode := by
  cases b with
  | callRel => simp [Body.opcode, IsRex]
  | groupFF => simp [Body.opcode, IsRex]
  | other op rest hprefix hrex => exact hrex

/-- A REX prefix is no legacy prefix. -/
lemma isRex_notMem_prefixes {b : UInt8} (h : IsRex b) : b ∉ legacyPrefixes := by
  rintro hb
  revert h
  simp only [legacyPrefixes, List.mem_cons, List.not_mem_nil, or_false] at hb
  rcases hb with rfl | rfl | rfl | rfl | rfl | rfl | rfl | rfl | rfl | rfl | rfl <;> decide

namespace Operand

variable (o : Operand)

lemma toNat_modrm : o.modrm.toNat = o.mod * 64 + o.reg * 8 + o.rm := by
  have := o.mod.isLt; have := o.reg.isLt; have := o.rm.isLt
  simp only [modrm, UInt8.toNat_ofNat']
  omega

lemma modrm_mod : o.modrm.toNat / 64 = o.mod := by
  have := o.reg.isLt; have := o.rm.isLt
  rw [toNat_modrm]
  omega

lemma modrm_reg : o.modrm.toNat / 8 % 8 = o.reg := by
  have := o.reg.isLt; have := o.rm.isLt
  rw [toNat_modrm]
  omega

lemma modrm_rm : o.modrm.toNat % 8 = o.rm := by
  have := o.rm.isLt
  rw [toNat_modrm]
  omega

end Operand

lemma Sib.byte_base (s : Sib) : s.byte.toNat % 8 = s.base := by
  have := s.base.isLt; have := s.index.isLt; have := s.scale.isLt
  simp only [Sib.byte, UInt8.toNat_ofNat']
  omega

end Two09.Lib.X86
