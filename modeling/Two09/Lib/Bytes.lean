import Mathlib

/-!
# Byte strings

Byte strings as the C code handles them: literals, the C string view of a buffer (what precedes
the first NUL), decimal numbers, and big-endian 64-bit lengths.
-/

namespace Two09.Lib

/-- A byte string. -/
abbrev Bytes := List UInt8

instance (b : Bytes) (bs : List Bytes) : Decidable (b ∈ bs) := inferInstance

/-- The bytes of an ASCII literal. -/
def ascii (s : String) : Bytes := s.toList.map fun c => UInt8.ofNat c.toNat

/-- What a `char *` that points at the buffer denotes: the bytes before the first NUL. -/
def cstr (b : Bytes) : Bytes := b.takeWhile (· ≠ 0)

lemma cstr_eq_self {b : Bytes} (h : (0 : UInt8) ∉ b) : cstr b = b := by
  refine List.takeWhile_eq_self_iff.2 fun x hx => ?_
  have : x ≠ 0 := fun h0 => h (h0 ▸ hx)
  simpa using this

lemma zero_notMem_cstr (b : Bytes) : (0 : UInt8) ∉ cstr b := by
  intro h
  have := List.mem_takeWhile_imp h
  simp at this

lemma length_cstr_le (b : Bytes) : (cstr b).length ≤ b.length :=
  (List.takeWhile_prefix _).length_le

/-! ### Decimal numbers -/

/-- `%d` of a natural number. -/
def decimal (n : Nat) : Bytes :=
  if n = 0 then ascii "0" else (Nat.digits 10 n).reverse.map fun d => UInt8.ofNat (48 + d)

/-- `%ld` -/
def signedDecimal (n : Int) : Bytes := if n < 0 then 45 :: decimal n.natAbs else decimal n.natAbs

lemma decimal_ne_nil (n : Nat) : decimal n ≠ [] := by
  unfold decimal
  split_ifs with hn
  · exact List.cons_ne_nil _ _
  · simpa using mt Nat.digits_eq_nil_iff_eq_zero.1 hn

lemma digit_of_mem_decimal {n : Nat} {c : UInt8} (hc : c ∈ decimal n) : 48 ≤ c ∧ c ≤ 57 := by
  have hdigit : ∀ d < 10, 48 ≤ UInt8.ofNat (48 + d) ∧ UInt8.ofNat (48 + d) ≤ 57 := by decide
  unfold decimal at hc
  split_ifs at hc with hn
  · obtain rfl := List.mem_singleton.1 hc
    decide
  · obtain ⟨d, hd, rfl⟩ := List.mem_map.1 hc
    exact hdigit d (Nat.digits_lt_base (by norm_num) (List.mem_reverse.1 hd))

/-- **A decimal number reads back.** -/
lemma foldl_decimal (n : Nat) : (decimal n).foldl (fun v c => v * 10 + (c.toNat - 48)) 0 = n := by
  have hdigits : ∀ n, (Nat.digits 10 n).foldr (fun d v => v * 10 + ((UInt8.ofNat (48 + d)).toNat - 48)) 0 = n := by
    intro n
    induction n using Nat.strong_induction_on with
    | _ n ih =>
      rcases Nat.eq_zero_or_pos n with rfl | hpos
      · rfl
      · have hdigit : (UInt8.ofNat (48 + n % 10)).toNat = 48 + n % 10 := Nat.mod_eq_of_lt (by omega)
        rw [Nat.digits_def' (by omega) hpos, List.foldr_cons, ih (n / 10) (by omega), hdigit]
        omega
  unfold decimal
  split_ifs with hzero
  · rw [hzero]
    rfl
  · rw [List.foldl_map, List.foldl_reverse]
    exact hdigits n

/-! ### Big-endian lengths -/

/-- The `w` big-endian base-256 digits of `n`, the most significant first. -/
def beDigits : Nat → Nat → Bytes
  | 0, _ => []
  | w + 1, n => beDigits w (n / 256) ++ [UInt8.ofNat (n % 256)]

/-- The value of a big-endian byte string: `v = (v << 8) | b` over its bytes. -/
def beValue (b : Bytes) : Nat := b.foldl (fun v x => v * 256 + x.toNat) 0

@[simp] lemma length_beDigits (w n : Nat) : (beDigits w n).length = w := by
  induction w generalizing n with
  | zero => rfl
  | succ w ih => simp [beDigits, ih]

/-- **The digits of `n` read back as `n`** when `w` bytes can hold it. -/
lemma beValue_beDigits (w n : Nat) (h : n < 256 ^ w) : beValue (beDigits w n) = n := by
  induction w generalizing n with
  | zero => simp at h; simp [beDigits, beValue, h]
  | succ w ih =>
    have hq : n / 256 < 256 ^ w := by
      rw [Nat.div_lt_iff_lt_mul (by norm_num)]
      simpa [pow_succ] using h
    have hprev := ih (n / 256) hq
    have hmod : (UInt8.ofNat (n % 256)).toNat = n % 256 := by
      simp [UInt8.toNat_ofNat']
    unfold beValue at hprev ⊢
    rw [beDigits, List.foldl_append, hprev, List.foldl_cons, List.foldl_nil, hmod]
    omega

end Two09.Lib
