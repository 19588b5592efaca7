import Two09.Lib.Bytes

/-!
# Base64 without a library

`b64_encode` and `b64_decode` as `signing.c` has them where there is no library for them. The decoder keeps the bits
that it has read in an accumulator whose high bits it never clears.
-/

namespace Two09.Share

open Two09.Lib

/-! ### The encoder -/

/-- `b64_alpha` -/
def b64Alpha : Bytes := ascii "ABCDEFGHIJKLMNOPQRSTUVWXYZabcdefghijklmnopqrstuvwxyz0123456789+/"

/-- `b64_alpha[(v >> shift) & 0x3f]` -/
def b64Char (v shift : UInt32) : UInt8 := b64Alpha.getD ((v >>> shift) &&& 0x3f).toNat 0

/-- `b64_encode`, in groups of three bytes -/
def b64Encode : Bytes → Bytes
  | a :: b :: c :: rest =>
    let v := a.toUInt32 <<< 16 ||| b.toUInt32 <<< 8 ||| c.toUInt32
    b64Char v 18 :: b64Char v 12 :: b64Char v 6 :: b64Char v 0 :: b64Encode rest
  | [a, b] =>
    let v := a.toUInt32 <<< 16 ||| b.toUInt32 <<< 8
    [b64Char v 18, b64Char v 12, b64Char v 6, 61]
  | [a] =>
    let v := a.toUInt32 <<< 16
    [b64Char v 18, b64Char v 12, 61, 61]
  | [] => []

/-! ### The decoder -/

/-- `b64_val`, nothing for -1 -/
def b64Val (c : UInt8) : Option UInt32 :=
  if 65 ≤ c ∧ c ≤ 90 then some (c - 65).toUInt32
  else if 97 ≤ c ∧ c ≤ 122 then some ((c - 97).toUInt32 + 26)
  else if 48 ≤ c ∧ c ≤ 57 then some ((c - 48).toUInt32 + 52)
  else if c = 43 then some 62
  else if c = 47 then some 63
  else none

/-- What the decoder skips: the padding and the white space. -/
def isSkipped (c : UInt8) : Bool := c = 61 ∨ c = 10 ∨ c = 13 ∨ c = 32 ∨ c = 9

/-- The accumulator with the number of bits in it that are not written yet, the array that is written to and the
number of bytes in it. -/
structure Decoder where
  acc : UInt32
  bits : ℕ
  out : Bytes
  outI : ℕ

/-- The loop of `b64_decode`, and whether it comes to the end of the string; none where it leaves the array. -/
def b64Loop (cap : ℕ) : Bytes → Decoder → Option (Bool × Decoder)
  | [], d => some (true, d)
  | c :: str, d =>
    if isSkipped c then b64Loop cap str d
    else
      match b64Val c with
      | none => some (false, d)
      | some v =>
        let d := { d with acc := d.acc <<< 6 ||| v, bits := d.bits + 6 }
        if d.bits ≥ 8 then
          let d := { d with bits := d.bits - 8 }
          if d.outI ≥ cap then some (false, d)
          else if d.outI < d.out.length then
            let byte := ((d.acc >>> UInt32.ofNat d.bits) &&& 0xff).toUInt8
            b64Loop cap str { d with out := d.out.set d.outI byte, outI := d.outI + 1 }
          else none
        else b64Loop cap str d

/-- `b64_decode` into an array of which the caller promises `cap` bytes: the number of bytes, or nothing for -1, and
the array afterwards. -/
def b64Decode (str out : Bytes) (cap : ℕ) : Option (Option ℕ × Bytes) :=
  (b64Loop cap str ⟨0, 0, out, 0⟩).map fun r => (if r.1 then some r.2.outI else none, r.2.out)

/-! ### The characters -/

section Characters

/-- The six bits at `shift`. -/
def sextet (v shift : UInt32) : ℕ := ((v >>> shift) &&& 0x3f).toNat

lemma sextet_lt (v shift : UInt32) : sextet v shift < 64 := by
  unfold sextet
  rw [UInt32.toNat_and]
  exact Nat.lt_of_le_of_lt Nat.and_le_right (by decide)

lemma b64Alpha_spec : ∀ i < 64, b64Val (b64Alpha.getD i 0) = some (UInt32.ofNat i) ∧
    isSkipped (b64Alpha.getD i 0) = false := by
  decide +kernel

lemma b64Val_char (v shift : UInt32) : b64Val (b64Char v shift) = some (UInt32.ofNat (sextet v shift)) :=
  (b64Alpha_spec _ (sextet_lt v shift)).1

lemma isSkipped_char (v shift : UInt32) : isSkipped (b64Char v shift) = false :=
  (b64Alpha_spec _ (sextet_lt v shift)).2

/-- Every character that is written is read as a value, or it is the padding. -/
lemma mem_b64Encode (x : Bytes) : ∀ c ∈ b64Encode x, (∃ v, b64Val c = some v) ∨ c = 61 := by
  have hchar : ∀ v shift, (∃ w, b64Val (b64Char v shift) = some w) ∨ b64Char v shift = 61 :=
    fun v shift => .inl ⟨_, b64Val_char v shift⟩
  induction x using b64Encode.induct with
  | case1 a b c rest ih => simpa [b64Encode, hchar] using ih
  | case2 a b => simp [b64Encode, hchar]
  | case3 a => simp [b64Encode, hchar]
  | case4 => simp [b64Encode]

lemma length_b64Encode (x : Bytes) : (b64Encode x).length = (x.length + 2) / 3 * 4 := by
  induction x using b64Encode.induct with
  | case1 a b c rest ih =>
    simp only [b64Encode, List.length_cons, ih]
    omega
  | case2 a b => simp [b64Encode]
  | case3 a => simp [b64Encode]
  | case4 => rfl

end Characters

/-! ### The accumulator -/

section Accumulator

lemma toNat_shift {k : ℕ} (hk : k < 32) : (UInt32.ofNat k).toNat % 32 = k := by
  rw [UInt32.toNat_ofNat_of_lt' (show k < 2 ^ 32 by omega), Nat.mod_eq_of_lt hk]

lemma toNat_sextet (v : UInt32) {k : ℕ} (hk : k < 32) : sextet v (UInt32.ofNat k) = v.toNat / 2 ^ k % 64 := by
  unfold sextet
  rw [UInt32.toNat_and, UInt32.toNat_shiftRight, toNat_shift hk, Nat.shiftRight_eq_div_pow]
  exact Nat.and_two_pow_sub_one_eq_mod _ 6

/-- An `or` with bits below those of a multiple is a sum. -/
lemma or_eq_add {a b k : ℕ} (ha : 2 ^ k ∣ a) (hb : b < 2 ^ k) : a ||| b = a + b := by
  obtain ⟨q, rfl⟩ := ha
  exact (Nat.two_pow_add_eq_or_of_lt hb q).symm

/-- What three bytes, or fewer, are as a number. -/
lemma toNat_group (a b c : UInt8) :
    (a.toUInt32 <<< 16 ||| b.toUInt32 <<< 8 ||| c.toUInt32).toNat = a.toNat * 65536 + b.toNat * 256 + c.toNat := by
  have ha := a.toNat_lt
  have hb := b.toNat_lt
  have hc := c.toNat_lt
  rw [UInt32.toNat_or, UInt32.toNat_or, UInt32.toNat_shiftLeft, UInt32.toNat_shiftLeft, UInt8.toNat_toUInt32,
    UInt8.toNat_toUInt32, UInt8.toNat_toUInt32, Nat.shiftLeft_eq, Nat.shiftLeft_eq]
  show (a.toNat * 65536 % 4294967296 ||| b.toNat * 256 % 4294967296) ||| c.toNat = _
  have hab : a.toNat * 65536 ||| b.toNat * 256 = a.toNat * 65536 + b.toNat * 256 :=
    or_eq_add (k := 16) (by omega) (by omega)
  rw [Nat.mod_eq_of_lt (by omega), Nat.mod_eq_of_lt (by omega), hab]
  exact or_eq_add (k := 8) (by omega) (by omega)

/-- One value more in the accumulator. -/
lemma toNat_acc (acc : UInt32) {i : ℕ} (hi : i < 64) :
    (acc <<< 6 ||| UInt32.ofNat i).toNat = (acc.toNat * 64 + i) % 4294967296 := by
  rw [UInt32.toNat_or, UInt32.toNat_shiftLeft, UInt32.toNat_ofNat, Nat.shiftLeft_eq]
  show (acc.toNat * 64 % 4294967296 ||| i % 4294967296) = _
  rw [Nat.mod_eq_of_lt (show i < 4294967296 by omega), or_eq_add (k := 6) (by omega) (by omega)]
  omega

/-- The byte that is written. -/
lemma toNat_byte (acc : UInt32) {k : ℕ} (hk : k < 32) :
    (((acc >>> UInt32.ofNat k) &&& 0xff).toUInt8).toNat = acc.toNat / 2 ^ k % 256 := by
  rw [UInt32.toNat_toUInt8, UInt32.toNat_and, UInt32.toNat_shiftRight, toNat_shift hk,
    Nat.shiftRight_eq_div_pow]
  have hand := Nat.and_two_pow_sub_one_eq_mod (acc.toNat / 2 ^ k) 8
  rw [show (2 ^ 8 - 1 : ℕ) = (0xff : UInt32).toNat from rfl] at hand
  rw [hand]
  omega

end Accumulator

/-! ### Decoding what was encoded -/

/-- The character is read as the value `i`. -/
structure Reads (c : UInt8) (i : ℕ) : Prop where
  lt : i < 64
  val : b64Val c = some (UInt32.ofNat i)
  read : isSkipped c = false

lemma reads_char (v shift : UInt32) : Reads (b64Char v shift) (sextet v shift) :=
  ⟨sextet_lt v shift, b64Val_char v shift, isSkipped_char v shift⟩

section Decoding

variable {cap i j k l b : ℕ} {c c₁ c₂ c₃ c₄ : UInt8} {done : Bytes}

lemma b64Loop_skip (hc : isSkipped c = true) (str : Bytes) (d : Decoder) :
    b64Loop cap (c :: str) d = b64Loop cap str d := by
  rw [b64Loop, if_pos hc]

/-- The first value of a group is kept. -/
lemma b64Loop_keep (hc : Reads c i) (cap : ℕ) (str : Bytes) (acc : UInt32) (out : Bytes) (n : ℕ) :
    ∃ acc', acc'.toNat % 2 ^ 6 = i ∧
      b64Loop cap (c :: str) ⟨acc, 0, out, n⟩ = b64Loop cap str ⟨acc', 6, out, n⟩ := by
  refine ⟨acc <<< 6 ||| UInt32.ofNat i, ?_, ?_⟩
  · have hi := hc.lt
    rw [toNat_acc acc hi]
    omega
  · rw [b64Loop, if_neg (by rw [hc.read]; decide), hc.val]
    rfl

/-- Each other value completes a byte, from the bits that are left of the ones before. -/
lemma b64Loop_write (hc : Reads c i) (hb : b = 2 ∨ b = 4 ∨ b = 6) (hcap : done.length < cap) (str : Bytes)
    (acc : UInt32) (f : UInt8) (free : Bytes) :
    ∃ acc', acc'.toNat % 2 ^ (b - 2) = i % 2 ^ (b - 2) ∧
      b64Loop cap (c :: str) ⟨acc, b, done ++ f :: free, done.length⟩ =
        b64Loop cap str ⟨acc', b - 2, done ++ [UInt8.ofNat ((acc.toNat % 2 ^ b * 64 + i) / 2 ^ (b - 2))] ++ free,
          (done ++ [UInt8.ofNat ((acc.toNat % 2 ^ b * 64 + i) / 2 ^ (b - 2))]).length⟩ := by
  have hi := hc.lt
  have hacc := toNat_acc acc hi
  have hbyte : (((acc <<< 6 ||| UInt32.ofNat i) >>> UInt32.ofNat (b - 2)) &&& 0xff).toUInt8 =
      UInt8.ofNat ((acc.toNat % 2 ^ b * 64 + i) / 2 ^ (b - 2)) := by
    rw [← UInt8.toNat_inj, toNat_byte _ (by omega), UInt8.toNat_ofNat', hacc]
    rcases hb with rfl | rfl | rfl <;> omega
  refine ⟨acc <<< 6 ||| UInt32.ofNat i, ?_, ?_⟩
  · rw [hacc]
    rcases hb with rfl | rfl | rfl <;> omega
  · rw [b64Loop, if_neg (by rw [hc.read]; decide), hc.val]
    simp only
    rw [if_pos (by omega), if_neg (by omega), if_pos (by simp), show b + 6 - 8 = b - 2 by omega, hbyte]
    simp

/-- Two values of a group are a byte, and four bits. -/
lemma b64Loop_two (h₁ : Reads c₁ i) (h₂ : Reads c₂ j) (hcap : done.length + 1 ≤ cap) (str : Bytes) (acc : UInt32)
    (f : UInt8) (free : Bytes) :
    ∃ acc', acc'.toNat % 2 ^ 4 = j % 2 ^ 4 ∧
      b64Loop cap (c₁ :: c₂ :: str) ⟨acc, 0, done ++ f :: free, done.length⟩ =
        b64Loop cap str ⟨acc', 4, done ++ [UInt8.ofNat ((i * 64 + j) / 16)] ++ free,
          (done ++ [UInt8.ofNat ((i * 64 + j) / 16)]).length⟩ := by
  obtain ⟨acc₁, hacc₁, hrun₁⟩ := b64Loop_keep h₁ cap (c₂ :: str) acc (done ++ f :: free) done.length
  obtain ⟨acc₂, hacc₂, hrun₂⟩ := b64Loop_write h₂ (.inr (.inr rfl)) (show done.length < cap by omega) str acc₁ f free
  rw [hacc₁] at hrun₂
  exact ⟨acc₂, hacc₂, hrun₁.trans hrun₂⟩

/-- Three values of a group are two bytes, and two bits. -/
lemma b64Loop_three (h₁ : Reads c₁ i) (h₂ : Reads c₂ j) (h₃ : Reads c₃ k) (hcap : done.length + 2 ≤ cap) (str : Bytes)
    (acc : UInt32) (f g : UInt8) (free : Bytes) :
    ∃ acc', acc'.toNat % 2 ^ 2 = k % 2 ^ 2 ∧
      b64Loop cap (c₁ :: c₂ :: c₃ :: str) ⟨acc, 0, done ++ f :: g :: free, done.length⟩ =
        b64Loop cap str ⟨acc', 2,
          done ++ [UInt8.ofNat ((i * 64 + j) / 16)] ++ [UInt8.ofNat ((j % 16 * 64 + k) / 4)] ++ free,
          (done ++ [UInt8.ofNat ((i * 64 + j) / 16)] ++ [UInt8.ofNat ((j % 16 * 64 + k) / 4)]).length⟩ := by
  obtain ⟨acc₁, hacc₁, hrun₁⟩ := b64Loop_two h₁ h₂ (show done.length + 1 ≤ cap by omega) (c₃ :: str) acc f (g :: free)
  obtain ⟨acc₂, hacc₂, hrun₂⟩ := b64Loop_write h₃ (.inr (.inl rfl))
    (show (done ++ [UInt8.ofNat ((i * 64 + j) / 16)]).length < cap by simp; omega) str acc₁ g free
  rw [hacc₁] at hrun₂
  exact ⟨acc₂, hacc₂, hrun₁.trans hrun₂⟩

/-- Four values of a group are three bytes, and no bits. -/
lemma b64Loop_four (h₁ : Reads c₁ i) (h₂ : Reads c₂ j) (h₃ : Reads c₃ k) (h₄ : Reads c₄ l)
    (hcap : done.length + 3 ≤ cap) (str : Bytes) (acc : UInt32) (f g h : UInt8) (free : Bytes) :
    ∃ acc', b64Loop cap (c₁ :: c₂ :: c₃ :: c₄ :: str) ⟨acc, 0, done ++ f :: g :: h :: free, done.length⟩ =
        b64Loop cap str ⟨acc', 0,
          done ++ [UInt8.ofNat ((i * 64 + j) / 16)] ++ [UInt8.ofNat ((j % 16 * 64 + k) / 4)] ++
            [UInt8.ofNat (k % 4 * 64 + l)] ++ free,
          (done ++ [UInt8.ofNat ((i * 64 + j) / 16)] ++ [UInt8.ofNat ((j % 16 * 64 + k) / 4)] ++
            [UInt8.ofNat (k % 4 * 64 + l)]).length⟩ := by
  obtain ⟨acc₁, hacc₁, hrun₁⟩ := b64Loop_three h₁ h₂ h₃ (show done.length + 2 ≤ cap by omega) (c₄ :: str) acc f g
    (h :: free)
  obtain ⟨acc₂, -, hrun₂⟩ := b64Loop_write h₄ (.inl rfl)
    (show (done ++ [UInt8.ofNat ((i * 64 + j) / 16)] ++ [UInt8.ofNat ((j % 16 * 64 + k) / 4)]).length < cap by
      simp; omega) str acc₁ h free
  rw [hacc₁, show 2 - 2 = 0 from rfl, pow_zero, Nat.div_one] at hrun₂
  exact ⟨acc₂, hrun₁.trans hrun₂⟩

lemma ofNat_eq {n : ℕ} {a : UInt8} (h : n = a.toNat) : UInt8.ofNat n = a := by
  rw [h, UInt8.ofNat_toNat]

/-- The bytes of a group from its values. -/
lemma group_eq {a b c : UInt8} {v : UInt32} (hv : v.toNat = a.toNat * 65536 + b.toNat * 256 + c.toNat) :
    UInt8.ofNat ((sextet v 18 * 64 + sextet v 12) / 16) = a ∧
      UInt8.ofNat ((sextet v 12 % 16 * 64 + sextet v 6) / 4) = b ∧
      UInt8.ofNat (sextet v 6 % 4 * 64 + sextet v 0) = c := by
  have ha := a.toNat_lt
  have hb := b.toNat_lt
  have hc := c.toNat_lt
  have h18 : sextet v 18 = v.toNat / 2 ^ 18 % 64 := toNat_sextet v (k := 18) (by omega)
  have h12 : sextet v 12 = v.toNat / 2 ^ 12 % 64 := toNat_sextet v (k := 12) (by omega)
  have h6 : sextet v 6 = v.toNat / 2 ^ 6 % 64 := toNat_sextet v (k := 6) (by omega)
  have h0 : sextet v 0 = v.toNat / 2 ^ 0 % 64 := toNat_sextet v (k := 0) (by omega)
  exact ⟨ofNat_eq (by omega), ofNat_eq (by omega), ofNat_eq (by omega)⟩

/-- **Decoding what was encoded** writes it behind what there is already, over as much of what was there before. -/
lemma b64Loop_encode (done x used rest : Bytes) (hlen : used.length = x.length) (hcap : done.length + x.length ≤ cap)
    (acc : UInt32) :
    ∃ acc' b', b64Loop cap (b64Encode x) ⟨acc, 0, done ++ (used ++ rest), done.length⟩ =
      some (true, ⟨acc', b', done ++ x ++ rest, (done ++ x).length⟩) := by
  induction x using b64Encode.induct generalizing acc done used with
  | case1 a b c x ih =>
    obtain _ | ⟨f, _ | ⟨g, _ | ⟨h, used⟩⟩⟩ := used <;> simp only [List.length_cons, List.length_nil] at hlen hcap
    any_goals omega
    have hv := toNat_group a b c
    rw [b64Encode]
    generalize a.toUInt32 <<< 16 ||| b.toUInt32 <<< 8 ||| c.toUInt32 = v at hv ⊢
    obtain ⟨ha, hb, hc⟩ := group_eq hv
    obtain ⟨acc₁, hrun⟩ := b64Loop_four (reads_char v 18) (reads_char v 12) (reads_char v 6) (reads_char v 0)
      (show done.length + 3 ≤ cap by omega) (b64Encode x) acc f g h (used ++ rest)
    rw [ha, hb, hc] at hrun
    have hmore : (done ++ [a] ++ [b] ++ [c]).length + x.length ≤ cap := by
      simp only [List.length_append, List.length_singleton]
      omega
    obtain ⟨acc', b', hrest⟩ := ih _ used (by omega) hmore acc₁
    refine ⟨acc', b', hrun.trans (hrest.trans ?_)⟩
    simp
  | case2 a b =>
    obtain ⟨f, g, rfl⟩ := List.length_eq_two.1 hlen
    have hv : (a.toUInt32 <<< 16 ||| b.toUInt32 <<< 8).toNat = a.toNat * 65536 + b.toNat * 256 + (0 : UInt8).toNat := by
      rw [← toNat_group a b 0]
      simp
    rw [b64Encode]
    generalize a.toUInt32 <<< 16 ||| b.toUInt32 <<< 8 = v at hv ⊢
    obtain ⟨ha, hb, -⟩ := group_eq hv
    obtain ⟨acc₁, -, hrun⟩ := b64Loop_three (reads_char v 18) (reads_char v 12) (reads_char v 6)
      (show done.length + 2 ≤ cap from hcap) [61] acc f g rest
    rw [ha, hb] at hrun
    refine ⟨acc₁, 2, hrun.trans ?_⟩
    rw [b64Loop_skip rfl, b64Loop]
    simp
  | case3 a =>
    obtain ⟨f, rfl⟩ := List.length_eq_one_iff.1 hlen
    have hv : (a.toUInt32 <<< 16).toNat = a.toNat * 65536 + (0 : UInt8).toNat * 256 + (0 : UInt8).toNat := by
      rw [← toNat_group a 0 0]
      simp
    rw [b64Encode]
    generalize a.toUInt32 <<< 16 = v at hv ⊢
    obtain ⟨ha, -, -⟩ := group_eq hv
    obtain ⟨acc₁, -, hrun⟩ := b64Loop_two (reads_char v 18) (reads_char v 12) (show done.length + 1 ≤ cap from hcap)
      [61, 61] acc f rest
    rw [ha] at hrun
    refine ⟨acc₁, 4, hrun.trans ?_⟩
    rw [b64Loop_skip rfl, b64Loop_skip rfl, b64Loop]
  | case4 =>
    obtain rfl := List.length_eq_zero_iff.1 hlen
    exact ⟨acc, 0, by simp [b64Encode, b64Loop]⟩

/-- What was encoded is what is decoded. -/
lemma b64Decode_encode (x out : Bytes) (cap : ℕ) (hx : x.length ≤ cap) (hcap : cap ≤ out.length) :
    b64Decode (b64Encode x) out cap = some (some x.length, x ++ out.drop x.length) := by
  obtain ⟨acc, b, hrun⟩ := b64Loop_encode [] x (out.take x.length) (out.drop x.length)
    (by rw [List.length_take]; omega) (by simpa using hx) 0
  rw [List.take_append_drop] at hrun
  rw [b64Decode, show (⟨0, 0, out, 0⟩ : Decoder) = ⟨0, 0, [] ++ out, ([] : Bytes).length⟩ from rfl, hrun]
  simp

end Decoding

/-! ### Any string -/

/-- What is neither of the alphabet nor skipped. -/
def Foreign (c : UInt8) : Prop := c ∉ b64Alpha ∧ c ∉ ascii "=\n\r \t"

lemma b64Alpha_eq : b64Alpha =
    (List.range' 65 26 ++ List.range' 97 26 ++ List.range' 48 10 ++ [43, 47]).map UInt8.ofNat := by
  decide +kernel

lemma b64Val_eq_none {c : UInt8} (hc : c ∉ b64Alpha) : b64Val c = none := by
  have hno : ∀ n ∈ List.range' 65 26 ++ List.range' 97 26 ++ List.range' 48 10 ++ [43, 47], n ≠ c.toNat := by
    rintro n hn rfl
    rw [b64Alpha_eq] at hc
    exact hc (List.mem_map.2 ⟨c.toNat, hn, UInt8.ofNat_toNat⟩)
  have hrange : ∀ lo n, (∀ k, lo ≤ k → k < lo + n → k ≠ c.toNat) → ¬(lo ≤ c.toNat ∧ c.toNat < lo + n) :=
    fun lo n h hlo => h c.toNat hlo.1 hlo.2 rfl
  have hupper := hrange 65 26 fun k hlo hhi => hno k (by simp; omega)
  have hlower := hrange 97 26 fun k hlo hhi => hno k (by simp; omega)
  have hdigit := hrange 48 10 fun k hlo hhi => hno k (by simp; omega)
  have hplus : c ≠ 43 := fun h => hno 43 (by simp) (h ▸ rfl)
  have hslash : c ≠ 47 := fun h => hno 47 (by simp) (h ▸ rfl)
  simp only [b64Val, UInt8.le_iff_toNat_le]
  rw [if_neg (fun h => hupper ⟨h.1, Nat.lt_succ_of_le h.2⟩), if_neg (fun h => hlower ⟨h.1, Nat.lt_succ_of_le h.2⟩),
    if_neg (fun h => hdigit ⟨h.1, Nat.lt_succ_of_le h.2⟩), if_neg hplus, if_neg hslash]

lemma foreign_spec {c : UInt8} (hc : Foreign c) : isSkipped c = false ∧ b64Val c = none := by
  refine ⟨?_, b64Val_eq_none hc.1⟩
  have hskipped : c ∉ [61, 10, 13, 32, 9] := hc.2
  simpa [isSkipped] using hskipped

/-- **The decoder stays in the array**: it writes no byte from the capacity on, whatever the string, and a character
that is foreign is refused. -/
lemma b64Loop_spec {cap : ℕ} (str : Bytes) (d : Decoder) (hcap : cap ≤ d.out.length) :
    ∃ r, b64Loop cap str d = some r ∧ r.2.out.length = d.out.length ∧ r.2.out.drop cap = d.out.drop cap ∧
      ((∃ c ∈ str, Foreign c) → r.1 = false) := by
  induction str generalizing d with
  | nil => exact ⟨(true, d), rfl, rfl, rfl, by simp⟩
  | cons c str ih =>
    rw [b64Loop]
    cases hskip : isSkipped c with
    | true =>
      obtain ⟨r, hr, hlen, hdrop, hforeign⟩ := ih d hcap
      refine ⟨r, hr, hlen, hdrop, ?_⟩
      rintro ⟨x, hx, hxf⟩
      rcases List.mem_cons.1 hx with rfl | hx
      · cases hskip.symm.trans (foreign_spec hxf).1
      · exact hforeign ⟨x, hx, hxf⟩
    | false =>
      cases hval : b64Val c with
      | none => exact ⟨(false, d), rfl, rfl, rfl, fun _ => rfl⟩
      | some v =>
        have htail : ∀ r : Bool × Decoder, ((∃ c ∈ str, Foreign c) → r.1 = false) →
            (∃ x ∈ c :: str, Foreign x) → r.1 = false := by
          rintro r hforeign ⟨x, hx, hxf⟩
          rcases List.mem_cons.1 hx with rfl | hx
          · cases hval.symm.trans (foreign_spec hxf).2
          · exact hforeign ⟨x, hx, hxf⟩
        simp only [Bool.false_eq_true, if_false]
        by_cases hbits : d.bits + 6 ≥ 8
        · rw [if_pos hbits]
          by_cases hfull : d.outI ≥ cap
          · rw [if_pos hfull]
            exact ⟨_, rfl, rfl, rfl, fun _ => rfl⟩
          · rw [if_neg hfull, if_pos (by omega)]
            let byte := (((d.acc <<< 6 ||| v) >>> UInt32.ofNat (d.bits + 6 - 8)) &&& 0xff).toUInt8
            obtain ⟨r, hr, hlen, hdrop, hforeign⟩ := ih
              ⟨d.acc <<< 6 ||| v, d.bits + 6 - 8, d.out.set d.outI byte, d.outI + 1⟩
              (by rw [List.length_set]; exact hcap)
            refine ⟨r, hr, hlen.trans List.length_set, hdrop.trans ?_, htail r hforeign⟩
            exact List.drop_set_of_lt (by omega)
        · rw [if_neg hbits]
          obtain ⟨r, hr, hlen, hdrop, hforeign⟩ := ih
            ⟨d.acc <<< 6 ||| v, d.bits + 6, d.out, d.outI⟩ hcap
          exact ⟨r, hr, hlen, hdrop, htail r hforeign⟩

end Two09.Share
