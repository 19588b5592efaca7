import Two09.Trakker.Loop
import Mathlib

/-!
# Redirected writes

What `redirect_path` and `write_child_string` do to the string of a program that opens a file for writing.
-/

namespace Two09.Trakker

open Two09.Lib

/-! ### Strings in memory -/

/-- The bytes lie at the address. -/
def BytesAt (m : Memory) (addr : UInt64) (b : Bytes) : Prop :=
  ∀ i < b.length, m (addr + UInt64.ofNat i) = b[i]?

/-- The string lies at the address, with its end. -/
def StringAt (m : Memory) (addr : UInt64) (s : Bytes) : Prop := BytesAt m addr (s ++ [0])

/-- A memory with the bytes at the address, and nothing else. -/
def memoryOf (addr : UInt64) (b : Bytes) : Memory := fun a => b[(a - addr).toNat]?

section Memory

variable {m : Memory} {addr : UInt64} {b c s : Bytes}

lemma bytesAt_memoryOf (addr : UInt64) (hb : b.length ≤ 2 ^ 64) : BytesAt (memoryOf addr b) addr b := by
  intro i hi
  have hlt : i < 2 ^ 64 := by omega
  rw [memoryOf, UInt64.add_comm, UInt64.add_sub_cancel, UInt64.toNat_ofNat_of_lt' hlt]

lemma BytesAt.of_append (h : BytesAt m addr (b ++ c)) : BytesAt m addr b := by
  intro i hi
  rw [h i (by rw [List.length_append]; omega), List.getElem?_append_left hi]

lemma BytesAt.drop (h : BytesAt m addr b) (k : ℕ) : BytesAt m (addr + UInt64.ofNat k) (b.drop k) := by
  intro i hi
  rw [List.length_drop] at hi
  rw [List.getElem?_drop, UInt64.add_assoc, ← UInt64.ofNat_add]
  exact h (k + i) (by omega)

lemma mapM_of_getElem? {f : ℕ → Option UInt8} {n : ℕ} (hn : n ≤ b.length) (hf : ∀ i < n, f i = b[i]?) :
    (List.range n).mapM f = some (b.take n) := by
  induction n with
  | zero => rfl
  | succ n ih =>
    have hlast : b[n]? = some b[n] := List.getElem?_eq_getElem (by omega)
    rw [List.range_succ, List.mapM_append, ih (by omega) fun i hi => hf i (by omega), List.take_add_one, hlast]
    simp [hf n (by omega), hlast]

lemma peek_of_bytesAt (h : BytesAt m addr b) (hb : 8 ≤ b.length) : peek m addr = some (b.take 8) :=
  mapM_of_getElem? hb fun i hi => h i (by omega)

/-- **Reading words** up to the first that has an end in it, or as many as there are. -/
lemma readWords_of_bytesAt (k : ℕ) {n : ℕ} (h : BytesAt m addr b) (hb : 8 * k ≤ b.length) (hk : k ≤ n)
    (hend : k = n ∨ 0 ∈ b.take (8 * k)) : readWords m addr n = (b.take (8 * k)).takeWhile (· ≠ 0) := by
  induction k generalizing n addr b with
  | zero =>
    obtain rfl : 0 = n := hend.resolve_right (by simp)
    simp [readWords]
  | succ k ih =>
    obtain ⟨n, rfl⟩ := Nat.exists_eq_add_of_le' (Nat.lt_of_lt_of_le (Nat.succ_pos k) hk)
    have htake : b.take (8 * (k + 1)) = b.take 8 ++ (b.drop 8).take (8 * k) := by
      rw [show 8 * (k + 1) = 8 + 8 * k by omega, List.take_add]
    rw [readWords, peek_of_bytesAt h (by omega), htake]
    simp only
    by_cases hzero : 0 ∈ b.take 8
    · have hlen : ((b.take 8).takeWhile (· ≠ 0)).length ≠ (b.take 8).length := by
        intro hlen
        have hself := (List.takeWhile_prefix _).eq_of_length hlen
        exact absurd (List.takeWhile_eq_self_iff.1 hself 0 hzero) (by decide)
      rw [if_pos hzero, List.takeWhile_append, if_neg hlen]
    · have hall : ∀ x ∈ b.take 8, (decide (x ≠ 0)) = true := fun x hx => decide_eq_true fun h0 => hzero (h0 ▸ hx)
      rw [if_neg hzero, List.takeWhile_append_of_pos hall]
      congr 1
      refine ih (h.drop 8) (by rw [List.length_drop]; omega) (by omega) ?_
      refine hend.imp (by omega) fun hmem => ?_
      rw [htake, List.mem_append] at hmem
      exact hmem.resolve_left hzero

/-- How much of a string is read. -/
abbrev readMax : ℕ := 4088

lemma readChildString_of_ne (haddr : addr ≠ 0) : readChildString m addr = readWords m addr 511 := by
  rw [readChildString, if_neg haddr]
  rfl

lemma take_end {k : ℕ} (hs : 0 ∉ s) (hk : s.length < 8 * k) {j : ℕ} :
    ((s ++ List.replicate (j + 1) 0).take (8 * k)).takeWhile (· ≠ 0) = s := by
  obtain ⟨i, hi⟩ := Nat.exists_eq_add_of_lt hk
  have hall : ∀ x ∈ s, (decide (x ≠ 0)) = true := fun x hx => decide_eq_true fun h0 => hs (h0 ▸ hx)
  rw [List.take_append, List.take_of_length_le (by omega), List.takeWhile_append_of_pos hall,
    show 8 * k - s.length = i + 1 by omega, List.replicate_succ, List.take_succ_cons]
  simp

/-- A string that ends with a word, or with memory behind it, is read as it is. -/
lemma readChildString_short {j : ℕ} (h : BytesAt m addr (s ++ List.replicate (j + 1) 0)) (haddr : addr ≠ 0)
    (hs : 0 ∉ s) (hmax : s.length < readMax) (hword : 8 ∣ s.length + 1 ∨ 8 ≤ j + 1) : readChildString m addr = s := by
  have hlt : s.length < 4088 := hmax
  rw [readChildString_of_ne haddr, readWords_of_bytesAt (s.length / 8 + 1) h ?_ (by omega) ?_]
  · exact take_end hs (by omega)
  · rw [List.length_append, List.length_replicate]
    omega
  · refine .inr ?_
    obtain ⟨i, hi⟩ := Nat.exists_eq_add_of_lt (show s.length < 8 * (s.length / 8 + 1) by omega)
    rw [List.take_append, show 8 * (s.length / 8 + 1) - s.length = i + 1 by omega, List.replicate_succ,
      List.take_succ_cons]
    simp

/-- Of a long string as much is read as there is room for. -/
lemma readChildString_long (h : StringAt m addr s) (haddr : addr ≠ 0) (hs : 0 ∉ s) (hmin : readMax ≤ s.length) :
    readChildString m addr = s.take readMax := by
  have hle : 4088 ≤ s.length := hmin
  have htake : (s ++ [0]).take readMax = s.take readMax := List.take_append_of_le_length hmin
  rw [readChildString_of_ne haddr,
    readWords_of_bytesAt 511 h (by rw [List.length_append]; omega) (Nat.le_refl _) (.inl rfl), htake,
    List.takeWhile_eq_self_iff]
  exact fun x hx => decide_eq_true fun h0 => hs (h0 ▸ List.mem_of_mem_take hx)

end Memory

/-! ### Where a path leads -/

/-- One component on top of those before it. -/
def climb (absolute : Bool) (stack : List Bytes) (c : Bytes) : List Bytes :=
  if c = [46, 46] then
    if stack = [] then if absolute then [] else [c]
    else if stack.getLast? = some [46, 46] then stack ++ [c]
    else stack.dropLast
  else stack ++ [c]

/-- The path with `.` and `..` resolved by its text alone. -/
def resolved (p : Bytes) : Bytes :=
  let absolute : Bool := p.head? = some 47
  let parts := (p.splitOn 47).filter fun c => c ≠ [] ∧ c ≠ [46]
  (if absolute then [47] else []) ++ [47].intercalate (parts.foldl (climb absolute) [])

/-- The path is the directory, or lies below it. -/
def Within (dir p : Bytes) : Prop := p = dir ∨ dir ++ [47] <+: p

instance (dir p : Bytes) : Decidable (Within dir p) := by unfold Within; infer_instance

/-- What may be put in the place of a string that a program opens for writing: a path within the directory, no more
bytes than the string has with its end, and the string itself where it is redirected already. -/
structure Harmless (dir original data : Bytes) : Prop where
  within : Within dir (resolved (cstr data))
  room : data.length ≤ original.length + 1
  kept : dir <+: original → cstr data = original

/-- Whatever the rest of the memory, what is written for the string is harmless. -/
def Confined (cwd : Option Bytes) (dir original : Bytes) : Prop :=
  ∀ (policy : Policy) (s : Stop) (pathAddr flags : UInt64), policy.noWrite = false →
    policy.redirectWrites = some dir → pathAddr ≠ 0 → StringAt s.memory pathAddr original → flags &&& writeFlags ≠ 0 →
    ∀ addr data, Action.poke addr data ∈ (onOpen policy cwd s pathAddr flags).2 →
      addr = pathAddr ∧ Harmless dir original data

/-! ### What is written -/

section Written

variable {cwd : Option Bytes} {dir original p data : Bytes} {policy : Policy} {s : Stop} {pathAddr addr flags : UInt64}

/-- The path behind the directory, before it is cut. -/
def behindDir (cwd : Option Bytes) (dir p : Bytes) : Bytes :=
  if p.head? = some 47 then dir ++ p else dir ++ cwd.getD [] ++ 47 :: p

lemma redirectPath_of_begins (h : dir <+: p) : redirectPath cwd p dir = p := by
  rw [redirectPath, if_pos (List.isPrefixOf_iff_prefix.2 h)]

lemma redirectPath_of_not_begins (h : ¬dir <+: p) :
    redirectPath cwd p dir = (behindDir cwd dir p).take 4095 := by
  rw [redirectPath, if_neg (mt List.isPrefixOf_iff_prefix.1 h), behindDir]
  split <;> rfl

lemma zero_notMem_redirectPath (hp : 0 ∉ p) (hdir : 0 ∉ dir) (hcwd : ∀ c, cwd = some c → 0 ∉ c) :
    0 ∉ redirectPath cwd p dir := by
  by_cases hpre : dir <+: p
  · rw [redirectPath_of_begins hpre]
    exact hp
  · have hcwd' : 0 ∉ cwd.getD [] := by
      cases cwd with
      | none => exact List.not_mem_nil
      | some c => exact hcwd c rfl
    rw [redirectPath_of_not_begins hpre]
    refine fun h => absurd (List.mem_of_mem_take h) ?_
    unfold behindDir
    split <;> simp [hp, hdir, hcwd']

lemma cstr_writtenString (hp : 0 ∉ p) : cstr (writtenString p) = p := by
  obtain ⟨k, hk⟩ := Nat.exists_eq_add_of_lt (show 0 < 8 - p.length % 8 by omega)
  have hall : ∀ x ∈ p, (decide (x ≠ 0)) = true := fun x hx => decide_eq_true fun h0 => hp (h0 ▸ hx)
  rw [cstr, writtenString, List.takeWhile_append_of_pos hall, hk, List.replicate_succ]
  simp

lemma length_writtenString (p : Bytes) : (writtenString p).length = p.length + (8 - p.length % 8) := by
  rw [writtenString, List.length_append, List.length_replicate]

/-- What is written is the path, in whole words. -/
lemma poke_onOpen (hwrite : policy.noWrite = false) (hdir : policy.redirectWrites = some dir)
    (hflags : flags &&& writeFlags ≠ 0) : Action.poke addr data ∈ (onOpen policy cwd s pathAddr flags).2 ↔
      addr = pathAddr ∧ data = writtenString (redirectPath cwd (readChildString s.memory pathAddr) dir) := by
  rw [onOpen, if_pos hflags, redirect, if_neg (by rw [hwrite]; decide), hdir]
  simp only [List.mem_append, List.mem_singleton, Action.poke.injEq]
  refine or_iff_right fun h => ?_
  split at h
  · cases List.mem_singleton.1 h
  · cases h

end Written

/-! ### When writes are confined -/

section Confinement

variable {cwd : Option Bytes} {dir original : Bytes}

/-- The path is redirected already, and it ends with a word. -/
def ShortSuits (dir original : Bytes) : Prop :=
  dir <+: original ∧ original.length < readMax ∧ 8 ∣ original.length + 1 ∧ Within dir (resolved original)

/-- The path is so long that the one in its place is cut to fit, and the cut one leads to the directory. -/
def LongSuits (cwd : Option Bytes) (dir original : Bytes) : Prop :=
  4095 ≤ original.length ∧ ¬dir <+: original.take readMax ∧
    Within dir (resolved ((behindDir cwd dir (original.take readMax)).take 4095)) ∧
    (dir <+: original → (behindDir cwd dir (original.take readMax)).take 4095 = original)

lemma length_behindDir (cwd : Option Bytes) (dir p : Bytes) : dir.length + p.length ≤ (behindDir cwd dir p).length := by
  unfold behindDir
  split <;> simp only [List.length_append, List.length_cons] <;> omega

lemma Harmless.shortSuits (h : Harmless dir original (writtenString (redirectPath cwd original dir)))
    (hnew : 0 ∉ redirectPath cwd original dir) (hmax : original.length < readMax) : ShortSuits dir original := by
  have hlt : original.length < 4088 := hmax
  have hroom := h.room
  rw [length_writtenString] at hroom
  by_cases hpre : dir <+: original
  · have hwithin := h.within
    rw [cstr_writtenString hnew, redirectPath_of_begins hpre] at hwithin
    rw [redirectPath_of_begins hpre] at hroom
    exact ⟨hpre, hmax, by omega, hwithin⟩
  · -- what is put in its place is longer
    have hpos : 0 < dir.length := List.length_pos_iff.2 fun hnil => hpre (hnil ▸ List.nil_prefix)
    have hlong := length_behindDir cwd dir original
    rw [redirectPath_of_not_begins hpre, List.length_take] at hroom
    omega

lemma Harmless.longSuits (h : Harmless dir original (writtenString (redirectPath cwd (original.take readMax) dir)))
    (hnew : 0 ∉ redirectPath cwd (original.take readMax) dir) (hmin : readMax ≤ original.length) :
    LongSuits cwd dir original := by
  have hle : 4088 ≤ original.length := hmin
  have htake : (original.take readMax).length = 4088 := List.length_take_of_le hmin
  have hroom := h.room
  have hwithin := h.within
  have hkept := h.kept
  rw [cstr_writtenString hnew] at hwithin hkept
  rw [length_writtenString] at hroom
  by_cases hpre : dir <+: original.take readMax
  · -- the string loses its end, and there is no room for the one that it gets
    have hsame := congrArg List.length (hkept (hpre.trans (List.take_prefix _ _)))
    rw [redirectPath_of_begins hpre, htake] at hsame hroom
    omega
  · have hpos : 0 < dir.length := List.length_pos_iff.2 fun hnil => hpre (hnil ▸ List.nil_prefix)
    have hlong := length_behindDir cwd dir (original.take readMax)
    rw [redirectPath_of_not_begins hpre] at hroom hwithin hkept
    rw [List.length_take] at hroom
    exact ⟨by omega, hpre, hwithin, hkept⟩

lemma ShortSuits.harmless (h : ShortSuits dir original) (hzero : 0 ∉ original) :
    Harmless dir original (writtenString (redirectPath cwd original dir)) := by
  obtain ⟨hpre, -, hword, hwithin⟩ := h
  rw [redirectPath_of_begins hpre]
  refine ⟨?_, ?_, fun _ => cstr_writtenString hzero⟩
  · rw [cstr_writtenString hzero]
    exact hwithin
  · rw [length_writtenString]
    omega

lemma LongSuits.harmless (h : LongSuits cwd dir original)
    (hnew : 0 ∉ redirectPath cwd (original.take readMax) dir) :
    Harmless dir original (writtenString (redirectPath cwd (original.take readMax) dir)) := by
  obtain ⟨hlen, hpre, hwithin, hkept⟩ := h
  refine ⟨?_, ?_, ?_⟩
  · rw [cstr_writtenString hnew, redirectPath_of_not_begins hpre]
    exact hwithin
  · rw [length_writtenString, redirectPath_of_not_begins hpre, List.length_take]
    omega
  · rw [cstr_writtenString hnew, redirectPath_of_not_begins hpre]
    exact hkept

/-- **When redirected writes are confined**: if the path is redirected already, leads to the directory and ends with a
word, or if it is as long as a path can be or longer and the one in its place leads there. -/
theorem confined_iff (hzero : 0 ∉ original) (hdir : 0 ∉ dir) (hcwd : ∀ c, cwd = some c → 0 ∉ c)
    (hlen : original.length + 8 ≤ 2 ^ 64) :
    Confined cwd dir original ↔ ShortSuits dir original ∨ LongSuits cwd dir original := by
  have hnewShort := zero_notMem_redirectPath hzero hdir hcwd
  have hnewLong := zero_notMem_redirectPath (p := original.take readMax)
    (fun h => hzero (List.mem_of_mem_take h)) hdir hcwd
  constructor
  · intro h
    obtain ⟨m, hmem⟩ : ∃ m, BytesAt m 8 (original ++ List.replicate 8 0) :=
      ⟨_, bytesAt_memoryOf 8 (by rw [List.length_append, List.length_replicate]; exact hlen)⟩
    have hstring : StringAt m 8 original := by
      refine BytesAt.of_append (c := List.replicate 7 0) ?_
      rw [List.append_assoc]
      exact hmem
    have hpoke := h ⟨false, false, some dir, []⟩ ⟨0, .continued, 0, none, m, true⟩ 8 1 rfl rfl (by decide) hstring
      (by decide) 8 _ ((poke_onOpen rfl rfl (by decide)).2 ⟨rfl, rfl⟩)
    rcases Nat.lt_or_ge original.length readMax with hmax | hmin
    · rw [readChildString_short (j := 7) hmem (by decide) hzero hmax (.inr (Nat.le_refl 8))] at hpoke
      exact .inl (hpoke.2.shortSuits hnewShort hmax)
    · rw [readChildString_long hstring (by decide) hzero hmin] at hpoke
      exact .inr (hpoke.2.longSuits hnewLong hmin)
  · intro h policy s pathAddr flags hwrite hpolicy haddr hstring hflags addr data hpoke
    obtain ⟨rfl, rfl⟩ := (poke_onOpen hwrite hpolicy hflags).1 hpoke
    refine ⟨rfl, ?_⟩
    rcases h with hshort | hlong
    · rw [readChildString_short (j := 0) hstring haddr hzero hshort.2.1 (.inl hshort.2.2.1)]
      exact hshort.harmless hzero
    · rw [readChildString_long hstring haddr hzero (Nat.le_trans (by decide) hlong.1)]
      exact hlong.harmless hnewLong

end Confinement

theorem confined_ends_with_word : Confined none (ascii "/d") (ascii "/d/abcd") := by
  refine (confined_iff (by decide) (by decide) (by rintro c ⟨⟩) (by decide)).2 (.inl ⟨?_, ?_, ?_, ?_⟩)
  all_goals decide

/-- A path of six characters is replaced by one of fourteen; and a path leads out of the directory. -/
theorem redirect_overruns : ¬Confined none (ascii "/tmp/out") (ascii "/etc/x") ∧
    ¬Within (ascii "/tmp/out") (resolved (redirectPath none (ascii "/../../etc/x") (ascii "/tmp/out"))) := by
  have hmem : BytesAt (memoryOf 8 (ascii "/etc/x" ++ [0] ++ [0])) 8 (ascii "/etc/x" ++ [0] ++ [0]) :=
    bytesAt_memoryOf 8 (by decide)
  refine ⟨fun h => ?_, by decide⟩
  have hharmless := h ⟨false, false, some (ascii "/tmp/out"), []⟩ ⟨0, .continued, 0, none, _, true⟩ 8 1 rfl rfl
    (by decide) hmem.of_append (by decide) 8 (ascii "/tmp/out/etc/x" ++ [0, 0]) (by decide)
  exact absurd hharmless.2.room (by decide)

end Two09.Trakker
