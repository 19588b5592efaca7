import Two09.Lib.Bytes

/-!
# Reading a mapped file

Pointers into a mapping are 64-bit addresses, and computing with them wraps around. A read through one gives
nothing as soon as it leaves the mapped bytes; the lemmas say when a read, and a loop of reads, gives
something.
-/

namespace Two09.Lib

/-- A file as it is mapped: where, and its bytes. The first page is never mapped. -/
structure Mapping where
  base : UInt64
  bytes : Bytes
  low : 4096 ≤ base.toNat
  high : base.toNat + bytes.length ≤ 2 ^ 64

namespace Mapping

/-- The kernel maps files far above the first page. -/
lemma low_mmap : 4096 ≤ (0x7f0000000000 : UInt64).toNat := by decide

/-- How far behind the beginning a pointer points. -/
def offset (m : Mapping) (p : UInt64) : Nat := (p - m.base).toNat

def byte (m : Mapping) (p : UInt64) : Option UInt8 := m.bytes[m.offset p]?

/-- A number of `n` bytes, the lowest first. -/
def word (m : Mapping) : Nat → UInt64 → Option UInt64
  | 0, _ => some 0
  | n + 1, p => do
    let b ← m.byte p
    let rest ← m.word n (p + 1)
    return b.toUInt64 + 256 * rest

/-- The bytes before the first NUL; nothing when there is none. -/
def untilNul : Bytes → Option Bytes
  | [] => none
  | c :: cs => if c = 0 then some [] else (untilNul cs).map (c :: ·)

/-- A string, read up to its NUL. -/
def string (m : Mapping) (p : UInt64) : Option Bytes := untilNul (m.bytes.drop (m.offset p))

/-! ### Reads that stay inside -/

/-- That `n` bytes from the pointer on are mapped. -/
def Has (m : Mapping) (n : Nat) (p : UInt64) : Prop := m.offset p + n ≤ m.bytes.length

/-- That the string at the pointer ends inside the mapping. -/
def HasString (m : Mapping) (p : UInt64) : Prop := (0 : UInt8) ∈ m.bytes.drop (m.offset p)

instance (m : Mapping) (n : Nat) (p : UInt64) : Decidable (m.Has n p) :=
  inferInstanceAs (Decidable (_ ≤ _))

instance (m : Mapping) (p : UInt64) : Decidable (m.HasString p) := inferInstanceAs (Decidable (_ ∈ _))

/-- The number at a pointer, for reads that stay inside. -/
def get (m : Mapping) (n : Nat) (p : UInt64) : UInt64 := (m.word n p).getD 0

def text (m : Mapping) (p : UInt64) : Bytes := (m.string p).getD []

section Reads
variable {α β : Type} {m : Mapping} {n : Nat} {p q : UInt64}

lemma length_le (m : Mapping) : m.bytes.length + 4096 ≤ 2 ^ 64 := by
  have hlow := m.low
  have hhigh := m.high
  omega

lemma offset_add (m : Mapping) (p : UInt64) (k : UInt64) :
    m.offset (p + k) = (m.offset p + k.toNat) % 2 ^ 64 := by
  have hbase := m.base.toNat_lt
  unfold offset
  rw [UInt64.toNat_sub, UInt64.toNat_add, UInt64.toNat_sub]
  omega

lemma offset_lt (m : Mapping) (p : UInt64) : m.offset p < 2 ^ 64 := UInt64.toNat_lt _

/-- **A number can be read if its bytes are mapped.** -/
lemma isSome_word (hn : 0 < n) : (m.word n p).isSome ↔ m.Has n p := by
  induction n generalizing p with
  | zero => omega
  | succ n ih =>
    have hlen := m.length_le
    have hp := m.offset_lt p
    have hbyte : (m.byte p).isSome ↔ m.offset p < m.bytes.length := by
      rw [byte, isSome_getElem?]
    have hword : (m.word (n + 1) p).isSome ↔ (m.byte p).isSome ∧ (m.word n (p + 1)).isSome := by
      rw [word]
      cases m.byte p with
      | none => simp
      | some b =>
        cases m.word n (p + 1) with
        | none => simp
        | some rest => simp
    rw [hword, hbyte]
    unfold Has
    rcases Nat.eq_zero_or_pos n with rfl | hpos
    · exact ⟨fun h => h.1, fun h => ⟨h, rfl⟩⟩
    · rw [ih hpos]
      unfold Has
      rw [offset_add, show (1 : UInt64).toNat = 1 from rfl]
      constructor
      · rintro ⟨h, hrest⟩
        rw [Nat.mod_eq_of_lt (by omega)] at hrest
        omega
      · intro h
        rw [Nat.mod_eq_of_lt (by omega)]
        omega

lemma isSome_untilNul (b : Bytes) : (untilNul b).isSome ↔ (0 : UInt8) ∈ b := by
  induction b with
  | nil => simp [untilNul]
  | cons c cs ih =>
    rw [untilNul]
    split_ifs with hc
    · simp [hc]
    · rw [Option.isSome_map, ih, List.mem_cons]
      exact ⟨.inr, fun h => h.resolve_left (Ne.symm hc)⟩

lemma isSome_string : (m.string p).isSome ↔ m.HasString p := isSome_untilNul _

lemma word_eq (hn : 0 < n) (h : m.Has n p) : m.word n p = some (m.get n p) := by
  obtain ⟨v, hv⟩ := Option.isSome_iff_exists.1 ((isSome_word hn).2 h)
  rw [get, hv]
  rfl

lemma string_eq (h : m.HasString p) : m.string p = some (m.text p) := by
  obtain ⟨v, hv⟩ := Option.isSome_iff_exists.1 (isSome_string.2 h)
  rw [text, hv]
  rfl

/-- A read, and what comes after it. -/
lemma isSome_word_bind (hn : 0 < n) {g : UInt64 → Option β} :
    (m.word n p >>= g).isSome ↔ m.Has n p ∧ (g (m.get n p)).isSome := by
  constructor
  · intro h
    have hp : m.Has n p := by
      by_contra hno
      rw [Option.not_isSome_iff_eq_none.1 (mt (isSome_word hn).1 hno)] at h
      cases h
    rw [word_eq hn hp] at h
    exact ⟨hp, h⟩
  · rintro ⟨hp, hg⟩
    rw [word_eq hn hp]
    exact hg

lemma isSome_string_bind {g : Bytes → Option β} :
    (m.string p >>= g).isSome ↔ m.HasString p ∧ (g (m.text p)).isSome := by
  constructor
  · intro h
    have hp : m.HasString p := by
      by_contra hno
      rw [Option.not_isSome_iff_eq_none.1 (mt isSome_string.1 hno)] at h
      cases h
    rw [string_eq hp] at h
    exact ⟨hp, h⟩
  · rintro ⟨hp, hg⟩
    rw [string_eq hp]
    exact hg

/-- What is mapped some bytes on. -/
lemma has_add {k : UInt64} : m.Has n (p + k) ↔ (m.offset p + k.toNat) % 2 ^ 64 + n ≤ m.bytes.length := by
  unfold Has
  rw [offset_add]

lemma isSome_byte : (m.byte p).isSome ↔ m.Has 1 p := by
  rw [byte, isSome_getElem?]
  rfl

lemma HasString.has (h : m.HasString p) : m.Has 1 p := by
  unfold HasString at h
  have hlen : 0 < (m.bytes.drop (m.offset p)).length := List.length_pos_of_mem h
  rw [List.length_drop] at hlen
  unfold Has
  omega

lemma text_eq_nil (h : m.HasString p) : m.text p = [] ↔ m.byte p = some 0 := by
  unfold HasString at h
  have hdrop : m.bytes[m.offset p]? = (m.bytes.drop (m.offset p)).head? := by
    rw [List.head?_drop]
  rw [byte, text, string, hdrop]
  cases hrest : m.bytes.drop (m.offset p) with
  | nil =>
    rw [hrest] at h
    cases h
  | cons c cs =>
    rw [hrest] at h
    rw [untilNul]
    split_ifs with hc
    · rw [hc]
      exact ⟨fun _ => rfl, fun _ => rfl⟩
    · have hcs : (untilNul cs).isSome :=
        (isSome_untilNul cs).2 ((List.mem_cons.1 h).resolve_left (Ne.symm hc))
      obtain ⟨t, ht⟩ := Option.isSome_iff_exists.1 hcs
      rw [ht]
      refine ⟨fun hno => (List.cons_ne_nil c t hno).elim, fun hno => ?_⟩
      exact absurd (Option.some.inj hno) hc

lemma hasString_of_byte (h : m.byte p = some 0) : m.HasString p := by
  have hdrop : m.bytes[m.offset p]? = (m.bytes.drop (m.offset p)).head? := by
    rw [List.head?_drop]
  rw [byte, hdrop] at h
  exact List.mem_of_mem_head? h

/-- A name whose first byte tells whether there is more to read. -/
lemma isSome_named {a : β} {rest : Option β} (hrest : rest.isSome → m.HasString p) :
    (m.byte p >>= fun first => if first = 0 then some a else rest).isSome ↔
      m.HasString p ∧ (m.text p ≠ [] → rest.isSome) := by
  cases hp : m.byte p with
  | none =>
    refine ⟨fun h => (by cases h), fun h => ?_⟩
    have := isSome_byte.2 h.1.has
    rw [hp] at this
    cases this
  | some first =>
    by_cases hfirst : first = 0
    · subst hfirst
      have hstring := hasString_of_byte hp
      exact ⟨fun _ => ⟨hstring, fun hne => absurd ((text_eq_nil hstring).2 hp) hne⟩, fun _ => rfl⟩
    · have hbind : ((some first : Option UInt8) >>= fun first => if first = 0 then some a else rest) =
          rest := if_neg hfirst
      rw [hbind]
      refine ⟨fun h => ⟨hrest h, fun _ => h⟩, fun h => h.2 fun hnil => ?_⟩
      rw [text_eq_nil h.1, hp] at hnil
      exact hfirst (Option.some.inj hnil)

end Reads

end Mapping

/-! ### What a computation gives -/

/-- That a computation gives `v` if `ok` holds, and else nothing. -/
structure Gives {α : Type} (x : Option α) (ok : Prop) (v : α) : Prop where
  eq_some : ok → x = some v
  eq_none : ¬ ok → x = none

namespace Gives
variable {α β : Type} {x : Option α} {ok : Prop} {v : α}

lemma isSome (h : Gives x ok v) : x.isSome ↔ ok := by
  by_cases hok : ok
  · rw [h.eq_some hok]
    exact ⟨fun _ => hok, fun _ => rfl⟩
  · rw [h.eq_none hok]
    exact ⟨fun hno => (by cases hno), fun hyes => absurd hyes hok⟩

lemma of_isSome (hok : x.isSome ↔ ok) (hv : ok → x = some v) : Gives x ok v :=
  ⟨hv, fun hno => Option.not_isSome_iff_eq_none.1 (mt hok.1 hno)⟩

lemma isSome_bind (h : Gives x ok v) {g : α → Option β} :
    (x >>= g).isSome ↔ ok ∧ (g v).isSome := by
  by_cases hok : ok
  · rw [h.eq_some hok]
    exact ⟨fun hg => ⟨hok, hg⟩, And.right⟩
  · rw [h.eq_none hok]
    exact ⟨fun hno => (by cases hno), fun hyes => absurd hyes.1 hok⟩

/-- A pure step after a computation. -/
lemma map (h : Gives x ok v) (f : α → β) : Gives (x >>= fun a => some (f a)) ok (f v) := by
  constructor
  · intro hok
    rw [h.eq_some hok]
    rfl
  · intro hno
    rw [h.eq_none hno]
    rfl

lemma word {m : Mapping} {n : Nat} {p : UInt64} (hn : 0 < n) : Gives (m.word n p) (m.Has n p) (m.get n p) :=
  of_isSome (Mapping.isSome_word hn) (Mapping.word_eq hn)

lemma pure (v : α) : Gives (some v) True v := ⟨fun _ => rfl, fun hno => absurd trivial hno⟩

end Gives

/-- A computation whose result makes no difference to whether the rest gives something. -/
lemma isSome_bind_of {α β : Type} {x : Option α} {g : α → Option β} {ok : Prop}
    (h : ∀ a, (g a).isSome ↔ ok) : (x >>= g).isSome ↔ x.isSome ∧ ok := by
  cases x with
  | none => exact ⟨fun hno => (by cases hno), fun hno => (by cases hno.1)⟩
  | some a => exact ⟨fun ha => ⟨rfl, (h a).1 ha⟩, fun hok => (h a).2 hok.2⟩

lemma isSome_bind_true {α β : Type} {x : Option α} {g : α → Option β} (h : ∀ a, (g a).isSome) :
    (x >>= g).isSome ↔ x.isSome :=
  (isSome_bind_of fun a => iff_of_true (h a) trivial).trans (and_iff_left trivial)

lemma of_isSome_bind {α β : Type} {x : Option α} {g : α → Option β} (h : (x >>= g).isSome) :
    ∃ a, x = some a ∧ (g a).isSome := by
  cases x with
  | none => cases h
  | some a => exact ⟨a, rfl, h⟩

lemma isSome_ite {α : Type} {c : Prop} [Decidable c] {x y : Option α} :
    (if c then x else y).isSome ↔ (c → x.isSome) ∧ (¬ c → y.isSome) := by
  split_ifs with hc
  · exact ⟨fun h => ⟨fun _ => h, fun hno => absurd hc hno⟩, fun h => h.1 hc⟩
  · exact ⟨fun h => ⟨fun hyes => absurd hyes hc, fun _ => h⟩, fun h => h.2 hc⟩

/-! ### Loops of reads -/

section Loops
variable {α σ : Type}

/-- A loop that reads with its counter and adds what it reads to a state. -/
def readEach (n : Nat) (read : Nat → Option α) (add : σ → α → σ) (init : σ) : Option σ :=
  (List.range n).foldlM (fun s i => (read i).map (add s)) init

/-- The first count that passes a test. -/
def firstOf (test : Nat → Option Bool) : List Nat → Option (Option Nat)
  | [] => some none
  | i :: is => do
    if ← test i then return some i
    firstOf test is

/-- **A loop reads what it reads in each of its rounds.** -/
lemma isSome_readEach {n : Nat} {read : Nat → Option α} {add : σ → α → σ} {init : σ} :
    (readEach n read add init).isSome ↔ ∀ i < n, (read i).isSome := by
  have hlist : ∀ (is : List Nat) (init : σ),
      (is.foldlM (fun s i => (read i).map (add s)) init).isSome ↔ ∀ i ∈ is, (read i).isSome := by
    intro is
    induction is with
    | nil => simp
    | cons i is ih =>
      intro init
      rw [List.foldlM_cons, List.forall_mem_cons]
      cases read i with
      | none => simp
      | some a => simpa using ih (add init a)
  rw [readEach, hlist]
  simp

lemma readEach_eq {n : Nat} {read : Nat → Option α} {add : σ → α → σ} {init : σ} {f : Nat → α}
    (h : ∀ i < n, read i = some (f i)) :
    readEach n read add init = some ((List.range n).foldl (fun s i => add s (f i)) init) := by
  have hlist : ∀ (is : List Nat) (init : σ), (∀ i ∈ is, read i = some (f i)) →
      is.foldlM (fun s i => (read i).map (add s)) init =
        some (is.foldl (fun s i => add s (f i)) init) := by
    intro is
    induction is with
    | nil => exact fun init _ => rfl
    | cons i is ih =>
      intro init his
      obtain ⟨hi, his⟩ := List.forall_mem_cons.1 his
      rw [List.foldlM_cons, hi, List.foldl_cons]
      exact ih (add init (f i)) his
  exact hlist _ init fun i hi => h i (List.mem_range.1 hi)

lemma firstOf_eq {test : Nat → Option Bool} {b : Nat → Bool} {is : List Nat}
    (h : ∀ i ∈ is, test i = some (b i)) : firstOf test is = some (is.find? b) := by
  induction is with
  | nil => rfl
  | cons i is ih =>
    obtain ⟨hi, his⟩ := List.forall_mem_cons.1 h
    rw [firstOf, hi]
    cases hb : b i with
    | true => simp [hb]
    | false => simpa [hb] using ih his

lemma firstOf_eq_of_isSome {test : Nat → Option Bool} {b : Nat → Bool} {is : List Nat}
    (h : ∀ i, (test i).isSome → test i = some (b i)) (hsome : (firstOf test is).isSome) :
    firstOf test is = some (is.find? b) := by
  induction is with
  | nil => rfl
  | cons i is ih =>
    rw [firstOf] at hsome ⊢
    cases htest : test i with
    | none =>
      rw [htest] at hsome
      cases hsome
    | some t =>
      have hb := h i (by rw [htest]; rfl)
      rw [htest] at hb hsome
      obtain rfl : t = b i := Option.some.inj hb
      cases hbi : b i with
      | true => simp [hbi]
      | false =>
        rw [hbi] at hsome
        simpa [hbi] using ih hsome

/-- The search reads up to what it finds. -/
lemma isSome_firstOf {test : Nat → Option Bool} {b : Nat → Bool} {n : Nat}
    (h : ∀ i < n, (test i).isSome → test i = some (b i)) (hout : ∀ i < n, ¬ (test i).isSome → b i = false) :
    (firstOf test (List.range n)).isSome ↔ ∀ i < n, (∀ j < i, b j = false) → (test i).isSome := by
  have hlist : ∀ (k n : Nat), (∀ i, k ≤ i → i < k + n → (test i).isSome → test i = some (b i)) →
      (∀ i, k ≤ i → i < k + n → ¬ (test i).isSome → b i = false) →
      ((firstOf test (List.range' k n)).isSome ↔
        ∀ i, k ≤ i → i < k + n → (∀ j, k ≤ j → j < i → b j = false) → (test i).isSome) := by
    intro k n
    induction n generalizing k with
    | zero =>
      intro _ _
      refine ⟨fun _ i hk hi => ?_, fun _ => rfl⟩
      omega
    | succ n ih =>
      intro h hout
      rw [List.range'_succ, firstOf]
      cases htest : test k with
      | none =>
        constructor
        · intro hsome
          cases hsome
        · intro hall
          have hk := hall k le_rfl (by omega) fun j _ _ => by omega
          rw [htest] at hk
          cases hk
      | some t =>
        have hb := h k le_rfl (by omega) (by rw [htest]; rfl)
        rw [htest] at hb
        obtain rfl : t = b k := Option.some.inj hb
        cases hbk : b k with
        | true =>
          refine ⟨fun _ i hk hi hbefore => ?_, fun _ => rfl⟩
          rcases Nat.eq_or_lt_of_le hk with rfl | hlt
          · rw [htest]
            rfl
          · have := hbefore k le_rfl hlt
            rw [hbk] at this
            cases this
        | false =>
          have hrest := ih (k + 1) (fun i hk hi => h i (by omega) (by omega))
            fun i hk hi => hout i (by omega) (by omega)
          refine hrest.trans ⟨fun hall i hk hi hbefore => ?_, fun hall i hk hi hbefore => ?_⟩
          · rcases Nat.eq_or_lt_of_le hk with rfl | hlt
            · rw [htest]
              rfl
            · exact hall i hlt (by omega) fun j hj => hbefore j (by omega)
          · refine hall i (by omega) (by omega) fun j hj hji => ?_
            rcases Nat.eq_or_lt_of_le hj with rfl | hlt
            · exact hbk
            · exact hbefore j hlt hji
  have hrange := hlist 0 n (fun i _ hi => h i (by omega)) fun i _ hi => hout i (by omega)
  rw [← List.range_eq_range'] at hrange
  rw [hrange]
  constructor
  · exact fun hall i hi hbefore => hall i (by omega) (by omega) fun j _ => hbefore j
  · exact fun hall i _ hi hbefore => hall i (by omega) fun j => hbefore j (by omega)

end Loops

end Two09.Lib
