import Two09.Debag.Elf

/-!
# Addresses and the loader

`vaddr_to_offset` and `read_at` of the static debugger, against the bytes that a loader maps at an address.
-/

namespace Two09.Debag

open Two09.Lib

/-! ### The debugger -/

def shfAlloc : UInt64 := 0x2
def shfTls : UInt64 := 0x400
def shtNobits : UInt64 := 8

/-- The test for a section of the loop over the sections. -/
def ElfSection.hasAddress (s : ElfSection) (vaddr : UInt64) : Bool :=
  s.flags &&& shfAlloc ≠ 0 ∧ vaddr ≥ s.vaddr ∧ vaddr < s.vaddr + s.size

/-- The test for a segment of the loop over the segments. -/
def ElfSegment.hasAddress (p : ElfSegment) (vaddr : UInt64) : Bool :=
  p.type = ptLoad ∧ vaddr ≥ p.vaddr ∧ vaddr < p.vaddr + p.filesz

/-- `(uint64_t)-1` -/
def noOffset : UInt64 := 0xffffffffffffffff

/-- `vaddr_to_offset` -/
def vaddrToOffset (a : ElfAnalysis) (vaddr : UInt64) : UInt64 :=
  match a.sections.find? fun s => s.hasAddress vaddr with
  | some s => s.offset + (vaddr - s.vaddr)
  | none =>
    match a.segments.find? fun p => p.hasAddress vaddr with
    | some p => p.offset + (vaddr - p.vaddr)
    | none => noOffset

/-- `pread`, which fails for a negative offset. -/
def pread (file : Bytes) (n : Nat) (off : UInt64) : Option Bytes :=
  if off.toNat < 2 ^ 63 then some ((file.drop off.toNat).take n) else none

/-- `read_at`: the number of bytes that were read, and the buffer. -/
def readAt (file : Bytes) (a : ElfAnalysis) (vaddr : UInt64) (n : Nat) : Nat × Bytes :=
  let off := vaddrToOffset a vaddr
  if off = noOffset then (0, List.replicate n 0)
  else
    match pread file n off with
    | none => (0, List.replicate n 0)
    | some got => (got.length, got ++ List.replicate (n - got.length) 0)

/-- The bytes that `read_at` yields. -/
def yielded (file : Bytes) (a : ElfAnalysis) (vaddr : UInt64) (n : Nat) : Bytes :=
  (readAt file a vaddr n).2.take (readAt file a vaddr n).1

/-! ### The loader -/

/-- A segment as it is in memory: its bytes of the file, then zeros. -/
def ElfSegment.image (file : Bytes) (p : ElfSegment) : Bytes :=
  (file.drop p.offset.toNat).take p.filesz.toNat ++ List.replicate (p.memsz.toNat - p.filesz.toNat) 0

/-- The bytes that the loader maps at an address. -/
def loaded (file : Bytes) (p : ElfSegment) (vaddr : UInt64) (n : Nat) : Bytes :=
  ((p.image file).drop (vaddr.toNat - p.vaddr.toNat)).take n

/-- That a range of addresses is inside the memory of a loaded segment. -/
def ElfSegment.Holds (p : ElfSegment) (vaddr : UInt64) (n : Nat) : Prop :=
  p.type = ptLoad ∧ p.vaddr.toNat ≤ vaddr.toNat ∧ vaddr.toNat + n ≤ p.vaddr.toNat + p.memsz.toNat

/-- An allocated section that is consistent with the loaded segments: what the file has of it is what the file
has of a segment; without bytes in the file it is behind a segment's, unless it is thread-local. -/
def ElfSection.Consistent (s : ElfSection) (segments : List ElfSegment) : Prop :=
  s.vaddr.toNat + s.size.toNat < 2 ^ 64 ∧
  (s.type ≠ shtNobits → ∃ p ∈ segments, p.type = ptLoad ∧ p.vaddr.toNat ≤ s.vaddr.toNat ∧
    s.vaddr.toNat + s.size.toNat ≤ p.vaddr.toNat + p.filesz.toNat ∧
    s.offset.toNat + p.vaddr.toNat = p.offset.toNat + s.vaddr.toNat) ∧
  (s.type = shtNobits → s.flags &&& shfTls = 0 → ∃ p ∈ segments, p.type = ptLoad ∧
    p.vaddr.toNat + p.filesz.toNat ≤ s.vaddr.toNat ∧
    s.vaddr.toNat + s.size.toNat ≤ p.vaddr.toNat + p.memsz.toNat)

/-- Two segments that are not loaded over each other. -/
def ElfSegment.Apart (p q : ElfSegment) : Prop :=
  p.type = ptLoad → q.type = ptLoad →
    p.vaddr.toNat + p.memsz.toNat ≤ q.vaddr.toNat ∨ q.vaddr.toNat + q.memsz.toNat ≤ p.vaddr.toNat

/-- A well-formed file with these headers. -/
structure WellFormed (file : Bytes) (a : ElfAnalysis) : Prop where
  length_file : file.length < 2 ^ 63
  segment : ∀ p ∈ a.segments, p.type = ptLoad → p.filesz.toNat ≤ p.memsz.toNat ∧
    p.vaddr.toNat + p.memsz.toNat < 2 ^ 64 ∧ p.offset.toNat + p.filesz.toNat ≤ file.length
  apart : a.segments.Pairwise ElfSegment.Apart
  consistent : ∀ s ∈ a.sections, s.flags &&& shfAlloc ≠ 0 → s.Consistent a.segments

/-- An address that no allocated section and no loaded segment has. -/
def Nowhere (a : ElfAnalysis) (vaddr : UInt64) : Prop :=
  (∀ s ∈ a.sections, s.flags &&& shfAlloc ≠ 0 →
    vaddr.toNat < s.vaddr.toNat ∨ s.vaddr.toNat + s.size.toNat ≤ vaddr.toNat) ∧
  ∀ p ∈ a.segments, ¬ p.Holds vaddr 1

/-! ### Where the two agree -/

/-- Of a range that goes on behind what the file has of the segment, the file has zeros there. -/
def ZeroBehind (file : Bytes) (p : ElfSegment) (vaddr : UInt64) (n : Nat) : Prop :=
  let behind := vaddr.toNat + n - (p.vaddr.toNat + p.filesz.toNat)
  (file.drop (p.offset.toNat + p.filesz.toNat)).take behind = List.replicate behind 0

/-- When the debugger reads what the loader maps: an address whose first section has bytes in the file, or that has
no section and is in the segment's part of the file, needs zeros behind that part if the range goes there; a
section without bytes in the file needs them by chance where it is said to be. -/
def ReadsLoaded (file : Bytes) (a : ElfAnalysis) (p : ElfSegment) (vaddr : UInt64) (n : Nat) : Prop :=
  n = 0 ∨
  match a.sections.find? fun s => s.hasAddress vaddr with
  | none => vaddr.toNat < p.vaddr.toNat + p.filesz.toNat ∧ ZeroBehind file p vaddr n
  | some s =>
    if s.type = shtNobits then
      (file.drop (s.offset + (vaddr - s.vaddr)).toNat).take n = loaded file p vaddr n
    else ZeroBehind file p vaddr n

section Reads

variable {file : Bytes} {a : ElfAnalysis} {p q : ElfSegment} {vaddr : UInt64} {n : Nat}

/-- What is yielded is what the file has at the offset. -/
lemma yielded_eq (hlen : file.length < 2 ^ 63) :
    yielded file a vaddr n = (file.drop (vaddrToOffset a vaddr).toNat).take n := by
  have hdrop : ∀ k, 2 ^ 63 ≤ k → (file.drop k).take n = [] := by
    intro k hk
    rw [List.drop_eq_nil_of_le (by omega), List.take_nil]
  unfold yielded readAt pread
  by_cases hno : vaddrToOffset a vaddr = noOffset
  · simp only [if_pos hno]
    rw [hno, hdrop _ (by decide), List.take_zero]
  · simp only [if_neg hno]
    by_cases hneg : (vaddrToOffset a vaddr).toNat < 2 ^ 63
    · simp only [if_pos hneg]
      rw [List.take_left' rfl]
    · simp only [if_neg hneg]
      rw [hdrop _ (by omega), List.take_zero]

/-- The addresses of a segment, as numbers. -/
lemma hasAddress_iff (hwf : WellFormed file a) (hq : q ∈ a.segments) :
    q.hasAddress vaddr = true ↔ q.type = ptLoad ∧ q.vaddr.toNat ≤ vaddr.toNat ∧
      vaddr.toNat < q.vaddr.toNat + q.filesz.toNat := by
  unfold ElfSegment.hasAddress
  rw [decide_eq_true_iff]
  refine and_congr_right fun hload => ?_
  obtain ⟨hsize, hmem, -⟩ := hwf.segment q hq hload
  rw [ge_iff_le, UInt64.le_iff_toNat_le, UInt64.lt_iff_toNat_lt, UInt64.toNat_add, Nat.mod_eq_of_lt (by omega)]

/-- The addresses of a section, as numbers. -/
lemma section_hasAddress_iff (hwf : WellFormed file a) {s : ElfSection} (hs : s ∈ a.sections) :
    s.hasAddress vaddr = true ↔ s.flags &&& shfAlloc ≠ 0 ∧ s.vaddr.toNat ≤ vaddr.toNat ∧
      vaddr.toNat < s.vaddr.toNat + s.size.toNat := by
  unfold ElfSection.hasAddress
  rw [decide_eq_true_iff]
  refine and_congr_right fun halloc => ?_
  have hsize := (hwf.consistent s hs halloc).1
  rw [ge_iff_le, UInt64.le_iff_toNat_le, UInt64.lt_iff_toNat_lt, UInt64.toNat_add, Nat.mod_eq_of_lt hsize]

instance : Std.Symm ElfSegment.Apart := ⟨fun _ _ h hq hp => (h hp hq).symm⟩

/-- Two loaded segments with an address in common are one. -/
lemma eq_of_common (hwf : WellFormed file a) (hp : p ∈ a.segments) (hq : q ∈ a.segments)
    (hpv : p.Holds vaddr 1) (hqv : q.Holds vaddr 1) : p = q := by
  obtain ⟨hpload, hplow, hphigh⟩ := hpv
  obtain ⟨hqload, hqlow, hqhigh⟩ := hqv
  by_contra hne
  have hapart := hwf.apart.forall hp hq hne hpload hqload
  omega

/-- The segment that the debugger finds for an address of the loaded one. -/
lemma find_segment (hwf : WellFormed file a) (hp : p ∈ a.segments) (hv : p.Holds vaddr 1) :
    a.segments.find? (fun q => q.hasAddress vaddr) =
      if vaddr.toNat < p.vaddr.toNat + p.filesz.toNat then some p else none := by
  have hfile : ∀ q ∈ a.segments, q.hasAddress vaddr = true → q = p := by
    intro q hq hhas
    obtain ⟨hload, hlow, hhigh⟩ := (hasAddress_iff hwf hq).1 hhas
    have hsize := (hwf.segment q hq hload).1
    exact eq_of_common hwf hq hp ⟨hload, hlow, by omega⟩ hv
  split_ifs with hin
  · cases hfind : a.segments.find? (fun q => q.hasAddress vaddr) with
    | none =>
      have hno := List.find?_eq_none.1 hfind p hp
      exact absurd ((hasAddress_iff hwf hp).2 ⟨hv.1, hv.2.1, hin⟩) hno
    | some q => rw [hfile q (List.mem_of_find?_eq_some hfind) (by simpa using List.find?_some hfind)]
  · rw [List.find?_eq_none]
    intro q hq hhas
    obtain rfl := hfile q hq hhas
    exact hin ((hasAddress_iff hwf hq).1 hhas).2.2

/-- What the file has at the segment's own place is what is loaded if there are zeros behind it. -/
lemma take_eq_loaded_iff (hwf : WellFormed file a) (hp : p ∈ a.segments) (hv : p.Holds vaddr n)
    (hin : vaddr.toNat ≤ p.vaddr.toNat + p.filesz.toNat) {off : Nat}
    (hoff : off + p.vaddr.toNat = p.offset.toNat + vaddr.toNat) :
    (file.drop off).take n = loaded file p vaddr n ↔ ZeroBehind file p vaddr n := by
  obtain ⟨hload, hlow, hhigh⟩ := hv
  obtain ⟨hsize, -, hfile⟩ := hwf.segment p hp hload
  generalize hd : vaddr.toNat - p.vaddr.toNat = d
  obtain rfl : off = p.offset.toNat + d := by omega
  have hlength : ((file.drop p.offset.toNat).take p.filesz.toNat).length = p.filesz.toNat := by
    rw [List.length_take, List.length_drop]
    omega
  have hdrop : file.drop (p.offset.toNat + d) =
      ((file.drop p.offset.toNat).take p.filesz.toNat).drop d ++ file.drop (p.offset.toNat + p.filesz.toNat) := by
    rw [← List.drop_drop, ← List.drop_drop, ← List.drop_append_of_le_length (by omega), List.take_append_drop]
  have hbehind : n - (p.filesz.toNat - d) = vaddr.toNat + n - (p.vaddr.toNat + p.filesz.toNat) := by omega
  have hzeros : (List.replicate (p.memsz.toNat - p.filesz.toNat) (0 : UInt8)).take (n - (p.filesz.toNat - d)) =
      List.replicate (n - (p.filesz.toNat - d)) 0 := by
    rw [List.take_replicate, Nat.min_eq_left (by omega)]
  rw [loaded, ElfSegment.image, hd, hdrop, List.drop_append_of_le_length (by omega), List.take_append,
    List.take_append, List.append_cancel_left_eq, List.length_drop, hlength, hzeros, hbehind]
  rfl

/-- What the debugger yields for an address, by the first section that has it. -/
lemma yielded_section (hwf : WellFormed file a) {s : ElfSection}
    (hfind : a.sections.find? (fun s => s.hasAddress vaddr) = some s) :
    yielded file a vaddr n = (file.drop (s.offset + (vaddr - s.vaddr)).toNat).take n := by
  rw [yielded_eq hwf.length_file, vaddrToOffset, hfind]

lemma yielded_segment (hwf : WellFormed file a) (hfind : a.sections.find? (fun s => s.hasAddress vaddr) = none)
    (hsegment : a.segments.find? (fun q => q.hasAddress vaddr) = some p) :
    yielded file a vaddr n = (file.drop (p.offset + (vaddr - p.vaddr)).toNat).take n := by
  rw [yielded_eq hwf.length_file, vaddrToOffset, hfind]
  simp only [hsegment]

lemma yielded_nowhere (hwf : WellFormed file a) (hfind : a.sections.find? (fun s => s.hasAddress vaddr) = none)
    (hsegment : a.segments.find? (fun q => q.hasAddress vaddr) = none) : yielded file a vaddr n = [] := by
  have hlength := hwf.length_file
  rw [yielded_eq hwf.length_file, vaddrToOffset, hfind]
  simp only [hsegment]
  rw [List.drop_eq_nil_of_le (hlength.le.trans (by decide)), List.take_nil]

/-- The place of an address in a section, as a number. -/
lemma toNat_place {base start : UInt64} (hlow : start.toNat ≤ vaddr.toNat)
    (hfit : base.toNat + (vaddr.toNat - start.toNat) < 2 ^ 64) :
    (base + (vaddr - start)).toNat = base.toNat + (vaddr.toNat - start.toNat) := by
  rw [UInt64.toNat_add, UInt64.toNat_sub_of_le _ _ (UInt64.le_iff_toNat_le.2 hlow), Nat.mod_eq_of_lt hfit]

lemma length_loaded (hwf : WellFormed file a) (hp : p ∈ a.segments) (hv : p.Holds vaddr n) :
    (loaded file p vaddr n).length = n := by
  obtain ⟨hload, hlow, hhigh⟩ := hv
  obtain ⟨hsize, -, hfile⟩ := hwf.segment p hp hload
  simp only [loaded, ElfSegment.image, List.length_take, List.length_drop, List.length_append,
    List.length_replicate]
  omega

/-- **Inside a segment** the debugger reads what the loader maps under the condition, and only then. -/
lemma yielded_eq_loaded_iff (hwf : WellFormed file a) (hp : p ∈ a.segments) (hv : p.Holds vaddr n) :
    yielded file a vaddr n = loaded file p vaddr n ↔ ReadsLoaded file a p vaddr n := by
  unfold ReadsLoaded
  rcases Nat.eq_zero_or_pos n with rfl | hn
  · have hnil : ∀ off, yielded file a vaddr 0 = (file.drop off).take 0 := by
      intro off
      rw [yielded_eq hwf.length_file, List.take_zero, List.take_zero]
    rw [hnil 0, List.take_zero, loaded, List.take_zero]
    simp
  have hne : n ≠ 0 := by omega
  simp only [hne, false_or]
  have hv1 : p.Holds vaddr 1 := ⟨hv.1, hv.2.1, by have := hv.2.2; omega⟩
  obtain ⟨hsize, hmem, hfile⟩ := hwf.segment p hp hv.1
  have hlength := hwf.length_file
  cases hfind : a.sections.find? (fun s => s.hasAddress vaddr) with
  | none =>
    have hsegment := find_segment hwf hp hv1
    by_cases hin : vaddr.toNat < p.vaddr.toNat + p.filesz.toNat
    · rw [if_pos hin] at hsegment
      rw [yielded_segment hwf hfind hsegment, toNat_place hv.2.1 (by omega),
        take_eq_loaded_iff hwf hp hv (by omega) (by have := hv.2.1; omega)]
      simp only [hin, true_and]
    · rw [if_neg hin] at hsegment
      rw [yielded_nowhere hwf hfind hsegment]
      simp only [hin, false_and, iff_false]
      intro hnil
      have hlen := length_loaded hwf hp hv
      rw [← hnil, List.length_nil] at hlen
      omega
  | some s =>
    have hs := List.mem_of_find?_eq_some hfind
    obtain ⟨halloc, hslow, hshigh⟩ := (section_hasAddress_iff hwf hs).1 (by simpa using List.find?_some hfind)
    rw [yielded_section hwf hfind]
    by_cases hbits : s.type = shtNobits
    · simp only [if_pos hbits]
    · simp only [if_neg hbits]
      obtain ⟨q, hq, hqload, hqlow, hqhigh, hplace⟩ := (hwf.consistent s hs halloc).2.1 hbits
      have hqsize := (hwf.segment q hq hqload).1
      obtain rfl := eq_of_common hwf hq hp ⟨hqload, by omega, by omega⟩ hv1
      rw [toNat_place hslow (by omega), take_eq_loaded_iff hwf hq hv (by omega) (by omega)]

/-- **Outside of everything** it reads nothing. -/
lemma yielded_of_nowhere (hwf : WellFormed file a) (h : Nowhere a vaddr) : yielded file a vaddr n = [] := by
  refine yielded_nowhere hwf ?_ ?_
  · rw [List.find?_eq_none]
    intro s hs hhas
    obtain ⟨halloc, hlow, hhigh⟩ := (section_hasAddress_iff hwf hs).1 hhas
    have := h.1 s hs halloc
    omega
  · rw [List.find?_eq_none]
    intro q hq hhas
    obtain ⟨hload, hlow, hhigh⟩ := (hasAddress_iff hwf hq).1 hhas
    have hsize := (hwf.segment q hq hload).1
    exact h.2 q hq ⟨hload, hlow, by omega⟩

end Reads

/-- **What read_at yields** of a well-formed file: inside the memory of a loaded segment what the loader maps
there, exactly under the condition; nothing where there is neither a section nor a segment. -/
theorem readAt_agrees_iff (file : Bytes) (a : ElfAnalysis) (hwf : WellFormed file a) (vaddr : UInt64) (n : Nat) :
    (∀ p ∈ a.segments, p.Holds vaddr n →
      (yielded file a vaddr n = loaded file p vaddr n ↔ ReadsLoaded file a p vaddr n)) ∧
    (Nowhere a vaddr → yielded file a vaddr n = []) :=
  ⟨fun _ hp hv => yielded_eq_loaded_iff hwf hp hv, yielded_of_nowhere hwf⟩

/-! ### A file with a section of zeros -/

deriving instance DecidableEq for ElfSegment, ElfSection

/-- An ELF file with one segment, one byte longer in memory, and `.bss` for this byte. What follows the segment
in the file is text. -/
def bssFile : Mapping where
  base := 0x7f0000000000
  bytes := [0x7f, 0x45, 0x4c, 0x46, 2, 1, 1, 0, 0, 0, 0, 0, 0, 0, 0, 0, 2, 0, 62, 0, 1, 0, 0, 0,
      0, 0, 0x40, 0, 0, 0, 0, 0, 64, 0, 0, 0, 0, 0, 0, 0, 128, 0, 0, 0, 0, 0, 0, 0, 0, 0, 0, 0, 64, 0, 56, 0,
      1, 0, 64, 0, 2, 0, 0, 0] ++
    -- the program header
    ([1, 0, 0, 0, 6, 0, 0, 0, 0, 0, 0, 0, 0, 0, 0, 0, 0, 0, 0x40, 0, 0, 0, 0, 0, 0, 0, 0x40, 0, 0, 0, 0, 0,
      120, 0, 0, 0, 0, 0, 0, 0, 121, 0, 0, 0, 0, 0, 0, 0] ++ List.replicate 8 0) ++
    ascii "GCC 14.2" ++
    -- the section headers
    List.replicate 64 0 ++
    ([0, 0, 0, 0, 8, 0, 0, 0, 3, 0, 0, 0, 0, 0, 0, 0, 120, 0, 0x40, 0, 0, 0, 0, 0, 120, 0, 0, 0, 0, 0, 0, 0,
      1, 0, 0, 0, 0, 0, 0, 0] ++ List.replicate 24 0)
  low := Mapping.low_mmap
  high := by
    simp only [List.length_append, List.length_cons, List.length_nil, List.length_replicate]
    decide

def bssSegment : ElfSegment := ⟨1, 6, 0x400000, 0, 120, 121⟩

def bssSection : ElfSection := ⟨[], 0x400078, 120, 1, 8, 3⟩

/-- The headers of the file. -/
lemma bssFile_headers : ∃ a, debagAnalyze bssFile = some (some a) ∧ a.segments = [bssSegment] ∧
    a.sections = [⟨[], 0, 0, 0, 0, 0⟩, bssSection] := by
  have hheaders : (debagAnalyze bssFile).map (Option.map fun a => (a.segments, a.sections)) =
      some (some ([bssSegment], [⟨[], 0, 0, 0, 0, 0⟩, bssSection])) := by decide +kernel
  obtain ⟨r, ha, hr⟩ := Option.map_eq_some_iff.1 hheaders
  obtain ⟨a, rfl, hpair⟩ := Option.map_eq_some_iff.1 hr
  exact ⟨a, ha, Prod.ext_iff.1 hpair⟩

lemma bssFile_wellFormed {a : ElfAnalysis} (hsegments : a.segments = [bssSegment])
    (hsections : a.sections = [⟨[], 0, 0, 0, 0, 0⟩, bssSection]) : WellFormed bssFile.bytes a := by
  have hlength : bssFile.bytes.length = 256 := by decide +kernel
  refine ⟨by omega, ?_, ?_, ?_⟩
  · intro p hp hload
    rw [hsegments, List.mem_singleton] at hp
    subst hp
    rw [hlength]
    decide
  · rw [hsegments]
    exact List.pairwise_singleton _ _
  · intro s hs halloc
    rw [hsections] at hs
    rcases List.mem_pair.1 hs with rfl | rfl
    · exact absurd rfl halloc
    · refine ⟨by decide, fun hbits => absurd rfl hbits, fun _ _ => ⟨bssSegment, ?_, rfl, by decide, by decide⟩⟩
      rw [hsegments]
      exact List.mem_singleton_self _

/-- The bytes that the file has of the segment are read as they are loaded. -/
theorem bssFile_agrees : ∃ a, debagAnalyze bssFile = some (some a) ∧
    yielded bssFile.bytes a 0x400000 120 = loaded bssFile.bytes bssSegment 0x400000 120 := by
  obtain ⟨a, ha, hsegments, hsections⟩ := bssFile_headers
  have hp : bssSegment ∈ a.segments := by
    rw [hsegments]
    exact List.mem_singleton_self _
  have hagrees := (readAt_agrees_iff bssFile.bytes a (bssFile_wellFormed hsegments hsections) 0x400000 120).1
    bssSegment hp ⟨rfl, by decide, by decide⟩
  refine ⟨a, ha, hagrees.2 (.inr ?_)⟩
  have hfind : a.sections.find? (fun s => s.hasAddress 0x400000) = none := by
    rw [hsections]
    decide
  rw [hfind]
  exact ⟨by decide, rfl⟩

/-- Of `.bss` the debugger reads the text that follows in the file. -/
theorem bssFile_not_agrees : ∃ a, debagAnalyze bssFile = some (some a) ∧ WellFormed bssFile.bytes a ∧
    ∃ p ∈ a.segments, p.Holds 0x400078 1 ∧ yielded bssFile.bytes a 0x400078 1 = ascii "G" ∧
      loaded bssFile.bytes p 0x400078 1 = [0] := by
  obtain ⟨a, ha, hsegments, hsections⟩ := bssFile_headers
  have hwf := bssFile_wellFormed hsegments hsections
  refine ⟨a, ha, hwf, bssSegment, ?_, ⟨rfl, by decide, by decide⟩, ?_, by decide +kernel⟩
  · rw [hsegments]
    exact List.mem_singleton_self _
  · have hfind : a.sections.find? (fun s => s.hasAddress 0x400078) = some bssSection := by
      rw [hsections]
      decide
    rw [yielded_section hwf hfind]
    decide +kernel

end Two09.Debag
