import Two09.Debag.Elf

/-!
# Reads of the analysis

When every read of `debag_analyze` stays inside the mapped file: exactly when the tables that the headers
speak of, as far as they are used, and the strings that their entries point to lie in the file. Nothing in
the code checks any of this.
-/

namespace Two09.Debag

open Two09.Lib

/-! ### What the file says -/

section Values
variable (m : Mapping) (h : Ehdr)

/-- Where a section begins. -/
def start (i : Nat) : UInt64 := m.base + m.get 8 (shdr m h i + 24)

/-- How many entries of so many bytes a section has. -/
def count (i : Nat) (entry : UInt64) : Nat := (m.get 8 (shdr m h i + 32) / entry).toNat

/-- The section that a section links to. -/
def link (i : Nat) : Option Nat :=
  if (m.get 4 (shdr m h i + 40)).toNat < h.shnum then some (m.get 4 (shdr m h i + 40)).toNat else none

/-- Where the names of sections are, or zero. -/
def names : UInt64 :=
  if h.shstrndx ≠ 0 ∧ h.shstrndx < h.shnum then start m h h.shstrndx else 0

/-- The last section of a type. -/
def lastSection (type : UInt64) : Option Nat :=
  ((List.range h.shnum).filter fun i => m.get 4 (shdr m h i + 4) = type).getLast?

/-- Whether a segment is loaded and has an address in its first bytes. -/
def segmentHas (size va : UInt64) (j : Nat) : Bool :=
  m.get 4 (phdr m h j) = ptLoad ∧ m.get 8 (phdr m h j + 16) ≤ va ∧
    va < m.get 8 (phdr m h j + 16) + m.get 8 (phdr m h j + size)

/-- Where an address is in the file, zero if no segment has it. -/
def address (size va : UInt64) : UInt64 :=
  match (List.range h.phnum).find? (segmentHas m h size va) with
  | none => 0
  | some j => m.base + m.get 8 (phdr m h j + 8) + (va - m.get 8 (phdr m h j + 16))

/-- The first entry of a dynamic section for its strings. -/
def strtabEntry (st : UInt64) (n : Nat) : Option Nat :=
  (List.range n).find? fun i => m.get 8 (dyn st i) = dtStrtab

/-- Where the strings of a dynamic section are, or zero. -/
def stringsAt (st : UInt64) (n : Nat) : UInt64 :=
  match strtabEntry m st n with
  | none => 0
  | some i => address m h 40 (m.get 8 (dyn st i + 8))

/-- A tag and the value that is read with it. -/
def tagged (st : UInt64) (i : Nat) : UInt64 × UInt64 :=
  (m.get 8 (dyn st i), if m.get 8 (dyn st i) ∈ valued then m.get 8 (dyn st i + 8) else 0)

def infoOf (st : UInt64) (n : Nat) : DynInfo :=
  (List.range n).foldl (fun x i => x.set (tagged m st i)) ⟨none, 0, dtRela, none, 0, none, 0, none, 0⟩

/-- The entry for a symbol, by its index. -/
def SymSource.entryAt (s : SymSource) (idx : UInt64) : UInt64 :=
  let base := match s.symtab with
    | none => 0
    | some va => address m h 32 va
  let p := if base = 0 then 0 else base + 24 * idx
  if p = 0 ∧ idx.toNat < s.dynsymCount then s.dynsyms + 24 * idx else p

/-- What `resolve_sym` works with. -/
def symSource (d i j : Nat) : SymSource :=
  ⟨(infoOf m (start m h d) (count m h d 16)).symtab, start m h i, count m h i 24, start m h j⟩

end Values

/-! ### What has to lie in the file -/

section Fits
variable (m : Mapping) (h : Ehdr)

/-- A symbol, whose name has to end in the file. -/
structure SymbolFits (syms strtab : UInt64) (i : Nat) : Prop where
  name : m.Has 4 (sym syms i)
  text : m.HasString (strtab + m.get 4 (sym syms i))
  rest : m.text (strtab + m.get 4 (sym syms i)) ≠ [] → m.Has 24 (sym syms i)

/-- What tells whether a symbol is a function, and then whether it is defined. -/
structure FunctionFits (syms : UInt64) (i : Nat) : Prop where
  info : m.Has 1 (sym syms i + 4)
  section_ : m.get 1 (sym syms i + 4) % 16 = 2 → m.Has 2 (sym syms i + 6)

/-- A dynamic section, as far as it is searched for libraries, and their names. -/
structure LibrariesFit (st : UInt64) (n : Nat) : Prop where
  search : ∀ i < n, (∀ j < i, m.get 8 (dyn st j) ≠ dtStrtab) → m.Has 8 (dyn st i)
  strtab : ∀ i, strtabEntry m st n = some i → (∃ j < h.phnum, m.get 4 (phdr m h j) = ptLoad) →
    m.Has 8 (dyn st i + 8)
  needed : stringsAt m h st n ≠ 0 → ∀ i < n, m.Has 8 (dyn st i) ∧
    (m.get 8 (dyn st i) = dtNeeded → m.Has 8 (dyn st i + 8) ∧
      m.HasString (stringsAt m h st n + m.get 8 (dyn st i + 8)))

/-- The entry for the symbol of a relocation. -/
def symbolOf (s : SymSource) (p : UInt64) : UInt64 := s.entryAt m h (m.get 8 (p + 8) / 2 ^ 32)

/-- A relocation, the symbol it is for, and the name of that. -/
structure RelocFits (s : SymSource) (isRela : Bool) (p : UInt64) : Prop where
  entry : m.Has (relocSize isRela).toNat p
  symbol : symbolOf m h s p ≠ 0 → m.Has 16 (symbolOf m h s p)
  name : symbolOf m h s p ≠ 0 → s.dynstr + m.get 4 (symbolOf m h s p) ≠ 0 →
    m.HasString (s.dynstr + m.get 4 (symbolOf m h s p))

/-- A table of relocations at an address. -/
def TableFits (s : SymSource) (va : Option UInt64) (bytes : UInt64) (isRela : Bool) : Prop :=
  ∀ v, va = some v → address m h 32 v ≠ 0 → ∀ i < (bytes / relocSize isRela).toNat,
    RelocFits m h s isRela (rel (address m h 32 v) isRela i)

/-- **What the analysis relies on**: the headers, the symbols, the dynamic section and the relocations that
it comes by lie in the file, and every name among them ends there. -/
structure Fits : Prop where
  sections : ∀ i < h.shnum, m.Has 36 (shdr m h i + 4)
  named : names m h ≠ 0 → ∀ i < h.shnum, m.Has 4 (shdr m h i) ∧
    m.HasString (names m h + m.get 4 (shdr m h i))
  segments : ∀ j < h.phnum, m.Has 48 (phdr m h j)
  links : ∀ t ∈ [shtDynsym, shtSymtab], ∀ i, lastSection m h t = some i → m.Has 4 (shdr m h i + 40)
  symbols : ∀ t ∈ [shtDynsym, shtSymtab], ∀ i j, lastSection m h t = some i → link m h i = some j →
    ∀ k < count m h i 24, SymbolFits m (start m h i) (start m h j) k
  functions : ∀ i j, lastSection m h shtDynsym = some i → link m h i = some j →
    ∀ k < count m h i 24, FunctionFits m (start m h i) k
  libraries : ∀ d, lastSection m h shtDynamic = some d →
    LibrariesFit m h (start m h d) (count m h d 16)
  entries : ∀ d i j, lastSection m h shtDynamic = some d → lastSection m h shtDynsym = some i →
    link m h i = some j → ∀ k < count m h d 16, m.Has 8 (dyn (start m h d) k) ∧
      (m.get 8 (dyn (start m h d) k) ∈ valued → m.Has 8 (dyn (start m h d) k + 8))
  relocs : ∀ d i j, lastSection m h shtDynamic = some d → lastSection m h shtDynsym = some i →
    link m h i = some j → let x := infoOf m (start m h d) (count m h d 16)
      TableFits m h (symSource m h d i j) x.jmprel x.pltrelsz (x.pltrel = dtRela) ∧
      TableFits m h (symSource m h d i j) x.rela x.relasz true ∧
      TableFits m h (symSource m h d i j) x.rel x.relsz false

end Fits

/-! ### Sections and segments -/

section Headers
variable {m : Mapping} {h : Ehdr} {i j : Nat}

lemma gives_sectionStart (i : Nat) :
    Gives (sectionStart m h i) (m.Has 8 (shdr m h i + 24)) (start m h i) :=
  (Gives.word (by omega)).map fun offset => m.base + offset

lemma gives_sectionCount (i : Nat) (entry : UInt64) :
    Gives (sectionCount m h i entry) (m.Has 8 (shdr m h i + 32)) (count m h i entry) :=
  (Gives.word (by omega)).map fun size => (size / entry).toNat

lemma gives_linked (i : Nat) : Gives (linked m h i) (m.Has 4 (shdr m h i + 40)) (link m h i) :=
  (Gives.word (by omega)).map fun link => if link.toNat < h.shnum then some link.toNat else none

lemma has_sectionStart (hs : ∀ i < h.shnum, m.Has 36 (shdr m h i + 4)) (hi : i < h.shnum) :
    m.Has 8 (shdr m h i + 24) := by
  have hlen := m.length_le
  have hsection := hs i hi
  rw [Mapping.has_add, show (4 : UInt64).toNat = 4 from rfl] at hsection
  rw [Mapping.has_add, show (24 : UInt64).toNat = 24 from rfl]
  omega

lemma has_sectionSize (hs : ∀ i < h.shnum, m.Has 36 (shdr m h i + 4)) (hi : i < h.shnum) :
    m.Has 8 (shdr m h i + 32) := by
  have hlen := m.length_le
  have hsection := hs i hi
  rw [Mapping.has_add, show (4 : UInt64).toNat = 4 from rfl] at hsection
  rw [Mapping.has_add, show (32 : UInt64).toNat = 32 from rfl]
  omega

lemma has_sectionType (hs : ∀ i < h.shnum, m.Has 36 (shdr m h i + 4)) (hi : i < h.shnum) :
    m.Has 4 (shdr m h i + 4) := by
  have hsection := hs i hi
  unfold Mapping.Has at hsection ⊢
  omega

lemma gives_shstrtab (hs : ∀ i < h.shnum, m.Has 36 (shdr m h i + 4)) :
    shstrtab m h = some (names m h) := by
  unfold shstrtab names
  split_ifs with hidx
  · exact (gives_sectionStart h.shstrndx).eq_some (has_sectionStart hs hidx.2)
  · rfl

lemma isSome_elfSection (at_ : UInt64) : (elfSection m h at_ i).isSome ↔
    m.Has 36 (shdr m h i + 4) ∧
      (at_ ≠ 0 → m.Has 4 (shdr m h i) ∧ m.HasString (at_ + m.get 4 (shdr m h i))) := by
  have hlen := m.length_le
  have hoff := m.offset_lt (shdr m h i)
  have hname : (sectionName m at_ (shdr m h i)).isSome ↔
      (at_ ≠ 0 → m.Has 4 (shdr m h i) ∧ m.HasString (at_ + m.get 4 (shdr m h i))) := by
    unfold sectionName
    rw [isSome_ite, Mapping.isSome_word_bind (by omega), Mapping.isSome_string]
    exact ⟨fun h => h.2, fun h => ⟨fun _ => rfl, h⟩⟩
  have hfields : elfSection m h at_ i = sectionName m at_ (shdr m h i) >>= fun name => do
      let vaddr ← m.word 8 (shdr m h i + 16)
      let offset ← m.word 8 (shdr m h i + 24)
      let size ← m.word 8 (shdr m h i + 32)
      let type ← m.word 4 (shdr m h i + 4)
      let flags ← m.word 8 (shdr m h i + 8)
      return ⟨name, vaddr, offset, size, type, flags⟩ := rfl
  rw [hfields, isSome_bind_of fun name => ?_, hname, and_comm]
  simp only [Mapping.isSome_word_bind (show 0 < 8 by omega), Mapping.isSome_word_bind (show 0 < 4 by omega)]
  simp only [Mapping.has_add, UInt64.toNat_ofNat]
  constructor
  · rintro ⟨h16, h24, h32, h4, h8, -⟩
    omega
  · intro hall
    refine ⟨?_, ?_, ?_, ?_, ?_, rfl⟩ <;> omega

lemma isSome_elfSegment : (elfSegment m h j).isSome ↔ m.Has 48 (phdr m h j) := by
  have hlen := m.length_le
  have hoff := m.offset_lt (phdr m h j)
  unfold elfSegment
  simp only [Mapping.isSome_word_bind (show 0 < 8 by omega), Mapping.isSome_word_bind (show 0 < 4 by omega)]
  simp only [Mapping.has_add, UInt64.toNat_ofNat]
  unfold Mapping.Has
  constructor
  · rintro ⟨h0, h4, h16, h8, h32, h40, -⟩
    omega
  · intro hall
    refine ⟨?_, ?_, ?_, ?_, ?_, ?_, rfl⟩ <;> omega

/-- The sections that the loop picks out are the last ones of their types. -/
lemma foldl_tables (type : Nat → UInt64) (n : Nat) :
    (List.range n).foldl (fun t i => t.add (i, type i)) (⟨none, none, none⟩ : Tables) =
      ⟨((List.range n).filter fun i => type i = shtDynsym).getLast?,
        ((List.range n).filter fun i => type i = shtSymtab).getLast?,
        ((List.range n).filter fun i => type i = shtDynamic).getLast?⟩ := by
  have hne : shtSymtab ≠ shtDynsym ∧ shtDynamic ≠ shtDynsym ∧ shtDynamic ≠ shtSymtab := by decide
  induction n with
  | zero => rfl
  | succ n ih =>
    have hlast : ∀ t : UInt64, ((List.range (n + 1)).filter fun i => type i = t).getLast? =
        if type n = t then some n else ((List.range n).filter fun i => type i = t).getLast? := by
      intro t
      rw [List.range_succ, List.filter_append]
      split_ifs with ht
      · rw [List.filter_cons_of_pos (by simpa using ht), List.filter_nil, List.getLast?_concat]
      · rw [List.filter_cons_of_neg (by simpa using ht), List.filter_nil, List.append_nil]
    rw [hlast, hlast, hlast, List.range_succ, List.foldl_append, ih, List.foldl_cons, List.foldl_nil,
      Tables.add]
    by_cases h₁ : type n = shtDynsym
    · rw [if_pos h₁, if_pos h₁, if_neg (h₁ ▸ hne.1.symm), if_neg (h₁ ▸ hne.2.1.symm)]
    · rw [if_neg h₁, if_neg h₁]
      by_cases h₂ : type n = shtSymtab
      · rw [if_pos h₂, if_pos h₂, if_neg (h₂ ▸ hne.2.2.symm)]
      · rw [if_neg h₂, if_neg h₂]
        split_ifs
        · rfl
        · rfl

lemma gives_tables (hs : ∀ i < h.shnum, m.Has 36 (shdr m h i + 4)) :
    tables m h = some ⟨lastSection m h shtDynsym, lastSection m h shtSymtab,
      lastSection m h shtDynamic⟩ := by
  unfold tables
  rw [readEach_eq (f := fun i => (i, m.get 4 (shdr m h i + 4))), foldl_tables]
  · rfl
  · intro i hi
    rw [Mapping.word_eq (by omega) (has_sectionType hs hi)]
    rfl

lemma lt_of_lastSection {type : UInt64} (hi : lastSection m h type = some i) : i < h.shnum :=
  List.mem_range.1 (List.mem_of_mem_filter (List.mem_of_mem_getLast? hi))

lemma lt_of_link (hj : link m h i = some j) : j < h.shnum := by
  unfold link at hj
  split_ifs at hj with hlt
  exact Option.some.inj hj ▸ hlt

/-- A table of symbols with its strings, if it has some. -/
def withStrings (m : Mapping) (h : Ehdr) (t : Option Nat) : Option (Nat × Nat) :=
  t.bind fun i => (link m h i).map fun j => (i, j)

lemma gives_stringsOf (t : Option Nat) :
    Gives (stringsOf m h t) (∀ i, t = some i → m.Has 4 (shdr m h i + 40)) (withStrings m h t) := by
  cases t with
  | none => exact ⟨fun _ => rfl, fun hno => absurd (fun i hi => by cases hi) hno⟩
  | some i =>
    have hlink := (@gives_linked m h i).map fun j => j.map fun j => (i, j)
    refine ⟨fun hok => hlink.eq_some (hok i rfl), fun hno => hlink.eq_none fun hyes => hno ?_⟩
    rintro i' ⟨⟩
    exact hyes

lemma withStrings_eq_some {t : Option Nat} {i j : Nat} :
    withStrings m h t = some (i, j) ↔ t = some i ∧ link m h i = some j := by
  unfold withStrings
  cases t with
  | none => simp
  | some k =>
    rw [Option.bind_some, Option.map_eq_some_iff]
    constructor
    · rintro ⟨l, hl, heq⟩
      cases heq
      exact ⟨rfl, hl⟩
    · rintro ⟨heq, hl⟩
      cases heq
      exact ⟨j, hl, rfl⟩

end Headers

/-! ### Symbols -/

section Symbols
variable {m : Mapping} {h : Ehdr} {i j : Nat} {syms strtab : UInt64}

lemma isSome_elfSymbol : (elfSymbol m syms strtab i).isSome ↔ SymbolFits m syms strtab i := by
  have hlen := m.length_le
  have hoff := m.offset_lt (sym syms i)
  have hrest : ∀ name : UInt64, (do
      let shndx ← m.word 2 (sym syms i + 6)
      let value ← m.word 8 (sym syms i + 8)
      let size ← m.word 8 (sym syms i + 16)
      let info ← m.word 1 (sym syms i + 4)
      let text ← m.string (strtab + name)
      return some (⟨text, value, size, info % 16, info / 16, shndx = 0⟩ : ElfSymbol)).isSome ↔
      m.Has 20 (sym syms i + 4) ∧ m.HasString (strtab + name) := by
    intro name
    simp only [Mapping.isSome_word_bind (show 0 < 8 by omega),
      Mapping.isSome_word_bind (show 0 < 2 by omega), Mapping.isSome_word_bind (show 0 < 1 by omega),
      Mapping.isSome_string_bind]
    simp only [Mapping.has_add, UInt64.toNat_ofNat]
    constructor
    · rintro ⟨h6, h8, h16, h4, htext, -⟩
      exact ⟨by omega, htext⟩
    · rintro ⟨hall, htext⟩
      refine ⟨?_, ?_, ?_, ?_, htext, rfl⟩ <;> omega
  have hsplit : (elfSymbol m syms strtab i).isSome ↔ m.Has 4 (sym syms i) ∧
      m.HasString (strtab + m.get 4 (sym syms i)) ∧
      (m.text (strtab + m.get 4 (sym syms i)) ≠ [] → m.Has 20 (sym syms i + 4) ∧
        m.HasString (strtab + m.get 4 (sym syms i))) := by
    unfold elfSymbol
    rw [Mapping.isSome_word_bind (by omega), ← hrest]
    exact and_congr_right fun _ => Mapping.isSome_named fun hsome => ((hrest _).1 hsome).2
  rw [hsplit]
  constructor
  · rintro ⟨hname, htext, hmore⟩
    refine ⟨hname, htext, fun hne => ?_⟩
    have hfields := (hmore hne).1
    simp only [Mapping.has_add, UInt64.toNat_ofNat] at hfields
    unfold Mapping.Has at hname ⊢
    omega
  · rintro ⟨hname, htext, hmore⟩
    refine ⟨hname, htext, fun hne => ⟨?_, htext⟩⟩
    have hfields := hmore hne
    simp only [Mapping.has_add, UInt64.toNat_ofNat]
    unfold Mapping.Has at hfields
    omega

/-- What the walk over the symbols reads besides. -/
lemma isSome_dynSym (hfits : SymbolFits m syms strtab i) :
    (dynSym m syms strtab i).isSome ↔ FunctionFits m syms i := by
  have hname : (m.word 4 (sym syms i) >>= fun name => m.byte (strtab + name) >>= fun first =>
      if first = 0 then some (⟨[], true, false⟩ : DynSym)
      else m.string (strtab + name) >>= fun text => some ⟨text, true, false⟩).isSome := by
    rw [Mapping.isSome_word_bind (by omega)]
    refine ⟨hfits.name, (Mapping.isSome_named fun hsome => ?_).2 ⟨hfits.text, fun _ => ?_⟩⟩
    · exact (Mapping.isSome_string_bind.1 hsome).1
    · exact Mapping.isSome_string_bind.2 ⟨hfits.text, rfl⟩
  have hsplit : (dynSym m syms strtab i).isSome ↔ m.Has 1 (sym syms i + 4) ∧
      (m.get 1 (sym syms i + 4) % 16 = 2 → m.Has 2 (sym syms i + 6)) := by
    unfold dynSym
    rw [Mapping.isSome_word_bind (by omega)]
    refine and_congr_right fun _ => ?_
    rw [isSome_ite, Mapping.isSome_word_bind (by omega), isSome_ite]
    constructor
    · exact fun h heq => (h.2 (not_not.2 heq)).1
    · exact fun h => ⟨fun _ => rfl, fun heq => ⟨h (not_not.1 heq), fun _ => rfl, fun _ => hname⟩⟩
  rw [hsplit]
  exact ⟨fun h => ⟨h.1, h.2⟩, fun h => ⟨h.info, h.section_⟩⟩

lemma isSome_addSymbols (hs : ∀ i < h.shnum, m.Has 36 (shdr m h i + 4)) (symbols : List ElfSymbol)
    (hi : i < h.shnum) (hj : j < h.shnum) : (addSymbols m h symbols (some (i, j))).isSome ↔
      ∀ k < count m h i 24, SymbolFits m (start m h i) (start m h j) k := by
  rw [addSymbols, (gives_sectionStart i).isSome_bind, (gives_sectionCount i 24).isSome_bind,
    (gives_sectionStart j).isSome_bind, isSome_readEach]
  simp only [isSome_elfSymbol]
  exact ⟨fun h => h.2.2.2, fun h => ⟨has_sectionStart hs hi, has_sectionSize hs hi,
    has_sectionStart hs hj, h⟩⟩

lemma isSome_walkSymbols (hs : ∀ i < h.shnum, m.Has 36 (shdr m h i + 4)) (hi : i < h.shnum)
    (hj : j < h.shnum) (hfits : ∀ k < count m h i 24, SymbolFits m (start m h i) (start m h j) k) :
    (walkSymbols m h (some (i, j))).isSome ↔ ∀ k < count m h i 24, FunctionFits m (start m h i) k := by
  rw [walkSymbols, (gives_sectionStart i).isSome_bind, (gives_sectionCount i 24).isSome_bind,
    (gives_sectionStart j).isSome_bind, isSome_readEach]
  constructor
  · exact fun h k hk => (isSome_dynSym (hfits k hk)).1 (h.2.2.2 k hk)
  · exact fun h => ⟨has_sectionStart hs hi, has_sectionSize hs hi, has_sectionStart hs hj,
      fun k hk => (isSome_dynSym (hfits k hk)).2 (h k hk)⟩

end Symbols

/-! ### Addresses -/

section Dynamic
variable {m : Mapping} {h : Ehdr} {st size : UInt64} {n i j : Nat} {va : Option UInt64}

lemma has_phdr (hseg : ∀ j < h.phnum, m.Has 48 (phdr m h j)) (hj : j < h.phnum) :
    m.Has 4 (phdr m h j) ∧ m.Has 8 (phdr m h j + 8) ∧ m.Has 8 (phdr m h j + 16) ∧
      m.Has 8 (phdr m h j + 32) ∧ m.Has 8 (phdr m h j + 40) := by
  have hlen := m.length_le
  have hall := hseg j hj
  simp only [Mapping.has_add, UInt64.toNat_ofNat]
  unfold Mapping.Has at hall ⊢
  refine ⟨?_, ?_, ?_, ?_, ?_⟩ <;> omega

lemma inSegment_eq (hseg : ∀ j < h.phnum, m.Has 48 (phdr m h j)) (hsize : size = 32 ∨ size = 40)
    (hj : j < h.phnum) (hva : m.get 4 (phdr m h j) = ptLoad → va.isSome) :
    inSegment m h size va j = some (segmentHas m h size (va.getD 0) j) := by
  obtain ⟨htype, -, hvaddr, hfilesz, hmemsz⟩ := has_phdr hseg hj
  have hlast : m.Has 8 (phdr m h j + size) := by
    rcases hsize with rfl | rfl
    · exact hfilesz
    · exact hmemsz
  have hbind : inSegment m h size va j = if m.get 4 (phdr m h j) ≠ ptLoad then some false else
      va >>= fun va => m.word 8 (phdr m h j + 16) >>= fun vaddr =>
        if va < vaddr then some false else m.word 8 (phdr m h j + size) >>= fun size =>
          some (decide (va < vaddr + size)) := by
    unfold inSegment
    rw [Mapping.word_eq (by omega) htype]
    rfl
  rw [hbind]
  unfold segmentHas
  split_ifs with hload
  · simp [hload]
  · rw [not_not] at hload
    obtain ⟨v, rfl⟩ := Option.isSome_iff_exists.1 (hva hload)
    rw [Option.bind_eq_bind, Option.bind_some, Mapping.word_eq (by omega) hvaddr, Option.bind_some,
      Mapping.word_eq (by omega) hlast, Option.bind_some]
    split_ifs with hlt
    · simp [hload, hlt]
    · have hle := UInt64.not_lt.1 hlt
      simp [hload, hle]

lemma inSegment_eq_none (hseg : ∀ j < h.phnum, m.Has 48 (phdr m h j)) (hj : j < h.phnum)
    (hload : m.get 4 (phdr m h j) = ptLoad) : inSegment m h size none j = none := by
  unfold inSegment
  rw [Mapping.word_eq (by omega) (has_phdr hseg hj).1, Option.bind_eq_bind, Option.bind_some,
    if_neg (not_not.2 hload)]
  rfl

/-- **An address is looked for in the segments that are loaded**, and if there are any it has to be read. -/
lemma gives_translate (hseg : ∀ j < h.phnum, m.Has 48 (phdr m h j)) (hsize : size = 32 ∨ size = 40) :
    Gives (translate m h size va) ((∃ j < h.phnum, m.get 4 (phdr m h j) = ptLoad) → va.isSome)
      (address m h size (va.getD 0)) := by
  constructor
  · intro hva
    have hfirst : firstOf (inSegment m h size va) (List.range h.phnum) =
        some ((List.range h.phnum).find? (segmentHas m h size (va.getD 0))) :=
      firstOf_eq fun j hj => inSegment_eq hseg hsize (List.mem_range.1 hj)
        fun hload => hva ⟨j, List.mem_range.1 hj, hload⟩
    unfold translate address
    rw [hfirst, Option.bind_eq_bind, Option.bind_some]
    cases hfind : (List.range h.phnum).find? (segmentHas m h size (va.getD 0)) with
    | none => rfl
    | some j =>
      have hj := List.mem_range.1 (List.mem_of_find?_eq_some hfind)
      have hhas : segmentHas m h size (va.getD 0) j = true := List.find?_some hfind
      unfold segmentHas at hhas
      rw [decide_eq_true_iff] at hhas
      obtain ⟨v, rfl⟩ := Option.isSome_iff_exists.1 (hva ⟨j, hj, hhas.1⟩)
      obtain ⟨-, hoffset, hvaddr, -⟩ := has_phdr hseg hj
      simp only
      rw [Mapping.word_eq (by omega) hoffset, Mapping.word_eq (by omega) hvaddr]
      rfl
  · intro hno
    obtain ⟨⟨j, hj, hload⟩, hva⟩ := Classical.not_imp.1 hno
    obtain rfl : va = none := Option.not_isSome_iff_eq_none.1 hva
    have hfails : ¬ (firstOf (inSegment m h size none) (List.range h.phnum)).isSome := by
      rw [isSome_firstOf (b := fun _ => false)]
      · intro hall
        have hsome := hall j hj fun _ _ => rfl
        rw [inSegment_eq_none hseg hj hload] at hsome
        cases hsome
      · intro i hi hsome
        have hnot : m.get 4 (phdr m h i) ≠ ptLoad := by
          intro hload
          rw [inSegment_eq_none hseg hi hload] at hsome
          cases hsome
        rw [inSegment_eq hseg hsize hi fun hload => absurd hload hnot]
        simp [segmentHas, hnot]
      · exact fun _ _ _ => rfl
    unfold translate
    rw [Option.not_isSome_iff_eq_none.1 hfails]
    rfl

lemma vaddrToPtr_eq (hseg : ∀ j < h.phnum, m.Has 48 (phdr m h j)) (va : UInt64) :
    vaddrToPtr m h va = some (address m h 32 va) :=
  (gives_translate hseg (.inl rfl)).eq_some fun _ => rfl

/-! ### Libraries -/

/-- The strings of a dynamic section are looked for up to the first entry that is for them. -/
lemma gives_dynStrings (hseg : ∀ j < h.phnum, m.Has 48 (phdr m h j)) :
    Gives (dynStrings m h st n)
      ((∀ i < n, (∀ j < i, m.get 8 (dyn st j) ≠ dtStrtab) → m.Has 8 (dyn st i)) ∧
        ∀ i, strtabEntry m st n = some i → (∃ j < h.phnum, m.get 4 (phdr m h j) = ptLoad) →
          m.Has 8 (dyn st i + 8))
      (stringsAt m h st n) := by
  have htest : ∀ i, ((m.word 8 (dyn st i)).map fun tag => decide (tag = dtStrtab)).isSome →
      (m.word 8 (dyn st i)).map (fun tag => decide (tag = dtStrtab)) =
        some (decide (m.get 8 (dyn st i) = dtStrtab)) := by
    intro i hi
    rw [Option.isSome_map, Mapping.isSome_word (by omega)] at hi
    rw [Mapping.word_eq (by omega) hi]
    rfl
  have hout : ∀ i, ¬ ((m.word 8 (dyn st i)).map fun tag => decide (tag = dtStrtab)).isSome →
      decide (m.get 8 (dyn st i) = dtStrtab) = false := by
    intro i hi
    rw [Option.isSome_map] at hi
    unfold Mapping.get
    rw [Option.not_isSome_iff_eq_none.1 hi]
    rfl
  have hsearch : (firstOf (fun i => (m.word 8 (dyn st i)).map fun tag => decide (tag = dtStrtab))
      (List.range n)).isSome ↔ ∀ i < n, (∀ j < i, m.get 8 (dyn st j) ≠ dtStrtab) →
        m.Has 8 (dyn st i) := by
    rw [isSome_firstOf (fun i _ => htest i) fun i _ => hout i]
    simp only [Option.isSome_map, Mapping.isSome_word (show 0 < 8 by omega), decide_eq_false_iff_not,
      ne_eq]
  have hfirst : Gives (firstOf (fun i => (m.word 8 (dyn st i)).map fun tag => decide (tag = dtStrtab))
      (List.range n)) (∀ i < n, (∀ j < i, m.get 8 (dyn st j) ≠ dtStrtab) → m.Has 8 (dyn st i))
      (strtabEntry m st n) :=
    Gives.of_isSome hsearch fun hok => firstOf_eq_of_isSome htest (hsearch.2 hok)
  unfold dynStrings stringsAt
  cases hentry : strtabEntry m st n with
  | none =>
    rw [hentry] at hfirst
    constructor
    · rintro ⟨hok, -⟩
      rw [hfirst.eq_some hok]
      rfl
    · intro hno
      rw [hfirst.eq_none fun hok => hno ⟨hok, fun i hi => by cases hi⟩]
      rfl
  | some i =>
    rw [hentry] at hfirst
    have htranslate := @gives_translate m h 40 (m.word 8 (dyn st i + 8)) hseg (.inr rfl)
    rw [Mapping.isSome_word (by omega)] at htranslate
    constructor
    · rintro ⟨hok, hptr⟩
      rw [hfirst.eq_some hok]
      exact htranslate.eq_some (hptr i rfl)
    · intro hno
      by_cases hok : ∀ i < n, (∀ j < i, m.get 8 (dyn st j) ≠ dtStrtab) → m.Has 8 (dyn st i)
      · rw [hfirst.eq_some hok]
        refine htranslate.eq_none fun hptr => hno ⟨hok, ?_⟩
        rintro i' ⟨⟩
        exact hptr
      · rw [hfirst.eq_none hok]
        rfl

lemma isSome_neededName (strings : UInt64) : (neededName m st strings i).isSome ↔
    m.Has 8 (dyn st i) ∧ (m.get 8 (dyn st i) = dtNeeded → m.Has 8 (dyn st i + 8) ∧
      m.HasString (strings + m.get 8 (dyn st i + 8))) := by
  unfold neededName
  rw [Mapping.isSome_word_bind (by omega), isSome_ite, Mapping.isSome_word_bind (by omega),
    Mapping.isSome_string_bind]
  refine and_congr_right fun _ => ⟨fun h heq => ?_, fun h => ⟨fun _ => rfl, fun heq => ?_⟩⟩
  · exact ⟨(h.2 (not_not.2 heq)).1, (h.2 (not_not.2 heq)).2.1⟩
  · exact ⟨(h (not_not.1 heq)).1, (h (not_not.1 heq)).2, rfl⟩

lemma isSome_libraries {d : Nat} (hs : ∀ i < h.shnum, m.Has 36 (shdr m h i + 4))
    (hseg : ∀ j < h.phnum, m.Has 48 (phdr m h j)) (hd : d < h.shnum) (calls : Analysis) :
    (libraries m h calls (some d)).isSome ↔ LibrariesFit m h (start m h d) (count m h d 16) := by
  rw [libraries, (gives_sectionStart d).isSome_bind, (gives_sectionCount d 16).isSome_bind,
    (gives_dynStrings hseg).isSome_bind, isSome_ite, isSome_readEach]
  simp only [isSome_neededName]
  constructor
  · exact fun h => ⟨h.2.2.1.1, h.2.2.1.2, h.2.2.2.2⟩
  · exact fun h => ⟨has_sectionStart hs hd, has_sectionSize hs hd, ⟨h.search, h.strtab⟩, fun _ => rfl,
      h.needed⟩

end Dynamic

/-! ### Relocations -/

section Relocs
variable {m : Mapping} {h : Ehdr} {st table : UInt64} {n i j : Nat} {s : SymSource} {isRela : Bool}

lemma gives_dynEntry (i : Nat) : Gives (dynEntry m st i)
    (m.Has 8 (dyn st i) ∧ (m.get 8 (dyn st i) ∈ valued → m.Has 8 (dyn st i + 8))) (tagged m st i) := by
  have hsome : (dynEntry m st i).isSome ↔
      m.Has 8 (dyn st i) ∧ (m.get 8 (dyn st i) ∈ valued → m.Has 8 (dyn st i + 8)) := by
    unfold dynEntry
    rw [Mapping.isSome_word_bind (by omega), isSome_ite, Mapping.isSome_word_bind (by omega)]
    refine and_congr_right fun _ => ⟨fun h hmem => (h.2 (not_not.2 hmem)).1, fun h => ?_⟩
    exact ⟨fun _ => rfl, fun hmem => ⟨h (not_not.1 hmem), rfl⟩⟩
  refine Gives.of_isSome hsome fun hok => ?_
  unfold dynEntry tagged
  rw [Mapping.word_eq (by omega) hok.1, Option.bind_eq_bind, Option.bind_some]
  by_cases hmem : m.get 8 (dyn st i) ∈ valued
  · rw [if_neg (not_not.2 hmem), if_pos hmem, Mapping.word_eq (by omega) (hok.2 hmem)]
    rfl
  · rw [if_pos hmem, if_neg hmem]
    rfl

lemma gives_dynInfo : Gives (dynInfo m st n)
    (∀ k < n, m.Has 8 (dyn st k) ∧ (m.get 8 (dyn st k) ∈ valued → m.Has 8 (dyn st k + 8)))
    (infoOf m st n) := by
  refine Gives.of_isSome ?_ fun hok => readEach_eq fun k hk => (gives_dynEntry k).eq_some (hok k hk)
  unfold dynInfo
  rw [isSome_readEach]
  exact forall₂_congr fun k _ => (gives_dynEntry k).isSome

lemma entry_eq (hseg : ∀ j < h.phnum, m.Has 48 (phdr m h j)) (idx : UInt64) :
    s.entry m h idx = some (s.entryAt m h idx) := by
  unfold SymSource.entry SymSource.entryAt
  cases s.symtab with
  | none => rfl
  | some va =>
    simp only
    rw [vaddrToPtr_eq hseg]
    rfl

lemma gives_resolve (hseg : ∀ j < h.phnum, m.Has 48 (phdr m h j)) (idx : UInt64) :
    Gives (s.resolve m h idx) (s.entryAt m h idx ≠ 0 → m.Has 16 (s.entryAt m h idx))
      (if s.entryAt m h idx = 0 then (0, 0)
        else (s.dynstr + m.get 4 (s.entryAt m h idx), m.get 8 (s.entryAt m h idx + 8))) := by
  have hlen := m.length_le
  have hoff := m.offset_lt (s.entryAt m h idx)
  have hfields : m.Has 4 (s.entryAt m h idx) ∧ m.Has 8 (s.entryAt m h idx + 8) ↔
      m.Has 16 (s.entryAt m h idx) := by
    simp only [Mapping.has_add, UInt64.toNat_ofNat]
    unfold Mapping.Has
    omega
  have hbind : s.resolve m h idx = if s.entryAt m h idx = 0 then some (0, 0) else
      m.word 4 (s.entryAt m h idx) >>= fun name => m.word 8 (s.entryAt m h idx + 8) >>= fun value =>
        some (s.dynstr + name, value) := by
    unfold SymSource.resolve
    rw [entry_eq hseg]
    rfl
  rw [hbind]
  refine Gives.of_isSome ?_ fun hok => ?_
  · rw [isSome_ite, Mapping.isSome_word_bind (by omega), Mapping.isSome_word_bind (by omega), ← hfields]
    exact ⟨fun h hne => ⟨(h.2 hne).1, (h.2 hne).2.1⟩,
      fun h => ⟨fun _ => rfl, fun hne => ⟨(h hne).1, (h hne).2, rfl⟩⟩⟩
  · split_ifs with hzero
    · rfl
    · obtain ⟨hname, hvalue⟩ := hfields.2 (hok hzero)
      rw [Mapping.word_eq (by omega) hname, Mapping.word_eq (by omega) hvalue]
      rfl

lemma isSome_relocName (name : UInt64) : (relocName m name).isSome ↔ (name ≠ 0 → m.HasString name) := by
  unfold relocName
  rw [isSome_ite]
  have hnamed : (m.byte name >>= fun first => if first = 0 then some none
      else m.string name >>= fun text => some (some text)).isSome ↔ m.HasString name := by
    rw [Mapping.isSome_named]
    · refine ⟨And.left, fun h => ⟨h, fun _ => Mapping.isSome_string_bind.2 ⟨h, rfl⟩⟩⟩
    · exact fun hsome => (Mapping.isSome_string_bind.1 hsome).1
  exact ⟨fun h hne => hnamed.1 (h.2 hne), fun h => ⟨fun _ => rfl, fun hne => hnamed.2 (h hne)⟩⟩

lemma isSome_relocAddend (p : UInt64) :
    (relocAddend m p isRela).isSome ↔ (isRela = true → m.Has 8 (p + 16)) := by
  unfold relocAddend
  rw [isSome_ite, Mapping.isSome_word (by omega)]
  exact ⟨And.left, fun h => ⟨h, fun _ => rfl⟩⟩

/-- The fields of a relocation. -/
lemma has_rel (p : UInt64) : (m.Has 8 p ∧ m.Has 8 (p + 8) ∧ (isRela = true → m.Has 8 (p + 16))) ↔
    m.Has (relocSize isRela).toNat p := by
  have hlen := m.length_le
  have hoff := m.offset_lt p
  simp only [Mapping.has_add, UInt64.toNat_ofNat]
  unfold Mapping.Has
  cases isRela with
  | true =>
    rw [show (relocSize true).toNat = 24 from rfl]
    simp only [forall_const]
    omega
  | false =>
    rw [show (relocSize false).toNat = 16 from rfl]
    simp only [Bool.false_eq_true, false_implies, and_true]
    omega

/-- The symbol of a relocation, and its name. -/
lemma isSome_resolved (hseg : ∀ j < h.phnum, m.Has 48 (phdr m h j)) (idx : UInt64)
    (f : UInt64 × UInt64 → Option Bytes → ElfReloc) :
    (s.resolve m h idx >>= fun x => relocName m x.1 >>= fun name => pure (f x name)).isSome ↔
      (s.entryAt m h idx ≠ 0 → m.Has 16 (s.entryAt m h idx)) ∧
      (s.entryAt m h idx ≠ 0 → s.dynstr + m.get 4 (s.entryAt m h idx) ≠ 0 →
        m.HasString (s.dynstr + m.get 4 (s.entryAt m h idx))) := by
  rw [(gives_resolve hseg idx).isSome_bind]
  refine and_congr_right fun _ => ?_
  rw [isSome_bind_true fun _ => rfl,
    isSome_relocName]
  split_ifs with hzero
  · exact ⟨fun _ hne => absurd hzero hne, fun _ hne => absurd rfl hne⟩
  · exact ⟨fun h _ => h, fun h => h hzero⟩

lemma isSome_elfReloc (hseg : ∀ j < h.phnum, m.Has 48 (phdr m h j)) (isPlt : Bool) :
    (elfReloc m h s table isRela isPlt i).isSome ↔ RelocFits m h s isRela (rel table isRela i) := by
  unfold elfReloc
  simp only
  rw [Mapping.isSome_word_bind (by omega), Mapping.isSome_word_bind (by omega),
    isSome_bind_of fun addend => isSome_resolved hseg _ fun x name => ⟨name,
      m.get 8 (rel table isRela i), addend, m.get 8 (rel table isRela i + 8) % 2 ^ 32, isRela, isPlt,
      x.2⟩, isSome_relocAddend]
  constructor
  · rintro ⟨h0, h8, h16, hsymbol, hname⟩
    exact ⟨(has_rel _).1 ⟨h0, h8, h16⟩, hsymbol, hname⟩
  · intro hfits
    obtain ⟨h0, h8, h16⟩ := (has_rel _).2 hfits.entry
    exact ⟨h0, h8, h16, hfits.symbol, hfits.name⟩

lemma isSome_walkAt (hseg : ∀ j < h.phnum, m.Has 48 (phdr m h j)) (va : Option UInt64) (bytes : UInt64)
    (isPlt : Bool) (relocs : List ElfReloc) :
    (walkAt m h s va bytes isRela isPlt relocs).isSome ↔ TableFits m h s va bytes isRela := by
  unfold walkAt TableFits
  cases va with
  | none => exact ⟨fun _ v hv => (by cases hv), fun _ => rfl⟩
  | some v =>
    simp only
    rw [vaddrToPtr_eq hseg, Option.bind_eq_bind, Option.bind_some]
    unfold walkTable
    rw [isSome_ite, isSome_readEach]
    simp only [isSome_elfReloc hseg]
    constructor
    · rintro ⟨-, hread⟩ v' ⟨⟩ hne i hi
      refine hread (fun hcase => ?_) i hi
      rcases hcase with hzero | hzero
      · exact hne hzero
      · subst hzero
        rw [UInt64.zero_div] at hi
        exact absurd hi (Nat.not_lt_zero i)
    · intro hfits
      refine ⟨fun _ => rfl, fun hcase i hi => ?_⟩
      exact hfits v rfl (fun hzero => hcase (.inl hzero)) i hi

lemma isSome_relocations {d : Nat} (hs : ∀ i < h.shnum, m.Has 36 (shdr m h i + 4))
    (hseg : ∀ j < h.phnum, m.Has 48 (phdr m h j)) (hd : d < h.shnum) (hi : i < h.shnum)
    (hj : j < h.shnum) : (relocations m h (some d) (some (i, j))).isSome ↔
      (∀ k < count m h d 16, m.Has 8 (dyn (start m h d) k) ∧
        (m.get 8 (dyn (start m h d) k) ∈ valued → m.Has 8 (dyn (start m h d) k + 8))) ∧
      let x := infoOf m (start m h d) (count m h d 16)
      TableFits m h (symSource m h d i j) x.jmprel x.pltrelsz (x.pltrel = dtRela) ∧
        TableFits m h (symSource m h d i j) x.rela x.relasz true ∧
        TableFits m h (symSource m h d i j) x.rel x.relsz false := by
  rw [relocations, (gives_sectionStart d).isSome_bind, (gives_sectionCount d 16).isSome_bind,
    (gives_sectionStart i).isSome_bind, (gives_sectionCount i 24).isSome_bind,
    (gives_sectionStart j).isSome_bind, gives_dynInfo.isSome_bind]
  have hwalk : ∀ x : DynInfo, (walkAt m h ⟨x.symtab, start m h i, count m h i 24, start m h j⟩ x.jmprel
      x.pltrelsz (x.pltrel = dtRela) true [] >>= fun relocs =>
        walkAt m h ⟨x.symtab, start m h i, count m h i 24, start m h j⟩ x.rela x.relasz true false relocs
          >>= fun relocs => walkAt m h ⟨x.symtab, start m h i, count m h i 24, start m h j⟩ x.rel x.relsz
            false false relocs).isSome ↔
      TableFits m h ⟨x.symtab, start m h i, count m h i 24, start m h j⟩ x.jmprel x.pltrelsz
        (x.pltrel = dtRela) ∧
      TableFits m h ⟨x.symtab, start m h i, count m h i 24, start m h j⟩ x.rela x.relasz true ∧
      TableFits m h ⟨x.symtab, start m h i, count m h i 24, start m h j⟩ x.rel x.relsz false := by
    intro x
    rw [isSome_bind_of, isSome_walkAt hseg]
    intro relocs
    rw [isSome_bind_of, isSome_walkAt hseg]
    exact fun relocs => isSome_walkAt hseg _ _ _ _
  have htables := hwalk (infoOf m (start m h d) (count m h d 16))
  constructor
  · rintro ⟨-, -, -, -, -, hentries, hrest⟩
    exact ⟨hentries, htables.1 hrest⟩
  · rintro ⟨hentries, hrest⟩
    exact ⟨has_sectionStart hs hd, has_sectionSize hs hd, has_sectionStart hs hi, has_sectionSize hs hi,
      has_sectionStart hs hj, hentries, htables.2 hrest⟩

end Relocs

/-! ### The whole analysis -/

section Analyze
variable {m : Mapping} {h : Ehdr}

lemma isSome_symbols (hs : ∀ i < h.shnum, m.Has 36 (shdr m h i + 4)) (symbols : List ElfSymbol)
    (type : UInt64) : (addSymbols m h symbols (withStrings m h (lastSection m h type))).isSome ↔
      ∀ i j, lastSection m h type = some i → link m h i = some j →
        ∀ k < count m h i 24, SymbolFits m (start m h i) (start m h j) k := by
  cases hx : withStrings m h (lastSection m h type) with
  | none =>
    refine ⟨fun _ i j hi hj => ?_, fun _ => rfl⟩
    rw [withStrings_eq_some.2 ⟨hi, hj⟩] at hx
    cases hx
  | some x =>
    obtain ⟨i, j⟩ := x
    obtain ⟨hi, hj⟩ := withStrings_eq_some.1 hx
    rw [isSome_addSymbols hs symbols (lt_of_lastSection hi) (lt_of_link hj)]
    refine ⟨fun hfits i' j' hi' hj' => ?_, fun hfits => hfits i j hi hj⟩
    obtain rfl : i = i' := Option.some.inj (hi.symm.trans hi')
    obtain rfl : j = j' := Option.some.inj (hj.symm.trans hj')
    exact hfits

lemma isSome_calls (hs : ∀ i < h.shnum, m.Has 36 (shdr m h i + 4))
    (hfits : ∀ i j, lastSection m h shtDynsym = some i → link m h i = some j →
      ∀ k < count m h i 24, SymbolFits m (start m h i) (start m h j) k) :
    (walkSymbols m h (withStrings m h (lastSection m h shtDynsym))).isSome ↔
      ∀ i j, lastSection m h shtDynsym = some i → link m h i = some j →
        ∀ k < count m h i 24, FunctionFits m (start m h i) k := by
  cases hx : withStrings m h (lastSection m h shtDynsym) with
  | none =>
    refine ⟨fun _ i j hi hj => ?_, fun _ => rfl⟩
    rw [withStrings_eq_some.2 ⟨hi, hj⟩] at hx
    cases hx
  | some x =>
    obtain ⟨i, j⟩ := x
    obtain ⟨hi, hj⟩ := withStrings_eq_some.1 hx
    rw [isSome_walkSymbols hs (lt_of_lastSection hi) (lt_of_link hj) (hfits i j hi hj)]
    refine ⟨fun hfun i' j' hi' _ => ?_, fun hfun => hfun i j hi hj⟩
    obtain rfl : i = i' := Option.some.inj (hi.symm.trans hi')
    exact hfun

lemma isSome_lastLibraries (hs : ∀ i < h.shnum, m.Has 36 (shdr m h i + 4))
    (hseg : ∀ j < h.phnum, m.Has 48 (phdr m h j)) (calls : Analysis) :
    (libraries m h calls (lastSection m h shtDynamic)).isSome ↔
      ∀ d, lastSection m h shtDynamic = some d →
        LibrariesFit m h (start m h d) (count m h d 16) := by
  cases hx : lastSection m h shtDynamic with
  | none => exact ⟨fun _ d hd => (by cases hd), fun _ => rfl⟩
  | some d =>
    rw [isSome_libraries hs hseg (lt_of_lastSection hx)]
    refine ⟨?_, fun hfits => hfits d rfl⟩
    rintro hfits d' ⟨⟩
    exact hfits

lemma isSome_lastRelocations (hs : ∀ i < h.shnum, m.Has 36 (shdr m h i + 4))
    (hseg : ∀ j < h.phnum, m.Has 48 (phdr m h j)) :
    (relocations m h (lastSection m h shtDynamic)
      (withStrings m h (lastSection m h shtDynsym))).isSome ↔
      ∀ d i j, lastSection m h shtDynamic = some d → lastSection m h shtDynsym = some i →
        link m h i = some j →
        (∀ k < count m h d 16, m.Has 8 (dyn (start m h d) k) ∧
          (m.get 8 (dyn (start m h d) k) ∈ valued → m.Has 8 (dyn (start m h d) k + 8))) ∧
        let x := infoOf m (start m h d) (count m h d 16)
        TableFits m h (symSource m h d i j) x.jmprel x.pltrelsz (x.pltrel = dtRela) ∧
          TableFits m h (symSource m h d i j) x.rela x.relasz true ∧
          TableFits m h (symSource m h d i j) x.rel x.relsz false := by
  cases hd : lastSection m h shtDynamic with
  | none => exact ⟨fun _ d i j hno => (by cases hno), fun _ => rfl⟩
  | some d =>
    cases hx : withStrings m h (lastSection m h shtDynsym) with
    | none =>
      refine ⟨fun _ _ i j _ hi hj => ?_, fun _ => rfl⟩
      rw [withStrings_eq_some.2 ⟨hi, hj⟩] at hx
      cases hx
    | some x =>
      obtain ⟨i, j⟩ := x
      obtain ⟨hi, hj⟩ := withStrings_eq_some.1 hx
      rw [isSome_relocations hs hseg (lt_of_lastSection hd) (lt_of_lastSection hi) (lt_of_link hj)]
      refine ⟨fun hfits d' i' j' hd' hi' hj' => ?_, fun hfits => hfits d i j rfl hi hj⟩
      obtain rfl : d = d' := Option.some.inj hd'
      obtain rfl : i = i' := Option.some.inj (hi.symm.trans hi')
      obtain rfl : j = j' := Option.some.inj (hj.symm.trans hj')
      exact hfits

/-- The headers are read in any case. -/
lemma headers_of_isSome (hsome : (analyzeElf m h).isSome) :
    (∀ i < h.shnum, m.Has 36 (shdr m h i + 4)) ∧ ∀ j < h.phnum, m.Has 48 (phdr m h j) := by
  unfold analyzeElf at hsome
  obtain ⟨at_, -, hsome⟩ := of_isSome_bind hsome
  obtain ⟨sections, hsections, hsome⟩ := of_isSome_bind hsome
  obtain ⟨segments, hsegments, -⟩ := of_isSome_bind hsome
  have hs := isSome_readEach.1 (Option.isSome_iff_exists.2 ⟨_, hsections⟩)
  have hseg := isSome_readEach.1 (Option.isSome_iff_exists.2 ⟨_, hsegments⟩)
  exact ⟨fun i hi => ((isSome_elfSection at_).1 (hs i hi)).1,
    fun j hj => isSome_elfSegment.1 (hseg j hj)⟩

/-- What comes after the headers. -/
lemma isSome_rest (hs : ∀ i < h.shnum, m.Has 36 (shdr m h i + 4))
    (hseg : ∀ j < h.phnum, m.Has 48 (phdr m h j)) (sections : List ElfSection)
    (segments : List ElfSegment) : (do
      let t ← tables m h
      let dynsym ← stringsOf m h t.dynsym
      let symtab ← stringsOf m h t.symtab
      let symbols ← addSymbols m h [] dynsym
      let symbols ← addSymbols m h symbols symtab
      let calls ← walkSymbols m h dynsym
      let libs ← libraries m h calls t.dynamic
      let relocs ← relocations m h t.dynamic dynsym
      return (⟨h.entry, if h.elfClass = 2 then 64 else 32, h.data = 2, elfMachineName h.machine,
        elfTypeName h.type, sections, segments, symbols, t.dynsym.isSome, libs.1, libs.2,
        relocs⟩ : ElfAnalysis)).isSome ↔
      (∀ i, lastSection m h shtDynsym = some i → m.Has 4 (shdr m h i + 40)) ∧
      (∀ i, lastSection m h shtSymtab = some i → m.Has 4 (shdr m h i + 40)) ∧
      (addSymbols m h [] (withStrings m h (lastSection m h shtDynsym))).isSome ∧
      (addSymbols m h [] (withStrings m h (lastSection m h shtSymtab))).isSome ∧
      (walkSymbols m h (withStrings m h (lastSection m h shtDynsym))).isSome ∧
      (libraries m h .empty (lastSection m h shtDynamic)).isSome ∧
      (relocations m h (lastSection m h shtDynamic)
        (withStrings m h (lastSection m h shtDynsym))).isSome := by
  have hdyn := @gives_stringsOf m h (lastSection m h shtDynsym)
  have hsym := @gives_stringsOf m h (lastSection m h shtSymtab)
  have hsymbols : ∀ symbols, (addSymbols m h symbols (withStrings m h (lastSection m h shtSymtab))).isSome ↔
      (addSymbols m h [] (withStrings m h (lastSection m h shtSymtab))).isSome := fun symbols =>
    (isSome_symbols hs symbols shtSymtab).trans (isSome_symbols hs [] shtSymtab).symm
  have hlibs : ∀ calls, (libraries m h calls (lastSection m h shtDynamic)).isSome ↔
      (libraries m h .empty (lastSection m h shtDynamic)).isSome := fun calls =>
    (isSome_lastLibraries hs hseg calls).trans (isSome_lastLibraries hs hseg .empty).symm
  rw [gives_tables hs, Option.bind_eq_bind, Option.bind_some, hdyn.isSome_bind, hsym.isSome_bind]
  refine and_congr_right fun _ => and_congr_right fun _ => ?_
  refine isSome_bind_of fun symbols => ?_
  rw [isSome_bind_of fun symbols => isSome_bind_of fun calls => ?_]
  · rw [hsymbols]
  · rw [isSome_bind_of fun libs => isSome_bind_true fun relocs => ?_, hlibs]
    rfl

/-- **The analysis of an ELF file stays inside it if what it relies on lies there.** -/
lemma isSome_analyzeElf (m : Mapping) (h : Ehdr) : (analyzeElf m h).isSome ↔ Fits m h := by
  have hiff : (∀ i < h.shnum, m.Has 36 (shdr m h i + 4)) → (∀ j < h.phnum, m.Has 48 (phdr m h j)) →
      ((analyzeElf m h).isSome ↔ Fits m h) := by
    intro hs hseg
    have hrest := isSome_rest hs hseg
    unfold analyzeElf
    rw [gives_shstrtab hs, Option.bind_eq_bind, Option.bind_some, isSome_bind_of fun sections =>
      isSome_bind_of fun segments => hrest sections segments, isSome_readEach, isSome_readEach]
    simp only [isSome_elfSection, isSome_elfSegment]
    rw [isSome_symbols hs, isSome_symbols hs, isSome_lastLibraries hs hseg,
      isSome_lastRelocations hs hseg]
    constructor
    · rintro ⟨hsections, -, hlinkDyn, hlinkSym, hdynsym, hsymtab, hcalls, hlibs, hrelocs⟩
      refine ⟨hs, fun hne i hi => (hsections i hi).2 hne, hseg, ?_, ?_,
        (isSome_calls hs hdynsym).1 hcalls, hlibs, fun d i j hd hi hj => (hrelocs d i j hd hi hj).1,
        fun d i j hd hi hj => (hrelocs d i j hd hi hj).2⟩
      · exact List.forall_mem_cons.2 ⟨hlinkDyn, List.forall_mem_singleton.2 hlinkSym⟩
      · exact List.forall_mem_cons.2 ⟨hdynsym, List.forall_mem_singleton.2 hsymtab⟩
    · intro hfits
      have hdynsym := hfits.symbols shtDynsym List.mem_cons_self
      have hsymtab := hfits.symbols shtSymtab (List.mem_cons_of_mem _ List.mem_cons_self)
      exact ⟨fun i hi => ⟨hs i hi, fun hne => hfits.named hne i hi⟩, hseg,
        hfits.links shtDynsym List.mem_cons_self,
        hfits.links shtSymtab (List.mem_cons_of_mem _ List.mem_cons_self), hdynsym, hsymtab,
        (isSome_calls hs hdynsym).2 hfits.functions, hfits.libraries,
        fun d i j hd hi hj => ⟨hfits.entries d i j hd hi hj, hfits.relocs d i j hd hi hj⟩⟩
  constructor
  · intro hsome
    obtain ⟨hs, hseg⟩ := headers_of_isSome hsome
    exact (hiff hs hseg).1 hsome
  · intro hfits
    exact (hiff hfits.sections hfits.segments).2 hfits

/-- What the ELF header says. -/
def header (m : Mapping) : Ehdr :=
  ⟨m.get 1 (m.base + 4), m.get 1 (m.base + 5), m.get 2 (m.base + 16), m.get 2 (m.base + 18),
    m.get 8 (m.base + 24), m.get 8 (m.base + 32), m.get 8 (m.base + 40), (m.get 2 (m.base + 56)).toNat,
    (m.get 2 (m.base + 60)).toNat, (m.get 2 (m.base + 62)).toNat⟩

lemma has_header {n : Nat} {k : UInt64} (hlong : 64 ≤ m.bytes.length) (hk : k.toNat + n ≤ 64) :
    m.Has n (m.base + k) := by
  have hbase : m.offset m.base = 0 := by
    unfold Mapping.offset
    rw [UInt64.sub_self]
    rfl
  rw [Mapping.has_add, hbase]
  omega

lemma ehdr_eq (hlong : 64 ≤ m.bytes.length) : ehdr m = some (header m) := by
  have hread : ∀ (n : Nat) (k : UInt64), 0 < n → k.toNat + n ≤ 64 →
      m.word n (m.base + k) = some (m.get n (m.base + k)) :=
    fun n k hn hk => Mapping.word_eq hn (has_header hlong hk)
  unfold ehdr
  rw [hread 1 4 (by decide) (by decide), hread 1 5 (by decide) (by decide),
    hread 2 16 (by decide) (by decide), hread 2 18 (by decide) (by decide),
    hread 8 24 (by decide) (by decide), hread 8 32 (by decide) (by decide),
    hread 8 40 (by decide) (by decide), hread 2 56 (by decide) (by decide),
    hread 2 60 (by decide) (by decide), hread 2 62 (by decide) (by decide)]
  rfl

/-- That a file is taken for an ELF file. -/
def IsElf (m : Mapping) : Prop := 64 ≤ m.bytes.length ∧ m.get 4 m.base = 0x464c457f

/-- **debag_analyze, on every file**: each of its reads is of a mapped byte exactly if the file is not taken
for an ELF file, or what the analysis relies on lies in it. -/
theorem debagAnalyze_inside_iff (m : Mapping) :
    (debagAnalyze m).isSome ↔ (IsElf m → Fits m (header m)) := by
  unfold debagAnalyze IsElf
  split_ifs with hshort
  · exact ⟨fun _ helf => absurd helf.1 (by omega), fun _ => rfl⟩
  · have hlong : 64 ≤ m.bytes.length := by omega
    have hmagic : m.Has 4 m.base := by
      have hfirst := @has_header m 4 0 hlong (by decide)
      rwa [UInt64.add_zero] at hfirst
    rw [Mapping.isSome_word_bind (by omega), isSome_ite, ehdr_eq hlong, Option.bind_eq_bind,
      Option.bind_some, isSome_bind_true fun _ => rfl,
      isSome_analyzeElf]
    constructor
    · exact fun hread helf => hread.2.2 (not_not.2 helf.2)
    · exact fun hfits => ⟨hmagic, fun _ => rfl, fun helf => hfits ⟨hlong, not_not.1 helf⟩⟩

end Analyze

/-! ### A file that ends with its header -/

/-- An ELF header that speaks of one section behind the end of the file. -/
def truncated : Mapping where
  base := 0x7f0000000000
  bytes := [0x7f, 0x45, 0x4c, 0x46, 2, 1, 1, 0, 0, 0, 0, 0, 0, 0, 0, 0, 3, 0, 62, 0, 1, 0, 0, 0,
    0, 0, 0, 0, 0, 0, 0, 0, 64, 0, 0, 0, 0, 0, 0, 0, 64, 0, 0, 0, 0, 0, 0, 0, 0, 0, 0, 0, 64, 0, 56, 0,
    0, 0, 64, 0, 1, 0, 0, 0]
  low := Mapping.low_mmap
  high := by decide

theorem truncated_not_inside : debagAnalyze truncated = none := by
  rw [← Option.isNone_iff_eq_none]
  decide

end Two09.Debag
