import Two09.Debag.Filter
import Two09.Lib.Mapping
import Mathlib

/-!
# Reading a binary

`debag_analyze` with its local functions, on the mapped file: a result of nothing means that some read of
the mapping left the mapped bytes. The offsets are those of the fields in the 64-bit structures of `elf.h`,
whatever the file says about its class and its byte order.
-/

namespace Two09.Debag

open Two09.Lib

/-! ### What the analysis finds -/

/-- `debag_elf_section_t` -/
structure ElfSection where
  name : Bytes
  vaddr : UInt64
  offset : UInt64
  size : UInt64
  type : UInt64
  flags : UInt64

/-- `debag_elf_segment_t` -/
structure ElfSegment where
  type : UInt64
  flags : UInt64
  vaddr : UInt64
  offset : UInt64
  filesz : UInt64
  memsz : UInt64

/-- `debag_elf_symbol_t` -/
structure ElfSymbol where
  name : Bytes
  vaddr : UInt64
  size : UInt64
  type : UInt64
  bind : UInt64
  isImport : Bool

/-- `debag_elf_reloc_t` -/
structure ElfReloc where
  symName : Option Bytes
  vaddr : UInt64
  addend : UInt64
  type : UInt64
  isRela : Bool
  isPlt : Bool
  symValue : UInt64

/-- `debag_analysis_t`; what the filter uses of it is in `calls`. -/
structure ElfAnalysis where
  entryPoint : UInt64
  bits : Nat
  isBigEndian : Bool
  archName : Bytes
  binaryType : Bytes
  sections : List ElfSection
  segments : List ElfSegment
  symbols : List ElfSymbol
  isDynamic : Bool
  libs : List Bytes
  calls : Analysis
  relocs : List ElfReloc

/-- `elf_machine_name` -/
def elfMachineName (machine : UInt64) : Bytes :=
  if machine = 62 then ascii "x86-64"
  else if machine = 3 then ascii "x86"
  else if machine = 183 then ascii "aarch64"
  else if machine = 40 then ascii "arm"
  else if machine = 243 then ascii "riscv"
  else if machine = 21 then ascii "ppc64"
  else if machine = 22 then ascii "s390x"
  else ascii "unknown"

/-- `elf_type_name` -/
def elfTypeName (type : UInt64) : Bytes :=
  if type = 2 then ascii "EXEC"
  else if type = 3 then ascii "DYN"
  else if type = 4 then ascii "CORE"
  else if type = 1 then ascii "REL"
  else ascii "?"

/-- `analysis_add_symbol` -/
def addSymbol (symbols : List ElfSymbol) : Option ElfSymbol → List ElfSymbol
  | none => symbols
  | some sym =>
    if symbols.any fun s => s.vaddr = sym.vaddr ∧ s.name = sym.name then symbols else symbols ++ [sym]

/-! ### The headers -/

/-- What the analysis uses of the ELF header. -/
structure Ehdr where
  elfClass : UInt64
  data : UInt64
  type : UInt64
  machine : UInt64
  entry : UInt64
  phoff : UInt64
  shoff : UInt64
  phnum : Nat
  shnum : Nat
  shstrndx : Nat

def ehdr (m : Mapping) : Option Ehdr := do
  let elfClass ← m.word 1 (m.base + 4)
  let data ← m.word 1 (m.base + 5)
  let type ← m.word 2 (m.base + 16)
  let machine ← m.word 2 (m.base + 18)
  let entry ← m.word 8 (m.base + 24)
  let phoff ← m.word 8 (m.base + 32)
  let shoff ← m.word 8 (m.base + 40)
  let phnum ← m.word 2 (m.base + 56)
  let shnum ← m.word 2 (m.base + 60)
  let shstrndx ← m.word 2 (m.base + 62)
  return ⟨elfClass, data, type, machine, entry, phoff, shoff, phnum.toNat, shnum.toNat, shstrndx.toNat⟩

def shtSymtab : UInt64 := 2
def shtDynamic : UInt64 := 6
def shtDynsym : UInt64 := 11

def ptLoad : UInt64 := 1

section Headers
variable (m : Mapping) (h : Ehdr)

/-- The `i`th section header. -/
def shdr (i : Nat) : UInt64 := m.base + h.shoff + 64 * UInt64.ofNat i

/-- The `i`th program header. -/
def phdr (i : Nat) : UInt64 := m.base + h.phoff + 56 * UInt64.ofNat i

/-- `shstrtab`: where the names of sections are, or zero. -/
def shstrtab : Option UInt64 :=
  if h.shstrndx ≠ 0 ∧ h.shstrndx < h.shnum then do
    let offset ← m.word 8 (shdr m h h.shstrndx + 24)
    return m.base + offset
  else some 0

/-- The name of a section. -/
def sectionName (names : UInt64) (p : UInt64) : Option Bytes :=
  if names = 0 then some []
  else do
    let name ← m.word 4 p
    m.string (names + name)

def elfSection (names : UInt64) (i : Nat) : Option ElfSection := do
  let p := shdr m h i
  let name ← sectionName m names p
  let vaddr ← m.word 8 (p + 16)
  let offset ← m.word 8 (p + 24)
  let size ← m.word 8 (p + 32)
  let type ← m.word 4 (p + 4)
  let flags ← m.word 8 (p + 8)
  return ⟨name, vaddr, offset, size, type, flags⟩

def elfSegment (i : Nat) : Option ElfSegment := do
  let p := phdr m h i
  let type ← m.word 4 p
  let flags ← m.word 4 (p + 4)
  let vaddr ← m.word 8 (p + 16)
  let offset ← m.word 8 (p + 8)
  let filesz ← m.word 8 (p + 32)
  let memsz ← m.word 8 (p + 40)
  return ⟨type, flags, vaddr, offset, filesz, memsz⟩

/-- The sections that the loop over the headers picks out. -/
structure Tables where
  dynsym : Option Nat
  symtab : Option Nat
  dynamic : Option Nat

/-- One round of that loop. -/
def Tables.add (t : Tables) (x : Nat × UInt64) : Tables :=
  if x.2 = shtDynsym then { t with dynsym := some x.1 }
  else if x.2 = shtSymtab then { t with symtab := some x.1 }
  else if x.2 = shtDynamic then { t with dynamic := some x.1 }
  else t

def tables : Option Tables :=
  readEach h.shnum (fun i => (m.word 4 (shdr m h i + 4)).map fun type => (i, type)) Tables.add
    ⟨none, none, none⟩

/-- The section that a section links to. -/
def linked (i : Nat) : Option (Option Nat) := do
  let link ← m.word 4 (shdr m h i + 40)
  return if link.toNat < h.shnum then some link.toNat else none

/-- The string table of a table of symbols, if there are both. -/
def stringsOf : Option Nat → Option (Option (Nat × Nat))
  | none => some none
  | some i => do
    let j ← linked m h i
    return j.map fun j => (i, j)

end Headers

/-! ### Symbols -/

section Symbols
variable (m : Mapping) (h : Ehdr)

/-- The `i`th entry of a table of symbols. -/
def sym (syms : UInt64) (i : Nat) : UInt64 := syms + 24 * UInt64.ofNat i

/-- An entry of a table of symbols, unless it has no name. -/
def elfSymbol (syms strtab : UInt64) (i : Nat) : Option (Option ElfSymbol) := do
  let p := sym syms i
  let name ← m.word 4 p
  let first ← m.byte (strtab + name)
  if first = 0 then return none
  let shndx ← m.word 2 (p + 6)
  let value ← m.word 8 (p + 8)
  let size ← m.word 8 (p + 16)
  let info ← m.word 1 (p + 4)
  let text ← m.string (strtab + name)
  return some ⟨text, value, size, info % 16, info / 16, shndx = 0⟩

/-- What the walk over `.dynsym` looks at: the name only where it matters. -/
def dynSym (syms strtab : UInt64) (i : Nat) : Option DynSym := do
  let p := sym syms i
  let info ← m.word 1 (p + 4)
  if info % 16 ≠ 2 then return ⟨[], false, false⟩
  let shndx ← m.word 2 (p + 6)
  if shndx = 0 then return ⟨[], true, true⟩
  let name ← m.word 4 p
  let first ← m.byte (strtab + name)
  if first = 0 then return ⟨[], true, false⟩
  let text ← m.string (strtab + name)
  return ⟨text, true, false⟩

/-- Where a section begins. -/
def sectionStart (i : Nat) : Option UInt64 := do
  let offset ← m.word 8 (shdr m h i + 24)
  return m.base + offset

/-- How many entries of so many bytes a section has. -/
def sectionCount (i : Nat) (entry : UInt64) : Option Nat := do
  let size ← m.word 8 (shdr m h i + 32)
  return (size / entry).toNat

/-- The symbols of a table, added to those found before. -/
def addSymbols (symbols : List ElfSymbol) : Option (Nat × Nat) → Option (List ElfSymbol)
  | none => some symbols
  | some (i, j) => do
    let syms ← sectionStart m h i
    let count ← sectionCount m h i 24
    let strtab ← sectionStart m h j
    readEach count (elfSymbol m syms strtab) addSymbol symbols

/-- What the dynamic symbols say about calls. -/
def walkSymbols : Option (Nat × Nat) → Option Analysis
  | none => some .empty
  | some (i, j) => do
    let syms ← sectionStart m h i
    let count ← sectionCount m h i 24
    let strtab ← sectionStart m h j
    readEach count (dynSym m syms strtab) Analysis.symbol .empty

end Symbols

/-! ### The dynamic section -/

def dtNeeded : UInt64 := 1
def dtPltrelsz : UInt64 := 2
def dtStrtab : UInt64 := 5
def dtSymtab : UInt64 := 6
def dtRela : UInt64 := 7
def dtRelasz : UInt64 := 8
def dtSyment : UInt64 := 11
def dtRel : UInt64 := 17
def dtRelsz : UInt64 := 18
def dtPltrel : UInt64 := 20
def dtJmprel : UInt64 := 23

section Dynamic
variable (m : Mapping) (h : Ehdr)

/-- The `i`th entry of the dynamic section. -/
def dyn (start : UInt64) (i : Nat) : UInt64 := start + 16 * UInt64.ofNat i

/-- Whether the `j`th segment is loaded and has the address `va` in its first bytes, `size` bytes into the
program header telling how many. -/
def inSegment (size : UInt64) (va : Option UInt64) (j : Nat) : Option Bool := do
  let type ← m.word 4 (phdr m h j)
  if type ≠ ptLoad then return false
  let va ← va
  let vaddr ← m.word 8 (phdr m h j + 16)
  if va < vaddr then return false
  let size ← m.word 8 (phdr m h j + size)
  return va < vaddr + size

/-- Where the address is in the file, zero if no segment has it. -/
def translate (size : UInt64) (va : Option UInt64) : Option UInt64 := do
  match ← firstOf (inSegment m h size va) (List.range h.phnum) with
  | none => return 0
  | some j =>
    let offset ← m.word 8 (phdr m h j + 8)
    let va ← va
    let vaddr ← m.word 8 (phdr m h j + 16)
    return m.base + offset + (va - vaddr)

/-- `vaddr_to_ptr` -/
def vaddrToPtr (va : UInt64) : Option UInt64 := translate m h 32 (some va)

/-- `dynstr` by way of `DT_STRTAB`, whose address is looked for in the segments as they are in memory. -/
def dynStrings (start : UInt64) (count : Nat) : Option UInt64 := do
  match ← firstOf (fun i => (m.word 8 (dyn start i)).map fun tag => decide (tag = dtStrtab))
      (List.range count) with
  | none => return 0
  | some i => translate m h 40 (m.word 8 (dyn start i + 8))

/-- The name of a library that is needed. -/
def neededName (start dynstr : UInt64) (i : Nat) : Option (Option Bytes) := do
  let tag ← m.word 8 (dyn start i)
  if tag ≠ dtNeeded then return none
  let val ← m.word 8 (dyn start i + 8)
  let name ← m.string (dynstr + val)
  return some name

/-- `strstr` -/
def contains (haystack needle : Bytes) : Bool := haystack.tails.any needle.isPrefixOf

/-- A library is noted as long as there is room, and looked at in any case. -/
def addLib (x : List Bytes × Analysis) : Option Bytes → List Bytes × Analysis
  | none => x
  | some name =>
    (if x.1.length < 16 then x.1 ++ [name] else x.1,
      if contains name (ascii "libdl") ∨ contains name (ascii "libdl.so") then
        { x.2 with hasDlopen := true }
      else x.2)

/-- The libraries of the dynamic section. -/
def libraries (calls : Analysis) : Option Nat → Option (List Bytes × Analysis)
  | none => some ([], calls)
  | some d => do
    let start ← sectionStart m h d
    let count ← sectionCount m h d 16
    let dynstr ← dynStrings m h start count
    if dynstr = 0 then return ([], calls)
    readEach count (neededName m start dynstr) addLib ([], calls)

end Dynamic

/-! ### Relocations -/

/-- What the entries of the dynamic section say about relocations. -/
structure DynInfo where
  jmprel : Option UInt64
  pltrelsz : UInt64
  pltrel : UInt64
  rel : Option UInt64
  relsz : UInt64
  rela : Option UInt64
  relasz : UInt64
  symtab : Option UInt64
  syment : UInt64

/-- The `switch` on the tag. -/
def DynInfo.set (x : DynInfo) (e : UInt64 × UInt64) : DynInfo :=
  if e.1 = dtJmprel then { x with jmprel := some e.2 }
  else if e.1 = dtPltrelsz then { x with pltrelsz := e.2 }
  else if e.1 = dtPltrel then { x with pltrel := e.2 % 2 ^ 32 }
  else if e.1 = dtRel then { x with rel := some e.2 }
  else if e.1 = dtRelsz then { x with relsz := e.2 }
  else if e.1 = dtRela then { x with rela := some e.2 }
  else if e.1 = dtRelasz then { x with relasz := e.2 }
  else if e.1 = dtSymtab then { x with symtab := some e.2 }
  else if e.1 = dtSyment then { x with syment := e.2 }
  else x

/-- The tags whose value is read. -/
def valued : List UInt64 :=
  [dtJmprel, dtPltrelsz, dtPltrel, dtRel, dtRelsz, dtRela, dtRelasz, dtSymtab, dtSyment]

section Relocs
variable (m : Mapping) (h : Ehdr)

def dynEntry (start : UInt64) (i : Nat) : Option (UInt64 × UInt64) := do
  let tag ← m.word 8 (dyn start i)
  if tag ∉ valued then return (tag, 0)
  let val ← m.word 8 (dyn start i + 8)
  return (tag, val)

def dynInfo (start : UInt64) (count : Nat) : Option DynInfo :=
  readEach count (dynEntry m start) DynInfo.set ⟨none, 0, dtRela, none, 0, none, 0, none, 0⟩

/-- What `resolve_sym` works with: the address of `DT_SYMTAB` if there is one, and `.dynsym`. -/
structure SymSource where
  symtab : Option UInt64
  dynsyms : UInt64
  dynsymCount : Nat
  dynstr : UInt64

/-- The entry for a symbol, by its index. -/
def SymSource.entry (s : SymSource) (idx : UInt64) : Option UInt64 := do
  let base ← match s.symtab with
    | none => some 0
    | some va => vaddrToPtr m h va
  let p := if base = 0 then 0 else base + 24 * idx
  return if p = 0 ∧ idx.toNat < s.dynsymCount then s.dynsyms + 24 * idx else p

/-- `resolve_sym`: where the name is, and the value. -/
def SymSource.resolve (s : SymSource) (idx : UInt64) : Option (UInt64 × UInt64) := do
  let p ← s.entry m h idx
  if p = 0 then return (0, 0)
  let name ← m.word 4 p
  let value ← m.word 8 (p + 8)
  return (s.dynstr + name, value)

/-- The name of a relocation's symbol, if it has one. -/
def relocName (name : UInt64) : Option (Option Bytes) := do
  if name = 0 then return none
  let first ← m.byte name
  if first = 0 then return none
  let text ← m.string name
  return some text

def relocSize (isRela : Bool) : UInt64 := if isRela then 24 else 16

/-- The `i`th entry of a table of relocations. -/
def rel (table : UInt64) (isRela : Bool) (i : Nat) : UInt64 := table + relocSize isRela * UInt64.ofNat i

def relocAddend (p : UInt64) (isRela : Bool) : Option UInt64 :=
  if isRela then m.word 8 (p + 16) else some 0

/-- One round of `walk_table`. -/
def elfReloc (s : SymSource) (table : UInt64) (isRela isPlt : Bool) (i : Nat) : Option ElfReloc := do
  let p := rel table isRela i
  let offset ← m.word 8 p
  let info ← m.word 8 (p + 8)
  let addend ← relocAddend m p isRela
  let resolved ← s.resolve m h (info / 2 ^ 32)
  let symName ← relocName m resolved.1
  return ⟨symName, offset, addend, info % 2 ^ 32, isRela, isPlt, resolved.2⟩

/-- `walk_table` -/
def walkTable (s : SymSource) (table bytes : UInt64) (isRela isPlt : Bool) (relocs : List ElfReloc) :
    Option (List ElfReloc) :=
  if table = 0 ∨ bytes = 0 then some relocs
  else readEach (bytes / relocSize isRela).toNat (elfReloc m h s table isRela isPlt)
    (fun relocs r => relocs ++ [r]) relocs

/-- A table of relocations at an address, if there is one. -/
def walkAt (s : SymSource) (va : Option UInt64) (bytes : UInt64) (isRela isPlt : Bool)
    (relocs : List ElfReloc) : Option (List ElfReloc) :=
  match va with
  | none => some relocs
  | some va => do
    let table ← vaddrToPtr m h va
    walkTable m h s table bytes isRela isPlt relocs

/-- The relocations of the dynamic section. -/
def relocations : Option Nat → Option (Nat × Nat) → Option (List ElfReloc)
  | some d, some (i, j) => do
    let start ← sectionStart m h d
    let count ← sectionCount m h d 16
    let dynsyms ← sectionStart m h i
    let dynsymCount ← sectionCount m h i 24
    let dynstr ← sectionStart m h j
    let info ← dynInfo m start count
    let s : SymSource := ⟨info.symtab, dynsyms, dynsymCount, dynstr⟩
    let relocs ← walkAt m h s info.jmprel info.pltrelsz (info.pltrel = dtRela) true []
    let relocs ← walkAt m h s info.rela info.relasz true false relocs
    walkAt m h s info.rel info.relsz false false relocs
  | _, _ => some []

end Relocs

/-! ### The analysis -/

section Analyze
variable (m : Mapping)

/-- The analysis of a file with this header. -/
def analyzeElf (h : Ehdr) : Option ElfAnalysis := do
  let names ← shstrtab m h
  let sections ← readEach h.shnum (elfSection m h names) (fun ss s => ss ++ [s]) []
  let segments ← readEach h.phnum (elfSegment m h) (fun ss s => ss ++ [s]) []
  let t ← tables m h
  let dynsym ← stringsOf m h t.dynsym
  let symtab ← stringsOf m h t.symtab
  let symbols ← addSymbols m h [] dynsym
  let symbols ← addSymbols m h symbols symtab
  let calls ← walkSymbols m h dynsym
  let libs ← libraries m h calls t.dynamic
  let relocs ← relocations m h t.dynamic dynsym
  return ⟨h.entry, if h.elfClass = 2 then 64 else 32, h.data = 2, elfMachineName h.machine,
    elfTypeName h.type, sections, segments, symbols, t.dynsym.isSome, libs.1, libs.2, relocs⟩

/-- `debag_analyze`: no analysis of a file that is too short or does not begin as an ELF file does. -/
def debagAnalyze : Option (Option ElfAnalysis) :=
  if m.bytes.length < 64 then some none
  else do
    let magic ← m.word 4 m.base
    if magic ≠ 0x464c457f then return none
    let h ← ehdr m
    let a ← analyzeElf m h
    return some a

end Analyze

end Two09.Debag
