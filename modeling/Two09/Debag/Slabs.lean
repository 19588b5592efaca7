import Two09.Debag.Elf
import Two09.Lib.Slab
import Mathlib.Tactic.Ring

/-!
# The arrays of symbols and relocations

`analysis_add_symbol` and `add_reloc` on the arrays they grow: what is allocated, the number of entries, and the
capacity that both work out from that number. No `realloc` and no `strdup` fails.
-/

namespace Two09.Debag

open Two09.Lib

/-- `(n + 15) & ~15` -/
def roundUp (n : ℕ) : ℕ := (n + 15) / 16 * 16

lemma roundsUp_roundUp : Slab.RoundsUp roundUp 16 where
  pos := by omega
  le n := by unfold roundUp; omega
  dvd n := Dvd.intro_left _ rfl
  least n m hle hdvd := by
    obtain ⟨q, rfl⟩ := hdvd
    unfold roundUp
    omega

/-- The two arrays of `debag_analysis_t` that grow, with their counts. -/
structure Arrays where
  symbols : Slab ElfSymbol
  relocs : Slab ElfReloc

/-- `debag_analysis_t` as `calloc` leaves it -/
def Arrays.zero : Arrays := ⟨Slab.empty, Slab.empty⟩

/-- The loop of `analysis_add_symbol` over the entries; none where it reads a cell that nothing was written to. -/
def isKnown (vaddr : UInt64) (name : Bytes) : List (Option ElfSymbol) → Option Bool
  | [] => some false
  | none :: _ => none
  | some s :: rest => if s.vaddr = vaddr ∧ s.name = name then some true else isKnown vaddr name rest

/-- `analysis_add_symbol`; none where it leaves the array. -/
def analysisAddSymbol (a : Arrays) (name : Option Bytes) (vaddr size type bind : UInt64) (isImport : Bool) :
    Option Arrays :=
  match name with
  | none => some a
  | some [] => some a
  | some name =>
    if a.symbols.count ≤ a.symbols.allocated then do
      if ← isKnown vaddr name a.symbols.entries then return a
      let symbols ← a.symbols.push roundUp 16 ⟨name, vaddr, size, type, bind, isImport⟩
      return { a with symbols }
    else none

/-- `add_reloc`; none where it leaves the array. -/
def addReloc (a : Arrays) (name : Option Bytes) (vaddr addend type : UInt64) (isRela isPlt : Bool) : Option Arrays := do
  let relocs ← a.relocs.push roundUp 16 ⟨name, vaddr, addend, type, isRela, isPlt, 0⟩
  return { a with relocs }

/-- A call of one of the two. -/
inductive AddCall where
  | symbol (name : Option Bytes) (vaddr size type bind : UInt64) (isImport : Bool)
  | reloc (name : Option Bytes) (vaddr addend type : UInt64) (isRela isPlt : Bool)

namespace AddCall

def run (a : Arrays) : AddCall → Option Arrays
  | symbol name vaddr size type bind isImport => analysisAddSymbol a name vaddr size type bind isImport
  | reloc name vaddr addend type isRela isPlt => addReloc a name vaddr addend type isRela isPlt

/-- The symbol of a call that has a name. -/
def symbol? : AddCall → Option ElfSymbol
  | symbol (some (c :: name)) vaddr size type bind isImport => some ⟨c :: name, vaddr, size, type, bind, isImport⟩
  | _ => none

/-- The relocation of a call. -/
def reloc? : AddCall → Option ElfReloc
  | reloc name vaddr addend type isRela isPlt => some ⟨name, vaddr, addend, type, isRela, isPlt, 0⟩
  | symbol .. => none

end AddCall

/-- One call after the other. -/
def addAll (a : Arrays) (calls : List AddCall) : Option Arrays := calls.foldlM AddCall.run a

/-- Both arrays, on what `addSymbol` makes of the symbols and on the relocations in order. -/
structure Stored (a : Arrays) (symbols : List ElfSymbol) (relocs : List ElfReloc) : Prop where
  symbols : a.symbols.Holds roundUp symbols
  relocs : a.relocs.Holds roundUp relocs

/-- Whether two symbols have one name and one address. -/
def ElfSymbol.same (s t : ElfSymbol) : Bool := t.vaddr = s.vaddr ∧ t.name = s.name

/-! ### One call -/

section Step

variable {a : Arrays} {symbols : List ElfSymbol} {relocs : List ElfReloc}

lemma isKnown_map (vaddr : UInt64) (name : Bytes) (symbols : List ElfSymbol) :
    isKnown vaddr name (symbols.map some) = some (symbols.any fun s => s.vaddr = vaddr ∧ s.name = name) := by
  induction symbols with
  | nil => rfl
  | cons s symbols ih =>
    rw [List.map_cons, isKnown]
    by_cases hs : s.vaddr = vaddr ∧ s.name = name
    · simp [hs]
    · simp [ih, hs]

lemma stored_zero : Stored Arrays.zero [] [] := ⟨Slab.holds_empty, Slab.holds_empty⟩

/-- A call with a name does to the array what `addSymbol` does to the list. -/
lemma Stored.addSymbol (h : Stored a symbols relocs) {name : Bytes} (hname : name ≠ []) (vaddr size type bind : UInt64)
    (isImport : Bool) :
    ∃ a', analysisAddSymbol a (some name) vaddr size type bind isImport = some a' ∧
      Stored a' (Debag.addSymbol symbols (some ⟨name, vaddr, size, type, bind, isImport⟩)) relocs := by
  obtain ⟨symbols', hpush, hholds⟩ := h.symbols.push roundsUp_roundUp ⟨name, vaddr, size, type, bind, isImport⟩
  have hread : isKnown vaddr name a.symbols.entries =
      some (symbols.any fun s => s.vaddr = vaddr ∧ s.name = name) := by
    rw [h.symbols.entries, isKnown_map]
  have hle := h.symbols.count_le
  obtain ⟨c, rest, rfl⟩ := List.exists_cons_of_ne_nil hname
  by_cases hknown : symbols.any fun s => s.vaddr = vaddr ∧ s.name = c :: rest
  · refine ⟨a, ?_, ?_⟩
    · simp only [analysisAddSymbol, if_pos hle, hread, hknown]
      rfl
    · rw [Debag.addSymbol, if_pos hknown]
      exact h
  · refine ⟨{ a with symbols := symbols' }, ?_, ?_⟩
    · rw [Bool.not_eq_true] at hknown
      simp only [analysisAddSymbol, if_pos hle, hread, hknown, hpush]
      rfl
    · rw [Debag.addSymbol, if_neg hknown]
      exact ⟨hholds, h.relocs⟩

lemma Stored.addReloc (h : Stored a symbols relocs) (name : Option Bytes) (vaddr addend type : UInt64)
    (isRela isPlt : Bool) :
    ∃ a', Debag.addReloc a name vaddr addend type isRela isPlt = some a' ∧
      Stored a' symbols (relocs ++ [⟨name, vaddr, addend, type, isRela, isPlt, 0⟩]) := by
  obtain ⟨relocs', hpush, hholds⟩ := h.relocs.push roundsUp_roundUp ⟨name, vaddr, addend, type, isRela, isPlt, 0⟩
  exact ⟨{ a with relocs := relocs' }, by simp only [Debag.addReloc, hpush]; rfl, h.symbols, hholds⟩

/-- **One call** keeps both arrays. -/
lemma Stored.run (h : Stored a symbols relocs) (call : AddCall) :
    ∃ a', call.run a = some a' ∧
      Stored a' (Debag.addSymbol symbols call.symbol?) (relocs ++ call.reloc?.toList) := by
  cases call with
  | symbol name vaddr size type bind isImport =>
    rw [AddCall.reloc?, Option.toList_none, List.append_nil]
    match name with
    | none => exact ⟨a, rfl, h⟩
    | some [] => exact ⟨a, rfl, h⟩
    | some (c :: name) => exact h.addSymbol (List.cons_ne_nil c name) vaddr size type bind isImport
  | reloc name vaddr addend type isRela isPlt => exact h.addReloc name vaddr addend type isRela isPlt

end Step

/-! ### Every sequence of calls -/

lemma Stored.addAll {a : Arrays} {symbols : List ElfSymbol} {relocs : List ElfReloc} (h : Stored a symbols relocs)
    (calls : List AddCall) :
    ∃ a', Debag.addAll a calls = some a' ∧
      Stored a' (calls.foldl (fun symbols call => Debag.addSymbol symbols call.symbol?) symbols)
        (relocs ++ calls.filterMap AddCall.reloc?) := by
  induction calls generalizing a symbols relocs with
  | nil => exact ⟨a, rfl, by simpa using h⟩
  | cons call calls ih =>
    obtain ⟨a₁, hrun, hstored⟩ := h.run call
    obtain ⟨a', hall, hstored'⟩ := ih hstored
    have hrelocs : relocs ++ (call :: calls).filterMap AddCall.reloc? =
        relocs ++ call.reloc?.toList ++ calls.filterMap AddCall.reloc? := by
      rw [List.append_assoc]
      cases hreloc : call.reloc? <;> simp [List.filterMap_cons, hreloc]
    refine ⟨a', ?_, ?_⟩
    · simpa [Debag.addAll, hrun] using hall
    · rw [List.foldl_cons, hrelocs]
      exact hstored'

/-- The symbols that are kept are the first of each name and address. -/
lemma foldl_addSymbol (calls : List AddCall) (symbols : List ElfSymbol) :
    calls.foldl (fun symbols call => addSymbol symbols call.symbol?) symbols =
      List.eraseDupsBy.loop ElfSymbol.same (calls.filterMap AddCall.symbol?) symbols.reverse := by
  induction calls generalizing symbols with
  | nil => simp [List.eraseDupsBy.loop]
  | cons call calls ih =>
    rw [List.foldl_cons, ih]
    cases hsymbol : call.symbol? with
    | none => rw [List.filterMap_cons_none hsymbol, addSymbol]
    | some sym =>
      rw [List.filterMap_cons_some hsymbol, List.eraseDupsBy.loop, addSymbol, List.any_reverse]
      by_cases hknown : symbols.any fun s => s.vaddr = sym.vaddr ∧ s.name = sym.name
      · rw [if_pos hknown, show symbols.any (sym.same ·) = true from hknown]
      · rw [if_neg hknown, show symbols.any (sym.same ·) = false from Bool.not_eq_true _ ▸ hknown]
        simp

/-- **The arrays grow without loss**: whatever is added in whatever order, no cell outside of what is allocated is
read or written, the capacity that is worked out is within what is allocated, the symbols are the first of each
name and address, and every relocation is there. -/
theorem addAll_zero (calls : List AddCall) :
    ∃ a, addAll Arrays.zero calls = some a ∧
      a.symbols.capacity roundUp ≤ a.symbols.allocated ∧ a.relocs.capacity roundUp ≤ a.relocs.allocated ∧
      a.symbols.count ≤ a.symbols.allocated ∧ a.relocs.count ≤ a.relocs.allocated ∧
      a.symbols.entries = ((calls.filterMap AddCall.symbol?).eraseDupsBy ElfSymbol.same).map some ∧
      a.relocs.entries = (calls.filterMap AddCall.reloc?).map some := by
  obtain ⟨a, hall, hsymbols, hrelocs⟩ := stored_zero.addAll calls
  rw [foldl_addSymbol] at hsymbols
  exact ⟨a, hall, hsymbols.room, hrelocs.room, hsymbols.count_le, hrelocs.count_le, hsymbols.entries,
    hrelocs.entries⟩

end Two09.Debag
