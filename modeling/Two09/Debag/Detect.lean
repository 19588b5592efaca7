import Two09.Debag.Elf

/-!
# What the analysis detects

The flags and the two lists of system calls that `debag_analyze` reports, against the function symbols of
`.dynsym`.
-/

namespace Two09.Debag

open Two09.Lib

/-! ### What a symbol stands for -/

namespace Category

/-- The flag of a category, if it has one. -/
def flag : Category → Option (Analysis → Bool)
  | safe => none
  | net => some Analysis.hasNetwork
  | write => some Analysis.hasFileWrite
  | exec => some Analysis.hasExec
  | thread => some Analysis.hasThreads
  | mount => some Analysis.hasMount

/-- Whether the calls of a category are traced, or allowed. -/
def isTraced : Category → Bool
  | safe | thread => false
  | net | write | exec | mount => true

end Category

/-- The two lists. -/
def Analysis.calls (a : Analysis) (traced : Bool) : List Syscall :=
  if traced then a.tracedSyscalls else a.allowedSyscalls

/-- How much room they have. -/
def callsCap (traced : Bool) : Nat := if traced then 32 else 64

/-- The names that stand for `dlopen`. -/
abbrev IsDlopen (name : Bytes) : Prop := name = ascii "dlopen" ∨ name = ascii "__libc_dlopen_mode"

/-- **What is detected is what the function symbols stand for**: the flag and the call of each, and nothing
that is not one's. -/
structure Detects (functions : List ElfSymbol) (a : Analysis) : Prop where
  flag : ∀ f ∈ functions, ∀ call category, findSyscallForSym f.name = some (call, category) →
    ∀ flag ∈ category.flag, flag a = true
  call : ∀ f ∈ functions, ∀ call category, findSyscallForSym f.name = some (call, category) →
    call ∈ a.calls category.isTraced
  dlopen : ∀ f ∈ functions, IsDlopen f.name → a.hasDlopen = true
  flag_justified : ∀ category : Category, ∀ flag ∈ category.flag, flag a = true →
    ∃ f ∈ functions, ∃ call, findSyscallForSym f.name = some (call, category)
  call_justified : ∀ traced, ∀ call ∈ a.calls traced,
    ∃ f ∈ functions, ∃ category, findSyscallForSym f.name = some (call, category) ∧ category.isTraced = traced
  dlopen_justified : a.hasDlopen = true → ∃ f ∈ functions, IsDlopen f.name

/-! ### What the file says -/

section File
variable (m : Mapping)

/-- The entries of `.dynsym` that have a name. -/
def dynsymEntries : Option (List ElfSymbol) := do
  let h ← ehdr m
  let t ← tables m h
  match ← stringsOf m h t.dynsym with
  | none => return []
  | some (i, j) =>
    let syms ← sectionStart m h i
    let count ← sectionCount m h i 24
    let strtab ← sectionStart m h j
    readEach count (elfSymbol m syms strtab) (fun entries e => entries ++ e.toList) []

/-- The function symbols of `.dynsym`, defined and imported. -/
def functionSymbols : List ElfSymbol := ((dynsymEntries m).getD []).filter fun s => s.type = 2

/-- The libraries that the dynamic section needs. -/
def neededLibs : Option (List Bytes) := do
  let h ← ehdr m
  let t ← tables m h
  match t.dynamic with
  | none => return []
  | some d =>
    let start ← sectionStart m h d
    let count ← sectionCount m h d 16
    let dynstr ← dynStrings m h start count
    if dynstr = 0 then return []
    readEach count (neededName m start dynstr) (fun libs l => libs ++ l.toList) []

end File

/-- A library that is taken for the one of `dlopen`. -/
abbrev NamesLibdl (lib : Bytes) : Prop := contains lib (ascii "libdl") ∨ contains lib (ascii "libdl.so")

/-- The calls that some names stand for, those of one of the lists. -/
def callsNamed (traced : Bool) (names : List Bytes) : List Syscall :=
  names.filterMap fun name =>
    match findSyscallForSym name with
    | some (call, category) => if category.isTraced = traced then some call else none
    | none => none

/-- The names of the defined functions. -/
def definedNames (functions : List ElfSymbol) : List Bytes :=
  (functions.filter fun f => !f.isImport).map ElfSymbol.name

/-- **When everything is detected**: the calls of all function symbols are among the first that the defined ones
stand for, as many as there is room for, and a function is named as `dlopen` when a defined one is or a
library is. -/
def DetectsWhen (functions : List ElfSymbol) (libs : List Bytes) : Prop :=
  (∀ f ∈ functions, ∀ call category, findSyscallForSym f.name = some (call, category) →
    call ∈ (callsNamed category.isTraced (definedNames functions)).take (callsCap category.isTraced)) ∧
  ((∃ f ∈ functions, IsDlopen f.name) ↔
    (∃ name ∈ definedNames functions, IsDlopen name) ∨ ∃ lib ∈ libs, NamesLibdl lib)

/-! ### The walk over the symbols -/

section Walk

variable {a : Analysis}

/-- What the walk looks at in an entry. -/
def ElfSymbol.dynSym (s : ElfSymbol) : DynSym := ⟨s.name, s.type = 2, s.isImport⟩

lemma push_take (cap : Nat) (calls : List Syscall) (call : Syscall) :
    push cap (calls.take cap) call = (calls ++ [call]).take cap := by
  unfold push
  rcases Nat.lt_or_ge calls.length cap with h | h
  · rw [List.take_of_length_le h.le, if_pos h, List.take_of_length_le (by simpa using h)]
  · rw [if_neg (by simpa using h), List.take_append_of_le_length h]

/-- What some names add up to. -/
structure Counts (names : List Bytes) (a : Analysis) : Prop where
  calls : ∀ traced, a.calls traced = (callsNamed traced names).take (callsCap traced)
  flag : ∀ category : Category, ∀ flag ∈ category.flag, (flag a = true ↔
    ∃ name ∈ names, ∃ call, findSyscallForSym name = some (call, category))
  dlopen : a.hasDlopen = true ↔ ∃ name ∈ names, IsDlopen name

lemma callsNamed_append (traced : Bool) (names : List Bytes) (name : Bytes) :
    callsNamed traced (names ++ [name]) = callsNamed traced names ++ callsNamed traced [name] :=
  List.filterMap_append

lemma calls_count (a : Analysis) (call : Syscall) (category : Category) (traced : Bool) :
    (a.count call category).calls traced =
      if category.isTraced = traced then push (callsCap traced) (a.calls traced) call else a.calls traced := by
  cases category <;> cases traced <;> rfl

/-- The call of a category raises its flag and no other. -/
lemma flag_count (a : Analysis) (call : Syscall) (category c : Category) {flag : Analysis → Bool}
    (hflag : flag ∈ c.flag) : flag (a.count call category) = true ↔ flag a = true ∨ category = c := by
  cases c <;> simp only [Category.flag, Option.mem_def, Option.some.injEq, reduceCtorEq] at hflag <;>
    subst hflag <;> cases category <;> simp [Analysis.count]

lemma hasDlopen_count (a : Analysis) (call : Syscall) (category : Category) :
    (a.count call category).hasDlopen = a.hasDlopen := by
  cases category <;> rfl

variable {names : List Bytes} {name : Bytes}

/-- What the table says about one more name is counted. -/
lemma Counts.table (h : Counts names a) (hdlopen : a.hasDlopen = true ↔ ∃ n ∈ names ++ [name], IsDlopen n) :
    Counts (names ++ [name]) (match findSyscallForSym name with
      | some (call, category) => a.count call category
      | none => a) := by
  cases hfind : findSyscallForSym name with
  | none =>
    refine ⟨fun traced => ?_, fun category flag hflag => ?_, hdlopen⟩
    · rw [callsNamed_append, h.calls]
      simp [callsNamed, hfind]
    · rw [h.flag category flag hflag]
      simp [hfind]
  | some r =>
    obtain ⟨call, category⟩ := r
    refine ⟨fun traced => ?_, fun c flag hflag => ?_, ?_⟩
    · rw [calls_count, callsNamed_append, h.calls]
      by_cases ht : category.isTraced = traced
      · rw [if_pos ht, push_take]
        simp [callsNamed, hfind, ht]
      · rw [if_neg ht]
        simp [callsNamed, hfind, ht]
    · rw [flag_count a call category c hflag, h.flag c flag hflag]
      constructor
      · rintro (⟨n, hn, hcall⟩ | rfl)
        · exact ⟨n, List.mem_append_left _ hn, hcall⟩
        · exact ⟨name, List.mem_append_right _ List.mem_cons_self, call, hfind⟩
      · rintro ⟨n, hn, call', hcall⟩
        rcases List.mem_append.1 hn with hn | hn
        · exact .inl ⟨n, hn, call', hcall⟩
        · rw [List.mem_singleton.1 hn, hfind] at hcall
          right
          simpa using (congrArg (Option.map Prod.snd) hcall)
    · simp only [hasDlopen_count]
      exact hdlopen

/-- One more name is counted. -/
lemma Counts.named (h : Counts names a) (name : Bytes) : Counts (names ++ [name]) (a.named name) := by
  unfold Analysis.named
  by_cases hd : IsDlopen name
  · have hfind : findSyscallForSym name = none := by
      rcases hd with rfl | rfl <;> decide
    rw [hfind]
    simp only
    rw [if_pos hd]
    refine ⟨fun traced => ?_, fun category flag hflag => ?_, ?_⟩
    · rw [callsNamed_append, show Analysis.calls { a with hasDlopen := true } traced = a.calls traced from rfl, h.calls]
      simp [callsNamed, hfind]
    · have hsame : flag { a with hasDlopen := true } = flag a := by
        cases category <;> simp only [Category.flag, Option.mem_def, Option.some.injEq, reduceCtorEq] at hflag <;>
          subst hflag <;> rfl
      rw [hsame, h.flag category flag hflag]
      simp [hfind]
    · exact iff_of_true rfl ⟨name, List.mem_append_right _ List.mem_cons_self, hd⟩
  · have hdlopen : a.hasDlopen = true ↔ ∃ n ∈ names ++ [name], IsDlopen n := by
      rw [h.dlopen]
      simp [or_and_right, exists_or, hd]
    have htable := h.table hdlopen
    cases hfind : findSyscallForSym name with
    | none =>
      rw [hfind] at htable
      simp only
      rwa [if_neg hd]
    | some r =>
      rw [hfind] at htable
      simp only
      rwa [if_neg hd]

/-- A name that the table does not have counts for nothing. -/
lemma Counts.append_empty_name (h : Counts names a) : Counts (names ++ [[]]) a := by
  have hfind : findSyscallForSym [] = none := by decide
  have hd : ¬ IsDlopen [] := by decide
  refine ⟨fun traced => ?_, fun category flag hflag => ?_, ?_⟩
  · rw [h.calls, callsNamed_append]
    simp [callsNamed, hfind]
  · rw [h.flag category flag hflag]
    simp [hfind, or_and_right, exists_or]
  · rw [h.dlopen]
    simp [hd, or_and_right, exists_or]

/-- So is one more symbol, if it is that of a defined function. -/
lemma Counts.symbol (h : Counts names a) (s : ElfSymbol) :
    Counts (names ++ definedNames ([s].filter fun s => s.type = 2)) (a.symbol s.dynSym) := by
  unfold Analysis.symbol ElfSymbol.dynSym
  by_cases hs : s.type = 2 ∧ s.isImport = false
  · have hnames : definedNames ([s].filter fun s => s.type = 2) = [s.name] := by
      simp [definedNames, hs]
    rw [hnames]
    by_cases hname : s.name = []
    · rw [if_pos (.inr (.inr hname)), hname]
      exact h.append_empty_name
    · rw [if_neg (by simp [hs, hname])]
      exact h.named s.name
  · have hnames : definedNames ([s].filter fun s => s.type = 2) = [] := by
      by_cases htype : s.type = 2
      · have himport : s.isImport = true := by
          simpa using fun hf => hs ⟨htype, hf⟩
        simp [definedNames, htype, himport]
      · simp [definedNames, htype]
    rw [hnames, List.append_nil, if_pos]
    · exact h
    · by_cases htype : s.type = 2
      · exact .inr (.inl (by simpa using fun hf => hs ⟨htype, hf⟩))
      · exact .inl (decide_eq_false htype)

/-- **What the walk over `.dynsym` counts** is the names of the defined functions. -/
theorem counts_analyzeSymbols (entries : List ElfSymbol) :
    Counts (definedNames (entries.filter fun s => s.type = 2)) (analyzeSymbols (entries.map ElfSymbol.dynSym)) := by
  induction entries using List.reverseRecOn with
  | nil =>
    refine ⟨fun traced => ?_, fun category flag hflag => ?_, by simp [analyzeSymbols, Analysis.empty, definedNames]⟩
    · cases traced <;> rfl
    · cases category <;> simp only [Category.flag, Option.mem_def, Option.some.injEq, reduceCtorEq] at hflag <;>
        subst hflag <;> simp [analyzeSymbols, Analysis.empty, definedNames]
  | append_singleton entries s ih =>
    have hnames : definedNames ((entries ++ [s]).filter fun s => s.type = 2) =
        definedNames (entries.filter fun s => s.type = 2) ++ definedNames ([s].filter fun s => s.type = 2) := by
      simp [definedNames]
    rw [hnames, List.map_append, analyzeSymbols, List.foldl_append]
    exact ih.symbol s

end Walk

/-! ### Reading the file -/

section Reading

instance : Inhabited DynSym := ⟨[], false, false⟩

variable {m : Mapping} {h : Ehdr} {a : Analysis}

/-- What a walk looks at in an entry is what the entry says, as far as it matters. -/
lemma symbol_dynSym {syms strtab : UInt64} {i : Nat} {e : Option ElfSymbol} {d : DynSym}
    (he : elfSymbol m syms strtab i = some e) (hd : dynSym m syms strtab i = some d) :
    a.symbol d = (e.map fun s => a.symbol s.dynSym).getD a := by
  have hskip : ∀ name f u, f = false ∨ u = true ∨ name = [] → a.symbol ⟨name, f, u⟩ = a := by
    intro name f u hskip
    exact if_pos hskip
  simp only [elfSymbol, Option.bind_eq_bind, Option.bind_eq_some_iff] at he
  obtain ⟨name, hname, first, hfirst, he⟩ := he
  simp only [dynSym, Option.bind_eq_bind, Option.bind_eq_some_iff] at hd
  obtain ⟨info, hinfo, hd⟩ := hd
  by_cases hzero : first = 0
  · obtain rfl : none = e := by simpa [hzero] using he
    rw [Option.map_none, Option.getD_none]
    split_ifs at hd with htype
    · obtain rfl := Option.some.inj hd
      exact hskip _ _ _ (.inl rfl)
    · simp only [Option.bind_eq_some_iff] at hd
      obtain ⟨shndx, hshndx, hd⟩ := hd
      split_ifs at hd with hundef
      · obtain rfl := Option.some.inj hd
        exact hskip _ _ _ (.inr (.inl rfl))
      · simp only [hname, hfirst, Option.bind_some, if_pos hzero] at hd
        obtain rfl := Option.some.inj hd
        exact hskip _ _ _ (.inr (.inr rfl))
  · simp only [if_neg hzero, Option.bind_eq_some_iff] at he
    obtain ⟨shndx, hshndx, value, hvalue, size, hsize, info', hinfo', text, htext, he⟩ := he
    obtain rfl := Option.some.inj he
    obtain rfl : info = info' := Option.some.inj (hinfo.symm.trans hinfo')
    rw [Option.map_some, Option.getD_some]
    split_ifs at hd with htype
    · obtain rfl := Option.some.inj hd
      rw [hskip _ _ _ (.inl rfl)]
      exact (hskip _ _ _ (.inl (decide_eq_false htype))).symm
    · simp only [hshndx, Option.bind_some] at hd
      split_ifs at hd with hundef
      · obtain rfl := Option.some.inj hd
        rw [hskip _ _ _ (.inr (.inl rfl))]
        exact (hskip _ _ _ (.inr (.inl (decide_eq_true hundef)))).symm
      · simp only [hname, hfirst, htext, Option.bind_some, if_neg hzero] at hd
        obtain rfl := Option.some.inj hd
        simp only [ElfSymbol.dynSym, decide_eq_true (not_not.1 htype), decide_eq_false hundef]

/-- A loop that collects. -/
lemma readEach_toList {α : Type} {n : Nat} {read : Nat → Option (Option α)} {f : Nat → Option α}
    (hread : ∀ i < n, read i = some (f i)) :
    readEach n read (fun xs x => xs ++ x.toList) [] = some ((List.range n).filterMap f) := by
  rw [readEach_eq hread]
  congr 1
  induction n with
  | zero => rfl
  | succ n ih =>
    rw [List.range_succ, List.foldl_append, ih fun i hi => hread i (by omega), List.filterMap_append]
    cases hf : f n <;> simp [hf]

/-- The rounds of a loop that succeeds. -/
lemma of_readEach {α σ : Type} [Inhabited α] {n : Nat} {read : Nat → Option α} {add : σ → α → σ} {init s : σ}
    (h : readEach n read add init = some s) : ∀ i < n, read i = some ((read i).getD default) := by
  intro i hi
  obtain ⟨x, hx⟩ := Option.isSome_iff_exists.1 (isSome_readEach.1 (Option.isSome_of_eq_some h) i hi)
  rw [hx, Option.getD_some]

/-- What a loop that succeeds computes. -/
lemma foldl_of_readEach {α σ : Type} [Inhabited α] {n : Nat} {read : Nat → Option α} {add : σ → α → σ}
    {init s : σ} (h : readEach n read add init = some s) :
    s = (List.range n).foldl (fun s i => add s ((read i).getD default)) init :=
  Option.some.inj (h.symm.trans (readEach_eq (of_readEach h)))

/-- A walk over entries, some of them without a name. -/
lemma foldl_symbols {e : Nat → Option ElfSymbol} {d : Nat → DynSym} {n : Nat}
    (hstep : ∀ (a : Analysis), ∀ i < n, a.symbol (d i) = ((e i).map fun s => a.symbol s.dynSym).getD a) :
    (List.range n).foldl (fun a i => a.symbol (d i)) .empty =
      analyzeSymbols (((List.range n).filterMap e).map ElfSymbol.dynSym) := by
  induction n with
  | zero => rfl
  | succ n ih =>
    rw [List.range_succ, List.foldl_append, List.filterMap_append, List.map_append, analyzeSymbols,
      List.foldl_append, ih fun a i hi => hstep a i (by omega), List.foldl_cons, List.foldl_nil,
      hstep _ n (by omega)]
    cases he : e n <;> simp [he, analyzeSymbols]

/-- A walk over the libraries. -/
lemma foldl_addLib (names : Nat → Option Bytes) (n : Nat) (a : Analysis) :
    ((List.range n).foldl (fun x i => addLib x (names i)) ([], a)).2 =
      { a with hasDlopen := a.hasDlopen ||
          ((List.range n).filterMap names).any fun l => decide (NamesLibdl l) } := by
  induction n with
  | zero => simp
  | succ n ih =>
    rw [List.range_succ, List.foldl_append, List.filterMap_append, List.any_append, List.foldl_cons,
      List.foldl_nil]
    cases hname : names n with
    | none =>
      rw [addLib, ih]
      simp [hname]
    | some name =>
      rw [addLib, ih]
      by_cases hdl : NamesLibdl name
      · simp [hname, hdl]
      · simp only [if_neg hdl, hname, List.filterMap_cons, List.filterMap_nil, List.any_cons, List.any_nil,
          decide_eq_false hdl, Bool.or_false]

/-- **The walk over `.dynsym` analyzes its entries.** -/
lemma walkSymbols_eq {t : Tables} {dynsym : Option (Nat × Nat)} {symbols : List ElfSymbol}
    (hh : ehdr m = some h) (ht : tables m h = some t) (hdynsym : stringsOf m h t.dynsym = some dynsym)
    (hsymbols : addSymbols m h [] dynsym = some symbols) (hcalls : walkSymbols m h dynsym = some a) :
    ∃ entries, dynsymEntries m = some entries ∧ a = analyzeSymbols (entries.map ElfSymbol.dynSym) := by
  unfold dynsymEntries
  simp only [hh, ht, hdynsym, Option.bind_eq_bind, Option.bind_some]
  cases dynsym with
  | none =>
    refine ⟨[], rfl, ?_⟩
    exact (Option.some.inj hcalls).symm
  | some ij =>
    obtain ⟨i, j⟩ := ij
    simp only [addSymbols, Option.bind_eq_bind, Option.bind_eq_some_iff] at hsymbols
    obtain ⟨syms, hsyms, count, hcount, strtab, hstrtab, hread⟩ := hsymbols
    simp only [walkSymbols, hsyms, hcount, hstrtab, Option.bind_eq_bind, Option.bind_some] at hcalls
    have hentries := of_readEach hread
    have hdyn := of_readEach hcalls
    refine ⟨_, by simpa only [hsyms, hcount, hstrtab, Option.bind_some] using readEach_toList hentries, ?_⟩
    rw [foldl_of_readEach hcalls]
    exact foldl_symbols fun a i hi => symbol_dynSym (hentries i hi) (hdyn i hi)

/-- The libraries only add to `dlopen`. -/
lemma libraries_eq {t : Tables} {libs : List Bytes × Analysis} (hh : ehdr m = some h)
    (ht : tables m h = some t) (hlibs : libraries m h a t.dynamic = some libs) :
    ∃ needed, neededLibs m = some needed ∧
      libs.2 = { a with hasDlopen := a.hasDlopen || needed.any fun l => decide (NamesLibdl l) } := by
  unfold neededLibs
  simp only [hh, ht, Option.bind_eq_bind, Option.bind_some]
  cases hd : t.dynamic with
  | none =>
    rw [hd, libraries] at hlibs
    obtain rfl := Option.some.inj hlibs
    exact ⟨[], rfl, by simp⟩
  | some d =>
    rw [hd] at hlibs
    simp only [libraries, Option.bind_eq_bind, Option.bind_eq_some_iff] at hlibs
    obtain ⟨start, hstart, count, hcount, dynstr, hdynstr, hread⟩ := hlibs
    simp only [hstart, hcount, hdynstr, Option.bind_some]
    by_cases hzero : dynstr = 0
    · rw [if_pos hzero] at hread
      obtain rfl := Option.some.inj hread
      exact ⟨[], by simp [hzero], by simp⟩
    · rw [if_neg hzero] at hread
      have hnames := of_readEach hread
      refine ⟨_, by rw [if_neg hzero]; exact readEach_toList hnames, ?_⟩
      rw [foldl_of_readEach hread]
      exact foldl_addLib _ count a

end Reading

/-! ### When everything is detected -/

section Detects

variable {functions : List ElfSymbol} {libs : List Bytes} {a : Analysis}

/-- A call is of one category. -/
lemma category_unique {name name' : Bytes} {call : Syscall} {c c' : Category}
    (h : findSyscallForSym name = some (call, c)) (h' : findSyscallForSym name' = some (call, c')) : c = c' := by
  have hall : ∀ e ∈ symTable, ∀ e' ∈ symTable, e.2.1 = e'.2.1 → e.2.2 = e'.2.2 := by decide +kernel
  obtain ⟨e, he, hcall⟩ := Option.map_eq_some_iff.1 h
  obtain ⟨e', he', hcall'⟩ := Option.map_eq_some_iff.1 h'
  have hsame := hall e (List.mem_of_find?_eq_some he) e' (List.mem_of_find?_eq_some he')
  rw [hcall, hcall'] at hsame
  exact hsame rfl

lemma mem_callsNamed {traced : Bool} {names : List Bytes} {call : Syscall} :
    call ∈ callsNamed traced names ↔ ∃ name ∈ names, ∃ category,
      findSyscallForSym name = some (call, category) ∧ category.isTraced = traced := by
  unfold callsNamed
  rw [List.mem_filterMap]
  refine exists_congr fun name => and_congr_right fun _ => ?_
  cases findSyscallForSym name with
  | none => simp
  | some r =>
    obtain ⟨call', category⟩ := r
    by_cases ht : category.isTraced = traced
    · simp [ht]
    · simp [ht]

lemma mem_definedNames {name : Bytes} :
    name ∈ definedNames functions ↔ ∃ f ∈ functions, f.isImport = false ∧ f.name = name := by
  simp [definedNames, and_assoc]

/-- What the defined functions and the libraries add up to is what the function symbols stand for under the
condition, and only then. -/
lemma detects_iff_of_counts (hcounts : Counts (definedNames functions) a) :
    Detects functions { a with hasDlopen := a.hasDlopen || libs.any fun l => decide (NamesLibdl l) } ↔
      DetectsWhen functions libs := by
  have hdlopen : (a.hasDlopen || libs.any fun l => decide (NamesLibdl l)) = true ↔
      (∃ name ∈ definedNames functions, IsDlopen name) ∨ ∃ lib ∈ libs, NamesLibdl lib := by
    rw [Bool.or_eq_true, hcounts.dlopen, List.any_eq_true]
    simp only [decide_eq_true_eq]
  have hflag : ∀ category : Category, ∀ flag ∈ category.flag,
      flag { a with hasDlopen := a.hasDlopen || libs.any fun l => decide (NamesLibdl l) } = flag a := by
    intro category flag hflag
    cases category <;> simp only [Category.flag, Option.mem_def, Option.some.injEq, reduceCtorEq] at hflag <;>
      subst hflag <;> rfl
  constructor
  · intro h
    refine ⟨fun f hf call category hcall => ?_, ?_⟩
    · have hmem := h.call f hf call category hcall
      rwa [← hcounts.calls]
    · rw [← hdlopen]
      exact ⟨fun ⟨f, hf, hname⟩ => h.dlopen f hf hname, h.dlopen_justified⟩
  · rintro ⟨hcalls, hnames⟩
    refine ⟨?_, ?_, ?_, ?_, ?_, ?_⟩
    · intro f hf call category hcall flag hmem
      obtain ⟨name, hname, c, hc, htraced⟩ := mem_callsNamed.1 (List.mem_of_mem_take (hcalls f hf call category hcall))
      obtain rfl := category_unique hcall hc
      rw [hflag category flag hmem, hcounts.flag category flag hmem]
      exact ⟨name, hname, call, hc⟩
    · intro f hf call category hcall
      have hmem := hcalls f hf call category hcall
      rwa [← hcounts.calls] at hmem
    · intro f hf hname
      exact hdlopen.2 (hnames.1 ⟨f, hf, hname⟩)
    · intro category flag hmem htrue
      rw [hflag category flag hmem, hcounts.flag category flag hmem] at htrue
      obtain ⟨name, hname, call, hcall⟩ := htrue
      obtain ⟨f, hf, -, rfl⟩ := mem_definedNames.1 hname
      exact ⟨f, hf, call, hcall⟩
    · intro traced call hmem
      have hin : call ∈ a.calls traced := hmem
      rw [hcounts.calls] at hin
      obtain ⟨name, hname, category, hcall, htraced⟩ := mem_callsNamed.1 (List.mem_of_mem_take hin)
      obtain ⟨f, hf, -, rfl⟩ := mem_definedNames.1 hname
      exact ⟨f, hf, category, hcall, htraced⟩
    · exact fun htrue => hnames.2 (hdlopen.1 htrue)

end Detects

/-- **What is detected** in a file that can be analyzed is what its function symbols stand for, if the defined
ones alone stand for as much and the lists have room for it. -/
theorem detects_iff (m : Mapping) (a : ElfAnalysis) (h : debagAnalyze m = some (some a)) :
    Detects (functionSymbols m) a.calls ↔ DetectsWhen (functionSymbols m) ((neededLibs m).getD []) := by
  unfold debagAnalyze at h
  split_ifs at h with hshort
  · simp at h
  simp only [Option.bind_eq_bind, Option.bind_eq_some_iff] at h
  obtain ⟨magic, hmagic, h⟩ := h
  split_ifs at h with helf
  · simp at h
  simp only [Option.bind_eq_some_iff] at h
  obtain ⟨hd, hhd, a', ha', heq⟩ := h
  obtain rfl : a' = a := by simpa using heq
  simp only [analyzeElf, Option.bind_eq_bind, Option.bind_eq_some_iff] at ha'
  obtain ⟨names, -, sections, -, segments, -, t, ht, dynsym, hdynsym, symtab, -, symbols, hsymbols, symbols', -,
    calls, hcalls, libs, hlibs, relocs, -, ha'⟩ := ha'
  obtain rfl := Option.some.inj ha'
  obtain ⟨entries, hentries, rfl⟩ := walkSymbols_eq hhd ht hdynsym hsymbols hcalls
  obtain ⟨needed, hneeded, hadd⟩ := libraries_eq hhd ht hlibs
  simp only [functionSymbols, hentries, hneeded, Option.getD_some, hadd]
  exact detects_iff_of_counts (counts_analyzeSymbols entries)

/-! ### A file with one function -/

/-- An ELF file whose `.dynsym` has the function `connect`, in the section `shndx`. -/
def connectFile (shndx : UInt8) : Mapping where
  base := 0x7f0000000000
  bytes := [0x7f, 0x45, 0x4c, 0x46, 2, 1, 1, 0, 0, 0, 0, 0, 0, 0, 0, 0, 3, 0, 62, 0, 1, 0, 0, 0,
      0, 0, 0, 0, 0, 0, 0, 0, 0, 0, 0, 0, 0, 0, 0, 0, 64, 0, 0, 0, 0, 0, 0, 0, 0, 0, 0, 0, 64, 0, 56, 0,
      0, 0, 64, 0, 3, 0, 0, 0] ++
    -- the section headers
    List.replicate 64 0 ++
    ([0, 0, 0, 0, 11, 0, 0, 0] ++ List.replicate 16 0 ++ [0, 1, 0, 0, 0, 0, 0, 0, 48, 0, 0, 0, 0, 0, 0, 0,
      2, 0, 0, 0] ++ List.replicate 20 0) ++
    ([0, 0, 0, 0, 3, 0, 0, 0] ++ List.replicate 16 0 ++ [0x30, 1, 0, 0, 0, 0, 0, 0, 9, 0, 0, 0, 0, 0, 0, 0] ++
      List.replicate 24 0) ++
    -- the symbols and their names
    List.replicate 24 0 ++ ([1, 0, 0, 0, 0x12, 0, shndx, 0] ++ List.replicate 16 0) ++
    (0 :: ascii "connect" ++ [0])
  low := Mapping.low_mmap
  high := by
    simp only [List.length_append, List.length_cons, List.length_nil, List.length_replicate]
    decide

/-- A defined `connect` is detected. -/
theorem connectFile_detects : ∃ a, debagAnalyze (connectFile 1) = some (some a) ∧
    Detects (functionSymbols (connectFile 1)) a.calls := by
  have hsome : (debagAnalyze (connectFile 1)).map (Option.map ElfAnalysis.bits) = some (some 64) := by
    decide +kernel
  have hfunctions : (functionSymbols (connectFile 1)).map (fun f => (f.name, f.isImport)) =
      [(ascii "connect", false)] := by decide +kernel
  have hlibs : (neededLibs (connectFile 1)).getD [] = [] := by decide +kernel
  obtain ⟨r, ha, hr⟩ := Option.map_eq_some_iff.1 hsome
  obtain ⟨a, rfl, -⟩ := Option.map_eq_some_iff.1 hr
  have hname : ∀ f ∈ functionSymbols (connectFile 1), f.name = ascii "connect" ∧ f.isImport = false := by
    intro f hf
    have hpair := List.mem_map_of_mem (f := fun f : ElfSymbol => (f.name, f.isImport)) hf
    rw [hfunctions, List.mem_singleton] at hpair
    exact Prod.ext_iff.1 hpair
  obtain ⟨f, fs, hfs⟩ := List.exists_cons_of_ne_nil (l := functionSymbols (connectFile 1)) (by
    rintro hnil
    simp [hnil] at hfunctions)
  have hf : f ∈ functionSymbols (connectFile 1) := by simp [hfs]
  have hdefined : ascii "connect" ∈ definedNames (functionSymbols (connectFile 1)) :=
    mem_definedNames.2 ⟨f, hf, (hname f hf).2, (hname f hf).1⟩
  have hfind : findSyscallForSym (ascii "connect") = some (.connect, .net) := by decide
  have hlength : (definedNames (functionSymbols (connectFile 1))).length ≤ 1 := by
    have hone := congrArg List.length hfunctions
    rw [List.length_map] at hone
    rw [definedNames, List.length_map]
    exact (List.length_filter_le _ _).trans hone.le
  refine ⟨a, ha, (detects_iff _ a ha).2 ⟨?_, ?_⟩⟩
  · intro g hg call category hcall
    rw [(hname g hg).1, hfind] at hcall
    obtain ⟨rfl, rfl⟩ := Prod.ext_iff.1 (Option.some.inj hcall)
    rw [List.take_of_length_le]
    · exact mem_callsNamed.2 ⟨_, hdefined, .net, hfind, rfl⟩
    · exact (List.length_filterMap_le _ _).trans (hlength.trans (by decide))
  · rw [hlibs]
    have hno : ¬ IsDlopen (ascii "connect") := by decide
    constructor
    · rintro ⟨g, hg, hdl⟩
      rw [(hname g hg).1] at hdl
      exact absurd hdl hno
    · rintro (⟨name, hmem, hdl⟩ | ⟨lib, hlib, -⟩)
      · obtain ⟨g, hg, -, rfl⟩ := mem_definedNames.1 hmem
        rw [(hname g hg).1] at hdl
        exact absurd hdl hno
      · exact absurd hlib List.not_mem_nil

/-- An imported one is not: the walk leaves imported symbols out. -/
theorem connectFile_not_detects : ∃ a, debagAnalyze (connectFile 0) = some (some a) ∧
    ¬ Detects (functionSymbols (connectFile 0)) a.calls := by
  have hsome : (debagAnalyze (connectFile 0)).map (Option.map fun a => a.calls.hasNetwork) =
      some (some false) := by decide +kernel
  have hfunctions : (functionSymbols (connectFile 0)).map (fun f => (f.name, f.isImport)) =
      [(ascii "connect", true)] := by decide +kernel
  obtain ⟨r, ha, hr⟩ := Option.map_eq_some_iff.1 hsome
  obtain ⟨a, rfl, hnet⟩ := Option.map_eq_some_iff.1 hr
  refine ⟨a, ha, fun h => ?_⟩
  obtain ⟨f, hf, hpair⟩ := List.mem_map.1 (hfunctions ▸ List.mem_cons_self :
    (ascii "connect", true) ∈ (functionSymbols (connectFile 0)).map fun f => (f.name, f.isImport))
  have hcall : findSyscallForSym f.name = some (.connect, .net) := by
    have hname : f.name = ascii "connect" := (Prod.ext_iff.1 hpair).1
    rw [hname]
    decide
  have htrue := h.flag f hf _ _ hcall _ rfl
  rw [hnet] at htrue
  cases htrue

end Two09.Debag
