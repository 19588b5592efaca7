import Two09.Debag.DynamicDb

/-!
# The table of breakpoints and the code

Which bytes of the code of the process are those of the program, and which the debugger has put there.
-/

namespace Two09.Debag.DynamicDb

open Two09.Lib Two09.Lib.Ptrace

variable {ρ : Type} {M : Machine ρ} {d d' : Debugger ρ} {s s' : Session} {t : Tracee ρ} {i j : Fin 64} {bp bp' : Bp}
  {addr : BitVec 64} {code : BitVec 64 → Option UInt8}

/-! ### Finding a breakpoint -/

lemma of_bpFind (h : bpFind s addr = some (i, bp)) : s.bps i = some bp ∧ bp.addr = addr := by
  obtain ⟨j, -, hj⟩ := List.exists_of_findSome?_eq_some h
  obtain ⟨bp', hbp', heq⟩ := Option.map_eq_some_iff.1 hj
  obtain ⟨rfl, rfl⟩ := Prod.mk.inj heq
  obtain ⟨hslot, haddr⟩ := Option.filter_eq_some_iff.1 hbp'
  exact ⟨hslot, by simpa using haddr⟩

lemma bpFind_eq_none : bpFind s addr = none ↔ ∀ i bp, s.bps i = some bp → bp.addr ≠ addr := by
  unfold bpFind
  rw [List.findSome?_eq_none_iff]
  constructor
  · intro h i bp hslot haddr
    have hi := h i (List.mem_finRange i)
    simp [hslot, haddr] at hi
  · intro h i _
    cases hslot : s.bps i with
    | none => rfl
    | some bp => simp [h i bp hslot]

/-- No two entries are for one address. -/
def Distinct (s : Session) : Prop :=
  ∀ i j bp bp', s.bps i = some bp → s.bps j = some bp' → bp.addr = bp'.addr → i = j

lemma Distinct.bpFind_eq (h : Distinct s) (hslot : s.bps i = some bp) : bpFind s bp.addr = some (i, bp) := by
  cases hfind : bpFind s bp.addr with
  | none => exact absurd rfl (bpFind_eq_none.1 hfind i bp hslot)
  | some e =>
    obtain ⟨j, bp'⟩ := e
    obtain ⟨hslot', haddr⟩ := of_bpFind hfind
    obtain rfl := h j i bp' bp hslot' hslot haddr
    rw [hslot] at hslot'
    rw [Option.some.inj hslot']

/-- The slot that an insertion takes is free. -/
lemma of_bpAlloc (h : bpAlloc s = some i) : s.bps i = none := by
  simpa using List.find?_some h

/-! ### The bytes of the code -/

/-- The debugger's `int3` is at an address. -/
def Planted (s : Session) (x : BitVec 64) : Prop := ∃ i bp, s.bps i = some bp ∧ bp.addr = x ∧ bp.inserted = true

/-- The code of the process is that of its program but for the breakpoints that are planted, and the table knows the
bytes under them. -/
structure Table (code : BitVec 64 → Option UInt8) (s : Session) (text : BitVec 64 → Option UInt8) : Prop where
  distinct : Distinct s
  planted : ∀ x, Planted s x → text x = some int3
  bare : ∀ x, ¬ Planted s x → text x = code x
  shadow : ∀ i bp, s.bps i = some bp → code bp.addr = some bp.shadow
  mapped : ∀ i bp, s.bps i = some bp → ∀ k : Fin 8, (code (bp.addr + BitVec.ofNat 64 k)).isSome

section Table

variable {text : BitVec 64 → Option UInt8}

lemma Table.congr {s' : Session} {text : BitVec 64 → Option UInt8} (h : Table code s text) (hbps : s'.bps = s.bps) :
    Table code s' text := by
  have hplanted : ∀ x, Planted s' x ↔ Planted s x := fun x => by rw [Planted, Planted, hbps]
  exact {
    distinct := by rw [Distinct, hbps]; exact h.distinct
    planted := fun x hx => h.planted x ((hplanted x).1 hx)
    bare := fun x hx => h.bare x fun hp => hx ((hplanted x).2 hp)
    shadow := by rw [hbps]; exact h.shadow
    mapped := by rw [hbps]; exact h.mapped }

lemma Table.addr_ne (h : Table code s text) (hzero : code 0 = none) (hslot : s.bps i = some bp) : bp.addr ≠ 0 := by
  intro h0
  have hcode := h.shadow i bp hslot
  rw [h0, hzero] at hcode
  cases hcode

lemma Table.isSome_text (h : Table code s text) {x : BitVec 64} (hx : (code x).isSome) : (text x).isSome := by
  by_cases hp : Planted s x
  · rw [h.planted x hp]
    rfl
  · rwa [h.bare x hp]

/-- A byte can be written where the code is mapped. -/
lemma Table.memWriteByte_of_mapped (h : Table code d.s d.t.text) (halive : d.s.alive = true)
    (hmapped : ∀ k : Fin 8, (code (addr + BitVec.ofNat 64 k)).isSome) (b : UInt8) :
    memWriteByte d addr b = some { d with t := { d.t with text := Function.update d.t.text addr (some b) } } := by
  have hpeek : d.t.peek addr = some fun k : Fin 8 => (d.t.text (addr + BitVec.ofNat 64 k)).getD 0 := by
    rw [Tracee.peek, if_pos]
    exact fun k => h.isSome_text (hmapped k)
  rw [memWriteByte, if_pos halive, hpeek]
  dsimp only
  rw [Tracee.poke_update hpeek]
  rfl

lemma Table.memWriteByte (h : Table code d.s d.t.text) (halive : d.s.alive = true) (hslot : d.s.bps i = some bp)
    (b : UInt8) : memWriteByte d bp.addr b =
      some { d with t := { d.t with text := Function.update d.t.text bp.addr (some b) } } :=
  h.memWriteByte_of_mapped halive (h.mapped i bp hslot) b

/-- An entry is changed, and the byte under it with its mark. -/
lemma Table.update (h : Table code s text) (bp' : Bp) (s' : Session) (hslot : s.bps i = some bp) (haddr : bp'.addr = bp.addr)
    (hshadow : bp'.shadow = bp.shadow) (hbps : s'.bps = Function.update s.bps i (some bp')) :
    Table code s' (Function.update text bp.addr (some (if bp'.inserted then int3 else bp.shadow))) := by
  have hother : ∀ j, j ≠ i → s'.bps j = s.bps j := fun j hj => by rw [hbps, Function.update_of_ne hj]
  have hown : s'.bps i = some bp' := by rw [hbps, Function.update_self]
  have haddrs : ∀ j b, s'.bps j = some b → ∃ b', s.bps j = some b' ∧ b'.addr = b.addr ∧ b'.shadow = b.shadow := by
    intro j b hj
    by_cases hji : j = i
    · subst hji
      rw [hown] at hj
      obtain rfl := Option.some.inj hj
      exact ⟨bp, hslot, haddr.symm, hshadow.symm⟩
    · exact ⟨b, hother j hji ▸ hj, rfl, rfl⟩
  have hplanted : ∀ x, x ≠ bp.addr → (Planted s' x ↔ Planted s x) := by
    intro x hx
    constructor
    · rintro ⟨j, b, hj, rfl, hb⟩
      have hji : j ≠ i := by
        rintro rfl
        rw [hown] at hj
        obtain rfl := Option.some.inj hj
        exact hx haddr
      exact ⟨j, b, hother j hji ▸ hj, rfl, hb⟩
    · rintro ⟨j, b, hj, rfl, hb⟩
      have hji : j ≠ i := by
        rintro rfl
        rw [hslot] at hj
        obtain rfl := Option.some.inj hj
        exact hx rfl
      exact ⟨j, b, (hother j hji).trans hj, rfl, hb⟩
  have hself : Planted s' bp.addr ↔ bp'.inserted = true := by
    constructor
    · rintro ⟨j, b, hj, hb, hins⟩
      obtain ⟨b', hj', haddr', -⟩ := haddrs j b hj
      obtain rfl := h.distinct j i b' bp hj' hslot (haddr'.trans hb)
      rw [hown] at hj
      obtain rfl := Option.some.inj hj
      exact hins
    · exact fun hins => ⟨i, bp', hown, haddr, hins⟩
  exact {
    distinct := by
      intro j k b b' hj hk heq
      obtain ⟨c, hc, hca, -⟩ := haddrs j b hj
      obtain ⟨c', hc', hca', -⟩ := haddrs k b' hk
      exact h.distinct j k c c' hc hc' (by rw [hca, hca', heq])
    planted := by
      intro x hx
      by_cases hxa : x = bp.addr
      · subst hxa
        rw [Function.update_self, if_pos (hself.1 hx)]
      · rw [Function.update_of_ne hxa, h.planted x ((hplanted x hxa).1 hx)]
    bare := by
      intro x hx
      by_cases hxa : x = bp.addr
      · subst hxa
        rw [Function.update_self, if_neg (fun hins => hx (hself.2 hins)), h.shadow i bp hslot]
      · rw [Function.update_of_ne hxa, h.bare x (fun hp => hx ((hplanted x hxa).2 hp))]
    shadow := by
      intro j b hj
      obtain ⟨c, hc, hca, hcs⟩ := haddrs j b hj
      rw [← hca, ← hcs, h.shadow j c hc]
    mapped := by
      intro j b hj
      obtain ⟨c, hc, hca, -⟩ := haddrs j b hj
      rw [← hca]
      exact h.mapped j c hc }

/-- The byte at an entry, by whether it is planted. -/
lemma Table.text_eq (h : Table code s text) (hslot : s.bps i = some bp) :
    text bp.addr = some (if bp.inserted then int3 else bp.shadow) := by
  cases hins : bp.inserted with
  | true => exact h.planted _ ⟨i, bp, hslot, rfl, hins⟩
  | false =>
    have hbare : ¬ Planted s bp.addr := by
      rintro ⟨j, b, hj, hb, hbins⟩
      obtain rfl := h.distinct j i b bp hj hslot hb
      rw [hslot] at hj
      obtain rfl := Option.some.inj hj
      rw [hins] at hbins
      cases hbins
    rw [h.bare _ hbare, h.shadow i bp hslot]
    rfl

/-- A breakpoint is planted where there is none. -/
lemma Table.insert (h : Table code s text) (bp : Bp) (s' : Session) (hfree : s.bps i = none) (hnew : bpFind s bp.addr = none)
    (hins : bp.inserted = true) (hmapped : ∀ k : Fin 8, (text (bp.addr + BitVec.ofNat 64 k)).isSome)
    (hshadow : text bp.addr = some bp.shadow) (hbps : s'.bps = Function.update s.bps i (some bp)) :
    Table code s' (Function.update text bp.addr (some int3)) := by
  have hother : ∀ j b, s.bps j = some b → s'.bps j = some b ∧ b.addr ≠ bp.addr := by
    intro j b hj
    have hji : j ≠ i := by
      rintro rfl
      rw [hfree] at hj
      cases hj
    exact ⟨by rw [hbps, Function.update_of_ne hji, hj], bpFind_eq_none.1 hnew j b hj⟩
  have hcases : ∀ j b, s'.bps j = some b → j = i ∧ b = bp ∨ s.bps j = some b := by
    intro j b hj
    by_cases hji : j = i
    · subst hji
      rw [hbps, Function.update_self] at hj
      exact .inl ⟨rfl, (Option.some.inj hj).symm⟩
    · exact .inr (by rwa [hbps, Function.update_of_ne hji] at hj)
  have hnone : ¬ Planted s bp.addr := fun ⟨j, b, hj, hb, _⟩ => (hother j b hj).2 hb
  have hcode : ∀ x, (text x).isSome → (code x).isSome := by
    intro x hx
    by_cases hp : Planted s x
    · obtain ⟨j, b, hj, rfl, -⟩ := hp
      rw [h.shadow j b hj]
      rfl
    · rwa [← h.bare x hp]
  have hplanted : ∀ x, x ≠ bp.addr → (Planted s' x ↔ Planted s x) := by
    intro x hx
    constructor
    · rintro ⟨j, b, hj, rfl, hb⟩
      rcases hcases j b hj with ⟨-, rfl⟩ | hj
      · exact absurd rfl hx
      · exact ⟨j, b, hj, rfl, hb⟩
    · rintro ⟨j, b, hj, hb⟩
      exact ⟨j, b, (hother j b hj).1, hb⟩
  have hown : Planted s' bp.addr := ⟨i, bp, by rw [hbps, Function.update_self], rfl, hins⟩
  exact {
    distinct := by
      intro j k b b' hj hk heq
      rcases hcases j b hj with ⟨rfl, rfl⟩ | hj <;> rcases hcases k b' hk with ⟨rfl, rfl⟩ | hk
      · rfl
      · exact absurd heq.symm (hother k b' hk).2
      · exact absurd heq (hother j b hj).2
      · exact h.distinct j k b b' hj hk heq
    planted := by
      intro x hx
      by_cases hxa : x = bp.addr
      · rw [hxa, Function.update_self]
      · rw [Function.update_of_ne hxa, h.planted x ((hplanted x hxa).1 hx)]
    bare := by
      intro x hx
      have hxa : x ≠ bp.addr := by
        rintro rfl
        exact hx hown
      rw [Function.update_of_ne hxa, h.bare x fun hp => hx ((hplanted x hxa).2 hp)]
    shadow := by
      intro j b hj
      rcases hcases j b hj with ⟨rfl, rfl⟩ | hj
      · rw [← h.bare _ hnone, hshadow]
      · exact h.shadow j b hj
    mapped := by
      intro j b hj k
      rcases hcases j b hj with ⟨rfl, rfl⟩ | hj
      · exact hcode _ (hmapped k)
      · exact h.mapped j b hj k }

/-- A lifted breakpoint is dropped from the table. -/
lemma Table.drop (h : Table code s text) (s' : Session) (hslot : s.bps i = some bp) (hlifted : bp.inserted = false)
    (hbps : s'.bps = Function.update s.bps i none) : Table code s' text := by
  have hsub : ∀ j b, s'.bps j = some b → j ≠ i ∧ s.bps j = some b := by
    intro j b hj
    by_cases hji : j = i
    · subst hji
      simp [hbps] at hj
    · exact ⟨hji, by simpa [hbps, hji] using hj⟩
  have hplanted : ∀ x, Planted s' x ↔ Planted s x := by
    intro x
    constructor
    · rintro ⟨j, b, hj, hb⟩
      exact ⟨j, b, (hsub j b hj).2, hb⟩
    · rintro ⟨j, b, hj, hb, hins⟩
      have hji : j ≠ i := by
        rintro rfl
        rw [hslot] at hj
        obtain rfl := Option.some.inj hj
        rw [hlifted] at hins
        cases hins
      exact ⟨j, b, by simpa [hbps, hji] using hj, hb, hins⟩
  exact {
    distinct := fun j k b b' hj hk => h.distinct j k b b' (hsub j b hj).2 (hsub k b' hk).2
    planted := fun x hx => h.planted x ((hplanted x).1 hx)
    bare := fun x hx => h.bare x fun hp => hx ((hplanted x).2 hp)
    shadow := fun j b hj => h.shadow j b (hsub j b hj).2
    mapped := fun j b hj => h.mapped j b (hsub j b hj).2 }

end Table

/-! ### A breakpoint is hit -/

section Hit

/-- The debugger once the byte under a breakpoint that was hit is restored and `rip` rewound. -/
def lifted (d : Debugger ρ) (t : Tracee ρ) (bp : Bp) : Debugger ρ where
  s := { d.s with lastSig := sigtrap, regs := t.regs, regsValid := true, pendingBp := bp.addr }
  t := { t.trapInt3 with regs := t.regs, text := Function.update t.text bp.addr (some bp.shadow) }

lemma rewind (r : Regs) :
    Function.update (Function.update r .rip (r .rip + 1)) .rip (Function.update r .rip (r .rip + 1) .rip - 1) = r := by
  rw [Function.update_idem, Function.update_self, BitVec.add_sub_cancel, Function.update_eq_self]

/-- The trap of an `int3` is not taken for that of a watch or of a single-step. -/
lemma sigtrapVerdict_int3 (halive : d.s.alive = true) (hread : ∀ i, t.debug.fired i = false) :
    sigtrapVerdict ({ s := { d.s with lastSig := sigtrap }, t := t.trapInt3 } : Debugger ρ) =
      match judgeTrap ({ s := { d.s with lastSig := sigtrap, regs := t.trapInt3.regs, regsValid := true }
                         t := t.trapInt3 } : Debugger ρ) with
      | (true, d) => (.goOn, d)
      | (false, d) => (.stop true, { d with s := { d.s with lastSig := 0 } }) := by
  have hfired : ((List.finRange 4).all fun i => !t.trapInt3.debug.fired i) = true := by
    rw [List.all_eq_true]
    intro i _
    rw [show t.trapInt3.debug = t.debug from rfl, hread i]
    rfl
  simp only [sigtrapVerdict, refreshRegs, halive, if_true, wpCheckHit, hfired]
  rfl

/-- What is made of a hit, by what the table says of the breakpoint. -/
lemma judgeTrap_int3 (htable : Table code d.s t.text) (halive : d.s.alive = true) (hslot : d.s.bps i = some bp)
    (hins : bp.inserted = true) (hrip : t.regs .rip = bp.addr) :
    judgeTrap ({ s := { d.s with lastSig := sigtrap, regs := t.trapInt3.regs, regsValid := true }
                 t := t.trapInt3 } : Debugger ρ) =
      if bp.temporary then
        (false,
          let d := ((lifted d t bp).setBp i none).print (.hitTemp bp.addr)
          { d with s := { d.s with pendingBp := 0 } })
      else hitBp (lifted d t bp) i { bp with inserted := false } := by
  have hregs : Function.update t.trapInt3.regs .rip (t.trapInt3.regs .rip - 1) = t.regs := rewind t.regs
  have hfind : (bpFind d.s (t.regs .rip)).filter (fun e => e.2.inserted) = some (i, bp) := by
    rw [hrip, htable.distinct.bpFind_eq hslot]
    simp [hins]
  have hwrite : memWriteByte
      ({ s := { d.s with lastSig := sigtrap, regs := t.regs, regsValid := true }
         t := t.trapInt3.setRegs t.regs } : Debugger ρ) bp.addr bp.shadow = some
      { s := { d.s with lastSig := sigtrap, regs := t.regs, regsValid := true }
        t := { t.trapInt3 with regs := t.regs, text := Function.update t.text bp.addr (some bp.shadow) } } := by
    have htable' : Table code ({ d.s with lastSig := sigtrap, regs := t.regs, regsValid := true } : Session)
        (t.trapInt3.setRegs t.regs).text :=
      ⟨htable.distinct, htable.planted, htable.bare, htable.shadow, htable.mapped⟩
    exact Table.memWriteByte (d := { s := { d.s with lastSig := sigtrap, regs := t.regs, regsValid := true }
                                     t := t.trapInt3.setRegs t.regs }) htable' halive hslot bp.shadow
  have hfind' : (bpFind ({ d.s with lastSig := sigtrap, regs := t.regs, regsValid := true } : Session)
      (t.regs .rip)).filter (fun e => e.2.inserted) = some (i, bp) := hfind
  unfold judgeTrap
  dsimp only
  rw [hregs, hfind']
  dsimp only
  rw [hwrite]
  dsimp only
  rw [hrip]
  rfl

end Hit

/-! ### The process is stepped off a breakpoint -/

section Off

/-- Nothing can be put back into a process that is no more. -/
lemma replant_gone (htext : d.t.text = fun _ => none) : replant d addr = d := by
  unfold replant
  cases bpFind d.s addr with
  | none => rfl
  | some e =>
    dsimp only
    split
    · rfl
    have hpeek : d.t.peek e.2.addr = none := by
      rw [Tracee.peek_eq_none]
      intro hmapped
      simpa [htext] using hmapped 0
    have hwrite : memWriteByte d e.2.addr int3 = none := by
      rw [memWriteByte, hpeek]
      split <;> rfl
    rw [hwrite]

/-- An instruction that runs without being stopped. -/
lemma resumeStepOverBp_ran {t' : Tracee ρ} (htable : Table code d.s d.t.text) (halive : d.s.alive = true)
    (hslot : d.s.bps i = some bp) (haddr : bp.addr = d.s.pendingBp) (hne : d.s.pendingBp ≠ 0)
    (hlift : bp.inserted = false) (htick : M.tick d.t = .ran t') :
    resumeStepOverBp M d = (true,
      { s := { d.s with bps := Function.update d.s.bps i (some { bp with inserted := true }), pendingBp := 0 }
        t := { t' with siCode := .trace, text := Function.update d.t.text bp.addr (some int3) } }) := by
  have htext : t'.text = d.t.text := by
    obtain ⟨-, -, -, regs, world, accesses, -, -, rfl⟩ := Machine.tick_eq_ran.1 htick
    rfl
  have hstep : M.singleStep d.t = (.stopped sigtrap none, { t' with siCode := .trace }) := by
    rw [Machine.singleStep, htick]
  have htable' : Table code d.s ({ t' with siCode := .trace } : Tracee ρ).text := by
    rw [show ({ t' with siCode := .trace } : Tracee ρ).text = d.t.text from htext]
    exact htable
  have hplant : replant ({ d with t := { t' with siCode := .trace } } : Debugger ρ) d.s.pendingBp =
      { s := { d.s with bps := Function.update d.s.bps i (some { bp with inserted := true }) }
        t := { t' with siCode := .trace, text := Function.update d.t.text bp.addr (some int3) } } := by
    have hwrite : memWriteByte ({ d with t := { t' with siCode := .trace } } : Debugger ρ) bp.addr int3 = some
        { d with t := { t' with siCode := .trace, text := Function.update t'.text bp.addr (some int3) } } :=
      Table.memWriteByte (d := { d with t := { t' with siCode := .trace } }) htable' halive hslot int3
    unfold replant
    rw [← haddr, show bpFind _ bp.addr = some (i, bp) from htable.distinct.bpFind_eq hslot]
    dsimp only
    rw [hlift, hwrite, htext]
    rfl
  unfold resumeStepOverBp
  rw [if_neg hne, hstep]
  dsimp only
  rw [hplant]

/-- The process dies under the step. -/
lemma resumeStepOverBp_gone {t' : Tracee ρ} {status : Status} (hne : d.s.pendingBp ≠ 0)
    (htick : M.tick d.t = .stop status t') (hgone : ∀ sig e, status ≠ .stopped sig e) :
    ∃ s', resumeStepOverBp M d = (false, { s := s', t := t' }) ∧ s'.alive = false ∧ s'.bps = d.s.bps ∧ s'.out = d.s.out := by
  have hstep := Machine.singleStep_of_stop htick
  have htext : t'.text = fun _ => none := by
    have hmem : status.memory d.t.text = fun _ => none := by
      cases status with
      | exited code => rfl
      | signaled sig => rfl
      | stopped sig e => exact absurd rfl (hgone sig e)
    rcases Machine.tick_eq_stop htick with ⟨u, -, rfl⟩ | ⟨u, P, -, -, hs, -⟩ | ⟨-, hs, -⟩ | ⟨-, hs, -⟩
    · exact hmem
    · exact absurd hs (hgone _ _)
    · exact absurd hs (hgone _ _)
    · exact absurd hs (hgone _ _)
  unfold resumeStepOverBp
  rw [if_neg hne, hstep]
  dsimp only
  rw [replant_gone (d := { d with t := t' }) htext]
  cases status with
  | exited code => exact ⟨_, rfl, rfl, rfl, rfl⟩
  | signaled sig => exact ⟨_, rfl, rfl, rfl, rfl⟩
  | stopped sig e => exact absurd rfl (hgone sig e)

end Off

end Two09.Debag.DynamicDb
