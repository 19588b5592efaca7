import Two09.Debag.DynamicDb
import Two09.Lib.Trace

/-!
# Watchpoints and the debug registers

The table of hardware watchpoints against the debug registers of the process, over the runs of the debugger.
-/

namespace Two09.Debag.DynamicDb

open Two09.Lib Two09.Lib.Ptrace

/-! ### The layout of `DR7` -/

/-- The bits of an enabled slot, by its two fields. -/
def slotField (i : Fin 4) (rw len : BitVec 2) : BitVec 32 :=
  (1 <<< (2 * i.val)) ||| (rw.setWidth 32 <<< (16 + 4 * i.val)) ||| (len.setWidth 32 <<< (18 + 4 * i.val))

lemma getLsbD_slotField : ∀ (i j : Fin 4) (rw len : BitVec 2),
    ((slotField i rw len).setWidth 64).getLsbD (2 * j) = decide (i = j) := by
  decide +kernel

lemma extractLsb'_rw_slotField : ∀ (i j : Fin 4) (rw len : BitVec 2),
    ((slotField i rw len).setWidth 64).extractLsb' (16 + 4 * j) 2 = if i = j then rw else 0 := by
  decide +kernel

lemma extractLsb'_len_slotField : ∀ (i j : Fin 4) (rw len : BitVec 2),
    ((slotField i rw len).setWidth 64).extractLsb' (18 + 4 * j) 2 = if i = j then len else 0 := by
  decide +kernel

/-- A watch that `wp_validate` lets through. -/
def Valid (w : Watch) : Prop := wpValidate w.len w.rw = true

/-- Its fields. -/
lemma Valid.slotBits_eq {w : Watch} (h : Valid w) :
    ∃ rw len : BitVec 2, (∀ i, slotBits i w = slotField i rw len) ∧ w.len = lenOf len ∧ w.rw = rw.toNat := by
  simp only [Valid, wpValidate, Bool.and_eq_true, Bool.or_eq_true, decide_eq_true_eq] at h
  obtain ⟨⟨hlen, hrw⟩, -⟩ := h
  obtain ⟨rw, hrw, hbits⟩ : ∃ rw : BitVec 2, w.rw = rw.toNat ∧ BitVec.ofInt 32 w.rw &&& 3 = rw.setWidth 32 := by
    rcases hrw with (h | h) | h <;> rw [h]
    exacts [⟨0, rfl, rfl⟩, ⟨1, rfl, rfl⟩, ⟨3, rfl, rfl⟩]
  obtain ⟨len, hlen, hcode⟩ : ∃ len : BitVec 2, w.len = lenOf len ∧
      (if w.len = 1 then 0 else if w.len = 2 then 1 else if w.len = 8 then 2 else if w.len = 4 then 3 else 0 :
        BitVec 32) = len.setWidth 32 := by
    rcases hlen with ((h | h) | h) | h <;> rw [h]
    exacts [⟨0, rfl, rfl⟩, ⟨1, rfl, rfl⟩, ⟨3, rfl, rfl⟩, ⟨2, rfl, rfl⟩]
  refine ⟨rw, len, fun i => ?_, hlen, hrw⟩
  dsimp only [slotBits, slotField]
  rw [hbits, hcode]

/-- The bits of a slot, of none if it is free. -/
def bitsOf (s : Session) (i : Fin 4) : BitVec 32 := ((s.hwWps i).map (slotBits i)).getD 0

lemma computeDr7_eq (s : Session) :
    computeDr7 s = (1 <<< 8 ||| 1 <<< 9) ||| bitsOf s 0 ||| bitsOf s 1 ||| bitsOf s 2 ||| bitsOf s 3 := rfl

/-- A field read from the bits of the slots is that of its own slot. -/
lemma field_computeDr7 {α : Type} (s : Session) (read : BitVec 64 → α) (op : α → α → α) (zero : α)
    (hor : ∀ x y, read (x ||| y) = op (read x) (read y)) (hleft : ∀ a, op zero a = a) (hright : ∀ a, op a zero = a)
    (hbase : read ((1 <<< 8 ||| 1 <<< 9 : BitVec 32).setWidth 64) = zero) (i : Fin 4)
    (hother : ∀ j ≠ i, read ((bitsOf s j).setWidth 64) = zero) :
    read ((computeDr7 s).setWidth 64) = read ((bitsOf s i).setWidth 64) := by
  rw [computeDr7_eq]
  simp only [BitVec.setWidth_or, hor] at hbase ⊢
  rw [hbase, hleft]
  fin_cases i
  · simp [hother 1 (by decide), hother 2 (by decide), hother 3 (by decide), hright]
  · simp [hother 0 (by decide), hother 2 (by decide), hother 3 (by decide), hleft, hright]
  · simp [hother 0 (by decide), hother 1 (by decide), hother 3 (by decide), hleft, hright]
  · simp [hother 0 (by decide), hother 1 (by decide), hother 2 (by decide), hleft]

/-- **Decoding what `wp_apply` writes** gives the table back. -/
lemma watch_computeDr7 (s : Session) (hvalid : ∀ i, ∀ w ∈ s.hwWps i, Valid w) (fired : Fin 4 → Bool) (i : Fin 4) :
    (DebugRegs.mk (fun i => ((s.hwWps i).map Watch.addr).getD 0) fired ((computeDr7 s).setWidth 64)).watch i =
      s.hwWps i := by
  have hbits : ∀ j, (s.hwWps j = none ∧ bitsOf s j = 0) ∨
      ∃ w rw len, s.hwWps j = some w ∧ bitsOf s j = slotField j rw len ∧ w.len = lenOf len ∧ w.rw = rw.toNat := by
    intro j
    cases hj : s.hwWps j with
    | none => exact .inl ⟨rfl, by simp [bitsOf, hj]⟩
    | some w =>
      obtain ⟨rw, len, hslot, hlen, hrw⟩ := (hvalid j w hj).slotBits_eq
      exact .inr ⟨w, rw, len, rfl, by simp [bitsOf, hj, hslot], hlen, hrw⟩
  have henable : ((computeDr7 s).setWidth 64).getLsbD (2 * i) = ((bitsOf s i).setWidth 64).getLsbD (2 * i) := by
    refine field_computeDr7 s (fun x => x.getLsbD (2 * i)) (· || ·) false (fun x y => BitVec.getLsbD_or)
      Bool.false_or Bool.or_false (by revert i; decide) i fun j hj => ?_
    rcases hbits j with ⟨-, h⟩ | ⟨w, rw, len, -, h, -⟩
    · simp [h]
    · rw [h, getLsbD_slotField, decide_eq_false hj]
  have hfield : ∀ k, k = 16 ∨ k = 18 → ((computeDr7 s).setWidth 64).extractLsb' (k + 4 * i) 2 =
      ((bitsOf s i).setWidth 64).extractLsb' (k + 4 * i) 2 := by
    intro k hk
    refine field_computeDr7 s (fun x => x.extractLsb' (k + 4 * i) 2) (· ||| ·) 0 (fun x y => BitVec.extractLsb'_or)
      (fun a => BitVec.zero_or) (fun a => BitVec.or_zero) ?_ i fun j hj => ?_
    · clear henable
      rcases hk with rfl | rfl <;> revert i <;> decide
    rcases hbits j with ⟨-, h⟩ | ⟨w, rw, len, -, h, -⟩
    · simp [h]
    · rcases hk with rfl | rfl
      · rw [h, extractLsb'_rw_slotField, if_neg hj]
      · rw [h, extractLsb'_len_slotField, if_neg hj]
  unfold DebugRegs.watch
  dsimp only
  rw [henable, hfield 16 (.inl rfl), hfield 18 (.inr rfl)]
  rcases hbits i with ⟨hi, h⟩ | ⟨w, rw, len, hi, h, hlen, hrw⟩
  · simp [h, hi]
  · rw [h, getLsbD_slotField, extractLsb'_rw_slotField, extractLsb'_len_slotField, hi]
    simp only [decide_true, if_true, Option.map_some, Option.getD_some]
    rw [← hlen, ← hrw]

variable {ρ : Type} {M : Machine ρ} {d d' : Debugger ρ} {s : Session} {t : Tracee ρ}

/-! ### Writing the registers -/

/-- What `wp_apply` writes to an address register. -/
def slotAddr (s : Session) (i : Fin 4) : BitVec 64 := ((s.hwWps i).map Watch.addr).getD 0

/-- Writes that are not refused. -/
lemma applyAddrs_of_notMem {is : List (Fin 4)} (h : true ∉ t.refuse.take is.length) :
    applyAddrs s is t =
      (true, { t with
        debug := { t.debug with addr := fun i => if i ∈ is then slotAddr s i else t.debug.addr i }
        refuse := t.refuse.drop is.length }) := by
  induction is generalizing t with
  | nil => simp [applyAddrs]
  | cons i is ih =>
    have hupdate : (fun j => if j ∈ is then slotAddr s j
        else Function.update t.debug.addr i (slotAddr s i) j) =
          fun j => if j ∈ i :: is then slotAddr s j else t.debug.addr j := by
      funext j
      by_cases hj : j = i
      · subst hj
        simp
      · simp [hj]
    cases hrefuse : t.refuse with
    | nil =>
      have hpoke : t.pokeAddr i (slotAddr s i) = (true, { t with
          debug := { t.debug with addr := Function.update t.debug.addr i (slotAddr s i) } }) := by
        rw [Tracee.pokeAddr, Tracee.write, hrefuse]
      rw [applyAddrs, ← slotAddr, hpoke]
      dsimp only
      rw [ih (by simp [hrefuse])]
      simp only [hupdate, hrefuse, List.drop_nil]
    | cons b rest =>
      rw [hrefuse, List.length_cons, List.take_succ_cons, List.mem_cons, not_or] at h
      obtain rfl : b = false := by simpa using Ne.symm h.1
      have hpoke : t.pokeAddr i (slotAddr s i) = (true, { t with
          debug := { t.debug with addr := Function.update t.debug.addr i (slotAddr s i) }, refuse := rest }) := by
        rw [Tracee.pokeAddr, Tracee.write, hrefuse]
      rw [applyAddrs, ← slotAddr, hpoke]
      dsimp only
      rw [ih h.2]
      simp only [hupdate, List.length_cons, List.drop_succ_cons]

/-- A write that is refused or changes nothing. -/
lemma pokeAddr_same {i : Fin 4} {v : BitVec 64} (h : v = t.debug.addr i) :
    ∃ ok rest, t.pokeAddr i v = (ok, { t with refuse := rest }) ∧
      (true ∈ t.refuse.take 1 → ok = false) ∧ (ok = true → t.refuse.tail = rest) := by
  have hsame : Function.update t.debug.addr i v = t.debug.addr := by rw [h, Function.update_eq_self]
  unfold Tracee.pokeAddr Tracee.write
  match hrefuse : t.refuse with
  | [] => exact ⟨true, [], by simp [hsame, ← hrefuse], by simp, by simp⟩
  | false :: rest => exact ⟨true, rest, by simp [hsame], by simp, by simp⟩
  | true :: rest => exact ⟨false, rest, rfl, by simp, by simp⟩

/-- Writes that change nothing, up to a refusal or to the end. -/
lemma applyAddrs_same {is : List (Fin 4)} (h : ∀ i ∈ is, slotAddr s i = t.debug.addr i) :
    ∃ ok rest, applyAddrs s is t = (ok, { t with refuse := rest }) := by
  induction is generalizing t with
  | nil => exact ⟨true, t.refuse, rfl⟩
  | cons i is ih =>
    obtain ⟨ok, rest, hpoke, -⟩ := pokeAddr_same (h i List.mem_cons_self)
    rw [applyAddrs, ← slotAddr, hpoke]
    cases ok with
    | false => exact ⟨false, rest, rfl⟩
    | true => exact ih fun j hj => h j (List.mem_cons_of_mem _ hj)

/-- Writes that are refused before any of them changes something. -/
lemma applyAddrs_refused {before after : List (Fin 4)} {i : Fin 4}
    (h : ∀ j ∈ before, slotAddr s j = t.debug.addr j) (hrefuse : true ∈ t.refuse.take (before.length + 1)) :
    ∃ rest, applyAddrs s (before ++ i :: after) t = (false, { t with refuse := rest }) := by
  induction before generalizing t with
  | nil =>
    have hpoke : ∃ rest, t.pokeAddr i (slotAddr s i) = (false, { t with refuse := rest }) := by
      unfold Tracee.pokeAddr Tracee.write
      match hr : t.refuse with
      | [] => simp [hr] at hrefuse
      | false :: rest => simp [hr] at hrefuse
      | true :: rest => exact ⟨rest, rfl⟩
    obtain ⟨rest, hpoke⟩ := hpoke
    rw [List.nil_append, applyAddrs, ← slotAddr, hpoke]
    exact ⟨rest, rfl⟩
  | cons j before ih =>
    obtain ⟨ok, rest, hpoke, -, hrest⟩ := pokeAddr_same (h j List.mem_cons_self)
    rw [List.cons_append, applyAddrs, ← slotAddr, hpoke]
    cases ok with
    | false => exact ⟨rest, rfl⟩
    | true =>
      dsimp only
      refine ih (t := { t with refuse := rest }) (fun k hk => h k (List.mem_cons_of_mem _ hk)) ?_
      obtain rfl := hrest rfl
      match hr : t.refuse with
      | [] => simp [hr] at hrefuse
      | false :: rest => simpa [hr] using hrefuse
      | true :: rest =>
        simp only [Tracee.pokeAddr, Tracee.write, hr] at hpoke
        cases (Prod.mk.inj hpoke).1

/-- The registers that `wp_apply` writes when no write is refused. -/
lemma wpApply_of_notMem (halive : d.s.alive = true) (h : true ∉ d.t.refuse.take 5) :
    wpApply d = (true, { d with t := { d.t with
      debug := ⟨slotAddr d.s, d.t.debug.fired, (computeDr7 d.s).setWidth 64⟩
      refuse := d.t.refuse.drop 5 } }) := by
  have hfour : true ∉ d.t.refuse.take 4 := fun hmem => h (List.take_subset_take_left _ (by decide) hmem)
  have haddr : (fun i => if i ∈ List.finRange 4 then slotAddr d.s i else d.t.debug.addr i) = slotAddr d.s := by
    funext i
    simp
  have hlast : ∀ rest, d.t.refuse.drop 4 = rest → rest = [] ∨ ∃ rest', rest = false :: rest' := by
    rintro rest rfl
    cases hrest : d.t.refuse.drop 4 with
    | nil => exact .inl rfl
    | cons b rest =>
      right
      refine ⟨rest, ?_⟩
      have hmem : b ∈ d.t.refuse.take 5 := by
        have hb : d.t.refuse[4]? = some b := by
          have := congrArg List.head? hrest
          simpa using this
        rw [List.mem_iff_getElem?]
        exact ⟨4, by rw [List.getElem?_take, if_pos (by decide), hb]⟩
      cases b with
      | false => rfl
      | true => exact absurd hmem h
  rw [wpApply, if_pos halive, applyAddrs_of_notMem (by simpa using hfour)]
  dsimp only
  rw [haddr, List.length_finRange]
  unfold Tracee.pokeControl Tracee.write
  dsimp only
  rcases hlast _ rfl with hnil | ⟨rest, hcons⟩
  · rw [hnil]
    have hdrop : d.t.refuse.drop 5 = [] := by
      rw [← List.drop_drop (i := 1) (j := 4), hnil]
      rfl
    simp [hdrop]
  · rw [hcons]
    have hdrop : d.t.refuse.drop 5 = rest := by
      rw [← List.drop_drop (i := 1) (j := 4), hcons]
      rfl
    simp [hdrop]

/-! ### The table against the registers -/

/-- The slot that a report is about. -/
def Report.slot? : Report → Option (Fin 4)
  | .watch i => some i
  | _ => none

/-- The triggers that have been reported. -/
def reported (d : Debugger ρ) : List (Fin 4) := d.s.out.filterMap Report.slot?

/-- Decoding the registers gives the enabled entries of the table. -/
def Agrees (d : Debugger ρ) : Prop := ∀ i, d.t.debug.watch i = d.s.hwWps i

/-- Every trigger has been reported, once. -/
def Reported (d : Debugger ρ) : Prop := reported d = d.t.triggers

/-- Table and registers in step, with nothing left to read in `DR6`. -/
structure InStep (d : Debugger ρ) : Prop where
  agrees : Agrees d
  reported : Reported d
  free : ∀ i, d.s.hwWps i = none → d.t.debug.addr i = 0
  valid : ∀ i, ∀ w ∈ d.s.hwWps i, Valid w
  read : ∀ i, d.t.debug.fired i = false

/-- The parts of the debugger that are about watchpoints, and whether the process is there. -/
def view (d : Debugger ρ) : Bool × (Fin 4 → Option Watch) × DebugRegs × List (Fin 4) × List (Fin 4) :=
  (d.s.alive, d.s.hwWps, d.t.debug, d.t.triggers, reported d)

lemma InStep.of_view (h : InStep d) (hview : (view d').2 = (view d).2) : InStep d' := by
  simp only [view, Prod.mk.injEq] at hview
  obtain ⟨htable, hdebug, htriggers, hreported⟩ := hview
  exact {
    agrees := fun i => by rw [hdebug, htable, h.agrees i]
    reported := by rw [Reported, hreported, htriggers, h.reported]
    free := fun i hi => by rw [hdebug, h.free i (htable ▸ hi)]
    valid := fun i w hw => h.valid i w (htable ▸ hw)
    read := fun i => by rw [hdebug, h.read i] }

lemma alive_of_view (h : view d' = view d) : d'.s.alive = d.s.alive := congrArg Prod.fst h

/-! ### What leaves them alone -/

section Frame

variable {addr : BitVec 64} {b : UInt8} {i : Fin 64} {r : Report}

lemma view_print (hr : r.slot? = none) : view (d.print r) = view d := by
  simp [view, reported, Debugger.print, hr]

lemma view_setBp (bp : Option Bp) : view (d.setBp i bp) = view d := rfl

lemma view_ite {c : Prop} [Decidable c] {d₁ d₂ : Debugger ρ} (h₁ : view d₁ = view d) (h₂ : view d₂ = view d) :
    view (if c then d₁ else d₂) = view d := by
  split
  · exact h₁
  · exact h₂

lemma view_refreshRegs : view (refreshRegs d).2 = view d := by
  unfold refreshRegs
  split <;> rfl

lemma view_memWriteByte (h : memWriteByte d addr b = some d') : view d' = view d := by
  unfold memWriteByte at h
  split at h
  · split at h
    · cases h
    next word _ =>
      obtain ⟨t, ht, rfl⟩ := Option.map_eq_some_iff.1 h
      unfold Tracee.poke at ht
      split at ht
      · obtain rfl := Option.some.inj ht
        rfl
      · cases ht
  · cases h

lemma view_memWriteByte_getD : view ((memWriteByte d addr b).getD d) = view d := by
  cases h : memWriteByte d addr b with
  | none => rfl
  | some d' => exact view_memWriteByte h

lemma view_bpInsert (temporary : Bool) : view (bpInsert d addr temporary).2 = view d := by
  unfold bpInsert
  split
  · rfl
  cases bpAlloc d.s with
  | none => rfl
  | some i =>
    dsimp only
    cases d.t.peek addr with
    | none => rfl
    | some word =>
      dsimp only
      cases h : memWriteByte d addr int3 with
      | none => rfl
      | some d' => exact (view_setBp _).trans (view_memWriteByte h)

lemma view_bpRemove : view (bpRemove d addr).2 = view d := by
  unfold bpRemove
  cases bpFind d.s addr with
  | none => rfl
  | some e =>
    have hbyte : view (if e.2.inserted then (memWriteByte d e.2.addr e.2.shadow).getD d else d) = view d :=
      view_ite view_memWriteByte_getD rfl
    refine (view_setBp _).trans (view_ite ?_ ?_)
    · exact hbyte
    · exact hbyte

lemma view_onBp (f : Bp → Bp) : view (onBp d addr f) = view d := by
  unfold onBp
  cases bpFind d.s addr <;> rfl

lemma view_replant (d : Debugger ρ) (addr : BitVec 64) : view (replant d addr) = view d := by
  unfold replant
  cases bpFind d.s addr with
  | none => rfl
  | some e =>
    dsimp only
    split
    · rfl
    cases h : memWriteByte d e.2.addr int3 with
    | none => rfl
    | some d' => exact (view_setBp _).trans (view_memWriteByte h)

lemma view_wpSetRf : view (wpSetRf d).2 = view d := by
  unfold wpSetRf
  cases d.s.pendingHwExec with
  | none => rfl
  | some i =>
    have hrefresh := view_refreshRegs (d := d)
    dsimp only
    cases h : refreshRegs d with
    | mk ok d' =>
      rw [h] at hrefresh
      cases ok <;> exact hrefresh

lemma wpSetRf_lastSig (n : ℕ) :
    (wpSetRf { d with s := { d.s with lastSig := n } }).2.t = (wpSetRf d).2.t ∧
      (wpSetRf { d with s := { d.s with lastSig := n } }).2.s.pendingBp = d.s.pendingBp := by
  unfold wpSetRf refreshRegs
  cases d.s.pendingHwExec with
  | none => exact ⟨rfl, rfl⟩
  | some i =>
    dsimp only
    cases d.s.alive <;> exact ⟨rfl, rfl⟩

lemma view_cont (M : Machine ρ) (sig : ℕ) : view { d with t := M.cont sig d.t } = view d := by
  unfold Machine.cont
  split <;> rfl

lemma pendingBp_wpSetRf : (wpSetRf d).2.s.pendingBp = d.s.pendingBp := (wpSetRf_lastSig d.s.lastSig).2

lemma view_hitBp (bp : Bp) : view (hitBp d i bp).2 = view d := by
  unfold hitBp
  dsimp only
  split
  · rfl
  split
  · exact view_print rfl
  · exact view_print rfl

lemma view_judgeTrap : view (judgeTrap d).2 = view d := by
  unfold judgeTrap
  dsimp only
  generalize hrewound : (Debugger.mk { d.s with regs := _ } (d.t.setRegs _)) = d₁
  have hview : view d₁ = view d := by
    rw [← hrewound]
    rfl
  rw [← hview]
  split
  · exact view_print rfl
  next i bp _ =>
    cases hwrite : memWriteByte d₁ bp.addr bp.shadow with
    | none =>
      dsimp only
      split
      · exact view_print (d := d₁.setBp i none) (r := .hitTemp _) rfl
      · exact view_hitBp _
    | some d₂ =>
      rw [← view_memWriteByte hwrite]
      dsimp only
      split
      · exact view_print (d := d₂.setBp i none) (r := .hitTemp _) rfl
      · exact view_hitBp _

lemma view_finish (after : After) (ok : Bool) : view (finish after ok d) = view d := by
  cases after with
  | dc => rfl
  | ds =>
    unfold finish
    dsimp only
    split
    · exact view_refreshRegs
    · rfl
  | dso nextPc =>
    unfold finish
    dsimp only
    rw [view_refreshRegs]
    split
    · rfl
    split
    · rw [view_print rfl, view_refreshRegs]
    · rw [view_setBp]
      split
      · exact view_memWriteByte_getD
      · rfl

/-- The debugger on its way. -/
def Way.debugger : Way ρ → Debugger ρ
  | .fail d => d
  | .off d => d
  | .once d => d
  | .toNext _ d => d

lemma view_dsoWay : view (dsoWay d).debugger = view d := by
  have hrf := view_wpSetRf (d := d)
  unfold dsoWay
  generalize wpSetRf d = r at hrf ⊢
  obtain ⟨ok, d₁⟩ := r
  cases ok with
  | false => exact hrf
  | true =>
    dsimp only
    generalize hfresh : (if d₁.s.regsValid = true then d₁ else (refreshRegs d₁).2) = d₂
    have hd₂ : view d₂ = view d := by
      rw [← hfresh]
      exact (view_ite rfl view_refreshRegs).trans hrf
    cases insnAt d₂ with
    | none => exact hd₂
    | some insn =>
      dsimp only
      split
      · exact hd₂
      split
      · exact hd₂
      generalize d₂.s.regs .rip + BitVec.ofInt 64 (callInsnLength insn) = nextPc
      have hinsert : view (bpInsert d₂ nextPc true).2 = view d₂ := view_bpInsert true
      generalize bpInsert d₂ nextPc true = r at hinsert ⊢
      obtain ⟨ok, d₃⟩ := r
      cases ok <;> exact hinsert.trans hd₂

end Frame

/-! ### Stops -/

/-- A step of the process leaves every watch: it does not start another program where one is set. -/
def Keeps (M : Machine ρ) (t : Tracee ρ) : Prop := ∀ i, (M.singleStep t).2.debug.watch i = t.debug.watch i

/-- A step of the process triggers no watch. -/
def Silent (M : Machine ρ) (t : Tracee ρ) : Prop := (M.singleStep t).2.triggers = t.triggers

section Stops

/-- A step that nobody looks at. -/
lemma InStep.step (h : InStep d) (hkeeps : Keeps M d.t) (hsilent : Silent M d.t) :
    InStep { d with t := (M.singleStep d.t).2 } := by
  rcases M.singleStep_debug d.t with ⟨hdebug, htriggers⟩ | ⟨P, t', hstep, hne, -, htriggers⟩ |
    ⟨t', hstep, hdebug, htriggers⟩
  · refine h.of_view ?_
    simp only [view, hdebug, htriggers]
    rfl
  · rw [Silent, hstep, htriggers] at hsilent
    exact absurd (by simpa using hsilent) hne
  · rw [Keeps, hstep] at hkeeps
    rw [hstep]
    have hnone : ∀ i, d.s.hwWps i = none := by
      intro i
      rw [← h.agrees i, ← hkeeps i]
      show t'.debug.watch i = none
      rw [hdebug, DebugRegs.watch_clear]
    exact {
      agrees := fun i => (hkeeps i).trans (h.agrees i)
      reported := h.reported.trans htriggers.symm
      free := fun i _ => by
        show t'.debug.addr i = 0
        rw [hdebug]
        rfl
      valid := h.valid
      read := fun i => by
        show t'.debug.fired i = false
        rw [hdebug]
        rfl }

lemma inStep_resumeStepOverBp (h : InStep d)
    (hoff : d.s.pendingBp ≠ 0 → Keeps M d.t ∧ Silent M d.t) :
    InStep (resumeStepOverBp M d).2 ∧
      ((resumeStepOverBp M d).1 = true → (resumeStepOverBp M d).2.s.alive = d.s.alive) := by
  unfold resumeStepOverBp
  split
  · exact ⟨h, fun _ => rfl⟩
  next hpending =>
    obtain ⟨hkeeps, hsilent⟩ := hoff hpending
    have hstep := h.step hkeeps hsilent
    have hview := view_replant { d with t := (M.singleStep d.t).2 } d.s.pendingBp
    have hrest := congrArg Prod.snd hview
    have halive : (replant { d with t := (M.singleStep d.t).2 } d.s.pendingBp).s.alive = d.s.alive :=
      (alive_of_view hview).trans rfl
    dsimp only
    cases (M.singleStep d.t).1 with
    | exited code => exact ⟨hstep.of_view hrest, fun hok => by cases hok⟩
    | signaled sig => exact ⟨hstep.of_view hrest, fun hok => by cases hok⟩
    | stopped sig event => exact ⟨hstep.of_view hrest, fun _ => halive⟩

lemma inStep_bpAutoContinue (h : InStep d) (hoff : ∀ t ∈ steppedOff d, Keeps M t ∧ Silent M t) :
    InStep (bpAutoContinue M d).2 ∧
      ((bpAutoContinue M d).1 = .wait → (bpAutoContinue M d).2.s.alive = d.s.alive) := by
  have hview := view_wpSetRf (d := { d with s := { d.s with lastSig := 0 } })
  obtain ⟨ht, hpending⟩ := wpSetRf_lastSig (d := d) 0
  unfold bpAutoContinue
  generalize wpSetRf { d with s := { d.s with lastSig := 0 } } = r at hview ht hpending ⊢
  obtain ⟨ok, d₁⟩ := r
  have hd₁ : InStep d₁ := h.of_view (congrArg Prod.snd hview)
  have halive : d₁.s.alive = d.s.alive := alive_of_view hview
  cases ok with
  | false => exact ⟨hd₁, fun hwait => by cases hwait⟩
  | true =>
    have hres := inStep_resumeStepOverBp (M := M) hd₁ fun hne => by
      refine hoff d₁.t ?_
      rw [steppedOff, if_neg (fun h0 => hne (hpending.trans h0)), ← ht]
      rfl
    dsimp only
    generalize resumeStepOverBp M d₁ = r at hres ⊢
    obtain ⟨ok, d₂⟩ := r
    cases ok with
    | false => exact ⟨hres.1, fun hwait => by cases hwait⟩
    | true => exact ⟨hres.1, fun _ => (hres.2 rfl).trans halive⟩

/-- A trap that is not for a watch. -/
lemma view_sigtrapVerdict (h : InStep d) : view (sigtrapVerdict d).2 = view d := by
  have hrefresh := view_refreshRegs (d := d)
  unfold sigtrapVerdict
  generalize refreshRegs d = r at hrefresh ⊢
  obtain ⟨ok, d₁⟩ := r
  cases ok with
  | false => exact hrefresh
  | true =>
    have hin : InStep d₁ := h.of_view (congrArg Prod.snd hrefresh)
    have hread := hin.read
    have hcheck : wpCheckHit d₁ = (false, d₁) := by
      rw [wpCheckHit, if_pos (by simp [hread])]
    have hjudge := view_judgeTrap (d := d₁)
    dsimp only
    rw [hcheck]
    dsimp only
    split
    · exact hrefresh
    · generalize judgeTrap d₁ = r at hjudge ⊢
      obtain ⟨go, d₂⟩ := r
      cases go with
      | true => exact hjudge.trans hrefresh
      | false => exact hjudge.trans hrefresh

/-- A stop that is not for a watch. -/
lemma inStep_handleStop_of (h : InStep d) (status : Status)
    (hoff : ∀ t ∈ steppedOffAtStop d status, Keeps M t ∧ Silent M t) :
    InStep (handleStop M d status).2 ∧
      ((handleStop M d status).1 = .wait → (handleStop M d status).2.s.alive = d.s.alive) := by
  unfold handleStop
  match status with
  | .exited code =>
    refine ⟨h.of_view ?_, fun hwait => by cases hwait⟩
    rw [view_print rfl]
    rfl
  | .signaled sig =>
    refine ⟨h.of_view ?_, fun hwait => by cases hwait⟩
    rw [view_print rfl]
    rfl
  | .stopped _ (some e) =>
    refine ⟨h.of_view ?_, fun _ => rfl⟩
    rw [view_print rfl]
    rfl
  | .stopped sig none =>
    have hsig : InStep ({ d with s := { d.s with lastSig := sig } } : Debugger ρ) := h.of_view rfl
    dsimp only
    split
    next htrap =>
      subst htrap
      have hview := view_sigtrapVerdict hsig
      rw [steppedOffAtStop, if_pos rfl] at hoff
      unfold handleSigtrap
      generalize sigtrapVerdict { d with s := { d.s with lastSig := sigtrap } } = r at hview hoff ⊢
      obtain ⟨verdict, d₁⟩ := r
      cases verdict with
      | stop ok => exact ⟨hsig.of_view (congrArg Prod.snd hview), fun hwait => by cases hwait⟩
      | goOn =>
        have hin : InStep d₁ := hsig.of_view (congrArg Prod.snd hview)
        obtain ⟨hgo, halive⟩ := inStep_bpAutoContinue hin hoff
        exact ⟨hgo, fun hwait => (halive hwait).trans (alive_of_view hview)⟩
    next =>
      split
      · refine ⟨hsig.of_view ?_, fun hwait => by cases hwait⟩
        rw [view_print rfl, view_refreshRegs]
      generalize hprint : (if d.s.sigPrint sig = true then
        Debugger.print { d with s := { d.s with lastSig := sig } } (.received sig)
        else { d with s := { d.s with lastSig := sig } }) = d₁
      have hd₁ : view d₁ = view d := by
        rw [← hprint]
        exact view_ite (view_print rfl) rfl
      split
      · refine ⟨h.of_view ?_, fun hwait => by cases hwait⟩
        rw [view_print rfl, view_refreshRegs, hd₁]
      · refine ⟨h.of_view ?_, fun _ => alive_of_view ?_⟩
        · rw [view_cont, hd₁]
        · rw [view_cont, hd₁]

/-- The slots that `wp_check_hit` reports are those that trap. -/
lemma filter_fire_slots (h : InStep d) (P : Watch → Bool) :
    ((List.finRange 4).filter fun i =>
      (d.t.debug.fire (d.t.debug.slots P)).fired i && (d.s.hwWps i).isSome) = d.t.debug.slots P := by
  conv_rhs => rw [DebugRegs.slots]
  refine List.filter_congr fun i _ => ?_
  rw [Bool.eq_iff_iff]
  simp only [DebugRegs.fire, h.read i, Bool.false_or, Bool.and_eq_true, decide_eq_true_eq]
  constructor
  · rintro ⟨hmem, -⟩
    exact (List.mem_filter.1 hmem).2
  · intro hany
    have hmem : i ∈ d.t.debug.slots P := List.mem_filter.2 ⟨List.mem_finRange i, hany⟩
    exact ⟨hmem, h.agrees i ▸ DebugRegs.isSome_watch_of_mem_slots hmem⟩

/-- What `handle_sigtrap` makes of a stop for a watch. -/
lemma sigtrapVerdict_fire (h : InStep d) (halive : d.s.alive = true) {P : Watch → Bool} {t' : Tracee ρ}
    (hne : d.t.debug.slots P ≠ []) (hdebug : t'.debug = d.t.debug.fire (d.t.debug.slots P)) :
    sigtrapVerdict ({ s := { d.s with lastSig := sigtrap }, t := t' } : Debugger ρ) =
      (.stop true,
        { s := { d.s with
            lastSig := 0
            regs := t'.regs
            regsValid := true
            out := d.s.out ++ (d.t.debug.slots P).map .watch
            pendingHwExec := (((d.t.debug.slots P).filter fun i =>
              (d.s.hwWps i).any fun w => w.rw = 0).getLast?).or d.s.pendingHwExec }
          t := t'.clearFired.2 }) := by
  have hsome : ¬ ((List.finRange 4).all fun i => !t'.debug.fired i) = true := by
    obtain ⟨i, hi⟩ := List.exists_mem_of_ne_nil _ hne
    rw [List.all_eq_true]
    intro hall
    simpa [hdebug, DebugRegs.fire, hi] using hall i (List.mem_finRange i)
  have hslots := filter_fire_slots h P
  rw [← hdebug] at hslots
  have hempty : (d.t.debug.slots P).isEmpty = false := by
    rw [List.isEmpty_eq_false_iff]
    exact hne
  simp only [sigtrapVerdict, refreshRegs, halive, if_true, wpCheckHit, if_neg hsome, hslots, hempty, Bool.not_false]

/-- A stop for a watch reports it. -/
lemma inStep_handleStop_fire (h : InStep d) (halive : d.s.alive = true) {P : Watch → Bool} {t' : Tracee ρ}
    (hne : d.t.debug.slots P ≠ []) (hdebug : t'.debug = d.t.debug.fire (d.t.debug.slots P))
    (htriggers : t'.triggers = d.t.triggers ++ d.t.debug.slots P) (hrefuse : t'.refuse.head? ≠ some true) :
    (handleStop M { d with t := t' } (.stopped sigtrap none)).1 = .ret true ∧
      InStep (handleStop M { d with t := t' } (.stopped sigtrap none)).2 := by
  obtain ⟨rest, hclear⟩ : ∃ rest, t'.clearFired =
      (true, { t' with debug := { t'.debug with fired := fun _ => false }, refuse := rest }) := by
    unfold Tracee.clearFired Tracee.write
    match hr : t'.refuse with
    | [] => exact ⟨[], by simp [hr]⟩
    | false :: rest => exact ⟨rest, rfl⟩
    | true :: rest => simp [hr] at hrefuse
  have hdone : t'.debug.addr = d.t.debug.addr ∧ t'.debug.control = d.t.debug.control := by
    rw [hdebug]
    exact ⟨rfl, rfl⟩
  rw [handleStop, if_pos rfl, handleSigtrap, sigtrapVerdict_fire h halive hne hdebug, hclear]
  refine ⟨rfl, ?_⟩
  exact {
    agrees := fun i => by
      rw [← h.agrees i]
      simp only [DebugRegs.watch, hdone.1, hdone.2]
    reported := by
      have hslots : ((d.t.debug.slots P).map Report.watch).filterMap Report.slot? = d.t.debug.slots P := by
        rw [List.filterMap_map]
        exact List.filterMap_some
      have hrep := h.reported
      rw [Reported, reported] at hrep ⊢
      rw [List.filterMap_append, hslots, hrep]
      exact htriggers.symm
    free := fun i hi => by
      show t'.debug.addr i = 0
      rw [hdone.1, h.free i hi]
    valid := h.valid
    read := fun i => rfl }

/-- **A stop that is looked at** leaves table and registers in step, and every trigger reported. -/
lemma inStep_handleStop (h : InStep d) (halive : d.s.alive = true) (hkeeps : Keeps M d.t)
    (hrefuse : ¬ Silent M d.t → d.t.refuse.head? ≠ some true)
    (hoff : ∀ t ∈ steppedOffAtStop { d with t := (M.singleStep d.t).2 } (M.singleStep d.t).1,
      Keeps M t ∧ Silent M t) :
    InStep (handleStop M { d with t := (M.singleStep d.t).2 } (M.singleStep d.t).1).2 ∧
      ((handleStop M { d with t := (M.singleStep d.t).2 } (M.singleStep d.t).1).1 = .wait →
        (handleStop M { d with t := (M.singleStep d.t).2 } (M.singleStep d.t).1).2.s.alive = true) := by
  by_cases hsilent : Silent M d.t
  · have hres := inStep_handleStop_of (h.step hkeeps hsilent) _ hoff
    exact ⟨hres.1, fun hwait => (hres.2 hwait).trans halive⟩
  · rcases M.singleStep_debug d.t with ⟨-, htriggers⟩ | ⟨P, t', hstep, hne, hdebug, htriggers⟩ |
      ⟨t', hstep, -, htriggers⟩
    · exact absurd htriggers hsilent
    · have hread : t'.refuse.head? ≠ some true := by
        have := M.singleStep_refuse d.t
        rw [hstep] at this
        rw [this]
        exact hrefuse hsilent
      rw [hstep]
      obtain ⟨hret, hres⟩ := inStep_handleStop_fire (M := M) h halive hne hdebug htriggers hread
      exact ⟨hres, fun hwait => by rw [hret] at hwait; cases hwait⟩
    · rw [Silent, hstep] at hsilent
      exact absurd htriggers hsilent

end Stops

/-! ### Commands -/

section Commands

variable {addr : BitVec 64}

lemma InStep.slotAddr_eq (h : InStep d) : slotAddr d.s = d.t.debug.addr := by
  funext i
  have hi := h.agrees i
  unfold slotAddr
  cases hw : d.s.hwWps i with
  | none => exact (h.free i hw).symm
  | some w =>
    rw [hw, DebugRegs.watch, Option.ite_none_right_eq_some, Option.some.injEq] at hi
    rw [← hi.2]
    rfl

/-- Registers that `wp_apply` has written. -/
lemma InStep.of_applied (hvalid : ∀ i, ∀ w ∈ d.s.hwWps i, Valid w) (hreported : Reported d)
    (hread : ∀ i, d.t.debug.fired i = false)
    (hdebug : d.t.debug = ⟨slotAddr d.s, d.t.debug.fired, (computeDr7 d.s).setWidth 64⟩) : InStep d where
  agrees i := by
    rw [hdebug]
    exact watch_computeDr7 d.s hvalid _ i
  reported := hreported
  free i hi := by
    rw [hdebug]
    simp [slotAddr, hi]
  valid := hvalid
  read := hread

lemma inStep_wpApply (halive : d.s.alive = true) (hvalid : ∀ i, ∀ w ∈ d.s.hwWps i, Valid w)
    (hreported : Reported d) (hread : ∀ i, d.t.debug.fired i = false) (hrefuse : true ∉ d.t.refuse.take 5) :
    (wpApply d).1 = true ∧ InStep (wpApply d).2 := by
  rw [wpApply_of_notMem halive hrefuse]
  exact ⟨rfl, .of_applied hvalid hreported hread rfl⟩

/-- No write is refused that comes after the address register of the slot to set has been changed. -/
def Harmless (d : Debugger ρ) (addr : BitVec 64) : Prop :=
  ∀ slot ∈ freeSlot d.s, true ∉ d.t.refuse.take 5 ∨ true ∈ d.t.refuse.take (slot + 1) ∨ addr = 0

lemma valid_setWp (h : InStep d) {i : Fin 4} {w : Option Watch} (hw : ∀ w' ∈ w, Valid w') :
    ∀ j, ∀ w' ∈ (setWp d i w).s.hwWps j, Valid w' := by
  intro j w' hw'
  by_cases hj : j = i
  · subst hj
    exact hw w' (by simpa [setWp] using hw')
  · exact h.valid j w' (by simpa [setWp, hj] using hw')

lemma finRange_split : ∀ slot : Fin 4, List.finRange 4 =
    (List.finRange 4).take slot ++ slot :: (List.finRange 4).drop (slot + 1) := by
  decide

lemma ne_of_mem_take_finRange : ∀ slot : Fin 4, ∀ j ∈ (List.finRange 4).take slot, j ≠ slot := by
  decide

/-- A write is refused before any register is changed. -/
lemma wpApply_early (halive : d.s.alive = true) {slot : Fin 4} (hrefuse : true ∈ d.t.refuse.take (slot + 1))
    (hsame : ∀ j ≠ slot, slotAddr d.s j = d.t.debug.addr j) :
    ∃ rest, wpApply d = (false, { d with t := { d.t with refuse := rest } }) := by
  have hbefore : ∃ rest, applyAddrs d.s (List.finRange 4) d.t = (false, { d.t with refuse := rest }) := by
    rw [finRange_split slot]
    refine applyAddrs_refused (fun j hj => hsame j (ne_of_mem_take_finRange slot j hj)) ?_
    simpa [Nat.min_eq_left slot.isLt.le] using hrefuse
  obtain ⟨rest, hrest⟩ := hbefore
  exact ⟨rest, by rw [wpApply, if_pos halive, hrest]⟩

/-- The address registers are as they are to be: all that can change is `DR7`. -/
lemma wpApply_same (halive : d.s.alive = true) (hsame : slotAddr d.s = d.t.debug.addr) :
    (∃ rest, wpApply d = (false, { d with t := { d.t with refuse := rest } })) ∨
      ∃ rest, wpApply d = (true, { d with t := { d.t with
        debug := ⟨slotAddr d.s, d.t.debug.fired, (computeDr7 d.s).setWidth 64⟩, refuse := rest } }) := by
  have haddrs : ∃ ok rest, applyAddrs d.s (List.finRange 4) d.t = (ok, { d.t with refuse := rest }) :=
    applyAddrs_same fun j _ => congrFun hsame j
  obtain ⟨ok, rest, hrest⟩ := haddrs
  rw [wpApply, if_pos halive, hrest]
  cases ok with
  | false => exact .inl ⟨rest, rfl⟩
  | true =>
    dsimp only [Tracee.pokeControl, Tracee.write]
    rw [hsame]
    match rest with
    | [] => exact .inr ⟨[], rfl⟩
    | false :: rest => exact .inr ⟨rest, rfl⟩
    | true :: rest => exact .inl ⟨rest, rfl⟩

/-- What `wp_set` undoes after a failure that has changed no register. -/
lemma view_setWp_none {slot : Fin 4} {w : Option Watch} (hfree : d.s.hwWps slot = none) {rest : List Bool}
    (hd' : d' = { setWp d slot w with t := { d.t with refuse := rest } }) : view (setWp d' slot none) = view d := by
  subst hd'
  simp only [view, setWp, reported, Function.update_idem, ← hfree, Function.update_eq_self]

/-- **Setting a watchpoint** either fails with table and registers as they were, or leaves them in step. -/
lemma wpSet_spec (h : InStep d) (halive : d.s.alive = true) (hharm : Harmless d addr) (len rw : ℤ) :
    ((wpSet d addr len rw).1 = false ∧ view (wpSet d addr len rw).2 = view d) ∨
      ((wpSet d addr len rw).1 = true ∧ InStep (wpSet d addr len rw).2) := by
  unfold wpSet
  split
  · exact .inl ⟨rfl, rfl⟩
  next hval =>
    have hvalid : Valid ⟨addr, len, rw⟩ := by simpa [Valid] using hval
    split
    · exact .inl ⟨rfl, rfl⟩
    split
    · exact .inl ⟨rfl, rfl⟩
    cases hslot : freeSlot d.s with
    | none => exact .inl ⟨rfl, rfl⟩
    | some slot =>
      have hfree : d.s.hwWps slot = none := by simpa using List.find?_some hslot
      have hset := valid_setWp h (i := slot) (w := some ⟨addr, len, rw⟩) fun w' hw' => by
        obtain rfl := Option.some.inj hw'
        exact hvalid
      have hsame : ∀ j, j ≠ slot ∨ addr = 0 →
          slotAddr (setWp d slot (some ⟨addr, len, rw⟩)).s j = d.t.debug.addr j := by
        intro j hj
        rw [← h.slotAddr_eq]
        by_cases hjs : j = slot
        · subst hjs
          simp [slotAddr, setWp, hfree, hj.resolve_left fun hne => hne rfl]
        · simp [slotAddr, setWp, hjs]
      have halive' : (setWp d slot (some ⟨addr, len, rw⟩)).s.alive = true := halive
      dsimp only
      rcases hharm slot hslot with hok | hearly | hzero
      · rw [wpApply_of_notMem halive' hok]
        exact .inr ⟨rfl, .of_applied hset h.reported h.read rfl⟩
      · obtain ⟨rest, hrest⟩ := wpApply_early halive' hearly fun j hj => hsame j (.inl hj)
        rw [hrest]
        exact .inl ⟨rfl, view_setWp_none hfree rfl⟩
      · rcases wpApply_same halive' (funext fun j => hsame j (.inr hzero)) with ⟨rest, hrest⟩ | ⟨rest, hrest⟩
        · rw [hrest]
          exact .inl ⟨rfl, view_setWp_none hfree rfl⟩
        · rw [hrest]
          exact .inr ⟨rfl, .of_applied hset h.reported h.read rfl⟩

lemma inStep_wpRemoveSlot (h : InStep d) (halive : d.s.alive = true) (hrefuse : true ∉ d.t.refuse.take 5)
    (slot : Fin 4) : InStep (wpRemoveSlot d slot).2 := by
  unfold wpRemoveSlot
  split
  · exact h
  have hvalid := valid_setWp h (i := slot) (w := none) (by simp)
  dsimp only
  split
  · refine (inStep_wpApply ?_ ?_ ?_ ?_ ?_).2
    exacts [halive, hvalid, h.reported, h.read, hrefuse]
  · refine (inStep_wpApply ?_ ?_ ?_ ?_ ?_).2
    exacts [halive, hvalid, h.reported, h.read, hrefuse]

lemma inStep_wpRemoveAddr (h : InStep d) (halive : d.s.alive = true) (hrefuse : true ∉ d.t.refuse.take 5)
    (addr : BitVec 64) : InStep (wpRemoveAddr d addr).2 := by
  unfold wpRemoveAddr
  split
  · exact inStep_wpRemoveSlot h halive hrefuse _
  · exact h

lemma inStep_wpRemoveAll (h : InStep d) (halive : d.s.alive = true) (hrefuse : true ∉ d.t.refuse.take 5) :
    InStep (wpRemoveAll d).2 := by
  unfold wpRemoveAll
  dsimp only
  split
  · refine (inStep_wpApply ?_ ?_ ?_ ?_ ?_).2
    exacts [halive, fun i w hw => (by cases hw), h.reported, h.read, hrefuse]
  next hany =>
    have hnone : ∀ i, d.s.hwWps i = none := by
      intro i
      have hall := hany
      rw [List.any_eq_true] at hall
      by_contra hne
      exact hall ⟨i, List.mem_finRange i, Option.isSome_iff_ne_none.2 hne⟩
    exact h.of_view (by simp only [view, funext hnone, reported])

end Commands

/-! ### Runs -/

section Runs

/-- **What an act has to meet**: a watch fires only where the debugger looks at the stop, no other program is started
while one is set, and the writes that are refused do not leave a command half done. -/
def Steady (M : Machine ρ) (st : State ρ) (act : Act ρ) : Prop :=
  (∀ t ∈ observed st act, Keeps M t ∧ (¬ Silent M t → t.refuse.head? ≠ some true)) ∧
    (∀ t ∈ unobserved M st act, Keeps M t ∧ Silent M t) ∧
      match act with
      | .command (.watch addr _ _) refuse => Harmless (refusing st.d refuse) addr
      | .command (.watchRemoveSlot _) refuse => true ∉ refuse.take 5
      | .command (.watchRemoveAddr _) refuse => true ∉ refuse.take 5
      | .command .watchRemoveAll refuse => true ∉ refuse.take 5
      | _ => True

/-- What the runs keep. -/
def Held (st : State ρ) : Prop := InStep st.d ∧ (st.mode ≠ .prompt → st.d.s.alive = true)

lemma held_settle {prompts : List (Option Report × Regs)} {after : After} {r : Next × Debugger ρ}
    (h : InStep r.2) (halive : r.1 = .wait → r.2.s.alive = true) : Held (settle prompts after r) := by
  obtain ⟨next, d⟩ := r
  cases next with
  | wait => exact ⟨h, fun _ => halive rfl⟩
  | ret ok => exact ⟨h.of_view (congrArg Prod.snd (view_finish after ok)), fun hne => absurd rfl hne⟩

/-- Stepping off a breakpoint as a whole command, or before the process is let run. -/
lemma inStep_off (h : InStep d) (halive : d.s.alive = true)
    (hoff : d.s.pendingBp ≠ 0 → Keeps M d.t ∧ Silent M d.t) :
    InStep (resumeStepOverBp M d).2 ∧ ((resumeStepOverBp M d).1 = true →
      (resumeStepOverBp M d).2.s.alive = true) := by
  obtain ⟨hres, hkeep⟩ := inStep_resumeStepOverBp h hoff
  exact ⟨hres, fun hok => (hkeep hok).trans halive⟩

lemma inStep_cmdDc (h : InStep d) (halive : d.s.alive = true)
    (hoff : ∀ t ∈ steppedOff d, Keeps M t ∧ Silent M t) :
    InStep (cmdDc M d).2 ∧ ((cmdDc M d).1 = .wait → (cmdDc M d).2.s.alive = true) := by
  have hview := view_wpSetRf (d := d)
  have hpending := pendingBp_wpSetRf (d := d)
  have hmem : (wpSetRf d).2.s.pendingBp ≠ 0 → (wpSetRf d).2.t ∈ steppedOff d := by
    intro hne
    rw [steppedOff, if_neg (hpending ▸ hne)]
    rfl
  unfold cmdDc
  rw [if_pos halive]
  generalize wpSetRf d = r at hview hmem ⊢
  obtain ⟨ok, d₁⟩ := r
  have hd₁ : InStep d₁ := h.of_view (congrArg Prod.snd hview)
  cases ok with
  | false => exact ⟨hd₁, fun hwait => by cases hwait⟩
  | true =>
    have hres := inStep_off (M := M) hd₁ ((alive_of_view hview).trans halive) fun hne => hoff _ (hmem hne)
    dsimp only
    generalize resumeStepOverBp M d₁ = r at hres ⊢
    obtain ⟨ok, d₂⟩ := r
    cases ok with
    | false => exact ⟨hres.1, fun hwait => by cases hwait⟩
    | true =>
      have hcont := view_cont (d := d₂) M (deliver d₂.s)
      exact ⟨hres.1.of_view (congrArg Prod.snd hcont), fun _ => hres.2 rfl⟩

/-- A single-step that is looked at. -/
lemma inStep_stepOnce (h : InStep d) (halive : d.s.alive = true) (hkeeps : Keeps M d.t)
    (hrefuse : ¬ Silent M d.t → d.t.refuse.head? ≠ some true)
    (hoff : ∀ t ∈ steppedOffAtStop { d with t := (M.singleStep d.t).2 } (M.singleStep d.t).1,
      Keeps M t ∧ Silent M t) :
    InStep (stepOnce M d).2 ∧ ((stepOnce M d).1 = .wait → (stepOnce M d).2.s.alive = true) :=
  inStep_handleStop h halive hkeeps hrefuse hoff

lemma inStep_cmdDs (h : InStep d) (halive : d.s.alive = true)
    (hoff : ∀ t ∈ steppedOff d, Keeps M t ∧ Silent M t)
    (honce : ∀ d₁ ∈ steppedOnce d .ds, (Keeps M d₁.t ∧ (¬ Silent M d₁.t → d₁.t.refuse.head? ≠ some true)) ∧
      ∀ t ∈ steppedOffAtStop { d₁ with t := (M.singleStep d₁.t).2 } (M.singleStep d₁.t).1, Keeps M t ∧ Silent M t) :
    InStep (cmdDs M d).2 ∧ ((cmdDs M d).1 = .wait → (cmdDs M d).2.s.alive = true) := by
  have hview := view_wpSetRf (d := d)
  have hpending := pendingBp_wpSetRf (d := d)
  have hmem : (wpSetRf d).2.s.pendingBp ≠ 0 → (wpSetRf d).2.t ∈ steppedOff d := by
    intro hne
    rw [steppedOff, if_neg (hpending ▸ hne)]
    rfl
  have hmem' : (wpSetRf d).2.s.pendingBp = 0 → (wpSetRf d).2 ∈ steppedOnce d .ds := by
    intro h0
    rw [steppedOnce, if_pos (hpending ▸ h0)]
    rfl
  unfold cmdDs
  rw [if_pos halive]
  generalize wpSetRf d = r at hview hmem hmem' ⊢
  obtain ⟨ok, d₁⟩ := r
  have hd₁ : InStep d₁ := h.of_view (congrArg Prod.snd hview)
  have halive₁ : d₁.s.alive = true := (alive_of_view hview).trans halive
  cases ok with
  | false => exact ⟨hd₁, fun hwait => by cases hwait⟩
  | true =>
    dsimp only
    split
    · have hres := inStep_off (M := M) hd₁ halive₁ fun hne => hoff _ (hmem hne)
      generalize resumeStepOverBp M d₁ = r at hres ⊢
      obtain ⟨ok, d₂⟩ := r
      cases ok <;> exact ⟨hres.1, fun hwait => by cases hwait⟩
    next hzero =>
      obtain ⟨⟨hkeeps, hrefuse⟩, hstop⟩ := honce d₁ (hmem' (not_not.1 hzero))
      exact inStep_stepOnce hd₁ halive₁ hkeeps hrefuse hstop

lemma inStep_cmdDso (h : InStep d) (halive : d.s.alive = true)
    (hoff : ∀ t ∈ steppedOffFirst d .dso, Keeps M t ∧ Silent M t)
    (honce : ∀ d₁ ∈ steppedOnce d .dso, (Keeps M d₁.t ∧ (¬ Silent M d₁.t → d₁.t.refuse.head? ≠ some true)) ∧
      ∀ t ∈ steppedOffAtStop { d₁ with t := (M.singleStep d₁.t).2 } (M.singleStep d₁.t).1, Keeps M t ∧ Silent M t) :
    InStep (cmdDso M d).2.2 ∧ ((cmdDso M d).2.1 = .wait → (cmdDso M d).2.2.s.alive = true) := by
  have hview := view_dsoWay (d := d)
  unfold cmdDso
  rw [if_pos halive]
  rw [steppedOffFirst] at hoff
  rw [steppedOnce] at honce
  generalize dsoWay d = way at hview hoff honce ⊢
  have hway : InStep way.debugger := h.of_view (congrArg Prod.snd hview)
  have halive₁ : way.debugger.s.alive = true := (alive_of_view hview).trans halive
  cases way with
  | fail d₁ => exact ⟨hway, fun hwait => by cases hwait⟩
  | off d₁ =>
    have hres := inStep_off (M := M) hway halive₁ fun _ => hoff d₁.t rfl
    dsimp only [Way.debugger] at hres ⊢
    generalize resumeStepOverBp M d₁ = r at hres ⊢
    obtain ⟨ok, d₂⟩ := r
    cases ok <;> exact ⟨hres.1, fun hwait => by cases hwait⟩
  | once d₁ =>
    obtain ⟨⟨hkeeps, hrefuse⟩, hstop⟩ := honce d₁ rfl
    exact inStep_stepOnce hway halive₁ hkeeps hrefuse hstop
  | toNext nextPc d₁ =>
    have hcont := view_cont (d := d₁) M (deliver d₁.s)
    exact ⟨hway.of_view (congrArg Prod.snd hcont), fun _ => halive₁⟩

/-- A command that has to be at the prompt. -/
lemma inStep_dispatch {c : Command} {refuse : List Bool} {st : State ρ} (hmode : st.mode = .prompt)
    (h : InStep st.d) (halive : st.d.s.alive = true) (hsteady : Steady M st (.command c refuse)) :
    InStep (dispatch M (refusing st.d refuse) c).2.2 ∧
      ((dispatch M (refusing st.d refuse) c).2.1 = .wait → (dispatch M (refusing st.d refuse) c).2.2.s.alive = true) := by
  obtain ⟨hseen, hunseen, hwrites⟩ := hsteady
  have hd : InStep (refusing st.d refuse) := h.of_view rfl
  have hfirst : ∀ t ∈ steppedOffFirst (refusing st.d refuse) c, Keeps M t ∧ Silent M t := by
    intro t ht
    refine hunseen t ?_
    rw [unobserved, if_pos ⟨hmode, halive⟩, Option.mem_def.1 ht]
    rfl
  have honce : ∀ d₁ ∈ steppedOnce (refusing st.d refuse) c,
      steppedOffFirst (refusing st.d refuse) c = none →
        (Keeps M d₁.t ∧ (¬ Silent M d₁.t → d₁.t.refuse.head? ≠ some true)) ∧
          ∀ t ∈ steppedOffAtStop { d₁ with t := (M.singleStep d₁.t).2 } (M.singleStep d₁.t).1,
            Keeps M t ∧ Silent M t := by
    intro d₁ hd₁ hnone
    refine ⟨hseen d₁.t ?_, fun t ht => hunseen t ?_⟩
    · rw [observed, if_pos ⟨hmode, halive⟩, Option.mem_def.1 hd₁]
      rfl
    · rw [unobserved, if_pos ⟨hmode, halive⟩, hnone, Option.mem_def.1 hd₁]
      exact ht
  cases c with
  | db addr => exact ⟨hd.of_view (congrArg Prod.snd (view_bpInsert false)), fun hwait => by cases hwait⟩
  | dbRemove addr => exact ⟨hd.of_view (congrArg Prod.snd view_bpRemove), fun hwait => by cases hwait⟩
  | dbIgnore addr n =>
    refine ⟨hd.of_view ?_, fun hwait => by cases hwait⟩
    dsimp only [dispatch, cmdDbIgnore]
    split
    · rfl
    · rw [view_onBp]
  | dbReset addr => exact ⟨hd.of_view (congrArg Prod.snd (view_onBp _)), fun hwait => by cases hwait⟩
  | cond addr c =>
    refine ⟨hd.of_view ?_, fun hwait => by cases hwait⟩
    cases c with
    | none => exact congrArg Prod.snd (view_onBp _)
    | some c =>
      dsimp only [dispatch, cmdCond]
      split
      · rfl
      · rw [view_onBp]
  | dc => exact inStep_cmdDc hd halive hfirst
  | ds =>
    refine inStep_cmdDs hd halive hfirst fun d₁ hd₁ => honce d₁ hd₁ ?_
    by_cases hzero : (refusing st.d refuse).s.pendingBp = 0
    · exact if_pos hzero
    · rw [steppedOnce, if_neg hzero] at hd₁
      cases hd₁
  | dso =>
    refine inStep_cmdDso hd halive hfirst fun d₁ hd₁ => honce d₁ hd₁ ?_
    rw [steppedOnce] at hd₁
    rw [steppedOffFirst]
    cases hway : dsoWay (refusing st.d refuse) with
    | off d₂ =>
      rw [hway] at hd₁
      cases hd₁
    | fail d₂ => rfl
    | once d₂ => rfl
    | toNext nextPc d₂ => rfl
  | watch addr len rw =>
    refine ⟨?_, fun hwait => by cases hwait⟩
    rcases wpSet_spec hd halive hwrites len rw with ⟨-, hview⟩ | ⟨-, hres⟩
    · exact hd.of_view (congrArg Prod.snd hview)
    · exact hres
  | watchRemoveSlot slot => exact ⟨inStep_wpRemoveSlot hd halive hwrites slot, fun hwait => by cases hwait⟩
  | watchRemoveAddr addr => exact ⟨inStep_wpRemoveAddr hd halive hwrites addr, fun hwait => by cases hwait⟩
  | watchRemoveAll => exact ⟨inStep_wpRemoveAll hd halive hwrites, fun hwait => by cases hwait⟩

/-- **One act** keeps table and registers in step. -/
lemma held_step {st : State ρ} {act : Act ρ} (h : Held st) (hsteady : Steady M st act) : Held (step M st act) := by
  obtain ⟨hin, hwaiting⟩ := h
  cases act with
  | command c refuse =>
    dsimp only [step]
    split
    next hprompt =>
      obtain ⟨hres, halive⟩ := inStep_dispatch hprompt.1 hin hprompt.2 hsteady
      exact held_settle hres halive
    next => exact ⟨hin, hwaiting⟩
  | tick refuse =>
    cases hmode : st.mode with
    | prompt =>
      simp only [step, hmode]
      exact ⟨hin, hwaiting⟩
    | waiting after =>
      have halive := hwaiting (by rw [hmode]; simp)
      have hd : InStep (refusing st.d refuse) := hin.of_view rfl
      obtain ⟨hseen, hunseen, -⟩ := hsteady
      obtain ⟨hkeeps, hrefuse⟩ := hseen (refusing st.d refuse).t (by rw [observed, if_neg (by simp [hmode])]; rfl)
      cases htick : M.tick (refusing st.d refuse).t with
      | ran t =>
        simp only [step, hmode, htick]
        obtain ⟨-, -, -, regs, world, accesses, -, -, rfl⟩ := Machine.tick_eq_ran.1 htick
        exact ⟨hin.of_view rfl, fun _ => halive⟩
      | stop status t =>
        have hsingle := Machine.singleStep_of_stop htick
        have hres := inStep_handleStop (M := M) hd halive hkeeps hrefuse fun t' ht' => by
          refine hunseen t' ?_
          rw [hsingle] at ht'
          rw [unobserved, if_neg (by simp [hmode]), htick]
          exact ht'
        rw [hsingle] at hres
        simp only [step, hmode, htick]
        exact held_settle hres.1 hres.2
  | world world => exact ⟨hin.of_view rfl, hwaiting⟩

/-- The start of a session: no watchpoint is set, and nothing has been triggered or reported. -/
structure Fresh (st : State ρ) : Prop where
  mode : st.mode = .prompt
  alive : st.d.s.alive = true
  hwWps : ∀ i, st.d.s.hwWps i = none
  debug : st.d.t.debug = .clear
  triggers : st.d.t.triggers = []
  out : st.d.s.out = []

lemma Fresh.held {st : State ρ} (h : Fresh st) : Held st :=
  ⟨{ agrees := fun i => by rw [h.debug, DebugRegs.watch_clear, h.hwWps i]
     reported := by rw [Reported, reported, h.out, h.triggers]; rfl
     free := fun i _ => by rw [h.debug]; rfl
     valid := fun i w hw => by rw [h.hwWps i] at hw; cases hw
     read := fun i => by rw [h.debug]; rfl }, fun _ => h.alive⟩

/-- **What an act is to do**: at a prompt that it comes to the registers decode to the table, every trigger has been
reported when it ends, and a set that fails leaves table and registers as they were. -/
def Sound (M : Machine ρ) (st : State ρ) (act : Act ρ) : Prop :=
  ((step M st act).mode = .prompt → (step M st act).d.s.alive = true → Agrees (step M st act).d) ∧
    Reported (step M st act).d ∧
      ∀ addr len rw refuse, act = .command (.watch addr len rw) refuse → st.mode = .prompt → st.d.s.alive = true →
        (wpSet (refusing st.d refuse) addr len rw).1 = false →
          (step M st act).d.s.hwWps = st.d.s.hwWps ∧ (step M st act).d.t.debug = st.d.t.debug

lemma sound_of_steady {st : State ρ} {act : Act ρ} (h : Held st) (hsteady : Steady M st act) : Sound M st act := by
  have hres := held_step h hsteady
  refine ⟨fun _ _ => hres.1.agrees, hres.1.reported, ?_⟩
  rintro addr len rw refuse rfl hmode halive hfail
  have hd : InStep (refusing st.d refuse) := h.1.of_view rfl
  rcases wpSet_spec hd halive hsteady.2.2 len rw with ⟨-, hview⟩ | ⟨hok, -⟩
  · have hstep : (step M st (.command (.watch addr len rw) refuse)).d = (wpSet (refusing st.d refuse) addr len rw).2 := by
      simp only [step, if_pos (And.intro hmode halive), dispatch]
      rfl
    rw [hstep]
    simp only [view, Prod.mk.injEq] at hview
    exact ⟨hview.2.1, hview.2.2.1⟩
  · rw [hfail] at hok
    cases hok

/-- **The debugger keeps watchpoints and debug registers in step** in every run from the start of a session all of
whose acts are steady. -/
theorem watchpoints_sound {st : State ρ} {acts : List (Act ρ)} (hfresh : Fresh st)
    (hsteady : AtEach (step M) (Steady M) st acts) : AtEach (step M) (Sound M) st acts := by
  have hiff := atEach_iff (P := Sound M) (C := fun _ _ => True) (H := Steady M) (I := Held)
    (fun _ _ hs hH => iff_true_intro (sound_of_steady hs hH)) (fun _ _ hs hH _ => held_step hs hH) hfresh.held hsteady
  exact hiff.2 (atEach_of_forall fun _ _ => trivial)

/-- A program whose instruction at `0x400000` writes to `0x1000`. -/
def oneStore : Machine Unit where
  interrupt _ _ := none
  exec r _ :=
    .ran (Function.update r .rip (r .rip + 1)) () (if r .rip = 0x400000 then [⟨0x1000, 8, true⟩] else [])
  deliver _ r _ := (r, ())

/-- A session with a process at `rip` that has just been started. -/
def started {ρ : Type} (rip : BitVec 64) (world : ρ) : State ρ where
  d :=
    { s :=
        { alive := true, memFd := true, lastSig := 0, exitedCode := 0, signaledSig := 0, pendingBp := 0
          bps := fun _ => none, regs := Function.update (fun _ => 0) .rip rip, regsValid := true
          sigStop := fun _ => true, sigPrint := fun _ => true, sigProgram := fun _ => true
          hwWps := fun _ => none, pendingHwExec := none, out := [] }
      t :=
        { regs := Function.update (fun _ => 0) .rip rip, world, text := fun _ => some 0x90, debug := .clear
          siCode := .user, fetched := [], triggers := [], refuse := [] } }
  mode := .prompt
  prompts := []

lemma fresh_started {ρ : Type} (rip : BitVec 64) (world : ρ) : Fresh (started rip world) :=
  ⟨rfl, rfl, fun _ => rfl, rfl, rfl, rfl⟩

/-- The write is watched, and the process is let run into it. -/
theorem watched_store_sound :
    AtEach (step oneStore) (Sound oneStore) (started 0x400000 ())
      [.command (.watch 0x1000 8 1) [], .command .dc [], .tick []] := by
  refine watchpoints_sound (fresh_started _ _) ⟨⟨?_, ?_, ?_⟩, ⟨?_, ?_, trivial⟩, ⟨?_, ?_, trivial⟩, trivial⟩
  · rintro t ⟨⟩
  · rintro t ⟨⟩
  · exact fun slot _ => .inl (by decide)
  · rintro t ⟨⟩
  · rintro t ⟨⟩
  · rintro t ⟨⟩
    exact ⟨by unfold Keeps; decide +kernel, fun _ => by decide +kernel⟩
  · rintro t ⟨⟩

/-- **A watchpoint that is triggered while the process is stepped off a breakpoint** is not reported: the breakpoint
at the write is hit, and the process let go on. -/
theorem trigger_off_breakpoint_unreported :
    ∃ acts, Fresh (started 0x400000 ()) ∧ ¬ AtEach (step oneStore) (Sound oneStore) (started 0x400000 ()) acts := by
  refine ⟨[.command (.watch 0x1000 8 1) [], .command (.db 0x400000) [], .command .dc [], .tick [],
    .command .dc []], fresh_started _ _, fun h => ?_⟩
  have hrep : Reported (step oneStore _ _).d := h.2.2.2.2.1.2.1
  exact absurd hrep (by unfold Reported; decide +kernel)

end Runs

end Two09.Debag.DynamicDb
