import Two09.Debag.Breakpoints
import Two09.Debag.Watchpoints
import Two09.Lib.Tally

/-!
# What a breakpoint stops

The hits of a breakpoint over a run of continues: which of them end at a prompt, and what is counted. The debugger
on its runs is a place that is tallied.
-/

namespace Two09.Debag.DynamicDb

open Two09.Lib Two09.Lib.Ptrace

variable {ρ : Type} {M : Machine ρ} {d d' : Debugger ρ} {s : Session} {t t' : Tracee ρ} {i j : Fin 64} {bp bp' : Bp}
  {a : BitVec 64} {code : BitVec 64 → Option UInt8} {status : Status} {st : State ρ} {act : Act ρ} {refuse : List Bool}

/-! ### What a run shows -/

/-- The registers at a trap of an `int3` at an address. -/
def Fetch.trapAt (a : BitVec 64) : Fetch → Option Regs
  | .int3 r => if r .rip = a then some r else none
  | .insn _ => none

/-- The registers at an instruction that is executed at an address. -/
def Fetch.insnAt (a : BitVec 64) : Fetch → Option Regs
  | .int3 _ => none
  | .insn r => if r .rip = a then some r else none

def Fetch.regs : Fetch → Regs
  | .int3 r => r
  | .insn r => r

/-- The traps at an address. -/
def trapsAt (a : BitVec 64) (t : Tracee ρ) : List Regs := t.fetched.filterMap (Fetch.trapAt a)

/-- The times the instruction at an address was executed. -/
def runsAt (a : BitVec 64) (t : Tracee ρ) : List Regs := t.fetched.filterMap (Fetch.insnAt a)

/-- The registers at the prompts that a report led to. -/
def promptsOf (r : Report) (st : State ρ) : List Regs :=
  st.prompts.filterMap fun p => if p.1 = some r then some p.2 else none

/-- The process is held at an address, the breakpoint there lifted. -/
def heldAt (a : BitVec 64) (d : Debugger ρ) : List Regs := if d.s.pendingBp = a then [d.t.regs] else []

/-! ### The breakpoints of a stopped process -/

/-- The code holds the breakpoints of the table, all but the one that the process is on, which is lifted until the
process is stepped off it. -/
structure Armed (code : BitVec 64 → Option UInt8) (d : Debugger ρ) : Prop where
  table : Table code d.s d.t.text
  lifted : ∀ i bp, d.s.bps i = some bp → (bp.inserted = false ↔ bp.addr = d.s.pendingBp)
  present : d.s.pendingBp ≠ 0 → ∃ i bp, d.s.bps i = some bp ∧ bp.addr = d.s.pendingBp ∧ bp.temporary = false
  reached : d.s.pendingBp ≠ 0 → d.t.regs .rip = d.s.pendingBp
  resumes : d.s.pendingBp ≠ 0 → d.s.pendingHwExec = none

/-- The process can be let run. -/
structure Running (code : BitVec 64 → Option UInt8) (d : Debugger ρ) : Prop where
  armed : Armed code d
  pendingBp : d.s.pendingBp = 0
  pendingHwExec : d.s.pendingHwExec = none

/-- What a function leaves a process that is still there in. -/
def Kept (code : BitVec 64 → Option UInt8) (r : Next × Debugger ρ) : Prop :=
  r.2.s.alive = true → Armed code r.2 ∧ (r.1 = .wait → Running code r.2)

section Armed

/-- Nothing that is about breakpoints is changed. -/
lemma Armed.congr (h : Armed code d) (hbps : d'.s.bps = d.s.bps) (hpending : d'.s.pendingBp = d.s.pendingBp)
    (htext : d'.t.text = d.t.text) (hrip : d'.t.regs .rip = d.t.regs .rip)
    (hexec : d'.s.pendingHwExec = d.s.pendingHwExec ∨ d'.s.pendingHwExec = none) : Armed code d' where
  table := htext ▸ h.table.congr hbps
  lifted := by rw [hbps, hpending]; exact h.lifted
  present := by rw [hbps, hpending]; exact h.present
  reached := by rw [hrip, hpending]; exact h.reached
  resumes hne := hexec.elim (fun heq => heq.trans (h.resumes (hpending ▸ hne))) id

/-- A process on no breakpoint, with the same breakpoints. -/
lemma Armed.of_free (h : Armed code d) (hzero : d.s.pendingBp = 0) (hbps : d'.s.bps = d.s.bps)
    (hpending : d'.s.pendingBp = 0) (htext : d'.t.text = d.t.text) : Armed code d' where
  table := htext ▸ h.table.congr hbps
  lifted := by rw [hbps, hpending, ← hzero]; exact h.lifted
  present hne := absurd hpending hne
  reached hne := absurd hpending hne
  resumes hne := absurd hpending hne

/-- A process on no breakpoint has all of them in its code. -/
lemma Armed.inserted (h : Armed code d) (hzero : code 0 = none) (hpending : d.s.pendingBp = 0)
    (hslot : d.s.bps i = some bp) : bp.inserted = true := by
  have hne := h.table.addr_ne hzero hslot
  have hiff := h.lifted i bp hslot
  rw [hpending] at hiff
  cases hins : bp.inserted with
  | true => rfl
  | false => exact absurd (hiff.1 hins) hne

lemma Armed.planted (h : Armed code d) (hzero : code 0 = none) (hpending : d.s.pendingBp = 0)
    (hslot : d.s.bps i = some bp) : Planted d.s bp.addr :=
  ⟨i, bp, hslot, rfl, h.inserted hzero hpending hslot⟩

end Armed

/-! ### What a stop comes to -/

/-- An instruction runs without being stopped, or the process dies. -/
def Calm (M : Machine ρ) (t : Tracee ρ) : Prop :=
  (∃ t', M.tick t = .ran t') ∨ ∃ status t', M.tick t = .stop status t' ∧ ∀ sig e, status ≠ .stopped sig e

/-- A stop can be told from a breakpoint: the process has not started another program, and there is no `SIGTRAP`
from elsewhere at the byte after a breakpoint. -/
def Telling (M : Machine ρ) (s : Session) (t : Tracee ρ) : Prop :=
  ∀ sig e t', M.tick t = .stop (.stopped sig e) t' →
    t'.text = t.text ∧ (sig = sigtrap → e = none → t'.siCode = .user → ¬ Planted s (t'.regs .rip - 1))

/-- A report of a breakpoint that was hit. -/
def Report.ofBp : Report → Bool
  | .hit _ => true
  | .hitTemp _ => true
  | _ => false

/-- What resuming the process comes to at a breakpoint: the process has left it, or has come to it, and it stops the
process for good, stops it, or lets it pass. -/
inductive EffectAt (d : Debugger ρ) (i : Fin 64) (bp : Bp) (r : Next × Debugger ρ) : Prop
  | leave (l : List Fetch) (on : bp.addr = d.s.pendingBp)
      (fetched : r.2.t.fetched = d.t.fetched ++ l) (ran : l = [] ∨ l = [.insn d.t.regs])
      (bps : ∃ b, r.2.s.bps = Function.update d.s.bps i (some { bp with inserted := b }))
      (run : r.2.s.alive = true → r.1 = .wait ∧ l = [.insn d.t.regs] ∧ r.2.s.pendingBp = 0)
  | temp (free : d.s.pendingBp = 0) (temporary : bp.temporary = true)
      (on : d.t.regs .rip = bp.addr) (fetched : r.2.t.fetched = d.t.fetched ++ [.int3 d.t.regs])
      (bps : r.2.s.bps = Function.update d.s.bps i none) (off : r.2.s.pendingBp = 0) (next : r.1 = .ret true)
      (alive : r.2.s.alive = true) (regs : r.2.t.regs = d.t.regs)
      (report : r.2.s.out.getLast? = some (.hitTemp bp.addr))
  | hold (free : d.s.pendingBp = 0) (temporary : bp.temporary = false)
      (on : d.t.regs .rip = bp.addr) (fetched : r.2.t.fetched = d.t.fetched ++ [.int3 d.t.regs])
      (cond : bpCondTrue d.t.regs bp.cond = true) (ignore : bp.ignoreCount ≤ 0)
      (bps : r.2.s.bps = Function.update d.s.bps i
        (some { bp with inserted := false, hitCount := wrap (bp.hitCount + 1) }))
      (held : r.2.s.pendingBp = bp.addr) (next : r.1 = .ret true)
      (alive : r.2.s.alive = true) (regs : r.2.t.regs = d.t.regs)
      (report : r.2.s.out.getLast? = some (.hit bp.addr))
  | pass (l : List Fetch) (n : ℤ) (free : d.s.pendingBp = 0) (temporary : bp.temporary = false)
      (on : d.t.regs .rip = bp.addr)
      (fetched : r.2.t.fetched = d.t.fetched ++ .int3 d.t.regs :: l) (ran : l = [] ∨ l = [.insn d.t.regs])
      (ignore : bpCondTrue d.t.regs bp.cond = false ∧ n = bp.ignoreCount ∨
        bpCondTrue d.t.regs bp.cond = true ∧ 0 < bp.ignoreCount ∧ n = bp.ignoreCount - 1)
      (bps : ∃ b, r.2.s.bps = Function.update d.s.bps i
        (some { bp with inserted := b, hitCount := wrap (bp.hitCount + 1), ignoreCount := n }))
      (run : r.2.s.alive = true → r.1 = .wait ∧ l = [.insn d.t.regs] ∧ r.2.s.pendingBp = 0)

/-- **What resuming the process comes to**, up to the next wait: nothing at a breakpoint, or something at one. -/
inductive Effect (d : Debugger ρ) (r : Next × Debugger ρ) : Prop
  | quiet (l : List Fetch) (free : d.s.pendingBp = 0) (fetched : r.2.t.fetched = d.t.fetched ++ l)
      (bare : ∀ f ∈ l, ¬ Planted d.s (Fetch.regs f .rip)) (bps : r.2.s.bps = d.s.bps) (off : r.2.s.pendingBp = 0)
      (report : r.1 ≠ .wait → r.2.s.alive = true → ∀ x ∈ r.2.s.out.getLast?, x.ofBp = false)
  | here (i : Fin 64) (bp : Bp) (slot : d.s.bps i = some bp) (effect : EffectAt d i bp r)

section Quiet

lemma filter_bpFind (h : ¬ Planted s a) : (bpFind s a).filter (fun e => e.2.inserted) = none := by
  rw [Option.filter_eq_none_iff]
  rintro ⟨i, bp⟩ hfind hins
  obtain ⟨hslot, haddr⟩ := of_bpFind hfind
  exact h ⟨i, bp, hslot, haddr, hins⟩

/-- A trap that is not for a watch. -/
lemma sigtrapVerdict_of_read (halive : d.s.alive = true) (hread : ∀ i, d.t.debug.fired i = false) :
    sigtrapVerdict d =
      let d₁ : Debugger ρ := { d with s := { d.s with regs := d.t.regs, regsValid := true } }
      if d.t.siCode = .trace then (.stop true, { d₁ with s := { d₁.s with lastSig := 0 } })
      else
        if (judgeTrap d₁).1 = true then (.goOn, (judgeTrap d₁).2)
        else (.stop true, { (judgeTrap d₁).2 with s := { (judgeTrap d₁).2.s with lastSig := 0 } }) := by
  have hfired : ((List.finRange 4).all fun i => !d.t.debug.fired i) = true := by simp [hread]
  simp only [sigtrapVerdict, refreshRegs, halive, if_true, wpCheckHit, hfired]
  split
  · rfl
  · generalize judgeTrap _ = r
    obtain ⟨ok, d₁⟩ := r
    cases ok <;> rfl

/-- A trap at no breakpoint. -/
lemma judgeTrap_free (h : ¬ Planted d.s (d.s.regs .rip - 1)) :
    ∃ regs, judgeTrap d = (false,
      ({ s := { d.s with regs }, t := { d.t with regs } } : Debugger ρ).print (.trap (d.s.regs .rip - 1))) := by
  refine ⟨Function.update d.s.regs .rip (d.s.regs .rip - 1), ?_⟩
  have hfind : (bpFind ({ d.s with regs := Function.update d.s.regs .rip (d.s.regs .rip - 1) } : Session)
      (d.s.regs .rip - 1)).filter (fun e => e.2.inserted) = none := filter_bpFind h
  unfold judgeTrap
  dsimp only
  rw [Function.update_self, hfind]
  rfl

lemma Armed.bare (h : Armed code d) (hbare : d.t.text (d.t.regs .rip) ≠ some int3) :
    ¬ Planted d.s (d.t.regs .rip) := fun hp => hbare (h.table.planted _ hp)

/-- What has been fetched since is at no breakpoint. -/
def Apart (d : Debugger ρ) (t : Tracee ρ) : Prop :=
  ∃ l, t.fetched = d.t.fetched ++ l ∧ ∀ f ∈ l, ¬ Planted d.s (Fetch.regs f .rip)

lemma Armed.apart (h : Armed code d) (hmoved : Machine.Moved d.t t) : Apart d t := by
  cases hmoved with
  | world world => exact ⟨[], by simp, by simp⟩
  | ran regs world hbare =>
    refine ⟨[.insn d.t.regs], rfl, fun f hf => ?_⟩
    rw [List.mem_singleton.1 hf]
    exact h.bare hbare

/-- Nothing about breakpoints has changed. -/
lemma quiet_of (h : Running code d) {r : Next × Debugger ρ} (hapart : Apart d r.2.t)
    (hbps : r.2.s.bps = d.s.bps) (hpending : r.2.s.pendingBp = d.s.pendingBp)
    (htext : r.2.s.alive = true → r.2.t.text = d.t.text) (hexec : r.1 = .wait → r.2.s.pendingHwExec = none)
    (hreport : r.1 ≠ .wait → r.2.s.alive = true → ∀ x ∈ r.2.s.out.getLast?, x.ofBp = false) :
    Kept code r ∧ Effect d r := by
  obtain ⟨l, hfetched, hbare⟩ := hapart
  have hzero : r.2.s.pendingBp = 0 := hpending.trans h.pendingBp
  refine ⟨fun halive => ?_, .quiet l h.pendingBp hfetched hbare hbps hzero hreport⟩
  have harmed : Armed code r.2 := h.armed.of_free h.pendingBp hbps hzero (htext halive)
  exact ⟨harmed, fun hwait => ⟨harmed, hzero, hexec hwait⟩⟩

end Quiet

/-! ### Stops -/

section Stops

variable {u : Tracee ρ} {sig : ℕ}

lemma fetched_cont (t : Tracee ρ) : (M.cont sig t).fetched = t.fetched := by
  unfold Machine.cont
  split <;> rfl

lemma text_cont (t : Tracee ρ) : (M.cont sig t).text = t.text := by
  unfold Machine.cont
  split <;> rfl

lemma fetched_clearFired (t : Tracee ρ) : t.clearFired.2.fetched = t.fetched := by
  unfold Tracee.clearFired Tracee.write
  cases t.refuse with
  | nil => rfl
  | cons b rest => cases b <;> rfl

lemma text_clearFired (t : Tracee ρ) : t.clearFired.2.text = t.text := by
  unfold Tracee.clearFired Tracee.write
  cases t.refuse with
  | nil => rfl
  | cons b rest => cases b <;> rfl

/-- The kernel stops the process, or it dies: it is not taken for a breakpoint. -/
lemma handleStop_kernel (h : Running code d) (halive : d.s.alive = true) (hread : ∀ i, u.debug.fired i = false)
    (hapart : Apart d u) (hfree : status = .stopped sigtrap none → ¬ Planted d.s (u.regs .rip - 1)) :
    Kept code (handleStop M { d with t := { u with text := status.memory d.t.text, siCode := .user } } status) ∧
      Effect d (handleStop M { d with t := { u with text := status.memory d.t.text, siCode := .user } } status) := by
  match status with
  | .exited n =>
    exact quiet_of h hapart rfl rfl (fun hd => by cases hd) (fun hw => by cases hw) (fun _ hd => by cases hd)
  | .signaled n =>
    exact quiet_of h hapart rfl rfl (fun hd => by cases hd) (fun hw => by cases hw) (fun _ hd => by cases hd)
  | .stopped sig (some e) =>
    exact quiet_of h hapart rfl rfl (fun _ => rfl) (fun _ => h.pendingHwExec) (fun hne => absurd rfl hne)
  | .stopped sig none =>
    unfold handleStop
    dsimp only [Status.memory]
    split
    next htrap =>
      subst htrap
      obtain ⟨regs, hjudge⟩ := judgeTrap_free (d := ({
          s := { d.s with lastSig := sigtrap, regs := u.regs, regsValid := true }
          t := { u with text := d.t.text, siCode := .user } } : Debugger ρ)) (hfree rfl)
      rw [handleSigtrap, sigtrapVerdict_of_read (d := ({
          s := { d.s with lastSig := sigtrap }
          t := { u with text := d.t.text, siCode := .user } } : Debugger ρ)) halive hread]
      simp only [reduceCtorEq, if_false]
      rw [hjudge]
      exact quiet_of h hapart rfl rfl (fun _ => rfl) (fun hw => by cases hw)
        (fun _ _ => by simp [Debugger.print, Report.ofBp])
    split
    · refine quiet_of h ?_ ?_ ?_ (fun _ => ?_) (fun hw => by cases hw) (fun _ _ => ?_)
      · simpa [Apart, refreshRegs, halive, Debugger.print] using hapart
      all_goals simp [refreshRegs, halive, Debugger.print, Report.ofBp]
    generalize hprint : (if d.s.sigPrint sig = true then Debugger.print _ (.received sig) else _) = d₁
    obtain ⟨out, rfl⟩ : ∃ out, d₁ = ({
        s := { d.s with lastSig := sig, out }
        t := { u with text := d.t.text, siCode := .user } } : Debugger ρ) := by
      rw [← hprint]
      split
      exacts [⟨_, rfl⟩, ⟨_, rfl⟩]
    split
    · refine quiet_of h ?_ ?_ ?_ (fun _ => ?_) (fun hw => by cases hw) (fun _ _ => ?_)
      · simpa [Apart, refreshRegs, halive, Debugger.print] using hapart
      all_goals simp [refreshRegs, halive, Debugger.print, Report.ofBp]
    · refine quiet_of h ?_ rfl rfl (fun _ => text_cont _) (fun _ => h.pendingHwExec) (fun hne => absurd rfl hne)
      simpa [Apart, fetched_cont] using hapart

/-- A watch traps. -/
lemma handleStop_watch (h : Running code d) (halive : d.s.alive = true) (hin : InStep d) (hapart : Apart d u)
    (htext : u.text = d.t.text) (hdebug : u.debug = d.t.debug) {P : Watch → Bool} (hne : d.t.debug.slots P ≠ []) :
    Kept code (handleStop M { d with t := u.trap (d.t.debug.slots P) } (.stopped sigtrap none)) ∧
      Effect d (handleStop M { d with t := u.trap (d.t.debug.slots P) } (.stopped sigtrap none)) := by
  have hfire : (u.trap (d.t.debug.slots P)).debug = d.t.debug.fire (d.t.debug.slots P) := by
    rw [← hdebug]
    rfl
  rw [handleStop, if_pos rfl, handleSigtrap, sigtrapVerdict_fire hin halive hne hfire]
  refine quiet_of h ?_ rfl rfl (fun _ => ?_) (fun hw => by cases hw) (fun _ _ x hx => ?_)
  · simpa [Apart, fetched_clearFired, Tracee.trap] using hapart
  · exact (text_clearFired _).trans htext
  · rw [List.getLast?_append_of_ne_nil _ (by simpa using hne), List.getLast?_map] at hx
    obtain ⟨i, -, rfl⟩ := Option.map_eq_some_iff.1 (Option.mem_def.1 hx)
    rfl

/-- An `int3` of the program traps. -/
lemma handleStop_int3 (h : Running code d) (halive : d.s.alive = true) (hin : InStep d)
    (hbare : ¬ Planted d.s (d.t.regs .rip)) :
    Kept code (handleStop M { d with t := d.t.trapInt3 } (.stopped sigtrap none)) ∧
      Effect d (handleStop M { d with t := d.t.trapInt3 } (.stopped sigtrap none)) := by
  have hrip : d.t.trapInt3.regs .rip - 1 = d.t.regs .rip := by
    simp only [Tracee.trapInt3, Function.update_self, BitVec.add_sub_cancel]
  obtain ⟨regs, hjudge⟩ := judgeTrap_free (d := ({
      s := { d.s with lastSig := sigtrap, regs := d.t.trapInt3.regs, regsValid := true }
      t := d.t.trapInt3 } : Debugger ρ)) (by rw [hrip]; exact hbare)
  rw [handleStop, if_pos rfl, handleSigtrap, sigtrapVerdict_int3 halive hin.read, hjudge]
  refine quiet_of h ⟨[.int3 d.t.regs], rfl, fun f hf => ?_⟩ rfl rfl (fun _ => rfl) (fun hw => by cases hw)
    (fun _ _ => by simp [Debugger.print, Report.ofBp])
  rw [List.mem_singleton.1 hf]
  exact hbare

end Stops

/-! ### Coming to a breakpoint and leaving it -/

section Breakpoint

/-- The breakpoint that the process has come to is lifted. -/
lemma Running.lift (h : Running code d) (bp' : Bp) (d' : Debugger ρ) (hzero : code 0 = none) (hslot : d.s.bps i = some bp)
    (haddr : bp'.addr = bp.addr) (hshadow : bp'.shadow = bp.shadow) (hins : bp'.inserted = false)
    (htemp : bp'.temporary = false)
    (hbps : d'.s.bps = Function.update d.s.bps i (some bp')) (hpending : d'.s.pendingBp = bp.addr)
    (htext : d'.t.text = Function.update d.t.text bp.addr (some bp.shadow)) (hrip : d'.t.regs .rip = bp.addr)
    (hexec : d'.s.pendingHwExec = none) : Armed code d' where
  table := by
    have htable := h.armed.table.update _ _ hslot haddr hshadow hbps
    rw [hins] at htable
    rw [htext]
    exact htable
  lifted j b hj := by
    by_cases hji : j = i
    · subst hji
      rw [hbps, Function.update_self] at hj
      obtain rfl := Option.some.inj hj
      simp [hins, hpending, haddr]
    · rw [hbps, Function.update_of_ne hji] at hj
      have hne : b.addr ≠ bp.addr := fun heq => hji (h.armed.table.distinct j i b bp hj hslot heq)
      simp [h.armed.inserted hzero h.pendingBp hj, hpending, hne]
  present _ := ⟨i, bp', by rw [hbps, Function.update_self], haddr.trans hpending.symm, htemp⟩
  reached _ := hrip.trans hpending.symm
  resumes _ := hexec

/-- A temporary one is dropped as well. -/
lemma Running.drop (h : Running code d) (hzero : code 0 = none) (hslot : d.s.bps i = some bp)
    (hbps : d'.s.bps = Function.update d.s.bps i none) (hpending : d'.s.pendingBp = 0)
    (htext : d'.t.text = Function.update d.t.text bp.addr (some bp.shadow)) : Armed code d' where
  table := by
    have htable := h.armed.table.update { bp with inserted := false }
      { d.s with bps := Function.update d.s.bps i (some { bp with inserted := false }) } hslot rfl rfl rfl
    rw [htext]
    exact htable.drop _ (Function.update_self ..) rfl (by rw [hbps, Function.update_idem])
  lifted j b hj := by
    have hji : j ≠ i := by
      rintro rfl
      simp [hbps] at hj
    rw [hbps, Function.update_of_ne hji] at hj
    have hins : b.inserted ≠ false := by simp [h.armed.inserted hzero h.pendingBp hj]
    rw [hpending]
    exact iff_of_false hins (h.armed.table.addr_ne hzero hj)
  present hne := absurd hpending hne
  reached hne := absurd hpending hne
  resumes hne := absurd hpending hne

/-- The breakpoint that the process has left is planted again. -/
lemma Armed.plant (h : Armed code d) (hzero : code 0 = none) (hslot : d.s.bps i = some bp)
    (hon : bp.addr = d.s.pendingBp)
    (hbps : d'.s.bps = Function.update d.s.bps i (some { bp with inserted := true })) (hpending : d'.s.pendingBp = 0)
    (htext : d'.t.text = Function.update d.t.text bp.addr (some int3)) : Armed code d' where
  table := htext ▸ h.table.update { bp with inserted := true } _ hslot rfl rfl hbps
  lifted j b hj := by
    rw [hpending]
    by_cases hji : j = i
    · subst hji
      rw [hbps, Function.update_self] at hj
      obtain rfl := Option.some.inj hj
      simpa using h.table.addr_ne hzero hslot
    · rw [hbps, Function.update_of_ne hji] at hj
      have hne : b.addr ≠ d.s.pendingBp := fun heq => hji (h.table.distinct j i b bp hj hslot (heq.trans hon.symm))
      have hins : b.inserted ≠ false := fun hb => hne ((h.lifted j b hj).1 hb)
      exact iff_of_false hins (h.table.addr_ne hzero hj)
  present hne := absurd hpending hne
  reached hne := absurd hpending hne
  resumes hne := absurd hpending hne

/-- **Leaving a breakpoint**: its instruction is executed and it is planted again, or the process dies. -/
lemma Armed.leave (h : Armed code d) (hzero : code 0 = none) (halive : d.s.alive = true)
    (hslot : d.s.bps i = some bp) (hon : bp.addr = d.s.pendingBp) (hcalm : Calm M d.t) :
    ∃ l, (l = [] ∨ l = [.insn d.t.regs]) ∧ (resumeStepOverBp M d).2.t.fetched = d.t.fetched ++ l ∧
      (∃ b, (resumeStepOverBp M d).2.s.bps = Function.update d.s.bps i (some { bp with inserted := b })) ∧
        (resumeStepOverBp M d).1 = (resumeStepOverBp M d).2.s.alive ∧
          ((resumeStepOverBp M d).2.s.alive = true → l = [.insn d.t.regs] ∧ Running code (resumeStepOverBp M d).2) := by
  have hne : d.s.pendingBp ≠ 0 := hon ▸ h.table.addr_ne hzero hslot
  have hlift : bp.inserted = false := (h.lifted i bp hslot).2 hon
  rcases hcalm with ⟨t', htick⟩ | ⟨status, t', htick, hgone⟩
  · rw [resumeStepOverBp_ran h.table halive hslot hon hne hlift htick]
    obtain ⟨-, -, -, regs, world, accesses, -, -, rfl⟩ := Machine.tick_eq_ran.1 htick
    refine ⟨[.insn d.t.regs], .inr rfl, rfl, ⟨true, rfl⟩, halive.symm, fun _ => ⟨rfl, ?_, rfl, h.resumes hne⟩⟩
    exact h.plant hzero hslot hon rfl rfl rfl
  · obtain ⟨s', hres, hdead, hbps, -⟩ := resumeStepOverBp_gone hne htick hgone
    have hsame : d.s.bps = Function.update d.s.bps i (some { bp with inserted := false }) := by
      rw [← hlift, ← hslot, Function.update_eq_self]
    rw [hres]
    rcases Machine.tick_eq_stop htick with ⟨u, hmoved, rfl⟩ | ⟨u, P, -, -, hs, -⟩ | ⟨-, hs, -⟩ | ⟨-, hs, -⟩
    · cases hmoved with
      | world world =>
        exact ⟨[], .inl rfl, by simp, ⟨false, hbps.trans hsame⟩, hdead.symm, fun ha => by rw [hdead] at ha; cases ha⟩
      | ran regs world hbare =>
        exact ⟨[.insn d.t.regs], .inr rfl, rfl, ⟨false, hbps.trans hsame⟩, hdead.symm,
          fun ha => by rw [hdead] at ha; cases ha⟩
    · exact absurd hs (hgone _ _)
    · exact absurd hs (hgone _ _)
    · exact absurd hs (hgone _ _)

lemma wpSetRf_none (h : d.s.pendingHwExec = none) : wpSetRf d = (true, d) := by
  rw [wpSetRf, h]

/-- Going on from a breakpoint that does not stop the process. -/
lemma Armed.goOn (h : Armed code d) (hzero : code 0 = none) (halive : d.s.alive = true)
    (hslot : d.s.bps i = some bp) (hon : bp.addr = d.s.pendingBp) (hcalm : ∀ u ∈ steppedOff d, Calm M u) :
    ∃ l, (l = [] ∨ l = [.insn d.t.regs]) ∧ (bpAutoContinue M d).2.t.fetched = d.t.fetched ++ l ∧
      (∃ b, (bpAutoContinue M d).2.s.bps = Function.update d.s.bps i (some { bp with inserted := b })) ∧
        ((bpAutoContinue M d).2.s.alive = true →
          (bpAutoContinue M d).1 = .wait ∧ l = [.insn d.t.regs] ∧ Running code (bpAutoContinue M d).2) := by
  have hne : d.s.pendingBp ≠ 0 := hon ▸ h.table.addr_ne hzero hslot
  have hexec := h.resumes hne
  have hoff : d.t ∈ steppedOff d := by
    rw [steppedOff, if_neg hne, wpSetRf_none hexec]
    rfl
  have harmed : Armed code ({ d with s := { d.s with lastSig := 0 } } : Debugger ρ) :=
    h.congr rfl rfl rfl rfl (.inl rfl)
  obtain ⟨l, hl, hfetched, hbps, hok, hrun⟩ := harmed.leave hzero halive hslot hon (hcalm d.t hoff)
  unfold bpAutoContinue
  rw [wpSetRf_none (d := { d with s := { d.s with lastSig := 0 } }) hexec]
  dsimp only
  generalize resumeStepOverBp M { d with s := { d.s with lastSig := 0 } } = r at hfetched hbps hok hrun ⊢
  obtain ⟨ok, d₁⟩ := r
  refine ⟨l, hl, ?_⟩
  cases ok with
  | true => exact ⟨hfetched, hbps, fun ha => ⟨rfl, hrun ha⟩⟩
  | false => exact ⟨hfetched, hbps, fun ha => absurd (hok.trans ha) (by simp)⟩

/-- **Coming to a breakpoint**: a temporary one stops the process and is dropped; another is counted, and stops it
if its condition holds and it is not to be ignored. -/
lemma handleStop_hit (h : Running code d) (hzero : code 0 = none) (halive : d.s.alive = true) (hin : InStep d)
    (hslot : d.s.bps i = some bp) (hrip : d.t.regs .rip = bp.addr)
    (hcalm : ∀ u ∈ steppedOffAtStop { d with t := d.t.trapInt3 } (.stopped sigtrap none), Calm M u) :
    Kept code (handleStop M { d with t := d.t.trapInt3 } (.stopped sigtrap none)) ∧
      Effect d (handleStop M { d with t := d.t.trapInt3 } (.stopped sigtrap none)) := by
  have hins := h.armed.inserted hzero h.pendingBp hslot
  have hverdict := sigtrapVerdict_int3 (d := d) halive hin.read
  rw [judgeTrap_int3 h.armed.table halive hslot hins hrip] at hverdict
  rw [steppedOffAtStop, if_pos rfl, hverdict] at hcalm
  rw [handleStop, if_pos rfl, handleSigtrap, hverdict]
  by_cases htemp : bp.temporary = true
  · rw [if_pos htemp]
    refine ⟨fun _ => ⟨h.drop hzero hslot rfl rfl rfl, fun hw => by cases hw⟩, ?_⟩
    exact .here i bp hslot <| .temp h.pendingBp htemp hrip rfl rfl rfl rfl halive rfl (by simp [Debugger.print])
  · rw [if_neg htemp] at hcalm
    rw [if_neg htemp]
    -- the process is let go on with the counts `bp₁`, after what is printed
    have hgo : ∀ (n : ℤ) (out : List Report) (bp₁ : Bp),
        bp₁ = { bp with inserted := false, hitCount := wrap (bp.hitCount + 1), ignoreCount := n } →
        (bpCondTrue d.t.regs bp.cond = false ∧ n = bp.ignoreCount ∨
          bpCondTrue d.t.regs bp.cond = true ∧ 0 < bp.ignoreCount ∧ n = bp.ignoreCount - 1) →
        ∀ d₁ : Debugger ρ, d₁ = { (lifted d d.t bp).setBp i (some bp₁) with
          s := { ((lifted d d.t bp).setBp i (some bp₁)).s with out } } →
        (∀ u ∈ steppedOff d₁, Calm M u) → Kept code (bpAutoContinue M d₁) ∧ Effect d (bpAutoContinue M d₁) := by
      rintro n out bp₁ rfl hcond d₁ rfl hoff
      have harmed := h.lift { bp with inserted := false, hitCount := wrap (bp.hitCount + 1), ignoreCount := n }
        { (lifted d d.t bp).setBp i (some { bp with
          inserted := false, hitCount := wrap (bp.hitCount + 1), ignoreCount := n }) with
          s := { ((lifted d d.t bp).setBp i (some { bp with
            inserted := false, hitCount := wrap (bp.hitCount + 1), ignoreCount := n })).s with out } }
        hzero hslot rfl rfl rfl (by simpa using htemp) rfl rfl rfl hrip h.pendingHwExec
      obtain ⟨l, hl, hfetched, ⟨b, hbps⟩, hrun⟩ := harmed.goOn hzero halive (Function.update_self ..) rfl hoff
      refine ⟨fun ha => ⟨(hrun ha).2.2.armed, fun _ => (hrun ha).2.2⟩, ?_⟩
      refine .here i bp hslot <| .pass l n h.pendingBp (by simpa using htemp) hrip ?_ hl hcond ⟨b, ?_⟩
        fun ha => ⟨(hrun ha).1, (hrun ha).2.1, (hrun ha).2.2.pendingBp⟩
      · rw [hfetched]
        simp [lifted, Debugger.setBp, Tracee.trapInt3]
      · rw [hbps]
        simp [lifted, Debugger.setBp]
    unfold hitBp at hcalm ⊢
    dsimp only at hcalm ⊢
    cases hcond : bpCondTrue (lifted d d.t bp).s.regs bp.cond with
    | false =>
      simp only [hcond, Bool.not_false, if_true] at hcalm ⊢
      exact hgo bp.ignoreCount d.s.out _ rfl (.inl ⟨hcond, rfl⟩) _ rfl hcalm
    | true =>
      simp only [hcond, Bool.not_true, Bool.false_eq_true, if_false] at hcalm ⊢
      by_cases hpos : bp.ignoreCount > 0
      · rw [if_pos hpos] at hcalm ⊢
        exact hgo (bp.ignoreCount - 1) _ _ rfl (.inr ⟨hcond, hpos, rfl⟩) _ rfl hcalm
      · rw [if_neg hpos]
        have harmed := h.lift { bp with inserted := false, hitCount := wrap (bp.hitCount + 1) }
          ((lifted d d.t bp).setBp i (some { bp with inserted := false, hitCount := wrap (bp.hitCount + 1) })) hzero hslot
          rfl rfl rfl (by simpa using htemp) rfl rfl rfl hrip h.pendingHwExec
        refine ⟨fun _ => ⟨harmed.congr rfl rfl rfl rfl (.inl rfl), fun hw => by cases hw⟩, ?_⟩
        refine .here i bp hslot <| .hold h.pendingBp (by simpa using htemp) hrip rfl hcond (not_lt.1 hpos) rfl rfl rfl
          halive rfl ?_
        simp [Debugger.print, lifted, hrip]

end Breakpoint

/-! ### Whatever the process stops for -/

section Any

/-- A tick that stops the process. -/
lemma handleStop_tick (h : Running code d) (hzero : code 0 = none) (halive : d.s.alive = true) (hin : InStep d)
    (htick : M.tick d.t = .stop status t') (htell : Telling M d.s d.t)
    (hcalm : ∀ u ∈ steppedOffAtStop { d with t := t' } status, Calm M u) :
    Kept code (handleStop M { d with t := t' } status) ∧ Effect d (handleStop M { d with t := t' } status) := by
  rcases Machine.tick_eq_stop htick with ⟨u, hmoved, rfl⟩ | ⟨u, P, hmoved, hne, rfl, rfl⟩ | ⟨hint3, rfl, rfl⟩ |
    ⟨hbare, rfl, regs, world, text, rfl⟩
  · refine handleStop_kernel h halive ?_ (h.armed.apart hmoved) ?_
    · cases hmoved <;> exact hin.read
    · rintro rfl
      exact (htell _ _ _ htick).2 rfl rfl rfl
  · refine handleStop_watch h halive hin (h.armed.apart hmoved) ?_ ?_ hne
    · cases hmoved <;> rfl
    · cases hmoved <;> rfl
  · by_cases hplanted : Planted d.s (d.t.regs .rip)
    · obtain ⟨i, bp, hslot, haddr, -⟩ := hplanted
      exact handleStop_hit h hzero halive hin hslot haddr.symm hcalm
    · exact handleStop_int3 h halive hin hplanted
  · have htext : text = d.t.text := (htell _ _ _ htick).1
    have hapart : Apart d (d.t.ran regs world) := h.armed.apart (.ran regs world hbare)
    exact quiet_of h hapart rfl rfl (fun _ => htext) (fun _ => h.pendingHwExec) (fun hne => absurd rfl hne)

/-- A single-step. -/
lemma kept_stepOnce (h : Running code d) (hzero : code 0 = none) (halive : d.s.alive = true) (hin : InStep d)
    (htell : Telling M d.s d.t)
    (hcalm : ∀ u ∈ steppedOffAtStop { d with t := (M.singleStep d.t).2 } (M.singleStep d.t).1, Calm M u) :
    Kept code (stepOnce M d) := by
  unfold stepOnce
  cases htick : M.tick d.t with
  | ran u =>
    obtain ⟨-, -, -, regs, world, accesses, -, -, rfl⟩ := Machine.tick_eq_ran.1 htick
    rw [show M.singleStep d.t = (.stopped sigtrap none, { d.t.ran regs world with siCode := .trace }) by
      rw [Machine.singleStep, htick]]
    dsimp only
    rw [handleStop, if_pos rfl, handleSigtrap, sigtrapVerdict_of_read (d := ({
      s := { d.s with lastSig := sigtrap }
      t := { d.t.ran regs world with siCode := .trace } } : Debugger ρ)) halive hin.read]
    exact fun _ => ⟨h.armed.of_free h.pendingBp rfl h.pendingBp rfl, fun hw => by cases hw⟩
  | stop status t' =>
    rw [Machine.singleStep_of_stop htick] at hcalm ⊢
    exact (handleStop_tick h hzero halive hin htick htell hcalm).1

/-- Letting the process run. -/
lemma cmdDc_spec (h : Armed code d) (hzero : code 0 = none) (halive : d.s.alive = true)
    (hcalm : ∀ u ∈ steppedOff d, Calm M u) : Kept code (cmdDc M d) ∧ Effect d (cmdDc M d) := by
  unfold cmdDc
  rw [if_pos halive]
  by_cases hne : d.s.pendingBp = 0
  · obtain ⟨d₁, hrf, hexec, hbps, hout, hpending, ht, htext⟩ : ∃ d₁, wpSetRf d = (true, d₁) ∧
        d₁.s.pendingHwExec = none ∧ d₁.s.bps = d.s.bps ∧ d₁.s.out = d.s.out ∧ d₁.s.pendingBp = d.s.pendingBp ∧
          d₁.t.fetched = d.t.fetched ∧ d₁.t.text = d.t.text := by
      cases hx : d.s.pendingHwExec with
      | none => exact ⟨d, wpSetRf_none hx, hx, rfl, rfl, rfl, rfl, rfl⟩
      | some slot =>
        refine ⟨{ s := { d.s with regs := d.t.regs.resume, regsValid := true, pendingHwExec := none }
                  t := d.t.setRegs d.t.regs.resume }, ?_, rfl, rfl, rfl, rfl, rfl, rfl⟩
        simp only [wpSetRf, hx, refreshRegs, halive, if_true]
    have hres : resumeStepOverBp M d₁ = (true, d₁) := by rw [resumeStepOverBp, if_pos (hpending.trans hne)]
    rw [hrf]
    dsimp only
    rw [hres]
    have harmed : Armed code ({ d₁ with t := M.cont (deliver d₁.s) d₁.t } : Debugger ρ) :=
      h.of_free hne hbps (hpending.trans hne) ((text_cont _).trans htext)
    refine ⟨fun _ => ⟨harmed, fun _ => ⟨harmed, hpending.trans hne, hexec⟩⟩, ?_⟩
    refine .quiet [] hne ?_ (by simp) hbps (hpending.trans hne) (fun hw => absurd rfl hw)
    rw [List.append_nil]
    exact (fetched_cont _).trans ht
  · obtain ⟨i, bp, hslot, hon, -⟩ := h.present hne
    have hexec := h.resumes hne
    have hoff : d.t ∈ steppedOff d := by
      rw [steppedOff, if_neg hne, wpSetRf_none hexec]
      rfl
    obtain ⟨l, hl, hfetched, hbps, hok, hrun⟩ := h.leave hzero halive hslot hon (hcalm d.t hoff)
    rw [wpSetRf_none hexec]
    dsimp only
    generalize resumeStepOverBp M d = r at hfetched hbps hok hrun ⊢
    obtain ⟨ok, d₁⟩ := r
    cases ok with
    | false =>
      have hdead : d₁.s.alive ≠ true := fun ha => absurd (hok.trans ha) (by simp)
      exact ⟨fun ha => absurd ha hdead, .here i bp hslot <| .leave l hon hfetched hl hbps fun ha => absurd ha hdead⟩
    | true =>
      obtain ⟨hins, hrunning⟩ := hrun hok.symm
      have harmed : Armed code ({ d₁ with t := M.cont (deliver d₁.s) d₁.t } : Debugger ρ) :=
        hrunning.armed.of_free hrunning.pendingBp rfl hrunning.pendingBp (text_cont _)
      refine ⟨fun _ => ⟨harmed, fun _ => ⟨harmed, hrunning.pendingBp, hrunning.pendingHwExec⟩⟩, ?_⟩
      exact .here i bp hslot <| .leave l hon ((fetched_cont _).trans hfetched) hl hbps
        fun _ => ⟨rfl, hins, hrunning.pendingBp⟩

end Any

/-! ### The commands at the prompt -/

section Commands

lemma update_eq_some {bps : Fin 64 → Option Bp} {x : Option Bp} :
    Function.update bps i x j = some bp ↔ j = i ∧ x = some bp ∨ j ≠ i ∧ bps j = some bp := by
  by_cases h : j = i
  · subst h
    simp
  · simp [h]

lemma memWriteByte_some {b : UInt8} (h : memWriteByte d a b = some d') :
    (∀ k : Fin 8, (d.t.text (a + BitVec.ofNat 64 k)).isSome) ∧
      d' = { d with t := { d.t with text := Function.update d.t.text a (some b) } } := by
  unfold memWriteByte at h
  split at h
  · cases hpeek : d.t.peek a with
    | none => simp [hpeek] at h
    | some word =>
      rw [hpeek] at h
      dsimp only at h
      rw [Tracee.poke_update hpeek, Option.map_some] at h
      refine ⟨not_not.1 fun hmapped => ?_, (Option.some.inj h).symm⟩
      rw [Tracee.peek_eq_none.2 hmapped] at hpeek
      cases hpeek
  · cases h

lemma armed_bpInsert (h : Armed code d) (hzero : code 0 = none) (temporary : Bool) :
    Armed code (bpInsert d a temporary).2 := by
  unfold bpInsert
  cases hfind : bpFind d.s a with
  | some e => exact h
  | none =>
    rw [Option.isSome_none, if_neg Bool.false_ne_true]
    cases halloc : bpAlloc d.s with
    | none => exact h
    | some i =>
      dsimp only
      cases hpeek : d.t.peek a with
      | none => exact h
      | some word =>
        dsimp only
        cases hwrite : memWriteByte d a int3 with
        | none => exact h
        | some d' =>
          obtain ⟨hmapped, rfl⟩ := memWriteByte_some hwrite
          have htable := h.table.insert ⟨a, word 0, true, temporary, 0, 0, none⟩
            { d.s with bps := Function.update d.s.bps i (some ⟨a, word 0, true, temporary, 0, 0, none⟩) }
            (of_bpAlloc halloc) hfind rfl hmapped (Tracee.peek_zero hpeek) rfl
          have hne : a ≠ d.s.pendingBp := by
            by_cases h0 : d.s.pendingBp = 0
            · rw [h0]
              exact htable.addr_ne hzero (Function.update_self i _ _)
            · obtain ⟨j, b, hj, hb, -⟩ := h.present h0
              exact fun heq => bpFind_eq_none.1 hfind j b hj (hb.trans heq.symm)
          have hother : ∀ j b, d.s.bps j = some b → Function.update d.s.bps i
              (some ⟨a, word 0, true, temporary, 0, 0, none⟩) j = some b := by
            intro j b hj
            rw [Function.update_of_ne, hj]
            rintro rfl
            rw [of_bpAlloc halloc] at hj
            cases hj
          exact {
            table := htable
            lifted := by
              intro j b (hj : Function.update d.s.bps i _ j = some b)
              rcases update_eq_some.1 hj with ⟨-, hb⟩ | ⟨-, hj⟩
              · obtain rfl := Option.some.inj hb
                exact iff_of_false (by simp) hne
              · exact h.lifted j b hj
            present := fun h0 => by
              obtain ⟨j, b, hj, hb, htemp⟩ := h.present h0
              exact ⟨j, b, hother j b hj, hb, htemp⟩
            reached := h.reached
            resumes := h.resumes }

lemma armed_bpRemove (h : Armed code d) (hzero : code 0 = none) (halive : d.s.alive = true) :
    Armed code (bpRemove d a).2 := by
  unfold bpRemove
  cases hfind : bpFind d.s a with
  | none => exact h
  | some e =>
    obtain ⟨i, bp⟩ := e
    obtain ⟨hslot, -⟩ := of_bpFind hfind
    have hlift := h.table.update { bp with inserted := false }
      { d.s with bps := Function.update d.s.bps i (some { bp with inserted := false }) } hslot rfl rfl rfl
    have hdrop := hlift.drop { d.s with bps := Function.update d.s.bps i none } (Function.update_self ..) rfl
      (by simp [Function.update_idem])
    have hsub : ∀ j b, Function.update d.s.bps i none j = some b → j ≠ i ∧ d.s.bps j = some b := fun j b hj =>
      (update_eq_some.1 hj).resolve_left fun hb => by cases hb.2
    -- the text once the byte is restored, whether or not it was lifted already
    have htext : ∃ d₁, (if bp.inserted then (memWriteByte d bp.addr bp.shadow).getD d else d) = d₁ ∧
        d₁ = { d with t := { d.t with text := Function.update d.t.text bp.addr (some bp.shadow) } } := by
      refine ⟨_, rfl, ?_⟩
      cases hins : bp.inserted with
      | true => rw [if_pos rfl, h.table.memWriteByte halive hslot]; rfl
      | false =>
        have hbare := h.table.text_eq hslot
        rw [hins, if_neg Bool.false_ne_true] at hbare
        rw [if_neg Bool.false_ne_true, ← hbare, Function.update_eq_self]
    obtain ⟨d₁, hd₁, rfl⟩ := htext
    dsimp only
    rw [hd₁]
    by_cases hon : d.s.pendingBp = bp.addr
    · rw [if_pos hon]
      exact {
        table := hdrop.congr rfl
        lifted := by
          intro j b hj
          obtain ⟨hji, hj⟩ := hsub j b hj
          have hne : b.addr ≠ bp.addr := fun heq => hji (h.table.distinct j i b bp hj hslot heq)
          have hins : b.inserted ≠ false := fun hb => hne (((h.lifted j b hj).1 hb).trans hon)
          exact iff_of_false hins (h.table.addr_ne hzero hj)
        present := fun hne => absurd rfl hne
        reached := fun hne => absurd rfl hne
        resumes := fun hne => absurd rfl hne }
    · rw [if_neg hon]
      exact {
        table := hdrop.congr rfl
        lifted := fun j b hj => h.lifted j b (hsub j b hj).2
        present := fun h0 => by
          obtain ⟨j, b, hj, hb, htemp⟩ := h.present h0
          have hji : j ≠ i := by
            rintro rfl
            rw [hslot] at hj
            obtain rfl := Option.some.inj hj
            exact hon hb.symm
          exact ⟨j, b, (Function.update_of_ne hji ..).trans hj, hb, htemp⟩
        reached := h.reached
        resumes := h.resumes }

/-- Counts and conditions are set. -/
lemma armed_onBp (h : Armed code d) {f : Bp → Bp} (hf : ∀ bp, (f bp).addr = bp.addr ∧ (f bp).shadow = bp.shadow ∧
    (f bp).inserted = bp.inserted ∧ (f bp).temporary = bp.temporary) : Armed code (onBp d a f) := by
  unfold onBp
  cases hfind : bpFind d.s a with
  | none => exact h
  | some e =>
    obtain ⟨i, bp⟩ := e
    obtain ⟨hslot, -⟩ := of_bpFind hfind
    obtain ⟨haddr, hshadow, hins, htemp⟩ := hf bp
    have htable := h.table.update _ (d.setBp i (some (f bp))).s hslot haddr hshadow rfl
    rw [hins, ← h.table.text_eq hslot, Function.update_eq_self] at htable
    exact {
      table := htable
      lifted := by
        intro j b (hj : Function.update d.s.bps i _ j = some b)
        rcases update_eq_some.1 hj with ⟨rfl, hb⟩ | ⟨-, hj⟩
        · obtain rfl := Option.some.inj hb
          rw [hins, haddr]
          exact h.lifted j bp hslot
        · exact h.lifted j b hj
      present := fun h0 => by
        obtain ⟨j, b, hj, hb, hb'⟩ := h.present h0
        by_cases hji : j = i
        · subst hji
          rw [hslot] at hj
          obtain rfl := Option.some.inj hj
          exact ⟨j, f bp, Function.update_self .., haddr.trans hb, htemp.trans hb'⟩
        · exact ⟨j, b, (Function.update_of_ne hji ..).trans hj, hb, hb'⟩
      reached := h.reached
      resumes := h.resumes }

lemma applyAddrs_frame (is : List (Fin 4)) (s : Session) (t : Tracee ρ) :
    ∃ debug refuse, (applyAddrs s is t).2 = { t with debug, refuse } := by
  induction is generalizing t with
  | nil => exact ⟨t.debug, t.refuse, rfl⟩
  | cons i is ih =>
    rw [applyAddrs, Tracee.pokeAddr, Tracee.write]
    rcases t.refuse with _ | ⟨_ | _, rest⟩
    · exact ih _
    · exact ih _
    · exact ⟨t.debug, rest, rfl⟩

/-- Writing the debug registers is nothing to breakpoints. -/
lemma armed_wpApply (h : Armed code d) : Armed code (wpApply d).2 := by
  unfold wpApply
  split
  · obtain ⟨debug, refuse, hframe⟩ := applyAddrs_frame (List.finRange 4) d.s d.t
    generalize applyAddrs d.s (List.finRange 4) d.t = r at hframe ⊢
    obtain ⟨ok, t₁⟩ := r
    obtain rfl : t₁ = { d.t with debug, refuse } := hframe
    cases ok with
    | false => exact h.congr rfl rfl rfl rfl (.inl rfl)
    | true =>
      dsimp only [Tracee.pokeControl, Tracee.write]
      rcases refuse with _ | ⟨_ | _, rest⟩
      · exact h.congr rfl rfl rfl rfl (.inl rfl)
      · exact h.congr rfl rfl rfl rfl (.inl rfl)
      · exact h.congr rfl rfl rfl rfl (.inl rfl)
  · exact h

lemma armed_setWp (h : Armed code d) (slot : Fin 4) (w : Option Watch) : Armed code (setWp d slot w) :=
  h.congr rfl rfl rfl rfl (.inl rfl)

lemma armed_wpSet (h : Armed code d) (len rw : ℤ) : Armed code (wpSet d a len rw).2 := by
  unfold wpSet
  split
  · exact h
  split
  · exact h
  split
  · exact h
  cases freeSlot d.s with
  | none => exact h
  | some slot =>
    have happly := armed_wpApply (armed_setWp h slot (some ⟨a, len, rw⟩))
    dsimp only
    generalize wpApply (setWp d slot (some ⟨a, len, rw⟩)) = r at happly ⊢
    obtain ⟨ok, d₁⟩ := r
    cases ok with
    | false => exact armed_setWp happly slot none
    | true => exact happly

lemma armed_wpRemoveSlot (h : Armed code d) (slot : Fin 4) : Armed code (wpRemoveSlot d slot).2 := by
  unfold wpRemoveSlot
  split
  · exact h
  · dsimp only
    split
    · exact armed_wpApply ((armed_setWp h slot none).congr rfl rfl rfl rfl (.inr rfl))
    · exact armed_wpApply (armed_setWp h slot none)

lemma armed_wpRemoveAddr (h : Armed code d) : Armed code (wpRemoveAddr d a).2 := by
  unfold wpRemoveAddr
  split
  · exact armed_wpRemoveSlot h _
  · exact h

lemma armed_wpRemoveAll (h : Armed code d) : Armed code (wpRemoveAll d).2 := by
  have hclear : Armed code ({ d with s := { d.s with hwWps := fun _ => none, pendingHwExec := none } } : Debugger ρ) :=
    h.congr rfl rfl rfl rfl (.inr rfl)
  unfold wpRemoveAll
  dsimp only
  split
  · exact armed_wpApply hclear
  · exact hclear

/-- A process on a watched instruction is to ignore the watch once. -/
lemma armed_wpSetRf (h : Armed code d) (halive : d.s.alive = true) :
    ∃ d₁, wpSetRf d = (true, d₁) ∧ Armed code d₁ ∧ d₁.s.alive = true ∧ d₁.s.pendingHwExec = none ∧
      d₁.s.bps = d.s.bps ∧ d₁.s.pendingBp = d.s.pendingBp ∧ d₁.t.fetched = d.t.fetched ∧
        (d.s.pendingBp ≠ 0 → d₁ = d) := by
  cases hx : d.s.pendingHwExec with
  | none => exact ⟨d, wpSetRf_none hx, h, halive, hx, rfl, rfl, rfl, fun _ => rfl⟩
  | some slot =>
    refine ⟨{ s := { d.s with regs := d.t.regs.resume, regsValid := true, pendingHwExec := none }
              t := d.t.setRegs d.t.regs.resume }, ?_, ?_, halive, rfl, rfl, rfl, rfl, fun hne => ?_⟩
    · simp only [wpSetRf, hx, refreshRegs, halive, if_true]
    · exact h.congr rfl rfl rfl (Regs.rip_resume _) (.inr rfl)
    · rw [h.resumes hne] at hx
      cases hx

/-- The process is stepped off the breakpoint it is on. -/
lemma Armed.off (h : Armed code d) (hzero : code 0 = none) (halive : d.s.alive = true) (hne : d.s.pendingBp ≠ 0)
    (hcalm : Calm M d.t) : (resumeStepOverBp M d).1 = (resumeStepOverBp M d).2.s.alive ∧
      ((resumeStepOverBp M d).2.s.alive = true → Running code (resumeStepOverBp M d).2) := by
  obtain ⟨i, bp, hslot, hon, -⟩ := h.present hne
  obtain ⟨l, -, -, -, hok, hrun⟩ := h.leave hzero halive hslot hon hcalm
  exact ⟨hok, fun ha => (hrun ha).2⟩

lemma mem_steppedOff (hne : d.s.pendingBp ≠ 0) : (wpSetRf d).2.t ∈ steppedOff d := by
  rw [steppedOff, if_neg hne]
  rfl

lemma kept_cmdDs (h : Armed code d) (hzero : code 0 = none) (halive : d.s.alive = true) (hin : InStep d)
    (hoff : ∀ t ∈ steppedOff d, Calm M t)
    (honce : ∀ d₁ ∈ steppedOnce d .ds, Telling M d.s d₁.t ∧
      ∀ t ∈ steppedOffAtStop { d₁ with t := (M.singleStep d₁.t).2 } (M.singleStep d₁.t).1, Calm M t) :
    Kept code (cmdDs M d) := by
  have hin₁ : InStep (wpSetRf d).2 := hin.of_view (congrArg Prod.snd view_wpSetRf)
  obtain ⟨d₁, hrf, harmed, halive₁, hexec, hbps, hpending, -, -⟩ := armed_wpSetRf h halive
  have hmem := mem_steppedOff (d := d)
  rw [hrf] at hin₁ hmem
  unfold cmdDs
  rw [if_pos halive, hrf]
  dsimp only
  by_cases hne : d₁.s.pendingBp = 0
  · rw [if_neg (not_not.2 hne)]
    have hmem' : d₁ ∈ steppedOnce d .ds := by
      rw [steppedOnce, if_pos (hpending ▸ hne), hrf]
      rfl
    obtain ⟨htell, hcalm⟩ := honce d₁ hmem'
    have htell' : Telling M d₁.s d₁.t := fun sig e t' ht => by
      rw [Planted, hbps]
      exact htell sig e t' ht
    exact kept_stepOnce ⟨harmed, hne, hexec⟩ hzero halive₁ hin₁ htell' hcalm
  · rw [if_pos hne]
    obtain ⟨hok, hrun⟩ := harmed.off hzero halive₁ hne (hoff d₁.t (hmem (hpending ▸ hne)))
    generalize resumeStepOverBp M d₁ = r at hok hrun ⊢
    obtain ⟨ok, d₂⟩ := r
    cases ok with
    | false => exact fun ha => absurd (hok.trans ha) (by simp)
    | true => exact fun ha => ⟨(hrun ha).armed, fun hw => by cases hw⟩

lemma armed_refreshRegs (h : Armed code d) : Armed code (refreshRegs d).2 := by
  unfold refreshRegs
  split
  · exact h.congr rfl rfl rfl rfl (.inl rfl)
  · exact h.congr rfl rfl rfl rfl (.inl rfl)

/-- A breakpoint that is refused changes nothing. -/
lemma bpInsert_false (temporary : Bool) (h : (bpInsert d a temporary).1 = false) : (bpInsert d a temporary).2 = d := by
  unfold bpInsert at h ⊢
  split
  · rfl
  next hfind =>
    rw [if_neg hfind] at h
    cases halloc : bpAlloc d.s with
    | none => rfl
    | some i =>
      rw [halloc] at h
      dsimp only at h ⊢
      cases hpeek : d.t.peek a with
      | none => rfl
      | some word =>
        rw [hpeek] at h
        dsimp only at h ⊢
        cases hwrite : memWriteByte d a int3 with
        | none => rfl
        | some d' =>
          rw [hwrite] at h
          cases h

lemma bpInsert_pending (temporary : Bool) : (bpInsert d a temporary).2.s.pendingBp = d.s.pendingBp ∧
    (bpInsert d a temporary).2.s.pendingHwExec = d.s.pendingHwExec := by
  unfold bpInsert
  split
  · exact ⟨rfl, rfl⟩
  cases bpAlloc d.s with
  | none => exact ⟨rfl, rfl⟩
  | some i =>
    dsimp only
    cases d.t.peek a with
    | none => exact ⟨rfl, rfl⟩
    | some word =>
      dsimp only
      cases hwrite : memWriteByte d a int3 with
      | none => exact ⟨rfl, rfl⟩
      | some d' =>
        obtain ⟨-, rfl⟩ := memWriteByte_some hwrite
        exact ⟨rfl, rfl⟩

/-- What a way is taken in. -/
def WaySpec (code : BitVec 64 → Option UInt8) (d : Debugger ρ) : Way ρ → Prop
  | .fail d₁ => Armed code d₁
  | .off d₁ => Armed code d₁ ∧ d₁.s.pendingBp ≠ 0
  | .once d₁ => Running code d₁ ∧ d₁.s.bps = d.s.bps
  | .toNext _ d₁ => Running code d₁

lemma armed_dsoWay (h : Armed code d) (hzero : code 0 = none) (halive : d.s.alive = true) :
    WaySpec code d (dsoWay d) := by
  obtain ⟨d₁, hrf, harmed, -, hexec, hbps, -⟩ := armed_wpSetRf h halive
  unfold dsoWay
  rw [hrf]
  dsimp only
  generalize hfresh : (if d₁.s.regsValid = true then d₁ else (refreshRegs d₁).2) = d₂
  obtain ⟨harmed₂, hexec₂, hbps₂⟩ : Armed code d₂ ∧ d₂.s.pendingHwExec = none ∧ d₂.s.bps = d.s.bps := by
    rw [← hfresh]
    split
    · exact ⟨harmed, hexec, hbps⟩
    · refine ⟨armed_refreshRegs harmed, ?_, ?_⟩
      all_goals
        unfold refreshRegs
        split
      exacts [hexec, hexec, hbps, hbps]
  cases insnAt d₂ with
  | none => exact harmed₂
  | some insn =>
    dsimp only
    by_cases hne : d₂.s.pendingBp = 0
    · rw [if_neg (not_not.2 hne)]
      split
      · exact ⟨⟨harmed₂, hne, hexec₂⟩, hbps₂⟩
      generalize d₂.s.regs .rip + BitVec.ofInt 64 (callInsnLength insn) = nextPc
      have hfail := bpInsert_false (d := d₂) (a := nextPc) true
      obtain ⟨hpending, hexec₃⟩ := bpInsert_pending (d := d₂) (a := nextPc) true
      have hinsert := armed_bpInsert (a := nextPc) harmed₂ hzero true
      generalize bpInsert d₂ nextPc true = r at hfail hpending hexec₃ hinsert ⊢
      obtain ⟨ok, d₃⟩ := r
      cases ok with
      | false =>
        obtain rfl : d₃ = d₂ := hfail rfl
        exact ⟨⟨harmed₂, hne, hexec₂⟩, hbps₂⟩
      | true => exact ⟨hinsert, hpending.trans hne, hexec₃.trans hexec₂⟩
    · rw [if_pos hne]
      exact ⟨harmed₂, hne⟩

lemma kept_cmdDso (h : Armed code d) (hzero : code 0 = none) (halive : d.s.alive = true) (hin : InStep d)
    (hoff : ∀ t ∈ steppedOffFirst d .dso, Calm M t)
    (honce : ∀ d₁ ∈ steppedOnce d .dso, Telling M d.s d₁.t ∧
      ∀ t ∈ steppedOffAtStop { d₁ with t := (M.singleStep d₁.t).2 } (M.singleStep d₁.t).1, Calm M t) :
    Kept code (cmdDso M d).2 := by
  have hview := view_dsoWay (d := d)
  have hspec := armed_dsoWay h hzero halive
  unfold cmdDso
  rw [if_pos halive]
  rw [steppedOffFirst] at hoff
  rw [steppedOnce] at honce
  generalize dsoWay d = way at hview hspec hoff honce ⊢
  have hin₁ : InStep way.debugger := hin.of_view (congrArg Prod.snd hview)
  have halive₁ : way.debugger.s.alive = true := (alive_of_view hview).trans halive
  cases way with
  | fail d₁ => exact fun _ => ⟨hspec, fun hw => by cases hw⟩
  | off d₁ =>
    obtain ⟨harmed, hne⟩ := hspec
    obtain ⟨hok, hrun⟩ := harmed.off hzero halive₁ hne (hoff d₁.t rfl)
    dsimp only
    generalize resumeStepOverBp M d₁ = r at hok hrun ⊢
    obtain ⟨ok, d₂⟩ := r
    cases ok with
    | false => exact fun ha => absurd (hok.trans ha) (by simp)
    | true => exact fun ha => ⟨(hrun ha).armed, fun hw => by cases hw⟩
  | once d₁ =>
    obtain ⟨hrunning, hbps⟩ := hspec
    obtain ⟨htell, hcalm⟩ := honce d₁ rfl
    have htell' : Telling M d₁.s d₁.t := fun sig e t' ht => by
      rw [Planted, hbps]
      exact htell sig e t' ht
    exact kept_stepOnce hrunning hzero halive₁ hin₁ htell' hcalm
  | toNext nextPc d₁ =>
    have harmed : Armed code ({ d₁ with t := M.cont (deliver d₁.s) d₁.t } : Debugger ρ) :=
      hspec.armed.of_free hspec.pendingBp rfl hspec.pendingBp (text_cont _)
    exact fun _ => ⟨harmed, fun _ => ⟨harmed, hspec.pendingBp, hspec.pendingHwExec⟩⟩

/-- The end of a command. -/
lemma armed_finish (after : After) (ok : Bool) (h : d.s.alive = true → Armed code d)
    (halive : (finish after ok d).s.alive = true) : Armed code (finish after ok d) := by
  have harmed := h ((alive_of_view (view_finish after ok)).symm.trans halive)
  have hd : d.s.alive = true := (alive_of_view (view_finish after ok)).symm.trans halive
  cases after with
  | dc => exact harmed
  | ds =>
    dsimp only [finish]
    split
    · exact armed_refreshRegs harmed
    · exact harmed
  | dso nextPc =>
    dsimp only [finish]
    refine armed_refreshRegs ?_
    split
    · exact harmed
    · rw [if_pos hd]
      exact (armed_refreshRegs harmed).congr rfl rfl rfl rfl (.inl rfl)

end Commands

/-! ### Runs -/

section Runs

/-- **What an act has to meet** for breakpoints: the process is stepped off a breakpoint without being stopped, a
stop can be told from a breakpoint, and the counts are not at their end. -/
structure Undisturbed (M : Machine ρ) (st : State ρ) (act : Act ρ) : Prop where
  steady : Steady M st act
  telling : ∀ t ∈ observed st act, Telling M st.d.s t
  calm : ∀ t ∈ unobserved M st act, Calm M t
  counts : ∀ i bp, st.d.s.bps i = some bp → wrap (bp.hitCount + 1) = bp.hitCount + 1

/-- What the runs keep. -/
structure Ready (code : BitVec 64 → Option UInt8) (st : State ρ) : Prop where
  held : Held st
  armed : st.d.s.alive = true → Armed code st.d
  running : st.mode ≠ .prompt → Running code st.d

lemma Armed.refusing (h : Armed code d) : Armed code (refusing d refuse) := h.congr rfl rfl rfl rfl (.inl rfl)

lemma Running.refusing (h : Running code d) : Running code (refusing d refuse) :=
  ⟨h.armed.refusing, h.pendingBp, h.pendingHwExec⟩

lemma ready_settle {prompts : List (Option Report × Regs)} {after : After} {r : Next × Debugger ρ}
    (hheld : Held (settle prompts after r)) (h : Kept code r) : Ready code (settle prompts after r) := by
  obtain ⟨next, d⟩ := r
  cases next with
  | wait =>
    have halive : d.s.alive = true := hheld.2 (by simp [settle])
    exact ⟨hheld, fun ha => (h ha).1, fun _ => (h halive).2 rfl⟩
  | ret ok => exact ⟨hheld, armed_finish after ok fun ha => (h ha).1, fun hne => absurd rfl hne⟩

/-- A command at the prompt. -/
lemma kept_dispatch {c : Command} (hzero : code 0 = none) (hmode : st.mode = .prompt) (h : Ready code st)
    (halive : st.d.s.alive = true) (hact : Undisturbed M st (.command c refuse)) :
    Kept code (dispatch M (refusing st.d refuse) c).2 := by
  have hd : Armed code (refusing st.d refuse) := (h.armed halive).refusing
  have hin : InStep (refusing st.d refuse) := h.held.1.of_view rfl
  have hfirst : ∀ t ∈ steppedOffFirst (refusing st.d refuse) c, Calm M t := by
    intro t ht
    refine hact.calm t ?_
    rw [unobserved, if_pos ⟨hmode, halive⟩, Option.mem_def.1 ht]
    rfl
  have honce : ∀ d₁ ∈ steppedOnce (refusing st.d refuse) c, steppedOffFirst (refusing st.d refuse) c = none →
      Telling M (refusing st.d refuse).s d₁.t ∧
        ∀ t ∈ steppedOffAtStop { d₁ with t := (M.singleStep d₁.t).2 } (M.singleStep d₁.t).1, Calm M t := by
    intro d₁ hd₁ hnone
    refine ⟨hact.telling d₁.t ?_, fun t ht => hact.calm t ?_⟩
    · rw [observed, if_pos ⟨hmode, halive⟩, Option.mem_def.1 hd₁]
      rfl
    · rw [unobserved, if_pos ⟨hmode, halive⟩, hnone, Option.mem_def.1 hd₁]
      exact ht
  cases c with
  | db addr => exact fun _ => ⟨armed_bpInsert hd hzero false, fun hw => by cases hw⟩
  | dbRemove addr => exact fun _ => ⟨armed_bpRemove hd hzero halive, fun hw => by cases hw⟩
  | dbIgnore addr n =>
    refine fun _ => ⟨?_, fun hw => by cases hw⟩
    dsimp only [dispatch, cmdDbIgnore]
    split
    · exact hd
    · exact armed_onBp hd fun bp => ⟨rfl, rfl, rfl, rfl⟩
  | dbReset addr => exact fun _ => ⟨armed_onBp hd fun bp => ⟨rfl, rfl, rfl, rfl⟩, fun hw => by cases hw⟩
  | cond addr c =>
    refine fun _ => ⟨?_, fun hw => by cases hw⟩
    cases c with
    | none => exact armed_onBp hd fun bp => ⟨rfl, rfl, rfl, rfl⟩
    | some c =>
      dsimp only [dispatch, cmdCond]
      split
      · exact hd
      · exact armed_onBp hd fun bp => ⟨rfl, rfl, rfl, rfl⟩
  | dc => exact (cmdDc_spec hd hzero halive hfirst).1
  | ds =>
    refine kept_cmdDs hd hzero halive hin hfirst fun d₁ hd₁ => honce d₁ hd₁ ?_
    by_cases hzero : (refusing st.d refuse).s.pendingBp = 0
    · exact if_pos hzero
    · rw [steppedOnce, if_neg hzero] at hd₁
      cases hd₁
  | dso =>
    refine kept_cmdDso hd hzero halive hin hfirst fun d₁ hd₁ => honce d₁ hd₁ ?_
    rw [steppedOnce] at hd₁
    rw [steppedOffFirst]
    cases hway : dsoWay (refusing st.d refuse) with
    | off d₂ =>
      rw [hway] at hd₁
      cases hd₁
    | fail d₂ => rfl
    | once d₂ => rfl
    | toNext nextPc d₂ => rfl
  | watch addr len rw => exact fun _ => ⟨armed_wpSet hd len rw, fun hw => by cases hw⟩
  | watchRemoveSlot slot => exact fun _ => ⟨armed_wpRemoveSlot hd slot, fun hw => by cases hw⟩
  | watchRemoveAddr addr => exact fun _ => ⟨armed_wpRemoveAddr hd, fun hw => by cases hw⟩
  | watchRemoveAll => exact fun _ => ⟨armed_wpRemoveAll hd, fun hw => by cases hw⟩

/-- What comes of a tick that stops the process. -/
lemma handleStop_step (hzero : code 0 = none) (h : Ready code st) (hmode : st.mode ≠ .prompt)
    (hact : Undisturbed M st (.tick refuse)) (htick : M.tick (refusing st.d refuse).t = .stop status t) :
    Kept code (handleStop M { st.d with t } status) ∧
      Effect (refusing st.d refuse) (handleStop M { st.d with t } status) := by
  have hrunning : Running code (refusing st.d refuse) := (h.running hmode).refusing
  refine handleStop_tick hrunning hzero (h.held.2 hmode) (h.held.1.of_view rfl) htick ?_ fun u hu => ?_
  · exact hact.telling _ (by rw [observed, if_neg hmode]; rfl)
  · refine hact.calm u ?_
    rw [unobserved, if_neg hmode, htick]
    exact hu

/-- **One act** leaves the breakpoints ready. -/
lemma ready_step (hzero : code 0 = none) (h : Ready code st) (hact : Undisturbed M st act) :
    Ready code (step M st act) := by
  have hheld := held_step h.held hact.steady
  cases act with
  | command c refuse =>
    dsimp only [step] at hheld ⊢
    split
    next hprompt =>
      rw [if_pos hprompt] at hheld
      exact ready_settle hheld (kept_dispatch hzero hprompt.1 h hprompt.2 hact)
    next => exact h
  | tick refuse =>
    cases hmode : st.mode with
    | prompt =>
      simp only [step, hmode]
      exact h
    | waiting after =>
      have hne : st.mode ≠ .prompt := by simp [hmode]
      cases htick : M.tick (refusing st.d refuse).t with
      | ran t =>
        simp only [step, hmode, htick] at hheld ⊢
        have hrunning := h.running hne
        have hran : Running code ({ st.d with t } : Debugger ρ) := by
          obtain ⟨-, -, -, regs, world, accesses, -, -, rfl⟩ := Machine.tick_eq_ran.1 htick
          exact ⟨hrunning.armed.of_free hrunning.pendingBp rfl hrunning.pendingBp rfl, hrunning.pendingBp,
            hrunning.pendingHwExec⟩
        exact ⟨hheld, fun _ => hran.armed, fun _ => hran⟩
      | stop status t =>
        simp only [step, hmode, htick] at hheld ⊢
        exact ready_settle hheld (handleStop_step hzero h hne hact htick).1
  | world world =>
    refine ⟨hheld, fun ha => (h.armed ha).congr rfl rfl rfl rfl (.inl rfl), fun hne => ?_⟩
    have hrunning := h.running hne
    exact ⟨hrunning.armed.congr rfl rfl rfl rfl (.inl rfl), hrunning.pendingBp, hrunning.pendingHwExec⟩

/-- An act of a run of continues: `dc` is the only command. -/
def Resumes : Act ρ → Prop
  | .command c _ => c = .dc
  | _ => True

/-- The command that a run of continues waits in. -/
def Continuing (st : State ρ) : Prop := st.mode = .prompt ∨ st.mode = .waiting .dc

/-- One act of a run of continues. -/
inductive Turn (st : State ρ) : State ρ → Prop
  | rest {st' : State ρ} (prompts : st'.prompts = st.prompts) (bps : st'.d.s.bps = st.d.s.bps)
      (pending : st'.d.s.pendingBp = st.d.s.pendingBp) (alive : st'.d.s.alive = st.d.s.alive)
      (fetched : st'.d.t.fetched = st.d.t.fetched) (regs : st'.d.t.regs = st.d.t.regs) : Turn st st'
  | effect (r : Next × Debugger ρ) (alive : st.d.s.alive = true) (effect : Effect st.d r) :
      Turn st (settle st.prompts .dc r)

lemma Effect.of_refusing {r : Next × Debugger ρ} (h : Effect (refusing d refuse) r) : Effect d r := by
  cases h with
  | quiet l free fetched bare bps off report => exact .quiet l free fetched bare bps off report
  | here i bp slot effect =>
    refine .here i bp slot ?_
    cases effect with
    | leave l on fetched ran bps run => exact .leave l on fetched ran bps run
    | temp free temporary on fetched bps off next alive regs report =>
      exact .temp free temporary on fetched bps off next alive regs report
    | hold free temporary on fetched cond ignore bps held next alive regs report =>
      exact .hold free temporary on fetched cond ignore bps held next alive regs report
    | pass l n free temporary on fetched ran ignore bps run =>
      exact .pass l n free temporary on fetched ran ignore bps run

lemma continuing_settle (prompts : List (Option Report × Regs)) (r : Next × Debugger ρ) :
    Continuing (settle prompts .dc r) := by
  obtain ⟨next, d⟩ := r
  cases next with
  | wait => exact .inr rfl
  | ret ok => exact .inl rfl

lemma turn_step (hzero : code 0 = none) (h : Ready code st) (hcont : Continuing st) (hact : Undisturbed M st act)
    (hres : Resumes act) : Turn st (step M st act) ∧ Continuing (step M st act) := by
  cases act with
  | command c refuse =>
    obtain rfl : c = .dc := hres
    dsimp only [step]
    split
    next hprompt =>
      have hd : Armed code (refusing st.d refuse) := (h.armed hprompt.2).refusing
      refine ⟨.effect _ hprompt.2 (cmdDc_spec hd hzero hprompt.2 fun u hu => hact.calm u ?_).2.of_refusing,
        continuing_settle _ _⟩
      rw [unobserved, if_pos hprompt, steppedOffFirst, Option.mem_def.1 hu]
      rfl
    next => exact ⟨.rest rfl rfl rfl rfl rfl rfl, hcont⟩
  | tick refuse =>
    rcases hcont with hmode | hmode
    · simp only [step, hmode]
      exact ⟨.rest rfl rfl rfl rfl rfl rfl, .inl hmode⟩
    · have hne : st.mode ≠ .prompt := by simp [hmode]
      have hrunning := h.running hne
      simp only [step, hmode]
      cases htick : M.tick (refusing st.d refuse).t with
      | ran t =>
        obtain ⟨-, -, hbare, regs, world, accesses, -, -, rfl⟩ := Machine.tick_eq_ran.1 htick
        have hturn : Turn st (settle st.prompts .dc (.wait, { st.d with t := (refusing st.d refuse).t.ran regs world })) := by
          refine .effect _ (h.held.2 hne) (.quiet [.insn st.d.t.regs] hrunning.pendingBp rfl ?_ rfl
            hrunning.pendingBp fun hw => absurd rfl hw)
          intro f hf
          rw [List.mem_singleton.1 hf]
          exact hrunning.armed.bare hbare
        exact ⟨hturn, .inr rfl⟩
      | stop status t =>
        exact ⟨.effect _ (h.held.2 hne) (handleStop_step hzero h hne hact htick).2.of_refusing, continuing_settle _ _⟩
  | world world => exact ⟨.rest rfl rfl rfl rfl rfl rfl, hcont⟩

/-! ### A breakpoint as a place -/

section Place

/-- What is known of the breakpoint in a slot, as one for an address. -/
def tally (a : BitVec 64) (i : Fin 64) (st : State ρ) : Tally Regs where
  trapped := trapsAt a st.d.t
  passed := runsAt a st.d.t
  held := heldAt a st.d
  stopped := promptsOf (.hit a) st
  count := ((st.d.s.bps i).map Bp.hitCount).getD 0
  ignore := ((st.d.s.bps i).map Bp.ignoreCount).getD 0
  alive := st.d.s.alive

/-- A slot has a breakpoint that is not temporary, for an address and with a condition. -/
def Marked (a : BitVec 64) (i : Fin 64) (c : Option Cond) (st : State ρ) : Prop :=
  ∃ bp, st.d.s.bps i = some bp ∧ bp.addr = a ∧ bp.temporary = false ∧ bp.cond = c

variable {prompts : List (Option Report × Regs)} {r : Next × Debugger ρ} {l : List Fetch} {x : Report}

lemma settle_d : (settle prompts .dc r).d = r.2 := by
  obtain ⟨next, d⟩ := r
  cases next <;> rfl

/-- No prompt, or one that another report led to. -/
lemma promptsOf_settle (h : r.1 ≠ .wait → r.2.s.alive = true → r.2.s.out.getLast? ≠ some x) :
    promptsOf x (settle st.prompts .dc r) = promptsOf x st := by
  obtain ⟨next, d⟩ := r
  cases next with
  | wait => rfl
  | ret ok =>
    by_cases halive : d.s.alive = true
    · have hne : d.s.out.getLast? ≠ some x := h (by simp) halive
      simp [promptsOf, settle, finish, halive, hne]
    · simp [promptsOf, settle, finish, halive]

/-- A prompt that a report led to. -/
lemma promptsOf_settle_self (hnext : r.1 = .ret true) (halive : r.2.s.alive = true)
    (hout : r.2.s.out.getLast? = some x) :
    promptsOf x (settle st.prompts .dc r) = promptsOf x st ++ [r.2.t.regs] := by
  obtain ⟨next, d⟩ := r
  obtain rfl : next = .ret true := hnext
  have halive' : d.s.alive = true := halive
  have hout' : d.s.out.getLast? = some x := hout
  simp [promptsOf, settle, finish, halive', hout']

lemma trapsAt_append (h : t'.fetched = t.fetched ++ l) : trapsAt a t' = trapsAt a t ++ l.filterMap (Fetch.trapAt a) := by
  rw [trapsAt, h, List.filterMap_append, trapsAt]

lemma runsAt_append (h : t'.fetched = t.fetched ++ l) : runsAt a t' = runsAt a t ++ l.filterMap (Fetch.insnAt a) := by
  rw [runsAt, h, List.filterMap_append, runsAt]

/-- Nothing fetched at an address. -/
lemma fetched_elsewhere (t t' : Tracee ρ) (h : t'.fetched = t.fetched ++ l) (hl : ∀ f ∈ l, Fetch.regs f .rip ≠ a) :
    trapsAt a t' = trapsAt a t ∧ runsAt a t' = runsAt a t := by
  rw [trapsAt_append h, runsAt_append h]
  have htrap : l.filterMap (Fetch.trapAt a) = [] := by
    rw [List.filterMap_eq_nil_iff]
    intro f hf
    cases f with
    | int3 r => exact if_neg (hl _ hf)
    | insn r => rfl
  have hrun : l.filterMap (Fetch.insnAt a) = [] := by
    rw [List.filterMap_eq_nil_iff]
    intro f hf
    cases f with
    | int3 r => rfl
    | insn r => exact if_neg (hl _ hf)
  rw [htrap, hrun, List.append_nil, List.append_nil]
  exact ⟨rfl, rfl⟩

lemma heldAt_of_ne (h : d.s.pendingBp ≠ a) : heldAt a d = [] := if_neg h

lemma heldAt_of_eq (h : d.s.pendingBp = a) : heldAt a d = [d.t.regs] := if_pos h

lemma tally_settle : tally a i (settle prompts .dc r) =
    { trapped := trapsAt a r.2.t
      passed := runsAt a r.2.t
      held := heldAt a r.2
      stopped := promptsOf (.hit a) (settle prompts .dc r)
      count := ((r.2.s.bps i).map Bp.hitCount).getD 0
      ignore := ((r.2.s.bps i).map Bp.ignoreCount).getD 0
      alive := r.2.s.alive } := by
  simp only [tally, settle_d]

lemma marked_settle {c : Option Cond} : Marked a i c (settle prompts .dc r) ↔
    ∃ bp, r.2.s.bps i = some bp ∧ bp.addr = a ∧ bp.temporary = false ∧ bp.cond = c := by
  simp only [Marked, settle_d]

/-- Nothing at the breakpoint in a slot. -/
structure Elsewhere (d : Debugger ρ) (i : Fin 64) (a : BitVec 64) (r : Next × Debugger ρ) : Prop where
  fetched : ∃ l, r.2.t.fetched = d.t.fetched ++ l ∧ ∀ f ∈ l, Fetch.regs f .rip ≠ a
  slot : r.2.s.bps i = d.s.bps i
  before : d.s.pendingBp ≠ a
  after : r.2.s.alive = true → r.2.s.pendingBp ≠ a
  report : r.1 ≠ .wait → r.2.s.alive = true →
    r.2.s.out.getLast? ≠ some (.hit a) ∧ r.2.s.out.getLast? ≠ some (.hitTemp a)

/-- What an act comes to at one breakpoint: nothing, or what is at this one. -/
lemma Effect.at_slot (hzero : code 0 = none) (h : Armed code d) (hslot : d.s.bps i = some bp) (heff : Effect d r) :
    Elsewhere d i bp.addr r ∨ EffectAt d i bp r := by
  have hne : bp.addr ≠ 0 := h.table.addr_ne hzero hslot
  have hoff : ∀ x : BitVec 64, x = 0 → x ≠ bp.addr := fun x h0 heq => hne (heq.symm.trans h0)
  cases heff with
  | quiet l free fetched bare bps off report =>
    have hplanted : Planted d.s bp.addr := h.planted hzero free hslot
    refine .inl ⟨⟨l, fetched, fun f hf heq => bare f hf (heq ▸ hplanted)⟩, congrFun bps i, hoff _ free,
      fun _ => hoff _ off, fun hw ha => ⟨fun hout => ?_, fun hout => ?_⟩⟩
    · exact absurd (report hw ha _ hout) (by simp [Report.ofBp])
    · exact absurd (report hw ha _ hout) (by simp [Report.ofBp])
  | here k b slot effect =>
    by_cases hki : k = i
    · subst hki
      obtain rfl : b = bp := Option.some.inj (slot.symm.trans hslot)
      exact .inr effect
    -- another breakpoint is at another address
    have hother : b.addr ≠ bp.addr := fun heq => hki (h.table.distinct k i b bp slot hslot heq)
    have hsame : ∀ x : Option Bp, Function.update d.s.bps k x i = d.s.bps i := fun x =>
      Function.update_of_ne (Ne.symm hki) ..
    have helse : ∀ l : List Fetch, (∀ f ∈ l, Fetch.regs f = d.t.regs) → d.t.regs .rip = b.addr →
        ∀ f ∈ l, Fetch.regs f .rip ≠ bp.addr := by
      intro l hl hrip f hf heq
      rw [hl f hf, hrip] at heq
      exact hother heq
    left
    cases effect with
    | leave l on fetched ran bps run =>
      obtain ⟨ins, hbps⟩ := bps
      have hrip : d.t.regs .rip = b.addr := (h.reached (on ▸ h.table.addr_ne hzero slot)).trans on.symm
      refine ⟨⟨l, fetched, helse l ?_ hrip⟩, by rw [hbps, hsame], fun heq => hother (on.trans heq),
        fun ha => hoff _ (run ha).2.2, fun hw ha => absurd (run ha).1 hw⟩
      rcases ran with rfl | rfl <;> simp [Fetch.regs]
    | temp free temporary on fetched bps off next alive regs report =>
      refine ⟨⟨_, fetched, helse _ (by simp [Fetch.regs]) on⟩, by rw [bps, hsame], hoff _ free, fun _ => hoff _ off,
        fun _ _ => ?_⟩
      rw [report]
      simpa using hother
    | hold free temporary on fetched cond ignore bps held next alive regs report =>
      refine ⟨⟨_, fetched, helse _ (by simp [Fetch.regs]) on⟩, by rw [bps, hsame], hoff _ free,
        fun _ heq => hother (held.symm.trans heq), fun _ _ => ?_⟩
      rw [report]
      simpa using hother
    | pass l n free temporary on fetched ran ignore bps run =>
      obtain ⟨ins, hbps⟩ := bps
      refine ⟨⟨_, fetched, helse _ ?_ on⟩, by rw [hbps, hsame], hoff _ free,
        fun ha => hoff _ (run ha).2.2, fun hw ha => absurd (run ha).1 hw⟩
      rcases ran with rfl | rfl <;> simp [Fetch.regs]

/-- **What an act is to a breakpoint**: a step of its tally. -/
lemma tally_effect {c : Option Cond} (hzero : code 0 = none) (h : Armed code st.d) (halive : st.d.s.alive = true)
    (hcounts : ∀ i bp, st.d.s.bps i = some bp → wrap (bp.hitCount + 1) = bp.hitCount + 1)
    (hmark : Marked a i c st) (heff : Effect st.d r) :
    Tally.Step (· + 1) (bpCondTrue · c) (tally a i st) (tally a i (settle st.prompts .dc r)) ∧
      Marked a i c (settle st.prompts .dc r) := by
  obtain ⟨bp, hslot, rfl, htemp, rfl⟩ := id hmark
  have hoff : ∀ x : BitVec 64, x = 0 → x ≠ bp.addr := fun x h0 heq =>
    h.table.addr_ne hzero hslot (heq.symm.trans h0)
  have hcount : (tally bp.addr i st).count = bp.hitCount := by simp [tally, hslot]
  have hignore : (tally bp.addr i st).ignore = bp.ignoreCount := by simp [tally, hslot]
  rw [tally_settle, marked_settle]
  rcases heff.at_slot hzero h hslot with ⟨⟨l, hfetched, hl⟩, hsame, hbefore, hafter, hreport⟩ | heff
  · obtain ⟨htraps, hruns⟩ := fetched_elsewhere _ _ hfetched hl
    rw [hsame]
    refine ⟨.rest htraps (promptsOf_settle fun hw ha => (hreport hw ha).1) rfl rfl fun ha => ⟨halive, hruns, ?_⟩, hmark⟩
    exact (heldAt_of_ne (hafter ha)).trans (heldAt_of_ne hbefore).symm
  cases heff with
  | leave l on fetched ran bps run =>
    obtain ⟨ins, hbps⟩ := bps
    have hrip : st.d.t.regs .rip = bp.addr := (h.reached (on ▸ h.table.addr_ne hzero hslot)).trans on.symm
    rw [hbps, Function.update_self]
    refine ⟨.leave ?_ (promptsOf_settle fun hw ha => absurd (run ha).1 hw) hcount.symm hignore.symm fun ha => ?_,
      _, rfl, rfl, htemp, rfl⟩
    · show trapsAt bp.addr r.2.t = trapsAt bp.addr st.d.t
      rw [trapsAt_append fetched]
      rcases ran with rfl | rfl <;> simp [Fetch.trapAt]
    · obtain ⟨-, rfl, hend⟩ := run ha
      refine ⟨halive, ?_, heldAt_of_ne (hoff _ hend)⟩
      show runsAt bp.addr r.2.t = runsAt bp.addr st.d.t ++ heldAt bp.addr st.d
      rw [runsAt_append fetched, heldAt_of_eq on.symm]
      simp [Fetch.insnAt, hrip]
  | temp free temporary on fetched bps off next ha regs report =>
    rw [htemp] at temporary
    cases temporary
  | hold free temporary on fetched cond ignore bps held next ha regs report =>
    rw [bps, Function.update_self]
    refine ⟨.hold st.d.t.regs (heldAt_of_ne (hoff _ free)) ?_ ?_ ?_ ⟨cond, ?_, hignore.symm⟩ fun _ => ⟨halive, ?_, ?_⟩,
      _, rfl, rfl, htemp, rfl⟩
    · show trapsAt bp.addr r.2.t = trapsAt bp.addr st.d.t ++ [st.d.t.regs]
      rw [trapsAt_append fetched]
      simp [Fetch.trapAt, on]
    · show promptsOf (.hit bp.addr) _ = promptsOf (.hit bp.addr) st ++ [st.d.t.regs]
      rw [promptsOf_settle_self next ha report, regs]
    · show wrap (bp.hitCount + 1) = (tally bp.addr i st).count + 1
      rw [hcount, hcounts i bp hslot]
    · rw [hignore]
      exact ignore
    · show runsAt bp.addr r.2.t = runsAt bp.addr st.d.t
      rw [runsAt_append fetched]
      simp [Fetch.insnAt]
    · show heldAt bp.addr r.2 = [st.d.t.regs]
      rw [heldAt_of_eq held, regs]
  | pass l n free temporary on fetched ran ignore bps run =>
    obtain ⟨ins, hbps⟩ := bps
    rw [hbps, Function.update_self]
    refine ⟨.pass st.d.t.regs (heldAt_of_ne (hoff _ free)) ?_
      (promptsOf_settle fun hw ha => absurd (run ha).1 hw) ?_ ?_ fun ha => ?_, _, rfl, rfl, htemp, rfl⟩
    · show trapsAt bp.addr r.2.t = trapsAt bp.addr st.d.t ++ [st.d.t.regs]
      rw [trapsAt_append fetched]
      rcases ran with rfl | rfl <;> simp [Fetch.trapAt, on]
    · show wrap (bp.hitCount + 1) = (tally bp.addr i st).count + 1
      rw [hcount, hcounts i bp hslot]
    · rw [hignore]
      exact ignore
    · obtain ⟨-, rfl, hend⟩ := run ha
      refine ⟨halive, ?_, heldAt_of_ne (hoff _ hend)⟩
      show runsAt bp.addr r.2.t = runsAt bp.addr st.d.t ++ [st.d.t.regs]
      rw [runsAt_append fetched]
      simp [List.filterMap_cons, Fetch.insnAt, on]

lemma tally_turn {c : Option Cond} (hzero : code 0 = none) (h : Ready code st)
    (hcounts : ∀ i bp, st.d.s.bps i = some bp → wrap (bp.hitCount + 1) = bp.hitCount + 1)
    (hmark : Marked a i c st) {st' : State ρ} (hturn : Turn st st') :
    Tally.Step (· + 1) (bpCondTrue · c) (tally a i st) (tally a i st') ∧ Marked a i c st' := by
  cases hturn with
  | rest prompts bps pending alive fetched regs =>
    obtain ⟨htraps, hruns⟩ := fetched_elsewhere (a := a) (l := []) st.d.t st'.d.t (by simpa using fetched)
      (by simp)
    have hheld : heldAt a st'.d = heldAt a st.d := by rw [heldAt, heldAt, pending, regs]
    refine ⟨.rest htraps ?_ ?_ ?_ fun ha => ⟨alive.symm.trans ha, hruns, hheld⟩, ?_⟩
    · simp only [tally, promptsOf, prompts]
    · simp only [tally, bps]
    · simp only [tally, bps]
    · rwa [Marked, bps]
  | effect r halive heff => exact tally_effect hzero (h.armed halive) halive hcounts hmark heff

/-- **A run of continues** is a run of tally steps. -/
lemma tally_run {c : Option Cond} {acts : List (Act ρ)} (hzero : code 0 = none) (h : Ready code st)
    (hcont : Continuing st) (hmark : Marked a i c st) (hrun : AtEach (step M) (Undisturbed M) st acts)
    (hres : ∀ act ∈ acts, Resumes act) :
    Relation.ReflTransGen (Tally.Step (· + 1) (bpCondTrue · c)) (tally a i st)
        (tally a i (acts.foldl (step M) st)) ∧
      Ready code (acts.foldl (step M) st) ∧ Marked a i c (acts.foldl (step M) st) := by
  induction acts generalizing st with
  | nil => exact ⟨.refl, h, hmark⟩
  | cons act acts ih =>
    obtain ⟨hact, hacts⟩ := hrun
    obtain ⟨hturn, hcont'⟩ := turn_step hzero h hcont hact (hres act List.mem_cons_self)
    obtain ⟨hstep, hmark'⟩ := tally_turn hzero h hact.counts hmark hturn
    obtain ⟨hsteps, hend⟩ := ih (ready_step hzero h hact) hcont' hmark' hacts
      fun act' hact' => hres act' (List.mem_cons_of_mem _ hact')
    exact ⟨hsteps.head hstep, hend⟩

end Place

/-! ### The law -/

section Law

/-- The start of a session: no breakpoint either, and the zero page is not mapped. -/
structure Begun (st : State ρ) : Prop extends Fresh st where
  bps : ∀ i, st.d.s.bps i = none
  pendingBp : st.d.s.pendingBp = 0
  pendingHwExec : st.d.s.pendingHwExec = none
  zero : st.d.t.text 0 = none

lemma Begun.ready (h : Begun st) : Ready st.d.t.text st where
  held := h.toFresh.held
  armed _ :=
    { table :=
        { distinct := fun i j bp bp' hi => by rw [h.bps i] at hi; cases hi
          planted := fun x ⟨i, bp, hi, _⟩ => by rw [h.bps i] at hi; cases hi
          bare := fun _ _ => rfl
          shadow := fun i bp hi => by rw [h.bps i] at hi; cases hi
          mapped := fun i bp hi => by rw [h.bps i] at hi; cases hi }
      lifted := fun i bp hi => by rw [h.bps i] at hi; cases hi
      present := fun hne => absurd h.pendingBp hne
      reached := fun hne => absurd h.pendingBp hne
      resumes := fun _ => h.pendingHwExec }
  running hne := absurd h.mode hne

/-- A state that a session comes to by acts that meet the condition. -/
def Reached (M : Machine ρ) (st : State ρ) : Prop :=
  ∃ st₀ acts, Begun st₀ ∧ AtEach (step M) (Undisturbed M) st₀ acts ∧ acts.foldl (step M) st₀ = st

lemma ready_run {acts : List (Act ρ)} (hzero : code 0 = none) (h : Ready code st)
    (hrun : AtEach (step M) (Undisturbed M) st acts) : Ready code (acts.foldl (step M) st) := by
  induction acts generalizing st with
  | nil => exact h
  | cons act acts ih => exact ih (ready_step hzero h hrun.1) hrun.2

lemma Reached.ready (h : Reached M st) : ∃ code, code 0 = none ∧ Ready code st := by
  obtain ⟨st₀, acts, hbegun, hrun, rfl⟩ := h
  exact ⟨st₀.d.t.text, hbegun.zero, ready_run hbegun.zero hbegun.ready hrun⟩

/-- The register of a condition is known, and so it is once its name is cut to seven bytes. -/
def Known (c : Option Cond) : Prop := ∀ k ∈ c, ∃ r, regLookup k.reg = some r ∧ r ≠ .orig_rax

/-- **What a breakpoint stops** in a run of continues, by its hits: the user gets a prompt at those whose condition
holds once the first `n` of these are over, all are counted, and the breakpoint is armed for the next. -/
structure HitLaw (a : BitVec 64) (i : Fin 64) (c : Option Cond) (n : ℕ) (st st' : State ρ) (hits : List Regs) :
    Prop where
  traps : trapsAt a st'.d.t = trapsAt a st.d.t ++ hits
  prompts : promptsOf (.hit a) st' = promptsOf (.hit a) st ++ (hits.filter (bpCondTrue · c)).drop n
  counts : ∃ bp bp', st.d.s.bps i = some bp ∧ st'.d.s.bps i = some bp' ∧ bp'.hitCount = bp.hitCount + hits.length
  armed : st'.d.s.alive = true → ∃ passed, runsAt a st'.d.t = runsAt a st.d.t ++ passed ∧
    heldAt a st.d ++ hits = passed ++ heldAt a st'.d ∧ (heldAt a st'.d = [] → st'.d.t.text a = some int3)

/-- **A temporary breakpoint** stops the process the first time it comes there, and is gone then. -/
structure TempLaw (a : BitVec 64) (i : Fin 64) (byte : UInt8) (st st' : State ρ) (hits : List Regs) : Prop where
  traps : trapsAt a st'.d.t = trapsAt a st.d.t ++ hits
  prompts : promptsOf (.hitTemp a) st' = promptsOf (.hitTemp a) st ++ hits.take 1
  before : hits = [] → runsAt a st'.d.t = runsAt a st.d.t ∧ (bpFind st'.d.s a).isSome ∧
    (st'.d.s.alive = true → st'.d.t.text a = some int3)
  gone : hits ≠ [] → bpFind st'.d.s a = none ∧ (st'.d.s.alive = true → st'.d.t.text a = some byte)

lemma length_of_regLookup {name : Bytes} {r : Reg} (h : regLookup name = some r) (hne : r ≠ .orig_rax) :
    name.length ≤ 7 := by
  obtain ⟨e, hfind, rfl⟩ := Option.map_eq_some_iff.1 h
  have hshort : ∀ e ∈ regTable, e.2 = .orig_rax ∨ e.1.length ≤ 7 := by decide
  have hname : e.1.map Json.toLower = name.map Json.toLower := by simpa using List.find?_some hfind
  have hlen : e.1.length = name.length := by simpa using congrArg List.length hname
  rw [← hlen]
  exact (hshort e (List.mem_of_find?_eq_some hfind)).resolve_left hne

/-- The name of a register that is known is kept whole. -/
lemma take_of_known {c : Option Cond} (h : Known c) : (c.map fun k => { k with reg := k.reg.take 7 }) = c := by
  cases c with
  | none => rfl
  | some k =>
    obtain ⟨r, hlookup, hne⟩ := h k rfl
    rw [Option.map_some, List.take_of_length_le (length_of_regLookup hlookup hne)]

lemma onBp_eq {f : Bp → Bp} (h : Distinct d.s) (hslot : d.s.bps i = some bp) :
    onBp d bp.addr f = d.setBp i (some (f bp)) := by
  rw [onBp, h.bpFind_eq hslot]

/-- A condition is set. -/
lemma marked_cond {c : Option Cond} (refuse : List Bool) (h : Distinct st.d.s) (hmode : st.mode = .prompt) (halive : st.d.s.alive = true)
    (hslot : st.d.s.bps i = some bp) (htemp : bp.temporary = false) (hknown : Known c) :
    Marked bp.addr i c (step M st (.command (.cond bp.addr c) refuse)) ∧
      (step M st (.command (.cond bp.addr c) refuse)).mode = .prompt := by
  have hset : cmdCond (refusing st.d refuse) bp.addr c =
      (refusing st.d refuse).setBp i (some { bp with cond := c.map fun k => { k with reg := k.reg.take 7 } }) := by
    cases c with
    | none => exact onBp_eq (d := refusing st.d refuse) h hslot
    | some k =>
      obtain ⟨r, hlookup, -⟩ := hknown k rfl
      have hsome : ¬ (regLookup k.reg).isNone = true := by simp [hlookup]
      rw [cmdCond, if_neg hsome]
      exact onBp_eq (d := refusing st.d refuse) h hslot
  simp only [step, hmode, halive, and_self, if_true, dispatch, hset, take_of_known hknown]
  exact ⟨⟨_, Function.update_self .., rfl, htemp, rfl⟩, rfl⟩

lemma wrap_natCast {n : ℕ} (h : n < 2 ^ 31) : wrap n = n := by
  unfold wrap
  rw [Int.bmod_eq_of_le]
  · omega
  · omega

/-- The number of hits to ignore is set. -/
lemma marked_ignore {c : Option Cond} {n : ℕ} (refuse : List Bool) (h : Distinct st.d.s) (hmode : st.mode = .prompt)
    (halive : st.d.s.alive = true) (hmark : Marked a i c st) (hn : n < 2 ^ 31) :
    Marked a i c (step M st (.command (.dbIgnore a n) refuse)) ∧
      (step M st (.command (.dbIgnore a n) refuse)).mode = .prompt ∧
        (tally a i (step M st (.command (.dbIgnore a n) refuse))).ignore = n := by
  obtain ⟨bp, hslot, rfl, htemp, hcond⟩ := hmark
  have hset : cmdDbIgnore (refusing st.d refuse) bp.addr n =
      (refusing st.d refuse).setBp i (some { bp with ignoreCount := n }) := by
    rw [cmdDbIgnore, if_neg (by omega), wrap_natCast hn]
    exact onBp_eq (d := refusing st.d refuse) h hslot
  simp only [step, hmode, halive, and_self, if_true, dispatch, hset]
  refine ⟨⟨_, Function.update_self .., rfl, htemp, hcond⟩, rfl, ?_⟩
  simp [tally, settle, finish, Debugger.setBp]

/-- The tally's law says what the breakpoint stops. -/
lemma hitLaw_of_law {c : Option Cond} {n : ℕ} {st' : State ρ} (hready : Ready code st')
    (hmark : Marked a i c st) (hmark' : Marked a i c st')
    (h : Tally.Law (· + 1) (bpCondTrue · c) n (tally a i st) (tally a i st')) : ∃ hits, HitLaw a i c n st st' hits := by
  obtain ⟨hits, htraps, hstops, hcount, -, hrun⟩ := h
  obtain ⟨bp, hslot, -⟩ := hmark
  obtain ⟨bp', hslot', rfl, -⟩ := hmark'
  refine ⟨hits, htraps, hstops, ⟨bp, bp', hslot, hslot', ?_⟩, fun ha => ?_⟩
  · simpa [tally, hslot, hslot', add_right_iterate] using hcount
  · obtain ⟨-, passed, hpassed, hhits⟩ := hrun ha
    refine ⟨passed, hpassed, hhits, fun hfree => ?_⟩
    have harmed := hready.armed ha
    have hins : bp'.inserted = true := by
      by_contra hins
      have hon := (harmed.lifted i bp' hslot').1 (by simpa using hins)
      rw [heldAt_of_eq hon.symm] at hfree
      cases hfree
    rw [harmed.table.text_eq hslot', hins, if_pos rfl]

/-! ### A temporary breakpoint -/

/-- A slot has a temporary breakpoint for an address. -/
def Temp (a : BitVec 64) (i : Fin 64) (st : State ρ) : Prop :=
  ∃ bp, st.d.s.bps i = some bp ∧ bp.addr = a ∧ bp.temporary = true

/-- There is no breakpoint for an address. -/
def Gone (a : BitVec 64) (st : State ρ) : Prop := ∀ k b, st.d.s.bps k = some b → b.addr ≠ a

variable {st' : State ρ}

/-- Until the process comes there nothing happens to it. -/
lemma temp_turn (hzero : code 0 = none) (h : Ready code st) (htemp : Temp a i st) (hturn : Turn st st') :
    (trapsAt a st'.d.t = trapsAt a st.d.t ∧ runsAt a st'.d.t = runsAt a st.d.t ∧
        promptsOf (.hitTemp a) st' = promptsOf (.hitTemp a) st ∧ Temp a i st') ∨
      ∃ r, trapsAt a st'.d.t = trapsAt a st.d.t ++ [r] ∧
        promptsOf (.hitTemp a) st' = promptsOf (.hitTemp a) st ++ [r] ∧ Gone a st' := by
  obtain ⟨bp, hslot, rfl, htemporary⟩ := htemp
  cases hturn with
  | rest prompts bps pending alive fetched regs =>
    obtain ⟨htraps, hruns⟩ := fetched_elsewhere (a := bp.addr) (l := []) st.d.t st'.d.t
      (by simpa using fetched) (by simp)
    refine .inl ⟨htraps, hruns, ?_, bp, bps ▸ hslot, rfl, htemporary⟩
    simp only [promptsOf, prompts]
  | effect r halive heff =>
    have harmed := h.armed halive
    simp only [Temp, Gone, settle_d]
    rcases heff.at_slot hzero harmed hslot with ⟨⟨l, hfetched, hl⟩, hsame, -, -, hreport⟩ | heff
    · obtain ⟨htraps, hruns⟩ := fetched_elsewhere _ _ hfetched hl
      exact .inl ⟨htraps, hruns, promptsOf_settle fun hw ha => (hreport hw ha).2, bp, hsame.trans hslot, rfl,
        htemporary⟩
    cases heff with
    | leave l on fetched ran bps run =>
      obtain ⟨j, b, hj, haddr, hb⟩ := harmed.present (on ▸ harmed.table.addr_ne hzero hslot)
      obtain rfl := harmed.table.distinct j i b bp hj hslot (haddr.trans on.symm)
      rw [hslot] at hj
      obtain rfl := Option.some.inj hj
      rw [htemporary] at hb
      cases hb
    | temp free temporary on fetched bps off next ha regs report =>
      refine .inr ⟨st.d.t.regs, ?_, ?_, fun k b hk heq => ?_⟩
      · rw [trapsAt_append fetched]
        simp [Fetch.trapAt, on]
      · rw [promptsOf_settle_self next ha report, regs]
      · rw [bps] at hk
        obtain ⟨hki, hk⟩ := (update_eq_some.1 hk).resolve_left fun hb => by cases hb.2
        exact hki (harmed.table.distinct k i b bp hk hslot heq)
    | hold free temporary on fetched cond ignore bps held next ha regs report =>
      rw [htemporary] at temporary
      cases temporary
    | pass l n free temporary on fetched ran ignore bps run =>
      rw [htemporary] at temporary
      cases temporary

/-- Once gone it stops the process no more. -/
lemma gone_turn (hgone : Gone a st) (hturn : Turn st st') :
    (∃ l, trapsAt a st'.d.t = trapsAt a st.d.t ++ l) ∧ promptsOf (.hitTemp a) st' = promptsOf (.hitTemp a) st ∧
      Gone a st' := by
  cases hturn with
  | rest prompts bps pending alive fetched regs =>
    refine ⟨⟨[], by rw [trapsAt, trapsAt, fetched, List.append_nil]⟩, ?_, by rwa [Gone, bps]⟩
    simp only [promptsOf, prompts]
  | effect r halive heff =>
    simp only [Gone, settle_d]
    cases heff with
    | quiet l free fetched bare bps off report =>
      refine ⟨⟨_, trapsAt_append fetched⟩, promptsOf_settle fun hw ha hout => ?_, by rwa [bps]⟩
      exact absurd (report hw ha _ hout) (by simp [Report.ofBp])
    | here k b slot effect =>
      have hother := hgone k b slot
      have hkeep : ∀ b' : Bp, b'.addr = b.addr → ∀ j c, Function.update st.d.s.bps k (some b') j = some c →
          c.addr ≠ a := by
        intro b' haddr j c hj
        rcases update_eq_some.1 hj with ⟨-, hc⟩ | ⟨-, hj⟩
        · obtain rfl := Option.some.inj hc
          rwa [haddr]
        · exact hgone j c hj
      cases effect with
      | leave l on fetched ran bps run =>
        obtain ⟨ins, hbps⟩ := bps
        refine ⟨⟨_, trapsAt_append fetched⟩, promptsOf_settle fun hw ha => absurd (run ha).1 hw, ?_⟩
        rw [hbps]
        exact hkeep _ rfl
      | temp free temporary on fetched bps off next ha regs report =>
        refine ⟨⟨_, trapsAt_append fetched⟩, promptsOf_settle fun _ _ => by rw [report]; simpa using hother, ?_⟩
        rw [bps]
        intro j c hj
        exact hgone j c ((update_eq_some.1 hj).resolve_left fun hb => by cases hb.2).2
      | hold free temporary on fetched cond ignore bps held next ha regs report =>
        refine ⟨⟨_, trapsAt_append fetched⟩, promptsOf_settle fun _ _ => by rw [report]; simp, ?_⟩
        rw [bps]
        exact hkeep _ rfl
      | pass l n free temporary on fetched ran ignore bps run =>
        obtain ⟨ins, hbps⟩ := bps
        refine ⟨⟨_, trapsAt_append fetched⟩, promptsOf_settle fun hw ha => absurd (run ha).1 hw, ?_⟩
        rw [hbps]
        exact hkeep _ rfl

/-- A run once it is gone. -/
lemma gone_run {acts : List (Act ρ)} (hzero : code 0 = none) (h : Ready code st) (hcont : Continuing st)
    (hgone : Gone a st) (hrun : AtEach (step M) (Undisturbed M) st acts) (hres : ∀ act ∈ acts, Resumes act) :
    (∃ l, trapsAt a (acts.foldl (step M) st).d.t = trapsAt a st.d.t ++ l) ∧
      promptsOf (.hitTemp a) (acts.foldl (step M) st) = promptsOf (.hitTemp a) st ∧
        Gone a (acts.foldl (step M) st) := by
  induction acts generalizing st with
  | nil => exact ⟨⟨[], (List.append_nil _).symm⟩, rfl, hgone⟩
  | cons act acts ih =>
    obtain ⟨hact, hacts⟩ := hrun
    obtain ⟨hturn, hcont'⟩ := turn_step hzero h hcont hact (hres act List.mem_cons_self)
    obtain ⟨⟨l, hl⟩, hprompts, hgone'⟩ := gone_turn hgone hturn
    obtain ⟨⟨l', hl'⟩, hprompts', hend⟩ := ih (ready_step hzero h hact) hcont' hgone' hacts
      fun act' hact' => hres act' (List.mem_cons_of_mem _ hact')
    exact ⟨⟨l ++ l', by rw [List.foldl_cons, hl', hl, List.append_assoc]⟩, hprompts'.trans hprompts, hend⟩

/-- A run from where it is set. -/
lemma temp_run {acts : List (Act ρ)} (hzero : code 0 = none) (h : Ready code st) (hcont : Continuing st)
    (htemp : Temp a i st) (hrun : AtEach (step M) (Undisturbed M) st acts) (hres : ∀ act ∈ acts, Resumes act) :
    ∃ hits, trapsAt a (acts.foldl (step M) st).d.t = trapsAt a st.d.t ++ hits ∧
      promptsOf (.hitTemp a) (acts.foldl (step M) st) = promptsOf (.hitTemp a) st ++ hits.take 1 ∧
        (hits = [] → runsAt a (acts.foldl (step M) st).d.t = runsAt a st.d.t ∧ Temp a i (acts.foldl (step M) st)) ∧
          (hits ≠ [] → Gone a (acts.foldl (step M) st)) := by
  induction acts generalizing st with
  | nil => exact ⟨[], (List.append_nil _).symm, (List.append_nil _).symm, fun _ => ⟨rfl, htemp⟩, fun hne => absurd rfl hne⟩
  | cons act acts ih =>
    obtain ⟨hact, hacts⟩ := hrun
    obtain ⟨hturn, hcont'⟩ := turn_step hzero h hcont hact (hres act List.mem_cons_self)
    have hready := ready_step hzero h hact
    have hres' : ∀ act' ∈ acts, Resumes act' := fun act' hact' => hres act' (List.mem_cons_of_mem _ hact')
    rcases temp_turn hzero h htemp hturn with ⟨htraps, hruns, hprompts, htemp'⟩ | ⟨r, htraps, hprompts, hgone⟩
    · obtain ⟨hits, htraps', hprompts', hbefore, hend⟩ := ih hready hcont' htemp' hacts hres'
      exact ⟨hits, htraps ▸ htraps', hprompts ▸ hprompts', fun hnil => hruns ▸ hbefore hnil, hend⟩
    · obtain ⟨⟨l, hl⟩, hprompts', hend⟩ := gone_run hzero hready hcont' hgone hacts hres'
      refine ⟨r :: l, ?_, ?_, fun hnil => absurd hnil (List.cons_ne_nil r l), fun _ => hend⟩
      · rw [List.foldl_cons, hl, htraps, List.append_assoc, List.singleton_append]
      · exact hprompts'.trans hprompts

/-- **What breakpoints stop**, in a session whose acts meet the condition: a breakpoint with a condition whose
register is known by seven bytes of its name stops the runs of continues by the law, and a temporary one once. -/
theorem breakpoint_law (h : Reached M st) (hmode : st.mode = .prompt) (halive : st.d.s.alive = true)
    (hslot : st.d.s.bps i = some bp) :
    (bp.temporary = false → ∀ (c : Option Cond) (n : ℕ), Known c → n < 2 ^ 31 →
      ∀ (middle acts : List (Act ρ)) (refuse refuse' : List Bool), (∀ act ∈ middle ++ acts, Resumes act) →
        let st₁ := middle.foldl (step M) (step M st (.command (.cond bp.addr c) refuse))
        let st₂ := step M st₁ (.command (.dbIgnore bp.addr n) refuse')
        AtEach (step M) (Undisturbed M) st (.command (.cond bp.addr c) refuse :: middle) →
          st₁.mode = .prompt → st₁.d.s.alive = true →
            AtEach (step M) (Undisturbed M) st₁ (.command (.dbIgnore bp.addr n) refuse' :: acts) →
              ∃ hits, HitLaw bp.addr i c n st₂ (acts.foldl (step M) st₂) hits) ∧
      (bp.temporary = true → ∀ acts : List (Act ρ), (∀ act ∈ acts, Resumes act) →
        AtEach (step M) (Undisturbed M) st acts →
          ∃ hits, TempLaw bp.addr i bp.shadow st (acts.foldl (step M) st) hits) := by
  obtain ⟨code, hzero, hready⟩ := h.ready
  have htable := (hready.armed halive).table
  constructor
  · intro htemp c n hknown hn middle acts refuse refuse' hres st₁ st₂ hrun hmode₁ halive₁ hrun'
    have hcond := marked_cond (M := M) refuse htable.distinct hmode halive hslot htemp hknown
    have hstart := ready_step hzero hready hrun.1
    obtain ⟨-, hready₁, hmark₁⟩ := tally_run hzero hstart (.inl hcond.2) hcond.1 hrun.2
      fun act hact => hres act (List.mem_append_left _ hact)
    obtain ⟨hmark₂, hmode₂, hignore⟩ := marked_ignore (M := M) refuse'
      (hready₁.armed halive₁).table.distinct hmode₁ halive₁ hmark₁ hn
    obtain ⟨hsteps, hready', hmark'⟩ := tally_run hzero (ready_step hzero hready₁ hrun'.1) (.inl hmode₂) hmark₂ hrun'.2
      fun act hact => hres act (List.mem_append_right _ hact)
    exact hitLaw_of_law hready' hmark₂ hmark' (Tally.law_of_run hignore hsteps)
  · intro htemp acts hres hrun
    obtain ⟨hits, htraps, hprompts, hbefore, hgone⟩ :=
      temp_run hzero hready (.inl hmode) ⟨bp, hslot, rfl, htemp⟩ hrun hres
    have hready' := ready_run hzero hready hrun
    refine ⟨hits, htraps, hprompts, fun hnil => ?_, fun hne => ?_⟩
    · obtain ⟨hruns, b, hb, haddr, hbtemp⟩ := hbefore hnil
      refine ⟨hruns, ?_, fun ha => ?_⟩
      · rw [Option.isSome_iff_ne_none]
        exact fun hnone => bpFind_eq_none.1 hnone i b hb haddr
      · have harmed := hready'.armed ha
        have hins : b.inserted = true := by
          by_contra hins
          have hon := (harmed.lifted i b hb).1 (by simpa using hins)
          obtain ⟨j, b', hj, hb', hfalse⟩ := harmed.present (hon ▸ harmed.table.addr_ne hzero hb)
          obtain rfl := harmed.table.distinct j i b' b hj hb (hb'.trans hon.symm)
          rw [hb] at hj
          obtain rfl := Option.some.inj hj
          rw [hbtemp] at hfalse
          cases hfalse
        rw [← haddr, harmed.table.text_eq hb, hins, if_pos rfl]
    · have hnone : ∀ (k : Fin 64) (b : Bp), (acts.foldl (step M) st).d.s.bps k = some b → b.addr ≠ bp.addr := hgone hne
      refine ⟨bpFind_eq_none.2 hnone, fun ha => ?_⟩
      have hbare : ¬ Planted (acts.foldl (step M) st).d.s bp.addr := fun ⟨k, b, hk, haddr, _⟩ => hnone k b hk haddr
      rw [(hready'.armed ha).table.bare _ hbare, htable.shadow i bp hslot]

/-! ### A loop -/

/-- A loop of two instructions at `0x400000`, the second of which counts in `rax`. -/
def counting : Machine Unit where
  interrupt _ _ := none
  exec r _ :=
    if r .rip = 0x400001 then
      .ran (Function.update (Function.update r .rax (r .rax + 1)) .rip 0x400000) () []
    else .ran (Function.update r .rip (r .rip + 1)) () []
  deliver _ r _ := (r, ())

/-- A session with the loop, the zero page not mapped. -/
def looping : State Unit :=
  { started 0x400000 () with d := { (started 0x400000 ()).d with
      t := { (started 0x400000 ()).d.t with text := fun x => if x = 0 then none else some 0x90 } } }

lemma counting_tick {t : Tracee Unit} (h : t.debug = .clear) :
    (t.text (t.regs .rip) ≠ some int3 → ∃ regs, counting.tick t = .ran (t.ran regs ())) ∧
      (t.text (t.regs .rip) = some int3 → counting.tick t = .stop (.stopped sigtrap none) t.trapInt3) := by
  have hbefore : t.debug.before t.regs = [] := by simp [h, DebugRegs.before, DebugRegs.slots]
  have hafter : t.debug.after [] = [] := by simp [h, DebugRegs.after, DebugRegs.slots]
  constructor
  · intro hbare
    have hexec : ∃ regs, counting.exec t.regs t.world = .ran regs () [] := by
      by_cases hrip : t.regs .rip = 0x400001
      · exact ⟨_, if_pos hrip⟩
      · exact ⟨_, if_neg hrip⟩
    obtain ⟨regs, hexec⟩ := hexec
    exact ⟨regs, Machine.tick_eq_ran.2 ⟨rfl, hbefore, hbare, regs, (), [], hexec, hafter, rfl⟩⟩
  · intro hint3
    unfold Machine.tick
    simp [counting, hbefore, hint3]

lemma counting_calm {t : Tracee Unit} (h : t.debug = .clear) (hbare : t.text (t.regs .rip) ≠ some int3) :
    Calm counting t := by
  obtain ⟨regs, htick⟩ := (counting_tick h).1 hbare
  exact .inl ⟨_, htick⟩

/-- The loop triggers no watch. -/
lemma counting_silent {t : Tracee Unit} (h : t.debug = .clear) : Keeps counting t ∧ Silent counting t := by
  obtain ⟨hran, htrap⟩ := counting_tick h
  by_cases hint3 : t.text (t.regs .rip) = some int3
  · have hstep := Machine.singleStep_of_stop (htrap hint3)
    exact ⟨fun i => by rw [hstep]; rfl, by rw [Silent, hstep]; rfl⟩
  · obtain ⟨regs, htick⟩ := hran hint3
    refine ⟨fun i => ?_, ?_⟩
    · rw [Machine.singleStep, htick]
      rfl
    · rw [Silent, Machine.singleStep, htick]
      rfl

lemma counting_seen {t : Tracee Unit} (h : t.debug = .clear) :
    Keeps counting t ∧ (¬ Silent counting t → t.refuse.head? ≠ some true) :=
  ⟨(counting_silent h).1, fun hne => absurd (counting_silent h).2 hne⟩

lemma counting_tells {t : Tracee Unit} (h : t.debug = .clear) : Telling counting s t := by
  intro sig e t' hstop
  obtain ⟨hran, htrap⟩ := counting_tick h
  by_cases hint3 : t.text (t.regs .rip) = some int3
  · rw [htrap hint3] at hstop
    cases hstop
    exact ⟨rfl, fun _ _ huser => by cases huser⟩
  · obtain ⟨regs, htick⟩ := hran hint3
    rw [htick] at hstop
    cases hstop

lemma begun_looping : Begun looping :=
  { fresh_started 0x400000 () with
    mode := rfl
    alive := rfl
    hwWps := fun _ => rfl
    debug := rfl
    triggers := rfl
    out := rfl
    bps := fun _ => rfl
    pendingBp := rfl
    pendingHwExec := rfl
    zero := rfl }

/-- A breakpoint is set in the loop. -/
def stopping : State Unit := step counting looping (.command (.db 0x400001) [])

lemma counts_of_all (h : (∀ i, ((st.d.s.bps i).all fun bp => wrap (bp.hitCount + 1) == bp.hitCount + 1) = true)) :
    ∀ i bp, st.d.s.bps i = some bp → wrap (bp.hitCount + 1) = bp.hitCount + 1 := by
  intro i bp hslot
  have hi := h i
  rw [hslot] at hi
  simpa using hi

lemma reached_stopping : Reached counting stopping := by
  refine ⟨looping, [.command (.db 0x400001) []], begun_looping, ⟨⟨⟨?_, ?_, trivial⟩, ?_, ?_, ?_⟩, trivial⟩, rfl⟩
  · rintro t ⟨⟩
  · rintro t ⟨⟩
  · rintro t ⟨⟩
  · rintro t ⟨⟩
  · exact counts_of_all (by decide +kernel)

/-- The breakpoint of the loop. -/
def loopBp : Bp := ⟨0x400001, 0x90, true, false, 0, 0, none⟩

/-- It is to stop once the loop has counted. -/
def counted : Option Cond := some ⟨ascii "rax", .ge, 1⟩

/-- The loop is let run round twice. -/
def rounds : List (Act Unit) := [.command .dc [], .tick [], .tick [], .tick [], .tick []]

/-- The breakpoint has been given its condition, and is not to be ignored. -/
def conditioned (c : Option Cond) : State Unit :=
  step counting (step counting stopping (.command (.cond 0x400001 c) [])) (.command (.dbIgnore 0x400001 0) [])

/-- The loop with the breakpoint, which lets it pass the first time round. -/
theorem loop_stops : ∃ hits,
    HitLaw 0x400001 0 counted 0 (conditioned counted) (rounds.foldl (step counting) (conditioned counted)) hits := by
  have hslot : stopping.d.s.bps 0 = some loopBp := by decide +kernel
  have hknown : Known counted := by
    rintro k ⟨⟩
    exact ⟨.rax, by decide, by decide⟩
  refine (breakpoint_law reached_stopping rfl rfl hslot).1 rfl counted 0 hknown (by decide) [] rounds [] []
    (by simp [rounds, Resumes]) ⟨⟨⟨?_, ?_, trivial⟩, ?_, ?_, ?_⟩, trivial⟩ rfl rfl
    ⟨⟨⟨?_, ?_, trivial⟩, ?_, ?_, ?_⟩, ⟨⟨?_, ?_, trivial⟩, ?_, ?_, ?_⟩, ⟨⟨?_, ?_, trivial⟩, ?_, ?_, ?_⟩,
      ⟨⟨?_, ?_, trivial⟩, ?_, ?_, ?_⟩, ⟨⟨?_, ?_, trivial⟩, ?_, ?_, ?_⟩, ⟨⟨?_, ?_, trivial⟩, ?_, ?_, ?_⟩, trivial⟩
  all_goals try exact counts_of_all (by decide +kernel)
  all_goals rintro t ⟨⟩
  · exact counting_seen rfl
  · exact counting_tells rfl
  · exact counting_seen rfl
  · exact counting_silent rfl
  · exact counting_tells rfl
  · exact counting_calm rfl (by decide +kernel)
  · exact counting_seen rfl
  · exact counting_tells rfl
  · exact counting_seen rfl
  · exact counting_tells rfl

/-- A condition on the one register whose name has more than seven bytes. -/
def inSyscall : Option Cond := some ⟨ascii "orig_rax", .eq, 5⟩

/-- The loop is let run to the breakpoint. -/
def half : List (Act Unit) := [.command .dc [], .tick [], .tick []]

/-- **A condition on `orig_rax` is lost**: the register is known when the condition is set, and the loop is stopped
where the condition is false. -/
theorem orig_rax_lost :
    Reached counting stopping ∧ stopping.d.s.bps 0 = some loopBp ∧ (∀ k ∈ inSyscall, (regLookup k.reg).isSome) ∧
      AtEach (step counting) (Undisturbed counting) stopping
          [.command (.cond 0x400001 inSyscall) [], .command (.dbIgnore 0x400001 0) []] ∧
        AtEach (step counting) (Undisturbed counting) (conditioned inSyscall) half ∧
          ¬ ∃ hits, HitLaw 0x400001 0 inSyscall 0 (conditioned inSyscall)
            (half.foldl (step counting) (conditioned inSyscall)) hits := by
  refine ⟨reached_stopping, by decide +kernel, by decide, ⟨⟨⟨?_, ?_, trivial⟩, ?_, ?_, ?_⟩,
    ⟨⟨?_, ?_, trivial⟩, ?_, ?_, ?_⟩, trivial⟩, ⟨⟨⟨?_, ?_, trivial⟩, ?_, ?_, ?_⟩, ⟨⟨?_, ?_, trivial⟩, ?_, ?_, ?_⟩,
      ⟨⟨?_, ?_, trivial⟩, ?_, ?_, ?_⟩, trivial⟩, ?_⟩
  all_goals try exact counts_of_all (by decide +kernel)
  all_goals try (rintro t ⟨⟩; done)
  · rintro t ⟨⟩
    exact counting_seen rfl
  · rintro t ⟨⟩
    exact counting_tells rfl
  · rintro t ⟨⟩
    exact counting_seen rfl
  · rintro t ⟨⟩
    exact counting_tells rfl
  · rintro ⟨hits, hlaw⟩
    have hnone : trapsAt 0x400001 (conditioned inSyscall).d.t = [] := rfl
    have hfalse : (trapsAt 0x400001 (half.foldl (step counting) (conditioned inSyscall)).d.t).all
        (fun r => !bpCondTrue r inSyscall) = true := by decide +kernel
    have hmore : (promptsOf (.hit 0x400001) (half.foldl (step counting) (conditioned inSyscall))).length =
        (promptsOf (.hit 0x400001) (conditioned inSyscall)).length + 1 := by decide +kernel
    rw [hlaw.traps, hnone, List.nil_append] at hfalse
    have hempty : hits.filter (bpCondTrue · inSyscall) = [] := by
      rw [List.filter_eq_nil_iff]
      intro r hr
      simpa using List.all_eq_true.1 hfalse r hr
    rw [hlaw.prompts, hempty] at hmore
    simp at hmore

end Law

end Runs

end Two09.Debag.DynamicDb
