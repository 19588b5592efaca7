import Mathlib.Data.List.FinRange
import Mathlib.Logic.Function.Basic
import Mathlib.Tactic.Common

/-!
# Tracing a process

A process of x86-64 as its tracer has it: registers, code, debug registers, and what one tick of it comes to.
The processor and the program are parameters, and so is the world around them. The code is what the tracer may
patch: an instruction is fetched from it only to see whether it is an `int3`.
-/

namespace Two09.Lib.Ptrace

/-! ### Registers -/

/-- The registers of `user_regs_struct` that have a name to a user. -/
inductive Reg
  | rax | rbx | rcx | rdx | rsi | rdi | rbp | rsp | r8 | r9 | r10 | r11 | r12 | r13 | r14 | r15
  | rip | eflags | orig_rax | cs | ss | fs_base | gs_base
  deriving DecidableEq

abbrev Regs := Reg → BitVec 64

/-- The resume flag of `eflags`. -/
def resumeFlag : BitVec 64 := 1 <<< 16

/-- The registers with the resume flag set. -/
def Regs.resume (r : Regs) : Regs := Function.update r .eflags (r .eflags ||| resumeFlag)

lemma Regs.rip_resume (r : Regs) : r.resume .rip = r .rip := Function.update_of_ne (by decide) _ _

lemma Regs.rsp_resume (r : Regs) : r.resume .rsp = r .rsp := Function.update_of_ne (by decide) _ _

/-! ### Debug registers -/

/-- A range of addresses that is watched: `rw` is 0 for execution, 1 for writes, 3 for reads and writes. -/
structure Watch where
  addr : BitVec 64
  len : ℤ
  rw : ℤ
  deriving DecidableEq

/-- `DR0` to `DR3`, the low bits of `DR6` and `DR7`. -/
structure DebugRegs where
  addr : Fin 4 → BitVec 64
  fired : Fin 4 → Bool
  control : BitVec 64

/-- A memory access of an instruction. -/
structure Access where
  addr : BitVec 64
  size : ℕ
  write : Bool

/-- The `LEN` field of `DR7`. -/
def lenOf (code : BitVec 2) : ℤ :=
  if code = 0 then 1 else if code = 1 then 2 else if code = 2 then 8 else 4

/-- A data watch that an access triggers. -/
def Watch.Sees (w : Watch) (x : Access) : Prop :=
  (w.rw = 3 ∨ w.rw = 1 ∧ x.write) ∧
    (((x.addr - w.addr).toNat : ℤ) < w.len ∨ (w.addr - x.addr).toNat < x.size)

instance (w : Watch) (x : Access) : Decidable (w.Sees x) := inferInstanceAs (Decidable (_ ∧ _))

/-- An execution watch that the instruction at `rip` triggers. -/
def Watch.Stops (w : Watch) (r : Regs) : Prop := w.rw = 0 ∧ w.addr = r .rip ∧ (r .eflags).getLsbD 16 = false

instance (w : Watch) (r : Regs) : Decidable (w.Stops r) := inferInstanceAs (Decidable (_ ∧ _))

namespace DebugRegs

/-- All registers zero. -/
def clear : DebugRegs := ⟨fun _ => 0, fun _ => false, 0⟩

/-- What a slot watches, by the layout of `DR7`: the enable bits from bit 0, two for a slot, and `R/W` and `LEN`
from bit 16, two each for a slot. -/
def watch (d : DebugRegs) (i : Fin 4) : Option Watch :=
  if d.control.getLsbD (2 * i) then
    some ⟨d.addr i, lenOf (d.control.extractLsb' (18 + 4 * i) 2), (d.control.extractLsb' (16 + 4 * i) 2).toNat⟩
  else none

/-- The slots whose watch meets `P`, in order. -/
def slots (d : DebugRegs) (P : Watch → Bool) : List (Fin 4) :=
  (List.finRange 4).filter fun i => (d.watch i).any P

/-- The slots that trap before an instruction. -/
def before (d : DebugRegs) (r : Regs) : List (Fin 4) := d.slots fun w => w.Stops r

/-- The slots that trap after an instruction with the accesses it made. -/
def after (d : DebugRegs) (xs : List Access) : List (Fin 4) := d.slots fun w => xs.any fun x => w.Sees x

/-- The slots that trap are recorded in `DR6`, whose bits stay until they are cleared. -/
def fire (d : DebugRegs) (is : List (Fin 4)) : DebugRegs := { d with fired := fun i => d.fired i || i ∈ is }

lemma watch_fire (d : DebugRegs) (is : List (Fin 4)) (i : Fin 4) : (d.fire is).watch i = d.watch i := rfl

@[simp] lemma watch_clear (i : Fin 4) : clear.watch i = none := by
  simp [watch, clear]

lemma isSome_watch_of_mem_slots {d : DebugRegs} {P : Watch → Bool} {i : Fin 4} (h : i ∈ d.slots P) :
    (d.watch i).isSome := by
  have hany : (d.watch i).any P := (List.mem_filter.1 h).2
  cases hw : d.watch i with
  | none => simp [hw] at hany
  | some w => rfl

end DebugRegs

/-! ### The process -/

/-- The events that `PTRACE_O_TRACEFORK` and its like report. -/
inductive Event
  | fork | vfork | clone | exec
  deriving DecidableEq

/-- What `waitpid` returns. -/
inductive Status
  | exited (code : ℕ)
  | signaled (sig : ℕ)
  | stopped (sig : ℕ) (event : Option Event)
  deriving DecidableEq

/-- Why the process got its last signal. -/
inductive SiCode
  | user | kernel | trace | hwbkpt
  deriving DecidableEq

def sigtrap : ℕ := 5

def int3 : UInt8 := 0xCC

/-- What an instruction comes to: it runs, the kernel stops the process in it, or it starts another program. -/
inductive Outcome (ρ : Type)
  | ran (regs : Regs) (world : ρ) (accesses : List Access)
  | stop (status : Status) (regs : Regs) (world : ρ)
  | execve (regs : Regs) (world : ρ) (text : BitVec 64 → Option UInt8)

/-- The processor with a program, in a world `ρ`. -/
structure Machine (ρ : Type) where
  /-- What stops the process before its next instruction: a signal that has come, or its death. -/
  interrupt : Regs → ρ → Option (Status × ρ)
  /-- The next instruction. -/
  exec : Regs → ρ → Outcome ρ
  /-- The process is given a signal. -/
  deliver : ℕ → Regs → ρ → Regs × ρ

/-- An instruction fetched, with the registers it was fetched at. -/
inductive Fetch
  | int3 (regs : Regs)
  | insn (regs : Regs)

/-- A process under trace. `fetched` and `triggers` are its history: what it fetched, and the watches that
trapped. `refuse` says of the writes to debug registers to come whether the kernel refuses them. -/
structure Tracee (ρ : Type) where
  regs : Regs
  world : ρ
  text : BitVec 64 → Option UInt8
  debug : DebugRegs
  siCode : SiCode
  fetched : List Fetch
  triggers : List (Fin 4)
  refuse : List Bool

/-- What a tick of the process comes to. -/
inductive Tick (ρ : Type)
  | ran (t : Tracee ρ)
  | stop (status : Status) (t : Tracee ρ)

/-- The process after a tick. -/
def Tick.tracee {ρ : Type} : Tick ρ → Tracee ρ
  | ran t => t
  | stop _ t => t

/-- The memory of a process that is no more is gone. -/
def Status.memory : Status → (BitVec 64 → Option UInt8) → BitVec 64 → Option UInt8
  | .stopped _ _, text => text
  | _, _ => fun _ => none

variable {ρ : Type}

namespace Tracee

/-- Watches trap. -/
def trap (t : Tracee ρ) (is : List (Fin 4)) : Tracee ρ :=
  { t with debug := t.debug.fire is, triggers := t.triggers ++ is, siCode := .hwbkpt }

/-- An `int3` traps: `rip` is past it. -/
def trapInt3 (t : Tracee ρ) : Tracee ρ :=
  { t with
    regs := Function.update t.regs .rip (t.regs .rip + 1)
    siCode := .kernel
    fetched := t.fetched ++ [.int3 t.regs] }

/-- An instruction is executed. -/
def ran (t : Tracee ρ) (regs : Regs) (world : ρ) : Tracee ρ :=
  { t with regs, world, fetched := t.fetched ++ [.insn t.regs] }

/-- A word of memory, the lowest byte first. -/
abbrev Word := Fin 8 → UInt8

/-- The word at an address is mapped. -/
def Mapped (t : Tracee ρ) (a : BitVec 64) : Prop := ∀ j : Fin 8, (t.text (a + BitVec.ofNat 64 j)).isSome

instance (t : Tracee ρ) (a : BitVec 64) : Decidable (t.Mapped a) := inferInstanceAs (Decidable (∀ _, _))

/-- `PTRACE_PEEKTEXT` -/
def peek (t : Tracee ρ) (a : BitVec 64) : Option Word :=
  if t.Mapped a then some fun j => (t.text (a + BitVec.ofNat 64 j)).getD 0 else none

/-- `PTRACE_POKETEXT` -/
def poke (t : Tracee ρ) (a : BitVec 64) (w : Word) : Option (Tracee ρ) :=
  if t.Mapped a then
    some { t with text := fun x => if h : (x - a).toNat < 8 then some (w ⟨(x - a).toNat, h⟩) else t.text x }
  else none

/-- `PTRACE_SETREGS`, with registers as the kernel has handed them out but for a flag or `rip`. -/
def setRegs (t : Tracee ρ) (regs : Regs) : Tracee ρ := { t with regs }

/-- A write to a debug register, which the kernel may refuse. -/
def write (t : Tracee ρ) (f : Tracee ρ → Tracee ρ) : Bool × Tracee ρ :=
  match t.refuse with
  | [] => (true, f t)
  | false :: rest => (true, f { t with refuse := rest })
  | true :: rest => (false, { t with refuse := rest })

/-- `PTRACE_POKEUSER` on `DR0` to `DR3` -/
def pokeAddr (t : Tracee ρ) (i : Fin 4) (v : BitVec 64) : Bool × Tracee ρ :=
  t.write fun t => { t with debug := { t.debug with addr := Function.update t.debug.addr i v } }

/-- `PTRACE_POKEUSER` on `DR7` -/
def pokeControl (t : Tracee ρ) (v : BitVec 64) : Bool × Tracee ρ :=
  t.write fun t => { t with debug := { t.debug with control := v } }

/-- `PTRACE_POKEUSER` on `DR6`, with zero -/
def clearFired (t : Tracee ρ) : Bool × Tracee ρ :=
  t.write fun t => { t with debug := { t.debug with fired := fun _ => false } }

section
variable {t : Tracee ρ} {a : BitVec 64} {w : Word}

/-- **Writing a word back with another lowest byte** changes this byte only. -/
lemma poke_update (h : t.peek a = some w) (b : UInt8) :
    t.poke a (Function.update w 0 b) = some { t with text := Function.update t.text a (some b) } := by
  obtain ⟨hmapped, rfl⟩ : t.Mapped a ∧ (fun j : Fin 8 => (t.text (a + BitVec.ofNat 64 j)).getD 0) = w := by
    simpa [peek, Option.ite_none_right_eq_some] using h
  have htext : (fun x => if h : (x - a).toNat < 8 then
      some (Function.update (fun j : Fin 8 => (t.text (a + BitVec.ofNat 64 j)).getD 0) 0 b ⟨(x - a).toNat, h⟩)
      else t.text x) = Function.update t.text a (some b) := by
    funext x
    by_cases hx : x = a
    · subst hx
      simp
    rw [Function.update_of_ne hx]
    split
    next hlt =>
      have hoff : (⟨(x - a).toNat, hlt⟩ : Fin 8) ≠ 0 := by
        intro h0
        have hval : (x - a).toNat = 0 := congrArg Fin.val h0
        exact hx (by bv_omega)
      have hat : a + BitVec.ofNat 64 (x - a).toNat = x := by
        rw [BitVec.ofNat_toNat, BitVec.setWidth_eq, BitVec.add_comm, BitVec.sub_add_cancel]
      have hsome := hmapped ⟨(x - a).toNat, hlt⟩
      rw [Function.update_of_ne hoff]
      simp only [hat] at hsome ⊢
      obtain ⟨c, hc⟩ := Option.isSome_iff_exists.1 hsome
      rw [hc, Option.getD_some]
    next => rfl
  rw [poke, if_pos hmapped, htext]

lemma peek_eq_none : t.peek a = none ↔ ¬ t.Mapped a := by
  simp [peek]

lemma peek_zero (h : t.peek a = some w) : t.text a = some (w 0) := by
  obtain ⟨hmapped, rfl⟩ : t.Mapped a ∧ (fun j : Fin 8 => (t.text (a + BitVec.ofNat 64 j)).getD 0) = w := by
    simpa [peek, Option.ite_none_right_eq_some] using h
  obtain ⟨c, hc⟩ := Option.isSome_iff_exists.1 (by simpa using hmapped 0)
  simp [hc]

lemma write_nil (h : t.refuse = []) (f : Tracee ρ → Tracee ρ) : t.write f = (true, f t) := by
  rw [write, h]

end

end Tracee

namespace Machine

variable (M : Machine ρ)

/-- A tick of a process that is not held: a signal that has come stops it, an execution watch, an `int3`; else
its next instruction runs, after which a data watch may trap. -/
def tick (t : Tracee ρ) : Tick ρ :=
  match M.interrupt t.regs t.world with
  | some (status, world) =>
    .stop status { t with world, text := status.memory t.text, siCode := .user }
  | none =>
    if t.debug.before t.regs ≠ [] then .stop (.stopped sigtrap none) (t.trap (t.debug.before t.regs))
    else if t.text (t.regs .rip) = some int3 then .stop (.stopped sigtrap none) t.trapInt3
    else
      match M.exec t.regs t.world with
      | .ran regs world accesses =>
        if t.debug.after accesses ≠ [] then
          .stop (.stopped sigtrap none) ((t.ran regs world).trap (t.debug.after accesses))
        else .ran (t.ran regs world)
      | .stop status regs world =>
        .stop status { t.ran regs world with text := status.memory t.text, siCode := .user }
      | .execve regs world text =>
        .stop (.stopped sigtrap (some .exec)) { t.ran regs world with text, debug := .clear, siCode := .user }

/-- `PTRACE_SINGLESTEP` and `waitpid` -/
def singleStep (t : Tracee ρ) : Status × Tracee ρ :=
  match M.tick t with
  | .ran t => (.stopped sigtrap none, { t with siCode := .trace })
  | .stop status t => (status, t)

/-- `PTRACE_CONT` with a signal to deliver, or none -/
def cont (sig : ℕ) (t : Tracee ρ) : Tracee ρ :=
  if sig = 0 then t
  else { t with regs := (M.deliver sig t.regs t.world).1, world := (M.deliver sig t.regs t.world).2 }

section
variable {M : Machine ρ} {t t' : Tracee ρ} {status : Status}

/-- An instruction that runs without being stopped. -/
lemma tick_eq_ran : M.tick t = .ran t' ↔
    M.interrupt t.regs t.world = none ∧ t.debug.before t.regs = [] ∧ t.text (t.regs .rip) ≠ some int3 ∧
      ∃ regs world accesses, M.exec t.regs t.world = .ran regs world accesses ∧
        t.debug.after accesses = [] ∧ t' = t.ran regs world := by
  unfold tick
  cases M.interrupt t.regs t.world with
  | some p => simp
  | none =>
    by_cases hbefore : t.debug.before t.regs = []
    swap
    · simp [hbefore]
    by_cases hint3 : t.text (t.regs .rip) = some int3
    · simp [hbefore, hint3]
    cases M.exec t.regs t.world with
    | ran regs world accesses =>
      by_cases hafter : t.debug.after accesses = []
      · simp only [hbefore, hint3, hafter, ne_eq, not_true_eq_false, not_false_eq_true, if_false, true_and,
          Tick.ran.injEq, Outcome.ran.injEq]
        constructor
        · rintro rfl
          exact ⟨regs, world, accesses, ⟨rfl, rfl, rfl⟩, hafter, rfl⟩
        · rintro ⟨r, w, x, ⟨rfl, rfl, rfl⟩, -, rfl⟩
          rfl
      · simp only [hbefore, hint3, ne_eq, not_true_eq_false, not_false_eq_true, if_false, true_and,
          if_pos hafter, reduceCtorEq, false_iff, Outcome.ran.injEq]
        rintro ⟨r, w, x, ⟨rfl, rfl, rfl⟩, h, -⟩
        exact hafter h
    | stop status regs world => simp [hbefore, hint3]
    | execve regs world text => simp [hbefore, hint3]

/-- The process has come on by an instruction, which is not an `int3`, or only the world has changed. -/
inductive Moved (t : Tracee ρ) : Tracee ρ → Prop
  | world (world : ρ) : Moved t { t with world }
  | ran (regs : Regs) (world : ρ) (bare : t.text (t.regs .rip) ≠ some int3) : Moved t (t.ran regs world)

/-- **What a tick stops for**: the kernel stops the process, a watch traps, an `int3` does, or the process starts
another program. -/
lemma tick_eq_stop (h : M.tick t = .stop status t') :
    (∃ u, Moved t u ∧ t' = { u with text := status.memory t.text, siCode := .user }) ∨
      (∃ u P, Moved t u ∧ t.debug.slots P ≠ [] ∧ status = .stopped sigtrap none ∧ t' = u.trap (t.debug.slots P)) ∨
        (t.text (t.regs .rip) = some int3 ∧ status = .stopped sigtrap none ∧ t' = t.trapInt3) ∨
          (t.text (t.regs .rip) ≠ some int3 ∧ status = .stopped sigtrap (some .exec) ∧ ∃ regs world text,
            t' = { t.ran regs world with text, debug := .clear, siCode := .user }) := by
  unfold tick at h
  cases hint : M.interrupt t.regs t.world with
  | some p =>
    rw [hint] at h
    obtain ⟨rfl, rfl⟩ := Tick.stop.inj h
    exact .inl ⟨{ t with world := p.2 }, .world p.2, rfl⟩
  | none =>
    rw [hint] at h
    dsimp only at h
    split at h
    next hbefore =>
      obtain ⟨rfl, rfl⟩ := Tick.stop.inj h
      exact .inr (.inl ⟨t, _, .world t.world, hbefore, rfl, rfl⟩)
    split at h
    next hint3 =>
      obtain ⟨rfl, rfl⟩ := Tick.stop.inj h
      exact .inr (.inr (.inl ⟨hint3, rfl, rfl⟩))
    next hbare =>
      cases hexec : M.exec t.regs t.world with
      | ran regs world accesses =>
        rw [hexec] at h
        dsimp only at h
        split at h
        next hafter =>
          obtain ⟨rfl, rfl⟩ := Tick.stop.inj h
          exact .inr (.inl ⟨t.ran regs world, _, .ran regs world hbare, hafter, rfl, rfl⟩)
        next => cases h
      | stop status regs world =>
        rw [hexec] at h
        obtain ⟨rfl, rfl⟩ := Tick.stop.inj h
        exact .inl ⟨t.ran regs world, .ran regs world hbare, rfl⟩
      | execve regs world text =>
        rw [hexec] at h
        obtain ⟨rfl, rfl⟩ := Tick.stop.inj h
        exact .inr (.inr (.inr ⟨hbare, rfl, regs, world, text, rfl⟩))

/-- **What a tick does to the debug registers**: nothing, or it records the watches that trap, or it clears them
for a new program. -/
lemma tick_debug (M : Machine ρ) (t : Tracee ρ) :
    ((M.tick t).tracee.debug = t.debug ∧ (M.tick t).tracee.triggers = t.triggers) ∨
      (∃ P t', M.tick t = .stop (.stopped sigtrap none) t' ∧ t.debug.slots P ≠ [] ∧
        t'.debug = t.debug.fire (t.debug.slots P) ∧ t'.triggers = t.triggers ++ t.debug.slots P) ∨
      ∃ t', M.tick t = .stop (.stopped sigtrap (some .exec)) t' ∧ t'.debug = .clear ∧ t'.triggers = t.triggers := by
  unfold tick
  cases M.interrupt t.regs t.world with
  | some p => exact .inl ⟨rfl, rfl⟩
  | none =>
    by_cases hbefore : t.debug.before t.regs = []
    swap
    · simp only [if_pos hbefore]
      exact .inr (.inl ⟨_, _, rfl, hbefore, rfl, rfl⟩)
    by_cases hint3 : t.text (t.regs .rip) = some int3
    · simp only [hbefore, hint3, ne_eq, not_true_eq_false, if_false, if_true]
      exact .inl ⟨rfl, rfl⟩
    simp only [hbefore, hint3, ne_eq, not_true_eq_false, if_false]
    cases M.exec t.regs t.world with
    | ran regs world accesses =>
      by_cases hafter : t.debug.after accesses = []
      · simp only [hafter, not_true_eq_false, if_false]
        exact .inl ⟨rfl, rfl⟩
      · simp only [if_pos hafter]
        exact .inr (.inl ⟨_, _, rfl, hafter, rfl, rfl⟩)
    | stop status regs world => exact .inl ⟨rfl, rfl⟩
    | execve regs world text => exact .inr (.inr ⟨_, rfl, rfl, rfl⟩)

lemma tick_refuse (M : Machine ρ) (t : Tracee ρ) : (M.tick t).tracee.refuse = t.refuse := by
  unfold tick
  cases M.interrupt t.regs t.world with
  | some p => rfl
  | none =>
    dsimp only
    split
    · rfl
    split
    · rfl
    cases M.exec t.regs t.world with
    | ran regs world accesses =>
      dsimp only
      split <;> rfl
    | stop status regs world => rfl
    | execve regs world text => rfl

/-- A tick that stops the process is a single-step that does. -/
lemma singleStep_of_stop (h : M.tick t = .stop status t') : M.singleStep t = (status, t') := by
  rw [singleStep, h]

/-- **What a single-step does to the debug registers**, by what it stops for. -/
lemma singleStep_debug (M : Machine ρ) (t : Tracee ρ) :
    ((M.singleStep t).2.debug = t.debug ∧ (M.singleStep t).2.triggers = t.triggers) ∨
      (∃ P t', M.singleStep t = (.stopped sigtrap none, t') ∧ t.debug.slots P ≠ [] ∧
        t'.debug = t.debug.fire (t.debug.slots P) ∧ t'.triggers = t.triggers ++ t.debug.slots P) ∨
      ∃ t', M.singleStep t = (.stopped sigtrap (some .exec), t') ∧ t'.debug = .clear ∧ t'.triggers = t.triggers := by
  rcases M.tick_debug t with ⟨hdebug, htriggers⟩ | ⟨P, t', htick, h⟩ | ⟨t', htick, h⟩
  · left
    unfold singleStep
    cases htick : M.tick t with
    | ran t' =>
      rw [htick] at hdebug htriggers
      exact ⟨hdebug, htriggers⟩
    | stop status t' =>
      rw [htick] at hdebug htriggers
      exact ⟨hdebug, htriggers⟩
  · exact .inr (.inl ⟨P, t', singleStep_of_stop htick, h⟩)
  · exact .inr (.inr ⟨t', singleStep_of_stop htick, h⟩)

lemma singleStep_refuse (M : Machine ρ) (t : Tracee ρ) : (M.singleStep t).2.refuse = t.refuse := by
  have htick := M.tick_refuse t
  unfold singleStep
  cases h : M.tick t with
  | ran t' =>
    rw [h] at htick
    exact htick
  | stop status t' =>
    rw [h] at htick
    exact htick

end

end Machine

end Two09.Lib.Ptrace
