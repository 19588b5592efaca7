import Two09.Debag.CallLength
import Two09.Lib.Json
import Two09.Lib.Ptrace

/-!
# The live debugger

`dynamic_db.c`: breakpoints, watchpoints and the commands that resume the process, over a process under trace. A
function is followed up to the next `waitpid` for a process that runs; what every caller does with the status it
returns is `handle_stop`.
-/

namespace Two09.Debag.DynamicDb

open Two09.Lib Two09.Lib.Ptrace

/-! ### The session -/

/-- `BP_OP_EQ` to `BP_OP_GE` -/
inductive CondOp
  | eq | ne | lt | le | gt | ge
  deriving DecidableEq

/-- `dyn_bp_cond_t` with its condition set. -/
structure Cond where
  reg : Bytes
  op : CondOp
  val : BitVec 64
  deriving DecidableEq

/-- `dyn_bp_t` in use. -/
structure Bp where
  addr : BitVec 64
  shadow : UInt8
  inserted : Bool
  temporary : Bool
  hitCount : ℤ
  ignoreCount : ℤ
  cond : Option Cond
  deriving DecidableEq

/-- What the debugger prints where it stops or does not. -/
inductive Report
  | hitTemp (addr : BitVec 64)
  | hit (addr : BitVec 64)
  | ignored (addr : BitVec 64) (remaining : ℤ)
  | trap (rip : BitVec 64)
  | watch (slot : Fin 4)
  | event (e : Event)
  | received (sig : ℕ)
  | stopped (rip : BitVec 64)
  | stoppedBy (sig : ℕ) (rip : BitVec 64)
  | exited (code : ℕ)
  | killed (sig : ℕ)
  | interrupted (rip next : BitVec 64)
  deriving DecidableEq

/-- `dyn_session_t` -/
structure Session where
  alive : Bool
  memFd : Bool
  lastSig : ℕ
  exitedCode : ℕ
  signaledSig : ℕ
  pendingBp : BitVec 64
  bps : Fin 64 → Option Bp
  regs : Regs
  regsValid : Bool
  sigStop : ℕ → Bool
  sigPrint : ℕ → Bool
  sigProgram : ℕ → Bool
  hwWps : Fin 4 → Option Watch
  pendingHwExec : Option (Fin 4)
  out : List Report

/-- The debugger with the process it holds. -/
structure Debugger (ρ : Type) where
  s : Session
  t : Tracee ρ

/-- Where a function is left: it waits for the process, or it has returned, zero or not. -/
inductive Next
  | wait
  | ret (ok : Bool)
  deriving DecidableEq

def nsig : ℕ := 65

variable {ρ : Type}

namespace Debugger

def print (d : Debugger ρ) (r : Report) : Debugger ρ := { d with s := { d.s with out := d.s.out ++ [r] } }

/-- What the table has in a slot. -/
def setBp (d : Debugger ρ) (i : Fin 64) (bp : Option Bp) : Debugger ρ :=
  { d with s := { d.s with bps := Function.update d.s.bps i bp } }

end Debugger

/-- `refresh_regs` -/
def refreshRegs (d : Debugger ρ) : Bool × Debugger ρ :=
  if d.s.alive then (true, { d with s := { d.s with regs := d.t.regs, regsValid := true } })
  else (false, { d with s := { d.s with regsValid := false } })

/-! ### Memory -/

/-- The bytes from an address up to the first that is not mapped: `pread` on `/proc/PID/mem`. -/
def memBytes (t : Tracee ρ) (addr : BitVec 64) (len : ℕ) : Bytes :=
  (((List.range len).map fun k => t.text (addr + BitVec.ofNat 64 k)).takeWhile Option.isSome).filterMap id

/-- The loop over words with `PTRACE_PEEKDATA`. -/
def peekData (t : Tracee ρ) (addr : BitVec 64) (len : ℕ) : Bytes :=
  ((((List.range ((len + 7) / 8)).map fun k => t.peek (addr + BitVec.ofNat 64 (8 * k))).takeWhile
    Option.isSome).filterMap id).flatMap List.ofFn |>.take len

/-- `mem_read` -/
def memRead (d : Debugger ρ) (addr : BitVec 64) (len : ℕ) : Bytes :=
  if d.s.alive then
    if d.s.memFd ∧ memBytes d.t addr len ≠ [] then memBytes d.t addr len else peekData d.t addr len
  else []

/-- `mem_write_byte`: the word is read, its lowest byte replaced, and written back. -/
def memWriteByte (d : Debugger ρ) (addr : BitVec 64) (b : UInt8) : Option (Debugger ρ) :=
  if d.s.alive then
    match d.t.peek addr with
    | none => none
    | some word => (d.t.poke addr (Function.update word 0 b)).map fun t => { d with t }
  else none

/-! ### Breakpoints -/

/-- `bp_find`: the slot and what is in it. -/
def bpFind (s : Session) (addr : BitVec 64) : Option (Fin 64 × Bp) :=
  (List.finRange 64).findSome? fun i => ((s.bps i).filter fun bp => bp.addr = addr).map fun bp => (i, bp)

/-- `bp_alloc` -/
def bpAlloc (s : Session) : Option (Fin 64) := (List.finRange 64).find? fun i => (s.bps i).isNone

/-- `bp_insert` -/
def bpInsert (d : Debugger ρ) (addr : BitVec 64) (temporary : Bool) : Bool × Debugger ρ :=
  if (bpFind d.s addr).isSome then (false, d)
  else
    match bpAlloc d.s with
    | none => (false, d)
    | some i =>
      match d.t.peek addr with
      | none => (false, d)
      | some word =>
        let bp : Bp :=
          { addr, shadow := word 0, inserted := false, temporary, hitCount := 0, ignoreCount := 0, cond := none }
        match memWriteByte d addr int3 with
        | none => (false, d)
        | some d => (true, d.setBp i (some { bp with inserted := true }))

/-- `bp_remove` -/
def bpRemove (d : Debugger ρ) (addr : BitVec 64) : Bool × Debugger ρ :=
  match bpFind d.s addr with
  | none => (false, d)
  | some (i, bp) =>
    let d := if bp.inserted then (memWriteByte d bp.addr bp.shadow).getD d else d
    let d := if d.s.pendingBp = bp.addr then { d with s := { d.s with pendingBp := 0 } } else d
    (true, d.setBp i none)

/-- `reg_table` -/
def regTable : List (Bytes × Reg) :=
  [(ascii "rax", .rax), (ascii "rbx", .rbx), (ascii "rcx", .rcx), (ascii "rdx", .rdx), (ascii "rsi", .rsi),
    (ascii "rdi", .rdi), (ascii "rbp", .rbp), (ascii "rsp", .rsp), (ascii "r8", .r8), (ascii "r9", .r9),
    (ascii "r10", .r10), (ascii "r11", .r11), (ascii "r12", .r12), (ascii "r13", .r13), (ascii "r14", .r14),
    (ascii "r15", .r15), (ascii "rip", .rip), (ascii "eflags", .eflags), (ascii "orig_rax", .orig_rax),
    (ascii "cs", .cs), (ascii "ss", .ss), (ascii "fs_base", .fs_base), (ascii "gs_base", .gs_base)]

/-- `reg_lookup` -/
def regLookup (name : Bytes) : Option Reg :=
  (regTable.find? fun e => e.1.map Json.toLower = name.map Json.toLower).map Prod.snd

def CondOp.eval : CondOp → BitVec 64 → BitVec 64 → Bool
  | eq, a, b => a = b
  | ne, a, b => a ≠ b
  | lt, a, b => a < b
  | le, a, b => a ≤ b
  | gt, a, b => b < a
  | ge, a, b => b ≤ a

/-- `bp_cond_true`, which is true for a register it does not know. -/
def bpCondTrue (regs : Regs) (cond : Option Cond) : Bool :=
  match cond with
  | none => true
  | some c =>
    match regLookup c.reg with
    | none => true
    | some r => c.op.eval (regs r) c.val

/-! ### Watchpoints -/

/-- The bits of a slot in `compute_dr7`. -/
def slotBits (i : Fin 4) (w : Watch) : BitVec 32 :=
  let lenCode : BitVec 32 :=
    if w.len = 1 then 0 else if w.len = 2 then 1 else if w.len = 8 then 2 else if w.len = 4 then 3 else 0
  (1 <<< (2 * i.val)) ||| ((BitVec.ofInt 32 w.rw &&& 3) <<< (16 + 4 * i.val)) ||| (lenCode <<< (18 + 4 * i.val))

/-- `compute_dr7` -/
def computeDr7 (s : Session) : BitVec 32 :=
  (List.finRange 4).foldl (fun dr7 i => dr7 ||| ((s.hwWps i).map (slotBits i)).getD 0) (1 <<< 8 ||| 1 <<< 9)

/-- The loop of `wp_apply` over the address registers. -/
def applyAddrs (s : Session) : List (Fin 4) → Tracee ρ → Bool × Tracee ρ
  | [], t => (true, t)
  | i :: is, t =>
    match t.pokeAddr i (((s.hwWps i).map Watch.addr).getD 0) with
    | (false, t) => (false, t)
    | (true, t) => applyAddrs s is t

/-- `wp_apply` -/
def wpApply (d : Debugger ρ) : Bool × Debugger ρ :=
  if d.s.alive then
    match applyAddrs d.s (List.finRange 4) d.t with
    | (false, t) => (false, { d with t })
    | (true, t) =>
      let (ok, t) := t.pokeControl ((computeDr7 d.s).setWidth 64)
      (ok, { d with t })
  else (false, d)

/-- `wp_validate` -/
def wpValidate (len rw : ℤ) : Bool :=
  (len = 1 || len = 2 || len = 4 || len = 8) && (rw = 0 || rw = 1 || rw = 3) && !(rw = 0 && len ≠ 1)

/-- The free slot that `wp_set` takes. -/
def freeSlot (s : Session) : Option (Fin 4) := (List.finRange 4).find? fun i => (s.hwWps i).isNone

def setWp (d : Debugger ρ) (i : Fin 4) (w : Option Watch) : Debugger ρ :=
  { d with s := { d.s with hwWps := Function.update d.s.hwWps i w } }

/-- `wp_set` -/
def wpSet (d : Debugger ρ) (addr : BitVec 64) (len rw : ℤ) : Bool × Debugger ρ :=
  if !wpValidate len rw then (false, d)
  else if len > 1 ∧ addr &&& BitVec.ofInt 64 (len - 1) ≠ 0 then (false, d)
  else if (List.finRange 4).any fun i => d.s.hwWps i = some ⟨addr, len, rw⟩ then (false, d)
  else
    match freeSlot d.s with
    | none => (false, d)
    | some slot =>
      match wpApply (setWp d slot (some ⟨addr, len, rw⟩)) with
      | (false, d) => (false, setWp d slot none)
      | (true, d) => (true, d)

/-- `wp_remove_slot` -/
def wpRemoveSlot (d : Debugger ρ) (slot : Fin 4) : Bool × Debugger ρ :=
  if (d.s.hwWps slot).isNone then (false, d)
  else
    let d := setWp d slot none
    wpApply
      (if d.s.pendingHwExec = some slot then { d with s := { d.s with pendingHwExec := none } } else d)

/-- `wp_remove_addr` -/
def wpRemoveAddr (d : Debugger ρ) (addr : BitVec 64) : Bool × Debugger ρ :=
  match (List.finRange 4).find? fun i => (d.s.hwWps i).any fun w => w.addr = addr with
  | some i => wpRemoveSlot d i
  | none => (false, d)

/-- `wp_remove_all` -/
def wpRemoveAll (d : Debugger ρ) : Bool × Debugger ρ :=
  let any := (List.finRange 4).any fun i => (d.s.hwWps i).isSome
  let d := { d with s := { d.s with hwWps := fun _ => none, pendingHwExec := none } }
  if any then wpApply d else (true, d)

/-- `wp_check_hit` -/
def wpCheckHit (d : Debugger ρ) : Bool × Debugger ρ :=
  if (List.finRange 4).all fun i => !d.t.debug.fired i then (false, d)
  else
    let slots := (List.finRange 4).filter fun i => d.t.debug.fired i && (d.s.hwWps i).isSome
    let execs := slots.filter fun i => (d.s.hwWps i).any fun w => w.rw = 0
    (!slots.isEmpty,
      { s := { d.s with
          out := d.s.out ++ slots.map .watch
          pendingHwExec := execs.getLast?.or d.s.pendingHwExec }
        t := d.t.clearFired.2 })

/-- `wp_set_rf_for_exec_resume` -/
def wpSetRf (d : Debugger ρ) : Bool × Debugger ρ :=
  match d.s.pendingHwExec with
  | none => (true, d)
  | some _ =>
    match refreshRegs d with
    | (false, d) => (false, d)
    | (true, d) =>
      let regs := d.s.regs.resume
      (true, { s := { d.s with regs, pendingHwExec := none }, t := d.t.setRegs regs })

/-! ### Resuming -/

section
variable (M : Machine ρ)

/-- The `0xCC` of a breakpoint is put back. -/
def replant (d : Debugger ρ) (addr : BitVec 64) : Debugger ρ :=
  match bpFind d.s addr with
  | none => d
  | some (i, bp) =>
    if bp.inserted then d
    else
      match memWriteByte d bp.addr int3 with
      | none => d
      | some d => d.setBp i (some { bp with inserted := true })

/-- `resume_step_over_bp`: whatever the single-step stopped for, only the death of the process is looked at. -/
def resumeStepOverBp (d : Debugger ρ) : Bool × Debugger ρ :=
  if d.s.pendingBp = 0 then (true, d)
  else
    let (status, t) := M.singleStep d.t
    let d := replant { d with t } d.s.pendingBp
    let d := { d with s := { d.s with pendingBp := 0 } }
    match status with
    | .exited code => (false, { d with s := { d.s with alive := false, exitedCode := code } })
    | .signaled sig => (false, { d with s := { d.s with alive := false, signaledSig := sig } })
    | .stopped _ _ => (true, d)

/-- `bp_auto_continue`, up to the wait: what follows it is `handle_stop`. -/
def bpAutoContinue (d : Debugger ρ) : Next × Debugger ρ :=
  match wpSetRf { d with s := { d.s with lastSig := 0 } } with
  | (false, d) => (.ret !d.s.alive, d)
  | (true, d) =>
    match resumeStepOverBp M d with
    | (false, d) => (.ret !d.s.alive, d)
    | (true, d) => (.wait, d)

/-- An `int` after arithmetic. -/
def wrap (n : ℤ) : ℤ := n.bmod (2 ^ 32)

/-- A breakpoint that is not temporary is hit: its counts and its condition, and whether to go on. -/
def hitBp (d : Debugger ρ) (i : Fin 64) (bp : Bp) : Bool × Debugger ρ :=
  let bp := { bp with hitCount := wrap (bp.hitCount + 1) }
  if !bpCondTrue d.s.regs bp.cond then (true, d.setBp i (some bp))
  else if bp.ignoreCount > 0 then
    let bp := { bp with ignoreCount := bp.ignoreCount - 1 }
    (true, (d.setBp i (some bp)).print (.ignored (d.s.regs .rip) bp.ignoreCount))
  else (false, (d.setBp i (some bp)).print (.hit (d.s.regs .rip)))

/-- What `handle_sigtrap` makes of a trap it takes for that of a breakpoint, and whether to go on: `rip` is
rewound, and the byte under the breakpoint restored. -/
def judgeTrap (d : Debugger ρ) : Bool × Debugger ρ :=
  let regs := Function.update d.s.regs .rip (d.s.regs .rip - 1)
  let d : Debugger ρ := { s := { d.s with regs }, t := d.t.setRegs regs }
  match (bpFind d.s (regs .rip)).filter fun e => e.2.inserted with
  | none => (false, d.print (.trap (regs .rip)))
  | some (i, bp) =>
    let (bp, d) :=
      match memWriteByte d bp.addr bp.shadow with
      | none => (bp, d)
      | some d => ({ bp with inserted := false }, { d with s := { d.s with pendingBp := bp.addr } })
    if bp.temporary then
      let d := (d.setBp i none).print (.hitTemp (regs .rip))
      (false, { d with s := { d.s with pendingBp := 0 } })
    else hitBp d i bp

/-- What `handle_sigtrap` comes to: it returns, or `bp_auto_continue` is to be called. -/
inductive Verdict
  | stop (ok : Bool)
  | goOn
  deriving DecidableEq

/-- `handle_sigtrap` up to `bp_auto_continue` -/
def sigtrapVerdict (d : Debugger ρ) : Verdict × Debugger ρ :=
  match refreshRegs d with
  | (false, d) => (.stop false, d)
  | (true, d) =>
    match wpCheckHit d with
    | (true, d) => (.stop true, { d with s := { d.s with lastSig := 0 } })
    | (false, d) =>
      if d.t.siCode = .trace then (.stop true, { d with s := { d.s with lastSig := 0 } })
      else
        match judgeTrap d with
        | (true, d) => (.goOn, d)
        | (false, d) => (.stop true, { d with s := { d.s with lastSig := 0 } })

/-- `handle_sigtrap` -/
def handleSigtrap (d : Debugger ρ) : Next × Debugger ρ :=
  match sigtrapVerdict d with
  | (.stop ok, d) => (.ret ok, d)
  | (.goOn, d) => bpAutoContinue M d

/-- `handle_stop`, up to its next wait. The process that a fork makes is let go and is not followed. -/
def handleStop (d : Debugger ρ) : Status → Next × Debugger ρ
  | .exited code =>
    (.ret false, ({ d with s := { d.s with alive := false, exitedCode := code } } : Debugger ρ).print (.exited code))
  | .signaled sig =>
    (.ret false, ({ d with s := { d.s with alive := false, signaledSig := sig } } : Debugger ρ).print (.killed sig))
  | .stopped _ (some e) => (.wait, ({ d with s := { d.s with lastSig := 0 } } : Debugger ρ).print (.event e))
  | .stopped sig none =>
    let d : Debugger ρ := { d with s := { d.s with lastSig := sig } }
    if sig = sigtrap then handleSigtrap M d
    else if sig < 1 ∨ nsig ≤ sig then
      let d := (refreshRegs d).2
      (.ret true, d.print (.stoppedBy sig (d.s.regs .rip)))
    else
      let d := if d.s.sigPrint sig then d.print (.received sig) else d
      if d.s.sigStop sig then
        let d := (refreshRegs d).2
        (.ret true, d.print (.stopped (d.s.regs .rip)))
      else (.wait, { d with t := M.cont (if d.s.sigProgram sig then sig else 0) d.t })

/-! ### The commands -/

/-- What is left of a command once `handle_stop` has returned. A step over that single-steps ends as a step. -/
inductive After
  | dc
  | ds
  | dso (nextPc : BitVec 64)
  deriving DecidableEq

/-- The signal that a resumption forwards. -/
def deliver (s : Session) : ℕ :=
  if 0 < s.lastSig ∧ s.lastSig < nsig ∧ s.sigProgram s.lastSig then s.lastSig else 0

/-- `cmd_dc`, up to the wait. -/
def cmdDc (d : Debugger ρ) : Next × Debugger ρ :=
  if d.s.alive then
    match wpSetRf d with
    | (false, d) => (.ret !d.s.alive, d)
    | (true, d) =>
      match resumeStepOverBp M d with
      | (false, d) => (.ret !d.s.alive, d)
      | (true, d) => (.wait, { d with t := M.cont (deliver d.s) d.t })
  else (.ret false, d)

/-- A single-step, after which `handle_stop` may still wait. -/
def stepOnce (d : Debugger ρ) : Next × Debugger ρ :=
  let (status, t) := M.singleStep d.t
  handleStop M { d with t } status

/-- `cmd_ds`, up to the wait. -/
def cmdDs (d : Debugger ρ) : Next × Debugger ρ :=
  if d.s.alive then
    match wpSetRf d with
    | (false, d) => (.ret false, d)
    | (true, d) =>
      if d.s.pendingBp ≠ 0 then
        match resumeStepOverBp M d with
        | (false, d) => (.ret false, d)
        | (true, d) => (.ret true, d)
      else stepOnce M d
  else (.ret false, d)

/-- The sixteen bytes that `cmd_dso` reads, zero where it can read no more: nothing if it can read none. -/
def insnAt (d : Debugger ρ) : Option Bytes :=
  let bytes := memRead d (d.s.regs .rip) 16
  if bytes = [] then none else some (bytes ++ List.replicate (16 - bytes.length) 0)

/-- The ways a step over takes: it fails, steps off the breakpoint it is on, steps once, or runs to a breakpoint of
its own. -/
inductive Way (ρ : Type)
  | fail (d : Debugger ρ)
  | off (d : Debugger ρ)
  | once (d : Debugger ρ)
  | toNext (nextPc : BitVec 64) (d : Debugger ρ)

/-- `cmd_dso` until the process is resumed. -/
def dsoWay (d : Debugger ρ) : Way ρ :=
  match wpSetRf d with
  | (false, d) => .fail d
  | (true, d) =>
    let d := if d.s.regsValid then d else (refreshRegs d).2
    match insnAt d with
    | none => .fail d
    | some insn =>
      let len := callInsnLength insn
      if d.s.pendingBp ≠ 0 then .off d
      else if len ≤ 0 then .once d
      else
        let nextPc := d.s.regs .rip + BitVec.ofInt 64 len
        match bpInsert d nextPc true with
        | (false, d) => .once d
        | (true, d) => .toNext nextPc d

/-- `cmd_dso`, up to the wait, with what is left of it. -/
def cmdDso (d : Debugger ρ) : After × Next × Debugger ρ :=
  if d.s.alive then
    match dsoWay d with
    | .fail d => (.dc, .ret false, d)
    | .off d =>
      match resumeStepOverBp M d with
      | (false, d) => (.dc, .ret false, d)
      | (true, d) => (.ds, .ret true, d)
    | .once d => (.ds, stepOnce M d)
    | .toNext nextPc d => (.dso nextPc, .wait, { d with t := M.cont (deliver d.s) d.t })
  else (.dc, .ret false, d)

/-- The end of a command, by what `handle_stop` returned. -/
def finish (after : After) (ok : Bool) (d : Debugger ρ) : Debugger ρ :=
  match after with
  | .dc => d
  | .ds => if ok then (refreshRegs d).2 else d
  | .dso nextPc =>
    let d :=
      match (bpFind d.s nextPc).filter fun e => e.2.temporary with
      | none => d
      | some (i, bp) =>
        if d.s.alive then
          let d := (refreshRegs d).2
          d.print (.interrupted (d.s.regs .rip) nextPc)
        else (if bp.inserted then (memWriteByte d bp.addr bp.shadow).getD d else d).setBp i none
    (refreshRegs d).2

/-- The fields of a breakpoint that a command sets. -/
def onBp (d : Debugger ρ) (addr : BitVec 64) (f : Bp → Bp) : Debugger ρ :=
  match bpFind d.s addr with
  | none => d
  | some (i, bp) => d.setBp i (some (f bp))

/-- `db addr ignore n`: the number is cast to an `int`. -/
def cmdDbIgnore (d : Debugger ρ) (addr : BitVec 64) (n : ℤ) : Debugger ρ :=
  if n < 0 then d else onBp d addr fun bp => { bp with ignoreCount := wrap n }

/-- `db addr reset` -/
def cmdDbReset (d : Debugger ρ) (addr : BitVec 64) : Debugger ρ :=
  onBp d addr fun bp => { bp with hitCount := 0 }

/-- `cmd_cond` with its arguments: seven bytes of the register's name are kept. -/
def cmdCond (d : Debugger ρ) (addr : BitVec 64) (c : Option Cond) : Debugger ρ :=
  match c with
  | none => onBp d addr fun bp => { bp with cond := none }
  | some c =>
    if (regLookup c.reg).isNone then d
    else onBp d addr fun bp => { bp with cond := some { c with reg := c.reg.take 7 } }

/-- A command with its arguments parsed. -/
inductive Command
  | db (addr : BitVec 64)
  | dbRemove (addr : BitVec 64)
  | dbIgnore (addr : BitVec 64) (n : ℤ)
  | dbReset (addr : BitVec 64)
  | cond (addr : BitVec 64) (c : Option Cond)
  | dc
  | ds
  | dso
  | watch (addr : BitVec 64) (len rw : ℤ)
  | watchRemoveSlot (slot : Fin 4)
  | watchRemoveAddr (addr : BitVec 64)
  | watchRemoveAll
  deriving DecidableEq

/-- A command, up to the wait, with what is left of it. -/
def dispatch (d : Debugger ρ) : Command → After × Next × Debugger ρ
  | .db addr => let (ok, d) := bpInsert d addr false; (.dc, .ret ok, d)
  | .dbRemove addr => let (ok, d) := bpRemove d addr; (.dc, .ret ok, d)
  | .dbIgnore addr n => (.dc, .ret true, cmdDbIgnore d addr n)
  | .dbReset addr => (.dc, .ret true, cmdDbReset d addr)
  | .cond addr c => (.dc, .ret true, cmdCond d addr c)
  | .dc => (.dc, cmdDc M d)
  | .ds => (.ds, cmdDs M d)
  | .dso => cmdDso M d
  | .watch addr len rw => let (ok, d) := wpSet d addr len rw; (.dc, .ret ok, d)
  | .watchRemoveSlot slot => let (ok, d) := wpRemoveSlot d slot; (.dc, .ret ok, d)
  | .watchRemoveAddr addr => let (ok, d) := wpRemoveAddr d addr; (.dc, .ret ok, d)
  | .watchRemoveAll => let (ok, d) := wpRemoveAll d; (.dc, .ret ok, d)

/-! ### Runs -/

/-- Whether the debugger is at its prompt, or waits for the process in a command. -/
inductive Mode
  | prompt
  | waiting (after : After)
  deriving DecidableEq

/-- The debugger, and the prompts it has shown: what was printed last and the registers. -/
structure State (ρ : Type) where
  d : Debugger ρ
  mode : Mode
  prompts : List (Option Report × Regs)

/-- A command comes to a wait, or ends, which shows the prompt if the process is there. -/
def settle (prompts : List (Option Report × Regs)) (after : After) : Next × Debugger ρ → State ρ
  | (.wait, d) => ⟨d, .waiting after, prompts⟩
  | (.ret ok, d) =>
    let d := finish after ok d
    ⟨d, .prompt, if d.s.alive then prompts ++ [(d.s.out.getLast?, d.t.regs)] else prompts⟩

/-- What happens: a command, a tick of the process while the debugger waits, or a change of the world around the
process. The first two come with the register writes that are to be refused. -/
inductive Act (ρ : Type)
  | command (c : Command) (refuse : List Bool)
  | tick (refuse : List Bool)
  | world (world : ρ)

def refusing (d : Debugger ρ) (refuse : List Bool) : Debugger ρ := { d with t := { d.t with refuse } }

/-- One act. Without the process there is no prompt any more. -/
def step (st : State ρ) : Act ρ → State ρ
  | .command c refuse =>
    if st.mode = .prompt ∧ st.d.s.alive then
      let (after, next) := dispatch M (refusing st.d refuse) c
      settle st.prompts after next
    else st
  | .tick refuse =>
    match st.mode with
    | .prompt => st
    | .waiting after =>
      match M.tick (refusing st.d refuse).t with
      | .ran t => { st with d := { st.d with t } }
      | .stop status t => settle st.prompts after (handleStop M { st.d with t } status)
  | .world world => { st with d := { st.d with t := { st.d.t with world } } }

/-! ### What an act has the process do -/

/-- The process as `resume_step_over_bp` steps it off a breakpoint, if it does. -/
def steppedOff (d : Debugger ρ) : Option (Tracee ρ) :=
  if d.s.pendingBp = 0 then none else some (wpSetRf d).2.t

/-- The process that `handle_stop` steps off a breakpoint, if it does. -/
def steppedOffAtStop (d : Debugger ρ) : Status → Option (Tracee ρ)
  | .stopped sig none =>
    if sig = sigtrap then
      match sigtrapVerdict { d with s := { d.s with lastSig := sig } } with
      | (.goOn, d) => steppedOff d
      | _ => none
    else none
  | _ => none

/-- The process that a command steps once, to look at what it stops for. -/
def steppedOnce (d : Debugger ρ) : Command → Option (Debugger ρ)
  | .ds => if d.s.pendingBp = 0 then some (wpSetRf d).2 else none
  | .dso =>
    match dsoWay d with
    | .once d => some d
    | _ => none
  | _ => none

/-- The process that a command steps off a breakpoint before anything else. -/
def steppedOffFirst (d : Debugger ρ) : Command → Option (Tracee ρ)
  | .dc => steppedOff d
  | .ds => steppedOff d
  | .dso =>
    match dsoWay d with
    | .off d => some d.t
    | _ => none
  | _ => none

/-- The process whose tick an act waits for and looks at. -/
def observed (st : State ρ) : Act ρ → Option (Tracee ρ)
  | .command c refuse =>
    if st.mode = .prompt ∧ st.d.s.alive then (steppedOnce (refusing st.d refuse) c).map Debugger.t else none
  | .tick refuse => if st.mode = .prompt then none else some (refusing st.d refuse).t
  | .world _ => none

/-- The process that an act steps off a breakpoint. -/
def unobserved (st : State ρ) : Act ρ → Option (Tracee ρ)
  | .command c refuse =>
    if st.mode = .prompt ∧ st.d.s.alive then
      (steppedOffFirst (refusing st.d refuse) c).or
        ((steppedOnce (refusing st.d refuse) c).bind fun d =>
          steppedOffAtStop { d with t := (M.singleStep d.t).2 } (M.singleStep d.t).1)
    else none
  | .tick refuse =>
    if st.mode = .prompt then none
    else
      match M.tick (refusing st.d refuse).t with
      | .ran _ => none
      | .stop status t => steppedOffAtStop { st.d with t } status
  | .world _ => none

end

end Two09.Debag.DynamicDb
