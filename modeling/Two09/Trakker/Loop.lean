import Two09.Lib.Bytes

/-!
# The tracing loop

`trakker_run` between two calls of `waitpid`: what it does at each stop of a process that it traces. Allocation
failures are not modelled, nor what the tracer keeps of the pids, which it never looks at.
-/

namespace Two09.Trakker

open Two09.Lib

/-! ### What is traced -/

abbrev Pid := Nat

/-- What the loop uses of `struct user_regs_struct`. -/
structure Regs where
  origRax : UInt64
  rax : UInt64
  rdi : UInt64
  rsi : UInt64
  rdx : UInt64
  deriving DecidableEq

/-- What can be read at an address. -/
abbrev Memory := UInt64 → Option UInt8

/-- A status of `waitpid`, taken apart. -/
inductive Status
  | exited (code : Nat)
  | signaled (sig : Nat)
  | stopped (sig event : Nat)
  | continued
  deriving DecidableEq

/-- What `waitpid` returns, and what `ptrace` then tells. Whether a stop of a system call is the one at its entry,
only the kernel knows. -/
structure Stop where
  pid : Pid
  status : Status
  newPid : Pid
  regs : Option Regs
  memory : Memory
  entry : Bool

def SIGTRAP : Nat := 5

/-- `SIGTRAP | 0x80` -/
def syscallSignal : Nat := 133

/-- `PTRACE_EVENT_FORK`, `PTRACE_EVENT_VFORK`, `PTRACE_EVENT_CLONE` -/
def forkEvents : List Nat := [1, 2, 3]

/-- `PTRACE_EVENT_EXEC`, which the options do not ask for. -/
def execEvent : Nat := 4

/-- A stop at a system call, with registers that can be read. -/
def Stop.isSyscall (s : Stop) : Bool :=
  match s.status with
  | .stopped sig event => sig = syscallSignal ∧ event ∉ forkEvents ∧ event ≠ execEvent ∧ s.regs.isSome = true
  | _ => false

/-- A stop at an `exec`. -/
def Stop.isExec (s : Stop) : Bool :=
  match s.status with
  | .stopped _ event => event = execEvent
  | _ => false

/-! ### The tracer -/

/-- `trakker_policy_t` -/
structure Policy where
  noNet : Bool
  noWrite : Bool
  redirectWrites : Option Bytes
  allowNetPorts : List Bytes

/-- `trak_event_t` -/
inductive Event
  | fileRead (path : Bytes)
  | fileWrite (path : Bytes)
  | fileDelete (path : Bytes)
  | netConnect (address : Bytes)
  | netBlocked (address : Bytes)
  | procFork (pid : Pid) (command : Bytes)
  | procExec (pid : Pid) (command : Bytes)
  | procExit (pid : Pid) (exitCode : Nat)
  deriving DecidableEq

/-- What the tracer does with the process, and to directories. -/
inductive Action
  | mkdirs (path : Bytes)
  | poke (addr : UInt64) (data : Bytes)
  | setRegs (regs : Regs)
  | resume (sig : Nat)
  deriving DecidableEq

/-- `PID_MAP_SIZE` -/
abbrev pidMapSize : Nat := 4096

/-- The place of a process in `in_syscall_arr`. -/
def slot (pid : Pid) : Fin pidMapSize := Fin.ofNat pidMapSize pid

/-- What the loop keeps: `in_syscall_arr`, and the result. -/
structure Tracer where
  inSyscall : Fin pidMapSize → Bool
  events : List Event
  exitCode : Int

def Tracer.start : Tracer := ⟨fun _ => false, [], 0⟩

/-! ### The memory of the process -/

def PATH_MAX : Nat := 4096

/-- `PTRACE_PEEKDATA` -/
def peek (memory : Memory) (addr : UInt64) : Option Bytes :=
  (List.range 8).mapM fun i => memory (addr + i.toUInt64)

/-- So many words of a string. -/
def readWords (memory : Memory) : UInt64 → Nat → Bytes
  | _, 0 => []
  | addr, n + 1 =>
    match peek memory addr with
    | none => []
    | some word =>
      if 0 ∈ word then word.takeWhile (· ≠ 0) else word ++ readWords memory (addr + 8) n

/-- `read_child_string`. Without an end, seven bytes behind the last word are not set; they are taken for zeros. -/
def readChildString (memory : Memory) (addr : UInt64) : Bytes :=
  if addr = 0 then ascii "<null>" else readWords memory addr ((PATH_MAX - 8) / 8)

/-- What `write_child_string` puts into the memory, in whole words. -/
def writtenString (s : Bytes) : Bytes := s ++ List.replicate (8 - s.length % 8) 0

/-- `redirect_path`, in the directory of the tracer. -/
def redirectPath (cwd : Option Bytes) (original redirectDir : Bytes) : Bytes :=
  if redirectDir.isPrefixOf original then original
  else if original.head? = some 47 then (redirectDir ++ original).take (PATH_MAX - 1)
  else (redirectDir ++ cwd.getD [] ++ 47 :: original).take (PATH_MAX - 1)

/-! ### System calls -/

def SYS_open : UInt64 := 2
def SYS_openat : UInt64 := 257
def SYS_unlink : UInt64 := 87
def SYS_unlinkat : UInt64 := 263
def SYS_socket : UInt64 := 41
def SYS_connect : UInt64 := 42
def SYS_execve : UInt64 := 59

/-- `O_WRONLY | O_RDWR | O_CREAT | O_TRUNC | O_APPEND` -/
def writeFlags : UInt64 := 1 ||| 2 ||| 0x40 ||| 0x200 ||| 0x400

section Handlers
variable (policy : Policy) (cwd : Option Bytes) (s : Stop) (regs : Regs)

/-- The redirection of a file that is opened for writing. -/
def redirect (path : Bytes) (addr : UInt64) : List Action :=
  -- what `no_write` would block is left to the next stop, which does nothing about it
  if policy.noWrite then []
  else match policy.redirectWrites with
    | none => []
    | some dir =>
      let newPath := redirectPath cwd path dir
      let parent : List Action :=
        if 47 ∈ newPath then [.mkdirs (newPath.reverse.dropWhile (· ≠ 47)).tail.reverse] else []
      parent ++ [.poke addr (writtenString newPath)]

/-- The opening of a file, with the registers that hold its path and the flags. -/
def onOpen (pathAddr flags : UInt64) : List Event × List Action :=
  let path := readChildString s.memory pathAddr
  if flags &&& writeFlags ≠ 0 then ([.fileWrite path], redirect policy cwd path pathAddr)
  else ([.fileRead path], [])

/-- Making the system call an invalid one. -/
def block (address : String) : List Event × List Action :=
  ([.netBlocked (ascii address)], [.setRegs { regs with origRax := -1 }])

/-- The entry of a system call: what is recorded, and what is done. -/
def onEntry : List Event × List Action :=
  if regs.origRax = SYS_open then onOpen policy cwd s regs.rdi regs.rsi
  else if regs.origRax = SYS_openat then onOpen policy cwd s regs.rsi regs.rdx
  else if regs.origRax = SYS_unlink then ([.fileDelete (readChildString s.memory regs.rdi)], [])
  else if regs.origRax = SYS_unlinkat then ([.fileDelete (readChildString s.memory regs.rsi)], [])
  else if regs.origRax = SYS_socket then
    if policy.noNet then block regs "socket()" else ([], [])
  else if regs.origRax = SYS_connect then
    if policy.noNet then block regs "connect()" else ([.netConnect (ascii "(connect)")], [])
  else if regs.origRax = SYS_execve then ([.procExec s.pid (readChildString s.memory regs.rdi)], [])
  else ([], [])

/-- The exit of a system call. -/
def onExit : List Action :=
  if regs.rax = -1 ∧ regs.origRax = -1 then
    -- the registers are read again: `-ENOSYS`, to be replaced by `-EPERM`
    if regs.rax = -38 then [.setRegs { regs with rax := -1 }] else []
  else []

end Handlers

/-! ### The loop -/

section Loop
variable (policy : Policy) (cwd : Option Bytes) (child : Pid)

/-- The branch for the entry of a system call. -/
def Tracer.atEntry (t : Tracer) (s : Stop) (regs : Regs) : Tracer × List Action :=
  ({ t with
      inSyscall := Function.update t.inSyscall (slot s.pid) true
      events := t.events ++ (onEntry policy cwd s regs).1 },
    (onEntry policy cwd s regs).2 ++ [.resume 0])

/-- The branch for the exit. -/
def Tracer.atExit (t : Tracer) (s : Stop) (regs : Regs) : Tracer × List Action :=
  ({ t with inSyscall := Function.update t.inSyscall (slot s.pid) false }, onExit regs ++ [.resume 0])

/-- One round of the loop. -/
def Tracer.onStop (t : Tracer) (s : Stop) : Tracer × List Action :=
  match s.status with
  | .exited code =>
    ({ t with
        events := t.events ++ [.procExit s.pid code]
        exitCode := if s.pid = child then code else t.exitCode }, [])
  | .signaled sig => ({ t with exitCode := if s.pid = child then -sig else t.exitCode }, [])
  | .continued => (t, [])
  | .stopped sig event =>
    if event ∈ forkEvents then
      ({ t with events := t.events ++ [.procFork s.newPid (ascii "(fork)")] }, [.resume 0])
    else if event = execEvent then
      ({ t with inSyscall := Function.update t.inSyscall (slot s.pid) false }, [.resume 0])
    else if sig = SIGTRAP then (t, [.resume 0])
    else if sig ≠ syscallSignal then (t, [.resume sig])
    else match s.regs with
      | none => (t, [.resume 0])
      | some regs =>
        if t.inSyscall (slot s.pid) then t.atExit s regs else t.atEntry policy cwd s regs

/-- The tracer after a run. -/
def trace (run : List Stop) : Tracer :=
  run.foldl (fun t s => (t.onStop policy cwd child s).1) .start

end Loop

end Two09.Trakker
