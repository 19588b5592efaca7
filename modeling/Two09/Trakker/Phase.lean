import Two09.Lib.Trace
import Two09.Trakker.Loop

/-!
# Entries and exits

The two stops of a system call look alike, and the tracer tells them apart by a toggle that processes share when
their pids are equal modulo `PID_MAP_SIZE`.
-/

namespace Two09.Trakker

open Two09.Lib

section
variable (policy : Policy) (cwd : Option Bytes) (child : Pid)

/-- A stop at the entry of a system call is handled as one, and so is a stop at the exit. -/
def Handled (t : Tracer) (s : Stop) : Prop :=
  s.isSyscall = true → ∀ regs, s.regs = some regs →
    t.onStop policy cwd child s = if s.entry then t.atEntry policy cwd s regs else t.atExit s regs

/-- Each stop of a run is handled as what it is. -/
def NeverConfused (run : List Stop) : Prop :=
  AtEach (fun t s => (t.onStop policy cwd child s).1) (Handled policy cwd child) .start run

end

/-- For each place of the map, whether the last stop in it was at an entry. -/
def mark (last : Fin pidMapSize → Bool) (s : Stop) : Fin pidMapSize → Bool :=
  if s.isSyscall then Function.update last (slot s.pid) s.entry
  else if s.isExec then Function.update last (slot s.pid) false
  else last

/-- In each place of the map, stops at entries and at exits take turns. -/
def Alternate (run : List Stop) : Prop :=
  AtEach mark (fun last s => s.isSyscall = true → s.entry = !last (slot s.pid)) (fun _ => false) run

section
variable {policy : Policy} {cwd : Option Bytes} {child : Pid} {t : Tracer} {s : Stop} {regs : Regs}

/-- The branches are told apart by what they leave in the map. -/
lemma atEntry_ne_atExit : t.atEntry policy cwd s regs ≠ t.atExit s regs := by
  intro h
  have hslot := congrArg (fun r => r.1.inSyscall (slot s.pid)) h
  simp [Tracer.atEntry, Tracer.atExit] at hslot

/-- What a stop at a system call is. -/
lemma isSyscall_iff : s.isSyscall = true ↔ ∃ event regs, s.status = .stopped syscallSignal event ∧
    event ∉ forkEvents ∧ event ≠ execEvent ∧ s.regs = some regs := by
  unfold Stop.isSyscall
  cases s.status with
  | stopped sig event => simp [Option.isSome_iff_exists]
  | _ => simp

lemma onStop_syscall (hs : s.isSyscall = true) (hregs : s.regs = some regs) :
    t.onStop policy cwd child s =
      if t.inSyscall (slot s.pid) then t.atExit s regs else t.atEntry policy cwd s regs := by
  obtain ⟨event, -, hstatus, hfork, hexec, -⟩ := isSyscall_iff.1 hs
  unfold Tracer.onStop
  rw [hstatus]
  show (if event ∈ forkEvents then _ else _) = _
  rw [if_neg hfork, if_neg hexec, if_neg (by decide), if_neg (not_not.2 rfl), hregs]

/-- A stop is handled as what it is when the toggle says so. -/
lemma handled_iff : Handled policy cwd child t s ↔
    (s.isSyscall = true → s.entry = !t.inSyscall (slot s.pid)) := by
  refine imp_congr_right fun hs => ?_
  obtain ⟨-, regs, -, -, -, hregs⟩ := isSyscall_iff.1 hs
  have hne : t.atEntry policy cwd s regs ≠ t.atExit s regs := atEntry_ne_atExit
  constructor
  · intro h
    replace h := h regs hregs
    rw [onStop_syscall hs hregs] at h
    cases hentry : s.entry <;> cases hin : t.inSyscall (slot s.pid) <;> rw [hentry, hin] at h
    · exact absurd h hne
    · rfl
    · rfl
    · exact absurd h.symm hne
  · intro h regs' hregs'
    obtain rfl : regs = regs' := Option.some.inj (hregs.symm.trans hregs')
    rw [onStop_syscall hs hregs, h]
    cases t.inSyscall (slot s.pid) <;> rfl

/-- What a stop that is handled as what it is does to the map. -/
lemma inSyscall_onStop (h : s.isSyscall = true → s.entry = !t.inSyscall (slot s.pid)) :
    (t.onStop policy cwd child s).1.inSyscall = mark t.inSyscall s := by
  by_cases hs : s.isSyscall = true
  · obtain ⟨-, regs, -, -, -, hregs⟩ := isSyscall_iff.1 hs
    rw [onStop_syscall hs hregs, mark, if_pos hs, h hs]
    cases t.inSyscall (slot s.pid) <;> rfl
  · rw [mark, if_neg hs]
    unfold Tracer.onStop Stop.isExec
    rw [isSyscall_iff] at hs
    cases hstatus : s.status with
    | stopped sig event =>
      simp only [decide_eq_true_eq]
      by_cases hfork : event ∈ forkEvents
      · rw [if_pos hfork, if_neg (by rintro rfl; exact absurd hfork (by decide))]
      rw [if_neg hfork]
      by_cases hexec : event = execEvent
      · rw [if_pos hexec, if_pos hexec]
      rw [if_neg hexec, if_neg hexec]
      by_cases hsig : sig = syscallSignal
      · subst hsig
        rw [if_neg (by decide), if_neg (not_not.2 rfl)]
        cases hregs : s.regs with
        | none => rfl
        | some regs => exact absurd ⟨event, regs, hstatus, hfork, hexec, hregs⟩ hs
      · split_ifs <;> rfl
    | _ => rfl

/-- The toggles are in step with the stops for as long as these are handled as what they are. -/
lemma atEach_handled_iff (run : List Stop) (t : Tracer) :
    AtEach (fun t s => (t.onStop policy cwd child s).1) (Handled policy cwd child) t run ↔
      AtEach mark (fun last s => s.isSyscall = true → s.entry = !last (slot s.pid)) t.inSyscall run := by
  induction run generalizing t with
  | nil => exact Iff.rfl
  | cons s run ih =>
    rw [atEach_cons, atEach_cons, handled_iff, ih]
    refine and_congr_right fun h => ?_
    rw [inSyscall_onStop h]

end

/-- **The tracer confuses no entry with an exit** exactly when they take turns in each place of the map. -/
theorem neverConfused_iff (policy : Policy) (cwd : Option Bytes) (child : Pid) (run : List Stop) :
    NeverConfused policy cwd child run ↔ Alternate run :=
  atEach_handled_iff run .start

/-! ### What the kernel reports -/

/-- Where a process is. -/
inductive Phase
  | gone
  | outside
  | inside
  deriving DecidableEq

/-- What the kernel can report next, with what it does. Left out is the `exec` of a thread, which goes on under the
pid of another one. -/
def Allows (phase : Pid → Phase) (s : Stop) : Prop :=
  match s.status with
  | .stopped sig event =>
    if event ∈ forkEvents then phase s.pid = .inside ∧ phase s.newPid = .gone
    else event = 0 ∧ phase s.pid = (if sig = syscallSignal ∧ s.entry = false then .inside else .outside)
  | _ => phase s.pid ≠ .gone

instance (phase : Pid → Phase) : DecidablePred (Allows phase) := fun s => by
  unfold Allows
  split <;> infer_instance

/-- Where the processes are afterwards. -/
def goOn (phase : Pid → Phase) (s : Stop) : Pid → Phase :=
  match s.status with
  | .stopped sig event =>
    if event ∈ forkEvents then Function.update phase s.newPid .outside
    else if sig = syscallSignal then Function.update phase s.pid (if s.entry then .inside else .outside)
    else phase
  | .continued => phase
  | _ => Function.update phase s.pid .gone

/-- A run that the kernel can report of a program that is started. -/
def Possible (child : Pid) (run : List Stop) : Prop :=
  AtEach goOn Allows (Function.update (fun _ => .gone) child .outside) run

/-- A system call of a process, at one of its stops. -/
def syscallStop (pid : Pid) (nr : UInt64) (entry : Bool) : Stop :=
  ⟨pid, .stopped syscallSignal 0, 0, some ⟨nr, -38, 0, 0, 0⟩, fun _ => none, entry⟩

/-- A process forks, and ends in the call of `exit_group`; the other one, 4096 pids further, goes on. -/
def forkAndExit : List Stop :=
  [syscallStop 100 57 true, ⟨100, .stopped SIGTRAP 1, 4196, none, fun _ => none, false⟩, syscallStop 100 57 false,
    ⟨4196, .stopped 19 0, 0, none, fun _ => none, false⟩, syscallStop 100 231 true,
    ⟨100, .exited 0, 0, none, fun _ => none, false⟩, syscallStop 4196 SYS_socket true]

/-- **An entry is taken for an exit**, in the place of a process that has ended. -/
theorem forkAndExit_confused :
    Possible 100 forkAndExit ∧
      ∀ (policy : Policy) (cwd : Option Bytes), ¬NeverConfused policy cwd 100 forkAndExit := by
  refine ⟨?_, fun policy cwd => ?_⟩
  · unfold Possible forkAndExit
    simp only [atEach_cons, atEach_nil]
    decide
  · rw [NeverConfused, atEach_handled_iff forkAndExit .start]
    unfold forkAndExit
    simp only [atEach_cons, atEach_nil]
    decide

end Two09.Trakker
