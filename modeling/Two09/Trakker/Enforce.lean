import Two09.Trakker.Phase

/-!
# What the policy keeps a program from

The system calls that a policy forbids, and which of them are made invalid before the kernel carries them out.
-/

namespace Two09.Trakker

open Two09.Lib

/-! ### What is forbidden -/

/-- `creat`, `truncate`, `ftruncate`, `mknod`, `mknodat`, `mkdir`, `mkdirat`, `link`, `linkat`, `symlink`,
`symlinkat`, `unlink`, `unlinkat`, `rmdir`, `rename`, `renameat`, `renameat2`, `chmod`, `fchmod`, `fchmodat`,
`fchmodat2`, `chown`, `fchown`, `lchown`, `fchownat` -/
def fileCalls : List UInt64 :=
  [85, 76, 77, 133, 259, 83, 258, 86, 265, 88, 266, SYS_unlink, SYS_unlinkat, 84, 82, 264, 316, 90, 91, 268, 452, 92,
    93, 94, 260]

/-- `O_WRONLY | O_RDWR | O_CREAT | O_TRUNC` -/
def openForWriting : UInt64 := 1 ||| 2 ||| 0x40 ||| 0x200

/-- The flags with which a system call opens a file; those of `openat2` are in memory. -/
def openFlags (regs : Regs) (memory : Memory) : UInt64 :=
  if regs.origRax = SYS_open then regs.rsi
  else if regs.origRax = SYS_openat then regs.rdx
  else if regs.origRax = 437 then
    ((peek memory regs.rdx).getD []).foldr (fun c flags => flags * 256 + c.toUInt64) 0
  else 0

/-- A system call that creates, truncates, opens for writing, removes, renames, or changes the mode or the owner of
a file. -/
def changesFile (regs : Regs) (memory : Memory) : Bool :=
  regs.origRax ∈ fileCalls || openFlags regs memory &&& openForWriting ≠ 0

/-- `socket`, `connect`, `accept`, `socketpair`, `accept4` -/
def netCalls : List UInt64 := [SYS_socket, SYS_connect, 43, 53, 288]

/-- The port of the address that `connect` is given. -/
def connectPort (regs : Regs) (memory : Memory) : Option Nat := do
  return (← memory (regs.rsi + 2)).toNat * 256 + (← memory (regs.rsi + 3)).toNat

section
variable (policy : Policy) (cwd : Option Bytes) (child : Pid)

/-- The call goes to a port that is allowed. -/
def allowed (regs : Regs) (memory : Memory) : Bool :=
  regs.origRax = SYS_connect &&
    (connectPort regs memory).any fun port => decimal port ∈ policy.allowNetPorts

/-- What the policy forbids. Whether the file of a call is outside the redirected tree is for the kernel to say. -/
def Forbids (outside : Stop → Bool) (s : Stop) (regs : Regs) : Prop :=
  policy.noWrite = true ∧ changesFile regs s.memory = true ∧ outside s = true ∨
    policy.noNet = true ∧ regs.origRax ∈ netCalls ∧ allowed policy regs s.memory = false

/-! ### What is done about it -/

/-- The registers with which the process goes on. -/
def regsAfter (regs : Regs) (actions : List Action) : Regs :=
  actions.foldl (fun regs action => match action with
    | .setRegs regs => regs
    | _ => regs) regs

/-- The system call is still the one that the process has made. -/
def GoesOn (t : Tracer) (s : Stop) (regs : Regs) : Prop :=
  (regsAfter regs (t.onStop policy cwd child s).2).origRax = regs.origRax

/-- A call is reported as blocked. -/
def Reports (t : Tracer) (s : Stop) : Prop :=
  ∃ address, (t.onStop policy cwd child s).1.events = t.events ++ [.netBlocked address]

/-- No forbidden call is carried out, and what is reported as blocked is a call that is not. -/
def Enforces (outside : Stop → Bool) (t : Tracer) (s : Stop) : Prop :=
  s.isSyscall = true → ∀ regs, s.regs = some regs →
    (s.entry = true → Forbids policy outside s regs → ¬GoesOn policy cwd child t s regs) ∧
      (Reports policy cwd child t s → s.entry = true ∧ ¬GoesOn policy cwd child t s regs)

/-- Along a run. -/
def Enforced (outside : Stop → Bool) (run : List Stop) : Prop :=
  AtEach (fun t s => (t.onStop policy cwd child s).1) (Enforces policy cwd child outside) .start run

/-! ### What is not forgotten -/

/-- The calls that the tracer knows how to block. -/
def Blockable (regs : Regs) : Prop := policy.noNet = true ∧ regs.origRax ∈ [SYS_socket, SYS_connect]

/-- What the tracer can do something about: at its entry, a forbidden call is one that is blocked, and comes after
an even number of stops in its place; at the exit of such a call that number is odd. -/
def Caught (outside : Stop → Bool) (odd : Fin pidMapSize → Bool) (s : Stop) : Prop :=
  s.isSyscall = true → ∀ regs, s.regs = some regs →
    (s.entry = true → Forbids policy outside s regs → Blockable policy regs ∧ odd (slot s.pid) = false) ∧
      (s.entry = false → Blockable policy regs → odd (slot s.pid) = true)

end

/-- For each place of the map, whether there was an odd number of stops in it. -/
def turn (odd : Fin pidMapSize → Bool) (s : Stop) : Fin pidMapSize → Bool :=
  if s.isSyscall then Function.update odd (slot s.pid) (!odd (slot s.pid))
  else if s.isExec then Function.update odd (slot s.pid) false
  else odd

section
variable {policy : Policy} {cwd : Option Bytes} {child : Pid} {outside : Stop → Bool} {t : Tracer} {s : Stop}
  {regs : Regs}

/-- The toggles count the stops. -/
lemma inSyscall_turn : (t.onStop policy cwd child s).1.inSyscall = turn t.inSyscall s := by
  by_cases hs : s.isSyscall = true
  · obtain ⟨-, regs, -, -, -, hregs⟩ := isSyscall_iff.1 hs
    rw [onStop_syscall hs hregs, turn, if_pos hs]
    cases t.inSyscall (slot s.pid) <;> rfl
  · rw [inSyscall_onStop fun h => absurd h hs, mark, turn, if_neg hs, if_neg hs]

lemma regsAfter_onExit : (regsAfter regs (onExit regs ++ [.resume 0])).origRax = regs.origRax := by
  unfold onExit
  split_ifs <;> rfl

/-- A file that is opened is recorded and perhaps redirected. -/
lemma onOpen_other (pathAddr flags : UInt64) :
    regsAfter regs ((onOpen policy cwd s pathAddr flags).2 ++ [.resume 0]) = regs ∧
      ∀ address, (onOpen policy cwd s pathAddr flags).1 ≠ [.netBlocked address] := by
  unfold onOpen
  split_ifs
  · refine ⟨?_, by simp⟩
    unfold redirect
    split_ifs
    · rfl
    · cases policy.redirectWrites with
      | none => rfl
      | some dir =>
        simp only []
        split_ifs <;> rfl
  · exact ⟨rfl, by simp⟩

lemma onEntry_blockable (h : Blockable policy regs) : ∃ address, onEntry policy cwd s regs = block regs address := by
  obtain ⟨hnet, hcall⟩ := h
  unfold onEntry
  rcases List.mem_pair.1 hcall with h | h
  · rw [h]
    exact ⟨"socket()", if_pos hnet⟩
  · rw [h]
    exact ⟨"connect()", if_pos hnet⟩

lemma onEntry_other (h : ¬Blockable policy regs) :
    regsAfter regs ((onEntry policy cwd s regs).2 ++ [.resume 0]) = regs ∧
      ∀ address, (onEntry policy cwd s regs).1 ≠ [.netBlocked address] := by
  have hnet : ∀ nr ∈ [SYS_socket, SYS_connect], regs.origRax = nr → ¬policy.noNet = true :=
    fun nr hnr heq hno => h ⟨hno, heq ▸ hnr⟩
  unfold onEntry
  split_ifs with h₁ h₂ h₃ h₄ h₅ hno h₆ hno
  · exact onOpen_other _ _
  · exact onOpen_other _ _
  · exact ⟨rfl, by simp⟩
  · exact ⟨rfl, by simp⟩
  · exact absurd hno (hnet _ (by simp) h₅)
  · exact ⟨rfl, by simp⟩
  · exact absurd hno (hnet _ (by simp) h₆)
  · exact ⟨rfl, by simp⟩
  · exact ⟨rfl, by simp⟩
  · exact ⟨rfl, by simp⟩

lemma origRax_ne_of_blockable (h : Blockable policy regs) : (-1 : UInt64) ≠ regs.origRax := by
  rcases List.mem_pair.1 h.2 with h | h <;> rw [h] <;> decide

/-- At an exit, or what is taken for one, nothing is done about a call. -/
lemma goesOn_of_set (hs : s.isSyscall = true) (hregs : s.regs = some regs) (hset : t.inSyscall (slot s.pid) = true) :
    GoesOn policy cwd child t s regs ∧ ¬Reports policy cwd child t s := by
  unfold GoesOn Reports
  rw [onStop_syscall hs hregs, if_pos hset]
  refine ⟨regsAfter_onExit, ?_⟩
  rintro ⟨address, h⟩
  exact absurd (List.self_eq_append_right.1 h) (List.cons_ne_nil _ _)

/-- At an entry, or what is taken for one, the calls that can be blocked are. -/
lemma goesOn_of_clear (hs : s.isSyscall = true) (hregs : s.regs = some regs)
    (hclear : t.inSyscall (slot s.pid) = false) :
    (GoesOn policy cwd child t s regs ↔ ¬Blockable policy regs) ∧
      (Reports policy cwd child t s ↔ Blockable policy regs) := by
  have hbranch : t.onStop policy cwd child s = t.atEntry policy cwd s regs := by
    rw [onStop_syscall hs hregs, if_neg (by simp [hclear])]
  have hreports : Reports policy cwd child t s ↔
      ∃ address, (onEntry policy cwd s regs).1 = [.netBlocked address] := by
    unfold Reports
    rw [hbranch]
    exact exists_congr fun address => ⟨List.append_cancel_left, congrArg (t.events ++ ·)⟩
  rw [hreports]
  unfold GoesOn
  rw [hbranch]
  by_cases h : Blockable policy regs
  · obtain ⟨address, hblock⟩ : ∃ address, onEntry policy cwd s regs = block regs address := onEntry_blockable h
    show ((regsAfter regs ((onEntry policy cwd s regs).2 ++ [.resume 0])).origRax = _ ↔ _) ∧ _
    rw [hblock]
    exact ⟨iff_of_false (origRax_ne_of_blockable h) (not_not.2 h), iff_of_true ⟨_, rfl⟩ h⟩
  · obtain ⟨hregs', hevents⟩ : regsAfter regs ((onEntry policy cwd s regs).2 ++ [.resume 0]) = regs ∧ _ :=
      onEntry_other h
    exact ⟨iff_of_true (congrArg Regs.origRax hregs') h, iff_of_false (fun ⟨a, ha⟩ => hevents a ha) h⟩

/-- What is done about a call, by the toggle. -/
lemma enforces_iff : Enforces policy cwd child outside t s ↔ Caught policy outside t.inSyscall s := by
  refine imp_congr_right fun hs => forall_congr' fun regs => imp_congr_right fun hregs => ?_
  cases hin : t.inSyscall (slot s.pid) with
  | true =>
    obtain ⟨hgoes, hreports⟩ : GoesOn policy cwd child t s regs ∧ ¬Reports policy cwd child t s :=
      goesOn_of_set hs hregs hin
    simp [hgoes, hreports]
  | false =>
    obtain ⟨hgoes, hreports⟩ : (GoesOn policy cwd child t s regs ↔ ¬Blockable policy regs) ∧ _ :=
      goesOn_of_clear hs hregs hin
    rw [hgoes, hreports, not_not]
    cases s.entry <;> simp

/-- What is done about the calls of a run, by the toggle. -/
lemma atEach_enforces_iff (run : List Stop) (t : Tracer) :
    AtEach (fun t s => (t.onStop policy cwd child s).1) (Enforces policy cwd child outside) t run ↔
      AtEach turn (Caught policy outside) t.inSyscall run := by
  induction run generalizing t with
  | nil => exact Iff.rfl
  | cons s run ih => rw [atEach_cons, atEach_cons, enforces_iff, ih, inSyscall_turn]

end

end Two09.Trakker
