import Two09.Lib.Bytes
import Two09.Lib.Seccomp

/-!
# The sandbox filter

`debag_install_seccomp`, over what `debag_analyze` finds in the dynamic symbols of a binary.
-/

namespace Two09.Debag

open Two09.Lib Two09.Lib.Seccomp

/-- The system calls that the analysis and the filter name. -/
inductive Syscall
  | read | write | «open» | close | stat | fstat | lstat | poll | lseek | mmap | mprotect | munmap | brk
  | rt_sigaction | rt_sigprocmask | rt_sigreturn | ioctl | pread64 | pwrite64 | writev | access | pipe
  | sched_yield | mremap | msync | mincore | madvise | dup | dup2 | nanosleep | getpid | socket
  | connect | accept | sendto | recvfrom | sendmsg | recvmsg | shutdown | bind | listen | getsockname
  | getpeername | socketpair | setsockopt | getsockopt | clone | vfork | execve | exit | fcntl
  | truncate | ftruncate | getdents | getcwd | chdir | fchdir | rename | mkdir | rmdir | creat | link
  | unlink | symlink | readlink | chmod | fchmod | chown | fchown | getuid | getgid | setuid | setgid
  | geteuid | getegid | ptrace | setreuid | setregid | setresuid | setresgid | setfsuid | setfsgid
  | capset | sigaltstack | personality | mlock | munlock | mlockall | munlockall | pivot_root
  | arch_prctl | chroot | mount | umount2 | create_module | init_module | delete_module | futex
  | sched_getaffinity | getdents64 | set_tid_address | restart_syscall | clock_gettime | clock_getres
  | clock_nanosleep | exit_group | epoll_wait | epoll_ctl | kexec_load | add_key | request_key | keyctl
  | openat | unlinkat | renameat | readlinkat | faccessat | ppoll | unshare | set_robust_list
  | timerfd_create | timerfd_settime | accept4 | eventfd2 | epoll_create1 | dup3 | pipe2 | prlimit64
  | setns | getrandom | kexec_file_load | bpf | execveat | rseq | clone3
  deriving DecidableEq

/-! ### The analysis -/

inductive Category
  | safe | net | write | exec | thread | mount
  deriving DecidableEq

/-- `sym_table` -/
def symTable : List (String × Syscall × Category) :=
  [("read", .read, .safe), ("write", .write, .safe), ("close", .close, .safe), ("fstat", .fstat, .safe),
    ("stat", .stat, .safe), ("lstat", .lstat, .safe), ("lseek", .lseek, .safe), ("mmap", .mmap, .safe),
    ("munmap", .munmap, .safe), ("mprotect", .mprotect, .safe), ("brk", .brk, .safe),
    ("exit", .exit, .safe), ("exit_group", .exit_group, .safe), ("rt_sigaction", .rt_sigaction, .safe),
    ("rt_sigprocmask", .rt_sigprocmask, .safe), ("getpid", .getpid, .safe), ("getuid", .getuid, .safe),
    ("getgid", .getgid, .safe), ("geteuid", .geteuid, .safe), ("getegid", .getegid, .safe),
    ("arch_prctl", .arch_prctl, .safe), ("set_tid_address", .set_tid_address, .safe),
    ("set_robust_list", .set_robust_list, .safe), ("rseq", .rseq, .safe),
    ("prlimit64", .prlimit64, .safe), ("getrandom", .getrandom, .safe),
    ("clock_gettime", .clock_gettime, .safe), ("clock_getres", .clock_getres, .safe),
    ("ioctl", .ioctl, .safe), ("pread64", .pread64, .safe), ("pwrite64", .pwrite64, .safe),
    ("fcntl", .fcntl, .safe), ("dup", .dup, .safe), ("dup2", .dup2, .safe), ("pipe", .pipe, .safe),
    ("poll", .poll, .safe), ("ppoll", .ppoll, .safe), ("epoll_create1", .epoll_create1, .safe),
    ("epoll_ctl", .epoll_ctl, .safe), ("epoll_wait", .epoll_wait, .safe), ("eventfd2", .eventfd2,
    .safe),
    ("timerfd_create", .timerfd_create, .safe), ("timerfd_settime", .timerfd_settime, .safe),
    ("futex", .futex, .safe), ("sched_yield", .sched_yield, .safe),
    ("sched_getaffinity", .sched_getaffinity, .safe),
    ("socket", .socket, .net), ("connect", .connect, .net), ("bind", .bind, .net),
    ("listen", .listen, .net), ("accept", .accept, .net), ("accept4", .accept4, .net),
    ("sendto", .sendto, .net), ("recvfrom", .recvfrom, .net), ("sendmsg", .sendmsg, .net),
    ("recvmsg", .recvmsg, .net), ("shutdown", .shutdown, .net), ("getsockname", .getsockname, .net),
    ("getpeername", .getpeername, .net), ("setsockopt", .setsockopt, .net),
    ("getsockopt", .getsockopt, .net),
    ("open", .«open», .write), ("openat", .openat, .write), ("creat", .creat, .write),
    ("unlink", .unlink, .write), ("unlinkat", .unlinkat, .write), ("rename", .rename, .write),
    ("renameat", .renameat, .write), ("mkdir", .mkdir, .write), ("rmdir", .rmdir, .write),
    ("truncate", .truncate, .write), ("ftruncate", .ftruncate, .write), ("chmod", .chmod, .write),
    ("fchmod", .fchmod, .write), ("chown", .chown, .write), ("fchown", .fchown, .write),
    ("symlink", .symlink, .write), ("link", .link, .write), ("writev", .writev, .write),
    ("execve", .execve, .exec), ("execveat", .execveat, .exec),
    ("clone", .clone, .thread), ("clone3", .clone3, .thread), ("vfork", .vfork, .thread),
    ("mount", .mount, .mount), ("umount", .umount2, .mount), ("umount2", .umount2, .mount)]

/-- `find_syscall_for_sym` -/
def findSyscallForSym (name : Bytes) : Option (Syscall × Category) :=
  (symTable.find? fun e => ascii e.1 = name).map Prod.snd

/-- What the analysis looks at in an entry of `.dynsym`. -/
structure DynSym where
  name : Bytes
  isFunc : Bool
  isUndef : Bool

/-- What the dynamic symbols say about the binary. -/
structure Analysis where
  hasNetwork : Bool
  hasFileWrite : Bool
  hasExec : Bool
  hasDlopen : Bool
  hasThreads : Bool
  hasMount : Bool
  allowedSyscalls : List Syscall
  tracedSyscalls : List Syscall

def Analysis.empty : Analysis := ⟨false, false, false, false, false, false, [], []⟩

/-- One more call, as long as the array has room. -/
def push (cap : Nat) (calls : List Syscall) (call : Syscall) : List Syscall :=
  if calls.length < cap then calls ++ [call] else calls

/-- The `switch` on the category of a symbol. -/
def Analysis.count (a : Analysis) (call : Syscall) : Category → Analysis
  | .safe => { a with allowedSyscalls := push 64 a.allowedSyscalls call }
  | .net => { a with hasNetwork := true, tracedSyscalls := push 32 a.tracedSyscalls call }
  | .write => { a with hasFileWrite := true, tracedSyscalls := push 32 a.tracedSyscalls call }
  | .exec => { a with hasExec := true, tracedSyscalls := push 32 a.tracedSyscalls call }
  | .thread => { a with hasThreads := true, allowedSyscalls := push 64 a.allowedSyscalls call }
  | .mount => { a with hasMount := true, tracedSyscalls := push 32 a.tracedSyscalls call }

/-- A defined function whose name says what it calls. -/
def Analysis.named (a : Analysis) (name : Bytes) : Analysis :=
  let a := match findSyscallForSym name with
    | some (call, category) => a.count call category
    | none => a
  if name = ascii "dlopen" ∨ name = ascii "__libc_dlopen_mode" then { a with hasDlopen := true } else a

/-- One round of the loop over `.dynsym`. -/
def Analysis.symbol (a : Analysis) (sym : DynSym) : Analysis :=
  if sym.isFunc = false ∨ sym.isUndef = true ∨ sym.name = [] then a else a.named sym.name

/-- What `debag_analyze` tells the filter about a binary with these dynamic symbols. -/
def analyzeSymbols (syms : List DynSym) : Analysis := syms.foldl Analysis.symbol .empty

/-! ### The rules -/

structure Policy where
  fastMode : Bool
  noNet : Bool
  noWrite : Bool

/-- `default_safe` -/
def defaultSafe : List Syscall :=
  [.read, .write, .close, .fstat, .stat, .lstat, .lseek, .mmap, .munmap, .mprotect, .brk, .exit,
    .exit_group,
    .rt_sigaction, .rt_sigprocmask, .rt_sigreturn, .getpid, .getuid, .getgid, .geteuid, .getegid,
    .arch_prctl,
    .set_tid_address, .set_robust_list, .rseq, .prlimit64, .getrandom, .clock_gettime, .clock_getres,
    .ioctl,
    .pread64, .pwrite64, .fcntl, .dup, .dup2, .dup3, .pipe, .pipe2, .poll, .ppoll, .epoll_create1,
    .epoll_ctl,
    .epoll_wait, .eventfd2, .timerfd_create, .timerfd_settime, .futex, .sched_yield, .sched_getaffinity,
    .madvise, .getcwd, .chdir, .fchdir, .access, .faccessat, .readlink, .readlinkat, .getdents64,
    .getdents,
    .nanosleep, .clock_nanosleep, .restart_syscall, .sigaltstack, .mremap, .msync, .mincore, .mlock,
    .munlock,
    .mlockall, .munlockall, .madvise, .recvmsg, .sendmsg, .getsockopt, .setsockopt, .shutdown]

/-- `always_traced` -/
def alwaysTraced : List Syscall :=
  [.execve, .execveat, .mount, .umount2, .ptrace, .pivot_root, .chroot, .setuid, .setgid, .setreuid,
    .setregid,
    .setresuid, .setresgid, .setfsuid, .setfsgid, .capset, .keyctl, .add_key, .request_key,
    .personality,
    .create_module, .init_module, .delete_module, .kexec_load, .kexec_file_load, .bpf, .unshare, .setns]

/-- `network_syscalls` -/
def networkSyscalls : List Syscall :=
  [.socket, .connect, .bind, .listen, .accept, .accept4, .sendto, .recvfrom, .sendmsg, .recvmsg,
    .socketpair,
    .getsockname, .getpeername]

/-- The calls that `--no-write` blocks whatever their arguments. -/
def writeSyscalls : List Syscall :=
  [.unlink, .unlinkat, .rename, .renameat, .truncate, .ftruncate, .chmod, .chown, .mkdir, .rmdir,
    .write, .writev,
    .pwrite64]

/-- `O_WRONLY` in the flags of `open` and `openat`. -/
def openRules : List (Rule Syscall) :=
  [⟨.killProcess, .«open», [⟨1, 1, 1⟩]⟩, ⟨.killProcess, .openat, [⟨2, 1, 1⟩]⟩]

def Policy.defaultAction (p : Policy) : Action := if p.fastMode then .killProcess else .trace

/-- The rules for network calls. -/
def netRules (analysis : Option Analysis) (p : Policy) : List (Rule Syscall) :=
  if p.noNet then always .killProcess networkSyscalls
  else if analysis.any Analysis.hasNetwork then always p.defaultAction networkSyscalls
  else []

/-- The rules of `--no-write`. -/
def writeRules (p : Policy) : List (Rule Syscall) :=
  if p.noWrite then openRules ++ always .killProcess writeSyscalls else []

/-- The rules that `debag_install_seccomp` adds, in order. -/
def filterRules (analysis : Option Analysis) (p : Policy) : List (Rule Syscall) :=
  always .allow defaultSafe ++ (always .allow ((analysis.map Analysis.allowedSyscalls).getD []) ++
    (always p.defaultAction alwaysTraced ++ (netRules analysis p ++ writeRules p)))

/-- What the installed filter does with a call. -/
def filterDecision (analysis : Option Analysis) (p : Policy) (call : Syscall) (args : Args) : Action :=
  decision p.defaultAction (filterRules analysis p) call args

/-! ### What the analysis can allow -/

/-- The calls that a symbol can put on the list of allowed ones. -/
def allowable : List Syscall :=
  (symTable.filter fun e => e.2.2 = .safe ∨ e.2.2 = .thread).map fun e => e.2.1

section Analysis
variable {a : Analysis} {call : Syscall} {category : Category} {name : Bytes}

lemma subset_push {cap : Nat} {calls allowed : List Syscall} (h : calls ⊆ allowed)
    (hcall : call ∈ allowed) : push cap calls call ⊆ allowed := by
  unfold push
  split_ifs
  · exact List.append_subset.2 ⟨h, List.cons_subset.2 ⟨hcall, List.nil_subset _⟩⟩
  · exact h

lemma mem_allowable (h : findSyscallForSym name = some (call, category))
    (hcat : category = .safe ∨ category = .thread) : call ∈ allowable := by
  obtain ⟨e, he, heq⟩ := Option.map_eq_some_iff.1 h
  refine List.mem_map.2 ⟨e, List.mem_filter.2 ⟨List.mem_of_find?_eq_some he, ?_⟩, ?_⟩
  · rw [heq]
    exact decide_eq_true hcat
  · rw [heq]

/-- One symbol allows what can be allowed. -/
lemma Analysis.symbol_allowed (h : a.allowedSyscalls ⊆ allowable) (sym : DynSym) :
    (a.symbol sym).allowedSyscalls ⊆ allowable := by
  have hcount : ∀ call category, findSyscallForSym sym.name = some (call, category) →
      (a.count call category).allowedSyscalls ⊆ allowable := by
    intro call category hfind
    cases category with
    | safe => exact subset_push h (mem_allowable hfind (.inl rfl))
    | thread => exact subset_push h (mem_allowable hfind (.inr rfl))
    | net | write | exec | mount => exact h
  unfold Analysis.symbol
  split_ifs
  · exact h
  · unfold Analysis.named
    cases hfind : findSyscallForSym sym.name with
    | none => split_ifs <;> exact h
    | some r => split_ifs <;> exact hcount r.1 r.2 hfind

/-- **Whatever its symbols, a binary is allowed what the table calls safe**, and threads. -/
lemma allowed_analyzeSymbols (syms : List DynSym) :
    (analyzeSymbols syms).allowedSyscalls ⊆ allowable := by
  have hrun : ∀ a : Analysis, a.allowedSyscalls ⊆ allowable →
      (syms.foldl Analysis.symbol a).allowedSyscalls ⊆ allowable := by
    induction syms with
    | nil => exact fun _ h => h
    | cons sym syms ih => exact fun a h => ih _ (Analysis.symbol_allowed h sym)
  exact hrun .empty (List.nil_subset _)

end Analysis

/-! ### What the filter does -/

/-- An access mode that permits writing, in the flags of a call. -/
def OpensForWriting (flags : UInt64) : Prop := flags &&& 3 = 1 ∨ flags &&& 3 = 2

/-- The policy, as the filter should enforce it. -/
structure Enforced (analysis : Option Analysis) (p : Policy) : Prop where
  net : p.noNet = true → ∀ call ∈ networkSyscalls, ∀ args,
    filterDecision analysis p call args = .killProcess
  write : p.noWrite = true → ∀ call ∈ writeSyscalls, ∀ args,
    filterDecision analysis p call args = .killProcess
  «open» : p.noWrite = true → ∀ args, OpensForWriting (args 1) →
    filterDecision analysis p .«open» args = .killProcess
  openat : p.noWrite = true → ∀ args, OpensForWriting (args 2) →
    filterDecision analysis p .openat args = .killProcess
  traced : ∀ call ∈ alwaysTraced, ∀ args, filterDecision analysis p call args ≠ .allow

section Decisions
variable {syms : Option (List DynSym)} {p : Policy} {call : Syscall} {args : Args}

/-- What is always safe is always allowed. -/
lemma decision_defaultSafe (analysis : Option Analysis) (h : call ∈ defaultSafe) :
    filterDecision analysis p call args = .allow := decision_always h

/-- What the analysis cannot allow is up to the later rules. -/
lemma decision_later (hsafe : call ∉ defaultSafe) (hallow : call ∉ allowable) :
    filterDecision (syms.map analyzeSymbols) p call args =
      decision p.defaultAction (always p.defaultAction alwaysTraced ++
        (netRules (syms.map analyzeSymbols) p ++ writeRules p)) call args := by
  have hlist : call ∉ ((syms.map analyzeSymbols).map Analysis.allowedSyscalls).getD [] := by
    cases syms with
    | none => exact List.not_mem_nil
    | some syms => exact fun h => hallow (allowed_analyzeSymbols syms h)
  rw [filterDecision, filterRules, decision_always_of_notMem hsafe, decision_always_of_notMem hlist]

lemma defaultAction_ne_allow (p : Policy) : p.defaultAction ≠ .allow := by
  unfold Policy.defaultAction
  split_ifs <;> decide

/-- **A call that is always traced is never allowed.** -/
lemma traced_not_allowed (hcall : call ∈ alwaysTraced) :
    filterDecision (syms.map analyzeSymbols) p call args ≠ .allow := by
  have hapart : ∀ call ∈ alwaysTraced, call ∉ defaultSafe ∧ call ∉ allowable := by decide
  obtain ⟨hsafe, hallow⟩ := hapart call hcall
  rw [decision_later hsafe hallow, decision_always hcall]
  exact defaultAction_ne_allow p

/-- **Under `--no-net` a network call is killed**, unless it is on the list of safe ones. -/
lemma net_killed_iff (hnet : p.noNet = true) (hcall : call ∈ networkSyscalls) :
    filterDecision (syms.map analyzeSymbols) p call args = .killProcess ↔ call ∉ defaultSafe := by
  have hapart : ∀ call ∈ networkSyscalls, call ∉ alwaysTraced ∧ call ∉ allowable := by decide
  obtain ⟨htraced, hallow⟩ := hapart call hcall
  constructor
  · intro hkill hsafe
    rw [decision_defaultSafe _ hsafe] at hkill
    cases hkill
  · intro hsafe
    rw [decision_later hsafe hallow, decision_always_of_notMem htraced, netRules, if_pos hnet,
      decision_always hcall]

/-- What `--no-write` decides about a call that no earlier rule is about. -/
lemma decision_noWrite (hwrite : p.noWrite = true) (hsafe : call ∉ defaultSafe)
    (hallow : call ∉ allowable) (htraced : call ∉ alwaysTraced) (hnet : call ∉ networkSyscalls) :
    filterDecision (syms.map analyzeSymbols) p call args =
      decision p.defaultAction (openRules ++ always .killProcess writeSyscalls) call args := by
  rw [decision_later hsafe hallow, decision_always_of_notMem htraced, netRules, writeRules,
    if_pos hwrite]
  split_ifs
  · exact decision_always_of_notMem hnet
  · exact decision_always_of_notMem hnet
  · rfl

/-- **Under `--no-write` a call that writes is killed**, unless it is on the list of safe ones. -/
lemma write_killed_iff (hwrite : p.noWrite = true) (hcall : call ∈ writeSyscalls) :
    filterDecision (syms.map analyzeSymbols) p call args = .killProcess ↔ call ∉ defaultSafe := by
  have hapart : ∀ call ∈ writeSyscalls, call ∉ defaultSafe → call ∉ alwaysTraced ∧
      call ∉ allowable ∧ call ∉ networkSyscalls ∧ call ≠ .«open» ∧ call ≠ .openat := by decide
  constructor
  · intro hkill hsafe
    rw [decision_defaultSafe _ hsafe] at hkill
    cases hkill
  · intro hsafe
    obtain ⟨htraced, hallow, hnet, hopen, hopenat⟩ := hapart call hcall hsafe
    rw [decision_noWrite hwrite hsafe hallow htraced hnet, decision_append_of_not]
    · have hdecide := @decision_always _ _ call args [] p.defaultAction writeSyscalls .killProcess hcall
      rwa [List.append_nil] at hdecide
    · intro r hr
      simp only [openRules, List.mem_cons, List.not_mem_nil, or_false] at hr
      rcases hr with rfl | rfl
      · exact hopen.symm
      · exact hopenat.symm

/-- The bit of `O_WRONLY` is the lower one of the access mode. -/
lemma wronly_iff {flags : UInt64} (hflags : OpensForWriting flags) :
    flags &&& 1 = 1 ↔ flags &&& 3 = 1 := by
  have hbit : flags &&& 1 = (flags &&& 3) &&& 1 := by
    rw [UInt64.and_assoc]
    rfl
  rw [hbit]
  rcases hflags with h | h
  · rw [h]
    decide
  · rw [h]
    decide

lemma defaultAction_eq_kill_iff (p : Policy) : p.defaultAction = .killProcess ↔ p.fastMode = true := by
  unfold Policy.defaultAction
  cases p.fastMode <;> decide

/-- What only a comparison decides is killed by it or by the default. -/
lemma compare_killed_iff {arg : Fin 6} (hflags : OpensForWriting (args arg))
    (hdecide : filterDecision (syms.map analyzeSymbols) p call args =
      if (⟨arg, 1, 1⟩ : Compare).Holds args then .killProcess else p.defaultAction) :
    filterDecision (syms.map analyzeSymbols) p call args = .killProcess ↔
      args arg &&& 3 = 1 ∨ p.fastMode = true := by
  have hholds : (⟨arg, 1, 1⟩ : Compare).Holds args ↔ args arg &&& 3 = 1 := wronly_iff hflags
  rw [hdecide, ← hholds]
  split_ifs with hc
  · simp [hc]
  · rw [defaultAction_eq_kill_iff]
    simp [hc]

/-- **Under `--no-write` what is opened with `O_RDWR` is left to the default.** -/
lemma open_killed_iff (hwrite : p.noWrite = true) (hflags : OpensForWriting (args 1)) :
    filterDecision (syms.map analyzeSymbols) p .«open» args = .killProcess ↔
      args 1 &&& 3 = 1 ∨ p.fastMode = true := by
  have hrest : decision p.defaultAction (⟨.killProcess, .openat, [⟨2, 1, 1⟩]⟩ ::
      always .killProcess writeSyscalls) .«open» args = p.defaultAction :=
    (decision_cons_of_not fun hm => absurd hm.1 (by decide)).trans
      (decision_append_of_not (by decide) : decision p.defaultAction
        (always .killProcess writeSyscalls ++ []) .«open» args = _)
  refine compare_killed_iff hflags ?_
  rw [decision_noWrite hwrite (by decide) (by decide) (by decide) (by decide)]
  exact (decision_compare _).trans
    (congrArg (fun d => if (⟨1, 1, 1⟩ : Compare).Holds args then Action.killProcess else d) hrest)

lemma openat_killed_iff (hwrite : p.noWrite = true) (hflags : OpensForWriting (args 2)) :
    filterDecision (syms.map analyzeSymbols) p .openat args = .killProcess ↔
      args 2 &&& 3 = 1 ∨ p.fastMode = true := by
  have hrest : decision p.defaultAction (always .killProcess writeSyscalls) .openat args =
      p.defaultAction :=
    (decision_append_of_not (by decide) : decision p.defaultAction
      (always .killProcess writeSyscalls ++ []) .openat args = _)
  refine compare_killed_iff hflags ?_
  rw [decision_noWrite hwrite (by decide) (by decide) (by decide) (by decide)]
  refine (decision_cons_of_not fun hm => absurd hm.1 (by decide)).trans ?_
  exact (decision_compare _).trans
    (congrArg (fun d => if (⟨2, 1, 1⟩ : Compare).Holds args then Action.killProcess else d) hrest)

end Decisions

/-- **The filter enforces a policy exactly when it is asked for neither `--no-net` nor `--no-write`.**
Under either of them a call that is on the list of safe ones gets through. -/
theorem enforced_iff (syms : Option (List DynSym)) (p : Policy) :
    Enforced (syms.map analyzeSymbols) p ↔ p.noNet = false ∧ p.noWrite = false := by
  constructor
  · intro h
    refine ⟨Bool.eq_false_iff.2 fun hnet => ?_, Bool.eq_false_iff.2 fun hwrite => ?_⟩
    · have hkill := h.net hnet .sendmsg (by decide) (fun _ => 0)
      exact absurd ((net_killed_iff hnet (by decide)).1 hkill) (by decide)
    · have hkill := h.write hwrite .write (by decide) (fun _ => 0)
      exact absurd ((write_killed_iff hwrite (by decide)).1 hkill) (by decide)
  · rintro ⟨hnet, hwrite⟩
    refine ⟨fun h => ?_, fun h => ?_, fun h => ?_, fun h => ?_, fun _ hcall _ => traced_not_allowed hcall⟩
    · exact absurd (hnet.symm.trans h) (by decide)
    · exact absurd (hwrite.symm.trans h) (by decide)
    · exact absurd (hwrite.symm.trans h) (by decide)
    · exact absurd (hwrite.symm.trans h) (by decide)

/-- With `--no-net` a binary without symbols can call `sendmsg`. -/
theorem noNet_not_enforced :
    ¬ ∀ (syms : Option (List DynSym)) (p : Policy), Enforced (syms.map analyzeSymbols) p := by
  intro h
  have hkill := (h none ⟨false, true, false⟩).net rfl .sendmsg (by decide) (fun _ => 0)
  exact absurd hkill (by decide)

end Two09.Debag
