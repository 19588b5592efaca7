import Two09.Apply.Command
import Two09.Install.Incremental

/-!
# `cmd_aur_build`

The dependencies from the repositories are installed, the packages are built, and what was built is
unpacked and committed under the lock.
-/

namespace Two09.Apply

open Two09.Lib Two09.Gen Two09.Store Two09.Install

section Build
variable (env : Env) (time : Nat)

/-- The dependencies from the repositories, until one fails; whether none did. -/
def installDeps : List (Bytes × InstallAttempt) → Prog World Act Bool
  | [] => .ret true
  | (name, attempt) :: rest => (cmdInstallOnly env time name attempt).bind fun ok =>
    if ok then installDeps rest else .ret false

/-- What was built goes into the store, until one package fails. -/
def addBuilt : List Package → Prog World Act (Option (List (Package × Added)))
  | [] => .ret (some [])
  | pkg :: pkgs => (directExtract env pkg).bind fun
    | none => .ret none
    | some a => (addBuilt pkgs).bind fun ts => .ret (ts.map ((pkg, a) :: ·))

/-- The commit of what was built, the lock being held. -/
def commitBuilt (flt : Faults) (targets : List (Package × Added)) : Prog World Act Bool :=
  (commit flt time (targets.map builtEntry)).bind fun id => genDbUnlock.bind fun _ => .ret id.isSome

/-- `cmd_aur_build` of a resolved plan: the packages are those that cloning and `makepkg` yield, if
none of them fails. The result says whether it returned 0. -/
def cmdAurBuild (flt : Faults) (deps : List (Bytes × InstallAttempt)) (built : Option (List Package)) :
    Prog World Act Bool :=
  (installDeps env time deps).bind fun ok =>
    match built with
    | none => .ret false
    | some pkgs =>
      if ok then
        genDbLock.bind fun
        | false => .ret false
        | true => (addBuilt env pkgs).bind fun
          | none => genDbUnlock.bind fun _ => .ret false
          | some targets => commitBuilt time flt targets
      else .ret false

end Build

end Two09.Apply
