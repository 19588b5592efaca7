import Two09.Apply.Command
import Two09.Farm.Links
import Two09.Lib.Trace

/-!
# The commands and the farm

Every command that leaves another generation current ends in `symlink_farm_build`, each with what it
takes for the previous generation: the one before (install and remove), none (rollback and AUR
builds), or the new one itself (apply). Only the links of that one are torn down.
-/

namespace Two09.Farm

open Two09.Lib Two09.Lib.Posix Two09.Gen Two09.Store Two09.Install Two09.Apply

/-! ### The programs -/

/-- What `gen_db_get` reads of a generation, if there is one to read. -/
def genDbGet (gens : GenDb) (id : Nat) : Option (List GenPkg) :=
  (gens.dirs.lookup id).bind fun d => (File.read? d.manifest).map Manifest.packages

lemma getD_genDbGet (gens : GenDb) (id : Nat) : (genDbGet gens id).getD [] = readPackages gens id := by
  unfold genDbGet readPackages
  cases gens.dirs.lookup id with
  | none => rfl
  | some d => rfl

/-- A package `makepkg` built, and its archive, with the name and the version the file name gives. -/
structure Built where
  name : Bytes
  version : Bytes
  archive : Package

/-- How `cmd_aur_build` goes before it takes the lock: the repository packages it installs first, and
what it builds then, unless it gives up. -/
structure AurPlan where
  deps : List (Bytes × InstallAttempt)
  built : Option (List Built)

section Programs
variable (env : Install.Env) (flt : Faults) (time : Nat)

/-- `cmd_rollback`, up to the farm; the result says whether it gets there. -/
def cmdRollback (targetId : Nat) : Prog World Act Bool :=
  (Prog.read .readCurrent fun w : World => genDbCurrent w.gens).bind fun current =>
    if current = 0 then .ret false
    else genDbLock.bind fun
      | false => .ret false
      | true =>
        ((genDbRollback flt targetId).lift World.gens (fun gens w => { w with gens := gens })
          Act.gen).bind fun ok => genDbUnlock.bind fun _ => .ret ok

/-- The dependencies of an AUR package, up to the first that fails. -/
def installDeps : List (Bytes × InstallAttempt) → Prog World Act Bool
  | [] => .ret true
  | (name, attempt) :: deps => (cmdInstallOnly env time name attempt).bind fun ok =>
    if ok then installDeps deps else .ret false

/-- The built packages are added to the store, up to the first that fails. -/
def addBuilt : List Built → Prog World Act (Option (List GenPkg))
  | [] => .ret (some [])
  | b :: bs => (directExtract env b.archive).bind fun
    | none => .ret none
    | some a => (addBuilt bs).bind fun pkgs =>
      .ret (pkgs.map (⟨b.name, b.version, some (storePath a.path), ascii "aur"⟩ :: ·))

/-- `cmd_aur_build`, up to the farm: the new generation has the built packages, and no others. -/
def cmdAurBuild (plan : AurPlan) : Prog World Act Bool :=
  (installDeps env time plan.deps).bind fun
  | false => .ret false
  | true => match plan.built with
    | none => .ret false
    | some built => genDbLock.bind fun
      | false => .ret false
      | true => (addBuilt env built).bind fun
        | none => genDbUnlock.bind fun _ => .ret false
        | some pkgs => (commit flt time pkgs).bind fun id =>
          genDbUnlock.bind fun _ => .ret id.isSome

end Programs

/-! ### Commands on world and farm -/

/-- The world, and the directories the farm is in. -/
structure State where
  world : World
  farm : LinkTree

/-- The packages of the current generation. -/
def State.packages (s : State) : List GenPkg :=
  readPackages s.world.gens (genDbCurrent s.world.gens)

/-- A command that has come to `symlink_farm_build`: for which generation it builds the farm, and what
it takes for the packages of the previous one. -/
structure Call where
  state : State
  id : Nat
  prev : List GenPkg

inductive Command
  | install (flt : Faults) (time : Nat) (pkgs : List Package)
  | remove (flt : Faults) (time : Nat) (name : Bytes)
  | rollback (flt : Faults) (targetId : Nat)
  | apply (attempts : Attempts) (flt : Faults) (time : Nat) (desired : Json)
  | aurBuild (flt : Faults) (time : Nat) (plan : AurPlan)

section Commands
variable (kernel : Kernel) (user : User) (env : Install.Env)

/-- Without a generation to read there is no call, and the farm stays. -/
def Call.run (c : Call) : State :=
  match genDbGet c.state.world.gens c.id with
  | none => c.state
  | some pkgs =>
    { c.state with farm := symlinkFarmBuild kernel user c.state.world pkgs c.prev c.state.farm }

/-- A command that returns 0 goes through the call. -/
def outcome : Except State Call → State
  | .error s => s
  | .ok c => c.run kernel user

/-- Runs a program that says whether the command gets to the farm. The generation it left is current. -/
def reach (p : Prog World Act Bool) (prev : World → List GenPkg) (s : State) : Except State Call :=
  match p.run s.world with
  | (true, w) => .ok ⟨⟨w, s.farm⟩, genDbCurrent w.gens, prev w⟩
  | (false, w) => .error ⟨w, s.farm⟩

/-- `cmd_install`: the previous generation is the one that was current under the lock. -/
def install (flt : Faults) (time : Nat) (pkgs : List Package) (s : State) : Except State Call :=
  reach (cmdInstall env flt time pkgs)
    (fun w => readCurrentGenPackages w.gens (genDbCurrent s.world.gens)) s

/-- `cmd_remove`: the previous generation was read before the commit. -/
def remove (flt : Faults) (time : Nat) (name : Bytes) (s : State) : Except State Call :=
  reach (cmdRemove flt time name) (fun _ => s.packages) s

def rollback (flt : Faults) (targetId : Nat) (s : State) : Except State Call :=
  match (cmdRollback flt targetId).run s.world with
  | (true, w) => .ok ⟨⟨w, s.farm⟩, targetId, []⟩
  | (false, w) => .error ⟨w, s.farm⟩

/-- `reconcile_execute`, whose removals rebuild the farm. -/
def executePlan (attempts : Attempts) (time : Nat) (txn : ReconcileTxn) (s : State) : Bool × State :=
  let (ok, w) := (installAll env time attempts txn.repoInstall.zipIdx).run s.world
  (ok && buildAll attempts txn.aurInstall,
    txn.pkgRemove.zipIdx.foldl
      (fun s p => outcome kernel user (remove (attempts.remove p.2) time p.1 s)) ⟨w, s.farm⟩)

/-- The end of `cmd_apply`: the previous generation is read once the new one is current. -/
def applyDesired (flt : Faults) (time : Nat) (txn : ReconcileTxn) (s : State) : Except State Call :=
  match (commitDesired txn flt time).run s.world with
  | (.applied id, w) => .ok ⟨⟨w, s.farm⟩, id, readCurrentGenPackages w.gens (genDbCurrent w.gens)⟩
  | (_, w) => .error ⟨w, s.farm⟩

/-- `cmd_apply` -/
def apply (attempts : Attempts) (flt : Faults) (time : Nat) (desired : Json) (s : State) :
    Except State Call :=
  let txn := reconcile desired s.world
  let r := if txn.isEmpty then (true, s) else executePlan kernel user env attempts time txn s
  if r.1 then applyDesired flt time txn r.2 else .error r.2

def aurBuild (flt : Faults) (time : Nat) (plan : AurPlan) (s : State) : Except State Call :=
  reach (cmdAurBuild env flt time plan) (fun _ => []) s

/-- What a command does up to the farm. -/
def Command.reach (s : State) : Command → Except State Call
  | .install flt time pkgs => Farm.install env flt time pkgs s
  | .remove flt time name => Farm.remove flt time name s
  | .rollback flt targetId => Farm.rollback flt targetId s
  | .apply attempts flt time desired => Farm.apply kernel user env attempts flt time desired s
  | .aurBuild flt time plan => Farm.aurBuild env flt time plan s

def Command.exec (s : State) (cmd : Command) : State := outcome kernel user (cmd.reach kernel user env s)

end Commands

/-! ### The world apart from the farm -/

section World
variable {kernel : Kernel} {user : User} {env : Install.Env} {s : State}

@[simp] lemma Call.run_world (c : Call) : (c.run kernel user).world = c.state.world := by
  unfold Call.run
  cases genDbGet c.state.world.gens c.id with
  | none => rfl
  | some pkgs => rfl

@[simp] lemma outcome_reach_world (p : Prog World Act Bool) (prev : World → List GenPkg) :
    (outcome kernel user (reach p prev s)).world = (p.run s.world).2 := by
  unfold reach
  generalize p.run s.world = r
  obtain ⟨ok, w⟩ := r
  cases ok with
  | false => rfl
  | true => exact Call.run_world _

lemma removals_world {attempts : Attempts} {time : Nat} (ps : List (Bytes × Nat)) :
    (ps.foldl (fun s p => outcome kernel user (remove (attempts.remove p.2) time p.1 s)) s).world =
      ((removeAll time attempts ps).run s.world).2 := by
  induction ps generalizing s with
  | nil => rfl
  | cons p ps ih =>
    rw [List.foldl_cons, ih, remove, outcome_reach_world]
    simp only [removeAll, Prog.forEach, Prog.run_bind, Prog.run_ret]

/-- Rebuilding the farm aside, a plan is carried out as `reconcile_execute` does it. -/
lemma executePlan_world (attempts : Attempts) (time : Nat) (txn : ReconcileTxn) :
    ((executePlan kernel user env attempts time txn s).1,
      (executePlan kernel user env attempts time txn s).2.world) =
    (reconcileExecute env time attempts txn).run s.world := by
  simp only [executePlan, removals_world, reconcileExecute, Prog.run_bind, Prog.run_ret]

/-- Rebuilding the farm aside, `apply` is `cmd_apply`. -/
theorem apply_world (attempts : Attempts) (flt : Faults) (time : Nat) (desired : Json) :
    (outcome kernel user (apply kernel user env attempts flt time desired s)).world =
      ((cmdApply env attempts flt time desired).run s.world).2 := by
  have hcommit : ∀ (txn : ReconcileTxn) (s : State),
      (outcome kernel user (applyDesired flt time txn s)).world =
        ((commitDesired txn flt time).run s.world).2 := by
    intro txn s
    unfold applyDesired
    generalize (commitDesired txn flt time).run s.world = r
    obtain ⟨result, w⟩ := r
    cases result with
    | aborted => rfl
    | failed => rfl
    | applied id => exact Call.run_world _
  have hrun : (cmdApply env attempts flt time desired).run s.world =
      ((if (reconcile desired s.world).isEmpty then .ret true
        else reconcileExecute env time attempts (reconcile desired s.world)).bind fun ok =>
          if ok then commitDesired (reconcile desired s.world) flt time
          else .ret .aborted).run s.world := rfl
  rw [hrun, Prog.run_bind]
  unfold apply
  by_cases hempty : (reconcile desired s.world).isEmpty = true
  · simp only [if_pos hempty, Prog.run_ret, if_true]
    exact hcommit _ _
  · simp only [if_neg hempty]
    rw [← @executePlan_world kernel user]
    generalize executePlan kernel user env attempts time (reconcile desired s.world) s = r
    obtain ⟨ok, s₁⟩ := r
    cases ok with
    | true => exact hcommit _ _
    | false => rfl

end World

/-! ### The farm of the current generation -/

section InSync
variable (kernel : Kernel) (user : User)

/-- The links into the store are those a farm made from scratch has, and each leads into the store
path of a package of the current generation. -/
structure InSync (s : State) : Prop where
  links : ∀ p target, LinksInto storeDir s.farm p target ↔
    LinksInto storeDir (makeLinks kernel .empty (farmLinks user s.world s.packages)) p target
  current : ∀ p target, LinksInto storeDir s.farm p target →
    ∃ pkg ∈ s.packages, ∃ path, pkg.storePath = some path ∧ path <+: target

namespace Call

variable (c : Call)

/-- The links that the call makes. -/
def links : List (Path × Path) :=
  match genDbGet c.state.world.gens c.id with
  | none => []
  | some pkgs => farmLinks user c.state.world pkgs

/-- The paths at which the call removes links. -/
def old : List Path :=
  match genDbGet c.state.world.gens c.id with
  | none => []
  | some _ => (farmLinks user c.state.world c.prev).map Prod.fst

/-- No path of a link runs through a link, be it the user's or one of the farm. -/
structure Clear : Prop where
  apart : Apart c.state.farm (c.links user)
  unlinked : Unlinked c.state.farm (c.old user)

/-- Each link into the store is at a path that the call knows, from the previous generation or from the
new one, and nothing stands in the way of the new links. -/
structure Fits : Prop where
  known : ∀ p target, LinksInto storeDir c.state.farm p target →
    p ∈ c.old user ∨ ∃ l ∈ c.links user, l.1 = p
  ready : ∀ p target, lastTarget (c.links user) p = some target → storeDir <+: target →
    c.state.farm.ready p = true

end Call

variable {kernel user} {s : State} {c : Call}

lemma mem_farmLinks {w : World} {pkgs : List GenPkg} {l : Path × Path} (h : l ∈ farmLinks user w pkgs) :
    ∃ pkg ∈ pkgs, ∃ path, pkg.storePath = some path ∧ path <+: l.2 := by
  obtain ⟨path, hpath, hl⟩ := List.mem_flatMap.1 h
  obtain ⟨pkg, hpkg, hsome⟩ := List.mem_filterMap.1 hpath
  obtain ⟨rel, -, hrel⟩ := List.mem_filterMap.1 hl
  obtain ⟨link, -, rfl⟩ := Option.map_eq_some_iff.1 hrel
  exact ⟨pkg, hpkg, path, hsome, by simp [List.append_assoc]⟩

/-- Links from scratch all lead into store paths of the generation. -/
lemma inSync_iff (hapart : Apart .empty (farmLinks user s.world s.packages)) :
    InSync kernel user s ↔ ∀ p target, LinksInto storeDir s.farm p target ↔
      LinksInto storeDir (makeLinks kernel .empty (farmLinks user s.world s.packages)) p target := by
  refine ⟨InSync.links, fun h => ⟨h, fun p target hlink => ?_⟩⟩
  have hlast := ((linksInto_makeLinks_empty hapart).1 ((h p target).1 hlink)).1
  exact mem_farmLinks (lastTarget_eq_some hlast)

/-- **A call for the current generation leaves the farm in sync exactly if it fits.** -/
theorem Call.run_inSync_iff (hid : c.id = genDbCurrent c.state.world.gens) (hclear : c.Clear user) :
    InSync kernel user (c.run kernel user) ↔ c.Fits user := by
  obtain ⟨hapart, hold⟩ := hclear
  have hlinks : c.links user = farmLinks user (c.run kernel user).world (c.run kernel user).packages := by
    unfold Call.links Call.run State.packages
    cases hget : genDbGet c.state.world.gens c.id with
    | none =>
      rw [hid] at hget
      simp only [← getD_genDbGet, hget]
      rfl
    | some pkgs =>
      rw [hid] at hget
      simp only [← getD_genDbGet, hget, Option.getD_some]
  have hfarm : (c.run kernel user).farm =
      remakeLinks kernel storeDir c.state.farm (c.old user) (c.links user) := by
    unfold Call.links Call.run Call.old
    cases genDbGet c.state.world.gens c.id with
    | none => rfl
    | some pkgs => rfl
  rw [inSync_iff (hlinks ▸ hapart.scratch), ← hlinks, hfarm, remakeLinks_iff hapart hold]
  exact ⟨fun h => ⟨h.1, h.2⟩, fun h => ⟨h.known, h.ready⟩⟩

/-- **A call that is given the previous generation** tears down all that a farm in sync has, where
the store has only grown. -/
theorem Call.known_of_inSync {F : StoreName → Prop} (hs : InSync kernel user s)
    (hapart : Apart .empty (farmLinks user s.world s.packages))
    (hfarm : c.state.farm = s.farm) (hprev : c.prev = s.packages)
    (hgrows : Grows F s.world.store c.state.world.store)
    (hread : (genDbGet c.state.world.gens c.id).isSome = true) {p target : Path}
    (hlink : LinksInto storeDir c.state.farm p target) : p ∈ c.old user := by
  rw [hfarm, hs.links, linksInto_makeLinks_empty hapart] at hlink
  have hmem : (p, target) ∈ farmLinks user c.state.world c.prev :=
    hprev ▸ farmLinks_grows hgrows (lastTarget_eq_some hlink.1)
  obtain ⟨pkgs, hpkgs⟩ := Option.isSome_iff_exists.1 hread
  rw [Call.old, hpkgs]
  exact List.mem_map_of_mem hmem

end InSync

/-! ### Runs of commands -/

section Runs
variable {flt : Faults} {time targetId : Nat} {txn : ReconcileTxn} {w : World}

lemma cmdRollback_ensures :
    (cmdRollback flt targetId).Ensures w fun ok w' => ok = true → w'.gens.link = some targetId := by
  rw [cmdRollback, Prog.ensures_bind, Prog.ensures_read]
  split_ifs
  · simp
  · rw [Prog.ensures_bind, genDbLock, Prog.ensures_step]
    cases w.gens.locked with
    | true => simp
    | false =>
      simp only [Bool.not_false, Prog.ensures_bind, lift_gens_ensures, genDbRollback,
        Prog.ensures_read, Bool.false_eq_true, if_false]
      split_ifs
      · refine (repoint_ensures flt targetId _).mono fun ok gens h hok => ?_
        exact h.2 hok
      · rw [Prog.ensures_ret]
        exact fun hok => absurd hok Bool.false_ne_true

lemma commitDesired_ensures :
    (commitDesired txn flt time).Ensures w fun r w' => ∀ id, r = .applied id →
      w'.gens.link = some id := by
  rw [commitDesired, Prog.ensures_bind, Prog.ensures_read, Prog.ensures_bind, genDbLock,
    Prog.ensures_step]
  cases w.gens.locked with
  | true => simp
  | false =>
    simp only [Bool.not_false, Prog.ensures_bind, commit_ensures, Bool.false_eq_true, if_false]
    refine (genDbCommit_ensures flt time _ _).mono fun r gens h id hid => ?_
    cases r with
    | none => cases hid
    | some n =>
      obtain rfl := ApplyResult.applied.inj hid
      exact (h n rfl).2.1

section Id
variable {kernel : Kernel} {user : User} {env : Install.Env} {s : State} {c : Call}

lemma id_of_reach_eq {p : Prog World Act Bool} {prev : World → List GenPkg}
    (h : reach p prev s = .ok c) : c.id = genDbCurrent c.state.world.gens := by
  unfold reach at h
  split at h
  · cases h
    rfl
  · cases h

lemma reach_farm {p : Prog World Act Bool} {prev : World → List GenPkg}
    (h : reach p prev s = .ok c) : c.state.farm = s.farm := by
  unfold reach at h
  split at h
  · cases h
    rfl
  · cases h

lemma rollback_id (h : rollback flt targetId s = .ok c) :
    c.id = genDbCurrent c.state.world.gens := by
  have hlink : (cmdRollback flt targetId).Ensures s.world fun ok w' => ok = true →
      w'.gens.link = some targetId := cmdRollback_ensures
  unfold Prog.Ensures at hlink
  unfold rollback at h
  generalize (cmdRollback flt targetId).run s.world = r at h hlink
  obtain ⟨ok, w⟩ := r
  cases ok with
  | false => cases h
  | true =>
    cases h
    show targetId = genDbCurrent w.gens
    rw [genDbCurrent, hlink rfl, Option.getD_some]

lemma applyDesired_id (h : applyDesired flt time txn s = .ok c) :
    c.id = genDbCurrent c.state.world.gens := by
  have hlink : (commitDesired txn flt time).Ensures s.world fun r w' => ∀ id, r = .applied id →
      w'.gens.link = some id := commitDesired_ensures
  unfold Prog.Ensures at hlink
  unfold applyDesired at h
  generalize (commitDesired txn flt time).run s.world = r at h hlink
  obtain ⟨result, w⟩ := r
  cases result with
  | aborted => cases h
  | failed => cases h
  | applied id =>
    cases h
    show id = genDbCurrent w.gens
    rw [genDbCurrent, hlink id rfl, Option.getD_some]

lemma apply_id {attempts : Attempts} {desired : Json}
    (h : apply kernel user env attempts flt time desired s = .ok c) :
    c.id = genDbCurrent c.state.world.gens := by
  simp only [apply] at h
  generalize (if (reconcile desired s.world).isEmpty = true then (true, s)
    else executePlan kernel user env attempts time (reconcile desired s.world) s) = r at h
  split_ifs at h
  exact applyDesired_id h

end Id

/-- `cmd_remove` does so. -/
lemma remove_known {kernel : Kernel} {user : User} {s : State} {c : Call} {name : Bytes}
    (h : remove flt time name s = .ok c) (hs : InSync kernel user s)
    (hapart : Apart .empty (farmLinks user s.world s.packages)) {p target : Path}
    (hlink : LinksInto storeDir c.state.farm p target) : p ∈ c.old user := by
  have hstore := cmdRemove_ensures flt time name s.world
  have hwritten := cmdRemove_written flt time name s.world
  unfold Prog.Ensures at hstore hwritten
  unfold remove reach at h
  generalize (cmdRemove flt time name).run s.world = r at h hstore hwritten
  obtain ⟨ok, w⟩ := r
  cases ok with
  | false => cases h
  | true =>
    cases h
    refine Call.known_of_inSync (F := fun _ => False) hs hapart rfl rfl ?_ ?_ hlink
    · show Grows _ s.world.store w.store
      rw [hstore.1]
      exact .refl _ _
    · obtain ⟨d, hd, hread⟩ := hwritten rfl
      show (genDbGet w.gens (genDbCurrent w.gens)).isSome = true
      rw [genDbGet, hd, Option.bind_some, hread]
      rfl

variable (kernel : Kernel) (user : User) (env : Install.Env)

namespace Command

/-- The command leaves the farm in sync if it returns 0. -/
def LeavesInSync (s : State) (cmd : Command) : Prop :=
  (cmd.reach kernel user env s).isOk = true → InSync kernel user (cmd.exec kernel user env s)

def Clear (s : State) (cmd : Command) : Prop := ∀ c, cmd.reach kernel user env s = .ok c → c.Clear user

def Fits (s : State) (cmd : Command) : Prop := ∀ c, cmd.reach kernel user env s = .ok c → c.Fits user

variable {kernel user env} {s : State} {c : Call}

/-- The farm is built for the generation that is current. -/
lemma id_of_reach {cmd : Command} (h : cmd.reach kernel user env s = .ok c) :
    c.id = genDbCurrent c.state.world.gens := by
  cases cmd with
  | install flt time pkgs => exact id_of_reach_eq h
  | remove flt time name => exact id_of_reach_eq h
  | rollback flt targetId => exact rollback_id h
  | apply attempts flt time desired => exact apply_id h
  | aurBuild flt time plan => exact id_of_reach_eq h

end Command

variable {kernel user env}

end Runs

/-! ### A rollback that leaves a link behind -/

section Rollback

def someone : User := ⟨ascii "/home/u", false⟩

/-- A package with one executable. -/
def tool (name bin : String) : Package :=
  ⟨ascii name, ascii "1", [(ascii "bin", .directory [(ascii bin, .regular [] true)])]⟩

def freshState : State := ⟨.fresh, .empty⟩

def rollbackRun : List Command :=
  [.install .none 1 [tool "a" "x"], .install .none 2 [tool "b" "y"], .rollback .none 1]

/-- The executable of `b`. -/
def strayTarget : Path := ascii "/nix/store/00000000000000000000000000000000-b-1/bin/y"

end Rollback

end Two09.Farm
