import Two09.Install.Command

/-!
# Commands that bring generations from elsewhere

`cmd_bundle` and `cmd_import`, and `cmd_lockfile_import`. What `tar` is told to do it does, or else it fails; a
compressed archive it cannot add to.
-/

namespace Two09.Transfer

open Two09.Lib Two09.Lib.Posix Two09.Gen Two09.Store Two09.Install

/-! ### Archives -/

/-- An archive of a generation. -/
structure Archive where
  compressed : Bool
  manifest : Option (File Manifest)
  diff : Option (File Diff)
  paths : List (StoreName × Entry)

/-- `tar czf … manifest.json diff.json` -/
def tarCreate (d : GenDir) : Bool × Archive :=
  (d.manifest.isSome && d.diff.isSome, ⟨true, d.manifest, d.diff, []⟩)

/-- The entry of the store that a path names. -/
def storeName? (path : Path) : Option StoreName :=
  if storeDir.isPrefixOf path then entryName? (path.drop storeDir.length) else none

/-- `tar rf … <path>` -/
def tarAppend (store : StoreDir) (a : Archive) (path : Path) : Bool × Archive :=
  match storeName? path with
  | none => (false, a)
  | some n =>
    match store.lookup n with
    | none => (false, a)
    | some e => if a.compressed then (false, a) else (true, { a with paths := a.paths ++ [(n, e)] })

/-- `tar xzf … -C /` -/
def tarExtract (a : Archive) (store : StoreDir) : StoreDir := a.paths.foldl (fun store p => store.insert p.1 p.2) store

/-! ### The commands -/

/-- Adding the path of a package, whether or not it can be added. -/
def appendPackage (store : StoreDir) (a : Archive) (p : GenPkg) : Archive :=
  match p.storePath with
  | none => a
  | some path => (tarAppend store a path).2

/-- `cmd_bundle`: the archive, if it returns 0. -/
def cmdBundle (tarFails : Bool) (w : World) (id : Nat) : Option Archive :=
  if id = 0 then none
  else match w.gens.dirs.lookup id with
    | none => none
    | some d =>
      let archive := (readPackages w.gens id).foldl (appendPackage w.store) (tarCreate d).2
      if (tarCreate d).1 && !tarFails then some archive else none

/-- A commit under the lock; whether there was one. -/
def lockAndCommit (flt : Faults) (time : Nat) (pkgs : List GenPkg) : Prog World Act Bool :=
  genDbLock.bind fun
  | false => .ret false
  | true => (commit flt time pkgs).bind fun id => genDbUnlock.bind fun _ => .ret id.isSome

/-- `cmd_import`; whether it returned 0. -/
def cmdImport (flt : Faults) (time : Nat) (a : Archive) : Prog World Act Bool :=
  match File.read? a.manifest with
  | none => .ret false
  | some m =>
    (Prog.modify .fetch fun w : World => { w with store := tarExtract a w.store }).bind fun _ =>
      lockAndCommit flt time m.packages

/-- `cmd_lockfile_import`, of the packages in the file, an empty path being none; whether it returned 0. -/
def cmdLockfileImport (flt : Faults) (time : Nat) (packages : List GenPkg) : Prog World Act Bool :=
  lockAndCommit flt time (packages.map fun p => { p with storePath := p.storePath.filter (· ≠ []) })

/-! ### What a commit under the lock does -/

section Commit
variable {flt : Faults} {time : Nat} {pkgs : List GenPkg} {w : World}

/-- **A commit that succeeds** has the packages in the generation that is then current, and touches nothing else. -/
lemma lockAndCommit_ensures (flt : Faults) (time : Nat) (pkgs : List GenPkg) (w : World) :
    (lockAndCommit flt time pkgs).Ensures w fun ok w' => w'.store = w.store ∧
      (ok = true → readPackages w'.gens (genDbCurrent w'.gens) = pkgs) := by
  unfold lockAndCommit
  rw [Prog.ensures_bind, genDbLock, Prog.ensures_step]
  cases w.gens.locked with
  | true => exact ⟨rfl, by simp⟩
  | false =>
    simp only [Bool.not_false, Prog.ensures_bind, commit_ensures]
    refine (genDbCommit_ensures flt time _ _).mono fun r gens h => ?_
    rw [genDbUnlock, Prog.ensures_modify, Prog.ensures_ret]
    refine ⟨rfl, fun hok => ?_⟩
    obtain ⟨id, rfl⟩ := Option.isSome_iff_exists.1 hok
    obtain ⟨-, hlink, hwritten⟩ := h id rfl
    have hnew : genDbCurrent { gens with locked := false } = id := by simp [genDbCurrent, hlink]
    rw [hnew]
    exact hwritten.readPackages

/-- Where nothing fails and nobody holds the lock there is a commit. -/
lemma lockAndCommit_faultless (time : Nat) (pkgs : List GenPkg) (h : w.gens.locked = false) :
    ((lockAndCommit .none time pkgs).run w).1 = true := by
  show (lockAndCommit .none time pkgs).Ensures w fun ok _ => ok = true
  unfold lockAndCommit
  rw [Prog.ensures_bind, genDbLock, Prog.ensures_step, h]
  simp only [Bool.not_false, Prog.ensures_bind, commit_ensures]
  show ((genDbCommit .none time pkgs).run { w.gens with locked := true }).1.isSome = true
  rw [genDbCommit_faultless]
  rfl

/-- What an import that succeeds leaves. -/
lemma cmdImport_ensures (flt : Faults) (time : Nat) (a : Archive) (w : World) :
    (cmdImport flt time a).Ensures w fun ok w' => ok = true → ∃ m, File.read? a.manifest = some m ∧
      w'.store = tarExtract a w.store ∧ readPackages w'.gens (genDbCurrent w'.gens) = m.packages := by
  unfold cmdImport
  cases hread : File.read? a.manifest with
  | none => simp
  | some m =>
    simp only [Prog.ensures_bind, Prog.ensures_modify]
    refine (lockAndCommit_ensures flt time m.packages _).mono fun ok w' h hok => ?_
    exact ⟨m, rfl, h.1, h.2 hok⟩

lemma cmdImport_faultless {a : Archive} {m : Manifest} (time : Nat) (hread : File.read? a.manifest = some m)
    (h : w.gens.locked = false) : ((cmdImport .none time a).run w).1 = true := by
  unfold cmdImport
  rw [hread]
  show ((lockAndCommit .none time m.packages).run _).1 = true
  exact lockAndCommit_faultless time m.packages h

end Commit

end Two09.Transfer
