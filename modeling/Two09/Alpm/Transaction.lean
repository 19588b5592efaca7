import Two09.Alpm.Commit
import Two09.Alpm.SysUpgrade

/-!
# Transactions

A transaction from its targets over their preparation to the commit, and one transaction after the other on the same
database.
-/

namespace Two09.Alpm

open Lib

/-- What is asked for before a transaction is prepared: `alpm_add_pkg`, `alpm_remove_pkg` of the installed package of
that name, or `alpm_sync_sysupgrade`. -/
inductive TransTarget
  | add (pkg : Pkg)
  | remove (name : Bytes)
  | sysupgrade (enableDowngrade : Bool)

/-- The flags of a transaction. -/
structure TransFlags where
  nodeps : Bool
  noconflicts : Bool
  needed : Bool
  downloadonly : Bool
  nolock : Bool
  recurse : Bool
  recurseall : Bool
  cascade : Bool
  unneeded : Bool
  alldeps : Bool
  allexplicit : Bool

/-- A transaction to come: whether a package is of an architecture of the system, whether the packages are loaded, no
files conflict, and the hooks succeed, and what happens during the commit. -/
structure Request where
  handle : UpgradeHandle
  flags : TransFlags
  targets : List TransTarget
  checkArch : Pkg → Bool
  syncLoad : Bool
  syncCheck : Bool
  hookRun : Bool
  events : Events

/-- Why a preparation fails. -/
inductive TransError
  | invalidArch (data : List Pkg)
  | sync (error : SyncError)

/-- A transaction, and whether it is in the state `STATE_PREPARED`. -/
structure Prepared where
  prepared : Bool
  trans : SyncTrans

/-- `alpm_add_pkg` -/
def alpmAddPkg (needed : Bool) (dbLocal : List Pkg) (trans : SyncTrans) (pkg : Pkg) : Bool × SyncTrans :=
  match pkgFind trans.add pkg.name with
  | some dup => (decide (dup.addr = pkg.addr), trans)
  | none =>
    if needed && (pkgFind dbLocal pkg.name).any fun installed => compareEVR pkg.version installed.version = .eq then
      (true, trans)
    else (true, { trans with add := trans.add ++ [{ pkg with explicit := true }] })

/-- `alpm_remove_pkg`, of the package that `alpm_db_get_pkg` finds. -/
def alpmRemovePkg (dbLocal : List Pkg) (trans : SyncTrans) (name : Bytes) : Bool × SyncTrans :=
  match pkgFind dbLocal name with
  | none => (false, trans)
  | some pkg =>
    if (pkgFind trans.remove pkg.name).isSome then (true, trans)
    else (true, { trans with remove := trans.remove ++ [pkg] })

/-- A call that fails leaves the transaction as it is. -/
def addTarget (handle : UpgradeHandle) (flags : TransFlags) (trans : SyncTrans) : TransTarget → SyncTrans
  | .add pkg => (alpmAddPkg flags.needed handle.dbLocal trans pkg).2
  | .remove name => (alpmRemovePkg handle.dbLocal trans name).2
  | .sysupgrade enableDowngrade => syncSysupgrade handle enableDowngrade trans

/-- The packages in the order of their dependencies. -/
def sortTrans (dbLocal : List Pkg) (trans : SyncTrans) : Preparation SyncTrans :=
  match sortbydeps dbLocal trans.add trans.remove false, sortbydeps dbLocal trans.remove [] true with
  | some add, some remove => pure { trans with add := add.1, remove := remove.1 }
  | _, _ => ExceptT.mk none

/-- `alpm_trans_prepare`, with targets to install. -/
def prepareInstall (handle : SyncHandle) (flags : TransFlags) (trans : SyncTrans) : Preparation SyncTrans := do
  let trans ← syncPrepare handle ⟨flags.nodeps, flags.noconflicts⟩ trans
  if flags.nodeps then pure trans else sortTrans handle.dbLocal trans

/-- The result of a removal that is prepared. -/
def removalOf (trans : SyncTrans) : Except (List DepMissing) (List Pkg × List (Pkg × Pkg)) → Except SyncError SyncTrans
  | .error data => .error (.unsatisfiedDeps data)
  | .ok remove => .ok { trans with remove := remove.1 }

/-- The packages of a removal that is prepared. -/
def prepareRemove (handle : SyncHandle) (flags : TransFlags) (trans : SyncTrans) : Preparation SyncTrans :=
  ExceptT.mk ((prepareRemoval handle.toDepHandle
    ⟨flags.nodeps, flags.recurse, flags.recurseall, flags.cascade, flags.unneeded⟩ handle.dbLocal trans.remove).map
      (removalOf trans))

/-- `alpm_trans_prepare` -/
def transPrepare (req : Request) (handle : SyncHandle) (trans : SyncTrans) : ExceptT TransError Option Prepared :=
  if trans.add.isEmpty && trans.remove.isEmpty then pure ⟨false, trans⟩
  else if !trans.add.all req.checkArch then throw (.invalidArch (trans.add.filter fun pkg => !req.checkArch pkg))
  else
    let prepare := if trans.add.isEmpty then prepareRemove else prepareInstall
    Prepared.mk true <$> ExceptT.adapt .sync (prepare handle req.flags trans)

/-- What is done to the database, if anything. -/
def commitPackages (req : Request) (db : List Pkg) (trans : SyncTrans) : Commit :=
  if trans.add.isEmpty then removePackages req.events trans.remove ⟨db, 0, false, false⟩
  else syncCommit req.events ⟨req.flags.alldeps, req.flags.allexplicit⟩ trans.remove trans.add db

/-- `alpm_trans_commit` -/
def transCommit (req : Request) (db : List Pkg) (p : Prepared) : Commit :=
  let untouched (failed : Bool) : Commit := ⟨db, 0, false, failed⟩
  if !p.prepared || req.flags.nolock then untouched true
  else if p.trans.add.isEmpty && p.trans.remove.isEmpty then untouched false
  else if !p.trans.add.isEmpty && !req.syncLoad then untouched true
  else if !p.trans.add.isEmpty && req.flags.downloadonly then untouched false
  else if !p.trans.add.isEmpty && !req.syncCheck then untouched true
  else if !req.hookRun then untouched true
  else commitPackages req db p.trans

/-- The handle with the database as it is. -/
def Request.on (req : Request) (db : List Pkg) : UpgradeHandle := { req.handle with dbLocal := db }

/-- The transaction with its targets. -/
def Request.trans (req : Request) (db : List Pkg) : SyncTrans :=
  req.targets.foldl (addTarget (req.on db) req.flags) ⟨[], [], [], fun _ => []⟩

/-- A whole transaction. -/
def transact (req : Request) (db : List Pkg) : ExceptT TransError Option Commit := do
  let p ← transPrepare req (req.on db).toSyncHandle (req.trans db)
  return transCommit req db p

/-- The database after a transaction: one that cannot be prepared leaves it as it is. -/
def dbAfter (db : List Pkg) : Except TransError Commit → List Pkg
  | .error _ => db
  | .ok c => c.db

/-- The database after many transactions. -/
def history : List Request → List Pkg → Option (List Pkg)
  | [], db => some db
  | req :: reqs, db => (transact req db).run.bind fun result => history reqs (dbAfter db result)

/-- A database in order: no name is there twice, an address is that of one name, every dependency is satisfied, and
no two packages conflict. -/
structure Orderly (handle : DepHandle) (naming : ℕ → Bytes) (db : List Pkg) : Prop where
  names : (db.map Pkg.name).Nodup
  named : ∀ p ∈ db, naming p.addr = p.name
  consistent : handle.Consistent db
  free : ConflictFree db

/-- A request that asks for the checks of dependencies and conflicts, and whose commit is neither interrupted nor loses
a package. A removal does not cascade and recurse while versions are not checked. -/
structure Regular (handle : DepHandle) (naming : ℕ → Bytes) (req : Request) : Prop where
  deps : req.handle.toDepHandle = handle
  nodeps : req.flags.nodeps = false
  noconflicts : req.flags.noconflicts = false
  versions : handle.nodepversion = false ∨ req.flags.cascade = false ∨ req.flags.recurse = false
  catalogued : Catalogued naming req.handle.dbsSync
  targets : ∀ pkg, TransTarget.add pkg ∈ req.targets → naming pkg.addr = pkg.name
  undisturbed : ∀ n, req.events.interrupt n = false
  succeeds : ∀ n, req.events.outcome n = ⟨true, false⟩

variable {handle : DepHandle} {naming : ℕ → Bytes} {req : Request} {reqs : List Request} {db add remove : List Pkg}
  {trans t : SyncTrans} {flags : TransFlags} {c : Commit} {events : Events} {p q : Pkg}

/-! ### The targets -/

section Targets

/-- What holds of a transaction while it is given its targets. -/
structure Gathered (naming : ℕ → Bytes) (db : List Pkg) (t : SyncTrans) : Prop where
  names : (t.add.map Pkg.name).Nodup
  named : ∀ p ∈ t.add, naming p.addr = p.name
  removal : (t.remove.map Pkg.name).Nodup
  installed : ∀ p ∈ t.remove, p ∈ db
  removes : ∀ addr, ∀ p ∈ t.removes addr, p ∈ db

lemma gathered_addTarget (uhandle : UpgradeHandle) (h : Gathered naming uhandle.dbLocal t)
    (hcat : Catalogued naming uhandle.dbsSync) (target : TransTarget)
    (htarget : ∀ pkg, target = .add pkg → naming pkg.addr = pkg.name) :
    Gathered naming uhandle.dbLocal (addTarget uhandle flags t target) := by
  cases target with
  | add pkg =>
    unfold addTarget alpmAddPkg
    simp only
    split
    · exact h
    next hnone =>
    split
    · exact h
    · refine ⟨nodup_names_concat h.names fun q hq hname => ?_, fun p hp => ?_, h.removal, h.installed, h.removes⟩
      · have hsome := isSome_pkgFind.2 ⟨q, hq, hname⟩
        rw [hnone] at hsome
        cases hsome
      · rcases List.mem_append.1 hp with hp | hp
        · exact h.named p hp
        · rw [List.mem_singleton.1 hp]
          exact htarget pkg rfl
  | remove name =>
    unfold addTarget alpmRemovePkg
    simp only
    split
    · exact h
    next pkg hfind =>
    split
    · exact h
    next hnone =>
      refine ⟨h.names, h.named, nodup_names_concat h.removal fun q hq hname => ?_, fun p hp => ?_, h.removes⟩
      · exact hnone (isSome_pkgFind.2 ⟨q, hq, hname⟩)
      · rcases List.mem_append.1 hp with hp | hp
        · exact h.installed p hp
        · rw [List.mem_singleton.1 hp]
          exact (of_pkgFind hfind).1
  | sysupgrade enableDowngrade =>
    obtain ⟨hup, -⟩ := syncSysupgrade_spec uhandle enableDowngrade hcat h.named
    refine ⟨hup.names h.names, hup.named hcat h.named, ?_, ?_, fun addr p hp => ?_⟩
    · exact hup.remove.symm ▸ h.removal
    · exact hup.remove.symm ▸ h.installed
    · exact (hup.removes addr p hp).elim (h.removes addr p) id

lemma gathered_trans (h : Regular handle naming req) (db : List Pkg) : Gathered naming db (req.trans db) := by
  refine List.foldlRecOn (motive := fun t => Gathered naming db t) req.targets _
    ⟨List.nodup_nil, by simp, List.nodup_nil, by simp, by simp⟩ fun t ht target htarget => ?_
  exact gathered_addTarget (req.on db) ht h.catalogued target fun pkg heq => h.targets pkg (heq ▸ htarget)

end Targets

/-! ### One transaction -/

section Transact

/-- A transaction that can be committed: the database to come is in order. -/
structure Ready (handle : DepHandle) (naming : ℕ → Bytes) (db : List Pkg) (t : SyncTrans) : Prop where
  names : (t.add.map Pkg.name).Nodup
  named : ∀ p ∈ t.add, naming p.addr = p.name
  consistent : handle.Consistent (afterwards db t.remove t.add)
  free : ConflictFree (afterwards db t.remove t.add)

lemma alike_of_mem {l l' : List Pkg} (h : ∀ p, p ∈ l ↔ p ∈ l') : Alike l l' :=
  ⟨fun p hp => ⟨p, (h p).1 hp, .refl p⟩, fun p hp => ⟨p, (h p).2 hp, .refl p⟩⟩

lemma alike_afterwards {add' remove' : List Pkg} (hadd : add'.Perm add) (hremove : remove'.Perm remove) :
    Alike (afterwards db remove add) (afterwards db remove' add') :=
  alike_of_mem fun p => by simp only [mem_afterwards, hadd.mem_iff, hremove.mem_iff]

/-- Sorting a transaction changes nothing else. -/
lemma Ready.sorted (h : Ready handle naming db t) {add' remove' : List Pkg} (hadd : add'.Perm t.add)
    (hremove : remove'.Perm t.remove) : Ready handle naming db { t with add := add', remove := remove' } :=
  ⟨(hadd.map _).nodup_iff.2 h.names, fun p hp => h.named p (hadd.mem_iff.1 hp),
    (alike_afterwards hadd hremove).consistent h.consistent, (alike_afterwards hadd hremove).conflictFree h.free⟩

/-- Packages of one address have one name. -/
lemma Orderly.sameName (h : Orderly handle naming db) (hadd : ∀ p ∈ add, naming p.addr = p.name) :
    ∀ p ∈ add, ∀ q ∈ db, p.addr = q.addr → p.name = q.name := by
  intro p hp q hq heq
  rw [← hadd p hp, heq, h.named q hq]

lemma ending_prepareRemove (h : Orderly handle naming db) (hreq : Regular handle naming req)
    (ht : Gathered naming db t) (hempty : t.add = []) :
    Ending (Ready handle naming db) (prepareRemove (req.on db).toSyncHandle req.flags t) := by
  obtain ⟨result, hprepare, hok, -⟩ := removePrepare_spec handle
    ⟨req.flags.nodeps, req.flags.recurse, req.flags.recurseall, req.flags.cascade, req.flags.unneeded⟩ h.names
    ht.installed h.consistent hreq.nodeps hreq.versions
  have hhandle : (req.on db).toDepHandle = handle := hreq.deps
  have hdb : (req.on db).dbLocal = db := rfl
  unfold prepareRemove prepareRemoval
  rw [hhandle, hdb, hprepare]
  cases result with
  | error data => exact .throw _
  | ok remove =>
    obtain ⟨hsub, hafter⟩ := hok remove rfl
    have hnodup := removePrepare_nodup h.names ht.removal.of_map hprepare
    obtain ⟨sorted, warnings, hsort, hperm, -⟩ := sortbydeps_spec h.names
      (h.sameName fun p hp => h.named p (hsub p hp)) hnodup [] true
    simp only
    rw [hreq.nodeps, if_neg Bool.false_ne_true, hsort]
    refine .pure (a := { t with remove := sorted }) ?_
    have hready : Ready handle naming db { t with remove := remove } := by
      refine ⟨ht.names, ht.named, ?_, ?_⟩
      · simp only [hempty, afterwards_nil]
        exact hafter
      · simp only [hempty, afterwards_nil]
        exact fun p hp q hq => h.free p (mem_without.1 hp).1 q (mem_without.1 hq).1
    exact hready.sorted (.refl _) hperm

lemma ending_prepareInstall (h : Orderly handle naming db) (hreq : Regular handle naming req)
    (ht : Gathered naming db t) :
    Ending (Ready handle naming db) (prepareInstall (req.on db).toSyncHandle req.flags t) := by
  have hhandle : (req.on db).toDepHandle = handle := hreq.deps
  have hconsistent : (req.on db).Consistent db := hhandle.symm ▸ h.consistent
  have hsync : Ending _ (syncPrepare (req.on db).toSyncHandle ⟨req.flags.nodeps, req.flags.noconflicts⟩ t) :=
    syncPrepare_spec _ h.names hconsistent h.free ht.names
  unfold prepareInstall
  refine hsync.bind fun t' ⟨hfollows, hconsistent, hfree⟩ => ?_
  have hnamed : ∀ p ∈ t'.add, naming p.addr = p.name := by
    intro p hp
    have hfirst : ∀ p ∈ t.add, (req.on db).Offers t.add p := fun p hp => ⟨p, List.mem_append_left _ hp, rfl, rfl⟩
    obtain ⟨q, hq, haddr, hname⟩ := hfollows.offers hfirst p hp
    rw [haddr, hname]
    rcases List.mem_append.1 hq with hq | hq
    · exact ht.named q hq
    · obtain ⟨sdb, hsdb, hq⟩ := List.mem_flatMap.1 hq
      exact hreq.catalogued.named sdb hsdb q hq
  have hready : Ready handle naming db t' :=
    ⟨hfollows.names ht.names, hnamed, hhandle ▸ hconsistent hreq.nodeps, hfree hreq.noconflicts⟩
  have hinstalled := (hfollows.installed ht.installed ht.removes).1
  obtain ⟨add', warnings, hadd, haddperm, -⟩ := sortbydeps_spec h.names (h.sameName hnamed) hready.names.of_map
    t'.remove false
  obtain ⟨remove', warnings', hremove, hremoveperm, -⟩ := sortbydeps_spec h.names
    (h.sameName fun p hp => h.named p (hinstalled p hp)) (hfollows.removal ht.removal).of_map [] true
  rw [hreq.nodeps, if_neg Bool.false_ne_true, sortTrans]
  have hdb : (req.on db).dbLocal = db := rfl
  rw [hdb, hadd, hremove]
  exact .pure (hready.sorted haddperm hremoveperm)

lemma removePackages_undisturbed (hevents : ∀ n, events.interrupt n = false) (targs : List Pkg)
    (hc : c.interrupted = false) : (removePackages events targs c).interrupted = false := by
  induction targs generalizing c with
  | nil => exact hc
  | cons t targs ih =>
    have hnext : (c.next events).interrupted = false := by simp [Commit.next, hc, hevents]
    rw [removePackages, if_neg (by simp [hnext])]
    exact ih hnext

lemma upgradePackages_undisturbed (hevents : ∀ n, events.interrupt n = false)
    (hsucceeds : ∀ n, events.outcome n = ⟨true, false⟩) (flags : ReasonFlags) (oldpkgs targs : List Pkg)
    (hc : c.interrupted = false) : (upgradePackages events flags oldpkgs targs c).interrupted = false := by
  induction targs generalizing c with
  | nil => exact hc
  | cons t targs ih =>
    have hnext : (c.next events).interrupted = false := by simp [Commit.next, hc, hevents]
    rw [upgradePackages, if_neg (by simp [hnext])]
    exact ih (by rw [hsucceeds])

/-- A commit that nothing disturbs brings the database that was foreseen. -/
lemma Ready.commit (h : Ready handle naming db t) (hdb : Orderly handle naming db) (hreq : Regular handle naming req) :
    Orderly handle naming (commitPackages req db t).db := by
  have hcommit : commitPackages req db t =
      syncCommit req.events ⟨req.flags.alldeps, req.flags.allexplicit⟩ t.remove t.add db := by
    unfold commitPackages
    split
    next hempty => rw [List.isEmpty_iff.1 hempty]; rfl
    next => rfl
  have hdone : (syncCommit req.events ⟨req.flags.alldeps, req.flags.allexplicit⟩ t.remove t.add db).interrupted =
      false :=
    upgradePackages_undisturbed hreq.undisturbed hreq.succeeds _ _ _ (removePackages_undisturbed hreq.undisturbed _ rfl)
  obtain ⟨halike, hnames⟩ := syncCommit_alike _ (fun n _ => by rw [hreq.succeeds]) t.remove h.names hdb.names hdone
  rw [hcommit]
  refine ⟨hnames, fun p hp => ?_, halike.consistent h.consistent, halike.conflictFree h.free⟩
  obtain ⟨q, hq, hinst⟩ := halike.2 p hp
  rw [hinst.addr, hinst.name]
  rcases mem_afterwards.1 hq with hq | hq
  · exact h.named q hq
  · exact hdb.named q hq.1

/-- **One transaction** comes to an end, and the database is in order after it. -/
lemma ending_transact (h : Orderly handle naming db) (hreq : Regular handle naming req) :
    Ending (fun c : Commit => Orderly handle naming c.db) (transact req db) := by
  have ht := gathered_trans hreq db
  have hprepare : Ending (fun p : Prepared => p.prepared = true → Ready handle naming db p.trans)
      (transPrepare req (req.on db).toSyncHandle (req.trans db)) := by
    unfold transPrepare
    split
    · exact .pure fun h => by cases h
    split
    · exact .throw _
    have hready : Ending (Ready handle naming db)
        ((if (req.trans db).add.isEmpty then prepareRemove else prepareInstall) (req.on db).toSyncHandle req.flags
          (req.trans db)) := by
      split
      next hempty => exact ending_prepareRemove h hreq ht (List.isEmpty_iff.1 hempty)
      next => exact ending_prepareInstall h hreq ht
    rw [map_eq_pure_bind]
    exact (hready.adapt _).bind fun t ht => .pure fun _ => ht
  refine hprepare.bind fun p hp => .pure ?_
  unfold transCommit
  split
  · exact h
  next hstate =>
  rw [Bool.or_eq_true, not_or, Bool.not_eq_true', Bool.not_eq_false] at hstate
  have hready := hp hstate.1
  -- without a failure before the commit there is nothing in its way
  split
  · exact h
  split
  · exact h
  split
  · exact h
  split
  · exact h
  split
  · exact h
  · exact hready.commit h hreq

end Transact

/-! ### One transaction after the other -/

/-- A transaction on the system that is outdated. -/
def upkeep (targets : List TransTarget) : Request where
  handle := outdated
  flags := ⟨false, false, false, false, false, false, false, false, false, false, false⟩
  targets := targets
  checkArch _ := true
  syncLoad := true
  syncCheck := true
  hookRun := true
  events := ⟨fun _ => false, fun _ => ⟨true, false⟩⟩

/-- The packages of the addresses. -/
def nameAt (addr : ℕ) : Bytes := if addr = 1 ∨ addr = 5 then [119] else if addr = 2 then [120] else [121]

/-- What is installed. -/
def stock : List Pkg := [{ wOf [49] with addr := 1 }, { pkgOf [120] [] true with addr := 2 }]

lemma regular_upkeep {targets : List TransTarget} (h : ∀ pkg, TransTarget.add pkg ∉ targets) :
    Regular ⟨false, []⟩ nameAt (upkeep targets) := by
  have hcat : Catalogued nameAt outdated.dbsSync := ⟨by decide +kernel, by decide +kernel⟩
  exact ⟨rfl, rfl, rfl, .inl rfl, hcat, fun pkg hpkg => absurd hpkg (h pkg), fun _ => rfl, fun _ => rfl⟩

end Two09.Alpm
