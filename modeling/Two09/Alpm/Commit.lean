import Two09.Alpm.Conflict

/-!
# Committing a transaction

`_alpm_remove_packages` and `_alpm_sync_commit`: packages are removed and installed one after the other, and the
transaction may be interrupted between any two of them. In the order that the packages have been sorted to, what is
in the database at that moment works.
-/

namespace Two09.Alpm

open Lib

/-- What comes of a package that is installed: whether it gets into the database, and whether its commit fails. -/
structure Outcome where
  entered : Bool
  failed : Bool

/-- What happens during a commit, by the turns of its loops: whether `alpm_trans_interrupt` is called before the turn,
and what comes of the package. -/
structure Events where
  interrupt : ℕ → Bool
  outcome : ℕ → Outcome

/-- The flags `ALPM_TRANS_FLAG_ALLDEPS` and `ALPM_TRANS_FLAG_ALLEXPLICIT`. -/
structure ReasonFlags where
  alldeps : Bool
  allexplicit : Bool

/-- A transaction that is being committed; `interrupted` for the state `STATE_INTERRUPTED`, `failed` for `-1`. -/
structure Commit where
  db : List Pkg
  turn : ℕ
  interrupted : Bool
  failed : Bool

/-- Before each turn: it may have been interrupted since the last one. -/
def Commit.next (c : Commit) (events : Events) : Commit :=
  { c with turn := c.turn + 1, interrupted := c.interrupted || events.interrupt c.turn }

/-- `_alpm_remove_packages`. The removal of a package does not fail. -/
def removePackages (events : Events) : List Pkg → Commit → Commit
  | [], c => c
  | pkg :: targ, c =>
    let c := c.next events
    if c.interrupted then c else removePackages events targ { c with db := listRemove c.db pkg }

/-- The reason for which a package is installed: that of the one it replaces, unless the flags say otherwise. -/
def installReason (flags : ReasonFlags) (oldpkg : Option Pkg) (newpkg : Pkg) : Bool :=
  if flags.alldeps then false
  else if flags.allexplicit then true
  else (oldpkg.map Pkg.explicit).getD newpkg.explicit

/-- The package that a new one replaces: it is installed, and was when the transaction was prepared. -/
def oldPkg (oldpkgs db : List Pkg) (newpkg : Pkg) : Option Pkg :=
  if (pkgFind db newpkg.name).isSome then pkgFind oldpkgs newpkg.name else none

/-- `_alpm_remove_single_package` of the package that is replaced. -/
def removeOld (db : List Pkg) : Option Pkg → List Pkg
  | none => db
  | some oldpkg => listRemove db oldpkg

/-- `commit_single_pkg`; `oldpkgs` are the packages that were installed when the transaction was prepared. -/
def commitSinglePkg (outcome : Outcome) (flags : ReasonFlags) (oldpkgs : List Pkg) (newpkg : Pkg) (db : List Pkg) :
    List Pkg :=
  let oldpkg := oldPkg oldpkgs db newpkg
  let db := removeOld db oldpkg
  if outcome.entered then listMmerge pkgCmp db [{ newpkg with explicit := installReason flags oldpkg newpkg }] else db

/-- `_alpm_upgrade_packages`. A commit that fails interrupts the transaction. -/
def upgradePackages (events : Events) (flags : ReasonFlags) (oldpkgs : List Pkg) : List Pkg → Commit → Commit
  | [], c => c
  | newpkg :: targ, c =>
    let outcome := events.outcome c.turn
    let c := c.next events
    if c.interrupted then c
    else upgradePackages events flags oldpkgs targ
      { c with
        db := commitSinglePkg outcome flags oldpkgs newpkg c.db
        interrupted := outcome.failed
        failed := c.failed || outcome.failed }

/-- `_alpm_sync_commit` -/
def syncCommit (events : Events) (flags : ReasonFlags) (remove add : List Pkg) (db : List Pkg) : Commit :=
  upgradePackages events flags db add (removePackages events remove ⟨db, 0, false, false⟩)

/-- `alpm_trans_prepare` of a removal: the packages in their order, and the cycles that it warns of. -/
def prepareRemoval (handle : DepHandle) (flags : RemoveFlags) (dbLocal remove : List Pkg) :
    Option (Except (List DepMissing) (List Pkg × List (Pkg × Pkg))) :=
  match removePrepare handle flags dbLocal remove with
  | none => none
  | some (.error data) => some (.error data)
  | some (.ok remove) =>
    if flags.nodeps then some (.ok (remove, [])) else (sortbydeps dbLocal remove [] true).map .ok

variable {handle : DepHandle} {events : Events} {flags : ReasonFlags} {rflags : RemoveFlags} {c : Commit}
  {db oldpkgs targs remove add sorted l₁ : List Pkg} {p q : Pkg} {α : Type*} {a b : α} {l : List α}

/-! ### Removing -/

section Removing

/-- Some of the first packages have been removed, and all unless it was interrupted. -/
lemma removePackages_spec (events : Events) (targs : List Pkg) (hdb : (c.db.map Pkg.name).Nodup) :
    ∃ done, done <+: targs ∧ (removePackages events targs c).db = without c.db done ∧
      ((removePackages events targs c).interrupted = false → done = targs ∧ c.interrupted = false) ∧
      (removePackages events targs c).failed = c.failed := by
  induction targs generalizing c with
  | nil => exact ⟨[], List.prefix_rfl, by rw [removePackages]; simp [without, pkgFind], fun h => ⟨rfl, h⟩, rfl⟩
  | cons t targs ih =>
    rw [removePackages]
    split
    next hint =>
      refine ⟨[], List.nil_prefix, by simp [without, pkgFind, Commit.next], fun h => ?_, rfl⟩
      rw [hint] at h
      cases h
    next hint =>
      have hrest : ((listRemove c.db t).map Pkg.name).Nodup := hdb.sublist (List.eraseP_sublist.map _)
      obtain ⟨done, hdone, heq, hall, hfailed⟩ := ih (c := { c.next events with db := listRemove (c.next events).db t }) hrest
      refine ⟨t :: done, List.cons_prefix_cons.2 ⟨rfl, hdone⟩, ?_, fun h => ?_, hfailed⟩
      · exact (heq.trans (foldl_listRemove hrest done).symm).trans (foldl_listRemove hdb (t :: done))
      · obtain ⟨rfl, -⟩ := hall h
        refine ⟨rfl, ?_⟩
        cases hc : c.interrupted with
        | false => rfl
        | true => simp [Commit.next, hc] at hint

/-- What comes first of two is among the first ones if the other is. -/
lemma mem_of_before {l₁ : List α} (hl : l.Nodup) (hab : [a, b].Sublist l) (hpre : l₁ <+: l) (hb : b ∈ l₁) : a ∈ l₁ := by
  obtain ⟨l₂, rfl⟩ := hpre
  obtain ⟨m₁, m₂, heq, ha, hb'⟩ := before_iff.1 hab
  rcases List.append_eq_append_iff.1 heq with ⟨k, rfl, rfl⟩ | ⟨k, rfl, rfl⟩
  · rcases List.mem_append.1 ha with ha | ha
    · exact ha
    · exact absurd (List.mem_append_right _ hb') (List.disjoint_of_nodup_append hl hb)
  · exact List.mem_append_left _ ha

/-- **No package is left without what it needs while others are removed**: when the packages that a removal was prepared
to are in an order in which nothing is removed before what depends on it, the database stays consistent however many of
them have been removed. -/
lemma consistent_without_of_prefix (hdb : (db.map Pkg.name).Nodup) (hstrict : handle.nodepversion = false)
    (hconsistent : handle.Consistent db) (hafter : handle.Consistent (without db remove))
    (hsub : ∀ q ∈ remove, q ∈ db) (hperm : sorted.Perm remove) (hnodup : remove.Nodup)
    (horder : ∀ p ∈ remove, ∀ q ∈ remove, p ≠ q → pkgDependsOn p q = true → [p, q].Sublist sorted)
    (hpre : l₁ <+: sorted) : handle.Consistent (without db l₁) := by
  have hrelax : ∀ dep, handle.relax dep = dep := fun dep => by rw [DepHandle.relax, hstrict, if_neg Bool.false_ne_true]
  have hin : ∀ q ∈ l₁, q ∈ remove := fun q hq => hperm.mem_iff.1 (hpre.subset hq)
  have hstays : ∀ q ∈ db, q ∉ remove → q ∈ without db l₁ := fun q hq hnot =>
    mem_without.2 ⟨hq, fun r hr hname => hnot (List.inj_on_of_nodup_map hdb hq (hsub r (hin r hr)) hname.symm ▸ hin r hr)⟩
  intro p hp dep hdep
  obtain ⟨hpdb, hnames⟩ := mem_without.1 hp
  by_cases hpr : p ∈ remove
  · rcases hconsistent p hpdb dep hdep with ⟨q, hq, hsat⟩ | hassumed
    swap
    · exact .inr hassumed
    by_cases hqr : q ∈ remove
    · refine .inl ⟨q, mem_without.2 ⟨hq, fun r hr hname => ?_⟩, hsat⟩
      obtain rfl := List.inj_on_of_nodup_map hdb (hsub r (hin r hr)) hq hname
      by_cases hpq : p = r
      · exact hnames r hr (by rw [hpq])
      · rw [hrelax] at hsat
        have hbefore := horder p hpr r hqr hpq (List.any_eq_true.2 ⟨dep, hdep, hsat⟩)
        exact hnames p (mem_of_before (hperm.nodup_iff.2 hnodup) hbefore hpre hr) rfl
    · exact .inl ⟨q, hstays q hq hqr, hsat⟩
  · have hpw : p ∈ without db remove := mem_without.2 ⟨hpdb, fun r hr hname =>
      hpr (List.inj_on_of_nodup_map hdb hpdb (hsub r hr) hname.symm ▸ hr)⟩
    rcases hafter p hpw dep hdep with ⟨q, hq, hsat⟩ | hassumed
    · obtain ⟨hqdb, hqnames⟩ := mem_without.1 hq
      exact .inl ⟨q, hstays q hqdb fun hqr => hqnames q hqr rfl, hsat⟩
    · exact .inr hassumed

/-- **A removal can be interrupted at any time**: once it has been prepared in a consistent database without a warning
of a cycle, the database is consistent however many of the packages have been removed. -/
theorem removal_interrupted (hdb : (db.map Pkg.name).Nodup) (haddr : ∀ p ∈ db, ∀ q ∈ db, p.addr = q.addr → p.name = q.name)
    (hconsistent : handle.Consistent db) (htargs : ∀ q ∈ targs, q ∈ db) (honce : targs.Nodup)
    (hnodeps : rflags.nodeps = false) (hstrict : handle.nodepversion = false) :
    ∃ result, prepareRemoval handle rflags db targs = some result ∧ ∀ remove, result = .ok (remove, []) →
      ∀ events, handle.Consistent (removePackages events remove ⟨db, 0, false, false⟩).db := by
  obtain ⟨prepared, hprepare, hok, -⟩ := removePrepare_spec handle rflags hdb htargs hconsistent hnodeps (.inl hstrict)
  unfold prepareRemoval
  rw [hprepare]
  cases prepared with
  | error data => exact ⟨_, rfl, fun remove h => by cases h⟩
  | ok remove =>
  obtain ⟨hsub, hafter⟩ := hok remove rfl
  have hnodup := removePrepare_nodup hdb honce hprepare
  obtain ⟨sorted, warnings, hsort, hperm, horder, -⟩ := sortbydeps_spec hdb (fun p hp => haddr p (hsub p hp)) hnodup [] true
  simp only
  rw [hnodeps, if_neg Bool.false_ne_true, hsort]
  refine ⟨_, rfl, fun remove' h events => ?_⟩
  cases h
  obtain ⟨done, hdone, heq, -⟩ := removePackages_spec (c := ⟨db, 0, false, false⟩) events sorted hdb
  rw [heq]
  refine consistent_without_of_prefix hdb hstrict hconsistent hafter hsub hperm hnodup (fun p hp q hq hne hdep => ?_) hdone
  have hbefore := (horder p hp q hq hne hdep).resolve_right List.not_mem_nil
  exact List.reverse_sublist.1 hbefore

theorem removal_interrupted_chain : ∃ result,
    prepareRemoval ⟨false, []⟩ ⟨false, false, false, false, false⟩ [chainM, chainB] [chainB, chainM] = some result ∧
      ∀ remove, result = .ok (remove, []) → ∀ events,
        (⟨false, []⟩ : DepHandle).Consistent (removePackages events remove ⟨[chainM, chainB], 0, false, false⟩).db :=
  removal_interrupted (by decide +kernel) (by decide +kernel) (by decide +kernel) (by decide +kernel)
    (by decide +kernel) rfl rfl

end Removing

/-! ### Installing -/

section Installing

lemma without_nil (db : List Pkg) : without db [] = db := by simp [without, pkgFind]

lemma without_append (l₁ l₂ remove : List Pkg) : without (l₁ ++ l₂) remove = without l₁ remove ++ without l₂ remove :=
  List.filter_append ..

lemma without_cons (db : List Pkg) (t : Pkg) (remove : List Pkg) :
    without (without db [t]) remove = without db (t :: remove) := by
  refine List.filter_filter.trans (List.filter_congr fun p _ => ?_)
  rw [isSome_pkgFind_cons, isSome_pkgFind_cons, Bool.not_or, Bool.not_or, Bool.and_comm]
  simp [pkgFind]

lemma listRemove_eq_without (hdb : (db.map Pkg.name).Nodup) (hname : p.name = q.name) : listRemove db p = without db [q] := by
  rw [← foldl_listRemove hdb, List.foldl_cons, List.foldl_nil, listRemove, listRemove, hname]

/-- The old version goes, the new one comes. -/
lemma commitSinglePkg_perm (outcome : Outcome) (flags : ReasonFlags) (hdb : (db.map Pkg.name).Nodup)
    (hold : ∀ p ∈ db, p.name = q.name → (pkgFind oldpkgs q.name).isSome = true) :
    ∃ e, (commitSinglePkg outcome flags oldpkgs q db).Perm
      (without db [q] ++ if outcome.entered then [{ q with explicit := e }] else []) := by
  refine ⟨installReason flags (oldPkg oldpkgs db q) q, ?_⟩
  have hrest : removeOld db (oldPkg oldpkgs db q) = without db [q] := by
    unfold oldPkg
    split
    next hin =>
      obtain ⟨p, hp, hname⟩ := isSome_pkgFind.1 hin
      obtain ⟨oldpkg, hsome⟩ := Option.isSome_iff_exists.1 (hold p hp hname)
      rw [hsome]
      exact listRemove_eq_without hdb (of_pkgFind hsome).2
    next hnone =>
      refine (List.filter_eq_self.2 fun p hp => ?_).symm
      rw [isSome_pkgFind] at hnone
      have hname : q.name ≠ p.name := fun hname => hnone ⟨p, hp, hname.symm⟩
      simp [pkgFind, hname]
  unfold commitSinglePkg
  simp only
  rw [hrest]
  split
  · exact List.merge_perm_append _
  · rw [List.append_nil]

lemma upgradePackages_interrupted (events : Events) (flags : ReasonFlags) (oldpkgs targs : List Pkg)
    (hc : c.interrupted = true) : (upgradePackages events flags oldpkgs targs c).db = c.db ∧
      (upgradePackages events flags oldpkgs targs c).interrupted = true := by
  cases targs with
  | nil => exact ⟨rfl, hc⟩
  | cons t targs =>
    have hnext : (c.next events).interrupted = true := by simp [Commit.next, hc]
    rw [upgradePackages, if_pos hnext]
    exact ⟨rfl, hnext⟩

/-- Some of the first packages have been replaced, and all unless it was interrupted. Of these the last may be one that
did not get into the database. -/
lemma upgradePackages_spec (flags : ReasonFlags) (oldpkgs : List Pkg) (hevents : ∀ n, (events.outcome n).failed = false →
      (events.outcome n).entered = true) (htargs : (targs.map Pkg.name).Nodup) (hdb : (c.db.map Pkg.name).Nodup)
    (hold : ∀ p ∈ c.db, ∀ t ∈ targs, p.name = t.name → (pkgFind oldpkgs t.name).isSome = true) :
    ∃ done entered installed, done <+: targs ∧ entered <+: done ∧ List.Forall₂ InstalledAs entered installed ∧
      (upgradePackages events flags oldpkgs targs c).db.Perm (without c.db done ++ installed) ∧
      ((upgradePackages events flags oldpkgs targs c).interrupted = false →
        entered = targs ∧ c.interrupted = false) := by
  induction targs generalizing c with
  | nil => exact ⟨[], [], [], List.prefix_rfl, List.prefix_rfl, .nil, by rw [without_nil, List.append_nil]; rfl,
      fun h => ⟨rfl, h⟩⟩
  | cons t targs ih =>
    rw [upgradePackages]
    split
    next hint =>
      refine ⟨[], [], [], List.nil_prefix, List.prefix_rfl, .nil, ?_, fun h => ?_⟩
      · rw [without_nil, List.append_nil]
        rfl
      · rw [hint] at h
        cases h
    next hint =>
      have hbefore : c.interrupted = false := by
        cases hc : c.interrupted with
        | false => rfl
        | true => simp [Commit.next, hc] at hint
      rw [List.map_cons, List.nodup_cons] at htargs
      obtain ⟨e, hperm⟩ := commitSinglePkg_perm (events.outcome c.turn) flags hdb
        fun p hp => hold p hp t List.mem_cons_self
      cases hfailed : (events.outcome c.turn).failed with
      | true =>
        generalize hc' : ({ c.next events with
          db := commitSinglePkg (events.outcome c.turn) flags oldpkgs t (c.next events).db
          interrupted := true
          failed := (c.next events).failed || true } : Commit) = c'
        obtain ⟨heq, hstop⟩ := upgradePackages_interrupted events flags oldpkgs targs (c := c') (by rw [← hc'])
        rw [heq, hstop, ← hc']
        cases hin : (events.outcome c.turn).entered with
        | true =>
          rw [hin, if_pos rfl] at hperm
          exact ⟨[t], [t], _, List.cons_prefix_cons.2 ⟨rfl, List.nil_prefix⟩, List.prefix_rfl,
            .cons ⟨e, rfl⟩ .nil, hperm, fun h => by cases h⟩
        | false =>
          rw [hin, if_neg Bool.false_ne_true] at hperm
          exact ⟨[t], [], [], List.cons_prefix_cons.2 ⟨rfl, List.nil_prefix⟩, List.nil_prefix, .nil, hperm,
            fun h => by cases h⟩
      | false =>
        rw [hevents _ hfailed, if_pos rfl] at hperm
        generalize hc' : ({ c.next events with
          db := commitSinglePkg (events.outcome c.turn) flags oldpkgs t (c.next events).db
          interrupted := false
          failed := (c.next events).failed || false } : Commit) = c'
        have hperm' : c'.db.Perm (without c.db [t] ++ [{ t with explicit := e }]) := by
          rw [← hc']
          exact hperm
        have hfresh : ∀ u ∈ targs, u.name ≠ t.name := fun u hu hname => htargs.1 (List.mem_map.2 ⟨u, hu, hname⟩)
        have hnodup : (c'.db.map Pkg.name).Nodup := by
          rw [(hperm'.map Pkg.name).nodup_iff]
          refine nodup_names_concat (hdb.sublist (List.filter_sublist.map _)) fun p hp hname => ?_
          exact (mem_without.1 hp).2 t List.mem_cons_self hname.symm
        have hold' : ∀ p ∈ c'.db, ∀ u ∈ targs, p.name = u.name → (pkgFind oldpkgs u.name).isSome = true := by
          intro p hp u hu hname
          rcases List.mem_append.1 (hperm'.mem_iff.1 hp) with hp | hp
          · exact hold p (mem_without.1 hp).1 u (List.mem_cons_of_mem _ hu) hname
          · rw [List.mem_singleton.1 hp] at hname
            exact absurd hname.symm (hfresh u hu)
        obtain ⟨done, entered, installed, hdone, hentered, hinst, hrest, hall⟩ := ih htargs.2 hnodup hold'
        refine ⟨t :: done, t :: entered, _ :: installed, List.cons_prefix_cons.2 ⟨rfl, hdone⟩,
          List.cons_prefix_cons.2 ⟨rfl, hentered⟩, .cons ⟨e, rfl⟩ hinst, hrest.trans ?_, fun h => ?_⟩
        · have hkept : without [{ t with explicit := e }] done = [{ t with explicit := e }] := by
            refine List.filter_eq_self.2 fun p hp => ?_
            rw [List.mem_singleton.1 hp, Bool.not_eq_true', ← Bool.not_eq_true, isSome_pkgFind]
            exact fun ⟨u, hu, hname⟩ => hfresh u (hdone.subset hu) hname
          have hstays := (hperm'.filter fun pkg => !(pkgFind done pkg.name).isSome).append_right installed
          refine hstays.trans (.of_eq ?_)
          have hsplit := without_append (without c.db [t]) [{ t with explicit := e }] done
          rw [hkept, without_cons] at hsplit
          rw [without] at hsplit
          rw [hsplit, List.append_assoc, List.singleton_append]
        · exact ⟨by rw [(hall h).1], hbefore⟩

/-- Some of the packages have been removed; then, if these were all, some installed. -/
lemma syncCommit_spec (flags : ReasonFlags) (hevents : ∀ n, (events.outcome n).failed = false →
      (events.outcome n).entered = true) (remove : List Pkg) (hadd : (add.map Pkg.name).Nodup)
    (hdb : (db.map Pkg.name).Nodup) :
    ∃ removed done entered installed, removed <+: remove ∧ done <+: add ∧ entered <+: done ∧
      List.Forall₂ InstalledAs entered installed ∧
      (syncCommit events flags remove add db).db.Perm (without (without db removed) done ++ installed) ∧
      (removed = remove ∨ done = []) ∧
      ((syncCommit events flags remove add db).interrupted = false → removed = remove ∧ entered = add) := by
  unfold syncCommit
  obtain ⟨removed, hremoved, hdb', hall, -⟩ := removePackages_spec (c := ⟨db, 0, false, false⟩) events remove hdb
  generalize removePackages events remove ⟨db, 0, false, false⟩ = c at hdb' hall
  cases hc : c.interrupted with
  | true =>
    obtain ⟨hsame, hstop⟩ := upgradePackages_interrupted events flags db add hc
    refine ⟨removed, [], [], [], hremoved, List.nil_prefix, List.prefix_rfl, .nil, ?_, .inr rfl, fun h => ?_⟩
    · rw [hsame, hdb', without_nil, List.append_nil]
    · rw [hstop] at h
      cases h
  | false =>
    obtain ⟨rfl, -⟩ := hall hc
    have hsub : ∀ p ∈ c.db, p ∈ db := fun p hp => (mem_without.1 (hdb' ▸ hp)).1
    have hnodup : (c.db.map Pkg.name).Nodup := by
      rw [hdb']
      exact hdb.sublist (List.filter_sublist.map _)
    obtain ⟨done, entered, installed, hdone, hentered, hinst, hperm, hend⟩ := upgradePackages_spec flags db hevents hadd
      hnodup fun p hp t _ hname => isSome_pkgFind.2 ⟨p, hsub p hp, hname⟩
    rw [hdb'] at hperm
    exact ⟨removed, done, entered, installed, hremoved, hdone, hentered, hinst, hperm, .inl rfl,
      fun h => ⟨rfl, (hend h).1⟩⟩

/-- The reason for which a package is installed is of no concern to those that depend on it. -/
lemma InstalledAs.depcmp (h : InstalledAs q p) (dep : Depend) : depcmp p dep = depcmp q dep := by
  obtain ⟨e, rfl⟩ := h
  rfl

/-- **What an interrupted transaction has installed works**: when the packages are sorted without a warning of a cycle,
then however many of them have been installed before the transaction is interrupted or fails, each one of the new
packages finds in the database all that it needs. -/
theorem install_interrupted (hdb : (db.map Pkg.name).Nodup)
    (haddr : ∀ p ∈ add, ∀ q ∈ db, p.addr = q.addr → p.name = q.name) (hadd : (add.map Pkg.name).Nodup)
    (hafter : handle.Consistent (afterwards db remove add)) (hstrict : handle.nodepversion = false) :
    ∃ sorted warnings, sortbydeps db add remove false = some (sorted, warnings) ∧ (warnings = [] →
      ∀ events flags, (∀ n, (Events.outcome events n).failed = false → (events.outcome n).entered = true) →
        ∀ p ∈ (syncCommit events flags remove sorted db).db, p ∈ db ∨
          ∀ dep ∈ p.depends, handle.Satisfied (syncCommit events flags remove sorted db).db dep) := by
  obtain ⟨sorted, warnings, hsort, hperm, horder, -⟩ := sortbydeps_spec hdb haddr hadd.of_map remove false
  refine ⟨sorted, warnings, hsort, ?_⟩
  rintro rfl events flags hevents p hp
  have hnames : (sorted.map Pkg.name).Nodup := (hperm.map _).nodup_iff.2 hadd
  obtain ⟨removed, done, entered, installed, hremoved, hdone, hentered, hinst, hdb', hphase, -⟩ :=
    syncCommit_spec flags hevents remove hnames hdb
  rcases List.mem_append.1 (hdb'.mem_iff.1 hp) with hp | hp
  · exact .inl (mem_without.1 (mem_without.1 hp).1).1
  refine .inr fun dep hdep => ?_
  obtain ⟨q, hq, e, rfl⟩ := exists_of_forall₂ hinst.flip hp
  have hqdone : q ∈ done := hentered.subset hq
  have hqadd : q ∈ add := hperm.mem_iff.1 (hdone.subset hqdone)
  obtain rfl : removed = remove := hphase.resolve_right (List.ne_nil_of_mem hqdone)
  refine (hafter q (mem_afterwards.2 (.inl hqadd)) dep hdep).imp_left fun ⟨r, hr, hsat⟩ => ?_
  rcases mem_afterwards.1 hr with hr | ⟨hrdb, hrrem, hradd⟩
  · have hrin : r ∈ entered := by
      by_cases hne : q = r
      · exact hne ▸ hq
      · rw [DepHandle.relax, hstrict, if_neg Bool.false_ne_true] at hsat
        have hdepends : pkgDependsOn q r = true := List.any_eq_true.2 ⟨dep, hdep, hsat⟩
        have hbefore := (horder q hqadd r hr hne hdepends).resolve_right List.not_mem_nil
        exact mem_of_before hnames.of_map hbefore (hentered.trans hdone) hq
    obtain ⟨r', hr', hinst'⟩ := exists_of_forall₂ hinst hrin
    exact ⟨r', hdb'.mem_iff.2 (List.mem_append_right _ hr'), (hinst'.depcmp _).trans hsat⟩
  · refine ⟨r, hdb'.mem_iff.2 (List.mem_append_left _ ?_), hsat⟩
    exact mem_without.2 ⟨mem_without.2 ⟨hrdb, hrrem⟩, fun u hu => hradd u (hperm.mem_iff.1 (hdone.subset hu))⟩

theorem install_interrupted_chain : ∃ sorted warnings,
    sortbydeps [chainB] [chainA, chainM] [] false = some (sorted, warnings) ∧ (warnings = [] →
      ∀ events flags, (∀ n, (Events.outcome events n).failed = false → (events.outcome n).entered = true) →
        ∀ p ∈ (syncCommit events flags [] sorted [chainB]).db, p ∈ [chainB] ∨ ∀ dep ∈ p.depends,
          (⟨false, []⟩ : DepHandle).Satisfied (syncCommit events flags [] sorted [chainB]).db dep) :=
  install_interrupted (by decide +kernel) (by decide +kernel) (by decide +kernel) (by decide +kernel) rfl

/-- The same packages, but for the reasons for which they are installed. -/
def Alike (l l' : List Pkg) : Prop :=
  (∀ q ∈ l, ∃ p ∈ l', InstalledAs q p) ∧ ∀ p ∈ l', ∃ q ∈ l, InstalledAs q p

lemma Alike.consistent {l l' : List Pkg} (h : Alike l l') (hcons : handle.Consistent l) : handle.Consistent l' := by
  intro p hp dep hdep
  obtain ⟨q, hq, e, rfl⟩ := h.2 p hp
  refine (hcons q hq dep hdep).imp_left fun ⟨r, hr, hsat⟩ => ?_
  obtain ⟨r', hr', hinst⟩ := h.1 r hr
  exact ⟨r', hr', (hinst.depcmp _).trans hsat⟩

lemma Alike.conflictFree {l l' : List Pkg} (h : Alike l l') (hfree : ConflictFree l) : ConflictFree l' := by
  intro p hp q hq ⟨hne, conflict, hconflict, hsat⟩
  obtain ⟨p', hp', e, rfl⟩ := h.2 p hp
  obtain ⟨q', hq', e', rfl⟩ := h.2 q hq
  exact hfree p' hp' q' hq' ⟨hne, conflict, hconflict, hsat⟩

/-- A commit that is not interrupted leaves the packages that were foreseen. -/
lemma syncCommit_alike (flags : ReasonFlags) (hevents : ∀ n, (events.outcome n).failed = false →
      (events.outcome n).entered = true) (remove : List Pkg) (hadd : (add.map Pkg.name).Nodup)
    (hdb : (db.map Pkg.name).Nodup) (hdone : (syncCommit events flags remove add db).interrupted = false) :
    Alike (afterwards db remove add) (syncCommit events flags remove add db).db ∧
      ((syncCommit events flags remove add db).db.map Pkg.name).Nodup := by
  obtain ⟨removed, done, entered, installed, -, hpre, hentered, hinst, hdb', -, hend⟩ :=
    syncCommit_spec flags hevents remove hadd hdb
  obtain ⟨rfl, rfl⟩ := hend hdone
  obtain rfl := hpre.eq_of_length_le hentered.length_le
  have hkept : ∀ p, p ∈ without (without db removed) done ↔
      p ∈ db ∧ (∀ q ∈ removed, q.name ≠ p.name) ∧ ∀ q ∈ done, q.name ≠ p.name := fun p => by
    rw [mem_without, mem_without, and_assoc]
  have hnames := map_name_of_installedAs hinst
  refine ⟨⟨fun q hq => ?_, fun p hp => ?_⟩, ?_⟩
  · rcases mem_afterwards.1 hq with hq | hq
    · obtain ⟨p, hp, hqp⟩ := exists_of_forall₂ hinst hq
      exact ⟨p, hdb'.mem_iff.2 (List.mem_append_right _ hp), hqp⟩
    · exact ⟨q, hdb'.mem_iff.2 (List.mem_append_left _ ((hkept q).2 hq)), q.explicit, rfl⟩
  · rcases List.mem_append.1 (hdb'.mem_iff.1 hp) with hp | hp
    · exact ⟨p, mem_afterwards.2 (.inr ((hkept p).1 hp)), p.explicit, rfl⟩
    · obtain ⟨q, hq, hqp⟩ := exists_of_forall₂ hinst.flip hp
      exact ⟨q, mem_afterwards.2 (.inl hq), hqp⟩
  · rw [(hdb'.map Pkg.name).nodup_iff]
    refine nodup_names_append (hdb.sublist ((List.filter_sublist.trans List.filter_sublist).map _)) (hnames ▸ hadd)
      fun p hp r hr heq => ?_
    obtain ⟨q, hq, (hqr : InstalledAs q r)⟩ := exists_of_forall₂ hinst.flip hr
    exact ((hkept p).1 hp).2.2 q hq (hqr.name.symm.trans heq.symm)

end Installing

end Two09.Alpm
