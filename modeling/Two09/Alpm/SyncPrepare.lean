import Two09.Alpm.Conflict
import Two09.Alpm.Resolve
import Two09.Lib.Ending

/-!
# Preparing packages to install

`_alpm_sync_prepare`: the targets get the packages that they depend on, targets that conflict go, installed packages
that conflict are removed if the user agrees, and in the end the dependencies are checked.
-/

namespace Two09.Alpm

open Lib

/-- The transaction. `removes` is the field of the packages, by their address. -/
structure SyncTrans where
  add : List Pkg
  remove : List Pkg
  unresolvable : List Pkg
  removes : ℕ → List Pkg

/-- The flags `ALPM_TRANS_FLAG_NODEPS` and `ALPM_TRANS_FLAG_NOCONFLICTS`. -/
structure SyncFlags where
  nodeps : Bool
  noconflicts : Bool

/-- What the preparation asks for: whether a package is of a repository, the answers of the user, and whether a package
can be copied. -/
structure SyncHandle extends Resolver where
  fromSync : Pkg → Bool
  skipUnresolvable : List Pkg → Bool
  removeConflicting : Conflict → Bool
  pkgDup : Pkg → Bool

/-- `ALPM_ERR_DB_INVALID` and so on, with what is put into `data`. -/
inductive SyncError
  | dbInvalid
  | dbNotFound
  | unsatisfiedDeps (data : List DepMissing)
  | dupFilename
  | conflictingDeps (conflict : Conflict)
  | memory

/-- A preparation gets stuck only if it dereferences `NULL` or does not come to an end. -/
abbrev Preparation := ExceptT SyncError Option

/-- The check of the databases. -/
def checkDatabases (handle : SyncHandle) (add : List Pkg) : Preparation Unit :=
  forM handle.dbsSync fun db =>
    if db.invalid then throw .dbInvalid
    else if add.any handle.fromSync && db.missing then throw .dbNotFound
    else pure ()

/-- The packages so far, those that cannot be resolved, and the dependencies that are missing. -/
structure Resolution where
  resolved : List Pkg
  unresolvable : List Pkg
  data : List DepMissing

/-- One turn of the loop over the targets. -/
def resolveTarget (handle : SyncHandle) (localpkgs add remove : List Pkg) (r : Resolution) (pkg : Pkg) :
    Preparation Resolution :=
  match resolvedeps handle.toResolver localpkgs add remove ((handle.pool add).length + 1) pkg r.resolved r.data with
  | none => ExceptT.mk none
  | some c => pure ⟨c.packages, if c.ok then r.unresolvable else r.unresolvable ++ [pkg], c.data⟩

/-- The packages that are pulled in are installed as dependencies. -/
def setReason (add : List Pkg) (pkg : Pkg) : Pkg :=
  if (pkgFind add pkg.name).isNone then { pkg with explicit := false } else pkg

/-- The dependencies of the targets are resolved. -/
def resolveTargets (handle : SyncHandle) (trans : SyncTrans) : Preparation SyncTrans := do
  let remove := trans.remove ++ trans.add.flatMap fun spkg => trans.removes spkg.addr
  let localpkgs := listDiff pkgCmp handle.dbLocal trans.add
  let r ← trans.add.foldlM (resolveTarget handle localpkgs trans.add remove) ⟨[], [], []⟩
  if !r.unresolvable.isEmpty && !handle.skipUnresolvable r.unresolvable then throw (.unsatisfiedDeps r.data)
  else if !decide (r.resolved.map Pkg.filename).Nodup then throw .dupFilename
  else return { trans with add := r.resolved.map (setReason trans.add), unresolvable := r.unresolvable }

/-- A target that goes because it conflicts with another one. -/
def dropTarget (trans : SyncTrans) (rsync : Pkg) : SyncTrans :=
  { trans with add := listRemove trans.add rsync, unresolvable := trans.unresolvable ++ [rsync] }

/-- One turn of the loop over the conflicts among the targets. -/
def resolveInner (trans : SyncTrans) (conflict : Conflict) : Preparation SyncTrans :=
  match pkgFind trans.add conflict.package1, pkgFind trans.add conflict.package2 with
  | some sync1, some sync2 =>
    if depcmp sync1 (depFromString conflict.package2) then pure (dropTarget trans sync2)
    else if depcmp sync2 (depFromString conflict.package1) then pure (dropTarget trans sync1)
    else throw (.conflictingDeps conflict)
  | _, _ => pure trans

/-- The package is to be removed already. -/
def elected (trans : SyncTrans) (name : Bytes) : Bool :=
  (pkgFind trans.remove name).isSome || trans.add.any fun spkg => (pkgFind (trans.removes spkg.addr) name).isSome

/-- One turn of the loop over the conflicts with installed packages. -/
def resolveOuter (handle : SyncHandle) (trans : SyncTrans) (conflict : Conflict) : Preparation SyncTrans :=
  if elected trans conflict.package2 then pure trans
  else if handle.removeConflicting conflict then
    match pkgFind trans.add conflict.package1, pkgFind handle.dbLocal conflict.package2 with
    | some sync, some pkg =>
      pure { trans with removes := Function.update trans.removes sync.addr (trans.removes sync.addr ++ [pkg]) }
    | _, _ => ExceptT.mk none
  else throw (.conflictingDeps conflict)

/-- The packages that are to be removed for the sake of the targets. -/
def SyncTrans.replaced (trans : SyncTrans) : List Pkg := trans.add.flatMap fun spkg => trans.removes spkg.addr

/-- One turn of the loops that build the list of packages to remove. -/
def addRemoved (handle : SyncHandle) (trans : SyncTrans) (rpkg : Pkg) : Preparation SyncTrans :=
  if (pkgFind trans.remove rpkg.name).isSome then pure trans
  else if handle.pkgDup rpkg then pure { trans with remove := trans.remove ++ [rpkg] }
  else throw .memory

/-- Both checks for conflicts. -/
def resolveConflicts (handle : SyncHandle) (trans : SyncTrans) : Preparation SyncTrans := do
  let trans ← (innerconflicts trans.add).foldlM resolveInner trans
  (outerconflicts handle.dbLocal trans.add).foldlM (resolveOuter handle) trans

/-- The targets with what they depend on, unless dependencies are not asked for. -/
def withDeps (handle : SyncHandle) (flags : SyncFlags) (trans : SyncTrans) : Preparation SyncTrans :=
  if flags.nodeps then pure trans else resolveTargets handle trans

/-- The targets without conflicts, unless these are not asked for. -/
def withoutConflicts (handle : SyncHandle) (flags : SyncFlags) (trans : SyncTrans) : Preparation SyncTrans :=
  if flags.noconflicts then pure trans else resolveConflicts handle trans

/-- The check in the end. -/
def checkDeps (handle : SyncHandle) (flags : SyncFlags) (trans : SyncTrans) : Preparation SyncTrans :=
  if flags.nodeps then pure trans
  else
    let deps := alpmCheckdeps handle.toDepHandle handle.dbLocal trans.remove trans.add true
    if deps.isEmpty then pure trans else throw (.unsatisfiedDeps deps)

/-- `_alpm_sync_prepare` -/
def syncPrepare (handle : SyncHandle) (flags : SyncFlags) (trans : SyncTrans) : Preparation SyncTrans := do
  checkDatabases handle trans.add
  let trans ← withDeps handle flags trans
  let trans ← withoutConflicts handle flags trans
  let trans ← trans.replaced.foldlM (addRemoved handle) trans
  checkDeps handle flags trans

variable {handle : SyncHandle} {flags : SyncFlags} {trans trans' : SyncTrans} {add remove localpkgs : List Pkg} {p q : Pkg}
  {conflict : Conflict} {name : Bytes}

/-! ### Dependencies -/

section Resolve

lemma ending_checkDatabases (handle : SyncHandle) (add : List Pkg) : Ending (fun _ => True) (checkDatabases handle add) := by
  unfold checkDatabases
  induction handle.dbsSync with
  | nil => exact .pure trivial
  | cons db dbs ih =>
    rw [List.forM_cons]
    have hfirst : Ending (fun _ => True) (if db.invalid then throw .dbInvalid
        else if add.any handle.fromSync && db.missing then throw .dbNotFound else pure () : Preparation Unit) := by
      split
      · exact .throw _
      split
      · exact .throw _
      · exact .pure trivial
    exact hfirst.bind fun _ _ => ih

/-- No name comes to be there twice, and what comes is of the pool. -/
def Growing (pool : List Pkg) (r r' : Resolution) : Prop :=
  ((r.resolved.map Pkg.name).Nodup → (r'.resolved.map Pkg.name).Nodup) ∧ ∀ p ∈ r'.resolved, p ∈ r.resolved ∨ p ∈ pool

/-- The package, but for its reason, is one of the targets or of a repository. -/
def Resolver.Offers (handle : Resolver) (add : List Pkg) (p : Pkg) : Prop :=
  ∃ q ∈ handle.pool add, p.addr = q.addr ∧ p.name = q.name

lemma ending_resolveTarget (hpkg : p ∈ add) (r : Resolution) :
    Ending (fun r' => Growing (handle.pool add) r r' ∧ True)
      (resolveTarget handle localpkgs add remove r p) := by
  have hpool : p ∈ handle.pool add := List.mem_append_left _ hpkg
  have hlen : handle.remaining add r.resolved ≤ (handle.pool add).length := List.length_filter_le _ _
  obtain ⟨c, hresolve, hcalled⟩ := resolvedeps_called localpkgs remove hpool (Nat.lt_succ_of_le hlen) r.data
  rw [resolveTarget, hresolve]
  obtain ⟨new, happend, hnew⟩ := hcalled.grown.append
  refine .pure ⟨⟨hcalled.grown.names, fun q hq => ?_⟩, trivial⟩
  simp only at hq
  rw [happend] at hq
  exact (List.mem_append.1 hq).imp_right fun hq => (hnew q hq).1

lemma Growing.comp {pool : List Pkg} {r r' r'' : Resolution} (h : Growing pool r r') (h' : Growing pool r' r'') :
    Growing pool r r'' :=
  ⟨h'.1 ∘ h.1, fun p hp => (h'.2 p hp).elim (h.2 p) .inr⟩

lemma setReason_name (add : List Pkg) (p : Pkg) : (setReason add p).name = p.name := by
  unfold setReason
  split <;> rfl

lemma setReason_addr (add : List Pkg) (p : Pkg) : (setReason add p).addr = p.addr := by
  unfold setReason
  split <;> rfl

/-- The resolution of the targets ends, with each name once. -/
lemma ending_resolveTargets (handle : SyncHandle) (trans : SyncTrans) :
    Ending (fun t => (t.add.map Pkg.name).Nodup ∧ (∀ p ∈ t.add, handle.Offers trans.add p) ∧ t.remove = trans.remove ∧
      t.removes = trans.removes) (resolveTargets handle trans) := by
  unfold resolveTargets
  refine Ending.bind (Ending.foldlM (R := Growing (handle.pool trans.add)) (fun _ => ⟨id, fun _ => .inl⟩)
    (fun _ _ _ => .comp) (fun _ _ _ _ _ => trivial) trans.add ⟨[], [], []⟩ fun r _ p hp => ending_resolveTarget hp r)
    fun r ⟨hr, _⟩ => ?_
  split
  · exact .throw _
  split
  · exact .throw _
  refine .pure ⟨?_, fun p hp => ?_, rfl, rfl⟩
  · simp only [List.map_map, Function.comp_def, setReason_name]
    exact hr.1 List.nodup_nil
  · obtain ⟨q, hq, rfl⟩ := List.mem_map.1 hp
    exact ⟨q, (hr.2 q hq).resolve_left List.not_mem_nil, setReason_addr _ _, setReason_name _ _⟩

end Resolve

/-! ### Conflicts -/

section Conflicts

/-- Two names are not both among the targets. -/
def Apart (conflict : Conflict) (trans : SyncTrans) : Prop :=
  ∀ p ∈ trans.add, ∀ q ∈ trans.add, p.name = conflict.package1 → q.name ≠ conflict.package2

/-- Some of the targets have gone. -/
def Fewer (t t' : SyncTrans) : Prop := t'.add.Sublist t.add ∧ t'.remove = t.remove ∧ t'.removes = t.removes

lemma not_mem_listRemove (hnames : (add.map Pkg.name).Nodup) (hq : q ∈ listRemove add p) : q.name ≠ p.name := by
  rw [listRemove_eq hnames] at hq
  simpa using (List.mem_filter.1 hq).2

lemma ending_resolveInner (hnames : (trans.add.map Pkg.name).Nodup) (conflict : Conflict) :
    Ending (fun t => Fewer trans t ∧ Apart conflict t) (resolveInner trans conflict) := by
  unfold resolveInner
  cases h1 : pkgFind trans.add conflict.package1 with
  | none =>
    refine .pure ⟨⟨.refl _, rfl, rfl⟩, fun p hp q _ hname => ?_⟩
    have hsome := isSome_pkgFind.2 ⟨p, hp, hname⟩
    rw [h1] at hsome
    cases hsome
  | some sync1 =>
  cases h2 : pkgFind trans.add conflict.package2 with
  | none =>
    refine .pure ⟨⟨.refl _, rfl, rfl⟩, fun p _ q hq _ hname => ?_⟩
    have hsome := isSome_pkgFind.2 ⟨q, hq, hname⟩
    rw [h2] at hsome
    cases hsome
  | some sync2 =>
  obtain ⟨-, hname1⟩ := of_pkgFind h1
  obtain ⟨-, hname2⟩ := of_pkgFind h2
  simp only
  split
  · refine .pure ⟨⟨List.eraseP_sublist, rfl, rfl⟩, fun p _ q hq _ => ?_⟩
    exact hname2 ▸ not_mem_listRemove hnames hq
  split
  · refine .pure ⟨⟨List.eraseP_sublist, rfl, rfl⟩, fun p hp q _ hname => ?_⟩
    exact absurd (hname.trans hname1.symm) (not_mem_listRemove hnames hp)
  · exact .throw _

/-- What is left of the targets conflicts with no other of them. -/
lemma ending_innerconflicts (hnames : (trans.add.map Pkg.name).Nodup) :
    Ending (fun t => Fewer trans t ∧ ConflictFree t.add) ((innerconflicts trans.add).foldlM resolveInner trans) := by
  have hloop := Ending.foldlM (R := Fewer) (P := Apart) (fun _ => ⟨.refl _, rfl, rfl⟩)
    (fun _ _ _ h h' => ⟨h'.1.trans h.1, h'.2.1.trans h.2.1, h'.2.2.trans h.2.2⟩)
    (fun _ _ _ h hfew p hp q hq => h p (hfew.1.mem hp) q (hfew.1.mem hq)) (innerconflicts trans.add) trans
    fun t ht c _ => ending_resolveInner (hnames.sublist (ht.1.map _)) c
  refine hloop.mono fun t ⟨hfew, hall⟩ => ⟨hfew, fun p hp q hq hconf => ?_⟩
  obtain ⟨c, hc, h1, h2⟩ := reported_innerconflicts.2 ⟨p, hfew.1.mem hp, q, hfew.1.mem hq, hconf, rfl, rfl⟩
  exact hall c hc p hp q hq h1.symm h2.symm

/-- More packages are to be removed, installed ones. -/
structure Electing (dbLocal : List Pkg) (t t' : SyncTrans) : Prop where
  add : t'.add = t.add
  remove : t'.remove = t.remove
  sub : ∀ addr, ∀ p ∈ t.removes addr, p ∈ t'.removes addr
  of : ∀ addr, ∀ p ∈ t'.removes addr, p ∈ t.removes addr ∨ p ∈ dbLocal

lemma Electing.refl (dbLocal : List Pkg) (t : SyncTrans) : Electing dbLocal t t :=
  ⟨rfl, rfl, fun _ _ => id, fun _ _ => .inl⟩

lemma Electing.comp {dbLocal : List Pkg} {t t' t'' : SyncTrans} (h : Electing dbLocal t t') (h' : Electing dbLocal t' t'') :
    Electing dbLocal t t'' :=
  ⟨h'.add.trans h.add, h'.remove.trans h.remove, fun addr p hp => h'.sub addr p (h.sub addr p hp),
    fun addr p hp => (h'.of addr p hp).elim (h.of addr p) .inr⟩

lemma elected_iff : elected trans name = true ↔
    (∃ p ∈ trans.remove, p.name = name) ∨ ∃ s ∈ trans.add, ∃ p ∈ trans.removes s.addr, p.name = name := by
  rw [elected, Bool.or_eq_true, isSome_pkgFind, List.any_eq_true]
  simp only [isSome_pkgFind]

lemma elected_mono {dbLocal : List Pkg} (h : elected trans name = true) (helect : Electing dbLocal trans trans') :
    elected trans' name = true := by
  obtain ⟨hadd, hremove, hremoves, -⟩ := helect
  rw [elected_iff] at h ⊢
  rw [hadd, hremove]
  exact h.imp_right fun ⟨s, hs, p, hp, hname⟩ => ⟨s, hs, p, hremoves _ p hp, hname⟩

/-- The packages of a conflict are found, and the installed one is removed. -/
lemma ending_resolveOuter (h1 : ∃ p ∈ trans.add, p.name = conflict.package1)
    (h2 : ∃ q ∈ handle.dbLocal, q.name = conflict.package2) :
    Ending (fun t => Electing handle.dbLocal trans t ∧ elected t conflict.package2 = true)
      (resolveOuter handle trans conflict) := by
  unfold resolveOuter
  split
  next hin => exact .pure ⟨.refl _ _, hin⟩
  split
  · obtain ⟨sync, hsync⟩ := Option.isSome_iff_exists.1 (isSome_pkgFind.2 h1)
    obtain ⟨pkg, hpkg⟩ := Option.isSome_iff_exists.1 (isSome_pkgFind.2 h2)
    rw [hsync, hpkg]
    refine .pure ⟨⟨rfl, rfl, fun addr p hp => ?_, fun addr p hp => ?_⟩,
      elected_iff.2 (.inr ⟨sync, (of_pkgFind hsync).1, pkg, ?_, (of_pkgFind hpkg).2⟩)⟩
    · by_cases haddr : addr = sync.addr
      · subst haddr
        simp [hp]
      · simpa [haddr] using hp
    · by_cases haddr : addr = sync.addr
      · subst haddr
        simp only at hp
        rw [Function.update_self, List.mem_append, List.mem_singleton] at hp
        refine hp.imp_right ?_
        rintro rfl
        exact (of_pkgFind hpkg).1
      · simp only at hp
        rw [Function.update_of_ne haddr] at hp
        exact .inl hp
    · simp
  · exact .throw _

lemma ending_outerconflicts (hdb : (handle.dbLocal.map Pkg.name).Nodup) :
    Ending (fun t => Electing handle.dbLocal trans t ∧ ∀ p ∈ trans.add, ∀ q ∈ handle.dbLocal, (∀ r ∈ trans.add, r.name ≠ q.name) →
        p.ConflictsWith q ∨ q.ConflictsWith p → elected t q.name = true)
      ((outerconflicts handle.dbLocal trans.add).foldlM (resolveOuter handle) trans) := by
  have hloop := Ending.foldlM (R := Electing handle.dbLocal) (P := fun c t => elected t c.package2 = true)
    (Electing.refl _) (fun _ _ _ => .comp) (fun _ _ _ => elected_mono) (outerconflicts handle.dbLocal trans.add) trans
    fun t ht c hc => by
      obtain ⟨p, hp, q, hq, -, -, hname1, hname2⟩ := (reported_outerconflicts hdb).1 ⟨c, hc, rfl, rfl⟩
      exact ending_resolveOuter ⟨p, ht.1 ▸ hp, hname1⟩ ⟨q, hq, hname2⟩
  refine hloop.mono fun t ⟨helect, hall⟩ => ⟨helect, fun p hp q hq hnew hconf => ?_⟩
  obtain ⟨c, hc, -, hname⟩ := (reported_outerconflicts hdb).2 ⟨p, hp, q, hq, hnew, hconf, rfl, rfl⟩
  exact hname ▸ hall c hc

/-- What a stage of the preparation keeps: no name is twice among the targets or the packages to remove, the former are
offered, and the latter are installed. -/
structure Follows (handle : SyncHandle) (add : List Pkg) (t t' : SyncTrans) : Prop where
  names : (t.add.map Pkg.name).Nodup → (t'.add.map Pkg.name).Nodup
  offers : (∀ p ∈ t.add, handle.Offers add p) → ∀ p ∈ t'.add, handle.Offers add p
  removal : (t.remove.map Pkg.name).Nodup → (t'.remove.map Pkg.name).Nodup
  installed : (∀ p ∈ t.remove, p ∈ handle.dbLocal) → (∀ addr, ∀ p ∈ t.removes addr, p ∈ handle.dbLocal) →
    (∀ p ∈ t'.remove, p ∈ handle.dbLocal) ∧ ∀ addr, ∀ p ∈ t'.removes addr, p ∈ handle.dbLocal

lemma Follows.comp {t t' t'' : SyncTrans} (h : Follows handle add t t') (h' : Follows handle add t' t'') :
    Follows handle add t t'' :=
  ⟨h'.names ∘ h.names, h'.offers ∘ h.offers, h'.removal ∘ h.removal, fun hremove hremoves =>
    h'.installed (h.installed hremove hremoves).1 (h.installed hremove hremoves).2⟩

lemma Fewer.follows {t t' : SyncTrans} (handle : SyncHandle) (add : List Pkg) (h : Fewer t t') : Follows handle add t t' := by
  obtain ⟨hsub, hremove, hremoves⟩ := h
  refine ⟨fun hnames => hnames.sublist (hsub.map _), fun h p hp => h p (hsub.mem hp), fun h => ?_, fun h h' => ?_⟩
  · rwa [hremove]
  · rw [hremove, hremoves]
    exact ⟨h, h'⟩

lemma Electing.follows {t t' : SyncTrans} (add : List Pkg) (h : Electing handle.dbLocal t t') : Follows handle add t t' := by
  refine ⟨fun hnames => ?_, fun hoffers => ?_, fun hnames => ?_, fun hremove hremoves => ⟨?_, fun addr p hp => ?_⟩⟩
  · rwa [h.add]
  · rwa [h.add]
  · rwa [h.remove]
  · rwa [h.remove]
  · exact (h.of addr p hp).elim (hremoves addr p) id

/-- What conflicts with the targets is elected for removal, or was to be removed anyway. -/
def Settled (dbLocal : List Pkg) (t : SyncTrans) : Prop :=
  ConflictFree t.add ∧ ∀ p ∈ t.add, ∀ q ∈ dbLocal, (∀ r ∈ t.add, r.name ≠ q.name) →
    p.ConflictsWith q ∨ q.ConflictsWith p → elected t q.name = true

lemma ending_resolveConflicts (add : List Pkg) (hdb : (handle.dbLocal.map Pkg.name).Nodup)
    (hnames : (trans.add.map Pkg.name).Nodup) :
    Ending (fun t => Follows handle add trans t ∧ Settled handle.dbLocal t) (resolveConflicts handle trans) := by
  refine (ending_innerconflicts hnames).bind fun t ⟨hfew, hfree⟩ => ?_
  refine (ending_outerconflicts hdb).mono fun t' ⟨helect, hsettled⟩ => ?_
  refine ⟨(hfew.follows handle add).comp (helect.follows add), ?_⟩
  unfold Settled
  rw [helect.add]
  exact ⟨hfree, hsettled⟩

end Conflicts

/-! ### The whole preparation -/

section Prepare

/-- The list of packages to remove grows, by packages of `more`. -/
structure Removing (more : List Pkg) (t t' : SyncTrans) : Prop where
  add : t'.add = t.add
  removes : t'.removes = t.removes
  sub : ∀ p ∈ t.remove, p ∈ t'.remove
  of : ∀ p ∈ t'.remove, p ∈ t.remove ∨ p ∈ more
  names : (t.remove.map Pkg.name).Nodup → (t'.remove.map Pkg.name).Nodup

lemma Removing.refl (more : List Pkg) (t : SyncTrans) : Removing more t t :=
  ⟨rfl, rfl, fun _ => id, fun _ => .inl, id⟩

lemma Removing.comp {more : List Pkg} {t t' t'' : SyncTrans} (h : Removing more t t') (h' : Removing more t' t'') :
    Removing more t t'' :=
  ⟨h'.add.trans h.add, h'.removes.trans h.removes, fun p hp => h'.sub p (h.sub p hp),
    fun p hp => (h'.of p hp).elim (h.of p) .inr, h'.names ∘ h.names⟩

lemma ending_addRemoved {more : List Pkg} (hmore : p ∈ more) (handle : SyncHandle) (trans : SyncTrans) :
    Ending (fun t => Removing more trans t ∧ ∃ q ∈ t.remove, q.name = p.name) (addRemoved handle trans p) := by
  unfold addRemoved
  split
  next hin => exact .pure ⟨.refl _ _, isSome_pkgFind.1 hin⟩
  next hnot =>
  split
  · refine .pure ⟨⟨rfl, rfl, fun _ hp => List.mem_append_left _ hp, fun q hq => ?_, fun hnames => ?_⟩, p,
      List.mem_append_right _ List.mem_cons_self, rfl⟩
    · refine (List.mem_append.1 hq).imp_right fun hq => ?_
      rwa [List.mem_singleton.1 hq]
    · exact nodup_names_concat hnames fun q hq hname => hnot (isSome_pkgFind.2 ⟨q, hq, hname⟩)
  · exact .throw _

/-- In the end all that is elected is in the list. -/
lemma ending_removeList (handle : SyncHandle) (trans : SyncTrans) :
    Ending (fun t => Removing trans.replaced trans t ∧ ∀ name, elected trans name = true → ∃ q ∈ t.remove, q.name = name)
      (trans.replaced.foldlM (addRemoved handle) trans) := by
  have hloop := Ending.foldlM (R := Removing trans.replaced) (P := fun r t => ∃ q ∈ t.remove, q.name = r.name)
    (Removing.refl _) (fun _ _ _ => .comp) (fun _ _ _ ⟨q, hq, hname⟩ h => ⟨q, h.sub q hq, hname⟩) trans.replaced trans
    fun t _ r hr => ending_addRemoved hr handle t
  refine hloop.mono fun t ⟨hremoving, hall⟩ => ⟨hremoving, fun name helected => ?_⟩
  rcases elected_iff.1 helected with ⟨p, hp, hname⟩ | ⟨s, hs, p, hp, rfl⟩
  · exact ⟨p, hremoving.sub p hp, hname⟩
  · exact hall p (List.mem_flatMap.2 ⟨s, hs, hp⟩)

lemma Removing.follows {t t' : SyncTrans} (handle : SyncHandle) (add : List Pkg) (h : Removing t.replaced t t') :
    Follows handle add t t' := by
  refine ⟨fun hnames => ?_, fun hoffers => ?_, h.names, fun hremove hremoves => ⟨fun p hp => ?_, ?_⟩⟩
  · rwa [h.add]
  · rwa [h.add]
  · rcases h.of p hp with hp | hp
    · exact hremove p hp
    · obtain ⟨s, -, hp⟩ := List.mem_flatMap.1 hp
      exact hremoves _ p hp
  · rwa [h.removes]

lemma nodup_afterwards {db rem upgrade : List Pkg} (hdb : (db.map Pkg.name).Nodup)
    (hupgrade : (upgrade.map Pkg.name).Nodup) : ((afterwards db rem upgrade).map Pkg.name).Nodup := by
  refine nodup_names_append (hdb.sublist (List.filter_sublist.map _)) hupgrade fun p hp q hq heq => ?_
  have huntouched := (List.mem_filter.1 hp).2
  rw [Bool.not_eq_true', ← Bool.not_eq_true, touched_iff] at huntouched
  exact huntouched ⟨q, List.mem_append_right _ hq, heq.symm⟩

/-- What a preparation ends with, that which its stages keep and the database to come. -/
lemma syncPrepare_spec (flags : SyncFlags) (hdb : (handle.dbLocal.map Pkg.name).Nodup)
    (hconsistent : handle.Consistent handle.dbLocal) (hfree : ConflictFree handle.dbLocal)
    (hnames : (trans.add.map Pkg.name).Nodup) :
    Ending (fun t => Follows handle trans.add trans t ∧
        (flags.nodeps = false → handle.Consistent (afterwards handle.dbLocal t.remove t.add)) ∧
        (flags.noconflicts = false → ConflictFree (afterwards handle.dbLocal t.remove t.add)))
      (syncPrepare handle flags trans) := by
  have hrefl : ∀ t, Follows handle trans.add t t := fun t => ⟨id, id, id, .intro⟩
  unfold syncPrepare
  refine (ending_checkDatabases handle trans.add).bind fun _ _ => ?_
  have hdeps : Ending (Follows handle trans.add trans) (withDeps handle flags trans) := by
    unfold withDeps
    split
    · exact .pure (hrefl trans)
    · refine (ending_resolveTargets handle trans).mono fun t ⟨hnames, hoffers, hremove, hremoves⟩ => ?_
      refine ⟨fun _ => hnames, fun _ => hoffers, fun h => ?_, fun h h' => ?_⟩
      · rwa [hremove]
      · rw [hremove, hremoves]
        exact ⟨h, h'⟩
  refine hdeps.bind fun t hresolved => ?_
  have hconfs : Ending (fun t' => Follows handle trans.add t t' ∧ (flags.noconflicts = false → Settled handle.dbLocal t'))
      (withoutConflicts handle flags t) := by
    unfold withoutConflicts
    split
    next hskip => exact .pure ⟨hrefl t, fun h => by rw [hskip] at h; cases h⟩
    next => exact (ending_resolveConflicts trans.add hdb (hresolved.names hnames)).mono fun t h => ⟨h.1, fun _ => h.2⟩
  refine hconfs.bind fun t' ⟨hkept, hsettled⟩ => ?_
  refine (ending_removeList handle t').bind fun u ⟨hremoving, hremove⟩ => ?_
  have hfollows := (hresolved.comp hkept).comp (hremoving.follows handle trans.add)
  have hconflicts : flags.noconflicts = false → ConflictFree (afterwards handle.dbLocal u.remove u.add) := by
    intro hcheck
    obtain ⟨hinner, houter⟩ := hsettled hcheck
    rw [hremoving.add, conflictFree_afterwards_iff hfree]
    refine ⟨hinner, fun p hp q hq hrem hnew => not_or.1 fun hconf => ?_⟩
    obtain ⟨r, hr, hname⟩ := hremove q.name (houter p hp q hq hnew hconf)
    exact hrem r hr hname
  unfold checkDeps
  split
  next hskip => exact .pure ⟨hfollows, fun h => (by rw [hskip] at h; cases h), hconflicts⟩
  next =>
    simp only
    split
    next hnil => exact .pure ⟨hfollows, fun _ => consistent_of_checkdeps hconsistent (List.isEmpty_iff.1 hnil), hconflicts⟩
    next => exact .throw _

/-- The repository, for a system with a package that conflicts with the target. -/
def counter : SyncHandle where
  toResolver := { shop with dbLocal := [rival] }
  fromSync _ := true
  skipUnresolvable _ := false
  removeConflicting _ := true
  pkgDup _ := true

end Prepare

end Two09.Alpm
