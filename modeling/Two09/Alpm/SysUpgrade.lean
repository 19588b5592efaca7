import Two09.Alpm.SyncPrepare

/-!
# Upgrading the system

`alpm_sync_sysupgrade`: for every installed package the repositories are looked through, in their order, for packages
that replace it or else for one of its name, and what is newer becomes a target.
-/

namespace Two09.Alpm

open Lib

/-- `ALPM_DB_USAGE_UPGRADE` -/
def usageUpgrade : UInt32 := 8

def Database.upgrades (db : Database) : Bool := db.usage &&& usageUpgrade ≠ 0

/-- `tpkg->origin_data.db` is the database. -/
def Database.holds (db : Database) (pkg : Pkg) : Bool := db.pkgcache.any fun p => p.addr = pkg.addr

/-- What an upgrade asks for besides: whether one package shall be replaced by another one. -/
structure UpgradeHandle extends SyncHandle where
  replacePkg : Pkg → Pkg → Bool

/-- One of the two is to be ignored. -/
def UpgradeHandle.ignoring (handle : UpgradeHandle) (lpkg spkg : Pkg) : Bool :=
  handle.shouldIgnore spkg || handle.shouldIgnore lpkg

/-- `check_literal` -/
def checkLiteral (handle : UpgradeHandle) (enableDowngrade : Bool) (lpkg spkg : Pkg) : Bool :=
  match compareEVR spkg.version lpkg.version with
  | .gt => !handle.ignoring lpkg spkg
  | .lt => enableDowngrade && !handle.ignoring lpkg spkg
  | .eq => false

/-- A package of a database replaces an installed one, and may do so. -/
def replaces (handle : UpgradeHandle) (lpkg spkg : Pkg) : Bool :=
  spkg.replaces.any (depcmpLiteral lpkg) && !handle.ignoring lpkg spkg && handle.replacePkg lpkg spkg

/-- A target takes the place of one more installed package. -/
def appendReplaced (trans : SyncTrans) (tpkg lpkg : Pkg) : SyncTrans :=
  { trans with
    add := trans.add.map fun p => if p.addr = tpkg.addr ∧ lpkg.explicit then { p with explicit := true } else p
    removes := Function.update trans.removes tpkg.addr (trans.removes tpkg.addr ++ [lpkg]) }

/-- One turn of the loop of `check_replacers`; with the replacers so far. -/
def checkReplacer (handle : UpgradeHandle) (lpkg : Pkg) (sdb : Database) (s : SyncTrans × List Pkg) (spkg : Pkg) :
    SyncTrans × List Pkg :=
  if replaces handle lpkg spkg then
    match pkgFind s.1.add spkg.name with
    | some tpkg => if sdb.holds tpkg then (appendReplaced s.1 tpkg lpkg, s.2) else s
    | none =>
      ({ s.1 with removes := Function.update s.1.removes spkg.addr [lpkg] },
        s.2 ++ [{ spkg with explicit := lpkg.explicit }])
  else s

/-- `check_replacers` -/
def checkReplacers (handle : UpgradeHandle) (lpkg : Pkg) (sdb : Database) (trans : SyncTrans) : SyncTrans × List Pkg :=
  sdb.pkgcache.foldl (checkReplacer handle lpkg sdb) (trans, [])

/-- The inner loop of `alpm_sync_sysupgrade`, over the databases. -/
def upgradeFrom (handle : UpgradeHandle) (enableDowngrade : Bool) (lpkg : Pkg) : List Database → SyncTrans → SyncTrans
  | [], t => t
  | sdb :: j, t =>
    if !sdb.upgrades then upgradeFrom handle enableDowngrade lpkg j t
    else
      let r := checkReplacers handle lpkg sdb t
      if !r.2.isEmpty then { r.1 with add := r.1.add ++ r.2 }
      else
        match pkgFind sdb.pkgcache lpkg.name with
        | none => upgradeFrom handle enableDowngrade lpkg j r.1
        | some spkg =>
          if checkLiteral handle enableDowngrade lpkg spkg then { r.1 with add := r.1.add ++ [spkg] } else r.1

/-- One turn of the loop over the installed packages. -/
def upgradePkg (handle : UpgradeHandle) (enableDowngrade : Bool) (trans : SyncTrans) (lpkg : Pkg) : SyncTrans :=
  if (pkgFind trans.remove lpkg.name).isSome then trans
  else if (pkgFind trans.add lpkg.name).isSome then trans
  else upgradeFrom handle enableDowngrade lpkg handle.dbsSync trans

/-- `alpm_sync_sysupgrade` -/
def syncSysupgrade (handle : UpgradeHandle) (enableDowngrade : Bool) (trans : SyncTrans) : SyncTrans :=
  handle.dbLocal.foldl (upgradePkg handle enableDowngrade) trans

/-- The package that decides on an upgrade: that of the first database for upgrades which has one of the name. -/
def newVersion : List Database → Bytes → Option Pkg
  | [], _ => none
  | sdb :: j, name =>
    if sdb.upgrades then (pkgFind sdb.pkgcache name).or (newVersion j name) else newVersion j name

variable {handle : UpgradeHandle} {enableDowngrade : Bool} {trans t t' : SyncTrans} {lpkg spkg tpkg p q : Pkg}
  {sdb : Database} {dbs : List Database} {s s' : SyncTrans × List Pkg}

/-- The packages of the databases for upgrades: an address is that of one name, and a database has a name once. -/
structure Catalogued (naming : ℕ → Bytes) (dbs : List Database) : Prop where
  named : ∀ sdb ∈ dbs, ∀ p ∈ sdb.pkgcache, naming p.addr = p.name
  nodup : ∀ sdb ∈ dbs, (sdb.pkgcache.map Pkg.name).Nodup

/-! ### The packages that replace another one -/

section Replacers

variable {naming : ℕ → Bytes} {done : List Pkg}

/-- After the packages `done` of the database have been looked at. -/
structure Replacing (handle : UpgradeHandle) (lpkg : Pkg) (sdb : Database) (t : SyncTrans) (done : List Pkg)
    (s : SyncTrans × List Pkg) : Prop where
  remove : s.1.remove = t.remove
  add : List.Forall₂ InstalledAs t.add s.1.add
  keeps : ∀ p ∈ t.add, ∀ l ∈ t.removes p.addr, l ∈ s.1.removes p.addr
  removes : ∀ addr, ∀ l ∈ s.1.removes addr, l ∈ t.removes addr ∨
    l = lpkg ∧ ∃ q ∈ sdb.pkgcache, q.addr = addr ∧ replaces handle lpkg q = true
  names : (s.2.map Pkg.name).Sublist (done.map Pkg.name)
  fresh : ∀ p ∈ s.2, ∀ q ∈ t.add, q.name ≠ p.name
  replacers : ∀ p ∈ s.2, lpkg ∈ s.1.removes p.addr ∧ ∃ q ∈ sdb.pkgcache, InstalledAs q p ∧ replaces handle lpkg q = true

lemma mem_update {removes : ℕ → List Pkg} {addr addr' : ℕ} {l : Pkg} {new : List Pkg}
    (hnew : ∀ l ∈ removes addr', l ∈ new) (hl : l ∈ removes addr) :
    l ∈ Function.update removes addr' new addr := by
  by_cases haddr : addr = addr'
  · subst haddr
    rw [Function.update_self]
    exact hnew l hl
  · rwa [Function.update_of_ne haddr]

lemma Replacing.step (h : Replacing handle lpkg sdb t done s) (hdb : sdb ∈ dbs) (hcat : Catalogued naming dbs)
    (ht : ∀ p ∈ t.add, naming p.addr = p.name) (hspkg : spkg ∈ sdb.pkgcache) :
    Replacing handle lpkg sdb t (done ++ [spkg]) (checkReplacer handle lpkg sdb s spkg) := by
  have hnames : (s.2.map Pkg.name).Sublist ((done ++ [spkg]).map Pkg.name) := by
    rw [List.map_append]
    exact h.names.trans (List.sublist_append_left _ _)
  unfold checkReplacer
  split
  next hreplaces =>
    split
    next tpkg hfind =>
      obtain ⟨htpkg, htname⟩ := of_pkgFind hfind
      split
      next hholds =>
        obtain ⟨q, hq, hqaddr⟩ := List.any_eq_true.1 hholds
        obtain ⟨p, hp, (hinst : InstalledAs p tpkg)⟩ := exists_of_forall₂ h.add.flip htpkg
        have hqname : q.name = spkg.name := by
          rw [← hcat.named sdb hdb q hq, of_decide_eq_true hqaddr, hinst.addr, ht p hp, ← hinst.name, htname]
        obtain rfl := List.inj_on_of_nodup_map (hcat.nodup sdb hdb) hq hspkg hqname
        refine ⟨h.remove, ?_, fun p hp l hl => ?_, fun addr l hl => ?_, hnames, h.fresh, fun p hp => ?_⟩
        · refine List.forall₂_map_right_iff.2 (h.add.imp fun p p' hp => ?_)
          split
          · exact hp.trans ⟨true, rfl⟩
          · exact hp
        · exact mem_update (fun _ => List.mem_append_left _) (h.keeps p hp l hl)
        · by_cases haddr : addr = tpkg.addr
          · subst haddr
            simp only [appendReplaced] at hl
            rw [Function.update_self, List.mem_append, List.mem_singleton] at hl
            rcases hl with hl | rfl
            · exact h.removes _ l hl
            · exact .inr ⟨rfl, q, hq, of_decide_eq_true hqaddr, hreplaces⟩
          · simp only [appendReplaced] at hl
            rw [Function.update_of_ne haddr] at hl
            exact h.removes addr l hl
        · exact (h.replacers p hp).imp_left (mem_update fun _ => List.mem_append_left _)
      next => exact ⟨h.remove, h.add, h.keeps, h.removes, hnames, h.fresh, h.replacers⟩
    next hnone =>
      have hfresh : ∀ q ∈ t.add, q.name ≠ spkg.name := by
        intro q hq hname
        have hmem : q.name ∈ s.1.add.map Pkg.name := by
          rw [map_name_of_installedAs h.add]
          exact List.mem_map_of_mem hq
        obtain ⟨p, hp, heq⟩ := List.mem_map.1 hmem
        have hsome := isSome_pkgFind.2 ⟨p, hp, heq.trans hname⟩
        rw [hnone] at hsome
        cases hsome
      refine ⟨h.remove, h.add, fun p hp l hl => ?_, fun addr l hl => ?_, ?_, fun p hp => ?_, fun p hp => ?_⟩
      · have haddr : p.addr ≠ spkg.addr := fun heq =>
          hfresh p hp (by rw [← ht p hp, heq, hcat.named sdb hdb spkg hspkg])
        simp only
        rw [Function.update_of_ne haddr]
        exact h.keeps p hp l hl
      · by_cases haddr : addr = spkg.addr
        · subst haddr
          simp only at hl
          rw [Function.update_self, List.mem_singleton] at hl
          exact .inr ⟨hl, spkg, hspkg, rfl, hreplaces⟩
        · simp only at hl
          rw [Function.update_of_ne haddr] at hl
          exact h.removes addr l hl
      · rw [List.map_append, List.map_append]
        exact h.names.append (.refl _)
      · rcases List.mem_append.1 hp with hp | hp
        · exact h.fresh p hp
        · rw [List.mem_singleton.1 hp]
          exact hfresh
      · simp only
        rcases List.mem_append.1 hp with hp | hp
        · obtain ⟨hmem, hrep⟩ := h.replacers p hp
          refine ⟨?_, hrep⟩
          by_cases haddr : p.addr = spkg.addr
          · rw [haddr, Function.update_self]
            exact List.mem_cons_self
          · rwa [Function.update_of_ne haddr]
        · rw [List.mem_singleton.1 hp]
          refine ⟨?_, spkg, hspkg, ⟨lpkg.explicit, rfl⟩, hreplaces⟩
          rw [Function.update_self]
          exact List.mem_cons_self
  next => exact ⟨h.remove, h.add, h.keeps, h.removes, hnames, h.fresh, h.replacers⟩

lemma checkReplacers_spec (handle : UpgradeHandle) (lpkg : Pkg) (hdb : sdb ∈ dbs) (hcat : Catalogued naming dbs)
    (ht : ∀ p ∈ t.add, naming p.addr = p.name) :
    Replacing handle lpkg sdb t sdb.pkgcache (checkReplacers handle lpkg sdb t) := by
  have hloop : ∀ todo done s, (∀ p ∈ todo, p ∈ sdb.pkgcache) → Replacing handle lpkg sdb t done s →
      Replacing handle lpkg sdb t (done ++ todo) (todo.foldl (checkReplacer handle lpkg sdb) s) := by
    intro todo
    induction todo with
    | nil =>
      intro done s _ h
      rwa [List.append_nil]
    | cons spkg todo ih =>
      intro done s hmem h
      rw [List.append_cons, List.foldl_cons]
      exact ih _ _ (fun p hp => hmem p (List.mem_cons_of_mem _ hp)) (h.step hdb hcat ht (hmem _ List.mem_cons_self))
  refine hloop sdb.pkgcache [] (t, []) (fun _ => id) ⟨rfl, ?_, fun _ _ _ => id, fun _ _ => .inl, .refl _, ?_, ?_⟩
  · exact List.forall₂_same.2 fun p _ => .refl p
  · exact fun p hp => absurd hp List.not_mem_nil
  · exact fun p hp => absurd hp List.not_mem_nil

end Replacers

/-! ### The targets of an upgrade -/

/-- A package that is upgraded to: it is of a database for upgrades, and either the version to take of an installed one
or the replacement of one that is removed for it. -/
def CalledFor (handle : UpgradeHandle) (enableDowngrade : Bool) (t : SyncTrans) (p : Pkg) : Prop :=
  ∃ q, (∃ sdb ∈ handle.dbsSync, sdb.upgrades = true ∧ q ∈ sdb.pkgcache) ∧ InstalledAs q p ∧
    ((∃ l ∈ handle.dbLocal, l.name = q.name ∧ checkLiteral handle enableDowngrade l q = true) ∨
      ∃ l ∈ t.removes p.addr, replaces handle l q = true)

/-- The installed package is upgraded, or replaced. -/
def Served (t : SyncTrans) (lpkg : Pkg) : Prop :=
  ∃ p ∈ t.add, p.name = lpkg.name ∨ lpkg ∈ t.removes p.addr

/-- What the loop does to a transaction. -/
structure Upgrading (handle : UpgradeHandle) (enableDowngrade : Bool) (t t' : SyncTrans) : Prop where
  remove : t'.remove = t.remove
  keeps : ∀ p ∈ t.add, ∃ p' ∈ t'.add, InstalledAs p p'
  replaced : ∀ p ∈ t.add, ∀ l ∈ t.removes p.addr, l ∈ t'.removes p.addr
  names : (t.add.map Pkg.name).Nodup → (t'.add.map Pkg.name).Nodup
  added : ∀ p' ∈ t'.add, (∃ p ∈ t.add, InstalledAs p p') ∨ CalledFor handle enableDowngrade t' p'
  removes : ∀ addr, ∀ l ∈ t'.removes addr, l ∈ t.removes addr ∨ l ∈ handle.dbLocal

section Targets

variable {naming : ℕ → Bytes} {t'' : SyncTrans}

lemma Upgrading.refl (handle : UpgradeHandle) (enableDowngrade : Bool) (t : SyncTrans) :
    Upgrading handle enableDowngrade t t :=
  ⟨rfl, fun p hp => ⟨p, hp, .refl p⟩, fun _ _ _ => id, id, fun p hp => .inl ⟨p, hp, .refl p⟩, fun _ _ => .inl⟩

lemma Upgrading.comp (h : Upgrading handle enableDowngrade t t') (h' : Upgrading handle enableDowngrade t' t'') :
    Upgrading handle enableDowngrade t t'' := by
  refine ⟨h'.remove.trans h.remove, fun p hp => ?_, fun p hp l hl => ?_, h'.names ∘ h.names, fun p'' hp'' => ?_,
    fun addr l hl => (h'.removes addr l hl).elim (h.removes addr l) .inr⟩
  · obtain ⟨p', hp', hinst⟩ := h.keeps p hp
    obtain ⟨p'', hp'', hinst'⟩ := h'.keeps p' hp'
    exact ⟨p'', hp'', hinst.trans hinst'⟩
  · obtain ⟨p', hp', hinst⟩ := h.keeps p hp
    rw [← hinst.addr]
    refine h'.replaced p' hp' l ?_
    rw [hinst.addr]
    exact h.replaced p hp l hl
  · rcases h'.added p'' hp'' with ⟨p', hp', hinst⟩ | hcalled
    · rcases h.added p' hp' with ⟨p, hp, hinst'⟩ | ⟨q, hq, hinst', hwhy⟩
      · exact .inl ⟨p, hp, hinst'.trans hinst⟩
      · refine .inr ⟨q, hq, hinst'.trans hinst, hwhy.imp_right ?_⟩
        rintro ⟨l, hl, hrep⟩
        rw [hinst.addr]
        exact ⟨l, h'.replaced p' hp' l hl, hrep⟩
    · exact .inr hcalled

lemma Upgrading.served (h : Upgrading handle enableDowngrade t t') (hserved : Served t lpkg) : Served t' lpkg := by
  obtain ⟨p, hp, hwhy⟩ := hserved
  obtain ⟨p', hp', hinst⟩ := h.keeps p hp
  rw [← hinst.name, ← hinst.addr] at hwhy
  refine ⟨p', hp', hwhy.imp_right fun hl => ?_⟩
  rw [hinst.addr] at hl ⊢
  exact h.replaced p hp lpkg hl

/-- Addresses stay those of their names. -/
lemma Upgrading.named (h : Upgrading handle enableDowngrade t t') (hcat : Catalogued naming handle.dbsSync)
    (ht : ∀ p ∈ t.add, naming p.addr = p.name) : ∀ p ∈ t'.add, naming p.addr = p.name := by
  intro p' hp'
  rcases h.added p' hp' with ⟨p, hp, hinst⟩ | ⟨q, ⟨sdb, hsdb, -, hq⟩, hinst, -⟩
  · rw [hinst.addr, hinst.name]
    exact ht p hp
  · rw [hinst.addr, hinst.name]
    exact hcat.named sdb hsdb q hq

/-- After the packages that replace another one come further targets. -/
lemma Replacing.upgrading {done : List Pkg} (h : Replacing handle lpkg sdb t done s) (enableDowngrade : Bool)
    (new : List Pkg) (hlpkg : lpkg ∈ handle.dbLocal)
    (hcalled : ∀ p ∈ new, CalledFor handle enableDowngrade { s.1 with add := s.1.add ++ new } p)
    (hnames : (new.map Pkg.name).Nodup) (hfresh : ∀ p ∈ new, ∀ q ∈ t.add, q.name ≠ p.name) :
    Upgrading handle enableDowngrade t { s.1 with add := s.1.add ++ new } := by
  refine ⟨h.remove, fun p hp => ?_, h.keeps, fun hnodup => ?_, fun p hp => ?_, fun addr l hl => ?_⟩
  · obtain ⟨p', hp', hinst⟩ := exists_of_forall₂ h.add hp
    exact ⟨p', List.mem_append_left _ hp', hinst⟩
  · rw [← map_name_of_installedAs h.add] at hnodup
    refine nodup_names_append hnodup hnames fun q' hq' p hp heq => ?_
    obtain ⟨q, hq, (hinst : InstalledAs q q')⟩ := exists_of_forall₂ h.add.flip hq'
    exact hfresh p hp q hq (hinst.name.symm.trans heq)
  · rcases List.mem_append.1 hp with hp | hp
    · exact .inl (exists_of_forall₂ h.add.flip hp)
    · exact .inr (hcalled p hp)
  · rcases h.removes addr l hl with hl | ⟨rfl, -⟩
    · exact .inl hl
    · exact .inr hlpkg

/-- One installed package: the transaction is upgraded, and the package served if there is something to take. -/
lemma upgradeFrom_spec (enableDowngrade : Bool) (hlpkg : lpkg ∈ handle.dbLocal)
    (hcat : Catalogued naming handle.dbsSync) (hsub : ∀ sdb ∈ dbs, sdb ∈ handle.dbsSync)
    (ht : ∀ p ∈ t.add, naming p.addr = p.name) (hnew : ∀ p ∈ t.add, p.name ≠ lpkg.name) :
    Upgrading handle enableDowngrade t (upgradeFrom handle enableDowngrade lpkg dbs t) ∧
      ∀ spkg, newVersion dbs lpkg.name = some spkg → checkLiteral handle enableDowngrade lpkg spkg = true →
        Served (upgradeFrom handle enableDowngrade lpkg dbs t) lpkg := by
  induction dbs generalizing t with
  | nil => exact ⟨.refl _ _ _, fun spkg h => by cases h⟩
  | cons sdb dbs ih =>
    have hsub' : ∀ sdb ∈ dbs, sdb ∈ handle.dbsSync := fun s hs => hsub s (List.mem_cons_of_mem _ hs)
    have hdb : sdb ∈ handle.dbsSync := hsub sdb List.mem_cons_self
    have h := checkReplacers_spec handle lpkg hdb hcat ht
    rw [upgradeFrom, newVersion]
    cases hup : sdb.upgrades with
    | false => exact ih hsub' ht hnew
    | true =>
    simp only [Bool.not_true, Bool.false_eq_true, if_false, if_true]
    cases hrep : (checkReplacers handle lpkg sdb t).2 with
    | cons p replacers =>
      simp only [List.isEmpty_cons, Bool.not_false, if_true]
      have hmem : p ∈ (checkReplacers handle lpkg sdb t).2 := hrep ▸ List.mem_cons_self
      rw [← hrep]
      refine ⟨h.upgrading enableDowngrade _ hlpkg (fun p hp => ?_) ((hcat.nodup sdb hdb).sublist h.names) h.fresh,
        fun _ _ _ => ?_⟩
      · obtain ⟨hl, q, hq, hinst, hreplaces⟩ := h.replacers p hp
        exact ⟨q, ⟨sdb, hdb, hup, hq⟩, hinst, .inr ⟨lpkg, hl, hreplaces⟩⟩
      · exact ⟨p, List.mem_append_right _ hmem, .inr (h.replacers p hmem).1⟩
    | nil =>
      simp only [List.isEmpty_nil, Bool.not_true, Bool.false_eq_true, if_false]
      have hfirst : Upgrading handle enableDowngrade t (checkReplacers handle lpkg sdb t).1 := by
        have hnone := h.upgrading enableDowngrade [] hlpkg
          (fun p hp => absurd hp List.not_mem_nil) List.nodup_nil fun p hp => absurd hp List.not_mem_nil
        rwa [List.append_nil] at hnone
      cases hfind : pkgFind sdb.pkgcache lpkg.name with
      | none =>
        have hnew' : ∀ p ∈ (checkReplacers handle lpkg sdb t).1.add, p.name ≠ lpkg.name := by
          intro p hp
          obtain ⟨q, hq, (hinst : InstalledAs q p)⟩ := exists_of_forall₂ h.add.flip hp
          rw [hinst.name]
          exact hnew q hq
        obtain ⟨hrest, hserved⟩ := ih hsub' (hfirst.named hcat ht) hnew'
        exact ⟨hfirst.comp hrest, fun spkg hspkg => hserved spkg (by simpa using hspkg)⟩
      | some spkg =>
        obtain ⟨hmem, hname⟩ := of_pkgFind hfind
        simp only
        split
        next hlit =>
          refine ⟨h.upgrading enableDowngrade _ hlpkg (fun p hp => ?_) (List.nodup_singleton _) fun p hp q hq => ?_,
            fun _ _ _ => ?_⟩
          · rw [List.mem_singleton.1 hp]
            exact ⟨spkg, ⟨sdb, hdb, hup, hmem⟩, .refl _, .inl ⟨lpkg, hlpkg, hname.symm, hlit⟩⟩
          · rw [List.mem_singleton.1 hp, hname]
            exact hnew q hq
          · exact ⟨spkg, List.mem_append_right _ List.mem_cons_self, .inl hname⟩
        next hlit =>
          refine ⟨hfirst, fun spkg' hspkg' hlit' => ?_⟩
          rw [Option.some_or, Option.some_inj] at hspkg'
          exact absurd (hspkg' ▸ hlit') hlit

lemma syncSysupgrade_spec (handle : UpgradeHandle) (enableDowngrade : Bool) (hcat : Catalogued naming handle.dbsSync)
    (ht : ∀ p ∈ trans.add, naming p.addr = p.name) :
    Upgrading handle enableDowngrade trans (syncSysupgrade handle enableDowngrade trans) ∧
      ∀ lpkg ∈ handle.dbLocal, (∀ r ∈ trans.remove, r.name ≠ lpkg.name) → ∀ spkg,
        newVersion handle.dbsSync lpkg.name = some spkg → checkLiteral handle enableDowngrade lpkg spkg = true →
        Served (syncSysupgrade handle enableDowngrade trans) lpkg := by
  have hloop : ∀ (pkgs : List Pkg) (t : SyncTrans), (∀ p ∈ pkgs, p ∈ handle.dbLocal) →
      (∀ p ∈ t.add, naming p.addr = p.name) →
      Upgrading handle enableDowngrade t (pkgs.foldl (upgradePkg handle enableDowngrade) t) ∧
        ∀ lpkg ∈ pkgs, (∀ r ∈ t.remove, r.name ≠ lpkg.name) → ∀ spkg,
          newVersion handle.dbsSync lpkg.name = some spkg → checkLiteral handle enableDowngrade lpkg spkg = true →
          Served (pkgs.foldl (upgradePkg handle enableDowngrade) t) lpkg := by
    intro pkgs
    induction pkgs with
    | nil => exact fun t _ _ => ⟨.refl _ _ t, fun lpkg hl => absurd hl List.not_mem_nil⟩
    | cons lpkg pkgs ih =>
      intro t hmem ht
      have hturn : Upgrading handle enableDowngrade t (upgradePkg handle enableDowngrade t lpkg) ∧
          ((∀ r ∈ t.remove, r.name ≠ lpkg.name) → ∀ spkg, newVersion handle.dbsSync lpkg.name = some spkg →
            checkLiteral handle enableDowngrade lpkg spkg = true →
            Served (upgradePkg handle enableDowngrade t lpkg) lpkg) := by
        unfold upgradePkg
        split
        next hremoved =>
          obtain ⟨r, hr, hname⟩ := isSome_pkgFind.1 hremoved
          exact ⟨.refl _ _ _, fun hnot => absurd hname (hnot r hr)⟩
        split
        next hthere =>
          obtain ⟨p, hp, hname⟩ := isSome_pkgFind.1 hthere
          exact ⟨.refl _ _ _, fun _ _ _ _ => ⟨p, hp, .inl hname⟩⟩
        next hnot =>
          obtain ⟨h, hserved⟩ := upgradeFrom_spec enableDowngrade (hmem lpkg List.mem_cons_self) hcat
            (fun _ => id) ht fun p hp hname => hnot (isSome_pkgFind.2 ⟨p, hp, hname⟩)
          exact ⟨h, fun _ => hserved⟩
      obtain ⟨h, hserved⟩ := ih (upgradePkg handle enableDowngrade t lpkg)
        (fun p hp => hmem p (List.mem_cons_of_mem _ hp)) (hturn.1.named hcat ht)
      rw [List.foldl_cons]
      refine ⟨hturn.1.comp h, fun l hl hnot spkg hspkg hlit => ?_⟩
      rcases List.mem_cons.1 hl with rfl | hl
      · exact h.served (hturn.2 hnot spkg hspkg hlit)
      · exact hserved l hl (fun r hr => hnot r (hturn.1.remove ▸ hr)) spkg hspkg hlit
  exact hloop handle.dbLocal trans (fun _ => id) ht

/-- **A system upgrade takes what there is to take, and nothing else.** Every target that comes is the version to take
of an installed package, or the replacement of one that is removed for it, and is there once; every installed package
that is not removed anyway, and of which the first database that has it has a version to take, is upgraded or
replaced. -/
theorem syncSysupgrade_exact (handle : UpgradeHandle) (enableDowngrade : Bool) (naming : ℕ → Bytes)
    (hcat : Catalogued naming handle.dbsSync)
    (ht : ∀ p ∈ trans.add, naming p.addr = p.name) (hnames : (trans.add.map Pkg.name).Nodup) :
    ((syncSysupgrade handle enableDowngrade trans).add.map Pkg.name).Nodup ∧
      (∀ p ∈ (syncSysupgrade handle enableDowngrade trans).add, (∃ q ∈ trans.add, InstalledAs q p) ∨
        CalledFor handle enableDowngrade (syncSysupgrade handle enableDowngrade trans) p) ∧
      ∀ lpkg ∈ handle.dbLocal, (∀ r ∈ trans.remove, r.name ≠ lpkg.name) → ∀ spkg,
        newVersion handle.dbsSync lpkg.name = some spkg → checkLiteral handle enableDowngrade lpkg spkg = true →
        Served (syncSysupgrade handle enableDowngrade trans) lpkg := by
  obtain ⟨h, hserved⟩ := syncSysupgrade_spec handle enableDowngrade hcat ht
  exact ⟨h.names hnames, h.added, hserved⟩

/-- A package of which the repository has a newer version, and one that it replaces. -/
def outdated : UpgradeHandle where
  toSyncHandle := { counter with
    dbLocal := [wOf [49], pkgOf [120] [] true]
    dbsSync := [⟨usageAll, false, false, [{ wOf [50] with addr := 5 }, { pkgOf [121] [] true with
      addr := 6
      replaces := [depOn [120]] }]⟩] }
  replacePkg _ _ := true

theorem syncSysupgrade_exact_outdated :
    ((syncSysupgrade outdated false ⟨[], [], [], fun _ => []⟩).add.map Pkg.name).Nodup ∧
      (∀ p ∈ (syncSysupgrade outdated false ⟨[], [], [], fun _ => []⟩).add, (∃ q ∈ [], InstalledAs q p) ∨
        CalledFor outdated false (syncSysupgrade outdated false ⟨[], [], [], fun _ => []⟩) p) ∧
      ∀ lpkg ∈ outdated.dbLocal, (∀ r ∈ [], Pkg.name r ≠ lpkg.name) → ∀ spkg,
        newVersion outdated.dbsSync lpkg.name = some spkg → checkLiteral outdated false lpkg spkg = true →
        Served (syncSysupgrade outdated false ⟨[], [], [], fun _ => []⟩) lpkg :=
  syncSysupgrade_exact outdated false (fun addr => if addr = 5 then [119] else [121])
    ⟨by decide +kernel, by decide +kernel⟩ (by decide +kernel) (by decide +kernel)

end Targets

end Two09.Alpm
