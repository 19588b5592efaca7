import Two09.Alpm.Remove

/-!
# Resolving dependencies

`_alpm_resolvedeps`: a package goes to the targets together with packages that satisfy what it depends on, and what
these depend on in their turn. It goes there alone, or not at all, when something cannot be satisfied.
-/

namespace Two09.Alpm

open Lib

/-- `ALPM_DB_USAGE_INSTALL | ALPM_DB_USAGE_UPGRADE` -/
def usageInstallUpgrade : UInt32 := 4 ||| 8

/-- `ALPM_DB_USAGE_ALL` -/
def usageAll : UInt32 := 15

/-- A database: its `usage`, two bits of its status, and its packages. -/
structure Database where
  usage : UInt32
  invalid : Bool
  missing : Bool
  pkgcache : List Pkg

/-- `db->usage & (ALPM_DB_USAGE_INSTALL|ALPM_DB_USAGE_UPGRADE)` -/
def Database.installs (db : Database) : Bool := db.usage &&& usageInstallUpgrade ≠ 0

/-- What packages are resolved with: the databases, the packages to ignore, and the answers of the user. -/
structure Resolver extends DepHandle where
  dbLocal : List Pkg
  dbsSync : List Database
  shouldIgnore : Pkg → Bool
  installIgnored : Pkg → Bool
  selectProvider : List Pkg → Depend → ℤ

/-- `handle->db_local` -/
def Resolver.localDb (handle : Resolver) : Database := ⟨usageAll, false, false, handle.dbLocal⟩

/-- A package that is passed over because it is ignored. -/
def Resolver.ignores (handle : Resolver) (prompt : Bool) (pkg : Pkg) : Bool :=
  handle.shouldIgnore pkg && !(prompt && handle.installIgnored pkg)

/-- A literal satisfier in one database. -/
def literalIn (handle : Resolver) (dep : Depend) (excluding : List Pkg) (prompt : Bool) (db : Database) : Option Pkg :=
  if !db.installs then none
  else
    (pkgFind db.pkgcache dep.name).filter fun pkg =>
      depcmpLiteral pkg dep && !(pkgFind excluding pkg.name).isSome && !handle.ignores prompt pkg

/-- The other satisfiers in the databases. -/
def providersIn (handle : Resolver) (dep : Depend) (dbs : List Database) (excluding : List Pkg) (prompt : Bool) :
    List Pkg :=
  (dbs.filter Database.installs).flatMap fun db => db.pkgcache.filter fun pkg =>
    decide (pkg.nameHash ≠ dep.nameHash ∨ pkg.name ≠ dep.name) && depcmpProvides dep pkg.provides &&
      !(pkgFind excluding pkg.name).isSome && !handle.ignores prompt pkg

/-- `resolvedep` -/
def resolvedep (handle : Resolver) (dep : Depend) (dbs : List Database) (excluding : List Pkg) (prompt : Bool) :
    Option Pkg :=
  match dbs.findSome? (literalIn handle dep excluding prompt) with
  | some pkg => some pkg
  | none =>
    let providers := providersIn handle dep dbs excluding prompt
    match providers.find? fun pkg => (pkgFind handle.dbLocal pkg.name).isSome with
    | some pkg => some pkg
    | none =>
      -- with one provider there is nothing to ask
      let index := if providers.length > 1 then handle.selectProvider providers dep else 0
      if 0 ≤ index ∧ index < providers.length then providers[index.toNat]? else none

/-- What `_alpm_resolvedeps` returns: whether it succeeded, the packages, and the dependencies that are missing. -/
structure Resolved where
  ok : Bool
  packages : List Pkg
  data : List DepMissing

/-- One turn of the loop of `_alpm_resolvedeps`, where `resolve` is the call of itself. -/
def resolveMiss (handle : Resolver) (preferred rem : List Pkg)
    (resolve : Pkg → List Pkg → List DepMissing → Option Resolved) (r : Resolved) (miss : DepMissing) :
    Option Resolved :=
  let missdep := miss.depend
  if (findDepSatisfier r.packages missdep).isSome then some r
  else
    let spkg := (findDepSatisfier preferred missdep).or (resolvedep handle missdep handle.dbsSync r.packages false)
    let called := match spkg with
      | none => some { r with ok := false }
      | some spkg => resolve spkg r.packages r.data
    called.map fun c =>
      if c.ok then { c with ok := r.ok }
      else if (resolvedep handle missdep [handle.localDb] rem false).isSome then { c with ok := r.ok }
      else { c with ok := false, data := c.data ++ [miss] }

/-- `_alpm_resolvedeps`; none when it does not end within so many calls inside each other. -/
def resolvedeps (handle : Resolver) (localpkgs preferred rem : List Pkg) :
    ℕ → Pkg → List Pkg → List DepMissing → Option Resolved
  | 0, _, _, _ => none
  | n + 1, pkg, packages, data =>
    if (pkgFind packages pkg.name).isSome then some ⟨true, packages, data⟩
    else
      let deps := alpmCheckdeps handle.toDepHandle localpkgs rem [pkg] false
      let loop := deps.foldlM
        (resolveMiss handle preferred rem (resolvedeps handle localpkgs preferred rem n))
        ⟨true, packages ++ [pkg], data⟩
      loop.map fun r => if r.ok then r else { r with packages := packages }

/-- The packages that may be resolved to. -/
def Resolver.pool (handle : Resolver) (preferred : List Pkg) : List Pkg :=
  preferred ++ handle.dbsSync.flatMap Database.pkgcache

/-- The packages that may still be added. -/
def Resolver.remaining (handle : Resolver) (preferred packages : List Pkg) : ℕ :=
  (without (handle.pool preferred) packages).length

/-- A dependency that is not satisfied by what is installed is met: by one of the packages, by a preferred package in
whose place there is one of the same name, or else by an installed package that is not removed. -/
def Resolver.MetBy (handle : Resolver) (preferred rem packages : List Pkg) (dep : Depend) : Prop :=
  (∃ q ∈ packages, depcmp q dep = true) ∨
  (∃ q ∈ preferred, depcmp q dep = true ∧ ∃ r ∈ packages, r.name = q.name) ∨
  ∃ q ∈ handle.dbLocal, depcmp q dep = true ∧ ∀ r ∈ rem, r.name ≠ q.name

/-- What a package depends on is there without further packages, or is met. -/
def Resolver.Provided (handle : Resolver) (localpkgs preferred rem packages : List Pkg) (p : Pkg) : Prop :=
  ∀ dep ∈ p.depends, handle.Satisfied (afterwards localpkgs rem [p]) dep ∨
    handle.MetBy preferred rem packages (handle.relax dep)

variable {handle : Resolver} {localpkgs preferred rem packages packages' excluding : List Pkg} {p q pkg : Pkg}
  {dep : Depend} {dbs : List Database} {prompt : Bool} {data : List DepMissing} {deps : List DepMissing} {r r' : Resolved}
  {miss : DepMissing} {n : ℕ}

/-! ### One dependency -/

section Find

lemma depcmp_of_literal (h : depcmpLiteral p dep = true) : depcmp p dep = true := by
  rw [depcmp, h, Bool.true_or]

lemma depcmp_of_provides (h : depcmpProvides dep p.provides = true) : depcmp p dep = true := by
  rw [depcmp, h, Bool.or_true]

lemma of_literalIn {db : Database} (h : literalIn handle dep excluding prompt db = some p) :
    p ∈ db.pkgcache ∧ depcmp p dep = true ∧ ∀ q ∈ excluding, q.name ≠ p.name := by
  unfold literalIn at h
  split at h
  · cases h
  · obtain ⟨hfind, hp⟩ := Option.filter_eq_some_iff.1 h
    rw [Bool.and_eq_true, Bool.and_eq_true, Bool.not_eq_true', ← Bool.not_eq_true, isSome_pkgFind] at hp
    exact ⟨(of_pkgFind hfind).1, depcmp_of_literal hp.1.1, fun q hq hname => hp.1.2 ⟨q, hq, hname⟩⟩

lemma of_providersIn (h : p ∈ providersIn handle dep dbs excluding prompt) :
    (∃ db ∈ dbs, p ∈ db.pkgcache) ∧ depcmp p dep = true ∧ ∀ q ∈ excluding, q.name ≠ p.name := by
  obtain ⟨db, hdb, hp⟩ := List.mem_flatMap.1 h
  obtain ⟨hmem, hp⟩ := List.mem_filter.1 hp
  rw [Bool.and_eq_true, Bool.and_eq_true, Bool.and_eq_true, Bool.not_eq_true', ← Bool.not_eq_true,
    isSome_pkgFind] at hp
  exact ⟨⟨db, (List.mem_filter.1 hdb).1, hmem⟩, depcmp_of_provides hp.1.1.2, fun q hq hname => hp.1.2 ⟨q, hq, hname⟩⟩

/-- What a dependency is resolved to satisfies it, and is not excluded. -/
lemma of_resolvedep (h : resolvedep handle dep dbs excluding prompt = some p) :
    (∃ db ∈ dbs, p ∈ db.pkgcache) ∧ depcmp p dep = true ∧ ∀ q ∈ excluding, q.name ≠ p.name := by
  unfold resolvedep at h
  split at h
  next pkg hfind =>
    cases h
    obtain ⟨db, hdb, hlit⟩ := List.exists_of_findSome?_eq_some hfind
    obtain ⟨hmem, hrest⟩ := of_literalIn hlit
    exact ⟨⟨db, hdb, hmem⟩, hrest⟩
  next =>
    simp only at h
    split at h
    next pkg hfind =>
      cases h
      exact of_providersIn (List.mem_of_find?_eq_some hfind)
    next =>
      rw [Option.ite_none_right_eq_some] at h
      exact of_providersIn (List.mem_of_getElem? h.2)

end Find

/-! ### The loop -/

section Loop

lemma Resolver.MetBy.mono (h : handle.MetBy preferred rem packages dep) (hsub : ∀ q ∈ packages, q ∈ packages') :
    handle.MetBy preferred rem packages' dep := by
  rcases h with ⟨q, hq, hsat⟩ | ⟨q, hq, hsat, r, hr, hname⟩ | hlocal
  · exact .inl ⟨q, hsub q hq, hsat⟩
  · exact .inr (.inl ⟨q, hq, hsat, r, hsub r hr, hname⟩)
  · exact .inr (.inr hlocal)

lemma Resolver.Provided.mono (h : handle.Provided localpkgs preferred rem packages p)
    (hsub : ∀ q ∈ packages, q ∈ packages') : handle.Provided localpkgs preferred rem packages' p :=
  fun dep hdep => (h dep hdep).imp_right fun hmet => hmet.mono hsub

/-- Packages are added whose dependencies are provided, none of them twice. -/
structure Grown (handle : Resolver) (localpkgs preferred rem packages packages' : List Pkg) : Prop where
  append : ∃ new, packages' = packages ++ new ∧ ∀ p ∈ new, p ∈ handle.pool preferred ∧
    handle.Provided localpkgs preferred rem packages' p
  names : (packages.map Pkg.name).Nodup → (packages'.map Pkg.name).Nodup

lemma Grown.refl : Grown handle localpkgs preferred rem packages packages :=
  ⟨⟨[], (List.append_nil _).symm, fun _ hp => absurd hp List.not_mem_nil⟩, id⟩

lemma Grown.sub (h : Grown handle localpkgs preferred rem packages packages') : ∀ q ∈ packages, q ∈ packages' := by
  obtain ⟨new, rfl, -⟩ := h.append
  exact fun q hq => List.mem_append_left _ hq

lemma Grown.trans {packages'' : List Pkg} (h : Grown handle localpkgs preferred rem packages packages')
    (h' : Grown handle localpkgs preferred rem packages' packages'') :
    Grown handle localpkgs preferred rem packages packages'' := by
  have hsub := h'.sub
  obtain ⟨new, rfl, hnew⟩ := h.append
  obtain ⟨new', rfl, hnew'⟩ := h'.append
  refine ⟨⟨new ++ new', List.append_assoc _ _ _, fun p hp => ?_⟩, fun hnodup => h'.names (h.names hnodup)⟩
  rcases List.mem_append.1 hp with hp | hp
  · exact (hnew p hp).imp_right fun hprov => hprov.mono hsub
  · exact hnew' p hp

lemma remaining_le (handle : Resolver) (preferred : List Pkg) (hsub : ∀ q ∈ packages, q ∈ packages') :
    handle.remaining preferred packages' ≤ handle.remaining preferred packages := by
  refine (List.monotone_filter_right _ fun p hp => ?_).length_le
  rw [Bool.not_eq_true', ← Bool.not_eq_true, isSome_pkgFind] at hp ⊢
  exact fun ⟨q, hq, hname⟩ => hp ⟨q, hsub q hq, hname⟩

lemma remaining_lt (hpkg : pkg ∈ handle.pool preferred) (hnew : ∀ q ∈ packages, q.name ≠ pkg.name) :
    handle.remaining preferred (packages ++ [pkg]) < handle.remaining preferred packages :=
  length_without_lt _ (fun _ hq => List.mem_append_left _ hq) (mem_without.2 ⟨hpkg, hnew⟩)
    (List.mem_append_right _ List.mem_cons_self)

/-- A call succeeds with its package among those that it adds, or leaves the packages as they were. -/
structure Called (handle : Resolver) (localpkgs preferred rem packages : List Pkg) (pkg : Pkg) (c : Resolved) :
    Prop where
  grown : Grown handle localpkgs preferred rem packages c.packages
  found : c.ok = true → pkg ∈ c.packages ∨ ∃ q ∈ packages, q.name = pkg.name
  restored : c.ok = false → c.packages = packages

/-- One turn of the loop: the missing dependency is met, or reported. -/
lemma resolveMiss_spec {resolve : Pkg → List Pkg → List DepMissing → Option Resolved}
    (hresolve : ∀ spkg ∈ handle.pool preferred, ∀ packages' data, (∀ q ∈ packages, q ∈ packages') →
      ∃ c, resolve spkg packages' data = some c ∧ Called handle localpkgs preferred rem packages' spkg c)
    (miss : DepMissing) (hsub : ∀ q ∈ packages, q ∈ r.packages) :
    ∃ r', resolveMiss handle preferred rem resolve r miss = some r' ∧
      Grown handle localpkgs preferred rem r.packages r'.packages ∧
      (r'.ok = true → r.ok = true ∧ handle.MetBy preferred rem r'.packages miss.depend) := by
  unfold resolveMiss
  simp only
  split
  next hsat =>
    obtain ⟨q, hfind⟩ := Option.isSome_iff_exists.1 hsat
    exact ⟨r, rfl, .refl, fun hok => ⟨hok, .inl ⟨q, of_findDepSatisfier hfind⟩⟩⟩
  -- what a call leaves behind, and what it needs to be a success
  have hlocal : ∀ c : Resolved, Grown handle localpkgs preferred rem r.packages c.packages →
      (c.ok = true → handle.MetBy preferred rem c.packages miss.depend) →
      ∃ r', some (if c.ok then { c with ok := r.ok }
          else if (resolvedep handle miss.depend [handle.localDb] rem false).isSome then { c with ok := r.ok }
          else { c with ok := false, data := c.data ++ [miss] }) = some r' ∧
        Grown handle localpkgs preferred rem r.packages r'.packages ∧
        (r'.ok = true → r.ok = true ∧ handle.MetBy preferred rem r'.packages miss.depend) := by
    intro c hgrown hmet
    refine ⟨_, rfl, ?_⟩
    split
    next hok => exact ⟨hgrown, fun h => ⟨h, hmet hok⟩⟩
    next =>
      split
      next hfound =>
        obtain ⟨q, hq⟩ := Option.isSome_iff_exists.1 hfound
        obtain ⟨⟨db, hdb, hmem⟩, hsat, hnot⟩ := of_resolvedep hq
        obtain rfl := List.mem_singleton.1 hdb
        exact ⟨hgrown, fun h => ⟨h, .inr (.inr ⟨q, hmem, hsat, hnot⟩)⟩⟩
      next => exact ⟨hgrown, fun h => by cases h⟩
  cases hspkg : (findDepSatisfier preferred miss.depend).or
      (resolvedep handle miss.depend handle.dbsSync r.packages false) with
  | none => exact hlocal { r with ok := false } .refl fun h => by cases h
  | some spkg =>
    have hpool : spkg ∈ handle.pool preferred ∧ depcmp spkg miss.depend = true ∧
        (spkg ∈ preferred ∨ ∀ q ∈ r.packages, q.name ≠ spkg.name) := by
      rcases Option.or_eq_some_iff.1 hspkg with hpref | ⟨-, hdep⟩
      · obtain ⟨hmem, hsat⟩ := of_findDepSatisfier hpref
        exact ⟨List.mem_append_left _ hmem, hsat, .inl hmem⟩
      · obtain ⟨⟨db, hdb, hmem⟩, hsat, hnot⟩ := of_resolvedep hdep
        exact ⟨List.mem_append_right _ (List.mem_flatMap.2 ⟨db, hdb, hmem⟩), hsat, .inr hnot⟩
    obtain ⟨hpool, hsat, hwhere⟩ := hpool
    obtain ⟨c, hcall, hcalled⟩ := hresolve spkg hpool r.packages r.data hsub
    simp only [hcall, Option.map_some]
    refine hlocal c hcalled.grown fun hok => ?_
    rcases hcalled.found hok with hadded | ⟨q, hq, hname⟩
    · exact .inl ⟨spkg, hadded, hsat⟩
    rcases hwhere with hpref | hnew
    · exact .inr (.inl ⟨spkg, hpref, hsat, q, hcalled.grown.sub q hq, hname⟩)
    · exact absurd hname (hnew q hq)

lemma foldlM_resolveMiss {resolve : Pkg → List Pkg → List DepMissing → Option Resolved}
    (hresolve : ∀ spkg ∈ handle.pool preferred, ∀ packages' data, (∀ q ∈ packages, q ∈ packages') →
      ∃ c, resolve spkg packages' data = some c ∧ Called handle localpkgs preferred rem packages' spkg c)
    (deps : List DepMissing) (r : Resolved) (hsub : ∀ q ∈ packages, q ∈ r.packages) :
    ∃ r', deps.foldlM (resolveMiss handle preferred rem resolve) r = some r' ∧
      Grown handle localpkgs preferred rem r.packages r'.packages ∧
      (r'.ok = true → r.ok = true ∧ ∀ miss ∈ deps, handle.MetBy preferred rem r'.packages miss.depend) := by
  induction deps generalizing r with
  | nil => exact ⟨r, rfl, .refl, fun hok => ⟨hok, fun _ h => by cases h⟩⟩
  | cons miss deps ih =>
    obtain ⟨r₁, hmiss, hgrown₁, hok₁⟩ := resolveMiss_spec hresolve miss hsub
    obtain ⟨r₂, hfold, hgrown₂, hok₂⟩ := ih r₁ fun q hq => hgrown₁.sub q (hsub q hq)
    refine ⟨r₂, by rw [List.foldlM_cons, hmiss]; exact hfold, hgrown₁.trans hgrown₂, fun hok => ?_⟩
    obtain ⟨hok', hmet⟩ := hok₂ hok
    obtain ⟨hok'', hmet'⟩ := hok₁ hok'
    refine ⟨hok'', fun m hm => ?_⟩
    rcases List.mem_cons.1 hm with rfl | hm
    · exact hmet'.mono hgrown₂.sub
    · exact hmet m hm

end Loop

/-! ### The whole resolution -/

section Resolve

/-- A dependency that is not reported is satisfied. -/
lemma mem_checkdeps_of_not_satisfied (hdep : dep ∈ pkg.depends)
    (hnot : ¬ handle.Satisfied (afterwards localpkgs rem [pkg]) dep) :
    (⟨pkg.name, handle.relax dep, none⟩ : DepMissing) ∈ alpmCheckdeps handle.toDepHandle localpkgs rem [pkg] false := by
  have hunsat := unsatisfied_iff.2 hnot
  simp only [alpmCheckdeps, List.mem_append, List.mem_flatMap, List.mem_singleton, List.mem_filterMap]
  exact .inl ⟨pkg, rfl, dep, hdep, by rw [if_pos hunsat]⟩

lemma resolvedeps_called (localpkgs rem : List Pkg) (hpkg : pkg ∈ handle.pool preferred) (hn : handle.remaining preferred packages < n)
    (data : List DepMissing) : ∃ c, resolvedeps handle localpkgs preferred rem n pkg packages data = some c ∧
      Called handle localpkgs preferred rem packages pkg c := by
  induction n generalizing pkg packages data with
  | zero => omega
  | succ n ih =>
    unfold resolvedeps
    split
    next hfound =>
      obtain ⟨q, hq, hname⟩ := isSome_pkgFind.1 hfound
      exact ⟨_, rfl, .refl, fun _ => .inr ⟨q, hq, hname⟩, fun h => by cases h⟩
    next hnew =>
      rw [isSome_pkgFind, not_exists] at hnew
      have hnew' : ∀ q ∈ packages, q.name ≠ pkg.name := fun q hq hname => hnew q ⟨hq, hname⟩
      have hlt := remaining_lt hpkg hnew'
      have hresolve : ∀ spkg ∈ handle.pool preferred, ∀ packages' data, (∀ q ∈ packages ++ [pkg], q ∈ packages') →
          ∃ c, resolvedeps handle localpkgs preferred rem n spkg packages' data = some c ∧
            Called handle localpkgs preferred rem packages' spkg c := by
        intro spkg hspkg packages' data hsub
        have hle := remaining_le handle preferred hsub
        exact ih hspkg (by omega) data
      obtain ⟨r, hloop, hgrown, hok⟩ := foldlM_resolveMiss hresolve
        (alpmCheckdeps handle.toDepHandle localpkgs rem [pkg] false) ⟨true, packages ++ [pkg], data⟩ fun _ hq => hq
      simp only [hloop, Option.map_some]
      refine ⟨_, rfl, ?_⟩
      split
      next hrok =>
        refine ⟨?_, fun _ => .inl (hgrown.sub pkg (List.mem_append_right _ List.mem_cons_self)), fun h => ?_⟩
        · have hfirst : Grown handle localpkgs preferred rem packages r.packages := by
            obtain ⟨new, hnewpkgs, hprovided⟩ := hgrown.append
            refine ⟨⟨pkg :: new, by rw [hnewpkgs, List.append_assoc]; rfl, fun p hp => ?_⟩, fun hnodup => ?_⟩
            · rcases List.mem_cons.1 hp with rfl | hp
              · refine ⟨hpkg, fun dep hdep => or_iff_not_imp_left.2 fun hnot => ?_⟩
                exact (hok hrok).2 _ (mem_checkdeps_of_not_satisfied hdep hnot)
              · exact hprovided p hp
            · exact hgrown.names (nodup_names_concat hnodup hnew')
          exact hfirst
        · rw [hrok] at h
          cases h
      next hrok => exact ⟨.refl, fun h => absurd h hrok, fun _ => rfl⟩

/-- **A resolution comes to an end.** When it fails, the packages are as before. When it succeeds, it has added packages
of the preferred ones and of the databases, each name once, and whatever they depend on is there: installed, among the
packages, or among the preferred in whose place another version is taken. -/
theorem resolvedeps_provided (hpkg : pkg ∈ preferred) (hn : (handle.pool preferred).length < n)
    (localpkgs rem packages : List Pkg) (data : List DepMissing) :
    ∃ c, resolvedeps handle localpkgs preferred rem n pkg packages data = some c ∧
      (c.ok = false → c.packages = packages) ∧
      (c.ok = true → pkg ∈ c.packages ∨ ∃ q ∈ packages, q.name = pkg.name) ∧
      ((packages.map Pkg.name).Nodup → (c.packages.map Pkg.name).Nodup) ∧
      ∃ new, c.packages = packages ++ new ∧ ∀ p ∈ new, p ∈ handle.pool preferred ∧
        handle.Provided localpkgs preferred rem c.packages p := by
  have hlen : handle.remaining preferred packages ≤ (handle.pool preferred).length := List.length_filter_le _ _
  have hpool : pkg ∈ handle.pool preferred := List.mem_append_left _ hpkg
  have hfuel : handle.remaining preferred packages < n := by omega
  obtain ⟨c, hresolve, hcalled⟩ := resolvedeps_called localpkgs rem hpool hfuel data
  exact ⟨c, hresolve, hcalled.restored, hcalled.found, hcalled.grown.names, hcalled.grown.append⟩

/-- A repository with what a target depends on. -/
def shop : Resolver where
  nodepversion := false
  assumeinstalled := []
  dbLocal := []
  dbsSync := [⟨usageAll, false, false, [pkgOf [98] [] false]⟩]
  shouldIgnore _ := false
  installIgnored _ := false
  selectProvider _ _ := 0

theorem resolvedeps_provided_shop :
    ∃ c, resolvedeps shop [] [pkgOf [97] [depOn [98]] true] [] 3 (pkgOf [97] [depOn [98]] true) [] [] = some c ∧
      (c.ok = false → c.packages = []) ∧
      (c.ok = true → pkgOf [97] [depOn [98]] true ∈ c.packages ∨
        ∃ q ∈ ([] : List Pkg), q.name = (pkgOf [97] [depOn [98]] true).name) ∧
      ((([] : List Pkg).map Pkg.name).Nodup → (c.packages.map Pkg.name).Nodup) ∧
      ∃ new, c.packages = [] ++ new ∧ ∀ p ∈ new, p ∈ shop.pool [pkgOf [97] [depOn [98]] true] ∧
        shop.Provided [] [pkgOf [97] [depOn [98]] true] [] c.packages p :=
  resolvedeps_provided List.mem_cons_self (by decide) [] [] [] []

end Resolve

end Two09.Alpm
