import Two09.Alpm.CheckDeps
import Two09.Lib.Absorb

/-!
# Preparing a removal

`_alpm_remove_prepare`: the dependencies that nothing else needs are removed as well, and what a removal would break
is removed too, kept, or a reason not to remove anything.
-/

namespace Two09.Alpm

open Lib

/-- `_alpm_pkg_depends_on` -/
def pkgDependsOn (pkg1 pkg2 : Pkg) : Bool := pkg1.depends.any fun dep => depcmp pkg2 dep

/-- `alpm_list_remove` with `_alpm_pkg_cmp`. -/
def listRemove (haystack : List Pkg) (needle : Pkg) : List Pkg := haystack.eraseP fun pkg => pkg.name = needle.name

/-- What `_alpm_select_depends` moves on account of `pkg`. -/
def selects (includeExplicit : Bool) (pkg deppkg : Pkg) : Bool :=
  (includeExplicit || !deppkg.explicit) && pkgDependsOn pkg deppkg

/-- The packages that `_alpm_recursedeps` adds to the targets. -/
def recursedepsRem (db targs : List Pkg) (includeExplicit : Bool) : List Pkg :=
  let keep := targs.foldl listRemove db
  let (keep, rem) := absorb (selects includeExplicit) (keep.length + targs.length) keep targs
  (absorb (selects true) (rem.length + keep.length) rem keep).1

/-- `_alpm_recursedeps` -/
def recursedeps (db targs : List Pkg) (includeExplicit : Bool) : List Pkg :=
  targs ++ recursedepsRem db targs includeExplicit

/-- One turn of the inner loop of `remove_prepare_cascade`. -/
def pull (dbLocal remove : List Pkg) (miss : DepMissing) : List Pkg :=
  match pkgFind dbLocal miss.target with
  | none => remove
  | some info => if (pkgFind remove info.name).isSome then remove else remove ++ [info]

/-- `remove_prepare_cascade`; none when it does not end within so many turns. -/
def removePrepareCascade (handle : DepHandle) (dbLocal : List Pkg) :
    ℕ → List Pkg → List DepMissing → Option (List Pkg)
  | _, remove, [] => some remove
  | 0, _, _ :: _ => none
  | n + 1, remove, miss :: lp =>
    let remove := (miss :: lp).foldl (pull dbLocal) remove
    removePrepareCascade handle dbLocal n remove (alpmCheckdeps handle dbLocal remove [] true)

/-- One turn of the inner loop of `remove_prepare_keep_needed`. -/
def keepNeeded (remove : List Pkg) (miss : DepMissing) : List Pkg :=
  match miss.causingpkg.bind (pkgFind remove) with
  | none => remove
  | some pkg => listRemove remove pkg

/-- `remove_prepare_keep_needed`; none when it does not end within so many turns. -/
def removePrepareKeepNeeded (handle : DepHandle) (dbLocal : List Pkg) :
    ℕ → List Pkg → List DepMissing → Option (List Pkg)
  | _, remove, [] => some remove
  | 0, _, _ :: _ => none
  | n + 1, remove, miss :: lp =>
    let remove := (miss :: lp).foldl keepNeeded remove
    removePrepareKeepNeeded handle dbLocal n remove (alpmCheckdeps handle dbLocal remove [] true)

/-- The flags of a transaction that a removal goes by. -/
structure RemoveFlags where
  nodeps : Bool
  recurse : Bool
  recurseall : Bool
  cascade : Bool
  unneeded : Bool

/-- The check in `_alpm_remove_prepare`: the packages to remove, or the dependencies that would be broken. -/
def checkRemoval (handle : DepHandle) (flags : RemoveFlags) (dbLocal remove : List Pkg) :
    Option (Except (List DepMissing) (List Pkg)) :=
  if flags.nodeps then some (.ok remove)
  else
    let lp := alpmCheckdeps handle dbLocal remove [] true
    if lp.isEmpty then some (.ok remove)
    else if flags.cascade then (removePrepareCascade handle dbLocal (dbLocal.length + 1) remove lp).map .ok
    else if flags.unneeded then (removePrepareKeepNeeded handle dbLocal (remove.length + 1) remove lp).map .ok
    else some (.error lp)

/-- The targets as they are checked. -/
def checkedTargets (flags : RemoveFlags) (dbLocal remove : List Pkg) : List Pkg :=
  if flags.recurse && !flags.cascade then recursedeps dbLocal remove flags.recurseall else remove

/-- `_alpm_remove_prepare`; none when it does not end. -/
def removePrepare (handle : DepHandle) (flags : RemoveFlags) (dbLocal remove : List Pkg) :
    Option (Except (List DepMissing) (List Pkg)) :=
  (checkRemoval handle flags dbLocal (checkedTargets flags dbLocal remove)).map fun r => r.map fun remove =>
    if flags.cascade && flags.recurse then recursedeps dbLocal remove flags.recurseall else remove

/-- What is left of the packages once others are removed. -/
def without (db remove : List Pkg) : List Pkg := db.filter fun pkg => !(pkgFind remove pkg.name).isSome

variable {handle : DepHandle} {flags : RemoveFlags} {db dbLocal remove remove' targs : List Pkg} {p q : Pkg}
  {dep : Depend} {lp : List DepMissing} {miss : DepMissing} {includeExplicit : Bool} {n : ℕ}

section Without

lemma mem_without : p ∈ without db remove ↔ p ∈ db ∧ ∀ q ∈ remove, q.name ≠ p.name := by
  rw [without, List.mem_filter, Bool.not_eq_true', ← Bool.not_eq_true, isSome_pkgFind]
  simp

lemma afterwards_nil : afterwards db remove [] = without db remove := by
  simp [afterwards, without, touched, pkgFind]

lemma touched_nil : touched remove [] p = (pkgFind remove p.name).isSome := by
  simp [touched, pkgFind]

lemma listRemove_eq (hdb : (db.map Pkg.name).Nodup) (t : Pkg) :
    listRemove db t = db.filter fun pkg => pkg.name ≠ t.name := by
  induction db with
  | nil => rfl
  | cons p db ih =>
    rw [List.map_cons, List.nodup_cons] at hdb
    have hrest := ih hdb.2
    by_cases hp : p.name = t.name
    · have hall : db.filter (fun pkg => pkg.name ≠ t.name) = db := by
        refine List.filter_eq_self.2 fun q hq => ?_
        simpa using fun hname : q.name = t.name => hdb.1 (List.mem_map.2 ⟨q, hq, hname.trans hp.symm⟩)
      rw [listRemove, List.eraseP_cons_of_pos (by simpa using hp), List.filter_cons_of_neg (by simpa using hp), hall]
    · rw [listRemove, List.eraseP_cons_of_neg (by simpa using hp), List.filter_cons_of_pos (by simpa using hp), ← hrest,
        listRemove]

/-- The targets are taken out of the packages by their names. -/
lemma foldl_listRemove (hdb : (db.map Pkg.name).Nodup) (targs : List Pkg) :
    targs.foldl listRemove db = without db targs := by
  induction targs generalizing db with
  | nil => simp [without, pkgFind]
  | cons t targs ih =>
    rw [List.foldl_cons, listRemove_eq hdb, ih (hdb.sublist (List.filter_sublist.map _))]
    refine List.filter_filter.trans (List.filter_congr fun p _ => ?_)
    rw [isSome_pkgFind_cons, Bool.not_or, Bool.and_comm]
    simp only [ne_eq, decide_not, eq_comm (a := t.name)]

end Without

/-! ### Dependencies that go along -/

/-- The package may go with the targets: one of them depends on it, or a package that may go with them. -/
abbrev Removable (db targs : List Pkg) (includeExplicit : Bool) : Pkg → Prop :=
  Pulled (selects includeExplicit) targs (without db targs)

/-- A package that does not go needs it. -/
inductive Needed (db targs : List Pkg) (includeExplicit : Bool) : Pkg → Prop
  | kept {p q : Pkg} (hq : q ∈ without db targs) (hstays : ¬ Removable db targs includeExplicit q)
    (hp : Removable db targs includeExplicit p) (hdep : pkgDependsOn q p = true) : Needed db targs includeExplicit p
  | dep {p q : Pkg} (hq : Needed db targs includeExplicit q) (hp : Removable db targs includeExplicit p)
    (hdep : pkgDependsOn q p = true) : Needed db targs includeExplicit p

section Recurse

/-- The first absorption takes what is removable, and the second gives back what is needed. -/
lemma recursedepsRem_spec (hdb : (db.map Pkg.name).Nodup) (includeExplicit : Bool) (p : Pkg) :
    p ∈ recursedepsRem db targs includeExplicit ↔
      Removable db targs includeExplicit p ∧ ¬ Needed db targs includeExplicit p := by
  unfold recursedepsRem
  rw [foldl_listRemove hdb]
  simp only
  rw [mem_absorb_stay_iff le_rfl, mem_absorb_iff le_rfl]
  refine and_congr Iff.rfl (not_congr ⟨fun h => ?_, fun h => ?_⟩)
  · induction h with
    | first hi hx hr =>
      obtain ⟨hi, hstays⟩ := (mem_absorb_stay_iff le_rfl).1 hi
      exact .kept hi hstays ((mem_absorb_iff le_rfl).1 hx) (by simpa [selects] using hr)
    | next _ hx hr ih => exact .dep ih ((mem_absorb_iff le_rfl).1 hx) (by simpa [selects] using hr)
  · induction h with
    | kept hq hstays hp hdep =>
      exact .first ((mem_absorb_stay_iff le_rfl).2 ⟨hq, hstays⟩) ((mem_absorb_iff le_rfl).2 hp)
        (by simpa [selects] using hdep)
    | dep _ hp hdep ih => exact .next ih ((mem_absorb_iff le_rfl).2 hp) (by simpa [selects] using hdep)

/-- Of two dependencies of a target, the one that another package needs stays. -/
def orchard : List Pkg := [pkgOf [97] [depOn [98], depOn [99]] true, pkgOf [98] [] false, pkgOf [99] [] false,
  pkgOf [100] [depOn [99]] true]

/-- **What goes along** with the targets, and with them is removed, is what they need and nothing else does. -/
theorem mem_recursedeps_iff (hdb : (db.map Pkg.name).Nodup) :
    p ∈ recursedeps db targs includeExplicit ↔
      p ∈ targs ∨ Removable db targs includeExplicit p ∧ ¬ Needed db targs includeExplicit p := by
  rw [recursedeps, List.mem_append, recursedepsRem_spec hdb]

theorem mem_recursedeps_orchard : pkgOf [98] [] false ∈ recursedeps orchard (orchard.take 1) false ↔
    pkgOf [98] [] false ∈ orchard.take 1 ∨ Removable orchard (orchard.take 1) false (pkgOf [98] [] false) ∧
      ¬ Needed orchard (orchard.take 1) false (pkgOf [98] [] false) :=
  mem_recursedeps_iff (by decide +kernel)

lemma mem_db_of_recursedepsRem (hdb : (db.map Pkg.name).Nodup) (hp : p ∈ recursedepsRem db targs includeExplicit) :
    p ∈ db :=
  (mem_without.1 ((recursedepsRem_spec hdb _ _).1 hp).1.mem).1

/-- What stays needs nothing that goes along. -/
lemma not_dependsOn_of_recursedeps (hdb : (db.map Pkg.name).Nodup)
    (hq : q ∈ without db (recursedeps db targs includeExplicit)) (hp : p ∈ recursedepsRem db targs includeExplicit) :
    pkgDependsOn q p = false := by
  by_contra hdep
  have hdep' : pkgDependsOn q p = true := by simpa using hdep
  obtain ⟨hremovable, hneeded⟩ := (recursedepsRem_spec hdb _ _).1 hp
  obtain ⟨hqdb, hnames⟩ := mem_without.1 hq
  have hqwithout : q ∈ without db targs :=
    mem_without.2 ⟨hqdb, fun t ht => hnames t (List.mem_append_left _ ht)⟩
  by_cases hgoes : Removable db targs includeExplicit q
  · refine hneeded (.dep ?_ hremovable hdep')
    by_contra hnot
    exact hnames q (List.mem_append_right _ ((recursedepsRem_spec hdb _ _).2 ⟨hgoes, hnot⟩)) rfl
  · exact hneeded (.kept hqwithout hgoes hremovable hdep')

/-- **Dependencies that go along are missed by no package that stays.** -/
lemma consistent_recursedeps (hdb : (db.map Pkg.name).Nodup) (hstrict : handle.nodepversion = false)
    (h : handle.Consistent (without db targs)) :
    handle.Consistent (without db (recursedeps db targs includeExplicit)) := by
  intro q hq dep hdep
  have hrelax : handle.relax dep = dep := by rw [DepHandle.relax, hstrict, if_neg Bool.false_ne_true]
  obtain ⟨hqdb, hnames⟩ := mem_without.1 hq
  have hqwithout : q ∈ without db targs :=
    mem_without.2 ⟨hqdb, fun t ht => hnames t (List.mem_append_left _ ht)⟩
  refine (h q hqwithout dep hdep).imp (fun ⟨p, hp, hsat⟩ => ⟨p, ?_, hsat⟩) id
  obtain ⟨hpdb, hpnames⟩ := mem_without.1 hp
  refine mem_without.2 ⟨hpdb, fun t ht hname => ?_⟩
  rcases List.mem_append.1 ht with ht | ht
  · exact hpnames t ht hname
  · obtain rfl := List.inj_on_of_nodup_map hdb (mem_db_of_recursedepsRem hdb ht) hpdb hname
    have hnot := not_dependsOn_of_recursedeps hdb hq ht
    rw [hrelax] at hsat
    have hdepends : pkgDependsOn q t = true := List.any_eq_true.2 ⟨dep, hdep, hsat⟩
    rw [hnot] at hdepends
    cases hdepends

end Recurse

/-! ### Cascades -/

/-- The package cannot stay: it is to be removed, or it has a dependency that was satisfied, by packages only that
cannot stay. -/
inductive Doomed (handle : DepHandle) (db targs : List Pkg) : Pkg → Prop
  | target {p : Pkg} (hp : p ∈ targs) : Doomed handle db targs p
  | broken {p : Pkg} {dep : Depend} (hp : p ∈ db) (hdep : dep ∈ p.depends)
    (hassumed : depcmpProvides (handle.relax dep) handle.assumeinstalled = false)
    (hwas : ∃ q ∈ db, depcmp q (handle.relax dep) = true)
    (hall : ∀ q ∈ db, depcmp q (handle.relax dep) = true → Doomed handle db targs q) : Doomed handle db targs p

section Cascade

/-- What a removal breaks. -/
lemma mem_check_iff : miss ∈ alpmCheckdeps handle db remove [] true ↔
    ∃ p ∈ without db remove, ∃ dep ∈ p.depends, ∃ q,
      findDepSatisfier (db.filter (touched remove [])) (handle.relax dep) = some q ∧
      ¬ handle.Satisfied (without db remove) dep ∧ miss = ⟨p.name, handle.relax dep, some q.name⟩ := by
  rw [mem_alpmCheckdeps_iff, afterwards_nil]
  simp only [List.not_mem_nil, false_and, exists_false, false_or]
  refine exists_congr fun p => and_assoc.symm.trans (and_congr_left fun _ => ?_)
  rw [touched_nil, without, List.mem_filter, Bool.not_eq_true']

lemma mem_pull (hdb : (db.map Pkg.name).Nodup) (hsub : ∀ q ∈ remove, q ∈ db) :
    p ∈ pull db remove miss ↔ p ∈ remove ∨ p ∈ db ∧ p.name = miss.target := by
  unfold pull
  cases hfind : pkgFind db miss.target with
  | none =>
    refine (or_iff_left ?_).symm
    rintro ⟨hp, hname⟩
    have hsome := isSome_pkgFind.2 ⟨p, hp, hname⟩
    rw [hfind] at hsome
    cases hsome
  | some info =>
    obtain ⟨hinfo, hname⟩ := of_pkgFind hfind
    have hunique : p ∈ db ∧ p.name = miss.target ↔ p = info := by
      constructor
      · rintro ⟨hp, hpname⟩
        exact List.inj_on_of_nodup_map hdb hp hinfo (hpname.trans hname.symm)
      · rintro rfl
        exact ⟨hinfo, hname⟩
    rw [hunique]
    simp only
    split
    next hin =>
      obtain ⟨q, hq, hqname⟩ := isSome_pkgFind.1 hin
      obtain rfl := List.inj_on_of_nodup_map hdb (hsub q hq) hinfo hqname
      exact (or_iff_left_of_imp fun h => h ▸ hq).symm
    next => rw [List.mem_append, List.mem_singleton]

lemma mem_foldl_pull (hdb : (db.map Pkg.name).Nodup) (hsub : ∀ q ∈ remove, q ∈ db) (lp : List DepMissing) :
    p ∈ lp.foldl (pull db) remove ↔ p ∈ remove ∨ p ∈ db ∧ ∃ miss ∈ lp, p.name = miss.target := by
  induction lp generalizing remove with
  | nil => simp
  | cons miss lp ih =>
    have hsub' : ∀ q ∈ pull db remove miss, q ∈ db := fun q hq =>
      ((mem_pull hdb hsub).1 hq).elim (hsub q) And.left
    rw [List.foldl_cons, ih hsub', mem_pull hdb hsub, List.exists_mem_cons_iff, or_assoc, and_or_left]

/-- A round of the cascade pulls in what is broken, which is doomed. -/
lemma doomed_of_check (hdoomed : ∀ q ∈ remove, Doomed handle db targs q) (hsub : ∀ q ∈ remove, q ∈ db)
    (hdb : (db.map Pkg.name).Nodup) (hmiss : miss ∈ alpmCheckdeps handle db remove [] true) (hp : p ∈ db)
    (hname : p.name = miss.target) : Doomed handle db targs p := by
  obtain ⟨r, hr, dep, hdep, q, hfind, hnot, rfl⟩ := mem_check_iff.1 hmiss
  obtain ⟨hrdb, -⟩ := mem_without.1 hr
  obtain rfl := List.inj_on_of_nodup_map hdb hp hrdb hname
  obtain ⟨hq, hsat⟩ := of_findDepSatisfier hfind
  rw [DepHandle.Satisfied, not_or] at hnot
  refine .broken hp hdep (by simpa using hnot.2) ⟨q, (List.mem_filter.1 hq).1, hsat⟩ fun s hs hssat => ?_
  by_contra hfree
  refine hnot.1 ⟨s, mem_without.2 ⟨hs, fun t ht htname => hfree ?_⟩, hssat⟩
  obtain rfl := List.inj_on_of_nodup_map hdb (hsub t ht) hs htname
  exact hdoomed t ht

/-- Where nothing is broken any more, all that is doomed is removed. -/
lemma mem_of_doomed (hnil : alpmCheckdeps handle db remove [] true = []) (hsub : ∀ q ∈ remove, q ∈ db)
    (hdb : (db.map Pkg.name).Nodup) (htargs : ∀ q ∈ targs, q ∈ remove) (h : Doomed handle db targs p) :
    p ∈ remove := by
  induction h with
  | target hp => exact htargs _ hp
  | @broken p dep hp hdep hassumed hwas _ ih =>
    by_contra hstays
    obtain ⟨q, hq, hsat⟩ := hwas
    have hqtouched : touched remove [] q = true := by
      rw [touched_nil]
      exact isSome_pkgFind.2 ⟨q, ih q hq hsat, rfl⟩
    have hwithout : p ∈ without db remove := by
      refine mem_without.2 ⟨hp, fun t ht htname => hstays ?_⟩
      exact List.inj_on_of_nodup_map hdb (hsub t ht) hp htname ▸ ht
    have hnot : ¬ handle.Satisfied (without db remove) dep := by
      rintro (⟨s, hs, hssat⟩ | hassumed')
      · obtain ⟨hsdb, hsnames⟩ := mem_without.1 hs
        exact hsnames s (ih s hsdb hssat) rfl
      · rw [hassumed] at hassumed'
        cases hassumed'
    cases hfind : findDepSatisfier (db.filter (touched remove [])) (handle.relax dep) with
    | none =>
      have hfalse := isNone_findDepSatisfier.1 (Option.isNone_iff_eq_none.2 hfind) q
        (List.mem_filter.2 ⟨hq, hqtouched⟩)
      rw [hsat] at hfalse
      cases hfalse
    | some c =>
      have hmem := mem_check_iff.2 ⟨p, hwithout, dep, hdep, c, hfind, hnot, rfl⟩
      rw [hnil] at hmem
      cases hmem

/-- A round that pulls something in leaves fewer packages. -/
lemma length_without_lt (remove' : List Pkg) (hsub : ∀ q ∈ remove, q ∈ remove') (hp : p ∈ without db remove) (hp' : p ∈ remove') :
    (without db remove').length < (without db remove).length := by
  have hfilter : without db remove' = (without db remove).filter fun q => !(pkgFind remove' q.name).isSome := by
    rw [without, without, List.filter_filter]
    refine List.filter_congr fun q _ => ?_
    cases hfound : (pkgFind remove q.name).isSome with
    | false => simp
    | true =>
      obtain ⟨t, ht, htname⟩ := isSome_pkgFind.1 hfound
      rw [isSome_pkgFind.2 ⟨t, hsub t ht, htname⟩]
      rfl
  rw [hfilter]
  refine List.length_filter_lt_length_iff_exists.2 ⟨p, hp, ?_⟩
  rw [isSome_pkgFind.2 ⟨p, hp', rfl⟩]
  simp

lemma removePrepareCascade_spec (handle : DepHandle) (hdb : (db.map Pkg.name).Nodup) (hsub : ∀ q ∈ remove, q ∈ db)
    (htargs : ∀ q ∈ targs, q ∈ remove) (hdoomed : ∀ q ∈ remove, Doomed handle db targs q)
    (hn : (without db remove).length < n) :
    ∃ remove', removePrepareCascade handle db n remove (alpmCheckdeps handle db remove [] true) = some remove' ∧
      (∀ p, p ∈ remove' ↔ p ∈ db ∧ Doomed handle db targs p) ∧ alpmCheckdeps handle db remove' [] true = [] := by
  induction n generalizing remove with
  | zero => omega
  | succ n ih =>
    cases hlp : alpmCheckdeps handle db remove [] true with
    | nil =>
      refine ⟨remove, rfl, fun p => ⟨fun hp => ⟨hsub p hp, hdoomed p hp⟩, fun hp => ?_⟩, hlp⟩
      exact mem_of_doomed hlp hsub hdb htargs hp.2
    | cons miss lp =>
      have hmem : ∀ p, p ∈ (miss :: lp).foldl (pull db) remove ↔
          p ∈ remove ∨ p ∈ db ∧ ∃ miss ∈ alpmCheckdeps handle db remove [] true, p.name = miss.target := fun p => by
        rw [hlp]
        exact mem_foldl_pull hdb hsub _
      rw [removePrepareCascade]
      refine ih (fun q hq => ((hmem q).1 hq).elim (hsub q) And.left) (fun q hq => (hmem q).2 (.inl (htargs q hq)))
        (fun q hq => ?_) ?_
      · rcases (hmem q).1 hq with hq | ⟨hqdb, m, hm, hname⟩
        · exact hdoomed q hq
        · exact doomed_of_check hdoomed hsub hdb hm hqdb hname
      · have hmiss : miss ∈ alpmCheckdeps handle db remove [] true := hlp ▸ List.mem_cons_self
        obtain ⟨p, hp, dep, -, q, -, -, heq⟩ := mem_check_iff.1 hmiss
        have hname : p.name = miss.target := by rw [heq]
        have hlt := length_without_lt ((miss :: lp).foldl (pull db) remove)
          (fun q hq => (hmem q).2 (.inl hq)) hp
          ((hmem p).2 (.inr ⟨(mem_without.1 hp).1, miss, hmiss, hname⟩))
        omega

/-- **A cascade removes exactly what cannot stay**, and comes to an end. -/
theorem removePrepareCascade_exact (hdb : (db.map Pkg.name).Nodup) (htargs : ∀ q ∈ targs, q ∈ db) :
    ∃ remove, removePrepareCascade handle db (db.length + 1) targs (alpmCheckdeps handle db targs [] true) =
      some remove ∧ ∀ p, p ∈ remove ↔ p ∈ db ∧ Doomed handle db targs p := by
  have hlen : (without db targs).length ≤ db.length := List.length_filter_le _ _
  obtain ⟨remove, hremove, hmem, -⟩ := removePrepareCascade_spec handle (n := db.length + 1) hdb htargs
    (fun q hq => hq) (fun q hq => .target hq) (by omega)
  exact ⟨remove, hremove, hmem⟩

theorem removePrepareCascade_orchard : ∃ remove, removePrepareCascade ⟨false, []⟩ orchard (orchard.length + 1)
      (orchard.drop 2 |>.take 1) (alpmCheckdeps ⟨false, []⟩ orchard (orchard.drop 2 |>.take 1) [] true) = some remove ∧
    ∀ p, p ∈ remove ↔ p ∈ orchard ∧ Doomed ⟨false, []⟩ orchard (orchard.drop 2 |>.take 1) p :=
  removePrepareCascade_exact (by decide +kernel) fun _ hq => List.mem_of_mem_drop (List.mem_of_mem_take hq)

end Cascade

/-! ### Keeping what is needed -/

section Keep

lemma keepNeeded_sublist : (keepNeeded remove miss).Sublist remove := by
  unfold keepNeeded
  split
  · exact .refl _
  · exact List.eraseP_sublist

lemma foldl_keepNeeded_sublist (remove : List Pkg) (lp : List DepMissing) :
    (lp.foldl keepNeeded remove).Sublist remove := by
  induction lp generalizing remove with
  | nil => exact .refl _
  | cons miss lp ih => exact (ih _).trans keepNeeded_sublist

/-- The package whose removal breaks something is taken off the list. -/
lemma length_keepNeeded_lt (hmiss : miss ∈ alpmCheckdeps handle db remove [] true) :
    (keepNeeded remove miss).length < remove.length := by
  obtain ⟨p, -, dep, -, q, hfind, -, rfl⟩ := mem_check_iff.1 hmiss
  have htouched := (List.mem_filter.1 (of_findDepSatisfier hfind).1).2
  rw [touched_nil] at htouched
  obtain ⟨pkg, hpkg⟩ := Option.isSome_iff_exists.1 htouched
  obtain ⟨hmem, hname⟩ := of_pkgFind hpkg
  simp only [keepNeeded, Option.bind_some, hpkg]
  have hlen := List.length_eraseP_of_mem hmem (p := fun x : Pkg => decide (x.name = pkg.name)) (by simp)
  have hpos := List.length_pos_of_mem hmem
  rw [listRemove]
  omega

lemma removePrepareKeepNeeded_spec (handle : DepHandle) (db remove : List Pkg) (hn : remove.length < n) :
    ∃ remove', removePrepareKeepNeeded handle db n remove (alpmCheckdeps handle db remove [] true) = some remove' ∧
      remove'.Sublist remove ∧ alpmCheckdeps handle db remove' [] true = [] := by
  induction n generalizing remove with
  | zero => omega
  | succ n ih =>
    cases hlp : alpmCheckdeps handle db remove [] true with
    | nil => exact ⟨remove, rfl, .refl _, hlp⟩
    | cons miss lp =>
      have hmiss : miss ∈ alpmCheckdeps handle db remove [] true := hlp ▸ List.mem_cons_self
      have hlt := length_keepNeeded_lt hmiss
      have hsub := foldl_keepNeeded_sublist (keepNeeded remove miss) lp
      obtain ⟨remove', hremove, hsub', hnil⟩ := ih (lp.foldl keepNeeded (keepNeeded remove miss))
        (by have := hsub.length_le; omega)
      refine ⟨remove', ?_, hsub'.trans (hsub.trans keepNeeded_sublist), hnil⟩
      rw [removePrepareKeepNeeded]
      exact hremove

end Keep

/-! ### Each package once -/

section Once

lemma recursedeps_nodup (hdb : (db.map Pkg.name).Nodup) (htargs : targs.Nodup) (includeExplicit : Bool) :
    (recursedeps db targs includeExplicit).Nodup := by
  refine List.nodup_append.2 ⟨htargs, ?_, fun p hp q hq heq => ?_⟩
  · have hmoved := absorb_perm (r := selects includeExplicit) ((without db targs).length + targs.length)
      (without db targs) targs
    have hnodup := hmoved.nodup_iff.2 (hdb.of_map.sublist List.filter_sublist)
    unfold recursedepsRem
    rw [foldl_listRemove hdb]
    exact (List.nodup_append.1 hnodup).2.1.sublist (absorb_sublist _ _ _)
  · subst heq
    exact (mem_without.1 ((recursedepsRem_spec hdb _ _).1 hq).1.mem).2 p hp rfl

lemma pull_nodup (dbLocal : List Pkg) (hremove : remove.Nodup) (miss : DepMissing) :
    (pull dbLocal remove miss).Nodup := by
  unfold pull
  split
  · exact hremove
  split
  · exact hremove
  next info _ hnone =>
    refine List.nodup_append.2 ⟨hremove, List.nodup_singleton _, fun p hp q hq heq => hnone ?_⟩
    exact isSome_pkgFind.2 ⟨p, hp, by rw [heq, List.mem_singleton.1 hq]⟩

lemma removePrepareCascade_nodup (n : ℕ) (hremove : remove.Nodup)
    (h : removePrepareCascade handle db n remove lp = some remove') : remove'.Nodup := by
  induction n generalizing remove lp with
  | zero =>
    cases lp with
    | nil => exact Option.some_inj.1 h ▸ hremove
    | cons miss lp => cases h
  | succ n ih =>
    cases lp with
    | nil => exact Option.some_inj.1 h ▸ hremove
    | cons miss lp =>
      refine ih ?_ h
      exact List.foldlRecOn _ _ hremove fun remove hr miss _ => pull_nodup db hr miss

/-- No package is to be removed twice. -/
lemma removePrepare_nodup (hdb : (db.map Pkg.name).Nodup) (htargs : targs.Nodup)
    (h : removePrepare handle flags db targs = some (.ok remove)) : remove.Nodup := by
  have hchecked : (checkedTargets flags db targs).Nodup := by
    unfold checkedTargets
    split
    · exact recursedeps_nodup hdb htargs _
    · exact htargs
  have hcheck : ∀ r, checkRemoval handle flags db (checkedTargets flags db targs) = some (.ok r) → r.Nodup := by
    intro r hr
    unfold checkRemoval at hr
    split at hr
    · cases hr
      exact hchecked
    simp only at hr
    split at hr
    · cases hr
      exact hchecked
    split at hr
    · obtain ⟨r', hr', heq⟩ := Option.map_eq_some_iff.1 hr
      cases heq
      exact removePrepareCascade_nodup _ hchecked hr'
    split at hr
    · obtain ⟨r', hr', heq⟩ := Option.map_eq_some_iff.1 hr
      cases heq
      obtain ⟨r'', hr'', hsub, -⟩ := removePrepareKeepNeeded_spec handle db (checkedTargets flags db targs)
        (Nat.lt_succ_self _)
      rw [hr''] at hr'
      cases hr'
      exact hchecked.sublist hsub
    · cases hr
  unfold removePrepare at h
  obtain ⟨result, hresult, heq⟩ := Option.map_eq_some_iff.1 h
  cases result with
  | error lp => cases heq
  | ok r =>
    cases heq
    split
    · exact recursedeps_nodup hdb (hcheck r hresult) _
    · exact hcheck r hresult

end Once

/-! ### The whole preparation -/

section Prepare

lemma consistent_of_check (hdb : handle.Consistent db) (hnil : alpmCheckdeps handle db remove [] true = []) :
    handle.Consistent (without db remove) := by
  rw [← afterwards_nil]
  exact consistent_of_checkdeps hdb hnil

lemma mem_db_of_checkedTargets (flags : RemoveFlags) (hdb : (db.map Pkg.name).Nodup) (htargs : ∀ q ∈ targs, q ∈ db) :
    ∀ q ∈ checkedTargets flags db targs, q ∈ db := by
  intro q hq
  unfold checkedTargets at hq
  split at hq
  · exact (List.mem_append.1 hq).elim (htargs q) (mem_db_of_recursedepsRem hdb)
  · exact htargs q hq

/-- What passes the check, perhaps changed, breaks nothing. -/
lemma checkRemoval_spec (handle : DepHandle) (flags : RemoveFlags) (hdb : (db.map Pkg.name).Nodup) (hsub : ∀ q ∈ remove, q ∈ db) (hnodeps : flags.nodeps = false) :
    ∃ result, checkRemoval handle flags db remove = some result ∧
      (∀ remove', result = .ok remove' → (∀ q ∈ remove', q ∈ db) ∧ alpmCheckdeps handle db remove' [] true = []) ∧
      ∀ lp, result = .error lp → alpmCheckdeps handle db remove [] true ≠ [] := by
  unfold checkRemoval
  rw [hnodeps, if_neg Bool.false_ne_true]
  simp only
  cases hlp : alpmCheckdeps handle db remove [] true with
  | nil =>
    refine ⟨_, rfl, fun remove' h => ?_, fun lp h => by cases h⟩
    cases h
    exact ⟨hsub, hlp⟩
  | cons miss lp =>
    rw [List.isEmpty_cons, if_neg Bool.false_ne_true, ← hlp]
    split
    · have hlen : (without db remove).length ≤ db.length := List.length_filter_le _ _
      obtain ⟨remove', hremove, hmem, hnil⟩ := removePrepareCascade_spec handle (n := db.length + 1) hdb hsub
        (fun q hq => hq) (fun q hq => .target hq) (by omega)
      refine ⟨_, by rw [hremove]; rfl, fun r h => ?_, fun lp h => by cases h⟩
      cases h
      exact ⟨fun q hq => ((hmem q).1 hq).1, hnil⟩
    split
    · obtain ⟨remove', hremove, hkept, hnil⟩ :=
        removePrepareKeepNeeded_spec handle db remove (Nat.lt_succ_self _)
      refine ⟨_, by rw [hremove]; rfl, fun r h => ?_, fun lp h => by cases h⟩
      cases h
      exact ⟨fun q hq => hsub q (hkept.mem hq), hnil⟩
    · refine ⟨_, rfl, ?_, fun _ _ => ?_⟩
      · rintro r ⟨⟩
      · rw [hlp]
        exact List.cons_ne_nil _ _

/-- The preparation ends, with packages that can be removed, or where the targets cannot. -/
lemma removePrepare_spec (handle : DepHandle) (flags : RemoveFlags) (hdb : (db.map Pkg.name).Nodup)
    (htargs : ∀ q ∈ targs, q ∈ db)
    (hconsistent : handle.Consistent db) (hnodeps : flags.nodeps = false)
    (hversions : handle.nodepversion = false ∨ flags.cascade = false ∨ flags.recurse = false) :
    ∃ result, removePrepare handle flags db targs = some result ∧
      (∀ remove, result = .ok remove → (∀ q ∈ remove, q ∈ db) ∧ handle.Consistent (without db remove)) ∧
      ∀ lp, result = .error lp → ¬ handle.Consistent (without db (checkedTargets flags db targs)) := by
  obtain ⟨result, hresult, hok, herror⟩ := checkRemoval_spec handle flags hdb
    (mem_db_of_checkedTargets flags hdb htargs) hnodeps
  refine ⟨_, by rw [removePrepare, hresult]; rfl, fun remove h => ?_, fun lp h => ?_⟩
  · cases result with
    | error lp => cases h
    | ok remove₁ =>
      obtain ⟨hsub, hnil⟩ := hok remove₁ rfl
      have hsafe := consistent_of_check hconsistent hnil
      cases h
      split
      next hboth =>
        rw [Bool.and_eq_true] at hboth
        have hstrict : handle.nodepversion = false := by
          refine hversions.resolve_right ?_
          rw [hboth.1, hboth.2]
          simp
        exact ⟨fun q hq => (List.mem_append.1 hq).elim (hsub q) (mem_db_of_recursedepsRem hdb),
          consistent_recursedeps hdb hstrict hsafe⟩
      next => exact ⟨hsub, hsafe⟩
  · cases result with
    | ok remove₁ => cases h
    | error lp₁ =>
      intro hcons
      refine herror lp₁ rfl (checkdeps_of_consistent ?_)
      rw [afterwards_nil]
      exact hcons

/-- **A removal that is prepared breaks nothing.** In a database without unsatisfied dependencies the preparation
comes to an end; the packages that it ends up with can be removed, and where it refuses, the targets cannot. A
removal that cascades and recurses while versions are not checked is left out: it recurses by versions. -/
theorem removePrepare_consistent (hdb : (db.map Pkg.name).Nodup) (htargs : ∀ q ∈ targs, q ∈ db)
    (hconsistent : handle.Consistent db) (hnodeps : flags.nodeps = false)
    (hversions : handle.nodepversion = false ∨ flags.cascade = false ∨ flags.recurse = false) :
    ∃ result, removePrepare handle flags db targs = some result ∧
      (∀ remove, result = .ok remove → (∀ q ∈ remove, q ∈ db) ∧ handle.Consistent (without db remove)) ∧
      ∀ lp, result = .error lp → ¬ handle.Consistent (without db (checkedTargets flags db targs)) :=
  removePrepare_spec handle flags hdb htargs hconsistent hnodeps hversions

theorem removePrepare_orchard : ∃ result, removePrepare ⟨false, []⟩ ⟨false, true, false, true, false⟩ orchard
      (orchard.take 1) = some result ∧
    (∀ remove, result = .ok remove → (∀ q ∈ remove, q ∈ orchard) ∧
      (⟨false, []⟩ : DepHandle).Consistent (without orchard remove)) ∧
    ∀ lp, result = .error lp → ¬ (⟨false, []⟩ : DepHandle).Consistent
      (without orchard (checkedTargets ⟨false, true, false, true, false⟩ orchard (orchard.take 1))) :=
  removePrepare_consistent (by decide +kernel) (fun _ hq => List.mem_of_mem_take hq) (by decide +kernel) rfl (.inl rfl)

end Prepare

end Two09.Alpm
