import Two09.Alpm.Deps

/-!
# Checking dependencies

`alpm_checkdeps`: what a transaction would break, among the packages it brings and among those it leaves alone.
-/

namespace Two09.Alpm

open Lib

/-- What the dependency code asks of the handle: `no_dep_version`, and the provisions that count as installed. -/
structure DepHandle where
  nodepversion : Bool
  assumeinstalled : List Depend

/-- The dependency with the comparator that it is checked with. -/
def DepHandle.relax (handle : DepHandle) (depend : Depend) : Depend :=
  if handle.nodepversion then { depend with mod := .any } else depend

/-- `alpm_pkg_find` -/
def pkgFind (haystack : List Pkg) (needle : Bytes) : Option Pkg :=
  haystack.find? fun info => decide (info.nameHash = hashSdbm needle ∧ info.name = needle)

/-- `find_dep_satisfier` -/
def findDepSatisfier (pkgs : List Pkg) (dep : Depend) : Option Pkg := pkgs.find? fun pkg => depcmp pkg dep

/-- `alpm_depmissing_t` -/
structure DepMissing where
  target : Bytes
  depend : Depend
  causingpkg : Option Bytes

/-- A package of the transaction: it is not in `dblist`. -/
def touched (rem upgrade : List Pkg) (pkg : Pkg) : Bool :=
  (pkgFind rem pkg.name).isSome || (pkgFind upgrade pkg.name).isSome

/-- Neither of the two lists has a satisfier, and none is assumed to be installed. -/
def unsatisfied (handle : DepHandle) (upgrade dblist : List Pkg) (depend : Depend) : Bool :=
  (findDepSatisfier upgrade depend).isNone && (findDepSatisfier dblist depend).isNone &&
    !depcmpProvides depend handle.assumeinstalled

/-- `alpm_checkdeps` -/
def alpmCheckdeps (handle : DepHandle) (pkglist rem upgrade : List Pkg) (reversedeps : Bool) : List DepMissing :=
  let modified := pkglist.filter (touched rem upgrade)
  let dblist := pkglist.filter fun pkg => !touched rem upgrade pkg
  let missing := upgrade.flatMap fun tp => tp.depends.filterMap fun depend =>
    if unsatisfied handle upgrade dblist (handle.relax depend) then some ⟨tp.name, handle.relax depend, none⟩ else none
  let broken := dblist.flatMap fun lp => lp.depends.filterMap fun depend =>
    match findDepSatisfier modified (handle.relax depend) with
    | none => none
    | some causingpkg =>
      if unsatisfied handle upgrade dblist (handle.relax depend) then
        some ⟨lp.name, handle.relax depend, some causingpkg.name⟩
      else none
  missing ++ if reversedeps then broken else []

/-- The packages once the transaction is done. -/
def afterwards (pkglist rem upgrade : List Pkg) : List Pkg :=
  (pkglist.filter fun pkg => !touched rem upgrade pkg) ++ upgrade

/-- One of the packages satisfies the dependency, or it is assumed to be satisfied. -/
def DepHandle.Satisfied (handle : DepHandle) (pkgs : List Pkg) (depend : Depend) : Prop :=
  (∃ p ∈ pkgs, depcmp p (handle.relax depend) = true) ∨
    depcmpProvides (handle.relax depend) handle.assumeinstalled = true

/-- Every dependency of every package is satisfied. -/
def DepHandle.Consistent (handle : DepHandle) (pkgs : List Pkg) : Prop :=
  ∀ p ∈ pkgs, ∀ depend ∈ p.depends, handle.Satisfied pkgs depend

instance (handle : DepHandle) (pkgs : List Pkg) (depend : Depend) : Decidable (handle.Satisfied pkgs depend) :=
  inferInstanceAs (Decidable (_ ∨ _))

instance (handle : DepHandle) (pkgs : List Pkg) : Decidable (handle.Consistent pkgs) :=
  inferInstanceAs (Decidable (∀ p ∈ pkgs, _))

variable {handle : DepHandle} {pkgs pkglist rem upgrade dblist : List Pkg} {p q : Pkg} {dep : Depend} {name : Bytes}
  {m : DepMissing}

section Find

lemma isSome_pkgFind : (pkgFind pkgs name).isSome = true ↔ ∃ p ∈ pkgs, p.name = name := by
  simp only [pkgFind, List.find?_isSome, decide_eq_true_eq]
  exact exists_congr fun p => and_congr_right fun _ => ⟨And.right, fun h => ⟨by rw [p.hashed, h], h⟩⟩

lemma isSome_pkgFind_cons (p : Pkg) (pkgs : List Pkg) (name : Bytes) :
    (pkgFind (p :: pkgs) name).isSome = (decide (p.name = name) || (pkgFind pkgs name).isSome) := by
  rw [Bool.eq_iff_iff, Bool.or_eq_true, isSome_pkgFind, isSome_pkgFind, decide_eq_true_eq]
  exact List.exists_mem_cons_iff _ _ _

lemma of_pkgFind (h : pkgFind pkgs name = some p) : p ∈ pkgs ∧ p.name = name :=
  ⟨List.mem_of_find?_eq_some h, (of_decide_eq_true (List.find?_some (p := fun info : Pkg =>
    decide (info.nameHash = hashSdbm name ∧ info.name = name)) h)).2⟩

lemma isNone_findDepSatisfier : (findDepSatisfier pkgs dep).isNone = true ↔ ∀ p ∈ pkgs, depcmp p dep = false := by
  simp [findDepSatisfier]

lemma of_findDepSatisfier (h : findDepSatisfier pkgs dep = some p) : p ∈ pkgs ∧ depcmp p dep = true :=
  ⟨List.mem_of_find?_eq_some h, List.find?_some (p := fun pkg => depcmp pkg dep) h⟩

lemma touched_iff : touched rem upgrade p = true ↔ ∃ q ∈ rem ++ upgrade, q.name = p.name := by
  rw [touched, Bool.or_eq_true, isSome_pkgFind, isSome_pkgFind]
  simp [or_and_right, exists_or]

/-- The two lists together have no satisfier. -/
lemma unsatisfied_iff : unsatisfied handle upgrade dblist (handle.relax dep) = true ↔
    ¬ handle.Satisfied (dblist ++ upgrade) dep := by
  rw [unsatisfied, Bool.and_eq_true, Bool.and_eq_true, isNone_findDepSatisfier, isNone_findDepSatisfier,
    Bool.not_eq_true', DepHandle.Satisfied, not_or, not_exists, Bool.not_eq_true]
  refine and_congr_left fun _ => ⟨fun ⟨hup, hdb⟩ p ⟨hp, hsat⟩ => ?_, fun h => ⟨fun p hp => ?_, fun p hp => ?_⟩⟩
  · rcases List.mem_append.1 hp with hp | hp
    · rw [hdb p hp] at hsat; cases hsat
    · rw [hup p hp] at hsat; cases hsat
  · simpa [hp] using h p
  · simpa [hp] using h p

end Find

/-! ### What is reported -/

section Report

/-- **What is reported**: the dependencies of the new packages that nothing will satisfy, and those of the packages
left alone that something satisfied that goes. -/
theorem mem_alpmCheckdeps_iff : m ∈ alpmCheckdeps handle pkglist rem upgrade true ↔
    (∃ p ∈ upgrade, ∃ dep ∈ p.depends, ¬ handle.Satisfied (afterwards pkglist rem upgrade) dep ∧
      m = ⟨p.name, handle.relax dep, none⟩) ∨
    ∃ p ∈ pkglist, touched rem upgrade p = false ∧ ∃ dep ∈ p.depends, ∃ q,
      findDepSatisfier (pkglist.filter (touched rem upgrade)) (handle.relax dep) = some q ∧
      ¬ handle.Satisfied (afterwards pkglist rem upgrade) dep ∧ m = ⟨p.name, handle.relax dep, some q.name⟩ := by
  simp only [alpmCheckdeps, List.mem_append, if_true, List.mem_flatMap, List.mem_filterMap,
    List.mem_filter, Bool.not_eq_true', afterwards]
  refine or_congr ?_ ?_
  · refine exists_congr fun p => and_congr_right fun _ => exists_congr fun dep => and_congr_right fun _ => ?_
    rw [Option.ite_none_right_eq_some, Option.some_inj, unsatisfied_iff, eq_comm (a := m)]
  · refine exists_congr fun p => and_assoc.trans ?_
    refine and_congr_right fun _ => and_congr_right fun _ => exists_congr fun dep => and_congr_right fun _ => ?_
    cases findDepSatisfier (pkglist.filter (touched rem upgrade)) (handle.relax dep) with
    | none => simp
    | some q =>
      simp only [Option.some_inj, exists_eq_left']
      rw [Option.ite_none_right_eq_some, Option.some_inj, unsatisfied_iff, eq_comm (a := m)]

/-- A dependency that will be broken is reported: it was satisfied by a package that goes. -/
lemma consistent_of_checkdeps (h : handle.Consistent pkglist)
    (hnil : alpmCheckdeps handle pkglist rem upgrade true = []) :
    handle.Consistent (afterwards pkglist rem upgrade) := by
  rw [List.eq_nil_iff_forall_not_mem] at hnil
  intro p hp dep hdep
  by_contra hbroken
  rcases List.mem_append.1 hp with hp | hp
  · obtain ⟨hp, huntouched⟩ := List.mem_filter.1 hp
    have huntouched' : touched rem upgrade p = false := by simpa using huntouched
    rcases h p hp dep hdep with ⟨q, hq, hsat⟩ | hassumed
    · cases hfind : findDepSatisfier (pkglist.filter (touched rem upgrade)) (handle.relax dep) with
      | some c => exact hnil _ (mem_alpmCheckdeps_iff.2 (.inr ⟨p, hp, huntouched', dep, hdep, c, hfind, hbroken, rfl⟩))
      | none =>
        have hstays : touched rem upgrade q = false := by
          by_contra htouched
          have hnot := List.find?_eq_none.1 hfind q (List.mem_filter.2 ⟨hq, by simpa using htouched⟩)
          exact hnot hsat
        exact hbroken (.inl ⟨q, List.mem_append_left _ (List.mem_filter.2 ⟨hq, by simp [hstays]⟩), hsat⟩)
    · exact hbroken (.inr hassumed)
  · exact hnil _ (mem_alpmCheckdeps_iff.2 (.inl ⟨p, hp, dep, hdep, hbroken, rfl⟩))

lemma checkdeps_of_consistent (hafter : handle.Consistent (afterwards pkglist rem upgrade)) :
    alpmCheckdeps handle pkglist rem upgrade true = [] := by
  refine List.eq_nil_iff_forall_not_mem.2 fun m hm => ?_
  rcases mem_alpmCheckdeps_iff.1 hm with ⟨p, hp, dep, hdep, hnot, -⟩ | ⟨p, hp, huntouched, dep, hdep, q, -, hnot, -⟩
  · exact hnot (hafter p (List.mem_append_right _ hp) dep hdep)
  · exact hnot (hafter p (List.mem_append_left _ (List.mem_filter.2 ⟨hp, by simp [huntouched]⟩)) dep hdep)

/-- **Nothing is reported exactly if nothing will be broken**, where nothing was. -/
theorem alpmCheckdeps_eq_nil_iff (h : handle.Consistent pkglist) :
    alpmCheckdeps handle pkglist rem upgrade true = [] ↔ handle.Consistent (afterwards pkglist rem upgrade) :=
  ⟨consistent_of_checkdeps h, checkdeps_of_consistent⟩

/-- A dependency on a name, and a package of version 1. -/
def depOn (name : Bytes) : Depend := ⟨name, none, none, hashSdbm name, .any, hashSdbm_self name⟩

def pkgOf (name : Bytes) (depends : List Depend) (explicit : Bool) : Pkg :=
  ⟨0, name, [49], hashSdbm name, depends, [], [], [], name, explicit, hashSdbm_self name⟩

theorem alpmCheckdeps_two : alpmCheckdeps ⟨false, []⟩ [pkgOf [97] [depOn [98]] true, pkgOf [98] [] false]
      [pkgOf [98] [] false] [] true = [] ↔
    (⟨false, []⟩ : DepHandle).Consistent (afterwards [pkgOf [97] [depOn [98]] true, pkgOf [98] [] false]
      [pkgOf [98] [] false] []) :=
  alpmCheckdeps_eq_nil_iff (by decide +kernel)

end Report

end Two09.Alpm
