import Two09.Alpm.SortDeps

/-!
# Conflicts between packages

`check_conflict`: a package conflicts with the packages of other names that satisfy one of its conflicts. What is
reported is which packages conflict, by their names, once for each two.
-/

namespace Two09.Alpm

open Lib

/-- `alpm_conflict_t` -/
structure Conflict where
  package1 : Bytes
  package2 : Bytes
  package1Hash : UInt64
  package2Hash : UInt64
  reason : Depend
  hashed1 : package1Hash = hashSdbm package1
  hashed2 : package2Hash = hashSdbm package2

/-- `conflict_new` -/
def conflictNew (pkg1 pkg2 : Pkg) (reason : Depend) : Conflict :=
  ⟨pkg1.name, pkg2.name, pkg1.nameHash, pkg2.nameHash, reason, pkg1.hashed, pkg2.hashed⟩

/-- `conflict_isin` -/
def conflictIsin (needle : Conflict) (haystack : List Conflict) : Bool :=
  haystack.any fun conflict => decide (needle.package1Hash = conflict.package1Hash ∧
    needle.package2Hash = conflict.package2Hash ∧ needle.package1 = conflict.package1 ∧
    needle.package2 = conflict.package2)

/-- `add_conflict` -/
def addConflict (baddeps : List Conflict) (pkg1 pkg2 : Pkg) (reason : Depend) : List Conflict :=
  if conflictIsin (conflictNew pkg1 pkg2 reason) baddeps then baddeps
  else baddeps ++ [conflictNew pkg1 pkg2 reason]

/-- The innermost loop of `check_conflict`. -/
def checkAgainst (order : ℤ) (pkg1 : Pkg) (conflict : Depend) (baddeps : List Conflict) (pkg2 : Pkg) : List Conflict :=
  if pkg1.nameHash = pkg2.nameHash ∧ pkg1.name = pkg2.name then baddeps
  else if depcmp pkg2 conflict then
    if order ≥ 0 then addConflict baddeps pkg1 pkg2 conflict else addConflict baddeps pkg2 pkg1 conflict
  else baddeps

/-- `check_conflict` -/
def checkConflict (list1 list2 : List Pkg) (baddeps : List Conflict) (order : ℤ) : List Conflict :=
  list1.foldl (fun baddeps pkg1 => pkg1.conflicts.foldl (fun baddeps conflict =>
    list2.foldl (checkAgainst order pkg1 conflict) baddeps) baddeps) baddeps

/-- `_alpm_innerconflicts` -/
def innerconflicts (packages : List Pkg) : List Conflict := checkConflict packages packages [] 0

/-- `_alpm_outerconflicts` -/
def outerconflicts (db packages : List Pkg) : List Conflict :=
  let dblist := listDiff pkgCmp db packages
  checkConflict dblist packages (checkConflict packages dblist [] 1) (-1)

/-- One package has a conflict that the other, of another name, satisfies. -/
def Pkg.ConflictsWith (p q : Pkg) : Prop := p.name ≠ q.name ∧ ∃ conflict ∈ p.conflicts, depcmp q conflict = true

/-- No package conflicts with another one. -/
def ConflictFree (pkgs : List Pkg) : Prop := ∀ p ∈ pkgs, ∀ q ∈ pkgs, ¬ p.ConflictsWith q

instance (p q : Pkg) : Decidable (p.ConflictsWith q) := inferInstanceAs (Decidable (_ ∧ _))

instance (pkgs : List Pkg) : Decidable (ConflictFree pkgs) := inferInstanceAs (Decidable (∀ p ∈ pkgs, _))

/-- There is a conflict of these names in the list. -/
def Reported (baddeps : List Conflict) (name1 name2 : Bytes) : Prop :=
  ∃ conflict ∈ baddeps, conflict.package1 = name1 ∧ conflict.package2 = name2

variable {baddeps : List Conflict} {list1 list2 db packages : List Pkg} {p q pkg1 pkg2 : Pkg} {conflict reason : Depend}
  {name1 name2 : Bytes} {order : ℤ}

/-! ### What is reported -/

section Check

lemma conflictIsin_iff {needle : Conflict} :
    conflictIsin needle baddeps = true ↔ Reported baddeps needle.package1 needle.package2 := by
  rw [conflictIsin, List.any_eq_true]
  refine exists_congr fun c => and_congr_right fun _ => ?_
  rw [decide_eq_true_eq]
  refine ⟨fun ⟨_, _, h1, h2⟩ => ⟨h1.symm, h2.symm⟩, fun ⟨h1, h2⟩ => ⟨?_, ?_, h1.symm, h2.symm⟩⟩
  · rw [needle.hashed1, c.hashed1, h1]
  · rw [needle.hashed2, c.hashed2, h2]

lemma reported_addConflict : Reported (addConflict baddeps pkg1 pkg2 reason) name1 name2 ↔
    Reported baddeps name1 name2 ∨ pkg1.name = name1 ∧ pkg2.name = name2 := by
  unfold addConflict
  split
  next hin =>
    refine (or_iff_left_of_imp ?_).symm
    rintro ⟨rfl, rfl⟩
    exact conflictIsin_iff.1 hin
  next => simp only [Reported, List.mem_append, or_and_right, exists_or, List.mem_singleton, exists_eq_left, conflictNew]

/-- The order in which the names of a conflict are reported. -/
def Names (order : ℤ) (pkg1 pkg2 : Pkg) (name1 name2 : Bytes) : Prop :=
  if order ≥ 0 then pkg1.name = name1 ∧ pkg2.name = name2 else pkg2.name = name1 ∧ pkg1.name = name2

lemma reported_checkAgainst : Reported (checkAgainst order pkg1 conflict baddeps pkg2) name1 name2 ↔
    Reported baddeps name1 name2 ∨
      (pkg1.name ≠ pkg2.name ∧ depcmp pkg2 conflict = true) ∧ Names order pkg1 pkg2 name1 name2 := by
  unfold checkAgainst Names
  simp only [Pkg.sameName_iff]
  split
  next hname => exact (or_iff_left fun h => h.1.1 hname).symm
  next hname =>
    split
    next hsat =>
      split
      · exact reported_addConflict.trans (or_congr_right (and_iff_right ⟨hname, hsat⟩).symm)
      · exact reported_addConflict.trans (or_congr_right (and_iff_right ⟨hname, hsat⟩).symm)
    next hsat => exact (or_iff_left fun h => hsat h.1.2).symm

/-- A loop that reports more and more has reported, in the end, what one of its turns reports. -/
lemma reported_foldl {α : Type*} {f : List Conflict → α → List Conflict} (turn : α → Prop)
    (hf : ∀ baddeps a, Reported (f baddeps a) name1 name2 ↔ Reported baddeps name1 name2 ∨ turn a) (l : List α)
    (baddeps : List Conflict) :
    Reported (l.foldl f baddeps) name1 name2 ↔ Reported baddeps name1 name2 ∨ ∃ a ∈ l, turn a := by
  induction l generalizing baddeps with
  | nil => simp
  | cons a l ih => rw [List.foldl_cons, ih, hf, List.exists_mem_cons_iff, or_assoc]

lemma reported_checkConflict : Reported (checkConflict list1 list2 baddeps order) name1 name2 ↔
    Reported baddeps name1 name2 ∨ ∃ p ∈ list1, ∃ q ∈ list2, p.ConflictsWith q ∧ Names order p q name1 name2 := by
  unfold checkConflict
  rw [reported_foldl (fun p => ∃ conflict ∈ p.conflicts, ∃ q ∈ list2,
    (p.name ≠ q.name ∧ depcmp q conflict = true) ∧ Names order p q name1 name2)]
  · refine or_congr_right (exists_congr fun p => and_congr_right fun _ => ?_)
    unfold Pkg.ConflictsWith
    constructor
    · rintro ⟨c, hc, q, hq, ⟨hne, hsat⟩, hnames⟩
      exact ⟨q, hq, ⟨hne, c, hc, hsat⟩, hnames⟩
    · rintro ⟨q, hq, ⟨hne, c, hc, hsat⟩, hnames⟩
      exact ⟨c, hc, q, hq, ⟨hne, hsat⟩, hnames⟩
  · intro baddeps p
    exact reported_foldl (fun c => ∃ q ∈ list2, (p.name ≠ q.name ∧ depcmp q c = true) ∧ Names order p q name1 name2)
      (fun baddeps c => reported_foldl (fun q => (p.name ≠ q.name ∧ depcmp q c = true) ∧ Names order p q name1 name2)
        (fun _ _ => reported_checkAgainst) _ _) _ _

lemma reported_nil_iff : baddeps = [] ↔ ∀ name1 name2, ¬ Reported baddeps name1 name2 := by
  refine ⟨fun h name1 name2 ⟨c, hc, _⟩ => ?_, fun h => List.eq_nil_iff_forall_not_mem.2 fun c hc => ?_⟩
  · rw [h] at hc
    cases hc
  · exact h c.package1 c.package2 ⟨c, hc, rfl, rfl⟩

/-- Which packages of a list conflict. -/
lemma reported_innerconflicts : Reported (innerconflicts packages) name1 name2 ↔
    ∃ p ∈ packages, ∃ q ∈ packages, p.ConflictsWith q ∧ p.name = name1 ∧ q.name = name2 := by
  rw [innerconflicts, reported_checkConflict]
  refine (or_iff_right ?_).trans (by simp [Names])
  rintro ⟨c, hc, -⟩
  cases hc

lemma mem_dblist (hdb : (db.map Pkg.name).Nodup) :
    p ∈ listDiff pkgCmp db packages ↔ p ∈ db ∧ ∀ q ∈ packages, q.name ≠ p.name := by
  have hne : db.Pairwise fun p q => pkgCmp p q ≠ .eq :=
    (List.pairwise_map.1 hdb).imp fun {p q} h heq => h (pkgCmp_eq_iff.1 heq)
  rw [(listDiff_perm packages hne).mem_iff, List.mem_filter, List.all_eq_true]
  refine and_congr_right fun _ => forall₂_congr fun q _ => ?_
  rw [decide_eq_true_eq, Ne, pkgCmp_eq_iff, eq_comm]

/-- Which packages of a list conflict with the packages of a database that they do not replace, in both directions. -/
lemma reported_outerconflicts (hdb : (db.map Pkg.name).Nodup) : Reported (outerconflicts db packages) name1 name2 ↔
    ∃ p ∈ packages, ∃ q ∈ db, (∀ r ∈ packages, r.name ≠ q.name) ∧ (p.ConflictsWith q ∨ q.ConflictsWith p) ∧
      p.name = name1 ∧ q.name = name2 := by
  unfold outerconflicts
  simp only
  rw [reported_checkConflict, reported_checkConflict]
  have hnil : ¬ Reported [] name1 name2 := by
    rintro ⟨c, hc, -⟩
    cases hc
  simp only [hnil, false_or, mem_dblist hdb, Names]
  constructor
  · rintro (⟨p, hp, q, ⟨hq, hnew⟩, hconf, hnames⟩ | ⟨q, ⟨hq, hnew⟩, p, hp, hconf, hnames⟩)
    · exact ⟨p, hp, q, hq, hnew, .inl hconf, by simpa using hnames⟩
    · exact ⟨p, hp, q, hq, hnew, .inr hconf, by simpa using hnames⟩
  · rintro ⟨p, hp, q, hq, hnew, hconf | hconf, hnames⟩
    · exact .inl ⟨p, hp, q, ⟨hq, hnew⟩, hconf, by simpa using hnames⟩
    · exact .inr ⟨q, ⟨hq, hnew⟩, p, hp, hconf, by simpa using hnames⟩

lemma mem_afterwards {rem upgrade : List Pkg} : p ∈ afterwards db rem upgrade ↔
    p ∈ upgrade ∨ p ∈ db ∧ (∀ q ∈ rem, q.name ≠ p.name) ∧ ∀ q ∈ upgrade, q.name ≠ p.name := by
  rw [afterwards, List.mem_append, List.mem_filter, Bool.not_eq_true', ← Bool.not_eq_true, touched_iff, or_comm]
  refine or_congr_right (and_congr_right fun _ => ?_)
  simp only [List.mem_append, or_and_right, exists_or, not_or, not_exists, not_and]

/-- What is left without conflicts when two lists of packages come together. -/
lemma conflictFree_afterwards_iff {rem upgrade : List Pkg} (hfree : ConflictFree db) :
    ConflictFree (afterwards db rem upgrade) ↔ ConflictFree upgrade ∧ ∀ p ∈ upgrade, ∀ q ∈ db,
      (∀ r ∈ rem, r.name ≠ q.name) → (∀ r ∈ upgrade, r.name ≠ q.name) → ¬ p.ConflictsWith q ∧ ¬ q.ConflictsWith p := by
  constructor
  · refine fun h => ⟨fun p hp q hq => h p (mem_afterwards.2 (.inl hp)) q (mem_afterwards.2 (.inl hq)),
      fun p hp q hq hrem hup => ?_⟩
    have hq' := mem_afterwards.2 (.inr ⟨hq, hrem, hup⟩)
    exact ⟨h p (mem_afterwards.2 (.inl hp)) q hq', h q hq' p (mem_afterwards.2 (.inl hp))⟩
  · rintro ⟨hup, hacross⟩ p hp q hq
    rcases mem_afterwards.1 hp with hp | ⟨hpdb, hprem, hpup⟩ <;> rcases mem_afterwards.1 hq with hq | ⟨hqdb, hqrem, hqup⟩
    · exact hup p hp q hq
    · exact (hacross p hp q hqdb hqrem hqup).1
    · exact (hacross q hq p hpdb hprem hpup).2
    · exact hfree p hpdb q hqdb

/-- **No conflict is reported exactly if there is none**: not among the packages, nor with those of the database that
they do not replace. -/
theorem no_conflicts_iff (hdb : (db.map Pkg.name).Nodup) (hfree : ConflictFree db) :
    innerconflicts packages = [] ∧ outerconflicts db packages = [] ↔ ConflictFree (afterwards db [] packages) := by
  rw [conflictFree_afterwards_iff hfree, reported_nil_iff, reported_nil_iff]
  simp only [reported_innerconflicts, reported_outerconflicts hdb]
  refine and_congr ⟨fun h p hp q hq hconf => ?_, fun h name1 name2 => ?_⟩
    ⟨fun h p hp q hq _ hnew => not_or.1 fun hconf => ?_, fun h name1 name2 => ?_⟩
  · exact h _ _ ⟨p, hp, q, hq, hconf, rfl, rfl⟩
  · rintro ⟨p, hp, q, hq, hconf, -⟩
    exact h p hp q hq hconf
  · exact h _ _ ⟨p, hp, q, hq, hnew, hconf, rfl, rfl⟩
  · rintro ⟨p, hp, q, hq, hnew, hconf, -⟩
    exact not_or.2 (h p hp q hq (fun r hr => absurd hr List.not_mem_nil) hnew) hconf

/-- A package that conflicts with an installed one. -/
def rival : Pkg := { pkgOf [114] [] true with conflicts := [depOn [97]] }

theorem no_conflicts_rival :
    innerconflicts [rival] = [] ∧ outerconflicts [pkgOf [97] [] true] [rival] = [] ↔
      ConflictFree (afterwards [pkgOf [97] [] true] [] [rival]) :=
  no_conflicts_iff (by decide +kernel) (by decide +kernel)

end Check

end Two09.Alpm
