import Two09.Gen.Readers
import Two09.Lib.Delta

/-!
# Differences between generations

`write_diff`, which reads the parent's manifest and compares it with the packages in memory, and `cmd_diff`,
which reads both manifests. Each has its own loops; both find the exact differences between the versions.
-/

namespace Two09.Gen

open Two09.Lib

/-! ### Reading -/

/-- The elements of `"packages"`, none when there is no file, or not a manifest. -/
def manifestItems (manifest : Option Bytes) : List Json :=
  (manifest.bind fun text => (Json.parse text).bind fun root =>
    (root.getObjectItem (ascii "packages")).bind Json.items?).getD []

/-- A package of the parent, as `write_diff` reads it. -/
def parentPackage (item : Json) : Option GenPkg :=
  let field (key : String) : Option Bytes := (item.getObjectItem (ascii key)).bind Json.string?
  (field "name").map fun name =>
    { name := name
      version := (field "version").getD (ascii "?")
      storePath := none
      origin := ascii "repo" }

/-- What `write_diff` writes, for the manifest of the parent. -/
def writtenDiff (parentId : Nat) (manifest : Option Bytes) (packages : List GenPkg) : Diff :=
  mkDiff parentId (if 0 < parentId then (manifestItems manifest).filterMap parentPackage else []) packages

/-- `read_current_gen_packages`, with the manifests by id. -/
def readCurrentGenPackages (manifest : Int → Option Bytes) (id : Int) : List GenPkg :=
  if id ≤ 0 then [] else ((manifest id).map parsedPackages).getD []

/-! ### `cmd_diff` -/

/-- What `cmd_diff` prints. -/
inductive DiffLine
  | title (gen1 gen2 : Int)
  | addedHeader
  | added (name version origin : Bytes)
  | removedHeader
  | removed (name version origin : Bytes)
  | changedHeader
  | changed (name old new : Bytes)
  | noChanges
  deriving DecidableEq, Repr

inductive DiffError
  | invalidIds
  | neitherFound
  deriving DecidableEq, Repr

/-- One round of the first loop. A change, too, has the header printed. -/
def addedRound (pkgs1 : List GenPkg) (r : Bool × List DiffLine) (p2 : GenPkg) : Bool × List DiffLine :=
  match findPkg pkgs1 p2.name with
  | some p1 => if p1.version ≠ p2.version ∧ r.1 = false then (true, r.2 ++ [.addedHeader]) else r
  | none => (true, r.2 ++ (if r.1 then [] else [.addedHeader]) ++ [.added p2.name p2.version p2.origin])

/-- One round of the second loop. -/
def removedRound (pkgs2 : List GenPkg) (r : Bool × List DiffLine) (p1 : GenPkg) : Bool × List DiffLine :=
  match findPkg pkgs2 p1.name with
  | some _ => r
  | none => (true, r.2 ++ (if r.1 then [] else [.removedHeader]) ++ [.removed p1.name p1.version p1.origin])

/-- The package at which the inner loop of the third one stops. -/
def changedTo (pkgs2 : List GenPkg) (p1 : GenPkg) : Option GenPkg :=
  pkgs2.find? fun p2 => p1.name = p2.name ∧ p1.version ≠ p2.version

/-- One round of the third loop. -/
def changedRound (pkgs2 : List GenPkg) (r : Bool × List DiffLine) (p1 : GenPkg) : Bool × List DiffLine :=
  match changedTo pkgs2 p1 with
  | none => r
  | some p2 => (true, r.2 ++ (if r.1 then [] else [.changedHeader]) ++ [.changed p1.name p1.version p2.version])

/-- What is printed for two lists of packages. -/
def diffLines (gen1 gen2 : Int) (pkgs1 pkgs2 : List GenPkg) : List DiffLine :=
  let added := pkgs2.foldl (addedRound pkgs1) (false, [])
  let removed := pkgs1.foldl (removedRound pkgs2) (false, [])
  let changed := pkgs1.foldl (changedRound pkgs2) (false, [])
  .title gen1 gen2 :: added.2 ++ removed.2 ++ changed.2 ++
    if added.1 = false ∧ removed.1 = false ∧ changed.1 = false then [.noChanges] else []

/-- `cmd_diff`: what it prints, or the error. -/
def cmdDiff (manifest : Int → Option Bytes) (gen1 gen2 : Int) : Except DiffError (List DiffLine) :=
  if gen1 ≤ 0 ∨ gen2 ≤ 0 then .error .invalidIds
  else
    let pkgs1 := readCurrentGenPackages manifest gen1
    let pkgs2 := readCurrentGenPackages manifest gen2
    if pkgs1 = [] ∧ pkgs2 = [] then .error .neitherFound else .ok (diffLines gen1 gen2 pkgs1 pkgs2)

/-- The three sets that are reported. -/
def reportedDelta (lines : List DiffLine) : Delta Bytes Bytes where
  added := lines.filterMap fun | .added name version _ => some (name, version) | _ => none
  removed := lines.filterMap fun | .removed name version _ => some (name, version) | _ => none
  changed := lines.filterMap fun | .changed name old new => some (name, old, new) | _ => none

/-! ### What the lists mean -/

/-- The versions by name. -/
def versions (pkgs : List GenPkg) : Bytes → Option Bytes := keyedMap GenPkg.name GenPkg.version pkgs

/-- The lists of a `diff.json`. -/
def Diff.delta (d : Diff) : Delta Bytes Bytes := ⟨d.added, d.removed, d.changed⟩

/-- What a manifest says: which packages there are, each with its version. A missing one says that there
are none. -/
structure Says (manifest : Option Bytes) (pkgs : List GenPkg) : Prop where
  packages : (manifestItems manifest).filterMap parsedPackage = pkgs
  versions : ∀ item ∈ manifestItems manifest,
    ((item.getObjectItem (ascii "name")).bind Json.string?).isSome →
      ((item.getObjectItem (ascii "version")).bind Json.string?).isSome

section Exact
variable {P C : List GenPkg} {k v w : Bytes}

lemma findPkg_reverse_eq_none_iff : findPkg P.reverse k = none ↔ versions P k = none := by
  rw [versions, keyedMap_eq_none_iff, findPkg, List.find?_eq_none]
  simp

lemma findPkg_eq_none_iff : findPkg P k = none ↔ versions P k = none := by
  rw [versions, keyedMap, Option.map_eq_none_iff]
  rfl

lemma versions_eq_some_iff (hP : (P.map GenPkg.name).Nodup) :
    versions P k = some v ↔ ∃ p ∈ P, p.name = k ∧ p.version = v := keyedMap_eq_some_iff hP

lemma findPkg_reverse_eq_some_iff (hP : (P.map GenPkg.name).Nodup) {p : GenPkg} :
    findPkg P.reverse k = some p ↔ p ∈ P ∧ p.name = k := by
  have hnodup : (P.reverse.map GenPkg.name).Nodup := by
    rw [List.map_reverse]
    exact List.nodup_reverse.2 hP
  rw [findPkg, find?_key_eq_some_iff hnodup, List.mem_reverse]

/-- **The lists of `write_diff` are exact**, though the parent's packages stand in reverse. -/
lemma exact_mkDiff (hP : (P.map GenPkg.name).Nodup) (hC : (C.map GenPkg.name).Nodup) (parentId : Nat) :
    (mkDiff parentId P C).delta.Exact (versions P) (versions C) := by
  refine ⟨fun k v => ?_, fun k v => ?_, fun k v w => ?_⟩
  · rw [versions_eq_some_iff hC]
    simp only [Diff.delta, mkDiff, List.mem_map, List.mem_filter, Option.isNone_iff_eq_none,
      findPkg_reverse_eq_none_iff, Prod.mk.injEq]
    constructor
    · rintro ⟨p, ⟨hp, hnone⟩, rfl, rfl⟩
      exact ⟨hnone, p, hp, rfl, rfl⟩
    · rintro ⟨hnone, p, hp, rfl, rfl⟩
      exact ⟨p, ⟨hp, hnone⟩, rfl, rfl⟩
  · rw [versions_eq_some_iff hP]
    simp only [Diff.delta, mkDiff, List.mem_map, List.mem_filter, Option.isNone_iff_eq_none,
      findPkg_eq_none_iff, List.mem_reverse, Prod.mk.injEq]
    constructor
    · rintro ⟨p, ⟨hp, hnone⟩, rfl, rfl⟩
      exact ⟨⟨p, hp, rfl, rfl⟩, hnone⟩
    · rintro ⟨⟨p, hp, rfl, rfl⟩, hnone⟩
      exact ⟨p, ⟨hp, hnone⟩, rfl, rfl⟩
  · rw [versions_eq_some_iff hP, versions_eq_some_iff hC]
    simp only [Diff.delta, mkDiff, List.mem_filterMap]
    constructor
    · rintro ⟨p, hp, hout⟩
      cases hfind : findPkg P.reverse p.name with
      | none => simp [hfind] at hout
      | some pp =>
        obtain ⟨hpp, hname⟩ := (findPkg_reverse_eq_some_iff hP).1 hfind
        simp only [hfind] at hout
        split_ifs at hout with hsame
        obtain ⟨rfl, rfl, rfl⟩ : p.name = k ∧ pp.version = v ∧ p.version = w := by simpa using hout
        exact ⟨⟨pp, hpp, hname, rfl⟩, ⟨p, hp, rfl, rfl⟩, hsame⟩
    · rintro ⟨⟨pp, hpp, hname, rfl⟩, ⟨p, hp, rfl, rfl⟩, hne⟩
      refine ⟨p, hp, ?_⟩
      rw [(findPkg_reverse_eq_some_iff hP).2 ⟨hpp, hname⟩]
      exact if_neg hne

end Exact

/-! ### The loops of `cmd_diff` -/

section Loops
variable {f : Bool × List DiffLine → GenPkg → Bool × List DiffLine} {flag : GenPkg → Prop}
  {P C : List GenPkg} {line : DiffLine}

/-- A loop that sets its flag for some packages and prints a line for some. -/
lemma foldl_flag (hflag : ∀ r p, (f r p).1 = true ↔ r.1 = true ∨ flag p) (l : List GenPkg)
    (r : Bool × List DiffLine) : (l.foldl f r).1 = true ↔ r.1 = true ∨ ∃ p ∈ l, flag p := by
  induction l generalizing r with
  | nil => simp
  | cons p l ih =>
    rw [List.foldl_cons, ih, hflag]
    simp [or_assoc]

lemma mem_foldl {emits : GenPkg → Prop} (hmem : ∀ r p, line ∈ (f r p).2 ↔ line ∈ r.2 ∨ emits p)
    (l : List GenPkg) (r : Bool × List DiffLine) :
    line ∈ (l.foldl f r).2 ↔ line ∈ r.2 ∨ ∃ p ∈ l, emits p := by
  induction l generalizing r with
  | nil => simp
  | cons p l ih =>
    rw [List.foldl_cons, ih, hmem]
    simp [or_assoc]

lemma addedRound_flag (r : Bool × List DiffLine) (p2 : GenPkg) : (addedRound P r p2).1 = true ↔
    r.1 = true ∨ ∀ p1, findPkg P p2.name = some p1 → p1.version ≠ p2.version := by
  unfold addedRound
  cases findPkg P p2.name with
  | none => simp
  | some p1 =>
    simp only [Option.some.injEq, forall_eq']
    split_ifs with h
    · simp [h.1]
    · have h' : p1.version ≠ p2.version → r.1 = true := by simpa using h
      tauto

lemma mem_addedRound (hline : line ≠ .addedHeader) (r : Bool × List DiffLine) (p2 : GenPkg) :
    line ∈ (addedRound P r p2).2 ↔
      line ∈ r.2 ∨ findPkg P p2.name = none ∧ line = .added p2.name p2.version p2.origin := by
  unfold addedRound
  cases findPkg P p2.name with
  | none =>
    have hheader : line ∉ (if r.1 then [] else [DiffLine.addedHeader]) := by
      split_ifs <;> simp [hline]
    simp [hheader]
  | some p1 =>
    show line ∈ (if _ then (true, r.2 ++ [DiffLine.addedHeader]) else r).2 ↔ _
    split_ifs <;> simp [hline]

lemma removedRound_flag (r : Bool × List DiffLine) (p1 : GenPkg) :
    (removedRound C r p1).1 = true ↔ r.1 = true ∨ findPkg C p1.name = none := by
  unfold removedRound
  cases findPkg C p1.name <;> simp

lemma mem_removedRound (hline : line ≠ .removedHeader) (r : Bool × List DiffLine) (p1 : GenPkg) :
    line ∈ (removedRound C r p1).2 ↔
      line ∈ r.2 ∨ findPkg C p1.name = none ∧ line = .removed p1.name p1.version p1.origin := by
  unfold removedRound
  cases findPkg C p1.name with
  | none =>
    have hheader : line ∉ (if r.1 then [] else [DiffLine.removedHeader]) := by
      split_ifs <;> simp [hline]
    simp [hheader]
  | some p2 => simp

lemma changedRound_flag (r : Bool × List DiffLine) (p1 : GenPkg) :
    (changedRound C r p1).1 = true ↔ r.1 = true ∨ ∃ p2, changedTo C p1 = some p2 := by
  unfold changedRound
  cases changedTo C p1 <;> simp

lemma mem_changedRound (hline : line ≠ .changedHeader) (r : Bool × List DiffLine) (p1 : GenPkg) :
    line ∈ (changedRound C r p1).2 ↔ line ∈ r.2 ∨
      ∃ p2, changedTo C p1 = some p2 ∧ line = .changed p1.name p1.version p2.version := by
  unfold changedRound
  cases changedTo C p1 with
  | none => simp
  | some p2 =>
    have hheader : line ∉ (if r.1 then [] else [DiffLine.changedHeader]) := by
      split_ifs <;> simp [hline]
    simp [hheader]

/-- With unique names the inner loop stops at the package of the name, if its version is another. -/
lemma changedTo_eq_some_iff (hC : (C.map GenPkg.name).Nodup) {p1 p2 : GenPkg} :
    changedTo C p1 = some p2 ↔ p2 ∈ C ∧ p2.name = p1.name ∧ p1.version ≠ p2.version := by
  constructor
  · intro h
    have hkind := List.find?_some h
    simp only [decide_eq_true_eq] at hkind
    exact ⟨List.mem_of_find?_eq_some h, hkind.1.symm, hkind.2⟩
  · rintro ⟨hp2, hname, hne⟩
    cases hfind : changedTo C p1 with
    | none =>
      have hno := List.find?_eq_none.1 hfind p2 hp2
      simp [hname, hne] at hno
    | some q =>
      have hkind := List.find?_some hfind
      simp only [decide_eq_true_eq] at hkind
      have hq := List.mem_of_find?_eq_some hfind
      rw [List.inj_on_of_nodup_map hC hq hp2 (hkind.1.symm.trans hname.symm)]

end Loops

/-! ### The whole of `cmd_diff` -/

section Report
variable {P C : List GenPkg} {gen1 gen2 : Int} {k v w : Bytes} {line : DiffLine}

/-- That no loop sets its flag. -/
def Unchanged (P C : List GenPkg) : Prop :=
  (∀ p ∈ C, ∃ q, findPkg P p.name = some q ∧ q.version = p.version) ∧
    (∀ p ∈ P, findPkg C p.name ≠ none) ∧ ∀ p ∈ P, changedTo C p = none

/-- The lines, the headers apart. -/
lemma mem_diffLines (hadd : line ≠ .addedHeader) (hrem : line ≠ .removedHeader)
    (hch : line ≠ .changedHeader) : line ∈ diffLines gen1 gen2 P C ↔
      line = .title gen1 gen2 ∨
      (∃ p ∈ C, findPkg P p.name = none ∧ line = .added p.name p.version p.origin) ∨
      (∃ p ∈ P, findPkg C p.name = none ∧ line = .removed p.name p.version p.origin) ∨
      (∃ p ∈ P, ∃ q, changedTo C p = some q ∧ line = .changed p.name p.version q.version) ∨
      line = .noChanges ∧ Unchanged P C := by
  have hadded := mem_foldl (mem_addedRound (P := P) hadd) C (false, [])
  have hremoved := mem_foldl (mem_removedRound (C := C) hrem) P (false, [])
  have hchanged := mem_foldl (mem_changedRound (C := C) hch) P (false, [])
  have hquiet : ((C.foldl (addedRound P) (false, [])).1 = false ∧
      (P.foldl (removedRound C) (false, [])).1 = false ∧
      (P.foldl (changedRound C) (false, [])).1 = false) ↔ Unchanged P C := by
    simp only [← Bool.not_eq_true, foldl_flag addedRound_flag, foldl_flag removedRound_flag,
      foldl_flag changedRound_flag, Unchanged]
    simp [Option.eq_none_iff_forall_ne_some]
  have hlast : line ∈ (if (C.foldl (addedRound P) (false, [])).1 = false ∧
      (P.foldl (removedRound C) (false, [])).1 = false ∧
      (P.foldl (changedRound C) (false, [])).1 = false then [DiffLine.noChanges] else []) ↔
      line = .noChanges ∧ Unchanged P C := by
    split_ifs with h
    · simp [hquiet.1 h]
    · have hnot : ¬ Unchanged P C := fun hquiet' => h (hquiet.2 hquiet')
      simp [hnot]
  unfold diffLines
  simp only [List.cons_append, List.mem_cons, List.mem_append, hadded, hremoved, hchanged, hlast,
    List.not_mem_nil, false_or, or_assoc]

lemma added_mem_diffLines {name version origin : Bytes} :
    DiffLine.added name version origin ∈ diffLines gen1 gen2 P C ↔
      ∃ p ∈ C, findPkg P p.name = none ∧ name = p.name ∧ version = p.version ∧ origin = p.origin := by
  rw [mem_diffLines (by simp) (by simp) (by simp)]
  simp

lemma removed_mem_diffLines {name version origin : Bytes} :
    DiffLine.removed name version origin ∈ diffLines gen1 gen2 P C ↔
      ∃ p ∈ P, findPkg C p.name = none ∧ name = p.name ∧ version = p.version ∧ origin = p.origin := by
  rw [mem_diffLines (by simp) (by simp) (by simp)]
  simp

lemma changed_mem_diffLines {name before after : Bytes} :
    DiffLine.changed name before after ∈ diffLines gen1 gen2 P C ↔
      ∃ p ∈ P, ∃ q, changedTo C p = some q ∧ name = p.name ∧ before = p.version ∧ after = q.version := by
  rw [mem_diffLines (by simp) (by simp) (by simp)]
  simp

/-- **The sets that `cmd_diff` reports are exact.** -/
lemma exact_diffLines (hP : (P.map GenPkg.name).Nodup) (hC : (C.map GenPkg.name).Nodup) :
    (reportedDelta (diffLines gen1 gen2 P C)).Exact (versions P) (versions C) := by
  refine ⟨fun k v => ?_, fun k v => ?_, fun k v w => ?_⟩
  · rw [versions_eq_some_iff hC, reportedDelta, List.mem_filterMap]
    constructor
    · rintro ⟨line, hline, hout⟩
      cases line <;> simp only [Option.some.injEq, Prod.mk.injEq, reduceCtorEq] at hout
      obtain ⟨rfl, rfl⟩ := hout
      obtain ⟨p, hp, hnone, rfl, rfl, -⟩ := added_mem_diffLines.1 hline
      exact ⟨findPkg_eq_none_iff.1 hnone, p, hp, rfl, rfl⟩
    · rintro ⟨hnone, p, hp, rfl, rfl⟩
      refine ⟨.added p.name p.version p.origin, ?_, rfl⟩
      exact added_mem_diffLines.2 ⟨p, hp, findPkg_eq_none_iff.2 hnone, rfl, rfl, rfl⟩
  · rw [versions_eq_some_iff hP, reportedDelta, List.mem_filterMap]
    constructor
    · rintro ⟨line, hline, hout⟩
      cases line <;> simp only [Option.some.injEq, Prod.mk.injEq, reduceCtorEq] at hout
      obtain ⟨rfl, rfl⟩ := hout
      obtain ⟨p, hp, hnone, rfl, rfl, -⟩ := removed_mem_diffLines.1 hline
      exact ⟨⟨p, hp, rfl, rfl⟩, findPkg_eq_none_iff.1 hnone⟩
    · rintro ⟨⟨p, hp, rfl, rfl⟩, hnone⟩
      refine ⟨.removed p.name p.version p.origin, ?_, rfl⟩
      exact removed_mem_diffLines.2 ⟨p, hp, findPkg_eq_none_iff.2 hnone, rfl, rfl, rfl⟩
  · rw [versions_eq_some_iff hP, versions_eq_some_iff hC, reportedDelta, List.mem_filterMap]
    constructor
    · rintro ⟨line, hline, hout⟩
      cases line <;> simp only [Option.some.injEq, Prod.mk.injEq, reduceCtorEq] at hout
      obtain ⟨rfl, rfl, rfl⟩ := hout
      obtain ⟨p, hp, q, hstop, rfl, rfl, rfl⟩ := changed_mem_diffLines.1 hline
      obtain ⟨hq, hname, hne⟩ := (changedTo_eq_some_iff hC).1 hstop
      exact ⟨⟨p, hp, rfl, rfl⟩, ⟨q, hq, hname, rfl⟩, hne⟩
    · rintro ⟨⟨p, hp, rfl, rfl⟩, ⟨q, hq, hname, rfl⟩, hne⟩
      refine ⟨.changed p.name p.version q.version, ?_, rfl⟩
      exact changed_mem_diffLines.2 ⟨p, hp, q, (changedTo_eq_some_iff hC).2 ⟨hq, hname, hne⟩, rfl, rfl, rfl⟩

/-- The flags are set when there is a difference, the first one by a change, too. -/
lemma unchanged_iff (hP : (P.map GenPkg.name).Nodup) (hC : (C.map GenPkg.name).Nodup) :
    Unchanged P C ↔ versions P = versions C := by
  constructor
  · rintro ⟨hall, hkept, -⟩
    funext k
    cases hk : versions C k with
    | some v =>
      obtain ⟨p, hp, rfl, rfl⟩ := (versions_eq_some_iff hC).1 hk
      obtain ⟨q, hq, hv⟩ := hall p hp
      obtain ⟨hqP, hname⟩ := (find?_key_eq_some_iff hP).1 hq
      exact (versions_eq_some_iff hP).2 ⟨q, hqP, hname, hv⟩
    | none =>
      by_contra hne
      obtain ⟨v, hv⟩ := Option.ne_none_iff_exists'.1 hne
      obtain ⟨p, hp, rfl, -⟩ := (versions_eq_some_iff hP).1 hv
      exact hkept p hp (findPkg_eq_none_iff.2 hk)
  · intro hsame
    refine ⟨fun p hp => ?_, fun p hp hnone => ?_, fun p hp => ?_⟩
    · have hv := (versions_eq_some_iff hC).2 ⟨p, hp, rfl, rfl⟩
      obtain ⟨q, hq, hname, hver⟩ := (versions_eq_some_iff hP).1 (hsame ▸ hv)
      exact ⟨q, (find?_key_eq_some_iff hP).2 ⟨hq, hname⟩, hver⟩
    · have hv := (versions_eq_some_iff hP).2 ⟨p, hp, rfl, rfl⟩
      rw [hsame, findPkg_eq_none_iff.1 hnone] at hv
      cases hv
    · refine Option.eq_none_iff_forall_ne_some.2 fun q hq => ?_
      obtain ⟨hqC, hname, hne⟩ := (changedTo_eq_some_iff hC).1 hq
      have hp' := (versions_eq_some_iff hP).2 ⟨p, hp, rfl, rfl⟩
      have hq' := (versions_eq_some_iff hC).2 ⟨q, hqC, hname, rfl⟩
      rw [hsame] at hp'
      exact hne (Option.some.inj (hp'.symm.trans hq'))

lemma noChanges_iff (hP : (P.map GenPkg.name).Nodup) (hC : (C.map GenPkg.name).Nodup) :
    DiffLine.noChanges ∈ diffLines gen1 gen2 P C ↔ versions P = versions C := by
  rw [mem_diffLines (by simp) (by simp) (by simp), ← unchanged_iff hP hC]
  simp

end Report

/-! ### Manifests -/

section Manifests
variable {manifest : Option Bytes} {P C : List GenPkg}

lemma parsedPackages_eq (text : Bytes) :
    parsedPackages text = (manifestItems (some text)).filterMap parsedPackage := by
  unfold parsedPackages manifestItems
  rw [Option.bind_some]
  cases (Json.parse text).bind fun root => (root.getObjectItem (ascii "packages")).bind Json.items? <;> rfl

/-- What `write_diff` keeps of a package of the parent. -/
def asParent (p : GenPkg) : GenPkg := ⟨p.name, p.version, none, ascii "repo"⟩

/-- `write_diff` reads the names and versions that the manifest says. -/
lemma Says.parentPackages (h : Says manifest P) :
    (manifestItems manifest).filterMap parentPackage = P.map asParent := by
  rw [← h.packages, List.map_filterMap]
  refine List.filterMap_congr fun item hitem => ?_
  unfold parentPackage parsedPackage
  cases hname : (item.getObjectItem (ascii "name")).bind Json.string? with
  | none => simp [hname]
  | some name =>
    obtain ⟨version, hversion⟩ := Option.isSome_iff_exists.1 (h.versions item hitem (by rw [hname]; rfl))
    simp [hname, hversion, asParent]

lemma Says.readCurrent {manifests : Int → Option Bytes} {id : Int} (h : Says (manifests id) P)
    (hid : 0 < id) : readCurrentGenPackages manifests id = P := by
  rw [readCurrentGenPackages, if_neg (by omega), ← h.packages]
  cases manifests id with
  | none => rfl
  | some text => exact parsedPackages_eq text

/-- A record that was written has its version. -/
lemma says_of_items {text : Bytes} {fields : GenPkg → (Bytes × Bytes) × List (Bytes × Bytes)}
    (hparse : (Json.parse text).bind (fun root =>
      (root.getObjectItem (ascii "packages")).bind Json.items?) =
        some (P.map fun p => recordJson (fields p)))
    (hfields : ∀ p ∈ P, parsedPackage (recordJson (fields p)) = some p)
    (hversion : ∀ p ∈ P, (recordJson (fields p)).getObjectItem (ascii "version") =
      some (.string p.version)) : Says (some text) P := by
  have hitems : manifestItems (some text) = P.map fun p => recordJson (fields p) := by
    rw [manifestItems, Option.bind_some, hparse]
    rfl
  refine ⟨?_, fun item hitem _ => ?_⟩
  · rw [← parsedPackages_eq]
    exact (parsed_of_items hparse hfields).1
  · rw [hitems] at hitem
    obtain ⟨p, hp, rfl⟩ := List.mem_map.1 hitem
    rw [hversion p hp]
    rfl

/-- **What `write_manifest` writes says the packages.** -/
lemma says_written (h : ∀ p ∈ P, CleanPkg p) (id timestamp : Nat) :
    Says (some (writtenManifest id timestamp P)) P := by
  obtain ⟨a, b, hparse⟩ := parse_written h id timestamp
  refine says_of_items (by rw [hparse]; rfl) (fun p hp => ?_) fun p hp => rfl
  exact parsedPackage_record (manifestFields_of (h p hp)) (keys_manifestFields p)

/-- **And so does what `cmd_apply` writes**, when it can be parsed. -/
lemma says_applied (h : ∀ p ∈ P, CleanPkg p) {config : Nix.Tree}
    (hnest : config.nesting < Json.nestingLimit) :
    Says (some (appliedManifest (Nix.nixToJson config) P)) (P.map withPath) := by
  have hwrites := writes_withPath h
  obtain ⟨a, b, hparse⟩ := parse_applied hwrites hnest
  rw [← appliedManifest_withPath]
  refine says_of_items (by rw [hparse]; rfl) (fun q hq => ?_) fun q hq => rfl
  exact parsedPackage_record (hwrites.given q hq).1 (keys_applyFields q)

end Manifests

/-! ### The differences of two generations -/

/-- **A generation's diff is exact.** What `write_diff` writes leads from the versions of the parent, which
may be missing, to those of the child, and `cmd_diff` reports the same. -/
theorem diff_exact (parentId : Nat) (parent : Option Bytes) (P C : List GenPkg)
    (hmanifest : Says (if 0 < parentId then parent else none) P)
    (hP : (P.map GenPkg.name).Nodup) (hC : (C.map GenPkg.name).Nodup) :
    (writtenDiff parentId parent C).delta.Disjoint ∧
    (writtenDiff parentId parent C).delta.apply (versions P) = versions C ∧
    (writtenDiff parentId parent C).total = {name | versions C name ≠ none}.ncard ∧
    ∀ (manifest : Int → Option Bytes) (gen1 gen2 : Int), 0 < gen1 → 0 < gen2 →
      Says (manifest gen1) P → Says (manifest gen2) C → P ≠ [] ∨ C ≠ [] →
      ∃ lines, cmdDiff manifest gen1 gen2 = .ok lines ∧
        (reportedDelta lines).Same (writtenDiff parentId parent C).delta ∧
        (DiffLine.noChanges ∈ lines ↔ versions P = versions C) := by
  have hread : (if 0 < parentId then (manifestItems parent).filterMap parentPackage else []) =
      P.map asParent := by
    split_ifs at hmanifest ⊢ with hid
    · exact hmanifest.parentPackages
    · obtain rfl : [] = P := hmanifest.packages
      rfl
  have hversions : versions (P.map asParent) = versions P :=
    keyedMap_map (f := asParent) (fun _ => rfl) (fun _ => rfl) P
  have hnames : ((P.map asParent).map GenPkg.name).Nodup := by
    rw [List.map_map]
    exact hP
  have hexact : (writtenDiff parentId parent C).delta.Exact (versions P) (versions C) := by
    rw [writtenDiff, hread, ← hversions]
    exact exact_mkDiff hnames hC parentId
  refine ⟨hexact.disjoint, hexact.apply_eq, (ncard_keyedMap hC).symm, ?_⟩
  intro manifest gen1 gen2 hgen1 hgen2 hmanifest1 hmanifest2 hsome
  refine ⟨diffLines gen1 gen2 P C, ?_, (exact_diffLines hP hC).same hexact, noChanges_iff hP hC⟩
  have hnot : ¬ (P = [] ∧ C = []) := by
    rintro ⟨rfl, rfl⟩
    simp at hsome
  rw [cmdDiff, if_neg (by omega), hmanifest1.readCurrent hgen1, hmanifest2.readCurrent hgen2]
  exact if_neg hnot

/-- A package that was updated, and one that is new. -/
theorem diff_exact_update :
    (writtenDiff 1 (some (writtenManifest 1 0 [⟨ascii "a", ascii "1", none, ascii "repo"⟩]))
      [⟨ascii "a", ascii "2", none, ascii "repo"⟩, ⟨ascii "b", ascii "1", none, ascii "aur"⟩]).delta.apply
        (versions [⟨ascii "a", ascii "1", none, ascii "repo"⟩]) =
      versions [⟨ascii "a", ascii "2", none, ascii "repo"⟩, ⟨ascii "b", ascii "1", none, ascii "aur"⟩] := by
  refine (diff_exact 1 _ _ _ (says_written ?_ 1 0) (by decide) (by decide)).2.1
  exact List.forall_mem_singleton.2 ⟨clean_ascii (by decide), clean_ascii (by decide),
    fun path hpath => absurd hpath (by simp), clean_ascii (by decide)⟩

end Two09.Gen
