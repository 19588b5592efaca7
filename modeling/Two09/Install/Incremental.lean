import Two09.Gen.Readers
import Two09.Install.Concurrent

/-!
# What the imperative commands keep

`cmd_install`, `cmd_aur_build` and `cmd_remove` each make the packages of the new generation in their own way from
the manifest of the current one.
-/

namespace Two09.Install

open Two09.Lib Two09.Gen Two09.Store

/-! ### The lists that are committed -/

/-- The entry of a package that was built. -/
def builtEntry (t : Package × Added) : GenPkg :=
  ⟨t.1.name, t.1.version, some (storePath t.2.path), ascii "aur"⟩

/-- A command with what it has put into the store. -/
inductive Edit
  | install (targets : List (Package × Added))
  | aurBuild (names : List Bytes) (built : List (Package × Added))
  | remove (name : Bytes)

namespace Edit

/-- The packages that the command is about. -/
def touched : Edit → List Bytes
  | install targets => targets.map (·.1.name)
  | aurBuild names built => names ++ built.map (·.1.name)
  | remove name => [name]

/-- What it gives to `gen_db_commit` when `manifest.json` of the current generation has that text. -/
def committed (text : Bytes) : Edit → Option (List GenPkg)
  | install targets => some (targets.foldl mergeTarget (parsedPackages text))
  | aurBuild _ built => some (built.map builtEntry)
  | remove name =>
    let r := scannedOthers name text
    if r.1 then some r.2 else none

end Edit

/-! ### What is asked of them -/

/-- The packages that are not touched stay as they are, no others appear, and each name is there once. -/
structure Keeps (packages new : List GenPkg) (touched : List Bytes) : Prop where
  kept : ∀ p ∈ packages, p.name ∉ touched → p ∈ new
  given : ∀ p ∈ new, p.name ∉ touched → p ∈ packages
  once : (new.map (·.name)).Nodup

/-- The command is incremental on the manifest. -/
def Edit.Incremental (text : Bytes) (e : Edit) : Prop :=
  ∀ new, e.committed text = some new → Keeps (parsedPackages text) new e.touched

/-- The line scanner finds the other packages, each name once. -/
structure ScansOthers (text : Bytes) (name : Bytes) : Prop where
  same : ∀ p : GenPkg, p.name ≠ name → (p ∈ scannedPackages text ↔ p ∈ parsedPackages text)
  once : (((scannedPackages text).filter (·.name ≠ name)).map (·.name)).Nodup

/-- What the commands rely on. -/
def Edit.Safe (text : Bytes) : Edit → Prop
  | install _ => ((parsedPackages text).map (·.name)).Nodup
  | aurBuild names built =>
    (∀ p ∈ parsedPackages text, p.name ∈ names ++ built.map (·.1.name)) ∧ (built.map (·.1.name)).Nodup
  | remove name => (∃ p ∈ scannedPackages text, p.name = name) → ScansOthers text name

/-! ### Merging -/

section
variable {targets : List (Package × Added)} {t : Package × Added} {pkgs : List GenPkg} {text : Bytes}

lemma map_name_mergeTarget : (mergeTarget pkgs t).map (·.name) = (pkgs.map (·.name)).erase t.1.name ++ [t.1.name] := by
  have herase : (pkgs.eraseP (·.name = t.1.name)).map (·.name) = (pkgs.map (·.name)).erase t.1.name := by
    induction pkgs with
    | nil => rfl
    | cons p pkgs ih =>
      by_cases hp : p.name = t.1.name
      · rw [List.eraseP_cons_of_pos (by simpa using hp), List.map_cons, hp, List.erase_cons_head]
      · rw [List.eraseP_cons_of_neg (by simpa using hp), List.map_cons, List.map_cons, ih,
          List.erase_cons_tail (by simpa using hp)]
  rw [mergeTarget, List.map_append, herase]
  rfl

/-- A merge keeps names apart, and puts none apart. -/
lemma nodup_mergeTarget : ((mergeTarget pkgs t).map (·.name)).Nodup ↔ (pkgs.map (·.name)).Nodup := by
  rw [map_name_mergeTarget]
  by_cases hmem : t.1.name ∈ pkgs.map (·.name)
  · have hperm : ((pkgs.map (·.name)).erase t.1.name ++ [t.1.name]).Perm (pkgs.map (·.name)) :=
      (List.perm_append_singleton _ _).trans (List.perm_cons_erase hmem).symm
    exact hperm.nodup_iff
  · rw [List.erase_of_not_mem hmem, (List.perm_append_singleton _ _).nodup_iff, List.nodup_cons]
    exact and_iff_right hmem

lemma nodup_mergeTargets :
    ((targets.foldl mergeTarget pkgs).map (·.name)).Nodup ↔ (pkgs.map (·.name)).Nodup := by
  induction targets generalizing pkgs with
  | nil => exact Iff.rfl
  | cons t targets ih => rw [List.foldl_cons, ih, nodup_mergeTarget]

/-- **An install is incremental** exactly when no name is twice in the current generation. -/
lemma install_incremental_iff :
    (Edit.install targets).Incremental text ↔ (Edit.install targets).Safe text := by
  constructor
  · intro h
    exact nodup_mergeTargets.1 (h _ rfl).once
  · rintro h new hnew
    obtain rfl := Option.some.inj hnew
    refine ⟨fun p hp hname => ?_, fun p hp hname => ?_, nodup_mergeTargets.2 h⟩
    · obtain ⟨p', hp', hsame, rfl | ⟨t, ht, hname', -⟩⟩ := exists_mergeTargets targets hp
      · exact hp'
      · exact absurd (List.mem_map.2 ⟨t, ht, hname'.symm.trans hsame⟩) hname
    · rcases mem_mergeTargets hp with hp | ⟨t, ht, hname', -⟩
      · exact hp
      · exact absurd (List.mem_map.2 ⟨t, ht, hname'.symm⟩) hname

/-- **A build is incremental** exactly when it builds the whole of the generation anew. -/
lemma aurBuild_incremental_iff {names : List Bytes} :
    (Edit.aurBuild names targets).Incremental text ↔ (Edit.aurBuild names targets).Safe text := by
  have hnames : (targets.map builtEntry).map (·.name) = targets.map (·.1.name) := by
    rw [List.map_map]
    rfl
  have htouched : ∀ p ∈ targets.map builtEntry, p.name ∈ names ++ targets.map (·.1.name) := by
    intro p hp
    rw [← hnames]
    exact List.mem_append_right _ (List.mem_map_of_mem hp)
  constructor
  · intro h
    have hkeeps := h _ rfl
    refine ⟨fun p hp => ?_, hnames ▸ hkeeps.once⟩
    by_contra hname
    exact hname (htouched p (hkeeps.kept p hp hname))
  · rintro ⟨hall, honce⟩ new hnew
    obtain rfl := Option.some.inj hnew
    exact ⟨fun p hp hname => absurd (hall p hp) hname, fun p hp hname => absurd (htouched p hp) hname,
      hnames ▸ honce⟩

/-- **A removal is incremental** exactly when the line scanner reads the other packages. -/
lemma remove_incremental_iff {name : Bytes} :
    (Edit.remove name).Incremental text ↔ (Edit.remove name).Safe text := by
  have hcommitted : ∀ new, (Edit.remove name).committed text = some new ↔
      (∃ p ∈ scannedPackages text, p.name = name) ∧ new = (scannedPackages text).filter (·.name ≠ name) := by
    intro new
    show (if (scannedOthers name text).1 = true then some (scannedOthers name text).2 else none) = _ ↔ _
    rw [scannedOthers_eq]
    constructor
    · intro h
      split_ifs at h with hany
      exact ⟨by simpa using hany, (Option.some.inj h).symm⟩
    · rintro ⟨hfound, rfl⟩
      exact if_pos (by simpa using hfound)
  have hmem : ∀ p : GenPkg, p ∈ (scannedPackages text).filter (·.name ≠ name) ↔
      p ∈ scannedPackages text ∧ p.name ≠ name := by simp
  constructor
  · rintro h hfound
    have hkeeps := h _ ((hcommitted _).2 ⟨hfound, rfl⟩)
    refine ⟨fun p hname => ⟨fun hp => ?_, fun hp => ?_⟩, hkeeps.once⟩
    · exact hkeeps.given p ((hmem p).2 ⟨hp, hname⟩) (by simpa [Edit.touched] using hname)
    · exact ((hmem p).1 (hkeeps.kept p hp (by simpa [Edit.touched] using hname))).1
  · rintro h new hnew
    obtain ⟨hfound, rfl⟩ := (hcommitted new).1 hnew
    obtain ⟨hsame, honce⟩ := h hfound
    refine ⟨fun p hp hname => ?_, fun p hp hname => ?_, honce⟩
    · replace hname : p.name ≠ name := by simpa [Edit.touched] using hname
      exact (hmem p).2 ⟨(hsame p hname).2 hp, hname⟩
    · replace hname : p.name ≠ name := by simpa [Edit.touched] using hname
      exact (hsame p hname).1 ((hmem p).1 hp).1

end

/-- A manifest on which the readers agree is safe for a removal if no other name is twice in it. -/
theorem remove_safe_of_agree {text name : Bytes} {packages : List GenPkg} (h : Agree text packages)
    (hnodup : ((packages.filter (·.name ≠ name)).map (·.name)).Nodup) : (Edit.remove name).Safe text := by
  intro _
  refine ⟨fun p _ => ?_, ?_⟩
  · rw [h.scanned, h.parsed]
  · rwa [h.scanned]

/-- The build of `yay` on a machine with `hello`. -/
def buildYay : Edit :=
  .aurBuild [ascii "yay"] [(⟨ascii "yay", ascii "12", []⟩, ⟨⟨ascii "h-yay-12", by decide⟩, none⟩)]

end Two09.Install
