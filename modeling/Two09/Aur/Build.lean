import Two09.Aur.PkgInfo

/-!
# What a build returns

`aur_build` finds the package that was built by listing the directory afterwards: whatever is listed first. That
it is one that the build made depends on what was there before, and on what else was made.
-/

namespace Two09.Aur

open Two09.Lib

/-! ### Files -/

/-- A package as `makepkg` makes it, with its `.PKGINFO`. -/
structure Made where
  info : PkgInfo
  readable : Bool

/-- What is at a path: whether `access` lets it be read, and the `.PKGINFO` that `bsdtar` finds in it. -/
structure Seen where
  readable : Bool
  pkginfo : Option Bytes

def Made.seen (pkg : Made) : Seen := ⟨pkg.readable, some pkg.info.text⟩

/-- How `find` lists a directory: all that is in it, in some order. -/
structure Listing (files : Bytes → Option Seen) (dir : Bytes) where
  names : List Bytes
  nodup : names.Nodup
  complete : ∀ name, name ∈ names ↔ name ≠ [] ∧ 47 ∉ name ∧ (files (dir ++ 47 :: name)).isSome

/-! ### The search -/

/-- The names that `find` looks for. -/
def isPackage (name : Bytes) : Bool :=
  (ascii ".pkg.tar.zst").isSuffixOf name || (ascii ".pkg.tar.xz").isSuffixOf name ||
    (ascii ".pkg.tar.gz").isSuffixOf name

/-- What `find` comes by, with the name of each: the directory itself first. -/
def visited (base dir : Bytes) (names : List Bytes) : List (Bytes × Bytes) :=
  (base, dir) :: names.map fun name => (name, dir ++ 47 :: name)

/-- What `fgets` reads of a path that `find` prints, without the newline. -/
def printed (path : Bytes) : Bytes := (path.takeWhile (· ≠ 10)).take 4095

/-- The first path that is printed, if it can be read. -/
def firstPackage (files : Bytes → Option Seen) (base dir : Bytes) (names : List Bytes) : Option Bytes :=
  match (visited base dir names).find? fun entry => isPackage entry.1 with
  | none => none
  | some entry => if (files (printed entry.2)).any Seen.readable then some (printed entry.2) else none

/-- `find_built_pkg` -/
def findBuiltPkg := firstPackage

/-- `find_built_pkg_in`, which has the names in parentheses; as there is no action, that is the same. -/
def findBuiltPkgIn := firstPackage

/-! ### The build -/

/-- The fields of `build_config_t` that decide between a chroot and a direct build. -/
structure BuildConfig where
  useChroot : Int
  chroot : Int

/-- What a call of `aur_build` meets: the settings, how far it gets, what was at each path before, and the
packages that the build makes. -/
structure Attempt where
  pkgName : Bytes
  cloneDir : Bytes
  destDir : Bytes
  config : Option BuildConfig
  chrootDefault : Bool
  cloned : Bool
  keysResolved : Bool
  chrootReady : Bool
  forked : Bool
  made : Bool
  before : Bytes → Option Seen
  creates : Bytes → Option Made

/-- `build_result_t` -/
structure BuildResult where
  pkgName : Bytes
  pkgVersion : Option Bytes
  pkgPath : Option Bytes
  success : Bool
  errorMsg : Option Bytes

namespace Attempt

variable (a : Attempt)

/-- What is at each path after the build. -/
def after (path : Bytes) : Option Seen :=
  match a.creates path with
  | some pkg => some pkg.seen
  | none => a.before path

/-- The setting of the caller, else that of `extra.nix`; and the legacy field. -/
def useChroot : Bool :=
  (match a.config with
    | some config => if config.useChroot > 0 then true else if config.useChroot < 0 then false else a.chrootDefault
    | none => a.chrootDefault) || a.config.any fun config => config.chroot > 0

def failure (msg : String) : BuildResult := ⟨a.pkgName, none, none, false, some (ascii msg)⟩

/-- The name and the version in the file at a path, as both parsers leave them. -/
def fields (path : Bytes) : Option Bytes × Option Bytes :=
  match (a.after path).bind Seen.pkginfo with
  | some text => parsePkginfoFromPkg text
  | none => (none, none)

/-- The result for the package at a path. -/
def built (path : Bytes) (found : Option Bytes × Option Bytes) : BuildResult :=
  ⟨found.1.getD a.pkgName, some (found.2.getD (ascii "unknown")), some path, true, none⟩

variable (names : Listing a.after a.cloneDir) (destNames : Listing a.after a.destDir)

/-- `chroot_build`: the path, and what the file says. -/
def chrootBuild : Option (Bytes × (Option Bytes × Option Bytes)) :=
  if a.chrootReady ∧ a.made then
    match findBuiltPkgIn a.after a.pkgName a.cloneDir names.names with
    | some path => some (path, a.fields path)
    | none =>
      match findBuiltPkgIn a.after (ascii "dest") a.destDir destNames.names with
      | some path => some (path, a.fields path)
      | none => none
  else none

/-- `aur_build` -/
def aurBuild : BuildResult :=
  if ¬a.cloned then a.failure "PKGBUILD not cloned - call aur_clone first"
  else if ¬a.keysResolved then
    a.failure "PGP key import declined or failed; build would fail at makepkg --verifysource"
  else if a.useChroot then
    match a.chrootBuild names destNames with
    | some (path, found) => a.built path found
    | none => a.failure "chroot build failed"
  else if ¬a.forked then a.failure "fork failed"
  else if ¬a.made then a.failure "makepkg failed"
  else
    match findBuiltPkg a.after a.pkgName a.cloneDir names.names with
    | some path => a.built path (a.fields path)
    | none => a.failure "built package not found after makepkg"

/-! ### What it is for -/

/-- The result is a package that the build made, with its name and version, and the package that was asked for
if one of that name was made. -/
def Delivers (r : BuildResult) : Prop :=
  ∃ path pkg, r.pkgPath = some path ∧ a.creates path = some pkg ∧ r.pkgName = pkg.info.name ∧
    r.pkgVersion = some pkg.info.version ∧
    ((∃ path' pkg', a.creates path' = some pkg' ∧ pkg'.info.name = a.pkgName) → r.pkgName = a.pkgName)

/-- At the path is a package that the build made, its document is read as it says, and it is the one that was
asked for if one of that name was made. -/
def Good (path : Bytes) : Prop :=
  ∃ pkg, a.creates path = some pkg ∧
    (parsePkginfoFromPkg pkg.info.text).1.getD a.pkgName = pkg.info.name ∧
    (parsePkginfoFromPkg pkg.info.text).2.getD (ascii "unknown") = pkg.info.version ∧
    ((∃ path' pkg', a.creates path' = some pkg' ∧ pkg'.info.name = a.pkgName) → pkg.info.name = a.pkgName)

/-- The build comes to the search. -/
def Searches : Prop :=
  a.cloned ∧ a.keysResolved ∧ a.made ∧ if a.useChroot then a.chrootReady = true else a.forked = true

/-- What `find` may print first. -/
def candidates (base dir : Bytes) (names : List Bytes) : List Bytes :=
  if isPackage base then [dir] else (names.filter isPackage).map fun name => dir ++ 47 :: name

def readable (path : Bytes) : Bool := (a.after (printed path)).any Seen.readable

/-- Whatever is printed first is good; and so in the directory of the chroot, when it comes to that. -/
def Sound : Prop :=
  (∀ path ∈ candidates a.pkgName a.cloneDir names.names, a.readable path = true → a.Good (printed path)) ∧
    (a.useChroot = true → (candidates a.pkgName a.cloneDir names.names = [] ∨
        ∃ path ∈ candidates a.pkgName a.cloneDir names.names, a.readable path = false) →
      ∀ path ∈ candidates (ascii "dest") a.destDir destNames.names, a.readable path = true → a.Good (printed path))

end Attempt

/-! ### The search over all orders -/

section Search
variable {files : Bytes → Option Seen} {base dir path name : Bytes} {names : List Bytes}

lemma find?_visited_base (h : isPackage base = true) :
    (visited base dir names).find? (fun entry => isPackage entry.1) = some (base, dir) := by
  unfold visited
  exact List.find?_cons_of_pos h

lemma find?_visited (h : isPackage base = false) : (visited base dir names).find? (fun entry => isPackage entry.1) =
    (names.find? isPackage).map fun name => (name, dir ++ 47 :: name) := by
  unfold visited
  rw [List.find?_cons_of_neg (by simp [h]), List.find?_map]
  rfl

/-- What `find` prints first is a candidate. -/
lemma mem_candidates_of_find? (l l₀ : Listing files dir) {entry : Bytes × Bytes}
    (h : (visited base dir l.names).find? (fun entry => isPackage entry.1) = some entry) :
    entry.2 ∈ Attempt.candidates base dir l₀.names := by
  unfold Attempt.candidates
  cases hbase : isPackage base with
  | true =>
    rw [find?_visited_base hbase] at h
    obtain rfl := Option.some.inj h
    rw [if_pos rfl]
    exact List.mem_singleton_self dir
  | false =>
    rw [find?_visited hbase] at h
    obtain ⟨name, hname, rfl⟩ := Option.map_eq_some_iff.1 h
    rw [if_neg Bool.false_ne_true]
    have hmem := (l₀.complete name).2 ((l.complete name).1 (List.mem_of_find?_eq_some hname))
    exact List.mem_map_of_mem (List.mem_filter.2 ⟨hmem, List.find?_some hname⟩)

/-- Nothing is printed when there are no candidates. -/
lemma find?_eq_none_iff (l l₀ : Listing files dir) :
    (visited base dir l.names).find? (fun entry => isPackage entry.1) = none ↔
      Attempt.candidates base dir l₀.names = [] := by
  unfold Attempt.candidates
  cases hbase : isPackage base with
  | true =>
    rw [find?_visited_base hbase, if_pos rfl]
    exact iff_of_false (Option.some_ne_none _) (List.cons_ne_nil _ _)
  | false =>
    rw [find?_visited hbase, if_neg Bool.false_ne_true, Option.map_eq_none_iff, List.find?_eq_none, List.map_eq_nil_iff,
      List.filter_eq_nil_iff]
    constructor
    · exact fun h name hname => h name ((l.complete name).2 ((l₀.complete name).1 hname))
    · exact fun h name hname => h name ((l₀.complete name).2 ((l.complete name).1 hname))

/-- **Every candidate is printed first in some order.** -/
lemma exists_find?_of_mem_candidates (l₀ : Listing files dir) (h : path ∈ Attempt.candidates base dir l₀.names) :
    ∃ l : Listing files dir, ∃ entry, (visited base dir l.names).find? (fun entry => isPackage entry.1) = some entry ∧
      entry.2 = path := by
  unfold Attempt.candidates at h
  cases hbase : isPackage base with
  | true =>
    rw [hbase, if_pos rfl] at h
    exact ⟨l₀, (base, dir), find?_visited_base hbase, (List.mem_singleton.1 h).symm⟩
  | false =>
    rw [hbase, if_neg Bool.false_ne_true] at h
    obtain ⟨name, hname, rfl⟩ := List.mem_map.1 h
    obtain ⟨hmem, hpackage⟩ := List.mem_filter.1 hname
    have hperm := List.perm_cons_erase hmem
    refine ⟨⟨name :: l₀.names.erase name, hperm.nodup l₀.nodup, fun n => ?_⟩, (name, dir ++ 47 :: name), ?_, rfl⟩
    · rw [← hperm.mem_iff]
      exact l₀.complete n
    · rw [find?_visited hbase, List.find?_cons_of_pos hpackage]
      rfl

end Search

/-! ### The result -/

namespace Attempt

variable {a : Attempt} {base dir path : Bytes} {names : Listing a.after a.cloneDir}
  {destNames : Listing a.after a.destDir}

/-- The path that the searches find. -/
def found (a : Attempt) (names : Listing a.after a.cloneDir) (destNames : Listing a.after a.destDir) : Option Bytes :=
  match firstPackage a.after a.pkgName a.cloneDir names.names with
  | some path => some path
  | none => if a.useChroot then firstPackage a.after (ascii "dest") a.destDir destNames.names else none

lemma firstPackage_eq_some_iff {listed : List Bytes} : firstPackage a.after base dir listed = some path ↔
    ∃ entry, (visited base dir listed).find? (fun entry => isPackage entry.1) = some entry ∧
      a.readable entry.2 = true ∧ printed entry.2 = path := by
  unfold firstPackage
  cases hfind : (visited base dir listed).find? (fun entry => isPackage entry.1) with
  | none => simp
  | some entry =>
    show (if a.readable entry.2 = true then some (printed entry.2) else none) = some path ↔ _
    split_ifs with hreadable
    · simp [hreadable]
    · simp [hreadable]

/-- A build that succeeds has searched and found, and returns what it found. -/
lemma aurBuild_cases (names : Listing a.after a.cloneDir) (destNames : Listing a.after a.destDir) :
    (a.Searches ∧ ∃ path, a.found names destNames = some path ∧
        a.aurBuild names destNames = a.built path (a.fields path)) ∨
      (¬(a.Searches ∧ ∃ path, a.found names destNames = some path) ∧
        (a.aurBuild names destNames).success = false) := by
  unfold aurBuild Searches found
  by_cases hcloned : a.cloned = true
  · by_cases hkeys : a.keysResolved = true
    · rw [if_neg (not_not.2 hcloned), if_neg (not_not.2 hkeys)]
      by_cases hchroot : a.useChroot = true
      · simp only [if_pos hchroot]
        unfold chrootBuild findBuiltPkgIn
        by_cases hready : a.chrootReady = true ∧ a.made = true
        · rw [if_pos hready]
          cases firstPackage a.after a.pkgName a.cloneDir names.names with
          | some path => exact .inl ⟨⟨hcloned, hkeys, hready.2, hready.1⟩, path, rfl, rfl⟩
          | none =>
            cases firstPackage a.after (ascii "dest") a.destDir destNames.names with
            | some path => exact .inl ⟨⟨hcloned, hkeys, hready.2, hready.1⟩, path, rfl, rfl⟩
            | none => exact .inr ⟨fun h => by simp at h, rfl⟩
        · rw [if_neg hready]
          exact .inr ⟨fun h => hready ⟨h.1.2.2.2, h.1.2.2.1⟩, rfl⟩
      · simp only [if_neg hchroot]
        by_cases hforked : a.forked = true
        · by_cases hmade : a.made = true
          · rw [if_neg (not_not.2 hforked), if_neg (not_not.2 hmade)]
            unfold findBuiltPkg
            cases firstPackage a.after a.pkgName a.cloneDir names.names with
            | some path => exact .inl ⟨⟨hcloned, hkeys, hmade, hforked⟩, path, rfl, rfl⟩
            | none => exact .inr ⟨fun h => by simp at h, rfl⟩
          · rw [if_neg (not_not.2 hforked), if_pos hmade]
            exact .inr ⟨fun h => hmade h.1.2.2.1, rfl⟩
        · rw [if_pos hforked]
          exact .inr ⟨fun h => hforked h.1.2.2.2, rfl⟩
    · rw [if_neg (not_not.2 hcloned), if_pos hkeys]
      exact .inr ⟨fun h => hkeys h.1.2.1, rfl⟩
  · rw [if_pos hcloned]
    exact .inr ⟨fun h => hcloned h.1.1, rfl⟩

/-- What is returned for a path is right exactly when the path is good. -/
lemma delivers_built_iff : a.Delivers (a.built path (a.fields path)) ↔ a.Good path := by
  have hfields : ∀ pkg, a.creates path = some pkg → a.fields path = parsePkginfoFromPkg pkg.info.text := by
    intro pkg hpkg
    unfold fields after
    rw [hpkg]
    rfl
  constructor
  · rintro ⟨path', pkg, hpath, hpkg, hname, hversion, hasked⟩
    obtain rfl : path = path' := Option.some.inj hpath
    unfold built at hname hversion hasked
    rw [hfields pkg hpkg] at hname hversion hasked
    exact ⟨pkg, hpkg, hname, Option.some.inj hversion, fun hmade => hname ▸ hasked hmade⟩
  · rintro ⟨pkg, hpkg, hname, hversion, hasked⟩
    have hbuilt : a.built path (a.fields path) =
        ⟨pkg.info.name, some pkg.info.version, some path, true, none⟩ := by
      unfold built
      rw [hfields pkg hpkg, hname, hversion]
    rw [hbuilt]
    exact ⟨path, pkg, rfl, hpkg, rfl, rfl, hasked⟩

end Attempt

/-- **A build returns what it built**, in whatever order `find` lists the files, exactly when it does not come to
the search or whatever may be listed first is good. -/
theorem build_delivers_iff (a : Attempt) (names₀ : Listing a.after a.cloneDir) (destNames₀ : Listing a.after a.destDir) :
    (∀ names destNames, (a.aurBuild names destNames).success = true → a.Delivers (a.aurBuild names destNames)) ↔
      (a.Searches → a.Sound names₀ destNames₀) := by
  constructor
  · intro hall hsearches
    have hgood : ∀ names destNames path, a.found names destNames = some path → a.Good path := by
      intro names destNames path hfound
      obtain ⟨-, path', hfound', hresult⟩ | ⟨hnot, -⟩ := Attempt.aurBuild_cases names destNames
      · obtain rfl := Option.some.inj (hfound.symm.trans hfound')
        have hdelivers := hall names destNames (by rw [hresult]; rfl)
        rw [hresult] at hdelivers
        exact Attempt.delivers_built_iff.1 hdelivers
      · exact absurd ⟨hsearches, path, hfound⟩ hnot
    refine ⟨fun path hpath hreadable => ?_, fun hchroot hpast path hpath hreadable => ?_⟩
    · obtain ⟨names, entry, hfind, rfl⟩ := exists_find?_of_mem_candidates names₀ hpath
      refine hgood names destNames₀ _ ?_
      unfold Attempt.found
      rw [Attempt.firstPackage_eq_some_iff.2 ⟨entry, hfind, hreadable, rfl⟩]
    · obtain ⟨destNames, entry, hfind, rfl⟩ := exists_find?_of_mem_candidates destNames₀ hpath
      obtain ⟨names, hnone⟩ : ∃ names : Listing a.after a.cloneDir,
          firstPackage a.after a.pkgName a.cloneDir names.names = none := by
        rcases hpast with hnil | ⟨blocked, hmem, hblocked⟩
        · refine ⟨names₀, ?_⟩
          unfold firstPackage
          rw [(find?_eq_none_iff names₀ names₀).2 hnil]
        · obtain ⟨names, entry', hfind', rfl⟩ := exists_find?_of_mem_candidates names₀ hmem
          refine ⟨names, Option.eq_none_iff_forall_ne_some.2 fun path hsome => ?_⟩
          obtain ⟨entry'', hfind'', hreadable', -⟩ := Attempt.firstPackage_eq_some_iff.1 hsome
          obtain rfl := Option.some.inj (hfind'.symm.trans hfind'')
          rw [hblocked] at hreadable'
          cases hreadable'
      refine hgood names destNames _ ?_
      unfold Attempt.found
      rw [hnone, if_pos hchroot, Attempt.firstPackage_eq_some_iff.2 ⟨entry, hfind, hreadable, rfl⟩]
  · intro hsound names destNames hsuccess
    obtain ⟨hsearches, path, hfound, hresult⟩ | ⟨-, hfailed⟩ := Attempt.aurBuild_cases names destNames
    · rw [hresult, Attempt.delivers_built_iff]
      obtain ⟨hclone, hdest⟩ := hsound hsearches
      unfold Attempt.found at hfound
      cases hfirst : firstPackage a.after a.pkgName a.cloneDir names.names with
      | some path' =>
        rw [hfirst] at hfound
        obtain rfl := Option.some.inj hfound
        obtain ⟨entry, hfind, hreadable, rfl⟩ := Attempt.firstPackage_eq_some_iff.1 hfirst
        exact hclone _ (mem_candidates_of_find? names names₀ hfind) hreadable
      | none =>
        rw [hfirst] at hfound
        obtain ⟨hchroot, hfound⟩ : a.useChroot = true ∧
            firstPackage a.after (ascii "dest") a.destDir destNames.names = some path := by
          split_ifs at hfound with hchroot
          · exact ⟨hchroot, hfound⟩
        obtain ⟨entry, hfind, hreadable, rfl⟩ := Attempt.firstPackage_eq_some_iff.1 hfound
        refine hdest hchroot ?_ _ (mem_candidates_of_find? destNames destNames₀ hfind) hreadable
        cases hfirst' : (visited a.pkgName a.cloneDir names.names).find? (fun entry => isPackage entry.1) with
        | none => exact .inl ((find?_eq_none_iff names names₀).1 hfirst')
        | some entry' =>
          refine .inr ⟨_, mem_candidates_of_find? names names₀ hfirst', ?_⟩
          by_contra hreadable'
          have hsome := Attempt.firstPackage_eq_some_iff.2 ⟨entry', hfirst', by simpa using hreadable', rfl⟩
          rw [hfirst] at hsome
          cases hsome
    · rw [hfailed] at hsuccess
      cases hsuccess

/-! ### A directory that was used before -/

/-- The package of an earlier build, and that of this one. -/
def oldFile : Bytes := ascii "vim-9.0-1-x86_64.pkg.tar.zst"

def newFile : Bytes := ascii "vim-9.1-1-x86_64.pkg.tar.zst"

/-- A direct build of `vim`, where an earlier one was. -/
def rebuild : Attempt where
  pkgName := ascii "vim"
  cloneDir := ascii "/build/vim"
  destDir := ascii "/var/lib/2O9/chroot/nobody/src/dest"
  config := some ⟨-1, 0⟩
  chrootDefault := true
  cloned := true
  keysResolved := true
  chrootReady := false
  forked := true
  made := true
  before := fun path => if path = ascii "/build/vim" ++ 47 :: oldFile then
    some ⟨true, some (ascii "pkgname = vim\npkgver = 9.0-1\n")⟩ else none
  creates := fun path => if path = ascii "/build/vim" ++ 47 :: newFile then some ⟨vimInfo, true⟩ else none

lemma isSome_after_rebuild (path : Bytes) : (rebuild.after path).isSome = true ↔
    path = ascii "/build/vim" ++ 47 :: oldFile ∨ path = ascii "/build/vim" ++ 47 :: newFile := by
  unfold Attempt.after
  show (match (if path = ascii "/build/vim" ++ 47 :: newFile then some (⟨vimInfo, true⟩ : Made) else none) with
    | some pkg => some pkg.seen
    | none => if path = ascii "/build/vim" ++ 47 :: oldFile then
        some (⟨true, some (ascii "pkgname = vim\npkgver = 9.0-1\n")⟩ : Seen) else none).isSome = true ↔ _
  by_cases hnew : path = ascii "/build/vim" ++ 47 :: newFile
  · rw [if_pos hnew]
    exact iff_of_true rfl (.inr hnew)
  · rw [if_neg hnew]
    by_cases hold : path = ascii "/build/vim" ++ 47 :: oldFile
    · rw [if_pos hold]
      exact iff_of_true rfl (.inl hold)
    · rw [if_neg hold]
      exact iff_of_false Bool.false_ne_true (fun h => h.elim hold hnew)

/-- The older file is listed first. -/
def oldFirst : Listing rebuild.after rebuild.cloneDir where
  names := [oldFile, newFile]
  nodup := by decide +kernel
  complete := by
    intro name
    have hname : ∀ file : Bytes, ascii "/build/vim" ++ 47 :: name = ascii "/build/vim" ++ 47 :: file ↔ name = file := by
      intro file
      rw [List.append_cancel_left_eq, List.cons_inj_right]
    have hafter := isSome_after_rebuild (ascii "/build/vim" ++ 47 :: name)
    rw [hname, hname] at hafter
    rw [List.mem_cons, List.mem_singleton, ← hafter]
    refine ⟨fun hsome => ⟨?_, ?_, hsome⟩, fun h => h.2.2⟩
    · rcases hafter.1 hsome with rfl | rfl <;> decide +kernel
    · rcases hafter.1 hsome with rfl | rfl <;> decide +kernel

/-- Nothing is in the directory of the chroot. -/
def noDest : Listing rebuild.after rebuild.destDir where
  names := []
  nodup := List.nodup_nil
  complete := by
    intro name
    refine iff_of_false List.not_mem_nil fun h => ?_
    have hsecond : ∀ rest : Bytes, rebuild.destDir ++ 47 :: name ≠ ascii "/build/vim" ++ 47 :: rest := by
      intro rest heq
      have hv : (118 : UInt8) = 98 := (List.cons.inj (List.cons.inj heq).2).1
      exact absurd hv (by decide)
    rcases (isSome_after_rebuild _).1 h.2.2 with heq | heq
    · exact hsecond _ heq
    · exact hsecond _ heq

/-- **The build returns the package of the earlier one.** -/
theorem build_returns_old : (rebuild.aurBuild oldFirst noDest).success = true ∧
    (rebuild.aurBuild oldFirst noDest).pkgPath = some (ascii "/build/vim/vim-9.0-1-x86_64.pkg.tar.zst") ∧
    ¬rebuild.Delivers (rebuild.aurBuild oldFirst noDest) := by
  have hpath : (rebuild.aurBuild oldFirst noDest).pkgPath =
      some (ascii "/build/vim/vim-9.0-1-x86_64.pkg.tar.zst") := by decide +kernel
  refine ⟨by decide +kernel, hpath, ?_⟩
  rintro ⟨path, pkg, hreturned, hmade, -⟩
  obtain rfl := Option.some.inj (hpath.symm.trans hreturned)
  have hnone : (rebuild.creates (ascii "/build/vim/vim-9.0-1-x86_64.pkg.tar.zst")).isSome = false := by
    decide +kernel
  rw [hmade] at hnone
  cases hnone

end Two09.Aur
