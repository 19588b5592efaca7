import Two09.Install.Command
import Two09.Lib.LinkTree

/-!
# The symlink farm

The links `symlinks.c` makes for the packages of a generation: each file of a package is classified by
where it stands in its store path, and gets a link in the user's directories or in `/etc`.
-/

namespace Two09.Farm

open Two09.Lib Two09.Lib.Posix Two09.Gen Two09.Nar Two09.Store

/-- Whose farm it is: the home directory, and whether `geteuid` is 0. -/
structure User where
  home : Path
  isRoot : Bool

/-! ### Classification -/

/-- `my_basename` -/
def myBasename (p : Path) : Bytes := (p.reverse.takeWhile (· ≠ slash)).reverse

/-- The path of the link for a file, by its path in the package. `symlink_file` and `teardown_file`
have the same rules. -/
def linkPath (user : User) (rel : Bytes) : Option Path :=
  let under (prefixes : List String) : Bool := prefixes.any fun p => (ascii p).isPrefixOf rel
  let path :=
    if under ["bin/", "sbin/", "usr/bin/", "usr/sbin/"] then
      some (user.home ++ ascii "/.local/bin/" ++ myBasename rel)
    else if under ["lib/", "lib64/", "usr/lib/"] then
      some (user.home ++ ascii "/.local/lib/" ++ myBasename rel)
    else if under ["etc/"] then
      if user.isRoot then some (ascii "/etc/" ++ rel.drop 4) else none
    else if under ["share/"] then some (user.home ++ ascii "/.local/share/" ++ rel.drop 6)
    else if under ["usr/share/"] then some (user.home ++ ascii "/.local/share/" ++ rel.drop 10)
    else if under ["include/"] then some (user.home ++ ascii "/.local/include/" ++ rel.drop 8)
    else none
  path.map (·.take (pathMax - 1))

/-! ### The walk -/

mutual

/-- The files in a tree at `rel`, as paths: directories are entered. -/
def treeFiles (rel : Bytes) : FileTree → List Bytes
  | .directory entries => entryFiles (rel ++ ascii "/") entries
  | _ => [rel]

/-- The files in the entries of a directory; hidden entries are passed over. -/
def entryFiles (pre : Bytes) : List (Name × FileTree) → List Bytes
  | [] => []
  | (n, t) :: entries =>
    (if n.head? = some 46 then [] else treeFiles (pre ++ n) t) ++ entryFiles pre entries

end

/-- The files of the package at a store path, none if `opendir` fails. -/
def packageFiles (w : World) (path : Path) : List Bytes :=
  match (w.store.keys.find? fun n => decide (storePath n = path)).bind w.store.lookup with
  | some ⟨.directory entries, _⟩ => entryFiles [] entries
  | _ => []

/-- The links for the packages of a generation, in the order in which they are made. -/
def farmLinks (user : User) (w : World) (pkgs : List GenPkg) : List (Path × Path) :=
  (pkgs.filterMap GenPkg.storePath).flatMap fun path =>
    (packageFiles w path).filterMap fun rel =>
      (linkPath user rel).map fun link => (link, path ++ ascii "/" ++ rel)

/-- `symlink_farm_build`: `prev` is what the previous generation lists, nothing if there is none. -/
def symlinkFarmBuild (kernel : Kernel) (user : User) (w : World) (pkgs prev : List GenPkg)
    (farm : LinkTree) : LinkTree :=
  remakeLinks kernel storeDir farm ((farmLinks user w prev).map Prod.fst) (farmLinks user w pkgs)

/-! ### A growing store -/

section Grows
variable {w w' : World} {F : StoreName → Prop} {user : User} {pkgs : List GenPkg}

/-- The files of a package stay where the store grows. -/
lemma packageFiles_grows (h : Install.Grows F w.store w'.store) {path : Path} {rel : Bytes}
    (hrel : rel ∈ packageFiles w path) : rel ∈ packageFiles w' path := by
  have hfind : ∀ s : StoreDir, ∀ n ∈ s, storePath n = path →
      (s.keys.find? fun n => decide (storePath n = path)) = some n := by
    rintro s n hn rfl
    have hsome : (s.keys.find? fun m => decide (storePath m = storePath n)).isSome = true :=
      List.find?_isSome.2 ⟨n, AList.mem_keys.1 hn, by simp⟩
    obtain ⟨m, hm⟩ := Option.isSome_iff_exists.1 hsome
    have hmn : m = n := storePath_injective (by simpa using List.find?_some hm)
    rw [hm, hmn]
  unfold packageFiles at hrel
  cases hn : w.store.keys.find? fun n => decide (storePath n = path) with
  | none => simp [hn] at hrel
  | some n =>
    rw [hn, Option.bind_some] at hrel
    have hpath : storePath n = path := by simpa using List.find?_some hn
    cases he : w.store.lookup n with
    | none => simp [he] at hrel
    | some e =>
      rw [he] at hrel
      obtain ⟨hmem, hsame⟩ := h n e he
      have hentry : w'.store.lookup n = some e := by
        refine hsame fun hempty => ?_
        rw [(Install.isEmpty_iff e).1 hempty.2] at hrel
        simp [entryFiles] at hrel
      rw [packageFiles, hfind w'.store n (AList.lookup_isSome.1 hmem) hpath, Option.bind_some, hentry]
      exact hrel

lemma farmLinks_grows (h : Install.Grows F w.store w'.store) {l : Path × Path}
    (hl : l ∈ farmLinks user w pkgs) : l ∈ farmLinks user w' pkgs := by
  obtain ⟨path, hpath, hl⟩ := List.mem_flatMap.1 hl
  obtain ⟨rel, hrel, hl⟩ := List.mem_filterMap.1 hl
  exact List.mem_flatMap.2 ⟨path, hpath, List.mem_filterMap.2 ⟨rel, packageFiles_grows h hrel, hl⟩⟩

end Grows

end Two09.Farm
