import Two09.Lib.Prog
import Two09.Lib.Words
import Two09.Store.Address
import Two09.Store.World

/-!
# Unpacking and registering packages

How `cmd_install` gets the store path of a package (from a substituter or by unpacking its archive)
and registers it with its dependencies, as programs over the world.
-/

namespace Two09.Install

open Two09.Lib Two09.Lib.Posix Two09.Gen Two09.Nar Two09.Store

/-- What the commands do to the world. -/
inductive Act
  | findByName
  | statStored
  | fetch
  | statLegacy
  | statFinal
  | rmdir
  | rename
  | register
  | readPkgInfo
  | scanStore
  | addRef
  | lock
  | readCurrent
  | readPackages
  | gen (i : Gen.Step)
  | unlock
  deriving DecidableEq, Repr

/-- A package: its archive, as `tar` unpacks it. -/
structure Package where
  name : Bytes
  version : Bytes
  contents : List (Name × FileTree)

def Package.tree (pkg : Package) : FileTree := .directory pkg.contents

/-- What is outside the program: SHA-256, the process id in a temporary name, and what the
configured caches serve for a store path. -/
structure Env where
  sha256 : Bytes → Bytes
  pid : Bytes
  cached : StoreName → Option FileTree

/-- `store_add_result_t`: the store path, with hash and size where they are known. -/
structure Added where
  path : StoreName
  hash : Option (Bytes × Nat)

/-! ### The store directory -/

/-- `.PKGINFO` -/
def pkgInfo : Name := ascii ".PKGINFO"

section Directory
variable (e : Entry) (n : StoreName) (t : FileTree)

/-- `<entry>/.PKGINFO` exists. -/
def marked : Bool := (e.tree.lookup [pkgInfo]).isSome

/-- The entry is an empty directory. -/
def isEmpty : Bool :=
  match e with
  | ⟨.directory [], true⟩ => true
  | _ => false

lemma isEmpty_iff : isEmpty e = true ↔ e = ⟨.directory [], true⟩ := by
  unfold isEmpty
  split <;> simp_all

/-- A directory can be renamed to where nothing or an empty directory is. -/
def canRename (w : World) : Bool := (w.store.lookup n).all isEmpty

/-- `rmdir`, which its caller does not check. -/
def rmdir : Prog World Act Unit :=
  .modify .rmdir fun w =>
    if (w.store.lookup n).any isEmpty then { w with store := w.store.erase n } else w

/-- `rename` of an unpacked tree into `/nix/store`. -/
def rename : Prog World Act Bool :=
  .step .rename
    (fun w => if canRename n w then { w with store := w.store.insert n ⟨t, true⟩ } else w)
    (canRename n)

end Directory

/-! ### Getting a store path -/

section Get
variable (env : Env) (pkg : Package)

/-- The name ends in `-<version>`. -/
def hasVersion (version : Bytes) (n : StoreName) : Bool :=
  decide (version ≠ []) && decide (version.length + 1 < (storePath n).length) &&
    (ascii "-" ++ version).isSuffixOf (storePath n)

/-- `try_substitute_pkg`: the path registered for the name and the version, if it is there or some
cache has it. -/
def trySubstitute : Prog World Act (Option StoreName) :=
  (Prog.read .findByName fun w : World =>
    (w.sdb.findByName pkg.name).filter (hasVersion pkg.version)).bind fun
  | none => .ret none
  | some n =>
    (Prog.read .statStored fun w : World => (w.store.lookup n).isSome).bind fun there =>
      if there then .ret (some n)
      else
        match env.cached n with
        | none => .ret none
        | some t =>
          .step .fetch
            (fun w => if (w.store.lookup n).isSome then w
              else { w with store := w.store.insert n ⟨t, decide (t.root = .dir)⟩ })
            fun _ => some n

/-- `<name>-<version>`, where packages without an address go. -/
def Package.legacyName : Bytes := pkg.name ++ ascii "-" ++ pkg.version

/-- The hash of the unpacked archive, taken in the temporary directory. -/
def Package.narHash : Option (Bytes × Nat) :=
  narHashDirectory env.sha256
    (storeDir ++ ascii ".tmp/" ++ pkg.legacyName ++ ascii "." ++ env.pid) pkg.tree

/-- Where the archive goes. -/
def Package.finalName : Option StoreName :=
  entryName? (match pkg.narHash env with
    | some h => computeStorePath env.sha256 h.1 pkg.name pkg.version
    | none => pkg.legacyName)

/-- A complete package at the path without an address. -/
def legacyAt (w : World) : Option StoreName :=
  (entryName? pkg.legacyName).filter fun n =>
    (w.store.lookup n).any fun e => e.isDir && marked e

/-- `direct_extract`. The temporary directory is hidden and appears with the `rename` only. -/
def directExtract : Prog World Act (Option Added) :=
  (Prog.read .statLegacy (legacyAt pkg)).bind fun
  | some n => .ret (some ⟨n, none⟩)
  | none =>
    match pkg.finalName env with
    | none => .ret none
    | some n =>
      let finish := (rename n pkg.tree).bind fun ok =>
        .ret (if ok then some ⟨n, pkg.narHash env⟩ else none)
      (Prog.read .statFinal fun w : World => (w.store.lookup n).filter Entry.isDir).bind fun
      | none => finish
      | some e =>
        if marked e then .ret (some ⟨n, pkg.narHash env⟩)
        else if isEmpty e then (rmdir n).bind fun _ => finish
        -- a directory of somebody else's is taken as it is
        else .ret (some ⟨n, none⟩)

/-- One target of the transaction: from a substituter, or else from its archive. -/
def addTarget : Prog World Act (Option Added) :=
  (trySubstitute env pkg).bind fun
  | some n => .ret (some ⟨n, none⟩)
  | none => directExtract env pkg

/-- All targets, until one fails. -/
def addTargets : List Package → Prog World Act (Option (List (Package × Added)))
  | [] => .ret (some [])
  | pkg :: pkgs => (addTarget env pkg).bind fun
    | none => .ret none
    | some a => (addTargets pkgs).bind fun ts => .ret (ts.map ((pkg, a) :: ·))

end Get

/-! ### Registering -/

/-- The lines `fgets` delivers from a file into a buffer of `size + 1` bytes. -/
def fgetsLines (size : Nat) : Bytes → Bytes → List Bytes
  | cur, [] => if cur = [] then [] else [cur]
  | cur, c :: b =>
    if c = 10 ∨ (cur ++ [c]).length = size then (cur ++ [c]) :: fgetsLines size [] b
    else fgetsLines size (cur ++ [c]) b

/-- The name in a `depend = <name>…` line. -/
def dependName (line : Bytes) : Option Bytes :=
  let p := (cstr line).dropWhile isSpace
  if (ascii "depend").isPrefixOf p then
    match (p.drop 6).dropWhile isSpace with
    | 61 :: q =>
      let name := ((q.dropWhile isSpace).takeWhile fun c =>
        !(decide (c ∈ ascii ":<>=") || isSpace c)).take 255
      if name = [] then none else some name
    | _ => none
  else none

/-- `pkginfo_each_dep`: the names it calls back with. -/
def pkginfoDeps (w : World) (n : StoreName) : List Bytes :=
  match (w.store.lookup n).bind fun e => e.tree.lookup [pkgInfo] with
  | some (.reg contents _) => (fgetsLines 1023 [] contents).filterMap dependName
  | _ => []

/-- `find_store_path`, as the directory lists its entries. -/
def findStorePath (name : Bytes) (w : World) : Option StoreName :=
  w.store.keys.find? fun n => !n.hidden && matchesName name n

section Register
variable (env : Env) (time : Nat)

/-- `store_db_register_path` -/
def register (n : StoreName) (hash : Bytes × Nat) : Prog World Act Unit :=
  .modify .register fun w => { w with sdb := w.sdb.register n hash.1 hash.2 none time }

/-- `store_db_add_ref` -/
def addRef (referrer reference : StoreName) : Prog World Act Unit :=
  .modify .addRef fun w => { w with sdb := w.sdb.addRef (storePath referrer) (storePath reference) }

/-- `dep_cb`: refers to the path of the dependency, which is registered first if only the directory
has it. -/
def depCb (target : Package × Added) (dep : Bytes) : Prog World Act Unit :=
  if dep = target.1.name then .ret ()
  else (Prog.read .findByName fun w : World => w.sdb.findByName dep).bind fun
    | some m => addRef target.2.path m
    | none =>
      (Prog.read .scanStore fun w : World => (findStorePath dep w).map fun m =>
        (m, (w.store.lookup m).bind fun e =>
          narHashDirectory env.sha256 (storePath m) e.tree)).bind fun
      | some (m, some h) => (register time m h).bind fun _ => addRef target.2.path m
      | _ => .ret ()

/-- `register_target_in_store_db`: nothing without a hash. -/
def registerTarget (target : Package × Added) : Prog World Act Unit :=
  match target.2.hash with
  | none => .ret ()
  | some h => (register time target.2.path h).bind fun _ =>
    (Prog.read .readPkgInfo fun w : World => pkginfoDeps w target.2.path).bind fun deps =>
      .forEach (depCb env time target) deps

end Register

end Two09.Install
