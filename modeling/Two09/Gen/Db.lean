import Two09.Lib.Bytes
import Two09.Lib.Prog

/-!
# The generation database

The directory of generations of `gen.c`, with the `current` link, and the operations on it as
programs of file-system steps, so that they can be run, cut off by a crash or interleaved.

A manifest or a diff is the value its JSON text denotes; a file that is open for writing holds a
part of its text only.
-/

namespace Two09.Gen

open Two09.Lib

/-! ### State -/

/-- `gen_pkg_t`. -/
structure GenPkg where
  name : Bytes
  version : Bytes
  storePath : Option Bytes
  origin : Bytes
  deriving DecidableEq, Repr

/-- `manifest.json`. -/
structure Manifest where
  id : Nat
  timestamp : Nat
  packages : List GenPkg
  deriving DecidableEq, Repr

/-- `diff.json`: names with versions, and for a change the old version and the new one. -/
structure Diff where
  parent : Nat
  total : Nat
  added : List (Bytes × Bytes)
  removed : List (Bytes × Bytes)
  changed : List (Bytes × Bytes × Bytes)
  deriving DecidableEq, Repr

/-- A file while it is being written, and once it is closed. -/
inductive File (α : Type)
  | part
  | whole (a : α)
  deriving DecidableEq, Repr

/-- What a reader gets from a file: nothing from one that is cut short. -/
def File.read? {α : Type} : Option (File α) → Option α
  | some (.whole a) => some a
  | _ => none

/-- The directory of one generation. -/
structure GenDir where
  manifest : Option (File Manifest)
  diff : Option (File Diff)
  pinned : Bool
  deriving DecidableEq, Repr

def GenDir.empty : GenDir := ⟨none, none, false⟩

/-- The generation database: the directories by id, the id that the target of the `current` link
names, and whether a process holds the lock. -/
structure GenDb where
  dirs : AList fun _ : Nat => GenDir
  link : Option Nat
  locked : Bool

namespace GenDb

variable (db : GenDb) (id : Nat)

/-- Changes a generation's directory, if it exists. -/
def updateDir (f : GenDir → GenDir) : GenDb :=
  match db.dirs.lookup id with
  | none => db
  | some d => { db with dirs := db.dirs.insert id (f d) }

/-- `mkdirs` of a generation's directory. -/
def mkdirs : GenDb :=
  match db.dirs.lookup id with
  | none => { db with dirs := db.dirs.insert id .empty }
  | some _ => db

section
variable {db id} {f : GenDir → GenDir} {j : Nat}

@[simp] lemma updateDir_link : (db.updateDir id f).link = db.link := by
  unfold updateDir
  split <;> rfl

@[simp] lemma updateDir_locked : (db.updateDir id f).locked = db.locked := by
  unfold updateDir
  split <;> rfl

@[simp] lemma mkdirs_link : (db.mkdirs id).link = db.link := by
  unfold mkdirs
  split <;> rfl

@[simp] lemma mkdirs_locked : (db.mkdirs id).locked = db.locked := by
  unfold mkdirs
  split <;> rfl

lemma lookup_updateDir :
    (db.updateDir id f).dirs.lookup j =
      if j = id then (db.dirs.lookup id).map f else db.dirs.lookup j := by
  unfold updateDir
  cases h : db.dirs.lookup id with
  | none =>
    by_cases hj : j = id
    · subst hj
      simpa using h
    · simp [hj]
  | some d =>
    by_cases hj : j = id
    · subst hj
      simp
    · simp [AList.lookup_insert_ne hj, hj]

lemma lookup_mkdirs :
    (db.mkdirs id).dirs.lookup j =
      if j = id then some ((db.dirs.lookup id).getD .empty) else db.dirs.lookup j := by
  unfold mkdirs
  cases h : db.dirs.lookup id with
  | none =>
    by_cases hj : j = id
    · subst hj
      simp
    · simp [AList.lookup_insert_ne hj, hj]
  | some d =>
    by_cases hj : j = id
    · subst hj
      simpa using h
    · simp [hj]

end

end GenDb

/-! ### Reading -/

/-- `gen_db_current`: the number at the end of the link's target, 0 without a link. -/
def genDbCurrent (db : GenDb) : Nat := db.link.getD 0

/-- The packages a reader of `manifest.json` gets for a generation. -/
def readPackages (db : GenDb) (id : Nat) : List GenPkg :=
  match db.dirs.lookup id with
  | none => []
  | some d => ((File.read? d.manifest).map Manifest.packages).getD []

lemma readPackages_congr {db db' : GenDb} {id : Nat} (h : db'.dirs.lookup id = db.dirs.lookup id) :
    readPackages db' id = readPackages db id := by
  rw [readPackages, readPackages, h]

/-- `gen_db_list`: the ids of the generations, the newest first. -/
def genDbList (db : GenDb) : List Nat :=
  (db.dirs.keys.filter (0 < ·)).insertionSort (· ≥ ·)

lemma mem_genDbList {db : GenDb} {id : Nat} :
    id ∈ genDbList db ↔ (db.dirs.lookup id).isSome = true ∧ 0 < id := by
  rw [AList.lookup_isSome, AList.mem_keys]
  simp [genDbList]

/-! ### The diff -/

/-- The package of that name the scan of a list stops at. -/
def findPkg (pkgs : List GenPkg) (name : Bytes) : Option GenPkg := pkgs.find? (·.name = name)

/-- What `write_diff` writes. The parent's packages are put in front of the list one by one, so
they stand in reverse. -/
def mkDiff (parentId : Nat) (parentManifest packages : List GenPkg) : Diff :=
  let parentPkgs := parentManifest.reverse
  { parent := parentId
    total := packages.length
    added := (packages.filter fun p => (findPkg parentPkgs p.name).isNone).map
      fun p => (p.name, p.version)
    removed := (parentPkgs.filter fun p => (findPkg packages p.name).isNone).map
      fun p => (p.name, p.version)
    changed := packages.filterMap fun p =>
      match findPkg parentPkgs p.name with
      | none => none
      | some pp => if pp.version = p.version then none else some (p.name, pp.version, p.version) }

/-! ### Writing -/

/-- The file-system steps of the operations. -/
inductive Step
  | readCurrent
  | mkdir
  | openManifest
  | writeManifest
  | openDiff
  | writeDiff
  | unlink
  | symlink
  | statDir
  | pin
  deriving DecidableEq, Repr

/-- Which calls fail. -/
structure Faults where
  mkdir : Bool
  openManifest : Bool
  openDiff : Bool
  unlink : Bool
  symlink : Bool
  deriving DecidableEq, Repr

def Faults.none : Faults := ⟨false, false, false, false, false⟩

section Programs
variable (flt : Faults) (id : Nat)

/-- `write_manifest`; the result says whether it returned 0. -/
def writeManifest (timestamp : Nat) (packages : List GenPkg) : Prog GenDb Step Bool :=
  if flt.mkdir then .ret false
  else .act .mkdir (·.mkdirs id) fun _ =>
    if flt.openManifest then .ret false
    else .act .openManifest (·.updateDir id fun d => { d with manifest := some .part }) fun _ =>
      .act .writeManifest
        (·.updateDir id fun d => { d with manifest := some (.whole ⟨id, timestamp, packages⟩) })
        fun _ => .ret true

/-- `write_diff`, whose result the caller ignores. The parent's manifest is read while the file is
open. -/
def writeDiff (parentId : Nat) (packages : List GenPkg) : Prog GenDb Step Unit :=
  if flt.openDiff then .ret ()
  else .act .openDiff (·.updateDir id fun d => { d with diff := some .part }) fun _ =>
    .act .writeDiff
      (fun db =>
        let parentPkgs := if 0 < parentId then readPackages db parentId else []
        db.updateDir id fun d => { d with diff := some (.whole (mkDiff parentId parentPkgs packages)) })
      fun _ => .ret ()

/-- Repoints the link: `unlink`, whose result is ignored, and `symlink`, which fails when a link is
still there. -/
def repoint : Prog GenDb Step Bool :=
  let link : Prog GenDb Step Bool :=
    if flt.symlink then .ret false
    else .act .symlink (fun db => if db.link.isSome then db else { db with link := some id })
      fun db => .ret db.link.isNone
  if flt.unlink then link
  else .act .unlink (fun db => { db with link := none }) fun _ => link

/-- What `gen_db_commit` does before it touches the link: the manifest, and the diff from the
parent. The result is the id of the generation that is ready. -/
def prepareGeneration (timestamp : Nat) (packages : List GenPkg) : Prog GenDb Step (Option Nat) :=
  (Prog.read .readCurrent genDbCurrent).bind fun parentId =>
    let nextId := parentId + 1
    (writeManifest flt nextId timestamp packages).bind fun ok =>
      if ok then (writeDiff flt nextId parentId packages).bind fun _ => .ret (some nextId)
      else .ret none

/-- `gen_db_commit`: the id of the new generation, or `none` for -1. -/
def genDbCommit (timestamp : Nat) (packages : List GenPkg) : Prog GenDb Step (Option Nat) :=
  (prepareGeneration flt timestamp packages).bind fun
    | none => .ret none
    | some nextId => (repoint flt nextId).bind fun ok => .ret (if ok then some nextId else none)

/-- `gen_db_rollback`; the result says whether it returned 0. -/
def genDbRollback : Prog GenDb Step Bool :=
  (Prog.read .statDir fun db : GenDb => (db.dirs.lookup id).isSome).bind fun there =>
    if there then repoint flt id else .ret false

/-- `gen_db_pin`: fails without the directory. -/
def genDbPin : Prog GenDb Step Bool :=
  Prog.step .pin (·.updateDir id fun d => { d with pinned := true })
    fun db => (db.dirs.lookup id).isSome

end Programs

end Two09.Gen
