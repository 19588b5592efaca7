import Two09.Store.World

/-!
# `cmd_gc`

The garbage collector over the generation database, the store database and `/nix/store`: roots
from every generation, the closure over the refs, the dead paths, the orphans, and the old
generations at the end. Every query, allocation and command can fail.
-/

namespace Two09.Gc

open Two09.Lib Two09.Lib.Posix Two09.Gen Two09.Nar Two09.Store

/-! ### Commands -/

/-- The shell behind `system()`. What it makes of a command line whose quotation the name itself
closes and reopens is left open. -/
structure Shell where
  reopened : StoreName → StoreDir → StoreDir × Bool

/-- `system("rm -rf '/nix/store/<name>'")`, and whether it returned 0. A single quote in the name
ends the quotation; an odd number of them leaves it open at the end of the line, which is a syntax
error, and nothing is run. -/
def Shell.rm (sh : Shell) (n : StoreName) (store : StoreDir) : StoreDir × Bool :=
  if n.quotes = 0 then (store.erase n, true)
  else if n.quotes % 2 = 1 then (store, false)
  else sh.reopened n store

/-- A call of `cmd_gc` that can fail. -/
inductive Fault
  /-- `gen_db_list` finds nothing -/
  | genList
  /-- the manifest of a generation cannot be read -/
  | manifestRead (id : Nat)
  /-- the array of roots cannot grow once more, after it grew some times -/
  | rootsGrow (times : Nat)
  /-- the root at an index cannot be copied -/
  | rootDup (i : Nat)
  /-- `store_db_open` -/
  | dbOpen
  /-- `store_db_closure` returns `NULL` -/
  | closureNull
  /-- a query of the closure delivers some rows and then fails -/
  | closureStep (i rows : Nat)
  /-- `store_db_dead_paths` returns `NULL` -/
  | deadNull
  /-- the query of the dead paths delivers some rows and then fails -/
  | deadStep (rows : Nat)
  /-- `store_db_all_paths` returns `NULL` -/
  | allNull
  /-- the query of all paths delivers some rows and then fails -/
  | allStep (rows : Nat)
  /-- a path cannot be unregistered -/
  | unregister (n : StoreName)
  /-- `opendir("/nix/store")` -/
  | openStore
  deriving DecidableEq

/-! ### The roots -/

/-- The growing array of roots: `NULL`, or copies of paths each of which may be missing. -/
structure Roots where
  array : Option (List (Option Path))
  count : Nat
  cap : Nat

def Roots.empty : Roots := ⟨none, 0, 0⟩

/-- The paths in the array. -/
def Roots.paths (r : Roots) : List Path := (r.array.getD []).filterMap id

/-- The count says that there are roots, but the array is lost. -/
def Roots.Dangling (r : Roots) : Prop := r.array = none ∧ 0 < r.count

instance (r : Roots) : Decidable r.Dangling := inferInstanceAs (Decidable (_ ∧ _))

/-- The capacity after the next growth. -/
def nextCap (cap : Nat) : Nat := if cap = 0 then 16 else cap * 2

section Phases
variable (sh : Shell) (flt : Option Fault)

/-- Whether the array cannot grow from a capacity. -/
def growFails (cap : Nat) : Bool :=
  match flt with
  | some (.rootsGrow times) => cap = nextCap^[times] 0
  | _ => false

/-- Makes room for one more root. -/
def Roots.grow (r : Roots) : Roots :=
  if r.count = r.cap then
    { array := if growFails flt r.cap then none else some (r.array.getD [])
      count := r.count
      cap := nextCap r.cap }
  else r

/-- Appends a root, unless the array is lost. -/
def Roots.push (r : Roots) (p : Path) : Roots :=
  let r := r.grow flt
  match r.array with
  | none => r
  | some a =>
    { r with
      array := some (a ++ [if flt = some (.rootDup r.count) then none else some p])
      count := r.count + 1 }

/-- The generations `cmd_gc` works with. -/
def listGens (gens : GenDb) : List Nat := if flt = some .genList then [] else genDbList gens

/-- The roots: the store paths of all listed generations. -/
def gatherRoots (gens : GenDb) : Roots :=
  ((listGens flt gens).flatMap fun id =>
    if flt = some (.manifestRead id) then [] else recorded gens id).foldl (Roots.push flt) .empty

/-! ### The phases -/

/-- The rows the `i`-th query of the closure delivers before it fails. -/
def closureRows (i : Nat) : Option Nat :=
  match flt with
  | some (.closureStep j rows) => if i = j then some rows else none
  | _ => none

/-- The closure as `cmd_gc` holds it: `NULL`, which counts as empty, when there is no root or when
it fails. -/
def gatherClosure (sdb : StoreDb) (roots : Roots) : List Path :=
  if roots.count = 0 ∨ roots.array = none ∨ flt = some .closureNull then []
  else sdb.closureOf (closureRows flt) roots.paths

/-- `store_db_dead_paths`, with `NULL` as the empty list. -/
def gatherDead (sdb : StoreDb) (closure : List Path) : List StoreName :=
  match flt with
  | some .deadNull => []
  | some (.deadStep rows) => sdb.deadPaths rows closure
  | _ => sdb.deadPaths sdb.paths.length closure

/-- `store_db_all_paths`, with `NULL` as the empty list. -/
def gatherAll (sdb : StoreDb) : List StoreName :=
  match flt with
  | some .allNull => []
  | some (.allStep rows) => sdb.allPaths rows
  | _ => sdb.allPaths sdb.paths.length

/-- Deletes one dead path: the directory, and when that worked the row. -/
def deleteDead (w : World) (n : StoreName) : World :=
  let result := sh.rm n w.store
  if result.2 = true ∧ flt ≠ some (.unregister n) then
    { w with store := result.1, sdb := w.sdb.unregister n }
  else { w with store := result.1 }

/-- One round of the orphan scan: hidden names and what is no directory are passed over, and so is
what has to be kept. -/
def sweepEntry (keep : StoreName → Bool) (w : World) (n : StoreName) : World :=
  if n.hidden = true ∨ (w.store.lookup n).any Entry.isDir = false ∨ keep n = true then w
  else { w with store := (sh.rm n w.store).1 }

/-- The orphan scan over the entries the directory had when it was opened. -/
def sweep (keep : StoreName → Bool) (w : World) : World :=
  if flt = some .openStore then w else w.store.keys.foldl (sweepEntry sh keep) w

/-- Whether the orphan scan finds a path in the database, in the closure or among the roots. -/
def keeps (allDb : List StoreName) (closure roots : List Path) (n : StoreName) : Bool :=
  decide (n ∈ allDb) || decide (storePath n ∈ closure) || decide (storePath n ∈ roots)

/-- Whether a scan gets as far as comparing an entry with the roots. -/
def comparesRoots (skip : StoreName → Bool) (store : StoreDir) : Prop :=
  ∃ n ∈ store.keys, n.hidden = false ∧ skip n = false

instance (skip : StoreName → Bool) (store : StoreDir) : Decidable (comparesRoots skip store) :=
  inferInstanceAs (Decidable (∃ n ∈ store.keys, n.hidden = false ∧ skip n = false))

/-- The collection with the refs graph, and whether the process survives it: a lost array of roots
is read in the orphan scan. -/
def collectWithDb (roots : Roots) (w : World) : World × Bool :=
  let closure := gatherClosure flt w.sdb roots
  let dead := gatherDead flt w.sdb closure
  let w := dead.foldl (deleteDead sh flt) w
  let allDb := gatherAll flt w.sdb
  let skip := fun n => !(w.store.lookup n).any Entry.isDir || keeps allDb closure [] n
  if roots.Dangling ∧ flt ≠ some .openStore ∧ comparesRoots skip w.store then (w, false)
  else (sweep sh flt (keeps allDb closure roots.paths) w, true)

/-- What follows the last slash of a path, or all of it. -/
def basename (p : Path) : Bytes := (p.splitOn slash).getLastD []

/-- The set-based collection, when the store database does not open. -/
def collectByName (roots : Roots) (w : World) : World × Bool :=
  if roots.Dangling ∧ flt ≠ some .openStore ∧ comparesRoots (fun _ => false) w.store then (w, false)
  else
    (sweep sh flt
      (fun n => roots.paths.any fun r => decide (basename r = n.val) || decide (r = storePath n)) w,
      true)

/-- Removes an old generation unless it is current or pinned. -/
def dropGeneration (current : Nat) (gens : GenDb) (id : Nat) : GenDb :=
  if id = current ∨ (gens.dirs.lookup id).any GenDir.pinned = true then gens
  else { gens with dirs := gens.dirs.erase id }

/-- `cmd_gc`. -/
def cmdGc (w : World) : World :=
  let gens := listGens flt w.gens
  let current := genDbCurrent w.gens
  let roots := gatherRoots flt w.gens
  let result := if flt = some .dbOpen then collectByName sh flt roots w
    else collectWithDb sh flt roots w
  if result.2 = false ∨ current = 0 then result.1
  else { result.1 with gens := gens.foldl (dropGeneration current) result.1.gens }

end Phases

end Two09.Gc
