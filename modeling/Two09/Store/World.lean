import Two09.Gen.Db
import Two09.Nar.Dump
import Two09.Store.Db

/-!
# Generations, store database and store

The state the commands share, and what of it is live: recorded by a generation, or reachable from
what one records.
-/

namespace Two09.Store

open Two09.Lib Two09.Lib.Posix Two09.Gen Two09.Nar

/-- An entry of `/nix/store`: what it holds, and whether `stat` takes it for a directory (a link may
lead to one). -/
structure Entry where
  tree : FileTree
  isDir : Bool

/-- `/nix/store`. -/
abbrev StoreDir := AList fun _ : StoreName => Entry

/-- What the commands work on. -/
structure World where
  gens : GenDb
  sdb : StoreDb
  store : StoreDir

/-- A machine before its first install. -/
def World.fresh : World := ⟨⟨∅, none, false⟩, .empty, ∅⟩

/-! ### Live paths -/

/-- The store paths a generation records. -/
def recorded (gens : GenDb) (id : Nat) : List Path :=
  (readPackages gens id).filterMap GenPkg.storePath

/-- What the generations record, all in all. -/
def rootsOf (gens : GenDb) : List Path := (genDbList gens).flatMap (recorded gens)

lemma mem_rootsOf {gens : GenDb} {p : Path} :
    p ∈ rootsOf gens ↔ ∃ id ∈ genDbList gens, p ∈ recorded gens id := List.mem_flatMap

namespace World

variable (w : World) (n : StoreName)

/-- Recorded by a generation, or reachable from what one records. -/
def Live : Prop := w.sdb.Live (rootsOf w.gens) (storePath n)

/-- Registered, but not live. -/
def Dead : Prop := n ∈ w.sdb.names ∧ ¬ w.Live n

/-- A directory that is neither hidden nor registered nor live. -/
def Orphan : Prop :=
  n.hidden = false ∧ (w.store.lookup n).any Entry.isDir = true ∧ n ∉ w.sdb.names ∧ ¬ w.Live n

instance : Decidable (w.Live n) :=
  decidable_of_iff (storePath n ∈ w.sdb.closureOf (fun _ => none) (rootsOf w.gens))
    StoreDb.mem_closureOf

end World

end Two09.Store
