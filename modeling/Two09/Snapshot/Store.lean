import Two09.Store.Address
import Two09.Store.World

/-!
# Snapshots and shares

What `snapshot.c` and `share.c` put into `/nix/store`, and the table of the snapshots. Next to the
world and the table stand two records that the program does not keep: the shares that were taken
and not removed, and what each snapshot and each share held when it was taken.
-/

namespace Two09.Snapshot

open Two09.Lib Two09.Lib.Posix Two09.Nar Two09.Store

/-- A row of the `snapshots` table. -/
structure Row where
  id : Nat
  path : Bytes
  storePath : StoreName
  narHash : Bytes
  parentId : Option Nat
  message : Option Bytes
  takenAt : Nat
  scope : Bytes

/-- The rows stand in the order of their ids. -/
structure State where
  world : World
  rows : List Row
  shares : List StoreName
  copies : StoreDir

/-- A machine on which no snapshot and no share was taken. -/
def State.start (w : World) : State := ⟨w, [], [], ∅⟩

/-- Notes what stands at a store path. -/
def State.copied (s : State) (n : StoreName) : State :=
  match s.world.store.lookup n with
  | some e => { s with copies := s.copies.insert n e }
  | none => s

/-- A new entry of `/nix/store`. -/
def State.put (s : State) (n : StoreName) (e : Entry) : State :=
  { s with world := { s.world with store := s.world.store.insert n e } }

/-- `strrchr(path, '/') + 1`, or the whole path. -/
def baseName (path : Bytes) : Bytes := (path.reverse.takeWhile (· ≠ slash)).reverse

section
variable (sha256 : Bytes → Bytes)

/-! ### Snapshots -/

/-- A call of `snapshot_take`. The tree is what stands in the temporary directory once `cp -a` has
returned 0: there is none if the path is no directory or cannot be copied. -/
structure Take where
  path : Bytes
  scope : Bytes
  message : Option Bytes
  staged : Option FileTree
  pid : Bytes
  time : Nat
  /-- the `INSERT` goes through -/
  inserted : Bool

/-- `hashable`: where the copy is staged. -/
def Take.hashable (t : Take) (sanitized : Bytes) : Path :=
  storeDir ++ ascii ".tmp/snap-" ++ sanitized ++ ascii "-" ++ t.pid ++ ascii "/" ++ baseName t.path

/-- The tree, its hash and the store path it belongs to. -/
def Take.address (t : Take) : Option (FileTree × Bytes × StoreName) := do
  let sanitized ← sanitizePathForName t.path
  let tree ← t.staged
  if pathMax ≤ (t.hashable sanitized).length then none
  else
    let (narHash, _) ← narHashDirectory sha256 (t.hashable sanitized) tree
    let n ← (computeSnapshotStorePath sha256 narHash sanitized).bind entryName?
    pure (tree, narHash, n)

/-- The most recent snapshot of a path. -/
def newestOf (rows : List Row) (path : Bytes) : Option Nat :=
  ((rows.filter (·.path = path)).map Row.id).max?

/-- The id of the next row. -/
def nextId (rows : List Row) : Nat := (rows.map Row.id).max?.getD 0 + 1

def Take.row (t : Take) (rows : List Row) (narHash : Bytes) (n : StoreName) : Row where
  id := nextId rows
  path := t.path
  storePath := n
  narHash := narHash
  parentId := newestOf rows t.path
  message := t.message
  takenAt := t.time
  scope := t.scope

/-- The staged copy goes to its address, unless something is there. -/
def State.stage (s : State) (n : StoreName) (tree : FileTree) : State :=
  if (s.world.store.lookup n).isSome then s else s.put n ⟨tree, decide (tree.root = .dir)⟩

/-- `snapshot_take`, and the id it returns. -/
def snapshotTake (t : Take) (s : State) : State × Option Nat :=
  match t.address sha256 with
  | none => (s, none)
  | some (tree, narHash, n) =>
    let s := s.stage n tree
    if t.inserted then
      ({ s.copied n with rows := s.rows ++ [t.row s.rows narHash n] }, some (nextId s.rows))
    else (s, none)

/-- `ON DELETE SET NULL` -/
def Row.orphaned (id : Nat) (r : Row) : Row :=
  if r.parentId = some id then { r with parentId := none } else r

/-- `snapshot_remove` -/
def snapshotRemove (s : State) (id : Nat) : State :=
  { s with rows := (s.rows.filter (·.id ≠ id)).map (Row.orphaned id) }

/-- `snapshot_prune`: the snapshots of a path but for the last ones go. -/
def snapshotPrune (path : Bytes) (keep : Int) (s : State) : State :=
  if keep ≤ 0 then s
  else
    let list := s.rows.filter (·.path = path)
    ((list.take (list.length - keep.toNat)).map Row.id).foldl snapshotRemove s

/-! ### Shares -/

/-- A call of `share_take`: what stands at the path, and whether it can be copied. -/
structure Share where
  path : Bytes
  tree : Option FileTree
  copyable : Bool

/-- A single file is shared in a directory of its own. -/
def Share.copy (t : Share) : FileTree → FileTree
  | .directory es => .directory es
  | tree => .directory [(baseName t.path, tree)]

/-- The tree and the store path it belongs to. -/
def Share.address (t : Share) : Option (FileTree × StoreName) := do
  let tree ← if t.path.head? = some slash then t.tree else none
  let (narHash, _) ← narHashDirectory sha256 t.path tree
  let n ← entryName? (computeStorePath sha256 narHash (ascii "share") (baseName t.path))
  pure (tree, n)

/-- A store path is returned to the user as a share. -/
def State.share (s : State) (n : StoreName) : State :=
  { s.copied n with shares := n :: s.shares }

/-- `share_take`, and the store path it returns. -/
def shareTake (t : Share) (s : State) : State × Option StoreName :=
  match t.address sha256 with
  | none => (s, none)
  | some (tree, n) =>
    if (s.world.store.lookup n).isSome then (s.share n, some n)
    else if t.copyable then ((s.put n ⟨t.copy tree, true⟩).share n, some n)
    else (s, none)

end

/-- The share `share_remove` finds for a hash. -/
def findShare (hash : Bytes) (s : State) : Option StoreName :=
  s.world.store.keys.find? fun n => isShareDir n.val && decide (n.val.take 32 = hash.take 32)

/-- `share_remove` -/
def shareRemove (hash : Bytes) (s : State) : State :=
  match findShare hash s with
  | none => s
  | some n =>
    { s with
      world := { s.world with store := s.world.store.erase n }
      shares := s.shares.filter (· ≠ n) }

end Two09.Snapshot
