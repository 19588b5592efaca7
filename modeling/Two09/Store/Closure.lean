import Two09.Store.Db

/-!
# Closures and dead paths

`store_db_closure` and `store_db_dead_paths` as functions of a refs graph and an array of roots.
-/

namespace Two09.Store

open Two09.Lib Two09.Lib.Posix

namespace StoreDb

variable (db : StoreDb)

/-- A path refers to another: their rows are in `refs`. -/
def RefersTo (p q : Path) : Prop :=
  ∃ a ∈ db.paths, ∃ b ∈ db.paths, a.path = p ∧ b.path = q ∧ (a.id, b.id) ∈ db.refs

/-- Reachable from an entry of the array, which can be `NULL`, by zero or more refs. -/
def ReachableFrom (roots : List (Option Path)) (p : Path) : Prop :=
  ∃ r, some r ∈ roots ∧ Relation.ReflTransGen db.RefersTo r p

/-- `store_db_closure`, which returns `NULL` for an array without entries. -/
def storeDbClosure (roots : List (Option Path)) : Option (List Path) :=
  if roots = [] then none else some (db.closureOf (fun _ => none) roots.reduceOption)

/-- The paths in what `store_db_closure` returns: in `NULL` there are none. -/
def listed (closure : Option (List Path)) : List Path := closure.getD []

/-- `store_db_dead_paths` of what `store_db_closure` returned. -/
def storeDbDeadPaths (closure : Option (List Path)) : List StoreName :=
  db.deadPaths db.paths.length (listed closure)

section
variable {db} {roots : List (Option Path)} {p : Path} {n : StoreName}

lemma reachableFrom_iff : db.ReachableFrom roots p ↔ db.Live roots.reduceOption p := by
  have hrefs : db.RefersTo = fun a b => b ∈ db.refsOf a := by
    funext a b
    exact propext mem_refsOf.symm
  unfold ReachableFrom Live Worklist.Reachable Worklist.Reach
  rw [hrefs]
  simp only [List.reduceOption_mem_iff]

lemma listed_storeDbClosure :
    listed (db.storeDbClosure roots) = db.closureOf (fun _ => none) roots.reduceOption := by
  unfold storeDbClosure listed
  split_ifs with h
  · subst h
    rfl
  · rfl

/-- The loop ends: there are no more paths to be found than roots and registered paths. -/
lemma closureOf_ends (roots : List Path) :
    Worklist.Ends (fun _ p => db.refsOf p) (roots.length + db.paths.length + 1)
      (Worklist.setAddAll [] roots) 0 := by
  have huniv : ∀ p, Worklist.Reachable db.refsOf roots p → p ∈ roots ++ db.names.map storePath := by
    intro p hp
    rcases Live.root_or_registered hp with h | ⟨m, hm, rfl⟩
    · exact List.mem_append_left _ h
    · exact List.mem_append_right _ (List.mem_map_of_mem hm)
  exact Worklist.drain_ends (fun _ _ _ h => h) Worklist.base_init (Nat.zero_le _) huniv (by simp [names])

lemma nodup_deadPaths {rows : Nat} {live : List Path} : (db.deadPaths rows live).Nodup := by
  have hperm : (orderByPath db.names).Perm db.names := List.perm_insertionSort _ _
  exact ((hperm.nodup_iff.2 db.names_nodup).sublist (List.take_sublist _ _)).filter _

/-- What `store_db_closure` and, of its list, `store_db_dead_paths` return. -/
structure Partitioned (db : StoreDb) (roots : List (Option Path)) (closure : Option (List Path))
    (dead : List StoreName) : Prop where
  null : closure = none ↔ roots = []
  mem_live : ∀ p, p ∈ listed closure ↔ db.ReachableFrom roots p
  nodup_live : (listed closure).Nodup
  mem_dead : ∀ n, n ∈ dead ↔ n ∈ db.names ∧ storePath n ∉ listed closure
  nodup_dead : dead.Nodup

/-- **The closure of the roots and what is outside it.** The search ends, after as many rounds as there are roots
and registered paths. -/
theorem closure_and_dead (db : StoreDb) (roots : List (Option Path)) :
    Worklist.Ends (fun _ p => db.refsOf p) (roots.reduceOption.length + db.paths.length + 1)
        (Worklist.setAddAll [] roots.reduceOption) 0 ∧
      Partitioned db roots (db.storeDbClosure roots) (db.storeDbDeadPaths (db.storeDbClosure roots)) := by
  refine ⟨closureOf_ends _, ⟨?_, fun p => ?_, ?_, fun n => ?_, nodup_deadPaths⟩⟩
  · unfold storeDbClosure
    split_ifs with h <;> simp [h]
  · rw [listed_storeDbClosure, reachableFrom_iff]
    exact mem_closureOf
  · rw [listed_storeDbClosure]
    exact Worklist.nodup_closure
  · unfold storeDbDeadPaths
    rw [mem_deadPaths, mem_allPaths le_rfl]

end

end StoreDb

end Two09.Store
