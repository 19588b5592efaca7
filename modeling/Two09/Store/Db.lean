import Two09.Store.Path
import Two09.Lib.Worklist

/-!
# The store database

The tables `valid_paths` and `refs` of `db.c` with the constraints the schema declares, and the
operations on them. The registered paths are store paths: every caller registers an entry of
`/nix/store`.

`sqlite3_step` can fail at any row. A query takes the number of rows it delivers before that, so
that one that fails early is the same query with fewer rows.
-/

namespace Two09.Store

open Two09.Lib Two09.Lib.Posix

/-! ### Tables -/

/-- A row of `valid_paths`. -/
structure PathRow where
  id : Nat
  name : StoreName
  hash : Bytes
  narSize : Int
  deriver : Option Bytes
  registrationTime : Nat

def PathRow.path (r : PathRow) : Path := storePath r.name

/-- The row `store_db_register_path` leaves where the path is registered already. -/
def PathRow.refresh (n : StoreName) (hash : Bytes) (narSize : Int) (deriver : Option Bytes)
    (time : Nat) (r : PathRow) : PathRow :=
  if r.name = n then ⟨r.id, r.name, hash, narSize, deriver, time⟩ else r

/-- The two tables, with their keys and foreign keys. -/
structure StoreDb where
  paths : List PathRow
  refs : List (Nat × Nat)
  ids_nodup : (paths.map PathRow.id).Nodup
  names_nodup : (paths.map PathRow.name).Nodup
  refs_nodup : refs.Nodup
  refs_valid : ∀ r ∈ refs, r.1 ∈ paths.map PathRow.id ∧ r.2 ∈ paths.map PathRow.id

/-- A base name looks like that of a package if it holds `-<name>-`, which is put into a buffer of 300
bytes, or starts with `<name>-`. -/
def matchesName (pkgName : Bytes) (n : StoreName) : Bool :=
  decide ((ascii "-" ++ pkgName ++ ascii "-").take 299 <:+: n.val) ||
    (pkgName ++ ascii "-").isPrefixOf n.val

namespace StoreDb

/-- A database without rows. -/
def empty : StoreDb := ⟨[], [], by simp, by simp, by simp, by simp⟩

variable (db : StoreDb)

/-- The names of the registered paths. -/
def names : List StoreName := db.paths.map PathRow.name

/-- `path_to_id`. -/
def pathToId (p : Path) : Option Nat := (db.paths.find? (·.path = p)).map PathRow.id

/-- The path of a row, by id. -/
def idToPath (id : Nat) : Option Path := (db.paths.find? (·.id = id)).map PathRow.path

/-! ### Queries -/

/-- `ORDER BY path`. -/
def orderByPath (ns : List StoreName) : List StoreName :=
  ns.insertionSort fun a b => storePath a ≤ storePath b

/-- `store_db_all_paths`, as names: the first `rows` rows. -/
def allPaths (rows : Nat) : List StoreName := (orderByPath db.names).take rows

/-- The refs query of `store_db_closure`: the paths that the path at hand refers to. -/
def refsOf (p : Path) : List Path :=
  db.refs.filterMap fun r => if db.idToPath r.1 = some p then db.idToPath r.2 else none

/-- `store_db_closure` once its statement is prepared: `rows i` rows come out of the `i`-th
query. -/
def closureOf (rows : Nat → Option Nat) (roots : List Path) : List Path :=
  Worklist.closure
    (fun i p => match rows i with
      | none => db.refsOf p
      | some k => (db.refsOf p).take k)
    (roots.length + db.paths.length + 1) roots

/-- `store_db_dead_paths`, as names, among the first `rows` rows. -/
def deadPaths (rows : Nat) (live : List Path) : List StoreName :=
  (db.allPaths rows).filter fun n => storePath n ∉ live

/-- `store_db_has_path`. -/
def hasPath (p : Path) : Bool := (db.pathToId p).isSome

/-- `store_db_find_by_name`: the first path in order whose base name is long enough and looks like
the package's. -/
def findByName (pkgName : Bytes) : Option StoreName :=
  (db.allPaths db.paths.length).find? fun n =>
    decide (pkgName.length + 2 ≤ n.val.length) && matchesName pkgName n

/-! ### Changes -/

/-- The id `INSERT` gives the next row. -/
def nextId : Nat := (db.paths.map PathRow.id).foldr max 0 + 1

lemma lt_nextId {r : PathRow} (h : r ∈ db.paths) : r.id < db.nextId := by
  have key : ∀ l : List Nat, ∀ x ∈ l, x ≤ l.foldr max 0 := by
    intro l
    induction l with
    | nil => simp
    | cons y l ih =>
      intro x hx
      rcases List.mem_cons.1 hx with rfl | hx
      · exact le_max_left _ _
      · exact (ih x hx).trans (le_max_right _ _)
  exact Nat.lt_succ_of_le (key _ _ (List.mem_map_of_mem h))

/-- Changes the data of rows, but no id and no name. -/
def mapRows (f : PathRow → PathRow) (hid : ∀ r, (f r).id = r.id) (hname : ∀ r, (f r).name = r.name) :
    StoreDb where
  paths := db.paths.map f
  refs := db.refs
  ids_nodup := by simpa [List.map_map, Function.comp_def, hid] using db.ids_nodup
  names_nodup := by simpa [List.map_map, Function.comp_def, hname] using db.names_nodup
  refs_nodup := db.refs_nodup
  refs_valid := by simpa [List.map_map, Function.comp_def, hid] using db.refs_valid

/-- Adds a row for a name that is not registered. -/
def addRow (n : StoreName) (hash : Bytes) (narSize : Int) (deriver : Option Bytes) (time : Nat)
    (h : n ∉ db.names) : StoreDb where
  paths := db.paths ++ [⟨db.nextId, n, hash, narSize, deriver, time⟩]
  refs := db.refs
  ids_nodup := by
    rw [List.map_append, List.nodup_append']
    refine ⟨db.ids_nodup, by simp, fun i hi hi' => ?_⟩
    obtain ⟨r, hr, rfl⟩ := List.mem_map.1 hi
    have hlt := db.lt_nextId hr
    simp only [List.map_cons, List.map_nil, List.mem_singleton] at hi'
    omega
  names_nodup := by
    rw [List.map_append, List.nodup_append']
    refine ⟨db.names_nodup, by simp, fun m hm hm' => ?_⟩
    simp only [List.map_cons, List.map_nil, List.mem_singleton] at hm'
    exact h (hm' ▸ hm)
  refs_nodup := db.refs_nodup
  refs_valid r hr := by
    obtain ⟨h1, h2⟩ := db.refs_valid r hr
    rw [List.map_append]
    exact ⟨List.mem_append_left _ h1, List.mem_append_left _ h2⟩

/-- `store_db_register_path`: an upsert. -/
def register (n : StoreName) (hash : Bytes) (narSize : Int) (deriver : Option Bytes)
    (time : Nat) : StoreDb :=
  if h : n ∈ db.names then
    db.mapRows (PathRow.refresh n hash narSize deriver time)
      (fun r => by unfold PathRow.refresh; split_ifs <;> rfl)
      (fun r => by unfold PathRow.refresh; split_ifs <;> rfl)
  else db.addRow n hash narSize deriver time h

/-- `store_db_add_ref`: both paths have to be registered, and a ref that is there stays. -/
def addRef (referrer reference : Path) : StoreDb :=
  match h₁ : db.pathToId referrer, h₂ : db.pathToId reference with
  | some i, some j =>
    if h : (i, j) ∈ db.refs then db
    else
      { db with
        refs := db.refs ++ [(i, j)]
        refs_nodup := by
          rw [List.nodup_append']
          refine ⟨db.refs_nodup, by simp, fun r hr hr' => ?_⟩
          exact h (List.mem_singleton.1 hr' ▸ hr)
        refs_valid := fun r hr => by
          rcases List.mem_append.1 hr with hr | hr
          · exact db.refs_valid r hr
          · cases List.mem_singleton.1 hr
            unfold pathToId at h₁ h₂
            obtain ⟨a, ha, rfl⟩ := Option.map_eq_some_iff.1 h₁
            obtain ⟨b, hb, rfl⟩ := Option.map_eq_some_iff.1 h₂
            exact ⟨List.mem_map_of_mem (List.mem_of_find?_eq_some ha),
              List.mem_map_of_mem (List.mem_of_find?_eq_some hb)⟩ }
  | _, _ => db

/-- `store_db_unregister_path`: the row goes, and with it the refs from and to it. -/
def unregister (n : StoreName) : StoreDb where
  paths := db.paths.filter (·.name ≠ n)
  refs := db.refs.filter fun r =>
    r.1 ∈ (db.paths.filter (·.name ≠ n)).map PathRow.id ∧
      r.2 ∈ (db.paths.filter (·.name ≠ n)).map PathRow.id
  ids_nodup := db.ids_nodup.sublist (List.filter_sublist.map _)
  names_nodup := db.names_nodup.sublist (List.filter_sublist.map _)
  refs_nodup := db.refs_nodup.filter _
  refs_valid r hr := by simpa using (List.mem_filter.1 hr).2

/-! ### Facts -/

section
variable {db} {n m : StoreName} {p q : Path} {live roots : List Path} {rows : Nat}

lemma mem_allPaths_names (h : n ∈ db.allPaths rows) : n ∈ db.names :=
  (List.mem_insertionSort _).1 (List.mem_of_mem_take h)

lemma mem_allPaths (h : db.paths.length ≤ rows) : n ∈ db.allPaths rows ↔ n ∈ db.names := by
  have hlen : (orderByPath db.names).length ≤ rows := by
    simpa [orderByPath, names] using h
  rw [allPaths, List.take_of_length_le hlen]
  exact List.mem_insertionSort _

lemma mem_deadPaths : n ∈ db.deadPaths rows live ↔ n ∈ db.allPaths rows ∧ storePath n ∉ live := by
  simp [deadPaths]

@[simp] lemma names_unregister : (db.unregister n).names = db.names.filter (· ≠ n) := by
  simp [unregister, names, List.filter_map, Function.comp_def]

lemma idToPath_eq {r : PathRow} (h : r ∈ db.paths) : db.idToPath r.id = some r.path := by
  have key : ∀ rows : List PathRow, (rows.map PathRow.id).Nodup → r ∈ rows →
      rows.find? (·.id = r.id) = some r := by
    intro rows
    induction rows with
    | nil => intro _ hr; cases hr
    | cons s rows ih =>
      intro hnd hr
      obtain ⟨hs, hnd⟩ := List.nodup_cons.1 (List.map_cons (f := PathRow.id) ▸ hnd)
      rcases List.mem_cons.1 hr with rfl | hr
      · simp
      · have hne : s.id ≠ r.id := fun h => hs (h ▸ List.mem_map_of_mem hr)
        rw [List.find?_cons_of_neg (by simpa using hne)]
        exact ih hnd hr
  rw [idToPath, key db.paths db.ids_nodup h]
  rfl

/-- The refs query joins the rows of a ref. -/
lemma mem_refsOf :
    q ∈ db.refsOf p ↔
      ∃ a ∈ db.paths, ∃ b ∈ db.paths, a.path = p ∧ b.path = q ∧ (a.id, b.id) ∈ db.refs := by
  unfold refsOf
  rw [List.mem_filterMap]
  constructor
  · rintro ⟨r, hr, hq⟩
    obtain ⟨ha, hb⟩ := db.refs_valid r hr
    obtain ⟨a, ha, hai⟩ := List.mem_map.1 ha
    obtain ⟨b, hb, hbi⟩ := List.mem_map.1 hb
    rw [← hai, ← hbi, idToPath_eq ha, idToPath_eq hb] at hq
    split_ifs at hq with hp
    exact ⟨a, ha, b, hb, Option.some.inj hp, Option.some.inj hq, by rw [hai, hbi]; exact hr⟩
  · rintro ⟨a, ha, b, hb, rfl, rfl, hr⟩
    refine ⟨(a.id, b.id), hr, ?_⟩
    rw [idToPath_eq ha, idToPath_eq hb, if_pos rfl]

/-- Unregistering a path takes its refs away and no others. -/
lemma mem_refsOf_unregister :
    q ∈ (db.unregister n).refsOf p ↔ q ∈ db.refsOf p ∧ p ≠ storePath n ∧ q ≠ storePath n := by
  have hrow : ∀ r : PathRow, r ∈ (db.unregister n).paths ↔ r ∈ db.paths ∧ r.path ≠ storePath n := by
    intro r
    simp [unregister, PathRow.path]
  have href : ∀ a ∈ (db.unregister n).paths, ∀ b ∈ (db.unregister n).paths,
      ((a.id, b.id) ∈ (db.unregister n).refs ↔ (a.id, b.id) ∈ db.refs) := by
    intro a ha b hb
    have ha' := List.mem_map_of_mem (f := PathRow.id) ha
    have hb' := List.mem_map_of_mem (f := PathRow.id) hb
    simp only [unregister, List.mem_filter, decide_eq_true_eq] at ha' hb' ⊢
    exact ⟨fun h => h.1, fun h => ⟨h, ha', hb'⟩⟩
  rw [mem_refsOf, mem_refsOf]
  constructor
  · rintro ⟨a, ha, b, hb, rfl, rfl, hr⟩
    obtain ⟨ha', hane⟩ := (hrow a).1 ha
    obtain ⟨hb', hbne⟩ := (hrow b).1 hb
    exact ⟨⟨a, ha', b, hb', rfl, rfl, (href a ha b hb).1 hr⟩, hane, hbne⟩
  · rintro ⟨⟨a, ha, b, hb, rfl, rfl, hr⟩, hane, hbne⟩
    have ha' := (hrow a).2 ⟨ha, hane⟩
    have hb' := (hrow b).2 ⟨hb, hbne⟩
    exact ⟨a, ha', b, hb', rfl, rfl, (href a ha' b hb').2 hr⟩

/-- Registering a path makes no ref. -/
lemma mem_refsOf_register {hash : Bytes} {narSize : Int} {deriver : Option Bytes} {time : Nat}
    (h : q ∈ (db.register n hash narSize deriver time).refsOf p) : q ∈ db.refsOf p := by
  obtain ⟨a, ha, b, hb, rfl, rfl, hr⟩ := mem_refsOf.1 h
  unfold register at ha hb hr
  split_ifs at ha hb hr with hn
  · have hrow : ∀ r ∈ db.paths.map (PathRow.refresh n hash narSize deriver time),
        ∃ s ∈ db.paths, s.id = r.id ∧ s.path = r.path := by
      intro r hr
      obtain ⟨s, hs, rfl⟩ := List.mem_map.1 hr
      refine ⟨s, hs, ?_⟩
      unfold PathRow.refresh
      split_ifs <;> exact ⟨rfl, rfl⟩
    obtain ⟨a', ha', haid, hapath⟩ := hrow a ha
    obtain ⟨b', hb', hbid, hbpath⟩ := hrow b hb
    exact mem_refsOf.2 ⟨a', ha', b', hb', hapath, hbpath, by rw [haid, hbid]; exact hr⟩
  · -- the row that is added has an id that no ref knows
    have hold : ∀ r ∈ (db.addRow n hash narSize deriver time hn).paths,
        r.id ∈ db.paths.map PathRow.id → r ∈ db.paths := by
      intro r hr hid
      rcases List.mem_append.1 hr with hr | hr
      · exact hr
      · obtain rfl := List.mem_singleton.1 hr
        obtain ⟨s, hs, hid⟩ := List.mem_map.1 hid
        exact absurd hid (Nat.ne_of_lt (db.lt_nextId hs))
    obtain ⟨haid, hbid⟩ := db.refs_valid _ hr
    exact mem_refsOf.2 ⟨a, hold a ha haid, b, hold b hb hbid, rfl, rfl, hr⟩

/-- Adding a ref makes no other. -/
lemma mem_refsOf_addRef {referrer reference : Path}
    (h : q ∈ (db.addRef referrer reference).refsOf p) :
    q ∈ db.refsOf p ∨ p = referrer ∧ q = reference := by
  have hpath : ∀ x i, db.pathToId x = some i → ∀ r ∈ db.paths, r.id = i → r.path = x := by
    intro x i hi r hr hid
    unfold pathToId at hi
    obtain ⟨s, hs, rfl⟩ := Option.map_eq_some_iff.1 hi
    have hsame := (idToPath_eq hr).symm.trans
      ((congrArg db.idToPath hid).trans (idToPath_eq (List.mem_of_find?_eq_some hs)))
    rw [Option.some.inj hsame]
    simpa using List.find?_some hs
  unfold addRef at h
  split at h
  next i j hi hj =>
    split_ifs at h
    · exact .inl h
    · obtain ⟨a, ha, b, hb, rfl, rfl, hr⟩ := mem_refsOf.1 h
      rcases List.mem_append.1 hr with hr | hr
      · exact .inl (mem_refsOf.2 ⟨a, ha, b, hb, rfl, rfl, hr⟩)
      · obtain ⟨haid, hbid⟩ := Prod.mk.inj (List.mem_singleton.1 hr)
        exact .inr ⟨hpath referrer i hi a ha haid, hpath reference j hj b hb hbid⟩
  next => exact .inl h

/-- What the refs query yields is registered. -/
lemma refsOf_registered (h : q ∈ db.refsOf p) : ∃ m ∈ db.names, q = storePath m := by
  obtain ⟨r, -, hr⟩ := List.mem_filterMap.1 h
  split_ifs at hr with hp
  unfold idToPath at hr
  obtain ⟨row, hrow, rfl⟩ := Option.map_eq_some_iff.1 hr
  exact ⟨row.name, List.mem_map_of_mem (List.mem_of_find?_eq_some hrow), rfl⟩

/-- Reachable from the roots along the refs. -/
def Live (db : StoreDb) (roots : List Path) (p : Path) : Prop :=
  Worklist.Reachable db.refsOf roots p

lemma Live.root_or_registered (h : db.Live roots p) :
    p ∈ roots ∨ ∃ m ∈ db.names, p = storePath m := by
  refine h.mem_of_closed (S := fun p => p ∈ roots ∨ ∃ m ∈ db.names, p = storePath m)
    (fun r hr => .inl hr) fun x _ y hy => .inr (refsOf_registered hy)

/-- **The closure of the roots is what is live**, when no query fails. -/
theorem mem_closureOf : p ∈ db.closureOf (fun _ => none) roots ↔ db.Live roots p := by
  have hlen : (roots ++ db.names.map storePath).length < roots.length + db.paths.length + 1 := by
    simp [names]
  refine Worklist.mem_closure_iff (fun _ _ => rfl) (fun a ha => ?_) hlen
  rcases Live.root_or_registered ha with h | ⟨m, hm, rfl⟩
  · exact List.mem_append_left _ h
  · exact List.mem_append_right _ (List.mem_map_of_mem hm)

/-- A closure whose queries fail early holds the roots, and nothing that is not live. -/
theorem closureOf_partial {rows : Nat → Option Nat} :
    (∀ r ∈ roots, r ∈ db.closureOf rows roots) ∧
      ∀ q ∈ db.closureOf rows roots, db.Live roots q := by
  refine ⟨fun r hr => Worklist.root_mem_closure hr, fun q hq => ?_⟩
  refine Worklist.reachable_of_mem_closure (fun i a b hb => ?_) hq
  cases hi : rows i with
  | none => simpa [hi] using hb
  | some k => exact List.mem_of_mem_take (by simpa [hi] using hb)

end

end StoreDb

end Two09.Store
