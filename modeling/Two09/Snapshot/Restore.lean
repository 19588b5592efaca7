import Two09.Exec.Lines
import Two09.Snapshot.Diff
import Two09.Snapshot.Table

/-!
# `snapshot_restore`

What stands at the path is snapshotted, then it is removed, and then the store path is copied there. Nothing looks at
what the removal leaves, and nothing brings the tree back when a later step fails.
-/

namespace Two09.Snapshot

open Two09.Lib Two09.Lib.Posix Two09.Nar Two09.Store

/-! ### The program -/

/-- One call of `snapshot_restore`, and what the system does in it. -/
structure Restore where
  id : Nat
  /-- what stands at the recorded path -/
  before : Option FileTree
  /-- the copy for the snapshot of it is made -/
  stages : Bool
  pid : Bytes
  time : Nat
  /-- the row of that snapshot is inserted -/
  inserted : Bool
  /-- what of it is not removed -/
  leftover : Option FileTree
  /-- `mkdir(parent)` makes a directory -/
  makesParent : Bool
  /-- the second `cp -a` is able to copy -/
  copies : Bool
  /-- what it makes of an entry that has the name of the store path already -/
  merges : FileTree → FileTree → Option FileTree
  /-- what comes of a line that the shell does not read as it is meant: whether it returns 0, and what stands at the
  path then -/
  stray : Bool × Option FileTree

/-- What the temporary directory of a snapshot shows at the base name of the path: itself, if the path ends with a
slash. -/
def stagedTree (path : Path) (t : FileTree) : FileTree :=
  if path.getLast? = some slash then .directory [((names path).getLast?.getD [], t)] else t

/-- `cp -a` of a directory: into the directory that is there, or else in its place. -/
def cpOnto (merges : FileTree → FileTree → Option FileTree) (name : Name) (src : FileTree) :
    Option FileTree → Option FileTree
  | none => some src
  | some (.directory es) =>
    match es.find? fun e => decide (e.1 = name) with
    | none => some (.directory (es ++ [(name, src)]))
    | some (_, old) => (merges old src).map fun t => .directory (es.map fun e => if e.1 = name then (name, t) else e)
  | some _ => none

/-- The line that copies the store path to the recorded path. -/
def restoreLine (r : Row) : Exec.Call := .copyTree (storeDir ++ r.storePath.val) r.path

namespace Restore

variable (x : Restore)

/-- The call of `snapshot_take` for the state before. -/
def take (r : Row) (t : FileTree) : Take where
  path := r.path
  scope := r.scope
  message := some (ascii "auto: pre-restore state")
  staged := if t.root = .dir ∧ x.stages = true then some (stagedTree r.path t) else none
  pid := x.pid
  time := x.time
  inserted := x.inserted

/-- The snapshot of the state before, and whether the restore goes on. -/
def preRestore (sha256 : Bytes → Bytes) (r : Row) (s : State) : State × Bool :=
  match x.before with
  | none => (s, true)
  | some t => ((snapshotTake sha256 (x.take r t) s).1, (snapshotTake sha256 (x.take r t) s).2.isSome)

/-- What stands at the path after `rmtree` or `unlink`. -/
def removed : Option FileTree := x.before.bind fun _ => x.leftover

/-- What stands there after `mkdir(parent)`: with a slash at its end, a path is its own parent. -/
def remains (path : Path) : Option FileTree :=
  match x.removed with
  | some t => some t
  | none => if path.getLast? = some slash ∧ x.makesParent = true then some (.directory []) else none

/-- What `cp -a` makes of it, unless it fails. -/
def copied (r : Row) (s : State) : Option FileTree :=
  if x.copies then (s.world.store.lookup r.storePath).bind fun e =>
    cpOnto x.merges r.storePath.val e.tree (x.remains r.path)
  else none

/-- `system(cmd)`, and what stands at the path then. -/
def system (r : Row) (s : State) : Bool × Option FileTree :=
  if (restoreLine r).Literal then
    match x.copied r s with
    | some t => (true, some t)
    | none => (false, x.remains r.path)
  else x.stray

end Restore

/-- `snapshot_restore`: whether it returns 0, what stands at the path afterwards, and the store and the table. -/
def snapshotRestore (sha256 : Bytes → Bytes) (x : Restore) (s : State) : Bool × Option FileTree × State :=
  match snapshotGet s x.id with
  | none => (false, x.before, s)
  | some r =>
    match x.preRestore sha256 r s with
    | (s, false) => (false, x.before, s)
    | (s, true) =>
      if slash ∉ r.path then (false, x.removed, s)
      else if (restoreLine r).TooLong then (false, x.remains r.path, s)
      else ((x.system r s).1, (x.system r s).2, s)

/-! ### What is asked for -/

/-- The NAR hash of a tree, wherever it stands. -/
def HashOf (sha256 : Bytes → Bytes) (t : FileTree) (hash : Bytes) : Prop :=
  ∃ p b, narDump p t = some b ∧ hash = hex (sha256 b)

/-- The same objects at the same paths, or nothing both times. -/
def SameTree (t t' : Option FileTree) : Prop := t.map FileTree.lookup = t'.map FileTree.lookup

/-- A restore that returns 0 has brought the snapshot back and has kept what was there; one that does not has changed
nothing. -/
structure RestoresOrKeeps (sha256 : Bytes → Bytes) (x : Restore) (s : State) : Prop where
  restored : (snapshotRestore sha256 x s).1 = true → ∃ r, snapshotGet s x.id = some r ∧
    (∃ t, (snapshotRestore sha256 x s).2.1 = some t ∧ HashOf sha256 t r.narHash) ∧
    ∀ t, x.before = some t → ∃ row ∈ (snapshotRestore sha256 x s).2.2.rows,
      row.id ∉ s.rows.map Row.id ∧ row.path = r.path ∧ HashOf sha256 t row.narHash
  kept : (snapshotRestore sha256 x s).1 = false → SameTree (snapshotRestore sha256 x s).2.1 x.before

/-- The line is not run, or `cp` fails. -/
def Restore.Fails (x : Restore) (r : Row) (s : State) : Prop :=
  slash ∉ r.path ∨ (restoreLine r).TooLong ∨ (restoreLine r).Literal ∧ x.copied r s = none

/-- The ways in which a restore goes well. -/
inductive GoesWell (sha256 : Bytes → Bytes) (x : Restore) (s : State) : Prop
  /-- there is no such snapshot -/
  | unknown : snapshotGet s x.id = none → GoesWell sha256 x s
  /-- the state before could not be snapshotted -/
  | aborted {r} : snapshotGet s x.id = some r → (x.preRestore sha256 r s).2 = false → GoesWell sha256 x s
  /-- the path was emptied and the store path still holds what was recorded -/
  | copied {r s' e} : snapshotGet s x.id = some r → x.preRestore sha256 r s = (s', true) → slash ∈ r.path →
      r.path.getLast? ≠ some slash → ¬ (restoreLine r).TooLong → (restoreLine r).Literal → x.removed = none →
      x.copies = true → s'.world.store.lookup r.storePath = some e → HashOf sha256 e.tree r.narHash → GoesWell sha256 x s
  /-- nothing was copied, and what is left is what was there -/
  | untouched {r s'} : snapshotGet s x.id = some r → x.preRestore sha256 r s = (s', true) → x.Fails r s' →
      SameTree (x.remains r.path) x.before → GoesWell sha256 x s
  /-- the shell has read another line, which has failed and left the path as it was -/
  | strayed {r s'} : snapshotGet s x.id = some r → x.preRestore sha256 r s = (s', true) → slash ∈ r.path →
      ¬ (restoreLine r).TooLong → ¬ (restoreLine r).Literal → x.stray.1 = false → SameTree x.stray.2 x.before →
      GoesWell sha256 x s
  /-- something else was copied to the path, or copied elsewhere, and has the recorded hash by chance -/
  | chance {r s' t} : snapshotGet s x.id = some r → x.preRestore sha256 r s = (s', true) → slash ∈ r.path →
      ¬ (restoreLine r).TooLong → r.path.getLast? = some slash ∨ ¬ (restoreLine r).Literal ∨ x.removed ≠ none →
      x.system r s' = (true, some t) → HashOf sha256 t r.narHash →
      (∀ u, x.before = some u → ∃ hash, HashOf sha256 (stagedTree r.path u) hash ∧ HashOf sha256 u hash) →
      GoesWell sha256 x s

/-! ### The snapshot of the state before -/

section Before
variable {sha256 : Bytes → Bytes} {x : Restore} {s s' : State} {r row : Row} {t t' tree : FileTree}
  {narHash hash hash' : Bytes} {n : StoreName} {i : Nat} {tk : Take}

lemma hashOf_unique (h : HashOf sha256 t hash) (h' : HashOf sha256 t hash') : hash = hash' := by
  obtain ⟨p, b, hb, rfl⟩ := h
  obtain ⟨q, c, hc, rfl⟩ := h'
  obtain ⟨-, b', hb', rfl⟩ := narDump_some hb
  obtain ⟨-, c', hc', rfl⟩ := narDump_some hc
  rw [dumpNode_unique t hb' hc']

/-- The hash of an address is that of the staged tree. -/
lemma hashOf_of_address (h : tk.address sha256 = some (tree, narHash, n)) :
    tk.staged = some tree ∧ HashOf sha256 tree narHash := by
  unfold Take.address at h
  obtain ⟨sanitized, -, h⟩ := Option.bind_eq_some_iff.1 h
  obtain ⟨tree', htree, h⟩ := Option.bind_eq_some_iff.1 h
  split_ifs at h
  obtain ⟨⟨narHash', size⟩, hhash, h⟩ := Option.bind_eq_some_iff.1 h
  obtain ⟨n', -, h⟩ := Option.bind_eq_some_iff.1 h
  cases h
  refine ⟨htree, ?_⟩
  obtain ⟨b, hb, heq⟩ := Option.map_eq_some_iff.1 hhash
  cases heq
  exact ⟨_, b, hb, rfl⟩

lemma rows_stage : (s.stage n tree).rows = s.rows := by
  unfold State.stage
  split_ifs
  · rfl
  · rfl

/-- A snapshot that was taken is a new row with the hash of what was staged. -/
lemma snapshotTake_isSome (h : (snapshotTake sha256 tk s).2.isSome = true) :
    ∃ row tree, (snapshotTake sha256 tk s).1.rows = s.rows ++ [row] ∧ row.id ∉ s.rows.map Row.id ∧
      row.path = tk.path ∧ tk.staged = some tree ∧ HashOf sha256 tree row.narHash := by
  unfold snapshotTake at h ⊢
  cases haddr : tk.address sha256 with
  | none =>
    rw [haddr] at h
    cases h
  | some a =>
    obtain ⟨tree, narHash, n⟩ := a
    rw [haddr] at h
    dsimp only at h ⊢
    obtain ⟨hstaged, hhash⟩ := hashOf_of_address haddr
    split_ifs at h ⊢ with hinserted
    · refine ⟨tk.row s.rows narHash n, tree, ?_, ?_, rfl, hstaged, hhash⟩
      · show (s.stage n tree).rows ++ [_] = _
        rw [rows_stage]
      · intro hmem
        obtain ⟨row, hrow, hid⟩ := List.mem_map.1 hmem
        exact absurd (lt_nextId hrow) (by rw [hid]; exact lt_irrefl _)
    · cases h

/-- What was there is snapshotted before the restore goes on. -/
lemma preRestore_rows (hpre : x.preRestore sha256 r s = (s', true)) (hbefore : x.before = some t) :
    ∃ row, s'.rows = s.rows ++ [row] ∧ row.id ∉ s.rows.map Row.id ∧ row.path = r.path ∧
      HashOf sha256 (stagedTree r.path t) row.narHash := by
  unfold Restore.preRestore at hpre
  rw [hbefore] at hpre
  obtain ⟨rfl, hsome⟩ := Prod.mk.inj hpre
  obtain ⟨row, tree, hrows, hid, hpath, hstaged, hhash⟩ := snapshotTake_isSome hsome
  refine ⟨row, hrows, hid, hpath, ?_⟩
  unfold Restore.take at hstaged
  dsimp only at hstaged
  split_ifs at hstaged
  cases hstaged
  exact hhash

/-- The snapshot has the hash of what was there if and only if the staged tree has. -/
lemma kept_row_iff (hpre : x.preRestore sha256 r s = (s', true)) (hbefore : x.before = some t) :
    (∃ row ∈ s'.rows, row.id ∉ s.rows.map Row.id ∧ row.path = r.path ∧ HashOf sha256 t row.narHash) ↔
      ∃ hash, HashOf sha256 (stagedTree r.path t) hash ∧ HashOf sha256 t hash := by
  obtain ⟨row, hrows, hid, hpath, hhash⟩ := preRestore_rows hpre hbefore
  constructor
  · rintro ⟨row', hmem, hid', -, hhash'⟩
    rw [hrows, List.mem_append, List.mem_singleton] at hmem
    rcases hmem with hmem | rfl
    · exact absurd (List.mem_map_of_mem hmem) hid'
    · exact ⟨_, hhash, hhash'⟩
  · rintro ⟨hash, hstaged, ht⟩
    refine ⟨row, ?_, hid, hpath, hashOf_unique hhash hstaged ▸ ht⟩
    rw [hrows]
    exact List.mem_append_right _ List.mem_cons_self

end Before

/-! ### The whole restore -/

section Whole
variable {sha256 : Bytes → Bytes} {x : Restore} {s s' : State} {r : Row} {t : FileTree}

lemma remains_eq_removed (h : r.path.getLast? ≠ some slash) : x.remains r.path = x.removed := by
  unfold Restore.remains
  cases x.removed with
  | none => exact if_neg fun hand => h hand.1
  | some t => rfl

lemma stagedTree_eq (h : r.path.getLast? ≠ some slash) (t : FileTree) : stagedTree r.path t = t := if_neg h

/-- The restore once the state before is snapshotted. -/
lemma snapshotRestore_eq (hget : snapshotGet s x.id = some r) (hpre : x.preRestore sha256 r s = (s', true)) :
    snapshotRestore sha256 x s = if slash ∉ r.path then (false, x.removed, s')
      else if (restoreLine r).TooLong then (false, x.remains r.path, s')
      else ((x.system r s').1, (x.system r s').2, s') := by
  unfold snapshotRestore
  rw [hget]
  dsimp only
  rw [hpre]

/-- Where the line is not run or `cp` fails, what the removal leaves is what stands there. -/
lemma snapshotRestore_fails (hget : snapshotGet s x.id = some r) (hpre : x.preRestore sha256 r s = (s', true))
    (hfails : x.Fails r s') : snapshotRestore sha256 x s = (false, x.remains r.path, s') := by
  rw [snapshotRestore_eq hget hpre]
  by_cases hslash : slash ∈ r.path
  · rw [if_neg (not_not.2 hslash)]
    split_ifs with hlong
    · rfl
    · rcases hfails with h | h | ⟨hlit, hcopied⟩
      · exact absurd hslash h
      · exact absurd h hlong
      · unfold Restore.system
        rw [if_pos hlit, hcopied]
  · have hlast : r.path.getLast? ≠ some slash := fun h => hslash (List.mem_of_getLast? h)
    rw [if_pos hslash, remains_eq_removed hlast]

/-- A line that is run decides. -/
lemma snapshotRestore_runs (hget : snapshotGet s x.id = some r) (hpre : x.preRestore sha256 r s = (s', true))
    (hslash : slash ∈ r.path) (hlong : ¬ (restoreLine r).TooLong) :
    snapshotRestore sha256 x s = ((x.system r s').1, (x.system r s').2, s') := by
  rw [snapshotRestore_eq hget hpre, if_neg (not_not.2 hslash), if_neg hlong]

/-- What a restore that succeeds is asked for. -/
lemma restoresOrKeeps_of_success (hget : snapshotGet s x.id = some r) (hpre : x.preRestore sha256 r s = (s', true))
    (hrun : snapshotRestore sha256 x s = (true, some t, s')) : RestoresOrKeeps sha256 x s ↔
      HashOf sha256 t r.narHash ∧
        ∀ u, x.before = some u → ∃ hash, HashOf sha256 (stagedTree r.path u) hash ∧ HashOf sha256 u hash := by
  constructor
  · rintro ⟨hrestored, -⟩
    obtain ⟨r', hget', ⟨t', ht', hhash⟩, hrow⟩ := hrestored (by rw [hrun])
    obtain rfl := Option.some.inj (hget.symm.trans hget')
    rw [hrun] at ht' hrow
    cases ht'
    exact ⟨hhash, fun u hu => (kept_row_iff hpre hu).1 (hrow u hu)⟩
  · rintro ⟨hhash, hrow⟩
    refine ⟨fun _ => ⟨r, hget, ⟨t, by rw [hrun], hhash⟩, fun u hu => ?_⟩, fun hfalse => ?_⟩
    · rw [hrun]
      exact (kept_row_iff hpre hu).2 (hrow u hu)
    · rw [hrun] at hfalse
      cases hfalse

/-- What a restore that fails is asked for. -/
lemma restoresOrKeeps_of_failure {left : Option FileTree} (hrun : snapshotRestore sha256 x s = (false, left, s')) :
    RestoresOrKeeps sha256 x s ↔ SameTree left x.before := by
  constructor
  · rintro ⟨-, hkept⟩
    rw [hrun] at hkept
    exact hkept rfl
  · intro hsame
    refine ⟨fun htrue => ?_, fun _ => ?_⟩
    · rw [hrun] at htrue
      cases htrue
    · rw [hrun]
      exact hsame

lemma copied_eq_of_empty (hempty : x.remains r.path = none) : x.copied r s' = some t ↔
    x.copies = true ∧ ∃ e, s'.world.store.lookup r.storePath = some e ∧ e.tree = t := by
  unfold Restore.copied
  rw [hempty]
  cases x.copies with
  | false => simp
  | true =>
    rw [if_pos rfl, Option.bind_eq_some_iff]
    simp only [cpOnto, Option.some.injEq, true_and]

lemma system_literal (hlit : (restoreLine r).Literal) (hcopied : x.copied r s' = some t) :
    x.system r s' = (true, some t) := by
  unfold Restore.system
  rw [if_pos hlit, hcopied]

lemma system_stray (hlit : ¬ (restoreLine r).Literal) : x.system r s' = x.stray := if_neg hlit

/-- A restore that does what it is asked for goes well. -/
lemma goesWell_of_restoresOrKeeps (h : RestoresOrKeeps sha256 x s) : GoesWell sha256 x s := by
  cases hget : snapshotGet s x.id with
  | none => exact .unknown hget
  | some r =>
    cases hpre : x.preRestore sha256 r s with
    | mk s' ok =>
      cases ok with
      | false => exact .aborted hget (by rw [hpre])
      | true =>
        by_cases hfails : x.Fails r s'
        · exact .untouched hget hpre hfails ((restoresOrKeeps_of_failure (snapshotRestore_fails hget hpre hfails)).1 h)
        · unfold Restore.Fails at hfails
          rw [not_or, not_or, not_not] at hfails
          obtain ⟨hslash, hlong, hcp⟩ := hfails
          have hrun := snapshotRestore_runs hget hpre hslash hlong
          by_cases hlit : (restoreLine r).Literal
          · obtain ⟨t, hcopied⟩ := Option.ne_none_iff_exists'.1 fun hnone => hcp ⟨hlit, hnone⟩
            have hsys := system_literal hlit hcopied
            rw [hsys] at hrun
            obtain ⟨hhash, hrow⟩ := (restoresOrKeeps_of_success hget hpre hrun).1 h
            by_cases hodd : r.path.getLast? = some slash ∨ x.removed ≠ none
            · exact .chance hget hpre hslash hlong (hodd.imp_right .inr) hsys hhash hrow
            · rw [not_or, not_not] at hodd
              have hempty : x.remains r.path = none := (remains_eq_removed hodd.1).trans hodd.2
              obtain ⟨hcopies, e, hstored, rfl⟩ := (copied_eq_of_empty hempty).1 hcopied
              exact .copied hget hpre hslash hodd.1 hlong hlit hodd.2 hcopies hstored hhash
          · rw [system_stray hlit] at hrun
            cases hstray : x.stray with
            | mk ok left =>
              rw [hstray] at hrun
              cases ok with
              | false =>
                refine .strayed hget hpre hslash hlong hlit (by rw [hstray]) ?_
                rw [hstray]
                exact (restoresOrKeeps_of_failure hrun).1 h
              | true =>
                obtain ⟨r', -, ⟨t, ht, -⟩, -⟩ := h.restored (by rw [hrun])
                rw [hrun] at ht
                cases ht
                obtain ⟨hhash, hrow⟩ := (restoresOrKeeps_of_success hget hpre hrun).1 h
                exact .chance hget hpre hslash hlong (.inr (.inl hlit)) ((system_stray hlit).trans hstray) hhash hrow

/-- **A restore brings the snapshot back or changes nothing** exactly when it goes well. -/
theorem restoresOrKeeps_iff (sha256 : Bytes → Bytes) (x : Restore) (s : State) :
    RestoresOrKeeps sha256 x s ↔ GoesWell sha256 x s := by
  refine ⟨goesWell_of_restoresOrKeeps, fun h => ?_⟩
  cases h with
  | unknown hget =>
    refine (@restoresOrKeeps_of_failure _ _ _ s x.before ?_).2 rfl
    unfold snapshotRestore
    rw [hget]
  | @aborted r hget hpre =>
    refine (@restoresOrKeeps_of_failure _ _ _ (x.preRestore sha256 r s).1 x.before ?_).2 rfl
    unfold snapshotRestore
    rw [hget]
    dsimp only
    have hpair : x.preRestore sha256 r s = ((x.preRestore sha256 r s).1, false) := Prod.ext rfl hpre
    rw [hpair]
  | copied hget hpre hslash hlast hlong hlit hremoved hcopies hstored hhash =>
    have hrun := snapshotRestore_runs hget hpre hslash hlong
    have hempty : x.remains _ = none := (remains_eq_removed hlast).trans hremoved
    have hcopied := (copied_eq_of_empty hempty).2 ⟨hcopies, _, hstored, rfl⟩
    rw [system_literal hlit hcopied] at hrun
    refine (restoresOrKeeps_of_success hget hpre hrun).2 ⟨hhash, fun u hu => ?_⟩
    obtain ⟨row, -, -, -, hrow⟩ := preRestore_rows hpre hu
    exact ⟨_, hrow, stagedTree_eq hlast u ▸ hrow⟩
  | untouched hget hpre hfails hsame =>
    exact (restoresOrKeeps_of_failure (snapshotRestore_fails hget hpre hfails)).2 hsame
  | strayed hget hpre hslash hlong hlit hstray hsame =>
    have hrun := snapshotRestore_runs hget hpre hslash hlong
    rw [system_stray hlit, hstray] at hrun
    exact (restoresOrKeeps_of_failure hrun).2 hsame
  | chance hget hpre hslash hlong _ hsys hhash hrow =>
    have hrun := snapshotRestore_runs hget hpre hslash hlong
    rw [hsys] at hrun
    exact (restoresOrKeeps_of_success hget hpre hrun).2 ⟨hhash, hrow⟩

end Whole

/-! ### What stands below its own name -/

mutual
/-- A tree ends somewhere. -/
theorem exists_depth (t : FileTree) : ∃ k, ∀ l : Loc, k ≤ l.length → t.lookup l = none := by
  match t with
  | .regular c x =>
    refine ⟨1, fun l hl => ?_⟩
    cases l with
    | nil => cases hl
    | cons n l => exact FileTree.lookup_regular_cons c x n l
  | .symlink s =>
    refine ⟨1, fun l hl => ?_⟩
    cases l with
    | nil => cases hl
    | cons n l => exact FileTree.lookup_symlink_cons s n l
  | .directory es =>
    obtain ⟨k, hk⟩ := exists_depthEntries es
    refine ⟨k + 1, fun l hl => ?_⟩
    cases l with
    | nil => cases hl
    | cons n l =>
      rw [FileTree.lookup_directory_cons]
      exact hk n l (Nat.le_of_succ_le_succ hl)

theorem exists_depthEntries (es : List (Name × FileTree)) :
    ∃ k, ∀ (n : Name) (l : Loc), k ≤ l.length → FileTree.lookupEntries es n l = none := by
  match es with
  | [] => exact ⟨0, fun n l _ => FileTree.lookupEntries_nil n l⟩
  | (m, t) :: es =>
    obtain ⟨k, hk⟩ := exists_depth t
    obtain ⟨j, hj⟩ := exists_depthEntries es
    refine ⟨max k j, fun n l hl => ?_⟩
    rw [FileTree.lookupEntries_cons]
    split_ifs
    · exact hk l (le_trans (le_max_left k j) hl)
    · exact hj n l (le_trans (le_max_right k j) hl)
end

section Below
variable {sha256 : Bytes → Bytes} {es : List (Name × FileTree)} {n : Name} {t : FileTree} {hash : Bytes}

/-- No tree is one that it is an entry of. -/
lemma lookup_below_ne (hnew : n ∉ es.map Prod.fst) : (FileTree.directory (es ++ [(n, t)])).lookup ≠ t.lookup := by
  intro heq
  have hdown : ∀ l, t.lookup (n :: l) = t.lookup l := by
    intro l
    rw [← congrFun heq (n :: l), FileTree.lookup_directory_cons, FileTree.lookupEntries_append, if_neg hnew,
      FileTree.lookupEntries_cons, if_pos rfl]
  obtain ⟨k, hk⟩ := exists_depth t
  have hall : ∀ j, t.lookup (List.replicate j n) = some t.root := by
    intro j
    induction j with
    | zero => exact FileTree.lookup_nil t
    | succ j ih => rw [List.replicate_succ, hdown, ih]
  have hnone := hk (List.replicate k n) (by rw [List.length_replicate])
  rw [hall k] at hnone
  cases hnone

/-- **Only a collision** gives a directory with the snapshot in it the hash of the snapshot. -/
theorem collision_of_below (hnew : n ∉ es.map Prod.fst) (hwf : t.Wf) (hwf' : (FileTree.directory (es ++ [(n, t)])).Wf)
    (h : HashOf sha256 t hash) (h' : HashOf sha256 (.directory (es ++ [(n, t)])) hash) :
    ∃ b b', b ≠ b' ∧ sha256 b = sha256 b' := by
  obtain ⟨p, b, hb, rfl⟩ := h
  obtain ⟨q, b', hb', heq⟩ := h'
  refine ⟨b, b', fun hsame => ?_, hex_injective heq⟩
  exact lookup_below_ne hnew ((narDump_eq_iff hwf hwf' hb hb').1 hsame).symm

end Below

/-! ### A store path that is gone -/

/-- A snapshot of `/d`, whose store path was deleted. -/
def lostState : State :=
  { State.start .fresh with
    rows := [{
      id := 1
      path := ascii "/d"
      storePath := ⟨ascii "22222222222222222222222222222222-snap-d", by decide⟩
      narHash := []
      parentId := none
      message := none
      takenAt := 0
      scope := ascii "system" }] }

/-- In `/d` there is a file by now. -/
def lostRestore : Restore where
  id := 1
  before := some (.directory [(ascii "f", .regular (ascii "x") false)])
  stages := true
  pid := ascii "7"
  time := 0
  inserted := true
  leftover := none
  makesParent := false
  copies := true
  merges _ _ := none
  stray := (false, none)

/-- **The restore fails, and the directory is gone.** -/
theorem lost_not_kept : ¬ RestoresOrKeeps (fun _ => []) lostRestore lostState := by
  rintro ⟨-, hkept⟩
  have hfails : (snapshotRestore (fun _ => []) lostRestore lostState).1 = false := by decide +kernel
  have hgone : (snapshotRestore (fun _ => []) lostRestore lostState).2.1.isNone = true := by decide +kernel
  have hsame := hkept hfails
  rw [Option.isNone_iff_eq_none.1 hgone] at hsame
  cases hsame

end Two09.Snapshot
