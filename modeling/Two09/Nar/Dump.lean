import Two09.Nar.Stream

/-!
# File trees and `nar_dump`

A file tree as `lstat`, `readlink` and `scandir` show it, and the byte stream `nar_dump` emits for
it. Two trees count as equal when every relative path finds the same object in both: a directory
has no order of its own.
-/

namespace Two09.Nar

open Two09.Lib Two09.Lib.Posix

/-- A file tree: the entries of a directory stand in the order the file system lists them. -/
inductive FileTree
  | regular (contents : Bytes) (executable : Bool)
  | symlink (target : Bytes)
  | directory (entries : List (Name × FileTree))

namespace FileTree

/-! ### What a tree holds -/

mutual
/-- The object at a relative path of the tree. -/
def lookup : FileTree → Loc → Option Obj
  | .regular c x, [] => some (.reg c x)
  | .symlink t, [] => some (.lnk t)
  | .directory _, [] => some .dir
  | .directory es, n :: ns => lookupEntries es n ns
  | .regular _ _, _ :: _ => none
  | .symlink _, _ :: _ => none

/-- The object at a relative path that starts with the name of one of the entries. -/
def lookupEntries : List (Name × FileTree) → Name → Loc → Option Obj
  | [], _, _ => none
  | (m, t) :: es, n, ns => if m = n then lookup t ns else lookupEntries es n ns
end

/-- The object at the root of a tree. -/
def root : FileTree → Obj
  | .regular c x => .reg c x
  | .symlink t => .lnk t
  | .directory _ => .dir

@[simp] lemma lookup_nil (t : FileTree) : t.lookup [] = some t.root := by
  cases t <;> simp [lookup, root]

@[simp] lemma lookup_directory_cons (es : List (Name × FileTree)) (n : Name) (ns : Loc) :
    (directory es).lookup (n :: ns) = lookupEntries es n ns := by
  simp [lookup]

@[simp] lemma lookup_regular_cons (c : Bytes) (x : Bool) (n : Name) (ns : Loc) :
    (regular c x).lookup (n :: ns) = none := by
  simp [lookup]

@[simp] lemma lookup_symlink_cons (t : Bytes) (n : Name) (ns : Loc) :
    (symlink t).lookup (n :: ns) = none := by
  simp [lookup]

@[simp] lemma lookupEntries_nil (n : Name) (ns : Loc) : lookupEntries [] n ns = none := by
  simp [lookupEntries]

@[simp] lemma lookupEntries_cons (m : Name) (t : FileTree) (es : List (Name × FileTree))
    (n : Name) (ns : Loc) :
    lookupEntries ((m, t) :: es) n ns = if m = n then t.lookup ns else lookupEntries es n ns := by
  simp [lookupEntries]

section
variable {es es' : List (Name × FileTree)} {n : Name} {t : FileTree}

lemma lookupEntries_of_notMem (h : n ∉ es.map Prod.fst) (ns : Loc) :
    lookupEntries es n ns = none := by
  induction es with
  | nil => simp
  | cons e es ih =>
    obtain ⟨m, u⟩ := e
    simp only [List.map_cons, List.mem_cons, not_or] at h
    rw [lookupEntries_cons, if_neg (Ne.symm h.1), ih h.2]

lemma lookupEntries_append (n : Name) (ns : Loc) :
    lookupEntries (es ++ es') n ns =
      if n ∈ es.map Prod.fst then lookupEntries es n ns else lookupEntries es' n ns := by
  induction es with
  | nil => simp
  | cons e es ih =>
    obtain ⟨m, u⟩ := e
    by_cases hm : m = n
    · simp [hm]
    · have hmem : n ∈ ((m, u) :: es).map Prod.fst ↔ n ∈ es.map Prod.fst := by
        simp [Ne.symm hm]
      rw [List.cons_append, lookupEntries_cons, lookupEntries_cons, if_neg hm, if_neg hm, ih]
      simp only [hmem]

lemma lookupEntries_of_mem (hnd : (es.map Prod.fst).Nodup) (h : (n, t) ∈ es) (ns : Loc) :
    lookupEntries es n ns = t.lookup ns := by
  induction es with
  | nil => cases h
  | cons e es ih =>
    obtain ⟨m, u⟩ := e
    simp only [List.map_cons, List.nodup_cons] at hnd
    rcases List.mem_cons.1 h with heq | hmem
    · cases heq
      rw [lookupEntries_cons, if_pos rfl]
    · have hne : m ≠ n := fun heq => hnd.1 (heq ▸ List.mem_map_of_mem hmem)
      rw [lookupEntries_cons, if_neg hne, ih hnd.2 hmem]

/-- **The order of a directory does not matter.** -/
lemma lookup_directory_perm (hnd : (es.map Prod.fst).Nodup) (hp : es.Perm es') :
    (directory es).lookup = (directory es').lookup := by
  funext l
  cases l with
  | nil => simp [root]
  | cons n ns =>
    rw [lookup_directory_cons, lookup_directory_cons]
    by_cases hn : n ∈ es.map Prod.fst
    · obtain ⟨⟨m, t⟩, hmem, rfl⟩ := List.mem_map.1 hn
      rw [lookupEntries_of_mem hnd hmem,
        lookupEntries_of_mem ((hp.map Prod.fst).nodup_iff.1 hnd) (hp.mem_iff.1 hmem)]
    · rw [lookupEntries_of_notMem hn,
        lookupEntries_of_notMem fun h => hn ((hp.map Prod.fst).mem_iff.2 h)]

end

/-! ### Trees a file system can hold -/

/-- The trees a file system can hold: sizes fit `off_t`, targets and names are as the calls that
make them demand, and sibling names differ. -/
inductive Wf : FileTree → Prop
  | regular {c x} : c.length < 2 ^ 63 → Wf (regular c x)
  | symlink {t} : t ≠ [] → (0 : UInt8) ∉ t → t.length < pathMax → Wf (symlink t)
  | directory {es} : (es.map Prod.fst).Nodup → (∀ e ∈ es, ValidName e.1) →
      (∀ e ∈ es, Wf e.2) → Wf (directory es)

/-- No path of a child reaches `PATH_MAX` when the tree stands at `p`. -/
inductive Fits : Path → FileTree → Prop
  | regular {p c x} : Fits p (regular c x)
  | symlink {p t} : Fits p (symlink t)
  | directory {p es} : (∀ e ∈ es, (join p e.1).length < pathMax) →
      (∀ e ∈ es, Fits (join p e.1) e.2) → Fits p (directory es)

end FileTree

open FileTree

/-! ### Dumping -/

/-- `alphasort` in the C locale. -/
def alphasort {α : Type} (es : List (Name × α)) : List (Name × α) :=
  es.insertionSort fun a b => a.1 ≤ b.1

mutual
/-- `dump_node`. The entries are visited in listing order and their streams sorted by name
afterwards, which yields the bytes of a walk in sorted order. -/
def dumpNode (path : Path) : FileTree → Option Bytes
  | .regular c x => some (line tokRegular ++ (if x then tokExecutable else []) ++ tokContents ++
      emitU64 c.length ++ c)
  | .symlink t =>
    -- `readlink` into a buffer of `PATH_MAX` bytes
    let target := t.take pathMax
    some (line tokSymlink ++ tokTarget ++ emitU64 target.length ++ target)
  | .directory es => (dumpEntries path es).map fun parts =>
      line tokDirectory ++ (alphasort parts).flatMap Prod.snd ++ line tokEnd

/-- The streams of the entries of a directory, each with its name. -/
def dumpEntries (path : Path) : List (Name × FileTree) → Option (List (Name × Bytes))
  | [] => some []
  | (n, t) :: es =>
    if pathMax ≤ (join path n).length then none
    else (dumpNode (join path n) t).bind fun b => (dumpEntries path es).map fun parts =>
      (n, line tokEntry ++ tokName ++ emitU64 n.length ++ n ++ b) :: parts
end

/-- `nar_dump` of the tree that stands at `path`, which `lstat` has to accept. -/
def narDump (path : Path) (t : FileTree) : Option Bytes :=
  if path = [] ∨ pathMax ≤ path.length then none
  else (dumpNode path t).map fun b => line tokMagic ++ b

/-- The bytes of one directory entry whose node dumps to `b`. -/
def entryBytes (n : Name) (b : Bytes) : Bytes :=
  line tokEntry ++ tokName ++ emitU64 n.length ++ n ++ b

lemma lt_length_entryBytes (n : Name) (b : Bytes) : b.length < (entryBytes n b).length := by
  simp [entryBytes, line]
  omega

section
variable {path : Path} {es : List (Name × FileTree)}

/-- `es` dumped entry by entry: `ps` holds for each its name, tree and stream. -/
structure Dumped (path : Path) (es : List (Name × FileTree))
    (ps : List ((Name × FileTree) × Bytes)) : Prop where
  entries : ps.map Prod.fst = es
  dumped : ∀ q ∈ ps, dumpNode (join path q.1.1) q.1.2 = some q.2

/-- A successful dump of the entries consists of the dumps of the entries. -/
lemma dumpEntries_some {parts : List (Name × Bytes)} (h : dumpEntries path es = some parts) :
    ∃ ps, Dumped path es ps ∧ parts = ps.map fun q => (q.1.1, entryBytes q.1.1 q.2) := by
  induction es generalizing parts with
  | nil =>
    simp only [dumpEntries, Option.some.injEq] at h
    exact ⟨[], ⟨rfl, by simp⟩, by simp [← h]⟩
  | cons e es ih =>
    obtain ⟨n, t⟩ := e
    rw [dumpEntries] at h
    split_ifs at h with hlen
    simp only [Option.bind_eq_some_iff, Option.map_eq_some_iff] at h
    obtain ⟨b, hb, parts', hparts, rfl⟩ := h
    obtain ⟨ps, hps, rfl⟩ := ih hparts
    refine ⟨((n, t), b) :: ps, ⟨by simp [hps.entries], ?_⟩, rfl⟩
    intro q hq
    rcases List.mem_cons.1 hq with rfl | hq
    · exact hb
    · exact hps.dumped q hq

/-- **A directory dumps to the dumps of its entries, in some order.** -/
lemma dumpNode_directory {b : Bytes} (h : dumpNode path (.directory es) = some b) :
    ∃ ps, Dumped path (ps.map Prod.fst) ps ∧ (ps.map Prod.fst).Perm es ∧
      b = line tokDirectory ++ (ps.flatMap fun q => entryBytes q.1.1 q.2) ++ line tokEnd := by
  rw [dumpNode, Option.map_eq_some_iff] at h
  obtain ⟨parts, hparts, rfl⟩ := h
  obtain ⟨ps, hps, rfl⟩ := dumpEntries_some hparts
  let ps' := ps.insertionSort fun a b => a.1.1 ≤ b.1.1
  have hperm : ps'.Perm ps := List.perm_insertionSort _ ps
  refine ⟨ps', ⟨rfl, fun q hq => hps.dumped q (hperm.mem_iff.1 hq)⟩, ?_, ?_⟩
  · rw [← hps.entries]
    exact hperm.map _
  · have hsort : alphasort (ps.map fun q => (q.1.1, entryBytes q.1.1 q.2)) =
        ps'.map fun q => (q.1.1, entryBytes q.1.1 q.2) := by
      refine (List.map_insertionSort _ _ _ _ ?_).symm
      intro a _ b _
      rfl
    rw [hsort, List.flatMap_map]

end

section
variable {path path' : Path} {t : FileTree}

/-- A tree that fits at a path fits at every shorter one. -/
lemma FileTree.Fits.shorter (h : Fits path t) (hlen : path'.length ≤ path.length) :
    Fits path' t := by
  induction h generalizing path' with
  | regular => exact .regular
  | symlink => exact .symlink
  | directory hlens _ ih =>
    refine .directory (fun e he => ?_) fun e he => ih e he ?_
    · have := hlens e he
      simp only [length_join] at this ⊢
      omega
    · simp only [length_join]
      omega

mutual
/-- **A dump succeeds exactly on the trees whose paths fit.** -/
theorem dumpNode_isSome (path : Path) (t : FileTree) :
    (dumpNode path t).isSome ↔ Fits path t := by
  match t with
  | .regular c x => exact ⟨fun _ => .regular, fun _ => by simp [dumpNode]⟩
  | .symlink t => exact ⟨fun _ => .symlink, fun _ => by simp [dumpNode]⟩
  | .directory es =>
    rw [dumpNode, Option.isSome_map, dumpEntries_isSome path es]
    constructor
    · exact fun h => .directory (fun e he => (h e he).1) fun e he => (h e he).2
    · intro h
      cases h with
      | directory hlens hfits => exact fun e he => ⟨hlens e he, hfits e he⟩

theorem dumpEntries_isSome (path : Path) (es : List (Name × FileTree)) :
    (dumpEntries path es).isSome ↔
      ∀ e ∈ es, (join path e.1).length < pathMax ∧ Fits (join path e.1) e.2 := by
  match es with
  | [] => simp [dumpEntries]
  | (n, t) :: es =>
    rw [dumpEntries, List.forall_mem_cons]
    by_cases hlen : pathMax ≤ (join path n).length
    · simp [hlen]
    · have hnode := dumpNode_isSome (join path n) t
      have hrest := dumpEntries_isSome path es
      rw [if_neg hlen, ← hnode, ← hrest]
      cases dumpNode (join path n) t with
      | none => simp
      | some b => simp [Nat.not_le.1 hlen]
end

end

end Two09.Nar
