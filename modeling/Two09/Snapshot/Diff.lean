import Two09.Nar.Canonical
import Two09.Nar.Confine
import Two09.Snapshot.Store

/-!
# Comparing snapshots

`snapshot_diff` flattens two snapshot trees into lists of paths, with a fingerprint each, and compares the lists.
-/

namespace Two09.Snapshot

open Two09.Lib Two09.Lib.Posix Two09.Nar Two09.Store FileTree

/-! ### The program -/

/-- `file_entry_t` -/
structure FileEntry where
  relPath : Path
  hash : Bytes

/-- `snapshot_diff_kind_t` -/
inductive DiffKind
  | added | removed | modified

/-- `snapshot_diff_t` -/
structure Diff where
  kind : DiffKind
  relPath : Path
  hashA : Option Bytes
  hashB : Option Bytes

section
variable (sha256 : Bytes → Bytes)

/-- `file_fingerprint`. The target of a link is read into `PATH_MAX` bytes, one of which is the terminator. -/
def fileFingerprint : Obj → Bytes
  | .dir => ascii "<dir>"
  | .lnk t => ascii "<link:" ++ t.take (pathMax - 1) ++ ascii ">"
  | .reg c _ => hex (sha256 c)

mutual
/-- `walk_tree` of the directory `root`, whose entries are listed below `pre`. -/
def walkTree (root pre : Path) : List (Name × FileTree) → List FileEntry
  | [] => []
  | (n, t) :: es =>
    if pathMax ≤ (join root n).length ∨ pathMax ≤ (join pre n).length then walkTree root pre es
    else ⟨join pre n, fileFingerprint sha256 t.root⟩ :: walkChild (join root n) (join pre n) t ++ walkTree root pre es

/-- Only a directory is walked further. -/
def walkChild (child rel : Path) : FileTree → List FileEntry
  | .directory es => walkTree child rel es
  | .regular _ _ => []
  | .symlink _ => []
end

/-- `walk_tree` of a store path; where there is no directory it finds nothing. -/
def walkStored (s : State) (n : StoreName) : List FileEntry :=
  match s.world.store.lookup n with
  | some e => walkChild sha256 (storeDir ++ n.val) [] e.tree
  | none => []

/-- `find_entry` -/
def findEntry (entries : List FileEntry) (relPath : Path) : Option FileEntry :=
  entries.find? fun e => decide (e.relPath = relPath)

/-- An entry of the first tree: it is gone, or it is another one. -/
def goneOrModified (b : List FileEntry) (e : FileEntry) : Option Diff :=
  match findEntry b e.relPath with
  | none => some ⟨.removed, e.relPath, some e.hash, none⟩
  | some m => if e.hash ≠ m.hash then some ⟨.modified, e.relPath, some e.hash, some m.hash⟩ else none

/-- An entry of the second tree that the first one does not have. -/
def addedEntry (a : List FileEntry) (e : FileEntry) : Option Diff :=
  match findEntry a e.relPath with
  | none => some ⟨.added, e.relPath, none, some e.hash⟩
  | some _ => none

/-- The two loops of `snapshot_diff`. -/
def diffEntries (a b : List FileEntry) : List Diff := a.filterMap (goneOrModified b) ++ b.filterMap (addedEntry a)

/-- `snapshot_get` -/
def snapshotGet (s : State) (id : Nat) : Option Row := s.rows.find? fun r => decide (r.id = id)

/-- `snapshot_diff` -/
def snapshotDiff (s : State) (id₁ id₂ : Nat) : Option (List Diff) := do
  let r₁ ← snapshotGet s id₁
  let r₂ ← snapshotGet s id₂
  pure (diffEntries (walkStored sha256 s r₁.storePath) (walkStored sha256 s r₂.storePath))

end

/-! ### What is compared -/

/-- A snapshot whose tree can be read to its end. -/
structure Readable (s : State) where
  id : Nat
  row : Row
  got : snapshotGet s id = some row
  entry : Entry
  stored : s.world.store.lookup row.storePath = some entry
  listing : List (Name × FileTree)
  isTree : entry.tree = .directory listing
  wf : entry.tree.Wf
  stream : Bytes
  dumped : narDump (storeDir ++ row.storePath.val) entry.tree = some stream

/-- ADDED and REMOVED change places. -/
def DiffKind.swap : DiffKind → DiffKind
  | .added => .removed
  | .removed => .added
  | .modified => .modified

def Diff.swap (d : Diff) : Diff := ⟨d.kind.swap, d.relPath, d.hashB, d.hashA⟩

/-- What the two trees hold at a path that is reported as `k`. -/
def DiffKind.Holds : DiffKind → Option Obj → Option Obj → Prop
  | .added, x, y => x = none ∧ y ≠ none
  | .removed, x, y => x ≠ none ∧ y = none
  | .modified, x, y => x ≠ none ∧ y ≠ none ∧ x ≠ y

/-- The report on `a` and `b` is right, and so is the one the other way round. -/
structure DiffExact {s : State} (a b : Readable s) (report back : List Diff) : Prop where
  once : (report.map Diff.relPath).Nodup
  reported : ∀ k p, (∃ d ∈ report, d.kind = k ∧ d.relPath = p) ↔
    ∃ l ≠ [], pathOf [] l = p ∧ k.Holds (a.entry.tree.lookup l) (b.entry.tree.lookup l)
  swapped : back.Perm (report.map Diff.swap)
  empty : report = [] ↔ a.stream = b.stream

/-- `snapshot_diff` finds both snapshots and says what differs. -/
def ReportsExactly (sha256 : Bytes → Bytes) (s : State) (a b : Readable s) : Prop :=
  ∃ report back, snapshotDiff sha256 s a.id b.id = some report ∧ snapshotDiff sha256 s b.id a.id = some back ∧
    DiffExact a b report back

/-- Files that are not the same but have one fingerprint. -/
def SameFingerprint (sha256 : Bytes → Bytes) (x y : Option Obj) : Prop :=
  ∃ c v c' v', x = some (.reg c v) ∧ y = some (.reg c' v') ∧ sha256 c = sha256 c' ∧ (c ≠ c' ∨ v ≠ v')

/-! ### Two lists of entries -/

section Entries
variable {a b es : List FileEntry} {p : Path} {m : FileEntry} {d : Diff}

lemma findEntry_eq_none : findEntry es p = none ↔ ∀ e ∈ es, e.relPath ≠ p := by
  unfold findEntry
  rw [List.find?_eq_none]
  simp only [decide_eq_true_eq, ne_eq]

lemma findEntry_eq_some (hnd : (es.map FileEntry.relPath).Nodup) :
    findEntry es p = some m ↔ m ∈ es ∧ m.relPath = p := by
  unfold findEntry
  constructor
  · intro h
    exact ⟨List.mem_of_find?_eq_some h, by simpa using List.find?_some h⟩
  · rintro ⟨hmem, rfl⟩
    obtain ⟨e, he⟩ : ∃ e, es.find? (fun e => decide (e.relPath = m.relPath)) = some e :=
      Option.isSome_iff_exists.1 (List.find?_isSome.2 ⟨m, hmem, by simp⟩)
    have hpath : e.relPath = m.relPath := by simpa using List.find?_some he
    rw [he, List.inj_on_of_nodup_map hnd (List.mem_of_find?_eq_some he) hmem hpath]

/-- What a line of the report says about the lists. -/
inductive Reported (a b : List FileEntry) : Diff → Prop
  | removed {e} : e ∈ a → (∀ m ∈ b, m.relPath ≠ e.relPath) → Reported a b ⟨.removed, e.relPath, some e.hash, none⟩
  | modified {e m} : e ∈ a → m ∈ b → m.relPath = e.relPath → e.hash ≠ m.hash →
      Reported a b ⟨.modified, e.relPath, some e.hash, some m.hash⟩
  | added {e} : e ∈ b → (∀ m ∈ a, m.relPath ≠ e.relPath) → Reported a b ⟨.added, e.relPath, none, some e.hash⟩

lemma mem_diffEntries (hb : (b.map FileEntry.relPath).Nodup) : d ∈ diffEntries a b ↔ Reported a b d := by
  unfold diffEntries
  rw [List.mem_append, List.mem_filterMap, List.mem_filterMap]
  constructor
  · rintro (⟨e, he, hd⟩ | ⟨e, he, hd⟩)
    · unfold goneOrModified at hd
      cases hfind : findEntry b e.relPath with
      | none =>
        rw [hfind] at hd
        cases hd
        exact .removed he (findEntry_eq_none.1 hfind)
      | some m =>
        rw [hfind] at hd
        dsimp only at hd
        split_ifs at hd with hne
        cases hd
        obtain ⟨hm, hpath⟩ := (findEntry_eq_some hb).1 hfind
        exact .modified he hm hpath hne
    · unfold addedEntry at hd
      cases hfind : findEntry a e.relPath with
      | none =>
        rw [hfind] at hd
        cases hd
        exact .added he (findEntry_eq_none.1 hfind)
      | some m =>
        rw [hfind] at hd
        cases hd
  · rintro (⟨he, hnot⟩ | ⟨he, hm, hpath, hne⟩ | ⟨he, hnot⟩)
    · refine .inl ⟨_, he, ?_⟩
      unfold goneOrModified
      rw [findEntry_eq_none.2 hnot]
    · refine .inl ⟨_, he, ?_⟩
      unfold goneOrModified
      rw [(findEntry_eq_some hb).2 ⟨hm, hpath⟩]
      exact if_pos hne
    · refine .inr ⟨_, he, ?_⟩
      unfold addedEntry
      rw [findEntry_eq_none.2 hnot]

lemma Reported.swap (h : Reported a b d) : Reported b a d.swap := by
  cases h with
  | removed he hnot => exact .added he hnot
  | added he hnot => exact .removed he hnot
  | @modified e m he hm hpath hne =>
    have hswap := Reported.modified hm he hpath.symm hne.symm
    rw [hpath] at hswap
    exact hswap

@[simp] lemma Diff.swap_swap (d : Diff) : d.swap.swap = d := by
  obtain ⟨k, _, _, _⟩ := d
  cases k <;> rfl

/-- Every entry gives one line at most, under its own path. -/
lemma relPaths_filterMap {f : FileEntry → Option Diff} (hf : ∀ e d, f e = some d → d.relPath = e.relPath)
    (es : List FileEntry) : ((es.filterMap f).map Diff.relPath).Sublist (es.map FileEntry.relPath) := by
  induction es with
  | nil => exact .slnil
  | cons e es ih =>
    cases hd : f e with
    | none =>
      rw [List.filterMap_cons_none hd]
      exact ih.cons _
    | some d =>
      rw [List.filterMap_cons_some hd, List.map_cons, List.map_cons, hf e d hd]
      exact ih.cons_cons _

lemma relPath_goneOrModified {e : FileEntry} (h : goneOrModified b e = some d) : d.relPath = e.relPath := by
  unfold goneOrModified at h
  split at h
  · cases h
    rfl
  · split_ifs at h
    cases h
    rfl

lemma relPath_addedEntry {e : FileEntry} (h : addedEntry a e = some d) :
    d.relPath = e.relPath ∧ ∀ m ∈ a, m.relPath ≠ e.relPath := by
  unfold addedEntry at h
  split at h
  · next hfind =>
    cases h
    exact ⟨rfl, findEntry_eq_none.1 hfind⟩
  · cases h

/-- **No path is reported twice.** -/
theorem nodup_diffEntries (ha : (a.map FileEntry.relPath).Nodup) (hb : (b.map FileEntry.relPath).Nodup) :
    ((diffEntries a b).map Diff.relPath).Nodup := by
  unfold diffEntries
  have hgone := relPaths_filterMap (fun _ _ h => relPath_goneOrModified (b := b) h) a
  have hnew := relPaths_filterMap (fun _ _ h => (relPath_addedEntry (a := a) h).1) b
  rw [List.map_append, List.nodup_append]
  refine ⟨ha.sublist hgone, hb.sublist hnew, ?_⟩
  rintro p hp q hq rfl
  obtain ⟨m, hm, hmp⟩ := List.mem_map.1 (hgone.subset hp)
  obtain ⟨d, hd, rfl⟩ := List.mem_map.1 hq
  obtain ⟨e, -, he⟩ := List.mem_filterMap.1 hd
  obtain ⟨hpath, hnot⟩ := relPath_addedEntry he
  exact hnot m hm (hmp.trans hpath)

/-- **The other way round the report says the same**, with ADDED and REMOVED swapped. -/
theorem perm_diffEntries (ha : (a.map FileEntry.relPath).Nodup) (hb : (b.map FileEntry.relPath).Nodup) :
    (diffEntries b a).Perm ((diffEntries a b).map Diff.swap) := by
  have hback := (nodup_diffEntries hb ha).of_map
  have hinj : Function.Injective Diff.swap := fun d d' h => by
    rw [← d.swap_swap, h, d'.swap_swap]
  have hforth := (nodup_diffEntries ha hb).of_map.map hinj
  refine (List.perm_ext_iff_of_nodup hback hforth).2 fun d => ?_
  rw [mem_diffEntries ha, List.mem_map]
  constructor
  · intro h
    exact ⟨d.swap, (mem_diffEntries hb).2 h.swap, d.swap_swap⟩
  · rintro ⟨d', hd', rfl⟩
    exact ((mem_diffEntries hb).1 hd').swap

end Entries

/-! ### The entries of a tree -/

section Walk
variable {sha256 : Bytes → Bytes} {es : List (Name × FileTree)} {t : FileTree} {root pre : Path} {n : Name} {l l' : Loc}
  {o o' : Obj} {x : FileEntry}

lemma lookupEntries_eq_some (hnd : (es.map Prod.fst).Nodup) :
    lookupEntries es n l = some o ↔ ∃ t, (n, t) ∈ es ∧ t.lookup l = some o := by
  constructor
  · intro h
    have hname : n ∈ es.map Prod.fst := by
      by_contra hnot
      rw [lookupEntries_of_notMem hnot] at h
      cases h
    obtain ⟨⟨m, t⟩, hmem, rfl⟩ := List.mem_map.1 hname
    rw [lookupEntries_of_mem hnd hmem] at h
    exact ⟨t, hmem, h⟩
  · rintro ⟨t, hmem, h⟩
    rw [lookupEntries_of_mem hnd hmem, h]

/-- What a tree holds stands at paths of proper names. -/
lemma validName_of_lookup (hwf : t.Wf) (h : t.lookup l = some o) : ∀ n ∈ l, ValidName n := by
  induction hwf generalizing l with
  | regular _ | symlink _ _ _ =>
    cases l with
    | nil => exact List.forall_mem_nil _
    | cons n l => simp at h
  | directory hnd hnames _ ih =>
    cases l with
    | nil => exact List.forall_mem_nil _
    | cons n l =>
      rw [lookup_directory_cons, lookupEntries_eq_some hnd] at h
      obtain ⟨t, hmem, h⟩ := h
      exact List.forall_mem_cons.2 ⟨hnames _ hmem, ih _ hmem h⟩

lemma rel_of_validName (h : ∀ n ∈ l, ValidName n) : rel l = l :=
  List.filter_eq_self.2 fun n hn => decide_eq_true (h n hn).nonempty

/-- A path tells the location. -/
lemma pathOf_injective (hl : ∀ n ∈ l, ValidName n) (hl' : ∀ n ∈ l', ValidName n) (h : pathOf pre l = pathOf pre l') :
    l = l' := by
  have hnames := congrArg names h
  rw [names_pathOf pre fun n hn => (hl n hn).noSlash, names_pathOf pre fun n hn => (hl' n hn).noSlash,
    rel_of_validName hl, rel_of_validName hl'] at hnames
  exact List.append_cancel_left hnames

lemma walkTree_eq_flatMap (hlen : pre.length ≤ root.length) (h : ∀ e ∈ es, (join root e.1).length < pathMax) :
    walkTree sha256 root pre es = es.flatMap fun e => ⟨join pre e.1, fileFingerprint sha256 e.2.root⟩ ::
      walkChild sha256 (join root e.1) (join pre e.1) e.2 := by
  induction es with
  | nil => rfl
  | cons e es ih =>
    obtain ⟨n, t⟩ := e
    obtain ⟨hn, hes⟩ := List.forall_mem_cons.1 h
    have hroom : ¬ (pathMax ≤ (join root n).length ∨ pathMax ≤ (join pre n).length) := by
      simp only [length_join] at hn ⊢
      omega
    rw [walkTree, if_neg hroom, ih hes, List.flatMap_cons]

/-- **The walk lists what the tree holds** below its root. -/
theorem mem_walkChild (hwf : t.Wf) (hfits : Fits root t) (hlen : pre.length ≤ root.length) :
    x ∈ walkChild sha256 root pre t ↔
      ∃ l ≠ [], ∃ o, t.lookup l = some o ∧ x = ⟨pathOf pre l, fileFingerprint sha256 o⟩ := by
  induction hwf generalizing root pre x with
  | regular _ | symlink _ _ _ =>
    rw [walkChild]
    constructor
    · intro h
      cases h
    · rintro ⟨l, hl, o, ho, -⟩
      cases l with
      | nil => exact absurd rfl hl
      | cons n l => simp at ho
  | @directory es hnd hnames hwfs ih =>
    cases hfits with
    | directory hlens hfits =>
      have hsub : ∀ e ∈ es, ∀ x, x ∈ walkChild sha256 (join root e.1) (join pre e.1) e.2 ↔ ∃ l ≠ [], ∃ o,
          e.2.lookup l = some o ∧ x = ⟨pathOf (join pre e.1) l, fileFingerprint sha256 o⟩ := by
        intro e he x
        refine ih e he (hfits e he) ?_
        rw [length_join, length_join]
        omega
      rw [walkChild, walkTree_eq_flatMap hlen hlens, List.mem_flatMap]
      constructor
      · rintro ⟨⟨n, t⟩, he, hx⟩
        rcases List.mem_cons.1 hx with rfl | hx
        · refine ⟨[n], List.cons_ne_nil _ _, t.root, ?_, rfl⟩
          rw [lookup_directory_cons, lookupEntries_of_mem hnd he, lookup_nil]
        · obtain ⟨l, -, o, ho, rfl⟩ := (hsub _ he x).1 hx
          refine ⟨n :: l, List.cons_ne_nil _ _, o, ?_, rfl⟩
          rw [lookup_directory_cons, lookupEntries_of_mem hnd he, ho]
      · rintro ⟨l, hl, o, ho, rfl⟩
        cases l with
        | nil => exact absurd rfl hl
        | cons n l =>
          rw [lookup_directory_cons, lookupEntries_eq_some hnd] at ho
          obtain ⟨t, he, ho⟩ := ho
          refine ⟨(n, t), he, ?_⟩
          cases l with
          | nil =>
            rw [lookup_nil] at ho
            cases ho
            exact List.mem_cons_self
          | cons m l => exact List.mem_cons_of_mem _ ((hsub _ he _).2 ⟨m :: l, List.cons_ne_nil _ _, o, ho, rfl⟩)

/-- **The walk lists no path twice.** -/
theorem nodup_walkChild (hwf : t.Wf) (hfits : Fits root t) (hlen : pre.length ≤ root.length) :
    ((walkChild sha256 root pre t).map FileEntry.relPath).Nodup := by
  have hat := @mem_walkChild sha256
  induction hwf generalizing root pre with
  | regular _ | symlink _ _ _ =>
    rw [walkChild]
    exact List.nodup_nil
  | @directory es hnd hnames hwfs ih =>
    cases hfits with
    | directory hlens hfits =>
      have hlen' : ∀ e ∈ es, (join pre e.1).length ≤ (join root e.1).length := by
        intro e _
        simp only [length_join]
        omega
      -- what an entry contributes starts with its name
      have hpaths : ∀ e ∈ es, ∀ p ∈ ((⟨join pre e.1, fileFingerprint sha256 e.2.root⟩ ::
          walkChild sha256 (join root e.1) (join pre e.1) e.2).map FileEntry.relPath),
          ∃ l, pathOf pre (e.1 :: l) = p ∧ ∀ n ∈ e.1 :: l, ValidName n := by
        intro e he p hp
        rw [List.map_cons, List.mem_cons] at hp
        rcases hp with rfl | hp
        · exact ⟨[], rfl, List.forall_mem_singleton.2 (hnames e he)⟩
        · obtain ⟨x, hx, rfl⟩ := List.mem_map.1 hp
          obtain ⟨l, -, o, ho, rfl⟩ := (hat (hwfs e he) (hfits e he) (hlen' e he)).1 hx
          exact ⟨l, rfl, List.forall_mem_cons.2 ⟨hnames e he, validName_of_lookup (hwfs e he) ho⟩⟩
      rw [walkChild, walkTree_eq_flatMap hlen hlens, List.map_flatMap, List.nodup_flatMap]
      constructor
      · intro e he
        rw [List.map_cons, List.nodup_cons]
        refine ⟨fun hmem => ?_, ih e he (hfits e he) (hlen' e he)⟩
        obtain ⟨x, hx, hpath⟩ := List.mem_map.1 hmem
        obtain ⟨l, hl, o, ho, rfl⟩ := (hat (hwfs e he) (hfits e he) (hlen' e he)).1 hx
        exact hl (@pathOf_injective (join pre e.1) l [] (validName_of_lookup (hwfs e he) ho)
          (List.forall_mem_nil _) hpath)
      · refine (List.pairwise_map.1 hnd).imp_of_mem ?_
        intro e e' he he' hne p hp hp'
        obtain ⟨l, hl, hvalid⟩ := hpaths e he p hp
        obtain ⟨l', hl', hvalid'⟩ := hpaths e' he' p hp'
        exact hne (List.cons.inj (pathOf_injective hvalid hvalid' (hl.trans hl'.symm))).1

end Walk

/-! ### What a fingerprint shows -/

section Fingerprint
variable {sha256 : Bytes → Bytes} {t : FileTree} {l : Loc} {o o' : Obj} {c c' : Bytes} {v v' : Bool}

/-- A target is read whole. -/
def ReadWhole (o : Obj) : Prop := ∀ target, o = .lnk target → target.length < pathMax

lemma readWhole_of_lookup (hwf : t.Wf) (h : t.lookup l = some o) : ReadWhole o := by
  rintro target rfl
  induction hwf generalizing l with
  | regular _ =>
    cases l with
    | nil => cases h
    | cons n l => simp at h
  | symlink _ _ hlen =>
    cases l with
    | nil =>
      cases h
      exact hlen
    | cons n l => simp at h
  | directory hnd _ _ ih =>
    cases l with
    | nil => cases h
    | cons n l =>
      rw [lookup_directory_cons, lookupEntries_eq_some hnd] at h
      obtain ⟨t, hmem, h⟩ := h
      exact ih _ hmem h

lemma take_of_readWhole {target : Bytes} (h : ReadWhole (.lnk target)) : target.take (pathMax - 1) = target := by
  have hlen := h target rfl
  exact List.take_of_length_le (by omega)

lemma sameFingerprint_some : SameFingerprint sha256 (some o) (some o') ↔
    ∃ c v c' v', o = .reg c v ∧ o' = .reg c' v' ∧ sha256 c = sha256 c' ∧ (c ≠ c' ∨ v ≠ v') := by
  unfold SameFingerprint
  simp only [Option.some.injEq]

/-- **One fingerprint** have only files of the same hash, if they are not the same. -/
theorem fileFingerprint_eq_iff (ho : ReadWhole o) (ho' : ReadWhole o') :
    fileFingerprint sha256 o = fileFingerprint sha256 o' ↔ o = o' ∨ SameFingerprint sha256 (some o) (some o') := by
  rw [sameFingerprint_some]
  constructor
  · intro h
    have hfile : ∀ c v, (fileFingerprint sha256 (.reg c v)).head? ≠ some 60 := fun c _ => head?_hex_ne _
    have hmark : ∀ o : Obj, (∀ c v, o ≠ .reg c v) → (fileFingerprint sha256 o).head? = some 60 := by
      intro o hnot
      cases o with
      | dir => rfl
      | lnk _ => rfl
      | reg c v => exact absurd rfl (hnot c v)
    cases o with
    | reg c v =>
      cases o' with
      | reg c' v' =>
        have hhash : sha256 c = sha256 c' := hex_injective h
        by_cases hsame : c = c' ∧ v = v'
        · exact .inl (by rw [hsame.1, hsame.2])
        · exact .inr ⟨c, v, c', v', rfl, rfl, hhash, by tauto⟩
      | _ =>
        refine absurd ?_ (hfile c v)
        rw [h]
        exact hmark _ (by rintro _ _ ⟨⟩)
    | dir =>
      cases o' with
      | reg c' v' =>
        refine absurd ?_ (hfile c' v')
        rw [← h]
        exact hmark _ (by rintro _ _ ⟨⟩)
      | dir => exact .inl rfl
      | lnk s => cases h
    | lnk s =>
      cases o' with
      | reg c' v' =>
        refine absurd ?_ (hfile c' v')
        rw [← h]
        exact hmark _ (by rintro _ _ ⟨⟩)
      | dir => cases h
      | lnk s' =>
        rw [fileFingerprint, fileFingerprint, take_of_readWhole ho, take_of_readWhole ho'] at h
        rw [List.append_cancel_left (List.append_cancel_right h)]
        exact .inl rfl
  · rintro (rfl | ⟨c, v, c', v', rfl, rfl, hhash, -⟩)
    · rfl
    · rw [fileFingerprint, fileFingerprint, hhash]

end Fingerprint

/-! ### The report -/

section Report
variable {sha256 : Bytes → Bytes} {s : State} {a b : Readable s} {x y : Option Obj} {k : DiffKind} {l : Loc} {o : Obj}
  {e : FileEntry}

lemma DiffKind.Holds.ne (h : k.Holds x y) : x ≠ y := by
  rintro rfl
  cases k with
  | added => exact h.2 h.1
  | removed => exact h.1 h.2
  | modified => exact h.2.2 rfl

lemma exists_holds (h : x ≠ y) : ∃ k : DiffKind, k.Holds x y := by
  by_cases hx : x = none
  · exact ⟨.added, hx, fun hy => h (hx.trans hy.symm)⟩
  · by_cases hy : y = none
    · exact ⟨.removed, hx, hy⟩
    · exact ⟨.modified, hx, hy, h⟩

/-- The entries of a snapshot. -/
def Readable.entries (sha256 : Bytes → Bytes) (a : Readable s) : List FileEntry := walkStored sha256 s a.row.storePath

lemma Readable.entries_eq (a : Readable s) : a.entries sha256 =
    walkChild sha256 (storeDir ++ a.row.storePath.val) [] a.entry.tree := by
  unfold Readable.entries walkStored
  rw [a.stored]

lemma Readable.mem_entries (a : Readable s) : e ∈ a.entries sha256 ↔
    ∃ l ≠ [], ∃ o, a.entry.tree.lookup l = some o ∧ e = ⟨pathOf [] l, fileFingerprint sha256 o⟩ := by
  rw [a.entries_eq]
  exact mem_walkChild a.wf (narDump_some a.dumped).1 (Nat.zero_le _)

lemma Readable.nodup_entries (a : Readable s) : ((a.entries sha256).map FileEntry.relPath).Nodup := by
  rw [a.entries_eq]
  exact nodup_walkChild a.wf (narDump_some a.dumped).1 (Nat.zero_le _)

lemma Readable.lookup_nil (a : Readable s) : a.entry.tree.lookup [] = some .dir := by
  rw [a.isTree, FileTree.lookup_nil]
  rfl

/-- The entry of a path is the one of the location. -/
lemma Readable.entry_at (a : Readable s) (hl : ∀ n ∈ l, ValidName n) (he : e ∈ a.entries sha256)
    (hpath : e.relPath = pathOf [] l) : ∃ o, a.entry.tree.lookup l = some o ∧ e.hash = fileFingerprint sha256 o := by
  obtain ⟨l', -, o, ho, rfl⟩ := a.mem_entries.1 he
  obtain rfl := pathOf_injective (validName_of_lookup a.wf ho) hl hpath
  exact ⟨o, ho, rfl⟩

lemma Readable.absent_iff (a : Readable s) (hl : ∀ n ∈ l, ValidName n) (hne : l ≠ []) :
    (∀ e ∈ a.entries sha256, e.relPath ≠ pathOf [] l) ↔ a.entry.tree.lookup l = none := by
  constructor
  · intro h
    cases ho : a.entry.tree.lookup l with
    | none => rfl
    | some o => exact absurd rfl (h _ (a.mem_entries.2 ⟨l, hne, o, ho, rfl⟩))
  · intro h e he hpath
    obtain ⟨o, ho, -⟩ := a.entry_at hl he hpath
    rw [h] at ho
    cases ho

lemma snapshotDiff_eq (a b : Readable s) :
    snapshotDiff sha256 s a.id b.id = some (diffEntries (a.entries sha256) (b.entries sha256)) := by
  unfold snapshotDiff
  rw [a.got, b.got]
  rfl

/-- **What is reported** are the paths that only one tree has, and those whose fingerprints differ. -/
theorem reported_iff (a b : Readable s) (p : Path) :
    (∃ d ∈ diffEntries (a.entries sha256) (b.entries sha256), d.kind = k ∧ d.relPath = p) ↔
      ∃ l ≠ [], pathOf [] l = p ∧ k.Holds (a.entry.tree.lookup l) (b.entry.tree.lookup l) ∧
        ¬ SameFingerprint sha256 (a.entry.tree.lookup l) (b.entry.tree.lookup l) := by
  simp only [mem_diffEntries b.nodup_entries]
  constructor
  · rintro ⟨d, hd, rfl, rfl⟩
    cases hd with
    | @removed e he hnot =>
      obtain ⟨l, hl, o, ho, rfl⟩ := a.mem_entries.1 he
      have hnone := (b.absent_iff (validName_of_lookup a.wf ho) hl).1 hnot
      refine ⟨l, hl, rfl, ⟨?_, hnone⟩, ?_⟩
      · rw [ho]
        exact Option.some_ne_none o
      · rw [hnone]
        rintro ⟨_, _, _, _, -, ⟨⟩, -⟩
    | @added e he hnot =>
      obtain ⟨l, hl, o, ho, rfl⟩ := b.mem_entries.1 he
      have hnone := (a.absent_iff (validName_of_lookup b.wf ho) hl).1 hnot
      refine ⟨l, hl, rfl, ⟨hnone, ?_⟩, ?_⟩
      · rw [ho]
        exact Option.some_ne_none o
      · rw [hnone]
        rintro ⟨_, _, _, _, ⟨⟩, -⟩
    | @modified e m he hm hpath hne =>
      obtain ⟨l, hl, o, ho, rfl⟩ := a.mem_entries.1 he
      obtain ⟨o', ho', hhash⟩ := b.entry_at (validName_of_lookup a.wf ho) hm hpath
      rw [hhash, Ne, fileFingerprint_eq_iff (readWhole_of_lookup a.wf ho) (readWhole_of_lookup b.wf ho'), not_or] at hne
      refine ⟨l, hl, rfl, ?_, ?_⟩
      · rw [ho, ho']
        exact ⟨Option.some_ne_none o, Option.some_ne_none o', fun h => hne.1 (Option.some.inj h)⟩
      · rw [ho, ho']
        exact hne.2
  · rintro ⟨l, hl, rfl, hk, hnot⟩
    cases k with
    | added =>
      obtain ⟨o, ho⟩ := Option.ne_none_iff_exists'.1 hk.2
      have habsent : ∀ e ∈ a.entries sha256, e.relPath ≠ pathOf [] l :=
        (a.absent_iff (validName_of_lookup b.wf ho) hl).2 hk.1
      exact ⟨_, .added (b.mem_entries.2 ⟨l, hl, o, ho, rfl⟩) habsent, rfl, rfl⟩
    | removed =>
      obtain ⟨o, ho⟩ := Option.ne_none_iff_exists'.1 hk.1
      have habsent : ∀ e ∈ b.entries sha256, e.relPath ≠ pathOf [] l :=
        (b.absent_iff (validName_of_lookup a.wf ho) hl).2 hk.2
      exact ⟨_, .removed (a.mem_entries.2 ⟨l, hl, o, ho, rfl⟩) habsent, rfl, rfl⟩
    | modified =>
      obtain ⟨o, ho⟩ := Option.ne_none_iff_exists'.1 hk.1
      obtain ⟨o', ho'⟩ := Option.ne_none_iff_exists'.1 hk.2.1
      have hne := hk.2.2
      rw [ho, ho'] at hne hnot
      refine ⟨_, .modified (a.mem_entries.2 ⟨l, hl, o, ho, rfl⟩) (b.mem_entries.2 ⟨l, hl, o', ho', rfl⟩) rfl ?_, rfl, rfl⟩
      dsimp only
      rw [Ne, fileFingerprint_eq_iff (readWhole_of_lookup a.wf ho) (readWhole_of_lookup b.wf ho'), not_or]
      exact ⟨fun h => hne (congrArg some h), hnot⟩

/-- Trees that differ nowhere have one stream. -/
lemma stream_eq_iff (a b : Readable s) :
    a.stream = b.stream ↔ ∀ l ≠ [], a.entry.tree.lookup l = b.entry.tree.lookup l := by
  rw [narDump_eq_iff a.wf b.wf a.dumped b.dumped]
  constructor
  · intro h l _
    rw [h]
  · intro h
    funext l
    cases l with
    | nil => rw [a.lookup_nil, b.lookup_nil]
    | cons n l => exact h _ (List.cons_ne_nil n l)

lemma not_reportsExactly (h : SameFingerprint sha256 (a.entry.tree.lookup l) (b.entry.tree.lookup l)) :
    ¬ ReportsExactly sha256 s a b := by
  rintro ⟨report, back, hreport, -, hexact⟩
  rw [snapshotDiff_eq] at hreport
  cases hreport
  obtain ⟨c, v, c', v', ho, ho', -, hne⟩ := id h
  have hl : l ≠ [] := by
    rintro rfl
    rw [a.lookup_nil] at ho
    cases ho
  have hholds : DiffKind.modified.Holds (a.entry.tree.lookup l) (b.entry.tree.lookup l) := by
    rw [ho, ho']
    refine ⟨Option.some_ne_none _, Option.some_ne_none _, fun heq => ?_⟩
    cases heq
    exact hne.elim (fun h => h rfl) fun h => h rfl
  obtain ⟨l', -, hpath, hholds', hnot⟩ := (reported_iff a b _).1 ((hexact.reported _ _).2 ⟨l, hl, rfl, hholds⟩)
  obtain ⟨o', ho''⟩ := Option.ne_none_iff_exists'.1 hholds'.1
  obtain rfl := pathOf_injective (validName_of_lookup a.wf ho'') (validName_of_lookup a.wf ho) hpath
  exact hnot h

/-- **The report is right unless two files have one fingerprint** and are not the same. -/
theorem reportsExactly_iff (sha256 : Bytes → Bytes) (s : State) (a b : Readable s) :
    ReportsExactly sha256 s a b ↔ ¬ ∃ l, SameFingerprint sha256 (a.entry.tree.lookup l) (b.entry.tree.lookup l) := by
  constructor
  · rintro hexact ⟨l, hl⟩
    exact not_reportsExactly hl hexact
  · intro hnot
    have hreported : ∀ k p, (∃ d ∈ diffEntries (a.entries sha256) (b.entries sha256), d.kind = k ∧ d.relPath = p) ↔
        ∃ l ≠ [], pathOf [] l = p ∧ k.Holds (a.entry.tree.lookup l) (b.entry.tree.lookup l) := by
      intro k p
      rw [reported_iff a b p]
      constructor
      · rintro ⟨l, hl, hp, hk, -⟩
        exact ⟨l, hl, hp, hk⟩
      · rintro ⟨l, hl, hp, hk⟩
        exact ⟨l, hl, hp, hk, fun h => hnot ⟨l, h⟩⟩
    refine ⟨_, _, snapshotDiff_eq a b, snapshotDiff_eq b a, nodup_diffEntries a.nodup_entries b.nodup_entries,
      hreported, perm_diffEntries a.nodup_entries b.nodup_entries, ?_⟩
    rw [stream_eq_iff, List.eq_nil_iff_forall_not_mem]
    constructor
    · intro hnil l hl
      by_contra hne
      obtain ⟨k, hk⟩ := exists_holds hne
      obtain ⟨d, hd, -⟩ := (hreported k _).2 ⟨l, hl, rfl, hk⟩
      exact hnil d hd
    · intro hsame d hd
      obtain ⟨l, hl, -, hk⟩ := (hreported _ _).1 ⟨d, hd, rfl, rfl⟩
      exact hk.ne (hsame l hl)

end Report

/-! ### A file made executable -/

/-- A directory with one file in it. -/
def oneFile (executable : Bool) : Entry := ⟨.directory [(ascii "f", .regular (ascii "x") executable)], true⟩

/-- The snapshots before and after `chmod`. -/
def chmodName : Bool → StoreName
  | false => ⟨ascii "00000000000000000000000000000000-snap-d", by decide⟩
  | true => ⟨ascii "11111111111111111111111111111111-snap-d", by decide⟩

def chmodRow (v : Bool) : Row where
  id := if v then 2 else 1
  path := ascii "/d"
  storePath := chmodName v
  narHash := []
  parentId := if v then some 1 else none
  message := none
  takenAt := 0
  scope := ascii "system"

def chmodState : State :=
  { State.start .fresh with
    world := { World.fresh with
      store := (AList.insert (chmodName false) (oneFile false) ∅).insert (chmodName true) (oneFile true) }
    rows := [chmodRow false, chmodRow true] }

lemma wf_oneFile (v : Bool) : (oneFile v).tree.Wf := by
  refine .directory (List.nodup_singleton _) ?_ ?_
  · have hf : ValidName (ascii "f") := ⟨by decide, by decide, by decide, by decide, by decide, by decide⟩
    rw [List.forall_mem_singleton]
    exact hf
  · rw [List.forall_mem_singleton]
    exact .regular (by decide)

def chmodded (v : Bool) : Readable chmodState where
  id := (chmodRow v).id
  row := chmodRow v
  got := by cases v <;> rfl
  entry := oneFile v
  stored := by
    cases v with
    | false => rw [chmodState, AList.lookup_insert_ne (by decide)]; exact AList.lookup_insert _
    | true => exact AList.lookup_insert _
  listing := [(ascii "f", .regular (ascii "x") v)]
  isTree := rfl
  wf := wf_oneFile v
  stream := (narDump (storeDir ++ (chmodName v).val) (oneFile v).tree).get (by cases v <;> decide +kernel)
  dumped := (Option.some_get _).symm

/-- Whatever the hash, the report does not mention the file. -/
theorem chmod_not_reported : ¬ ∃ sha256 : Bytes → Bytes,
    ReportsExactly sha256 chmodState (chmodded false) (chmodded true) := by
  rintro ⟨sha256, h⟩
  have hsame : SameFingerprint sha256 ((chmodded false).entry.tree.lookup [ascii "f"])
      ((chmodded true).entry.tree.lookup [ascii "f"]) :=
    ⟨ascii "x", false, ascii "x", true, by decide, by decide, rfl, .inr (by decide)⟩
  exact not_reportsExactly hsame h

end Two09.Snapshot
