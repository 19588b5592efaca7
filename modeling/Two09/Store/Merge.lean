import Two09.Store.Optimise

/-!
# What an undisturbed run merges

A run in which no call fails and nobody else touches `.links`: each file with a single link either becomes
the entry of `.links` for its contents' hash, or is replaced by the one that is there. A path keeps what it
shows exactly if the entry it ends with is like its own inode.
-/

namespace Two09.Store

open Two09.Lib Two09.Lib.Posix Two09.Nar

namespace Disk

/-! ### Links -/

variable (d : Disk) (i : Ino)

/-- The names of an inode in the store and in `.links`. -/
def refs : Finset (Path ⊕ Bytes) :=
  (d.names.keys.toFinset.filter fun p => d.names.lookup p = some i).disjSum
    (d.pool.keys.toFinset.filter fun h => d.pool.lookup h = some i)

lemma nlink_eq : d.nlink i = (d.refs i).card + d.elsewhere i := by
  rw [nlink, refs, Finset.card_disjSum]

variable {d i} {d' : Disk} {path q : Path} {name : Bytes} {j k : Ino} {contents : Bytes}

lemma inl_mem_refs : .inl path ∈ d.refs i ↔ d.names.lookup path = some i := by
  simp only [refs, Finset.inl_mem_disjSum, Finset.mem_filter, List.mem_toFinset,
    and_iff_right_iff_imp]
  intro h
  exact AList.lookup_isSome.1 (by rw [h]; rfl)

lemma inr_mem_refs : .inr name ∈ d.refs i ↔ d.pool.lookup name = some i := by
  simp only [refs, Finset.inr_mem_disjSum, Finset.mem_filter, List.mem_toFinset,
    and_iff_right_iff_imp]
  intro h
  exact AList.lookup_isSome.1 (by rw [h]; rfl)

/-- Two names are too many for a file to be merged. -/
lemma one_lt_nlink {a b : Path ⊕ Bytes} (ha : a ∈ d.refs i) (hb : b ∈ d.refs i) (hab : a ≠ b) :
    1 < d.nlink i := by
  have hcard : 1 < (d.refs i).card := Finset.one_lt_card.2 ⟨a, ha, b, hb, hab⟩
  rw [nlink_eq]
  omega

lemma nlink_congr (hrefs : d'.refs i = d.refs i) (helse : d'.elsewhere = d.elsewhere) :
    d'.nlink i = d.nlink i := by
  rw [nlink_eq, nlink_eq, hrefs, helse]

/-! ### Single links -/

variable (d) in
/-- The inode and the contents of a regular file that has no second link. -/
def single (path : Path) : Option (Ino × Bytes) :=
  (d.names.lookup path).bind fun i =>
    match d.inode i with
    | .regular contents _ => if 1 < d.nlink i then none else some (i, contents)
    | .symlink _ => none

lemma single_eq_some : d.single path = some (i, contents) ↔
    d.names.lookup path = some i ∧ (∃ x, d.inode i = .regular contents x) ∧ d.nlink i ≤ 1 := by
  unfold single
  constructor
  · intro h
    obtain ⟨k, hk, h⟩ := Option.bind_eq_some_iff.1 h
    split at h
    next c x hinode =>
      split_ifs at h with hlink
      obtain ⟨rfl, rfl⟩ : k = i ∧ c = contents := by simpa using h
      exact ⟨hk, ⟨x, hinode⟩, by omega⟩
    next => cases h
  · rintro ⟨hi, ⟨x, hinode⟩, hlink⟩
    rw [hi, Option.bind_some, hinode]
    exact if_neg (by omega)

/-- A single link is the only name of its inode. -/
lemma eq_of_single (h : d.single path = some (i, contents)) {a : Path ⊕ Bytes} (ha : a ∈ d.refs i) :
    a = .inl path := by
  obtain ⟨hi, -, hlink⟩ := single_eq_some.1 h
  by_contra hne
  have htwo := one_lt_nlink ha (inl_mem_refs.2 hi) hne
  omega

lemma ne_of_single (h : d.single path = some (i, contents)) (hj : d.pool.lookup name = some j) : i ≠ j := by
  rintro rfl
  cases eq_of_single h (inr_mem_refs.2 hj)

end Disk

/-! ### Merging -/

section Merge
variable (sha256 : Bytes → Bytes)

/-- What a visit comes to. -/
def merge (d : Disk) (path : Path) : Disk :=
  match d.single path with
  | none => d
  | some (i, contents) => match d.pool.lookup (hex (sha256 contents)) with
    | none => { d with pool := d.pool.insert (hex (sha256 contents)) i }
    | some j => { d with names := (d.names.erase path).insert path j }

/-- What a visit counts. -/
def counted (d : Disk) (path : Path) : Nat := ((d.single path).map fun s => s.2.length).getD 0

variable {sha256} {d : Disk} {path q : Path} {name : Bytes} {i j k : Ino} {contents : Bytes}

lemma merge_of_none (h : d.single path = none) : merge sha256 d path = d := by
  rw [merge, h]

lemma merge_first (h : d.single path = some (i, contents))
    (hnew : d.pool.lookup (hex (sha256 contents)) = none) :
    merge sha256 d path = { d with pool := d.pool.insert (hex (sha256 contents)) i } := by
  rw [merge, h]
  dsimp only
  rw [hnew]

lemma merge_again (h : d.single path = some (i, contents))
    (hold : d.pool.lookup (hex (sha256 contents)) = some j) :
    merge sha256 d path = { d with names := (d.names.erase path).insert path j } := by
  rw [merge, h]
  dsimp only
  rw [hold]

/-- What a visit does: nothing, or an entry of `.links` is made, or the file is replaced by one. -/
lemma merge_cases (sha256 : Bytes → Bytes) (d : Disk) (path : Path) :
    (d.single path = none ∧ merge sha256 d path = d) ∨
    (∃ i contents, d.single path = some (i, contents) ∧ d.pool.lookup (hex (sha256 contents)) = none ∧
      merge sha256 d path = { d with pool := d.pool.insert (hex (sha256 contents)) i }) ∨
    ∃ i contents j, d.single path = some (i, contents) ∧
      d.pool.lookup (hex (sha256 contents)) = some j ∧
        merge sha256 d path = { d with names := (d.names.erase path).insert path j } := by
  rcases hs : d.single path with _ | ⟨i, contents⟩
  · exact .inl ⟨rfl, merge_of_none hs⟩
  · cases hp : d.pool.lookup (hex (sha256 contents)) with
    | none => exact .inr (.inl ⟨i, contents, rfl, hp, merge_first hs hp⟩)
    | some j => exact .inr (.inr ⟨i, contents, j, rfl, hp, merge_again hs hp⟩)

lemma merge_inode : (merge sha256 d path).inode = d.inode := by
  rcases merge_cases sha256 d path with ⟨-, h⟩ | ⟨i, c, -, -, h⟩ | ⟨i, c, j, -, -, h⟩ <;> rw [h]

/-- A new entry for one file is no link of another. -/
lemma nlink_pool {digest : Bytes} (hnew : d.pool.lookup digest = none) (hki : k ≠ i) :
    ({ d with pool := d.pool.insert digest i } : Disk).nlink k = d.nlink k := by
  refine Disk.nlink_congr (Finset.ext fun a => ?_) rfl
  cases a with
  | inl p => rw [Disk.inl_mem_refs, Disk.inl_mem_refs]
  | inr b =>
    rw [Disk.inr_mem_refs, Disk.inr_mem_refs]
    by_cases hb : b = digest
    · subst hb
      simp [hnew, Ne.symm hki]
    · rw [AList.lookup_insert_ne hb]

/-- Where a path is linked to an entry of `.links`, other files have several links or one, as before. -/
lemma one_lt_nlink_relink {digest : Bytes} (hs : d.single path = some (i, contents))
    (hold : d.pool.lookup digest = some j) (hq : q ≠ path) (hk : d.names.lookup q = some k) (hki : k ≠ i) :
    1 < ({ d with names := (d.names.erase path).insert path j } : Disk).nlink k ↔ 1 < d.nlink k := by
  by_cases hkj : k = j
  · -- an entry of `.links` that is a file as well
    subst hkj
    refine iff_of_true ?_ ?_
    · refine Disk.one_lt_nlink (Disk.inl_mem_refs.2 ?_) (Disk.inr_mem_refs.2 hold) (Sum.inl_ne_inr (a := q))
      dsimp only
      rw [AList.lookup_insert_ne hq, AList.lookup_erase_ne hq, hk]
    · exact Disk.one_lt_nlink (Disk.inl_mem_refs.2 hk) (Disk.inr_mem_refs.2 hold) Sum.inl_ne_inr
  · have hrefs : ({ d with names := (d.names.erase path).insert path j } : Disk).refs k = d.refs k := by
      ext a
      cases a with
      | inl p =>
        rw [Disk.inl_mem_refs, Disk.inl_mem_refs]
        by_cases hp : p = path
        · subst hp
          have hpi : d.names.lookup p = some i := (Disk.single_eq_some.1 hs).1
          simp [hpi, Ne.symm hkj, Ne.symm hki]
        · dsimp only
          rw [AList.lookup_insert_ne hp, AList.lookup_erase_ne hp]
      | inr b => rw [Disk.inr_mem_refs, Disk.inr_mem_refs]
    rw [Disk.nlink_congr hrefs rfl]

/-- **What other files have in common with the disk does not change**: a file with a single link keeps
it, and one with several keeps more than one. -/
lemma single_merge (hq : q ≠ path) : (merge sha256 d path).single q = d.single q := by
  rcases merge_cases sha256 d path with ⟨-, h⟩ | ⟨i, c, hs, hnew, h⟩ | ⟨i, c, j, hs, hold, h⟩
  · rw [h]
  · rw [h]
    unfold Disk.single
    dsimp only
    cases hk : d.names.lookup q with
    | none => rfl
    | some k =>
      have hki : k ≠ i := by
        rintro rfl
        exact hq (Sum.inl.inj (Disk.eq_of_single hs (Disk.inl_mem_refs.2 hk)))
      simp only [Option.bind_some, nlink_pool hnew hki]
  · rw [h]
    unfold Disk.single
    dsimp only
    rw [AList.lookup_insert_ne hq, AList.lookup_erase_ne hq]
    cases hk : d.names.lookup q with
    | none => rfl
    | some k =>
      have hki : k ≠ i := by
        rintro rfl
        exact hq (Sum.inl.inj (Disk.eq_of_single hs (Disk.inl_mem_refs.2 hk)))
      simp only [Option.bind_some, one_lt_nlink_relink hs hold hq hk hki]

lemma merge_local : Local (merge sha256) fun d q => d.read q := by
  intro d path q hq
  show (merge sha256 d path).read q = d.read q
  rcases merge_cases sha256 d path with ⟨-, h⟩ | ⟨i, c, -, -, h⟩ | ⟨i, c, j, -, -, h⟩
  · rw [h]
  · rw [h]
    rfl
  · rw [h, Disk.read, Disk.read]
    dsimp only
    rw [AList.lookup_insert_ne hq, AList.lookup_erase_ne hq]

/-- What a path shows after its visit: what the entry for its hash shows, if it has a single link and
there is an entry. -/
lemma read_merge : (merge sha256 d path).read path = d.read path ↔
    ∀ i contents, d.single path = some (i, contents) →
      ∀ j, d.pool.lookup (hex (sha256 contents)) = some j → d.inode j = d.inode i := by
  rcases merge_cases sha256 d path with ⟨hs, h⟩ | ⟨i, c, hs, hnew, h⟩ | ⟨i, c, j, hs, hold, h⟩
  · rw [h, hs]
    exact iff_of_true rfl fun _ _ hsome => absurd hsome (by simp)
  · rw [h, hs]
    refine iff_of_true rfl fun i' c' hsome j hold => ?_
    obtain ⟨rfl, rfl⟩ : i = i' ∧ c = c' := by simpa using hsome
    rw [hnew] at hold
    cases hold
  · have hi : d.names.lookup path = some i := (Disk.single_eq_some.1 hs).1
    rw [h, hs, Disk.read, Disk.read, hi]
    dsimp only
    rw [AList.lookup_insert, Option.map_some, Option.map_some, Option.some_inj]
    constructor
    · intro heq i' c' hsome j' hold'
      obtain ⟨rfl, rfl⟩ : i = i' ∧ c = c' := by simpa using hsome
      obtain rfl : j = j' := Option.some.inj (hold.symm.trans hold')
      exact heq
    · intro hall
      exact hall i c rfl j hold

/-! ### What becomes the entry -/

variable (sha256) in
/-- The inode a visit offers for an entry. -/
def offers (d : Disk) (name : Bytes) (path : Path) : Option Ino :=
  (d.single path).bind fun s => if hex (sha256 s.2) = name then some s.1 else none

variable (sha256) in
/-- The inode that files with this hash end with: that of the entry in `.links`, or else that of the first
of the files with a single link. -/
def shared (d : Disk) (paths : List Path) (name : Bytes) : Option Ino :=
  (d.pool.lookup name).or (paths.findSome? (offers sha256 d name))

lemma offers_eq_some : offers sha256 d name path = some i ↔
    ∃ contents, d.single path = some (i, contents) ∧ hex (sha256 contents) = name := by
  unfold offers
  constructor
  · intro h
    obtain ⟨⟨k, contents⟩, hs, hk⟩ := Option.bind_eq_some_iff.1 h
    split_ifs at hk with hname
    obtain rfl : k = i := Option.some.inj hk
    exact ⟨contents, hs, hname⟩
  · rintro ⟨contents, hs, hname⟩
    rw [hs, Option.bind_some, if_pos hname]

lemma pool_merge : (merge sha256 d path).pool.lookup name =
    (d.pool.lookup name).or (offers sha256 d name path) := by
  rcases merge_cases sha256 d path with ⟨hs, h⟩ | ⟨i, c, hs, hnew, h⟩ | ⟨i, c, j, hs, hold, h⟩
  · rw [h, offers, hs, Option.bind_none, Option.or_none]
  · rw [h, offers, hs, Option.bind_some]
    dsimp only
    by_cases hname : hex (sha256 c) = name
    · subst hname
      rw [AList.lookup_insert, hnew, if_pos rfl, Option.none_or]
    · rw [AList.lookup_insert_ne (Ne.symm hname), if_neg hname, Option.or_none]
  · rw [h, offers, hs, Option.bind_some]
    dsimp only
    split_ifs with hname
    · subst hname
      rw [hold, Option.some_or]
    · rw [Option.or_none]

lemma shared_merge {paths : List Path} (hnew : path ∉ paths) :
    shared sha256 (merge sha256 d path) paths name = shared sha256 d (path :: paths) name := by
  have hsame : paths.findSome? (offers sha256 (merge sha256 d path) name) =
      paths.findSome? (offers sha256 d name) := by
    rw [← List.head?_filterMap, ← List.head?_filterMap]
    refine congrArg List.head? (List.filterMap_congr fun q hq => ?_)
    have hne : q ≠ path := fun h => hnew (h ▸ hq)
    rw [offers, offers, single_merge hne]
  rw [shared, shared, hsame, pool_merge, List.findSome?_cons, Option.or_assoc]
  congr 1
  cases offers sha256 d name path with
  | none => rfl
  | some i => rfl

lemma shared_append (xs ys : List Path) : shared sha256 d (xs ++ ys) name =
    (shared sha256 d xs name).or (ys.findSome? (offers sha256 d name)) := by
  rw [shared, shared, List.findSome?_append, Option.or_assoc]

/-- A file ends with the entry there was before it, or its own inode. -/
lemma shared_at {before after : List Path} (h : d.single path = some (i, contents)) :
    shared sha256 d (before ++ path :: after) (hex (sha256 contents)) =
      some ((shared sha256 d before (hex (sha256 contents))).getD i) := by
  have hoffers : offers sha256 d (hex (sha256 contents)) path = some i := offers_eq_some.2 ⟨contents, h, rfl⟩
  rw [shared_append, List.findSome?_cons, hoffers]
  cases shared sha256 d before (hex (sha256 contents)) with
  | none => rfl
  | some j => rfl

end Merge

/-! ### Runs -/

section Runs
variable {sha256 : Bytes → Bytes} {d : Disk} {paths before after : List Path} {path : Path} {name : Bytes}

lemma single_local : Local (merge sha256) Disk.single := fun _ _ _ hq => single_merge hq

lemma inode_run : (paths.foldl (merge sha256) d).inode = d.inode := by
  induction paths generalizing d with
  | nil => rfl
  | cons path paths ih => rw [List.foldl_cons, ih, merge_inode]

/-- **After a run each hash has its entry**: the one it had, or the first file that offered one. -/
lemma pool_run (hnodup : paths.Nodup) :
    (paths.foldl (merge sha256) d).pool.lookup name = shared sha256 d paths name := by
  induction paths generalizing d with
  | nil => rw [List.foldl_nil, shared, List.findSome?_nil, Option.or_none]
  | cons path paths ih =>
    rw [List.nodup_cons] at hnodup
    rw [List.foldl_cons, ih hnodup.2, shared_merge hnodup.1]

/-- What each visit of a run finds, in terms of the disk at the start. -/
lemma atEach_merge {C : (Ino → Inode) → Ino → Bytes → Option Ino → Prop} (hnodup : paths.Nodup) :
    AtEach (merge sha256) (fun d path => ∀ i contents, d.single path = some (i, contents) →
        C d.inode i contents (d.pool.lookup (hex (sha256 contents)))) d paths ↔
      ∀ before path after, paths = before ++ path :: after → ∀ i contents,
        d.single path = some (i, contents) →
          C d.inode i contents (shared sha256 d before (hex (sha256 contents))) := by
  rw [atEach_iff_split]
  refine forall_congr' fun before => forall_congr' fun path => forall_congr' fun after => ?_
  refine forall_congr' fun heq => ?_
  subst heq
  obtain ⟨hbefore, -, hapart⟩ := List.nodup_append.1 hnodup
  have hnot : path ∉ before := fun h => hapart path h path List.mem_cons_self rfl
  rw [single_local.run hnot, inode_run]
  simp only [pool_run hbefore]

end Runs

/-! ### Visits that nothing disturbs -/

/-- No call fails, and nobody else is there. -/
def Setting.calm (leads : Bytes → Bool) : Setting := ⟨fun _ d => d.pool, fun _ => false, leads⟩

section Calm
variable {leads : Bytes → Bool} {sha256 : Bytes → Bytes} {m : Machine} {path : Path} {name contents : Bytes}
  {i j : Ino} {size : Nat} {x : Bool}

lemma turn_calm : m.turn (.calm leads) = ⟨m.disk, m.calls + 1⟩ := rfl

lemma replaceFile_calm (hi : m.disk.names.lookup path = some i) (hj : m.disk.pool.lookup name = some j) :
    (replaceFile (.calm leads) m path name size).1.disk =
        { m.disk with names := (m.disk.names.erase path).insert path j } ∧
      (replaceFile (.calm leads) m path name size).2 = size := by
  have hmem : path ∈ m.disk.names := AList.lookup_isSome.1 (by rw [hi]; rfl)
  have hunlink : unlinkPath (.calm leads) m path =
      (⟨{ m.disk with names := m.disk.names.erase path }, m.calls + 1⟩, true) := by
    unfold unlinkPath
    rw [turn_calm]
    exact if_neg (by simp [Setting.calm, hmem])
  have hlink : linkBack (.calm leads) ⟨{ m.disk with names := m.disk.names.erase path }, m.calls + 1⟩ path name =
      (⟨{ m.disk with names := (m.disk.names.erase path).insert path j }, m.calls + 1 + 1⟩, true) := by
    unfold linkBack
    rw [turn_calm]
    dsimp only
    rw [if_neg (by simp [Setting.calm, AList.mem_erase]), hj]
  unfold replaceFile
  rw [hunlink]
  dsimp only
  rw [hlink]
  exact ⟨rfl, rfl⟩

/-- The first part of `dedupe_file`: the entry is there, or it is made. -/
lemma findTarget_calm (leads : Bytes → Bool) (sha256 : Bytes → Bytes) (nlink : Nat)
    (hi : m.disk.names.lookup path = some i) (hinode : m.disk.inode i = .regular contents x) (hlink : nlink ≤ 1) :
    ∃ calls, findTarget (.calm leads) sha256 m path nlink =
      match m.disk.pool.lookup (hex (sha256 contents)) with
      | none => (⟨{ m.disk with pool := m.disk.pool.insert (hex (sha256 contents)) i }, calls⟩,
          some (hex (sha256 contents), false))
      | some _ => (⟨m.disk, calls⟩, some (hex (sha256 contents), true)) := by
  have hread : m.disk.read path = some (.regular contents x) := by rw [Disk.read, hi, Option.map_some, hinode]
  have hsha : sha256File (.calm leads) sha256 m path = (⟨m.disk, m.calls + 1⟩, some (sha256 contents)) := by
    unfold sha256File
    rw [turn_calm]
    dsimp only
    rw [if_neg (by simp [Setting.calm]), hread]
  unfold findTarget
  rw [if_neg (by omega), hsha]
  dsimp only
  set name := hex (sha256 contents)
  have hlinkTarget : ∀ n, linkTarget (.calm leads) ⟨m.disk, n⟩ path name =
      if (m.disk.pool.lookup name).isSome then (⟨m.disk, n + 1⟩, .error .EEXIST)
      else (⟨{ m.disk with pool := m.disk.pool.insert name i }, n + 1⟩, .ok ()) := by
    intro n
    unfold linkTarget
    rw [turn_calm]
    dsimp only
    rw [if_neg (by simp [Setting.calm]), hi]
  cases hname : m.disk.pool.lookup name with
  | none =>
    have hstat : statTarget (.calm leads) ⟨m.disk, m.calls + 1⟩ name = (⟨m.disk, m.calls + 1 + 1⟩, false) := by
      unfold statTarget
      rw [turn_calm]
      dsimp only
      rw [hname]
      rfl
    refine ⟨m.calls + 1 + 1 + 1, ?_⟩
    rw [hstat]
    dsimp only
    rw [hlinkTarget, hname]
    rfl
  | some j =>
    have hstat : (statTarget (.calm leads) ⟨m.disk, m.calls + 1⟩ name).1 = ⟨m.disk, m.calls + 1 + 1⟩ := rfl
    rcases hs : statTarget (.calm leads) ⟨m.disk, m.calls + 1⟩ name with ⟨m', targetExists⟩
    obtain rfl : m' = ⟨m.disk, m.calls + 1 + 1⟩ := by rw [hs] at hstat; exact hstat
    cases targetExists with
    | true => exact ⟨m.calls + 1 + 1, rfl⟩
    | false =>
      refine ⟨m.calls + 1 + 1 + 1, ?_⟩
      dsimp only
      rw [hlinkTarget, hname]
      rfl

/-- **An undisturbed visit merges its file.** -/
theorem visit_calm (leads : Bytes → Bool) (sha256 : Bytes → Bytes) (m : Machine) (path : Path) :
    (visit (.calm leads) sha256 m path).1.disk = merge sha256 m.disk path ∧
      (visit (.calm leads) sha256 m path).2 = counted m.disk path := by
  unfold visit
  have hstat : lstat (.calm leads) m path = (⟨m.disk, m.calls + 1⟩,
      (m.disk.names.lookup path).map fun i => ⟨m.disk.inode i, m.disk.nlink i⟩) := rfl
  rw [hstat]
  have hidle : m.disk.single path = none →
      m.disk = merge sha256 m.disk path ∧ 0 = counted m.disk path := by
    intro hnone
    exact ⟨(merge_of_none hnone).symm, by simp [counted, hnone]⟩
  cases hi : m.disk.names.lookup path with
  | none => exact hidle (by rw [Disk.single, hi]; rfl)
  | some i =>
    rw [Option.map_some]
    cases hinode : m.disk.inode i with
    | symlink target => exact hidle (by rw [Disk.single, hi, Option.bind_some, hinode])
    | regular contents x =>
      dsimp only
      unfold dedupeFile
      by_cases hlink : 1 < m.disk.nlink i
      · rw [findTarget, if_pos hlink]
        exact hidle (by rw [Disk.single, hi, Option.bind_some, hinode]; exact if_pos hlink)
      · have hsingle : m.disk.single path = some (i, contents) :=
          Disk.single_eq_some.2 ⟨hi, ⟨x, hinode⟩, by omega⟩
        have hcounted : counted m.disk path = contents.length := by simp [counted, hsingle]
        obtain ⟨calls, hfound⟩ := findTarget_calm leads sha256 (m.disk.nlink i)
          (m := ⟨m.disk, m.calls + 1⟩) hi hinode (by omega)
        rw [hfound, hcounted]
        cases hname : m.disk.pool.lookup (hex (sha256 contents)) with
        | none => exact ⟨(merge_first hsingle hname).symm, rfl⟩
        | some j =>
          dsimp only
          rw [merge_again hsingle hname]
          exact replaceFile_calm (m := ⟨m.disk, calls⟩) hi hname

end Calm

/-- **An undisturbed run merges the files it comes to**, one after the other. -/
lemma storeOptimise_calm (leads : Bytes → Bool) (sha256 : Bytes → Bytes) (storeRoot : Path)
    (listing : StoreListing) (m : Machine) : (storeOptimise (.calm leads) sha256 storeRoot listing m).1.disk =
      (storeVisits storeRoot listing).foldl (merge sha256) m.disk := by
  rw [storeOptimise_run]
  induction storeVisits storeRoot listing generalizing m with
  | nil => rfl
  | cons path paths ih =>
    rw [List.foldl_cons, List.foldl_cons, ih]
    exact congrArg (paths.foldl (merge sha256)) (visit_calm leads sha256 m path).1

/-! ### What paths show -/

mutual

/-- The tree that stands at a path of the store, if all its files are there. -/
def Listing.tree (read : Path → Option Inode) (path : Path) : Listing → Option FileTree
  | .file => (read path).map fun
    | .regular contents x => .regular contents x
    | .symlink target => .symlink target
  | .dir entries => (entryTrees read path entries).map .directory

def entryTrees (read : Path → Option Inode) (path : Path) :
    List (Name × Listing) → Option (List (Name × FileTree))
  | [] => some []
  | (n, t) :: entries => (t.tree read (join path n)).bind fun tree =>
    (entryTrees read path entries).map ((n, tree) :: ·)

end

/-- Every path shows what it did, and every store path has the hash it had. -/
structure Preserved (sha256 : Bytes → Bytes) (storeRoot : Path) (listing : StoreListing) (d d' : Disk) :
    Prop where
  read : ∀ path, d'.read path = d.read path
  hash : ∀ e ∈ listing.entries,
    (e.2.tree d'.read (join storeRoot e.1)).bind (narHashDirectory sha256 (join storeRoot e.1)) =
      (e.2.tree d.read (join storeRoot e.1)).bind (narHashDirectory sha256 (join storeRoot e.1))

/-- **An undisturbed run preserves the store exactly if** each file with a single link is like the inode
that files with its hash end with, in its contents and its execute bit. -/
theorem storeOptimise_preserves_iff (leads : Bytes → Bool) (sha256 : Bytes → Bytes) (storeRoot : Path)
    (listing : StoreListing) (m : Machine) :
    Preserved sha256 storeRoot listing m.disk (storeOptimise (.calm leads) sha256 storeRoot listing m).1.disk ↔
      ∀ path ∈ storeVisits storeRoot listing, ∀ i contents j, m.disk.single path = some (i, contents) →
        shared sha256 m.disk (storeVisits storeRoot listing) (hex (sha256 contents)) = some j →
          m.disk.inode j = m.disk.inode i := by
  set paths := storeVisits storeRoot listing with hpaths
  have hnodup : paths.Nodup := nodup_storeVisits storeRoot listing
  rw [storeOptimise_calm, ← hpaths]
  generalize m.disk = d
  have hread : (∀ path, (paths.foldl (merge sha256) d).read path = d.read path) ↔
      ∀ before path after, paths = before ++ path :: after → ∀ i contents,
        d.single path = some (i, contents) →
          ∀ j, shared sha256 d before (hex (sha256 contents)) = some j → d.inode j = d.inode i := by
    rw [← atEach_merge (C := fun inode i _ o => ∀ j, o = some j → inode j = inode i) hnodup]
    have hlocal : Local (merge sha256) fun d q => d.read q := merge_local
    rw [hlocal.run_iff (R := fun a b => b = a) (fun _ => rfl) hnodup]
    simp only [read_merge]
  have hpreserved : Preserved sha256 storeRoot listing d (paths.foldl (merge sha256) d) ↔
      ∀ path, (paths.foldl (merge sha256) d).read path = d.read path := by
    refine ⟨Preserved.read, fun h => ⟨h, fun e _ => ?_⟩⟩
    rw [funext h]
  rw [hpreserved, hread]
  constructor
  · intro hall path hpath i contents j hsingle hj
    obtain ⟨before, after, heq⟩ := List.append_of_mem hpath
    have hbefore := hall before path after heq i contents hsingle
    rw [heq, shared_at hsingle, Option.some_inj] at hj
    cases hs : shared sha256 d before (hex (sha256 contents)) with
    | none =>
      rw [hs, Option.getD_none] at hj
      rw [hj]
    | some k =>
      rw [hs, Option.getD_some] at hj
      exact hj ▸ hbefore k hs
  · rintro hall before path after heq i contents hsingle j hj
    have hpath : path ∈ paths := by rw [heq]; simp
    refine hall path hpath i contents j hsingle ?_
    rw [heq, shared_at hsingle, hj, Option.getD_some]

/-! ### Modes that are not looked at -/

/-- A script and a text that reads the same. -/
def modesDisk : Disk where
  inode := fun i => .regular (ascii "x") (decide (i = 0))
  names := (AList.singleton (ascii "/nix/store/a") 0).insert (ascii "/nix/store/b") 1
  pool := ∅
  elsewhere := fun _ => 0

def twoFiles : StoreListing :=
  ⟨[(ascii "a", .file), (ascii "b", .file)], by
    simp only [EntriesWF, Listing.WF]
    decide⟩

/-- **The text becomes executable**, because the script was met first. -/
theorem modes_not_preserved : ¬ Preserved (fun _ => []) (ascii "/nix/store") twoFiles modesDisk
    (storeOptimise (.calm fun _ => false) (fun _ => []) (ascii "/nix/store") twoFiles ⟨modesDisk, 0⟩).1.disk := by
  intro h
  exact absurd (h.read (ascii "/nix/store/b")) (by decide +kernel)

end Two09.Store
