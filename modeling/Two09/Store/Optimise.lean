import Two09.Lib.Trace
import Two09.Store.Address

/-!
# Optimising the store

`store_optimise` walks the store and replaces each file by a hard link to the entry of `.links` that has
its contents' hash. Files are names of inodes here, and what an inode holds is never written. Any call
may fail, and between two calls other processes may make and remove entries of `.links`.
-/

namespace Two09.Store

open Two09.Lib Two09.Lib.Posix

/-! ### Disks -/

abbrev Ino := Nat

/-- What hard links can be made to. Of the mode only the owner's execute bit is kept. -/
inductive Inode
  | regular (contents : Bytes) (executable : Bool)
  | symlink (target : Bytes)
  deriving DecidableEq, Repr

/-- The names of the inodes: those of files and links in the store, by their paths, and the entries of
`.links`. How many names an inode has outside the store is `elsewhere`. -/
structure Disk where
  inode : Ino → Inode
  names : AList fun _ : Path => Ino
  pool : AList fun _ : Bytes => Ino
  elsewhere : Ino → Nat

namespace Disk

variable (d : Disk) (i : Ino) (path : Path)

/-- `st_nlink` -/
def nlink : Nat :=
  (d.names.keys.toFinset.filter fun p => d.names.lookup p = some i).card +
    (d.pool.keys.toFinset.filter fun h => d.pool.lookup h = some i).card + d.elsewhere i

/-- What a path of the store names. -/
def read : Option Inode := (d.names.lookup path).map d.inode

end Disk

/-- What goes on around a run. -/
structure Setting where
  /-- what other processes have made of `.links` by the time of a call -/
  others : Nat → Disk → AList fun _ : Bytes => Ino
  /-- the call fails, whatever it finds -/
  fails : Nat → Bool
  /-- the target of a symbolic link exists -/
  leads : Bytes → Bool

/-- A disk, and how many calls were made so far. -/
structure Machine where
  disk : Disk
  calls : Nat

/-- The part of `struct stat` that is looked at. -/
structure Stat where
  inode : Inode
  nlink : Nat

/-! ### Calls -/

section Calls
variable (st : Setting) (sha256 : Bytes → Bytes) (m : Machine) (path : Path) (name : Bytes)

/-- The next call is made: other processes came first. -/
def Machine.turn : Machine := ⟨{ m.disk with pool := st.others m.calls m.disk }, m.calls + 1⟩

def lstat : Machine × Option Stat :=
  let m' := m.turn st
  (m', if st.fails m.calls then none
    else (m'.disk.names.lookup path).map fun i => ⟨m'.disk.inode i, m'.disk.nlink i⟩)

/-- `sha256_file` -/
def sha256File : Machine × Option Bytes :=
  let m' := m.turn st
  (m', if st.fails m.calls then none
    else match m'.disk.read path with
      | some (.regular contents _) => some (sha256 contents)
      | _ => none)

/-- `stat` of an entry of `.links` succeeds: it follows a link. -/
def statTarget : Machine × Bool :=
  let m' := m.turn st
  (m', !st.fails m.calls && ((m'.disk.pool.lookup name).map m'.disk.inode).any fun
    | .regular _ _ => true
    | .symlink target => st.leads target)

/-- `link` of a file into `.links`. -/
def linkTarget : Machine × Except Errno Unit :=
  let m' := m.turn st
  if st.fails m.calls then (m', .error .EACCES)
  else match m'.disk.names.lookup path with
    | none => (m', .error .ENOENT)
    | some i =>
      if (m'.disk.pool.lookup name).isSome then (m', .error .EEXIST)
      else ({ m' with disk := { m'.disk with pool := m'.disk.pool.insert name i } }, .ok ())

/-- `unlink` of a file. -/
def unlinkPath : Machine × Bool :=
  let m' := m.turn st
  if st.fails m.calls ∨ path ∉ m'.disk.names then (m', false)
  else ({ m' with disk := { m'.disk with names := m'.disk.names.erase path } }, true)

/-- `link` of an entry of `.links` to a path. -/
def linkBack : Machine × Bool :=
  let m' := m.turn st
  if st.fails m.calls ∨ path ∈ m'.disk.names then (m', false)
  else match m'.disk.pool.lookup name with
    | none => (m', false)
    | some i => ({ m' with disk := { m'.disk with names := m'.disk.names.insert path i } }, true)

/-! ### Deduplication -/

/-- The first part of `dedupe_file`, up to where `target_exists` is settled: nothing where it returns 0. -/
def findTarget (nlink : Nat) : Machine × Option (Bytes × Bool) :=
  if 1 < nlink then (m, none)
  else match sha256File st sha256 m path with
    | (m, none) => (m, none)
    | (m, some digest) => match statTarget st m (hex digest) with
      | (m, true) => (m, some (hex digest, true))
      | (m, false) => match linkTarget st m path (hex digest) with
        | (m, .ok _) => (m, some (hex digest, false))
        | (m, .error .EEXIST) => (m, some (hex digest, true))
        | (m, .error _) => (m, none)

/-- The second part: the file is replaced by a link to the entry. -/
def replaceFile (size : Nat) : Machine × Nat :=
  match unlinkPath st m path with
  | (m, false) => (m, 0)
  | (m, true) => match linkBack st m path name with
    | (m, false) => (m, 0)
    | (m, true) => (m, size)

/-- `dedupe_file`; the result is what it counts as saved. -/
def dedupeFile (size nlink : Nat) : Machine × Nat :=
  match findTarget st sha256 m path nlink with
  | (m, none) => (m, 0)
  | (m, some (name, true)) => replaceFile st m path name size
  | (m, some (_, false)) => (m, size)

/-- `walk_and_dedupe` of what is no directory. -/
def visit : Machine × Nat :=
  match lstat st m path with
  | (m, some ⟨.regular contents _, nlink⟩) => dedupeFile st sha256 m path contents.length nlink
  | (m, _) => (m, 0)

end Calls

/-! ### The walk -/

/-- What `readdir` returns, directory by directory, in its order. -/
inductive Listing
  | file
  | dir (entries : List (Name × Listing))

mutual

/-- A directory returns each name once. -/
def Listing.WF : Listing → Prop
  | .file => True
  | .dir entries => EntriesWF entries

def EntriesWF : List (Name × Listing) → Prop
  | [] => True
  | (n, t) :: entries => slash ∉ n ∧ n ∉ entries.map Prod.fst ∧ t.WF ∧ EntriesWF entries

end

/-- The listing of a store. -/
structure StoreListing where
  entries : List (Name × Listing)
  wf : EntriesWF entries

/-- Entries the walk passes over: hidden ones, and those whose path is too long. -/
def skipped (path : Path) (n : Name) : Bool :=
  n.head? = some 46 || decide (pathMax ≤ (join path n).length)

section Walk
variable (st : Setting) (sha256 : Bytes → Bytes)

mutual

/-- `walk_and_dedupe` -/
def walkAndDedupe (path : Path) : Listing → Machine → Machine × Nat
  | .file, m => visit st sha256 m path
  | .dir entries, m => walkEntries path entries m

/-- The loop over the entries of a directory. -/
def walkEntries (path : Path) : List (Name × Listing) → Machine → Machine × Nat
  | [], m => (m, 0)
  | (n, t) :: entries, m =>
    let first := if skipped path n then (m, 0) else walkAndDedupe (join path n) t m
    let rest := walkEntries path entries first.1
    (rest.1, first.2 + rest.2)

end

/-- `store_optimise`, once the store and `.links` are there. -/
def storeOptimise (storeRoot : Path) (listing : StoreListing) (m : Machine) : Machine × Nat :=
  walkEntries st sha256 storeRoot listing.entries m

end Walk

mutual

/-- The files the walk comes to, in its order. -/
def visits (path : Path) : Listing → List Path
  | .file => [path]
  | .dir entries => entryVisits path entries

def entryVisits (path : Path) : List (Name × Listing) → List Path
  | [] => []
  | (n, t) :: entries => (if skipped path n then [] else visits (join path n) t) ++ entryVisits path entries

end

section Walk
variable {st : Setting} {sha256 : Bytes → Bytes}

mutual

/-- The walk is a run over the files it comes to. -/
lemma walkAndDedupe_run (path : Path) (t : Listing) (m : Machine) :
    (walkAndDedupe st sha256 path t m).1 =
      (visits path t).foldl (fun m p => (visit st sha256 m p).1) m := by
  cases t with
  | file => simp only [walkAndDedupe, visits, List.foldl_cons, List.foldl_nil]
  | dir entries =>
    simp only [walkAndDedupe, visits]
    exact walkEntries_run path entries m

lemma walkEntries_run (path : Path) (entries : List (Name × Listing)) (m : Machine) :
    (walkEntries st sha256 path entries m).1 =
      (entryVisits path entries).foldl (fun m p => (visit st sha256 m p).1) m := by
  cases entries with
  | nil => simp only [walkEntries, entryVisits, List.foldl_nil]
  | cons e entries =>
    obtain ⟨n, t⟩ := e
    simp only [walkEntries, entryVisits, List.foldl_append]
    rw [walkEntries_run path entries]
    split_ifs
    · rfl
    · rw [walkAndDedupe_run (join path n) t]

end

end Walk

/-! ### What is counted -/

section Saved
variable (st : Setting) (sha256 : Bytes → Bytes)

/-- What the visits of a run count, one after the other. -/
def savedAlong : Machine → List Path → Nat
  | _, [] => 0
  | m, path :: paths =>
    (visit st sha256 m path).2 + savedAlong (visit st sha256 m path).1 paths

variable {st sha256}

lemma savedAlong_append (m : Machine) (xs ys : List Path) : savedAlong st sha256 m (xs ++ ys) =
    savedAlong st sha256 m xs +
      savedAlong st sha256 (xs.foldl (fun m p => (visit st sha256 m p).1) m) ys := by
  induction xs generalizing m with
  | nil => simp [savedAlong]
  | cons path xs ih =>
    simp only [List.cons_append, savedAlong, List.foldl_cons, ih]
    omega

mutual

lemma walkAndDedupe_saved (path : Path) (t : Listing) (m : Machine) :
    (walkAndDedupe st sha256 path t m).2 = savedAlong st sha256 m (visits path t) := by
  cases t with
  | file => simp only [walkAndDedupe, visits, savedAlong, Nat.add_zero]
  | dir entries =>
    simp only [walkAndDedupe, visits]
    exact walkEntries_saved path entries m

lemma walkEntries_saved (path : Path) (entries : List (Name × Listing)) (m : Machine) :
    (walkEntries st sha256 path entries m).2 = savedAlong st sha256 m (entryVisits path entries) := by
  cases entries with
  | nil => simp only [walkEntries, entryVisits, savedAlong]
  | cons e entries =>
    obtain ⟨n, t⟩ := e
    simp only [walkEntries, entryVisits]
    rw [walkEntries_saved path entries, savedAlong_append]
    split_ifs
    · simp only [savedAlong, List.foldl_nil]
    · rw [walkAndDedupe_saved (join path n) t, walkAndDedupe_run]

end

end Saved

/-! ### What is visited once -/

lemma EntriesWF.noSlash {entries : List (Name × Listing)} {n : Name} (h : EntriesWF entries)
    (hn : n ∈ entries.map Prod.fst) : slash ∉ n := by
  induction entries with
  | nil => cases hn
  | cons e entries ih =>
    obtain ⟨n', t⟩ := e
    simp only [EntriesWF] at h
    rcases List.mem_cons.1 hn with rfl | hn
    · exact h.1
    · exact ih h.2.2.2 hn

/-- What stands below `path`, itself included. -/
def Below (path p : Path) : Prop := p = path ∨ path ++ [slash] <+: p

lemma Below.of_join {path p : Path} {n : Name} (h : Below (join path n) p) : path ++ [slash] <+: p := by
  have hjoin : path ++ [slash] <+: join path n := ⟨n, by simp [join]⟩
  rcases h with rfl | hpre
  · exact hjoin
  · exact hjoin.trans ((List.prefix_append _ _).trans hpre)

/-- The names of the entries are apart, so what stands below them is. -/
lemma Below.join_inj {path p : Path} {n n' : Name} (h : Below (join path n) p) (h' : Below (join path n') p)
    (hn : slash ∉ n) (hn' : slash ∉ n') : n = n' := by
  have hcut : ∀ {m : Name}, slash ∉ m → Below (join path m) p →
      (p.drop (path.length + 1)).takeWhile (· ≠ slash) = m := by
    intro m hm hbelow
    have hall : ∀ b ∈ m, (decide (b ≠ slash)) = true := by
      intro b hb
      rw [decide_eq_true_eq]
      rintro rfl
      exact hm hb
    rcases hbelow with rfl | ⟨rest, rfl⟩
    · have hdrop : (join path m).drop (path.length + 1) = m := by simp [join]
      rw [hdrop, List.takeWhile_eq_self_iff.2 hall]
    · have hdrop : (join path m ++ [slash] ++ rest).drop (path.length + 1) = m ++ slash :: rest := by
        simp [join]
      rw [hdrop, List.takeWhile_append_of_pos hall]
      simp
  rw [← hcut hn h, hcut hn' h']

mutual

lemma below_of_mem_visits {path p : Path} {t : Listing} (h : p ∈ visits path t) : Below path p := by
  cases t with
  | file => exact .inl (by simpa [visits] using h)
  | dir entries =>
    simp only [visits] at h
    obtain ⟨n, -, hn⟩ := below_of_mem_entryVisits h
    exact .inr hn.of_join

lemma below_of_mem_entryVisits {path p : Path} {entries : List (Name × Listing)}
    (h : p ∈ entryVisits path entries) : ∃ n ∈ entries.map Prod.fst, Below (join path n) p := by
  cases entries with
  | nil => simp [entryVisits] at h
  | cons e entries =>
    obtain ⟨n, t⟩ := e
    simp only [entryVisits, List.mem_append] at h
    rcases h with hfirst | hrest
    · split_ifs at hfirst
      · cases hfirst
      · exact ⟨n, List.mem_cons_self, below_of_mem_visits hfirst⟩
    · obtain ⟨n', hn', hbelow⟩ := below_of_mem_entryVisits hrest
      exact ⟨n', List.mem_cons_of_mem _ hn', hbelow⟩

end

mutual

/-- **No file is visited twice.** -/
lemma nodup_visits {path : Path} {t : Listing} (h : t.WF) : (visits path t).Nodup := by
  cases t with
  | file => simp [visits]
  | dir entries =>
    simp only [visits]
    exact nodup_entryVisits (by simpa only [Listing.WF] using h)

lemma nodup_entryVisits {path : Path} {entries : List (Name × Listing)} (h : EntriesWF entries) :
    (entryVisits path entries).Nodup := by
  cases entries with
  | nil => simp [entryVisits]
  | cons e entries =>
    obtain ⟨n, t⟩ := e
    simp only [EntriesWF] at h
    obtain ⟨hslash, hnew, ht, hentries⟩ := h
    simp only [entryVisits]
    refine List.nodup_append.2 ⟨?_, nodup_entryVisits hentries, ?_⟩
    · split_ifs
      · exact List.nodup_nil
      · exact nodup_visits ht
    · rintro p hp q hq rfl
      split_ifs at hp
      · cases hp
      · obtain ⟨n', hn', hbelow⟩ := below_of_mem_entryVisits hq
        have heq : n = n' := (below_of_mem_visits hp).join_inj hbelow hslash (hentries.noSlash hn')
        exact hnew (heq ▸ hn')

end

/-! ### What a visit touches -/

/-- The files are as they were; `.links` may have changed. -/
structure SameFiles (m m' : Machine) : Prop where
  names : m'.disk.names = m.disk.names
  inode : m'.disk.inode = m.disk.inode

section Frame
variable {st : Setting} {sha256 : Bytes → Bytes} {m m' m'' : Machine} {path q : Path} {name : Bytes}
  {nlink size : Nat}

lemma SameFiles.trans (h : SameFiles m m') (h' : SameFiles m' m'') : SameFiles m m'' :=
  ⟨h'.names.trans h.names, h'.inode.trans h.inode⟩

lemma SameFiles.read (h : SameFiles m m') : m'.disk.read = m.disk.read := by
  funext q
  rw [Disk.read, Disk.read, h.names, h.inode]

lemma turn_files : SameFiles m (m.turn st) := ⟨rfl, rfl⟩

lemma files_of_turn (h : m.turn st = m') : SameFiles m m' := h ▸ turn_files

lemma linkTarget_files {r : Except Errno Unit} (h : linkTarget st m path name = (m', r)) : SameFiles m m' := by
  unfold linkTarget at h
  dsimp only at h
  split at h
  · exact files_of_turn (congrArg Prod.fst h)
  · split at h
    · exact files_of_turn (congrArg Prod.fst h)
    · split_ifs at h
      · exact files_of_turn (congrArg Prod.fst h)
      · cases h
        exact ⟨rfl, rfl⟩

lemma findTarget_files {r : Option (Bytes × Bool)} (h : findTarget st sha256 m path nlink = (m', r)) :
    SameFiles m m' := by
  unfold findTarget at h
  split_ifs at h
  · cases h
    exact ⟨rfl, rfl⟩
  · split at h
    next m₁ heq =>
      cases h
      exact files_of_turn (congrArg Prod.fst heq)
    next m₁ digest heq =>
      have hsha : SameFiles m m₁ := files_of_turn (congrArg Prod.fst heq)
      split at h
      next m₂ heq₂ =>
        cases h
        exact hsha.trans (files_of_turn (congrArg Prod.fst heq₂))
      next m₂ heq₂ =>
        have hstat : SameFiles m m₂ := hsha.trans (files_of_turn (congrArg Prod.fst heq₂))
        split at h
        next heq₃ =>
          cases h
          exact hstat.trans (linkTarget_files heq₃)
        next heq₃ =>
          cases h
          exact hstat.trans (linkTarget_files heq₃)
        next heq₃ =>
          cases h
          exact hstat.trans (linkTarget_files heq₃)

/-- `unlink` takes the name away, or nothing. -/
lemma unlinkPath_cases {r : Bool} (h : unlinkPath st m path = (m', r)) :
    (r = true ∧ path ∈ m.disk.names ∧ m'.disk.names = m.disk.names.erase path ∧
        m'.disk.inode = m.disk.inode ∧ st.fails m.calls = false) ∨
      (r = false ∧ SameFiles m m' ∧ (st.fails m.calls = true ∨ path ∉ m.disk.names)) := by
  unfold unlinkPath at h
  dsimp only at h
  split_ifs at h with hor
  · cases h
    exact .inr ⟨rfl, turn_files, hor⟩
  · cases h
    rw [not_or, not_not] at hor
    exact .inl ⟨rfl, hor.2, rfl, rfl, by simpa using hor.1⟩

/-- `link` gives a missing path the inode of the entry, or nothing happens. -/
lemma linkBack_cases {r : Bool} (h : linkBack st m path name = (m', r)) :
    (r = true ∧ path ∉ m.disk.names ∧ st.fails m.calls = false ∧ m'.disk.inode = m.disk.inode ∧
        ∃ i, (m.turn st).disk.pool.lookup name = some i ∧ m'.disk.names = m.disk.names.insert path i) ∨
      (r = false ∧ SameFiles m m' ∧ (st.fails m.calls = true ∨ path ∈ m.disk.names ∨
        (m.turn st).disk.pool.lookup name = none)) := by
  unfold linkBack at h
  dsimp only at h
  split_ifs at h with hor
  · cases h
    exact .inr ⟨rfl, turn_files, hor.imp id .inl⟩
  · rw [not_or] at hor
    split at h
    next hnone =>
      cases h
      exact .inr ⟨rfl, turn_files, .inr (.inr hnone)⟩
    next i hi =>
      cases h
      exact .inl ⟨rfl, hor.2, by simpa using hor.1, rfl, i, hi, rfl⟩

end Frame

/-! ### The files of a store -/

/-- The files of the store that `store_optimise` comes to. -/
def storeVisits (storeRoot : Path) (listing : StoreListing) : List Path := entryVisits storeRoot listing.entries

lemma nodup_storeVisits (storeRoot : Path) (listing : StoreListing) : (storeVisits storeRoot listing).Nodup :=
  nodup_entryVisits listing.wf

/-- A store of one file. -/
def oneFile : StoreListing :=
  ⟨[(ascii "a", .file)], by
    simp only [EntriesWF, Listing.WF]
    decide⟩

/-- A visit, as a step of a run. -/
def visitStep (st : Setting) (sha256 : Bytes → Bytes) (m : Machine) (path : Path) : Machine :=
  (visit st sha256 m path).1

lemma storeOptimise_run (st : Setting) (sha256 : Bytes → Bytes) (storeRoot : Path) (listing : StoreListing)
    (m : Machine) : (storeOptimise st sha256 storeRoot listing m).1 =
      (storeVisits storeRoot listing).foldl (visitStep st sha256) m :=
  walkEntries_run storeRoot listing.entries m

section Local
variable {st : Setting} {sha256 : Bytes → Bytes} {m m' : Machine} {path q : Path} {name : Bytes} {size : Nat}

lemma replaceFile_local (hq : q ≠ path) :
    (replaceFile st m path name size).1.disk.read q = m.disk.read q := by
  unfold replaceFile
  split
  next m₁ heq =>
    rcases unlinkPath_cases heq with ⟨h, -⟩ | ⟨-, hsame, -⟩
    · cases h
    · rw [hsame.read]
  next m₁ heq =>
    rcases unlinkPath_cases heq with ⟨-, -, hnames, hinode, -⟩ | ⟨h, -⟩
    swap
    · cases h
    have hread : m₁.disk.read q = m.disk.read q := by
      rw [Disk.read, Disk.read, hnames, hinode, AList.lookup_erase_ne hq]
    split
    next m₂ heq₂ =>
      rcases linkBack_cases heq₂ with ⟨h, -⟩ | ⟨-, hsame, -⟩
      · cases h
      · rw [hsame.read, hread]
    next m₂ heq₂ =>
      rcases linkBack_cases heq₂ with ⟨-, -, -, hinode', i, -, hnames'⟩ | ⟨h, -⟩
      · rw [← hread, Disk.read, Disk.read, hnames', hinode', AList.lookup_insert_ne hq]
      · cases h

/-- **A visit leaves the other files alone.** -/
lemma visit_local : Local (visitStep st sha256) fun m q => m.disk.read q := by
  intro m path q hq
  show (visit st sha256 m path).1.disk.read q = m.disk.read q
  unfold visit
  split
  next m₁ contents x nlink heq =>
    have hstat : SameFiles m m₁ := files_of_turn (congrArg Prod.fst heq)
    unfold dedupeFile
    split
    next m₂ heq₂ => rw [(findTarget_files heq₂).read, hstat.read]
    next m₂ name heq₂ => rw [replaceFile_local hq, (findTarget_files heq₂).read, hstat.read]
    next m₂ name heq₂ => rw [(findTarget_files heq₂).read, hstat.read]
  next m₁ s _ heq => rw [(files_of_turn (congrArg Prod.fst heq) : SameFiles m m₁).read]

end Local

end Two09.Store
