import Two09.Store.Merge

/-!
# What optimising counts as saved

`dedupe_file` returns a file's size whether the file was replaced, and its inode freed, or became the entry
of `.links` itself. The count of an undisturbed run is set against what the distinct inodes take up
before and after it.
-/

namespace Two09.Store

open Two09.Lib Two09.Lib.Posix

namespace Disk

variable (d : Disk) (i : Ino)

/-- `st_size` of a regular file. -/
def size : Nat :=
  match d.inode i with
  | .regular contents _ => contents.length
  | .symlink _ => 0

/-- The inodes with a name in the store or in `.links`. -/
def inodes : Finset Ino := (d.names.entries.map Sigma.snd ++ d.pool.entries.map Sigma.snd).toFinset

/-- What the distinct inodes of regular files take up. -/
def total : Nat := ∑ i ∈ d.inodes, d.size i

variable {d i}

lemma mem_inodes : i ∈ d.inodes ↔
    (∃ p, d.names.lookup p = some i) ∨ ∃ h, d.pool.lookup h = some i := by
  have hentries : ∀ {κ : Type} [DecidableEq κ] (s : AList fun _ : κ => Ino),
      i ∈ s.entries.map Sigma.snd ↔ ∃ k, s.lookup k = some i := by
    intro κ _ s
    rw [List.mem_map]
    constructor
    · rintro ⟨⟨k, i'⟩, hmem, rfl⟩
      exact ⟨k, AList.mem_lookup_iff.2 hmem⟩
    · rintro ⟨k, hk⟩
      exact ⟨⟨k, i⟩, AList.mem_lookup_iff.1 hk, rfl⟩
  rw [inodes, List.mem_toFinset, List.mem_append, hentries, hentries]

end Disk

/-! ### One visit -/

section Count
variable (sha256 : Bytes → Bytes)

/-- What a visit counts although it frees nothing: the file becomes the entry for its hash. -/
def firstBytes (d : Disk) (path : Path) : Nat :=
  ((d.single path).map fun s => if d.pool.lookup (hex (sha256 s.2)) = none then s.2.length else 0).getD 0

variable {sha256} {d : Disk} {path : Path} {paths : List Path}

/-- A new entry of `.links` names an inode that has a name. -/
lemma inodes_first {i : Ino} {c : Bytes} (hs : d.single path = some (i, c))
    (hnew : d.pool.lookup (hex (sha256 c)) = none) : (merge sha256 d path).inodes = d.inodes := by
  ext k
  rw [Disk.mem_inodes, Disk.mem_inodes, merge_first hs hnew]
  dsimp only
  constructor
  · rintro (hp | ⟨h, hk⟩)
    · exact .inl hp
    · by_cases hh : h = hex (sha256 c)
      · rw [hh, AList.lookup_insert] at hk
        exact .inl ⟨path, (Disk.single_eq_some.1 hs).1.trans hk⟩
      · rw [AList.lookup_insert_ne hh] at hk
        exact .inr ⟨h, hk⟩
  · rintro (hp | ⟨h, hk⟩)
    · exact .inl hp
    · refine .inr ⟨h, ?_⟩
      have hh : h ≠ hex (sha256 c) := by
        rintro rfl
        rw [hnew] at hk
        cases hk
      rw [AList.lookup_insert_ne hh, hk]

/-- A file that is replaced leaves its inode without a name. -/
lemma inodes_again {i j : Ino} {c : Bytes} (hs : d.single path = some (i, c))
    (hold : d.pool.lookup (hex (sha256 c)) = some j) :
    (merge sha256 d path).inodes = d.inodes.erase i := by
  have hij : i ≠ j := Disk.ne_of_single hs hold
  ext k
  rw [Finset.mem_erase, Disk.mem_inodes, Disk.mem_inodes, merge_again hs hold]
  dsimp only
  constructor
  · rintro (⟨p, hp⟩ | ⟨h, hk⟩)
    · by_cases hpath : p = path
      · rw [hpath, AList.lookup_insert] at hp
        obtain rfl := Option.some.inj hp
        exact ⟨Ne.symm hij, .inr ⟨_, hold⟩⟩
      · rw [AList.lookup_insert_ne hpath, AList.lookup_erase_ne hpath] at hp
        refine ⟨?_, .inl ⟨p, hp⟩⟩
        rintro rfl
        exact hpath (Sum.inl.inj (Disk.eq_of_single hs (Disk.inl_mem_refs.2 hp)))
    · exact ⟨Ne.symm (Disk.ne_of_single hs hk), .inr ⟨h, hk⟩⟩
  · rintro ⟨hki, ⟨p, hp⟩ | ⟨h, hk⟩⟩
    · have hpath : p ≠ path := by
        rintro rfl
        rw [(Disk.single_eq_some.1 hs).1] at hp
        exact hki (Option.some.inj hp).symm
      refine .inl ⟨p, ?_⟩
      rw [AList.lookup_insert_ne hpath, AList.lookup_erase_ne hpath, hp]
    · exact .inr ⟨h, hk⟩

/-- **What is counted is freed, first sightings aside.** -/
lemma total_merge : d.total + firstBytes sha256 d path = (merge sha256 d path).total + counted d path := by
  have hsize : (merge sha256 d path).size = d.size := by
    funext i
    rw [Disk.size, Disk.size, merge_inode]
  rcases merge_cases sha256 d path with ⟨hs, h⟩ | ⟨i, c, hs, hnew, h⟩ | ⟨i, c, j, hs, hold, h⟩
  · rw [h, firstBytes, counted, hs]
    rfl
  · have hfirst : firstBytes sha256 d path = c.length := by simp [firstBytes, hs, hnew]
    have hcounted : counted d path = c.length := by simp [counted, hs]
    rw [hfirst, hcounted, Disk.total, Disk.total, inodes_first hs hnew, hsize]
  · have hmem : i ∈ d.inodes := Disk.mem_inodes.2 (.inl ⟨path, (Disk.single_eq_some.1 hs).1⟩)
    have hi : d.size i = c.length := by
      obtain ⟨-, ⟨x, hinode⟩, -⟩ := Disk.single_eq_some.1 hs
      rw [Disk.size, hinode]
    have hfirst : firstBytes sha256 d path = 0 := by simp [firstBytes, hs, hold]
    have hcounted : counted d path = c.length := by simp [counted, hs]
    have hsum := Finset.sum_erase_add d.inodes d.size hmem
    rw [hfirst, hcounted, Disk.total, Disk.total, inodes_again hs hold, hsize]
    omega

/-! ### A run -/

variable (sha256) in
/-- What a run counts although it frees nothing. -/
def firstBytesAlong : Disk → List Path → Nat
  | _, [] => 0
  | d, path :: paths => firstBytes sha256 d path + firstBytesAlong (merge sha256 d path) paths

/-- What a file counts does not depend on the visits before it. -/
lemma counted_merge {q : Path} (hq : q ≠ path) : counted (merge sha256 d path) q = counted d q := by
  rw [counted, counted, single_merge hq]

lemma sum_counted_merge (hnew : path ∉ paths) :
    (paths.map (counted (merge sha256 d path))).sum = (paths.map (counted d)).sum := by
  refine congrArg List.sum (List.map_congr_left fun q hq => counted_merge ?_)
  rintro rfl
  exact hnew hq

lemma total_run (hnodup : paths.Nodup) : d.total + firstBytesAlong sha256 d paths =
    (paths.foldl (merge sha256) d).total + (paths.map (counted d)).sum := by
  induction paths generalizing d with
  | nil => rfl
  | cons path paths ih =>
    rw [List.nodup_cons] at hnodup
    have hone : d.total + firstBytes sha256 d path = (merge sha256 d path).total + counted d path := total_merge
    have hrest := ih (d := merge sha256 d path) hnodup.2
    rw [sum_counted_merge hnodup.1] at hrest
    rw [List.foldl_cons, List.map_cons, List.sum_cons, firstBytesAlong]
    omega

lemma savedAlong_calm {leads : Bytes → Bool} {m : Machine} (hnodup : paths.Nodup) :
    savedAlong (.calm leads) sha256 m paths = (paths.map (counted m.disk)).sum := by
  induction paths generalizing m with
  | nil => rfl
  | cons path paths ih =>
    rw [List.nodup_cons] at hnodup
    obtain ⟨hdisk, hcount⟩ := visit_calm leads sha256 m path
    rw [savedAlong, ih hnodup.2, hdisk, hcount, sum_counted_merge hnodup.1, List.map_cons, List.sum_cons]

lemma firstBytesAlong_eq_zero (hnodup : paths.Nodup) : firstBytesAlong sha256 d paths = 0 ↔
    ∀ before path after, paths = before ++ path :: after → ∀ i contents,
      d.single path = some (i, contents) → shared sha256 d before (hex (sha256 contents)) = none →
        contents = [] := by
  rw [← atEach_merge (C := fun _ _ contents o => o = none → contents = []) hnodup]
  clear hnodup
  induction paths generalizing d with
  | nil => exact iff_of_true rfl trivial
  | cons path paths ih =>
    rw [firstBytesAlong, Nat.add_eq_zero_iff, ih, atEach_cons]
    refine and_congr_left fun _ => ?_
    unfold firstBytes
    cases hs : d.single path with
    | none => exact iff_of_true rfl fun _ _ h => absurd h (by simp)
    | some s =>
      rw [Option.map_some, Option.getD_some]
      constructor
      · intro hzero i contents heq hnone
        obtain rfl : s = (i, contents) := Option.some.inj heq
        rw [if_pos hnone] at hzero
        exact List.length_eq_zero_iff.1 hzero
      · intro hall
        split_ifs with hnone
        · exact List.length_eq_zero_iff.2 (hall s.1 s.2 rfl hnone)
        · rfl

end Count

/-! ### The account -/

/-- A file that may be merged: a regular one with a single link, among those visited. -/
def Mergeable (d : Disk) (paths : List Path) (i : Ino) (contents : Bytes) : Prop :=
  ∃ path ∈ paths, d.single path = some (i, contents)

/-- One of the files that may be merged has the contents of another inode, which may be merged as well
or has an entry in `.links`. -/
def HasTwins (d : Disk) (paths : List Path) : Prop :=
  ∃ i j contents, i ≠ j ∧ Mergeable d paths i contents ∧
    (Mergeable d paths j contents ∨
      ∃ name x, d.pool.lookup name = some j ∧ d.inode j = .regular contents x)

/-- The count is what the inodes take up less, and it is 0 exactly if nothing was there to merge. -/
def Accounts (d d' : Disk) (paths : List Path) (saved : Nat) : Prop :=
  d.total = d'.total + saved ∧ (saved = 0 ↔ ¬ HasTwins d paths)

/-- The sum is 0 exactly if all files that may be merged are empty. -/
lemma sum_counted_eq_zero {d : Disk} {paths : List Path} : (paths.map (counted d)).sum = 0 ↔
    ¬ ∃ i contents, Mergeable d paths i contents ∧ contents ≠ [] := by
  rw [List.sum_eq_zero_iff]
  constructor
  · rintro hall ⟨i, contents, ⟨path, hpath, hs⟩, hne⟩
    have hzero := hall _ (List.mem_map_of_mem hpath)
    rw [counted, hs] at hzero
    exact hne (List.length_eq_zero_iff.1 hzero)
  · intro hnone n hn
    obtain ⟨path, hpath, rfl⟩ := List.mem_map.1 hn
    unfold counted
    rcases hs : d.single path with _ | ⟨i, contents⟩
    · rfl
    · by_contra hne
      refine hnone ⟨i, contents, ⟨path, hpath, hs⟩, ?_⟩
      rintro rfl
      exact hne rfl

/-- **The count of an undisturbed run is right exactly if** no file with something in it is the first with
its hash, and some file that may be merged has something in it exactly if there is anything to merge. -/
theorem storeOptimise_accounts_iff (leads : Bytes → Bool) (sha256 : Bytes → Bytes) (storeRoot : Path)
    (listing : StoreListing) (m : Machine) :
    Accounts m.disk (storeOptimise (.calm leads) sha256 storeRoot listing m).1.disk
        (storeVisits storeRoot listing) (storeOptimise (.calm leads) sha256 storeRoot listing m).2 ↔
      (∀ before path after, storeVisits storeRoot listing = before ++ path :: after → ∀ i contents,
        m.disk.single path = some (i, contents) →
          shared sha256 m.disk before (hex (sha256 contents)) = none → contents = []) ∧
      ((∃ i contents, Mergeable m.disk (storeVisits storeRoot listing) i contents ∧ contents ≠ []) ↔
        HasTwins m.disk (storeVisits storeRoot listing)) := by
  have hnodup : (storeVisits storeRoot listing).Nodup := nodup_storeVisits storeRoot listing
  have hsaved : (storeOptimise (.calm leads) sha256 storeRoot listing m).2 =
      ((storeVisits storeRoot listing).map (counted m.disk)).sum := by
    rw [← savedAlong_calm hnodup]
    exact walkEntries_saved storeRoot listing.entries m
  have htotal : m.disk.total + firstBytesAlong sha256 m.disk (storeVisits storeRoot listing) =
      ((storeVisits storeRoot listing).foldl (merge sha256) m.disk).total +
        ((storeVisits storeRoot listing).map (counted m.disk)).sum := total_run hnodup
  rw [storeOptimise_calm, hsaved, Accounts, ← firstBytesAlong_eq_zero hnodup, sum_counted_eq_zero,
    not_iff_not]
  refine and_congr_left fun _ => ?_
  omega

/-! ### A first sighting -/

/-- `/nix/store/a`, alone on the disk. -/
def loneDisk : Disk where
  inode := fun _ => .regular (ascii "x") false
  names := AList.singleton (ascii "/nix/store/a") 0
  pool := ∅
  elsewhere := fun _ => 0

/-- **A file without a twin is counted as saved.** -/
theorem lone_not_accounts : ¬ Accounts loneDisk
    (storeOptimise (.calm fun _ => false) (fun _ => []) (ascii "/nix/store") oneFile ⟨loneDisk, 0⟩).1.disk
    (storeVisits (ascii "/nix/store") oneFile)
    (storeOptimise (.calm fun _ => false) (fun _ => []) (ascii "/nix/store") oneFile ⟨loneDisk, 0⟩).2 := by
  rintro ⟨htotal, -⟩
  exact absurd htotal (by decide +kernel)

end Two09.Store
