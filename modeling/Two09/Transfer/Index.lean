import Two09.Transfer.Lockfile

/-!
# The index of a generation

`gen_index_lookup` and `gen_index_foreach`, against a scan of the array that the index was built from.
-/

namespace Two09.Transfer

open Two09.Lib Two09.Lib.Json Two09.Gen

/-- `gen_index_lookup` -/
def GenIndex.lookup (idx : GenIndex) (name : Bytes) : Option GenPkg :=
  ((idx.buckets[fnv1aHash name idx.bucketCount]?).getD []).find? fun e => e.name = name

/-- The array of packages in a manifest, if it parses and has one. -/
def packagesArray (manifest : Bytes) : Option (List Json) :=
  (parse manifest).bind fun root => (root.getObjectItem (ascii "packages")).bind items?

/-- What a scan of some packages finds first. -/
def scanFor (ps : List GenPkg) (name : Bytes) : Option GenPkg := ps.find? fun e => e.name = name

/-- The index agrees with the array: there is one if there is the other, a lookup finds what a scan finds
first, and a walk over the index is one over the packages of the array, in some order. -/
def IndexAgrees (manifest : Bytes) : Prop :=
  match packagesArray manifest with
  | none => loadIndex manifest = none
  | some items => ∃ idx, loadIndex manifest = some idx ∧
      (∀ name, idx.lookup name = scanFor (items.filterMap parsedPackage) name) ∧
      idx.entries.Perm (items.filterMap parsedPackage)

/-! ### The bucket of a name -/

section Buckets

variable {idx : GenIndex} {ps : List GenPkg}

/-- A bucket after some insertions: the packages of its hash, last first, before what it held. -/
lemma bucket_foldl (ps : List GenPkg) (b : Nat) (hb : b < idx.buckets.length) :
    ((ps.foldl GenIndex.insert idx).buckets[b]?).getD [] =
      (ps.filter fun p => fnv1aHash p.name idx.bucketCount = b).reverse ++ (idx.buckets[b]?).getD [] := by
  induction ps generalizing idx with
  | nil => simp
  | cons p ps ih =>
    have hlen : b < (idx.insert p).buckets.length := by
      rw [GenIndex.insert, List.length_modify]
      exact hb
    have hbucket : ((idx.insert p).buckets[b]?).getD [] =
        if fnv1aHash p.name idx.bucketCount = b then p :: (idx.buckets[b]?).getD []
        else (idx.buckets[b]?).getD [] := by
      rw [GenIndex.insert, List.getElem?_modify, List.getElem?_eq_getElem hb]
      split_ifs <;> simp
    have hcount : (idx.insert p).bucketCount = idx.bucketCount := rfl
    rw [List.foldl_cons, ih hlen, hbucket, hcount, List.filter_cons]
    by_cases hp : fnv1aHash p.name idx.bucketCount = b
    · simp [hp]
    · simp [hp]

/-- **A lookup finds what was put in last.** -/
theorem lookup_foldl (ps : List GenPkg) (name : Bytes) {n : Nat} (hn : 0 < n) :
    (ps.foldl GenIndex.insert (.empty n)).lookup name = scanFor ps.reverse name := by
  have hcount : (ps.foldl GenIndex.insert (.empty n)).bucketCount = n := by
    have hkeep : ∀ idx : GenIndex, (ps.foldl GenIndex.insert idx).bucketCount = idx.bucketCount := by
      induction ps with
      | nil => exact fun _ => rfl
      | cons p ps ih => exact fun idx => ih (idx.insert p)
    exact hkeep _
  have hb : fnv1aHash name n < (GenIndex.empty n).buckets.length := by
    rw [GenIndex.empty, List.length_replicate]
    exact Nat.mod_lt _ hn
  have hnil : ((GenIndex.empty n).buckets[fnv1aHash name n]?).getD [] = [] := by
    rw [List.getElem?_eq_getElem hb]
    simp [GenIndex.empty]
  rw [GenIndex.lookup, hcount, bucket_foldl ps _ hb, hnil, List.append_nil, ← List.filter_reverse,
    List.find?_filter, scanFor]
  congr 1
  funext e
  by_cases he : e.name = name
  · simp [he, GenIndex.empty]
  · simp [he]

end Buckets

/-! ### Where it agrees -/

/-- The index of an array that is not empty. -/
lemma loadIndex_some {manifest : Bytes} {items : List Json} (h : packagesArray manifest = some items)
    (hne : items ≠ []) :
    loadIndex manifest =
      some ((items.filterMap parsedPackage).foldl GenIndex.insert (.empty (nextPow2 items.length))) := by
  obtain ⟨item, items, rfl⟩ := List.exists_cons_of_ne_nil hne
  rw [packagesArray] at h
  rw [loadIndex, h]
  rfl

lemma loadIndex_none {manifest : Bytes} (h : packagesArray manifest = none ∨ packagesArray manifest = some []) :
    loadIndex manifest = none := by
  unfold packagesArray at h
  rcases h with h | h <;> rw [loadIndex, h]

/-- **The index agrees with the array** when the array is not empty and the last package of a name is as the
first. -/
theorem indexAgrees_iff (manifest : Bytes) :
    IndexAgrees manifest ↔ ∀ items, packagesArray manifest = some items → items ≠ [] ∧
      ∀ name, scanFor (items.filterMap parsedPackage).reverse name =
        scanFor (items.filterMap parsedPackage) name := by
  unfold IndexAgrees
  cases h : packagesArray manifest with
  | none => simp [loadIndex_none (.inl h)]
  | some items =>
    simp only [Option.some.injEq, forall_eq']
    by_cases hne : items = []
    · subst hne
      simp [loadIndex_none (.inr h)]
    · have hpos := nextPow2_pos items.length
      have hperm : ((items.filterMap parsedPackage).foldl GenIndex.insert
          (.empty (nextPow2 items.length))).entries.Perm (items.filterMap parsedPackage) := by
        have hall := @perm_entries_foldl (GenIndex.empty (nextPow2 items.length))
          (items.filterMap parsedPackage) List.length_replicate hpos
        have hempty : (GenIndex.empty (nextPow2 items.length)).entries = [] := by
          simp [GenIndex.empty, GenIndex.entries]
        rwa [hempty, List.append_nil] at hall
      rw [loadIndex_some h hne]
      constructor
      · rintro ⟨idx, hidx, hlookup, -⟩
        obtain rfl := Option.some.inj hidx
        refine ⟨hne, fun name => ?_⟩
        rw [← hlookup, lookup_foldl _ _ hpos]
      · rintro ⟨-, hsame⟩
        refine ⟨_, rfl, fun name => ?_, hperm⟩
        rw [lookup_foldl _ _ hpos, hsame]

/-- A generation without packages. -/
def noPackages : Bytes := ascii "\x7b\"packages\":[]\x7d"

/-- A generation with two packages of one name. -/
def twicePackages : Bytes :=
  ascii "\x7b\"packages\":[\x7b\"name\":\"a\",\"version\":\"1\"\x7d,\x7b\"name\":\"a\",\"version\":\"2\"\x7d]\x7d"

/-- The array of the one is there and its index is not; in the other the lookup finds the second version. -/
theorem index_not_agrees : ¬ IndexAgrees noPackages ∧ ¬ IndexAgrees twicePackages := by
  constructor
  · have hlength : (packagesArray noPackages).map List.length = some 0 := by decide +kernel
    obtain ⟨items, harray, hitems⟩ := Option.map_eq_some_iff.1 hlength
    rw [List.length_eq_zero_iff.1 hitems] at harray
    rw [IndexAgrees, harray]
    rintro ⟨idx, hidx, -⟩
    rw [loadIndex_none (.inr harray)] at hidx
    cases hidx
  · have hfirst : (packagesArray twicePackages).map (fun items =>
        (scanFor (items.filterMap parsedPackage) (ascii "a")).map GenPkg.version) = some (some (ascii "1")) := by
      decide +kernel
    have hfound : (loadIndex twicePackages).map (fun idx => (idx.lookup (ascii "a")).map GenPkg.version) =
        some (some (ascii "2")) := by decide +kernel
    unfold IndexAgrees
    obtain ⟨items, harray, hitems⟩ := Option.map_eq_some_iff.1 hfirst
    rw [harray]
    rintro ⟨idx, hidx, hlookup, -⟩
    rw [hidx, Option.map_some, hlookup, hitems] at hfound
    exact absurd hfound (by decide)

end Two09.Transfer
