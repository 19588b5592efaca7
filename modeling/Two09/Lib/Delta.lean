import Mathlib.Data.List.Basic
import Mathlib.Data.Set.Card

/-!
# Differences of maps

What is added, removed and changed between two partial maps, as three lists; when the lists are exact,
and what follows for applying and comparing them. A list of records is a map by its keys.
-/

namespace Two09.Lib

structure Delta (κ ν : Type*) where
  added : List (κ × ν)
  removed : List (κ × ν)
  changed : List (κ × ν × ν)

namespace Delta

variable {κ ν : Type*}

def addedKeys (d : Delta κ ν) : List κ := d.added.map Prod.fst

def removedKeys (d : Delta κ ν) : List κ := d.removed.map Prod.fst

def changedKeys (d : Delta κ ν) : List κ := d.changed.map Prod.fst

/-- Adds, replaces and deletes. -/
def apply [DecidableEq κ] (d : Delta κ ν) (m : κ → Option ν) (k : κ) : Option ν :=
  match d.added.find? (·.1 = k) with
  | some e => some e.2
  | none =>
    match d.changed.find? (·.1 = k) with
    | some e => some e.2.2
    | none => if k ∈ d.removedKeys then none else m k

/-- That no key is in two of the lists. -/
structure Disjoint (d : Delta κ ν) : Prop where
  removed : d.addedKeys.Disjoint d.removedKeys
  changed : d.addedKeys.Disjoint d.changedKeys
  other : d.removedKeys.Disjoint d.changedKeys

/-- The lists of the differences between two maps. -/
structure Exact (d : Delta κ ν) (m m' : κ → Option ν) : Prop where
  added : ∀ k v, (k, v) ∈ d.added ↔ m k = none ∧ m' k = some v
  removed : ∀ k v, (k, v) ∈ d.removed ↔ m k = some v ∧ m' k = none
  changed : ∀ k v w, (k, v, w) ∈ d.changed ↔ m k = some v ∧ m' k = some w ∧ v ≠ w

/-- That two deltas have the same entries, in whatever order. -/
structure Same (d d' : Delta κ ν) : Prop where
  added : ∀ e, e ∈ d.added ↔ e ∈ d'.added
  removed : ∀ e, e ∈ d.removed ↔ e ∈ d'.removed
  changed : ∀ e, e ∈ d.changed ↔ e ∈ d'.changed

variable {d d' : Delta κ ν} {m m' : κ → Option ν} {k : κ}

namespace Exact

lemma mem_addedKeys (h : d.Exact m m') : k ∈ d.addedKeys ↔ m k = none ∧ m' k ≠ none := by
  constructor
  · intro hk
    obtain ⟨⟨k, v⟩, hmem, rfl⟩ := List.mem_map.1 hk
    obtain ⟨hm, hm'⟩ := (h.added k v).1 hmem
    exact ⟨hm, by simp [hm']⟩
  · rintro ⟨hm, hm'⟩
    obtain ⟨v, hv⟩ := Option.ne_none_iff_exists'.1 hm'
    exact List.mem_map.2 ⟨(k, v), (h.added k v).2 ⟨hm, hv⟩, rfl⟩

lemma mem_removedKeys (h : d.Exact m m') : k ∈ d.removedKeys ↔ m k ≠ none ∧ m' k = none := by
  constructor
  · intro hk
    obtain ⟨⟨k, v⟩, hmem, rfl⟩ := List.mem_map.1 hk
    obtain ⟨hm, hm'⟩ := (h.removed k v).1 hmem
    exact ⟨by simp [hm], hm'⟩
  · rintro ⟨hm, hm'⟩
    obtain ⟨v, hv⟩ := Option.ne_none_iff_exists'.1 hm
    exact List.mem_map.2 ⟨(k, v), (h.removed k v).2 ⟨hv, hm'⟩, rfl⟩

lemma of_mem_changedKeys (h : d.Exact m m') (hk : k ∈ d.changedKeys) :
    m k ≠ none ∧ m' k ≠ none := by
  obtain ⟨⟨k, v, w⟩, hmem, rfl⟩ := List.mem_map.1 hk
  obtain ⟨hm, hm', -⟩ := (h.changed k v w).1 hmem
  exact ⟨by simp [hm], by simp [hm']⟩

lemma disjoint (h : d.Exact m m') : d.Disjoint := by
  refine ⟨fun k hadd hrem => ?_, fun k hadd hch => ?_, fun k hrem hch => ?_⟩
  · exact (h.mem_removedKeys.1 hrem).1 (h.mem_addedKeys.1 hadd).1
  · exact (h.of_mem_changedKeys hch).1 (h.mem_addedKeys.1 hadd).1
  · exact (h.of_mem_changedKeys hch).2 (h.mem_removedKeys.1 hrem).2

/-- **The differences lead from the one map to the other.** -/
lemma apply_eq [DecidableEq κ] (h : d.Exact m m') : d.apply m = m' := by
  funext k
  unfold apply
  cases hadd : d.added.find? (·.1 = k) with
  | some e =>
    obtain ⟨k', v⟩ := e
    obtain rfl : k' = k := by simpa using List.find?_some hadd
    exact ((h.added k' v).1 (List.mem_of_find?_eq_some hadd)).2.symm
  | none =>
    cases hch : d.changed.find? (·.1 = k) with
    | some e =>
      obtain ⟨k', v, w⟩ := e
      obtain rfl : k' = k := by simpa using List.find?_some hch
      exact ((h.changed k' v w).1 (List.mem_of_find?_eq_some hch)).2.1.symm
    | none =>
      have hnadd : ∀ v, (k, v) ∉ d.added := by
        intro v hv
        simpa using List.find?_eq_none.1 hadd _ hv
      have hnch : ∀ v w, (k, v, w) ∉ d.changed := by
        intro v w hvw
        simpa using List.find?_eq_none.1 hch _ hvw
      show (if k ∈ d.removedKeys then none else m k) = m' k
      split_ifs with hrem
      · exact (h.mem_removedKeys.1 hrem).2.symm
      · -- in neither list, the key is in both maps or in none
        cases hm : m k with
        | none =>
          cases hm' : m' k with
          | none => rfl
          | some w => exact absurd ((h.added k w).2 ⟨hm, hm'⟩) (hnadd w)
        | some v =>
          cases hm' : m' k with
          | none => exact absurd (h.mem_removedKeys.2 ⟨by simp [hm], hm'⟩) hrem
          | some w =>
            by_cases hvw : v = w
            · rw [hvw]
            · exact absurd ((h.changed k v w).2 ⟨hm, hm', hvw⟩) (hnch v w)

/-- There are no differences between equal maps only. -/
lemma eq_iff [DecidableEq κ] (h : d.Exact m m') :
    m = m' ↔ d.added = [] ∧ d.removed = [] ∧ d.changed = [] := by
  constructor
  · rintro rfl
    refine ⟨List.eq_nil_iff_forall_not_mem.2 ?_, List.eq_nil_iff_forall_not_mem.2 ?_,
      List.eq_nil_iff_forall_not_mem.2 ?_⟩
    · rintro ⟨k, v⟩ hmem
      obtain ⟨hnone, hsome⟩ := (h.added k v).1 hmem
      simp [hnone] at hsome
    · rintro ⟨k, v⟩ hmem
      obtain ⟨hsome, hnone⟩ := (h.removed k v).1 hmem
      simp [hnone] at hsome
    · rintro ⟨k, v, w⟩ hmem
      obtain ⟨hv, hw, hne⟩ := (h.changed k v w).1 hmem
      exact hne (Option.some.inj (hv.symm.trans hw))
  · rintro ⟨hadd, hrem, hch⟩
    rw [← h.apply_eq]
    funext k
    simp [apply, removedKeys, hadd, hrem, hch]

lemma same (h : d.Exact m m') (h' : d'.Exact m m') : d.Same d' := by
  refine ⟨fun ⟨k, v⟩ => ?_, fun ⟨k, v⟩ => ?_, fun ⟨k, v, w⟩ => ?_⟩
  · rw [h.added, h'.added]
  · rw [h.removed, h'.removed]
  · rw [h.changed, h'.changed]

end Exact

end Delta

/-! ### Lists of records -/

section Keyed
variable {α κ ν : Type*} [DecidableEq κ] (key : α → κ) (val : α → ν)

/-- A list of records as a map: the first record with the key counts. -/
def keyedMap (l : List α) (k : κ) : Option ν := (l.find? (key · = k)).map val

variable {key val} {l : List α} {k : κ} {v : ν}

lemma keyedMap_eq_none_iff : keyedMap key val l k = none ↔ ∀ a ∈ l, key a ≠ k := by
  rw [keyedMap, Option.map_eq_none_iff, List.find?_eq_none]
  simp

/-- With unique keys every record counts. -/
lemma find?_key_eq_some_iff (hl : (l.map key).Nodup) {a : α} :
    l.find? (key · = k) = some a ↔ a ∈ l ∧ key a = k := by
  constructor
  · intro h
    exact ⟨List.mem_of_find?_eq_some h, by simpa using List.find?_some h⟩
  · rintro ⟨ha, rfl⟩
    cases hfind : l.find? (key · = key a) with
    | none => simpa using List.find?_eq_none.1 hfind a ha
    | some b =>
      have hb := List.mem_of_find?_eq_some hfind
      have hkey : key b = key a := by simpa using List.find?_some hfind
      rw [List.inj_on_of_nodup_map hl hb ha hkey]

lemma keyedMap_eq_some_iff (hl : (l.map key).Nodup) :
    keyedMap key val l k = some v ↔ ∃ a ∈ l, key a = k ∧ val a = v := by
  rw [keyedMap, Option.map_eq_some_iff]
  simp only [find?_key_eq_some_iff hl, and_assoc]

/-- Records may be changed, apart from keys and values. -/
lemma keyedMap_map {f : α → α} (hkey : ∀ a, key (f a) = key a) (hval : ∀ a, val (f a) = val a)
    (l : List α) : keyedMap key val (l.map f) = keyedMap key val l := by
  funext k
  rw [keyedMap, keyedMap, List.find?_map, Option.map_map]
  have hcomp : (fun a => decide (key a = k)) ∘ f = fun a => decide (key a = k) := by
    funext a
    simp [hkey]
  have hvals : val ∘ f = val := by
    funext a
    exact hval a
  rw [hcomp, hvals]

/-- The size of the map. -/
lemma ncard_keyedMap (hl : (l.map key).Nodup) :
    {k | keyedMap key val l k ≠ none}.ncard = l.length := by
  have hset : {k | keyedMap key val l k ≠ none} = ((l.map key).toFinset : Set κ) := by
    ext k
    simp [keyedMap_eq_none_iff]
  rw [hset, Set.ncard_coe_finset, List.toFinset_card_of_nodup hl, List.length_map]

end Keyed

end Two09.Lib
