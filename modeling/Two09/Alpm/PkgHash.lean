import Two09.Alpm.Package
import Two09.Lib.Probing
import Two09.Lib.Simulation

/-!
# The hash table of packages

`pkghash.c`: the packages of a database as a list, and a table that finds them by their names. An addition to a
table that is loaded up to its limit makes a larger one first.
-/

namespace Two09.Alpm

open Lib Probing Probing.Table

/-- A node of an `alpm_list_t` of packages, at an address. -/
structure Node where
  addr : ℕ
  data : Pkg
  deriving DecidableEq

/-- `alpm_pkghash_t` -/
structure Pkghash where
  hashTable : Table Node
  list : List Node
  buckets : ℕ
  entries : ℕ
  limit : ℕ

/-- `prime_list` -/
def primeList : List ℕ := [
  11, 13, 17, 19, 23, 29, 31, 37, 41, 43, 47,
  53, 59, 61, 67, 71, 73, 79, 83, 89, 97, 103,
  109, 113, 127, 137, 139, 149, 157, 167, 179, 193,
  199, 211, 227, 241, 257, 277, 293, 313, 337, 359,
  383, 409, 439, 467, 503, 541, 577, 619, 661, 709,
  761, 823, 887, 953, 1031, 1109, 1193, 1289, 1381,
  1493, 1613, 1741, 1879, 2029, 2179, 2357, 2549,
  2753, 2971, 3209, 3469, 3739, 4027, 4349, 4703,
  5087, 5503, 5953, 6427, 6949, 7517, 8123, 8783,
  9497, 10273, 11113, 12011, 12983, 14033, 15173,
  16411, 17749, 19183, 20753, 22447, 24281, 26267,
  28411, 30727, 33223, 35933, 38873, 42043, 45481,
  49201, 53201, 57557, 62233, 67307, 72817, 78779,
  85229, 92203, 99733, 107897, 116731, 126271, 136607,
  147793, 159871, 172933, 187091, 202409, 218971, 236897,
  256279, 277261, 299951, 324503, 351061, 379787, 410857,
  444487, 480881, 520241, 562841, 608903, 658753, 712697,
  771049, 834181, 902483, 976369]

/-- What the allocations of a call come to: the address of a node, and whether there is a table. -/
structure Memory where
  malloc : Option ℕ
  calloc : Bool

/-- The bucket at which the search for a package begins. -/
def home (buckets : ℕ) (n : Node) : ℕ := n.data.nameHash.toNat % buckets

/-- `_alpm_pkghash_create`. The loads are 0.58 and 0.68; no product with a prime is near a whole number. -/
def pkghashCreate (calloc : Bool) (size : ℕ) : Option Pkghash :=
  match primeList.find? fun prime => size * 100 / 58 + 1 < prime with
  | none => none
  | some buckets =>
    if calloc then
      some {
        hashTable := List.replicate buckets none
        list := []
        buckets
        entries := 0
        limit := buckets * 68 / 100 }
    else none

/-- `get_hash_position`; none when it does not end. -/
def getHashPosition (nameHash : UInt64) (hash : Pkghash) : Option ℕ :=
  firstFree hash.buckets hash.hashTable hash.buckets (nameHash.toNat % hash.buckets)

/-- The size that `rehash` asks for. -/
def newSize (buckets : ℕ) : ℕ :=
  if buckets < 500 then buckets * 2
  else if buckets < 2000 then buckets * 3 / 2
  else if buckets < 5000 then buckets * 4 / 3
  else buckets + 1

/-- The loop of `rehash`, over the cells of the old table. -/
def rebin : List (Option Node) → Pkghash → Option Pkghash
  | [], newhash => some newhash
  | none :: cells, newhash => rebin cells newhash
  | some node :: cells, newhash =>
    match getHashPosition node.data.nameHash newhash with
    | none => none
    | some position => rebin cells { newhash with hashTable := newhash.hashTable.set position (some node) }

/-- `rehash`, `some none` for `NULL`. -/
def rehash (calloc : Bool) (oldhash : Pkghash) : Option (Option Pkghash) :=
  match pkghashCreate calloc (newSize oldhash.buckets) with
  | none => some none
  | some newhash =>
    match rebin oldhash.hashTable { newhash with list := oldhash.list } with
    | none => none
    | some newhash => some (some { newhash with entries := oldhash.entries })

/-- `_alpm_pkg_cmp(p, q) <= 0` -/
def pkgLe (p q : Pkg) : Bool := decide (p.name ≤ q.name)

/-- `pkghash_add_pkg` once there is room. -/
def place (malloc : Option ℕ) (hash : Pkghash) (pkg : Pkg) (sorted : Bool) : Option (Bool × Pkghash) :=
  match getHashPosition pkg.nameHash hash with
  | none => none
  | some position =>
    match malloc with
    | none => some (false, hash)
    | some addr =>
      some (true, { hash with
        hashTable := hash.hashTable.set position (some ⟨addr, pkg⟩)
        list :=
          if sorted then hash.list.merge [⟨addr, pkg⟩] (fun x y => pkgLe x.data y.data)
          else hash.list ++ [⟨addr, pkg⟩]
        entries := hash.entries + 1 })

/-- `pkghash_add_pkg`, and whether it returns the table. None when it does not end. -/
def pkghashAddPkg (mem : Memory) (hash : Pkghash) (pkg : Pkg) (sorted : Bool) : Option (Bool × Pkghash) :=
  if hash.limit ≤ hash.entries then
    match rehash mem.calloc hash with
    | none => none
    | some none => some (false, hash)
    | some (some hash) => place mem.malloc hash pkg sorted
  else place mem.malloc hash pkg sorted

/-- `_alpm_pkghash_add` -/
def pkghashAdd (mem : Memory) (hash : Pkghash) (pkg : Pkg) : Option (Bool × Pkghash) := pkghashAddPkg mem hash pkg false

/-- `_alpm_pkghash_add_sorted` -/
def pkghashAddSorted (mem : Memory) (hash : Pkghash) (pkg : Pkg) : Option (Bool × Pkghash) :=
  pkghashAddPkg mem hash pkg true

/-- The node of a package with this name. -/
def isNamed (nameHash : UInt64) (name : Bytes) (n : Node) : Bool :=
  decide (n.data.nameHash = nameHash ∧ n.data.name = name)

/-- `_alpm_pkghash_remove`, with what `data` is set to. -/
def pkghashRemove (hash : Pkghash) (pkg : Pkg) : Option (Option Pkg × Pkghash) :=
  match search hash.buckets hash.hashTable (isNamed pkg.nameHash pkg.name) hash.buckets
      (pkg.nameHash.toNat % hash.buckets) with
  | none => none
  | some none => some (none, hash)
  | some (some (position, i)) =>
    match removeAt hash.buckets (home hash.buckets) hash.hashTable position with
    | none => none
    | some hashTable =>
      some (some i.data, { hash with
        hashTable
        list := hash.list.eraseP fun n => n.addr = i.addr
        entries := hash.entries - 1 })

/-- `_alpm_pkghash_find`, `some none` for `NULL`. -/
def pkghashFind (hash : Pkghash) (name : Bytes) : Option (Option Pkg) :=
  (search hash.buckets hash.hashTable (isNamed (hashSdbm name) name) hash.buckets
    ((hashSdbm name).toNat % hash.buckets)).map fun found => found.map fun x => x.2.data

/-! ### What holds of the table -/

/-- The table finds the packages of the list, with some of its buckets free. -/
structure Pkghash.Good (hash : Pkghash) : Prop where
  buckets : 11 ≤ hash.buckets
  limit : hash.limit = hash.buckets * 68 / 100
  probed : Probed hash.buckets (home hash.buckets) hash.hashTable
  perm : (Table.entries hash.hashTable).Perm hash.list
  entries : hash.entries = hash.list.length
  load : hash.entries ≤ hash.limit
  addrs : (hash.list.map Node.addr).Nodup

variable {hash hash' : Pkghash} {mem : Memory} {pkg p : Pkg} {n : Node} {sorted calloc ok : Bool} {size b : ℕ}
  {name : Bytes} {data : Option Pkg}

section Create

lemma eleven_le_of_mem : ∀ prime ∈ primeList, 11 ≤ prime := by decide +kernel

lemma good_create (h : pkghashCreate calloc size = some hash) :
    hash.Good ∧ hash.list = [] ∧ size * 100 / 58 + 1 < hash.buckets := by
  unfold pkghashCreate at h
  cases hfind : primeList.find? (fun prime => size * 100 / 58 + 1 < prime) with
  | none => rw [hfind] at h; cases h
  | some prime =>
    rw [hfind] at h
    simp only [Option.ite_none_right_eq_some] at h
    obtain ⟨-, hhash⟩ := h
    cases hhash
    have hprime := eleven_le_of_mem prime (List.mem_of_find?_eq_some hfind)
    have hlt : size * 100 / 58 + 1 < prime := by simpa using List.find?_some hfind
    refine ⟨⟨hprime, rfl, probed_replicate _ _, ?_, rfl, Nat.zero_le _, List.nodup_nil⟩, rfl, hlt⟩
    rw [entries_replicate]

end Create

namespace Pkghash.Good

lemma home_lt (h : hash.Good) (n : Node) : home hash.buckets n < hash.buckets :=
  Nat.mod_lt _ (by have := h.buckets; omega)

/-- The table is never full. -/
lemma limit_lt (h : hash.Good) : hash.limit < hash.buckets := by
  have hlimit := h.limit
  have hbuckets := h.buckets
  omega

lemma length_entries (h : hash.Good) : (Table.entries hash.hashTable).length = hash.entries :=
  h.perm.length_eq.trans h.entries.symm

lemma room (h : hash.Good) : (Table.entries hash.hashTable).length < hash.buckets := by
  have hlen := h.length_entries
  have hload := h.load
  have hlimit := h.limit_lt
  omega

lemma eq_of_addr (h : hash.Good) {n m : Node} (hn : n ∈ hash.list) (hm : m ∈ hash.list) (haddr : n.addr = m.addr) :
    n = m := List.inj_on_of_nodup_map h.addrs hn hm haddr

/-- The search by name, from the bucket of the name. -/
lemma search_spec (h : hash.Good) (name : Bytes) :
    ∃ found, search hash.buckets hash.hashTable (isNamed (hashSdbm name) name) hash.buckets
        ((hashSdbm name).toNat % hash.buckets) = some found ∧
      (found = none → ∀ n ∈ hash.list, n.data.name ≠ name) ∧
      ∀ x, found = some x → Table.slot hash.hashTable x.1 = some x.2 ∧ x.2 ∈ hash.list ∧ x.2.data.name = name := by
  have hlt : (hashSdbm name).toNat % hash.buckets < hash.buckets :=
    Nat.mod_lt _ (by have := h.buckets; omega)
  obtain ⟨found, hfound, hnone, hsome⟩ := h.probed.search_spec (isNamed (hashSdbm name) name) h.room hlt
    (fun n _ hn => by rw [home, (of_decide_eq_true hn).1])
  refine ⟨found, hfound, fun hx n hn heq => ?_, fun x hx => ?_⟩
  · have hfalse := hnone hx n (h.perm.mem_iff.2 hn)
    rw [isNamed, decide_eq_false_iff_not] at hfalse
    exact hfalse ⟨by rw [n.data.hashed, heq], heq⟩
  · obtain ⟨hslot, hnamed⟩ := hsome x hx
    exact ⟨hslot, h.perm.mem_iff.1 (mem_entries.2 ⟨_, hslot⟩), (of_decide_eq_true hnamed).2⟩

end Pkghash.Good


/-! ### Growing -/

section Grow

lemma lt_newSize (hb : 11 ≤ b) : b < newSize b := by
  unfold newSize
  split_ifs <;> omega

/-- Cells whose entries fit go into another table. -/
lemma rebin_spec (cells : List (Option Node)) (hash : Pkghash) (hbuckets : 0 < hash.buckets)
    (hprobed : Probed hash.buckets (home hash.buckets) hash.hashTable)
    (hroom : (Table.entries cells).length + (Table.entries hash.hashTable).length < hash.buckets) :
    ∃ t, rebin cells hash = some { hash with hashTable := t } ∧ Probed hash.buckets (home hash.buckets) t ∧
      (Table.entries t).Perm (Table.entries cells ++ Table.entries hash.hashTable) := by
  induction cells generalizing hash with
  | nil => exact ⟨hash.hashTable, rfl, hprobed, .refl _⟩
  | cons cell cells ih =>
    cases cell with
    | none => exact ih hash hbuckets hprobed hroom
    | some node =>
      have hlen : (Table.entries (some node :: cells)).length = (Table.entries cells).length + 1 := rfl
      obtain ⟨t, hins, hprobed', hperm⟩ :=
        hprobed.insert_spec (e := node) (by omega) (Nat.mod_lt _ hbuckets)
      obtain ⟨position, hposition, rfl⟩ := Option.map_eq_some_iff.1 hins
      have hperm' := hperm.length_eq
      rw [List.length_cons] at hperm'
      obtain ⟨t', hrebin, hprobed'', hperm''⟩ := ih
        { hash with hashTable := hash.hashTable.set position (some node) } hbuckets hprobed'
        (by simp only; omega)
      refine ⟨t', ?_, hprobed'', hperm''.trans ?_⟩
      · have hpos : getHashPosition node.data.nameHash hash = some position := hposition
        rw [rebin, hpos]
        exact hrebin
      · exact ((hperm.append_left _).trans List.perm_middle)

/-- **A larger table finds the same packages**, and has room for one more. -/
lemma rehash_spec (h : hash.Good) (calloc : Bool) :
    rehash calloc hash = some none ∨
      ∃ hash', rehash calloc hash = some (some hash') ∧ hash'.Good ∧ hash'.list = hash.list ∧
        hash'.entries < hash'.limit := by
  unfold rehash
  cases hcreate : pkghashCreate calloc (newSize hash.buckets) with
  | none => exact .inl rfl
  | some new =>
    obtain ⟨hnew, hnil, hsize⟩ := good_create hcreate
    have hgrow := lt_newSize h.buckets
    have hlimit := h.limit
    have hload := h.load
    have hlimit' := hnew.limit
    have hlen := h.length_entries
    have hempty : Table.entries new.hashTable = [] := by
      rw [← List.perm_nil, ← hnil]
      exact hnew.perm
    obtain ⟨t, hrebin, hprobed, hperm⟩ := rebin_spec hash.hashTable { new with list := hash.list }
      (by have := hnew.buckets; simp only; omega) hnew.probed (by simp only [hempty, List.length_nil]; omega)
    simp only [hrebin]
    simp only [hempty, List.append_nil] at hperm
    refine .inr ⟨_, rfl, ⟨hnew.buckets, hnew.limit, hprobed, hperm.trans h.perm, h.entries, ?_, h.addrs⟩, rfl, ?_⟩
    · simp only
      omega
    · simp only
      omega

end Grow

/-! ### The operations -/

section Operations

/-- A node that is no node of the list. -/
def Fresh (hash : Pkghash) (malloc : Option ℕ) : Prop := ∀ addr ∈ malloc, ∀ n ∈ hash.list, n.addr ≠ addr

lemma place_spec (h : hash.Good) (hroom : hash.entries < hash.limit) {malloc : Option ℕ} (hfresh : Fresh hash malloc)
    (pkg : Pkg) (sorted : Bool) :
    ∃ ok hash', place malloc hash pkg sorted = some (ok, hash') ∧ hash'.Good ∧ (ok = false → hash'.list = hash.list) ∧
      (ok = true → ∃ addr ∈ malloc, hash'.list.Perm (⟨addr, pkg⟩ :: hash.list)) := by
  unfold place
  cases malloc with
  | none =>
    obtain ⟨t, hins, -, -⟩ := h.probed.insert_spec h.room (h.home_lt ⟨0, pkg⟩)
    obtain ⟨position, hposition, -⟩ := Option.map_eq_some_iff.1 hins
    have hpos : getHashPosition pkg.nameHash hash = some position := hposition
    rw [hpos]
    exact ⟨false, hash, rfl, h, fun _ => rfl, fun hok => by cases hok⟩
  | some addr =>
    obtain ⟨t, hins, hprobed, hperm⟩ := h.probed.insert_spec h.room (h.home_lt ⟨addr, pkg⟩)
    obtain ⟨position, hposition, rfl⟩ := Option.map_eq_some_iff.1 hins
    have hpos : getHashPosition pkg.nameHash hash = some position := hposition
    rw [hpos]
    have hlist : (if sorted then hash.list.merge [⟨addr, pkg⟩] (fun x y => pkgLe x.data y.data)
        else hash.list ++ [⟨addr, pkg⟩]).Perm (⟨addr, pkg⟩ :: hash.list) := by
      split
      · exact (List.merge_perm_append _).trans (List.perm_append_singleton _ _)
      · exact List.perm_append_singleton _ _
    refine ⟨true, _, rfl, ⟨h.buckets, h.limit, hprobed, hperm.trans ((h.perm.cons _).trans hlist.symm), ?_, hroom, ?_⟩,
      ?_, fun _ => ⟨addr, rfl, hlist⟩⟩
    · simp only [hlist.length_eq, List.length_cons, h.entries]
    · refine (hlist.map Node.addr).nodup_iff.2 (List.nodup_cons.2 ⟨fun hmem => ?_, h.addrs⟩)
      obtain ⟨n, hn, heq⟩ := List.mem_map.1 hmem
      exact hfresh addr rfl n hn heq
    · intro hok
      cases hok

/-- **An addition ends**, and adds the package or leaves the list alone. -/
theorem pkghashAddPkg_spec (h : hash.Good) (hfresh : Fresh hash mem.malloc) (pkg : Pkg) (sorted : Bool) :
    ∃ ok hash', pkghashAddPkg mem hash pkg sorted = some (ok, hash') ∧ hash'.Good ∧
      (ok = false → hash'.list = hash.list) ∧
      (ok = true → ∃ addr ∈ mem.malloc, hash'.list.Perm (⟨addr, pkg⟩ :: hash.list)) := by
  unfold pkghashAddPkg
  split
  next hfull =>
    rcases rehash_spec h mem.calloc with hnone | ⟨hash₁, hsome, h₁, hlist, hroom⟩
    · exact ⟨false, hash, by rw [hnone], h, fun _ => rfl, fun hok => by cases hok⟩
    · rw [hsome, ← hlist]
      exact place_spec h₁ hroom (fun addr haddr n hn => hfresh addr haddr n (hlist ▸ hn)) pkg sorted
  next hroom => exact place_spec h (by omega) hfresh pkg sorted

/-- **A removal ends**, and takes out a package of the name if there is one. -/
theorem pkghashRemove_spec (h : hash.Good) (pkg : Pkg) :
    ∃ data hash', pkghashRemove hash pkg = some (data, hash') ∧ hash'.Good ∧
      (data = none → hash' = hash ∧ ∀ n ∈ hash.list, n.data.name ≠ pkg.name) ∧
      ∀ p, data = some p → p.name = pkg.name ∧ ∃ n ∈ hash.list, n.data = p ∧ (n :: hash'.list).Perm hash.list ∧
        hash'.list.Sublist hash.list := by
  obtain ⟨found, hfound, hnone, hsome⟩ := h.search_spec pkg.name
  rw [← pkg.hashed] at hfound
  unfold pkghashRemove
  rw [hfound]
  cases found with
  | none => exact ⟨none, hash, rfl, h, fun _ => ⟨rfl, hnone rfl⟩, fun p hp => by cases hp⟩
  | some x =>
    obtain ⟨position, i⟩ := x
    obtain ⟨hslot, hmem, hname⟩ := hsome _ rfl
    obtain ⟨t, hremove, hprobed, hperm⟩ := h.probed.removeAt_spec h.home_lt h.room hslot
    simp only [hremove]
    obtain ⟨j, l₁, l₂, -, hj, hlist, herase⟩ :=
      List.exists_of_eraseP (p := fun n : Node => decide (n.addr = i.addr)) hmem (by simp)
    have hji : j = i := h.eq_of_addr (by rw [hlist]; simp) hmem (by simpa using hj)
    subst hji
    have hcons : (j :: hash.list.eraseP fun n => decide (n.addr = j.addr)).Perm hash.list := by
      rw [herase, hlist]
      exact List.perm_middle.symm
    have hsub : (hash.list.eraseP fun n => decide (n.addr = j.addr)).Sublist hash.list := List.eraseP_sublist
    have hlen := hcons.length_eq
    rw [List.length_cons, ← h.entries] at hlen
    refine ⟨_, _, rfl, ⟨h.buckets, h.limit, hprobed, ?_, ?_, ?_, h.addrs.sublist (hsub.map _)⟩, ?_, fun p hp => ?_⟩
    · exact (List.perm_cons j).1 (hperm.trans (h.perm.trans hcons.symm))
    · simp only
      omega
    · have := h.load
      simp only
      omega
    · intro hdata
      cases hdata
    · cases hp
      exact ⟨hname, j, hmem, rfl, hcons, hsub⟩

/-- **A lookup ends**, with a package of the name if there is one. -/
theorem pkghashFind_spec (h : hash.Good) (name : Bytes) :
    ∃ found, pkghashFind hash name = some found ∧ (found = none → ∀ n ∈ hash.list, n.data.name ≠ name) ∧
      ∀ p, found = some p → p.name = name ∧ ∃ n ∈ hash.list, n.data = p := by
  obtain ⟨found, hfound, hnone, hsome⟩ := h.search_spec name
  unfold pkghashFind
  rw [hfound]
  refine ⟨_, rfl, fun hx => hnone (Option.map_eq_none_iff.1 hx), fun p hp => ?_⟩
  obtain ⟨x, hx, rfl⟩ := Option.map_eq_some_iff.1 hp
  obtain ⟨-, hmem, hname⟩ := hsome x hx
  exact ⟨hname, _, hmem, rfl⟩

end Operations

/-! ### Whole runs -/

/-- A call from outside. -/
inductive Call
  | add (mem : Memory) (pkg : Pkg) (sorted : Bool)
  | remove (pkg : Pkg)
  | find (name : Bytes)

/-- What a call returns: whether the package is added, what is removed, what is found. -/
inductive Reply
  | added (ok : Bool)
  | removed (data : Option Pkg)
  | found (pkg : Option Pkg)

/-- A call, and its reply. The allocator hands out no node that is in use. -/
inductive Pkghash.Step : Pkghash → Call × Reply → Pkghash → Prop
  | add {hash hash' : Pkghash} {mem : Memory} {pkg : Pkg} {sorted ok : Bool} (hfresh : Fresh hash mem.malloc)
    (hadd : pkghashAddPkg mem hash pkg sorted = some (ok, hash')) : Step hash (.add mem pkg sorted, .added ok) hash'
  | remove {hash hash' : Pkghash} {pkg : Pkg} {data : Option Pkg}
    (hremove : pkghashRemove hash pkg = some (data, hash')) : Step hash (.remove pkg, .removed data) hash'
  | find {hash : Pkghash} {name : Bytes} {found : Option Pkg} (hfind : pkghashFind hash name = some found) :
    Step hash (.find name, .found found) hash

/-- A package is added under a name that no package in the table has, as `local_db_populate` sees to. -/
def Pkghash.Unique (hash : Pkghash) : Call → Prop
  | .add _ pkg _ => ∀ n ∈ hash.list, n.data.name ≠ pkg.name
  | _ => True

/-- The packages by name, as a function. -/
abbrev Catalogue := Bytes → Option Pkg

/-- What the calls are for. -/
inductive Catalogue.Step : Catalogue → Call × Reply → Catalogue → Prop
  | add {m : Catalogue} {mem : Memory} {pkg : Pkg} {sorted : Bool} :
    Step m (.add mem pkg sorted, .added true) (Function.update m pkg.name (some pkg))
  | refuse {m : Catalogue} {mem : Memory} {pkg : Pkg} {sorted : Bool} : Step m (.add mem pkg sorted, .added false) m
  | remove {m : Catalogue} {pkg : Pkg} :
    Step m (.remove pkg, .removed (m pkg.name)) (Function.update m pkg.name none)
  | find {m : Catalogue} {name : Bytes} : Step m (.find name, .found (m name)) m

/-- The table has the packages of the catalogue, each once. -/
structure Pkghash.Holds (hash : Pkghash) (m : Catalogue) : Prop where
  good : hash.Good
  names : (hash.list.map fun n => n.data.name).Nodup
  mem : ∀ name p, m name = some p ↔ p.name = name ∧ ∃ n ∈ hash.list, n.data = p

section Refinement

variable {m : Catalogue} {c : Call × Reply}

lemma Pkghash.Step.good (h : hash.Good) (hstep : Pkghash.Step hash c hash') : hash'.Good := by
  cases hstep with
  | add hfresh hadd =>
    obtain ⟨ok, hash₁, heq, h₁, -⟩ := pkghashAddPkg_spec h hfresh _ _
    rw [hadd] at heq
    cases heq
    exact h₁
  | remove hremove =>
    obtain ⟨data, hash₁, heq, h₁, -⟩ := pkghashRemove_spec h _
    rw [hremove] at heq
    cases heq
    exact h₁
  | find => exact h

lemma Pkghash.Holds.find_eq (h : hash.Holds m) (name : Bytes) : pkghashFind hash name = some (m name) := by
  obtain ⟨found, hfound, hnone, hsome⟩ := pkghashFind_spec h.good name
  rw [hfound]
  congr 1
  cases found with
  | none =>
    symm
    rw [Option.eq_none_iff_forall_ne_some]
    intro p hp
    obtain ⟨hname, n, hn, rfl⟩ := (h.mem name p).1 hp
    exact hnone rfl n hn hname
  | some p => exact ((h.mem name p).2 (hsome p rfl)).symm

lemma Pkghash.Holds.add (h : hash.Holds m) (hunique : ∀ n ∈ hash.list, n.data.name ≠ pkg.name) {addr : ℕ}
    (hperm : hash'.list.Perm (⟨addr, pkg⟩ :: hash.list)) (hgood : hash'.Good) :
    hash'.Holds (Function.update m pkg.name (some pkg)) := by
  refine ⟨hgood, ?_, fun name p => ?_⟩
  · rw [(hperm.map _).nodup_iff]
    refine List.nodup_cons.2 ⟨fun hmem => ?_, h.names⟩
    obtain ⟨n, hn, heq⟩ := List.mem_map.1 hmem
    exact hunique n hn heq
  · simp only [hperm.mem_iff, List.mem_cons, exists_eq_or_imp]
    by_cases hname : name = pkg.name
    · subst hname
      rw [Function.update_self]
      constructor
      · rintro ⟨⟩
        exact ⟨rfl, .inl rfl⟩
      · rintro ⟨hp, rfl | ⟨n, hn, rfl⟩⟩
        · rfl
        · exact absurd hp (hunique n hn)
    · rw [Function.update_of_ne hname, h.mem]
      refine and_congr_right fun hp => ⟨.inr, fun hor => hor.resolve_left ?_⟩
      rintro rfl
      exact hname hp.symm

lemma Pkghash.Holds.remove (h : hash.Holds m) (hperm : (n :: hash'.list).Perm hash.list)
    (hgood : hash'.Good) : hash'.Holds (Function.update m n.data.name none) := by
  have hnames := (hperm.map fun n => n.data.name).nodup_iff.2 h.names
  rw [List.map_cons, List.nodup_cons] at hnames
  refine ⟨hgood, hnames.2, fun name p => ?_⟩
  by_cases hname : name = n.data.name
  · subst hname
    rw [Function.update_self]
    constructor
    · intro hp
      cases hp
    · rintro ⟨hp, i, hi, rfl⟩
      exact absurd (List.mem_map.2 ⟨i, hi, hp⟩) hnames.1
  · rw [Function.update_of_ne hname, h.mem]
    refine and_congr_right fun hp => ?_
    simp only [← hperm.mem_iff, List.mem_cons, exists_eq_or_imp]
    refine ⟨fun hor => hor.resolve_left ?_, .inr⟩
    rintro rfl
    exact hname hp.symm

/-- A call does to the table what it does to the catalogue. -/
lemma Pkghash.Holds.step (h : hash.Holds m) (hunique : hash.Unique c.1) (hstep : Pkghash.Step hash c hash') :
    ∃ m', Catalogue.Step m c m' ∧ hash'.Holds m' := by
  have hgood := hstep.good h.good
  cases hstep with
  | @add _ mem pkg sorted ok hfresh hadd =>
    obtain ⟨ok₁, hash₁, heq, -, hfalse, htrue⟩ := pkghashAddPkg_spec h.good hfresh pkg sorted
    rw [hadd] at heq
    cases heq
    cases ok with
    | false =>
      have hlist := hfalse rfl
      exact ⟨m, .refuse, hgood, hlist ▸ h.names, hlist ▸ h.mem⟩
    | true =>
      obtain ⟨addr, -, hperm⟩ := htrue rfl
      exact ⟨_, .add, h.add hunique hperm hgood⟩
  | @remove _ pkg data hremove =>
    obtain ⟨data₁, hash₁, heq, -, hnone, hsome⟩ := pkghashRemove_spec h.good pkg
    rw [hremove] at heq
    cases heq
    cases data with
    | none =>
      obtain ⟨rfl, habsent⟩ := hnone rfl
      have hm : m pkg.name = none := by
        rw [Option.eq_none_iff_forall_ne_some]
        intro p hp
        obtain ⟨hname, n, hn, rfl⟩ := (h.mem _ p).1 hp
        exact habsent n hn hname
      refine ⟨m, ?_, h⟩
      have hstep : Catalogue.Step m (.remove pkg, .removed (m pkg.name)) (Function.update m pkg.name none) := .remove
      rwa [hm, ← hm, Function.update_eq_self, hm] at hstep
    | some p =>
      obtain ⟨hname, n, hn, rfl, hperm, -⟩ := hsome p rfl
      have hm : m pkg.name = some n.data := (h.mem _ _).2 ⟨hname, n, hn, rfl⟩
      refine ⟨Function.update m pkg.name none, ?_, hname ▸ h.remove hperm hgood⟩
      exact hm ▸ .remove
  | find hfind =>
    rw [h.find_eq] at hfind
    cases hfind
    exact ⟨m, .find, h⟩

end Refinement

/-! ### From an empty table on -/

section Runs

variable {calls : List (Call × Reply)}

/-- **Every call comes to an end**, whatever was added and removed before. -/
theorem exists_step (hcreate : pkghashCreate calloc size = some hash)
    (hruns : Runs Pkghash.Step hash calls hash') (c : Call)
    (hfresh : ∀ mem pkg sorted, c = .add mem pkg sorted → Fresh hash' mem.malloc) :
    ∃ reply hash'', Pkghash.Step hash' (c, reply) hash'' := by
  have hgood := hruns.keeps (fun _ _ _ h hstep => hstep.good h) (good_create hcreate).1
  cases c with
  | add mem pkg sorted =>
    obtain ⟨ok, hash'', hadd, -⟩ := pkghashAddPkg_spec hgood (hfresh mem pkg sorted rfl) pkg sorted
    exact ⟨_, hash'', .add (hfresh mem pkg sorted rfl) hadd⟩
  | remove pkg =>
    obtain ⟨data, hash'', hremove, -⟩ := pkghashRemove_spec hgood pkg
    exact ⟨_, hash'', .remove hremove⟩
  | find name =>
    obtain ⟨found, hfind, -⟩ := pkghashFind_spec hgood name
    exact ⟨_, hash', .find hfind⟩

/-- **Whatever was added and removed before, a lookup ends, and finds a package of the name exactly if the list has
one.** -/
theorem find_of_runs (hcreate : pkghashCreate calloc size = some hash)
    (hruns : Runs Pkghash.Step hash calls hash') (name : Bytes) :
    ∃ found, pkghashFind hash' name = some found ∧ (found = none ↔ ∀ n ∈ hash'.list, n.data.name ≠ name) ∧
      ∀ p, found = some p → p.name = name ∧ ∃ n ∈ hash'.list, n.data = p := by
  have hgood := hruns.keeps (fun _ _ _ h hstep => hstep.good h) (good_create hcreate).1
  obtain ⟨found, hfound, hnone, hsome⟩ := pkghashFind_spec hgood name
  refine ⟨found, hfound, ⟨hnone, fun hall => ?_⟩, hsome⟩
  rw [Option.eq_none_iff_forall_ne_some]
  intro p hp
  obtain ⟨hname, n, hn, rfl⟩ := hsome p hp
  exact hall n hn hname

/-- **The table is a map from names to packages**, when no name is added twice: there is a run of the map with the same
calls and the same replies, and at its end a lookup finds what the map has. -/
theorem runs_catalogue (hcreate : pkghashCreate calloc size = some hash)
    (hruns : Runs (fun h c h' => h.Unique c.1 ∧ Pkghash.Step h c h') hash calls hash') :
    ∃ m, Runs Catalogue.Step (fun _ => none) calls m ∧ ∀ name, pkghashFind hash' name = some (m name) := by
  obtain ⟨hgood, hnil, -⟩ := good_create hcreate
  have hempty : hash.Holds fun _ => none := by
    refine ⟨hgood, by rw [hnil]; exact List.nodup_nil, fun name p => ?_⟩
    simp [hnil]
  obtain ⟨m, hm, hholds⟩ := hruns.simulated hempty fun _ _ _ _ h hstep => h.step hstep.1 hstep.2
  exact ⟨m, hm, hholds.find_eq⟩

end Runs

/-- Two packages whose hashes share a bucket of the smallest table. -/
def shelfA : Pkg := ⟨0x1000, [97], [49], hashSdbm [97], [], [], [], [], [], true, rfl⟩

def shelfL : Pkg := ⟨0x2000, [108], [49], hashSdbm [108], [], [], [], [], [], true, rfl⟩

/-- The smallest table, with these packages in the last two buckets. -/
def shelf (a b : Option Node) (list : List Node) : Pkghash where
  hashTable := List.replicate 9 none ++ [a, b]
  list := list
  buckets := 11
  entries := list.length
  limit := 7

/-- Both are added and the first is removed, so that the second moves into its bucket. -/
def shelfCalls : List (Call × Reply) := [
  (.add ⟨some 1, true⟩ shelfA false, .added true),
  (.add ⟨some 2, true⟩ shelfL false, .added true),
  (.remove shelfA, .removed (some shelfA))]

lemma shelf_create : pkghashCreate true 1 = some (shelf none none []) := rfl

lemma shelf_runs : Runs (fun h c h' => h.Unique c.1 ∧ Pkghash.Step h c h') (shelf none none []) shelfCalls
    (shelf (some ⟨2, shelfL⟩) none [⟨2, shelfL⟩]) :=
  .cons (t := shelf (some ⟨1, shelfA⟩) none [⟨1, shelfA⟩])
    ⟨by simp [Pkghash.Unique, shelf], .add (by simp [Fresh, shelf]) rfl⟩ <|
  .cons (t := shelf (some ⟨1, shelfA⟩) (some ⟨2, shelfL⟩) [⟨1, shelfA⟩, ⟨2, shelfL⟩])
    ⟨by simp [Pkghash.Unique, shelf, shelfA, shelfL], .add (by simp [Fresh, shelf]) rfl⟩ <|
  .cons ⟨trivial, .remove rfl⟩ (.nil _)

theorem shelf_find : ∃ found, pkghashFind (shelf (some ⟨2, shelfL⟩) none [⟨2, shelfL⟩]) [108] = some found ∧
    (found = none ↔ ∀ n ∈ [(⟨2, shelfL⟩ : Node)], n.data.name ≠ [108]) ∧
    ∀ p, found = some p → p.name = [108] ∧ ∃ n ∈ [(⟨2, shelfL⟩ : Node)], n.data = p :=
  find_of_runs shelf_create (shelf_runs.imp fun _ _ _ h => h.2) [108]

theorem shelf_step : ∃ reply hash'', Pkghash.Step (shelf (some ⟨2, shelfL⟩) none [⟨2, shelfL⟩])
    (.add ⟨some 3, false⟩ shelfA true, reply) hash'' :=
  exists_step shelf_create (shelf_runs.imp fun _ _ _ h => h.2) _
    (by rintro _ _ _ ⟨⟩; simp [Fresh, shelf])

theorem shelf_catalogue : ∃ m, Runs Catalogue.Step (fun _ => none) shelfCalls m ∧
    ∀ name, pkghashFind (shelf (some ⟨2, shelfL⟩) none [⟨2, shelfL⟩]) name = some (m name) :=
  runs_catalogue shelf_create shelf_runs

end Two09.Alpm
