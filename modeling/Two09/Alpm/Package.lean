import Two09.Lib.Bytes

/-!
# Packages and dependencies

`alpm_pkg_t` and `alpm_depend_t`, with the fields that the dependency code goes by. Both carry the hash of their
name, so that most comparisons of names end at the hashes.
-/

namespace Two09.Alpm

open Lib

/-- `_alpm_hash_sdbm`. The characters are signed. -/
def hashSdbm (str : Bytes) : UInt64 := str.foldl (fun hash c => c.toInt8.toInt64.toUInt64 + hash * 65599) 0

/-- `alpm_depmod_t` -/
inductive DepMod
  | any
  | eq
  | ge
  | le
  | gt
  | lt
  deriving DecidableEq, Repr

/-- `alpm_depend_t` -/
structure Depend where
  name : Bytes
  version : Option Bytes
  desc : Option Bytes
  nameHash : UInt64
  mod : DepMod
  hashed : nameHash = hashSdbm name
  deriving DecidableEq

/-- `alpm_pkg_t`, at an address, which a copy keeps; `explicit` for the reason `ALPM_PKG_REASON_EXPLICIT`. -/
structure Pkg where
  addr : ℕ
  name : Bytes
  version : Bytes
  nameHash : UInt64
  depends : List Depend
  conflicts : List Depend
  provides : List Depend
  replaces : List Depend
  filename : Bytes
  explicit : Bool
  hashed : nameHash = hashSdbm name
  deriving DecidableEq

/-- The same package, for another reason perhaps. -/
def InstalledAs (q p : Pkg) : Prop := ∃ e, p = { q with explicit := e }

/-- A name has its hash. -/
lemma hashSdbm_self (name : Bytes) : hashSdbm name = hashSdbm name := rfl

variable {p q r : Pkg} {d : Depend}

lemma InstalledAs.refl (p : Pkg) : InstalledAs p p := ⟨p.explicit, rfl⟩

lemma InstalledAs.trans (h : InstalledAs p q) (h' : InstalledAs q r) : InstalledAs p r := by
  obtain ⟨e, rfl⟩ := h
  obtain ⟨e', rfl⟩ := h'
  exact ⟨e', rfl⟩

lemma InstalledAs.name (h : InstalledAs p q) : q.name = p.name := by
  obtain ⟨e, rfl⟩ := h
  rfl

lemma InstalledAs.addr (h : InstalledAs p q) : q.addr = p.addr := by
  obtain ⟨e, rfl⟩ := h
  rfl

lemma map_name_of_installedAs {l l' : List Pkg} (h : List.Forall₂ InstalledAs l l') :
    l'.map Pkg.name = l.map Pkg.name := by
  induction h with
  | nil => rfl
  | cons hinst _ ih => rw [List.map_cons, List.map_cons, hinst.name, ih]

/-- Each name is there once in both lists, and in one of them only. -/
lemma nodup_names_append {l l' : List Pkg} (hl : (l.map Pkg.name).Nodup) (hl' : (l'.map Pkg.name).Nodup)
    (hne : ∀ p ∈ l, ∀ q ∈ l', p.name ≠ q.name) : ((l ++ l').map Pkg.name).Nodup := by
  rw [List.map_append, List.nodup_append]
  refine ⟨hl, hl', fun x hx y hy heq => ?_⟩
  obtain ⟨p, hp, rfl⟩ := List.mem_map.1 hx
  obtain ⟨q, hq, rfl⟩ := List.mem_map.1 hy
  exact hne p hp q hq heq

lemma nodup_names_concat {l : List Pkg} (hl : (l.map Pkg.name).Nodup) (hp : ∀ q ∈ l, q.name ≠ p.name) :
    ((l ++ [p]).map Pkg.name).Nodup := by
  refine nodup_names_append hl (List.nodup_singleton _) fun q hq r hr => ?_
  rw [List.mem_singleton.1 hr]
  exact hp q hq

/-- The comparison of the hashes only spares that of the names. -/
lemma Pkg.sameName_iff : (p.nameHash = q.nameHash ∧ p.name = q.name) ↔ p.name = q.name :=
  ⟨And.right, fun h => ⟨by rw [p.hashed, q.hashed, h], h⟩⟩

lemma Pkg.sameName_depend_iff : (p.nameHash = d.nameHash ∧ p.name = d.name) ↔ p.name = d.name :=
  ⟨And.right, fun h => ⟨by rw [p.hashed, d.hashed, h], h⟩⟩

end Two09.Alpm
