import Two09.Alpm.Package
import Two09.Alpm.Version

/-!
# Dependencies

The text of a dependency, and what it takes to satisfy one, from `deps.c`.
-/

namespace Two09.Alpm

open Lib

/-! ### The text -/

/-- `strstr(depstring, ": ")`: what is before the first one, and behind it if there is one. -/
def splitDesc : Bytes → Bytes × Option Bytes
  | [] => ([], none)
  | c :: s => if c = 58 ∧ s.head? = some 32 then ([], some s.tail) else (c :: (splitDesc s).1, (splitDesc s).2)

/-- `memchr`: what is before the first `c`, and behind it. -/
def memchr (c : UInt8) (s : Bytes) : Option (Bytes × Bytes) :=
  if c ∈ s then some (s.takeWhile (· ≠ c), (s.dropWhile (· ≠ c)).tail) else none

/-- The name, the comparator and the version of a dependency. -/
def splitVersion (s : Bytes) : Bytes × DepMod × Option Bytes :=
  match memchr 60 s with
  | some (name, ptr) => if ptr.head? = some 61 then (name, .le, some ptr.tail) else (name, .lt, some ptr)
  | none =>
    match memchr 62 s with
    | some (name, ptr) => if ptr.head? = some 61 then (name, .ge, some ptr.tail) else (name, .gt, some ptr)
    | none =>
      match memchr 61 s with
      | some (name, ptr) => (name, .eq, some ptr)
      | none => (s, .any, none)

/-- `alpm_dep_from_string` -/
def depFromString (depstring : Bytes) : Depend :=
  let (body, desc) := splitDesc depstring
  let (name, mod, version) := splitVersion body
  { name, version, desc, nameHash := hashSdbm name, mod, hashed := rfl }

/-- `opr` in `alpm_dep_compute_string` -/
def DepMod.opr : DepMod → Bytes
  | .any => []
  | .ge => [62, 61]
  | .le => [60, 61]
  | .eq => [61]
  | .lt => [60]
  | .gt => [62]

/-- The text without the description. -/
def Depend.body (d : Depend) : Bytes := d.name ++ d.mod.opr ++ if d.mod = .any then [] else d.version.getD []

/-- `alpm_dep_compute_string` -/
def depComputeString (d : Depend) : Bytes :=
  d.body ++ match d.desc with
  | some desc => 58 :: 32 :: desc
  | none => []

/-- The comparators that are looked for before. -/
def DepMod.before : DepMod → Bytes
  | .any => [60, 62, 61]
  | .eq => [60, 62]
  | .ge | .gt => [60]
  | .le | .lt => []

/-- A dependency that its text says again: the text has no comparator before its own, its description does not begin
earlier, and its version is no part of the comparator. -/
structure Depend.Plain (d : Depend) : Prop where
  version : d.version.isSome ↔ d.mod ≠ .any
  body : ¬ [58, 32] <:+: d.body
  before : ∀ c ∈ d.mod.before, c ∉ d.body
  name : ∀ c ∈ d.mod.opr.head?, c ∉ d.name
  apart : d.mod = .lt ∨ d.mod = .gt → ∀ v ∈ d.version, v.head? ≠ some 61

variable {d d' : Depend} {s name ptr body desc : Bytes} {c : UInt8} {p q : Pkg} {mod : DepMod}

section Text

lemma Depend.ext (hname : d.name = d'.name) (hversion : d.version = d'.version) (hdesc : d.desc = d'.desc)
    (hmod : d.mod = d'.mod) : d = d' := by
  obtain ⟨name, version, desc, nameHash, mod, hashed⟩ := d
  obtain ⟨name', version', desc', nameHash', mod', hashed'⟩ := d'
  simp only at hname hversion hdesc hmod
  subst hname hversion hdesc hmod hashed hashed'
  rfl

/-- What stands before the first delimiter has none, neither across its end. -/
lemma not_delim_cons : ¬ [58, 32] <:+: c :: s ↔ ¬ (c = 58 ∧ s.head? = some 32) ∧ ¬ [58, 32] <:+: s := by
  cases s with
  | nil => simp [List.infix_cons_iff]
  | cons x s => simp [List.infix_cons_iff, List.cons_prefix_cons, eq_comm]

lemma splitDesc_eq (s : Bytes) :
    (s = (splitDesc s).1 ++ match (splitDesc s).2 with | some desc => 58 :: 32 :: desc | none => []) ∧
      ¬ [58, 32] <:+: (splitDesc s).1 := by
  induction s with
  | nil => exact ⟨rfl, by simp [splitDesc]⟩
  | cons c s ih =>
    unfold splitDesc
    split
    next h =>
      obtain ⟨rfl, hhead⟩ := h
      obtain ⟨rest, rfl⟩ := List.head?_eq_some_iff.1 hhead
      exact ⟨rfl, by simp⟩
    next h =>
      refine ⟨congrArg (c :: ·) ih.1, not_delim_cons.2 ⟨fun hc => h ⟨hc.1, ?_⟩, ih.2⟩⟩
      rw [ih.1, List.head?_append, hc.2]
      rfl

lemma splitDesc_append (h : ¬ [58, 32] <:+: body) (desc : Bytes) :
    splitDesc (body ++ 58 :: 32 :: desc) = (body, some desc) := by
  induction body with
  | nil => rfl
  | cons c body ih =>
    obtain ⟨hhead, hrest⟩ := not_delim_cons.1 h
    have hnot : ¬ (c = 58 ∧ (body ++ 58 :: 32 :: desc).head? = some 32) := by
      rintro ⟨hc, h32⟩
      cases body with
      | nil => cases h32
      | cons b body => exact hhead ⟨hc, h32⟩
    rw [List.cons_append, splitDesc, if_neg hnot, ih hrest]

lemma splitDesc_of_not (h : ¬ [58, 32] <:+: body) : splitDesc body = (body, none) := by
  induction body with
  | nil => rfl
  | cons c body ih =>
    obtain ⟨hhead, hrest⟩ := not_delim_cons.1 h
    rw [splitDesc, if_neg hhead, ih hrest]

lemma memchr_eq_some_iff : memchr c s = some (name, ptr) ↔ s = name ++ c :: ptr ∧ c ∉ name := by
  unfold memchr
  constructor
  · intro h
    split at h
    · cases h
      refine ⟨?_, fun hmem => by simpa using List.mem_takeWhile_imp hmem⟩
      have hne : s.dropWhile (· ≠ c) ≠ [] := by
        rw [Ne, List.dropWhile_eq_nil_iff]
        intro hall
        simpa using hall c ‹_›
      have hhead := List.head_dropWhile_not (fun x => decide (x ≠ c)) hne
      have hc : (s.dropWhile (· ≠ c)).head hne = c := by simpa using hhead
      conv_lhs => rw [← List.takeWhile_append_dropWhile (p := fun x => decide (x ≠ c)) (l := s)]
      rw [← List.cons_head_tail hne, hc]
      rfl
    · cases h
  · rintro ⟨rfl, hc⟩
    have hall : ∀ x ∈ name, decide (x ≠ c) = true := fun x hx => by
      simpa using fun heq : x = c => hc (heq ▸ hx)
    rw [if_pos (by simp), List.takeWhile_append_of_pos hall, List.dropWhile_append_of_pos hall]
    simp

lemma memchr_eq_none_iff : memchr c s = none ↔ c ∉ s := by
  simp [memchr]

/-- The text without the description, taken apart. -/
lemma splitVersion_eq (s : Bytes) {mod : DepMod} {version : Option Bytes} (h : splitVersion s = (name, mod, version)) :
    s = name ++ mod.opr ++ (if mod = .any then [] else version.getD []) ∧ (version.isSome ↔ mod ≠ .any) ∧
      (∀ c ∈ mod.before, c ∉ s) ∧ (∀ c ∈ mod.opr.head?, c ∉ name) ∧
      (mod = .lt ∨ mod = .gt → ∀ v ∈ version, v.head? ≠ some 61) := by
  unfold splitVersion at h
  split at h
  next n ptr hlt =>
    obtain ⟨rfl, hnot⟩ := memchr_eq_some_iff.1 hlt
    split at h
    next heq =>
      obtain ⟨rest, rfl⟩ := List.head?_eq_some_iff.1 heq
      cases h
      simp [DepMod.opr, DepMod.before, hnot]
    next heq =>
      cases h
      simpa [DepMod.opr, DepMod.before, hnot] using heq
  next hlt =>
    rw [memchr_eq_none_iff] at hlt
    split at h
    next n ptr hgt =>
      obtain ⟨rfl, hnot⟩ := memchr_eq_some_iff.1 hgt
      split at h
      next heq =>
        obtain ⟨rest, rfl⟩ := List.head?_eq_some_iff.1 heq
        cases h
        simpa [DepMod.opr, DepMod.before, hnot] using hlt
      next heq =>
        cases h
        refine ⟨by simp [DepMod.opr], by simp, ?_, by simpa [DepMod.opr] using hnot, by simpa using heq⟩
        simpa [DepMod.before] using hlt
    next hgt =>
      rw [memchr_eq_none_iff] at hgt
      split at h
      next n ptr heq =>
        obtain ⟨rfl, hnot⟩ := memchr_eq_some_iff.1 heq
        cases h
        refine ⟨by simp [DepMod.opr], by simp, fun c hc => ?_, by simpa [DepMod.opr] using hnot, by simp⟩
        have hc' : c = 60 ∨ c = 62 := by simpa [DepMod.before] using hc
        rcases hc' with rfl | rfl
        · exact hlt
        · exact hgt
      next heq =>
        rw [memchr_eq_none_iff] at heq
        cases h
        simp [DepMod.opr, DepMod.before, hlt, hgt, heq]

/-- What a plain dependency says is what is read. -/
lemma Depend.Plain.splitVersion_body (h : d.Plain) : splitVersion d.body = (d.name, d.mod, d.version) := by
  have hbefore : ∀ c ∈ d.mod.before, memchr c d.body = none := fun c hc => memchr_eq_none_iff.2 (h.before c hc)
  have hname := h.name
  have hversion := h.version
  have hapart := h.apart
  unfold splitVersion
  cases hmod : d.mod with
  | any =>
    rw [hmod] at hbefore hversion
    have hnone : d.version = none := by simpa using hversion
    rw [hbefore 60 (by decide), hbefore 62 (by decide), hbefore 61 (by decide), Depend.body, hmod, hnone]
    simp [DepMod.opr]
  | eq =>
    rw [hmod] at hbefore hversion hname
    obtain ⟨v, hv⟩ := Option.isSome_iff_exists.1 (hversion.2 (by simp))
    have hsplit : memchr 61 d.body = some (d.name, v) :=
      memchr_eq_some_iff.2 ⟨by simp [Depend.body, hmod, hv, DepMod.opr], hname 61 (by decide)⟩
    rw [hbefore 60 (by decide), hbefore 62 (by decide), hsplit, hv]
  | ge =>
    rw [hmod] at hbefore hversion hname
    obtain ⟨v, hv⟩ := Option.isSome_iff_exists.1 (hversion.2 (by simp))
    have hsplit : memchr 62 d.body = some (d.name, 61 :: v) :=
      memchr_eq_some_iff.2 ⟨by simp [Depend.body, hmod, hv, DepMod.opr], hname 62 (by decide)⟩
    rw [hbefore 60 (by decide), hsplit, hv]
    rfl
  | gt =>
    rw [hmod] at hbefore hversion hname hapart
    obtain ⟨v, hv⟩ := Option.isSome_iff_exists.1 (hversion.2 (by simp))
    have hsplit : memchr 62 d.body = some (d.name, v) :=
      memchr_eq_some_iff.2 ⟨by simp [Depend.body, hmod, hv, DepMod.opr], hname 62 (by decide)⟩
    rw [hbefore 60 (by decide), hsplit, hv]
    simp only
    rw [if_neg (hapart (.inr rfl) v hv)]
  | le =>
    rw [hmod] at hversion hname
    obtain ⟨v, hv⟩ := Option.isSome_iff_exists.1 (hversion.2 (by simp))
    have hsplit : memchr 60 d.body = some (d.name, 61 :: v) :=
      memchr_eq_some_iff.2 ⟨by simp [Depend.body, hmod, hv, DepMod.opr], hname 60 (by decide)⟩
    rw [hsplit, hv]
    rfl
  | lt =>
    rw [hmod] at hversion hname hapart
    obtain ⟨v, hv⟩ := Option.isSome_iff_exists.1 (hversion.2 (by simp))
    have hsplit : memchr 60 d.body = some (d.name, v) :=
      memchr_eq_some_iff.2 ⟨by simp [Depend.body, hmod, hv, DepMod.opr], hname 60 (by decide)⟩
    rw [hsplit, hv]
    simp only
    rw [if_neg (hapart (.inl rfl) v hv)]

lemma plain_depFromString (s : Bytes) : (depFromString s).Plain ∧ depComputeString (depFromString s) = s := by
  obtain ⟨heq, hdelim⟩ := splitDesc_eq s
  obtain ⟨hbody, hversion, hbefore, hname, hapart⟩ := splitVersion_eq (splitDesc s).1 rfl
  have hbody' : (depFromString s).body = (splitDesc s).1 := hbody.symm
  refine ⟨⟨hversion, by rw [hbody']; exact hdelim, by rw [hbody']; exact hbefore, hname, hapart⟩, ?_⟩
  rw [depComputeString, hbody']
  exact heq.symm

end Text

/-- **A string is a dependency and back**: the text of what is read is the string, for every string, and what is read of
the text of a dependency is the dependency exactly if it is plain. -/
theorem depFromString_depComputeString :
    (∀ s, depComputeString (depFromString s) = s) ∧ ∀ d, depFromString (depComputeString d) = d ↔ d.Plain := by
  refine ⟨fun s => (plain_depFromString s).2, fun d => ⟨fun h => h ▸ (plain_depFromString _).1, fun h => ?_⟩⟩
  have hsplit : splitDesc (depComputeString d) = (d.body, d.desc) := by
    unfold depComputeString
    cases d.desc with
    | none => rw [List.append_nil, splitDesc_of_not h.body]
    | some desc => exact splitDesc_append h.body desc
  have hversion := h.splitVersion_body
  unfold depFromString
  simp only [hsplit, hversion]
  exact Depend.ext rfl rfl rfl rfl

/-! ### Satisfiers -/

/-- `dep_vercmp` -/
def depVercmp (version1 : Option Bytes) (mod : DepMod) (version2 : Option Bytes) : Bool :=
  match mod with
  | .any => true
  | .eq => vercmp version1 version2 == .eq
  | .ge => (vercmp version1 version2).isGE
  | .le => (vercmp version1 version2).isLE
  | .lt => vercmp version1 version2 == .lt
  | .gt => vercmp version1 version2 == .gt

/-- `_alpm_depcmp_literal` -/
def depcmpLiteral (pkg : Pkg) (dep : Depend) : Bool :=
  decide (pkg.nameHash = dep.nameHash ∧ pkg.name = dep.name) && depVercmp (some pkg.version) dep.mod dep.version

/-- `_alpm_depcmp_provides` -/
def depcmpProvides (dep : Depend) (provisions : List Depend) : Bool :=
  provisions.any fun provision =>
    if dep.mod = .any then decide (provision.nameHash = dep.nameHash ∧ provision.name = dep.name)
    else if provision.mod = .eq then
      decide (provision.nameHash = dep.nameHash ∧ provision.name = dep.name) &&
        depVercmp provision.version dep.mod dep.version
    else false

/-- `_alpm_depcmp` -/
def depcmp (pkg : Pkg) (dep : Depend) : Bool := depcmpLiteral pkg dep || depcmpProvides dep pkg.provides

/-- A full version, and a newer one or the same again. -/
structure NotOlder (v w : Bytes) : Prop where
  full : Full v
  full' : Full w
  le : (compareEVR v w).isLE

/-- A package, and a newer one of its name that provides what it does, in no older versions. -/
structure Pkg.Upgrade (p q : Pkg) : Prop where
  name : p.name = q.name
  version : NotOlder p.version q.version
  provides : ∀ x ∈ p.provides, ∃ y ∈ q.provides, x.name = y.name ∧
    (x.mod = .eq → y.mod = .eq ∧ ∃ v w, x.version = some v ∧ y.version = some w ∧ NotOlder v w)

section Upgrade

/-- The dependency asks for no upper bound. -/
def Depend.Lower (d : Depend) : Prop := d.mod = .any ∨ d.mod = .ge ∨ d.mod = .gt

lemma Depend.sameName_iff : (d'.nameHash = d.nameHash ∧ d'.name = d.name) ↔ d'.name = d.name :=
  ⟨And.right, fun h => ⟨by rw [d'.hashed, d.hashed, h], h⟩⟩

lemma depVercmp_of_notOlder {v w : Bytes} (hlower : d.Lower) (hproper : ∀ x ∈ d.version, Proper x)
    (hvw : NotOlder v w) (h : depVercmp (some v) d.mod d.version = true) :
    depVercmp (some w) d.mod d.version = true := by
  cases hx : d.version with
  | none => rcases hlower with hmod | hmod | hmod <;> rw [hmod] <;> rfl
  | some x =>
    have hp := hproper x hx
    rw [hx] at h
    rcases hlower with hmod | hmod | hmod <;> rw [hmod] at h ⊢
    · rfl
    · have hxv : (compareEVR x v).isLE := by rw [compareEVR_swap v x, Ordering.isLE_swap]; exact h
      have hxw := compareEVR_trans_left hp hvw.full hvw.full' hxv hvw.le
      rw [compareEVR_swap w x, Ordering.isLE_swap] at hxw
      exact hxw
    · have hgt : compareEVR v x = .gt := by simpa [depVercmp, vercmp] using h
      have hgt' : compareEVR w x = .gt := by
        by_contra hle
        have hle' : (compareEVR w x).isLE := by
          cases hcmp : compareEVR w x with
          | gt => exact absurd hcmp hle
          | lt => rfl
          | eq => rfl
        have hvx := compareEVR_trans_right hvw.full hvw.full' hp hvw.le hle'
        rw [hgt] at hvx
        cases hvx
      simpa [depVercmp, vercmp] using hgt'

/-- The package `w`, in some version. -/
def wOf (version : Bytes) : Pkg := ⟨0, [119], version, hashSdbm [119], [], [], [], [], [], true, rfl⟩

end Upgrade

end Two09.Alpm
