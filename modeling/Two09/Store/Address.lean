import Two09.Nar.Dump
import Two09.Store.Path

/-!
# Content addresses

`nar_hash_directory`, `compute_store_path` and what else builds a store path from a hash. SHA-256
is a parameter.
-/

namespace Two09.Store

open Two09.Lib Two09.Lib.Posix Two09.Nar

section Address
variable (sha256 : Bytes → Bytes)

/-! ### Hashes -/

/-- Lower-case hexadecimal digits. -/
def hex (b : Bytes) : Bytes :=
  let digit : Nat → UInt8 := fun d => (ascii "0123456789abcdef").getD d 0
  b.flatMap fun x => [digit (x.toNat / 16), digit (x.toNat % 16)]

/-- `nar_hash_directory` of the tree that stands at `path`: the hash and the size of its stream. -/
def narHashDirectory (path : Path) (t : FileTree) : Option (Bytes × Nat) :=
  (narDump path t).map fun b => (hex (sha256 b), b.length)

section Hex
variable {a b : Bytes}

lemma hex_cons (x : UInt8) (b : Bytes) :
    hex (x :: b) = (ascii "0123456789abcdef").getD (x.toNat / 16) 0 ::
      (ascii "0123456789abcdef").getD (x.toNat % 16) 0 :: hex b := rfl

lemma hexDigit_injective : ∀ d < 16, ∀ e < 16,
    (ascii "0123456789abcdef").getD d 0 = (ascii "0123456789abcdef").getD e 0 → d = e := by decide

/-- No two byte strings have the same digits. -/
lemma hex_injective (h : hex a = hex b) : a = b := by
  induction a generalizing b with
  | nil =>
    cases b with
    | nil => rfl
    | cons y b => rw [hex_cons] at h; cases h
  | cons x a ih =>
    cases b with
    | nil => rw [hex_cons] at h; cases h
    | cons y b =>
      rw [hex_cons, hex_cons] at h
      obtain ⟨hhigh, h⟩ := List.cons.inj h
      obtain ⟨hlow, h⟩ := List.cons.inj h
      have hx := x.toNat_lt
      have hy := y.toNat_lt
      have hdiv := hexDigit_injective _ (by omega) _ (by omega) hhigh
      have hmod := hexDigit_injective _ (by omega) _ (by omega) hlow
      have hxy : x = y := UInt8.toNat_inj.1 (by omega)
      rw [hxy, ih h]

/-- No digit is `<`. -/
lemma head?_hex_ne (b : Bytes) : (hex b).head? ≠ some 60 := by
  cases b with
  | nil => simp [hex]
  | cons x b =>
    rw [hex_cons, List.head?_cons]
    have hx := x.toNat_lt
    have hdigit : ∀ d < 16, some ((ascii "0123456789abcdef").getD d 0) ≠ some 60 := by decide
    exact hdigit _ (by omega)

end Hex

/-- The alphabet, without e, o, t and u. -/
def base32 : Bytes := ascii "0123456789abcdfghijklmnpqrsvwxyz"

/-- One group of five bytes, read as a little-endian number, as eight digits from the lowest on. -/
def hashGroup (digest : Bytes) (g : Nat) : Bytes :=
  let n := ((digest.drop (g * 5)).take 5).foldr (fun x v => v * 256 + x.toNat) 0
  (List.range 8).map fun c => base32.getD (n / 32 ^ c % 32) 0

/-- The first 20 bytes of a digest in 32 characters. -/
def hash32 (digest : Bytes) : Bytes := (List.range 4).flatMap (hashGroup digest)

lemma length_hash32 (digest : Bytes) : (hash32 digest).length = 32 := by
  simp [hash32, hashGroup, List.length_flatMap]

lemma mem_base32_of_mem_hash32 {c : UInt8} {digest : Bytes} (h : c ∈ hash32 digest) :
    c ∈ base32 := by
  simp only [hash32, hashGroup, List.mem_flatMap, List.mem_map] at h
  obtain ⟨g, -, i, -, rfl⟩ := h
  have hdigit : ∀ d < 32, base32.getD d 0 ∈ base32 := by decide
  exact hdigit _ (Nat.mod_lt _ (by decide))

/-! ### Store paths -/

/-- What is hashed for an address. -/
def fingerprint (narHash label : Bytes) : Bytes :=
  ascii "output:out:sha256:" ++ narHash ++ ascii ":/nix/store:" ++ label

/-- The name in `/nix/store` of what has the given hash: the label goes into the fingerprint and
stands after the address. -/
def addressed (narHash label : Bytes) : Bytes :=
  hash32 (sha256 (fingerprint narHash label)) ++ ascii "-" ++ label

/-- `compute_store_path`, without the store directory. -/
def computeStorePath (narHash name version : Bytes) : Bytes :=
  addressed sha256 narHash (name ++ ascii "-" ++ version)

/-- A package that was placed at its content address. -/
structure Placed where
  narHash : Bytes
  name : Bytes
  version : Bytes

/-- `compute_snapshot_store_path`, without the store directory; the fingerprint and the path have to
fit into buffers of `PATH_MAX` bytes. -/
def computeSnapshotStorePath (narHash sanitized : Bytes) : Option Bytes :=
  let label := ascii "snap-" ++ sanitized
  let name := addressed sha256 narHash label
  if pathMax ≤ (fingerprint narHash label).length ∨ pathMax ≤ (storeDir ++ name).length then none
  else some name

end Address

/-- Bytes as the name of an entry of `/nix/store`, if they can be one. -/
def entryName? (n : Bytes) : Option StoreName :=
  if h : EntryName n then some ⟨n, h⟩ else none

/-- `sanitize_path_for_name` in a buffer of `PATH_MAX` bytes: slashes and blanks become dashes, and
leading dashes go. -/
def sanitizePathForName (path : Path) : Option Bytes :=
  if path.head? ≠ some slash then none
  else
    let out := (path.take (pathMax - 1)).map fun c =>
      if c = slash ∨ c = 0 ∨ c = 32 ∨ c = 9 ∨ c = 10 then 45 else c
    let out := out.dropWhile (· = 45)
    if out = [] then none else some out

/-- `is_share_dir`. -/
def isShareDir (n : Bytes) : Bool :=
  decide (34 ≤ n.length) && decide (n[32]? = some 45) &&
    (ascii "share-").isPrefixOf (n.drop 33) && (n.take 32).all fun c => decide (c ∈ base32)

end Two09.Store
