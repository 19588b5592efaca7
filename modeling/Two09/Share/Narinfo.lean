import Two09.Lib.Words
import Two09.Store.Address

/-!
# Narinfo files and how a cache is asked for them

`narinfo_parse`, `signing_fingerprint`, `narinfo_verify_signed` and `binary_cache_lookup_by_hash`.
The network, the decompression and Ed25519 are parameters.
-/

namespace Two09.Share

open Two09.Lib Two09.Store

/-- What is outside the program: what a server sends when request number `i` asks it for an URL (`none`
for an error or a status other than 200), libarchive, and whether `signing_verify` of a fingerprint, a
signature and a key returns 1. -/
structure Net where
  get : Nat → Bytes → Option Bytes
  decompress : Bytes → Option Bytes
  signingVerify : Bytes → Bytes → Bytes → Bool

/-! ### Narinfo files -/

/-- The fields of a narinfo that are read. -/
structure Narinfo where
  storePath : Bytes
  url : Option Bytes
  narHash : Option Bytes
  narSize : Int
  references : List Bytes
  signatures : List Bytes
  deriving DecidableEq, Repr

/-- What `narinfo_parse` has filled in so far. -/
structure Draft where
  storePath : Option Bytes
  url : Option Bytes
  narHash : Option Bytes
  narSize : Int
  references : List Bytes
  signatures : List Bytes

/-- `trim_inplace` -/
def trim (s : Bytes) : Bytes := (s.dropWhile isSpace).rdropWhile isSpace

def isDigit (c : UInt8) : Bool := decide (48 ≤ c ∧ c ≤ 57)

/-- `strtoll(s, NULL, 10)` -/
def strtoll (s : Bytes) : Int :=
  let s := s.dropWhile isSpace
  let negative : Bool := s.head? = some 45
  let s := if negative ∨ s.head? = some 43 then s.drop 1 else s
  let n : Nat := (s.takeWhile isDigit).foldl (fun v c => v * 10 + (c.toNat - 48)) 0
  if negative then max (-2 ^ 63) (-n) else min n (2 ^ 63 - 1)

def colon : UInt8 := 58

/-- The part before the first colon, and the part after it. -/
def splitColon (s : Bytes) : Option (Bytes × Bytes) :=
  if colon ∈ s then some (s.takeWhile (· ≠ colon), (s.dropWhile (· ≠ colon)).drop 1) else none

/-- One line of `narinfo_parse`. -/
def Draft.line (ni : Draft) (line : Bytes) : Draft :=
  match splitColon line with
  | none => ni
  | some (key, val) =>
    let key := trim key
    let val := trim val
    if key = ascii "StorePath" then { ni with storePath := some val }
    else if key = ascii "URL" then { ni with url := some val }
    else if key = ascii "NarHash" then { ni with narHash := some val }
    else if key = ascii "NarSize" then { ni with narSize := strtoll val }
    else if key = ascii "References" then
      { ni with references := words (fun c => decide (c = 32 ∨ c = 9)) val }
    else if key = ascii "Sig" then { ni with signatures := ni.signatures ++ [val] }
    else ni

/-- `narinfo_parse` -/
def narinfoParse (text : Bytes) : Option Narinfo :=
  let ni := (words (fun c => decide (c = 13 ∨ c = 10)) (cstr text)).foldl Draft.line
    ⟨none, none, none, 0, [], []⟩
  ni.storePath.map fun path => ⟨path, ni.url, ni.narHash, ni.narSize, ni.references, ni.signatures⟩

/-- What holds at the start and is kept by every line holds of what the parser has filled in. -/
lemma parse_induction (Inv : Draft → Prop) (hstart : Inv ⟨none, none, none, 0, [], []⟩)
    (hline : ∀ d line, (∀ c ∈ line, c ≠ 13 ∧ c ≠ 10 ∧ c ≠ 0) → Inv d → Inv (d.line line)) {text : Bytes} {ni : Narinfo}
    (h : narinfoParse text = some ni) :
    Inv ⟨some ni.storePath, ni.url, ni.narHash, ni.narSize, ni.references, ni.signatures⟩ := by
  have hwords : ∀ line ∈ words (fun c => decide (c = 13 ∨ c = 10)) (cstr text),
      ∀ c ∈ line, c ≠ 13 ∧ c ≠ 10 ∧ c ≠ 0 := by
    intro line hmem c hc
    have hbreak := of_decide_eq_false ((of_mem_words hmem).2 c hc)
    refine ⟨fun heq => hbreak (.inl heq), fun heq => hbreak (.inr heq), ?_⟩
    rintro rfl
    exact zero_notMem_cstr text (mem_of_mem_words hmem hc)
  have hfold : ∀ (lines : List Bytes) (d : Draft), (∀ line ∈ lines, ∀ c ∈ line, c ≠ 13 ∧ c ≠ 10 ∧ c ≠ 0) →
      Inv d → Inv (lines.foldl Draft.line d) := by
    intro lines
    induction lines with
    | nil => exact fun _ _ hd => hd
    | cons line lines ih =>
      intro d hlines hd
      obtain ⟨hl, hlines⟩ := List.forall_mem_cons.1 hlines
      exact ih _ hlines (hline d line hl hd)
  obtain ⟨path, hpath, rfl⟩ := Option.map_eq_some_iff.1 h
  have hinv := hfold _ _ hwords hstart
  rw [← hpath]
  exact hinv

/-- `narinfo_path_hash`: the part of the base name before its first dash. -/
def narinfoPathHash (path : Bytes) : Option Bytes :=
  let base := path.rtakeWhile (· ≠ Posix.slash)
  if 45 ∈ base then some (base.takeWhile (· ≠ 45)) else none

/-! ### Signatures -/

/-- The hash with its prefix, whether or not it was there. -/
def hashField (narHash : Bytes) : Bytes :=
  if (ascii "sha256:").isPrefixOf narHash then narHash else ascii "sha256:" ++ narHash

/-- `signing_fingerprint` -/
def signingFingerprint (path narHash : Bytes) (narSize : Int) (references : List Bytes) : Bytes :=
  ascii "1;" ++ path ++ ascii ";" ++ hashField narHash ++ ascii ";" ++ signedDecimal narSize ++
    ascii ";" ++ (ascii " ").intercalate references

section Cache
variable (net : Net)

/-- `narinfo_verify_signed`: any of the signatures will do, whatever its key name. -/
def narinfoVerifySigned (ni : Narinfo) (key : Bytes) : Bool :=
  match ni.narHash with
  | none => false
  | some narHash => ni.signatures.any fun sig =>
    match splitColon sig with
    | none => false
    | some (_, sig) => net.signingVerify
      (signingFingerprint ni.storePath narHash ni.narSize ni.references) sig key

/-! ### A cache -/

/-- A sub of the configuration, with what the download of a share reads of it. -/
structure Sub where
  urls : List Bytes
  publicKeys : List Bytes
  allowUnsigned : Bool

/-- `url_join` -/
def urlJoin (base suffix : Bytes) : Bytes :=
  if base ≠ [] ∧ base.getLast? ≠ some Posix.slash ∧ suffix.head? ≠ some Posix.slash then
    base ++ ascii "/" ++ suffix
  else base ++ suffix

/-- `cache_get`, with an empty answer taken for an error as all its callers do. -/
def cacheGet (i : Nat) (url : Bytes) : Option Bytes :=
  if (ascii "http://").isPrefixOf url || (ascii "https://").isPrefixOf url ||
      (ascii "s3://").isPrefixOf url then (net.get i url).filter fun b => !b.isEmpty
  else none

/-- The check of `binary_cache_lookup_by_hash`. Without keys, any signature will do. -/
def accepts (s : Sub) (ni : Narinfo) : Bool :=
  if s.publicKeys.isEmpty then s.allowUnsigned || !ni.signatures.isEmpty
  else s.publicKeys.any (narinfoVerifySigned net ni) || s.allowUnsigned

/-- `binary_cache_lookup_by_hash`. The hash is not compared with the store path of the answer. -/
def lookupByHash (s : Sub) (base hash : Bytes) (i : Nat) : Option Narinfo :=
  ((cacheGet net i (urlJoin base (hash ++ ascii ".narinfo"))).bind narinfoParse).filter (accepts net s)

/-- `binary_cache_download_nar`. Neither hash of the narinfo is compared with what was downloaded. -/
def downloadNar (base : Bytes) (ni : Narinfo) (i : Nat) : Option Bytes :=
  ni.url.bind fun url => (cacheGet net i (urlJoin base url)).bind net.decompress

end Cache

end Two09.Share
