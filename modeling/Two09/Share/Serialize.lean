import Two09.Share.Narinfo

/-!
# Writing a narinfo

`narinfo_serialize`, and `narinfo_parse` with all the fields. Each piece of the text is formatted into an array
of 512 bytes first, and copied from there by the length that it would have had.
-/

namespace Two09.Share

open Two09.Lib Two09.Store

/-! ### All the fields -/

/-- The fields of `narinfo_t` that may be absent: `NULL`, or a size of 0. -/
structure Optional where
  url : Option Bytes
  compression : Option Bytes
  fileHash : Option Bytes
  fileSize : Int
  narHash : Option Bytes
  narSize : Int
  references : Option (List Bytes)
  deriver : Option Bytes
  signatures : Option (List Bytes)
  ca : Option Bytes
  deriving DecidableEq

/-- `narinfo_t` -/
structure NarinfoFile extends Optional where
  storePath : Bytes
  deriving DecidableEq

/-- What `narinfo_parse` has filled in so far. -/
structure Filled extends Optional where
  storePath : Option Bytes

def Filled.none : Filled := ⟨⟨.none, .none, .none, 0, .none, 0, .none, .none, .none, .none⟩, .none⟩

/-- One line of `narinfo_parse`. -/
def Filled.line (ni : Filled) (line : Bytes) : Filled :=
  match splitColon line with
  | .none => ni
  | some (key, val) =>
    let key := trim key
    let val := trim val
    if key = ascii "StorePath" then { ni with storePath := some val }
    else if key = ascii "URL" then { ni with url := some val }
    else if key = ascii "Compression" then { ni with compression := some val }
    else if key = ascii "FileHash" then { ni with fileHash := some val }
    else if key = ascii "FileSize" then { ni with fileSize := strtoll val }
    else if key = ascii "NarHash" then { ni with narHash := some val }
    else if key = ascii "NarSize" then { ni with narSize := strtoll val }
    else if key = ascii "References" then
      { ni with references :=
          if val = [] then .none else some (words (fun c => decide (c = 32 ∨ c = 9)) val) }
    else if key = ascii "Deriver" then { ni with deriver := some val }
    else if key = ascii "Sig" then { ni with signatures := some (ni.signatures.getD [] ++ [val]) }
    else if key = ascii "CA" then { ni with ca := some val }
    else ni

def isBreak (c : UInt8) : Bool := decide (c = 13 ∨ c = 10)

/-- `narinfo_parse` -/
def narinfoParseAll (text : Bytes) : Option NarinfoFile :=
  let ni := (words isBreak (cstr text)).foldl Filled.line .none
  ni.storePath.map fun path => ⟨ni.toOptional, path⟩

/-! ### The text -/

/-- Why `narinfo_serialize` gives no text: `vsnprintf` fails, or what is copied is longer than the array. -/
inductive NoText
  | failed
  | overRead
  deriving DecidableEq

/-- `buf_append`, on the piece as it would be formatted. Of one that just does not fit the array has a NUL in
the last place. -/
def bufAppend (buf piece : Bytes) : Except NoText Bytes :=
  if 2 ^ 31 ≤ piece.length then .error .failed
  else if 512 < piece.length then .error .overRead
  else if piece.length = 512 then .ok (buf ++ (piece.take 511 ++ [0]))
  else .ok (buf ++ piece)

/-- What a line is about. -/
inductive Field
  | storePath (val : Bytes)
  | url (val : Bytes)
  | compression (val : Bytes)
  | fileHash (val : Bytes)
  | fileSize (val : Int)
  | narHash (val : Bytes)
  | narSize (val : Int)
  | references (val : List Bytes)
  | deriver (val : Bytes)
  | sig (val : Bytes)
  | ca (val : Bytes)

def Field.key : Field → Bytes
  | storePath _ => ascii "StorePath"
  | url _ => ascii "URL"
  | compression _ => ascii "Compression"
  | fileHash _ => ascii "FileHash"
  | fileSize _ => ascii "FileSize"
  | narHash _ => ascii "NarHash"
  | narSize _ => ascii "NarSize"
  | references _ => ascii "References"
  | deriver _ => ascii "Deriver"
  | sig _ => ascii "Sig"
  | ca _ => ascii "CA"

/-- What stands behind the colon. -/
def Field.value : Field → Bytes
  | storePath val | url val | compression val | fileHash val | narHash val | deriver val | sig val | ca val =>
    ascii " " ++ val
  | fileSize val | narSize val => ascii " " ++ signedDecimal val
  | references val => val.flatMap (32 :: ·)

def Field.text (f : Field) : Bytes := f.key ++ ascii ":" ++ f.value

/-- What is formatted at once for a field: a line, or for the references what begins it, each of them, and what
ends it. -/
def Field.pieces (f : Field) : List Bytes :=
  match f with
  | references val => (f.key ++ ascii ":") :: (val.map (ascii " " ++ ·) ++ [ascii "\n"])
  | _ => [f.text ++ ascii "\n"]

/-- A size that is written. -/
def written (size : Int) : List Int := if 0 < size then [size] else []

/-- The fields that `narinfo_serialize` writes, in its order. -/
def NarinfoFile.fields (ni : NarinfoFile) : List Field :=
  Field.storePath ni.storePath :: (ni.url.toList.map Field.url ++ ni.compression.toList.map Field.compression ++
    ni.fileHash.toList.map Field.fileHash ++ (written ni.fileSize).map Field.fileSize ++
    ni.narHash.toList.map Field.narHash ++ (written ni.narSize).map Field.narSize ++
    (ni.references.toList.filter (· ≠ [])).map Field.references ++ ni.deriver.toList.map Field.deriver ++
    (ni.signatures.getD []).map Field.sig ++ ni.ca.toList.map Field.ca)

def NarinfoFile.pieces (ni : NarinfoFile) : List Bytes := ni.fields.flatMap Field.pieces

/-- `narinfo_serialize` -/
def narinfoSerialize (ni : NarinfoFile) : Except NoText Bytes := ni.pieces.foldlM bufAppend []

/-! ### What the parser reads of it elsewhere -/

/-- The fields that a download reads. -/
def NarinfoFile.read (ni : NarinfoFile) : Narinfo :=
  ⟨ni.storePath, ni.url, ni.narHash, ni.narSize, ni.references.getD [], ni.signatures.getD []⟩

def Filled.draft (ni : Filled) : Draft :=
  ⟨ni.storePath, ni.url, ni.narHash, ni.narSize, ni.references.getD [], ni.signatures.getD []⟩

/-- The keys that a line may begin with. -/
def keys : List Bytes :=
  ["StorePath", "URL", "Compression", "FileHash", "FileSize", "NarHash", "NarSize", "References", "Deriver", "Sig",
    "CA"].map ascii

lemma draft_line (ni : Filled) (line : Bytes) : (ni.line line).draft = ni.draft.line line := by
  unfold Filled.line Draft.line
  cases splitColon line with
  | none => rfl
  | some kv =>
    obtain ⟨key, val⟩ := kv
    dsimp only
    generalize trim key = key, trim val = val
    by_cases hkey : key ∈ keys
    · obtain ⟨k, hk, rfl⟩ := List.mem_map.1 hkey
      fin_cases hk
      case «7» => cases val <;> rfl
      all_goals rfl
    · have hne : ∀ k ∈ keys, key ≠ k := fun k hk heq => hkey (heq ▸ hk)
      rw [if_neg (hne _ (by decide)), if_neg (hne _ (by decide)), if_neg (hne _ (by decide)),
        if_neg (hne _ (by decide)), if_neg (hne _ (by decide)), if_neg (hne _ (by decide)),
        if_neg (hne _ (by decide)), if_neg (hne _ (by decide)), if_neg (hne _ (by decide)),
        if_neg (hne _ (by decide)), if_neg (hne _ (by decide)), if_neg (hne _ (by decide)),
        if_neg (hne _ (by decide)), if_neg (hne _ (by decide)), if_neg (hne _ (by decide)),
        if_neg (hne _ (by decide)), if_neg (hne _ (by decide))]

/-- **The parser of a download reads what the whole parser reads.** -/
theorem narinfoParse_eq (text : Bytes) : narinfoParse text = (narinfoParseAll text).map NarinfoFile.read := by
  have hfold : ∀ (lines : List Bytes) (ni : Filled),
      (lines.foldl Filled.line ni).draft = lines.foldl Draft.line ni.draft := by
    intro lines
    induction lines with
    | nil => exact fun _ => rfl
    | cons line lines ih =>
      intro ni
      rw [List.foldl_cons, List.foldl_cons, ih, draft_line]
  let done (ni : Draft) : Option Narinfo :=
    ni.storePath.map fun path => ⟨path, ni.url, ni.narHash, ni.narSize, ni.references, ni.signatures⟩
  calc narinfoParse text = done ((words isBreak (cstr text)).foldl Draft.line Filled.none.draft) := rfl
    _ = done ((words isBreak (cstr text)).foldl Filled.line .none).draft := by rw [hfold]
    _ = (narinfoParseAll text).map NarinfoFile.read := by
      unfold narinfoParseAll
      rw [Option.map_map]
      rfl

end Two09.Share
