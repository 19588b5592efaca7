import Two09.Share.RoundTrip

/-!
# `binary_cache_push`

The narinfo of a store path, and what is put on the server: the compressed dump, and the text of the narinfo. A piece
of the text that is longer than the array it is formatted in is copied with what stands behind it; as there is a NUL
in the array, the text that is sent ends there.
-/

namespace Two09.Share

open Two09.Lib Two09.Store Two09.Nar

/-- A key pair and its name, with `signing_sign` for the secret key. -/
structure KeyPair where
  name : Bytes
  sign : Bytes → Bytes
  publicKey : Bytes

/-- What is outside the program: `zstd`, whether the server takes what is put at an URL, and the bytes that stand
behind the array of `buf_append`, `none` where to read them kills the process. -/
structure Uplink where
  compress : Bytes → Option Bytes
  takes : Bytes → Bool
  behind : Nat → Option Bytes

/-- What a server has at an URL. -/
abbrev Server := Bytes → Option Bytes

/-- A file that can be written: its size is an `off_t`. -/
def isFile (b : Bytes) : Bool := decide (b.length < 2 ^ 63)

/-! ### The narinfo of a store path -/

section Push
variable (sha256 : Bytes → Bytes) (key : KeyPair) (up : Uplink)

/-- `snprintf("sha256:%s", …)` -/
def sha256Field (hash : Bytes) : Bytes := ascii "sha256:" ++ hash

/-- What is signed for a path with its NAR hash and size. -/
def pushedFingerprint (path : Bytes) (h : Bytes × Nat) (refs : List Bytes) : Bytes :=
  signingFingerprint path (sha256Field h.1) h.2 refs

/-- `narinfo_from_store_path` of the tree at `path`, with what `store_db_get_refs` gives for it. -/
def narinfoFromStorePath (path : Bytes) (t : FileTree) (refs : Option (List Bytes)) : Option NarinfoFile :=
  if t.root = .dir then (narHashDirectory sha256 path t).map fun h =>
    { storePath := path
      url := (narinfoPathHash path).map fun hash => ascii "nar/" ++ hash ++ ascii ".nar.zst"
      compression := some (ascii "zstd")
      fileHash := none
      fileSize := 0
      narHash := some (sha256Field h.1)
      narSize := h.2
      references := refs
      deriver := none
      signatures := some [key.name ++ ascii ":" ++ key.sign (pushedFingerprint path h (refs.getD []))]
      ca := none }
  else none

/-! ### The upload -/

/-- `buf_append`, with what stands behind the array if it reads on. -/
def bufAppendOn (buf piece : Bytes) : Option Bytes :=
  match bufAppend buf piece with
  | .ok buf => some buf
  | .error .failed => none
  | .error .overRead => (up.behind (piece.length - 512)).map fun rest => buf ++ (piece.take 511 ++ 0 :: rest)

/-- What `fputs` writes of what `narinfo_serialize` returns. -/
def pushText (ni : NarinfoFile) : Option Bytes := (ni.pieces.foldlM (bufAppendOn up) []).map cstr

/-- `is_http_url` or `is_s3_url` -/
def isUrl (url : Bytes) : Bool :=
  (ascii "http://").isPrefixOf url || (ascii "https://").isPrefixOf url || (ascii "s3://").isPrefixOf url

/-- `cache_put_file` -/
def cachePut (server : Server) (url b : Bytes) : Option Server :=
  if isUrl url then
    if up.takes url then some fun url' => if url' = url then some b else server url' else none
  else none

/-- `binary_cache_push`, and what the server has then. A missing URL is dereferenced. -/
def binaryCachePush (base path : Bytes) (t : FileTree) (refs : Option (List Bytes)) (server : Server) :
    Option Server := do
  let ni ← narinfoFromStorePath sha256 key path t refs
  let nar ← (narDump path t).filter isFile
  let zst ← (up.compress nar).filter isFile
  let ni := { ni with fileHash := some (sha256Field (hex (sha256 zst))), fileSize := zst.length }
  let url ← ni.url
  let server ← cachePut up server (urlJoin base url) zst
  let hash ← narinfoPathHash path
  let text ← pushText up ni
  cachePut up server (urlJoin base (hash ++ ascii ".narinfo")) text

end Push

/-! ### Where a text is cut -/

section Cut

variable {up : Uplink} {before after : List Bytes} {p buf text : Bytes}

lemma bufAppendOn_short (h : p.length < 512) (buf : Bytes) : bufAppendOn up buf p = some (buf ++ p) := by
  unfold bufAppendOn bufAppend
  rw [if_neg (by omega), if_neg (by omega), if_neg (by omega)]

lemma foldlM_short (h : ∀ p ∈ before, p.length < 512) (buf : Bytes) :
    before.foldlM (bufAppendOn up) buf = some (buf ++ before.flatten) := by
  induction before generalizing buf with
  | nil =>
    rw [List.flatten_nil, List.append_nil]
    rfl
  | cons p before ih =>
    obtain ⟨hp, hbefore⟩ := List.forall_mem_cons.1 h
    rw [List.foldlM_cons, bufAppendOn_short hp]
    show before.foldlM (bufAppendOn up) (buf ++ p) = _
    rw [ih hbefore, List.flatten_cons, List.append_assoc]

/-- What is in the buffer stays there. -/
lemma bufAppendOn_grows {buf' : Bytes} (h : bufAppendOn up buf p = some buf') : ∃ s, buf' = buf ++ s := by
  unfold bufAppendOn bufAppend at h
  split_ifs at h
  · obtain ⟨rest, -, rfl⟩ := Option.map_eq_some_iff.1 h
    exact ⟨_, rfl⟩
  · exact ⟨_, (Option.some.inj h).symm⟩
  · exact ⟨_, (Option.some.inj h).symm⟩

lemma foldlM_grows (h : after.foldlM (bufAppendOn up) buf = some text) : ∃ s, text = buf ++ s := by
  induction after generalizing buf with
  | nil => exact ⟨[], by rw [List.append_nil]; exact (Option.some.inj h).symm⟩
  | cons p after ih =>
    rw [List.foldlM_cons] at h
    obtain ⟨buf', hbuf, hrest⟩ := Option.bind_eq_some_iff.1 h
    obtain ⟨s, rfl⟩ := bufAppendOn_grows hbuf
    obtain ⟨s', rfl⟩ := ih hrest
    exact ⟨s ++ s', List.append_assoc _ _ _⟩

/-- Of a piece that does not fit there are 511 bytes and a NUL. -/
lemma bufAppendOn_long {buf' : Bytes} (hp : 512 ≤ p.length) (h : bufAppendOn up buf p = some buf') :
    ∃ s, buf' = buf ++ (p.take 511 ++ 0 :: s) := by
  unfold bufAppendOn bufAppend at h
  split_ifs at h
  · obtain ⟨rest, -, rfl⟩ := Option.map_eq_some_iff.1 h
    exact ⟨rest, rfl⟩
  · exact ⟨[], (Option.some.inj h).symm⟩
  · omega

lemma cstr_append_zero {s rest : Bytes} (hs : (0 : UInt8) ∉ s) : cstr (s ++ 0 :: rest) = s := by
  have hall : ∀ c ∈ s, decide (c ≠ 0) = true := by
    intro c hc
    refine decide_eq_true ?_
    rintro rfl
    exact hs hc
  unfold cstr
  rw [List.takeWhile_append_of_pos hall, List.takeWhile_cons_of_neg (by decide), List.append_nil]

/-- **The text ends in the first piece that does not fit.** -/
lemma text_cut (hbefore : ∀ p ∈ before, p.length < 512) (hp : 512 ≤ p.length)
    (hzero : (0 : UInt8) ∉ before.flatten ++ p.take 511)
    (h : (before ++ p :: after).foldlM (bufAppendOn up) [] = some text) : cstr text = before.flatten ++ p.take 511 := by
  rw [List.foldlM_append, foldlM_short hbefore] at h
  have hcons : (bufAppendOn up before.flatten p >>= fun buf => after.foldlM (bufAppendOn up) buf) = some text := h
  obtain ⟨buf', hbuf, hrest⟩ := Option.bind_eq_some_iff.1 hcons
  obtain ⟨s, rfl⟩ := bufAppendOn_long hp hbuf
  obtain ⟨s', rfl⟩ := foldlM_grows hrest
  have heq : before.flatten ++ (p.take 511 ++ 0 :: s) ++ s' = (before.flatten ++ p.take 511) ++ 0 :: (s ++ s') := by
    simp only [List.append_assoc, List.cons_append]
  rw [heq, cstr_append_zero hzero]

/-- The last piece may be the one that is cut. -/
lemma text_last (hbefore : ∀ p ∈ before, p.length < 512) (hzero : (0 : UInt8) ∉ before.flatten ++ p)
    (h : (before ++ [p]).foldlM (bufAppendOn up) [] = some text) : cstr text = before.flatten ++ p.take 511 := by
  have hmem : ∀ c, c ∈ before.flatten ++ p.take 511 → c ∈ before.flatten ++ p := by
    intro c hc
    exact (List.mem_append.1 hc).elim (fun hc => List.mem_append_left _ hc)
      fun hc => List.mem_append_right _ (List.mem_of_mem_take hc)
  rcases lt_or_ge p.length 512 with hshort | hlong
  · have hall : ∀ q ∈ before ++ [p], q.length < 512 := by
      intro q hq
      rcases List.mem_append.1 hq with hq | hq
      · exact hbefore q hq
      · rw [List.mem_singleton.1 hq]
        exact hshort
    rw [foldlM_short hall, List.nil_append, Option.some.injEq] at h
    rw [← h, List.flatten_append, List.flatten_singleton, cstr_eq_self hzero, List.take_of_length_le (by omega)]
  · exact text_cut hbefore hlong (fun hc => hzero (hmem 0 hc)) h

end Cut

end Two09.Share
