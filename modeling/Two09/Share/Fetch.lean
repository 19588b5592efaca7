import Two09.Nar.Confine
import Two09.Share.Narinfo

/-!
# `share_fetch_from_sub`

The URLs of the subs are tried in turn, and an archive that was downloaded is unpacked straight into
the destination. What the signature of its narinfo covers is not looked at again, and an archive that
fails half way is not cleaned up.
-/

namespace Two09.Share

open Two09.Lib Two09.Lib.Posix Two09.Nar Two09.Store

/-- An URL with its sub, and the number of its turn. -/
structure Source where
  sub : Sub
  base : Bytes
  turn : Nat

/-- The URLs in the order in which the two loops come to them. -/
def sources (subs : List Sub) : List Source :=
  (subs.flatMap fun s => s.urls.map fun u => (s, u)).zipIdx.map fun p => ⟨p.1.1, p.1.2, p.2⟩

/-- `share_parse_uri` -/
def shareParseUri (uri : Bytes) : Option Bytes :=
  let h := if (ascii "nar://").isPrefixOf uri then uri.drop 6 else uri
  if h.length = 32 ∧ ∀ c ∈ h, c ∈ base32 then some h else none

section Fetch
variable (net : Net) (sha256 : Bytes → Bytes) (env : Env) (dest : Path) (hash : Bytes)

/-- The narinfo that an URL serves for the hash, if it is accepted. -/
def Source.narinfo (s : Source) : Option Narinfo := lookupByHash net s.sub s.base hash (2 * s.turn)

/-- The archive that is downloaded from it. -/
def Source.archive (s : Source) : Option Bytes :=
  (s.narinfo net hash).bind fun ni => downloadNar net s.base ni (2 * s.turn + 1)

/-- The loop of `share_fetch_from_sub`, until one archive was unpacked. -/
def fetchFrom : List Source → Fs → Bool × Fs
  | [], fs => (false, fs)
  | s :: rest, fs =>
    match s.archive net hash with
    | none => fetchFrom rest fs
    | some nar =>
      match narExtract env dest nar fs with
      | (none, fs) => fetchFrom rest fs
      | (some _, fs) => (true, fs)

/-- The destination is a directory, by `stat`. -/
def isDirectory (fs : Fs) : Bool :=
  match resolve fs true dest (comps dest) with
  | .error _ => false
  | .ok l => decide (fs.obj l = some .dir)

/-- `share_fetch_from_sub` with the subs of the configuration; whether it returned 0. -/
def shareFetchFromSub (subs : List Sub) (uri : Bytes) (fs : Fs) : Bool × Fs :=
  match shareParseUri uri with
  | none => (false, fs)
  | some hash => if isDirectory dest fs then fetchFrom net env dest hash (sources subs) fs else (false, fs)

/-! ### What is asked of a download -/

/-- There is nothing in the directory at `d`. -/
def EmptyAt (d : Loc) (fs : Fs) : Prop := ∀ r, r ≠ [] → fs.obj (d ++ r) = none

/-- The directory at `d` holds the tree and nothing else. -/
def HoldsTree (d : Loc) (t : FileTree) (fs : Fs) : Prop := t.Wf ∧ ∀ r, fs.obj (d ++ r) = t.lookup r

/-- A narinfo is about the hash part and the NAR hash of a tree. -/
def Narinfo.IsAbout (ni : Narinfo) (hash : Bytes) (t : FileTree) : Prop :=
  narinfoPathHash ni.storePath = some hash ∧ ∃ narHash h, ni.narHash = some narHash ∧
    narHashDirectory sha256 dest t = some h ∧ hashField narHash = ascii "sha256:" ++ h.1

/-- A key of one of the subs has signed that this is the tree with the hash. -/
def Covered (subs : List Sub) (t : FileTree) : Prop :=
  ∃ s ∈ sources subs, ∃ ni, s.narinfo net hash = some ni ∧
    (∃ key ∈ s.sub.publicKeys, narinfoVerifySigned net ni key = true) ∧ ni.IsAbout sha256 dest hash t

/-- **The claim of a download** into the empty directory at `d`: what it returns 0 for is a tree that
is signed for; as long as no archive was unpacked, the directory is empty. -/
structure Authentic (d : Loc) (subs : List Sub) (uri : Bytes) (fs : Fs) : Prop where
  covered : ∀ fs', shareFetchFromSub net env dest subs uri fs = (true, fs') →
    ∃ hash t, shareParseUri uri = some hash ∧ HoldsTree d t fs' ∧ Covered net sha256 dest hash subs t
  empty : ∀ fs', shareFetchFromSub net env dest subs uri fs = (false, fs') → EmptyAt d fs'
  clean : ∀ hash tried fs', shareParseUri uri = some hash → tried <+: sources subs →
    fetchFrom net env dest hash tried fs = (false, fs') → EmptyAt d fs'

/-- The archives that cannot be unpacked leave nothing behind, and the first one that can be is a
tree that `accepted` lets through. -/
def Unpacked (d : Loc) (accepted : FileTree → Prop) : List Source → Fs → Prop
  | [], _ => True
  | s :: rest, fs =>
    match s.archive net hash with
    | none => Unpacked d accepted rest fs
    | some nar =>
      match narExtract env dest nar fs with
      | (none, fs) => EmptyAt d fs ∧ Unpacked d accepted rest fs
      | (some _, fs) => ∃ t, HoldsTree d t fs ∧ accepted t

/-- Some accepted narinfo is about the tree. -/
def Listed (subs : List Sub) (t : FileTree) : Prop :=
  ∃ s ∈ sources subs, ∃ ni, s.narinfo net hash = some ni ∧ ni.IsAbout sha256 dest hash t

/-- What a download relies on. -/
def Trustworthy (d : Loc) (subs : List Sub) (uri : Bytes) (fs : Fs) : Prop :=
  ∀ hash, shareParseUri uri = some hash →
    Unpacked net env dest hash d (Listed net sha256 dest hash subs) (sources subs) fs

end Fetch

/-! ### What the code does look at -/

section Trust
variable {net : Net} {sha256 : Bytes → Bytes} {env : Env} {dest : Path} {hash : Bytes} {d : Loc}
  {subs : List Sub} {s : Source} {ni : Narinfo} {t : FileTree} {uri : Bytes} {fs fs' : Fs}

/-- The sub has keys and takes nothing that is not signed. -/
def Sub.Strict (s : Sub) : Prop := s.publicKeys ≠ [] ∧ s.allowUnsigned = false

lemma sub_mem_of_source (h : s ∈ sources subs) : s.sub ∈ subs := by
  obtain ⟨p, hp, rfl⟩ := List.mem_map.1 h
  have hmem := List.fst_mem_of_mem_zipIdx hp
  obtain ⟨sub, hsub, hu⟩ := List.mem_flatMap.1 hmem
  obtain ⟨u, -, hpair⟩ := List.mem_map.1 hu
  rw [← hpair]
  exact hsub

/-- **A strict sub is asked for signatures**: what it serves was signed with one of its keys. -/
lemma accepts_signed {sub : Sub} (hstrict : sub.Strict) (hacc : accepts net sub ni = true) :
    ∃ key ∈ sub.publicKeys, narinfoVerifySigned net ni key = true := by
  have hkeys : sub.publicKeys.isEmpty = false := by
    rw [Bool.eq_false_iff]
    exact fun hempty => hstrict.1 (List.isEmpty_iff.1 hempty)
  rw [accepts, hkeys, hstrict.2, Bool.or_false] at hacc
  exact List.any_eq_true.1 hacc

lemma covered_iff_listed (hstrict : ∀ s ∈ subs, s.Strict) :
    Covered net sha256 dest hash subs t ↔ Listed net sha256 dest hash subs t := by
  constructor
  · rintro ⟨s, hs, ni, hni, -, habout⟩
    exact ⟨s, hs, ni, hni, habout⟩
  · rintro ⟨s, hs, ni, hni, habout⟩
    exact ⟨s, hs, ni, hni, accepts_signed (hstrict _ (sub_mem_of_source hs))
      (Option.filter_eq_some_iff.1 hni).2, habout⟩

lemma isDirectory_of_destination (hd : Destination fs dest d) : isDirectory dest fs = true := by
  rw [isDirectory, hd.resolves]
  exact decide_eq_true hd.isDir

/-- **One source after the other**: what is asked of the archives one by one is what is asked of the
loop, wherever it stops. -/
lemma unpacked_iff {accepted : FileTree → Prop} {ss : List Source} (hempty : EmptyAt d fs) :
    Unpacked net env dest hash d accepted ss fs ↔
      (∀ fs', fetchFrom net env dest hash ss fs = (true, fs') → ∃ t, HoldsTree d t fs' ∧ accepted t) ∧
      ∀ tried, tried <+: ss → ∀ fs', fetchFrom net env dest hash tried fs = (false, fs') →
        EmptyAt d fs' := by
  induction ss generalizing fs with
  | nil =>
    refine iff_of_true trivial ⟨fun fs' h => (by cases h), fun tried htried fs' h => ?_⟩
    rw [List.prefix_nil.1 htried] at h
    cases h
    exact hempty
  | cons s ss ih =>
    have hsplit : ∀ P : List Source → Prop, P [] →
        ((∀ tried, tried <+: s :: ss → P tried) ↔ ∀ tried, tried <+: ss → P (s :: tried)) := by
      intro P hP
      refine ⟨fun h tried htried => h _ (List.cons_prefix_cons.2 ⟨rfl, htried⟩), fun h tried htried => ?_⟩
      rcases List.prefix_cons_iff.1 htried with rfl | ⟨rest, rfl, hrest⟩
      · exact hP
      · exact h rest hrest
    -- before the first source nothing has happened
    rw [hsplit _ fun fs' h => by cases h; exact hempty, Unpacked]
    cases harchive : s.archive net hash with
    | none =>
      simp only [fetchFrom, harchive]
      exact ih hempty
    | some nar =>
      cases hnar : narExtract env dest nar fs with
      | mk r fs₁ =>
        cases r with
        | none =>
          simp only [fetchFrom, harchive, hnar]
          constructor
          · exact fun h => (ih h.1).1 h.2
          · intro h
            have hempty₁ : EmptyAt d fs₁ := h.2 [] List.nil_prefix fs₁ rfl
            exact ⟨hempty₁, (ih hempty₁).2 h⟩
        | some rest =>
          simp [fetchFrom, harchive, hnar]

end Trust

/-! ### Half an archive -/

/-- An empty directory `x`. -/
def emptyX : Fs where
  obj l := if l = [] ∨ l = [ascii "x"] then some .dir else none
  cwd := []
  touched := []

lemma destination_emptyX : Destination emptyX (ascii "x") [ascii "x"] where
  resolves := by decide
  isDir := by decide
  empty r hr := by simp [emptyX, hr]

/-- A sub with one URL and one key. -/
def oneSub : Sub := ⟨[ascii "http://s"], [ascii "k"], false⟩

def someHash : Bytes := ascii "00000000000000000000000000000000"

/-- The narinfo that the sub serves, signed. -/
def someNarinfo : Bytes :=
  ascii "StorePath: /nix/store/" ++ someHash ++
    ascii "-share-a
URL: nar/a
NarHash: sha256:00
NarSize: 90
Sig: k:sig
"

/-- The archive breaks off after the first of its two files. -/
def halfArchive : Bytes :=
  line tokMagic ++ line tokDirectory ++ entryBytes (ascii "a") (line tokRegular ++ tokContents ++ emitU64 0) ++
    line tokEntry

/-- The server of the sub. -/
def halfNet : Net where
  get i _ := if i = 0 then some someNarinfo else some halfArchive
  decompress := some
  signingVerify fp sig key := fp = ascii "1;/nix/store/" ++ someHash ++ ascii "-share-a;sha256:00;90;" ∧
    sig = ascii "sig" ∧ key = ascii "k"

/-- A server that has nothing. -/
def noNet : Net := ⟨fun _ _ => none, some, fun _ _ _ => false⟩

end Two09.Share
