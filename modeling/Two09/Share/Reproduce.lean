import Two09.Share.Legible
import Two09.Share.Unpack

/-!
# Push, then fetch

A client that trusts the key of a push, and asks the server for the path that was pushed: what it gets is the tree,
as long as the narinfo is read back and there is room for the tree.
-/

namespace Two09.Share

open Two09.Lib Two09.Store Two09.Nar
open Two09.Lib.Posix (Fs Name Loc join pathMax)

/-! ### What has been pushed -/

section Pushed

variable (sha256 : Bytes → Bytes)

/-- Where the archive of a path is put, below the URL of the cache. -/
def narSuffix (hash : Bytes) : Bytes := ascii "nar/" ++ hash ++ ascii ".nar.zst"

def narinfoSuffix (hash : Bytes) : Bytes := hash ++ ascii ".narinfo"

/-- The narinfo that is uploaded. -/
def pushedFile (path hash : Bytes) (h : Bytes × Nat) (refs : Option (List Bytes)) (zst sig : Bytes) : NarinfoFile where
  storePath := path
  url := some (narSuffix hash)
  compression := some (ascii "zstd")
  fileHash := some (sha256Field (hex (sha256 zst)))
  fileSize := zst.length
  narHash := some (sha256Field h.1)
  narSize := h.2
  references := refs
  deriver := none
  signatures := some [sig]
  ca := none

/-- The server as a client sees it. -/
def Server.net (server : Server) (decompress : Bytes → Option Bytes) (signingVerify : Bytes → Bytes → Bytes → Bool) :
    Net := ⟨fun _ => server, decompress, signingVerify⟩

/-- A client that trusts one key. -/
def trusting (base : Bytes) (key : KeyPair) : Sub := ⟨[base], [key.publicKey], false⟩

variable {sha256} {key : KeyPair} {up : Uplink} {base path url b : Bytes} {t : FileTree} {refs : Option (List Bytes)}
  {server server' : Server}

lemma cachePut_some (h : cachePut up server url b = some server') :
    isUrl url = true ∧ server' url = some b ∧ ∀ url', url' ≠ url → server' url' = server url' := by
  unfold cachePut at h
  split_ifs at h with hurl htakes
  obtain rfl := Option.some.inj h
  exact ⟨hurl, if_pos rfl, fun url' hne => if_neg hne⟩

lemma getLast?_urlJoin {suffix : Bytes} (hne : suffix ≠ []) : (urlJoin base suffix).getLast? = suffix.getLast? := by
  unfold urlJoin
  split_ifs
  · exact List.getLast?_append_of_ne_nil _ hne
  · exact List.getLast?_append_of_ne_nil _ hne

/-- The two URLs of a path differ in their last character. -/
lemma suffixes_ne (base hash : Bytes) : urlJoin base (narSuffix hash) ≠ urlJoin base (narinfoSuffix hash) := by
  have hnar : (urlJoin base (narSuffix hash)).getLast? = some 116 := by
    have hne : narSuffix hash ≠ [] := by simp [narSuffix, ascii]
    rw [getLast?_urlJoin hne]
    exact List.getLast?_append_of_ne_nil _ (by decide)
  have hinfo : (urlJoin base (narinfoSuffix hash)).getLast? = some 111 := by
    have hne : narinfoSuffix hash ≠ [] := by simp [narinfoSuffix, ascii]
    rw [getLast?_urlJoin hne]
    exact List.getLast?_append_of_ne_nil _ (by decide)
  intro heq
  rw [heq, hinfo] at hnar
  exact absurd hnar (by decide)

/-- What a push that returns 0 has done. -/
structure HasPushed (sha256 : Bytes → Bytes) (key : KeyPair) (up : Uplink) (base path : Bytes) (t : FileTree)
    (refs : Option (List Bytes)) (server' : Server) (hash nar zst text : Bytes) : Prop where
  isDir : t.root = .dir
  pathHash : narinfoPathHash path = some hash
  dump : narDump path t = some nar
  narSize : nar.length < 2 ^ 63
  compressed : up.compress nar = some zst
  fileSize : zst.length < 2 ^ 63
  written : pushText up (pushedFile sha256 path hash (hex (sha256 nar), nar.length) refs zst
    (key.name ++ ascii ":" ++
      key.sign (pushedFingerprint path (hex (sha256 nar), nar.length) (refs.getD [])))) = some text
  isUrl : isUrl (urlJoin base (narSuffix hash)) = true ∧ isUrl (urlJoin base (narinfoSuffix hash)) = true
  narAt : server' (urlJoin base (narSuffix hash)) = some zst
  narinfoAt : server' (urlJoin base (narinfoSuffix hash)) = some text

lemma hasPushed_of_push (h : binaryCachePush sha256 key up base path t refs server = some server') :
    ∃ hash nar zst text, HasPushed sha256 key up base path t refs server' hash nar zst text := by
  unfold binaryCachePush at h
  obtain ⟨ni, hni, h⟩ := Option.bind_eq_some_iff.1 h
  obtain ⟨nar, hnar, h⟩ := Option.bind_eq_some_iff.1 h
  obtain ⟨zst, hzst, h⟩ := Option.bind_eq_some_iff.1 h
  obtain ⟨url, hurl, h⟩ := Option.bind_eq_some_iff.1 h
  obtain ⟨server₁, hserver₁, h⟩ := Option.bind_eq_some_iff.1 h
  obtain ⟨hash, hhash, h⟩ := Option.bind_eq_some_iff.1 h
  obtain ⟨text, htext, hserver'⟩ := Option.bind_eq_some_iff.1 h
  obtain ⟨hdump, hnarSize⟩ := Option.filter_eq_some_iff.1 hnar
  obtain ⟨hcompressed, hfileSize⟩ := Option.filter_eq_some_iff.1 hzst
  unfold narinfoFromStorePath at hni
  split_ifs at hni with hdir
  obtain ⟨hh, hhdir, rfl⟩ := Option.map_eq_some_iff.1 hni
  unfold narHashDirectory at hhdir
  rw [hdump, Option.map_some, Option.some.injEq] at hhdir
  subst hhdir
  dsimp only at hurl
  rw [hhash, Option.map_some, Option.some.injEq] at hurl
  subst hurl
  obtain ⟨hnarUrl, hnarAt, -⟩ := cachePut_some hserver₁
  obtain ⟨hinfoUrl, hinfoAt, hother⟩ := cachePut_some hserver'
  refine ⟨hash, nar, zst, text, hdir, hhash, hdump, of_decide_eq_true hnarSize, hcompressed,
    of_decide_eq_true hfileSize, ?_, ⟨hnarUrl, hinfoUrl⟩, ?_, hinfoAt⟩
  · rw [hhash] at htext
    exact htext
  · have hkept := hother _ (suffixes_ne base hash)
    exact hkept.trans hnarAt

end Pushed

/-! ### When the narinfo is read back -/

section Pieces

variable {sha256 : Bytes → Bytes} {path hash zst sig : Bytes} {h : Bytes × Nat} {refs : Option (List Bytes)} {f : Field}

lemma length_decimal {n : Nat} (hn : n < 2 ^ 63) : (decimal n).length ≤ 19 := by
  unfold decimal
  split_ifs
  · decide
  · rw [List.length_map, List.length_reverse, Nat.digits_length_le_iff (by decide)]
    exact hn.trans (by decide)

lemma isSize_natCast {n : Nat} (hn : n < 2 ^ 63) : IsSize n := ⟨Int.natCast_nonneg n, by exact_mod_cast hn⟩

lemma solid_hex (b : Bytes) : ∀ c ∈ hex b, isSpace c = false ∧ c ≠ 0 := by
  have hdigit : ∀ d < 16, isSpace ((ascii "0123456789abcdef").getD d 0) = false ∧
      (ascii "0123456789abcdef").getD d 0 ≠ 0 := by decide
  intro c hc
  obtain ⟨x, -, hc⟩ := List.mem_flatMap.1 hc
  have hx : x.toNat < 256 := x.toNat_lt
  rcases List.mem_cons.1 hc with rfl | hc
  · exact hdigit _ (by omega)
  · rw [List.mem_singleton.1 hc]
    exact hdigit _ (by omega)

lemma length_hex (b : Bytes) : (hex b).length = 2 * b.length := by
  unfold hex
  rw [List.length_flatMap]
  simp [Nat.mul_comm]

lemma clean_of_solid {s : Bytes} (hs : ∀ c ∈ s, isSpace c = false ∧ c ≠ 0) : Clean s := by
  refine ⟨⟨fun c hc => (hs c (List.mem_of_mem_head? hc)).1, fun c hc => (hs c (List.mem_of_mem_getLast? hc)).1⟩,
    fun c hc => ?_⟩
  obtain ⟨hspace, hzero⟩ := hs c hc
  refine ⟨?_, ?_, hzero⟩
  · rintro rfl
    exact absurd hspace (by decide)
  · rintro rfl
    exact absurd hspace (by decide)

lemma clean_sha256Field (b : Bytes) : Clean (sha256Field (hex b)) := by
  have hhead : ∀ c ∈ ascii "sha256:", isSpace c = false ∧ c ≠ 0 := by decide +kernel
  exact clean_of_solid fun c hc => (List.mem_append.1 hc).elim (hhead c) (solid_hex b c)

lemma mem_of_mem_pathHash (hhash : narinfoPathHash path = some hash) : ∀ c ∈ hash, c ∈ path := by
  unfold narinfoPathHash at hhash
  dsimp only at hhash
  split_ifs at hhash
  obtain rfl := Option.some.inj hhash
  exact fun c hc => (List.rtakeWhile_suffix _ _).subset ((List.takeWhile_prefix _).subset hc)

lemma clean_narSuffix (hpath : Clean path) (hhash : narinfoPathHash path = some hash) : Clean (narSuffix hash) := by
  have hfront : ∀ c ∈ ascii "nar/", Plain c := by decide +kernel
  have hback : ∀ c ∈ ascii ".nar.zst", Plain c := by decide +kernel
  refine ⟨trimmed_append (by simp [ascii]) ?_ (by decide) (by decide +kernel), ?_⟩
  · rintro c hc
    obtain rfl : (110 : UInt8) = c := Option.some.inj hc
    decide
  · exact plain_append (plain_append hfront fun c hc => hpath.inner c (mem_of_mem_pathHash hhash c hc)) hback

/-- The narinfo that is uploaded for a clean path. -/
lemma pushed_pushedFile (hpath : Clean path) (hhash : narinfoPathHash path = some hash) {b : Bytes} {n : Nat}
    (hn : n < 2 ^ 63) (hzst : zst.length < 2 ^ 63) (hrefs : Legible (refs.getD [])) (hsig : ∀ c ∈ sig, Plain c) :
    Pushed (pushedFile sha256 path hash (hex b, n) refs zst sig) sig where
  front := by
    constructor
    case storePath => exact hpath
    case url =>
      rintro s ⟨⟩
      exact clean_narSuffix hpath hhash
    case compression =>
      rintro s ⟨⟩
      exact clean_of_solid (by decide +kernel)
    case fileHash =>
      rintro s ⟨⟩
      exact clean_sha256Field _
    case fileSize => exact isSize_natCast hzst
    case narHash =>
      rintro s ⟨⟩
      exact clean_sha256Field _
    case narSize => exact isSize_natCast hn
    all_goals rintro s ⟨⟩
  deriver := rfl
  ca := rfl
  signatures := rfl
  references := hrefs
  sig := hsig

/-- A piece fits. -/
def IsShort (p : Bytes) : Prop := p.length < 512

lemma short_line {m n : Nat} (hf : f.pieces = [f.text ++ ascii "\n"]) (hkey : f.key.length = m)
    (hvalue : f.value.length = n) : (∀ p ∈ f.pieces, IsShort p) ↔ m + n < 510 := by
  rw [hf, List.forall_mem_singleton, ← hkey, ← hvalue]
  unfold IsShort Field.text
  simp only [List.length_append]
  show f.key.length + 1 + f.value.length + 1 < 512 ↔ _
  omega

lemma short_size {n : Nat} (hn : n < 2 ^ 63) (mk : Int → Field)
    (hpieces : ∀ m, (mk m).pieces = [(mk m).text ++ ascii "\n"]) (hvalue : ∀ m, (mk m).value = ascii " " ++ signedDecimal m) :
    ∀ p ∈ ((written n).map mk).flatMap Field.pieces, IsShort p := by
  have hlen := length_decimal hn
  unfold written
  split_ifs
  · have hkey := (key_short (mk n)).1
    have hdec : signedDecimal (n : Int) = decimal n := if_neg (by omega)
    have hvalue' : (mk n).value.length = (decimal n).length + 1 := by
      rw [hvalue, hdec]
      rfl
    rw [List.map_singleton, List.flatMap_singleton, short_line (hpieces _) rfl hvalue']
    omega
  · exact List.forall_mem_nil _

lemma short_references : (∀ p ∈ ((refs.toList.filter (· ≠ [])).map Field.references).flatMap Field.pieces, IsShort p) ↔
    ∀ r ∈ refs.getD [], r.length < 511 := by
  have hpieces : ∀ l : List Bytes, (Field.references l).pieces =
      ascii "References:" :: (l.map (ascii " " ++ ·) ++ [ascii "\n"]) := fun _ => rfl
  cases refs with
  | none => simp
  | some l =>
    by_cases hnil : l = []
    · subst hnil
      simp
    · have hfilter : (some l).toList.filter (· ≠ []) = [l] := by simp [hnil]
      have hhead : IsShort (ascii "References:") := by unfold IsShort; decide
      have hend : IsShort (ascii "\n") := by unfold IsShort; decide
      rw [hfilter, List.map_singleton, List.flatMap_singleton, hpieces, List.forall_mem_cons, List.forall_mem_append,
        List.forall_mem_singleton, List.forall_mem_map, Option.getD_some]
      have hone : ∀ r : Bytes, IsShort (ascii " " ++ r) ↔ r.length < 511 := by
        intro r
        unfold IsShort
        rw [List.length_append]
        show 1 + r.length < 512 ↔ _
        omega
      simp only [hone, hhead, hend, and_true, true_and]

/-- **What stands in front of the signature fits exactly when the path, its hash part and the references are short.** -/
lemma short_lead (hsha : ∀ b, (sha256 b).length = 32) {b : Bytes} {n : Nat} (hn : n < 2 ^ 63)
    (hzst : zst.length < 2 ^ 63) :
    (∀ p ∈ (pushedFile sha256 path hash (hex (sha256 b), n) refs zst sig).lead.flatMap Field.pieces, p.length < 512) ↔
      path.length < 500 ∧ hash.length < 494 ∧ ∀ r ∈ refs.getD [], r.length < 511 := by
  have hfield : ∀ b, (sha256Field (hex (sha256 b))).length = 71 := by
    intro b
    unfold sha256Field
    rw [List.length_append, length_hex, hsha]
    rfl
  have hpath : (∀ p ∈ (Field.storePath path).pieces, IsShort p) ↔ 9 + (path.length + 1) < 510 := short_line rfl rfl rfl
  have hurl : (∀ p ∈ (Field.url (narSuffix hash)).pieces, IsShort p) ↔ 3 + (hash.length + 13) < 510 := by
    refine short_line rfl rfl ?_
    show (narSuffix hash).length + 1 = _
    unfold narSuffix
    rw [List.length_append, List.length_append]
    show 4 + hash.length + 8 + 1 = _
    omega
  have hcomp : (∀ p ∈ (Field.compression (ascii "zstd")).pieces, IsShort p) ↔ 11 + 5 < 510 := short_line rfl rfl rfl
  have hvalue : ∀ b, (ascii " " ++ sha256Field (hex (sha256 b))).length = 72 := by
    intro b
    rw [List.length_append, hfield]
    rfl
  have hfile : ∀ b, (∀ p ∈ (Field.fileHash (sha256Field (hex (sha256 b)))).pieces, IsShort p) ↔ 8 + 72 < 510 :=
    fun b => short_line rfl rfl (hvalue b)
  have hnar : ∀ b, (∀ p ∈ (Field.narHash (sha256Field (hex (sha256 b)))).pieces, IsShort p) ↔ 7 + 72 < 510 :=
    fun b => short_line rfl rfl (hvalue b)
  have hfileSize := short_size hzst Field.fileSize (fun _ => rfl) fun _ => rfl
  have hnarSize := short_size hn Field.narSize (fun _ => rfl) fun _ => rfl
  have hshort : ∀ p : Bytes, p.length < 512 ↔ IsShort p := fun p => Iff.rfl
  simp only [hshort]
  unfold NarinfoFile.lead NarinfoFile.fields NarinfoFile.front pushedFile
  simp only [Option.toList_some, Option.toList_none, List.map_cons, List.map_nil, List.filter_nil, Option.getD_none,
    List.append_nil, List.nil_append, List.cons_append, List.flatMap_append, List.flatMap_cons, List.flatMap_nil,
    List.forall_mem_append, short_references, hpath, hurl, hcomp, hfile, hnar]
  constructor
  · rintro ⟨hp, hu, -, -, -, hr⟩
    exact ⟨by omega, by omega, hr⟩
  · rintro ⟨hp, hu, hr⟩
    exact ⟨by omega, by omega, by omega, by omega, ⟨⟨hfileSize, by omega⟩, hnarSize⟩, hr⟩

end Pieces

/-! ### The claim -/

/-- The narinfo of a path is read back: the path and the references have no blanks where they would be dropped, each
piece of the text fits, and what fits of the signature is a signature. -/
structure ReadBack (signingVerify : Bytes → Bytes → Bytes → Bool) (key : KeyPair) (path hash : Bytes) (refs : List Bytes)
    (fp : Bytes) : Prop where
  clean : Clean path
  pathLength : path.length < 500
  hashLength : hash.length < 494
  references : Legible refs
  referenceLength : ∀ r ∈ refs, r.length < 511
  nameLength : key.name.length ≤ 505
  signature : signingVerify fp ((key.sign fp).take (505 - key.name.length)) key.publicKey = true

/-- **The claim of a push**: the client reads a narinfo of the path with the same references, hash and size, and creates
a tree with the hash at the path where it puts it. -/
def Reproduces (net : Net) (sha256 : Bytes → Bytes) (key : KeyPair) (base path : Bytes) (refs : List Bytes)
    (h : Bytes × Nat) (pid i : Nat) (dest : Posix.Path) (fs : Fs) : Prop :=
  ∃ ni, binaryCacheLookup net (trusting base key) base path i = some ni ∧
    ni.storePath = path ∧ ni.references = refs ∧ ni.narHash = some (sha256Field h.1) ∧ ni.narSize = h.2 ∧
    ∃ l fs' t, binaryCacheFetch net .calm (decimal pid) false base ni dest (i + 1) fs = (.created l, fs') ∧
      HoldsTree l t fs' ∧ narHashDirectory sha256 dest t = some h

section Client

variable {sha256 : Bytes → Bytes} {key : KeyPair} {up : Uplink} {base path hash nar zst text : Bytes} {t : FileTree}
  {refs : Option (List Bytes)} {server server' : Server} {decompress : Bytes → Option Bytes}
  {signingVerify : Bytes → Bytes → Bytes → Bool} {i : Nat} {ni : Narinfo}

lemma cacheGet_pushed {url b : Bytes} (hurl : isUrl url = true) (hb : server' url = some b) (hne : b ≠ []) :
    cacheGet (server'.net decompress signingVerify) i url = some b := by
  unfold cacheGet
  unfold isUrl at hurl
  rw [if_pos hurl]
  show (server' url).filter _ = _
  rw [hb, Option.filter_some, if_pos (by simpa using hne)]

/-- What a client looks up is what the parser makes of the text. -/
lemma lookup_pushed (hp : HasPushed sha256 key up base path t refs server' hash nar zst text) :
    binaryCacheLookup (server'.net decompress signingVerify) (trusting base key) base path i = some ni ↔
      narinfoParse text = some ni ∧
        accepts (server'.net decompress signingVerify) (trusting base key) ni = true := by
  unfold binaryCacheLookup lookupByHash
  rw [hp.pathHash, Option.bind_some, Option.filter_eq_some_iff]
  refine and_congr_left fun _ => ?_
  by_cases hne : text = []
  · subst hne
    have hnone : narinfoParse [] = none := rfl
    have hget : cacheGet (server'.net decompress signingVerify) i (urlJoin base (narinfoSuffix hash)) = none := by
      unfold cacheGet
      have hurl := hp.isUrl.2
      unfold isUrl at hurl
      rw [if_pos hurl]
      show (server' _).filter _ = _
      rw [hp.narinfoAt]
      rfl
    rw [hnone]
    unfold narinfoSuffix at hget
    rw [hget]
    exact Iff.rfl
  · have hget : cacheGet (server'.net decompress signingVerify) i (urlJoin base (narinfoSuffix hash)) = some text :=
      cacheGet_pushed hp.isUrl.2 hp.narinfoAt hne
    unfold narinfoSuffix at hget
    rw [hget, Option.bind_some]

lemma download_pushed (hp : HasPushed sha256 key up base path t refs server' hash nar zst text) (hne : zst ≠ [])
    (hzst : decompress zst = some nar) (hurl : ni.url = some (narSuffix hash)) :
    downloadNar (server'.net decompress signingVerify) base ni i = some nar := by
  unfold downloadNar
  rw [hurl, Option.bind_some, cacheGet_pushed hp.isUrl.1 hp.narAt hne]
  exact hzst

/-- What a client reads of a narinfo whose text is cut at the signature, if at all. -/
def readNarinfo (key : KeyPair) (path hash : Bytes) (h : Bytes × Nat) (refs : List Bytes) (sig : Bytes) : Narinfo :=
  ⟨path, some (narSuffix hash), some (sha256Field h.1), h.2, refs,
    [trim ((32 :: (key.name ++ ascii ":" ++ sig)).take 507)]⟩

/-- The client accepts it by what is left of its signature. -/
lemma accepts_readNarinfo {net : Net} {sig : Bytes} {h : Bytes × Nat} {refs : List Bytes} (hname : colon ∉ key.name)
    (hsig : ∀ c ∈ sig, isSpace c = false) :
    accepts net (trusting base key) (readNarinfo key path hash h refs sig) = true ↔ key.name.length ≤ 505 ∧
      net.signingVerify (pushedFingerprint path h refs) (sig.take (505 - key.name.length)) key.publicKey = true := by
  unfold accepts trusting readNarinfo
  dsimp only
  rw [if_neg (by simp), Bool.or_false, List.any_cons, List.any_nil, Bool.or_false]
  unfold narinfoVerifySigned
  dsimp only
  rw [List.any_cons, List.any_nil, Bool.or_false, splitColon_sig hname hsig]
  by_cases hlen : key.name.length ≤ 505
  · simp [hlen, pushedFingerprint]
  · simp [hlen]

lemma not_accepts_unsigned {net : Net} (hsigs : ni.signatures = []) : accepts net (trusting base key) ni = false := by
  unfold accepts trusting narinfoVerifySigned
  rw [hsigs]
  cases ni.narHash <;> rfl

variable {fs : Fs} {dir : Posix.Path} {d : Loc} {n : Name} {pid : Nat} {es : List (Name × FileTree)} {h : Bytes × Nat}

/-- What the client reads of a push. -/
lemma parse_readNarinfo (hsha : ∀ b, (sha256 b).length = 32)
    (hb64 : ∀ fp, ∀ c ∈ key.sign fp, isSpace c = false ∧ c ≠ 0) (hname : ∀ c ∈ key.name, c ≠ colon ∧ Plain c)
    (hp : HasPushed sha256 key up base path t refs server' hash nar zst text)
    (hclean : Clean path) (hlegible : Legible (refs.getD [])) :
    (∀ ni, narinfoParse text = some ni → ni.signatures ≠ [] →
      path.length < 500 ∧ hash.length < 494 ∧ ∀ r ∈ refs.getD [], r.length < 511) ∧
    (path.length < 500 → hash.length < 494 → (∀ r ∈ refs.getD [], r.length < 511) →
      narinfoParse text = some (readNarinfo key path hash (hex (sha256 nar), nar.length) (refs.getD [])
        (key.sign (pushedFingerprint path (hex (sha256 nar), nar.length) (refs.getD []))))) := by
  let fp := pushedFingerprint path (hex (sha256 nar), nar.length) (refs.getD [])
  let sig := key.name ++ ascii ":" ++ key.sign fp
  have hone : ∀ c ∈ ascii ":", Plain c := by decide +kernel
  have hplain : ∀ c ∈ sig, Plain c :=
    plain_append (plain_append (fun c hc => (hname c hc).2) hone) (clean_of_solid (hb64 fp)).inner
  have hpushed : Pushed (pushedFile sha256 path hash (hex (sha256 nar), nar.length) refs zst sig) sig :=
    pushed_pushedFile hclean hp.pathHash hp.narSize hp.fileSize hlegible hplain
  have hshort : (∀ p ∈ (pushedFile sha256 path hash (hex (sha256 nar), nar.length) refs zst sig).lead.flatMap
      Field.pieces, p.length < 512) ↔ path.length < 500 ∧ hash.length < 494 ∧ ∀ r ∈ refs.getD [], r.length < 511 :=
    short_lead hsha hp.narSize hp.fileSize
  constructor
  · intro ni hparse hsigs
    refine hshort.1 ?_
    by_contra hlong
    exact hsigs (parse_cut hpushed hlong hp.written hparse)
  · intro hpath hhash hrefs
    exact parse_whole hpushed (hshort.2 ⟨hpath, hhash, hrefs⟩) hp.written

/-- **What is reproduced was read back.** -/
lemma readBack_of_reproduces (hsha : ∀ b, (sha256 b).length = 32)
    (hb64 : ∀ fp, ∀ c ∈ key.sign fp, isSpace c = false ∧ c ≠ 0) (hname : ∀ c ∈ key.name, c ≠ colon ∧ Plain c)
    (hp : HasPushed sha256 key up base path t refs server' hash nar zst text)
    (hlook : binaryCacheLookup (server'.net decompress signingVerify) (trusting base key) base path i = some ni)
    (hpath : ni.storePath = path) (hrefs : ni.references = refs.getD []) :
    ReadBack signingVerify key path hash (refs.getD [])
        (pushedFingerprint path (hex (sha256 nar), nar.length) (refs.getD [])) ∧ ni.url = some (narSuffix hash) := by
  obtain ⟨hparse, hacc⟩ := (lookup_pushed hp).1 hlook
  obtain ⟨hclean, hlegible⟩ := readable_of_parse hparse
  rw [hpath] at hclean
  rw [hrefs] at hlegible
  obtain ⟨hshort, hread⟩ := parse_readNarinfo hsha hb64 hname hp hclean hlegible
  have hsigs : ni.signatures ≠ [] := by
    intro hnil
    rw [not_accepts_unsigned hnil] at hacc
    cases hacc
  obtain ⟨hpl, hhl, hrl⟩ := hshort ni hparse hsigs
  obtain rfl := Option.some.inj (hparse.symm.trans (hread hpl hhl hrl))
  have hcolon : colon ∉ key.name := fun hc => (hname _ hc).1 rfl
  obtain ⟨hlen, hverify⟩ := (accepts_readNarinfo hcolon fun c hc => (hb64 _ c hc).1).1 hacc
  exact ⟨⟨hclean, hpl, hhl, hlegible, hrl, hlen, hverify⟩, rfl⟩

/-- A signature that fits is one that is read back. -/
lemma ReadBack.of_fits {refs : List Bytes} {fp : Bytes} (hclean : Clean path) (hpath : path.length < 500)
    (hhash : hash.length < 494) (hlegible : Legible refs) (hrefs : ∀ r ∈ refs, r.length < 511)
    (hlen : key.name.length + (key.sign fp).length ≤ 505)
    (hverify : signingVerify fp (key.sign fp) key.publicKey = true) :
    ReadBack signingVerify key path hash refs fp := by
  refine ⟨hclean, hpath, hhash, hlegible, hrefs, by omega, ?_⟩
  rwa [List.take_of_length_le (by omega)]

/-- **A push is reproduced exactly when its narinfo is read back and there is room for the tree**, at the temporary path
of the client. -/
theorem push_reproduces_iff (hsha : ∀ b, (sha256 b).length = 32)
    (hzst : ∀ b z, up.compress b = some z → z ≠ [] ∧ decompress z = some b)
    (hb64 : ∀ fp, ∀ c ∈ key.sign fp, isSpace c = false ∧ c ≠ 0) (hname : ∀ c ∈ key.name, c ≠ colon ∧ Plain c)
    (hhash : narinfoPathHash path = some hash) (hwf : (FileTree.directory es).Wf)
    (hh : narHashDirectory sha256 path (.directory es) = some h)
    (hpush : binaryCachePush sha256 key up base path (.directory es) refs server = some server')
    (hv : Vacancy fs dir d n pid) (hcut : es = [] → (tmpPath dir n pid).length < pathMax) :
    Reproduces (server'.net decompress signingVerify) sha256 key base path (refs.getD []) h pid i (join dir n) fs ↔
      ReadBack signingVerify key path hash (refs.getD []) (pushedFingerprint path h (refs.getD [])) ∧
        HasRoom dir n pid (.directory es) := by
  obtain ⟨hash', nar, zst, text, hp⟩ := hasPushed_of_push hpush
  obtain rfl : hash = hash' := Option.some.inj (hhash.symm.trans hp.pathHash)
  obtain rfl : (hex (sha256 nar), nar.length) = h := by
    unfold narHashDirectory at hh
    rw [hp.dump, Option.map_some, Option.some.injEq] at hh
    exact hh
  obtain ⟨hne, hinverse⟩ := hzst nar zst hp.compressed
  constructor
  · rintro ⟨ni, hlook, hpath, hrefs, -, -, l, fs', t, hfetch, -, -⟩
    obtain ⟨hread, hurl⟩ := readBack_of_reproduces hsha hb64 hname hp hlook hpath hrefs
    exact ⟨hread, hasRoom_of_created hv hwf hp.dump (download_pushed hp hne hinverse hurl) hcut hfetch⟩
  · rintro ⟨hread, hroom⟩
    have hparse := (parse_readNarinfo hsha hb64 hname hp hread.clean hread.references).2 hread.pathLength
      hread.hashLength hread.referenceLength
    have hcolon : colon ∉ key.name := fun hc => (hname _ hc).1 rfl
    let ni := readNarinfo key path hash (hex (sha256 nar), nar.length) (refs.getD [])
      (key.sign (pushedFingerprint path (hex (sha256 nar), nar.length) (refs.getD [])))
    have hacc : accepts (server'.net decompress signingVerify) (trusting base key) ni = true :=
      (accepts_readNarinfo hcolon fun c hc => (hb64 _ c hc).1).2 ⟨hread.nameLength, hread.signature⟩
    have hdown : downloadNar (server'.net decompress signingVerify) base ni (i + 1) = some nar :=
      download_pushed hp hne hinverse rfl
    obtain ⟨fs', hfetch, hholds⟩ := binaryCacheFetch_vacant hv hroom hwf hp.dump hdown
    refine ⟨ni, (lookup_pushed hp).2 ⟨hparse, hacc⟩, rfl, rfl, rfl, rfl, _, fs', _, hfetch, hholds, ?_⟩
    -- the path that was asked for is shorter than the temporary one
    have hfits := hroom.fits.shorter (length_tmpPath dir n pid).le
    have hdump := narDump_elsewhere hp.dump (by simp [join]) ((length_tmpPath dir n pid).trans hroom.path) hfits
    unfold narHashDirectory
    rw [hdump]
    rfl

end Client

/-! ### A key with a long name -/

/-- A compression with one byte in front, on a machine where the stack is full of zeros. -/
def plainUplink : Uplink := ⟨fun b => some (0 :: b), fun _ => true, fun n => some (List.replicate n 0)⟩

/-- A key with a name of so many characters, whose only signature is `sig`. -/
def namedKey (n : Nat) : KeyPair := ⟨List.replicate n 107, fun _ => ascii "sig", ascii "k"⟩

def zeros (_ : Bytes) : Bytes := List.replicate 32 0

def verifySig (_ sig _ : Bytes) : Bool := sig = ascii "sig"

/-- What is pushed: an empty directory. -/
def pushEmpty (n : Nat) : Option Server :=
  binaryCachePush zeros (namedKey n) plainUplink (ascii "http://c") (ascii "/s/h-a-1") (.directory []) none fun _ => none

/-- A machine with an empty directory `/s`. -/
def emptyS : Fs where
  obj l := if l = [] ∨ l = [ascii "s"] then some .dir else none
  cwd := []
  touched := []

lemma vacancy_emptyS : Vacancy emptyS (ascii "/s") [ascii "s"] (ascii "h-a-1") 1 where
  name := by decide
  grounded := by
    intro l m hsome
    have hobj : l ++ [m] = [] ∨ l ++ [m] = [ascii "s"] := by
      by_contra hne
      have hnone : emptyS.obj (l ++ [m]) = none := if_neg hne
      rw [hnone] at hsome
      cases hsome
    rcases hobj with hnil | hs
    · simp at hnil
    · have hl : l = [] := by
        have hlen := congrArg List.length hs
        rw [List.length_append] at hlen
        exact List.length_eq_zero_iff.1 (Nat.succ.inj hlen)
      rw [hl]
      rfl
  resolves := by decide +kernel
  isDir := by decide
  free := by decide +kernel
  tmp := by decide +kernel
  room := by decide +kernel
  noLink := by
    have hnone : emptyS.obj (tmpLoc [ascii "s"] (ascii "h-a-1") 1) = none := by decide +kernel
    exact not_isLink_of_none hnone

lemma isSome_pushEmpty_short : (pushEmpty 1).isSome = true := by decide +kernel

lemma isSome_pushEmpty_long : (pushEmpty 600).isSome = true := by decide +kernel

lemma wf_empty : (FileTree.directory []).Wf := .directory List.nodup_nil (List.forall_mem_nil _) (List.forall_mem_nil _)

lemma plain_namedKey (n : Nat) : ∀ c ∈ (namedKey n).name, c ≠ colon ∧ Plain c := by
  intro c hc
  obtain rfl := List.eq_of_mem_replicate hc
  decide

lemma solid_namedKey (n : Nat) : ∀ fp, ∀ c ∈ (namedKey n).sign fp, isSpace c = false ∧ c ≠ 0 := by
  have hsig : ∀ c ∈ ascii "sig", isSpace c = false ∧ c ≠ 0 := by decide +kernel
  exact fun _ => hsig

lemma plainUplink_inverse (b z : Bytes) (h : plainUplink.compress b = some z) : z ≠ [] ∧ some z.tail = some b := by
  obtain rfl := Option.some.inj h
  exact ⟨List.cons_ne_nil _ _, rfl⟩

/-- With a short name the tree is reproduced. -/
theorem push_reproduces_iff_short : ∃ server h, pushEmpty 1 = some server ∧
    (Reproduces (server.net (fun z => some z.tail) verifySig) zeros (namedKey 1) (ascii "http://c") (ascii "/s/h-a-1") [] h 1 0
      (join (ascii "/s") (ascii "h-a-1")) emptyS ↔
    ReadBack verifySig (namedKey 1) (ascii "/s/h-a-1") (ascii "h") [] (pushedFingerprint (ascii "/s/h-a-1") h []) ∧
      HasRoom (ascii "/s") (ascii "h-a-1") 1 (.directory [])) := by
  have hpush := (Option.some_get isSome_pushEmpty_short).symm
  have hsome : (narHashDirectory zeros (ascii "/s/h-a-1") (.directory [])).isSome = true := by decide +kernel
  exact ⟨_, _, hpush, push_reproduces_iff (fun _ => rfl) plainUplink_inverse (solid_namedKey 1) (plain_namedKey 1)
    (by decide +kernel) wf_empty (Option.some_get hsome).symm hpush vacancy_emptyS fun _ => by decide +kernel⟩

/-- **With a name of 600 characters nothing is read back**: the line of the signature is cut in the name. -/
theorem long_name_not_reproduced :
    ¬∀ (key : KeyPair) (server : Server), (∀ c ∈ key.name, c ≠ colon ∧ Plain c) →
      (∀ fp, verifySig fp (key.sign fp) key.publicKey = true) →
      binaryCachePush zeros key plainUplink (ascii "http://c") (ascii "/s/h-a-1") (.directory []) none (fun _ => none) =
        some server →
      ∃ h, Reproduces (server.net (fun z => some z.tail) verifySig) zeros key (ascii "http://c") (ascii "/s/h-a-1") [] h 1 0
        (join (ascii "/s") (ascii "h-a-1")) emptyS := by
  intro hclaim
  have hpush := (Option.some_get isSome_pushEmpty_long).symm
  obtain ⟨h, ni, hlook, hpath, hrefs, -⟩ := hclaim (namedKey 600) _ (plain_namedKey 600) (fun _ => rfl) hpush
  obtain ⟨hash, nar, zst, text, hp⟩ := hasPushed_of_push hpush
  have hread := (readBack_of_reproduces (fun _ => rfl) (solid_namedKey 600) (plain_namedKey 600) hp hlook hpath hrefs).1
  have hlen := hread.nameLength
  have hname : (namedKey 600).name.length = 600 := List.length_replicate
  omega

end Two09.Share
