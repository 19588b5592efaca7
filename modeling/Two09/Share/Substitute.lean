import Two09.Share.Fetch

/-!
# `binary_cache_fetch`

A substituted path: the archive is downloaded into a temporary directory and renamed to the path that
was asked for. Neither the store path of the narinfo nor its NAR hash is compared with anything.
-/

namespace Two09.Share

open Two09.Lib Two09.Lib.Posix Two09.Nar Two09.Store

/-! ### Trees of a file system -/

/-- The file system without what is below a location. -/
def emptyDir (fs : Fs) (l : Loc) : Fs :=
  { fs with obj := fun l' => if l <+: l' ∧ l' ≠ l then none else fs.obj l', touched := l :: fs.touched }

/-- The tree at `l` moved to `l'`. -/
def moveTree (fs : Fs) (l l' : Loc) : Fs :=
  { fs with
    obj := fun m =>
      if l' <+: m then fs.obj (l ++ m.drop l'.length) else if l <+: m then none else fs.obj m
    touched := l' :: l :: fs.touched }

lemma moveTree_holds {fs : Fs} {l l' : Loc} {t : FileTree} :
    HoldsTree l' t (moveTree fs l l') ↔ HoldsTree l t fs := by
  have hbelow : ∀ r, (moveTree fs l l').obj (l' ++ r) = fs.obj (l ++ r) := by
    intro r
    show (if l' <+: l' ++ r then fs.obj (l ++ (l' ++ r).drop l'.length) else _) = _
    rw [if_pos (List.prefix_append l' r), List.drop_left]
  simp only [HoldsTree, hbelow]

section Calls
variable (env : Env) (fs : Fs)

/-- `stat` -/
def stat (p : Path) : Option Obj :=
  match resolve fs true p (comps p) with
  | .ok l => fs.obj l
  | .error _ => none

/-- `rmtree_helper`: `opendir` follows a link, `rmdir` does not. -/
def rmtreeHelper (p : Path) : Fs :=
  match resolve fs true p (comps p) with
  | .error _ => discard env p fs
  | .ok l =>
    if fs.obj l = some .dir then
      let fs := emptyDir fs l
      match resolve fs false p (names p) with
      | .ok l' => if l' = l then fs.remove l else fs
      | .error _ => fs
    else discard env p fs

/-- `rename` of a directory to where nothing is, or an empty directory. -/
def renameDir (fails : Bool) (p q : Path) : Option (Loc × Fs) :=
  match resolve fs false p (names p), resolve fs false q (names q) with
  | .ok l, .ok l' =>
    if !fails ∧ (fs.obj l).isSome ∧ ¬l <+: l' ∧ fs.obj l' = none then some (l', moveTree fs l l')
    else none
  | _, _ => none

/-- `mkdir` that may find the directory there. -/
def ensureDir (p : Path) : Bool × Fs :=
  match mkdir env fs p with
  | .ok fs => (true, fs)
  | .error .EEXIST => (true, fs)
  | .error _ => (false, fs)

end Calls

/-! ### The fetch -/

/-- The directory of a path and its base name, which is overwritten when the directory is the root. -/
def splitPath (p : Path) : Path × Name :=
  if slash ∈ p then
    let base := p.rtakeWhile (· ≠ slash)
    let parent := p.take (p.length - base.length - 1)
    if parent = [] then ([slash], []) else (parent, base)
  else (p, p)

/-- What comes of a fetch. -/
inductive Fetched
  | failed
  /-- "Already exists - leave it." -/
  | present
  | created (l : Loc)
  deriving DecidableEq, Repr

section Fetch
variable (net : Net) (env : Env) (pid : Bytes) (renameFails : Bool)

/-- `binary_cache_lookup` -/
def binaryCacheLookup (s : Sub) (base path : Bytes) (i : Nat) : Option Narinfo :=
  (narinfoPathHash path).bind fun hash => lookupByHash net s base hash i

/-- The temporary directory, and the file system in which it is made. -/
def fetchTemp (path : Path) (fs : Fs) : Option (Path × Fs) :=
  let dir := (splitPath (path.take (pathMax - 1))).1
  let base := (splitPath (path.take (pathMax - 1))).2
  match ensureDir env fs dir with
  | (false, _) => none
  | (true, fs) =>
    let tmp := (dir ++ ascii "/.tmp").take (pathMax - 1)
    match ensureDir env fs tmp with
    | (true, fs) => some ((tmp ++ ascii "/" ++ base ++ ascii "." ++ pid).take (pathMax - 1), fs)
    | (false, fs) => some ((dir ++ ascii "/." ++ base ++ ascii "." ++ pid).take (pathMax - 1), fs)

/-- The archive unpacked into the temporary directory, or what is left when that fails. -/
def fetchUnpacked (path : Path) (nar : Bytes) (fs : Fs) : Option Path × Fs :=
  match fetchTemp env pid path fs with
  | none => (none, fs)
  | some (tmp, fs) =>
    match mkdir env (rmtreeHelper env fs tmp) tmp with
    | .error _ => (none, rmtreeHelper env fs tmp)
    | .ok fs =>
      match narExtract env tmp nar fs with
      | (none, fs) => (none, rmtreeHelper env fs tmp)
      | (some _, fs) => (some tmp, fs)

/-- `binary_cache_fetch` -/
def binaryCacheFetch (base : Bytes) (ni : Narinfo) (path : Path) (i : Nat) (fs : Fs) : Fetched × Fs :=
  match downloadNar net base ni i with
  | none => (.failed, fs)
  | some nar =>
    match fetchUnpacked env pid path nar fs with
    | (none, fs) => (.failed, fs)
    | (some tmp, fs) =>
      if (stat fs path).isSome then (.present, rmtreeHelper env fs tmp)
      else
        match renameDir fs renameFails tmp path with
        | none => (.failed, rmtreeHelper env fs tmp)
        | some (l, fs) => (.created l, fs)

/-! ### What is asked of a substitution -/

variable (sha256 : Bytes → Bytes)

/-- The tree has the NAR hash of the narinfo. -/
def Narinfo.HashOf (ni : Narinfo) (t : FileTree) : Prop :=
  ∃ narHash path h, ni.narHash = some narHash ∧ narHashDirectory sha256 path t = some h ∧
    hashField narHash = ascii "sha256:" ++ h.1

/-- A path that was created holds a tree for which a key has signed, under this path. -/
def AuthenticFetch (s : Sub) (base path : Bytes) (i : Nat) (fs : Fs) : Prop :=
  ∀ ni, binaryCacheLookup net s base path i = some ni → ∀ l fs',
    binaryCacheFetch net env pid renameFails base ni path (i + 1) fs = (.created l, fs') →
      ∃ t, HoldsTree l t fs' ∧ (∃ key ∈ s.publicKeys, narinfoVerifySigned net ni key = true) ∧
        ni.storePath = path ∧ ni.HashOf sha256 t

/-- What a substitution relies on: the narinfo that is served is about the path that was asked for,
and its NAR hash is the one of the tree that the archive unpacks to. -/
def GenuineFetch (s : Sub) (base path : Bytes) (i : Nat) (fs : Fs) : Prop :=
  ∀ ni nar tmp fs₁ l₁ l fs', binaryCacheLookup net s base path i = some ni →
    downloadNar net base ni (i + 1) = some nar →
    fetchUnpacked env pid path nar fs = (some tmp, fs₁) → stat fs₁ path = none →
    resolve fs₁ false tmp (names tmp) = .ok l₁ →
    renameDir fs₁ renameFails tmp path = some (l, fs') →
      ni.storePath = path ∧ ∃ t, HoldsTree l₁ t fs₁ ∧ ni.HashOf sha256 t

end Fetch

section Authenticity
variable {net : Net} {env : Env} {pid : Bytes} {renameFails : Bool} {sha256 : Bytes → Bytes} {s : Sub}
  {base path : Bytes} {i : Nat} {fs fs' : Fs} {ni : Narinfo} {p q : Path} {l : Loc}

lemma renameDir_some (h : renameDir fs renameFails p q = some (l, fs')) :
    ∃ l₁, resolve fs false p (names p) = .ok l₁ ∧ fs' = moveTree fs l₁ l := by
  unfold renameDir at h
  cases hp : resolve fs false p (names p) with
  | error e => simp [hp] at h
  | ok l₁ =>
    cases hq : resolve fs false q (names q) with
    | error e => simp [hp, hq] at h
    | ok l₂ =>
      simp only [hp, hq] at h
      split_ifs at h
      cases h
      exact ⟨l₁, rfl, rfl⟩

/-- What a fetch that creates its path has done. -/
lemma binaryCacheFetch_created
    (h : binaryCacheFetch net env pid renameFails base ni path i fs = (.created l, fs')) :
    ∃ nar tmp fs₁ l₁, downloadNar net base ni i = some nar ∧
      fetchUnpacked env pid path nar fs = (some tmp, fs₁) ∧ stat fs₁ path = none ∧
        resolve fs₁ false tmp (names tmp) = .ok l₁ ∧
          renameDir fs₁ renameFails tmp path = some (l, fs') ∧ fs' = moveTree fs₁ l₁ l := by
  unfold binaryCacheFetch at h
  cases hnar : downloadNar net base ni i with
  | none =>
    rw [hnar] at h
    cases h
  | some nar =>
    simp only [hnar] at h
    cases hun : fetchUnpacked env pid path nar fs with
    | mk r fs₁ =>
      cases r with
      | none =>
        simp only [hun] at h
        cases h
      | some tmp =>
        simp only [hun] at h
        split_ifs at h with hstat
        · cases h
        · cases hren : renameDir fs₁ renameFails tmp path with
          | none =>
            simp only [hren] at h
            cases h
          | some r =>
            simp only [hren] at h
            cases h
            obtain ⟨l₁, hl₁, hfs⟩ := renameDir_some hren
            exact ⟨nar, tmp, fs₁, l₁, rfl, hun, by simpa using hstat, hl₁, hren, hfs⟩

lemma binaryCacheLookup_signed (hstrict : s.Strict) (h : binaryCacheLookup net s base path i = some ni) :
    ∃ key ∈ s.publicKeys, narinfoVerifySigned net ni key = true := by
  obtain ⟨hash, -, hlook⟩ := Option.bind_eq_some_iff.1 h
  exact accepts_signed hstrict (Option.filter_eq_some_iff.1 hlook).2

end Authenticity

/-! ### A narinfo for something else -/

/-- A machine with an empty store. -/
def emptyStore : Fs where
  obj l := if l = [] ∨ l = [ascii "nix"] ∨ l = [ascii "nix", ascii "store"] then some .dir else none
  cwd := []
  touched := []

/-- The path that is asked for. -/
def askedPath : Path := ascii "/nix/store/" ++ someHash ++ ascii "-a-2"

/-- What the cache serves for it: the narinfo of an older version, as it was signed, and its archive. -/
def olderNet : Net where
  get i _ := if i = 0 then some (ascii "StorePath: /nix/store/old-a-1\nURL: nar/a\nNarHash: sha256:\nSig: k:sig\n")
    else some (line tokMagic ++ line tokDirectory ++ line tokEnd)
  decompress := some
  signingVerify fp sig key := fp = ascii "1;/nix/store/old-a-1;sha256:;0;" ∧ sig = ascii "sig" ∧ key = ascii "k"

end Two09.Share
