import Two09.Nar.Canonical
import Two09.Share.Reproduce
import Two09.Snapshot.Store

/-!
# `share_take`

A share is placed at the hash of what stands at the path. What is put there is a copy of it, or a directory with a
copy of it in it.
-/

namespace Two09.Share

open Two09.Lib Two09.Lib.Posix Two09.Nar Two09.Store
open Two09.Snapshot (baseName)

/-! ### Copying -/

section Copy
variable (env : Env)

/-- `chmod(p, mode & 0777)`, of which the bit is kept that makes a file executable. -/
def chmodMode (fs : Fs) (executable : Bool) (p : Path) : Except Errno Fs :=
  if env.refuse fs (.chmod p) then .error .EACCES
  else match resolve fs true p (comps p) with
    | .error e => .error e
    | .ok l => match fs.obj l with
      | none => .error .ENOENT
      | some (.reg c _) => .ok (fs.put l (.reg c executable))
      | some o => .ok (fs.put l o)

/-- `copy_file`. Nobody looks whether the mode could be set. -/
def copyFile (dst : Path) (contents : Bytes) (executable : Bool) (fs : Fs) : Bool × Fs :=
  match openTrunc env fs dst with
  | .error _ => (false, fs)
  | .ok (l, fs) =>
    let fs := append fs l contents
    if (contents ≠ [] ∧ env.refuse fs (.write dst)) ∨ env.refuse fs (.close dst) then (false, discard env dst fs)
    else (true, orKeep fs (chmodMode env fs executable dst))

mutual
/-- `copy_tree` -/
def copyTree (src dst : Path) : FileTree → Fs → Bool × Fs
  | .regular c x, fs => copyFile env dst c x fs
  | .symlink t, fs =>
    match symlink env fs t dst with
    | .ok fs => (true, fs)
    | .error _ => (false, fs)
  | .directory es, fs =>
    match ensureDir env fs dst with
    | (true, fs) => copyEntries src dst es fs
    | (false, fs) => (false, fs)

/-- The loop over the entries of a directory. -/
def copyEntries (src dst : Path) : List (Name × FileTree) → Fs → Bool × Fs
  | [], fs => (true, fs)
  | (n, t) :: es, fs =>
    if pathMax ≤ (join src n).length ∨ pathMax ≤ (join dst n).length then (false, fs)
    else match copyTree (join src n) (join dst n) t fs with
      | (true, fs) => copyEntries src dst es fs
      | (false, fs) => (false, fs)
end

/-- The children of a directory are copied into the store path, anything else under its own name. -/
def copyInto (path storePath : Path) : FileTree → Fs → Bool × Fs
  | .directory es, fs => copyEntries env path storePath es fs
  | t, fs =>
    let dst := join storePath (baseName path)
    if pathMax ≤ dst.length then (false, fs) else copyTree env path dst t fs

/-- `share_take` of the tree that stands at the path. -/
def shareTake (sha256 : Bytes → Bytes) (path : Path) (t : FileTree) (fs : Fs) : Option Path × Fs :=
  if path.head? ≠ some slash then (none, fs)
  else match narHashDirectory sha256 path t with
  | none => (none, fs)
  | some (narHash, _) =>
    let storePath := storeDir ++ computeStorePath sha256 narHash (ascii "share") (baseName path)
    -- "If already exists, return as-is."
    if (stat fs storePath).isSome then (some storePath, fs)
    else match ensureDir env fs storePath with
    | (false, fs) => (none, fs)
    | (true, fs) =>
      match copyInto env path storePath t fs with
      | (true, fs) => (some storePath, fs)
      | (false, fs) => (none, rmtreeHelper env fs storePath)

end Copy

/-! ### A copy is the same tree -/

section Copied
variable {env : Env} {fs fs₁ fs' : Fs} {src p : Path} {d : Loc} {t : FileTree} {es : List (Name × FileTree)}

/-- An owner may set the mode of a file. -/
def Honest (env : Env) : Prop := ∀ fs p, env.refuse fs (.chmod p) = false

lemma spot_none (h : Spot fs p d) : fs.obj d = none := by
  simpa using h.vacant []

/-- What is put at a spot is reached. -/
lemma spot_reached (h : Spot fs p d) {o : Obj} (ho : ∀ s, o ≠ .lnk s)
    (hobj : ∀ l, fs'.obj l = if l = d then some o else fs.obj l) (hcwd : fs'.cwd = fs.cwd) : resolve fs' true p (comps p) = .ok d := by
  refine h.resolve_eq (fun l o' ho' => ?_) hcwd (.inr ?_)
  · rw [hobj, if_neg, ho']
    rintro rfl
    rw [spot_none h] at ho'
    cases ho'
  · rintro ⟨s, hs⟩
    rw [hobj, if_pos rfl] at hs
    exact ho s (Option.some.inj hs)

lemma chmodMode_eq (henv : Honest env) {c : Bytes} {x y : Bool} (hres : resolve fs true p (comps p) = .ok d)
    (hd : fs.obj d = some (.reg c y)) : chmodMode env fs x p = .ok (fs.put d (.reg c x)) := by
  unfold chmodMode
  rw [henv, if_neg Bool.false_ne_true, hres]
  dsimp only
  rw [hd]

lemma copyFile_spot (henv : Honest env) (h : Spot fs p d) {c : Bytes} {x : Bool}
    (hrun : copyFile env p c x fs = (true, fs')) : fs'.obj = graft fs.obj d (.regular c x) ∧ fs'.cwd = fs.cwd := by
  unfold copyFile at hrun
  cases hopen : openTrunc env fs p with
  | error e =>
    rw [hopen] at hrun
    cases hrun
  | ok r =>
    obtain ⟨l, fs₁⟩ := r
    rw [hopen] at hrun
    dsimp only at hrun
    obtain ⟨hres, -, y, rfl⟩ := openTrunc_ok hopen
    have hnone : ¬ IsLink fs.obj d := not_isLink_of_none (spot_none h)
    obtain rfl : l = d := Except.ok.inj (hres.symm.trans (h.resolve_eq (fun _ _ ho => ho) rfl (.inr hnone)))
    have happ : append (fs.put l (.reg [] y)) l c = (fs.put l (.reg [] y)).put l (.reg c y) := by
      simp [append]
    rw [happ] at hrun
    generalize hfs₂ : (fs.put l (.reg [] y)).put l (.reg c y) = fs₂ at hrun
    have hobj : ∀ l', fs₂.obj l' = if l' = l then some (.reg c y) else fs.obj l' := by
      intro l'
      rw [← hfs₂]
      by_cases hl : l' = l <;> simp [hl]
    have hcwd : fs₂.cwd = fs.cwd := by
      rw [← hfs₂]
      rfl
    split_ifs at hrun with hbad
    · cases hrun
    have hreach := spot_reached h (by rintro s ⟨⟩) hobj hcwd
    rw [chmodMode_eq henv hreach (by rw [hobj, if_pos rfl])] at hrun
    cases hrun
    refine ⟨?_, hcwd⟩
    rw [← graft_leaf (t := .regular c x) h.vacant (by simp)]
    funext l'
    show (if l' = l then _ else fs₂.obj l') = _
    rw [hobj]
    split_ifs
    · rfl
    · rfl

lemma ensureDir_spot (h : Spot fs p d) (hrun : ensureDir env fs p = (true, fs')) :
    fs'.obj = graft fs.obj d (.directory []) ∧ fs'.cwd = fs.cwd := by
  have hres : resolve fs false p (names p) = .ok d := h.noTrailingSlash ▸ h.resolves
  have hmk : mkdir env fs p = .ok fs' := by
    unfold ensureDir at hrun
    unfold mkdir at hrun ⊢
    split_ifs at hrun ⊢ with hrefuse
    · cases hrun
    rw [hres] at hrun ⊢
    dsimp only at hrun ⊢
    rw [spot_none h] at hrun ⊢
    rw [if_neg (by simp)] at hrun ⊢
    cases hrun
    rfl
  obtain ⟨l, hl, -, rfl⟩ := mkdir_ok hmk
  obtain rfl : l = d := Except.ok.inj (hl.symm.trans hres)
  exact ⟨graft_leaf (t := .directory []) h.vacant (by simp), rfl⟩

/-- Wherever the copy of `t` comes to its end, the tree stands at the spot, and fits there. -/
def Copies (env : Env) (t : FileTree) : Prop :=
  ∀ {src p d fs fs'}, Spot fs p d → copyTree env src p t fs = (true, fs') →
    fs'.obj = graft fs.obj d t ∧ fs'.cwd = fs.cwd ∧ t.Fits p

/-- **The loop over the entries** adds them one by one. -/
lemma copyEntries_hosts (h : Hosts fs p d) (hes : ∀ e ∈ es, ValidName e.1 ∧ Copies env e.2) :
    ∀ (done : List (Name × FileTree)) {fs₁ : Fs}, ((done ++ es).map Prod.fst).Nodup →
      fs₁.obj = graft fs.obj d (.directory done) → fs₁.cwd = fs.cwd → copyEntries env src p es fs₁ = (true, fs') →
        fs'.obj = graft fs.obj d (.directory (done ++ es)) ∧ fs'.cwd = fs.cwd ∧
          ∀ e ∈ es, (join p e.1).length < pathMax ∧ e.2.Fits (join p e.1) := by
  induction es with
  | nil =>
    intro done fs₁ _ hobj hcwd hrun
    rw [copyEntries] at hrun
    cases hrun
    rw [List.append_nil]
    exact ⟨hobj, hcwd, List.forall_mem_nil _⟩
  | cons e es ih =>
    intro done fs₁ hnd hobj hcwd hrun
    obtain ⟨n, t⟩ := e
    obtain ⟨⟨hn, ht⟩, hes⟩ := List.forall_mem_cons.1 hes
    rw [copyEntries] at hrun
    split_ifs at hrun with hlen
    · cases hrun
    rw [not_or, not_le, not_le] at hlen
    have hnew : n ∉ done.map Prod.fst := by
      rw [List.map_append, List.nodup_append'] at hnd
      exact fun hmem => List.disjoint_left.1 hnd.2.2 hmem List.mem_cons_self
    cases hcopy : copyTree env (join src n) (join p n) t fs₁ with
    | mk ok fs₂ =>
      rw [hcopy] at hrun
      cases ok with
      | false => cases hrun
      | true =>
        obtain ⟨hobj₂, hcwd₂, hfits⟩ := ht (h hobj hcwd hnew hn hlen.2) hcopy
        rw [hobj, graft_entry hnew] at hobj₂
        have hnd' : (((done ++ [(n, t)]) ++ es).map Prod.fst).Nodup := by
          rw [List.append_assoc]
          exact hnd
        obtain ⟨hobj', hcwd', hall⟩ := ih hes _ hnd' hobj₂ (hcwd₂.trans hcwd) hrun
        rw [List.append_assoc] at hobj'
        exact ⟨hobj', hcwd', List.forall_mem_cons.2 ⟨⟨hlen.2, hfits⟩, hall⟩⟩

/-- **A copy is the tree itself.** -/
theorem copies_of_wf (henv : Honest env) (hwf : t.Wf) : Copies env t := by
  induction hwf with
  | @regular c x _ =>
    intro src p d fs fs' h hrun
    rw [copyTree] at hrun
    obtain ⟨hobj, hcwd⟩ := copyFile_spot henv h hrun
    exact ⟨hobj, hcwd, .regular⟩
  | @symlink s _ _ _ =>
    intro src p d fs fs' h hrun
    rw [copyTree] at hrun
    cases hlink : symlink env fs s p with
    | error e =>
      rw [hlink] at hrun
      cases hrun
    | ok fs₁ =>
      rw [hlink] at hrun
      cases hrun
      obtain ⟨l, hl, -, rfl⟩ := symlink_ok hlink
      obtain rfl : l = d := Except.ok.inj (hl.symm.trans h.resolves)
      exact ⟨graft_leaf (t := .symlink s) h.vacant (by simp), rfl, .symlink⟩
  | @directory es hnd hnames hwfs ih =>
    intro src p d fs fs' h hrun
    rw [copyTree] at hrun
    cases hmk : ensureDir env fs p with
    | mk ok fs₁ =>
      rw [hmk] at hrun
      cases ok with
      | false => cases hrun
      | true =>
        obtain ⟨hobj, hcwd⟩ := ensureDir_spot h hmk
        obtain ⟨hobj', hcwd', hall⟩ := copyEntries_hosts h.hosts (fun e he => ⟨hnames e he, ih e he⟩) []
          hnd hobj hcwd hrun
        exact ⟨hobj', hcwd', .directory (fun e he => (hall e he).1) fun e he => (hall e he).2⟩

/-- What is made of a tree at the store path. -/
def copyOf (path : Path) (t : FileTree) : FileTree := (Snapshot.Share.mk path (some t) true).copy t

lemma copyOf_single {path : Path} (h : t.root ≠ .dir) : copyOf path t = .directory [(baseName path, t)] := by
  cases t with
  | directory es => exact absurd rfl h
  | regular c x => rfl
  | symlink s => rfl

lemma wf_copyOf {path : Path} (hwf : t.Wf) (hname : t.root ≠ .dir → ValidName (baseName path)) : (copyOf path t).Wf := by
  by_cases h : t.root = .dir
  · cases t with
    | directory es => exact hwf
    | _ => cases h
  · have hbase := hname h
    rw [copyOf_single h]
    refine .directory (List.nodup_singleton _) ?_ ?_
    · rw [List.forall_mem_singleton]
      exact hbase
    · rw [List.forall_mem_singleton]
      exact hwf

lemma copyInto_single {path : Path} (h : t.root ≠ .dir) : copyInto env path p t fs =
    if pathMax ≤ (join p (baseName path)).length then (false, fs)
    else copyTree env path (join p (baseName path)) t fs := by
  cases t with
  | directory es => exact absurd rfl h
  | regular c x => rfl
  | symlink s => rfl

/-- **The store path is filled with the copy**, if there is room for it. -/
theorem copyInto_hosts {path : Path} (henv : Honest env) (hwf : t.Wf) (hname : t.root ≠ .dir → ValidName (baseName path))
    (h : Hosts fs p d) (hobj₁ : fs₁.obj = graft fs.obj d (.directory [])) (hcwd₁ : fs₁.cwd = fs.cwd)
    (hrun : copyInto env path p t fs₁ = (true, fs')) :
    fs'.obj = graft fs.obj d (copyOf path t) ∧ fs'.cwd = fs.cwd ∧ (copyOf path t).Fits p := by
  by_cases hdir : t.root = .dir
  · cases hwf with
    | directory hnd hnames hwfs =>
      obtain ⟨hobj, hcwd, hall⟩ := copyEntries_hosts h (fun e he => ⟨hnames e he, copies_of_wf henv (hwfs e he)⟩) []
        hnd hobj₁ hcwd₁ hrun
      exact ⟨hobj, hcwd, .directory (fun e he => (hall e he).1) fun e he => (hall e he).2⟩
    | _ => cases hdir
  · have hbase := hname hdir
    rw [copyInto_single hdir] at hrun
    split_ifs at hrun with hlen
    · cases hrun
    rw [not_le] at hlen
    have hspot := h hobj₁ hcwd₁ List.not_mem_nil hbase hlen
    obtain ⟨hobj, hcwd, hfits⟩ := copies_of_wf henv hwf hspot hrun
    rw [hobj₁, graft_entry List.not_mem_nil] at hobj
    rw [copyOf_single hdir]
    refine ⟨hobj, hcwd.trans hcwd₁, .directory ?_ ?_⟩
    · rw [List.forall_mem_singleton]
      exact hlen
    · rw [List.forall_mem_singleton]
      exact hfits

end Copied

/-! ### A share that was taken -/

/-- A run of `share_take` that has created the path it returns. -/
structure Taken (sha256 : Bytes → Bytes) where
  env : Env
  fs : Fs
  path : Path
  tree : FileTree
  storePath : Path
  fs' : Fs
  loc : Loc
  run : shareTake env sha256 path tree fs = (some storePath, fs')
  resolves : resolve fs false storePath (names storePath) = .ok loc
  missing : fs.obj loc = none
  wf : tree.Wf
  /-- only a directory has a path that ends with a slash or with dots -/
  named : tree.root ≠ .dir → ValidName (baseName path)
  grounded : ∀ l m, (fs.obj (l ++ [m])).isSome → fs.obj l = some .dir
  honest : Honest env

/-- What stands at the store path afterwards. -/
def Taken.copy {sha256 : Bytes → Bytes} (s : Taken sha256) : FileTree := copyOf s.path s.tree

/-- `nar_hash_directory` of what stands at a path. -/
def NarHashAt (sha256 : Bytes → Bytes) (fs : Fs) (p : Path) (hash : Bytes) : Prop :=
  ∃ l t, resolve fs false p (comps p) = .ok l ∧ HoldsTree l t fs ∧ (narHashDirectory sha256 p t).map Prod.fst = some hash

/-- The share is at the address of what stands there, can be pushed and unpacked, and is found again. -/
structure Taken.ContentAddressed {sha256 : Bytes → Bytes} (s : Taken sha256) : Prop where
  again : ∃ hash, NarHashAt sha256 s.fs' s.storePath hash ∧
    storeDir ++ computeStorePath sha256 hash (ascii "share") (baseName s.path) = s.storePath
  pushed : ∀ (key : KeyPair) (up : Uplink) (url : Bytes) (refs : Option (List Bytes)) (server server' : Server)
    (t : FileTree), HoldsTree s.loc t s.fs' → binaryCachePush sha256 key up url s.storePath t refs server = some server' →
      ∃ nar, (∃ narUrl zst, server' narUrl = some zst ∧ up.compress nar = some zst) ∧
        ∀ fs dest d, Destination fs dest d → s.copy.Fits dest → ∃ fs', narExtract .calm dest nar fs = (some [], fs') ∧
          ∀ r, fs'.obj (d ++ r) = s.copy.lookup r
  same : ∀ (env : Env) (fs fs' : Fs) (path storePath : Path) (t : FileTree), t.Wf → t.lookup = s.tree.lookup →
    baseName path = baseName s.path → shareTake env sha256 path t fs = (some storePath, fs') → storePath = s.storePath

/-- The stream of what was shared and the one of what was made of it are not the same, but have one address. -/
def Taken.Collides {sha256 : Bytes → Bytes} (s : Taken sha256) : Prop :=
  ∃ b b', narDump s.path s.tree = some b ∧ narDump s.storePath s.copy = some b' ∧ b ≠ b' ∧
    computeStorePath sha256 (hex (sha256 b)) (ascii "share") (baseName s.path) =
      computeStorePath sha256 (hex (sha256 b')) (ascii "share") (baseName s.path)

section StorePath
variable {sha256 : Bytes → Bytes} {path storePath : Path} {narHash : Bytes} {env : Env} {fs fs' : Fs} {t : FileTree}

lemma slash_notMem_baseName (path : Path) : slash ∉ baseName path := by
  unfold baseName
  rw [List.mem_reverse]
  intro h
  simpa using List.mem_takeWhile_imp h

lemma slash_notMem_computeStorePath : slash ∉ computeStorePath sha256 narHash (ascii "share") (baseName path) := by
  unfold computeStorePath addressed
  simp only [List.mem_append, not_or]
  refine ⟨⟨fun h => ?_, by decide⟩, ⟨by decide, by decide⟩, slash_notMem_baseName path⟩
  exact absurd (mem_base32_of_mem_hash32 h) (by decide)

lemma computeStorePath_ne_nil {name version : Bytes} : computeStorePath sha256 narHash name version ≠ [] := by
  unfold computeStorePath addressed
  simp [ascii]

lemma storeDir_append (n : Bytes) : storeDir ++ n = join (ascii "/nix/store") n := by
  have hdir : storeDir = ascii "/nix/store" ++ [slash] := by decide
  rw [hdir, List.append_assoc]
  rfl

/-- What a run that returns a path has hashed. -/
lemma hash_of_shareTake (h : shareTake env sha256 path t fs = (some storePath, fs')) :
    ∃ b, narDump path t = some b ∧
      storePath = storeDir ++ computeStorePath sha256 (hex (sha256 b)) (ascii "share") (baseName path) := by
  unfold shareTake at h
  split_ifs at h
  · cases h
  cases hdump : narDump path t with
  | none =>
    rw [narHashDirectory, hdump] at h
    cases h
  | some b =>
    refine ⟨b, rfl, ?_⟩
    rw [narHashDirectory, hdump] at h
    dsimp only [Option.map_some] at h
    split_ifs at h
    · cases h
      rfl
    · split at h
      · cases h
      · split at h
        · cases h
          rfl
        · cases h

end StorePath

section Taken
variable {sha256 : Bytes → Bytes} (s : Taken sha256)

lemma Taken.comps_storePath : comps s.storePath = names s.storePath := by
  obtain ⟨b, -, hpath⟩ := hash_of_shareTake s.run
  rw [hpath, storeDir_append, comps_join _ slash_notMem_computeStorePath computeStorePath_ne_nil, names_join,
    names_name slash_notMem_computeStorePath computeStorePath_ne_nil]

/-- The path is that of a spot. -/
lemma Taken.spot : Spot s.fs s.storePath s.loc where
  resolves := s.comps_storePath ▸ s.resolves
  noTrailingSlash := s.comps_storePath
  vacant r := by
    by_cases hr : r = []
    · rw [hr, List.append_nil, s.missing]
    · refine grounded_below s.grounded ?_ hr
      rw [s.missing]
      rintro ⟨⟩

/-- **The store path holds the copy**, and there is room for it. -/
theorem Taken.copied : s.fs'.obj = graft s.fs.obj s.loc s.copy ∧ s.fs'.cwd = s.fs.cwd ∧ s.copy.Fits s.storePath := by
  have hstat : stat s.fs s.storePath = none := by
    have hres : resolve s.fs true s.storePath (comps s.storePath) = .ok s.loc :=
      s.spot.resolve_eq (fun _ _ ho => ho) rfl (.inr (not_isLink_of_none s.missing))
    unfold stat
    rw [hres]
    exact s.missing
  obtain ⟨b, hdump, hpath⟩ := hash_of_shareTake s.run
  have hrun := s.run
  unfold shareTake at hrun
  rw [narHashDirectory, hdump] at hrun
  split_ifs at hrun
  · cases hrun
  dsimp only [Option.map_some] at hrun
  rw [← hpath, hstat, if_neg (by simp)] at hrun
  cases hmk : ensureDir s.env s.fs s.storePath with
  | mk ok fs₁ =>
    rw [hmk] at hrun
    cases ok with
    | false => cases hrun
    | true =>
      dsimp only at hrun
      obtain ⟨hobj₁, hcwd₁⟩ := ensureDir_spot s.spot hmk
      cases hcopy : copyInto s.env s.path s.storePath s.tree fs₁ with
      | mk ok fs₂ =>
        rw [hcopy] at hrun
        cases ok with
        | false => cases hrun
        | true =>
          obtain rfl : fs₂ = s.fs' := (Prod.mk.inj hrun).2
          exact copyInto_hosts s.honest s.wf s.named s.spot.hosts hobj₁ hcwd₁ hcopy

lemma Taken.holds : HoldsTree s.loc s.copy s.fs' := by
  refine ⟨wf_copyOf s.wf s.named, fun r => ?_⟩
  rw [s.copied.1, graft_below]

lemma Taken.resolves' : resolve s.fs' false s.storePath (comps s.storePath) = .ok s.loc := by
  refine s.spot.resolve_eq (fun l o ho => ?_) s.copied.2.1 (.inl rfl)
  have hout : ¬ s.loc <+: l := by
    rintro ⟨r, rfl⟩
    rw [s.spot.vacant r] at ho
    cases ho
  rw [s.copied.1, graft_outside hout, ho]

/-- Whatever the order in which its directories are listed, the store path has one stream. -/
lemma Taken.narDump_eq {t : FileTree} (h : HoldsTree s.loc t s.fs') :
    ∃ b, narDump s.storePath t = some b ∧ narDump s.storePath s.copy = some b ∧ t.lookup = s.copy.lookup := by
  have hlookup : t.lookup = s.copy.lookup := by
    funext r
    rw [← h.2 r, s.holds.2 r]
  obtain ⟨hne, hlen, -⟩ := resolve_ok s.resolves
  have hsome : ∀ {u : FileTree}, u.Fits s.storePath → ∃ b, narDump s.storePath u = some b := by
    intro u hfits
    obtain ⟨b, hb⟩ := Option.isSome_iff_exists.1 ((dumpNode_isSome s.storePath u).2 hfits)
    refine ⟨line tokMagic ++ b, ?_⟩
    unfold narDump
    rw [if_neg (by rintro (h | h); exacts [hne h, by omega]), hb]
    rfl
  obtain ⟨b, hb⟩ := hsome s.copied.2.2
  obtain ⟨c, hc⟩ := hsome (fits_congr s.holds.1 h.1 hlookup.symm s.copied.2.2)
  obtain rfl := (narDump_eq_iff h.1 s.holds.1 hc hb).2 hlookup
  exact ⟨c, hc, hb, hlookup⟩

/-- The hash of the store path is that of the copy. -/
lemma Taken.narHashAt_iff {hash : Bytes} : NarHashAt sha256 s.fs' s.storePath hash ↔
    ∃ b, narDump s.storePath s.copy = some b ∧ hash = hex (sha256 b) := by
  constructor
  · rintro ⟨l, t, hl, ht, hhash⟩
    obtain rfl : l = s.loc := Except.ok.inj (hl.symm.trans s.resolves')
    obtain ⟨b, hb, hcopy, -⟩ := s.narDump_eq ht
    refine ⟨b, hcopy, ?_⟩
    rw [narHashDirectory, hb] at hhash
    cases hhash
    rfl
  · rintro ⟨b, hb, rfl⟩
    refine ⟨s.loc, s.copy, s.resolves', s.holds, ?_⟩
    rw [narHashDirectory, hb]
    rfl

/-- **What is pushed** unpacks to what the store path holds. -/
lemma Taken.pushed {key : KeyPair} {up : Uplink} {url : Bytes} {refs : Option (List Bytes)} {server server' : Server}
    {t : FileTree} (h : HoldsTree s.loc t s.fs')
    (hpush : binaryCachePush sha256 key up url s.storePath t refs server = some server') :
    ∃ nar, (∃ narUrl zst, server' narUrl = some zst ∧ up.compress nar = some zst) ∧
      ∀ fs dest d, Destination fs dest d → s.copy.Fits dest → ∃ fs', narExtract .calm dest nar fs = (some [], fs') ∧
        ∀ r, fs'.obj (d ++ r) = s.copy.lookup r := by
  obtain ⟨hash, nar, zst, text, hp⟩ := hasPushed_of_push hpush
  obtain ⟨b, hb, hcopy, -⟩ := s.narDump_eq h
  obtain rfl : nar = b := Option.some.inj (hp.dump.symm.trans hb)
  refine ⟨nar, ⟨_, zst, hp.narAt, hp.compressed⟩, fun fs dest d hdest hfits => ?_⟩
  obtain ⟨es, hes⟩ : ∃ es, s.copy = .directory es := by
    unfold Taken.copy
    cases s.tree with
    | directory es => exact ⟨es, rfl⟩
    | regular c x => exact ⟨_, rfl⟩
    | symlink t => exact ⟨_, rfl⟩
  have hwf := s.holds.1
  rw [hes] at hcopy hfits hwf ⊢
  obtain ⟨fs', hext, hobj⟩ := narExtract_destination hwf hcopy hfits hdest
  refine ⟨fs', hext, fun r => ?_⟩
  rw [hobj, graft_below]

/-- **The same content under the same name** is found at the same path. -/
lemma Taken.same {env : Env} {fs fs' : Fs} {path storePath : Path} {t : FileTree} (hwf : t.Wf)
    (hlookup : t.lookup = s.tree.lookup) (hbase : baseName path = baseName s.path)
    (hrun : shareTake env sha256 path t fs = (some storePath, fs')) : storePath = s.storePath := by
  obtain ⟨b, hb, hpath⟩ := hash_of_shareTake hrun
  obtain ⟨c, hc, hpath'⟩ := hash_of_shareTake s.run
  obtain rfl := (narDump_eq_iff hwf s.wf hb hc).2 hlookup
  rw [hpath, hpath', hbase]

/-- **A share is at the address of what stands there** if it was made of a directory, and else by chance only. -/
theorem contentAddressed_iff (sha256 : Bytes → Bytes) (s : Taken sha256) :
    s.ContentAddressed ↔ s.tree.root = .dir ∨ s.Collides := by
  obtain ⟨b, hb, hpath⟩ := hash_of_shareTake s.run
  obtain ⟨b', -, hb', -⟩ := s.narDump_eq s.holds
  constructor
  · rintro ⟨⟨hash, hat, hagain⟩, -, -⟩
    by_cases hdir : s.tree.root = .dir
    · exact .inl hdir
    · obtain ⟨c, hc, rfl⟩ := s.narHashAt_iff.1 hat
      obtain rfl := Option.some.inj (hb'.symm.trans hc)
      refine .inr ⟨b, b', hb, hb', fun heq => ?_, ?_⟩
      · have hlookup := congrFun ((narDump_eq_iff s.wf s.holds.1 hb hb').1 heq) []
        unfold Taken.copy at hlookup
        rw [copyOf_single hdir, FileTree.lookup_nil, FileTree.lookup_nil] at hlookup
        exact hdir (Option.some.inj hlookup)
      · rw [hpath] at hagain
        exact (List.append_cancel_left hagain).symm
  · intro h
    refine ⟨⟨hex (sha256 b'), s.narHashAt_iff.2 ⟨b', hb', rfl⟩, ?_⟩, fun _ _ _ _ _ _ _ ht hpush => s.pushed ht hpush,
      fun _ _ _ _ _ _ hwf hlookup hbase hrun => s.same hwf hlookup hbase hrun⟩
    rw [hpath]
    rcases h with hdir | ⟨c, c', hc, hc', -, haddr⟩
    · have hcopy : s.copy = s.tree := by
        unfold Taken.copy
        cases htree : s.tree with
        | directory es => rfl
        | _ =>
          rw [htree] at hdir
          cases hdir
      rw [hcopy] at hb'
      rw [(narDump_eq_iff s.wf s.wf hb' hb).2 rfl]
    · obtain rfl := Option.some.inj (hb.symm.trans hc)
      obtain rfl := Option.some.inj (hb'.symm.trans hc')
      rw [haddr]

/-- **The bookkeeping of shares** puts what the copy leaves at the store path. -/
theorem Taken.refines (n : StoreName) (hn : s.storePath = storeDir ++ n.val) (st : Snapshot.State)
    (hst : st.world.store.lookup n = none) : Snapshot.shareTake sha256 ⟨s.path, some s.tree, true⟩ st =
      ((st.put n ⟨s.copy, true⟩).share n, some n) := by
  obtain ⟨b, hb, hpath⟩ := hash_of_shareTake s.run
  have hslash : s.path.head? = some slash := by
    have hrun := s.run
    unfold shareTake at hrun
    split_ifs at hrun with h
    · cases hrun
    · exact not_not.1 h
  have hname : entryName? (computeStorePath sha256 (hex (sha256 b)) (ascii "share") (baseName s.path)) = some n := by
    rw [← List.append_cancel_left (hn.symm.trans hpath), entryName?, dif_pos n.valid]
  have haddr : (Snapshot.Share.mk s.path (some s.tree) true).address sha256 = some (s.tree, n) := by
    unfold Snapshot.Share.address
    dsimp only
    rw [if_pos hslash]
    show (narHashDirectory sha256 s.path s.tree).bind _ = _
    rw [narHashDirectory, hb]
    show (entryName? _).bind _ = _
    rw [hname]
    rfl
  unfold Snapshot.shareTake
  rw [haddr]
  dsimp only
  rw [hst]
  rfl

end Taken

/-! ### A file -/

/-- Stands in for the hash. -/
def checksum (b : Bytes) : Bytes := List.replicate 32 (b.foldl (fun a x => a * 31 + x) 7)

/-- An empty store. -/
def storeFs : Fs where
  obj l := if l ∈ [[], [ascii "nix"], [ascii "nix", ascii "store"]] then some .dir else none
  cwd := []
  touched := []

/-- `209 share /f` of a file -/
def fileRun : Option Path × Fs := shareTake .calm checksum (ascii "/f") (.regular (ascii "x") false) storeFs

lemma eq_of_fst {r : Option Path × Fs} {p : Path} (h : r.1 = some p) : r = (some p, r.2) := by
  rw [← h]

lemma fileRun_eq : fileRun = (some (ascii "/nix/store/3sh6l1d83sh6l1d83sh6l1d83sh6l1d8-share-f"), fileRun.2) :=
  eq_of_fst (by decide +kernel)

/-- The file is shared. -/
def fileTaken : Taken checksum where
  env := .calm
  fs := storeFs
  path := ascii "/f"
  tree := .regular (ascii "x") false
  storePath := ascii "/nix/store/3sh6l1d83sh6l1d83sh6l1d83sh6l1d8-share-f"
  fs' := fileRun.2
  loc := [ascii "nix", ascii "store", ascii "3sh6l1d83sh6l1d83sh6l1d83sh6l1d8-share-f"]
  run := fileRun_eq
  resolves := by decide +kernel
  missing := by decide +kernel
  wf := .regular (by decide)
  named _ := ⟨by decide, by decide, by decide, by decide, by decide, by decide⟩
  grounded := by
    intro l m h
    simp only [storeFs, List.mem_cons, List.not_mem_nil, or_false] at h ⊢
    split_ifs at h with hmem
    · rcases hmem with hmem | hmem | hmem
      · simp at hmem
      · obtain rfl : l = [] := by simpa using congrArg List.dropLast hmem
        rfl
      · obtain rfl : l = [ascii "nix"] := by simpa using congrArg List.dropLast hmem
        rfl
    · cases h
  honest _ _ := rfl

/-- **A file has another address** than the directory that was made for it. -/
theorem file_not_at_address : ¬ fileTaken.ContentAddressed := by
  rintro ⟨⟨hash, hat, hagain⟩, -, -⟩
  obtain ⟨b, hb, rfl⟩ := fileTaken.narHashAt_iff.1 hat
  have haddr : (narDump fileTaken.storePath fileTaken.copy).map
      (fun b => storeDir ++ computeStorePath checksum (hex (checksum b)) (ascii "share") (ascii "f")) ≠
        some fileTaken.storePath := by decide +kernel
  rw [hb] at haddr
  exact haddr (congrArg some hagain)

end Two09.Share
