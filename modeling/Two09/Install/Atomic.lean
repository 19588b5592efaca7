import Two09.Install.Extract

/-!
# `store_add_named`

The direct backend with its temporary directory: three ways to unpack the archive, all into the same
directory, then the hash, and one `rename`. A crash can come between any two of its acts.
-/

namespace Two09.Install

open Two09.Lib Two09.Lib.Posix Two09.Nar Two09.Store

/-- `/nix/store`, and in its `.tmp` the directory of this process, if it is there. -/
structure AddState where
  store : StoreDir
  temp : Option (List (Name × FileTree))

inductive AddAct
  | statLegacy
  | rmtree
  | mkdir
  | tar (method : Nat)
  | narHash
  | statFinal
  | rmdir
  | rename
  deriving DecidableEq, Repr

/-- What comes of an add: the process may die of the signal that it has caught. -/
inductive AddResult
  | failed
  | killed
  | added (a : Added)

/-- What is outside the program: whether each of the three commands exits with 0, what it makes of the
temporary directory as it finds it, whether a signal arrives meanwhile, and what else fails. -/
structure Extraction where
  tar : Nat → List (Name × FileTree) → Bool × List (Name × FileTree)
  signal : Nat → Bool
  mkdirFails : Bool
  renameFails : Bool

/-- How the commands went. -/
inductive Unpacking
  | done
  | failed
  | interrupted
  deriving DecidableEq, Repr

/-- The name and the version as they fit into their buffers. -/
def Package.buffered (pkg : Package) : Package :=
  { pkg with name := pkg.name.take 255, version := pkg.version.take 127 }

/-- The package, with other contents. -/
def Package.holding (pkg : Package) (contents : List (Name × FileTree)) : Package :=
  { pkg with contents := contents }

/-! ### The program -/

section Add
variable (env : Env) (x : Extraction) (pkg : Package)

/-- `rmtree` of the temporary directory. -/
def rmtree : Prog AddState AddAct Unit := .modify .rmtree fun s => { s with temp := none }

/-- `mkdir` of the temporary directory, which fails where the label is no name of an entry. -/
def mkdirTemp : Prog AddState AddAct Bool :=
  let ok := !x.mkdirFails && (entryName? pkg.legacyName).isSome
  .step .mkdir (fun s => if ok then { s with temp := some [] } else s) fun _ => ok

/-- `system("tar …")` -/
def tar (method : Nat) : Prog AddState AddAct Bool :=
  .step (.tar method) (fun s => { s with temp := s.temp.map fun c => (x.tar method c).2 })
    fun s => (x.tar method (s.temp.getD [])).1

/-- One method after the other, until one succeeds or a signal has come. -/
def unpackInto : List Nat → Prog AddState AddAct Unpacking
  | [] => .ret .failed
  | k :: ks => (tar x k).bind fun ok =>
    if x.signal k then .ret .interrupted
    else if ok then .ret .done
    else unpackInto ks

/-- The temporary directory can be renamed to where nothing or an empty directory is. -/
def Renames (n : StoreName) (s : AddState) : Prop :=
  x.renameFails = false ∧ (s.store.lookup n).all isEmpty = true

instance (n : StoreName) (s : AddState) : Decidable (Renames x n s) :=
  inferInstanceAs (Decidable (_ ∧ _))

/-- `rename` of the temporary directory. -/
def renameTemp (n : StoreName) (t : FileTree) : Prog AddState AddAct Bool :=
  .step .rename (fun s => if Renames x n s then ⟨s.store.insert n ⟨t, true⟩, none⟩ else s)
    fun s => decide (Renames x n s)

/-- The last step of `direct_extract`. -/
def finishAdd (n : StoreName) : Prog AddState AddAct AddResult :=
  (renameTemp x n pkg.tree).bind fun
  | true => .ret (.added ⟨n, pkg.narHash env⟩)
  | false => rmtree.bind fun _ => .ret .failed

/-- What is at the address, if it is a directory. -/
def dirAt (n : StoreName) (s : AddState) : Option Entry := (s.store.lookup n).filter Entry.isDir

/-- The steps of `direct_extract` once it has the address. -/
def placeAt (n : StoreName) : Prog AddState AddAct AddResult :=
  (Prog.read .statFinal (dirAt n)).bind fun
  | none => finishAdd env x pkg n
  | some e =>
    if marked e then rmtree.bind fun _ => .ret (.added ⟨n, pkg.narHash env⟩)
    else if isEmpty e then
      (Prog.modify .rmdir fun s : AddState => { s with store := s.store.erase n }).bind fun _ =>
        finishAdd env x pkg n
    else rmtree.bind fun _ => .ret (.added ⟨n, none⟩)

def placeAdd : Prog AddState AddAct AddResult :=
  match pkg.finalName env with
  | none => rmtree.bind fun _ => .ret .failed
  | some n => placeAt env x pkg n

/-- A complete package at the path without an address, in the store of an add. -/
def legacyIn (store : StoreDir) : Option StoreName :=
  (entryName? pkg.legacyName).filter fun n => (store.lookup n).any fun e => e.isDir && marked e

/-- `direct_extract` as far as the unpacked tree, unless it returns before. -/
def extractAdd : Prog AddState AddAct (AddResult ⊕ List (Name × FileTree)) :=
  (Prog.read .statLegacy fun s : AddState => legacyIn pkg s.store).bind fun
  | some n => .ret (.inl (.added ⟨n, none⟩))
  | none =>
    rmtree.bind fun _ => (mkdirTemp x pkg).bind fun
    | false => .ret (.inl .failed)
    | true => (unpackInto x [0, 1, 2]).bind fun
      | .interrupted => rmtree.bind fun _ => .ret (.inl .killed)
      | .failed => rmtree.bind fun _ => .ret (.inl .failed)
      | .done => Prog.read .narHash fun s : AddState => .inr (s.temp.getD [])

/-- `direct_extract` -/
def storeAdd : Prog AddState AddAct AddResult :=
  (extractAdd x pkg).bind fun
  | .inl r => .ret r
  | .inr contents => placeAdd env x (pkg.holding contents)

/-- `store_add_named` with the direct backend. -/
def storeAddNamed : Prog AddState AddAct AddResult := storeAdd env x pkg.buffered

/-! ### What is asked of an add -/

/-- The tree has the NAR hash. -/
def HasNarHash (t : FileTree) (h : Bytes × Nat) : Prop :=
  ∃ path, narHashDirectory env.sha256 path t = some h

/-- Every directory with an address holds the tree that its hash names. -/
def Addressed (store : StoreDir) : Prop :=
  ∀ n e digest label, store.lookup n = some e → e.isDir = true → digest.length = 32 →
    n.val = digest ++ ascii "-" ++ label →
      ∃ h, HasNarHash env e.tree h ∧ n.val = addressed env.sha256 h.1 label

/-- The commands one after the other in a directory with the given contents. -/
def unpackedBy : List Nat → List (Name × FileTree) → Unpacking × List (Name × FileTree)
  | [], c => (.failed, c)
  | k :: ks, c =>
    if x.signal k then (.interrupted, (x.tar k c).2)
    else if (x.tar k c).1 then (.done, (x.tar k c).2)
    else unpackedBy ks (x.tar k c).2

/-- What the commands leave in the temporary directory, if they succeed. -/
def unpacked : Option (List (Name × FileTree)) :=
  if !x.mkdirFails && (entryName? pkg.legacyName).isSome then
    match unpackedBy x [0, 1, 2] [] with
    | (.done, c) => some c
    | _ => none
  else none

/-- The unpacked tree can be hashed. -/
def Hashable : Prop := ∀ c, unpacked x pkg = some c → ((pkg.holding c).narHash env).isSome = true

/-- **An add is atomic**: it returns the address of what the archive extracts to, with the hash, or it
leaves the store as it was; and wherever it is cut off, the store is as before or as after it. -/
structure AtomicAdd (s : AddState) : Prop where
  added : ∀ a s', (storeAddNamed env x pkg).run s = (.added a, s') → Hashable env x pkg →
    ∃ e h, s'.store.lookup a.path = some e ∧ e.isDir = true ∧ e.tree.lookup = pkg.tree.lookup ∧
      HasNarHash env e.tree h ∧ a.hash = some h ∧
        a.path.val = computeStorePath env.sha256 h.1 pkg.name pkg.version
  unchanged : ∀ r s', (storeAddNamed env x pkg).run s = (r, s') → (∀ a, r ≠ .added a) →
    s'.store = s.store
  crash : ∀ ls s', (storeAddNamed env x pkg).Reaches s ls s' →
    s'.store = s.store ∨ s'.store = ((storeAddNamed env x pkg).run s).2.store
  addressed : Hashable env x pkg → Addressed env s.store → ∀ ls s',
    (storeAddNamed env x pkg).Reaches s ls s' → Addressed env s'.store

/-- What an add relies on: the commands leave what the archive extracts to; and if its address is taken
by a directory, then by the same tree, with a `.PKGINFO`. -/
def Settled (s : AddState) : Prop :=
  ∀ c h n, unpacked x pkg = some c → (pkg.holding c).narHash env = some h →
    (pkg.holding c).finalName env = some n →
      match dirAt n s with
      | none => x.renameFails = false → s.store.lookup n = none →
          (FileTree.directory c).lookup = pkg.tree.lookup
      | some e => marked e = true ∧ e.tree.lookup = pkg.tree.lookup ∧ HasNarHash env e.tree h

end Add

/-! ### Unpacking -/

section Unpacking
variable {x : Extraction} {pkg : Package} {s s' : AddState} {ls : List AddAct}

lemma unpackInto_run (ks : List Nat) (store : StoreDir) (c : List (Name × FileTree)) :
    (unpackInto x ks).run ⟨store, some c⟩ =
      ((unpackedBy x ks c).1, ⟨store, some (unpackedBy x ks c).2⟩) := by
  induction ks generalizing c with
  | nil => rfl
  | cons k ks ih =>
    have htar : (tar x k).run ⟨store, some c⟩ = ((x.tar k c).1, ⟨store, some (x.tar k c).2⟩) := rfl
    rw [unpackInto, Prog.run_bind, htar, unpackedBy]
    split_ifs with hsignal hok
    · rfl
    · rfl
    · exact ih _

/-- **Before anything is placed**, the store is as it was. -/
lemma extractAdd_run (hlegacy : legacyIn pkg s.store = none) :
    ∃ r temp, (extractAdd x pkg).run s = (r, ⟨s.store, temp⟩) ∧
      match unpacked x pkg with
      | none => r = .inl .failed ∨ r = .inl .killed
      | some c => r = .inr c := by
  have hstart : (extractAdd x pkg).run s = ((mkdirTemp x pkg).bind fun
      | false => .ret (.inl .failed)
      | true => (unpackInto x [0, 1, 2]).bind fun
        | .interrupted => rmtree.bind fun _ => .ret (.inl .killed)
        | .failed => rmtree.bind fun _ => .ret (.inl .failed)
        | .done => Prog.read .narHash fun s : AddState => .inr (s.temp.getD [])).run ⟨s.store, none⟩ := by
    rw [extractAdd, Prog.run_bind, Prog.run_read, hlegacy]
    rfl
  rw [hstart, Prog.run_bind, mkdirTemp, Prog.run_step, unpacked]
  cases hmk : !x.mkdirFails && (entryName? pkg.legacyName).isSome with
  | false => exact ⟨_, none, rfl, .inl rfl⟩
  | true =>
    simp only [if_true, Prog.run_bind, unpackInto_run]
    generalize unpackedBy x [0, 1, 2] [] = u
    obtain ⟨u, c⟩ := u
    cases u with
    | done => exact ⟨_, some c, rfl, rfl⟩
    | failed => exact ⟨_, none, rfl, .inl rfl⟩
    | interrupted => exact ⟨_, none, rfl, .inr rfl⟩

/-- The act leaves the store alone. -/
def KeepsStore (_ : AddAct) (f : AddState → AddState) : Prop := ∀ s, (f s).store = s.store

lemma unpackInto_keeps (ks : List Nat) : (unpackInto x ks).All KeepsStore := by
  induction ks with
  | nil => exact .ret
  | cons k ks ih =>
    refine .act (fun s => rfl) fun s => ?_
    show (if x.signal k then Prog.ret Unpacking.interrupted else _).All KeepsStore
    split_ifs
    · exact .ret
    · exact .ret
    · exact ih

lemma extractAdd_keeps : (extractAdd x pkg).All KeepsStore := by
  refine .act (fun s => rfl) fun s => ?_
  show (match legacyIn pkg s.store with
    | some n => Prog.ret _
    | none => _ : Prog AddState AddAct (AddResult ⊕ List (Name × FileTree))).All KeepsStore
  cases legacyIn pkg s.store with
  | some n => exact .ret
  | none =>
    refine .act (fun s => rfl) fun s => .act (fun s => ?_) fun s => ?_
    · split_ifs <;> rfl
    · show (match (!x.mkdirFails && (entryName? pkg.legacyName).isSome) with
        | false => Prog.ret _
        | true => _ : Prog AddState AddAct (AddResult ⊕ List (Name × FileTree))).All KeepsStore
      cases !x.mkdirFails && (entryName? pkg.legacyName).isSome with
      | false => exact .ret
      | true =>
        refine (unpackInto_keeps _).bind fun u => ?_
        cases u with
        | done => exact .act (fun s => rfl) fun s => .ret
        | failed => exact .act (fun s => rfl) fun s => .ret
        | interrupted => exact .act (fun s => rfl) fun s => .ret

lemma extractAdd_store (h : (extractAdd x pkg).Reaches s ls s') : s'.store = s.store := by
  refine extractAdd_keeps.rel_of_reaches (R := fun s s' => s'.store = s.store) ?_ ?_ ?_ h
  · exact fun s => rfl
  · exact fun s t u h₁ h₂ => Eq.trans h₂ h₁
  · exact fun i f hf s => hf s

end Unpacking

/-! ### Placing -/

section Placing
variable {env : Env} {x : Extraction} {pkg : Package} {s s' : AddState} {ls : List AddAct}
  {n : StoreName} {e : Entry}

lemma reaches_read {α : Type} {i : AddAct} {r : AddState → α} {k : α → Prog AddState AddAct AddResult}
    (h : ((Prog.read i r).bind k).Reaches s ls s') : s' = s ∨ ∃ ls', (k (r s)).Reaches s ls' s' := by
  rcases Prog.reaches_act.1 h with ⟨-, rfl⟩ | ⟨ls', -, h⟩
  · exact .inl rfl
  · exact .inr ⟨ls', h⟩

/-- `rmtree` at the end of an add. -/
lemma reaches_rmtree {r : AddResult} (h : (rmtree.bind fun _ => .ret r).Reaches s ls s') :
    s'.store = s.store := by
  rcases Prog.reaches_act.1 h with ⟨-, rfl⟩ | ⟨ls', -, h⟩
  · rfl
  · obtain ⟨-, rfl⟩ := Prog.reaches_ret.1 h
    rfl

lemma finishAdd_run (env : Env) (x : Extraction) (pkg : Package) (n : StoreName) (s : AddState) :
    (finishAdd env x pkg n).run s = if Renames x n s then
      (.added ⟨n, pkg.narHash env⟩, ⟨s.store.insert n ⟨pkg.tree, true⟩, none⟩)
      else (.failed, { s with temp := none }) := by
  rw [finishAdd, Prog.run_bind, renameTemp, Prog.run_step]
  by_cases h : Renames x n s
  · rw [if_pos h, if_pos h, decide_eq_true h]
    rfl
  · rw [if_neg h, if_neg h, decide_eq_false h]
    rfl

/-- **One `rename` makes the difference.** -/
lemma finishAdd_reaches (h : (finishAdd env x pkg n).Reaches s ls s') :
    s'.store = s.store ∨ s'.store = ((finishAdd env x pkg n).run s).2.store := by
  rw [finishAdd_run]
  rcases Prog.reaches_act.1 h with ⟨-, rfl⟩ | ⟨ls', -, h⟩
  · exact .inl rfl
  · by_cases hr : Renames x n s
    · simp only [if_pos hr] at h ⊢
      simp only [decide_eq_true hr] at h
      obtain ⟨-, rfl⟩ := Prog.reaches_ret.1 h
      exact .inr rfl
    · simp only [if_neg hr] at h ⊢
      simp only [decide_eq_false hr] at h
      exact .inl (reaches_rmtree h)

lemma placeAt_run (env : Env) (x : Extraction) (pkg : Package) (n : StoreName) (s : AddState) :
    (placeAt env x pkg n).run s = match dirAt n s with
      | none => (finishAdd env x pkg n).run s
      | some e =>
        if marked e then (.added ⟨n, pkg.narHash env⟩, { s with temp := none })
        else if isEmpty e then (finishAdd env x pkg n).run { s with store := s.store.erase n }
        else (.added ⟨n, none⟩, { s with temp := none }) := by
  rw [placeAt, Prog.run_bind, Prog.run_read]
  cases dirAt n s with
  | none => rfl
  | some e =>
    by_cases hm : marked e = true
    · simp only [if_pos hm]
      rfl
    · by_cases he : isEmpty e = true
      · simp only [if_neg hm, if_pos he]
        rfl
      · simp only [if_neg hm, if_neg he]
        rfl

/-- Where placing can be cut off. -/
lemma placeAt_reaches (h : (placeAt env x pkg n).Reaches s ls s') :
    s'.store = s.store ∨ s'.store = ((placeAt env x pkg n).run s).2.store ∨
      s'.store = s.store.erase n ∧ ∃ e, dirAt n s = some e ∧ marked e = false ∧ isEmpty e = true := by
  rw [placeAt_run]
  rcases reaches_read h with rfl | ⟨ls', h⟩
  · exact .inl rfl
  · cases hdir : dirAt n s with
    | none =>
      rw [hdir] at h
      rcases finishAdd_reaches h with h | h
      · exact .inl h
      · exact .inr (.inl h)
    | some e =>
      rw [hdir] at h
      by_cases hm : marked e = true
      · simp only [if_pos hm] at h
        exact .inl (reaches_rmtree h)
      · by_cases he : isEmpty e = true
        · simp only [if_neg hm, if_pos he] at h ⊢
          rcases Prog.reaches_act.1 h with ⟨-, rfl⟩ | ⟨ls', -, h⟩
          · exact .inl rfl
          · rcases finishAdd_reaches h with h | h
            · exact .inr (.inr ⟨h, e, rfl, Bool.eq_false_of_not_eq_true hm, he⟩)
            · exact .inr (.inl h)
        · simp only [if_neg hm, if_neg he] at h
          exact .inl (reaches_rmtree h)

/-- **Between `rmdir` and `rename`** nothing is at the address. -/
lemma placeAt_erases (env : Env) (x : Extraction) (pkg : Package) (hdir : dirAt n s = some e) (hm : marked e = false)
    (he : isEmpty e = true) :
    ∃ ls s', (placeAt env x pkg n).Reaches s ls s' ∧ s'.store = s.store.erase n := by
  refine ⟨[.statFinal, .rmdir], { s with store := s.store.erase n }, ?_, rfl⟩
  refine Prog.reaches_act.2 (.inr ⟨[.rmdir], rfl, ?_⟩)
  show Prog.Reaches (match dirAt n s with
    | none => finishAdd env x pkg n
    | some e => _) s _ _
  rw [hdir]
  simp only [hm, Bool.false_eq_true, if_false, he, if_true]
  exact Prog.reaches_act.2 (.inr ⟨[], rfl, .start⟩)

end Placing

/-! ### The whole of an add -/

section Whole
variable {env : Env} {x : Extraction} {pkg : Package} {s s' : AddState} {ls : List AddAct}
  {c : List (Name × FileTree)} {n : StoreName} {h : Bytes × Nat}

/-- An add whose archive cannot be unpacked. -/
lemma storeAdd_of_not_unpacked (env : Env) (hlegacy : legacyIn pkg s.store = none) (hun : unpacked x pkg = none) :
    (∃ r temp, (storeAdd env x pkg).run s = (r, ⟨s.store, temp⟩) ∧ ∀ a, r ≠ .added a) ∧
      ∀ ls s', (storeAdd env x pkg).Reaches s ls s' → s'.store = s.store := by
  obtain ⟨r, temp, hrun, hr⟩ := extractAdd_run (x := x) hlegacy
  rw [hun] at hr
  have hret : ∃ r', r = .inl r' ∧ ∀ a, r' ≠ .added a := by
    rcases hr with rfl | rfl
    · exact ⟨_, rfl, fun a => AddResult.noConfusion⟩
    · exact ⟨_, rfl, fun a => AddResult.noConfusion⟩
  obtain ⟨r', rfl, hr'⟩ := hret
  refine ⟨⟨r', temp, ?_, hr'⟩, fun ls s' hreach => ?_⟩
  · rw [storeAdd, Prog.run_bind, hrun]
    rfl
  · rcases Prog.Reaches.of_bind hreach with hreach | ⟨ls', -, hreach⟩
    · exact extractAdd_store hreach
    · rw [hrun] at hreach
      obtain ⟨-, rfl⟩ := Prog.reaches_ret.1 hreach
      rfl

/-- **An add whose archive can be unpacked** comes to placing what was unpacked. -/
lemma storeAdd_of_unpacked (env : Env) (hlegacy : legacyIn pkg s.store = none) (hun : unpacked x pkg = some c) :
    ∃ s₁ : AddState, s₁.store = s.store ∧
      (storeAdd env x pkg).run s = (placeAdd env x (pkg.holding c)).run s₁ ∧
      (∀ ls s', (storeAdd env x pkg).Reaches s ls s' →
        s'.store = s.store ∨ ∃ ls', (placeAdd env x (pkg.holding c)).Reaches s₁ ls' s') ∧
      ∀ ls s', (placeAdd env x (pkg.holding c)).Reaches s₁ ls s' →
        ∃ ls', (storeAdd env x pkg).Reaches s ls' s' := by
  obtain ⟨r, temp, hrun, hr⟩ := extractAdd_run (x := x) hlegacy
  rw [hun] at hr
  subst hr
  refine ⟨⟨s.store, temp⟩, rfl, ?_, fun ls s' hreach => ?_, fun ls s' hreach => ?_⟩
  · rw [storeAdd, Prog.run_bind, hrun]
  · rcases Prog.Reaches.of_bind hreach with hreach | ⟨ls', -, hreach⟩
    · exact .inl (extractAdd_store hreach)
    · rw [hrun] at hreach
      exact .inr ⟨ls', hreach⟩
  · refine ⟨(extractAdd x pkg).labels s ++ ls, Prog.Reaches.bind ?_⟩
    rw [hrun]
    exact hreach

/-! ### Addresses -/

lemma finalName_of_narHash (hhash : pkg.narHash env = some h) (hname : pkg.finalName env = some n) :
    n.val = computeStorePath env.sha256 h.1 pkg.name pkg.version := by
  rw [Package.finalName, hhash, entryName?] at hname
  split_ifs at hname
  obtain rfl := Option.some.inj hname
  rfl

lemma addressed_erase (haddr : Addressed env s.store) : Addressed env (s.store.erase n) := by
  intro m e digest label hlook hdir hlen hval
  by_cases hm : m = n
  · subst hm
    rw [AList.lookup_erase] at hlook
    cases hlook
  · rw [AList.lookup_erase_ne hm] at hlook
    exact haddr m e digest label hlook hdir hlen hval

/-- What is placed at its address has it. -/
lemma addressed_insert (haddr : Addressed env s.store) (hhash : pkg.narHash env = some h)
    (hname : pkg.finalName env = some n) : Addressed env (s.store.insert n ⟨pkg.tree, true⟩) := by
  intro m e digest label hlook hdir hlen hval
  by_cases hm : m = n
  · subst hm
    rw [AList.lookup_insert] at hlook
    obtain rfl := Option.some.inj hlook
    refine ⟨h, ⟨_, hhash⟩, ?_⟩
    have hfinal := finalName_of_narHash hhash hname
    rw [computeStorePath, addressed] at hfinal
    rw [hval] at hfinal
    have hdash : digest ++ (ascii "-" ++ label) = hash32 (env.sha256 (fingerprint h.1
        (pkg.name ++ ascii "-" ++ pkg.version))) ++ (ascii "-" ++ (pkg.name ++ ascii "-" ++ pkg.version)) := by
      simpa only [List.append_assoc] using hfinal
    obtain ⟨hdigest, hlabel⟩ := List.append_inj hdash (by rw [hlen, length_hash32])
    obtain rfl := List.append_cancel_left hlabel
    rw [hval, hdigest, addressed]
  · rw [AList.lookup_insert_ne hm] at hlook
    exact haddr m e digest label hlook hdir hlen hval

lemma finishAdd_addressed (haddr : Addressed env s.store) (hhash : pkg.narHash env = some h)
    (hname : pkg.finalName env = some n) : Addressed env ((finishAdd env x pkg n).run s).2.store := by
  rw [finishAdd_run]
  split_ifs
  · exact addressed_insert haddr hhash hname
  · exact haddr

/-- **Whatever is placed**, every address names what it holds. -/
lemma placeAt_addressed (haddr : Addressed env s.store) (hhash : pkg.narHash env = some h)
    (hname : pkg.finalName env = some n) (hreach : (placeAt env x pkg n).Reaches s ls s') :
    Addressed env s'.store := by
  have hend : Addressed env ((placeAt env x pkg n).run s).2.store := by
    rw [placeAt_run]
    cases dirAt n s with
    | none => exact finishAdd_addressed haddr hhash hname
    | some e =>
      show Addressed env (if marked e then _ else _ : AddResult × AddState).2.store
      split_ifs
      · exact haddr
      · exact finishAdd_addressed (addressed_erase haddr) hhash hname
      · exact haddr
  rcases placeAt_reaches hreach with h | h | ⟨h, -⟩
  · rw [h]
    exact haddr
  · rw [h]
    exact hend
  · rw [h]
    exact addressed_erase haddr

lemma storeAdd_addressed (hlegacy : legacyIn pkg s.store = none) (hhash : Hashable env x pkg)
    (haddr : Addressed env s.store) (hreach : (storeAdd env x pkg).Reaches s ls s') :
    Addressed env s'.store := by
  cases hun : unpacked x pkg with
  | none =>
    rw [(storeAdd_of_not_unpacked env hlegacy hun).2 ls s' hreach]
    exact haddr
  | some c =>
    obtain ⟨s₁, hs₁, -, hcut, -⟩ := storeAdd_of_unpacked env hlegacy hun
    rw [← hs₁] at haddr hcut
    rcases hcut ls s' hreach with h | ⟨ls', h⟩
    · rw [h]
      exact haddr
    · obtain ⟨hc, hcs⟩ := Option.isSome_iff_exists.1 (hhash c hun)
      rw [placeAdd] at h
      cases hname : (pkg.holding c).finalName env with
      | none =>
        rw [hname] at h
        rw [reaches_rmtree h]
        exact haddr
      | some n =>
        rw [hname] at h
        exact placeAt_addressed haddr hcs hname h

/-! ### When an add is atomic -/

lemma buffered_eq (hn : pkg.name.length < 256) (hv : pkg.version.length < 128) : pkg.buffered = pkg := by
  have hname : pkg.name.take 255 = pkg.name := List.take_of_length_le (by omega)
  have hversion : pkg.version.take 127 = pkg.version := List.take_of_length_le (by omega)
  rw [Package.buffered, hname, hversion]

/-- No directory has the name without an address. -/
def NoLegacy (pkg : Package) (s : AddState) : Prop := ∀ n : StoreName, n.val = pkg.legacyName → dirAt n s = none

lemma entryName?_val {b : Bytes} (h : entryName? b = some n) : n.val = b := by
  unfold entryName? at h
  split_ifs at h
  obtain rfl := Option.some.inj h
  rfl

lemma NoLegacy.legacyIn (hno : NoLegacy pkg s) : legacyIn pkg s.store = none := by
  rw [Install.legacyIn, Option.filter_eq_none_iff]
  intro n hn hany
  have hnone := hno n (entryName?_val hn)
  rw [dirAt, Option.filter_eq_none_iff] at hnone
  obtain ⟨e, he, hdir⟩ := (Option.any_eq_true _ _).1 hany
  exact hnone e he (Bool.and_eq_true _ _ ▸ hdir).1

lemma lookup_of_dirAt {e : Entry} (hdir : dirAt n s = some e) :
    s.store.lookup n = some e ∧ e.isDir = true := Option.filter_eq_some_iff.1 hdir

/-- Where no directory is, only nothing can be replaced. -/
lemma lookup_of_renames (hdir : dirAt n s = none) (hr : Renames x n s) : s.store.lookup n = none := by
  cases hlook : s.store.lookup n with
  | none => rfl
  | some e =>
    have hempty : isEmpty e = true := by
      have hall := hr.2
      rw [hlook] at hall
      exact hall
    obtain rfl := (isEmpty_iff e).1 hempty
    rw [dirAt, hlook] at hdir
    cases hdir

/-- The `rename` fails, or there is a tree at the address. -/
lemma finishAdd_unchanged {r : AddResult} (hrun : (finishAdd env x pkg n).run s = (r, s'))
    (hr : ∀ a, r ≠ .added a) : s'.store = s.store := by
  rw [finishAdd_run] at hrun
  split_ifs at hrun
  · cases hrun
    exact absurd rfl (hr _)
  · cases hrun
    rfl

lemma store_ne_erase {e : Entry} (hlook : s.store.lookup n = some e) : s.store.erase n ≠ s.store := by
  intro heq
  have hnone := AList.lookup_erase n s.store
  rw [heq, hlook] at hnone
  cases hnone

/-- An add that takes an empty directory away cannot be cut off behind that. -/
lemma not_atomic_of_empty {e : Entry} (hdir : dirAt n s = some e) (hm : marked e = false)
    (he : isEmpty e = true)
    (hunchanged : ∀ r s', (placeAt env x pkg n).run s = (r, s') → (∀ a, r ≠ .added a) →
      s'.store = s.store)
    (hcrash : ∀ ls s', (placeAt env x pkg n).Reaches s ls s' →
      s'.store = s.store ∨ s'.store = ((placeAt env x pkg n).run s).2.store) : False := by
  have hne := store_ne_erase (lookup_of_dirAt hdir).1
  obtain ⟨ls, s', hreach, hs'⟩ := placeAt_erases env x pkg hdir hm he
  have hrun : (placeAt env x pkg n).run s =
      (finishAdd env x pkg n).run { s with store := s.store.erase n } := by
    rw [placeAt_run, hdir]
    simp only [hm, Bool.false_eq_true, if_false, he, if_true]
  rw [finishAdd_run] at hrun
  split_ifs at hrun with hr
  · rcases hcrash ls s' hreach with h | h
    · exact hne (hs'.symm.trans h)
    · rw [hrun, hs'] at h
      have hlook := congrArg (AList.lookup n) h
      rw [AList.lookup_erase, AList.lookup_insert] at hlook
      cases hlook
  · exact hne (hunchanged _ _ hrun fun a => AddResult.noConfusion)

/-- **What is asked of an add** that has unpacked its archive comes down to the placing. -/
lemma placeAt_atomic (hno : NoLegacy pkg s) (hname : (pkg.holding c).finalName env = some n) :
    ((∀ a s', (placeAt env x (pkg.holding c) n).run s = (.added a, s') →
        ((pkg.holding c).narHash env).isSome = true →
          ∃ e h, s'.store.lookup a.path = some e ∧ e.isDir = true ∧ e.tree.lookup = pkg.tree.lookup ∧
            HasNarHash env e.tree h ∧ a.hash = some h ∧
              a.path.val = computeStorePath env.sha256 h.1 pkg.name pkg.version) ∧
      (∀ r s', (placeAt env x (pkg.holding c) n).run s = (r, s') → (∀ a, r ≠ .added a) →
        s'.store = s.store) ∧
      ∀ ls s', (placeAt env x (pkg.holding c) n).Reaches s ls s' →
        s'.store = s.store ∨ s'.store = ((placeAt env x (pkg.holding c) n).run s).2.store) ↔
      ∀ h, (pkg.holding c).narHash env = some h →
        match dirAt n s with
        | none => x.renameFails = false → s.store.lookup n = none →
            (FileTree.directory c).lookup = pkg.tree.lookup
        | some e => marked e = true ∧ e.tree.lookup = pkg.tree.lookup ∧ HasNarHash env e.tree h := by
  cases hhash : (pkg.holding c).narHash env with
  | none =>
    -- the tree goes to the path without an address, where no directory is
    have hval : n.val = pkg.legacyName := by
      rw [Package.finalName, hhash] at hname
      exact entryName?_val hname
    have hdir : dirAt n s = none := hno n hval
    have hrun := placeAt_run env x (pkg.holding c) n s
    rw [hdir] at hrun
    refine iff_of_true ⟨fun a s' _ h => (by cases h), fun r s' hr => ?_, fun ls s' hreach => ?_⟩
      fun h hh => (by cases hh)
    · exact finishAdd_unchanged (hrun.symm.trans hr)
    · rcases placeAt_reaches hreach with h | h | ⟨-, e, he, -⟩
      · exact .inl h
      · exact .inr h
      · rw [hdir] at he
        cases he
  | some h =>
    have hright : n.val = computeStorePath env.sha256 h.1 (pkg.holding c).name (pkg.holding c).version :=
      finalName_of_narHash hhash hname
    have hrun := placeAt_run env x (pkg.holding c) n s
    simp only [Option.some.injEq, forall_eq', Option.isSome_some, true_implies]
    cases hdir : dirAt n s with
    | none =>
      rw [hdir] at hrun
      constructor
      · rintro ⟨hadded, -, -⟩ hfails hlook
        have hr : Renames x n s := ⟨hfails, by rw [hlook]; rfl⟩
        have hend := finishAdd_run env x (pkg.holding c) n s
        rw [if_pos hr] at hend
        obtain ⟨e, h', he, -, htree, -⟩ := hadded _ _ (hrun.trans hend)
        rw [show (⟨n, (pkg.holding c).narHash env⟩ : Added).path = n from rfl, AList.lookup_insert] at he
        obtain rfl := Option.some.inj he
        exact htree
      · intro htree
        refine ⟨fun a s' ha => ?_, fun r s' hr => finishAdd_unchanged (hrun.symm.trans hr),
          fun ls s' hreach => ?_⟩
        · have hend := (finishAdd_run env x (pkg.holding c) n s).symm.trans (hrun.symm.trans ha)
          split_ifs at hend with hr
          · cases hend
            refine ⟨_, h, AList.lookup_insert _, rfl, ?_, ⟨_, hhash⟩, hhash, hright⟩
            exact htree hr.1 (lookup_of_renames hdir hr)
          · cases hend
        · rcases placeAt_reaches hreach with h | h | ⟨-, e, he, -⟩
          · exact .inl h
          · exact .inr h
          · rw [hdir] at he
            cases he
    | some e =>
      obtain ⟨hlook, hisDir⟩ := lookup_of_dirAt hdir
      cases hm : marked e with
      | true =>
        rw [hdir] at hrun
        simp only [hm, if_true] at hrun
        constructor
        · rintro ⟨hadded, -, -⟩
          obtain ⟨e', h', he', -, htree, hnar, hhash', -⟩ := hadded _ _ hrun
          obtain rfl : e = e' := Option.some.inj (hlook.symm.trans he')
          obtain rfl : h = h' := Option.some.inj (hhash.symm.trans hhash')
          exact ⟨hm, htree, hnar⟩
        · rintro ⟨-, htree, hnar⟩
          refine ⟨fun a s' ha => ?_, fun r s' hr hadd => ?_, fun ls s' hreach => ?_⟩
          · cases hrun.symm.trans ha
            exact ⟨e, h, hlook, hisDir, htree, hnar, hhash, hright⟩
          · cases hrun.symm.trans hr
            exact absurd rfl (hadd _)
          · rcases placeAt_reaches hreach with h | h | ⟨-, e', he', hm', -⟩
            · exact .inl h
            · exact .inr h
            · obtain rfl : e = e' := Option.some.inj (hdir.symm.trans he')
              rw [hm] at hm'
              cases hm'
      | false =>
        refine iff_of_false ?_ fun h => Bool.false_ne_true (hm.symm.trans h.1)
        rintro ⟨hadded, hunchanged, hcrash⟩
        cases he : isEmpty e with
        | true => exact not_atomic_of_empty hdir hm he hunchanged hcrash
        | false =>
          rw [hdir] at hrun
          simp only [hm, Bool.false_eq_true, if_false, he] at hrun
          obtain ⟨e', h', -, -, -, -, hhash', -⟩ := hadded _ _ hrun
          cases hhash'

/-- What `directExtract` returns, as an add returns it. -/
def AddResult.of : Option Added → AddResult
  | none => .failed
  | some a => .added a

/-- **An add in which nothing goes wrong is `directExtract`**, which leaves the temporary directory out. -/
theorem storeAdd_refines {w : World} (hun : unpacked x pkg = some pkg.contents) (hfails : x.renameFails = false)
    (hw : w.store = s.store) :
    ((storeAdd env x pkg).run s).1 = .of ((directExtract env pkg).run w).1 ∧
      ((storeAdd env x pkg).run s).2.store = ((directExtract env pkg).run w).2.store := by
  have hleg : legacyIn pkg s.store = legacyAt pkg w := by rw [legacyIn, legacyAt, hw]
  rw [directExtract, Prog.run_bind, Prog.run_read]
  cases hlegacy : legacyAt pkg w with
  | some n =>
    rw [storeAdd, extractAdd, Prog.run_bind, Prog.run_bind, Prog.run_read, hleg, hlegacy]
    exact ⟨rfl, hw.symm⟩
  | none =>
    obtain ⟨s₁, hs₁, hrun, -, -⟩ := storeAdd_of_unpacked env (hleg.trans hlegacy) hun
    have hsame : pkg.holding pkg.contents = pkg := rfl
    rw [hrun, hsame, placeAdd]
    cases hname : pkg.finalName env with
    | none => exact ⟨rfl, hs₁.trans hw.symm⟩
    | some n =>
      have hren : ∀ (s₁ : AddState) (w : World), w.store = s₁.store →
          ((finishAdd env x pkg n).run s₁).1 = .of (((rename n pkg.tree).bind fun ok =>
            .ret (if ok then some ⟨n, pkg.narHash env⟩ else none)).run w).1 ∧
          ((finishAdd env x pkg n).run s₁).2.store = (((rename n pkg.tree).bind fun ok =>
            .ret (if ok then some (⟨n, pkg.narHash env⟩ : Added) else none)).run w).2.store := by
        intro s₁ w hw
        have hiff : Renames x n s₁ ↔ canRename n w = true := by
          rw [Renames, canRename, hw]
          exact and_iff_right hfails
        rw [finishAdd_run, Prog.run_bind, rename, Prog.run_step]
        by_cases hr : canRename n w = true
        · rw [if_pos (hiff.2 hr), if_pos hr, hr, hw]
          exact ⟨rfl, rfl⟩
        · rw [if_neg (mt hiff.1 hr), if_neg hr, Bool.eq_false_of_not_eq_true hr]
          exact ⟨rfl, hw.symm⟩
      have hstore : w.store = s₁.store := hw.trans hs₁.symm
      have hstat : (w.store.lookup n).filter Entry.isDir = dirAt n s₁ := by rw [dirAt, hstore]
      rw [placeAt_run, Prog.run_bind, Prog.run_read, hstat]
      cases hdir : dirAt n s₁ with
      | none => exact hren s₁ w hstore
      | some e =>
        by_cases hm : marked e = true
        · simp only [if_pos hm]
          exact ⟨rfl, hstore.symm⟩
        · by_cases he : isEmpty e = true
          · have hany : (w.store.lookup n).any isEmpty = true := by
              rw [hstore, (lookup_of_dirAt hdir).1]
              exact he
            have hrmdir : (rmdir n).run w = ((), { w with store := w.store.erase n }) := by
              rw [rmdir, Prog.run_modify, if_pos hany]
            simp only [if_neg hm, if_pos he]
            rw [Prog.run_bind, hrmdir]
            exact hren { s₁ with store := s₁.store.erase n } { w with store := w.store.erase n }
              (congrArg (AList.erase n) hstore)
          · simp only [if_neg hm, if_neg he]
            exact ⟨rfl, hstore.symm⟩

end Whole

/-! ### The same package twice -/

/-- One file, and no `.PKGINFO`. -/
def bare : Package := ⟨ascii "a", ascii "1", [(ascii "f", .regular [] false)]⟩

/-- `tar` succeeds at once. -/
def smooth (contents : List (Name × FileTree)) : Extraction :=
  ⟨fun _ _ => (true, contents), fun _ => false, false, false⟩

def someEnv : Env := ⟨fun _ => [], ascii "1", fun _ => none⟩

def bareName : StoreName :=
  ⟨computeStorePath someEnv.sha256 (ascii "") bare.name bare.version, by decide⟩

end Two09.Install
