import Two09.Apply.Build
import Two09.Transfer.Commands

/-!
# Generations whose paths are there

Five commands make the packages of a generation from different sources: what they have unpacked or
substituted, what the current generation lists, what a scan of the store finds, a foreign archive or
lock file. `noDangling_iff` says for each of them exactly when a generation that it commits records
only directories of the store, and the current one is kept where it commits none.
-/

namespace Two09.Transfer

open Two09.Lib Two09.Lib.Posix Two09.Gen Two09.Store Two09.Install Two09.Apply

/-! ### What is asked of a command -/

/-- The path names a directory of the store. -/
def DirIn (store : StoreDir) (path : Path) : Prop :=
  ∃ n, path = storePath n ∧ (store.lookup n).any Entry.isDir = true

/-- The package has no path, or one that names a directory of the store. -/
def Intact (store : StoreDir) (p : GenPkg) : Prop :=
  ∀ path, p.storePath = some path → path ≠ [] → DirIn store path

/-- The packages of the current generation are intact. -/
def NoDangling (w : World) : Prop :=
  ∀ p ∈ readPackages w.gens (genDbCurrent w.gens), Intact w.store p

/-- The lock is free, and no call fails that the commit needs. -/
def CommitSucceeds (flt : Faults) (gens : GenDb) : Prop := gens.locked = false ∧ Repoints flt gens

/-- The commit unlinks the current generation and then cannot link the new one. -/
def CommitBreaks (flt : Faults) (gens : GenDb) : Prop :=
  gens.locked = false ∧ (flt.mkdir || flt.openManifest || flt.unlink) = false ∧ flt.symlink = true ∧
    genDbCurrent gens ≠ 0

/-- What is asked of a command that ran from `w` to `w'`: when it returned 0 the generation that is
current records directories only, and otherwise the current generation is what it was. -/
def Outcome (w : World) (ok : Bool) (w' : World) : Prop :=
  (ok = true → NoDangling w') ∧ (ok = false → SameGeneration w.gens w'.gens)

/-- The commands that make generations. -/
inductive Producer
  | install (env : Install.Env) (pkgs : List Package)
  | aurBuild (env : Install.Env) (deps : List (Bytes × InstallAttempt)) (built : Option (List Package))
  | apply (env : Install.Env) (attempts : Attempts) (desired : Json)
  | importArchive (a : Archive)
  | lockImport (packages : List GenPkg)

namespace Producer

section
variable (flt : Faults) (time : Nat)

/-- The command; whether it returned 0. -/
def prog : Producer → Prog World Act Bool
  | install env pkgs => cmdInstall env flt time pkgs
  | aurBuild env deps built => cmdAurBuild env time flt deps built
  | apply env attempts desired => (cmdApply env attempts flt time desired).bind fun
    | .applied _ => .ret true
    | _ => .ret false
  | importArchive a => cmdImport flt time a
  | lockImport packages => cmdLockfileImport flt time packages

/-- No generation that the command makes dangles. -/
def Holds (p : Producer) (w : World) : Prop := (p.prog flt time).Ensures w (Outcome w)

/-- What the commands rely on. -/
def Safe (w : World) : Producer → Prop
  | install env pkgs => ∀ targets w₁, (addTargets env pkgs).run w = (some targets, w₁) →
      (CommitSucceeds flt w.gens →
        ∀ p ∈ targets.foldl mergeTarget (readCurrentGenPackages w.gens (genDbCurrent w.gens)),
          (∃ t ∈ targets, t.2.hash.isSome = true ∧ p.storePath = some (storePath t.2.path)) ∨
            Intact w₁.store p) ∧
        ¬CommitBreaks flt w.gens
  | aurBuild env deps built => ∀ w₁ pkgs, (installDeps env time deps).run w = (true, w₁) →
      built = some pkgs →
      ((addBuilt env pkgs).run { w₁ with gens := { w₁.gens with locked := true } }).1.isSome = true →
        ¬CommitBreaks flt w.gens
  | apply env attempts desired => ∀ ok w₁,
      (if (reconcile desired w).isEmpty then .ret true
        else reconcileExecute env time attempts (reconcile desired w) : Prog World Act Bool).run w =
          (ok, w₁) →
      (ok = true ∧ CommitSucceeds flt w₁.gens →
        ∀ p ∈ desiredPkgs (reconcile desired w) w₁, Intact w₁.store p) ∧
      (¬(ok = true ∧ CommitSucceeds flt w₁.gens) →
        (∀ q ∈ (reconcile desired w).pkgRemove.zipIdx, ¬CarriedOut (attempts.remove q.2) q.1 w.gens) ∧
          ¬(ok = true ∧ CommitBreaks flt w₁.gens))
  | importArchive a => ∀ m, File.read? a.manifest = some m →
      (CommitSucceeds flt w.gens → ∀ p ∈ m.packages, Intact (tarExtract a w.store) p) ∧
        ¬CommitBreaks flt w.gens
  | lockImport packages =>
      (CommitSucceeds flt w.gens → ∀ p ∈ packages, Intact w.store p) ∧ ¬CommitBreaks flt w.gens

end

end Producer

/-! ### What a commit comes to -/

section Commit
variable {flt : Faults} {time : Nat} {pkgs : List GenPkg} {w w' w₁ : World} {ok : Bool}

lemma sameGeneration_refl (gens : GenDb) : SameGeneration gens gens := ⟨rfl, rfl⟩

/-- What the part of a command under the lock comes to, when these packages are committed. -/
structure Committed (flt : Faults) (pkgs : List GenPkg) (w : World) (ok : Bool) (w' : World) :
    Prop where
  store : w'.store = w.store
  ok_iff : ok = true ↔ CommitSucceeds flt w.gens
  packages : ok = true → readPackages w'.gens (genDbCurrent w'.gens) = pkgs
  same : ok = false → (SameGeneration w.gens w'.gens ↔ ¬CommitBreaks flt w.gens)
  link : ok = false → ∀ l, w'.gens.link = some l → w.gens.link = some l

/-- The commit of packages while the lock is held. -/
lemma commit_committed (flt : Faults) (time : Nat) (pkgs : List GenPkg) (w₁ : World)
    (hstore : w₁.store = w.store) (hgens : w₁.gens = { w.gens with locked := true })
    (hfree : w.gens.locked = false) :
    ((commit flt time pkgs).bind fun id => genDbUnlock.bind fun _ => .ret id.isSome).Ensures w₁
      (Committed flt pkgs w) := by
  rw [Prog.ensures_bind, commit_ensures, hgens]
  have hsome := genDbCommit_isSome flt time pkgs { w.gens with locked := true }
  have hlink := @genDbCommit_link_of_none { w.gens with locked := true } flt time pkgs
  obtain ⟨hdirs, -⟩ := genDbCommit_run flt time pkgs { w.gens with locked := true }
  have hids := genDbCommit_ensures flt time pkgs { w.gens with locked := true }
  unfold Prog.Ensures at hids ⊢
  generalize (genDbCommit flt time pkgs).run { w.gens with locked := true } = r at *
  obtain ⟨r, gens⟩ := r
  show Committed flt pkgs w r.isSome { w₁ with gens := { gens with locked := false } }
  refine ⟨hstore, ?_, fun hok => ?_, fun hok => ?_, fun hok l hl => ?_⟩
  · rw [hsome]
    exact ⟨fun h => ⟨hfree, h⟩, fun h => h.2⟩
  · obtain ⟨id, rfl⟩ := Option.isSome_iff_exists.1 hok
    obtain ⟨-, hl, hwritten⟩ := hids id rfl
    have hnew : genDbCurrent { gens with locked := false } = id := by simp [genDbCurrent, show gens.link = some id from hl]
    show readPackages { gens with locked := false } (genDbCurrent { gens with locked := false }) = pkgs
    rw [hnew]
    exact hwritten.readPackages
  · have hnone : r = none := by simpa using hok
    subst hnone
    have hl : gens.link =
        if flt.mkdir || flt.openManifest || flt.unlink then w.gens.link else none := hlink rfl
    have hdir : gens.dirs.lookup (genDbCurrent w.gens) = w.gens.dirs.lookup (genDbCurrent w.gens) :=
      hdirs _ (Nat.ne_of_lt (Nat.lt_succ_self _))
    have hnot : ¬CommitSucceeds flt w.gens := by
      intro hgo
      exact Bool.false_ne_true (hsome.2 hgo.2)
    show SameGeneration w.gens { gens with locked := false } ↔ _
    cases hflt : flt.mkdir || flt.openManifest || flt.unlink with
    | true =>
      rw [hflt, if_pos rfl] at hl
      have hcur : genDbCurrent { gens with locked := false } = genDbCurrent w.gens := by
        rw [genDbCurrent, genDbCurrent, ← hl]
      refine iff_of_true ⟨hcur, ?_⟩ fun h => by simp [CommitBreaks, hflt] at h
      rw [hcur]
      exact readPackages_congr hdir
    | false =>
      rw [hflt, if_neg Bool.false_ne_true] at hl
      have hzero : genDbCurrent { gens with locked := false } = 0 := by
        rw [genDbCurrent, show ({ gens with locked := false } : GenDb).link = none from hl,
          Option.getD_none]
      have hsym : flt.symlink = true := by
        simp only [Bool.or_eq_false_iff] at hflt
        by_contra hsym
        exact hnot ⟨hfree, hflt.1.1, hflt.1.2, Bool.eq_false_of_not_eq_true hsym, .inl hflt.2⟩
      by_cases hcur : genDbCurrent w.gens = 0
      · refine iff_of_true ⟨hzero.trans hcur.symm, ?_⟩ fun h => h.2.2.2 hcur
        rw [hzero, ← hcur]
        exact readPackages_congr hdir
      · exact iff_of_false (fun h => hcur (h.1.symm.trans hzero)) (not_not.2 ⟨hfree, hflt, hsym, hcur⟩)
  · have hnone : r = none := by simpa using hok
    subst hnone
    have hlk : gens.link =
        if flt.mkdir || flt.openManifest || flt.unlink then w.gens.link else none := hlink rfl
    rw [show gens.link = some l from hl] at hlk
    split_ifs at hlk
    exact hlk.symm

/-- Nobody else may hold the lock. -/
lemma committed_of_locked (h : w.gens.locked = true) : Committed flt pkgs w false w := by
  have hnot : ¬w.gens.locked = false := by
    rw [h]
    exact (fun hf => Bool.noConfusion hf)
  exact ⟨rfl, iff_of_false Bool.false_ne_true fun hc => hnot hc.1, fun hok => absurd hok Bool.false_ne_true,
    fun _ => iff_of_true (sameGeneration_refl _) fun hb => hnot hb.1, fun _ l hl => hl⟩

lemma lockAndCommit_committed (flt : Faults) (time : Nat) (pkgs : List GenPkg) (w : World) :
    (lockAndCommit flt time pkgs).Ensures w (Committed flt pkgs w) := by
  unfold lockAndCommit
  rw [Prog.ensures_bind, genDbLock, Prog.ensures_step]
  cases hlocked : w.gens.locked with
  | true => exact committed_of_locked hlocked
  | false => exact commit_committed flt time pkgs _ rfl rfl hlocked

lemma commitTargets_committed (flt : Faults) (targets : List (Package × Added)) (w : World) :
    (commitTargets flt time targets).Ensures w (Committed flt
      (targets.foldl mergeTarget (readCurrentGenPackages w.gens (genDbCurrent w.gens))) w) := by
  unfold commitTargets
  rw [Prog.ensures_bind, genDbLock, Prog.ensures_step]
  cases hlocked : w.gens.locked with
  | true => exact committed_of_locked hlocked
  | false =>
    show ((Prog.read Act.readCurrent fun w : World => genDbCurrent w.gens).bind _).Ensures
      { w with gens := { w.gens with locked := true } } _
    rw [Prog.ensures_bind, Prog.ensures_read, Prog.ensures_bind, Prog.ensures_read]
    exact commit_committed flt time _ _ rfl rfl hlocked

/-- Whether `cmd_apply` returned 0. -/
def applied : ApplyResult → Bool
  | .applied _ => true
  | _ => false

lemma commitDesired_committed (flt : Faults) (time : Nat) (txn : ReconcileTxn) (w : World) :
    (commitDesired txn flt time).Ensures w fun r w' =>
      Committed flt (desiredPkgs txn w) w (applied r) w' := by
  unfold commitDesired
  rw [Prog.ensures_bind, Prog.ensures_read, Prog.ensures_bind, genDbLock, Prog.ensures_step]
  cases hlocked : w.gens.locked with
  | true => exact committed_of_locked hlocked
  | false =>
    have hcommit : ((commit flt time (desiredPkgs txn w)).bind fun id =>
        genDbUnlock.bind fun _ => .ret id.isSome).Ensures
          { w with gens := { w.gens with locked := true } } (Committed flt (desiredPkgs txn w) w) :=
      commit_committed flt time (desiredPkgs txn w) _ rfl rfl hlocked
    rw [Prog.ensures_bind] at hcommit
    show ((commit flt time (desiredPkgs txn w)).bind _).Ensures
      { w with gens := { w.gens with locked := true } } _
    rw [Prog.ensures_bind]
    refine hcommit.mono fun id w' h => ?_
    cases id with
    | none => exact h
    | some id => exact h

/-- **What is asked of a commit** comes down to the packages that are committed. -/
lemma Committed.holds (h : Committed flt pkgs w ok w') :
    Outcome w ok w' ↔
      (CommitSucceeds flt w.gens → ∀ p ∈ pkgs, Intact w.store p) ∧ ¬CommitBreaks flt w.gens := by
  have hbreaks : CommitSucceeds flt w.gens → ¬CommitBreaks flt w.gens := by
    rintro ⟨-, -, -, hsym, -⟩ ⟨-, -, hsym', -⟩
    rw [hsym] at hsym'
    cases hsym'
  cases ok with
  | true =>
    have hgo : CommitSucceeds flt w.gens := h.ok_iff.1 rfl
    have hpkgs : NoDangling w' ↔ ∀ p ∈ pkgs, Intact w.store p := by
      unfold NoDangling
      rw [h.packages rfl, h.store]
    simp [Outcome, hpkgs, hgo, hbreaks hgo]
  | false =>
    have hno : ¬CommitSucceeds flt w.gens := fun hgo => Bool.false_ne_true (h.ok_iff.2 hgo)
    simp [Outcome, h.same rfl, hno]

end Commit

/-! ### What is unpacked is a directory -/

/-- The entry is a directory. -/
def IsDirIn (store : StoreDir) (n : StoreName) : Prop := (store.lookup n).any Entry.isDir = true

lemma dirIn_storePath {store : StoreDir} {n : StoreName} : DirIn store (storePath n) ↔ IsDirIn store n := by
  constructor
  · rintro ⟨m, hm, hdir⟩
    rw [IsDirIn, storePath_injective hm]
    exact hdir
  · exact fun h => ⟨n, rfl, h⟩

/-- Directories stay directories, and what is returned is one if the flag says so. -/
structure Unpacks (w w' : World) (r : Option StoreName) : Prop where
  gens : w'.gens = w.gens
  stay : ∀ n, IsDirIn w.store n → IsDirIn w'.store n
  made : ∀ n, r = some n → IsDirIn w'.store n

section Unpack
variable {env : Install.Env} {time : Nat} {pkg : Package} {w w' w'' : World} {n : StoreName}
  {r r' : Option StoreName}

lemma Unpacks.refl (w : World) (h : ∀ n, r = some n → IsDirIn w.store n) : Unpacks w w r :=
  ⟨rfl, fun _ h => h, h⟩

lemma Unpacks.trans (h : Unpacks w w' r) (h' : Unpacks w' w'' r') : Unpacks w w'' r' :=
  ⟨h'.gens.trans h.gens, fun n hn => h'.stay n (h.stay n hn), h'.made⟩

lemma isDirIn_insert {store : StoreDir} {m : StoreName} {e : Entry} (he : n = m → e.isDir = true)
    (h : n ≠ m → IsDirIn store n) : IsDirIn (store.insert m e) n := by
  unfold IsDirIn
  by_cases hn : n = m
  · subst hn
    rw [AList.lookup_insert]
    exact he rfl
  · rw [AList.lookup_insert_ne hn]
    exact h hn

lemma trySubstitute_unpacks (w : World) :
    (trySubstitute env pkg).Ensures w fun _ w' => Unpacks w w' none := by
  unfold trySubstitute
  simp only [Prog.ensures_bind, Prog.ensures_read]
  cases (w.sdb.findByName pkg.name).filter (hasVersion pkg.version) with
  | none => exact .refl w (by simp)
  | some n =>
    simp only [Prog.ensures_bind, Prog.ensures_read]
    cases hlook : w.store.lookup n with
    | some e => exact .refl w (by simp)
    | none =>
      cases env.cached n with
      | none => exact .refl w (by simp)
      | some t =>
        simp only [Option.isSome_none, Bool.false_eq_true, if_false, Prog.ensures_step, hlook]
        refine ⟨rfl, fun m hm => isDirIn_insert (fun hmn => ?_) fun _ => hm, by simp⟩
        rw [IsDirIn, hmn, hlook] at hm
        cases hm

lemma rename_unpacks (n : StoreName) (pkg : Package) (hash : Option (Bytes × Nat)) (w : World) :
    (rename n pkg.tree).Ensures w fun ok w' =>
      Unpacks w w' ((if ok then some (⟨n, hash⟩ : Added) else none).map Added.path) := by
  rw [rename, Prog.ensures_step]
  by_cases h : canRename n w = true
  · rw [if_pos h, if_pos h]
    refine ⟨rfl, fun m hm => isDirIn_insert (fun _ => rfl) fun _ => hm, fun m hm => ?_⟩
    obtain rfl : n = m := by simpa using hm
    exact isDirIn_insert (fun _ => rfl) fun hne => absurd rfl hne
  · rw [if_neg h, if_neg h]
    exact .refl w (by simp)

lemma rmdir_rename_unpacks {e : Entry} (he : w.store.lookup n = some e) (hempty : isEmpty e = true)
    (hash : Option (Bytes × Nat)) :
    (rmdir n).Ensures w fun _ w₁ => (rename n pkg.tree).Ensures w₁ fun ok w' =>
      Unpacks w w' ((if ok then some (⟨n, hash⟩ : Added) else none).map Added.path) := by
  have hany : (w.store.lookup n).any isEmpty = true := by simpa [he] using hempty
  have hcan : canRename n { w with store := w.store.erase n } = true := by simp [canRename]
  rw [rmdir, Prog.ensures_modify, if_pos hany, rename, Prog.ensures_step, if_pos hcan, if_pos hcan]
  refine ⟨rfl, fun m hm => isDirIn_insert (fun _ => rfl) fun hne => ?_, fun m hm => ?_⟩
  · rw [IsDirIn, AList.lookup_erase_ne hne]
    exact hm
  · obtain rfl : n = m := by simpa using hm
    exact isDirIn_insert (fun _ => rfl) fun hne => absurd rfl hne

/-- **What unpacking returns is a directory**, whichever way it took. -/
lemma directExtract_unpacks (w : World) :
    (directExtract env pkg).Ensures w fun r w' => Unpacks w w' (r.map Added.path) := by
  unfold directExtract
  simp only [Prog.ensures_bind, Prog.ensures_read]
  cases hleg : legacyAt pkg w with
  | some n =>
    obtain ⟨-, hn⟩ := Option.filter_eq_some_iff.1 hleg
    obtain ⟨e, he, hdir⟩ := (Option.any_eq_true _ _).1 hn
    refine .refl w fun m hm => ?_
    obtain rfl : n = m := by simpa using hm
    rw [IsDirIn, he]
    exact (Bool.and_eq_true _ _ ▸ hdir).1
  | none =>
    cases pkg.finalName env with
    | none => exact .refl w (by simp)
    | some n =>
      have hrename := rename_unpacks n pkg (pkg.narHash env) w
      simp only [Prog.ensures_bind, Prog.ensures_read]
      cases hstat : (w.store.lookup n).filter Entry.isDir with
      | none => exact hrename
      | some e =>
        obtain ⟨he, hdir⟩ := Option.filter_eq_some_iff.1 hstat
        have hthere : ∀ hash m, (some (⟨n, hash⟩ : Added)).map Added.path = some m → IsDirIn w.store m := by
          intro hash m hm
          obtain rfl : n = m := by simpa using hm
          rw [IsDirIn, he]
          exact hdir
        by_cases hmark : marked e = true
        · simp only [if_pos hmark]
          exact .refl w (hthere _)
        · by_cases hempty : isEmpty e = true
          · simp only [if_neg hmark, if_pos hempty]
            exact rmdir_rename_unpacks he hempty (pkg.narHash env)
          · simp only [if_neg hmark, if_neg hempty]
            exact .refl w (hthere _)

/-- A target is returned with a hash only if it was unpacked. -/
lemma addTarget_unpacks (w : World) :
    (addTarget env pkg).Ensures w fun r w' =>
      Unpacks w w' ((r.filter fun a => a.hash.isSome).map Added.path) := by
  rw [addTarget, Prog.ensures_bind]
  refine (trySubstitute_unpacks w).mono fun r w₁ h => ?_
  cases r with
  | some n => exact h
  | none =>
    refine (directExtract_unpacks w₁).mono fun r w' h' => h.trans ⟨h'.gens, h'.stay, fun n hn => ?_⟩
    obtain ⟨a, ha, rfl⟩ := Option.map_eq_some_iff.1 hn
    obtain ⟨rfl, -⟩ := Option.filter_eq_some_iff.1 ha
    exact h'.made _ rfl

/-- The targets that were unpacked are directories when the last one is there. -/
lemma addTargets_unpacks {pkgs : List Package} (w : World) :
    (addTargets env pkgs).Ensures w fun r w' => Unpacks w w' none ∧
      ∀ ts, r = some ts → ∀ t ∈ ts, t.2.hash.isSome = true → IsDirIn w'.store t.2.path := by
  induction pkgs generalizing w with
  | nil => exact ⟨.refl w (by simp), by rintro _ ⟨⟩ t ⟨⟩⟩
  | cons pkg pkgs ih =>
    rw [addTargets, Prog.ensures_bind]
    refine (addTarget_unpacks w).mono fun r w₁ h => ?_
    cases r with
    | none => exact ⟨h, by rintro _ ⟨⟩⟩
    | some a =>
      rw [Prog.ensures_bind]
      refine (ih w₁).mono fun rs w' h' => ⟨h.trans h'.1, ?_⟩
      intro ts hts t ht hhash
      obtain ⟨ts', rfl, rfl⟩ := Option.map_eq_some_iff.1 hts
      rcases List.mem_cons.1 ht with rfl | ht
      · exact h'.1.stay _ (h.made _ (by simp [Option.filter, hhash]))
      · exact h'.2 ts' rfl t ht hhash

/-- What was built is a directory when the last package is there. -/
lemma addBuilt_unpacks {pkgs : List Package} (w : World) :
    (addBuilt env pkgs).Ensures w fun r w' => Unpacks w w' none ∧
      ∀ ts, r = some ts → ∀ t ∈ ts, IsDirIn w'.store t.2.path := by
  induction pkgs generalizing w with
  | nil => exact ⟨.refl w (by simp), by rintro _ ⟨⟩ t ⟨⟩⟩
  | cons pkg pkgs ih =>
    rw [addBuilt, Prog.ensures_bind]
    refine (directExtract_unpacks w).mono fun r w₁ h => ?_
    cases r with
    | none => exact ⟨h, by rintro _ ⟨⟩⟩
    | some a =>
      rw [Prog.ensures_bind]
      refine (ih w₁).mono fun rs w' h' => ⟨h.trans h'.1, ?_⟩
      intro ts hts t ht
      obtain ⟨ts', rfl, rfl⟩ := Option.map_eq_some_iff.1 hts
      rcases List.mem_cons.1 ht with rfl | ht
      · exact h'.1.stay _ (h.made _ rfl)
      · exact h'.2 ts' rfl t ht

lemma installDeps_keeps (deps : List (Bytes × InstallAttempt)) (w : World) :
    (installDeps env time deps).Ensures w fun _ w' => w'.gens = w.gens := by
  induction deps generalizing w with
  | nil => rfl
  | cons d deps ih =>
    rw [installDeps, Prog.ensures_bind]
    refine (cmdInstallOnly_keeps d.1 d.2 w).mono fun ok w₁ h₁ => ?_
    cases ok with
    | true => exact (ih w₁).mono fun _ w' h' => h'.trans h₁
    | false => exact h₁

end Unpack

/-! ### The commands -/

section Commands
variable {flt : Faults} {time : Nat} {w : World}

/-- What is asked of a command that has returned without a commit. -/
lemma outcome_of_gens {w' : World} (h : w'.gens = w.gens) : Outcome w false w' :=
  ⟨fun hf => Bool.noConfusion hf, fun _ => by rw [h]; exact sameGeneration_refl _⟩

lemma outcome_congr {w' : World} (h : w'.gens = w.gens) : Outcome w' = Outcome w := by
  funext ok w''
  rw [Outcome, Outcome, h]

lemma intact_filter {store : StoreDir} {p : GenPkg} :
    Intact store { p with storePath := p.storePath.filter (· ≠ []) } ↔ Intact store p := by
  unfold Intact
  constructor
  · exact fun h path hp hne => h path (by simp [hp, hne]) hne
  · intro h path hp hne
    obtain ⟨hp, -⟩ := Option.filter_eq_some_iff.1 hp
    exact h path hp hne

lemma lockImport_iff (packages : List GenPkg) :
    (Producer.lockImport packages).Holds flt time w ↔ (Producer.lockImport packages).Safe flt time w := by
  have hcommit := lockAndCommit_committed flt time
    (packages.map fun p => { p with storePath := p.storePath.filter (· ≠ []) }) w
  show _ ↔ (CommitSucceeds flt w.gens → ∀ p ∈ packages, Intact w.store p) ∧ ¬CommitBreaks flt w.gens
  refine (Committed.holds hcommit).trans ?_
  simp only [List.forall_mem_map, intact_filter]

lemma importArchive_iff (a : Archive) :
    (Producer.importArchive a).Holds flt time w ↔ (Producer.importArchive a).Safe flt time w := by
  show (cmdImport flt time a).Ensures w (Outcome w) ↔ ∀ m, File.read? a.manifest = some m → _
  unfold cmdImport
  cases hread : File.read? a.manifest with
  | none => exact iff_of_true (outcome_of_gens rfl) (by simp)
  | some m =>
    simp only [Option.some.injEq, forall_eq']
    rw [Prog.ensures_bind, Prog.ensures_modify]
    exact Committed.holds (lockAndCommit_committed flt time m.packages { w with store := tarExtract a w.store })

lemma forall_pair {α : Type} {a : α} {w₁ : World} {P : α → World → Prop} :
    (∀ b w', (a, w₁) = (b, w') → P b w') ↔ P a w₁ :=
  ⟨fun h => h _ _ rfl, by rintro h _ _ ⟨⟩; exact h⟩

lemma forall_some_pair {α : Type} {a : α} {w₁ : World} {P : α → World → Prop} :
    (∀ b w', (some a, w₁) = (some b, w') → P b w') ↔ P a w₁ :=
  ⟨fun h => h _ _ rfl, by rintro h _ _ ⟨⟩; exact h⟩

/-- What was unpacked in this run needs no looking after. -/
lemma intact_of_unpacked {store : StoreDir} {targets : List (Package × Added)} {p : GenPkg}
    (h : ∀ t ∈ targets, t.2.hash.isSome = true → IsDirIn store t.2.path) :
    (∃ t ∈ targets, t.2.hash.isSome = true ∧ p.storePath = some (storePath t.2.path)) ∨ Intact store p ↔
      Intact store p := by
  refine or_iff_right_of_imp ?_
  rintro ⟨t, ht, hhash, hp⟩ path hpath -
  obtain rfl : storePath t.2.path = path := Option.some.inj (hp.symm.trans hpath)
  exact dirIn_storePath.2 (h t ht hhash)

lemma install_iff (env : Install.Env) (pkgs : List Package) :
    (Producer.install env pkgs).Holds flt time w ↔ (Producer.install env pkgs).Safe flt time w := by
  show (cmdInstall env flt time pkgs).Ensures w (Outcome w) ↔
    ∀ targets w₁, (addTargets env pkgs).run w = (some targets, w₁) → _
  have hadds : (addTargets env pkgs).Ensures w fun r w' => Unpacks w w' none ∧
      ∀ ts, r = some ts → ∀ t ∈ ts, t.2.hash.isSome = true → IsDirIn w'.store t.2.path :=
    addTargets_unpacks w
  rw [cmdInstall, Prog.ensures_bind]
  unfold Prog.Ensures at hadds ⊢
  generalize (addTargets env pkgs).run w = r at *
  obtain ⟨r, w₁⟩ := r
  obtain ⟨hadd, hdirs⟩ := hadds
  have hgens : w₁.gens = w.gens := hadd.gens
  cases r with
  | none => exact iff_of_true (outcome_of_gens hgens) (by simp)
  | some targets =>
    rw [forall_some_pair]
    simp only [intact_of_unpacked (hdirs targets rfl)]
    show ((Prog.forEach (registerTarget env time) targets).bind fun _ =>
      commitTargets flt time targets).Ensures w₁ (Outcome w) ↔ _
    rw [Prog.ensures_bind]
    show (commitTargets flt time targets).Ensures
      ((Prog.forEach (registerTarget env time) targets).run w₁).2 (Outcome w) ↔ _
    have hreg : ((Prog.forEach (registerTarget env time) targets).run w₁).2.store = w₁.store ∧
        ((Prog.forEach (registerTarget env time) targets).run w₁).2.gens = w₁.gens :=
      registerTargets_keeps targets w₁
    generalize ((Prog.forEach (registerTarget env time) targets).run w₁).2 = w₂ at hreg ⊢
    obtain ⟨hstore₂, hgens₂⟩ := hreg
    have hcommit : (commitTargets flt time targets).Ensures w₂ (Committed flt
        (targets.foldl mergeTarget (readCurrentGenPackages w₂.gens (genDbCurrent w₂.gens))) w₂) :=
      commitTargets_committed flt targets w₂
    rw [← outcome_congr (hgens₂.trans hgens), ← hgens, ← hgens₂, ← hstore₂]
    exact Committed.holds hcommit

lemma aurBuild_iff (env : Install.Env) (deps : List (Bytes × InstallAttempt))
    (built : Option (List Package)) :
    (Producer.aurBuild env deps built).Holds flt time w ↔
      (Producer.aurBuild env deps built).Safe flt time w := by
  show (cmdAurBuild env time flt deps built).Ensures w (Outcome w) ↔
    ∀ w₁ pkgs, (installDeps env time deps).run w = (true, w₁) → built = some pkgs →
      ((addBuilt env pkgs).run { w₁ with gens := { w₁.gens with locked := true } }).1.isSome = true → _
  have hdeps : (installDeps env time deps).Ensures w fun _ w' => w'.gens = w.gens :=
    installDeps_keeps deps w
  rw [cmdAurBuild, Prog.ensures_bind]
  unfold Prog.Ensures at hdeps ⊢
  generalize (installDeps env time deps).run w = r at *
  obtain ⟨ok, w₁⟩ := r
  have hgens : w₁.gens = w.gens := hdeps
  cases built with
  | none => exact iff_of_true (outcome_of_gens hgens) (by simp)
  | some pkgs =>
    cases ok with
    | false => exact iff_of_true (outcome_of_gens hgens) (by simp)
    | true =>
      set w₂ : World := { w₁ with gens := { w₁.gens with locked := true } } with hw₂
      have hsafe : (∀ w₃ pkgs', (true, w₁) = (true, w₃) → some pkgs = some pkgs' →
          ((addBuilt env pkgs').run { w₃ with gens := { w₃.gens with locked := true } }).1.isSome = true →
            ¬CommitBreaks flt w.gens) ↔
          (((addBuilt env pkgs).run w₂).1.isSome = true → ¬CommitBreaks flt w.gens) :=
        ⟨fun h => h _ _ rfl rfl, by rintro h _ _ ⟨⟩ ⟨⟩; exact h⟩
      rw [hsafe]
      show (genDbLock.bind _).Ensures w₁ (Outcome w) ↔ _
      rw [Prog.ensures_bind, genDbLock, Prog.ensures_step]
      cases hlocked : w₁.gens.locked with
      | true =>
        refine iff_of_true (outcome_of_gens hgens) fun _ hb => ?_
        rw [CommitBreaks, ← hgens, hlocked] at hb
        exact Bool.noConfusion hb.1
      | false =>
        show ((addBuilt env pkgs).bind _).Ensures w₂ (Outcome w) ↔ _
        rw [Prog.ensures_bind]
        have hbuilt : (addBuilt env pkgs).Ensures w₂ fun r w' => Unpacks w₂ w' none ∧
            ∀ ts, r = some ts → ∀ t ∈ ts, IsDirIn w'.store t.2.path := addBuilt_unpacks w₂
        unfold Prog.Ensures at hbuilt ⊢
        generalize (addBuilt env pkgs).run w₂ = r at *
        obtain ⟨r, w₃⟩ := r
        obtain ⟨hadd, hdirs⟩ := hbuilt
        have hgens₃ : w₃.gens = { w₁.gens with locked := true } := hadd.gens
        cases r with
        | none =>
          refine iff_of_true (outcome_of_gens ?_) (by simp)
          show ({ w₃.gens with locked := false } : GenDb) = w.gens
          rw [hgens₃, ← hgens, ← hlocked]
        | some ts =>
          have hcommit : (commitBuilt time flt ts).Ensures w₃
              (Committed flt (ts.map builtEntry) { w₃ with gens := w₁.gens }) :=
            commit_committed flt time (ts.map builtEntry) w₃ rfl hgens₃ hlocked
          have hintact : ∀ p ∈ ts.map builtEntry, Intact w₃.store p := by
            intro p hp path hpath _
            obtain ⟨t, ht, rfl⟩ := List.mem_map.1 hp
            obtain rfl : storePath t.2.path = path := Option.some.inj hpath
            exact dirIn_storePath.2 (hdirs ts rfl t ht)
          show (commitBuilt time flt ts).Ensures w₃ (Outcome w) ↔ (_ → ¬CommitBreaks flt w.gens)
          rw [← outcome_congr (show ({ w₃ with gens := w₁.gens } : World).gens = w.gens from hgens), ← hgens]
          refine (Committed.holds hcommit).trans ?_
          exact ⟨fun h _ => h.2, fun h => ⟨fun _ => hintact, h rfl⟩⟩

/-- What the steps of a plan do to the generations. -/
lemma steps_gens (env : Install.Env) (time : Nat) (attempts : Attempts) (txn : ReconcileTxn) (w : World) :
    (if txn.isEmpty then .ret true else reconcileExecute env time attempts txn :
      Prog World Act Bool).Ensures w fun _ w' =>
        ((∀ q ∈ txn.pkgRemove.zipIdx, ¬CarriedOut (attempts.remove q.2) q.1 w.gens) →
          Untouched w.gens w'.gens) ∧
        ((∃ q ∈ txn.pkgRemove.zipIdx, CarriedOut (attempts.remove q.2) q.1 w.gens) →
          Later (genDbCurrent w.gens) w'.gens) := by
  by_cases hempty : txn.isEmpty = true
  · rw [if_pos hempty]
    have hnone : txn.pkgRemove = [] := by
      simp only [ReconcileTxn.isEmpty, Bool.and_eq_true, List.isEmpty_iff] at hempty
      exact hempty.1.1.2
    refine ⟨fun _ => .refl _, ?_⟩
    rw [hnone]
    rintro ⟨q, hq, -⟩
    cases hq
  · rw [if_neg hempty, reconcileExecute, Prog.ensures_bind]
    refine (installAll_keeps _ w).mono fun ok w₁ h₁ => ?_
    rw [Prog.ensures_bind, ← h₁]
    by_cases hall : ∀ q ∈ txn.pkgRemove.zipIdx, ¬CarriedOut (attempts.remove q.2) q.1 w₁.gens
    · refine (removeAll_untouched hall).mono fun _ w' h' => ⟨fun _ => h', ?_⟩
      rintro ⟨q, hq, hc⟩
      exact absurd hc (hall q hq)
    · have hsome : ∃ q ∈ txn.pkgRemove.zipIdx, CarriedOut (attempts.remove q.2) q.1 w₁.gens := by
        simpa only [not_forall, not_not, exists_prop] using hall
      exact (removeAll_carriedOut hsome).mono fun _ w' h' => ⟨fun h => absurd h hall, fun _ => h'⟩

/-- A commit that fails after removals does not bring the old generation back. -/
lemma Committed.sameGeneration {pkgs : List GenPkg} {w₁ w' : World} (h : Committed flt pkgs w₁ false w')
    (hun : Untouched w.gens w₁.gens) : SameGeneration w.gens w'.gens ↔ ¬CommitBreaks flt w₁.gens := by
  rw [← h.same rfl, SameGeneration, SameGeneration, hun.current, hun.packages]

lemma apply_iff (env : Install.Env) (attempts : Attempts) (desired : Json) :
    (Producer.apply env attempts desired).Holds flt time w ↔
      (Producer.apply env attempts desired).Safe flt time w := by
  have hprog : (Producer.apply env attempts desired).prog flt time =
      (cmdApply env attempts flt time desired).bind fun r => .ret (applied r) := by
    show (cmdApply env attempts flt time desired).bind _ = _
    congr 1
    funext r
    cases r <;> rfl
  have hsteps := steps_gens env time attempts (reconcile desired w) w
  rw [Producer.Holds, hprog, Prog.ensures_bind, cmdApply, Prog.ensures_bind, Prog.ensures_read,
    Prog.ensures_bind]
  show _ ↔ ∀ ok w₁, Prog.run _ w = (ok, w₁) → _
  unfold Prog.Ensures at hsteps ⊢
  generalize (if (reconcile desired w).isEmpty then .ret true
    else reconcileExecute env time attempts (reconcile desired w) : Prog World Act Bool).run w = r
    at hsteps ⊢
  obtain ⟨ok, w₁⟩ := r
  obtain ⟨hun, hlater⟩ := hsteps
  have hremoved : ¬(∀ q ∈ (reconcile desired w).pkgRemove.zipIdx,
      ¬CarriedOut (attempts.remove q.2) q.1 w.gens) →
      genDbCurrent w.gens ≠ 0 ∧ Later (genDbCurrent w.gens) w₁.gens := by
    intro hall
    have hsome : ∃ q ∈ (reconcile desired w).pkgRemove.zipIdx,
        CarriedOut (attempts.remove q.2) q.1 w.gens := by
      simpa only [not_forall, not_not, exists_prop] using hall
    obtain ⟨q, -, hc⟩ := id hsome
    exact ⟨hc.1, hlater hsome⟩
  rw [forall_pair]
  cases ok with
  | false =>
    have hsame : SameGeneration w.gens w₁.gens ↔ ∀ q ∈ (reconcile desired w).pkgRemove.zipIdx,
        ¬CarriedOut (attempts.remove q.2) q.1 w.gens := by
      refine ⟨fun h => ?_, fun h => (hun h).sameGeneration⟩
      by_contra hall
      exact not_sameGeneration_of_later (hremoved hall).1 (hremoved hall).2 h
    show Outcome w false w₁ ↔ _
    simp [Outcome, hsame]
  | true =>
    have hcommit := commitDesired_committed flt time (reconcile desired w) w₁
    show (fun r w' => Outcome w (applied r) w')
      ((commitDesired (reconcile desired w) flt time).run w₁).1
      ((commitDesired (reconcile desired w) flt time).run w₁).2 ↔ _
    unfold Prog.Ensures at hcommit
    generalize (commitDesired (reconcile desired w) flt time).run w₁ = r at hcommit ⊢
    obtain ⟨r, w'⟩ := r
    have h : Committed flt (desiredPkgs (reconcile desired w) w₁) w₁ (applied r) w' := hcommit
    show Outcome w (applied r) w' ↔ _
    generalize applied r = ok at h ⊢
    cases ok with
    | true =>
      have hgo : CommitSucceeds flt w₁.gens := h.ok_iff.1 rfl
      have hpkgs : NoDangling w' ↔ ∀ p ∈ desiredPkgs (reconcile desired w) w₁, Intact w₁.store p := by
        unfold NoDangling
        rw [h.packages rfl, h.store]
      simp [Outcome, hpkgs, hgo]
    | false =>
      have hno : ¬CommitSucceeds flt w₁.gens := fun hgo => Bool.false_ne_true (h.ok_iff.2 hgo)
      have hsame : SameGeneration w.gens w'.gens ↔
          (∀ q ∈ (reconcile desired w).pkgRemove.zipIdx,
            ¬CarriedOut (attempts.remove q.2) q.1 w.gens) ∧ ¬CommitBreaks flt w₁.gens := by
        constructor
        · intro hs
          have hall : ∀ q ∈ (reconcile desired w).pkgRemove.zipIdx,
              ¬CarriedOut (attempts.remove q.2) q.1 w.gens := by
            by_contra hall
            have hlater' : Later (genDbCurrent w.gens) w'.gens :=
              fun l hl => (hremoved hall).2 l (h.link rfl l hl)
            exact not_sameGeneration_of_later (hremoved hall).1 hlater' hs
          exact ⟨hall, (h.sameGeneration (hun hall)).1 hs⟩
        · exact fun hs => (h.sameGeneration (hun hs.1)).2 hs.2
      simp [Outcome, hsame, hno]

end Commands

/-- A lock file from elsewhere: the path of its package is not there. -/
def foreignLock : List GenPkg := [⟨ascii "x", ascii "1", some (ascii "/nix/store/h-x-1"), ascii "repo"⟩]

end Two09.Transfer
