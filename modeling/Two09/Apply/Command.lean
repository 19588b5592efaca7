import Two09.Apply.Reconcile
import Two09.Install.Command

/-!
# `cmd_apply`

The plan of the reconciler is carried out step by step: failed installs and builds do not stop it,
and each removal goes through `cmd_remove`, which commits a generation of its own. Only then does
`cmd_apply` look whether something failed.
-/

namespace Two09.Apply

open Two09.Lib Two09.Gen Two09.Store Two09.Install

/-! ### Carrying out the plan -/

/-- How the install of one repository package goes: what the repositories know under its name, and
whether the download succeeds. -/
structure InstallAttempt where
  found : Option (Bytes × List (Lib.Posix.Name × Nar.FileTree))
  downloaded : Bool

/-- How one AUR package goes: `aur_clone`, `aur_build`, and the access check of `aur_install`. None of
them touches the store or the generations. -/
structure BuildAttempt where
  cloned : Bool
  built : Bool
  installed : Bool

/-- How the steps of a transaction go, by their positions in its lists. -/
structure Attempts where
  install : Nat → InstallAttempt
  build : Nat → BuildAttempt
  remove : Nat → Faults

section Execute
variable (env : Env) (time : Nat) (attempts : Attempts)

/-- `cmd_install_only`: unpacks and registers; the result says whether it returned 0. -/
def cmdInstallOnly (name : Bytes) (attempt : InstallAttempt) : Prog World Act Bool :=
  match attempt.found with
  | none => .ret false
  | some (version, contents) =>
    let pkg : Package := ⟨name, version, contents⟩
    (trySubstitute env pkg).bind fun
    | some _ => .ret true
    | none =>
      if attempt.downloaded then
        (directExtract env pkg).bind fun
        | none => .ret false
        | some a => (registerTarget env time (pkg, a)).bind fun _ => .ret true
      else .ret false

/-- All of them, whether or not one fails; the result says whether none did. -/
def installAll : List (Bytes × Nat) → Prog World Act Bool
  | [] => .ret true
  | (name, i) :: rest => (cmdInstallOnly env time name (attempts.install i)).bind fun ok =>
    (installAll rest).bind fun oks => .ret (ok && oks)

/-- One AUR package after the other, whether or not one fails. -/
def buildAll (aurInstall : List Bytes) : Bool :=
  aurInstall.zipIdx.all fun p =>
    (attempts.build p.2).cloned && (attempts.build p.2).built && (attempts.build p.2).installed

/-- The removals, whose results only make for warnings. -/
def removeAll (pkgRemove : List (Bytes × Nat)) : Prog World Act Unit :=
  .forEach (fun p => (cmdRemove (attempts.remove p.2) time p.1).bind fun _ => .ret ()) pkgRemove

/-- `reconcile_execute`; the result says whether it returned 0. -/
def reconcileExecute (txn : ReconcileTxn) : Prog World Act Bool :=
  (installAll env time attempts txn.repoInstall.zipIdx).bind fun ok =>
    (removeAll time attempts txn.pkgRemove.zipIdx).bind fun _ =>
      .ret (ok && buildAll attempts txn.aurInstall)

end Execute

/-! ### The new generation -/

section Commit
variable (txn : ReconcileTxn)

/-- `get_gen_index` and `gen_index_lookup`: the bucket lists the later entries first. -/
def genIndexLookup (gens : GenDb) (name : Bytes) : Option GenPkg :=
  (readCurrentGenPackages gens (genDbCurrent gens)).reverse.find? (·.name = name)

/-- The entry for a desired package: with a path from the store, or else from the index, or else with
the path it would have had. -/
def desiredPkg (w : World) (origin name : Bytes) : GenPkg :=
  let orElse (version : Bytes) (path : Option Bytes) : Option Bytes :=
    some (path.getD ((storeDir ++ name ++ ascii "-" ++ version).take (Lib.Posix.pathMax - 1)))
  match findStorePath name w with
  | some n =>
    let version := n.val.drop (name.length + 1)
    ⟨name, if version = [] then ascii "0.0.0" else version, some (storePath n), origin⟩
  | none =>
    match genIndexLookup w.gens name with
    | some e => ⟨name, e.version, orElse e.version e.storePath, e.origin⟩
    | none => ⟨name, ascii "0.0.0", orElse (ascii "0.0.0") none, origin⟩

def desiredPkgs (w : World) : List GenPkg :=
  txn.allRepoPkgs.map (desiredPkg w (ascii "repo")) ++ txn.allAurPkgs.map (desiredPkg w (ascii "aur"))

/-- What comes of `cmd_apply`. -/
inductive ApplyResult
  /-- "transaction had errors", "aborting - no generation committed" -/
  | aborted
  | failed
  | applied (id : Nat)
  deriving DecidableEq, Repr

/-- The list of the desired packages is made before the lock is taken. The manifest is then written
again, with the same packages. -/
def commitDesired (flt : Faults) (time : Nat) : Prog World Act ApplyResult :=
  (Prog.read .scanStore (desiredPkgs txn)).bind fun pkgs =>
    genDbLock.bind fun
    | false => .ret .failed
    | true => (commit flt time pkgs).bind fun id =>
      genDbUnlock.bind fun _ => .ret (match id with
        | none => .failed
        | some id => .applied id)

/-- The plan has nothing to do. -/
def ReconcileTxn.isEmpty : Bool :=
  txn.repoInstall.isEmpty && txn.aurInstall.isEmpty && txn.pkgRemove.isEmpty &&
    txn.svcEnable.isEmpty && txn.svcDisable.isEmpty

/-- `cmd_apply` of an evaluated configuration. -/
def cmdApply (env : Env) (attempts : Attempts) (flt : Faults) (time : Nat) (desired : Json) :
    Prog World Act ApplyResult :=
  (Prog.read .readPackages (reconcile desired)).bind fun txn =>
    (if txn.isEmpty then .ret true else reconcileExecute env time attempts txn).bind fun ok =>
      if ok then commitDesired txn flt time else .ret .aborted

end Commit

/-! ### What a removal does to the current generation -/

/-- The id of the current generation and its packages are the same. -/
def SameGeneration (gens gens' : GenDb) : Prop :=
  genDbCurrent gens' = genDbCurrent gens ∧
    readPackages gens' (genDbCurrent gens') = readPackages gens (genDbCurrent gens)

/-- The removal gets as far as to unlink the current generation: there is one, it lists the package,
the lock is free, and neither the new manifest nor the unlinking fails. -/
def CarriedOut (flt : Faults) (name : Bytes) (gens : GenDb) : Prop :=
  genDbCurrent gens ≠ 0 ∧ (readPackages gens (genDbCurrent gens)).any (·.name = name) = true ∧
    gens.locked = false ∧ (flt.mkdir || flt.openManifest || flt.unlink) = false

instance (flt : Faults) (name : Bytes) (gens : GenDb) : Decidable (CarriedOut flt name gens) := by
  unfold CarriedOut
  infer_instance

/-- The link is as it was, as are the lock and the packages it leads to. -/
structure Untouched (gens gens' : GenDb) : Prop where
  link : gens'.link = gens.link
  locked : gens'.locked = gens.locked
  packages : readPackages gens' (genDbCurrent gens) = readPackages gens (genDbCurrent gens)

/-- No generation is current, or one after the given one. -/
def Later (id : Nat) (gens : GenDb) : Prop := ∀ l, gens.link = some l → id < l

section Remove
variable {flt : Faults} {time : Nat} {name : Bytes} {w : World} {gens gens' gens'' : GenDb}

lemma Untouched.refl (gens : GenDb) : Untouched gens gens := ⟨rfl, rfl, rfl⟩

lemma Untouched.current (h : Untouched gens gens') : genDbCurrent gens' = genDbCurrent gens := by
  rw [genDbCurrent, genDbCurrent, h.link]

lemma Untouched.trans (h : Untouched gens gens') (h' : Untouched gens' gens'') :
    Untouched gens gens'' :=
  ⟨h'.link.trans h.link, h'.locked.trans h.locked, by
    have hpkgs := h'.packages
    rw [h.current] at hpkgs
    exact hpkgs.trans h.packages⟩

lemma Untouched.sameGeneration (h : Untouched gens gens') : SameGeneration gens gens' := by
  refine ⟨h.current, ?_⟩
  rw [h.current]
  exact h.packages

lemma Untouched.carriedOut (h : Untouched gens gens') :
    CarriedOut flt name gens' ↔ CarriedOut flt name gens := by
  unfold CarriedOut
  rw [h.current, h.packages, h.locked]

lemma not_sameGeneration_of_later (hcur : genDbCurrent gens ≠ 0) (h : Later (genDbCurrent gens) gens') :
    ¬ SameGeneration gens gens' := by
  rintro ⟨hid, -⟩
  cases hlink : gens'.link with
  | none =>
    rw [genDbCurrent, hlink] at hid
    exact hcur hid.symm
  | some l =>
    have hlt := h l hlink
    rw [← hid, genDbCurrent, hlink] at hlt
    exact absurd hlt (lt_irrefl l)

lemma isSome_link_of_current (h : genDbCurrent gens ≠ 0) : gens.link.isSome = true := by
  cases hlink : gens.link with
  | none =>
    rw [genDbCurrent, hlink] at h
    exact absurd rfl h
  | some l => rfl

/-- What a removal does to the link. -/
lemma cmdRemove_link (flt : Faults) (time : Nat) (name : Bytes) (w : World) :
    (cmdRemove flt time name).Ensures w fun _ w' =>
      (CarriedOut flt name w.gens → w'.gens.link = if flt.symlink then none
        else some (genDbCurrent w.gens + 1)) ∧
      (¬ CarriedOut flt name w.gens → Untouched w.gens w'.gens) := by
  rw [cmdRemove, Prog.ensures_bind, Prog.ensures_read]
  by_cases hcur : genDbCurrent w.gens = 0
  · rw [if_pos hcur]
    exact ⟨fun h => absurd hcur h.1, fun _ => .refl _⟩
  · rw [if_neg hcur, Prog.ensures_bind, Prog.ensures_read]
    by_cases hany : (readPackages w.gens (genDbCurrent w.gens)).any (·.name = name) = true
    · rw [if_pos hany, Prog.ensures_bind, genDbLock, Prog.ensures_step]
      cases hlocked : w.gens.locked with
      | true =>
        refine ⟨fun h => absurd (hlocked.symm.trans h.2.2.1) (by simp), fun _ => ?_⟩
        simp only [if_true]
        exact .refl _
      | false =>
        simp only [Bool.not_false, Prog.ensures_bind, commit_ensures, Bool.false_eq_true, if_false]
        set gens₁ : GenDb := { w.gens with locked := true }
        set pkgs := (readPackages w.gens (genDbCurrent w.gens)).filter (·.name ≠ name)
        have hlink := genDbCommit_link flt time pkgs
          (show gens₁.link.isSome = true from isSome_link_of_current hcur)
        have hsame := (genDbCommit_run flt time pkgs gens₁).1
        show _ ∧ _
        refine ⟨fun h => ?_, fun h => ⟨?_, hlocked.symm, ?_⟩⟩
        · exact hlink.trans (if_neg (by rw [h.2.2.2]; exact Bool.false_ne_true))
        · refine hlink.trans (if_pos ?_)
          by_contra hflt
          exact h ⟨hcur, hany, hlocked, Bool.eq_false_of_not_eq_true hflt⟩
        · have hdir := hsame (genDbCurrent w.gens) (Nat.ne_of_lt (Nat.lt_succ_self _))
          exact readPackages_congr hdir
    · rw [if_neg hany]
      exact ⟨fun h => absurd h.2.1 hany, fun _ => .refl _⟩

variable {attempts : Attempts} {ps : List (Bytes × Nat)} {id : Nat}

lemma cmdRemove_later (h : Later id w.gens) :
    (cmdRemove flt time name).Ensures w fun _ w' => Later id w'.gens := by
  refine (cmdRemove_link flt time name w).mono fun _ w' h' => ?_
  by_cases hc : CarriedOut flt name w.gens
  · obtain ⟨l, hl⟩ := Option.isSome_iff_exists.1 (isSome_link_of_current hc.1)
    have hcur : genDbCurrent w.gens = l := by rw [genDbCurrent, hl, Option.getD_some]
    intro m hm
    rw [h'.1 hc] at hm
    split_ifs at hm
    obtain rfl := Option.some.inj hm
    rw [hcur]
    exact Nat.lt_succ_of_lt (h l hl)
  · intro m hm
    rw [(h'.2 hc).link] at hm
    exact h m hm

/-- A removal that is carried out leaves no generation current or a later one. -/
lemma cmdRemove_carriedOut (hc : CarriedOut flt name w.gens) :
    (cmdRemove flt time name).Ensures w fun _ w' => Later (genDbCurrent w.gens) w'.gens := by
  refine (cmdRemove_link flt time name w).mono fun _ w' h' m hm => ?_
  rw [h'.1 hc] at hm
  split_ifs at hm
  obtain rfl := Option.some.inj hm
  exact Nat.lt_succ_self _

lemma removeAll_cons (p : Bytes × Nat) (ps : List (Bytes × Nat)) {Q : Unit → World → Prop} :
    (removeAll time attempts (p :: ps)).Ensures w Q ↔
      (cmdRemove (attempts.remove p.2) time p.1).Ensures w fun _ w' =>
        (removeAll time attempts ps).Ensures w' Q := by
  simp only [removeAll, Prog.forEach, Prog.ensures_bind, Prog.ensures_ret]

lemma removeAll_untouched (h : ∀ p ∈ ps, ¬ CarriedOut (attempts.remove p.2) p.1 w.gens) :
    (removeAll time attempts ps).Ensures w fun _ w' => Untouched w.gens w'.gens := by
  induction ps generalizing w with
  | nil => exact .refl _
  | cons p ps ih =>
    rw [removeAll_cons]
    refine (cmdRemove_link _ time p.1 w).mono fun _ w₁ h₁ => ?_
    have hun := h₁.2 (h p List.mem_cons_self)
    refine (ih fun q hq hc => ?_).mono fun _ w' h' => hun.trans h'
    exact h q (List.mem_cons_of_mem _ hq) (hun.carriedOut.1 hc)

lemma removeAll_later (h : Later id w.gens) :
    (removeAll time attempts ps).Ensures w fun _ w' => Later id w'.gens := by
  induction ps generalizing w with
  | nil => exact h
  | cons p ps ih =>
    rw [removeAll_cons]
    exact (cmdRemove_later h).mono fun _ w₁ h₁ => ih h₁

/-- The first removal that is carried out makes the difference. -/
lemma removeAll_carriedOut (h : ∃ p ∈ ps, CarriedOut (attempts.remove p.2) p.1 w.gens) :
    (removeAll time attempts ps).Ensures w fun _ w' => Later (genDbCurrent w.gens) w'.gens := by
  induction ps generalizing w with
  | nil =>
    obtain ⟨p, hp, -⟩ := h
    cases hp
  | cons p ps ih =>
    rw [removeAll_cons]
    by_cases hc : CarriedOut (attempts.remove p.2) p.1 w.gens
    · exact (cmdRemove_carriedOut hc).mono fun _ w₁ h₁ => removeAll_later h₁
    · refine (cmdRemove_link _ time p.1 w).mono fun _ w₁ h₁ => ?_
      have hun := h₁.2 hc
      have hrest : ∃ q ∈ ps, CarriedOut (attempts.remove q.2) q.1 w₁.gens := by
        obtain ⟨q, hq, hcq⟩ := h
        rcases List.mem_cons.1 hq with rfl | hq
        · exact absurd hcq hc
        · exact ⟨q, hq, hun.carriedOut.2 hcq⟩
      exact (ih hrest).mono fun _ w' h' => by rwa [hun.current] at h'

end Remove

/-! ### A plan that fails -/

section Abort
variable {env : Env} {time : Nat} {attempts : Attempts}

/-- Installing without committing leaves the generations alone. -/
lemma cmdInstallOnly_keeps (name : Bytes) (attempt : InstallAttempt) (w : World) :
    (cmdInstallOnly env time name attempt).Ensures w fun _ w' => w'.gens = w.gens := by
  unfold cmdInstallOnly
  cases attempt.found with
  | none => rfl
  | some found =>
    rw [Prog.ensures_bind]
    refine (trySubstitute_adds (F := fun _ => True) w).mono fun r w₁ h₁ => ?_
    cases r with
    | some n => exact h₁.gens
    | none =>
      cases attempt.downloaded with
      | false => exact h₁.gens
      | true =>
        simp only [if_true, Prog.ensures_bind]
        refine (directExtract_adds (F := fun _ => True) (fun _ _ _ => trivial) w₁).mono
          fun r w₂ h₂ => ?_
        cases r with
        | none => exact h₂.gens.trans h₁.gens
        | some a =>
          rw [Prog.ensures_bind]
          exact (registerTarget_keeps _ w₂).mono fun _ w' h' => h'.2.trans (h₂.gens.trans h₁.gens)

lemma installAll_keeps (ps : List (Bytes × Nat)) (w : World) :
    (installAll env time attempts ps).Ensures w fun _ w' => w'.gens = w.gens := by
  induction ps generalizing w with
  | nil => rfl
  | cons p ps ih =>
    rw [installAll, Prog.ensures_bind]
    refine (cmdInstallOnly_keeps p.1 _ w).mono fun _ w₁ h₁ => ?_
    rw [Prog.ensures_bind]
    exact (ih w₁).mono fun _ w' h' => h'.trans h₁

/-- **What carrying out a plan does to the current generation**, whatever its result: nothing, exactly
if no removal is carried out. -/
lemma reconcileExecute_sameGeneration (env : Env) (time : Nat) (attempts : Attempts)
    (txn : ReconcileTxn) (w : World) :
    (reconcileExecute env time attempts txn).Ensures w fun _ w' =>
      (SameGeneration w.gens w'.gens ↔
        ∀ p ∈ txn.pkgRemove.zipIdx, ¬ CarriedOut (attempts.remove p.2) p.1 w.gens) := by
  rw [reconcileExecute, Prog.ensures_bind]
  refine (installAll_keeps _ w).mono fun ok w₁ h₁ => ?_
  rw [Prog.ensures_bind]
  by_cases hall : ∀ p ∈ txn.pkgRemove.zipIdx, ¬ CarriedOut (attempts.remove p.2) p.1 w.gens
  · refine (removeAll_untouched (w := w₁) (h₁ ▸ hall)).mono fun _ w' h' => ?_
    rw [h₁] at h'
    exact iff_of_true h'.sameGeneration hall
  · have hsome : ∃ p ∈ txn.pkgRemove.zipIdx, CarriedOut (attempts.remove p.2) p.1 w.gens := by
      simpa only [not_forall, not_not, exists_prop] using hall
    refine (removeAll_carriedOut (w := w₁) (h₁ ▸ hsome)).mono fun _ w' h' => ?_
    rw [h₁] at h'
    obtain ⟨p, -, hc⟩ := hsome
    exact iff_of_false (not_sameGeneration_of_later hc.1 h') hall

end Abort

/-! ### A removal beside a failed install -/

/-- Nothing is known to the repositories, and nothing else fails. -/
def noRepos : Attempts := ⟨fun _ => ⟨none, false⟩, fun _ => ⟨true, true, true⟩, fun _ => .none⟩

def noCaches : Env := ⟨fun _ => [], ascii "1", fun _ => none⟩

/-- Generation 1 lists `a`, and nothing is in the store. -/
def listsA : World := ⟨gensA, .empty, ∅⟩

/-- The manifest that asks for `b` instead. -/
def wantsB : Json := .object [(ascii "packages", .array [.string (ascii "b")])]

end Two09.Apply
