import Two09.Gen.Db

/-!
# Generations under commits

`gen_db_commit` takes the id after the current one, whether or not that generation exists. So a
commit leaves the generations that were there alone exactly when it comes at the newest end.
-/

namespace Two09.Gen

open Two09.Lib

/-! ### What an operation can change -/

/-- Only the directory of generation `id` may differ. -/
def SameBut (id : Nat) (db db' : GenDb) : Prop :=
  ∀ g, g ≠ id → db'.dirs.lookup g = db.dirs.lookup g

section Frame
variable {db db' db'' : GenDb} {id : Nat} {flt : Faults} {f : GenDir → GenDir}

lemma SameBut.refl (id : Nat) (db : GenDb) : SameBut id db db := fun _ _ => rfl

lemma SameBut.trans (h : SameBut id db db') (h' : SameBut id db' db'') : SameBut id db db'' :=
  fun g hg => (h' g hg).trans (h g hg)

lemma sameBut_updateDir (db : GenDb) (id : Nat) (f : GenDir → GenDir) :
    SameBut id db (db.updateDir id f) := by
  intro g hg
  rw [GenDb.lookup_updateDir, if_neg hg]

lemma sameBut_mkdirs (db : GenDb) (id : Nat) : SameBut id db (db.mkdirs id) := by
  intro g hg
  rw [GenDb.lookup_mkdirs, if_neg hg]

/-- An act that leaves the link and all generations but `n` alone. -/
structure Prepares (n : Nat) (i : Step) (f : GenDb → GenDb) : Prop where
  notUnlink : i ≠ .unlink
  notSymlink : i ≠ .symlink
  sameBut : ∀ db, SameBut n db (f db)
  link : ∀ db, (f db).link = db.link

lemma writeManifest_prepares (flt : Faults) (n timestamp : Nat) (packages : List GenPkg) :
    (writeManifest flt n timestamp packages).All (Prepares n) := by
  unfold writeManifest
  cases flt.mkdir with
  | true => exact .ret
  | false =>
    refine .act ⟨by simp, by simp, fun db => sameBut_mkdirs db n, fun db => by simp⟩ fun _ => ?_
    cases flt.openManifest with
    | true => exact .ret
    | false =>
      refine .act ⟨by simp, by simp, fun db => sameBut_updateDir db n _, fun db => by simp⟩
        fun _ => .act ?_ fun _ => .ret
      exact ⟨by simp, by simp, fun db => sameBut_updateDir db n _, fun db => by simp⟩

lemma writeDiff_prepares (flt : Faults) (n parentId : Nat) (packages : List GenPkg) :
    (writeDiff flt n parentId packages).All (Prepares n) := by
  unfold writeDiff
  cases flt.openDiff with
  | true => exact .ret
  | false =>
    refine .act ⟨by simp, by simp, fun db => sameBut_updateDir db n _, fun db => by simp⟩
      fun _ => .act ?_ fun _ => .ret
    exact ⟨by simp, by simp, fun db => sameBut_updateDir db n _, fun db => by simp⟩

/-- Nothing but generation `n` changes while it is prepared. -/
lemma Prepares.reaches {α : Type} {p : Prog GenDb Step α} {ls : List Step} {n : Nat}
    (hp : p.All (Prepares n)) (h : p.Reaches db ls db') :
    (Step.unlink ∉ ls ∧ Step.symlink ∉ ls) ∧ SameBut n db db' ∧ db'.link = db.link := by
  refine ⟨⟨fun hmem => ?_, fun hmem => ?_⟩, ?_⟩
  · obtain ⟨f, hf⟩ := hp.labels_of_reaches h _ hmem
    exact hf.notUnlink rfl
  · obtain ⟨f, hf⟩ := hp.labels_of_reaches h _ hmem
    exact hf.notSymlink rfl
  · exact hp.rel_of_reaches (R := fun db db' => SameBut n db db' ∧ db'.link = db.link)
      (fun db => ⟨.refl n db, rfl⟩) (fun _ _ _ h h' => ⟨h.1.trans h'.1, h'.2.trans h.2⟩)
      (fun i f hf db => ⟨hf.sameBut db, hf.link db⟩) h

/-- **Preparing a generation touches only the one after the current one.** -/
lemma prepareGeneration_reaches {flt : Faults} {timestamp : Nat} {packages : List GenPkg}
    {ls : List Step} (h : (prepareGeneration flt timestamp packages).Reaches db ls db') :
    (Step.unlink ∉ ls ∧ Step.symlink ∉ ls) ∧ SameBut (genDbCurrent db + 1) db db' ∧
      db'.link = db.link := by
  rcases h.of_bind with h₁ | ⟨ls', rfl, h₁⟩
  · simp only [Prog.read, Prog.step, Prog.reaches_act, Prog.reaches_ret] at h₁
    rcases h₁ with ⟨rfl, rfl⟩ | ⟨_, rfl, rfl, rfl⟩
    · exact ⟨by simp, .refl _ _, rfl⟩
    · exact ⟨by simp, .refl _ _, rfl⟩
  · have hlabels : (Prog.read Step.readCurrent genDbCurrent : Prog GenDb Step Nat).labels db =
        [.readCurrent] := rfl
    have hall : ((writeManifest flt (genDbCurrent db + 1) timestamp packages).bind fun ok =>
        if ok then (writeDiff flt (genDbCurrent db + 1) (genDbCurrent db) packages).bind
          fun _ => .ret (some (genDbCurrent db + 1))
        else .ret none).All (Prepares (genDbCurrent db + 1)) := by
      refine (writeManifest_prepares flt _ timestamp packages).bind fun ok => ?_
      cases ok with
      | true => exact (writeDiff_prepares flt _ _ packages).bind fun _ => .ret
      | false => exact .ret
    simpa [hlabels] using Prepares.reaches hall h₁

lemma prepareGeneration_result {flt : Faults} {timestamp : Nat} {packages : List GenPkg} {id : Nat}
    (h : ((prepareGeneration flt timestamp packages).run db).1 = some id) :
    id = genDbCurrent db + 1 := by
  simp only [prepareGeneration, Prog.run_bind, Prog.run_read] at h
  split_ifs at h
  · simp only [Prog.run_bind, Prog.run_ret] at h
    exact (Option.some.inj h).symm
  · cases h

lemma repoint_dirs (flt : Faults) (id : Nat) (db : GenDb) :
    ((repoint flt id).run db).2.dirs = db.dirs := by
  unfold repoint
  cases flt.symlink <;> cases flt.unlink <;> cases h : db.link <;> simp [h]

/-- **A commit touches only the generation after the current one**, and returns no other id. -/
lemma genDbCommit_run (flt : Faults) (timestamp : Nat) (packages : List GenPkg) (db : GenDb) :
    SameBut (genDbCurrent db + 1) db ((genDbCommit flt timestamp packages).run db).2 ∧
    ∀ id, ((genDbCommit flt timestamp packages).run db).1 = some id → id = genDbCurrent db + 1 := by
  obtain ⟨-, hsame, -⟩ := prepareGeneration_reaches
    (Prog.reaches_run (prepareGeneration flt timestamp packages) db)
  have hres := @prepareGeneration_result db flt timestamp packages
  simp only [genDbCommit, Prog.run_bind]
  cases hid : ((prepareGeneration flt timestamp packages).run db).1 with
  | none => exact ⟨hsame, by simp⟩
  | some nextId =>
    refine ⟨fun g hg => ?_, fun id hret => ?_⟩
    · simp only [Prog.run_bind, Prog.run_ret]
      rw [repoint_dirs]
      exact hsame g hg
    · simp only [Prog.run_bind, Prog.run_ret] at hret
      split_ifs at hret
      exact hres (hid.trans hret)

lemma prepareGeneration_isSome (flt : Faults) (timestamp : Nat) (packages : List GenPkg)
    (db : GenDb) : ((prepareGeneration flt timestamp packages).run db).1.isSome =
      !(flt.mkdir || flt.openManifest) := by
  unfold prepareGeneration writeManifest
  cases flt.mkdir <;> cases flt.openManifest <;> simp

/-- Where a commit leaves a link that was there. -/
lemma genDbCommit_link (flt : Faults) (timestamp : Nat) (packages : List GenPkg)
    (hlink : db.link.isSome = true) :
    ((genDbCommit flt timestamp packages).run db).2.link =
      if flt.mkdir || flt.openManifest || flt.unlink then db.link
      else if flt.symlink then none else some (genDbCurrent db + 1) := by
  obtain ⟨-, -, hsame⟩ := prepareGeneration_reaches
    (Prog.reaches_run (prepareGeneration flt timestamp packages) db)
  have hsome := prepareGeneration_isSome flt timestamp packages db
  have hres := @prepareGeneration_result db flt timestamp packages
  simp only [genDbCommit, Prog.run_bind]
  cases hid : ((prepareGeneration flt timestamp packages).run db).1 with
  | none =>
    rw [hid, Option.isSome_none, eq_comm, Bool.not_eq_false'] at hsome
    rw [if_pos (by rw [hsome]; rfl)]
    exact hsame
  | some nextId =>
    rw [hid, Option.isSome_some, eq_comm, Bool.not_eq_true'] at hsome
    obtain rfl := hres hid
    obtain ⟨l, hl⟩ := Option.isSome_iff_exists.1 (hsame ▸ hlink)
    have hkept : db.link = some l := hsame.symm.trans hl
    simp only [hsome, Bool.false_or, Prog.run_bind, Prog.run_ret, repoint]
    cases flt.unlink <;> cases flt.symlink <;> simp [hl, hkept]

/-- No call fails that a commit needs: a link that is there must go before the new one is made. -/
def Repoints (flt : Faults) (db : GenDb) : Prop :=
  flt.mkdir = false ∧ flt.openManifest = false ∧ flt.symlink = false ∧
    (flt.unlink = false ∨ db.link = none)

/-- **When a commit returns an id.** -/
lemma genDbCommit_isSome (flt : Faults) (timestamp : Nat) (packages : List GenPkg) (db : GenDb) :
    ((genDbCommit flt timestamp packages).run db).1.isSome = true ↔ Repoints flt db := by
  obtain ⟨-, -, hsame⟩ := prepareGeneration_reaches
    (Prog.reaches_run (prepareGeneration flt timestamp packages) db)
  have hsome := prepareGeneration_isSome flt timestamp packages db
  unfold Repoints
  simp only [genDbCommit, Prog.run_bind]
  cases hid : ((prepareGeneration flt timestamp packages).run db).1 with
  | none =>
    rw [hid, Option.isSome_none, eq_comm, Bool.not_eq_false', Bool.or_eq_true] at hsome
    rcases hsome with h | h <;> simp [h]
  | some nextId =>
    rw [hid, Option.isSome_some, eq_comm, Bool.not_eq_true', Bool.or_eq_false_iff] at hsome
    simp only [hsome.1, hsome.2, true_and, Prog.run_bind, Prog.run_ret, repoint, ← hsame]
    cases flt.unlink <;> cases flt.symlink <;>
      cases hl : ((prepareGeneration flt timestamp packages).run db).2.link <;> simp [hl]

/-- Where a commit that fails leaves the link. -/
lemma genDbCommit_link_of_none {flt : Faults} {timestamp : Nat} {packages : List GenPkg}
    (h : ((genDbCommit flt timestamp packages).run db).1 = none) :
    ((genDbCommit flt timestamp packages).run db).2.link =
      if flt.mkdir || flt.openManifest || flt.unlink then db.link else none := by
  cases hlink : db.link with
  | some l =>
    have hnot : ¬Repoints flt db := by
      rw [← genDbCommit_isSome flt timestamp packages, h]
      exact Bool.false_ne_true
    rw [genDbCommit_link flt timestamp packages (by rw [hlink]; rfl), hlink]
    split_ifs with hflt hsym
    · rfl
    · rfl
    · simp only [Bool.or_eq_true, not_or, Bool.not_eq_true] at hflt hsym
      exact absurd ⟨hflt.1.1, hflt.1.2, hsym, .inl hflt.2⟩ hnot
  | none =>
    obtain ⟨-, -, hsame⟩ := prepareGeneration_reaches
      (Prog.reaches_run (prepareGeneration flt timestamp packages) db)
    rw [ite_self]
    rw [hlink] at hsame
    simp only [genDbCommit, Prog.run_bind] at h ⊢
    cases hid : ((prepareGeneration flt timestamp packages).run db).1 with
    | none => exact hsame
    | some nextId =>
      rw [hid] at h
      simp only [Prog.run_bind, Prog.run_ret, repoint] at h ⊢
      revert h
      cases flt.unlink <;> cases flt.symlink <;> simp [hsame]

/-- No act of a commit touches the lock. -/
lemma genDbCommit_locked (flt : Faults) (timestamp : Nat) (packages : List GenPkg) :
    (genDbCommit flt timestamp packages).All fun _ f => ∀ db, (f db).locked = db.locked := by
  have hmanifest : ∀ id, (writeManifest flt id timestamp packages).All
      fun _ f => ∀ db, (f db).locked = db.locked := by
    intro id
    unfold writeManifest
    cases flt.mkdir with
    | true => exact .ret
    | false =>
      refine .act (fun db => by simp) fun _ => ?_
      cases flt.openManifest with
      | true => exact .ret
      | false => exact .act (fun db => by simp) fun _ => .act (fun db => by simp) fun _ => .ret
  have hdiff : ∀ id parentId, (writeDiff flt id parentId packages).All
      fun _ f => ∀ db, (f db).locked = db.locked := by
    intro id parentId
    unfold writeDiff
    cases flt.openDiff with
    | true => exact .ret
    | false => exact .act (fun db => by simp) fun _ => .act (fun db => by simp) fun _ => .ret
  have hrepoint : ∀ id, (repoint flt id).All fun _ f => ∀ db, (f db).locked = db.locked := by
    intro id
    have hlink : ∀ db : GenDb,
        (if db.link.isSome then db else { db with link := some id }).locked = db.locked := by
      intro db
      split_ifs <;> rfl
    unfold repoint
    cases flt.unlink <;> cases flt.symlink
    · exact .act (fun _ => rfl) fun _ => .act hlink fun _ => .ret
    · exact .act (fun _ => rfl) fun _ => .ret
    · exact .act hlink fun _ => .ret
    · exact .ret
  refine Prog.All.bind ?_ fun r => ?_
  · refine .act (fun _ => rfl) fun db => (hmanifest _).bind fun ok => ?_
    cases ok with
    | true => exact (hdiff _ _).bind fun _ => .ret
    | false => exact .ret
  · cases r with
    | none => exact .ret
    | some nextId => exact (hrepoint nextId).bind fun _ => .ret

/-- Without a failing call a commit returns the next id. -/
lemma genDbCommit_faultless (timestamp : Nat) (packages : List GenPkg) (db : GenDb) :
    ((genDbCommit .none timestamp packages).run db).1 = some (genDbCurrent db + 1) := by
  simp [genDbCommit, prepareGeneration, writeManifest, writeDiff, repoint, Faults.none]

/-- The generation has a whole manifest with these packages. -/
def Written (db : GenDb) (id : Nat) (packages : List GenPkg) : Prop :=
  ∃ d, db.dirs.lookup id = some d ∧
    (File.read? d.manifest).map Manifest.packages = some packages

lemma Written.readPackages {packages : List GenPkg} (h : Written db id packages) :
    readPackages db id = packages := by
  obtain ⟨d, hd, hm⟩ := h
  simp [Gen.readPackages, hd, hm]

lemma Written.isSome {packages : List GenPkg} (h : Written db id packages) :
    (db.dirs.lookup id).isSome = true := by
  obtain ⟨d, hd, -⟩ := h
  rw [hd]
  rfl

lemma writeManifest_ensures (flt : Faults) (id timestamp : Nat) (packages : List GenPkg)
    (db : GenDb) :
    (writeManifest flt id timestamp packages).Ensures db fun ok db' =>
      ok = true → Written db' id packages := by
  unfold writeManifest
  split_ifs with hmkdir hopen
  · simp
  · simp [Prog.Ensures]
  · intro _
    simp only [Prog.run_act, Prog.run_ret, Written, GenDb.lookup_updateDir, GenDb.lookup_mkdirs,
      if_true, Option.map_some, Option.some.injEq, exists_eq_left']
    rfl

lemma writeDiff_ensures (flt : Faults) (id parentId : Nat) (packages pkgs : List GenPkg)
    (db : GenDb) (h : Written db id packages) :
    (writeDiff flt id parentId pkgs).Ensures db fun _ db' => Written db' id packages := by
  have hkeep : ∀ (db : GenDb) (diff : Option (File Diff)), Written db id packages →
      Written (db.updateDir id fun d => { d with diff := diff }) id packages := by
    rintro db diff ⟨d, hd, hm⟩
    exact ⟨{ d with diff := diff }, by rw [GenDb.lookup_updateDir, if_pos rfl, hd]; rfl, hm⟩
  unfold writeDiff
  by_cases hopen : flt.openDiff = true
  · rw [if_pos hopen]
    exact h
  · rw [if_neg hopen]
    exact hkeep _ _ (hkeep _ _ h)

/-- A link that is repointed names the new generation. -/
lemma repoint_ensures (flt : Faults) (id : Nat) (db : GenDb) :
    (repoint flt id).Ensures db fun ok db' =>
      db'.dirs = db.dirs ∧ (ok = true → db'.link = some id) := by
  unfold repoint Prog.Ensures
  cases flt.symlink <;> cases flt.unlink <;> cases h : db.link <;> simp [h]

/-- **A commit that returns an id** leaves the link on the generation after the current one, with the
packages in it. -/
lemma genDbCommit_ensures (flt : Faults) (timestamp : Nat) (packages : List GenPkg) (db : GenDb) :
    (genDbCommit flt timestamp packages).Ensures db fun r db' => ∀ id, r = some id →
      id = genDbCurrent db + 1 ∧ db'.link = some id ∧ Written db' id packages := by
  unfold genDbCommit prepareGeneration
  simp only [Prog.ensures_bind, Prog.ensures_read]
  refine (writeManifest_ensures flt _ timestamp packages db).mono fun ok db₁ h₁ => ?_
  cases ok with
  | false => simp
  | true =>
    simp only [if_true, Prog.ensures_bind, Prog.ensures_ret]
    refine (writeDiff_ensures flt _ _ _ packages db₁ (h₁ rfl)).mono fun _ db₂ h₂ => ?_
    refine (repoint_ensures flt _ db₂).mono fun ok db₃ h₃ id hid => ?_
    split_ifs at hid with hok
    obtain rfl := Option.some.inj hid
    refine ⟨rfl, h₃.2 hok, ?_⟩
    unfold Written
    rw [h₃.1]
    exact h₂

end Frame

/-! ### Runs -/

/-- An operation on the database, with the calls that fail in it. -/
inductive Op
  | commit (flt : Faults) (timestamp : Nat) (packages : List GenPkg)
  | rollback (flt : Faults) (id : Nat)
  | pin (id : Nat)
  deriving DecidableEq, Repr

/-- The id a commit returns, and the database after the operation. -/
def Op.exec (db : GenDb) : Op → Option Nat × GenDb
  | .commit flt timestamp packages => (genDbCommit flt timestamp packages).run db
  | .rollback flt id => (none, ((genDbRollback flt id).run db).2)
  | .pin id => (none, ((genDbPin id).run db).2)

def Op.isCommit : Op → Bool
  | .commit _ _ _ => true
  | _ => false

def Op.faultless : Op → Bool
  | .commit flt _ _ => flt = .none
  | _ => true

/-- The database after a sequence of operations. -/
def runOps (db : GenDb) (ops : List Op) : GenDb := ops.foldl (fun db op => (op.exec db).2) db

/-- `P` holds of every operation of the run, at the database it finds. -/
def AtEach (P : GenDb → Op → Prop) (db : GenDb) (ops : List Op) : Prop :=
  ∀ pre op post, ops = pre ++ op :: post → P (runOps db pre) op

/-- A commit changes nothing in the generations that exist, and returns the id of a new one. -/
def Immutable (db : GenDb) (op : Op) : Prop :=
  op.isCommit = true →
    (∀ g d, db.dirs.lookup g = some d → (op.exec db).2.dirs.lookup g = some d) ∧
    ∀ id, (op.exec db).1 = some id → db.dirs.lookup id = none

/-- A commit finds no generation at the id it will take. -/
def NextFree (db : GenDb) (op : Op) : Prop :=
  op.isCommit = true → db.dirs.lookup (genDbCurrent db + 1) = none

section Runs
variable {db : GenDb} {op : Op}

lemma NextFree.immutable (h : NextFree db op) : Immutable db op := by
  intro hop
  cases op with
  | commit flt timestamp packages =>
    obtain ⟨hsame, hid⟩ := genDbCommit_run flt timestamp packages db
    refine ⟨fun g d hg => ?_, fun id hret => ?_⟩
    · have hne : g ≠ genDbCurrent db + 1 := by
        rintro rfl
        rw [h hop] at hg
        cases hg
      exact (hsame g hne).trans hg
    · rw [hid id hret]
      exact h hop
  | rollback flt id => cases hop
  | pin id => cases hop

lemma Immutable.nextFree (h : Immutable db op) (hflt : op.faultless = true) : NextFree db op := by
  intro hop
  cases op with
  | commit flt timestamp packages =>
    have hnone : flt = .none := by simpa [Op.faultless] using hflt
    subst hnone
    exact (h hop).2 _ (genDbCommit_faultless timestamp packages db)
  | rollback flt id => cases hop
  | pin id => cases hop

/-- **Generations are immutable exactly in the runs that commit at the newest end.** With failing
calls the condition is enough; where nothing fails it is also necessary. -/
theorem generations_immutable (db : GenDb) (ops : List Op) :
    (AtEach NextFree db ops → AtEach Immutable db ops) ∧
    ((∀ op ∈ ops, op.faultless = true) → AtEach Immutable db ops → AtEach NextFree db ops) := by
  refine ⟨fun h pre op post heq => (h pre op post heq).immutable, fun hflt h pre op post heq => ?_⟩
  exact (h pre op post heq).nextFree (hflt op (by simp [heq]))

/-- Two commits, a rollback to the first of them, and a third commit. -/
def rollbackRun : List Op :=
  [.commit .none 1 [⟨ascii "a", ascii "1", none, ascii "repo"⟩],
    .commit .none 2 [⟨ascii "b", ascii "1", none, ascii "repo"⟩],
    .rollback .none 1,
    .commit .none 3 [⟨ascii "c", ascii "1", none, ascii "repo"⟩]]

/-- **A commit after a rollback overwrites the generation rolled back from.** -/
theorem generations_not_immutable : ¬ AtEach Immutable ⟨∅, none, false⟩ rollbackRun := by
  intro h
  have himm := h (rollbackRun.take 3) (.commit .none 3 [⟨ascii "c", ascii "1", none, ascii "repo"⟩])
    [] rfl rfl
  exact absurd (himm.2 2 (by decide)) (by decide)

end Runs

end Two09.Gen
