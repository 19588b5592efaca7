import Two09.Gen.Immutable

/-!
# Crashes while the current generation is switched

A commit or a rollback removes the `current` link before it makes the new one. So a crash is
harmless exactly when it does not fall between the two.
-/

namespace Two09.Gen

open Two09.Lib

/-- The generation has a manifest that is not cut short. -/
def Complete (db : GenDb) (id : Nat) : Prop :=
  ∃ d m, db.dirs.lookup id = some d ∧ d.manifest = some (.whole m)

/-- The operations that switch the current generation. -/
inductive Switch
  | commit (timestamp : Nat) (packages : List GenPkg)
  | rollback (id : Nat)

/-- The generation an operation switches to when `c` is current. -/
def Switch.target (c : Nat) : Switch → Nat
  | .commit _ _ => c + 1
  | .rollback id => id

/-- The operation, with the calls that fail in it; its result does not matter here. -/
def Switch.prog (flt : Faults) : Switch → Prog GenDb Step Unit
  | .commit timestamp packages => (genDbCommit flt timestamp packages).bind fun _ => .ret ()
  | .rollback id => (genDbRollback flt id).bind fun _ => .ret ()

/-- After a crash the current generation is the old one or the new one, and complete. -/
def Recovers (c n : Nat) (db : GenDb) : Prop :=
  (genDbCurrent db = c ∨ genDbCurrent db = n) ∧ genDbCurrent db ≠ 0 ∧ Complete db (genDbCurrent db)

/-- The crash does not fall between `unlink` and `symlink`, and a rollback is to a complete
generation. -/
def SafePoint (db : GenDb) (sw : Switch) (ls : List Step) : Prop :=
  Step.unlink ∈ ls → Step.symlink ∈ ls ∧ ∀ id, sw = .rollback id → Complete db id

/-! ### Before the link is touched -/

section Preparation
variable {db db' : GenDb} {c n : Nat} {flt : Faults} {ls : List Step}

lemma Complete.of_sameBut (h : Complete db c) (hsame : SameBut n db db') (hne : c ≠ n) :
    Complete db' c := by
  obtain ⟨d, m, hd, hm⟩ := h
  exact ⟨d, m, (hsame c hne).trans hd, hm⟩

lemma Complete.of_dirs (h : Complete db c) (hdirs : db'.dirs = db.dirs) : Complete db' c := by
  obtain ⟨d, m, hd, hm⟩ := h
  exact ⟨d, m, hdirs ▸ hd, hm⟩

/-- A manifest that was written is complete. -/
lemma writeManifest_complete {timestamp : Nat} {packages : List GenPkg}
    (h : ((writeManifest flt n timestamp packages).run db).1 = true) :
    Complete ((writeManifest flt n timestamp packages).run db).2 n := by
  revert h
  unfold writeManifest
  cases flt.mkdir with
  | true => exact fun h => absurd h (by simp)
  | false =>
    cases flt.openManifest with
    | true => exact fun h => absurd h (by simp)
    | false =>
      intro _
      let d := (db.dirs.lookup n).getD .empty
      refine ⟨{ d with manifest := some (.whole ⟨n, timestamp, packages⟩) }, _, ?_, rfl⟩
      simp only [Bool.false_eq_true, if_false, Prog.run_act, Prog.run_ret]
      rw [GenDb.lookup_updateDir, if_pos rfl, GenDb.lookup_updateDir, if_pos rfl,
        GenDb.lookup_mkdirs, if_pos rfl]
      rfl

/-- Writing the diff leaves the manifest alone. -/
lemma writeDiff_complete {parentId : Nat} {packages : List GenPkg} (h : Complete db n)
    (hr : (writeDiff flt n parentId packages).Reaches db ls db') : Complete db' n := by
  have keep : ∀ (db : GenDb) (diff : Option (File Diff)), Complete db n →
      Complete (db.updateDir n fun d => { d with diff := diff }) n := by
    rintro db diff ⟨d, m, hd, hm⟩
    refine ⟨{ d with diff := diff }, m, ?_, hm⟩
    rw [GenDb.lookup_updateDir, if_pos rfl, hd]
    rfl
  have hall : (writeDiff flt n parentId packages).All
      fun _ f => ∀ db, Complete db n → Complete (f db) n := by
    unfold writeDiff
    cases flt.openDiff with
    | true => exact .ret
    | false => exact .act (fun db => keep db _) fun _ => .act (fun db => keep db _) fun _ => .ret
  exact hall.rel_of_reaches (R := fun db db' => Complete db n → Complete db' n)
    (fun _ h => h) (fun _ _ _ h h' hc => h' (h hc)) (fun _ _ hf => hf) hr h

end Preparation

/-! ### The switch of the link -/

/-- Where a repointing from `c` to `n` can be cut off: with the old link, with none, with the new
one. -/
inductive LinkPoint (c n : Nat) (db db' : GenDb) (ls : List Step) : Prop
  | old : db'.link = some c → Step.unlink ∉ ls → LinkPoint c n db db' ls
  | gone : db'.link = none → Step.unlink ∈ ls → Step.symlink ∉ ls → LinkPoint c n db db' ls
  | new : db'.link = some n → Step.unlink ∈ ls → Step.symlink ∈ ls → LinkPoint c n db db' ls

section Switching
variable {db db' : GenDb} {c n : Nat} {flt : Faults} {ls : List Step}

lemma repoint_reaches (hlink : db.link = some c) (h : (repoint flt n).Reaches db ls db') :
    db'.dirs = db.dirs ∧ LinkPoint c n db db' ls := by
  unfold repoint at h
  cases hu : flt.unlink <;> cases hs : flt.symlink <;>
    simp only [hu, hs, Bool.false_eq_true, if_false, if_true, Prog.reaches_act,
      Prog.reaches_ret] at h
  · rcases h with ⟨rfl, rfl⟩ | ⟨ls₁, rfl, ⟨rfl, rfl⟩ | ⟨ls₂, rfl, rfl, rfl⟩⟩
    · exact ⟨rfl, .old hlink (by simp)⟩
    · exact ⟨rfl, .gone rfl (by simp) (by simp)⟩
    · exact ⟨rfl, .new rfl (by simp) (by simp)⟩
  · rcases h with ⟨rfl, rfl⟩ | ⟨ls₁, rfl, rfl, rfl⟩
    · exact ⟨rfl, .old hlink (by simp)⟩
    · exact ⟨rfl, .gone rfl (by simp) (by simp)⟩
  · rcases h with ⟨rfl, rfl⟩ | ⟨ls₁, rfl, rfl, rfl⟩
    · exact ⟨rfl, .old hlink (by simp)⟩
    · simp only [hlink, Option.isSome_some, if_true]
      exact ⟨trivial, .old hlink (by simp)⟩
  · obtain ⟨rfl, rfl⟩ := h
    exact ⟨rfl, .old hlink (by simp)⟩

/-- At a point of the repointing the database recovers exactly when the link is not gone, and a
new link leads to a complete generation. -/
lemma LinkPoint.recovers (h : LinkPoint c n db db' ls) (hc : 0 < c) (hn : 0 < n)
    (hcomp : Complete db' c) :
    Recovers c n db' ↔ (Step.unlink ∈ ls → Step.symlink ∈ ls ∧ Complete db' n) := by
  unfold Recovers genDbCurrent
  cases h with
  | old hl hu => simp [hl, hu, hcomp]; omega
  | gone hl hu hs => simp [hl, hu, hs]
  | new hl hu hs => simp [hl, hu, hs]; omega

end Switching

/-! ### The operations -/

section Operations
variable {db db' : GenDb} {c : Nat} {flt : Faults} {ls : List Step}

/-- Until the link is touched the old generation is current. -/
lemma recovers_of_prepared {n : Nat} (hlink : db.link = some c) (hc : 0 < c)
    (hcomp : Complete db c) (hne : c ≠ n) (hsame : SameBut n db db') (hl : db'.link = db.link) :
    Recovers c n db' := by
  have hcur : genDbCurrent db' = c := by simp [genDbCurrent, hl, hlink]
  refine ⟨.inl hcur, by omega, ?_⟩
  rw [hcur]
  exact hcomp.of_sameBut hsame hne

lemma prepareGeneration_complete {timestamp : Nat} {packages : List GenPkg} {id : Nat}
    (h : ((prepareGeneration flt timestamp packages).run db).1 = some id) :
    Complete ((prepareGeneration flt timestamp packages).run db).2 id := by
  simp only [prepareGeneration, Prog.run_bind, Prog.run_read] at h ⊢
  cases hok : ((writeManifest flt (genDbCurrent db + 1) timestamp packages).run db).1 with
  | false => simp [hok] at h
  | true =>
    simp only [hok, if_true, Prog.run_bind, Prog.run_ret] at h ⊢
    obtain rfl : genDbCurrent db + 1 = id := Option.some.inj h
    exact writeDiff_complete (writeManifest_complete hok) (Prog.reaches_run _ _)

/-- **Where a commit can be cut off.** -/
lemma commit_recovers (timestamp : Nat) (packages : List GenPkg) (hlink : db.link = some c)
    (hc : 0 < c) (hcomp : Complete db c)
    (h : (genDbCommit flt timestamp packages).Reaches db ls db') :
    Recovers c (c + 1) db' ↔ (Step.unlink ∈ ls → Step.symlink ∈ ls) := by
  have hne : c ≠ c + 1 := by omega
  have hcur : genDbCurrent db = c := by simp [genDbCurrent, hlink]
  rcases h.of_bind with h₁ | ⟨ls', rfl, h₁⟩
  · -- the link has not been touched
    obtain ⟨⟨hu, -⟩, hsame, hl⟩ := prepareGeneration_reaches h₁
    rw [hcur] at hsame
    exact ⟨fun _ hmem => absurd hmem hu,
      fun _ => recovers_of_prepared hlink hc hcomp hne hsame hl⟩
  · have hr := Prog.reaches_run (prepareGeneration flt timestamp packages) db
    obtain ⟨⟨hu, hs⟩, hsame, hl⟩ := prepareGeneration_reaches hr
    rw [hcur] at hsame
    simp only [List.mem_append, hu, hs, false_or]
    cases hid : ((prepareGeneration flt timestamp packages).run db).1 with
    | none =>
      simp only [hid, Prog.reaches_ret] at h₁
      obtain ⟨rfl, rfl⟩ := h₁
      simpa using recovers_of_prepared hlink hc hcomp hne hsame hl
    | some nextId =>
      obtain rfl : nextId = c + 1 := hcur ▸ prepareGeneration_result hid
      have hnew := prepareGeneration_complete hid
      simp only [hid] at h₁
      obtain ⟨hdirs, hpt⟩ := repoint_reaches (hl.trans hlink) h₁.of_bind_ret
      rw [hpt.recovers hc (by omega) ((hcomp.of_sameBut hsame hne).of_dirs hdirs)]
      simp [hnew.of_dirs hdirs]

/-- **Where a rollback can be cut off.** -/
lemma rollback_recovers {id : Nat} (hlink : db.link = some c) (hc : 0 < c) (hid : 0 < id)
    (hcomp : Complete db c) (h : (genDbRollback flt id).Reaches db ls db') :
    Recovers c id db' ↔ (Step.unlink ∈ ls → Step.symlink ∈ ls ∧ Complete db id) := by
  have hcur : Recovers c id db := by
    have hcur : genDbCurrent db = c := by simp [genDbCurrent, hlink]
    exact ⟨.inl hcur, by omega, hcur ▸ hcomp⟩
  rcases h.of_bind with h₁ | ⟨ls', rfl, h₁⟩
  · simp only [Prog.read, Prog.step, Prog.reaches_act, Prog.reaches_ret] at h₁
    rcases h₁ with ⟨rfl, rfl⟩ | ⟨_, rfl, rfl, rfl⟩
    · simpa using hcur
    · simpa using hcur
  · have hlabels : (Prog.read Step.statDir fun db : GenDb => (db.dirs.lookup id).isSome).labels db =
        [.statDir] := rfl
    simp only [Prog.run_read] at h₁
    cases hdir : (db.dirs.lookup id).isSome with
    | false =>
      simp only [hdir, Bool.false_eq_true, if_false, Prog.reaches_ret] at h₁
      obtain ⟨rfl, rfl⟩ := h₁
      simpa [hlabels] using hcur
    | true =>
      simp only [hdir, if_true] at h₁
      obtain ⟨hdirs, hpt⟩ := repoint_reaches hlink h₁
      have hiff : Complete db' id ↔ Complete db id :=
        ⟨fun hc => hc.of_dirs hdirs.symm, fun hc => hc.of_dirs hdirs⟩
      simpa [hlabels, hiff] using hpt.recovers hc hid (hcomp.of_dirs hdirs)

/-- **A generation switch is crash-atomic exactly outside the gap** between the removal of the old
link and the creation of the new one, and a rollback needs a complete generation to go to. -/
theorem switch_recovers_iff (sw : Switch) (hlink : db.link = some c) (hc : 0 < c)
    (hn : 0 < sw.target c) (hcomp : Complete db c) (h : (sw.prog flt).Reaches db ls db') :
    Recovers c (sw.target c) db' ↔ SafePoint db sw ls := by
  cases sw with
  | commit timestamp packages =>
    simpa [SafePoint, Switch.target] using
      commit_recovers timestamp packages hlink hc hcomp h.of_bind_ret
  | rollback id =>
    simpa [SafePoint, Switch.target] using rollback_recovers hlink hc hn hcomp h.of_bind_ret

/-- A database with one generation, which is current. -/
def oneGeneration : GenDb where
  dirs := AList.insert 1 ⟨some (.whole ⟨1, 0, []⟩), none, false⟩ ∅
  link := some 1
  locked := false

lemma oneGeneration_complete : Complete oneGeneration 1 :=
  ⟨⟨some (.whole ⟨1, 0, []⟩), none, false⟩, ⟨1, 0, []⟩, by decide, rfl⟩

theorem switch_recovers_commit :
    Recovers 1 2 (((Switch.commit 1 []).prog .none).run oneGeneration).2 ↔
      SafePoint oneGeneration (.commit 1 []) (((Switch.commit 1 []).prog .none).labels oneGeneration) :=
  switch_recovers_iff (.commit 1 []) rfl (by decide) (by decide) oneGeneration_complete
    (Prog.reaches_run _ _)

/-- **A commit that crashes after `unlink` leaves no current generation.** -/
theorem switch_not_atomic :
    ¬ ∀ ls db', ((Switch.commit 1 []).prog .none).Reaches oneGeneration ls db' →
      Recovers 1 2 db' := by
  intro h
  have hcrash := h [.readCurrent, .mkdir, .openManifest, .writeManifest, .openDiff, .writeDiff,
    .unlink] _ (.act (.act (.act (.act (.act (.act (.act .start)))))))
  exact hcrash.2.1 (by decide)

end Operations

end Two09.Gen
