import Two09.Gc.Complete
import Two09.Install.Command

/-!
# `cmd_gc` beside `cmd_install`

`cmd_gc` takes no lock, and `cmd_install` takes it only after the store is filled. Kept apart, the
two commands leave a new generation whose paths are all there; side by side they need not.
-/

namespace Two09.Gc

open Two09.Lib Two09.Lib.Posix Two09.Gen Two09.Nar Two09.Store Two09.Install

/-! ### The collector step by step -/

/-- What the collector does to the world. -/
inductive GcAct
  | listGens
  | readCurrent
  | readManifest (id : Nat)
  | closure
  | deadPaths
  | remove (n : StoreName)
  | unregister (n : StoreName)
  | allPaths
  | listStore
  | statEntry (n : StoreName)
  | statPinned (id : Nat)
  | removeGen (id : Nat)

section Steps
variable (sh : Shell)

/-- The manifests one by one. -/
def readRoots : List Nat → Prog World GcAct (List Path)
  | [] => .ret []
  | id :: ids => (Prog.read (.readManifest id) fun w : World => recorded w.gens id).bind fun ps =>
    (readRoots ids).bind fun qs => .ret (ps ++ qs)

/-- `rm -rf`, and whether it returned 0. -/
def removeStep (n : StoreName) : Prog World GcAct Bool :=
  .step (.remove n) (fun w => { w with store := (sh.rm n w.store).1 }) fun w => (sh.rm n w.store).2

/-- Deletes one dead path. -/
def deleteDeadSteps (n : StoreName) : Prog World GcAct Unit :=
  (removeStep sh n).bind fun ok =>
    if ok then .modify (.unregister n) fun w => { w with sdb := w.sdb.unregister n } else .ret ()

/-- One round of the orphan scan. -/
def sweepEntrySteps (keep : StoreName → Bool) (n : StoreName) : Prog World GcAct Unit :=
  if n.hidden then .ret ()
  else (Prog.read (.statEntry n) fun w : World => (w.store.lookup n).any Entry.isDir).bind fun dir =>
    if dir && !keep n then (removeStep sh n).bind fun _ => .ret () else .ret ()

/-- Removes an old generation unless it is current or pinned. -/
def dropGenerationSteps (current id : Nat) : Prog World GcAct Unit :=
  if id = current then .ret ()
  else (Prog.read (.statPinned id) fun w : World =>
      (w.gens.dirs.lookup id).any GenDir.pinned).bind fun pinned =>
    if pinned then .ret ()
    else .modify (.removeGen id) fun w =>
      { w with gens := { w.gens with dirs := w.gens.dirs.erase id } }

/-- `cmd_gc` where nothing fails, act by act. -/
def gcSteps : Prog World GcAct Unit :=
  (Prog.read .listGens fun w : World => genDbList w.gens).bind fun ids =>
  (Prog.read .readCurrent fun w : World => genDbCurrent w.gens).bind fun current =>
  (readRoots ids).bind fun roots =>
  (Prog.read .closure fun w : World =>
    if roots = [] then [] else w.sdb.closureOf (fun _ => none) roots).bind fun closure =>
  (Prog.read .deadPaths fun w : World => w.sdb.deadPaths w.sdb.paths.length closure).bind fun dead =>
  (Prog.forEach (deleteDeadSteps sh) dead).bind fun _ =>
  (Prog.read .allPaths fun w : World => w.sdb.allPaths w.sdb.paths.length).bind fun allDb =>
  (Prog.read .listStore fun w : World => w.store.keys).bind fun names =>
  (Prog.forEach (sweepEntrySteps sh (keeps allDb closure roots)) names).bind fun _ =>
    if current = 0 then .ret () else .forEach (dropGenerationSteps current) ids

end Steps

/-! ### The steps come to the command -/

section Runs
variable {sh : Shell} {w : World} {n : StoreName}

lemma readRoots_ensures {ids : List Nat} {Q : List Path → World → Prop} :
    (readRoots ids).Ensures w Q ↔ Q (ids.flatMap (recorded w.gens)) w := by
  have hrun : (readRoots ids).run w = (ids.flatMap (recorded w.gens), w) := by
    induction ids with
    | nil => rfl
    | cons id ids ih => simp [readRoots, ih]
  rw [Prog.Ensures, hrun]

lemma deleteDeadSteps_run (n : StoreName) (w : World) :
    ((deleteDeadSteps sh n).run w).2 = deleteDead sh none w n := by
  unfold deleteDeadSteps deleteDead removeStep
  cases h : (sh.rm n w.store).2 <;> simp [h]

lemma sweepEntrySteps_run (keep : StoreName → Bool) (n : StoreName) (w : World) :
    ((sweepEntrySteps sh keep n).run w).2 = sweepEntry sh keep w n := by
  unfold sweepEntrySteps sweepEntry removeStep
  cases hh : n.hidden <;> cases hd : (w.store.lookup n).any Entry.isDir <;> cases hk : keep n <;>
    simp [hd]

lemma dropGenerationSteps_run (current id : Nat) (w : World) :
    ((dropGenerationSteps current id).run w).2 =
      { w with gens := dropGeneration current w.gens id } := by
  unfold dropGenerationSteps dropGeneration
  by_cases hid : id = current
  · simp [hid]
  · cases hp : (w.gens.dirs.lookup id).any GenDir.pinned <;> simp [hid, hp]

lemma gatherClosure_none (sdb : StoreDb) (gens : GenDb) :
    gatherClosure none sdb (gatherRoots none gens) =
      if rootsOf gens = [] then [] else sdb.closureOf (fun _ => none) (rootsOf gens) := by
  obtain ⟨hcount, hpaths, harray⟩ := whole_gatherRoots spares_none.1 gens
  have hrows : closureRows none = fun _ => none := rfl
  unfold gatherClosure
  by_cases h : rootsOf gens = []
  · have hzero : (gatherRoots none gens).count = 0 := by rw [hcount, h]; rfl
    rw [if_pos h, if_pos (.inl hzero)]
  · rw [if_neg h, if_neg, hpaths, hrows]
    rintro (h0 | ha | hf)
    · exact h (List.length_eq_zero_iff.1 (hcount.symm.trans h0))
    · exact h (harray ha)
    · cases hf

lemma dropSteps_run (current : Nat) (ids : List Nat) (w : World) :
    ((Prog.forEach (dropGenerationSteps current) ids).run w).2 =
      { w with gens := ids.foldl (dropGeneration current) w.gens } := by
  rw [Prog.run_forEach]
  induction ids generalizing w with
  | nil => rfl
  | cons id ids ih =>
    rw [List.foldl_cons, dropGenerationSteps_run, ih]
    rfl

lemma cmdGc_eq (sh : Shell) (w : World) :
    cmdGc sh none w =
      if genDbCurrent w.gens = 0 then sweep sh none (keepsAfter sh none w) (afterDead sh none w)
      else
        { sweep sh none (keepsAfter sh none w) (afterDead sh none w) with
          gens := (genDbList w.gens).foldl (dropGeneration (genDbCurrent w.gens))
            (sweep sh none (keepsAfter sh none w) (afterDead sh none w)).gens } := by
  have hcollect : collectWithDb sh none (gatherRoots none w.gens) w =
      (sweep sh none (keepsAfter sh none w) (afterDead sh none w), true) := by
    unfold collectWithDb
    exact if_neg fun h => (holds_gatherRoots spares_none.1 w.gens).not_dangling h.1
  have hopen : ¬ (none : Option Fault) = some .dbOpen := by simp
  have hlist : listGens none w.gens = genDbList w.gens := rfl
  unfold cmdGc
  simp only [if_neg hopen, hcollect, hlist, Bool.true_eq_false, false_or]

/-- **The acts of the collector, in one go, are `cmd_gc`.** -/
theorem gcSteps_run (sh : Shell) (w : World) :
    (gcSteps sh).Ensures w fun _ w' => w' = cmdGc sh none w := by
  have hdelete : (fun w n => ((deleteDeadSteps sh n).run w).2) = deleteDead sh none := by
    funext w n
    exact deleteDeadSteps_run n w
  have hsweep : ∀ keep, (fun w n => ((sweepEntrySteps sh keep n).run w).2) = sweepEntry sh keep := by
    intro keep
    funext w n
    exact sweepEntrySteps_run keep n w
  have hpaths : (gatherRoots none w.gens).paths = rootsOf w.gens :=
    (whole_gatherRoots spares_none.1 w.gens).2.1
  -- the world after the dead paths, and after the orphan scan
  have hafter : (w.sdb.deadPaths w.sdb.paths.length (if rootsOf w.gens = [] then []
      else w.sdb.closureOf (fun _ => none) (rootsOf w.gens))).foldl (deleteDead sh none) w =
        afterDead sh none w := by
    rw [afterDead, gatherClosure_none]
    rfl
  have hscan : (afterDead sh none w).store.keys.foldl
      (sweepEntry sh (keeps ((afterDead sh none w).sdb.allPaths (afterDead sh none w).sdb.paths.length)
        (if rootsOf w.gens = [] then [] else w.sdb.closureOf (fun _ => none) (rootsOf w.gens))
        (rootsOf w.gens))) (afterDead sh none w) =
        sweep sh none (keepsAfter sh none w) (afterDead sh none w) := by
    rw [keepsAfter, gatherClosure_none, hpaths]
    rfl
  have hroots : (genDbList w.gens).flatMap (recorded w.gens) = rootsOf w.gens := rfl
  simp only [gcSteps, Prog.ensures_bind, Prog.ensures_read, readRoots_ensures,
    Prog.ensures_forEach_iff, hdelete, hsweep, hroots, hafter, hscan]
  rw [cmdGc_eq]
  split_ifs with hcur
  · rfl
  · exact dropSteps_run _ _ _

end Runs

/-! ### The two commands -/

/-- The outcome of an install that returned 0: the new generation is there, and so is every path it
records, unless the old one recorded it and it was missing from the start. -/
structure Installed (w w' : World) : Prop where
  current : (w'.gens.dirs.lookup (genDbCurrent w'.gens)).isSome = true
  paths : ∀ n, storePath n ∈ recorded w'.gens (genDbCurrent w'.gens) →
    n ∈ w.store ∨ storePath n ∉ recorded w.gens (genDbCurrent w.gens) → n ∈ w'.store

/-- One of the commands is through before the other one starts, and the collector finds names it can
quote. -/
def Apart (w : World) (install : Prog World Act Bool) (sched : List Prog.Side) : Prop :=
  (∃ n m, sched = List.replicate n .left ++ List.replicate m .right ∧ Tamed w) ∨
    ∃ n m, sched = List.replicate n .right ++ List.replicate m .left ∧ Tamed (install.run w).2

section Commands
variable {sh : Shell} {env : Install.Env} {flt : Faults} {time : Nat} {pkgs : List Package} {w w' : World}
  {n : StoreName} {paths : List StoreName}

lemma current_dropOld (gens : GenDb) : genDbCurrent (dropOld gens) = genDbCurrent gens := by
  have key : ∀ (current : Nat) (ids : List Nat) (gens : GenDb),
      (ids.foldl (dropGeneration current) gens).link = gens.link := by
    intro current ids
    induction ids with
    | nil => exact fun gens => rfl
    | cons id ids ih =>
      intro gens
      rw [List.foldl_cons, ih]
      unfold dropGeneration
      split_ifs <;> rfl
  unfold dropOld
  split_ifs
  · rfl
  · rw [genDbCurrent, key]
    rfl

lemma lookup_dropOld_current (gens : GenDb) :
    (dropOld gens).dirs.lookup (genDbCurrent gens) = gens.dirs.lookup (genDbCurrent gens) := by
  unfold dropOld
  split_ifs
  · rfl
  · rw [lookup_dropGenerations, if_neg fun h => h.2 (.inl rfl)]

/-- A collection leaves the current generation as it is. -/
lemma cmdGc_current (sh : Shell) (w : World) :
    genDbCurrent (cmdGc sh none w).gens = genDbCurrent w.gens ∧
      (cmdGc sh none w).gens.dirs.lookup (genDbCurrent w.gens) =
        w.gens.dirs.lookup (genDbCurrent w.gens) ∧
      recorded (cmdGc sh none w).gens (genDbCurrent w.gens) =
        recorded w.gens (genDbCurrent w.gens) := by
  have hgens : (cmdGc sh none w).gens = dropOld w.gens :=
    (cmdGc_phases sh w spares_none.1 (by simp)).2.2
  rw [hgens]
  refine ⟨current_dropOld _, lookup_dropOld_current _, ?_⟩
  simp only [recorded, readPackages, lookup_dropOld_current]

/-- What the current generation records is live. -/
lemma live_of_recorded (hpos : 0 < genDbCurrent w.gens)
    (h : storePath n ∈ recorded w.gens (genDbCurrent w.gens)) : w.Live n := by
  refine Worklist.Reachable.root (mem_rootsOf.2 ⟨genDbCurrent w.gens, mem_genDbList.2 ⟨?_, hpos⟩, h⟩)
  cases hdir : w.gens.dirs.lookup (genDbCurrent w.gens) with
  | some d => rfl
  | none =>
    simp only [recorded, readPackages, hdir] at h
    cases h

lemma mem_cmdGc (htame : Tamed w) (hlive : w.Live n) (hn : n ∈ w.store) :
    n ∈ (cmdGc sh none w).store := by
  rw [← AList.lookup_isSome] at hn ⊢
  rw [(cmdGc_live spares_none.1 spares_none.2 (by simp) htame hlive).1]
  exact hn

/-- The collector first: it leaves what the current generation records, and the install adds. -/
lemma installed_after_gc (htame : Tamed w) (hc : Commits (cmdGc sh none w) w' paths)
    (hgrows : Grows (Target env pkgs) (cmdGc sh none w).store w'.store)
    (hpaths : ∀ n ∈ paths, n ∈ w'.store) : Installed w w' where
  current := hc.current
  paths n hn hstart := by
    obtain ⟨hcur, -, hrec⟩ := cmdGc_current sh w
    rcases hc.recorded n hn with h | ⟨hpos, h⟩
    · exact hpaths n h
    · rw [hcur] at hpos h
      rw [hrec] at h
      have hw : n ∈ w.store := hstart.resolve_right fun h' => h' h
      exact hgrows.mem (mem_cmdGc htame (live_of_recorded hpos h) hw)

/-- The install first: what it committed is live when the collector comes. -/
lemma installed_before_gc {w₁ : World} (htame : Tamed w₁) (hc : Commits w w₁ paths)
    (hgrows : Grows (Target env pkgs) w.store w₁.store) (hpaths : ∀ n ∈ paths, n ∈ w₁.store) :
    Installed w (cmdGc sh none w₁) := by
  obtain ⟨hcur, hdir, hrec⟩ := cmdGc_current sh w₁
  refine ⟨?_, fun n hn hstart => ?_⟩
  · rw [hcur, hdir]
    exact hc.current
  · rw [hcur, hrec] at hn
    refine mem_cmdGc htame (live_of_recorded hc.pos hn) ?_
    rcases hc.recorded n hn with h | ⟨-, h⟩
    · exact hpaths n h
    · exact hgrows.mem (hstart.resolve_right fun h' => h' h)

end Commands

/-- No cache configured, and every digest the same. -/
def bareEnv : Install.Env := ⟨fun _ => [], [], fun _ => none⟩

/-- An empty package `p-1`, and the store path it gets. -/
def tiny : Package := ⟨ascii "p", ascii "1", []⟩

def tinyName : StoreName := ⟨ascii "00000000000000000000000000000000-p-1", by decide⟩

lemma tamed_fresh : Tamed .fresh := by
  rintro n (⟨h, -⟩ | ⟨-, h, -⟩)
  · cases h
  · cases h

/-- The collector has its closure and the registered paths when the install unpacks, and lists the
store before the install registers what it unpacked. -/
def racing : List Prog.Side :=
  List.replicate 5 .left ++ List.replicate 4 .right ++ List.replicate 3 .left ++
    List.replicate 20 .right

end Two09.Gc
