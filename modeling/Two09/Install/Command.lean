import Two09.Gen.Immutable
import Two09.Install.Extract

/-!
# `cmd_install` and `cmd_remove`

The store is filled and the packages are registered before the lock is taken; the generation is
read, extended and committed under it.
-/

namespace Two09.Install

open Two09.Lib Two09.Lib.Posix Two09.Gen Two09.Nar Two09.Store

/-! ### The commands -/

/-- `read_current_gen_packages`, which knows no generation 0. -/
def readCurrentGenPackages (gens : GenDb) (current : Nat) : List GenPkg :=
  if current = 0 then [] else readPackages gens current

/-- The entry of a target replaces the first one of the same name, and stands last. -/
def mergeTarget (pkgs : List GenPkg) (target : Package × Added) : List GenPkg :=
  pkgs.eraseP (·.name = target.1.name) ++
    [⟨target.1.name, target.1.version, some (storePath target.2.path), ascii "imperative"⟩]

/-- `gen_db_lock` -/
def genDbLock : Prog World Act Bool :=
  .step .lock
    (fun w => if w.gens.locked then w else { w with gens := { w.gens with locked := true } })
    fun w => !w.gens.locked

/-- `gen_db_unlock` -/
def genDbUnlock : Prog World Act Unit :=
  .modify .unlock fun w => { w with gens := { w.gens with locked := false } }

/-- `gen_db_commit` on the generations of the world. -/
def commit (flt : Faults) (time : Nat) (pkgs : List GenPkg) : Prog World Act (Option Nat) :=
  (genDbCommit flt time pkgs).lift World.gens (fun gens w => { w with gens := gens }) .gen

/-- The part of `cmd_install` under the lock; the result says whether it returned 0. -/
def commitTargets (flt : Faults) (time : Nat) (targets : List (Package × Added)) :
    Prog World Act Bool :=
  genDbLock.bind fun
  | false => .ret false
  | true =>
    (Prog.read .readCurrent fun w : World => genDbCurrent w.gens).bind fun current =>
      (Prog.read .readPackages fun w : World => readCurrentGenPackages w.gens current).bind
        fun pkgs =>
          (commit flt time (targets.foldl mergeTarget pkgs)).bind fun id =>
            genDbUnlock.bind fun _ => .ret id.isSome

/-- `cmd_install` of the targets a transaction resolved. -/
def cmdInstall (env : Env) (flt : Faults) (time : Nat) (pkgs : List Package) : Prog World Act Bool :=
  (addTargets env pkgs).bind fun
  | none => .ret false
  | some targets =>
    (Prog.forEach (registerTarget env time) targets).bind fun _ => commitTargets flt time targets

/-- `cmd_remove`: a new generation without the packages of that name. -/
def cmdRemove (flt : Faults) (time : Nat) (name : Bytes) : Prog World Act Bool :=
  (Prog.read .readCurrent fun w : World => genDbCurrent w.gens).bind fun current =>
    if current = 0 then .ret false
    else (Prog.read .readPackages fun w : World => readPackages w.gens current).bind fun pkgs =>
      if pkgs.any (·.name = name) then
        genDbLock.bind fun
        | false => .ret false
        | true =>
          (commit flt time (pkgs.filter (·.name ≠ name))).bind fun id =>
            genDbUnlock.bind fun _ => .ret id.isSome
      else .ret false

/-! ### What happens to the store -/

/-- Entries stay, and as they were but for empty directories in `F`. -/
def Grows (F : StoreName → Prop) (s s' : StoreDir) : Prop :=
  ∀ n e, s.lookup n = some e →
    (s'.lookup n).isSome = true ∧ (¬ (F n ∧ isEmpty e = true) → s'.lookup n = some e)

section Store
variable {F : StoreName → Prop} {s s' s'' : StoreDir} {n : StoreName} {e : Entry} {w : World}
  {env : Env} {pkg : Package} {time : Nat}

lemma Grows.refl (F : StoreName → Prop) (s : StoreDir) : Grows F s s :=
  fun _ _ h => ⟨by rw [h]; rfl, fun _ => h⟩

lemma Grows.trans (h : Grows F s s') (h' : Grows F s' s'') : Grows F s s'' := by
  intro n e he
  obtain ⟨hsome, hsame⟩ := h n e he
  obtain ⟨e', he'⟩ := Option.isSome_iff_exists.1 hsome
  exact ⟨(h' n e' he').1, fun hn => (h' n e (hsame hn)).2 hn⟩

lemma Grows.mono {G : StoreName → Prop} (h : Grows F s s') (hFG : ∀ n, F n → G n) : Grows G s s' :=
  fun n e he => ⟨(h n e he).1, fun hn => (h n e he).2 fun hF => hn ⟨hFG n hF.1, hF.2⟩⟩

lemma Grows.mem (h : Grows F s s') (hn : n ∈ s) : n ∈ s' := by
  obtain ⟨e, he⟩ := Option.isSome_iff_exists.1 (AList.lookup_isSome.2 hn)
  exact AList.lookup_isSome.1 (h n e he).1

/-- A package that takes the place of an empty directory changes nothing unless it has contents. -/
lemma grows_rename (hF : pkg.contents ≠ [] → F n) (hcan : (s.lookup n).all isEmpty = true)
    (hother : ∀ m, m ≠ n → s'.lookup m = s.lookup m) (hn : s'.lookup n = some ⟨pkg.tree, true⟩) :
    Grows F s s' := by
  intro m e he
  by_cases hm : m = n
  · subst hm
    rw [he, Option.all_some] at hcan
    refine ⟨by rw [hn]; rfl, fun hnot => ?_⟩
    have hnone : pkg.contents = [] := by
      by_contra hne
      exact hnot ⟨hF hne, hcan⟩
    rw [hn, (isEmpty_iff e).1 hcan, Package.tree, hnone]
  · have hsame : s'.lookup m = some e := (hother m hm).trans he
    exact ⟨by rw [hsame]; rfl, fun _ => hsame⟩

lemma grows_insert_new (h : s.lookup n = none) (e : Entry) : Grows F s (s.insert n e) := by
  intro m e' he'
  have hm : m ≠ n := by
    rintro rfl
    rw [h] at he'
    cases he'
  rw [AList.lookup_insert_ne hm]
  exact ⟨by rw [he']; rfl, fun _ => he'⟩

/-- The path a target with contents may be unpacked to. -/
def Target (env : Env) (pkgs : List Package) (n : StoreName) : Prop :=
  ∃ pkg ∈ pkgs, pkg.contents ≠ [] ∧ pkg.finalName env = some n

/-- A run that only adds to the store, and what it returns is there. -/
structure Adds (F : StoreName → Prop) (w w' : World) (path : Option StoreName) : Prop where
  gens : w'.gens = w.gens
  sdb : w'.sdb = w.sdb
  grows : Grows F w.store w'.store
  mem : ∀ n, path = some n → n ∈ w'.store

lemma Adds.refl (F : StoreName → Prop) (w : World) {path : Option StoreName}
    (h : ∀ n, path = some n → n ∈ w.store) : Adds F w w path := ⟨rfl, rfl, .refl F w.store, h⟩

lemma Adds.trans {w' w'' : World} {p q : Option StoreName} (h : Adds F w w' p)
    (h' : Adds F w' w'' q) : Adds F w w'' q :=
  ⟨h'.gens.trans h.gens, h'.sdb.trans h.sdb, h.grows.trans h'.grows, h'.mem⟩

lemma mem_of_lookup (h : s.lookup n = some e) : ∀ m, some n = some m → m ∈ s := by
  intro m hm
  cases hm
  exact AList.lookup_isSome.1 (by rw [h]; rfl)

lemma trySubstitute_adds (w : World) : (trySubstitute env pkg).Ensures w fun r w' => Adds F w w' r := by
  unfold trySubstitute
  simp only [Prog.ensures_bind, Prog.ensures_read]
  cases (w.sdb.findByName pkg.name).filter (hasVersion pkg.version) with
  | none => exact .refl F w (by simp)
  | some n =>
    simp only [Prog.ensures_bind, Prog.ensures_read]
    cases hlook : w.store.lookup n with
    | some e => exact .refl F w (mem_of_lookup hlook)
    | none =>
      cases env.cached n with
      | none => exact .refl F w (by simp)
      | some t =>
        simp only [Option.isSome_none, Bool.false_eq_true, if_false, Prog.ensures_step, hlook]
        exact ⟨rfl, rfl, grows_insert_new hlook _, mem_of_lookup (AList.lookup_insert _)⟩

/-- Renaming to where nothing or an empty directory is succeeds, and fails elsewhere. -/
lemma rename_adds (hF : pkg.contents ≠ [] → F n) (hash : Option (Bytes × Nat)) (w : World) :
    (rename n pkg.tree).Ensures w fun ok w' =>
      Adds F w w' ((if ok then some (⟨n, hash⟩ : Added) else none).map Added.path) := by
  rw [rename, Prog.ensures_step]
  by_cases h : canRename n w = true
  · rw [if_pos h, if_pos h]
    refine ⟨rfl, rfl, grows_rename hF h (fun m hm => AList.lookup_insert_ne hm) ?_,
      mem_of_lookup (AList.lookup_insert _)⟩
    exact AList.lookup_insert _
  · rw [if_neg h, if_neg h]
    exact .refl F w (by simp)

/-- An empty directory makes room for the unpacked archive. -/
lemma rmdir_rename_adds (hF : pkg.contents ≠ [] → F n) (he : w.store.lookup n = some e)
    (hempty : isEmpty e = true) (hash : Option (Bytes × Nat)) :
    (rmdir n).Ensures w fun _ w₁ => (rename n pkg.tree).Ensures w₁ fun ok w' =>
      Adds F w w' ((if ok then some (⟨n, hash⟩ : Added) else none).map Added.path) := by
  have hany : (w.store.lookup n).any isEmpty = true := by simpa [he] using hempty
  have hall : (w.store.lookup n).all isEmpty = true := by simpa [he] using hempty
  have hcan : canRename n { w with store := w.store.erase n } = true := by simp [canRename]
  rw [rmdir, Prog.ensures_modify, if_pos hany, rename, Prog.ensures_step, if_pos hcan, if_pos hcan]
  refine ⟨rfl, rfl, grows_rename hF hall (fun m hm => ?_) (AList.lookup_insert _),
    mem_of_lookup (AList.lookup_insert _)⟩
  rw [AList.lookup_insert_ne hm, AList.lookup_erase_ne hm]

/-- **What unpacking does to the world**: nothing but to put the package where it belongs, if that is
not taken. -/
lemma directExtract_adds (hF : ∀ n, pkg.contents ≠ [] → pkg.finalName env = some n → F n)
    (w : World) :
    (directExtract env pkg).Ensures w fun r w' => Adds F w w' (r.map Added.path) := by
  unfold directExtract
  simp only [Prog.ensures_bind, Prog.ensures_read]
  cases hleg : legacyAt pkg w with
  | some n =>
    obtain ⟨-, hn⟩ := Option.filter_eq_some_iff.1 hleg
    obtain ⟨e, he, -⟩ := (Option.any_eq_true _ _).1 hn
    exact .refl F w (mem_of_lookup he)
  | none =>
    cases hfinal : pkg.finalName env with
    | none => exact .refl F w (by simp)
    | some n =>
      have hadds := rename_adds (fun h => hF n h hfinal) (pkg.narHash env) w
      simp only [Prog.ensures_bind, Prog.ensures_read]
      cases hstat : (w.store.lookup n).filter Entry.isDir with
      | none => exact hadds
      | some e =>
        obtain ⟨he, -⟩ := Option.filter_eq_some_iff.1 hstat
        by_cases hmark : marked e = true
        · simp only [if_pos hmark]
          exact .refl F w (mem_of_lookup he)
        · by_cases hempty : isEmpty e = true
          · simp only [if_neg hmark, if_pos hempty]
            exact rmdir_rename_adds (fun h => hF n h hfinal) he hempty (pkg.narHash env)
          · simp only [if_neg hmark, if_neg hempty]
            exact .refl F w (mem_of_lookup he)

lemma addTarget_adds (hF : ∀ n, pkg.contents ≠ [] → pkg.finalName env = some n → F n) (w : World) :
    (addTarget env pkg).Ensures w fun r w' => Adds F w w' (r.map Added.path) := by
  rw [addTarget, Prog.ensures_bind]
  refine (trySubstitute_adds (F := F) w).mono fun r w₁ h => ?_
  cases r with
  | some n => exact h
  | none => exact (directExtract_adds hF w₁).mono fun r w' h' => h.trans h'

/-- The targets are all there when the last one is. -/
lemma addTargets_adds {pkgs : List Package} (w : World) :
    (addTargets env pkgs).Ensures w fun r w' =>
      w'.gens = w.gens ∧ w'.sdb = w.sdb ∧ Grows (Target env pkgs) w.store w'.store ∧
        ∀ ts, r = some ts → ∀ t ∈ ts, t.2.path ∈ w'.store := by
  induction pkgs generalizing w with
  | nil => exact ⟨rfl, rfl, .refl _ w.store, by rintro _ ⟨⟩ t ⟨⟩⟩
  | cons pkg pkgs ih =>
    rw [addTargets, Prog.ensures_bind]
    refine (addTarget_adds (F := Target env (pkg :: pkgs))
      (fun n h hn => ⟨pkg, List.mem_cons_self, h, hn⟩) w).mono fun r w₁ h => ?_
    cases r with
    | none => exact ⟨h.gens, h.sdb, h.grows, by rintro _ ⟨⟩⟩
    | some a =>
      rw [Prog.ensures_bind]
      refine (ih w₁).mono fun rs w' h' => ?_
      obtain ⟨hg, hs, hgrows, hmem⟩ := h'
      have hgrows' : Grows (Target env (pkg :: pkgs)) w₁.store w'.store :=
        hgrows.mono fun n ⟨q, hq, hn⟩ => ⟨q, List.mem_cons_of_mem _ hq, hn⟩
      refine ⟨hg.trans h.gens, hs.trans h.sdb, h.grows.trans hgrows', ?_⟩
      intro ts hts t ht
      obtain ⟨ts', rfl, rfl⟩ := Option.map_eq_some_iff.1 hts
      rcases List.mem_cons.1 ht with rfl | ht
      · exact hgrows'.mem (h.mem _ rfl)
      · exact hmem ts' rfl t ht

/-! ### Registering touches the store database only -/

lemma depCb_keeps (target : Package × Added) (dep : Bytes) (w : World) :
    (depCb env time target dep).Ensures w fun _ w' => w'.store = w.store ∧ w'.gens = w.gens := by
  unfold depCb
  split_ifs
  · exact ⟨rfl, rfl⟩
  · simp only [Prog.ensures_bind, Prog.ensures_read]
    cases w.sdb.findByName dep with
    | some m => exact ⟨rfl, rfl⟩
    | none =>
      simp only [Prog.ensures_bind, Prog.ensures_read]
      split
      · exact ⟨rfl, rfl⟩
      · exact ⟨rfl, rfl⟩

lemma registerTarget_keeps (target : Package × Added) (w : World) :
    (registerTarget env time target).Ensures w fun _ w' =>
      w'.store = w.store ∧ w'.gens = w.gens := by
  unfold registerTarget
  cases target.2.hash with
  | none => exact ⟨rfl, rfl⟩
  | some h =>
    simp only [register, Prog.ensures_bind, Prog.ensures_modify, Prog.ensures_read]
    refine Prog.ensures_forEach (I := fun w' : World => w'.store = w.store ∧ w'.gens = w.gens) ?_ ⟨rfl, rfl⟩
    intro dep _ w₁ h₁
    refine (depCb_keeps target dep w₁).mono fun _ w' h' => ?_
    exact ⟨h'.1.trans h₁.1, h'.2.trans h₁.2⟩

lemma registerTargets_keeps (targets : List (Package × Added)) (w : World) :
    (Prog.forEach (registerTarget env time) targets).Ensures w fun _ w' =>
      w'.store = w.store ∧ w'.gens = w.gens := by
  refine Prog.ensures_forEach (I := fun w' : World => w'.store = w.store ∧ w'.gens = w.gens) ?_ ⟨rfl, rfl⟩
  intro target _ w₁ h₁
  refine (registerTarget_keeps target w₁).mono fun _ w' h' => ?_
  exact ⟨h'.1.trans h₁.1, h'.2.trans h₁.2⟩

/-! ### Committing touches the generations only -/

lemma lift_gens_ensures {α : Type} {p : Prog GenDb Gen.Step α} {Q : α → World → Prop} :
    (p.lift World.gens (fun gens w => { w with gens := gens }) Act.gen).Ensures w Q ↔
      p.Ensures w.gens fun r gens => Q r { w with gens := gens } := by
  have hrun : (p.lift World.gens (fun gens w => { w with gens := gens }) Act.gen).run w =
      ((p.run w.gens).1, { w with gens := (p.run w.gens).2 }) :=
    Prog.run_lift World.gens (fun gens w => { w with gens := gens }) (fun _ _ => rfl)
      (fun _ _ _ => rfl) (fun _ => rfl) _ _ _
  rw [Prog.Ensures, hrun]
  exact Iff.rfl

lemma commit_ensures {flt : Faults} {pkgs : List GenPkg} {w : World}
    {Q : Option Nat → World → Prop} :
    (commit flt time pkgs).Ensures w Q ↔
      (genDbCommit flt time pkgs).Ensures w.gens fun r gens => Q r { w with gens := gens } :=
  lift_gens_ensures

/-- What merging the targets leaves recorded. -/
lemma recorded_mergeTargets {targets : List (Package × Added)} {pkgs : List GenPkg} {p : Path}
    (h : p ∈ (targets.foldl mergeTarget pkgs).filterMap GenPkg.storePath) :
    p ∈ pkgs.filterMap GenPkg.storePath ∨ ∃ t ∈ targets, p = storePath t.2.path := by
  induction targets generalizing pkgs with
  | nil => exact .inl h
  | cons t targets ih =>
    rcases ih h with hp | ⟨t', ht', hp⟩
    · rw [mergeTarget, List.filterMap_append, List.mem_append] at hp
      rcases hp with hp | hp
      · exact .inl ((List.eraseP_sublist.filterMap _).subset hp)
      · exact .inr ⟨t, List.mem_cons_self, by simpa using hp⟩
    · exact .inr ⟨t', List.mem_cons_of_mem _ ht', hp⟩

/-- A new generation that is current and records what the old one did and the given paths. -/
structure Commits (w w' : World) (paths : List StoreName) : Prop where
  current : (w'.gens.dirs.lookup (genDbCurrent w'.gens)).isSome = true
  pos : 0 < genDbCurrent w'.gens
  recorded : ∀ n, storePath n ∈ recorded w'.gens (genDbCurrent w'.gens) →
    n ∈ paths ∨ 0 < genDbCurrent w.gens ∧ storePath n ∈ recorded w.gens (genDbCurrent w.gens)

lemma commitTargets_ensures (flt : Faults) (targets : List (Package × Added)) (w : World) :
    (commitTargets flt time targets).Ensures w fun ok w' =>
      w'.store = w.store ∧ w'.sdb = w.sdb ∧
        (ok = true → Commits w w' (targets.map fun t => t.2.path)) := by
  unfold commitTargets
  rw [Prog.ensures_bind, genDbLock, Prog.ensures_step]
  cases hlocked : w.gens.locked with
  | true => exact ⟨rfl, rfl, by simp⟩
  | false =>
    simp only [Bool.not_false, Prog.ensures_bind, Prog.ensures_read, commit_ensures,
      Bool.false_eq_true, if_false]
    have hcur : genDbCurrent { w.gens with locked := true } = genDbCurrent w.gens := rfl
    refine (genDbCommit_ensures flt time _ _).mono fun r gens h => ?_
    rw [genDbUnlock, Prog.ensures_modify, Prog.ensures_ret]
    refine ⟨rfl, rfl, fun hok => ?_⟩
    obtain ⟨id, rfl⟩ := Option.isSome_iff_exists.1 hok
    obtain ⟨hid, hlink, hwritten⟩ := h id rfl
    have hnew : genDbCurrent { gens with locked := false } = id := by simp [genDbCurrent, hlink]
    have hread : readPackages { gens with locked := false } id =
        targets.foldl mergeTarget (readCurrentGenPackages w.gens (genDbCurrent w.gens)) :=
      hwritten.readPackages
    refine ⟨?_, ?_, fun n hn => ?_⟩
    · rw [hnew]
      exact hwritten.isSome
    · rw [hnew]
      omega
    · simp only [hnew, recorded, hread] at hn
      rcases recorded_mergeTargets hn with hp | ⟨t, ht, hp⟩
      · unfold readCurrentGenPackages at hp
        split_ifs at hp with hzero
        · cases hp
        · exact .inr ⟨Nat.pos_of_ne_zero hzero, hp⟩
      · exact .inl (List.mem_map.2 ⟨t, ht, (storePath_injective hp).symm⟩)

/-- **What an install does**: it adds to the store, and when it returns 0 the new generation records
paths that are there, or that the old one recorded. -/
theorem cmdInstall_ensures (env : Env) (flt : Faults) (time : Nat) (pkgs : List Package) (w : World) :
    (cmdInstall env flt time pkgs).Ensures w fun ok w' =>
      Grows (Target env pkgs) w.store w'.store ∧
        (ok = true → ∃ paths, Commits w w' paths ∧ ∀ n ∈ paths, n ∈ w'.store) := by
  rw [cmdInstall, Prog.ensures_bind]
  refine (addTargets_adds w).mono fun r w₁ h₁ => ?_
  obtain ⟨hgens₁, -, hgrows, hmem⟩ := h₁
  cases r with
  | none => exact ⟨hgrows, by simp⟩
  | some targets =>
    rw [Prog.ensures_bind]
    refine (registerTargets_keeps targets w₁).mono fun _ w₂ h₂ => ?_
    obtain ⟨hstore₂, hgens₂⟩ := h₂
    refine (commitTargets_ensures flt targets w₂).mono fun ok w₃ h₃ => ?_
    obtain ⟨hstore₃, -, hcommit⟩ := h₃
    have hstore : w₃.store = w₁.store := hstore₃.trans hstore₂
    have hgens : w₂.gens = w.gens := hgens₂.trans hgens₁
    refine ⟨hstore ▸ hgrows, fun hok => ⟨targets.map fun t => t.2.path, ?_, fun n hn => ?_⟩⟩
    · obtain ⟨hcur, hpos, hrec⟩ := hcommit hok
      exact ⟨hcur, hpos, hgens ▸ hrec⟩
    · obtain ⟨t, ht, rfl⟩ := List.mem_map.1 hn
      rw [hstore]
      exact hmem targets rfl t ht

/-- Removing a package leaves the store alone. -/
lemma cmdRemove_ensures (flt : Faults) (time : Nat) (name : Bytes) (w : World) :
    (cmdRemove flt time name).Ensures w fun _ w' => w'.store = w.store ∧ w'.sdb = w.sdb := by
  rw [cmdRemove, Prog.ensures_bind, Prog.ensures_read]
  split_ifs
  · exact ⟨rfl, rfl⟩
  · rw [Prog.ensures_bind, Prog.ensures_read]
    split_ifs
    · rw [Prog.ensures_bind, genDbLock, Prog.ensures_step]
      cases w.gens.locked with
      | true => exact ⟨rfl, rfl⟩
      | false =>
        simp only [Bool.not_false, Prog.ensures_bind, commit_ensures]
        exact (genDbCommit_ensures flt time _ _).mono fun _ _ _ => ⟨rfl, rfl⟩
    · exact ⟨rfl, rfl⟩

/-- The new generation has the other packages. -/
lemma cmdRemove_written (flt : Faults) (time : Nat) (name : Bytes) (w : World) :
    (cmdRemove flt time name).Ensures w fun ok w' => ok = true →
      Written w'.gens (genDbCurrent w'.gens)
        ((readPackages w.gens (genDbCurrent w.gens)).filter (·.name ≠ name)) := by
  rw [cmdRemove, Prog.ensures_bind, Prog.ensures_read]
  split_ifs
  · simp
  · rw [Prog.ensures_bind, Prog.ensures_read]
    split_ifs
    · rw [Prog.ensures_bind, genDbLock, Prog.ensures_step]
      cases w.gens.locked with
      | true => simp
      | false =>
        simp only [Bool.not_false, Prog.ensures_bind, commit_ensures]
        refine (genDbCommit_ensures flt time _ _).mono fun r gens h hok => ?_
        obtain ⟨id, rfl⟩ := Option.isSome_iff_exists.1 hok
        obtain ⟨-, hlink, hwritten⟩ := h id rfl
        show Written { gens with locked := false } (gens.link.getD 0) _
        rw [hlink]
        exact hwritten
    · simp

end Store

end Two09.Install
