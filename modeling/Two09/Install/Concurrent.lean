import Two09.Install.Command
import Two09.Lib.Lock

/-!
# Two commands at a time

`cmd_install` reads the current generation under the lock, `cmd_remove` before it takes the lock. So
two commands that run side by side come to one after the other, unless a removal commits a list that
is no longer the current one.
-/

namespace Two09.Install

open Two09.Lib Two09.Lib.Prog Two09.Gen Two09.Store

/-! ### Commands as edits of the package list -/

/-- A command that changes the packages of the current generation. -/
inductive Cmd
  | install (env : Env) (flt : Faults) (time : Nat) (pkgs : List Package)
  | remove (flt : Faults) (time : Nat) (name : Bytes)

namespace Cmd

def prog : Cmd → Prog World Act Bool
  | install env flt time pkgs => cmdInstall env flt time pkgs
  | remove flt time name => cmdRemove flt time name

/-- The names of the packages it installs. -/
def installs : Cmd → List Bytes
  | install _ _ _ pkgs => pkgs.map Package.name
  | remove _ _ _ => []

/-- The name of the package it removes. -/
def removes : Cmd → List Bytes
  | install _ _ _ _ => []
  | remove _ _ name => [name]

/-- An entry that an install writes for one of its packages. -/
def Wrote : Cmd → GenPkg → Prop
  | install _ _ _ pkgs, p =>
    ∃ pkg ∈ pkgs, p.name = pkg.name ∧ p.version = pkg.version ∧ p.origin = ascii "imperative"
  | remove _ _ _, _ => False

/-- What a command makes of the packages it finds. -/
def Edits : Cmd → List GenPkg → List GenPkg → Prop
  | install _ _ _ pkgs, before, after =>
    ∃ targets : List (Package × Added), targets.map Prod.fst = pkgs ∧
      after = targets.foldl mergeTarget before
  | remove _ _ name, before, after => after = before.filter (·.name ≠ name)

end Cmd

/-- The packages of the current generation. -/
def currentPackages (gens : GenDb) : List GenPkg := readCurrentGenPackages gens (genDbCurrent gens)

/-- The part of a command's work that is to be found in the end, when another one has run as well. -/
structure Respected (init final : List GenPkg) (c d : Cmd) : Prop where
  added : ∀ n ∈ c.installs, n ∉ d.removes → ∃ p ∈ final, p.name = n ∧ (c.Wrote p ∨ d.Wrote p)
  removed : ∀ n ∈ c.removes, n ∉ d.installs → ∀ p ∈ final, p.name ≠ n
  preserved :
    let others := fun p : GenPkg =>
      decide (p.name ∉ c.installs ++ c.removes ∧ p.name ∉ d.installs ++ d.removes)
    final.filter others = init.filter others

/-- No update is lost. -/
def Merged (init final : List GenPkg) (c d : Cmd) : Prop :=
  Respected init final c d ∧ Respected init final d c

section Edits
variable {c d : Cmd} {before after init final : List GenPkg} {p : GenPkg} {n : Bytes}
  {targets : List (Package × Added)}

lemma Cmd.Wrote.mem_installs (h : c.Wrote p) : p.name ∈ c.installs := by
  cases c with
  | install env flt time pkgs =>
    obtain ⟨pkg, hpkg, hname, -⟩ := h
    exact List.mem_map.2 ⟨pkg, hpkg, hname.symm⟩
  | remove flt time name => exact h.elim

/-- The entries after a merge are those before it and those of the targets. -/
lemma mem_mergeTargets (h : p ∈ targets.foldl mergeTarget before) :
    p ∈ before ∨ ∃ t ∈ targets, p.name = t.1.name ∧ p.version = t.1.version ∧
      p.origin = ascii "imperative" := by
  induction targets generalizing before with
  | nil => exact .inl h
  | cons t targets ih =>
    rcases ih h with hp | ⟨t', ht', hp⟩
    · rcases List.mem_append.1 hp with hp | hp
      · exact .inl (List.mem_of_mem_eraseP hp)
      · obtain rfl := List.mem_singleton.1 hp
        exact .inr ⟨t, List.mem_cons_self, rfl, rfl, rfl⟩
    · exact .inr ⟨t', List.mem_cons_of_mem _ ht', hp⟩

/-- A merge keeps every name that is there. -/
lemma exists_mergeTargets (targets : List (Package × Added)) (h : p ∈ before) :
    ∃ p' ∈ targets.foldl mergeTarget before, p'.name = p.name ∧
      (p' = p ∨ ∃ t ∈ targets, p'.name = t.1.name ∧ p'.version = t.1.version ∧
        p'.origin = ascii "imperative") := by
  induction targets generalizing before p with
  | nil => exact ⟨p, h, rfl, .inl rfl⟩
  | cons t targets ih =>
    by_cases hname : p.name = t.1.name
    · have hnew : ⟨t.1.name, t.1.version, some (storePath t.2.path), ascii "imperative"⟩ ∈
          mergeTarget before t := List.mem_append_right _ List.mem_cons_self
      obtain ⟨p', hp', hsame, hwrote⟩ := ih hnew
      refine ⟨p', hp', hsame.trans hname.symm, .inr ?_⟩
      rcases hwrote with rfl | ⟨t', ht', hp⟩
      · exact ⟨t, List.mem_cons_self, rfl, rfl, rfl⟩
      · exact ⟨t', List.mem_cons_of_mem _ ht', hp⟩
    · have hkept : p ∈ mergeTarget before t :=
        List.mem_append_left _ ((List.mem_eraseP_of_neg (by simpa using hname)).2 h)
      obtain ⟨p', hp', hsame, hwrote⟩ := ih hkept
      refine ⟨p', hp', hsame, hwrote.imp_right ?_⟩
      rintro ⟨t', ht', hp⟩
      exact ⟨t', List.mem_cons_of_mem _ ht', hp⟩

/-- A merge leaves the entries of other names alone. -/
lemma filter_mergeTargets {others : GenPkg → Bool} (targets : List (Package × Added))
    (h : ∀ t ∈ targets, ∀ p : GenPkg, p.name = t.1.name → others p = false)
    (before : List GenPkg) : (targets.foldl mergeTarget before).filter others =
      before.filter others := by
  induction targets generalizing before with
  | nil => rfl
  | cons t targets ih =>
    have herase : ∀ l : List GenPkg, (l.eraseP (·.name = t.1.name)).filter others =
        l.filter others := by
      intro l
      induction l with
      | nil => rfl
      | cons p l ihl =>
        by_cases hp : p.name = t.1.name
        · rw [List.eraseP_cons_of_pos (by simpa using hp),
            List.filter_cons_of_neg (by simp [h t List.mem_cons_self p hp])]
        · rw [List.eraseP_cons_of_neg (by simpa using hp), List.filter_cons, List.filter_cons, ihl]
    rw [List.foldl_cons, ih fun t' ht' => h t' (List.mem_cons_of_mem _ ht'), mergeTarget,
      List.filter_append, herase,
      List.filter_cons_of_neg (by rw [h t List.mem_cons_self _ rfl]; simp), List.filter_nil,
      List.append_nil]

lemma Cmd.Edits.added (h : c.Edits before after) (hn : n ∈ c.installs) :
    ∃ p ∈ after, p.name = n ∧ c.Wrote p := by
  cases c with
  | install env flt time pkgs =>
    obtain ⟨targets, rfl, rfl⟩ := h
    obtain ⟨pkg, hpkg, rfl⟩ := List.mem_map.1 hn
    obtain ⟨t, ht, rfl⟩ := List.mem_map.1 hpkg
    obtain ⟨pre, post, rfl⟩ := List.append_of_mem ht
    have hnew : ⟨t.1.name, t.1.version, some (storePath t.2.path), ascii "imperative"⟩ ∈
        mergeTarget (pre.foldl mergeTarget before) t :=
      List.mem_append_right _ List.mem_cons_self
    obtain ⟨p, hp, hname, hwrote⟩ := exists_mergeTargets post hnew
    refine ⟨p, by rwa [List.foldl_append, List.foldl_cons], hname, ?_⟩
    rcases hwrote with rfl | ⟨t', ht', hp⟩
    · exact ⟨t.1, List.mem_map_of_mem (by simp), rfl, rfl, rfl⟩
    · exact ⟨t'.1, List.mem_map_of_mem (by simp [ht']), hp⟩
  | remove flt time name => cases hn

lemma Cmd.Edits.origin (h : c.Edits before after) (hp : p ∈ after) : p ∈ before ∨ c.Wrote p := by
  cases c with
  | install env flt time pkgs =>
    obtain ⟨targets, rfl, rfl⟩ := h
    rcases mem_mergeTargets hp with hp | ⟨t, ht, hp⟩
    · exact .inl hp
    · exact .inr ⟨t.1, List.mem_map_of_mem ht, hp⟩
  | remove flt time name =>
    obtain rfl := h
    exact .inl (List.mem_of_mem_filter hp)

lemma Cmd.Edits.kept (h : c.Edits before after) (hp : p ∈ before) (hname : p.name ∉ c.removes) :
    ∃ p' ∈ after, p'.name = p.name ∧ (p' = p ∨ c.Wrote p') := by
  cases c with
  | install env flt time pkgs =>
    obtain ⟨targets, rfl, rfl⟩ := h
    obtain ⟨p', hp', hsame, hwrote⟩ := exists_mergeTargets targets hp
    refine ⟨p', hp', hsame, hwrote.imp_right ?_⟩
    rintro ⟨t, ht, hp⟩
    exact ⟨t.1, List.mem_map_of_mem ht, hp⟩
  | remove flt time name =>
    obtain rfl := h
    exact ⟨p, List.mem_filter.2 ⟨hp, by simpa [removes] using hname⟩, rfl, .inl rfl⟩

lemma Cmd.Edits.removed (h : c.Edits before after) (hn : n ∈ c.removes) : ∀ p ∈ after, p.name ≠ n := by
  cases c with
  | install env flt time pkgs => cases hn
  | remove flt time name =>
    obtain rfl := h
    obtain rfl := List.mem_singleton.1 hn
    exact fun p hp => by simpa using (List.mem_filter.1 hp).2

lemma Cmd.Edits.preserved {others : GenPkg → Bool} (h : c.Edits before after)
    (hothers : ∀ p, p.name ∈ c.installs ++ c.removes → others p = false) :
    after.filter others = before.filter others := by
  cases c with
  | install env flt time pkgs =>
    obtain ⟨targets, rfl, rfl⟩ := h
    refine filter_mergeTargets targets (fun t ht p hp => hothers p ?_) before
    rw [hp]
    exact List.mem_append_left _ (List.mem_map_of_mem (List.mem_map_of_mem ht))
  | remove flt time name =>
    obtain rfl := h
    rw [List.filter_filter]
    refine List.filter_congr fun p _ => ?_
    by_cases hp : p.name = name
    · simp [hothers p (by simp [removes, hp])]
    · simp [hp]

/-- **One command after the other loses nothing.** -/
lemma merged_of_edits (hc : c.Edits init before) (hd : d.Edits before final) :
    Merged init final c d := by
  refine ⟨⟨fun n hn hnd => ?_, fun n hn hnd p hp hname => ?_, ?_⟩, ⟨fun n hn _ => ?_, fun n hn _ => ?_, ?_⟩⟩
  · obtain ⟨p, hp, rfl, hwrote⟩ := hc.added hn
    obtain ⟨p', hp', hname, hp'' | hp''⟩ := hd.kept hp hnd
    · exact ⟨p', hp', hname, .inl (hp'' ▸ hwrote)⟩
    · exact ⟨p', hp', hname, .inr hp''⟩
  · rcases hd.origin hp with hp' | hwrote
    · exact hc.removed hn p hp' hname
    · exact hnd (hname ▸ hwrote.mem_installs)
  · refine (hd.preserved fun p hp => ?_).trans (hc.preserved fun p hp => ?_)
    · exact decide_eq_false fun h => h.2 hp
    · exact decide_eq_false fun h => h.1 hp
  · obtain ⟨p, hp, hname, hwrote⟩ := hd.added hn
    exact ⟨p, hp, hname, .inl hwrote⟩
  · exact hd.removed hn
  · refine (hd.preserved fun p hp => ?_).trans (hc.preserved fun p hp => ?_)
    · exact decide_eq_false fun h => h.1 hp
    · exact decide_eq_false fun h => h.2 hp

lemma Merged.symm (h : Merged init final c d) : Merged init final d c := ⟨h.2, h.1⟩

end Edits

/-! ### Commands as transactions -/

/-- The transaction of a command, with the states it finds at its acts: an install edits the packages
that are current when it takes the lock, a removal those it has read two acts before. -/
def Cmd.Txn : Cmd → List World → GenDb → GenDb → Prop
  | install env flt time pkgs, _, gens, gens' =>
    (install env flt time pkgs).Edits (currentPackages gens) (currentPackages gens')
  | remove _ _ name, w₁ :: w₂ :: w₃ :: _, gens, gens' =>
    w₃.gens = gens ∧ currentPackages gens' =
      (readPackages w₂.gens (genDbCurrent w₁.gens)).filter (·.name ≠ name)
  | remove _ _ _, _, _, _ => False

/-- A removal takes the lock when the packages it has read are still the current ones. -/
def Cmd.UpToDate : Cmd → List World → Prop
  | remove _ _ _, w₁ :: w₂ :: w₃ :: _ =>
    readPackages w₂.gens (genDbCurrent w₁.gens) = currentPackages w₃.gens
  | _, _ => True

instance (c : Cmd) (ws : List World) : Decidable (c.UpToDate ws) := by
  unfold Cmd.UpToDate
  split <;> infer_instance

section Transactions
variable {env : Env} {flt : Faults} {time : Nat} {gens : GenDb} {ws : List World} {c : Cmd}

lemma Cmd.Txn.edits {gens' : GenDb} (h : c.Txn ws gens gens') (hfresh : c.UpToDate ws) :
    c.Edits (currentPackages gens) (currentPackages gens') := by
  cases c with
  | install env flt time pkgs => exact h
  | remove flt time name =>
    match ws, h with
    | w₁ :: w₂ :: w₃ :: rest, h =>
      obtain ⟨rfl, hpkgs⟩ := h
      exact hpkgs.trans (congrArg _ hfresh)

/-- What a commit that succeeds makes current. -/
lemma currentPackages_commit {pkgs : List GenPkg} (flt : Faults) (time : Nat)
    (h : ((genDbCommit flt time pkgs).run gens).1.isSome = true) :
    currentPackages { ((genDbCommit flt time pkgs).run gens).2 with locked := false } = pkgs := by
  obtain ⟨id, hid⟩ := Option.isSome_iff_exists.1 h
  obtain ⟨hnext, hlink, hwritten⟩ := genDbCommit_ensures flt time pkgs gens id hid
  have hcur : genDbCurrent { ((genDbCommit flt time pkgs).run gens).2 with locked := false } = id := by
    simp [genDbCurrent, hlink]
  rw [currentPackages, hcur, readCurrentGenPackages, if_neg (by omega)]
  exact hwritten.readPackages

/-- Committing and giving the lock back. -/
lemma inside_commit (flt : Faults) (time : Nat) (pkgs : List GenPkg) (h : gens.locked = true) :
    Inside World.gens GenDb.locked ((genDbCommit flt time pkgs).run gens).1.isSome
      { ((genDbCommit flt time pkgs).run gens).2 with locked := false }
      ((commit flt time pkgs).bind fun id => genDbUnlock.bind fun _ => .ret id.isSome) gens :=
  inside_lift (fun _ _ => rfl) (genDbCommit_locked flt time pkgs)
    (fun gens => { gens with locked := false }) (fun _ => rfl) (fun _ => rfl) Option.isSome h

/-- Under the lock an install reads what is current. -/
lemma inside_commitTargets (flt : Faults) (time : Nat) (targets : List (Package × Added))
    (h : gens.locked = true) :
    Inside World.gens GenDb.locked
      ((genDbCommit flt time (targets.foldl mergeTarget (currentPackages gens))).run gens).1.isSome
      { ((genDbCommit flt time (targets.foldl mergeTarget (currentPackages gens))).run gens).2 with
        locked := false }
      ((Prog.read .readCurrent fun w : World => genDbCurrent w.gens).bind fun current =>
        (Prog.read .readPackages fun w : World => readCurrentGenPackages w.gens current).bind
          fun pkgs => (commit flt time (targets.foldl mergeTarget pkgs)).bind fun id =>
            genDbUnlock.bind fun _ => .ret id.isSome) gens := by
  refine .more h (fun w hw => hw) fun w₁ hw₁ => .more h (fun w hw => hw) fun w₂ hw₂ => ?_
  simp only [hw₁, hw₂]
  exact inside_commit flt time _ h

/-- Nothing is different but that the lock is taken. -/
lemma outside_genDbLock {R : List World → GenDb → GenDb → Prop} {k : Bool → Prog World Act Bool}
    (hbusy : k false = .ret false)
    (hfree : ∀ w : World, w.gens.locked = false → ∃ b gens',
      Inside World.gens GenDb.locked b gens' (k true) { w.gens with locked := true } ∧
        (b = true → ∀ rest, R (ws ++ w :: rest) w.gens gens')) :
    Outside World.gens GenDb.locked R ws (genDbLock.bind k) := by
  refine .lock (fun w hw => ⟨by simp [hw], ?_⟩) fun w hw => ?_
  · show k (!w.gens.locked) = .ret false
    rw [hw, Bool.not_true, hbusy]
  · simp only [hw, Bool.not_false, Bool.false_eq_true, if_false]
    exact hfree w hw

/-! What an install does before it takes the lock does not concern the generations. -/

lemma quiet_step {α : Type} {i : Act} {f : World → World} {r : World → α}
    (hf : ∀ w, (f w).gens = w.gens) : Quiet World.gens (fun _ => True) (Prog.step i f r) :=
  .step hf fun _ => trivial

lemma quiet_read {α : Type} {i : Act} {r : World → α} :
    Quiet World.gens (fun _ => True) (Prog.read i r) := quiet_step fun _ => rfl

lemma quiet_trySubstitute (pkg : Package) :
    Quiet World.gens (fun _ => True) (trySubstitute env pkg) := by
  refine quiet_read.bind fun r _ => ?_
  cases r with
  | none => exact .ret trivial
  | some n =>
    refine quiet_read.bind fun there _ => ?_
    cases there with
    | true => exact .ret trivial
    | false =>
      cases env.cached n with
      | none => exact .ret trivial
      | some t =>
        refine quiet_step fun w => ?_
        split_ifs <;> rfl

lemma quiet_rename (n : StoreName) (pkg : Package) (hash : Option (Bytes × Nat)) :
    Quiet World.gens (fun _ => True) ((rename n pkg.tree).bind fun ok =>
      .ret (if ok then some (⟨n, hash⟩ : Added) else none)) := by
  refine (quiet_step fun w => ?_).bind fun _ _ => .ret trivial
  split_ifs <;> rfl

lemma quiet_directExtract (pkg : Package) :
    Quiet World.gens (fun _ => True) (directExtract env pkg) := by
  refine quiet_read.bind fun r _ => ?_
  cases r with
  | some n => exact .ret trivial
  | none =>
    cases pkg.finalName env with
    | none => exact .ret trivial
    | some n =>
      refine quiet_read.bind fun r _ => ?_
      cases r with
      | none => exact quiet_rename n pkg _
      | some e =>
        show Quiet World.gens (fun _ => True) (if marked e then _ else _)
        split_ifs
        · exact .ret trivial
        · refine (quiet_step fun w => ?_).bind fun _ _ => quiet_rename n pkg _
          split_ifs <;> rfl
        · exact .ret trivial

lemma quiet_addTargets (pkgs : List Package) :
    Quiet World.gens (fun r => ∀ ts, r = some ts → ts.map Prod.fst = pkgs) (addTargets env pkgs) := by
  induction pkgs with
  | nil => exact .ret (by simp)
  | cons pkg pkgs ih =>
    have hadd : Quiet World.gens (fun _ => True) (addTarget env pkg) := by
      refine (quiet_trySubstitute pkg).bind fun r _ => ?_
      cases r with
      | some n => exact .ret trivial
      | none => exact quiet_directExtract pkg
    refine hadd.bind fun r _ => ?_
    cases r with
    | none => exact .ret (by simp)
    | some a =>
      refine ih.bind fun rs hrs => .ret fun ts hts => ?_
      obtain ⟨ts', rfl, rfl⟩ := Option.map_eq_some_iff.1 hts
      rw [List.map_cons, hrs ts' rfl]

lemma quiet_registerTarget (target : Package × Added) :
    Quiet World.gens (fun _ => True) (registerTarget env time target) := by
  unfold registerTarget
  cases target.2.hash with
  | none => exact .ret trivial
  | some h =>
    refine Quiet.bind (P := fun _ => True) (quiet_step fun _ => rfl) fun _ _ =>
      quiet_read.bind fun deps _ => .forEach (fun dep => ?_) deps
    unfold depCb
    split_ifs
    · exact .ret trivial
    · refine quiet_read.bind fun r _ => ?_
      cases r with
      | some m => exact quiet_step fun _ => rfl
      | none =>
        refine quiet_read.bind fun r _ => ?_
        match r with
        | some (m, some h) =>
          refine Quiet.bind (P := fun _ => True) (quiet_step fun _ => rfl) fun _ _ => ?_
          exact quiet_step fun _ => rfl
        | some (m, none) => exact .ret trivial
        | none => exact .ret trivial

/-- **Each command is a transaction** on the generations under the lock. -/
lemma Cmd.outside (c : Cmd) : Outside World.gens GenDb.locked c.Txn [] c.prog := by
  cases c with
  | install env flt time pkgs =>
    refine Outside.of_quiet (quiet_addTargets pkgs) (fun r hr ws => ?_) []
    cases r with
    | none => exact .fail
    | some targets =>
      refine Outside.of_quiet (.forEach quiet_registerTarget targets) (fun _ _ ws => ?_) ws
      refine outside_genDbLock rfl fun w hw => ?_
      exact ⟨_, _, inside_commitTargets flt time targets rfl, fun hok rest =>
        ⟨targets, hr targets rfl, currentPackages_commit flt time hok⟩⟩
  | remove flt time name =>
    refine .wait (fun _ => rfl) fun w₁ => ?_
    show Outside World.gens GenDb.locked _ _ (if genDbCurrent w₁.gens = 0 then _ else _)
    split_ifs
    · exact .fail
    · refine .wait (fun _ => rfl) fun w₂ => ?_
      show Outside World.gens GenDb.locked _ _ (if _ then _ else _)
      split_ifs
      · refine outside_genDbLock rfl fun w₃ hw₃ => ?_
        exact ⟨_, _, inside_commit flt time _ rfl, fun hok rest =>
          ⟨rfl, currentPackages_commit flt time hok⟩⟩
      · exact .fail

/-! ### Two commands -/

end Transactions

/-! ### A list that is no longer the current one -/

/-- Generation 1, with the one package `a`. -/
def withA : World :=
  ⟨⟨AList.singleton 1 ⟨some (.whole ⟨1, 0, [⟨ascii "a", ascii "1", none, ascii "repo"⟩]⟩), none, false⟩,
    some 1, false⟩, .empty, ∅⟩

def removeA : Cmd := .remove .none 1 (ascii "a")

/-- The install of an empty package `b`, with no cache. -/
def installB : Cmd :=
  .install ⟨fun _ => [], ascii "1", fun _ => none⟩ .none 1 [⟨ascii "b", ascii "1", []⟩]

/-- The removal has read its list when the install runs, and commits it afterwards: `b` is gone. -/
def stale : List Side :=
  List.replicate 2 .left ++ List.replicate 20 .right ++ List.replicate 15 .left

end Two09.Install
