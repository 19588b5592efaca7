import Two09.Gc.Collect

/-!
# The phases of `cmd_gc`

What each phase changes and what it leaves alone, and from that the outcome of a whole collection in
which no call fails.
-/

namespace Two09.Gc

open Two09.Lib Two09.Lib.Posix Two09.Gen Two09.Nar Two09.Store

/-! ### The roots -/

section Roots
variable {flt : Option Fault} {r : Roots} {ps : List Path}

/-- The array holds copies of the given paths, but for one that could not be made. -/
def Roots.Holds (flt : Option Fault) (r : Roots) (ps : List Path) : Prop :=
  r.count = ps.length ∧
    (r.array = some (ps.mapIdx fun i p => if flt = some (.rootDup i) then none else some p) ∨
      r.array = none ∧ ps = [] ∧ r.cap = 0)

lemma holds_empty (flt : Option Fault) : Roots.empty.Holds flt [] := ⟨rfl, .inr ⟨rfl, rfl, rfl⟩⟩

/-- One more root, where the array can grow. -/
lemma Roots.Holds.push (hgrow : ∀ times, flt ≠ some (.rootsGrow times)) (h : r.Holds flt ps)
    (p : Path) : (r.push flt p).Holds flt (ps ++ [p]) := by
  obtain ⟨hc, ha⟩ := h
  have hfails : ¬ growFails flt r.cap = true := by
    unfold growFails
    split
    · exact absurd rfl (hgrow _)
    · simp
  have hg : (r.grow flt).count = ps.length ∧ (r.grow flt).array =
      some (ps.mapIdx fun i p => if flt = some (.rootDup i) then none else some p) := by
    unfold Roots.grow
    by_cases hcap : r.count = r.cap
    · rw [if_pos hcap, if_neg hfails]
      rcases ha with ha | ⟨ha, rfl, -⟩
      · exact ⟨hc, by simp [ha]⟩
      · exact ⟨hc, by simp [ha]⟩
    · rw [if_neg hcap]
      rcases ha with ha | ⟨-, rfl, hcap0⟩
      · exact ⟨hc, ha⟩
      · exact absurd (hc.trans hcap0.symm) hcap
  unfold Roots.push
  simp only [hg.1, hg.2]
  exact ⟨by simp, .inl (by simp [List.mapIdx_append])⟩

lemma Roots.Holds.pushAll (hgrow : ∀ times, flt ≠ some (.rootsGrow times)) (h : r.Holds flt ps)
    (qs : List Path) : (qs.foldl (Roots.push flt) r).Holds flt (ps ++ qs) := by
  induction qs generalizing r ps with
  | nil => simpa using h
  | cons q qs ih =>
    have hq := ih (h.push hgrow q)
    rwa [List.append_assoc] at hq

lemma Roots.Holds.not_dangling (h : r.Holds flt ps) : ¬ r.Dangling := by
  rintro ⟨ha, hpos⟩
  rcases h with ⟨hc, h | ⟨-, rfl, -⟩⟩
  · rw [ha] at h
    cases h
  · rw [hc] at hpos
    exact absurd hpos (lt_irrefl 0)

/-- The paths in the array are roots, all but the one at the index that failed. -/
lemma Roots.Holds.mem_paths (h : r.Holds flt ps) {p : Path} :
    p ∈ r.paths ↔ ∃ i, ps[i]? = some p ∧ flt ≠ some (.rootDup i) := by
  rcases h.2 with ha | ⟨ha, rfl, -⟩
  · simp only [Roots.paths, ha, Option.getD_some, List.mem_filterMap, id_eq, List.mem_mapIdx,
      exists_eq_right]
    constructor
    · rintro ⟨i, hi, hp⟩
      split_ifs at hp with hf
      exact ⟨i, by rw [List.getElem?_eq_getElem hi, hp], hf⟩
    · rintro ⟨i, hp, hf⟩
      obtain ⟨hi, rfl⟩ := List.getElem?_eq_some_iff.1 hp
      exact ⟨i, hi, if_neg hf⟩
  · simp [Roots.paths, ha]

/-- A fault that spares the roots. -/
def SparesRoots (flt : Option Fault) : Prop :=
  flt ≠ some .genList ∧ (∀ id, 0 < id → flt ≠ some (.manifestRead id)) ∧
    (∀ times, flt ≠ some (.rootsGrow times)) ∧ ∀ i, flt ≠ some (.rootDup i)

/-- The array holds exactly the given paths. -/
def Roots.Whole (r : Roots) (ps : List Path) : Prop :=
  r.count = ps.length ∧ r.paths = ps ∧ (r.array = none → ps = [])

lemma Roots.Holds.whole (hdup : ∀ i, flt ≠ some (.rootDup i)) (h : r.Holds flt ps) :
    r.Whole ps := by
  rcases h with ⟨hc, ha | ⟨ha, rfl, -⟩⟩
  · have hmap : (ps.mapIdx fun i p => if flt = some (.rootDup i) then none else some p) =
        ps.map some := List.ext_getElem (by simp) fun i _ _ => by simp [hdup]
    exact ⟨hc, by simp [Roots.paths, ha, hmap], by simp [ha]⟩
  · exact ⟨hc, by simp [Roots.paths, ha], fun _ => rfl⟩

lemma holds_gatherRoots (hflt : SparesRoots flt) (gens : GenDb) :
    (gatherRoots flt gens).Holds flt (rootsOf gens) := by
  have hlist : ((listGens flt gens).flatMap fun id =>
      if flt = some (.manifestRead id) then [] else recorded gens id) = rootsOf gens := by
    unfold listGens rootsOf
    rw [if_neg hflt.1]
    refine List.flatMap_congr fun id hid => ?_
    rw [if_neg (hflt.2.1 id (mem_genDbList.1 hid).2)]
  unfold gatherRoots
  rw [hlist]
  exact (holds_empty flt).pushAll hflt.2.2.1 _

lemma whole_gatherRoots (hflt : SparesRoots flt) (gens : GenDb) :
    (gatherRoots flt gens).Whole (rootsOf gens) := (holds_gatherRoots hflt gens).whole hflt.2.2.2

end Roots

/-! ### The closure and the dead paths -/

section Closure
variable {flt : Option Fault} {r : Roots} {ps : List Path} {sdb : StoreDb} {closure : List Path}
  {n : StoreName} {p : Path}

/-- A fault that spares the closure. -/
def SparesClosure (flt : Option Fault) : Prop :=
  flt ≠ some .closureNull ∧ ∀ i rows, flt ≠ some (.closureStep i rows)

lemma mem_gatherClosure (hflt : SparesClosure flt) (h : r.Whole ps) :
    p ∈ gatherClosure flt sdb r ↔ sdb.Live ps p := by
  have hrows : closureRows flt = fun _ => none := by
    funext i
    unfold closureRows
    split
    · exact absurd rfl (hflt.2 _ _)
    · rfl
  by_cases hps : ps = []
  · subst hps
    rw [gatherClosure, if_pos (.inl h.1)]
    constructor
    · intro hp
      cases hp
    · rintro ⟨q, hq, -⟩
      cases hq
  · have hcond : ¬ (r.count = 0 ∨ r.array = none ∨ flt = some .closureNull) := by
      rintro (hc | ha | hf)
      · exact hps (List.length_eq_zero_iff.1 (h.1.symm.trans hc))
      · exact hps (h.2.2 ha)
      · exact hflt.1 hf
    rw [gatherClosure, if_neg hcond, hrows, h.2.1]
    exact StoreDb.mem_closureOf

lemma of_mem_gatherDead (h : n ∈ gatherDead flt sdb closure) :
    n ∈ sdb.names ∧ storePath n ∉ closure := by
  have key : ∀ rows, n ∈ sdb.deadPaths rows closure → n ∈ sdb.names ∧ storePath n ∉ closure := by
    intro rows hn
    obtain ⟨hn, hc⟩ := StoreDb.mem_deadPaths.1 hn
    exact ⟨StoreDb.mem_allPaths_names hn, hc⟩
  unfold gatherDead at h
  split at h
  · cases h
  · exact key _ h
  · exact key _ h

lemma mem_gatherDead :
    n ∈ gatherDead none sdb closure ↔ n ∈ sdb.names ∧ storePath n ∉ closure := by
  have hdead : gatherDead none sdb closure = sdb.deadPaths sdb.paths.length closure := rfl
  rw [hdead, StoreDb.mem_deadPaths, StoreDb.mem_allPaths le_rfl]

lemma mem_gatherAll : n ∈ gatherAll none sdb ↔ n ∈ sdb.names := StoreDb.mem_allPaths le_rfl

end Closure

/-! ### Removing -/

section Frame
variable {sh : Shell} {flt : Option Fault} {w : World} {n m : StoreName} {keep : StoreName → Bool}

lemma rm_other (sh : Shell) (hn : n.Tame) (hm : m ≠ n) (store : StoreDir) :
    (sh.rm n store).1.lookup m = store.lookup m := by
  unfold Shell.rm
  rcases hn with h | h
  · rw [if_pos h]
    exact AList.lookup_erase_ne hm
  · have h0 : ¬ n.quotes = 0 := by omega
    rw [if_neg h0, if_pos h]

lemma rm_plain (hn : n.quotes = 0) (store : StoreDir) : sh.rm n store = (store.erase n, true) := by
  rw [Shell.rm, if_pos hn]

lemma rm_open (hn : n.quotes % 2 = 1) (store : StoreDir) : sh.rm n store = (store, false) := by
  have h0 : ¬ n.quotes = 0 := by omega
  rw [Shell.rm, if_neg h0, if_pos hn]

/-- The shell that makes nothing of a reopened quotation. -/
def Shell.inert : Shell := ⟨fun _ store => (store, false)⟩

/-- A tame command only removes. -/
lemma rm_lookup_le (hn : n.Tame) {store : StoreDir} {e : Entry}
    (h : (sh.rm n store).1.lookup m = some e) : store.lookup m = some e := by
  by_cases hm : m = n
  · subst hm
    rcases hn with hq | hq
    · rw [rm_plain hq, AList.lookup_erase] at h
      cases h
    · rwa [rm_open hq] at h
  · rwa [rm_other sh hn hm] at h

@[simp] lemma deleteDead_gens : (deleteDead sh flt w n).gens = w.gens := by
  unfold deleteDead
  simp only
  split_ifs <;> rfl

@[simp] lemma sweepEntry_gens : (sweepEntry sh keep w n).gens = w.gens := by
  unfold sweepEntry
  split_ifs <;> rfl

@[simp] lemma sweepEntry_sdb : (sweepEntry sh keep w n).sdb = w.sdb := by
  unfold sweepEntry
  split_ifs <;> rfl

lemma deleteDead_other (sh : Shell) (flt : Option Fault) (w : World) (hn : n.Tame) (hm : m ≠ n) :
    (deleteDead sh flt w n).store.lookup m = w.store.lookup m ∧
      (m ∈ (deleteDead sh flt w n).sdb.names ↔ m ∈ w.sdb.names) := by
  unfold deleteDead
  have hrm := rm_other sh hn hm w.store
  simp only
  split_ifs
  · exact ⟨hrm, by simp [hm]⟩
  · exact ⟨hrm, Iff.rfl⟩

lemma sweepEntry_other (hn : n.Tame) (hm : m ≠ n) :
    (sweepEntry sh keep w n).store.lookup m = w.store.lookup m := by
  unfold sweepEntry
  split_ifs
  · rfl
  · exact rm_other sh hn hm w.store

lemma deleteDead_all (sh : Shell) (flt : Option Fault) {dead : List StoreName}
    (hdead : ∀ n ∈ dead, n.Tame) (hm : m ∉ dead) (w : World) :
    (dead.foldl (deleteDead sh flt) w).store.lookup m = w.store.lookup m ∧
      (m ∈ (dead.foldl (deleteDead sh flt) w).sdb.names ↔ m ∈ w.sdb.names) := by
  induction dead generalizing w with
  | nil => exact ⟨rfl, Iff.rfl⟩
  | cons n dead ih =>
    simp only [List.mem_cons, not_or] at hm
    obtain ⟨hs, hn⟩ := deleteDead_other sh flt w (hdead n List.mem_cons_self) hm.1
    obtain ⟨hs', hn'⟩ := ih (fun k hk => hdead k (List.mem_cons_of_mem _ hk)) hm.2
      (deleteDead sh flt w n)
    exact ⟨hs'.trans hs, hn'.trans hn⟩

/-- What is not there is not brought back. -/
lemma deleteDead_gone (sh : Shell) (flt : Option Fault) (m : StoreName) {dead : List StoreName}
    (hdead : ∀ n ∈ dead, n.Tame) :
    (w.store.lookup m = none → (dead.foldl (deleteDead sh flt) w).store.lookup m = none) ∧
      (m ∉ w.sdb.names → m ∉ (dead.foldl (deleteDead sh flt) w).sdb.names) := by
  induction dead generalizing w with
  | nil => exact ⟨id, id⟩
  | cons n dead ih =>
    obtain ⟨hs, hn⟩ := ih (w := deleteDead sh flt w n) fun k hk =>
      hdead k (List.mem_cons_of_mem _ hk)
    have htn := hdead n List.mem_cons_self
    by_cases hm : m = n
    · subst hm
      refine ⟨fun h => hs ?_, fun h => hn ?_⟩
      · by_contra hcon
        obtain ⟨e, he⟩ := Option.ne_none_iff_exists'.1 hcon
        have hrm : (sh.rm m w.store).1.lookup m = some e := by
          unfold deleteDead at he
          simp only at he
          split_ifs at he
          · exact he
          · exact he
        rw [rm_lookup_le htn hrm] at h
        cases h
      · unfold deleteDead
        simp only
        split_ifs
        · simp
        · exact h
    · obtain ⟨hs₀, hn₀⟩ := deleteDead_other sh flt w htn hm
      exact ⟨fun h => hs (hs₀.trans h), fun h => hn fun h' => h (hn₀.1 h')⟩

/-- A dead path with a plain name is deleted and, if that does not fail, unregistered. -/
lemma deleteDead_plain (sh : Shell) (flt : Option Fault) (w : World) {dead : List StoreName}
    (hdead : ∀ n ∈ dead, n.Tame) (hm : m ∈ dead) (hq : m.quotes = 0) :
    (dead.foldl (deleteDead sh flt) w).store.lookup m = none ∧
      (flt ≠ some (.unregister m) → m ∉ (dead.foldl (deleteDead sh flt) w).sdb.names) := by
  induction dead generalizing w with
  | nil => cases hm
  | cons n dead ih =>
    have hdead' : ∀ k ∈ dead, k.Tame := fun k hk => hdead k (List.mem_cons_of_mem _ hk)
    rcases List.mem_cons.1 hm with rfl | hm
    · have hstep : (deleteDead sh flt w m).store.lookup m = none ∧
          (flt ≠ some (.unregister m) → m ∉ (deleteDead sh flt w m).sdb.names) := by
        unfold deleteDead
        simp only [rm_plain hq, true_and]
        split_ifs with hf
        · exact ⟨AList.lookup_erase m w.store, fun _ => by simp⟩
        · exact ⟨AList.lookup_erase m w.store, fun h => absurd h hf⟩
      obtain ⟨hs, hn⟩ := deleteDead_gone sh flt m (w := deleteDead sh flt w m) hdead'
      exact ⟨hs hstep.1, fun h => hn (hstep.2 h)⟩
    · exact ih _ hdead' hm

/-- A path whose deletion is refused stays. -/
lemma deleteDead_refused {dead : List StoreName} (hdead : ∀ n ∈ dead, n.Tame) (hm : ¬ m.quotes = 0) :
    (dead.foldl (deleteDead sh flt) w).store.lookup m = w.store.lookup m ∧
      (m ∈ (dead.foldl (deleteDead sh flt) w).sdb.names ↔ m ∈ w.sdb.names) := by
  induction dead generalizing w with
  | nil => exact ⟨rfl, Iff.rfl⟩
  | cons n dead ih =>
    obtain ⟨hs, hn⟩ := ih (w := deleteDead sh flt w n) fun k hk =>
      hdead k (List.mem_cons_of_mem _ hk)
    have hstep : (deleteDead sh flt w n).store.lookup m = w.store.lookup m ∧
        (m ∈ (deleteDead sh flt w n).sdb.names ↔ m ∈ w.sdb.names) := by
      by_cases hmn : m = n
      · subst hmn
        have hodd : m.quotes % 2 = 1 := (hdead m List.mem_cons_self).resolve_left hm
        simp [deleteDead, rm_open hodd]
      · exact deleteDead_other sh flt w (hdead n List.mem_cons_self) hmn
    exact ⟨hs.trans hstep.1, hn.trans hstep.2⟩

/-- The names a sweep hands to a command. -/
def Swept (keep : StoreName → Bool) (w : World) (n : StoreName) : Prop :=
  n.hidden = false ∧ (w.store.lookup n).any Entry.isDir = true ∧ keep n = false

instance : DecidablePred (Swept keep w) := fun _ => inferInstanceAs (Decidable (_ ∧ _ ∧ _))

lemma sweepEntry_swept (h : Swept keep w n) :
    sweepEntry sh keep w n = { w with store := (sh.rm n w.store).1 } := by
  obtain ⟨h1, h2, h3⟩ := h
  simp [sweepEntry, h1, h2, h3]

lemma sweepEntry_kept (h : ¬ Swept keep w n) : sweepEntry sh keep w n = w := by
  unfold sweepEntry
  rw [if_pos]
  by_contra hcon
  push Not at hcon
  exact h ⟨by simpa using hcon.1, by simpa using hcon.2.1, by simpa using hcon.2.2⟩

/-- What is swept after a round was swept before it. -/
lemma Swept.of_sweepEntry (htn : Swept keep w n → n.Tame) (h : Swept keep (sweepEntry sh keep w n) m) :
    Swept keep w m := by
  by_cases hn : Swept keep w n
  · obtain ⟨h1, h2, h3⟩ := h
    refine ⟨h1, ?_, h3⟩
    rw [sweepEntry_swept hn] at h2
    obtain ⟨e, he, hdir⟩ := (Option.any_eq_true _ _).1 h2
    exact (Option.any_eq_true _ _).2 ⟨e, rm_lookup_le (htn hn) he, hdir⟩
  · rwa [sweepEntry_kept hn] at h

/-- A sweep over the given entries leaves every entry but the swept ones alone, and takes away the
swept ones that the shell can remove. -/
lemma sweepEntries_lookup {ns : List StoreName} (hnd : ns.Nodup)
    (htame : ∀ n, Swept keep w n → n.Tame) (m : StoreName) :
    (ns.foldl (sweepEntry sh keep) w).store.lookup m =
      if m ∈ ns ∧ Swept keep w m ∧ m.quotes = 0 then none else w.store.lookup m := by
  induction ns generalizing w with
  | nil => simp
  | cons n ns ih =>
    obtain ⟨hn, hnd⟩ := List.nodup_cons.1 hnd
    rw [List.foldl_cons, ih hnd fun k hk => htame k (hk.of_sweepEntry (htame n))]
    by_cases hsw : Swept keep w n
    · have htn := htame n hsw
      by_cases hm : m = n
      · subst hm
        rw [if_neg fun h => hn h.1, sweepEntry_swept hsw]
        rcases htn with hq | hq
        · rw [if_pos ⟨List.mem_cons_self, hsw, hq⟩, rm_plain hq]
          exact AList.lookup_erase m w.store
        · have h0 : ¬ m.quotes = 0 := by omega
          rw [if_neg fun h => h0 h.2.2, rm_open hq]
      · have hother : (sweepEntry sh keep w n).store.lookup m = w.store.lookup m :=
          sweepEntry_other htn hm
        have hiff : Swept keep (sweepEntry sh keep w n) m ↔ Swept keep w m := by
          unfold Swept
          rw [hother]
        rw [hother]
        simp only [hiff, List.mem_cons, hm, false_or]
    · rw [sweepEntry_kept hsw]
      by_cases hm : m = n
      · subst hm
        simp [hsw]
      · simp [hm]

lemma not_swept_of_lookup (h : w.store.lookup n = none) : ¬ Swept keep w n := by
  intro hsw
  have hdir := hsw.2.1
  rw [h] at hdir
  cases hdir

/-- **What a sweep does.** -/
lemma sweep_lookup (hflt : flt ≠ some .openStore) (htame : ∀ n, Swept keep w n → n.Tame)
    (m : StoreName) :
    (sweep sh flt keep w).store.lookup m =
      if Swept keep w m ∧ m.quotes = 0 then none else w.store.lookup m := by
  rw [sweep, if_neg hflt, sweepEntries_lookup w.store.keys_nodup htame]
  by_cases hmem : m ∈ w.store.keys
  · simp only [hmem, true_and]
  · have hnone : w.store.lookup m = none := AList.lookup_eq_none.2 hmem
    rw [if_neg fun h => hmem h.1, if_neg fun h => not_swept_of_lookup hnone h.1]

@[simp] lemma sweep_sdb : (sweep sh flt keep w).sdb = w.sdb := by
  have key : ∀ ns : List StoreName, ∀ w : World,
      (ns.foldl (sweepEntry sh keep) w).sdb = w.sdb := by
    intro ns
    induction ns with
    | nil => exact fun w => rfl
    | cons n ns ih => exact fun w => (ih _).trans sweepEntry_sdb
  unfold sweep
  split_ifs
  · rfl
  · exact key _ w

/-- A sweep that finds nothing to remove changes nothing. -/
lemma sweep_eq_self (h : ∀ n, ¬ Swept keep w n) : sweep sh flt keep w = w := by
  have key : ∀ ns : List StoreName, ns.foldl (sweepEntry sh keep) w = w := by
    intro ns
    induction ns with
    | nil => rfl
    | cons n ns ih => rw [List.foldl_cons, sweepEntry_kept (h n), ih]
  unfold sweep
  split_ifs
  · rfl
  · exact key _

@[simp] lemma deleteDeads_gens {dead : List StoreName} :
    (dead.foldl (deleteDead sh flt) w).gens = w.gens := by
  induction dead generalizing w with
  | nil => rfl
  | cons n dead ih => exact ih.trans deleteDead_gens

@[simp] lemma sweep_gens : (sweep sh flt keep w).gens = w.gens := by
  have key : ∀ ns : List StoreName, ∀ w : World,
      (ns.foldl (sweepEntry sh keep) w).gens = w.gens := by
    intro ns
    induction ns with
    | nil => exact fun w => rfl
    | cons n ns ih => exact fun w => (ih _).trans sweepEntry_gens
  unfold sweep
  split_ifs
  · rfl
  · exact key _ w

end Frame

/-! ### A whole collection -/

section Collection
variable {sh : Shell} {flt : Option Fault} {w : World} {n m : StoreName}

/-- Every name that is handed to the shell can be put between quotes. -/
def Tamed (w : World) : Prop := ∀ n, w.Dead n ∨ w.Orphan n → n.Tame

/-- The world once the dead paths are deleted. -/
def afterDead (sh : Shell) (flt : Option Fault) (w : World) : World :=
  (gatherDead flt w.sdb (gatherClosure flt w.sdb (gatherRoots flt w.gens))).foldl
    (deleteDead sh flt) w

/-- What the orphan scan keeps. -/
def keepsAfter (sh : Shell) (flt : Option Fault) (w : World) : StoreName → Bool :=
  keeps (gatherAll flt (afterDead sh flt w).sdb)
    (gatherClosure flt w.sdb (gatherRoots flt w.gens)) (gatherRoots flt w.gens).paths

/-- A collection whose roots are whole goes through all phases. -/
lemma cmdGc_phases (sh : Shell) (w : World) (hroots : SparesRoots flt)
    (hopen : flt ≠ some .dbOpen) :
    (cmdGc sh flt w).sdb = (afterDead sh flt w).sdb ∧
      (cmdGc sh flt w).store = (sweep sh flt (keepsAfter sh flt w) (afterDead sh flt w)).store ∧
      (cmdGc sh flt w).gens =
        if genDbCurrent w.gens = 0 then w.gens
        else (listGens flt w.gens).foldl (dropGeneration (genDbCurrent w.gens)) w.gens := by
  have hcollect : collectWithDb sh flt (gatherRoots flt w.gens) w =
      (sweep sh flt (keepsAfter sh flt w) (afterDead sh flt w), true) := by
    unfold collectWithDb
    exact if_neg fun h => (holds_gatherRoots hroots w.gens).not_dangling h.1
  have hgens : (sweep sh flt (keepsAfter sh flt w) (afterDead sh flt w)).gens = w.gens :=
    sweep_gens.trans deleteDeads_gens
  unfold cmdGc
  simp only [if_neg hopen, hcollect]
  by_cases hcur : genDbCurrent w.gens = 0
  · rw [if_pos (.inr hcur), if_pos hcur]
    exact ⟨sweep_sdb, rfl, hgens⟩
  · have hgo : ¬ (true = false ∨ genDbCurrent w.gens = 0) := by simp [hcur]
    rw [if_neg hgo, if_neg hcur, hgens]
    exact ⟨sweep_sdb, rfl, rfl⟩

lemma mem_closure_iff (hroots : SparesRoots flt) (hclosure : SparesClosure flt) :
    storePath n ∈ gatherClosure flt w.sdb (gatherRoots flt w.gens) ↔ w.Live n :=
  mem_gatherClosure hclosure (whole_gatherRoots hroots w.gens)

lemma dead_of_mem (hroots : SparesRoots flt) (hclosure : SparesClosure flt)
    (h : n ∈ gatherDead flt w.sdb (gatherClosure flt w.sdb (gatherRoots flt w.gens))) : w.Dead n := by
  obtain ⟨hn, hc⟩ := of_mem_gatherDead h
  exact ⟨hn, fun hl => hc ((mem_closure_iff hroots hclosure).2 hl)⟩

/-- Deleting only removes. -/
lemma lookup_of_afterDead {dead : List StoreName} (hdead : ∀ n ∈ dead, n.Tame) {e : Entry}
    (h : (dead.foldl (deleteDead sh flt) w).store.lookup m = some e) :
    w.store.lookup m = some e := by
  by_cases hm : m ∈ dead
  · rcases hdead m hm with hq | hq
    · rw [(deleteDead_plain sh flt w hdead hm hq).1] at h
      cases h
    · have hq0 : ¬ m.quotes = 0 := by omega
      rwa [(deleteDead_refused hdead hq0).1] at h
  · rwa [(deleteDead_all sh flt hdead hm w).1] at h

/-- What the orphan scan hands to the shell was dead or an orphan from the start. -/
lemma swept_afterDead (hroots : SparesRoots flt) (hclosure : SparesClosure flt) (htame : Tamed w)
    (h : Swept (keepsAfter sh flt w) (afterDead sh flt w) n) : w.Dead n ∨ w.Orphan n := by
  obtain ⟨hh, hdir, hkeep⟩ := h
  have hnl : ¬ w.Live n := by
    intro hl
    have hc := (mem_closure_iff hroots hclosure).2 hl
    simp [keepsAfter, keeps, hc] at hkeep
  by_cases hn : n ∈ w.sdb.names
  · exact .inl ⟨hn, hnl⟩
  · obtain ⟨e, he, hd⟩ := (Option.any_eq_true _ _).1 hdir
    have he' := lookup_of_afterDead
      (fun k hk => htame k (.inl (dead_of_mem hroots hclosure hk))) he
    exact .inr ⟨hh, (Option.any_eq_true _ _).2 ⟨e, he', hd⟩, hn, hnl⟩

/-- **A collection with its roots and its closure whole leaves alone what is live**, whatever else
fails. -/
theorem cmdGc_live (hroots : SparesRoots flt) (hclosure : SparesClosure flt)
    (hopen : flt ≠ some .dbOpen) (htame : Tamed w) (hm : w.Live m) :
    (cmdGc sh flt w).store.lookup m = w.store.lookup m ∧
      (m ∈ (cmdGc sh flt w).sdb.names ↔ m ∈ w.sdb.names) := by
  obtain ⟨hsdb, hstore, -⟩ := cmdGc_phases sh w hroots hopen
  have hdead : ∀ n ∈ gatherDead flt w.sdb (gatherClosure flt w.sdb (gatherRoots flt w.gens)),
      n.Tame := fun n hn => htame n (.inl (dead_of_mem hroots hclosure hn))
  have hmd : m ∉ gatherDead flt w.sdb (gatherClosure flt w.sdb (gatherRoots flt w.gens)) :=
    fun h => (dead_of_mem hroots hclosure h).2 hm
  obtain ⟨hs, hn⟩ := deleteDead_all sh flt hdead hmd w
  rw [hsdb, hstore]
  refine ⟨?_, hn⟩
  by_cases hos : flt = some .openStore
  · rw [sweep, if_pos hos]
    exact hs
  · rw [sweep_lookup hos fun k hk => htame k (swept_afterDead hroots hclosure htame hk), if_neg]
    · exact hs
    · rintro ⟨hsw, -⟩
      rcases swept_afterDead hroots hclosure htame hsw with h | h
      · exact h.2 hm
      · exact h.2.2.2 hm

/-! ### A collection in which nothing fails -/

lemma spares_none : SparesRoots none ∧ SparesClosure none := by simp [SparesRoots, SparesClosure]

lemma mem_dead_iff :
    m ∈ gatherDead none w.sdb (gatherClosure none w.sdb (gatherRoots none w.gens)) ↔ w.Dead m := by
  rw [mem_gatherDead, mem_closure_iff spares_none.1 spares_none.2]
  rfl

lemma Tamed.dead (htame : Tamed w) :
    ∀ n ∈ gatherDead none w.sdb (gatherClosure none w.sdb (gatherRoots none w.gens)), n.Tame :=
  fun n hn => htame n (.inl (mem_dead_iff.1 hn))

/-- The dead paths with plain names are gone after the first phase. -/
lemma afterDead_gone (sh : Shell) (htame : Tamed w) (hm : w.Dead m) (hq : m.quotes = 0) :
    (afterDead sh none w).store.lookup m = none ∧ m ∉ (afterDead sh none w).sdb.names := by
  obtain ⟨hs, hn⟩ := deleteDead_plain sh none w htame.dead
    (mem_dead_iff.2 hm) hq
  exact ⟨hs, hn (by simp)⟩

/-- All else is as it was. -/
lemma afterDead_same (sh : Shell) (htame : Tamed w) (hm : ¬ (w.Dead m ∧ m.quotes = 0)) :
    (afterDead sh none w).store.lookup m = w.store.lookup m ∧
      (m ∈ (afterDead sh none w).sdb.names ↔ m ∈ w.sdb.names) := by
  by_cases hd : w.Dead m
  · exact deleteDead_refused htame.dead fun hq => hm ⟨hd, hq⟩
  · exact deleteDead_all sh none htame.dead (fun h => hd (mem_dead_iff.1 h)) w

/-- **What a collection unregisters**: the dead paths with plain names. -/
theorem cmdGc_names (htame : Tamed w) :
    m ∈ (cmdGc sh none w).sdb.names ↔ m ∈ w.sdb.names ∧ ¬ (w.Dead m ∧ m.quotes = 0) := by
  rw [(cmdGc_phases sh w spares_none.1 (by simp)).1]
  by_cases hm : w.Dead m ∧ m.quotes = 0
  · simp [(afterDead_gone sh htame hm.1 hm.2).2, hm]
  · simp [(afterDead_same sh htame hm).2, hm]

/-- What the orphan scan hands to the shell. -/
lemma swept_iff (sh : Shell) (htame : Tamed w) (hm : ¬ (w.Dead m ∧ m.quotes = 0)) :
    Swept (keepsAfter sh none w) (afterDead sh none w) m ↔ w.Orphan m := by
  obtain ⟨hstore, hnames⟩ := afterDead_same sh htame hm
  have hroot : storePath m ∈ (gatherRoots none w.gens).paths → w.Live m := by
    rw [(whole_gatherRoots spares_none.1 w.gens).2.1]
    exact fun h => Worklist.Reachable.root h
  have hkeep : keepsAfter sh none w m = false ↔ m ∉ w.sdb.names ∧ ¬ w.Live m := by
    simp only [keepsAfter, keeps, Bool.or_eq_false_iff, decide_eq_false_iff_not, mem_gatherAll,
      hnames, mem_closure_iff spares_none.1 spares_none.2, and_assoc]
    exact ⟨fun h => ⟨h.1, h.2.1⟩, fun h => ⟨h.1, h.2, fun hr => h.2 (hroot hr)⟩⟩
  rw [Swept, hkeep, hstore]
  rfl

/-- **What a collection deletes**: the dead paths and the orphans with plain names, and nothing
else. -/
theorem cmdGc_lookup (sh : Shell) (htame : Tamed w) (m : StoreName) :
    ((w.Dead m ∨ w.Orphan m) ∧ m.quotes = 0 → (cmdGc sh none w).store.lookup m = none) ∧
      (¬ ((w.Dead m ∨ w.Orphan m) ∧ m.quotes = 0) →
        (cmdGc sh none w).store.lookup m = w.store.lookup m) := by
  rw [(cmdGc_phases sh w spares_none.1 (by simp)).2.1, sweep_lookup (by simp) fun k hk =>
    htame k (swept_afterDead spares_none.1 spares_none.2 htame hk)]
  by_cases hgone : w.Dead m ∧ m.quotes = 0
  · -- deleted before the scan
    have hnone := (afterDead_gone sh htame hgone.1 hgone.2).1
    rw [if_neg fun h => not_swept_of_lookup hnone h.1]
    exact ⟨fun _ => hnone, fun h => absurd ⟨.inl hgone.1, hgone.2⟩ h⟩
  · have hsw := swept_iff sh htame hgone
    constructor
    · rintro ⟨hd | ho, hq⟩
      · exact absurd ⟨hd, hq⟩ hgone
      · rw [if_pos ⟨hsw.2 ho, hq⟩]
    · intro h
      rw [if_neg fun h' => h ⟨.inr (hsw.1 h'.1), h'.2⟩]
      exact (afterDead_same sh htame hgone).1

end Collection

/-! ### One generation -/

/-- A database whose only generation records the given paths and is current. -/
def oneGen (id : Nat) (ps : List Path) : GenDb where
  dirs := AList.insert id
    ⟨some (.whole ⟨id, 0, ps.map fun p => ⟨ascii "p", ascii "1", some p, ascii "imperative"⟩⟩),
      none, false⟩ ∅
  link := some id
  locked := false

lemma recorded_oneGen (id : Nat) (ps : List Path) : recorded (oneGen id ps) id = ps := by
  have hdir : (oneGen id ps).dirs.lookup id = some
      ⟨some (.whole ⟨id, 0, ps.map fun p => ⟨ascii "p", ascii "1", some p, ascii "imperative"⟩⟩),
        none, false⟩ := AList.lookup_insert _
  simp [recorded, readPackages, hdir, File.read?, List.filterMap_map]

lemma genDbList_oneGen {id : Nat} (hid : 0 < id) (ps : List Path) :
    genDbList (oneGen id ps) = [id] := by
  simp [genDbList, oneGen, hid]

end Two09.Gc
