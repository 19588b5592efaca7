import Two09.Gc.Phases

/-!
# What `cmd_gc` keeps and what it deletes

A collection in which no query fails keeps what is live, and deletes and unregisters what is dead,
exactly when no name spoils the command line it is put on.
-/

namespace Two09.Gc

open Two09.Lib Two09.Lib.Posix Two09.Gen Two09.Nar Two09.Store

/-- The outcome of a collection over the refs graph: what is live is as it was, and what is
registered but not live is deleted and unregistered. -/
structure Collected (w w' : World) : Prop where
  live : ∀ n, w.Live n →
    w'.store.lookup n = w.store.lookup n ∧ (n ∈ w'.sdb.names ↔ n ∈ w.sdb.names)
  dead : ∀ n, w.Dead n → w'.store.lookup n = none ∧ n ∉ w'.sdb.names

/-- No dead path has a quote in its name, and no orphan has quotes that close and reopen. -/
structure Quotable (w : World) : Prop where
  dead : ∀ n, w.Dead n → n.quotes = 0
  orphan : ∀ n, w.Orphan n → n.Tame

section Safety
variable {w : World} {n m k : StoreName}

lemma Quotable.tame (h : Quotable w) : Tamed w := by
  rintro n (hd | ho)
  · exact .inl (h.dead n hd)
  · exact h.orphan n ho

/-- A quotable world is collected. -/
lemma collected_of_quotable (sh : Shell) (h : Quotable w) : Collected w (cmdGc sh none w) where
  live n hn := cmdGc_live spares_none.1 spares_none.2 (by simp) h.tame hn
  dead n hn := by
    have hq := h.dead n hn
    refine ⟨(cmdGc_lookup _ h.tame _).1 ⟨.inl hn, hq⟩, fun hmem => ?_⟩
    exact ((cmdGc_names h.tame).1 hmem).2 ⟨hn, hq⟩

/-! ### A shell that refuses -/

lemma rm_inert (hq : ¬ n.quotes = 0) (store : StoreDir) : Shell.inert.rm n store = (store, false) := by
  rw [Shell.rm, if_neg hq]
  split_ifs <;> rfl

/-- Where the shell refuses, the path stays registered. -/
lemma deleteDead_refuses {sh : Shell} {dead : List StoreName}
    (hrm : ∀ store, sh.rm m store = (store, false)) (hm : m ∈ w.sdb.names) :
    m ∈ (dead.foldl (deleteDead sh none) w).sdb.names := by
  induction dead generalizing w with
  | nil => exact hm
  | cons n dead ih =>
    refine ih ?_
    by_cases hmn : n = m
    · subst hmn
      simpa [deleteDead, hrm] using hm
    · unfold deleteDead
      simp only
      split_ifs
      · simpa [Ne.symm hmn] using hm
      · exact hm

/-! ### A shell that removes something else -/

/-- The shell that takes a reopened quotation for the name `k`. -/
def Shell.mistaking (k : StoreName) : Shell := ⟨fun _ store => (store.erase k, false)⟩

lemma mistaking_other (hmk : m ≠ k) (hmn : m ≠ n) (store : StoreDir) :
    ((Shell.mistaking k).rm n store).1.lookup m = store.lookup m := by
  unfold Shell.rm
  split_ifs
  · exact AList.lookup_erase_ne hmn
  · rfl
  · exact AList.lookup_erase_ne hmk

lemma mistaking_gone {store : StoreDir} (h : store.lookup k = none) :
    ((Shell.mistaking k).rm n store).1.lookup k = none := by
  unfold Shell.rm
  split_ifs
  · by_cases hn : k = n
    · subst hn
      exact AList.lookup_erase k store
    · rw [AList.lookup_erase_ne hn, h]
  · exact h
  · exact AList.lookup_erase k store

lemma mistaking_untame (hn : ¬ n.Tame) (store : StoreDir) :
    ((Shell.mistaking k).rm n store).1.lookup k = none := by
  have h0 : ¬ n.quotes = 0 := fun h => hn (.inl h)
  have h1 : ¬ n.quotes % 2 = 1 := fun h => hn (.inr h)
  rw [Shell.rm, if_neg h0, if_neg h1]
  exact AList.lookup_erase k store

lemma deleteDead_mistaking {dead : List StoreName} (hmk : m ≠ k) (hm : m ∉ dead) :
    (dead.foldl (deleteDead (.mistaking k) none) w).store.lookup m = w.store.lookup m ∧
      (m ∉ w.sdb.names → m ∉ (dead.foldl (deleteDead (.mistaking k) none) w).sdb.names) := by
  induction dead generalizing w with
  | nil => exact ⟨rfl, id⟩
  | cons n dead ih =>
    obtain ⟨hmn, hm⟩ := not_or.1 (List.mem_cons.not.1 hm)
    obtain ⟨hs, hn⟩ := ih (w := deleteDead (.mistaking k) none w n) hm
    have hstep : (deleteDead (.mistaking k) none w n).store.lookup m = w.store.lookup m := by
      have hrm := mistaking_other (n := n) hmk hmn w.store
      unfold deleteDead
      simp only
      split_ifs
      · exact hrm
      · exact hrm
    refine ⟨hs.trans hstep, fun h => hn ?_⟩
    unfold deleteDead
    simp only
    split_ifs
    · simp [h]
    · exact h

/-- A scan that meets the spoilt name removes `k`. -/
lemma sweep_mistaking {keep : StoreName → Bool} {ns : List StoreName} (hnk : n ≠ k)
    (hn : ¬ n.Tame) (hsw : Swept keep w n) (hmem : n ∈ ns) :
    (ns.foldl (sweepEntry (.mistaking k) keep) w).store.lookup k = none := by
  have hgone : ∀ (ns : List StoreName) (w : World), w.store.lookup k = none →
      (ns.foldl (sweepEntry (.mistaking k) keep) w).store.lookup k = none := by
    intro ns
    induction ns with
    | nil => exact fun w h => h
    | cons n ns ih =>
      refine fun w h => ih _ ?_
      unfold sweepEntry
      split_ifs
      · exact h
      · exact mistaking_gone h
  induction ns generalizing w with
  | nil => cases hmem
  | cons m ns ih =>
    by_cases hmn : m = n
    · subst hmn
      refine hgone ns _ ?_
      rw [sweepEntry_swept hsw]
      exact mistaking_untame hn w.store
    · have hother : (sweepEntry (.mistaking k) keep w m).store.lookup n = w.store.lookup n := by
        unfold sweepEntry
        split_ifs
        · rfl
        · exact mistaking_other hnk (Ne.symm hmn) w.store
      refine ih ⟨hsw.1, ?_, hsw.2.2⟩ ((List.mem_cons.1 hmem).resolve_left (Ne.symm hmn))
      rw [hother]
      exact hsw.2.1

lemma cmdGc_mistaking (hk : w.Live k) (hn : w.Orphan n) (htame : ¬ n.Tame) :
    (cmdGc (.mistaking k) none w).store.lookup k = none := by
  obtain ⟨hh, hdir, hnames, hnl⟩ := hn
  have hnk : n ≠ k := fun h => hnl (h ▸ hk)
  have hdead : n ∉ gatherDead none w.sdb (gatherClosure none w.sdb (gatherRoots none w.gens)) :=
    fun h => hnames (mem_dead_iff.1 h).1
  obtain ⟨hstore, hsdb⟩ := deleteDead_mistaking (w := w) hnk hdead
  have hroot : storePath n ∉ (gatherRoots none w.gens).paths := by
    rw [(whole_gatherRoots spares_none.1 w.gens).2.1]
    exact fun h => hnl (Worklist.Reachable.root h)
  have hsw : Swept (keepsAfter (.mistaking k) none w) (afterDead (.mistaking k) none w) n := by
    refine ⟨hh, ?_, ?_⟩
    · rw [afterDead, hstore]
      exact hdir
    · simp only [keepsAfter, keeps, Bool.or_eq_false_iff, decide_eq_false_iff_not, mem_gatherAll,
        mem_closure_iff spares_none.1 spares_none.2]
      exact ⟨⟨hsdb hnames, hnl⟩, hroot⟩
  rw [(cmdGc_phases _ _ spares_none.1 (by simp)).2.1, sweep, if_neg (by simp)]
  refine sweep_mistaking hnk htame hsw (AList.mem_keys.1 (AList.lookup_isSome.1 ?_))
  obtain ⟨e, he, -⟩ := (Option.any_eq_true _ _).1 hsw.2.1
  rw [he]
  rfl

end Safety

/-- Two registered packages; the first is recorded, the second has a quote in its name. -/
def quotedWorld : World where
  gens := oneGen 1 [storePath ⟨ascii "h-ok-1.0", by decide⟩]
  sdb := (StoreDb.empty.register ⟨ascii "h-ok-1.0", by decide⟩ [] 0 none 0).register
    ⟨ascii "h-it's-1.0", by decide⟩ [] 0 none 0
  store := (AList.insert ⟨ascii "h-it's-1.0", by decide⟩ ⟨.directory [], true⟩ ∅).insert
    ⟨ascii "h-ok-1.0", by decide⟩ ⟨.directory [], true⟩

end Two09.Gc
