import Two09.Gc.Phases

/-!
# Completeness of `cmd_gc`

The roots are the paths of all generations, and the old generations go after the paths do. So a
collection is complete, and the next one idle, exactly when the old generations keep nothing alive
that the current one and the pinned ones do not.
-/

namespace Two09.Gc

open Two09.Lib Two09.Lib.Posix Two09.Gen Two09.Nar Two09.Store

/-! ### The generations that stay -/

/-- The generation survives the cleanup. -/
def Stays (gens : GenDb) (id : Nat) : Prop :=
  genDbCurrent gens = 0 ∨ id = genDbCurrent gens ∨ (gens.dirs.lookup id).any GenDir.pinned = true

instance (gens : GenDb) (id : Nat) : Decidable (Stays gens id) :=
  inferInstanceAs (Decidable (_ ∨ _ ∨ _))

/-- What the generations that stay record. -/
def keptRoots (gens : GenDb) : List Path :=
  ((genDbList gens).filter (Stays gens ·)).flatMap (recorded gens)

/-- The cleanup of the old generations. -/
def dropOld (gens : GenDb) : GenDb :=
  if genDbCurrent gens = 0 then gens
  else (genDbList gens).foldl (dropGeneration (genDbCurrent gens)) gens

section Generations
variable {gens : GenDb} {id : Nat}

lemma lookup_dropGeneration {current j : Nat} :
    (dropGeneration current gens id).dirs.lookup j =
      if j = id ∧ ¬ (id = current ∨ (gens.dirs.lookup id).any GenDir.pinned = true) then none
      else gens.dirs.lookup j := by
  unfold dropGeneration
  by_cases hstay : id = current ∨ (gens.dirs.lookup id).any GenDir.pinned = true
  · rw [if_pos hstay, if_neg fun h => h.2 hstay]
  · rw [if_neg hstay]
    by_cases hj : j = id
    · subst hj
      rw [if_pos ⟨rfl, hstay⟩]
      exact AList.lookup_erase j gens.dirs
    · rw [if_neg fun h => hj h.1]
      exact AList.lookup_erase_ne hj

lemma lookup_dropGenerations {current j : Nat} (ids : List Nat) :
    (ids.foldl (dropGeneration current) gens).dirs.lookup j =
      if j ∈ ids ∧ ¬ (j = current ∨ (gens.dirs.lookup j).any GenDir.pinned = true) then none
      else gens.dirs.lookup j := by
  induction ids generalizing gens with
  | nil => simp
  | cons i ids ih =>
    rw [List.foldl_cons, ih, lookup_dropGeneration]
    by_cases hj : j = i
    · subst hj
      by_cases hstay : j = current ∨ (gens.dirs.lookup j).any GenDir.pinned = true
      · simp [hstay]
      · simp [hstay]
    · simp [hj]

/-- What is left of the generations that are listed. -/
lemma lookup_dropOld (hid : id ∈ genDbList gens) :
    (dropOld gens).dirs.lookup id = if Stays gens id then gens.dirs.lookup id else none := by
  unfold dropOld Stays
  by_cases hcur : genDbCurrent gens = 0
  · simp [hcur]
  · rw [if_neg hcur, lookup_dropGenerations]
    simp only [hid, hcur, true_and, false_or]
    split_ifs <;> simp_all

lemma mem_genDbList_dropOld :
    id ∈ genDbList (dropOld gens) ↔ id ∈ genDbList gens ∧ Stays gens id := by
  by_cases hid : id ∈ genDbList gens
  · have hpos := (mem_genDbList.1 hid).2
    have hsome := (mem_genDbList.1 hid).1
    rw [mem_genDbList, lookup_dropOld hid]
    split_ifs with hstay
    · simp [hsome, hpos, hid, hstay]
    · simp [hstay]
  · have hsame : (dropOld gens).dirs.lookup id = gens.dirs.lookup id := by
      unfold dropOld
      split_ifs
      · rfl
      · rw [lookup_dropGenerations, if_neg fun h => hid h.1]
    rw [mem_genDbList, hsame, ← mem_genDbList]
    simp [hid]

/-- **The roots after the cleanup** are those of the generations that stay. -/
lemma mem_rootsOf_dropOld {p : Path} : p ∈ rootsOf (dropOld gens) ↔ p ∈ keptRoots gens := by
  have hrec : ∀ id ∈ genDbList gens, Stays gens id →
      recorded (dropOld gens) id = recorded gens id := by
    intro id hid hstay
    have hlookup := lookup_dropOld hid
    rw [if_pos hstay] at hlookup
    simp only [recorded, readPackages, hlookup]
  rw [mem_rootsOf, keptRoots, List.mem_flatMap]
  constructor
  · rintro ⟨id, hid, hp⟩
    obtain ⟨hid, hstay⟩ := mem_genDbList_dropOld.1 hid
    exact ⟨id, List.mem_filter.2 ⟨hid, by simpa using hstay⟩, hrec id hid hstay ▸ hp⟩
  · rintro ⟨id, hid, hp⟩
    obtain ⟨hid, hstay⟩ := List.mem_filter.1 hid
    have hstay : Stays gens id := by simpa using hstay
    exact ⟨id, mem_genDbList_dropOld.2 ⟨hid, hstay⟩, (hrec id hid hstay).symm ▸ hp⟩

lemma keptRoots_subset {p : Path} (h : p ∈ keptRoots gens) : p ∈ rootsOf gens := by
  obtain ⟨id, hid, hp⟩ := List.mem_flatMap.1 h
  exact mem_rootsOf.2 ⟨id, (List.mem_filter.1 hid).1, hp⟩

end Generations

/-! ### What is live afterwards -/

section Afterwards
variable {sh : Shell} {w : World} {n m : StoreName} {p q : Path}

/-- Recorded by a generation that stays, or reachable from what one records. -/
def KeptLive (w : World) (n : StoreName) : Prop :=
  w.sdb.Live (keptRoots w.gens) (storePath n)

lemma KeptLive.live (h : KeptLive w n) : w.Live n := by
  obtain ⟨r, hr, hreach⟩ := h
  exact ⟨r, keptRoots_subset hr, hreach⟩

lemma mem_refsOf_deleteDead {dead : List StoreName} (hplain : ∀ n ∈ dead, n.quotes = 0) :
    q ∈ (dead.foldl (deleteDead sh none) w).sdb.refsOf p ↔
      q ∈ w.sdb.refsOf p ∧ ∀ n ∈ dead, p ≠ storePath n ∧ q ≠ storePath n := by
  induction dead generalizing w with
  | nil => simp
  | cons n dead ih =>
    have hstep : (deleteDead sh none w n).sdb = w.sdb.unregister n := by
      simp [deleteDead, rm_plain (hplain n List.mem_cons_self)]
    rw [List.foldl_cons, ih fun k hk => hplain k (List.mem_cons_of_mem _ hk), hstep,
      StoreDb.mem_refsOf_unregister, and_assoc, List.forall_mem_cons]

/-- Commands on names that can be quoted and go through. -/
structure Plain (w : World) : Prop where
  registered : ∀ n ∈ w.sdb.names, n.quotes = 0
  orphan : ∀ n, w.Orphan n → n.quotes = 0

lemma Plain.tamed (h : Plain w) : Tamed w := by
  rintro n (hd | ho)
  · exact .inl (h.registered n hd.1)
  · exact .inl (h.orphan n ho)

/-- **Live after the collection** is live by way of the generations that stay. -/
lemma live_cmdGc (hplain : Plain w) : (cmdGc sh none w).Live n ↔ KeptLive w n := by
  obtain ⟨hsdb, -, hgens⟩ := cmdGc_phases sh w spares_none.1 (by simp)
  have hroots : ∀ p, p ∈ rootsOf (cmdGc sh none w).gens ↔ p ∈ keptRoots w.gens := by
    intro p
    rw [hgens]
    exact mem_rootsOf_dropOld
  have hrefs : ∀ p q, q ∈ (cmdGc sh none w).sdb.refsOf p ↔ q ∈ w.sdb.refsOf p ∧
      ∀ n, w.Dead n → p ≠ storePath n ∧ q ≠ storePath n := by
    intro p q
    rw [hsdb, afterDead, mem_refsOf_deleteDead fun k hk =>
      hplain.registered k (mem_dead_iff.1 hk).1]
    simp only [mem_dead_iff]
  constructor
  · intro h
    refine h.mem_of_closed (fun r hr => .root ((hroots r).1 hr)) fun x hx y hy => ?_
    exact hx.step ((hrefs x y).1 hy).1
  · -- along the way everything is live, so no ref on it was taken away
    intro h
    have key : w.sdb.Live (rootsOf w.gens) (storePath n) ∧
        (cmdGc sh none w).sdb.Live (rootsOf (cmdGc sh none w).gens) (storePath n) := by
      refine h.mem_of_closed (S := fun p => w.sdb.Live (rootsOf w.gens) p ∧
        (cmdGc sh none w).sdb.Live (rootsOf (cmdGc sh none w).gens) p)
        (fun r hr => ⟨.root (keptRoots_subset hr), .root ((hroots r).2 hr)⟩) ?_
      rintro x ⟨hx, hx'⟩ y hy
      have hylive : w.sdb.Live (rootsOf w.gens) y := hx.step hy
      refine ⟨hylive, hx'.step ((hrefs x y).2 ⟨hy, fun k hk => ⟨?_, ?_⟩⟩)⟩
      · rintro rfl
        exact hk.2 hx
      · rintro rfl
        exact hk.2 hylive
    exact key.2

/-! ### Completeness -/

/-- Every directory that is left, hidden ones apart, is live by way of a generation that is left,
and the next collection deletes nothing. -/
structure Complete (sh : Shell) (w : World) : Prop where
  live : ∀ n, n.hidden = false → ((cmdGc sh none w).store.lookup n).any Entry.isDir = true →
    (cmdGc sh none w).Live n
  idle : ∀ n, (cmdGc sh none (cmdGc sh none w)).store.lookup n = (cmdGc sh none w).store.lookup n

/-- What the generations keep alive in the store, the generations that stay keep alive. -/
def Fresh (w : World) : Prop :=
  ∀ n, w.Live n → n ∈ w.store →
    n.hidden = false ∧ (w.store.lookup n).any Entry.isDir = true ∨ n ∈ w.sdb.names →
    KeptLive w n

/-- What a collection leaves in the store. -/
lemma lookup_cmdGc (hplain : Plain w) {e : Entry}
    (h : (cmdGc sh none w).store.lookup n = some e) :
    w.store.lookup n = some e ∧ ¬ w.Dead n ∧ ¬ w.Orphan n := by
  obtain ⟨hgone, hkept⟩ := cmdGc_lookup sh hplain.tamed n
  have hnot : ¬ (w.Dead n ∨ w.Orphan n) := by
    rintro (hd | ho)
    · rw [hgone ⟨.inl hd, hplain.registered n hd.1⟩] at h
      cases h
    · rw [hgone ⟨.inr ho, hplain.orphan n ho⟩] at h
      cases h
  exact ⟨(hkept fun h' => hnot h'.1) ▸ h, not_or.1 hnot⟩

lemma complete_live (hplain : Plain w) (hfresh : Fresh w) (hh : n.hidden = false)
    (hdir : ((cmdGc sh none w).store.lookup n).any Entry.isDir = true) :
    (cmdGc sh none w).Live n := by
  obtain ⟨e, he, hd⟩ := (Option.any_eq_true _ _).1 hdir
  obtain ⟨he, hnd, hno⟩ := lookup_cmdGc hplain he
  have hdir : (w.store.lookup n).any Entry.isDir = true := (Option.any_eq_true _ _).2 ⟨e, he, hd⟩
  have hlive : w.Live n := by
    by_contra hnl
    by_cases hn : n ∈ w.sdb.names
    · exact hnd ⟨hn, hnl⟩
    · exact hno ⟨hh, hdir, hn, hnl⟩
  exact (live_cmdGc hplain).2
    (hfresh n hlive (AList.lookup_isSome.1 (by rw [he]; rfl)) (.inl ⟨hh, hdir⟩))

/-- Where every directory left is live, the next collection has plain names before it. -/
lemma tamed_cmdGc (hplain : Plain w)
    (hlive : ∀ n, n.hidden = false → ((cmdGc sh none w).store.lookup n).any Entry.isDir = true →
      (cmdGc sh none w).Live n) : Tamed (cmdGc sh none w) := by
  rintro n (hd | ho)
  · exact .inl (hplain.registered n ((cmdGc_names hplain.tamed).1 hd.1).1)
  · exact absurd (hlive n ho.1 ho.2.1) ho.2.2.2

lemma complete_of_fresh (hplain : Plain w) (hfresh : Fresh w) : Complete sh w where
  live _ hh hdir := complete_live hplain hfresh hh hdir
  idle n := by
    have htamed : Tamed (cmdGc sh none w) :=
      tamed_cmdGc hplain fun n hh hdir => complete_live hplain hfresh hh hdir
    obtain ⟨-, hkept⟩ := cmdGc_lookup sh htamed n
    cases he : (cmdGc sh none w).store.lookup n with
    | none =>
      by_contra hcon
      rw [← he] at hcon
      have hall := cmdGc_lookup sh htamed n
      by_cases hc : ((cmdGc sh none w).Dead n ∨ (cmdGc sh none w).Orphan n) ∧ n.quotes = 0
      · exact hcon ((hall.1 hc).trans he.symm)
      · exact hcon (hall.2 hc)
    | some e =>
      rw [← he]
      refine hkept ?_
      rintro ⟨hd | ho, -⟩
      · -- registered and there, so it was live, and it still is
        obtain ⟨he, hnd, -⟩ := lookup_cmdGc hplain he
        have hn : n ∈ w.sdb.names := ((cmdGc_names hplain.tamed).1 hd.1).1
        have hlive : w.Live n := by
          by_contra hnl
          exact hnd ⟨hn, hnl⟩
        exact hd.2 ((live_cmdGc hplain).2
          (hfresh n hlive (AList.lookup_isSome.1 (by rw [he]; rfl)) (.inr hn)))
      · exact ho.2.2.2 (complete_live hplain hfresh ho.1 ho.2.1)

lemma fresh_of_complete (hplain : Plain w) (h : Complete sh w) : Fresh w := by
  intro n hlive hmem hcase
  obtain ⟨hs, hn⟩ : (cmdGc sh none w).store.lookup n = w.store.lookup n ∧
      (n ∈ (cmdGc sh none w).sdb.names ↔ n ∈ w.sdb.names) :=
    cmdGc_live spares_none.1 spares_none.2 (by simp) hplain.tamed hlive
  have hkept : (cmdGc sh none w).Live n ↔ KeptLive w n := live_cmdGc hplain
  rw [← hkept]
  rcases hcase with ⟨hh, hdir⟩ | hreg
  · exact h.live n hh (hs ▸ hdir)
  · by_contra hnl
    have hgone := (cmdGc_lookup sh (tamed_cmdGc hplain h.live) n).1
      ⟨.inl ⟨hn.2 hreg, hnl⟩, hplain.registered n hreg⟩
    rw [h.idle n, hs] at hgone
    rw [← AList.lookup_isSome, hgone] at hmem
    cases hmem

end Afterwards

/-- **A collection is complete exactly when the old generations keep nothing alive that the ones that
stay do not.** -/
theorem complete_iff_fresh (sh : Shell) {w : World} (hplain : Plain w) :
    Complete sh w ↔ Fresh w :=
  ⟨fresh_of_complete hplain, complete_of_fresh hplain⟩

/-- A package that only the first of two generations records, where the second one is current. -/
def staleWorld : World where
  gens :=
    { oneGen 1 [storePath ⟨ascii "h-old-1.0", by decide⟩] with
      dirs := (oneGen 1 [storePath ⟨ascii "h-old-1.0", by decide⟩]).dirs.insert 2
        ⟨some (.whole ⟨2, 0, []⟩), none, false⟩
      link := some 2 }
  sdb := StoreDb.empty.register ⟨ascii "h-old-1.0", by decide⟩ [] 0 none 0
  store := AList.insert ⟨ascii "h-old-1.0", by decide⟩ ⟨.directory [], true⟩ ∅

lemma staleWorld_plain : Plain staleWorld where
  registered := by decide +kernel
  orphan n hn := by
    obtain ⟨e, he, -⟩ := (Option.any_eq_true _ _).1 hn.2.1
    have hmem : n ∈ staleWorld.store := AList.lookup_isSome.1 (by rw [he]; rfl)
    rw [staleWorld, AList.mem_insert] at hmem
    obtain rfl := hmem.resolve_right (AList.notMem_empty n)
    decide

theorem complete_iff_fresh_stale : Complete .inert staleWorld ↔ Fresh staleWorld :=
  complete_iff_fresh .inert staleWorld_plain

/-- **A collection leaves the path of a generation that it removes itself.** -/
theorem stale_not_complete : ¬ Complete .inert staleWorld := by
  intro h
  have hlive := h.live ⟨ascii "h-old-1.0", by decide⟩ (by decide) (by decide +kernel)
  exact absurd hlive (by decide +kernel)

end Two09.Gc
