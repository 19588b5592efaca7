import Two09.Gc.Phases

/-!
# `cmd_gc` under failing calls

`NULL` for a closure counts as an empty one, and a query that fails ends like one that is done. So
a call that fails before the deletions can empty or cut the set of live paths, while one that fails
later only leaves paths undeleted.
-/

namespace Two09.Gc

open Two09.Lib Two09.Lib.Posix Two09.Gen Two09.Nar Two09.Store

/-- A collection in which that call fails deletes and unregisters no live path, in any world with a
root. Where the database does not open the collection does not claim to know the refs. -/
def FailsSafe (f : Fault) : Prop :=
  f ≠ .dbOpen → ∀ (sh : Shell) (w : World), rootsOf w.gens ≠ [] → Tamed w → ∀ n, w.Live n →
    (cmdGc sh (some f) w).store.lookup n = w.store.lookup n ∧
      (n ∈ (cmdGc sh (some f) w).sdb.names ↔ n ∈ w.sdb.names)

/-- A failure that takes nothing away from the roots and from the closure. Generation 0 is never
read. -/
def Fault.Harmless : Fault → Prop
  | .genList | .rootsGrow _ | .rootDup _ | .closureNull | .closureStep _ _ => False
  | .manifestRead id => id = 0
  | .dbOpen | .deadNull | .deadStep _ | .allNull | .allStep _ | .unregister _ | .openStore => True

lemma Fault.Harmless.spares {f : Fault} (h : f.Harmless) :
    SparesRoots (some f) ∧ SparesClosure (some f) := by
  cases f with
  | manifestRead id =>
    have hid : id = 0 := h
    subst hid
    refine ⟨⟨by simp, fun id hid heq => ?_, by simp, by simp⟩, by simp [SparesClosure]⟩
    simp only [Option.some.injEq, Fault.manifestRead.injEq] at heq
    omega
  | genList => cases h
  | rootsGrow _ => cases h
  | rootDup _ => cases h
  | closureNull => cases h
  | closureStep _ _ => cases h
  | _ => simp [SparesRoots, SparesClosure]

lemma Fault.Harmless.failsSafe {f : Fault} (h : f.Harmless) : FailsSafe f := by
  intro hopen sh w _ htame n hn
  exact cmdGc_live h.spares.1 h.spares.2 (by simpa using hopen) htame hn

/-! ### What an incomplete closure costs -/

section Loss
variable {f : Fault} {w : World} {n p : StoreName}

/-- Where every registered name is plain and the store holds nothing else, names are no problem. -/
lemma tamed_of_plain (hnames : ∀ n ∈ w.sdb.names, n.quotes = 0)
    (hstore : ∀ n ∈ w.store, n ∈ w.sdb.names) : Tamed w := by
  rintro n (hd | ho)
  · exact .inl (hnames n hd.1)
  · obtain ⟨e, he, -⟩ := (Option.any_eq_true _ _).1 ho.2.1
    exact absurd (hstore n (AList.lookup_isSome.1 (by rw [he]; rfl))) ho.2.2.1

lemma inert_gone {store : StoreDir} (h : store.lookup p = none) :
    (Shell.inert.rm n store).1.lookup p = none := by
  unfold Shell.rm
  split_ifs
  · by_cases hpn : p = n
    · subst hpn
      exact AList.lookup_erase p store
    · rw [AList.lookup_erase_ne hpn, h]
  · exact h
  · exact h

lemma sweep_inert_gone {flt : Option Fault} {keep : StoreName → Bool}
    (h : w.store.lookup p = none) : (sweep .inert flt keep w).store.lookup p = none := by
  have key : ∀ (ns : List StoreName) (w : World), w.store.lookup p = none →
      (ns.foldl (sweepEntry .inert keep) w).store.lookup p = none := by
    intro ns
    induction ns with
    | nil => exact fun w h => h
    | cons n ns ih =>
      refine fun w h => ih _ ?_
      unfold sweepEntry
      split_ifs
      · exact h
      · exact inert_gone h
  unfold sweep
  split_ifs
  · exact h
  · exact key _ w h

/-- A registered path that the closure misses is deleted. -/
lemma deleted_of_notMem (hopen : f ≠ .dbOpen) (hnull : f ≠ .deadNull)
    (hstep : ∀ rows, f ≠ .deadStep rows) (hnames : ∀ n ∈ w.sdb.names, n.quotes = 0)
    (hp : p ∈ w.sdb.names)
    (hc : storePath p ∉ gatherClosure (some f) w.sdb (gatherRoots (some f) w.gens)) :
    (cmdGc .inert (some f) w).store.lookup p = none := by
  have hmem : ∀ n, n ∈ gatherDead (some f) w.sdb
      (gatherClosure (some f) w.sdb (gatherRoots (some f) w.gens)) ↔
        n ∈ w.sdb.names ∧ storePath n ∉
          gatherClosure (some f) w.sdb (gatherRoots (some f) w.gens) := by
    intro n
    have hdead : ∀ closure, gatherDead (some f) w.sdb closure =
        w.sdb.deadPaths w.sdb.paths.length closure := by
      intro closure
      unfold gatherDead
      split
      · exact absurd (Option.some.inj ‹_›) hnull
      · exact absurd (Option.some.inj ‹_›) (hstep _)
      · rfl
    rw [hdead, StoreDb.mem_deadPaths, StoreDb.mem_allPaths le_rfl]
  have hafter : (afterDead .inert (some f) w).store.lookup p = none :=
    (deleteDead_plain _ _ _ (fun n hn => .inl (hnames n ((hmem n).1 hn).1)) ((hmem p).2 ⟨hp, hc⟩)
      (hnames p hp)).1
  have hcollect : (collectWithDb .inert (some f) (gatherRoots (some f) w.gens) w).1.store.lookup p =
      none := by
    unfold collectWithDb
    simp only
    split_ifs
    · exact hafter
    · exact sweep_inert_gone hafter
  unfold cmdGc
  have hopen' : ¬ some f = some Fault.dbOpen := by simpa using hopen
  simp only [if_neg hopen']
  split_ifs
  · exact hcollect
  · exact hcollect

/-- A failure that lets the closure miss a live path that is there does not fail safe. -/
lemma not_failsSafe {e : Entry} (hopen : f ≠ .dbOpen) (hnull : f ≠ .deadNull)
    (hstep : ∀ rows, f ≠ .deadStep rows) (hnames : ∀ n ∈ w.sdb.names, n.quotes = 0)
    (hstore : ∀ n ∈ w.store, n ∈ w.sdb.names) (hroots : rootsOf w.gens ≠ [])
    (he : w.store.lookup p = some e) (hlive : w.Live p)
    (hc : storePath p ∉ gatherClosure (some f) w.sdb (gatherRoots (some f) w.gens)) :
    ¬ FailsSafe f := by
  intro h
  have hp : p ∈ w.sdb.names := hstore p (AList.lookup_isSome.1 (by rw [he]; rfl))
  have hkeep := (h hopen .inert w hroots (tamed_of_plain hnames hstore) p hlive).1
  rw [deleted_of_notMem hopen hnull hstep hnames hp hc, he] at hkeep
  cases hkeep

end Loss

/-! ### Worlds that lose a path -/

/-- A family of plain names. -/
def nth (j : Nat) : StoreName where
  val := List.replicate (j + 1) 97
  valid :=
    { nonempty := by simp
      noSlash := by simp [slash]
      noNul := by simp
      notDot := by simp [List.replicate_succ, dot]
      notDotdot := by simp [List.replicate_succ, dotdot] }

lemma nth_injective : Function.Injective nth := by
  intro i j h
  have hlen := congrArg (fun n : StoreName => n.val.length) h
  simpa [nth] using hlen

lemma quotes_nth (j : Nat) : (nth j).quotes = 0 := by simp [StoreName.quotes, nth, List.count_replicate]

/-- The world with these tables that holds one directory. -/
def holding (gens : GenDb) (sdb : StoreDb) (p : StoreName) : World :=
  ⟨gens, sdb, AList.insert p ⟨.directory [], true⟩ ∅⟩

lemma lookup_holding (gens : GenDb) (sdb : StoreDb) (p : StoreName) :
    (holding gens sdb p).store.lookup p = some ⟨.directory [], true⟩ := AList.lookup_insert _

lemma mem_holding {gens : GenDb} {sdb : StoreDb} {p n : StoreName}
    (h : n ∈ (holding gens sdb p).store) : n = p := by
  rw [holding, AList.mem_insert] at h
  exact h.resolve_right (AList.notMem_empty n)

/-- A store database with one row. -/
def oneRow : StoreDb := StoreDb.empty.register (nth 0) [] 0 none 0

lemma names_oneRow : oneRow.names = [nth 0] := rfl

lemma rootsOf_oneGen {id : Nat} (hid : 0 < id) (ps : List Path) : rootsOf (oneGen id ps) = ps := by
  rw [rootsOf, genDbList_oneGen hid, List.flatMap_singleton, recorded_oneGen]

lemma gatherRoots_oneGen {flt : Option Fault} {id : Nat} (hid : 0 < id) (hlist : flt ≠ some .genList)
    (hread : flt ≠ some (.manifestRead id)) (ps : List Path) :
    gatherRoots flt (oneGen id ps) = ps.foldl (Roots.push flt) .empty := by
  rw [gatherRoots, listGens, if_neg hlist, genDbList_oneGen hid, List.flatMap_singleton,
    if_neg hread, recorded_oneGen]

section Worlds
variable {f : Fault} {id : Nat} {ps : List Path}

/-- The only row of the database is lost when it is recorded but missing from the closure. -/
lemma not_failsSafe_oneRow (id : Nat) (ps : List Path) (hopen : f ≠ .dbOpen) (hnull : f ≠ .deadNull)
    (hstep : ∀ rows, f ≠ .deadStep rows) (hid : 0 < id) (hps : storePath (nth 0) ∈ ps)
    (hc : storePath (nth 0) ∉ gatherClosure (some f) oneRow (gatherRoots (some f) (oneGen id ps))) :
    ¬ FailsSafe f := by
  have hroots : rootsOf (holding (oneGen id ps) oneRow (nth 0)).gens = ps := rootsOf_oneGen hid ps
  refine not_failsSafe (w := holding (oneGen id ps) oneRow (nth 0)) hopen hnull hstep
    (fun n hn => ?_) (fun n hn => ?_) ?_ (lookup_holding _ _ _) ?_ hc
  · obtain rfl : n = nth 0 := List.mem_singleton.1 (names_oneRow ▸ hn)
    exact quotes_nth 0
  · rw [mem_holding hn]
    exact List.mem_singleton.2 rfl
  · rw [hroots]
    exact List.ne_nil_of_mem hps
  · rw [World.Live, hroots]
    exact Worklist.Reachable.root hps

lemma not_failsSafe_genList : ¬ FailsSafe .genList := by
  refine not_failsSafe_oneRow 1 [storePath (nth 0)] (by simp) (by simp) (by simp)
    (by omega) (by simp) ?_
  simp [gatherClosure, gatherRoots, listGens, Roots.empty]

lemma not_failsSafe_manifestRead (hid : 0 < id) : ¬ FailsSafe (.manifestRead id) := by
  refine not_failsSafe_oneRow id [storePath (nth 0)] (by simp) (by simp) (by simp)
    hid (by simp) ?_
  simp [gatherClosure, gatherRoots, listGens, genDbList_oneGen hid, Roots.empty]

lemma not_failsSafe_closureNull : ¬ FailsSafe .closureNull := by
  refine not_failsSafe_oneRow 1 [storePath (nth 0)] (by simp) (by simp) (by simp)
    (by omega) (by simp) ?_
  simp [gatherClosure]

/-! ### A lost array -/

lemma lt_nextCap (cap : Nat) : cap < nextCap cap := by
  unfold nextCap
  split_ifs
  · omega
  · omega

lemma iterate_nextCap_le {i j : Nat} (h : i ≤ j) : nextCap^[i] 0 ≤ nextCap^[j] 0 :=
  Function.monotone_iterate_of_id_le (fun cap => (lt_nextCap cap).le) h 0

/-- While the array can still grow it holds all paths so far, after at most `times` growths; once it
is lost it is never full. -/
def Growing (times : Nat) (r : Roots) (n : Nat) : Prop :=
  r.count = n ∧ n ≤ nextCap^[times] 0 ∧
    ∃ j ≤ times, r.cap = nextCap^[j] 0 ∧ n ≤ r.cap ∧ (r.array = none → j = 0)

lemma Growing.push {times : Nat} {r : Roots} {n : Nat} (h : Growing times r n) (p : Path) :
    Growing times (r.push (some (.rootsGrow times)) p) (n + 1) ∨
      (r.push (some (.rootsGrow times)) p).array = none ∧
        (r.push (some (.rootsGrow times)) p).count ≠ (r.push (some (.rootsGrow times)) p).cap := by
  obtain ⟨hcount, hn, j, hj, hcap, hle, hnone⟩ := h
  by_cases hfull : r.count = r.cap
  · by_cases hlast : r.cap = nextCap^[times] 0
    · have hpush : r.push (some (.rootsGrow times)) p = ⟨none, r.count, nextCap r.cap⟩ := by
        simp [Roots.push, Roots.grow, hfull, growFails, hlast]
      rw [hpush]
      have hlt := lt_nextCap r.cap
      exact .inr ⟨rfl, by simp only; omega⟩
    · have hpush : r.push (some (.rootsGrow times)) p =
          ⟨some (r.array.getD [] ++ [some p]), r.count + 1, nextCap r.cap⟩ := by
        simp [Roots.push, Roots.grow, hfull, growFails, hlast]
      have hjt : j ≠ times := fun h => hlast (h ▸ hcap)
      have hlt := lt_nextCap r.cap
      rw [hpush]
      refine .inl ⟨by simp only; omega, by omega, j + 1, by omega, ?_, by simp only; omega, by simp⟩
      rw [Function.iterate_succ_apply', ← hcap]
  · obtain ⟨a, ha⟩ : ∃ a, r.array = some a := by
      refine Option.ne_none_iff_exists'.1 fun h => ?_
      rw [hnone h] at hcap
      have hcap0 : r.cap = 0 := hcap
      omega
    have hpush : r.push (some (.rootsGrow times)) p = ⟨some (a ++ [some p]), r.count + 1, r.cap⟩ := by
      simp [Roots.push, Roots.grow, hfull, ha]
    have hmono := iterate_nextCap_le hj
    rw [hpush]
    exact .inl ⟨by simp only; omega, by omega, j, hj, hcap, by simp only; omega, by simp⟩

/-- A root more than the last growth makes room for loses the array. -/
lemma array_rootsGrow {times : Nat} (h : nextCap^[times] 0 < ps.length) :
    (ps.foldl (Roots.push (some (.rootsGrow times))) .empty).array = none := by
  have lost : ∀ (ps : List Path) (r : Roots), r.array = none ∧ r.count ≠ r.cap →
      (ps.foldl (Roots.push (some (.rootsGrow times))) r).array = none := by
    intro ps
    induction ps with
    | nil => exact fun r hr => hr.1
    | cons p ps ih =>
      rintro r ⟨ha, hne⟩
      have hpush : r.push (some (.rootsGrow times)) p = r := by
        simp [Roots.push, Roots.grow, hne, ha]
      rw [List.foldl_cons, hpush]
      exact ih r ⟨ha, hne⟩
  have key : ∀ (ps : List Path) (r : Roots) (n : Nat), Growing times r n →
      nextCap^[times] 0 < n + ps.length →
      (ps.foldl (Roots.push (some (.rootsGrow times))) r).array = none := by
    intro ps
    induction ps with
    | nil =>
      intro r n hr hlen
      have hn := hr.2.1
      simp only [List.length_nil] at hlen
      omega
    | cons p ps ih =>
      intro r n hr hlen
      rw [List.length_cons] at hlen
      rcases hr.push p with hr | hr
      · exact ih _ (n + 1) hr (by omega)
      · exact lost ps _ hr
  exact key ps .empty 0 ⟨rfl, Nat.zero_le _, 0, Nat.zero_le _, rfl, le_rfl, fun _ => rfl⟩
    (by omega)

lemma not_failsSafe_rootsGrow (times : Nat) : ¬ FailsSafe (.rootsGrow times) := by
  refine not_failsSafe_oneRow 1
    (List.replicate (nextCap^[times] 0 + 1) (storePath (nth 0))) (by simp) (by simp) (by simp)
    (by omega) (by simp) ?_
  rw [gatherRoots_oneGen (by omega) (by simp) (by simp), gatherClosure,
    if_pos (.inr (.inl (array_rootsGrow (by simp))))]
  simp

/-! ### A root that is not copied -/

lemma refsOf_oneRow (p : Path) : oneRow.refsOf p = [] := rfl

lemma not_failsSafe_rootDup (i : Nat) : ¬ FailsSafe (.rootDup i) := by
  have hps : storePath (nth 0) ∈ List.replicate i (storePath (nth 1)) ++ [storePath (nth 0)] := by
    simp
  refine not_failsSafe_oneRow 1 _ (by simp) (by simp) (by simp) (by omega) hps fun hmem => ?_
  rw [gatherRoots_oneGen (by omega) (by simp) (by simp)] at hmem
  have hholds := (holds_empty (some (.rootDup i))).pushAll (by simp)
    (List.replicate i (storePath (nth 1)) ++ [storePath (nth 0)])
  rw [gatherClosure] at hmem
  split_ifs at hmem
  · cases hmem
  · have hlive := StoreDb.closureOf_partial.2 _ hmem
    -- without refs only the roots are live
    obtain ⟨r, hr, hreach⟩ := hlive
    have hrp : r = storePath (nth 0) := by
      rcases Relation.ReflTransGen.cases_head hreach with h | ⟨c, hc, -⟩
      · exact h
      · rw [refsOf_oneRow] at hc
        cases hc
    obtain ⟨j, hj, hne⟩ := hholds.mem_paths.1 (hrp ▸ hr)
    have hji : j ≠ i := fun h => hne (by rw [h])
    rw [List.nil_append] at hj
    rcases lt_or_gt_of_ne hji with hlt | hgt
    · rw [List.getElem?_append_left (by simpa using hlt), List.getElem?_replicate, if_pos hlt] at hj
      have h10 := nth_injective (storePath_injective (Option.some.inj hj))
      omega
    · rw [List.getElem?_eq_none (by simp; omega)] at hj
      cases hj

/-! ### A query cut short -/

/-- A database whose row 0 refers to all rows that follow. -/
def fan (rows : Nat) : StoreDb where
  paths := (List.range (rows + 2)).map fun j => ⟨j, nth j, [], 0, none, 0⟩
  refs := (List.range (rows + 1)).map fun j => (0, j + 1)
  ids_nodup := by simpa [Function.comp_def] using List.nodup_range
  names_nodup := by
    simpa [Function.comp_def] using List.nodup_range.map nth_injective
  refs_nodup := List.nodup_range.map fun i j h => by simpa using h
  refs_valid r hr := by
    obtain ⟨j, hj, rfl⟩ := List.mem_map.1 hr
    have hlt := List.mem_range.1 hj
    simp only [List.map_map, Function.comp_def, List.map_id', List.mem_range]
    exact ⟨by omega, by omega⟩

lemma mem_names_fan {rows : Nat} {n : StoreName} :
    n ∈ (fan rows).names ↔ ∃ j < rows + 2, nth j = n := by
  simp [StoreDb.names, fan]

lemma idToPath_fan {rows j : Nat} (h : j < rows + 2) :
    (fan rows).idToPath j = some (storePath (nth j)) :=
  (fan rows).idToPath_eq (r := ⟨j, nth j, [], 0, none, 0⟩)
    (List.mem_map.2 ⟨j, List.mem_range.2 h, rfl⟩)

lemma refsOf_fan (rows : Nat) :
    (fan rows).refsOf (storePath (nth 0)) =
      (List.range (rows + 1)).map fun j => storePath (nth (j + 1)) := by
  have hrefs : (fan rows).refs = (List.range (rows + 1)).map fun j => (0, j + 1) := rfl
  rw [StoreDb.refsOf, hrefs, List.filterMap_map, ← List.filterMap_eq_map]
  refine List.filterMap_congr fun j hj => ?_
  have hlt := List.mem_range.1 hj
  simp [idToPath_fan (show 0 < rows + 2 by omega), idToPath_fan (show j + 1 < rows + 2 by omega)]

lemma refsOf_fan_other {rows : Nat} {p : Path} (h : p ≠ storePath (nth 0)) :
    (fan rows).refsOf p = [] := by
  rw [StoreDb.refsOf, List.filterMap_eq_nil_iff]
  intro r hr
  obtain ⟨j, -, rfl⟩ := List.mem_map.1 hr
  rw [idToPath_fan (by omega), if_neg fun heq => h (Option.some.inj heq).symm]

/-- As many other roots as there are queries before the one that fails. -/
def otherRoots (i : Nat) : List Path := (List.range i).map fun j => List.replicate j 98

lemma replicate_ne_storePath (j : Nat) (n : StoreName) : List.replicate j 98 ≠ storePath n := by
  intro h
  have hmem : (47 : UInt8) ∈ List.replicate j 98 := by
    rw [h]
    simp [storePath, storeDir, ascii]
  simp at hmem

lemma nodup_otherRoots (i : Nat) : (otherRoots i ++ [storePath (nth 0)]).Nodup := by
  rw [List.nodup_append']
  refine ⟨List.nodup_range.map fun j k h => ?_, by simp, ?_⟩
  · simpa using congrArg List.length h
  · intro p hp hp'
    obtain ⟨j, -, rfl⟩ := List.mem_map.1 hp
    exact replicate_ne_storePath j _ (List.mem_singleton.1 hp')

/-- The last row of the fan is not found when the query for row 0 stops before it. -/
lemma notMem_closureOf_fan (i rows : Nat) :
    storePath (nth (rows + 1)) ∉ (fan rows).closureOf (closureRows (some (.closureStep i rows)))
      (otherRoots i ++ [storePath (nth 0)]) := by
  have hset : Worklist.setAddAll [] (otherRoots i ++ [storePath (nth 0)]) =
      otherRoots i ++ [storePath (nth 0)] :=
    Worklist.setAddAll_eq_append (nodup_otherRoots i)
  have hlast : storePath (nth (rows + 1)) ≠ storePath (nth 0) := fun h => by
    have := nth_injective (storePath_injective h)
    omega
  rw [StoreDb.closureOf, Worklist.closure, hset]
  refine Worklist.notMem_drain (storePath (nth 0)) i (fun j a hmem => ?_)
    (nodup_otherRoots i) (by simp [otherRoots]) fun hmem => ?_
  · by_cases ha : a = storePath (nth 0)
    · refine ⟨ha, fun hji => ?_⟩
      subst ha hji
      have hrows : closureRows (some (.closureStep j rows)) j = some rows := if_pos rfl
      simp only [hrows, refsOf_fan, ← List.map_take, List.take_range, List.mem_map,
        List.mem_range] at hmem
      obtain ⟨k, hk, heq⟩ := hmem
      have := nth_injective (storePath_injective heq)
      omega
    · simp only [refsOf_fan_other ha, List.take_nil] at hmem
      split at hmem <;> cases hmem
  · rcases List.mem_append.1 hmem with h | h
    · obtain ⟨j, -, hj⟩ := List.mem_map.1 h
      exact replicate_ne_storePath j _ hj
    · exact hlast (List.mem_singleton.1 h)

lemma not_failsSafe_closureStep (i rows : Nat) : ¬ FailsSafe (.closureStep i rows) := by
  have hroots : rootsOf (holding (oneGen 1 (otherRoots i ++ [storePath (nth 0)])) (fan rows)
      (nth (rows + 1))).gens = otherRoots i ++ [storePath (nth 0)] := rootsOf_oneGen (by omega) _
  refine not_failsSafe (p := nth (rows + 1))
    (w := holding (oneGen 1 (otherRoots i ++ [storePath (nth 0)])) (fan rows) (nth (rows + 1)))
    (by simp) (by simp) (by simp) (fun n hn => ?_) (fun n hn => ?_) (by simp [hroots])
    (lookup_holding _ _ _) ?_ ?_
  · obtain ⟨j, -, rfl⟩ := mem_names_fan.1 hn
    exact quotes_nth j
  · rw [mem_holding hn]
    exact mem_names_fan.2 ⟨rows + 1, by omega, rfl⟩
  · rw [World.Live, hroots]
    refine (Worklist.Reachable.root (a := storePath (nth 0)) (by simp)).step ?_
    have hmem : storePath (nth (rows + 1)) ∈ (fan rows).refsOf (storePath (nth 0)) := by
      rw [refsOf_fan]
      exact List.mem_map.2 ⟨rows, by simp, rfl⟩
    exact hmem
  · have hwhole := ((holds_empty (some (.closureStep i rows))).pushAll (by simp)
      (otherRoots i ++ [storePath (nth 0)])).whole (by simp)
    have hgather : gatherRoots (some (.closureStep i rows))
        (oneGen 1 (otherRoots i ++ [storePath (nth 0)])) =
          (otherRoots i ++ [storePath (nth 0)]).foldl (Roots.push _) .empty :=
      gatherRoots_oneGen (by omega) (by simp) (by simp) _
    intro hmem
    simp only [holding, hgather, gatherClosure] at hmem
    split_ifs at hmem
    · cases hmem
    · rw [hwhole.2.1] at hmem
      exact notMem_closureOf_fan i rows hmem

end Worlds

end Two09.Gc
