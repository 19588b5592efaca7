import Two09.Snapshot.Retention

/-!
# The table of snapshots

Parents are rows of the same path with smaller ids, whatever is taken, removed and pruned.
-/

namespace Two09.Snapshot

open Two09.Lib Two09.Lib.Posix Two09.Nar Two09.Store Two09.Gc

/-! ### The last ones of a sorted list -/

section Sorted
variable {α : Type} {f : α → Nat} {l : List α} {a : α}

/-- In a list with increasing keys, what stands before the last `k` elements has `k` greater keys. -/
lemma mem_take_iff_countP (h : l.Pairwise (f · < f ·)) (ha : a ∈ l) (k : Nat) :
    a ∈ l.take (l.length - k) ↔ ¬ l.countP (fun b => decide (f a < f b)) < k := by
  induction l with
  | nil => cases ha
  | cons b l ih =>
    obtain ⟨hb, hl⟩ := List.pairwise_cons.1 h
    rcases List.mem_cons.1 ha with rfl | hal
    · -- all the others are greater
      have hcount : (a :: l).countP (fun b => decide (f a < f b)) = l.length := by
        rw [List.countP_cons_of_neg (by simp), List.countP_eq_length]
        intro c hc
        exact decide_eq_true (hb c hc)
      rw [hcount, List.length_cons, Nat.not_lt]
      constructor
      · intro hmem
        by_contra hk
        rw [Nat.sub_eq_zero_of_le (by omega)] at hmem
        cases hmem
      · intro hk
        rw [Nat.sub_add_comm hk, List.take_succ_cons]
        exact List.mem_cons_self
    · have hba : f b < f a := hb a hal
      have hne : a ≠ b := by
        rintro rfl
        exact absurd hba (lt_irrefl _)
      rw [List.countP_cons_of_neg (by simp; omega), ← ih hl hal, List.length_cons]
      by_cases hk : k ≤ l.length
      · rw [Nat.sub_add_comm hk, List.take_succ_cons, List.mem_cons, or_iff_right hne]
      · rw [Nat.sub_eq_zero_of_le (by omega), Nat.sub_eq_zero_of_le (by omega)]
        simp

end Sorted

/-! ### The invariant -/

/-- The ids increase, and a parent is an earlier row of the same path. -/
structure Ordered (rows : List Row) : Prop where
  increasing : rows.Pairwise (·.id < ·.id)
  parent : ∀ r ∈ rows, ∀ p, r.parentId = some p → ∃ q ∈ rows, q.id = p ∧ q.path = r.path ∧ p < r.id

/-- The id of the latest row of a path, if there is one. -/
def Latest (rows : List Row) (path : Bytes) (id : Option Nat) : Prop :=
  ∀ i, id = some i ↔ (∃ r ∈ rows, r.path = path ∧ r.id = i) ∧ ∀ r ∈ rows, r.path = path → r.id ≤ i

/-- A row without a change but for the parent, which may be gone. -/
def SameButParent (f : Row → Row) : Prop := ∀ r, f r = r ∨ f r = { r with parentId := none }

/-- The rows that a prune leaves: those of other paths, and the last `keep` of the path. -/
def kept (rows : List Row) (path : Bytes) (keep : Nat) (r : Row) : Bool :=
  decide (r.path ≠ path) || decide (rows.countP (fun q => decide (q.path = path ∧ r.id < q.id)) < keep)

section Rows
variable {rows : List Row} {path : Bytes} {r : Row} {s : State} {id : Nat}

lemma lt_nextId (h : r ∈ rows) : r.id < nextId rows :=
  Nat.lt_succ_of_le (List.le_max?_getD_of_mem (List.mem_map_of_mem h))

lemma latest_newestOf : Latest rows path (newestOf rows path) := by
  intro i
  unfold newestOf
  rw [List.max?_eq_some_iff]
  simp only [List.mem_map, List.mem_filter, decide_eq_true_eq, and_assoc]
  refine and_congr Iff.rfl ⟨fun h r hr hp => h _ ⟨r, hr, hp, rfl⟩, ?_⟩
  rintro h _ ⟨r, hr, hp, rfl⟩
  exact h r hr hp

@[simp] lemma id_orphaned : (r.orphaned id).id = r.id := by
  unfold Row.orphaned
  split_ifs <;> rfl

@[simp] lemma path_orphaned : (r.orphaned id).path = r.path := by
  unfold Row.orphaned
  split_ifs <;> rfl

lemma parentId_orphaned {p : Nat} : (r.orphaned id).parentId = some p ↔ r.parentId = some p ∧ p ≠ id := by
  unfold Row.orphaned
  split_ifs with h
  · simp only [false_iff]
    rintro ⟨hp, hne⟩
    exact hne (Option.some.inj (hp.symm.trans h))
  · refine ⟨fun hp => ⟨hp, ?_⟩, fun hp => hp.1⟩
    rintro rfl
    exact h hp

lemma sameButParent_orphaned : SameButParent (Row.orphaned id) := by
  intro r
  unfold Row.orphaned
  split_ifs
  · exact .inr rfl
  · exact .inl rfl

lemma SameButParent.comp {f g : Row → Row} (hf : SameButParent f) (hg : SameButParent g) :
    SameButParent (f ∘ g) := by
  intro r
  show f (g r) = r ∨ f (g r) = _
  rcases hg r with h | h <;> rw [h]
  · exact hf r
  · rcases hf { r with parentId := none } with h' | h' <;> rw [h'] <;> exact .inr rfl

lemma Ordered.eq_of_id {q : Row} (h : Ordered rows) (hq : q ∈ rows) (hr : r ∈ rows) (hid : q.id = r.id) : q = r := by
  have hnd : (rows.map Row.id).Nodup := List.pairwise_map.2 (h.increasing.imp fun hlt => hlt.ne)
  exact List.inj_on_of_nodup_map hnd hq hr hid

/-! ### One operation -/

/-- A new row has the latest row of its path for a parent. -/
lemma Ordered.append (h : Ordered rows) (hid : r.id = nextId rows)
    (hparent : r.parentId = newestOf rows r.path) : Ordered (rows ++ [r]) where
  increasing := by
    rw [List.pairwise_append]
    refine ⟨h.increasing, by simp, fun q hq q' hq' => ?_⟩
    rw [List.mem_singleton.1 hq', hid]
    exact lt_nextId hq
  parent q hq p hp := by
    rcases List.mem_append.1 hq with hq | hq
    · obtain ⟨q', hq', hrest⟩ := h.parent q hq p hp
      exact ⟨q', List.mem_append_left _ hq', hrest⟩
    · obtain rfl := List.mem_singleton.1 hq
      rw [hparent] at hp
      obtain ⟨⟨q', hq', hpath, rfl⟩, -⟩ := (latest_newestOf p).1 hp
      exact ⟨q', List.mem_append_left _ hq', rfl, hpath, hid ▸ lt_nextId hq'⟩

/-- The children of a row that goes lose their parent. -/
lemma Ordered.remove (h : Ordered rows) (id : Nat) :
    Ordered ((rows.filter (·.id ≠ id)).map (Row.orphaned id)) where
  increasing := by
    rw [List.pairwise_map]
    simpa using h.increasing.filter _
  parent q hq p hp := by
    obtain ⟨r, hr, rfl⟩ := List.mem_map.1 hq
    obtain ⟨hparent, hne⟩ := parentId_orphaned.1 hp
    obtain ⟨q', hq', rfl, hpath, hlt⟩ := h.parent r (List.mem_of_mem_filter hr) p hparent
    refine ⟨q'.orphaned id, List.mem_map_of_mem (List.mem_filter.2 ⟨hq', by simpa using hne⟩), ?_, ?_, ?_⟩
    · exact id_orphaned
    · rw [path_orphaned, path_orphaned, hpath]
    · rw [id_orphaned]
      exact hlt

/-- Removals one after the other. -/
lemma rows_foldl_remove (ids : List Nat) (s : State) : ∃ f, SameButParent f ∧
    (ids.foldl snapshotRemove s).rows = (s.rows.filter fun r => decide (r.id ∉ ids)).map f := by
  induction ids generalizing s with
  | nil => exact ⟨fun r => r, fun r => .inl rfl, by simp⟩
  | cons id ids ih =>
    obtain ⟨f, hf, hrows⟩ := ih (snapshotRemove s id)
    refine ⟨f ∘ Row.orphaned id, hf.comp sameButParent_orphaned, ?_⟩
    rw [List.foldl_cons, hrows]
    show (((s.rows.filter (·.id ≠ id)).map (Row.orphaned id)).filter _).map f = _
    rw [List.filter_map, List.map_map, List.filter_filter]
    congr 1
    refine List.filter_congr fun r _ => ?_
    simp only [Function.comp, id_orphaned, List.mem_cons, not_or, Bool.decide_and]
    rw [Bool.and_comm]

lemma Ordered.foldl_remove (ids : List Nat) (h : Ordered s.rows) : Ordered (ids.foldl snapshotRemove s).rows := by
  induction ids generalizing s with
  | nil => exact h
  | cons id ids ih => exact ih (h.remove id)

/-- **What `snapshot_prune` leaves.** -/
lemma rows_snapshotPrune (h : Ordered s.rows) {keep : Int} (hkeep : 0 < keep) : ∃ f, SameButParent f ∧
    (snapshotPrune path keep s).rows = (s.rows.filter (kept s.rows path keep.toNat)).map f := by
  unfold snapshotPrune
  rw [if_neg (by omega)]
  generalize hlist : s.rows.filter (·.path = path) = list
  have hmem : ∀ q, q ∈ list ↔ q ∈ s.rows ∧ q.path = path := by
    intro q
    rw [← hlist, List.mem_filter, decide_eq_true_eq]
  obtain ⟨f, hf, hrows⟩ := rows_foldl_remove ((list.take (list.length - keep.toNat)).map Row.id) s
  refine ⟨f, hf, ?_⟩
  show (List.foldl snapshotRemove s _).rows = _
  rw [hrows]
  congr 1
  refine List.filter_congr fun r hr => ?_
  -- ids are not shared, so the ids that go are those of the rows that go
  have hids : r.id ∈ (list.take (list.length - keep.toNat)).map Row.id ↔
      r ∈ list.take (list.length - keep.toNat) := by
    refine ⟨fun h' => ?_, List.mem_map_of_mem⟩
    obtain ⟨q, hq, hid⟩ := List.mem_map.1 h'
    rw [← h.eq_of_id ((hmem q).1 (List.mem_of_mem_take hq)).1 hr hid]
    exact hq
  have hcount : list.countP (fun q => decide (r.id < q.id)) =
      s.rows.countP fun q => decide (q.path = path ∧ r.id < q.id) := by
    rw [← hlist, List.countP_filter]
    congr 1
    funext q
    rw [Bool.decide_and, Bool.and_comm]
  rw [Bool.eq_iff_iff, decide_eq_true_eq, kept, Bool.or_eq_true, decide_eq_true_eq, decide_eq_true_eq, hids]
  by_cases hpath : r.path = path
  · have hsorted : list.Pairwise (·.id < ·.id) := hlist ▸ h.increasing.filter _
    rw [mem_take_iff_countP hsorted ((hmem r).2 ⟨hr, hpath⟩), hcount, not_not,
      or_iff_right (not_not.2 hpath)]
  · refine iff_of_true (fun h' => ?_) (.inl hpath)
    exact hpath ((hmem r).1 (List.mem_of_mem_take h')).2

lemma Ordered.snapshotPrune (h : Ordered s.rows) (path : Bytes) (keep : Int) :
    Ordered (snapshotPrune path keep s).rows := by
  unfold Snapshot.snapshotPrune
  split_ifs
  · exact h
  · exact h.foldl_remove _

/-! ### Runs -/

variable {sh : Shell} {sha256 : Bytes → Bytes}

/-- What `snapshot_take` does to the table. -/
lemma snapshotTake_rows (sha256 : Bytes → Bytes) (t : Take) (s : State) :
    (snapshotTake sha256 t s).1.rows = s.rows ∧ (snapshotTake sha256 t s).2 = none ∨
      ∃ r, (snapshotTake sha256 t s).1.rows = s.rows ++ [r] ∧ (snapshotTake sha256 t s).2 = some r.id ∧
        r.id = nextId s.rows ∧ r.path = t.path ∧ r.parentId = newestOf s.rows t.path := by
  have hstage : ∀ n tree, (s.stage n tree).rows = s.rows := by
    intro n tree
    unfold State.stage
    split_ifs <;> rfl
  unfold snapshotTake
  cases t.address sha256 with
  | none => exact .inl ⟨rfl, rfl⟩
  | some found =>
    obtain ⟨tree, narHash, n⟩ := found
    cases hinserted : t.inserted with
    | false => exact .inl ⟨hstage n tree, rfl⟩
    | true =>
      refine .inr ⟨t.row s.rows narHash n, ?_, ?_, rfl, rfl, rfl⟩
      · show (s.stage n tree).rows ++ [t.row (s.stage n tree).rows narHash n] = _
        rw [hstage]
      · show some (nextId (s.stage n tree).rows) = _
        rw [hstage]
        rfl

lemma rows_shareTake (t : Share) : (shareTake sha256 t s).1.rows = s.rows := by
  have hcopied : ∀ (s : State) n, (s.copied n).rows = s.rows := by
    intro s n
    unfold State.copied
    split <;> rfl
  unfold shareTake
  cases t.address sha256 with
  | none => rfl
  | some found =>
    obtain ⟨tree, n⟩ := found
    dsimp only
    split_ifs
    · exact hcopied s n
    · exact hcopied (s.put n ⟨t.copy tree, true⟩) n
    · rfl

lemma rows_shareRemove (hash : Bytes) : (shareRemove hash s).rows = s.rows := by
  unfold shareRemove
  split <;> rfl

/-- Each operation keeps the order. -/
lemma Ordered.step (h : Ordered s.rows) (op : Op) : Ordered (step sh sha256 s op).rows := by
  cases op with
  | take t =>
    show Ordered (snapshotTake sha256 t s).1.rows
    rcases snapshotTake_rows sha256 t s with ⟨hrows, -⟩ | ⟨r, hrows, -, hid, hpath, hparent⟩
    · rw [hrows]
      exact h
    · rw [hrows]
      exact h.append hid (hpath ▸ hparent)
  | remove id => exact h.remove id
  | prune path keep => exact h.snapshotPrune path keep
  | share t => exact (@rows_shareTake s sha256 t).symm ▸ h
  | unshare hash => exact (rows_shareRemove (s := s) hash).symm ▸ h
  | _ => exact h

/-- The table is in order after any run. -/
lemma ordered_run (ops : List Op) (w : World) : Ordered (ops.foldl (Snapshot.step sh sha256) (State.start w)).rows := by
  have hrun : ∀ s : State, Ordered s.rows → Ordered (ops.foldl (Snapshot.step sh sha256) s).rows := by
    induction ops with
    | nil => exact fun s h => h
    | cons op ops ih => exact fun s h => ih _ (h.step op)
  exact hrun _ ⟨List.Pairwise.nil, fun r hr => by cases hr⟩

/-- The table is in order, a snapshot that is taken has the latest of its path for a parent, and a prune leaves
what it has to. -/
structure WellKept (sha256 : Bytes → Bytes) (s : State) : Prop where
  ordered : Ordered s.rows
  taken : ∀ t id, (snapshotTake sha256 t s).2 = some id → ∃ r, (snapshotTake sha256 t s).1.rows = s.rows ++ [r] ∧
    r.id = id ∧ r.path = t.path ∧ Latest s.rows t.path r.parentId
  pruned : ∀ path keep, 0 < keep → ∃ f, SameButParent f ∧
    (snapshotPrune path keep s).rows = (s.rows.filter (kept s.rows path keep.toNat)).map f

/-- **The table of snapshots along every run.** -/
theorem snapshot_table (sh : Shell) (sha256 : Bytes → Bytes) (w : World) (ops : List Op) :
    WellKept sha256 (ops.foldl (Snapshot.step sh sha256) (State.start w)) where
  ordered := ordered_run ops w
  taken t id hid := by
    rcases snapshotTake_rows sha256 t _ with ⟨-, hnone⟩ | ⟨r, hrows, hsome, -, hpath, hparent⟩
    · rw [hnone] at hid
      cases hid
    · rw [hsome] at hid
      exact ⟨r, hrows, Option.some.inj hid, hpath, hparent ▸ latest_newestOf⟩
  pruned path keep hkeep := rows_snapshotPrune (ordered_run ops w) hkeep

end Rows

end Two09.Snapshot
