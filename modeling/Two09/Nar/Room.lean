import Two09.Nar.Confine
import Two09.Nar.RoundTrip

/-!
# Room for a dump

A dump is unpacked at a path only if the paths of its tree fit there, and an empty directory that is there already
is as good as a vacant spot.
-/

namespace Two09.Nar

open Two09.Lib Two09.Lib.Posix FileTree

/-! ### A dump that is read to its end -/

/-- Wherever the stream `b` is read to its end, what follows it is left and the tree `t` fits. -/
def FitsWhereRead (t : FileTree) (b : Bytes) : Prop :=
  ∀ {dest : Path} {k : Nat} {ns : List Name} {rest rest' : Bytes},
    (scanNode dest k ns (b ++ rest)).2 = some rest' → rest' = rest ∧ Fits (pathOf dest ns) t

section Scan

variable {dest : Path} {ns : List Name} {t : FileTree} {src : Path} {b : Bytes}

/-- The entry loop comes to the end only past entries that fit. -/
lemma scanEntries_fits (ps : List ((Name × FileTree) × Bytes))
    (hps : ∀ q ∈ ps, ValidName q.1.1 ∧ FitsWhereRead q.1.2 q.2) {k : Nat} {rest rest' : Bytes}
    (h : (scanEntries dest k ns
      ((ps.flatMap fun q => entryBytes q.1.1 q.2) ++ (line tokEnd ++ rest))).2 = some rest') :
    rest' = rest ∧ ∀ q ∈ ps, (join (pathOf dest ns) q.1.1).length < pathMax ∧
      Fits (join (pathOf dest ns) q.1.1) q.1.2 := by
  induction ps generalizing k with
  | nil =>
    cases k with
    | zero => cases h
    | succ k =>
      rw [List.flatMap_nil, List.nil_append, scanEntries, readEntry_end] at h
      exact ⟨(Option.some.inj h).symm, List.forall_mem_nil _⟩
  | cons q ps ih =>
    obtain ⟨⟨n, t⟩, b⟩ := q
    obtain ⟨⟨hn, ht⟩, hps⟩ := List.forall_mem_cons.1 hps
    cases k with
    | zero => cases h
    | succ k =>
      rw [List.flatMap_cons, List.append_assoc, scanEntries, readEntry_entryBytes hn] at h
      dsimp only at h
      split_ifs at h with hlen
      rw [pathOf_concat, not_le] at hlen
      cases hnode : scanNode dest k (ns ++ [n])
          (b ++ ((ps.flatMap fun q => entryBytes q.1.1 q.2) ++ (line tokEnd ++ rest))) with
      | mk es r =>
        rw [hnode] at h
        cases r with
        | none => cases h
        | some left =>
          obtain ⟨rfl, hfit⟩ := ht (congrArg Prod.snd hnode)
          rw [pathOf_concat] at hfit
          obtain ⟨hrest, hall⟩ := ih hps h
          exact ⟨hrest, List.forall_mem_cons.2 ⟨⟨hlen, hfit⟩, hall⟩⟩

/-- **What `dump_node` emits for a tree is read to its end only where the tree fits.** -/
lemma fitsWhereRead_of_dumpNode (hwf : t.Wf) :
    ∀ {src : Path} {b : Bytes}, dumpNode src t = some b → FitsWhereRead t b := by
  induction hwf with
  | @regular c x hlen =>
    intro src b hb dest k ns rest rest' h
    rw [dumpNode, Option.some.injEq] at hb
    subst hb
    cases k with
    | zero => cases h
    | succ k =>
      have hread := readHead_regular (n := c.length) (by omega) x (c ++ rest)
      rw [List.append_assoc _ c rest, scanNode, hread] at h
      dsimp only at h
      rw [if_neg (by simp), List.drop_left, Option.some.injEq] at h
      exact ⟨h.symm, .regular⟩
  | @symlink t hne hnul hlen =>
    intro src b hb dest k ns rest rest' h
    have htake : t.take pathMax = t := List.take_of_length_le (by omega)
    rw [dumpNode, Option.some.injEq, htake] at hb
    subst hb
    cases k with
    | zero => cases h
    | succ k =>
      rw [scanNode, readHead_symlink hne hnul hlen] at h
      exact ⟨(Option.some.inj h).symm, .symlink⟩
  | @directory es hnd hvalid hwf ih =>
    intro src b hb dest k ns rest rest' h
    obtain ⟨ps, hps, hperm, rfl⟩ := dumpNode_directory hb
    cases k with
    | zero => cases h
    | succ k =>
      have hin : ∀ q ∈ ps, q.1 ∈ es := fun q hq => hperm.mem_iff.1 (List.mem_map_of_mem hq)
      have hall : ∀ q ∈ ps, ValidName q.1.1 ∧ FitsWhereRead q.1.2 q.2 := fun q hq =>
        ⟨hvalid _ (hin q hq), ih _ (hin q hq) (hps.dumped q hq)⟩
      have hread := readHead_directory ((ps.flatMap fun q => entryBytes q.1.1 q.2) ++ (line tokEnd ++ rest))
      rw [List.append_assoc, List.append_assoc, scanNode, hread] at h
      obtain ⟨hrest, hfit⟩ := scanEntries_fits ps hall h
      refine ⟨hrest, .directory (fun e he => ?_) fun e he => ?_⟩
      · obtain ⟨q, hq, rfl⟩ := List.mem_map.1 (hperm.mem_iff.2 he)
        exact (hfit q hq).1
      · obtain ⟨q, hq, rfl⟩ := List.mem_map.1 (hperm.mem_iff.2 he)
        exact (hfit q hq).2

/-- **A dump is unpacked only where its paths fit**, whatever the file system. -/
theorem fits_of_narExtract {env : Env} {fs fs' : Fs} {rest : Bytes} (hwf : t.Wf) (hb : narDump src t = some b)
    (h : narExtract env dest b fs = (some rest, fs')) : Fits dest t := by
  obtain ⟨-, b', hb', rfl⟩ := narDump_some hb
  have hscan : (scan dest (line tokMagic ++ b')).2 = some rest := by
    rw [narExtract_eq_replay, outcome] at h
    have hfst := (Prod.mk.inj h).1
    split_ifs at hfst
    exact hfst
  rw [scan, readLine_line tokMagic (by decide) (by decide) b'] at hscan
  dsimp only at hscan
  rw [if_pos rfl, ← List.append_nil b'] at hscan
  exact (fitsWhereRead_of_dumpNode hwf hb' hscan).2

end Scan

/-! ### One dump wherever a tree stands -/

mutual
/-- The stream of a node does not depend on its path. -/
theorem dumpNode_unique {p q : Path} {b c : Bytes} (t : FileTree) (hb : dumpNode p t = some b)
    (hc : dumpNode q t = some c) : b = c := by
  match t with
  | .regular x y =>
    rw [dumpNode] at hb hc
    exact Option.some.inj (hb.symm.trans hc)
  | .symlink x =>
    rw [dumpNode] at hb hc
    exact Option.some.inj (hb.symm.trans hc)
  | .directory es =>
    rw [dumpNode] at hb hc
    obtain ⟨parts, hparts, rfl⟩ := Option.map_eq_some_iff.1 hb
    obtain ⟨parts', hparts', rfl⟩ := Option.map_eq_some_iff.1 hc
    rw [dumpEntries_unique es hparts hparts']

theorem dumpEntries_unique {p q : Path} {parts parts' : List (Name × Bytes)} (es : List (Name × FileTree))
    (hb : dumpEntries p es = some parts) (hc : dumpEntries q es = some parts') : parts = parts' := by
  match es with
  | [] =>
    rw [dumpEntries] at hb hc
    exact Option.some.inj (hb.symm.trans hc)
  | (n, t) :: es =>
    rw [dumpEntries] at hb hc
    split_ifs at hb hc
    obtain ⟨b, hnode, hb⟩ := Option.bind_eq_some_iff.1 hb
    obtain ⟨rest, hrest, rfl⟩ := Option.map_eq_some_iff.1 hb
    obtain ⟨b', hnode', hc⟩ := Option.bind_eq_some_iff.1 hc
    obtain ⟨rest', hrest', rfl⟩ := Option.map_eq_some_iff.1 hc
    rw [dumpNode_unique t hnode hnode', dumpEntries_unique es hrest hrest']
end

/-- **A tree has one dump**, wherever it fits. -/
lemma narDump_elsewhere {t : FileTree} {src p : Path} {b : Bytes} (hb : narDump src t = some b) (hp : p ≠ [])
    (hlen : p.length < pathMax) (hfits : Fits p t) : narDump p t = some b := by
  obtain ⟨-, b', hb', rfl⟩ := narDump_some hb
  obtain ⟨c, hc⟩ := Option.isSome_iff_exists.1 ((dumpNode_isSome p t).2 hfits)
  unfold narDump
  rw [if_neg (fun hor => hor.elim hp fun hge => absurd hlen (not_lt.2 hge)), hc, dumpNode_unique t hb' hc]
  rfl

/-! ### A destination that is there already -/

section Made

variable {fs fs' : Fs} {src dest : Path} {d : Loc} {es : List (Name × FileTree)} {b : Bytes}

/-- **The dump of a directory is unpacked in a directory as at the spot where it was made.** -/
lemma narExtract_made (hb : narDump src (.directory es) = some b) (hmk : mkdir .calm fs dest = .ok fs')
    (hmk' : mkdir .calm fs' dest = .error .EEXIST) : narExtract .calm dest b fs' = narExtract .calm dest b fs := by
  obtain ⟨-, b', hb', rfl⟩ := narDump_some hb
  obtain ⟨ps, -, -, rfl⟩ := dumpNode_directory hb'
  have hdir : extractDirectory .calm dest fs' = extractDirectory .calm dest fs := by
    rw [extractDirectory, extractDirectory, hmk, hmk']
  unfold narExtract
  rw [readLine_line tokMagic (by decide) (by decide)]
  dsimp only
  rw [if_pos rfl, if_pos rfl, List.append_assoc, parseNode, parseNode, readHead_directory]
  dsimp only
  rw [hdir]

/-- An empty directory is one in which nothing was grafted. -/
lemma Destination.graft_nil (hd : Destination fs dest d) : fs.obj = graft fs.obj d (.directory []) := by
  funext l
  by_cases hl : d <+: l
  · obtain ⟨r, rfl⟩ := hl
    rw [graft_below]
    cases r with
    | nil => rw [List.append_nil, hd.isDir, lookup_nil, root]
    | cons n r => rw [hd.empty _ (List.cons_ne_nil n r), lookup_directory_cons, lookupEntries_nil]
  · rw [graft_outside hl]

/-- **An empty directory has a spot for every entry.** -/
lemma Destination.hosts (hd : Destination fs dest d) : Hosts fs dest d := by
  intro done fs₁ n hobj hcwd hnew hn hlen
  have hdir : fs₁.obj d = some .dir := by
    rw [hobj]
    simpa [root] using graft_below fs.obj d [] (.directory done)
  have hsub : ∀ l o, fs.obj l = some o → fs₁.obj l = some o := by
    intro l o ho
    by_cases hl : d <+: l
    · obtain ⟨r, rfl⟩ := hl
      cases r with
      | nil =>
        rw [List.append_nil] at ho ⊢
        rw [hdir, ← hd.isDir, ho]
      | cons m r =>
        rw [hd.empty _ (List.cons_ne_nil m r)] at ho
        cases ho
    · rw [hobj, graft_outside hl, ho]
  refine spot_of_walks (resolve_ok hd.resolves).1 ?_ hdir hn hlen ?_
  · rw [hcwd]
    refine ((Confined.init hd).walks_dest hd).mono hsub (.inr ?_)
    rintro ⟨t, ht⟩
    rw [hdir] at ht
    cases ht
  · intro r
    rw [hobj, graft_below, lookup_directory_cons, lookupEntries_of_notMem hnew]

/-- **The dump of a directory is unpacked in an empty directory** where its paths fit. -/
theorem narExtract_destination (hwf : (FileTree.directory es).Wf) (hb : narDump src (.directory es) = some b)
    (hfits : (FileTree.directory es).Fits dest) (hd : Destination fs dest d) :
    ∃ fs', narExtract .calm dest b fs = (some [], fs') ∧ fs'.obj = graft fs.obj d (.directory es) := by
  obtain ⟨-, b', hb', rfl⟩ := narDump_some hb
  obtain ⟨ps, hps, hperm, rfl⟩ := dumpNode_directory hb'
  have hmk : mkdir .calm fs dest = .error .EEXIST := by
    obtain ⟨hne, hlen, -⟩ := resolve_ok hd.resolves
    obtain ⟨l, hl, hsome⟩ := ((Confined.init hd).walks_dest hd).unfollowed hd.isDir
    unfold mkdir resolve
    rw [if_neg (by simp), if_neg hne, if_neg (by omega), hl.walk_eq]
    exact if_pos hsome
  have hdir : extractDirectory .calm dest fs = (true, fs) := by
    rw [extractDirectory, hmk]
  cases hwf with
  | directory hnd hvalid hwfs =>
    cases hfits with
    | directory hlens hfits =>
      have hin : ∀ q ∈ ps, q.1 ∈ es := fun q hq => hperm.mem_iff.1 (List.mem_map_of_mem hq)
      have hall : ∀ q ∈ ps, ValidName q.1.1 ∧ (join dest q.1.1).length < pathMax ∧
          Fits (join dest q.1.1) q.1.2 ∧ Extracts q.1.2 q.2 := fun q hq =>
        ⟨hvalid _ (hin q hq), hlens _ (hin q hq), hfits _ (hin q hq),
          extracts_of_dumpNode (hwfs _ (hin q hq)) (hps.dumped q hq)⟩
      have hnd' : (([] ++ ps.map Prod.fst).map Prod.fst).Nodup := ((hperm.map Prod.fst).nodup_iff).2 hnd
      let entries : Bytes := ps.flatMap fun q => entryBytes q.1.1 q.2
      have hfuel : (entries ++ (line tokEnd ++ [])).length < (line tokDirectory ++ (entries ++ line tokEnd)).length := by
        have hpos : 0 < (line tokDirectory).length := by decide
        simp only [List.append_nil, List.length_append]
        omega
      obtain ⟨fs', hrest, hobj, -⟩ := parseEntries_entries hd.hosts ps hall [] hnd' hd.graft_nil rfl hfuel
      refine ⟨fs', ?_, ?_⟩
      · unfold narExtract
        rw [readLine_line tokMagic (by decide) (by decide)]
        dsimp only
        rw [if_pos rfl, List.append_assoc (line tokDirectory), parseNode, readHead_directory]
        dsimp only
        rw [hdir]
        dsimp only
        rw [List.append_nil] at hrest
        exact hrest
      · have hgraft := lookup_directory_perm hnd' hperm
        rw [hobj]
        funext l
        unfold graft
        rw [hgraft]

end Made

end Two09.Nar
