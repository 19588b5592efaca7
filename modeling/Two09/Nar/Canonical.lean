import Two09.Nar.Room

/-!
# The dump is canonical

Trees that hold the same objects at the same paths have one dump, in whatever order their directories are listed.
-/

namespace Two09.Nar

open Two09.Lib Two09.Lib.Posix FileTree

section
variable {src src' p p' : Path} {t t' : FileTree} {es es' : List (Name × FileTree)} {b b' : Bytes} {n : Name}

/-- Sorting forgets the order where no two names are the same. -/
lemma alphasort_eq {α : Type} {ps ps' : List (Name × α)} (hnd : (ps.map Prod.fst).Nodup) (h : ps.Perm ps') :
    alphasort ps = alphasort ps' := by
  have hperm : (alphasort ps).Perm ps := List.perm_insertionSort _ ps
  have hperm' : (alphasort ps').Perm ps' := List.perm_insertionSort _ ps'
  refine List.Perm.eq_of_pairwise (fun a a' ha ha' hle hle' => ?_) (List.pairwise_insertionSort _ _)
    (List.pairwise_insertionSort _ _) (hperm.trans (h.trans hperm'.symm))
  have ha'' : a' ∈ ps := h.mem_iff.2 (hperm'.mem_iff.1 ha')
  have hname : a.1 = a'.1 := List.le_antisymm hle hle'
  exact List.inj_on_of_nodup_map hnd (hperm.mem_iff.1 ha) ha'' hname

lemma isSome_lookupEntries (es : List (Name × FileTree)) (n : Name) :
    (lookupEntries es n []).isSome = true ↔ n ∈ es.map Prod.fst := by
  induction es with
  | nil => simp
  | cons e es ih =>
    obtain ⟨m, t⟩ := e
    rw [lookupEntries_cons, List.map_cons, List.mem_cons]
    split_ifs with hm
    · simp [hm]
    · rw [ih]
      exact ⟨.inr, fun h => h.resolve_left fun heq => hm heq.symm⟩

/-- The tree of an entry is found in the other directory. -/
lemma entry_of_lookup (hnd : (es.map Prod.fst).Nodup) (hnd' : (es'.map Prod.fst).Nodup)
    (h : (directory es).lookup = (directory es').lookup) (hmem : (n, t) ∈ es) :
    ∃ t', (n, t') ∈ es' ∧ t.lookup = t'.lookup := by
  have hat : ∀ l, lookupEntries es n l = lookupEntries es' n l := by
    intro l
    rw [← lookup_directory_cons, ← lookup_directory_cons, h]
  have hname : n ∈ es'.map Prod.fst := by
    rw [← isSome_lookupEntries, ← hat, isSome_lookupEntries]
    exact List.mem_map_of_mem hmem
  obtain ⟨⟨m, t'⟩, hmem', rfl⟩ := List.mem_map.1 hname
  refine ⟨t', hmem', funext fun l => ?_⟩
  rw [← lookupEntries_of_mem hnd hmem, hat, lookupEntries_of_mem hnd' hmem']

/-- What fits at a path fits there in whatever order it is listed. -/
lemma fits_congr (hwf : t.Wf) (hwf' : t'.Wf) (h : t.lookup = t'.lookup) (hfits : Fits p t) : Fits p t' := by
  induction hwf generalizing t' p with
  | regular _ | symlink _ _ _ =>
    have hroot := congrFun h []
    rw [lookup_nil, lookup_nil] at hroot
    cases t' with
    | regular c x => exact .regular
    | symlink s => exact .symlink
    | directory es => cases hroot
  | @directory es hnd hnames hwfs ih =>
    have hroot := congrFun h []
    rw [lookup_nil, lookup_nil] at hroot
    cases hwf' with
    | @directory es' hnd' hnames' hwfs' =>
      cases hfits with
      | directory hlens hfits =>
        refine .directory (fun e he => ?_) fun e he => ?_
        · obtain ⟨t, hmem, -⟩ := entry_of_lookup hnd' hnd h.symm he
          exact hlens (e.1, t) hmem
        · obtain ⟨t, hmem, hsame⟩ := entry_of_lookup hnd' hnd h.symm he
          exact ih (e.1, t) hmem (hwfs' e he) hsame.symm (hfits (e.1, t) hmem)
    | _ => cases hroot

/-- The parts that a directory is dumped in. -/
lemma mem_parts {parts : List (Name × Bytes)} (h : dumpEntries src es = some parts) {x : Name × Bytes} :
    x ∈ parts ↔ ∃ t b, (x.1, t) ∈ es ∧ dumpNode (join src x.1) t = some b ∧ x.2 = entryBytes x.1 b := by
  obtain ⟨ps, hps, rfl⟩ := dumpEntries_some h
  rw [List.mem_map]
  constructor
  · rintro ⟨q, hq, rfl⟩
    exact ⟨q.1.2, q.2, hps.entries ▸ List.mem_map_of_mem hq, hps.dumped q hq, rfl⟩
  · rintro ⟨t, b, hmem, hb, hx⟩
    rw [← hps.entries] at hmem
    obtain ⟨q, hq, hentry⟩ := List.mem_map.1 hmem
    have hdumped := hps.dumped q hq
    rw [hentry, hb] at hdumped
    refine ⟨q, hq, Prod.ext ?_ ?_⟩
    · rw [hentry]
    · rw [hx, hentry, Option.some.inj hdumped]

lemma names_parts {parts : List (Name × Bytes)} (h : dumpEntries src es = some parts) :
    parts.map Prod.fst = es.map Prod.fst := by
  obtain ⟨ps, hps, rfl⟩ := dumpEntries_some h
  rw [← hps.entries, List.map_map, List.map_map]
  rfl

/-- **Nodes that hold the same have one stream.** -/
theorem dumpNode_congr (hwf : t.Wf) (hwf' : t'.Wf) (h : t.lookup = t'.lookup) (hb : dumpNode src t = some b)
    (hb' : dumpNode src' t' = some b') : b = b' := by
  induction hwf generalizing t' src src' b b' with
  | @regular c x _ =>
    have hroot := congrFun h []
    rw [lookup_nil, lookup_nil] at hroot
    cases t' with
    | regular c' x' =>
      obtain ⟨rfl, rfl⟩ := Obj.reg.inj (Option.some.inj hroot)
      rw [dumpNode] at hb hb'
      exact Option.some.inj (hb.symm.trans hb')
    | _ => cases hroot
  | @symlink s _ _ _ =>
    have hroot := congrFun h []
    rw [lookup_nil, lookup_nil] at hroot
    cases t' with
    | symlink s' =>
      obtain rfl := Obj.lnk.inj (Option.some.inj hroot)
      rw [dumpNode] at hb hb'
      exact Option.some.inj (hb.symm.trans hb')
    | _ => cases hroot
  | @directory es hnd hnames hwfs ih =>
    have hroot := congrFun h []
    rw [lookup_nil, lookup_nil] at hroot
    cases hwf' with
    | @directory es' hnd' hnames' hwfs' =>
      rw [dumpNode] at hb hb'
      obtain ⟨parts, hparts, rfl⟩ := Option.map_eq_some_iff.1 hb
      obtain ⟨parts', hparts', rfl⟩ := Option.map_eq_some_iff.1 hb'
      have hkeys : (parts.map Prod.fst).Nodup := (names_parts hparts).symm ▸ hnd
      have hkeys' : (parts'.map Prod.fst).Nodup := (names_parts hparts').symm ▸ hnd'
      -- the entries are the same, each dumped to the same bytes
      have hmem : ∀ x, x ∈ parts ↔ x ∈ parts' := by
        intro x
        have hsome : ∀ {q : Path} {fs : List (Name × FileTree)} {ps : List (Name × Bytes)} {u : FileTree},
            dumpEntries q fs = some ps → (x.1, u) ∈ fs → ∃ c, dumpNode (join q x.1) u = some c := by
          intro q fs ps u hps hu
          have hfits := (dumpEntries_isSome q fs).1 (by rw [hps]; rfl) _ hu
          exact Option.isSome_iff_exists.1 ((dumpNode_isSome _ _).2 hfits.2)
        rw [mem_parts hparts, mem_parts hparts']
        constructor
        · rintro ⟨u, c, hu, hc, hx⟩
          obtain ⟨u', hu', hlookup⟩ := entry_of_lookup hnd hnd' h hu
          obtain ⟨c', hc'⟩ := hsome hparts' hu'
          obtain rfl := ih _ hu (hwfs' _ hu') hlookup hc hc'
          exact ⟨u', c, hu', hc', hx⟩
        · rintro ⟨u', c', hu', hc', hx⟩
          obtain ⟨u, hu, hlookup⟩ := entry_of_lookup hnd' hnd h.symm hu'
          obtain ⟨c, hc⟩ := hsome hparts hu
          obtain rfl := ih _ hu (hwfs' _ hu') hlookup.symm hc hc'
          exact ⟨u, c, hu, hc, hx⟩
      have hperm : parts.Perm parts' :=
        (List.perm_ext_iff_of_nodup hkeys.of_map hkeys'.of_map).2 hmem
      rw [alphasort_eq hkeys hperm]
    | _ => cases hroot

/-- **The dump tells what a tree holds**, and nothing else. -/
theorem narDump_eq_iff (hwf : t.Wf) (hwf' : t'.Wf) (hb : narDump src t = some b) (hb' : narDump src' t' = some b') :
    b = b' ↔ t.lookup = t'.lookup := by
  constructor
  · rintro rfl
    exact narDump_injective hwf hwf' hb hb'
  · intro h
    obtain ⟨-, c, hc, rfl⟩ := narDump_some hb
    obtain ⟨-, c', hc', rfl⟩ := narDump_some hb'
    rw [dumpNode_congr hwf hwf' h hc hc']

end

end Two09.Nar
