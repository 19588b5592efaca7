import Two09.Nar.Extract

/-!
# The NAR round trip

What `nar_dump` emits for a tree, `nar_extract` turns back into the tree: token by token for the
head of a node and for an entry, entry by entry for a directory, and by induction for the tree.
-/

namespace Two09.Nar

open Two09.Lib Two09.Lib.Posix FileTree

/-! ### Heads and entries read back -/

section Tokens

lemma readHead_regular {n : Nat} (hn : n < 2 ^ 64) (x : Bool) (rest : Bytes) :
    readHead (line tokRegular ++ (if x then tokExecutable else []) ++ tokContents ++ emitU64 n ++
      rest) = some (.regular x n, rest) := by
  have hu := readU64_emitU64 hn rest
  have he := expectToken_append tokContents (emitU64 n ++ rest)
  cases x with
  | true =>
    have hx := tryConsume_append tokExecutable (tokContents ++ (emitU64 n ++ rest))
    have hl := readLine_line tokRegular (by decide) (by decide)
      (tokExecutable ++ (tokContents ++ (emitU64 n ++ rest)))
    simp [readHead, hl, hx, he, hu]
  | false =>
    have hx : tryConsume tokExecutable (tokContents ++ (emitU64 n ++ rest)) =
        some (false, tokContents ++ (emitU64 n ++ rest)) := by
      refine tryConsume_other ?_ fun h => ?_
      · have h8 : (emitU64 n).length = 8 := length_beDigits 8 _
        have h9 : tokContents.length = 9 := by decide
        have h11 : tokExecutable.length = 11 := by decide
        simp only [List.length_append]
        omega
      · -- the tokens differ in their first byte
        have hhead := congrArg List.head? h
        have hpos : tokExecutable.length = 11 := by decide
        rw [hpos] at hhead
        have hc : tokContents = 99 :: tokContents.tail := by decide
        rw [hc] at hhead
        exact absurd hhead (by simp [show tokExecutable.head? = some 101 by decide])
    have hl := readLine_line tokRegular (by decide) (by decide)
      (tokContents ++ (emitU64 n ++ rest))
    simp [readHead, hl, hx, he, hu]

lemma readHead_symlink {t : Bytes} (hne : t ≠ []) (hnul : (0 : UInt8) ∉ t)
    (hlen : t.length < pathMax) (rest : Bytes) :
    readHead (line tokSymlink ++ tokTarget ++ emitU64 t.length ++ t ++ rest) =
      some (.symlink t, rest) := by
  have hlt : t.length < 2 ^ 64 := lt_of_lt_of_le hlen (by decide)
  have hu := readU64_emitU64 hlt (t ++ rest)
  have he := expectToken_append tokTarget (emitU64 t.length ++ (t ++ rest))
  have hl := readLine_line tokSymlink (by decide) (by decide)
    (tokTarget ++ (emitU64 t.length ++ (t ++ rest)))
  have hr := readExact_append t rest
  have hne' : tokSymlink ≠ tokRegular := by decide
  simp [readHead, hl, he, hu, hr, hne', hne, hlen, cstr_eq_self hnul]

lemma readHead_directory (rest : Bytes) :
    readHead (line tokDirectory ++ rest) = some (.directory, rest) := by
  have hl := readLine_line tokDirectory (by decide) (by decide) rest
  have h1 : tokDirectory ≠ tokRegular := by decide
  have h2 : tokDirectory ≠ tokSymlink := by decide
  simp [readHead, hl, h1, h2]

lemma readEntry_end (rest : Bytes) : readEntry (line tokEnd ++ rest) = some (none, rest) := by
  have hl := readLine_line tokEnd (by decide) (by decide) rest
  simp [readEntry, hl]

lemma readEntry_entryBytes {n : Name} (hn : ValidName n) (b rest : Bytes) :
    readEntry (entryBytes n b ++ rest) = some (some n, b ++ rest) := by
  have hlen : n.length ≤ 255 := hn.length_le
  have hpos := List.length_pos_of_ne_nil hn.nonempty
  have hu := readU64_emitU64 (n := n.length) (by omega) (n ++ (b ++ rest))
  have he := expectToken_append tokName (emitU64 n.length ++ (n ++ (b ++ rest)))
  have hl := readLine_line tokEntry (by decide) (by decide)
    (tokName ++ (emitU64 n.length ++ (n ++ (b ++ rest))))
  have hr := readExact_append n (b ++ rest)
  have hne : tokEntry ≠ tokEnd := by decide
  have hlt : n.length < 256 := by omega
  have hguard : ¬ (slash ∈ n ∨ n = dotdot ∨ n = dot) := by
    simp [hn.noSlash, hn.notDot, hn.notDotdot]
  simp [entryBytes, readEntry, hl, he, hu, hr, hne, hn.nonempty, hlt, cstr_eq_self hn.noNul,
    hguard]

end Tokens

/-! ### Vacant spots and grafts -/

/-- `p` names the location `d`, in an existing directory, and nothing is there or below. -/
structure Spot (fs : Fs) (p : Path) (d : Loc) : Prop where
  resolves : resolve fs false p (comps p) = .ok d
  noTrailingSlash : comps p = names p
  vacant : ∀ r, fs.obj (d ++ r) = none

/-- `obj` with the tree `t` put at `d`. -/
def graft (obj : Loc → Option Obj) (d : Loc) (t : FileTree) : Loc → Option Obj :=
  fun l => if d <+: l then t.lookup (l.drop d.length) else obj l

section Graft
variable {obj : Loc → Option Obj} {d : Loc}

@[simp] lemma graft_below (obj : Loc → Option Obj) (d r : Loc) (t : FileTree) : graft obj d t (d ++ r) = t.lookup r := by
  simp [graft]

lemma graft_outside {l : Loc} (h : ¬ d <+: l) (t : FileTree) : graft obj d t l = obj l := by
  simp [graft, h]

/-- Putting one object at a vacant spot grafts a tree with nothing below its root. -/
lemma graft_leaf (hv : ∀ r, obj (d ++ r) = none) {t : FileTree}
    (ht : ∀ n ns, t.lookup (n :: ns) = none) :
    (fun l => if l = d then some t.root else obj l) = graft obj d t := by
  funext l
  by_cases hl : d <+: l
  · obtain ⟨r, rfl⟩ := hl
    rw [graft_below]
    cases r with
    | nil => simp
    | cons n ns => rw [if_neg (by simp), hv, ht]
  · have hne : l ≠ d := by
      rintro rfl
      exact hl List.prefix_rfl
    rw [graft_outside hl, if_neg hne]

/-- Grafting an entry under a grafted directory grafts the larger directory. -/
lemma graft_entry {es : List (Name × FileTree)} {n : Name} (hn : n ∉ es.map Prod.fst)
    (t : FileTree) :
    graft (graft obj d (directory es)) (d ++ [n]) t = graft obj d (directory (es ++ [(n, t)])) := by
  funext l
  by_cases hl : d <+: l
  · obtain ⟨r, rfl⟩ := hl
    rw [graft_below]
    cases r with
    | nil =>
      have hout : ¬ d ++ [n] <+: d ++ [] := fun h => by simpa using h.length_le
      rw [graft_outside hout, graft_below]
      simp [root]
    | cons m ns =>
      rw [lookup_directory_cons, lookupEntries_append]
      by_cases hm : m = n
      · subst hm
        rw [if_neg hn, lookupEntries_cons, if_pos rfl]
        simpa using graft_below (graft obj d (directory es)) (d ++ [m]) ns t
      · have hout : ¬ d ++ [n] <+: d ++ m :: ns := by
          rw [List.prefix_append_right_inj, List.cons_prefix_cons]
          exact fun h => hm h.1.symm
        rw [graft_outside hout, graft_below, lookup_directory_cons]
        by_cases hmem : m ∈ es.map Prod.fst
        · rw [if_pos hmem]
        · rw [if_neg hmem, lookupEntries_of_notMem hmem, lookupEntries_cons,
            if_neg (Ne.symm hm), lookupEntries_nil]
  · have hout : ¬ d ++ [n] <+: l := fun h => hl ((List.prefix_append d [n]).trans h)
    rw [graft_outside hout, graft_outside hl, graft_outside hl]

end Graft

/-! ### Resolution at a spot -/

section Spots
variable {fs fs' : Fs} {p : Path} {d : Loc}

lemma Spot.walks (h : Spot fs p d) {f : Bool} :
    Walks fs.obj f maxSymlinks (base fs.cwd p) (comps p) d := by
  have hw := (resolve_ok h.resolves).2.2
  cases f with
  | false => exact hw
  | true =>
    refine hw.followed ?_
    rintro ⟨t, ht⟩
    have hv := h.vacant []
    rw [List.append_nil, ht] at hv
    cases hv

/-- A spot keeps its location when objects are added, and can be read through once it is taken
by something that is no link. -/
lemma Spot.resolve_eq (h : Spot fs p d) (hsub : ∀ l o, fs.obj l = some o → fs'.obj l = some o)
    (hcwd : fs'.cwd = fs.cwd) {f : Bool} (hd : f = false ∨ ¬ IsLink fs'.obj d) :
    resolve fs' f p (comps p) = .ok d := by
  obtain ⟨hne, hlen, -⟩ := resolve_ok h.resolves
  unfold resolve
  rw [if_neg hne, if_neg (by omega), hcwd]
  exact (h.walks.mono hsub hd).walk_eq

/-- The spot of an entry of a directory that is reached. -/
lemma spot_of_walks (hne : p ≠ []) (hwalk : Walks fs.obj true maxSymlinks (base fs.cwd p) (names p) d)
    (hdir : fs.obj d = some .dir) {n : Name} (hn : ValidName n) (hlen : (join p n).length < pathMax)
    (hv : ∀ r, fs.obj (d ++ n :: r) = none) : Spot fs (join p n) (d ++ [n]) := by
  have hcomps : comps (join p n) = names p ++ [n] := comps_join p hn.noSlash hn.nonempty
  obtain ⟨m, -, he⟩ := hwalk.append (f := false) (List.cons_ne_nil n []) hdir
  refine ⟨?_, ?_, fun r => by simpa using hv r⟩
  · have hlast : walk fs.obj false m d [n] = .ok (d ++ [n]) :=
      (Walks.missing hdir ⟨hn.notDot, hn.notDotdot, hn.length_le⟩ (hv [])).walk_eq
    unfold resolve
    rw [if_neg (by simp [join]), if_neg (by omega), hcomps, base_join _ _ hne, he, hlast]
  · rw [hcomps, names_join, names_name hn.noSlash hn.nonempty]

/-- **The spot of an entry** in a directory that was made at a spot. -/
lemma Spot.child (h : Spot fs p d) (hsub : ∀ l o, fs.obj l = some o → fs'.obj l = some o)
    (hcwd : fs'.cwd = fs.cwd) (hdir : fs'.obj d = some .dir) {n : Name} (hn : ValidName n)
    (hlen : (join p n).length < pathMax) (hv : ∀ r, fs'.obj (d ++ n :: r) = none) :
    Spot fs' (join p n) (d ++ [n]) := by
  have hnolink : ¬ IsLink fs'.obj d := by
    rintro ⟨t, ht⟩
    rw [hdir] at ht
    cases ht
  refine spot_of_walks (resolve_ok h.resolves).1 ?_ hdir hn hlen hv
  rw [← h.noTrailingSlash, hcwd]
  exact (h.walks (f := true)).mono hsub (.inr hnolink)

/-- Wherever a directory with some of the entries stands at `d`, there is a spot for the next one. -/
def Hosts (fs : Fs) (p : Path) (d : Loc) : Prop :=
  ∀ {done : List (Name × FileTree)} {fs₁ : Fs} {n : Name}, fs₁.obj = graft fs.obj d (.directory done) →
    fs₁.cwd = fs.cwd → n ∉ done.map Prod.fst → ValidName n → (join p n).length < pathMax →
      Spot fs₁ (join p n) (d ++ [n])

lemma Spot.hosts (h : Spot fs p d) : Hosts fs p d := by
  intro done fs₁ n hobj hcwd hnew hn hlen
  have hsub : ∀ l o, fs.obj l = some o → fs₁.obj l = some o := by
    intro l o ho
    have hout : ¬ d <+: l := by
      rintro ⟨r, rfl⟩
      rw [h.vacant r] at ho
      cases ho
    rw [hobj, graft_outside hout, ho]
  have hdir : fs₁.obj d = some .dir := by
    rw [hobj]
    simpa [root] using graft_below fs.obj d [] (.directory done)
  have hvac : ∀ r, fs₁.obj (d ++ n :: r) = none := by
    intro r
    rw [hobj, graft_below, lookup_directory_cons, lookupEntries_of_notMem hnew]
  exact h.child hsub hcwd hdir hn hlen hvac

end Spots

/-! ### The round trip -/

/-- `b` is a stream that makes the tree `t` wherever it is extracted to a vacant spot, and leaves
what follows it in the stream. -/
def Extracts (t : FileTree) (b : Bytes) : Prop :=
  ∀ {k p d fs} (rest : Bytes), Spot fs p d → Fits p t → (b ++ rest).length < k →
    ∃ fs', parseNode .calm k p (b ++ rest) fs = (some rest, fs') ∧
      fs'.obj = graft fs.obj d t ∧ fs'.cwd = fs.cwd

section Nodes
variable {fs : Fs} {p : Path} {d : Loc}

lemma extractRegular_spot (h : Spot fs p d) (x : Bool) (c rest : Bytes) :
    ∃ fs', extractRegular .calm p fs x c.length (c ++ rest) = (true, fs') ∧
      fs'.obj = graft fs.obj d (.regular c x) ∧ fs'.cwd = fs.cwd := by
  have hnone : fs.obj d = none := by simpa using h.vacant []
  have hleaf := graft_leaf (t := .regular c x) h.vacant (by simp)
  have hopen : openTrunc .calm fs p = .ok (d, fs.put d (.reg [] false)) := by
    have hres : resolve fs true p (comps p) = .ok d :=
      h.resolve_eq (fun _ _ ho => ho) rfl (.inr (by rintro ⟨t, ht⟩; simp [hnone] at ht))
    simp [openTrunc, hres, hnone]
  have happ : append (fs.put d (.reg [] false)) d c =
      (fs.put d (.reg [] false)).put d (.reg c false) := by
    simp [append]
  let fs₂ := (fs.put d (.reg [] false)).put d (.reg c false)
  have hobj₂ : ∀ l, fs₂.obj l = if l = d then some (.reg c false) else fs.obj l := by
    intro l
    by_cases hl : l = d <;> simp [fs₂, hl]
  have hshort : ¬ (c ++ rest).length < c.length := by simp
  cases x with
  | false =>
    refine ⟨fs₂, ?_, ?_, rfl⟩
    · simp [extractRegular, hopen, happ, fs₂]
    · rw [← hleaf]
      exact funext hobj₂
  | true =>
    have hsub : ∀ l o, fs.obj l = some o → fs₂.obj l = some o := by
      intro l o ho
      have hne : l ≠ d := by
        rintro rfl
        rw [hnone] at ho
        cases ho
      rw [hobj₂, if_neg hne, ho]
    have hobjd : fs₂.obj d = some (.reg c false) := by simp [hobj₂]
    have hres : resolve fs₂ true p (comps p) = .ok d :=
      h.resolve_eq hsub rfl (.inr (by rintro ⟨t, ht⟩; simp [hobjd] at ht))
    have hchmod : chmodExec .calm fs₂ p = .ok (fs₂.put d (.reg c true)) := by
      simp [chmodExec, hres, hobjd]
    refine ⟨fs₂.put d (.reg c true), ?_, ?_, rfl⟩
    · simp only [fs₂] at hchmod
      simp [extractRegular, hopen, happ, fs₂, hchmod]
    · rw [← hleaf]
      funext l
      by_cases hl : l = d <;> simp [root, hl, hobj₂]

lemma extractSymlink_spot (h : Spot fs p d) {t : Bytes} (ht : t ≠ []) :
    ∃ fs', extractSymlink .calm p fs t = (true, fs') ∧
      fs'.obj = graft fs.obj d (.symlink t) ∧ fs'.cwd = fs.cwd := by
  have hnone : fs.obj d = none := by simpa using h.vacant []
  have hres : resolve fs false p (comps p) = .ok d := h.resolves
  have hkeep : discard .calm p fs = fs := by
    simp [discard, orKeep, unlink, hres, hnone]
  have hlink : Posix.symlink .calm fs t p = .ok (fs.put d (.lnk t)) := by
    simp [Posix.symlink, ht, hres, hnone]
  refine ⟨fs.put d (.lnk t), ?_, ?_, rfl⟩
  · simp [extractSymlink, hkeep, hlink]
  · exact graft_leaf (t := .symlink t) h.vacant (by simp)

lemma extractDirectory_spot (h : Spot fs p d) :
    ∃ fs', extractDirectory .calm p fs = (true, fs') ∧
      fs'.obj = graft fs.obj d (.directory []) ∧ fs'.cwd = fs.cwd := by
  have hnone : fs.obj d = none := by simpa using h.vacant []
  have hres : resolve fs false p (names p) = .ok d := h.noTrailingSlash ▸ h.resolves
  have hmk : mkdir .calm fs p = .ok (fs.put d .dir) := by
    simp [mkdir, hres, hnone]
  refine ⟨fs.put d .dir, ?_, ?_, rfl⟩
  · simp [extractDirectory, hmk]
  · exact graft_leaf (t := .directory []) h.vacant (by simp)

/-- **The entry loop** adds the entries one by one to the directory it is in. -/
lemma parseEntries_entries (h : Hosts fs p d) (ps : List ((Name × FileTree) × Bytes))
    (hps : ∀ q ∈ ps, ValidName q.1.1 ∧ (join p q.1.1).length < pathMax ∧
      Fits (join p q.1.1) q.1.2 ∧ Extracts q.1.2 q.2) :
    ∀ {k : Nat} {done : List (Name × FileTree)} {fs₁ : Fs} (rest : Bytes),
      ((done ++ ps.map Prod.fst).map Prod.fst).Nodup →
      fs₁.obj = graft fs.obj d (.directory done) → fs₁.cwd = fs.cwd →
      ((ps.flatMap fun q => entryBytes q.1.1 q.2) ++ (line tokEnd ++ rest)).length < k →
      ∃ fs₂, parseEntries .calm k p
          ((ps.flatMap fun q => entryBytes q.1.1 q.2) ++ (line tokEnd ++ rest)) fs₁ =
          (some rest, fs₂) ∧
        fs₂.obj = graft fs.obj d (.directory (done ++ ps.map Prod.fst)) ∧ fs₂.cwd = fs.cwd := by
  induction ps with
  | nil =>
    intro k done fs₁ rest _ hobj hcwd hk
    obtain ⟨k, rfl⟩ : ∃ j, k = j + 1 := ⟨k - 1, by omega⟩
    refine ⟨fs₁, ?_, by simpa using hobj, hcwd⟩
    simp [parseEntries, readEntry_end]
  | cons q ps ih =>
    intro k done fs₁ rest hnd hobj hcwd hk
    obtain ⟨⟨n, t⟩, b⟩ := q
    obtain ⟨hn, hlen, hfit, hex⟩ := hps _ List.mem_cons_self
    obtain ⟨k, rfl⟩ : ∃ j, k = j + 1 := ⟨k - 1, by omega⟩
    let tail : Bytes := (ps.flatMap fun q => entryBytes q.1.1 q.2) ++ (line tokEnd ++ rest)
    have hread := readEntry_entryBytes hn b tail
    have hbytes : b.length + tail.length < k := by
      have hlt := lt_length_entryBytes n b
      simp only [List.flatMap_cons, List.length_append] at hk
      simp only [tail, List.length_append]
      omega
    have hnew : n ∉ done.map Prod.fst := by
      have := List.nodup_append'.1 (by simpa using hnd)
      exact fun hmem => (List.disjoint_left.1 this.2.2 hmem) (by simp)
    have hspot := h hobj hcwd hnew hn hlen
    obtain ⟨fs₂, hparse, hobj₂, hcwd₂⟩ := hex tail hspot hfit (k := k) (by simpa using hbytes)
    have hobj₂' : fs₂.obj = graft fs.obj d (.directory (done ++ [(n, t)])) := by
      rw [hobj₂, hobj, graft_entry hnew]
    obtain ⟨fs₃, hrest, hobj₃, hcwd₃⟩ := ih (fun q hq => hps q (List.mem_cons_of_mem _ hq))
      (k := k) rest (by simpa using hnd) hobj₂' (hcwd₂.trans hcwd) (by simp [tail] at hbytes ⊢; omega)
    refine ⟨fs₃, ?_, by simpa using hobj₃, hcwd₃⟩
    have hinput : (((n, t), b) :: ps).flatMap (fun q => entryBytes q.1.1 q.2) ++
        (line tokEnd ++ rest) = entryBytes n b ++ tail := by
      simp [tail]
    rw [hinput, parseEntries]
    simp only [hread, if_neg (Nat.not_le.2 hlen), hparse]
    exact hrest

/-- **What `dump_node` emits for a tree extracts to the tree.** -/
lemma extracts_of_dumpNode {t : FileTree} (hwf : t.Wf) :
    ∀ {src : Path} {b : Bytes}, dumpNode src t = some b → Extracts t b := by
  induction hwf with
  | @regular c x hlen =>
    intro src b hb k p d fs rest h _ hk
    rw [dumpNode, Option.some.injEq] at hb
    subst hb
    obtain ⟨k, rfl⟩ : ∃ j, k = j + 1 := ⟨k - 1, by omega⟩
    obtain ⟨fs', hreg, hobj, hcwd⟩ := extractRegular_spot h x c rest
    refine ⟨fs', ?_, hobj, hcwd⟩
    have hread := readHead_regular (n := c.length) (by omega) x (c ++ rest)
    rw [List.append_assoc _ c rest, parseNode]
    simp only [hread, hreg, List.drop_left]
  | @symlink t hne hnul hlen =>
    intro src b hb k p d fs rest h _ hk
    have htake : t.take pathMax = t := List.take_of_length_le (by omega)
    rw [dumpNode, Option.some.injEq, htake] at hb
    subst hb
    obtain ⟨k, rfl⟩ : ∃ j, k = j + 1 := ⟨k - 1, by omega⟩
    obtain ⟨fs', hsym, hobj, hcwd⟩ := extractSymlink_spot h hne
    refine ⟨fs', ?_, hobj, hcwd⟩
    rw [parseNode]
    simp only [readHead_symlink hne hnul hlen, hsym]
  | @directory es hnd hvalid hwf ih =>
    intro src b hb k p d fs rest h hfit hk
    obtain ⟨ps, hps, hperm, rfl⟩ := dumpNode_directory hb
    obtain ⟨k, rfl⟩ : ∃ j, k = j + 1 := ⟨k - 1, by omega⟩
    obtain ⟨fs₁, hmk, hobj₁, hcwd₁⟩ := extractDirectory_spot h
    cases hfit with
    | directory hlens hfits =>
      have hin : ∀ q ∈ ps, q.1 ∈ es := fun q hq =>
        hperm.mem_iff.1 (List.mem_map_of_mem hq)
      have hall : ∀ q ∈ ps, ValidName q.1.1 ∧ (join p q.1.1).length < pathMax ∧
          Fits (join p q.1.1) q.1.2 ∧ Extracts q.1.2 q.2 := fun q hq =>
        ⟨hvalid _ (hin q hq), hlens _ (hin q hq), hfits _ (hin q hq),
          ih _ (hin q hq) (hps.dumped q hq)⟩
      have hnd' : (([] ++ ps.map Prod.fst).map Prod.fst).Nodup := by
        simpa using ((hperm.map Prod.fst).nodup_iff).2 hnd
      obtain ⟨fs₂, hrest, hobj₂, hcwd₂⟩ := parseEntries_entries h.hosts ps hall (k := k) rest hnd' hobj₁
        hcwd₁ (by simp [line] at hk ⊢; omega)
      refine ⟨fs₂, ?_, ?_, hcwd₂⟩
      · have hread := readHead_directory
          ((ps.flatMap fun q => entryBytes q.1.1 q.2) ++ (line tokEnd ++ rest))
        rw [parseNode]
        simp only [List.append_assoc, hread, hmk]
        exact hrest
      · have hgraft := lookup_directory_perm (by simpa using hnd') hperm
        rw [hobj₂]
        funext l
        simp only [List.nil_append, graft, hgraft]

end Nodes

section Archive
variable {fs : Fs} {src dest : Path} {d : Loc} {t t' : FileTree} {b : Bytes}

lemma narDump_some (h : narDump src t = some b) :
    Fits src t ∧ ∃ b', dumpNode src t = some b' ∧ b = line tokMagic ++ b' := by
  unfold narDump at h
  split_ifs at h with hpath
  obtain ⟨b', hb', rfl⟩ := Option.map_eq_some_iff.1 h
  exact ⟨(dumpNode_isSome src t).1 (by simp [hb']), b', hb', rfl⟩

/-- A dump unpacks at every vacant spot where its paths fit. -/
lemma narExtract_narDump (hwf : t.Wf) (hb : narDump src t = some b) (hfit : Fits dest t)
    (h : Spot fs dest d) :
    ∃ fs', narExtract .calm dest b fs = (some [], fs') ∧ fs'.obj = graft fs.obj d t ∧ fs'.cwd = fs.cwd := by
  obtain ⟨-, b', hb', rfl⟩ := narDump_some hb
  obtain ⟨fs', hparse, hobj⟩ := extracts_of_dumpNode hwf hb' [] h hfit
    (k := b'.length + 1) (by simp)
  refine ⟨fs', ?_, hobj⟩
  rw [List.append_nil] at hparse
  unfold narExtract
  rw [readLine_line tokMagic (by decide) (by decide) b']
  simpa using hparse

/-- A file system that holds nothing but its root. -/
def emptyFs : Fs where
  obj l := if l = [] then some .dir else none
  cwd := []
  touched := []

lemma spot_emptyFs : Spot emptyFs (ascii "x") [ascii "x"] where
  resolves := by decide
  noTrailingSlash := by decide
  vacant r := by simp [emptyFs]

/-- **`nar_dump` is injective** on the trees a file system can hold. -/
lemma narDump_injective (hwf : t.Wf) (hwf' : t'.Wf) {src' : Path} (hb : narDump src t = some b)
    (hb' : narDump src' t' = some b) : t.lookup = t'.lookup := by
  have fits : ∀ {p : Path} {u : FileTree}, narDump p u = some b → Fits (ascii "x") u := by
    intro p u hu
    refine (narDump_some hu).1.shorter ?_
    unfold narDump at hu
    split_ifs at hu with hp
    exact List.length_pos_of_ne_nil fun h => hp (.inl h)
  -- both trees are what the one stream makes of an empty file system
  obtain ⟨fs, h, hobj, -⟩ := narExtract_narDump hwf hb (fits hb) spot_emptyFs
  obtain ⟨fs', h', hobj', -⟩ := narExtract_narDump hwf' hb' (fits hb') spot_emptyFs
  have heq : fs = fs' := (Prod.mk.inj (h.symm.trans h')).2
  funext r
  have hl := graft_below emptyFs.obj [ascii "x"] r t
  have hr := graft_below emptyFs.obj [ascii "x"] r t'
  rw [← hl, ← hr, ← hobj, ← hobj', heq]

/-- **The NAR round trip.** A tree that a file system can hold, whose paths fit at `src` and at
`dest`, is dumped to a stream that unpacks at a fresh `dest` to the same tree, up to its last byte
and without touching anything else; and no other tree is dumped to that stream. -/
theorem nar_roundTrip (hwf : t.Wf) (hsrc : src ≠ []) (hlen : src.length < pathMax)
    (hfit : Fits src t) (hfit' : Fits dest t) (hfresh : Spot fs dest d) :
    ∃ b, narDump src t = some b ∧
      (∃ fs', narExtract .calm dest b fs = (some [], fs') ∧
        (∀ r, fs'.obj (d ++ r) = t.lookup r) ∧ ∀ l, ¬ d <+: l → fs'.obj l = fs.obj l) ∧
      ∀ src' t', FileTree.Wf t' → narDump src' t' = some b → t'.lookup = t.lookup := by
  obtain ⟨b', hb'⟩ := Option.isSome_iff_exists.1 ((dumpNode_isSome src t).2 hfit)
  have hb : narDump src t = some (line tokMagic ++ b') := by
    rw [narDump, if_neg (by simp [hsrc, hlen]), hb']
    rfl
  obtain ⟨fs', hext, hobj, -⟩ := narExtract_narDump hwf hb hfit' hfresh
  refine ⟨_, hb, ⟨fs', hext, fun r => ?_, fun l hl => ?_⟩, fun src' t' hwf' hdump => ?_⟩
  · rw [hobj, graft_below]
  · rw [hobj, graft_outside hl]
  · exact narDump_injective hwf' hwf hdump hb

/-- A directory with an executable file whose contents spell a token of the format, and a link. -/
def sampleTree : FileTree :=
  .directory [(ascii "b", .symlink (ascii "a")), (ascii "a", .regular (ascii "end\n") true)]

lemma sampleTree_wf : sampleTree.Wf := by
  refine .directory (by decide) ?_ ?_
  · intro e he
    have hcases : e.1 = ascii "b" ∨ e.1 = ascii "a" := by
      rcases List.mem_cons.1 he with rfl | he
      · exact .inl rfl
      · exact .inr (by rw [List.mem_singleton.1 he])
    rcases hcases with h | h <;> rw [h] <;> constructor <;> decide
  · intro e he
    rcases List.mem_cons.1 he with rfl | he
    · exact .symlink (by decide) (by decide) (by decide)
    · rw [List.mem_singleton.1 he]
      exact .regular (by decide)

lemma sampleTree_fits : Fits (ascii "x") sampleTree :=
  (dumpNode_isSome _ _).1 (by decide)

theorem nar_roundTrip_sample :
    ∃ b, narDump (ascii "x") sampleTree = some b ∧
      (∃ fs', narExtract .calm (ascii "x") b emptyFs = (some [], fs') ∧
        (∀ r, fs'.obj ([ascii "x"] ++ r) = sampleTree.lookup r) ∧
        ∀ l, ¬ [ascii "x"] <+: l → fs'.obj l = emptyFs.obj l) ∧
      ∀ src' t', FileTree.Wf t' → narDump src' t' = some b → t'.lookup = sampleTree.lookup :=
  nar_roundTrip sampleTree_wf (by decide) (by decide) sampleTree_fits sampleTree_fits spot_emptyFs

end Archive

end Two09.Nar
