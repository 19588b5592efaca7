import Two09.Nar.Extract

/-!
# Where `nar_extract` writes

The guard of `parse_node` looks at one name at a time, and the calls it protects follow links. So
an extraction stays inside its destination as long as the stream never goes through a link that
the stream itself has made, and it can leave it otherwise.
-/

namespace Two09.Nar

open Two09.Lib Two09.Lib.Posix

/-! ### Paths of events -/

/-- The location of a node relative to the destination: empty names lead nowhere. -/
def rel (ns : List Name) : Loc := ns.filter (· ≠ [])

/-- Whether the path of a node ends in a name, rather than being the destination or ending in a
slash. -/
def Named (ns : List Name) : Prop := ns ≠ [] ∧ ns.getLast? ≠ some []

instance (ns : List Name) : Decidable (Named ns) :=
  inferInstanceAs (Decidable (_ ∧ _))

namespace Event

def names : Event → List Name
  | .regular ns _ _ _ => ns
  | .symlink ns _ => ns
  | .directory ns => ns

/-- Where the event makes a link, relative to the destination. -/
def link? : Event → Option Loc
  | .symlink ns _ => if Named ns then some (rel ns) else none
  | _ => none

def isSymlink : Event → Bool
  | .symlink _ _ => true
  | _ => false

/-- The path of the event goes through the location `a`: as a proper prefix or, for the nodes that
are made by calls that follow links, as the last component. -/
def Through (e : Event) (a : Loc) : Prop :=
  a <+: rel e.names ∧ (a = rel e.names → e.isSymlink = false)

instance (e : Event) (a : Loc) : Decidable (e.Through a) :=
  inferInstanceAs (Decidable (_ ∧ _))

end Event

/-- No event goes through a link that an earlier one has made. -/
def NoLinkFollowed (es : List Event) : Prop :=
  es.Pairwise fun e e' => ∀ a ∈ e.link?, ¬ e'.Through a

instance (es : List Event) : Decidable (NoLinkFollowed es) :=
  inferInstanceAs (Decidable (List.Pairwise _ _))

section Paths
variable {dest : Path} {ns : List Name}

lemma names_pathOf (dest : Path) (hns : ∀ n ∈ ns, slash ∉ n) : names (pathOf dest ns) = names dest ++ rel ns := by
  induction ns using List.reverseRecOn with
  | nil => simp [rel]
  | append_singleton ns n ih =>
    have hn : slash ∉ n := hns n (by simp)
    have ih := ih fun m hm => hns m (by simp [hm])
    rw [pathOf_concat, names_join, ih]
    by_cases hnil : n = []
    · simp [hnil, rel]
    · simp [names_name hn hnil, rel, hnil]

lemma comps_pathOf (hns : ∀ n ∈ ns, slash ∉ n) (hne : ns ≠ []) :
    comps (pathOf dest ns) =
      if Named ns then names dest ++ rel ns else names dest ++ rel ns ++ [dot] := by
  induction ns using List.reverseRecOn with
  | nil => exact absurd rfl hne
  | append_singleton ns n _ =>
    have hn : slash ∉ n := hns n (by simp)
    have hprev := names_pathOf dest fun m hm => hns m (List.mem_append_left [n] hm)
    rw [pathOf_concat]
    by_cases hnil : n = []
    · subst hnil
      simp [comps_join_nil, hprev, Named, rel]
    · simp [comps_join _ hn hnil, hprev, Named, rel, hnil]

lemma rel_ne_nil (h : Named ns) : rel ns ≠ [] := by
  obtain ⟨hne, hlast⟩ := h
  intro hrel
  obtain ⟨n, hn⟩ := Option.ne_none_iff_exists'.1 (mt List.getLast?_eq_none_iff.1 hne)
  have hmem := List.mem_of_getLast? hn
  have hnil : n = [] := by
    by_contra hnn
    have : n ∈ rel ns := List.mem_filter.2 ⟨hmem, by simpa using hnn⟩
    rw [hrel] at this
    cases this
  exact hlast (hnil ▸ hn)

lemma base_pathOf (cwd : Loc) (hdest : dest ≠ []) : base cwd (pathOf dest ns) = base cwd dest := by
  induction ns using List.reverseRecOn with
  | nil => rfl
  | append_singleton ns n ih =>
    have hne : pathOf dest ns ≠ [] := by
      cases ns using List.reverseRecOn with
      | nil => exact hdest
      | append_singleton ns m => simp [join]
    rw [pathOf_concat, base_join _ _ hne, ih]

lemma rel_plain (hns : ∀ n ∈ ns, EntryName n) : ∀ c ∈ rel ns, Plain c := by
  intro c hc
  have hn := hns c (List.mem_filter.1 hc).1
  exact ⟨hn.notDot, hn.notDotdot, hn.length_le⟩

end Paths

/-! ### The names of a scan -/

mutual
theorem scanNode_names (dest : Path) (k : Nat) (ns : List Name) (input : Bytes)
    (hns : ∀ n ∈ ns, EntryName n) :
    ∀ e ∈ (scanNode dest k ns input).1, ∀ n ∈ e.names, EntryName n := by
  cases k with
  | zero => simp [scanNode]
  | succ k =>
    rw [scanNode]
    match readHead input with
    | none => simp
    | some (.regular x flen, rest) => simpa [Event.names] using hns
    | some (.symlink target, rest) => simpa [Event.names] using hns
    | some (.directory, rest) =>
      intro e he
      rcases List.mem_cons.1 he with rfl | he
      · exact hns
      · exact scanEntries_names dest k ns rest hns e he

/-- **Every name of a scanned stream passed the guard.** -/
theorem scanEntries_names (dest : Path) (k : Nat) (ns : List Name) (input : Bytes)
    (hns : ∀ n ∈ ns, EntryName n) :
    ∀ e ∈ (scanEntries dest k ns input).1, ∀ n ∈ e.names, EntryName n := by
  cases k with
  | zero => simp [scanEntries]
  | succ k =>
    rw [scanEntries]
    match hread : readEntry input with
    | none => simp
    | some (none, rest) => simp
    | some (some name, rest) =>
      have hname := (readEntry_some hread).2 name rfl
      have hns' : ∀ n ∈ ns ++ [name], EntryName n := by
        intro n hn
        rcases List.mem_append.1 hn with hn | hn
        · exact hns n hn
        · exact List.mem_singleton.1 hn ▸ hname
      have hnode := scanNode_names dest k (ns ++ [name]) rest hns'
      by_cases hlen : pathMax ≤ (pathOf dest (ns ++ [name])).length
      · simp only [hlen, if_true, List.not_mem_nil, false_imp_iff, implies_true]
      · simp only [hlen, if_false]
        match hscan : scanNode dest k (ns ++ [name]) rest with
        | (es, none) => simpa [hscan] using hnode
        | (es, some rest') =>
          rw [hscan] at hnode
          intro e he
          rcases List.mem_append.1 he with he | he
          · exact hnode e he
          · exact scanEntries_names dest k ns rest' hns e he
end

lemma scan_names (dest : Path) (input : Bytes) :
    ∀ e ∈ (scan dest input).1, ∀ n ∈ e.names, EntryName n := by
  unfold scan
  match readLine input with
  | none => simp
  | some (magic, rest) =>
    by_cases hm : magic = tokMagic
    · simpa [hm] using scanNode_names dest (rest.length + 1) [] rest (by simp)
    · simp [hm]

/-! ### The invariant of a replay -/

/-- `dest` is an existing empty directory, and `d` is where it is. -/
structure Destination (fs : Fs) (dest : Path) (d : Loc) : Prop where
  resolves : resolve fs true dest (comps dest) = .ok d
  isDir : fs.obj d = some .dir
  empty : ∀ r, r ≠ [] → fs.obj (d ++ r) = none

/-- The replay has started at `fs₀` and reached `fs`: what was there still is, the links inside the
destination are among `links`, and what was touched lies inside. -/
structure Confined (fs₀ : Fs) (d : Loc) (links : List Loc) (fs : Fs) : Prop where
  cwd : fs.cwd = fs₀.cwd
  keeps : ∀ l o, fs₀.obj l = some o → fs.obj l = some o
  links : ∀ r, IsLink fs.obj (d ++ r) → r ∈ links
  journal : ∃ new, fs.touched = new ++ fs₀.touched ∧ ∀ l ∈ new, d <+: l

section Invariant
variable {env : Env} {fs₀ fs fs' : Fs} {dest : Path} {d l : Loc} {links : List Loc}
  {ns : List Name} {f : Bool}

lemma Destination.notLink (hd : Destination fs₀ dest d) : ¬ IsLink fs₀.obj d := by
  rintro ⟨t, ht⟩
  rw [hd.isDir] at ht
  cases ht

lemma Confined.init (hd : Destination fs₀ dest d) : Confined fs₀ d [] fs₀ where
  cwd := rfl
  keeps _ _ h := h
  links r h := by
    cases r with
    | nil => exact absurd (by simpa using h) hd.notLink
    | cons n ns =>
      obtain ⟨t, ht⟩ := h
      rw [hd.empty _ (by simp)] at ht
      cases ht
  journal := ⟨[], rfl, by simp⟩

lemma Confined.mono (h : Confined fs₀ d links fs) {links' : List Loc} (hsub : links ⊆ links') :
    Confined fs₀ d links' fs :=
  ⟨h.cwd, h.keeps, fun r hr => hsub (h.links r hr), h.journal⟩

lemma Confined.isDir (h : Confined fs₀ d links fs) (hd : Destination fs₀ dest d) :
    fs.obj d = some .dir := h.keeps _ _ hd.isDir

/-- Touching one location below the destination keeps the invariant; a link made there has to be
recorded. -/
lemma Confined.touch (h : Confined fs₀ d links fs) (hd : Destination fs₀ dest d) {r : Loc}
    (hr : r ≠ []) {o : Option Obj} (hlink : (∃ t, o = some (.lnk t)) → r ∈ links)
    (hobj : ∀ l, fs'.obj l = if l = d ++ r then o else fs.obj l) (hcwd : fs'.cwd = fs.cwd)
    (htouched : fs'.touched = (d ++ r) :: fs.touched) : Confined fs₀ d links fs' where
  cwd := hcwd.trans h.cwd
  keeps l o' ho := by
    have hne : l ≠ d ++ r := by
      rintro rfl
      rw [hd.empty r hr] at ho
      cases ho
    rw [hobj, if_neg hne, h.keeps l o' ho]
  links r' hr' := by
    obtain ⟨t, ht⟩ := hr'
    rw [hobj] at ht
    split_ifs at ht with heq
    · exact List.append_cancel_left heq ▸ hlink ⟨t, ht⟩
    · exact h.links r' ⟨t, ht⟩
  journal := by
    obtain ⟨new, hnew, hin⟩ := h.journal
    refine ⟨(d ++ r) :: new, by rw [htouched, hnew]; rfl, fun l hl => ?_⟩
    rcases List.mem_cons.1 hl with rfl | hl
    · exact List.prefix_append d r
    · exact hin l hl

lemma Confined.put (h : Confined fs₀ d links fs) (hd : Destination fs₀ dest d) {r : Loc}
    (hr : r ≠ []) {o : Obj} (hlink : (∃ t, o = .lnk t) → r ∈ links) :
    Confined fs₀ d links (fs.put (d ++ r) o) :=
  h.touch hd hr (o := some o) (fun ⟨t, ht⟩ => hlink ⟨t, Option.some.inj ht⟩) (fun _ => rfl) rfl rfl

lemma Confined.remove (h : Confined fs₀ d links fs) (hd : Destination fs₀ dest d) {r : Loc}
    (hr : r ≠ []) : Confined fs₀ d links (fs.remove (d ++ r)) :=
  h.touch hd hr (o := none) (by simp) (fun _ => rfl) rfl rfl

/-! ### Where the calls of an event go -/

lemma Confined.walks_dest (h : Confined fs₀ d links fs) (hd : Destination fs₀ dest d) :
    Walks fs.obj true maxSymlinks (base fs.cwd dest) (names dest) d := by
  obtain ⟨-, -, hw⟩ := resolve_ok hd.resolves
  have hw' : Walks fs₀.obj true maxSymlinks (base fs₀.cwd dest) (names dest) d := by
    unfold comps at hw
    split_ifs at hw with hslash
    · exact hw.of_dot
    · simpa using hw
  rw [h.cwd]
  refine hw'.mono h.keeps (.inr ?_)
  rintro ⟨t, ht⟩
  rw [h.isDir hd] at ht
  cases ht

/-- No link stands on the way of the event, except where it puts a link of its own. -/
def ClearOf (links : List Loc) (f : Bool) (ns : List Name) : Prop :=
  ∀ a ∈ links, a <+: rel ns → a = rel ns ∧ f = false

/-- **Names lead to the location they spell.** -/
lemma Confined.walk_names (h : Confined fs₀ d links fs) (hd : Destination fs₀ dest d)
    (hns : ∀ n ∈ ns, EntryName n) (hclear : ClearOf links f ns) (hrel : rel ns ≠ [])
    (hw : Walks fs.obj f maxSymlinks (base fs.cwd dest) (names dest ++ rel ns) l) :
    l = d ++ rel ns := by
  obtain ⟨m, -, he⟩ := (h.walks_dest hd).append (f := f) hrel (h.isDir hd)
  have hwalk := walk_eq_ok.1 (he.symm.trans hw.walk_eq)
  refine hwalk.plain (rel_plain hns) (fun p hp hne hlink => ?_) ?_
  · exact hne (hclear p (h.links p hlink) hp).1
  · cases f with
    | false => exact .inl rfl
    | true =>
      refine .inr fun hlink => ?_
      have := (hclear _ (h.links _ hlink) List.prefix_rfl).2
      cases this

lemma Confined.resolve_named (h : Confined fs₀ d links fs) (hd : Destination fs₀ dest d)
    (hns : ∀ n ∈ ns, EntryName n) (hclear : ClearOf links f ns) (hnamed : Named ns)
    (hres : resolve fs f (pathOf dest ns) (comps (pathOf dest ns)) = .ok l) :
    l = d ++ rel ns := by
  have hdest := (resolve_ok hd.resolves).1
  obtain ⟨-, -, hw⟩ := resolve_ok hres
  rw [comps_pathOf (fun n hn => (hns n hn).noSlash) hnamed.1, if_pos hnamed,
    base_pathOf _ hdest] at hw
  exact h.walk_names hd hns hclear (rel_ne_nil hnamed) hw

/-- A path that does not end in a name leads to a directory. -/
lemma Confined.resolve_unnamed (h : Confined fs₀ d links fs) (hd : Destination fs₀ dest d)
    (hns : ∀ n ∈ ns, EntryName n) (hnamed : ¬ Named ns)
    (hroot : ns = [] → f = false → resolve fs₀ false dest (comps dest) = .ok d)
    (hres : resolve fs f (pathOf dest ns) (comps (pathOf dest ns)) = .ok l) :
    fs.obj l = some .dir := by
  obtain ⟨-, -, hw⟩ := resolve_ok hres
  by_cases hnil : ns = []
  · subst hnil
    have h₀ : resolve fs₀ f dest (comps dest) = .ok d := by
      cases f with
      | false => exact hroot rfl rfl
      | true => exact hd.resolves
    have hw₀ := (resolve_ok h₀).2.2.mono h.keeps (.inr (by
      rintro ⟨t, ht⟩
      rw [h.isDir hd] at ht
      cases ht))
    rw [← h.cwd] at hw₀
    have heq : l = d := Except.ok.inj (hw.walk_eq.symm.trans hw₀.walk_eq)
    rw [heq, h.isDir hd]
  · rw [comps_pathOf (fun n hn => (hns n hn).noSlash) hnil, if_neg hnamed] at hw
    exact hw.dir_of_dot

/-- Where `mkdir` finds nothing, it is at the location the names spell. -/
lemma Confined.resolve_mkdir (h : Confined fs₀ d links fs) (hd : Destination fs₀ dest d)
    (hns : ∀ n ∈ ns, EntryName n) (hclear : ClearOf links false ns)
    (hres : resolve fs false (pathOf dest ns) (names (pathOf dest ns)) = .ok l)
    (hnone : fs.obj l = none) : l = d ++ rel ns ∧ rel ns ≠ [] := by
  have hdest := (resolve_ok hd.resolves).1
  obtain ⟨-, -, hw⟩ := resolve_ok hres
  rw [names_pathOf _ (fun n hn => (hns n hn).noSlash), base_pathOf _ hdest] at hw
  by_cases hrel : rel ns = []
  · exfalso
    have hnolink : ¬ IsLink fs.obj l := by
      rintro ⟨t, ht⟩
      rw [hnone] at ht
      cases ht
    have hw' := hw.followed hnolink
    rw [hrel, List.append_nil] at hw'
    have heq : l = d := Except.ok.inj (hw'.walk_eq.symm.trans (h.walks_dest hd).walk_eq)
    rw [heq, h.isDir hd] at hnone
    cases hnone
  · exact ⟨h.walk_names hd hns hclear hrel hw, hrel⟩

/-! ### One event -/

/-- What the events of a confined replay have in common: their names passed the guard, no earlier
link is on their way, and the root of the archive does not replace a link at the destination. -/
structure Admissible (fs₀ : Fs) (dest : Path) (d : Loc) (links : List Loc) (e : Event) : Prop where
  entryNames : ∀ n ∈ e.names, EntryName n
  clear : ∀ a ∈ links, ¬ e.Through a
  root : e.names = [] → e.isSymlink = true → resolve fs₀ false dest (comps dest) = .ok d

lemma Admissible.clearOf {e : Event} (ha : Admissible fs₀ dest d links e) :
    ClearOf links (!e.isSymlink) e.names := by
  intro a hmem hpre
  have hnot : ¬ (a = rel e.names → e.isSymlink = false) := fun h => ha.clear a hmem ⟨hpre, h⟩
  push Not at hnot
  exact ⟨hnot.1, by simpa using hnot.2⟩

lemma ClearOf.nofollow (h : ClearOf links true ns) : ClearOf links false ns := by
  intro a hmem hpre
  exact absurd (h a hmem hpre).2 (by simp)

lemma Confined.discard (env : Env) (h : Confined fs₀ d links fs) (hd : Destination fs₀ dest d)
    (hns : ∀ n ∈ ns, EntryName n) (hclear : ClearOf links false ns)
    (hroot : ns = [] → resolve fs₀ false dest (comps dest) = .ok d) :
    Confined fs₀ d links (discard env (pathOf dest ns) fs) := by
  unfold Nar.discard orKeep
  cases hu : unlink env fs (pathOf dest ns) with
  | error e => exact h
  | ok fs' =>
    obtain ⟨l, hres, -, hndir, rfl⟩ := unlink_ok hu
    by_cases hnamed : Named ns
    · rw [h.resolve_named hd hns hclear hnamed hres]
      exact h.remove hd (rel_ne_nil hnamed)
    · exact absurd (h.resolve_unnamed hd hns hnamed (fun hn _ => hroot hn) hres) hndir

lemma Confined.append (h : Confined fs₀ d links fs) (hd : Destination fs₀ dest d) {r : Loc}
    (hr : r ≠ []) (b : Bytes) : Confined fs₀ d links (append fs (d ++ r) b) := by
  unfold Posix.append
  split
  · exact h.put hd hr (by simp)
  · exact h

/-- The calls on a regular file stay at the location its names spell. -/
lemma Confined.regular (h : Confined fs₀ d links fs) (hd : Destination fs₀ dest d)
    (hns : ∀ n ∈ ns, EntryName n) (hclear : ClearOf links true ns) (x : Bool) (flen : Nat)
    (avail : Bytes) :
    Confined fs₀ d links (extractRegular env (pathOf dest ns) fs x flen avail).2 := by
  unfold extractRegular
  cases hopen : openTrunc env fs (pathOf dest ns) with
  | error e => exact h
  | ok v =>
    obtain ⟨l, fs₁⟩ := v
    obtain ⟨hres, hndir, c, rfl⟩ := openTrunc_ok hopen
    by_cases hnamed : Named ns
    swap
    · exact absurd (h.resolve_unnamed hd hns hnamed (by simp) hres) hndir
    obtain rfl := h.resolve_named hd hns hclear hnamed hres
    have hrel := rel_ne_nil hnamed
    have h₁ := h.put hd hrel (o := .reg [] c) (by simp)
    have hdisc : ∀ {fs₂}, Confined fs₀ d links fs₂ →
        Confined fs₀ d links (Nar.discard env (pathOf dest ns) fs₂) := fun h₂ =>
      h₂.discard env hd hns hclear.nofollow fun hnil => absurd hnil hnamed.1
    have happ := fun b => h₁.append hd hrel b
    simp only
    split_ifs with hwrite hshort hclose hx
    · exact hdisc h₁
    · exact hdisc (happ _)
    · exact hdisc (happ _)
    · cases hchmod : chmodExec env (Posix.append (fs.put (d ++ rel ns) (.reg [] c)) (d ++ rel ns)
          (avail.take flen)) (pathOf dest ns) with
      | error e => exact hdisc (happ _)
      | ok fs₃ =>
        obtain ⟨l', o, hres', rfl, ho⟩ := chmodExec_ok hchmod
        obtain rfl := (happ _).resolve_named hd hns hclear hnamed hres'
        refine (happ _).put hd hrel ?_
        rintro ⟨t, rfl⟩
        rcases ho with ⟨c, x, -, ho⟩ | ho
        · cases ho
        · exact (happ _).links _ ⟨t, ho⟩
    · exact happ _

/-- A link is made at the location its names spell, and recorded. -/
lemma Confined.symlink (h : Confined fs₀ d links fs) (hd : Destination fs₀ dest d)
    (hns : ∀ n ∈ ns, EntryName n) (hclear : ClearOf links false ns)
    (hroot : ns = [] → resolve fs₀ false dest (comps dest) = .ok d) (t : Bytes) :
    Confined fs₀ d ((Event.symlink ns t).link?.toList ++ links)
      (extractSymlink env (pathOf dest ns) fs t).2 := by
  have h₁ := h.discard env hd hns hclear hroot
  unfold extractSymlink
  cases hsym : Posix.symlink env (Nar.discard env (pathOf dest ns) fs) t (pathOf dest ns) with
  | error e => simpa [hsym] using h₁.mono (List.subset_append_right _ _)
  | ok fs₂ =>
    obtain ⟨l, hres, hnone, rfl⟩ := symlink_ok hsym
    by_cases hnamed : Named ns
    · obtain rfl := h₁.resolve_named hd hns hclear hnamed hres
      simp only [hsym, Event.link?, hnamed, if_true, Option.toList_some]
      exact (h₁.mono (List.subset_append_right [rel ns] links)).put hd (rel_ne_nil hnamed)
        (by simp)
    · have hdir := h₁.resolve_unnamed hd hns hnamed (fun hn _ => hroot hn) hres
      rw [hdir] at hnone
      cases hnone

lemma Confined.directory (h : Confined fs₀ d links fs) (hd : Destination fs₀ dest d)
    (hns : ∀ n ∈ ns, EntryName n) (hclear : ClearOf links true ns) :
    Confined fs₀ d links (extractDirectory env (pathOf dest ns) fs).2 := by
  unfold extractDirectory
  cases hmk : mkdir env fs (pathOf dest ns) with
  | error e => cases e <;> exact h
  | ok fs₁ =>
    obtain ⟨l, hres, hnone, rfl⟩ := mkdir_ok hmk
    obtain ⟨rfl, hrel⟩ := h.resolve_mkdir hd hns hclear.nofollow hres hnone
    exact h.put hd hrel (by simp)

/-- **One event keeps the replay confined.** -/
theorem Confined.apply (env : Env) (h : Confined fs₀ d links fs) (hd : Destination fs₀ dest d) {e : Event}
    (ha : Admissible fs₀ dest d links e) :
    Confined fs₀ d (e.link?.toList ++ links) (e.apply env dest fs).2 := by
  have hclear := ha.clearOf
  cases e with
  | regular ns x flen avail => exact h.regular hd ha.entryNames hclear x flen avail
  | symlink ns t => exact h.symlink hd ha.entryNames hclear (fun hnil => ha.root hnil rfl) t
  | directory ns => exact h.directory hd ha.entryNames hclear

/-- **A whole replay stays confined** when no event goes through a link made before it. -/
theorem Confined.replay (env : Env) {es : List Event} (h : Confined fs₀ d links fs)
    (hd : Destination fs₀ dest d) (hes : NoLinkFollowed es)
    (hold : ∀ e ∈ es, ∀ a ∈ links, ¬ e.Through a) (hnames : ∀ e ∈ es, ∀ n ∈ e.names, EntryName n)
    (hroot : ∀ e ∈ es, e.names = [] → e.isSymlink = true →
      resolve fs₀ false dest (comps dest) = .ok d) :
    ∃ links', Confined fs₀ d links' (Nar.replay env dest es fs).2 := by
  induction es generalizing links fs with
  | nil => exact ⟨links, h⟩
  | cons e es ih =>
    obtain ⟨hhead, htail⟩ := List.pairwise_cons.1 hes
    have hstep := h.apply env hd (e := e)
      ⟨hnames e List.mem_cons_self, hold e List.mem_cons_self, hroot e List.mem_cons_self⟩
    rw [Nar.replay]
    generalize e.apply env dest fs = r at hstep
    obtain ⟨ok, fs₁⟩ := r
    cases ok with
    | false => exact ⟨_, hstep⟩
    | true =>
      refine ih hstep htail (fun e' he' a ha => ?_)
        (fun e' he' => hnames e' (List.mem_cons_of_mem _ he'))
        (fun e' he' => hroot e' (List.mem_cons_of_mem _ he'))
      rcases List.mem_append.1 ha with ha | ha
      · exact hhead e' he' a (Option.mem_toList.1 ha)
      · exact hold e' (List.mem_cons_of_mem _ he') a ha

end Invariant

/-! ### Confinement -/

/-- `l` was created, overwritten, changed or removed on the way from `fs` to `fs'`. -/
def Touched (fs fs' : Fs) (l : Loc) : Prop := ∃ new, fs'.touched = new ++ fs.touched ∧ l ∈ new

/-- Everything the extraction touches lies inside the destination, wherever links lead. -/
def StaysInside (env : Env) (fs : Fs) (dest : Path) (d : Loc) (input : Bytes) : Prop :=
  ∀ l, Touched fs (narExtract env dest input fs).2 l → d <+: l

/-- The root of the archive does not replace a link at the destination. -/
def RootKept (fs : Fs) (dest : Path) (d : Loc) (es : List Event) : Prop :=
  resolve fs false dest (comps dest) = .ok d ∨ ∀ e ∈ es, e.names = [] → e.isSymlink = false

/-- The root and an empty directory `/d`. -/
def sandboxFs : Fs where
  obj l := if l = [] ∨ l = [ascii "d"] then some .dir else none
  cwd := []
  touched := []

lemma sandboxFs_destination : Destination sandboxFs (ascii "/d") [ascii "d"] where
  resolves := by decide
  isDir := by decide
  empty r hr := by simp [sandboxFs, hr]

/-- A directory with a link `a` to `/x` and then the given entry with contents `e`. -/
def linkThenFile (name : Name) : Bytes :=
  line tokMagic ++ line tokDirectory ++
    entryBytes (ascii "a") (line tokSymlink ++ tokTarget ++ emitU64 2 ++ ascii "/x") ++
    entryBytes name (line tokRegular ++ tokContents ++ emitU64 1 ++ ascii "e") ++
    line tokEnd

end Two09.Nar
