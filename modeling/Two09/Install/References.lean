import Two09.Install.Command
import Two09.Lib.Trace

/-!
# References by name

Packages are found by the part `-<name>-` of their store paths, which the hash, the name and the
version of other packages can also make up. What is found is right as long as a path of the package
itself comes first.
-/

namespace Two09.Install

open Two09.Lib Two09.Store

/-! ### The first match -/

section Find
variable {α : Type} {l : List α} {p : α → Bool} {a b : α}

/-- What is found is as it should be exactly if every match is, or has one before it. -/
lemma forall_find?_iff {N : α → Prop} :
    (∀ a, l.find? p = some a → N a) ↔
      ∀ pre a post, l = pre ++ a :: post → p a = true → N a ∨ ∃ b ∈ pre, p b = true := by
  constructor
  · intro h pre a post hl ha
    by_cases hpre : ∃ b ∈ pre, p b = true
    · exact .inr hpre
    · refine .inl (h a (List.find?_eq_some_iff_append.2 ⟨ha, pre, post, hl, fun b hb => ?_⟩))
      simpa using fun hp => hpre ⟨b, hb, hp⟩
  · intro h a ha
    obtain ⟨hp, pre, post, hl, hpre⟩ := List.find?_eq_some_iff_append.1 ha
    rcases h pre a post hl hp with hN | ⟨b, hb, hp⟩
    · exact hN
    · exact absurd (hpre b hb) (by simp [hp])

/-- In a sorted list the first match is the least one. -/
lemma rel_of_find?_eq_some {r : α → α → Prop} (hl : l.Pairwise r) (hrefl : ∀ a, r a a)
    (ha : l.find? p = some a) (hb : b ∈ l) (hp : p b = true) : r a b := by
  obtain ⟨-, pre, post, rfl, hpre⟩ := List.find?_eq_some_iff_append.1 ha
  rcases List.mem_append.1 hb with hb | hb
  · exact absurd (hpre b hb) (by simp [hp])
  · rcases List.mem_cons.1 hb with rfl | hb
    · exact hrefl _
    · exact List.rel_of_pairwise_cons (List.pairwise_append.1 hl).2.1 hb

end Find

instance : Std.Total fun a b : StoreName => storePath a ≤ storePath b :=
  ⟨fun _ _ => List.le_total _ _⟩

instance : IsTrans StoreName fun a b => storePath a ≤ storePath b := ⟨fun _ _ _ => List.le_trans⟩

/-! ### Packages and their paths -/

section References
variable (sha256 : Bytes → Bytes) (built : List Placed)

/-- The path of a package of that name. -/
def BuiltAs (name : Bytes) (m : StoreName) : Prop :=
  ∃ p ∈ built, p.name = name ∧ m.val = computeStorePath sha256 p.narHash p.name p.version

/-- The path of a package of that name and version. -/
def BuiltFor (name version : Bytes) (m : StoreName) : Prop :=
  ∃ p ∈ built, p.name = name ∧ p.version = version ∧
    m.val = computeStorePath sha256 p.narHash p.name p.version

/-- `store_db_find_by_name` takes the path for one of that package. -/
def Matches (name : Bytes) (m : StoreName) : Prop :=
  name.length + 2 ≤ m.val.length ∧ matchesName name m = true

instance (name : Bytes) (m : StoreName) : Decidable (Matches name m) := by
  unfold Matches
  infer_instance

/-- What is found under a name is a path of that package, and something is found if there is one. -/
def FoundRight (db : StoreDb) (name : Bytes) : Prop :=
  (∀ m, db.findByName name = some m → BuiltAs sha256 built name m) ∧
    ((∃ m ∈ db.names, BuiltAs sha256 built name m) → (db.findByName name).isSome = true)

/-- No path of another package that matches the name comes before all those of the package. -/
def Unshadowed (db : StoreDb) (name : Bytes) : Prop :=
  ∀ m ∈ db.names, Matches name m →
    ∃ m' ∈ db.names, BuiltAs sha256 built name m' ∧ storePath m' ≤ storePath m

variable {sha256 built}
variable {db : StoreDb} {name version : Bytes} {m n : StoreName}

lemma BuiltAs.matches (h : BuiltAs sha256 built name m) : Matches name m := by
  obtain ⟨p, -, rfl, hm⟩ := h
  have hval : m.val = hash32 (sha256 (fingerprint p.narHash (p.name ++ ascii "-" ++ p.version))) ++
      (ascii "-" ++ p.name ++ ascii "-") ++ p.version := by
    rw [hm, computeStorePath, addressed]
    simp only [List.append_assoc]
  refine ⟨?_, ?_⟩
  · rw [hval]
    simp only [List.length_append, length_hash32]
    omega
  · have hinfix : (ascii "-" ++ p.name ++ ascii "-").take 299 <:+: m.val :=
      (List.take_prefix _ _).isInfix.trans (hval ▸ List.infix_append _ _ _)
    rw [matchesName, decide_eq_true hinfix, Bool.true_or]

lemma findByName_isSome (hm : m ∈ db.names) (h : Matches name m) :
    (db.findByName name).isSome = true := by
  rw [StoreDb.findByName, List.find?_isSome]
  refine ⟨m, (StoreDb.mem_allPaths le_rfl).2 hm, ?_⟩
  rw [decide_eq_true h.1, h.2]
  rfl

lemma findByName_mem (h : db.findByName name = some m) : m ∈ db.names ∧ Matches name m := by
  have hp := List.find?_some h
  rw [Bool.and_eq_true, decide_eq_true_eq] at hp
  exact ⟨StoreDb.mem_allPaths_names (List.mem_of_find?_eq_some h), hp⟩

/-- The match that is found is the least one. -/
lemma findByName_le (h : db.findByName name = some m) (hn : n ∈ db.names) (hmatch : Matches name n) :
    storePath m ≤ storePath n := by
  have hsorted : (db.allPaths db.paths.length).Pairwise fun a b => storePath a ≤ storePath b :=
    (List.pairwise_insertionSort _ _).sublist (List.take_sublist _ _)
  refine rel_of_find?_eq_some (r := fun a b => storePath a ≤ storePath b) hsorted
    (fun _ => List.le_refl _) h
    ((StoreDb.mem_allPaths le_rfl).2 hn) ?_
  rw [decide_eq_true hmatch.1, hmatch.2]
  rfl

lemma eq_of_storePath_le (h : storePath m ≤ storePath n) (h' : storePath n ≤ storePath m) : m = n :=
  storePath_injective (List.le_antisymm h h')

/-- **A name is resolved rightly exactly if no other package shadows it.** -/
theorem foundRight_iff : FoundRight sha256 built db name ↔ Unshadowed sha256 built db name := by
  constructor
  · rintro ⟨hright, -⟩ m hm hmatch
    obtain ⟨m₀, hfind⟩ := Option.isSome_iff_exists.1 (findByName_isSome hm hmatch)
    exact ⟨m₀, (findByName_mem hfind).1, hright m₀ hfind, findByName_le hfind hm hmatch⟩
  · intro h
    refine ⟨fun m hfind => ?_, ?_⟩
    rotate_left
    · rintro ⟨m, hm, hbuilt⟩
      exact findByName_isSome hm hbuilt.matches
    obtain ⟨hm, hmatch⟩ := findByName_mem hfind
    obtain ⟨m', hm', hbuilt, hle⟩ := h m hm hmatch
    obtain rfl := eq_of_storePath_le (findByName_le hfind hm' hbuilt.matches) hle
    exact hbuilt

/-! ### Refs -/

variable (sha256 built) in
/-- The new refs lead from the target to packages it depends on. -/
def RefsDeclared (target : Package × Added) (deps : List Bytes) (w w' : World) : Prop :=
  ∀ p q, q ∈ w'.sdb.refsOf p → q ∈ w.sdb.refsOf p ∨
    p = storePath target.2.path ∧ ∃ dep ∈ deps, ∃ m, q = storePath m ∧ BuiltAs sha256 built dep m

variable (sha256 built) in
/-- No entry of another package that matches the name stands before those of the package in
`/nix/store`. -/
def ScanUnshadowed (w : World) (name : Bytes) : Prop :=
  ∀ pre m post, w.store.keys = pre ++ m :: post → (!m.hidden && matchesName name m) = true →
    BuiltAs sha256 built name m ∨ ∃ m' ∈ pre, (!m'.hidden && matchesName name m') = true

variable (sha256 built) in
/-- A dependency is not shadowed where it is looked for: among the registered paths, and in the
store if none of these matches. -/
def DepUnshadowed (target : Package × Added) (w : World) (dep : Bytes) : Prop :=
  dep = target.1.name ∨ Unshadowed sha256 built w.sdb dep ∧
    (w.sdb.findByName dep = none → ScanUnshadowed sha256 built w dep)

/-- What one callback does. -/
def depStep (env : Env) (time : Nat) (target : Package × Added) (w : World) (dep : Bytes) : World :=
  ((depCb env time target dep).run w).2

variable {env : Env} {time : Nat} {target : Package × Added} {w w' w'' : World} {deps : List Bytes}
  {dep : Bytes} {pkg : Package}

lemma RefsDeclared.trans (h : RefsDeclared sha256 built target deps w w')
    (h' : RefsDeclared sha256 built target deps w' w'') :
    RefsDeclared sha256 built target deps w w'' := by
  intro p q hq
  rcases h' p q hq with hq | hq
  · exact h p q hq
  · exact .inr hq

lemma refsDeclared_addRef (hdep : dep ∈ deps) (hm : BuiltAs sha256 built dep m) (w : World) :
    RefsDeclared sha256 built target deps w ((addRef target.2.path m).run w).2 := by
  intro p q hq
  exact (StoreDb.mem_refsOf_addRef hq).imp_right fun h => ⟨h.1, dep, hdep, m, h.2, hm⟩

lemma refsDeclared_register (n : StoreName) (hash : Bytes × Nat) (w : World) :
    RefsDeclared sha256 built target deps w ((register time n hash).run w).2 :=
  fun _ _ hq => .inl (StoreDb.mem_refsOf_register hq)

/-- **A dependency that is not shadowed gets the right ref.** -/
lemma refsDeclared_depStep (hdep : dep ∈ deps) (h : DepUnshadowed sha256 built target w dep) :
    RefsDeclared sha256 built target deps w (depStep env time target w dep) := by
  unfold depStep depCb
  by_cases hself : dep = target.1.name
  · rw [if_pos hself]
    exact fun _ _ hq => .inl hq
  · obtain ⟨hdb, hscan⟩ := h.resolve_left hself
    rw [if_neg hself, Prog.run_bind, Prog.run_read]
    cases hfind : w.sdb.findByName dep with
    | some m => exact refsDeclared_addRef hdep ((foundRight_iff.2 hdb).1 m hfind) w
    | none =>
      simp only [Prog.run_bind, Prog.run_read]
      cases hstore : findStorePath dep w with
      | none => exact fun _ _ hq => .inl hq
      | some m =>
        have hm : BuiltAs sha256 built dep m := forall_find?_iff.2 (hscan hfind) m hstore
        rw [Option.map_some]
        cases (w.store.lookup m).bind fun e => narHashDirectory env.sha256 (storePath m) e.tree with
        | none => exact fun _ _ hq => .inl hq
        | some hash =>
          simp only [Prog.run_bind]
          exact (refsDeclared_register m hash w).trans (refsDeclared_addRef hdep hm _)

lemma refsDeclared_deps {ds : List Bytes} (hsub : ∀ dep ∈ ds, dep ∈ deps)
    (h : AtEach (depStep env time target) (DepUnshadowed sha256 built target) w ds) :
    RefsDeclared sha256 built target deps w ((Prog.forEach (depCb env time target) ds).run w).2 := by
  induction ds generalizing w with
  | nil => exact fun _ _ hq => .inl hq
  | cons dep ds ih =>
    obtain ⟨hdep, hds⟩ := h
    rw [Prog.forEach, Prog.run_bind]
    exact (refsDeclared_depStep (hsub dep List.mem_cons_self) hdep).trans
      (ih (fun d hd => hsub d (List.mem_cons_of_mem _ hd)) hds)

/-- The world in which the callbacks start: the target is registered. -/
def registered (time : Nat) (target : Package × Added) (w : World) (hash : Bytes × Nat) : World :=
  ((register time target.2.path hash).run w).2

/-- **A target refers to packages it depends on**, if none of these is shadowed at its turn. -/
lemma refsDeclared_registerTarget (w : World)
    (h : ∀ hash, target.2.hash = some hash →
      AtEach (depStep env time target) (DepUnshadowed sha256 built target)
        (registered time target w hash) (pkginfoDeps w target.2.path)) :
    RefsDeclared sha256 built target (pkginfoDeps w target.2.path) w
      ((registerTarget env time target).run w).2 := by
  unfold registerTarget
  cases hhash : target.2.hash with
  | none => exact fun _ _ hq => .inl hq
  | some hash =>
    simp only [Prog.run_bind, Prog.run_read]
    exact (refsDeclared_register target.2.path hash w).trans
      (refsDeclared_deps (fun _ hd => hd) (h hash hhash))

/-! ### Substitution -/

variable (sha256 built) in
/-- What is substituted for a package was built for that package and version. -/
def SubstitutedRight (env : Env) (pkg : Package) (w : World) : Prop :=
  ∀ n, ((trySubstitute env pkg).run w).1 = some n → BuiltFor sha256 built pkg.name pkg.version n

/-- The path is in the store, or a cache has it. -/
def Available (env : Env) (w : World) (n : StoreName) : Prop :=
  (w.store.lookup n).isSome = true ∨ (env.cached n).isSome = true

variable (sha256 built) in
/-- No path of another package or version that matches the name, ends in the version and is to be had
comes before all others that match the name. -/
def VersionUnshadowed (env : Env) (pkg : Package) (w : World) : Prop :=
  ∀ m ∈ w.sdb.names, Matches pkg.name m → hasVersion pkg.version m = true → Available env w m →
    BuiltFor sha256 built pkg.name pkg.version m ∨
      ∃ m' ∈ w.sdb.names, Matches pkg.name m' ∧ ¬ storePath m ≤ storePath m'

lemma trySubstitute_ensures (n : StoreName) :
    (trySubstitute env pkg).Ensures w fun r _ => (r = some n ↔
      w.sdb.findByName pkg.name = some n ∧ hasVersion pkg.version n = true ∧ Available env w n) := by
  unfold trySubstitute
  simp only [Prog.ensures_bind, Prog.ensures_read]
  cases hfind : (w.sdb.findByName pkg.name).filter (hasVersion pkg.version) with
  | none =>
    refine iff_of_false (by simp) ?_
    rintro ⟨hn, hversion, -⟩
    rw [hn, Option.filter_some, if_pos hversion] at hfind
    cases hfind
  | some m =>
    obtain ⟨hm, hversion⟩ := Option.filter_eq_some_iff.1 hfind
    -- only the path that is found can be the result
    have hres : Available env w m → (some m = some n ↔ w.sdb.findByName pkg.name = some n ∧
        hasVersion pkg.version n = true ∧ Available env w n) := by
      intro hav
      rw [hm]
      refine ⟨fun h => ?_, And.left⟩
      obtain rfl := Option.some.inj h
      exact ⟨rfl, hversion, hav⟩
    simp only [Prog.ensures_bind, Prog.ensures_read]
    cases hlook : w.store.lookup m with
    | some e =>
      simp only [Option.isSome_some, if_true, Prog.ensures_ret]
      exact hres (.inl (by rw [hlook]; rfl))
    | none =>
      simp only [Option.isSome_none, Bool.false_eq_true, if_false]
      cases hcached : env.cached m with
      | none =>
        refine iff_of_false (by simp) ?_
        rintro ⟨hn, -, hav⟩
        obtain rfl := Option.some.inj (hm.symm.trans hn)
        simp [Available, hlook, hcached] at hav
      | some t =>
        rw [Prog.ensures_step]
        exact hres (.inr (by rw [hcached]; rfl))

lemma trySubstitute_eq_some :
    ((trySubstitute env pkg).run w).1 = some n ↔
      w.sdb.findByName pkg.name = some n ∧ hasVersion pkg.version n = true ∧ Available env w n :=
  trySubstitute_ensures n

/-- **What is substituted is right exactly if it is not shadowed.** -/
lemma substitutedRight_iff :
    SubstitutedRight sha256 built env pkg w ↔ VersionUnshadowed sha256 built env pkg w := by
  constructor
  · intro h m hm hmatch hversion hav
    obtain ⟨m₀, hfind⟩ := Option.isSome_iff_exists.1 (findByName_isSome hm hmatch)
    by_cases hle : storePath m ≤ storePath m₀
    · obtain rfl := eq_of_storePath_le (findByName_le hfind hm hmatch) hle
      exact .inl (h m₀ (trySubstitute_eq_some.2 ⟨hfind, hversion, hav⟩))
    · exact .inr ⟨m₀, (findByName_mem hfind).1, (findByName_mem hfind).2, hle⟩
  · intro h n hn
    obtain ⟨hfind, hversion, hav⟩ := trySubstitute_eq_some.1 hn
    obtain ⟨hmem, hmatch⟩ := findByName_mem hfind
    rcases h n hmem hmatch hversion hav with hbuilt | ⟨m', hm', hmatch', hlt⟩
    · exact hbuilt
    · exact absurd (findByName_le hfind hm' hmatch') hlt

end References

/-! ### A dash in a name -/

/-- The package `a-b`, with a hash function that maps everything to nothing. -/
def dashed : Placed := ⟨[], ascii "a-b", ascii "1"⟩

def dashedName : StoreName :=
  ⟨computeStorePath (fun _ => []) dashed.narHash dashed.name dashed.version, by decide +kernel⟩

def dashedDb : StoreDb := StoreDb.empty.register dashedName [] 0 none 0

lemma mem_dashedDb {m : StoreName} : m ∈ dashedDb.names ↔ m = dashedName := by
  have hnames : dashedDb.names = [dashedName] := by decide +kernel
  rw [hnames, List.mem_singleton]

/-- A package `c` at its legacy path, whose one dependency is `a-b`. -/
def dependent : Package × Added :=
  (⟨ascii "c", ascii "1", [(pkgInfo, .regular (ascii "depend = a-b") false)]⟩,
    ⟨⟨ascii "c-1", by decide⟩, some ([], 0)⟩)

def dependentWorld : World :=
  ⟨⟨∅, none, false⟩, dashedDb, AList.singleton dependent.2.path ⟨dependent.1.tree, true⟩⟩

end Two09.Install
