import Two09.Farm.Links
import Two09.Lib.Trace

/-!
# What the farm leaves alone

`symlink_create` and `teardown_file` on the file system itself, where links lead through the user's
directories and any call may be refused. `teardown_file` and `symlink_remove` look at what they remove;
`symlink_create` does not, so a file of the user's that stands where a package wants a link is gone.
-/

namespace Two09.Farm

open Two09.Lib Two09.Lib.Posix Two09.Gen Two09.Nar Two09.Store

/-! ### The primitives -/

section Primitives
variable (env : Posix.Env)

/-- `mkdir`, one directory after the other: the first failure other than `EEXIST` ends it. -/
def mkdirEach : Fs → List Path → Fs × Bool
  | fs, [] => (fs, true)
  | fs, p :: ps =>
    match mkdir env fs p with
    | .ok fs' => mkdirEach fs' ps
    | .error .EEXIST => mkdirEach fs ps
    | .error _ => (fs, false)

/-- `mkdirs` -/
def mkdirs (fs : Fs) (path : Path) : Fs × Bool :=
  let tmp := if path.getLast? = some slash then path.dropLast else path
  mkdirEach env fs (ancestors tmp ++ [tmp])

/-- The directory `symlink_create` makes first: the path up to its last slash, if it has one. -/
def parentDir (linkPath : Path) : Option Path :=
  if slash ∈ linkPath then some (linkPath.take (linkPath.length - (myBasename linkPath).length - 1))
  else none

def makeParent (fs : Fs) (linkPath : Path) : Fs × Bool :=
  match parentDir linkPath with
  | some parent => mkdirs env fs parent
  | none => (fs, true)

/-- `symlink_create`: whatever stands at the path is unlinked first, and whether that worked is not
asked. -/
def symlinkCreate (fs : Fs) (target : Bytes) (linkPath : Path) : Fs :=
  let made := makeParent env fs linkPath
  if made.2 then
    let cleared := orKeep made.1 (unlink env made.1 linkPath)
    orKeep cleared (symlink env cleared target linkPath)
  else made.1

/-- `teardown_file`, once the path of the link is known. -/
def teardownFile (fs : Fs) (linkPath : Path) : Fs :=
  match resolve fs false linkPath (comps linkPath) with
  | .error _ => fs
  | .ok l =>
    match fs.obj l with
    | some (.lnk target) =>
      if storeDir.isPrefixOf target then orKeep fs (unlink env fs linkPath) else fs
    | _ => fs

end Primitives

/-! ### Runs -/

/-- What the walks of the farm come down to. -/
inductive FarmStep
  | create (target : Bytes) (linkPath : Path)
  | teardown (linkPath : Path)

/-- The calls, each with the user it runs for and the store it finds. -/
inductive FarmCall
  | build (user : User) (w : World) (gen : List GenPkg) (prevGen : Option (List GenPkg))
  | teardown (user : User) (w : World) (gen : List GenPkg)

def FarmStep.run (env : Posix.Env) (fs : Fs) : FarmStep → Fs
  | .create target linkPath => symlinkCreate env fs target linkPath
  | .teardown linkPath => teardownFile env fs linkPath

/-- `symlink_farm_teardown` -/
def teardownSteps (user : User) (w : World) (gen : List GenPkg) : List FarmStep :=
  (farmLinks user w gen).map fun l => .teardown l.1

/-- `symlink_farm_build`: the links of the previous generation go first. -/
def FarmCall.steps : FarmCall → List FarmStep
  | .build user w gen prevGen =>
    teardownSteps user w (prevGen.getD []) ++ (farmLinks user w gen).map fun l => .create l.2 l.1
  | .teardown user w gen => teardownSteps user w gen

def runFarm (env : Posix.Env) (fs : Fs) (calls : List FarmCall) : Fs :=
  (calls.flatMap FarmCall.steps).foldl (FarmStep.run env) fs

/-! ### What is the user's -/

/-- Anything but a link into the store. -/
def Owned : Obj → Prop
  | .lnk target => ¬ storeDir <+: target
  | _ => True

/-- What was the user's is still there, unchanged. -/
def Kept (fs fs' : Fs) : Prop := ∀ l o, fs.obj l = some o → Owned o → fs'.obj l = some o

/-- The `unlink` of `symlink_create` does not meet a file or a link of the user's: where it is called,
the path names nothing, a directory or a link into the store, or it is refused. -/
def Spares (env : Posix.Env) (fs : Fs) : FarmStep → Prop
  | .create _ linkPath =>
    let made := makeParent env fs linkPath
    made.2 = true → env.refuse made.1 (.unlink linkPath) = false →
      ∀ l o, resolve made.1 false linkPath (comps linkPath) = .ok l → made.1.obj l = some o →
        o ≠ .dir → ¬ Owned o
  | .teardown _ => True

/-- What the farm does at most: directories stay, and no file or link of the user's appears. -/
structure Tame (fs fs' : Fs) : Prop where
  dir : ∀ l, fs.obj l = some .dir → fs'.obj l = some .dir
  fresh : ∀ l o, fs'.obj l = some o → Owned o → o ≠ .dir → fs.obj l = some o

section Orders
variable {fs fs' fs'' : Fs}

lemma Kept.refl (fs : Fs) : Kept fs fs := fun _ _ h _ => h

lemma Kept.trans (h : Kept fs fs') (h' : Kept fs' fs'') : Kept fs fs'' :=
  fun l o ho hown => h' l o (h l o ho hown) hown

lemma Tame.refl (fs : Fs) : Tame fs fs := ⟨fun _ h => h, fun _ _ h _ _ => h⟩

lemma Tame.trans (h : Tame fs fs') (h' : Tame fs' fs'') : Tame fs fs'' :=
  ⟨fun l hl => h'.dir l (h.dir l hl),
    fun l o ho hown hdir => h.fresh l o (h'.fresh l o ho hown hdir) hown hdir⟩

/-- What is kept in the end was kept on the way: what is lost does not come back. -/
lemma Kept.first (h : Kept fs fs'') (ht : Tame fs fs') (ht' : Tame fs' fs'') : Kept fs fs' := by
  intro l o ho hown
  by_cases hdir : o = .dir
  · subst hdir
    exact ht.dir l ho
  · exact ht'.fresh l o (h l o ho hown) hown hdir

lemma Kept.rest (h : Kept fs fs'') (ht : Tame fs fs') (ht' : Tame fs' fs'') : Kept fs' fs'' := by
  intro l o ho hown
  by_cases hdir : o = .dir
  · subst hdir
    exact ht'.dir l ho
  · exact h l o (ht.fresh l o ho hown hdir) hown

end Orders

/-! ### What a call does -/

section Steps
variable {env : Posix.Env} {fs fs' : Fs} {p : Path} {target : Bytes}

/-- Only missing objects change, and they become directories. -/
lemma mkdir_frame (h : mkdir env fs p = .ok fs') : Tame fs fs' ∧ Kept fs fs' := by
  obtain ⟨l, -, hnone, rfl⟩ := mkdir_ok h
  have hne : ∀ l' o, fs.obj l' = some o → l' ≠ l := by
    rintro l' o ho rfl
    rw [hnone] at ho
    cases ho
  refine ⟨⟨fun l' hl' => ?_, fun l' o ho _ hdir => ?_⟩, fun l' o ho _ => ?_⟩
  · rw [Fs.put_obj, if_neg (hne l' _ hl'), hl']
  · rw [Fs.put_obj] at ho
    split_ifs at ho with hl
    · exact absurd (Option.some.inj ho).symm hdir
    · exact ho
  · rw [Fs.put_obj, if_neg (hne l' o ho), ho]

lemma mkdirEach_frame (ps : List Path) :
    Tame fs (mkdirEach env fs ps).1 ∧ Kept fs (mkdirEach env fs ps).1 := by
  induction ps generalizing fs with
  | nil => exact ⟨.refl fs, .refl fs⟩
  | cons p ps ih =>
    unfold mkdirEach
    split
    next fs' hok =>
      obtain ⟨ht, hk⟩ := mkdir_frame hok
      exact ⟨ht.trans ih.1, hk.trans ih.2⟩
    next => exact ih
    next => exact ⟨.refl fs, .refl fs⟩

lemma makeParent_frame (fs : Fs) (p : Path) :
    Tame fs (makeParent env fs p).1 ∧ Kept fs (makeParent env fs p).1 := by
  unfold makeParent
  split
  · exact mkdirEach_frame _
  · exact ⟨.refl fs, .refl fs⟩

lemma unlink_tame (fs : Fs) (p : Path) : Tame fs (orKeep fs (unlink env fs p)) := by
  cases h : unlink env fs p with
  | error e => exact .refl fs
  | ok fs' =>
    obtain ⟨l, -, -, hdir, rfl⟩ := unlink_ok h
    refine ⟨fun l' hl' => ?_, fun l' o ho _ _ => ?_⟩
    · have hne : l' ≠ l := by
        rintro rfl
        exact hdir hl'
      show (if l' = l then none else fs.obj l') = some .dir
      rw [if_neg hne, hl']
    · change (if l' = l then none else fs.obj l') = some o at ho
      split_ifs at ho
      exact ho

/-- What `unlink` takes away is what the path names. -/
lemma unlink_kept_iff : Kept fs (orKeep fs (unlink env fs p)) ↔
    (env.refuse fs (.unlink p) = false → ∀ l o, resolve fs false p (comps p) = .ok l →
      fs.obj l = some o → o ≠ .dir → ¬ Owned o) := by
  constructor
  · intro h hr l o hl ho hdir hown
    have hok : unlink env fs p = .ok (fs.remove l) := by
      unfold unlink
      rw [if_neg (by simp [hr]), hl]
      cases o with
      | reg c x => simp [ho]
      | lnk t => simp [ho]
      | dir => exact absurd rfl hdir
    have hlost := h l o ho hown
    rw [hok] at hlost
    simp [orKeep] at hlost
  · intro h
    cases hok : unlink env fs p with
    | error e => exact .refl fs
    | ok fs' =>
      have hr : env.refuse fs (.unlink p) = false := by
        unfold unlink at hok
        split_ifs at hok with hr
        simpa using hr
      obtain ⟨l, hl, -, hdir, rfl⟩ := unlink_ok hok
      intro l' o ho hown
      have hne : l' ≠ l := by
        rintro rfl
        refine h hr l' o hl ho ?_ hown
        rintro rfl
        exact hdir ho
      show (if l' = l then none else fs.obj l') = some o
      rw [if_neg hne, ho]

lemma symlink_frame (fs : Fs) (p : Path) (ht : storeDir <+: target) :
    Tame fs (orKeep fs (symlink env fs target p)) ∧ Kept fs (orKeep fs (symlink env fs target p)) := by
  cases h : symlink env fs target p with
  | error e => exact ⟨.refl fs, .refl fs⟩
  | ok fs' =>
    obtain ⟨l, -, hnone, rfl⟩ := symlink_ok h
    have hne : ∀ l' o, fs.obj l' = some o → l' ≠ l := by
      rintro l' o ho rfl
      rw [hnone] at ho
      cases ho
    refine ⟨⟨fun l' hl' => ?_, fun l' o ho hown _ => ?_⟩, fun l' o ho _ => ?_⟩
    · show (if l' = l then _ else fs.obj l') = _
      rw [if_neg (hne l' _ hl'), hl']
    · change (if l' = l then some (Obj.lnk target) else fs.obj l') = some o at ho
      split_ifs at ho with hl
      · obtain rfl := Option.some.inj ho
        exact absurd ht hown
      · exact ho
    · show (if l' = l then _ else fs.obj l') = _
      rw [if_neg (hne l' o ho), ho]

/-- `teardown_file` removes a link into the store, or nothing. -/
lemma teardownFile_cases (env : Posix.Env) (fs : Fs) (p : Path) : teardownFile env fs p = fs ∨
    ∃ l target, resolve fs false p (comps p) = .ok l ∧ fs.obj l = some (.lnk target) ∧
      storeDir <+: target ∧ teardownFile env fs p = orKeep fs (unlink env fs p) := by
  unfold teardownFile
  split
  · exact .inl rfl
  next l hl =>
    split
    next target hobj =>
      split_ifs with hstore
      · exact .inr ⟨l, target, hl, hobj, List.isPrefixOf_iff_prefix.1 hstore, rfl⟩
      · exact .inl rfl
    next => exact .inl rfl

lemma teardownFile_frame (fs : Fs) (p : Path) :
    Tame fs (teardownFile env fs p) ∧ Kept fs (teardownFile env fs p) := by
  rcases teardownFile_cases env fs p with hsame | ⟨l, target, hl, hobj, hstore, hdone⟩
  · rw [hsame]
    exact ⟨.refl fs, .refl fs⟩
  · rw [hdone]
    refine ⟨unlink_tame fs p, unlink_kept_iff.2 fun _ l' o hl' ho _ hown => ?_⟩
    obtain rfl : l = l' := Except.ok.inj (hl.symm.trans hl')
    obtain rfl := Option.some.inj (hobj.symm.trans ho)
    exact hown hstore

end Steps

/-! ### What a run keeps -/

section Runs
variable {env : Posix.Env} {fs : Fs} {user : User} {w : World} {gen : List GenPkg}

/-- Every link the farm makes leads into the store. -/
def FarmStep.IntoStore : FarmStep → Prop
  | .create target _ => storeDir <+: target
  | .teardown _ => True

lemma step_tame {s : FarmStep} (hs : s.IntoStore) : Tame fs (s.run env fs) := by
  cases s with
  | create target p =>
    show Tame fs (symlinkCreate env fs target p)
    have hmade : Tame fs (makeParent env fs p).1 := (makeParent_frame fs p).1
    unfold symlinkCreate
    dsimp only
    split_ifs with h
    · exact hmade.trans ((unlink_tame _ p).trans (symlink_frame _ p hs).1)
    · exact hmade
  | teardown p => exact (teardownFile_frame fs p).1

/-- **A step keeps what is the user's exactly if** its `unlink` spares it. -/
lemma step_kept_iff {s : FarmStep} (hs : s.IntoStore) : Kept fs (s.run env fs) ↔ Spares env fs s := by
  cases s with
  | create target p =>
    show Kept fs (symlinkCreate env fs target p) ↔ (_ → _)
    obtain ⟨hmade, hkept⟩ : Tame fs (makeParent env fs p).1 ∧ Kept fs (makeParent env fs p).1 :=
      makeParent_frame fs p
    unfold symlinkCreate
    dsimp only
    split_ifs with h
    · set cleared := orKeep (makeParent env fs p).1 (unlink env (makeParent env fs p).1 p) with hcleared
      have htame : Tame (makeParent env fs p).1 cleared := unlink_tame _ p
      obtain ⟨htame', hkept'⟩ : Tame cleared (orKeep cleared (symlink env cleared target p)) ∧
          Kept cleared (orKeep cleared (symlink env cleared target p)) := symlink_frame cleared p hs
      rw [← unlink_kept_iff, ← hcleared]
      constructor
      · intro hall _
        exact (hall.rest hmade (htame.trans htame')).first htame htame'
      · intro hcl
        exact hkept.trans ((hcl h).trans hkept')
    · exact iff_of_true hkept fun h' => absurd h' h
  | teardown p => exact iff_of_true (teardownFile_frame fs p).2 trivial

lemma intoStore_of_mem_farmLinks {l : Path × Path} (h : l ∈ farmLinks user w gen) : storeDir <+: l.2 := by
  obtain ⟨path, -, hl⟩ := List.mem_flatMap.1 h
  obtain ⟨rel, hrel, hl⟩ := List.mem_filterMap.1 hl
  obtain ⟨link, -, rfl⟩ := Option.map_eq_some_iff.1 hl
  unfold packageFiles at hrel
  cases hn : w.store.keys.find? fun n => decide (storePath n = path) with
  | none => simp [hn] at hrel
  | some n =>
    have hpath : storePath n = path := by simpa using List.find?_some hn
    show storeDir <+: path ++ ascii "/" ++ rel
    rw [← hpath, storePath, List.append_assoc, List.append_assoc]
    exact List.prefix_append storeDir _

lemma intoStore_of_mem_steps {call : FarmCall} {s : FarmStep} (h : s ∈ call.steps) : s.IntoStore := by
  have hteardown : ∀ user w gen, s ∈ teardownSteps user w gen → s.IntoStore := by
    intro user w gen hs
    obtain ⟨l, -, rfl⟩ := List.mem_map.1 hs
    trivial
  cases call with
  | build user w gen prevGen =>
    rcases List.mem_append.1 h with hs | hs
    · exact hteardown _ _ _ hs
    · obtain ⟨l, hl, rfl⟩ := List.mem_map.1 hs
      exact intoStore_of_mem_farmLinks hl
  | teardown user w gen => exact hteardown _ _ _ h

lemma run_tame {steps : List FarmStep} (h : ∀ s ∈ steps, s.IntoStore) :
    Tame fs (steps.foldl (FarmStep.run env) fs) := by
  induction steps generalizing fs with
  | nil => exact .refl fs
  | cons s steps ih =>
    have hs : s.IntoStore := h s List.mem_cons_self
    exact (step_tame hs).trans (ih fun s' hs' => h s' (List.mem_cons_of_mem _ hs'))

lemma run_kept_iff {steps : List FarmStep} (h : ∀ s ∈ steps, s.IntoStore) :
    Kept fs (steps.foldl (FarmStep.run env) fs) ↔ AtEach (FarmStep.run env) (Spares env) fs steps := by
  induction steps generalizing fs with
  | nil => exact iff_of_true (.refl fs) trivial
  | cons s steps ih =>
    have hs : s.IntoStore := h s List.mem_cons_self
    have hsteps : ∀ s' ∈ steps, s'.IntoStore := fun s' hs' => h s' (List.mem_cons_of_mem _ hs')
    rw [List.foldl_cons, atEach_cons, ← step_kept_iff hs, ← ih hsteps]
    constructor
    · intro hall
      exact ⟨hall.first (step_tame hs) (run_tame hsteps), hall.rest (step_tame hs) (run_tame hsteps)⟩
    · rintro ⟨hfirst, hrest⟩
      exact hfirst.trans hrest

end Runs

def toolName : StoreName := ⟨ascii "0-tool-1", by decide +kernel⟩

/-- `bin/x`. -/
def toolTree : FileTree := .directory [(ascii "bin", .directory [(ascii "x", .regular (ascii "theirs") true)])]

def toolWorld : World := { World.fresh with store := AList.singleton toolName ⟨toolTree, true⟩ }

/-- A home with an `x` of its own in `.local/bin`, next to the store. -/
def ownX : List (Loc × Obj) :=
  [([], .dir), ([ascii "h"], .dir), ([ascii "h", ascii ".local"], .dir),
    ([ascii "h", ascii ".local", ascii "bin"], .dir),
    ([ascii "h", ascii ".local", ascii "bin", ascii "x"], .reg (ascii "mine") true),
    ([ascii "nix"], .dir), ([ascii "nix", ascii "store"], .dir),
    ([ascii "nix", ascii "store", toolName.val], .dir),
    ([ascii "nix", ascii "store", toolName.val, ascii "bin"], .dir),
    ([ascii "nix", ascii "store", toolName.val, ascii "bin", ascii "x"], .reg (ascii "theirs") true)]

def ownXFs : Fs := ⟨fun l => ownX.lookup l, [], []⟩

end Two09.Farm
