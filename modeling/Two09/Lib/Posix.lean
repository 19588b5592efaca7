import Two09.Lib.Bytes

/-!
# A POSIX file system

Objects at physical locations, path resolution with symbolic links, and the calls that change the
tree. A `Fs` keeps a journal of the locations that calls created, overwrote, changed or removed,
so that a confinement property can be stated about it.

Resolution follows `path_resolution(7)`: empty components are skipped, a trailing slash acts as a
final `.`, a link met before the last component is always followed, and one at the last component
only when the call says so.
-/

namespace Two09.Lib.Posix

open Two09.Lib

/-- A file name: one component of a path. -/
abbrev Name := Bytes

/-- A path as passed to a call. -/
abbrev Path := Bytes

/-- A physical location: the names from the root down, with no link among them. -/
abbrev Loc := List Name

/-- `PATH_MAX`, counting the terminating NUL. -/
def pathMax : Nat := 4096

/-- `NAME_MAX`. -/
def nameMax : Nat := 255

/-- How many links one resolution may follow before it fails with `ELOOP`. -/
def maxSymlinks : Nat := 40

def slash : UInt8 := 47

def dot : Name := [46]

def dotdot : Name := [46, 46]

/-- What a location holds. Of the mode only the owner's execute bit of a regular file is kept. -/
inductive Obj
  | reg (contents : Bytes) (exec : Bool)
  | lnk (target : Bytes)
  | dir
  deriving DecidableEq, Repr

inductive Errno
  | ENOENT
  | ENOTDIR
  | EISDIR
  | EEXIST
  | ELOOP
  | ENAMETOOLONG
  | EACCES
  deriving DecidableEq, Repr

structure Fs where
  obj : Loc → Option Obj
  cwd : Loc
  /-- the locations touched so far, the latest first -/
  touched : List Loc

def IsLink (obj : Loc → Option Obj) (l : Loc) : Prop := ∃ t, obj l = some (.lnk t)

/-! ### Paths -/

/-- The names of a path, empty components skipped. -/
def names (p : Path) : List Name := (p.splitOn slash).filter (· ≠ [])

/-- The components resolution walks: the names, and a final `.` for a trailing slash. -/
def comps (p : Path) : List Name :=
  names p ++ if p.getLast? = some slash then [dot] else []

/-- Where the walk of `p` starts. -/
def base (cwd : Loc) (p : Path) : Loc := if p.head? = some slash then [] else cwd

/-- `snprintf(child, …, "%s/%s", p, n)`. -/
def join (p : Path) (n : Name) : Path := p ++ slash :: n

lemma names_join (p : Path) (n : Name) : names (join p n) = names p ++ names n := by
  simp [names, join, List.splitOn_append_cons_self]

lemma names_name {n : Name} (hs : slash ∉ n) (hn : n ≠ []) : names n = [n] := by
  simp [names, List.splitOn_eq_singleton hs, hn]

@[simp] lemma names_nil : names [] = [] := by
  simp [names]

lemma getLast?_join (p : Path) {n : Name} (hs : slash ∉ n) :
    (join p n).getLast? = some slash ↔ n = [] := by
  cases n with
  | nil => simp [join]
  | cons c cs =>
    have hlast : (join p (c :: cs)).getLast? = (c :: cs).getLast? := by
      simp [join, List.getLast?_append, List.getLast?_cons]
    rw [hlast]
    constructor
    · intro h
      exact absurd (List.mem_of_getLast? h) hs
    · intro h
      cases h

lemma comps_join (p : Path) {n : Name} (hs : slash ∉ n) (hn : n ≠ []) :
    comps (join p n) = names p ++ [n] := by
  have h : ¬ (join p n).getLast? = some slash := fun h => hn ((getLast?_join p hs).1 h)
  simp [comps, h, names_join, names_name hs hn]

lemma comps_join_nil (p : Path) : comps (join p []) = names p ++ [dot] := by
  have h : (join p []).getLast? = some slash := (getLast?_join p (by simp)).2 rfl
  simp [comps, h, names_join]

lemma base_join (cwd : Loc) {p : Path} (n : Name) (hp : p ≠ []) :
    base cwd (join p n) = base cwd p := by
  cases p with
  | nil => exact absurd rfl hp
  | cons c cs => simp [base, join]

lemma length_join (p : Path) (n : Name) : (join p n).length = p.length + 1 + n.length := by
  simp [join]; omega

/-- A name a directory entry can have. -/
structure ValidName (n : Name) : Prop where
  nonempty : n ≠ []
  length_le : n.length ≤ nameMax
  noSlash : slash ∉ n
  noNul : (0 : UInt8) ∉ n
  notDot : n ≠ dot
  notDotdot : n ≠ dotdot

/-! ### Resolution -/

/-- Walks the components from `cur`. A link that has to be followed is handed to `jump`, with the
directory it stands in, its target and the components still to come. -/
def walkWith (obj : Loc → Option Obj) (follow : Bool)
    (jump : Loc → Bytes → List Name → Except Errno Loc) : Loc → List Name → Except Errno Loc
  | cur, [] => .ok cur
  | cur, c :: cs =>
    if obj cur ≠ some .dir then .error .ENOTDIR
    else if c = dot then walkWith obj follow jump cur cs
    else if c = dotdot then walkWith obj follow jump cur.dropLast cs
    else if nameMax < c.length then .error .ENAMETOOLONG
    else match obj (cur ++ [c]) with
      | none => if cs = [] then .ok (cur ++ [c]) else .error .ENOENT
      | some (.lnk t) =>
        if cs = [] ∧ follow = false then .ok (cur ++ [c]) else jump cur t cs
      | some _ => walkWith obj follow jump (cur ++ [c]) cs

/-- Resolution with at most the given number of links followed. -/
def walk (obj : Loc → Option Obj) (follow : Bool) : Nat → Loc → List Name → Except Errno Loc
  | 0 => walkWith obj follow fun _ _ _ => .error .ELOOP
  | n + 1 => walkWith obj follow fun cur t cs => walk obj follow n (base cur t) (comps t ++ cs)

/-- The location a path names. The last component may be missing; everything before it exists. -/
def resolve (fs : Fs) (follow : Bool) (p : Path) (cs : List Name) : Except Errno Loc :=
  if p = [] then .error .ENOENT
  else if pathMax ≤ p.length then .error .ENAMETOOLONG
  else walk fs.obj follow maxSymlinks (base fs.cwd p) cs

/-- A component that is looked up as a name. -/
structure Plain (c : Name) : Prop where
  not_dot : c ≠ dot
  not_dotdot : c ≠ dotdot
  length_le : c.length ≤ nameMax

/-- The successful walks, as a relation: one rule for each way a component can go. -/
inductive Walks (obj : Loc → Option Obj) (follow : Bool) : Nat → Loc → List Name → Loc → Prop
  | done {n cur} : Walks obj follow n cur [] cur
  | self {n cur cs loc} : obj cur = some .dir → Walks obj follow n cur cs loc →
      Walks obj follow n cur (dot :: cs) loc
  | parent {n cur cs loc} : obj cur = some .dir → Walks obj follow n cur.dropLast cs loc →
      Walks obj follow n cur (dotdot :: cs) loc
  | missing {n cur c} : obj cur = some .dir → Plain c → obj (cur ++ [c]) = none →
      Walks obj follow n cur [c] (cur ++ [c])
  | keep {n cur c} : obj cur = some .dir → Plain c → IsLink obj (cur ++ [c]) → follow = false →
      Walks obj follow n cur [c] (cur ++ [c])
  | jump {n cur c cs loc t} : obj cur = some .dir → Plain c → obj (cur ++ [c]) = some (.lnk t) →
      ¬ (cs = [] ∧ follow = false) → Walks obj follow n (base cur t) (comps t ++ cs) loc →
      Walks obj follow (n + 1) cur (c :: cs) loc
  | enter {n cur c cs loc o} : obj cur = some .dir → Plain c → obj (cur ++ [c]) = some o →
      (∀ t, o ≠ .lnk t) → Walks obj follow n (cur ++ [c]) cs loc →
      Walks obj follow n cur (c :: cs) loc

section
variable {obj obj' : Loc → Option Obj} {follow : Bool} {cur d loc : Loc} {cs : List Name} {n : Nat}

/-- One step of the walk, whatever the budget. -/
lemma walk_cons (c : Name) :
    walk obj follow n cur (c :: cs) =
      if obj cur ≠ some .dir then .error .ENOTDIR
      else if c = dot then walk obj follow n cur cs
      else if c = dotdot then walk obj follow n cur.dropLast cs
      else if nameMax < c.length then .error .ENAMETOOLONG
      else match obj (cur ++ [c]) with
        | none => if cs = [] then .ok (cur ++ [c]) else .error .ENOENT
        | some (.lnk t) =>
          if cs = [] ∧ follow = false then .ok (cur ++ [c])
          else match n with
            | 0 => .error .ELOOP
            | m + 1 => walk obj follow m (base cur t) (comps t ++ cs)
        | some _ => walk obj follow n (cur ++ [c]) cs := by
  cases n with
  | zero => rfl
  | succ m => rfl

@[simp] lemma walk_nil : walk obj follow n cur [] = .ok cur := by
  cases n with
  | zero => rfl
  | succ m => rfl

lemma Walks.walk_eq (h : Walks obj follow n cur cs loc) : walk obj follow n cur cs = .ok loc := by
  induction h with
  | done => exact walk_nil
  | self hdir _ ih => rw [walk_cons, if_neg (by simpa using hdir), if_pos rfl, ih]
  | parent hdir _ ih =>
    rw [walk_cons, if_neg (by simpa using hdir), if_neg (by decide), if_pos rfl, ih]
  | missing hdir hc hnone =>
    rw [walk_cons, if_neg (by simpa using hdir), if_neg hc.not_dot, if_neg hc.not_dotdot,
      if_neg (by have := hc.length_le; omega), hnone]
    rfl
  | keep hdir hc hlink hf =>
    obtain ⟨t, ht⟩ := hlink
    rw [walk_cons, if_neg (by simpa using hdir), if_neg hc.not_dot, if_neg hc.not_dotdot,
      if_neg (by have := hc.length_le; omega), ht]
    simp [hf]
  | jump hdir hc ht hlast _ ih =>
    rw [walk_cons, if_neg (by simpa using hdir), if_neg hc.not_dot, if_neg hc.not_dotdot,
      if_neg (by have := hc.length_le; omega), ht]
    simpa [hlast] using ih
  | @enter n cur c cs loc o hdir hc ho hl _ ih =>
    rw [walk_cons, if_neg (by simpa using hdir), if_neg hc.not_dot, if_neg hc.not_dotdot,
      if_neg (by have := hc.length_le; omega), ho]
    cases o with
    | reg b x => exact ih
    | lnk t => exact absurd rfl (hl t)
    | dir => exact ih

lemma walks_cons_of {c : Name} (h : walk obj follow n cur (c :: cs) = .ok loc)
    (hn : ∀ m < n, ∀ cur' cs', walk obj follow m cur' cs' = .ok loc →
      Walks obj follow m cur' cs' loc)
    (hcs : ∀ cur', walk obj follow n cur' cs = .ok loc → Walks obj follow n cur' cs loc) :
    Walks obj follow n cur (c :: cs) loc := by
  rw [walk_cons] at h
  by_cases hdir : obj cur = some .dir
  swap
  · rw [if_pos hdir] at h
    cases h
  rw [if_neg (by simpa using hdir)] at h
  by_cases hdot : c = dot
  · subst hdot
    exact .self hdir (hcs _ (by simpa using h))
  rw [if_neg hdot] at h
  by_cases hdd : c = dotdot
  · subst hdd
    exact .parent hdir (hcs _ (by simpa using h))
  rw [if_neg hdd] at h
  by_cases hlen : nameMax < c.length
  · rw [if_pos hlen] at h
    cases h
  rw [if_neg hlen] at h
  have hc : Plain c := ⟨hdot, hdd, by omega⟩
  match hobj : obj (cur ++ [c]) with
  | none =>
    by_cases hnil : cs = []
    · subst hnil
      simp only [hobj, if_true, Except.ok.injEq] at h
      exact h ▸ .missing hdir hc hobj
    · simp [hobj, hnil] at h
  | some (.lnk t) =>
    by_cases hlast : cs = [] ∧ follow = false
    · obtain ⟨rfl, hf⟩ := hlast
      simp only [hobj, hf, and_self, if_true, Except.ok.injEq] at h
      exact h ▸ .keep hdir hc ⟨t, hobj⟩ hf
    · simp only [hobj, if_neg hlast] at h
      cases n with
      | zero => cases h
      | succ m => exact .jump hdir hc hobj hlast (hn m (by omega) _ _ h)
  | some (.reg b x) => exact .enter hdir hc hobj (by simp) (hcs _ (by simpa [hobj] using h))
  | some .dir => exact .enter hdir hc hobj (by simp) (hcs _ (by simpa [hobj] using h))

/-- **The walk succeeds exactly on the derivable walks.** -/
lemma walk_eq_ok : walk obj follow n cur cs = .ok loc ↔ Walks obj follow n cur cs loc := by
  refine ⟨fun h => ?_, Walks.walk_eq⟩
  induction n using Nat.strong_induction_on generalizing cur cs with
  | _ n ihn =>
    induction cs generalizing cur with
    | nil =>
      rw [walk_nil] at h
      exact Except.ok.inj h ▸ .done
    | cons c cs ihcs => exact walks_cons_of h (fun m hm _ _ => ihn m hm) fun _ => ihcs

/-- A walk survives the creation of objects, as long as no link appears where it ends. -/
lemma Walks.mono (hsub : ∀ l o, obj l = some o → obj' l = some o)
    (h : Walks obj follow n cur cs loc) (hloc : follow = false ∨ ¬ IsLink obj' loc) :
    Walks obj' follow n cur cs loc := by
  induction h with
  | done => exact .done
  | self hdir _ ih => exact .self (hsub _ _ hdir) (ih hloc)
  | parent hdir _ ih => exact .parent (hsub _ _ hdir) (ih hloc)
  | @missing n cur c hdir hc hnone =>
    match hobj : obj' (cur ++ [c]) with
    | none => exact .missing (hsub _ _ hdir) hc hobj
    | some (.lnk t) =>
      rcases hloc with hf | hl
      · exact .keep (hsub _ _ hdir) hc ⟨t, hobj⟩ hf
      · exact absurd ⟨t, hobj⟩ hl
    | some (.reg b x) => exact .enter (hsub _ _ hdir) hc hobj (by simp) .done
    | some .dir => exact .enter (hsub _ _ hdir) hc hobj (by simp) .done
  | keep hdir hc hlink hf =>
    obtain ⟨t, ht⟩ := hlink
    exact .keep (hsub _ _ hdir) hc ⟨t, hsub _ _ ht⟩ hf
  | jump hdir hc ht hlast _ ih => exact .jump (hsub _ _ hdir) hc (hsub _ _ ht) hlast (ih hloc)
  | enter hdir hc ho hl _ ih => exact .enter (hsub _ _ hdir) hc (hsub _ _ ho) hl (ih hloc)

/-- **A walk to a directory is the first part of every walk that goes on from there.** -/
lemma Walks.append {f : Bool} {rest : List Name} (hrest : rest ≠ [])
    (h : Walks obj true n cur cs d) (hd : obj d = some .dir) :
    ∃ m ≤ n, walk obj f n cur (cs ++ rest) = walk obj f m d rest := by
  induction h with
  | @done n cur => exact ⟨n, le_refl n, rfl⟩
  | @self n cur cs loc hdir _ ih =>
    obtain ⟨m, hm, he⟩ := ih hd
    refine ⟨m, hm, ?_⟩
    rw [← he, List.cons_append, walk_cons, if_neg (by simpa using hdir), if_pos rfl]
  | @parent n cur cs loc hdir _ ih =>
    obtain ⟨m, hm, he⟩ := ih hd
    refine ⟨m, hm, ?_⟩
    rw [← he, List.cons_append, walk_cons, if_neg (by simpa using hdir), if_neg (by decide),
      if_pos rfl]
  | missing hdir hc hnone =>
    rw [hnone] at hd
    cases hd
  | keep hdir hc hlink hf => cases hf
  | @jump n cur c cs loc t hdir hc ht hlast _ ih =>
    obtain ⟨m, hm, he⟩ := ih hd
    refine ⟨m, by omega, ?_⟩
    rw [← he, List.cons_append, walk_cons, if_neg (by simpa using hdir), if_neg hc.not_dot,
      if_neg hc.not_dotdot, if_neg (by have := hc.length_le; omega), ht]
    simp [hrest, List.append_assoc]
  | @enter n cur c cs loc o hdir hc ho hl _ ih =>
    obtain ⟨m, hm, he⟩ := ih hd
    refine ⟨m, hm, ?_⟩
    rw [← he, List.cons_append, walk_cons, if_neg (by simpa using hdir), if_neg hc.not_dot,
      if_neg hc.not_dotdot, if_neg (by have := hc.length_le; omega), ho]
    cases o with
    | reg b x => rfl
    | lnk t => exact absurd rfl (hl t)
    | dir => rfl

/-- **Below a directory, names lead to the location they spell** when no link stands at a proper
prefix, nor, for a walk that follows, at the end. -/
lemma Walks.plain {ns : List Name} (h : Walks obj follow n cur ns loc)
    (hplain : ∀ c ∈ ns, Plain c)
    (hpre : ∀ p, p <+: ns → p ≠ ns → ¬ IsLink obj (cur ++ p))
    (hend : follow = false ∨ ¬ IsLink obj (cur ++ ns)) : loc = cur ++ ns := by
  induction h with
  | done => simp
  | self => exact absurd rfl (hplain _ List.mem_cons_self).not_dot
  | parent => exact absurd rfl (hplain _ List.mem_cons_self).not_dotdot
  | missing => rfl
  | keep => rfl
  | @jump n cur c cs loc t _ _ ht hlast _ _ =>
    by_cases hnil : cs = []
    · subst hnil
      rcases hend with hf | hl
      · exact absurd ⟨rfl, hf⟩ hlast
      · exact absurd ⟨t, ht⟩ hl
    · exact absurd ⟨t, ht⟩ (hpre [c] (by simp) (by simpa using Ne.symm hnil))
  | @enter n cur c cs loc o _ _ _ _ _ ih =>
    rw [ih (fun x hx => hplain x (List.mem_cons_of_mem _ hx)) ?_ (by simpa using hend)]
    · simp
    · intro p hp hne
      have hp' : c :: p <+: c :: cs := (List.cons_prefix_cons).2 ⟨rfl, hp⟩
      simpa using hpre (c :: p) hp' (by simpa using hne)

/-- A missing last component is found missing whether or not links are followed. -/
lemma Walks.followed (h : Walks obj follow n cur cs loc) (hloc : ¬ IsLink obj loc) :
    Walks obj true n cur cs loc := by
  induction h with
  | done => exact .done
  | self hdir _ ih => exact .self hdir (ih hloc)
  | parent hdir _ ih => exact .parent hdir (ih hloc)
  | missing hdir hc hnone => exact .missing hdir hc hnone
  | keep hdir hc hlink hf => exact absurd hlink hloc
  | jump hdir hc ht hlast _ ih => exact .jump hdir hc ht (by simp) (ih hloc)
  | enter hdir hc ho hl _ ih => exact .enter hdir hc ho hl (ih hloc)

/-- Where a walk that follows links ends at an object, one that does not follow the last link ends at one too. -/
lemma Walks.unfollowed {o : Obj} (h : Walks obj true n cur cs loc) (hloc : obj loc = some o) :
    ∃ l, Walks obj false n cur cs l ∧ (obj l).isSome := by
  induction h with
  | @done n cur => exact ⟨cur, .done, Option.isSome_of_eq_some hloc⟩
  | self hdir _ ih =>
    obtain ⟨l, hl, hsome⟩ := ih hloc
    exact ⟨l, .self hdir hl, hsome⟩
  | parent hdir _ ih =>
    obtain ⟨l, hl, hsome⟩ := ih hloc
    exact ⟨l, .parent hdir hl, hsome⟩
  | missing hdir hc hnone =>
    rw [hnone] at hloc
    cases hloc
  | keep hdir hc hlink hf => cases hf
  | @jump n cur c cs loc t hdir hc ht _ _ ih =>
    by_cases hcs : cs = []
    · subst hcs
      exact ⟨cur ++ [c], .keep hdir hc ⟨t, ht⟩ rfl, Option.isSome_of_eq_some ht⟩
    · obtain ⟨l, hl, hsome⟩ := ih hloc
      exact ⟨l, .jump hdir hc ht (fun hlast => hcs hlast.1) hl, hsome⟩
  | enter hdir hc ho hl _ ih =>
    obtain ⟨l, hwalk, hsome⟩ := ih hloc
    exact ⟨l, .enter hdir hc ho hl hwalk, hsome⟩

/-- Without a final `.` the walk goes to the same place when it follows links. -/
lemma Walks.of_dot (h : Walks obj follow n cur (cs ++ [dot]) loc) :
    Walks obj true n cur cs loc := by
  generalize hg : cs ++ [dot] = cs' at h
  induction h generalizing cs with
  | done => simp at hg
  | @self n cur cs' loc hdir h ih =>
    cases cs with
    | nil =>
      obtain rfl : cs' = [] := by simpa using hg.symm
      cases h
      exact .done
    | cons c cs =>
      obtain ⟨rfl, hcs⟩ := List.cons.inj hg
      exact .self hdir (ih hcs)
  | @parent n cur cs' loc hdir _ ih =>
    cases cs with
    | nil => simp [dot, dotdot] at hg
    | cons c cs =>
      obtain ⟨rfl, hcs⟩ := List.cons.inj hg
      exact .parent hdir (ih hcs)
  | @missing n cur c _ hc _ =>
    cases cs with
    | nil => exact absurd (List.cons.inj hg).1.symm hc.not_dot
    | cons c cs => simp at hg
  | @keep n cur c _ hc _ _ =>
    cases cs with
    | nil => exact absurd (List.cons.inj hg).1.symm hc.not_dot
    | cons c cs => simp at hg
  | @jump n cur c cs' loc t hdir hc ht _ _ ih =>
    cases cs with
    | nil => exact absurd (List.cons.inj hg).1.symm hc.not_dot
    | cons c cs =>
      obtain ⟨rfl, hcs⟩ := List.cons.inj hg
      have htail : (comps t ++ cs) ++ [dot] = comps t ++ cs' := by simpa using hcs
      exact .jump hdir hc ht (by simp) (ih htail)
  | @enter n cur c cs' loc o hdir hc ho hl _ ih =>
    cases cs with
    | nil => exact absurd (List.cons.inj hg).1.symm hc.not_dot
    | cons c cs =>
      obtain ⟨rfl, hcs⟩ := List.cons.inj hg
      exact .enter hdir hc ho hl (ih hcs)

/-- A walk that ends with `.` ends at a directory. -/
lemma Walks.dir_of_dot (h : Walks obj follow n cur (cs ++ [dot]) loc) :
    obj loc = some .dir := by
  generalize hg : cs ++ [dot] = cs' at h
  induction h generalizing cs with
  | done => simp at hg
  | @self n cur cs' loc hdir h ih =>
    cases cs with
    | nil =>
      obtain rfl : cs' = [] := by simpa using hg.symm
      cases h
      exact hdir
    | cons c cs => exact ih (List.cons.inj hg).2
  | @parent n cur cs' loc _ _ ih =>
    cases cs with
    | nil => simp [dot, dotdot] at hg
    | cons c cs => exact ih (List.cons.inj hg).2
  | @missing n cur c _ hc _ =>
    cases cs with
    | nil => exact absurd (List.cons.inj hg).1.symm hc.not_dot
    | cons c cs => simp at hg
  | @keep n cur c _ hc _ _ =>
    cases cs with
    | nil => exact absurd (List.cons.inj hg).1.symm hc.not_dot
    | cons c cs => simp at hg
  | @jump n cur c cs' loc t _ hc _ _ _ ih =>
    cases cs with
    | nil => exact absurd (List.cons.inj hg).1.symm hc.not_dot
    | cons c cs =>
      have htail : (comps t ++ cs) ++ [dot] = comps t ++ cs' := by simp [← (List.cons.inj hg).2]
      exact ih htail
  | @enter n cur c cs' loc o _ hc _ _ _ ih =>
    cases cs with
    | nil => exact absurd (List.cons.inj hg).1.symm hc.not_dot
    | cons c cs => exact ih (List.cons.inj hg).2

end

/-! ### Calls -/

/-- The calls the system may refuse for reasons this model leaves out: permissions, quotas, a full
or failing disk. -/
inductive Call
  | mkdir (p : Path)
  | openTrunc (p : Path)
  | write (p : Path)
  | close (p : Path)
  | chmod (p : Path)
  | unlink (p : Path)
  | symlink (p : Path)
  deriving DecidableEq, Repr

/-- Which calls are refused, given everything that happened so far. -/
structure Env where
  refuse : Fs → Call → Bool

/-- The environment that refuses nothing. -/
def Env.calm : Env := ⟨fun _ _ => false⟩

@[simp] lemma Env.calm_refuse (fs : Fs) (c : Call) : Env.calm.refuse fs c = false := rfl

namespace Fs

/-- Puts an object at a location, and journals it. -/
def put (fs : Fs) (l : Loc) (o : Obj) : Fs :=
  { fs with obj := fun l' => if l' = l then some o else fs.obj l', touched := l :: fs.touched }

/-- Removes what a location holds, and journals it. -/
def remove (fs : Fs) (l : Loc) : Fs :=
  { fs with obj := fun l' => if l' = l then none else fs.obj l', touched := l :: fs.touched }

variable (fs : Fs) (l l' : Loc) (o : Obj)

@[simp] lemma put_obj : (fs.put l o).obj l' = if l' = l then some o else fs.obj l' := rfl

@[simp] lemma put_cwd : (fs.put l o).cwd = fs.cwd := rfl

@[simp] lemma put_touched : (fs.put l o).touched = l :: fs.touched := rfl

@[simp] lemma remove_obj : (fs.remove l).obj l' = if l' = l then none else fs.obj l' := rfl

@[simp] lemma remove_cwd : (fs.remove l).cwd = fs.cwd := rfl

@[simp] lemma remove_touched : (fs.remove l).touched = l :: fs.touched := rfl

end Fs

section Calls
variable (env : Env) (fs : Fs)

/-- `mkdir(p, 0755)`: trailing slashes are ignored and a link at the end counts as existing. -/
def mkdir (p : Path) : Except Errno Fs :=
  if env.refuse fs (.mkdir p) then .error .EACCES
  else match resolve fs false p (names p) with
    | .error e => .error e
    | .ok l => if (fs.obj l).isSome then .error .EEXIST else .ok (fs.put l .dir)

/-- `fopen(p, "wb")`: creates a file without execute bits, or truncates the one that is there. -/
def openTrunc (p : Path) : Except Errno (Loc × Fs) :=
  if env.refuse fs (.openTrunc p) then .error .EACCES
  else match resolve fs true p (comps p) with
    | .error e => .error e
    | .ok l => match fs.obj l with
      | none => .ok (l, fs.put l (.reg [] false))
      | some (.reg _ x) => .ok (l, fs.put l (.reg [] x))
      | some (.lnk _) => .error .ELOOP
      | some .dir => .error .EISDIR

/-- Appends to the regular file at an open location. -/
def append (l : Loc) (b : Bytes) : Fs :=
  match fs.obj l with
  | some (.reg c x) => fs.put l (.reg (c ++ b) x)
  | _ => fs

/-- `chmod(p, 0755)`. -/
def chmodExec (p : Path) : Except Errno Fs :=
  if env.refuse fs (.chmod p) then .error .EACCES
  else match resolve fs true p (comps p) with
    | .error e => .error e
    | .ok l => match fs.obj l with
      | none => .error .ENOENT
      | some (.reg c _) => .ok (fs.put l (.reg c true))
      | some o => .ok (fs.put l o)

/-- `unlink(p)`. -/
def unlink (p : Path) : Except Errno Fs :=
  if env.refuse fs (.unlink p) then .error .EACCES
  else match resolve fs false p (comps p) with
    | .error e => .error e
    | .ok l => match fs.obj l with
      | none => .error .ENOENT
      | some .dir => .error .EISDIR
      | some _ => .ok (fs.remove l)

/-- `symlink(target, p)`. -/
def symlink (target : Bytes) (p : Path) : Except Errno Fs :=
  if env.refuse fs (.symlink p) then .error .EACCES
  else if target = [] then .error .ENOENT
  else match resolve fs false p (comps p) with
    | .error e => .error e
    | .ok l => if (fs.obj l).isSome then .error .EEXIST else .ok (fs.put l (.lnk target))

/-- A call whose failure the caller ignores. -/
def orKeep (r : Except Errno Fs) : Fs :=
  match r with
  | .ok fs' => fs'
  | .error _ => fs

end Calls

/-! ### What a successful call has done -/

section CallSpecs
variable {env : Env} {fs fs' : Fs} {p : Path} {l : Loc} {t : Bytes}

lemma resolve_ok {follow : Bool} {cs : List Name} (h : resolve fs follow p cs = .ok l) :
    p ≠ [] ∧ p.length < pathMax ∧
      Walks fs.obj follow maxSymlinks (base fs.cwd p) cs l := by
  unfold resolve at h
  split_ifs at h with h1 h2
  exact ⟨h1, by omega, walk_eq_ok.1 h⟩

lemma mkdir_ok (h : mkdir env fs p = .ok fs') :
    ∃ l, resolve fs false p (names p) = .ok l ∧ fs.obj l = none ∧ fs' = fs.put l .dir := by
  unfold mkdir at h
  split_ifs at h with hr
  cases hl : resolve fs false p (names p) with
  | error e => simp [hl] at h
  | ok l =>
    simp only [hl] at h
    split_ifs at h with hex
    exact ⟨l, rfl, by simpa using hex, (Except.ok.inj h).symm⟩

lemma openTrunc_ok (h : openTrunc env fs p = .ok (l, fs')) :
    resolve fs true p (comps p) = .ok l ∧ fs.obj l ≠ some .dir ∧
      ∃ x, fs' = fs.put l (.reg [] x) := by
  unfold openTrunc at h
  split_ifs at h with hr
  cases hl : resolve fs true p (comps p) with
  | error e => simp [hl] at h
  | ok l' =>
    simp only [hl] at h
    split at h <;> cases h
    · exact ⟨rfl, by simp_all, _, rfl⟩
    · exact ⟨rfl, by simp_all, _, rfl⟩

lemma chmodExec_ok (h : chmodExec env fs p = .ok fs') :
    ∃ l o, resolve fs true p (comps p) = .ok l ∧ fs' = fs.put l o ∧
      ((∃ c x, fs.obj l = some (.reg c x) ∧ o = .reg c true) ∨ fs.obj l = some o) := by
  unfold chmodExec at h
  split_ifs at h with hr
  cases hl : resolve fs true p (comps p) with
  | error e => simp [hl] at h
  | ok l' =>
    simp only [hl] at h
    split at h <;> cases h
    · exact ⟨l', _, rfl, rfl, .inl ⟨_, _, by assumption, rfl⟩⟩
    · exact ⟨l', _, rfl, rfl, .inr (by assumption)⟩

lemma unlink_ok (h : unlink env fs p = .ok fs') :
    ∃ l, resolve fs false p (comps p) = .ok l ∧ fs.obj l ≠ none ∧ fs.obj l ≠ some .dir ∧
      fs' = fs.remove l := by
  unfold unlink at h
  split_ifs at h with hr
  cases hl : resolve fs false p (comps p) with
  | error e => simp [hl] at h
  | ok l' =>
    simp only [hl] at h
    split at h <;> cases h
    exact ⟨l', rfl, by simp_all, by simp_all, rfl⟩

lemma symlink_ok (h : symlink env fs t p = .ok fs') :
    ∃ l, resolve fs false p (comps p) = .ok l ∧ fs.obj l = none ∧ fs' = fs.put l (.lnk t) := by
  unfold symlink at h
  split_ifs at h with hr ht
  cases hl : resolve fs false p (comps p) with
  | error e => simp [hl] at h
  | ok l' =>
    simp only [hl] at h
    split_ifs at h with hex
    exact ⟨l', rfl, by simpa using hex, (Except.ok.inj h).symm⟩

end CallSpecs

end Two09.Lib.Posix
