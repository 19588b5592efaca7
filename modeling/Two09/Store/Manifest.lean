import Two09.Lib.Chain
import Two09.Store.Path

/-!
# The manifest of a store path

`store_manifest_create`: a walk through the directories below a store path that links up an entry for each thing it
finds. The pointer to the end of the list is passed by value.
-/

namespace Two09.Store

open Two09.Lib Two09.Lib.Posix

/-! ### What is walked -/

/-- What `readlink` can return. -/
structure LinkTarget where
  val : Path
  nonempty : val ≠ []
  short : val.length < pathMax

/-- What stands at a path; the entries of a directory in the order of `readdir`, without `.` and `..`. -/
inductive StoreNode
  | file
  | symlink (target : LinkTarget)
  | directory (entries : List (Name × StoreNode))
  | special

/-- `store_entry_t` -/
structure ManifestEntry where
  path : Path
  symlink : Option Path
  isDir : Bool
  isConfig : Bool
  deriving DecidableEq

/-- `.PKGINFO`, `.INSTALL`, `.MTREE` and `.BUILDINFO` -/
def metadata : List Name := [ascii ".PKGINFO", ascii ".INSTALL", ascii ".MTREE", ascii ".BUILDINFO"]

/-- Files under `etc/` and `usr/share/` are config files. -/
def isConfig (rel : Path) : Bool := (ascii "etc/").isPrefixOf rel || (ascii "usr/share/").isPrefixOf rel

/-- The entry for what stands at a relative path, if it gets one. -/
def entryOf (rel : Path) (name : Name) : StoreNode → Option ManifestEntry
  | .directory _ => some ⟨rel, none, true, isConfig rel⟩
  | .symlink target =>
    let target := target.val.take (pathMax - 1)
    if target = [] then none else some ⟨rel, some target, false, isConfig rel⟩
  | .file => if name ∈ metadata then none else some ⟨rel, none, false, isConfig rel⟩
  | .special => none

/-- The relative path of a child. -/
def relPath (pre : Path) (name : Name) : Path := if pre = [] then name else pre ++ slash :: name

/-- `"%s/%s"` -/
def below (base rel : Path) : Path := base ++ slash :: rel

section Walk
variable (cut : Path → Option StoreNode) (base : Path)

mutual

/-- `walk_dir` of what was found, if it is a directory. -/
def walkBelow (pre : Path) (tail : Slot) (c : Chain ManifestEntry) : StoreNode → Option (Chain ManifestEntry)
  | .directory es => walkDir pre tail c es
  | _ => some c

/-- The loop of `walk_dir`. What `lstat` finds at a path that does not fit and is cut is a parameter; a directory
there is found again at every path below it, so that with anything in it the walk does not end. -/
def walkDir (pre : Path) (tail : Slot) (c : Chain ManifestEntry) :
    List (Name × StoreNode) → Option (Chain ManifestEntry)
  | [] => some c
  | (name, node) :: es =>
    let rel := (relPath pre name).take (pathMax - 1)
    if (below base rel).length < pathMax then
      match entryOf rel name node with
      | none => walkDir pre tail c es
      | some e =>
        (walkBelow rel (some c.cells.length) (c.link tail e) node).bind fun c' =>
          walkDir pre (some c.cells.length) c' es
    else
      match cut ((below base rel).take (pathMax - 1)) with
      | none => walkDir pre tail c es
      | some (.directory (_ :: _)) => none
      | some found =>
        match entryOf rel name found with
        | none => walkDir pre tail c es
        | some e => walkDir pre (some c.cells.length) (c.link tail e) es

end

end Walk

/-- `store_manifest_t` -/
structure StoreManifest where
  storePath : Path
  pkgName : Bytes
  pkgVersion : Bytes
  entries : List ManifestEntry
  entryCount : Nat

/-- `store_manifest_create` of a directory, if it returns. -/
def storeManifestCreate (cut : Path → Option StoreNode) (storePath pkgName pkgVersion : Bytes)
    (es : List (Name × StoreNode)) : Option StoreManifest :=
  let manifest (c : Chain ManifestEntry) : StoreManifest := ⟨storePath, pkgName, pkgVersion, c.toList, c.cells.length⟩
  if storePath.length < pathMax then (walkDir cut storePath [] none .empty es).map manifest
  else
    match cut (storePath.take (pathMax - 1)) with
    | some (.directory (_ :: _)) => none
    | _ => some (manifest .empty)

/-! ### What a manifest is for -/

mutual

/-- The entries for what is below a node. -/
def everythingBelow (pre : Path) : StoreNode → List ManifestEntry
  | .directory es => everything pre es
  | _ => []

/-- An entry for each directory, each link and each file that is not metadata, with its relative path. -/
def everything (pre : Path) : List (Name × StoreNode) → List ManifestEntry
  | [] => []
  | (name, node) :: es =>
    (entryOf (relPath pre name) name node).toList ++ everythingBelow (relPath pre name) node ++ everything pre es

end

/-- The manifest of a directory lists everything in it, each thing once, and counts what it lists. -/
structure StoreManifest.Complete (m : StoreManifest) (es : List (Name × StoreNode)) : Prop where
  counted : m.entries.length = m.entryCount
  listed : m.entries.Perm (everything [] es)

/-- Whatever a path that is cut names, the manifest is returned, and it is complete. -/
def ListsEverything (storePath pkgName pkgVersion : Bytes) (es : List (Name × StoreNode)) : Prop :=
  ∀ cut, ∃ m, storeManifestCreate cut storePath pkgName pkgVersion es = some m ∧ m.Complete es

/-! ### The condition -/

/-- There is something to be listed. -/
def lists (es : List (Name × StoreNode)) : Bool := es.any fun e => (entryOf [] e.1 e.2).isSome

mutual

def LastOnlyBelow : StoreNode → Prop
  | .directory es => LastOnly es
  | _ => True

/-- Nothing to be listed follows a directory with something to be listed in it. -/
def LastOnly : List (Name × StoreNode) → Prop
  | [] => True
  | (_, node) :: es =>
    (match node with
      | .directory sub => lists sub = false ∨ lists es = false
      | _ => True) ∧ LastOnlyBelow node ∧ LastOnly es

end

mutual

def pathsBelow (pre : Path) : StoreNode → List Path
  | .directory es => paths pre es
  | _ => []

/-- The relative paths. -/
def paths (pre : Path) : List (Name × StoreNode) → List Path
  | [] => []
  | (name, node) :: es => relPath pre name :: pathsBelow (relPath pre name) node ++ paths pre es

end

/-- No path is too long. -/
def Fits (storePath : Path) (es : List (Name × StoreNode)) : Prop :=
  storePath.length < pathMax ∧ ∀ rel ∈ paths [] es, (below storePath rel).length < pathMax

/-! ### What is in the list -/

mutual

def linkedBelow (pre : Path) : StoreNode → List ManifestEntry
  | .directory es => linked pre es
  | _ => []

/-- What can be reached from the head in the end: what follows a directory takes the place of what is in it. -/
def linked (pre : Path) : List (Name × StoreNode) → List ManifestEntry
  | [] => []
  | (name, node) :: es =>
    match entryOf (relPath pre name) name node with
    | none => linked pre es
    | some e => e :: if lists es then linked pre es else linkedBelow (relPath pre name) node

end

/-- Induction along directories, with those in them. -/
theorem entries_ind {motive : List (Name × StoreNode) → Prop} (nil : motive [])
    (leaf : ∀ name node es, (∀ sub, node ≠ .directory sub) → motive es → motive ((name, node) :: es))
    (dir : ∀ name sub es, motive sub → motive es → motive ((name, .directory sub) :: es)) : ∀ es, motive es
  | [] => nil
  | (name, .directory sub) :: es => dir name sub es (entries_ind nil leaf dir sub) (entries_ind nil leaf dir es)
  | (name, .file) :: es => leaf name .file es (by rintro sub ⟨⟩) (entries_ind nil leaf dir es)
  | (name, .symlink target) :: es => leaf name (.symlink target) es (by rintro sub ⟨⟩) (entries_ind nil leaf dir es)
  | (name, .special) :: es => leaf name .special es (by rintro sub ⟨⟩) (entries_ind nil leaf dir es)

section
variable {cut : Path → Option StoreNode} {base pre rel : Path} {tail : Slot} {c c' : Chain ManifestEntry}
  {es : List (Name × StoreNode)} {name : Name} {node : StoreNode} {e : ManifestEntry}

lemma isSome_entryOf (rel rel' : Path) (name : Name) (node : StoreNode) :
    (entryOf rel name node).isSome = (entryOf rel' name node).isSome := by
  cases node <;> simp only [entryOf, apply_ite Option.isSome, Option.isSome_some]

lemma lists_cons (rel : Path) : lists ((name, node) :: es) = ((entryOf rel name node).isSome || lists es) := by
  unfold lists
  rw [List.any_cons, isSome_entryOf [] rel]

lemma everythingBelow_of_none (h : entryOf rel name node = none) (pre : Path) : everythingBelow pre node = [] := by
  cases node with
  | directory sub => cases h
  | _ => rfl

/-- Without anything to be listed there are no entries. -/
lemma everything_of_lists_false (h : lists es = false) (pre : Path) : everything pre es = [] := by
  induction es with
  | nil => rfl
  | cons x es ih =>
    obtain ⟨name, node⟩ := x
    rw [lists_cons (relPath pre name), Bool.or_eq_false_iff, Option.isSome_eq_false_iff,
      Option.isNone_iff_eq_none] at h
    rw [everything, h.1, everythingBelow_of_none h.1, ih h.2]
    rfl

/-- There is something to be listed below a node. -/
def listsBelow : StoreNode → Bool
  | .directory sub => lists sub
  | _ => false

/-- What a walk has done to the list; `found` if there was something to be listed. -/
structure Grown (c c' : Chain ManifestEntry) (tail : Slot) (all list : List ManifestEntry) (found : Bool) : Prop where
  cells : c'.cells = c.cells ++ all
  frame : ∀ s, Chain.Below c.cells.length s → s ≠ tail → c'.next s = c.next s
  reads : found = true → c'.Reads tail list
  same : found = false → c' = c

lemma Grown.refl {list : List ManifestEntry} : Grown c c tail [] list false where
  cells := (List.append_nil _).symm
  frame _ _ _ := rfl
  reads h := by cases h
  same _ := rfl

/-- An entry is linked up, then what is below it, then what follows. -/
lemma Grown.cons {c₁ c₂ : Chain ManifestEntry} {all all' list list' : List ManifestEntry} {found found' : Bool}
    (htail : Chain.Below c.cells.length tail)
    (hbelow : Grown (c.link tail e) c₁ (some c.cells.length) all list found) (hlist : found = false → list = [])
    (hrest : Grown c₁ c₂ (some c.cells.length) all' list' found') :
    Grown c c₂ tail (e :: (all ++ all')) (e :: if found' then list' else list) true := by
  have hlen : c.cells.length < c₁.cells.length := by
    rw [hbelow.cells, Chain.cells_link]
    simp
  have hframe : ∀ s, Chain.Below c.cells.length s → c₂.next s = (c.link tail e).next s := by
    intro s hs
    rw [hrest.frame s (hs.mono hlen.le) hs.ne_own, hbelow.frame s (hs.mono (by simp)) hs.ne_own]
  -- from the new cell on
  have hown : c₂.Reads (some c.cells.length) (if found' then list' else list) := by
    cases hfound' : found' with
    | true => exact hrest.reads hfound'
    | false =>
      rw [hrest.same hfound']
      cases hfound : found with
      | true => exact hbelow.reads hfound
      | false =>
        rw [hbelow.same hfound, hlist hfound]
        exact .nil (Chain.next_link_own htail)
  refine ⟨?_, fun s hs hne => ?_, fun _ => ?_, fun h => by cases h⟩
  · rw [hrest.cells, hbelow.cells, Chain.cells_link]
    simp
  · rw [hframe s hs, Chain.next_link_of_ne hs hne]
  · refine .cons ((hframe tail htail).trans Chain.next_link_tail) ?_ hown
    rw [hrest.cells, hbelow.cells, Chain.cells_link]
    simp

lemma take_of_fits (h : (below base rel).length < pathMax) : rel.take (pathMax - 1) = rel := by
  refine List.take_of_length_le ?_
  unfold below at h
  rw [List.length_append, List.length_cons] at h
  omega

/-- Without anything to be listed nothing is linked up. -/
lemma linked_of_lists_false (h : lists es = false) (pre : Path) : linked pre es = [] := by
  induction es with
  | nil => rfl
  | cons x es ih =>
    obtain ⟨name, node⟩ := x
    rw [lists_cons (relPath pre name), Bool.or_eq_false_iff, Option.isSome_eq_false_iff,
      Option.isNone_iff_eq_none] at h
    rw [linked, h.1]
    exact ih h.2

lemma linkedBelow_of_lists_false (h : listsBelow node = false) (pre : Path) : linkedBelow pre node = [] := by
  cases node with
  | directory sub => exact linked_of_lists_false h pre
  | _ => rfl

/-- What a walk along entries does, wherever its tail pointer points to. -/
def Walks (cut : Path → Option StoreNode) (base pre : Path) (es : List (Name × StoreNode)) : Prop :=
  ∀ tail (c : Chain ManifestEntry), Chain.Below c.cells.length tail → ∃ c', walkDir cut base pre tail c es = some c' ∧
    Grown c c' tail (everything pre es) (linked pre es) (lists es)

def WalksBelow (cut : Path → Option StoreNode) (base pre : Path) (node : StoreNode) : Prop :=
  ∀ tail (c : Chain ManifestEntry), Chain.Below c.cells.length tail →
    ∃ c', walkBelow cut base pre tail c node = some c' ∧
      Grown c c' tail (everythingBelow pre node) (linkedBelow pre node) (listsBelow node)

lemma Walks.cons (hfit : (below base (relPath pre name)).length < pathMax)
    (hbelow : WalksBelow cut base (relPath pre name) node) (hrest : Walks cut base pre es) :
    Walks cut base pre ((name, node) :: es) := by
  intro tail c htail
  rw [walkDir]
  simp only [take_of_fits hfit, if_pos hfit]
  rw [everything, linked, lists_cons (relPath pre name)]
  cases hentry : entryOf (relPath pre name) name node with
  | none =>
    obtain ⟨c', hwalk, hgrown⟩ := hrest tail c htail
    refine ⟨c', hwalk, ?_⟩
    rw [everythingBelow_of_none hentry]
    exact hgrown
  | some e =>
    have hown : Chain.Below (c.link tail e).cells.length (some c.cells.length) := Chain.below_own
    obtain ⟨c₁, hwalk₁, hgrown₁⟩ := hbelow (some c.cells.length) (c.link tail e) hown
    have hle : (c.link tail e).cells.length ≤ c₁.cells.length := by
      rw [hgrown₁.cells, List.length_append]
      omega
    obtain ⟨c₂, hwalk₂, hgrown₂⟩ := hrest (some c.cells.length) c₁ (hown.mono hle)
    refine ⟨c₂, ?_, hgrown₁.cons htail (fun h => linkedBelow_of_lists_false h _) hgrown₂⟩
    dsimp only
    rw [hwalk₁]
    exact hwalk₂

/-- **A walk along paths that fit.** -/
lemma walks_of_fits (cut : Path → Option StoreNode) (hfits : ∀ rel ∈ paths pre es, (below base rel).length < pathMax) :
    Walks cut base pre es := by
  induction es using entries_ind generalizing pre with
  | nil => exact fun tail c _ => ⟨c, rfl, .refl⟩
  | leaf name node es hleaf ih =>
    rw [paths] at hfits
    refine .cons (hfits _ List.mem_cons_self) (fun tail c _ => ⟨c, ?_⟩) (ih fun rel hrel => hfits rel ?_)
    · cases node with
      | directory sub => exact absurd rfl (hleaf sub)
      | _ => exact ⟨rfl, .refl⟩
    · exact List.mem_cons_of_mem _ (List.mem_append_right _ hrel)
  | dir name sub es ihsub ih =>
    rw [paths] at hfits
    refine .cons (hfits _ List.mem_cons_self) (ihsub fun rel hrel => hfits rel ?_) (ih fun rel hrel => hfits rel ?_)
    · exact List.mem_cons_of_mem _ (List.mem_append_left _ hrel)
    · exact List.mem_cons_of_mem _ (List.mem_append_right _ hrel)

/-! ### When the list is complete -/

lemma linkedBelow_leaf (h : ∀ sub, node ≠ .directory sub) (pre : Path) : linkedBelow pre node = [] := by
  cases node with
  | directory sub => exact absurd rfl (h sub)
  | _ => rfl

lemma everythingBelow_leaf (h : ∀ sub, node ≠ .directory sub) (pre : Path) : everythingBelow pre node = [] := by
  cases node with
  | directory sub => exact absurd rfl (h sub)
  | _ => rfl

lemma lists_false_of_everything (h : everything pre es = []) : lists es = false := by
  induction es with
  | nil => rfl
  | cons x es ih =>
    obtain ⟨name, node⟩ := x
    rw [everything, List.append_eq_nil_iff, List.append_eq_nil_iff, Option.toList_eq_nil_iff] at h
    rw [lists_cons (relPath pre name), h.1.1, ih h.2]
    rfl

/-- Behind a leaf, what is linked up is what follows. -/
lemma linked_leaf (h : ∀ sub, node ≠ .directory sub) :
    linked pre ((name, node) :: es) = (entryOf (relPath pre name) name node).toList ++ linked pre es := by
  rw [linked, linkedBelow_leaf h]
  cases entryOf (relPath pre name) name node with
  | none => rfl
  | some e =>
    cases hlists : lists es with
    | true => rfl
    | false => rw [linked_of_lists_false hlists, if_neg Bool.false_ne_true]; rfl

lemma linked_sublist (pre : Path) (es : List (Name × StoreNode)) : (linked pre es).Sublist (everything pre es) := by
  induction es using entries_ind generalizing pre with
  | nil => exact List.Sublist.refl _
  | leaf name node es hleaf ih =>
    rw [linked_leaf hleaf, everything, everythingBelow_leaf hleaf, List.append_nil]
    exact (ih pre).append_left _
  | dir name sub es ihsub ih =>
    show (_ :: if lists es = true then linked pre es else linked (relPath pre name) sub).Sublist
      (_ :: (everything (relPath pre name) sub ++ everything pre es))
    refine List.Sublist.cons_cons _ ?_
    split_ifs
    · exact (ih pre).trans (List.sublist_append_right _ _)
    · exact (ihsub _).trans (List.sublist_append_left _ _)

/-- **Nothing is cut off** exactly when what is listed in directories comes last. -/
lemma linked_eq_iff (pre : Path) (es : List (Name × StoreNode)) : linked pre es = everything pre es ↔ LastOnly es := by
  induction es using entries_ind generalizing pre with
  | nil => exact iff_of_true rfl trivial
  | leaf name node es hleaf ih =>
    have hlast : LastOnly ((name, node) :: es) ↔ LastOnly es := by
      cases node with
      | directory sub => exact absurd rfl (hleaf sub)
      | _ => simp [LastOnly, LastOnlyBelow]
    rw [linked_leaf hleaf, everything, everythingBelow_leaf hleaf, List.append_nil, List.append_cancel_left_eq, ih,
      hlast]
  | dir name sub es ihsub ih =>
    have hlast : LastOnly ((name, .directory sub) :: es) ↔
        (lists sub = false ∨ lists es = false) ∧ LastOnly sub ∧ LastOnly es := Iff.rfl
    have hnone : ∀ es, lists es = false → linked pre es = everything pre es := by
      intro es h
      rw [linked_of_lists_false h, everything_of_lists_false h]
    have hshape : linked pre ((name, .directory sub) :: es) = everything pre ((name, .directory sub) :: es) ↔
        (if lists es = true then linked pre es else linked (relPath pre name) sub) =
          everything (relPath pre name) sub ++ everything pre es := List.cons_eq_cons.trans (and_iff_right rfl)
    rw [hshape, hlast]
    cases hes : lists es with
    | true =>
      rw [if_pos rfl]
      constructor
      · intro h
        have hle := (linked_sublist pre es).length_le
        rw [h, List.length_append] at hle
        have hsub : everything (relPath pre name) sub = [] := List.eq_nil_of_length_eq_zero (by omega)
        rw [hsub, List.nil_append] at h
        have hfalse := lists_false_of_everything hsub
        refine ⟨.inl hfalse, (ihsub (relPath pre name)).1 ?_, (ih pre).1 h⟩
        rw [hsub, linked_of_lists_false hfalse]
      · rintro ⟨hfalse | h, -, hes'⟩
        · rw [everything_of_lists_false hfalse, List.nil_append]
          exact (ih pre).2 hes'
        · cases h
    | false =>
      rw [if_neg Bool.false_ne_true, everything_of_lists_false hes, List.append_nil, ihsub]
      exact ⟨fun h => ⟨.inr rfl, h, (ih pre).1 (hnone es hes)⟩, fun h => h.2.1⟩

/-! ### Paths that are cut -/

variable (cut base) in
mutual

def shownBelow (pre : Path) : StoreNode → List ManifestEntry
  | .directory es => shown pre es
  | _ => []

/-- The entries that are made when no path that is cut names a directory. -/
def shown (pre : Path) : List (Name × StoreNode) → List ManifestEntry
  | [] => []
  | (name, node) :: es =>
    let rel := (relPath pre name).take (pathMax - 1)
    if (below base rel).length < pathMax then (entryOf rel name node).toList ++ shownBelow rel node ++ shown pre es
    else ((cut ((below base rel).take (pathMax - 1))).bind (entryOf rel name)).toList ++ shown pre es

end

lemma shownBelow_of_none (h : entryOf rel name node = none) (pre : Path) : shownBelow cut base pre node = [] := by
  cases node with
  | directory sub => cases h
  | _ => rfl

/-- A walk makes these entries. -/
lemma walkDir_shown (base : Path) (hcut : ∀ p sub, cut p ≠ some (.directory sub)) (es : List (Name × StoreNode)) :
    ∀ pre tail (c : Chain ManifestEntry), ∃ c', walkDir cut base pre tail c es = some c' ∧
      c'.cells = c.cells ++ shown cut base pre es := by
  have hcons : ∀ name node es,
      (∀ pre tail (c : Chain ManifestEntry), ∃ c', walkBelow cut base pre tail c node = some c' ∧
        c'.cells = c.cells ++ shownBelow cut base pre node) →
      (∀ pre tail (c : Chain ManifestEntry), ∃ c', walkDir cut base pre tail c es = some c' ∧
        c'.cells = c.cells ++ shown cut base pre es) →
      ∀ pre tail (c : Chain ManifestEntry), ∃ c', walkDir cut base pre tail c ((name, node) :: es) = some c' ∧
        c'.cells = c.cells ++ shown cut base pre ((name, node) :: es) := by
    intro name node es hbelow hrest pre tail c
    rw [walkDir, shown]
    split_ifs with hfit
    · cases hentry : entryOf ((relPath pre name).take (pathMax - 1)) name node with
      | none =>
        rw [shownBelow_of_none hentry]
        exact hrest pre tail c
      | some e =>
        obtain ⟨c₁, hwalk₁, hcells₁⟩ := hbelow ((relPath pre name).take (pathMax - 1)) (some c.cells.length) (c.link tail e)
        obtain ⟨c₂, hwalk₂, hcells₂⟩ := hrest pre (some c.cells.length) c₁
        refine ⟨c₂, ?_, ?_⟩
        · dsimp only
          rw [hwalk₁]
          exact hwalk₂
        · rw [hcells₂, hcells₁]
          simp
    · cases hfound : cut ((below base ((relPath pre name).take (pathMax - 1))).take (pathMax - 1)) with
      | none => exact hrest pre tail c
      | some found =>
        cases found with
        | directory sub => exact absurd hfound (hcut _ sub)
        | _ =>
          dsimp only
          rw [Option.bind_some]
          cases entryOf ((relPath pre name).take (pathMax - 1)) name _ with
          | none => exact hrest pre tail c
          | some e =>
            obtain ⟨c₂, hwalk₂, hcells₂⟩ := hrest pre (some c.cells.length) (c.link tail e)
            refine ⟨c₂, hwalk₂, ?_⟩
            rw [hcells₂]
            simp
  induction es using entries_ind with
  | nil => exact fun pre tail c => ⟨c, rfl, (List.append_nil _).symm⟩
  | leaf name node es hleaf ih =>
    refine hcons name node es (fun pre tail c => ⟨c, ?_⟩) ih
    cases node with
    | directory sub => exact absurd rfl (hleaf sub)
    | _ => exact ⟨rfl, (List.append_nil _).symm⟩
  | dir name sub es ihsub ih => exact hcons name (.directory sub) es ihsub ih

/-- A link that a path that is cut might name. -/
def stray : StoreNode := .symlink ⟨ascii "x", by decide, by decide⟩

/-- A path is cut no matter how often. -/
lemma take_eq_of_fits (h : (below base (rel.take (pathMax - 1))).length < pathMax) : rel.take (pathMax - 1) = rel := by
  refine List.take_of_length_le ?_
  unfold below at h
  rw [List.length_append, List.length_cons, List.length_take] at h
  omega

/-- No more entries are made when paths that are cut name nothing, and as many only when no path is cut. -/
def CutMatters (base pre : Path) (es : List (Name × StoreNode)) : Prop :=
  (shown (fun _ => none) base pre es).length ≤ (shown (fun _ => some stray) base pre es).length ∧
    ((shown (fun _ => none) base pre es).length = (shown (fun _ => some stray) base pre es).length →
      ∀ rel ∈ paths pre es, (below base rel).length < pathMax)

def CutMattersBelow (base pre : Path) (node : StoreNode) : Prop :=
  (shownBelow (fun _ => none) base pre node).length ≤ (shownBelow (fun _ => some stray) base pre node).length ∧
    ((shownBelow (fun _ => none) base pre node).length = (shownBelow (fun _ => some stray) base pre node).length →
      ∀ rel ∈ pathsBelow pre node, (below base rel).length < pathMax)

lemma CutMatters.cons (hbelow : CutMattersBelow base (relPath pre name) node) (hrest : CutMatters base pre es) :
    CutMatters base pre ((name, node) :: es) := by
  obtain ⟨hle₁, heq₁⟩ := hbelow
  obtain ⟨hle₂, heq₂⟩ := hrest
  unfold CutMatters
  rw [shown, shown, paths]
  by_cases hfit : (below base ((relPath pre name).take (pathMax - 1))).length < pathMax
  · rw [if_pos hfit, if_pos hfit, take_eq_of_fits hfit]
    simp only [List.length_append]
    refine ⟨by omega, fun heq rel hrel => ?_⟩
    rcases List.mem_cons.1 hrel with rfl | hrel
    · rwa [take_eq_of_fits hfit] at hfit
    rcases List.mem_append.1 hrel with hrel | hrel
    · exact heq₁ (by omega) rel hrel
    · exact heq₂ (by omega) rel hrel
  · -- the link is listed
    rw [if_neg hfit, if_neg hfit]
    have hstray : ∀ rel : Path, (entryOf rel name stray).toList.length = 1 := fun rel => rfl
    simp only [List.length_append, Option.bind_some, Option.bind_none, Option.toList_none, List.length_nil, hstray]
    exact ⟨by omega, fun heq => by omega⟩

lemma cutMatters (base pre : Path) (es : List (Name × StoreNode)) : CutMatters base pre es := by
  induction es using entries_ind generalizing pre with
  | nil => exact ⟨le_rfl, fun _ rel hrel => by cases hrel⟩
  | leaf name node es hleaf ih =>
    refine .cons ?_ (ih pre)
    cases node with
    | directory sub => exact absurd rfl (hleaf sub)
    | _ => exact ⟨le_rfl, fun _ rel hrel => by cases hrel⟩
  | dir name sub es ihsub ih => exact .cons (ihsub _) (ih pre)

/-! ### When a manifest is complete -/

/-- What is returned when all paths fit. -/
lemma storeManifestCreate_of_fits {storePath : Path} (h : Fits storePath es) (cut : Path → Option StoreNode)
    (pkgName pkgVersion : Bytes) : storeManifestCreate cut storePath pkgName pkgVersion es =
      some ⟨storePath, pkgName, pkgVersion, linked [] es, (everything [] es).length⟩ := by
  obtain ⟨c, hwalk, hgrown⟩ := walks_of_fits cut h.2 none .empty (Chain.below_head _)
  have hcells : c.cells = everything [] es := hgrown.cells
  have hlist : c.toList = linked [] es := by
    cases hfound : lists es with
    | true => exact (hgrown.reads hfound).toList (hcells ▸ (linked_sublist [] es).length_le)
    | false =>
      rw [hgrown.same hfound, linked_of_lists_false hfound]
      rfl
  unfold storeManifestCreate
  rw [if_pos h.1, hwalk, Option.map_some, hlist, hcells]

/-- How many entries a manifest counts when no path that is cut names a directory. -/
lemma entryCount_of_shown {storePath : Path} (hcut : ∀ p sub, cut p ≠ some (.directory sub))
    (hlen : storePath.length < pathMax) {pkgName pkgVersion : Bytes} {m : StoreManifest}
    (hm : storeManifestCreate cut storePath pkgName pkgVersion es = some m) :
    m.entryCount = (shown cut storePath [] es).length := by
  obtain ⟨c, hwalk, hcells⟩ := walkDir_shown storePath hcut es [] none .empty
  unfold storeManifestCreate at hm
  rw [if_pos hlen, hwalk] at hm
  obtain rfl := Option.some.inj hm
  show c.cells.length = _
  rw [hcells]
  rfl

/-- **The manifest of a directory lists everything** exactly when all its paths fit and, in the order of `readdir`,
nothing to be listed follows a directory with something to be listed in it. -/
theorem listsEverything_iff (storePath pkgName pkgVersion : Bytes) (es : List (Name × StoreNode)) :
    ListsEverything storePath pkgName pkgVersion es ↔ Fits storePath es ∧ LastOnly es := by
  constructor
  · intro h
    have hlen : storePath.length < pathMax := by
      by_contra hlong
      obtain ⟨m, hm, -⟩ := h fun _ => some (.directory [([], .file)])
      unfold storeManifestCreate at hm
      rw [if_neg hlong] at hm
      cases hm
    have hcount : ∀ cut, (∀ p sub, cut p ≠ some (StoreNode.directory sub)) →
        (shown cut storePath [] es).length = (everything [] es).length := by
      intro cut hcut
      obtain ⟨m, hm, hcomplete⟩ := h cut
      rw [← entryCount_of_shown hcut hlen hm, ← hcomplete.counted]
      exact hcomplete.listed.length_eq
    have hfits : Fits storePath es := by
      refine ⟨hlen, (cutMatters storePath [] es).2 ?_⟩
      rw [hcount _ (by rintro p sub ⟨⟩), hcount _ (by rintro p sub ⟨⟩)]
    refine ⟨hfits, ?_⟩
    obtain ⟨m, hm, hcomplete⟩ := h fun _ => none
    rw [storeManifestCreate_of_fits hfits] at hm
    obtain rfl := Option.some.inj hm
    exact (linked_eq_iff [] es).1 ((linked_sublist [] es).eq_of_length hcomplete.counted)
  · rintro ⟨hfits, hlast⟩ cut
    refine ⟨_, storeManifestCreate_of_fits hfits cut pkgName pkgVersion, ?_, ?_⟩
    · show (linked [] es).length = _
      rw [(linked_eq_iff [] es).2 hlast]
    · show (linked [] es).Perm _
      rw [(linked_eq_iff [] es).2 hlast]

/-- A directory with a file in it, and a file behind it. -/
def dirThenFile : List (Name × StoreNode) :=
  [(ascii "bin", .directory [(ascii "sh", .file)]), (ascii "readme", .file)]

/-- Two entries are linked up, and three are counted: the file in the directory is not in the list. -/
theorem dirThenFile_not_listed : ¬ ListsEverything (ascii "/nix/store/a") (ascii "a") (ascii "1") dirThenFile := by
  intro h
  obtain ⟨m, hm, hcomplete⟩ := h fun _ => none
  have hcreated : (storeManifestCreate (fun _ => none) (ascii "/nix/store/a") (ascii "a") (ascii "1") dirThenFile).map
      (fun m => (m.entries.length, m.entryCount)) = some (2, 3) := by decide +kernel
  rw [hm] at hcreated
  have hcounted := hcomplete.counted
  have hpair := Option.some.inj hcreated
  rw [(Prod.mk.inj hpair).1, (Prod.mk.inj hpair).2] at hcounted
  exact absurd hcounted (by decide)

end

end Two09.Store
