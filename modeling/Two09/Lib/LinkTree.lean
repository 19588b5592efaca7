import Two09.Lib.Posix

/-!
# Trees of links

Directories, files and symbolic links by their paths, as a program sees them that makes links, with
the directories above them, and removes them again. A path that runs through a link is the kernel's
to follow, and what comes of it is left open.
-/

namespace Two09.Lib

open Posix

/-! ### Ancestors -/

/-- The directories above a path, the root aside, from the top. -/
def ancestors (p : Path) : List Path :=
  p.inits.filter fun q => decide (q ≠ []) && (q ++ [slash]).isPrefixOf p

section Ancestors
variable {p q r : Path}

lemma mem_ancestors : q ∈ ancestors p ↔ q ≠ [] ∧ q ++ [slash] <+: p := by
  simp only [ancestors, List.mem_filter, List.mem_inits, Bool.and_eq_true, decide_eq_true_eq,
    List.isPrefixOf_iff_prefix]
  exact ⟨And.right, fun h => ⟨(List.prefix_append q _).trans h.2, h⟩⟩

lemma ancestors_trans (hr : r ∈ ancestors q) (hq : q ∈ ancestors p) : r ∈ ancestors p := by
  rw [mem_ancestors] at hr hq ⊢
  exact ⟨hr.1, hr.2.trans ((List.prefix_append q _).trans hq.2)⟩

lemma notMem_ancestors_self : p ∉ ancestors p := by
  intro h
  have hlen := (mem_ancestors.1 h).2.length_le
  simp only [List.length_append, List.length_singleton] at hlen
  omega

end Ancestors

/-! ### Trees -/

inductive Node
  | dir
  | file
  | link (target : Path)
  deriving DecidableEq, Repr

/-- What stands at which path. Above each path there are directories. -/
structure LinkTree where
  nodes : AList fun _ : Path => Node
  closed : ∀ p ∈ nodes, ∀ q ∈ ancestors p, nodes.lookup q = some .dir

namespace LinkTree

def empty : LinkTree := ⟨∅, fun p hp => absurd hp (AList.notMem_empty p)⟩

variable (t : LinkTree) (p : Path)

def lookup : Option Node := t.nodes.lookup p

/-- A directory above the path is a link. -/
def passesLink : Bool :=
  (ancestors p).any fun q => match t.lookup q with
    | some (.link _) => true
    | _ => false

/-- A directory above the path is a file. -/
def passesFile : Bool := (ancestors p).any fun q => decide (t.lookup q = some .file)

/-- A link can be made here: no directory is in its place, and no file in that of a directory above. -/
def ready : Bool := !t.passesFile p && decide (t.lookup p ≠ some .dir)

section Closed
variable {t p}
variable {q : Path}

lemma ready_iff : t.ready p = true ↔ t.passesFile p = false ∧ t.lookup p ≠ some .dir := by
  simp [ready]

lemma lookup_of_below (hq : q ∈ ancestors p) (h : t.lookup q ≠ some .dir) : t.lookup p = none := by
  by_contra hp
  exact h (t.closed p (AList.lookup_isSome.1 (Option.isSome_iff_ne_none.2 hp)) q hq)

lemma passesLink_eq_false (h : ∀ q ∈ ancestors p, ∀ target, t.lookup q ≠ some (.link target)) :
    t.passesLink p = false := by
  rw [passesLink, List.any_eq_false]
  intro q hq
  split
  next target heq => exact absurd heq (h q hq target)
  next => exact Bool.false_ne_true

/-- The directories above, made where they are missing. -/
def withDirs (nodes : AList fun _ : Path => Node) (ps : List Path) : AList fun _ : Path => Node :=
  ps.foldl (fun nodes q => nodes.insert q .dir) nodes

lemma lookup_withDirs (nodes : AList fun _ : Path => Node) (ps : List Path) (q : Path) :
    (withDirs nodes ps).lookup q = if q ∈ ps then some .dir else nodes.lookup q := by
  induction ps generalizing nodes with
  | nil => simp [withDirs]
  | cons p ps ih =>
    rw [withDirs, List.foldl_cons, ← withDirs, ih]
    by_cases hps : q ∈ ps
    · rw [if_pos hps, if_pos (List.mem_cons_of_mem _ hps)]
    · by_cases hqp : q = p
      · subst hqp
        rw [if_neg hps, if_pos List.mem_cons_self, AList.lookup_insert]
      · rw [if_neg hps, if_neg (by simp [hqp, hps]), AList.lookup_insert_ne hqp]

end Closed

/-- Makes a link, with the directories above it; what is in its place goes. -/
def put (target : Path) (hp : t.lookup p ≠ some .dir) : LinkTree where
  nodes := (withDirs t.nodes (ancestors p)).insert p (.link target)
  closed q hq r hr := by
    have hanc : ∀ x, x ∈ ancestors p ∨ t.nodes.lookup x = some .dir →
        ((withDirs t.nodes (ancestors p)).insert p (.link target)).lookup x = some .dir := by
      rintro x hx
      have hxp : x ≠ p := by
        rintro rfl
        rcases hx with hx | hx
        · exact notMem_ancestors_self hx
        · exact hp hx
      rw [AList.lookup_insert_ne hxp, lookup_withDirs]
      split_ifs with hmem
      · rfl
      · exact hx.resolve_left hmem
    refine hanc r ?_
    rcases (AList.mem_insert _).1 hq with rfl | hq
    · exact .inl hr
    · rw [← AList.lookup_isSome, lookup_withDirs] at hq
      split_ifs at hq with hmem
      · exact .inl (ancestors_trans hr hmem)
      · exact .inr (t.closed q (AList.lookup_isSome.1 hq) r hr)

/-- Removes what stands at a path, unless it is a directory. -/
def erase (hp : t.lookup p ≠ some .dir) : LinkTree where
  nodes := t.nodes.erase p
  closed q hq r hr := by
    have hold : q ∈ t.nodes := ((AList.mem_erase).1 hq).2
    have hrp : r ≠ p := by
      rintro rfl
      exact hp (t.closed q hold r hr)
    rw [AList.lookup_erase_ne hrp]
    exact t.closed q hold r hr

section Lookup
variable {t p}
variable {target q : Path}

lemma lookup_put (hp : t.lookup p ≠ some .dir) : (t.put p target hp).lookup q =
    if q = p then some (.link target) else if q ∈ ancestors p then some .dir else t.lookup q := by
  show ((withDirs t.nodes (ancestors p)).insert p (.link target)).lookup q = _
  by_cases hqp : q = p
  · subst hqp
    rw [if_pos rfl, AList.lookup_insert]
  · rw [if_neg hqp, AList.lookup_insert_ne hqp, lookup_withDirs]
    rfl

lemma lookup_erase (hp : t.lookup p ≠ some .dir) :
    (t.erase p hp).lookup q = if q = p then none else t.lookup q := by
  show (t.nodes.erase p).lookup q = _
  by_cases hqp : q = p
  · subst hqp
    rw [if_pos rfl, AList.lookup_erase]
  · rw [if_neg hqp, AList.lookup_erase_ne hqp]
    rfl

end Lookup

end LinkTree

/-! ### Making links -/

/-- What the kernel does where a path runs through a link. -/
structure Kernel where
  symlink : LinkTree → Path → Path → LinkTree
  unlink : LinkTree → Path → LinkTree

/-- The kernel that leaves such a path alone. -/
def Kernel.inert : Kernel := ⟨fun t _ _ => t, fun t _ => t⟩

section Make
variable (kernel : Kernel)

/-- `mkdir -p` above a path, `unlink` and `symlink`, whatever fails in it. -/
def makeLink (t : LinkTree) (p target : Path) : LinkTree :=
  if t.passesLink p then kernel.symlink t p target
  else if t.passesFile p then t
  else if hp : t.lookup p = some .dir then t
  else t.put p target hp

/-- Links one after the other, each a path with its target. -/
def makeLinks (t : LinkTree) (links : List (Path × Path)) : LinkTree :=
  links.foldl (fun t l => makeLink kernel t l.1 l.2) t

/-- The target the last one of the links gives a path. -/
def lastTarget (links : List (Path × Path)) (p : Path) : Option Path :=
  (links.reverse.find? (·.1 = p)).map Prod.snd

/-- No link is made above another, nor below one that is there. -/
structure Apart (t : LinkTree) (links : List (Path × Path)) : Prop where
  apart : ∀ l ∈ links, ∀ q ∈ ancestors l.1, ∀ l' ∈ links, l'.1 ≠ q
  unlinked : ∀ l ∈ links, ∀ q ∈ ancestors l.1, ∀ target, t.lookup q ≠ some (.link target)

variable {kernel} {t : LinkTree} {links : List (Path × Path)} {p q target : Path}

lemma Apart.passesLink {l : Path × Path} (h : Apart t links) (hl : l ∈ links) :
    t.passesLink l.1 = false :=
  LinkTree.passesLink_eq_false (h.unlinked l hl)

/-- In an empty tree there are no links to run through. -/
lemma Apart.scratch (h : Apart t links) : Apart .empty links := by
  refine ⟨h.apart, fun l hl q hq target => ?_⟩
  rw [show LinkTree.empty.lookup q = none from rfl]
  simp

lemma lastTarget_concat (links : List (Path × Path)) (l : Path × Path) (p : Path) :
    lastTarget (links ++ [l]) p = if l.1 = p then some l.2 else lastTarget links p := by
  unfold lastTarget
  rw [List.reverse_append, List.reverse_singleton, List.singleton_append]
  by_cases h : l.1 = p
  · rw [List.find?_cons_of_pos (by simpa using h), if_pos h]
    rfl
  · rw [List.find?_cons_of_neg (by simpa using h), if_neg h]

lemma lastTarget_eq_some (h : lastTarget links p = some target) : (p, target) ∈ links := by
  obtain ⟨l, hl, rfl⟩ := Option.map_eq_some_iff.1 h
  have hmem := List.mem_reverse.1 (List.mem_of_find?_eq_some hl)
  obtain rfl : l.1 = p := by simpa using List.find?_some hl
  exact hmem

lemma lastTarget_eq_none : lastTarget links p = none ↔ ∀ l ∈ links, l.1 ≠ p := by
  simp [lastTarget, List.find?_eq_none]

/-- The links that can be made. -/
def readyLinks (t : LinkTree) (links : List (Path × Path)) : List (Path × Path) :=
  links.filter fun l => t.ready l.1

/-- A directory above one of the links. -/
def isAbove (links : List (Path × Path)) (q : Path) : Bool :=
  links.any fun l => decide (q ∈ ancestors l.1)

/-- What making links comes to: a link at each path that is ready for it, and directories above. -/
def Made (t t' : LinkTree) (links : List (Path × Path)) : Prop :=
  ∀ q, t'.lookup q = match lastTarget (readyLinks t links) q with
    | some target => some (.link target)
    | none =>
      if t.lookup q = none ∧ isAbove (readyLinks t links) q = true then some .dir else t.lookup q

lemma mem_readyLinks {l : Path × Path} : l ∈ readyLinks t links ↔ l ∈ links ∧ t.ready l.1 = true :=
  List.mem_filter

lemma readyLinks_concat (t : LinkTree) (links : List (Path × Path)) (l : Path × Path) :
    readyLinks t (links ++ [l]) = readyLinks t links ++ if t.ready l.1 = true then [l] else [] := by
  cases h : t.ready l.1 <;> simp [readyLinks, List.filter_append, h]

lemma Made.nil (t : LinkTree) : Made t t [] := by
  intro q
  simp [readyLinks, lastTarget, isAbove]

/-- Whether a path is ready does not change while other links are made. -/
lemma Made.ready {t' : LinkTree} {l : Path × Path} (h : Made t t' links) (hapart : Apart t (links ++ [l])) :
    t'.passesLink l.1 = false ∧ t'.ready l.1 = t.ready l.1 := by
  have hl : l ∈ links ++ [l] := List.mem_append_right _ List.mem_cons_self
  have hbelow : ∀ q ∈ ancestors l.1, t'.lookup q =
      if t.lookup q = none ∧ isAbove (readyLinks t links) q = true then some .dir
      else t.lookup q := by
    intro q hq
    have hnone : lastTarget (readyLinks t links) q = none :=
      lastTarget_eq_none.2 fun l' hl' =>
        hapart.apart l hl q hq l' (List.mem_append_left _ (mem_readyLinks.1 hl').1)
    rw [h q, hnone]
  refine ⟨LinkTree.passesLink_eq_false fun q hq target => ?_, ?_⟩
  · rw [hbelow q hq]
    split_ifs
    · simp
    · exact hapart.unlinked l hl q hq target
  · have hfile : t'.passesFile l.1 = t.passesFile l.1 := by
      unfold LinkTree.passesFile
      rw [Bool.eq_iff_iff, List.any_eq_true, List.any_eq_true]
      refine exists_congr fun q => and_congr_right fun hq => ?_
      rw [hbelow q hq]
      split_ifs with hdir
      · simp [hdir.1]
      · rfl
    have hself : decide (t'.lookup l.1 ≠ some .dir) = decide (t.lookup l.1 ≠ some .dir) := by
      rw [h l.1]
      cases hlast : lastTarget (readyLinks t links) l.1 with
      | some target =>
        have hmem := mem_readyLinks.1 (lastTarget_eq_some hlast)
        simp [(LinkTree.ready_iff.1 hmem.2).2]
      | none =>
        have hnot : isAbove (readyLinks t links) l.1 = false := by
          rw [isAbove, List.any_eq_false]
          intro l' hl' hanc
          exact hapart.apart l' (List.mem_append_left _ (mem_readyLinks.1 hl').1) l.1
            (of_decide_eq_true hanc) l hl rfl
        simp [hnot]
    rw [LinkTree.ready, LinkTree.ready, hfile, hself]

lemma Made.concat {t' : LinkTree} {l : Path × Path} (h : Made t t' links)
    (hapart : Apart t (links ++ [l])) : Made t (makeLink kernel t' l.1 l.2) (links ++ [l]) := by
  obtain ⟨hlink, hready⟩ := h.ready hapart
  have hl : l ∈ links ++ [l] := List.mem_append_right _ List.mem_cons_self
  unfold makeLink
  rw [hlink, if_neg Bool.false_ne_true]
  intro q
  rw [readyLinks_concat]
  cases hr : t.ready l.1 with
  | false =>
    -- nothing is made
    have hsame : (if t'.passesFile l.1 = true then t' else
        if hp : t'.lookup l.1 = some .dir then t' else t'.put l.1 l.2 hp) = t' := by
      rw [hr] at hready
      split_ifs with hfile hdir
      · rfl
      · rfl
      · exact absurd (LinkTree.ready_iff.2 ⟨Bool.eq_false_of_not_eq_true hfile, hdir⟩) (by simp [hready])
    rw [hsame, if_neg Bool.false_ne_true, List.append_nil]
    exact h q
  | true =>
    obtain ⟨hfile, hdir⟩ := LinkTree.ready_iff.1 (hready.trans hr)
    rw [hfile, if_neg Bool.false_ne_true, dif_neg hdir, LinkTree.lookup_put, if_pos rfl,
      lastTarget_concat]
    by_cases hq : q = l.1
    · rw [if_pos hq, if_pos hq.symm]
    · rw [if_neg hq, if_neg (Ne.symm hq)]
      by_cases hanc : q ∈ ancestors l.1
      · have hnone : lastTarget (readyLinks t links) q = none :=
          lastTarget_eq_none.2 fun l' hl' =>
            hapart.apart l hl q hanc l' (List.mem_append_left _ (mem_readyLinks.1 hl').1)
        have habove : isAbove (readyLinks t links ++ [l]) q = true := by
          simp [isAbove, hanc]
        rw [if_pos hanc, hnone]
        -- what is above a link that can be made is a directory, if anything
        cases hlook : t.lookup q with
        | none => simp [habove]
        | some node =>
          cases node with
          | dir => simp
          | file =>
            have hany : t.passesFile l.1 = true :=
              List.any_eq_true.2 ⟨q, hanc, decide_eq_true hlook⟩
            rw [(LinkTree.ready_iff.1 hr).1] at hany
            cases hany
          | link target => exact absurd hlook (hapart.unlinked l hl q hanc target)
      · have habove : isAbove (readyLinks t links ++ [l]) q = isAbove (readyLinks t links) q := by
          simp [isAbove, hanc]
        rw [if_neg hanc, h q, habove]

/-- **What making links comes to.** -/
theorem makeLinks_made (hapart : Apart t links) : Made t (makeLinks kernel t links) links := by
  induction links using List.reverseRecOn with
  | nil => exact .nil t
  | append_singleton links l ih =>
    rw [makeLinks, List.foldl_append]
    refine Made.concat (ih ⟨fun a ha q hq b hb => ?_, fun a ha => ?_⟩) hapart
    · exact hapart.apart a (List.mem_append_left _ ha) q hq b (List.mem_append_left _ hb)
    · exact hapart.unlinked a (List.mem_append_left _ ha)

end Make

/-! ### Links into a directory -/

section Into
variable (kernel : Kernel) (root : Path)

/-- A link that leads below `root`. -/
def LinksInto (t : LinkTree) (p target : Path) : Prop :=
  t.lookup p = some (.link target) ∧ root <+: target

def linksInto (t : LinkTree) (p : Path) : Bool :=
  match t.lookup p with
  | some (.link target) => root.isPrefixOf target
  | _ => false

/-- Removes what stands at a path if it is a link that leads below `root`. -/
def dropLink (t : LinkTree) (p : Path) : LinkTree :=
  if t.passesLink p then kernel.unlink t p
  else if linksInto root t p then
    if hp : t.lookup p = some .dir then t else t.erase p hp
  else t

def dropLinks (t : LinkTree) (ps : List Path) : LinkTree := ps.foldl (dropLink kernel root) t

/-- Removes the links at the old paths and makes the new ones. -/
def remakeLinks (t : LinkTree) (old : List Path) (links : List (Path × Path)) : LinkTree :=
  makeLinks kernel (dropLinks kernel root t old) links

variable {kernel root} {t t' : LinkTree} {links : List (Path × Path)} {old ps : List Path}
  {p q target : Path}

lemma linksInto_iff : linksInto root t p = true ↔ ∃ target, LinksInto root t p target := by
  unfold linksInto LinksInto
  split
  next target heq => simp [heq]
  next hne =>
    refine iff_of_false Bool.false_ne_true ?_
    rintro ⟨target, h, -⟩
    exact hne target h

/-- No directory above one of the paths is a link. -/
def Unlinked (t : LinkTree) (ps : List Path) : Prop :=
  ∀ p ∈ ps, ∀ q ∈ ancestors p, ∀ target, t.lookup q ≠ some (.link target)

/-- What removing links comes to. -/
lemma lookup_dropLinks (h : Unlinked t ps) (q : Path) :
    (dropLinks kernel root t ps).lookup q =
      if q ∈ ps ∧ linksInto root t q = true then none else t.lookup q := by
  induction ps generalizing t with
  | nil => simp [dropLinks]
  | cons p ps ih =>
    have hpass : t.passesLink p = false := LinkTree.passesLink_eq_false (h p List.mem_cons_self)
    rw [dropLinks, List.foldl_cons, ← dropLinks, dropLink, hpass, if_neg Bool.false_ne_true]
    by_cases hinto : linksInto root t p = true
    · have hdir : t.lookup p ≠ some .dir := by
        obtain ⟨target, hlook, -⟩ := linksInto_iff.1 hinto
        rw [hlook]
        simp
      rw [if_pos hinto, dif_neg hdir, ih]
      · by_cases hqp : q = p
        · subst hqp
          simp [LinkTree.lookup_erase, hinto]
        · have hsame : linksInto root (t.erase p hdir) q = linksInto root t q := by
            simp only [linksInto, LinkTree.lookup_erase, if_neg hqp]
          simp [LinkTree.lookup_erase, hqp, hsame]
      · intro r hr q hq target
        rw [LinkTree.lookup_erase]
        split_ifs
        · simp
        · exact h r (List.mem_cons_of_mem _ hr) q hq target
    · rw [if_neg hinto, ih fun r hr => h r (List.mem_cons_of_mem _ hr)]
      by_cases hqp : q = p
      · subst hqp
        simp [hinto]
      · simp [hqp]

lemma ready_dropLinks (h : Unlinked t ps) (p : Path) :
    (dropLinks kernel root t ps).ready p = t.ready p := by
  have hkept : ∀ q node, (∀ target, node ≠ .link target) →
      ((dropLinks kernel root t ps).lookup q = some node ↔ t.lookup q = some node) := by
    intro q node hnode
    rw [lookup_dropLinks h]
    split_ifs with hdrop
    · obtain ⟨target, hlook, -⟩ := linksInto_iff.1 hdrop.2
      rw [hlook]
      simpa using (hnode target).symm
    · exact Iff.rfl
  simp only [LinkTree.ready, LinkTree.passesFile, ne_eq, hkept _ .file (by simp),
    hkept _ .dir (by simp)]

lemma lastTarget_readyLinks (t : LinkTree) (links : List (Path × Path)) (p : Path) :
    lastTarget (readyLinks t links) p = if t.ready p = true then lastTarget links p else none := by
  induction links using List.reverseRecOn with
  | nil => simp [readyLinks, lastTarget]
  | append_singleton links l ih =>
    rw [readyLinks_concat, lastTarget_concat]
    by_cases hl : l.1 = p
    · subst hl
      cases hr : t.ready l.1 with
      | true => simp [lastTarget_concat]
      | false => simpa [hr] using ih
    · rw [if_neg hl, ← ih]
      split_ifs
      · rw [lastTarget_concat, if_neg hl]
      · rw [List.append_nil]

/-- The links into `root` once links are made: those made, and those elsewhere. -/
lemma linksInto_makeLinks (hapart : Apart t links) :
    LinksInto root (makeLinks kernel t links) p target ↔
      (t.ready p = true ∧ lastTarget links p = some target ∧ root <+: target) ∨
      ((t.ready p = true → lastTarget links p = none) ∧ LinksInto root t p target) := by
  have hmade : Made t (makeLinks kernel t links) links := makeLinks_made hapart
  replace hmade := hmade p
  rw [lastTarget_readyLinks] at hmade
  unfold LinksInto
  rw [hmade]
  by_cases hr : t.ready p = true
  · rw [if_pos hr]
    cases hlast : lastTarget links p with
    | some target' => simp [hr]
    | none =>
      split_ifs with hdir
      · simp [hr, hdir.1]
      · simp [hr]
  · rw [if_neg hr]
    split_ifs with hdir
    · simp [hr, hdir.1]
    · simp [hr]

lemma ready_of_linksInto (h : LinksInto root t p target) : t.ready p = true := by
  rw [LinkTree.ready_iff, h.1]
  refine ⟨?_, by simp⟩
  rw [LinkTree.passesFile, List.any_eq_false]
  intro q hq hfile
  have hnone := LinkTree.lookup_of_below hq (by rw [of_decide_eq_true hfile]; simp)
  rw [h.1] at hnone
  cases hnone

/-- What the links come to when they are made from scratch. -/
lemma linksInto_makeLinks_empty (hapart : Apart t links) :
    LinksInto root (makeLinks kernel .empty links) p target ↔
      lastTarget links p = some target ∧ root <+: target := by
  have hempty : ∀ q, LinkTree.empty.lookup q = none := fun _ => rfl
  have hready : LinkTree.empty.ready p = true := by
    simp [LinkTree.ready_iff, LinkTree.passesFile, hempty]
  rw [linksInto_makeLinks hapart.scratch]
  simp [hready, LinksInto, hempty]

/-- **Remade links are those made from scratch exactly if** no other link into `root` is left over, and
every one of them can be made. -/
theorem remakeLinks_iff (hapart : Apart t links) (hold : Unlinked t old) :
    (∀ p target, LinksInto root (remakeLinks kernel root t old links) p target ↔
      LinksInto root (makeLinks kernel .empty links) p target) ↔
    (∀ p target, LinksInto root t p target → p ∈ old ∨ ∃ l ∈ links, l.1 = p) ∧
      ∀ p target, lastTarget links p = some target → root <+: target → t.ready p = true := by
  have hdropped : Apart (dropLinks kernel root t old) links := by
    refine ⟨hapart.apart, fun l hl q hq target => ?_⟩
    rw [lookup_dropLinks hold]
    split_ifs
    · simp
    · exact hapart.unlinked l hl q hq target
  have hinto : ∀ p target, LinksInto root (dropLinks kernel root t old) p target ↔
      LinksInto root t p target ∧ p ∉ old := by
    intro p target
    unfold LinksInto
    rw [lookup_dropLinks hold]
    split_ifs with hdrop
    · simp [hdrop.1]
    · refine ⟨fun h => ⟨h, fun hp => hdrop ⟨hp, linksInto_iff.2 ⟨target, h⟩⟩⟩, And.left⟩
  simp only [remakeLinks, linksInto_makeLinks hdropped, linksInto_makeLinks_empty hapart,
    ready_dropLinks hold, hinto]
  constructor
  · intro h
    refine ⟨fun p target hlink => ?_, fun p target hlast hroot => ?_⟩
    · by_contra hne
      rw [not_or] at hne
      have hnone : lastTarget links p = none :=
        lastTarget_eq_none.2 fun l hl hp => hne.2 ⟨l, hl, hp⟩
      have hsome := (h p target).1 (.inr ⟨fun _ => hnone, hlink, hne.1⟩)
      rw [hnone] at hsome
      cases hsome.1
    · rcases (h p target).2 ⟨hlast, hroot⟩ with hready | ⟨-, hlink, -⟩
      · exact hready.1
      · exact ready_of_linksInto hlink
  · rintro ⟨hstale, hready⟩ p target
    constructor
    · rintro (hmade | ⟨hnone, hlink, hp⟩)
      · exact hmade.2
      · obtain ⟨l, hl, rfl⟩ := (hstale p target hlink).resolve_left hp
        exact absurd rfl (lastTarget_eq_none.1 (hnone (ready_of_linksInto hlink)) l hl)
    · rintro ⟨hlast, hroot⟩
      exact .inl ⟨hready p target hlast hroot, hlast, hroot⟩

end Into

end Two09.Lib
