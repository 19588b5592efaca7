import Two09.Nar.Room
import Two09.Share.Substitute

/-!
# Fetching a dump

`binary_cache_fetch` of the dump of a directory, to a path where nothing is. The archive is unpacked in a temporary
directory first, which has a longer name and a longer path than the one that was asked for.
-/

namespace Two09.Share

open Two09.Lib Two09.Lib.Posix Two09.Nar Two09.Store

/-! ### Names below a directory -/

section Below

variable {fs : Fs} {dir : Path} {d l : Loc} {c : Name} {f : Bool}

lemma not_isLink_of_none (h : fs.obj l = none) : ¬ IsLink fs.obj l := by
  rintro ⟨t, ht⟩
  rw [h] at ht
  cases ht

lemma not_isLink_of_dir (h : fs.obj l = some .dir) : ¬ IsLink fs.obj l := by
  rintro ⟨t, ht⟩
  rw [h] at ht
  cases ht

/-- Reaching a name below a directory is a walk from there. -/
lemma resolve_join (hres : resolve fs true dir (names dir) = .ok d) (hd : fs.obj d = some .dir) (hc : Store.EntryName c)
    (hlen : (join dir c).length < pathMax) :
    ∃ m, resolve fs f (join dir c) (names (join dir c)) = walk fs.obj f m d [c] := by
  obtain ⟨hne, -, hwalks⟩ := resolve_ok hres
  obtain ⟨m, -, hwalk⟩ := hwalks.append (f := f) (List.cons_ne_nil c []) hd
  refine ⟨m, ?_⟩
  unfold resolve
  rw [if_neg (by simp [join]), if_neg (by omega), names_join, names_name hc.noSlash hc.nonempty, base_join _ _ hne,
    hwalk]

/-- A valid name that is no link stands for itself. -/
lemma resolve_child (hres : resolve fs true dir (names dir) = .ok d) (hd : fs.obj d = some .dir) (hc : Store.EntryName c)
    (hle : c.length ≤ nameMax) (hlen : (join dir c).length < pathMax) (hl : ¬ IsLink fs.obj (d ++ [c])) :
    resolve fs f (join dir c) (names (join dir c)) = .ok (d ++ [c]) := by
  obtain ⟨m, hm⟩ := resolve_join (f := f) hres hd hc hlen
  have hplain : Posix.Plain c := ⟨hc.notDot, hc.notDotdot, hle⟩
  rw [hm]
  cases hobj : fs.obj (d ++ [c]) with
  | none => exact (Walks.missing hd hplain hobj).walk_eq
  | some o =>
    have ho : ∀ t, o ≠ .lnk t := by
      rintro t rfl
      exact hl ⟨t, hobj⟩
    exact (Walks.enter hd hplain hobj ho .done).walk_eq

/-- A name that is too long is none. -/
lemma resolve_long (hres : resolve fs true dir (names dir) = .ok d) (hd : fs.obj d = some .dir) (hc : Store.EntryName c)
    (hlt : nameMax < c.length) (hlen : (join dir c).length < pathMax) :
    resolve fs f (join dir c) (names (join dir c)) = .error .ENAMETOOLONG := by
  obtain ⟨m, hm⟩ := resolve_join (f := f) hres hd hc hlen
  rw [hm, walk_cons, if_neg (by simpa using hd), if_neg hc.notDot, if_neg hc.notDotdot, if_pos hlt]

lemma comps_join_eq (hc : Store.EntryName c) : comps (join dir c) = names (join dir c) := by
  rw [comps_join dir hc.noSlash hc.nonempty, names_join, names_name hc.noSlash hc.nonempty]

/-- A directory that is there stays. -/
lemma ensureDir_there (hres : resolve fs true dir (names dir) = .ok d) (hd : fs.obj d = some .dir) :
    ensureDir .calm fs dir = (true, fs) := by
  obtain ⟨hne, hlen, hwalks⟩ := resolve_ok hres
  obtain ⟨l, hl, hsome⟩ := hwalks.unfollowed hd
  have hmk : mkdir .calm fs dir = .error .EEXIST := by
    unfold mkdir resolve
    rw [if_neg (by simp), if_neg hne, if_neg (by omega), hl.walk_eq]
    exact if_pos hsome
  rw [ensureDir, hmk]

end Below

/-! ### The temporary directory -/

/-- The directory for the temporary ones, beside the path that is asked for. -/
def tmpName : Name := ascii ".tmp"

def tmpBase (n : Name) (pid : Nat) : Name := n ++ ascii "." ++ decimal pid

/-- The path of the temporary directory, before it is cut. -/
def tmpPath (dir : Path) (n : Name) (pid : Nat) : Path := join (join dir tmpName) (tmpBase n pid)

/-- Its location. -/
def tmpLoc (d : Loc) (n : Name) (pid : Nat) : Loc := d ++ [tmpName] ++ [tmpBase n pid]

/-- The file system without what is at a location and below. -/
def cleared (fs : Fs) (l : Loc) : Fs := { fs with obj := fun l' => if l <+: l' then none else fs.obj l' }

/-- The path is one of a missing entry of a directory. What an earlier process of the same number has left under the
temporary name is no link, and the directory is not reached through it. -/
structure Vacancy (fs : Fs) (dir : Path) (d : Loc) (n : Name) (pid : Nat) : Prop where
  name : Store.EntryName n
  grounded : ∀ l m, (fs.obj (l ++ [m])).isSome → fs.obj l = some .dir
  resolves : resolve (cleared fs (tmpLoc d n pid)) true dir (names dir) = .ok d
  isDir : fs.obj d = some .dir
  free : fs.obj (d ++ [n]) = none
  tmp : fs.obj (d ++ [tmpName]) = none ∨ fs.obj (d ++ [tmpName]) = some .dir
  room : (join dir tmpName).length < pathMax
  noLink : ¬ IsLink fs.obj (tmpLoc d n pid)

/-- There is room for a tree: its temporary name is not the one of the directory that it stands in, and neither that
name nor the paths of the tree are too long there. -/
structure HasRoom (dir : Path) (n : Name) (pid : Nat) (t : FileTree) : Prop where
  name : n ≠ tmpName
  base : (tmpBase n pid).length ≤ nameMax
  path : (tmpPath dir n pid).length < pathMax
  fits : t.Fits (tmpPath dir n pid)

lemma entryName_tmpName : Store.EntryName tmpName := by decide

lemma digits_noSlash (pid : Nat) : slash ∉ decimal pid ∧ (0 : UInt8) ∉ decimal pid := by
  refine ⟨fun h => ?_, fun h => ?_⟩
  · exact absurd (digit_of_mem_decimal h).1 (by decide)
  · exact absurd (digit_of_mem_decimal h).1 (by decide)

lemma length_tmpBase (n : Name) (pid : Nat) : (tmpBase n pid).length = n.length + 1 + (decimal pid).length := by
  unfold tmpBase
  rw [List.length_append, List.length_append]
  rfl

lemma entryName_tmpBase {n : Name} (hn : Store.EntryName n) (pid : Nat) : Store.EntryName (tmpBase n pid) := by
  have hlen := length_tmpBase n pid
  have hpos := List.length_pos_of_ne_nil hn.nonempty
  have hpid := List.length_pos_of_ne_nil (decimal_ne_nil pid)
  obtain ⟨hslash, hnul⟩ := digits_noSlash pid
  have hmem : ∀ c, c ∉ n → c ∉ ascii "." → c ∉ decimal pid → c ∉ tmpBase n pid := by
    intro c h1 h2 h3 hc
    rcases List.mem_append.1 hc with hc | hc
    · exact (List.mem_append.1 hc).elim h1 h2
    · exact h3 hc
  refine ⟨fun h => ?_, hmem _ hn.noSlash (by decide) hslash, hmem _ hn.noNul (by decide) hnul, fun h => ?_, fun h => ?_⟩
  · rw [h, List.length_nil] at hlen
    omega
  · rw [h] at hlen
    have hone : dot.length = 1 := rfl
    omega
  · rw [h] at hlen
    have htwo : dotdot.length = 2 := rfl
    omega

lemma length_tmpPath (dir : Path) (n : Name) (pid : Nat) :
    (join dir n).length < (tmpPath dir n pid).length := by
  unfold tmpPath
  rw [length_join, length_join, length_join, length_tmpBase]
  omega

lemma cleared_obj_of_not {fs : Fs} {l l' : Loc} (h : ¬ l <+: l') : (cleared fs l).obj l' = fs.obj l' := if_neg h

lemma cleared_obj_below (fs : Fs) (l r : Loc) : (cleared fs l).obj (l ++ r) = none := if_pos (List.prefix_append l r)

lemma outside_of_cleared {fs : Fs} {l l' : Loc} {o : Obj} (h : (cleared fs l).obj l' = some o) : ¬ l <+: l' := by
  rintro ⟨r, rfl⟩
  rw [cleared_obj_below] at h
  cases h

lemma of_cleared {fs : Fs} {l l' : Loc} {o : Obj} (h : (cleared fs l).obj l' = some o) : fs.obj l' = some o := by
  have hout := outside_of_cleared h
  rwa [cleared_obj_of_not hout] at h

/-- The directory with `.tmp` in it. -/
def withTmp (fs : Fs) (d : Loc) : Fs := if fs.obj (d ++ [tmpName]) = none then fs.put (d ++ [tmpName]) .dir else fs

section Vacant

variable {fs fs' : Fs} {dir : Path} {d : Loc} {n : Name} {pid : Nat} {t : FileTree}

lemma not_prefix_dir : ¬ tmpLoc d n pid <+: d := by
  intro h
  have hle := h.length_le
  unfold tmpLoc at hle
  rw [List.length_append, List.length_append] at hle
  simp at hle

lemma not_prefix_child (c : Name) : ¬ tmpLoc d n pid <+: d ++ [c] := by
  intro h
  have hle := h.length_le
  unfold tmpLoc at hle
  rw [List.length_append, List.length_append, List.length_append] at hle
  simp at hle

/-- Nothing is below what is no directory. -/
lemma grounded_below (hg : ∀ l m, (fs.obj (l ++ [m])).isSome → fs.obj l = some .dir) {l : Loc}
    (hl : fs.obj l ≠ some .dir) {r : Loc} (hr : r ≠ []) : fs.obj (l ++ r) = none := by
  induction r using List.reverseRecOn with
  | nil => exact absurd rfl hr
  | append_singleton r m ih =>
    by_contra hne
    rw [← List.append_assoc] at hne
    have hdir := hg (l ++ r) m (Option.isSome_iff_ne_none.2 hne)
    by_cases hnil : r = []
    · rw [hnil, List.append_nil] at hdir
      exact hl hdir
    · rw [ih hnil] at hdir
      cases hdir

/-- The directory is still reached when what was left is gone and other things were added. -/
lemma Vacancy.reached (h : Vacancy fs dir d n pid)
    (hsub : ∀ l o, (cleared fs (tmpLoc d n pid)).obj l = some o → fs'.obj l = some o) (hcwd : fs'.cwd = fs.cwd) :
    resolve fs' true dir (names dir) = .ok d ∧ fs'.obj d = some .dir := by
  have hd : fs'.obj d = some .dir := hsub d _ ((cleared_obj_of_not not_prefix_dir).trans h.isDir)
  have hlink : ¬ IsLink fs'.obj d := not_isLink_of_dir hd
  obtain ⟨hne, hlen, hwalks⟩ := resolve_ok h.resolves
  refine ⟨?_, hd⟩
  unfold resolve
  rw [if_neg hne, if_neg (by omega), hcwd]
  exact (hwalks.mono hsub (.inr hlink)).walk_eq

lemma Vacancy.reached_now (h : Vacancy fs dir d n pid) :
    resolve fs true dir (names dir) = .ok d ∧ fs.obj d = some .dir :=
  h.reached (fun _ _ ho => of_cleared ho) rfl

lemma withTmp_obj (fs : Fs) (d l : Loc) (htmp : fs.obj (d ++ [tmpName]) = none ∨ fs.obj (d ++ [tmpName]) = some .dir) :
    (withTmp fs d).obj l = if l = d ++ [tmpName] then some .dir else fs.obj l := by
  unfold withTmp
  by_cases hnone : fs.obj (d ++ [tmpName]) = none
  · rw [if_pos hnone]
    rfl
  · rw [if_neg hnone]
    split_ifs with hl
    · rw [hl]
      exact htmp.resolve_left hnone
    · rfl

lemma withTmp_cwd (fs : Fs) (d : Loc) : (withTmp fs d).cwd = fs.cwd := by
  unfold withTmp
  split_ifs <;> rfl

lemma sub_withTmp (h : Vacancy fs dir d n pid) {l : Loc} {o : Obj} (ho : fs.obj l = some o) :
    (withTmp fs d).obj l = some o := by
  rw [withTmp_obj _ _ _ h.tmp]
  split_ifs with hl
  · rw [hl] at ho
    rcases h.tmp with hnone | hdir
    · rw [hnone] at ho
      cases ho
    · rw [hdir] at ho
      exact ho
  · exact ho

/-- `mkdir` of `.tmp`. -/
lemma ensureDir_tmp (h : Vacancy fs dir d n pid) : ensureDir .calm fs (join dir tmpName) = (true, withTmp fs d) := by
  obtain ⟨hres, hd⟩ := h.reached_now
  have hlink : ¬ IsLink fs.obj (d ++ [tmpName]) := h.tmp.elim not_isLink_of_none not_isLink_of_dir
  have hchild := resolve_child (f := false) hres hd entryName_tmpName (by decide) h.room hlink
  unfold ensureDir mkdir withTmp
  rw [hchild, if_neg (by simp)]
  rcases h.tmp with hnone | hdir
  · simp [hnone]
  · simp [hdir]

lemma splitPath_join (hn : Store.EntryName n) (hdir : dir ≠ []) : splitPath (join dir n) = (dir, n) := by
  have hbase : (join dir n).rtakeWhile (· ≠ slash) = n := by
    have hall : ∀ c ∈ n.reverse, decide (c ≠ slash) = true := by
      intro c hc
      refine decide_eq_true ?_
      rintro rfl
      exact hn.noSlash (List.mem_reverse.1 hc)
    unfold List.rtakeWhile join
    rw [List.reverse_append, List.reverse_cons, List.append_assoc, List.takeWhile_append_of_pos hall,
      List.singleton_append, List.takeWhile_cons_of_neg (by simp), List.append_nil, List.reverse_reverse]
  have htake : (join dir n).take ((join dir n).length - n.length - 1) = dir := by
    rw [length_join]
    have hlen : dir.length + 1 + n.length - n.length - 1 = dir.length := by omega
    rw [hlen]
    exact List.take_left' rfl
  have hslash : slash ∈ join dir n := List.mem_append_right _ List.mem_cons_self
  unfold splitPath
  rw [if_pos hslash]
  dsimp only
  rw [hbase, htake, if_neg hdir]

/-- The temporary directory that is chosen. -/
lemma fetchTemp_eq (h : Vacancy fs dir d n pid) (hpath : (join dir n).length < pathMax) :
    fetchTemp .calm (decimal pid) (join dir n) fs = some ((tmpPath dir n pid).take (pathMax - 1), withTmp fs d) := by
  have hwhole : ∀ p : Path, p.length < pathMax → p.take (pathMax - 1) = p :=
    fun p hp => List.take_of_length_le (by omega)
  obtain ⟨hres, hd⟩ := h.reached_now
  have htmp : dir ++ ascii "/.tmp" = join dir tmpName := rfl
  unfold fetchTemp
  rw [hwhole _ hpath, splitPath_join h.name (resolve_ok hres).1]
  dsimp only
  rw [ensureDir_there hres hd]
  dsimp only
  rw [htmp, hwhole _ h.room, ensureDir_tmp h]
  dsimp only
  congr 3
  unfold tmpPath tmpBase join
  simp only [List.append_assoc]
  rfl

/-- The temporary name, as long as nothing else was removed. -/
lemma Vacancy.tmp_resolves (h : Vacancy fs dir d n pid) (hbase : (tmpBase n pid).length ≤ nameMax)
    (hpath : (tmpPath dir n pid).length < pathMax)
    (hsub : ∀ l o, (cleared (withTmp fs d) (tmpLoc d n pid)).obj l = some o → fs'.obj l = some o)
    (hcwd : fs'.cwd = fs.cwd) (hlink : ¬ IsLink fs'.obj (tmpLoc d n pid)) {f : Bool} :
    resolve fs' f (tmpPath dir n pid) (names (tmpPath dir n pid)) = .ok (tmpLoc d n pid) := by
  have hsub' : ∀ l o, (cleared fs (tmpLoc d n pid)).obj l = some o → fs'.obj l = some o := by
    intro l o ho
    refine hsub l o ?_
    have hout : ¬ tmpLoc d n pid <+: l := outside_of_cleared ho
    rw [cleared_obj_of_not hout]
    exact sub_withTmp h (of_cleared ho)
  obtain ⟨hres, hd⟩ := h.reached hsub' hcwd
  have htmp : fs'.obj (d ++ [tmpName]) = some .dir := by
    refine hsub _ _ ?_
    rw [cleared_obj_of_not (not_prefix_child tmpName), withTmp_obj _ _ _ h.tmp, if_pos rfl]
  have htmplink : ¬ IsLink fs'.obj (d ++ [tmpName]) := not_isLink_of_dir htmp
  have hchild := resolve_child (f := true) hres hd entryName_tmpName (by decide) h.room htmplink
  exact resolve_child hchild htmp (entryName_tmpBase h.name pid) hbase hpath hlink

lemma comps_tmpPath (h : Vacancy fs dir d n pid) : comps (tmpPath dir n pid) = names (tmpPath dir n pid) :=
  comps_join_eq (entryName_tmpBase h.name pid)

/-- **What an earlier process has left is removed.** -/
lemma rmtreeHelper_left (h : Vacancy fs dir d n pid) (hbase : (tmpBase n pid).length ≤ nameMax)
    (hpath : (tmpPath dir n pid).length < pathMax) :
    (rmtreeHelper .calm (withTmp fs d) (tmpPath dir n pid)).obj = (cleared (withTmp fs d) (tmpLoc d n pid)).obj ∧
      (rmtreeHelper .calm (withTmp fs d) (tmpPath dir n pid)).cwd = fs.cwd := by
  have hsame : (withTmp fs d).obj (tmpLoc d n pid) = fs.obj (tmpLoc d n pid) := by
    rw [withTmp_obj _ _ _ h.tmp, if_neg]
    intro heq
    exact not_prefix_child tmpName (heq.symm ▸ List.prefix_rfl : tmpLoc d n pid <+: d ++ [tmpName])
  have hlink : ¬ IsLink (withTmp fs d).obj (tmpLoc d n pid) := by
    rintro ⟨t, ht⟩
    exact h.noLink ⟨t, hsame ▸ ht⟩
  have hres : ∀ f, resolve (withTmp fs d) f (tmpPath dir n pid) (names (tmpPath dir n pid)) = .ok (tmpLoc d n pid) :=
    fun f => h.tmp_resolves hbase hpath (fun l o ho => of_cleared ho) (withTmp_cwd fs d) hlink
  have hbelow : fs.obj (tmpLoc d n pid) ≠ some .dir → ∀ r, r ≠ [] → (withTmp fs d).obj (tmpLoc d n pid ++ r) = none := by
    intro hne r hr
    rw [withTmp_obj _ _ _ h.tmp, if_neg, grounded_below h.grounded hne hr]
    intro heq
    exact not_prefix_child tmpName (heq ▸ List.prefix_append _ r)
  -- a file, or nothing
  have hleaf : ∀ fs' : Fs, fs'.obj (tmpLoc d n pid) = none →
      (∀ l, l ≠ tmpLoc d n pid → fs'.obj l = (withTmp fs d).obj l) → fs.obj (tmpLoc d n pid) ≠ some .dir →
      fs'.obj = (cleared (withTmp fs d) (tmpLoc d n pid)).obj := by
    intro fs' hnone hother hne
    funext l
    by_cases hl : tmpLoc d n pid <+: l
    · obtain ⟨r, rfl⟩ := hl
      rw [cleared_obj_below]
      by_cases hr : r = []
      · rw [hr, List.append_nil]
        exact hnone
      · rw [hother _ (by simpa using hr), hbelow hne r hr]
    · rw [cleared_obj_of_not hl, hother]
      rintro rfl
      exact hl List.prefix_rfl
  unfold rmtreeHelper
  rw [comps_tmpPath h, hres true]
  dsimp only
  cases hobj : fs.obj (tmpLoc d n pid) with
  | none =>
    rw [hsame, hobj, if_neg (by simp)]
    have hkeep : discard .calm (tmpPath dir n pid) (withTmp fs d) = withTmp fs d := by
      unfold Nar.discard unlink
      rw [comps_tmpPath h, hres false, if_neg (by simp)]
      dsimp only
      rw [hsame, hobj]
      rfl
    rw [hkeep]
    exact ⟨hleaf _ (hsame.trans hobj) (fun _ _ => rfl) (by simp [hobj]), withTmp_cwd fs d⟩
  | some o =>
    cases o with
    | lnk t => exact absurd ⟨t, hobj⟩ h.noLink
    | reg b x =>
      rw [hsame, hobj, if_neg (by simp)]
      have hgone : discard .calm (tmpPath dir n pid) (withTmp fs d) = (withTmp fs d).remove (tmpLoc d n pid) := by
        unfold Nar.discard unlink
        rw [comps_tmpPath h, hres false, if_neg (by simp)]
        dsimp only
        rw [hsame, hobj]
        rfl
      rw [hgone]
      refine ⟨hleaf _ (by simp) (fun l hl => ?_) (by simp [hobj]), withTmp_cwd fs d⟩
      rw [Fs.remove_obj, if_neg hl]
    | dir =>
      rw [hsame, hobj, if_pos rfl]
      have hempty : (emptyDir (withTmp fs d) (tmpLoc d n pid)).obj (tmpLoc d n pid) = some .dir := by
        show (if tmpLoc d n pid <+: tmpLoc d n pid ∧ tmpLoc d n pid ≠ tmpLoc d n pid then none else _) = _
        rw [if_neg (by simp), hsame, hobj]
      have hnolink : ¬ IsLink (emptyDir (withTmp fs d) (tmpLoc d n pid)).obj (tmpLoc d n pid) := not_isLink_of_dir hempty
      have hsub : ∀ l o, (cleared (withTmp fs d) (tmpLoc d n pid)).obj l = some o →
          (emptyDir (withTmp fs d) (tmpLoc d n pid)).obj l = some o := by
        intro l o ho
        have hout : ¬ tmpLoc d n pid <+: l := outside_of_cleared ho
        show (if tmpLoc d n pid <+: l ∧ l ≠ tmpLoc d n pid then none else _) = _
        rw [if_neg (fun hand => hout hand.1)]
        exact of_cleared ho
      rw [h.tmp_resolves hbase hpath hsub (withTmp_cwd fs d) hnolink]
      dsimp only
      rw [if_pos rfl]
      refine ⟨?_, withTmp_cwd fs d⟩
      funext l
      show (if l = tmpLoc d n pid then none else
        if tmpLoc d n pid <+: l ∧ l ≠ tmpLoc d n pid then none else (withTmp fs d).obj l) = _
      by_cases hl : tmpLoc d n pid <+: l
      · obtain ⟨r, rfl⟩ := hl
        rw [cleared_obj_below]
        split_ifs with h1 h2
        · rfl
        · rfl
        · exact absurd ⟨List.prefix_append _ r, h1⟩ h2
      · rw [cleared_obj_of_not hl, if_neg, if_neg (fun hand => hl hand.1)]
        rintro rfl
        exact hl List.prefix_rfl

/-- **The archive is unpacked at the temporary path**, if there is room for it. -/
lemma fetchUnpacked_eq {es : List (Name × FileTree)} {src : Path} {nar : Bytes} (h : Vacancy fs dir d n pid)
    (hbase : (tmpBase n pid).length ≤ nameMax) (hpath : (tmpPath dir n pid).length < pathMax)
    (hfits : (FileTree.directory es).Fits (tmpPath dir n pid)) (hwf : (FileTree.directory es).Wf)
    (hb : narDump src (.directory es) = some nar) :
    ∃ fs', fetchUnpacked .calm (decimal pid) (join dir n) nar fs = (some (tmpPath dir n pid), fs') ∧
      fs'.obj = graft (cleared (withTmp fs d) (tmpLoc d n pid)).obj (tmpLoc d n pid) (.directory es) ∧
        fs'.cwd = fs.cwd := by
  have hshort : (join dir n).length < pathMax := (length_tmpPath dir n pid).trans hpath
  obtain ⟨hclear, hcwd⟩ := rmtreeHelper_left h hbase hpath
  have htemp := fetchTemp_eq h hshort
  rw [List.take_of_length_le (by omega)] at htemp
  unfold fetchUnpacked
  rw [htemp]
  dsimp only
  generalize rmtreeHelper .calm (withTmp fs d) (tmpPath dir n pid) = fs₂ at hclear hcwd
  have hvacant : ∀ r, fs₂.obj (tmpLoc d n pid ++ r) = none := fun r => by rw [hclear, cleared_obj_below]
  have hnone : fs₂.obj (tmpLoc d n pid) = none := by simpa using hvacant []
  have hlink : ¬ IsLink fs₂.obj (tmpLoc d n pid) := not_isLink_of_none hnone
  have hres : resolve fs₂ false (tmpPath dir n pid) (names (tmpPath dir n pid)) = .ok (tmpLoc d n pid) :=
    h.tmp_resolves hbase hpath (fun l o ho => hclear ▸ ho) hcwd hlink
  have hspot : Spot fs₂ (tmpPath dir n pid) (tmpLoc d n pid) := ⟨comps_tmpPath h ▸ hres, comps_tmpPath h, hvacant⟩
  have hmk : mkdir .calm fs₂ (tmpPath dir n pid) = .ok (fs₂.put (tmpLoc d n pid) .dir) := by
    unfold mkdir
    rw [hres, if_neg (by simp)]
    dsimp only
    rw [hnone, if_neg (by simp)]
  have hmk' : mkdir .calm (fs₂.put (tmpLoc d n pid) .dir) (tmpPath dir n pid) = .error .EEXIST := by
    have hput : (fs₂.put (tmpLoc d n pid) .dir).obj (tmpLoc d n pid) = some .dir := by simp
    have hputlink : ¬ IsLink (fs₂.put (tmpLoc d n pid) .dir).obj (tmpLoc d n pid) := not_isLink_of_dir hput
    have hsub : ∀ l o, (cleared (withTmp fs d) (tmpLoc d n pid)).obj l = some o →
        (fs₂.put (tmpLoc d n pid) .dir).obj l = some o := by
      intro l o ho
      rw [← hclear] at ho
      rw [Fs.put_obj, if_neg, ho]
      rintro rfl
      rw [hnone] at ho
      cases ho
    unfold mkdir
    rw [h.tmp_resolves hbase hpath hsub hcwd hputlink, if_neg (by simp)]
    dsimp only
    rw [hput, if_pos (by simp)]
  rw [hmk]
  dsimp only
  rw [narExtract_made hb hmk hmk']
  obtain ⟨fs', hext, hobj, hcwd'⟩ := narExtract_narDump hwf hb hfits hspot
  rw [hext]
  exact ⟨fs', rfl, by rw [hobj, hclear], hcwd'.trans hcwd⟩

end Vacant

/-! ### The whole fetch -/

section Fetched

variable {net : Net} {fs fs' : Fs} {dir src : Path} {d l : Loc} {n : Name} {pid i : Nat} {base nar : Bytes}
  {ni : Narinfo} {es : List (Name × FileTree)}

/-- What is at the path when the archive has been unpacked. -/
lemma unpacked_child (h : Vacancy fs dir d n pid)
    (hobj : fs'.obj = graft (cleared (withTmp fs d) (tmpLoc d n pid)).obj (tmpLoc d n pid) (.directory es)) :
    fs'.obj (d ++ [n]) = if n = tmpName then some .dir else none := by
  rw [hobj, graft_outside (not_prefix_child n), cleared_obj_of_not (not_prefix_child n), withTmp_obj _ _ _ h.tmp, h.free]
  simp

/-- The path, when the archive has been unpacked. -/
lemma resolve_unpacked (h : Vacancy fs dir d n pid) (hbase : (tmpBase n pid).length ≤ nameMax)
    (hpath : (tmpPath dir n pid).length < pathMax)
    (hobj : fs'.obj = graft (cleared (withTmp fs d) (tmpLoc d n pid)).obj (tmpLoc d n pid) (.directory es))
    (hcwd : fs'.cwd = fs.cwd) {f : Bool} : resolve fs' f (join dir n) (names (join dir n)) = .ok (d ++ [n]) := by
  have hsub : ∀ l o, (cleared fs (tmpLoc d n pid)).obj l = some o → fs'.obj l = some o := by
    intro l o ho
    have hout : ¬ tmpLoc d n pid <+: l := outside_of_cleared ho
    rw [hobj, graft_outside hout, cleared_obj_of_not hout]
    exact sub_withTmp h (of_cleared ho)
  obtain ⟨hres, hd⟩ := h.reached hsub hcwd
  have hname : n.length ≤ nameMax := by
    rw [length_tmpBase] at hbase
    omega
  have hlink : ¬ IsLink fs'.obj (d ++ [n]) := by
    have hchild := unpacked_child h hobj
    split_ifs at hchild
    · exact not_isLink_of_dir hchild
    · exact not_isLink_of_none hchild
  exact resolve_child hres hd h.name hname ((length_tmpPath dir n pid).trans hpath) hlink

lemma stat_unpacked (h : Vacancy fs dir d n pid) (hbase : (tmpBase n pid).length ≤ nameMax)
    (hpath : (tmpPath dir n pid).length < pathMax)
    (hobj : fs'.obj = graft (cleared (withTmp fs d) (tmpLoc d n pid)).obj (tmpLoc d n pid) (.directory es))
    (hcwd : fs'.cwd = fs.cwd) : stat fs' (join dir n) = if n = tmpName then some .dir else none := by
  unfold stat
  rw [comps_join_eq h.name, resolve_unpacked h hbase hpath hobj hcwd]
  exact unpacked_child h hobj

/-- **With room for it, the tree is created.** -/
theorem binaryCacheFetch_vacant (h : Vacancy fs dir d n pid) (hroom : HasRoom dir n pid (.directory es))
    (hwf : (FileTree.directory es).Wf) (hb : narDump src (.directory es) = some nar)
    (hnar : downloadNar net base ni i = some nar) :
    ∃ fs', binaryCacheFetch net .calm (decimal pid) false base ni (join dir n) i fs = (.created (d ++ [n]), fs') ∧
      HoldsTree (d ++ [n]) (.directory es) fs' := by
  obtain ⟨fs', hun, hobj, hcwd⟩ := fetchUnpacked_eq h hroom.base hroom.path hroom.fits hwf hb
  have hstat := stat_unpacked h hroom.base hroom.path hobj hcwd
  rw [if_neg hroom.name] at hstat
  have hfree := unpacked_child h hobj
  rw [if_neg hroom.name] at hfree
  have hroot : fs'.obj (tmpLoc d n pid) = some .dir := by
    have hbelow := graft_below (cleared (withTmp fs d) (tmpLoc d n pid)).obj (tmpLoc d n pid) [] (.directory es)
    rw [List.append_nil] at hbelow
    rw [hobj, hbelow]
    simp [FileTree.root]
  have hsub : ∀ l o, (cleared (withTmp fs d) (tmpLoc d n pid)).obj l = some o → fs'.obj l = some o := by
    intro l o ho
    have hout : ¬ tmpLoc d n pid <+: l := outside_of_cleared ho
    rw [hobj, graft_outside hout, ho]
  have htmp := h.tmp_resolves (f := false) hroom.base hroom.path hsub hcwd (not_isLink_of_dir hroot)
  have hren : renameDir fs' false (tmpPath dir n pid) (join dir n) =
      some (d ++ [n], moveTree fs' (tmpLoc d n pid) (d ++ [n])) := by
    unfold renameDir
    rw [htmp, resolve_unpacked h hroom.base hroom.path hobj hcwd]
    exact if_pos ⟨rfl, by rw [hroot]; rfl, not_prefix_child n, hfree⟩
  refine ⟨moveTree fs' (tmpLoc d n pid) (d ++ [n]), ?_, moveTree_holds.2 ⟨hwf, fun r => ?_⟩⟩
  · unfold binaryCacheFetch
    rw [hnar]
    dsimp only
    rw [hun]
    dsimp only
    rw [hstat, hren]
    rfl
  · rw [hobj, graft_below]

lemma renameDir_dest {fails : Bool} {p q : Path} (h : renameDir fs fails p q = some (l, fs')) : q.length < pathMax := by
  unfold renameDir at h
  cases hp : resolve fs false p (names p) with
  | error e => simp [hp] at h
  | ok l₁ =>
    cases hq : resolve fs false q (names q) with
    | error e => simp [hp, hq] at h
    | ok l₂ => exact (resolve_ok hq).2.1

lemma fetchUnpacked_some {env : Env} {pid : Bytes} {path tmp : Path}
    (h : fetchUnpacked env pid path nar fs = (some tmp, fs')) :
    ∃ fs₁ fs₂ rest, fetchTemp env pid path fs = some (tmp, fs₁) ∧
      mkdir env (rmtreeHelper env fs₁ tmp) tmp = .ok fs₂ ∧ narExtract env tmp nar fs₂ = (some rest, fs') := by
  unfold fetchUnpacked at h
  cases htemp : fetchTemp env pid path fs with
  | none =>
    rw [htemp] at h
    cases h
  | some r =>
    obtain ⟨tmp', fs₁⟩ := r
    rw [htemp] at h
    dsimp only at h
    cases hmk : mkdir env (rmtreeHelper env fs₁ tmp') tmp' with
    | error e =>
      rw [hmk] at h
      cases h
    | ok fs₂ =>
      rw [hmk] at h
      dsimp only at h
      cases hext : narExtract env tmp' nar fs₂ with
      | mk r fs₃ =>
        rw [hext] at h
        cases r with
        | none => cases h
        | some rest =>
          cases h
          exact ⟨fs₁, fs₂, rest, rfl, hmk, hext⟩

/-- A temporary name that is too long is not made. -/
lemma mkdir_long (h : Vacancy fs dir d n pid) (hlong : nameMax < (tmpBase n pid).length)
    (hpath : (tmpPath dir n pid).length < pathMax) :
    mkdir .calm (rmtreeHelper .calm (withTmp fs d) (tmpPath dir n pid)) (tmpPath dir n pid) = .error .ENAMETOOLONG := by
  obtain ⟨hres, hd⟩ := h.reached (fun l o ho => sub_withTmp h (of_cleared ho)) (withTmp_cwd fs d)
  have htmp : (withTmp fs d).obj (d ++ [tmpName]) = some .dir := by rw [withTmp_obj _ _ _ h.tmp, if_pos rfl]
  have hchild := resolve_child (f := true) hres hd entryName_tmpName (by decide) h.room (not_isLink_of_dir htmp)
  have hlongRes : ∀ f, resolve (withTmp fs d) f (tmpPath dir n pid) (names (tmpPath dir n pid)) = .error .ENAMETOOLONG :=
    fun f => resolve_long hchild htmp (entryName_tmpBase h.name pid) hlong hpath
  have hkeep : rmtreeHelper .calm (withTmp fs d) (tmpPath dir n pid) = withTmp fs d := by
    unfold rmtreeHelper Nar.discard unlink
    rw [comps_tmpPath h, hlongRes true, hlongRes false]
    rfl
  unfold mkdir
  rw [hkeep, hlongRes false]
  rfl

/-- **Without room for it, nothing is created**; the empty directory could be unpacked at a path that was cut. -/
theorem hasRoom_of_created (h : Vacancy fs dir d n pid) (hwf : (FileTree.directory es).Wf)
    (hb : narDump src (.directory es) = some nar) (hnar : downloadNar net base ni i = some nar)
    (hcut : es = [] → (tmpPath dir n pid).length < pathMax)
    (hcreated : binaryCacheFetch net .calm (decimal pid) false base ni (join dir n) i fs = (.created l, fs')) :
    HasRoom dir n pid (.directory es) := by
  obtain ⟨nar', tmp, fs₃, l₁, hnar', hun, hstat, -, hren, -⟩ := binaryCacheFetch_created hcreated
  obtain rfl : nar = nar' := Option.some.inj (hnar.symm.trans hnar')
  obtain ⟨fs₁, fs₂, rest, htemp, hmk, hext⟩ := fetchUnpacked_some hun
  rw [fetchTemp_eq h (renameDir_dest hren)] at htemp
  obtain ⟨rfl, rfl⟩ := Prod.mk.inj (Option.some.inj htemp)
  have hfits := fits_of_narExtract hwf hb hext
  have hpath : (tmpPath dir n pid).length < pathMax := by
    by_contra hlong
    cases hes : es with
    | nil => exact hlong (hcut hes)
    | cons e es' =>
      -- the cut path leaves no room for an entry
      rw [hes] at hfits
      cases hfits with
      | directory hlens _ =>
        have hlen := hlens e List.mem_cons_self
        rw [length_join, List.length_take, min_eq_left (by omega)] at hlen
        have hmax : pathMax = 4096 := rfl
        omega
  rw [List.take_of_length_le (by omega)] at hun hmk hfits
  have hbase : (tmpBase n pid).length ≤ nameMax := by
    by_contra hlong
    rw [mkdir_long h (not_le.1 hlong) hpath] at hmk
    cases hmk
  refine ⟨?_, hbase, hpath, hfits⟩
  rintro rfl
  obtain ⟨fs₄, hun', hobj, hcwd⟩ := fetchUnpacked_eq h hbase hpath hfits hwf hb
  obtain rfl : fs₃ = fs₄ := (Prod.mk.inj (hun.symm.trans hun')).2
  rw [stat_unpacked h hbase hpath hobj hcwd, if_pos rfl] at hstat
  cases hstat

end Fetched

end Two09.Share
