import Two09.Store.Optimise

/-!
# Files lost while optimising

`dedupe_file` unlinks a file before it links the entry of `.links` in its place. Whatever fails and
whatever others do to `.links` meanwhile, only that one window loses a file, and what it takes for each
visit to come through it is stated here.
-/

namespace Two09.Store

open Two09.Lib Two09.Lib.Posix

/-- A regular file is still one, with the same contents. -/
def SameContents (before after : Option Inode) : Prop :=
  ∀ contents x, before = some (.regular contents x) → ∃ x', after = some (.regular contents x')

/-- Every path of a regular file names one with the same contents afterwards. -/
def KeepsFiles (d d' : Disk) : Prop := ∀ path, SameContents (d.read path) (d'.read path)

section Loss
variable (st : Setting) (sha256 : Bytes → Bytes)

/-- The state a visit is in when it may replace the file, with what was found for it. -/
def comesTo (m : Machine) (path : Path) : Machine × Option (Bytes × Bool) :=
  match lstat st m path with
  | (m, some ⟨.regular _ _, nlink⟩) => findTarget st sha256 m path nlink
  | (m, _) => (m, none)

/-- If the `unlink` works, the `link` after it does not fail, and finds in `.links` a regular file with
the contents that were unlinked. -/
def Survives (m : Machine) (path : Path) (name contents : Bytes) : Prop :=
  st.fails m.calls = false →
    let cleared := (unlinkPath st m path).1
    st.fails cleared.calls = false ∧ ∃ i x, (cleared.turn st).disk.pool.lookup name = some i ∧
      cleared.disk.inode i = .regular contents x

/-- The contents survive where the visit comes to replace the file. -/
def Spares (m : Machine) (path : Path) : Prop :=
  ∀ contents x name, m.disk.read path = some (.regular contents x) →
    (comesTo st sha256 m path).2 = some (name, true) →
      Survives st (comesTo st sha256 m path).1 path name contents

variable {st sha256}
variable {m m' : Machine} {path : Path} {contents : Bytes} {x : Bool} {name : Bytes} {size : Nat}

lemma SameContents.refl (o : Option Inode) : SameContents o o := fun _ x h => ⟨x, h⟩

lemma comesTo_files : SameFiles m (comesTo st sha256 m path).1 := by
  unfold comesTo
  split
  next m₁ c x nlink heq =>
    have hstat : SameFiles m m₁ := files_of_turn (congrArg Prod.fst heq)
    exact hstat.trans (findTarget_files rfl)
  next m₁ s _ heq => exact files_of_turn (congrArg Prod.fst heq)

/-- The visit of a regular file goes on from where it comes to. -/
lemma visit_eq (h : m.disk.read path = some (.regular contents x)) : visit st sha256 m path =
    match comesTo st sha256 m path with
    | (m, none) => (m, 0)
    | (m, some (name, true)) => replaceFile st m path name contents.length
    | (m, some (_, false)) => (m, contents.length) := by
  obtain ⟨i, hi, hinode⟩ := Option.map_eq_some_iff.1 h
  have hlook : (m.turn st).disk.names.lookup path = some i := hi
  cases hfails : st.fails m.calls with
  | true =>
    have hstat : lstat st m path = (m.turn st, none) := by simp only [lstat, hfails, if_true]
    rw [visit, comesTo, hstat]
  | false =>
    have hstat : lstat st m path = (m.turn st, some ⟨.regular contents x, (m.turn st).disk.nlink i⟩) := by
      simp only [lstat, hfails, Bool.false_eq_true, if_false, hlook, Option.map_some]
      rw [show (m.turn st).disk.inode i = .regular contents x from hinode]
    rw [visit, comesTo, hstat]
    rfl

/-- Replacing the file keeps its contents exactly if the `unlink` fails, or the `link` after it brings
them back. -/
lemma replaceFile_keeps_iff (h : m.disk.read path = some (.regular contents x)) :
    SameContents (m.disk.read path) ((replaceFile st m path name size).1.disk.read path) ↔
      Survives st m path name contents := by
  have hmem : path ∈ m.disk.names := by
    obtain ⟨i, hi, -⟩ := Option.map_eq_some_iff.1 h
    exact AList.lookup_isSome.1 (by rw [hi]; rfl)
  unfold replaceFile Survives
  split
  next m₁ heq =>
    rcases unlinkPath_cases heq with ⟨hr, -⟩ | ⟨-, hsame, hor⟩
    · cases hr
    · have hfails : st.fails m.calls = true := hor.resolve_right (not_not.2 hmem)
      refine iff_of_true ?_ fun hnot => absurd hfails (by simp [hnot])
      rw [hsame.read]
      exact .refl _
  next m₁ heq =>
    rcases unlinkPath_cases heq with ⟨-, -, hnames, hinode, hnot⟩ | ⟨hr, -⟩
    swap
    · cases hr
    have hgone : path ∉ m₁.disk.names := by
      rw [hnames]
      simp [AList.mem_erase]
    rw [heq]
    split
    next m₂ heq₂ =>
      rcases linkBack_cases heq₂ with ⟨hr, -⟩ | ⟨-, hsame, hor⟩
      · cases hr
      · refine iff_of_false (fun hkeeps => ?_) fun hspares => ?_
        · obtain ⟨x', hread⟩ := hkeeps contents x h
          rw [hsame.read, Disk.read, AList.lookup_eq_none.2 hgone] at hread
          cases hread
        · obtain ⟨hfails, i, x', hi, -⟩ := hspares hnot
          rcases hor with hfail | hin | hnone
          · rw [hfails] at hfail
            cases hfail
          · exact hgone hin
          · rw [hnone] at hi
            cases hi
    next m₂ heq₂ =>
      rcases linkBack_cases heq₂ with ⟨-, -, hfails, hinode', i, hi, hnames'⟩ | ⟨hr, -⟩
      swap
      · cases hr
      have hread : m₂.disk.read path = some (m₁.disk.inode i) := by
        rw [Disk.read, hnames', hinode', AList.lookup_insert]
        rfl
      rw [hread]
      constructor
      · intro hkeeps _
        obtain ⟨x', hx'⟩ := hkeeps contents x h
        exact ⟨hfails, i, x', hi, Option.some.inj hx'⟩
      · intro hspares c y hc
        obtain ⟨-, j, x', hj, hx'⟩ := hspares hnot
        obtain rfl : i = j := Option.some.inj (hi.symm.trans hj)
        obtain ⟨rfl, rfl⟩ : contents = c ∧ x = y := by simpa using h.symm.trans hc
        exact ⟨x', congrArg some hx'⟩

/-- **A visit keeps the contents of its file exactly if** it spares them. -/
lemma visit_keeps_iff : SameContents (m.disk.read path) ((visitStep st sha256 m path).disk.read path) ↔
    Spares st sha256 m path := by
  by_cases hreg : ∃ contents x, m.disk.read path = some (.regular contents x)
  swap
  · refine iff_of_true (fun c x hc => absurd ⟨c, x, hc⟩ hreg) fun c x name hc => absurd ⟨c, x, hc⟩ hreg
  obtain ⟨contents, x, h⟩ := hreg
  have hsame : SameFiles m (comesTo st sha256 m path).1 := comesTo_files
  have hstep : visitStep st sha256 m path = _ := congrArg Prod.fst (visit_eq h)
  rw [hstep]
  unfold Spares
  rcases hfound : comesTo st sha256 m path with ⟨m₁, found⟩
  rw [hfound] at hsame
  rcases found with _ | ⟨name, targetExists⟩
  · refine iff_of_true ?_ fun _ _ _ _ hnone => absurd hnone (by simp)
    rw [hsame.read]
    exact .refl _
  · cases targetExists with
    | false =>
      refine iff_of_true ?_ fun _ _ _ _ hother => absurd hother (by simp)
      show SameContents _ (m₁.disk.read path)
      rw [hsame.read]
      exact .refl _
    | true =>
      show SameContents _ ((replaceFile st m₁ path name contents.length).1.disk.read path) ↔ _
      have hread : m₁.disk.read path = some (.regular contents x) := by rw [hsame.read, h]
      rw [← hsame.read, replaceFile_keeps_iff hread]
      constructor
      · intro hspares c y name' hc hname hnot
        obtain ⟨rfl, rfl⟩ : contents = c ∧ x = y := by simpa using hread.symm.trans hc
        obtain rfl : name = name' := by simpa using hname
        exact hspares hnot
      · intro hspares hnot
        exact hspares contents x name hread rfl hnot

end Loss

/-- **However calls fail and others change `.links`, a run keeps every file exactly if** each of its
visits does: once a file is unlinked, the link that takes its place has to come, with its contents. -/
theorem storeOptimise_keeps_iff (st : Setting) (sha256 : Bytes → Bytes) (storeRoot : Path)
    (listing : StoreListing) (m : Machine) :
    KeepsFiles m.disk (storeOptimise st sha256 storeRoot listing m).1.disk ↔
      AtEach (visitStep st sha256) (Spares st sha256) m (storeVisits storeRoot listing) := by
  have hstep : ∀ m path, SameContents (m.disk.read path) ((visitStep st sha256 m path).disk.read path) ↔
      Spares st sha256 m path := fun m path => visit_keeps_iff
  rw [storeOptimise_run]
  refine (visit_local.run_iff SameContents.refl (nodup_storeVisits storeRoot listing)).trans ?_
  simp only [hstep]

/-! ### The link that does not come -/

/-- `/nix/store/a`, alone on the disk but for an entry of `.links` with the same contents. -/
def twinDisk : Disk where
  inode := fun _ => .regular (ascii "x") false
  names := AList.singleton (ascii "/nix/store/a") 0
  pool := AList.singleton [] 1
  elsewhere := fun _ => 0

/-- Nobody else is there, and the fifth call fails. -/
def fifthFails : Setting := ⟨fun _ d => d.pool, fun n => decide (n = 4), fun _ => false⟩

/-- **The `link` after `unlink` fails once, and the file is gone.** -/
theorem twin_not_kept : ¬ KeepsFiles twinDisk (storeOptimise fifthFails (fun _ => []) (ascii "/nix/store")
    oneFile ⟨twinDisk, 0⟩).1.disk := by
  intro h
  obtain ⟨x, hread⟩ := h (ascii "/nix/store/a") (ascii "x") false (by decide +kernel)
  revert hread
  cases x with
  | false => decide +kernel
  | true => decide +kernel

end Two09.Store
