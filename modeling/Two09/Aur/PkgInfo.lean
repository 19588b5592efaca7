import Two09.Gen.Manifest

/-!
# Reading `.PKGINFO`

The three readers of the name and the version in the `.PKGINFO` of a package, on documents as `makepkg` writes
them. The store's reader asks for `pkgname=` without a blank, so that it finds neither in any of them.
-/

namespace Two09.Aur

open Two09.Lib

/-! ### The readers -/

/-- A value behind the `=`, as far as it fits the buffer. -/
def trimmed (size : Nat) (value : Bytes) : Bytes := ((value.dropWhile isSpace).take (size - 1)).rdropWhile isSpace

/-- One line in `read_pkginfo`. -/
def storeLine (nameSize verSize : Nat) (found : Bytes × Bytes) (row : Bytes) : Bytes × Bytes :=
  let row := row.dropWhile isSpace
  if ascii "pkgname" <+: row ∧ row[7]? = some 61 then (trimmed nameSize (row.drop 8), found.2)
  else if ascii "pkgver" <+: row ∧ row[6]? = some 61 then (found.1, trimmed verSize (row.drop 7))
  else found

/-- `read_pkginfo` on what `tar` writes, of which it reads 8191 bytes. -/
def readPkginfo (nameSize verSize : Nat) (text : Bytes) : Option (Bytes × Bytes) :=
  if text.take 8191 = [] then none
  else
    let found := (words (· = 10) (cstr (text.take 8191))).foldl (storeLine nameSize verSize) ([], [])
    if found.1 = [] ∨ found.2 = [] then none else some found

/-- The lines that `fgets` reads into 4096 bytes, each up to its end. -/
def infoLines (text : Bytes) : List Bytes :=
  (Install.fgetsLines 4095 [] text).map fun piece => (cstr piece).takeWhile (· ≠ 10)

/-- One line in the two readers of packages that were built. -/
def builtLine (found : Option Bytes × Option Bytes) (row : Bytes) : Option Bytes × Option Bytes :=
  if ascii "pkgname = " <+: row then (some (row.drop 10), found.2)
  else if ascii "pkgver = " <+: row then (found.1, some (row.drop 9))
  else found

/-- `parse_pkginfo` -/
def parsePkginfo (text : Bytes) : Option (Bytes × Bytes) :=
  match (infoLines text).foldl builtLine (none, none) with
  | (some name, some version) => some (name, version)
  | _ => none

/-- `parse_pkginfo_from_pkg`, for both the name and the version; it succeeds whether or not it finds them. -/
def parsePkginfoFromPkg (text : Bytes) : Option Bytes × Option Bytes := (infoLines text).foldl builtLine (none, none)

/-! ### Documents -/

/-- A line of the document. -/
inductive InfoLine
  | comment (text : Bytes)
  | entry (key value : Bytes)

namespace InfoLine

def render : InfoLine → Bytes
  | comment text => 35 :: text
  | entry key value => key ++ ascii " = " ++ value

/-- A line as `makepkg` writes it. -/
def Written : InfoLine → Prop
  | comment text => 10 ∉ text ∧ 0 ∉ text
  | entry key value => (∀ c ∈ key, c ≠ 61 ∧ c ≠ 35 ∧ c ≠ 0 ∧ isSpace c = false) ∧ key ≠ [] ∧ 10 ∉ value ∧ 0 ∉ value

/-- The value, if this is the key. -/
def valueOf (key : Bytes) : InfoLine → Option Bytes
  | comment _ => none
  | entry k value => if k = key then some value else none

end InfoLine

/-- A document with one name and one version. -/
structure PkgInfo where
  lines : List InfoLine
  written : ∀ l ∈ lines, l.Written
  name : Bytes
  version : Bytes
  names : lines.filterMap (InfoLine.valueOf (ascii "pkgname")) = [name]
  versions : lines.filterMap (InfoLine.valueOf (ascii "pkgver")) = [version]

def PkgInfo.text (doc : PkgInfo) : Bytes := doc.lines.flatMap fun l => l.render ++ [10]

/-- That all readers succeed, with the name and the version. -/
structure Agree (nameSize verSize : Nat) (doc : PkgInfo) : Prop where
  store : readPkginfo nameSize verSize doc.text = some (doc.name, doc.version)
  build : parsePkginfo doc.text = some (doc.name, doc.version)
  chroot : parsePkginfoFromPkg doc.text = (some doc.name, some doc.version)

/-! ### Lines -/

section Lines
variable {l : InfoLine} {ls : List InfoLine} {key value row : Bytes} {c : UInt8}

lemma newline_notMem (h : l.Written) : (10 : UInt8) ∉ l.render := by
  cases l with
  | comment text => simpa [InfoLine.render] using h.1
  | entry key value =>
    have hkey : (10 : UInt8) ∉ key := by
      intro hmem
      have hspace := (h.1 10 hmem).2.2.2
      exact absurd hspace (by decide)
    have hsep : (10 : UInt8) ∉ ascii " = " := by decide
    simp [InfoLine.render, hkey, hsep, h.2.2.1]

lemma zero_notMem (h : l.Written) : (0 : UInt8) ∉ l.render := by
  cases l with
  | comment text => simpa [InfoLine.render] using h.2
  | entry key value =>
    have hkey : (0 : UInt8) ∉ key := fun hmem => (h.1 0 hmem).2.2.1 rfl
    have hsep : (0 : UInt8) ∉ ascii " = " := by decide
    simp [InfoLine.render, hkey, hsep, h.2.2.2]

/-- No line begins with such a word and `=`. -/
lemma not_key_equals (h : l.Written) {word : Bytes} (hword : ∀ c ∈ word, c ≠ 61 ∧ c ≠ 32 ∧ c ≠ 35) (hne : word ≠ [])
    (hrow : row <+: l.render) : ¬(word <+: row ∧ row[word.length]? = some 61) := by
  rintro ⟨hpre, hequals⟩
  have hpre' := hpre.trans hrow
  have hequals' : l.render[word.length]? = some 61 := by
    obtain ⟨rest, hrest⟩ := hrow
    rw [← hrest]
    obtain ⟨hlt, -⟩ := List.getElem?_eq_some_iff.1 hequals
    rw [List.getElem?_append_left hlt, hequals]
  have hat : ∀ i, i < word.length → l.render[i]? = word[i]? := by
    intro i hi
    obtain ⟨rest, hrest⟩ := hpre'
    rw [← hrest, List.getElem?_append_left hi]
  cases l with
  | comment text =>
    obtain ⟨d, tail, rfl⟩ := List.exists_cons_of_ne_nil hne
    have hfirst := hat 0 (by simp)
    exact (hword d List.mem_cons_self).2.2 (Option.some.inj hfirst).symm
  | entry key value =>
    have hrender : (InfoLine.entry key value).render = key ++ 32 :: 61 :: 32 :: value := by
      simp [InfoLine.render]
      rfl
    rw [hrender] at hequals' hat
    rcases Nat.lt_trichotomy word.length key.length with hlt | heq | hgt
    · rw [List.getElem?_append_left hlt] at hequals'
      exact (h.1 61 (List.mem_of_getElem? hequals')).1 rfl
    · rw [heq, List.getElem?_append_right le_rfl, Nat.sub_self] at hequals'
      exact absurd (Option.some.inj hequals') (by decide)
    · have hblank := hat key.length hgt
      rw [List.getElem?_append_right le_rfl, Nat.sub_self] at hblank
      exact (hword 32 (List.mem_of_getElem? hblank.symm)).2.1 rfl

/-- No line begins with a blank. -/
lemma dropWhile_isSpace (h : l.Written) (hrow : row <+: l.render) : row.dropWhile isSpace = row := by
  cases row with
  | nil => rfl
  | cons c row =>
    have hfirst : isSpace c = false := by
      obtain ⟨rest, hrest⟩ := hrow
      cases l with
      | comment text =>
        obtain ⟨rfl, -⟩ := List.cons.inj hrest
        rfl
      | entry key value =>
        obtain ⟨d, tail, rfl⟩ := List.exists_cons_of_ne_nil h.2.1
        obtain ⟨rfl, -⟩ := List.cons.inj hrest
        exact (h.1 c List.mem_cons_self).2.2.2
    exact List.dropWhile_cons_of_neg (by simp [hfirst])

/-- **The store's reader finds nothing** in a line, or in what it has read of one. -/
lemma storeLine_written (h : l.Written) (hrow : row <+: l.render) (nameSize verSize : Nat) (found : Bytes × Bytes) :
    storeLine nameSize verSize found row = found := by
  have hname : ¬(ascii "pkgname" <+: row ∧ row[7]? = some 61) :=
    not_key_equals h (List.forall_iff_forall_mem.1 (by decide)) (by decide) hrow
  have hver : ¬(ascii "pkgver" <+: row ∧ row[6]? = some 61) :=
    not_key_equals h (List.forall_iff_forall_mem.1 (by decide)) (by decide) hrow
  unfold storeLine
  rw [dropWhile_isSpace h hrow]
  show (if ascii "pkgname" <+: row ∧ row[7]? = some 61 then _ else _) = _
  rw [if_neg hname, if_neg hver]

/-- The words of what was read are lines, the last of which may be cut off. -/
lemma of_mem_words_take (h : ∀ l ∈ ls, l.Written) (k : Nat) {w : Bytes}
    (hw : w ∈ words (· = 10) ((ls.flatMap fun l => l.render ++ [10]).take k)) : ∃ l ∈ ls, w <+: l.render := by
  induction ls generalizing k with
  | nil =>
    rw [List.flatMap_nil, List.take_nil] at hw
    cases hw
  | cons l ls ih =>
    obtain ⟨hl, hls⟩ := List.forall_mem_cons.1 h
    have hclean : ∀ s : Bytes, s <+: l.render → ∀ x ∈ s, decide (x = 10) = false := by
      intro s hs x hx
      exact decide_eq_false fun heq => newline_notMem hl (hs.subset (heq ▸ hx))
    have htext : ((l :: ls).flatMap fun l => l.render ++ [10]) =
        l.render ++ 10 :: ls.flatMap fun l => l.render ++ [10] := by simp
    rw [htext] at hw
    by_cases hk : k ≤ l.render.length
    · rw [List.take_append_of_le_length hk] at hw
      have hpre := List.take_prefix k l.render
      by_cases hempty : l.render.take k = []
      · rw [hempty] at hw
        cases hw
      · rw [words_eq_singleton (hclean _ hpre) hempty, List.mem_singleton] at hw
        exact ⟨l, List.mem_cons_self, hw ▸ hpre⟩
    · obtain ⟨j, rfl⟩ : ∃ j, k = l.render.length + (j + 1) := ⟨k - l.render.length - 1, by omega⟩
      rw [List.take_length_add_append, List.take_succ_cons] at hw
      have hne : l.render ≠ [] := by
        cases l with
        | comment text => exact List.cons_ne_nil _ _
        | entry key value => simp [InfoLine.render, hl.2.1]
      rw [words_append_cons (hclean _ (List.prefix_refl _)) hne (by decide)] at hw
      rcases List.mem_cons.1 hw with rfl | hw
      · exact ⟨l, List.mem_cons_self, List.prefix_refl _⟩
      · obtain ⟨l', hl', hpre⟩ := ih hls j hw
        exact ⟨l', List.mem_cons_of_mem _ hl', hpre⟩

end Lines

/-! ### What the readers find -/

/-- **The store's reader finds nothing**, in any document. -/
lemma readPkginfo_text (nameSize verSize : Nat) (doc : PkgInfo) : readPkginfo nameSize verSize doc.text = none := by
  have hzero : (0 : UInt8) ∉ doc.text.take 8191 := by
    intro hmem
    obtain ⟨l, hl, hc⟩ := List.mem_flatMap.1 (List.mem_of_mem_take hmem)
    rcases List.mem_append.1 hc with hc | hc
    · exact zero_notMem (doc.written l hl) hc
    · exact absurd (List.mem_singleton.1 hc) (by decide)
  have hfold : (words (· = 10) (doc.text.take 8191)).foldl (storeLine nameSize verSize) ([], []) = ([], []) := by
    have hkeep : ∀ ws : List Bytes, (∀ w ∈ ws, ∃ l ∈ doc.lines, w <+: l.render) →
        ws.foldl (storeLine nameSize verSize) ([], []) = ([], []) := by
      intro ws hws
      induction ws with
      | nil => rfl
      | cons w ws ih =>
        obtain ⟨⟨l, hl, hw⟩, hws⟩ := List.forall_mem_cons.1 hws
        rw [List.foldl_cons, storeLine_written (doc.written l hl) hw, ih hws]
    exact hkeep _ fun w hw => of_mem_words_take doc.written 8191 hw
  unfold readPkginfo
  rw [cstr_eq_self hzero, hfold]
  split_ifs <;> rfl

section Built
variable {l : InfoLine} {ls : List InfoLine} {key value word : Bytes}

/-- The word in front of a blank. -/
lemma entry_begins_iff (hkey : ∀ c ∈ key, c ≠ 32) (hword : ∀ c ∈ word, c ≠ 32) :
    word ++ ascii " = " <+: key ++ ascii " = " ++ value ↔ key = word := by
  constructor
  · rintro ⟨rest, hrest⟩
    have htake : ∀ (s t : Bytes), (∀ c ∈ s, c ≠ 32) → (s ++ 32 :: t).takeWhile (· ≠ 32) = s := by
      intro s t hs
      rw [List.takeWhile_append_of_pos fun c hc => decide_eq_true (hs c hc),
        List.takeWhile_cons_of_neg (by decide), List.append_nil]
    have hcut := congrArg (List.takeWhile (· ≠ (32 : UInt8))) hrest
    rw [List.append_assoc, List.append_assoc] at hcut
    exact ((htake key _ hkey).symm.trans (hcut.symm.trans (htake word _ hword)))
  · rintro rfl
    exact List.prefix_append _ _

/-- A line is read as its value, if it has the key. -/
lemma builtLine_render (h : l.Written) (found : Option Bytes × Option Bytes) : builtLine found l.render =
    ((l.valueOf (ascii "pkgname")).or found.1, (l.valueOf (ascii "pkgver")).or found.2) := by
  cases l with
  | comment text =>
    have hname : ¬ascii "pkgname = " <+: (InfoLine.comment text).render := fun hpre =>
      absurd (List.cons_prefix_cons.1 hpre).1 (by decide)
    have hver : ¬ascii "pkgver = " <+: (InfoLine.comment text).render := fun hpre =>
      absurd (List.cons_prefix_cons.1 hpre).1 (by decide)
    unfold builtLine
    rw [if_neg hname, if_neg hver]
    rfl
  | entry key value =>
    have hkey : ∀ c ∈ key, c ≠ 32 := by
      rintro c hc rfl
      exact absurd (h.1 32 hc).2.2.2 (by decide)
    have hname : ascii "pkgname = " <+: key ++ ascii " = " ++ value ↔ key = ascii "pkgname" :=
      @entry_begins_iff key value (ascii "pkgname") hkey (List.forall_iff_forall_mem.1 (by decide))
    have hver : ascii "pkgver = " <+: key ++ ascii " = " ++ value ↔ key = ascii "pkgver" :=
      @entry_begins_iff key value (ascii "pkgver") hkey (List.forall_iff_forall_mem.1 (by decide))
    unfold builtLine
    show (if ascii "pkgname = " <+: key ++ ascii " = " ++ value then _
      else if ascii "pkgver = " <+: key ++ ascii " = " ++ value then _ else _) =
      ((if key = ascii "pkgname" then some value else none).or found.1,
        (if key = ascii "pkgver" then some value else none).or found.2)
    by_cases hn : key = ascii "pkgname"
    · subst hn
      rw [if_pos (hname.2 rfl), if_pos rfl, if_neg (by decide)]
      rfl
    · by_cases hv : key = ascii "pkgver"
      · subst hv
        rw [if_neg (fun hpre => hn (hname.1 hpre)), if_pos (hver.2 rfl), if_neg hn, if_pos rfl]
        rfl
      · rw [if_neg (fun hpre => hn (hname.1 hpre)), if_neg (fun hpre => hv (hver.1 hpre)), if_neg hn, if_neg hv]
        rfl

/-- The last value of each key is the one that is found. -/
lemma foldl_builtLine (h : ∀ l ∈ ls, l.Written) (found : Option Bytes × Option Bytes) :
    (ls.map InfoLine.render).foldl builtLine found =
      ((ls.filterMap (InfoLine.valueOf (ascii "pkgname"))).getLast?.or found.1,
        (ls.filterMap (InfoLine.valueOf (ascii "pkgver"))).getLast?.or found.2) := by
  induction ls generalizing found with
  | nil => rfl
  | cons l ls ih =>
    obtain ⟨hl, hls⟩ := List.forall_mem_cons.1 h
    have hlast : ∀ (key : Bytes) (o : Option Bytes),
        ((l :: ls).filterMap (InfoLine.valueOf key)).getLast?.or o =
          (ls.filterMap (InfoLine.valueOf key)).getLast?.or ((l.valueOf key).or o) := by
      intro key o
      cases hvalue : l.valueOf key with
      | none => rw [List.filterMap_cons_none hvalue, Option.none_or]
      | some value =>
        rw [List.filterMap_cons_some hvalue, List.getLast?_cons, Option.some_or]
        cases (ls.filterMap (InfoLine.valueOf key)).getLast? <;> rfl
    rw [List.map_cons, List.foldl_cons, builtLine_render hl, ih hls, hlast, hlast]

/-- Lines that fit are read one by one. -/
lemma infoLines_text (h : ∀ l ∈ ls, l.Written) (hfit : ∀ l ∈ ls, l.render.length < 4095) :
    infoLines (ls.flatMap fun l => l.render ++ [10]) = ls.map InfoLine.render := by
  induction ls with
  | nil => rfl
  | cons l ls ih =>
    obtain ⟨hl, hls⟩ := List.forall_mem_cons.1 h
    obtain ⟨hfitl, hfits⟩ := List.forall_mem_cons.1 hfit
    have hline : (cstr (l.render ++ [10])).takeWhile (· ≠ 10) = l.render := by
      have hzero := zero_notMem hl
      have hclean : ∀ c ∈ l.render, decide (c ≠ 10) = true := by
        intro c hc
        refine decide_eq_true ?_
        rintro rfl
        exact newline_notMem hl hc
      rw [cstr_eq_self (by simpa using hzero),
        List.takeWhile_append_of_pos hclean]
      simp
    have hcons : ((l :: ls).flatMap fun l => l.render ++ [10]) =
        l.render ++ 10 :: ls.flatMap fun l => l.render ++ [10] := by simp
    have ih := ih hls hfits
    unfold infoLines at ih ⊢
    rw [hcons, Gen.fgetsLines_newline, Gen.fgetsLines_line (newline_notMem hl) (by simpa using hfitl),
      List.map_append, ih, List.map_cons, List.map_cons, List.nil_append, hline]
    rfl

/-- The two readers of packages that were built succeed together, with the same. -/
lemma parsePkginfo_eq_some_iff (text name version : Bytes) :
    parsePkginfo text = some (name, version) ↔ parsePkginfoFromPkg text = (some name, some version) := by
  unfold parsePkginfo parsePkginfoFromPkg
  generalize (infoLines text).foldl builtLine (none, none) = found
  obtain ⟨n, v⟩ := found
  cases n <;> cases v <;> simp

lemma parsePkginfoFromPkg_text (doc : PkgInfo) (hfit : ∀ l ∈ doc.lines, l.render.length < 4095) :
    parsePkginfoFromPkg doc.text = (some doc.name, some doc.version) := by
  unfold parsePkginfoFromPkg PkgInfo.text
  rw [infoLines_text doc.written hfit, foldl_builtLine doc.written, doc.names, doc.versions]
  rfl

end Built

/-- **The readers agree on no document.** The store's reader fails on each; the other two find the name and the
version when the lines fit their buffer. -/
theorem readers_never_agree (nameSize verSize : Nat) (doc : PkgInfo) :
    ¬Agree nameSize verSize doc ∧ readPkginfo nameSize verSize doc.text = none ∧
      ((∀ l ∈ doc.lines, l.render.length < 4095) → parsePkginfo doc.text = some (doc.name, doc.version) ∧
        parsePkginfoFromPkg doc.text = (some doc.name, some doc.version)) := by
  have hnone := readPkginfo_text nameSize verSize doc
  refine ⟨fun hagree => ?_, hnone, fun hfit => ?_⟩
  · have hsome := hagree.store
    rw [hnone] at hsome
    cases hsome
  · have hchroot := parsePkginfoFromPkg_text doc hfit
    exact ⟨(parsePkginfo_eq_some_iff _ _ _).2 hchroot, hchroot⟩

/-- `pkgname = vim`, `pkgver = 9.1-1`, behind a comment and around another key. -/
def vimLines : List InfoLine :=
  [.comment (ascii " by makepkg"), .entry (ascii "pkgname") (ascii "vim"), .entry (ascii "pkgbase") (ascii "vim"),
    .entry (ascii "pkgver") (ascii "9.1-1")]

lemma vimLines_written : ∀ l ∈ vimLines, l.Written := by
  intro l hl
  fin_cases hl <;> simp only [InfoLine.Written] <;> decide +kernel

def vimInfo : PkgInfo where
  lines := vimLines
  written := vimLines_written
  name := ascii "vim"
  version := ascii "9.1-1"
  names := rfl
  versions := rfl

/-- **The store's reader fails where the others read `vim` and `9.1-1`.** -/
theorem readers_disagree_vim : readPkginfo 256 128 vimInfo.text = none ∧
    parsePkginfo vimInfo.text = some (ascii "vim", ascii "9.1-1") ∧
    parsePkginfoFromPkg vimInfo.text = (some (ascii "vim"), some (ascii "9.1-1")) := by
  refine ⟨?_, ?_, ?_⟩ <;> decide +kernel

/-- What the document is read as. -/
theorem readers_vim : parsePkginfo vimInfo.text = some (vimInfo.name, vimInfo.version) := by
  have hshort : ∀ l ∈ vimInfo.lines, l.render.length ≤ 20 := by decide +kernel
  exact ((readers_never_agree 256 128 vimInfo).2.2 fun l hl => (hshort l hl).trans_lt (by norm_num)).1

end Two09.Aur
