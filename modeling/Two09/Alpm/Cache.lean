import Two09.Lib.Posix
import Two09.Lib.Words
import Mathlib

/-!
# The package cache

`cmd_cache` of `main.c`, which prunes the directory of downloaded packages. The entries stay in the order in
which the directory lists them: nothing sorts them.
-/

namespace Two09.Alpm

open Lib Posix

/-! ### The loop -/

section Prune

variable {α β κ : Type*} [DecidableEq κ]

/-- `strcmp(entries[j].name, entries[i].name) == 0` -/
def sameKey (key : α → κ) (e e' : α) : Bool := decide (key e' = key e)

/-- The second loop of `cmd_cache`, with the number of entries that `i += ver_count - 1` still skips: the
entries that it removes. Counts of entries fit an `int`. -/
def prune (key : α → κ) (keep : ℤ) : ℕ → List α → List α
  | _, [] => []
  | skip + 1, _ :: rest => prune key keep skip rest
  | 0, e :: rest =>
    let verCount := (e :: rest).countP (sameKey key e)
    if verCount ≤ keep then prune key keep (verCount - 1) rest
    else
      ((e :: rest).takeWhile (sameKey key e)).take (verCount - keep).toNat ++
        prune key keep (verCount - 1) rest

variable {key : α → κ} {keep : ℤ}

@[simp] lemma sameKey_iff {e e' : α} : sameKey key e e' = true ↔ key e' = key e := decide_eq_true_iff

lemma sameKey_self (e : α) : sameKey key e e = true := sameKey_iff.2 rfl

lemma sameKey_comp (f : α → β) (key : β → κ) (e : α) : sameKey key (f e) ∘ f = sameKey (key ∘ f) e := rfl

lemma prune_map (f : α → β) (key : β → κ) (skip : ℕ) (l : List α) :
    prune key keep skip (l.map f) = (prune (key ∘ f) keep skip l).map f := by
  induction l generalizing skip with
  | nil => cases skip <;> rfl
  | cons e rest ih =>
    cases skip with
    | succ skip => exact ih skip
    | zero =>
      rw [List.map_cons, prune, prune, ← List.map_cons, List.countP_map, List.takeWhile_map,
        sameKey_comp, ih]
      split_ifs
      · rfl
      · rw [List.map_append, List.map_take]

lemma prune_drop (skip : ℕ) (l : List α) : prune key keep skip l = prune key keep 0 (l.drop skip) := by
  induction skip generalizing l with
  | zero => rfl
  | succ skip ih =>
    cases l with
    | nil => rfl
    | cons e rest => exact ih rest

lemma prune_subset (skip : ℕ) (l : List α) : prune key keep skip l ⊆ l := by
  induction l generalizing skip with
  | nil => cases skip <;> exact List.Subset.refl _
  | cons e rest ih =>
    cases skip with
    | succ skip => exact List.Subset.trans (ih skip) (List.subset_cons_self e rest)
    | zero =>
      have hrest := List.Subset.trans (ih ((e :: rest).countP (sameKey key e) - 1)) (List.subset_cons_self e rest)
      rw [prune]
      split_ifs
      · exact hrest
      · exact List.append_subset.2
          ⟨((List.take_sublist _ _).trans (List.takeWhile_sublist _)).subset, hrest⟩

/-- Nothing goes where no key has more entries than are kept. -/
lemma prune_eq_nil {l : List α} (h : ∀ e ∈ l, l.countP (sameKey key e) ≤ keep) (skip : ℕ) :
    prune key keep skip l = [] := by
  induction l generalizing skip with
  | nil => cases skip <;> rfl
  | cons e rest ih =>
    have hrest : ∀ e ∈ rest, rest.countP (sameKey key e) ≤ keep := by
      intro x hx
      have hle := (List.sublist_cons_self e rest).countP_le (p := sameKey key x)
      have := h x (List.mem_cons_of_mem _ hx)
      omega
    cases skip with
    | succ skip => exact ih hrest skip
    | zero =>
      rw [prune, if_pos (h e (List.mem_cons_self ..)), ih hrest]

/-- The entry that is listed first goes when its key has too many. -/
lemma mem_prune_cons {e : α} {rest : List α} (h : keep < (e :: rest).countP (sameKey key e)) :
    e ∈ prune key keep 0 (e :: rest) := by
  obtain ⟨m, hm⟩ : ∃ m, (((e :: rest).countP (sameKey key e) : ℕ) - keep).toNat = m + 1 :=
    ⟨_, (Nat.sub_add_cancel (by omega)).symm⟩
  rw [prune, if_neg (by omega), hm, List.takeWhile_cons_of_pos (sameKey_self e), List.take_succ_cons]
  exact List.mem_cons_self ..

/-- **One key at a time.** From a block of one key the first go, and the last that are to be kept stay. -/
lemma prune_block {k : κ} {block rest : List α} (hblock : ∀ e ∈ block, key e = k) (hrest : ∀ e ∈ rest, key e ≠ k)
    (hpos : block ≠ []) (hkeep : keep < block.length) :
    prune key keep 0 (block ++ rest) = block.take (block.length - keep).toNat ++ prune key keep 0 rest := by
  obtain ⟨e, tail, rfl⟩ := List.exists_cons_of_ne_nil hpos
  have he : key e = k := hblock e (List.mem_cons_self ..)
  have hcount : ((e :: tail ++ rest).countP (sameKey key e)) = (e :: tail).length := by
    have hzero : rest.countP (sameKey key e) = 0 := by
      refine List.countP_eq_zero.2 fun x hx => ?_
      simpa [he] using hrest x hx
    rw [List.countP_append, hzero, Nat.add_zero, List.countP_eq_length]
    intro x hx
    simpa [he] using hblock x hx
  have hwhile : ((e :: tail ++ rest).takeWhile (sameKey key e)) = e :: tail := by
    rw [List.takeWhile_append_of_pos fun x hx => by simpa [he] using hblock x hx]
    refine (congrArg _ ?_).trans (List.append_nil _)
    cases rest with
    | nil => rfl
    | cons r rest =>
      refine List.takeWhile_cons_of_neg ?_
      simpa [he] using hrest r (List.mem_cons_self ..)
  have hcons : e :: tail ++ rest = e :: (tail ++ rest) := rfl
  rw [hcons] at hcount hwhile ⊢
  rw [prune, hcount, hwhile, if_neg (by omega), prune_drop, List.length_cons, Nat.add_sub_cancel,
    List.drop_left]

/-- All of a block goes when none are to be kept. -/
lemma prune_whole_block {k : κ} {block rest : List α} (hkeep : keep ≤ 0) (hblock : ∀ e ∈ block, key e = k)
    (hrest : ∀ e ∈ rest, key e ≠ k) (hpos : block ≠ []) :
    prune key keep 0 (block ++ rest) = block ++ prune key keep 0 rest := by
  have hlength := List.length_pos_iff.2 hpos
  rw [prune_block hblock hrest hpos (by omega), List.take_of_length_le (by omega)]

lemma prune_one_key {l : List α} (hkeep : keep ≤ 0) (h : ∀ e ∈ l, ∀ e' ∈ l, key e = key e') :
    prune key keep 0 l = l := by
  cases l with
  | nil => rfl
  | cons e rest =>
    have hblock := prune_whole_block hkeep (fun x hx => h x hx e (List.mem_cons_self ..)) (List.forall_mem_nil _)
      (List.cons_ne_nil e rest)
    rwa [prune, List.append_nil] at hblock

lemma prune_nodup {l : List α} (hkeep : keep ≤ 0) (h : (l.map key).Nodup) : prune key keep 0 l = l := by
  induction l with
  | nil => rfl
  | cons e rest ih =>
    obtain ⟨hnotin, hrest⟩ := List.nodup_cons.1 h
    have hne : ∀ x ∈ rest, key x ≠ key e := fun x hx heq => hnotin (heq ▸ List.mem_map_of_mem hx)
    have hblock := prune_whole_block hkeep (fun x hx => by rw [List.mem_singleton.1 hx]) hne (List.cons_ne_nil e [])
    rwa [ih hrest, List.singleton_append] at hblock

/-- An entry listed after the first of another key, which has more than one, is passed over. -/
lemma notMem_prune_second {e b : α} {rest : List α} (hne : key b ≠ key e) (hb : b ∉ e :: rest)
    (hmore : ∃ e' ∈ rest, key e' = key e) : b ∉ prune key keep 0 (e :: b :: rest) := by
  obtain ⟨m, hm⟩ : ∃ m, (e :: b :: rest).countP (sameKey key e) = m + 2 := by
    obtain ⟨e', he', hkey⟩ := hmore
    have hpos : 0 < rest.countP (sameKey key e) :=
      List.countP_pos_iff.2 ⟨e', he', sameKey_iff.2 hkey⟩
    rw [List.countP_cons_of_pos (sameKey_self e), List.countP_cons_of_neg (by simpa using hne)]
    exact ⟨_, by rw [← Nat.sub_add_cancel hpos]⟩
  have hskip : b ∉ prune key keep (m + 1) (b :: rest) := by
    rw [prune]
    exact fun hmem => hb (List.mem_cons_of_mem _ (prune_subset _ _ hmem))
  have hwhile : (e :: b :: rest).takeWhile (sameKey key e) = [e] := by
    rw [List.takeWhile_cons_of_pos (sameKey_self e), List.takeWhile_cons_of_neg (by simpa using hne)]
  rw [prune, hm, hwhile]
  split_ifs
  · exact hskip
  · rw [List.mem_append, not_or]
    refine ⟨fun hmem => hb ?_, hskip⟩
    rw [List.mem_singleton.1 (List.mem_of_mem_take hmem)]
    exact List.mem_cons_self ..

end Prune

/-! ### The command -/

def dash : UInt8 := 45

/-- `INT_MAX` -/
abbrev intMax : ℕ := 2147483647

/-- `atoi`, which C leaves undefined for a number that no `int` holds. -/
def atoi (s : Bytes) : Option ℤ :=
  let s := s.dropWhile isSpace
  let negative : Bool := s.head? = some dash
  let s := if negative ∨ s.head? = some 43 then s.drop 1 else s
  let n := (s.takeWhile fun c => 48 ≤ c ∧ c ≤ 57).foldl (fun v c => v * 10 + (c.toNat - 48)) 0
  if negative then if n ≤ intMax + 1 then some (-n) else none
  else if n ≤ intMax then some n else none

/-- The options of `cmd_cache`, how many to keep and whether it is a dry run; none for `--help`. -/
def cacheOptions (keep : ℤ) (dryRun : Bool) : List Bytes → Option (Option (ℤ × Bool))
  | [] => some (some (keep, dryRun))
  | arg :: rest =>
    if ascii "--keep=" <+: arg then (atoi (arg.drop 7)).bind fun keep => cacheOptions keep dryRun rest
    else if arg = ascii "--dry-run" then cacheOptions keep true rest
    else if arg = ascii "--help" then some none
    else cacheOptions keep dryRun rest

/-- A `cache_entry_t`. -/
structure CacheEntry where
  name : Bytes
  filename : Bytes
  size : ℕ

/-- One byte of the loop that looks for dashes: the second last found so far, and the last. -/
def noteDash (found : Option ℕ × Option ℕ) (place : UInt8 × ℕ) : Option ℕ × Option ℕ :=
  if place.1 = dash then (found.2, some place.2) else found

/-- Where the last two dashes of the string are, the second last first. -/
def lastDashes (s : Bytes) : Option ℕ × Option ℕ := s.zipIdx.foldl noteDash (none, none)

/-- The name that the file is taken to be a version of. -/
def entryName (filename : Bytes) : Bytes :=
  match (lastDashes filename).1 with
  | some nameLen => filename.take nameLen
  | none => filename

/-- Whether the first loop of `cmd_cache` takes the file of the name. -/
def Listed (filename : Bytes) : Prop :=
  filename.head? ≠ some 46 ∧ ¬ ascii ".db" <:+: filename ∧ ¬ ascii ".files" <:+: filename

instance : DecidablePred Listed := fun _ => inferInstanceAs (Decidable (_ ∧ _ ∧ _))

/-- The first loop of `cmd_cache`, over what `readdir` gives and the sizes of the files. -/
def cacheEntries (listing : List (Bytes × ℕ)) : List CacheEntry :=
  (listing.filter fun de => Listed de.1).map fun de => ⟨entryName de.1, de.1, de.2⟩

/-- What a run of `cmd_cache` does: its status, the lines it prints about the files, the files it unlinks, how
many it counts as deleted and how many bytes as freed. -/
structure CacheRun where
  status : ℕ
  lines : List Bytes
  unlinked : List Bytes
  deleted : ℕ
  totalFreed : ℕ

/-- The line about a file. -/
def CacheEntry.line (dryRun : Bool) (e : CacheEntry) : Bytes :=
  ascii (if dryRun then "  would remove: " else "  removing: ") ++ e.filename ++ ascii " (" ++
    decimal (e.size / 1024) ++ ascii " KB)"

def cacheUsage : List Bytes :=
  [ascii "Usage: 209 cache [--keep=N] [--dry-run]",
    ascii "  Prune old package cache files, keeping N most recent versions.",
    ascii "  --keep=N     Keep N most recent versions (default: 3)",
    ascii "  --dry-run    Show what would be deleted without deleting"]

/-- `cmd_cache`, where the cache directory can be opened if there is a listing of it; none where C leaves open
what happens. -/
def cmdCache (argv : List Bytes) (dir : Option (List (Bytes × ℕ))) : Option CacheRun :=
  (cacheOptions 3 false argv).map fun options =>
    match options, dir with
    | none, _ => ⟨0, cacheUsage, [], 0, 0⟩
    | some _, none => ⟨1, [], [], 0, 0⟩
    | some (keep, dryRun), some listing =>
      let removed := prune CacheEntry.name keep 0 (cacheEntries listing)
      ⟨0, removed.map (CacheEntry.line dryRun), if dryRun then [] else removed.map CacheEntry.filename,
        removed.length, (removed.map CacheEntry.size).sum⟩

/-! ### Cache files -/

/-- The name of the file that holds a version of a package. -/
def cacheFilename (name ver rel arch : Bytes) : Bytes :=
  name ++ dash :: (ver ++ dash :: (rel ++ dash :: (arch ++ ascii ".pkg.tar.zst")))

/-- A cache file. -/
@[ext] structure CacheFile where
  name : Bytes
  ver : Bytes
  rel : Bytes
  arch : Bytes
  dash_notMem_ver : dash ∉ ver
  dash_notMem_rel : dash ∉ rel
  dash_notMem_arch : dash ∉ arch
  valid : ValidName (cacheFilename name ver rel arch)
deriving DecidableEq

namespace CacheFile

def filename (f : CacheFile) : Bytes := cacheFilename f.name f.ver f.rel f.arch

/-- What `cmd_cache` takes for the name of the package. -/
def key (f : CacheFile) : Bytes := f.name ++ dash :: f.ver

end CacheFile

/-! ### Names -/

lemma atoi_decimal (n : ℕ) : atoi (decimal n) = if n ≤ intMax then some (n : ℤ) else none := by
  obtain ⟨c, t, hct⟩ := List.exists_cons_of_ne_nil (decimal_ne_nil n)
  have hrange : 48 ≤ c ∧ c ≤ 57 := digit_of_mem_decimal (hct ▸ List.mem_cons_self ..)
  have hspace : isSpace c = false := by
    refine decide_eq_false fun hor => ?_
    rcases hor with rfl | ⟨-, hle⟩
    · exact absurd hrange.1 (by decide)
    · exact absurd (UInt8.le_trans hrange.1 hle) (by decide)
  have hsign : c ≠ dash ∧ c ≠ 43 := by
    constructor
    all_goals
      rintro rfl
      exact absurd hrange.1 (by decide)
  have hdrop : (decimal n).dropWhile isSpace = decimal n := by
    rw [hct, List.dropWhile_cons_of_neg (by simp [hspace])]
  have hhead : (decimal n).head? ≠ some dash ∧ (decimal n).head? ≠ some 43 := by
    rw [hct]
    exact ⟨fun heq => hsign.1 (Option.some.inj heq), fun heq => hsign.2 (Option.some.inj heq)⟩
  have htake : (decimal n).takeWhile (fun c => 48 ≤ c ∧ c ≤ 57) = decimal n :=
    List.takeWhile_eq_self_iff.2 fun c hc => decide_eq_true (digit_of_mem_decimal hc)
  simp only [atoi, hdrop, hhead.1, hhead.2, decide_false, Bool.false_eq_true, or_self, if_false, htake, foldl_decimal]

lemma foldl_noteDash {s : Bytes} (h : dash ∉ s) (k : ℕ) (found : Option ℕ × Option ℕ) :
    (s.zipIdx k).foldl noteDash found = found := by
  induction s generalizing k with
  | nil => rfl
  | cons c s ih =>
    rw [List.mem_cons, not_or] at h
    rw [List.zipIdx_cons, List.foldl_cons, noteDash, if_neg (Ne.symm h.1), ih h.2]

/-- The name is what precedes the second last dash. -/
lemma entryName_append {a b c : Bytes} (hb : dash ∉ b) (hc : dash ∉ c) :
    entryName (a ++ dash :: (b ++ dash :: c)) = a := by
  have hsecond : (lastDashes (a ++ dash :: (b ++ dash :: c))).1 = some a.length := by
    rw [lastDashes, List.zipIdx_append, List.foldl_append, List.zipIdx_cons, List.foldl_cons, List.zipIdx_append,
      List.foldl_append, foldl_noteDash hb, List.zipIdx_cons, List.foldl_cons, foldl_noteDash hc, noteDash, if_pos rfl,
      noteDash, if_pos rfl, Nat.zero_add]
  rw [entryName, hsecond]
  exact List.take_left

/-- A dash with none behind it is where it is. -/
lemma append_dash_inj {a a' b b' : Bytes} (hb : dash ∉ b) (hb' : dash ∉ b') (h : a ++ dash :: b = a' ++ dash :: b') :
    a = a' ∧ b = b' := by
  rcases List.append_eq_append_iff.1 h with ⟨m, rfl, hm⟩ | ⟨m, rfl, hm⟩
  all_goals
    cases m with
    | nil => simpa [eq_comm] using hm
    | cons c m =>
      obtain ⟨-, rfl⟩ := List.cons.inj hm
      simp at hb hb'

namespace CacheFile

lemma filename_eq (f : CacheFile) :
    f.filename = f.key ++ dash :: (f.rel ++ dash :: (f.arch ++ ascii ".pkg.tar.zst")) := by
  simp [filename, cacheFilename, key]

lemma dash_notMem_tail (f : CacheFile) : dash ∉ f.arch ++ ascii ".pkg.tar.zst" := by
  rw [List.mem_append, not_or]
  exact ⟨f.dash_notMem_arch, by decide⟩

@[simp] lemma entryName_filename (f : CacheFile) : entryName f.filename = f.key := by
  rw [filename_eq, entryName_append f.dash_notMem_rel f.dash_notMem_tail]

lemma key_eq_iff {f g : CacheFile} : f.key = g.key ↔ f.name = g.name ∧ f.ver = g.ver := by
  refine ⟨append_dash_inj f.dash_notMem_ver g.dash_notMem_ver, ?_⟩
  rintro ⟨hname, hver⟩
  rw [key, key, hname, hver]

lemma filename_injective : Function.Injective filename := by
  intro f g h
  have hassoc : ∀ f : CacheFile, f.filename = f.key ++ dash :: f.rel ++ dash :: (f.arch ++ ascii ".pkg.tar.zst") := by
    intro f
    rw [filename_eq, List.append_assoc, List.cons_append]
  rw [hassoc, hassoc] at h
  obtain ⟨hfront, htail⟩ := append_dash_inj f.dash_notMem_tail g.dash_notMem_tail h
  obtain ⟨hkey, hrel⟩ := append_dash_inj f.dash_notMem_rel g.dash_notMem_rel hfront
  obtain ⟨hname, hver⟩ := key_eq_iff.1 hkey
  exact CacheFile.ext hname hver hrel (List.append_cancel_right htail)

end CacheFile

section Versions

variable {V : Type*} [LinearOrder V] (version : Bytes → Bytes → V) (files : Finset CacheFile)

/-- The versions of the package of the file that there are. -/
def versions (f : CacheFile) : Finset V :=
  (files.filter fun g => g.name = f.name).image fun g => version g.ver g.rel

/-- The file is one of the `n` most recent versions of its package. -/
def Recent (n : ℕ) (f : CacheFile) : Prop :=
  ((versions version files f).filter fun v => version f.ver f.rel < v).card < n

/-- Whatever the order in which the directory is listed, `209 cache --keep=n` leaves the `n` most recent versions
of each package and deletes the others. -/
def PrunesRight (n : ℕ) : Prop :=
  ∀ listing : List (Bytes × ℕ),
    (listing.map Prod.fst : Multiset Bytes) = dot ::ₘ dotdot ::ₘ files.val.map CacheFile.filename →
    ∃ run, cmdCache [ascii "--keep=" ++ decimal n] (some listing) = some run ∧
      (∀ name ∈ run.unlinked, ∃ f ∈ files, f.filename = name) ∧
      ∀ f ∈ files, f.filename ∈ run.unlinked ↔ ¬ Recent version files n f

/-- The files that `cmd_cache` does not pass over for their names. -/
def listedFiles : Finset CacheFile := files.filter fun f => Listed f.filename

/-- The files that `cmd_cache` takes for versions of the same package as the file. -/
def alike (f : CacheFile) : Finset CacheFile :=
  files.filter fun g => Listed g.filename ∧ g.name = f.name ∧ g.ver = f.ver

/-- When pruning goes right: `n` fits an `int`, and either no package has more than `n` versions and no more than
`n` files differ in the release or the architecture alone; or `n` is zero, no file is passed over for its name,
and the files are taken for all different packages or for one. -/
def Prunable (n : ℕ) : Prop :=
  n ≤ intMax ∧
    (0 < n ∧ (∀ f ∈ files, (versions version files f).card ≤ n) ∧ (∀ f ∈ files, (alike files f).card ≤ n) ∨
      n = 0 ∧ (∀ f ∈ files, Listed f.filename) ∧
        ((∀ f ∈ files, alike files f = {f}) ∨ ∀ f ∈ files, alike files f = files))

variable {version files} {n : ℕ}

/-! ### What a run unlinks -/

lemma not_recent_zero (f : CacheFile) : ¬ Recent version files 0 f := Nat.not_lt_zero _

/-- All files are recent where no package has more versions than are kept: the oldest is not. -/
lemma recent_iff : (∀ f ∈ files, Recent version files n f) ↔ ∀ f ∈ files, (versions version files f).card ≤ n := by
  constructor
  · intro h f hf
    have hne : (versions version files f).Nonempty :=
      ⟨_, Finset.mem_image_of_mem _ (Finset.mem_filter.2 ⟨hf, rfl⟩)⟩
    obtain ⟨g, hg, hmin⟩ := Finset.mem_image.1 ((versions version files f).min'_mem hne)
    obtain ⟨hg, hname⟩ := Finset.mem_filter.1 hg
    have hversions : versions version files g = versions version files f := by
      rw [versions, versions, hname]
    have hnewer : (versions version files f).erase (version g.ver g.rel) ⊆
        (versions version files f).filter fun v => version g.ver g.rel < v := by
      intro v hv
      obtain ⟨hneq, hv⟩ := Finset.mem_erase.1 hv
      refine Finset.mem_filter.2 ⟨hv, lt_of_le_of_ne ?_ hneq.symm⟩
      rw [hmin]
      exact Finset.min'_le _ _ hv
    have hrecent := h g hg
    rw [Recent, hversions] at hrecent
    have hcard := Finset.card_le_card hnewer
    have herase := Finset.pred_card_le_card_erase (s := versions version files f) (a := version g.ver g.rel)
    omega
  · intro h f hf
    have hlt : ((versions version files f).filter fun v => version f.ver f.rel < v) ⊂ versions version files f := by
      refine Finset.filter_ssubset.2 ⟨version f.ver f.rel, ?_, lt_irrefl _⟩
      exact Finset.mem_image_of_mem _ (Finset.mem_filter.2 ⟨hf, rfl⟩)
    exact (Finset.card_lt_card hlt).trans_le (h f hf)

lemma unlinked_cmdCache (n : ℕ) (listing : List (Bytes × ℕ)) :
    (cmdCache [ascii "--keep=" ++ decimal n] (some listing)).map CacheRun.unlinked =
      if n ≤ intMax then some (prune entryName n 0 ((listing.map Prod.fst).filter fun name => Listed name))
      else none := by
  have hoptions : cacheOptions 3 false [ascii "--keep=" ++ decimal n] =
      if n ≤ intMax then some (some ((n : ℤ), false)) else none := by
    have hdrop : (ascii "--keep=" ++ decimal n).drop 7 = decimal n :=
      List.drop_left' (by decide : (ascii "--keep=").length = 7)
    rw [cacheOptions, if_pos (List.prefix_append _ _), hdrop, atoi_decimal]
    split_ifs <;> rfl
  have hprune : (prune CacheEntry.name n 0 (cacheEntries listing)).map CacheEntry.filename =
      prune entryName n 0 ((listing.map Prod.fst).filter fun name => Listed name) := by
    rw [cacheEntries, prune_map, List.map_map, List.filter_map, prune_map]
    rfl
  rw [cmdCache, hoptions, ← hprune]
  split_ifs <;> rfl

/-- A listing of the directory, with the files in the order. -/
def listingOf (order : List CacheFile) : List (Bytes × ℕ) :=
  (dot, 0) :: (dotdot, 0) :: order.map fun f => (f.filename, 0)

lemma map_listingOf (order : List CacheFile) :
    (listingOf order).map Prod.fst = dot :: dotdot :: order.map CacheFile.filename := by
  simp [listingOf, Function.comp_def]

/-- **Only the order counts.** A run takes the files in some order, which can be any. -/
lemma prunesRight_iff_orders : PrunesRight version files n ↔ n ≤ intMax ∧ ∀ order : List CacheFile,
    (order : Multiset CacheFile) = (listedFiles files).val →
      ∀ f ∈ files, f ∈ prune CacheFile.key n 0 order ↔ ¬ Recent version files n f := by
  have hmem : ∀ (f : CacheFile) (order : List CacheFile),
      f.filename ∈ prune entryName n 0 (order.map CacheFile.filename) ↔ f ∈ prune CacheFile.key n 0 order := by
    intro f order
    have hkey : entryName ∘ CacheFile.filename = CacheFile.key := funext CacheFile.entryName_filename
    rw [prune_map, hkey, List.mem_map_of_injective CacheFile.filename_injective]
  have hdots : ¬ Listed dot ∧ ¬ Listed dotdot := by decide
  constructor
  · intro h
    obtain ⟨passed, hpassed⟩ : ∃ passed : List CacheFile, (passed : Multiset CacheFile) =
        files.val.filter fun f => ¬ Listed f.filename := Quot.exists_rep _
    have hrun : ∀ order : List CacheFile, (order : Multiset CacheFile) = (listedFiles files).val →
        ∃ run, cmdCache [ascii "--keep=" ++ decimal n] (some (listingOf (order ++ passed))) = some run ∧
          ∀ f ∈ files, f.filename ∈ run.unlinked ↔ ¬ Recent version files n f := by
      intro order horder
      obtain ⟨run, hrun, -, hunlinked⟩ := h (listingOf (order ++ passed)) (by
        rw [map_listingOf, ← Multiset.cons_coe, ← Multiset.cons_coe, ← Multiset.map_coe, ← Multiset.coe_add, horder,
          hpassed]
        exact congrArg (fun m => dot ::ₘ dotdot ::ₘ m.map CacheFile.filename)
          (Multiset.filter_add_not (fun f => Listed f.filename) files.val))
      exact ⟨run, hrun, hunlinked⟩
    have hn : n ≤ intMax := by
      obtain ⟨order, horder⟩ := Quot.exists_rep (listedFiles files).val
      obtain ⟨run, hrun, -⟩ := hrun order horder
      have hsome := unlinked_cmdCache n (listingOf (order ++ passed))
      by_contra hn
      rw [hrun, if_neg hn] at hsome
      cases hsome
    refine ⟨hn, fun order horder f hf => ?_⟩
    obtain ⟨run, hrun, hunlinked⟩ := hrun order horder
    have hlisted : ((listingOf (order ++ passed)).map Prod.fst).filter (fun name => Listed name) =
        order.map CacheFile.filename := by
      have hin : ∀ f ∈ order, Listed f.filename := by
        intro f hf
        rw [← Multiset.mem_coe, horder] at hf
        exact (Finset.mem_filter.1 hf).2
      have hout : ∀ f ∈ passed, ¬ Listed f.filename := by
        intro f hf
        rw [← Multiset.mem_coe, hpassed] at hf
        exact (Multiset.mem_filter.1 hf).2
      rw [map_listingOf, List.filter_cons_of_neg (by simpa using hdots.1),
        List.filter_cons_of_neg (by simpa using hdots.2), List.map_append, List.filter_append]
      refine (congrArg₂ _ ?_ ?_).trans (List.append_nil _)
      · simpa [List.filter_eq_self] using hin
      · simpa [List.filter_eq_nil_iff] using hout
    have hsome := unlinked_cmdCache n (listingOf (order ++ passed))
    rw [hrun, if_pos hn, hlisted] at hsome
    rw [← hmem, ← Option.some.inj hsome]
    exact hunlinked f hf
  · rintro ⟨hn, h⟩ listing hlisting
    have hnames : (((listing.map Prod.fst).filter fun name => Listed name : List Bytes) : Multiset Bytes) =
        (listedFiles files).val.map CacheFile.filename := by
      rw [← Multiset.filter_coe, hlisting, Multiset.filter_cons_of_neg _ hdots.1,
        Multiset.filter_cons_of_neg _ hdots.2, Multiset.filter_map]
      rfl
    obtain ⟨order, horder⟩ : ((listing.map Prod.fst).filter fun name => Listed name) ∈
        Set.range (List.map CacheFile.filename) := by
      rw [Set.range_list_map]
      intro name hname
      rw [← Multiset.mem_coe, hnames] at hname
      obtain ⟨f, -, rfl⟩ := Multiset.mem_map.1 hname
      exact ⟨f, rfl⟩
    have hfiles : (order : Multiset CacheFile) = (listedFiles files).val := by
      refine Multiset.map_injective CacheFile.filename_injective ?_
      rw [Multiset.map_coe, horder, hnames]
    have hrun := unlinked_cmdCache n listing
    rw [if_pos hn, ← horder] at hrun
    obtain ⟨run, hrun, hunlinked⟩ := Option.map_eq_some_iff.1 hrun
    refine ⟨run, hrun, fun name hname => ?_, fun f hf => ?_⟩
    · rw [hunlinked] at hname
      obtain ⟨f, hf, rfl⟩ := List.mem_map.1 (prune_subset _ _ hname)
      rw [← Multiset.mem_coe, hfiles] at hf
      exact ⟨f, Finset.mem_of_mem_filter f hf, rfl⟩
    · rw [hunlinked, hmem]
      exact h order hfiles f hf

/-! ### When it goes right -/

section Orders

variable {f : CacheFile} {order : List CacheFile}

lemma mem_alike {g : CacheFile} : g ∈ alike files f ↔ g ∈ listedFiles files ∧ g.key = f.key := by
  rw [alike, listedFiles, Finset.mem_filter, Finset.mem_filter, CacheFile.key_eq_iff, and_assoc]

/-- An order of the files in a set, with the others of a larger set behind them. -/
lemma exists_order (s : Finset CacheFile) (hs : s ⊆ listedFiles files) :
    ∃ rest : List CacheFile, (∀ g ∈ rest, g ∉ s) ∧ ∀ front : List CacheFile, (front : Multiset CacheFile) = s.val →
      ((front ++ rest : List CacheFile) : Multiset CacheFile) = (listedFiles files).val := by
  refine ⟨(listedFiles files \ s).toList, fun g hg => (Finset.mem_sdiff.1 (Finset.mem_toList.1 hg)).2, ?_⟩
  intro front hfront
  rw [← Multiset.coe_add, hfront, Finset.coe_toList, ← Finset.disjUnion_val _ _ Finset.disjoint_sdiff,
    Finset.disjUnion_eq_union, Finset.union_sdiff_of_subset hs]

lemma countP_eq_card (horder : (order : Multiset CacheFile) = (listedFiles files).val) (f : CacheFile) :
    order.countP (sameKey CacheFile.key f) = (alike files f).card := by
  have halike : alike files f = (listedFiles files).filter fun g => g.key = f.key := by
    ext g
    rw [mem_alike, Finset.mem_filter]
  rw [halike, Finset.card_def, Finset.filter_val, ← horder, Multiset.filter_coe, Multiset.coe_card,
    ← List.countP_eq_length_filter]
  rfl

/-- With too many alike, what goes depends on the order: the first does, and the last that is kept does not. -/
lemma card_alike_le (hpos : 0 < n) (h : PrunesRight version files n) : (alike files f).card ≤ n := by
  obtain ⟨-, h⟩ := prunesRight_iff_orders.1 h
  by_contra! hmany
  obtain ⟨x, hx⟩ := Finset.card_pos.1 (by omega : 0 < (alike files f).card)
  obtain ⟨hlisted, hkey⟩ := mem_alike.1 hx
  have hsame : alike files x = alike files f := by
    ext g
    rw [mem_alike, mem_alike, hkey]
  have hsub : alike files f ⊆ listedFiles files := fun g hg => (mem_alike.1 hg).1
  have hdeleted : ¬ Recent version files n x := by
    obtain ⟨rest, -, horder⟩ := exists_order {x} (Finset.singleton_subset_iff.2 hlisted)
    have horder := horder [x] rfl
    refine (h _ horder x (Finset.mem_of_mem_filter x hlisted)).1 (mem_prune_cons ?_)
    have hcount := countP_eq_card horder x
    rw [hsame] at hcount
    exact_mod_cast hmany.trans_eq hcount.symm
  obtain ⟨rest, hrest, horder⟩ := exists_order (alike files f) hsub
  obtain ⟨others, hothers⟩ : ∃ others : List CacheFile, (others : Multiset CacheFile) = (alike files f).val.erase x :=
    Quot.exists_rep _
  have hblock : ((others ++ [x] : List CacheFile) : Multiset CacheFile) = (alike files f).val := by
    rw [← Multiset.coe_add, hothers, Multiset.coe_singleton, add_comm, Multiset.singleton_add,
      Multiset.cons_erase hx]
  have horder := horder _ hblock
  have hxothers : x ∉ others := by
    rw [← Multiset.mem_coe, hothers]
    exact (alike files f).nodup.notMem_erase
  have hlength : (others ++ [x]).length = (alike files f).card := by
    rw [Finset.card_def, ← hblock, Multiset.coe_card]
  have hin : ∀ g ∈ others ++ [x], g.key = f.key := by
    intro g hg
    rw [← Multiset.mem_coe, hblock] at hg
    exact (mem_alike.1 hg).2
  have hout : ∀ g ∈ rest, g.key ≠ f.key := by
    intro g hg heq
    have hmem : g ∈ ((others ++ [x] ++ rest : List CacheFile) : Multiset CacheFile) :=
      List.mem_append_right _ hg
    rw [horder] at hmem
    exact hrest g hg (mem_alike.2 ⟨hmem, heq⟩)
  have hkept : x ∉ prune CacheFile.key n 0 (others ++ [x] ++ rest) := by
    rw [prune_block hin hout (by simp) (by omega), List.mem_append, not_or]
    constructor
    · rw [List.take_append_of_le_length (by rw [List.length_append, List.length_singleton]; omega)]
      exact fun hmem => hxothers (List.mem_of_mem_take hmem)
    · exact fun hmem => hrest x (prune_subset _ _ hmem) hx
  exact hkept ((h _ horder x (Finset.mem_of_mem_filter x hlisted)).2 hdeleted)

/-- What `--keep=0` leaves depends on the order too, where some but not all of the files are alike. -/
lemma alike_of_prunesRight (h : PrunesRight version files 0) :
    (∀ f ∈ files, Listed f.filename) ∧ ((∀ f ∈ files, alike files f = {f}) ∨ ∀ f ∈ files, alike files f = files) := by
  obtain ⟨-, h⟩ := prunesRight_iff_orders.1 h
  have hall : ∀ order : List CacheFile, (order : Multiset CacheFile) = (listedFiles files).val →
      ∀ f ∈ files, f ∈ prune CacheFile.key 0 0 order := by
    intro order horder f hf
    exact (h order horder f hf).2 (not_recent_zero f)
  have hlisted : ∀ f ∈ files, f ∈ listedFiles files := by
    intro f hf
    obtain ⟨order, horder⟩ : ∃ order : List CacheFile, (order : Multiset CacheFile) = (listedFiles files).val :=
      Quot.exists_rep _
    have hmem := prune_subset _ _ (hall order horder f hf)
    rwa [← Multiset.mem_coe, horder] at hmem
  refine ⟨fun f hf => (Finset.mem_filter.1 (hlisted f hf)).2, or_iff_not_imp_left.2 fun hnot f hf => ?_⟩
  obtain ⟨e, he, hne⟩ : ∃ e ∈ files, alike files e ≠ {e} := by simpa using hnot
  obtain ⟨e', he', hkey, hdiff⟩ : ∃ e' ∈ files, e'.key = e.key ∧ e' ≠ e := by
    by_contra! hnone
    refine hne (Finset.ext fun g => ?_)
    rw [mem_alike, Finset.mem_singleton]
    refine ⟨fun hg => hnone g (Finset.mem_of_mem_filter g hg.1) hg.2, ?_⟩
    rintro rfl
    exact ⟨hlisted g he, rfl⟩
  have hone : ∀ b ∈ files, b.key = e.key := by
    intro b hb
    by_contra hb'
    have hbe : e ≠ b := fun heq => hb' (heq ▸ rfl)
    have hbe' : e' ≠ b := fun heq => hb' (heq ▸ hkey)
    obtain ⟨rest, hrest, horder⟩ := exists_order {e, b}
      (Finset.insert_subset (hlisted e he) (Finset.singleton_subset_iff.2 (hlisted b hb)))
    have hpair : ([e, b] : Multiset CacheFile) = ({e, b} : Finset CacheFile).val := by
      rw [Finset.insert_val_of_notMem (by simpa using hbe)]
      rfl
    have horder := horder [e, b] hpair
    have hmem : e' ∈ [e, b] ++ rest := by
      rw [← Multiset.mem_coe, horder]
      exact hlisted e' he'
    have hmore : e' ∈ rest := by simpa [hdiff, hbe'] using hmem
    refine notMem_prune_second hb' ?_ ⟨e', hmore, hkey⟩ (hall _ horder b hb)
    rw [List.mem_cons, not_or]
    exact ⟨hbe.symm, fun hmem => hrest b hmem (by simp)⟩
  refine Finset.ext fun g => ?_
  rw [mem_alike]
  exact ⟨fun hg => Finset.mem_of_mem_filter g hg.1, fun hg => ⟨hlisted g hg, (hone g hg).trans (hone f hf).symm⟩⟩

lemma prune_eq_self (horder : (order : Multiset CacheFile) = (listedFiles files).val)
    (h : (∀ f ∈ files, alike files f = {f}) ∨ ∀ f ∈ files, alike files f = files) :
    prune CacheFile.key 0 0 order = order := by
  have hmem : ∀ f ∈ order, f ∈ listedFiles files ∧ f ∈ files := by
    intro f hf
    rw [← Multiset.mem_coe, horder] at hf
    exact ⟨hf, Finset.mem_of_mem_filter f hf⟩
  rcases h with h | h
  · have hnodup : order.Nodup := by
      rw [← Multiset.coe_nodup, horder]
      exact (listedFiles files).nodup
    refine prune_nodup (Int.le_refl 0) (hnodup.map_on fun f hf g hg hkey => ?_)
    have hg' := mem_alike.2 ⟨(hmem f hf).1, hkey⟩
    rw [h g (hmem g hg).2] at hg'
    exact Finset.mem_singleton.1 hg'
  · refine prune_one_key (Int.le_refl 0) fun f hf g hg => ?_
    have hf' : f ∈ alike files g := by
      rw [h g (hmem g hg).2]
      exact (hmem f hf).2
    exact (mem_alike.1 hf').2

end Orders

/-- **When pruning goes right.** -/
theorem prunesRight_iff {V : Type*} [LinearOrder V] (version : Bytes → Bytes → V) (files : Finset CacheFile) (n : ℕ) :
    PrunesRight version files n ↔ Prunable version files n := by
  have hquiet : (∀ f ∈ files, (alike files f).card ≤ n) → ∀ order : List CacheFile,
      (order : Multiset CacheFile) = (listedFiles files).val → prune CacheFile.key n 0 order = [] := by
    intro h order horder
    refine prune_eq_nil (fun f hf => ?_) 0
    rw [← Multiset.mem_coe, horder] at hf
    rw [countP_eq_card horder]
    exact_mod_cast h f (Finset.mem_of_mem_filter f hf)
  constructor
  · intro h
    have horders := prunesRight_iff_orders.1 h
    refine ⟨horders.1, ?_⟩
    rcases Nat.eq_zero_or_pos n with rfl | hpos
    · exact .inr ⟨rfl, alike_of_prunesRight h⟩
    · have halike : ∀ f ∈ files, (alike files f).card ≤ n := fun f _ => card_alike_le hpos h
      obtain ⟨order, horder⟩ : ∃ order : List CacheFile, (order : Multiset CacheFile) = (listedFiles files).val :=
        Quot.exists_rep _
      refine .inl ⟨hpos, recent_iff.1 fun f hf => ?_, halike⟩
      by_contra hold
      have hmem := (horders.2 order horder f hf).2 hold
      rw [hquiet halike order horder] at hmem
      cases hmem
  · rintro ⟨hn, ⟨-, hversions, halike⟩ | ⟨rfl, hlisted, h⟩⟩
    · refine prunesRight_iff_orders.2 ⟨hn, fun order horder f hf => ?_⟩
      rw [hquiet halike order horder]
      simpa using recent_iff.2 hversions f hf
    · refine prunesRight_iff_orders.2 ⟨hn, fun order horder f hf => ?_⟩
      have hmem : f ∈ order := by
        rw [← Multiset.mem_coe, horder]
        exact Finset.mem_filter.2 ⟨hf, hlisted f hf⟩
      rw [Nat.cast_zero, prune_eq_self horder h]
      exact iff_of_true hmem (not_recent_zero f)

end Versions

/-! ### Two versions of a package -/

lemma dash_notMem_one : dash ∉ ascii "1" := by decide

lemma dash_notMem_two : dash ∉ ascii "2" := by decide

lemma dash_notMem_any : dash ∉ ascii "any" := by decide

lemma valid_old : ValidName (cacheFilename (ascii "p") (ascii "1") (ascii "1") (ascii "any")) :=
  ⟨by decide, by decide, by decide, by decide, by decide, by decide⟩

lemma valid_new : ValidName (cacheFilename (ascii "p") (ascii "2") (ascii "1") (ascii "any")) :=
  ⟨by decide, by decide, by decide, by decide, by decide, by decide⟩

def oldFile : CacheFile :=
  ⟨ascii "p", ascii "1", ascii "1", ascii "any", dash_notMem_one, dash_notMem_one, dash_notMem_any, valid_old⟩

def newFile : CacheFile :=
  ⟨ascii "p", ascii "2", ascii "1", ascii "any", dash_notMem_two, dash_notMem_one, dash_notMem_any, valid_new⟩

/-- Versions that are single digits, in their order. -/
def digitVersion (ver _rel : Bytes) : ℕ := (ver.headD 0).toNat

/-- `209 cache --keep=1` leaves both `p-1-1-any.pkg.tar.zst` and `p-2-1-any.pkg.tar.zst`. -/
theorem not_prunesRight_two_versions : ¬ PrunesRight digitVersion {oldFile, newFile} 1 := by
  intro h
  have horder : ([oldFile, newFile] : Multiset CacheFile) = (listedFiles {oldFile, newFile}).val := by decide
  have hold : ¬ Recent digitVersion {oldFile, newFile} 1 oldFile := by
    unfold Recent
    decide
  have hmem := ((prunesRight_iff_orders.1 h).2 [oldFile, newFile] horder oldFile (by decide)).2 hold
  exact absurd hmem (by decide)

end Two09.Alpm
