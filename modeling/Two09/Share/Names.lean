import Two09.Share.Fetch
import Two09.Snapshot.Store

/-!
# Names in the store

The name that `compute_store_path` makes, as `narinfo_path_hash`, `share_parse_uri` and `is_share_dir` read it.
-/

namespace Two09.Share

open Two09.Lib Two09.Lib.Posix Two09.Store

/-! ### The digits -/

/-- The number that a group of bytes stands for. -/
def groupValue (b : Bytes) : Nat := b.foldr (fun x v => v * 256 + x.toNat) 0

lemma groupValue_lt (b : Bytes) : groupValue b < 256 ^ b.length := by
  induction b with
  | nil => simp [groupValue]
  | cons x b ih =>
    have hx := x.toNat_lt
    rw [groupValue, List.foldr_cons, List.length_cons, pow_succ]
    unfold groupValue at ih
    omega

/-- Bytes of one length with one value are the same. -/
lemma groupValue_inj {b b' : Bytes} (hlen : b.length = b'.length) (h : groupValue b = groupValue b') : b = b' := by
  induction b generalizing b' with
  | nil => exact (List.length_eq_zero_iff.1 hlen.symm).symm
  | cons x b ih =>
    cases b' with
    | nil => simp at hlen
    | cons y b' =>
      have hx := x.toNat_lt
      have hy := y.toNat_lt
      simp only [groupValue, List.foldr_cons] at h
      have hxy : x = y := UInt8.toNat_inj.1 (by omega)
      rw [hxy, ih (by simpa using hlen) (show groupValue b = groupValue b' by unfold groupValue; omega)]

lemma base32_inj : ∀ d < 32, ∀ e < 32, base32.getD d 0 = base32.getD e 0 → d = e := by decide

/-- Eight digits are those of one number. -/
lemma digits_inj {n n' : Nat} (hn : n < 2 ^ 40) (hn' : n' < 2 ^ 40)
    (h : (List.range 8).map (fun c => base32.getD (n / 32 ^ c % 32) 0) =
      (List.range 8).map fun c => base32.getD (n' / 32 ^ c % 32) 0) : n = n' := by
  have hdigit : ∀ c < 8, n / 32 ^ c % 32 = n' / 32 ^ c % 32 := by
    intro c hc
    refine base32_inj _ (Nat.mod_lt _ (by decide)) _ (Nat.mod_lt _ (by decide)) ?_
    exact List.map_inj_left.1 h c (List.mem_range.2 hc)
  have h0 := hdigit 0 (by omega)
  have h1 := hdigit 1 (by omega)
  have h2 := hdigit 2 (by omega)
  have h3 := hdigit 3 (by omega)
  have h4 := hdigit 4 (by omega)
  have h5 := hdigit 5 (by omega)
  have h6 := hdigit 6 (by omega)
  have h7 := hdigit 7 (by omega)
  norm_num at h0 h1 h2 h3 h4 h5 h6 h7 hn hn'
  omega

section Groups
variable {d d' : Bytes} {g : Nat}

/-- The group of a digest that is long enough can be read back. -/
lemma hashGroup_inj (hd : g * 5 + 5 ≤ d.length) (hd' : g * 5 + 5 ≤ d'.length)
    (h : hashGroup d g = hashGroup d' g) : (d.drop (g * 5)).take 5 = (d'.drop (g * 5)).take 5 := by
  have hlen : ((d.drop (g * 5)).take 5).length = 5 := by
    rw [List.length_take, List.length_drop]
    omega
  have hlen' : ((d'.drop (g * 5)).take 5).length = 5 := by
    rw [List.length_take, List.length_drop]
    omega
  refine groupValue_inj (hlen.trans hlen'.symm) (digits_inj ?_ ?_ h)
  · have hlt := groupValue_lt ((d.drop (g * 5)).take 5)
    rwa [hlen] at hlt
  · have hlt := groupValue_lt ((d'.drop (g * 5)).take 5)
    rwa [hlen'] at hlt

/-- **The digits tell the first twenty bytes.** -/
lemma hash32_inj (hd : 20 ≤ d.length) (hd' : 20 ≤ d'.length) (h : hash32 d = hash32 d') :
    d.take 20 = d'.take 20 := by
  have hgroup : ∀ (d : Bytes) (g : Nat), (hashGroup d g).length = 8 := fun d g => by simp [hashGroup]
  have hsplit : ∀ d : Bytes, hash32 d =
      hashGroup d 0 ++ (hashGroup d 1 ++ (hashGroup d 2 ++ (hashGroup d 3 ++ []))) := fun d => rfl
  rw [hsplit, hsplit] at h
  obtain ⟨h0, h⟩ := List.append_inj h (by rw [hgroup, hgroup])
  obtain ⟨h1, h⟩ := List.append_inj h (by rw [hgroup, hgroup])
  obtain ⟨h2, h⟩ := List.append_inj h (by rw [hgroup, hgroup])
  obtain ⟨h3, -⟩ := List.append_inj h (by rw [hgroup, hgroup])
  have hparts : ∀ d : Bytes, d.take 20 = (d.drop (0 * 5)).take 5 ++ ((d.drop (1 * 5)).take 5 ++
      ((d.drop (2 * 5)).take 5 ++ (d.drop (3 * 5)).take 5)) := by
    intro d
    simp only [Nat.zero_mul, Nat.one_mul, List.drop_zero, Nat.reduceMul]
    rw [show 20 = 5 + (5 + (5 + 5)) from rfl, List.take_add, List.take_add, List.take_add, List.drop_drop,
      List.drop_drop]
  rw [hparts d, hparts d', hashGroup_inj (by omega) (by omega) h0, hashGroup_inj (by omega) (by omega) h1,
    hashGroup_inj (by omega) (by omega) h2, hashGroup_inj (by omega) (by omega) h3]

end Groups

/-! ### The readers -/

/-- The entries that `share_list_local` lists, before it sorts them. -/
def shareListLocal (s : Snapshot.State) : List StoreName :=
  s.world.store.keys.filter fun n => n.val.head? ≠ some 46 ∧ isShareDir n.val = true

section Names
variable (sha256 : Bytes → Bytes) (narHash name version : Bytes)

/-- What stands behind the hash. -/
def storeLabel : Bytes := name ++ ascii "-" ++ version

/-- The digits of the digest. -/
def storeDigits : Bytes := hash32 (sha256 (fingerprint narHash (storeLabel name version)))

/-- The base name of the store path. -/
def storeBase : Bytes := (storeDir ++ computeStorePath sha256 narHash name version).rtakeWhile (· ≠ slash)

/-- **A store name is unambiguous**: its hash is found and is one of a share's URI, and only what is named as
`share_take` names it is taken for a share. -/
structure Unambiguous : Prop where
  hash : narinfoPathHash (storeDir ++ computeStorePath sha256 narHash name version) =
    some (storeDigits sha256 narHash name version)
  parse : shareParseUri (storeDigits sha256 narHash name version) =
    some (storeDigits sha256 narHash name version)
  parse_uri : shareParseUri (ascii "nar://" ++ storeDigits sha256 narHash name version) =
    some (storeDigits sha256 narHash name version)
  share : isShareDir (storeBase sha256 narHash name version) = true ↔ name = ascii "share"
  others : name ≠ ascii "share" → ∀ (s : Snapshot.State) (n : StoreName),
    n.val = storeBase sha256 narHash name version →
      n ∉ shareListLocal s ∧ ∀ hash, Snapshot.findShare hash s ≠ some n

/-- When it is: without a slash, for a name that does not begin with `share-`; with one, if what follows the
last of them is by chance such a name with this hash. -/
def UnambiguousWhen : Prop :=
  if slash ∈ storeLabel name version then
    ∃ rest, (storeLabel name version).rtakeWhile (· ≠ slash) =
      storeDigits sha256 narHash name version ++ 45 :: rest ∧
        (ascii "share-" <+: rest ↔ name = ascii "share")
  else ¬ ascii "share-" <+: name

variable {sha256 narHash name version}

lemma dash_notMem_storeDigits : (45 : UInt8) ∉ storeDigits sha256 narHash name version :=
  fun h => absurd (mem_base32_of_mem_hash32 h) (by decide)

lemma slash_notMem_storeDigits : slash ∉ storeDigits sha256 narHash name version :=
  fun h => absurd (mem_base32_of_mem_hash32 h) (by decide)

lemma length_storeDigits : (storeDigits sha256 narHash name version).length = 32 := length_hash32 _

lemma storePath_eq : storeDir ++ computeStorePath sha256 narHash name version =
    storeDir ++ (storeDigits sha256 narHash name version ++ 45 :: storeLabel name version) := by
  rw [computeStorePath, addressed, storeDigits, storeLabel, List.append_assoc]
  rfl

/-- Behind the last slash stands what does not depend on what is before it. -/
lemma rtakeWhile_append_of_mem {a b : Bytes} (h : slash ∈ b) :
    (a ++ b).rtakeWhile (· ≠ slash) = b.rtakeWhile (· ≠ slash) := by
  induction b using List.reverseRecOn with
  | nil => cases h
  | append_singleton b x ih =>
    rw [← List.append_assoc, List.rtakeWhile_concat, List.rtakeWhile_concat]
    by_cases hx : x = slash
    · simp [hx]
    · have hb : slash ∈ b := by
        rcases List.mem_append.1 h with hb | hb
        · exact hb
        · exact absurd (List.mem_singleton.1 hb).symm hx
      rw [ih hb]

lemma rtakeWhile_of_notMem {a b : Bytes} (h : slash ∉ b) (ha : a.getLast? = some slash) :
    (a ++ b).rtakeWhile (· ≠ slash) = b := by
  induction b using List.reverseRecOn with
  | nil =>
    obtain ⟨init, rfl⟩ := List.getLast?_eq_some_iff.1 ha
    rw [List.append_nil, List.rtakeWhile_concat_neg _ _ _ (by simp)]
  | append_singleton b x ih =>
    have hx : x ≠ slash := by
      rintro rfl
      exact h (List.mem_append_right _ List.mem_cons_self)
    rw [← List.append_assoc, List.rtakeWhile_concat_pos _ _ _ (by simpa using hx),
      ih fun hb => h (List.mem_append_left _ hb)]

/-- The base name, without a slash in the label and with one. -/
lemma storeBase_eq : storeBase sha256 narHash name version =
    if slash ∈ storeLabel name version then (storeLabel name version).rtakeWhile (· ≠ slash)
    else storeDigits sha256 narHash name version ++ 45 :: storeLabel name version := by
  rw [storeBase, storePath_eq]
  split_ifs with hslash
  · rw [← List.append_assoc, ← List.singleton_append, ← List.append_assoc]
    exact rtakeWhile_append_of_mem hslash
  · refine rtakeWhile_of_notMem ?_ (by decide)
    rw [List.mem_append, List.mem_cons]
    rintro (h | h | h)
    · exact slash_notMem_storeDigits h
    · exact absurd h (by decide)
    · exact hslash h

/-- The hash is found where the base name begins with it and a dash. -/
lemma narinfoPathHash_iff : narinfoPathHash (storeDir ++ computeStorePath sha256 narHash name version) =
      some (storeDigits sha256 narHash name version) ↔
    ∃ rest, storeBase sha256 narHash name version = storeDigits sha256 narHash name version ++ 45 :: rest := by
  have hdigits := @dash_notMem_storeDigits sha256 narHash name version
  rw [narinfoPathHash, ← storeBase]
  generalize storeDigits sha256 narHash name version = digits at *
  generalize storeBase sha256 narHash name version = base
  constructor
  · intro h
    split_ifs at h with hdash
    obtain rfl := Option.some.inj h
    have hsplit := List.takeWhile_append_dropWhile (p := fun c : UInt8 => decide (c ≠ 45)) (l := base)
    cases hdrop : base.dropWhile (fun c : UInt8 => decide (c ≠ 45)) with
    | nil =>
      rw [hdrop, List.append_nil] at hsplit
      exact absurd (hsplit.symm ▸ hdash) hdigits
    | cons c rest =>
      have hc : c = 45 := by
        have hhead := List.head_dropWhile_not (fun c : UInt8 => decide (c ≠ 45)) (l := base) (by rw [hdrop]; exact List.cons_ne_nil _ _)
        simp only [hdrop, List.head_cons] at hhead
        simpa using hhead
      rw [hdrop, hc] at hsplit
      exact ⟨rest, hsplit.symm⟩
  · rintro ⟨rest, rfl⟩
    rw [if_pos (by simp), List.takeWhile_append_of_pos]
    · simp
    · intro c hc
      rw [decide_eq_true_iff]
      rintro rfl
      exact hdigits hc

/-- A name with a hash is taken for a share by what follows. -/
lemma isShareDir_digits (digest rest : Bytes) :
    isShareDir (hash32 digest ++ 45 :: rest) = true ↔ ascii "share-" <+: rest := by
  have hlen := length_hash32 digest
  have hall : ((hash32 digest ++ 45 :: rest).take 32).all (fun c => decide (c ∈ base32)) = true := by
    rw [List.take_left' hlen, List.all_eq_true]
    exact fun c hc => decide_eq_true (mem_base32_of_mem_hash32 hc)
  have hdash : (hash32 digest ++ 45 :: rest)[32]? = some 45 := by
    rw [List.getElem?_append_right hlen.le, hlen]
    rfl
  have hrest : (hash32 digest ++ 45 :: rest).drop 33 = rest := by
    rw [List.drop_append, List.drop_of_length_le (by omega), hlen]
    rfl
  rw [isShareDir, hall, hdash, hrest]
  simp only [Bool.and_true, decide_true, Bool.and_eq_true, decide_eq_true_eq, List.isPrefixOf_iff_prefix,
    List.length_append, List.length_cons, hlen]
  constructor
  · exact fun h => h.2
  · intro h
    have hle := h.length_le
    refine ⟨?_, h⟩
    have hsix : (ascii "share-").length = 6 := rfl
    omega

/-- What begins as the label of a share does. -/
lemma prefix_storeLabel_iff : ascii "share-" <+: storeLabel name version ↔
    name = ascii "share" ∨ ascii "share-" <+: name := by
  have hshare : ascii "share-" = ascii "share" ++ [45] := rfl
  have hlabel : storeLabel name version = name ++ 45 :: version := by
    rw [storeLabel, List.append_assoc]
    rfl
  rw [hlabel]
  constructor
  · intro h
    rcases Nat.lt_or_ge name.length 6 with hlen | hlen
    · left
      -- the name is shorter than the prefix, so the dash behind it is the one of the prefix
      have hname : name ++ [45] <+: ascii "share-" := by
        refine List.prefix_of_prefix_length_le ⟨version, by simp⟩ h ?_
        rw [List.length_append, List.length_singleton]
        exact hlen
      rw [hshare, List.prefix_concat_iff] at hname
      rcases hname with hname | hname
      · exact List.append_cancel_right hname
      · exact absurd (hname.subset (List.mem_append_right _ List.mem_cons_self)) (by decide)
    · right
      exact List.prefix_of_prefix_length_le h (List.prefix_append _ _) hlen
  · rintro (rfl | h)
    · exact ⟨version, by rw [hshare, List.append_assoc]; rfl⟩
    · exact h.trans (List.prefix_append _ _)

/-- What is neither a share nor taken for one is left alone. -/
lemma untouched_of_not_share {s : Snapshot.State} {n : StoreName} (h : isShareDir n.val ≠ true) :
    n ∉ shareListLocal s ∧ ∀ hash, Snapshot.findShare hash s ≠ some n := by
  constructor
  · intro hmem
    have htest := of_decide_eq_true (List.mem_filter.1 hmem).2
    exact h htest.2
  · intro hash hfind
    have htest := List.find?_some hfind
    rw [Bool.and_eq_true] at htest
    exact h htest.1

/-- The digits are a share's URI. -/
lemma shareParseUri_digits (digest : Bytes) : shareParseUri (hash32 digest) = some (hash32 digest) ∧
    shareParseUri (ascii "nar://" ++ hash32 digest) = some (hash32 digest) := by
  have hvalid : (hash32 digest).length = 32 ∧ ∀ c ∈ hash32 digest, c ∈ base32 :=
    ⟨length_hash32 digest, fun c hc => mem_base32_of_mem_hash32 hc⟩
  have hno : ¬ (ascii "nar://").isPrefixOf (hash32 digest) = true := by
    intro hstart
    have hcolon : (58 : UInt8) ∈ hash32 digest :=
      (List.isPrefixOf_iff_prefix.1 hstart).subset (by decide)
    exact absurd (mem_base32_of_mem_hash32 hcolon) (by decide)
  constructor
  · rw [shareParseUri, if_neg hno]
    exact if_pos hvalid
  · have hstart : (ascii "nar://").isPrefixOf (ascii "nar://" ++ hash32 digest) = true :=
      List.isPrefixOf_iff_prefix.2 (List.prefix_append _ _)
    have hrest : (ascii "nar://" ++ hash32 digest).drop 6 = hash32 digest := rfl
    rw [shareParseUri, if_pos hstart, hrest]
    exact if_pos hvalid

/-- When a store name is unambiguous. -/
lemma unambiguous_iff : Unambiguous sha256 narHash name version ↔ UnambiguousWhen sha256 narHash name version := by
  have hparse := shareParseUri_digits (sha256 (fingerprint narHash (storeLabel name version)))
  have hiff : Unambiguous sha256 narHash name version ↔
      ∃ rest, storeBase sha256 narHash name version = storeDigits sha256 narHash name version ++ 45 :: rest ∧
        (ascii "share-" <+: rest ↔ name = ascii "share") := by
    constructor
    · intro h
      obtain ⟨rest, hrest⟩ := narinfoPathHash_iff.1 h.hash
      refine ⟨rest, hrest, ?_⟩
      rw [← h.share, hrest]
      exact (isShareDir_digits _ rest).symm
    · rintro ⟨rest, hrest, hshare⟩
      have hdir : isShareDir (storeBase sha256 narHash name version) = true ↔ name = ascii "share" := by
        rw [← hshare, hrest]
        exact isShareDir_digits _ rest
      refine ⟨narinfoPathHash_iff.2 ⟨rest, hrest⟩, hparse.1, hparse.2, hdir, fun hne s n hn => ?_⟩
      refine untouched_of_not_share ?_
      rw [hn]
      exact mt hdir.1 hne
  rw [hiff, storeBase_eq, UnambiguousWhen]
  split_ifs with hslash
  · rfl
  · have hne : ¬ ascii "share-" <+: ascii "share" := by decide
    constructor
    · rintro ⟨rest, hrest, hshare⟩ hstart
      obtain rfl := List.tail_eq_of_cons_eq (List.append_cancel_left hrest)
      have hname := hshare.1 (prefix_storeLabel_iff.2 (.inr hstart))
      rw [hname] at hstart
      exact hne hstart
    · intro hstart
      refine ⟨_, rfl, ?_⟩
      rw [prefix_storeLabel_iff]
      simp [hstart]

end Names

/-- **Store names**: the digits tell the twenty bytes that they are made of; and what reads a store name agrees
with what made it unless the name begins as the label of a share does, or a slash hides it. -/
theorem store_names_iff (sha256 : Bytes → Bytes) :
    (∀ d d' : Bytes, 20 ≤ d.length → 20 ≤ d'.length → hash32 d = hash32 d' → d.take 20 = d'.take 20) ∧
    ∀ narHash name version, Unambiguous sha256 narHash name version ↔
      UnambiguousWhen sha256 narHash name version :=
  ⟨fun _ _ => hash32_inj, fun _ _ _ => unambiguous_iff⟩

/-- A package whose name begins with `share-` is taken for a share. -/
theorem share_utils_ambiguous :
    isShareDir (storeBase (fun _ => List.replicate 32 0) [] (ascii "share-utils") (ascii "1")) = true ∧
      ¬ Unambiguous (fun _ => List.replicate 32 0) [] (ascii "share-utils") (ascii "1") := by
  have hdir : isShareDir (storeBase (fun _ => List.replicate 32 0) [] (ascii "share-utils") (ascii "1")) = true := by
    decide +kernel
  exact ⟨hdir, fun h => absurd (h.share.1 hdir) (by decide)⟩

end Two09.Share
