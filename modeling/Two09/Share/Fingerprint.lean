import Two09.Share.Narinfo

/-!
# What a fingerprint says

Two narinfos with one fingerprint: the separators in the path and in the hash are what tells them apart.
-/

namespace Two09.Share

open Two09.Lib

def semicolon : UInt8 := 59

/-- The fingerprint that a signature of the narinfo is checked against, if it has a hash. -/
def Narinfo.fingerprint (ni : Narinfo) : Option Bytes :=
  ni.narHash.map fun narHash => signingFingerprint ni.storePath narHash ni.narSize ni.references

/-- The same path, the same hash up to its prefix, the same size and the same references. -/
structure SameFields (a b : Narinfo) : Prop where
  storePath : a.storePath = b.storePath
  narHash : a.narHash.map hashField = b.narHash.map hashField
  narSize : a.narSize = b.narSize
  references : a.references = b.references

/-- As many semicolons in the paths, and as many in the hashes. -/
structure SameSeparators (a b : Narinfo) : Prop where
  storePath : a.storePath.count semicolon = b.storePath.count semicolon
  narHash : a.narHash.map (List.count semicolon) = b.narHash.map (List.count semicolon)

/-! ### Cutting at a separator -/

/-- With as many separators in front of it, a separator stands at the same place. -/
lemma append_cons_inj {α : Type} [DecidableEq α] {a a' b b' : List α} {sep : α} (h : a ++ sep :: b = a' ++ sep :: b')
    (hcount : a.count sep = a'.count sep) : a = a' ∧ b = b' := by
  have hinj : ∀ m, sep :: b = m ++ sep :: b' → m.count sep = 0 → m = [] ∧ b = b' := by
    intro m hm hzero
    cases m with
    | nil => exact ⟨rfl, (List.cons.inj hm).2⟩
    | cons c m =>
      obtain ⟨rfl, -⟩ := List.cons.inj hm
      rw [List.count_cons_self] at hzero
      cases hzero
  rcases List.append_eq_append_iff.1 h with ⟨m, rfl, hm⟩ | ⟨m, rfl, hm⟩
  · rw [List.count_append] at hcount
    obtain ⟨rfl, hb⟩ := hinj m hm (by omega)
    exact ⟨(List.append_nil a).symm, hb⟩
  · rw [List.count_append] at hcount
    have hback : ∀ m, sep :: b' = m ++ sep :: b → m.count sep = 0 → m = [] ∧ b' = b := by
      intro m hm hzero
      cases m with
      | nil => exact ⟨rfl, (List.cons.inj hm).2⟩
      | cons c m =>
        obtain ⟨rfl, -⟩ := List.cons.inj hm
        rw [List.count_cons_self] at hzero
        cases hzero
    obtain ⟨rfl, hb⟩ := hback m hm (by omega)
    exact ⟨List.append_nil a', hb.symm⟩

lemma decimal_injective : Function.Injective decimal := by
  intro m n h
  rw [← foldl_decimal m, h, foldl_decimal]

lemma signedDecimal_injective : Function.Injective signedDecimal := by
  have hminus : ∀ n : Nat, (45 : UInt8) ∉ decimal n := fun n hmem =>
    absurd (digit_of_mem_decimal hmem).1 (by decide)
  intro m n h
  unfold signedDecimal at h
  split_ifs at h with hm hn hn
  · have habs := decimal_injective (List.cons.inj h).2
    omega
  · exact absurd (h ▸ List.mem_cons_self) (hminus n.natAbs)
  · exact absurd (h ▸ List.mem_cons_self) (hminus m.natAbs)
  · have habs := decimal_injective h
    omega

lemma count_signedDecimal (n : Int) : (signedDecimal n).count semicolon = 0 := by
  refine List.count_eq_zero.2 fun hmem => ?_
  have hdec : ∀ m : Nat, semicolon ∉ decimal m := fun m hmem => absurd (digit_of_mem_decimal hmem).2 (by decide)
  unfold signedDecimal at hmem
  split_ifs at hmem
  · exact hdec _ ((List.mem_cons.1 hmem).resolve_left (by decide))
  · exact hdec _ hmem

lemma count_hashField (narHash : Bytes) : (hashField narHash).count semicolon = narHash.count semicolon := by
  have hzero : (ascii "sha256:").count semicolon = 0 := by decide
  unfold hashField
  split_ifs
  · rfl
  · rw [List.count_append, hzero, Nat.zero_add]

/-! ### What the parser lets through -/

/-- References that can be told apart when they are joined. -/
def Separate (references : List Bytes) : Prop := ∀ r ∈ references, r ≠ [] ∧ ∀ c ∈ r, decide (c = (32 : UInt8)) = false

lemma separate_words (val : Bytes) : Separate (words (fun c => decide (c = 32 ∨ c = 9)) val) := by
  intro r hr
  obtain ⟨hne, hword⟩ := of_mem_words hr
  exact ⟨hne, fun c hc => decide_eq_false fun heq => of_decide_eq_false (hword c hc) (.inl heq)⟩

lemma separate_line {ni : Draft} (h : Separate ni.references) (line : Bytes) : Separate (ni.line line).references := by
  unfold Draft.line
  cases splitColon line with
  | none => exact h
  | some kv =>
    dsimp only
    split_ifs <;> first | exact h | exact separate_words _

lemma separate_parse {text : Bytes} {ni : Narinfo} (h : narinfoParse text = some ni) : Separate ni.references :=
  parse_induction (fun d => Separate d.references) (List.forall_mem_nil _)
    (fun _ line _ hd => separate_line hd line) h

/-! ### The fields of a fingerprint -/

lemma fields_of_fingerprint {p p' h h' : Bytes} {n n' : Int} {r r' : List Bytes} (hr : Separate r) (hr' : Separate r')
    (heq : signingFingerprint p h n r = signingFingerprint p' h' n' r')
    (hp : p.count semicolon = p'.count semicolon) (hh : h.count semicolon = h'.count semicolon) :
    p = p' ∧ hashField h = hashField h' ∧ n = n' ∧ r = r' := by
  have hshape : ∀ (p h : Bytes) (n : Int) (r : List Bytes), signingFingerprint p h n r = ascii "1;" ++
      (p ++ semicolon :: (hashField h ++ semicolon :: (signedDecimal n ++ semicolon :: [32].intercalate r))) := by
    intro p h n r
    unfold signingFingerprint
    simp only [List.append_assoc]
    rfl
  rw [hshape, hshape] at heq
  obtain ⟨hpath, hbehind⟩ := append_cons_inj (List.append_cancel_left heq) hp
  obtain ⟨hhash, hsizes⟩ := append_cons_inj hbehind (by rw [count_hashField, count_hashField, hh])
  obtain ⟨hsize, hrefs⟩ := append_cons_inj hsizes (by rw [count_signedDecimal, count_signedDecimal])
  have hread : ∀ r, Separate r → words (fun c => decide (c = (32 : UInt8))) ([32].intercalate r) = r :=
    fun r hr => words_intercalate (c := 32) (by decide) hr
  refine ⟨hpath, hhash, signedDecimal_injective hsize, ?_⟩
  rw [← hread r hr, hrefs, hread r' hr']

/-- **Two narinfos with one fingerprint say the same exactly when they have the same separators.** -/
theorem sameFields_iff {text text' : Bytes} {ni ni' : Narinfo} (h : narinfoParse text = some ni)
    (h' : narinfoParse text' = some ni') (hsome : ni.fingerprint.isSome = true)
    (heq : ni.fingerprint = ni'.fingerprint) : SameFields ni ni' ↔ SameSeparators ni ni' := by
  have hsep := separate_parse h
  have hsep' := separate_parse h'
  obtain ⟨path, url, narHash, size, refs, sigs⟩ := ni
  obtain ⟨path', url', narHash', size', refs', sigs'⟩ := ni'
  obtain ⟨fp, hfp⟩ := Option.isSome_iff_exists.1 hsome
  obtain ⟨hash, rfl, hfield⟩ := Option.map_eq_some_iff.1 hfp
  obtain ⟨hash', rfl, hfield'⟩ := Option.map_eq_some_iff.1 (heq.symm.trans hfp)
  have hcount : ∀ {x y : Bytes}, (some x).map hashField = (some y).map hashField →
      x.count semicolon = y.count semicolon := by
    intro x y hxy
    rw [← count_hashField x, Option.some.inj hxy, count_hashField]
  constructor
  · rintro ⟨rfl, hhash, -, -⟩
    exact ⟨rfl, congrArg some (hcount hhash)⟩
  · rintro ⟨hpath, hhash⟩
    obtain ⟨rfl, hhashes, rfl, rfl⟩ := fields_of_fingerprint hsep hsep' (hfield.trans hfield'.symm) hpath
      (Option.some.inj hhash)
    exact ⟨rfl, congrArg some hhashes, rfl, rfl⟩

/-! ### One fingerprint for two paths -/

def longPathText : Bytes := ascii "StorePath: /p;sha256:h\nNarHash: sha256:k\nNarSize: 1\n"

def longHashText : Bytes := ascii "StorePath: /p\nNarHash: sha256:h;sha256:k\nNarSize: 1\n"

def longPath : Narinfo := ⟨ascii "/p;sha256:h", none, some (ascii "sha256:k"), 1, [], []⟩

def longHash : Narinfo := ⟨ascii "/p", none, some (ascii "sha256:h;sha256:k"), 1, [], []⟩

lemma narinfoParse_longPath : narinfoParse longPathText = some longPath := by decide +kernel

lemma narinfoParse_longHash : narinfoParse longHashText = some longHash := by decide +kernel

theorem sameFields_iff_longPath : SameFields longPath longHash ↔ SameSeparators longPath longHash :=
  sameFields_iff narinfoParse_longPath narinfoParse_longHash rfl (by decide +kernel)

/-- The hash of one begins in the path of the other. -/
theorem one_fingerprint : narinfoParse longPathText = some longPath ∧ narinfoParse longHashText = some longHash ∧
    longPath.fingerprint.isSome = true ∧ longPath.fingerprint = longHash.fingerprint ∧
      ¬ SameFields longPath longHash := by
  refine ⟨narinfoParse_longPath, narinfoParse_longHash, rfl, by decide +kernel, fun h => ?_⟩
  exact absurd h.storePath (by decide)

end Two09.Share
