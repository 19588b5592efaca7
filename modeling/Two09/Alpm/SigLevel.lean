import Two09.Lib.Json
import Two09.Lib.Words

/-!
# Signature levels

How the `SigLevel` string of the configuration becomes the level that packages are checked at:
`siglevel_apply_token` and `parse_siglevel` of `two9_init.c`, the three levels of the handle and
what `alpm_option_get_remote_file_siglevel` makes of them. Beside it stands the reading of the
string that the configuration's manual gives (`Reading`), and the condition under which the two
agree on whether packages have to be signed.
-/

namespace Two09.Alpm

open Lib

/-- The bits of an `alpm_siglevel_t`. -/
structure SigLevel where
  package : Bool
  packageOptional : Bool
  packageMarginalOk : Bool
  packageUnknownOk : Bool
  database : Bool
  databaseOptional : Bool
  databaseMarginalOk : Bool
  databaseUnknownOk : Bool
  useDefault : Bool
deriving DecidableEq, Repr

/-- No bit set. -/
def SigLevel.zero : SigLevel := ⟨false, false, false, false, false, false, false, false, false⟩

/-! ### The parser -/

/-- `siglevel_apply_token` -/
def siglevelApplyToken (level : SigLevel) (tok : Bytes) (unset : Bool) : Option SigLevel :=
  if tok = ascii "Package" then
    if unset then some { level with package := false } else some { level with package := true }
  else if tok = ascii "PackageOptional" then
    if unset then some { level with package := false, packageOptional := false }
    else some { level with package := true, packageOptional := true }
  else if tok = ascii "PackageRequired" then
    if unset then some { level with package := false }
    else some { level with package := true, packageOptional := false }
  else if tok = ascii "PackageMarginalOk" then
    some { level with packageMarginalOk := !unset }
  else if tok = ascii "PackageTrustUnknown" then
    some { level with packageUnknownOk := !unset }
  else if tok = ascii "Database" then
    if unset then some { level with database := false } else some { level with database := true }
  else if tok = ascii "DatabaseOptional" then
    if unset then some { level with database := false, databaseOptional := false }
    else some { level with database := true, databaseOptional := true }
  else if tok = ascii "DatabaseRequired" then
    if unset then some { level with database := false }
    else some { level with database := true, databaseOptional := false }
  else if tok = ascii "DatabaseMarginalOk" then
    some { level with databaseMarginalOk := !unset }
  else if tok = ascii "DatabaseTrustUnknown" then
    some { level with databaseUnknownOk := !unset }
  else if tok = ascii "Required" then
    if unset then some { level with package := false, database := false }
    else some { level with
      package := true, database := true, packageOptional := false, databaseOptional := false }
  else if tok = ascii "Optional" then
    if unset then some { level with
      package := false, packageOptional := false, database := false, databaseOptional := false }
    else some { level with
      package := true, packageOptional := true, database := true, databaseOptional := true }
  else if tok = ascii "MarginalOk" then
    some { level with packageMarginalOk := !unset, databaseMarginalOk := !unset }
  else if tok = ascii "TrustUnknown" then
    some { level with packageUnknownOk := !unset, databaseUnknownOk := !unset }
  else if tok = ascii "Never" then some .zero
  else if tok = ascii "Default" then some { level with useDefault := true }
  else none

/-- The sign in front of a token that unsets. -/
def tilde : UInt8 := 126

/-- One round of the loop of `parse_siglevel`. -/
def siglevelStep (level : SigLevel) (tok : Bytes) : Option SigLevel :=
  if tok.head? = some tilde then siglevelApplyToken level tok.tail true
  else siglevelApplyToken level tok false

/-- The delimiters `" \t"`. -/
def isBlank (c : UInt8) : Bool := decide (c = 32 ∨ c = 9)

/-- `parse_siglevel`: nothing on a token it does not know. -/
def parseSiglevel (str : Bytes) : Option SigLevel :=
  if str = [] then some .zero else (words isBlank str).foldlM siglevelStep .zero

/-! ### The handle -/

/-- The levels of an `alpm_handle_t`. -/
structure Handle where
  siglevel : SigLevel
  localfilesiglevel : SigLevel
  remotefilesiglevel : SigLevel

/-- `alpm_initialize`: the handle comes from `calloc`. -/
def alpmInitialize : Handle := ⟨.zero, .zero, .zero⟩

/-- `alpm_option_set_default_siglevel`: it refuses a level that is nothing but the reference to
itself. -/
def alpmOptionSetDefaultSiglevel (handle : Handle) (level : SigLevel) : Handle :=
  if level = { SigLevel.zero with useDefault := true } then handle
  else { handle with siglevel := level }

/-- `alpm_option_set_local_file_siglevel` -/
def alpmOptionSetLocalFileSiglevel (handle : Handle) (level : SigLevel) : Handle :=
  { handle with localfilesiglevel := level }

/-- `alpm_option_set_remote_file_siglevel` -/
def alpmOptionSetRemoteFileSiglevel (handle : Handle) (level : SigLevel) : Handle :=
  { handle with remotefilesiglevel := level }

/-- `alpm_option_get_remote_file_siglevel` -/
def alpmOptionGetRemoteFileSiglevel (handle : Handle) : SigLevel :=
  if handle.remotefilesiglevel.useDefault then handle.siglevel else handle.remotefilesiglevel

/-- `pacman.options.SigLevel` of the manifest, if it is a string. -/
def configuredSiglevel (root : Json) : Option Bytes :=
  (((root.getObjectItem (ascii "pacman")).bind
    (·.getObjectItem (ascii "options"))).bind (·.getObjectItem (ascii "SigLevel"))).bind Json.string?

/-- `two9_alpm_init_from_manifest`, as far as the levels go. -/
def two9AlpmInitFromManifest (root : Json) : Handle :=
  match (configuredSiglevel root).bind parseSiglevel with
  | some level =>
    if level = .zero then alpmInitialize
    else alpmOptionSetRemoteFileSiglevel (alpmOptionSetLocalFileSiglevel
      (alpmOptionSetDefaultSiglevel alpmInitialize level) level) level
  | none => alpmInitialize

/-- `sig_required` -/
def SigLevel.sigRequired (level : SigLevel) : Bool := level.package && !level.packageOptional

/-! ### The reading of the manual -/

/-- What a `SigLevel` asks of package files: whether they are checked, and whether one without a
signature passes. -/
structure Reading where
  check : Bool
  optional : Bool
deriving DecidableEq, Repr

namespace Reading

/-- A token read as pacman does; the scope it is about is in the prefix, and one for databases
leaves packages alone. A bare `Package` asks for a check. What is no token changes nothing. -/
def set (r : Reading) (tok : Bytes) : Reading :=
  if tok ∈ [ascii "Never", ascii "PackageNever"] then ⟨false, false⟩
  else if tok ∈ [ascii "Optional", ascii "PackageOptional"] then ⟨true, true⟩
  else if tok ∈ [ascii "Required", ascii "PackageRequired"] then ⟨true, false⟩
  else if tok = ascii "Package" then { r with check := true }
  else r

/-- A token behind a `~`: what it sets is unset. `Never` sets nothing. -/
def unset (r : Reading) (tok : Bytes) : Reading :=
  if tok ∈ [ascii "Optional", ascii "PackageOptional"] then ⟨false, false⟩
  else if tok ∈ [ascii "Required", ascii "PackageRequired", ascii "Package"] then
    { r with check := false }
  else r

/-- One token. -/
def token (r : Reading) (tok : Bytes) : Reading :=
  if tok.head? = some tilde then r.unset tok.tail else r.set tok

/-- The tokens from left to right. -/
def ofTokens (toks : List Bytes) : Reading := toks.foldl token ⟨false, false⟩

end Reading

/-- Read as a whole, the tokens ask for a signature on every package. -/
def Requires (toks : List Bytes) : Prop := Reading.ofTokens toks = ⟨true, false⟩

instance (toks : List Bytes) : Decidable (Requires toks) := by unfold Requires; infer_instance

/-- The names the parser knows. -/
def knownTokens : List Bytes :=
  [ascii "Package", ascii "PackageOptional", ascii "PackageRequired", ascii "PackageMarginalOk",
    ascii "PackageTrustUnknown", ascii "Database", ascii "DatabaseOptional",
    ascii "DatabaseRequired", ascii "DatabaseMarginalOk", ascii "DatabaseTrustUnknown",
    ascii "Required", ascii "Optional", ascii "MarginalOk", ascii "TrustUnknown", ascii "Never",
    ascii "Default"]

/-- The token is a known name, with or without a `~`. -/
def Known (tok : Bytes) : Prop :=
  (if tok.head? = some tilde then tok.tail else tok) ∈ knownTokens

instance (tok : Bytes) : Decidable (Known tok) := by unfold Known; infer_instance

/-- `~Never` -/
def unsetNever : Bytes := tilde :: ascii "Never"

/-- The tokens behind the last `~Never`. -/
def afterUnsetNever (toks : List Bytes) : List Bytes := toks.rtakeWhile (· ≠ unsetNever)

/-- Where the string asks for signatures, the parser knows all its tokens, and those behind the
last `~Never` ask for signatures by themselves. -/
def Understood (str : Bytes) : Prop :=
  Requires (words isSpace str) →
    (∀ tok ∈ words isBlank str, Known tok) ∧ Requires (afterUnsetNever (words isBlank str))

/-! ### Where the two agree -/

/-- What the level asks of package files. -/
def SigLevel.reading (level : SigLevel) : Reading := ⟨level.package, level.packageOptional⟩

lemma sigRequired_iff (level : SigLevel) :
    level.sigRequired = true ↔ level.reading = ⟨true, false⟩ := by
  simp [SigLevel.sigRequired, SigLevel.reading]

lemma siglevelApplyToken_of_notMem {level : SigLevel} {tok : Bytes} {unset : Bool}
    (h : tok ∉ knownTokens) : siglevelApplyToken level tok unset = none := by
  simp only [knownTokens, List.mem_cons, List.not_mem_nil, not_or, or_false] at h
  simp [siglevelApplyToken, h]

/-- **A known name is obeyed as the manual says**, `~Never` apart. -/
lemma siglevelApplyToken_of_mem {tok : Bytes} (h : tok ∈ knownTokens) (level : SigLevel)
    (unset : Bool) :
    ∃ level', siglevelApplyToken level tok unset = some level' ∧
      (tok ≠ ascii "Never" ∨ unset = false →
        level'.reading = if unset then level.reading.unset tok else level.reading.set tok) := by
  simp only [knownTokens, List.mem_cons, List.not_mem_nil, or_false] at h
  rcases h with rfl | rfl | rfl | rfl | rfl | rfl | rfl | rfl | rfl | rfl | rfl | rfl | rfl | rfl |
    rfl | rfl <;> cases unset <;> refine ⟨_, rfl, fun hn => ?_⟩ <;>
    first | rfl | exact absurd rfl (hn.resolve_right (by decide))

lemma mem_of_apply {level level' : SigLevel} {tok : Bytes} {unset : Bool}
    (h : siglevelApplyToken level tok unset = some level') : tok ∈ knownTokens := by
  by_contra hk
  rw [siglevelApplyToken_of_notMem hk] at h
  cases h

lemma known_of_step {level level' : SigLevel} {tok : Bytes} (h : siglevelStep level tok = some level') :
    Known tok := by
  unfold siglevelStep at h
  unfold Known
  split_ifs at h ⊢ with ht
  · exact mem_of_apply h
  · exact mem_of_apply h

lemma step_of_known (level : SigLevel) {tok : Bytes} (h : Known tok) :
    ∃ level', siglevelStep level tok = some level' := by
  unfold Known at h
  unfold siglevelStep
  split_ifs at h ⊢ with ht
  · obtain ⟨level', hset, -⟩ := siglevelApplyToken_of_mem h level true
    exact ⟨level', hset⟩
  · obtain ⟨level', hset, -⟩ := siglevelApplyToken_of_mem h level false
    exact ⟨level', hset⟩

/-- One round of the loop follows the manual, but on `~Never`. -/
lemma reading_of_step {level level' : SigLevel} {tok : Bytes} (hn : tok ≠ unsetNever)
    (h : siglevelStep level tok = some level') : level'.reading = level.reading.token tok := by
  unfold siglevelStep at h
  unfold Reading.token
  split_ifs at h ⊢ with ht
  · obtain ⟨level₁, h₁, hreads⟩ := siglevelApplyToken_of_mem (mem_of_apply h) level true
    obtain rfl : level₁ = level' := Option.some.inj (h₁.symm.trans h)
    refine hreads (.inl fun hne => hn ?_)
    obtain ⟨rest, rfl⟩ := List.head?_eq_some_iff.1 ht
    rw [List.tail_cons] at hne
    rw [hne]
    rfl
  · obtain ⟨level₁, h₁, hreads⟩ := siglevelApplyToken_of_mem (mem_of_apply h) level false
    obtain rfl : level₁ = level' := Option.some.inj (h₁.symm.trans h)
    exact hreads (.inr rfl)

/-- The level read so far is what the tokens behind the last `~Never` ask for. -/
lemma reading_of_foldlM {toks : List Bytes} :
    ∀ {level : SigLevel}, toks.foldlM siglevelStep .zero = some level →
      level.reading = Reading.ofTokens (afterUnsetNever toks) := by
  induction toks using List.reverseRecOn with
  | nil =>
    intro level h
    obtain rfl : SigLevel.zero = level := Option.some.inj h
    rfl
  | append_singleton toks tok ih =>
    intro level h
    rw [List.foldlM_append] at h
    obtain ⟨level₀, h₀, h₁⟩ := Option.bind_eq_some_iff.1 h
    have hstep : siglevelStep level₀ tok = some level := by
      simpa using h₁
    unfold afterUnsetNever
    by_cases hn : tok = unsetNever
    · rw [List.rtakeWhile_concat_neg _ _ _ (by simpa using hn)]
      subst hn
      obtain rfl : SigLevel.zero = level := Option.some.inj hstep
      rfl
    · rw [List.rtakeWhile_concat_pos _ _ _ (by simpa using hn), Reading.ofTokens, List.foldl_append,
        reading_of_step hn hstep, ih h₀]
      rfl

lemma known_of_foldlM {toks : List Bytes} :
    ∀ {level level' : SigLevel}, toks.foldlM siglevelStep level = some level' →
      ∀ tok ∈ toks, Known tok := by
  induction toks with
  | nil =>
    intro level level' _ tok htok
    cases htok
  | cons t toks ih =>
    intro level level' h
    rw [List.foldlM_cons] at h
    obtain ⟨level₁, h₁, h₂⟩ := Option.bind_eq_some_iff.1 h
    exact List.forall_mem_cons.2 ⟨known_of_step h₁, ih h₂⟩

lemma foldlM_of_known {toks : List Bytes} (h : ∀ tok ∈ toks, Known tok) :
    ∀ level, ∃ level', toks.foldlM siglevelStep level = some level' := by
  induction toks with
  | nil => exact fun level => ⟨level, rfl⟩
  | cons t toks ih =>
    intro level
    obtain ⟨ht, htoks⟩ := List.forall_mem_cons.1 h
    obtain ⟨level₁, h₁⟩ := step_of_known level ht
    obtain ⟨level₂, h₂⟩ := ih htoks level₁
    exact ⟨level₂, by rw [List.foldlM_cons, h₁]; exact h₂⟩

lemma parseSiglevel_eq (str : Bytes) :
    parseSiglevel str = (words isBlank str).foldlM siglevelStep .zero := by
  unfold parseSiglevel
  split_ifs with h
  · rw [h]
    rfl
  · rfl

/-- The level that packages are checked at asks for what was parsed. -/
lemma reading_remoteFileSiglevel {root : Json} {str : Bytes} (h : configuredSiglevel root = some str) :
    (alpmOptionGetRemoteFileSiglevel (two9AlpmInitFromManifest root)).reading =
      ((parseSiglevel str).getD .zero).reading := by
  unfold two9AlpmInitFromManifest
  rw [h, Option.bind_some]
  cases parseSiglevel str with
  | none => rfl
  | some level =>
    by_cases hz : level = .zero
    · simp only [hz, if_true]
      rfl
    · simp only [hz, if_false]
      unfold alpmOptionGetRemoteFileSiglevel alpmOptionSetDefaultSiglevel
      by_cases hd : level = { SigLevel.zero with useDefault := true }
      · rw [hd]
        rfl
      · rw [if_neg hd]
        unfold alpmOptionSetRemoteFileSiglevel alpmOptionSetLocalFileSiglevel
        split_ifs <;> rfl

/-- **Signatures are asked for** exactly when the parser knows every token and those behind the last
`~Never` ask for them. -/
lemma sigRequired_iff_known {root : Json} {str : Bytes} (h : configuredSiglevel root = some str) :
    (alpmOptionGetRemoteFileSiglevel (two9AlpmInitFromManifest root)).sigRequired = true ↔
      (∀ tok ∈ words isBlank str, Known tok) ∧ Requires (afterUnsetNever (words isBlank str)) := by
  rw [sigRequired_iff, reading_remoteFileSiglevel h, parseSiglevel_eq]
  constructor
  · intro hr
    cases hp : (words isBlank str).foldlM siglevelStep .zero with
    | none =>
      rw [hp] at hr
      cases hr
    | some level =>
      rw [hp] at hr
      exact ⟨known_of_foldlM hp, (reading_of_foldlM hp).symm.trans hr⟩
  · rintro ⟨hk, hr⟩
    obtain ⟨level, hp⟩ := foldlM_of_known hk .zero
    rw [hp]
    exact (reading_of_foldlM hp).trans hr

end Two09.Alpm
