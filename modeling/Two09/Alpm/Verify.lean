import Two09.Alpm.SigLevel

/-!
# Packages from a mirror

The loop of `cmd_install` over the targets of the prepared transaction: the package file from the
cache or the mirror, its detached signature, `alpm_pkg_load`, which has `gpgme` check the one
against the other, and the store. Every outcome of the mirror, of the file system and of the store
is input. What was verified and what was added is logged, so that a package that was added without
a signature can be told from one that had it.
-/

namespace Two09.Alpm

open Lib

/-! ### Signatures -/

/-- `alpm_sigstatus_t` -/
inductive SigStatus
  | valid
  | keyExpired
  | sigExpired
  | keyUnknown
  | keyDisabled
  | invalid
deriving DecidableEq, Repr

/-- `alpm_sigvalidity_t` -/
inductive SigValidity
  | full
  | marginal
  | never
  | unknown
deriving DecidableEq, Repr

/-- `alpm_sigresult_t` -/
structure SigResult where
  status : SigStatus
  validity : SigValidity
deriving DecidableEq, Repr

/-- `gpgme_op_verify`: what it finds in the signature bytes, about the file bytes; nothing when it
fails. -/
abbrev Gpgme := Bytes → Bytes → Option (List SigResult)

/-- What `_alpm_gpgme_checksig` can come to. -/
inductive Checked
  | missing
  | failed
  | listed (results : List SigResult)

/-- `_alpm_gpgme_checksig`: a signature file without a signature in it counts as missing. -/
def alpmGpgmeChecksig (gpgme : Gpgme) (file : Bytes) (sig : Option Bytes) : Checked :=
  match sig with
  | none => .missing
  | some sig =>
    match gpgme sig file with
    | none => .failed
    | some [] => .missing
    | some results => .listed results

/-- The loop over the signatures in `_alpm_check_pgp_helper`. -/
def SigResult.accepted (marginal unknown : Bool) (r : SigResult) : Bool :=
  match r.status with
  | .valid | .keyExpired =>
    match r.validity with
    | .full => true
    | .marginal => marginal
    | .unknown => unknown
    | .never => false
  | _ => false

/-- `_alpm_check_pgp_helper` -/
def alpmCheckPgpHelper (checked : Checked) (optional marginal unknown : Bool) : Bool :=
  match checked with
  | .missing => optional
  | .failed => false
  | .listed results => results.all (SigResult.accepted marginal unknown)

/-- The signature bytes vouch for the file bytes: there are signatures in them, and every one is
good and not from a key that is never to be trusted. -/
def Vouches (gpgme : Gpgme) (sig file : Bytes) : Prop :=
  ∃ results, gpgme sig file = some results ∧ results ≠ [] ∧
    ∀ r ∈ results, (r.status = .valid ∨ r.status = .keyExpired) ∧ r.validity ≠ .never

/-! ### The loop -/

/-- What happens to a package file. -/
inductive Event
  | verified (sig file : Bytes)
  | added (name file : Bytes)

/-- The files of the cache and of `/tmp`, and what happened, the latest first. -/
structure State where
  files : Bytes → Option Bytes
  log : List Event

/-- A file is written. -/
def State.write (st : State) (path data : Bytes) : State :=
  { st with files := Function.update st.files path (some data) }

/-- A file is unlinked. -/
def State.unlink (st : State) (path : Bytes) : State :=
  { st with files := Function.update st.files path none }

/-- What the loop reads of an `alpm_pkg_t`: the servers are those of its database. -/
structure Target where
  name : Bytes
  filename : Option Bytes
  servers : Option (List Bytes)

/-- What the world does while a target is installed. -/
structure Delivery where
  /-- `try_substitute_pkg` finds the package -/
  substituted : Bool
  /-- the cache file, the file in `/tmp` and the signature file can be opened for writing -/
  cacheWritable : Bool
  tmpWritable : Bool
  sigWritable : Bool
  /-- `curl_easy_init` for the package and for the signature -/
  curl : Bool
  sigCurl : Bool
  /-- what the mirror answers with status 200 -/
  file : Option Bytes
  sig : Option Bytes
  /-- `alpm_pkg_load` reads the signature file and imports the keys it names -/
  keys : Bool
  /-- the archive parses as a package -/
  loads : Bool
  /-- `store_add_named` succeeds -/
  stored : Bool

/-- The signature file of a path. -/
def sigPath (path : Bytes) : Bytes := path ++ ascii ".sig"

section Target

variable (gpgme : Gpgme) (level : SigLevel) (target : Target) (d : Delivery)

/-- The package file is downloaded to an opened path. -/
def download (path : Bytes) (st : State) : Except State (Bytes × State) :=
  if d.curl then
    match d.file with
    | some data => .ok (path, st.write path data)
    | none => .error (st.unlink path)
  else .error (st.write path [])

/-- The package file is in the cache or is downloaded: where it is. -/
def fetchFile (tfile : Bytes) (st : State) : Except State (Bytes × State) :=
  if (st.files (ascii "/var/cache/2O9/pkg/" ++ tfile)).isSome then
    .ok (ascii "/var/cache/2O9/pkg/" ++ tfile, st)
  else if d.cacheWritable then download d (ascii "/var/cache/2O9/pkg/" ++ tfile) st
  else if d.tmpWritable then download d (ascii "/tmp/2O9-" ++ tfile) st
  else .error st

/-- Whether a signature that could not be had ends the installation. -/
def withoutSig (st : State) : Except State (Bool × State) :=
  if level.sigRequired then .error st else .ok (false, st)

/-- The signature file is there or is downloaded: `have_sig`. -/
def fetchSig (path : Bytes) (st : State) : Except State (Bool × State) :=
  if (st.files (sigPath path)).isSome then .ok (true, st)
  else if d.sigCurl && d.sigWritable then
    match d.sig with
    | some data => .ok (true, st.write (sigPath path) data)
    | none => withoutSig level (st.unlink (sigPath path))
  else withoutSig level st

/-- `_alpm_pkg_validate_internal` of a file that is no target of a sync database: the signature, if
there is one, that it was checked against. -/
def alpmPkgValidateInternal (file : Bytes) (sig : Option Bytes) : Option (Option Bytes) :=
  if level.package then
    if sig.isNone && !level.packageOptional then none
    else if alpmCheckPgpHelper (alpmGpgmeChecksig gpgme file sig) level.packageOptional
        level.packageMarginalOk level.packageUnknownOk then
      match alpmGpgmeChecksig gpgme file sig with
      | .listed _ => some sig
      | _ => some none
    else none
  else some none

/-- `alpm_pkg_load` -/
def alpmPkgLoad (path : Bytes) (st : State) : Option State :=
  if (st.files (sigPath path)).isSome && level.package && !d.keys then none
  else match st.files path with
  | none => none
  | some file =>
    match alpmPkgValidateInternal gpgme level file (st.files (sigPath path)) with
    | none => none
    | some sig =>
      if d.loads then
        some { st with log := (sig.map (Event.verified · file)).toList ++ st.log }
      else none

/-- The signature is fetched and verified, if the level has packages checked. -/
def verifySig (path : Bytes) (st : State) : Except State State :=
  if level.package then
    (fetchSig level d path st).bind fun r =>
      match alpmPkgLoad gpgme level d path r.2 with
      | some st => .ok st
      | none => .error (if r.1 then r.2.unlink (sigPath path) else r.2)
  else .ok st

/-- `store_add_named` -/
def storeAddNamed (path : Bytes) (st : State) : Except State State :=
  match st.files path with
  | some file =>
    if d.stored then .ok { st with log := .added target.name file :: st.log } else .error st
  | none => .error st

/-- One round of the loop. -/
def installTarget (st : State) : Except State State :=
  match target.filename, target.servers with
  | some tfile, some (_ :: _) =>
    if d.substituted then .ok st
    else (fetchFile d tfile st).bind fun r =>
      (verifySig gpgme level d r.1 r.2).bind fun st => storeAddNamed target d r.1 st
  | _, _ => .error st

end Target

/-- The loop: it ends at the first target that fails. -/
def installTargets (gpgme : Gpgme) (level : SigLevel) :
    List (Target × Delivery) → State → Except State State
  | [], st => .ok st
  | (target, d) :: rest, st =>
    (installTarget gpgme level target d st).bind (installTargets gpgme level rest)

/-- How it ended. -/
def finalState : Except State State → State
  | .ok st => st
  | .error st => st

/-- `cmd_install`, from the manifest to the end of the loop. -/
def cmdInstall (gpgme : Gpgme) (root : Json) (files : Bytes → Option Bytes)
    (run : List (Target × Delivery)) : State :=
  finalState (installTargets gpgme
    (alpmOptionGetRemoteFileSiglevel (two9AlpmInitFromManifest root)) run ⟨files, []⟩)

/-! ### What was added was vouched for -/

/-- Every package was added after a signature over its bytes had been verified. -/
def Vetted (gpgme : Gpgme) : List Event → Prop
  | [] => True
  | .verified sig file :: log => Vouches gpgme sig file ∧ Vetted gpgme log
  | .added _ file :: log => (∃ sig, .verified sig file ∈ log) ∧ Vetted gpgme log

/-- The levels that a `SigLevel` string gives fail closed: whatever the manifest around it, the
cache, the mirror and the targets, a package that is added was verified, unless the string does not
ask for signatures. -/
def FailsClosed (gpgme : Gpgme) (str : Bytes) : Prop :=
  ∀ (root : Json) (files : Bytes → Option Bytes) (run : List (Target × Delivery)),
    configuredSiglevel root = some str →
      ¬Requires (words isSpace str) ∨ Vetted gpgme (cmdInstall gpgme root files run).log

/-- A step that logs nothing, however it ends. -/
def Unlogged (st : State) {α : Type} : Except State (α × State) → Prop
  | .ok r => r.2.log = st.log
  | .error st' => st'.log = st.log

section Log

variable {gpgme : Gpgme} {level : SigLevel} {target : Target} {d : Delivery} {path : Bytes} {st : State}

lemma download_unlogged : Unlogged st (download d path st) := by
  unfold download
  split
  · split <;> rfl
  · rfl

lemma fetchFile_unlogged {tfile : Bytes} : Unlogged st (fetchFile d tfile st) := by
  unfold fetchFile
  split_ifs
  · rfl
  · exact download_unlogged
  · exact download_unlogged
  · rfl

lemma withoutSig_unlogged {st' : State} (h : st'.log = st.log) : Unlogged st (withoutSig level st') := by
  unfold withoutSig
  split_ifs <;> exact h

lemma fetchSig_unlogged : Unlogged st (fetchSig level d path st) := by
  unfold fetchSig
  split_ifs
  · rfl
  · split
    · rfl
    · exact withoutSig_unlogged rfl
  · exact withoutSig_unlogged rfl

/-- **The check of a required signature**: it passes only with a signature that vouches. -/
lemma vouches_of_validate (hreq : level.sigRequired = true) {file : Bytes} {sig checked : Option Bytes}
    (h : alpmPkgValidateInternal gpgme level file sig = some checked) :
    ∃ s, checked = some s ∧ Vouches gpgme s file := by
  obtain ⟨hpkg, hopt⟩ : level.package = true ∧ level.packageOptional = false := by
    simpa [SigLevel.sigRequired] using hreq
  unfold alpmPkgValidateInternal at h
  rw [if_pos hpkg, hopt] at h
  cases sig with
  | none => cases h
  | some s =>
    cases hg : gpgme s file with
    | none => simp [alpmGpgmeChecksig, hg, alpmCheckPgpHelper] at h
    | some results =>
      cases results with
      | nil => simp [alpmGpgmeChecksig, hg, alpmCheckPgpHelper] at h
      | cons r rs =>
        simp only [alpmGpgmeChecksig, hg, alpmCheckPgpHelper, Option.isNone_some, Bool.false_and,
          Bool.false_eq_true, if_false] at h
        split_ifs at h with hall
        refine ⟨s, (Option.some.inj h).symm, r :: rs, hg, List.cons_ne_nil _ _, fun x hx => ?_⟩
        have hacc : x.accepted level.packageMarginalOk level.packageUnknownOk = true :=
          List.all_eq_true.1 hall x hx
        obtain ⟨status, validity⟩ := x
        cases status <;> cases validity <;> simp_all [SigResult.accepted]

/-- `alpm_pkg_load` logs the verification that it has made. -/
lemma alpmPkgLoad_verifies (hreq : level.sigRequired = true) {st' : State}
    (h : alpmPkgLoad gpgme level d path st = some st') :
    ∃ sig file, st'.files path = some file ∧ st'.log = .verified sig file :: st.log ∧
      Vouches gpgme sig file := by
  unfold alpmPkgLoad at h
  split at h
  · cases h
  · cases hfile : st.files path with
    | none =>
      rw [hfile] at h
      cases h
    | some file =>
      rw [hfile] at h
      dsimp only at h
      split at h
      · cases h
      · rename_i checked hchecked
        split_ifs at h with hloads
        obtain ⟨s, rfl, hv⟩ := vouches_of_validate hreq hchecked
        cases h
        exact ⟨s, file, hfile, rfl, hv⟩

/-- A package whose signature has been verified is in the store with a verification logged before. -/
lemma vetted_storeAddNamed (hreq : level.sigRequired = true) (hst : Vetted gpgme st.log) :
    Vetted gpgme (finalState ((verifySig gpgme level d path st).bind
      (storeAddNamed target d path))).log := by
  have hpkg : level.package = true := by
    have := hreq
    simp only [SigLevel.sigRequired, Bool.and_eq_true] at this
    exact this.1
  unfold verifySig
  rw [if_pos hpkg]
  have hsig : Unlogged st (fetchSig level d path st) := fetchSig_unlogged
  cases hf : fetchSig level d path st with
  | error st₁ =>
    rw [hf] at hsig
    show Vetted gpgme st₁.log
    rwa [show st₁.log = st.log from hsig]
  | ok r =>
    rw [hf] at hsig
    have hlog : r.2.log = st.log := hsig
    show Vetted gpgme (finalState (Except.bind (match alpmPkgLoad gpgme level d path r.2 with
      | some st => .ok st
      | none => .error (if r.1 then r.2.unlink (sigPath path) else r.2)) _)).log
    cases hl : alpmPkgLoad gpgme level d path r.2 with
    | none =>
      show Vetted gpgme (if r.1 then r.2.unlink (sigPath path) else r.2).log
      split_ifs
      · show Vetted gpgme r.2.log
        rwa [hlog]
      · rwa [hlog]
    | some st₂ =>
      obtain ⟨sig, file, hfile, hlog₂, hv⟩ := alpmPkgLoad_verifies hreq hl
      have hvet : Vetted gpgme st₂.log := by
        rw [hlog₂, hlog]
        exact ⟨hv, hst⟩
      show Vetted gpgme (finalState (storeAddNamed target d path st₂)).log
      unfold storeAddNamed
      rw [hfile]
      dsimp only
      split_ifs
      · exact ⟨⟨sig, hlog₂ ▸ List.mem_cons_self⟩, hvet⟩
      · exact hvet

/-- **One round** at a level that requires signatures keeps the log vetted. -/
lemma vetted_installTarget (hreq : level.sigRequired = true) (hst : Vetted gpgme st.log) :
    Vetted gpgme (finalState (installTarget gpgme level target d st)).log := by
  unfold installTarget
  split
  · rename_i tfile server servers _ _
    split_ifs
    · exact hst
    · have hfile : Unlogged st (fetchFile d tfile st) := fetchFile_unlogged
      cases hf : fetchFile d tfile st with
      | error st₁ =>
        rw [hf] at hfile
        show Vetted gpgme st₁.log
        rwa [show st₁.log = st.log from hfile]
      | ok r =>
        rw [hf] at hfile
        have hlog : r.2.log = st.log := hfile
        exact vetted_storeAddNamed hreq (hlog ▸ hst)
  · exact hst

end Log

/-- **A whole run** at a level that requires signatures keeps the log vetted. -/
lemma vetted_installTargets {gpgme : Gpgme} {level : SigLevel} (hreq : level.sigRequired = true)
    (run : List (Target × Delivery)) : ∀ st, Vetted gpgme st.log →
      Vetted gpgme (finalState (installTargets gpgme level run st)).log := by
  induction run with
  | nil => exact fun st h => h
  | cons t run ih =>
    intro st h
    obtain ⟨target, d⟩ := t
    have hone : Vetted gpgme (finalState (installTarget gpgme level target d st)).log :=
      vetted_installTarget hreq h
    unfold installTargets
    cases hr : installTarget gpgme level target d st with
    | error st₁ => rwa [hr] at hone
    | ok st₁ =>
      rw [hr] at hone
      exact ih st₁ hone

/-! ### A level that does not require them -/

/-- A manifest with the level. -/
def manifestOf (str : Bytes) : Json :=
  .object [(ascii "pacman", .object [(ascii "options",
    .object [(ascii "SigLevel", .string str)])])]

lemma configuredSiglevel_manifestOf (str : Bytes) : configuredSiglevel (manifestOf str) = some str := rfl

/-- A package of a mirror. -/
def hello : Target := ⟨ascii "hello", some (ascii "hello.pkg"), some [ascii "mirror"]⟩

/-- The mirror has the package and no signature of it. -/
def unsigned : Delivery :=
  ⟨false, true, true, true, true, true, some (ascii "evil"), none, true, true, true⟩

/-- No file. -/
def noFiles : Bytes → Option Bytes := fun _ => none

/-- Without a required signature the package of a mirror that has none is added. -/
lemma added_unsigned (gpgme : Gpgme) {level : SigLevel} (hreq : level.sigRequired = false) :
    (finalState (installTargets gpgme level [(hello, unsigned)] ⟨noFiles, []⟩)).log =
      [.added (ascii "hello") (ascii "evil")] := by
  obtain ⟨package, packageOptional, _, _, _, _, _, _, _⟩ := level
  cases package with
  | false => rfl
  | true =>
    cases packageOptional with
    | false => cases hreq
    | true => rfl

/-- **Signatures fail closed** exactly for the strings that the parser understands. -/
theorem failsClosed_iff (gpgme : Gpgme) (str : Bytes) : FailsClosed gpgme str ↔ Understood str := by
  constructor
  · intro h hreq
    rw [← sigRequired_iff_known (configuredSiglevel_manifestOf str)]
    by_contra hn
    rcases h (manifestOf str) noFiles [(hello, unsigned)] (configuredSiglevel_manifestOf str) with h | h
    · exact h hreq
    · unfold cmdInstall at h
      rw [added_unsigned gpgme (Bool.not_eq_true _ ▸ hn)] at h
      obtain ⟨⟨sig, hsig⟩, -⟩ := h
      cases hsig
  · intro h root files run hroot
    by_cases hreq : Requires (words isSpace str)
    · exact .inr (vetted_installTargets ((sigRequired_iff_known hroot).2 (h hreq)) run _ trivial)
    · exact .inl hreq

/-- `DatabaseNever` is a token of pacman's that the parser does not know. -/
theorem databaseNever_not_failsClosed :
    Requires (words isSpace (ascii "Required DatabaseNever")) ∧
      ∀ gpgme : Gpgme, ¬FailsClosed gpgme (ascii "Required DatabaseNever") := by
  have hreq : Requires (words isSpace (ascii "Required DatabaseNever")) := by decide
  refine ⟨hreq, fun gpgme h => ?_⟩
  rcases h (manifestOf _) noFiles [(hello, unsigned)] (configuredSiglevel_manifestOf _) with h | h
  · exact h hreq
  · unfold cmdInstall at h
    rw [added_unsigned gpgme (by decide +kernel)] at h
    obtain ⟨⟨sig, hsig⟩, -⟩ := h
    cases hsig

end Two09.Alpm
