import Two09.Lib.Shell

/-!
# Command lines

Every command line that is passed to `system()` or `popen()` with something of the outside in it:
the text of the format string, the data that `%s` puts there, with single quotes around it or
without, and the buffer that `snprintf` writes to. `literal_iff` says exactly when the shell splits
what is passed into the words that are meant.
-/

namespace Two09.Exec

open Lib Lib.Shell

/-- A call of `system()` or `popen()`, with its data. A path that is put together from several `%s`
or `%d` is one datum. -/
inductive Call
  /-- `pgp_find_missing` -/
  | pgpFindMissing (key : Bytes)
  /-- `pgp_import_missing` -/
  | pgpImportMissing (key : Bytes)
  /-- `read_pkginfo`, the two spellings of the member -/
  | readPkginfo (pkgPath tmpfile : Bytes)
  | readPkginfoDot (pkgPath tmpfile : Bytes)
  /-- `direct_extract`, its three attempts -/
  | directExtract (pkgPath tempPath : Bytes)
  | directExtractZstd (pkgPath tempPath : Bytes)
  | directExtractPipe (pkgPath tempPath : Bytes)
  /-- `cmd_gc`, of store paths and of generations -/
  | cmdGc (path : Bytes)
  /-- `cmd_bundle`, the archive and what is appended to it -/
  | cmdBundle (output genDir : Bytes)
  | cmdBundleAdd (output storePath : Bytes)
  /-- `cmd_import`, the manifest, the store paths and the end -/
  | cmdImport (tarballPath tmpdir : Bytes)
  | cmdImportStore (tarballPath : Bytes)
  | cmdImportCleanup (tmpdir : Bytes)
  /-- `main`, the files of a package -/
  | queryFiles (storePath : Bytes)
  /-- `parse_pkginfo` and `parse_pkginfo_from_pkg` -/
  | parsePkginfo (tmpdir : Bytes)
  /-- `find_built_pkg` -/
  | findBuiltPkg (dir : Bytes)
  /-- `find_built_pkg_in` -/
  | findBuiltPkgIn (dir : Bytes)
  /-- `copy_tree` and `snapshot_restore` -/
  | copyTree (src dst : Bytes)
  /-- `snapshot_install_timer` and `snapshot_remove_timer` -/
  | snapshotInstallTimer (unit : Bytes)
  | snapshotRemoveTimer (unit : Bytes)
  /-- `reconcile_execute` -/
  | systemctlEnable (service : Bytes)
  | systemctlDisable (service : Bytes)

namespace Call

/-- The parts of the command line. -/
def items : Call → List Item
  | pgpFindMissing key => [.text (ascii "gpg --list-keys"), .quoted key, .text (ascii ">/dev/null 2>&1")]
  | pgpImportMissing key => [.text (ascii "gpg --recv-keys"), .quoted key]
  | readPkginfo pkgPath tmpfile => [.text (ascii "tar -xf"), .quoted pkgPath,
      .text (ascii "--to-stdout .PKGINFO >"), .quoted tmpfile, .text (ascii "2>/dev/null")]
  | readPkginfoDot pkgPath tmpfile => [.text (ascii "tar -xf"), .quoted pkgPath,
      .text (ascii "--to-stdout ./.PKGINFO >"), .quoted tmpfile, .text (ascii "2>/dev/null")]
  | directExtract pkgPath tempPath =>
    [.text (ascii "tar -xf"), .quoted pkgPath, .text (ascii "-C"), .quoted tempPath]
  | directExtractZstd pkgPath tempPath => [.text (ascii "tar --use-compress-program=zstd -xf"),
      .quoted pkgPath, .text (ascii "-C"), .quoted tempPath]
  | directExtractPipe pkgPath tempPath => [.text (ascii "zstd -d -c"), .quoted pkgPath,
      .text (ascii "| tar xf - -C"), .quoted tempPath]
  | cmdGc path => [.text (ascii "rm -rf"), .quoted path]
  | cmdBundle output genDir => [.text (ascii "tar czf"), .bare output, .text (ascii "-C"),
      .bare genDir, .text (ascii "manifest.json diff.json 2>/dev/null")]
  | cmdBundleAdd output storePath => [.text (ascii "tar rf"), .bare output, .text (ascii "-C /"),
      .bare (storePath.drop 1), .text (ascii "2>/dev/null || true")]
  | cmdImport tarballPath tmpdir =>
    [.text (ascii "tar xzf"), .bare tarballPath, .text (ascii "-C"), .bare tmpdir]
  | cmdImportStore tarballPath =>
    [.text (ascii "tar xzf"), .bare tarballPath, .text (ascii "-C / 2>/dev/null || true")]
  | cmdImportCleanup tmpdir => [.text (ascii "rm -rf"), .bare tmpdir]
  | queryFiles storePath =>
    [.text (ascii "find"), .bare storePath, .text (ascii "-type f 2>/dev/null | head -50")]
  | parsePkginfo tmpdir => [.text (ascii "rm -rf"), .bare tmpdir]
  | findBuiltPkg dir => [.text (ascii "find"), .quoted dir, .text (ascii
      "-maxdepth 1 -name '*.pkg.tar.zst' -o -name '*.pkg.tar.xz' -o -name '*.pkg.tar.gz' 2>/dev/null | head -1")]
  | findBuiltPkgIn dir => [.text (ascii "find"), .quoted dir, .text (ascii
      "-maxdepth 1 \\( -name '*.pkg.tar.zst' -o -name '*.pkg.tar.xz' -o -name '*.pkg.tar.gz' \\) 2>/dev/null | head -1")]
  | copyTree src dst => [.text (ascii "cp -a --"), .quoted src, .quoted dst]
  | snapshotInstallTimer unit =>
    [.text (ascii "systemctl daemon-reload 2>/dev/null; systemctl enable --now"),
      .bare (unit ++ ascii ".timer"), .text (ascii "2>/dev/null")]
  | snapshotRemoveTimer unit => [.text (ascii "systemctl disable --now"),
      .bare (unit ++ ascii ".timer"), .text (ascii "2>/dev/null; true")]
  | systemctlEnable service =>
    [.text (ascii "systemctl enable"), .bare service, .text (ascii "2>/dev/null")]
  | systemctlDisable service =>
    [.text (ascii "systemctl disable"), .bare service, .text (ascii "2>/dev/null")]

/-- The size of `cmd`; `PATH_MAX` is 4096. -/
def bufferSize : Call → Nat
  | pgpFindMissing _ | pgpImportMissing _ => 512
  | readPkginfo .. | readPkginfoDot .. => 4096 * 2
  | directExtract .. | directExtractZstd .. | directExtractPipe .. => 4096 * 3
  | cmdGc _ => 4096 + 32
  | cmdBundle .. | cmdBundleAdd .. => 4096 * 2
  | cmdImport .. | cmdImportStore _ | cmdImportCleanup _ => 4096 * 2
  | queryFiles _ => 4096 + 32
  | parsePkginfo _ => 4096 + 32
  | findBuiltPkg _ => 4096 + 64
  | findBuiltPkgIn _ => 4096 * 2
  | copyTree .. => 4096 * 2 + 32
  | snapshotInstallTimer _ | snapshotRemoveTimer _ => 4096 * 2
  | systemctlEnable _ | systemctlDisable _ => 256

/-- Whether a line that does not fit is refused. -/
def refusesLong : Call → Bool
  | copyTree .. => true
  | _ => false

/-- The line does not fit with its NUL. -/
def TooLong (call : Call) : Prop := call.bufferSize ≤ (line call.items).length

instance (call : Call) : Decidable call.TooLong := by unfold TooLong; infer_instance

/-- What is passed: `snprintf` keeps what fits. -/
def passed (call : Call) : Option (List (UInt8 × Bool)) :=
  if call.refusesLong = true ∧ call.TooLong then none
  else some ((line call.items).take (call.bufferSize - 1))

/-- The shell splits what is passed into the words that are meant, with every datum literally in one
of them. -/
def Literal (call : Call) : Prop :=
  ∀ passedLine, call.passed = some passedLine → lex passedLine = some (intended call.items)

instance (call : Call) : Decidable call.Literal :=
  match h : call.passed with
  | none => isTrue fun passedLine hpassed => by cases h.symm.trans hpassed
  | some passedLine => decidable_of_iff (lex passedLine = some (intended call.items))
      ⟨fun hlex other hother => Option.some.inj (h.symm.trans hother) ▸ hlex, fun hlit => hlit passedLine h⟩

/-- The line is refused, or it fits and every datum is harmless: there is no single quote in a
quoted one, and a bare one is not empty and has nothing in it that means something to the shell. -/
def Safe (call : Call) : Prop :=
  call.refusesLong = true ∧ call.TooLong ∨ ¬call.TooLong ∧ ∀ i ∈ call.items, i.Harmless

lemma closed_quoted (v : Bytes) : (Item.quoted v).Closed := trivial

lemma closed_bare (v : Bytes) : (Item.bare v).Closed := trivial

/-- The texts of the format strings are complete by themselves. -/
lemma closed_items (call : Call) : ∀ i ∈ call.items, i.Closed := by
  cases call <;>
    simp only [items, List.forall_mem_cons, closed_quoted, closed_bare, true_and, and_true,
      List.not_mem_nil, false_imp_iff, implies_true] <;>
    decide +kernel

lemma items_ne_nil (call : Call) : call.items ≠ [] := by
  cases call <;> exact List.cons_ne_nil _ _

lemma bufferSize_pos (call : Call) : 0 < call.bufferSize := by
  cases call <;> simp [bufferSize]

end Call

/-- A line that is passed is split as intended when it fits and its data are harmless. -/
lemma Call.literal_iff_harmless {call : Call} (h : ¬(call.refusesLong = true ∧ call.TooLong)) :
    call.Literal ↔ ¬call.TooLong ∧ ∀ i ∈ call.items, i.Harmless := by
  have hsplit : lex ((line call.items).take (call.bufferSize - 1)) = some (intended call.items) ↔
      (line call.items).length ≤ call.bufferSize - 1 ∧ ∀ i ∈ call.items, i.Harmless :=
    lex_take_eq_intended_iff call.items_ne_nil call.closed_items _
  have hfits : (line call.items).length ≤ call.bufferSize - 1 ↔ ¬call.TooLong := by
    have hpos : 0 < call.bufferSize := call.bufferSize_pos
    unfold Call.TooLong
    omega
  unfold Call.Literal Call.passed
  rw [if_neg h, ← hfits, ← hsplit]
  constructor
  · exact fun h => h _ rfl
  · intro h passedLine hpassed
    rwa [← Option.some.inj hpassed]

/-- **Data never become shell code** exactly when the call is safe. -/
theorem literal_iff (call : Call) : call.Literal ↔ call.Safe := by
  unfold Call.Safe
  by_cases hrefused : call.refusesLong = true ∧ call.TooLong
  · unfold Call.Literal Call.passed
    simp [hrefused]
  · rw [or_iff_right hrefused, Call.literal_iff_harmless hrefused]

/-- A fingerprint that a `.SRCINFO` can give and that ends the quotation. -/
theorem reboot_not_literal : ¬(Call.pgpFindMissing (ascii "';reboot;'")).Literal := by
  intro h
  have hsplit := h _ rfl
  revert hsplit
  decide +kernel

end Two09.Exec
