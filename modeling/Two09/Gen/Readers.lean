import Two09.Gen.Manifest
import Two09.Nix.Serialize

/-!
# The readers of a manifest

When the line scanners and the cJSON readers of `manifest.json` give back the packages that were written.
-/

namespace Two09.Gen

open Two09.Lib

/-- The two ways in which a manifest is written. -/
inductive Layout
  | written (id : Fin (2 ^ 31)) (timestamp : Fin (2 ^ 63))
  | applied (config : Nix.Tree)

def Layout.text : Layout → List GenPkg → Bytes
  | written id timestamp, packages => writtenManifest id timestamp packages
  | applied config, packages => appliedManifest (Nix.nixToJson config) packages

/-- That all readers of the file give the packages: `gen_db_get`, the loop of `cmd_remove` whatever name
it looks for, `read_current_gen_packages` and `gen_index_load`. -/
structure Agree (text : Bytes) (packages : List GenPkg) : Prop where
  scanned : scannedPackages text = packages
  others : ∀ name, scannedOthers name text =
    (packages.any (·.name = name), packages.filter (·.name ≠ name))
  parsed : parsedPackages text = packages
  indexed : (genIndexLoad text).getD [] = packages

/-- A line on which a scanner finds a name: a quote follows the key and what is skipped after it. -/
def NamesPackage (line : Bytes) : Prop :=
  ∃ before after, line = before ++ ascii "\"name\":" ++ after ∧
    34 ∈ after.dropWhile fun c => decide (c = 32 ∨ c = 34)

/-- The lines of the embedded configuration. -/
def configLines (config : Nix.Tree) : List Bytes :=
  manifestLines (ascii "  \"nix_output\": " ++ Nix.nixToJson config ++ ascii ",\n")

/-- What the readers need of a manifest. -/
def Layout.Fits : Layout → List GenPkg → Prop
  | written _ _, packages => ∀ p ∈ packages, Scannable p
  | applied config, packages =>
      (∀ p ∈ packages, Scannable p ∧ p.storePath.isSome) ∧
      (∀ line ∈ configLines config, ¬ NamesPackage line) ∧
      (packages = [] ∨ config.nesting < Json.nestingLimit)

/-- That cJSON can parse the manifest: an embedded configuration does not nest too deep. -/
def Layout.Parsable : Layout → Prop
  | written _ _ => True
  | applied config => config.nesting < Json.nestingLimit

/-! ### Scanners -/

section Scanners
variable {text line key s : Bytes}

/-- The loop of `cmd_remove` finds what `gen_db_get` reads. -/
lemma scannedOthers_eq (name text : Bytes) : scannedOthers name text =
    ((scannedPackages text).any (·.name = name), (scannedPackages text).filter (·.name ≠ name)) := by
  have hloop : ∀ (lines : List Bytes) (r : Bool × List GenPkg),
      lines.foldl (removeLine name) r =
        (r.1 || (lines.filterMap scanLine).any (·.name = name),
          r.2 ++ (lines.filterMap scanLine).filter (·.name ≠ name)) := by
    intro lines
    induction lines with
    | nil => simp
    | cons line lines ih =>
      intro r
      rw [List.foldl_cons, ih, List.filterMap_cons, removeLine]
      cases hline : scanLine line with
      | none => rfl
      | some p =>
        by_cases hp : p.name = name
        · simp [hp]
        · simp [hp]
  rw [scannedOthers, hloop]
  simp [scannedPackages]

lemma scanPast_eq_append {after : Bytes} (h : scanPast key s = some after) :
    ∃ before, s = before ++ key ++ after := by
  induction s with
  | nil => cases h
  | cons c s ih =>
    rw [scanPast] at h
    split_ifs at h with hpre
    · obtain ⟨t, ht⟩ := List.isPrefixOf_iff_prefix.1 hpre
      refine ⟨[], ?_⟩
      rw [← Option.some.inj h, ← ht]
      simp
    · obtain ⟨before, rfl⟩ := ih h
      exact ⟨c :: before, rfl⟩

/-- Where the key is, the scan stops there or before. -/
lemma scanPast_of_append (hkey : key ≠ []) (before after : Bytes) :
    ∃ after', scanPast key (before ++ key ++ after) = some after' ∧ after <:+ after' := by
  induction before with
  | nil =>
    obtain ⟨c, t, rfl⟩ := List.exists_cons_of_ne_nil hkey
    refine ⟨after, ?_, List.suffix_rfl⟩
    rw [List.nil_append, List.cons_append, scanPast, if_pos (by simp), ← List.cons_append,
      List.drop_left]
  | cons c before ih =>
    obtain ⟨after', hafter, hsuffix⟩ := ih
    rw [List.cons_append, List.cons_append, scanPast]
    split_ifs with hpre
    · refine ⟨_, rfl, ?_⟩
      have htext : c :: (before ++ key ++ after) = (c :: before ++ key) ++ after := by simp
      rw [htext, List.drop_append_of_le_length (by simp; omega)]
      exact List.suffix_append _ _
    · exact ⟨after', hafter, hsuffix⟩

lemma mem_dropWhile_of_suffix {p : UInt8 → Bool} {a b : Bytes} {c : UInt8} (h : a <:+ b)
    (hc : c ∈ a.dropWhile p) : c ∈ b.dropWhile p := by
  obtain ⟨pre, rfl⟩ := h
  rw [List.dropWhile_append]
  split_ifs with hpre
  · exact hc
  · exact List.mem_append_right _ ((List.dropWhile_sublist p).mem hc)

/-- A line gives a package when it names one. -/
lemma scanLine_isSome_iff : (scanLine line).isSome ↔ NamesPackage line := by
  have hkey : (34 :: ascii "name" ++ [34, 58] : Bytes) = ascii "\"name\":" := by decide
  rw [scanLine, Option.isSome_map, scanValue, hkey]
  constructor
  · intro h
    obtain ⟨v, hv⟩ := Option.isSome_iff_exists.1 h
    obtain ⟨after, hafter, hq⟩ := Option.bind_eq_some_iff.1 hv
    obtain ⟨before, rfl⟩ := scanPast_eq_append hafter
    refine ⟨before, after, rfl, ?_⟩
    by_contra hno
    simp only [if_neg hno] at hq
    cases hq
  · rintro ⟨before, after, rfl, hq⟩
    obtain ⟨after', hafter, hsuffix⟩ := @scanPast_of_append (ascii "\"name\":") (by decide) before after
    have hq' := mem_dropWhile_of_suffix hsuffix hq
    rw [hafter, Option.bind_some]
    simp only [if_pos hq']
    rfl

/-- Lines that name no package give none. -/
lemma filterMap_scanLine_eq_nil_iff {lines : List Bytes} :
    lines.filterMap scanLine = [] ↔ ∀ line ∈ lines, ¬ NamesPackage line := by
  rw [List.filterMap_eq_nil_iff]
  refine forall₂_congr fun line _ => ?_
  rw [← scanLine_isSome_iff, Option.not_isSome_iff_eq_none]

lemma scannable_of_mem_scannedPackages {p : GenPkg} (h : p ∈ scannedPackages text) : Scannable p := by
  obtain ⟨line, -, hline⟩ := List.mem_filterMap.1 h
  exact scannable_scanLine hline

end Scanners

/-! ### The text in lines -/

/-- A member of the manifest, on a line of its own. -/
def memberLine (key : String) (value : Bytes) : Bytes :=
  32 :: 32 :: 34 :: (ascii key ++ 34 :: 58 :: 32 :: value)

/-- The packages, from the line after the bracket to the end of the file. -/
def arrayBody (gap : Bytes) (fields : GenPkg → (Bytes × Bytes) × List (Bytes × Bytes)) :
    List GenPkg → Bytes
  | [] => ascii "  ]\n\x7d\n"
  | p :: ps => recordLine gap (fields p) ++ moreRecords gap (ps.map fields)

section Texts
variable (ps : List GenPkg)

lemma writtenManifest_eq (id timestamp : Nat) : writtenManifest id timestamp ps =
    123 :: 10 :: (memberLine "id" (decimal id) ++ 44 :: 10 :: (memberLine "timestamp"
      (decimal timestamp) ++ 44 :: 10 :: (ascii "  \"packages\": [" ++
        10 :: ((if ps = [] then [10] else []) ++ arrayBody [32] manifestFields ps)))) := by
  cases ps with
  | nil => simp [writtenManifest, memberLine, arrayBody, ascii, List.intercalate]
  | cons p ps =>
    have hentries := intercalate_manifestEntry p ps
    have htext : writtenManifest id timestamp (p :: ps) = ascii "\x7b\n  \"id\": " ++ decimal id ++
        ascii ",\n  \"timestamp\": " ++ decimal timestamp ++ ascii ",\n  \"packages\": [\n" ++
        ((ascii ",\n").intercalate ((p :: ps).map manifestEntry) ++ ascii "\n  ]\n\x7d\n") := by
      simp [writtenManifest]
    rw [htext, hentries, manifestEntry_eq]
    simp [memberLine, arrayBody, recordLine, ascii]

lemma appliedManifest_eq (json : Bytes) : appliedManifest json ps =
    123 :: 10 :: (memberLine "source" (ascii "\"2O9.nix\"") ++ 44 :: 10 :: (memberLine "nix_output"
      json ++ 44 :: 10 :: (ascii "  \"packages\":[" ++ 10 :: arrayBody [] applyFields ps))) := by
  cases ps with
  | nil => simp [appliedManifest, memberLine, arrayBody, ascii, List.intercalate]
  | cons p ps =>
    have hentries := intercalate_applyEntry p ps
    have htext : appliedManifest json (p :: ps) =
        ascii "\x7b\n  \"source\": \"2O9.nix\",\n  \"nix_output\": " ++ json ++
        ascii ",\n  \"packages\":[" ++
        ((ascii ",").intercalate ((p :: ps).map applyEntry) ++ ascii "\n  ]\n\x7d\n") := by
      simp [appliedManifest]
    rw [htext, hentries, applyEntry_eq]
    simp [memberLine, arrayBody, recordLine, ascii]

end Texts

/-! ### Scanning the text -/

section Scanning
variable {gap value rest : Bytes} {ps : List GenPkg}
  {fields : GenPkg → (Bytes × Bytes) × List (Bytes × Bytes)}

lemma scannedPackages_arrayBody (h : Writes gap fields ps) (hall : ∀ p ∈ ps, Scannable p) :
    scannedPackages (arrayBody gap fields ps) = ps := by
  cases ps with
  | nil =>
    show scannedPackages (ascii "  ]\n\x7d\n") = []
    decide
  | cons p ps => exact scannedPackages_records h hall

/-- A member whose value has no quotes gives nothing. -/
lemma scannedPackages_memberLine {key : String} (hkey : Clean (ascii key))
    (hname : ascii key ≠ ascii "name") (hvalue : Clean value)
    (hlen : (ascii key).length + value.length < 8000) :
    scannedPackages (memberLine key value ++ 44 :: 10 :: rest) = scannedPackages rest := by
  have hIsKey : IsKey (ascii "name") := ⟨by decide, _, _, rfl, by decide, by decide, by decide⟩
  have hquote : 34 ∉ 58 :: 32 :: (value ++ [44, 10]) := by
    have hv := hvalue.quote
    simp [hv]
  have hpast : scanPast (keyText (ascii "name")) (memberLine key value ++ [44] ++ [10]) = none := by
    have htext : memberLine key value ++ [44] ++ [10] =
        [32, 32] ++ (34 :: ascii key ++ 34 :: (58 :: 32 :: (value ++ [44, 10]))) := by
      simp [memberLine]
    rw [htext, scanPast_append _ (by decide), scanPast_quoted hIsKey hkey.quote
      (fun h => hname h.1.symm) (.inl rfl), scanPast_eq_none _ hquote]
  have hlow : ∀ c ∈ memberLine key value ++ [44], 32 ≤ c := by
    intro c hc
    simp only [memberLine, List.cons_append, List.append_assoc, List.mem_cons, List.mem_append,
      List.not_mem_nil, or_false] at hc
    rcases hc with rfl | rfl | rfl | hc | rfl | rfl | rfl | hc | rfl
    · decide
    · decide
    · decide
    · exact (hkey c hc).1
    · decide
    · decide
    · decide
    · exact (hvalue c hc).1
    · decide
  have htext : memberLine key value ++ 44 :: 10 :: rest =
      (memberLine key value ++ [44]) ++ 10 :: rest := by
    simp
  have hshort : (memberLine key value ++ [44]).length < 8191 := by
    simp only [memberLine, List.length_append, List.length_cons, List.length_nil]
    omega
  rw [htext, scannedPackages_newline, scannedPackages_line (fun h => absurd (hlow 10 h) (by decide))
    (fun h => absurd (hlow 0 h) (by decide)) hshort, scanLine, scanValue_eq_none hpast]
  rfl

lemma clean_decimal (n : Nat) : Clean (decimal n) := by
  have hdigit : ∀ c : UInt8, 48 ≤ c → 32 ≤ c := by
    intro c hc
    exact UInt8.le_trans (by decide) hc
  intro c hc
  have h := digit_of_mem_decimal hc
  refine ⟨hdigit c h.1, ?_, ?_⟩
  · rintro rfl
    exact absurd h.1 (by decide)
  · rintro rfl
    exact absurd h.2 (by decide)

lemma length_decimal_lt {n : Nat} (hn : n < 2 ^ 63) : (decimal n).length < 20 := by
  unfold decimal
  split_ifs
  · decide
  · rw [List.length_map, List.length_reverse]
    have hlt : n < 10 ^ 19 := lt_trans hn (by norm_num)
    have hlen := (Nat.digits_length_le_iff (by norm_num) n).2 hlt
    omega

end Scanning

/-! ### Parsing the text -/

section Parsing
variable {depth : Nat} {gap value rest rest' : Bytes} {v : Json} {ms : List (Bytes × Json)}
  {ps : List GenPkg} {fields : GenPkg → (Bytes × Bytes) × List (Bytes × Bytes)} {key : String}

open Json

/-- The front of a member, after the newline in front of its line. -/
lemma memberFront_line (hkey : Plain (ascii key)) :
    MemberFront (skipWhitespace (10 :: (memberLine key value ++ rest))) (ascii key)
      (32 :: (value ++ rest)) := by
  have htext : (10 :: (memberLine key value ++ rest) : Bytes) =
      ascii "\n  " ++ 34 :: (ascii key ++ 34 :: 58 :: 32 :: (value ++ rest)) := by
    simp [memberLine, ascii]
  rw [htext, skip_ascii (by decide) (by decide)]
  exact ⟨58 :: 32 :: (value ++ rest), parseString_plain hkey, skipWhitespace_cons (by decide)⟩

lemma skip_value (hv : Parses depth (value ++ rest) v rest') (hne : value ++ rest ≠ []) :
    skipWhitespace (32 :: (value ++ rest)) = value ++ rest := by
  rw [skipWhitespace_blank (by decide) hne, hv.skipWhitespace]

/-- A line and the members after it. -/
lemma parsesMembers_line (hkey : Plain (ascii key))
    (hv : Parses depth (value ++ 44 :: rest) v (44 :: rest))
    (hms : ParsesMembers depth (skipWhitespace rest) ms rest') :
    ParsesMembers depth (skipWhitespace (10 :: (memberLine key value ++ 44 :: rest)))
      ((ascii key, v) :: ms) rest' := by
  refine .cons (memberFront_line hkey) ?_ (skipWhitespace_cons (by decide)) hms
  rw [skip_value hv (by simp)]
  exact hv

/-- The value on the line of a first member can be read, and what follows. -/
lemma first_line (h : ParsesMembers depth (skipWhitespace (10 :: (memberLine key value ++ rest))) ms
      rest') (hkey : Plain (ascii key)) (hvalue : Solid value) :
    ∃ v s, Parses depth (value ++ rest) v s ∧ ∀ s', skipWhitespace s = 44 :: s' →
      ∃ ms, ParsesMembers depth (skipWhitespace s') ms rest' := by
  obtain ⟨v, s, hv, hnext⟩ := h.first (memberFront_line hkey)
  obtain ⟨c, t, rfl, hc⟩ := hvalue
  rw [skipWhitespace_blank (by decide) (by simp), List.cons_append, skipWhitespace_cons hc] at hv
  exact ⟨v, s, hv, hnext⟩

/-- The array of packages. -/
lemma parses_arrayBody (h : Writes gap fields ps) (hd : depth + 1 < nestingLimit) :
    Parses depth (91 :: 10 :: (arrayBody gap fields ps ++ [0]))
      (.array (ps.map fun p => recordJson (fields p))) fileEnd := by
  cases ps with
  | nil =>
    have htext : (10 :: (arrayBody gap fields [] ++ [0]) : Bytes) = ascii "\n  " ++ 93 :: fileEnd := by
      simp [arrayBody, fileEnd, ascii]
    refine .array_nil (by omega) ?_
    rw [htext, skip_ascii (by decide) (by decide)]
  | cons p ps =>
    have htext : (10 :: (arrayBody gap fields (p :: ps) ++ [0]) : Bytes) = ascii "\n    " ++
        123 :: (field gap (fields p).1 ++ (moreFields gap (fields p).2 ++
          (moreRecords gap (ps.map fields) ++ [0]))) := by
      simp [arrayBody, recordLine, ascii]
    have hskip : skipWhitespace (10 :: (arrayBody gap fields (p :: ps) ++ [0])) =
        123 :: (field gap (fields p).1 ++ (moreFields gap (fields p).2 ++
          (moreRecords gap (ps.map fields) ++ [0]))) := by
      rw [htext, skip_ascii (by decide) (by decide)]
    refine .array (by omega) ?_ ?_
    · rw [hskip]
      exact fun hhead => absurd (Option.some.inj hhead : (123 : UInt8) = 93) (by decide)
    · rw [hskip]
      exact parsesElements_records h hd

/-- The line of the packages is the last one. -/
lemma parsesMembers_packages (hgap : ∀ c ∈ gap, c = 32) (hv : Parses depth (91 :: rest) v fileEnd) :
    ParsesMembers depth (skipWhitespace (10 :: (ascii "  \"packages\":" ++ (gap ++ 91 :: rest))))
      [(ascii "packages", v)] [10, 0] := by
  have htext : (10 :: (ascii "  \"packages\":" ++ (gap ++ 91 :: rest)) : Bytes) =
      ascii "\n  " ++ 34 :: (ascii "packages" ++ 34 :: 58 :: (gap ++ 91 :: rest)) := by
    simp [ascii]
  have hend : skipWhitespace fileEnd = 125 :: [10, 0] := by decide
  have hkey : MemberFront (34 :: (ascii "packages" ++ 34 :: 58 :: (gap ++ 91 :: rest)))
      (ascii "packages") (gap ++ 91 :: rest) :=
    ⟨_, parseString_plain (Nix.plain_ascii (by decide)), skipWhitespace_cons (by decide)⟩
  rw [htext, skip_ascii (by decide) (by decide)]
  refine .last hkey ?_ hend
  rw [skipWhitespace_append (le_of_gap hgap) (by decide)]
  exact hv

end Parsing

/-! ### What the cJSON readers get -/

section Readers
variable {gap text : Bytes} {ps : List GenPkg}
  {fields : GenPkg → (Bytes × Bytes) × List (Bytes × Bytes)}

open Json

/-- The records in the file are the packages that `read_current_gen_packages` gets, and those of the
index. -/
lemma parsed_of_items (hparse : (parse text).bind (fun root =>
      (root.getObjectItem (ascii "packages")).bind items?) =
        some (ps.map fun p => recordJson (fields p)))
    (hfields : ∀ p ∈ ps, parsedPackage (recordJson (fields p)) = some p) :
    parsedPackages text = ps ∧ (genIndexLoad text).getD [] = ps := by
  have hitems : (ps.map fun p => recordJson (fields p)).filterMap parsedPackage = ps := by
    clear hparse
    induction ps with
    | nil => rfl
    | cons p ps ih =>
      obtain ⟨hp, hps⟩ := List.forall_mem_cons.1 hfields
      rw [List.map_cons, List.filterMap_cons_some hp, ih hps]
  constructor
  · rw [parsedPackages, hparse]
    exact hitems
  · rw [genIndexLoad, hparse]
    cases ps with
    | nil => rfl
    | cons p ps => exact hitems

lemma parsed_of_failure (hparse : parse text = none) :
    parsedPackages text = [] ∧ (genIndexLoad text).getD [] = [] := by
  rw [parsedPackages, genIndexLoad, hparse]
  exact ⟨rfl, rfl⟩

end Readers

/-! ### The two writers -/

section Writers
variable {gap : Bytes} {ps : List GenPkg} {p : GenPkg}
  {fields : GenPkg → (Bytes × Bytes) × List (Bytes × Bytes)}

lemma writes_manifest (h : ∀ p ∈ ps, CleanPkg p) : Writes [32] manifestFields ps := by
  refine ⟨fun c hc => List.mem_singleton.1 hc, fun p hp => ⟨manifestFields_of (h p hp), (h p hp).name⟩,
    fun p _ hscan => ?_⟩
  have hname := hscan.name.length
  have hversion := hscan.version.length
  have horigin := hscan.origin.length
  have hmax : Posix.pathMax = 4096 := rfl
  cases hpath : p.storePath with
  | none =>
    simp [recordLine, manifestFields, field, moreFields, hpath, ascii]
    omega
  | some path =>
    have hlen := (hscan.storePath path hpath).length
    simp [recordLine, manifestFields, field, moreFields, hpath, ascii]
    omega

/-- `cmd_apply` writes a path for every package. -/
lemma writes_apply (h : ∀ p ∈ ps, CleanPkg p) (hpath : ∀ p ∈ ps, p.storePath.isSome) :
    Writes [] applyFields ps := by
  have hgiven : ∀ p ∈ ps, { p with storePath := some (p.storePath.getD []) } = p := by
    intro p hp
    obtain ⟨path, hpath⟩ := Option.isSome_iff_exists.1 (hpath p hp)
    obtain ⟨_, _, _, _⟩ := p
    simp_all
  refine ⟨List.forall_mem_nil _, fun p hp => ⟨?_, (h p hp).name⟩, fun p hp hscan => ?_⟩
  · have hfields := applyFields_of (h p hp)
    rwa [hgiven p hp] at hfields
  · obtain ⟨path, hpath⟩ := Option.isSome_iff_exists.1 (hpath p hp)
    have hname := hscan.name.length
    have hversion := hscan.version.length
    have horigin := hscan.origin.length
    have hlen := (hscan.storePath path hpath).length
    have hmax : Posix.pathMax = 4096 := rfl
    simp [recordLine, applyFields, field, moreFields, hpath, ascii]
    omega

lemma keys_manifestFields (p : GenPkg) : ∀ g ∈ (manifestFields p).2,
    g.1 ∈ [ascii "version", ascii "store_path", ascii "origin"] := by
  intro g hg
  cases hpath : p.storePath <;> simp [manifestFields, hpath] at hg
  · rcases hg with rfl | rfl <;> simp
  · rcases hg with rfl | rfl | rfl <;> simp

lemma keys_applyFields (p : GenPkg) : ∀ g ∈ (applyFields p).2,
    g.1 ∈ [ascii "version", ascii "store_path", ascii "origin"] := by
  intro g hg
  simp [applyFields] at hg
  rcases hg with rfl | rfl | rfl <;> simp

lemma zero_notMem_moreRecords (h : ∀ p ∈ ps, ∀ c ∈ recordLine gap (fields p), 32 ≤ c) :
    (0 : UInt8) ∉ moreRecords gap (ps.map fields) := by
  induction ps with
  | nil => exact Nix.zero_notMem_ascii (by decide)
  | cons p ps ih =>
    obtain ⟨hp, hps⟩ := List.forall_mem_cons.1 h
    have htext : moreRecords gap ((p :: ps).map fields) =
        44 :: 10 :: (recordLine gap (fields p) ++ moreRecords gap (ps.map fields)) := by
      simp [moreRecords, recordLine, ascii]
    have hline : (0 : UInt8) ∉ recordLine gap (fields p) := fun hz => absurd (hp 0 hz) (by decide)
    have hrest := ih hps
    rw [htext]
    simp [hline, hrest]

lemma zero_notMem_arrayBody (h : Writes gap fields ps) : (0 : UInt8) ∉ arrayBody gap fields ps := by
  have hlines : ∀ (qs : List GenPkg), Writes gap fields qs →
      ∀ p ∈ qs, ∀ c ∈ recordLine gap (fields p), 32 ≤ c := by
    intro qs
    induction qs with
    | nil => exact fun _ => List.forall_mem_nil _
    | cons q qs ih => exact fun hqs => List.forall_mem_cons.2 ⟨le_of_mem_recordLine hqs, ih hqs.tail⟩
  cases ps with
  | nil => exact Nix.zero_notMem_ascii (by decide)
  | cons p ps =>
    obtain ⟨hp, hps⟩ := List.forall_mem_cons.1 (hlines _ h)
    have hline : (0 : UInt8) ∉ recordLine gap (fields p) := fun hz => absurd (hp 0 hz) (by decide)
    have hrest := zero_notMem_moreRecords hps
    simp [arrayBody, hline, hrest]

end Writers

/-! ### Each layout -/

section Layouts
variable {ps : List GenPkg}

open Json

/-- All readers give what the scanner and the two cJSON readers give. -/
lemma agree_of {text : Bytes} (hscan : scannedPackages text = ps)
    (hread : parsedPackages text = ps ∧ (genIndexLoad text).getD [] = ps) : Agree text ps :=
  ⟨hscan, fun name => by rw [scannedOthers_eq, hscan], hread.1, hread.2⟩

lemma head_line {key : String} {value rest : Bytes} :
    (skipWhitespace (10 :: (memberLine key value ++ rest))).head? ≠ some 125 := by
  have htext : (10 :: (memberLine key value ++ rest) : Bytes) =
      ascii "\n  " ++ 34 :: (ascii key ++ 34 :: 58 :: 32 :: (value ++ rest)) := by
    simp [memberLine, ascii]
  rw [htext, skip_ascii (by decide) (by decide)]
  exact fun hhead => absurd (Option.some.inj hhead : (34 : UInt8) = 125) (by decide)

lemma zero_notMem_memberLine {key : String} {value : Bytes} (hkey : (0 : UInt8) ∉ ascii key)
    (hvalue : (0 : UInt8) ∉ value) : (0 : UInt8) ∉ memberLine key value := by
  simp [memberLine, hkey, hvalue]

lemma parse_written (h : ∀ p ∈ ps, CleanPkg p) (id timestamp : Nat) :
    ∃ a b, parse (writtenManifest id timestamp ps) = some (.object [(ascii "id", a),
      (ascii "timestamp", b),
      (ascii "packages", .array (ps.map fun p => recordJson (manifestFields p)))]) := by
  have hnumber : ∀ (n : Nat) (rest : Bytes),
      Parses 1 (decimal n ++ 44 :: rest) (.number (decimal n)) (44 :: rest) := by
    intro n rest
    exact @parses_signedDecimal 44 rest 1 (n : Int) (by decide)
  have hwrites := writes_manifest h
  have harray : Parses 1 (91 :: 10 :: ((if ps = [] then [10] else []) ++
      arrayBody [32] manifestFields ps ++ [0]))
      (.array (ps.map fun p => recordJson (manifestFields p))) fileEnd := by
    cases ps with
    | nil => exact .array_nil (by decide) (by decide)
    | cons p ps => exact parses_arrayBody hwrites (by decide)
  have hkeyId : Plain (ascii "id") := Nix.plain_ascii (by decide)
  have hkeyTs : Plain (ascii "timestamp") := Nix.plain_ascii (by decide)
  have hlast := parsesMembers_packages hwrites.blank harray
  have hts := parsesMembers_line hkeyTs (hnumber timestamp _) hlast
  have hroot := Parses.object (by decide) head_line (parsesMembers_line hkeyId (hnumber id _) hts)
  have htext : writtenManifest id timestamp ps ++ [0] = 123 :: 10 :: (memberLine "id" (decimal id) ++
      44 :: 10 :: (memberLine "timestamp" (decimal timestamp) ++ 44 :: 10 ::
        (ascii "  \"packages\":" ++ ([32] ++ 91 :: 10 :: ((if ps = [] then [10] else []) ++
          arrayBody [32] manifestFields ps ++ [0]))))) := by
    rw [writtenManifest_eq]
    simp [ascii]
  have hzero : (0 : UInt8) ∉ writtenManifest id timestamp ps := by
    have hid := @zero_notMem_memberLine "id" _ (by decide) (Nix.zero_notMem_decimal id)
    have hts := @zero_notMem_memberLine "timestamp" _ (by decide) (Nix.zero_notMem_decimal timestamp)
    have hbody := zero_notMem_arrayBody hwrites
    rw [writtenManifest_eq]
    split_ifs <;> simp [ascii, hid, hts, hbody]
  rw [← htext] at hroot
  exact ⟨_, _, hroot.parse hzero (by rw [writtenManifest_eq]; rfl)⟩

/-- The text of the other layout, as the parser gets it. -/
lemma appliedManifest_nul (json : Bytes) (ps : List GenPkg) : appliedManifest json ps ++ [0] =
    123 :: 10 :: (memberLine "source" (ascii "\"2O9.nix\"") ++ 44 :: 10 :: (memberLine "nix_output"
      json ++ 44 :: 10 :: (ascii "  \"packages\":" ++ ([] ++ 91 :: 10 ::
        (arrayBody [] applyFields ps ++ [0]))))) := by
  rw [appliedManifest_eq]
  simp [ascii]

lemma zero_notMem_appliedManifest (config : Nix.Tree) (h : Writes [] applyFields ps) :
    (0 : UInt8) ∉ appliedManifest (Nix.nixToJson config) ps := by
  have hsource := @zero_notMem_memberLine "source" (ascii "\"2O9.nix\"") (by decide) (by decide)
  have hconfig := @zero_notMem_memberLine "nix_output" _ (by decide)
    (Nix.zero_notMem_jsonSerialize config 0)
  have hbody := zero_notMem_arrayBody h
  rw [appliedManifest_eq, Nix.nixToJson]
  simp [ascii] at hsource hconfig hbody ⊢
  simp [hsource, hconfig, hbody]

lemma parses_source (rest : Bytes) : Parses 1 (ascii "\"2O9.nix\"" ++ 44 :: rest)
    (.string (ascii "2O9.nix")) (44 :: rest) :=
  @Nix.parses_quoted (ascii "2O9.nix") (44 :: rest) 1 (Nix.plain_ascii (by decide))

lemma parse_applied (h : Writes [] applyFields ps) {config : Nix.Tree}
    (hnest : config.nesting < nestingLimit) :
    ∃ a b, parse (appliedManifest (Nix.nixToJson config) ps) = some (.object [(ascii "source", a),
      (ascii "nix_output", b),
      (ascii "packages", .array (ps.map fun p => recordJson (applyFields p)))]) := by
  have hkeySource : Plain (ascii "source") := Nix.plain_ascii (by decide)
  have hkeyConfig : Plain (ascii "nix_output") := Nix.plain_ascii (by decide)
  have hroom : 1 + config.nesting ≤ nestingLimit := by omega
  have harray := @parses_arrayBody 1 _ _ _ h (by decide)
  have hlast := parsesMembers_packages h.blank harray
  have hconfig := parsesMembers_line hkeyConfig
    ((Nix.readsBack config 1 0 44 _ (by decide) (by decide)).read hroom) hlast
  have hroot := Parses.object (by decide) head_line
    (parsesMembers_line hkeySource (parses_source _) hconfig)
  have hnul := appliedManifest_nul (Nix.nixToJson config) ps
  rw [Nix.nixToJson] at hnul
  rw [← hnul] at hroot
  exact ⟨_, _, hroot.parse (zero_notMem_appliedManifest config h) (by rw [appliedManifest_eq]; rfl)⟩

/-- A file that can be parsed has room for the configuration. -/
lemma nesting_of_parse (h : Writes [] applyFields ps) {config : Nix.Tree} {v : Json}
    (hparse : parse (appliedManifest (Nix.nixToJson config) ps) = some v) :
    config.nesting < nestingLimit := by
  obtain ⟨rest, hroot⟩ := parses_of_parse hparse (zero_notMem_appliedManifest config h)
    (by rw [appliedManifest_eq]; rfl)
  rw [appliedManifest_nul] at hroot
  obtain ⟨ms, hms⟩ := hroot.members_of_object head_line
  obtain ⟨v₁, s₁, hv₁, hnext⟩ := first_line hms (Nix.plain_ascii (by decide)) ⟨34, _, rfl, by decide⟩
  obtain ⟨-, rfl⟩ := (parses_source _).unique hv₁
  obtain ⟨ms', hms'⟩ := hnext _ (skipWhitespace_cons (by decide))
  obtain ⟨v₂, s₂, hv₂, -⟩ := first_line hms' (Nix.plain_ascii (by decide))
    (Nix.solid_jsonSerialize 0 config)
  have hroom := (Nix.readsBack config 1 0 44 _ (by decide) (by decide)).room v₂ s₂ hv₂
  omega

/-- The package as `cmd_apply` writes it. -/
def withPath (p : GenPkg) : GenPkg := { p with storePath := some (p.storePath.getD []) }

lemma withPath_eq_self {p : GenPkg} (h : p.storePath.isSome) : withPath p = p := by
  obtain ⟨path, hpath⟩ := Option.isSome_iff_exists.1 h
  obtain ⟨_, _, _, _⟩ := p
  simp_all [withPath]

lemma appliedManifest_withPath (json : Bytes) (ps : List GenPkg) :
    appliedManifest json (ps.map withPath) = appliedManifest json ps := by
  rw [appliedManifest, List.map_map]
  rfl

lemma CleanPkg.withPath {p : GenPkg} (h : CleanPkg p) : CleanPkg (withPath p) := by
  refine ⟨h.name, h.version, fun path hpath => ?_, h.origin⟩
  obtain rfl := Option.some.inj hpath
  cases hstore : p.storePath with
  | none => exact List.forall_mem_nil _
  | some path => exact h.storePath path hstore

lemma writes_withPath (h : ∀ p ∈ ps, CleanPkg p) : Writes [] applyFields (ps.map withPath) := by
  refine writes_apply (fun q hq => ?_) (fun q hq => ?_)
  · obtain ⟨p, hp, rfl⟩ := List.mem_map.1 hq
    exact (h p hp).withPath
  · obtain ⟨p, -, rfl⟩ := List.mem_map.1 hq
    rfl

/-- The cJSON readers of what `cmd_apply` wrote, when the file can be parsed. -/
lemma parsed_applied (h : ∀ p ∈ ps, CleanPkg p) {config : Nix.Tree}
    (hnest : config.nesting < nestingLimit) :
    parsedPackages (appliedManifest (Nix.nixToJson config) ps) = ps.map withPath ∧
      (genIndexLoad (appliedManifest (Nix.nixToJson config) ps)).getD [] = ps.map withPath := by
  have hwrites := writes_withPath h
  obtain ⟨a, b, hparse⟩ := parse_applied hwrites hnest
  rw [← appliedManifest_withPath]
  refine parsed_of_items (by rw [hparse]; rfl) fun q hq => ?_
  exact parsedPackage_record (hwrites.given q hq).1 (keys_applyFields q)

/-- The scanners on what `cmd_apply` wrote: what is in the configuration, and then the packages. -/
lemma scanned_applied (config : Nix.Tree) (h : ∀ p ∈ ps, CleanPkg p)
    (hscan : ∀ p ∈ ps, Scannable p ∧ p.storePath.isSome) :
    scannedPackages (appliedManifest (Nix.nixToJson config) ps) =
      (configLines config).filterMap scanLine ++ ps := by
  have hopen : scannedPackages ([123] ++ [10]) = [] := by decide
  have hsource : scannedPackages (memberLine "source" (ascii "\"2O9.nix\"") ++ [44] ++ [10]) = [] := by
    decide
  have harray : scannedPackages (ascii "  \"packages\":[" ++ [10]) = [] := by decide
  have hconfig : memberLine "nix_output" (Nix.nixToJson config) ++ [44] ++ [10] =
      ascii "  \"nix_output\": " ++ Nix.nixToJson config ++ ascii ",\n" := by
    simp [memberLine, ascii]
  have htext : appliedManifest (Nix.nixToJson config) ps = [123] ++ 10 :: (
      (memberLine "source" (ascii "\"2O9.nix\"") ++ [44]) ++ 10 :: (
        (memberLine "nix_output" (Nix.nixToJson config) ++ [44]) ++ 10 :: (
          ascii "  \"packages\":[" ++ 10 :: arrayBody [] applyFields ps))) := by
    rw [appliedManifest_eq]
    simp
  have hbody := scannedPackages_arrayBody (writes_apply h fun p hp => (hscan p hp).2)
    fun p hp => (hscan p hp).1
  rw [htext, scannedPackages_newline, hopen, scannedPackages_newline, hsource,
    scannedPackages_newline, hconfig, scannedPackages_newline, harray, hbody]
  rfl

lemma scanned_written (h : ∀ p ∈ ps, CleanPkg p) (hscan : ∀ p ∈ ps, Scannable p)
    (id : Fin (2 ^ 31)) (timestamp : Fin (2 ^ 63)) :
    scannedPackages (writtenManifest id timestamp ps) = ps := by
  have hopen : scannedPackages ([123] ++ [10]) = [] := by decide
  have harray : scannedPackages (ascii "  \"packages\": [" ++ [10]) = [] := by decide
  have hid := length_decimal_lt (lt_trans id.isLt (by norm_num : 2 ^ 31 < 2 ^ 63))
  have hts := length_decimal_lt timestamp.isLt
  have hidKey : (ascii "id").length = 2 := rfl
  have htsKey : (ascii "timestamp").length = 9 := rfl
  have hbody : scannedPackages ((if ps = [] then [10] else []) ++ arrayBody [32] manifestFields ps) =
      ps := by
    cases ps with
    | nil =>
      show scannedPackages ([10] ++ ascii "  ]\n\x7d\n") = []
      decide
    | cons p ps => exact scannedPackages_arrayBody (writes_manifest h) hscan
  have htext : writtenManifest id timestamp ps = [123] ++ 10 :: (memberLine "id" (decimal id) ++
      44 :: 10 :: (memberLine "timestamp" (decimal timestamp) ++ 44 :: 10 ::
        (ascii "  \"packages\": [" ++ 10 :: ((if ps = [] then [10] else []) ++
          arrayBody [32] manifestFields ps)))) := by
    rw [writtenManifest_eq]
    simp
  rw [htext, scannedPackages_newline, hopen, List.nil_append,
    scannedPackages_memberLine (clean_ascii (by decide)) (by decide) (clean_decimal _) (by omega),
    scannedPackages_memberLine (clean_ascii (by decide)) (by decide) (clean_decimal _) (by omega),
    scannedPackages_newline, harray, hbody]
  rfl

end Layouts

/-! ### When the readers agree -/

/-- **The readers of a manifest agree** on the packages that were written exactly when the scanners'
buffers can hold what stands in it and no line of an embedded configuration looks like a package. -/
theorem readers_agree_iff (layout : Layout) (packages : List GenPkg)
    (hclean : ∀ p ∈ packages, CleanPkg p) :
    Agree (layout.text packages) packages ↔ layout.Fits packages := by
  have hscannable : ∀ text, Agree text packages → ∀ p ∈ packages, Scannable p := by
    intro text hagree p hp
    exact scannable_of_mem_scannedPackages (hagree.scanned.symm ▸ hp)
  cases layout with
  | written id timestamp =>
    refine ⟨hscannable _, fun hfits => agree_of (scanned_written hclean hfits id timestamp) ?_⟩
    obtain ⟨a, b, hparse⟩ := parse_written hclean id timestamp
    refine parsed_of_items (by rw [Layout.text, hparse]; rfl) fun p hp => ?_
    exact parsedPackage_record (manifestFields_of (hclean p hp)) (keys_manifestFields p)
  | applied config =>
    constructor
    · intro hagree
      have hroom : packages = [] ∨ config.nesting < Json.nestingLimit := by
        refine or_iff_not_imp_left.2 fun hne => ?_
        cases hparse : Json.parse (appliedManifest (Nix.nixToJson config) packages) with
        | none => exact absurd ((parsed_of_failure hparse).1.symm.trans hagree.parsed).symm hne
        | some v =>
          rw [← appliedManifest_withPath] at hparse
          exact nesting_of_parse (writes_withPath hclean) hparse
      have hpath : ∀ p ∈ packages, p.storePath.isSome := by
        intro p hp
        have hnest := hroom.resolve_left (List.ne_nil_of_mem hp)
        have hread := (parsed_applied hclean hnest).1.symm.trans hagree.parsed
        obtain ⟨q, -, rfl⟩ := List.mem_map.1 (hread.symm ▸ hp)
        rfl
      have hall : ∀ p ∈ packages, Scannable p ∧ p.storePath.isSome :=
        fun p hp => ⟨hscannable _ hagree p hp, hpath p hp⟩
      refine ⟨hall, filterMap_scanLine_eq_nil_iff.1 ?_, hroom⟩
      exact List.append_left_eq_self.1 ((scanned_applied config hclean hall).symm.trans hagree.scanned)
    · rintro ⟨hall, hlines, hroom⟩
      have hscan := scanned_applied config hclean hall
      rw [filterMap_scanLine_eq_nil_iff.2 hlines, List.nil_append] at hscan
      refine agree_of hscan ?_
      have hsame : packages.map withPath = packages :=
        (List.map_congr_left fun p hp => withPath_eq_self (hall p hp).2).trans (List.map_id _)
      by_cases hnest : config.nesting < Json.nestingLimit
      · have hread := parsed_applied hclean hnest
        rwa [hsame] at hread
      · obtain rfl := hroom.resolve_right hnest
        cases hparse : Json.parse (appliedManifest (Nix.nixToJson config) []) with
        | none => exact parsed_of_failure hparse
        | some v => exact absurd (nesting_of_parse (writes_withPath hclean) hparse) hnest

/-- A package, beside a configuration without an attribute of its keys. -/
theorem readers_agree_iff_hello :
    Agree ((Layout.applied (.attrSet [(ascii "packages", .list [.string (ascii "hello")])])).text
      [⟨ascii "hello", ascii "1.0", some (ascii "/nix/store/x"), ascii "repo"⟩])
      [⟨ascii "hello", ascii "1.0", some (ascii "/nix/store/x"), ascii "repo"⟩] := by
  refine (readers_agree_iff _ _ ?_).2 ⟨?_, filterMap_scanLine_eq_nil_iff.1 (by decide),
    .inr (by decide)⟩
  · refine List.forall_mem_cons.2 ⟨⟨clean_ascii (by decide), clean_ascii (by decide), ?_,
      clean_ascii (by decide)⟩, List.forall_mem_nil _⟩
    intro path hpath
    obtain rfl := Option.some.inj hpath
    exact clean_ascii (by decide)
  · refine List.forall_mem_cons.2 ⟨⟨⟨⟨⟨_, _, rfl, by decide⟩, by decide⟩,
      ⟨⟨_, _, rfl, by decide⟩, by decide⟩, ?_, ⟨⟨_, _, rfl, by decide⟩, by decide⟩⟩, rfl⟩,
      List.forall_mem_nil _⟩
    intro path hpath
    obtain rfl := Option.some.inj hpath
    exact ⟨⟨_, _, rfl, by decide⟩, by decide⟩

/-- The scanners read a user of the configuration as a package. -/
theorem readers_disagree_on_users :
    ¬ ∀ (layout : Layout) (packages : List GenPkg), (∀ p ∈ packages, CleanPkg p) →
      Agree (layout.text packages) packages := by
  intro h
  have hagree := h (.applied (.attrSet [(ascii "users",
    .list [.attrSet [(ascii "name", .string (ascii "alice"))]])])) [] (List.forall_mem_nil _)
  have hscan : (scannedPackages ((Layout.applied (.attrSet [(ascii "users",
      .list [.attrSet [(ascii "name", .string (ascii "alice"))]])])).text [])).map (·.name) =
        [ascii "alice"] := by
    decide
  rw [hagree.scanned] at hscan
  exact absurd hscan (by decide)

end Two09.Gen
