import Two09.Install.Extract
import Two09.Lib.JsonParse

/-!
# Manifest files

`manifest.json` as it is written, by `write_manifest` and at the end of `cmd_apply`, and as it is read:
line by line for the first `"name":` in each, and with cJSON.
-/

namespace Two09.Gen

open Two09.Lib

/-! ### Writing -/

/-- The line of a package in `write_manifest`. -/
def manifestEntry (p : GenPkg) : Bytes :=
  ascii "    \x7b\"name\": \"" ++ p.name ++ ascii "\", \"version\": \"" ++ p.version ++ ascii "\"" ++
    (match p.storePath with
      | none => []
      | some path => ascii ", \"store_path\": \"" ++ path ++ ascii "\"") ++
    ascii ", \"origin\": \"" ++ p.origin ++ ascii "\"\x7d"

/-- What `write_manifest` writes. -/
def writtenManifest (id timestamp : Nat) (packages : List GenPkg) : Bytes :=
  ascii "\x7b\n  \"id\": " ++ decimal id ++ ascii ",\n  \"timestamp\": " ++ decimal timestamp ++
    ascii ",\n  \"packages\": [\n" ++ (ascii ",\n").intercalate (packages.map manifestEntry) ++
    ascii "\n  ]\n\x7d\n"

/-- The line of a package in `cmd_apply`, from the newline before it. -/
def applyEntry (p : GenPkg) : Bytes :=
  ascii "\n    \x7b\"name\":\"" ++ p.name ++ ascii "\",\"version\":\"" ++ p.version ++
    ascii "\",\"store_path\":\"" ++ p.storePath.getD [] ++ ascii "\",\"origin\":\"" ++ p.origin ++
    ascii "\"\x7d"

/-- What `cmd_apply` writes in its place, around the evaluated configuration. -/
def appliedManifest (json : Bytes) (packages : List GenPkg) : Bytes :=
  ascii "\x7b\n  \"source\": \"2O9.nix\",\n  \"nix_output\": " ++ json ++
    ascii ",\n  \"packages\":[" ++ (ascii ",").intercalate (packages.map applyEntry) ++
    ascii "\n  ]\n\x7d\n"

/-! ### The line scanners -/

/-- `strstr` for the key, and past it. -/
def scanPast (key : Bytes) : Bytes → Option Bytes
  | [] => none
  | c :: s => if key.isPrefixOf (c :: s) then some ((c :: s).drop key.length) else scanPast key s

/-- The value of a key in a line, for a buffer of `size` bytes. -/
def scanValue (key : String) (size : Nat) (line : Bytes) : Option Bytes :=
  (scanPast (34 :: ascii key ++ [34, 58]) line).bind fun s =>
    let value := s.dropWhile fun c => decide (c = 32 ∨ c = 34)
    if 34 ∈ value then some ((value.takeWhile (· ≠ 34)).take (size - 1)) else none

/-- The package that a line gives. -/
def scanLine (line : Bytes) : Option GenPkg :=
  (scanValue "name" 256 line).map fun name =>
    { name := name
      version := (scanValue "version" 64 line).getD (ascii "unknown")
      storePath := (scanValue "store_path" Posix.pathMax line).filter (· ≠ [])
      origin := (scanValue "origin" 32 line).getD (ascii "repo") }

/-- The lines of the file, in pieces of what the buffer holds. -/
def manifestLines (text : Bytes) : List Bytes := (Install.fgetsLines 8191 [] text).map cstr

/-- The packages that `gen_db_get` reads. -/
def scannedPackages (text : Bytes) : List GenPkg := (manifestLines text).filterMap scanLine

/-- One round of the loop of `cmd_remove`: whether it has found the package, and the others. -/
def removeLine (name : Bytes) (r : Bool × List GenPkg) (line : Bytes) : Bool × List GenPkg :=
  match scanLine line with
  | none => r
  | some p => if p.name = name then (true, r.2) else (r.1, r.2 ++ [p])

/-- The loop of `cmd_remove` over the manifest. -/
def scannedOthers (name : Bytes) (text : Bytes) : Bool × List GenPkg :=
  (manifestLines text).foldl (removeLine name) (false, [])

/-! ### The cJSON readers -/

/-- A package in the array, if its name is a string. -/
def parsedPackage (item : Json) : Option GenPkg :=
  let field (key : String) : Option Bytes := (item.getObjectItem (ascii key)).bind Json.string?
  (field "name").map fun name =>
    { name := name
      version := (field "version").getD (ascii "unknown")
      storePath := field "store_path"
      origin := (field "origin").getD (ascii "repo") }

/-- What `read_current_gen_packages` gets from the file. -/
def parsedPackages (text : Bytes) : List GenPkg :=
  match (Json.parse text).bind fun root => (root.getObjectItem (ascii "packages")).bind Json.items? with
  | none => []
  | some items => items.filterMap parsedPackage

/-- `gen_index_load`: the entries of the index in the order in which they are put in, no index for an
empty list. -/
def genIndexLoad (text : Bytes) : Option (List GenPkg) :=
  match (Json.parse text).bind fun root => (root.getObjectItem (ascii "packages")).bind Json.items? with
  | none => none
  | some [] => none
  | some (item :: items) => some ((item :: items).filterMap parsedPackage)

/-! ### Records -/

/-- A field of a record, with `gap` after its colon. -/
def field (gap : Bytes) (f : Bytes × Bytes) : Bytes :=
  34 :: f.1 ++ 34 :: 58 :: gap ++ 34 :: f.2 ++ [34]

/-- The further fields of a record, up to its end. -/
def moreFields (gap : Bytes) : List (Bytes × Bytes) → Bytes
  | [] => [125]
  | f :: fs => 44 :: gap ++ field gap f ++ moreFields gap fs

/-- The lines of further records, up to the end of the file. -/
def moreRecords (gap : Bytes) : List ((Bytes × Bytes) × List (Bytes × Bytes)) → Bytes
  | [] => ascii "\n  ]\n\x7d\n"
  | r :: rs => ascii ",\n    \x7b" ++ field gap r.1 ++ moreFields gap r.2 ++ moreRecords gap rs

/-- The fields that `write_manifest` writes. -/
def manifestFields (p : GenPkg) : (Bytes × Bytes) × List (Bytes × Bytes) :=
  ((ascii "name", p.name), (ascii "version", p.version) ::
    (p.storePath.toList.map fun path => (ascii "store_path", path)) ++ [(ascii "origin", p.origin)])

/-- The fields that `cmd_apply` writes. -/
def applyFields (p : GenPkg) : (Bytes × Bytes) × List (Bytes × Bytes) :=
  ((ascii "name", p.name), [(ascii "version", p.version),
    (ascii "store_path", p.storePath.getD []), (ascii "origin", p.origin)])

section Records
variable (p : GenPkg) (ps : List GenPkg)

lemma manifestEntry_eq : manifestEntry p = ascii "    \x7b" ++ field [32] (manifestFields p).1 ++
    moreFields [32] (manifestFields p).2 := by
  cases h : p.storePath <;> simp [manifestEntry, manifestFields, field, moreFields, h, ascii]

lemma applyEntry_eq : applyEntry p = ascii "\n    \x7b" ++ field [] (applyFields p).1 ++
    moreFields [] (applyFields p).2 := by
  simp [applyEntry, applyFields, field, moreFields, ascii]

lemma intercalate_manifestEntry :
    (ascii ",\n").intercalate ((p :: ps).map manifestEntry) ++ ascii "\n  ]\n\x7d\n" =
      manifestEntry p ++ moreRecords [32] (ps.map manifestFields) := by
  induction ps generalizing p with
  | nil => simp [List.intercalate, moreRecords]
  | cons q ps ih =>
    have h := ih q
    rw [List.map_cons, List.map_cons, List.intercalate_cons_cons, ← List.map_cons, List.append_assoc,
      List.append_assoc, h, List.map_cons, moreRecords, manifestEntry_eq q]
    simp [ascii]

lemma intercalate_applyEntry :
    (ascii ",").intercalate ((p :: ps).map applyEntry) ++ ascii "\n  ]\n\x7d\n" =
      applyEntry p ++ moreRecords [] (ps.map applyFields) := by
  induction ps generalizing p with
  | nil => simp [List.intercalate, moreRecords]
  | cons q ps ih =>
    have h := ih q
    rw [List.map_cons, List.map_cons, List.intercalate_cons_cons, ← List.map_cons, List.append_assoc,
      List.append_assoc, h, List.map_cons, moreRecords, applyEntry_eq q]
    simp [ascii]

end Records

/-! ### Scanning a record -/

/-- A key the scanners look for: no quote in it, and not what can follow one. -/
structure IsKey (k : Bytes) : Prop where
  quote : 34 ∉ k
  head : ∃ c t, k = c :: t ∧ c ≠ 58 ∧ c ≠ 44 ∧ c ≠ 125

/-- The quoted key with its colon. -/
def keyText (k : Bytes) : Bytes := 34 :: k ++ [34, 58]

section Scan
variable {k gap tail rest v : Bytes} {f : Bytes × Bytes} {fs : List (Bytes × Bytes)}

lemma prefix_quoted {k v a b : Bytes} (hk : 34 ∉ k) (hv : 34 ∉ v)
    (h : k ++ 34 :: a <+: v ++ 34 :: b) : k = v ∧ a <+: b := by
  induction k generalizing v with
  | nil =>
    cases v with
    | nil => exact ⟨rfl, (List.cons_prefix_cons.1 h).2⟩
    | cons d v => exact absurd (List.cons_prefix_cons.1 h).1 fun heq => hv (heq ▸ List.mem_cons_self)
  | cons c k ih =>
    cases v with
    | nil => exact absurd (List.cons_prefix_cons.1 h).1 fun heq => hk (heq ▸ List.mem_cons_self)
    | cons d v =>
      obtain ⟨rfl, hrest⟩ := List.cons_prefix_cons.1 h
      obtain ⟨rfl, hab⟩ := ih (fun hm => hk (List.mem_cons_of_mem _ hm))
        (fun hm => hv (List.mem_cons_of_mem _ hm)) hrest
      exact ⟨rfl, hab⟩

lemma scanPast_cons_of_not (c : UInt8) (s : Bytes) (h : ¬ k <+: c :: s) :
    scanPast k (c :: s) = scanPast k s := by
  rw [scanPast, if_neg (by simpa using h)]

/-- What has no quote in it is passed over. -/
lemma scanPast_append (k : Bytes) (hv : 34 ∉ v) (rest : Bytes) :
    scanPast (keyText k) (v ++ rest) = scanPast (keyText k) rest := by
  induction v with
  | nil => rfl
  | cons c v ih =>
    have hc : (34 : UInt8) ≠ c := fun h => hv (h ▸ List.mem_cons_self)
    rw [List.cons_append, scanPast_cons_of_not, ih fun h => hv (List.mem_cons_of_mem _ h)]
    exact fun h => hc (List.cons_prefix_cons.1 h).1

lemma scanPast_eq_none (k : Bytes) (hv : 34 ∉ v) : scanPast (keyText k) v = none := by
  rw [← List.append_nil v, scanPast_append k hv]
  rfl

/-- A key or a value that is not the key with its colon. -/
lemma scanPast_quoted (hk : IsKey k) (hv : 34 ∉ v) (hne : ¬ (k = v ∧ rest.head? = some 58))
    (hrest : rest.head? = some 58 ∨ rest.head? = some 44 ∨ rest.head? = some 125) :
    scanPast (keyText k) (34 :: v ++ 34 :: rest) = scanPast (keyText k) rest := by
  rw [List.cons_append, scanPast_cons_of_not, scanPast_append k hv, scanPast_cons_of_not]
  · intro h
    obtain ⟨c, t, rfl, h58, h44, h125⟩ := hk.head
    obtain ⟨u, hu⟩ := (List.cons_prefix_cons.1 h).2
    rw [← hu] at hrest
    simp [h58, h44, h125] at hrest
  · intro h
    obtain ⟨rfl, hcolon⟩ := prefix_quoted hk.quote hv (List.cons_prefix_cons.1 h).2
    obtain ⟨u, hu⟩ := hcolon
    exact hne ⟨rfl, by rw [← hu]; rfl⟩

/-- Past the colon of the field with the key, or past another one. -/
lemma scanPast_field (hk : IsKey k) (hgap : 34 ∉ gap) (hf : 34 ∉ f.1 ∧ 34 ∉ f.2)
    (hrest : rest.head? = some 44 ∨ rest.head? = some 125) :
    scanPast (keyText k) (field gap f ++ rest) =
      if f.1 = k then some (gap ++ 34 :: f.2 ++ 34 :: rest) else scanPast (keyText k) rest := by
  have htext : field gap f ++ rest =
      34 :: f.1 ++ 34 :: (58 :: (gap ++ (34 :: f.2 ++ 34 :: rest))) := by
    simp [field]
  rw [htext]
  split_ifs with hkey
  · subst hkey
    have hpre : keyText f.1 <+: 34 :: f.1 ++ 34 :: (58 :: (gap ++ (34 :: f.2 ++ 34 :: rest))) :=
      ⟨gap ++ (34 :: f.2 ++ 34 :: rest), by simp [keyText]⟩
    rw [List.cons_append] at hpre ⊢
    rw [scanPast, if_pos (by simpa using hpre)]
    simp [keyText]
  · have hrest' : ¬ (k = f.2 ∧ rest.head? = some 58) := by
      rintro ⟨-, h58⟩
      rcases hrest with h | h <;> simp [h] at h58
    rw [scanPast_quoted hk hf.1 (fun h => hkey h.1.symm) (.inl rfl), ← List.cons_append,
      scanPast_append k (by simpa using hgap), scanPast_quoted hk hf.2 hrest' (.inr hrest)]

lemma head_moreFields (gap : Bytes) (fs : List (Bytes × Bytes)) (tail : Bytes) :
    (moreFields gap fs ++ tail).head? = some 44 ∨ (moreFields gap fs ++ tail).head? = some 125 := by
  cases fs with
  | nil => exact .inr rfl
  | cons f fs => exact .inl rfl

/-- In the fields of a record, the first one with the key is found. -/
lemma scanPast_moreFields (hk : IsKey k) (hgap : 34 ∉ gap) (htail : 34 ∉ tail)
    (hfs : ∀ f ∈ fs, 34 ∉ f.1 ∧ 34 ∉ f.2) :
    match fs.find? (·.1 = k) with
    | none => scanPast (keyText k) (moreFields gap fs ++ tail) = none
    | some f => ∃ t, scanPast (keyText k) (moreFields gap fs ++ tail) =
        some (gap ++ 34 :: f.2 ++ 34 :: t) := by
  induction fs with
  | nil => exact scanPast_eq_none k (by simpa [moreFields] using htail)
  | cons f fs ih =>
    obtain ⟨hf, hfs⟩ := List.forall_mem_cons.1 hfs
    have hstep : scanPast (keyText k) (moreFields gap (f :: fs) ++ tail) =
        if f.1 = k then some (gap ++ 34 :: f.2 ++ 34 :: (moreFields gap fs ++ tail))
        else scanPast (keyText k) (moreFields gap fs ++ tail) := by
      rw [← scanPast_field hk hgap hf (head_moreFields gap fs tail), moreFields]
      rw [List.append_assoc, List.append_assoc,
        scanPast_append (v := 44 :: gap) k (by simpa using hgap)]
    rw [hstep]
    by_cases hkey : f.1 = k
    · rw [List.find?_cons_of_pos (by simpa using hkey), if_pos hkey]
      exact ⟨_, rfl⟩
    · rw [List.find?_cons_of_neg (by simpa using hkey), if_neg hkey]
      exact ih hfs

end Scan

/-! ### What the scanners can read -/

/-- What a buffer of `size` bytes gives back: not empty, no space in front, not too long. -/
structure Readable (size : Nat) (v : Bytes) : Prop where
  head : ∃ c t, v = c :: t ∧ c ≠ 32
  length : v.length < size

/-- A package each string of which the scanners give back. -/
structure Scannable (p : GenPkg) : Prop where
  name : Readable 256 p.name
  version : Readable 64 p.version
  storePath : ∀ path, p.storePath = some path → Readable Posix.pathMax path
  origin : Readable 32 p.origin

/-- The characters a string of a package may have. -/
def Clean (v : Bytes) : Prop := ∀ c ∈ v, 32 ≤ c ∧ c ≠ 34 ∧ c ≠ 92

structure CleanPkg (p : GenPkg) : Prop where
  name : Clean p.name
  version : Clean p.version
  storePath : ∀ path, p.storePath = some path → Clean path
  origin : Clean p.origin

section Values
variable {key : String} {size : Nat} {line gap v t : Bytes} {p : GenPkg}

lemma Clean.quote (h : Clean v) : 34 ∉ v := fun hm => (h 34 hm).2.1 rfl

lemma Clean.plain (h : Clean v) : Json.Plain v := by
  refine fun c hc => ⟨?_, (h c hc).2⟩
  rintro rfl
  exact absurd (h 0 hc).1 (by decide)

lemma Clean.newline (h : Clean v) : 10 ∉ v := fun hm => absurd (h 10 hm).1 (by decide)

/-- A value that can be read is. -/
lemma scanValue_eq (hpast : scanPast (keyText (ascii key)) line = some (gap ++ 34 :: v ++ 34 :: t))
    (hgap : ∀ c ∈ gap, c = 32) (hv : 34 ∉ v) (hr : Readable size v) :
    scanValue key size line = some v := by
  obtain ⟨⟨c, w, rfl, hc⟩, hlen⟩ := hr
  have hq : c ≠ 34 := fun h => hv (h ▸ List.mem_cons_self)
  have hdrop : (gap ++ 34 :: (c :: w) ++ 34 :: t).dropWhile (fun c => decide (c = 32 ∨ c = 34)) =
      (c :: w) ++ 34 :: t := by
    rw [List.append_assoc, List.dropWhile_append_of_pos fun d hd => by simp [hgap d hd]]
    simp [hc, hq]
  have htake : ((c :: w) ++ 34 :: t).takeWhile (· ≠ 34) = c :: w := by
    rw [List.takeWhile_append_of_pos fun d hd => by simpa using fun h : d = 34 => hv (h ▸ hd)]
    simp
  have hpast' : scanPast (34 :: ascii key ++ [34, 58]) line =
      some (gap ++ 34 :: (c :: w) ++ 34 :: t) := hpast
  rw [scanValue, hpast', Option.bind_some]
  simp only [hdrop, htake, List.mem_append, List.mem_cons_self, or_true, if_true]
  rw [List.take_of_length_le (by omega)]

lemma scanValue_eq_none (hpast : scanPast (keyText (ascii key)) line = none) :
    scanValue key size line = none := by
  have hpast' : scanPast (34 :: ascii key ++ [34, 58]) line = none := hpast
  rw [scanValue, hpast', Option.bind_none]

/-- **Whatever a scanner reads could be read.** -/
lemma readable_scanValue (hsize : 2 ≤ size) (h : scanValue key size line = some v) :
    Readable size v := by
  obtain ⟨s, -, hs⟩ := Option.bind_eq_some_iff.1 h
  simp only at hs
  split_ifs at hs with hmem
  obtain rfl := Option.some.inj hs
  obtain ⟨c, w, hcw⟩ := List.exists_cons_of_ne_nil (List.ne_nil_of_mem hmem)
  have hhead : ¬ (c = 32 ∨ c = 34) := by
    have hnot := List.head?_dropWhile_not (fun c => decide (c = 32 ∨ c = 34)) s
    rw [hcw] at hnot
    simpa using hnot
  rw [hcw, List.takeWhile_cons_of_pos (by simpa using fun h => hhead (.inr h))]
  obtain ⟨n, hn⟩ := Nat.exists_eq_add_of_le' hsize
  refine ⟨⟨c, (w.takeWhile (· ≠ 34)).take n, ?_, fun h => hhead (.inl h)⟩, ?_⟩
  · rw [show size - 1 = n + 1 by omega, List.take_succ_cons]
  · rw [List.length_take]
    omega

lemma scannable_scanLine (h : scanLine line = some p) : Scannable p := by
  have hunknown : Readable 64 (ascii "unknown") := ⟨⟨_, _, rfl, by decide⟩, by decide⟩
  have hrepo : Readable 32 (ascii "repo") := ⟨⟨_, _, rfl, by decide⟩, by decide⟩
  obtain ⟨name, hname, rfl⟩ := Option.map_eq_some_iff.1 h
  refine ⟨readable_scanValue (by decide) hname, ?_, fun path hpath => ?_, ?_⟩
  · cases hv : scanValue "version" 64 line with
    | none => exact hunknown
    | some v => exact readable_scanValue (by decide) hv
  · obtain ⟨hpath, -⟩ := Option.filter_eq_some_iff.1 hpath
    exact readable_scanValue (by decide) hpath
  · cases hv : scanValue "origin" 32 line with
    | none => exact hrepo
    | some v => exact readable_scanValue (by decide) hv

end Values

/-! ### The line of a record -/

/-- The fields of a record as those of a package. -/
structure FieldsOf (fs : (Bytes × Bytes) × List (Bytes × Bytes)) (p : GenPkg) : Prop where
  name : fs.1 = (ascii "name", p.name)
  version : fs.2.find? (·.1 = ascii "version") = some (ascii "version", p.version)
  storePath : fs.2.find? (·.1 = ascii "store_path") =
    p.storePath.map fun path => (ascii "store_path", path)
  origin : fs.2.find? (·.1 = ascii "origin") = some (ascii "origin", p.origin)
  clean : ∀ f ∈ fs.2, Clean f.1 ∧ Clean f.2

section Line
variable {gap tail : Bytes} {fs : (Bytes × Bytes) × List (Bytes × Bytes)} {p : GenPkg}

lemma clean_ascii {s : String} (h : (ascii s).all (fun c => decide (32 ≤ c ∧ c ≠ 34 ∧ c ≠ 92)) = true) :
    Clean (ascii s) := fun c hc => of_decide_eq_true (List.all_eq_true.1 h c hc)

lemma manifestFields_of (h : CleanPkg p) : FieldsOf (manifestFields p) p := by
  have hname : ∀ s ∈ ["version", "store_path", "origin"], Clean (ascii s) := by
    intro s hs
    exact clean_ascii (by simp only [List.mem_cons, List.not_mem_nil, or_false] at hs
                          rcases hs with rfl | rfl | rfl <;> decide)
  refine ⟨rfl, rfl, ?_, ?_, ?_⟩
  · obtain ⟨_, _, path, _⟩ := p
    cases path <;> rfl
  · obtain ⟨_, _, path, _⟩ := p
    cases path <;> rfl
  · intro f hf
    cases hpath : p.storePath with
    | none =>
      simp only [manifestFields, hpath, Option.toList_none, List.map_nil, List.cons_append,
        List.nil_append, List.mem_cons, List.not_mem_nil, or_false] at hf
      rcases hf with rfl | rfl
      · exact ⟨hname _ (by simp), h.version⟩
      · exact ⟨hname _ (by simp), h.origin⟩
    | some path =>
      simp only [manifestFields, hpath, Option.toList_some, List.map_cons, List.map_nil,
        List.cons_append, List.nil_append, List.mem_cons, List.not_mem_nil, or_false] at hf
      rcases hf with rfl | rfl | rfl
      · exact ⟨hname _ (by simp), h.version⟩
      · exact ⟨hname _ (by simp), h.storePath path hpath⟩
      · exact ⟨hname _ (by simp), h.origin⟩

lemma applyFields_of (h : CleanPkg p) :
    FieldsOf (applyFields p) { p with storePath := some (p.storePath.getD []) } := by
  have hname : ∀ s ∈ ["version", "store_path", "origin"], Clean (ascii s) := by
    intro s hs
    exact clean_ascii (by simp only [List.mem_cons, List.not_mem_nil, or_false] at hs
                          rcases hs with rfl | rfl | rfl <;> decide)
  have hpath : Clean (p.storePath.getD []) := by
    cases hp : p.storePath with
    | none => exact fun c hc => absurd hc List.not_mem_nil
    | some path => exact h.storePath path hp
  refine ⟨rfl, rfl, rfl, rfl, ?_⟩
  intro f hf
  simp only [applyFields, List.mem_cons, List.not_mem_nil, or_false] at hf
  rcases hf with rfl | rfl | rfl
  · exact ⟨hname _ (by simp), h.version⟩
  · exact ⟨hname _ (by simp), hpath⟩
  · exact ⟨hname _ (by simp), h.origin⟩

/-- **The line of a package gives the package**, if its strings can be read. -/
lemma scanLine_fields (hfs : FieldsOf fs p) (hname : Clean p.name) (hp : Scannable p)
    (hgap : ∀ c ∈ gap, c = 32) (htail : 34 ∉ tail) :
    scanLine (ascii "    \x7b" ++ field gap fs.1 ++ moreFields gap fs.2 ++ tail) = some p := by
  set line := ascii "    \x7b" ++ field gap fs.1 ++ moreFields gap fs.2 ++ tail with hline
  have hgap' : 34 ∉ gap := fun h => absurd (hgap 34 h) (by decide)
  have hclean : ∀ f ∈ fs.2, 34 ∉ f.1 ∧ 34 ∉ f.2 :=
    fun f hf => ⟨(hfs.clean f hf).1.quote, (hfs.clean f hf).2.quote⟩
  have hnamed : 34 ∉ ascii "name" := by decide
  have hstart : ∀ k, IsKey k → scanPast (keyText k) line =
      if ascii "name" = k then
        some (gap ++ 34 :: p.name ++ 34 :: (moreFields gap fs.2 ++ tail))
      else scanPast (keyText k) (moreFields gap fs.2 ++ tail) := by
    intro k hk
    rw [hline, List.append_assoc, List.append_assoc, scanPast_append k (by decide), hfs.name,
      scanPast_field hk hgap' ⟨hnamed, hname.quote⟩ (head_moreFields gap fs.2 tail)]
  have hkey : ∀ s ∈ ["name", "version", "store_path", "origin"], IsKey (ascii s) := by
    intro s hs
    simp only [List.mem_cons, List.not_mem_nil, or_false] at hs
    rcases hs with rfl | rfl | rfl | rfl
    all_goals exact ⟨by decide, _, _, rfl, by decide, by decide, by decide⟩
  have hvname : scanValue "name" 256 line = some p.name :=
    scanValue_eq ((hstart _ (hkey _ (by simp))).trans (if_pos rfl)) hgap hname.quote hp.name
  have hfound : ∀ s ∈ ["version", "store_path", "origin"], ∀ size v,
      fs.2.find? (·.1 = ascii s) = some (ascii s, v) → Readable size v →
      scanValue s size line = some v := by
    intro s hs size v hfind hv
    have hne : ascii "name" ≠ ascii s := by
      simp only [List.mem_cons, List.not_mem_nil, or_false] at hs
      rcases hs with rfl | rfl | rfl <;> decide
    have hmore := scanPast_moreFields (hkey s (List.mem_cons_of_mem _ hs)) hgap' htail hclean
    rw [hfind] at hmore
    obtain ⟨t, ht⟩ := hmore
    have hq : 34 ∉ v := (hclean _ (List.mem_of_find?_eq_some hfind)).2
    exact scanValue_eq ((hstart _ (hkey s (List.mem_cons_of_mem _ hs))).trans
      ((if_neg hne).trans ht)) hgap hq hv
  have hvpath : (scanValue "store_path" Posix.pathMax line).filter (· ≠ []) = p.storePath := by
    cases hpath : p.storePath with
    | none =>
      have hmore := scanPast_moreFields (hkey "store_path" (by simp)) hgap' htail hclean
      rw [hfs.storePath, hpath] at hmore
      have hnone : scanPast (keyText (ascii "store_path")) line = none :=
        (hstart _ (hkey _ (by simp))).trans ((if_neg (by decide)).trans hmore)
      rw [scanValue_eq_none hnone]
      rfl
    | some path =>
      have hread := hp.storePath path hpath
      rw [hfound "store_path" (by simp) _ path (by rw [hfs.storePath, hpath]; rfl) hread]
      obtain ⟨c, t, rfl, -⟩ := hread.head
      simp
  rw [scanLine, hvname, Option.map_some, hfound "version" (by simp) _ _ hfs.version hp.version,
    hfound "origin" (by simp) _ _ hfs.origin hp.origin, hvpath]
  rfl

end Line

/-! ### Line by line -/

section Lines
variable {cur a b gap : Bytes} {n : Nat} {p : GenPkg} {ps : List GenPkg}
  {fields : GenPkg → (Bytes × Bytes) × List (Bytes × Bytes)}

/-- A new line starts a new piece. -/
lemma fgetsLines_newline (n : Nat) (cur a b : Bytes) :
    Install.fgetsLines n cur (a ++ 10 :: b) =
      Install.fgetsLines n cur (a ++ [10]) ++ Install.fgetsLines n [] b := by
  induction a generalizing cur with
  | nil => simp [Install.fgetsLines]
  | cons c a ih =>
    rw [List.cons_append, List.cons_append, Install.fgetsLines, Install.fgetsLines]
    split_ifs
    · rw [ih, List.cons_append]
    · rw [ih]

/-- A line that fits the buffer is one piece. -/
lemma fgetsLines_line (ha : 10 ∉ a) (hlen : cur.length + a.length + 1 ≤ n) :
    Install.fgetsLines n cur (a ++ [10]) = [cur ++ a ++ [10]] := by
  induction a generalizing cur with
  | nil => simp [Install.fgetsLines]
  | cons c a ih =>
    have hc : c ≠ 10 := fun h => ha (h ▸ List.mem_cons_self)
    rw [List.length_cons] at hlen
    have hmore : ¬ (c = 10 ∨ (cur ++ [c]).length = n) := by
      rw [List.length_append, List.length_singleton]
      rintro (h | h)
      · exact hc h
      · omega
    rw [List.cons_append, Install.fgetsLines, if_neg hmore,
      ih (fun h => ha (List.mem_cons_of_mem _ h))]
    · simp
    · rw [List.length_append, List.length_singleton]
      omega

lemma scannedPackages_newline (a b : Bytes) :
    scannedPackages (a ++ 10 :: b) = scannedPackages (a ++ [10]) ++ scannedPackages b := by
  rw [scannedPackages, manifestLines, fgetsLines_newline, List.map_append, List.filterMap_append]
  rfl

lemma scannedPackages_line (ha : 10 ∉ a) (hz : 0 ∉ a) (hlen : a.length < 8191) :
    scannedPackages (a ++ [10]) = (scanLine (a ++ [10])).toList := by
  have hcstr : cstr (a ++ [10]) = a ++ [10] := cstr_eq_self (by simpa using hz)
  rw [scannedPackages, manifestLines, fgetsLines_line ha (by simpa using hlen)]
  simp only [List.nil_append, List.map_cons, List.map_nil, hcstr, List.filterMap_cons,
    List.filterMap_nil]
  cases scanLine (a ++ [10]) <;> rfl

/-- The record of a package, on one line. -/
def recordLine (gap : Bytes) (fs : (Bytes × Bytes) × List (Bytes × Bytes)) : Bytes :=
  ascii "    \x7b" ++ field gap fs.1 ++ moreFields gap fs.2

/-- A layout of records in which packages are written. -/
structure Writes (gap : Bytes) (fields : GenPkg → (Bytes × Bytes) × List (Bytes × Bytes))
    (ps : List GenPkg) : Prop where
  blank : ∀ c ∈ gap, c = 32
  given : ∀ p ∈ ps, FieldsOf (fields p) p ∧ Clean p.name
  short : ∀ p ∈ ps, Scannable p → (recordLine gap (fields p)).length < 8000

lemma Writes.tail (h : Writes gap fields (p :: ps)) : Writes gap fields ps :=
  ⟨h.blank, fun q hq => h.given q (List.mem_cons_of_mem _ hq),
    fun q hq => h.short q (List.mem_cons_of_mem _ hq)⟩

lemma clean_moreFields {fs : List (Bytes × Bytes)} (hgap : ∀ c ∈ gap, c = 32)
    (hfs : ∀ f ∈ fs, Clean f.1 ∧ Clean f.2) : ∀ c ∈ moreFields gap fs, 32 ≤ c := by
  have hgap' : ∀ c ∈ gap, 32 ≤ c := by
    intro c hc
    rw [hgap c hc]
    decide
  induction fs with
  | nil =>
    intro c hc
    obtain rfl := List.mem_singleton.1 hc
    decide
  | cons f fs ih =>
    obtain ⟨hf, hfs⟩ := List.forall_mem_cons.1 hfs
    intro c hc
    simp only [moreFields, field, List.cons_append, List.append_assoc, List.mem_cons,
      List.mem_append, List.not_mem_nil, false_or] at hc
    rcases hc with rfl | hc | rfl | hc | rfl | rfl | hc | rfl | hc | rfl | hc
    · decide
    · exact hgap' c hc
    · decide
    · exact (hf.1 c hc).1
    · decide
    · decide
    · exact hgap' c hc
    · decide
    · exact (hf.2 c hc).1
    · decide
    · exact ih hfs c hc

lemma Writes.clean (h : Writes gap fields ps) (hp : p ∈ ps) :
    ∀ f ∈ (fields p).1 :: (fields p).2, Clean f.1 ∧ Clean f.2 := by
  obtain ⟨hfs, hname⟩ := h.given p hp
  refine List.forall_mem_cons.2 ⟨?_, hfs.clean⟩
  rw [hfs.name]
  exact ⟨clean_ascii (by decide), hname⟩

lemma le_of_mem_recordLine (h : Writes gap fields (p :: ps)) :
    ∀ c ∈ recordLine gap (fields p), 32 ≤ c := by
  have hmore := clean_moreFields h.blank (h.clean List.mem_cons_self)
  intro c hc
  simp only [recordLine, List.append_assoc, List.mem_append] at hc
  rcases hc with hc | hc | hc
  · have hpre : Clean (ascii "    \x7b") := clean_ascii (by decide)
    exact (hpre c hc).1
  · exact hmore c (List.mem_cons_of_mem _ (List.mem_append_left _ (List.mem_append_right _ hc)))
  · exact hmore c (List.mem_cons_of_mem _ (List.mem_append_right _ hc))

lemma scannedPackages_record (h : Writes gap fields (p :: ps)) (hp : Scannable p) {comma : Bytes}
    (hcomma : comma = [] ∨ comma = [44]) :
    scannedPackages (recordLine gap (fields p) ++ comma ++ [10]) = [p] := by
  obtain ⟨hfs, hname⟩ := h.given p List.mem_cons_self
  have hlow : ∀ c ∈ recordLine gap (fields p) ++ comma, 32 ≤ c := by
    intro c hc
    rcases List.mem_append.1 hc with hc | hc
    · exact le_of_mem_recordLine h c hc
    · rcases hcomma with rfl | rfl
      · cases hc
      · obtain rfl := List.mem_singleton.1 hc
        decide
  have hshort := h.short p List.mem_cons_self hp
  have hcl : comma.length ≤ 1 := by rcases hcomma with rfl | rfl <;> simp
  have htail : 34 ∉ comma ++ [10] := by rcases hcomma with rfl | rfl <;> decide
  have hline := scanLine_fields hfs hname hp h.blank htail
  rw [scannedPackages_line]
  · rw [List.append_assoc]
    exact congrArg Option.toList hline
  · exact fun h => absurd (hlow 10 h) (by decide)
  · exact fun h => absurd (hlow 0 h) (by decide)
  · rw [List.length_append]
    omega

/-- **The lines of packages give the packages.** -/
lemma scannedPackages_records (h : Writes gap fields (p :: ps)) (hall : ∀ q ∈ p :: ps, Scannable q) :
    scannedPackages (recordLine gap (fields p) ++ moreRecords gap (ps.map fields)) = p :: ps := by
  induction ps generalizing p with
  | nil =>
    have hend : scannedPackages (ascii "  ]\n\x7d\n") = [] := by decide
    have htext : recordLine gap (fields p) ++ moreRecords gap ([].map fields) =
        (recordLine gap (fields p) ++ []) ++ 10 :: ascii "  ]\n\x7d\n" := by
      rw [List.append_nil]
      rfl
    rw [htext, scannedPackages_newline, hend,
      scannedPackages_record h (hall p List.mem_cons_self) (.inl rfl)]
    rfl
  | cons q ps ih =>
    have htext : recordLine gap (fields p) ++ moreRecords gap ((q :: ps).map fields) =
        (recordLine gap (fields p) ++ [44]) ++
          10 :: (recordLine gap (fields q) ++ moreRecords gap (ps.map fields)) := by
      simp [moreRecords, recordLine, ascii]
    rw [htext, scannedPackages_newline, ih h.tail fun r hr => hall r (List.mem_cons_of_mem _ hr),
      scannedPackages_record h (hall p List.mem_cons_self) (.inr rfl)]
    rfl

end Lines

/-! ### Parsing records -/

/-- A record as an object. -/
def recordJson (fs : (Bytes × Bytes) × List (Bytes × Bytes)) : Json :=
  .object ((fs.1 :: fs.2).map fun f => (f.1, .string f.2))

section Parsing
variable {gap tail : Bytes} {depth : Nat} {f : Bytes × Bytes} {fs : List (Bytes × Bytes)} {p : GenPkg}
  {ps : List GenPkg} {fields : GenPkg → (Bytes × Bytes) × List (Bytes × Bytes)}

open Json

lemma le_of_gap (hgap : ∀ c ∈ gap, c = 32) : ∀ c ∈ gap, c ≤ 32 := by
  intro c hc
  rw [hgap c hc]
  decide

lemma skip_ascii {s : String} {c : UInt8} (hs : (ascii s).all (fun c => decide (c ≤ 32)) = true)
    (hc : 32 < c) : skipWhitespace (ascii s ++ c :: tail) = c :: tail :=
  skipWhitespace_append (fun d hd => of_decide_eq_true (List.all_eq_true.1 hs d hd)) hc

lemma memberFront_field (hf : Clean f.1) :
    MemberFront (field gap f ++ tail) f.1 (gap ++ 34 :: (f.2 ++ 34 :: tail)) := by
  refine ⟨58 :: (gap ++ 34 :: (f.2 ++ 34 :: tail)), ?_, skipWhitespace_cons (by decide)⟩
  rw [← parseString_plain hf.plain]
  simp [field]

lemma parses_fieldValue (hgap : ∀ c ∈ gap, c = 32) (hf : Clean f.2) :
    Parses depth (skipWhitespace (gap ++ 34 :: (f.2 ++ 34 :: tail))) (.string f.2) tail := by
  rw [skipWhitespace_append (le_of_gap hgap) (by decide)]
  exact Parses.string (parseString_plain hf.plain) rfl

/-- The fields of a record are the members of an object. -/
lemma parsesMembers_fields (hgap : ∀ c ∈ gap, c = 32) (hfs : ∀ g ∈ f :: fs, Clean g.1 ∧ Clean g.2) :
    ParsesMembers depth (field gap f ++ (moreFields gap fs ++ tail))
      ((f :: fs).map fun g => (g.1, .string g.2)) tail := by
  induction fs generalizing f with
  | nil =>
    obtain ⟨hf, -⟩ := List.forall_mem_cons.1 hfs
    exact .last (memberFront_field hf.1) (parses_fieldValue hgap hf.2)
      (skipWhitespace_cons (by decide))
  | cons g fs ih =>
    obtain ⟨hf, hrest⟩ := List.forall_mem_cons.1 hfs
    have hcomma : skipWhitespace (moreFields gap (g :: fs) ++ tail) =
        44 :: (gap ++ (field gap g ++ (moreFields gap fs ++ tail))) := by
      rw [moreFields, List.cons_append, List.cons_append, List.cons_append,
        skipWhitespace_cons (by decide)]
      simp
    refine .cons (memberFront_field hf.1) (parses_fieldValue hgap hf.2) hcomma ?_
    · have hquote : field gap g ++ (moreFields gap fs ++ tail) =
          34 :: (g.1 ++ 34 :: 58 :: gap ++ 34 :: g.2 ++ [34] ++ (moreFields gap fs ++ tail)) := by
        simp [field]
      rw [hquote, skipWhitespace_append (le_of_gap hgap) (by decide), ← hquote]
      exact ih hrest

lemma parses_record (hgap : ∀ c ∈ gap, c = 32) (hfs : ∀ g ∈ f :: fs, Clean g.1 ∧ Clean g.2)
    (hd : depth < nestingLimit) :
    Parses depth (123 :: (field gap f ++ (moreFields gap fs ++ tail))) (recordJson (f, fs)) tail := by
  have hquote : field gap f ++ (moreFields gap fs ++ tail) =
      34 :: (f.1 ++ 34 :: 58 :: gap ++ 34 :: f.2 ++ [34] ++ (moreFields gap fs ++ tail)) := by
    simp [field]
  have hskip : skipWhitespace (field gap f ++ (moreFields gap fs ++ tail)) =
      field gap f ++ (moreFields gap fs ++ tail) := by
    rw [hquote, skipWhitespace_cons (by decide)]
  refine .object hd ?_ ?_
  · rw [hskip, hquote]
    simp
  · rw [hskip]
    exact parsesMembers_fields hgap hfs

/-- What is left of a file after its packages. -/
def fileEnd : Bytes := ascii "\n\x7d\n" ++ [0]

/-- The records of packages are the elements of an array. -/
lemma parsesElements_records (h : Writes gap fields (p :: ps)) (hd : depth < nestingLimit) :
    ParsesElements depth
      (123 :: (field gap (fields p).1 ++ (moreFields gap (fields p).2 ++
        (moreRecords gap (ps.map fields) ++ [0]))))
      ((p :: ps).map fun q => recordJson (fields q)) fileEnd := by
  have hrecord := @parses_record gap (moreRecords gap (ps.map fields) ++ [0]) depth _ _ h.blank
    (h.clean List.mem_cons_self) hd
  induction ps generalizing p with
  | nil =>
    refine .last hrecord ?_
    have htext : moreRecords gap ([].map fields) ++ [0] = ascii "\n  " ++ 93 :: fileEnd := by
      simp [moreRecords, fileEnd, ascii]
    rw [htext, skip_ascii (by decide) (by decide)]
  | cons q ps ih =>
    have htext : moreRecords gap ((q :: ps).map fields) ++ [0] =
        44 :: (ascii "\n    " ++ 123 :: (field gap (fields q).1 ++ (moreFields gap (fields q).2 ++
          (moreRecords gap (ps.map fields) ++ [0])))) := by
      simp [moreRecords, ascii]
    have hnext := ih h.tail (parses_record h.blank (h.tail.clean List.mem_cons_self) hd)
    have hskip : skipWhitespace (ascii "\n    " ++ 123 :: (field gap (fields q).1 ++
        (moreFields gap (fields q).2 ++ (moreRecords gap (ps.map fields) ++ [0])))) =
        123 :: (field gap (fields q).1 ++
          (moreFields gap (fields q).2 ++ (moreRecords gap (ps.map fields) ++ [0]))) :=
      skip_ascii (by decide) (by decide)
    rw [← hskip] at hnext
    refine .cons hrecord ?_ hnext
    rw [htext]
    exact skipWhitespace_cons (by decide)

/-- **The record of a package is read as the package.** -/
lemma parsedPackage_record {fs : (Bytes × Bytes) × List (Bytes × Bytes)} (hfs : FieldsOf fs p)
    (hkeys : ∀ g ∈ fs.2, g.1 ∈ [ascii "version", ascii "store_path", ascii "origin"]) :
    parsedPackage (recordJson fs) = some p := by
  have hlower : ∀ k ∈ [ascii "name", ascii "version", ascii "store_path", ascii "origin"],
      k.map toLower = k := by
    decide
  have hfind : ∀ k ∈ [ascii "version", ascii "store_path", ascii "origin"],
      ((recordJson fs).getObjectItem k).bind string? = (fs.2.find? (·.1 = k)).map Prod.snd := by
    intro k hk
    have hne : ascii "name" ≠ k := by
      simp only [List.mem_cons, List.not_mem_nil, or_false] at hk
      rcases hk with rfl | rfl | rfl <;> decide
    have hk' := hlower k (List.mem_cons_of_mem _ hk)
    have hrest : ∀ gs : List (Bytes × Bytes),
        (∀ g ∈ gs, g.1 ∈ [ascii "version", ascii "store_path", ascii "origin"]) →
        (((gs.map fun g => (g.1, Json.string g.2)).find?
          (·.1.map toLower = k.map toLower)).map Prod.snd).bind string? =
          (gs.find? (·.1 = k)).map Prod.snd := by
      intro gs hgs
      induction gs with
      | nil => rfl
      | cons g gs ih =>
        obtain ⟨hg, hgs⟩ := List.forall_mem_cons.1 hgs
        have hg' := hlower g.1 (List.mem_cons_of_mem _ hg)
        by_cases heq : g.1 = k
        · simp [heq, string?]
        · rw [List.map_cons, List.find?_cons_of_neg (by simpa [hg', hk'] using heq),
            List.find?_cons_of_neg (by simpa using heq), ih hgs]
    have hname := hlower (ascii "name") List.mem_cons_self
    rw [recordJson, getObjectItem, List.map_cons, hfs.name,
      List.find?_cons_of_neg (by simpa [hname, hk'] using hne)]
    exact hrest fs.2 hkeys
  have hname : ((recordJson fs).getObjectItem (ascii "name")).bind string? = some p.name := by
    rw [recordJson, getObjectItem, List.map_cons, hfs.name]
    rfl
  rw [parsedPackage]
  simp only [hname, hfind (ascii "version") (by simp), hfind (ascii "store_path") (by simp),
    hfind (ascii "origin") (by simp), hfs.version, hfs.storePath, hfs.origin, Option.map_some,
    Option.getD_some]
  obtain ⟨name, version, path, origin⟩ := p
  cases path <;> rfl

end Parsing

end Two09.Gen
