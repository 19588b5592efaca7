import Two09.Gen.Readers
import Two09.Transfer.Commands

/-!
# Lock files

The hash index of a generation, the lock file that `cmd_lockfile_export` writes from it, and what
`cmd_lockfile_import` gets from the file.
-/

namespace Two09.Transfer

open Two09.Lib Two09.Lib.Json Two09.Gen Two09.Store Two09.Install

/-! ### The index -/

/-- `fnv1a_hash` -/
def fnv1aHash (s : Bytes) (bucketCount : Nat) : Nat :=
  (s.foldl (fun hash c => (hash ^^^ c.toUInt64) * 1099511628211) (14695981039346656037 : UInt64)).toNat %
    bucketCount

/-- The loop of `next_pow2`, of at most `fuel` rounds. -/
def doubleUpTo (n : Nat) : Nat → Nat → Nat
  | 0, p => p
  | fuel + 1, p => if p < n * 2 then doubleUpTo n fuel (p * 2) else p

/-- `next_pow2` -/
def nextPow2 (n : Nat) : Nat := doubleUpTo n n 16

/-- `gen_index_t`, with its buckets in order. -/
structure GenIndex where
  bucketCount : Nat
  buckets : List (List GenPkg)
  deriving DecidableEq, Repr

namespace GenIndex

def empty (bucketCount : Nat) : GenIndex := ⟨bucketCount, List.replicate bucketCount []⟩

/-- An entry is put in front of its bucket. -/
def insert (idx : GenIndex) (p : GenPkg) : GenIndex :=
  { idx with buckets := idx.buckets.modify (fnv1aHash p.name idx.bucketCount) (p :: ·) }

/-- The entries in the order of a walk over the buckets. -/
def entries (idx : GenIndex) : List GenPkg := idx.buckets.flatten

end GenIndex

/-- The index that `gen_index_load` builds from a manifest. -/
def loadIndex (manifest : Bytes) : Option GenIndex :=
  match (parse manifest).bind fun root => (root.getObjectItem (ascii "packages")).bind items? with
  | none => none
  | some [] => none
  | some (item :: items) => some (((item :: items).filterMap parsedPackage).foldl GenIndex.insert
      (GenIndex.empty (nextPow2 (items.length + 1))))

/-! ### The file -/

/-- A package in the lock file. -/
def lockEntry (p : GenPkg) : Bytes :=
  ascii "    \"" ++ p.name ++ ascii "\": \x7b\n      \"version\": \"" ++ p.version ++
    ascii "\",\n      \"origin\": \"" ++ p.origin ++ ascii "\",\n      \"store_path\": \"" ++
    p.storePath.getD [] ++ ascii "\"\n    \x7d"

/-- What `cmd_lockfile_export` writes. -/
def lockText (entries : List GenPkg) : Bytes :=
  ascii "\x7b\n  \"version\": 1,\n  \"generator\": \"2O9\",\n  \"packages\": \x7b\n" ++
    (ascii ",\n").intercalate (entries.map lockEntry) ++ ascii "\n  \x7d\n\x7d\n"

/-- `cmd_lockfile_export` of a generation, by its manifest. -/
def lockfileExport (manifest : Bytes) : Option Bytes :=
  (loadIndex manifest).map fun idx => lockText idx.entries

/-- A package that `cmd_lockfile_import` gets from a member of the object. -/
def lockPackage (m : Bytes × Json) : GenPkg :=
  let field (key : String) : Option Bytes := (m.2.getObjectItem (ascii key)).bind string?
  { name := m.1
    version := (field "version").getD (ascii "unknown")
    storePath := field "store_path"
    origin := (field "origin").getD (ascii "repo") }

/-- The packages in a lock file. -/
def lockfilePackages (text : Bytes) : Option (List GenPkg) :=
  ((parse text).bind fun root => (root.getObjectItem (ascii "packages")).bind members?).map
    fun members => members.map lockPackage

/-! ### The buckets -/

section Buckets
variable {idx : GenIndex} {p : GenPkg} {ps : List GenPkg} {n : Nat}

lemma doubleUpTo_pos (fuel : Nat) {p : Nat} (hp : 0 < p) : 0 < doubleUpTo n fuel p := by
  induction fuel generalizing p with
  | zero => exact hp
  | succ fuel ih =>
    unfold doubleUpTo
    split_ifs
    · exact ih (by omega)
    · exact hp

/-- So many rounds are enough, as each adds 16 or more. -/
lemma le_doubleUpTo {fuel p : Nat} (h : n * 2 ≤ p + fuel * 16) (hp : 16 ≤ p) : n * 2 ≤ doubleUpTo n fuel p := by
  induction fuel generalizing p with
  | zero =>
    rw [Nat.zero_mul] at h
    exact h
  | succ fuel ih =>
    unfold doubleUpTo
    split_ifs
    · exact ih (by omega) (by omega)
    · omega

/-- There are twice as many buckets as entries, and more. -/
lemma le_nextPow2 (n : Nat) : n * 2 ≤ nextPow2 n := le_doubleUpTo (by omega) le_rfl

lemma nextPow2_pos (n : Nat) : 0 < nextPow2 n := doubleUpTo_pos n (by decide)

/-- One bucket more by one entry. -/
lemma perm_flatten_modify {α : Type*} (a : α) (l : List (List α)) {i : Nat} (hi : i < l.length) :
    (l.modify i (a :: ·)).flatten.Perm (a :: l.flatten) := by
  induction l generalizing i with
  | nil => simp at hi
  | cons b l ih =>
    cases i with
    | zero => simp
    | succ i =>
      have hi' : i < l.length := by simpa using hi
      rw [List.modify_succ_cons, List.flatten_cons, List.flatten_cons]
      exact ((ih hi').append_left b).trans List.perm_middle

/-- **Every entry is in one bucket**, once. -/
lemma perm_entries_foldl (ps : List GenPkg) (hcount : idx.buckets.length = idx.bucketCount)
    (hpos : 0 < idx.bucketCount) : (ps.foldl GenIndex.insert idx).entries.Perm (ps ++ idx.entries) := by
  induction ps generalizing idx with
  | nil => exact .refl _
  | cons p ps ih =>
    have hstep : (idx.insert p).entries.Perm (p :: idx.entries) := by
      refine perm_flatten_modify p idx.buckets ?_
      rw [hcount]
      exact Nat.mod_lt _ hpos
    have hlen : (idx.insert p).buckets.length = (idx.insert p).bucketCount := by
      rw [GenIndex.insert, List.length_modify, hcount]
    rw [List.foldl_cons]
    exact (ih hlen hpos).trans ((hstep.append_left ps).trans List.perm_middle)

/-- The index has the packages that the manifest says, in some order. -/
lemma loadIndex_eq {manifest : Bytes} (h : genIndexLoad manifest = some ps) :
    ∃ idx, loadIndex manifest = some idx ∧ idx.entries.Perm ps := by
  unfold genIndexLoad at h
  unfold loadIndex
  cases hitems : (parse manifest).bind fun root => (root.getObjectItem (ascii "packages")).bind items? with
  | none => simp [hitems] at h
  | some items =>
    cases items with
    | nil => simp [hitems] at h
    | cons item items =>
      simp only [hitems, Option.some.injEq] at h
      refine ⟨_, rfl, ?_⟩
      rw [h]
      have hempty : (GenIndex.empty (nextPow2 (items.length + 1))).entries = [] := by
        simp [GenIndex.empty, GenIndex.entries]
      have hperm := @perm_entries_foldl (GenIndex.empty (nextPow2 (items.length + 1))) ps
        List.length_replicate (nextPow2_pos _)
      rwa [hempty, List.append_nil] at hperm

end Buckets

/-! ### Reading members -/

section Members
variable {depth : Nat} {ws ws' key value rest rest' : Bytes} {v : Json} {ms : List (Bytes × Json)}

lemma blank_ascii {s : String} (h : (ascii s).all (fun c => decide (c ≤ 32)) = true) :
    ∀ c ∈ ascii s, c ≤ 32 := fun c hc => of_decide_eq_true (List.all_eq_true.1 h c hc)

lemma memberFront_text (hws : ∀ c ∈ ws, c ≤ 32) (hkey : Plain key) :
    MemberFront (skipWhitespace (ws ++ 34 :: (key ++ 34 :: 58 :: rest))) key rest := by
  rw [skipWhitespace_append hws (by decide)]
  exact ⟨⟨58 :: rest, parseString_plain hkey, skipWhitespace_cons (by decide)⟩⟩

lemma parses_spaced (hv : Parses depth (value ++ rest) v rest') (hvalue : Solid value) :
    Parses depth (skipWhitespace (32 :: (value ++ rest))) v rest' := by
  obtain ⟨c, t, rfl, hc⟩ := hvalue
  rw [skipWhitespace_blank (by decide) (by simp), List.cons_append, skipWhitespace_cons hc]
  exact hv

lemma parsesMembers_next (hws : ∀ c ∈ ws, c ≤ 32) (hkey : Plain key) (hvalue : Solid value)
    (hv : Parses depth (value ++ 44 :: rest) v (44 :: rest))
    (hms : ParsesMembers depth (skipWhitespace rest) ms rest') :
    ParsesMembers depth (skipWhitespace (ws ++ 34 :: (key ++ 34 :: 58 :: 32 :: (value ++ 44 :: rest))))
      ((key, v) :: ms) rest' :=
  .cons (memberFront_text hws hkey) (parses_spaced hv hvalue) (skipWhitespace_cons (by decide)) hms

lemma parsesMembers_last (hws : ∀ c ∈ ws, c ≤ 32) (hkey : Plain key) (hvalue : Solid value)
    (hws' : ∀ c ∈ ws', c ≤ 32)
    (hv : Parses depth (value ++ (ws' ++ 125 :: rest)) v (ws' ++ 125 :: rest)) :
    ParsesMembers depth
      (skipWhitespace (ws ++ 34 :: (key ++ 34 :: 58 :: 32 :: (value ++ (ws' ++ 125 :: rest)))))
      [(key, v)] rest :=
  .last (memberFront_text hws hkey) (parses_spaced hv hvalue) (skipWhitespace_append hws' (by decide))

end Members

/-! ### Reading the file -/

/-- The object of a package. -/
def entryJson (p : GenPkg) : Json := .object [(ascii "version", .string p.version),
  (ascii "origin", .string p.origin), (ascii "store_path", .string (p.storePath.getD []))]

/-- The lines between a member and the next one. -/
def entryIndent : Bytes := ascii "\n      "

/-- The object of a package as it is written, after its brace. -/
def entryBody (p : GenPkg) (rest : Bytes) : Bytes :=
  entryIndent ++ 34 :: (ascii "version" ++ 34 :: 58 :: 32 :: ((34 :: (p.version ++ [34])) ++ 44 ::
    (entryIndent ++ 34 :: (ascii "origin" ++ 34 :: 58 :: 32 :: ((34 :: (p.origin ++ [34])) ++ 44 ::
      (entryIndent ++ 34 :: (ascii "store_path" ++ 34 :: 58 :: 32 ::
        ((34 :: (p.storePath.getD [] ++ [34])) ++ (ascii "\n    " ++ 125 :: rest)))))))))

/-- The file from an entry on. -/
def moreEntries : List GenPkg → Bytes
  | [] => ascii "\n  \x7d\n\x7d\n"
  | p :: ps => ascii ",\n" ++ lockEntry p ++ moreEntries ps

section Entries
variable {p : GenPkg} {ps : List GenPkg} {depth : Nat} {value rest : Bytes}

lemma lockEntry_append (p : GenPkg) (rest : Bytes) : lockEntry p ++ rest =
    ascii "    " ++ 34 :: (p.name ++ 34 :: 58 :: 32 :: ((123 :: entryBody p []) ++ rest)) := by
  simp [lockEntry, entryBody, entryIndent, ascii]

lemma entryBody_append (p : GenPkg) (rest : Bytes) : entryBody p [] ++ rest = entryBody p rest := by
  simp [entryBody, entryIndent, ascii]

lemma intercalate_lockEntry (p : GenPkg) (ps : List GenPkg) :
    (ascii ",\n").intercalate ((p :: ps).map lockEntry) ++ ascii "\n  \x7d\n\x7d\n" =
      lockEntry p ++ moreEntries ps := by
  induction ps generalizing p with
  | nil => simp [List.intercalate, moreEntries]
  | cons q ps ih =>
    rw [List.map_cons, List.map_cons, List.intercalate_cons_cons, ← List.map_cons, List.append_assoc,
      List.append_assoc, ih q, moreEntries, List.append_assoc]

lemma parses_value (hv : Clean value) :
    Parses depth ((34 :: (value ++ [34])) ++ rest) (.string value) rest := by
  rw [List.cons_append, List.append_assoc]
  exact Nix.parses_quoted hv.plain

lemma solid_value (value : Bytes) : Solid (34 :: (value ++ [34])) := ⟨34, _, rfl, by decide⟩

lemma clean_storePath (h : CleanPkg p) : Clean (p.storePath.getD []) := by
  cases hpath : p.storePath with
  | none => exact List.forall_mem_nil _
  | some path => exact h.storePath path hpath

lemma parses_entry (h : CleanPkg p) (hd : depth < nestingLimit) :
    Parses depth ((123 :: entryBody p []) ++ rest) (entryJson p) rest := by
  have hindent : ∀ c ∈ entryIndent, c ≤ 32 := blank_ascii (by decide)
  have hclose : ∀ c ∈ ascii "\n    ", c ≤ 32 := blank_ascii (by decide)
  have hkey : ∀ {s : String}, ((ascii s).all fun c => decide (c ≠ 0 ∧ c ≠ 34 ∧ c ≠ 92)) = true →
      Plain (ascii s) := Nix.plain_ascii
  rw [List.cons_append, entryBody_append]
  refine .object hd ?_ ?_
  · rw [entryBody, skipWhitespace_append hindent (by decide)]
    simp
  · refine parsesMembers_next hindent (hkey (by decide)) (solid_value _) (parses_value h.version) ?_
    refine parsesMembers_next hindent (hkey (by decide)) (solid_value _) (parses_value h.origin) ?_
    exact parsesMembers_last hindent (hkey (by decide)) (solid_value _) hclose
      (parses_value (clean_storePath h))

/-- What is left of a file after its entries. -/
def lockEnd : Bytes := ascii "\n\x7d\n" ++ [0]

/-- **The entries are the members of the object.** -/
lemma parsesMembers_entries (h : ∀ q ∈ p :: ps, CleanPkg q) (hd : depth < nestingLimit) :
    ParsesMembers depth (skipWhitespace (10 :: (lockEntry p ++ (moreEntries ps ++ [0]))))
      ((p :: ps).map fun q => (q.name, entryJson q)) lockEnd := by
  have hws : ∀ c ∈ ascii "\n    ", c ≤ 32 := blank_ascii (by decide)
  have hsolid : ∀ q, Solid (123 :: entryBody q []) := fun q => ⟨123, _, rfl, by decide⟩
  have htext : ∀ (q : GenPkg) (rest : Bytes), 10 :: (lockEntry q ++ rest) = ascii "\n    " ++
      34 :: (q.name ++ 34 :: 58 :: 32 :: ((123 :: entryBody q []) ++ rest)) := by
    intro q rest
    rw [lockEntry_append]
    rfl
  induction ps generalizing p with
  | nil =>
    obtain ⟨hp, -⟩ := List.forall_mem_cons.1 h
    rw [htext]
    exact @parsesMembers_last depth (ascii "\n    ") (ascii "\n  ") p.name _ lockEnd _ hws hp.name.plain
      (hsolid p) (blank_ascii (by decide)) (parses_entry hp hd)
  | cons q ps ih =>
    obtain ⟨hp, hps⟩ := List.forall_mem_cons.1 h
    have hmore : moreEntries (q :: ps) ++ [0] = 44 :: (10 :: (lockEntry q ++ (moreEntries ps ++ [0]))) := by
      simp [moreEntries, ascii]
    rw [htext, hmore]
    exact parsesMembers_next hws hp.name.plain (hsolid p) (parses_entry hp hd) (ih hps)

lemma lockText_nul (p : GenPkg) (ps : List GenPkg) : lockText (p :: ps) ++ [0] =
    123 :: (ascii "\n  " ++ 34 :: (ascii "version" ++ 34 :: 58 :: 32 :: (signedDecimal 1 ++ 44 ::
      (ascii "\n  " ++ 34 :: (ascii "generator" ++ 34 :: 58 :: 32 :: ((34 :: (ascii "2O9" ++ [34])) ++ 44 ::
        (ascii "\n  " ++ 34 :: (ascii "packages" ++ 34 :: 58 :: 32 ::
          (123 :: (10 :: (lockEntry p ++ (moreEntries ps ++ [0])))))))))))) := by
  have hone : signedDecimal 1 = [49] := by decide
  have hentries := intercalate_lockEntry p ps
  have htext : lockText (p :: ps) =
      ascii "\x7b\n  \"version\": 1,\n  \"generator\": \"2O9\",\n  \"packages\": \x7b\n" ++
        ((ascii ",\n").intercalate ((p :: ps).map lockEntry) ++ ascii "\n  \x7d\n\x7d\n") := by
    rw [lockText, List.append_assoc]
  rw [htext, hentries, hone]
  simp [ascii]

lemma zero_notMem_lockEntry (h : CleanPkg p) : (0 : UInt8) ∉ lockEntry p := by
  have hzero : ∀ {v : Bytes}, Clean v → (0 : UInt8) ∉ v := fun hv hm => (hv.plain 0 hm).1 rfl
  simp [lockEntry, ascii, hzero h.name, hzero h.version, hzero h.origin, hzero (clean_storePath h)]

lemma zero_notMem_lockText (h : ∀ q ∈ p :: ps, CleanPkg q) : (0 : UInt8) ∉ lockText (p :: ps) := by
  have hmore : ∀ {ps}, (∀ q ∈ ps, CleanPkg q) → (0 : UInt8) ∉ moreEntries ps := by
    intro ps hps
    induction ps with
    | nil => simp [moreEntries, ascii]
    | cons q ps ih =>
      obtain ⟨hq, hps⟩ := List.forall_mem_cons.1 hps
      simp [moreEntries, ascii, zero_notMem_lockEntry hq, ih hps]
  obtain ⟨hp, hps⟩ := List.forall_mem_cons.1 h
  rw [lockText, List.append_assoc, intercalate_lockEntry]
  simp [ascii, zero_notMem_lockEntry hp, hmore hps]

/-- The file as a value. -/
lemma parse_lockText (h : ∀ q ∈ p :: ps, CleanPkg q) : ∃ a b, parse (lockText (p :: ps)) =
    some (.object [(ascii "version", a), (ascii "generator", b),
      (ascii "packages", .object ((p :: ps).map fun q => (q.name, entryJson q)))]) := by
  have hws : ∀ c ∈ ascii "\n  ", c ≤ 32 := blank_ascii (by decide)
  have hobject : Parses 1 (123 :: (10 :: (lockEntry p ++ (moreEntries ps ++ [0]))))
      (.object ((p :: ps).map fun q => (q.name, entryJson q))) lockEnd := by
    refine .object (by decide) ?_ (parsesMembers_entries h (by decide))
    have htext : (10 :: (lockEntry p ++ (moreEntries ps ++ [0])) : Bytes) = ascii "\n    " ++
        34 :: (p.name ++ 34 :: 58 :: 32 :: ((123 :: entryBody p []) ++ (moreEntries ps ++ [0]))) := by
      rw [lockEntry_append]
      rfl
    rw [htext, skipWhitespace_append (blank_ascii (by decide)) (by decide)]
    simp
  have hlast : ParsesMembers 1 (skipWhitespace (ascii "\n  " ++ 34 :: (ascii "packages" ++
      34 :: 58 :: 32 :: (123 :: (10 :: (lockEntry p ++ (moreEntries ps ++ [0])))))))
      [(ascii "packages", .object ((p :: ps).map fun q => (q.name, entryJson q)))] [10, 0] := by
    have hvalue : Parses 1 (skipWhitespace (32 :: 123 :: (10 :: (lockEntry p ++ (moreEntries ps ++ [0])))))
        (.object ((p :: ps).map fun q => (q.name, entryJson q))) lockEnd := by
      rw [skipWhitespace_blank (by decide) (by simp), skipWhitespace_cons (by decide)]
      exact hobject
    exact .last (memberFront_text hws (Nix.plain_ascii (by decide))) hvalue (by decide)
  have hone : ∀ rest, Parses 1 (signedDecimal 1 ++ 44 :: rest) (.number (signedDecimal 1)) (44 :: rest) :=
    fun rest => parses_signedDecimal 1 (by decide)
  have hkey : Plain (ascii "generator") := Nix.plain_ascii (by decide)
  have hgenerator := parsesMembers_next hws hkey (solid_value (ascii "2O9"))
    (parses_value (clean_ascii (by decide))) hlast
  have hversion : Plain (ascii "version") := Nix.plain_ascii (by decide)
  have hmembers := parsesMembers_next hws hversion ⟨49, [], by decide, by decide⟩ (hone _) hgenerator
  have hroot := Parses.object (by decide) (by rw [skipWhitespace_append hws (by decide)]; simp) hmembers
  rw [← lockText_nul] at hroot
  exact ⟨_, _, hroot.parse (zero_notMem_lockText h) rfl⟩

/-- **What is exported is what is imported**: the packages, with a path that may be empty. -/
lemma lockfilePackages_lockText (h : ∀ q ∈ ps, CleanPkg q) (hne : ps ≠ []) :
    lockfilePackages (lockText ps) = some (ps.map withPath) := by
  obtain ⟨p, ps, rfl⟩ := List.exists_cons_of_ne_nil hne
  obtain ⟨a, b, hparse⟩ := parse_lockText h
  have hpackages : ∀ q, lockPackage (q.name, entryJson q) = withPath q := fun q => rfl
  have hmembers : (parse (lockText (p :: ps))).bind (fun root =>
      (root.getObjectItem (ascii "packages")).bind members?) =
        some ((p :: ps).map fun q => (q.name, entryJson q)) := by
    rw [hparse]
    rfl
  rw [lockfilePackages, hmembers, Option.map_some, List.map_map]
  exact congrArg some (List.map_congr_left fun q _ => hpackages q)

end Entries

/-! ### The round trip -/

/-- A package with an empty store path as one without a path. -/
def pathOrNone (p : GenPkg) : GenPkg := { p with storePath := p.storePath.filter (· ≠ []) }

/-- That an import of the exported generation commits these packages, in some order, wherever it succeeds,
and that it succeeds where no call fails. -/
def Commits (layout : Layout) (packages committed : List GenPkg) : Prop :=
  ∃ lock imported, lockfileExport (layout.text packages) = some lock ∧
    lockfilePackages lock = some imported ∧
    (∀ flt time w, (cmdLockfileImport flt time imported).Ensures w fun ok w' => ok = true →
      (readPackages w'.gens (genDbCurrent w'.gens)).Perm committed) ∧
    ∀ time (w : World), w.gens.locked = false → ((cmdLockfileImport .none time imported).run w).1 = true

section RoundTrip
variable {layout : Layout} {ps : List GenPkg}

lemma pathOrNone_withPath (p : GenPkg) : pathOrNone (withPath p) = pathOrNone p := by
  obtain ⟨_, _, path, _⟩ := p
  cases path <;> rfl

/-- What is in the index of a generation. -/
lemma genIndexLoad_text (h : ∀ p ∈ ps, CleanPkg p) (hne : ps ≠ []) (hparse : layout.Parsable) :
    ∃ indexed, genIndexLoad (layout.text ps) = some indexed ∧ (∀ p ∈ indexed, CleanPkg p) ∧
      indexed ≠ [] ∧ indexed.map pathOrNone = ps.map pathOrNone := by
  have hsome : ∀ {text : Bytes} {qs : List GenPkg}, (genIndexLoad text).getD [] = qs → qs ≠ [] →
      genIndexLoad text = some qs := by
    intro text qs hload hqs
    cases hl : genIndexLoad text with
    | none =>
      rw [hl] at hload
      exact absurd hload.symm hqs
    | some l =>
      rw [hl] at hload
      exact congrArg some hload
  cases layout with
  | written id timestamp =>
    obtain ⟨a, b, hwritten⟩ := parse_written h id timestamp
    have hload : _ ∧ (genIndexLoad (writtenManifest id timestamp ps)).getD [] = ps :=
      parsed_of_items (by rw [hwritten]; rfl) fun p hp =>
        parsedPackage_record (manifestFields_of (h p hp)) (keys_manifestFields p)
    exact ⟨ps, hsome hload.2 hne, h, hne, rfl⟩
  | applied config =>
    refine ⟨ps.map withPath, hsome (parsed_applied h hparse).2 (by simpa using hne), ?_,
      by simpa using hne, ?_⟩
    · intro q hq
      obtain ⟨p, hp, rfl⟩ := List.mem_map.1 hq
      exact (h p hp).withPath
    · rw [List.map_map]
      exact List.map_congr_left fun p _ => pathOrNone_withPath p

/-- What a successful import commits. -/
lemma cmdLockfileImport_ensures (flt : Faults) (time : Nat) (imported : List GenPkg) (w : World) :
    (cmdLockfileImport flt time imported).Ensures w fun ok w' => ok = true →
      readPackages w'.gens (genDbCurrent w'.gens) = imported.map pathOrNone :=
  (lockAndCommit_ensures flt time (imported.map pathOrNone) w).mono fun _ _ h hok => h.2 hok

/-- The round trip, up to empty store paths. -/
lemma commits_pathOrNone (h : ∀ p ∈ ps, CleanPkg p) (hne : ps ≠ []) (hparse : layout.Parsable) :
    Commits layout ps (ps.map pathOrNone) := by
  obtain ⟨indexed, hindexed, hclean, hsome, hsame⟩ := genIndexLoad_text h hne hparse
  obtain ⟨idx, hidx, hperm⟩ := loadIndex_eq hindexed
  have hentries : ∀ q ∈ idx.entries, CleanPkg q := fun q hq => hclean q (hperm.mem_iff.1 hq)
  have hentriesNe : idx.entries ≠ [] := by
    intro hnil
    rw [hnil] at hperm
    exact hsome hperm.nil_eq.symm
  refine ⟨lockText idx.entries, idx.entries.map withPath, by rw [lockfileExport, hidx]; rfl,
    lockfilePackages_lockText hentries hentriesNe, fun flt time w => ?_, fun time w hlock => ?_⟩
  · refine (cmdLockfileImport_ensures flt time _ w).mono fun ok w' himport hok => ?_
    have hpaths : (idx.entries.map withPath).map pathOrNone = idx.entries.map pathOrNone := by
      rw [List.map_map]
      exact List.map_congr_left fun q _ => pathOrNone_withPath q
    rw [himport hok, hpaths, ← hsame]
    exact hperm.map pathOrNone
  · exact lockAndCommit_faultless time _ hlock

/-- What is committed is determined, up to its order. -/
lemma Commits.perm {committed committed' : List GenPkg} (h : Commits layout ps committed)
    (h' : Commits layout ps committed') : committed.Perm committed' := by
  obtain ⟨lock, imported, hlock, himported, hall, hok⟩ := h
  obtain ⟨lock', imported', hlock', himported', hall', -⟩ := h'
  obtain rfl := Option.some.inj (hlock.symm.trans hlock')
  obtain rfl := Option.some.inj (himported.symm.trans himported')
  have hrun := hok 0 World.fresh rfl
  exact (hall .none 0 World.fresh hrun).symm.trans (hall' .none 0 World.fresh hrun)

end RoundTrip

/-- **A generation that is exported to a lock file and imported is committed again**, entry by entry; a store
path that is empty is then missing. -/
theorem lockfile_roundTrip (layout : Layout) (packages : List GenPkg)
    (hclean : ∀ p ∈ packages, CleanPkg p) (hne : packages ≠ []) (hparse : layout.Parsable) :
    Commits layout packages (packages.map pathOrNone) ∧
      ((∀ p ∈ packages, p.storePath ≠ some []) → Commits layout packages packages) := by
  refine ⟨commits_pathOrNone hclean hne hparse, fun hpaths => ?_⟩
  have hsame : packages.map pathOrNone = packages := by
    refine (List.map_congr_left fun p hp => ?_).trans (List.map_id _)
    have hpath := hpaths p hp
    obtain ⟨_, _, path, _⟩ := p
    cases path with
    | none => rfl
    | some path =>
      have hpath' : path ≠ [] := fun h => hpath (congrArg some h)
      simp [pathOrNone, hpath']
  have hcommits := commits_pathOrNone hclean hne hparse
  rwa [hsame] at hcommits

/-- A package of a configuration without a path, which `cmd_apply` writes as an empty one. -/
theorem lockfile_roundTrip_applied : Commits (.applied (.attrSet []))
    [⟨ascii "hello", ascii "1", none, ascii "repo"⟩, ⟨ascii "Hello", ascii "2", none, ascii "aur"⟩]
    [⟨ascii "hello", ascii "1", none, ascii "repo"⟩, ⟨ascii "Hello", ascii "2", none, ascii "aur"⟩] := by
  have hnest : (Nix.Tree.attrSet []).nesting < nestingLimit := by decide
  refine (lockfile_roundTrip (.applied (.attrSet [])) _ ?_ (by simp) hnest).1
  refine List.forall_mem_cons.2 ⟨?_, List.forall_mem_singleton.2 ?_⟩
  · exact ⟨clean_ascii (by decide), clean_ascii (by decide), fun path hpath => absurd hpath (by simp),
      clean_ascii (by decide)⟩
  · exact ⟨clean_ascii (by decide), clean_ascii (by decide), fun path hpath => absurd hpath (by simp),
      clean_ascii (by decide)⟩

/-- **An empty store path does not come back.** -/
theorem lockfile_not_exact : ¬ ∀ (layout : Layout) (packages : List GenPkg),
    (∀ p ∈ packages, CleanPkg p) → (packages.map GenPkg.name).Nodup → packages ≠ [] →
      Commits layout packages packages := by
  intro h
  have hclean : ∀ p ∈ [(⟨ascii "a", ascii "1", some [], ascii "repo"⟩ : GenPkg)], CleanPkg p := by
    refine List.forall_mem_singleton.2 ⟨clean_ascii (by decide), clean_ascii (by decide), ?_,
      clean_ascii (by decide)⟩
    intro path hpath
    obtain rfl := Option.some.inj hpath
    exact List.forall_mem_nil _
  have hcommits := h (.written 1 0) _ hclean (by decide) (by simp)
  have hpaths := @commits_pathOrNone (.written 1 0) _ hclean (by simp) trivial
  exact absurd (hcommits.perm hpaths) (by decide)

end Two09.Transfer
