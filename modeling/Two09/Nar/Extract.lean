import Two09.Nar.Dump

/-!
# `nar_extract`

The recursive-descent reader of `nar.c` over a file system, and the same reader split in two: the
pure scan of the stream into the calls it asks for, and their replay on the file system.
-/

namespace Two09.Nar

open Two09.Lib Two09.Lib.Posix

/-- The buffer of the copy loop. -/
def copyChunk : Nat := 65536

/-! ### The nodes -/

section
variable (env : Env) (dest : Path) (fs : Fs)

/-- `unlink(dest)` on the way to an error. -/
def discard : Fs := orKeep fs (unlink env fs dest)

/-- The regular-file arm of `parse_node` once the length is read. `avail` is the rest of the
stream; the result says whether the node was read. -/
def extractRegular (executable : Bool) (flen : Nat) (avail : Bytes) : Bool × Fs :=
  match openTrunc env fs dest with
  | .error _ => (false, fs)
  | .ok (l, fs) =>
    if flen ≠ 0 ∧ env.refuse fs (.write dest) then (false, discard env dest fs)
    else if avail.length < flen then
      -- the chunks that are complete are written before the short one is noticed
      let whole := avail.take (avail.length / copyChunk * copyChunk)
      (false, discard env dest (append fs l whole))
    else
      let fs := append fs l (avail.take flen)
      if env.refuse fs (.close dest) then (false, discard env dest fs)
      else if executable then
        match chmodExec env fs dest with
        | .error _ => (false, discard env dest fs)
        | .ok fs => (true, fs)
      else (true, fs)

/-- The symlink arm of `parse_node` once the target is read. -/
def extractSymlink (target : Bytes) : Bool × Fs :=
  let fs := discard env dest fs
  match symlink env fs target dest with
  | .error _ => (false, fs)
  | .ok fs => (true, fs)

/-- The `mkdir` of the directory arm of `parse_node`. -/
def extractDirectory : Bool × Fs :=
  match mkdir env fs dest with
  | .ok fs => (true, fs)
  | .error .EEXIST => (true, fs)
  | .error _ => (false, fs)

end

mutual
/-- `parse_node`: the rest of the stream when the node was extracted, and the file system. -/
def parseNode (env : Env) : Nat → Path → Bytes → Fs → Option Bytes × Fs
  | 0, _, _, fs => (none, fs)
  | k + 1, dest, input, fs =>
    match readHead input with
    | none => (none, fs)
    | some (.regular x flen, rest) =>
      match extractRegular env dest fs x flen rest with
      | (false, fs) => (none, fs)
      | (true, fs) => (some (rest.drop flen), fs)
    | some (.symlink target, rest) =>
      match extractSymlink env dest fs target with
      | (false, fs) => (none, fs)
      | (true, fs) => (some rest, fs)
    | some (.directory, rest) =>
      match extractDirectory env dest fs with
      | (false, fs) => (none, fs)
      | (true, fs) => parseEntries env k dest rest fs

/-- The entry loop of `parse_node`. -/
def parseEntries (env : Env) : Nat → Path → Bytes → Fs → Option Bytes × Fs
  | 0, _, _, fs => (none, fs)
  | k + 1, dest, input, fs =>
    match readEntry input with
    | none => (none, fs)
    | some (none, rest) => (some rest, fs)
    | some (some name, rest) =>
      if pathMax ≤ (join dest name).length then (none, fs)
      else
        match parseNode env k (join dest name) rest fs with
        | (none, fs) => (none, fs)
        | (some rest, fs) => parseEntries env k dest rest fs
end

section Fuel
variable {env : Env}

mutual
theorem parseNode_length (k : Nat) (dest : Path) (input : Bytes) (fs : Fs) {rest : Bytes}
    {fs' : Fs} (h : parseNode env k dest input fs = (some rest, fs')) : rest.length < input.length := by
  cases k with
  | zero => cases h
  | succ k =>
    rw [parseNode] at h
    match hread : readHead input with
    | none =>
      rw [hread] at h
      cases h
    | some (.regular x flen, rest₁) =>
      have hlt := readHead_length hread
      simp only [hread] at h
      split at h <;> cases h
      simp only [List.length_drop]
      omega
    | some (.symlink target, rest₁) =>
      have hlt := readHead_length hread
      simp only [hread] at h
      split at h <;> cases h
      exact hlt
    | some (.directory, rest₁) =>
      have hlt := readHead_length hread
      simp only [hread] at h
      split at h
      · cases h
      · exact (parseEntries_length k dest rest₁ _ h).trans hlt

theorem parseEntries_length (k : Nat) (dest : Path) (input : Bytes) (fs : Fs) {rest : Bytes}
    {fs' : Fs} (h : parseEntries env k dest input fs = (some rest, fs')) : rest.length < input.length := by
  cases k with
  | zero => cases h
  | succ k =>
    rw [parseEntries] at h
    match hread : readEntry input with
    | none =>
      rw [hread] at h
      cases h
    | some (none, rest₁) =>
      simp only [hread] at h
      cases h
      exact (readEntry_some hread).1
    | some (some name, rest₁) =>
      have hlt := (readEntry_some hread).1
      simp only [hread] at h
      split_ifs at h with hlen
      · cases h
      · match hnode : parseNode env k (join dest name) rest₁ fs with
        | (none, fs₁) =>
          rw [hnode] at h
          cases h
        | (some rest₂, fs₁) =>
          rw [hnode] at h
          have h₁ := parseNode_length k (join dest name) rest₁ fs hnode
          have h₂ := parseEntries_length k dest rest₂ fs₁ h
          omega
end

mutual
/-- **The stream bounds the recursion**: with more fuel than bytes left, more changes nothing. -/
theorem parseNode_fuel (k : Nat) (dest : Path) (input : Bytes) (fs : Fs)
    (hk : input.length < k) :
    parseNode env (k + 1) dest input fs = parseNode env k dest input fs := by
  cases k with
  | zero => omega
  | succ k =>
    rw [parseNode, parseNode]
    match hread : readHead input with
    | none => rfl
    | some (.regular x flen, rest₁) => rfl
    | some (.symlink target, rest₁) => rfl
    | some (.directory, rest₁) =>
      have hlt := readHead_length hread
      simp only
      split
      · rfl
      · exact parseEntries_fuel k dest rest₁ _ (by omega)

theorem parseEntries_fuel (k : Nat) (dest : Path) (input : Bytes) (fs : Fs)
    (hk : input.length < k) :
    parseEntries env (k + 1) dest input fs = parseEntries env k dest input fs := by
  cases k with
  | zero => omega
  | succ k =>
    rw [parseEntries, parseEntries]
    match hread : readEntry input with
    | none => rfl
    | some (none, rest₁) => rfl
    | some (some name, rest₁) =>
      have hlt := (readEntry_some hread).1
      simp only [parseNode_fuel k (join dest name) rest₁ fs (by omega)]
      split_ifs with hlen
      · rfl
      · match hnode : parseNode env k (join dest name) rest₁ fs with
        | (none, fs₁) => rfl
        | (some rest₂, fs₁) =>
          have h₁ := parseNode_length k (join dest name) rest₁ fs hnode
          exact parseEntries_fuel k dest rest₂ fs₁ (by omega)
end

end Fuel

/-- `nar_extract`. Every node and every entry takes a byte of the stream, so its length bounds the
depth of the recursion. -/
def narExtract (env : Env) (dest : Path) (input : Bytes) (fs : Fs) : Option Bytes × Fs :=
  match readLine input with
  | none => (none, fs)
  | some (magic, rest) =>
    if magic = tokMagic then parseNode env (rest.length + 1) dest rest fs else (none, fs)

/-! ### Scan and replay -/

/-- What a node asks of the file system. `names` are the entry names from the root of the archive
down, as the stream has them. -/
inductive Event
  | regular (names : List Name) (executable : Bool) (flen : Nat) (avail : Bytes)
  | symlink (names : List Name) (target : Bytes)
  | directory (names : List Name)
  deriving DecidableEq, Repr

/-- The path of the node with the given names. -/
def pathOf (dest : Path) (ns : List Name) : Path := ns.foldl join dest

@[simp] lemma pathOf_nil (dest : Path) : pathOf dest [] = dest := rfl

@[simp] lemma pathOf_concat (dest : Path) (ns : List Name) (n : Name) :
    pathOf dest (ns ++ [n]) = join (pathOf dest ns) n := by
  simp [pathOf]

/-- Carries out one event; the flag says whether the extraction goes on. -/
def Event.apply (env : Env) (dest : Path) (fs : Fs) : Event → Bool × Fs
  | .regular ns x flen avail => extractRegular env (pathOf dest ns) fs x flen avail
  | .symlink ns t => extractSymlink env (pathOf dest ns) fs t
  | .directory ns => extractDirectory env (pathOf dest ns) fs

/-- Carries out events until one fails. -/
def replay (env : Env) (dest : Path) : List Event → Fs → Bool × Fs
  | [], fs => (true, fs)
  | e :: es, fs =>
    match e.apply env dest fs with
    | (false, fs) => (false, fs)
    | (true, fs) => replay env dest es fs

lemma replay_append (env : Env) (dest : Path) (es es' : List Event) (fs : Fs) :
    replay env dest (es ++ es') fs =
      match replay env dest es fs with
      | (false, fs) => (false, fs)
      | (true, fs) => replay env dest es' fs := by
  induction es generalizing fs with
  | nil => rfl
  | cons e es ih =>
    rw [List.cons_append, replay, replay]
    match e.apply env dest fs with
    | (false, fs) => rfl
    | (true, fs) => exact ih fs

mutual
/-- The events of the node at `ns`, and the rest of the stream when it is complete. -/
def scanNode (dest : Path) : Nat → List Name → Bytes → List Event × Option Bytes
  | 0, _, _ => ([], none)
  | k + 1, ns, input =>
    match readHead input with
    | none => ([], none)
    | some (.regular x flen, rest) =>
      ([.regular ns x flen rest], if rest.length < flen then none else some (rest.drop flen))
    | some (.symlink target, rest) => ([.symlink ns target], some rest)
    | some (.directory, rest) =>
      let (es, r) := scanEntries dest k ns rest
      (.directory ns :: es, r)

/-- The events of the entries of the directory at `ns`. -/
def scanEntries (dest : Path) : Nat → List Name → Bytes → List Event × Option Bytes
  | 0, _, _ => ([], none)
  | k + 1, ns, input =>
    match readEntry input with
    | none => ([], none)
    | some (none, rest) => ([], some rest)
    | some (some name, rest) =>
      if pathMax ≤ (pathOf dest (ns ++ [name])).length then ([], none)
      else
        match scanNode dest k (ns ++ [name]) rest with
        | (es, none) => (es, none)
        | (es, some rest) =>
          let (es', r) := scanEntries dest k ns rest
          (es ++ es', r)
end

/-- The events of a stream. -/
def scan (dest : Path) (input : Bytes) : List Event × Option Bytes :=
  match readLine input with
  | none => ([], none)
  | some (magic, rest) =>
    if magic = tokMagic then scanNode dest (rest.length + 1) [] rest else ([], none)

/-- The outcome of an extraction from that of its scan and its replay. -/
def outcome (r : Option Bytes) (p : Bool × Fs) : Option Bytes × Fs :=
  (if p.1 then r else none, p.2)

lemma extractRegular_short (env : Env) (dest : Path) (fs : Fs) (x : Bool) {flen : Nat}
    {avail : Bytes} (h : avail.length < flen) :
    (extractRegular env dest fs x flen avail).1 = false := by
  unfold extractRegular
  cases openTrunc env fs dest with
  | error e => rfl
  | ok v =>
    simp only [h, if_true]
    split_ifs <;> rfl

mutual
/-- **`parse_node` replays what it scans**, and fails when either does. -/
theorem parseNode_eq_replay (env : Env) (dest : Path) (k : Nat) (ns : List Name) (input : Bytes)
    (fs : Fs) :
    parseNode env k (pathOf dest ns) input fs =
      outcome (scanNode dest k ns input).2 (replay env dest (scanNode dest k ns input).1 fs) := by
  cases k with
  | zero => simp [parseNode, scanNode, replay, outcome]
  | succ k =>
    rw [parseNode, scanNode]
    match readHead input with
    | none => rfl
    | some (.regular x flen, rest) =>
      by_cases hshort : rest.length < flen
      · have hfalse := extractRegular_short env (pathOf dest ns) fs x hshort
        obtain ⟨b, fs', he⟩ : ∃ b fs', extractRegular env (pathOf dest ns) fs x flen rest =
          (b, fs') := ⟨_, _, rfl⟩
        rw [he] at hfalse
        simp only at hfalse
        subst hfalse
        simp [he, replay, Event.apply, outcome]
      · simp only [hshort, if_false, replay, Event.apply]
        match extractRegular env (pathOf dest ns) fs x flen rest with
        | (false, fs) => rfl
        | (true, fs) => rfl
    | some (.symlink target, rest) =>
      simp only [replay, Event.apply]
      match extractSymlink env (pathOf dest ns) fs target with
      | (false, fs) => rfl
      | (true, fs) => rfl
    | some (.directory, rest) =>
      simp only [replay, Event.apply]
      match extractDirectory env (pathOf dest ns) fs with
      | (false, fs) => rfl
      | (true, fs) => exact parseEntries_eq_replay env dest k ns rest fs

theorem parseEntries_eq_replay (env : Env) (dest : Path) (k : Nat) (ns : List Name)
    (input : Bytes) (fs : Fs) :
    parseEntries env k (pathOf dest ns) input fs =
      outcome (scanEntries dest k ns input).2
        (replay env dest (scanEntries dest k ns input).1 fs) := by
  cases k with
  | zero => simp [parseEntries, scanEntries, replay, outcome]
  | succ k =>
    rw [parseEntries, scanEntries]
    match readEntry input with
    | none => rfl
    | some (none, rest) => rfl
    | some (some name, rest) =>
      by_cases hlen : pathMax ≤ (join (pathOf dest ns) name).length
      · simp [hlen, replay, outcome]
      · have hnode := parseNode_eq_replay env dest k (ns ++ [name]) rest fs
        simp only [pathOf_concat] at hnode
        simp only [hlen, if_false, pathOf_concat, hnode]
        match hscan : scanNode dest k (ns ++ [name]) rest with
        | (es, none) => simp [outcome]
        | (es, some rest') =>
          simp only [replay_append]
          match hrep : replay env dest es fs with
          | (false, fs') => simp [outcome]
          | (true, fs') =>
            simp only [outcome, if_true]
            exact parseEntries_eq_replay env dest k ns rest' fs'
end

/-- **An extraction is the replay of its scan.** -/
theorem narExtract_eq_replay (env : Env) (dest : Path) (input : Bytes) (fs : Fs) :
    narExtract env dest input fs =
      outcome (scan dest input).2 (replay env dest (scan dest input).1 fs) := by
  unfold narExtract scan
  match readLine input with
  | none => rfl
  | some (magic, rest) =>
    by_cases hm : magic = tokMagic
    · simp only [hm, if_true]
      exact parseNode_eq_replay env dest (rest.length + 1) [] rest fs
    · simp [hm, replay, outcome]

end Two09.Nar
