import Two09.Transfer.Commands

/-!
# Bundles

What an archive of a generation has of it, and what an import makes of the archive on another machine.
-/

namespace Two09.Transfer

open Two09.Lib Two09.Lib.Posix Two09.Gen Two09.Store Two09.Install

/-! ### What is asked of them -/

section
variable (w : World) (id : Nat)

/-- The tree of each store path of the generation is among the entries. -/
def Holds (lookup : StoreName → Option Entry) : Prop :=
  ∀ path ∈ recorded w.gens id, ∃ n e, path = storePath n ∧ w.store.lookup n = some e ∧ lookup n = some e

/-- The archive has the manifest and every store path of the generation. -/
def Archive.Complete (a : Archive) : Prop :=
  (∃ m, File.read? a.manifest = some m ∧ m.packages = readPackages w.gens id) ∧
    Holds w id fun n => (a.paths.find? (·.1 = n)).map Prod.snd

/-- The archive gives the same generation on an empty machine. -/
def Archive.Restores (a : Archive) : Prop :=
  ∀ time, (cmdImport .none time a).Ensures World.fresh fun ok w' => ok = true ∧
    readPackages w'.gens (genDbCurrent w'.gens) = readPackages w.gens id ∧ Holds w id w'.store.lookup

/-- Bundling and importing are inverse. -/
structure RoundTrips : Prop where
  complete : ∀ tarFails a, cmdBundle tarFails w id = some a → a.Complete w id
  restores : ∃ a, cmdBundle false w id = some a ∧ a.Restores w id

/-- A generation with both of its files, whose packages are without store paths. -/
structure Pathless : Prop where
  pos : 0 < id
  manifest : ∃ d m, w.gens.dirs.lookup id = some d ∧ d.manifest = some (.whole m) ∧ d.diff.isSome = true
  recorded : recorded w.gens id = []

end

section
variable {w : World} {id : Nat} {a : Archive} {pkgs : List GenPkg}

/-- Nothing is added to a compressed archive. -/
lemma appendPackage_compressed (store : StoreDir) (h : a.compressed = true) (p : GenPkg) :
    appendPackage store a p = a := by
  unfold appendPackage tarAppend
  cases p.storePath with
  | none => rfl
  | some path =>
    simp only []
    cases storeName? path with
    | none => rfl
    | some n =>
      simp only []
      cases store.lookup n with
      | none => rfl
      | some e => rw [h]; rfl

lemma foldl_appendPackage (store : StoreDir) (h : a.compressed = true) :
    pkgs.foldl (appendPackage store) a = a := by
  induction pkgs with
  | nil => rfl
  | cons p pkgs ih => rw [List.foldl_cons, appendPackage_compressed store h, ih]

/-- **What a bundle holds**: the two files. -/
lemma cmdBundle_eq_some {tarFails : Bool} : cmdBundle tarFails w id = some a ↔ 0 < id ∧ tarFails = false ∧
    ∃ d, w.gens.dirs.lookup id = some d ∧ d.manifest.isSome = true ∧ d.diff.isSome = true ∧
      a = ⟨true, d.manifest, d.diff, []⟩ := by
  unfold cmdBundle
  by_cases hid : id = 0
  · simp [hid]
  · rw [if_neg hid]
    cases w.gens.dirs.lookup id with
    | none => simp
    | some d =>
      simp only []
      rw [foldl_appendPackage _ rfl]
      constructor
      · intro h
        split_ifs at h with hok
        simp only [tarCreate, Bool.and_eq_true, Bool.not_eq_true'] at hok
        exact ⟨Nat.pos_of_ne_zero hid, hok.2, d, rfl, hok.1.1, hok.1.2, (Option.some.inj h).symm⟩
      · rintro ⟨-, rfl, d', hd, hmanifest, hdiff, rfl⟩
        obtain rfl := Option.some.inj hd
        rw [if_pos (by simp [tarCreate, hmanifest, hdiff])]
        rfl

/-- What comes back from a bundle has no store paths in it. -/
lemma pathless_of_roundTrips (h : RoundTrips w id) : Pathless w id := by
  obtain ⟨-, a, hbundle, hrestores⟩ := h
  obtain ⟨hid, -, d, hd, hmanifest, hdiff, rfl⟩ := cmdBundle_eq_some.1 hbundle
  obtain ⟨hok, -, hholds⟩ := hrestores 0
  obtain ⟨m, hread, hstore, -⟩ := cmdImport_ensures .none 0 _ World.fresh hok
  refine ⟨hid, ⟨d, m, hd, ?_, hdiff⟩, List.eq_nil_iff_forall_not_mem.2 fun path hpath => ?_⟩
  · change File.read? d.manifest = some m at hread
    unfold File.read? at hread
    split at hread
    · rw [‹d.manifest = _›, Option.some.inj hread]
    · cases hread
  · obtain ⟨n, e, -, -, hlookup⟩ := hholds path hpath
    rw [hstore] at hlookup
    cases hlookup

end

/-- Generation 1 holds `hello`, and its store path exists. -/
def helloWorld : World :=
  ⟨⟨AList.singleton 1 ⟨some (.whole ⟨1, 0, [⟨ascii "hello", ascii "1", some (ascii "/nix/store/h-hello-1"),
    ascii "repo"⟩]⟩), some (.whole (mkDiff 0 [] [])), false⟩, some 1, false⟩, .empty,
    AList.singleton ⟨ascii "h-hello-1", by decide⟩ ⟨.directory [], true⟩⟩

end Two09.Transfer
