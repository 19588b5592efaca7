import Two09.Lib.Json
import Two09.Store.Address
import Two09.Store.World

/-!
# The reconciler

`reconcile` compares the desired manifest with the current generation. A repository package of the
generation counts as installed only if `/nix/store` has an entry `<name>-…`, which is not how the
entries of content-addressed packages begin.
-/

namespace Two09.Apply

open Two09.Lib Two09.Gen Two09.Store

/-- `svc_entry_t`. -/
structure SvcEntry where
  name : Bytes
  enable : Bool
  deriving DecidableEq, Repr

/-- `reconcile_txn_t`; the counts are the lengths of the lists. -/
structure ReconcileTxn where
  repoInstall : List Bytes
  aurInstall : List Bytes
  pkgRemove : List Bytes
  svcEnable : List SvcEntry
  svcDisable : List SvcEntry
  allRepoPkgs : List Bytes
  allAurPkgs : List Bytes
  allServices : List SvcEntry
  deriving DecidableEq, Repr

/-! ### The desired manifest -/

section Desired
variable (desired : Json)

/-- The strings of an array; whatever else it holds is passed over. -/
def packageNames (packages : Option Json) : List Bytes :=
  ((packages.bind Json.items?).getD []).filterMap Json.string?

def desiredRepo : List Bytes := packageNames (desired.getObjectItem (ascii "packages"))

def desiredAur : List Bytes :=
  packageNames ((desired.getObjectItem (ascii "aur")).bind fun aur =>
    aur.members?.bind fun _ => aur.getObjectItem (ascii "packages"))

/-- Whether the value of a service asks for it to be enabled. -/
def shouldEnable : Json → Bool
  | .object members =>
    (((Json.object members).getObjectItem (ascii "enable")).bind Json.bool?).getD false
  | .bool b => b
  | _ => false

/-- `extract_services`: all of them, in order. -/
def extractServices : List SvcEntry :=
  (((desired.getObjectItem (ascii "services")).bind Json.members?).getD []).map
    fun svc => ⟨svc.1, shouldEnable svc.2⟩

end Desired

/-! ### The plan -/

/-- `read_current_packages`: the names in the manifest that the `current` link leads to. -/
def readCurrentPackages (gens : GenDb) : List Bytes :=
  match gens.link with
  | none => []
  | some id => (readPackages gens id).map GenPkg.name

/-- `/nix/store` has an entry `<name>-…`. -/
def foundOnDisk (store : StoreDir) (name : Bytes) : Bool :=
  store.keys.any fun n => (name ++ ascii "-").isPrefixOf n.val

/-- `reconcile` -/
def reconcile (desired : Json) (w : World) : ReconcileTxn :=
  let repo := desiredRepo desired
  let aur := desiredAur desired
  let services := extractServices desired
  let current := readCurrentPackages w.gens
  { repoInstall := repo.filter fun p => !decide (p ∈ current) || !foundOnDisk w.store p
    aurInstall := aur.filter fun p => decide (p ∉ current)
    pkgRemove := current.filter fun p => decide (p ∉ repo) && decide (p ∉ aur)
    svcEnable := services.filter SvcEntry.enable
    svcDisable := services.filter fun svc => !svc.enable
    allRepoPkgs := repo
    allAurPkgs := aur
    allServices := services }

/-- The plan installs, builds and removes nothing. -/
def Settled (txn : ReconcileTxn) : Prop :=
  txn.repoInstall = [] ∧ txn.aurInstall = [] ∧ txn.pkgRemove = []

/-! ### After the plan was carried out -/

section Converge
variable {sha256 : Bytes → Bytes} {desired : Json} {w w' : World} {placed : List Placed}

/-- The world after a plan that succeeded: what it asked to install stands at its content address,
nothing else has come to the store, and the new generation lists the desired packages. -/
structure Applied (sha256 : Bytes → Bytes) (desired : Json) (w w' : World) (placed : List Placed) :
    Prop where
  installs : ∀ n ∈ (reconcile desired w).repoInstall ++ (reconcile desired w).aurInstall,
    ∃ p ∈ placed, p.name = n
  store : ∀ m : StoreName, m ∈ w'.store ↔ m ∈ w.store ∨
    ∃ p ∈ placed, m.val = computeStorePath sha256 p.narHash p.name p.version
  entries : ∀ p ∈ placed, EntryName (computeStorePath sha256 p.narHash p.name p.version)
  lists : ∀ n, n ∈ readCurrentPackages w'.gens ↔ n ∈ desiredRepo desired ∨ n ∈ desiredAur desired

lemma foundOnDisk_iff {store : StoreDir} {name : Bytes} :
    foundOnDisk store name = true ↔ ∃ m ∈ store, name ++ ascii "-" <+: m.val := by
  simp [foundOnDisk, AList.mem_keys]

/-- Against a generation that lists the desired packages, only the look at the disk makes work. -/
lemma settled_iff (h : ∀ n, n ∈ readCurrentPackages w.gens ↔
      n ∈ desiredRepo desired ∨ n ∈ desiredAur desired) :
    Settled (reconcile desired w) ↔ ∀ n ∈ desiredRepo desired, foundOnDisk w.store n = true := by
  unfold Settled reconcile
  simp only [List.filter_eq_nil_iff]
  constructor
  · rintro ⟨hrepo, -, -⟩ n hn
    by_contra hdisk
    exact hrepo n hn (by simp [hdisk])
  · intro hdisk
    refine ⟨fun n hn => ?_, fun n hn => ?_, fun n hn => ?_⟩
    · simp [hdisk n hn, (h n).2 (.inl hn)]
    · simp [(h n).2 (.inr hn)]
    · rcases (h n).1 hn with hrepo | haur
      · simp [hrepo]
      · simp [haur]

/-- What is found on the disk afterwards: an entry that was there, or one that was placed. -/
lemma foundOnDisk_applied (happlied : Applied sha256 desired w w' placed) {n : Bytes} :
    foundOnDisk w'.store n = true ↔ (∃ m ∈ w.store, n ++ ascii "-" <+: m.val) ∨
      ∃ p ∈ placed, n ++ ascii "-" <+: computeStorePath sha256 p.narHash p.name p.version := by
  rw [foundOnDisk_iff]
  constructor
  · rintro ⟨m, hm, hpre⟩
    rcases (happlied.store m).1 hm with hold | ⟨p, hp, hval⟩
    · exact .inl ⟨m, hold, hpre⟩
    · exact .inr ⟨p, hp, hval ▸ hpre⟩
  · rintro (⟨m, hm, hpre⟩ | ⟨p, hp, hpre⟩)
    · exact ⟨m, (happlied.store m).2 (.inl hm), hpre⟩
    · exact ⟨⟨_, happlied.entries p hp⟩, (happlied.store _).2 (.inr ⟨p, hp, rfl⟩), hpre⟩

/-- **Reconciling again has nothing to do exactly when every desired repository package has an entry
that begins with its name**, among those that were there and those that were placed. -/
theorem reconcile_settled_iff (happlied : Applied sha256 desired w w' placed) :
    Settled (reconcile desired w') ↔ ∀ n ∈ desiredRepo desired,
      (∃ m ∈ w.store, n ++ ascii "-" <+: m.val) ∨
      ∃ p ∈ placed, n ++ ascii "-" <+: computeStorePath sha256 p.narHash p.name p.version := by
  rw [settled_iff happlied.lists]
  exact forall₂_congr fun n _ => foundOnDisk_applied happlied

/-- A content address begins with its hash, which has no dash in it. -/
lemma not_prefix_computeStorePath {n narHash name version : Bytes} (hlen : n.length < 32) :
    ¬ n ++ ascii "-" <+: computeStorePath sha256 narHash name version := by
  intro hpre
  have hhash : n ++ ascii "-" <+:
      hash32 (sha256 (fingerprint narHash (name ++ ascii "-" ++ version))) := by
    refine List.prefix_of_prefix_length_le hpre ?_ ?_
    · rw [computeStorePath, addressed, List.append_assoc]
      exact List.prefix_append _ _
    · rw [length_hash32, List.length_append]
      exact hlen
  have hdash : (45 : UInt8) ∈ base32 :=
    mem_base32_of_mem_hash32 (hhash.subset (List.mem_append_right _ (by decide)))
  exact absurd hdash (by decide)

/-- On a store without older entries the plan never becomes empty, unless the names are as long as a
hash. -/
theorem reconcile_not_settled (happlied : Applied sha256 desired w w' placed)
    (hnew : ∀ m ∈ w.store, ∃ p : Placed, m.val = computeStorePath sha256 p.narHash p.name p.version)
    {n : Bytes} (hn : n ∈ desiredRepo desired) (hlen : n.length < 32) :
    ¬ Settled (reconcile desired w') := by
  rw [settled_iff happlied.lists]
  intro h
  rcases (foundOnDisk_applied happlied).1 (h n hn) with ⟨m, hm, hpre⟩ | ⟨p, -, hpre⟩
  · obtain ⟨p, hval⟩ := hnew m hm
    exact not_prefix_computeStorePath hlen (hval ▸ hpre)
  · exact not_prefix_computeStorePath hlen hpre

end Converge

/-! ### One package -/

/-- The manifest that asks for the package `a`. -/
def wantsA : Json := .object [(ascii "packages", .array [.string (ascii "a")])]

/-- `a` at its content address, with a hash function that maps everything to nothing. -/
def placedA : Placed := ⟨[], ascii "a", ascii "1"⟩

def placedName : StoreName :=
  ⟨computeStorePath (fun _ => []) placedA.narHash placedA.name placedA.version, by decide +kernel⟩

/-- Generation 1 lists `a`. -/
def gensA : GenDb :=
  ⟨AList.singleton 1 ⟨some (.whole ⟨1, 0, [⟨ascii "a", ascii "1", none, ascii "repo"⟩]⟩), none, false⟩,
    some 1, false⟩

lemma applied_wantsA (store : StoreDir) :
    Applied (fun _ => []) wantsA ⟨⟨∅, none, false⟩, .empty, store⟩
      ⟨gensA, .empty, store.insert placedName ⟨.directory [], true⟩⟩ [placedA] where
  installs := by
    have hplan : (reconcile wantsA ⟨⟨∅, none, false⟩, .empty, store⟩).repoInstall ++
        (reconcile wantsA ⟨⟨∅, none, false⟩, .empty, store⟩).aurInstall = [ascii "a"] := by
      simp [reconcile, readCurrentPackages, show desiredRepo wantsA = [ascii "a"] by decide,
        show desiredAur wantsA = [] by decide]
    intro n hn
    rw [hplan] at hn
    exact ⟨placedA, List.mem_cons_self, (List.mem_singleton.1 hn).symm⟩
  store m := by
    have hname : m.val = computeStorePath (fun _ => []) placedA.narHash placedA.name placedA.version ↔
        m = placedName := ⟨fun h => by cases m; cases h; rfl, fun h => h ▸ rfl⟩
    simp [AList.mem_insert, hname, or_comm]
  entries p hp := by
    obtain rfl := List.mem_singleton.1 hp
    exact placedName.valid
  lists n := by
    rw [show readCurrentPackages gensA = [ascii "a"] by decide +kernel,
      show desiredRepo wantsA = [ascii "a"] by decide, show desiredAur wantsA = [] by decide]
    simp

/-- With an entry `a-1` from before, there is nothing left to do. -/
theorem reconcile_settled_iff_wantsA :
    let old : StoreDir := AList.singleton ⟨ascii "a-1", by decide⟩ ⟨.directory [], true⟩
    Settled (reconcile wantsA ⟨gensA, .empty, old.insert placedName ⟨.directory [], true⟩⟩) :=
  (reconcile_settled_iff (applied_wantsA _)).2 (by decide +kernel)

/-- **A package at its content address is asked for again.** -/
theorem reconcile_does_not_converge :
    ¬ ∀ (sha256 : Bytes → Bytes) (desired : Json) (w w' : World) (placed : List Placed),
      Applied sha256 desired w w' placed → Settled (reconcile desired w') := by
  intro h
  have hsettled := h _ _ _ _ _ (applied_wantsA ∅)
  exact absurd hsettled.1 (by decide +kernel)

end Two09.Apply
