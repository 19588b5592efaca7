import Two09.Apply.Command

/-!
# What a plan and a generation say

The plan of `reconcile` against the manifest that was applied before it, and the entry of the new generation
for a package that stands at its content address.
-/

namespace Two09.Apply

open Two09.Lib Two09.Gen Two09.Store Two09.Install

/-! ### The difference -/

section Difference

variable (prev desired : Json) (w : World) (n : Bytes)

/-- The manifest has a service of this name that is to be enabled. -/
def Enables (m : Json) : Prop := ⟨n, true⟩ ∈ extractServices m

/-- The manifest has a service of this name. -/
def Mentions (m : Json) : Prop := n ∈ (extractServices m).map SvcEntry.name

instance (m : Json) : Decidable (Enables n m) := inferInstanceAs (Decidable (_ ∈ _))

instance (m : Json) : Decidable (Mentions n m) := inferInstanceAs (Decidable (_ ∈ _))

/-- The plan is the difference between what is desired and what there is: `prev` was applied before. -/
structure Differs (txn : ReconcileTxn) : Prop where
  pkgRemove : ∀ n, n ∈ txn.pkgRemove ↔
    n ∈ readCurrentPackages w.gens ∧ n ∉ desiredRepo desired ∧ n ∉ desiredAur desired
  aurInstall : ∀ n, n ∈ txn.aurInstall ↔ n ∈ desiredAur desired ∧ n ∉ readCurrentPackages w.gens
  repoInstall : ∀ n ∈ desiredRepo desired, n ∉ readCurrentPackages w.gens → n ∈ txn.repoInstall
  apart : ∀ n, n ∈ txn.repoInstall ∨ n ∈ txn.aurInstall → n ∉ txn.pkgRemove
  svcDisable : ∀ n, Enables n prev → ¬ Mentions n desired ∨ ⟨n, false⟩ ∈ extractServices desired →
    n ∈ txn.svcDisable.map SvcEntry.name

end Difference

section Plan

variable {prev desired : Json} {w : World} {n : Bytes}

lemma mem_pkgRemove : n ∈ (reconcile desired w).pkgRemove ↔
    n ∈ readCurrentPackages w.gens ∧ n ∉ desiredRepo desired ∧ n ∉ desiredAur desired := by
  show n ∈ List.filter _ _ ↔ _
  rw [List.mem_filter, Bool.and_eq_true, decide_eq_true_iff, decide_eq_true_iff]

lemma mem_aurInstall : n ∈ (reconcile desired w).aurInstall ↔
    n ∈ desiredAur desired ∧ n ∉ readCurrentPackages w.gens := by
  show n ∈ List.filter _ _ ↔ _
  rw [List.mem_filter, decide_eq_true_iff]

lemma mem_repoInstall : n ∈ (reconcile desired w).repoInstall ↔ n ∈ desiredRepo desired ∧
    (n ∉ readCurrentPackages w.gens ∨ foundOnDisk w.store n = false) := by
  show n ∈ List.filter _ _ ↔ _
  rw [List.mem_filter, Bool.or_eq_true, Bool.not_eq_true', Bool.not_eq_true', decide_eq_false_iff_not]

lemma not_mem_pkgRemove (h : n ∈ (reconcile desired w).repoInstall ∨ n ∈ (reconcile desired w).aurInstall) :
    n ∉ (reconcile desired w).pkgRemove := by
  intro hremove
  obtain ⟨-, hrepo, haur⟩ := mem_pkgRemove.1 hremove
  rcases h with h | h
  · exact hrepo (mem_repoInstall.1 h).1
  · exact haur (mem_aurInstall.1 h).1

/-- The plan disables what the desired manifest has and does not enable, and nothing else. -/
lemma mem_svcDisable : n ∈ (reconcile desired w).svcDisable.map SvcEntry.name ↔
    ⟨n, false⟩ ∈ extractServices desired := by
  show n ∈ (List.filter _ _).map _ ↔ _
  constructor
  · intro h
    obtain ⟨⟨name, enable⟩, hmem, rfl⟩ := List.mem_map.1 h
    obtain ⟨hsvc, henable⟩ := List.mem_filter.1 hmem
    cases enable with
    | true => cases henable
    | false => exact hsvc
  · intro h
    exact List.mem_map.2 ⟨_, List.mem_filter.2 ⟨h, rfl⟩, rfl⟩

lemma mentions_of_mem {enable : Bool} (h : ⟨n, enable⟩ ∈ extractServices desired) : Mentions n desired :=
  List.mem_map.2 ⟨_, h, rfl⟩

/-- **The plan is the difference exactly when every service that was enabled is still mentioned.** -/
theorem reconcile_differs_iff (prev desired : Json) (w : World) :
    Differs prev desired w (reconcile desired w) ↔ ∀ n, Enables n prev → Mentions n desired := by
  constructor
  · intro h n hprev
    by_contra habsent
    have hdisable := h.svcDisable n hprev (.inl habsent)
    exact habsent (mentions_of_mem (mem_svcDisable.1 hdisable))
  · intro h
    refine ⟨fun n => mem_pkgRemove, fun n => mem_aurInstall, ?_, fun n => not_mem_pkgRemove, ?_⟩
    · intro n hn hcurrent
      exact mem_repoInstall.2 ⟨hn, .inl hcurrent⟩
    · intro n hprev hor
      exact mem_svcDisable.2 (hor.resolve_left (not_not.2 (h n hprev)))

end Plan

/-- The manifest `{ services.a = true; }`. -/
def enablesA : Json := .object [(ascii "services", .object [(ascii "a", .bool true)])]

/-- A service that is left out of the manifest stays enabled. -/
theorem reconcile_keeps_service : ¬ Differs enablesA (.object []) .fresh (reconcile (.object []) .fresh) := by
  intro h
  have hdisable := h.svcDisable (ascii "a") (by decide) (.inl (by decide))
  exact absurd (mem_svcDisable.1 hdisable) (by decide)

/-! ### The version -/

section Version

variable {sha256 : Bytes → Bytes} {narHash name version origin : Bytes} {w : World}

/-- The entry at the content address is the only one that is taken for the package. -/
structure OnlyEntry (sha256 : Bytes → Bytes) (narHash name version : Bytes) (w : World) : Prop where
  entry : ∃ n ∈ w.store, n.val = computeStorePath sha256 narHash name version ∧
    n.hidden = false ∧ matchesName name n = true
  only : ∀ n ∈ w.store, n.hidden = false → matchesName name n = true →
    n.val = computeStorePath sha256 narHash name version

lemma findStorePath_only (h : OnlyEntry sha256 narHash name version w) :
    ∃ n, findStorePath name w = some n ∧ n.val = computeStorePath sha256 narHash name version := by
  obtain ⟨m, hm, -, hhidden, hmatches⟩ := h.entry
  have hsome : (findStorePath name w).isSome = true :=
    List.find?_isSome.2 ⟨m, AList.mem_keys.1 hm, by simp [hhidden, hmatches]⟩
  obtain ⟨n, hn⟩ := Option.isSome_iff_exists.1 hsome
  have hfound := List.find?_some hn
  rw [Bool.and_eq_true, Bool.not_eq_true'] at hfound
  have hmem : n ∈ w.store := AList.mem_keys.2 (List.mem_of_find?_eq_some hn)
  exact ⟨n, hn, h.only n hmem hfound.1 hfound.2⟩

/-- What is left of a content address behind as many characters as the name and its dash have. -/
lemma length_drop_computeStorePath :
    ((computeStorePath sha256 narHash name version).drop (name.length + 1)).length = version.length + 33 := by
  rw [List.length_drop, computeStorePath, addressed]
  simp only [List.length_append, length_hash32]
  show 32 + 1 + (name.length + 1 + version.length) - (name.length + 1) = _
  omega

/-- **The path is right, and the version is that of no package**: the hash in front of the name is not
passed over. -/
theorem desiredPkg_version (h : OnlyEntry sha256 narHash name version w) :
    (desiredPkg w origin name).storePath = some (storeDir ++ computeStorePath sha256 narHash name version) ∧
      (desiredPkg w origin name).version ≠ version := by
  obtain ⟨n, hn, hval⟩ := findStorePath_only h
  have hlen : ((computeStorePath sha256 narHash name version).drop (name.length + 1)).length =
      version.length + 33 := length_drop_computeStorePath
  rw [← hval] at hlen ⊢
  unfold desiredPkg
  rw [hn]
  refine ⟨rfl, ?_⟩
  show (if n.val.drop (name.length + 1) = [] then ascii "0.0.0" else n.val.drop (name.length + 1)) ≠ version
  have hne : n.val.drop (name.length + 1) ≠ [] := by
    intro hnil
    rw [hnil] at hlen
    cases hlen
  rw [if_neg hne]
  intro heq
  rw [heq] at hlen
  omega

end Version

/-- Only `a` is in the store, at its content address. -/
def placedWorld : World := { World.fresh with store := AList.singleton placedName ⟨.directory [], true⟩ }

lemma onlyEntry_placedWorld : OnlyEntry (fun _ => []) [] (ascii "a") (ascii "1") placedWorld where
  entry := ⟨placedName, by decide +kernel, rfl, by decide +kernel, by decide +kernel⟩
  only := by
    intro n hn _ _
    obtain rfl : n = placedName := by simpa [placedWorld, AList.singleton, ← AList.mem_keys] using hn
    rfl

theorem desiredPkg_version_placed :
    (desiredPkg placedWorld (ascii "repo") (ascii "a")).storePath =
        some (storeDir ++ computeStorePath (fun _ => []) [] (ascii "a") (ascii "1")) ∧
      (desiredPkg placedWorld (ascii "repo") (ascii "a")).version ≠ ascii "1" :=
  desiredPkg_version onlyEntry_placedWorld

/-- The version of `a-1` is the end of its hash, with what is behind it. -/
theorem version_of_placed : OnlyEntry (fun _ => []) [] (ascii "a") (ascii "1") placedWorld ∧
    (desiredPkg placedWorld (ascii "repo") (ascii "a")).version = ascii "000000000000000000000000000000-a-1" :=
  ⟨onlyEntry_placedWorld, by decide +kernel⟩

end Two09.Apply
