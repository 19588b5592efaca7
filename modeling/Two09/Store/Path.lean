import Two09.Lib.Posix

/-!
# Store paths

The entries of `/nix/store` and the paths that name them.
-/

namespace Two09.Store

open Two09.Lib Two09.Lib.Posix

/-- The directory all store paths stand in, with its slash. -/
def storeDir : Bytes := ascii "/nix/store/"

/-- What the name of a directory entry is, whatever its length. -/
structure EntryName (n : Name) : Prop where
  nonempty : n ≠ []
  noSlash : slash ∉ n
  noNul : (0 : UInt8) ∉ n
  notDot : n ≠ dot
  notDotdot : n ≠ dotdot

instance (n : Name) : Decidable (EntryName n) :=
  decidable_of_iff (n ≠ [] ∧ slash ∉ n ∧ (0 : UInt8) ∉ n ∧ n ≠ dot ∧ n ≠ dotdot)
    ⟨fun ⟨h1, h2, h3, h4, h5⟩ => ⟨h1, h2, h3, h4, h5⟩,
      fun ⟨h1, h2, h3, h4, h5⟩ => ⟨h1, h2, h3, h4, h5⟩⟩

/-- The name of an entry of `/nix/store`. -/
structure StoreName where
  val : Name
  valid : EntryName val

instance : DecidableEq StoreName := fun a b =>
  decidable_of_iff (a.val = b.val) ⟨fun h => by cases a; cases b; cases h; rfl, fun h => h ▸ rfl⟩

/-- `/nix/store/<name>`. -/
def storePath (n : StoreName) : Path := storeDir ++ n.val

lemma storePath_injective : Function.Injective storePath := by
  intro a b h
  have hval : a.val = b.val := List.append_cancel_left h
  cases a
  cases b
  cases hval
  rfl

@[simp] lemma storePath_inj {a b : StoreName} : storePath a = storePath b ↔ a = b :=
  storePath_injective.eq_iff

/-- `ent->d_name[0] == '.'`. -/
def StoreName.hidden (n : StoreName) : Bool := n.val.head? = some 46

/-- The single quotes of a name: each one ends or reopens the quotation `'…'` that the name is put
in on a command line. -/
def StoreName.quotes (n : StoreName) : Nat := n.val.count 39

/-- The name can be put between single quotes without reopening them. -/
def StoreName.Tame (n : StoreName) : Prop := n.quotes = 0 ∨ n.quotes % 2 = 1

end Two09.Store
