import Two09.Nix.Equality

/-!
# Equality and the order of attributes

What two values have in common that `nix_values_equal` finds equal: their serializations, up to the order of
attributes, with strings and paths at the same places.
-/

namespace Two09.Nix

open Two09.Lib

/-! ### Up to the order of attributes -/

/-- The attributes of the sets in a tree come in another order. -/
inductive Reordered : Tree → Tree → Prop
  | refl (t : Tree) : Reordered t t
  | trans {t u v : Tree} (htu : Reordered t u) (huv : Reordered u v) : Reordered t v
  | perm {xs ys : List (Bytes × Tree)} (hperm : xs.Perm ys) : Reordered (.attrSet xs) (.attrSet ys)
  | item {before behind : List Tree} {x y : Tree} (hxy : Reordered x y) :
    Reordered (.list (before ++ x :: behind)) (.list (before ++ y :: behind))
  | value {before behind : List (Bytes × Tree)} {key : Bytes} {x y : Tree} (hxy : Reordered x y) :
    Reordered (.attrSet (before ++ (key, x) :: behind)) (.attrSet (before ++ (key, y) :: behind))

/-- What the comparison goes by: the items one by one, and for each attribute of the one set one of the other. -/
inductive Same : Tree → Tree → Prop
  | refl (t : Tree) : Same t t
  | list {xs ys : List Tree} (hlen : xs.length = ys.length) (hitems : ∀ x ∈ xs.zip ys, Same x.1 x.2) :
    Same (.list xs) (.list ys)
  | attrSet {xs ys : List (Bytes × Tree)} (partner : Bytes × Tree → Tree) (hlen : xs.length = ys.length)
    (hmem : ∀ x ∈ xs, (x.1, partner x) ∈ ys) (hvalues : ∀ x ∈ xs, Same x.2 (partner x)) :
    Same (.attrSet xs) (.attrSet ys)

section Relations

variable {t u v : Tree} {xs ys : List Tree} {es fs : List (Bytes × Tree)}

lemma Reordered.symm (h : Reordered t u) : Reordered u t := by
  induction h with
  | refl t => exact .refl t
  | trans _ _ ihtu ihuv => exact ihuv.trans ihtu
  | perm hperm => exact .perm hperm.symm
  | item _ ih => exact .item ih
  | value _ ih => exact .value ih

lemma Same.attrSet' (hlen : es.length = fs.length) (h : ∀ x ∈ es, ∃ y, (x.1, y) ∈ fs ∧ Same x.2 y) :
    Same (.attrSet es) (.attrSet fs) := by
  have : Nonempty Tree := ⟨.null⟩
  choose! partner hmem hvalues using h
  exact .attrSet partner hlen hmem hvalues

lemma Same.of_list (h : Same (.list xs) u) : ∃ ys, u = .list ys ∧ xs.length = ys.length ∧
    ∀ x ∈ xs.zip ys, Same x.1 x.2 := by
  cases h with
  | refl =>
    refine ⟨xs, rfl, rfl, fun x hx => ?_⟩
    rw [List.zip_eq_zipWith, List.zipWith_self, List.mem_map] at hx
    obtain ⟨a, -, rfl⟩ := hx
    exact .refl a
  | list hlen hitems => exact ⟨_, rfl, hlen, hitems⟩

lemma Same.of_attrSet (h : Same (.attrSet es) u) : ∃ fs, u = .attrSet fs ∧ es.length = fs.length ∧
    ∀ x ∈ es, ∃ y, (x.1, y) ∈ fs ∧ Same x.2 y := by
  cases h with
  | refl => exact ⟨es, rfl, rfl, fun x hx => ⟨x.2, hx, .refl x.2⟩⟩
  | attrSet partner hlen hmem hvalues => exact ⟨_, rfl, hlen, fun x hx => ⟨partner x, hmem x hx, hvalues x hx⟩⟩

/-- Items one by one, through a third list. -/
lemma zip_through {zs : List Tree} (hxy : xs.length = ys.length) (hyz : ys.length = zs.length) {x : Tree × Tree}
    (hx : x ∈ xs.zip zs) : ∃ y, (x.1, y) ∈ xs.zip ys ∧ (y, x.2) ∈ ys.zip zs := by
  obtain ⟨i, hi, rfl⟩ := List.getElem_of_mem hx
  simp only [List.length_zip] at hi
  refine ⟨ys[i], ?_, ?_⟩
  · exact List.mem_of_getElem (i := i) (h := by simp only [List.length_zip]; omega) (by simp)
  · exact List.mem_of_getElem (i := i) (h := by simp only [List.length_zip]; omega) (by simp)

lemma Same.trans (htu : Same t u) (huv : Same u v) : Same t v := by
  induction htu generalizing v with
  | refl t => exact huv
  | list hlen _ ih =>
    obtain ⟨zs, rfl, hlen', hitems'⟩ := huv.of_list
    refine .list (hlen.trans hlen') fun x hx => ?_
    obtain ⟨y, hxy, hyz⟩ := zip_through hlen hlen' hx
    exact ih _ hxy (hitems' _ hyz)
  | attrSet partner hlen hmem _ ih =>
    obtain ⟨zs, rfl, hlen', hvalues'⟩ := huv.of_attrSet
    refine .attrSet' (hlen.trans hlen') fun x hx => ?_
    obtain ⟨z, hz, hsame⟩ := hvalues' _ (hmem x hx)
    exact ⟨z, hz, ih x hx hsame⟩

/-- **Another order of attributes** is no difference to the comparison. -/
lemma Reordered.same (h : Reordered t u) : Same t u := by
  induction h with
  | refl t => exact .refl t
  | trans _ _ ihtu ihuv => exact ihtu.trans ihuv
  | perm hperm => exact .attrSet' hperm.length_eq fun x hx => ⟨x.2, hperm.mem_iff.1 hx, .refl x.2⟩
  | @item before behind x y _ ih =>
    refine .list (by simp) fun z hz => ?_
    rw [List.zip_append rfl, List.zip_cons_cons, List.mem_append, List.mem_cons] at hz
    have hself : ∀ zs : List Tree, z ∈ zs.zip zs → Same z.1 z.2 := by
      intro zs hmem
      rw [List.zip_eq_zipWith, List.zipWith_self, List.mem_map] at hmem
      obtain ⟨a, -, rfl⟩ := hmem
      exact .refl a
    rcases hz with hz | rfl | hz
    · exact hself before hz
    · exact ih
    · exact hself behind hz
  | @value before behind key x y _ ih =>
    refine .attrSet' (by simp) fun z hz => ?_
    rw [List.mem_append, List.mem_cons] at hz
    rcases hz with hz | rfl | hz
    · exact ⟨z.2, List.mem_append_left _ hz, .refl z.2⟩
    · exact ⟨y, List.mem_append_right _ List.mem_cons_self, ih⟩
    · exact ⟨z.2, List.mem_append_right _ (List.mem_cons_of_mem _ hz), .refl z.2⟩

lemma reordered_list (before : List Tree) (hlen : xs.length = ys.length) (h : ∀ x ∈ xs.zip ys, Reordered x.1 x.2) :
    Reordered (.list (before ++ xs)) (.list (before ++ ys)) := by
  induction xs generalizing before ys with
  | nil =>
    obtain rfl := List.length_eq_zero_iff.1 hlen.symm
    exact .refl _
  | cons x xs ih =>
    obtain ⟨y, ys, rfl⟩ := List.exists_cons_of_length_eq_add_one hlen.symm
    simp only [List.length_cons, Nat.add_right_cancel_iff] at hlen
    rw [List.zip_cons_cons, List.forall_mem_cons] at h
    have hrest := ih (before ++ [y]) hlen h.2
    rw [List.append_assoc, List.append_assoc] at hrest
    exact (Reordered.item h.1).trans hrest

lemma reordered_values (before : List (Bytes × Tree)) (partner : Bytes × Tree → Tree)
    (h : ∀ x ∈ es, Reordered x.2 (partner x)) :
    Reordered (.attrSet (before ++ es)) (.attrSet (before ++ es.map fun x => (x.1, partner x))) := by
  induction es generalizing before with
  | nil => exact .refl _
  | cons x es ih =>
    rw [List.forall_mem_cons] at h
    have hrest := ih (before ++ [(x.1, partner x)]) h.2
    rw [List.append_assoc, List.append_assoc] at hrest
    exact (Reordered.value h.1).trans hrest

end Relations

/-! ### Paths as strings -/

mutual

/-- The tree with strings for its paths, which have the same text. -/
def Tree.plain : Tree → Tree
  | .path s => .string s
  | .list items => .list (Tree.plainItems items)
  | .attrSet entries => .attrSet (Tree.plainEntries entries)
  | t => t

def Tree.plainItems : List Tree → List Tree
  | [] => []
  | item :: items => item.plain :: Tree.plainItems items

def Tree.plainEntries : List (Bytes × Tree) → List (Bytes × Tree)
  | [] => []
  | (key, t) :: entries => (key, t.plain) :: Tree.plainEntries entries

end

mutual

/-- The tree without the text of its strings and paths. -/
def Tree.outline : Tree → Tree
  | .string _ => .string []
  | .path _ => .path []
  | .list items => .list (Tree.outlineItems items)
  | .attrSet entries => .attrSet (Tree.outlineEntries entries)
  | t => t

def Tree.outlineItems : List Tree → List Tree
  | [] => []
  | item :: items => item.outline :: Tree.outlineItems items

def Tree.outlineEntries : List (Bytes × Tree) → List (Bytes × Tree)
  | [] => []
  | (key, t) :: entries => (key, t.outline) :: Tree.outlineEntries entries

end

section Plain

variable {t u : Tree} {items : List Tree} {entries : List (Bytes × Tree)}

lemma Tree.plainItems_eq (items : List Tree) : Tree.plainItems items = items.map Tree.plain := by
  induction items with
  | nil => rfl
  | cons item items ih => rw [Tree.plainItems, ih, List.map_cons]

lemma Tree.plainEntries_eq (entries : List (Bytes × Tree)) :
    Tree.plainEntries entries = entries.map fun e => (e.1, e.2.plain) := by
  induction entries with
  | nil => rfl
  | cons e entries ih => rw [Tree.plainEntries, ih, List.map_cons]

lemma isEmpty_plainItems : (Tree.plainItems items).isEmpty = items.isEmpty := by
  cases items <;> rfl

lemma isEmpty_plainEntries : (Tree.plainEntries entries).isEmpty = entries.isEmpty := by
  cases entries <;> rfl

/-- The text does not tell paths from strings. -/
lemma jsonSerialize_plain (t : Tree) : ∀ indent, jsonSerialize indent t.plain = jsonSerialize indent t := by
  induction t using Tree.ind with
  | list items ih =>
    intro indent
    have hitems : jsonItems indent (Tree.plainItems items) = jsonItems indent items := by
      induction items with
      | nil => rfl
      | cons item items ih' =>
        rw [List.forall_mem_cons] at ih
        rw [Tree.plainItems, jsonItems, jsonItems, ih.1, ih' ih.2, isEmpty_plainItems]
    cases items with
    | nil => rfl
    | cons item items =>
      rw [Tree.plainItems] at hitems
      rw [Tree.plain, Tree.plainItems, jsonSerialize, jsonSerialize, hitems]
  | attrSet entries ih =>
    intro indent
    have hentries : jsonEntries indent (Tree.plainEntries entries) = jsonEntries indent entries := by
      induction entries with
      | nil => rfl
      | cons e entries ih' =>
        rw [List.forall_mem_cons] at ih
        rw [Tree.plainEntries, jsonEntries, jsonEntries, ih.1, ih' ih.2, isEmpty_plainEntries]
    cases entries with
    | nil => rfl
    | cons e entries =>
      rw [Tree.plainEntries] at hentries
      rw [Tree.plain, Tree.plainEntries, jsonSerialize, jsonSerialize, hentries]
  | path s => exact fun _ => rfl
  | _ => exact fun _ => rfl

/-- The text of its strings and paths and where these are tell a tree. -/
lemma eq_of_plain_outline (t : Tree) : ∀ u, t.plain = u.plain → t.outline = u.outline → t = u := by
  induction t using Tree.ind with
  | list items ih =>
    intro u hplain houtline
    cases u with
    | list items' =>
      rw [Tree.plain, Tree.plain, Tree.list.injEq] at hplain
      rw [Tree.outline, Tree.outline, Tree.list.injEq] at houtline
      refine congrArg Tree.list ?_
      induction items generalizing items' with
      | nil => cases items' with
        | nil => rfl
        | cons _ _ => cases hplain
      | cons item items ih' => cases items' with
        | nil => cases hplain
        | cons item' items' =>
          rw [List.forall_mem_cons] at ih
          rw [Tree.plainItems, Tree.plainItems, List.cons_eq_cons] at hplain
          rw [Tree.outlineItems, Tree.outlineItems, List.cons_eq_cons] at houtline
          rw [ih.1 item' hplain.1 houtline.1, ih' ih.2 items' hplain.2 houtline.2]
    | _ => cases houtline
  | attrSet entries ih =>
    intro u hplain houtline
    cases u with
    | attrSet entries' =>
      rw [Tree.plain, Tree.plain, Tree.attrSet.injEq] at hplain
      rw [Tree.outline, Tree.outline, Tree.attrSet.injEq] at houtline
      refine congrArg Tree.attrSet ?_
      induction entries generalizing entries' with
      | nil => cases entries' with
        | nil => rfl
        | cons _ _ => cases hplain
      | cons e entries ih' => cases entries' with
        | nil => cases hplain
        | cons e' entries' =>
          rw [List.forall_mem_cons] at ih
          rw [Tree.plainEntries, Tree.plainEntries, List.cons_eq_cons, Prod.mk.injEq] at hplain
          rw [Tree.outlineEntries, Tree.outlineEntries, List.cons_eq_cons, Prod.mk.injEq] at houtline
          rw [ih' ih.2 entries' hplain.2 houtline.2]
          exact congrArg (· :: entries') (Prod.ext hplain.1.1 (ih.1 e'.2 hplain.1.2 houtline.1.2))
    | _ => cases houtline
  | string s =>
    intro u hplain houtline
    cases u with
    | string s' => exact hplain
    | _ => cases houtline
  | path s =>
    intro u hplain houtline
    cases u with
    | path s' =>
      rw [Tree.plain, Tree.plain, Tree.string.injEq] at hplain
      rw [hplain]
    | _ => cases houtline
  | null => intro u hplain _; cases u <;> first | rfl | cases hplain
  | bool b => intro u hplain _; cases u <;> first | exact hplain | cases hplain
  | int n => intro u hplain _; cases u <;> first | exact hplain | cases hplain
  | lambda => intro u hplain _; cases u <;> first | rfl | cases hplain
  | builtin name => intro u hplain _; cases u <;> first | exact hplain | cases hplain
  | thunk => intro u hplain _; cases u <;> first | rfl | cases hplain

/-- **What the text and the outline tell** of trees that are data but for their paths. -/
lemma eq_of_nixToJson (ht : Data t.plain) (hu : Data u.plain) (htext : nixToJson t = nixToJson u)
    (houtline : t.outline = u.outline) : t = u := by
  refine eq_of_plain_outline t u ?_ houtline
  have hplain : jsonSerialize 0 t.plain ++ [] = jsonSerialize 0 u.plain ++ [] := by
    rw [List.append_nil, List.append_nil, jsonSerialize_plain, jsonSerialize_plain]
    exact htext
  exact (told ht u.plain hu 0 [] [] noDigit_nil noDigit_nil hplain).1

end Plain

/-! ### Sets with distinct keys -/

section Keys

variable {t u : Tree} {es fs : List (Bytes × Tree)}

lemma data_list {items : List Tree} (h : Data (Tree.list items).plain) : ∀ t ∈ items, Data t.plain := by
  rw [Tree.plain, Tree.plainItems_eq] at h
  cases h with
  | list hitems => exact fun t ht => hitems _ (List.mem_map_of_mem ht)

lemma data_list_iff {items : List Tree} : Data (Tree.list items).plain ↔ ∀ t ∈ items, Data t.plain := by
  refine ⟨data_list, fun h => ?_⟩
  rw [Tree.plain, Tree.plainItems_eq]
  refine .list fun v hv => ?_
  obtain ⟨t, ht, rfl⟩ := List.mem_map.1 hv
  exact h t ht

lemma data_attrSet_iff : Data (Tree.attrSet es).plain ↔
    (es.map Prod.fst).Nodup ∧ (∀ e ∈ es, (0 : UInt8) ∉ e.1) ∧ ∀ e ∈ es, Data e.2.plain := by
  have hkeys : (es.map fun e => (e.1, e.2.plain)).map Prod.fst = es.map Prod.fst := by
    rw [List.map_map]
    rfl
  rw [Tree.plain, Tree.plainEntries_eq]
  constructor
  · intro h
    cases h with
    | attrSet hnodup hnames hvalues =>
      rw [hkeys] at hnodup
      exact ⟨hnodup, fun e he => hnames (e.1, e.2.plain) (List.mem_map.2 ⟨e, he, rfl⟩),
        fun e he => hvalues (e.1, e.2.plain) (List.mem_map.2 ⟨e, he, rfl⟩)⟩
  · rintro ⟨hnodup, hnames, hvalues⟩
    refine .attrSet (by rw [hkeys]; exact hnodup) (fun v hv => ?_) fun v hv => ?_
    · obtain ⟨e, he, rfl⟩ := List.mem_map.1 hv
      exact hnames e he
    · obtain ⟨e, he, rfl⟩ := List.mem_map.1 hv
      exact hvalues e he

/-- Another order of attributes leaves data. -/
lemma Reordered.data (h : Reordered t u) (ht : Data t.plain) : Data u.plain := by
  induction h with
  | refl t => exact ht
  | trans _ _ ihtu ihuv => exact ihuv (ihtu ht)
  | perm hperm =>
    rw [data_attrSet_iff] at ht ⊢
    exact ⟨(hperm.map Prod.fst).nodup_iff.1 ht.1, fun e he => ht.2.1 e (hperm.mem_iff.2 he),
      fun e he => ht.2.2 e (hperm.mem_iff.2 he)⟩
  | item _ ih =>
    rw [data_list_iff, List.forall_mem_append, List.forall_mem_cons] at ht ⊢
    exact ⟨ht.1, ih ht.2.1, ht.2.2⟩
  | value _ ih =>
    rw [data_attrSet_iff, List.forall_mem_append, List.forall_mem_cons, List.forall_mem_append, List.forall_mem_cons,
      List.map_append, List.map_cons] at ht ⊢
    exact ⟨ht.1, ht.2.1, ht.2.2.1, ih ht.2.2.2.1, ht.2.2.2.2⟩

/-- **What the comparison goes by** is another order, where keys are distinct. -/
lemma Same.reordered (h : Same t u) (ht : Data t.plain) (hu : Data u.plain) : Reordered t u := by
  induction h with
  | refl t => exact .refl t
  | list hlen _ ih =>
    exact reordered_list [] hlen fun x hx =>
      ih x hx (data_list ht _ (List.of_mem_zip hx).1) (data_list hu _ (List.of_mem_zip hx).2)
  | @attrSet xs ys partner hlen hmem _ ih =>
    rw [data_attrSet_iff] at ht hu
    have hvalues : Reordered (.attrSet xs) (.attrSet (xs.map fun x => (x.1, partner x))) :=
      reordered_values [] partner fun x hx => ih x hx (ht.2.2 x hx) (hu.2.2 _ (hmem x hx))
    have hnodup : (xs.map fun x => (x.1, partner x)).Nodup := by
      refine List.Nodup.of_map Prod.fst ?_
      rw [List.map_map]
      exact ht.1
    have hsub : (xs.map fun x => (x.1, partner x)) ⊆ ys := by
      intro y hy
      obtain ⟨x, hx, rfl⟩ := List.mem_map.1 hy
      exact hmem x hx
    have hperm : (xs.map fun x => (x.1, partner x)).Perm ys :=
      (hnodup.subperm hsub).perm_of_length_le (by rw [List.length_map, hlen])
    exact hvalues.trans (.perm hperm)

end Keys

/-! ### The comparison of data -/

section Comparing

variable {d e : Datum} {entries ys : List (Bytes × Datum)} {items items' : List Datum}

lemma treeItems_eq (items : List Datum) : Datum.treeItems items = items.map Datum.tree := by
  induction items with
  | nil => rfl
  | cons item items ih => rw [Datum.treeItems, ih, List.map_cons]

lemma treeEntries_eq (entries : List (Bytes × Datum)) :
    Datum.treeEntries entries = entries.map fun x => (x.1, x.2.tree) := by
  induction entries with
  | nil => rfl
  | cons x entries ih => rw [Datum.treeEntries, ih, List.map_cons]

lemma Datum.Fine.data (h : d.Fine) : Data d.tree.plain := by
  induction h with
  | null => exact .null
  | bool b => exact .bool b
  | int hle hlt => exact .int hle hlt
  | string hs => exact .string hs
  | path hs => exact .string hs
  | @list items _ ih =>
    rw [Datum.tree, data_list_iff, treeItems_eq]
    intro t ht
    obtain ⟨v, hv, rfl⟩ := List.mem_map.1 ht
    exact ih v hv
  | @attrSet entries hkeys hnames _ ih =>
    rw [Datum.tree, data_attrSet_iff, treeEntries_eq, List.map_map]
    refine ⟨hkeys, fun x hx => ?_, fun x hx => ?_⟩
    · obtain ⟨y, hy, rfl⟩ := List.mem_map.1 hx
      exact hnames y hy
    · obtain ⟨y, hy, rfl⟩ := List.mem_map.1 hx
      exact ih y hy
  | forced _ ih => exact ih

lemma lookup_of_mem (hkeys : (ys.map Prod.fst).Nodup) {x : Bytes × Datum} (hx : x ∈ ys) :
    Datum.lookup ys x.1 = some x.2 := by
  induction ys with
  | nil => cases hx
  | cons y ys ih =>
    rw [List.map_cons, List.nodup_cons] at hkeys
    rcases List.mem_cons.1 hx with rfl | hx
    · simp [Datum.lookup]
    · have hne : y.1 ≠ x.1 := fun heq => hkeys.1 (heq ▸ List.mem_map_of_mem hx)
      rw [← ih hkeys.2 hx]
      simp [Datum.lookup, hne]

lemma mem_of_lookup {key : Bytes} (h : Datum.lookup ys key = some e) : (key, e) ∈ ys := by
  obtain ⟨x, hx, rfl⟩ := Option.map_eq_some_iff.1 h
  have hkey : x.1 = key := by simpa using List.find?_some hx
  rw [← hkey]
  exact List.mem_of_find?_eq_some hx

lemma equalEntries_iff : Datum.equalEntries entries ys = true ↔
    ∀ x ∈ entries, ∃ y, Datum.lookup ys x.1 = some y ∧ x.2.equal y = true := by
  induction entries with
  | nil => simp [Datum.equalEntries]
  | cons x entries ih =>
    rw [Datum.equalEntries.eq_def, List.forall_mem_cons, ← ih]
    cases hlook : Datum.lookup ys x.1 with
    | none => simp [hlook]
    | some y => simp [hlook]

lemma equalItems_iff : Datum.equalItems items items' = true ↔
    items.length = items'.length ∧ ∀ x ∈ items.zip items', x.1.equal x.2 = true := by
  induction items generalizing items' with
  | nil => cases items' <;> simp [Datum.equalItems]
  | cons x items ih =>
    cases items' with
    | nil => simp [Datum.equalItems]
    | cons y items' =>
      rw [Datum.equalItems, Bool.and_eq_true, ih, List.zip_cons_cons, List.forall_mem_cons, List.length_cons,
        List.length_cons, Nat.add_right_cancel_iff]
      tauto

/-- Where one set's keys are all found in another set of as many, all of the other's are met. -/
lemma exists_of_lookup (hkeys : (entries.map Prod.fst).Nodup)
    (hlen : entries.length = ys.length) (h : ∀ x ∈ entries, ∃ y, Datum.lookup ys x.1 = some y) {y : Bytes × Datum}
    (hy : y ∈ ys) : ∃ x ∈ entries, x.1 = y.1 := by
  have hsub : entries.map Prod.fst ⊆ ys.map Prod.fst := by
    intro key hkey
    obtain ⟨x, hx, rfl⟩ := List.mem_map.1 hkey
    obtain ⟨z, hz⟩ := h x hx
    exact List.mem_map.2 ⟨(x.1, z), mem_of_lookup hz, rfl⟩
  have hperm := (hkeys.subperm hsub).perm_of_length_le (by rw [List.length_map, List.length_map, hlen])
  obtain ⟨x, hx, hxy⟩ := List.mem_map.1 (hperm.mem_iff.2 (List.mem_map_of_mem hy))
  exact ⟨x, hx, hxy⟩

lemma exists_zip {α β : Type} {xs : List α} {ys : List β} (hlen : xs.length = ys.length) :
    (∀ x ∈ xs, ∃ y, (x, y) ∈ xs.zip ys) ∧ ∀ y ∈ ys, ∃ x, (x, y) ∈ xs.zip ys := by
  constructor
  · intro x hx
    obtain ⟨i, hi, rfl⟩ := List.getElem_of_mem hx
    exact ⟨ys[i], List.mem_of_getElem (i := i) (h := by rw [List.length_zip]; omega) (by simp)⟩
  · intro y hy
    obtain ⟨i, hi, rfl⟩ := List.getElem_of_mem hy
    exact ⟨xs[i], List.mem_of_getElem (i := i) (h := by rw [List.length_zip]; omega) (by simp)⟩

/-- What is found equal has no thunk in it, and is the same as far as the comparison goes. -/
lemma of_equal (hd : d.Fine) (he : e.Fine) (heq : d.equal e = true) : d.Plain ∧ e.Plain ∧ Same d.tree e.tree := by
  induction hd generalizing e with
  | @list items hitems ih =>
    cases he with
    | @list items' hitems' =>
      rw [Datum.equal, equalItems_iff] at heq
      obtain ⟨hlen, heq⟩ := heq
      have hpair : ∀ x ∈ items.zip items', x.1.Plain ∧ x.2.Plain ∧ Same x.1.tree x.2.tree := fun x hx =>
        ih x.1 (List.of_mem_zip hx).1 (hitems' x.2 (List.of_mem_zip hx).2) (heq x hx)
      refine ⟨.list fun x hx => ?_, .list fun y hy => ?_, ?_⟩
      · obtain ⟨y, hxy⟩ := (exists_zip hlen).1 x hx
        exact (hpair _ hxy).1
      · obtain ⟨x, hxy⟩ := (exists_zip hlen).2 y hy
        exact (hpair _ hxy).2.1
      · rw [Datum.tree, Datum.tree, treeItems_eq, treeItems_eq]
        refine .list (by rw [List.length_map, List.length_map, hlen]) fun x hx => ?_
        rw [List.zip_map, List.mem_map] at hx
        obtain ⟨y, hy, rfl⟩ := hx
        exact (hpair y hy).2.2
    | _ => cases heq
  | @attrSet entries hkeys _ _ ih =>
    cases he with
    | @attrSet ys hkeys' _ hvalues' =>
      rw [Datum.equal, Bool.and_eq_true, equalEntries_iff, decide_eq_true_iff] at heq
      obtain ⟨hlen, heq⟩ := heq
      have hpair : ∀ x ∈ entries, ∃ y, Datum.lookup ys x.1 = some y ∧ x.2.Plain ∧ y.Plain ∧ Same x.2.tree y.tree := by
        intro x hx
        obtain ⟨y, hlook, hxy⟩ := heq x hx
        exact ⟨y, hlook, ih x hx (hvalues' _ (mem_of_lookup hlook)) hxy⟩
      refine ⟨.attrSet fun x hx => ?_, .attrSet fun y hy => ?_, ?_⟩
      · obtain ⟨y, -, hx, -⟩ := hpair x hx
        exact hx
      · obtain ⟨x, hx, hkey⟩ := exists_of_lookup hkeys hlen (fun x hx => (hpair x hx).imp fun _ h => h.1) hy
        obtain ⟨z, hlook, -, hz, -⟩ := hpair x hx
        rw [hkey, lookup_of_mem hkeys' hy] at hlook
        obtain rfl := Option.some.inj hlook
        exact hz
      · rw [Datum.tree, Datum.tree, treeEntries_eq, treeEntries_eq]
        refine .attrSet' (by rw [List.length_map, List.length_map, hlen]) fun x hx => ?_
        obtain ⟨z, hz, rfl⟩ := List.mem_map.1 hx
        obtain ⟨y, hlook, -, -, hsame⟩ := hpair z hz
        exact ⟨y.tree, List.mem_map.2 ⟨(z.1, y), mem_of_lookup hlook, rfl⟩, hsame⟩
    | _ => cases heq
  | forced _ _ => cases e <;> cases heq
  | null =>
    cases e with
    | null => exact ⟨.null, .null, .refl _⟩
    | _ => cases heq
  | bool b =>
    cases e with
    | bool b' =>
      obtain rfl : b = b' := of_decide_eq_true heq
      exact ⟨.bool b, .bool b, .refl _⟩
    | _ => cases heq
  | @int n _ _ =>
    cases e with
    | int n' =>
      obtain rfl : n = n' := of_decide_eq_true heq
      exact ⟨.int n, .int n, .refl _⟩
    | _ => cases heq
  | @string s _ =>
    cases e with
    | string s' =>
      obtain rfl : s = s' := of_decide_eq_true heq
      exact ⟨.string s, .string s, .refl _⟩
    | _ => cases heq
  | @path s _ =>
    cases e with
    | path s' =>
      obtain rfl : s = s' := of_decide_eq_true heq
      exact ⟨.path s, .path s, .refl _⟩
    | _ => cases heq

/-- What is the same as far as the comparison goes is found equal, without thunks. -/
lemma equal_of (hd : d.Plain) (he : e.Plain) (hfine : e.Fine) (hsame : Same d.tree e.tree) : d.equal e = true := by
  induction hd generalizing e with
  | @list items _ ih =>
    rw [Datum.tree, treeItems_eq] at hsame
    obtain ⟨ts, hts, hlen, hitems⟩ := hsame.of_list
    cases he with
    | @list items' hitems' =>
      rw [Datum.tree, treeItems_eq, Tree.list.injEq] at hts
      obtain rfl := hts
      rw [List.length_map, List.length_map] at hlen
      rw [List.zip_map, List.forall_mem_map] at hitems
      cases hfine with
      | list hfine =>
        rw [Datum.equal, equalItems_iff]
        exact ⟨hlen, fun x hx => ih x.1 (List.of_mem_zip hx).1 (hitems' _ (List.of_mem_zip hx).2)
          (hfine _ (List.of_mem_zip hx).2) (hitems x hx)⟩
    | _ => cases hts
  | @attrSet entries _ ih =>
    rw [Datum.tree, treeEntries_eq] at hsame
    obtain ⟨ts, hts, hlen, hentries⟩ := hsame.of_attrSet
    cases he with
    | @attrSet ys hys =>
      rw [Datum.tree, treeEntries_eq, Tree.attrSet.injEq] at hts
      obtain rfl := hts
      rw [List.length_map, List.length_map] at hlen
      cases hfine with
      | attrSet hkeys _ hfine =>
        rw [Datum.equal, decide_eq_true hlen, Bool.true_and, equalEntries_iff]
        intro x hx
        obtain ⟨t, ht, hxt⟩ := hentries _ (List.mem_map.2 ⟨x, hx, rfl⟩)
        obtain ⟨y, hy, hyt⟩ := List.mem_map.1 ht
        obtain ⟨hkey, rfl⟩ := Prod.mk.inj hyt
        refine ⟨y.2, ?_, ih x hx (hys y hy) (hfine y hy) hxt⟩
        rw [show x.1 = y.1 from hkey.symm]
        exact lookup_of_mem hkeys hy
    | _ => cases hts
  | null =>
    cases he with
    | null => rfl
    | _ => cases hsame
  | bool b =>
    cases he with
    | bool b' =>
      cases hsame
      exact decide_eq_true rfl
    | _ => cases hsame
  | int n =>
    cases he with
    | int n' =>
      cases hsame
      exact decide_eq_true rfl
    | _ => cases hsame
  | string s =>
    cases he with
    | string s' =>
      cases hsame
      exact decide_eq_true rfl
    | _ => cases hsame
  | path s =>
    cases he with
    | path s' =>
      cases hsame
      exact decide_eq_true rfl
    | _ => cases hsame

end Comparing

/-! ### A set of values -/

/-- What `nix_values_equal` gives, from some depth on. -/
def Compared (h : Heap) (p q : Ptr) (b : Bool) : Prop :=
  ∃ n, ∀ fuel ≥ n, valuesEqual fuel (some p) (some q) h = .ok (b, h)

/-- What `nix_to_json` is of, from some depth on. -/
def Walked (h : Heap) (p : Ptr) (t : Tree) : Prop := ∃ n, ∀ fuel ≥ n, toTree fuel (some p) h = .ok (t, h)

/-- The comparison is an equivalence between the values of `S`, which goes by their serializations: those of equal
values are the same text, up to the order of attributes, with strings and paths at the same places. -/
structure SoundOn (h : Heap) (S : Set Ptr) : Prop where
  total : ∀ p ∈ S, ∀ q ∈ S, ∃ b, Compared h p q b
  refl : ∀ p ∈ S, Compared h p p true
  symm : ∀ p ∈ S, ∀ q ∈ S, Compared h p q true → Compared h q p true
  trans : ∀ p ∈ S, ∀ q ∈ S, ∀ r ∈ S, Compared h p q true → Compared h q r true → Compared h p r true
  order : ∀ p ∈ S, ∀ q ∈ S, ∀ t u, Walked h p t → Walked h q u → Reordered t u → Compared h p q true
  json : ∀ p ∈ S, ∀ q ∈ S, Compared h p q true ↔ ∃ t u v, Walked h p t ∧ Walked h q u ∧ Reordered t v ∧
    nixToJson v = nixToJson u ∧ v.outline = u.outline

section Sound

variable {h : Heap} {p q : Ptr} {d e : Datum} {b b' : Bool} {t t' : Tree}

lemma compared (hp : Denotes h p d) (hq : Denotes h q e) : Compared h p q (d.equal e) :=
  ⟨d.depth, fun fuel hfuel => valuesEqual_run d fuel hp hq hfuel⟩

lemma Compared.unique (hb : Compared h p q b) (hb' : Compared h p q b') : b = b' := by
  obtain ⟨n, hn⟩ := hb
  obtain ⟨n', hn'⟩ := hb'
  have heq := (hn (max n n') (le_max_left _ _)).symm.trans (hn' (max n n') (le_max_right _ _))
  exact (Prod.mk.inj (Except.ok.inj heq)).1

lemma walked (hp : Denotes h p d) : Walked h p d.tree := ⟨d.depth, fun _ hfuel => toTree_run hp hfuel⟩

lemma Walked.unique (ht : Walked h p t) (ht' : Walked h p t') : t = t' := by
  obtain ⟨n, hn⟩ := ht
  obtain ⟨n', hn'⟩ := ht'
  have heq := (hn (max n n') (le_max_left _ _)).symm.trans (hn' (max n n') (le_max_right _ _))
  exact (Prod.mk.inj (Except.ok.inj heq)).1

/-- Two values without thunks are found equal if they are the same but for the order of attributes. -/
lemma compared_iff (hp : Denotes h p d) (hq : Denotes h q e) (hd : d.Fine) (he : e.Fine) (hdp : d.Plain)
    (hep : e.Plain) : Compared h p q true ↔ Reordered d.tree e.tree := by
  constructor
  · intro heq
    have hequal : d.equal e = true := (compared hp hq).unique heq
    exact (of_equal hd he hequal).2.2.reordered hd.data he.data
  · intro hre
    have hequal := equal_of hdp hep he hre.same
    rw [← hequal]
    exact compared hp hq

/-- **When the comparison is sound**: for a set of values, it is if no thunk is left in any of them. -/
theorem soundOn_iff {S : Set Ptr} (hS : ∀ p ∈ S, ∃ d, Denotes h p d ∧ d.Fine) :
    SoundOn h S ↔ ∀ p ∈ S, ∃ d, Denotes h p d ∧ d.Fine ∧ d.Plain := by
  constructor
  · intro hsound p hp
    obtain ⟨d, hd, hfine⟩ := hS p hp
    have hequal : d.equal d = true := (compared hd hd).unique (hsound.refl p hp)
    exact ⟨d, hd, hfine, (of_equal hfine hfine hequal).1⟩
  · intro hval
    refine ⟨?_, ?_, ?_, ?_, ?_, ?_⟩
    · intro p hp q hq
      obtain ⟨d, hd, -⟩ := hval p hp
      obtain ⟨e, he, -⟩ := hval q hq
      exact ⟨_, compared hd he⟩
    · intro p hp
      obtain ⟨d, hd, hdf, hdp⟩ := hval p hp
      exact (compared_iff hd hd hdf hdf hdp hdp).2 (.refl _)
    · intro p hp q hq heq
      obtain ⟨d, hd, hdf, hdp⟩ := hval p hp
      obtain ⟨e, he, hef, hep⟩ := hval q hq
      rw [compared_iff hd he hdf hef hdp hep] at heq
      exact (compared_iff he hd hef hdf hep hdp).2 heq.symm
    · intro p hp q hq r hr hpq hqr
      obtain ⟨d, hd, hdf, hdp⟩ := hval p hp
      obtain ⟨e, he, hef, hep⟩ := hval q hq
      obtain ⟨f, hf, hff, hfp⟩ := hval r hr
      rw [compared_iff hd he hdf hef hdp hep] at hpq
      rw [compared_iff he hf hef hff hep hfp] at hqr
      exact (compared_iff hd hf hdf hff hdp hfp).2 (hpq.trans hqr)
    · intro p hp q hq t u ht hu htu
      obtain ⟨d, hd, hdf, hdp⟩ := hval p hp
      obtain ⟨e, he, hef, hep⟩ := hval q hq
      obtain rfl := ht.unique (walked hd)
      obtain rfl := hu.unique (walked he)
      exact (compared_iff hd he hdf hef hdp hep).2 htu
    · intro p hp q hq
      obtain ⟨d, hd, hdf, hdp⟩ := hval p hp
      obtain ⟨e, he, hef, hep⟩ := hval q hq
      rw [compared_iff hd he hdf hef hdp hep]
      constructor
      · exact fun hre => ⟨_, _, _, walked hd, walked he, hre, rfl, rfl⟩
      · rintro ⟨t, u, v, ht, hu, htv, htext, houtline⟩
        obtain rfl := ht.unique (walked hd)
        obtain rfl := hu.unique (walked he)
        obtain rfl := eq_of_nixToJson (htv.data hdf.data) hef.data htext houtline
        exact htv

end Sound

/-- Two sets of the same attributes in another order, and a list with a forced thunk. -/
def comparedHeap : Heap :=
  ⟨[some (.int 1), some (.path (ascii "/x")), some (.attrSet [(ascii "a", some 0), (ascii "b", some 1)]),
    some (.attrSet [(ascii "b", some 1), (ascii "a", some 0)]), some (.thunk .missing (some 0)), some (.list [some 4])],
    [], none⟩

lemma denotes_pair : Denotes comparedHeap 2 (.attrSet [(ascii "a", .int 1), (ascii "b", .path (ascii "/x"))]) ∧
    Denotes comparedHeap 3 (.attrSet [(ascii "b", .path (ascii "/x")), (ascii "a", .int 1)]) := by
  have hint : Denotes comparedHeap 0 (.int 1) := .int rfl
  have hpath : Denotes comparedHeap 1 (.path (ascii "/x")) := .path rfl
  refine ⟨@Denotes.attrSet _ 2 [0, 1] _ rfl rfl fun x hx => ?_, @Denotes.attrSet _ 3 [1, 0] _ rfl rfl fun x hx => ?_⟩
  · rcases List.mem_pair.1 hx with rfl | rfl
    · exact hint
    · exact hpath
  · rcases List.mem_pair.1 hx with rfl | rfl
    · exact hpath
    · exact hint

lemma fine_pair {x y : Bytes × Datum} (hkeys : x.1 ≠ y.1) (hx : (0 : UInt8) ∉ x.1 ∧ x.2.Fine ∧ x.2.Plain)
    (hy : (0 : UInt8) ∉ y.1 ∧ y.2.Fine ∧ y.2.Plain) :
    (Datum.attrSet [x, y]).Fine ∧ (Datum.attrSet [x, y]).Plain := by
  refine ⟨.attrSet (by simpa using hkeys) ?_ ?_, .attrSet ?_⟩ <;> simp [hx, hy]

theorem soundOn_pair : SoundOn comparedHeap {2, 3} := by
  have ha : (0 : UInt8) ∉ ascii "a" ∧ (Datum.int 1).Fine ∧ (Datum.int 1).Plain :=
    ⟨by decide, .int (by decide) (by decide), .int 1⟩
  have hb : (0 : UInt8) ∉ ascii "b" ∧ (Datum.path (ascii "/x")).Fine ∧ (Datum.path (ascii "/x")).Plain :=
    ⟨by decide, .path (by decide), .path _⟩
  have hval : ∀ p ∈ ({2, 3} : Set Ptr), ∃ d, Denotes comparedHeap p d ∧ d.Fine ∧ d.Plain := by
    rintro p (rfl | rfl)
    · exact ⟨_, denotes_pair.1, fine_pair (by decide) ha hb⟩
    · exact ⟨_, denotes_pair.2, fine_pair (by decide) hb ha⟩
  exact (soundOn_iff fun p hp => (hval p hp).imp fun _ h => ⟨h.1, h.2.1⟩).2 hval

theorem forced_not_sound : (∀ p ∈ ({5} : Set Ptr), ∃ d, Denotes comparedHeap p d ∧ d.Fine) ∧
    ¬ SoundOn comparedHeap {5} := by
  have hforced : Denotes comparedHeap 4 (.forced (.int 1)) := @Denotes.forced _ 4 0 .missing _ rfl (.int rfl)
  constructor
  · rintro p rfl
    refine ⟨.list [.forced (.int 1)], @Denotes.list _ 5 [4] _ rfl rfl fun x hx => ?_, .list fun v hv => ?_⟩
    · obtain rfl := List.mem_singleton.1 hx
      exact hforced
    · obtain rfl := List.mem_singleton.1 hv
      exact .forced (.int (by decide) (by decide))
  · intro hsound
    obtain ⟨n, hn⟩ := hsound.refl 5 rfl
    have htrue := hn (n + 2) (by omega)
    have hfalse : valuesEqual (n + 2) (some 5) (some 5) comparedHeap = .ok (false, comparedHeap) := rfl
    have heq := htrue.symm.trans hfalse
    cases (Prod.mk.inj (Except.ok.inj heq)).1

end Two09.Nix
