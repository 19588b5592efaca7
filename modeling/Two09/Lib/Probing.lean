import Mathlib

/-!
# Linear probing

A table with open addressing. An entry stands at the first free cell from its home on, so that a search from the
home may end at a free cell. A removal leaves a hole, into which it moves a later entry that a search would now miss,
and goes on with the hole that this leaves.
-/

namespace Two09.Lib.Probing

variable {α : Type*} {n m k fuel p q r h stop : ℕ} {e : α} {S T : Set ℕ}

/-! ### Cells -/

/-- The cells of a table. -/
abbrev Table (α : Type*) := List (Option α)

/-- The cell behind `p`. -/
def next (n p : ℕ) : ℕ := (p + 1) % n

/-- The cell before `p`. -/
def prev (n p : ℕ) : ℕ := (n + p - 1) % n

/-- The cell so many cells behind `p`. -/
def cell (n p k : ℕ) : ℕ := (p + k) % n

namespace Table

variable {t : Table α}

/-- What a cell holds. -/
def slot (t : Table α) (p : ℕ) : Option α := t[p]?.join

/-- The occupied cells. -/
def occ (t : Table α) : Set ℕ := {p | t.slot p ≠ none}

@[simp] lemma mem_occ : p ∈ t.occ ↔ t.slot p ≠ none := Iff.rfl

lemma mem_occ_of_slot (he : t.slot p = some e) : p ∈ t.occ := by simp [he]

lemma lt_of_slot (he : t.slot p = some e) : p < t.length := by
  by_contra hlt
  rw [slot, List.getElem?_eq_none (by omega)] at he
  cases he

lemma getElem?_of_slot (he : t.slot p = some e) : t[p]? = some (some e) := by
  rw [slot] at he
  cases hp : t[p]? with
  | none => rw [hp] at he; cases he
  | some o => rw [hp] at he; rw [← he]; rfl

lemma slot_set (v : Option α) (hq : q < t.length) : slot (t.set q v) p = if p = q then v else t.slot p := by
  unfold slot
  rw [List.getElem?_set]
  by_cases hpq : p = q
  · subst hpq
    simp [hq]
  · rw [if_neg (Ne.symm hpq), if_neg hpq]

lemma occ_set_some (hq : q < t.length) : occ (t.set q (some e)) = insert q t.occ := by
  ext p
  by_cases hpq : p = q <;> simp [slot_set _ hq, hpq]

lemma occ_set_none (hq : q < t.length) : occ (t.set q none) = t.occ \ {q} := by
  ext p
  by_cases hpq : p = q <;> simp [slot_set _ hq, hpq]

/-! ### The entries -/

/-- The entries, cell after cell. -/
def entries (t : Table α) : List α := t.reduceOption

lemma mem_entries : e ∈ t.entries ↔ ∃ p, t.slot p = some e := by
  rw [entries, List.reduceOption_mem_iff, List.mem_iff_getElem?]
  exact ⟨fun ⟨p, hp⟩ => ⟨p, by rw [slot, hp]; rfl⟩, fun ⟨p, hp⟩ => ⟨p, getElem?_of_slot hp⟩⟩

lemma entries_replicate (n : ℕ) : entries (List.replicate n (none : Option α)) = [] := by
  rw [entries, List.reduceOption_replicate_none]

/-- A table with fewer entries than cells has a free cell. -/
lemma exists_free (hlt : t.entries.length < t.length) : ∃ p < t.length, t.slot p = none := by
  rw [entries, List.reduceOption_length_lt_iff, List.mem_iff_getElem?] at hlt
  obtain ⟨p, hp⟩ := hlt
  exact ⟨p, (List.getElem?_eq_some_iff.1 hp).1, by rw [slot, hp]; rfl⟩

lemma entries_set_some (hq : q < t.length) (hfree : t.slot q = none) :
    (entries (t.set q (some e))).Perm (e :: t.entries) := by
  induction t generalizing q with
  | nil => exact absurd hq (Nat.not_lt_zero q)
  | cons o t ih =>
    cases q with
    | zero =>
      have ho : o = none := hfree
      subst ho
      exact .refl _
    | succ q =>
      have hrest := ih (Nat.lt_of_succ_lt_succ hq) hfree
      cases o with
      | none => exact hrest
      | some x => exact (hrest.cons x).trans (List.Perm.swap e x _)

lemma entries_set_none (he : t.slot q = some e) : (e :: entries (t.set q none)).Perm t.entries := by
  induction t generalizing q with
  | nil => exact absurd (lt_of_slot he) (Nat.not_lt_zero q)
  | cons o t ih =>
    cases q with
    | zero =>
      have ho : o = some e := he
      subst ho
      exact .refl _
    | succ q =>
      have hrest := ih he
      cases o with
      | none => exact hrest
      | some x => exact (List.Perm.swap x e _).trans (hrest.cons x)

end Table

open Table

/-! ### The way of a probe -/

/-- The probe from `h` passes only cells of `S` before it comes to `p`. -/
def Leads (n : ℕ) (S : Set ℕ) : ℕ → ℕ → Prop := Relation.ReflTransGen fun a b => a ∈ S ∧ next n a = b

namespace Leads

lemma refl (n : ℕ) (S : Set ℕ) (p : ℕ) : Leads n S p p := Relation.ReflTransGen.refl

lemma mono (hST : S ⊆ T) (hp : Leads n S h p) : Leads n T h p :=
  Relation.ReflTransGen.mono (fun _ _ ⟨ha, hb⟩ => ⟨hST ha, hb⟩) _ _ hp

/-- A probe goes no further than a cell outside. -/
lemma eq_of_notMem (hh : h ∉ S) (hp : Leads n S h p) : p = h := by
  rcases Relation.ReflTransGen.cases_head hp with rfl | ⟨_, ⟨hmem, -⟩, -⟩
  · rfl
  · exact absurd hmem hh

/-- A probe that does not end here goes on at the next cell. -/
lemma eq_or_next (hp : Leads n S h p) : p = h ∨ Leads n S (next n h) p := by
  rcases Relation.ReflTransGen.cases_head hp with rfl | ⟨_, ⟨-, rfl⟩, hrest⟩
  · exact .inl rfl
  · exact .inr hrest

/-- The cell outside at which a probe ends is one only. -/
lemma end_unique (hp : Leads n S h p) (hq : Leads n S h q) (hpS : p ∉ S) (hqS : q ∉ S) : p = q := by
  have hright : Relator.RightUnique fun a b => a ∈ S ∧ next n a = b := fun _ _ _ hb hc => hb.2.symm.trans hc.2
  rcases Relation.ReflTransGen.total_of_right_unique hright hp hq with h' | h'
  · exact (eq_of_notMem hpS h').symm
  · exact eq_of_notMem hqS h'

/-- A probe passes by `p` or, after the last time it does not, is on its way from the next cell. -/
lemma avoid (p : ℕ) (hq : Leads n S h q) :
    Leads n (S \ {p}) h q ∨ Leads n (S \ {p}) h p ∧ Leads n (S \ {p}) (next n p) q := by
  induction hq with
  | refl => exact .inl (refl _ _ _)
  | @tail b c _ hbc ih =>
    obtain ⟨hbS, rfl⟩ := hbc
    by_cases hbp : b = p
    · subst hbp
      rcases ih with hb | ⟨hb, -⟩
      · exact .inr ⟨hb, refl _ _ _⟩
      · exact .inr ⟨hb, refl _ _ _⟩
    · have hb : b ∈ S \ {p} ∧ next n b = next n b := ⟨⟨hbS, hbp⟩, rfl⟩
      exact ih.imp (fun h' => h'.tail hb) (fun h' => ⟨h'.1, h'.2.tail hb⟩)

end Leads

section Cells

lemma next_lt (hn : 0 < n) : next n p < n := Nat.mod_lt _ hn

lemma cell_lt (hn : 0 < n) : cell n p k < n := Nat.mod_lt _ hn

lemma cell_zero (hp : p < n) : cell n p 0 = p := Nat.mod_eq_of_lt hp

lemma next_cell (n p k : ℕ) : next n (cell n p k) = cell n p (k + 1) := by
  rw [next, cell, cell, Nat.mod_add_mod, Nat.add_assoc]

lemma cell_next (n p k : ℕ) : cell n (next n p) k = cell n p (k + 1) := by
  rw [cell, cell, next, Nat.mod_add_mod, Nat.add_right_comm, Nat.add_assoc]

lemma cell_cell (n p j k : ℕ) : cell n (cell n p j) k = cell n p (j + k) := by
  rw [cell, cell, cell, Nat.mod_add_mod, Nat.add_assoc]

lemma prev_cell (hn : 0 < n) : prev n (cell n p (k + 1)) = cell n p k := by
  have hlt := cell_lt (p := p) (k := k) hn
  rw [← next_cell, prev, next]
  rcases Nat.lt_or_ge (cell n p k + 1) n with hin | hout
  · rw [Nat.mod_eq_of_lt hin, show n + (cell n p k + 1) - 1 = cell n p k + n by omega, Nat.add_mod_right,
      Nat.mod_eq_of_lt hlt]
  · rw [show cell n p k + 1 = n by omega, Nat.mod_self, Nat.mod_eq_of_lt (by omega)]
    omega

/-- Two cells that are less than a turn apart are two. -/
lemma cell_ne (hp : p < n) (hk : 0 < k) (hkn : k < n) : cell n p k ≠ p := by
  unfold cell
  rcases Nat.lt_or_ge (p + k) n with hin | hout
  · rw [Nat.mod_eq_of_lt hin]
    omega
  · rw [Nat.mod_eq_sub_mod hout, Nat.mod_eq_of_lt (by omega)]
    omega

/-- Every cell comes up within a turn. -/
lemma exists_cell (hp : p < n) (hq : q < n) : ∃ k < n, cell n p k = q := by
  rcases Nat.lt_or_ge q p with hlt | hge
  · exact ⟨n + q - p, by omega, by rw [cell, show p + (n + q - p) = q + n by omega, Nat.add_mod_right,
      Nat.mod_eq_of_lt hq]⟩
  · exact ⟨q - p, by omega, by rw [cell, show p + (q - p) = q by omega, Nat.mod_eq_of_lt hq]⟩

end Cells

lemma Leads.lt (hn : h < n) (hp : Leads n S h p) : p < n := by
  rcases Relation.ReflTransGen.cases_tail hp with rfl | ⟨_, -, -, rfl⟩
  · exact hn
  · exact next_lt (by omega)

/-! ### Walks -/

/-- The first free cell from `p` on; none when there is none within so many cells. -/
def firstFree (n : ℕ) (t : Table α) : ℕ → ℕ → Option ℕ
  | 0, _ => none
  | fuel + 1, p => if (t.slot p).isSome then firstFree n t fuel (next n p) else some p

/-- The first wanted entry from `p` on, `some none` when a free cell comes first; none when neither comes within so
many cells. -/
def search (n : ℕ) (t : Table α) (want : α → Bool) : ℕ → ℕ → Option (Option (ℕ × α))
  | 0, _ => none
  | fuel + 1, p =>
    match t.slot p with
    | none => some none
    | some e => if want e then some (some (p, e)) else search n t want fuel (next n p)

section Walks

variable {t : Table α} {want : α → Bool}

lemma exists_firstFree (hp : p < n) (hfree : t.slot (cell n p k) = none) (hk : k < fuel) :
    ∃ q, firstFree n t fuel p = some q := by
  induction fuel generalizing p k with
  | zero => omega
  | succ fuel ih =>
    unfold firstFree
    by_cases hslot : (t.slot p).isSome
    · rw [if_pos hslot]
      cases k with
      | zero =>
        rw [cell_zero hp] at hfree
        simp [hfree] at hslot
      | succ k => exact ih (next_lt (by omega)) ((cell_next n p k).symm ▸ hfree) (by omega)
    · rw [if_neg hslot]
      exact ⟨p, rfl⟩

lemma of_firstFree (hq : firstFree n t fuel p = some q) : Leads n t.occ p q ∧ t.slot q = none := by
  induction fuel generalizing p with
  | zero => cases hq
  | succ fuel ih =>
    unfold firstFree at hq
    split at hq
    next hslot =>
      obtain ⟨hlead, hfree⟩ := ih hq
      exact ⟨.head ⟨by simpa [Option.isSome_iff_ne_none] using hslot, rfl⟩ hlead, hfree⟩
    next hslot =>
      cases hq
      exact ⟨.refl _ _ _, by simpa using hslot⟩

/-- Where there is a free cell, the walk comes to the one that the probe leads to. -/
lemma firstFree_eq_some_iff (hp : p < n) (hr : r < n) (hfree : t.slot r = none) :
    firstFree n t n p = some q ↔ Leads n t.occ p q ∧ t.slot q = none := by
  refine ⟨of_firstFree, fun ⟨hlead, hq⟩ => ?_⟩
  obtain ⟨k, hk, rfl⟩ := exists_cell hp hr
  obtain ⟨q', hq'⟩ := exists_firstFree hp hfree hk
  obtain ⟨hlead', hfree'⟩ := of_firstFree hq'
  rw [hq', hlead'.end_unique hlead (by simpa using hfree') (by simpa using hq)]

lemma exists_search (want : α → Bool) (hp : p < n) (hfree : t.slot (cell n p k) = none) (hk : k < fuel) :
    ∃ found, search n t want fuel p = some found := by
  induction fuel generalizing p k with
  | zero => omega
  | succ fuel ih =>
    unfold search
    cases hslot : t.slot p with
    | none => exact ⟨none, rfl⟩
    | some e =>
      simp only
      split
      · exact ⟨_, rfl⟩
      cases k with
      | zero =>
        rw [cell_zero hp, hslot] at hfree
        cases hfree
      | succ k => exact ih (next_lt (by omega)) ((cell_next n p k).symm ▸ hfree) (by omega)

lemma of_search_some (h : search n t want fuel p = some (some (q, e))) : t.slot q = some e ∧ want e = true := by
  induction fuel generalizing p with
  | zero => cases h
  | succ fuel ih =>
    unfold search at h
    cases hslot : t.slot p with
    | none => simp [hslot] at h
    | some x =>
      simp only [hslot] at h
      split at h
      next hwant => cases h; exact ⟨hslot, hwant⟩
      next => exact ih h

/-- What a search passes by is not wanted. -/
lemma of_search_none (hnone : search n t want fuel h = some none) (hlead : Leads n t.occ h p)
    (he : t.slot p = some e) : want e = false := by
  induction fuel generalizing h with
  | zero => cases hnone
  | succ fuel ih =>
    unfold search at hnone
    cases hslot : t.slot h with
    | none =>
      rw [hlead.eq_of_notMem (by simpa using hslot), hslot] at he
      cases he
    | some x =>
      simp only [hslot] at hnone
      split at hnone
      · cases hnone
      next hwant =>
        rcases hlead.eq_or_next with rfl | hrest
        · rw [hslot] at he
          cases he
          simpa using hwant
        · exact ih hnone hrest

end Walks

/-! ### Tables that a search can rely on -/

/-- A search from the home of an entry comes to the entry. -/
structure Probed (n : ℕ) (home : α → ℕ) (t : Table α) : Prop where
  length : t.length = n
  reach : ∀ p e, t.slot p = some e → Leads n t.occ (home e) p

section Probed

variable {t : Table α} {home : α → ℕ} {want : α → Bool}

lemma probed_replicate (n : ℕ) (home : α → ℕ) : Probed n home (List.replicate n none) where
  length := List.length_replicate
  reach p e he := by
    have hmem := mem_entries.2 ⟨p, he⟩
    rw [entries_replicate] at hmem
    cases hmem

/-- **A search finds a wanted entry** if there is one with the home at which it begins, and ends otherwise. -/
theorem Probed.search_spec (want : α → Bool) (ht : Probed n home t) (hroom : t.entries.length < n) (hh : h < n)
    (hwant : ∀ e ∈ t.entries, want e = true → home e = h) :
    ∃ found, search n t want n h = some found ∧ (found = none → ∀ e ∈ t.entries, want e = false) ∧
      ∀ x, found = some x → t.slot x.1 = some x.2 ∧ want x.2 = true := by
  obtain ⟨r, hr, hfree⟩ := exists_free (ht.length.symm ▸ hroom)
  obtain ⟨k, hk, rfl⟩ := exists_cell hh (ht.length ▸ hr)
  obtain ⟨found, hfound⟩ := exists_search want hh hfree hk
  refine ⟨found, hfound, fun hnone e he => ?_, fun ⟨q, e⟩ hx => of_search_some (hx ▸ hfound)⟩
  by_contra hne
  have hwanted : want e = true := by simpa using hne
  obtain ⟨p, hp⟩ := mem_entries.1 he
  have hlead := ht.reach p e hp
  rw [hwant e he hwanted] at hlead
  subst hnone
  rw [of_search_none hfound hlead hp] at hwanted
  cases hwanted

/-- An entry goes to the first free cell from its home on. -/
def insert (n : ℕ) (home : α → ℕ) (t : Table α) (e : α) : Option (Table α) :=
  (firstFree n t n (home e)).map fun p => t.set p (some e)

theorem Probed.insert_spec (ht : Probed n home t) (hroom : t.entries.length < n) (he : home e < n) :
    ∃ t', insert n home t e = some t' ∧ Probed n home t' ∧ t'.entries.Perm (e :: t.entries) := by
  obtain ⟨r, hr, hfree⟩ := exists_free (ht.length.symm ▸ hroom)
  obtain ⟨k, hk, rfl⟩ := exists_cell he (ht.length ▸ hr)
  obtain ⟨q, hq⟩ := exists_firstFree he hfree hk
  obtain ⟨hlead, hqfree⟩ := of_firstFree hq
  have hqt : q < t.length := ht.length.symm ▸ hlead.lt he
  refine ⟨t.set q (some e), by rw [insert, hq]; rfl, ⟨by rw [List.length_set, ht.length], fun p x hx => ?_⟩,
    entries_set_some hqt hqfree⟩
  have hsub : t.occ ⊆ occ (t.set q (some e)) := by
    rw [occ_set_some hqt]
    exact Set.subset_insert _ _
  rw [slot_set _ hqt] at hx
  split at hx
  next hp => cases hx; subst hp; exact hlead.mono hsub
  next => exact (ht.reach p x hx).mono hsub

end Probed

/-! ### Removal -/

/-- The last of the occupied cells in a row behind the hole, of which `p` is one or the first behind. -/
def runEnd (n : ℕ) (t : Table α) (hole : ℕ) : ℕ → ℕ → Option ℕ
  | 0, _ => none
  | fuel + 1, p => if (t.slot p).isSome ∧ p ≠ hole then runEnd n t hole fuel (next n p) else some (prev n p)

/-- From `p` back to the hole, the first entry that belongs into the hole moves there, and the hole is where it was. -/
def moveOne (n : ℕ) (home : α → ℕ) (t : Table α) (hole : ℕ) : ℕ → ℕ → Option (ℕ × Table α)
  | 0, _ => none
  | fuel + 1, p =>
    if p = hole then some (hole, t)
    else
      match t.slot p with
      | none => none
      | some e =>
        match firstFree n t n (home e) with
        | none => none
        | some q =>
          if q = hole then some (p, (t.set hole (some e)).set p none) else moveOne n home t hole fuel (prev n p)

/-- Entries move until none belongs into the hole. -/
def plug (n : ℕ) (home : α → ℕ) (stop : ℕ) : ℕ → Table α → ℕ → Option (Table α)
  | 0, _, _ => none
  | fuel + 1, t, hole =>
    match moveOne n home t hole n stop with
    | none => none
    | some (p, t) => if p = hole then some t else plug n home stop fuel t p

/-- The entry at `p` is taken out. -/
def removeAt (n : ℕ) (home : α → ℕ) (t : Table α) (p : ℕ) : Option (Table α) :=
  match runEnd n (t.set p none) p n (next n p) with
  | none => none
  | some stop => plug n home stop n (t.set p none) p

/-- From `p` on, `m` more cells of `S` stand in a row. -/
structure Run (n : ℕ) (S : Set ℕ) (p m : ℕ) : Prop where
  lt : m < n
  mem : ∀ k ≤ m, cell n p k ∈ S
  notMem : cell n p (m + 1) ∉ S

/-- A table with a hole: it is searched as if the hole were occupied. The cells `S` stay the same as entries move. -/
structure Hole (n : ℕ) (home : α → ℕ) (S : Set ℕ) (t : Table α) (p : ℕ) : Prop where
  length : t.length = n
  lt : p < n
  mem : p ∈ S
  occ : t.occ = S \ {p}
  reach : ∀ q e, t.slot q = some e → Leads n S (home e) q

section Removal

variable {t : Table α} {home : α → ℕ}

lemma Run.cell_mem_occ (run : Run n S p m) (hp : p < n) (hocc : t.occ = S \ {p}) (hk : 0 < k) (hkm : k ≤ m) :
    ∃ e, t.slot (cell n p k) = some e := by
  have hmem : cell n p k ∈ t.occ := hocc ▸ ⟨run.mem k hkm, cell_ne hp hk (hkm.trans_lt run.lt)⟩
  exact Option.ne_none_iff_exists'.1 hmem

/-- Behind a hole there is a row of occupied cells, perhaps none, that ends at a free cell. -/
lemma Hole.exists_run (ht : Hole n home S t p) (hr : r < n) (hrS : r ∉ S) : ∃ m, Run n S p m := by
  obtain ⟨k, hk, rfl⟩ := exists_cell ht.lt hr
  have hex : ∃ k, cell n p k ∉ S := ⟨k, hrS⟩
  classical
  obtain ⟨m, hm⟩ : ∃ m, Nat.find hex = m + 1 := by
    refine Nat.exists_eq_succ_of_ne_zero fun hzero => ?_
    have hout := Nat.find_spec hex
    rw [hzero, cell_zero ht.lt] at hout
    exact hout ht.mem
  refine ⟨m, ?_, fun j hj => ?_, hm ▸ Nat.find_spec hex⟩
  · have := Nat.find_min' hex hrS
    omega
  · have := Nat.find_min hex (m := j) (by omega)
    simpa using this

lemma Run.runEnd_eq (run : Run n S p m) (hp : p < n) (hocc : t.occ = S \ {p}) (hk : k ≤ m) (hfuel : m < fuel + k) :
    runEnd n t p fuel (cell n p (k + 1)) = some (cell n p m) := by
  induction fuel generalizing k with
  | zero => omega
  | succ fuel ih =>
    unfold runEnd
    rcases Nat.lt_or_eq_of_le hk with hlt | rfl
    · obtain ⟨e, he⟩ := run.cell_mem_occ hp hocc (Nat.succ_pos k) hlt
      rw [if_pos ⟨by rw [he]; rfl, cell_ne hp (Nat.succ_pos k) (by have := run.lt; omega)⟩, next_cell]
      exact ih hlt (by omega)
    · have hfree : t.slot (cell n p (k + 1)) = none := by
        by_contra hslot
        have hmem : cell n p (k + 1) ∈ t.occ := hslot
        rw [hocc] at hmem
        exact run.notMem hmem.1
      rw [if_neg (by simp [hfree]), prev_cell (by omega)]

/-- What `moveOne` comes to on its way back over the row. -/
lemma Run.moveOne_eq (run : Run n S p m) (hp : p < n) (hocc : t.occ = S \ {p})
    (hfirst : ∀ e, ∃ q, firstFree n t n (home e) = some q) (hk : k ≤ m) (hfuel : k < fuel) :
    (moveOne n home t p fuel (cell n p k) = some (p, t) ∧
      ∀ j, 0 < j → j ≤ k → ∀ e, t.slot (cell n p j) = some e → firstFree n t n (home e) ≠ some p) ∨
    ∃ j e, 0 < j ∧ j ≤ k ∧ t.slot (cell n p j) = some e ∧ firstFree n t n (home e) = some p ∧
      moveOne n home t p fuel (cell n p k) = some (cell n p j, (t.set p (some e)).set (cell n p j) none) := by
  induction fuel generalizing k with
  | zero => omega
  | succ fuel ih =>
    unfold moveOne
    cases k with
    | zero => exact .inl ⟨by rw [cell_zero hp, if_pos rfl], fun j hj hj0 => by omega⟩
    | succ k =>
      obtain ⟨e, he⟩ := run.cell_mem_occ hp hocc (Nat.succ_pos k) hk
      obtain ⟨q, hq⟩ := hfirst e
      rw [if_neg (cell_ne hp (Nat.succ_pos k) (hk.trans_lt run.lt))]
      simp only [he, hq, prev_cell (p := p) (k := k) (show 0 < n by omega)]
      by_cases hqp : q = p
      · subst hqp
        exact .inr ⟨k + 1, e, Nat.succ_pos k, le_rfl, he, hq, if_pos rfl⟩
      · rw [if_neg hqp]
        rcases ih (k := k) (by omega) (by omega) with ⟨hmove, hnone⟩ | ⟨j, x, hj, hjk, hrest⟩
        · refine .inl ⟨hmove, fun j hj hjk x hx => ?_⟩
          rcases Nat.lt_or_eq_of_le hjk with hlt | rfl
          · exact hnone j hj (by omega) x hx
          · rw [he] at hx
            cases hx
            rw [hq]
            exact fun heq => hqp (Option.some.inj heq)
        · exact .inr ⟨j, x, hj, by omega, hrest⟩

/-- A probe that goes on behind the hole stays in the row until it is outside. -/
lemma Run.cell_of_leads (run : Run n S p m) (hlead : Leads n (S \ {p}) (next n p) q) :
    ∃ k, 0 < k ∧ k ≤ m + 1 ∧ q = cell n p k := by
  induction hlead with
  | refl => exact ⟨1, Nat.one_pos, by omega, rfl⟩
  | @tail b c _ hbc ih =>
    obtain ⟨⟨hbS, -⟩, rfl⟩ := hbc
    obtain ⟨k, hk, hkm, rfl⟩ := ih
    have hne : k ≠ m + 1 := by
      rintro rfl
      exact run.notMem hbS
    exact ⟨k + 1, Nat.succ_pos k, by omega, next_cell n p k⟩

variable (hhome : ∀ e, home e < n)

include hhome in
/-- With a hole there is a free cell: the hole. -/
lemma Hole.firstFree_eq_hole_iff (ht : Hole n home S t p) :
    firstFree n t n (home e) = some p ↔ Leads n (S \ {p}) (home e) p := by
  have hfree : t.slot p = none := by
    by_contra hslot
    have hmem : p ∈ t.occ := hslot
    rw [ht.occ] at hmem
    exact hmem.2 rfl
  rw [firstFree_eq_some_iff (hhome e) ht.lt hfree, ht.occ, and_iff_left hfree]

include hhome in
/-- **A hole that no later entry of the row belongs into is a free cell like another.** -/
lemma Hole.close (ht : Hole n home S t p) (run : Run n S p m)
    (hnone : ∀ j, 0 < j → j ≤ m → ∀ e, t.slot (cell n p j) = some e → firstFree n t n (home e) ≠ some p) :
    Probed n home t := by
  refine ⟨ht.length, fun q e he => ?_⟩
  rw [ht.occ]
  rcases (ht.reach q e he).avoid p with hlead | ⟨hhole, hrest⟩
  · exact hlead
  exfalso
  obtain ⟨k, hk, hkm, rfl⟩ := run.cell_of_leads hrest
  have hocc := mem_occ_of_slot he
  rw [ht.occ] at hocc
  have hne : k ≠ m + 1 := by
    rintro rfl
    exact run.notMem hocc.1
  exact hnone k hk (by omega) e he ((ht.firstFree_eq_hole_iff hhome).2 hhole)

include hhome in
/-- **An entry that moves into the hole leaves one behind**, in the same cells. -/
lemma Hole.move (ht : Hole n home S t p) (run : Run n S p m) (hk : 0 < k) (hkm : k ≤ m)
    (he : t.slot (cell n p k) = some e) (hfirst : firstFree n t n (home e) = some p) :
    Hole n home S ((t.set p (some e)).set (cell n p k) none) (cell n p k) ∧ Run n S (cell n p k) (m - k) ∧
      (entries ((t.set p (some e)).set (cell n p k) none)).Perm t.entries := by
  have hkn : k < n := hkm.trans_lt run.lt
  have hne := cell_ne ht.lt hk hkn
  have hcell : cell n p k < n := cell_lt (by omega)
  have hpt : p < t.length := ht.length.symm ▸ ht.lt
  have hct : cell n p k < (t.set p (some e)).length := by rw [List.length_set, ht.length]; exact hcell
  have hpfree : t.slot p = none := (of_firstFree hfirst).2
  have hmoved : slot (t.set p (some e)) (cell n p k) = some e := by rw [slot_set _ hpt, if_neg hne, he]
  refine ⟨⟨by rw [List.length_set, List.length_set, ht.length], hcell, run.mem k hkm, ?_, fun q x hx => ?_⟩,
    ⟨by have := run.lt; omega, fun j hj => ?_, ?_⟩, ?_⟩
  · rw [occ_set_none hct, occ_set_some hpt, ht.occ, Set.insert_sdiff_self_of_mem ht.mem]
  · rw [slot_set _ hct] at hx
    split at hx
    · cases hx
    rw [slot_set _ hpt] at hx
    split at hx
    next hqp =>
      cases hx
      exact hqp ▸ ((ht.firstFree_eq_hole_iff hhome).1 hfirst).mono Set.sdiff_subset
    next => exact ht.reach q x hx
  · rw [cell_cell]
    exact run.mem _ (by omega)
  · rw [cell_cell, show k + (m - k + 1) = m + 1 by omega]
    exact run.notMem
  · exact (List.perm_cons e).1 ((entries_set_none hmoved).trans (entries_set_some hpt hpfree))

include hhome in
lemma Hole.plug_spec (ht : Hole n home S t p) (run : Run n S p m) (hfuel : m < fuel) :
    ∃ t', plug n home (cell n p m) fuel t p = some t' ∧ Probed n home t' ∧ t'.entries.Perm t.entries := by
  induction fuel generalizing t p m with
  | zero => omega
  | succ fuel ih =>
    have hfirst : ∀ e, ∃ q, firstFree n t n (home e) = some q := by
      intro e
      obtain ⟨k, hk, hcell⟩ := exists_cell (hhome e) ht.lt
      refine exists_firstFree (hhome e) ?_ hk
      by_contra hslot
      have hmem : cell n (home e) k ∈ t.occ := hslot
      rw [ht.occ] at hmem
      exact hmem.2 hcell
    unfold plug
    rcases run.moveOne_eq ht.lt ht.occ hfirst le_rfl run.lt with ⟨hmove, hnone⟩ | ⟨k, e, hk, hkm, he, hset, hmove⟩
    · exact ⟨t, by simp [hmove], ht.close hhome run hnone, .refl _⟩
    · obtain ⟨ht', run', hperm⟩ := ht.move hhome run hk hkm he hset
      obtain ⟨t', hplug, hprobed, hperm'⟩ := ih ht' run' (by omega)
      rw [cell_cell, Nat.add_sub_cancel' hkm] at hplug
      refine ⟨t', ?_, hprobed, hperm'.trans hperm⟩
      simp only [hmove, if_neg (cell_ne ht.lt hk (hkm.trans_lt run.lt))]
      exact hplug

include hhome in
/-- **Removal takes out one entry and keeps the table searchable.** -/
theorem Probed.removeAt_spec (ht : Probed n home t) (hroom : t.entries.length < n) (he : t.slot p = some e) :
    ∃ t', removeAt n home t p = some t' ∧ Probed n home t' ∧ (e :: t'.entries).Perm t.entries := by
  obtain ⟨r, hr, hfree⟩ := exists_free (ht.length.symm ▸ hroom)
  have hpt := lt_of_slot he
  have hole : Hole n home t.occ (t.set p none) p := by
    refine ⟨by rw [List.length_set, ht.length], ht.length ▸ hpt, mem_occ_of_slot he, occ_set_none hpt, ?_⟩
    intro q x hx
    rw [slot_set _ hpt] at hx
    split at hx
    · cases hx
    · exact ht.reach q x hx
  obtain ⟨m, run⟩ := hole.exists_run (ht.length ▸ hr) (by simpa using hfree)
  obtain ⟨t', hplug, hprobed, hperm⟩ := hole.plug_spec hhome run run.lt
  have hend : runEnd n (t.set p none) p n (next n p) = some (cell n p m) :=
    run.runEnd_eq hole.lt hole.occ (Nat.zero_le m) run.lt
  refine ⟨t', ?_, hprobed, (hperm.cons e).trans (entries_set_none he)⟩
  rw [removeAt, hend]
  exact hplug

end Removal

end Two09.Lib.Probing
