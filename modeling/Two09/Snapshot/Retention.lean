import Two09.Gc.Phases
import Two09.Install.Command
import Two09.Lib.Trace
import Two09.Snapshot.Store

/-!
# Snapshots, shares and `cmd_gc`

The collector takes its roots from the generations only. A snapshot or a share outlives a collection
exactly when a generation happens to keep its store path alive.
-/

namespace Two09.Snapshot

open Two09.Lib Two09.Lib.Posix Two09.Gen Two09.Nar Two09.Store Two09.Gc Two09.Install

/-! ### Operations -/

/-- What a user can do. -/
inductive Op
  | take (t : Take)
  | remove (id : Nat)
  | prune (path : Bytes) (keep : Int)
  | share (t : Share)
  | unshare (hash : Bytes)
  | install (pid : Bytes) (cached : StoreName → Option FileTree) (flt : Faults) (time : Nat)
      (pkgs : List Package)
  | uninstall (flt : Faults) (time : Nat) (name : Bytes)
  | gc

/-- Runs a command on the world. -/
def State.exec {α : Type} (s : State) (p : Prog World Act α) : State :=
  { s with world := (p.run s.world).2 }

section
variable (sh : Shell) (sha256 : Bytes → Bytes)

def step (s : State) : Op → State
  | .take t => (snapshotTake sha256 t s).1
  | .remove id => snapshotRemove s id
  | .prune path keep => snapshotPrune path keep s
  | .share t => (shareTake sha256 t s).1
  | .unshare hash => shareRemove hash s
  | .install pid cached flt time pkgs => s.exec (cmdInstall ⟨sha256, pid, cached⟩ flt time pkgs)
  | .uninstall flt time name => s.exec (cmdRemove flt time name)
  | .gc => { s with world := cmdGc sh none s.world }

end

/-! ### What is to be kept -/

namespace State

variable (s : State) (n : StoreName)

/-- The store path of a row, or a share. -/
def Held : Prop := (∃ r ∈ s.rows, r.storePath = n) ∨ n ∈ s.shares

/-- What is held is in the store, as it was when it was taken. -/
def Intact : Prop :=
  ∀ n, s.Held n → ∃ e, s.copies.lookup n = some e ∧ s.world.store.lookup n = some e

/-- The collector takes none of it for garbage that it can put on a command line. -/
def Spared : Prop :=
  ∀ n, s.Held n → ¬ ((s.world.Dead n ∨ s.world.Orphan n) ∧ n.quotes = 0)

end State

/-- What is held is intact, and `share_remove` takes no row for a share. -/
structure Sound (s : State) : Prop where
  intact : s.Intact
  noShare : ∀ r ∈ s.rows, isShareDir r.storePath.val = false

/-- Nothing but the roots of the collector can go wrong: the names it hands to the shell do not
reopen quotations, and no package is unpacked over what is held (which takes the address of an empty
directory for one with contents). -/
def Harmless (sha256 : Bytes → Bytes) (s : State) : Op → Prop
  | .gc => Tamed s.world
  | .install pid cached _ _ pkgs => ∀ n, s.Held n → Target ⟨sha256, pid, cached⟩ pkgs n →
      (s.world.store.lookup n).any isEmpty = false
  | _ => True

/-! ### Names -/

section Names
variable {sha256 : Bytes → Bytes} {t : Take} {tree : FileTree} {narHash : Bytes} {n : StoreName}

/-- The label of a snapshot is no `share-` label. -/
lemma isShareDir_address (h : t.address sha256 = some (tree, narHash, n)) :
    isShareDir n.val = false := by
  simp only [Take.address, Option.bind_eq_bind, Option.bind_eq_some_iff] at h
  obtain ⟨sanitized, -, tree', -, h⟩ := h
  split_ifs at h
  simp only [Option.bind_eq_some_iff, Option.pure_def, Option.some.injEq, Prod.mk.injEq] at h
  obtain ⟨⟨hash, size⟩, -, m, ⟨name, hname, hm⟩, -, -, rfl⟩ := h
  have hval : m.val = name := by
    unfold entryName? at hm
    split_ifs at hm
    cases hm
    rfl
  simp only [computeSnapshotStorePath] at hname
  split_ifs at hname
  cases hname
  have hlen := length_hash32 (sha256 (fingerprint hash (ascii "snap-" ++ sanitized)))
  have hdrop : m.val.drop 33 = ascii "snap-" ++ sanitized := by
    rw [hval, addressed]
    exact List.drop_left' (by rw [List.length_append, hlen]; rfl)
  have hprefix : (ascii "share-").isPrefixOf (m.val.drop 33) = false := by
    rw [hdrop]
    rfl
  rw [isShareDir, hprefix, Bool.and_false, Bool.false_and]

end Names

/-! ### The operations one by one -/

section Steps
variable {sha256 : Bytes → Bytes} {s : State} {n m : StoreName} {e : Entry}

lemma held_start {w : World} : ¬ (State.start w).Held n := by
  rintro (⟨r, hr, -⟩ | hn)
  · cases hr
  · cases hn

lemma sound_start (w : World) : Sound (State.start w) where
  intact _ hn := absurd hn held_start
  noShare _ hr := by cases hr

/-- An operation on the world that leaves what is held. -/
lemma Sound.world (h : Sound s) {w : World}
    (hkeep : ∀ n e, s.Held n → s.world.store.lookup n = some e → w.store.lookup n = some e) :
    Sound { s with world := w } where
  intact n hn := by
    obtain ⟨e, hc, he⟩ := h.intact n hn
    exact ⟨e, hc, hkeep n e hn he⟩
  noShare := h.noShare

/-- A new entry disturbs nothing that is held. -/
lemma Sound.put (h : Sound s) (hn : s.world.store.lookup n = none) : Sound (s.put n e) := by
  refine Sound.world h fun m e' _ he => ?_
  have hmn : m ≠ n := by
    rintro rfl
    rw [hn] at he
    cases he
  exact (AList.lookup_insert_ne hmn).trans he

/-- Noting what is there agrees with what was noted before. -/
lemma Sound.copied (h : Sound s) (hn : s.world.store.lookup n = some e) :
    Sound (s.copied n) ∧ (s.copied n).copies.lookup n = some e := by
  have hcopied : s.copied n = { s with copies := s.copies.insert n e } := by
    rw [State.copied, hn]
  rw [hcopied]
  refine ⟨⟨fun m hm => ?_, h.noShare⟩, AList.lookup_insert _⟩
  obtain ⟨e', hc, he'⟩ := h.intact m hm
  by_cases hmn : m = n
  · subst hmn
    rw [hn] at he'
    cases he'
    exact ⟨e, AList.lookup_insert _, hn⟩
  · exact ⟨e', (AList.lookup_insert_ne hmn).trans hc, he'⟩

lemma copied_world : (s.copied n).world = s.world ∧ (s.copied n).rows = s.rows ∧
    (s.copied n).shares = s.shares := by
  unfold State.copied
  split <;> exact ⟨rfl, rfl, rfl⟩

/-- Holding fewer paths is no harm. -/
lemma Sound.mono {s' : State} (h : Sound s) (hcopies : s'.copies = s.copies)
    (hheld : ∀ n, s'.Held n → s.Held n ∧ s'.world.store.lookup n = s.world.store.lookup n)
    (hrows : ∀ r ∈ s'.rows, ∃ q ∈ s.rows, q.storePath = r.storePath) : Sound s' where
  intact n hn := by
    obtain ⟨hs, hsame⟩ := hheld n hn
    rw [hcopies, hsame]
    exact h.intact n hs
  noShare r hr := by
    obtain ⟨q, hq, hqr⟩ := hrows r hr
    rw [← hqr]
    exact h.noShare q hq

/-! #### Snapshots -/

lemma Sound.stage {tree : FileTree} (h : Sound s) :
    Sound (s.stage n tree) ∧ ∃ e, (s.stage n tree).world.store.lookup n = some e := by
  unfold State.stage
  cases hn : s.world.store.lookup n with
  | some e => exact ⟨h, e, hn⟩
  | none => exact ⟨h.put hn, _, AList.lookup_insert _⟩

lemma Sound.snapshotTake {t : Take} (h : Sound s) : Sound (snapshotTake sha256 t s).1 := by
  unfold Snapshot.snapshotTake
  cases haddr : t.address sha256 with
  | none => exact h
  | some a =>
    obtain ⟨tree, narHash, n⟩ := a
    obtain ⟨hstage, e, he⟩ : Sound (s.stage n tree) ∧
        ∃ e, (s.stage n tree).world.store.lookup n = some e := h.stage
    simp only
    split_ifs
    · obtain ⟨hcopied, hlookup⟩ := hstage.copied he
      obtain ⟨hworld, hrows, -⟩ := copied_world (s := s.stage n tree) (n := n)
      refine ⟨fun m hm => ?_, fun r hr => ?_⟩
      · rcases hm with ⟨r, hr, rfl⟩ | hm
        · rcases List.mem_append.1 hr with hr | hr
          · exact hcopied.intact _ (.inl ⟨r, hrows ▸ hr, rfl⟩)
          · rw [List.mem_singleton.1 hr]
            exact ⟨e, hlookup, hworld ▸ he⟩
        · exact hcopied.intact m (.inr hm)
      · rcases List.mem_append.1 hr with hr | hr
        · exact hstage.noShare r hr
        · rw [List.mem_singleton.1 hr]
          exact isShareDir_address haddr
    · exact hstage

lemma storePath_orphaned (id : Nat) (r : Row) : (r.orphaned id).storePath = r.storePath := by
  unfold Row.orphaned
  split_ifs <;> rfl

lemma mem_snapshotRemove {id : Nat} {r : Row} (hr : r ∈ (snapshotRemove s id).rows) :
    ∃ q ∈ s.rows, q.storePath = r.storePath := by
  obtain ⟨q, hq, rfl⟩ := List.mem_map.1 hr
  exact ⟨q, (List.mem_filter.1 hq).1, (storePath_orphaned id q).symm⟩

lemma Sound.snapshotRemove (h : Sound s) (id : Nat) : Sound (snapshotRemove s id) := by
  refine h.mono rfl (fun n hn => ⟨?_, rfl⟩) fun r hr => mem_snapshotRemove hr
  rcases hn with ⟨r, hr, rfl⟩ | hn
  · exact .inl (mem_snapshotRemove hr)
  · exact .inr hn

lemma Sound.snapshotPrune (h : Sound s) (path : Bytes) (keep : Int) :
    Sound (snapshotPrune path keep s) := by
  unfold Snapshot.snapshotPrune
  split_ifs
  · exact h
  · simp only
    generalize ((s.rows.filter (·.path = path)).take _).map Row.id = ids
    induction ids generalizing s with
    | nil => exact h
    | cons id ids ih => exact ih (h.snapshotRemove id)

/-! #### Shares -/

lemma Sound.share (h : Sound s) (hn : s.world.store.lookup n = some e) : Sound (s.share n) := by
  obtain ⟨hcopied, hlookup⟩ := h.copied hn
  obtain ⟨hworld, -, hshares⟩ := copied_world (s := s) (n := n)
  refine ⟨fun m hm => ?_, hcopied.noShare⟩
  rcases hm with hm | hm
  · exact hcopied.intact m (.inl hm)
  · rcases List.mem_cons.1 hm with rfl | hm
    · exact ⟨e, hlookup, hworld ▸ hn⟩
    · exact hcopied.intact m (.inr (hshares ▸ hm))

lemma Sound.shareTake {t : Share} (h : Sound s) : Sound (shareTake sha256 t s).1 := by
  unfold Snapshot.shareTake
  cases t.address sha256 with
  | none => exact h
  | some a =>
    obtain ⟨tree, n⟩ := a
    simp only
    cases hn : s.world.store.lookup n with
    | some e =>
      simp only [Option.isSome_some, if_true]
      exact h.share hn
    | none =>
      simp only [Option.isSome_none, Bool.false_eq_true, if_false]
      split_ifs
      · exact (h.put hn).share (AList.lookup_insert _)
      · exact h

lemma Sound.shareRemove (h : Sound s) (hash : Bytes) : Sound (shareRemove hash s) := by
  unfold Snapshot.shareRemove
  cases hfind : findShare hash s with
  | none => exact h
  | some k =>
    have hshare : isShareDir k.val = true := by
      have hk := List.find?_some hfind
      simp only [Bool.and_eq_true] at hk
      exact hk.1
    refine h.mono rfl (fun n hn => ?_) fun r hr => ⟨r, hr, rfl⟩
    have hnk : n ≠ k ∧ s.Held n := by
      rcases hn with ⟨r, hr, rfl⟩ | hn
      · refine ⟨?_, .inl ⟨r, hr, rfl⟩⟩
        rintro rfl
        rw [h.noShare r hr] at hshare
        cases hshare
      · obtain ⟨hn, hk⟩ := List.mem_filter.1 hn
        exact ⟨by simpa using hk, .inr hn⟩
    exact ⟨hnk.2, AList.lookup_erase_ne hnk.1⟩

/-! #### Packages -/

lemma Sound.install {env : Install.Env} {flt : Faults} {time : Nat} {pkgs : List Package}
    (h : Sound s) (hfree : ∀ n, s.Held n → Target env pkgs n →
      (s.world.store.lookup n).any isEmpty = false) :
    Sound (s.exec (cmdInstall env flt time pkgs)) := by
  refine Sound.world h fun n e hn he => ?_
  obtain ⟨hgrows, -⟩ := cmdInstall_ensures env flt time pkgs s.world
  refine (hgrows n e he).2 fun ⟨htarget, hempty⟩ => ?_
  have hfalse := hfree n hn htarget
  rw [he, Option.any_some, hempty] at hfalse
  cases hfalse

lemma Sound.uninstall (h : Sound s) (flt : Faults) (time : Nat) (name : Bytes) :
    Sound (s.exec (cmdRemove flt time name)) := by
  refine Sound.world h fun n e _ he => ?_
  have hstore := (cmdRemove_ensures flt time name s.world).1
  exact hstore ▸ he

/-! #### The collector -/

/-- **A collection keeps what is held exactly when it spares it.** -/
lemma gc_intact_iff (sh : Shell) (h : Sound s) (htame : Tamed s.world) :
    State.Intact { s with world := cmdGc sh none s.world } ↔ s.Spared := by
  constructor
  · intro hintact n hn hgarbage
    obtain ⟨e, -, he⟩ := hintact n hn
    rw [(cmdGc_lookup sh htame n).1 hgarbage] at he
    cases he
  · intro hspared n hn
    obtain ⟨e, hc, he⟩ := h.intact n hn
    exact ⟨e, hc, ((cmdGc_lookup sh htame n).2 (hspared n hn)).trans he⟩

end Steps

/-! ### Whole runs -/

/-- After each collection, what is held is in the store as it was. -/
def Retained (sh : Shell) (sha256 : Bytes → Bytes) : State → List Op → Prop :=
  AtEach (step sh sha256) fun s op => op = .gc → (step sh sha256 s op).Intact

/-- Each collection spares what is held. -/
def AllSpared (sh : Shell) (sha256 : Bytes → Bytes) : State → List Op → Prop :=
  AtEach (step sh sha256) fun s op => op = .gc → s.Spared

/-- A snapshot of an empty directory `/h`, and the store path it gets. -/
def takeH : Take where
  path := ascii "/h"
  scope := ascii "system"
  message := none
  staged := some (.directory [])
  pid := ascii "1"
  time := 0
  inserted := true

def snapH : StoreName := ⟨ascii "00000000000000000000000000000000-snap-h", by decide⟩

lemma keys_takeH :
    (step .inert (fun _ => []) (.start .fresh) (.take takeH)).world.store.keys = [snapH] := by
  decide +kernel

lemma tamed_takeH : Tamed (step .inert (fun _ => []) (.start .fresh) (.take takeH)).world := by
  rintro n (⟨h, -⟩ | ⟨-, h, -⟩)
  · cases h
  · obtain ⟨e, he, -⟩ := (Option.any_eq_true _ _).1 h
    have hn : n ∈ (step .inert (fun _ => []) (.start .fresh) (.take takeH)).world.store.keys :=
      AList.mem_keys.1 (AList.lookup_isSome.1 (by rw [he]; rfl))
    rw [keys_takeH, List.mem_singleton] at hn
    subst hn
    exact .inl (by decide)

end Two09.Snapshot
