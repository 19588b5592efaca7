import Two09.Exec.Lines
import Two09.Lib.Trace
import Two09.Store.Address

/-!
# Timers

The units that `snapshot_install_timer` writes for a path and that `snapshot_remove_timer` takes away. Their names
come from the path by `sanitize_path_for_name`, which does not keep all paths apart.
-/

namespace Two09.Snapshot

open Two09.Lib Two09.Lib.Posix Two09.Store

/-! ### Units -/

/-- The files in `/etc/systemd/system`. -/
abbrev Units := Name → Option Bytes

/-- `unit_base`, in a buffer of `PATH_MAX` bytes. -/
def unitBase (path : Path) : Option Name := do
  let sanitized ← sanitizePathForName path
  let base := ascii "2O9-snap-" ++ sanitized
  if pathMax ≤ base.length then none else some base

/-- What `svc_path` and `timer_path` name in the directory: a path that does not fit is cut. -/
def unitFile (base suffix : Name) : Name :=
  (base ++ suffix).take (pathMax - 1 - (ascii "/etc/systemd/system/").length)

def service : Name := ascii ".service"
def timer : Name := ascii ".timer"

/-- `system()`. A line that the shell splits as intended makes systemd reload, or enable or disable a timer, which
leaves the unit files as they are; what becomes of them with another line is left open. -/
structure Host where
  stray : Exec.Call → Units → Units

def Host.system (sh : Host) (call : Exec.Call) (units : Units) : Units :=
  if call.Literal then units else sh.stray call units

/-- A call of `snapshot_install_timer`: its arguments, the path of the program, and whether the two files can be
opened as far as that is not a matter of their names. -/
structure Installation where
  path : Path
  schedule : Bytes
  user : Option Bytes
  bin : Path
  serviceOpens : Bool
  timerOpens : Bool

/-- The service file. -/
def Installation.serviceText (i : Installation) : Bytes :=
  ascii "[Unit]\nDescription=2O9 snapshot of " ++ i.path ++ ascii "\n\n[Service]\nType=oneshot\n" ++
    (match i.user with
      | none => []
      | some user => if user = ascii "root" then [] else ascii "User=" ++ user ++ ascii "\n") ++
    ascii "ExecStart=" ++ i.bin ++ ascii " snapshot take " ++ i.path ++ ascii "\n"

/-- The timer file. -/
def Installation.timerText (i : Installation) : Bytes :=
  ascii "[Unit]\nDescription=2O9 snapshot timer for " ++ i.path ++ ascii "\n\n[Timer]\nOnCalendar=" ++
    i.schedule ++ ascii "\nPersistent=true\n\n[Install]\nWantedBy=timers.target\n"

/-- `snapshot_install_timer`, and whether it returns 0. -/
def snapshotInstallTimer (sh : Host) (i : Installation) (units : Units) : Units × Bool :=
  match unitBase i.path with
  | none => (units, false)
  | some base =>
    if i.schedule ∉ [ascii "hourly", ascii "daily", ascii "weekly"] then (units, false)
    else if nameMax < (unitFile base service).length ∨ i.serviceOpens = false then (units, false)
    else
      let written : Units := Function.update units (unitFile base service) (some i.serviceText)
      if nameMax < (unitFile base timer).length ∨ i.timerOpens = false then
        (Function.update written (unitFile base service) none, false)
      else
        (sh.system (.snapshotInstallTimer base) (Function.update written (unitFile base timer) (some i.timerText)), true)

/-- `snapshot_remove_timer`, and whether it returns 0. -/
def snapshotRemoveTimer (sh : Host) (path : Path) (units : Units) : Units × Bool :=
  match unitBase path with
  | none => (units, false)
  | some base =>
    let disabled := sh.system (.snapshotRemoveTimer base) units
    (Function.update (Function.update disabled (unitFile base service) none) (unitFile base timer) none, true)

/-- What can be done to timers. -/
inductive TimerOp
  | install (i : Installation)
  | remove (path : Path)

/-- The path an operation is for. -/
def TimerOp.path : TimerOp → Path
  | install i => i.path
  | remove path => path

def TimerOp.step (sh : Host) (units : Units) : TimerOp → Units
  | install i => (snapshotInstallTimer sh i units).1
  | remove path => (snapshotRemoveTimer sh path units).1

/-! ### Independence -/

/-- The unit files of a path, where a file can have such a name. -/
def unitFiles (path : Path) : List Name :=
  match unitBase path with
  | none => []
  | some base => [unitFile base service, unitFile base timer].filter (·.length ≤ nameMax)

/-- The units of two paths have different names, and in no run does an operation for the one change or remove a unit
of the other. -/
def Independent (p q : Path) : Prop :=
  (∀ base, unitBase p = some base → unitBase q ≠ some base) ∧
    ∀ sh units ops, AtEach (TimerOp.step sh)
      (fun units op => op.path = q → ∀ f ∈ unitFiles p, op.step sh units f = units f) units ops

/-- What stands for a dash in the name of a unit. -/
def Dashed (c : UInt8) : Prop := c ∈ [slash, 0, 32, 9, 10, 45]

instance : DecidablePred Dashed := fun c => inferInstanceAs (Decidable (c ∈ [slash, 0, 32, 9, 10, 45]))

/-- The path from its first byte that is no dash, as far as `PATH_MAX` allows. -/
def significant (path : Path) : Bytes := (path.take (pathMax - 1)).dropWhile fun c => decide (Dashed c)

/-- Two paths that differ only in what stands for dashes. -/
def Alike (p q : Path) : Prop :=
  List.Forall₂ (fun a b => a = b ∨ Dashed a ∧ Dashed b) (significant p) (significant q)

/-- There is nothing in the path that means something to the shell where it stands. -/
def Quiet (path : Path) : Prop := ∀ c ∈ significant path, Dashed c ∨ Lib.Shell.kind false c = .inert

/-- The name of the units of a path does not fit into a path. -/
def Endless (path : Path) : Prop := pathMax ≤ (ascii "2O9-snap-").length + (significant path).length

instance (path : Path) : Decidable (Endless path) := by unfold Endless; infer_instance

/-- No file can have the name of a unit of the path. -/
def Unnamable (path : Path) : Prop := nameMax < (ascii "2O9-snap-").length + (significant path).length + timer.length

/-! ### Names -/

/-- A byte of a path in the name of a unit. -/
def dashed (c : UInt8) : UInt8 := if Dashed c then 45 else c

section
variable {p q path : Path} {base base' : Name} {sh : Host} {units : Units}

lemma dashed_eq_iff {a b : UInt8} : dashed a = dashed b ↔ a = b ∨ Dashed a ∧ Dashed b := by
  have hdash : Dashed 45 := by decide
  unfold dashed
  split_ifs with ha hb hb
  · exact iff_of_true rfl (.inr ⟨ha, hb⟩)
  · refine iff_of_false ?_ ?_
    · rintro rfl
      exact hb hdash
    · rintro (rfl | ⟨-, hb'⟩)
      · exact hb ha
      · exact hb hb'
  · refine iff_of_false ?_ ?_
    · rintro rfl
      exact ha hdash
    · rintro (rfl | ⟨ha', -⟩)
      · exact ha hb
      · exact ha ha'
  · exact (or_iff_left fun h => ha h.1).symm

lemma dashed_eq_dash {c : UInt8} : dashed c = 45 ↔ Dashed c := by
  have hself : dashed 45 = 45 := by decide
  rw [← hself, dashed_eq_iff]
  constructor
  · rintro (rfl | ⟨h, -⟩)
    · decide
    · exact h
  · exact fun h => .inr ⟨h, by decide⟩

/-- Two paths get the same name exactly when they differ only in what stands for dashes. -/
lemma map_dashed_eq_iff : (significant p).map dashed = (significant q).map dashed ↔ Alike p q := by
  unfold Alike
  rw [← List.forall₂_eq_eq_eq, List.forall₂_map_left_iff, List.forall₂_map_right_iff]
  simp only [dashed_eq_iff]

/-- What a path that is accepted becomes. -/
lemma sanitizePathForName_eq (h : (sanitizePathForName path).isSome) :
    sanitizePathForName path = some ((significant path).map dashed) := by
  have hmap : ∀ l : Bytes, (l.map fun c => if c = slash ∨ c = 0 ∨ c = 32 ∨ c = 9 ∨ c = 10 then 45 else c) =
      l.map dashed := by
    refine fun l => List.map_congr_left fun c _ => ?_
    unfold dashed Dashed
    simp only [List.mem_cons, List.not_mem_nil, or_false]
    split_ifs with h1 h2 h2
    · rfl
    · exact absurd (by tauto) h2
    · exact (by tauto : c = 45)
    · rfl
  unfold sanitizePathForName at h ⊢
  simp only [hmap] at h ⊢
  have hdrop : ((path.take (pathMax - 1)).map dashed).dropWhile (· = 45) = (significant path).map dashed := by
    rw [List.dropWhile_map]
    unfold significant
    congr 2
    funext c
    exact decide_eq_decide.2 dashed_eq_dash
  rw [hdrop] at h ⊢
  split_ifs at h ⊢
  · cases h
  · cases h
  · rfl

lemma unitBase_eq (h : (sanitizePathForName path).isSome) :
    unitBase path = if Endless path then none else some (ascii "2O9-snap-" ++ (significant path).map dashed) := by
  unfold unitBase Endless
  rw [sanitizePathForName_eq h]
  simp only [Option.bind_eq_bind, Option.bind_some, List.length_append, List.length_map]

/-! ### Files -/

lemma unitFile_eq {suffix : Name} (h : (unitFile base suffix).length ≤ nameMax) :
    unitFile base suffix = base ++ suffix := by
  unfold unitFile at h ⊢
  refine List.take_of_length_le ?_
  rw [List.length_take] at h
  have hroom : nameMax < pathMax - 1 - (ascii "/etc/systemd/system/").length := by decide
  omega

/-- Units of different names have different files. -/
lemma notMem_unitFiles (hne : unitBase p ≠ some base) {f : Name} (hf : f ∈ unitFiles p) {suffix : Name}
    (hsuffix : suffix ∈ [service, timer]) (hlen : (unitFile base suffix).length ≤ nameMax) :
    f ≠ unitFile base suffix := by
  rintro rfl
  unfold unitFiles at hf
  cases hp : unitBase p with
  | none =>
    rw [hp] at hf
    cases hf
  | some base' =>
    rw [hp] at hf hne
    obtain ⟨hmem, -⟩ := List.mem_filter.1 hf
    have hend : ∀ {a b : Name}, a ++ service = b ++ timer → False := by
      intro a b hab
      have hlast := congrArg List.getLast? hab
      have hservice : service.getLast? = some 101 := by decide
      have htimer : timer.getLast? = some 114 := by decide
      rw [List.getLast?_append, List.getLast?_append, hservice, htimer] at hlast
      exact absurd (Option.some.inj hlast) (by decide)
    have hbase : ∃ suffix' ∈ [service, timer], unitFile base suffix = unitFile base' suffix' := by
      rcases List.mem_cons.1 hmem with h | h
      · exact ⟨service, by simp, h⟩
      · exact ⟨timer, by simp, List.mem_singleton.1 h⟩
    obtain ⟨suffix', hsuffix', heq⟩ := hbase
    have hlen' : (unitFile base' suffix').length ≤ nameMax := heq ▸ hlen
    rw [unitFile_eq hlen, unitFile_eq hlen'] at heq
    simp only [List.mem_cons, List.not_mem_nil, or_false] at hsuffix hsuffix'
    rcases hsuffix with rfl | rfl <;> rcases hsuffix' with rfl | rfl
    · exact hne (congrArg some (List.append_cancel_right heq).symm)
    · exact hend heq
    · exact hend heq.symm
    · exact hne (congrArg some (List.append_cancel_right heq).symm)

/-! ### Command lines -/

/-- The two calls of `system()` with the name of a unit in them. -/
def unitCalls (base : Name) : List Exec.Call := [.snapshotInstallTimer base, .snapshotRemoveTimer base]

lemma literal_unitCall (hlen : base.length < pathMax) {call : Exec.Call} (hcall : call ∈ unitCalls base) :
    call.Literal ↔ (Lib.Shell.Item.bare (base ++ timer)).Harmless := by
  have hnot : ¬(call.refusesLong = true ∧ call.TooLong) ∧ ¬call.TooLong := by
    have hshort : ¬call.TooLong := by
      unfold pathMax at hlen
      simp only [unitCalls, List.mem_cons, List.not_mem_nil, or_false] at hcall
      rcases hcall with rfl | rfl <;>
        simp [Exec.Call.TooLong, Exec.Call.bufferSize, Exec.Call.items, Lib.Shell.line, Lib.Shell.spaced,
          Lib.Shell.Item.render, ascii] <;> omega
    exact ⟨fun h => hshort h.2, hshort⟩
  rw [Exec.Call.literal_iff_harmless hnot.1, and_iff_right hnot.2]
  -- the line is fixed text but for the name
  have hitems : ∀ t t' : Bytes, (∀ i ∈ [Lib.Shell.Item.text t, .bare (base ++ timer), .text t'], i.Harmless) ↔
      (Lib.Shell.Item.bare (base ++ timer)).Harmless := by
    intro t t'
    rw [List.forall_mem_cons, List.forall_mem_cons, List.forall_mem_singleton]
    exact ⟨fun h => h.2.1, fun h => ⟨trivial, h, trivial⟩⟩
  simp only [unitCalls, List.mem_cons, List.not_mem_nil, or_false] at hcall
  rcases hcall with rfl | rfl <;> exact hitems _ _

/-- The name of a unit is harmless when the path is quiet. -/
lemma harmless_iff_quiet (path : Path) :
    (Lib.Shell.Item.bare (ascii "2O9-snap-" ++ (significant path).map dashed ++ timer)).Harmless ↔ Quiet path := by
  have hbyte : ∀ c, Lib.Shell.kind false (dashed c) = .inert ↔ Dashed c ∨ Lib.Shell.kind false c = .inert := by
    intro c
    unfold dashed
    split_ifs with h
    · exact iff_of_true (by decide) (.inl h)
    · exact (or_iff_right h).symm
  have hfront : ∀ c ∈ ascii "2O9-snap-", Lib.Shell.kind false c = .inert := by decide +kernel
  have hback : ∀ c ∈ timer, Lib.Shell.kind false c = .inert := by decide +kernel
  have hhead : Lib.Shell.kind true 50 = .inert := by decide
  unfold Lib.Shell.Item.Harmless Quiet
  simp only [List.mem_append, List.mem_map]
  constructor
  · rintro ⟨-, h, -⟩ c hc
    exact (hbyte c).1 (h _ (.inl (.inr ⟨c, hc, rfl⟩)))
  · intro h
    refine ⟨by simp [ascii], ?_, ?_⟩
    · rintro c ((hc | ⟨d, hd, rfl⟩) | hc)
      · exact hfront c hc
      · exact (hbyte d).2 (h d hd)
      · exact hback c hc
    · intro c hc
      obtain rfl : (50 : UInt8) = c := Option.some.inj hc
      exact hhead

/-- The commands for a quiet path do what they are meant to. -/
lemma system_of_quiet (hbase : unitBase path = some base) (hquiet : Quiet path) {call : Exec.Call}
    (hcall : call ∈ unitCalls base) : sh.system call units = units := by
  have hsome : (sanitizePathForName path).isSome := by
    unfold unitBase at hbase
    cases h : sanitizePathForName path with
    | none =>
      rw [h] at hbase
      cases hbase
    | some _ => rfl
  rw [unitBase_eq hsome] at hbase
  split_ifs at hbase with hend
  obtain rfl := Option.some.inj hbase
  have hlen : (ascii "2O9-snap-" ++ (significant path).map dashed).length < pathMax := by
    unfold Endless at hend
    rw [List.length_append, List.length_map]
    omega
  unfold Host.system
  rw [if_pos ((literal_unitCall hlen hcall).2 ((harmless_iff_quiet path).2 hquiet))]

/-- An operation for another name leaves a unit. -/
lemma step_unitFile {op : TimerOp} (hname : ∀ base, unitBase op.path = some base → unitBase p ≠ some base)
    (hquiet : (unitBase op.path).isSome → Quiet op.path) {f : Name} (hf : f ∈ unitFiles p) :
    op.step sh units f = units f := by
  have hlen : f.length ≤ nameMax := by
    unfold unitFiles at hf
    cases hp : unitBase p with
    | none =>
      rw [hp] at hf
      cases hf
    | some base =>
      rw [hp] at hf
      simpa using (List.mem_filter.1 hf).2
  cases hbase : unitBase op.path with
  | none =>
    cases op with
    | install i =>
      replace hbase : unitBase i.path = none := hbase
      simp [TimerOp.step, snapshotInstallTimer, hbase]
    | remove q =>
      replace hbase : unitBase q = none := hbase
      simp [TimerOp.step, snapshotRemoveTimer, hbase]
  | some base =>
    have hother : ∀ suffix ∈ [service, timer], f ≠ unitFile base suffix := by
      intro suffix hsuffix hfile
      exact notMem_unitFiles (hname base hbase) hf hsuffix (hfile ▸ hlen) hfile
    have hservice : f ≠ unitFile base service := hother service (by simp)
    have htimer : f ≠ unitFile base timer := hother timer (by simp)
    have hq : Quiet op.path := hquiet (by rw [hbase]; rfl)
    cases op with
    | install i =>
      replace hbase : unitBase i.path = some base := hbase
      show (snapshotInstallTimer sh i units).1 f = units f
      unfold snapshotInstallTimer
      rw [hbase]
      dsimp only
      split_ifs
      · rfl
      · show Function.update (Function.update units _ _) _ _ f = _
        rw [Function.update_of_ne hservice, Function.update_of_ne hservice]
      · rw [system_of_quiet hbase hq List.mem_cons_self]
        show Function.update (Function.update units _ _) _ _ f = _
        rw [Function.update_of_ne htimer, Function.update_of_ne hservice]
      · rfl
    | remove q =>
      replace hbase : unitBase q = some base := hbase
      show (snapshotRemoveTimer sh q units).1 f = units f
      unfold snapshotRemoveTimer
      rw [hbase]
      show Function.update (Function.update (sh.system _ units) _ _) _ _ f = _
      rw [Function.update_of_ne htimer, Function.update_of_ne hservice,
        system_of_quiet hbase hq (by simp [unitCalls])]

/-! ### When timers are independent -/

lemma mem_unitFiles_timer (hbase : unitBase p = some base) (hlen : ¬ nameMax < base.length + timer.length) :
    unitFile base timer ∈ unitFiles p := by
  unfold unitFiles
  rw [hbase]
  refine List.mem_filter.2 ⟨by simp, decide_eq_true ?_⟩
  unfold unitFile
  rw [List.length_take, List.length_append]
  omega

lemma namable_of_unitFiles (hbase : unitBase p = some base) (h : unitFiles p ≠ []) :
    ¬ nameMax < base.length + timer.length := by
  intro hlong
  refine h ?_
  have hroom : nameMax < pathMax - 1 - (ascii "/etc/systemd/system/").length := by decide
  have hsuffix : timer.length ≤ service.length := by decide
  unfold unitFiles
  rw [hbase]
  simp only [unitFile, List.filter_eq_nil_iff, List.mem_cons, List.not_mem_nil, or_false, forall_eq_or_imp,
    forall_eq, decide_eq_true_eq, List.length_take, List.length_append]
  omega

/-- **The timers of two paths are independent** exactly when the paths differ in more than what stands for dashes, or
have no units, and no operation for the second one runs a command that its path has changed. -/
theorem independent_iff (hp : (sanitizePathForName p).isSome) (hq : (sanitizePathForName q).isSome) :
    Independent p q ↔ (¬ Alike p q ∨ Endless p) ∧ (Quiet q ∨ Endless q ∨ Unnamable p) := by
  have hbasep := unitBase_eq hp
  have hbaseq := unitBase_eq hq
  have hlength : ∀ path : Path, (ascii "2O9-snap-" ++ (significant path).map dashed).length =
      (ascii "2O9-snap-").length + (significant path).length := by simp
  constructor
  · rintro ⟨hnames, hruns⟩
    refine ⟨?_, ?_⟩
    · by_contra hnot
      push Not at hnot
      obtain ⟨halike, hend⟩ := hnot
      -- the one name is the other
      have hmap := map_dashed_eq_iff.2 halike
      have hlen : (significant p).length = (significant q).length := by simpa using congrArg List.length hmap
      have hend' : ¬ Endless q := by
        unfold Endless at hend ⊢
        rwa [← hlen]
      rw [if_neg hend] at hbasep
      rw [if_neg hend', ← hmap] at hbaseq
      exact hnames _ hbasep hbaseq
    · by_contra hnot
      push Not at hnot
      obtain ⟨hloud, hend, hnamable⟩ := hnot
      have hend' : ¬ Endless p := by
        unfold Endless
        unfold Unnamable nameMax at hnamable
        unfold pathMax
        omega
      rw [if_neg hend'] at hbasep
      rw [if_neg hend] at hbaseq
      have hfile : unitFile (ascii "2O9-snap-" ++ (significant p).map dashed) timer ∈ unitFiles p := by
        refine mem_unitFiles_timer hbasep ?_
        rw [hlength]
        exact hnamable
      -- a shell that does away with everything
      have hrun := (hruns ⟨fun _ _ _ => none⟩ (fun _ => some []) [.remove q]).1 rfl _ hfile
      have hshort : (ascii "2O9-snap-" ++ (significant q).map dashed).length < pathMax := by
        rw [hlength]
        exact Nat.lt_of_not_le hend
      have hstray : ¬ (Exec.Call.snapshotRemoveTimer (ascii "2O9-snap-" ++ (significant q).map dashed)).Literal := by
        intro hlit
        have hharmless := (literal_unitCall hshort (List.mem_cons_of_mem _ List.mem_cons_self)).1 hlit
        exact hloud ((harmless_iff_quiet q).1 hharmless)
      replace hrun : (snapshotRemoveTimer ⟨fun _ _ _ => none⟩ q fun _ => some []).1 _ = some [] := hrun
      unfold snapshotRemoveTimer at hrun
      rw [hbaseq] at hrun
      dsimp only at hrun
      rw [Host.system, if_neg hstray] at hrun
      simp [Function.update_apply] at hrun
  · rintro ⟨hnames, hquiet⟩
    have hne : ∀ base, unitBase q = some base → unitBase p ≠ some base := by
      intro base hbase hbase'
      rw [hbasep] at hbase'
      rw [hbaseq] at hbase
      split_ifs at hbase hbase' with hendq hendp
      refine hnames.elim (fun h => h ?_) hendp
      rw [← map_dashed_eq_iff]
      exact List.append_cancel_left (Option.some.inj (hbase'.trans hbase.symm))
    refine ⟨fun base hbase hbase' => hne base hbase' hbase, fun sh units ops => ?_⟩
    refine atEach_of_forall fun units op hop f hf => step_unitFile (hop ▸ hne) ?_ hf
    intro hsome
    rw [hop] at hsome ⊢
    rcases hquiet with hquiet | hend | hlong
    · exact hquiet
    · rw [hbaseq, if_pos hend] at hsome
      cases hsome
    · -- there is no unit to be changed
      by_cases hend : Endless p
      · rw [if_pos hend] at hbasep
        unfold unitFiles at hf
        rw [hbasep] at hf
        cases hf
      · rw [if_neg hend] at hbasep
        refine absurd ?_ (namable_of_unitFiles hbasep (List.ne_nil_of_mem hf))
        rw [hlength]
        exact hlong

theorem independent_iff_siblings : Independent (ascii "/srv/a") (ascii "/srv/b") ↔
    (¬ Alike (ascii "/srv/a") (ascii "/srv/b") ∨ Endless (ascii "/srv/a")) ∧
      (Quiet (ascii "/srv/b") ∨ Endless (ascii "/srv/b") ∨ Unnamable (ascii "/srv/a")) :=
  independent_iff (by decide +kernel) (by decide +kernel)

/-- The units of `/srv/a` and of `/srv-a` are the same. -/
theorem slash_and_dash_dependent : ascii "/srv/a" ≠ ascii "/srv-a" ∧ (sanitizePathForName (ascii "/srv/a")).isSome ∧
    (sanitizePathForName (ascii "/srv-a")).isSome ∧ ¬ Independent (ascii "/srv/a") (ascii "/srv-a") := by
  refine ⟨by decide, by decide +kernel, by decide +kernel, fun h => ?_⟩
  exact h.1 (ascii "2O9-snap-srv-a") (by decide +kernel) (by decide +kernel)

end

end Two09.Snapshot
