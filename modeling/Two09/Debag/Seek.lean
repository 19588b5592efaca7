import Two09.Lib.Timeline

/-!
# The seek history

`s`, `u` and `U` of the static debugger: two stacks of a fixed number of slots beside the current
position. A result of nothing means that some index was outside its stack.
-/

namespace Two09.Debag

open Two09.Lib

/-- `SEEK_HIST_MAX` -/
abbrev seekHistMax : ℕ := 32

/-- One of the two stacks, oldest entry first: only the slots below the count are in use. -/
structure SeekStack where
  slots : List UInt64
  count : ℕ
  length_slots : slots.length = seekHistMax

namespace SeekStack

/-- The entries in use. -/
def entries (s : SeekStack) : List UInt64 := s.slots.take s.count

/-- A stack as the initialiser leaves it. -/
def empty : SeekStack := ⟨List.replicate seekHistMax 0, 0, List.length_replicate⟩

/-- `seek_hist_push`, `redo_stack_push`: a full stack is shifted by one and its last slot written. -/
def push (s : SeekStack) (v : UInt64) : Option SeekStack :=
  if s.count = seekHistMax then
    some ⟨s.slots.tail ++ [v], s.count, by simp [s.length_slots]⟩
  else if s.count < seekHistMax then
    some ⟨s.slots.set s.count v, s.count + 1, by simp [s.length_slots]⟩
  else none

/-- `stack[--count]` -/
def pop (s : SeekStack) : Option (UInt64 × SeekStack) :=
  (s.slots[s.count - 1]?).map fun v => (v, ⟨s.slots, s.count - 1, s.length_slots⟩)

end SeekStack

/-- What `repl_t` holds of the position and its history. -/
structure SeekRepl where
  offset : UInt64
  seekHist : SeekStack
  redoStack : SeekStack

/-- The debugger when it starts, at the entry point of the binary. -/
def SeekRepl.start (entryPoint : UInt64) : SeekRepl := ⟨entryPoint, .empty, .empty⟩

/-- What a command answers. -/
inductive SeekReply
  | moved
  | shown (offset : UInt64)
  | unchanged
  | badExpression
  | noSeekHistory
  | noSeekRedoHistory
  deriving DecidableEq

/-- The commands that move. -/
inductive SeekCmd
  | seek (arg : Option String)
  | undo
  | redo

section Commands

-- `resolve_expr` of the loaded binary, at a position: it changes nothing of the history
variable (resolveExpr : UInt64 → String → Option UInt64)

/-- `cmd_seek` -/
def cmdSeek (r : SeekRepl) (arg : Option String) : Option (SeekReply × SeekRepl) :=
  match arg with
  | none => some (.shown r.offset, r)
  | some expr =>
    match resolveExpr r.offset expr with
    | none => some (.badExpression, r)
    | some v =>
      if v = r.offset then some (.unchanged, r)
      else do
        let seekHist ← r.seekHist.push r.offset
        return (.moved, { offset := v, seekHist, redoStack := { r.redoStack with count := 0 } })

/-- `cmd_seek_undo` -/
def cmdSeekUndo (r : SeekRepl) : Option (SeekReply × SeekRepl) :=
  if r.seekHist.count = 0 then some (.noSeekHistory, r)
  else do
    let (prev, seekHist) ← r.seekHist.pop
    let redoStack ← r.redoStack.push r.offset
    return (.moved, { offset := prev, seekHist, redoStack })

/-- `cmd_seek_redo` -/
def cmdSeekRedo (r : SeekRepl) : Option (SeekReply × SeekRepl) :=
  if r.redoStack.count = 0 then some (.noSeekRedoHistory, r)
  else do
    let (prev, redoStack) ← r.redoStack.pop
    let seekHist ← r.seekHist.push r.offset
    return (.moved, { offset := prev, seekHist, redoStack })

/-- One command. -/
def seekStep (r : SeekRepl) : SeekCmd → Option (SeekReply × SeekRepl)
  | .seek arg => cmdSeek resolveExpr r arg
  | .undo => cmdSeekUndo r
  | .redo => cmdSeekRedo r

/-- The debugger after some commands. -/
def seekRun : List SeekCmd → SeekRepl → Option SeekRepl
  | [], r => some r
  | c :: cs, r => (seekStep resolveExpr r c).bind fun res => seekRun cs res.2

/-- The positions the debugger is at, before the first command and after each. -/
def seekPositions : List SeekCmd → SeekRepl → List UInt64
  | [], r => [r.offset]
  | c :: cs, r => r.offset :: ((seekStep resolveExpr r c).map fun res => seekPositions cs res.2).getD []

end Commands

/-- `k` times a command that is to move every time. -/
def movesBy (f : SeekRepl → Option (SeekReply × SeekRepl)) : ℕ → SeekRepl → Option SeekRepl
  | 0, r => some r
  | k + 1, r =>
    match f r with
    | some (.moved, r') => movesBy f k r'
    | _ => none

/-- The history as one sequence with a position in it. -/
def SeekRepl.history (r : SeekRepl) : Timeline UInt64 where
  past := r.seekHist.entries
  now := r.offset
  future := r.redoStack.entries.reverse

/-- What every command keeps: the two stacks together never fill more than one. -/
structure SeekRepl.Bounded (r : SeekRepl) : Prop where
  count_add_count_le : r.seekHist.count + r.redoStack.count ≤ seekHistMax

/-! ### The stacks -/

namespace SeekStack

variable {s s' : SeekStack} {v : UInt64}

lemma length_entries (h : s.count ≤ seekHistMax) : s.entries.length = s.count := by
  simp [entries, s.length_slots, h]

lemma entries_eq_nil (h : s.count ≤ seekHistMax) : s.entries = [] ↔ s.count = 0 := by
  rw [← List.length_eq_zero_iff, length_entries h]

/-- A push never leaves the stack. -/
lemma push_eq_some (h : s.count ≤ seekHistMax) (v : UInt64) :
    ∃ s', s.push v = some s' ∧ s'.entries = (s.entries ++ [v]).rtake seekHistMax ∧
      s'.count = min (s.count + 1) seekHistMax := by
  unfold push
  by_cases hfull : s.count = seekHistMax
  · rw [if_pos hfull]
    refine ⟨_, rfl, ?_, by simp [hfull]⟩
    have htake : s.slots.take s.count = s.slots := List.take_of_length_le (by rw [s.length_slots, hfull])
    have hne : s.slots ≠ [] := List.ne_nil_of_length_pos (by rw [s.length_slots]; decide)
    have hlen : (s.slots ++ [v]).length - seekHistMax = 1 := by simp [s.length_slots]
    rw [entries, entries, htake, hfull, List.rtake, hlen, List.drop_one, List.tail_append_of_ne_nil hne,
      List.take_of_length_le (by simp [s.length_slots])]
  · have hlt : s.count < seekHistMax := by omega
    rw [if_neg hfull, if_pos hlt]
    refine ⟨_, rfl, ?_, (Nat.min_eq_left hlt).symm⟩
    have hlen : s.count < s.slots.length := by rw [s.length_slots]; exact hlt
    have hshort : (s.entries ++ [v]).length - seekHistMax = 0 := by
      rw [List.length_append, length_entries h, List.length_singleton]
      omega
    rw [List.rtake, hshort, List.drop_zero, entries, entries, List.take_add_one, List.take_set_of_le le_rfl]
    simp [hlen]

/-- Nor does a pop of a stack that has an entry. -/
lemma pop_eq_some (h : s.count ≤ seekHistMax) (hpos : s.count ≠ 0) :
    ∃ v s', s.pop = some (v, s') ∧ s.entries = s'.entries ++ [v] ∧ s.count = s'.count + 1 := by
  have hlen : s.count - 1 < s.slots.length := by rw [s.length_slots]; omega
  refine ⟨s.slots[s.count - 1], ⟨s.slots, s.count - 1, s.length_slots⟩, ?_, ?_, by simp only; omega⟩
  · simp [pop, hlen]
  · obtain ⟨n, hn⟩ := Nat.exists_eq_succ_of_ne_zero hpos
    simp only [entries, hn, Nat.succ_eq_add_one, Nat.add_sub_cancel]
    rw [List.take_add_one]
    simp only [hn, Nat.succ_eq_add_one, Nat.add_sub_cancel] at hlen
    simp [hlen]

end SeekStack

/-! ### The commands on the sequence -/

section Refinement

variable {r r' : SeekRepl} {reply : SeekReply}

namespace SeekRepl.Bounded

lemma hist_le (h : r.Bounded) : r.seekHist.count ≤ seekHistMax :=
  (Nat.le_add_right _ _).trans h.count_add_count_le

lemma redo_le (h : r.Bounded) : r.redoStack.count ≤ seekHistMax :=
  (Nat.le_add_left _ _).trans h.count_add_count_le

lemma length_past (h : r.Bounded) : r.history.past.length = r.seekHist.count :=
  SeekStack.length_entries h.hist_le

lemma start (entryPoint : UInt64) : (SeekRepl.start entryPoint).Bounded := ⟨Nat.zero_le _⟩

end SeekRepl.Bounded

/-- A command of the debugger that is, where it moves, a step along the sequence. -/
def StepsAs (f : SeekRepl → Option (SeekReply × SeekRepl))
    (g : Timeline UInt64 → Option (Timeline UInt64)) : Prop :=
  ∀ r, r.Bounded →
    (g r.history = none ∧ ∃ reply, reply ≠ .moved ∧ f r = some (reply, r)) ∨
      ∃ r', f r = some (.moved, r') ∧ g r.history = some r'.history ∧ r'.Bounded

/-- The push on the other stack finds room: the two counts together are within one stack. -/
lemma push_of_room {s t : SeekStack} (h : s.count + 1 + t.count ≤ seekHistMax) (v : UInt64) :
    ∃ t', t.push v = some t' ∧ t'.entries = t.entries ++ [v] ∧ t'.count = t.count + 1 := by
  obtain ⟨t', ht', hentries, hcount⟩ := t.push_eq_some (by omega) v
  refine ⟨t', ht', ?_, by omega⟩
  have hshort : (t.entries ++ [v]).length - seekHistMax = 0 := by
    rw [List.length_append, SeekStack.length_entries (by omega), List.length_singleton]
    omega
  rw [hentries, List.rtake, hshort, List.drop_zero]

theorem cmdSeekUndo_stepsAs : StepsAs cmdSeekUndo Timeline.back := by
  intro r h
  have hhist := h.hist_le
  by_cases hnil : r.seekHist.count = 0
  · refine .inl ⟨Timeline.back_eq_none.2 ((SeekStack.entries_eq_nil hhist).2 hnil), .noSeekHistory, by simp, ?_⟩
    rw [cmdSeekUndo, if_pos hnil]
  · obtain ⟨v, s', hpop, hentries, hcount⟩ := SeekStack.pop_eq_some hhist hnil
    have hsum := h.count_add_count_le
    obtain ⟨t', hpush, hentries', hcount'⟩ := push_of_room (s := s') (t := r.redoStack) (by omega) r.offset
    refine .inr ⟨⟨v, s', t'⟩, ?_, ?_, ⟨by simp only; omega⟩⟩
    · rw [cmdSeekUndo, if_neg hnil, hpop]
      simp [hpush]
    · rw [Timeline.back_eq_some]
      exact ⟨hentries, by simp [SeekRepl.history, hentries']⟩

theorem cmdSeekRedo_stepsAs : StepsAs cmdSeekRedo Timeline.forth := by
  intro r h
  have hredo := h.redo_le
  by_cases hnil : r.redoStack.count = 0
  · have hfuture : r.history.future = [] := by simp [SeekRepl.history, (SeekStack.entries_eq_nil hredo).2 hnil]
    refine .inl ⟨Timeline.forth_eq_none.2 hfuture, .noSeekRedoHistory, by simp, ?_⟩
    rw [cmdSeekRedo, if_pos hnil]
  · obtain ⟨v, s', hpop, hentries, hcount⟩ := SeekStack.pop_eq_some hredo hnil
    have hsum := h.count_add_count_le
    obtain ⟨t', hpush, hentries', hcount'⟩ := push_of_room (s := s') (t := r.seekHist) (by omega) r.offset
    refine .inr ⟨⟨v, t', s'⟩, ?_, ?_, ⟨by simp only; omega⟩⟩
    · rw [cmdSeekRedo, if_neg hnil, hpop]
      simp [hpush]
    · rw [Timeline.forth_eq_some]
      exact ⟨by simp [SeekRepl.history, hentries], hentries'⟩

/-- A seek is a visit of the position it ends at. -/
theorem cmdSeek_visits (resolveExpr : UInt64 → String → Option UInt64) (h : r.Bounded) (arg : Option String) :
    ∃ reply r', cmdSeek resolveExpr r arg = some (reply, r') ∧ r'.Bounded ∧
      r'.history = r.history.visit seekHistMax r'.offset := by
  have hstay : r.history = r.history.visit seekHistMax r.offset := by simp [Timeline.visit, SeekRepl.history]
  cases arg with
  | none => exact ⟨_, r, rfl, h, hstay⟩
  | some expr =>
    cases hresolve : resolveExpr r.offset expr with
    | none => exact ⟨.badExpression, r, by simp [cmdSeek, hresolve], h, hstay⟩
    | some v =>
      by_cases hv : v = r.offset
      · exact ⟨.unchanged, r, by simp [cmdSeek, hresolve, hv], h, hstay⟩
      · obtain ⟨s', hpush, hentries, hcount⟩ := r.seekHist.push_eq_some h.hist_le r.offset
        refine ⟨.moved, ⟨v, s', { r.redoStack with count := 0 }⟩, ?_, ⟨?_⟩, ?_⟩
        · simp [cmdSeek, hresolve, hv, hpush]
        · simp only [hcount]
          omega
        · simp only [Timeline.visit, SeekRepl.history, hentries]
          exact (if_neg hv).symm

/-- One command stays within the stacks and keeps the bound. -/
theorem seekStep_bounded (resolveExpr : UInt64 → String → Option UInt64) (h : r.Bounded) (c : SeekCmd) :
    ∃ reply r', seekStep resolveExpr r c = some (reply, r') ∧ r'.Bounded := by
  have hmove : ∀ {f g}, StepsAs f g → ∃ reply r', f r = some (reply, r') ∧ r'.Bounded := by
    intro f g hfg
    rcases hfg r h with ⟨-, reply, -, hf⟩ | ⟨r', hf, -, hr'⟩
    · exact ⟨reply, r, hf, h⟩
    · exact ⟨.moved, r', hf, hr'⟩
  cases c with
  | seek arg =>
    obtain ⟨reply, r', hstep, hr', -⟩ := cmdSeek_visits resolveExpr h arg
    exact ⟨reply, r', hstep, hr'⟩
  | undo => exact hmove cmdSeekUndo_stepsAs
  | redo => exact hmove cmdSeekRedo_stepsAs

/-- So does any run. -/
theorem seekRun_bounded (resolveExpr : UInt64 → String → Option UInt64) (h : r.Bounded) (cmds : List SeekCmd) :
    ∃ r', seekRun resolveExpr cmds r = some r' ∧ r'.Bounded := by
  induction cmds generalizing r with
  | nil => exact ⟨r, rfl, h⟩
  | cons c cs ih =>
    obtain ⟨reply, u, hstep, hu⟩ := seekStep_bounded resolveExpr h c
    obtain ⟨r', hrun, hr'⟩ := ih hu
    refine ⟨r', ?_, hr'⟩
    rw [seekRun, hstep]
    exact hrun

/-! ### Several commands -/

/-- A command that moves every time takes as many steps along the sequence. -/
theorem movesBy_history {f g} (hfg : StepsAs f g) (h : r.Bounded) (k : ℕ) :
    (movesBy f k r).map SeekRepl.history = Timeline.steps g k r.history ∧
      ∀ r', movesBy f k r = some r' → r'.Bounded := by
  induction k generalizing r with
  | zero =>
    refine ⟨rfl, ?_⟩
    rintro r' hr'
    obtain rfl : r = r' := by simpa [movesBy] using hr'
    exact h
  | succ k ih =>
    rw [Timeline.steps]
    rcases hfg r h with ⟨hg, reply, hreply, hf⟩ | ⟨u, hf, hg, hu⟩
    · have hnone : movesBy f (k + 1) r = none := by
        rw [movesBy, hf]
        cases reply <;> simp_all
      rw [hg, hnone]
      exact ⟨rfl, by simp⟩
    · have hsome : movesBy f (k + 1) r = movesBy f k u := by rw [movesBy, hf]
      rw [hg, hsome]
      exact ih hu

/-- Commands that move along the sequence both ways undo each other, any number of times. -/
theorem movesBy_inverse {f f' g g'} (hfg : StepsAs f g) (hfg' : StepsAs f' g')
    (hinv : ∀ t u, g t = some u ↔ g' u = some t) (h : r.Bounded) {k : ℕ} (hk : movesBy f k r = some r') :
    ∃ r'', movesBy f' k r' = some r'' ∧ r''.history = r.history := by
  obtain ⟨hmap, hbounded⟩ := movesBy_history hfg h k
  rw [hk, Option.map_some, eq_comm, Timeline.steps_iff hinv] at hmap
  have hmap' := (movesBy_history hfg' (hbounded r' hk) k).1
  rw [hmap, Option.map_eq_some_iff] at hmap'
  exact hmap'

/-- A command that moves along the sequence leaves the sequence as it is. -/
theorem track_eq_of_stepsAs {f g} (hfg : StepsAs f g) (hg : ∀ {t u}, g t = some u → u.track = t.track)
    (h : r.Bounded) (hf : f r = some (reply, r')) : r'.history.track = r.history.track := by
  rcases hfg r h with ⟨-, reply', -, hf'⟩ | ⟨u, hf', hu, -⟩
  · obtain ⟨-, rfl⟩ : reply' = reply ∧ r = r' := by simpa [hf'] using hf
    rfl
  · obtain ⟨-, rfl⟩ : .moved = reply ∧ u = r' := by simpa [hf'] using hf
    exact hg hu

/-- Seeks are visits of the positions they end at. -/
theorem seekRun_seeks (resolveExpr : UInt64 → String → Option UInt64) (h : r.Bounded)
    (args : List (Option String)) :
    ∃ r' vs, seekRun resolveExpr (args.map .seek) r = some r' ∧ r'.Bounded ∧
      seekPositions resolveExpr (args.map .seek) r = r.offset :: vs ∧
      r'.history = vs.foldl (Timeline.visit seekHistMax) r.history := by
  induction args generalizing r with
  | nil => exact ⟨r, [], rfl, h, rfl, rfl⟩
  | cons arg args ih =>
    obtain ⟨reply, u, hstep, hu, hvisit⟩ := cmdSeek_visits resolveExpr h arg
    obtain ⟨r', vs, hrun, hr', hpositions, hfold⟩ := ih hu
    have hseek : seekStep resolveExpr r (.seek arg) = some (reply, u) := hstep
    refine ⟨r', u.offset :: vs, ?_, hr', ?_, ?_⟩
    · rw [List.map_cons, seekRun, hseek]
      exact hrun
    · rw [List.map_cons, seekPositions, hseek, Option.map_some, Option.getD_some, hpositions]
    · rw [hfold, List.foldl_cons, hvisit]

/-- After some seeks the undos lead back through what was visited, each position once where it was sought
again at once, and no further than a stack holds. -/
theorem undo_after_seeks (resolveExpr : UInt64 → String → Option UInt64) (h : r.Bounded)
    (args : List (Option String)) {trail : List UInt64}
    (htrail : trail =
      r.seekHist.entries ++ (seekPositions resolveExpr (args.map .seek) r).destutter (· ≠ ·)) :
    ∃ r', seekRun resolveExpr (args.map .seek) r = some r' ∧
      ∀ k, if k ≤ min seekHistMax (trail.length - 1)
        then ∃ r'', movesBy cmdSeekUndo k r' = some r'' ∧ trail.reverse[k]? = some r''.offset
        else movesBy cmdSeekUndo k r' = none := by
  obtain ⟨r', vs, hrun, hr', hpositions, hfold⟩ := seekRun_seeks resolveExpr h args
  refine ⟨r', hrun, fun k => ?_⟩
  have hpast : r.history.past.length ≤ seekHistMax := by
    rw [h.length_past]
    exact h.hist_le
  have hup : r'.history.upToNow = trail.rtake (seekHistMax + 1) := by
    rw [hfold, Timeline.upToNow_visits vs hpast, htrail, hpositions]
    rfl
  have hne : trail ≠ [] := by
    rw [htrail, hpositions]
    exact List.append_ne_nil_of_right_ne_nil _ (List.destutter'_ne_nil _ _)
  have hlen : r'.history.past.length = min seekHistMax (trail.length - 1) := by
    have hlength := congrArg List.length hup
    have hpos := List.length_pos_of_ne_nil hne
    simp only [Timeline.upToNow, List.length_append, List.length_singleton, List.rtake, List.length_drop]
      at hlength
    omega
  have hmoves := (movesBy_history cmdSeekUndo_stepsAs hr' k).1
  have hsome := Timeline.steps_back_isSome k r'.history
  rw [hlen] at hsome
  split_ifs with hk
  · obtain ⟨t, ht⟩ := Option.isSome_iff_exists.1 (hsome.2 hk)
    rw [ht, Option.map_eq_some_iff] at hmoves
    obtain ⟨r'', hr'', rfl⟩ := hmoves
    refine ⟨r'', hr'', ?_⟩
    have hnow := Timeline.steps_back_now ht
    rw [hup, List.rtake_eq_reverse_take_reverse, List.reverse_reverse, List.getElem?_take] at hnow
    rw [if_pos (by omega)] at hnow
    exact hnow
  · rw [← Option.map_eq_none_iff, hmoves]
    exact Option.not_isSome_iff_eq_none.1 (mt hsome.1 hk)

end Refinement

/-! ### What holds of every run -/

/-- **The seek history.** After any commands the two stacks fit into one and nothing was read or written outside
them; undo and redo move along one sequence, so that they take each other back any number of times; and undos
after seeks lead back through the last positions. -/
theorem seek_history_sound (resolveExpr : UInt64 → String → Option UInt64) (entryPoint : UInt64)
    (cmds : List SeekCmd) :
    ∃ r, seekRun resolveExpr cmds (.start entryPoint) = some r ∧
      r.seekHist.count + r.redoStack.count ≤ seekHistMax ∧
      (∀ reply r', cmdSeekUndo r = some (reply, r') ∨ cmdSeekRedo r = some (reply, r') →
        r'.seekHist.entries ++ [r'.offset] ++ r'.redoStack.entries.reverse =
          r.seekHist.entries ++ [r.offset] ++ r.redoStack.entries.reverse) ∧
      (∀ k r', movesBy cmdSeekUndo k r = some r' →
        ∃ r'', movesBy cmdSeekRedo k r' = some r'' ∧ r''.history = r.history) ∧
      (∀ k r', movesBy cmdSeekRedo k r = some r' →
        ∃ r'', movesBy cmdSeekUndo k r' = some r'' ∧ r''.history = r.history) ∧
      ∀ (args : List (Option String)) (trail : List UInt64),
        trail = r.seekHist.entries ++ (seekPositions resolveExpr (args.map .seek) r).destutter (· ≠ ·) →
        ∃ r', seekRun resolveExpr (args.map .seek) r = some r' ∧
          ∀ k, if k ≤ min seekHistMax (trail.length - 1)
            then ∃ r'', movesBy cmdSeekUndo k r' = some r'' ∧ trail.reverse[k]? = some r''.offset
            else movesBy cmdSeekUndo k r' = none := by
  obtain ⟨r, hrun, h⟩ := seekRun_bounded resolveExpr (SeekRepl.Bounded.start entryPoint) cmds
  have htrack : ∀ s : SeekRepl,
      s.seekHist.entries ++ [s.offset] ++ s.redoStack.entries.reverse = s.history.track := by
    intro s
    simp [Timeline.track, SeekRepl.history]
  refine ⟨r, hrun, h.count_add_count_le, ?_, ?_, ?_, ?_⟩
  · rintro reply r' (hr' | hr')
    · rw [htrack, htrack]
      exact track_eq_of_stepsAs cmdSeekUndo_stepsAs Timeline.track_back h hr'
    · rw [htrack, htrack]
      refine track_eq_of_stepsAs cmdSeekRedo_stepsAs (fun hforth => ?_) h hr'
      exact (Timeline.track_back (Timeline.back_iff_forth.2 hforth)).symm
  · intro k r' hk
    exact movesBy_inverse cmdSeekUndo_stepsAs cmdSeekRedo_stepsAs (fun _ _ => Timeline.back_iff_forth) h hk
  · intro k r' hk
    exact movesBy_inverse cmdSeekRedo_stepsAs cmdSeekUndo_stepsAs (fun _ _ => Timeline.back_iff_forth.symm) h hk
  · intro args trail htrail
    exact undo_after_seeks resolveExpr h args htrail

end Two09.Debag
