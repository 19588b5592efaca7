import Mathlib.Data.Int.Basic
import Mathlib.Logic.Relation
import Mathlib.Order.MinMax
import Mathlib.Tactic.Common

/-!
# Counting the times a place is reached

A place that a run comes to over and over: each time it is counted, and the run stops there unless a condition is
false or the place is still to be ignored.
-/

namespace Two09.Lib

/-- What is known of a place: the states in which the trap at it was sprung, those in which it was passed, that in
which the run is held there, those in which the run was stopped, the counts, and whether there is still a run. -/
structure Tally (α : Type) where
  trapped : List α
  passed : List α
  held : List α
  stopped : List α
  count : ℤ
  ignore : ℤ
  alive : Bool

namespace Tally

variable {α : Type}

/-- One step: nothing at the place, the run goes on from it, or it is reached and passed, ignored or held. -/
inductive Step (inc : ℤ → ℤ) (cond : α → Bool) : Tally α → Tally α → Prop
  | rest {v v' : Tally α} (trapped : v'.trapped = v.trapped) (stopped : v'.stopped = v.stopped)
      (count : v'.count = v.count) (ignore : v'.ignore = v.ignore)
      (run : v'.alive = true → v.alive = true ∧ v'.passed = v.passed ∧ v'.held = v.held) : Step inc cond v v'
  | leave {v v' : Tally α} (trapped : v'.trapped = v.trapped) (stopped : v'.stopped = v.stopped)
      (count : v'.count = v.count) (ignore : v'.ignore = v.ignore)
      (run : v'.alive = true → v.alive = true ∧ v'.passed = v.passed ++ v.held ∧ v'.held = []) : Step inc cond v v'
  | pass {v v' : Tally α} (a : α) (free : v.held = []) (trapped : v'.trapped = v.trapped ++ [a])
      (stopped : v'.stopped = v.stopped) (count : v'.count = inc v.count)
      (ignore : cond a = false ∧ v'.ignore = v.ignore ∨ cond a = true ∧ 0 < v.ignore ∧ v'.ignore = v.ignore - 1)
      (run : v'.alive = true → v.alive = true ∧ v'.passed = v.passed ++ [a] ∧ v'.held = []) : Step inc cond v v'
  | hold {v v' : Tally α} (a : α) (free : v.held = []) (trapped : v'.trapped = v.trapped ++ [a])
      (stopped : v'.stopped = v.stopped ++ [a]) (count : v'.count = inc v.count)
      (ignore : cond a = true ∧ v.ignore ≤ 0 ∧ v'.ignore = v.ignore)
      (run : v'.alive = true → v.alive = true ∧ v'.passed = v.passed ∧ v'.held = [a]) : Step inc cond v v'

/-- **The law of a place**, `n` being how often it was to be ignored: the run is stopped at the times the condition
holds, the first `n` of them left out; all times are counted, and each is passed once the run goes on from it. -/
def Law (inc : ℤ → ℤ) (cond : α → Bool) (n : ℕ) (v v' : Tally α) : Prop :=
  ∃ hits : List α,
    v'.trapped = v.trapped ++ hits ∧ v'.stopped = v.stopped ++ (hits.filter cond).drop n ∧
      v'.count = inc^[hits.length] v.count ∧ v'.ignore = n - min n (hits.filter cond).length ∧
        (v'.alive = true → v.alive = true ∧ ∃ passed, v'.passed = v.passed ++ passed ∧
          v.held ++ hits = passed ++ v'.held)

variable {inc : ℤ → ℤ} {cond : α → Bool} {n : ℕ} {v v' v'' : Tally α}

lemma law_refl (h : v.ignore = n) : Law inc cond n v v :=
  ⟨[], by simp, by simp, rfl, by simp [h], fun halive => ⟨halive, [], by simp, by simp⟩⟩

/-- The law is kept by a step. -/
lemma Law.step (h : Law inc cond n v v') (hstep : Step inc cond v' v'') : Law inc cond n v v'' := by
  obtain ⟨hits, htrapped, hstopped, hcount, hignore, hrun⟩ := h
  cases hstep with
  | rest trapped stopped count ignore run =>
    refine ⟨hits, trapped.trans htrapped, stopped.trans hstopped, count.trans hcount, ignore.trans hignore, ?_⟩
    intro halive
    obtain ⟨halive', hpassed, hheld⟩ := run halive
    obtain ⟨hstart, passed, hpassed', hhits⟩ := hrun halive'
    exact ⟨hstart, passed, hpassed.trans hpassed', by rw [hheld, hhits]⟩
  | leave trapped stopped count ignore run =>
    refine ⟨hits, trapped.trans htrapped, stopped.trans hstopped, count.trans hcount, ignore.trans hignore, ?_⟩
    intro halive
    obtain ⟨halive', hpassed, hheld⟩ := run halive
    obtain ⟨hstart, passed, hpassed', hhits⟩ := hrun halive'
    exact ⟨hstart, passed ++ v'.held, by rw [hpassed, hpassed', List.append_assoc], by rw [hheld, hhits, List.append_nil]⟩
  | pass a free trapped stopped count ignore run =>
    refine ⟨hits ++ [a], ?_, ?_, ?_, ?_, ?_⟩
    · rw [trapped, htrapped, List.append_assoc]
    · rw [stopped, hstopped, List.filter_append]
      rcases ignore with ⟨hfalse, -⟩ | ⟨htrue, hpos, -⟩
      · simp [hfalse]
      · have hlt : (hits.filter cond).length < n := by omega
        rw [List.drop_eq_nil_of_le hlt.le, List.drop_eq_nil_of_le (by simpa [htrue] using Nat.succ_le_of_lt hlt)]
    · rw [count, hcount, List.length_append, List.length_singleton, Function.iterate_succ_apply']
    · rw [List.filter_append, List.length_append]
      rcases ignore with ⟨hfalse, hsame⟩ | ⟨htrue, hpos, hless⟩
      · simpa [hfalse] using hsame.trans hignore
      · rw [hless, hignore]
        simp only [htrue, List.filter_cons_of_pos, List.filter_nil, List.length_singleton]
        omega
    · intro halive
      obtain ⟨halive', hpassed, hheld⟩ := run halive
      obtain ⟨hstart, passed, hpassed', hhits⟩ := hrun halive'
      rw [free, List.append_nil] at hhits
      refine ⟨hstart, passed ++ [a], by rw [hpassed, hpassed', List.append_assoc], ?_⟩
      rw [hheld, List.append_nil, ← hhits, List.append_assoc]
  | hold a free trapped stopped count ignore run =>
    obtain ⟨htrue, hzero, hsame⟩ := ignore
    have hle : n ≤ (hits.filter cond).length := by omega
    refine ⟨hits ++ [a], ?_, ?_, ?_, ?_, ?_⟩
    · rw [trapped, htrapped, List.append_assoc]
    · rw [stopped, hstopped, List.filter_append, List.drop_append_of_le_length hle, List.append_assoc]
      simp [htrue]
    · rw [count, hcount, List.length_append, List.length_singleton, Function.iterate_succ_apply']
    · rw [hsame, hignore, List.filter_append, List.length_append]
      omega
    · intro halive
      obtain ⟨halive', hpassed, hheld⟩ := run halive
      obtain ⟨hstart, passed, hpassed', hhits⟩ := hrun halive'
      rw [free, List.append_nil] at hhits
      exact ⟨hstart, passed, hpassed.trans hpassed', by rw [hheld, ← hhits, List.append_assoc]⟩

/-- **The law holds along every run.** -/
lemma law_of_run (hignore : v.ignore = n) (h : Relation.ReflTransGen (Step inc cond) v v') : Law inc cond n v v' := by
  induction h with
  | refl => exact law_refl hignore
  | tail _ hstep ih => exact ih.step hstep

end Tally

end Two09.Lib
