import Mathlib

/-!
# Filters of system calls

A table of rules in the order in which they were added. A rule without comparisons decides its call, and
what is added for the call after it has no effect; otherwise the first rule whose comparisons hold decides,
and the default where there is none.
-/

namespace Two09.Lib.Seccomp

inductive Action
  | allow
  | trace
  | killProcess
  deriving DecidableEq

/-- `SCMP_CMP_MASKED_EQ` on an argument. -/
structure Compare where
  arg : Fin 6
  mask : UInt64
  datum : UInt64

/-- The arguments of a call. -/
abbrev Args := Fin 6 → UInt64

def Compare.Holds (c : Compare) (args : Args) : Prop := args c.arg &&& c.mask = c.datum

instance (c : Compare) (args : Args) : Decidable (c.Holds args) :=
  inferInstanceAs (Decidable (args c.arg &&& c.mask = c.datum))

/-- What `seccomp_rule_add` is given. -/
structure Rule (Call : Type) where
  action : Action
  call : Call
  compare : List Compare

section Decision
variable {Call : Type} [DecidableEq Call] {call : Call} {args : Args} {rules more : List (Rule Call)}
  {dflt : Action} {calls : List Call} {action : Action}

def Rule.Matches (r : Rule Call) (call : Call) (args : Args) : Prop :=
  r.call = call ∧ ∀ c ∈ r.compare, c.Holds args

instance (r : Rule Call) (call : Call) (args : Args) : Decidable (r.Matches call args) :=
  inferInstanceAs (Decidable (_ ∧ _))

/-- What the filter does with a call. -/
def decision (dflt : Action) (rules : List (Rule Call)) (call : Call) (args : Args) : Action :=
  ((rules.find? fun r => r.Matches call args).map Rule.action).getD dflt

/-- The same rule for every call in a list. -/
def always (action : Action) (calls : List Call) : List (Rule Call) :=
  calls.map fun call => ⟨action, call, []⟩

lemma decision_append_of_not (h : ∀ r ∈ rules, r.call ≠ call) :
    decision dflt (rules ++ more) call args = decision dflt more call args := by
  have hnone : rules.find? (fun r => r.Matches call args) = none :=
    List.find?_eq_none.2 fun r hr => by simpa using fun hm : r.Matches call args => h r hr hm.1
  rw [decision, List.find?_append, hnone, Option.none_or]
  rfl

lemma decision_cons_of_not {r : Rule Call} (h : ¬ r.Matches call args) :
    decision dflt (r :: rules) call args = decision dflt rules call args := by
  rw [decision, List.find?_cons_of_neg (by simpa using h)]
  rfl

lemma decision_cons_of_matches {r : Rule Call} (h : r.Matches call args) :
    decision dflt (r :: rules) call args = r.action := by
  rw [decision, List.find?_cons_of_pos (by simpa using h)]
  rfl

/-- A rule with one comparison. -/
lemma decision_compare (c : Compare) :
    decision dflt (⟨action, call, [c]⟩ :: rules) call args =
      if c.Holds args then action else decision dflt rules call args := by
  split_ifs with hc
  · exact decision_cons_of_matches ⟨rfl, List.forall_mem_cons.2 ⟨hc, List.forall_mem_nil _⟩⟩
  · exact decision_cons_of_not fun hm => hc (hm.2 c List.mem_cons_self)

/-- **The first rule for a call decides it**, if it compares nothing. -/
lemma decision_always (h : call ∈ calls) :
    decision dflt (always action calls ++ more) call args = action := by
  induction calls with
  | nil => cases h
  | cons c calls ih =>
    by_cases hc : c = call
    · exact decision_cons_of_matches ⟨hc, List.forall_mem_nil _⟩
    · have hrest : call ∈ calls := (List.mem_cons.1 h).resolve_left fun h => hc h.symm
      rw [always, List.map_cons, List.cons_append, decision_cons_of_not fun hm => hc hm.1]
      exact ih hrest

lemma decision_always_of_notMem (h : call ∉ calls) :
    decision dflt (always action calls ++ more) call args = decision dflt more call args := by
  refine decision_append_of_not fun r hr => ?_
  obtain ⟨c, hc, rfl⟩ := List.mem_map.1 hr
  exact fun heq => h (heq ▸ hc)

end Decision

end Two09.Lib.Seccomp
