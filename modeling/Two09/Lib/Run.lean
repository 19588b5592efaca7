import Mathlib

/-!
# Running programs with a state that may fail

One step of a program in `StateT σ (Except ε)`, for programs that are run rather than reasoned about through a
logic.
-/

namespace Two09.Lib

variable {σ ε α β : Type} {x : StateT σ (Except ε) α} {f : α → StateT σ (Except ε) β} {s t : σ} {a : α} {b : β}

lemma bind_run (h : x s = .ok (a, t)) : (x >>= f) s = f a t := by
  show (x s >>= fun r => f r.1 r.2) = f a t
  rw [h]
  rfl

lemma bind_error {e : ε} (h : x s = .error e) : (x >>= f) s = .error e := by
  show (x s >>= fun r => f r.1 r.2) = .error e
  rw [h]
  rfl

/-- A sequence that succeeds is two that do. -/
lemma of_bind_run {r : β × σ} (h : (x >>= f) s = .ok r) : ∃ a t, x s = .ok (a, t) ∧ f a t = .ok r := by
  cases hx : x s with
  | error e =>
    rw [bind_error hx] at h
    cases h
  | ok at_ =>
    obtain ⟨a, t⟩ := at_
    rw [bind_run hx] at h
    exact ⟨a, t, rfl, h⟩

lemma get_run (f : σ → StateT σ (Except ε) β) : (get >>= f) s = f s s := rfl

lemma modify_run (g : σ → σ) (f : PUnit → StateT σ (Except ε) β) : (modify g >>= f) s = f ⟨⟩ (g s) := rfl

lemma pure_run (a : α) : (pure a : StateT σ (Except ε) α) s = .ok (a, s) := rfl

lemma discard_run (h : x s = .ok (a, t)) : (discard x : StateT σ (Except ε) PUnit) s = .ok (⟨⟩, t) := by
  show StateT.map (Function.const α PUnit.unit) x s = _
  unfold StateT.map
  rw [h]
  rfl

lemma map_run {g : α → β} (h : x s = .ok (a, t)) : (g <$> x) s = .ok (g a, t) := by
  show StateT.map g x s = _
  unfold StateT.map
  rw [h]
  rfl

lemma of_map_run {g : α → β} {r : β × σ} (h : (g <$> x) s = .ok r) : ∃ a t, x s = .ok (a, t) ∧ r = (g a, t) := by
  cases hx : x s with
  | error e =>
    replace h : StateT.map g x s = .ok r := h
    unfold StateT.map at h
    rw [hx] at h
    cases h
  | ok at_ =>
    obtain ⟨a, t⟩ := at_
    rw [map_run hx] at h
    exact ⟨a, t, rfl, (Except.ok.inj h).symm⟩

end Two09.Lib
