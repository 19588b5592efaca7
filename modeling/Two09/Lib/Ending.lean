import Mathlib

/-!
# Programs that end

Programs that may get stuck, which is no result, and that may fail, which is one. What is shown of a program is that
it ends, and what holds of its value where it succeeds.
-/

namespace Two09.Lib

variable {ε ε' α β σ : Type}

/-- A program that ends, and where it succeeds its value satisfies `post`. -/
def Ending (post : α → Prop) (m : ExceptT ε Option α) : Prop :=
  ∃ r, m.run = some r ∧ ∀ a, r = .ok a → post a

variable {post post' : α → Prop} {post₂ : β → Prop} {m : ExceptT ε Option α} {f : α → ExceptT ε Option β} {a : α} {e : ε}

lemma Ending.pure (h : post a) : Ending post (Pure.pure a : ExceptT ε Option α) :=
  ⟨.ok a, rfl, fun _ heq => Except.ok.inj heq ▸ h⟩

lemma Ending.throw (e : ε) : Ending post (MonadExcept.throw e : ExceptT ε Option α) :=
  ⟨.error e, rfl, fun a h => by cases h⟩

lemma Ending.mono (h : Ending post m) (himp : ∀ a, post a → post' a) : Ending post' m := by
  obtain ⟨r, hr, hpost⟩ := h
  exact ⟨r, hr, fun a ha => himp a (hpost a ha)⟩

/-- One program behind the other. -/
lemma Ending.bind (h : Ending post m) (hf : ∀ a, post a → Ending post₂ (f a)) : Ending post₂ (m >>= f) := by
  obtain ⟨r, hr, hpost⟩ := h
  cases r with
  | error e =>
    refine ⟨.error e, ?_, fun b hb => by cases hb⟩
    rw [ExceptT.run_bind, hr]
    rfl
  | ok a =>
    obtain ⟨r', hr', hpost'⟩ := hf a (hpost a rfl)
    refine ⟨r', ?_, hpost'⟩
    rw [ExceptT.run_bind, hr]
    exact hr'

/-- The errors are those of the caller. -/
lemma Ending.adapt (h : Ending post m) (f : ε → ε') : Ending post (ExceptT.adapt f m) := by
  obtain ⟨r, hr, hpost⟩ := h
  refine ⟨r.mapError f, ?_, fun a ha => ?_⟩
  · change Option.map (Except.mapError f) m.run = _
    rw [hr]
    rfl
  · cases r with
    | error e => cases ha
    | ok b => exact hpost a (congrArg Except.ok (Except.ok.inj ha))

/-- **A loop**: every turn leads on to a state related to the one before, and brings about for its element what later
turns keep. -/
lemma Ending.foldlM {R : σ → σ → Prop} {P : α → σ → Prop} (hrefl : ∀ s, R s s) (htrans : ∀ s t u, R s t → R t u → R s u)
    (hkeep : ∀ a s t, P a s → R s t → P a t) {f : σ → α → ExceptT ε Option σ} (l : List α) (s : σ)
    (hf : ∀ t, R s t → ∀ a ∈ l, Ending (fun u => R t u ∧ P a u) (f t a)) :
    Ending (fun t => R s t ∧ ∀ a ∈ l, P a t) (l.foldlM f s) := by
  induction l generalizing s with
  | nil => exact .pure ⟨hrefl s, fun a ha => by cases ha⟩
  | cons a l ih =>
    rw [List.foldlM_cons]
    refine (hf s (hrefl s) a List.mem_cons_self).bind fun t ⟨hst, ha⟩ => ?_
    have hrest := ih t fun u htu b hb => hf u (htrans s t u hst htu) b (List.mem_cons_of_mem _ hb)
    refine hrest.mono fun u ⟨htu, hall⟩ => ⟨htrans s t u hst htu, fun b hb => ?_⟩
    rcases List.mem_cons.1 hb with rfl | hb
    · exact hkeep _ t u ha htu
    · exact hall b hb

end Two09.Lib
