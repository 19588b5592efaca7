import Mathlib

/-!
# Runs of two systems

Runs of labelled steps. A relation that every step of one system keeps, with a step of the other under the same
label, carries whole runs over.
-/

namespace Two09.Lib

variable {σ τ ι : Type*}

/-- So many steps, under these labels. -/
inductive Runs (step : σ → ι → σ → Prop) : σ → List ι → σ → Prop
  | nil (s : σ) : Runs step s [] s
  | cons {s t u : σ} {i : ι} {is : List ι} (hstep : step s i t) (hrest : Runs step t is u) : Runs step s (i :: is) u

variable {step : σ → ι → σ → Prop} {step' : τ → ι → τ → Prop} {R : σ → τ → Prop} {I : σ → Prop} {s s' : σ} {t : τ}
  {is : List ι}

/-- **What every step keeps, a run keeps.** -/
theorem Runs.keeps (hruns : Runs step s is s') (hstep : ∀ s i s', I s → step s i s' → I s') (hs : I s) : I s' := by
  induction hruns with
  | nil => exact hs
  | cons h _ ih => exact ih (hstep _ _ _ hs h)

lemma Runs.imp {step₁ : σ → ι → σ → Prop} (hruns : Runs step s is s') (h : ∀ s i s', step s i s' → step₁ s i s') :
    Runs step₁ s is s' := by
  induction hruns with
  | nil s => exact .nil s
  | cons hstep _ ih => exact .cons (h _ _ _ hstep) ih

/-- **Runs are simulated** when steps are. -/
theorem Runs.simulated (hruns : Runs step s is s') (hR : R s t)
    (hstep : ∀ s t i s', R s t → step s i s' → ∃ t', step' t i t' ∧ R s' t') :
    ∃ t', Runs step' t is t' ∧ R s' t' := by
  induction hruns generalizing t with
  | nil => exact ⟨t, .nil t, hR⟩
  | cons h _ ih =>
    obtain ⟨t₁, h₁, hR₁⟩ := hstep _ _ _ _ hR h
    obtain ⟨t', hrest, hR'⟩ := ih hR₁
    exact ⟨t', .cons h₁ hrest, hR'⟩

end Two09.Lib
