import Mathlib.Data.List.Induction

/-!
# Runs of a step function

`step s e` is the state after the event `e`.  `Reach step s₀ C` is the set of states of the runs
from `s₀` all of whose steps satisfy the condition `C` (a relation between the state before the
step and the event); `Any` is the condition that allows every step.
-/

namespace Sentinel.Logic

variable {σ τ : Type}

inductive Reach (step : σ → τ → σ) (s₀ : σ) (C : σ → τ → Prop) : σ → Prop
  | init : Reach step s₀ C s₀
  | step {s : σ} {e : τ} (h : Reach step s₀ C s) (hC : C s e) : Reach step s₀ C (step s e)

/-- Every step is allowed. -/
def Any (_ : σ) (_ : τ) : Prop := True

variable {step : σ → τ → σ} {s₀ s : σ} {C C' : σ → τ → Prop}

theorem Reach.mono (h : Reach step s₀ C s) (hC : ∀ s e, C s e → C' s e) : Reach step s₀ C' s := by
  induction h with
  | init => exact .init
  | step _ he ih => exact .step ih (hC _ _ he)

theorem Reach.any (h : Reach step s₀ C s) : Reach step s₀ Any s := h.mono fun _ _ _ => trivial

/-- A run continued by another is a run. -/
theorem Reach.trans {s₁ s₂ : σ} (h : Reach step s₀ C s₁) (h' : Reach step s₁ C s₂) :
    Reach step s₀ C s₂ := by
  induction h' with
  | init => exact h
  | step _ hC ih => exact .step ih hC

/-- The rule of invariants. -/
theorem Reach.invariant {I : σ → Prop} (h : Reach step s₀ C s) (h0 : I s₀)
    (hstep : ∀ s e, Reach step s₀ C s → C s e → I s → I (step s e)) : I s := by
  induction h with
  | init => exact h0
  | step hs hC ih => exact hstep _ _ hs hC ih

/-- What every allowed step of a run satisfies, in the states reached, holds of all its steps. -/
theorem Reach.steps (h : Reach step s₀ C s) (hC : ∀ s e, Reach step s₀ C s → C s e → C' s e) :
    Reach step s₀ C' s := by
  induction h with
  | init => exact .init
  | step hs he ih => exact .step ih (hC _ _ hs he)

theorem reach_foldl_from (h : Reach step s₀ Any s) (es : List τ) :
    Reach step s₀ Any (es.foldl step s) := by
  induction es generalizing s with
  | nil => exact h
  | cons e es ih => exact ih (.step h trivial)

theorem reach_foldl (es : List τ) : Reach step s₀ Any (es.foldl step s₀) :=
  reach_foldl_from .init es

/-- Whether every step of the run on `es` satisfies the condition. -/
def allowed (step : σ → τ → σ) (C : σ → τ → Prop) [∀ s e, Decidable (C s e)] : σ → List τ → Bool
  | _, [] => true
  | s, e :: es => decide (C s e) && allowed step C (step s e) es

theorem reach_of_allowed_from [∀ s e, Decidable (C s e)] (h : Reach step s₀ C s) {es : List τ}
    (hes : allowed step C s es = true) : Reach step s₀ C (es.foldl step s) := by
  induction es generalizing s with
  | nil => exact h
  | cons e es ih =>
    simp only [allowed, Bool.and_eq_true, decide_eq_true_eq] at hes
    exact ih (.step h hes.1) hes.2

theorem reach_of_allowed [∀ s e, Decidable (C s e)] {es : List τ}
    (hes : allowed step C s₀ es = true) : Reach step s₀ C (es.foldl step s₀) :=
  reach_of_allowed_from .init hes

/-- Every event of a list that is allowed as a whole is allowed when its turn comes. -/
theorem of_allowed [∀ s e, Decidable (C s e)] {es es' : List τ} {e : τ}
    (h : allowed step C s es = true) (hpre : es' ++ [e] <+: es) : C (es'.foldl step s) e := by
  induction es generalizing s es' with
  | nil => exact absurd (List.prefix_nil.mp hpre) (by simp)
  | cons e₀ es ih =>
    simp only [allowed, Bool.and_eq_true, decide_eq_true_eq] at h
    cases es' with
    | nil =>
      obtain rfl := (List.cons_prefix_cons.mp hpre).1
      exact h.1
    | cons e₁ es' =>
      obtain ⟨rfl, hrest⟩ := List.cons_prefix_cons.mp hpre
      rw [List.foldl_cons]
      exact ih h.2 hrest

/-- A list of events all of whose steps satisfy the condition is a run. -/
theorem reach_of_prefixes {es : List τ} (h : ∀ es' e, es' ++ [e] <+: es → C (es'.foldl step s₀) e) :
    Reach step s₀ C (es.foldl step s₀) := by
  induction es using List.reverseRecOn with
  | nil => exact .init
  | append_singleton es e ih =>
    rw [List.foldl_append]
    exact .step (ih fun es' e' hpre => h es' e' (hpre.trans (List.prefix_append _ _)))
      (h es e List.prefix_rfl)

/-- If from the states that satisfy `J` and `I` a step keeps `I` exactly when it satisfies `A`, then
`I` holds all along a run exactly when it holds at first and all steps satisfy `A`. -/
theorem foldl_invariant_iff {I J : σ → Prop} {A : σ → τ → Prop} (hJ : ∀ s e, J s → J (step s e))
    (hstep : ∀ s e, J s → I s → (I (step s e) ↔ A s e)) (es : List τ) (h : J s) :
    (∀ es', es' <+: es → I (es'.foldl step s)) ↔
      I s ∧ ∀ es' e, es' ++ [e] <+: es → A (es'.foldl step s) e := by
  have hJs : ∀ es' : List τ, J (es'.foldl step s) := by
    intro es'
    induction es' using List.reverseRecOn with
    | nil => exact h
    | append_singleton es' e ih =>
      rw [List.foldl_append]
      exact hJ _ e ih
  constructor
  · intro hI
    refine ⟨hI [] List.nil_prefix, fun es' e hpre => ?_⟩
    have hbefore := hI es' ((List.prefix_append es' [e]).trans hpre)
    have hafter := hI (es' ++ [e]) hpre
    rw [List.foldl_append] at hafter
    exact (hstep _ e (hJs es') hbefore).mp hafter
  · rintro ⟨h0, hA⟩ es' hpre
    induction es' using List.reverseRecOn with
    | nil => exact h0
    | append_singleton es' e ih =>
      have hbefore := ih ((List.prefix_append es' [e]).trans hpre)
      rw [List.foldl_append]
      exact (hstep _ e (hJs es') hbefore).mpr (hA es' e hpre)

end Sentinel.Logic
