import Mathlib.Algebra.Order.BigOperators.Group.List
import Mathlib.Algebra.Order.Ring.Nat
import Sentinel.Logic.Run

/-!
# Progress that is counted

A number that no step lowers, and that has a bound, is raised by few of the rounds of a run.

* `Reach.measure_le`, `Reach.kept_or_lt`: the number along a run, and what is kept until it rises.
* `length_filter_range_le`: the rounds that raise it.
* `sum_le_sum_filter`: a sum taken key by key.
-/

namespace Sentinel.Logic

variable {σ τ : Type} {step : σ → τ → σ} {s₀ s : σ} {C : σ → τ → Prop} {μ : σ → ℕ}

theorem Reach.measure_le (h : Reach step s₀ C s)
    (hle : ∀ s e, Reach step s₀ C s → C s e → μ s ≤ μ (step s e)) : μ s₀ ≤ μ s :=
  h.invariant (I := fun s => μ s₀ ≤ μ s) le_rfl fun s e hs hC ih => ih.trans (hle s e hs hC)

/-- What every step keeps that does not raise the number is kept until the number rises. -/
theorem Reach.kept_or_lt {P : σ → Prop} (h : Reach step s₀ C s)
    (hle : ∀ s e, Reach step s₀ C s → C s e → μ s ≤ μ (step s e))
    (hkept : ∀ s e, Reach step s₀ C s → C s e → P s → P (step s e) ∨ μ s < μ (step s e))
    (hP : P s₀) : P s ∨ μ s₀ < μ s := by
  induction h with
  | init => exact Or.inl hP
  | step hs hC ih =>
    rcases ih with hold | hlt
    · exact (hkept _ _ hs hC hold).imp_right (hs.measure_le hle).trans_lt
    · exact Or.inr (hlt.trans_le (hle _ _ hs hC))

/-- The rounds with `p` raise the number one by one. -/
theorem length_filter_range_le {f : ℕ → ℕ} {p : ℕ → Bool} {n : ℕ}
    (hle : ∀ i < n, f i ≤ f (i + 1)) (hlt : ∀ i < n, p i = true → f i < f (i + 1)) :
    f 0 + ((List.range n).filter p).length ≤ f n := by
  induction n with
  | zero => simp
  | succ n ih =>
    have hn := ih (fun i hi => hle i (by omega)) fun i hi => hlt i (by omega)
    have hlast := hle n (Nat.lt_succ_self n)
    rw [List.range_succ, List.filter_append, List.length_append]
    by_cases hp : p n = true
    · have hraised := hlt n (Nat.lt_succ_self n) hp
      rw [List.filter_cons_of_pos hp]
      simp only [List.filter_nil, List.length_singleton]
      omega
    · rw [List.filter_cons_of_neg hp]
      simp only [List.filter_nil, List.length_nil]
      omega

/-- A list all of whose elements belong to one of the keys. -/
theorem sum_le_sum_filter {κ α : Type} {R : κ → α → Bool} {f : α → ℕ} {keys : List κ} {l : List α}
    (h : ∀ x ∈ l, ∃ k ∈ keys, R k x = true) :
    (l.map f).sum ≤ (keys.map fun k => ((l.filter (R k)).map f).sum).sum := by
  induction l with
  | nil => simp
  | cons a l ih =>
    have hl := ih fun x hx => h x (List.mem_cons_of_mem _ hx)
    obtain ⟨k, hk, hka⟩ := h a List.mem_cons_self
    -- the first element is added to the sum of every key it belongs to
    have hsplit : ∀ k, (((a :: l).filter (R k)).map f).sum =
        (if R k a = true then f a else 0) + ((l.filter (R k)).map f).sum := by
      intro k
      by_cases hka : R k a = true
      · rw [List.filter_cons_of_pos hka, if_pos hka, List.map_cons, List.sum_cons]
      · rw [List.filter_cons_of_neg hka, if_neg hka, Nat.zero_add]
    have hfirst : f a ≤ (keys.map fun k => if R k a = true then f a else 0).sum :=
      List.le_sum_of_mem (List.mem_map.mpr ⟨k, hk, if_pos hka⟩)
    rw [List.map_cons, List.sum_cons]
    simp only [hsplit, List.sum_map_add]
    omega

end Sentinel.Logic
