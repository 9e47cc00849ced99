import Mathlib.Tactic.GCongr
import Mathlib.Tactic.Linarith
import Mathlib.Tactic.Ring
import Sentinel.Outcome.Worker

/-!
# The label of an outcome

`classify_outcome` compares the exact return with the thresholds and rounds it afterwards: the
stored return gives the same label except within a rounding of a threshold.

* `quantize4_error`: how far the stored return is from the exact one.
* `labelFor`: the thresholds.
-/

namespace Sentinel.Pipeline

open Logic Contracts

theorem quantize4_error (q : ℚ) : |quantize4 q - q| ≤ 1/20000 := by
  have h := abs_le.1 (roundHalfEven_error (q * 10000))
  rw [quantize4, abs_le]
  constructor <;> linarith

/-- The label the thresholds give. -/
def labelFor (alpha : ℚ) : String :=
  if 1/4 < alpha then "positive_alpha" else if alpha < -(1/4) then "negative_alpha" else "flat"

/-- The labels in ascending order. -/
def labelRank (label : String) : ℕ :=
  if label = "negative_alpha" then 0 else if label = "flat" then 1 else 2

theorem labelRank_labelFor (alpha : ℚ) : labelRank (labelFor alpha) =
    if 1/4 < alpha then 2 else if alpha < -(1/4) then 0 else 1 := by
  unfold labelFor
  split_ifs <;> rfl

theorem labelRank_mono {a b : ℚ} (h : a ≤ b) :
    labelRank (labelFor a) ≤ labelRank (labelFor b) := by
  rw [labelRank_labelFor, labelRank_labelFor]
  split_ifs <;> first | omega | linarith

/-- Two values have one label when no threshold separates them. -/
theorem labelFor_eq_iff (a b : ℚ) :
    labelFor a = labelFor b ↔ (1/4 < a ↔ 1/4 < b) ∧ (a < -(1/4) ↔ b < -(1/4)) := by
  constructor
  · intro h
    have hrank := congrArg labelRank h
    rw [labelRank_labelFor, labelRank_labelFor] at hrank
    constructor <;> constructor <;> intro _ <;> split_ifs at hrank <;> first | omega | linarith
  · rintro ⟨hhigh, hlow⟩
    unfold labelFor
    rw [if_congr hhigh rfl rfl]
    by_cases h : 1/4 < b
    · rw [if_pos h, if_pos h]
    · rw [if_neg h, if_neg h, if_congr hlow rfl rfl]

/-- The return before rounding. -/
def exactReturn (entryPrice exitPrice : Decimal) : ℚ := (exitPrice - entryPrice) / entryPrice * 100

theorem exactReturn_mono {entryPrice : Decimal} (hentry : 0 < entryPrice) {p q : Decimal}
    (h : p ≤ q) : exactReturn entryPrice p ≤ exactReturn entryPrice q := by
  unfold exactReturn
  gcongr

section Label

variable {entryPrice : Decimal} (hentry : entryPrice ≠ 0) (exitPrice : Decimal)
  (benchmark : Option Decimal)

include hentry

theorem classifyOutcome_label : (classifyOutcome entryPrice exitPrice benchmark).label =
    labelFor (exactReturn entryPrice exitPrice - benchmark.getD 0) := by
  rw [classifyOutcome, if_neg hentry]
  rfl

theorem classifyOutcome_returnPct : (classifyOutcome entryPrice exitPrice benchmark).returnPct =
    quantize4 (exactReturn entryPrice exitPrice) := by
  rw [classifyOutcome, if_neg hentry]
  rfl

end Label

/-- When the labels of two near values differ, a threshold is near. -/
theorem near_threshold {a b d : ℚ} (hnear : |b - a| ≤ d) (hne : labelFor a ≠ labelFor b) :
    |a - 1/4| ≤ d ∨ |a + 1/4| ≤ d := by
  obtain ⟨hlo, hhi⟩ := abs_le.1 hnear
  by_contra hfar
  obtain ⟨hhigh, hlow⟩ := not_or.1 hfar
  rw [not_le, lt_abs] at hhigh hlow
  refine hne ((labelFor_eq_iff a b).2 ⟨?_, ?_⟩)
  · rcases hhigh with h | h <;> constructor <;> intro _ <;> linarith
  · rcases hlow with h | h <;> constructor <;> intro _ <;> linarith

/-- The label is that of the exact return.  The stored return has the same label unless a threshold
lies between the two, which are then both next to it; and a better exit is never labelled worse. -/
theorem label_of_return (entryPrice : Decimal) (hentry : 0 < entryPrice)
    (benchmark : Option Decimal) :
    (∀ exitPrice, let outcome := classifyOutcome entryPrice exitPrice benchmark
      let exact := exactReturn entryPrice exitPrice - benchmark.getD 0
      let stored := outcome.returnPct - benchmark.getD 0
      outcome.label = labelFor exact ∧
      (outcome.label = labelFor stored ↔
        (1/4 < exact ↔ 1/4 < stored) ∧ (exact < -(1/4) ↔ stored < -(1/4))) ∧
      (outcome.label ≠ labelFor stored →
        |exact - 1/4| ≤ 1/20000 ∨ |exact + 1/4| ≤ 1/20000)) ∧
    ∀ exitPrice exitPrice', exitPrice ≤ exitPrice' →
      labelRank (classifyOutcome entryPrice exitPrice benchmark).label ≤
        labelRank (classifyOutcome entryPrice exitPrice' benchmark).label := by
  refine ⟨fun exitPrice => ?_, fun exitPrice exitPrice' h => ?_⟩
  · have hnear : |quantize4 (exactReturn entryPrice exitPrice) - benchmark.getD 0 -
        (exactReturn entryPrice exitPrice - benchmark.getD 0)| ≤ 1/20000 := by
      rw [sub_sub_sub_cancel_right]
      exact quantize4_error _
    dsimp only
    rw [classifyOutcome_label hentry.ne', classifyOutcome_returnPct hentry.ne']
    exact ⟨rfl, labelFor_eq_iff _ _, near_threshold hnear⟩
  · rw [classifyOutcome_label hentry.ne', classifyOutcome_label hentry.ne']
    exact labelRank_mono (sub_le_sub_right (exactReturn_mono hentry h) _)

theorem label_of_return_hundred :
    (classifyOutcome 100 101 none).label = labelFor 1 ∧
    labelRank (classifyOutcome 100 99 none).label ≤ labelRank (classifyOutcome 100 101 none).label := by
  obtain ⟨hlabel, hmono⟩ := label_of_return 100 (by norm_num) none
  refine ⟨?_, hmono 99 101 (by norm_num)⟩
  obtain ⟨hexact, -, -⟩ := hlabel 101
  rw [hexact, exactReturn]
  norm_num

/-- A return of 0.25003 is labelled positive and stored as 0.2500. -/
theorem label_not_of_stored : ¬∀ (entryPrice exitPrice : Decimal) (benchmark : Option Decimal),
    0 < entryPrice → (classifyOutcome entryPrice exitPrice benchmark).label =
      labelFor ((classifyOutcome entryPrice exitPrice benchmark).returnPct - benchmark.getD 0) := by
  intro h
  have := h 100 (10025003/100000) none (by norm_num)
  revert this
  decide +kernel

end Sentinel.Pipeline
