import Mathlib.Order.MinMax
import Mathlib.Tactic.Linarith
import Mathlib.Tactic.Positivity
import Sentinel.Processing.Enrichment

/-!
# The statistics before an alert fit together

The two windows and the activity counts are cut out of one list of ticks.  Before they are rounded
the prices of a window lie within its range, the shorter window within the longer one, and no tick is
counted twice.

* `windowStatistics`, `activityStatistics`: the values before rounding; `summarizeWindow_eq` and
  `summarizeActivity_eq` say that the summary rounds them.
* `WindowStatistics.Coherent`: the relations within one window.
-/

namespace Sentinel.Processing

open Contracts Storage

/-! ## Before rounding -/

structure WindowStatistics : Type where
  priceStart : ℚ
  priceEnd : ℚ
  netDeltaPct : Option ℚ
  high : ℚ
  low : ℚ
  rangePct : Option ℚ
  positionInRange : ℚ
  tickCount : ℕ
  avgSpread : Option ℚ

def windowStatistics : List PriceTick → Option WindowStatistics
  | [] => none
  | row :: rows =>
    let prices := (row :: rows).map PriceTick.price
    let priceStart := row.price
    let priceEnd := (prices.getLast?).getD priceStart
    let high := prices.foldl max priceStart
    let low := prices.foldl min priceStart
    some
      { priceStart := priceStart
        priceEnd := priceEnd
        netDeltaPct := if priceStart = 0 then none
          else some ((priceEnd - priceStart) / priceStart * 100)
        high := high
        low := low
        rangePct := if priceStart = 0 then none else some ((high - low) / priceStart * 100)
        positionInRange := if low < high then (priceEnd - low) / (high - low) else 1 / 2
        tickCount := (row :: rows).length
        avgSpread := avgSpread (row :: rows) }

def WindowStatistics.rounded (w : WindowStatistics) (windowSec : ℤ) : BeforeStateWindow where
  windowSec := windowSec
  priceStart := some (roundTo 6 w.priceStart)
  priceEnd := some (roundTo 6 w.priceEnd)
  netDeltaPct := w.netDeltaPct.map (roundTo 4)
  high := some (roundTo 6 w.high)
  low := some (roundTo 6 w.low)
  rangePct := w.rangePct.map (roundTo 4)
  positionInRange := some (roundTo 4 w.positionInRange)
  tickCount := w.tickCount
  avgSpread := w.avgSpread.map (roundTo 6)

/-- The summary of a window rounds its statistics. -/
theorem summarizeWindow_eq (windowSec : ℤ) (rows : List PriceTick) : summarizeWindow windowSec rows =
    ((windowStatistics rows).map fun w => w.rounded windowSec).getD (emptyWindow windowSec) := by
  cases rows with
  | nil => rfl
  | cons row rows =>
    by_cases hstart : row.price = 0 <;>
      simp [summarizeWindow, windowStatistics, WindowStatistics.rounded, hstart]

/-! ## The largest and the least price -/

section Fold

variable {α : Type} [LinearOrder α] {l : List α} {a b : α}

theorem foldl_max_le_iff : l.foldl max a ≤ b ↔ a ≤ b ∧ ∀ x ∈ l, x ≤ b := by
  induction l generalizing a with
  | nil => simp
  | cons x l ih => rw [List.foldl_cons, ih, max_le_iff, List.forall_mem_cons, and_assoc]

theorem le_foldl_min_iff : b ≤ l.foldl min a ↔ b ≤ a ∧ ∀ x ∈ l, b ≤ x := by
  induction l generalizing a with
  | nil => simp
  | cons x l ih => rw [List.foldl_cons, ih, le_min_iff, List.forall_mem_cons, and_assoc]

end Fold

variable {rows : List PriceTick} {w : WindowStatistics} {endMs : ℤ}

theorem exists_windowStatistics (h : rows ≠ []) : ∃ w, windowStatistics rows = some w := by
  cases rows with
  | nil => exact absurd rfl h
  | cons row rows => exact ⟨_, rfl⟩

theorem tickCount_eq (h : windowStatistics rows = some w) : w.tickCount = rows.length := by
  cases rows with
  | nil => cases h
  | cons row rows =>
    cases h
    rfl

/-- Every price lies between the least and the largest. -/
theorem price_mem_range (h : windowStatistics rows = some w) {row : PriceTick} (hrow : row ∈ rows) :
    w.low ≤ row.price ∧ row.price ≤ w.high := by
  cases rows with
  | nil => cases h
  | cons first rows =>
    cases h
    have hprice : row.price ∈ (first :: rows).map PriceTick.price := List.mem_map_of_mem hrow
    exact ⟨(le_foldl_min_iff.1 le_rfl).2 _ hprice, (foldl_max_le_iff.1 le_rfl).2 _ hprice⟩

/-- Bounds of all prices bound the range. -/
theorem range_le (h : windowStatistics rows = some w) {low high : ℚ}
    (hrows : ∀ row ∈ rows, low ≤ row.price ∧ row.price ≤ high) : low ≤ w.low ∧ w.high ≤ high := by
  cases rows with
  | nil => cases h
  | cons first rows =>
    cases h
    have hfirst := hrows first List.mem_cons_self
    exact ⟨le_foldl_min_iff.2 ⟨hfirst.1, List.forall_mem_map.2 fun row hrow => (hrows row hrow).1⟩,
      foldl_max_le_iff.2 ⟨hfirst.2, List.forall_mem_map.2 fun row hrow => (hrows row hrow).2⟩⟩

theorem exists_priceStart (h : windowStatistics rows = some w) :
    ∃ row ∈ rows, row.price = w.priceStart := by
  cases rows with
  | nil => cases h
  | cons first rows =>
    cases h
    exact ⟨first, List.mem_cons_self, rfl⟩

theorem getLast?_priceEnd (h : windowStatistics rows = some w) :
    rows.getLast?.map PriceTick.price = some w.priceEnd := by
  cases rows with
  | nil => cases h
  | cons first rows =>
    cases h
    rw [← List.getLast?_map]
    cases hlast : ((first :: rows).map PriceTick.price).getLast? with
    | none =>
      rw [List.getLast?_eq_none_iff] at hlast
      cases hlast
    | some p => rfl

theorem exists_priceEnd (h : windowStatistics rows = some w) :
    ∃ row ∈ rows, row.price = w.priceEnd := by
  obtain ⟨row, hlast, hprice⟩ := Option.map_eq_some_iff.1 (getLast?_priceEnd h)
  exact ⟨row, List.mem_of_getLast? hlast, hprice⟩

/-! ## One window -/

structure WindowStatistics.Coherent (w : WindowStatistics) : Prop where
  start_mem : w.low ≤ w.priceStart ∧ w.priceStart ≤ w.high
  end_mem : w.low ≤ w.priceEnd ∧ w.priceEnd ≤ w.high
  position_mem : 0 ≤ w.positionInRange ∧ w.positionInRange ≤ 1
  net_le_range : ∃ net range, w.netDeltaPct = some net ∧ w.rangePct = some range ∧ |net| ≤ range

/-- Where a value lies between two bounds. -/
theorem position_mem_unit {low high value : ℚ} (hlow : low ≤ value) (hhigh : value ≤ high) :
    0 ≤ (if low < high then (value - low) / (high - low) else 1 / 2) ∧
      (if low < high then (value - low) / (high - low) else 1 / 2) ≤ 1 := by
  by_cases h : low < high
  · rw [if_pos h]
    exact ⟨div_nonneg (by linarith) (by linarith), (div_le_one (by linarith)).2 (by linarith)⟩
  · rw [if_neg h]
    norm_num

theorem coherent_of_pos (h : windowStatistics rows = some w) (hpos : ∀ row ∈ rows, 0 < row.price) :
    w.Coherent := by
  obtain ⟨first, hfirst, hstart⟩ := exists_priceStart h
  obtain ⟨last, hlast, hend⟩ := exists_priceEnd h
  have hstartMem := price_mem_range h hfirst
  have hendMem := price_mem_range h hlast
  have hstartPos := hpos first hfirst
  rw [hstart] at hstartMem hstartPos
  rw [hend] at hendMem
  refine ⟨hstartMem, hendMem, ?_, (w.priceEnd - w.priceStart) / w.priceStart * 100,
    (w.high - w.low) / w.priceStart * 100, ?_, ?_, ?_⟩
  · cases rows with
    | nil => cases h
    | cons row rows =>
      cases h
      exact position_mem_unit hendMem.1 hendMem.2
  · cases rows with
    | nil => cases h
    | cons row rows =>
      cases h
      exact if_neg hstartPos.ne'
  · cases rows with
    | nil => cases h
    | cons row rows =>
      cases h
      exact if_neg hstartPos.ne'
  · rw [abs_mul, abs_div, abs_of_pos hstartPos, abs_of_pos (by norm_num : (0 : ℚ) < 100)]
    have habs : |w.priceEnd - w.priceStart| ≤ w.high - w.low :=
      abs_sub_le_of_le_of_le hendMem.1 hendMem.2 hstartMem.1 hstartMem.2
    gcongr

/-! ## The shorter window -/

/-- The ticks of the last half hour. -/
def last30m (endMs : ℤ) (rows : List PriceTick) : List PriceTick :=
  rows.filter fun row => endMs - 1800000 ≤ row.tsMs

/-- The last tick of all is the last of those since some time. -/
theorem getLast?_filter_since {startMs : ℤ} (hasc : rows.Pairwise fun a b => a.tsMs ≤ b.tsMs)
    (hne : (rows.filter fun row => startMs ≤ row.tsMs) ≠ []) :
    (rows.filter fun row => startMs ≤ row.tsMs).getLast? = rows.getLast? := by
  rcases List.eq_nil_or_concat' rows with rfl | ⟨init, last, rfl⟩
  · rfl
  · obtain ⟨row, hrow⟩ := List.exists_mem_of_ne_nil _ hne
    rw [List.mem_filter, decide_eq_true_eq] at hrow
    have hlast : startMs ≤ last.tsMs := by
      rcases List.mem_append.1 hrow.1 with hinit | hself
      · exact hrow.2.trans ((List.pairwise_append.1 hasc).2.2 row hinit last (List.mem_singleton_self _))
      · rw [← List.mem_singleton.1 hself]
        exact hrow.2
    rw [List.filter_append, List.filter_singleton, decide_eq_true hlast]
    simp

/-- The window lies within the longer one. -/
structure WindowStatistics.Within (w w' : WindowStatistics) : Prop where
  low_le : w'.low ≤ w.low
  high_le : w.high ≤ w'.high
  priceEnd_eq : w.priceEnd = w'.priceEnd
  tickCount_le : w.tickCount ≤ w'.tickCount

theorem within_of_since {startMs : ℤ} {w' : WindowStatistics}
    (hasc : rows.Pairwise fun a b => a.tsMs ≤ b.tsMs)
    (h : windowStatistics (rows.filter fun row => startMs ≤ row.tsMs) = some w)
    (h' : windowStatistics rows = some w') : w.Within w' := by
  have hne : (rows.filter fun row => startMs ≤ row.tsMs) ≠ [] := by
    intro hnil
    rw [hnil] at h
    cases h
  have hrange := range_le h fun row hrow => price_mem_range h' (List.mem_of_mem_filter hrow)
  refine ⟨hrange.1, hrange.2, ?_, ?_⟩
  · have hend := getLast?_priceEnd h
    rw [getLast?_filter_since hasc hne, getLast?_priceEnd h'] at hend
    exact (Option.some_inj.1 hend).symm
  · rw [tickCount_eq h, tickCount_eq h']
    exact List.length_filter_le _ _

/-! ## Activity -/

def last5m (endMs : ℤ) (rows : List PriceTick) : List PriceTick :=
  rows.filter fun row => endMs - 300000 ≤ row.tsMs

def prior30m (endMs : ℤ) (rows : List PriceTick) : List PriceTick :=
  rows.filter fun row => endMs - 2100000 ≤ row.tsMs ∧ row.tsMs < endMs - 300000

/-- The activity before rounding. -/
structure ActivityStatistics : Type where
  last5mTickCount : ℕ
  prior30mAvg5mTickCount : Option ℚ
  tickActivityRatio : Option ℚ
  last5mAvgSpread : Option ℚ
  prior30mAvgSpread : Option ℚ
  spreadChangePct : Option ℚ

def activityStatistics (rows : List PriceTick) (endMs : ℤ) : ActivityStatistics :=
  let prior30mAvg5m : Option ℚ :=
    if prior30m endMs rows = [] then none else some ((prior30m endMs rows).length / 6)
  { last5mTickCount := (last5m endMs rows).length
    prior30mAvg5mTickCount := prior30mAvg5m
    tickActivityRatio := prior30mAvg5m.bind fun average =>
      if 0 < average then some ((last5m endMs rows).length / average) else none
    last5mAvgSpread := avgSpread (last5m endMs rows)
    prior30mAvgSpread := avgSpread (prior30m endMs rows)
    spreadChangePct := (avgSpread (prior30m endMs rows)).bind fun prior =>
      if prior = 0 then none
      else (avgSpread (last5m endMs rows)).map fun last => (last - prior) / prior * 100 }

def ActivityStatistics.rounded (a : ActivityStatistics) : BeforeStateActivity where
  last5mTickCount := a.last5mTickCount
  prior30mAvg5mTickCount := a.prior30mAvg5mTickCount.map (roundTo 2)
  tickActivityRatio := a.tickActivityRatio.map (roundTo 4)
  last5mAvgSpread := a.last5mAvgSpread.map (roundTo 6)
  prior30mAvgSpread := a.prior30mAvgSpread.map (roundTo 6)
  spreadChangePct := a.spreadChangePct.map (roundTo 4)

theorem summarizeActivity_eq (rows : List PriceTick) (endMs : ℤ) :
    summarizeActivity rows endMs = (activityStatistics rows endMs).rounded := rfl

/-- No tick is in both periods. -/
theorem disjoint_periods : (last5m endMs rows).Disjoint (prior30m endMs rows) := by
  intro row hlast hprior
  rw [last5m, List.mem_filter, decide_eq_true_eq] at hlast
  rw [prior30m, List.mem_filter, decide_eq_true_eq] at hprior
  omega

theorem periods_length_le :
    (last5m endMs rows).length + (prior30m endMs rows).length ≤ rows.length := by
  have hsplit : (rows.filter fun row => endMs - 300000 ≤ row.tsMs).length +
      (rows.filter fun row => !decide (endMs - 300000 ≤ row.tsMs)).length = rows.length :=
    (List.length_eq_length_filter_add _).symm
  have hprior : (prior30m endMs rows).length ≤
      (rows.filter fun row => !decide (endMs - 300000 ≤ row.tsMs)).length := by
    refine (List.monotone_filter_right rows fun row hrow => ?_).length_le
    rw [decide_eq_true_eq] at hrow
    rw [Bool.not_eq_true', decide_eq_false_iff_not, not_le]
    exact hrow.2
  rw [last5m]
  omega

/-- The ratio is missing just when there is nothing to compare with. -/
theorem tickActivityRatio_isSome_iff :
    (activityStatistics rows endMs).tickActivityRatio.isSome = true ↔ prior30m endMs rows ≠ [] := by
  by_cases h : prior30m endMs rows = []
  · simp [activityStatistics, h]
  · have hlength : 0 < ((prior30m endMs rows).length : ℚ) / 6 :=
      div_pos (Nat.cast_pos.2 (List.length_pos_of_ne_nil h)) (by norm_num)
    simp [activityStatistics, h, hlength]

/-! ## All of it -/

/-- The state an alert gets is made of the two windows and the activity. -/
theorem enrich_beforeState {py : Notifications.Builtins} {ticks : PriceTicks} {alert : ShiftAlert}
    (hasset : alertAsset py alert ≠ "") (hne : rows ≠ [])
    (hrows : ticks.fetchPriceTicksForAsset (alertAsset py alert) (alert.timestampMs - 3600000)
      alert.timestampMs = rows) :
    ∃ label, (enrich py ticks alert).beforeState =
      some ⟨summarizeWindow 1800 (last30m alert.timestampMs rows), summarizeWindow 3600 rows,
        summarizeActivity rows alert.timestampMs, label⟩ := by
  rw [enrich, if_neg hasset]
  dsimp only
  rw [hrows, if_neg hne]
  exact ⟨_, rfl⟩

/-- The statistics before rounding of ticks in ascending order with positive prices are coherent,
and they are what the state of an alert rounds. -/
theorem before_state_coherent (rows : List PriceTick) (endMs : ℤ) (hne : rows ≠ [])
    (hasc : rows.Pairwise fun a b => a.tsMs ≤ b.tsMs) (hpos : ∀ row ∈ rows, 0 < row.price) :
    (∀ py ticks alert, alertAsset py alert ≠ "" → alert.timestampMs = endMs →
      PriceTicks.fetchPriceTicksForAsset ticks (alertAsset py alert) (endMs - 3600000) endMs = rows →
      ∃ label, (enrich py ticks alert).beforeState =
        some ⟨summarizeWindow 1800 (last30m endMs rows), summarizeWindow 3600 rows,
          summarizeActivity rows endMs, label⟩) ∧
    ∃ w60, windowStatistics rows = some w60 ∧ summarizeWindow 3600 rows = w60.rounded 3600 ∧
      w60.Coherent ∧
      (last30m endMs rows ≠ [] → ∃ w30, windowStatistics (last30m endMs rows) = some w30 ∧
        summarizeWindow 1800 (last30m endMs rows) = w30.rounded 1800 ∧ w30.Coherent ∧
        w30.Within w60) ∧
      summarizeActivity rows endMs = (activityStatistics rows endMs).rounded ∧
      (last5m endMs rows).Disjoint (prior30m endMs rows) ∧
      (activityStatistics rows endMs).last5mTickCount + (prior30m endMs rows).length ≤
        w60.tickCount ∧
      ((activityStatistics rows endMs).tickActivityRatio.isSome = true ↔
        prior30m endMs rows ≠ []) := by
  obtain ⟨w60, h60⟩ := exists_windowStatistics hne
  refine ⟨?_, w60, h60, ?_, coherent_of_pos h60 hpos, fun hne30 => ?_,
    summarizeActivity_eq rows endMs, disjoint_periods, ?_, tickActivityRatio_isSome_iff⟩
  · rintro py ticks alert hasset rfl hrows
    exact enrich_beforeState hasset hne hrows
  · rw [summarizeWindow_eq, h60]
    rfl
  · obtain ⟨w30, h30⟩ := exists_windowStatistics hne30
    refine ⟨w30, h30, ?_, coherent_of_pos h30 fun row hrow => hpos row (List.mem_of_mem_filter hrow),
      within_of_since hasc h30 h60⟩
    rw [summarizeWindow_eq, h30]
    rfl
  · rw [tickCount_eq h60]
    exact periods_length_le

/-- Three ticks, one of each period and one before both. -/
def Sample.hourOfTicks : List PriceTick :=
  [(1 / 2, 100), (1 / 4, 1800000), (3 / 4, 3500000)].map fun tick =>
    { assetId := "a", marketSlug := "", price := tick.1, bestBid := none, bestAsk := none
      spread := none, signalSource := "midpoint", quoteTsMs := none, tsMs := tick.2 }

theorem before_state_coherent_hour : ∃ w60, windowStatistics Sample.hourOfTicks = some w60 ∧
    w60.Coherent ∧ ∃ w30, windowStatistics (last30m 3600000 Sample.hourOfTicks) = some w30 ∧
      w30.Coherent ∧ w30.Within w60 := by
  obtain ⟨-, w60, h60, -, hcoherent, h30, -⟩ := before_state_coherent Sample.hourOfTicks 3600000
    (by decide) (by decide) (by decide +kernel)
  obtain ⟨w30, hw30, -, hcoherent30, hwithin⟩ := h30 (by decide)
  exact ⟨w60, h60, hcoherent, w30, hw30, hcoherent30, hwithin⟩

end Sentinel.Processing
