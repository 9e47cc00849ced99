import Sentinel.Notifications.Dispatcher
import Sentinel.Processing.RawTicks
import Sentinel.Storage.SQLiteStore

/-!
# The state before an alert

`BeforeStateEnricher` summarises the ticks of the hour that ends with the alert, and so also those of
the window over which the alert was found.

* `PrecedesShift`: what is said of the prices depends on the ticks before that window only.
* `exists_leak`: for an alert with a window no history is safe.
* `precedesShift_iff`: it does so just for alerts that name no asset or have an empty window.
-/

namespace Sentinel.Processing

open Contracts Storage

/-! ## The summary -/

def emptyWindow (windowSec : ℤ) : BeforeStateWindow :=
  { windowSec := windowSec, priceStart := none, priceEnd := none, netDeltaPct := none, high := none
    low := none, rangePct := none, positionInRange := none, tickCount := 0, avgSpread := none }

def avgSpread (rows : List PriceTick) : Option ℚ :=
  let spreads := rows.filterMap PriceTick.spread
  if spreads = [] then none else some (spreads.sum / spreads.length)

/-- `_summarize_window`. -/
def summarizeWindow (windowSec : ℤ) : List PriceTick → BeforeStateWindow
  | [] => emptyWindow windowSec
  | row :: rows =>
    let prices := (row :: rows).map PriceTick.price
    let priceStart := row.price
    let priceEnd := (prices.getLast?).getD priceStart
    let high := prices.foldl max priceStart
    let low := prices.foldl min priceStart
    let positionInRange := if low < high then (priceEnd - low) / (high - low) else 1 / 2
    { windowSec := windowSec
      priceStart := some (roundTo 6 priceStart)
      priceEnd := some (roundTo 6 priceEnd)
      netDeltaPct := if priceStart = 0 then none
        else some (roundTo 4 ((priceEnd - priceStart) / priceStart * 100))
      high := some (roundTo 6 high)
      low := some (roundTo 6 low)
      rangePct := if priceStart = 0 then none
        else some (roundTo 4 ((high - low) / priceStart * 100))
      positionInRange := some (roundTo 4 positionInRange)
      tickCount := (row :: rows).length
      avgSpread := (avgSpread (row :: rows)).map (roundTo 6) }

/-- `_summarize_activity`. -/
def summarizeActivity (rows : List PriceTick) (endMs : ℤ) : BeforeStateActivity :=
  let last5m := rows.filter fun row => endMs - 300000 ≤ row.tsMs
  let prior30m := rows.filter fun row => endMs - 2100000 ≤ row.tsMs ∧ row.tsMs < endMs - 300000
  let prior30mAvg5m : Option ℚ := if prior30m = [] then none else some (prior30m.length / 6)
  let tickActivityRatio := prior30mAvg5m.bind fun average =>
    if 0 < average then some (last5m.length / average) else none
  let spreadChangePct := (avgSpread prior30m).bind fun prior =>
    if prior = 0 then none else (avgSpread last5m).map fun last => (last - prior) / prior * 100
  { last5mTickCount := last5m.length
    prior30mAvg5mTickCount := prior30mAvg5m.map (roundTo 2)
    tickActivityRatio := tickActivityRatio.map (roundTo 4)
    last5mAvgSpread := (avgSpread last5m).map (roundTo 6)
    prior30mAvgSpread := (avgSpread prior30m).map (roundTo 6)
    spreadChangePct := spreadChangePct.map (roundTo 4) }

/-- `_classify_regime`. -/
def classifyRegime (alert : ShiftAlert) (lookback30m : BeforeStateWindow)
    (activity : BeforeStateActivity) : String :=
  let signed := alert.shift.signedDeltaPct
  if lookback30m.rangePct.any (fun range => range ≤ 4) ∧
      activity.tickActivityRatio.all (fun ratio => 3 / 2 ≤ ratio) then "quiet_breakout"
  else if lookback30m.netDeltaPct.any (fun net => net ≤ -5) ∧ 0 ≤ signed then "recovery_move"
  else if lookback30m.netDeltaPct.any (fun net => 5 ≤ net) ∧ signed < 0 then "pullback_move"
  else if lookback30m.netDeltaPct.any (fun net => 5 ≤ |net| ∧ 0 < net * signed) then
    "trend_acceleration"
  else if lookback30m.rangePct.any (fun range => 12 ≤ range) then "choppy_regime"
  else "mixed_regime"

end Sentinel.Processing

namespace Sentinel.Storage

/-- `SELECT ... WHERE asset_id = ? AND ts_ms >= ? AND ts_ms < ? ORDER BY ts_ms ASC`. -/
def PriceTicks.fetchPriceTicksForAsset (ticks : PriceTicks) (assetId : String) (startMs endMs : ℤ) :
    List PriceTick :=
  (ticks.filter fun t => t.assetId = assetId && (startMs ≤ t.tsMs && t.tsMs < endMs)).insertionSort
    fun a b => a.tsMs ≤ b.tsMs

end Sentinel.Storage

namespace Sentinel.Processing

open Contracts Storage

section Enrich

variable (py : Notifications.Builtins)

/-- `str(alert.market.get("asset_id") or "")`. -/
def alertAsset (alert : ShiftAlert) : String :=
  py.str (JsonValue.orElse (alert.market.lookup (.other "asset_id")) (str ""))

def enrich (ticks : PriceTicks) (alert : ShiftAlert) : ShiftAlert :=
  if alertAsset py alert = "" then alert
  else
    let endMs := alert.timestampMs
    let rows := ticks.fetchPriceTicksForAsset (alertAsset py alert) (endMs - 3600000) endMs
    if rows = [] then alert
    else
      let lookback30m := summarizeWindow 1800 (rows.filter fun row => endMs - 1800000 ≤ row.tsMs)
      let activity := summarizeActivity rows endMs
      { alert with
        beforeState := some
          { lookback30m := lookback30m
            lookback60m := summarizeWindow 3600 rows
            activity := activity
            regimeLabel := classifyRegime alert lookback30m activity } }

/-! ## What is to depend on the past only -/

def BeforeStateWindow.priceStatistics (w : BeforeStateWindow) : List (Option ℚ) :=
  [w.priceStart, w.priceEnd, w.netDeltaPct, w.high, w.low, w.rangePct, w.positionInRange]

/-- The price statistics of both windows, if there are any. -/
def priceStatistics (ticks : PriceTicks) (alert : ShiftAlert) :
    Option (List (Option ℚ) × List (Option ℚ)) :=
  (enrich py ticks alert).beforeState.map fun state =>
    (state.lookback30m.priceStatistics, state.lookback60m.priceStatistics)

/-- The start of the window over which the alert was found. -/
def shiftStartMs (alert : ShiftAlert) : ℤ := alert.timestampMs - alert.shift.windowSec * 1000

/-- The ticks of the alert's asset before that. -/
def ticksBefore (alert : ShiftAlert) (ticks : PriceTicks) : PriceTicks :=
  ticks.filter fun t => t.assetId = alertAsset py alert && t.tsMs < shiftStartMs alert

/-- Histories of the asset that agree before the shift give the same statistics. -/
def PrecedesShift (alert : ShiftAlert) : Prop :=
  ∀ ticks ticks' : PriceTicks, ticksBefore py alert ticks = ticksBefore py alert ticks' →
    priceStatistics py ticks alert = priceStatistics py ticks' alert

/-! ## Without a window -/

variable {py} {ticks ticks' : PriceTicks} {alert : ShiftAlert} {price : ℚ} {rows : List PriceTick}
  {row : PriceTick}

/-- The store is read once. -/
theorem priceStatistics_congr
    (h : alertAsset py alert ≠ "" →
      ticks.fetchPriceTicksForAsset (alertAsset py alert) (alert.timestampMs - 3600000)
          alert.timestampMs =
        ticks'.fetchPriceTicksForAsset (alertAsset py alert) (alert.timestampMs - 3600000)
          alert.timestampMs) :
    priceStatistics py ticks alert = priceStatistics py ticks' alert := by
  rw [priceStatistics, priceStatistics, enrich, enrich]
  by_cases hasset : alertAsset py alert = ""
  · rw [if_pos hasset, if_pos hasset]
  · rw [if_neg hasset, if_neg hasset]
    dsimp only
    rw [h hasset]

/-- With an empty window all that is read is from before it. -/
theorem fetch_ticksBefore (h : alert.shift.windowSec ≤ 0) (startMs : ℤ) :
    ticks.fetchPriceTicksForAsset (alertAsset py alert) startMs alert.timestampMs =
      (ticksBefore py alert ticks).fetchPriceTicksForAsset (alertAsset py alert) startMs
        alert.timestampMs := by
  rw [PriceTicks.fetchPriceTicksForAsset, PriceTicks.fetchPriceTicksForAsset, ticksBefore,
    List.filter_filter]
  congr 1
  refine List.filter_congr fun t _ => ?_
  have hstart : alert.timestampMs ≤ shiftStartMs alert := by
    rw [shiftStartMs]
    omega
  by_cases hend : t.tsMs < alert.timestampMs
  · have hbefore : t.tsMs < shiftStartMs alert := hend.trans_le hstart
    by_cases hasset : t.assetId = alertAsset py alert <;> simp [hend, hbefore, hasset]
  · simp [hend]

theorem priceStatistics_of_rows (hasset : alertAsset py alert ≠ "")
    (hrows : ticks.fetchPriceTicksForAsset (alertAsset py alert) (alert.timestampMs - 3600000)
      alert.timestampMs ≠ []) :
    priceStatistics py ticks alert =
      some ((summarizeWindow 1800 ((ticks.fetchPriceTicksForAsset (alertAsset py alert)
          (alert.timestampMs - 3600000) alert.timestampMs).filter
            fun row => alert.timestampMs - 1800000 ≤ row.tsMs)).priceStatistics,
        (summarizeWindow 3600 (ticks.fetchPriceTicksForAsset (alertAsset py alert)
          (alert.timestampMs - 3600000) alert.timestampMs)).priceStatistics) := by
  rw [priceStatistics, enrich, if_neg hasset]
  dsimp only
  rw [if_neg hrows]
  rfl

/-! ## A tick just before the alert -/

def lastTick (py : Notifications.Builtins) (alert : ShiftAlert) (price : ℚ) : PriceTick :=
  { assetId := alertAsset py alert, marketSlug := "", price := price, bestBid := none
    bestAsk := none, spread := none, signalSource := "midpoint", quoteTsMs := none
    tsMs := alert.timestampMs - 1 }

theorem summarizeWindow_priceEnd {windowSec : ℤ} (h : rows.getLast? = some row) :
    (summarizeWindow windowSec rows).priceEnd = some (roundTo 6 row.price) := by
  cases rows with
  | nil => cases h
  | cons first rows =>
    have hlast : ((first :: rows).map PriceTick.price).getLast? = some row.price := by
      rw [List.getLast?_map, h]
      rfl
    rw [summarizeWindow]
    simp only [hlast, Option.getD_some]

/-- The tick is the last one that is read. -/
theorem getLast?_fetch (h : 0 < alert.shift.windowSec) (ticks : PriceTicks) (price : ℚ) :
    ((ticksBefore py alert ticks ++ [lastTick py alert price]).fetchPriceTicksForAsset
      (alertAsset py alert) (alert.timestampMs - 3600000) alert.timestampMs).getLast? =
        some (lastTick py alert price) := by
  have hmem : lastTick py alert price ∈
      (ticksBefore py alert ticks ++ [lastTick py alert price]).fetchPriceTicksForAsset
        (alertAsset py alert) (alert.timestampMs - 3600000) alert.timestampMs := by
    rw [PriceTicks.fetchPriceTicksForAsset, List.mem_insertionSort, List.mem_filter]
    have hhour : alert.timestampMs - 3600000 ≤ alert.timestampMs - 1 := by omega
    have hbefore : alert.timestampMs - 1 < alert.timestampMs := by omega
    refine ⟨by simp, ?_⟩
    rw [Bool.and_eq_true, Bool.and_eq_true]
    exact ⟨decide_eq_true rfl, decide_eq_true hhour, decide_eq_true hbefore⟩
  obtain ⟨init, last, hrows⟩ := (List.eq_nil_or_concat' _).resolve_left (List.ne_nil_of_mem hmem)
  have hsorted := List.pairwise_insertionSort (fun a b : PriceTick => a.tsMs ≤ b.tsMs)
    ((ticksBefore py alert ticks ++ [lastTick py alert price]).filter fun t =>
      t.assetId = alertAsset py alert &&
        (alert.timestampMs - 3600000 ≤ t.tsMs && t.tsMs < alert.timestampMs))
  change (PriceTicks.fetchPriceTicksForAsset _ _ _ _).Pairwise _ at hsorted
  rw [hrows] at hsorted hmem ⊢
  rw [List.getLast?_concat]
  -- all others are from before the window, and it is not
  have hle : alert.timestampMs - 1 ≤ last.tsMs := by
    rcases List.mem_append.mp hmem with hmem | hmem
    · exact (List.pairwise_append.mp hsorted).2.2 _ hmem last (by simp)
    · rw [← List.mem_singleton.mp hmem]
      rfl
  have hlast : last ∈ ticksBefore py alert ticks ++ [lastTick py alert price] := by
    have hin : last ∈ PriceTicks.fetchPriceTicksForAsset
        (ticksBefore py alert ticks ++ [lastTick py alert price]) (alertAsset py alert)
        (alert.timestampMs - 3600000) alert.timestampMs := by
      rw [hrows]
      simp
    exact List.mem_of_mem_filter (List.mem_insertionSort _ |>.mp hin)
  rcases List.mem_append.mp hlast with hold | hnew
  · have hbefore := (List.mem_filter.mp hold).2
    rw [Bool.and_eq_true, decide_eq_true_eq, decide_eq_true_eq, shiftStartMs] at hbefore
    have hlt := hbefore.2
    omega
  · rw [List.mem_singleton.mp hnew]

theorem priceEnd_lastTick (hasset : alertAsset py alert ≠ "") (h : 0 < alert.shift.windowSec)
    (ticks : PriceTicks) (price : ℚ) :
    ((priceStatistics py (ticksBefore py alert ticks ++ [lastTick py alert price]) alert).bind
      fun statistics => statistics.2.getD 1 none) = some (roundTo 6 price) := by
  have hlast : ((ticksBefore py alert ticks ++ [lastTick py alert price]).fetchPriceTicksForAsset
      (alertAsset py alert) (alert.timestampMs - 3600000) alert.timestampMs).getLast? =
        some (lastTick py alert price) := getLast?_fetch h ticks price
  have hne : (ticksBefore py alert ticks ++ [lastTick py alert price]).fetchPriceTicksForAsset
      (alertAsset py alert) (alert.timestampMs - 3600000) alert.timestampMs ≠ [] := by
    intro hnil
    rw [hnil] at hlast
    cases hlast
  have hsummary : ∀ w : BeforeStateWindow, w.priceStatistics.getD 1 none = w.priceEnd := fun w => rfl
  have hprice : (lastTick py alert price).price = price := rfl
  rw [priceStatistics_of_rows hasset hne, Option.bind_some, hsummary, summarizeWindow_priceEnd hlast,
    hprice]

/-- What the statistics say always depends on what comes after the start of the window. -/
theorem exists_leak (hasset : alertAsset py alert ≠ "") (h : 0 < alert.shift.windowSec)
    (ticks : PriceTicks) : ∃ ticks', ticksBefore py alert ticks = ticksBefore py alert ticks' ∧
      priceStatistics py ticks alert ≠ priceStatistics py ticks' alert := by
  have hagree : ∀ price, ticksBefore py alert ticks =
      ticksBefore py alert (ticksBefore py alert ticks ++ [lastTick py alert price]) := by
    intro price
    have hnew : ticksBefore py alert [lastTick py alert price] = [] := by
      refine List.filter_eq_nil_iff.mpr fun t ht => ?_
      rw [List.mem_singleton.mp ht, Bool.and_eq_true, decide_eq_true_eq, decide_eq_true_eq, shiftStartMs]
      rintro ⟨-, hlt⟩
      change alert.timestampMs - 1 < _ at hlt
      omega
    have happend : ticksBefore py alert (ticksBefore py alert ticks ++ [lastTick py alert price]) =
        ticksBefore py alert (ticksBefore py alert ticks) ++
          ticksBefore py alert [lastTick py alert price] := List.filter_append _ _
    rw [happend, hnew, List.append_nil, ticksBefore, ticksBefore, List.filter_filter]
    exact List.filter_congr fun t _ => (Bool.and_self _).symm
  by_contra hnone
  push Not at hnone
  have hquarter := priceEnd_lastTick hasset h ticks (1 / 4)
  have hthree := priceEnd_lastTick hasset h ticks (3 / 4)
  rw [← hnone _ (hagree _)] at hquarter hthree
  rw [hquarter] at hthree
  revert hthree
  decide +kernel

theorem precedesShift_iff :
    PrecedesShift py alert ↔ alertAsset py alert = "" ∨ alert.shift.windowSec ≤ 0 := by
  constructor
  · intro h
    by_contra hneither
    rw [not_or, not_le] at hneither
    obtain ⟨ticks', hagree, hne⟩ := exists_leak hneither.1 hneither.2 []
    exact hne (h [] ticks' hagree)
  · rintro (hasset | hwindow) ticks ticks' hagree
    · exact priceStatistics_congr fun hne => absurd hasset hne
    · refine priceStatistics_congr fun _ => ?_
      rw [fetch_ticksBefore hwindow, hagree, ← fetch_ticksBefore hwindow]

end Enrich

namespace Sample

/-- What a scan finds after two quotes a second apart. -/
def foundAlerts : List ShiftAlert :=
  (([WatchEvent.ingest 1000500 (quotedTick (1 / 10) 1000500),
      .ingest 1001500 (quotedTick (1 / 5) 1001500)].foldl (watchStep alertBuiltins detectorConfig)
    (watchStart 1000000)).detector.scanAsset alertBuiltins detectorConfig 1002000
      (some (Storage.Sample.market "a" "q")) "a").2.map ShiftDetector.Emission.alert

end Sample

/-- The statistics tell the price just before the alert. -/
theorem shift_in_before_state : ∃ alert ∈ Sample.foundAlerts,
    ¬ PrecedesShift Notifications.Sample.builtins alert := by
  have hfound : Sample.foundAlerts.any (fun alert =>
      let quarter := [lastTick Notifications.Sample.builtins alert (1 / 4)]
      let three := [lastTick Notifications.Sample.builtins alert (3 / 4)]
      decide (ticksBefore Notifications.Sample.builtins alert quarter =
        ticksBefore Notifications.Sample.builtins alert three) &&
      !decide (priceStatistics Notifications.Sample.builtins quarter alert =
        priceStatistics Notifications.Sample.builtins three alert)) = true := by decide +kernel
  obtain ⟨alert, hmem, hboth⟩ := List.any_eq_true.mp hfound
  rw [Bool.and_eq_true, Bool.not_eq_true', decide_eq_true_eq, decide_eq_false_iff_not] at hboth
  exact ⟨alert, hmem, fun h => hboth.2 (h _ _ hboth.1)⟩

end Sentinel.Processing
