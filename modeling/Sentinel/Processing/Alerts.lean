import Sentinel.Contracts.Scout

/-!
# The alert as Sentinel sends it

The records of `sentinel.processing.alerts` and their JSON.  `ShiftAlert.mirror` is the alert in the
records of the researcher; `ShiftAlert.load_toDict` says that this is what the researcher reads.
-/

namespace Sentinel.Processing

open Logic Contracts Fields

inductive AlertLevel : Type
  | scout | confirmation | trend
  deriving DecidableEq

def AlertLevel.value : AlertLevel → String
  | .scout => "scout"
  | .confirmation => "confirmation"
  | .trend => "trend"

/-- `AlertLevel(value)`, which raises on any other text. -/
def AlertLevel.ofValue (value : String) : Option AlertLevel :=
  [AlertLevel.scout, .confirmation, .trend].find? fun level => level.value = value

/-- `LEVEL_ORDER`. -/
def AlertLevel.order : AlertLevel → ℕ
  | .scout => 1
  | .confirmation => 2
  | .trend => 3

def levelAtLeast (level minimum : AlertLevel) : Bool := minimum.order ≤ level.order

structure SignalQuality : Type where
  signalSource : String
  bestBid : Option ℚ
  bestAsk : Option ℚ
  spread : Option ℚ
  quoteAgeSec : Option ℚ
  liquidityBucket : String
  confidence : String
  deriving DecidableEq

structure ShiftSummary : Type where
  direction : String
  deltaPct : ℚ
  signedDeltaPct : ℚ
  priceStart : ℚ
  priceEnd : ℚ
  priceCurrent : ℚ
  windowSec : ℤ
  ticksInWindow : ℤ
  deriving DecidableEq

structure BeforeStateWindow : Type where
  windowSec : ℤ
  priceStart : Option ℚ
  priceEnd : Option ℚ
  netDeltaPct : Option ℚ
  high : Option ℚ
  low : Option ℚ
  rangePct : Option ℚ
  positionInRange : Option ℚ
  tickCount : ℤ
  avgSpread : Option ℚ
  deriving DecidableEq

structure BeforeStateActivity : Type where
  last5mTickCount : ℤ
  prior30mAvg5mTickCount : Option ℚ
  tickActivityRatio : Option ℚ
  last5mAvgSpread : Option ℚ
  prior30mAvgSpread : Option ℚ
  spreadChangePct : Option ℚ
  deriving DecidableEq

structure BeforeState : Type where
  lookback30m : BeforeStateWindow
  lookback60m : BeforeStateWindow
  activity : BeforeStateActivity
  regimeLabel : String
  deriving DecidableEq

structure ShiftAlert : Type where
  alertId : String
  alertLevel : String
  alertLevelLabel : String
  timestampIso : String
  timestampMs : ℤ
  market : Dict
  shift : ShiftSummary
  signalQuality : SignalQuality
  beforeState : Option BeforeState := none

/-! ## JSON -/

/-- A `float | None`. -/
def floatOrNone : Option ℚ → JsonValue
  | none => .null
  | some q => .num q

def str (s : String) : JsonValue := .str (lit s)

/-! `asdict` of each record. -/

def SignalQuality.asdict (r : SignalQuality) : JsonValue :=
  .obj [(.field .signalSource, str r.signalSource), (.field .bestBid, floatOrNone r.bestBid),
    (.field .bestAsk, floatOrNone r.bestAsk), (.field .spread, floatOrNone r.spread),
    (.field .quoteAgeSec, floatOrNone r.quoteAgeSec),
    (.field .liquidityBucket, str r.liquidityBucket), (.field .confidence, str r.confidence)]

def ShiftSummary.asdict (r : ShiftSummary) : JsonValue :=
  .obj [(.field .direction, str r.direction), (.field .deltaPct, .num r.deltaPct),
    (.field .signedDeltaPct, .num r.signedDeltaPct), (.field .priceStart, .num r.priceStart),
    (.field .priceEnd, .num r.priceEnd), (.field .priceCurrent, .num r.priceCurrent),
    (.field .windowSec, .int r.windowSec), (.field .ticksInWindow, .int r.ticksInWindow)]

def BeforeStateWindow.asdict (r : BeforeStateWindow) : JsonValue :=
  .obj [(.field .windowSec, .int r.windowSec), (.field .priceStart, floatOrNone r.priceStart),
    (.field .priceEnd, floatOrNone r.priceEnd), (.field .netDeltaPct, floatOrNone r.netDeltaPct),
    (.field .high, floatOrNone r.high), (.field .low, floatOrNone r.low),
    (.field .rangePct, floatOrNone r.rangePct),
    (.field .positionInRange, floatOrNone r.positionInRange),
    (.field .tickCount, .int r.tickCount), (.field .avgSpread, floatOrNone r.avgSpread)]

def BeforeStateActivity.asdict (r : BeforeStateActivity) : JsonValue :=
  .obj [(.field .last5mTickCount, .int r.last5mTickCount),
    (.field .prior30mAvg5mTickCount, floatOrNone r.prior30mAvg5mTickCount),
    (.field .tickActivityRatio, floatOrNone r.tickActivityRatio),
    (.field .last5mAvgSpread, floatOrNone r.last5mAvgSpread),
    (.field .prior30mAvgSpread, floatOrNone r.prior30mAvgSpread),
    (.field .spreadChangePct, floatOrNone r.spreadChangePct)]

def BeforeState.asdict (r : BeforeState) : JsonValue :=
  .obj [(.field .lookback30m, r.lookback30m.asdict), (.field .lookback60m, r.lookback60m.asdict),
    (.field .activity, r.activity.asdict), (.field .regimeLabel, str r.regimeLabel)]

/-- An alert without a state before it carries the key with `null`. -/
def ShiftAlert.toDict (a : ShiftAlert) : JsonValue :=
  .obj [(.field .alertId, str a.alertId), (.field .alertLevel, str a.alertLevel),
    (.field .alertLevelLabel, str a.alertLevelLabel), (.field .timestampIso, str a.timestampIso),
    (.field .timestampMs, .int a.timestampMs), (.field .market, .obj a.market),
    (.field .shift, a.shift.asdict), (.field .signalQuality, a.signalQuality.asdict),
    (.field .beforeState, (a.beforeState.map BeforeState.asdict).getD .null)]

/-! ## The same values in the records of the researcher -/

def SignalQuality.mirror (r : SignalQuality) : SignalQualityModel :=
  { signalSource := lit r.signalSource, bestBid := r.bestBid, bestAsk := r.bestAsk
    spread := r.spread, quoteAgeSec := r.quoteAgeSec, liquidityBucket := lit r.liquidityBucket
    confidence := lit r.confidence }

def ShiftSummary.mirror (r : ShiftSummary) : ShiftSummaryModel :=
  { direction := lit r.direction, deltaPct := r.deltaPct, signedDeltaPct := r.signedDeltaPct
    priceStart := r.priceStart, priceEnd := r.priceEnd, priceCurrent := r.priceCurrent
    windowSec := r.windowSec, ticksInWindow := r.ticksInWindow }

def BeforeStateWindow.mirror (r : BeforeStateWindow) : BeforeStateWindowModel :=
  { windowSec := r.windowSec, priceStart := r.priceStart, priceEnd := r.priceEnd
    netDeltaPct := r.netDeltaPct, high := r.high, low := r.low, rangePct := r.rangePct
    positionInRange := r.positionInRange, tickCount := r.tickCount, avgSpread := r.avgSpread }

def BeforeStateActivity.mirror (r : BeforeStateActivity) : BeforeStateActivityModel :=
  { last5mTickCount := r.last5mTickCount, prior30mAvg5mTickCount := r.prior30mAvg5mTickCount
    tickActivityRatio := r.tickActivityRatio, last5mAvgSpread := r.last5mAvgSpread
    prior30mAvgSpread := r.prior30mAvgSpread, spreadChangePct := r.spreadChangePct }

def BeforeState.mirror (r : BeforeState) : BeforeStateModel :=
  { lookback30m := r.lookback30m.mirror, lookback60m := r.lookback60m.mirror
    activity := r.activity.mirror, regimeLabel := lit r.regimeLabel }

def ShiftAlert.mirror (a : ShiftAlert) : ShiftAlertMirror :=
  { alertId := lit a.alertId, alertLevel := lit a.alertLevel
    alertLevelLabel := lit a.alertLevelLabel, timestampIso := lit a.timestampIso
    timestampMs := a.timestampMs, market := a.market, shift := a.shift.mirror
    signalQuality := a.signalQuality.mirror, beforeState := a.beforeState.map BeforeState.mirror
    metadata := [] }

/-! ## What is sent is what is read -/

theorem floatOrNone_eq (q : Option ℚ) :
    floatOrNone q = (Contract.float.option (by intro _ h; cases h)).dump q := by
  cases q <;> rfl

/-- Each record is written as the researcher's own record would be. -/
theorem SignalQuality.asdict_eq (r : SignalQuality) :
    r.asdict = SignalQualityModel.contract.dump r.mirror := by
  simp only [asdict, floatOrNone_eq]
  rfl

theorem ShiftSummary.asdict_eq (r : ShiftSummary) :
    r.asdict = ShiftSummaryModel.contract.dump r.mirror := rfl

theorem BeforeStateWindow.asdict_eq (r : BeforeStateWindow) :
    r.asdict = BeforeStateWindowModel.contract.dump r.mirror := by
  simp only [asdict, floatOrNone_eq]
  rfl

theorem BeforeStateActivity.asdict_eq (r : BeforeStateActivity) :
    r.asdict = BeforeStateActivityModel.contract.dump r.mirror := by
  simp only [asdict, floatOrNone_eq]
  rfl

theorem BeforeState.asdict_eq (r : BeforeState) :
    r.asdict = BeforeStateModel.contract.dump r.mirror := by
  simp only [asdict, BeforeStateWindow.asdict_eq, BeforeStateActivity.asdict_eq]
  rfl

/-- Only `metadata` is not sent, and the researcher fills it in. -/
theorem ShiftAlert.load_toDict (a : ShiftAlert) :
    ShiftAlertMirror.contract.load a.toDict = some a.mirror := by
  have hbefore : (a.beforeState.map BeforeState.asdict).getD .null =
      (BeforeStateModel.contract.option (by intro _ h; cases h)).dump
        (a.beforeState.map BeforeState.mirror) := by
    cases a.beforeState with
    | none => rfl
    | some r => exact r.asdict_eq
  have hshift := a.shift.asdict_eq
  have hquality := a.signalQuality.asdict_eq
  simp only [toDict, hbefore, hshift, hquality]
  -- the keys are those of the model, and each field is loaded in turn
  refine Option.map_eq_some_iff.mpr ⟨(lit a.alertId, lit a.alertLevel, lit a.alertLevelLabel,
    lit a.timestampIso, a.timestampMs, a.market, a.shift.mirror, a.signalQuality.mirror,
    a.beforeState.map BeforeState.mirror, [], ()), codec_load
      (fun k hk => ?_) ?_, rfl⟩
  · have hmem := List.mem_append_left [Key.field .metadata] hk
    simp only [cons, nil]
    exact hmem
  · exact load_cons_dump (load_cons_dump (load_cons_dump (load_cons_dump (load_cons_dump
      (load_cons_dump (load_cons_dump (load_cons_dump (load_cons_dump rfl))))))))

end Sentinel.Processing
