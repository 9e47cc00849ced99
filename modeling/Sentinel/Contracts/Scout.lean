import Sentinel.Contracts.Common

/-!
# The alert as the researcher receives it

`ShiftAlertMirror` and its records.
-/

namespace Sentinel.Contracts

open Logic Fields

structure SignalQualityModel : Type where
  signalSource : Text
  bestBid : Option ℚ
  bestAsk : Option ℚ
  spread : Option ℚ
  quoteAgeSec : Option ℚ
  liquidityBucket : Text
  confidence : Text
  deriving DecidableEq

def SignalQualityModel.contract : Contract SignalQualityModel :=
  (cons (required .signalSource .text) <| cons (optional .bestBid .float) <|
    cons (optional .bestAsk .float) <| cons (optional .spread .float) <|
    cons (optional .quoteAgeSec .float) <| cons (required .liquidityBucket .text) <|
    cons (required .confidence .text) nil).codec.iso
  (fun (a, b, c, d, e, f, g, ()) => ⟨a, b, c, d, e, f, g⟩)
  (fun r => (r.signalSource, r.bestBid, r.bestAsk, r.spread, r.quoteAgeSec, r.liquidityBucket,
    r.confidence, ()))
  (fun _ => rfl)

structure ShiftSummaryModel : Type where
  direction : Text
  deltaPct : ℚ
  signedDeltaPct : ℚ
  priceStart : ℚ
  priceEnd : ℚ
  priceCurrent : ℚ
  windowSec : ℤ
  ticksInWindow : ℤ
  deriving DecidableEq

def ShiftSummaryModel.contract : Contract ShiftSummaryModel :=
  (cons (required .direction .text) <| cons (required .deltaPct .float) <|
    cons (required .signedDeltaPct .float) <| cons (required .priceStart .float) <|
    cons (required .priceEnd .float) <| cons (required .priceCurrent .float) <|
    cons (required .windowSec .int) <| cons (required .ticksInWindow .int) nil).codec.iso
  (fun (a, b, c, d, e, f, g, h, ()) => ⟨a, b, c, d, e, f, g, h⟩)
  (fun r => (r.direction, r.deltaPct, r.signedDeltaPct, r.priceStart, r.priceEnd, r.priceCurrent,
    r.windowSec, r.ticksInWindow, ()))
  (fun _ => rfl)

structure BeforeStateWindowModel : Type where
  windowSec : ℤ
  priceStart : Option ℚ
  priceEnd : Option ℚ
  netDeltaPct : Option ℚ
  high : Option ℚ
  low : Option ℚ
  rangePct : Option ℚ
  positionInRange : Option ℚ
  tickCount : ℤ
  avgSpread : Option ℚ
  deriving DecidableEq

def BeforeStateWindowModel.contract : Contract BeforeStateWindowModel :=
  (cons (required .windowSec .int) <| cons (optional .priceStart .float) <|
    cons (optional .priceEnd .float) <| cons (optional .netDeltaPct .float) <|
    cons (optional .high .float) <| cons (optional .low .float) <|
    cons (optional .rangePct .float) <| cons (optional .positionInRange .float) <|
    cons (required .tickCount .int) <| cons (optional .avgSpread .float) nil).codec.iso
  (fun (a, b, c, d, e, f, g, h, i, j, ()) => ⟨a, b, c, d, e, f, g, h, i, j⟩)
  (fun r => (r.windowSec, r.priceStart, r.priceEnd, r.netDeltaPct, r.high, r.low, r.rangePct,
    r.positionInRange, r.tickCount, r.avgSpread, ()))
  (fun _ => rfl)

structure BeforeStateActivityModel : Type where
  last5mTickCount : ℤ
  prior30mAvg5mTickCount : Option ℚ
  tickActivityRatio : Option ℚ
  last5mAvgSpread : Option ℚ
  prior30mAvgSpread : Option ℚ
  spreadChangePct : Option ℚ
  deriving DecidableEq

def BeforeStateActivityModel.contract : Contract BeforeStateActivityModel :=
  (cons (required .last5mTickCount .int) <| cons (optional .prior30mAvg5mTickCount .float) <|
    cons (optional .tickActivityRatio .float) <| cons (optional .last5mAvgSpread .float) <|
    cons (optional .prior30mAvgSpread .float) <|
    cons (optional .spreadChangePct .float) nil).codec.iso
  (fun (a, b, c, d, e, f, ()) => ⟨a, b, c, d, e, f⟩)
  (fun r => (r.last5mTickCount, r.prior30mAvg5mTickCount, r.tickActivityRatio, r.last5mAvgSpread,
    r.prior30mAvgSpread, r.spreadChangePct, ()))
  (fun _ => rfl)

structure BeforeStateModel : Type where
  lookback30m : BeforeStateWindowModel
  lookback60m : BeforeStateWindowModel
  activity : BeforeStateActivityModel
  regimeLabel : Text
  deriving DecidableEq

def BeforeStateModel.contract : Contract BeforeStateModel :=
  (cons (required .lookback30m BeforeStateWindowModel.contract) <|
    cons (required .lookback60m BeforeStateWindowModel.contract) <|
    cons (required .activity BeforeStateActivityModel.contract) <|
    cons (required .regimeLabel .text) nil).codec.iso
  (fun (a, b, c, d, ()) => ⟨a, b, c, d⟩)
  (fun r => (r.lookback30m, r.lookback60m, r.activity, r.regimeLabel, ()))
  (fun _ => rfl)

structure ShiftAlertMirror : Type where
  alertId : Text
  alertLevel : Text
  alertLevelLabel : Text
  timestampIso : Text
  timestampMs : ℤ
  market : Dict
  shift : ShiftSummaryModel
  signalQuality : SignalQualityModel
  beforeState : Option BeforeStateModel
  metadata : Dict
  deriving DecidableEq

def ShiftAlertMirror.contract : Contract ShiftAlertMirror :=
  (cons (required .alertId .text) <| cons (required .alertLevel .text) <|
    cons (required .alertLevelLabel .text) <| cons (required .timestampIso .text) <|
    cons (required .timestampMs .int) <| cons (required .market .dict) <|
    cons (required .shift ShiftSummaryModel.contract) <|
    cons (required .signalQuality SignalQualityModel.contract) <|
    cons (optional .beforeState BeforeStateModel.contract) <|
    cons (defaulting .metadata .dict []) nil).codec.iso
  (fun (a, b, c, d, e, f, g, h, i, j, ()) => ⟨a, b, c, d, e, f, g, h, i, j⟩)
  (fun r => (r.alertId, r.alertLevel, r.alertLevelLabel, r.timestampIso, r.timestampMs, r.market,
    r.shift, r.signalQuality, r.beforeState, r.metadata, ()))
  (fun _ => rfl)

end Sentinel.Contracts
