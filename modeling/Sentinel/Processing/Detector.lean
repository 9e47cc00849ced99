import Mathlib.Algebra.Order.Group.Abs
import Mathlib.Algebra.Order.Ring.Rat
import Mathlib.Data.Rat.Floor
import Sentinel.Ingestion.Models
import Sentinel.Logic.OrderedMap
import Sentinel.Logic.Rounding
import Sentinel.Processing.Alerts

/-!
# The shift detector

`ShiftDetector` turns the ticks of each asset into bars of one second, drops the old ones, and looks
for a shift of the price over a window.  A scan keeps the deque of an asset while others write to it
or remove it from the map, so the map holds the index of a deque, and deques are kept for ever.
-/

namespace Sentinel.Processing

open Logic Contracts Ingestion

structure ThresholdConfig : Type where
  windowSec : ℤ
  deltaPct : ℚ
  minTicks : ℤ

/-- The part of the configuration that the detector reads. -/
structure DetectorConfig : Type where
  bufferMaxAgeSec : ℤ
  cooldownSec : ℤ
  staleThresholdSec : ℤ
  maxSpreadForDetection : ℚ
  maxQuoteAgeSec : ℤ
  warmupGraceSec : ℤ
  thresholds : AlertLevel → ThresholdConfig

structure SecondBar : Type where
  secondTsMs : ℤ
  priceOpen : ℚ
  priceLast : ℚ
  tickCount : ℤ
  spreadLast : Option ℚ
  quoteTsMs : Option ℤ
  deriving DecidableEq

/-! ## Bars -/

/-- `(timestamp_ms // 1000) * 1000`. -/
def bucketMs (timestampMs : ℤ) : ℤ := timestampMs / 1000 * 1000

/-- The bar of a tick that is the first of its second. -/
def newBar (tick : PriceTick) : SecondBar :=
  { secondTsMs := bucketMs tick.timestampMs, priceOpen := tick.price, priceLast := tick.price
    tickCount := 1, spreadLast := tick.spread, quoteTsMs := tick.quoteTsMs }

def SecondBar.add (bar : SecondBar) (tick : PriceTick) : SecondBar :=
  { bar with
    priceLast := tick.price
    tickCount := bar.tickCount + 1
    spreadLast := if tick.spread.isSome then tick.spread else bar.spreadLast
    quoteTsMs := if tick.spread.isSome then tick.quoteTsMs else bar.quoteTsMs }

def upsertBar (bars : List SecondBar) (tick : PriceTick) : List SecondBar :=
  match bars.getLast? with
  | some bar =>
    if bar.secondTsMs = bucketMs tick.timestampMs then bars.dropLast ++ [bar.add tick]
    else bars ++ [newBar tick]
  | none => [newBar tick]

def pruneCutoff (cfg : DetectorConfig) (nowMs : ℤ) : ℤ := nowMs - cfg.bufferMaxAgeSec * 1000

/-- The bars from a time on. -/
def barsFrom (cutoffMs : ℤ) (bars : List SecondBar) : List SecondBar :=
  bars.dropWhile fun bar => bar.secondTsMs < cutoffMs

def pruneBars (cfg : DetectorConfig) (nowMs : ℤ) (bars : List SecondBar) : List SecondBar :=
  barsFrom (pruneCutoff cfg nowMs) bars

/-- The last bar with a spread. -/
def latestWithQuote (bars : List SecondBar) : Option SecondBar :=
  bars.reverse.find? fun bar => bar.spreadLast.isSome

def shouldSkip (cfg : DetectorConfig) (nowMs : ℤ) (market : Option MarketMetadata)
    (bars : List SecondBar) : Bool :=
  match bars.getLast? with
  | none => true
  | some last =>
    if cfg.staleThresholdSec * 1000 < nowMs - last.secondTsMs then true
    else match latestWithQuote bars with
    | none => !(market.any fun m => nowMs - m.subscribedAtMs ≤ cfg.warmupGraceSec * 1000)
    | some quoted =>
      if cfg.maxQuoteAgeSec * 1000 < nowMs - quoted.quoteTsMs.getD 0 then true
      else if cfg.maxSpreadForDetection < quoted.spreadLast.getD 0 then true
      else market.any fun m => !m.active

/-! ## The shift over a window -/

structure Delta : Type where
  deltaPct : ℚ
  signedDeltaPct : ℚ
  startPrice : ℚ
  endPrice : ℚ
  tickCount : ℤ
  deriving DecidableEq

def signedDelta (startPrice endPrice : ℚ) : ℚ := (endPrice - startPrice) / startPrice * 100

def computeDelta (threshold : ThresholdConfig) (bars : List SecondBar) : Option Delta :=
  if bars.length < 2 then none
  else match bars.getLast? with
  | none => none
  | some last =>
    let cutoffMs := last.secondTsMs - threshold.windowSec * 1000
    let window := bars.filter fun bar => cutoffMs ≤ bar.secondTsMs
    let tickCount := (window.map SecondBar.tickCount).sum
    match window.head? with
    | none => none
    | some first =>
      if first.priceOpen = 0 then none
      else if tickCount < threshold.minTicks then none
      else
        let signed := signedDelta first.priceOpen last.priceLast
        some ⟨|signed|, signed, first.priceOpen, last.priceLast, tickCount⟩

/-! ## Alerts -/

/-- `blake2s` of asset, level and time, and the printed time. -/
structure AlertBuiltins : Type where
  alertId : String → AlertLevel → ℤ → String
  timestampIso : ℤ → String

/-- `round(q, digits)`: to the nearest, and to an even digit in the middle. -/
def roundTo (digits : ℕ) (q : ℚ) : ℚ := roundHalfEven (q * 10 ^ digits) / 10 ^ digits

def AlertLevel.label : AlertLevel → String
  | .scout => "Scout Shift"
  | .confirmation => "Confirmed Shift"
  | .trend => "Decisive Shift"

/-- A `nan` is in no bucket but the last. -/
def liquidityBucket : Option ℚ → String
  | some liquidity =>
    if 100000 ≤ liquidity then "high" else if 25000 ≤ liquidity then "medium" else "low"
  | none => "low"

def isMidpoint (signalSource : String) : Bool :=
  "midpoint".toList.isPrefixOf signalSource.toList

def buildConfidence (latestTick : PriceTick) (market : MarketMetadata) (tickCount : ℤ)
    (quoteAgeSec : Option ℚ) (isWarmup : Bool) : String :=
  if isWarmup || !isMidpoint latestTick.signalSource then "weak"
  else match quoteAgeSec, latestTick.spread with
  | some age, some spread =>
    if age ≤ 5 ∧ spread ≤ 3 / 100 ∧ liquidityBucket market.liquidity = "high" ∧ 10 ≤ tickCount then
      "strong"
    else if age ≤ 15 ∧ spread ≤ 1 / 10 ∧ 5 ≤ tickCount then "moderate"
    else "weak"
  | _, _ => "weak"

/-- `_market_payload`; the volume and the liquidity of a stored market are numbers. -/
def marketPayload (m : MarketMetadata) : Dict :=
  [(.other "asset_id", str m.assetId), (.other "condition_id", str m.conditionId),
    (.other "market_id", str m.marketId), (.other "market_slug", str m.marketSlug),
    (.other "question", str m.question), (.other "description", str m.description),
    (.other "category", str m.category), (.other "tags", .arr (m.tags.map str)),
    (.other "event_id", str m.eventId), (.other "event_title", str m.eventTitle),
    (.other "event_slug", str m.eventSlug),
    (.other "sibling_asset_ids", .arr (m.siblingAssetIds.map str)),
    (.other "sibling_market_slugs", .arr (m.siblingMarketSlugs.map str)),
    (.other "outcome", str m.outcome), (.other "end_date", str m.endDate),
    (.other "volume_24h", floatOrNone m.volume24h), (.other "liquidity", floatOrNone m.liquidity),
    (.other "polymarket_url", str m.polymarketUrl)]

def signalQuality (cfg : DetectorConfig) (nowMs : ℤ) (market : MarketMetadata)
    (latestTick : PriceTick) (tickCount : ℤ) : SignalQuality :=
  let quoteAgeSec := latestTick.quoteTsMs.map fun ts => max ((nowMs - ts : ℚ) / 1000) 0
  let isWarmup := latestTick.signalSource = "last_trade" &&
    nowMs - market.subscribedAtMs ≤ cfg.warmupGraceSec * 1000
  { signalSource := latestTick.signalSource, bestBid := latestTick.bestBid
    bestAsk := latestTick.bestAsk, spread := latestTick.spread, quoteAgeSec := quoteAgeSec
    liquidityBucket := liquidityBucket market.liquidity
    confidence := buildConfidence latestTick market tickCount quoteAgeSec isWarmup }

def shiftAlert (py : AlertBuiltins) (cfg : DetectorConfig) (nowMs : ℤ) (assetId : String)
    (level : AlertLevel) (delta : Delta) (market : MarketMetadata) (latestTick : PriceTick) :
    ShiftAlert :=
  { alertId := py.alertId assetId level nowMs, alertLevel := level.value
    alertLevelLabel := level.label, timestampIso := py.timestampIso nowMs, timestampMs := nowMs
    market := marketPayload market
    shift :=
      { direction := if 0 ≤ delta.signedDeltaPct then "up" else "down"
        deltaPct := roundTo 4 delta.deltaPct, signedDeltaPct := roundTo 4 delta.signedDeltaPct
        priceStart := roundTo 6 delta.startPrice, priceEnd := roundTo 6 delta.endPrice
        priceCurrent := roundTo 6 latestTick.price
        windowSec := (cfg.thresholds level).windowSec, ticksInWindow := delta.tickCount }
    signalQuality := signalQuality cfg nowMs market latestTick delta.tickCount }

/-! ## The detector -/

structure ShiftDetector : Type where
  /-- Every deque there ever was. -/
  deques : List (List SecondBar)
  barsByAsset : OrderedMap String ℕ
  latestTickByAsset : OrderedMap String PriceTick
  cooldowns : OrderedMap (String × AlertLevel) ℤ

def emptyDetector : ShiftDetector := ⟨[], .empty, .empty, .empty⟩

namespace ShiftDetector

variable (d : ShiftDetector)

def bars (id : ℕ) : List SecondBar := (d.deques[id]?).getD []

/-- `ingest_tick` up to the store. -/
def ingestTick (cfg : DetectorConfig) (nowMs : ℤ) (tick : PriceTick) : ShiftDetector :=
  let latest := d.latestTickByAsset.set tick.assetId tick
  match d.barsByAsset.get tick.assetId with
  | some id =>
    { d with
      deques := d.deques.set id (pruneBars cfg nowMs (upsertBar (d.bars id) tick))
      latestTickByAsset := latest }
  | none =>
    { d with
      deques := d.deques ++ [pruneBars cfg nowMs (upsertBar [] tick)]
      barsByAsset := d.barsByAsset.set tick.assetId d.deques.length
      latestTickByAsset := latest }

def removeAsset (assetId : String) : ShiftDetector :=
  { d with
    barsByAsset := d.barsByAsset.erase assetId
    latestTickByAsset := d.latestTickByAsset.erase assetId
    cooldowns := d.cooldowns.filterKeys fun key => key.1 ≠ assetId }

/-- What the loop of `scan_once` does with an asset before it looks at the levels, and whether it
goes on to them. -/
def openAsset (cfg : DetectorConfig) (nowMs : ℤ) (market : Option MarketMetadata) (assetId : String)
    (id : ℕ) : ShiftDetector × Bool :=
  if d.bars id = [] then (d, false)
  else
    let bars := pruneBars cfg nowMs (d.bars id)
    let pruned := { d with deques := d.deques.set id bars }
    if bars = [] then
      ({ pruned with
          barsByAsset := d.barsByAsset.erase assetId
          latestTickByAsset := d.latestTickByAsset.erase assetId }, false)
    else (pruned, !shouldSkip cfg nowMs market bars)

/-- `_maybe_create_alert` up to the store; with the alert comes what `_compute_delta` returned. -/
def maybeCreateAlert (py : AlertBuiltins) (cfg : DetectorConfig) (nowMs : ℤ)
    (market : Option MarketMetadata) (assetId : String) (id : ℕ) (level : AlertLevel) :
    ShiftDetector × Option (Delta × ShiftAlert) :=
  match computeDelta (cfg.thresholds level) (d.bars id) with
  | none => (d, none)
  | some delta =>
    if delta.deltaPct < (cfg.thresholds level).deltaPct then (d, none)
    else if nowMs < (d.cooldowns.get (assetId, level)).getD 0 then (d, none)
    else match market, d.latestTickByAsset.get assetId with
    | some market, some latestTick =>
      ({ d with cooldowns := d.cooldowns.set (assetId, level) (nowMs + cfg.cooldownSec * 1000) },
        some (delta, shiftAlert py cfg nowMs assetId level delta market latestTick))
    | _, _ => (d, none)

/-- An alert, the level it was found at and the shift behind it. -/
structure Emission : Type where
  level : AlertLevel
  delta : Delta
  alert : ShiftAlert

/-- The inner loop of `scan_once`. -/
def scanLevels (py : AlertBuiltins) (cfg : DetectorConfig) (nowMs : ℤ)
    (market : Option MarketMetadata) (assetId : String) (id : ℕ) :
    ShiftDetector → List AlertLevel → ShiftDetector × List Emission
  | d, [] => (d, [])
  | d, level :: levels =>
    let (d, result) := d.maybeCreateAlert py cfg nowMs market assetId id level
    let (d, rest) := scanLevels py cfg nowMs market assetId id d levels
    (d, (result.map fun (delta, alert) => ⟨level, delta, alert⟩).toList ++ rest)

/-- The levels in the order in which they are looked at. -/
def scanOrder : List AlertLevel := [.scout, .confirmation, .trend]

/-- What `scan_once` does with one asset. -/
def scanAsset (py : AlertBuiltins) (cfg : DetectorConfig) (nowMs : ℤ)
    (market : Option MarketMetadata) (assetId : String) : ShiftDetector × List Emission :=
  match d.barsByAsset.get assetId with
  | none => (d, [])
  | some id => match d.openAsset cfg nowMs market assetId id with
    | (d, true) => scanLevels py cfg nowMs market assetId id d scanOrder
    | (d, false) => (d, [])

end ShiftDetector

end Sentinel.Processing
