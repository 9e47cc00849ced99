import Sentinel.Analyst.Technicals
import Sentinel.Researcher.Worker

/-!
# The analyst

`AnalystWorker.process_next`: one ANALYSIS job.  The portfolio is snapshot and saved, each
hypothesis becomes a candidate, and the report goes to the executor if some candidate passed all
filters.
-/

namespace Sentinel.Pipeline

open Logic Contracts Analyst

/-! ## Filters and scores -/

def filterResult (name : String) (passed : Bool) (value : Text) (yes no : String) : FilterResult :=
  ⟨lit name, passed, value, lit (if passed then yes else no)⟩

def boolLower (b : Bool) : Text := lit (if b then "true" else "false")

def evaluateFilters (snapshot : MarketDataSnapshot) (cfg : AnalystSection) : List FilterResult :=
  [filterResult "tradable" (snapshot.tradable && !snapshot.halted)
      (boolLower (snapshot.tradable && !snapshot.halted))
      "Broker indicates instrument is tradable and not halted."
      "Instrument is not tradable or is halted.",
    filterResult "regular_hours" (snapshot.session = lit "regular") snapshot.session
      "Regular session is open." "Trading is limited to regular market hours in v1.",
    filterResult "price_band" (cfg.minPrice ≤ snapshot.lastPrice ∧ snapshot.lastPrice ≤ cfg.maxPrice)
      [.dec snapshot.lastPrice] "Price is inside configured band." "Price is outside configured band.",
    filterResult "spread_bps" (snapshot.spreadBps ≤ cfg.maxSpreadBps) [.fixed 4 snapshot.spreadBps]
      "Spread is below max threshold." "Spread is too wide for v1 execution.",
    filterResult "avg_dollar_volume" (cfg.minAvgDollarVolume ≤ snapshot.avgDailyDollarVolume)
      [.dec snapshot.avgDailyDollarVolume] "Average dollar volume meets minimum."
      "Average dollar volume is below minimum."]

/-- Rounding to four digits changes nothing: the weights are multiples of one half. -/
def scoreCandidate (passedFilters failedFilters : ℕ) (confidenceWeight : ℚ) : ℚ :=
  passedFilters * (3/2) - failedFilters * 1 + confidenceWeight

def buildStageSummary (candidateCount rejectedCount : ℕ) : Text :=
  [.lit "Analyst produced ", .int candidateCount, .lit " candidates and rejected ",
    .int rejectedCount, .lit " instruments."]

def confidenceWeight : Confidence → ℚ
  | .high => 3/2
  | .medium => 1
  | .low => 1/2

/-! ## Candidates -/

/-- `str(value or "")` of an indicator. -/
def indicatorText (value : Option Decimal) : Text :=
  match value with
  | some q => if q = 0 then lit "" else [.dec q]
  | none => lit ""

/-- `str(value or "")` of the volatility. -/
def volatilityText (value : Option PyDecimal) : Text :=
  match value with
  | some (.finite q) => if q = 0 then lit "" else [.dec q]
  | some (.infinity negative) => lit (if negative then "-Infinity" else "Infinity")
  | some .nan => lit "NaN"
  | none => lit ""

/-- `snapshot.history or [snapshot.last_price]`. -/
def MarketDataSnapshot.historyOr (s : MarketDataSnapshot) : List Decimal :=
  if s.history.isEmpty then [s.lastPrice] else s.history

def candidateFeatures (s : MarketDataSnapshot) : Except ArithmeticError Dict := do
  let rsi14 ← Technicals.rsi .standard s.historyOr
  let sma20 ← Technicals.sma .standard s.historyOr 20
  let sma50 ← Technicals.sma .standard s.historyOr 50
  let volatility ← Technicals.realizedVolatility .standard s.historyOr
  return [(.field .lastPrice, .str [.dec s.lastPrice]),
    (.field .spreadBps, .str [.dec s.spreadBps]),
    (.field .rsi14, .str (indicatorText rsi14)),
    (.field .sma20, .str (indicatorText sma20)),
    (.field .sma50, .str (indicatorText sma50)),
    (.field .volatility, .str (volatilityText volatility)),
    (.field .avgDailyDollarVolume, .str [.dec s.avgDailyDollarVolume]),
    (.field .sector, .str s.sector),
    (.field .session, .str s.session),
    (.field .quoteAgeSec, .int s.quoteAgeSec)]

def priceJson (price : Option Decimal) : JsonValue :=
  match price with
  | some q => .str [.dec q]
  | none => .null

def candidateMarketSnapshot (s : MarketDataSnapshot) : Dict :=
  [(.field .lastPrice, .str [.dec s.lastPrice]),
    (.field .bid, priceJson s.bid),
    (.field .ask, priceJson s.ask),
    (.field .session, .str s.session),
    (.field .quoteAgeSec, .int s.quoteAgeSec),
    (.field .sector, .str s.sector)]

/-- An indicator that raises leaves no features; in the runs it is then `get_snapshot`, the call just
before it, that raises. -/
def buildCandidate (cfg : AnalystSection) (portfolio : PortfolioSnapshot)
    (hypothesis : AssetHypothesis) (snapshot : MarketDataSnapshot) (now : Time)
    (candidateId : UUID) : TradeCandidate :=
  let filters := evaluateFilters snapshot cfg
  { candidateId := candidateId
    symbol := hypothesis.symbol
    side := .buy
    thesisHorizon := if hypothesis.horizon = .intraday then .intraday else .swing
    brokerEligible := snapshot.tradable
    marketSnapshot := candidateMarketSnapshot snapshot
    features := (candidateFeatures snapshot).toOption.getD []
    filters := filters
    score := scoreCandidate (filters.countP FilterResult.passed)
      (filters.countP fun item => !item.passed) (confidenceWeight hypothesis.confidence)
    maxNotional := min (portfolio.equity * (1/20)) (portfolio.cash * (19/20))
    stopLossPct := 3/100
    expiryAt := now + minutes 15 }

/-- The loop over the hypotheses: the candidates that pass all filters, and the others. -/
def buildCandidates (cfg : AnalystSection) (portfolio : PortfolioSnapshot) :
    List AssetHypothesis → Program (List TradeCandidate × List TradeCandidate)
  | [] => pure ([], [])
  | hypothesis :: hypotheses => do
    let snapshot ← Prog.perform (Op.getMarketSnapshot hypothesis.symbol)
    let t ← now .candidateExpiry
    let candidateId ← uuid4 .candidate
    let candidate := buildCandidate cfg portfolio hypothesis snapshot t candidateId
    let (candidates, rejected) ← buildCandidates cfg portfolio hypotheses
    if candidate.filters.all FilterResult.passed then
      pure (candidate :: candidates, rejected)
    else
      pure (candidates, candidate :: rejected)

def analysisReport (snapshotId : UUID) (candidates rejected : List TradeCandidate) :
    AnalysisReport :=
  { status := if candidates.isEmpty then .reject else .pass
    candidates := sortedByScore candidates
    rejectedCandidates := sortedByScore rejected
    portfolioSnapshotId := snapshotId
    stageSummary := buildStageSummary candidates.length rejected.length }

namespace AnalystWorker

def process (cfg : PipelineConfig) (lease : JobLease) : Program Bool := do
  let parent ← getMessage lease.messageId
  let report ← modelValidate "ResearchReport" ResearchReport.contract parent.payload
  let portfolioSnapshot ← Prog.perform Op.getSnapshot
  let snapshotId ← tx (.savePortfolioSnapshot portfolioSnapshot)
  let (candidates, rejected) ← buildCandidates cfg.analyst portfolioSnapshot report.assetHypotheses
  let output := analysisReport snapshotId candidates rejected
  let envelope ← childEnvelope parent .analysis
    (buildAnalysisKey parent.messageId cfg.analyst.rulesetVersion portfolioSnapshot.capturedAt)
    (AnalysisReport.contract.dump output)
  let nextStage := if output.status = .pass then some StageName.execution else none
  let messageId ← completeJobSuccess lease (some envelope) nextStage none output.status.value
  match messageId with
  | some messageId =>
    tx (.saveAnalysisCandidates messageId output.candidates output.rejectedCandidates)
  | none => pure ()
  pure true

def processNext (cfg : PipelineConfig) (workerId : Text) : Program Bool :=
  Pipeline.processNext cfg.queue .analysis workerId (process cfg)

end AnalystWorker

end Sentinel.Pipeline
