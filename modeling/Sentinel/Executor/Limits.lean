import Sentinel.Pipeline.Calls

/-!
# Risk checks

`RiskEngine.evaluate`: the nine checks of one candidate against one portfolio snapshot and the
circuit breaker.
-/

namespace Sentinel.Pipeline

open Logic Contracts

def riskCheck (name : String) (passed : Bool) (measuredValue threshold : Text) (yes no : String) :
    RiskCheckResult :=
  ⟨lit name, passed, measuredValue, threshold, lit (if passed then yes else no)⟩

/-- `Decimal(str(candidate.market_snapshot.get("last_price") or "0"))`. -/
def candidateLastPrice (candidate : TradeCandidate) : Option Decimal :=
  (JsonValue.orElse (candidate.marketSnapshot.get .lastPrice) (.int 0)).pyStr.bind Decimal.parse

def candidateSector (candidate : TradeCandidate) : Text :=
  (JsonValue.orElse (candidate.marketSnapshot.get .sector) (.str (lit "unknown"))).pyStr.getD []

def candidateQuoteAge (candidate : TradeCandidate) : Option ℤ :=
  (JsonValue.orElse (candidate.marketSnapshot.get .quoteAgeSec) (.int 0)).pyInt

def breakerHalted (cfg : ExecutorSection) (breaker : CircuitBreakerState) (now : Time) : Bool :=
  breaker.isHalted now cfg.maxDailyDrawdownPct cfg.consecutiveLossLimit

/-- The checks, from the three values read out of the market snapshot. -/
def riskChecks (cfg : ExecutorSection) (now : Time) (candidate : TradeCandidate)
    (portfolio : PortfolioSnapshot) (breaker : CircuitBreakerState) (lastPrice : Decimal)
    (quoteAgeSec : ℤ) : List RiskCheckResult :=
  let sectorExposure := (portfolio.sectorExposure.lookup (candidateSector candidate)).getD 0
  [riskCheck "candidate_eligible" candidate.brokerEligible
      (lit (if candidate.brokerEligible then "true" else "false")) (lit "true")
      "Candidate is broker eligible." "Candidate is not broker eligible.",
    riskCheck "candidate_not_expired" (now < candidate.expiryAt) [.time candidate.expiryAt]
      (lit "future") "Candidate is still inside execution window."
      "Candidate expired before execution.",
    riskCheck "quote_freshness" (quoteAgeSec ≤ cfg.staleQuoteSec) [.int quoteAgeSec]
      [.int cfg.staleQuoteSec] "Quote freshness passes." "Quote is stale.",
    riskCheck "max_position_pct" (candidate.maxNotional ≤ portfolio.equity * cfg.maxPositionPct)
      [.dec candidate.maxNotional] [.dec (portfolio.equity * cfg.maxPositionPct)]
      "Candidate fits max position sizing." "Candidate breaches max position sizing.",
    riskCheck "cash_available" (candidate.maxNotional ≤ portfolio.cash)
      [.dec candidate.maxNotional] [.dec portfolio.cash]
      "Cash is available." "Not enough cash for the proposed notional.",
    riskCheck "max_gross_invested"
      (portfolio.grossExposure + candidate.maxNotional ≤ portfolio.equity * cfg.maxGrossInvestedPct)
      [.dec (portfolio.grossExposure + candidate.maxNotional)]
      [.dec (portfolio.equity * cfg.maxGrossInvestedPct)]
      "Gross exposure stays inside limit." "Gross exposure would exceed limit.",
    riskCheck "max_sector_exposure"
      (sectorExposure + candidate.maxNotional ≤ portfolio.equity * cfg.maxSectorExposurePct)
      [.dec (sectorExposure + candidate.maxNotional)]
      [.dec (portfolio.equity * cfg.maxSectorExposurePct)]
      "Sector exposure stays inside limit." "Sector exposure would exceed limit.",
    riskCheck "circuit_breaker" (!breakerHalted cfg breaker now)
      [.lit "drawdown=", .float breaker.dailyDrawdownPct, .lit ",losses=",
        .int breaker.consecutiveLosses]
      [.lit "drawdown<", .float cfg.maxDailyDrawdownPct, .lit ",losses<",
        .int cfg.consecutiveLossLimit]
      "Circuit breaker is open." "Circuit breaker is active.",
    riskCheck "positive_price" (0 < lastPrice) [.dec lastPrice] (lit ">0")
      "Last price is positive." "Candidate lacks a valid market price."]

def evaluate (cfg : ExecutorSection) (now : Time) (candidate : TradeCandidate)
    (portfolio : PortfolioSnapshot) (breaker : CircuitBreakerState) :
    Except Exn (List RiskCheckResult) :=
  match candidateLastPrice candidate, candidateQuoteAge candidate with
  | none, _ => .error .invalidOperation
  | some _, none => .error (.valueError "invalid literal for int()")
  | some lastPrice, some quoteAgeSec =>
    .ok (riskChecks cfg now candidate portfolio breaker lastPrice quoteAgeSec)

/-- What all checks passing means for the candidate. -/
structure RiskPassed (cfg : ExecutorSection) (now : Time) (candidate : TradeCandidate)
    (portfolio : PortfolioSnapshot) (breaker : CircuitBreakerState) : Prop where
  notExpired : now < candidate.expiryAt
  cash : candidate.maxNotional ≤ portfolio.cash
  gross : portfolio.grossExposure + candidate.maxNotional ≤ portfolio.equity * cfg.maxGrossInvestedPct
  notHalted : breakerHalted cfg breaker now = false

theorem riskPassed_of_evaluate {cfg : ExecutorSection} {now : Time} {candidate : TradeCandidate}
    {portfolio : PortfolioSnapshot} {breaker : CircuitBreakerState} {checks : List RiskCheckResult}
    (h : evaluate cfg now candidate portfolio breaker = .ok checks)
    (hall : checks.all RiskCheckResult.passed = true) :
    RiskPassed cfg now candidate portfolio breaker := by
  unfold evaluate at h
  split at h
  · cases h
  · cases h
  · obtain rfl := Except.ok.inj h
    simp only [riskChecks, riskCheck, List.all_cons, List.all_nil, Bool.and_true, Bool.and_eq_true,
      decide_eq_true_eq, Bool.not_eq_true'] at hall
    obtain ⟨-, hexp, -, -, hcash, hgross, -, hbreaker, -⟩ := hall
    exact ⟨hexp, hcash, hgross, hbreaker⟩

end Sentinel.Pipeline
