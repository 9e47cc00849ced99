import Sentinel.Contracts.Analysis

/-!
# Intents, decisions and observations

`ExecutionDecision` is the payload of execution and approval messages; the intent in it is what the
broker is asked to trade.
-/

namespace Sentinel.Contracts

open Logic Fields

inductive ExecutionStatus : Type
  | rejectedRisk | awaitingApproval | approved | submitted | partiallyFilled | filled | cancelled
  | expired | error
  deriving DecidableEq, Repr

def ExecutionStatus.value : ExecutionStatus → String
  | rejectedRisk => "rejected_risk"
  | awaitingApproval => "awaiting_approval"
  | approved => "approved"
  | submitted => "submitted"
  | partiallyFilled => "partially_filled"
  | filled => "filled"
  | cancelled => "cancelled"
  | expired => "expired"
  | error => "error"

inductive OrderType : Type
  | limit
  deriving DecidableEq, Repr

def OrderType.value : OrderType → String
  | limit => "limit"

inductive TimeInForce : Type
  | day
  deriving DecidableEq, Repr

def TimeInForce.value : TimeInForce → String
  | day => "day"

inductive OutcomeHorizon : Type
  | tPlus15m | tPlus1h | nextSessionClose
  deriving DecidableEq, Repr

namespace Contract

def executionStatus : Contract ExecutionStatus :=
  .strEnum [.rejectedRisk, .awaitingApproval, .approved, .submitted, .partiallyFilled, .filled,
    .cancelled, .expired, .error] ExecutionStatus.value fun a => by cases a <;> decide

def orderType : Contract OrderType :=
  .strEnum [.limit] OrderType.value fun a => by cases a; decide

def timeInForce : Contract TimeInForce :=
  .strEnum [.day] TimeInForce.value fun a => by cases a; decide

end Contract

structure TradeIntent : Type where
  candidateId : UUID
  symbol : Text
  side : TradeSide
  orderType : OrderType
  tif : TimeInForce
  maxNotional : Decimal
  limitPrice : Decimal
  stopLossPct : Decimal
  maxSlippageBps : ℤ
  thesisHorizon : ThesisHorizon
  deriving DecidableEq

def TradeIntent.contract : Contract TradeIntent :=
  (cons (required .candidateId .uuid) <| cons (required .symbol .text) <|
    cons (required .side .tradeSide) <| cons (required .orderType .orderType) <|
    cons (required .tif .timeInForce) <| cons (required .maxNotional .decimal) <|
    cons (required .limitPrice .decimal) <| cons (required .stopLossPct .decimal) <|
    cons (required .maxSlippageBps .int) <|
    cons (required .thesisHorizon .thesisHorizon) nil).codec.iso
  (fun (a, b, c, d, e, f, g, h, i, j, ()) => ⟨a, b, c, d, e, f, g, h, i, j⟩)
  (fun r => (r.candidateId, r.symbol, r.side, r.orderType, r.tif, r.maxNotional, r.limitPrice,
    r.stopLossPct, r.maxSlippageBps, r.thesisHorizon, ()))
  (fun _ => rfl)

structure RiskCheckResult : Type where
  name : Text
  passed : Bool
  measuredValue : Text
  threshold : Text
  reason : Text
  deriving DecidableEq

def RiskCheckResult.contract : Contract RiskCheckResult :=
  (cons (required .name .text) <| cons (required .passed .bool) <|
    cons (required .measuredValue .text) <| cons (required .threshold .text) <|
    cons (required .reason .text) nil (last_field .reason)).codec.iso
  (fun (a, b, c, d, e, ()) => ⟨a, b, c, d, e⟩)
  (fun r => (r.name, r.passed, r.measuredValue, r.threshold, r.reason, ()))
  (fun _ => rfl)

structure ExecutionDecision : Type where
  status : ExecutionStatus
  selectedCandidateId : Option UUID
  intent : Option TradeIntent
  riskChecks : List RiskCheckResult
  approvalId : Option UUID
  brokerOrderIds : List Text
  stageSummary : Text

def ExecutionDecision.contract : Contract ExecutionDecision :=
  (cons (required .status .executionStatus) <| cons (optional .selectedCandidateId .uuid) <|
    cons (optional .intent TradeIntent.contract) <|
    cons (defaulting .riskChecks RiskCheckResult.contract.list []) <|
    cons (optional .approvalId .uuid) <| cons (defaulting .brokerOrderIds Contract.text.list []) <|
    cons (required .stageSummary .text) nil (last_field .stageSummary)).codec.iso
  (fun (a, b, c, d, e, f, g, ()) => ⟨a, b, c, d, e, f, g⟩)
  (fun r => (r.status, r.selectedCandidateId, r.intent, r.riskChecks, r.approvalId,
    r.brokerOrderIds, r.stageSummary, ()))
  (fun _ => rfl)

structure OutcomeObservation : Type where
  traceId : UUID
  symbol : Text
  horizon : OutcomeHorizon
  scheduledFor : Time
  observedAt : Option Time
  entryPrice : Decimal
  exitPrice : Option Decimal
  returnPct : Option Decimal
  benchmarkReturnPct : Option Decimal
  label : Option Text
  deriving DecidableEq

end Sentinel.Contracts
