import Sentinel.Executor.Limits
import Sentinel.Researcher.Worker

/-!
# The executor and the approval worker

`ExecutorWorker.process_next` checks the best candidate of an analysis report and either asks for an
approval or submits the order; `ApprovalWorker.process_next` polls the approval and submits the
order once it is approved.  `ApprovalService` is the side of the human decision.
-/

namespace Sentinel.Pipeline

open Logic Contracts

/-! ## Approvals -/

namespace ApprovalService

/-- The approval id, the callback token and the expiry. -/
def request (traceId messageId candidateId : UUID) (channel : String) (timeoutMinutes : ℤ) :
    Program (UUID × Text × Time) := do
  let t ← now .approvalTimeout
  let expiresAt := t + minutes timeoutMinutes
  let token ← Prog.perform Op.token
  let approvalId ← createApprovalRequest traceId messageId candidateId channel token expiresAt
  pure (approvalId, token, expiresAt)

/-- `approve` and `reject`; the result is the approval id and the time of the answer. -/
def decide (token : Text) (status : ApprovalStatus) (approverId : Text) (reason : Option Text) :
    Program (UUID × Time) := do
  let approvalId ← decideApproval token status approverId reason
  let t ← now .decision
  pure (approvalId, t)

def approve (token approverId : Text) (reason : Option Text) : Program (UUID × Time) :=
  decide token .approved approverId reason

def reject (token approverId : Text) (reason : Option Text) : Program (UUID × Time) :=
  decide token .rejected approverId reason

end ApprovalService

/-! ## Outcomes scheduled for an order -/

def scheduleDefaultOutcomes (traceId : UUID) (symbol : Text) (entryPrice : Decimal)
    (baseTime : Time) : List OutcomeObservation :=
  let observation (horizon : OutcomeHorizon) (scheduledFor : Time) : OutcomeObservation :=
    { traceId := traceId, symbol := symbol, horizon := horizon, scheduledFor := scheduledFor
      observedAt := none, entryPrice := entryPrice, exitPrice := none, returnPct := none
      benchmarkReturnPct := none, label := none }
  [observation .tPlus15m (baseTime + minutes 15), observation .tPlus1h (baseTime + minutes 60),
    observation .nextSessionClose (baseTime + minutes (24 * 60))]

def saveOutcomeObservations : List OutcomeObservation → Program Unit
  | [] => pure ()
  | observation :: observations => do
    saveOutcomeObservation observation
    saveOutcomeObservations observations

/-! ## The executor -/

def executionKey (cfg : PipelineConfig) (parent : PipelineEnvelope) : Text :=
  buildExecutionKey parent.messageId cfg.executor.riskRulesetVersion cfg.executor.approvalMode

def orderRecord (parent : PipelineEnvelope) (intent : TradeIntent) (clientOrderId : Text)
    (order : BrokerOrderResult) : OrderRecord :=
  { traceId := parent.traceId, candidateId := intent.candidateId, clientOrderId := clientOrderId
    brokerOrderId := some order.brokerOrderId, symbol := intent.symbol, side := intent.side
    notional := some intent.maxNotional, orderType := intent.orderType, tif := intent.tif
    status := order.status, avgFillPrice := order.avgFillPrice }

/-- `ExistingOrder.broker_order_id`. -/
def existingBrokerOrderId (row : BrokerOrder) : Text :=
  match row.brokerOrderId with
  | some id => if JsonValue.truthy (.str id) then id else row.clientOrderId
  | none => row.clientOrderId

def submittedDecision (intent : TradeIntent) (checks : List RiskCheckResult) (brokerOrderId : Text) :
    ExecutionDecision :=
  { status := .submitted, selectedCandidateId := some intent.candidateId, intent := some intent
    riskChecks := checks, approvalId := none, brokerOrderIds := [brokerOrderId]
    stageSummary := lit "Order submitted to broker." }

namespace ExecutorWorker

/-- Place the order unless its client order id is on record; the broker's id for it. -/
def obtainOrder (parent : PipelineEnvelope) (intent : TradeIntent) (clientOrderId : Text) :
    Program Text := do
  let existingOrder ← tx (.getBrokerOrderByClientOrderId clientOrderId)
  match existingOrder with
  | none =>
    let order ← Prog.perform (Op.placeOrder intent clientOrderId)
    let _ ← tx (.saveBrokerOrder (orderRecord parent intent clientOrderId order))
    pure order.brokerOrderId
  | some row => pure (existingBrokerOrderId row)

/-- The end of `_submit_order`: the outcomes, unless the trace has some. -/
def scheduleOutcomes (parent : PipelineEnvelope) (intent : TradeIntent) : Program Bool := do
  let observations ← tx (.listOutcomeObservations parent.traceId)
  if observations.isEmpty then
    let t ← now .schedule
    saveOutcomeObservations
      (scheduleDefaultOutcomes parent.traceId intent.symbol intent.limitPrice t)
    pure true
  else
    pure true

/-- `_submit_order`; the candidate is that of the intent at both calls. -/
def submitOrder (cfg : PipelineConfig) (lease : JobLease) (parent : PipelineEnvelope)
    (intent : TradeIntent) (checks : List RiskCheckResult) (stage : StageName) : Program Bool := do
  let clientOrderId :=
    buildStableOrderId parent.traceId intent.candidateId cfg.executor.riskRulesetVersion
  let brokerOrderId ← obtainOrder parent intent clientOrderId
  let decision := submittedDecision intent checks brokerOrderId
  let envelope ← childEnvelope parent stage (executionKey cfg parent)
    (ExecutionDecision.contract.dump decision)
  let _ ← completeJobSuccess lease (some envelope) (some .outcome) none decision.status.value
  scheduleOutcomes parent intent

/-- Both rejections: no candidate at all, or a failed check. -/
def rejectRisk (cfg : PipelineConfig) (lease : JobLease) (parent : PipelineEnvelope)
    (selectedCandidateId : Option UUID) (checks : List RiskCheckResult) (stageSummary : String) :
    Program Bool := do
  let decision : ExecutionDecision :=
    { status := .rejectedRisk, selectedCandidateId := selectedCandidateId, intent := none
      riskChecks := checks, approvalId := none, brokerOrderIds := []
      stageSummary := lit stageSummary }
  let envelope ← childEnvelope parent .execution (executionKey cfg parent)
    (ExecutionDecision.contract.dump decision)
  let _ ← completeJobSuccess lease (some envelope) none none decision.status.value
  pure true

def awaitingDecision (intent : TradeIntent) (checks : List RiskCheckResult) (approvalId : UUID) :
    ExecutionDecision :=
  { status := .awaitingApproval, selectedCandidateId := some intent.candidateId
    intent := some intent, riskChecks := checks, approvalId := some approvalId, brokerOrderIds := []
    stageSummary := lit "Execution passed risk checks and is awaiting manual approval." }

/-- The `manual_all` branch: the request names the message before the message is stored. -/
def requestApproval (cfg : PipelineConfig) (lease : JobLease) (parent : PipelineEnvelope)
    (intent : TradeIntent) (checks : List RiskCheckResult) : Program Bool := do
  let preview ← childEnvelope parent .execution (executionKey cfg parent) (.obj [])
  let (approvalId, _, _) ← ApprovalService.request parent.traceId preview.messageId
    intent.candidateId "manual" cfg.executor.approvalTimeoutMinutes
  let decision := awaitingDecision intent checks approvalId
  let envelope := { preview with payload := ExecutionDecision.contract.dump decision }
  let _ ← completeJobSuccess lease (some envelope) (some .approval) none decision.status.value
  pure true

/-- The intent for a candidate, at the price of its market snapshot. -/
def buildIntent (cfg : PipelineConfig) (candidate : TradeCandidate) (limitPrice : Decimal) :
    TradeIntent :=
  { candidateId := candidate.candidateId, symbol := candidate.symbol, side := candidate.side
    orderType := .limit, tif := .day, maxNotional := candidate.maxNotional, limitPrice := limitPrice
    stopLossPct := candidate.stopLossPct, maxSlippageBps := cfg.analyst.maxSpreadBps
    thesisHorizon := candidate.thesisHorizon }

/-- What follows the checks. -/
def execute (cfg : PipelineConfig) (lease : JobLease) (parent : PipelineEnvelope)
    (candidate : TradeCandidate) (checks : List RiskCheckResult) : Program Bool := do
  let lastPrice ← Prog.getD (.keyError (lit "last_price")) (candidate.marketSnapshot.get .lastPrice)
  let limitPrice ← Prog.getD .invalidOperation (lastPrice.pyStr.bind Decimal.parse)
  let intent := buildIntent cfg candidate limitPrice
  if cfg.executor.approvalMode = "manual_all" then
    requestApproval cfg lease parent intent checks
  else
    submitOrder cfg lease parent intent checks .execution

def process (cfg : PipelineConfig) (lease : JobLease) : Program Bool := do
  let parent ← getMessage lease.messageId
  let report ← modelValidate "AnalysisReport" AnalysisReport.contract parent.payload
  match sortedByScore report.candidates with
  | [] => rejectRisk cfg lease parent none [] "No candidates available for execution."
  | candidate :: _ =>
    let portfolio ← Prog.perform (Op.getPortfolioSnapshot report.portfolioSnapshotId)
    let breaker ← Prog.perform Op.getCircuitBreakerState
    let t ← now .evaluate
    match evaluate cfg.executor t candidate portfolio breaker with
    | .error e => Prog.raise e
    | .ok checks =>
      if checks.all RiskCheckResult.passed then
        execute cfg lease parent candidate checks
      else
        rejectRisk cfg lease parent (some candidate.candidateId) checks
          "Execution rejected by deterministic risk checks."

def processNext (cfg : PipelineConfig) (workerId : Text) : Program Bool :=
  Pipeline.processNext cfg.queue .execution workerId (process cfg)

end ExecutorWorker

/-! ## The approval worker -/

namespace ApprovalWorker

/-- The status on which the worker acts: a request past its expiry is marked expired first. -/
def pollStatus (request : ApprovalRequest) : Program ApprovalStatus :=
  if request.status = .requested then do
    let t ← now .approvalPoll
    if request.expiresAt ≤ t then
      let _ ← decideApproval request.callbackToken .expired (lit "system")
        (some (lit "approval timed out"))
      pure .expired
    else
      pure .requested
  else
    pure request.status

def waitForDecision (cfg : PipelineConfig) (lease : JobLease) (request : ApprovalRequest) :
    Program Bool := do
  let t ← now .approvalDelay
  let delay := max 1 ((request.expiresAt - t).tdiv 1000000)
  completeJobRetry lease (lit "approval_pending")
    (min delay (cfg.executor.approvalTimeoutMinutes * 60)) 10000
  pure false

/-- `parent.payload.get("selected_candidate_id")`, validated by the decision it goes into. -/
def selectedCandidate (payload : JsonValue) : Program (Option UUID) :=
  match JsonValue.get payload .selectedCandidateId with
  | none | some .null => pure none
  | some j => do
    let id ← modelValidate "ExecutionDecision" .uuid j
    pure (some id)

/-- `TradeIntent.model_validate(payload["intent"]) if payload.get("intent") else None`. -/
def intentIfAny (payload : JsonValue) : Program (Option TradeIntent) :=
  match JsonValue.get payload .intent with
  | none => pure none
  | some j =>
    if JsonValue.truthy j then do
      let intent ← modelValidate "TradeIntent" TradeIntent.contract j
      pure (some intent)
    else
      pure none

def endApproval (lease : JobLease) (parent : PipelineEnvelope) (status : ApprovalStatus) :
    Program Bool := do
  let intent ← intentIfAny parent.payload
  let selectedCandidateId ← selectedCandidate parent.payload
  let decision : ExecutionDecision :=
    { status := if status = .expired then .expired else .cancelled
      selectedCandidateId := selectedCandidateId, intent := intent, riskChecks := []
      approvalId := none, brokerOrderIds := []
      stageSummary := [.lit "Approval stage ended with status=", .lit status.value, .lit "."] }
  let envelope ← childEnvelope parent .approval
    [.lit "approval:", .uuid parent.messageId, .lit ":", .lit status.value]
    (ExecutionDecision.contract.dump decision)
  let _ ← completeJobSuccess lease (some envelope) none none decision.status.value
  pure true

def submitApproved (cfg : PipelineConfig) (lease : JobLease) (parent : PipelineEnvelope) :
    Program Bool := do
  let payload ← Prog.getD (.keyError (lit "intent")) (JsonValue.get parent.payload .intent)
  let intent ← modelValidate "TradeIntent" TradeIntent.contract payload
  ExecutorWorker.submitOrder cfg lease parent intent [] .approval

def process (cfg : PipelineConfig) (lease : JobLease) : Program Bool := do
  let parent ← getMessage lease.messageId
  let request ← tx (.getApprovalRequestByMessage parent.messageId)
  match request with
  | none => do
    deadLetterJob lease (lit "approval request not found")
    pure false
  | some request => do
    let status ← pollStatus request
    match status with
    | .requested => waitForDecision cfg lease request
    | .approved => submitApproved cfg lease parent
    | .rejected => endApproval lease parent .rejected
    | .expired => endApproval lease parent .expired

def processNext (cfg : PipelineConfig) (workerId : Text) : Program Bool :=
  Pipeline.processNext cfg.queue .approval workerId (process cfg)

end ApprovalWorker

end Sentinel.Pipeline
