import Sentinel.Contracts.Research
import Sentinel.Contracts.Execution
import Sentinel.Logic.Table
import Sentinel.Pipeline.Config

/-!
# The pipeline database

The tables of `PipelineDB` and its transactions, in the SQLite dialect.  A transaction is a function
of the tables; it answers and leaves new tables, or raises and leaves none.  Times are stored as
numbers, since the stored ISO texts order like the times.  Foreign keys are declared but not
enforced; primary keys and `UNIQUE` columns are.
-/

namespace Sentinel.Pipeline

open Logic Contracts

inductive Exn : Type
  | keyError (what : Text)
  /-- A primary key or `UNIQUE` column would repeat a value. -/
  | integrityError (column : String)
  | validationError (model : String)
  | valueError (what : String)
  | invalidOperation
  /-- Raised by the connection, a provider, the broker or the agent. -/
  | fault (what : Text)
  deriving DecidableEq, Repr

/-- `str(exc)`; that of a `KeyError` is its argument as it is quoted by `repr`, and no argument here has
a character to escape. -/
def Exn.str : Exn → Text
  | keyError what => .lit "'" :: (what ++ [.lit "'"])
  | integrityError column => lit ("UNIQUE constraint failed: " ++ column)
  | validationError model => lit ("validation error for " ++ model)
  | valueError what => lit what
  | invalidOperation => lit "InvalidOperation"
  | fault what => what

/-! ## Tables -/

structure PipelineTrace : Type where
  traceId : UUID
  sourceAlertId : Text
  currentStage : StageName
  status : String
  deriving DecidableEq

structure StageMessage : Type where
  messageId : UUID
  traceId : UUID
  stage : StageName
  parentMessageId : Option UUID
  schemaVersion : String
  idempotencyKey : Text
  payload : JsonValue
  createdAt : Time
  deriving DecidableEq

inductive JobState : Type
  | queued | running | retryWait | succeeded | deadLetter
  deriving DecidableEq, Repr

structure StageJob : Type where
  jobId : UUID
  traceId : UUID
  stage : StageName
  messageId : UUID
  state : JobState
  priority : ℤ
  attemptCount : ℕ
  availableAt : Time
  leasedUntil : Option Time
  workerId : Option Text
  lastError : Option Text
  createdAt : Time
  deriving DecidableEq, Repr

structure StageRun : Type where
  runId : UUID
  jobId : UUID
  messageId : UUID
  startedAt : Time
  finishedAt : Option Time
  resultState : JobState
  deriving DecidableEq, Repr

structure ResearchEvidence : Type where
  evidenceId : UUID
  messageId : UUID
  item : EvidenceItem

structure AnalysisCandidate : Type where
  messageId : UUID
  status : String
  item : TradeCandidate

inductive ApprovalStatus : Type
  | requested | approved | rejected | expired
  deriving DecidableEq, Repr

def ApprovalStatus.value : ApprovalStatus → String
  | requested => "requested"
  | approved => "approved"
  | rejected => "rejected"
  | expired => "expired"

structure ApprovalRequest : Type where
  approvalId : UUID
  traceId : UUID
  messageId : UUID
  candidateId : UUID
  channel : String
  status : ApprovalStatus
  requestedAt : Time
  expiresAt : Time
  decidedAt : Option Time
  approverId : Option Text
  decisionReason : Option Text
  callbackToken : Text
  deriving DecidableEq, Repr

/-- What `save_broker_order` is given. -/
structure OrderRecord : Type where
  traceId : UUID
  candidateId : UUID
  clientOrderId : Text
  brokerOrderId : Option Text
  symbol : Text
  side : TradeSide
  notional : Option Decimal
  orderType : Contracts.OrderType
  tif : TimeInForce
  status : Text
  avgFillPrice : Option Decimal
  deriving DecidableEq

structure BrokerOrder : Type extends OrderRecord where
  orderId : UUID
  submittedAt : Time
  deriving DecidableEq

structure DeadLetter : Type where
  deadLetterId : UUID
  jobId : UUID
  stage : StageName
  reason : Text
  payload : JsonValue
  firstFailedAt : Time

structure ObservationRow : Type where
  observationId : UUID
  observation : OutcomeObservation
  deriving DecidableEq

structure PipelineDB : Type where
  pipelineTraces : List PipelineTrace := []
  stageMessages : List StageMessage := []
  stageJobs : List StageJob := []
  stageRuns : List StageRun := []
  researchEvidence : List ResearchEvidence := []
  analysisCandidates : List AnalysisCandidate := []
  portfolioSnapshots : List PortfolioSnapshot := []
  approvalRequests : List ApprovalRequest := []
  brokerOrders : List BrokerOrder := []
  deadLetters : List DeadLetter := []
  outcomeObservations : List ObservationRow := []

structure JobLease : Type where
  jobId : UUID
  runId : UUID
  traceId : UUID
  stage : StageName
  messageId : UUID
  attemptCount : ℕ
  deriving DecidableEq, Repr

/-- The row in which an envelope is stored. -/
def StageMessage.ofEnvelope (e : PipelineEnvelope) : StageMessage :=
  ⟨e.messageId, e.traceId, e.stage, e.parentMessageId, e.schemaVersion, e.idempotencyKey, e.payload,
    e.createdAt⟩

/-- The envelope read back from a row and the alert of its trace. -/
def StageMessage.toEnvelope (m : StageMessage) (sourceAlertId : Text) : PipelineEnvelope :=
  ⟨m.messageId, m.traceId, sourceAlertId, m.parentMessageId, m.stage, m.schemaVersion,
    m.idempotencyKey, m.createdAt, m.payload⟩

@[simp] theorem ofEnvelope_toEnvelope (m : StageMessage) (a : Text) :
    StageMessage.ofEnvelope (m.toEnvelope a) = m := rfl

/-- The row that `_enqueue_job_conn` inserts. -/
def newJob (jobId : UUID) (now : Time) (traceId : UUID) (stage : StageName) (messageId : UUID)
    (priority : ℤ) (availableAt : Option Time) : StageJob :=
  { jobId := jobId, traceId := traceId, stage := stage, messageId := messageId, state := .queued
    priority := priority, attemptCount := 0, availableAt := availableAt.getD now, leasedUntil := none
    workerId := none, lastError := none, createdAt := now }

/-- The condition of the query of `lease_next_job`. -/
def StageJob.ready (stage : StageName) (now : Time) (j : StageJob) : Bool :=
  j.stage = stage && (j.state = .queued || j.state = .retryWait) && j.availableAt ≤ now

/-- `ORDER BY priority ASC, created_at ASC`. -/
def StageJob.before (j k : StageJob) : Bool :=
  j.priority < k.priority || (j.priority = k.priority && j.createdAt ≤ k.createdAt)

/-! ## Transactions

`fresh` is the value of the first `uuid4()` inside the transaction. -/

namespace PipelineDB

def ensureTrace (db : PipelineDB) (fresh : UUID) (sourceAlertId : Text) (currentStage : StageName)
    (status : String) : Except Exn (UUID × PipelineDB) :=
  match db.pipelineTraces.find? fun t => t.sourceAlertId = sourceAlertId with
  | some row =>
    .ok (row.traceId, { db with
      pipelineTraces := updateWhere (fun t => t.traceId = row.traceId)
        (fun t => { t with currentStage := currentStage, status := status }) db.pipelineTraces })
  | none =>
    if db.pipelineTraces.any fun t => t.traceId = fresh then
      .error (.integrityError "pipeline_traces.trace_id")
    else
      .ok (fresh, { db with
        pipelineTraces := db.pipelineTraces ++ [⟨fresh, sourceAlertId, currentStage, status⟩] })

/-- `_upsert_message_conn`. -/
def upsertMessage (db : PipelineDB) (envelope : PipelineEnvelope) :
    Except Exn ((UUID × Bool) × PipelineDB) :=
  match db.stageMessages.find? fun m => m.idempotencyKey = envelope.idempotencyKey with
  | some existing => .ok ((existing.messageId, false), db)
  | none =>
    if db.stageMessages.any fun m => m.messageId = envelope.messageId then
      .error (.integrityError "stage_messages.message_id")
    else
      .ok ((envelope.messageId, true), { db with
        stageMessages := db.stageMessages ++ [StageMessage.ofEnvelope envelope] })

def findMessage (db : PipelineDB) (messageId : UUID) : Option StageMessage :=
  db.stageMessages.find? fun m => m.messageId = messageId

def sourceAlertIdForTrace (db : PipelineDB) (traceId : UUID) : Option Text :=
  (db.pipelineTraces.find? fun t => t.traceId = traceId).map PipelineTrace.sourceAlertId

/-- `_enqueue_job_conn`. -/
def enqueueJob (db : PipelineDB) (fresh : UUID) (now : Time) (traceId : UUID) (stage : StageName)
    (messageId : UUID) (priority : ℤ) (availableAt : Option Time) : Except Exn (UUID × PipelineDB) :=
  match db.stageJobs.find? fun j => j.stage = stage && j.messageId = messageId with
  | some existing => .ok (existing.jobId, db)
  | none =>
    if db.stageJobs.any fun j => j.jobId = fresh then
      .error (.integrityError "stage_jobs.job_id")
    else
      .ok (fresh, { db with
        stageJobs := db.stageJobs ++
          [newJob fresh now traceId stage messageId priority availableAt] })

/-- The jobs the query of `lease_next_job` may return first: those no ready job is ordered before. -/
def leasable (db : PipelineDB) (stage : StageName) (now : Time) : List StageJob :=
  let ready := db.stageJobs.filter (StageJob.ready stage now)
  ready.filter fun j => ready.all j.before

/-- Among jobs of equal priority and creation time the order is the database's: `tie` chooses. -/
def leaseNextJob (db : PipelineDB) (fresh : UUID) (tie : ℕ) (stage : StageName) (workerId : Text)
    (leasedUntil now : Time) : Except Exn (Option JobLease × PipelineDB) :=
  let candidates := db.leasable stage now
  match candidates[tie % candidates.length]? with
  | none => .ok (none, db)
  | some row =>
    if db.stageRuns.any fun r => r.runId = fresh then
      .error (.integrityError "stage_runs.run_id")
    else
      .ok (some ⟨row.jobId, fresh, row.traceId, row.stage, row.messageId, row.attemptCount + 1⟩,
        { db with
          stageJobs := updateWhere (fun j => j.jobId = row.jobId)
            (fun j => { j with
              state := .running, attemptCount := row.attemptCount + 1
              leasedUntil := some leasedUntil, workerId := some workerId }) db.stageJobs
          stageRuns := db.stageRuns ++ [⟨fresh, row.jobId, row.messageId, now, none, .running⟩] })

/-- The two updates with which every completion ends the job and its run. -/
def finishJob (db : PipelineDB) (lease : JobLease) (state : JobState) (availableAt : Option Time)
    (error : Option Text) (now : Time) : PipelineDB :=
  { db with
    stageJobs := updateWhere (fun j => j.jobId = lease.jobId)
      (fun j => { j with
        state := state, leasedUntil := none, availableAt := availableAt.getD j.availableAt
        lastError := error }) db.stageJobs
    stageRuns := updateWhere (fun r => r.runId = lease.runId)
      (fun r => { r with finishedAt := some now, resultState := state }) db.stageRuns }

def completeJobSuccess (db : PipelineDB) (fresh : UUID) (clock : Time) (lease : JobLease)
    (outputEnvelope : Option PipelineEnvelope) (nextStage : Option StageName)
    (nextAvailableAt : Option Time) (traceStatus : String) (now : Time) :
    Except Exn (Option UUID × PipelineDB) :=
  match outputEnvelope with
  | none => .ok (none, db.finishJob lease .succeeded none none now)
  | some envelope =>
    (db.upsertMessage envelope).bind fun ((messageId, inserted), db₁) =>
    (match nextStage, inserted with
      | some stage, true =>
        (db₁.enqueueJob fresh clock envelope.traceId stage messageId 100 nextAvailableAt).map Prod.snd
      | _, _ => .ok db₁).bind fun db₂ =>
    let db₃ := { db₂ with
      pipelineTraces := updateWhere (fun t => t.traceId = envelope.traceId)
        (fun t => { t with currentStage := envelope.stage, status := traceStatus })
        db₂.pipelineTraces }
    .ok (some messageId, db₃.finishJob lease .succeeded none none now)

def completeJobRetry (db : PipelineDB) (lease : JobLease) (error : Text) (availableAt now : Time) :
    PipelineDB :=
  db.finishJob lease .retryWait (some availableAt) (some error) now

def deadLetterJob (db : PipelineDB) (fresh : UUID) (lease : JobLease) (reason : Text)
    (payload : JsonValue) (now : Time) : Except Exn PipelineDB :=
  if db.deadLetters.any fun d => d.deadLetterId = fresh then
    .error (.integrityError "dead_letters.dead_letter_id")
  else
    .ok { db.finishJob lease .deadLetter none (some reason) now with
      deadLetters := db.deadLetters ++ [⟨fresh, lease.jobId, lease.stage, reason, payload, now⟩] }

def saveResearchEvidence (db : PipelineDB) (fresh : UUID) (messageId : UUID) :
    List EvidenceItem → Except Exn PipelineDB
  | [] => .ok db
  | item :: items =>
    if db.researchEvidence.any fun e => e.evidenceId = fresh then
      .error (.integrityError "research_evidence.evidence_id")
    else
      saveResearchEvidence
        { db with researchEvidence := db.researchEvidence ++ [⟨fresh, messageId, item⟩] }
        (fresh + 1) messageId items

def saveCandidates (db : PipelineDB) (messageId : UUID) (status : String) :
    List TradeCandidate → Except Exn PipelineDB
  | [] => .ok db
  | item :: items =>
    if db.analysisCandidates.any fun c => c.item.candidateId = item.candidateId then
      .error (.integrityError "analysis_candidates.candidate_id")
    else
      saveCandidates
        { db with analysisCandidates := db.analysisCandidates ++ [⟨messageId, status, item⟩] }
        messageId status items

def saveAnalysisCandidates (db : PipelineDB) (messageId : UUID)
    (candidates rejectedCandidates : List TradeCandidate) : Except Exn PipelineDB :=
  (db.saveCandidates messageId "candidate" candidates).bind fun db₁ =>
    db₁.saveCandidates messageId "rejected" rejectedCandidates

def savePortfolioSnapshot (db : PipelineDB) (snapshot : PortfolioSnapshot) :
    Except Exn (UUID × PipelineDB) :=
  if db.portfolioSnapshots.any fun s => s.snapshotId = snapshot.snapshotId then
    .error (.integrityError "portfolio_snapshots.snapshot_id")
  else
    .ok (snapshot.snapshotId, { db with portfolioSnapshots := db.portfolioSnapshots ++ [snapshot] })

def createApprovalRequest (db : PipelineDB) (request : ApprovalRequest) : Except Exn PipelineDB :=
  if db.approvalRequests.any fun r => r.approvalId = request.approvalId then
    .error (.integrityError "approval_requests.approval_id")
  else if db.approvalRequests.any fun r => r.callbackToken = request.callbackToken then
    .error (.integrityError "approval_requests.callback_token")
  else
    .ok { db with approvalRequests := db.approvalRequests ++ [request] }

/-- The latest request of the message; of two made at the same time the earlier row. -/
def latestRequest : List ApprovalRequest → Option ApprovalRequest
  | [] => none
  | r :: rs =>
    match latestRequest rs with
    | none => some r
    | some r' => if r'.requestedAt ≤ r.requestedAt then some r else some r'

def approvalRequestByMessage (db : PipelineDB) (messageId : UUID) : Option ApprovalRequest :=
  latestRequest (db.approvalRequests.filter fun r => r.messageId = messageId)

def decideApproval (db : PipelineDB) (callbackToken : Text) (status : ApprovalStatus)
    (approverId : Text) (reason : Option Text) (now : Time) : Except Exn (UUID × PipelineDB) :=
  match db.approvalRequests.find? fun r => r.callbackToken = callbackToken with
  | none => .error (.keyError (lit "approval request not found"))
  | some row =>
    .ok (row.approvalId, { db with
      approvalRequests := updateWhere (fun r => r.callbackToken = callbackToken)
        (fun r => { r with
          status := status, decidedAt := some now, approverId := some approverId
          decisionReason := reason }) db.approvalRequests })

def brokerOrderByClientOrderId (db : PipelineDB) (clientOrderId : Text) : Option BrokerOrder :=
  db.brokerOrders.find? fun o => o.clientOrderId = clientOrderId

def saveBrokerOrder (db : PipelineDB) (fresh : UUID) (clock : Time) (record : OrderRecord) :
    Except Exn (UUID × PipelineDB) :=
  match db.brokerOrderByClientOrderId record.clientOrderId with
  | some existing => .ok (existing.orderId, db)
  | none =>
    if db.brokerOrders.any fun o => o.orderId = fresh then
      .error (.integrityError "broker_orders.order_id")
    else if record.brokerOrderId.isSome &&
        db.brokerOrders.any fun o => o.brokerOrderId = record.brokerOrderId then
      .error (.integrityError "broker_orders.broker_order_id")
    else
      .ok (fresh, { db with brokerOrders := db.brokerOrders ++ [⟨record, fresh, clock⟩] })

def saveOutcomeObservation (db : PipelineDB) (observationId : UUID)
    (observation : OutcomeObservation) : Except Exn PipelineDB :=
  if db.outcomeObservations.any fun o => o.observationId = observationId then
    .error (.integrityError "outcome_observations.observation_id")
  else
    .ok { db with outcomeObservations := db.outcomeObservations ++ [⟨observationId, observation⟩] }

/-- `ORDER BY scheduled_for ASC`. -/
def listOutcomeObservations (db : PipelineDB) (traceId : UUID) : List ObservationRow :=
  (db.outcomeObservations.filter fun o => o.observation.traceId = traceId).insertionSort
    fun a b => a.observation.scheduledFor ≤ b.observation.scheduledFor

def updateOutcomeObservation (db : PipelineDB) (observationId : UUID) (observedAt : Time)
    (exitPrice returnPct : Decimal) (benchmarkReturnPct : Option Decimal) (label : Text) :
    PipelineDB :=
  { db with
    outcomeObservations := updateWhere (fun o => o.observationId = observationId)
      (fun o => { o with
        observation := { o.observation with
          observedAt := some observedAt, exitPrice := some exitPrice, returnPct := some returnPct
          benchmarkReturnPct := benchmarkReturnPct, label := some label } }) db.outcomeObservations }

end PipelineDB

end Sentinel.Pipeline
