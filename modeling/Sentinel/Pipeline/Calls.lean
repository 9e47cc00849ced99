import Sentinel.Logic.System
import Sentinel.Pipeline.Db

/-!
# Calls, the world, and the methods of `PipelineDB`

What ingress and the workers do is a sequence of calls: transactions of the database, the clock,
fresh ids, and the agent, the providers and the broker outside the repository.  A call is answered
by the world, or raises and changes nothing; only `place_order` is recorded even when it raises,
since the broker may have received it.

The methods of `PipelineDB` are programs over these calls: one that reads the clock before its
transaction makes two.
-/

namespace Sentinel.Pipeline

open Logic Contracts

/-! ## What is outside the repository -/

structure BrokerOrderResult : Type where
  brokerOrderId : Text
  status : Text
  avgFillPrice : Option Decimal
  deriving DecidableEq

structure MarketDataSnapshot : Type where
  symbol : Text
  lastPrice : Decimal
  bid : Option Decimal := none
  ask : Option Decimal := none
  avgDailyDollarVolume : Decimal := 0
  session : Text := lit "closed"
  tradable : Bool := false
  halted : Bool := false
  quoteAgeSec : ℤ := 0
  sector : Text := lit "unknown"
  history : List Decimal := []

def MarketDataSnapshot.spreadBps (s : MarketDataSnapshot) : Decimal :=
  match s.bid, s.ask with
  | some bid, some ask => if s.lastPrice = 0 then 0 else (ask - bid) / s.lastPrice * 10000
  | _, _ => 0

structure CircuitBreakerState : Type where
  dailyDrawdownPct : ℚ := 0
  consecutiveLosses : ℤ := 0
  cooldownUntil : Option Time := none
  deriving DecidableEq

def CircuitBreakerState.isHalted (b : CircuitBreakerState) (now : Time) (maxDailyDrawdownPct : ℚ)
    (consecutiveLossLimit : ℤ) : Bool :=
  (match b.cooldownUntil with
    | some t => decide (now < t)
    | none => false) ||
  decide (maxDailyDrawdownPct ≤ b.dailyDrawdownPct) ||
  decide (consecutiveLossLimit ≤ b.consecutiveLosses)

/-! ## Calls -/

/-- The places of the source that read the clock. -/
inductive ClockSite : Type
  | ensureTrace | lease | complete | retry | deadLetter | requested | decide
  | envelope | received | candidateExpiry | evaluate | approvalTimeout | approvalPoll | approvalDelay
  | decision | schedule | observe
  deriving DecidableEq, Repr

/-- The places of the source that draw a fresh id. -/
inductive IdSite : Type
  | message | candidate | approval | observation
  deriving DecidableEq, Repr

inductive Tx : Type
  | ensureTrace (sourceAlertId : Text) (currentStage : StageName) (status : String)
  | upsertMessage (envelope : PipelineEnvelope)
  | fetchMessage (messageId : UUID)
  | sourceAlertIdForTrace (traceId : UUID)
  | enqueueJob (traceId : UUID) (stage : StageName) (messageId : UUID) (priority : ℤ)
  | leaseNextJob (stage : StageName) (workerId : Text) (leasedUntil now : Time)
  | completeJobSuccess (lease : JobLease) (outputEnvelope : Option PipelineEnvelope)
      (nextStage : Option StageName) (nextAvailableAt : Option Time) (traceStatus : String) (now : Time)
  | completeJobRetry (lease : JobLease) (error : Text) (availableAt now : Time)
  | deadLetterJob (lease : JobLease) (reason : Text) (payload : JsonValue) (now : Time)
  | saveResearchEvidence (messageId : UUID) (evidence : List EvidenceItem)
  | saveAnalysisCandidates (messageId : UUID) (candidates rejectedCandidates : List TradeCandidate)
  | savePortfolioSnapshot (snapshot : PortfolioSnapshot)
  | createApprovalRequest (request : ApprovalRequest)
  | getApprovalRequestByMessage (messageId : UUID)
  | decideApproval (callbackToken : Text) (status : ApprovalStatus) (approverId : Text)
      (reason : Option Text) (now : Time)
  | saveBrokerOrder (record : OrderRecord)
  | getBrokerOrderByClientOrderId (clientOrderId : Text)
  | saveOutcomeObservation (observationId : UUID) (observation : OutcomeObservation)
  | listOutcomeObservations (traceId : UUID)
  | updateOutcomeObservation (observationId : UUID) (observedAt : Time)
      (exitPrice returnPct : Decimal) (benchmarkReturnPct : Option Decimal) (label : Text)
  deriving DecidableEq

@[reducible] def Tx.Ans : Tx → Type
  | ensureTrace .. => UUID
  | upsertMessage .. => UUID × Bool
  | fetchMessage .. => Option StageMessage
  | sourceAlertIdForTrace .. => Option Text
  | enqueueJob .. => UUID
  | leaseNextJob .. => Option JobLease
  | completeJobSuccess .. => Option UUID
  | completeJobRetry .. => Unit
  | deadLetterJob .. => Unit
  | saveResearchEvidence .. => Unit
  | saveAnalysisCandidates .. => Unit
  | savePortfolioSnapshot .. => UUID
  | createApprovalRequest .. => Unit
  | getApprovalRequestByMessage .. => Option ApprovalRequest
  | decideApproval .. => UUID
  | saveBrokerOrder .. => UUID
  | getBrokerOrderByClientOrderId .. => Option BrokerOrder
  | saveOutcomeObservation .. => Unit
  | listOutcomeObservations .. => List ObservationRow
  | updateOutcomeObservation .. => Unit

inductive Op : Type
  | now (site : ClockSite)
  | uuid4 (site : IdSite)
  /-- `secrets.token_urlsafe`. -/
  | token
  | tx (t : Tx)
  /-- `ResearcherAgent.analyze`. -/
  | analyze (alert : IngestedAlert)
  /-- `PortfolioProvider.get_snapshot`. -/
  | getSnapshot
  /-- `MarketDataProvider.get_snapshot`. -/
  | getMarketSnapshot (symbol : Text)
  | getPortfolioSnapshot (snapshotId : UUID)
  | getCircuitBreakerState
  | placeOrder (intent : TradeIntent) (clientOrderId : Text)
  | getPrice (symbol : Text) (time : Time)
  | getBenchmarkReturn (time : Time) (horizon : OutcomeHorizon)
  deriving DecidableEq

@[reducible] def Op.Ans : Op → Type
  | now _ => Time
  | uuid4 _ => UUID
  | token => Text
  | tx t => t.Ans
  | analyze _ => ResearchReport
  | getSnapshot => PortfolioSnapshot
  | getMarketSnapshot _ => MarketDataSnapshot
  | getPortfolioSnapshot _ => PortfolioSnapshot
  | getCircuitBreakerState => CircuitBreakerState
  | placeOrder _ _ => BrokerOrderResult
  | getPrice _ _ => Decimal
  | getBenchmarkReturn _ _ => Option Decimal

/-! ## The world -/

/-- An order the broker was asked to place. -/
structure PlacedOrder : Type where
  intent : TradeIntent
  clientOrderId : Text
  placedAt : Time
  deriving DecidableEq

structure World : Type where
  db : PipelineDB := {}
  clock : Time := 0
  breaker : CircuitBreakerState := {}
  placed : List PlacedOrder := []
  /-- No id from here on has been drawn. -/
  nextId : UUID := 0

/-- What the world leaves open about one call. -/
inductive Input : Type
  /-- The call succeeds. -/
  | ok
  /-- The lease query orders equal jobs so. -/
  | tie (n : ℕ)
  /-- The call raises without effect. -/
  | fault (what : Text)
  | report (r : ResearchReport)
  | snapshot (s : PortfolioSnapshot)
  | market (m : MarketDataSnapshot)
  | order (o : BrokerOrderResult)
  | price (q : Decimal)
  | benchmark (q : Option Decimal)

/-- The transaction run on the tables, with `fresh` the first id it draws and `clock` the time it
reads; the last component is the next id. -/
def Tx.exec (db : PipelineDB) (clock : Time) (fresh : UUID) (tie : ℕ) :
    (t : Tx) → Except Exn (t.Ans × PipelineDB × UUID)
  | ensureTrace alertId stage status =>
    (db.ensureTrace fresh alertId stage status).map fun (a, db') => (a, db', fresh + 1)
  | upsertMessage envelope => (db.upsertMessage envelope).map fun (a, db') => (a, db', fresh)
  | fetchMessage messageId => .ok (db.findMessage messageId, db, fresh)
  | sourceAlertIdForTrace traceId => .ok (db.sourceAlertIdForTrace traceId, db, fresh)
  | enqueueJob traceId stage messageId priority =>
    (db.enqueueJob fresh clock traceId stage messageId priority none).map
      fun (a, db') => (a, db', fresh + 1)
  | leaseNextJob stage workerId leasedUntil now =>
    (db.leaseNextJob fresh tie stage workerId leasedUntil now).map fun (a, db') => (a, db', fresh + 1)
  | completeJobSuccess lease output next availableAt status now =>
    (db.completeJobSuccess fresh clock lease output next availableAt status now).map
      fun (a, db') => (a, db', fresh + 1)
  | completeJobRetry lease error availableAt now =>
    .ok ((), db.completeJobRetry lease error availableAt now, fresh)
  | deadLetterJob lease reason payload now =>
    (db.deadLetterJob fresh lease reason payload now).map fun db' => ((), db', fresh + 1)
  | saveResearchEvidence messageId evidence =>
    (db.saveResearchEvidence fresh messageId evidence).map fun db' => ((), db', fresh + evidence.length)
  | saveAnalysisCandidates messageId candidates rejected =>
    (db.saveAnalysisCandidates messageId candidates rejected).map fun db' => ((), db', fresh)
  | savePortfolioSnapshot snapshot =>
    (db.savePortfolioSnapshot snapshot).map fun (a, db') => (a, db', fresh)
  | createApprovalRequest request =>
    (db.createApprovalRequest request).map fun db' => ((), db', fresh)
  | getApprovalRequestByMessage messageId => .ok (db.approvalRequestByMessage messageId, db, fresh)
  | decideApproval token status approverId reason now =>
    (db.decideApproval token status approverId reason now).map fun (a, db') => (a, db', fresh)
  | saveBrokerOrder record =>
    (db.saveBrokerOrder fresh clock record).map fun (a, db') => (a, db', fresh + 1)
  | getBrokerOrderByClientOrderId clientOrderId =>
    .ok (db.brokerOrderByClientOrderId clientOrderId, db, fresh)
  | saveOutcomeObservation observationId observation =>
    (db.saveOutcomeObservation observationId observation).map fun db' => ((), db', fresh)
  | listOutcomeObservations traceId => .ok (db.listOutcomeObservations traceId, db, fresh)
  | updateOutcomeObservation observationId observedAt exitPrice returnPct benchmark label =>
    .ok ((), db.updateOutcomeObservation observationId observedAt exitPrice returnPct benchmark label,
      fresh)

namespace World

/-- A transaction that raises rolls back. -/
def runTx (w : World) (tie : ℕ) (t : Tx) : Except Exn t.Ans × World :=
  match t.exec w.db w.clock w.nextId tie with
  | .ok (a, db, nextId) => (.ok a, { w with db := db, nextId := nextId })
  | .error e => (.error e, w)

/-- The broker receives the order whether or not its answer arrives. -/
def place (w : World) (intent : TradeIntent) (clientOrderId : Text) : World :=
  { w with placed := w.placed ++ [⟨intent, clientOrderId, w.clock⟩] }

def call (w : World) : (op : Op) → Input → Option (Except Exn op.Ans × World)
  | .now _, .ok => some (.ok w.clock, w)
  | .uuid4 _, .ok => some (.ok w.nextId, { w with nextId := w.nextId + 1 })
  | .token, .ok => some (.ok [.token w.nextId], { w with nextId := w.nextId + 1 })
  | .tx t, .ok => some (w.runTx 0 t)
  | .tx t, .tie n => some (w.runTx n t)
  | .analyze _, .report r => some (.ok r, w)
  | .getSnapshot, .snapshot s => some (.ok s, w)
  | .getMarketSnapshot _, .market m => some (.ok m, w)
  | .getPortfolioSnapshot _, .snapshot s => some (.ok s, w)
  | .getCircuitBreakerState, .ok => some (.ok w.breaker, w)
  | .placeOrder intent clientOrderId, .order o => some (.ok o, w.place intent clientOrderId)
  | .getPrice _ _, .price q => some (.ok q, w)
  | .getBenchmarkReturn _ _, .benchmark q => some (.ok q, w)
  | .placeOrder intent clientOrderId, .fault e => some (.error (.fault e), w.place intent clientOrderId)
  | .now _, .fault _ | .uuid4 _, .fault _ | .token, .fault _ => none
  | _, .fault e => some (.error (.fault e), w)
  | _, _ => none

end World

/-- What changes without a call: time passes, and the account trips or resets the breaker. -/
inductive Env : Type
  | tick (elapsed : ℕ)
  | breaker (b : CircuitBreakerState)

def World.env (w : World) : Env → World
  | .tick elapsed => { w with clock := w.clock + elapsed }
  | .breaker b => { w with breaker := b }

/-! ## The methods of `PipelineDB` -/

abbrev Program (α : Type) : Type := Prog Op Op.Ans Exn α

def now (site : ClockSite) : Program Time := Prog.perform (Op.now site)

def uuid4 (site : IdSite) : Program UUID := Prog.perform (Op.uuid4 site)

def tx (t : Tx) : Program t.Ans := Prog.perform (Op.tx t)

def ensureTrace (sourceAlertId : Text) (currentStage : StageName) (status : String) :
    Program UUID := do
  let _ ← now .ensureTrace
  tx (.ensureTrace sourceAlertId currentStage status)

def getMessage (messageId : UUID) : Program PipelineEnvelope := do
  let row ← tx (.fetchMessage messageId)
  let row ← Prog.getD (.keyError [.lit "message not found: ", .uuid messageId]) row
  let alertId ← tx (.sourceAlertIdForTrace row.traceId)
  let alertId ← Prog.getD (.keyError [.lit "trace not found: ", .uuid row.traceId]) alertId
  pure (row.toEnvelope alertId)

def leaseNextJob (cfg : QueueSection) (stage : StageName) (workerId : Text) :
    Program (Option JobLease) := do
  let t ← now .lease
  tx (.leaseNextJob stage workerId (t + seconds cfg.leaseSec) t)

def completeJobSuccess (lease : JobLease) (outputEnvelope : Option PipelineEnvelope)
    (nextStage : Option StageName) (nextAvailableAt : Option Time) (traceStatus : String) :
    Program (Option UUID) := do
  let t ← now .complete
  tx (.completeJobSuccess lease outputEnvelope nextStage nextAvailableAt traceStatus t)

def deadLetterJob (lease : JobLease) (reason : Text) : Program Unit := do
  let t ← now .deadLetter
  let envelope ← getMessage lease.messageId
  tx (.deadLetterJob lease reason envelope.payload t)

def completeJobRetry (lease : JobLease) (error : Text) (delaySec maxAttempts : ℤ) : Program Unit :=
  if maxAttempts ≤ lease.attemptCount then
    deadLetterJob lease error
  else do
    let t ← now .retry
    tx (.completeJobRetry lease error (t + seconds delaySec) t)

def saveResearchEvidence (messageId : UUID) (evidence : List EvidenceItem) : Program Unit :=
  match evidence with
  | [] => pure ()
  | item :: items => tx (.saveResearchEvidence messageId (item :: items))

def createApprovalRequest (traceId messageId candidateId : UUID) (channel : String)
    (callbackToken : Text) (expiresAt : Time) : Program UUID := do
  let approvalId ← uuid4 .approval
  let t ← now .requested
  tx (.createApprovalRequest {
    approvalId := approvalId, traceId := traceId, messageId := messageId, candidateId := candidateId
    channel := channel, status := .requested, requestedAt := t, expiresAt := expiresAt
    decidedAt := none, approverId := none, decisionReason := none, callbackToken := callbackToken })
  pure approvalId

def decideApproval (callbackToken : Text) (status : ApprovalStatus) (approverId : Text)
    (reason : Option Text) : Program UUID := do
  let t ← now .decide
  tx (.decideApproval callbackToken status approverId reason t)

def saveOutcomeObservation (observation : OutcomeObservation) : Program Unit := do
  let observationId ← uuid4 .observation
  tx (.saveOutcomeObservation observationId observation)

/-- `PipelineEnvelope.new`. -/
def newEnvelope (traceId : UUID) (sourceAlertId : Text) (stage : StageName) (schemaVersion : String)
    (idempotencyKey : Text) (payload : JsonValue) (parentMessageId : Option UUID) :
    Program PipelineEnvelope := do
  let messageId ← uuid4 .message
  let createdAt ← now .envelope
  pure ⟨messageId, traceId, sourceAlertId, parentMessageId, stage, schemaVersion, idempotencyKey,
    createdAt, payload⟩

/-- The envelope of a stage's output, a child of the message the stage read. -/
def childEnvelope (parent : PipelineEnvelope) (stage : StageName) (idempotencyKey : Text)
    (payload : JsonValue) : Program PipelineEnvelope :=
  newEnvelope parent.traceId parent.sourceAlertId stage parent.schemaVersion idempotencyKey payload
    (some parent.messageId)

end Sentinel.Pipeline
