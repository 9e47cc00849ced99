import Mathlib.Data.List.Perm.Subperm
import Sentinel.Pipeline.System

/-!
# What precedes a call

Every call of ingress and the workers is justified by the calls the same thread made before it.
`Issues cfg task log op` says how: what has been leased, fetched, checked, placed or completed in
`log` when `op` is called.

* `leaseIn`, `snapshotIn`, `requestIn`, `listIn`, `observeIn` read a log.
* `Holds`: a job is leased and its message fetched; `Evaluated`, `Submits`: an order was checked.
* `Completes`: the ways in which a job is completed.
-/

namespace Sentinel.Pipeline

open Logic Contracts

/-! ## Reading a log -/

/-- The call was answered so. -/
def Answered (log : Log) (op : Op) (a : op.Ans) : Prop :=
  (⟨op, .ok a⟩ : Entry Op Op.Ans Exn) ∈ log

/-- The job leased first. -/
def leaseIn (log : Log) : Option JobLease :=
  log.findSome? fun
    | ⟨.tx (.leaseNextJob ..), .ok lease⟩ => lease
    | _ => none

/-- The stored portfolio snapshot read first. -/
def snapshotIn (log : Log) : Option PortfolioSnapshot :=
  log.findSome? fun
    | ⟨.getPortfolioSnapshot _, .ok s⟩ => some s
    | _ => none

theorem answered_of_snapshotIn {log : Log} {S : PortfolioSnapshot} (h : snapshotIn log = some S) :
    ∃ id, Answered log (.getPortfolioSnapshot id) S := by
  obtain ⟨en, hen, heq⟩ := List.exists_of_findSome?_eq_some h
  split at heq
  · next id S' =>
    obtain rfl := Option.some.inj heq
    exact ⟨id, hen⟩
  · cases heq

/-- The approval request read first. -/
def requestIn (log : Log) : Option ApprovalRequest :=
  log.findSome? fun
    | ⟨.tx (.getApprovalRequestByMessage _), .ok request⟩ => request
    | _ => none

/-- The envelopes published for a stage. -/
def published (stage : StageName) (log : Log) : List PipelineEnvelope :=
  log.filterMap fun
    | ⟨op, .ok _⟩ => op.publishes stage
    | _ => none

theorem mem_published {stage : StageName} {log : Log} {envelope : PipelineEnvelope}
    (h : envelope ∈ published stage log) : ∃ lease availableAt status t out,
      Answered log (.tx (.completeJobSuccess lease (some envelope) (some stage) availableAt status t))
        out := by
  obtain ⟨⟨op, r⟩, hen, heq⟩ := List.mem_filterMap.mp h
  cases r with
  | error e => cases heq
  | ok out =>
    dsimp only at heq
    unfold Op.publishes at heq
    split at heq
    · next lease envelope' next availableAt status t =>
      split_ifs at heq with hnext
      obtain rfl := Option.some.inj heq
      subst hnext
      exact ⟨lease, availableAt, status, t, out, hen⟩
    · cases heq

/-- The observations listed first, with their trace. -/
def listIn (log : Log) : Option (UUID × List ObservationRow) :=
  log.findSome? fun
    | ⟨.tx (.listOutcomeObservations traceId), .ok rows⟩ => some (traceId, rows)
    | _ => none

theorem answered_of_listIn {log : Log} {traceId : UUID} {rows : List ObservationRow}
    (h : listIn log = some (traceId, rows)) :
    Answered log (.tx (.listOutcomeObservations traceId)) rows := by
  obtain ⟨en, hen, heq⟩ := List.exists_of_findSome?_eq_some h
  split at heq
  · obtain ⟨rfl, rfl⟩ := Prod.mk.inj (Option.some.inj heq)
    exact hen
  · cases heq

/-- The time at which the observations were first looked at. -/
def observeIn (log : Log) : Option Time :=
  log.findSome? fun
    | ⟨.now .observe, .ok t⟩ => some t
    | _ => none

/-- The ids drawn at the place of the source, in order. -/
def drawsIn (site : IdSite) (log : Log) : List UUID :=
  log.filterMap fun
    | ⟨.uuid4 site', .ok id⟩ => if site' = site then some id else none
    | _ => none

/-- The calls that end a job. -/
def Op.ends : Op → Bool
  | .tx (.completeJobSuccess ..) | .tx (.completeJobRetry ..) | .tx (.deadLetterJob ..) => true
  | _ => false

/-- The calls that put an order or an observation on record. -/
def Op.records : Op → Bool
  | .tx (.saveBrokerOrder ..) | .tx (.saveOutcomeObservation ..) => true
  | _ => false

/-- The calls that ask the broker for an order. -/
def Op.places : Op → Bool
  | .placeOrder .. => true
  | _ => false

/-- The calls that save candidates. -/
def Op.savesCandidates : Op → Bool
  | .tx (.saveAnalysisCandidates ..) => true
  | _ => false

/-- The intent of the order that the thread places next. -/
def placing (th : Thread Op Op.Ans Exn Out Task) : Option TradeIntent :=
  match th.next with
  | some (.placeOrder intent _) => some intent
  | _ => none

theorem next_of_placing {th : Thread Op Op.Ans Exn Out Task} {intent : TradeIntent}
    (h : placing th = some intent) : ∃ id, th.next = some (.placeOrder intent id) := by
  unfold placing at h
  split at h
  · next intent' id hnext =>
    obtain rfl := Option.some.inj h
    exact ⟨id, hnext⟩
  · cases h

/-- No job has been ended in the log. -/
def Unended (log : Log) : Prop := ∀ en ∈ log, en.op.ends = false

/-- No order has been placed in the log. -/
def Unplaced (log : Log) : Prop := ∀ en ∈ log, en.op.places = false

/-- No candidates have been saved in the log. -/
def Unsaved (log : Log) : Prop := ∀ en ∈ log, en.op.savesCandidates = false

/-- Nothing has been put on record in the log. -/
def Unrecorded (log : Log) : Prop := ∀ en ∈ log, en.op.records = false

section Append

variable {log log' : Log} {en : Entry Op Op.Ans Exn}

theorem Answered.prefix_of {op : Op} {a : op.Ans} (h : Answered log op a) (hpre : log <+: log') :
    Answered log' op a := hpre.subset h

theorem answered_last {op : Op} {a : op.Ans} : Answered (log ++ [⟨op, .ok a⟩]) op a :=
  List.mem_append_right _ (List.mem_singleton.mpr rfl)

theorem findSome?_mono {α β : Type} {f : α → Option β} {l l' : List α} {b : β}
    (h : l.findSome? f = some b) (hpre : l <+: l') : l'.findSome? f = some b := by
  obtain ⟨r, rfl⟩ := hpre
  rw [List.findSome?_append, h, Option.some_or]

@[simp] theorem unended_append : Unended (log ++ log') ↔ Unended log ∧ Unended log' := by
  simp [Unended, or_imp, forall_and]

@[simp] theorem unended_cons : Unended (en :: log) ↔ en.op.ends = false ∧ Unended log := by
  simp [Unended]

@[simp] theorem unended_nil : Unended [] := by simp [Unended]

@[simp] theorem unplaced_append : Unplaced (log ++ log') ↔ Unplaced log ∧ Unplaced log' := by
  simp [Unplaced, or_imp, forall_and]

@[simp] theorem unplaced_cons : Unplaced (en :: log) ↔ en.op.places = false ∧ Unplaced log := by
  simp [Unplaced]

@[simp] theorem unplaced_nil : Unplaced [] := by simp [Unplaced]

@[simp] theorem unsaved_append : Unsaved (log ++ log') ↔ Unsaved log ∧ Unsaved log' := by
  simp [Unsaved, or_imp, forall_and]

@[simp] theorem unsaved_cons : Unsaved (en :: log) ↔ en.op.savesCandidates = false ∧ Unsaved log := by
  simp [Unsaved]

@[simp] theorem unsaved_nil : Unsaved [] := by simp [Unsaved]

@[simp] theorem unrecorded_append :
    Unrecorded (log ++ log') ↔ Unrecorded log ∧ Unrecorded log' := by
  simp [Unrecorded, or_imp, forall_and]

@[simp] theorem unrecorded_cons :
    Unrecorded (en :: log) ↔ en.op.records = false ∧ Unrecorded log := by
  simp [Unrecorded]

@[simp] theorem unrecorded_nil : Unrecorded [] := by simp [Unrecorded]

end Append

/-! ## Jobs and their messages -/

structure Leased (log : Log) (stage : StageName) (lease : JobLease) : Prop where
  first : leaseIn log = some lease
  asked : ∃ workerId leasedUntil t,
    Answered log (.tx (.leaseNextJob stage workerId leasedUntil t)) (some lease)

/-- The message was read. -/
def Fetched (log : Log) (id : UUID) (envelope : PipelineEnvelope) : Prop :=
  ∃ row alertId, Answered log (.tx (.fetchMessage id)) (some row) ∧
    Answered log (.tx (.sourceAlertIdForTrace row.traceId)) (some alertId) ∧
    envelope = row.toEnvelope alertId

structure Holds (log : Log) (stage : StageName) (lease : JobLease) (parent : PipelineEnvelope) :
    Prop where
  leased : Leased log stage lease
  fetched : Fetched log lease.messageId parent

theorem Leased.prefix_of {log log' : Log} {stage : StageName} {lease : JobLease}
    (h : Leased log stage lease) (hpre : log <+: log') : Leased log' stage lease := by
  obtain ⟨workerId, leasedUntil, t, hasked⟩ := h.asked
  exact ⟨findSome?_mono h.first hpre, workerId, leasedUntil, t, hasked.prefix_of hpre⟩

theorem Fetched.prefix_of {log log' : Log} {id : UUID} {envelope : PipelineEnvelope}
    (h : Fetched log id envelope) (hpre : log <+: log') : Fetched log' id envelope := by
  obtain ⟨row, alertId, hrow, halert, rfl⟩ := h
  exact ⟨row, alertId, hrow.prefix_of hpre, halert.prefix_of hpre, rfl⟩

theorem Holds.prefix_of {log log' : Log} {stage : StageName} {lease : JobLease}
    {parent : PipelineEnvelope} (h : Holds log stage lease parent) (hpre : log <+: log') :
    Holds log' stage lease parent :=
  ⟨h.leased.prefix_of hpre, h.fetched.prefix_of hpre⟩

/-- An output of the stage that read `parent`. -/
structure IsChild (parent : PipelineEnvelope) (stage : StageName) (key : Text) (payload : JsonValue)
    (envelope : PipelineEnvelope) : Prop where
  traceId : envelope.traceId = parent.traceId
  parentId : envelope.parentMessageId = some parent.messageId
  stage : envelope.stage = stage
  key : envelope.idempotencyKey = key
  payload : envelope.payload = payload

/-- What ingress stores for an alert whose trace it has. -/
structure Ingests (log : Log) (alertId : Text) (envelope : PipelineEnvelope) : Prop where
  trace : ∃ stage status, Answered log (.tx (.ensureTrace alertId stage status)) envelope.traceId
  key : envelope.idempotencyKey = buildIngestKey alertId
  stage : envelope.stage = .ingest
  payload : ∃ ingested : IngestedAlert, ingested.shiftAlert.alertId = alertId ∧
    envelope.payload = IngestedAlert.contract.dump ingested
  parentId : envelope.parentMessageId = none
  drawn : Answered log (.uuid4 .message) envelope.messageId

theorem drawsIn_mono {site : IdSite} {log log' : Log} (hpre : log <+: log') :
    (drawsIn site log).Subperm (drawsIn site log') :=
  (hpre.sublist.filterMap _).subperm

theorem Ingests.prefix_of {log log' : Log} {alertId : Text} {envelope : PipelineEnvelope}
    (h : Ingests log alertId envelope) (hpre : log <+: log') : Ingests log' alertId envelope := by
  obtain ⟨stage, status, htrace⟩ := h.trace
  exact ⟨⟨stage, status, htrace.prefix_of hpre⟩, h.key, h.stage, h.payload, h.parentId,
    h.drawn.prefix_of hpre⟩

/-! ## Orders -/

/-- The candidate the executor considers. -/
def bestCandidate (payload : JsonValue) : Option TradeCandidate :=
  (AnalysisReport.contract.load payload).bind fun report => (sortedByScore report.candidates).head?

/-- All risk checks of the best candidate have just passed. -/
structure Evaluated (cfg : PipelineConfig) (log : Log) (lease : JobLease)
    (parent : PipelineEnvelope) (candidate : TradeCandidate) (intent : TradeIntent) : Prop where
  holds : Holds log .execution lease parent
  best : bestCandidate parent.payload = some candidate
  passed : ∃ l portfolio breaker t, snapshotIn l = some portfolio ∧
    log = l ++ [⟨.getCircuitBreakerState, .ok breaker⟩] ++ [⟨.now .evaluate, .ok t⟩] ∧
    RiskPassed cfg.executor t candidate portfolio breaker
  intent : ∃ limitPrice, intent = ExecutorWorker.buildIntent cfg candidate limitPrice

/-- The log when an order is about to be submitted. -/
inductive Submits (cfg : PipelineConfig) (log : Log) (lease : JobLease) (parent : PipelineEnvelope)
    (intent : TradeIntent) : Prop
  | direct (candidate : TradeCandidate) (hmode : cfg.executor.approvalMode ≠ "manual_all")
      (h : Evaluated cfg log lease parent candidate intent)
  | approved (l : Log) (request : ApprovalRequest) (j : JsonValue)
      (hlog : log = l ++
        [⟨.tx (.getApprovalRequestByMessage parent.messageId), .ok (some request)⟩])
      (hrequest : requestIn log = some request) (hstatus : request.status = .approved)
      (h : Holds l .approval lease parent)
      (hget : JsonValue.get parent.payload .intent = some j)
      (hload : TradeIntent.contract.load j = some intent)

theorem Submits.holds {cfg : PipelineConfig} {log : Log} {lease : JobLease}
    {parent : PipelineEnvelope} {intent : TradeIntent} (h : Submits cfg log lease parent intent) :
    ∃ stage, (stage = .execution ∨ stage = .approval) ∧ Holds log stage lease parent := by
  cases h with
  | direct candidate hmode h => exact ⟨.execution, Or.inl rfl, h.holds⟩
  | approved l request j hlog hrequest hstatus h hget hload =>
    exact ⟨.approval, Or.inr rfl, h.prefix_of ⟨_, hlog.symm⟩⟩

def clientOrderId (cfg : PipelineConfig) (parent : PipelineEnvelope) (intent : TradeIntent) : Text :=
  buildStableOrderId parent.traceId intent.candidateId cfg.executor.riskRulesetVersion

/-! ## Completions -/

/-- The observations were listed and looked at. -/
structure Watches (log : Log) (lease : JobLease) (parent : PipelineEnvelope)
    (rows : List ObservationRow) (t : Time) : Prop where
  holds : Holds log .outcome lease parent
  listed : listIn log = some (parent.traceId, rows)
  observed : observeIn log = some t

/-- The outcome `horizon` in the key of the message that reports on the observations. -/
def followUpHorizon (rows : List ObservationRow) : Text :=
  if (OutcomeWorker.pendingRows rows).isEmpty then lit "final"
  else [.lit "pending-", .int (OutcomeWorker.pendingRows rows).length]

/-- The ways in which a worker completes its job, with the output and the stage it is queued for. -/
inductive Completes (cfg : PipelineConfig) (log : Log) (lease : JobLease) :
    Option PipelineEnvelope → Option StageName → Prop
  | researched (parent envelope : PipelineEnvelope) (ingested : IngestedAlert)
      (report : ResearchReport) (next : Option StageName) (h : Holds log .research lease parent)
      (hload : IngestedAlert.contract.load parent.payload = some ingested)
      (hreport : Answered log (.analyze ingested) report)
      (he : IsChild parent .research (buildResearchKey parent.messageId cfg.researcher.promptVersion)
        (ResearchReport.contract.dump report) envelope)
      (hnext : next = if report.status = .pass then some .analysis else none) :
      Completes cfg log lease (some envelope) next
  | analysed (parent envelope : PipelineEnvelope) (report : ResearchReport)
      (snapshot : PortfolioSnapshot) (output : AnalysisReport) (next : Option StageName)
      (h : Holds log .analysis lease parent)
      (hload : ResearchReport.contract.load parent.payload = some report)
      (hsnapshot : Answered log .getSnapshot snapshot)
      (he : IsChild parent .analysis
        (buildAnalysisKey parent.messageId cfg.analyst.rulesetVersion snapshot.capturedAt)
        (AnalysisReport.contract.dump output) envelope)
      (hnext : next = if output.status = .pass then some .execution else none)
      (hdrawn : ((output.candidates ++ output.rejectedCandidates).map
        TradeCandidate.candidateId).Subperm (drawsIn .candidate log)) : Completes cfg log lease (some envelope) next
  | rejected (parent envelope : PipelineEnvelope) (decision : ExecutionDecision)
      (h : Holds log .execution lease parent) (hstatus : decision.status = .rejectedRisk)
      (he : IsChild parent .execution (executionKey cfg parent)
        (ExecutionDecision.contract.dump decision) envelope) :
      Completes cfg log lease (some envelope) none
  | awaiting (l : Log) (parent envelope : PipelineEnvelope) (candidate : TradeCandidate)
      (intent : TradeIntent) (checks : List RiskCheckResult) (approvalId : UUID)
      (hmode : cfg.executor.approvalMode = "manual_all") (hl : l <+: log)
      (h : Evaluated cfg l lease parent candidate intent)
      (he : IsChild parent .execution (executionKey cfg parent) (ExecutionDecision.contract.dump
        (ExecutorWorker.awaitingDecision intent checks approvalId)) envelope) :
      Completes cfg log lease (some envelope) (some .approval)
  | submitted (l : Log) (parent envelope : PipelineEnvelope) (intent : TradeIntent)
      (checks : List RiskCheckResult) (stage : StageName) (brokerOrderId : Text) (hl : l <+: log)
      (h : Submits cfg l lease parent intent) (hstage : stage = .execution ∨ stage = .approval)
      (he : IsChild parent stage (executionKey cfg parent) (ExecutionDecision.contract.dump
        (submittedDecision intent checks brokerOrderId)) envelope)
      (hholds : Holds l stage lease parent) : Completes cfg log lease (some envelope) (some .outcome)
  | ended (parent envelope : PipelineEnvelope) (status : ApprovalStatus)
      (decision : ExecutionDecision) (h : Holds log .approval lease parent)
      (he : IsChild parent .approval
        [.lit "approval:", .uuid parent.messageId, .lit ":", .lit status.value]
        (ExecutionDecision.contract.dump decision) envelope) :
      Completes cfg log lease (some envelope) none
  | skipped (parent : PipelineEnvelope) (decision : ExecutionDecision)
      (h : Holds log .outcome lease parent)
      (hload : ExecutionDecision.contract.load parent.payload = some decision)
      (hintent : decision.intent = none) : Completes cfg log lease none none
  | missing (parent : PipelineEnvelope) (h : Holds log .outcome lease parent)
      (hlisted : listIn log = some (parent.traceId, [])) : Completes cfg log lease none none
  | observed (parent envelope : PipelineEnvelope) (rows rows' : List ObservationRow) (t : Time)
      (next : Option StageName) (h : Watches log lease parent rows t)
      (hdue : OutcomeWorker.dueRows t rows ≠ [])
      (hupdated : ∀ row ∈ OutcomeWorker.dueRows t rows, ∃ exitPrice returnPct benchmark label,
        Answered log (.tx (.updateOutcomeObservation row.observationId t exitPrice returnPct
          benchmark label)) ())
      (hrows' : Answered log (.tx (.listOutcomeObservations parent.traceId)) rows')
      (he : IsChild parent .outcome (buildOutcomeKey parent.traceId (followUpHorizon rows'))
        (OutcomeWorker.followUpPayload (OutcomeWorker.dueRows t rows).length
          (OutcomeWorker.pendingRows rows').length) envelope)
      (hnext : next = if OutcomeWorker.pendingRows rows' = [] then none else some .outcome) :
      Completes cfg log lease (some envelope) next

/-- The statuses of a trace on which no order has been submitted. -/
def earlyStatuses : List String := ["persisted", "pass", "reject", "rejected_risk"]

/-- What holds when a worker calls `complete_job_success`. -/
structure Concludes (cfg : PipelineConfig) (log : Log) (lease : JobLease)
    (output : Option PipelineEnvelope) (next : Option StageName) (status : String) : Prop where
  completes : Completes cfg log lease output next
  unended : Unended log
  drawn : ∀ envelope ∈ output, Answered log (.uuid4 .message) envelope.messageId
  submitted : status = "submitted" → next = some .outcome
  observed : ∀ envelope ∈ output, envelope.stage = .outcome → status ∉ earlyStatuses

/-- The completion that stored the message under whose id rows are saved. -/
def Published (log : Log) (messageId : UUID) : Prop :=
  ∃ lease output next availableAt status t, Answered log
    (.tx (.completeJobSuccess lease output next availableAt status t)) (some messageId)

/-- Why `OutcomeWorker` gives a job up, when no call raised. -/
inductive Stuck (log : Log) (lease : JobLease) : Prop
  | lost (h : Answered log (.tx (.fetchMessage lease.messageId)) none)
  | untraced (row : StageMessage) (h : Answered log (.tx (.fetchMessage lease.messageId)) (some row))
      (h' : Answered log (.tx (.sourceAlertIdForTrace row.traceId)) none)
  | unreadable (parent : PipelineEnvelope) (h : Holds log .outcome lease parent)
      (hload : ExecutionDecision.contract.load parent.payload = none)
  | settled (parent : PipelineEnvelope) (rows : List ObservationRow)
      (h : Holds log .outcome lease parent) (hlisted : listIn log = some (parent.traceId, rows))
      (hpending : OutcomeWorker.pendingRows rows = [])
  | exhausted (parent : PipelineEnvelope) (rows : List ObservationRow) (t : Time)
      (h : Watches log lease parent rows t) (hdue : OutcomeWorker.dueRows t rows = [])
      (hattempts : 10000 ≤ lease.attemptCount)

/-- What justifies giving a job of the stage up. -/
def GivesUp (log : Log) (stage : StageName) (lease : JobLease) : Prop :=
  Unended log ∧ (stage = .outcome → Stuck log lease)

/-! ## Calls -/

/-- The tasks that may submit orders. -/
def Task.trades : Task → Bool
  | .executor _ | .approval _ => true
  | _ => false

/-- The tasks that store alerts; they lease nothing. -/
def Task.ingests : Task → Bool
  | .ingress .. => true
  | _ => false

theorem Task.ingests_of_trades {task : Task} (h : task.trades = true) : task.ingests = false := by
  cases task <;> first | rfl | cases h

/-- What the log of a thread says when it makes a call. -/
def Issues (cfg : PipelineConfig) (task : Task) (log : Log) : Op → Prop
  | .tx (.ensureTrace _ stage status) =>
    task.ingests = true ∧ stage = .ingest ∧ status = "persisted"
  | .tx (.upsertMessage envelope) => ∃ alertId, Ingests log alertId envelope
  | .tx (.enqueueJob traceId stage messageId _) => ∃ alertId envelope,
    Ingests log alertId envelope ∧ Answered log (.tx (.upsertMessage envelope)) (messageId, true) ∧
    stage = .research ∧ traceId = envelope.traceId
  | .tx (.leaseNextJob ..) => leaseIn log = none ∧ task.ingests = false
  | .tx (.fetchMessage id) => ∃ stage lease, Leased log stage lease ∧ id = lease.messageId
  | .tx (.sourceAlertIdForTrace id) => ∃ messageId row,
    Answered log (.tx (.fetchMessage messageId)) (some row) ∧ id = row.traceId
  | .tx (.completeJobSuccess lease output next _ status _) =>
    Concludes cfg log lease output next status
  | .tx (.completeJobRetry lease _ _ _) =>
    (∃ stage, Leased log stage lease) ∧ (NoRaise log → Unended log)
  | .tx (.deadLetterJob lease _ _ _) => ∃ stage, Leased log stage lease ∧
    (NoRaise log → GivesUp log stage lease)
  | .tx (.saveResearchEvidence messageId _) => Published log messageId
  | .tx (.saveAnalysisCandidates messageId candidates rejected) => Published log messageId ∧
    ((candidates ++ rejected).map TradeCandidate.candidateId).Subperm (drawsIn .candidate log) ∧
    Unsaved log
  | .tx (.createApprovalRequest request) => request.status = .requested ∧
    cfg.executor.approvalMode = "manual_all" ∧ Unended log ∧
    Answered log (.uuid4 .message) request.messageId ∧ ∃ lease parent,
      Holds log .execution lease parent ∧ request.traceId = parent.traceId
  | .tx (.getApprovalRequestByMessage id) => ∃ lease parent, Holds log .approval lease parent ∧
    id = parent.messageId
  | .getPortfolioSnapshot _ => ∃ lease parent, Holds log .execution lease parent
  | .now .evaluate => ∃ l breaker, log = l ++ [⟨.getCircuitBreakerState, .ok breaker⟩]
  | .tx (.getBrokerOrderByClientOrderId id) => ∃ lease parent intent,
    Submits cfg log lease parent intent ∧ id = clientOrderId cfg parent intent
  | .placeOrder intent id => (∃ l lease parent, Submits cfg l lease parent intent ∧
    id = clientOrderId cfg parent intent ∧
    log = l ++ [⟨.tx (.getBrokerOrderByClientOrderId id), .ok none⟩]) ∧ Unplaced log ∧ Unended log
  | .tx (.saveBrokerOrder record) => task.trades = true ∧ ∃ l lease parent intent order,
    Submits cfg l lease parent intent ∧
    record = orderRecord parent intent (clientOrderId cfg parent intent) order ∧
    log = l ++ [⟨.tx (.getBrokerOrderByClientOrderId (clientOrderId cfg parent intent)), .ok none⟩] ++
      [⟨.placeOrder intent (clientOrderId cfg parent intent), .ok order⟩] ∧ Unended log
  | .tx (.saveOutcomeObservation _ observation) => task.trades = true ∧
    ∃ l lease parent intent envelope availableAt status t out, Submits cfg l lease parent intent ∧
    l <+: log ∧ envelope.traceId = observation.traceId ∧ observation.observedAt = none ∧
    Answered log (.tx (.completeJobSuccess lease (some envelope) (some .outcome) availableAt status
      t)) out ∧ observation.traceId = parent.traceId
  | .tx (.listOutcomeObservations traceId) => (∃ l lease parent intent,
      Submits cfg l lease parent intent ∧ l <+: log ∧ traceId = parent.traceId) ∨
    ∃ lease parent decision intent, Holds log .outcome lease parent ∧ traceId = parent.traceId ∧
      ExecutionDecision.contract.load parent.payload = some decision ∧ decision.intent = some intent
  | .now .observe => ∃ lease parent rows, Holds log .outcome lease parent ∧ rows ≠ [] ∧
    listIn log = some (parent.traceId, rows)
  | _ => True

/-! ## Ends -/

/-- All three observations of the trace have been saved. -/
def Scheduled (log : Log) (traceId : UUID) : Prop :=
  ∀ horizon : OutcomeHorizon, ∃ id observation,
    Answered log (.tx (.saveOutcomeObservation id observation)) () ∧
    observation.traceId = traceId ∧ observation.horizon = horizon

/-- What has been recorded in the log is followed by the observations of the trace, unless the
trace had some. -/
structure Settled (log : Log) : Prop where
  order : ∀ record id, Answered log (.tx (.saveBrokerOrder record)) id →
    Scheduled log record.traceId ∨ ∃ rows, rows ≠ [] ∧
      Answered log (.tx (.listOutcomeObservations record.traceId)) rows
  observation : ∀ id observation, Answered log (.tx (.saveOutcomeObservation id observation)) () →
    Scheduled log observation.traceId

theorem settled_of_unrecorded {log : Log} (h : Unrecorded log) : Settled log where
  order record id hen := absurd (h _ hen) (by simp [Op.records])
  observation id observation hen := absurd (h _ hen) (by simp [Op.records])

/-- An alert was stored, and queued if it was new. -/
def Acknowledges (log : Log) (alertId : Text) : Prop :=
  ∃ envelope messageId, Ingests log alertId envelope ∧
    (Answered log (.tx (.upsertMessage envelope)) (messageId, false) ∨
      Answered log (.tx (.upsertMessage envelope)) (messageId, true) ∧ ∃ priority jobId,
        Answered log (.tx (.enqueueJob envelope.traceId .research messageId priority)) jobId)

/-- What the log of a thread that has ended says. -/
def Finishes (task : Task) (log : Log) (result : Except Exn Out) : Prop :=
  match task with
  | .ingress body _ _ => ∀ response, result = .ok (.response response) →
    response.statusCode = 202 → ∃ shiftAlert, body.json.bind ShiftAlertMirror.contract.load =
      some shiftAlert ∧ Acknowledges log shiftAlert.alertId
  | .executor _ | .approval _ => NoRaise log → Settled log
  | _ => True

end Sentinel.Pipeline
