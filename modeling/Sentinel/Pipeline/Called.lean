import Sentinel.Pipeline.Transactions

/-!
# The inversion of a call

`Called w op r w'` lists what a call can do: its answer and the world it leaves.  Every fact about
calls is a case analysis of it.
-/

namespace Sentinel.Pipeline

open Logic Contracts PipelineDB

/-- The calls that only ask the agent or a provider. -/
def Op.Asks : Op → Prop
  | .analyze _ | .getSnapshot | .getMarketSnapshot _ | .getPortfolioSnapshot _ | .getPrice _ _
  | .getBenchmarkReturn _ _ => True
  | _ => False

inductive Called (w : World) : (op : Op) → Except Exn op.Ans → World → Prop
  | now (site : ClockSite) : Called w (.now site) (.ok w.clock) w
  | uuid4 (site : IdSite) : Called w (.uuid4 site) (.ok w.nextId) { w with nextId := w.nextId + 1 }
  | token : Called w .token (.ok [.token w.nextId]) { w with nextId := w.nextId + 1 }
  | asked (op : Op) (r : Except Exn op.Ans) (hop : op.Asks) : Called w op r w
  | breaker : Called w .getCircuitBreakerState (.ok w.breaker) w
  | placed (intent : TradeIntent) (clientOrderId : Text) (r : Except Exn BrokerOrderResult) :
      Called w (.placeOrder intent clientOrderId) r (w.place intent clientOrderId)
  | raised (op : Op) (e : Exn) (hop : ∀ intent id, op ≠ .placeOrder intent id) :
      Called w op (.error e) w
  | ensureTrace (alertId : Text) (stage : StageName) (status : String) (id : UUID)
      (ts : List PipelineTrace)
      (h : (ts = updateWhere (fun t => t.traceId = id) (tracedRow stage status) w.db.pipelineTraces ∧
          (id, alertId) ∈ w.db.traceKeys) ∨
        (ts = w.db.pipelineTraces ++ [⟨w.nextId, alertId, stage, status⟩] ∧ id = w.nextId ∧
          ∀ p ∈ w.db.traceKeys, p.1 ≠ w.nextId ∧ p.2 ≠ alertId)) :
      Called w (.tx (.ensureTrace alertId stage status)) (.ok id)
        { w with db := { w.db with pipelineTraces := ts }, nextId := w.nextId + 1 }
  | messageKnown (envelope : PipelineEnvelope) (m : StageMessage) (hm : m ∈ w.db.stageMessages)
      (hkey : m.idempotencyKey = envelope.idempotencyKey) :
      Called w (.tx (.upsertMessage envelope)) (.ok (m.messageId, false)) w
  | messageNew (envelope : PipelineEnvelope) (hnew : w.db.NewMessage envelope) :
      Called w (.tx (.upsertMessage envelope)) (.ok (envelope.messageId, true))
        { w with db := { w.db with
          stageMessages := w.db.stageMessages ++ [.ofEnvelope envelope] } }
  | fetchMessage (id : UUID) : Called w (.tx (.fetchMessage id)) (.ok (w.db.findMessage id)) w
  | sourceAlertIdForTrace (id : UUID) :
      Called w (.tx (.sourceAlertIdForTrace id)) (.ok (w.db.sourceAlertIdForTrace id)) w
  | jobKnown (traceId : UUID) (stage : StageName) (messageId : UUID) (priority : ℤ) (j : StageJob)
      (hj : j ∈ w.db.stageJobs) (hkey : j.stage = stage ∧ j.messageId = messageId) :
      Called w (.tx (.enqueueJob traceId stage messageId priority)) (.ok j.jobId)
        { w with nextId := w.nextId + 1 }
  | jobNew (traceId : UUID) (stage : StageName) (messageId : UUID) (priority : ℤ)
      (hnew : w.db.NewJob w.nextId stage messageId) :
      Called w (.tx (.enqueueJob traceId stage messageId priority)) (.ok w.nextId)
        { w with
          db := { w.db with
            stageJobs := w.db.stageJobs ++
              [newJob w.nextId w.clock traceId stage messageId priority none] }
          nextId := w.nextId + 1 }
  | leaseNone (stage : StageName) (workerId : Text) (leasedUntil now : Time)
      (hnone : w.db.leasable stage now = []) :
      Called w (.tx (.leaseNextJob stage workerId leasedUntil now)) (.ok none)
        { w with nextId := w.nextId + 1 }
  | leased (stage : StageName) (workerId : Text) (leasedUntil now : Time) (row : StageJob)
      (hrow : row ∈ w.db.leasable stage now) (hnew : ∀ r ∈ w.db.stageRuns, r.runId ≠ w.nextId) :
      Called w (.tx (.leaseNextJob stage workerId leasedUntil now))
        (.ok (some ⟨row.jobId, w.nextId, row.traceId, row.stage, row.messageId,
          row.attemptCount + 1⟩))
        { w with
          db := { w.db with
            stageJobs := updateWhere (fun j => j.jobId = row.jobId)
              (leasedRow row workerId leasedUntil) w.db.stageJobs
            stageRuns := w.db.stageRuns ++
              [⟨w.nextId, row.jobId, row.messageId, now, none, .running⟩] }
          nextId := w.nextId + 1 }
  | completed (lease : JobLease) (output : Option PipelineEnvelope) (nextStage : Option StageName)
      (nextAvailableAt : Option Time) (status : String) (now : Time) (out : Option UUID)
      (ms : List StageMessage) (js : List StageJob) (ts : List PipelineTrace)
      (hts : ts = retraced output status w.db.pipelineTraces)
      (h : (ms = w.db.stageMessages ∧ js = w.db.stageJobs ∧
          (output = none ∧ out = none ∨ ∃ envelope, output = some envelope ∧
            ∃ m ∈ w.db.stageMessages, m.idempotencyKey = envelope.idempotencyKey ∧
              out = some m.messageId)) ∨
        (∃ envelope, output = some envelope ∧ out = some envelope.messageId ∧
          w.db.NewMessage envelope ∧ ms = w.db.stageMessages ++ [.ofEnvelope envelope] ∧
          (nextStage = none ∧ js = w.db.stageJobs ∨
            ∃ stage, nextStage = some stage ∧
              ((∃ j ∈ w.db.stageJobs, j.stage = stage ∧ j.messageId = envelope.messageId) ∧
                  js = w.db.stageJobs ∨
                w.db.NewJob w.nextId stage envelope.messageId ∧
                js = w.db.stageJobs ++ [newJob w.nextId w.clock envelope.traceId stage
                  envelope.messageId 100 nextAvailableAt])))) :
      Called w (.tx (.completeJobSuccess lease output nextStage nextAvailableAt status now)) (.ok out)
        { w with
          db := ({ w.db with stageMessages := ms, stageJobs := js, pipelineTraces := ts } :
            PipelineDB).finishJob lease .succeeded none none now
          nextId := w.nextId + 1 }
  | retried (lease : JobLease) (error : Text) (availableAt now : Time) :
      Called w (.tx (.completeJobRetry lease error availableAt now)) (.ok ())
        { w with db := w.db.finishJob lease .retryWait (some availableAt) (some error) now }
  | deadLettered (lease : JobLease) (reason : Text) (payload : JsonValue) (now : Time) :
      Called w (.tx (.deadLetterJob lease reason payload now)) (.ok ())
        { w with
          db := { w.db.finishJob lease .deadLetter none (some reason) now with
            deadLetters := w.db.deadLetters ++
              [⟨w.nextId, lease.jobId, lease.stage, reason, payload, now⟩] }
          nextId := w.nextId + 1 }
  | evidence (messageId : UUID) (items : List EvidenceItem) (es : List ResearchEvidence)
      (hrows : ∀ e ∈ es, e ∈ w.db.researchEvidence ∨ e.messageId = messageId) :
      Called w (.tx (.saveResearchEvidence messageId items)) (.ok ())
        { w with
          db := { w.db with researchEvidence := es }, nextId := w.nextId + items.length }
  | candidates (messageId : UUID) (candidates rejected : List TradeCandidate)
      (cs : List AnalysisCandidate) (hrows : ∀ c ∈ cs, c ∈ w.db.analysisCandidates ∨
        c.messageId = messageId ∧ c.item ∈ candidates ++ rejected) :
      Called w (.tx (.saveAnalysisCandidates messageId candidates rejected)) (.ok ())
        { w with db := { w.db with analysisCandidates := cs } }
  | snapshot (s : PortfolioSnapshot) :
      Called w (.tx (.savePortfolioSnapshot s)) (.ok s.snapshotId)
        { w with db := { w.db with portfolioSnapshots := w.db.portfolioSnapshots ++ [s] } }
  | requested (request : ApprovalRequest)
      (hnew : ∀ r ∈ w.db.approvalRequests, r.approvalId ≠ request.approvalId ∧
        r.callbackToken ≠ request.callbackToken) :
      Called w (.tx (.createApprovalRequest request)) (.ok ())
        { w with db := { w.db with approvalRequests := w.db.approvalRequests ++ [request] } }
  | approvalRequest (messageId : UUID) :
      Called w (.tx (.getApprovalRequestByMessage messageId))
        (.ok (w.db.approvalRequestByMessage messageId)) w
  | decided (token : Text) (status : ApprovalStatus) (approverId : Text) (reason : Option Text)
      (now : Time) (row : ApprovalRequest) (hrow : row ∈ w.db.approvalRequests)
      (htoken : row.callbackToken = token) :
      Called w (.tx (.decideApproval token status approverId reason now)) (.ok row.approvalId)
        { w with db := { w.db with
          approvalRequests := updateWhere (fun r => r.callbackToken = token)
            (decidedRow status approverId reason now) w.db.approvalRequests } }
  | orderKnown (record : OrderRecord) (o : BrokerOrder) (ho : o ∈ w.db.brokerOrders)
      (hid : o.clientOrderId = record.clientOrderId) :
      Called w (.tx (.saveBrokerOrder record)) (.ok o.orderId) { w with nextId := w.nextId + 1 }
  | orderNew (record : OrderRecord)
      (hnew : ∀ o ∈ w.db.brokerOrders, o.clientOrderId ≠ record.clientOrderId) :
      Called w (.tx (.saveBrokerOrder record)) (.ok w.nextId)
        { w with
          db := { w.db with brokerOrders := w.db.brokerOrders ++ [⟨record, w.nextId, w.clock⟩] }
          nextId := w.nextId + 1 }
  | brokerOrder (clientOrderId : Text) :
      Called w (.tx (.getBrokerOrderByClientOrderId clientOrderId))
        (.ok (w.db.brokerOrderByClientOrderId clientOrderId)) w
  | observation (id : UUID) (observation : OutcomeObservation)
      (hnew : ∀ o ∈ w.db.outcomeObservations, o.observationId ≠ id) :
      Called w (.tx (.saveOutcomeObservation id observation)) (.ok ())
        { w with db := { w.db with
          outcomeObservations := w.db.outcomeObservations ++ [⟨id, observation⟩] } }
  | observations (traceId : UUID) :
      Called w (.tx (.listOutcomeObservations traceId)) (.ok (w.db.listOutcomeObservations traceId)) w
  | observed (id : UUID) (observedAt : Time) (exitPrice returnPct : Decimal)
      (benchmark : Option Decimal) (label : Text) :
      Called w (.tx (.updateOutcomeObservation id observedAt exitPrice returnPct benchmark label))
        (.ok ())
        { w with
          db := w.db.updateOutcomeObservation id observedAt exitPrice returnPct benchmark label }

theorem map_ok {α β : Type} {x : Except Exn α} {f : α → β} {b : β} (h : x.map f = .ok b) :
    ∃ a, x = .ok a ∧ f a = b := by
  cases x with
  | error e => cases h
  | ok a => exact ⟨a, rfl, Except.ok.inj h⟩

/-- A transaction that commits. -/
theorem called_exec {w : World} {tie : ℕ} {t : Tx} {a : t.Ans} {db : PipelineDB} {n : UUID}
    (h : t.exec w.db w.clock w.nextId tie = .ok (a, db, n)) :
    Called w (.tx t) (.ok a) { w with db := db, nextId := n } := by
  cases t with
  | ensureTrace alertId stage status =>
    obtain ⟨⟨id, db'⟩, hx, heq⟩ := map_ok h
    cases heq
    obtain ⟨ts, rfl, hts⟩ := ensureTrace_ok hx
    exact .ensureTrace alertId stage status _ ts hts
  | upsertMessage envelope =>
    obtain ⟨⟨out, db'⟩, hx, heq⟩ := map_ok h
    cases heq
    rcases upsertMessage_ok hx with ⟨m, hm, hkey, rfl, rfl⟩ | ⟨hnew, rfl, rfl⟩
    · exact .messageKnown envelope m hm hkey
    · exact .messageNew envelope hnew
  | fetchMessage id =>
    cases h
    exact .fetchMessage id
  | sourceAlertIdForTrace id =>
    cases h
    exact .sourceAlertIdForTrace id
  | enqueueJob traceId stage messageId priority =>
    obtain ⟨⟨out, db'⟩, hx, heq⟩ := map_ok h
    cases heq
    rcases enqueueJob_ok hx with ⟨j, hj, hs, hm, rfl, rfl⟩ | ⟨hnew, rfl, rfl⟩
    · exact .jobKnown traceId stage messageId priority j hj ⟨hs, hm⟩
    · exact .jobNew traceId stage messageId priority hnew
  | leaseNextJob stage workerId leasedUntil now =>
    obtain ⟨⟨out, db'⟩, hx, heq⟩ := map_ok h
    cases heq
    rcases leaseNextJob_ok hx with ⟨hnone, rfl, rfl⟩ | ⟨row, hrow, hnew, rfl, rfl⟩
    · exact .leaseNone stage workerId leasedUntil now hnone
    · exact .leased stage workerId leasedUntil now row hrow hnew
  | completeJobSuccess lease output next availableAt status now =>
    obtain ⟨⟨out, db'⟩, hx, heq⟩ := map_ok h
    cases heq
    obtain ⟨ms, js, ts, rfl, hts, hcase⟩ := completeJobSuccess_ok hx
    exact .completed lease output next availableAt status now _ ms js ts hts hcase
  | completeJobRetry lease error availableAt now =>
    cases h
    exact .retried lease error availableAt now
  | deadLetterJob lease reason payload now =>
    obtain ⟨db', hx, heq⟩ := map_ok h
    cases heq
    obtain rfl := deadLetterJob_ok hx
    exact .deadLettered lease reason payload now
  | saveResearchEvidence messageId evidence =>
    obtain ⟨db', hx, heq⟩ := map_ok h
    cases heq
    obtain ⟨es, rfl, hrows⟩ := saveResearchEvidence_ok hx
    exact .evidence messageId evidence es hrows
  | saveAnalysisCandidates messageId candidates rejected =>
    obtain ⟨db', hx, heq⟩ := map_ok h
    cases heq
    obtain ⟨cs, rfl, hrows⟩ := saveAnalysisCandidates_ok hx
    exact .candidates messageId candidates rejected cs hrows
  | savePortfolioSnapshot s =>
    obtain ⟨⟨out, db'⟩, hx, heq⟩ := map_ok h
    cases heq
    obtain ⟨rfl, rfl⟩ := savePortfolioSnapshot_ok hx
    exact .snapshot s
  | createApprovalRequest request =>
    obtain ⟨db', hx, heq⟩ := map_ok h
    cases heq
    obtain ⟨hnew, rfl⟩ := createApprovalRequest_ok hx
    exact .requested request hnew
  | getApprovalRequestByMessage id =>
    cases h
    exact .approvalRequest id
  | decideApproval token status approverId reason now =>
    obtain ⟨⟨out, db'⟩, hx, heq⟩ := map_ok h
    cases heq
    obtain ⟨row, hrow, htoken, rfl, rfl⟩ := decideApproval_ok hx
    exact .decided token status approverId reason now row hrow htoken
  | saveBrokerOrder record =>
    obtain ⟨⟨out, db'⟩, hx, heq⟩ := map_ok h
    cases heq
    rcases saveBrokerOrder_ok hx with ⟨o, ho, hid, rfl, rfl⟩ | ⟨hnew, rfl, rfl⟩
    · exact .orderKnown record o ho hid
    · exact .orderNew record hnew
  | getBrokerOrderByClientOrderId id =>
    cases h
    exact .brokerOrder id
  | saveOutcomeObservation id observation =>
    obtain ⟨db', hx, heq⟩ := map_ok h
    cases heq
    obtain ⟨hnew, rfl⟩ := saveOutcomeObservation_ok hx
    exact .observation id observation hnew
  | listOutcomeObservations id =>
    cases h
    exact .observations id
  | updateOutcomeObservation id observedAt exitPrice returnPct benchmark label =>
    cases h
    exact .observed id observedAt exitPrice returnPct benchmark label

theorem called_runTx {w w' : World} {tie : ℕ} {t : Tx} {r : Except Exn t.Ans}
    (h : w.runTx tie t = (r, w')) : Called w (.tx t) r w' := by
  unfold World.runTx at h
  split at h
  · next a db n hx =>
    obtain ⟨rfl, rfl⟩ := Prod.mk.inj h
    exact called_exec hx
  · next e hx =>
    obtain ⟨rfl, rfl⟩ := Prod.mk.inj h
    exact .raised _ e fun _ _ h => nomatch h

theorem called {w w' : World} {op : Op} {inp : Input} {r : Except Exn op.Ans}
    (h : w.call op inp = some (r, w')) : Called w op r w' := by
  cases op with
  | now site =>
    cases inp <;> simp only [World.call, Option.some.injEq, Prod.mk.injEq, reduceCtorEq] at h
    obtain ⟨rfl, rfl⟩ := h
    exact .now site
  | uuid4 site =>
    cases inp <;> simp only [World.call, Option.some.injEq, Prod.mk.injEq, reduceCtorEq] at h
    obtain ⟨rfl, rfl⟩ := h
    exact .uuid4 site
  | token =>
    cases inp <;> simp only [World.call, Option.some.injEq, Prod.mk.injEq, reduceCtorEq] at h
    obtain ⟨rfl, rfl⟩ := h
    exact .token
  | tx t =>
    cases inp <;> simp only [World.call, Option.some.injEq, reduceCtorEq] at h
    · exact called_runTx h
    · exact called_runTx h
    · obtain ⟨rfl, rfl⟩ := Prod.mk.inj h
      exact .raised _ _ fun _ _ h => nomatch h
  | getCircuitBreakerState =>
    cases inp <;> simp only [World.call, Option.some.injEq, Prod.mk.injEq, reduceCtorEq] at h
    · obtain ⟨rfl, rfl⟩ := h
      exact .breaker
    · obtain ⟨rfl, rfl⟩ := h
      exact .raised _ _ fun _ _ h => nomatch h
  | placeOrder intent id =>
    cases inp <;> simp only [World.call, Option.some.injEq, Prod.mk.injEq, reduceCtorEq] at h
    · obtain ⟨rfl, rfl⟩ := h
      exact .placed intent id _
    · obtain ⟨rfl, rfl⟩ := h
      exact .placed intent id _
  | analyze _ | getSnapshot | getMarketSnapshot _ | getPortfolioSnapshot _ | getPrice _ _
  | getBenchmarkReturn _ _ =>
    cases inp <;> simp only [World.call, Option.some.injEq, Prod.mk.injEq, reduceCtorEq] at h
    all_goals
      obtain ⟨rfl, rfl⟩ := h
      exact .asked _ _ trivial

end Sentinel.Pipeline
