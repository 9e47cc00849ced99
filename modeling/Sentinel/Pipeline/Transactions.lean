import Sentinel.Pipeline.Calls

/-!
# What the transactions do

For each transaction that writes, the tables it leaves, by cases; the tables not named are those
before.  `traceKeys` and `StageJob.key` are the columns that no update changes.
-/

namespace Sentinel.Pipeline

open Logic Contracts

namespace PipelineDB

/-- The columns of `pipeline_traces` that never change. -/
def traceKeys (db : PipelineDB) : List (UUID × Text) :=
  db.pipelineTraces.map fun t => (t.traceId, t.sourceAlertId)

variable {db db' : PipelineDB} {fresh id : UUID} {now clock : Time}

/-- The row of a trace that has moved. -/
def tracedRow (stage : StageName) (status : String) (t : PipelineTrace) : PipelineTrace :=
  { t with currentStage := stage, status := status }

theorem ensureTrace_ok {alertId : Text} {stage : StageName} {status : String}
    (h : db.ensureTrace fresh alertId stage status = .ok (id, db')) :
    ∃ ts, db' = { db with pipelineTraces := ts } ∧
      ((ts = updateWhere (fun t => t.traceId = id) (tracedRow stage status) db.pipelineTraces ∧
          (id, alertId) ∈ db.traceKeys) ∨
        (ts = db.pipelineTraces ++ [⟨fresh, alertId, stage, status⟩] ∧ id = fresh ∧
          ∀ p ∈ db.traceKeys, p.1 ≠ fresh ∧ p.2 ≠ alertId)) := by
  unfold ensureTrace at h
  split at h
  · next row hrow =>
    obtain ⟨rfl, rfl⟩ := Prod.mk.inj (Except.ok.inj h)
    refine ⟨_, rfl, Or.inl ⟨rfl, ?_⟩⟩
    have halert := List.find?_some hrow
    simp only [decide_eq_true_eq] at halert
    exact List.mem_map.mpr ⟨row, List.mem_of_find?_eq_some hrow, by rw [halert]⟩
  · next hnone =>
    split_ifs at h with hany
    obtain ⟨rfl, rfl⟩ := Prod.mk.inj (Except.ok.inj h)
    refine ⟨_, rfl, Or.inr ⟨rfl, rfl, ?_⟩⟩
    intro p hp
    obtain ⟨t, ht, rfl⟩ := List.mem_map.mp hp
    simp only [List.any_eq_true, decide_eq_true_eq, not_exists, not_and] at hany
    simp only [List.find?_eq_none, decide_eq_true_eq] at hnone
    exact ⟨hany t ht, hnone t ht⟩

/-- No stored message has the key or the id of the envelope. -/
structure NewMessage (db : PipelineDB) (envelope : PipelineEnvelope) : Prop where
  key : ∀ m ∈ db.stageMessages, m.idempotencyKey ≠ envelope.idempotencyKey
  id : ∀ m ∈ db.stageMessages, m.messageId ≠ envelope.messageId

theorem upsertMessage_ok {envelope : PipelineEnvelope} {out : UUID × Bool}
    (h : db.upsertMessage envelope = .ok (out, db')) :
    (∃ m ∈ db.stageMessages, m.idempotencyKey = envelope.idempotencyKey ∧
      out = (m.messageId, false) ∧ db' = db) ∨
    (db.NewMessage envelope ∧ out = (envelope.messageId, true) ∧
      db' = { db with stageMessages := db.stageMessages ++ [.ofEnvelope envelope] }) := by
  unfold upsertMessage at h
  split at h
  · next m hm =>
    obtain ⟨rfl, rfl⟩ := Prod.mk.inj (Except.ok.inj h)
    have hkey := List.find?_some hm
    simp only [decide_eq_true_eq] at hkey
    exact Or.inl ⟨m, List.mem_of_find?_eq_some hm, hkey, rfl, rfl⟩
  · next hnone =>
    split_ifs at h with hany
    obtain ⟨rfl, rfl⟩ := Prod.mk.inj (Except.ok.inj h)
    simp only [List.any_eq_true, decide_eq_true_eq, not_exists, not_and] at hany
    simp only [List.find?_eq_none, decide_eq_true_eq] at hnone
    exact Or.inr ⟨⟨hnone, hany⟩, rfl, rfl⟩

/-- No job of the stage has the message, and no job the id. -/
structure NewJob (db : PipelineDB) (jobId : UUID) (stage : StageName) (messageId : UUID) : Prop where
  key : ∀ j ∈ db.stageJobs, j.stage = stage → j.messageId ≠ messageId
  id : ∀ j ∈ db.stageJobs, j.jobId ≠ jobId

theorem enqueueJob_ok {traceId messageId : UUID} {stage : StageName} {priority : ℤ}
    {availableAt : Option Time}
    (h : db.enqueueJob fresh now traceId stage messageId priority availableAt = .ok (id, db')) :
    (∃ j ∈ db.stageJobs, j.stage = stage ∧ j.messageId = messageId ∧ id = j.jobId ∧ db' = db) ∨
    (db.NewJob fresh stage messageId ∧ id = fresh ∧
      db' = { db with stageJobs := db.stageJobs ++
        [newJob fresh now traceId stage messageId priority availableAt] }) := by
  unfold enqueueJob at h
  split at h
  · next j hj =>
    obtain ⟨rfl, rfl⟩ := Prod.mk.inj (Except.ok.inj h)
    have hkey := List.find?_some hj
    simp only [Bool.and_eq_true, decide_eq_true_eq] at hkey
    exact Or.inl ⟨j, List.mem_of_find?_eq_some hj, hkey.1, hkey.2, rfl, rfl⟩
  · next hnone =>
    split_ifs at h with hany
    obtain ⟨rfl, rfl⟩ := Prod.mk.inj (Except.ok.inj h)
    simp only [List.any_eq_true, decide_eq_true_eq, not_exists, not_and] at hany
    simp only [List.find?_eq_none, Bool.and_eq_true, decide_eq_true_eq, not_and] at hnone
    exact Or.inr ⟨⟨hnone, hany⟩, rfl, rfl⟩

theorem mem_leasable {stage : StageName} {j : StageJob} :
    j ∈ db.leasable stage now ↔
      (j ∈ db.stageJobs ∧ j.ready stage now = true) ∧
        ∀ k ∈ db.stageJobs, k.ready stage now = true → j.before k = true := by
  simp only [leasable, List.mem_filter, List.all_eq_true, and_imp]

/-- The row a lease leaves. -/
def leasedRow (row : StageJob) (workerId : Text) (leasedUntil : Time) (j : StageJob) : StageJob :=
  { j with
    state := .running, attemptCount := row.attemptCount + 1, leasedUntil := some leasedUntil
    workerId := some workerId }

theorem leaseNextJob_ok {tie : ℕ} {stage : StageName} {workerId : Text} {leasedUntil : Time}
    {out : Option JobLease}
    (h : db.leaseNextJob fresh tie stage workerId leasedUntil now = .ok (out, db')) :
    (db.leasable stage now = [] ∧ out = none ∧ db' = db) ∨
    ∃ row ∈ db.leasable stage now, (∀ r ∈ db.stageRuns, r.runId ≠ fresh) ∧
      out = some ⟨row.jobId, fresh, row.traceId, row.stage, row.messageId, row.attemptCount + 1⟩ ∧
      db' = { db with
        stageJobs := updateWhere (fun j => j.jobId = row.jobId)
          (leasedRow row workerId leasedUntil) db.stageJobs
        stageRuns := db.stageRuns ++ [⟨fresh, row.jobId, row.messageId, now, none, .running⟩] } := by
  unfold leaseNextJob at h
  dsimp only at h
  split at h
  · next hnone =>
    obtain ⟨rfl, rfl⟩ := Prod.mk.inj (Except.ok.inj h)
    refine Or.inl ⟨?_, rfl, rfl⟩
    by_contra hne
    have hpos : 0 < (db.leasable stage now).length := List.length_pos_iff.mpr hne
    rw [List.getElem?_eq_none_iff] at hnone
    exact absurd (Nat.mod_lt tie hpos) (by omega)
  · next row hrow =>
    split_ifs at h with hany
    obtain ⟨rfl, rfl⟩ := Prod.mk.inj (Except.ok.inj h)
    simp only [List.any_eq_true, decide_eq_true_eq, not_exists, not_and] at hany
    exact Or.inr ⟨row, List.mem_of_getElem? hrow, hany, rfl, rfl⟩

/-- The row a completion leaves. -/
def finishedRow (state : JobState) (availableAt : Option Time) (error : Option Text) (j : StageJob) :
    StageJob :=
  { j with
    state := state, leasedUntil := none, availableAt := availableAt.getD j.availableAt
    lastError := error }

/-- The traces that a completion leaves: the output moves its own. -/
def retraced (output : Option PipelineEnvelope) (status : String) (ts : List PipelineTrace) :
    List PipelineTrace :=
  match output with
  | none => ts
  | some envelope =>
    updateWhere (fun t => t.traceId = envelope.traceId) (tracedRow envelope.stage status) ts

theorem completeJobSuccess_ok {lease : JobLease} {output : Option PipelineEnvelope}
    {nextStage : Option StageName} {nextAvailableAt : Option Time} {status : String}
    {out : Option UUID}
    (h : db.completeJobSuccess fresh clock lease output nextStage nextAvailableAt status now =
      .ok (out, db')) :
    ∃ ms js ts,
      db' = ({ db with stageMessages := ms, stageJobs := js, pipelineTraces := ts } :
        PipelineDB).finishJob lease .succeeded none none now ∧
      ts = retraced output status db.pipelineTraces ∧
      ((ms = db.stageMessages ∧ js = db.stageJobs ∧
          (output = none ∧ out = none ∨ ∃ envelope, output = some envelope ∧
            ∃ m ∈ db.stageMessages, m.idempotencyKey = envelope.idempotencyKey ∧
              out = some m.messageId)) ∨
        (∃ envelope, output = some envelope ∧ out = some envelope.messageId ∧
          db.NewMessage envelope ∧ ms = db.stageMessages ++ [.ofEnvelope envelope] ∧
          (nextStage = none ∧ js = db.stageJobs ∨
            ∃ stage, nextStage = some stage ∧
              ((∃ j ∈ db.stageJobs, j.stage = stage ∧ j.messageId = envelope.messageId) ∧
                  js = db.stageJobs ∨
                db.NewJob fresh stage envelope.messageId ∧
                js = db.stageJobs ++ [newJob fresh clock envelope.traceId stage envelope.messageId
                  100 nextAvailableAt])))) := by
  unfold completeJobSuccess at h
  cases output with
  | none =>
    obtain ⟨rfl, rfl⟩ := Prod.mk.inj (Except.ok.inj h)
    exact ⟨_, _, _, rfl, rfl, Or.inl ⟨rfl, rfl, Or.inl ⟨rfl, rfl⟩⟩⟩
  | some envelope =>
    simp only at h
    cases hup : db.upsertMessage envelope with
    | error e => simp [hup, Except.bind] at h
    | ok r =>
      obtain ⟨⟨messageId, inserted⟩, db₁⟩ := r
      simp only [hup, Except.bind] at h
      rcases upsertMessage_ok hup with ⟨m, hm, hkey, hout, rfl⟩ | ⟨hnew, hout, rfl⟩
      · obtain ⟨rfl, rfl⟩ := Prod.mk.inj hout
        simp only at h
        obtain ⟨rfl, rfl⟩ := Prod.mk.inj (Except.ok.inj h)
        exact ⟨_, _, _, rfl, rfl,
          Or.inl ⟨rfl, rfl, Or.inr ⟨envelope, rfl, m, hm, hkey, rfl⟩⟩⟩
      · obtain ⟨rfl, rfl⟩ := Prod.mk.inj hout
        cases nextStage with
        | none =>
          simp only at h
          obtain ⟨rfl, rfl⟩ := Prod.mk.inj (Except.ok.inj h)
          exact ⟨_, _, _, rfl, rfl,
            Or.inr ⟨envelope, rfl, rfl, hnew, rfl, Or.inl ⟨rfl, rfl⟩⟩⟩
        | some stage =>
          simp only at h
          cases hen : ({ db with stageMessages := db.stageMessages ++ [.ofEnvelope envelope] } :
              PipelineDB).enqueueJob fresh clock envelope.traceId stage envelope.messageId 100
                nextAvailableAt with
          | error e => simp [hen, Except.map] at h
          | ok r =>
            obtain ⟨jobId, db₂⟩ := r
            simp only [hen, Except.map] at h
            obtain ⟨rfl, rfl⟩ := Prod.mk.inj (Except.ok.inj h)
            rcases enqueueJob_ok hen with ⟨j, hj, hs, hm, -, rfl⟩ | ⟨hjob, -, rfl⟩
            · exact ⟨_, _, _, rfl, rfl, Or.inr ⟨envelope, rfl, rfl, hnew, rfl,
                Or.inr ⟨stage, rfl, Or.inl ⟨⟨j, hj, hs, hm⟩, rfl⟩⟩⟩⟩
            · exact ⟨_, _, _, rfl, rfl, Or.inr ⟨envelope, rfl, rfl, hnew, rfl,
                Or.inr ⟨stage, rfl, Or.inr ⟨⟨hjob.key, hjob.id⟩, rfl⟩⟩⟩⟩

theorem deadLetterJob_ok {lease : JobLease} {reason : Text} {payload : JsonValue}
    (h : db.deadLetterJob fresh lease reason payload now = .ok db') :
    db' = { db.finishJob lease .deadLetter none (some reason) now with
      deadLetters := db.deadLetters ++ [⟨fresh, lease.jobId, lease.stage, reason, payload, now⟩] } := by
  unfold deadLetterJob at h
  split_ifs at h
  exact (Except.ok.inj h).symm

theorem saveResearchEvidence_ok {messageId : UUID} {evidence : List EvidenceItem}
    (h : db.saveResearchEvidence fresh messageId evidence = .ok db') :
    ∃ es, db' = { db with researchEvidence := es } ∧
      ∀ e ∈ es, e ∈ db.researchEvidence ∨ e.messageId = messageId := by
  induction evidence generalizing db fresh with
  | nil =>
    obtain rfl := Except.ok.inj h
    exact ⟨_, rfl, fun e he => Or.inl he⟩
  | cons item items ih =>
    unfold saveResearchEvidence at h
    split_ifs at h
    obtain ⟨es, hes, hrows⟩ := ih h
    refine ⟨es, hes, fun e he => ?_⟩
    rcases hrows e he with hold | hnew
    · rcases List.mem_append.mp hold with hold | hlast
      · exact Or.inl hold
      · exact Or.inr (by rw [List.mem_singleton.mp hlast])
    · exact Or.inr hnew

theorem saveCandidates_ok {messageId : UUID} {status : String} {items : List TradeCandidate}
    (h : db.saveCandidates messageId status items = .ok db') :
    ∃ cs, db' = { db with analysisCandidates := cs } ∧
      ∀ c ∈ cs, c ∈ db.analysisCandidates ∨ c.messageId = messageId ∧ c.item ∈ items := by
  induction items generalizing db with
  | nil =>
    obtain rfl := Except.ok.inj h
    exact ⟨_, rfl, fun c hc => Or.inl hc⟩
  | cons item items ih =>
    unfold saveCandidates at h
    split_ifs at h
    obtain ⟨cs, hcs, hrows⟩ := ih h
    refine ⟨cs, hcs, fun c hc => ?_⟩
    rcases hrows c hc with hold | ⟨hid, hitem⟩
    · rcases List.mem_append.mp hold with hold | hlast
      · exact Or.inl hold
      · rw [List.mem_singleton.mp hlast]
        exact Or.inr ⟨rfl, List.mem_cons_self⟩
    · exact Or.inr ⟨hid, List.mem_cons_of_mem _ hitem⟩

theorem saveAnalysisCandidates_ok {messageId : UUID} {candidates rejected : List TradeCandidate}
    (h : db.saveAnalysisCandidates messageId candidates rejected = .ok db') :
    ∃ cs, db' = { db with analysisCandidates := cs } ∧ ∀ c ∈ cs, c ∈ db.analysisCandidates ∨
      c.messageId = messageId ∧ c.item ∈ candidates ++ rejected := by
  unfold saveAnalysisCandidates at h
  cases hc : db.saveCandidates messageId "candidate" candidates with
  | error e => simp [hc, Except.bind] at h
  | ok db₁ =>
    simp only [hc, Except.bind] at h
    obtain ⟨cs₁, rfl, hrows₁⟩ := saveCandidates_ok hc
    obtain ⟨cs, rfl, hrows⟩ := saveCandidates_ok h
    refine ⟨cs, rfl, fun c hc => ?_⟩
    rcases hrows c hc with hold | ⟨hid, hitem⟩
    · rcases hrows₁ c hold with hold | ⟨hid, hitem⟩
      · exact Or.inl hold
      · exact Or.inr ⟨hid, List.mem_append_left _ hitem⟩
    · exact Or.inr ⟨hid, List.mem_append_right _ hitem⟩

theorem savePortfolioSnapshot_ok {snapshot : PortfolioSnapshot}
    (h : db.savePortfolioSnapshot snapshot = .ok (id, db')) :
    id = snapshot.snapshotId ∧
      db' = { db with portfolioSnapshots := db.portfolioSnapshots ++ [snapshot] } := by
  unfold savePortfolioSnapshot at h
  split_ifs at h
  obtain ⟨rfl, rfl⟩ := Prod.mk.inj (Except.ok.inj h)
  exact ⟨rfl, rfl⟩

theorem createApprovalRequest_ok {request : ApprovalRequest}
    (h : db.createApprovalRequest request = .ok db') :
    (∀ r ∈ db.approvalRequests, r.approvalId ≠ request.approvalId ∧
      r.callbackToken ≠ request.callbackToken) ∧
    db' = { db with approvalRequests := db.approvalRequests ++ [request] } := by
  unfold createApprovalRequest at h
  split_ifs at h with h1 h2
  simp only [List.any_eq_true, decide_eq_true_eq, not_exists, not_and] at h1 h2
  exact ⟨fun r hr => ⟨h1 r hr, h2 r hr⟩, (Except.ok.inj h).symm⟩

/-- The row a decision leaves. -/
def decidedRow (status : ApprovalStatus) (approverId : Text) (reason : Option Text) (now : Time)
    (r : ApprovalRequest) : ApprovalRequest :=
  { r with
    status := status, decidedAt := some now, approverId := some approverId, decisionReason := reason }

theorem decideApproval_ok {token approverId : Text} {status : ApprovalStatus} {reason : Option Text}
    (h : db.decideApproval token status approverId reason now = .ok (id, db')) :
    ∃ row ∈ db.approvalRequests, row.callbackToken = token ∧ id = row.approvalId ∧
      db' = { db with
        approvalRequests := updateWhere (fun r => r.callbackToken = token)
          (decidedRow status approverId reason now) db.approvalRequests } := by
  unfold decideApproval at h
  split at h
  · cases h
  · next row hrow =>
    obtain ⟨rfl, rfl⟩ := Prod.mk.inj (Except.ok.inj h)
    have htoken := List.find?_some hrow
    simp only [decide_eq_true_eq] at htoken
    exact ⟨row, List.mem_of_find?_eq_some hrow, htoken, rfl, rfl⟩

theorem saveBrokerOrder_ok {record : OrderRecord}
    (h : db.saveBrokerOrder fresh clock record = .ok (id, db')) :
    (∃ o ∈ db.brokerOrders, o.clientOrderId = record.clientOrderId ∧ id = o.orderId ∧ db' = db) ∨
    ((∀ o ∈ db.brokerOrders, o.clientOrderId ≠ record.clientOrderId) ∧ id = fresh ∧
      db' = { db with brokerOrders := db.brokerOrders ++ [⟨record, fresh, clock⟩] }) := by
  unfold saveBrokerOrder brokerOrderByClientOrderId at h
  split at h
  · next o ho =>
    obtain ⟨rfl, rfl⟩ := Prod.mk.inj (Except.ok.inj h)
    have hid := List.find?_some ho
    simp only [decide_eq_true_eq] at hid
    exact Or.inl ⟨o, List.mem_of_find?_eq_some ho, hid, rfl, rfl⟩
  · next hnone =>
    split_ifs at h
    obtain ⟨rfl, rfl⟩ := Prod.mk.inj (Except.ok.inj h)
    simp only [List.find?_eq_none, decide_eq_true_eq] at hnone
    exact Or.inr ⟨hnone, rfl, rfl⟩

theorem saveOutcomeObservation_ok {observation : OutcomeObservation}
    (h : db.saveOutcomeObservation id observation = .ok db') :
    (∀ o ∈ db.outcomeObservations, o.observationId ≠ id) ∧
      db' = { db with outcomeObservations := db.outcomeObservations ++ [⟨id, observation⟩] } := by
  unfold saveOutcomeObservation at h
  split_ifs at h with hany
  simp only [List.any_eq_true, decide_eq_true_eq, not_exists, not_and] at hany
  exact ⟨hany, (Except.ok.inj h).symm⟩

@[simp] theorem mem_listOutcomeObservations {traceId : UUID} {o : ObservationRow} :
    o ∈ db.listOutcomeObservations traceId ↔
      o ∈ db.outcomeObservations ∧ o.observation.traceId = traceId := by
  simp [listOutcomeObservations]

end PipelineDB

end Sentinel.Pipeline
