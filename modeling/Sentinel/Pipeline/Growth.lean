import Sentinel.Pipeline.Called

/-!
# What the tables keep

No call removes a row or changes a key column.

* `WellFormed`: the primary keys and `UNIQUE` columns repeat no value; every call keeps this.
* `Grows`: what one database says about keys and messages, a later one says too.
* `Told`: what the answer of a call says about the database, now and ever after.
-/

namespace Sentinel.Pipeline

open Logic Contracts PipelineDB

/-- The columns of a job that never change. -/
structure JobKey : Type where
  jobId : UUID
  traceId : UUID
  stage : StageName
  messageId : UUID
  deriving DecidableEq

def StageJob.key (j : StageJob) : JobKey := ⟨j.jobId, j.traceId, j.stage, j.messageId⟩

def JobLease.key (l : JobLease) : JobKey := ⟨l.jobId, l.traceId, l.stage, l.messageId⟩

def PipelineDB.jobKeys (db : PipelineDB) : List JobKey := db.stageJobs.map StageJob.key

theorem mem_jobKeys {db : PipelineDB} {k : JobKey} :
    k ∈ db.jobKeys ↔ ∃ j ∈ db.stageJobs, j.key = k := List.mem_map

/-! ## The key columns after a call -/

section Columns

variable {w w' : World} {op : Op} {r : Except Exn op.Ans}

theorem retraced_keys (output : Option PipelineEnvelope) (status : String)
    (ts : List PipelineTrace) : (retraced output status ts).map
      (fun t => (t.traceId, t.sourceAlertId)) = ts.map fun t => (t.traceId, t.sourceAlertId) := by
  cases output with
  | none => rfl
  | some envelope => exact map_updateWhere fun t => rfl

theorem Called.traceKeys (h : Called w op r w') :
    w'.db.traceKeys = w.db.traceKeys ∨ ∃ alertId stage status,
      op = .tx (.ensureTrace alertId stage status) ∧
      w'.db.traceKeys = w.db.traceKeys ++ [(w.nextId, alertId)] ∧
      ∀ p ∈ w.db.traceKeys, p.1 ≠ w.nextId ∧ p.2 ≠ alertId := by
  cases h with
  | ensureTrace alertId stage status id ts h =>
    rcases h with ⟨rfl, -⟩ | ⟨rfl, -, hnew⟩
    · exact Or.inl (map_updateWhere fun t => rfl)
    · exact Or.inr ⟨alertId, stage, status, rfl, by simp [traceKeys], hnew⟩
  | completed lease output next availableAt status now out ms js ts hts h =>
    rw [hts]
    exact Or.inl (retraced_keys output status _)
  | _ => exact Or.inl rfl

/-- The calls that may store an envelope, with the envelope. -/
def Op.Stores (op : Op) (envelope : PipelineEnvelope) : Prop :=
  op = .tx (.upsertMessage envelope) ∨ ∃ lease next availableAt status now,
    op = .tx (.completeJobSuccess lease (some envelope) next availableAt status now)

theorem Called.messages (h : Called w op r w') :
    w'.db.stageMessages = w.db.stageMessages ∨ ∃ envelope, op.Stores envelope ∧
      w.db.NewMessage envelope ∧ (∃ a, r = .ok a) ∧
      w'.db.stageMessages = w.db.stageMessages ++ [.ofEnvelope envelope] := by
  cases h with
  | messageNew envelope hnew => exact Or.inr ⟨envelope, Or.inl rfl, hnew, ⟨_, rfl⟩, rfl⟩
  | completed lease output next availableAt status now out ms js ts hts h =>
    rcases h with ⟨rfl, -⟩ | ⟨envelope, rfl, -, hnew, rfl, -⟩
    · exact Or.inl rfl
    · exact Or.inr ⟨envelope, Or.inr ⟨lease, next, availableAt, status, now, rfl⟩, hnew, ⟨_, rfl⟩,
        rfl⟩
  | _ => exact Or.inl rfl

/-- A message just stored is found under its id. -/
theorem findMessage_new {db : PipelineDB} {envelope : PipelineEnvelope}
    (hnew : db.NewMessage envelope) {db' : PipelineDB}
    (h : db'.stageMessages = db.stageMessages ++ [.ofEnvelope envelope]) :
    db'.findMessage envelope.messageId = some (.ofEnvelope envelope) := by
  have hnone : (db.stageMessages.find? fun m => m.messageId = envelope.messageId) = none := by
    simp only [List.find?_eq_none, decide_eq_true_eq]
    exact hnew.id
  rw [findMessage, h, find?_append_of_none hnone]
  simp [StageMessage.ofEnvelope]

/-- The entry of the call that queued a job: an enqueueing, or a completion that stored the message
of the job as well. -/
def QueuedBy (k : JobKey) (en : Entry Op Op.Ans Exn) (w' : World) : Prop :=
  (∃ priority a, en = ⟨.tx (.enqueueJob k.traceId k.stage k.messageId priority), .ok a⟩) ∨
  ∃ lease envelope availableAt status now a,
    en = ⟨.tx (.completeJobSuccess lease (some envelope) (some k.stage) availableAt status now),
      .ok a⟩ ∧ envelope.messageId = k.messageId ∧ envelope.traceId = k.traceId ∧
    w'.db.findMessage k.messageId = some (.ofEnvelope envelope)

theorem jobKeys_updateWhere {rows : List StageJob} {p : StageJob → Bool}
    {f : StageJob → StageJob} (hf : ∀ j, (f j).key = j.key) :
    (updateWhere p f rows).map StageJob.key = rows.map StageJob.key :=
  map_updateWhere hf

theorem Called.jobKeys (h : Called w op r w') :
    w'.db.jobKeys = w.db.jobKeys ∨ ∃ k, w'.db.jobKeys = w.db.jobKeys ++ [k] ∧
      w.db.NewJob k.jobId k.stage k.messageId ∧ QueuedBy k ⟨op, r⟩ w' := by
  cases h with
  | jobNew traceId stage messageId priority hnew =>
    refine Or.inr ⟨⟨w.nextId, traceId, stage, messageId⟩, ?_, hnew, Or.inl ⟨priority, _, rfl⟩⟩
    simp [PipelineDB.jobKeys, newJob, StageJob.key]
  | leased stage workerId leasedUntil now row hrow hnew =>
    exact Or.inl (jobKeys_updateWhere fun j => rfl)
  | retried lease error availableAt now => exact Or.inl (jobKeys_updateWhere fun j => rfl)
  | deadLettered lease reason payload now => exact Or.inl (jobKeys_updateWhere fun j => rfl)
  | completed lease output next availableAt status now out ms js ts hts h =>
    rcases h with ⟨rfl, rfl, -⟩ | ⟨envelope, rfl, -, hnew, rfl, ⟨-, rfl⟩ | ⟨stage, rfl, hjob⟩⟩
    · exact Or.inl (jobKeys_updateWhere fun j => rfl)
    · exact Or.inl (jobKeys_updateWhere fun j => rfl)
    · rcases hjob with ⟨-, rfl⟩ | ⟨hjob, rfl⟩
      · exact Or.inl (jobKeys_updateWhere fun j => rfl)
      · refine Or.inr ⟨⟨w.nextId, envelope.traceId, stage, envelope.messageId⟩, ?_, hjob,
          Or.inr ⟨lease, envelope, availableAt, status, now, _, rfl, rfl, rfl,
            findMessage_new hnew rfl⟩⟩
        refine (jobKeys_updateWhere (f := finishedRow .succeeded none none) fun j => rfl).trans ?_
        simp [PipelineDB.jobKeys, newJob, StageJob.key]
  | _ => exact Or.inl rfl

/-- A completion queues a job only for a message it has just stored. -/
theorem Called.new_of_job {lease : JobLease} {envelope : PipelineEnvelope} {next : Option StageName}
    {availableAt : Option Time} {status : String} {t : Time} {r : Except Exn (Option UUID)}
    (h : Called w (.tx (.completeJobSuccess lease (some envelope) next availableAt status t)) r w')
    (hjobs : w'.db.jobKeys ≠ w.db.jobKeys) : w.db.NewMessage envelope := by
  cases h with
  | asked op r hop => cases hop
  | raised op e hop => exact absurd rfl hjobs
  | completed lease output next availableAt status now out ms js ts hts h =>
    rcases h with ⟨-, rfl, -⟩ | ⟨envelope, heq, -, hnew, -⟩
    · exact absurd (jobKeys_updateWhere (f := finishedRow .succeeded none none) fun j => rfl) hjobs
    · cases heq
      exact hnew

theorem Called.orders (h : Called w op r w') :
    w'.db.brokerOrders = w.db.brokerOrders ∨ ∃ record, op = .tx (.saveBrokerOrder record) ∧
      (∀ o ∈ w.db.brokerOrders, o.clientOrderId ≠ record.clientOrderId) ∧
      w'.db.brokerOrders = w.db.brokerOrders ++ [⟨record, w.nextId, w.clock⟩] := by
  cases h with
  | orderNew record hnew => exact Or.inr ⟨record, rfl, hnew, rfl⟩
  | _ => exact Or.inl rfl

theorem Called.requests (h : Called w op r w') :
    w'.db.approvalRequests = w.db.approvalRequests ∨
    (∃ request, op = .tx (.createApprovalRequest request) ∧
      (∀ r ∈ w.db.approvalRequests, r.approvalId ≠ request.approvalId ∧
        r.callbackToken ≠ request.callbackToken) ∧
      w'.db.approvalRequests = w.db.approvalRequests ++ [request]) ∨
    ∃ token status approverId reason now,
      op = .tx (.decideApproval token status approverId reason now) ∧
      w'.db.approvalRequests = updateWhere (fun r => r.callbackToken = token)
        (decidedRow status approverId reason now) w.db.approvalRequests := by
  cases h with
  | requested request hnew => exact Or.inr (Or.inl ⟨request, rfl, hnew, rfl⟩)
  | decided token status approverId reason now row hrow htoken =>
    exact Or.inr (Or.inr ⟨token, status, approverId, reason, now, rfl, rfl⟩)
  | _ => exact Or.inl rfl

/-- The row that an update of an observation leaves. -/
def observedRow (observedAt : Time) (exitPrice returnPct : Decimal) (benchmark : Option Decimal)
    (label : Text) (o : ObservationRow) : ObservationRow :=
  { o with
    observation := { o.observation with
      observedAt := some observedAt, exitPrice := some exitPrice, returnPct := some returnPct
      benchmarkReturnPct := benchmark, label := some label } }

theorem Called.observationRows (h : Called w op r w') :
    w'.db.outcomeObservations = w.db.outcomeObservations ∨
    (∃ id observation, op = .tx (.saveOutcomeObservation id observation) ∧
      (∀ o ∈ w.db.outcomeObservations, o.observationId ≠ id) ∧
      w'.db.outcomeObservations = w.db.outcomeObservations ++ [⟨id, observation⟩]) ∨
    ∃ id observedAt exitPrice returnPct benchmark label,
      op = .tx (.updateOutcomeObservation id observedAt exitPrice returnPct benchmark label) ∧
      w'.db.outcomeObservations = updateWhere (fun o => o.observationId = id)
        (observedRow observedAt exitPrice returnPct benchmark label) w.db.outcomeObservations := by
  cases h with
  | observation id observation hnew => exact Or.inr (Or.inl ⟨id, observation, rfl, hnew, rfl⟩)
  | observed id observedAt exitPrice returnPct benchmark label =>
    exact Or.inr (Or.inr ⟨id, observedAt, exitPrice, returnPct, benchmark, label, rfl, rfl⟩)
  | _ => exact Or.inl rfl

/-- Calls take no time and do not move the breaker. -/
theorem Called.clock (h : Called w op r w') : w'.clock = w.clock ∧ w'.breaker = w.breaker := by
  cases h <;> exact ⟨rfl, rfl⟩

end Columns

/-! ## The declared keys -/

structure WellFormed (db : PipelineDB) : Prop where
  traceId : (db.traceKeys.map Prod.fst).Nodup
  sourceAlertId : (db.traceKeys.map Prod.snd).Nodup
  messageId : (db.stageMessages.map StageMessage.messageId).Nodup
  idempotencyKey : (db.stageMessages.map StageMessage.idempotencyKey).Nodup
  jobId : (db.jobKeys.map JobKey.jobId).Nodup
  stageMessage : (db.jobKeys.map fun k => (k.stage, k.messageId)).Nodup
  approvalId : (db.approvalRequests.map ApprovalRequest.approvalId).Nodup
  callbackToken : (db.approvalRequests.map ApprovalRequest.callbackToken).Nodup
  clientOrderId : (db.brokerOrders.map fun o => o.clientOrderId).Nodup
  observationId : (db.outcomeObservations.map ObservationRow.observationId).Nodup

theorem wellFormed_empty : WellFormed {} := by
  constructor <;> exact List.nodup_nil

theorem called_wellFormed {w w' : World} {op : Op} {r : Except Exn op.Ans} (h : Called w op r w')
    (hw : WellFormed w.db) : WellFormed w'.db where
  traceId := by
    rcases h.traceKeys with heq | ⟨alertId, _, _, -, heq, hnew⟩
    · rw [heq]; exact hw.traceId
    · rw [heq]; exact nodup_append_new hw.traceId fun p hp => (hnew p hp).1
  sourceAlertId := by
    rcases h.traceKeys with heq | ⟨alertId, _, _, -, heq, hnew⟩
    · rw [heq]; exact hw.sourceAlertId
    · rw [heq]; exact nodup_append_new hw.sourceAlertId fun p hp => (hnew p hp).2
  messageId := by
    rcases h.messages with heq | ⟨envelope, -, hnew, -, heq⟩
    · rw [heq]; exact hw.messageId
    · rw [heq]; exact nodup_append_new hw.messageId hnew.id
  idempotencyKey := by
    rcases h.messages with heq | ⟨envelope, -, hnew, -, heq⟩
    · rw [heq]; exact hw.idempotencyKey
    · rw [heq]; exact nodup_append_new hw.idempotencyKey hnew.key
  jobId := by
    rcases h.jobKeys with heq | ⟨k', heq, hnew, -⟩
    · rw [heq]; exact hw.jobId
    · rw [heq]
      refine nodup_append_new hw.jobId fun k hk => ?_
      obtain ⟨j, hj, rfl⟩ := mem_jobKeys.mp hk
      exact hnew.id j hj
  stageMessage := by
    rcases h.jobKeys with heq | ⟨k', heq, hnew, -⟩
    · rw [heq]; exact hw.stageMessage
    · rw [heq]
      refine nodup_append_new hw.stageMessage fun k hk => ?_
      obtain ⟨j, hj, rfl⟩ := mem_jobKeys.mp hk
      intro heq'
      obtain ⟨h1, h2⟩ := Prod.mk.inj heq'
      exact hnew.key j hj h1 h2
  approvalId := by
    rcases h.requests with heq | ⟨request, -, hnew, heq⟩ | ⟨token, status, _, _, _, -, heq⟩
    · rw [heq]; exact hw.approvalId
    · rw [heq]; exact nodup_append_new hw.approvalId fun r hr => (hnew r hr).1
    · rw [heq]; exact nodup_updateWhere (fun r => rfl) hw.approvalId
  callbackToken := by
    rcases h.requests with heq | ⟨request, -, hnew, heq⟩ | ⟨token, status, _, _, _, -, heq⟩
    · rw [heq]; exact hw.callbackToken
    · rw [heq]; exact nodup_append_new hw.callbackToken fun r hr => (hnew r hr).2
    · rw [heq]; exact nodup_updateWhere (fun r => rfl) hw.callbackToken
  clientOrderId := by
    rcases h.orders with heq | ⟨record, -, hnew, heq⟩
    · rw [heq]; exact hw.clientOrderId
    · rw [heq]; exact nodup_append_new hw.clientOrderId hnew
  observationId := by
    rcases h.observationRows with heq | ⟨id, observation, -, hnew, heq⟩ | ⟨_, _, _, _, _, _, -, heq⟩
    · rw [heq]; exact hw.observationId
    · rw [heq]; exact nodup_append_new hw.observationId hnew
    · rw [heq]; exact nodup_updateWhere (fun o => rfl) hw.observationId

/-! ## Growth -/

structure Grows (db db' : PipelineDB) : Prop where
  traces : db.traceKeys ⊆ db'.traceKeys
  messages : ∀ id m, db.findMessage id = some m → db'.findMessage id = some m
  allMessages : db.stageMessages ⊆ db'.stageMessages
  jobs : db.jobKeys ⊆ db'.jobKeys
  orders : db.brokerOrders ⊆ db'.brokerOrders

theorem Grows.refl (db : PipelineDB) : Grows db db :=
  ⟨List.Subset.refl _, fun _ _ h => h, List.Subset.refl _, List.Subset.refl _, List.Subset.refl _⟩

theorem Grows.trans {a b c : PipelineDB} (h : Grows a b) (h' : Grows b c) : Grows a c :=
  ⟨List.Subset.trans h.traces h'.traces, fun id m hm => h'.messages id m (h.messages id m hm),
    List.Subset.trans h.allMessages h'.allMessages, List.Subset.trans h.jobs h'.jobs,
    List.Subset.trans h.orders h'.orders⟩

theorem called_grows {w w' : World} {op : Op} {r : Except Exn op.Ans} (h : Called w op r w') :
    Grows w.db w'.db where
  traces := by
    rcases h.traceKeys with heq | ⟨_, _, _, -, heq, -⟩
    · rw [heq]; exact List.Subset.refl _
    · rw [heq]; exact List.subset_append_left _ _
  messages := by
    intro id m hm
    rcases h.messages with heq | ⟨_, -, -, -, heq⟩
    · rw [findMessage, heq]; exact hm
    · rw [findMessage, heq]; exact find?_append_of_some hm _
  allMessages := by
    rcases h.messages with heq | ⟨_, -, -, -, heq⟩
    · rw [heq]; exact List.Subset.refl _
    · rw [heq]; exact List.subset_append_left _ _
  jobs := by
    rcases h.jobKeys with heq | ⟨_, heq, -⟩
    · rw [heq]; exact List.Subset.refl _
    · rw [heq]; exact List.subset_append_left _ _
  orders := by
    rcases h.orders with heq | ⟨_, -, -, heq⟩
    · rw [heq]; exact List.Subset.refl _
    · rw [heq]; exact List.subset_append_left _ _

theorem mem_of_findMessage {db : PipelineDB} {id : UUID} {m : StageMessage}
    (h : db.findMessage id = some m) : m ∈ db.stageMessages ∧ m.messageId = id := by
  refine ⟨List.mem_of_find?_eq_some h, ?_⟩
  simpa using List.find?_some h

theorem findMessage_of_mem {db : PipelineDB} (hw : WellFormed db) {m : StageMessage}
    (h : m ∈ db.stageMessages) : db.findMessage m.messageId = some m :=
  find?_eq_of_mem hw.messageId h

theorem mem_traceKeys {db : PipelineDB} (hw : WellFormed db) {id : UUID} {alertId : Text} :
    (id, alertId) ∈ db.traceKeys ↔ db.sourceAlertIdForTrace id = some alertId := by
  have hnodup : (db.pipelineTraces.map PipelineTrace.traceId).Nodup := by
    simpa [traceKeys, Function.comp_def] using hw.traceId
  rw [sourceAlertIdForTrace, Option.map_eq_some_iff]
  constructor
  · intro h
    obtain ⟨t, ht, heq⟩ := List.mem_map.mp h
    obtain ⟨rfl, rfl⟩ := Prod.mk.inj heq
    exact ⟨t, find?_eq_of_mem hnodup ht, rfl⟩
  · rintro ⟨t, ht, rfl⟩
    have hid : t.traceId = id := by simpa using List.find?_some ht
    exact List.mem_map.mpr ⟨t, List.mem_of_find?_eq_some ht, by rw [hid]⟩

/-! ## What an answer says -/

/-- What the answer of a transaction says about the database. -/
def Tx.Told : (t : Tx) → t.Ans → PipelineDB → Prop
  | ensureTrace alertId _ _, id, db => (id, alertId) ∈ db.traceKeys
  | upsertMessage envelope, (id, true), db =>
    id = envelope.messageId ∧ db.findMessage id = some (.ofEnvelope envelope)
  | upsertMessage envelope, (id, false), db =>
    ∃ m ∈ db.stageMessages, m.idempotencyKey = envelope.idempotencyKey ∧ m.messageId = id
  | fetchMessage id, some m, db => db.findMessage id = some m
  | sourceAlertIdForTrace id, some alertId, db => (id, alertId) ∈ db.traceKeys
  | leaseNextJob stage _ _ _, some lease, db => lease.stage = stage ∧ lease.key ∈ db.jobKeys
  | enqueueJob _ stage messageId _, _, db =>
    ∃ k ∈ db.jobKeys, k.stage = stage ∧ k.messageId = messageId
  | saveBrokerOrder record, _, db => ∃ o ∈ db.brokerOrders, o.clientOrderId = record.clientOrderId
  | _, _, _ => True

def Told (en : Entry Op Op.Ans Exn) (db : PipelineDB) : Prop :=
  match en with
  | ⟨.tx t, .ok a⟩ => t.Told a db
  | _ => True

theorem told_mono {en : Entry Op Op.Ans Exn} {db db' : PipelineDB} (hg : Grows db db')
    (h : Told en db) : Told en db' := by
  obtain ⟨op, r⟩ := en
  cases op with
  | tx t =>
    cases r with
    | error e => trivial
    | ok a =>
      cases t with
      | ensureTrace alertId stage status => exact hg.traces h
      | upsertMessage envelope =>
        obtain ⟨id, inserted⟩ := a
        cases inserted with
        | true => exact ⟨h.1, hg.messages _ _ h.2⟩
        | false =>
          obtain ⟨m, hm, hkey⟩ := h
          exact ⟨m, hg.allMessages hm, hkey⟩
      | fetchMessage id =>
        cases a with
        | none => trivial
        | some m => exact hg.messages _ _ h
      | sourceAlertIdForTrace id =>
        cases a with
        | none => trivial
        | some alertId => exact hg.traces h
      | leaseNextJob stage workerId leasedUntil now =>
        cases a with
        | none => trivial
        | some lease => exact ⟨h.1, hg.jobs h.2⟩
      | enqueueJob traceId stage messageId priority =>
        obtain ⟨k, hk, hkey⟩ := h
        exact ⟨k, hg.jobs hk, hkey⟩
      | saveBrokerOrder record =>
        obtain ⟨o, ho, hid⟩ := h
        exact ⟨o, hg.orders ho, hid⟩
      | _ => trivial
  | _ => trivial

theorem called_told {w w' : World} {op : Op} {r : Except Exn op.Ans} (h : Called w op r w') :
    Told ⟨op, r⟩ w'.db := by
  cases h with
  | asked op r hop =>
    cases op with
    | tx t => cases hop
    | _ => trivial
  | raised op e hop => cases op <;> trivial
  | ensureTrace alertId stage status id ts h =>
    change (id, alertId) ∈ ts.map fun t => (t.traceId, t.sourceAlertId)
    rcases h with ⟨rfl, hmem⟩ | ⟨rfl, rfl, -⟩
    · rw [map_updateWhere (f := tracedRow stage status) fun t => rfl]
      exact hmem
    · simp
  | messageKnown envelope m hm hkey => exact ⟨m, hm, hkey, rfl⟩
  | messageNew envelope hnew => exact ⟨rfl, findMessage_new hnew rfl⟩
  | fetchMessage id =>
    cases hm : w.db.findMessage id with
    | none => trivial
    | some m => exact hm
  | sourceAlertIdForTrace id =>
    cases ha : w.db.sourceAlertIdForTrace id with
    | none => trivial
    | some alertId =>
      obtain ⟨t, ht, rfl⟩ := Option.map_eq_some_iff.mp ha
      have hid : t.traceId = id := by simpa using List.find?_some ht
      exact List.mem_map.mpr ⟨t, List.mem_of_find?_eq_some ht, by rw [hid]⟩
  | jobKnown traceId stage messageId priority j hj hkey =>
    exact ⟨j.key, mem_jobKeys.mpr ⟨j, hj, rfl⟩, hkey⟩
  | jobNew traceId stage messageId priority hnew =>
    refine ⟨_, mem_jobKeys.mpr ⟨_, List.mem_append_right _ (List.mem_singleton.mpr rfl), rfl⟩, ?_, ?_⟩
      <;> rfl
  | leased stage workerId leasedUntil now row hrow hnew =>
    obtain ⟨⟨hmem, hready⟩, -⟩ := mem_leasable.mp hrow
    simp only [StageJob.ready, Bool.and_eq_true, decide_eq_true_eq] at hready
    refine ⟨hready.1.1, mem_jobKeys.mpr ⟨_, mem_updateWhere_of_mem hmem, ?_⟩⟩
    split_ifs <;> rfl
  | orderKnown record o ho hid => exact ⟨o, ho, hid⟩
  | orderNew record hnew =>
    exact ⟨⟨record, w.nextId, w.clock⟩, List.mem_append_right _ (List.mem_singleton.mpr rfl), rfl⟩
  | _ => trivial

end Sentinel.Pipeline
