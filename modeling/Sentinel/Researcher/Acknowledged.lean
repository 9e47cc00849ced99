import Sentinel.Pipeline.Lineage

/-!
# Acknowledged alerts

A delivery answered with 202 has stored its alert; whether the alert is queued depends on the
delivery that stored it first, since a later one finds the message and enqueues nothing.  If every
later one finds the RESEARCH job as well, then an acknowledged alert has exactly one trace, one
ingest message and one RESEARCH job.
-/

namespace Sentinel.Pipeline

open Logic Contracts PipelineDB

variable {host : Host} {C : State → PipelineEvent → Prop} {s : State}

/-! ## The rows of an alert -/

def tracesOf (db : PipelineDB) (alertId : Text) : List PipelineTrace :=
  db.pipelineTraces.filter fun t => t.sourceAlertId = alertId

def ingestMessagesOf (db : PipelineDB) (alertId : Text) : List StageMessage :=
  db.stageMessages.filter fun m =>
    m.stage = .ingest ∧ db.sourceAlertIdForTrace m.traceId = some alertId

def researchJobsOf (db : PipelineDB) (alertId : Text) : List StageJob :=
  db.stageJobs.filter fun j =>
    j.stage = .research ∧ db.sourceAlertIdForTrace j.traceId = some alertId

structure QueuedOnce (db : PipelineDB) (alertId : Text) : Prop where
  trace : (tracesOf db alertId).length = 1
  message : (ingestMessagesOf db alertId).length = 1
  job : (researchJobsOf db alertId).length = 1

instance (db : PipelineDB) (alertId : Text) : Decidable (QueuedOnce db alertId) :=
  decidable_of_iff ((tracesOf db alertId).length = 1 ∧ (ingestMessagesOf db alertId).length = 1 ∧
      (researchJobsOf db alertId).length = 1)
    ⟨fun h => ⟨h.1, h.2.1, h.2.2⟩, fun h => ⟨h.trace, h.message, h.job⟩⟩

/-- Messages with an ingest key come from ingress, and so do those of the ingest stage. -/
theorem Source.ingests {cfg : PipelineConfig} {envelope : PipelineEnvelope} {next : Option StageName}
    (h : Source cfg s envelope next)
    (hor : envelope.stage = .ingest ∨ ∃ alertId, envelope.idempotencyKey = buildIngestKey alertId) :
    ∃ l alertId, Logged s l ∧ Ingests l alertId envelope := by
  cases h with
  | ingested l alertId hl h => exact ⟨l, alertId, hl, h⟩
  | completed l lease next availableAt status t out hl h =>
    exfalso
    have hchild : ∃ parent stage key payload, IsChild parent stage key payload envelope ∧
        stage ≠ .ingest ∧ ∀ alertId, key ≠ buildIngestKey alertId := by
      cases h with
      | researched parent envelope ingested report next h hload hreport he hnext =>
        exact ⟨_, _, _, _, he, by decide, by simp [buildResearchKey, buildIngestKey]⟩
      | analysed parent envelope report snapshot output next h hload hsnapshot he hnext =>
        exact ⟨_, _, _, _, he, by decide, by simp [buildAnalysisKey, buildIngestKey]⟩
      | rejected parent envelope decision h hstatus he =>
        exact ⟨_, _, _, _, he, by decide, by simp [executionKey, buildExecutionKey, buildIngestKey]⟩
      | awaiting l parent envelope candidate intent checks approvalId hmode hl h he =>
        exact ⟨_, _, _, _, he, by decide, by simp [executionKey, buildExecutionKey, buildIngestKey]⟩
      | submitted l parent envelope intent checks stage brokerOrderId hl h hstage he =>
        refine ⟨_, _, _, _, he, ?_, by simp [executionKey, buildExecutionKey, buildIngestKey]⟩
        rcases hstage with rfl | rfl <;> decide
      | ended parent envelope status decision h he =>
        exact ⟨_, _, _, _, he, by decide, by simp [buildIngestKey]⟩
      | observed parent envelope rows rows' t next h hdue hupdated hrows' he hnext =>
        exact ⟨_, _, _, _, he, by decide, by simp [buildOutcomeKey, buildIngestKey]⟩
    obtain ⟨parent, stage, key, payload, he, hstage, hkey⟩ := hchild
    rcases hor with hor | ⟨alertId, hor⟩
    · exact hstage (he.stage.symm.trans hor)
    · exact hkey alertId (he.key.symm.trans hor)

/-- An ingest message belongs to the alert its key names. -/
theorem ingest_message_iff (h : Reachable host C s) {m : StageMessage}
    (hm : m ∈ s.world.db.stageMessages) (alertId : Text) :
    (m.stage = .ingest ∧ s.world.db.sourceAlertIdForTrace m.traceId = some alertId) ↔
      m.idempotencyKey = buildIngestKey alertId := by
  obtain ⟨envelope, next, rfl, hsource⟩ := message_origin h hm
  constructor
  · rintro ⟨hstage, halert⟩
    obtain ⟨l, alertId', hl, hi⟩ := hsource.ingests (Or.inl hstage)
    obtain rfl := Option.some.inj ((hi.alert hl h).symm.trans halert)
    exact hi.key
  · intro hkey
    obtain ⟨l, alertId', hl, hi⟩ := hsource.ingests (Or.inr ⟨alertId, hkey⟩)
    obtain rfl : alertId' = alertId := (List.cons.inj (hi.key.symm.trans hkey)).2
    exact ⟨hi.stage, hi.alert hl h⟩

/-- A RESEARCH job of an alert is that of its ingest message. -/
theorem research_job_iff (h : Reachable host C s) {m : StageMessage}
    (hm : m ∈ s.world.db.stageMessages) {alertId : Text}
    (hkey : m.idempotencyKey = buildIngestKey alertId) {j : StageJob}
    (hj : j ∈ s.world.db.stageJobs) :
    (j.stage = .research ∧ s.world.db.sourceAlertIdForTrace j.traceId = some alertId) ↔
      (j.stage, j.messageId) = (.research, m.messageId) := by
  have hw := wellFormed h
  obtain ⟨envelope, hfound, hid, htr, hqueued⟩ := job_message h (mem_jobKeys.mpr ⟨j, hj, rfl⟩)
  have hid : envelope.messageId = j.messageId := hid
  have htr : envelope.traceId = j.traceId := htr
  have hqueued : Queued host.cfg s envelope j.stage := hqueued
  have hmem := (mem_of_findMessage hfound).1
  rw [Prod.mk.injEq]
  refine and_congr_right fun hstage => ?_
  rw [hstage] at hqueued
  cases hqueued with
  | alert l alertId' hl hi =>
    rw [← htr, hi.alert hl h, ← hid, Option.some.injEq]
    constructor
    · rintro rfl
      have heq : StageMessage.ofEnvelope envelope = m :=
        eq_of_nodup hw.idempotencyKey hmem hm (hi.key.trans hkey.symm)
      exact congrArg StageMessage.messageId heq
    · intro hmid
      have heq : StageMessage.ofEnvelope envelope = m := eq_of_nodup hw.messageId hmem hm hmid
      have hkeys : buildIngestKey alertId' = buildIngestKey alertId := by
        rw [← hi.key, ← hkey, ← heq]
        rfl
      exact (List.cons.inj hkeys).2

/-- The message of an alert and its RESEARCH job are there, and there is one of each. -/
theorem queuedOnce_of_job (h : Reachable host C s) {m : StageMessage}
    (hm : m ∈ s.world.db.stageMessages) {alertId : Text}
    (hkey : m.idempotencyKey = buildIngestKey alertId) {k : JobKey} (hk : k ∈ s.world.db.jobKeys)
    (hstage : k.stage = .research) (hid : k.messageId = m.messageId) :
    QueuedOnce s.world.db alertId := by
  have hw := wellFormed h
  obtain ⟨-, halert⟩ := (ingest_message_iff h hm alertId).mpr hkey
  have htrace := (mem_traceKeys hw).mpr halert
  refine ⟨?_, ?_, ?_⟩
  · obtain ⟨t, ht, heq⟩ := List.mem_map.mp htrace
    have hta : t.sourceAlertId = alertId := (Prod.mk.inj heq).2
    have hnodup : (s.world.db.pipelineTraces.map PipelineTrace.sourceAlertId).Nodup := by
      simpa [traceKeys, Function.comp_def] using hw.sourceAlertId
    rw [tracesOf, filter_eq_singleton hnodup ht (by simp [hta])]
    rfl
  · rw [ingestMessagesOf, filter_eq_singleton hw.idempotencyKey hm]
    · rfl
    · intro m' hm'
      rw [decide_eq_true_eq, ingest_message_iff h hm', hkey]
  · obtain ⟨j, hj, rfl⟩ := mem_jobKeys.mp hk
    have hnodup : (s.world.db.stageJobs.map fun j => (j.stage, j.messageId)).Nodup := by
      simpa [PipelineDB.jobKeys, StageJob.key, Function.comp_def] using hw.stageMessage
    have hjm : (j.stage, j.messageId) = (.research, m.messageId) := Prod.ext hstage hid
    rw [researchJobsOf, filter_eq_singleton hnodup hj]
    · rfl
    · intro j' hj'
      rw [decide_eq_true_eq, research_job_iff h hm hkey hj', hjm]

/-! ## Deliveries -/

/-- The thread is a delivery of the alert that was answered with 202. -/
def acknowledges (alertId : Text) (th : Thread Op Op.Ans Exn Out Task) : Bool :=
  match th.task, th.result with
  | .ingress body _ _, some (.ok (.response response)) => response.statusCode = 202 &&
    (body.json.bind ShiftAlertMirror.contract.load).any fun a => a.alertId = alertId
  | _, _ => false

def Delivered (s : State) (alertId : Text) : Prop :=
  ∃ th ∈ s.threads, acknowledges alertId th = true

/-- The envelope that the call stores unless its key is there. -/
def Op.upserts : Op → Option PipelineEnvelope
  | .tx (.upsertMessage envelope) => some envelope
  | _ => none

/-- A delivery that finds its message stored finds the RESEARCH job stored too. -/
def RedeliveryQueued (s : State) : PipelineEvent → Prop
  | .act i inp => ∀ op ∈ nextCall s i, ∀ envelope ∈ op.upserts, inp.commits = true →
    ∀ m ∈ s.world.db.stageMessages, m.idempotencyKey = envelope.idempotencyKey →
      ∃ k ∈ s.world.db.jobKeys, k.stage = .research ∧ k.messageId = m.messageId
  | _ => True

instance (s : State) : ∀ e : PipelineEvent, Decidable (RedeliveryQueued s e)
  | .act _ _ => inferInstanceAs (Decidable (∀ _ ∈ _, ∀ _ ∈ _, _ → ∀ _ ∈ _, _ → ∃ _ ∈ _, _))
  | .start _ | .crash _ | .env _ => inferInstanceAs (Decidable True)

/-- A delivery that found its message stored found the job, which is still there. -/
theorem redelivery_queued (h : Reachable host RedeliveryQueued s) {j : ℕ}
    {th : Thread Op Op.Ans Exn Out Task} (hth : s.threads[j]? = some th)
    {envelope : PipelineEnvelope} {id : UUID}
    (hen : Answered th.log (.tx (.upsertMessage envelope)) (id, false)) :
    ∃ k ∈ s.world.db.jobKeys, k.stage = .research ∧ k.messageId = id := by
  obtain ⟨l, l', hl⟩ := List.append_of_mem hen
  refine noted_reach (M := machine host) (X := fun _ _ en s => ∀ envelope id,
      en = ⟨.tx (.upsertMessage envelope), .ok (id, false)⟩ →
        ∃ k ∈ s.world.db.jobKeys, k.stage = .research ∧ k.messageId = id)
    ?_ ?_ h j th hth l _ l' hl envelope id rfl
  · intro s i inp t log op k r w' hs hC hth hc envelope id heq
    cases heq
    have hC : RedeliveryQueued s (.act i inp) := hC
    have hcalled := called hc
    obtain ⟨m, hm, hkey, rfl⟩ : ∃ m ∈ s.world.db.stageMessages,
        m.idempotencyKey = envelope.idempotencyKey ∧ m.messageId = id := by
      cases hcalled with
      | asked op r hop => cases hop
      | messageKnown envelope m hm hkey => exact ⟨m, hm, hkey, rfl⟩
    obtain ⟨k', hk', hkey'⟩ := hC _ (nextCall_eq hth) envelope rfl (commits_of_ok hc) m hm hkey
    exact ⟨k', (called_grows hcalled).jobs hk', hkey'⟩
  · intro s e s' t log en _ _ hm hX envelope id heq
    obtain ⟨k', hk', hkey'⟩ := hX envelope id heq
    exact ⟨k', (moved_grows hm).jobs hk', hkey'⟩

/-- In a run whose redeliveries find their job, an acknowledged alert is queued exactly once. -/
theorem acknowledged_queuedOnce (h : Reachable host RedeliveryQueued s) {alertId : Text}
    (hdelivered : Delivered s alertId) : QueuedOnce s.world.db alertId := by
  obtain ⟨th, hmem, hack⟩ := hdelivered
  obtain ⟨j, hth⟩ := List.getElem?_of_mem hmem
  unfold acknowledges at hack
  split at hack
  case h_2 => cases hack
  next body headers replaySource response htask hresult =>
  simp only [Bool.and_eq_true, decide_eq_true_eq, Option.any_eq_true] at hack
  obtain ⟨hstatus, shiftAlert, hload, rfl⟩ := hack
  have hfinishes := (issued h hth).ended hresult
  rw [htask] at hfinishes
  obtain ⟨shiftAlert', hload', envelope, messageId, hingests, hcase⟩ :=
    hfinishes response rfl hstatus
  obtain rfl := Option.some.inj (hload'.symm.trans hload)
  rcases hcase with hknown | ⟨hnew, priority, jobId, hqueued⟩
  · obtain ⟨m, hm, hkey, rfl⟩ : ∃ m ∈ s.world.db.stageMessages,
        m.idempotencyKey = envelope.idempotencyKey ∧ m.messageId = messageId := told h hth hknown
    obtain ⟨k, hk, hstage, hid⟩ := redelivery_queued h hth hknown
    exact queuedOnce_of_job h hm (hkey.trans hingests.key) hk hstage hid
  · obtain ⟨rfl, hfound⟩ : messageId = envelope.messageId ∧
        s.world.db.findMessage messageId = some (.ofEnvelope envelope) := told h hth hnew
    obtain ⟨k, hk, hstage, hid⟩ : ∃ k ∈ s.world.db.jobKeys, k.stage = .research ∧
        k.messageId = envelope.messageId := told h hth hqueued
    exact queuedOnce_of_job h (mem_of_findMessage hfound).1 hingests.key hk hstage hid

instance (s : State) (alertId : Text) : Decidable (Delivered s alertId) :=
  inferInstanceAs (Decidable (∃ _ ∈ _, _))

namespace Sample

/-- A delivery and a repetition of it. -/
def redeliveredEvents : List PipelineEvent :=
  List.flatten [ingested 0, [.start delivery], calls 1 6]

/-- The first delivery fails between its last two transactions. -/
def interruptedEvents : List PipelineEvent :=
  List.flatten [[.start delivery], calls 0 6, [.act 0 (.fault (lit "database is locked"))],
    [.start delivery], calls 1 6]

end Sample

theorem acknowledged_queuedOnce_redelivered :
    QueuedOnce (run (Sample.host "auto") Sample.redeliveredEvents).world.db (lit "a1") :=
  acknowledged_queuedOnce (s := run (Sample.host "auto") Sample.redeliveredEvents)
    (reach_of_allowed (by decide +kernel)) (by decide +kernel)

/-- The repetition is acknowledged, and the alert is never queued. -/
theorem interrupted_not_queued : ∃ s, Reachable (Sample.host "auto") Any s ∧
    Delivered s (lit "a1") ∧ ¬ QueuedOnce s.world.db (lit "a1") :=
  ⟨_, reachable_run _ Sample.interruptedEvents, by decide +kernel⟩

end Sentinel.Pipeline
