import Sentinel.Pipeline.Origins

/-!
# The messages of each stage

What the message of a job is, stage by stage: the output of the stage before, made from the message
that stage held.
-/

namespace Sentinel.Pipeline

open Logic Contracts PipelineDB

variable {host : Host} {C : State → PipelineEvent → Prop} {s : State}

/-- The message of a job of the stage. -/
inductive Queued (cfg : PipelineConfig) (s : State) (envelope : PipelineEnvelope) :
    StageName → Prop
  | alert (l : Log) (alertId : Text) (hl : Logged s l) (h : Ingests l alertId envelope) :
      Queued cfg s envelope .research
  | research (l : Log) (lease : JobLease) (parent : PipelineEnvelope) (report : ResearchReport)
      (hl : Logged s l) (h : Holds l .research lease parent)
      (he : IsChild parent .research (buildResearchKey parent.messageId cfg.researcher.promptVersion)
        (ResearchReport.contract.dump report) envelope) : Queued cfg s envelope .analysis
  | analysis (l : Log) (lease : JobLease) (parent : PipelineEnvelope) (capturedAt : Time)
      (output : AnalysisReport) (hl : Logged s l) (h : Holds l .analysis lease parent)
      (he : IsChild parent .analysis
        (buildAnalysisKey parent.messageId cfg.analyst.rulesetVersion capturedAt)
        (AnalysisReport.contract.dump output) envelope) : Queued cfg s envelope .execution
  | awaiting (l : Log) (lease : JobLease) (parent : PipelineEnvelope) (candidate : TradeCandidate)
      (intent : TradeIntent) (checks : List RiskCheckResult) (approvalId : UUID) (hl : Logged s l)
      (h : Evaluated cfg l lease parent candidate intent)
      (he : IsChild parent .execution (executionKey cfg parent) (ExecutionDecision.contract.dump
        (ExecutorWorker.awaitingDecision intent checks approvalId)) envelope) :
      Queued cfg s envelope .approval
  | submitted (l : Log) (lease : JobLease) (parent : PipelineEnvelope) (intent : TradeIntent)
      (checks : List RiskCheckResult) (stage : StageName) (brokerOrderId : Text) (hl : Logged s l)
      (h : Submits cfg l lease parent intent) (hstage : stage = .execution ∨ stage = .approval)
      (he : IsChild parent stage (executionKey cfg parent) (ExecutionDecision.contract.dump
        (submittedDecision intent checks brokerOrderId)) envelope) : Queued cfg s envelope .outcome
  | followUp (l : Log) (lease : JobLease) (parent : PipelineEnvelope) (key : Text)
      (observedCount pendingCount : ℕ) (hl : Logged s l) (h : Holds l .outcome lease parent)
      (he : IsChild parent .outcome key (OutcomeWorker.followUpPayload observedCount pendingCount)
        envelope) : Queued cfg s envelope .outcome

theorem Source.queued {cfg : PipelineConfig} {envelope : PipelineEnvelope} {stage : StageName}
    (h : Source cfg s envelope (some stage)) : Queued cfg s envelope stage := by
  generalize hstage : some stage = next at h
  cases h with
  | ingested l alertId hl h =>
    cases hstage
    exact .alert l alertId hl h
  | completed l lease next availableAt status t out hl h =>
    have hlog : Logged s l := hl.prefix_of (List.prefix_append _ _)
    cases h with
    | researched parent envelope ingested report next h hload hreport he hnext =>
      split_ifs at hnext
      · cases hstage.trans hnext
        exact .research l lease parent report hlog h he
      · cases hstage.trans hnext
    | analysed parent envelope report snapshot output next h hload hsnapshot he hnext =>
      split_ifs at hnext
      · cases hstage.trans hnext
        exact .analysis l lease parent snapshot.capturedAt output hlog h he
      · cases hstage.trans hnext
    | awaiting l' parent envelope candidate intent checks approvalId hmode hl' h he =>
      cases hstage
      exact .awaiting l' lease parent candidate intent checks approvalId (hlog.prefix_of hl') h he
    | submitted l' parent envelope intent checks stage brokerOrderId hl' h hs he =>
      cases hstage
      exact .submitted l' lease parent intent checks stage brokerOrderId (hlog.prefix_of hl') h hs he
    | observed parent envelope rows rows' t next h hdue hupdated hrows' he hnext =>
      split_ifs at hnext
      · cases hstage.trans hnext
      · cases hstage.trans hnext
        exact .followUp l lease parent _ _ _ hlog h.holds he
    | _ => cases hstage

/-- The message of a job is in the table, and it is the output of the stage before. -/
theorem job_message (h : Reachable host C s) {k : JobKey} (hk : k ∈ s.world.db.jobKeys) :
    ∃ envelope, s.world.db.findMessage k.messageId = some (.ofEnvelope envelope) ∧
      envelope.messageId = k.messageId ∧ envelope.traceId = k.traceId ∧
      Queued host.cfg s envelope k.stage := by
  obtain ⟨envelope, hm, hid, htr, hsource⟩ := job_origin h hk
  exact ⟨envelope, hm, hid, htr, hsource.queued⟩

/-- The trace of an ingested envelope is that of its alert. -/
theorem Ingests.alert {l : Log} {alertId : Text} {envelope : PipelineEnvelope}
    (hi : Ingests l alertId envelope) (hl : Logged s l) (h : Reachable host C s) :
    s.world.db.sourceAlertIdForTrace envelope.traceId = some alertId := by
  obtain ⟨stage, status, htrace⟩ := hi.trace
  exact (mem_traceKeys (wellFormed h)).mp (hl.told h htrace)

/-- A held message and its job have the same trace. -/
theorem Held.traceId {stage : StageName} {lease : JobLease} {parent : PipelineEnvelope}
    (hheld : Held s.world.db stage lease parent) (h : Reachable host C s) :
    parent.traceId = lease.traceId := by
  obtain ⟨envelope, hm, -, htr, -⟩ := job_message h hheld.job
  have heq := Option.some.inj (hheld.message.symm.trans hm)
  exact (congrArg StageMessage.traceId heq).trans htr

/-! ## One job for each trace -/

/-- Two messages with one key are one. -/
theorem messageId_eq_of_key (h : Reachable host C s) {id id' : UUID} {m m' : StageMessage}
    (hm : s.world.db.findMessage id = some m) (hm' : s.world.db.findMessage id' = some m')
    (hkey : m.idempotencyKey = m'.idempotencyKey) : id = id' := by
  obtain ⟨hmem, rfl⟩ := mem_of_findMessage hm
  obtain ⟨hmem', rfl⟩ := mem_of_findMessage hm'
  rw [eq_of_nodup (wellFormed h).idempotencyKey hmem hmem' hkey]

theorem research_unique (h : Reachable host C s) {k k' : JobKey} (hk : k ∈ s.world.db.jobKeys)
    (hk' : k' ∈ s.world.db.jobKeys) (hstage : k.stage = .research) (hstage' : k'.stage = .research)
    (htrace : k.traceId = k'.traceId) : k.messageId = k'.messageId := by
  obtain ⟨envelope, hm, -, htr, hqueued⟩ := job_message h hk
  obtain ⟨envelope', hm', -, htr', hqueued'⟩ := job_message h hk'
  rw [hstage] at hqueued
  rw [hstage'] at hqueued'
  cases hqueued with
  | alert l alertId hl hi =>
    cases hqueued' with
    | alert l' alertId' hl' hi' =>
      have halert := hi.alert hl h
      rw [htr, htrace, ← htr', hi'.alert hl' h] at halert
      obtain rfl := Option.some.inj halert
      exact messageId_eq_of_key h hm hm' (hi.key.trans hi'.key.symm)

/-- The RESEARCH job that an ANALYSIS job comes from. -/
theorem analysis_parent (h : Reachable host C s) {k : JobKey} (hk : k ∈ s.world.db.jobKeys)
    (hstage : k.stage = .analysis) : ∃ k' ∈ s.world.db.jobKeys, k'.stage = .research ∧
      k'.traceId = k.traceId ∧ ∃ m, s.world.db.findMessage k.messageId = some m ∧
        m.idempotencyKey = buildResearchKey k'.messageId host.cfg.researcher.promptVersion := by
  obtain ⟨envelope, hm, -, htr, hqueued⟩ := job_message h hk
  rw [hstage] at hqueued
  cases hqueued with
  | research l lease parent report hl hh he =>
    have hheld := hh.held hl h
    refine ⟨lease.key, hheld.job, hheld.stage, ?_, _, hm, ?_⟩
    · exact ((hheld.traceId h).symm.trans he.traceId.symm).trans htr
    · exact he.key.trans (by rw [hheld.parentId]; rfl)

theorem analysis_unique (h : Reachable host C s) {k k' : JobKey} (hk : k ∈ s.world.db.jobKeys)
    (hk' : k' ∈ s.world.db.jobKeys) (hstage : k.stage = .analysis) (hstage' : k'.stage = .analysis)
    (htrace : k.traceId = k'.traceId) : k.messageId = k'.messageId := by
  obtain ⟨r, hr, hrstage, hrtrace, m, hm, hkey⟩ := analysis_parent h hk hstage
  obtain ⟨r', hr', hrstage', hrtrace', m', hm', hkey'⟩ := analysis_parent h hk' hstage'
  have hunique := research_unique h hr hr' hrstage hrstage'
    ((hrtrace.trans htrace).trans hrtrace'.symm)
  exact messageId_eq_of_key h hm hm' (by rw [hkey, hkey', hunique])

/-- The ANALYSIS job that an EXECUTION job comes from. -/
theorem execution_parent (h : Reachable host C s) {k : JobKey} (hk : k ∈ s.world.db.jobKeys)
    (hstage : k.stage = .execution) : ∃ k' ∈ s.world.db.jobKeys, k'.stage = .analysis ∧
      k'.traceId = k.traceId ∧ ∃ m, s.world.db.findMessage k.messageId = some m ∧
        m.parentMessageId = some k'.messageId := by
  obtain ⟨envelope, hm, -, htr, hqueued⟩ := job_message h hk
  rw [hstage] at hqueued
  cases hqueued with
  | analysis l lease parent capturedAt output hl hh he =>
    have hheld := hh.held hl h
    refine ⟨lease.key, hheld.job, hheld.stage, ?_, _, hm, ?_⟩
    · exact ((hheld.traceId h).symm.trans he.traceId.symm).trans htr
    · exact he.parentId.trans (by rw [hheld.parentId]; rfl)

/-! ## The evaluation behind a submission -/

/-- Whatever is submitted was evaluated: right before, or by the executor whose decision was
approved. -/
theorem Submits.evaluated {l : Log} {lease : JobLease} {parent : PipelineEnvelope}
    {intent : TradeIntent} (hs : Submits host.cfg l lease parent intent) (hl : Logged s l)
    (h : Reachable host C s) : ∃ l' lease' parent' candidate, Logged s l' ∧
      Evaluated host.cfg l' lease' parent' candidate intent ∧ parent'.traceId = parent.traceId ∧
      (lease' = lease ∧ parent' = parent ∨
        parent.stage = .execution ∧ parent.parentMessageId = some parent'.messageId ∧
          parent.idempotencyKey = executionKey host.cfg parent') := by
  cases hs with
  | direct candidate hmode he => exact ⟨l, lease, parent, candidate, hl, he, rfl, Or.inl ⟨rfl, rfl⟩⟩
  | approved l₀ request payload hlog hrequest hstatus hh hget hload =>
    have hheld := hh.held (hl.prefix_of ⟨_, hlog.symm⟩) h
    obtain ⟨envelope, hm, -, -, hqueued⟩ := job_message h hheld.job
    have heq := Option.some.inj (hheld.message.symm.trans hm)
    have hstage : lease.key.stage = .approval := hheld.stage
    rw [hstage] at hqueued
    cases hqueued with
    | awaiting l' lease' parent' candidate intent' checks approvalId hl' he hc =>
      have hpayload : parent.payload = _ := (congrArg StageMessage.payload heq).trans hc.payload
      have htrace : parent.traceId = _ := (congrArg StageMessage.traceId heq).trans hc.traceId
      have hstage' : parent.stage = _ := (congrArg StageMessage.stage heq).trans hc.stage
      have hkey : parent.idempotencyKey = _ :=
        (congrArg StageMessage.idempotencyKey heq).trans hc.key
      have hparent : parent.parentMessageId = _ :=
        (congrArg StageMessage.parentMessageId heq).trans hc.parentId
      obtain rfl : intent' = intent := by
        rw [hpayload] at hget
        obtain rfl : TradeIntent.contract.dump intent' = payload := Option.some.inj hget
        simpa using hload
      exact ⟨l', lease', parent', candidate, hl', he, htrace.symm, Or.inr ⟨hstage', hparent, hkey⟩⟩

end Sentinel.Pipeline
