import Sentinel.Pipeline.Rules

/-!
# The paths of the executor and the approval worker
-/

namespace Sentinel.Pipeline

open Logic Contracts

variable {cfg : PipelineConfig} {task : Task} {log : Log} {lease : JobLease}
  {parent : PipelineEnvelope} {intent : TradeIntent}

/-! ## Observations -/

theorem of_mem_scheduleDefaultOutcomes {traceId : UUID} {symbol : Text} {entryPrice : Decimal}
    {t : Time} {o : OutcomeObservation}
    (h : o ∈ scheduleDefaultOutcomes traceId symbol entryPrice t) :
    o.traceId = traceId ∧ o.observedAt = none := by
  simp only [scheduleDefaultOutcomes, List.mem_cons, List.not_mem_nil, or_false] at h
  rcases h with rfl | rfl | rfl <;> exact ⟨rfl, rfl⟩

/-- There is one for each horizon. -/
theorem exists_scheduleDefaultOutcomes (traceId : UUID) (symbol : Text) (entryPrice : Decimal)
    (t : Time) (horizon : OutcomeHorizon) :
    ∃ o ∈ scheduleDefaultOutcomes traceId symbol entryPrice t, o.horizon = horizon := by
  cases horizon <;> simp [scheduleDefaultOutcomes]

/-- The loop saves each observation, and does nothing else but draw ids. -/
theorem always_saveOutcomeObservations {Φ : Log → Op → Prop} (observations : List OutcomeObservation)
    (hid : ∀ l, Φ l (.uuid4 .observation)) (hop : ∀ l id, log <+: l → ∀ o ∈ observations,
      Φ l (.tx (.saveOutcomeObservation id o))) :
    Always Φ (Returns fun l _ =>
        (∀ o ∈ observations, ∃ id, Answered l (.tx (.saveOutcomeObservation id o)) ()) ∧
        ∀ en ∈ l, en ∈ log ∨ en.op = .uuid4 .observation ∨
          ∃ id, ∃ o ∈ observations, en.op = .tx (.saveOutcomeObservation id o))
      (saveOutcomeObservations observations) log := by
  induction observations generalizing log with
  | nil => exact ⟨by simp, fun en hen => Or.inl hen⟩
  | cons o observations ih =>
    simp only [saveOutcomeObservations, saveOutcomeObservation, Prog.bind_def, Prog.bind_assoc]
    refine always_op (hid _) fun id => always_op (hop _ id (List.prefix_append _ _) o (by simp))
      fun _ => ?_
    refine (ih fun l id hl o ho => hop l id ?_ o (List.mem_cons_of_mem _ ho)).mono fun l r hl h => ?_
    · exact List.IsPrefix.trans (by simp) hl
    · cases r with
      | error e => exact h
      | ok u =>
        obtain ⟨hsaved, hother⟩ := h
        refine ⟨fun o' ho' => ?_, fun en hen => ?_⟩
        · rcases List.mem_cons.mp ho' with rfl | ho'
          · exact ⟨id, answered_last.prefix_of hl⟩
          · exact hsaved o' ho'
        · rcases hother en hen with hen | hen | ⟨id', o', ho', heq⟩
          · simp only [List.mem_append, List.mem_singleton] at hen
            rcases hen with (hen | rfl) | rfl
            · exact Or.inl hen
            · exact Or.inr (Or.inl rfl)
            · exact Or.inr (Or.inr ⟨id, o, by simp, rfl⟩)
          · exact Or.inr (Or.inl hen)
          · exact Or.inr (Or.inr ⟨id', o', List.mem_cons_of_mem _ ho', heq⟩)

/-- Once all have been saved, the trace has one for each horizon. -/
theorem scheduled_of_saved {l : Log} {traceId : UUID} {symbol : Text} {entryPrice : Decimal} {t : Time}
    (h : ∀ o ∈ scheduleDefaultOutcomes traceId symbol entryPrice t,
      ∃ id, Answered l (.tx (.saveOutcomeObservation id o)) ()) : Scheduled l traceId := by
  intro horizon
  obtain ⟨o, ho, hhor⟩ := exists_scheduleDefaultOutcomes traceId symbol entryPrice t horizon
  obtain ⟨id, hid⟩ := h o ho
  exact ⟨id, o, hid, (of_mem_scheduleDefaultOutcomes ho).1, hhor⟩

/-! ## Submission -/

namespace ExecutorWorker

/-- Only orders of the trace have been recorded. -/
def Ordered (log : Log) (traceId : UUID) : Prop :=
  ∀ en ∈ log, en.op.records = true →
    ∃ record, en.op = .tx (.saveBrokerOrder record) ∧ record.traceId = traceId

theorem ordered_of_unrecorded {traceId : UUID} (h : Unrecorded log) : Ordered log traceId :=
  fun en hen hrec => absurd (h en hen) (by simp [hrec])

theorem Ordered.append {traceId : UUID} {en : Entry Op Op.Ans Exn} (h : Ordered log traceId)
    (hen : en.op.records = false) : Ordered (log ++ [en]) traceId := by
  intro en' hen' hrec
  rcases List.mem_append.mp hen' with hmem | hmem
  · exact h en' hmem hrec
  · obtain rfl := List.mem_singleton.mp hmem
    simp [hen] at hrec

theorem always_obtainOrder (htask : task.trades = true)
    (h : Submits cfg log lease parent intent) (hunended : Unended log)
    (hunrecorded : Unrecorded log) (hunplaced : Unplaced log) :
    Always (Issues cfg task) (Returns fun l _ => Unended l ∧ Ordered l parent.traceId)
      (obtainOrder parent intent (clientOrderId cfg parent intent)) log := by
  refine always_tx ⟨lease, parent, intent, h, rfl⟩ fun existing => ?_
  have hordered : Ordered log parent.traceId := ordered_of_unrecorded hunrecorded
  cases existing with
  | some row => exact ⟨by simp [hunended, Op.ends], hordered.append rfl⟩
  | none =>
    refine always_op ⟨⟨log, lease, parent, h, rfl, rfl⟩, by simp [hunplaced, Op.places],
      by simp [hunended, Op.ends]⟩ fun order => ?_
    refine always_tx ⟨htask, log, lease, parent, intent, order, h, rfl, rfl,
      by simp [hunended, Op.ends]⟩ fun id => ?_
    refine ⟨by simp [hunended, Op.ends], fun en hen hrec => ?_⟩
    rcases List.mem_append.mp hen with hen | hen
    · exact ((hordered.append rfl).append rfl) en hen hrec
    · obtain rfl := List.mem_singleton.mp hen
      exact ⟨_, rfl, rfl⟩

theorem always_scheduleOutcomes {l : Log} {envelope : PipelineEnvelope} {availableAt : Option Time}
    {status : String} {t : Time} {out : Option UUID} {leaseStage : StageName}
    (htask : task.trades = true) (h : Submits cfg l lease parent intent) (hl : l <+: log)
    (hdone : Answered log (.tx (.completeJobSuccess lease (some envelope) (some .outcome) availableAt
      status t)) out) (htrace : envelope.traceId = parent.traceId)
    (hordered : Ordered log parent.traceId) :
    Always (Issues cfg task) (Clean (Handled leaseStage lease Settled))
      (scheduleOutcomes parent intent) log := by
  refine always_tx (Or.inl ⟨l, lease, parent, intent, h, hl, rfl⟩) fun rows => ?_
  have hlisted : Ordered (log ++ [⟨.tx (.listOutcomeObservations parent.traceId), .ok rows⟩])
      parent.traceId := hordered.append rfl
  split
  · refine always_now trivial fun now => ?_
    have hnow : Ordered (log ++ [⟨.tx (.listOutcomeObservations parent.traceId), .ok rows⟩] ++
        [⟨.now .schedule, .ok now⟩]) parent.traceId := hlisted.append rfl
    refine (always_saveOutcomeObservations _ (fun _ => trivial) fun l' id hl' o ho => ?_).returns
      fun l' u hl' ⟨hall, hother⟩ _ => ?_
    · obtain ⟨htr, hnone⟩ := of_mem_scheduleDefaultOutcomes ho
      refine ⟨htask, l, lease, parent, intent, envelope, availableAt, status, t, out, h, ?_,
        htrace.trans htr.symm, hnone, hdone.prefix_of ?_, htr⟩
      · exact (hl.trans (by simp)).trans hl'
      · exact List.IsPrefix.trans (by simp) hl'
    · have hscheduled : Scheduled l' parent.traceId := scheduled_of_saved hall
      refine ⟨fun record id hen => Or.inl ?_, fun id o hen => ?_⟩
      · rcases hother _ hen with hen | hen | ⟨id', o', -, heq⟩
        · obtain ⟨record', heq, htr⟩ := hnow _ hen rfl
          cases heq
          rw [htr]
          exact hscheduled
        · cases hen
        · cases heq
      · rcases hother _ hen with hen | hen | ⟨id', o', ho', heq⟩
        · obtain ⟨record', heq, -⟩ := hnow _ hen rfl
          cases heq
        · cases hen
        · cases heq
          rw [(of_mem_scheduleDefaultOutcomes ho').1]
          exact hscheduled
  · next hrows =>
    intro _
    refine ⟨fun record id hen => Or.inr ⟨rows, ?_, ?_⟩, fun id o hen => ?_⟩
    · simpa using hrows
    · obtain ⟨record', heq, htr⟩ := hlisted _ hen rfl
      cases heq
      rw [htr]
      exact answered_last
    · obtain ⟨record', heq, -⟩ := hlisted _ hen rfl
      cases heq

theorem always_submitOrder {checks : List RiskCheckResult} {stage leaseStage : StageName}
    (htask : task.trades = true) (h : Submits cfg log lease parent intent)
    (hstage : stage = .execution ∨ stage = .approval) (hholds : Holds log stage lease parent)
    (hunended : Unended log) (hunrecorded : Unrecorded log) (hunplaced : Unplaced log) :
    Always (Issues cfg task) (Clean (Handled leaseStage lease Settled))
      (submitOrder cfg lease parent intent checks stage) log := by
  refine (always_obtainOrder htask h hunended hunrecorded hunplaced).returns
    fun l id hl ⟨hun, hordered⟩ => ?_
  refine always_childEnvelope fun messageId t envelope he hid => ?_
  refine always_completeJobSuccess ⟨.submitted log parent envelope intent checks stage id
    (hl.trans (by simp)) h hstage he hholds, by simp [hun, Op.ends], ?_, fun _ => rfl, ?_⟩
    fun t out => ?_
  · rintro _ ⟨⟩
    simp [Answered, hid]
  · rintro _ ⟨⟩ houtcome
    have heq := he.stage.symm.trans houtcome
    rcases hstage with rfl | rfl <;> cases heq
  exact always_scheduleOutcomes htask h (hl.trans (by simp)) answered_last he.traceId
    ((((hordered.append rfl).append rfl).append rfl).append rfl)

/-! ## The executor -/

/-- A completion that publishes nothing ends the step. -/
theorem always_complete_end {leaseStage : StageName} {envelope : PipelineEnvelope}
    {next : Option StageName} {status : String}
    (h : Concludes cfg log lease (some envelope) next status) (hunrecorded : Unrecorded log) :
    Always (Issues cfg task) (Clean (Handled leaseStage lease Settled))
      (completeJobSuccess lease (some envelope) next none status >>= fun _ => pure true) log := by
  refine always_completeJobSuccess h fun t out _ => ?_
  exact settled_of_unrecorded (by simp [hunrecorded, Op.records])

theorem always_rejectRisk {selected : Option UUID} {checks : List RiskCheckResult} {summary : String}
    {leaseStage : StageName} (h : Holds log .execution lease parent) (hunended : Unended log)
    (hunrecorded : Unrecorded log) :
    Always (Issues cfg task) (Clean (Handled leaseStage lease Settled))
      (rejectRisk cfg lease parent selected checks summary) log := by
  refine always_childEnvelope fun id t envelope he hid => ?_
  refine always_complete_end ⟨.rejected parent envelope _ (h.prefix_of (by simp)) rfl he,
    by simp [hunended, Op.ends], ?_, by dsimp only; decide, ?_⟩ (by simp [hunrecorded, Op.records])
  · rintro _ ⟨⟩
    simp [Answered, hid]
  · rintro _ ⟨⟩ houtcome
    cases he.stage.symm.trans houtcome

theorem always_requestApproval {checks : List RiskCheckResult} {candidate : TradeCandidate}
    {leaseStage : StageName} (hmode : cfg.executor.approvalMode = "manual_all")
    (h : Evaluated cfg log lease parent candidate intent) (hunended : Unended log)
    (hunrecorded : Unrecorded log) :
    Always (Issues cfg task) (Clean (Handled leaseStage lease Settled))
      (requestApproval cfg lease parent intent checks) log := by
  refine always_childEnvelope fun id t envelope he hid => ?_
  simp only [ApprovalService.request, createApprovalRequest, Prog.bind_def, Prog.bind_assoc]
  refine always_now trivial fun t' => always_op trivial fun token => always_uuid4 fun approvalId => ?_
  refine always_now trivial fun requestedAt => ?_
  generalize hlog' : log ++ _ ++ _ ++ _ ++ _ ++ _ ++ _ = log'
  have hpre : log <+: log' := by subst hlog'; simp
  have hdrawn : Answered log' (.uuid4 .message) envelope.messageId := by
    subst hlog'
    simp [Answered, hid]
  have hunended : Unended log' := by subst hlog'; simp [hunended, Op.ends]
  have hunrecorded : Unrecorded log' := by subst hlog'; simp [hunrecorded, Op.records]
  refine always_tx ⟨rfl, hmode, hunended, hdrawn, lease, parent, h.holds.prefix_of hpre, rfl⟩
    fun _ => ?_
  refine always_complete_end ⟨.awaiting log parent _ candidate intent checks approvalId hmode
    (hpre.trans (by simp)) h ⟨he.traceId, he.parentId, he.stage, he.key, rfl⟩,
    by simp [hunended, Op.ends], ?_, by dsimp only [awaitingDecision]; decide, ?_⟩
    (by simp [hunrecorded, Op.records])
  · rintro _ ⟨⟩
    exact hdrawn.prefix_of (by simp)
  · rintro _ ⟨⟩ houtcome
    cases he.stage.symm.trans houtcome

theorem always_execute {checks : List RiskCheckResult} {candidate : TradeCandidate}
    {portfolio : PortfolioSnapshot} {breaker : CircuitBreakerState} {t : Time} {l : Log}
    (htask : task.trades = true) (hopened : Opened l .execution lease parent)
    (hbest : bestCandidate parent.payload = some candidate) (hpre : l <+: log)
    (hsnapshot : ∃ l', log = l' ++ [⟨.getCircuitBreakerState, .ok breaker⟩] ++
      [⟨.now .evaluate, .ok t⟩] ∧ snapshotIn l' = some portfolio)
    (hpassed : RiskPassed cfg.executor t candidate portfolio breaker) (hunended : Unended log)
    (hunrecorded : Unrecorded log) (hunplaced : Unplaced log) :
    Always (Issues cfg task) (Clean (Handled .execution lease Settled))
      (execute cfg lease parent candidate checks) log := by
  have herr : ∀ e, Clean (Handled .execution lease Settled) log (.error e) :=
    fun e _ => ⟨hunrecorded, hunended, nofun⟩
  obtain ⟨l', hlog, hl'⟩ := hsnapshot
  refine always_getD_bind (fun lastPrice _ => ?_) fun _ => herr _
  refine always_getD_bind (fun limitPrice _ => ?_) fun _ => herr _
  have h : Evaluated cfg log lease parent candidate (buildIntent cfg candidate limitPrice) :=
    ⟨hopened.holds.prefix_of hpre, hbest, ⟨l', portfolio, breaker, t, hl', hlog, hpassed⟩, _, rfl⟩
  dsimp only
  split_ifs with hmode
  · exact always_requestApproval hmode h hunended hunrecorded
  · exact always_submitOrder htask (.direct candidate hmode h) (Or.inl rfl) h.holds hunended hunrecorded
      hunplaced

theorem always_process (htask : task.trades = true) (h : Begun log .execution lease) :
    Always (Issues cfg task) (Clean (Handled .execution lease Settled)) (process cfg lease) log := by
  refine h.always_getMessage fun log parent h => ?_
  refine always_modelValidate (fun report hload => ?_) fun e _ => h.handled_error (nomatch ·)
  split
  · exact always_rejectRisk h.holds h.unended h.unrecorded
  · next candidate rest hsorted =>
    have hbest : bestCandidate parent.payload = some candidate := by
      simp [bestCandidate, hload, hsorted]
    refine always_op ⟨lease, parent, h.holds⟩ fun portfolio => always_op trivial fun breaker => ?_
    refine always_now ⟨_, breaker, rfl⟩ fun t => ?_
    generalize hlog' : log ++ _ ++ _ ++ _ = log'
    have hpre : log <+: log' := by subst hlog'; simp
    have hunended : Unended log' := by subst hlog'; simp [h.unended, Op.ends]
    have hunrecorded : Unrecorded log' := by subst hlog'; simp [h.unrecorded, Op.records]
    have hunplaced : Unplaced log' := by subst hlog'; simp [h.unplaced, Op.places]
    split
    · exact fun _ => ⟨hunrecorded, hunended, nofun⟩
    · next checks hchecks =>
      split_ifs with hall
      · have hsnapshot : snapshotIn (log ++ [⟨.getPortfolioSnapshot report.portfolioSnapshotId,
            .ok portfolio⟩]) = some portfolio := findSome?_append_of_none h.unread.snapshotIn
        exact always_execute htask h hbest hpre ⟨_, hlog'.symm, hsnapshot⟩
          (riskPassed_of_evaluate hchecks hall) hunended hunrecorded hunplaced
      · exact always_rejectRisk (h.holds.prefix_of hpre) hunended hunrecorded

theorem always_worker {workerId : Text} (htask : task.trades = true) :
    Always (Issues cfg task) (Clean fun l _ => Settled l) (processNext cfg workerId) [] :=
  always_processNext (Task.ingests_of_trades htask) (fun _ => settled_of_unrecorded) fun _ _ h => always_process htask h

end ExecutorWorker

/-! ## The approval worker -/

namespace ApprovalWorker

/-- Validating the parts of a payload makes no call. -/
theorem always_intentIfAny {payload : JsonValue} :
    Always (Issues cfg task) (fun l _ => l = log) (intentIfAny payload) log := by
  unfold intentIfAny
  split
  · rfl
  · split_ifs
    · exact always_getD_bind (fun _ _ => rfl) fun _ => rfl
    · rfl

theorem always_selectedCandidate {payload : JsonValue} :
    Always (Issues cfg task) (fun l _ => l = log) (selectedCandidate payload) log := by
  unfold selectedCandidate
  split
  · rfl
  · rfl
  · exact always_getD_bind (fun _ _ => rfl) fun _ => rfl

theorem always_endApproval {status : ApprovalStatus} (h : Holds log .approval lease parent)
    (hunended : Unended log) (hunrecorded : Unrecorded log) :
    Always (Issues cfg task) (Clean (Handled .approval lease Settled))
      (endApproval lease parent status) log := by
  have herr : ∀ e, Clean (Handled .approval lease Settled) log (.error e) :=
    fun e _ => ⟨hunrecorded, hunended, nofun⟩
  refine always_intentIfAny.bind (fun l intent _ hl => ?_) fun l e _ hl => hl ▸ herr e
  subst hl
  refine always_selectedCandidate.bind (fun l' selected _ hl => ?_) fun l' e _ hl => hl ▸ herr e
  subst hl
  refine always_childEnvelope fun id t envelope he hid => ?_
  refine ExecutorWorker.always_complete_end ⟨.ended parent envelope status _
    (h.prefix_of (by simp)) he, by simp [hunended, Op.ends], ?_, ?_, ?_⟩
    (by simp [hunrecorded, Op.records])
  · rintro _ ⟨⟩
    simp [Answered, hid]
  · dsimp only
    split_ifs <;> decide
  · rintro _ ⟨⟩ houtcome
    cases he.stage.symm.trans houtcome

theorem always_submitApproved {l : Log} {request : ApprovalRequest} (htask : task.trades = true)
    (hlog : log = l ++ [⟨.tx (.getApprovalRequestByMessage parent.messageId), .ok (some request)⟩])
    (hrequest : requestIn log = some request)
    (hstatus : request.status = .approved) (h : Holds l .approval lease parent)
    (hunended : Unended log) (hunrecorded : Unrecorded log) (hunplaced : Unplaced log) :
    Always (Issues cfg task) (Clean (Handled .approval lease Settled))
      (submitApproved cfg lease parent) log := by
  have herr : ∀ e, Clean (Handled .approval lease Settled) log (.error e) :=
    fun e _ => ⟨hunrecorded, hunended, nofun⟩
  refine always_getD_bind (fun payload hget => ?_) fun _ => herr _
  refine always_modelValidate (fun intent hload => ?_) fun e _ => herr e
  exact ExecutorWorker.always_submitOrder htask
    (.approved l request payload hlog hrequest hstatus h hget hload) (Or.inr rfl)
    (h.prefix_of ⟨_, hlog.symm⟩) hunended hunrecorded hunplaced

theorem always_waitForDecision {request : ApprovalRequest} (h : Leased log .approval lease)
    (hunended : Unended log) (hunrecorded : Unrecorded log) :
    Always (Issues cfg task) (Clean (Handled .approval lease Settled))
      (waitForDecision cfg lease request) log := by
  refine always_now trivial fun t => ?_
  refine always_completeJobRetry (h.prefix_of (by simp)) (fun _ => ?_) (fun _ _ => nofun)
    (fun l hl _ => ?_) fun l e _ hl hun _ => ⟨?_, hun ?_, nofun⟩
  · simp [hunended, Op.ends]
  · exact settled_of_unrecorded (hl.unrecorded (by simp [hunrecorded, Op.records]))
  · exact hl.unrecorded (by simp [hunrecorded, Op.records])
  · simp [hunended, Op.ends]

theorem always_process (htask : task.trades = true) (h : Begun log .approval lease) :
    Always (Issues cfg task) (Clean (Handled .approval lease Settled)) (process cfg lease) log := by
  refine h.always_getMessage fun log parent h => ?_
  refine always_tx ⟨lease, parent, h.holds, rfl⟩ fun request => ?_
  generalize hlog' : log ++ _ = log'
  have hholds : Holds log' .approval lease parent := by
    subst hlog'
    exact h.holds.prefix_of (by simp)
  have hunended : Unended log' := by subst hlog'; simp [h.unended, Op.ends]
  have hunrecorded : Unrecorded log' := by subst hlog'; simp [h.unrecorded, Op.records]
  cases request with
  | none =>
    refine always_deadLetterJob hholds.leased (fun _ => ⟨hunended, fun hstage => by cases hstage⟩)
      (fun l hl _ => ?_)
      fun l e hl hun _ => ⟨hl.unrecorded hunrecorded, hun hunended, fun hstage => by cases hstage⟩
    exact settled_of_unrecorded (hl.unrecorded hunrecorded)
  | some request =>
    unfold pollStatus
    dsimp only
    split_ifs with hrequested
    · simp only [decideApproval, Prog.bind_def, Prog.bind_assoc]
      refine always_now trivial fun t => ?_
      split_ifs
      · simp only [Prog.bind_assoc]
        refine always_now trivial fun t' => always_tx trivial fun _ => ?_
        exact always_endApproval (hholds.prefix_of (by simp)) (by simp [hunended, Op.ends])
          (by simp [hunrecorded, Op.records])
      · exact always_waitForDecision (hholds.leased.prefix_of (by simp))
          (by simp [hunended, Op.ends]) (by simp [hunrecorded, Op.records])
    · cases hstatus : request.status with
      | requested => exact absurd hstatus hrequested
      | approved =>
        have hrequest : requestIn log' = some request := by
          subst hlog'
          exact findSome?_append_of_none h.unread.requestIn
        have hunplaced : Unplaced log' := by subst hlog'; simp [h.unplaced, Op.places]
        exact always_submitApproved htask hlog'.symm hrequest hstatus h.holds hunended hunrecorded
          hunplaced
      | rejected => exact always_endApproval hholds hunended hunrecorded
      | expired => exact always_endApproval hholds hunended hunrecorded

theorem always_worker {workerId : Text} (htask : task.trades = true) :
    Always (Issues cfg task) (Clean fun l _ => Settled l) (processNext cfg workerId) [] :=
  always_processNext (Task.ingests_of_trades htask) (fun _ => settled_of_unrecorded) fun _ _ h => always_process htask h

end ApprovalWorker

end Sentinel.Pipeline
