import Sentinel.Pipeline.Origins

/-!
# How a step ends its job

A worker may still retry a job, or give it up, after it has completed it, when a later call of the
same step raises.  After a retry or a dead letter that has committed it makes no further call.
-/

namespace Sentinel.Pipeline

open Logic Contracts

variable {host : Host} {cfg : PipelineConfig} {lease : JobLease}

/-- The calls after which a step makes no other. -/
def Op.closes : Op → Bool
  | .tx (.completeJobRetry ..) | .tx (.deadLetterJob ..) => true
  | _ => false

/-- No retry and no dead letter has committed. -/
def Open (log : Log) : Prop := ∀ en ∈ log, en.op.closes = true → ∃ e, en.ans = .error e

theorem open_append {log log' : Log} : Open (log ++ log') ↔ Open log ∧ Open log' := by
  simp [Open, or_imp, forall_and]

theorem open_nil : Open [] := fun _ hen => absurd hen List.not_mem_nil

theorem Op.ends_of_closes {op : Op} (h : op.closes = true) : op.ends = true := by
  cases op with
  | tx t => cases t <;> first | rfl | cases h
  | _ => cases h

theorem Unended.open {log : Log} (h : Unended log) : Open log := fun en hen hcloses =>
  absurd (h en hen) (by simp [Op.ends_of_closes hcloses])

/-! ## Routine calls -/

/-- The calls that end no job and neither list nor save observations. -/
def Op.routine : Op → Bool
  | .tx t =>
    match t with
    | .completeJobSuccess .. | .completeJobRetry .. | .deadLetterJob ..
    | .listOutcomeObservations _ | .saveOutcomeObservation .. => false
    | _ => true
  | _ => true

/-- What a log says whatever routine calls follow. -/
class Steady (I : Log → Prop) : Prop where
  append : ∀ log op r, op.routine = true → I log → I (log ++ [⟨op, r⟩])

theorem ApprovalWorker.keeps_intentIfAny {I : Log → Prop} {payload : JsonValue} :
    Keeps I (intentIfAny payload) := by
  unfold intentIfAny
  split
  · exact keeps_pure _
  · split_ifs
    · exact keeps_getD.bind fun _ => keeps_pure _
    · exact keeps_pure _

theorem ApprovalWorker.keeps_selectedCandidate {I : Log → Prop} {payload : JsonValue} :
    Keeps I (selectedCandidate payload) := by
  unfold selectedCandidate
  split
  · exact keeps_pure _
  · exact keeps_pure _
  · exact keeps_getD.bind fun _ => keeps_pure _

section Routine

variable {I : Log → Prop} [Steady I]

theorem keeps_routine {op : Op} (hop : op.routine = true) :
    Keeps I (Prog.perform op : Program op.Ans) :=
  keeps_perform fun log r => Steady.append log op r hop

theorem keeps_leaseNextJob {q : QueueSection} {stage : StageName} {workerId : Text} :
    Keeps I (leaseNextJob q stage workerId) :=
  (keeps_routine rfl).bind fun _ => keeps_routine rfl

theorem keeps_decideApproval {token approverId : Text} {status : ApprovalStatus}
    {reason : Option Text} : Keeps I (decideApproval token status approverId reason) :=
  (keeps_routine rfl).bind fun _ => keeps_routine rfl

theorem keeps_createApprovalRequest {traceId messageId candidateId : UUID} {channel : String}
    {token : Text} {expiresAt : Time} :
    Keeps I (createApprovalRequest traceId messageId candidateId channel token expiresAt) :=
  (keeps_routine rfl).bind fun _ => (keeps_routine rfl).bind fun _ =>
    (keeps_routine rfl).bind fun _ => keeps_pure _

theorem keeps_getMessage (id : UUID) : Keeps I (getMessage id) :=
  (keeps_routine rfl).bind fun _ => keeps_getD.bind fun _ => (keeps_routine rfl).bind fun _ =>
    keeps_getD.bind fun _ => keeps_pure _

theorem keeps_newEnvelope {traceId : UUID} {alertId : Text} {stage : StageName} {version : String}
    {key : Text} {payload : JsonValue} {parentId : Option UUID} :
    Keeps I (newEnvelope traceId alertId stage version key payload parentId) :=
  (keeps_routine rfl).bind fun _ => (keeps_routine rfl).bind fun _ => keeps_pure _

theorem ExecutorWorker.keeps_obtainOrder {parent : PipelineEnvelope} {intent : TradeIntent}
    {clientOrderId : Text} : Keeps I (obtainOrder parent intent clientOrderId) := by
  refine (keeps_routine rfl).bind fun existing => ?_
  cases existing with
  | none => exact (keeps_routine rfl).bind fun _ => (keeps_routine rfl).bind fun _ => keeps_pure _
  | some row => exact keeps_pure _

theorem ApprovalWorker.keeps_pollStatus {request : ApprovalRequest} :
    Keeps I (pollStatus request) := by
  unfold pollStatus
  split_ifs
  · refine (keeps_routine rfl).bind fun _ => ?_
    split_ifs
    · exact keeps_decideApproval.bind fun _ => keeps_pure _
    · exact keeps_pure _
  · exact keeps_pure _

end Routine

/-! ## Programs that leave the job open -/

theorem open_concat {log : Log} {op : Op} {r : Except Exn op.Ans} (h : Open log)
    (hop : op.closes = false) : Open (log ++ [⟨op, r⟩]) := by
  refine open_append.mpr ⟨h, fun en hen hcloses => ?_⟩
  obtain rfl := List.mem_singleton.mp hen
  cases hop.symm.trans hcloses

theorem keeps_call {op : Op} (hop : op.closes = false) :
    Keeps Open (Prog.perform op : Program op.Ans) :=
  keeps_perform fun _ _ h => open_concat h hop

theorem Op.closes_of_routine {op : Op} (h : op.routine = true) : op.closes = false := by
  cases op with
  | tx t => cases t <;> first | rfl | cases h
  | _ => rfl

instance steady_open : Steady Open where
  append _ _ _ hop h := open_concat h (Op.closes_of_routine hop)

theorem keepsRaising_call (op : Op) : KeepsRaising Open (Prog.perform op : Program op.Ans) := by
  refine keepsRaising_perform fun log e h => open_append.mpr ⟨h, fun en hen _ => ?_⟩
  obtain rfl := List.mem_singleton.mp hen
  exact ⟨e, rfl⟩

theorem keeps_ensureTrace {alertId : Text} {stage : StageName} {status : String} :
    Keeps Open (ensureTrace alertId stage status) :=
  (keeps_call rfl).bind fun _ => keeps_call rfl

theorem keeps_saveOutcomeObservation {o : OutcomeObservation} :
    Keeps Open (saveOutcomeObservation o) :=
  (keeps_call rfl).bind fun _ => keeps_call rfl

theorem keeps_completeJobSuccess {output : Option PipelineEnvelope} {next : Option StageName}
    {availableAt : Option Time} {status : String} :
    Keeps Open (completeJobSuccess lease output next availableAt status) :=
  (keeps_call rfl).bind fun _ => keeps_call rfl

theorem keepsRaising_deadLetterJob {reason : Text} : KeepsRaising Open (deadLetterJob lease reason) :=
  (keeps_call rfl).bind_raising fun _ => (keeps_getMessage _).bind_raising fun _ =>
    keepsRaising_call _

theorem keepsRaising_completeJobRetry {error : Text} {delaySec maxAttempts : ℤ} :
    KeepsRaising Open (completeJobRetry lease error delaySec maxAttempts) := by
  unfold completeJobRetry
  split_ifs
  · exact keepsRaising_deadLetterJob
  · exact (keeps_call rfl).bind_raising fun _ => keepsRaising_call _

/-- The frame that all workers share. -/
theorem keepsRaising_processNext {q : QueueSection} {stage : StageName} {workerId : Text}
    {process : JobLease → Program Bool} (h : ∀ lease, KeepsRaising Open (process lease)) :
    KeepsRaising Open (processNext q stage workerId process) := by
  refine keeps_leaseNextJob.bind_raising fun lease => ?_
  cases lease with
  | none => exact (keeps_pure _).raising
  | some lease => exact (h lease).tryCatch fun e => keepsRaising_completeJobRetry.map _

/-! ## The tasks -/

theorem ResearcherIngressService.keeps_handleAlert {hmac : String → List UInt8 → String}
    {version : String} {body : Body} {headers : List (String × String)} {replay : Option Text} :
    Keeps Open (handleAlert hmac cfg version body headers replay) := by
  unfold handleAlert
  split_ifs
  · exact keeps_pure _
  · exact keeps_pure _
  · split
    · exact keeps_pure _
    · dsimp only
      split_ifs
      · exact keeps_pure _
      · refine keeps_ensureTrace.bind fun traceId => ?_
        refine (keeps_call rfl).bind fun _ => keeps_newEnvelope.bind fun envelope => ?_
        refine (keeps_call rfl).bind fun p => ?_
        dsimp only
        split_ifs
        · exact (keeps_call rfl).bind fun _ => keeps_pure _
        · exact keeps_pure _

theorem ResearcherWorker.keeps_process : Keeps Open (process cfg lease) := by
  refine (keeps_getMessage _).bind fun parent => keeps_getD.bind fun ingested => ?_
  refine (keeps_call rfl).bind fun report => keeps_newEnvelope.bind fun envelope => ?_
  refine keeps_completeJobSuccess.bind fun messageId => ?_
  cases messageId with
  | none => exact (keeps_pure _).bind fun _ => keeps_pure _
  | some messageId =>
    refine Keeps.bind ?_ fun _ => keeps_pure _
    unfold saveResearchEvidence
    split
    · exact keeps_pure _
    · exact keeps_call rfl

theorem keeps_buildCandidates {cfg : AnalystSection} {portfolio : PortfolioSnapshot}
    (hypotheses : List AssetHypothesis) : Keeps Open (buildCandidates cfg portfolio hypotheses) := by
  induction hypotheses with
  | nil => exact keeps_pure _
  | cons hypothesis hypotheses ih =>
    refine (keeps_call rfl).bind fun _ => (keeps_call rfl).bind fun _ => (keeps_call rfl).bind fun _ => ?_
    refine ih.bind fun p => ?_
    dsimp only
    split_ifs <;> exact keeps_pure _

theorem AnalystWorker.keeps_process : Keeps Open (process cfg lease) := by
  refine (keeps_getMessage _).bind fun parent => keeps_getD.bind fun report => ?_
  refine (keeps_call rfl).bind fun _ => (keeps_call rfl).bind fun _ => ?_
  refine (keeps_buildCandidates _).bind fun p => keeps_newEnvelope.bind fun envelope => ?_
  refine keeps_completeJobSuccess.bind fun messageId => ?_
  cases messageId with
  | none => exact (keeps_pure _).bind fun _ => keeps_pure _
  | some messageId => exact (keeps_call rfl).bind fun _ => keeps_pure _

theorem keeps_saveOutcomeObservations (observations : List OutcomeObservation) :
    Keeps Open (saveOutcomeObservations observations) := by
  induction observations with
  | nil => exact keeps_pure _
  | cons o observations ih =>
    exact keeps_saveOutcomeObservation.bind fun _ => ih

theorem ExecutorWorker.keeps_submitOrder {parent : PipelineEnvelope} {intent : TradeIntent}
    {checks : List RiskCheckResult} {stage : StageName} :
    Keeps Open (submitOrder cfg lease parent intent checks stage) := by
  refine keeps_obtainOrder.bind fun id => ?_
  refine keeps_newEnvelope.bind fun envelope => keeps_completeJobSuccess.bind fun _ => ?_
  refine (keeps_call rfl).bind fun rows => ?_
  split_ifs
  · exact (keeps_call rfl).bind fun _ => (keeps_saveOutcomeObservations _).bind fun _ => keeps_pure _
  · exact keeps_pure _

theorem ExecutorWorker.keeps_rejectRisk {parent : PipelineEnvelope} {selected : Option UUID}
    {checks : List RiskCheckResult} {summary : String} :
    Keeps Open (rejectRisk cfg lease parent selected checks summary) :=
  keeps_newEnvelope.bind fun _ => keeps_completeJobSuccess.bind fun _ => keeps_pure _

theorem ExecutorWorker.keeps_requestApproval {parent : PipelineEnvelope} {intent : TradeIntent}
    {checks : List RiskCheckResult} : Keeps Open (requestApproval cfg lease parent intent checks) := by
  refine keeps_newEnvelope.bind fun preview => Keeps.bind ?_ fun request => ?_
  · refine (keeps_call rfl).bind fun _ => (keeps_call rfl).bind fun _ => ?_
    exact keeps_createApprovalRequest.bind fun _ => keeps_pure _
  · exact keeps_completeJobSuccess.bind fun _ => keeps_pure _

theorem ExecutorWorker.keeps_process : Keeps Open (process cfg lease) := by
  refine (keeps_getMessage _).bind fun parent => keeps_getD.bind fun report => ?_
  split
  · exact keeps_rejectRisk
  · refine (keeps_call rfl).bind fun _ => (keeps_call rfl).bind fun _ => (keeps_call rfl).bind fun _ => ?_
    split
    · exact keeps_raise _
    · split_ifs
      · refine keeps_getD.bind fun _ => keeps_getD.bind fun _ => ?_
        dsimp only
        split_ifs
        · exact keeps_requestApproval
        · exact keeps_submitOrder
      · exact keeps_rejectRisk

theorem ApprovalWorker.keeps_endApproval {parent : PipelineEnvelope} {status : ApprovalStatus} :
    Keeps Open (endApproval lease parent status) :=
  keeps_intentIfAny.bind fun _ => keeps_selectedCandidate.bind fun _ =>
    keeps_newEnvelope.bind fun _ => keeps_completeJobSuccess.bind fun _ => keeps_pure _

theorem ApprovalWorker.keepsRaising_process : KeepsRaising Open (process cfg lease) := by
  refine (keeps_getMessage _).bind_raising fun parent => (keeps_call rfl).bind_raising fun request => ?_
  cases request with
  | none => exact keepsRaising_deadLetterJob.map _
  | some request =>
    refine keeps_pollStatus.bind_raising fun status => ?_
    cases status with
    | requested => exact (keeps_call rfl).bind_raising fun _ => keepsRaising_completeJobRetry.map _
    | approved =>
      exact (keeps_getD.bind fun _ => keeps_getD.bind fun _ =>
        ExecutorWorker.keeps_submitOrder).raising
    | rejected => exact keeps_endApproval.raising
    | expired => exact keeps_endApproval.raising

theorem OutcomeWorker.keeps_observe {symbol : Text} {now : Time} (rows : List ObservationRow) :
    Keeps Open (observe symbol now rows) := by
  induction rows with
  | nil => exact keeps_pure _
  | cons row rows ih =>
    exact (keeps_call rfl).bind fun _ => (keeps_call rfl).bind fun _ => (keeps_call rfl).bind fun _ => ih

theorem OutcomeWorker.keeps_finish {parent : PipelineEnvelope} {observedCount : ℕ} :
    Keeps Open (finish lease parent observedCount) := by
  refine (keeps_call rfl).bind fun rows => keeps_newEnvelope.bind fun envelope => ?_
  split <;> exact keeps_completeJobSuccess.bind fun _ => keeps_pure _

theorem OutcomeWorker.keepsRaising_process : KeepsRaising Open (process lease) := by
  refine (keeps_getMessage _).bind_raising fun parent => keeps_getD.bind_raising fun decision => ?_
  split
  · exact (keeps_completeJobSuccess.bind fun _ => keeps_pure _).raising
  · refine (keeps_call rfl).bind_raising fun rows => ?_
    split_ifs
    · exact (keeps_completeJobSuccess.bind fun _ => keeps_pure _).raising
    · refine (keeps_call rfl).bind_raising fun now => ?_
      dsimp only
      split_ifs
      · exact keeps_getD.bind_raising fun _ => keepsRaising_completeJobRetry.map _
      · exact ((keeps_observe _).bind fun _ => keeps_finish).raising

theorem keepsRaising_body (t : Task) : KeepsRaising Open (t.body host) := by
  cases t with
  | ingress body headers replaySource =>
    exact (ResearcherIngressService.keeps_handleAlert.bind fun _ => keeps_pure _).raising
  | researcher workerId =>
    exact (keepsRaising_processNext fun _ => ResearcherWorker.keeps_process.raising).map _
  | analyst workerId =>
    exact (keepsRaising_processNext fun _ => AnalystWorker.keeps_process.raising).map _
  | executor workerId =>
    exact (keepsRaising_processNext fun _ => ExecutorWorker.keeps_process.raising).map _
  | approval workerId =>
    exact (keepsRaising_processNext fun _ => ApprovalWorker.keepsRaising_process).map _
  | outcome workerId =>
    exact (keepsRaising_processNext fun _ => OutcomeWorker.keepsRaising_process).map _
  | approve token approverId reason | reject token approverId reason =>
    refine (Keeps.bind ?_ fun p => keeps_pure _).raising
    exact keeps_decideApproval.bind fun _ => (keeps_call rfl).bind fun _ => keeps_pure _

end Sentinel.Pipeline
