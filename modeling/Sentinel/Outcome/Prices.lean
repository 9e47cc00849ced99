import Sentinel.Executor.Submitted
import Sentinel.Outcome.Tracking

/-!
# The prices of the observations

An observation is scheduled for an order of its trace, and an outcome worker fills it in with the
price that the provider gives it, once its time has come.

* `Leaves`: the programs that fill in no observation; all but the outcome worker's.
* `Prices`: what the log says when an observation is filled in.
* `Looks.order`: the intent of an OUTCOME job has an order on record.
* `observation_priced`: where the rows of `outcome_observations` come from.
-/

namespace Sentinel.Pipeline

open Logic Contracts PipelineDB

variable {host : Host} {cfg : PipelineConfig} {C : State → PipelineEvent → Prop} {s : State}
  {log : Log} {lease : JobLease} {parent : PipelineEnvelope} {intent : TradeIntent}

/-! ## Programs that fill in nothing -/

def Op.fillsIn : Op → Bool
  | .tx (.updateOutcomeObservation ..) => true
  | _ => false

section Leaves

variable {α β : Type} {p : Program α} {f : α → Program β}

/-- The program fills in no observation. -/
def Leaves (p : Program α) : Prop :=
  ∀ log, Always (fun _ op => op.fillsIn = false) (fun _ _ => True) p log

theorem leaves_pure (a : α) : Leaves (pure a : Program α) := fun _ => trivial

theorem leaves_raise (e : Exn) : Leaves (.raise e : Program α) := fun _ => trivial

theorem leaves_perform {op : Op} (hop : op.fillsIn = false) :
    Leaves (Prog.perform op : Program op.Ans) := fun _ => always_perform hop fun _ => trivial

theorem leaves_getD {e : Exn} {o : Option α} : Leaves (Prog.getD e o : Program α) :=
  fun _ => always_getD (fun _ _ => trivial) fun _ => trivial

theorem Leaves.bind (hp : Leaves p) (hf : ∀ a, Leaves (f a)) : Leaves (p >>= f) :=
  fun log => (hp log).bind (fun l a _ _ => hf a l) fun _ _ _ _ => trivial

end Leaves

theorem leaves_getMessage (id : UUID) : Leaves (getMessage id) :=
  (leaves_perform rfl).bind fun _ => leaves_getD.bind fun _ => (leaves_perform rfl).bind fun _ =>
    leaves_getD.bind fun _ => leaves_pure _

theorem leaves_newEnvelope {traceId : UUID} {alertId : Text} {stage : StageName} {version : String}
    {key : Text} {payload : JsonValue} {parentId : Option UUID} :
    Leaves (newEnvelope traceId alertId stage version key payload parentId) :=
  (leaves_perform rfl).bind fun _ => (leaves_perform rfl).bind fun _ => leaves_pure _

theorem leaves_completeJobSuccess {output : Option PipelineEnvelope} {next : Option StageName}
    {availableAt : Option Time} {status : String} :
    Leaves (completeJobSuccess lease output next availableAt status) :=
  (leaves_perform rfl).bind fun _ => leaves_perform rfl

theorem leaves_deadLetterJob {reason : Text} : Leaves (deadLetterJob lease reason) :=
  (leaves_perform rfl).bind fun _ => (leaves_getMessage _).bind fun _ => leaves_perform rfl

theorem leaves_completeJobRetry {error : Text} {delaySec maxAttempts : ℤ} :
    Leaves (completeJobRetry lease error delaySec maxAttempts) := by
  unfold completeJobRetry
  split_ifs
  · exact leaves_deadLetterJob
  · exact (leaves_perform rfl).bind fun _ => leaves_perform rfl

theorem leaves_leaseNextJob {q : QueueSection} {stage : StageName} {workerId : Text} :
    Leaves (leaseNextJob q stage workerId) :=
  (leaves_perform rfl).bind fun _ => leaves_perform rfl

theorem leaves_processNext {q : QueueSection} {stage : StageName} {workerId : Text}
    {process : JobLease → Program Bool} (h : ∀ lease, Leaves (process lease)) :
    Leaves (processNext q stage workerId process) := by
  refine leaves_leaseNextJob.bind fun lease => ?_
  cases lease with
  | none => exact leaves_pure _
  | some lease =>
    exact fun log => (h lease log).tryCatch (fun _ _ _ _ => trivial) fun l e _ _ =>
      (leaves_completeJobRetry.bind fun _ => leaves_pure _) l

theorem leaves_decideApproval {token approverId : Text} {status : ApprovalStatus}
    {reason : Option Text} : Leaves (decideApproval token status approverId reason) :=
  (leaves_perform rfl).bind fun _ => leaves_perform rfl

theorem ResearcherIngressService.leaves_handleAlert {hmac : String → List UInt8 → String}
    {version : String} {body : Body} {headers : List (String × String)} {replay : Option Text} :
    Leaves (handleAlert hmac cfg version body headers replay) := by
  unfold handleAlert
  split_ifs
  · exact leaves_pure _
  · exact leaves_pure _
  · split
    · exact leaves_pure _
    · dsimp only
      split_ifs
      · exact leaves_pure _
      · refine ((leaves_perform rfl).bind fun _ => leaves_perform rfl).bind fun traceId => ?_
        refine (leaves_perform rfl).bind fun _ => leaves_newEnvelope.bind fun envelope => ?_
        refine (leaves_perform rfl).bind fun p => ?_
        dsimp only
        split_ifs
        · exact (leaves_perform rfl).bind fun _ => leaves_pure _
        · exact leaves_pure _

theorem ResearcherWorker.leaves_process : Leaves (process cfg lease) := by
  refine (leaves_getMessage _).bind fun parent => leaves_getD.bind fun ingested => ?_
  refine (leaves_perform rfl).bind fun report => leaves_newEnvelope.bind fun envelope => ?_
  refine leaves_completeJobSuccess.bind fun messageId => ?_
  cases messageId with
  | none => exact (leaves_pure _).bind fun _ => leaves_pure _
  | some messageId =>
    refine Leaves.bind ?_ fun _ => leaves_pure _
    unfold saveResearchEvidence
    split
    · exact leaves_pure _
    · exact leaves_perform rfl

theorem leaves_buildCandidates {cfg : AnalystSection} {portfolio : PortfolioSnapshot}
    (hypotheses : List AssetHypothesis) : Leaves (buildCandidates cfg portfolio hypotheses) := by
  induction hypotheses with
  | nil => exact leaves_pure _
  | cons hypothesis hypotheses ih =>
    refine (leaves_perform rfl).bind fun _ => (leaves_perform rfl).bind fun _ => ?_
    refine (leaves_perform rfl).bind fun _ => ih.bind fun p => ?_
    dsimp only
    split_ifs <;> exact leaves_pure _

theorem AnalystWorker.leaves_process : Leaves (process cfg lease) := by
  refine (leaves_getMessage _).bind fun parent => leaves_getD.bind fun report => ?_
  refine (leaves_perform rfl).bind fun _ => (leaves_perform rfl).bind fun _ => ?_
  refine (leaves_buildCandidates _).bind fun p => leaves_newEnvelope.bind fun envelope => ?_
  refine leaves_completeJobSuccess.bind fun messageId => ?_
  cases messageId with
  | none => exact (leaves_pure _).bind fun _ => leaves_pure _
  | some messageId => exact (leaves_perform rfl).bind fun _ => leaves_pure _

theorem leaves_saveOutcomeObservation {o : OutcomeObservation} :
    Leaves (saveOutcomeObservation o) :=
  (leaves_perform rfl).bind fun _ => leaves_perform rfl

theorem leaves_saveOutcomeObservations (observations : List OutcomeObservation) :
    Leaves (saveOutcomeObservations observations) := by
  induction observations with
  | nil => exact leaves_pure _
  | cons o observations ih =>
    exact leaves_saveOutcomeObservation.bind fun _ => ih

namespace ExecutorWorker

theorem leaves_submitOrder {checks : List RiskCheckResult} {stage : StageName} :
    Leaves (submitOrder cfg lease parent intent checks stage) := by
  refine Leaves.bind ((leaves_perform rfl).bind fun existing => ?_) fun id => ?_
  · cases existing with
    | none =>
      exact (leaves_perform rfl).bind fun _ => (leaves_perform rfl).bind fun _ => leaves_pure _
    | some row => exact leaves_pure _
  · refine leaves_newEnvelope.bind fun envelope => leaves_completeJobSuccess.bind fun _ => ?_
    refine (leaves_perform rfl).bind fun rows => ?_
    split_ifs
    · exact (leaves_perform rfl).bind fun _ => (leaves_saveOutcomeObservations _).bind fun _ =>
        leaves_pure _
    · exact leaves_pure _

theorem leaves_rejectRisk {selected : Option UUID} {checks : List RiskCheckResult}
    {summary : String} : Leaves (rejectRisk cfg lease parent selected checks summary) :=
  leaves_newEnvelope.bind fun _ => leaves_completeJobSuccess.bind fun _ => leaves_pure _

theorem leaves_requestApproval {checks : List RiskCheckResult} :
    Leaves (requestApproval cfg lease parent intent checks) := by
  refine leaves_newEnvelope.bind fun preview => Leaves.bind ?_ fun request => ?_
  · refine (leaves_perform rfl).bind fun _ => (leaves_perform rfl).bind fun _ => ?_
    refine Leaves.bind ?_ fun _ => leaves_pure _
    exact (leaves_perform rfl).bind fun _ => (leaves_perform rfl).bind fun _ =>
      (leaves_perform rfl).bind fun _ => leaves_pure _
  · exact leaves_completeJobSuccess.bind fun _ => leaves_pure _

theorem leaves_process : Leaves (process cfg lease) := by
  refine (leaves_getMessage _).bind fun parent => leaves_getD.bind fun report => ?_
  split
  · exact leaves_rejectRisk
  · refine (leaves_perform rfl).bind fun _ => (leaves_perform rfl).bind fun _ => ?_
    refine (leaves_perform rfl).bind fun _ => ?_
    split
    · exact leaves_raise _
    · split_ifs
      · refine leaves_getD.bind fun _ => leaves_getD.bind fun _ => ?_
        dsimp only
        split_ifs
        · exact leaves_requestApproval
        · exact leaves_submitOrder
      · exact leaves_rejectRisk

end ExecutorWorker

namespace ApprovalWorker

theorem leaves_pollStatus {request : ApprovalRequest} : Leaves (pollStatus request) := by
  unfold pollStatus
  split_ifs
  · refine (leaves_perform rfl).bind fun _ => ?_
    split_ifs
    · exact leaves_decideApproval.bind fun _ => leaves_pure _
    · exact leaves_pure _
  · exact leaves_pure _

theorem leaves_endApproval {status : ApprovalStatus} : Leaves (endApproval lease parent status) := by
  refine Leaves.bind ?_ fun intent => Leaves.bind ?_ fun selected => ?_
  · unfold intentIfAny
    split
    · exact leaves_pure _
    · split_ifs
      · exact leaves_getD.bind fun _ => leaves_pure _
      · exact leaves_pure _
  · unfold selectedCandidate
    split
    · exact leaves_pure _
    · exact leaves_pure _
    · exact leaves_getD.bind fun _ => leaves_pure _
  · exact leaves_newEnvelope.bind fun _ => leaves_completeJobSuccess.bind fun _ => leaves_pure _

theorem leaves_process : Leaves (process cfg lease) := by
  refine (leaves_getMessage _).bind fun parent => (leaves_perform rfl).bind fun request => ?_
  cases request with
  | none => exact leaves_deadLetterJob.bind fun _ => leaves_pure _
  | some request =>
    refine leaves_pollStatus.bind fun status => ?_
    cases status with
    | requested =>
      exact (leaves_perform rfl).bind fun _ => leaves_completeJobRetry.bind fun _ => leaves_pure _
    | approved =>
      exact leaves_getD.bind fun _ => leaves_getD.bind fun _ => ExecutorWorker.leaves_submitOrder
    | rejected => exact leaves_endApproval
    | expired => exact leaves_endApproval

end ApprovalWorker

theorem leaves_body {t : Task} (ht : t.stage ≠ some .outcome) : Leaves (t.body host) := by
  cases t with
  | ingress body headers replaySource =>
    exact ResearcherIngressService.leaves_handleAlert.bind fun _ => leaves_pure _
  | researcher workerId =>
    exact (leaves_processNext fun _ => ResearcherWorker.leaves_process).bind fun _ => leaves_pure _
  | analyst workerId =>
    exact (leaves_processNext fun _ => AnalystWorker.leaves_process).bind fun _ => leaves_pure _
  | executor workerId =>
    exact (leaves_processNext fun _ => ExecutorWorker.leaves_process).bind fun _ => leaves_pure _
  | approval workerId =>
    exact (leaves_processNext fun _ => ApprovalWorker.leaves_process).bind fun _ => leaves_pure _
  | outcome workerId => exact absurd rfl ht
  | approve token approverId reason | reject token approverId reason =>
    refine Leaves.bind ?_ fun p => leaves_pure _
    exact leaves_decideApproval.bind fun _ => (leaves_perform rfl).bind fun _ => leaves_pure _

/-! ## Filling in -/

/-- The row that `classify_outcome` makes of a row. -/
def classifiedRow (t : Time) (exitPrice : Decimal) (benchmark : Option Decimal)
    (row : ObservationRow) : ObservationRow :=
  let observed := classifyOutcome row.observation.entryPrice exitPrice benchmark
  observedRow t observed.exitPrice observed.returnPct observed.benchmarkReturnPct (lit observed.label)
    row

/-- An outcome worker has listed the observations of the trace of its job and read the clock. -/
structure Looks (log : Log) (lease : JobLease) (parent : PipelineEnvelope) (intent : TradeIntent)
    (rows : List ObservationRow) (t : Time) : Prop where
  holds : Holds log .outcome lease parent
  decided : ∃ decision, ExecutionDecision.contract.load parent.payload = some decision ∧
    decision.intent = some intent
  listed : Answered log (.tx (.listOutcomeObservations parent.traceId)) rows
  clock : Answered log (.now .observe) t

theorem Looks.prefix_of {log' : Log} {rows : List ObservationRow} {t : Time}
    (h : Looks log lease parent intent rows t) (hpre : log <+: log') :
    Looks log' lease parent intent rows t :=
  ⟨h.holds.prefix_of hpre, h.decided, h.listed.prefix_of hpre, h.clock.prefix_of hpre⟩

/-- What the log says when an observation is filled in. -/
def Prices (log : Log) : Op → Prop
  | .tx (.updateOutcomeObservation id t exitPrice returnPct benchmark label) =>
    ∃ lease parent intent rows row price benchmark', Looks log lease parent intent rows t ∧
      row ∈ OutcomeWorker.dueRows t rows ∧ row.observationId = id ∧
      Answered log (.getPrice intent.symbol row.observation.scheduledFor) price ∧
      Answered log (.getBenchmarkReturn row.observation.scheduledFor row.observation.horizon)
        benchmark' ∧
      observedRow t exitPrice returnPct benchmark label row = classifiedRow t price benchmark' row
  | _ => True

theorem prices_of {op : Op} (h : op.fillsIn = false) : Prices log op := by
  unfold Prices
  split
  · cases h
  · trivial

theorem Op.fillsIn_of_retires {op : Op} (h : op.retires = true) : op.fillsIn = false := by
  cases op with
  | tx t => cases t <;> first | rfl | cases h
  | _ => rfl

theorem prices_retires (l : Log) (op : Op) (hop : op.retires = true) : Prices l op :=
  prices_of (Op.fillsIn_of_retires hop)

theorem Leaves.prices {α : Type} {p : Program α} (h : Leaves p) (log : Log) :
    Always Prices (fun _ _ => True) p log :=
  (h log).mono' (fun _ _ _ hop => prices_of hop) fun _ _ _ _ => trivial

namespace OutcomeWorker

theorem prices_observe {rows due : List ObservationRow} {t : Time}
    (h : Looks log lease parent intent rows t) (hdue : ∀ row ∈ due, row ∈ dueRows t rows) :
    Always Prices (fun _ _ => True) (observe intent.symbol t due) log := by
  induction due generalizing log with
  | nil => trivial
  | cons row due ih =>
    refine always_perform_bind trivial (fun price => ?_) fun _ => trivial
    refine always_perform_bind trivial (fun benchmark => ?_) fun _ => trivial
    refine always_perform_bind ?_ (fun _ => ?_) fun _ => trivial
    · refine ⟨lease, parent, intent, rows, row, price, benchmark, h.prefix_of ?_, hdue row (by simp),
        rfl, answered_last.prefix_of (List.prefix_append _ _), answered_last, rfl⟩
      simp [List.append_assoc]
    · refine ih (h.prefix_of ?_) fun row hrow => hdue row (List.mem_cons_of_mem _ hrow)
      simp [List.append_assoc]

theorem leaves_finish {observedCount : ℕ} : Leaves (finish lease parent observedCount) := by
  refine (leaves_perform rfl).bind fun rows => leaves_newEnvelope.bind fun envelope => ?_
  split <;> exact leaves_completeJobSuccess.bind fun _ => leaves_pure _

theorem leaves_waitForWindow {rows : List ObservationRow} {t : Time} :
    Leaves (waitForWindow lease rows t) :=
  leaves_getD.bind fun _ => leaves_completeJobRetry.bind fun _ => leaves_pure _

theorem prices_process (hlease : Leased log .outcome lease) :
    Always Prices (fun _ _ => True) (process lease) log := by
  refine always_held prices_retires hlease fun l parent hh => ?_
  refine always_getD_bind (fun decision hload => ?_) fun _ => trivial
  split
  · exact (leaves_completeJobSuccess.bind fun _ => leaves_pure _).prices _
  · next intent hintent =>
    refine always_perform_bind trivial (fun rows => ?_) fun _ => trivial
    split_ifs
    · exact (leaves_completeJobSuccess.bind fun _ => leaves_pure _).prices _
    · refine always_perform_bind trivial (fun t => ?_) fun _ => trivial
      dsimp only
      split_ifs
      · exact leaves_waitForWindow.prices _
      · have hpre : l <+: l ++ [⟨.tx (.listOutcomeObservations parent.traceId), .ok rows⟩] ++
            [⟨.now .observe, .ok t⟩] := by simp [List.append_assoc]
        have hlooks : Looks _ lease parent intent rows t := ⟨hh.prefix_of hpre,
          ⟨decision, hload, hintent⟩, answered_last.prefix_of (List.prefix_append _ _), answered_last⟩
        exact (prices_observe hlooks fun _ hrow => hrow).bind (fun _ _ _ _ => leaves_finish.prices _)
          fun _ _ _ _ => trivial

end OutcomeWorker

theorem prices_body (t : Task) : Always Prices (fun _ _ => True) (t.body host) [] := by
  by_cases ht : t.stage = some .outcome
  · cases t with
    | outcome workerId =>
      refine (always_attempt prices_retires (fun _ _ _ => trivial) fun _ _ =>
        OutcomeWorker.prices_process).bind (fun _ _ _ _ => trivial) fun _ _ _ _ => trivial
    | _ => cases ht
  · exact (leaves_body ht).prices []

theorem prices (h : Reachable host C s) {j : ℕ} {th : Thread Op Op.Ans Exn Out Task}
    (hth : s.threads[j]? = some th) :
    Issued (fun _ => Prices) (fun _ _ _ => True) th :=
  issued_reach (M := machine host) prices_body h j th hth

/-! ## What is scheduled stays -/

/-- The observation before it is filled in. -/
def asScheduled (o : OutcomeObservation) : OutcomeObservation :=
  { o with
    observedAt := none, exitPrice := none, returnPct := none, benchmarkReturnPct := none
    label := none }

/-- The row as it was saved. -/
def savedRow (row : ObservationRow) : ObservationRow :=
  { row with observation := asScheduled row.observation }

theorem savedRow_observedRow {t : Time} {exitPrice returnPct : Decimal} {benchmark : Option Decimal}
    {label : Text} (row : ObservationRow) :
    savedRow (observedRow t exitPrice returnPct benchmark label row) = savedRow row := rfl

theorem observedRow_savedRow {t : Time} {exitPrice returnPct : Decimal} {benchmark : Option Decimal}
    {label : Text} (row : ObservationRow) :
    observedRow t exitPrice returnPct benchmark label (savedRow row) =
      observedRow t exitPrice returnPct benchmark label row := rfl

theorem savedRow_inj {row row' : ObservationRow} (h : savedRow row = savedRow row') :
    row.observationId = row'.observationId ∧
      row.observation.traceId = row'.observation.traceId ∧
      row.observation.horizon = row'.observation.horizon ∧
      row.observation.scheduledFor = row'.observation.scheduledFor := by
  simp only [savedRow, asScheduled, ObservationRow.mk.injEq, OutcomeObservation.mk.injEq] at h
  obtain ⟨hid, htrace, -, hhorizon, hfor, -⟩ := h
  exact ⟨hid, htrace, hhorizon, hfor⟩

/-- The observations as they were saved. -/
def PipelineDB.schedule (db : PipelineDB) : List ObservationRow :=
  db.outcomeObservations.map savedRow

theorem Called.schedule {w w' : World} {op : Op} {r : Except Exn op.Ans} (h : Called w op r w') :
    w.db.schedule ⊆ w'.db.schedule := by
  unfold PipelineDB.schedule
  rcases h.observationRows with heq | ⟨id, o, -, -, heq⟩ |
    ⟨id, observedAt, exitPrice, returnPct, benchmark, label, -, heq⟩
  · rw [heq]
    exact List.Subset.refl _
  · rw [heq, List.map_append]
    exact List.subset_append_left _ _
  · rw [heq, map_updateWhere (f := observedRow observedAt exitPrice returnPct benchmark label)
      fun o => rfl]
    exact List.Subset.refl _

/-- What an answer says about the clock and about the schedule. -/
def Looked (en : Entry Op Op.Ans Exn) (w : World) : Prop :=
  match en with
  | ⟨.now _, .ok t⟩ => t ≤ w.clock
  | ⟨.tx (.listOutcomeObservations traceId), .ok rows⟩ =>
    ∀ row ∈ rows, row.observation.traceId = traceId ∧ savedRow row ∈ w.db.schedule
  | _ => True

theorem Looked.mono {en : Entry Op Op.Ans Exn} {w w' : World} (h : Looked en w)
    (hclock : w.clock ≤ w'.clock) (hsub : w.db.schedule ⊆ w'.db.schedule) : Looked en w' := by
  unfold Looked at h ⊢
  split
  · exact le_trans h hclock
  · exact fun row hrow => ⟨(h row hrow).1, hsub (h row hrow).2⟩
  · trivial

theorem Called.looked {w w' : World} {op : Op} {r : Except Exn op.Ans} (h : Called w op r w') :
    Looked ⟨op, r⟩ w' := by
  cases h with
  | now site => exact le_refl w.clock
  | asked op r hop =>
    cases op with
    | tx t => cases hop
    | now site => cases hop
    | _ => trivial
  | raised op e hop =>
    cases op with
    | tx t => cases t <;> trivial
    | _ => trivial
  | observations traceId =>
    intro row hrow
    obtain ⟨hmem, htrace⟩ := mem_listOutcomeObservations.mp hrow
    exact ⟨htrace, List.mem_map_of_mem hmem⟩
  | _ => trivial

theorem looked (h : Reachable host C s) {j : ℕ} {th : Thread Op Op.Ans Exn Out Task}
    (hth : s.threads[j]? = some th) {en : Entry Op Op.Ans Exn} (hen : en ∈ th.log) :
    Looked en s.world := by
  refine fact_reach (M := machine host) (F := Looked) (fun _ _ _ _ _ hc => (called hc).looked)
    (fun _ _ _ _ _ _ hc hF => hF.mono (called hc).clock.1.ge (called hc).schedule) ?_ h j th hth en hen
  intro w e en hF
  cases e with
  | tick elapsed => exact hF.mono (le_add_of_nonneg_right (Int.natCast_nonneg _)) fun _ hrow => hrow
  | breaker b => exact hF.mono (le_refl w.clock) fun _ hrow => hrow

/-! ## Where the rows come from -/

theorem of_mem_schedule {traceId : UUID} {symbol : Text} {entryPrice : Decimal} {t : Time}
    {o : OutcomeObservation} (h : o ∈ scheduleDefaultOutcomes traceId symbol entryPrice t) :
    o.traceId = traceId ∧ o.symbol = symbol ∧ o.entryPrice = entryPrice ∧ asScheduled o = o := by
  simp only [scheduleDefaultOutcomes, List.mem_cons, List.not_mem_nil, or_false] at h
  rcases h with rfl | rfl | rfl <;> exact ⟨rfl, rfl, rfl, rfl⟩

/-- The row was scheduled for an order of its trace. -/
def ScheduledFor (s : State) (o : OutcomeObservation) : Prop :=
  ∃ b ∈ s.world.db.brokerOrders, b.traceId = o.traceId ∧ b.symbol = o.symbol ∧
    ∃ t ≤ s.world.clock, asScheduled o ∈ scheduleDefaultOutcomes o.traceId o.symbol o.entryPrice t

/-- The call was answered so in some thread. -/
def Gave (s : State) (op : Op) (a : op.Ans) : Prop := ∃ th ∈ s.threads, Answered th.log op a

/-- The row was filled in, when its time had come, with what the provider gave for the symbol. -/
def FilledIn (s : State) (symbol : Text) (row : ObservationRow) : Prop :=
  ∃ t price benchmark, row.observation.scheduledFor ≤ t ∧ t ≤ s.world.clock ∧
    Gave s (.getPrice symbol row.observation.scheduledFor) price ∧
    Gave s (.getBenchmarkReturn row.observation.scheduledFor row.observation.horizon) benchmark ∧
    row = classifiedRow t price benchmark (savedRow row)

/-- A row that is saved is scheduled for an order. -/
theorem saved_for_order (h : Reachable host C s) {j : ℕ} {th : Thread Op Op.Ans Exn Out Task}
    (hth : s.threads[j]? = some th) {l l' : Log} {id : UUID} {o : OutcomeObservation}
    (hl : th.log = l ++ ⟨.tx (.saveOutcomeObservation id o), .ok ()⟩ :: l') :
    ScheduledFor s o ∧ asScheduled o = o := by
  obtain ⟨htrades, -⟩ := (issued h hth).2 l _ l' hl
  obtain ⟨parent, intent, t, hbacked, hnow, ho⟩ := (announces h hth).2 l _ l' hl htrades
  obtain ⟨htrace, hsymbol, hentry, hself⟩ := of_mem_schedule ho
  have hpre : l <+: th.log := ⟨_, hl.symm⟩
  obtain ⟨b, hb, hbtrace, hbsymbol⟩ := hbacked.order ⟨j, th, hth, hpre⟩ h
  have ht : t ≤ s.world.clock := looked h hth (hnow.prefix_of hpre)
  refine ⟨⟨b, hb, hbtrace.trans htrace.symm, hbsymbol.trans hsymbol.symm, t, ht, ?_⟩, hself⟩
  rw [hself, htrace, hsymbol, hentry]
  exact ho

theorem scheduled_for_order (h : Reachable host C s) {row : ObservationRow}
    (hrow : row ∈ s.world.db.schedule) : ScheduledFor s row.observation := by
  obtain ⟨j, th, l, l', _, hth, hl, ⟨id, o, rfl, rfl⟩, -⟩ :=
    written (R := fun db x => x ∈ db.schedule)
      (O := fun x en => ∃ id o, en = ⟨.tx (.saveOutcomeObservation id o), .ok ()⟩ ∧
        x = savedRow ⟨id, o⟩) h (fun _ => List.not_mem_nil)
      (fun w op r w' x hc hx => by
        cases hc with
        | observation id o hnew =>
          obtain ⟨row, hrow, rfl⟩ := List.mem_map.mp hx
          rcases List.mem_append.mp hrow with hold | hlast
          · exact Or.inl (List.mem_map_of_mem hold)
          · obtain rfl := List.mem_singleton.mp hlast
            exact Or.inr ⟨id, o, rfl, rfl⟩
        | observed id observedAt exitPrice returnPct benchmark label =>
          have heq : (w.db.updateOutcomeObservation id observedAt exitPrice returnPct benchmark
              label).schedule = w.db.schedule :=
            map_updateWhere (f := observedRow observedAt exitPrice returnPct benchmark label)
              savedRow_observedRow
          exact Or.inl (heq ▸ hx)
        | _ => exact Or.inl hx) hrow
  obtain ⟨hfor, hself⟩ := saved_for_order h hth hl
  show ScheduledFor s (asScheduled o)
  rw [hself]
  exact hfor

/-- A row is as it was saved, or as it was filled in last. -/
theorem row_origin (h : Reachable host C s) {row : ObservationRow}
    (hrow : row ∈ s.world.db.outcomeObservations) :
    ∃ (j : ℕ) (th : Thread Op Op.Ans Exn Out Task) (l l' : Log) (en : Entry Op Op.Ans Exn),
      s.threads[j]? = some th ∧ th.log = l ++ en :: l' ∧
      (en = ⟨.tx (.saveOutcomeObservation row.observationId row.observation), .ok ()⟩ ∨
        ∃ t exitPrice returnPct benchmark label, en = ⟨.tx (.updateOutcomeObservation
          row.observationId t exitPrice returnPct benchmark label), .ok ()⟩ ∧
          row = observedRow t exitPrice returnPct benchmark label (savedRow row)) := by
  obtain ⟨j, th, l, l', en, hth, hl, ho, -⟩ :=
    written (R := fun db x => x ∈ db.outcomeObservations)
      (O := fun x en =>
        en = ⟨.tx (.saveOutcomeObservation x.observationId x.observation), .ok ()⟩ ∨
        ∃ t exitPrice returnPct benchmark label, en = ⟨.tx (.updateOutcomeObservation x.observationId t
          exitPrice returnPct benchmark label), .ok ()⟩ ∧
          x = observedRow t exitPrice returnPct benchmark label (savedRow x))
      h (fun _ => List.not_mem_nil)
      (fun w op r w' x hc hx => by
        cases hc with
        | observation id o hnew =>
          rcases List.mem_append.mp hx with hold | hlast
          · exact Or.inl hold
          · obtain rfl := List.mem_singleton.mp hlast
            exact Or.inr (Or.inl rfl)
        | observed id t exitPrice returnPct benchmark label =>
          obtain ⟨old, hold, hnew⟩ := mem_updateWhere.mp hx
          by_cases hid : old.observationId = id
          · rw [if_pos (by simpa using hid)] at hnew
            subst hnew hid
            exact Or.inr (Or.inr ⟨t, exitPrice, returnPct, benchmark, label, rfl, rfl⟩)
          · rw [if_neg (by simpa using hid)] at hnew
            exact Or.inl (hnew ▸ hold)
        | _ => exact Or.inl hx) hrow
  exact ⟨j, th, l, l', en, hth, hl, ho⟩

/-! ## The intent of an OUTCOME job -/

/-- The intent that an outcome worker reads has an order on record. -/
theorem Looks.order {rows : List ObservationRow} {t : Time}
    (hlooks : Looks log lease parent intent rows t) (hl : Logged s log) (h : Reachable host C s) : ∃ b ∈ s.world.db.brokerOrders,
      b.traceId = parent.traceId ∧ b.symbol = intent.symbol := by
  have hheld := hlooks.holds.held hl h
  obtain ⟨envelope, hm, -, -, hsource⟩ := job_origin h hheld.job
  have hsame := Option.some.inj (hheld.message.symm.trans hm)
  have hpayload : parent.payload = envelope.payload := congrArg StageMessage.payload hsame
  have htrace : parent.traceId = envelope.traceId := congrArg StageMessage.traceId hsame
  obtain ⟨decision, hload, hintent⟩ := hlooks.decided
  rw [hpayload] at hload
  rw [htrace]
  have hstage : lease.key.stage = .outcome := hheld.stage
  rw [hstage] at hsource
  generalize hnext : some StageName.outcome = next at hsource
  cases hsource with
  | ingested => cases hnext
  | completed l lease' next availableAt status t' out hl' hc =>
    obtain ⟨j, th, hth, l', hlog⟩ := hl'
    have hsplit : th.log = l ++ ⟨.tx (.completeJobSuccess lease' (some envelope) next availableAt
        status t'), .ok out⟩ :: l' := by
      rw [← hlog, List.append_assoc]
      rfl
    have hpre : l <+: th.log := ⟨_, hsplit.symm⟩
    cases hc with
    | researched parent' _ ingested report _ hh hload' hreport he hn =>
      split_ifs at hn <;> cases hnext.trans hn
    | analysed parent' _ report snapshot output _ hh hload' hsnapshot he hn =>
      split_ifs at hn <;> cases hnext.trans hn
    | submitted l'' parent' _ intent' checks stage id hl'' hsubmits hst he hholds =>
      have htrades := Task.trades_of_stage (hholds.leased.stage h hth (hl''.trans hpre)) hst
      obtain ⟨parent₂, intent₂, checks₂, id₂, hbacked, htr, hdump⟩ :=
        (announces h hth).2 l _ l' hsplit htrades
      rw [hdump] at hload
      obtain rfl : submittedDecision intent₂ checks₂ id₂ = decision := by simpa using hload
      obtain rfl : intent₂ = intent := Option.some.inj hintent
      rw [htr]
      exact hbacked.order ⟨j, th, hth, hpre⟩ h
    | observed parent' _ rows' rows'' t'' _ hw hdue hupdated hrows he hn =>
      rw [he.payload] at hload
      cases hload
    | _ => cases hnext

/-! ## Priced observations -/

/-- The row that the worker was told is the row on record, but for what has been filled in since. -/
theorem Looks.saved {rows : List ObservationRow} {t : Time}
    (hlooks : Looks log lease parent intent rows t) (h : Reachable host C s) {j : ℕ}
    {th : Thread Op Op.Ans Exn Out Task} (hth : s.threads[j]? = some th) (hpre : log <+: th.log)
    {row row' : ObservationRow} (hrow' : row' ∈ rows) (hrow : row ∈ s.world.db.outcomeObservations)
    (hid : row'.observationId = row.observationId) :
    savedRow row' = savedRow row ∧ row'.observation.traceId = parent.traceId := by
  have hlisted : ∀ row ∈ rows, row.observation.traceId = parent.traceId ∧
      savedRow row ∈ s.world.db.schedule := looked h hth (hlooks.listed.prefix_of hpre)
  obtain ⟨htrace, hscheduled⟩ := hlisted row' hrow'
  obtain ⟨old, hold, hsame⟩ := List.mem_map.mp hscheduled
  have hid' : old.observationId = row.observationId := (savedRow_inj hsame).1.trans hid
  obtain rfl := eq_of_nodup (wellFormed h).observationId hold hrow hid'
  exact ⟨hsame.symm, htrace⟩

/-- A row that was filled in, was so with the price of a symbol that has an order of the trace. -/
theorem filled_in (h : Reachable host C s) {j : ℕ} {th : Thread Op Op.Ans Exn Out Task}
    (hth : s.threads[j]? = some th) {l l' : Log} {row : ObservationRow} {t : Time}
    {exitPrice returnPct : Decimal} {benchmark : Option Decimal} {label : Text}
    (hrow : row ∈ s.world.db.outcomeObservations)
    (hl : th.log = l ++ ⟨.tx (.updateOutcomeObservation row.observationId t exitPrice returnPct
      benchmark label), .ok ()⟩ :: l')
    (heq : row = observedRow t exitPrice returnPct benchmark label (savedRow row)) :
    ∃ b ∈ s.world.db.brokerOrders, b.traceId = row.observation.traceId ∧ FilledIn s b.symbol row := by
  obtain ⟨lease, parent, intent, rows, row', price, benchmark', hlooks, hdue, hid, hprice, hbenchmark,
    hvalues⟩ := (prices h hth).2 l _ l' hl
  have hpre : l <+: th.log := ⟨_, hl.symm⟩
  have hmem : th ∈ s.threads := List.mem_of_getElem? hth
  obtain ⟨hpending, htime⟩ := List.mem_filter.mp hdue
  obtain ⟨hsaved, htrace⟩ := hlooks.saved h hth hpre (List.mem_filter.mp hpending).1 hrow hid
  obtain ⟨-, hrowtrace, hhorizon, hfor⟩ := savedRow_inj hsaved
  have ht : t ≤ s.world.clock := looked h hth (hlooks.clock.prefix_of hpre)
  obtain ⟨b, hb, hbtrace, hbsymbol⟩ := hlooks.order ⟨j, th, hth, hpre⟩ h
  refine ⟨b, hb, hbtrace.trans (htrace.symm.trans hrowtrace), t, price, benchmark', ?_, ht,
    ⟨th, hmem, ?_⟩, ⟨th, hmem, ?_⟩, ?_⟩
  · rw [← hfor]
    simpa using htime
  · rw [hbsymbol, ← hfor]
    exact hprice.prefix_of hpre
  · rw [← hfor, ← hhorizon]
    exact hbenchmark.prefix_of hpre
  · rw [heq, ← hsaved, observedRow_savedRow, hvalues]
    rfl

/-- Every observation on record was scheduled for an order of its trace that is on record; and it is
as it was scheduled, or was filled in, when its time had come, with what `classify_outcome` makes of
the price that the provider gave for an order of the trace. -/
theorem observation_priced (h : Reachable host C s) {row : ObservationRow}
    (hrow : row ∈ s.world.db.outcomeObservations) : ScheduledFor s row.observation ∧
      (row = savedRow row ∨ ∃ b ∈ s.world.db.brokerOrders,
        b.traceId = row.observation.traceId ∧ FilledIn s b.symbol row) := by
  have hfor : ScheduledFor s (savedRow row).observation :=
    scheduled_for_order h (List.mem_map_of_mem hrow)
  refine ⟨hfor, ?_⟩
  obtain ⟨j, th, l, l', _, hth, hl, rfl | ⟨t, exitPrice, returnPct, benchmark, label, rfl, heq⟩⟩ :=
    row_origin h hrow
  · obtain ⟨-, hself⟩ := saved_for_order h hth hl
    refine Or.inl ?_
    show row = ⟨row.observationId, asScheduled row.observation⟩
    rw [hself]
  · exact Or.inr (filled_in h hth hrow hl heq)

/-- One of three observations has been made at 110, and is on record with what was made of it. -/
theorem observation_priced_observed :
    ∃ row ∈ (run (Sample.host "auto") Sample.observedEvents).world.db.outcomeObservations,
      row ≠ savedRow row ∧
      ScheduledFor (run (Sample.host "auto") Sample.observedEvents) row.observation ∧
      (row = savedRow row ∨
        ∃ b ∈ (run (Sample.host "auto") Sample.observedEvents).world.db.brokerOrders,
          b.traceId = row.observation.traceId ∧
          FilledIn (run (Sample.host "auto") Sample.observedEvents) b.symbol row) := by
  have hsome : ∃ row ∈ (run (Sample.host "auto") Sample.observedEvents).world.db.outcomeObservations,
      row ≠ savedRow row := by decide +kernel
  obtain ⟨row, hrow, hne⟩ := hsome
  exact ⟨row, hrow, hne, observation_priced (reachable_run _ _) hrow⟩

end Sentinel.Pipeline
