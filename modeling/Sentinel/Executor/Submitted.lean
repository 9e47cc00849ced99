import Sentinel.Executor.Resubmission
import Sentinel.Executor.Scheduling

/-!
# What a submission leaves behind

When the executor or the approval worker publishes its decision and saves the observations of the
trace, the order for its intent is on record, and the observations are those of the intent.

* `Intends`: the intent that a worker has read or built.
* `Obtained`: the order has been found or recorded.
* `Announces`: what the log says at the calls that publish a decision or save an observation.
* `Intends.order`: the order on record under the client order id is for the symbol of the intent.
-/

namespace Sentinel.Pipeline

open Logic Contracts PipelineDB

variable {host : Host} {cfg : PipelineConfig} {log : Log} {lease : JobLease}
  {parent : PipelineEnvelope} {intent : TradeIntent}

/-! ## Reading a log -/

/-- The intent is built from the best candidate of the report, or read from the approved decision. -/
inductive Intends (cfg : PipelineConfig) (log : Log) (parent : PipelineEnvelope) :
    TradeIntent → Prop
  | direct (lease : JobLease) (candidate : TradeCandidate) (limitPrice : Decimal)
      (h : Holds log .execution lease parent) (hbest : bestCandidate parent.payload = some candidate) :
      Intends cfg log parent (ExecutorWorker.buildIntent cfg candidate limitPrice)
  | approved (lease : JobLease) (j : JsonValue) (intent : TradeIntent)
      (h : Holds log .approval lease parent) (hget : JsonValue.get parent.payload .intent = some j)
      (hload : TradeIntent.contract.load j = some intent) : Intends cfg log parent intent

theorem Intends.prefix_of {log' : Log} (h : Intends cfg log parent intent) (hpre : log <+: log') :
    Intends cfg log' parent intent := by
  cases h with
  | direct lease candidate limitPrice h hbest =>
    exact .direct lease candidate limitPrice (h.prefix_of hpre) hbest
  | approved lease j intent h hget hload =>
    exact .approved lease j intent (h.prefix_of hpre) hget hload

/-- The order has been found on record, or recorded. -/
def Obtained (log : Log) (id : Text) : Prop :=
  (∃ row, Answered log (.tx (.getBrokerOrderByClientOrderId id)) (some row)) ∨
  ∃ record orderId, record.clientOrderId = id ∧
    Answered log (.tx (.saveBrokerOrder record)) orderId

theorem Obtained.prefix_of {log' : Log} {id : Text} (h : Obtained log id) (hpre : log <+: log') :
    Obtained log' id := by
  rcases h with ⟨row, h⟩ | ⟨record, orderId, hid, h⟩
  · exact Or.inl ⟨row, h.prefix_of hpre⟩
  · exact Or.inr ⟨record, orderId, hid, h.prefix_of hpre⟩

/-- The order for the intent has been obtained. -/
structure Backed (cfg : PipelineConfig) (log : Log) (parent : PipelineEnvelope)
    (intent : TradeIntent) : Prop where
  intends : Intends cfg log parent intent
  obtained : Obtained log (clientOrderId cfg parent intent)

/-- What the log says when a decision is published for its outcome, or an observation saved. -/
def Announces (cfg : PipelineConfig) (log : Log) : Op → Prop
  | .tx (.completeJobSuccess _ (some envelope) (some .outcome) _ _ _) => ∃ parent intent checks id,
    Backed cfg log parent intent ∧ envelope.traceId = parent.traceId ∧
      envelope.payload = ExecutionDecision.contract.dump (submittedDecision intent checks id)
  | .tx (.saveOutcomeObservation _ o) => ∃ parent intent t, Backed cfg log parent intent ∧
    Answered log (.now .schedule) t ∧
    o ∈ scheduleDefaultOutcomes parent.traceId intent.symbol intent.limitPrice t
  | _ => True

theorem announces_of {op : Op} (h : op.schedules = false) : Announces cfg log op := by
  unfold Announces
  split
  · cases h
  · cases h
  · trivial

theorem Backed.prefix_of {log' : Log} (h : Backed cfg log parent intent) (hpre : log <+: log') :
    Backed cfg log' parent intent :=
  ⟨h.intends.prefix_of hpre, h.obtained.prefix_of hpre⟩

/-! ## Rules -/

section Rules

variable {α β : Type} {p : Program α} {f : α → Program β}

/-- What a program does that schedules nothing does not depend on where it starts. -/
theorem always_unscheduled {l : Log}
    (h : Always (fun l _ => Unscheduled l) (fun l _ => Unscheduled l) p l) (log : Log) :
    Always (Announces cfg) (fun _ _ => True) p log := by
  induction p generalizing l log with
  | ret a => trivial
  | raise e => trivial
  | call op k ih =>
    refine ⟨announces_of ?_, fun r => ih r (h.2 r) _⟩
    have hafter := always_start (h.2 (.error .invalidOperation))
    exact (unscheduled_append.mp hafter).2 _ (List.mem_singleton_self _)

/-- A program that schedules nothing, whatever was done before. -/
theorem Keeps.silent (h : Keeps Unscheduled p) (log : Log) :
    Always (Announces cfg) (fun _ _ => True) p log :=
  always_unscheduled (h [] fun _ hen => absurd hen List.not_mem_nil) log

theorem Op.schedules_of_retires {op : Op} (h : op.retires = true) : op.schedules = false := by
  cases op with
  | tx t => cases t <;> first | rfl | cases h
  | _ => rfl

theorem announces_retires (l : Log) (op : Op) (hop : op.retires = true) : Announces cfg l op :=
  announces_of (Op.schedules_of_retires hop)

/-- What follows such a program starts from a longer log. -/
theorem Keeps.silent_bind (h : Keeps Unscheduled p)
    (hf : ∀ l a, log <+: l → Always (Announces cfg) (fun _ _ => True) (f a) l) :
    Always (Announces cfg) (fun _ _ => True) (p >>= f) log :=
  ((Keeps.silent h log).mono fun _ _ _ _ => trivial).bind (fun l a hl _ => hf l a hl)
    fun _ _ _ _ => trivial

/-- A worker reads the message of its job. -/
theorem always_held {Φ : Log → Op → Prop} {stage : StageName} {f : PipelineEnvelope → Program β}
    (hop : ∀ l op, op.retires = true → Φ l op) (hlease : Leased log stage lease)
    (hf : ∀ l parent, Holds l stage lease parent → Always Φ (fun _ _ => True) (f parent) l) :
    Always Φ (fun _ _ => True) (getMessage lease.messageId >>= f) log := by
  simp only [getMessage, Prog.bind_def, Prog.bind_assoc]
  refine always_perform_bind (hop _ _ rfl) (fun row => ?_) fun _ => trivial
  refine always_getD_bind (fun row' hrow => ?_) fun _ => trivial
  subst hrow
  refine always_perform_bind (hop _ _ rfl) (fun alertId => ?_) fun _ => trivial
  refine always_getD_bind (fun alertId' halert => ?_) fun _ => trivial
  subst halert
  refine hf _ _ ⟨hlease.prefix_of ?_, row', alertId', ?_, answered_last, rfl⟩
  · simp [List.append_assoc]
  · exact answered_last.prefix_of (List.prefix_append _ _)

/-- A worker leases a job, and gives it back when its step raises. -/
theorem always_attempt {Φ : Log → Op → Prop} {q : QueueSection} {stage : StageName} {workerId : Text}
    {process : JobLease → Program Bool} (hop : ∀ l op, op.retires = true → Φ l op)
    (hask : ∀ l u t, Φ l (.tx (.leaseNextJob stage workerId u t)))
    (hproc : ∀ log lease, Leased log stage lease → Always Φ (fun _ _ => True) (process lease) log) :
    Always Φ (fun _ _ => True) (processNext q stage workerId process) [] := by
  simp only [processNext, leaseNextJob, Prog.bind_def, Prog.bind_assoc]
  refine always_perform_bind (hop _ _ rfl) (fun t => ?_) fun _ => trivial
  refine always_perform_bind (hask _ _ _) (fun lease => ?_) fun _ => trivial
  cases lease with
  | none => trivial
  | some lease =>
    exact (hproc _ lease ⟨rfl, workerId, _, t, answered_last⟩).tryCatch (fun _ _ _ _ => trivial)
      fun l e _ _ => always_retires hop

end Rules

/-! ## The workers -/

namespace ExecutorWorker

theorem always_obtained {f : Text → Program Bool} {id : Text}
    (hf : ∀ l a, log <+: l → Obtained l id → Always (Announces cfg) (fun _ _ => True) (f a) l) :
    Always (Announces cfg) (fun _ _ => True) (obtainOrder parent intent id >>= f) log := by
  simp only [obtainOrder, Prog.bind_def, Prog.bind_assoc]
  refine always_perform_bind trivial (fun existing => ?_) fun _ => trivial
  cases existing with
  | some row => exact hf _ _ (List.prefix_append _ _) (Or.inl ⟨row, answered_last⟩)
  | none =>
    simp only [Prog.bind_assoc]
    refine always_perform_bind trivial (fun order => ?_) fun _ => trivial
    refine always_perform_bind (Ψ := fun _ _ => True) trivial (fun orderId => ?_) fun _ => trivial
    exact hf _ _ (by simp [List.append_assoc]) (Or.inr ⟨_, orderId, rfl, answered_last⟩)

theorem announces_scheduleOutcomes (h : Backed cfg log parent intent) :
    Always (Announces cfg) (fun _ _ => True) (scheduleOutcomes parent intent) log := by
  refine always_perform_bind trivial (fun rows => ?_) fun _ => trivial
  split
  · refine always_perform_bind trivial (fun t => ?_) fun _ => trivial
    have hnow : log <+: log ++ [⟨.tx (.listOutcomeObservations parent.traceId), .ok rows⟩] ++
        [⟨.now .schedule, .ok t⟩] := by simp [List.append_assoc]
    refine (always_saveOutcomeObservations _ (fun _ => trivial) fun l id hl o ho => ?_).bind
      (fun _ _ _ _ => trivial) fun _ _ _ _ => trivial
    exact ⟨parent, intent, t, h.prefix_of (hnow.trans hl), answered_last.prefix_of hl, ho⟩
  · trivial

theorem announces_submitOrder {checks : List RiskCheckResult} {stage : StageName}
    (h : Intends cfg log parent intent) :
    Always (Announces cfg) (fun _ _ => True) (submitOrder cfg lease parent intent checks stage)
      log := by
  refine always_obtained fun l id hl hobtained => ?_
  simp only [childEnvelope, newEnvelope, completeJobSuccess, Prog.bind_def, Prog.bind_assoc]
  refine always_perform_bind trivial (fun messageId => ?_) fun _ => trivial
  refine always_perform_bind trivial (fun createdAt => ?_) fun _ => trivial
  refine always_perform_bind trivial (fun t => ?_) fun _ => trivial
  have hbacked : Backed cfg l parent intent := ⟨h.prefix_of hl, hobtained⟩
  refine always_perform_bind (Ψ := fun _ _ => True) ⟨parent, intent, checks, id, hbacked.prefix_of
    (by simp [List.append_assoc]), rfl, rfl⟩ (fun out => ?_) fun _ => trivial
  exact announces_scheduleOutcomes (hbacked.prefix_of (by simp [List.append_assoc]))

theorem announces_process (hlease : Leased log .execution lease) :
    Always (Announces cfg) (fun _ _ => True) (process cfg lease) log := by
  refine always_held announces_retires hlease fun l parent hh => ?_
  refine always_getD_bind (fun report hload => ?_) fun _ => trivial
  split
  · exact Keeps.silent keeps_rejection _
  · next candidate rest hsorted =>
    have hbest : bestCandidate parent.payload = some candidate := by
      simp [bestCandidate, hload, hsorted]
    refine always_perform_bind trivial (fun portfolio => ?_) fun _ => trivial
    refine always_perform_bind trivial (fun breaker => ?_) fun _ => trivial
    refine always_perform_bind trivial (fun t => ?_) fun _ => trivial
    split
    · trivial
    · split_ifs
      · refine always_getD_bind (fun lastPrice _ => ?_) fun _ => trivial
        refine always_getD_bind (fun limitPrice _ => ?_) fun _ => trivial
        dsimp only
        split_ifs
        · exact Keeps.silent keeps_request _
        · refine announces_submitOrder (.direct lease candidate limitPrice (hh.prefix_of ?_) hbest)
          simp [List.append_assoc]
      · exact Keeps.silent keeps_rejection _

end ExecutorWorker

theorem ApprovalWorker.announces_process (hlease : Leased log .approval lease) :
    Always (Announces cfg) (fun _ _ => True) (process cfg lease) log := by
  refine always_held announces_retires hlease fun l parent hh => ?_
  refine always_perform_bind trivial (fun request => ?_) fun _ => trivial
  cases request with
  | none => exact Keeps.silent (keeps_deadLetterJob.bind fun _ => keeps_pure _) _
  | some request =>
    refine Keeps.silent_bind keeps_pollStatus fun l' status hl' => ?_
    cases status with
    | requested =>
      exact Keeps.silent ((keeps_unscheduled rfl).bind fun _ => keeps_completeJobRetry.bind fun _ =>
        keeps_pure _) _
    | approved =>
      refine always_getD_bind (fun j hget => ?_) fun _ => trivial
      refine always_getD_bind (fun intent hload => ?_) fun _ => trivial
      refine ExecutorWorker.announces_submitOrder (.approved lease j intent (hh.prefix_of ?_) hget hload)
      exact (List.prefix_append _ _).trans hl'
    | rejected => exact Keeps.silent keeps_ending _
    | expired => exact Keeps.silent keeps_ending _

theorem announces_body (t : Task) :
    Always (fun l op => t.trades = true → Announces host.cfg l op) (fun _ _ => True) (t.body host)
      [] := by
  have hworker : ∀ {p : Program Bool}, Always (Announces host.cfg) (fun _ _ => True) p [] →
      Always (fun l op => t.trades = true → Announces host.cfg l op) (fun _ _ => True)
        (p >>= fun b => pure (Out.processed b)) [] := fun hp =>
    (hp.mono' (fun _ _ _ hop _ => hop) fun _ _ _ _ => trivial).bind (fun _ _ _ _ => trivial)
      fun _ _ _ _ => trivial
  cases t with
  | executor workerId =>
    exact hworker (always_attempt announces_retires (fun _ _ _ => trivial) fun _ _ =>
      ExecutorWorker.announces_process)
  | approval workerId =>
    exact hworker (always_attempt announces_retires (fun _ _ _ => trivial) fun _ _ =>
      ApprovalWorker.announces_process)
  | _ => exact always_of (fun _ _ h => by cases h) fun _ _ => trivial

section Reachable

variable {C : State → PipelineEvent → Prop} {s : State}

theorem announces (h : Reachable host C s) {j : ℕ} {th : Thread Op Op.Ans Exn Out Task}
    (hth : s.threads[j]? = some th) :
    Issued (fun t l op => t.trades = true → Announces host.cfg l op) (fun _ _ _ => True) th :=
  issued_reach (M := machine host) announces_body h j th hth

/-! ## The order on record -/

/-- An order that was found is on record. -/
def FoundOrder (en : Entry Op Op.Ans Exn) (db : PipelineDB) : Prop :=
  match en with
  | ⟨.tx (.getBrokerOrderByClientOrderId id), .ok (some _)⟩ =>
    ∃ o ∈ db.brokerOrders, o.clientOrderId = id
  | _ => True

theorem Called.foundOrder {w w' : World} {op : Op} {r : Except Exn op.Ans} (h : Called w op r w') :
    FoundOrder ⟨op, r⟩ w'.db := by
  cases h with
  | asked op r hop =>
    cases op with
    | tx t => cases hop
    | _ => trivial
  | raised op e hop =>
    cases op with
    | tx t => cases t <;> trivial
    | _ => trivial
  | brokerOrder id =>
    cases hfound : w.db.brokerOrderByClientOrderId id with
    | none => trivial
    | some o =>
      exact ⟨o, List.mem_of_find?_eq_some hfound, by simpa using List.find?_some hfound⟩
  | _ => trivial

theorem foundOrder (h : Reachable host C s) {j : ℕ} {th : Thread Op Op.Ans Exn Out Task}
    (hth : s.threads[j]? = some th) {en : Entry Op Op.Ans Exn} (hen : en ∈ th.log) :
    FoundOrder en s.world.db := by
  refine fact_reach (M := machine host) (F := fun en w => FoundOrder en w.db)
    (fun _ _ _ _ _ hc => (called hc).foundOrder) (fun w op inp r w' en hc hF => ?_)
    (fun _ e _ hF => by cases e <;> exact hF) h j th hth en hen
  unfold FoundOrder at hF ⊢
  split
  · obtain ⟨o, ho, hid⟩ := hF
    exact ⟨o, (called_grows (called hc)).orders ho, hid⟩
  · trivial

theorem Obtained.order {l : Log} {id : Text} (ho : Obtained l id) (hl : Logged s l)
    (h : Reachable host C s) : ∃ o ∈ s.world.db.brokerOrders, o.clientOrderId = id := by
  rcases ho with ⟨row, hrow⟩ | ⟨record, orderId, rfl, hsaved⟩
  · obtain ⟨j, th, hth, hpre⟩ := hl
    exact foundOrder h hth (hrow.prefix_of hpre)
  · exact hl.told h hsaved

/-- The intent is for the best candidate of the message of an EXECUTION job. -/
theorem Intends.best {l : Log} (hi : Intends host.cfg l parent intent) (hl : Logged s l)
    (h : Reachable host C s) : ∃ k ∈ s.world.db.jobKeys, k.stage = .execution ∧ ∃ m candidate,
      s.world.db.findMessage k.messageId = some m ∧ bestCandidate m.payload = some candidate ∧
      candidate.candidateId = intent.candidateId ∧ candidate.symbol = intent.symbol := by
  cases hi with
  | direct lease candidate limitPrice hh hbest =>
    have hheld := hh.held hl h
    exact ⟨lease.key, hheld.job, hheld.stage, _, candidate, hheld.message, hbest, rfl, rfl⟩
  | approved lease j _ hh hget hload =>
    have hheld := hh.held hl h
    obtain ⟨envelope, hm, -, -, hqueued⟩ := job_message h hheld.job
    have heq := Option.some.inj (hheld.message.symm.trans hm)
    have hstage : lease.key.stage = .approval := hheld.stage
    rw [hstage] at hqueued
    cases hqueued with
    | awaiting l' lease' parent' candidate intent' checks approvalId hl' he hc =>
      have hpayload : parent.payload = _ := (congrArg StageMessage.payload heq).trans hc.payload
      rw [hpayload] at hget
      obtain rfl : TradeIntent.contract.dump intent' = j := Option.some.inj hget
      obtain rfl : intent' = intent := by simpa using hload
      obtain ⟨hjob, hexecution, hmessage, hbest, hid⟩ := he.job hl' h
      obtain ⟨limitPrice, rfl⟩ := he.intent
      exact ⟨lease'.key, hjob, hexecution, _, candidate, hmessage, hbest, hid, rfl⟩

/-- The order on record under the client order id is for the symbol of the intent. -/
theorem Intends.order {l : Log} (hi : Intends host.cfg l parent intent) (hl : Logged s l)
    (h : Reachable host C s) {o : BrokerOrder} (ho : o ∈ s.world.db.brokerOrders)
    (hid : o.clientOrderId = clientOrderId host.cfg parent intent) :
    o.traceId = parent.traceId ∧ o.symbol = intent.symbol := by
  obtain ⟨j, th, l', l'', lease', parent', intent', order, id, hth, -, hsubmits, hrecord, hlog, -⟩ :=
    order_origin h ho
  have hsame : clientOrderId host.cfg parent' intent' = clientOrderId host.cfg parent intent :=
    (congrArg OrderRecord.clientOrderId hrecord).symm.trans hid
  obtain ⟨htrace, hcandidate, -⟩ := buildStableOrderId_inj.mp hsame
  obtain ⟨l₀, lease₀, parent₀, candidate₀, hl₀, he₀, -, -⟩ :=
    hsubmits.evaluated ⟨j, th, hth, ⟨l'', hlog.symm⟩⟩ h
  obtain ⟨hjob₀, hstage₀, hm₀, hbest₀, hid₀⟩ := he₀.job hl₀ h
  obtain ⟨k, hk, hstage, m, candidate, hm, hbest, hcid, hsymbol⟩ := hi.best hl h
  have hmessage := candidate_unique h hk hjob₀ hstage hstage₀ hm hm₀ hbest hbest₀
    (hcid.trans (hcandidate.symm.trans hid₀.symm))
  rw [hmessage] at hm
  obtain rfl := Option.some.inj (hm.symm.trans hm₀)
  obtain rfl := Option.some.inj (hbest.symm.trans hbest₀)
  obtain ⟨limitPrice, rfl⟩ := he₀.intent
  exact ⟨(congrArg OrderRecord.traceId hrecord).trans htrace,
    (congrArg OrderRecord.symbol hrecord).trans hsymbol⟩

/-- Whoever reports an order has it on record. -/
theorem Backed.order {l : Log} (hb : Backed host.cfg l parent intent) (hl : Logged s l)
    (h : Reachable host C s) : ∃ o ∈ s.world.db.brokerOrders,
      o.traceId = parent.traceId ∧ o.symbol = intent.symbol := by
  obtain ⟨o, ho, hid⟩ := hb.obtained.order hl h
  exact ⟨o, ho, hb.intends.order hl h ho hid⟩

end Reachable

end Sentinel.Pipeline
