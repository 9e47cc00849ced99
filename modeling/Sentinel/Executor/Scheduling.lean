import Sentinel.Pipeline.Endings

/-!
# How an order comes by its observations

The executor and the approval worker list the observations of a trace only after they have published
an OUTCOME job of it, save some only after the list was empty, and end with all of them saved unless
there were some.
-/

namespace Sentinel.Pipeline

open Logic Contracts

variable {host : Host} {cfg : PipelineConfig} {log : Log} {lease : JobLease}
  {parent : PipelineEnvelope}

/-! ## Reading a log -/

/-- The calls that publish an OUTCOME job, and those that list or save observations. -/
def Op.schedules : Op → Bool
  | .tx t =>
    match t with
    | .completeJobSuccess _ _ next _ _ _ => next = some .outcome
    | .listOutcomeObservations _ | .saveOutcomeObservation .. => true
    | _ => false
  | _ => false

/-- No OUTCOME job has been published in the log, and no observations listed or saved. -/
def Unscheduled (log : Log) : Prop := ∀ en ∈ log, en.op.schedules = false

theorem unscheduled_append {log' : Log} :
    Unscheduled (log ++ log') ↔ Unscheduled log ∧ Unscheduled log' := by
  simp [Unscheduled, or_imp, forall_and]

theorem Op.publishes_eq_none {op : Op} (h : op.schedules = false) : op.publishes .outcome = none := by
  unfold Op.publishes
  split
  · next next _ _ _ =>
    refine if_neg fun heq => ?_
    rw [heq] at h
    cases h
  · rfl

theorem published_append {stage : StageName} {log' : Log} :
    published stage (log ++ log') = published stage log ++ published stage log' :=
  List.filterMap_append

theorem published_of_unscheduled (h : Unscheduled log) : published .outcome log = [] := by
  refine List.filterMap_eq_nil_iff.mpr fun ⟨op, r⟩ hen => ?_
  cases r with
  | error e => rfl
  | ok a => exact Op.publishes_eq_none (h _ hen)

/-- What the log says before the calls with which observations are scheduled. -/
def Scheduling (log : Log) : Op → Prop
  | .tx (.listOutcomeObservations traceId) =>
    ∃ envelope ∈ published .outcome log, envelope.traceId = traceId
  | .tx (.saveOutcomeObservation _ o) => Answered log (.tx (.listOutcomeObservations o.traceId)) []
  | _ => True

/-- A trace of which an OUTCOME job was published has its observations. -/
def Covered (log : Log) : Prop := ∀ envelope ∈ published .outcome log,
  Scheduled log envelope.traceId ∨ ∃ rows, rows ≠ [] ∧
    Answered log (.tx (.listOutcomeObservations envelope.traceId)) rows

theorem covered_of_unscheduled (h : Unscheduled log) : Covered log := by
  intro envelope henvelope
  rw [published_of_unscheduled h] at henvelope
  cases henvelope

/-! ## Programs that schedule nothing -/

theorem scheduling_of {op : Op} (h : op.schedules = false) : Scheduling log op := by
  unfold Scheduling
  split
  · cases h
  · cases h
  · trivial

theorem unscheduled_concat {en : Entry Op Op.Ans Exn} (h : Unscheduled log)
    (hen : en.op.schedules = false) : Unscheduled (log ++ [en]) := by
  refine unscheduled_append.mpr ⟨h, fun en' hen' => ?_⟩
  rw [List.mem_singleton.mp hen']
  exact hen

instance steady_unscheduled : Steady Unscheduled where
  append log op r hop h := by
    refine unscheduled_concat h ?_
    cases op with
    | tx t => cases t <;> first | rfl | cases hop
    | _ => rfl

theorem keeps_unscheduled {op : Op} (hop : op.schedules = false) :
    Keeps Unscheduled (Prog.perform op : Program op.Ans) :=
  keeps_perform fun _ _ h => unscheduled_concat h hop

/-- What holds before each call of a program holds at its start. -/
theorem always_start {I : Log → Prop} {α : Type} {p : Program α}
    (h : Always (fun l _ => I l) (fun l _ => I l) p log) : I log := by
  cases p with
  | ret a => exact h
  | raise e => exact h
  | call op k => exact h.1

theorem always_scheduling {α : Type} {p : Program α}
    (h : Always (fun l _ => Unscheduled l) (fun l _ => Unscheduled l) p log) :
    Always Scheduling (fun l _ => Unscheduled l) p log := by
  induction p generalizing log with
  | ret a => exact h
  | raise e => exact h
  | call op k ih =>
    refine ⟨scheduling_of ?_, fun r => ih r (h.2 r)⟩
    have hafter := always_start (h.2 (.error .invalidOperation))
    exact (unscheduled_append.mp hafter).2 _ (List.mem_singleton_self _)

/-! ## Programs that may submit an order -/

/-- What such a program ends with. -/
def Ends {α : Type} (log : Log) : Except Exn α → Prop
  | .ok _ => Covered log
  | .error _ => Unscheduled log

/-- Begun before anything was scheduled, the program schedules the observations of its trace. -/
def Schedules {α : Type} (p : Program α) : Prop :=
  ∀ log, Unscheduled log → Always Scheduling (Clean Ends) p log

section Rules

variable {α β : Type} {p : Program α} {f : α → Program β}

theorem Schedules.of_keeps (hp : Keeps Unscheduled p) : Schedules p := by
  refine fun log hlog => (always_scheduling (hp log hlog)).mono fun l r _ h _ => ?_
  cases r with
  | ok a => exact covered_of_unscheduled h
  | error e => exact h

theorem Schedules.after (hp : Keeps Unscheduled p) (hf : ∀ a, Schedules (f a)) :
    Schedules (p >>= f) :=
  fun log hlog => (always_scheduling (hp log hlog)).bind (fun l a _ hl => hf a l hl)
    fun _ _ _ hl _ => hl

/-- A handler that schedules nothing. -/
theorem Schedules.tryCatch {h : Exn → Program α} (hp : Schedules p)
    (hh : ∀ e, Keeps Unscheduled (h e))
    (hquiet : ∀ e l, Always Scheduling (fun _ _ => True) (h e) l) (hlog : Unscheduled log) :
    Always Scheduling (Clean fun l _ => Covered l) (p.tryCatch h) log := by
  refine (hp log hlog).tryCatch (fun l a _ hl => hl) fun l e _ hl => ?_
  by_cases hclean : NoRaise l
  · exact (always_scheduling (hh e l (hl hclean))).mono fun l' r _ h _ => covered_of_unscheduled h
  · exact (hquiet e l).mono fun l' r hpre _ h => absurd (h.prefix_of hpre) hclean

end Rules

theorem keeps_completion {output : Option PipelineEnvelope} {next : Option StageName}
    {availableAt : Option Time} {status : String} (hnext : next ≠ some .outcome) :
    Keeps Unscheduled (completeJobSuccess lease output next availableAt status) :=
  (keeps_unscheduled rfl).bind fun _ => keeps_unscheduled (decide_eq_false hnext)

theorem keeps_deadLetterJob {reason : Text} : Keeps Unscheduled (deadLetterJob lease reason) :=
  (keeps_unscheduled rfl).bind fun _ => (keeps_getMessage _).bind fun _ => keeps_unscheduled rfl

theorem keeps_completeJobRetry {error : Text} {delaySec maxAttempts : ℤ} :
    Keeps Unscheduled (completeJobRetry lease error delaySec maxAttempts) := by
  unfold completeJobRetry
  split_ifs
  · exact keeps_deadLetterJob
  · exact (keeps_unscheduled rfl).bind fun _ => keeps_unscheduled rfl

/-! ## The workers -/

namespace ExecutorWorker

variable {intent : TradeIntent} {checks : List RiskCheckResult}

theorem always_observations {envelope : PipelineEnvelope}
    (hpublished : published .outcome log = [envelope]) (htrace : envelope.traceId = parent.traceId) :
    Always Scheduling (Clean Ends) (scheduleOutcomes parent intent) log := by
  refine always_op ⟨envelope, by simp [hpublished], htrace⟩ fun rows => ?_
  have hlisted : published .outcome (log ++
      [⟨.tx (.listOutcomeObservations parent.traceId), .ok rows⟩]) = [envelope] := by
    rw [published_append, hpublished]
    rfl
  split
  · next hempty =>
    obtain rfl := List.isEmpty_iff.mp hempty
    refine always_op trivial fun t => ?_
    have hnow : published .outcome (log ++
        [⟨.tx (.listOutcomeObservations parent.traceId), .ok []⟩] ++ [⟨.now .schedule, .ok t⟩]) =
        [envelope] := by
      rw [published_append, hlisted]
      rfl
    refine (always_saveOutcomeObservations _ (fun _ => trivial) fun l id hl o ho => ?_).returns
      fun l _ hl ⟨hsaved, hother⟩ _ envelope' henvelope' => ?_
    · show Answered l (.tx (.listOutcomeObservations o.traceId)) []
      rw [(of_mem_scheduleDefaultOutcomes ho).1]
      exact (answered_last.prefix_of (List.prefix_append _ _)).prefix_of hl
    · -- nothing was published while the observations were saved
      obtain ⟨lease', availableAt, status, t', out, hanswer⟩ := mem_published henvelope'
      rcases hother _ hanswer with hold | huuid | ⟨id, o, -, hsave⟩
      · have hmem : envelope' ∈ published .outcome (log ++ _ ++ _) :=
          List.mem_filterMap.mpr ⟨_, hold, by simp [Op.publishes]⟩
        rw [hnow] at hmem
        obtain rfl := List.mem_singleton.mp hmem
        rw [htrace]
        exact Or.inl (scheduled_of_saved hsaved)
      · cases huuid
      · cases hsave
  · next hne =>
    intro _ envelope' henvelope'
    rw [hlisted] at henvelope'
    obtain rfl := List.mem_singleton.mp henvelope'
    rw [htrace]
    exact Or.inr ⟨rows, by simpa using hne, answered_last⟩

/-- The end of a submission. -/
theorem always_published {envelope : PipelineEnvelope} {status : String} (hlog : Unscheduled log)
    (htrace : envelope.traceId = parent.traceId) :
    Always Scheduling (Clean Ends) (completeJobSuccess lease (some envelope) (some .outcome) none status
      >>= fun _ => scheduleOutcomes parent intent) log := by
  simp only [completeJobSuccess, Prog.bind_def, Prog.bind_assoc]
  refine always_op trivial fun t => always_op trivial fun out => always_observations ?_ htrace
  rw [published_append, published_append, published_of_unscheduled hlog]
  rfl

theorem schedules_submitOrder {stage : StageName} :
    Schedules (submitOrder cfg lease parent intent checks stage) := by
  refine Schedules.after keeps_obtainOrder fun id log hlog => ?_
  simp only [childEnvelope, newEnvelope, Prog.bind_def, Prog.bind_assoc]
  refine always_op trivial fun messageId => always_op trivial fun createdAt => ?_
  exact always_published (unscheduled_concat (unscheduled_concat hlog rfl) rfl) rfl

theorem keeps_rejection {selected : Option UUID} {summary : String} :
    Keeps Unscheduled (rejectRisk cfg lease parent selected checks summary) :=
  keeps_newEnvelope.bind fun _ => (keeps_completion (by decide)).bind fun _ => keeps_pure _

theorem keeps_request : Keeps Unscheduled (requestApproval cfg lease parent intent checks) := by
  refine keeps_newEnvelope.bind fun preview => Keeps.bind ?_ fun request =>
    (keeps_completion (by decide)).bind fun _ => keeps_pure _
  refine (keeps_unscheduled rfl).bind fun _ => (keeps_unscheduled rfl).bind fun _ => ?_
  exact keeps_createApprovalRequest.bind fun _ => keeps_pure _

theorem schedules_process : Schedules (process cfg lease) := by
  refine Schedules.after (keeps_getMessage _) fun parent => Schedules.after keeps_getD fun report => ?_
  split
  · exact .of_keeps keeps_rejection
  · refine Schedules.after (keeps_unscheduled rfl) fun portfolio => ?_
    refine Schedules.after (keeps_unscheduled rfl) fun breaker => ?_
    refine Schedules.after (keeps_unscheduled rfl) fun t => ?_
    split
    · exact .of_keeps (keeps_raise _)
    · split_ifs
      · refine Schedules.after keeps_getD fun _ => Schedules.after keeps_getD fun _ => ?_
        dsimp only
        split_ifs
        · exact .of_keeps keeps_request
        · exact schedules_submitOrder
      · exact .of_keeps keeps_rejection

end ExecutorWorker

namespace ApprovalWorker

theorem keeps_ending {status : ApprovalStatus} :
    Keeps Unscheduled (endApproval lease parent status) :=
  keeps_intentIfAny.bind fun _ => keeps_selectedCandidate.bind fun _ =>
    keeps_newEnvelope.bind fun _ => (keeps_completion (by decide)).bind fun _ => keeps_pure _

theorem schedules_process : Schedules (process cfg lease) := by
  refine Schedules.after (keeps_getMessage _) fun parent => ?_
  refine Schedules.after (keeps_unscheduled rfl) fun request => ?_
  cases request with
  | none => exact .of_keeps (keeps_deadLetterJob.bind fun _ => keeps_pure _)
  | some request =>
    refine Schedules.after keeps_pollStatus fun status => ?_
    cases status with
    | requested =>
      exact .of_keeps ((keeps_unscheduled rfl).bind fun _ => keeps_completeJobRetry.bind fun _ =>
        keeps_pure _)
    | approved =>
      exact Schedules.after keeps_getD fun _ => Schedules.after keeps_getD fun _ =>
        ExecutorWorker.schedules_submitOrder
    | rejected => exact .of_keeps keeps_ending
    | expired => exact .of_keeps keeps_ending

end ApprovalWorker

theorem always_scheduled {q : QueueSection} {stage : StageName} {workerId : Text}
    {process : JobLease → Program Bool} (h : ∀ lease, Schedules (process lease)) :
    Always Scheduling (Clean fun l _ => Covered l) (processNext q stage workerId process) [] := by
  have hempty : Unscheduled [] := fun _ hen => absurd hen List.not_mem_nil
  refine (always_scheduling (keeps_leaseNextJob [] hempty)).bind (fun l lease _ hl => ?_)
    fun l e _ hl _ => covered_of_unscheduled hl
  cases lease with
  | none => exact fun _ => covered_of_unscheduled hl
  | some lease =>
    refine (h lease).tryCatch (fun e => keeps_completeJobRetry.bind fun _ => keeps_pure _)
      (fun e l => always_retires fun l op hop => scheduling_of ?_) hl
    cases op with
    | tx t => cases t <;> first | rfl | cases hop
    | _ => rfl

/-- The tasks that may submit orders schedule the observations. -/
theorem scheduling_body (t : Task) :
    Always (fun l op => t.trades = true → Scheduling l op)
      (fun l _ => t.trades = true → NoRaise l → Covered l) (t.body host) [] := by
  have hworker : ∀ {p : Program Bool}, Always Scheduling (Clean fun l _ => Covered l) p [] →
      Always (fun l op => t.trades = true → Scheduling l op)
        (fun l _ => t.trades = true → NoRaise l → Covered l)
        (p >>= fun b => pure (Out.processed b)) [] := by
    intro p h
    have h' : Always (fun l op => t.trades = true → Scheduling l op) (Clean fun l _ => Covered l) p [] :=
      h.mono' (fun _ _ _ hop _ => hop) fun _ _ _ hl => hl
    exact h'.bind (fun _ _ _ hl _ => hl) fun _ _ _ hl _ => hl
  cases t with
  | executor workerId => exact hworker (always_scheduled fun _ => ExecutorWorker.schedules_process)
  | approval workerId => exact hworker (always_scheduled fun _ => ApprovalWorker.schedules_process)
  | _ => exact always_of (fun _ _ h => nomatch h) fun _ _ h => nomatch h

theorem scheduled {C : State → PipelineEvent → Prop} {s : State} (h : Reachable host C s) {j : ℕ}
    {th : Thread Op Op.Ans Exn Out Task} (hth : s.threads[j]? = some th) :
    Issued (fun t l op => t.trades = true → Scheduling l op)
      (fun t l _ => t.trades = true → NoRaise l → Covered l) th :=
  issued_reach (M := machine host) scheduling_body h j th hth

end Sentinel.Pipeline
