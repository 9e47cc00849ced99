import Sentinel.Executor.Approvals
import Sentinel.Pipeline.Stranded
import Sentinel.Pipeline.Tenure

/-!
# When a decision is acted on

A poll that finds a request open puts its job off by a delay it computes from the expiry, and a
decision changes the request only.  So the job of a decided request can be leased from the decision
on exactly if no poll before has put it off beyond, and none puts it off afterwards.
-/

namespace Sentinel.Pipeline

open Logic Contracts PipelineDB

variable {host : Host} {C : State → PipelineEvent → Prop} {s : State}

/-! ## The job of a request -/

/-- The job is the APPROVAL job of the message, neither finished nor leased. -/
def StageJob.pends (j : StageJob) (messageId : UUID) : Bool :=
  j.stage = .approval && j.messageId = messageId && j.waits

/-- The call returns a lease for the job or for one ordered before it. -/
def Leases (w : World) (j : StageJob) (c : LeaseCall) : Prop :=
  ∃ row ∈ w.db.stageJobs, row.before j = true ∧ ∃ lease w',
    w.runTx c.tie (.leaseNextJob j.stage c.workerId c.leasedUntil c.now) = (.ok (some lease), w') ∧
      lease.jobId = row.jobId

/-- From `d` on the pending job of the message is among the jobs of every lease call. -/
def LeasableFrom (w : World) (messageId : UUID) (d : Time) : Prop :=
  ∀ j ∈ w.db.stageJobs, j.pends messageId = true → ∀ c : LeaseCall, d ≤ c.now →
    j.ready .approval c.now = true ∧ Leases w j c

/-- The pending job of the message is due at `d`. -/
def DueBy (db : PipelineDB) (messageId : UUID) (d : Time) : Prop :=
  ∀ j ∈ db.stageJobs, j.pends messageId = true → j.availableAt ≤ d

instance (db : PipelineDB) (messageId : UUID) (d : Time) : Decidable (DueBy db messageId d) :=
  inferInstanceAs (Decidable (∀ _ ∈ _, _ → _))

theorem StageJob.pends_iff {j : StageJob} {messageId : UUID} : j.pends messageId = true ↔
    j.stage = .approval ∧ j.messageId = messageId ∧ j.waits = true := by
  simp [StageJob.pends, and_assoc]

theorem leases_of_ready {w : World} (hw : RunsBelow w) {j : StageJob} (hj : j ∈ w.db.stageJobs)
    {c : LeaseCall} (hready : j.ready j.stage c.now = true) : Leases w j c := by
  obtain ⟨row, hrow, lease, w', hrun, hid, -, -⟩ := runTx_lease hw (leasable_ne_nil hj hready)
  obtain ⟨⟨hmem, -⟩, hfirst⟩ := mem_leasable.mp hrow
  exact ⟨row, hmem, hfirst j hj hready, lease, w', hrun, hid⟩

theorem leasableFrom_iff {w : World} (hw : RunsBelow w) {messageId : UUID} {d : Time} :
    LeasableFrom w messageId d ↔ DueBy w.db messageId d := by
  constructor
  · intro h j hj hpends
    obtain ⟨hready, -⟩ := h j hj hpends ⟨0, [], 0, d⟩ le_rfl
    simp only [StageJob.ready, Bool.and_eq_true, decide_eq_true_eq] at hready
    exact hready.2
  · intro h j hj hpends c hc
    have hdue := h j hj hpends
    obtain ⟨hstage, -, hwaits⟩ := StageJob.pends_iff.mp hpends
    have hready : j.ready .approval c.now = true := by
      simp only [StageJob.waits] at hwaits
      simp [StageJob.ready, hstage, hwaits, hdue.trans hc]
    exact ⟨hready, leases_of_ready hw hj (hstage ▸ hready)⟩

/-! ## Steps -/

/-- The call leaves no job of the message pending beyond `d`: it reschedules the job to a time up
to `d`, or queues it, as the first job of a new message, not after `d`. -/
def KeepsDue (w : World) (messageId : UUID) (d : Time) : Op → Prop
  | .tx (.completeJobRetry lease _ availableAt _) => ∀ j ∈ w.db.stageJobs, j.jobId = lease.jobId →
    j.stage = .approval → j.messageId = messageId → availableAt ≤ d
  | .tx (.completeJobSuccess _ (some envelope) (some stage) availableAt _ _) => stage = .approval →
    envelope.messageId = messageId →
    (∀ m ∈ w.db.stageMessages, m.idempotencyKey ≠ envelope.idempotencyKey) →
    (∀ j ∈ w.db.stageJobs, j.stage = .approval → j.messageId ≠ messageId) →
    availableAt.getD w.clock ≤ d
  | _ => True

/-- What a committing step does keeps the job due. -/
def Prompt (messageId : UUID) (d : Time) (s : State) : PipelineEvent → Prop
  | .act i inp => ∀ op ∈ nextCall s i, Commits s.world op inp → KeepsDue s.world messageId d op
  | _ => True

section Called

variable {w : World} {messageId : UUID} {d : Time}

theorem dueBy_of_jobs {db db' : PipelineDB} (h : db'.stageJobs = db.stageJobs) :
    DueBy db' messageId d ↔ DueBy db messageId d := by
  unfold DueBy
  rw [h]

/-- The update of the rows of a job, seen from a message. -/
theorem dueBy_updateWhere {jobs : List StageJob} {db : PipelineDB} {jobId : UUID}
    {f : StageJob → StageJob}
    (hjobs : db.stageJobs = updateWhere (fun j => j.jobId = jobId) f jobs) :
    DueBy db messageId d ↔
      (∀ j ∈ jobs, j.jobId ≠ jobId → j.pends messageId = true → j.availableAt ≤ d) ∧
      ∀ j ∈ jobs, j.jobId = jobId → (f j).pends messageId = true → (f j).availableAt ≤ d := by
  constructor
  · intro h
    refine ⟨fun j hj hid => ?_, fun j hj hid => ?_⟩
    · refine h j ?_
      have hmem := mem_updateWhere_of_mem (p := fun j => j.jobId = jobId) (f := f) hj
      rw [if_neg (by simpa using hid)] at hmem
      rwa [hjobs]
    · refine h (f j) ?_
      have hmem := mem_updateWhere_of_mem (p := fun j => j.jobId = jobId) (f := f) hj
      rw [if_pos (by simpa using hid)] at hmem
      rwa [hjobs]
  · rintro ⟨hother, hsame⟩ j' hj' hpends
    rw [hjobs] at hj'
    obtain ⟨j, hj, ⟨hid, rfl⟩ | ⟨hid, rfl⟩⟩ := mem_update_job hj'
    · exact hother _ hj hid hpends
    · exact hsame j hj hid hpends

/-- An update that leaves no row of the job pending. -/
theorem dueBy_ended {jobs : List StageJob} {db : PipelineDB} {jobId : UUID}
    {f : StageJob → StageJob} (hf : ∀ j, (f j).waits = false)
    (hjobs : db.stageJobs = updateWhere (fun j => j.jobId = jobId) f jobs) :
    DueBy db messageId d ↔
      ∀ j ∈ jobs, j.jobId ≠ jobId → j.pends messageId = true → j.availableAt ≤ d := by
  rw [dueBy_updateWhere hjobs]
  refine and_iff_left fun j _ _ hpends => ?_
  rw [StageJob.pends_iff, hf j] at hpends
  cases hpends.2.2

/-- A call of a reachable state keeps the pending job of a message due exactly if it satisfies the
condition. -/
theorem dueBy_called {w' : World} {op : Op} {a : op.Ans} (h : Called w op (.ok a) w')
    (hstage : ∀ traceId stage id priority, op = .tx (.enqueueJob traceId stage id priority) →
      stage ≠ .approval)
    (hlease : ∀ lease, op.endsLease = some lease → ∃ j ∈ w.db.stageJobs, j.jobId = lease.jobId)
    (hdue : DueBy w.db messageId d) : DueBy w'.db messageId d ↔ KeepsDue w messageId d op := by
  generalize hr : (Except.ok a : Except Exn op.Ans) = r at h
  cases h with
  | raised => cases hr
  | jobNew traceId stage id priority hnew =>
    refine iff_of_true (fun j hj hpends => ?_) trivial
    rcases List.mem_append.mp hj with hj | hj
    · exact hdue j hj hpends
    · obtain rfl := List.mem_singleton.mp hj
      obtain ⟨happroval, -, -⟩ := StageJob.pends_iff.mp hpends
      exact absurd happroval (hstage _ _ _ _ rfl)
  | leased stage workerId leasedUntil now row hrow hnew =>
    refine iff_of_true ?_ trivial
    rw [dueBy_ended (f := leasedRow row workerId leasedUntil) (fun _ => rfl) rfl]
    exact fun j hj _ => hdue j hj
  | deadLettered lease reason payload now =>
    refine iff_of_true ?_ trivial
    rw [dueBy_ended (f := finishedRow .deadLetter none (some reason)) (fun _ => rfl) rfl]
    exact fun j hj _ => hdue j hj
  | retried lease error availableAt now =>
    rw [dueBy_updateWhere (f := finishedRow .retryWait (some availableAt) (some error)) rfl]
    rw [and_iff_right fun j hj _ => hdue j hj]
    refine forall_congr' fun j => forall_congr' fun hj => forall_congr' fun hid => ?_
    constructor
    · exact fun h happroval hmessage => h (StageJob.pends_iff.mpr ⟨happroval, hmessage, rfl⟩)
    · intro h hpends
      obtain ⟨happroval, hmessage, -⟩ := StageJob.pends_iff.mp hpends
      exact h happroval hmessage
  | completed lease output nextStage availableAt status now out ms js ts hts hcase =>
    rw [dueBy_ended (f := finishedRow .succeeded none none) (fun _ => rfl) rfl]
    have hold : js = w.db.stageJobs →
        ∀ j ∈ js, j.jobId ≠ lease.jobId → j.pends messageId = true → j.availableAt ≤ d := by
      rintro rfl j hj - hpends
      exact hdue j hj hpends
    rcases hcase with ⟨-, hjs, ⟨rfl, -⟩ | ⟨envelope, rfl, m, hm, hkey, -⟩⟩ |
      ⟨envelope, rfl, -, hnew, -, ⟨rfl, hjs⟩ | ⟨stage, rfl, ⟨⟨j, hj, hjstage, hjid⟩, hjs⟩ |
        ⟨hjob, rfl⟩⟩⟩
    · exact iff_of_true (hold hjs) trivial
    · refine iff_of_true (hold hjs) ?_
      cases nextStage with
      | none => trivial
      | some stage => exact fun _ _ hkeys => absurd hkey (hkeys m hm)
    · exact iff_of_true (hold hjs) trivial
    · refine iff_of_true (hold hjs) ?_
      rintro rfl rfl - hjobs
      exact absurd hjid (hjobs j hj hjstage)
    · obtain ⟨row, hrow, hid⟩ := hlease lease rfl
      have hfresh : w.nextId ≠ lease.jobId := fun heq => hjob.id row hrow (hid.trans heq.symm)
      constructor
      · rintro h rfl rfl - -
        exact h _ (List.mem_append_right _ (List.mem_singleton.mpr rfl)) hfresh
          (StageJob.pends_iff.mpr ⟨rfl, rfl, rfl⟩)
      · intro h j hj _ hpends
        rcases List.mem_append.mp hj with hj | hj
        · exact hdue j hj hpends
        · obtain rfl := List.mem_singleton.mp hj
          obtain ⟨happroval, hmessage, -⟩ := StageJob.pends_iff.mp hpends
          obtain rfl : stage = .approval := happroval
          obtain rfl : envelope.messageId = messageId := hmessage
          exact h rfl rfl hnew.key hjob.key
  | asked op r hop =>
    refine iff_of_true hdue ?_
    cases op with
    | tx t => cases hop
    | _ => trivial
  | _ => exact iff_of_true hdue trivial

end Called

/-! ## Runs -/

theorem called_error_db {w w' : World} {op : Op} {e : Exn} (h : Called w op (.error e) w') :
    w'.db = w.db := by
  generalize hr : (Except.error e : Except Exn op.Ans) = r at h
  cases h with
  | raised | asked | placed => rfl
  | _ => cases hr

/-- `Machine.act_cases` in terms of the next call. -/
theorem act_cases (host : Host) (s : State) (i : ℕ) (inp : Input) :
    ((machine host).step s (.act i inp) = s ∧
        ∀ op ∈ nextCall s i, s.world.call op inp = none) ∨
    ∃ t log op k r w', s.threads[i]? = some ⟨t, log, .call op k, true⟩ ∧
      s.world.call op inp = some (r, w') ∧ ((machine host).step s (.act i inp)).world = w' := by
  rcases (machine host).act_cases s i inp with
    ⟨hidle, hnone⟩ | ⟨t, log, op, k, r, w', hth, hcall, hstep⟩
  · refine Or.inl ⟨hidle, fun op hop => ?_⟩
    obtain ⟨th, hth, hnext⟩ := Option.bind_eq_some_iff.mp hop
    exact hnone th hth op hnext
  · exact Or.inr ⟨t, log, op, k, r, w', hth, hcall, by rw [hstep]⟩

/-- Who ends a job has leased it, so it is in the table. -/
theorem exists_job_of_ends (h : Reachable host C s) {i : ℕ} {t : Task} {log : Log} {op : Op}
    {k : Except Exn op.Ans → Program Out} (hth : s.threads[i]? = some ⟨t, log, .call op k, true⟩)
    {lease : JobLease} (hends : op.endsLease = some lease) :
    ∃ j ∈ s.world.db.stageJobs, j.jobId = lease.jobId := by
  have horderly : Orderly log op :=
    (issued_reach (M := machine host) (Ψ := fun _ _ _ => True) orderly_body h i _ hth).next rfl
  have hledger := ledger h
  obtain ⟨hl, -⟩ := horderly.ends lease hends
  obtain ⟨r, hr, hjob, -, -⟩ := (hledger.tenure i _ hth lease hl).run
  obtain ⟨-, j, hj, hid⟩ := hledger.book.run r hr
  exact ⟨j, hj, hid.trans hjob⟩

theorem dueBy_step (h : Reachable host C s) {messageId : UUID} {d : Time} (e : PipelineEvent)
    (hdue : DueBy s.world.db messageId d) :
    DueBy ((machine host).step s e).world.db messageId d ↔ Prompt messageId d s e := by
  cases e with
  | start t => exact iff_of_true hdue trivial
  | env e => cases e <;> exact iff_of_true hdue trivial
  | crash i =>
    refine iff_of_true ?_ trivial
    have hm := moved (machine host) s (.crash i)
    generalize (machine host).step s (.crash i) = s' at hm ⊢
    cases hm <;> exact hdue
  | act i inp =>
    rcases act_cases host s i inp with
      ⟨hidle, hnone⟩ | ⟨t, log, op, k, r, w', hth, hcall, hstep⟩
    · rw [hidle]
      refine iff_of_true hdue fun op hop ⟨a, w', hcall⟩ => ?_
      rw [hnone op hop] at hcall
      cases hcall
    · rw [hstep]
      have hcalled := called hcall
      cases r with
      | error e =>
        refine iff_of_true ((dueBy_of_jobs (by rw [called_error_db hcalled])).mpr hdue) ?_
        intro op' hop ⟨a, w'', hcommit⟩
        obtain rfl := Option.some.inj ((nextCall_eq hth).symm.trans hop)
        rw [hcall] at hcommit
        cases hcommit
      | ok a =>
        have hissues : Issues host.cfg t log op := (issued h hth).next rfl
        rw [dueBy_called hcalled ?_ (fun lease => exists_job_of_ends h hth) hdue]
        · constructor
          · intro hkeeps op' hop _
            obtain rfl := Option.some.inj ((nextCall_eq hth).symm.trans hop)
            exact hkeeps
          · exact fun hprompt => hprompt op (nextCall_eq hth) ⟨a, w', hcall⟩
        · rintro traceId stage id priority rfl
          obtain ⟨alertId, envelope, -, -, rfl, -⟩ := hissues
          decide

/-- The `i`-th thread takes the request out of `requested` at `d`. -/
structure Decides (s : State) (i : ℕ) (inp : Input) (r : ApprovalRequest) (d : Time) : Prop where
  row : r ∈ s.world.db.approvalRequests
  opened : r.status = .requested
  call : ∃ status approverId reason,
    nextCall s i = some (.tx (.decideApproval r.callbackToken status approverId reason d)) ∧
      status ≠ .requested ∧
      Commits s.world (.tx (.decideApproval r.callbackToken status approverId reason d)) inp

/-- After a decision at `d`, in a run that goes on with any events: the pending job of the request
can be leased from `d` on in every state of the run exactly if it was due when the decision came and
no step of the run puts it off beyond `d`. -/
theorem decision_acted_on (h : Reachable host Any s) {i : ℕ} {inp : Input} {r : ApprovalRequest}
    {d : Time} (hdecides : Decides s i inp r d) (es : List PipelineEvent) :
    (∀ es', es' <+: es → LeasableFrom
      (es'.foldl (machine host).step ((machine host).step s (.act i inp))).world r.messageId d) ↔
    DueBy s.world.db r.messageId d ∧ ∀ es' e, es' ++ [e] <+: es → Prompt r.messageId d
      (es'.foldl (machine host).step ((machine host).step s (.act i inp))) e := by
  obtain ⟨status, approverId, reason, hnext, -, a, w', hcall⟩ := hdecides.call
  have hdecided : DueBy ((machine host).step s (.act i inp)).world.db r.messageId d ↔
      DueBy s.world.db r.messageId d := by
    refine dueBy_of_jobs ?_
    rcases act_cases host s i inp with
      ⟨-, hnone⟩ | ⟨t, log, op, k, a', w'', hth, hcall', hstep⟩
    · rw [hnone _ hnext] at hcall
      cases hcall
    · obtain rfl := Option.some.inj ((nextCall_eq hth).symm.trans hnext)
      rw [hcall] at hcall'
      obtain ⟨-, rfl⟩ := Prod.mk.inj (Option.some.inj hcall')
      rw [hstep]
      have hcalled := called hcall
      generalize hr : (Except.ok a : Except Exn UUID) = r at hcalled
      cases hcalled with
      | raised | asked => rfl
      | decided => rfl
  have hreach : Reachable host Any ((machine host).step s (.act i inp)) := .step h trivial
  have hrun := foldl_invariant_iff (I := fun s => DueBy s.world.db r.messageId d)
    (J := Reachable host Any) (A := Prompt r.messageId d) (fun s e hs => .step hs trivial)
    (fun s e hs hdue => dueBy_step hs e hdue) es hreach
  rw [hdecided] at hrun
  rw [← hrun]
  refine forall_congr' fun es' => forall_congr' fun _ => ?_
  exact leasableFrom_iff (runsBelow (reach_foldl_from hreach es'))

namespace Sample

/-- The request of the sample is about to be approved, by the thread `i`. -/
def approving (i : ℕ) : List PipelineEvent :=
  .start (.approve token (lit "ann") none) :: calls i 1

/-- The decision comes before the first poll. -/
def unpolledEvents : List PipelineEvent := List.flatten [requested, approving 4]

/-- The decision comes a minute after a poll that found the request open. -/
def polledEvents : List PipelineEvent :=
  List.flatten [requested, polled 4, calls 4 4, tick 60000000, approving 5]

/-- The `i`-th thread takes the request out of `requested`, as a test. -/
def opening (s : State) (i : ℕ) (r : ApprovalRequest) (d : Time) : Bool :=
  let op := Op.tx (.decideApproval r.callbackToken .approved (lit "ann") none d)
  decide (r.status = .requested ∧ nextCall s i = some op ∧ Commits s.world op .ok)

theorem decides_of_opening {s : State} {i : ℕ} {r : ApprovalRequest} {d : Time}
    (hr : r ∈ s.world.db.approvalRequests) (h : opening s i r d = true) : Decides s i .ok r d := by
  obtain ⟨hopened, hnext, hcommits⟩ := of_decide_eq_true h
  exact ⟨hr, hopened, .approved, lit "ann", none, hnext, by decide, hcommits⟩

end Sample

theorem decision_acted_on_unpolled : ∃ r : ApprovalRequest,
    (∀ es', es' <+: Sample.polled 5 → LeasableFrom
      (es'.foldl (machine (Sample.host "manual_all")).step
        ((machine (Sample.host "manual_all")).step
          (run (Sample.host "manual_all") Sample.unpolledEvents) (.act 4 .ok))).world
      r.messageId 0) ↔
    DueBy (run (Sample.host "manual_all") Sample.unpolledEvents).world.db r.messageId 0 ∧
      ∀ es' e, es' ++ [e] <+: Sample.polled 5 → Prompt r.messageId 0
        (es'.foldl (machine (Sample.host "manual_all")).step
          ((machine (Sample.host "manual_all")).step
            (run (Sample.host "manual_all") Sample.unpolledEvents) (.act 4 .ok))) e := by
  obtain ⟨r, hr, hopening⟩ :
      ∃ r ∈ (run (Sample.host "manual_all") Sample.unpolledEvents).world.db.approvalRequests,
        Sample.opening (run (Sample.host "manual_all") Sample.unpolledEvents) 4 r 0 = true := by
    decide +kernel
  exact ⟨r, decision_acted_on (reachable_run _ _) (Sample.decides_of_opening hr hopening) _⟩

/-- A minute after a poll the request is approved, and its job cannot be leased. -/
theorem decision_put_off : ∃ s r, Reachable (Sample.host "manual_all") Any s ∧
    Decides s 5 .ok r 60000000 ∧ ¬ LeasableFrom
      ((machine (Sample.host "manual_all")).step s (.act 5 .ok)).world r.messageId 60000000 := by
  obtain ⟨r, hr, hopening, hlate⟩ :
      ∃ r ∈ (run (Sample.host "manual_all") Sample.polledEvents).world.db.approvalRequests,
        Sample.opening (run (Sample.host "manual_all") Sample.polledEvents) 5 r 60000000 = true ∧
        ¬ DueBy ((machine (Sample.host "manual_all")).step
          (run (Sample.host "manual_all") Sample.polledEvents) (.act 5 .ok)).world.db
            r.messageId 60000000 := by
    decide +kernel
  have hreach := reachable_run (Sample.host "manual_all") Sample.polledEvents
  refine ⟨_, r, hreach, Sample.decides_of_opening hr hopening, fun hleasable => hlate ?_⟩
  exact (leasableFrom_iff (runsBelow (.step hreach trivial))).mp hleasable

end Sentinel.Pipeline
