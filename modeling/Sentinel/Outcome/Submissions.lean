import Sentinel.Executor.Scheduling
import Sentinel.Outcome.Observations
import Sentinel.Pipeline.Stages

/-!
# The OUTCOME job of a submitted order

* `Tracks`: the condition on a step under which outcomes are tracked.
* `published_job`: a trace of which an OUTCOME job has been published has one, since no message had
  the key of the submission before.
* `outcome_observed`: the trace of an OUTCOME job has observations once the step that published the
  job has ended.
-/

namespace Sentinel.Pipeline

open Logic Contracts PipelineDB

variable {host : Host} {s : State}

/-! ## The condition -/

/-- A worker that has published an OUTCOME job of the trace is in the middle of its step. -/
def Submitting (s : State) (traceId : UUID) : Prop :=
  ∃ th ∈ s.threads, th.task.trades = true ∧ th.next.isSome = true ∧
    ∃ envelope ∈ published .outcome th.log, envelope.traceId = traceId

instance decidableSubmitting (s : State) (traceId : UUID) : Decidable (Submitting s traceId) :=
  inferInstanceAs (Decidable (∃ _ ∈ _, _ ∧ _ ∧ ∃ _ ∈ _, _))

/-- The trace whose observations the call lists. -/
def Op.lists : Op → Option UUID
  | .tx (.listOutcomeObservations traceId) => some traceId
  | _ => none

/-- The lease that the call gives up for good. -/
def Op.buries : Op → Option JobLease
  | .tx (.deadLetterJob lease ..) => some lease
  | _ => none

/-- The call is made, and raises. -/
def CallRaises (w : World) (op : Op) (inp : Input) : Prop :=
  ∃ e w', w.call op inp = some (.error e, w')

instance decidableCallRaises (w : World) (op : Op) (inp : Input) : Decidable (CallRaises w op inp) :=
  match h : w.call op inp with
  | some (.error e, w') => isTrue ⟨e, w', h⟩
  | some (.ok _, _) => isFalse fun ⟨_, _, h'⟩ => nomatch h.symm.trans h'
  | none => isFalse fun ⟨_, _, h'⟩ => nomatch h.symm.trans h'

/-- The workers that submit orders neither crash in the middle of a step nor have a call raise;
`OutcomeWorker` does not find nothing pending while an order of the trace is being submitted; and an
OUTCOME job is not given up while an observation of its trace is pending or an order being
submitted. -/
def Tracks (s : State) : PipelineEvent → Prop
  | .act i inp => ∀ th ∈ s.threads[i]?, ∀ op ∈ th.next,
    (th.task.trades = true → ¬ CallRaises s.world op inp) ∧
    (th.task.trades = false → ∀ traceId ∈ op.lists,
      s.world.db.Pending traceId ∨ ¬ Submitting s traceId) ∧
    ∀ lease ∈ op.buries, lease.stage = .outcome →
      ¬ s.world.db.Pending lease.traceId ∧ ¬ Submitting s lease.traceId
  | .crash i => ∀ th ∈ s.threads[i]?, th.task.trades = true → th.next.isNone = true
  | _ => True

instance decidableTracks (s : State) : ∀ e : PipelineEvent, Decidable (Tracks s e)
  | .act _ _ => inferInstanceAs (Decidable (∀ _ ∈ _, ∀ _ ∈ _,
      (_ → _) ∧ (_ → ∀ _ ∈ _, _ ∨ _) ∧ ∀ _ ∈ _, _ → _ ∧ _))
  | .crash _ => inferInstanceAs (Decidable (∀ _ ∈ _, _ → _))
  | .start _ | .env _ => inferInstanceAs (Decidable True)

/-! ## The workers that submit orders -/

theorem Task.trades_of_stage {task : Task} {stage : StageName} (h : task.stage = some stage)
    (hstage : stage = .execution ∨ stage = .approval) : task.trades = true := by
  cases task <;> rcases hstage with rfl | rfl <;> first | rfl | cases h

theorem Task.not_trades {task : Task} (h : task.stage = some .outcome) : task.trades = false := by
  cases task <;> first | rfl | cases h

section Trades

variable {j : ℕ} {th : Thread Op Op.Ans Exn Out Task}

theorem trades_clean (h : Reachable host Tracks s) (hth : s.threads[j]? = some th)
    (ht : th.task.trades = true) : NoRaise th.log := by
  intro en hen
  obtain ⟨l, l', hl⟩ := List.append_of_mem hen
  refine noted_reach (M := machine host) (X := fun t _ en _ => t.trades = true → ∃ a, en.ans = .ok a)
    ?_ (fun _ _ _ _ _ _ _ _ _ hX => hX) h j th hth l en l' hl ht
  intro s i inp t log op k r w' _ hC hth hc ht
  cases r with
  | ok a => exact ⟨a, rfl⟩
  | error e => exact absurd ⟨e, w', hc⟩ ((hC _ hth op rfl).1 ht)

theorem result_of_live (hlive : th.live = true) (hnext : th.next.isNone = true) :
    ∃ r, th.result = some r := by
  obtain ⟨t, log, prog, live⟩ := th
  subst hlive
  cases prog with
  | ret a => exact ⟨_, rfl⟩
  | raise e => exact ⟨_, rfl⟩
  | call op k => cases hnext

theorem trades_ended (h : Reachable host Tracks s) (hth : s.threads[j]? = some th)
    (ht : th.task.trades = true) (hnext : th.next.isNone = true) : ∃ r, th.result = some r := by
  refine h.rec_moved (I := fun s => ∀ th ∈ s.threads, th.task.trades = true →
    th.next.isNone = true → ∃ r, th.result = some r) (fun th hth => absurd hth List.not_mem_nil) ?_ th
    (List.mem_of_getElem? hth) ht hnext
  intro s e s' _ hC ih hm th' hth' ht hnext
  cases hm with
  | idle => exact ih th' hth' ht hnext
  | env e => exact ih th' hth' ht hnext
  | start t =>
    rcases List.mem_append.mp hth' with hold | hnew
    · exact ih th' hold ht hnext
    · obtain rfl := List.mem_singleton.mp hnew
      exact result_of_live rfl hnext
  | crash i th hth =>
    rcases List.mem_or_eq_of_mem_set hth' with hold | rfl
    · exact ih th' hold ht hnext
    · exact ih th (List.mem_of_getElem? hth) ht (hC th hth ht)
  | act i inp t log op k r w' hth hc =>
    rcases List.mem_or_eq_of_mem_set hth' with hold | rfl
    · exact ih th' hold ht hnext
    · exact result_of_live rfl hnext

/-- A step that has ended has left the observations of the order it submitted. -/
theorem trades_covered (h : Reachable host Tracks s) (hth : s.threads[j]? = some th)
    (ht : th.task.trades = true) (hnext : th.next.isNone = true) :
    Covered th.log ∧ Settled th.log := by
  obtain ⟨r, hr⟩ := trades_ended h hth ht hnext
  have hclean := trades_clean h hth ht
  refine ⟨(scheduled h hth).ended hr ht hclean, ?_⟩
  have hfinishes := (issued h hth).ended hr
  obtain ⟨t, log, prog, live⟩ := th
  cases t with
  | executor workerId => exact hfinishes hclean
  | approval workerId => exact hfinishes hclean
  | _ => cases ht

/-- A thread that has completed its job makes no call to give it back. -/
theorem open_of_completed (h : Reachable host Tracks s) (hth : s.threads[j]? = some th)
    (ht : th.task.trades = true) {lease : JobLease} {output : Option PipelineEnvelope}
    {next : Option StageName} {availableAt : Option Time} {status : String} {t : Time}
    {out : Option UUID} (hdone : Answered th.log
      (.tx (.completeJobSuccess lease output next availableAt status t)) out) : Open th.log := by
  intro en hen hcloses
  exfalso
  obtain ⟨l, l', hl⟩ := List.append_of_mem hen
  have hclean : NoRaise l := (trades_clean h hth ht).prefix_of ⟨_, hl.symm⟩
  have hissues := (issued h hth).2 l en l' hl
  have hunended : Unended l := by
    obtain ⟨op, r⟩ := en
    cases op with
    | tx x =>
      cases x with
      | completeJobRetry => exact hissues.2 hclean
      | deadLetterJob =>
        obtain ⟨stage, -, hgives⟩ := hissues
        exact (hgives hclean).1
      | _ => cases hcloses
    | _ => cases hcloses
  rw [Answered, hl] at hdone
  rcases List.mem_append.mp hdone with hbefore | hafter
  · cases hunended _ hbefore
  · rcases List.mem_cons.mp hafter with rfl | hafter
    · cases hcloses
    · -- nothing is completed after the job has been given back
      obtain ⟨l₁, l₂, hl₁⟩ := List.append_of_mem hafter
      have hconcludes : Concludes host.cfg (l ++ en :: l₁) lease output next status :=
        (issued h hth).2 (l ++ en :: l₁)
          ⟨.tx (.completeJobSuccess lease output next availableAt status t), .ok out⟩ l₂
          (by rw [hl, hl₁]; simp)
      have hends := hconcludes.unended en (by simp)
      simp [Op.ends_of_closes hcloses] at hends

end Trades

/-! ## The OUTCOME job of an order -/

/-- EXECUTION and APPROVAL jobs have different messages. -/
theorem stage_of_message {C : State → PipelineEvent → Prop} (h : Reachable host C s) {k k' : JobKey}
    (hk : k ∈ s.world.db.jobKeys) (hk' : k' ∈ s.world.db.jobKeys)
    (hstage : k.stage = .execution ∨ k.stage = .approval)
    (hstage' : k'.stage = .execution ∨ k'.stage = .approval) (hid : k.messageId = k'.messageId) :
    k.stage = k'.stage := by
  have hmessage : ∀ k ∈ s.world.db.jobKeys, k.stage = .execution ∨ k.stage = .approval →
      ∃ m, s.world.db.findMessage k.messageId = some m ∧
        (k.stage = .execution ↔ m.stage = .analysis) := by
    intro k hk hstage
    obtain ⟨envelope, hm, -, -, hqueued⟩ := job_message h hk
    refine ⟨_, hm, ?_⟩
    generalize k.stage = stage at hstage hqueued
    cases hqueued with
    | analysis l lease parent capturedAt output hl hh he => simp [StageMessage.ofEnvelope, he.stage]
    | awaiting l lease parent candidate intent checks approvalId hl hh he =>
      simp [StageMessage.ofEnvelope, he.stage]
    | _ => rcases hstage with hs | hs <;> cases hs
  obtain ⟨m, hm, hiff⟩ := hmessage k hk hstage
  obtain ⟨m', hm', hiff'⟩ := hmessage k' hk' hstage'
  rw [hid] at hm
  obtain rfl := Option.some.inj (hm.symm.trans hm')
  rcases hstage with hs | hs <;> rcases hstage' with hs' | hs' <;> simp_all

/-- Who writes a message with the key of a decision holds the job it decides. -/
theorem Source.decides {envelope parent : PipelineEnvelope} {next : Option StageName}
    (hsource : Source host.cfg s envelope next)
    (hkey : envelope.idempotencyKey = executionKey host.cfg parent) :
    ∃ l lease availableAt status t out stage parent', Logged s
        (l ++ [⟨.tx (.completeJobSuccess lease (some envelope) next availableAt status t), .ok out⟩]) ∧
      (stage = .execution ∨ stage = .approval) ∧ Holds l stage lease parent' ∧
      parent'.messageId = parent.messageId := by
  cases hsource with
  | ingested l alertId hl hi =>
    rw [hi.key] at hkey
    simp [buildIngestKey, executionKey, buildExecutionKey] at hkey
  | completed l lease _ availableAt status t out hl hcompletes =>
    refine ⟨l, lease, availableAt, status, t, out, ?_⟩
    cases hcompletes with
    | researched parent' _ ingested report _ hh hload hreport he =>
      simp [he.key, buildResearchKey, executionKey, buildExecutionKey] at hkey
    | analysed parent' _ report snapshot output _ hh hload hsnapshot he =>
      simp [he.key, buildAnalysisKey, executionKey, buildExecutionKey] at hkey
    | rejected parent' _ decision hh hstatus he =>
      refine ⟨.execution, parent', hl, Or.inl rfl, hh, ?_⟩
      simpa [he.key, executionKey, buildExecutionKey] using hkey
    | awaiting l' parent' _ candidate intent checks approvalId hmode hl' hh he =>
      refine ⟨.execution, parent', hl, Or.inl rfl, hh.holds.prefix_of hl', ?_⟩
      simpa [he.key, executionKey, buildExecutionKey] using hkey
    | submitted l' parent' _ intent checks stage brokerOrderId hl' hh hstage he hholds =>
      refine ⟨stage, parent', hl, hstage, hholds.prefix_of hl', ?_⟩
      simpa [he.key, executionKey, buildExecutionKey] using hkey
    | ended parent' _ status decision hh he =>
      simp [he.key, executionKey, buildExecutionKey] at hkey
    | observed parent' _ rows rows' t _ hh hdue hupdated hrows' he =>
      simp [he.key, buildOutcomeKey, executionKey, buildExecutionKey] at hkey

/-- No message has the key under which a thread is about to store its decision. -/
theorem submitted_new (h : Reachable host Tracks s) {i : ℕ} {th : Thread Op Op.Ans Exn Out Task}
    (hth : s.threads[i]? = some th) {stage : StageName} {lease : JobLease}
    {parent : PipelineEnvelope} (hstage : stage = .execution ∨ stage = .approval)
    (hholds : Holds th.log stage lease parent) (hunended : Unended th.log) :
    ∀ m ∈ s.world.db.stageMessages, m.idempotencyKey ≠ executionKey host.cfg parent := by
  intro m hm hkey
  obtain ⟨envelope, next, rfl, hsource⟩ := message_origin h hm
  obtain ⟨l, lease', availableAt, status, t, out, stage', parent', hl, hstage', hholds', hid⟩ :=
    hsource.decides hkey
  have hheld := hholds.held ⟨i, th, hth, List.prefix_refl _⟩ h
  have hheld' := hholds'.held (hl.prefix_of (List.prefix_append _ _)) h
  have hmessages : lease.messageId = lease'.messageId :=
    (hheld.parentId.symm.trans hid.symm).trans hheld'.parentId
  have hstages : lease.stage = lease'.stage :=
    stage_of_message h hheld.job hheld'.job (by rw [← hheld.stage] at hstage; exact hstage)
      (by rw [← hheld'.stage] at hstage'; exact hstage') hmessages
  have hkeys : lease.key = lease'.key :=
    eq_of_nodup (wellFormed h).stageMessage hheld.job hheld'.job (Prod.ext hstages hmessages)
  -- both threads may still end the job, so they are one, which has not ended it
  obtain ⟨j, th', hth', hpre⟩ := hl
  have hpre' : l <+: th'.log := (List.prefix_append _ _).trans hpre
  have hdone : Answered th'.log _ out := hpre.subset (List.mem_append_right _ (List.mem_singleton_self _))
  have ht' := Task.trades_of_stage (hholds'.leased.stage h hth' hpre') hstage'
  obtain rfl := (ledger h).exclusive hth hth' hholds.leased.first
    (hholds'.leased.prefix_of hpre').first hunended.open (open_of_completed h hth' ht' hdone)
    (congrArg JobKey.jobId hkeys)
  obtain rfl := Option.some.inj (hth.symm.trans hth')
  cases hunended _ hdone

/-- The completions that queue an OUTCOME job: an order was submitted, or observations were made. -/
theorem Completes.outcome {cfg : PipelineConfig} {log : Log} {lease : JobLease}
    {envelope : PipelineEnvelope} (h : Completes cfg log lease (some envelope) (some .outcome)) :
    (∃ stage parent, (stage = .execution ∨ stage = .approval) ∧ Holds log stage lease parent ∧
      envelope.idempotencyKey = executionKey cfg parent) ∨
    ∃ parent rows, Holds log .outcome lease parent ∧ listIn log = some (parent.traceId, rows) ∧
      rows ≠ [] ∧ envelope.traceId = parent.traceId := by
  generalize hnext : some StageName.outcome = next at h
  cases h with
  | researched parent envelope ingested report _ h hload hreport he hn =>
    split_ifs at hn <;> cases hnext.trans hn
  | analysed parent envelope report snapshot output _ h hload hsnapshot he hn =>
    split_ifs at hn <;> cases hnext.trans hn
  | submitted l parent envelope intent checks stage brokerOrderId hl h hstage he hholds =>
    exact Or.inl ⟨stage, parent, hstage, hholds.prefix_of hl, he.key⟩
  | observed parent envelope rows rows' t _ h hdue hupdated hrows' he =>
    refine Or.inr ⟨parent, rows, h.holds, h.listed, ?_, he.traceId⟩
    rintro rfl
    exact hdue rfl
  | _ => cases hnext

/-- A completion with a new key queues its output. -/
theorem Called.queues {w w' : World} {lease : JobLease} {envelope : PipelineEnvelope}
    {stage : StageName} {availableAt : Option Time} {status : String} {t : Time} {out : Option UUID}
    (hcalled : Called w (.tx (.completeJobSuccess lease (some envelope) (some stage) availableAt status
      t)) (.ok out) w')
    (hmessages : ∀ j ∈ w.db.stageJobs, ∃ m, w.db.findMessage j.messageId = some m)
    (hlease : lease.key ∈ w.db.jobKeys)
    (hnew : ∀ m ∈ w.db.stageMessages, m.idempotencyKey ≠ envelope.idempotencyKey) :
    ∃ j ∈ w'.db.stageJobs, j.stage = stage ∧ j.traceId = envelope.traceId ∧ j.state = .queued := by
  generalize ha : (Except.ok out : Except Exn (Option UUID)) = a at hcalled
  cases hcalled with
  | asked op r hop => cases hop
  | raised op e hop => cases ha
  | completed lease output next availableAt status now out ms js ts hts hcases =>
    rcases hcases with ⟨-, -, ⟨hnone, -⟩ | ⟨envelope', heq, m, hm, hkey, -⟩⟩ |
      ⟨envelope', heq, -, hnew', rfl, ⟨hnone, -⟩ | ⟨stage', hstage, ⟨⟨j, hj, -, hid⟩, -⟩ | ⟨hjob, rfl⟩⟩⟩
    · cases hnone
    · obtain rfl := Option.some.inj heq
      exact absurd hkey (hnew m hm)
    · cases hnone
    · obtain rfl := Option.some.inj heq
      obtain ⟨m, hm⟩ := hmessages j hj
      obtain ⟨hmem, hmid⟩ := mem_of_findMessage hm
      exact absurd (hmid.trans hid) (hnew'.id m hmem)
    · obtain rfl := Option.some.inj heq
      obtain rfl := Option.some.inj hstage
      obtain ⟨k, hk, hkey⟩ := mem_jobKeys.mp hlease
      have hne : w.nextId ≠ lease.jobId := by
        have hid : k.jobId = lease.jobId := congrArg JobKey.jobId hkey
        rw [← hid]
        exact (hjob.id k hk).symm
      refine ⟨_, mem_updateWhere_of_mem (List.mem_append_right _ (List.mem_singleton_self _)), ?_⟩
      rw [if_neg (by simp [newJob, hne])]
      exact ⟨rfl, rfl, rfl⟩

/-- A trace of which a worker has published an OUTCOME job has one. -/
theorem published_job (h : Reachable host Tracks s) {j : ℕ} {th : Thread Op Op.Ans Exn Out Task}
    (hth : s.threads[j]? = some th) (ht : th.task.trades = true) {envelope : PipelineEnvelope}
    (he : envelope ∈ published .outcome th.log) :
    ∃ k ∈ s.world.db.jobKeys, k.stage = .outcome ∧ k.traceId = envelope.traceId := by
  obtain ⟨lease, availableAt, status, t, out, hdone⟩ := mem_published he
  obtain ⟨l, l', hl⟩ := List.append_of_mem hdone
  refine noted_reach (M := machine host) (X := fun t _ en s => t.trades = true →
    ∀ lease envelope availableAt status now out,
      en = ⟨.tx (.completeJobSuccess lease (some envelope) (some .outcome) availableAt status now),
        .ok out⟩ → ∃ k ∈ s.world.db.jobKeys, k.stage = .outcome ∧ k.traceId = envelope.traceId)
    ?_ ?_ h j th hth l _ l' hl ht _ _ _ _ _ _ rfl
  · intro s i inp t log op k r w' hs hC hth hc ht lease envelope availableAt status now out heq
    obtain ⟨rfl, ha⟩ := Entry.mk.inj heq
    obtain rfl := eq_of_heq ha
    have hconcludes : Concludes host.cfg log lease (some envelope) (some .outcome) status :=
      (issued hs hth).next rfl
    rcases hconcludes.completes.outcome with ⟨stage, parent, hstage, hholds, hkey⟩ |
      ⟨parent, rows, hholds, -⟩
    · have hheld := hholds.held ⟨i, _, hth, List.prefix_refl _⟩ hs
      obtain ⟨j, hj, hjstage, hjtrace, -⟩ := (called hc).queues
        (fun j hj => by
          obtain ⟨envelope, hm, -⟩ := job_message hs (mem_jobKeys.mpr ⟨j, hj, rfl⟩)
          exact ⟨_, hm⟩)
        hheld.job
        (by rw [hkey]; exact submitted_new hs hth hstage hholds hconcludes.unended)
      exact ⟨j.key, mem_jobKeys.mpr ⟨j, hj, rfl⟩, hjstage, hjtrace⟩
    · have hstage := hholds.leased.stage hs hth (List.prefix_refl _)
      cases (Task.not_trades hstage).symm.trans ht
  · intro s e s' t log en _ _ hm hX ht lease envelope availableAt status now out heq
    obtain ⟨k, hk, hkey⟩ := hX ht lease envelope availableAt status now out heq
    exact ⟨k, (moved_grows hm).jobs hk, hkey⟩

/-- The trace of an OUTCOME job has observations, or its order is being submitted. -/
theorem outcome_observed (h : Reachable host Tracks s) {k : JobKey} (hk : k ∈ s.world.db.jobKeys)
    (hstage : k.stage = .outcome) :
    s.world.db.Observes k.traceId ∨ Submitting s k.traceId := by
  obtain ⟨envelope, -, -, htrace, hsource⟩ := job_origin h hk
  rw [hstage] at hsource
  rw [← htrace]
  generalize hnext : some StageName.outcome = next at hsource
  cases hsource with
  | ingested => cases hnext
  | completed l lease _ availableAt status t out hl hcompletes =>
    subst hnext
    obtain ⟨j, th, hth, hpre⟩ := hl
    have hlog : l <+: th.log := (List.prefix_append _ _).trans hpre
    rcases hcompletes.outcome with ⟨stage, parent, hs, hholds, -⟩ |
      ⟨parent, rows, hholds, hlisted, hne, htr⟩
    · have ht := Task.trades_of_stage (hholds.leased.stage h hth hlog) hs
      have hpub : envelope ∈ published .outcome th.log :=
        List.mem_filterMap.mpr ⟨_, hpre.subset (List.mem_append_right _ (List.mem_singleton_self _)),
          by simp [Op.publishes]⟩
      by_cases hmid : th.next.isSome = true
      · exact Or.inr ⟨th, List.mem_of_getElem? hth, ht, hmid, envelope, hpub, rfl⟩
      · obtain ⟨hcovered, -⟩ := trades_covered h hth ht (by simpa using hmid)
        rcases hcovered envelope hpub with hscheduled | ⟨rows, hne, hlisted⟩
        · exact Or.inl ⟨.tPlus15m, hscheduled.horizons h hth (List.prefix_refl _) _⟩
        · exact Or.inl (observes_of_listed h hth hlisted hne)
    · rw [htr]
      exact Or.inl (observes_of_listed h hth ((answered_of_listIn hlisted).prefix_of hlog) hne)

end Sentinel.Pipeline
