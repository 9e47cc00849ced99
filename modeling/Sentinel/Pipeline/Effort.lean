import Mathlib.Algebra.Order.BigOperators.Group.List
import Sentinel.Logic.Count
import Sentinel.Pipeline.Ancestry
import Sentinel.Pipeline.AttemptLimit

/-!
# How much work an alert causes

However often an alert is delivered, and whatever raises or stops: its trace gets a bounded number of
jobs, each of which is leased a bounded number of times.

* `Makes`: the attempt that stored the message of a job; it stored one.
* `execution_le`, `approval_le`, `tracking_le`, `followUp_le`: the jobs of a trace, stage by stage.
* `work_bounded`: the bounds for all of them.
-/

namespace Sentinel.Pipeline

open Logic Contracts PipelineDB

variable {host : Host} {C : State → PipelineEvent → Prop} {s : State}

/-! ## The last call of the outcome worker -/

/-- No call that ends the job has committed. -/
def Unfinished (log : Log) : Prop := ∀ en ∈ log, en.op.ends = true → ∃ e, en.ans = .error e

theorem unfinished_nil : Unfinished [] := fun _ hen => absurd hen List.not_mem_nil

theorem unfinished_concat {log : Log} {en : Entry Op Op.Ans Exn} (h : Unfinished log)
    (hen : en.op.ends = true → ∃ e, en.ans = .error e) : Unfinished (log ++ [en]) := by
  intro en' hen' hends
  rcases List.mem_append.mp hen' with hold | hlast
  · exact h en' hold hends
  · obtain rfl := List.mem_singleton.mp hlast
    exact hen hends

theorem Op.not_ends_of_routine {op : Op} (h : op.routine = true) : ¬ op.ends = true := by
  cases op with
  | tx t => cases t <;> simp [Op.routine, Op.ends] at h ⊢
  | _ => simp [Op.ends]

instance steady_unfinished : Steady Unfinished where
  append _ _ _ hop h := unfinished_concat h fun hends => absurd hends (Op.not_ends_of_routine hop)

theorem unfinished_list {traceId : UUID} :
    Keeps Unfinished (tx (.listOutcomeObservations traceId)) :=
  keeps_perform fun _ _ h => unfinished_concat h fun hends => by cases hends

theorem unfinished_ends (op : Op) : KeepsRaising Unfinished (Prog.perform op : Program op.Ans) :=
  keepsRaising_perform fun _ e h => unfinished_concat h fun _ => ⟨e, rfl⟩

section Programs

variable {lease : JobLease}

theorem unfinished_completeJobSuccess {output : Option PipelineEnvelope} {next : Option StageName}
    {availableAt : Option Time} {status : String} :
    KeepsRaising Unfinished (completeJobSuccess lease output next availableAt status) :=
  (keeps_routine rfl).bind_raising fun _ => unfinished_ends _

theorem unfinished_completeJobRetry {error : Text} {delaySec maxAttempts : ℤ} :
    KeepsRaising Unfinished (completeJobRetry lease error delaySec maxAttempts) := by
  unfold completeJobRetry
  split_ifs
  · exact (keeps_routine rfl).bind_raising fun _ => (keeps_getMessage _).bind_raising fun _ =>
      unfinished_ends _
  · exact (keeps_routine rfl).bind_raising fun _ => unfinished_ends _

theorem OutcomeWorker.unfinished_observe {symbol : Text} {now : Time} (rows : List ObservationRow) :
    Keeps Unfinished (observe symbol now rows) := by
  induction rows with
  | nil => exact keeps_pure _
  | cons row rows ih =>
    exact (keeps_routine rfl).bind fun _ => (keeps_routine rfl).bind fun _ =>
      (keeps_routine rfl).bind fun _ => ih

theorem OutcomeWorker.unfinished_process : KeepsRaising Unfinished (process lease) := by
  refine (keeps_getMessage _).bind_raising fun parent => keeps_getD.bind_raising fun decision => ?_
  split
  · exact unfinished_completeJobSuccess.map _
  · refine unfinished_list.bind_raising fun rows => ?_
    split_ifs
    · exact unfinished_completeJobSuccess.map _
    · refine (keeps_routine rfl).bind_raising fun now => ?_
      dsimp only
      split_ifs
      · exact keeps_getD.bind_raising fun _ => unfinished_completeJobRetry.map _
      · refine (unfinished_observe _).bind_raising fun _ => ?_
        refine unfinished_list.bind_raising fun rows' => keeps_newEnvelope.bind_raising fun _ => ?_
        split <;> exact unfinished_completeJobSuccess.map _

end Programs

/-- What ends the job of an outcome worker is its last call. -/
theorem unfinished_outcome (h : Reachable host C s) {i : ℕ} {th : Thread Op Op.Ans Exn Out Task}
    (hth : s.threads[i]? = some th) (htask : th.task.stage = some .outcome) {l l' : Log}
    {en : Entry Op Op.Ans Exn} (hl : th.log = l ++ en :: l') : Unfinished l := by
  refine (issued_reach (M := machine host) (Ψ := fun _ _ _ => True)
    (Φ := fun t l _ => t.stage = some .outcome → Unfinished l) (fun t => ?_) h i th hth).2 l en l' hl
    htask
  cases t with
  | outcome workerId =>
    have hbody : KeepsRaising Unfinished ((Task.outcome workerId).body host) := by
      refine KeepsRaising.map ?_ _
      refine keeps_leaseNextJob.bind_raising fun lease => ?_
      cases lease with
      | none => exact (keeps_pure _).raising
      | some lease =>
        exact OutcomeWorker.unfinished_process.tryCatch fun e => unfinished_completeJobRetry.map _
    exact (hbody [] unfinished_nil).mono' (fun _ _ _ hl _ => hl) fun _ _ _ _ => trivial
  | _ => exact always_of (fun _ _ heq => by cases heq) fun _ _ => trivial

/-- An outcome worker that has completed its job has not left it to a retry. -/
theorem not_retried_of_completed (h : Reachable host C s) {i : ℕ}
    {th : Thread Op Op.Ans Exn Out Task} (hth : s.threads[i]? = some th)
    (htask : th.task.stage = some .outcome) {lease : JobLease} {output : Option PipelineEnvelope}
    {next : Option StageName} {availableAt : Option Time} {status : String} {t : Time}
    {out : Option UUID}
    (hcompleted : Answered th.log (.tx (.completeJobSuccess lease output next availableAt status t))
      out) : endIn th.log ≠ .retryWait := by
  obtain ⟨l, l', hl⟩ := List.append_of_mem hcompleted
  cases l' with
  | nil =>
    rw [hl, endIn_concat]
    simp [endStep, Op.ending]
  | cons en l' =>
    rw [List.append_cons] at hl
    have hbefore := unfinished_outcome h hth htask hl
    obtain ⟨e, he⟩ := hbefore _ (List.mem_append_right _ (List.mem_singleton_self _)) rfl
    cases he

/-! ## The attempt that made a job -/

/-- The attempt stored the message of the job `k` when it completed the job it had leased. -/
structure Makes (cfg : PipelineConfig) (s : State) (i : ℕ) (lease : JobLease)
    (envelope : PipelineEnvelope) (k : JobKey) : Prop where
  attempt : ∃ th, Attempt s i th lease ∧ (∃ next availableAt status t out, Answered th.log
      (.tx (.completeJobSuccess lease (some envelope) next availableAt status t)) out) ∧
    ∃ l, l <+: th.log ∧ Completes cfg l lease (some envelope) (some k.stage)
  message : s.world.db.findMessage k.messageId = some (.ofEnvelope envelope)
  messageId : envelope.messageId = k.messageId
  trace : lease.traceId = k.traceId

theorem exists_makes (h : Reachable host C s) {k : JobKey} (hk : k ∈ s.world.db.jobKeys)
    (hstage : k.stage ≠ .research) : ∃ i lease envelope, Makes host.cfg s i lease envelope k := by
  obtain ⟨envelope, hm, hid, htr, hsource⟩ := job_origin h hk
  generalize hnext : some k.stage = next at hsource
  cases hsource with
  | ingested l alertId hl hi => exact absurd (Option.some.inj hnext) hstage
  | completed l lease next availableAt status t out hl hc =>
    obtain ⟨i, th, hth, hpre⟩ := hl
    have hprel : l <+: th.log := (List.prefix_append _ _).trans hpre
    obtain ⟨stage, parent, hholds, hchild⟩ := hc.holds
    have hheld := hholds.held ⟨i, th, hth, hprel⟩ h
    refine ⟨i, lease, envelope, ⟨th, ⟨hth, (hholds.leased.prefix_of hprel).first⟩,
      ⟨next, availableAt, status, t, out, hpre.subset (by simp)⟩, l, hprel, hnext ▸ hc⟩, hm, hid, ?_⟩
    exact (hheld.traceId h).symm.trans ((hchild envelope rfl).1.symm.trans htr)

/-- The first element with a property is found from both sides. -/
theorem first_unique {α : Type} {p : α → Bool} {log l l' r r' : List α} {x y : α}
    (h : log = l ++ x :: r) (h' : log = l' ++ y :: r') (hx : p x = true) (hy : p y = true)
    (hl : ∀ z ∈ l, p z = false) (hl' : ∀ z ∈ l', p z = false) : x = y := by
  have hfind : ∀ {l r : List α} {x : α}, p x = true → (∀ z ∈ l, p z = false) →
      (l ++ x :: r).find? p = some x := by
    intro l r x hx hl
    rw [List.find?_append, List.find?_eq_none.mpr (by simpa using hl), Option.none_or,
      List.find?_cons_of_pos hx]
  exact Option.some.inj ((hfind hx hl).symm.trans (h ▸ h' ▸ hfind hy hl'))

/-- An attempt makes one job of a stage. -/
theorem Makes.unique {i : ℕ} {lease lease' : JobLease} {envelope envelope' : PipelineEnvelope}
    {k k' : JobKey} (hm : Makes host.cfg s i lease envelope k) (h : Reachable host C s)
    (hm' : Makes host.cfg s i lease' envelope' k')
    (hk : k ∈ s.world.db.jobKeys) (hk' : k' ∈ s.world.db.jobKeys) (hstage : k.stage = k'.stage) :
    k = k' := by
  obtain ⟨th, ha, ⟨next, availableAt, status, t, out, hanswered⟩, -⟩ := hm.attempt
  obtain ⟨th', ha', ⟨next', availableAt', status', t', out', hanswered'⟩, -⟩ := hm'.attempt
  obtain ⟨rfl, -⟩ := ha.eq ha'
  obtain ⟨l, r, hl, hissues⟩ := (issued h ha.thread).mem hanswered
  obtain ⟨l', r', hl', hissues'⟩ := (issued h ha.thread).mem hanswered'
  have hconcludes : Concludes host.cfg l lease (some envelope) next status := hissues
  have hconcludes' : Concludes host.cfg l' lease' (some envelope') next' status' := hissues'
  have hunended : ∀ en ∈ l, en.op.ends = false := hconcludes.unended
  have hunended' : ∀ en ∈ l', en.op.ends = false := hconcludes'.unended
  have heq := first_unique (p := fun en => en.op.ends) hl hl' rfl rfl hunended hunended'
  have hop := Tx.completeJobSuccess.inj (Op.tx.inj (congrArg Entry.op heq))
  obtain rfl := Option.some.inj hop.2.1
  exact eq_of_nodup (wellFormed h).stageMessage hk hk'
    (Prod.ext hstage (hm.messageId.symm.trans hm'.messageId))

/-! ## From stage to stage -/

/-- The output of a job is queued for the stage. -/
inductive Handed (cfg : PipelineConfig) (db : PipelineDB) (lease : JobLease)
    (envelope : PipelineEnvelope) : StageName → Prop
  | analysis (hstage : lease.stage = .research) : Handed cfg db lease envelope .analysis
  | execution (hstage : lease.stage = .analysis) : Handed cfg db lease envelope .execution
  | approval (hmode : cfg.executor.approvalMode = "manual_all") (hstage : lease.stage = .execution)
      (hkey : envelope.idempotencyKey = buildExecutionKey lease.messageId
        cfg.executor.riskRulesetVersion cfg.executor.approvalMode) :
      Handed cfg db lease envelope .approval
  | submitted (hstage : cfg.executor.approvalMode ≠ "manual_all" ∧ lease.stage = .execution ∨
        lease.stage = .approval)
      (hkey : envelope.idempotencyKey = buildExecutionKey lease.messageId
        cfg.executor.riskRulesetVersion cfg.executor.approvalMode)
      (houtput : envelope.stage ≠ .outcome) : Handed cfg db lease envelope .outcome
  | followUp (hstage : lease.stage = .outcome) (hread : lease.key.isFollowUp db = false)
      (houtput : envelope.stage = .outcome) : Handed cfg db lease envelope .outcome

theorem Completes.handed (h : Reachable host C s) {i : ℕ} {th : Thread Op Op.Ans Exn Out Task}
    (hth : s.threads[i]? = some th) {lease : JobLease} {envelope : PipelineEnvelope}
    {stage : StageName} (hc : Completes host.cfg th.log lease (some envelope) (some stage)) :
    Handed host.cfg s.world.db lease envelope stage := by
  have hheld : ∀ {l : Log} {stage : StageName} {parent : PipelineEnvelope}, l <+: th.log →
      Holds l stage lease parent → Held s.world.db stage lease parent :=
    fun hl hh => hh.held ⟨i, th, hth, hl⟩ h
  generalize hnext : some stage = next at hc
  cases hc with
  | researched parent envelope ingested report next hh hload hreport he heq =>
    split_ifs at heq
    · cases hnext.trans heq
      exact .analysis (hheld (List.prefix_refl _) hh).stage
    · cases hnext.trans heq
  | analysed parent envelope report snapshot output next hh hload hsnapshot he heq =>
    split_ifs at heq
    · cases hnext.trans heq
      exact .execution (hheld (List.prefix_refl _) hh).stage
    · cases hnext.trans heq
  | awaiting l parent envelope candidate intent checks approvalId hmode hl hev he =>
    cases hnext
    have hheld := hheld hl hev.holds
    exact .approval hmode hheld.stage (he.key.trans (by rw [executionKey, hheld.parentId]))
  | submitted l parent envelope intent checks stage brokerOrderId hl hs hst he hholds =>
    cases hnext
    have hkey : envelope.idempotencyKey = buildExecutionKey lease.messageId
        host.cfg.executor.riskRulesetVersion host.cfg.executor.approvalMode :=
      he.key.trans (by rw [executionKey, (hheld hl hholds).parentId])
    refine .submitted ?_ hkey (by rw [he.stage]; rcases hst with rfl | rfl <;> decide)
    cases hs with
    | direct candidate hmode hev => exact Or.inl ⟨hmode, (hheld hl hev.holds).stage⟩
    | approved l₀ request j hlog hrequest hstatus hh hget hload =>
      exact Or.inr (hheld (.trans ⟨_, hlog.symm⟩ hl) hh).stage
  | observed parent envelope rows rows' t next hw hdue hupdated hrows' he heq =>
    split_ifs at heq
    · cases hnext.trans heq
    · cases hnext.trans heq
      have hheld := hheld (List.prefix_refl _) hw.holds
      obtain ⟨m, hfound, hload⟩ := readable_of_listed h hth hw.holds hrows'
      refine .followUp hheld.stage ((readable_iff h hheld.job).mp ?_) he.stage
      have hstage : lease.key.stage = .outcome := hheld.stage
      have hmessage : s.world.db.findMessage lease.key.messageId = some m := hfound
      rw [JobKey.readable, hmessage, Option.any_some, hstage]
      exact Option.isSome_iff_ne_none.mpr hload
  | _ => cases hnext

theorem Makes.handed {i : ℕ} {lease : JobLease} {envelope : PipelineEnvelope} {k : JobKey}
    (hm : Makes host.cfg s i lease envelope k) (h : Reachable host C s) :
    lease.key ∈ s.world.db.jobKeys ∧ Handed host.cfg s.world.db lease envelope k.stage := by
  obtain ⟨th, ha, -, l, hl, hc⟩ := hm.attempt
  exact ⟨(ha.key h).1, (hc.prefix_of hl).handed h ha.thread⟩

theorem Makes.isFollowUp {i : ℕ} {lease : JobLease} {envelope : PipelineEnvelope} {k : JobKey}
    (hm : Makes host.cfg s i lease envelope k) (hstage : k.stage = .outcome) :
    k.isFollowUp s.world.db = decide (envelope.stage = .outcome) := by
  rw [JobKey.isFollowUp, hm.message, Option.any_some, hstage]
  rfl

/-! ## The jobs of a trace -/

namespace PipelineDB

def traceJobs (db : PipelineDB) (traceId : UUID) : List JobKey :=
  db.jobKeys.filter fun k => k.traceId = traceId

def jobsOf (db : PipelineDB) (traceId : UUID) (p : JobKey → Bool) : List JobKey :=
  (db.traceJobs traceId).filter p

def jobsAt (db : PipelineDB) (traceId : UUID) (stage : StageName) : List JobKey :=
  db.jobsOf traceId fun k => k.stage = stage

variable {db : PipelineDB} {traceId : UUID} {p : JobKey → Bool} {stage : StageName} {k : JobKey}

@[simp] theorem mem_jobsOf :
    k ∈ db.jobsOf traceId p ↔ (k ∈ db.jobKeys ∧ k.traceId = traceId) ∧ p k = true := by
  rw [jobsOf, List.mem_filter, traceJobs, List.mem_filter, decide_eq_true_eq]

@[simp] theorem mem_jobsAt :
    k ∈ db.jobsAt traceId stage ↔ (k ∈ db.jobKeys ∧ k.traceId = traceId) ∧ k.stage = stage := by
  simp [jobsAt]

theorem nodup_jobsOf (hw : WellFormed db) : (db.jobsOf traceId p).Nodup :=
  ((hw.jobId.of_map _).filter _).filter _

end PipelineDB

/-- The OUTCOME job for an order. -/
def JobKey.isTracking (db : PipelineDB) (k : JobKey) : Bool :=
  k.stage = .outcome && !k.isFollowUp db

section Counts

variable {traceId : UUID} {p : JobKey → Bool} {stage : StageName} {l : List JobKey}

/-- Two jobs of one stage for one message are one. -/
theorem job_eq (h : Reachable host C s) {k k' : JobKey} (hk : k ∈ s.world.db.jobKeys)
    (hk' : k' ∈ s.world.db.jobKeys) (hstage : k.stage = k'.stage)
    (hmessage : k.messageId = k'.messageId) : k = k' :=
  eq_of_nodup (wellFormed h).stageMessage hk hk' (Prod.ext hstage hmessage)

/-- Jobs of one stage that are made by different attempts, or from different jobs, are no more than
these. -/
theorem made_le {β : Type} {R : ℕ → JobLease → PipelineEnvelope → β → Prop} {xs : List β}
    (h : Reachable host C s) (hresearch : ∀ k ∈ s.world.db.jobsOf traceId p, k.stage ≠ .research)
    (hR : ∀ k ∈ s.world.db.jobsOf traceId p, ∀ i lease envelope,
      Makes host.cfg s i lease envelope k → ∃ x ∈ xs, R i lease envelope x)
    (hapart : ∀ k ∈ s.world.db.jobsOf traceId p, ∀ k' ∈ s.world.db.jobsOf traceId p,
      ∀ i i' lease lease' envelope envelope' x, Makes host.cfg s i lease envelope k →
      Makes host.cfg s i' lease' envelope' k' → R i lease envelope x → R i' lease' envelope' x →
      k = k') : (s.world.db.jobsOf traceId p).length ≤ xs.length := by
  refine length_le_of_rel
    (R := fun k x => ∃ i lease envelope, Makes host.cfg s i lease envelope k ∧ R i lease envelope x)
    (nodup_jobsOf (wellFormed h)) (fun k hk => ?_) ?_
  · obtain ⟨i, lease, envelope, hm⟩ := exists_makes h (mem_jobsOf.mp hk).1.1 (hresearch k hk)
    obtain ⟨x, hx, hrel⟩ := hR k hk i lease envelope hm
    exact ⟨x, hx, i, lease, envelope, hm, hrel⟩
  · rintro k hk k' hk' x ⟨i, lease, envelope, hm, hrel⟩ ⟨i', lease', envelope', hm', hrel'⟩
    exact hapart k hk k' hk' i i' lease lease' envelope envelope' x hm hm' hrel hrel'

/-- A stage whose jobs of a trace have one message has one job of it. -/
theorem length_jobsAt_le_one (h : Reachable host C s)
    (hunique : ∀ k ∈ s.world.db.jobKeys, ∀ k' ∈ s.world.db.jobKeys, k.stage = stage →
      k'.stage = stage → k.traceId = k'.traceId → k.messageId = k'.messageId) :
    (s.world.db.jobsAt traceId stage).length ≤ 1 := by
  refine length_le_of_rel (m := [()]) (R := fun _ _ => True) (nodup_jobsOf (wellFormed h))
    (fun _ _ => ⟨(), List.mem_singleton_self _, trivial⟩) fun k hk k' hk' _ _ _ => ?_
  obtain ⟨⟨hk, htrace⟩, hstage⟩ := mem_jobsAt.mp hk
  obtain ⟨⟨hk', htrace'⟩, hstage'⟩ := mem_jobsAt.mp hk'
  exact job_eq h hk hk' (hstage.trans hstage'.symm)
    (hunique k hk k' hk' hstage hstage' (htrace.trans htrace'.symm))

theorem research_le (h : Reachable host C s) (traceId : UUID) :
    (s.world.db.jobsAt traceId .research).length ≤ 1 :=
  length_jobsAt_le_one h fun _ hk _ hk' => research_unique h hk hk'

theorem analysis_le (h : Reachable host C s) (traceId : UUID) :
    (s.world.db.jobsAt traceId .analysis).length ≤ 1 :=
  length_jobsAt_le_one h fun _ hk _ hk' => analysis_unique h hk hk'

theorem length_runIdsOf_le (h : Reachable host C s) {k : JobKey} (hk : k ∈ s.world.db.jobKeys) :
    (runIdsOf s.world.db k.jobId).length ≤ k.limit host.cfg.queue s.world.db := by
  obtain ⟨row, hrow, rfl⟩ := mem_jobKeys.mp hk
  have hcount := ((ledger h).book.job row hrow).attempts
  show (runIdsOf s.world.db row.jobId).length ≤ _
  rw [runIdsOf, List.length_map, ← hcount]
  exact attemptCount_le h hrow

/-- Each attempt at the ANALYSIS job may make an EXECUTION job of its own. -/
theorem execution_le (h : Reachable host C s) (traceId : UUID) :
    (s.world.db.jobsAt traceId .execution).length ≤ attemptLimit host.cfg.queue := by
  have hruns : ((s.world.db.jobsAt traceId .analysis).flatMap
      fun k => runIdsOf s.world.db k.jobId).length ≤ attemptLimit host.cfg.queue := by
    have hone := analysis_le h traceId
    rw [List.length_flatMap]
    refine (List.sum_le_card_nsmul _ (attemptLimit host.cfg.queue) ?_).trans ?_
    · intro n hn
      obtain ⟨k, hk, rfl⟩ := List.mem_map.mp hn
      obtain ⟨⟨hk, -⟩, hstage⟩ := mem_jobsAt.mp hk
      have hle := length_runIdsOf_le h hk
      rwa [JobKey.limit, if_neg (by simp [JobKey.waits, hstage])] at hle
    · rw [List.length_map]
      exact (Nat.mul_le_mul_right _ hone).trans (Nat.one_mul _).le
  refine (made_le (R := fun _ lease _ runId => lease.runId = runId) h ?_ ?_ ?_).trans hruns
  · intro k hk heq
    cases (of_decide_eq_true (mem_jobsOf.mp hk).2).symm.trans heq
  · intro k hk i lease envelope hm
    obtain ⟨⟨-, htrace⟩, hstage⟩ := mem_jobsAt.mp hk
    obtain ⟨hkey, hhanded⟩ := hm.handed h
    obtain ⟨th, ha, -⟩ := hm.attempt
    obtain ⟨n, -, hget⟩ := ha.number h
    rw [hstage] at hhanded
    cases hhanded with
    | execution hparent =>
      exact ⟨lease.runId, List.mem_flatMap.mpr ⟨lease.key,
        mem_jobsAt.mpr ⟨⟨hkey, hm.trace.trans htrace⟩, hparent⟩, List.mem_of_getElem? hget⟩, rfl⟩
  · intro k hk k' hk' i i' lease lease' envelope envelope' runId hm hm' hrun hrun'
    obtain ⟨⟨hk, -⟩, hstage⟩ := mem_jobsAt.mp hk
    obtain ⟨⟨hk', -⟩, hstage'⟩ := mem_jobsAt.mp hk'
    obtain ⟨th, ha, -⟩ := hm.attempt
    obtain ⟨th', ha', -⟩ := hm'.attempt
    obtain rfl : i = i' := (ledger h).apart i i' th th' ha.thread ha'.thread lease lease' ha.lease
      ha'.lease (hrun.trans hrun'.symm)
    exact hm.unique h hm' hk hk' (hstage.trans hstage'.symm)

/-- The message of a job of these has the key of its parent's execution, so each parent has one. -/
theorem executed_le {q : JobKey → Bool} (h : Reachable host C s)
    (hstage : ∀ k ∈ s.world.db.jobsOf traceId p, k.stage = stage) (hresearch : stage ≠ .research)
    (hR : ∀ k ∈ s.world.db.jobsOf traceId p, ∀ i lease envelope,
      Makes host.cfg s i lease envelope k → q lease.key = true ∧
        envelope.idempotencyKey = buildExecutionKey lease.messageId
          host.cfg.executor.riskRulesetVersion host.cfg.executor.approvalMode) :
    (s.world.db.jobsOf traceId p).length ≤ (s.world.db.jobsOf traceId q).length := by
  refine made_le (R := fun _ lease _ parent => lease.key = parent) h ?_ ?_ ?_
  · exact fun k hk heq => hresearch ((hstage k hk).symm.trans heq)
  · intro k hk i lease envelope hm
    obtain ⟨hq, -⟩ := hR k hk i lease envelope hm
    exact ⟨lease.key, mem_jobsOf.mpr ⟨⟨(hm.handed h).1, hm.trace.trans (mem_jobsOf.mp hk).1.2⟩, hq⟩,
      rfl⟩
  · intro k hk k' hk' i i' lease lease' envelope envelope' parent hm hm' hparent hparent'
    obtain ⟨-, hkey⟩ := hR k hk i lease envelope hm
    obtain ⟨-, hkey'⟩ := hR k' hk' i' lease' envelope' hm'
    have hid : lease.messageId = lease'.messageId :=
      congrArg JobKey.messageId (hparent.trans hparent'.symm)
    refine job_eq h (mem_jobsOf.mp hk).1.1 (mem_jobsOf.mp hk').1.1
      ((hstage k hk).trans (hstage k' hk').symm) (messageId_eq_of_key h hm.message hm'.message ?_)
    exact hkey.trans (hid ▸ hkey'.symm)

theorem approval_le (h : Reachable host C s) (traceId : UUID) :
    (s.world.db.jobsAt traceId .approval).length ≤ (s.world.db.jobsAt traceId .execution).length := by
  refine executed_le h (fun k hk => (mem_jobsAt.mp hk).2) (by decide : StageName.approval ≠ .research)
    fun k hk i lease envelope hm => ?_
  have hhanded := (hm.handed h).2
  rw [(mem_jobsAt.mp hk).2] at hhanded
  cases hhanded with
  | approval hmode hparent hkey => exact ⟨decide_eq_true hparent, hkey⟩

theorem manual_of_approval (h : Reachable host C s) {k : JobKey} (hk : k ∈ s.world.db.jobKeys)
    (hstage : k.stage = .approval) : host.cfg.executor.approvalMode = "manual_all" := by
  obtain ⟨i, lease, envelope, hm⟩ := exists_makes h hk (by rw [hstage]; decide)
  have hhanded := (hm.handed h).2
  rw [hstage] at hhanded
  cases hhanded with
  | approval hmode => exact hmode

theorem mem_tracking {k : JobKey}
    (hk : k ∈ s.world.db.jobsOf traceId (JobKey.isTracking s.world.db)) :
    k.stage = .outcome ∧ k.isFollowUp s.world.db = false := by
  simpa [JobKey.isTracking] using (mem_jobsOf.mp hk).2

/-- Orders are submitted by the executor or by the approval worker, as the mode has it. -/
theorem tracking_le (h : Reachable host C s) (traceId : UUID) :
    (s.world.db.jobsOf traceId (JobKey.isTracking s.world.db)).length ≤
      (s.world.db.jobsAt traceId .execution).length := by
  have hsubmitted : ∀ k ∈ s.world.db.jobsOf traceId (JobKey.isTracking s.world.db), ∀ i lease envelope,
      Makes host.cfg s i lease envelope k →
        (host.cfg.executor.approvalMode ≠ "manual_all" ∧ lease.stage = .execution ∨
          lease.stage = .approval) ∧ envelope.idempotencyKey = buildExecutionKey lease.messageId
            host.cfg.executor.riskRulesetVersion host.cfg.executor.approvalMode := by
    intro k hk i lease envelope hm
    obtain ⟨hstage, hfollow⟩ := mem_tracking hk
    have hhanded := (hm.handed h).2
    rw [hstage] at hhanded
    cases hhanded with
    | submitted hparent hkey houtput => exact ⟨hparent, hkey⟩
    | followUp hparent hread houtput =>
      rw [hm.isFollowUp hstage, houtput] at hfollow
      cases hfollow
  by_cases hmode : host.cfg.executor.approvalMode = "manual_all"
  · refine (executed_le (q := fun k => k.stage = .approval) h
      (fun k hk => (mem_tracking hk).1) (by decide : StageName.outcome ≠ .research) fun k hk i lease envelope hm => ?_).trans
      (approval_le h traceId)
    obtain ⟨⟨hnot, -⟩ | hparent, hkey⟩ := hsubmitted k hk i lease envelope hm
    · exact absurd hmode hnot
    · exact ⟨decide_eq_true hparent, hkey⟩
  · refine executed_le h (fun k hk => (mem_tracking hk).1)
      (by decide : StageName.outcome ≠ .research)
      fun k hk i lease envelope hm => ?_
    obtain ⟨⟨-, hparent⟩ | hparent, hkey⟩ := hsubmitted k hk i lease envelope hm
    · exact ⟨decide_eq_true hparent, hkey⟩
    · exact absurd (manual_of_approval h (hm.handed h).1 hparent) hmode

/-- An OUTCOME job is completed once. -/
theorem completed_once (h : Reachable host C s) {i i' : ℕ} {lease lease' : JobLease}
    {envelope envelope' : PipelineEnvelope} {k k' : JobKey}
    (hm : Makes host.cfg s i lease envelope k) (hm' : Makes host.cfg s i' lease' envelope' k')
    (hstage : lease.stage = .outcome) (hkey : lease.key = lease'.key) : i = i' := by
  have hlast : ∀ {i : ℕ} {lease : JobLease} {envelope : PipelineEnvelope} {k : JobKey},
      Makes host.cfg s i lease envelope k → lease.stage = .outcome →
      (runIdsOf s.world.db lease.jobId).length ≤ lease.attemptCount := by
    intro i lease envelope k hm hstage
    obtain ⟨th, ha, ⟨next, availableAt, status, t, out, hanswered⟩, -⟩ := hm.attempt
    have htask : th.task.stage = some .outcome := (ha.key h).2.trans (congrArg some hstage)
    by_contra hlt
    exact not_retried_of_completed h ha.thread htask hanswered (ha.earlier h (not_le.mp hlt))
  have hjob : lease.jobId = lease'.jobId := congrArg JobKey.jobId hkey
  have hstage' : lease'.stage = .outcome := (congrArg JobKey.stage hkey).symm.trans hstage
  have hle := hlast hm hstage
  have hle' := hlast hm' hstage'
  obtain ⟨th, ha, -⟩ := hm.attempt
  obtain ⟨th', ha', -⟩ := hm'.attempt
  obtain ⟨n, hn, hget⟩ := ha.number h
  obtain ⟨n', hn', hget'⟩ := ha'.number h
  have hlt := (List.getElem?_eq_some_iff.mp hget).1
  have hlt' := (List.getElem?_eq_some_iff.mp hget').1
  rw [← hjob] at hle' hlt'
  exact ha.index_eq ha' h hjob (by omega)

theorem followUp_le (h : Reachable host C s) (traceId : UUID) :
    (s.world.db.jobsOf traceId (JobKey.isFollowUp s.world.db)).length ≤
      (s.world.db.jobsOf traceId (JobKey.isTracking s.world.db)).length := by
  have hmade : ∀ k ∈ s.world.db.jobsOf traceId (JobKey.isFollowUp s.world.db), k.stage = .outcome ∧
      ∀ i lease envelope, Makes host.cfg s i lease envelope k →
        lease.stage = .outcome ∧ lease.key.isFollowUp s.world.db = false := by
    intro k hk
    have hfollow := (mem_jobsOf.mp hk).2
    have hstage : k.stage = .outcome := by
      simp only [JobKey.isFollowUp, Bool.and_eq_true, decide_eq_true_eq] at hfollow
      exact hfollow.1
    refine ⟨hstage, fun i lease envelope hm => ?_⟩
    have hhanded := (hm.handed h).2
    rw [hstage] at hhanded
    cases hhanded with
    | followUp hparent hread houtput => exact ⟨hparent, hread⟩
    | submitted hparent hkey houtput =>
      rw [hm.isFollowUp hstage, decide_eq_true_eq] at hfollow
      exact absurd hfollow houtput
  refine made_le (R := fun _ lease _ parent => lease.key = parent) h ?_ ?_ ?_
  · intro k hk heq
    cases (hmade k hk).1.symm.trans heq
  · intro k hk i lease envelope hm
    obtain ⟨hparent, hread⟩ := (hmade k hk).2 i lease envelope hm
    have hkey : lease.key.stage = .outcome := hparent
    exact ⟨lease.key, mem_jobsOf.mpr ⟨⟨(hm.handed h).1, hm.trace.trans (mem_jobsOf.mp hk).1.2⟩,
      by simp [JobKey.isTracking, hkey, hread]⟩, rfl⟩
  · intro k hk k' hk' i i' lease lease' envelope envelope' parent hm hm' hparent hparent'
    have hstage := ((hmade k hk).2 i lease envelope hm).1
    obtain rfl := completed_once h hm hm' hstage (hparent.trans hparent'.symm)
    exact hm.unique h hm' (mem_jobsOf.mp hk).1.1 (mem_jobsOf.mp hk').1.1
      ((hmade k hk).1.trans (hmade k' hk').1.symm)

/-! ## All of them -/

theorem waits_le (h : Reachable host C s) (traceId : UUID) :
    (s.world.db.jobsOf traceId (JobKey.waits s.world.db)).length ≤
      2 * attemptLimit host.cfg.queue := by
  have hsplit := length_filter_or_le (fun k : JobKey => k.stage = .approval)
    (JobKey.isTracking s.world.db) (s.world.db.traceJobs traceId)
  have hexecution := execution_le h traceId
  have happroval := (approval_le h traceId).trans hexecution
  have htracking := (tracking_le h traceId).trans hexecution
  unfold PipelineDB.jobsAt PipelineDB.jobsOf at *
  show ((s.world.db.traceJobs traceId).filter
    fun k => decide (k.stage = .approval) || k.isTracking s.world.db).length ≤ _
  omega

theorem hurries_le (h : Reachable host C s) (traceId : UUID) :
    (s.world.db.jobsOf traceId fun k => !k.waits s.world.db).length ≤
      2 * attemptLimit host.cfg.queue + 2 := by
  have hresearch := research_le h traceId
  have hanalysis := analysis_le h traceId
  have hexecution := execution_le h traceId
  have hfollow := (followUp_le h traceId).trans ((tracking_le h traceId).trans hexecution)
  have hkind : ∀ k ∈ s.world.db.traceJobs traceId, (!k.waits s.world.db) = true →
      (decide (k.stage = .research) || (decide (k.stage = .analysis) ||
        (decide (k.stage = .execution) || k.isFollowUp s.world.db))) = true := by
    intro k hk hwaits
    obtain ⟨envelope, -, -, -, hqueued⟩ := job_message h (List.mem_filter.mp hk).1
    generalize hstage : k.stage = stage at hqueued
    cases hqueued with
    | alert => rfl
    | research => rfl
    | analysis => rfl
    | awaiting => simp [JobKey.waits, hstage] at hwaits
    | submitted | followUp => simpa [JobKey.waits, hstage] using hwaits
  have hle := List.countP_mono_left hkind
  rw [List.countP_eq_length_filter, List.countP_eq_length_filter] at hle
  have hsplit := length_filter_or_le (fun k : JobKey => decide (k.stage = .research))
    (fun k => decide (k.stage = .analysis) || (decide (k.stage = .execution) ||
      k.isFollowUp s.world.db)) (s.world.db.traceJobs traceId)
  have hsplit' := length_filter_or_le (fun k : JobKey => decide (k.stage = .analysis))
    (fun k => decide (k.stage = .execution) || k.isFollowUp s.world.db)
    (s.world.db.traceJobs traceId)
  have hsplit'' := length_filter_or_le (fun k : JobKey => decide (k.stage = .execution))
    (JobKey.isFollowUp s.world.db) (s.world.db.traceJobs traceId)
  unfold PipelineDB.jobsAt PipelineDB.jobsOf at *
  omega

end Counts

/-- The rows of the jobs of a trace. -/
def PipelineDB.traceRows (db : PipelineDB) (traceId : UUID) : List StageJob :=
  db.stageJobs.filter fun j => j.traceId = traceId

/-- How often the jobs of one trace are leased at most. -/
def traceLimit (q : QueueSection) : ℕ :=
  2 * attemptLimit q * pollLimit q + (2 * attemptLimit q + 2) * attemptLimit q

section Rows

variable {traceId : UUID}

theorem length_rows (p : JobKey → Bool) : ((s.world.db.traceRows traceId).filter
    fun j => p j.key).length = (s.world.db.jobsOf traceId p).length := by
  have hmap : (s.world.db.traceRows traceId).map StageJob.key = s.world.db.traceJobs traceId := by
    rw [PipelineDB.traceJobs, PipelineDB.jobKeys, List.filter_map]
    rfl
  rw [PipelineDB.jobsOf, ← hmap, List.filter_map, List.length_map]
  rfl

theorem rows_le (h : Reachable host C s) :
    (s.world.db.traceRows traceId).length ≤ 4 * attemptLimit host.cfg.queue + 2 := by
  have hsplit := List.length_eq_length_filter_add (l := s.world.db.traceRows traceId)
    fun j => j.key.waits s.world.db
  have hwaits := (length_rows (JobKey.waits s.world.db)).trans_le (waits_le h traceId)
  have hhurries := (length_rows fun k => !k.waits s.world.db).trans_le (hurries_le h traceId)
  omega

theorem attempts_le (h : Reachable host C s) :
    ((s.world.db.traceRows traceId).map StageJob.attemptCount).sum ≤ traceLimit host.cfg.queue := by
  have hle : ∀ j ∈ s.world.db.traceRows traceId,
      j.attemptCount ≤ j.key.limit host.cfg.queue s.world.db :=
    fun j hj => attemptCount_le h (List.mem_filter.mp hj).1
  refine (sum_map_le (p := fun j => j.key.waits s.world.db) (m := pollLimit host.cfg.queue)
    (n := attemptLimit host.cfg.queue) (fun j hj hp => ?_) fun j hj hp => ?_).trans ?_
  · have hlimit := hle j hj
    rwa [JobKey.limit, if_pos hp] at hlimit
  · have hlimit := hle j hj
    rwa [JobKey.limit, if_neg (by rw [hp]; exact Bool.false_ne_true)] at hlimit
  · rw [length_rows (JobKey.waits s.world.db), length_rows fun k => !k.waits s.world.db]
    exact Nat.add_le_add (Nat.mul_le_mul_right _ (waits_le h traceId))
      (Nat.mul_le_mul_right _ (hurries_le h traceId))

end Rows

/-- In every reachable state no job has been leased more often than its limit allows, and the jobs of
a trace and all attempts at them are bounded by the limits alone. -/
theorem work_bounded (h : Reachable host C s) (traceId : UUID) :
    (∀ j ∈ s.world.db.stageJobs,
      j.attemptCount ≤ j.key.limit host.cfg.queue s.world.db) ∧
    (s.world.db.traceRows traceId).length ≤ 4 * attemptLimit host.cfg.queue + 2 ∧
    ((s.world.db.traceRows traceId).map StageJob.attemptCount).sum ≤
      2 * attemptLimit host.cfg.queue * pollLimit host.cfg.queue +
        (2 * attemptLimit host.cfg.queue + 2) * attemptLimit host.cfg.queue :=
  ⟨fun _ hj => attemptCount_le h hj, rows_le h, attempts_le h⟩

/-- An alert that becomes an order has a job at four stages. -/
theorem work_bounded_traded :
    (((run (Sample.host "auto") Sample.tradedEvents).world.db.traceRows 0).map
      fun j => (j.stage, j.attemptCount)) =
        [(.research, 1), (.analysis, 1), (.execution, 1), (.outcome, 0)] ∧
    (∀ j ∈ (run (Sample.host "auto") Sample.tradedEvents).world.db.stageJobs,
      j.attemptCount ≤ j.key.limit (Sample.host "auto").cfg.queue
        (run (Sample.host "auto") Sample.tradedEvents).world.db) ∧
    ((run (Sample.host "auto") Sample.tradedEvents).world.db.traceRows 0).length ≤ 14 ∧
    (((run (Sample.host "auto") Sample.tradedEvents).world.db.traceRows 0).map
      StageJob.attemptCount).sum ≤ 60024 :=
  ⟨by decide +kernel, work_bounded (reachable_run _ Sample.tradedEvents) 0⟩

end Sentinel.Pipeline
