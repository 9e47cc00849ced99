import Sentinel.Logic.Replay
import Sentinel.Pipeline.Stages

/-!
# Attempts

A thread that leases a job is an attempt at it.  The attempts at a job are numbered: the lease tells
the number of the run it began, and every run has its attempt.

* `Raised`, `Waited`: the two ways in which an attempt leaves its job to be retried.
* `Attempt.raised`: an exception leaves the job to a retry or a dead letter by its number.
* `Attempt.number`, `attempt_of_number`: the numbering.
-/

namespace Sentinel.Pipeline

open Logic Contracts PipelineDB

variable {host : Host} {C : State → PipelineEvent → Prop} {s : State}

/-- What the worker does with the job it has leased. -/
def Task.process (cfg : PipelineConfig) (lease : JobLease) : Task → Program Bool
  | researcher _ => ResearcherWorker.process cfg lease
  | analyst _ => AnalystWorker.process cfg lease
  | executor _ => ExecutorWorker.process cfg lease
  | approval _ => ApprovalWorker.process cfg lease
  | outcome _ => OutcomeWorker.process lease
  | _ => pure false

/-- The processing of the leased job ended in an exception; the lease took two calls. -/
def Raised (cfg : PipelineConfig) (th : Thread Op Op.Ans Exn Out Task) (lease : JobLease) : Prop :=
  Raises (th.task.process cfg lease) (th.log.drop 2)

instance (cfg : PipelineConfig) (th : Thread Op Op.Ans Exn Out Task) (lease : JobLease) :
    Decidable (Raised cfg th lease) :=
  inferInstanceAs (Decidable (Raises _ _))

/-- The job was rescheduled, and not because of an exception. -/
def Waited (cfg : PipelineConfig) (th : Thread Op Op.Ans Exn Out Task) (lease : JobLease) : Prop :=
  endIn th.log = .retryWait ∧ ¬ Raised cfg th lease

instance (cfg : PipelineConfig) (th : Thread Op Op.Ans Exn Out Task) (lease : JobLease) :
    Decidable (Waited cfg th lease) :=
  inferInstanceAs (Decidable (_ ∧ _))

/-- The `i`-th thread has leased a job. -/
structure Attempt (s : State) (i : ℕ) (th : Thread Op Op.Ans Exn Out Task) (lease : JobLease) :
    Prop where
  thread : s.threads[i]? = some th
  lease : leaseIn th.log = some lease

/-! ## How an attempt goes -/

theorem answered_of_leaseIn {log : Log} {lease : JobLease} (h : leaseIn log = some lease) :
    ∃ stage workerId leasedUntil t,
      Answered log (.tx (.leaseNextJob stage workerId leasedUntil t)) (some lease) := by
  obtain ⟨en, hen, heq⟩ := List.exists_of_findSome?_eq_some h
  split at heq
  · next stage workerId leasedUntil t lease' =>
    obtain rfl : lease' = some lease := heq
    exact ⟨stage, workerId, leasedUntil, t, hen⟩
  · cases heq

/-- A worker that has leased a job is processing it; the lease has ended nothing. -/
theorem plays_processNext {q : QueueSection} {stage : StageName} {workerId : Text}
    {process : JobLease → Program Bool} {log : Log} {p : Program Bool} {lease : JobLease}
    (h : Plays (processNext q stage workerId process) log p) (hlease : leaseIn log = some lease) :
    Open (log.take 2) ∧
      Plays ((process lease).tryCatch (retryLater q lease)) (log.drop 2) p := by
  rcases plays_call h with ⟨rfl, -⟩ | ⟨t, log₁, rfl, h₁⟩
  · cases hlease
  · cases t with
    | error e =>
      obtain ⟨rfl, -⟩ := plays_raise h₁
      cases hlease
    | ok t =>
      rcases plays_call h₁ with ⟨rfl, -⟩ | ⟨r, log₂, rfl, h₂⟩
      · cases hlease
      · cases r with
        | error e =>
          obtain ⟨rfl, -⟩ := plays_raise h₂
          cases hlease
        | ok r =>
          cases r with
          | none =>
            obtain ⟨rfl, -⟩ := plays_ret h₂
            cases hlease
          | some lease' =>
            obtain rfl : lease' = lease := Option.some.inj hlease
            refine ⟨fun en hen hcloses => ?_, h₂⟩
            rcases List.mem_cons.mp hen with rfl | hen
            · cases hcloses
            · obtain rfl := List.mem_singleton.mp hen
              cases hcloses

theorem Attempt.leased {i : ℕ} {th : Thread Op Op.Ans Exn Out Task} {lease : JobLease}
    (ha : Attempt s i th lease) : ∃ stage, Leased th.log stage lease := by
  obtain ⟨stage, workerId, leasedUntil, t, hasked⟩ := answered_of_leaseIn ha.lease
  exact ⟨stage, ha.lease, workerId, leasedUntil, t, hasked⟩

theorem Attempt.plays {i : ℕ} {th : Thread Op Op.Ans Exn Out Task} {lease : JobLease}
    (ha : Attempt s i th lease) (h : Reachable host C s) : Open (th.log.take 2) ∧ ∃ p,
      Plays ((th.task.process host.cfg lease).tryCatch (retryLater host.cfg.queue lease))
        (th.log.drop 2) p := by
  obtain ⟨stage, hleased⟩ := ha.leased
  have hstage := hleased.stage h ha.thread (List.prefix_refl _)
  have hplays : Plays (th.task.body host) th.log th.prog := plays_reach h i th ha.thread
  obtain ⟨task, log, prog, live⟩ := th
  have hlease : leaseIn log = some lease := ha.lease
  have hframe : ∀ {workerId : Text} {process : JobLease → Program Bool} {q : Program Out},
      Plays (processNext host.cfg.queue stage workerId process >>= fun b => pure (.processed b))
        log q → Open (log.take 2) ∧ ∃ p,
          Plays ((process lease).tryCatch (retryLater host.cfg.queue lease)) (log.drop 2) p := by
    intro workerId process q hq
    rcases plays_bind hq with ⟨p, hp, -⟩ | ⟨l, l', b, rfl, hl, hl'⟩
    · obtain ⟨hopen, hp⟩ := plays_processNext hp hlease
      exact ⟨hopen, p, hp⟩
    · obtain ⟨rfl, -⟩ := plays_ret hl'
      rw [List.append_nil] at hlease ⊢
      obtain ⟨hopen, hp⟩ := plays_processNext hl hlease
      exact ⟨hopen, _, hp⟩
  cases task with
  | ingress | approve | reject => cases hstage
  | researcher workerId | analyst workerId | executor workerId | approval workerId
  | outcome workerId =>
    obtain rfl := Option.some.inj hstage
    exact hframe hplays

/-- The call is one that the handler of an exception makes. -/
def HandlesRaise (q : QueueSection) (lease : JobLease) (op : Op) : Prop :=
  (op.ending = some .deadLetter → q.maxAttempts ≤ lease.attemptCount) ∧
    (op.ending = some .retryWait → lease.attemptCount < q.maxAttempts)

theorem handles_of_none {q : QueueSection} {lease : JobLease} {op : Op} (h : op.ending = none) :
    HandlesRaise q lease op :=
  ⟨fun heq => (nomatch h.symm.trans heq), fun heq => (nomatch h.symm.trans heq)⟩

theorem handles_completeJobRetry {q : QueueSection} {lease : JobLease} {error : Text} {delaySec : ℤ}
    {log : Log} : Always (fun _ op => HandlesRaise q lease op) (fun _ _ => True)
      (completeJobRetry lease error delaySec q.maxAttempts) log := by
  have htolerant : ∀ α : Type, Tolerant fun (_ : Log) (_ : Except Exn α) => True :=
    fun _ => ⟨fun _ _ _ _ => trivial⟩
  unfold completeJobRetry
  split_ifs with hlimit
  · refine always_op (handles_of_none rfl) fun t => ?_
    refine Always.bind (Ψ := fun _ _ => True) ?_ (fun l envelope _ _ => ?_) fun _ _ _ _ => trivial
    · refine always_op (handles_of_none rfl) fun row => ?_
      refine always_getD_bind (fun row _ => ?_) fun _ => trivial
      refine always_op (handles_of_none rfl) fun alertId => ?_
      exact always_getD_bind (fun _ _ => trivial) fun _ => trivial
    · exact always_perform (Φ := fun _ op => HandlesRaise q lease op) (Ψ := fun _ _ => True)
        ⟨fun _ => hlimit, fun h => (nomatch h)⟩ fun _ => trivial
  · refine always_op (handles_of_none rfl) fun t => ?_
    exact always_perform (Φ := fun _ op => HandlesRaise q lease op) (Ψ := fun _ _ => True)
      ⟨fun h => (nomatch h), fun _ => not_le.mp hlimit⟩ fun _ => trivial

theorem handles_retryLater {q : QueueSection} {lease : JobLease} {exc : Exn} (log : Log) :
    Always (fun _ op => HandlesRaise q lease op) (fun _ _ => True) (retryLater q lease exc) log :=
  handles_completeJobRetry.bind (fun _ _ _ _ => trivial) fun _ _ _ _ => trivial

/-- The state in which a log leaves its run is that of its beginning, or some later call's. -/
theorem endIn_append (log log' : Log) :
    endIn (log ++ log') = endIn log ∨ ∃ en ∈ log', en.op.ending = some (endIn (log ++ log')) := by
  induction log' using List.reverseRecOn with
  | nil => exact Or.inl (by rw [List.append_nil])
  | append_singleton log' en ih =>
    obtain ⟨op, r⟩ := en
    rw [← List.append_assoc, endIn_concat]
    have hold : endIn (log ++ log') = endIn log ∨ ∃ en ∈ log' ++ [(⟨op, r⟩ : Entry Op Op.Ans Exn)],
        en.op.ending = some (endIn (log ++ log')) := by
      rcases ih with heq | ⟨en, hen, heq⟩
      · exact Or.inl heq
      · exact Or.inr ⟨en, List.mem_append_left _ hen, heq⟩
    cases r with
    | error e => exact hold
    | ok a =>
      cases hop : op.ending with
      | none =>
        simp only [endStep, hop, Option.getD_none]
        exact hold
      | some state =>
        simp only [endStep, hop, Option.getD_some]
        exact Or.inr ⟨_, List.mem_append_right _ (List.mem_singleton.mpr rfl), hop⟩

theorem Task.keepsRaising_process {cfg : PipelineConfig} {lease : JobLease} (t : Task) :
    KeepsRaising Open (t.process cfg lease) := by
  cases t with
  | researcher => exact ResearcherWorker.keeps_process.raising
  | analyst => exact AnalystWorker.keeps_process.raising
  | executor => exact ExecutorWorker.keeps_process.raising
  | approval => exact ApprovalWorker.keepsRaising_process
  | outcome => exact OutcomeWorker.keepsRaising_process
  | ingress | approve | reject => exact (keeps_pure _).raising

/-- An attempt that raised gives its job up, or leaves it to a retry, by its number. -/
theorem Attempt.raised {i : ℕ} {th : Thread Op Op.Ans Exn Out Task} {lease : JobLease}
    (ha : Attempt s i th lease) (h : Reachable host C s) (hr : Raised host.cfg th lease) :
    (endIn th.log = .deadLetter → host.cfg.queue.maxAttempts ≤ lease.attemptCount) ∧
      (endIn th.log = .retryWait → lease.attemptCount < host.cfg.queue.maxAttempts) := by
  obtain ⟨hopen, p, hp⟩ := ha.plays h
  obtain ⟨l, l', e, hlog, hl, hl'⟩ := Raises.handled hr hp
  have hraise : Open (th.log.take 2 ++ l) :=
    (th.task.keepsRaising_process _ hopen).plays hl |>.1 e rfl
  have hcalls : ∀ en ∈ l', HandlesRaise host.cfg.queue lease en.op := by
    intro en hen
    obtain ⟨_, hhandles⟩ := (handles_retryLater []).plays hl' |>.2 en hen
    exact hhandles
  have heq : th.log = (th.log.take 2 ++ l) ++ l' := by
    rw [List.append_assoc, ← hlog, List.take_append_drop]
  have hstart := endIn_of_open hraise
  rcases endIn_append (th.log.take 2 ++ l) l' with hend | ⟨en, hen, hend⟩
  · rw [← heq] at hend
    rw [← hend] at hstart
    refine ⟨fun hstate => ?_, fun hstate => ?_⟩ <;> rw [hstate] at hstart <;>
      rcases hstart with hs | hs <;> cases hs
  · rw [← heq] at hend
    exact ⟨fun hstate => (hcalls en hen).1 (hstate ▸ hend),
      fun hstate => (hcalls en hen).2 (hstate ▸ hend)⟩

/-! ## The numbers of the attempts -/

/-- The ids of the runs of a job, in order. -/
def runIdsOf (db : PipelineDB) (jobId : UUID) : List UUID :=
  (runsOf db.stageRuns jobId).map StageRun.runId

theorem runIdsOf_updateWhere {p : StageRun → Bool} {f : StageRun → StageRun}
    {runs : List StageRun} (hrun : ∀ r, (f r).runId = r.runId) (hjob : ∀ r, (f r).jobId = r.jobId)
    {jobId : UUID} : (runsOf (updateWhere p f runs) jobId).map StageRun.runId =
      (runsOf runs jobId).map StageRun.runId := by
  rw [runsOf_updateWhere hjob, map_updateWhere hrun]

/-- Runs are only added. -/
theorem QueueMoved.runIdsOf {db db' : PipelineDB} {en : Entry Op Op.Ans Exn}
    (h : QueueMoved db en db') (jobId : UUID) : runIdsOf db jobId <+: runIdsOf db' jobId := by
  unfold Pipeline.runIdsOf
  cases h with
  | quiet hen hjobs hruns hdead => exact hruns ▸ List.prefix_refl _
  | leased row r lease workerId leasedUntil hop hrow hwaits hjob hstate hnew hlease hend hid hrun
      hjobs hruns hdead =>
    rw [hruns, runsOf_append]
    split_ifs
    · rw [List.map_append]
      exact List.prefix_append _ _
    · exact List.prefix_refl _
  | ended lease state jobs availableAt error now new hop hcommit hstate hlease hend hold hnew hlength
      hjobs hruns hdead =>
    have hids : (runsOf db'.stageRuns jobId).map StageRun.runId =
        (runsOf db.stageRuns jobId).map StageRun.runId := by
      rw [hruns]
      exact runIdsOf_updateWhere (f := endedRun state now) (fun _ => rfl) fun _ => rfl
    exact hids ▸ List.prefix_refl _

theorem moved_runIdsOf {s' : State} {e : PipelineEvent} (hm : Moved (machine host) s e s')
    (jobId : UUID) : runIdsOf s.world.db jobId <+: runIdsOf s'.world.db jobId := by
  cases hm with
  | act i inp t log op k r w hth hc => exact (called hc).queue.runIdsOf jobId
  | env e => cases e <;> exact List.prefix_refl _
  | _ => exact List.prefix_refl _

/-- The lease began the run of its number. -/
def Numbered (db : PipelineDB) (lease : JobLease) : Prop :=
  ∃ n, lease.attemptCount = n + 1 ∧ (runIdsOf db lease.jobId)[n]? = some lease.runId

theorem Attempt.number {i : ℕ} {th : Thread Op Op.Ans Exn Out Task} {lease : JobLease}
    (ha : Attempt s i th lease) (h : Reachable host C s) : Numbered s.world.db lease := by
  obtain ⟨stage, workerId, leasedUntil, t, hasked⟩ := answered_of_leaseIn ha.lease
  obtain ⟨l, l', hl⟩ := List.append_of_mem hasked
  refine noted_reach (M := machine host) (X := fun _ _ en s => ∀ stage workerId leasedUntil t lease,
    en = ⟨.tx (.leaseNextJob stage workerId leasedUntil t), .ok (some lease)⟩ →
      Numbered s.world.db lease) ?_ ?_ h i th ha.thread l _ l' hl _ _ _ _ lease rfl
  · intro s i inp t log op k r w' hs _ hth hc stage workerId leasedUntil now lease heq
    cases heq
    have hcalled := called hc
    generalize hans : (Except.ok (some lease) : Except Exn (Option JobLease)) = ans at hcalled
    cases hcalled with
    | asked op r hop => exact hop.elim
    | raised | leaseNone => cases hans
    | leased stage workerId leasedUntil now row hrow hnew =>
      obtain rfl := Option.some.inj (Except.ok.inj hans)
      obtain ⟨⟨hmem, -⟩, -⟩ := mem_leasable.mp hrow
      have hcount := ((ledger hs).book.job row hmem).attempts
      refine ⟨row.attemptCount, rfl, ?_⟩
      change ((runsOf (s.world.db.stageRuns ++ [_]) row.jobId).map StageRun.runId)[_]? = _
      rw [runsOf_append, if_pos rfl, List.map_append, hcount]
      simp
  · intro s e s' t log en _ _ hm hX stage workerId leasedUntil now lease heq
    obtain ⟨n, hn, hrun⟩ := hX stage workerId leasedUntil now lease heq
    obtain ⟨new, hnew⟩ := moved_runIdsOf hm lease.jobId
    obtain ⟨hlt, -⟩ := List.getElem?_eq_some_iff.mp hrun
    exact ⟨n, hn, by rw [← hnew, List.getElem?_append_left hlt, hrun]⟩

/-- Every run was begun by an attempt. -/
theorem attempt_of_run (h : Reachable host C s) {r : StageRun} (hr : r ∈ s.world.db.stageRuns) :
    ∃ i th lease, Attempt s i th lease ∧ lease.runId = r.runId ∧ lease.jobId = r.jobId := by
  obtain ⟨j, th, l, l', _, hth, hl, ⟨stage, workerId, leasedUntil, t, lease, rfl, hrun, hjob⟩,
      hissues⟩ :=
    written (R := fun db (x : UUID × UUID) => ∃ r ∈ db.stageRuns, (r.runId, r.jobId) = x)
      (O := fun x en => ∃ stage workerId leasedUntil t lease,
        en = ⟨.tx (.leaseNextJob stage workerId leasedUntil t), .ok (some lease)⟩ ∧
          lease.runId = x.1 ∧ lease.jobId = x.2) h (fun _ ⟨_, hr, _⟩ => absurd hr List.not_mem_nil)
      (fun w op r w' x hc ⟨r', hr', hx⟩ => by
        have hkept : ∀ {state : JobState} {now : Time} {runId : UUID},
            r' ∈ updateWhere (fun r => r.runId = runId) (endedRun state now) w.db.stageRuns →
            ∃ r ∈ w.db.stageRuns, (r.runId, r.jobId) = x := by
          intro state now runId hmem
          obtain ⟨old, hold, rfl⟩ := mem_updateWhere.mp hmem
          refine ⟨old, hold, ?_⟩
          split_ifs at hx <;> exact hx
        cases hc with
        | leased stage workerId leasedUntil now row hrow hnew =>
          rcases List.mem_append.mp hr' with hr' | hr'
          · exact Or.inl ⟨r', hr', hx⟩
          · obtain rfl := List.mem_singleton.mp hr'
            subst hx
            exact Or.inr ⟨stage, workerId, leasedUntil, now, _, rfl, rfl, rfl⟩
        | completed => exact Or.inl (hkept hr')
        | retried => exact Or.inl (hkept hr')
        | deadLettered => exact Or.inl (hkept hr')
        | _ => exact Or.inl ⟨r', hr', hx⟩) ⟨r, hr, rfl⟩
  refine ⟨j, th, lease, ⟨hth, ?_⟩, hrun, hjob⟩
  have hnone : leaseIn l = none := hissues.1
  rw [hl, leaseIn, List.findSome?_append]
  exact (congrArg (Option.or · _) hnone).trans rfl

section Numbers

variable {i j : ℕ} {th th' : Thread Op Op.Ans Exn Out Task} {lease lease' : JobLease}

theorem Attempt.eq (ha : Attempt s i th lease) (ha' : Attempt s i th' lease') :
    th = th' ∧ lease = lease' := by
  obtain rfl := Option.some.inj (ha.thread.symm.trans ha'.thread)
  exact ⟨rfl, Option.some.inj (ha.lease.symm.trans ha'.lease)⟩

theorem nodup_runIdsOf (h : Reachable host C s) (jobId : UUID) :
    (runIdsOf s.world.db jobId).Nodup :=
  (ledger h).book.runIds.sublist (List.filter_sublist.map _)

/-- Two attempts at a job have different numbers. -/
theorem Attempt.index_eq (ha : Attempt s i th lease) (ha' : Attempt s j th' lease')
    (h : Reachable host C s) (hjob : lease.jobId = lease'.jobId)
    (hcount : lease.attemptCount = lease'.attemptCount) : i = j := by
  obtain ⟨n, hn, hrun⟩ := ha.number h
  obtain ⟨n', hn', hrun'⟩ := ha'.number h
  obtain rfl : n = n' := by omega
  rw [hjob] at hrun
  exact (ledger h).apart i j th th' ha.thread ha'.thread lease lease' ha.lease ha'.lease
    (Option.some.inj (hrun.symm.trans hrun'))

theorem attempt_of_number (h : Reachable host C s) (jobId : UUID) {n : ℕ}
    (hn : n < (runIdsOf s.world.db jobId).length) :
    ∃ i th lease, Attempt s i th lease ∧ lease.jobId = jobId ∧ lease.attemptCount = n + 1 := by
  obtain ⟨r, hr, hid⟩ := List.mem_map.mp (List.getElem_mem hn)
  obtain ⟨hmem, rfl⟩ := mem_runsOf.mp hr
  obtain ⟨i, th, lease, ha, hrun, hjob⟩ := attempt_of_run h hmem
  obtain ⟨n', hn', hget⟩ := ha.number h
  refine ⟨i, th, lease, ha, hjob, ?_⟩
  have heq : (runIdsOf s.world.db r.jobId)[n]? = (runIdsOf s.world.db r.jobId)[n']? := by
    rw [hjob, hrun] at hget
    rw [hget, List.getElem?_eq_getElem hn, ← hid]
  have hnumber := List.getElem?_inj hn (nodup_runIdsOf h r.jobId) |>.mp heq
  omega

/-- A job that an attempt gave up had no later one, and all others rescheduled it. -/
theorem Attempt.last (ha : Attempt s i th lease) (h : Reachable host C s)
    (hend : endIn th.log = .deadLetter) :
    (runIdsOf s.world.db lease.jobId).length = lease.attemptCount ∧
      ∀ j th' lease', Attempt s j th' lease' → lease'.jobId = lease.jobId → j ≠ i →
        endIn th'.log = .retryWait := by
  have hledger := ledger h
  obtain ⟨r, hr, hrjob, hrrun, hrstate⟩ := (hledger.tenure i th ha.thread lease ha.lease).run
  obtain ⟨-, row, hrow, hid⟩ := hledger.book.run r hr
  have hmem : r ∈ runsOf s.world.db.stageRuns lease.jobId := mem_runsOf.mpr ⟨hr, hrjob⟩
  rcases (hledger.book.job row hrow).latest with ⟨hnil, -⟩ | ⟨rs, r₀, heq, -, hwaits⟩
  · rw [hid, hrjob] at hnil
    rw [hnil] at hmem
    cases hmem
  rw [hid, hrjob] at heq
  have hlast : r = r₀ := by
    rw [heq] at hmem
    rcases List.mem_append.mp hmem with hold | hnew
    · have hstate := hwaits r hold
      rw [hrstate, hend] at hstate
      cases hstate
    · exact List.mem_singleton.mp hnew
  subst hlast
  constructor
  · obtain ⟨n, hn, hget⟩ := ha.number h
    have hlength : (runIdsOf s.world.db lease.jobId).length = rs.length + 1 := by
      rw [runIdsOf, heq, List.length_map, List.length_append, List.length_singleton]
    have hget' : (runIdsOf s.world.db lease.jobId)[rs.length]? = some lease.runId := by
      rw [runIdsOf, heq, List.map_append, ← hrrun]
      simp
    have hnumber := List.getElem?_inj (by omega) (nodup_runIdsOf h lease.jobId) |>.mp
      (hget'.trans hget.symm)
    omega
  · intro j th' lease' ha' hjob hne
    obtain ⟨r', hr', hrjob', hrrun', hrstate'⟩ :=
      (hledger.tenure j th' ha'.thread lease' ha'.lease).run
    have hmem' : r' ∈ runsOf s.world.db.stageRuns lease.jobId :=
      mem_runsOf.mpr ⟨hr', hrjob'.trans hjob⟩
    rw [heq] at hmem'
    rcases List.mem_append.mp hmem' with hold | hnew
    · exact hrstate'.symm.trans (hwaits r' hold)
    · obtain rfl := List.mem_singleton.mp hnew
      exact absurd (hledger.apart j i th' th ha'.thread ha.thread lease' lease ha'.lease ha.lease
        (hrrun'.symm.trans hrrun)) hne

end Numbers

end Sentinel.Pipeline
