import Sentinel.Pipeline.Attempts
import Sentinel.Pipeline.Bookkeeping
import Sentinel.Pipeline.Stranded

/-!
# Who holds a running job

The row of a job says `running` from its lease to the end of its run.  In between one worker holds
it, and a worker that returns has let go of it: a row stays `running` only if the worker was stopped
or could not even record its failure.

* `EndsRun`: a program that ends the run of its job whenever it returns.
* `held_unless_returned`: who has returned holds no job.
* `running_iff_held`: a job is running just while one worker holds it.
-/

namespace Sentinel.Pipeline

open Logic Contracts PipelineDB

variable {host : Host} {cfg : PipelineConfig} {lease : JobLease}

/-! ## Programs that end the run of their job -/

/-- A completion, a retry or a dead letter has committed. -/
def Ended (log : Log) : Prop := endIn log ≠ .running

theorem Ended.concat {log : Log} {en : Entry Op Op.Ans Exn} (h : Ended log) :
    Ended (log ++ [en]) := by
  obtain ⟨op, r⟩ := en
  unfold Ended
  rw [endIn_concat]
  cases r with
  | error e => exact h
  | ok a =>
    cases op with
    | tx t => cases t <;> first | exact h | nofun
    | _ => exact h

theorem Ended.mono {log l : Log} (h : Ended log) (hpre : log <+: l) : Ended l := by
  obtain ⟨l', rfl⟩ := hpre
  induction l' using List.reverseRecOn with
  | nil => simpa using h
  | append_singleton l' en ih =>
    rw [← List.append_assoc]
    exact ih.concat

/-- Whenever the program returns, the run has been ended. -/
def EndsRun {α : Type} (p : Program α) : Prop :=
  ∀ log, Always (fun _ _ => True) (fun l r => ∀ a, r = .ok a → Ended l) p log

section EndsRun

variable {α β : Type} {p : Program α}

/-- What runs before does not matter. -/
theorem EndsRun.of_rest {f : α → Program β} (h : ∀ a, EndsRun (f a)) : EndsRun (p >>= f) := by
  intro log
  have hp : Always (fun _ _ => True) (fun (_ : Log) (_ : Except Exn α) => True) p log :=
    always_of (fun _ _ => trivial) fun _ _ => trivial
  exact hp.bind (fun l a _ _ => h a l) fun _ _ _ _ => nofun

/-- Nor does what runs after. -/
theorem EndsRun.bind (h : EndsRun p) (f : α → Program β) : EndsRun (p >>= f) := by
  refine fun log => (h log).bind (fun l a _ hl => ?_) fun _ _ _ _ => nofun
  have hrest : Always (fun _ _ => True) (fun (_ : Log) (_ : Except Exn β) => True) (f a) l :=
    always_of (fun _ _ => trivial) fun _ _ => trivial
  exact hrest.mono fun l' _ hpre _ _ _ => (hl a rfl).mono hpre

theorem EndsRun.tryCatch {h : Exn → Program α} (hp : EndsRun p) (hh : ∀ e, EndsRun (h e)) :
    EndsRun (p.tryCatch h) :=
  fun log => (hp log).tryCatch (fun _ _ _ hl => hl) fun l e _ _ => hh e l

theorem endsRun_raise (e : Exn) : EndsRun (.raise e : Program α) := fun _ => nofun

theorem endsRun_perform {op : Op} (hop : op.ending ≠ none) (hnot : op.ending ≠ some .running) :
    EndsRun (Prog.perform op : Program op.Ans) := by
  refine fun log => always_perform trivial fun r a hr => ?_
  subst hr
  unfold Ended
  rw [endIn_concat]
  obtain ⟨state, hstate⟩ := Option.ne_none_iff_exists'.mp hop
  show op.ending.getD _ ≠ _
  rw [hstate]
  exact fun heq => hnot (hstate.trans (congrArg some heq))

end EndsRun

theorem endsRun_completeJobSuccess {output : Option PipelineEnvelope} {next : Option StageName}
    {availableAt : Option Time} {status : String} :
    EndsRun (completeJobSuccess lease output next availableAt status) :=
  EndsRun.of_rest fun _ => endsRun_perform (by simp [Op.ending]) (by simp [Op.ending])

theorem endsRun_deadLetterJob {reason : Text} : EndsRun (deadLetterJob lease reason) :=
  EndsRun.of_rest fun _ => EndsRun.of_rest fun _ =>
    endsRun_perform (by simp [Op.ending]) (by simp [Op.ending])

theorem endsRun_completeJobRetry {error : Text} {delaySec maxAttempts : ℤ} :
    EndsRun (completeJobRetry lease error delaySec maxAttempts) := by
  unfold completeJobRetry
  split_ifs
  · exact endsRun_deadLetterJob
  · exact EndsRun.of_rest fun _ => endsRun_perform (by simp [Op.ending]) (by simp [Op.ending])

/-! ## The workers -/

theorem ResearcherWorker.endsRun_process : EndsRun (process cfg lease) :=
  EndsRun.of_rest fun _ => EndsRun.of_rest fun _ => EndsRun.of_rest fun _ =>
    EndsRun.of_rest fun _ => endsRun_completeJobSuccess.bind _

theorem AnalystWorker.endsRun_process : EndsRun (process cfg lease) :=
  EndsRun.of_rest fun _ => EndsRun.of_rest fun _ => EndsRun.of_rest fun _ =>
    EndsRun.of_rest fun _ => EndsRun.of_rest fun _ => EndsRun.of_rest fun _ =>
      endsRun_completeJobSuccess.bind _

theorem ExecutorWorker.endsRun_submitOrder {parent : PipelineEnvelope} {intent : TradeIntent}
    {checks : List RiskCheckResult} {stage : StageName} :
    EndsRun (submitOrder cfg lease parent intent checks stage) :=
  EndsRun.of_rest fun _ => EndsRun.of_rest fun _ => endsRun_completeJobSuccess.bind _

theorem ExecutorWorker.endsRun_rejectRisk {parent : PipelineEnvelope} {selected : Option UUID}
    {checks : List RiskCheckResult} {summary : String} :
    EndsRun (rejectRisk cfg lease parent selected checks summary) :=
  EndsRun.of_rest fun _ => endsRun_completeJobSuccess.bind _

theorem ExecutorWorker.endsRun_process : EndsRun (process cfg lease) := by
  refine EndsRun.of_rest fun parent => EndsRun.of_rest fun report => ?_
  split
  · exact endsRun_rejectRisk
  · refine EndsRun.of_rest fun _ => EndsRun.of_rest fun _ => EndsRun.of_rest fun _ => ?_
    split
    · exact endsRun_raise _
    · split_ifs
      · refine EndsRun.of_rest fun _ => EndsRun.of_rest fun _ => ?_
        dsimp only
        split_ifs
        · exact EndsRun.of_rest fun _ => EndsRun.of_rest fun _ => endsRun_completeJobSuccess.bind _
        · exact endsRun_submitOrder
      · exact endsRun_rejectRisk

theorem ApprovalWorker.endsRun_endApproval {parent : PipelineEnvelope} {status : ApprovalStatus} :
    EndsRun (endApproval lease parent status) :=
  EndsRun.of_rest fun _ => EndsRun.of_rest fun _ => EndsRun.of_rest fun _ =>
    endsRun_completeJobSuccess.bind _

theorem ApprovalWorker.endsRun_process : EndsRun (process cfg lease) := by
  refine EndsRun.of_rest fun parent => EndsRun.of_rest fun request => ?_
  cases request with
  | none => exact endsRun_deadLetterJob.bind _
  | some request =>
    refine EndsRun.of_rest fun status => ?_
    cases status with
    | requested => exact EndsRun.of_rest fun _ => endsRun_completeJobRetry.bind _
    | approved =>
      exact EndsRun.of_rest fun _ => EndsRun.of_rest fun _ => ExecutorWorker.endsRun_submitOrder
    | rejected | expired => exact endsRun_endApproval

theorem OutcomeWorker.endsRun_finish {parent : PipelineEnvelope} {observedCount : ℕ} :
    EndsRun (finish lease parent observedCount) := by
  refine EndsRun.of_rest fun rows => EndsRun.of_rest fun envelope => ?_
  split <;> exact endsRun_completeJobSuccess.bind _

theorem OutcomeWorker.endsRun_process : EndsRun (process lease) := by
  refine EndsRun.of_rest fun parent => EndsRun.of_rest fun decision => ?_
  split
  · exact endsRun_completeJobSuccess.bind _
  · refine EndsRun.of_rest fun rows => ?_
    split_ifs
    · exact endsRun_completeJobSuccess.bind _
    · refine EndsRun.of_rest fun now => ?_
      dsimp only
      split_ifs
      · exact EndsRun.of_rest fun _ => endsRun_completeJobRetry.bind _
      · exact EndsRun.of_rest fun _ => endsRun_finish

/-! ## Who has returned -/

/-- A worker that returns has ended its run, if it has leased a job. -/
def LetsGo {α : Type} (log : Log) (r : Except Exn α) : Prop := ∀ a, r = .ok a → heldIn log = none

theorem Ended.heldIn {log : Log} (h : Ended log) : heldIn log = none := if_neg h

theorem letsGo_processNext {q : QueueSection} {stage : StageName} {workerId : Text}
    {process : JobLease → Program Bool} (h : ∀ lease, EndsRun (process lease)) :
    Always (fun _ _ => True) LetsGo (processNext q stage workerId process) [] := by
  have hretry : ∀ lease e, EndsRun (retryLater q lease e) :=
    fun _ _ => endsRun_completeJobRetry.bind _
  have hlease : Always (fun _ _ => True)
      (fun l r => r = .ok none → leaseIn l = none) (leaseNextJob q stage workerId) [] := by
    refine ⟨trivial, fun r => ?_⟩
    cases r with
    | error e => exact nofun
    | ok t =>
      refine ⟨trivial, fun r => ?_⟩
      cases r with
      | error e => exact nofun
      | ok lease => exact fun hr => by rw [Except.ok.inj hr]; rfl
  refine hlease.bind (fun l lease _ hl => ?_) fun _ _ _ _ => nofun
  cases lease with
  | none => exact fun _ _ => by unfold heldIn; rw [hl rfl]; exact ite_self none
  | some lease => exact ((h lease).tryCatch (hretry lease) l).mono fun _ _ _ hl a ha => (hl a ha).heldIn

theorem letsGo_body {t : Task} (ht : t.stage ≠ none) :
    Always (fun _ _ => True) LetsGo (t.body host) [] := by
  have hmap : ∀ {p : Program Bool}, Always (fun _ _ => True) LetsGo p [] →
      Always (fun _ _ => True) LetsGo (p >>= fun b => pure (Out.processed b)) [] :=
    fun hp => hp.bind (fun l a _ hl _ _ => hl a rfl) fun _ _ _ _ => nofun
  cases t with
  | researcher workerId =>
    exact hmap (letsGo_processNext fun _ => ResearcherWorker.endsRun_process)
  | analyst workerId => exact hmap (letsGo_processNext fun _ => AnalystWorker.endsRun_process)
  | executor workerId => exact hmap (letsGo_processNext fun _ => ExecutorWorker.endsRun_process)
  | approval workerId => exact hmap (letsGo_processNext fun _ => ApprovalWorker.endsRun_process)
  | outcome workerId => exact hmap (letsGo_processNext fun _ => OutcomeWorker.endsRun_process)
  | _ => exact absurd rfl ht

variable {C : State → PipelineEvent → Prop} {s : State}

/-- Who has returned holds no job. -/
theorem held_unless_returned (h : Reachable host C s) {i : ℕ} {th : Thread Op Op.Ans Exn Out Task}
    (hth : s.threads[i]? = some th) {out : Out} (hout : th.result = some (.ok out)) :
    heldIn th.log = none := by
  by_cases ht : th.task.stage = none
  · cases hl : leaseIn th.log with
    | none => simp [heldIn, hl]
    | some lease =>
      obtain ⟨stage, workerId, leasedUntil, t, hasked⟩ := answered_of_leaseIn hl
      obtain ⟨_, _, _, hleases⟩ :=
        (issued_reach (M := machine host) leasesAt_body h i th hth).mem hasked
      cases ht.symm.trans (hleases _ _ _ _ rfl)
  · have hissued := issued_reach (M := machine host) (Φ := fun _ _ _ => True)
      (Ψ := fun t l r => t.stage ≠ none → LetsGo l r) (fun t => ?_) h i th hth
    · exact hissued.ended hout ht out rfl
    · by_cases ht : t.stage = none
      · exact always_of (fun _ _ => trivial) fun _ _ hne => absurd ht hne
      · exact (letsGo_body ht).mono fun _ _ _ hl _ => hl

/-! ## Running jobs -/

/-- The thread has leased the job and not ended its run. -/
def HeldBy (s : State) (jobId : UUID) (i : ℕ) : Prop :=
  ∃ th lease, s.threads[i]? = some th ∧ heldIn th.log = some lease ∧ lease.jobId = jobId

theorem heldIn_congr {log log' : Log} (hlease : leaseIn log' = leaseIn log)
    (hend : endIn log' = endIn log) : heldIn log' = heldIn log := by
  unfold heldIn
  rw [hlease, hend]

/-- No call leaves a job running that ends its run. -/
theorem not_running_of_ended {en : Entry Op Op.Ans Exn} {state : JobState}
    (hop : en.op.endsLease = some lease) (hcommit : ∃ a, en.ans = .ok a)
    (hend : ∀ log, endIn (log ++ [en]) = state) : state ≠ .running := by
  obtain ⟨op, r⟩ := en
  obtain ⟨a, rfl⟩ : ∃ a, r = .ok a := hcommit
  rw [← hend []]
  dsimp only at hop
  unfold Op.endsLease at hop
  split at hop
  · exact (fun h => nomatch h)
  · exact (fun h => nomatch h)
  · exact (fun h => nomatch h)
  · cases hop

theorem holders_act {i : ℕ} {inp : Input} {t : Task} {log : Log} {op : Op}
    {k : Except Exn op.Ans → Program Out} {r : Except Exn op.Ans} {w' : World}
    (h : Reachable host C s) (hth : s.threads[i]? = some ⟨t, log, .call op k, true⟩)
    (hc : s.world.call op inp = some (r, w'))
    (ih : ∀ j ∈ s.world.db.stageJobs, j.state = .running → ∃ i, HeldBy s j.jobId i) :
    ∀ j ∈ w'.db.stageJobs, j.state = .running →
      ∃ i', HeldBy ⟨w', s.threads.set i ⟨t, log ++ [⟨op, r⟩], k r, true⟩⟩ j.jobId i' := by
  obtain ⟨hlt, -⟩ := List.getElem?_eq_some_iff.mp hth
  have hself := List.getElem?_set_self (a := (⟨t, log ++ [⟨op, r⟩], k r, true⟩ :
    Thread Op Op.Ans Exn Out Task)) hlt
  -- a holder keeps the job unless it is the thread that made the call and lost it
  have hkept : ∀ {jobId : UUID} {i' : ℕ}, HeldBy s jobId i' →
      (i' = i → heldIn (log ++ [⟨op, r⟩]) = heldIn log) →
      HeldBy ⟨w', s.threads.set i ⟨t, log ++ [⟨op, r⟩], k r, true⟩⟩ jobId i' := by
    rintro jobId i' ⟨th, lease, hi', hheld, hid⟩ hsame
    by_cases heq : i' = i
    · subst heq
      obtain rfl := Option.some.inj (hth.symm.trans hi')
      exact ⟨_, lease, hself, (hsame rfl).trans hheld, hid⟩
    · exact ⟨th, lease, (List.getElem?_set_ne (Ne.symm heq)).trans hi', hheld, hid⟩
  have hledger := ledger h
  cases (called hc).queue with
  | quiet hen hjobs hruns hdead =>
    intro j hj hrunning
    have hsame : heldIn (log ++ [⟨op, r⟩]) = heldIn log := heldIn_congr (hen log).1 (hen log).2
    have hold : j ∈ s.world.db.stageJobs := by
      rcases hjobs with heq | ⟨row, -, hstate, -, heq⟩
      · exact heq ▸ hj
      · rcases List.mem_append.mp (heq ▸ hj) with hj | hj
        · exact hj
        · obtain rfl := List.mem_singleton.mp hj
          cases hstate.symm.trans hrunning
    obtain ⟨i', hheld⟩ := ih j hold hrunning
    exact ⟨i', hkept hheld fun _ => hsame⟩
  | leased row run lease workerId leasedUntil hleases hrow hwaits hjob hstate hnew hlease hend hid
      hrun hjobs hruns hdead =>
    intro j hj hrunning
    have hbody := issued_reach (M := machine host) orderly_body h i _ hth
    have hnone : leaseIn log = none := (hbody.next rfl).lease hleases
    have hidle := hledger.idle i _ hth hnone
    obtain ⟨j₀, hj₀, ⟨hne, rfl⟩ | ⟨heq, rfl⟩⟩ := mem_update_job (hjobs ▸ hj)
    · obtain ⟨i', hheld⟩ := ih j hj₀ hrunning
      refine ⟨i', hkept hheld fun heq => ?_⟩
      -- the thread that leases has held nothing
      obtain ⟨th, lease', hi', hheld', -⟩ := hheld
      subst heq
      obtain rfl := Option.some.inj (hth.symm.trans hi')
      cases hnone.symm.trans (heldIn_eq_some hheld').2.1
    · refine ⟨i, _, lease, hself, ?_, ?_⟩
      · show heldIn (log ++ [⟨op, r⟩]) = some lease
        unfold heldIn
        rw [hend log, hlease log hnone, if_pos hidle]
      · show lease.jobId = j₀.jobId
        rw [hid, heq]
  | ended lease state jobs availableAt error now new hends hcommit hstate hlease hend hold hnew
      hlength hjobs hruns hdead =>
    intro j hj hrunning
    obtain ⟨j₀, hj₀, ⟨hne, rfl⟩ | ⟨-, rfl⟩⟩ := mem_update_job (hjobs ▸ hj)
    · have hmem : j ∈ s.world.db.stageJobs := by
        rcases hold with rfl | ⟨row, -, hqueued, -, rfl⟩
        · exact hj₀
        · rcases List.mem_append.mp hj₀ with hj₀ | hj₀
          · exact hj₀
          · obtain rfl := List.mem_singleton.mp hj₀
            cases hqueued.symm.trans hrunning
      obtain ⟨i', hheld⟩ := ih j hmem hrunning
      refine ⟨i', hkept hheld fun heq => ?_⟩
      -- the thread that ends a run holds that job and no other
      obtain ⟨th, lease', hi', hheld', hid'⟩ := hheld
      subst heq
      obtain rfl := Option.some.inj (hth.symm.trans hi')
      have hbody := issued_reach (M := machine host) orderly_body h i' _ hth
      obtain ⟨hl, -⟩ := (hbody.next rfl).ends lease hends
      obtain rfl := Option.some.inj (hl.symm.trans (heldIn_eq_some hheld').2.1)
      exact absurd hid'.symm hne
    · exact absurd hrunning (not_running_of_ended hends hcommit hend)

theorem exists_holder (h : Reachable host C s) :
    ∀ j ∈ s.world.db.stageJobs, j.state = .running → ∃ i, HeldBy s j.jobId i := by
  refine h.rec_moved (I := fun s => ∀ j ∈ s.world.db.stageJobs, j.state = .running →
    ∃ i, HeldBy s j.jobId i) (fun j hj => absurd hj List.not_mem_nil) ?_
  intro s e s' hs hC ih hm j hj hrunning
  cases hm with
  | idle => exact ih j hj hrunning
  | env e => cases e <;> exact ih j hj hrunning
  | start t =>
    obtain ⟨i, th, lease, hi, hheld⟩ := ih j hj hrunning
    obtain ⟨hlt, -⟩ := List.getElem?_eq_some_iff.mp hi
    exact ⟨i, th, lease, by rw [List.getElem?_append_left hlt]; exact hi, hheld⟩
  | crash i th hth =>
    obtain ⟨i', th', lease, hi', hheld⟩ := ih j hj hrunning
    by_cases heq : i' = i
    · subst heq
      obtain rfl := Option.some.inj (hth.symm.trans hi')
      obtain ⟨hlt, -⟩ := List.getElem?_eq_some_iff.mp hth
      exact ⟨i', _, lease, List.getElem?_set_self hlt, hheld⟩
    · exact ⟨i', th', lease, (List.getElem?_set_ne (Ne.symm heq)).trans hi', hheld⟩
  | act i inp t log op k r w' hth hc => exact holders_act hs hth hc ih j hj hrunning

/-- In every reachable state a job is running just while exactly one worker step holds it, and no
step that has returned does. -/
theorem running_iff_held (h : Reachable host C s) :
    (∀ j ∈ s.world.db.stageJobs, j.state = .running ↔ ∃! i, HeldBy s j.jobId i) ∧
      ∀ jobId i, HeldBy s jobId i →
        ∀ th ∈ s.threads[i]?, ∀ out, th.result ≠ some (.ok out) := by
  have hledger := ledger h
  refine ⟨fun j hj => ⟨fun hrunning => ?_, ?_⟩, ?_⟩
  · obtain ⟨i, hheld⟩ := exists_holder h j hj hrunning
    refine ⟨i, hheld, ?_⟩
    rintro i' ⟨th', lease', hi', hheld', hid'⟩
    obtain ⟨th, lease, hi, hheld, hid⟩ := hheld
    obtain ⟨-, hl, hopen⟩ := heldIn_eq_some hheld
    obtain ⟨-, hl', hopen'⟩ := heldIn_eq_some hheld'
    exact hledger.exclusive hi' hi hl' hl hopen' hopen (hid'.trans hid.symm)
  · rintro ⟨i, ⟨th, lease, hi, hheld, hid⟩, -⟩
    obtain ⟨hrunning, hl, hopen⟩ := heldIn_eq_some hheld
    have hlast := (hledger.tenure i th hi lease hl).latest hopen
    rw [hid, hrunning] at hlast
    exact (hledger.book.job j hj).state_eq hlast
  · rintro jobId i ⟨th, lease, hi, hheld, -⟩ th' hth' out hout
    obtain rfl := Option.some.inj (hi.symm.trans hth')
    cases hheld.symm.trans (held_unless_returned h hi hout)

theorem running_iff_held_stopped :
    ∃ s, (∃ j ∈ s.world.db.stageJobs, j.state = .running) ∧
      (∀ j ∈ s.world.db.stageJobs, j.state = .running ↔ ∃! i, HeldBy s j.jobId i) ∧
      ∀ jobId i, HeldBy s jobId i → ∀ th ∈ s.threads[i]?, ∀ out, th.result ≠ some (.ok out) :=
  ⟨run (Sample.host "auto") Sample.strandedEvents, by decide +kernel,
    running_iff_held (reachable_run _ Sample.strandedEvents)⟩

end Sentinel.Pipeline
