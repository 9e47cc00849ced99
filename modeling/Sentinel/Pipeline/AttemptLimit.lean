import Sentinel.Pipeline.Attempts
import Sentinel.Pipeline.Readable

/-!
# How often a job is attempted

An attempt that raises leaves its job to a retry only below `max_attempts`.  The workers that wait
for a decision or for an outcome window put their job off with a limit of their own, 10000, but only
after they have read it.

* `Patient`: when a program that does not raise leaves the job to a retry.
* `Attempt.below_limit`: the number of an attempt that leaves its job to a retry.
* `attemptCount_le`: no job is leased more often than its limit allows.
-/

namespace Sentinel.Pipeline

open Logic Contracts PipelineDB

variable {host : Host} {cfg : PipelineConfig} {C : State → PipelineEvent → Prop} {s : State}
  {lease : JobLease} {α β : Type}

/-! ## Leaving a job to a retry -/

/-- The program calls nothing after it has closed the job, and leaves it to a retry only with `c`. -/
def Patient (c : Log → Prop) (p : Program α) : Prop :=
  ∀ log, Open log → Always (fun l _ => Open l) (fun l _ => endIn l = .retryWait → c l) p log

section Patient

variable {c : Log → Prop} {p : Program α} {f : α → Program β}

theorem not_retryWait {log : Log} (h : Open log) : endIn log ≠ .retryWait := by
  intro heq
  rcases endIn_of_open h with hs | hs <;> rw [heq] at hs <;> cases hs

theorem patient_of_keeps (h : Keeps Open p) : Patient c p :=
  fun log hlog => (h log hlog).mono fun _ _ _ hl heq => absurd heq (not_retryWait hl)

theorem Patient.bind (hp : Keeps Open p) (hf : ∀ a, Patient c (f a)) : Patient c (p >>= f) :=
  fun log hlog => (hp log hlog).bind (fun l a _ hl => hf a l hl)
    fun _ _ _ hl heq => absurd heq (not_retryWait hl)

theorem Patient.map (hp : Patient c p) (g : α → β) : Patient c (p >>= fun a => pure (g a)) :=
  fun log hlog => (hp log hlog).bind (fun _ _ _ hl => hl) fun _ _ _ hl => hl

/-- A last call that is no retry. -/
theorem patient_perform {op : Op} (hop : op.ending ≠ some .retryWait) :
    Patient c (Prog.perform op : Program op.Ans) := by
  intro log hlog
  refine always_perform hlog fun r heq => ?_
  rw [endIn_concat] at heq
  cases r with
  | error e => exact absurd heq (not_retryWait hlog)
  | ok a =>
    cases hending : op.ending with
    | none => exact absurd (by simpa [endStep, hending] using heq) (not_retryWait hlog)
    | some state =>
      obtain rfl : state = .retryWait := by simpa [endStep, hending] using heq
      exact absurd hending hop

theorem patient_deadLetterJob {reason : Text} : Patient c (deadLetterJob lease reason) :=
  .bind (keeps_call rfl) fun _ => .bind (keeps_getMessage _) fun _ =>
    patient_perform (by simp [Op.ending])

theorem patient_completeJobRetry {error : Text} {delaySec maxAttempts : ℤ}
    (hc : ∀ l, lease.attemptCount < maxAttempts → c l) :
    Patient c (completeJobRetry lease error delaySec maxAttempts) := by
  unfold completeJobRetry
  split_ifs with hlimit
  · exact patient_deadLetterJob
  · refine .bind (keeps_call rfl) fun t log hlog => ?_
    exact always_perform (Φ := fun l _ => Open l) (Ψ := fun l _ => endIn l = .retryWait → c l) hlog
      fun r _ => hc _ (not_le.mp hlimit)

end Patient

/-! ## The workers that wait -/

theorem ApprovalWorker.patient_process :
    Patient (fun _ => lease.attemptCount < 10000) (process cfg lease) := by
  refine .bind (keeps_getMessage _) fun parent => .bind (keeps_call rfl) fun request => ?_
  cases request with
  | none => exact patient_deadLetterJob.map _
  | some request =>
    refine .bind keeps_pollStatus fun status => ?_
    cases status with
    | requested =>
      refine .bind (keeps_call rfl) fun t => (patient_completeJobRetry fun _ hlt => ?_).map _
      exact_mod_cast hlt
    | approved =>
      exact patient_of_keeps (keeps_getD.bind fun _ => keeps_getD.bind fun _ =>
        ExecutorWorker.keeps_submitOrder)
    | rejected => exact patient_of_keeps keeps_endApproval
    | expired => exact patient_of_keeps keeps_endApproval

/-- The message of the job was read and is a decision. -/
def ReadsDecision (log : Log) (lease : JobLease) : Prop :=
  ∃ row, Answered log (.tx (.fetchMessage lease.messageId)) (some row) ∧
    (ExecutionDecision.contract.load row.payload).isSome

theorem OutcomeWorker.patient_process :
    Patient (fun l => lease.attemptCount < 10000 ∧ ReadsDecision l lease) (process lease) := by
  intro log hlog
  have hopen : ∀ {l : Log} {op : Op} {r : Except Exn op.Ans}, Open l → op.closes = false →
      endIn (l ++ [⟨op, r⟩]) ≠ .retryWait := fun hl hop => not_retryWait (open_concat hl hop)
  unfold process getMessage
  simp only [Prog.bind_def, Prog.bind_assoc]
  refine always_perform_bind hlog (fun row => ?_) fun e heq => absurd heq (hopen hlog rfl)
  have hfetched : Open (log ++ [⟨.tx (.fetchMessage lease.messageId), .ok row⟩]) :=
    open_concat hlog rfl
  refine always_getD_bind (fun row' hrow => ?_) fun _ heq => absurd heq (not_retryWait hfetched)
  subst hrow
  refine always_perform_bind hfetched (fun alertId => ?_) fun e heq =>
    absurd heq (hopen hfetched rfl)
  have htraced : Open (log ++ [⟨.tx (.fetchMessage lease.messageId), .ok (some row')⟩] ++
      [⟨.tx (.sourceAlertIdForTrace row'.traceId), .ok alertId⟩]) := open_concat hfetched rfl
  refine always_getD_bind (fun alertId' _ => ?_) fun _ heq => absurd heq (not_retryWait htraced)
  refine always_getD_bind (fun decision hload => ?_) fun _ heq => absurd heq (not_retryWait htraced)
  -- from here on the message is known to be a decision
  refine Always.mono' (Φ := fun l _ => Open l)
    (Ψ := fun l _ => endIn l = .retryWait → lease.attemptCount < 10000) ?_ (fun _ _ _ hl => hl)
    fun l r hpre hl heq => ⟨hl heq, row', ?_, Option.isSome_of_eq_some hload⟩
  · split
    · exact patient_of_keeps (keeps_completeJobSuccess.bind fun _ => keeps_pure _) _ htraced
    · refine Patient.bind (keeps_call rfl) (fun rows => ?_) _ htraced
      split_ifs
      · exact patient_of_keeps (keeps_completeJobSuccess.bind fun _ => keeps_pure _)
      · refine .bind (keeps_call rfl) fun t => ?_
        split_ifs
        · refine .bind keeps_getD fun next => (patient_completeJobRetry fun _ hlt => ?_).map _
          exact_mod_cast hlt
        · exact patient_of_keeps ((keeps_observe _).bind fun _ => keeps_finish)
  · have hasked : Answered (log ++ [⟨.tx (.fetchMessage lease.messageId), .ok (some row')⟩])
        (.tx (.fetchMessage lease.messageId)) (some row') := answered_last
    exact (hasked.prefix_of (List.prefix_append _ _)).prefix_of hpre

/-! ## The attempts at a job -/

/-- The worker of the job may put it off while there is nothing to do. -/
def JobKey.waits (db : PipelineDB) (k : JobKey) : Bool :=
  k.stage = .approval || k.stage = .outcome && !k.isFollowUp db

/-- The limit of the handler of an exception; the first attempt is made in any case. -/
def attemptLimit (q : QueueSection) : ℕ := max 1 q.maxAttempts.toNat

def pollLimit (q : QueueSection) : ℕ := max 10000 (attemptLimit q)

/-- How often the job is leased at most. -/
def JobKey.limit (q : QueueSection) (db : PipelineDB) (k : JobKey) : ℕ :=
  if k.waits db then pollLimit q else attemptLimit q

theorem attemptLimit_le_limit {q : QueueSection} {db : PipelineDB} {k : JobKey} :
    attemptLimit q ≤ k.limit q db := by
  unfold JobKey.limit pollLimit
  split_ifs <;> omega

section Attempts

variable {i : ℕ} {th : Thread Op Op.Ans Exn Out Task}

theorem Attempt.key (ha : Attempt s i th lease) (h : Reachable host C s) :
    lease.key ∈ s.world.db.jobKeys ∧ th.task.stage = some lease.key.stage := by
  obtain ⟨stage, hleased⟩ := ha.leased
  obtain ⟨workerId, leasedUntil, t, hasked⟩ := hleased.asked
  obtain ⟨rfl, hkey⟩ : lease.stage = stage ∧ lease.key ∈ s.world.db.jobKeys :=
    told h ha.thread hasked
  exact ⟨hkey, hleased.stage h ha.thread (List.prefix_refl _)⟩

/-- Without an exception a job is left to a retry only by a worker that waits for something. -/
theorem Attempt.waited (ha : Attempt s i th lease) (h : Reachable host C s)
    (hraised : ¬ Raised host.cfg th lease) (hend : endIn th.log = .retryWait) :
    lease.attemptCount < 10000 ∧ lease.key.waits s.world.db = true := by
  obtain ⟨hopen, p, hp⟩ := ha.plays h
  obtain ⟨hkey, hstage⟩ := ha.key h
  rcases plays_tryCatch hp with ⟨p', hp', -⟩ | ⟨l, l', e, hl, hraise, -⟩
  · have hpatient : ∀ {c : Log → Prop}, Patient c (th.task.process host.cfg lease) → c th.log := by
      intro c hc
      have hrest := ((hc _ hopen).plays hp').1
      rw [List.take_append_drop] at hrest
      cases p' with
      | ret b => exact hrest hend
      | raise e => exact hrest hend
      | call op k => exact absurd hend (not_retryWait hrest.1)
    generalize htask : th.task = task at hpatient hstage
    cases task with
    | researcher => exact (hpatient (c := fun _ => False) (patient_of_keeps ResearcherWorker.keeps_process)).elim
    | analyst => exact (hpatient (c := fun _ => False) (patient_of_keeps AnalystWorker.keeps_process)).elim
    | executor => exact (hpatient (c := fun _ => False) (patient_of_keeps ExecutorWorker.keeps_process)).elim
    | approval =>
      have hkeyStage := Option.some.inj hstage
      exact ⟨hpatient ApprovalWorker.patient_process, by simp [JobKey.waits, ← hkeyStage]⟩
    | outcome =>
      have hkeyStage := Option.some.inj hstage
      obtain ⟨hlt, row, hasked, hload⟩ := hpatient OutcomeWorker.patient_process
      have hfound : s.world.db.findMessage lease.key.messageId = some row :=
        told h ha.thread hasked
      have hreadable : lease.key.readable s.world.db = true := by
        rw [JobKey.readable, hfound, Option.any_some, ← hkeyStage]
        exact hload
      have hnot := (readable_iff h hkey).mp hreadable
      exact ⟨hlt, by simp [JobKey.waits, ← hkeyStage, hnot]⟩
    | ingress | approve | reject => cases hstage
  · refine absurd ?_ hraised
    rw [Raised, hl]
    exact hraise.raises l'

theorem Attempt.below_limit (ha : Attempt s i th lease) (h : Reachable host C s)
    (hend : endIn th.log = .retryWait) :
    lease.attemptCount < lease.key.limit host.cfg.queue s.world.db := by
  by_cases hraised : Raised host.cfg th lease
  · have hlt := (ha.raised h hraised).2 hend
    have hle : attemptLimit host.cfg.queue ≤ lease.key.limit host.cfg.queue s.world.db :=
      attemptLimit_le_limit
    unfold attemptLimit at hle
    omega
  · obtain ⟨hlt, hwaits⟩ := ha.waited h hraised hend
    rw [JobKey.limit, if_pos hwaits, pollLimit]
    omega

/-- An attempt after which there was another one left its job to a retry. -/
theorem Attempt.earlier (ha : Attempt s i th lease) (h : Reachable host C s)
    (hlt : lease.attemptCount < (runIdsOf s.world.db lease.jobId).length) :
    endIn th.log = .retryWait := by
  have hledger := ledger h
  obtain ⟨n, hn, hget⟩ := ha.number h
  obtain ⟨r, hr, -, hrun, hstate⟩ := (hledger.tenure i th ha.thread lease ha.lease).run
  obtain ⟨r', hr', hrun'⟩ : ∃ r', (runsOf s.world.db.stageRuns lease.jobId)[n]? = some r' ∧
      r'.runId = lease.runId := by
    rw [runIdsOf, List.getElem?_map, Option.map_eq_some_iff] at hget
    exact hget
  have hmem := mem_runsOf.mp (List.mem_of_getElem? hr')
  obtain rfl : r = r' := eq_of_nodup hledger.book.runIds hr hmem.1 (hrun.trans hrun'.symm)
  obtain ⟨-, row, hrow, hid⟩ := hledger.book.run r hr
  rw [← hstate]
  rcases (hledger.book.job row hrow).latest with ⟨hnil, -⟩ | ⟨rs, last, heq, -, hwaits⟩
  · rw [hid, hmem.2] at hnil
    rw [hnil] at hr'
    cases hr'
  · rw [hid, hmem.2] at heq
    rw [runIdsOf, List.length_map, heq, List.length_append, List.length_singleton] at hlt
    rw [heq, List.getElem?_append_left (by omega)] at hr'
    exact hwaits r (List.mem_of_getElem? hr')

end Attempts

theorem attemptCount_le (h : Reachable host C s) {row : StageJob} (hrow : row ∈ s.world.db.stageJobs) :
    row.attemptCount ≤ row.key.limit host.cfg.queue s.world.db := by
  have hcount := ((ledger h).book.job row hrow).attempts
  have hlength : (runIdsOf s.world.db row.jobId).length = row.attemptCount := by
    rw [runIdsOf, List.length_map, hcount]
  have hone : 1 ≤ row.key.limit host.cfg.queue s.world.db :=
    le_trans (Nat.le_max_left _ _) attemptLimit_le_limit
  by_contra hlt
  -- the attempt before the last one was below the limit
  obtain ⟨i, th, lease, ha, hjob, hnumber⟩ :=
    attempt_of_number h row.jobId (n := row.attemptCount - 2) (by omega)
  have hbelow := ha.below_limit h (ha.earlier h (by rw [hjob]; omega))
  have hkey : lease.key = row.key :=
    eq_of_nodup (wellFormed h).jobId (ha.key h).1 (mem_jobKeys.mpr ⟨row, hrow, rfl⟩) hjob
  rw [hkey] at hbelow
  omega

end Sentinel.Pipeline
