import Mathlib.Data.List.Induction
import Sentinel.Pipeline.Endings
import Sentinel.Pipeline.Ledger

/-!
# The leases of a queue

The queue keeps its books because of how it is used: a thread leases one job, ends only the run it
has leased, and makes no further call to end it after a retry or a dead letter (`Orderly`).  This is
proved of any family of orderly programs that share the database, and holds of the workers of the
pipeline next to any callers of `enqueue_job`.

* `endIn`: the state in which the log of a thread leaves the run it leased.
* `Tenure`: the run of a thread is in the table, in that state.
* `ledger_reach`: the books and the tenures hold in every reachable state.
-/

namespace Sentinel.Pipeline

open Logic Contracts PipelineDB

/-! ## Reading a log -/

/-- The state in which the call leaves the run it ends. -/
def Op.ending : Op → Option JobState
  | .tx (.completeJobSuccess ..) => some .succeeded
  | .tx (.completeJobRetry ..) => some .retryWait
  | .tx (.deadLetterJob ..) => some .deadLetter
  | _ => none

/-- The lease that the call ends. -/
def Op.endsLease : Op → Option JobLease
  | .tx (.completeJobSuccess lease ..) | .tx (.completeJobRetry lease ..)
  | .tx (.deadLetterJob lease ..) => some lease
  | _ => none

def Op.leases : Op → Bool
  | .tx (.leaseNextJob ..) => true
  | _ => false

/-- The state in which a call leaves the run that was in the state before. -/
def endStep (state : JobState) : Entry Op Op.Ans Exn → JobState
  | ⟨op, .ok _⟩ => op.ending.getD state
  | ⟨_, .error _⟩ => state

/-- The state in which the log leaves the run it leased. -/
def endIn (log : Log) : JobState := log.foldl endStep .running

theorem endIn_concat {log : Log} {en : Entry Op Op.Ans Exn} :
    endIn (log ++ [en]) = endStep (endIn log) en := by
  simp [endIn]

theorem endIn_of_open {log : Log} (h : Open log) :
    endIn log = .running ∨ endIn log = .succeeded := by
  induction log using List.reverseRecOn with
  | nil => exact Or.inl rfl
  | append_singleton log en ih =>
    obtain ⟨hlog, hen⟩ := open_append.mp h
    obtain ⟨op, r⟩ := en
    rw [endIn_concat]
    cases r with
    | error e => exact ih hlog
    | ok a =>
      cases hop : op.closes with
      | true =>
        obtain ⟨e, he⟩ := hen _ (List.mem_singleton.mpr rfl) hop
        cases he
      | false =>
        cases op with
        | tx t =>
          cases t with
          | completeJobSuccess => exact Or.inr rfl
          | completeJobRetry => cases hop
          | deadLetterJob => cases hop
          | _ => exact ih hlog
        | _ => exact ih hlog

theorem Op.closes_eq_false {op : Op} (h : op.ending = none) : op.closes = false := by
  cases op with
  | tx t => cases t <;> first | rfl | cases h
  | _ => rfl

/-- A run that the log leaves running was ended by no call. -/
theorem open_of_endIn {log : Log} (h : endIn log = .running) : Open log := by
  induction log using List.reverseRecOn with
  | nil => exact open_nil
  | append_singleton log en ih =>
    obtain ⟨op, r⟩ := en
    rw [endIn_concat] at h
    cases r with
    | error e =>
      refine open_append.mpr ⟨ih h, fun en hen _ => ?_⟩
      obtain rfl := List.mem_singleton.mp hen
      exact ⟨e, rfl⟩
    | ok a =>
      have hclosed : op.ending = none := by
        cases op with
        | tx t => cases t <;> first | rfl | cases h
        | _ => rfl
      have hlog : endIn log = .running := by simpa [endStep, hclosed] using h
      refine open_append.mpr ⟨ih hlog, fun en hen hcloses => ?_⟩
      obtain rfl := List.mem_singleton.mp hen
      cases (Op.closes_eq_false hclosed).symm.trans hcloses

/-- How a thread may use the queue. -/
structure Orderly (log : Log) (op : Op) : Prop where
  lease : op.leases = true → leaseIn log = none
  ends : ∀ lease, op.endsLease = some lease → leaseIn log = some lease ∧ Open log

/-! ## What a call does to the queue -/

/-- The call neither leased nor ended a run. -/
def Quiet (en : Entry Op Op.Ans Exn) : Prop :=
  ∀ log, leaseIn (log ++ [en]) = leaseIn log ∧ endIn (log ++ [en]) = endIn log

theorem quiet_of {en : Entry Op Op.Ans Exn} (h : leaseIn [en] = none)
    (h' : ∀ state, endStep state en = state) : Quiet en := by
  refine fun log => ⟨?_, by rw [endIn_concat, h']⟩
  rw [leaseIn, List.findSome?_append]
  exact (congrArg _ h).trans Option.or_none

theorem quiet_error {op : Op} {e : Exn} : Quiet ⟨op, .error e⟩ := by
  refine quiet_of ?_ fun _ => rfl
  cases op with
  | tx t => cases t <;> rfl
  | _ => rfl

/-- The jobs of before, with at most one new job that has not run. -/
def Enqueued (jobs jobs' : List StageJob) : Prop :=
  jobs' = jobs ∨ ∃ row, (∀ j ∈ jobs, j.jobId ≠ row.jobId) ∧ row.state = .queued ∧
    row.attemptCount = 0 ∧ jobs' = jobs ++ [row]

theorem Book.enqueued {jobs jobs' : List StageJob} {runs : List StageRun}
    {deadLetters : List DeadLetter} (h : Book jobs runs deadLetters) (hjobs : Enqueued jobs jobs') :
    Book jobs' runs deadLetters := by
  rcases hjobs with rfl | ⟨row, hnew, hstate, hcount, rfl⟩
  · exact h
  · exact h.newJob hnew hstate hcount

/-- What a call does to the tables of the queue. -/
inductive QueueMoved (db : PipelineDB) (en : Entry Op Op.Ans Exn) (db' : PipelineDB) : Prop
  | quiet (hen : Quiet en) (hjobs : Enqueued db.stageJobs db'.stageJobs)
      (hruns : db'.stageRuns = db.stageRuns) (hdead : db'.deadLetters = db.deadLetters)
  | leased (row : StageJob) (r : StageRun) (lease : JobLease) (workerId : Text) (leasedUntil : Time)
      (hop : en.op.leases = true) (hrow : row ∈ db.stageJobs)
      (hwaits : row.state = .queued ∨ row.state = .retryWait) (hjob : r.jobId = row.jobId)
      (hstate : r.resultState = .running) (hnew : ∀ r' ∈ db.stageRuns, r'.runId ≠ r.runId)
      (hlease : ∀ log, leaseIn log = none → leaseIn (log ++ [en]) = some lease)
      (hend : ∀ log, endIn (log ++ [en]) = endIn log) (hid : lease.jobId = row.jobId)
      (hrun : lease.runId = r.runId)
      (hjobs : db'.stageJobs = updateWhere (fun j => j.jobId = row.jobId)
        (leasedRow row workerId leasedUntil) db.stageJobs)
      (hruns : db'.stageRuns = db.stageRuns ++ [r]) (hdead : db'.deadLetters = db.deadLetters)
  | ended (lease : JobLease) (state : JobState) (jobs : List StageJob) (availableAt : Option Time)
      (error : Option Text) (now : Time) (new : List DeadLetter)
      (hop : en.op.endsLease = some lease) (hcommit : ∃ a, en.ans = .ok a) (hstate : state ≠ .queued)
      (hlease : ∀ log, leaseIn (log ++ [en]) = leaseIn log)
      (hend : ∀ log, endIn (log ++ [en]) = state) (hold : Enqueued db.stageJobs jobs)
      (hnew : ∀ d ∈ new, d.jobId = lease.jobId)
      (hlength : new.length = if state = .deadLetter then 1 else 0)
      (hjobs : db'.stageJobs = updateWhere (fun j => j.jobId = lease.jobId)
        (finishedRow state availableAt error) jobs)
      (hruns : db'.stageRuns = updateWhere (fun r => r.runId = lease.runId) (endedRun state now)
        db.stageRuns)
      (hdead : db'.deadLetters = db.deadLetters ++ new)

/-- The two updates of `finishJob`, seen from the queue. -/
theorem queueMoved_ended {db db' : PipelineDB} {lease : JobLease} {en : Entry Op Op.Ans Exn}
    {state : JobState} {jobs : List StageJob} {availableAt : Option Time} {error : Option Text}
    {now : Time} (hop : en.op.endsLease = some lease) (hcommit : ∃ a, en.ans = .ok a)
    (hstate : state ≠ .queued) (hdead : state ≠ .deadLetter) (hlease : ∀ log, leaseIn (log ++ [en]) = leaseIn log)
    (hend : ∀ log, endIn (log ++ [en]) = state) (hold : Enqueued db.stageJobs jobs)
    (hjobs : db'.stageJobs = updateWhere (fun j => j.jobId = lease.jobId)
      (finishedRow state availableAt error) jobs)
    (hruns : db'.stageRuns = updateWhere (fun r => r.runId = lease.runId) (endedRun state now)
      db.stageRuns)
    (hletters : db'.deadLetters = db.deadLetters) : QueueMoved db en db' :=
  .ended lease state jobs availableAt error now [] hop hcommit hstate hlease hend hold (by simp)
    (by simp [hdead]) hjobs hruns (by simp [hletters])

theorem Called.queue {w w' : World} {op : Op} {r : Except Exn op.Ans} (h : Called w op r w') :
    QueueMoved w.db ⟨op, r⟩ w'.db := by
  cases h with
  | raised op e hop => exact .quiet quiet_error (Or.inl rfl) rfl rfl
  | asked op r hop =>
    refine .quiet ?_ (Or.inl rfl) rfl rfl
    cases r with
    | error e => exact quiet_error
    | ok a =>
      cases op with
      | tx t => cases hop
      | _ => exact quiet_of rfl fun _ => rfl
  | placed intent clientOrderId r =>
    refine .quiet ?_ (Or.inl rfl) rfl rfl
    cases r with
    | error e => exact quiet_error
    | ok a => exact quiet_of rfl fun _ => rfl
  | jobNew traceId stage messageId priority hnew =>
    exact .quiet (quiet_of rfl fun _ => rfl) (Or.inr ⟨_, hnew.id, rfl, rfl, rfl⟩) rfl rfl
  | leased stage workerId leasedUntil now row hrow hnew =>
    obtain ⟨⟨hmem, hready⟩, -⟩ := mem_leasable.mp hrow
    simp only [StageJob.ready, Bool.and_eq_true, Bool.or_eq_true, decide_eq_true_eq] at hready
    refine .leased row _ ⟨row.jobId, w.nextId, row.traceId, row.stage, row.messageId,
      row.attemptCount + 1⟩ workerId leasedUntil rfl hmem hready.1.2 rfl rfl hnew (fun log hlog => ?_)
      (fun log => endIn_concat) rfl rfl rfl rfl rfl
    exact findSome?_append_of_none hlog
  | completed lease output next availableAt status now out ms js ts hts h =>
    refine queueMoved_ended rfl ⟨_, rfl⟩ (by decide) (by decide) (fun log => ?_) (fun log => endIn_concat) ?_
      rfl rfl rfl
    · simp [leaseIn]
    · rcases h with ⟨-, rfl, -⟩ | ⟨envelope, -, -, -, -, ⟨-, rfl⟩ | ⟨stage, -, ⟨-, rfl⟩ | ⟨hjob, rfl⟩⟩⟩
      · exact Or.inl rfl
      · exact Or.inl rfl
      · exact Or.inl rfl
      · exact Or.inr ⟨_, hjob.id, rfl, rfl, rfl⟩
  | retried lease error availableAt now =>
    refine queueMoved_ended rfl ⟨_, rfl⟩ (by decide) (by decide) (fun log => ?_) (fun log => endIn_concat)
      (Or.inl rfl) rfl rfl rfl
    simp [leaseIn]
  | deadLettered lease reason payload now =>
    refine .ended lease .deadLetter _ none (some reason) now _ rfl ⟨_, rfl⟩ (by decide) (fun log => ?_)
      (fun log => endIn_concat) (Or.inl rfl) ?_ rfl rfl rfl rfl
    · simp [leaseIn]
    · simp
  | _ => exact .quiet (quiet_of rfl fun _ => rfl) (Or.inl rfl) rfl rfl

/-! ## The run of a thread -/

/-- The run that a thread leased is in the state in which its log leaves it, and it is the latest of
its job while the thread may still end it. -/
structure Tenure (runs : List StageRun) (log : Log) (lease : JobLease) : Prop where
  run : ∃ r ∈ runs, r.jobId = lease.jobId ∧ r.runId = lease.runId ∧ r.resultState = endIn log
  latest : Open log → LatestRun runs lease.jobId lease.runId (endIn log)

section Tenure

variable {jobs : List StageJob} {runs : List StageRun} {deadLetters : List DeadLetter} {log : Log}
  {lease : JobLease}

theorem Tenure.concat (h : Tenure runs log lease) {en : Entry Op Op.Ans Exn}
    (hen : endIn (log ++ [en]) = endIn log) : Tenure runs (log ++ [en]) lease := by
  refine ⟨by rw [hen]; exact h.run, fun hopen => ?_⟩
  rw [hen]
  exact h.latest (open_append.mp hopen).1

/-- A job that waits is held by no thread that may still end it. -/
theorem Tenure.not_waiting (h : Tenure runs log lease) (hbook : Book jobs runs deadLetters)
    {row : StageJob} (hrow : row ∈ jobs) (hwaits : row.state = .queued ∨ row.state = .retryWait)
    (hopen : Open log) : lease.jobId ≠ row.jobId := by
  intro heq
  have hlast := h.latest hopen
  rw [heq] at hlast
  have hstate := (hbook.job row hrow).state_eq hlast
  rcases endIn_of_open hopen with hend | hend <;> rw [hend] at hstate <;>
    rcases hwaits with hw | hw <;> rw [hw] at hstate <;> cases hstate

/-- Another thread leases a job. -/
theorem Tenure.leased (h : Tenure runs log lease) (hbook : Book jobs runs deadLetters)
    {row : StageJob} (hrow : row ∈ jobs) (hwaits : row.state = .queued ∨ row.state = .retryWait)
    {r : StageRun} (hjob : r.jobId = row.jobId) : Tenure (runs ++ [r]) log lease := by
  obtain ⟨r', hr', hr'job, hr'run, hr'state⟩ := h.run
  refine ⟨⟨r', List.mem_append_left _ hr', hr'job, hr'run, hr'state⟩, fun hopen => ?_⟩
  have hne : r.jobId ≠ lease.jobId := by
    rw [hjob]
    exact (h.not_waiting hbook hrow hwaits hopen).symm
  obtain ⟨rs, r₀, heq, hid, hstate⟩ := h.latest hopen
  exact ⟨rs, r₀, by rw [runsOf_append, if_neg hne, heq], hid, hstate⟩

/-- A job has one latest run. -/
theorem LatestRun.runId_eq {jobId id id' : UUID} {state state' : JobState}
    (h : LatestRun runs jobId id state) (h' : LatestRun runs jobId id' state') : id = id' := by
  obtain ⟨rs, r, heq, hid, -⟩ := h
  obtain ⟨rs', r', heq', hid', -⟩ := h'
  obtain ⟨-, h2⟩ := List.append_inj' (heq.symm.trans heq') rfl
  obtain rfl := (List.cons.inj h2).1
  exact hid.symm.trans hid'

/-- The ended run is the latest of its job in its new state. -/
theorem LatestRun.ended (h : (runs.map StageRun.runId).Nodup) {before state : JobState} {now : Time}
    {jobId runId : UUID} (hlast : LatestRun runs jobId runId before) :
    LatestRun (updateWhere (fun r => r.runId = runId) (endedRun state now) runs) jobId runId
      state := by
  obtain ⟨rs, r, heq, rfl, -⟩ := id hlast
  obtain ⟨-, rfl⟩ : r ∈ runs ∧ r.jobId = jobId := mem_runsOf.mp (by rw [heq]; simp)
  exact ⟨rs, endedRun state now r, runsOf_ended h heq, rfl, rfl⟩

/-- Another thread ends its run. -/
theorem Tenure.ended (h : Tenure runs log lease) (hids : (runs.map StageRun.runId).Nodup)
    {lease' : JobLease} {before state : JobState} {now : Time}
    (hlast : LatestRun runs lease'.jobId lease'.runId before) (hne : lease.runId ≠ lease'.runId) :
    Tenure (updateWhere (fun r => r.runId = lease'.runId) (endedRun state now) runs) log lease := by
  obtain ⟨r, hr, hjob, hrun, hstate⟩ := h.run
  obtain ⟨r', hr', hjob', hrun', -⟩ := hlast.mem
  constructor
  · have hmem := mem_updateWhere_of_mem (p := fun r => r.runId = lease'.runId)
      (f := endedRun state now) hr
    rw [if_neg (by simpa [hrun] using hne)] at hmem
    exact ⟨r, hmem, hjob, hrun, hstate⟩
  · intro hopen
    have hlatest := h.latest hopen
    have hjobs : lease'.jobId ≠ lease.jobId := fun heq =>
      hne (hlatest.runId_eq (heq ▸ hlast))
    have hruns : runsOf (updateWhere (fun r => r.runId = lease'.runId) (endedRun state now) runs)
        lease.jobId = runsOf runs lease.jobId := by
      rw [← hrun']
      exact runsOf_ended_other hids hr' (by rw [hjob']; exact hjobs)
    obtain ⟨rs, r₀, heq, hid, hst⟩ := hlatest
    exact ⟨rs, r₀, hruns.trans heq, hid, hst⟩

end Tenure

/-! ## Systems of orderly programs -/

section Ledger

variable {T O : Type} {body : T → Program O} {C : Sys Op Op.Ans Exn O T World → Event Input T Env → Prop}
  {s : Sys Op Op.Ans Exn O T World}

/-- Programs that share the database. -/
def queueMachine (body : T → Program O) : Machine Op Op.Ans Exn O World Input T Env where
  body := body
  call := World.call
  env := World.env

/-- The books of the queue, and the runs of the threads. -/
structure Ledger (s : Sys Op Op.Ans Exn O T World) : Prop where
  book : Book s.world.db.stageJobs s.world.db.stageRuns s.world.db.deadLetters
  idle : ∀ (i : ℕ) (th : Thread Op Op.Ans Exn O T), s.threads[i]? = some th →
    leaseIn th.log = none → endIn th.log = .running
  tenure : ∀ (i : ℕ) (th : Thread Op Op.Ans Exn O T), s.threads[i]? = some th →
    ∀ lease, leaseIn th.log = some lease → Tenure s.world.db.stageRuns th.log lease
  apart : ∀ (i j : ℕ) (th th' : Thread Op Op.Ans Exn O T), s.threads[i]? = some th →
    s.threads[j]? = some th' → ∀ lease lease', leaseIn th.log = some lease →
    leaseIn th'.log = some lease' → lease.runId = lease'.runId → i = j

/-- The thread that a thread was before one of them made a call that leased nothing. -/
theorem exists_before {threads : List (Thread Op Op.Ans Exn O T)} {i j : ℕ} {t : T} {log : Log}
    {op : Op} {r : Except Exn op.Ans} {k : Except Exn op.Ans → Program O}
    {th' : Thread Op Op.Ans Exn O T} (hth : threads[i]? = some ⟨t, log, .call op k, true⟩)
    (hlease : leaseIn (log ++ [⟨op, r⟩]) = leaseIn log)
    (hj : (threads.set i ⟨t, log ++ [⟨op, r⟩], k r, true⟩)[j]? = some th') :
    ∃ th, threads[j]? = some th ∧ leaseIn th'.log = leaseIn th.log ∧
      (th'.log = th.log ∨ th.log = log ∧ th'.log = log ++ [⟨op, r⟩]) := by
  rcases getElem?_set_cases hj with ⟨rfl, rfl⟩ | ⟨-, hj⟩
  · exact ⟨_, hth, hlease, Or.inr ⟨rfl, rfl⟩⟩
  · exact ⟨th', hj, rfl, Or.inl rfl⟩

theorem Ledger.apart_before (h : Ledger s) {i j j' : ℕ} {t : T} {log : Log} {op : Op}
    {r : Except Exn op.Ans} {k : Except Exn op.Ans → Program O}
    {th th' : Thread Op Op.Ans Exn O T} (hth : s.threads[i]? = some ⟨t, log, .call op k, true⟩)
    (hlease : leaseIn (log ++ [⟨op, r⟩]) = leaseIn log)
    (hj : (s.threads.set i ⟨t, log ++ [⟨op, r⟩], k r, true⟩)[j]? = some th)
    (hj' : (s.threads.set i ⟨t, log ++ [⟨op, r⟩], k r, true⟩)[j']? = some th') (l l' : JobLease)
    (hl : leaseIn th.log = some l) (hl' : leaseIn th'.log = some l') (heq : l.runId = l'.runId) :
    j = j' := by
  obtain ⟨th₀, hth₀, hlease₀, -⟩ := exists_before hth hlease hj
  obtain ⟨th₁, hth₁, hlease₁, -⟩ := exists_before hth hlease hj'
  exact h.apart j j' th₀ th₁ hth₀ hth₁ l l' (hlease₀ ▸ hl) (hlease₁ ▸ hl') heq

/-- An orderly call keeps the books. -/
theorem Ledger.act (h : Ledger s) {i : ℕ} {t : T} {log : Log} {op : Op} {r : Except Exn op.Ans}
    {k : Except Exn op.Ans → Program O} {w' : World}
    (hth : s.threads[i]? = some ⟨t, log, .call op k, true⟩) (hop : Orderly log op)
    (hq : QueueMoved s.world.db ⟨op, r⟩ w'.db) :
    Ledger ⟨w', s.threads.set i ⟨t, log ++ [⟨op, r⟩], k r, true⟩⟩ := by
  cases hq with
  | quiet hen hjobs hruns hdead =>
    refine ⟨?_, ?_, ?_, ?_⟩
    · change Book w'.db.stageJobs w'.db.stageRuns w'.db.deadLetters
      rw [hruns, hdead]
      exact h.book.enqueued hjobs
    · intro j th' hj hnone
      obtain ⟨th, hj, hlease, hlog⟩ := exists_before hth (hen log).1 hj
      have hidle := h.idle j th hj (hlease ▸ hnone)
      rcases hlog with hlog | ⟨hold, hlog⟩
      · rw [hlog]
        exact hidle
      · rw [hlog, (hen log).2, ← hold]
        exact hidle
    · intro j th' hj lease hl
      obtain ⟨th, hj, hlease, hlog⟩ := exists_before hth (hen log).1 hj
      have htenure := h.tenure j th hj lease (hlease ▸ hl)
      change Tenure w'.db.stageRuns th'.log lease
      rw [hruns]
      rcases hlog with hlog | ⟨hold, hlog⟩
      · rw [hlog]
        exact htenure
      · rw [hold] at htenure
        rw [hlog]
        exact htenure.concat (hen log).2
    · exact fun j j' th th' hj hj' => h.apart_before hth (hen log).1 hj hj'
  | leased row run lease workerId leasedUntil hleases hrow hwaits hjob hstate hnew hlease hend hid hrun
      hjobs hruns hdead =>
    have hnone := hop.lease hleases
    have hfresh : ∀ (j : ℕ) (th : Thread Op Op.Ans Exn O T), s.threads[j]? = some th →
        ∀ l, leaseIn th.log = some l → l.runId ≠ lease.runId := by
      intro j th hj l hl heq
      obtain ⟨r', hr', -, hr'run, -⟩ := (h.tenure j th hj l hl).run
      exact hnew r' hr' (hr'run.trans (heq.trans hrun))
    refine ⟨?_, ?_, ?_, ?_⟩
    · change Book w'.db.stageJobs w'.db.stageRuns w'.db.deadLetters
      rw [hjobs, hruns, hdead]
      exact h.book.lease hrow hwaits hjob hstate hnew
    · intro j th' hj hnone'
      rcases getElem?_set_cases hj with ⟨rfl, rfl⟩ | ⟨-, hj⟩
      · rw [hlease log hnone] at hnone'
        cases hnone'
      · exact h.idle j th' hj hnone'
    · intro j th' hj l hl
      change Tenure w'.db.stageRuns th'.log l
      rw [hruns]
      rcases getElem?_set_cases hj with ⟨rfl, rfl⟩ | ⟨-, hj⟩
      · obtain rfl := Option.some.inj ((hlease log hnone).symm.trans hl)
        have hrunning : endIn (log ++ [⟨op, r⟩]) = .running :=
          (hend log).trans (h.idle j _ hth hnone)
        have heq : runsOf (s.world.db.stageRuns ++ [run]) lease.jobId =
            runsOf s.world.db.stageRuns lease.jobId ++ [run] := by
          rw [runsOf_append, if_pos (hjob.trans hid.symm)]
        refine ⟨⟨run, by simp, hjob.trans hid.symm, hrun.symm, hstate.trans hrunning.symm⟩,
          fun _ => ⟨_, run, heq, hrun.symm, hstate.trans hrunning.symm⟩⟩
      · exact (h.tenure j th' hj l hl).leased h.book hrow hwaits hjob
    · intro j j' th th' hj hj' l l' hl hl' heq
      rcases getElem?_set_cases hj with ⟨rfl, rfl⟩ | ⟨-, hold⟩ <;>
        rcases getElem?_set_cases hj' with ⟨rfl, rfl⟩ | ⟨-, hold'⟩
      · rfl
      · obtain rfl := Option.some.inj ((hlease log hnone).symm.trans hl)
        exact absurd heq.symm (hfresh j' th' hold' l' hl')
      · obtain rfl := Option.some.inj ((hlease log hnone).symm.trans hl')
        exact absurd heq (hfresh j th hold l hl)
      · exact h.apart j j' th th' hold hold' l l' hl hl' heq
  | ended lease state jobs availableAt error now new hends hcommit hstate hlease hend hold hnew hlength hjobs
      hruns hdead =>
    obtain ⟨hl₀, hopen⟩ := hop.ends lease hends
    have hlast := (h.tenure i _ hth lease hl₀).latest hopen
    refine ⟨?_, ?_, ?_, ?_⟩
    · change Book w'.db.stageJobs w'.db.stageRuns w'.db.deadLetters
      rw [hjobs, hruns, hdead]
      refine (h.book.enqueued hold).finish hlast ?_ hstate hnew hlength
      rcases endIn_of_open hopen with heq | heq <;> rw [heq] <;> decide
    · intro j th' hj hnone
      rcases getElem?_set_cases hj with ⟨rfl, rfl⟩ | ⟨-, hj⟩
      · rw [hlease log, hl₀] at hnone
        cases hnone
      · exact h.idle j th' hj hnone
    · intro j th' hj l hl
      change Tenure w'.db.stageRuns th'.log l
      rw [hruns]
      rcases getElem?_set_cases hj with ⟨rfl, rfl⟩ | ⟨hne, hj⟩
      · rw [hlease log, hl₀] at hl
        obtain rfl := Option.some.inj hl
        have hlast' : LatestRun (updateWhere (fun r => r.runId = lease.runId) (endedRun state now)
            s.world.db.stageRuns) lease.jobId lease.runId (endIn (log ++ [⟨op, r⟩])) := by
          rw [hend log]
          exact hlast.ended h.book.runIds
        exact ⟨hlast'.mem, fun _ => hlast'⟩
      · refine (h.tenure j th' hj l hl).ended h.book.runIds hlast fun heq => hne ?_
        exact h.apart j i th' _ hj hth l lease hl hl₀ heq
    · exact fun j j' th th' hj hj' => h.apart_before hth (hlease log) hj hj'

/-- A step that changes neither the tables nor a log. -/
theorem Ledger.same (h : Ledger s) {s' : Sys Op Op.Ans Exn O T World}
    (hdb : s'.world.db = s.world.db)
    (hold : ∀ (j : ℕ) (th' : Thread Op Op.Ans Exn O T), s'.threads[j]? = some th' →
      th'.log = [] ∨ ∃ th, s.threads[j]? = some th ∧ th'.log = th.log) : Ledger s' where
  book := by rw [hdb]; exact h.book
  idle j th' hj hnone := by
    rcases hold j th' hj with hlog | ⟨th, hth, hlog⟩
    · rw [hlog]
      rfl
    · rw [hlog] at hnone ⊢
      exact h.idle j th hth hnone
  tenure j th' hj lease hlease := by
    rw [hdb]
    rcases hold j th' hj with hlog | ⟨th, hth, hlog⟩
    · rw [hlog] at hlease
      cases hlease
    · rw [hlog] at hlease ⊢
      exact h.tenure j th hth lease hlease
  apart j j' th th' hj hj' l l' hl hl' heq := by
    rcases hold j th hj with hlog | ⟨th₀, hth₀, hlog⟩
    · rw [hlog] at hl
      cases hl
    · rcases hold j' th' hj' with hlog' | ⟨th₁, hth₁, hlog'⟩
      · rw [hlog'] at hl'
        cases hl'
      · exact h.apart j j' th₀ th₁ hth₀ hth₁ l l' (hlog ▸ hl) (hlog' ▸ hl') heq

theorem ledger_reach (hbody : ∀ t, Always Orderly (fun _ _ => True) (body t) [])
    (h : Reach (queueMachine body).step ⟨{}, []⟩ C s) : Ledger s := by
  refine h.rec_logs ?_ (fun s s' ih hworld hlogs => ih.same ?_ hlogs) ?_
  · refine ⟨book_nil, ?_, ?_, ?_⟩ <;> simp
  · rcases hworld with hworld | ⟨e, hworld⟩
    · rw [hworld]
    · rw [hworld]
      cases e <;> rfl
  · intro s i inp t log op k r w' hs _ ih hth hc
    have hissued := issued_reach (Ψ := fun _ _ _ => True) hbody hs i _ hth
    exact ih.act hth (hissued.next rfl) (called hc).queue

/-- Two threads that may still end runs of one job are one. -/
theorem Ledger.exclusive (h : Ledger s) {i j : ℕ} {th th' : Thread Op Op.Ans Exn O T} {lease lease' : JobLease} (hi : s.threads[i]? = some th)
    (hj : s.threads[j]? = some th') (hl : leaseIn th.log = some lease)
    (hl' : leaseIn th'.log = some lease') (hopen : Open th.log) (hopen' : Open th'.log)
    (heq : lease.jobId = lease'.jobId) : i = j := by
  have hlast := (h.tenure i th hi lease hl).latest hopen
  have hlast' := (h.tenure j th' hj lease' hl').latest hopen'
  exact h.apart i j th th' hi hj lease lease' hl hl' (hlast.runId_eq (heq ▸ hlast'))

end Ledger

/-! ## The workers of the pipeline -/

section Pipeline

variable {host : Host} {C : State → PipelineEvent → Prop} {s : State}

/-- Who completes a job has leased it. -/
theorem Completes.leased {cfg : PipelineConfig} {log : Log} {lease : JobLease}
    {output : Option PipelineEnvelope} {next : Option StageName}
    (h : Completes cfg log lease output next) : ∃ stage, Leased log stage lease := by
  obtain ⟨stage, parent, hholds, -⟩ := h.holds
  exact ⟨stage, hholds.leased⟩

theorem orderly_of_issues {cfg : PipelineConfig} {task : Task} {log : Log} {op : Op}
    (h : Issues cfg task log op) (hopen : Open log) : Orderly log op := by
  have hends : ∀ lease, (∃ stage, Leased log stage lease) → leaseIn log = some lease ∧ Open log :=
    fun lease ⟨_, hl⟩ => ⟨hl.first, hopen⟩
  cases op with
  | tx t =>
    cases t with
    | leaseNextJob => exact ⟨fun _ => h.1, nofun⟩
    | completeJobSuccess lease =>
      refine ⟨nofun, fun lease' heq => ?_⟩
      obtain rfl := Option.some.inj heq
      exact hends lease h.1.leased
    | completeJobRetry lease =>
      refine ⟨nofun, fun lease' heq => ?_⟩
      obtain rfl := Option.some.inj heq
      exact hends lease h.1
    | deadLetterJob lease =>
      refine ⟨nofun, fun lease' heq => ?_⟩
      obtain rfl := Option.some.inj heq
      obtain ⟨stage, hl, -⟩ := h
      exact hends lease ⟨stage, hl⟩
    | _ => exact ⟨nofun, nofun⟩
  | _ => exact ⟨nofun, nofun⟩

theorem orderly_body (t : Task) : Always Orderly (fun _ _ => True) (t.body host) [] :=
  ((issues_body t).and (keepsRaising_body t [] open_nil)).mono'
    (fun _ _ _ h => orderly_of_issues h.1 h.2) fun _ _ _ _ => trivial

theorem ledger (h : Reachable host C s) : Ledger s := ledger_reach orderly_body h

end Pipeline

end Sentinel.Pipeline
