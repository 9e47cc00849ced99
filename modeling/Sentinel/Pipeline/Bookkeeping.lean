import Sentinel.Pipeline.Tenure

/-!
# The bookkeeping of the queue

Any callers of `enqueue_job` next to any number of workers: every job is told by its row as by its
runs and dead letters, and no two workers hold a lease on one job.
-/

namespace Sentinel.Pipeline

open Logic Contracts PipelineDB

/-- A caller of `enqueue_job`, or a task of the pipeline. -/
inductive QueueTask : Type
  | enqueueJob (traceId : UUID) (stage : StageName) (messageId : UUID) (priority : ℤ)
  | pipeline (t : Task)

def QueueTask.body (host : Host) : QueueTask → Program Unit
  | enqueueJob traceId stage messageId priority => do
    let _ ← tx (.enqueueJob traceId stage messageId priority)
    pure ()
  | pipeline t => do
    let _ ← t.body host
    pure ()

abbrev QueueState : Type := Sys Op Op.Ans Exn Unit QueueTask World

/-- The states of the runs from an empty database. -/
abbrev QueueReachable (host : Host) : QueueState → Prop :=
  Reach (queueMachine (QueueTask.body host)).step ⟨{}, []⟩ Any

/-- The lease that the log leaves unfinished. -/
def heldIn (log : Log) : Option JobLease := if endIn log = .running then leaseIn log else none

/-- What the rows of the queue say, and who holds a lease. -/
structure Bookkept (s : QueueState) : Prop where
  job : ∀ j ∈ s.world.db.stageJobs, JobBook s.world.db.stageRuns s.world.db.deadLetters j
  running : ∀ j ∈ s.world.db.stageJobs,
    (runsOf s.world.db.stageRuns j.jobId).countP (fun r => r.resultState = .running) ≤ 1
  exclusive : ∀ (i j : ℕ) (th th' : Thread Op Op.Ans Exn Unit QueueTask) (lease lease' : JobLease),
    s.threads[i]? = some th → s.threads[j]? = some th' → heldIn th.log = some lease →
    heldIn th'.log = some lease' → lease.jobId = lease'.jobId → i = j

theorem heldIn_eq_some {log : Log} {lease : JobLease} (h : heldIn log = some lease) :
    endIn log = .running ∧ leaseIn log = some lease ∧ Open log := by
  unfold heldIn at h
  split_ifs at h with hend
  exact ⟨hend, h, open_of_endIn hend⟩

/-- Only the latest run of a job may be running. -/
theorem JobBook.running_le {runs : List StageRun} {deadLetters : List DeadLetter} {j : StageJob}
    (h : JobBook runs deadLetters j) :
    (runsOf runs j.jobId).countP (fun r => r.resultState = .running) ≤ 1 := by
  rcases h.latest with ⟨hnil, -⟩ | ⟨rs, r, heq, -, hrs⟩
  · simp [hnil]
  · have hnone : rs.countP (fun r => r.resultState = .running) = 0 := by
      rw [List.countP_eq_zero]
      intro r' hr'
      simp [hrs r' hr']
    rw [heq, List.countP_append, hnone, List.countP_singleton]
    split_ifs <;> omega

theorem QueueTask.orderly_body {host : Host} (t : QueueTask) :
    Always Orderly (fun _ _ => True) (t.body host) [] := by
  cases t with
  | enqueueJob traceId stage messageId priority =>
    exact always_perform_bind ⟨nofun, nofun⟩ (fun _ => trivial) fun _ => trivial
  | pipeline t => exact (Pipeline.orderly_body t).bind (fun _ _ _ _ => trivial) fun _ _ _ _ => trivial

theorem queue_bookkeeping {host : Host} {s : QueueState} (h : QueueReachable host s) :
    Bookkept s := by
  have hledger := ledger_reach QueueTask.orderly_body h
  refine ⟨hledger.book.job, fun j hj => (hledger.book.job j hj).running_le, ?_⟩
  intro i j th th' lease lease' hi hj hl hl' heq
  obtain ⟨-, hlease, hopen⟩ := heldIn_eq_some hl
  obtain ⟨-, hlease', hopen'⟩ := heldIn_eq_some hl'
  exact hledger.exclusive hi hj hlease hlease' hopen hopen' heq

namespace Sample

/-- A job whose message is missing: its first attempt ends with a retry, the second stops. -/
def enqueuedEvents : List (Event Input QueueTask Env) :=
  List.flatten [[.start (.enqueueJob 7 .research 8 100), .act 0 .ok,
    .start (.pipeline (.researcher (lit "r")))], List.replicate 5 (.act 1 .ok),
    [.env (.tick 30000000), .start (.pipeline (.researcher (lit "s"))), .act 2 .ok, .act 2 .ok,
      .crash 2]]

end Sample

theorem queue_bookkeeping_enqueued :
    Bookkept (Sample.enqueuedEvents.foldl (queueMachine (QueueTask.body (Sample.host "auto"))).step
      ⟨{}, []⟩) :=
  queue_bookkeeping (reach_foldl Sample.enqueuedEvents)

/-- There the job has two runs, the first waiting and the second running. -/
example : let db := (Sample.enqueuedEvents.foldl
    (queueMachine (QueueTask.body (Sample.host "auto"))).step ⟨{}, []⟩).world.db
    db.stageJobs.map (fun j => (j.state, j.attemptCount)) = [(.running, 2)] ∧
      db.stageRuns.map StageRun.resultState = [.retryWait, .running] := by decide +kernel

end Sentinel.Pipeline
