import Sentinel.Logic.Progress
import Sentinel.Pipeline.Effort
import Sentinel.Pipeline.Finished
import Sentinel.Pipeline.Holders
import Sentinel.Pipeline.References

/-!
# How the queue runs empty

While jobs wait and the workers keep asking in time, jobs are leased; and every lease is one of the
boundedly many that the traces get.

* `leases`: the number of leases so far, which no step lowers.
* `waiting_step`: a job waits unchanged until something is leased.
* `leases_lt`: a call in time leases something.
* `leases_le`: the bound for all leases.
* `drained`: the rounds that begin with a job that waits are few.
-/

namespace Sentinel.Pipeline

open Logic Contracts PipelineDB

variable {host : Host} {C : State → PipelineEvent → Prop} {s s' : State} {j : StageJob}

/-! ## Leases -/

/-- The leases so far: each has recorded a run. -/
def leases (s : State) : ℕ := s.world.db.stageRuns.length

theorem QueueMoved.runs_le {db db' : PipelineDB} {en : Entry Op Op.Ans Exn}
    (h : QueueMoved db en db') : db.stageRuns.length ≤ db'.stageRuns.length := by
  cases h with
  | quiet hen hjobs hruns hdead => rw [hruns]
  | leased row r lease workerId leasedUntil hop hrow hwaits hjob hstate hnew hlease hend hid hrun
      hjobs hruns hdead =>
    rw [hruns, List.length_append]
    omega
  | ended lease state jobs availableAt error now new hop hcommit hstate hlease hend hold hnew hlength
      hjobs hruns hdead =>
    rw [hruns, updateWhere, List.length_map]

theorem leases_mono (s : State) (e : PipelineEvent) :
    leases s ≤ leases ((machine host).step s e) := by
  have hm := moved (machine host) s e
  generalize (machine host).step s e = s' at hm
  cases hm with
  | act i inp t log op k r w hth hcall => exact (called hcall).queue.runs_le
  | env e => cases e <;> exact le_rfl
  | _ => exact le_rfl

theorem StageJob.waits_iff : j.waits = true ↔ j.state = .queued ∨ j.state = .retryWait := by
  simp [StageJob.waits]

/-- A job that waits is left alone by every call that leases nothing. -/
theorem waiting_act {i : ℕ} {inp : Input} {t : Task} {log : Log} {op : Op}
    {k : Except Exn op.Ans → Program Out} {r : Except Exn op.Ans} {w : World}
    (h : Reachable host C s) (hth : s.threads[i]? = some ⟨t, log, .call op k, true⟩)
    (hcall : s.world.call op inp = some (r, w)) (hj : j ∈ s.world.db.stageJobs)
    (hwaits : j.waits = true) : j ∈ w.db.stageJobs ∨ leases s < w.db.stageRuns.length := by
  have hkept : ∀ jobs, Enqueued s.world.db.stageJobs jobs → j ∈ jobs := by
    rintro jobs (rfl | ⟨row, -, -, -, rfl⟩)
    · exact hj
    · exact List.mem_append_left _ hj
  cases (called hcall).queue with
  | quiet hen hjobs hruns hdead => exact Or.inl (hkept _ hjobs)
  | leased row run lease workerId leasedUntil hop hrow hrowwaits hjob hstate hnew hlease hend hid hrun
      hjobs hruns hdead =>
    right
    rw [hruns, List.length_append]
    exact Nat.lt_succ_self _
  | ended lease state jobs availableAt error now new hends hcommit hstate hlease hend hold hnew hlength
      hjobs hruns hdead =>
    left
    have horderly := (issued_reach (M := machine host) orderly_body h i _ hth).next rfl
    obtain ⟨hl, hopen⟩ := horderly.ends lease hends
    have hne : lease.jobId ≠ j.jobId := ((ledger h).tenure i _ hth lease hl).not_waiting
      (ledger h).book hj (StageJob.waits_iff.mp hwaits) hopen
    have hmem := mem_updateWhere_of_mem (p := fun j => j.jobId = lease.jobId)
      (f := finishedRow state availableAt error) (hkept _ hold)
    rw [hjobs]
    rwa [if_neg (by simpa using hne.symm)] at hmem

theorem waiting_step (h : Reachable host C s) (e : PipelineEvent) (hj : j ∈ s.world.db.stageJobs)
    (hwaits : j.waits = true) : j ∈ ((machine host).step s e).world.db.stageJobs ∨
      leases s < leases ((machine host).step s e) := by
  have hm := moved (machine host) s e
  generalize (machine host).step s e = s' at hm
  cases hm with
  | act i inp t log op k r w hth hcall => exact waiting_act h hth hcall hj hwaits
  | env e => cases e <;> exact Or.inl hj
  | _ => exact Or.inl hj

/-! ## Calls in time -/

/-- The `i`-th thread asks for a job of the stage when `j` is due, and its call commits. -/
def AsksFor (s : State) (i : ℕ) (inp : Input) (j : StageJob) : Prop :=
  ∃ workerId leasedUntil now,
    nextCall s i = some (.tx (.leaseNextJob j.stage workerId leasedUntil now)) ∧
    j.availableAt ≤ now ∧
    Commits s.world (.tx (.leaseNextJob j.stage workerId leasedUntil now)) inp

theorem leases_lt {i : ℕ} {inp : Input} (hasks : AsksFor s i inp j) (hj : j ∈ s.world.db.stageJobs)
    (hwaits : j.waits = true) : leases s < leases ((machine host).step s (.act i inp)) := by
  obtain ⟨workerId, leasedUntil, now, hnext, hdue, a, w, hcall⟩ := hasks
  obtain ⟨t, log, k, hth⟩ := exists_of_nextCall hnext
  have hready : j.ready j.stage now = true := by
    have hstate := StageJob.waits_iff.mp hwaits
    simp [StageJob.ready, hstate, hdue]
  have hstep : ((machine host).step s (.act i inp)).world = w := by
    have hcall' : (machine host).call s.world _ inp = some (.ok a, w) := hcall
    simp only [Machine.step, hth, hcall']
  unfold leases
  rw [hstep]
  cases called hcall with
  | asked op r hop => cases hop
  | leaseNone stage workerId leasedUntil now hnone => exact absurd hnone (leasable_ne_nil hj hready)
  | leased stage workerId leasedUntil now row hrow hnew => simp

/-! ## All leases -/

/-- A run is of a job, and a job of a trace. -/
theorem leases_le (h : Reachable host C s) :
    leases s ≤ s.world.db.pipelineTraces.length * traceLimit host.cfg.queue := by
  have hbook := (ledger h).book
  calc leases s
      = (s.world.db.stageRuns.map fun _ => 1).sum := by simp [leases]
    _ ≤ (s.world.db.stageJobs.map fun j =>
          ((s.world.db.stageRuns.filter fun r => decide (r.jobId = j.jobId)).map fun _ => 1).sum).sum :=
        sum_le_sum_filter fun r hr => by
          obtain ⟨-, j, hj, hid⟩ := hbook.run r hr
          exact ⟨j, hj, decide_eq_true hid.symm⟩
    _ = (s.world.db.stageJobs.map StageJob.attemptCount).sum := by
        refine congrArg List.sum (List.map_congr_left fun j hj => ?_)
        rw [(hbook.job j hj).attempts, runsOf]
        simp
    _ ≤ (s.world.db.traceIds.map fun id =>
          ((s.world.db.traceRows id).map StageJob.attemptCount).sum).sum :=
        sum_le_sum_filter (R := fun id j => decide (j.traceId = id)) fun j hj =>
          ⟨j.traceId, (job_references h (mem_jobKeys.mpr ⟨j, hj, rfl⟩)).1, decide_eq_true rfl⟩
    _ ≤ s.world.db.traceIds.length * traceLimit host.cfg.queue := by
        refine (List.sum_le_card_nsmul _ (traceLimit host.cfg.queue) ?_).trans ?_
        · intro n hn
          obtain ⟨id, -, rfl⟩ := List.mem_map.mp hn
          exact attempts_le h
        · rw [List.length_map]
          exact le_rfl
    _ = s.world.db.pipelineTraces.length * traceLimit host.cfg.queue := by
        rw [PipelineDB.traceIds, List.length_map]

/-! ## Rounds -/

def SomeWaits (s : State) : Prop := ∃ j ∈ s.world.db.stageJobs, j.waits = true

instance : DecidablePred SomeWaits := fun _ => inferInstanceAs (Decidable (∃ j ∈ _, _))

/-- A run in the course of which, if jobs wait at its start, one of these is asked for in time. -/
structure Round (host : Host) (C : State → PipelineEvent → Prop) (s s' : State) : Prop where
  run : Reach (machine host).step s C s'
  asked : SomeWaits s → ∃ j ∈ s.world.db.stageJobs, j.waits = true ∧ ∃ u i inp,
    Reach (machine host).step s C u ∧ C u (.act i inp) ∧ AsksFor u i inp j ∧
    Reach (machine host).step ((machine host).step u (.act i inp)) C s'

theorem Round.leases_le (h : Round host C s s') : leases s ≤ leases s' :=
  h.run.measure_le fun s e _ _ => leases_mono s e

/-- A round that begins with a job that waits leases one. -/
theorem Round.leases_lt (h : Round host C s s') (hs : Reachable host C s) (hwaits : SomeWaits s) :
    leases s < leases s' := by
  obtain ⟨j, hj, hj', u, i, inp, hu, -, hasks, hrest⟩ := h.asked hwaits
  have hmono : leases ((machine host).step u (.act i inp)) ≤ leases s' :=
    hrest.measure_le fun s e _ _ => leases_mono s e
  refine lt_of_lt_of_le ?_ hmono
  rcases hu.kept_or_lt (P := fun u => j ∈ u.world.db.stageJobs) (fun s e _ _ => leases_mono s e)
    (fun u e hu _ hmem => waiting_step (hs.trans hu) e hmem hj') hj with hmem | hlt
  · exact (hu.measure_le fun s e _ _ => leases_mono s e).trans_lt
      (Pipeline.leases_lt hasks hmem hj')
  · exact hlt.trans_le (leases_mono u _)

theorem Round.reachable {σ : ℕ → State} (h : Reachable host C (σ 0)) {n : ℕ}
    (hrounds : ∀ i < n, Round host C (σ i) (σ (i + 1))) : ∀ i ≤ n, Reachable host C (σ i) := by
  intro i hi
  induction i with
  | zero => exact h
  | succ i ih => exact (ih (by omega)).trans (hrounds i (by omega)).run

/-- Of the rounds of a run only a bounded number begin with a job that waits, so before long there is
one at whose start every job is finished, or held by a worker step that has not returned. -/
theorem drained {σ : ℕ → State} (h : Reachable host C (σ 0)) {n : ℕ}
    (hrounds : ∀ i < n, Round host C (σ i) (σ (i + 1))) :
    ((List.range n).filter fun i => decide (SomeWaits (σ i))).length ≤
      (σ n).world.db.pipelineTraces.length * traceLimit host.cfg.queue ∧
    ((σ n).world.db.pipelineTraces.length * traceLimit host.cfg.queue < n →
      ∃ i < n, ∀ j ∈ (σ i).world.db.stageJobs, j.finished ∨ ∃ k, HeldBy (σ i) j.jobId k ∧
        ∀ th ∈ (σ i).threads[k]?, ∀ out, th.result ≠ some (.ok out)) := by
  have hreach := Round.reachable h hrounds
  have hcount : leases (σ 0) + ((List.range n).filter fun i => decide (SomeWaits (σ i))).length ≤
      leases (σ n) :=
    length_filter_range_le (f := fun i => leases (σ i)) (fun i hi => (hrounds i hi).leases_le)
      fun i hi hwaits => (hrounds i hi).leases_lt (hreach i hi.le) (of_decide_eq_true hwaits)
  have hle := leases_le (hreach n le_rfl)
  refine ⟨by omega, fun hlt => ?_⟩
  obtain ⟨i, hi, hnone⟩ : ∃ i ∈ List.range n, ¬ SomeWaits (σ i) := by
    by_contra hall
    push Not at hall
    have hfilter : ((List.range n).filter fun i => decide (SomeWaits (σ i))) = List.range n :=
      List.filter_eq_self.mpr fun i hi => decide_eq_true (hall i hi)
    rw [hfilter, List.length_range] at hcount
    omega
  have hin : i < n := List.mem_range.mp hi
  refine ⟨i, hin, fun j hj => ?_⟩
  generalize hstate : j.state = state
  cases state with
  | queued => exact absurd ⟨j, hj, StageJob.waits_iff.mpr (Or.inl hstate)⟩ hnone
  | retryWait => exact absurd ⟨j, hj, StageJob.waits_iff.mpr (Or.inr hstate)⟩ hnone
  | running =>
    obtain ⟨k, th, lease, hk, hheld, hid⟩ := exists_holder (hreach i hin.le) j hj hstate
    refine Or.inr ⟨k, ⟨th, lease, hk, hheld, hid⟩, fun th' hth' out hout => ?_⟩
    obtain rfl := Option.some.inj (hk.symm.trans hth')
    cases hheld.symm.trans (held_unless_returned (hreach i hin.le) hk hout)
  | succeeded => exact Or.inl (Or.inl hstate)
  | deadLetter => exact Or.inl (Or.inr hstate)

namespace Sample

/-- The researcher handles the alert, and has nothing to pass on. -/
def deferred : List PipelineEvent :=
  List.flatten [[.start (.researcher (lit "r"))], calls 1 4,
    [.act 1 (.report { report with status := .defer })], calls 1 4]

/-- An alert has come in; then the researcher has handled it, and no more happens. -/
def handled (i : ℕ) : State :=
  run (Sample.host "auto") (ingested 0 ++ if i = 0 then [] else deferred)

theorem handled_round (i : ℕ) : Round (Sample.host "auto") Any (handled i) (handled (i + 1)) := by
  cases i with
  | zero =>
    refine ⟨reach_foldl deferred, fun _ => ?_⟩
    -- the worker reads the clock, and asks
    refine ⟨researchJob .queued 0 none none, by decide +kernel, by decide,
      run (Sample.host "auto") (ingested 0 ++ deferred.take 2), 1, .ok,
      reach_foldl (deferred.take 2), trivial, ⟨lit "r", 60000000, 0, rfl, le_rfl, ?_⟩,
      reach_foldl (deferred.drop 3)⟩
    exact ⟨some ⟨2, 3, 0, .research, 1, 1⟩, _, rfl⟩
  | succ i =>
    have hnone : ¬ SomeWaits (handled 1) := by decide +kernel
    exact ⟨.init, fun hwaits => absurd hwaits hnone⟩

end Sample

/-- One round begins with a job that waits, and in one of so many all jobs are finished. -/
theorem drained_handled : SomeWaits (Sample.handled 0) ∧
    ((List.range 60025).filter fun i => decide (SomeWaits (Sample.handled i))).length ≤ 60024 ∧
    ∃ i < 60025, ∀ j ∈ (Sample.handled i).world.db.stageJobs, j.finished ∨
      ∃ k, HeldBy (Sample.handled i) j.jobId k ∧
        ∀ th ∈ (Sample.handled i).threads[k]?, ∀ out, th.result ≠ some (.ok out) := by
  have hbound : (Sample.handled 60025).world.db.pipelineTraces.length *
      traceLimit (Sample.host "auto").cfg.queue = 60024 := by decide +kernel
  obtain ⟨hcount, hquiet⟩ := @drained (Sample.host "auto") Any Sample.handled
    (reachable_run _ _) 60025 fun i _ => Sample.handled_round i
  rw [hbound] at hcount hquiet
  exact ⟨by decide +kernel, hcount, hquiet (by decide)⟩

end Sentinel.Pipeline
