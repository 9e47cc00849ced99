import Sentinel.Pipeline.Tenure

/-!
# Finished jobs

A finished row is left alone by every lease and by every other worker: only the step that completed
the job may reopen it, by a retry or a dead letter after its own success.
-/

namespace Sentinel.Pipeline

open Logic Contracts PipelineDB

variable {host : Host} {C : State → PipelineEvent → Prop} {s s' : State}

def StageJob.finished (j : StageJob) : Prop := j.state = .succeeded ∨ j.state = .deadLetter

instance : DecidablePred StageJob.finished := fun _ => inferInstanceAs (Decidable (_ ∨ _))

/-- The step retries its job, or gives it up, after it has completed it. -/
def reopens (s : State) : PipelineEvent → Bool
  | .act i inp => inp.commits &&
    s.threads[i]?.any fun th => endIn th.log = .succeeded && th.next.any Op.closes
  | _ => false

def NoReopening (s : State) (e : PipelineEvent) : Prop := reopens s e = false

instance : ∀ s e, Decidable (NoReopening s e) := fun _ _ => inferInstanceAs (Decidable (_ = _))

theorem endIn_of_unended {log : Log} (h : Unended log) : endIn log = .running := by
  induction log using List.reverseRecOn with
  | nil => rfl
  | append_singleton log en ih =>
    obtain ⟨hlog, hen⟩ := unended_append.mp h
    obtain ⟨op, r⟩ := en
    rw [endIn_concat, ih hlog]
    cases r with
    | error e => rfl
    | ok a =>
      have hop : op.ends = false := (unended_cons.mp hen).1
      cases op with
      | tx t => cases t <;> first | rfl | cases hop
      | _ => rfl

/-- A call that ends a run closes it, or completes a job that the log has not ended. -/
theorem closes_or_running {cfg : PipelineConfig} {task : Task} {log : Log} {op : Op}
    {lease : JobLease} (h : Issues cfg task log op) (hop : op.endsLease = some lease) :
    op.closes = true ∨ endIn log = .running := by
  cases op with
  | tx t =>
    cases t with
    | completeJobSuccess => exact Or.inr (endIn_of_unended h.2)
    | completeJobRetry => exact Or.inl rfl
    | deadLetterJob => exact Or.inl rfl
    | _ => cases hop
  | _ => cases hop

theorem finished_act {i : ℕ} {inp : Input} {t : Task} {log : Log} {op : Op}
    {k : Except Exn op.Ans → Program Out} {r : Except Exn op.Ans} {w : World}
    (h : Reachable host C s) (hC : NoReopening s (.act i inp))
    (hth : s.threads[i]? = some ⟨t, log, .call op k, true⟩)
    (hcall : s.world.call op inp = some (r, w)) {j : StageJob} (hj : j ∈ s.world.db.stageJobs)
    (hfinished : j.finished) : j ∈ w.db.stageJobs := by
  have hledger := ledger h
  have hkept : ∀ jobs, Enqueued s.world.db.stageJobs jobs → j ∈ jobs := by
    rintro jobs (rfl | ⟨row, -, -, -, rfl⟩)
    · exact hj
    · exact List.mem_append_left _ hj
  cases (called hcall).queue with
  | quiet hen hjobs hruns hdead => exact hkept _ hjobs
  | leased row run lease workerId leasedUntil hleases hrow hwaits hjob hstate hnew hlease hend hid hrun
      hjobs hruns hdead =>
    rw [hjobs]
    have hne : j.jobId ≠ row.jobId := by
      intro heq
      obtain rfl := eq_of_nodup hledger.book.jobIds hj hrow heq
      rcases hfinished with hf | hf <;> rcases hwaits with hw | hw <;> cases hf.symm.trans hw
    have hmem := mem_updateWhere_of_mem (p := fun j => j.jobId = row.jobId)
      (f := leasedRow row workerId leasedUntil) hj
    rwa [if_neg (by simpa using hne)] at hmem
  | ended lease state jobs availableAt error now new hends hcommit hstate hlease hend hold hnew hlength
      hjobs hruns hdead =>
    rw [hjobs]
    have hissues := (issued h hth).next rfl
    have hopen : Open log := by
      have hkeeps := issued_reach (M := machine host) (fun t => keepsRaising_body t [] open_nil) h i _ hth
      exact hkeeps.next rfl
    obtain ⟨hl, -⟩ := (orderly_of_issues hissues hopen).ends lease hends
    have hne : j.jobId ≠ lease.jobId := by
      intro heq
      have hlast := (hledger.tenure i _ hth lease hl).latest hopen
      have hjstate : j.state = endIn log :=
        (hledger.book.job j hj).state_eq (by rw [heq]; exact hlast)
      rcases endIn_of_open hopen with hrunning | hsucceeded
      · rcases hfinished with hf | hf <;> cases (hf.symm.trans hjstate).trans hrunning
      · rcases closes_or_running hissues hends with hcloses | hrunning
        · have hinp : inp.commits = true := by
            obtain ⟨a, ha⟩ := hcommit
            exact commits_of_ok (hcall.trans (congrArg (fun x => some (x, w)) ha))
          simp [NoReopening, reopens, hth, hinp, hsucceeded, Thread.next, Prog.next, hcloses] at hC
        · cases hsucceeded.symm.trans hrunning
    have hmem := mem_updateWhere_of_mem (p := fun j => j.jobId = lease.jobId)
      (f := finishedRow state availableAt error) (hkept _ hold)
    rwa [if_neg (by simpa using hne)] at hmem

theorem finished_step {e : PipelineEvent} (h : Reachable host C s) (hC : NoReopening s e)
    {j : StageJob} (hj : j ∈ s.world.db.stageJobs) (hfinished : j.finished) :
    j ∈ ((machine host).step s e).world.db.stageJobs := by
  have hm := moved (machine host) s e
  generalize (machine host).step s e = s' at hm
  cases hm with
  | act i inp t log op k r w hth hcall => exact finished_act h hC hth hcall hj hfinished
  | env e => cases e <;> exact hj
  | _ => exact hj

/-- From any reachable state on, a finished row stays as it is while no step reopens its job. -/
theorem finished_stays (h : Reachable host Any s)
    (h' : Reach (machine host).step s NoReopening s') {j : StageJob}
    (hj : j ∈ s.world.db.stageJobs) (hfinished : j.finished) :
    j ∈ s'.world.db.stageJobs ∧ ∀ j' ∈ s'.world.db.stageJobs, j'.jobId = j.jobId → j' = j := by
  have hmem : j ∈ s'.world.db.stageJobs := by
    induction h' with
    | init => exact hj
    | step hs hC ih => exact finished_step (h.trans hs.any) hC ih hfinished
  refine ⟨hmem, fun j' hj' hid => ?_⟩
  exact eq_of_nodup (ledger (h.trans h'.any)).book.jobIds hj' hmem hid

namespace Sample

/-- The analyst has completed its job. -/
def completed : List PipelineEvent :=
  List.flatten [ingested 0, researched 1, analysed 2 (portfolio 1001 0)]

def analysisJob : StageJob :=
  ⟨5, 0, .analysis, 4, .succeeded, 100, 1, 0, none, some (lit "a"), none, 0⟩

/-- The candidates are saved, and the executor takes the next job. -/
def saved : List PipelineEvent :=
  List.flatten [calls 2 1, evaluated 3 (portfolio 1001 0), ordered 3 "b1" 12]

/-- The candidates are not saved, and the analyst retries the job. -/
def unsaved : List PipelineEvent :=
  List.flatten [[.act 2 (.fault (lit "database is locked"))], calls 2 2]

end Sample

theorem finished_stays_saved : let s := run (Sample.host "auto") Sample.completed
    let s' := Sample.saved.foldl (machine (Sample.host "auto")).step s
    Sample.analysisJob ∈ s'.world.db.stageJobs ∧
      ∀ j ∈ s'.world.db.stageJobs, j.jobId = Sample.analysisJob.jobId → j = Sample.analysisJob :=
  finished_stays (reachable_run _ Sample.completed) (reach_of_allowed (by decide +kernel))
    (by decide +kernel) (by decide)

theorem finished_reopened : ∃ s s', Reachable (Sample.host "auto") Any s ∧
    Reach (machine (Sample.host "auto")).step s Any s' ∧ ∃ j ∈ s.world.db.stageJobs, j.finished ∧
      ∃ j' ∈ s'.world.db.stageJobs, j'.jobId = j.jobId ∧ j'.state ≠ j.state :=
  ⟨_, _, reachable_run _ Sample.completed, reach_foldl Sample.unsaved, by decide +kernel⟩

end Sentinel.Pipeline
