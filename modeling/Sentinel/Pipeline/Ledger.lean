import Sentinel.Pipeline.Growth

/-!
# The books of the queue

What `stage_jobs`, `stage_runs` and `dead_letters` say about each job (`Book`).  A new job, a lease
and the ending of the latest run of a job keep it, although they update rows by id without a look at
the state before.
-/

namespace Sentinel.Pipeline

open Logic Contracts PipelineDB

/-! ## Reading the tables -/

/-- The runs of a job, the latest last. -/
def runsOf (runs : List StageRun) (jobId : UUID) : List StageRun :=
  runs.filter fun r => r.jobId = jobId

def deadLettersOf (deadLetters : List DeadLetter) (jobId : UUID) : List DeadLetter :=
  deadLetters.filter fun d => d.jobId = jobId

/-- The runs and dead letters of a job are those that its row tells. -/
structure JobBook (runs : List StageRun) (deadLetters : List DeadLetter) (j : StageJob) : Prop where
  attempts : j.attemptCount = (runsOf runs j.jobId).length
  latest : runsOf runs j.jobId = [] ∧ j.state = .queued ∨
    ∃ rs r, runsOf runs j.jobId = rs ++ [r] ∧ j.state = r.resultState ∧
      ∀ r' ∈ rs, r'.resultState = .retryWait
  deadLetters : (deadLettersOf deadLetters j.jobId).length = if j.state = .deadLetter then 1 else 0

/-- The rows of the queue agree with one another. -/
structure Book (jobs : List StageJob) (runs : List StageRun) (deadLetters : List DeadLetter) :
    Prop where
  jobIds : (jobs.map StageJob.jobId).Nodup
  runIds : (runs.map StageRun.runId).Nodup
  job : ∀ j ∈ jobs, JobBook runs deadLetters j
  run : ∀ r ∈ runs, r.resultState ≠ .queued ∧ ∃ j ∈ jobs, j.jobId = r.jobId
  deadLetter : ∀ d ∈ deadLetters, ∃ j ∈ jobs, j.jobId = d.jobId

theorem book_nil : Book [] [] [] := by
  constructor <;> simp

section Book

variable {jobs : List StageJob} {runs : List StageRun} {deadLetters : List DeadLetter}

theorem runsOf_eq_nil {jobId : UUID} : runsOf runs jobId = [] ↔ ∀ r ∈ runs, r.jobId ≠ jobId := by
  simp [runsOf]

theorem mem_runsOf {jobId : UUID} {r : StageRun} :
    r ∈ runsOf runs jobId ↔ r ∈ runs ∧ r.jobId = jobId := by
  simp [runsOf]

theorem runsOf_append {r : StageRun} {jobId : UUID} :
    runsOf (runs ++ [r]) jobId = if r.jobId = jobId then runsOf runs jobId ++ [r]
      else runsOf runs jobId := by
  simp only [runsOf, List.filter_append, List.filter_singleton]
  split_ifs <;> simp_all

/-- An update that leaves the job of a run alone is one of the runs of each job. -/
theorem runsOf_updateWhere {p : StageRun → Bool} {f : StageRun → StageRun}
    (hf : ∀ r, (f r).jobId = r.jobId) {jobId : UUID} :
    runsOf (updateWhere p f runs) jobId = updateWhere p f (runsOf runs jobId) := by
  rw [runsOf, updateWhere, List.filter_map, runsOf, updateWhere]
  congr 2
  funext r
  simp only [Function.comp_apply]
  split_ifs
  · rw [hf]
  · rfl

/-! ## A new job -/

theorem Book.newJob (h : Book jobs runs deadLetters) {row : StageJob}
    (hnew : ∀ j ∈ jobs, j.jobId ≠ row.jobId) (hstate : row.state = .queued)
    (hcount : row.attemptCount = 0) : Book (jobs ++ [row]) runs deadLetters where
  jobIds := nodup_append_new h.jobIds hnew
  runIds := h.runIds
  job j hj := by
    rcases List.mem_append.mp hj with hj | hj
    · exact h.job j hj
    · obtain rfl := List.mem_singleton.mp hj
      have hruns : runsOf runs j.jobId = [] := by
        refine runsOf_eq_nil.mpr fun r hr heq => ?_
        obtain ⟨-, j', hj', hid⟩ := h.run r hr
        exact hnew j' hj' (hid.trans heq)
      have hdead : deadLettersOf deadLetters j.jobId = [] := by
        simp only [deadLettersOf, List.filter_eq_nil_iff, decide_eq_true_eq]
        intro d hd heq
        obtain ⟨j', hj', hid⟩ := h.deadLetter d hd
        exact hnew j' hj' (hid.trans heq)
      exact ⟨by rw [hruns, hcount]; rfl, Or.inl ⟨hruns, hstate⟩, by rw [hdead, hstate]; rfl⟩
  run r hr := by
    obtain ⟨hstate, j, hj, hid⟩ := h.run r hr
    exact ⟨hstate, j, List.mem_append_left _ hj, hid⟩
  deadLetter d hd := by
    obtain ⟨j, hj, hid⟩ := h.deadLetter d hd
    exact ⟨j, List.mem_append_left _ hj, hid⟩

/-! ## A lease -/

/-- The runs of a job that waits all ended with a retry. -/
theorem JobBook.waiting {j : StageJob} (h : JobBook runs deadLetters j)
    (hrun : ∀ r ∈ runs, r.resultState ≠ .queued)
    (hwaits : j.state = .queued ∨ j.state = .retryWait) :
    ∀ r ∈ runsOf runs j.jobId, r.resultState = .retryWait := by
  intro r hr
  rcases h.latest with ⟨hnil, -⟩ | ⟨rs, r', heq, hstate, hrs⟩
  · rw [hnil] at hr
    cases hr
  · have hr' : r'.resultState = .retryWait := by
      rcases hwaits with hq | hw
      · have hmem : r' ∈ runsOf runs j.jobId := by rw [heq]; simp
        exact absurd (hstate.symm.trans hq) (hrun r' (mem_runsOf.mp hmem).1)
      · exact hstate.symm.trans hw
    rw [heq] at hr
    rcases List.mem_append.mp hr with hr | hr
    · exact hrs r hr
    · obtain rfl := List.mem_singleton.mp hr
      exact hr'

/-- A row of the updated jobs, with the row it was. -/
theorem mem_update_job {jobId : UUID} {f : StageJob → StageJob} {j' : StageJob}
    (hj' : j' ∈ updateWhere (fun j => j.jobId = jobId) f jobs) :
    ∃ j ∈ jobs, j.jobId ≠ jobId ∧ j' = j ∨ j.jobId = jobId ∧ j' = f j := by
  obtain ⟨j, hj, rfl⟩ := mem_updateWhere.mp hj'
  by_cases hid : j.jobId = jobId
  · exact ⟨j, hj, Or.inr ⟨hid, by simp [hid]⟩⟩
  · exact ⟨j, hj, Or.inl ⟨hid, by simp [hid]⟩⟩

/-- The rows an update leaves have the ids of before. -/
theorem exists_job_updateWhere {p : StageJob → Bool} {f : StageJob → StageJob}
    (hf : ∀ j, (f j).jobId = j.jobId) {jobId : UUID} (h : ∃ j ∈ jobs, j.jobId = jobId) :
    ∃ j ∈ updateWhere p f jobs, j.jobId = jobId := by
  obtain ⟨j, hj, rfl⟩ := h
  refine ⟨_, mem_updateWhere_of_mem hj, ?_⟩
  split_ifs
  · exact hf j
  · rfl

theorem Book.lease (h : Book jobs runs deadLetters) {row : StageJob} (hrow : row ∈ jobs)
    (hwaits : row.state = .queued ∨ row.state = .retryWait) {workerId : Text} {leasedUntil : Time}
    {r : StageRun} (hjob : r.jobId = row.jobId) (hstate : r.resultState = .running)
    (hnew : ∀ r' ∈ runs, r'.runId ≠ r.runId) :
    Book (updateWhere (fun j => j.jobId = row.jobId) (leasedRow row workerId leasedUntil) jobs)
      (runs ++ [r]) deadLetters where
  jobIds := nodup_updateWhere (fun _ => rfl) h.jobIds
  runIds := nodup_append_new h.runIds hnew
  job j' hj' := by
    obtain ⟨j, hj, ⟨hid, rfl⟩ | ⟨hid, rfl⟩⟩ := mem_update_job hj'
    · have hruns : runsOf (runs ++ [r]) j'.jobId = runsOf runs j'.jobId := by
        rw [runsOf_append, if_neg]
        exact fun heq => hid (heq.symm.trans hjob)
      have hbook := h.job j' hj
      exact ⟨by rw [hruns]; exact hbook.attempts, by rw [hruns]; exact hbook.latest,
        hbook.deadLetters⟩
    · obtain rfl := eq_of_nodup h.jobIds hj hrow hid
      have hbook := h.job j hj
      have hruns : runsOf (runs ++ [r]) j.jobId = runsOf runs j.jobId ++ [r] := by
        rw [runsOf_append, if_pos hjob]
      refine ⟨?_, Or.inr ⟨_, r, hruns, hstate.symm, ?_⟩, ?_⟩
      · change j.attemptCount + 1 = (runsOf (runs ++ [r]) j.jobId).length
        rw [hruns, hbook.attempts, List.length_append, List.length_singleton]
      · exact hbook.waiting (fun r' hr' => (h.run r' hr').1) hwaits
      · have hdead := hbook.deadLetters
        rw [if_neg (by rcases hwaits with hw | hw <;> simp [hw])] at hdead
        simpa [leasedRow] using hdead
  run r' hr' := by
    have hjobs : r'.resultState ≠ .queued ∧ ∃ j ∈ jobs, j.jobId = r'.jobId := by
      rcases List.mem_append.mp hr' with hr' | hr'
      · exact h.run r' hr'
      · obtain rfl := List.mem_singleton.mp hr'
        exact ⟨by simp [hstate], row, hrow, hjob.symm⟩
    exact ⟨hjobs.1, exists_job_updateWhere (f := leasedRow row workerId leasedUntil) (fun _ => rfl)
      hjobs.2⟩
  deadLetter d hd := exists_job_updateWhere (f := leasedRow row workerId leasedUntil) (fun _ => rfl)
    (h.deadLetter d hd)

/-! ## An ending -/

/-- The row that an ending leaves of a run. -/
def endedRun (state : JobState) (now : Time) (r : StageRun) : StageRun :=
  { r with finishedAt := some now, resultState := state }

/-- The run is the latest of the job. -/
def LatestRun (runs : List StageRun) (jobId runId : UUID) (state : JobState) : Prop :=
  ∃ rs r, runsOf runs jobId = rs ++ [r] ∧ r.runId = runId ∧ r.resultState = state

theorem LatestRun.mem {jobId runId : UUID} {state : JobState} (h : LatestRun runs jobId runId state) :
    ∃ r ∈ runs, r.jobId = jobId ∧ r.runId = runId ∧ r.resultState = state := by
  obtain ⟨rs, r, heq, hid, hstate⟩ := h
  obtain ⟨hr, hjob⟩ : r ∈ runs ∧ r.jobId = jobId := mem_runsOf.mp (by rw [heq]; simp)
  exact ⟨r, hr, hjob, hid, hstate⟩

/-- The job has the state of its latest run. -/
theorem JobBook.state_eq {j : StageJob} (h : JobBook runs deadLetters j) {runId : UUID}
    {state : JobState} (hlast : LatestRun runs j.jobId runId state) : j.state = state := by
  obtain ⟨rs, r, heq, -, hstate⟩ := hlast
  rcases h.latest with ⟨hnil, -⟩ | ⟨rs', r', heq', hstate', -⟩
  · rw [hnil] at heq
    simp at heq
  · obtain ⟨-, h2⟩ := List.append_inj' (heq.symm.trans heq') rfl
    obtain rfl := (List.cons.inj h2).1
    exact hstate'.trans hstate

/-- Ending the latest run leaves the others of the job as they are. -/
theorem runsOf_ended (h : (runs.map StageRun.runId).Nodup) {state : JobState} {now : Time}
    {rs : List StageRun} {r : StageRun} (heq : runsOf runs r.jobId = rs ++ [r]) :
    runsOf (updateWhere (fun r' => r'.runId = r.runId) (endedRun state now) runs) r.jobId =
      rs ++ [endedRun state now r] := by
  have hnodup : ((rs ++ [r]).map StageRun.runId).Nodup := by
    rw [← heq]
    exact h.sublist (List.filter_sublist.map _)
  rw [runsOf_updateWhere (f := endedRun state now) fun _ => rfl, heq, updateWhere, List.map_append]
  have hrs : rs.map (fun r' => if decide (r'.runId = r.runId) = true then endedRun state now r'
      else r') = rs := by
    refine (List.map_congr_left fun r' hr' => ?_).trans (List.map_id rs)
    have hne : r'.runId ≠ r.runId := by
      rw [List.map_append, List.nodup_append] at hnodup
      exact hnodup.2.2 _ (List.mem_map_of_mem hr') _ (by simp)
    simp [hne]
  rw [hrs]
  simp

theorem runsOf_ended_other (h : (runs.map StageRun.runId).Nodup) {state : JobState} {now : Time}
    {r : StageRun} (hr : r ∈ runs) {jobId : UUID} (hne : r.jobId ≠ jobId) :
    runsOf (updateWhere (fun r' => r'.runId = r.runId) (endedRun state now) runs) jobId =
      runsOf runs jobId := by
  rw [runsOf_updateWhere (f := endedRun state now) fun _ => rfl, updateWhere]
  refine (List.map_congr_left fun r' hr' => ?_).trans (List.map_id _)
  obtain ⟨hmem, hjob⟩ := mem_runsOf.mp hr'
  have hid : r'.runId ≠ r.runId := by
    intro heq
    obtain rfl := eq_of_nodup h hmem hr heq
    exact hne hjob
  simp [hid]

/-- The ending of the latest run of a job, with the dead letter it writes, if any. -/
theorem Book.finish (h : Book jobs runs deadLetters) {lease : JobLease} {before state : JobState}
    (hlast : LatestRun runs lease.jobId lease.runId before) (hbefore : before ≠ .deadLetter)
    (hstate : state ≠ .queued) {availableAt : Option Time} {error : Option Text} {now : Time}
    {new : List DeadLetter} (hnew : ∀ d ∈ new, d.jobId = lease.jobId)
    (hlength : new.length = if state = .deadLetter then 1 else 0) :
    Book (updateWhere (fun j => j.jobId = lease.jobId) (finishedRow state availableAt error) jobs)
      (updateWhere (fun r => r.runId = lease.runId) (endedRun state now) runs)
      (deadLetters ++ new) := by
  obtain ⟨rs, r, heq, hrun, -⟩ := id hlast
  obtain ⟨hr, hjob⟩ : r ∈ runs ∧ r.jobId = lease.jobId := mem_runsOf.mp (by rw [heq]; simp)
  rw [← hjob] at heq
  obtain ⟨-, j₀, hj₀, hid₀⟩ := h.run r hr
  refine ⟨nodup_updateWhere (fun _ => rfl) h.jobIds, nodup_updateWhere (fun _ => rfl) h.runIds, ?_,
    ?_, ?_⟩
  · intro j' hj'
    obtain ⟨j, hj, ⟨hid, rfl⟩ | ⟨hid, rfl⟩⟩ := mem_update_job hj'
    · have hbook := h.job j' hj
      have hruns : runsOf (updateWhere (fun r => r.runId = lease.runId) (endedRun state now) runs)
          j'.jobId = runsOf runs j'.jobId := by
        rw [← hrun]
        exact runsOf_ended_other h.runIds hr (by rw [hjob]; exact Ne.symm hid)
      have hdead : deadLettersOf (deadLetters ++ new) j'.jobId =
          deadLettersOf deadLetters j'.jobId := by
        have hnone : new.filter (fun d => decide (d.jobId = j'.jobId)) = [] := by
          simp only [List.filter_eq_nil_iff, decide_eq_true_eq]
          exact fun d hd hd' => hid (hd'.symm.trans (hnew d hd))
        simp [deadLettersOf, hnone]
      exact ⟨by rw [hruns]; exact hbook.attempts, by rw [hruns]; exact hbook.latest,
        by rw [hdead]; exact hbook.deadLetters⟩
    · have hbook := h.job j hj
      have hruns : runsOf (updateWhere (fun r => r.runId = lease.runId) (endedRun state now) runs)
          lease.jobId = rs ++ [endedRun state now r] := by
        rw [← hrun, ← hjob]
        exact runsOf_ended h.runIds heq
      refine ⟨?_, Or.inr ⟨rs, endedRun state now r, ?_, rfl, ?_⟩, ?_⟩
      · change j.attemptCount = (runsOf _ j.jobId).length
        rw [hid, hruns, hbook.attempts, hid, ← hjob, heq]
        simp
      · change runsOf _ j.jobId = _
        rw [hid, hruns]
      · rcases hbook.latest with ⟨hnil, -⟩ | ⟨rs', r', heq', -, hrs⟩
        · rw [hid, ← hjob, heq] at hnil
          simp at hnil
        · rw [hid, ← hjob, heq] at heq'
          obtain ⟨rfl, -⟩ := List.append_inj' heq' rfl
          exact hrs
      · have hold := hbook.deadLetters
        rw [if_neg (by rw [hbook.state_eq (hid ▸ hlast)]; exact hbefore)] at hold
        have hall : new.filter (fun d => decide (d.jobId = j.jobId)) = new := by
          simp only [List.filter_eq_self, decide_eq_true_eq]
          exact fun d hd => (hnew d hd).trans hid.symm
        change (deadLettersOf (deadLetters ++ new) j.jobId).length = _
        rw [deadLettersOf, List.filter_append, hall, List.length_append]
        rw [deadLettersOf] at hold
        rw [hold, hlength, Nat.zero_add]
        rfl
  · intro r' hr'
    obtain ⟨r'', hr'', rfl⟩ := mem_updateWhere.mp hr'
    obtain ⟨hq, hj⟩ := h.run r'' hr''
    refine ⟨?_, exists_job_updateWhere (f := finishedRow state availableAt error) (fun _ => rfl) ?_⟩
    · split_ifs
      · exact hstate
      · exact hq
    · split_ifs <;> exact hj
  · intro d hd
    refine exists_job_updateWhere (f := finishedRow state availableAt error) (fun _ => rfl) ?_
    rcases List.mem_append.mp hd with hd | hd
    · exact h.deadLetter d hd
    · exact ⟨j₀, hj₀, hid₀.trans (hjob.trans (hnew d hd).symm)⟩

end Book

end Sentinel.Pipeline
