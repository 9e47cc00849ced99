import Sentinel.Pipeline.Origins

/-!
# Which jobs can be leased again

`lease_next_job` takes queued and waiting rows only; the deadline in `leased_until` is written and
never read.  So an unfinished row is leased by enough further calls exactly when it is not running:
a row whose worker stopped for good after the lease stays where it is.
-/

namespace Sentinel.Pipeline

open Logic Contracts PipelineDB

variable {host : Host} {C : State → PipelineEvent → Prop} {s : State}

/-! ## Calls of `lease_next_job` -/

structure LeaseCall : Type where
  tie : ℕ
  workerId : Text
  leasedUntil : Time
  now : Time

/-- The leases that consecutive calls return. -/
def leaseCalls (stage : StageName) (w : World) : List LeaseCall → List JobLease
  | [] => []
  | c :: calls =>
    match w.runTx c.tie (.leaseNextJob stage c.workerId c.leasedUntil c.now) with
    | (.ok (some lease), w') => lease :: leaseCalls stage w' calls
    | (_, w') => leaseCalls stage w' calls

/-- The call is made when the row may be leased again. -/
def LeaseCall.inTime (c : LeaseCall) (j : StageJob) : Prop :=
  j.availableAt ≤ c.now ∧ (j.state = .running → ∀ t ∈ j.leasedUntil, t < c.now)

/-- Enough calls in time return a lease for the row. -/
def LeasableAgain (w : World) (j : StageJob) : Prop :=
  ∃ n, ∀ calls : List LeaseCall, n ≤ calls.length → (∀ c ∈ calls, c.inTime j) →
    ∃ lease ∈ leaseCalls j.stage w calls, lease.jobId = j.jobId

/-! ## A call that finds a row -/

def StageJob.waits (j : StageJob) : Bool := j.state = .queued || j.state = .retryWait

theorem StageJob.before_iff {j k : StageJob} : j.before k = true ↔
    j.priority < k.priority ∨ j.priority = k.priority ∧ j.createdAt ≤ k.createdAt := by
  simp [StageJob.before]

theorem StageJob.before_total (j k : StageJob) : j.before k = true ∨ k.before j = true := by
  simp only [StageJob.before_iff]
  rcases lt_trichotomy j.priority k.priority with h | h | h
  · exact Or.inl (Or.inl h)
  · rcases le_total j.createdAt k.createdAt with h' | h'
    · exact Or.inl (Or.inr ⟨h, h'⟩)
    · exact Or.inr (Or.inr ⟨h.symm, h'⟩)
  · exact Or.inr (Or.inl h)

theorem StageJob.before_trans {i j k : StageJob} (h : i.before j = true) (h' : j.before k = true) :
    i.before k = true := by
  simp only [StageJob.before_iff] at *
  rcases h with h | ⟨h, hc⟩ <;> rcases h' with h' | ⟨h', hc'⟩
  · exact Or.inl (h.trans h')
  · exact Or.inl (h' ▸ h)
  · exact Or.inl (h ▸ h')
  · exact Or.inr ⟨h.trans h', hc.trans hc'⟩

/-- Some job of a list is before all of them. -/
theorem exists_first (j : StageJob) (js : List StageJob) :
    ∃ i ∈ j :: js, ∀ k ∈ j :: js, i.before k = true := by
  induction js generalizing j with
  | nil => exact ⟨j, by simp, fun k hk => by simpa [List.mem_singleton.mp hk] using j.before_total j⟩
  | cons j' js ih =>
    obtain ⟨i, hi, hfirst⟩ := ih j'
    rcases i.before_total j with hij | hji
    · refine ⟨i, List.mem_cons_of_mem _ hi, fun k hk => ?_⟩
      rcases List.mem_cons.mp hk with rfl | hk
      · exact hij
      · exact hfirst k hk
    · refine ⟨j, by simp, fun k hk => ?_⟩
      rcases List.mem_cons.mp hk with rfl | hk
      · simpa using k.before_total k
      · exact StageJob.before_trans hji (hfirst k hk)

theorem leasable_ne_nil {db : PipelineDB} {now : Time} {j : StageJob} (hj : j ∈ db.stageJobs)
    (hready : j.ready j.stage now = true) : db.leasable j.stage now ≠ [] := by
  cases hready' : db.stageJobs.filter (StageJob.ready j.stage now) with
  | nil => exact absurd (List.mem_filter.mpr ⟨hj, hready⟩) (by simp [hready'])
  | cons j' js =>
    obtain ⟨i, hi, hfirst⟩ := exists_first j' js
    rw [← hready'] at hi hfirst
    obtain ⟨hmem, hi⟩ := List.mem_filter.mp hi
    refine List.ne_nil_of_mem (mem_leasable.mpr ⟨⟨hmem, hi⟩, fun k hk hkready => ?_⟩)
    exact hfirst k (List.mem_filter.mpr ⟨hk, hkready⟩)

/-- The ids of runs are drawn in order. -/
def RunsBelow (w : World) : Prop := ∀ r ∈ w.db.stageRuns, r.runId < w.nextId

theorem runsBelow_finished {w : World} (hw : RunsBelow w) {lease : JobLease} {state : JobState}
    {now : Time} {n : UUID} (hn : w.nextId ≤ n) :
    ∀ r ∈ updateWhere (fun r => r.runId = lease.runId)
      (fun r => { r with
        finishedAt := some now
        resultState := state }) w.db.stageRuns, r.runId < n := by
  intro r hr
  obtain ⟨r', hr', rfl⟩ := mem_updateWhere.mp hr
  have hlt := lt_of_lt_of_le (hw r' hr') hn
  split_ifs <;> exact hlt

theorem called_runsBelow {w w' : World} {op : Op} {r : Except Exn op.Ans} (h : Called w op r w')
    (hw : RunsBelow w) : RunsBelow w' := by
  cases h with
  | leased stage workerId leasedUntil now row hrow hnew =>
    intro r hr
    rcases List.mem_append.mp hr with hr | hr
    · exact Nat.lt_succ_of_lt (hw r hr)
    · obtain rfl := List.mem_singleton.mp hr
      exact Nat.lt_succ_self _
  | completed lease output next availableAt status now out ms js ts hts h =>
    exact runsBelow_finished hw (Nat.le_succ _)
  | retried lease error availableAt now => exact runsBelow_finished hw le_rfl
  | deadLettered lease reason payload now =>
    exact runsBelow_finished hw (Nat.le_succ _)
  | evidence messageId items es => exact fun r hr => lt_of_lt_of_le (hw r hr) (Nat.le_add_right _ _)
  | asked | now | breaker | placed | raised | messageKnown | messageNew | fetchMessage
  | sourceAlertIdForTrace | candidates | snapshot | requested | approvalRequest | decided
  | brokerOrder | observation | observations | observed => exact hw
  | _ => exact fun r hr => Nat.lt_succ_of_lt (hw r hr)

theorem runsBelow (h : Reachable host C s) : RunsBelow s.world :=
  world_reach (M := machine host) (fun _ hr => absurd hr List.not_mem_nil)
    (fun _ _ _ _ _ hc => called_runsBelow (called hc)) (fun _ e hw => by cases e <;> exact hw) h

theorem leaseNextJob_not_error {db : PipelineDB} {fresh : UUID} {tie : ℕ} {stage : StageName}
    {workerId : Text} {leasedUntil now : Time} {e : Exn} (hfresh : ∀ r ∈ db.stageRuns, r.runId ≠ fresh) :
    db.leaseNextJob fresh tie stage workerId leasedUntil now ≠ .error e := by
  intro h
  unfold PipelineDB.leaseNextJob at h
  dsimp only at h
  split at h
  · cases h
  · split_ifs at h with hany
    obtain ⟨r, hr, heq⟩ := List.any_eq_true.mp hany
    exact hfresh r hr (by simpa using heq)

/-- A call that finds a row leases one. -/
theorem runTx_lease {w : World} (hw : RunsBelow w) {stage : StageName} {c : LeaseCall}
    (hne : w.db.leasable stage c.now ≠ []) :
    ∃ row ∈ w.db.leasable stage c.now, ∃ lease w',
      w.runTx c.tie (.leaseNextJob stage c.workerId c.leasedUntil c.now) = (.ok (some lease), w') ∧
      lease.jobId = row.jobId ∧ RunsBelow w' ∧
      w'.db.stageJobs = updateWhere (fun j => j.jobId = row.jobId)
        (leasedRow row c.workerId c.leasedUntil) w.db.stageJobs := by
  cases hx : w.db.leaseNextJob w.nextId c.tie stage c.workerId c.leasedUntil c.now with
  | error e => exact absurd hx (leaseNextJob_not_error fun r hr => (hw r hr).ne)
  | ok p =>
    obtain ⟨out, db⟩ := p
    have hrun : w.runTx c.tie (.leaseNextJob stage c.workerId c.leasedUntil c.now) =
        (.ok out, { w with db := db, nextId := w.nextId + 1 }) := by
      simp [World.runTx, Tx.exec, hx, Except.map]
    have hw' := called_runsBelow (called_runTx hrun) hw
    rcases leaseNextJob_ok hx with ⟨hnone, -, -⟩ | ⟨row, hrow, -, rfl, rfl⟩
    · exact absurd hnone hne
    · exact ⟨row, hrow, _, _, hrun, rfl, hw', rfl⟩

/-! ## A row that waits is leased -/

/-- The rows of the stage that wait. -/
def waiting (db : PipelineDB) (stage : StageName) : ℕ :=
  db.stageJobs.countP fun j => j.stage = stage && j.waits

/-- An update that leaves no row counted makes the count smaller if it meets a counted row. -/
theorem countP_updateWhere_lt {ρ : Type} {p q : ρ → Bool} {f : ρ → ρ} {rows : List ρ} {r : ρ}
    (hf : ∀ r, q (f r) = false) (hr : r ∈ rows) (hp : p r = true) (hq : q r = true) :
    (updateWhere p f rows).countP q < rows.countP q := by
  have hle : ∀ rows : List ρ, (updateWhere p f rows).countP q ≤ rows.countP q := by
    intro rows
    induction rows with
    | nil => exact le_rfl
    | cons x rows ih =>
      simp only [updateWhere, List.map_cons, List.countP_cons] at ih ⊢
      split_ifs <;> simp_all
      omega
  induction rows with
  | nil => simp at hr
  | cons x rows ih =>
    rcases List.mem_cons.mp hr with rfl | hr
    · have hrest := hle rows
      simp only [updateWhere, List.map_cons, List.countP_cons, hp, hq, hf, if_true] at hrest ⊢
      simp only [Bool.false_eq_true, if_false]
      omega
    · have hrest := ih hr
      simp only [updateWhere, List.map_cons, List.countP_cons] at hrest ⊢
      by_cases hx : p x = true
      · simp only [hx, if_true, hf, Bool.false_eq_true, if_false]
        omega
      · rw [if_neg hx]
        omega

theorem leased_of_waits {calls : List LeaseCall} {w : World} {j : StageJob} (hw : RunsBelow w)
    (hj : j ∈ w.db.stageJobs) (hwaits : j.waits = true)
    (hcalls : waiting w.db j.stage ≤ calls.length) (hnow : ∀ c ∈ calls, j.availableAt ≤ c.now) :
    ∃ lease ∈ leaseCalls j.stage w calls, lease.jobId = j.jobId := by
  induction calls generalizing w with
  | nil =>
    have hpos : 0 < waiting w.db j.stage :=
      List.countP_pos_iff.mpr ⟨j, hj, by simp [hwaits]⟩
    simp only [List.length_nil] at hcalls
    omega
  | cons c calls ih =>
    have hready : j.ready j.stage c.now = true := by
      simp only [StageJob.waits] at hwaits
      simp [StageJob.ready, hwaits, hnow c (by simp)]
    obtain ⟨row, hrow, lease, w', hrun, hid, hw', hjobs⟩ := runTx_lease hw (leasable_ne_nil hj hready)
    have hleases : leaseCalls j.stage w (c :: calls) = lease :: leaseCalls j.stage w' calls := by
      rw [leaseCalls, hrun]
    rw [hleases]
    by_cases hsame : row.jobId = j.jobId
    · exact ⟨lease, by simp, hid.trans hsame⟩
    · have hj' : j ∈ w'.db.stageJobs := by
        rw [hjobs]
        have := mem_updateWhere_of_mem (p := fun j => j.jobId = row.jobId)
          (f := leasedRow row c.workerId c.leasedUntil) hj
        simpa [Ne.symm hsame] using this
      have hlt : waiting w'.db j.stage < waiting w.db j.stage := by
        obtain ⟨⟨hmem, hrowready⟩, -⟩ := mem_leasable.mp hrow
        rw [waiting, hjobs]
        refine countP_updateWhere_lt (fun r => ?_) hmem (by simp) ?_
        · simp [leasedRow, StageJob.waits]
        · simp only [StageJob.ready, Bool.and_eq_true, decide_eq_true_eq] at hrowready
          simp [StageJob.waits, hrowready.1.1, hrowready.1.2]
      obtain ⟨lease', hmem, hid'⟩ := ih hw' hj' (by simp only [List.length_cons] at hcalls; omega)
        fun c' hc' => hnow c' (by simp [hc'])
      exact ⟨lease', List.mem_cons_of_mem _ hmem, hid'⟩

/-! ## A row that runs is not -/

theorem not_leased_of_running {calls : List LeaseCall} {w : World} {stage : StageName} {j : StageJob}
    (hnodup : (w.db.stageJobs.map StageJob.jobId).Nodup) (hj : j ∈ w.db.stageJobs)
    (hrunning : j.state = .running) :
    ∀ lease ∈ leaseCalls stage w calls, lease.jobId ≠ j.jobId := by
  induction calls generalizing w with
  | nil => simp [leaseCalls]
  | cons c calls ih =>
    cases hrun : w.runTx c.tie (.leaseNextJob stage c.workerId c.leasedUntil c.now) with
    | mk r w' =>
      have hcalled := called_runTx hrun
      unfold leaseCalls
      rw [hrun]
      cases hcalled with
      | asked op r hop => cases hop
      | raised op e hop => exact ih hnodup hj
      | leaseNone stage workerId leasedUntil now hnone => exact ih hnodup hj
      | leased stage workerId leasedUntil now row hrow hnew =>
        obtain ⟨⟨hmem, hready⟩, -⟩ := mem_leasable.mp hrow
        have hne : row.jobId ≠ j.jobId := by
          intro heq
          obtain rfl := eq_of_nodup hnodup hmem hj heq
          simp [StageJob.ready, hrunning] at hready
        intro lease hlease
        rcases List.mem_cons.mp hlease with rfl | hlease
        · exact hne
        · refine ih (nodup_updateWhere (f := leasedRow row c.workerId c.leasedUntil) (fun _ => rfl) hnodup)
            ?_ lease hlease
          have := mem_updateWhere_of_mem (p := fun j => j.jobId = row.jobId)
            (f := leasedRow row c.workerId c.leasedUntil) hj
          simpa [Ne.symm hne] using this

theorem not_leasableAgain {w : World} {j : StageJob}
    (hnodup : (w.db.stageJobs.map StageJob.jobId).Nodup) (hj : j ∈ w.db.stageJobs)
    (hrunning : j.state = .running) : ¬ LeasableAgain w j := by
  rintro ⟨n, hn⟩
  -- calls at a time past both `available_at` and `leased_until`
  let c : LeaseCall := ⟨0, [], 0, max j.availableAt (j.leasedUntil.getD 0 + 1)⟩
  have hc : c.inTime j := by
    refine ⟨le_max_left _ _, fun _ t ht => ?_⟩
    have hlt : t < j.leasedUntil.getD 0 + 1 := by
      rw [Option.mem_def.mp ht]
      exact Int.lt_succ t
    exact lt_of_lt_of_le hlt (le_max_right _ _)
  obtain ⟨lease, hmem, hid⟩ := hn (List.replicate n c) (by simp)
    fun c' hc' => (List.eq_of_mem_replicate hc') ▸ hc
  exact not_leased_of_running hnodup hj hrunning lease hmem hid

theorem jobIds_nodup (h : Reachable host C s) :
    (s.world.db.stageJobs.map StageJob.jobId).Nodup := by
  simpa [PipelineDB.jobKeys, StageJob.key, Function.comp_def] using (wellFormed h).jobId

/-- In every reachable state an unfinished job can be leased again exactly when it is not running. -/
theorem leasableAgain_iff (h : Reachable host C s) {j : StageJob} (hj : j ∈ s.world.db.stageJobs)
    (hsucceeded : j.state ≠ .succeeded) (hdead : j.state ≠ .deadLetter) :
    LeasableAgain s.world j ↔ j.state ≠ .running := by
  constructor
  · intro hagain hrunning
    exact not_leasableAgain (jobIds_nodup h) hj hrunning hagain
  · intro hrunning
    have hwaits : j.waits = true := by
      cases hstate : j.state with
      | queued => simp [StageJob.waits, hstate]
      | retryWait => simp [StageJob.waits, hstate]
      | running => exact absurd hstate hrunning
      | succeeded => exact absurd hstate hsucceeded
      | deadLetter => exact absurd hstate hdead
    exact ⟨waiting s.world.db j.stage, fun calls hlen hcalls =>
      leased_of_waits (runsBelow h) hj hwaits hlen fun c hc => (hcalls c hc).1⟩

namespace Sample

/-- The job that the alert queues. -/
def researchJob (state : JobState) (attemptCount : ℕ) (leasedUntil : Option Time)
    (workerId : Option Text) : StageJob :=
  ⟨2, 0, .research, 1, state, 100, attemptCount, 0, leasedUntil, workerId, none, 0⟩

/-- The worker stops as soon as it has leased the job. -/
def strandedEvents : List PipelineEvent :=
  List.flatten [ingested 0, [.start (.researcher (lit "r"))], calls 1 2, [.crash 1]]

/-- The first attempt at the job of the first of two alerts fails. -/
def failedOnceEvents : List PipelineEvent :=
  List.flatten [ingested 0, tick 1000, [.start secondDelivery], calls 1 7,
    [.start (.researcher (lit "r"))], calls 2 2, [.act 2 (.fault (lit "disk"))], calls 2 2]

def retriedJob : StageJob :=
  { researchJob .retryWait 1 none (some (lit "r")) with
    availableAt := 30001000, lastError := some (lit "disk") }

end Sample

theorem leasableAgain_iff_retried :
    (run (Sample.host "auto") Sample.failedOnceEvents).world.db.stageJobs.map StageJob.state =
      [.retryWait, .queued] ∧
    (LeasableAgain (run (Sample.host "auto") Sample.failedOnceEvents).world Sample.retriedJob ↔
      JobState.retryWait ≠ .running) :=
  ⟨by decide +kernel, leasableAgain_iff (reachable_run (Sample.host "auto") Sample.failedOnceEvents)
    (by decide +kernel) (by decide) (by decide)⟩

theorem stranded_job : ∃ s, Reachable (Sample.host "auto") Any s ∧ ∃ j ∈ s.world.db.stageJobs,
    j.state ≠ .succeeded ∧ j.state ≠ .deadLetter ∧ ¬ LeasableAgain s.world j := by
  have hs := reachable_run (Sample.host "auto") Sample.strandedEvents
  have hj : Sample.researchJob .running 1 (some 60000000) (some (lit "r")) ∈
      (run (Sample.host "auto") Sample.strandedEvents).world.db.stageJobs := by decide +kernel
  exact ⟨_, hs, _, hj, by decide, by decide, not_leasableAgain (jobIds_nodup hs) hj rfl⟩

end Sentinel.Pipeline
