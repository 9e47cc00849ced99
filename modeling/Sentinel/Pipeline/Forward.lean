import Sentinel.Pipeline.Lineage

/-!
# The stage of a trace

`ensure_trace` and every completion overwrite the row of a trace, whatever it says.  If an alert is
only delivered again while its trace is at its beginning, and no job is completed twice, then the
jobs of a trace form a chain of which at most the last has not been completed, and the row says how
far the chain has come.

* `GoesForward`: the condition on a step; `Marched`: the invariant of the chain.
* `Traded`: a trace for which an order has been submitted; steps keep it (`advance`).
-/

namespace Sentinel.Pipeline

open Logic Contracts PipelineDB

variable {host : Host} {s : State}

/-- The order of the stages. -/
def rank : StageName → ℕ
  | .ingest => 0
  | .research => 1
  | .analysis => 2
  | .execution => 3
  | .approval => 4
  | .outcome => 5

/-! ## What a call does to the traces and the jobs -/

/-- Only three calls move a trace or add a job. -/
inductive TraceMoved (w : World) (op : Op) (r : Except Exn op.Ans) (w' : World) : Prop
  | quiet (htraces : w'.db.pipelineTraces = w.db.pipelineTraces)
      (hjobs : w'.db.jobKeys = w.db.jobKeys)
  | ensured (alertId : Text) (stage : StageName) (status : String) (id : UUID)
      (hop : op = .tx (.ensureTrace alertId stage status)) (hok : r.isOk = true)
      (hjobs : w'.db.jobKeys = w.db.jobKeys)
      (htraces : (w'.db.pipelineTraces = updateWhere (fun t => t.traceId = id)
          (tracedRow stage status) w.db.pipelineTraces ∧ (id, alertId) ∈ w.db.traceKeys) ∨
        w'.db.pipelineTraces = w.db.pipelineTraces ++ [⟨w.nextId, alertId, stage, status⟩])
  | queued (traceId : UUID) (stage : StageName) (messageId : UUID) (priority : ℤ)
      (hop : op = .tx (.enqueueJob traceId stage messageId priority))
      (htraces : w'.db.pipelineTraces = w.db.pipelineTraces)
      (hnew : w.db.NewJob w.nextId stage messageId)
      (hjobs : w'.db.jobKeys = w.db.jobKeys ++ [⟨w.nextId, traceId, stage, messageId⟩])
  | completed (lease : JobLease) (envelope : PipelineEnvelope) (next : Option StageName)
      (availableAt : Option Time) (status : String) (now : Time)
      (hop : op = .tx (.completeJobSuccess lease (some envelope) next availableAt status now))
      (hok : r.isOk = true)
      (htraces : w'.db.pipelineTraces = updateWhere (fun t => t.traceId = envelope.traceId)
        (tracedRow envelope.stage status) w.db.pipelineTraces)
      (hjobs : w'.db.jobKeys = w.db.jobKeys ∨ ∃ stage ∈ next,
        w'.db.jobKeys = w.db.jobKeys ++ [⟨w.nextId, envelope.traceId, stage, envelope.messageId⟩])

theorem Called.trace {w w' : World} {op : Op} {r : Except Exn op.Ans} (h : Called w op r w') :
    TraceMoved w op r w' := by
  cases h with
  | ensureTrace alertId stage status id ts h =>
    refine .ensured alertId stage status id rfl rfl rfl ?_
    rcases h with ⟨rfl, hmem⟩ | ⟨rfl, -, -⟩
    · exact Or.inl ⟨rfl, hmem⟩
    · exact Or.inr rfl
  | jobNew traceId stage messageId priority hnew =>
    refine .queued traceId stage messageId priority rfl rfl hnew ?_
    simp [PipelineDB.jobKeys, newJob, StageJob.key]
  | leased stage workerId leasedUntil now row hrow hnew =>
    exact .quiet rfl (jobKeys_updateWhere fun j => rfl)
  | retried lease error availableAt now => exact .quiet rfl (jobKeys_updateWhere fun j => rfl)
  | deadLettered lease reason payload now => exact .quiet rfl (jobKeys_updateWhere fun j => rfl)
  | completed lease output next availableAt status now out ms js ts hts h =>
    have hkeys : ∀ js : List StageJob, (updateWhere (fun j => j.jobId = lease.jobId)
        (finishedRow .succeeded none none) js).map StageJob.key = js.map StageJob.key :=
      fun js => jobKeys_updateWhere fun j => rfl
    cases output with
    | none =>
      obtain ⟨-, rfl, -⟩ | ⟨_, hnone, -⟩ := h
      · exact .quiet hts (hkeys _)
      · cases hnone
    | some envelope =>
      refine .completed lease envelope next availableAt status now rfl rfl hts ?_
      rcases h with ⟨-, rfl, -⟩ | ⟨_, heq, -, -, -, ⟨-, rfl⟩ | ⟨stage, rfl, ⟨-, rfl⟩ | ⟨-, rfl⟩⟩⟩
      · exact Or.inl (hkeys _)
      · exact Or.inl (hkeys _)
      · exact Or.inl (hkeys _)
      · obtain rfl := Option.some.inj heq
        refine Or.inr ⟨stage, rfl, (hkeys _).trans ?_⟩
        simp [PipelineDB.jobKeys, newJob, StageJob.key]
  | _ => exact .quiet rfl rfl

/-- A completion with an output is of a job of the output's stage, and queues it for a later one. -/
theorem Completes.stages {cfg : PipelineConfig} {log : Log} {lease : JobLease}
    {envelope : PipelineEnvelope} {next : Option StageName}
    (h : Completes cfg log lease (some envelope) next) : ∃ parent,
      Holds log envelope.stage lease parent ∧ envelope.traceId = parent.traceId ∧
      envelope.stage ≠ .ingest ∧ ∀ stage ∈ next, rank envelope.stage ≤ rank stage := by
  cases h with
  | researched parent envelope ingested report next h hload hreport he hnext =>
    rw [he.stage, hnext]
    refine ⟨parent, h, he.traceId, by decide, ?_⟩
    split_ifs <;> decide
  | analysed parent envelope report snapshot output next h hload hsnapshot he hnext =>
    rw [he.stage, hnext]
    refine ⟨parent, h, he.traceId, by decide, ?_⟩
    split_ifs <;> decide
  | rejected parent envelope decision h hstatus he =>
    rw [he.stage]
    exact ⟨parent, h, he.traceId, by decide, by decide⟩
  | awaiting l parent envelope candidate intent checks approvalId hmode hl h he =>
    rw [he.stage]
    exact ⟨parent, h.holds.prefix_of hl, he.traceId, by decide, by decide⟩
  | submitted l parent envelope intent checks stage brokerOrderId hl h hstage he hholds =>
    rw [he.stage]
    refine ⟨parent, hholds.prefix_of hl, he.traceId, ?_, ?_⟩ <;> rcases hstage with rfl | rfl <;>
      decide
  | ended parent envelope status decision h he =>
    rw [he.stage]
    exact ⟨parent, h, he.traceId, by decide, by decide⟩
  | observed parent envelope rows rows' t next h hdue hupdated hrows' he hnext =>
    rw [he.stage, hnext]
    refine ⟨parent, h.holds, he.traceId, by decide, ?_⟩
    split_ifs <;> decide

/-! ## The condition -/

/-- The job that the call completes with an output. -/
def Op.concludes : Op → Option UUID
  | .tx (.completeJobSuccess lease (some _) ..) => some lease.jobId
  | _ => none

/-- A thread has completed the job with an output. -/
def Concluded (s : State) (jobId : UUID) : Prop :=
  ∃ th ∈ s.threads, ∃ en ∈ th.log, en.ans.isOk = true ∧ en.op.concludes = some jobId

instance (s : State) (jobId : UUID) : Decidable (Concluded s jobId) :=
  inferInstanceAs (Decidable (∃ _ ∈ _, ∃ _ ∈ _, _))

/-- The call finds the trace of its alert at the beginning, and completes no job again. -/
def Onwards (s : State) : Op → Prop
  | .tx (.ensureTrace alertId _ _) =>
    ∀ t ∈ s.world.db.pipelineTraces, t.sourceAlertId = alertId → t.currentStage = .ingest
  | op => ∀ jobId ∈ op.concludes, ¬ Concluded s jobId

instance (s : State) : ∀ op, Decidable (Onwards s op) := by
  intro op
  unfold Onwards
  split <;> infer_instance

def GoesForward (s : State) : PipelineEvent → Prop
  | .act i inp => inp.commits = true → ∀ op ∈ nextCall s i, Onwards s op
  | _ => True

instance : ∀ s e, Decidable (GoesForward s e) := by
  intro s e
  unfold GoesForward
  split <;> infer_instance

/-! ## The chain of jobs -/

/-- A job that has not been completed with an output. -/
def Upcoming (s : State) (k : JobKey) : Prop := k ∈ s.world.db.jobKeys ∧ ¬ Concluded s k.jobId

/-- An order has been submitted for the trace, which is only observed from then on. -/
structure Traded (s : State) (t : PipelineTrace) : Prop where
  status : t.status ∉ earlyStatuses
  stage : t.currentStage ≠ .ingest
  ahead : ∀ k, Upcoming s k → k.traceId = t.traceId → k.stage = .outcome

structure Marched (s : State) : Prop where
  root : ∀ k ∈ s.world.db.jobKeys, ∃ k' ∈ s.world.db.jobKeys, k'.stage = .research ∧
    k'.traceId = k.traceId
  early : ∀ t ∈ s.world.db.pipelineTraces,
    (∀ k ∈ s.world.db.jobKeys, k.traceId ≠ t.traceId) → t.currentStage = .ingest
  one : ∀ k k', Upcoming s k → Upcoming s k' → k.traceId = k'.traceId → k = k'
  ahead : ∀ t ∈ s.world.db.pipelineTraces, ∀ k, Upcoming s k → k.traceId = t.traceId →
    rank t.currentStage ≤ rank k.stage
  submitted : ∀ t ∈ s.world.db.pipelineTraces, t.status = "submitted" → Traded s t

theorem Concluded.moved {s' : State} {e : PipelineEvent} (hm : Moved (machine host) s e s')
    {jobId : UUID} (h : Concluded s jobId) : Concluded s' jobId := by
  obtain ⟨th, hth, en, hen, hok, hop⟩ := h
  obtain ⟨j, hj⟩ := List.getElem?_of_mem hth
  obtain ⟨th', hj', -, hpre⟩ := thread_kept hm hj
  exact ⟨th', List.mem_of_getElem? hj', en, hpre.subset hen, hok, hop⟩

/-- Where no job was added, what is still ahead was ahead before. -/
theorem Upcoming.before {s' : State} {e : PipelineEvent} (hm : Moved (machine host) s e s')
    (hjobs : s'.world.db.jobKeys = s.world.db.jobKeys) {k : JobKey} (h : Upcoming s' k) : Upcoming s k :=
  ⟨hjobs ▸ h.1, fun hk => h.2 (hk.moved hm)⟩

/-! ## The steps -/

/-- The later row of a trace. -/
structure Later (s' : State) (s : State) (t t' : PipelineTrace) : Prop where
  traceId : t'.traceId = t.traceId
  rank : rank t.currentStage ≤ rank t'.currentStage
  traded : Traded s t → Traded s' t'

/-- What a step does to the traces. -/
structure Advanced (s s' : State) : Prop where
  marched : Marched s'
  later : ∀ t ∈ s.world.db.pipelineTraces, ∃ t' ∈ s'.world.db.pipelineTraces, Later s' s t t'

section Steps

variable {s' : State} {e : PipelineEvent} (hm : Moved (machine host) s e s')
include hm

theorem Traded.kept (hjobs : s'.world.db.jobKeys = s.world.db.jobKeys) {t : PipelineTrace}
    (h : Traded s t) : Traded s' t :=
  ⟨h.status, h.stage, fun k hk => h.ahead k (hk.before hm hjobs)⟩

/-- Neither the traces nor the jobs change. -/
theorem Marched.quiet (h : Marched s)
    (htraces : s'.world.db.pipelineTraces = s.world.db.pipelineTraces)
    (hjobs : s'.world.db.jobKeys = s.world.db.jobKeys) : Advanced s s' where
  marched :=
    { root := by rw [hjobs]; exact h.root
      early := by rw [hjobs, htraces]; exact h.early
      one := fun k k' hk hk' => h.one k k' (hk.before hm hjobs) (hk'.before hm hjobs)
      ahead := by
        rw [htraces]
        exact fun t ht k hk => h.ahead t ht k (hk.before hm hjobs)
      submitted := by
        rw [htraces]
        exact fun t ht hstatus => (h.submitted t ht hstatus).kept hm hjobs }
  later t ht := ⟨t, htraces ▸ ht, rfl, le_rfl, Traded.kept hm hjobs⟩

/-- An alert comes in whose trace, if it has one, is at its beginning. -/
theorem Marched.ensured (h : Marched s) (hwf : WellFormed s.world.db) {alertId : Text} {id : UUID}
    (hstart : ∀ t ∈ s.world.db.pipelineTraces, t.sourceAlertId = alertId → t.currentStage = .ingest)
    (hjobs : s'.world.db.jobKeys = s.world.db.jobKeys)
    (htraces : (s'.world.db.pipelineTraces = updateWhere (fun t => t.traceId = id)
        (tracedRow .ingest "persisted") s.world.db.pipelineTraces ∧
          (id, alertId) ∈ s.world.db.traceKeys) ∨
      s'.world.db.pipelineTraces =
        s.world.db.pipelineTraces ++ [⟨s.world.nextId, alertId, .ingest, "persisted"⟩]) :
    Advanced s s' := by
  have hrow : ∀ t' ∈ s'.world.db.pipelineTraces, t' ∈ s.world.db.pipelineTraces ∨
      t'.currentStage = .ingest ∧ t'.status = "persisted" := by
    intro t' ht'
    rcases htraces with ⟨heq, -⟩ | heq
    · obtain ⟨t, ht, rfl⟩ := mem_updateWhere.mp (heq ▸ ht')
      split_ifs
      · exact Or.inr ⟨rfl, rfl⟩
      · exact Or.inl ht
    · rcases List.mem_append.mp (heq ▸ ht') with ht | ht
      · exact Or.inl ht
      · obtain rfl := List.mem_singleton.mp ht
        exact Or.inr ⟨rfl, rfl⟩
  refine ⟨⟨?_, ?_, ?_, ?_, ?_⟩, ?_⟩
  · rw [hjobs]
    exact h.root
  · intro t' ht' hnone
    rw [hjobs] at hnone
    rcases hrow t' ht' with ht | ⟨hstage, -⟩
    · exact h.early t' ht hnone
    · exact hstage
  · exact fun k k' hk hk' => h.one k k' (hk.before hm hjobs) (hk'.before hm hjobs)
  · intro t' ht' k hk htrace
    rcases hrow t' ht' with ht | ⟨hstage, -⟩
    · exact h.ahead t' ht k (hk.before hm hjobs) htrace
    · rw [hstage]
      exact Nat.zero_le _
  · intro t' ht' hstatus
    rcases hrow t' ht' with ht | ⟨-, hpersisted⟩
    · exact (h.submitted t' ht hstatus).kept hm hjobs
    · rw [hpersisted] at hstatus
      exact absurd hstatus (by decide)
  · intro t ht
    rcases htraces with ⟨heq, hkey⟩ | heq
    · refine ⟨_, heq ▸ mem_updateWhere_of_mem ht, ?_⟩
      split_ifs with hid
      · -- the row of the alert: it is at the beginning, so no order has been submitted
        rw [decide_eq_true_eq] at hid
        obtain ⟨t₀, ht₀, heq₀⟩ := List.mem_map.mp hkey
        obtain ⟨hid₀, halert⟩ := Prod.mk.inj heq₀
        have hnodup := hwf.traceId
        rw [traceKeys, List.map_map] at hnodup
        obtain rfl := eq_of_nodup hnodup ht ht₀ (hid.trans hid₀.symm)
        have hstage := hstart t ht halert
        exact ⟨rfl, by rw [hstage]; exact Nat.zero_le _, fun htraded => absurd hstage htraded.stage⟩
      · exact ⟨rfl, le_rfl, Traded.kept hm hjobs⟩
    · exact ⟨t, by rw [heq]; exact List.mem_append_left _ ht, rfl, le_rfl, Traded.kept hm hjobs⟩

/-- The first job of a trace is queued. -/
theorem Marched.queued (h : Marched s) {k₀ : JobKey} (hstage : k₀.stage = .research)
    (hnone : ∀ k ∈ s.world.db.jobKeys, k.traceId ≠ k₀.traceId)
    (htraces : s'.world.db.pipelineTraces = s.world.db.pipelineTraces)
    (hjobs : s'.world.db.jobKeys = s.world.db.jobKeys ++ [k₀]) : Advanced s s' := by
  have hmem : ∀ k, k ∈ s'.world.db.jobKeys ↔ k ∈ s.world.db.jobKeys ∨ k = k₀ := by
    intro k
    rw [hjobs, List.mem_append, List.mem_singleton]
  have hcases : ∀ k, Upcoming s' k → Upcoming s k ∨ k = k₀ := fun k hk =>
    ((hmem k).mp hk.1).imp_left fun hold => ⟨hold, fun hc => hk.2 (hc.moved hm)⟩
  have hkept : ∀ t ∈ s.world.db.pipelineTraces, Traded s t → Traded s' t := by
    intro t ht htraded
    refine ⟨htraded.status, htraded.stage, fun k hk htrace => ?_⟩
    rcases hcases k hk with hold | rfl
    · exact htraded.ahead k hold htrace
    · exact absurd (h.early t ht fun k' hk' => htrace ▸ hnone k' hk') htraded.stage
  refine ⟨⟨?_, ?_, ?_, ?_, ?_⟩, fun t ht => ⟨t, htraces ▸ ht, rfl, le_rfl, hkept t ht⟩⟩
  · intro k hk
    rcases (hmem k).mp hk with hold | rfl
    · obtain ⟨k', hk', hroot⟩ := h.root k hold
      exact ⟨k', (hmem k').mpr (Or.inl hk'), hroot⟩
    · exact ⟨k, hk, hstage, rfl⟩
  · intro t ht hnone'
    rw [htraces] at ht
    exact h.early t ht fun k hk => hnone' k ((hmem k).mpr (Or.inl hk))
  · intro k k' hk hk' htrace
    rcases hcases k hk with hold | rfl <;> rcases hcases k' hk' with hold' | rfl
    · exact h.one k k' hold hold' htrace
    · exact absurd htrace (hnone k hold.1)
    · exact absurd htrace.symm (hnone k' hold'.1)
    · rfl
  · intro t ht k hk htrace
    rw [htraces] at ht
    rcases hcases k hk with hold | rfl
    · exact h.ahead t ht k hold htrace
    · rw [h.early t ht fun k' hk' => htrace ▸ hnone k' hk']
      exact Nat.zero_le _
  · intro t ht hstatus
    rw [htraces] at ht
    exact hkept t ht (h.submitted t ht hstatus)

/-- A job that is ahead is completed with an output, which may be queued. -/
theorem Marched.completed (h : Marched s) {k₀ : JobKey} (hk₀ : Upcoming s k₀)
    (hdone : Concluded s' k₀.jobId) {status : String} {next : Option StageName}
    {jobId messageId : UUID} (hstage : k₀.stage ≠ .ingest)
    (hnext : ∀ stage ∈ next, rank k₀.stage ≤ rank stage)
    (hsubmitted : status = "submitted" → next = some .outcome)
    (hobserved : k₀.stage = .outcome → status ∉ earlyStatuses)
    (htraces : s'.world.db.pipelineTraces = updateWhere (fun t => t.traceId = k₀.traceId)
      (tracedRow k₀.stage status) s.world.db.pipelineTraces)
    (hjobs : s'.world.db.jobKeys = s.world.db.jobKeys ∨ ∃ stage ∈ next,
      s'.world.db.jobKeys = s.world.db.jobKeys ++ [⟨jobId, k₀.traceId, stage, messageId⟩]) :
    Advanced s s' := by
  have hmem : ∀ k ∈ s'.world.db.jobKeys, k ∈ s.world.db.jobKeys ∨
      ∃ stage ∈ next, k = ⟨jobId, k₀.traceId, stage, messageId⟩ := by
    intro k hk
    rcases hjobs with heq | ⟨stage, hs, heq⟩
    · exact Or.inl (heq ▸ hk)
    · rcases List.mem_append.mp (heq ▸ hk) with hk | hk
      · exact Or.inl hk
      · exact Or.inr ⟨stage, hs, List.mem_singleton.mp hk⟩
  have hkept : ∀ k ∈ s.world.db.jobKeys, k ∈ s'.world.db.jobKeys := by
    intro k hk
    rcases hjobs with heq | ⟨stage, -, heq⟩
    · exact heq ▸ hk
    · exact heq ▸ List.mem_append_left _ hk
  -- in the trace of the completed job only the job just queued is ahead
  have hahead : ∀ k, Upcoming s' k → (Upcoming s k ∧ k.traceId ≠ k₀.traceId) ∨
      ∃ stage ∈ next, k = ⟨jobId, k₀.traceId, stage, messageId⟩ := by
    intro k hk
    refine (hmem k hk.1).imp_left fun hold => ?_
    have hk' : Upcoming s k := ⟨hold, fun hc => hk.2 (hc.moved hm)⟩
    refine ⟨hk', fun htrace => hk.2 ?_⟩
    rw [h.one k k₀ hk' hk₀ htrace]
    exact hdone
  have hrow : ∀ t' ∈ s'.world.db.pipelineTraces, ∃ t ∈ s.world.db.pipelineTraces,
      t.traceId = k₀.traceId ∧ t' = tracedRow k₀.stage status t ∨
        t.traceId ≠ k₀.traceId ∧ t' = t := by
    intro t' ht'
    obtain ⟨t, ht, rfl⟩ := mem_updateWhere.mp (htraces ▸ ht')
    refine ⟨t, ht, ?_⟩
    split_ifs with hid
    · exact Or.inl ⟨of_decide_eq_true hid, rfl⟩
    · exact Or.inr ⟨fun heq => hid (decide_eq_true heq), rfl⟩
  have hother : ∀ t, t.traceId ≠ k₀.traceId → Traded s t → Traded s' t := by
    intro t hne htraded
    refine ⟨htraded.status, htraded.stage, fun k hk htrace => ?_⟩
    rcases hahead k hk with ⟨hold, -⟩ | ⟨stage, -, rfl⟩
    · exact htraded.ahead k hold htrace
    · exact absurd htrace.symm hne
  have htraded : ∀ t : PipelineTrace, t.traceId = k₀.traceId → status ∉ earlyStatuses →
      (∀ stage ∈ next, stage = .outcome) → Traded s' (tracedRow k₀.stage status t) := by
    intro t hid hstatus houtcome
    refine ⟨hstatus, hstage, fun k hk htrace => ?_⟩
    rcases hahead k hk with ⟨-, hne⟩ | ⟨stage, hs, rfl⟩
    · exact absurd (htrace.trans hid) hne
    · exact houtcome stage hs
  refine ⟨⟨?_, ?_, ?_, ?_, ?_⟩, fun t ht => ⟨_, htraces ▸ mem_updateWhere_of_mem ht, ?_⟩⟩
  · intro k hk
    obtain ⟨k', hk', hroot⟩ : ∃ k' ∈ s.world.db.jobKeys, k'.stage = .research ∧
        k'.traceId = k.traceId := by
      rcases hmem k hk with hold | ⟨stage, -, rfl⟩
      · exact h.root k hold
      · exact h.root k₀ hk₀.1
    exact ⟨k', hkept k' hk', hroot⟩
  · intro t' ht' hnone
    obtain ⟨t, ht, ⟨hid, rfl⟩ | ⟨-, rfl⟩⟩ := hrow t' ht'
    · exact absurd hid.symm (hnone k₀ (hkept k₀ hk₀.1))
    · exact h.early t' ht fun k hk => hnone k (hkept k hk)
  · intro k k' hk hk' htrace
    rcases hahead k hk with ⟨hold, hne⟩ | ⟨stage, hs, rfl⟩ <;>
      rcases hahead k' hk' with ⟨hold', hne'⟩ | ⟨stage', hs', rfl⟩
    · exact h.one k k' hold hold' htrace
    · exact absurd htrace hne
    · exact absurd htrace.symm hne'
    · rw [Option.mem_unique hs hs']
  · intro t' ht' k hk htrace
    obtain ⟨t, ht, ⟨hid, rfl⟩ | ⟨hne, rfl⟩⟩ := hrow t' ht' <;>
      rcases hahead k hk with ⟨hold, hne'⟩ | ⟨stage, hs, rfl⟩
    · exact absurd (htrace.trans hid) hne'
    · exact hnext stage hs
    · exact h.ahead t' ht k hold htrace
    · exact absurd htrace.symm hne
  · intro t' ht' hstatus
    obtain ⟨t, ht, ⟨hid, rfl⟩ | ⟨hne, rfl⟩⟩ := hrow t' ht'
    · obtain rfl : status = "submitted" := hstatus
      refine htraded t hid (by decide) fun stage hs => ?_
      rw [hsubmitted rfl] at hs
      exact (Option.some.inj hs).symm
    · exact hother t' hne (h.submitted t' ht hstatus)
  · split_ifs with hid
    · rw [decide_eq_true_eq] at hid
      refine ⟨rfl, h.ahead t ht k₀ hk₀ hid.symm, fun hsub => ?_⟩
      have houtcome := hsub.ahead k₀ hk₀ hid.symm
      refine htraded t hid (hobserved houtcome) fun stage hs => ?_
      have hle := hnext stage hs
      rw [houtcome] at hle
      cases stage <;> first | rfl | exact absurd hle (by decide)
    · exact ⟨rfl, le_rfl, hother t fun heq => hid (decide_eq_true heq)⟩

end Steps

/-- A call that goes forward. -/
theorem Marched.act (h : Marched s) (hs : Reachable host C s) {i : ℕ} {inp : Input}
    (hC : GoesForward s (.act i inp)) {t : Task} {log : Log} {op : Op}
    {k : Except Exn op.Ans → Program Out} {r : Except Exn op.Ans} {w : World}
    (hth : s.threads[i]? = some ⟨t, log, .call op k, true⟩)
    (hcall : s.world.call op inp = some (r, w)) :
    Advanced s ⟨w, s.threads.set i ⟨t, log ++ [⟨op, r⟩], k r, true⟩⟩ := by
  have hm : Moved (machine host) s (.act i inp) _ := .act i inp t log op k r w hth hcall
  have hissues := (issued hs hth).next rfl
  have hforward : r.isOk = true → Onwards s op := by
    intro hok
    refine hC ?_ op (nextCall_eq hth)
    cases r with
    | error e => cases hok
    | ok a => exact commits_of_ok hcall
  cases (called hcall).trace with
  | quiet htraces hjobs => exact h.quiet hm htraces hjobs
  | ensured alertId stage status id hop hok hjobs htraces =>
    have hstart := hforward hok
    subst hop
    obtain ⟨-, rfl, rfl⟩ := hissues
    exact h.ensured hm (wellFormed hs) hstart hjobs htraces
  | queued traceId stage messageId priority hop htraces hnew hjobs =>
    have hstage : stage = .research := by
      subst hop
      obtain ⟨alertId, envelope, -, -, hstage, -⟩ := hissues
      exact hstage
    refine h.queued hm hstage (fun k' hk' htrace => ?_) htraces hjobs
    -- a job of the trace descends from a RESEARCH job of the same message
    obtain ⟨k₁, hk₁, hstage₁, htrace₁⟩ := h.root k' hk'
    have hs' := hs.any.trans hm.reach
    have hmessage := research_unique hs'
      (show k₁ ∈ _ by rw [hjobs]; exact List.mem_append_left _ hk₁)
      (show ⟨s.world.nextId, traceId, stage, messageId⟩ ∈ _ by rw [hjobs]; simp) hstage₁ hstage
      (htrace₁.trans htrace)
    obtain ⟨row, hrow, rfl⟩ := mem_jobKeys.mp hk₁
    exact hnew.key row hrow (hstage₁.trans hstage.symm) hmessage
  | completed lease envelope next availableAt status now hop hok htraces hjobs =>
    have hconcludes : op.concludes = some lease.jobId := by rw [hop]; rfl
    have hnot : ¬ Concluded s lease.jobId := by
      have hon := hforward hok
      rw [hop] at hon
      exact hon lease.jobId rfl
    obtain ⟨hcompletes, -, -, hsubmitted, hobserved⟩ :
        Concludes host.cfg log lease (some envelope) next status := by
      subst hop
      exact hissues
    obtain ⟨parent, hholds, htrace, hstage, hnext⟩ := hcompletes.stages
    have hheld := hholds.held ⟨i, _, hth, List.prefix_refl _⟩ hs
    have hid : envelope.traceId = lease.key.traceId := htrace.trans (hheld.traceId hs)
    have hstage' : envelope.stage = lease.key.stage := hheld.stage.symm
    obtain ⟨hlt, -⟩ := List.getElem?_eq_some_iff.mp hth
    rw [hid, hstage'] at htraces
    rw [hid] at hjobs
    rw [hstage'] at hstage hnext
    refine h.completed hm ⟨hheld.job, hnot⟩ ?_ hstage hnext hsubmitted ?_ htraces hjobs
    · exact ⟨_, List.mem_of_getElem? (List.getElem?_set_self hlt), ⟨op, r⟩, by simp, hok, hconcludes⟩
    · exact fun houtcome => hobserved envelope rfl (hstage'.trans houtcome)

theorem advanced (hs : Reachable host C s) (h : Marched s) {e : PipelineEvent}
    (hC : GoesForward s e) : Advanced s ((machine host).step s e) := by
  have hm := moved (machine host) s e
  generalize (machine host).step s e = s' at hm
  have hquiet : s'.world.db = s.world.db → Advanced s s' := fun hdb =>
    h.quiet hm (by rw [hdb]) (by rw [hdb])
  cases hm with
  | idle => exact hquiet rfl
  | start t => exact hquiet rfl
  | crash i th hth => exact hquiet rfl
  | env e => exact hquiet (by cases e <;> rfl)
  | act i inp t log op k r w hth hcall => exact h.act hs hC hth hcall

theorem marched (h : Reachable host GoesForward s) : Marched s := by
  refine h.invariant ?_ fun s e hs hC ih => (advanced hs ih hC).marched
  constructor <;> simp [PipelineDB.jobKeys, Upcoming]

/-- While every step goes forward, the stage of a trace does too, and a trace for which an order has
been submitted never says otherwise. -/
theorem trace_forward {s' : State} (h : Reachable host GoesForward s)
    (h' : Reach (machine host).step s GoesForward s') {t : PipelineTrace}
    (ht : t ∈ s.world.db.pipelineTraces) :
    ∃ t' ∈ s'.world.db.pipelineTraces, t'.traceId = t.traceId ∧
      rank t.currentStage ≤ rank t'.currentStage ∧
      (t.status = "submitted" → t'.status ∉ earlyStatuses) := by
  obtain ⟨t', ht', hlater⟩ : ∃ t' ∈ s'.world.db.pipelineTraces, Later s' s t t' := by
    induction h' with
    | init => exact ⟨t, ht, rfl, le_rfl, id⟩
    | step hs hC ih =>
      obtain ⟨t₁, ht₁, hlater₁⟩ := ih
      obtain ⟨t₂, ht₂, hlater₂⟩ := (advanced (h.trans hs) (marched (h.trans hs)) hC).later t₁ ht₁
      exact ⟨t₂, ht₂, hlater₂.traceId.trans hlater₁.traceId, hlater₁.rank.trans hlater₂.rank,
        fun htraded => hlater₂.traded (hlater₁.traded htraded)⟩
  refine ⟨t', ht', hlater.traceId, hlater.rank, fun hstatus => ?_⟩
  exact (hlater.traded ((marched h).submitted t ht hstatus)).status

namespace Sample

/-- The alert comes in once more, up to `ensure_trace`. -/
def redelivered (i : ℕ) : List PipelineEvent := List.flatten [[.start delivery], calls i 3]

/-- The alert comes in twice and becomes an order. -/
def traded : List PipelineEvent :=
  List.flatten [ingested 0, redelivered 1, researched 2, analysed 3 (portfolio 1001 0), calls 3 1,
    evaluated 4 (portfolio 1001 0), ordered 4 "b1" 12]

/-- The follow-up of the first observation, when it is due. -/
def followed : List PipelineEvent :=
  List.flatten [tick 900000000, [.start (.outcome (lit "o"))], calls 5 6,
    [.act 5 (.price 110), .act 5 (.benchmark none)], calls 5 6]

end Sample

theorem forward_traded :
    Reachable (Sample.host "auto") GoesForward (run (Sample.host "auto") Sample.traded) :=
  reach_of_allowed (by decide +kernel)

theorem forward_followed : Reach (machine (Sample.host "auto")).step
    (run (Sample.host "auto") Sample.traded) GoesForward
    (run (Sample.host "auto") (Sample.traded ++ Sample.followed)) := by
  unfold run
  rw [List.foldl_append]
  exact reach_of_allowed (by decide +kernel)

theorem trace_forward_traded :
    ∃ t' ∈ (run (Sample.host "auto")
        (Sample.traded ++ Sample.followed)).world.db.pipelineTraces,
      t'.traceId = 0 ∧ rank .execution ≤ rank t'.currentStage ∧
      ("submitted" = "submitted" → t'.status ∉ earlyStatuses) :=
  trace_forward forward_traded forward_followed (t := ⟨0, lit "a1", .execution, "submitted"⟩)
    (by decide +kernel)

theorem trace_backward : ∃ s s', Reachable (Sample.host "auto") Any s ∧
    Reach (machine (Sample.host "auto")).step s Any s' ∧
    ∃ t ∈ s.world.db.pipelineTraces, ∃ t' ∈ s'.world.db.pipelineTraces, t'.traceId = t.traceId ∧
      rank t'.currentStage < rank t.currentStage ∧ t.status = "submitted" ∧
      t'.status ∈ earlyStatuses :=
  ⟨_, _, reachable_run _ Sample.tradedEvents, reach_foldl (Sample.redelivered 4), by decide +kernel⟩

end Sentinel.Pipeline
