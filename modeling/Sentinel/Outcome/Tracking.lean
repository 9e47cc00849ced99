import Sentinel.Outcome.Submissions

/-!
# Tracking outcomes

The executor publishes the OUTCOME job of an order before it saves the observations, and
`OutcomeWorker` may look for them in between.

* `Frozen`: all observations of a trace have been made, and no more will be saved.
* `listed_frozen`: `OutcomeWorker` finds observations, and when it finds none pending the trace is
  frozen.
* `outcomes_tracked`: in a run whose steps all satisfy `Tracks`, orders have their observations, and
  pending observations a job, whenever no worker is in the middle of a step.
* `outcomes_missed`: without the condition they need not.
-/

namespace Sentinel.Pipeline

open Logic Contracts PipelineDB

variable {host : Host} {s s' : State} {traceId : UUID}

/-! ## What is tracked -/

/-- `queued`, `retry_wait` or `running`. -/
def JobState.unfinished : JobState → Bool
  | .queued | .retryWait | .running => true
  | .succeeded | .deadLetter => false

/-- The trace has an OUTCOME job that is not finished. -/
def PipelineDB.OutcomeQueued (db : PipelineDB) (traceId : UUID) : Prop :=
  ∃ j ∈ db.stageJobs, j.stage = .outcome ∧ j.traceId = traceId ∧ j.state.unfinished = true

instance decidableOutcomeQueued (db : PipelineDB) (traceId : UUID) :
    Decidable (db.OutcomeQueued traceId) := inferInstanceAs (Decidable (∃ _ ∈ _, _ ∧ _ ∧ _))

/-- Orders have their observations, and observations that have not been made a job. -/
structure OutcomesTracked (db : PipelineDB) : Prop where
  scheduled : ∀ o ∈ db.brokerOrders, ∀ horizon, (o.traceId, horizon) ∈ db.horizons
  queued : ∀ traceId, db.Pending traceId → db.OutcomeQueued traceId

/-- No thread is in the middle of a step. -/
def Idle (s : State) : Prop := ∀ th ∈ s.threads, th.next.isNone = true

instance decidableIdle (s : State) : Decidable (Idle s) := inferInstanceAs (Decidable (∀ _ ∈ _, _))

/-! ## Frozen traces -/

/-- The observations of the trace have been made, and no thread is going to save more. -/
structure Frozen (s : State) (traceId : UUID) : Prop where
  observes : s.world.db.Observes traceId
  made : ¬ s.world.db.Pending traceId
  ended : ∀ th ∈ s.threads, th.task.trades = true → th.next.isSome = true →
    ¬ Answered th.log (.tx (.listOutcomeObservations traceId)) []

theorem frozen_of_quiet (h : Reachable host Tracks s) (hobserves : s.world.db.Observes traceId)
    (hmade : ¬ s.world.db.Pending traceId) (hquiet : ¬ Submitting s traceId) :
    Frozen s traceId := by
  refine ⟨hobserves, hmade, fun th hth ht hnext hlisted => ?_⟩
  obtain ⟨j, hj⟩ := List.getElem?_of_mem hth
  obtain ⟨l, l', hl, hscheduling⟩ := (scheduled h hj).mem hlisted
  obtain ⟨envelope, he, htrace⟩ := hscheduling ht
  refine hquiet ⟨th, hth, ht, hnext, envelope, ?_, htrace⟩
  rw [hl, published_append]
  exact List.mem_append_left _ he

theorem observes_iff {db : PipelineDB} :
    db.Observes traceId ↔ db.listOutcomeObservations traceId ≠ [] := by
  constructor
  · rintro ⟨horizon, hmem⟩
    obtain ⟨o, ho, heq⟩ := List.mem_map.mp hmem
    have htrace : o.observation.traceId = traceId := congrArg Prod.fst heq
    exact List.ne_nil_of_mem (mem_listOutcomeObservations.mpr ⟨ho, htrace⟩)
  · intro hne
    obtain ⟨o, ho⟩ := List.exists_mem_of_ne_nil _ hne
    obtain ⟨hmem, rfl⟩ := mem_listOutcomeObservations.mp ho
    exact ⟨_, mem_horizons hmem⟩

/-- A list of observations is what the table has. -/
theorem Called.listed {w w' : World} {rows : List ObservationRow}
    (h : Called w (.tx (.listOutcomeObservations traceId)) (.ok rows) w') :
    rows = w.db.listOutcomeObservations traceId := by
  generalize ha : (Except.ok rows : Except Exn (List ObservationRow)) = a at h
  cases h with
  | asked op r hop => cases hop
  | raised op e hop => cases ha
  | observations traceId => exact Except.ok.inj ha

/-- A call of a thread leaves the observations of a frozen trace made. -/
theorem Frozen.stays_made (hf : Frozen s traceId) (h : Reachable host Tracks s) {i : ℕ} {t : Task}
    {log : Log} {op : Op} {k : Except Exn op.Ans → Program Out} {r : Except Exn op.Ans} {w' : World}
    (hth : s.threads[i]? = some ⟨t, log, .call op k, true⟩) (hcalled : Called s.world op r w') :
    ¬ w'.db.Pending traceId := by
  rintro ⟨o, ho, rfl, hnone⟩
  rcases hcalled.observationRows with heq | ⟨id, o', rfl, -, heq⟩ |
    ⟨id, observedAt, exitPrice, returnPct, benchmark, label, -, heq⟩
  · exact hf.made ⟨o, heq ▸ ho, rfl, hnone⟩
  · rcases List.mem_append.mp (heq ▸ ho) with hold | hnew
    · exact hf.made ⟨o, hold, rfl, hnone⟩
    · obtain rfl := List.mem_singleton.mp hnew
      have ht : t.trades = true := ((issued h hth).next rfl : Issues host.cfg t log _).1
      exact hf.ended _ (List.mem_of_getElem? hth) ht rfl ((scheduled h hth).next rfl ht)
  · obtain ⟨old, hold, rfl⟩ := mem_updateWhere.mp (heq ▸ ho)
    split_ifs at hnone with hid
    · cases hnone
    · refine hf.made ⟨old, hold, ?_, hnone⟩
      rw [if_neg hid]

/-- A frozen trace stays frozen. -/
theorem Frozen.moved (hf : Frozen s traceId) (h : Reachable host Tracks s) {e : PipelineEvent}
    (hm : Moved (machine host) s e s') : Frozen s' traceId := by
  cases hm with
  | idle => exact hf
  | env e => cases e <;> exact ⟨hf.observes, hf.made, hf.ended⟩
  | start t =>
    refine ⟨hf.observes, hf.made, fun th hth ht hnext hlisted => ?_⟩
    rcases List.mem_append.mp hth with hold | hnew
    · exact hf.ended th hold ht hnext hlisted
    · obtain rfl := List.mem_singleton.mp hnew
      cases hlisted
  | crash i th hth =>
    refine ⟨hf.observes, hf.made, fun th' hth' ht hnext hlisted => ?_⟩
    rcases List.mem_or_eq_of_mem_set hth' with hold | rfl
    · exact hf.ended th' hold ht hnext hlisted
    · simp [Thread.next] at hnext
  | act i inp t log op k r w' hth hc =>
    have hcalled := called hc
    obtain ⟨horizon, hmem⟩ := hf.observes
    refine ⟨⟨horizon, hcalled.horizons hmem⟩, hf.stays_made h hth hcalled, ?_⟩
    intro th' hth' ht hnext hlisted
    rcases List.mem_or_eq_of_mem_set hth' with hold | rfl
    · exact hf.ended th' hold ht hnext hlisted
    · rcases List.mem_append.mp hlisted with hold | hnew
      · exact hf.ended _ (List.mem_of_getElem? hth) ht rfl hold
      · obtain ⟨rfl, ha⟩ := Entry.mk.inj (List.mem_singleton.mp hnew)
        obtain rfl := eq_of_heq ha
        exact observes_iff.mp hf.observes hcalled.listed.symm

/-- `OutcomeWorker` finds observations of the trace of its job, and a trace of which it finds none
pending is frozen. -/
theorem listed_frozen (h : Reachable host Tracks s) {j : ℕ} {th : Thread Op Op.Ans Exn Out Task}
    (hth : s.threads[j]? = some th) (ht : th.task.trades = false) {rows : List ObservationRow}
    (hlisted : Answered th.log (.tx (.listOutcomeObservations traceId)) rows) :
    rows ≠ [] ∧ (OutcomeWorker.pendingRows rows = [] → Frozen s traceId) := by
  obtain ⟨l, l', hl⟩ := List.append_of_mem hlisted
  refine noted_reach (M := machine host) (X := fun t _ en s => t.trades = false → ∀ traceId rows,
    en = ⟨.tx (.listOutcomeObservations traceId), .ok rows⟩ →
    rows ≠ [] ∧ (OutcomeWorker.pendingRows rows = [] → Frozen s traceId)) ?_ ?_ h j th hth l _ l' hl ht
    traceId rows rfl
  · intro s i inp t log op k r w' hs hC hth hc ht traceId rows heq
    obtain ⟨rfl, ha⟩ := Entry.mk.inj heq
    obtain rfl := eq_of_heq ha
    have hpre : log <+: log := List.prefix_refl _
    rcases ((issued hs hth).next rfl : Issues host.cfg t log _) with
      ⟨l, lease, parent, intent, hsubmits, hl, rfl⟩ | ⟨lease, parent, decision, intent, hholds, rfl, -⟩
    · obtain ⟨stage, hstage, hholds⟩ := hsubmits.holds
      have htrades := Task.trades_of_stage (hholds.leased.stage hs hth hl) hstage
      cases ht.symm.trans htrades
    · have hheld := hholds.held ⟨i, _, hth, hpre⟩ hs
      have hjob := outcome_observed hs hheld.job hheld.stage
      rw [show lease.key.traceId = parent.traceId from (hheld.traceId hs).symm] at hjob
      have hpending := (hC _ hth _ rfl).2.1 ht _ rfl
      have hobserves : s.world.db.Observes parent.traceId := by
        rcases hjob with hobserves | hsubmitting
        · exact hobserves
        · rcases hpending with hpending | hquiet
          · exact hpending.observes
          · exact absurd hsubmitting hquiet
      obtain rfl := (called hc).listed
      refine ⟨observes_iff.mp hobserves, fun hnone => ?_⟩
      have hmade : ¬ s.world.db.Pending parent.traceId := fun hp => pending_iff.mp hp hnone
      have hquiet := hpending.resolve_left hmade
      exact (frozen_of_quiet hs hobserves hmade hquiet).moved hs (.act i inp t log _ k _ w' hth hc)
  · intro s e s' t log en hs _ hm hX ht traceId rows heq
    obtain ⟨hne, hfrozen⟩ := hX ht traceId rows heq
    exact ⟨hne, fun hnone => (hfrozen hnone).moved hs hm⟩

/-! ## The jobs of a trace -/

/-- What the OUTCOME jobs say: a trace with one has an unfinished one or is frozen. -/
structure JobsTracked (s : State) : Prop where
  buried : ∀ j ∈ s.world.db.stageJobs, j.stage = .outcome → j.state = .deadLetter →
    Frozen s j.traceId
  read : ∀ j ∈ s.world.db.stageJobs, j.stage = .outcome → j.state = .succeeded →
    Readable s.world.db j.messageId
  live : ∀ j ∈ s.world.db.stageJobs, j.stage = .outcome →
    s.world.db.OutcomeQueued j.traceId ∨ Frozen s j.traceId

/-- A step that finishes jobs only as it may, and takes the last unfinished job from frozen traces
only. -/
theorem JobsTracked.step (ih : JobsTracked s) (h : Reachable host Tracks s) {e : PipelineEvent}
    (hm : Moved (machine host) s e s')
    (hback : ∀ j' ∈ s'.world.db.stageJobs, j'.stage = .outcome → j'.state.unfinished = true ∨
      ∃ j ∈ s.world.db.stageJobs, j.key = j'.key ∧ (j.state = j'.state ∨
        (j'.state = .deadLetter → Frozen s j.traceId) ∧
        (j'.state = .succeeded → Readable s.world.db j.messageId)))
    (hforth : ∀ j ∈ s.world.db.stageJobs, j.stage = .outcome → j.state.unfinished = true →
      s'.world.db.OutcomeQueued j.traceId ∨ Frozen s j.traceId) : JobsTracked s' := by
  have hread : ∀ id, Readable s.world.db id → Readable s'.world.db id := by
    rintro id ⟨m, hfound, hload⟩
    exact ⟨m, (moved_grows hm).messages id m hfound, hload⟩
  have hkeys : ∀ {j j' : StageJob}, j.key = j'.key → j.stage = j'.stage ∧ j.traceId = j'.traceId ∧
      j.messageId = j'.messageId := fun heq =>
    ⟨congrArg JobKey.stage heq, congrArg JobKey.traceId heq, congrArg JobKey.messageId heq⟩
  refine ⟨fun j' hj' hstage hstate => ?_, fun j' hj' hstage hstate => ?_, fun j' hj' hstage => ?_⟩
  · rcases hback j' hj' hstage with hunfinished | ⟨j, hj, hkey, hcase⟩
    · rw [hstate] at hunfinished
      cases hunfinished
    · obtain ⟨hs, ht, -⟩ := hkeys hkey
      rw [← ht]
      rcases hcase with hsame | ⟨hburied, -⟩
      · exact (ih.buried j hj (hs.trans hstage) (hsame.trans hstate)).moved h hm
      · exact (hburied hstate).moved h hm
  · rcases hback j' hj' hstage with hunfinished | ⟨j, hj, hkey, hcase⟩
    · rw [hstate] at hunfinished
      cases hunfinished
    · obtain ⟨hs, -, hid⟩ := hkeys hkey
      rw [← hid]
      rcases hcase with hsame | ⟨-, hdone⟩
      · exact hread _ (ih.read j hj (hs.trans hstage) (hsame.trans hstate))
      · exact hread _ (hdone hstate)
  · rcases hback j' hj' hstage with hunfinished | ⟨j, hj, hkey, -⟩
    · exact Or.inl ⟨j', hj', hstage, rfl, hunfinished⟩
    · obtain ⟨hs, ht, -⟩ := hkeys hkey
      rw [← ht]
      rcases ih.live j hj (hs.trans hstage) with ⟨j₀, hj₀, hs₀, ht₀, hunfinished⟩ | hfrozen
      · rw [← ht₀]
        exact (hforth j₀ hj₀ hs₀ hunfinished).imp id fun hf => hf.moved h hm
      · exact Or.inr (hfrozen.moved h hm)

section Completed

variable {i : ℕ} {t : Task} {log : Log} {lease : JobLease} {parent : PipelineEnvelope}

/-- A decision that an OUTCOME job carries has an intent. -/
theorem outcome_intent (h : Reachable host Tracks s) {th : Thread Op Op.Ans Exn Out Task}
    (hth : s.threads[i]? = some th) (hholds : Holds th.log .outcome lease parent)
    {decision : ExecutionDecision}
    (hload : ExecutionDecision.contract.load parent.payload = some decision) :
    decision.intent ≠ none := by
  have hheld := hholds.held ⟨i, th, hth, List.prefix_refl _⟩ h
  obtain ⟨envelope, hm, -, -, hqueued⟩ := job_message h hheld.job
  have hstage : lease.key.stage = .outcome := hheld.stage
  have hpayload : parent.payload = envelope.payload :=
    congrArg StageMessage.payload (Option.some.inj (hheld.message.symm.trans hm))
  rw [hstage] at hqueued
  rw [hpayload] at hload
  cases hqueued with
  | submitted l lease parent intent checks stage brokerOrderId hl hs hst he =>
    rw [he.payload] at hload
    obtain rfl : submittedDecision intent checks brokerOrderId = decision := by simpa using hload
    simp [submittedDecision]
  | followUp l lease parent key observedCount pendingCount hl hh he =>
    rw [he.payload] at hload
    cases hload

/-- A follow-up that is already there is unfinished, unless its trace is frozen. -/
theorem JobsTracked.followUp (ih : JobsTracked s) (h : Reachable host Tracks s) {m : StageMessage}
    (hm : m ∈ s.world.db.stageMessages) (hfollows : FollowsUp s.world.db m traceId) :
    (∃ j ∈ s.world.db.stageJobs, j.stage = .outcome ∧ j.traceId = traceId ∧
      j.state.unfinished = true ∧ ¬ Readable s.world.db j.messageId) ∨ Frozen s traceId := by
  obtain ⟨htrace, hunreadable, k, hk, hstage, hid⟩ := hfollows
  obtain ⟨j, hj, rfl⟩ := mem_jobKeys.mp hk
  have hfound : s.world.db.findMessage j.messageId = some m := by
    have heq : j.messageId = m.messageId := hid
    rw [heq]
    exact findMessage_of_mem (wellFormed h) hm
  have hjtrace : j.traceId = traceId := by
    obtain ⟨envelope, hm', -, htr, -⟩ := job_message h hk
    have heq := Option.some.inj (hfound.symm.trans hm')
    rw [← htrace, heq]
    exact htr.symm
  have hnot : ¬ Readable s.world.db j.messageId := by
    rintro ⟨m', hm', hload⟩
    obtain rfl := Option.some.inj (hfound.symm.trans hm')
    exact hload hunreadable
  cases hstate : j.state with
  | succeeded => exact absurd (ih.read j hj hstage hstate) hnot
  | deadLetter => exact Or.inr (hjtrace ▸ ih.buried j hj hstage hstate)
  | _ => exact Or.inl ⟨j, hj, hstage, hjtrace, by rw [hstate]; rfl, hnot⟩

/-- A completed OUTCOME job was read; its trace has another job or is frozen. -/
theorem JobsTracked.completed (ih : JobsTracked s) (h : Reachable host Tracks s)
    {output : Option PipelineEnvelope} {next : Option StageName} {availableAt : Option Time}
    {status : String} {now : Time} {out : Option UUID} {k : Except Exn (Option UUID) → Program Out}
    (hth : s.threads[i]? = some ⟨t, log, .call (.tx (.completeJobSuccess lease output next availableAt
      status now)) k, true⟩) {w' : World}
    (hcalled : Called s.world (.tx (.completeJobSuccess lease output next availableAt status now))
      (.ok out) w')
    (hstay : ∀ j ∈ s.world.db.stageJobs, j.jobId ≠ lease.jobId → j ∈ w'.db.stageJobs)
    (hstage : lease.stage = .outcome) :
    Readable s.world.db lease.messageId ∧
      (w'.db.OutcomeQueued lease.traceId ∨ Frozen s lease.traceId) := by
  have hconcludes : Concludes host.cfg log lease output next status := (issued h hth).next rfl
  obtain ⟨stage, parent, hholds, -⟩ := hconcludes.completes.holds
  have hheld := hholds.held ⟨i, _, hth, List.prefix_refl _⟩ h
  obtain rfl : stage = .outcome := hheld.stage.symm.trans hstage
  have ht : t.trades = false :=
    Task.not_trades (hholds.leased.stage h hth (List.prefix_refl _))
  have hother : ∀ {stage' : StageName} {parent' : PipelineEnvelope},
      Holds log stage' lease parent' → stage' = .outcome := fun hholds' =>
    (leased_unique h hth hholds'.leased hholds.leased (List.prefix_refl _) (List.prefix_refl _)).1
  have htrace : ∀ {parent' : PipelineEnvelope}, Holds log .outcome lease parent' →
      parent'.traceId = lease.traceId := fun hholds' =>
    (hholds'.held ⟨i, _, hth, List.prefix_refl _⟩ h).traceId h
  cases hconcludes.completes with
  | researched parent' envelope ingested report _ hh => cases hother hh
  | analysed parent' envelope report snapshot output _ hh => cases hother hh
  | rejected parent' envelope decision hh => cases hother hh
  | awaiting l parent' envelope candidate intent checks approvalId hmode hl hh =>
    cases hother (hh.holds.prefix_of hl)
  | submitted l parent' envelope intent checks stage' brokerOrderId hl hs hst he hh =>
    obtain rfl := hother (hh.prefix_of hl)
    rcases hst with hst | hst <;> cases hst
  | ended parent' envelope status decision hh => cases hother hh
  | skipped parent' decision hh hload hintent =>
    exact absurd hintent (outcome_intent h hth hh hload)
  | missing parent' hh hlisted =>
    exact absurd rfl (listed_frozen h hth ht (answered_of_listIn hlisted)).1
  | observed parent' envelope rows rows' t' _ hw hdue hupdated hrows' he hnext =>
    refine ⟨readable_of_listed h hth hw.holds hrows', ?_⟩
    rw [← htrace hw.holds]
    by_cases hnone : OutcomeWorker.pendingRows rows' = []
    · exact Or.inr ((listed_frozen h hth ht hrows').2 hnone)
    · rw [if_neg hnone] at hnext
      subst hnext
      by_cases hknown : ∃ m ∈ s.world.db.stageMessages, m.idempotencyKey = envelope.idempotencyKey
      · -- the follow-up is an earlier one
        obtain ⟨m, hm, hkey⟩ := hknown
        have hfollows := followUp_queued h hm hnone (hkey.trans he.key)
        rcases ih.followUp h hm hfollows with ⟨j, hj, hs, htr, hunfinished, hnot⟩ | hfrozen
        · refine Or.inl ⟨j, hstay j hj fun hid => hnot ?_, hs, htr, hunfinished⟩
          obtain ⟨j₀, hj₀, hkey₀⟩ := mem_jobKeys.mp hheld.job
          have hid₀ : j₀.jobId = lease.jobId := congrArg JobKey.jobId hkey₀
          obtain rfl := eq_of_nodup (ledger h).book.jobIds hj hj₀ (hid.trans hid₀.symm)
          have hmid : j.messageId = lease.messageId := congrArg JobKey.messageId hkey₀
          rw [hmid]
          exact readable_of_listed h hth hw.holds hrows'
        · exact Or.inr hfrozen
      · obtain ⟨j, hj, hs, htr, hqueued⟩ := hcalled.queues
          (fun j hj => by
            obtain ⟨envelope, hm, -⟩ := job_message h (mem_jobKeys.mpr ⟨j, hj, rfl⟩)
            exact ⟨_, hm⟩)
          hheld.job (fun m hm hkey => hknown ⟨m, hm, hkey⟩)
        exact Or.inl ⟨j, hj, hs, htr.trans he.traceId, by rw [hqueued]; rfl⟩

end Completed

/-- The end of a run, whichever it is. -/
theorem JobsTracked.finish (ih : JobsTracked s) (h : Reachable host Tracks s) {e : PipelineEvent}
    (hm : Moved (machine host) s e s') {lease : JobLease} {state : JobState} {jobs : List StageJob}
    {availableAt : Option Time} {error : Option Text} (hkey : lease.key ∈ s.world.db.jobKeys)
    (hold : Enqueued s.world.db.stageJobs jobs)
    (hjobs : s'.world.db.stageJobs = updateWhere (fun j => j.jobId = lease.jobId)
      (finishedRow state availableAt error) jobs)
    (hdone : lease.stage = .outcome → (state = .deadLetter → Frozen s lease.traceId) ∧
      (state = .succeeded → Readable s.world.db lease.messageId))
    (hrest : lease.stage = .outcome → state.unfinished = true ∨
      s'.world.db.OutcomeQueued lease.traceId ∨ Frozen s lease.traceId) : JobsTracked s' := by
  obtain ⟨j₀, hj₀, hkey₀⟩ := mem_jobKeys.mp hkey
  have hid₀ : j₀.jobId = lease.jobId := congrArg JobKey.jobId hkey₀
  have hone : ∀ j ∈ s.world.db.stageJobs, j.jobId = lease.jobId → j.key = lease.key := by
    intro j hj hid
    obtain rfl := eq_of_nodup (ledger h).book.jobIds hj hj₀ (hid.trans hid₀.symm)
    exact hkey₀
  have hsub : s.world.db.stageJobs ⊆ jobs := by
    rcases hold with rfl | ⟨row, -, -, -, rfl⟩
    · exact List.Subset.refl _
    · exact List.subset_append_left _ _
  have hnew : ∀ j ∈ jobs, j ∈ s.world.db.stageJobs ∨ j.state = .queued ∧ j.jobId ≠ lease.jobId := by
    intro j hj
    rcases hold with rfl | ⟨row, hrow, hstate, -, rfl⟩
    · exact Or.inl hj
    · rcases List.mem_append.mp hj with hj | hj
      · exact Or.inl hj
      · obtain rfl := List.mem_singleton.mp hj
        exact Or.inr ⟨hstate, fun hid => hrow j₀ hj₀ (hid₀.trans hid.symm)⟩
  refine ih.step h hm (fun j' hj' hstage => ?_) fun j hj hstage hunfinished => ?_
  · rw [hjobs] at hj'
    obtain ⟨j, hj, ⟨hid, rfl⟩ | ⟨hid, rfl⟩⟩ := mem_update_job hj'
    · rcases hnew j' hj with hj | ⟨hqueued, -⟩
      · exact Or.inr ⟨j', hj, rfl, Or.inl rfl⟩
      · exact Or.inl (by rw [hqueued]; rfl)
    · rcases hnew j hj with hj | ⟨-, hne⟩
      · have hkeys := hone j hj hid
        obtain ⟨hburied, hread⟩ := hdone ((congrArg JobKey.stage hkeys).symm.trans hstage)
        have htrace : j.traceId = lease.traceId := congrArg JobKey.traceId hkeys
        have hmid : j.messageId = lease.messageId := congrArg JobKey.messageId hkeys
        refine Or.inr ⟨j, hj, rfl, Or.inr ⟨fun hs => ?_, fun hs => ?_⟩⟩
        · rw [htrace]
          exact hburied hs
        · rw [hmid]
          exact hread hs
      · exact absurd hid hne
  · have hmem := mem_updateWhere_of_mem (p := fun j => j.jobId = lease.jobId)
      (f := finishedRow state availableAt error) (hsub hj)
    rw [← hjobs] at hmem
    by_cases hid : j.jobId = lease.jobId
    · have hkeys := hone j hj hid
      have htrace : j.traceId = lease.traceId := congrArg JobKey.traceId hkeys
      rcases hrest ((congrArg JobKey.stage hkeys).symm.trans hstage) with hu | hq | hf
      · rw [if_pos (by simpa using hid)] at hmem
        exact Or.inl ⟨_, hmem, hstage, rfl, hu⟩
      · exact Or.inl (htrace ▸ hq)
      · exact Or.inr (htrace ▸ hf)
    · rw [if_neg (by simpa using hid)] at hmem
      exact Or.inl ⟨j, hmem, hstage, rfl, hunfinished⟩

/-- A call keeps what the OUTCOME jobs say. -/
theorem JobsTracked.act (ih : JobsTracked s) (h : Reachable host Tracks s) {i : ℕ} {inp : Input}
    {t : Task} {log : Log} {op : Op} {k : Except Exn op.Ans → Program Out} {r : Except Exn op.Ans}
    {w' : World} (hC : Tracks s (.act i inp))
    (hth : s.threads[i]? = some ⟨t, log, .call op k, true⟩)
    (hc : s.world.call op inp = some (r, w')) :
    JobsTracked ⟨w', s.threads.set i ⟨t, log ++ [⟨op, r⟩], k r, true⟩⟩ := by
  have hm : Moved (machine host) s (.act i inp) _ := .act i inp t log op k r w' hth hc
  have hleased : ∀ {stage : StageName} {lease : JobLease}, Leased log stage lease →
      lease.key ∈ s.world.db.jobKeys := by
    rintro stage lease ⟨-, workerId, leasedUntil, t', hasked⟩
    have htold : lease.stage = stage ∧ lease.key ∈ s.world.db.jobKeys := told h hth hasked
    exact htold.2
  cases (called hc).queue with
  | quiet hen hjobs hruns hdead =>
    rcases hjobs with hsame | ⟨row, -, hstate, -, happend⟩
    · refine ih.step h hm (fun j hj _ => Or.inr ⟨j, hsame ▸ hj, rfl, Or.inl rfl⟩) ?_
      exact fun j hj hstage hunfinished => Or.inl ⟨j, hsame.symm ▸ hj, hstage, rfl, hunfinished⟩
    · refine ih.step h hm (fun j hj _ => ?_) fun j hj hstage hunfinished => Or.inl ?_
      · rcases List.mem_append.mp (happend ▸ hj) with hold | hnew
        · exact Or.inr ⟨j, hold, rfl, Or.inl rfl⟩
        · obtain rfl := List.mem_singleton.mp hnew
          exact Or.inl (by rw [hstate]; rfl)
      · exact ⟨j, happend.symm ▸ List.mem_append_left _ hj, hstage, rfl, hunfinished⟩
  | leased row run lease workerId leasedUntil hop hrow hwaits hjob hstate hnew hlease hend hid hrun hjobs
      hruns hdead =>
    refine ih.step h hm (fun j' hj' _ => ?_) fun j hj hstage hunfinished => Or.inl ?_
    · obtain ⟨j, hj, ⟨-, rfl⟩ | ⟨-, rfl⟩⟩ := mem_update_job (hjobs ▸ hj')
      · exact Or.inr ⟨j', hj, rfl, Or.inl rfl⟩
      · exact Or.inl rfl
    · have hmem := mem_updateWhere_of_mem (p := fun j => j.jobId = row.jobId)
        (f := leasedRow row workerId leasedUntil) hj
      rw [← hjobs] at hmem
      refine ⟨_, hmem, ?_⟩
      split_ifs
      · exact ⟨hstage, rfl, rfl⟩
      · exact ⟨hstage, rfl, hunfinished⟩
  | ended lease state jobs availableAt error now new hop hcommit hstate hlease hend hold hnew hlength
      hjobs hruns hdead =>
    cases r with
    | error e =>
      obtain ⟨a, ha⟩ := hcommit
      cases ha
    | ok a =>
      have hissues := (issued h hth).next rfl
      cases op with
      | tx x =>
        cases x with
        | completeJobSuccess lease' output next availableAt' status t' =>
          obtain rfl : lease' = lease := Option.some.inj hop
          obtain rfl : .succeeded = state := hend []
          obtain ⟨stage, hl⟩ := hissues.1.leased
          have hcompleted := ih.completed h hth (called hc) fun j hj hne => by
            have hsub : j ∈ jobs := by
              rcases hold with rfl | ⟨row, -, -, -, rfl⟩
              · exact hj
              · exact List.mem_append_left _ hj
            have hmem := mem_updateWhere_of_mem (p := fun j => j.jobId = lease'.jobId)
              (f := finishedRow .succeeded availableAt error) hsub
            rw [← hjobs, if_neg (by simpa using hne)] at hmem
            exact hmem
          exact ih.finish h hm (hleased hl) hold hjobs (fun hs => ⟨nofun, fun _ => (hcompleted hs).1⟩)
            fun hs => Or.inr (hcompleted hs).2
        | completeJobRetry lease' error' availableAt' t' =>
          obtain rfl : lease' = lease := Option.some.inj hop
          obtain rfl : .retryWait = state := hend []
          obtain ⟨⟨stage, hl⟩, -⟩ := hissues
          exact ih.finish h hm (hleased hl) hold hjobs (fun _ => ⟨nofun, nofun⟩) fun _ => Or.inl rfl
        | deadLetterJob lease' reason payload t' =>
          obtain rfl : lease' = lease := Option.some.inj hop
          obtain rfl : .deadLetter = state := hend []
          obtain ⟨stage, hl, -⟩ := hissues
          have hfrozen : lease'.stage = .outcome → Frozen s lease'.traceId := by
            intro hs
            obtain ⟨hmade, hquiet⟩ := (hC _ hth _ rfl).2.2 lease' rfl hs
            exact frozen_of_quiet h ((outcome_observed h (hleased hl) hs).resolve_right hquiet) hmade
              hquiet
          exact ih.finish h hm (hleased hl) hold hjobs (fun hs => ⟨fun _ => hfrozen hs, nofun⟩)
            fun hs => Or.inr (Or.inr (hfrozen hs))
        | _ => cases hop
      | _ => cases hop

theorem jobsTracked (h : Reachable host Tracks s) : JobsTracked s := by
  refine h.rec_moved (I := JobsTracked) ?_ ?_
  · refine ⟨?_, ?_, ?_⟩ <;> exact fun j hj => absurd hj List.not_mem_nil
  · intro s e s' hs hC ih hm
    have hquiet : s'.world.db.stageJobs = s.world.db.stageJobs → JobsTracked s' := by
      intro hsame
      refine ih.step hs hm (fun j hj _ => Or.inr ⟨j, hsame ▸ hj, rfl, Or.inl rfl⟩) ?_
      exact fun j hj hstage hunfinished => Or.inl ⟨j, hsame.symm ▸ hj, hstage, rfl, hunfinished⟩
    cases hm with
    | act i inp t log op k r w' hth hc => exact ih.act hs hC hth hc
    | env e => cases e <;> exact hquiet rfl
    | _ => exact hquiet rfl

/-! ## Orders and their observations -/

theorem pending_queued (h : Reachable host Tracks s) (hpending : s.world.db.Pending traceId) :
    s.world.db.OutcomeQueued traceId := by
  obtain ⟨j, th, id, o, hth, ht, -, -, envelope, he, rfl⟩ := observation_saved h hpending.observes
  obtain ⟨k, hk, hstage, htrace⟩ := published_job h hth ht he
  obtain ⟨row, hrow, rfl⟩ := mem_jobKeys.mp hk
  have hrowtrace : row.traceId = envelope.traceId := htrace
  rw [← hrowtrace] at hpending ⊢
  rcases (jobsTracked h).live row hrow hstage with hqueued | hfrozen
  · exact hqueued
  · exact absurd hpending hfrozen.made

theorem order_scheduled (h : Reachable host Tracks s) (hidle : Idle s) {o : BrokerOrder}
    (ho : o ∈ s.world.db.brokerOrders) (horizon : OutcomeHorizon) :
    (o.traceId, horizon) ∈ s.world.db.horizons := by
  obtain ⟨j, th, l, l', lease, parent, intent, order, id, hth, ht, -, -, -, hsaved⟩ := order_origin h ho
  obtain ⟨-, hsettled⟩ := trades_covered h hth ht (hidle th (List.mem_of_getElem? hth))
  rcases hsettled.order _ _ hsaved with hscheduled | ⟨rows, hne, hlisted⟩
  · exact hscheduled.horizons h hth (List.prefix_refl _) horizon
  · -- those that were there were saved by another step
    obtain ⟨j', th', id', o', hth', ht', htrace, hsaved', -⟩ :=
      observation_saved h (observes_of_listed h hth hlisted hne)
    obtain ⟨-, hsettled'⟩ := trades_covered h hth' ht' (hidle th' (List.mem_of_getElem? hth'))
    have hscheduled := hsettled'.observation id' o' hsaved'
    rw [htrace] at hscheduled
    exact hscheduled.horizons h hth' (List.prefix_refl _) horizon

/-- If all steps of a run satisfy `Tracks`, orders have their observations, and those that have not
been made a job, in every state in which no worker is in the middle of a step. -/
theorem outcomes_tracked (h : Reachable host Tracks s) (hidle : Idle s) :
    OutcomesTracked s.world.db :=
  ⟨fun _ ho horizon => order_scheduled h hidle ho horizon, fun _ hpending => pending_queued h hpending⟩

namespace Sample

/-- An alert becomes an order, and the executor makes `n` calls after placing it. -/
def submitting (n : ℕ) : List PipelineEvent :=
  List.flatten [ingested 0, researched 1, analysed 2 (portfolio 1001 0), calls 2 1,
    evaluated 3 (portfolio 1001 0), ordered 3 "b1" n]

/-- The first of the three observations is made when it is due. -/
def observedEvents : List PipelineEvent :=
  List.flatten [submitting 13, tick 900000000, [.start (.outcome (lit "o"))], calls 4 6,
    [.act 4 (.price 110), .act 4 (.benchmark none)], calls 4 6]

/-- `OutcomeWorker` handles the OUTCOME job before the executor saves the observations. -/
def overtakenEvents : List PipelineEvent :=
  List.flatten [submitting 5, [.start (.outcome (lit "o"))], calls 4 7, calls 3 8]

end Sample

theorem outcomes_tracked_observed :
    (run (Sample.host "auto") Sample.observedEvents).world.db.Pending 0 ∧
      OutcomesTracked (run (Sample.host "auto") Sample.observedEvents).world.db :=
  ⟨by decide +kernel, outcomes_tracked (reach_of_allowed (by decide +kernel)) (by decide +kernel)⟩

/-- No call raises and no process crashes. -/
def Undisturbed (s : State) : PipelineEvent → Prop
  | .act i inp => ∀ th ∈ s.threads[i]?, ∀ op ∈ th.next, ¬ CallRaises s.world op inp
  | .crash _ => False
  | _ => True

instance decidableUndisturbed (s : State) : ∀ e : PipelineEvent, Decidable (Undisturbed s e)
  | .act _ _ => inferInstanceAs (Decidable (∀ _ ∈ _, ∀ _ ∈ _, ¬ _))
  | .crash _ => inferInstanceAs (Decidable False)
  | .start _ | .env _ => inferInstanceAs (Decidable True)

/-- The three observations are saved after the OUTCOME job has been completed without any, and no
job looks at them. -/
theorem outcomes_missed : ∃ s, Reachable (Sample.host "auto") Undisturbed s ∧ Idle s ∧
    ¬ OutcomesTracked s.world.db := by
  refine ⟨run (Sample.host "auto") Sample.overtakenEvents, reach_of_allowed (by decide +kernel),
    by decide +kernel, fun h => ?_⟩
  have hqueued := h.queued 0 (by decide +kernel)
  exact absurd hqueued (by decide +kernel)

end Sentinel.Pipeline
