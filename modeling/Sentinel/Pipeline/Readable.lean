import Sentinel.Pipeline.Lineage

/-!
# What the consumers of jobs can read

A job is readable when its message validates under the contract that the worker of its stage
parses.  Every job is, except the follow-up that `OutcomeWorker` queues for its own stage: its
payload counts observations and is no `ExecutionDecision`.
-/

namespace Sentinel.Pipeline

open Logic Contracts PipelineDB

variable {host : Host} {C : State → PipelineEvent → Prop} {s : State}

/-- The payload validates under the contract of the stage. -/
def validates (stage : StageName) (payload : JsonValue) : Bool :=
  match stage with
  | .ingest => false
  | .research => (IngestedAlert.contract.load payload).isSome
  | .analysis => (ResearchReport.contract.load payload).isSome
  | .execution => (AnalysisReport.contract.load payload).isSome
  | .approval => ((ExecutionDecision.contract.load payload).bind ExecutionDecision.intent).isSome
  | .outcome => (ExecutionDecision.contract.load payload).isSome

/-- The job refers to a message that its worker can read. -/
def JobKey.readable (db : PipelineDB) (k : JobKey) : Bool :=
  (db.findMessage k.messageId).any fun m => validates k.stage m.payload

/-- An OUTCOME job for a message that `OutcomeWorker` wrote. -/
def JobKey.isFollowUp (db : PipelineDB) (k : JobKey) : Bool :=
  k.stage = .outcome && (db.findMessage k.messageId).any fun m => m.stage = .outcome

/-- The counts of a follow-up are not the fields of a decision. -/
theorem load_followUpPayload (observedCount pendingCount : ℕ) :
    ExecutionDecision.contract.load (OutcomeWorker.followUpPayload observedCount pendingCount) =
      none := rfl

theorem readable_iff (h : Reachable host C s) {k : JobKey} (hk : k ∈ s.world.db.jobKeys) :
    k.readable s.world.db = true ↔ k.isFollowUp s.world.db = false := by
  obtain ⟨envelope, hm, -, -, hqueued⟩ := job_message h hk
  obtain ⟨jobId, traceId, stage, messageId⟩ := k
  simp only [JobKey.readable, JobKey.isFollowUp, hm, Option.any_some, StageMessage.ofEnvelope,
    Bool.and_eq_false_iff, decide_eq_false_iff_not]
  cases hqueued with
  | alert l alertId hl h =>
    obtain ⟨ingested, -, hpayload⟩ := h.payload
    simp [validates, hpayload]
  | research l lease parent report hl h he => simp [validates, he.payload]
  | analysis l lease parent capturedAt output hl h he => simp [validates, he.payload]
  | awaiting l lease parent candidate intent checks approvalId hl h he =>
    simp [validates, he.payload, ExecutorWorker.awaitingDecision]
  | submitted l lease parent intent checks stage brokerOrderId hl h hstage he =>
    rcases hstage with rfl | rfl <;> simp [validates, he.payload, he.stage]
  | followUp l lease parent key observedCount pendingCount hl h he =>
    simp [validates, he.payload, he.stage, load_followUpPayload]

/-! ## Runs without a follow-up -/

/-- When `OutcomeWorker` completes a job towards its own stage, the call raises or the message it
would store is already there under its key. -/
def NoFollowUp (s : State) : PipelineEvent → Prop
  | .act i inp => ∀ op ∈ nextCall s i, ∀ envelope ∈ op.publishes .outcome,
    inp.commits = true → envelope.stage = .outcome →
      ∃ m ∈ s.world.db.stageMessages, m.idempotencyKey = envelope.idempotencyKey
  | _ => True

instance (s : State) : ∀ e : PipelineEvent, Decidable (NoFollowUp s e)
  | .act _ _ => inferInstanceAs (Decidable (∀ _ ∈ _, ∀ _ ∈ _, _ → _ → ∃ _ ∈ _, _))
  | .start _ | .crash _ | .env _ => inferInstanceAs (Decidable True)

/-- In a run without follow-ups no job is one. -/
theorem not_isFollowUp (h : Reachable host NoFollowUp s) :
    ∀ k ∈ s.world.db.jobKeys, k.isFollowUp s.world.db = false := by
  refine world_invariant (M := machine host)
    (J := fun w => ∀ k ∈ w.db.jobKeys, k.isFollowUp w.db = false) (fun _ hk => absurd hk List.not_mem_nil)
    (fun s i inp t log op k r w' hs hC hth hc ih => ?_) (fun s e _ ih => by cases e <;> exact ih) h
  have hcalled := called hc
  have hold : ∀ k ∈ s.world.db.jobKeys, k.isFollowUp w'.db = false := by
    intro k hk
    obtain ⟨envelope, hm, -⟩ := job_message hs hk
    have hm' := (called_grows hcalled).messages _ _ hm
    have hk := ih k hk
    simp only [JobKey.isFollowUp, hm, hm'] at hk ⊢
    exact hk
  rcases hcalled.jobKeys with heq | ⟨k', heq, hnew, hqueued⟩
  · rw [heq]
    exact hold
  · rw [heq]
    intro k hk
    rcases List.mem_append.mp hk with hk | hk
    · exact hold k hk
    · obtain rfl := List.mem_singleton.mp hk
      rcases hqueued with ⟨priority, a, hen⟩ |
        ⟨lease, envelope, availableAt, status, now, a, hen, hid, htr, hm⟩
      · -- ingress queues RESEARCH jobs only
        cases hen
        obtain ⟨l, envelope, hingests, hanswer, hstage, -⟩ :=
          ((issued hs hth).next rfl : Issues host.cfg t log _)
        simp [JobKey.isFollowUp, hstage]
      · cases hen
        have hnewm := hcalled.new_of_job (by rw [heq]; simp)
        by_contra hfollow
        simp only [JobKey.isFollowUp, hm, Option.any_some, StageMessage.ofEnvelope,
          Bool.not_eq_false, Bool.and_eq_true, decide_eq_true_eq] at hfollow
        obtain ⟨hstage, hestage⟩ := hfollow
        have hC : NoFollowUp s (.act i inp) := hC
        obtain ⟨m, hmem, hkey⟩ := hC _ (nextCall_eq hth) envelope (by simp [Op.publishes, hstage])
          (commits_of_ok hc) hestage
        exact hnewm.key m hmem hkey

/-- In a run without follow-ups every queued job can be read by its consumer. -/
theorem queued_readable (h : Reachable host NoFollowUp s) :
    ∀ j ∈ s.world.db.stageJobs, j.key.readable s.world.db = true := by
  intro j hj
  have hk : j.key ∈ s.world.db.jobKeys := mem_jobKeys.mpr ⟨j, hj, rfl⟩
  exact (readable_iff h hk).mpr (not_isFollowUp h _ hk)

namespace Sample

/-- The first observation is made a quarter of an hour later. -/
def followedEvents : List PipelineEvent :=
  List.flatten [tradedEvents, tick 900000000, [.start (.outcome (lit "o"))], calls 4 6,
    [.act 4 (.price 110), .act 4 (.benchmark none)], calls 4 6]

end Sample

theorem queued_readable_traded :
    (run (Sample.host "auto") Sample.tradedEvents).world.db.stageJobs.length = 4 ∧
      ∀ j ∈ (run (Sample.host "auto") Sample.tradedEvents).world.db.stageJobs,
        j.key.readable (run (Sample.host "auto") Sample.tradedEvents).world.db = true :=
  ⟨by decide +kernel, queued_readable (reach_of_allowed (by decide +kernel))⟩

/-- The follow-up for an observation still pending. -/
theorem followUp_unreadable : ∃ s, Reachable (Sample.host "auto") Any s ∧
    ∃ j ∈ s.world.db.stageJobs, j.key.readable s.world.db = false :=
  ⟨_, reachable_run _ Sample.followedEvents, by decide +kernel⟩

end Sentinel.Pipeline
