import Sentinel.Pipeline.Growth
import Sentinel.Pipeline.System

/-!
# The hand-off of a message

A completion that stores its output queues it for the next stage in the same transaction.  This is
a property of the transactions alone: it holds in whatever order calls with whatever arguments are
made, so the runs here are those of the world, and the runs of the workers are among them.
-/

namespace Sentinel.Pipeline

open Logic Contracts PipelineDB

/-- A call by whoever makes it, or a change from outside. -/
inductive WorldEvent : Type
  | call (op : Op) (inp : Input)
  | env (e : Env)

def World.step (w : World) : WorldEvent → World
  | .call op inp =>
    match w.call op inp with
    | some (_, w') => w'
    | none => w
  | .env e => w.env e

/-- The worlds that calls lead to from an empty database. -/
abbrev WorldReachable : World → Prop := Reach World.step {} Any

variable {w : World}

theorem World.step_call (op : Op) (inp : Input) :
    w.step (.call op inp) = w ∨ ∃ r, Called w op r (w.step (.call op inp)) := by
  unfold World.step
  dsimp only
  split
  · next r w' h => exact Or.inr ⟨r, called h⟩
  · exact Or.inl rfl

/-- The world of the pipeline moves by calls. -/
theorem worldReachable {host : Host} {C : State → PipelineEvent → Prop} {s : State}
    (h : Reachable host C s) : WorldReachable s.world := by
  refine h.rec_moved (I := fun s => WorldReachable s.world) .init fun s e s' _ _ ih hm => ?_
  cases hm with
  | idle => exact ih
  | start => exact ih
  | crash => exact ih
  | env e => exact ih.step (e := .env e) trivial
  | act i inp t log op k r w' hth hcall =>
    have hstep : s.world.step (.call op inp) = w' := by
      have hcall : s.world.call op inp = some (r, w') := hcall
      simp [World.step, hcall]
    exact hstep ▸ ih.step (e := .call op inp) trivial

theorem step_grows (w : World) (e : WorldEvent) : Grows w.db (w.step e).db := by
  cases e with
  | call op inp =>
    rcases World.step_call (w := w) op inp with heq | ⟨r, hcalled⟩
    · rw [heq]
      exact Grows.refl _
    · exact called_grows hcalled
  | env e => cases e <;> exact Grows.refl _

theorem step_wellFormed (e : WorldEvent) (hw : WellFormed w.db) : WellFormed (w.step e).db := by
  cases e with
  | call op inp =>
    rcases World.step_call (w := w) op inp with heq | ⟨r, hcalled⟩
    · rw [heq]
      exact hw
    · exact called_wellFormed hcalled hw
  | env e => cases e <;> exact hw

/-- What keys and messages a world has, a later one has too. -/
theorem later_grows {w' : World} (hw : WellFormed w.db) (h : Reach World.step w Any w') :
    Grows w.db w'.db ∧ WellFormed w'.db := by
  refine h.invariant (I := fun w' => Grows w.db w'.db ∧ WellFormed w'.db) ⟨Grows.refl _, hw⟩ ?_
  intro w' e _ _ ⟨hgrows, hw'⟩
  exact ⟨hgrows.trans (step_grows w' e), step_wellFormed e hw'⟩

/-! ## One job for each message -/

/-- The jobs of the stage for the message. -/
def PipelineDB.jobsFor (db : PipelineDB) (stage : StageName) (messageId : UUID) : List StageJob :=
  db.stageJobs.filter fun j => j.stage = stage && j.messageId = messageId

theorem jobsFor_length {db : PipelineDB} (hw : WellFormed db) {k : JobKey} (hk : k ∈ db.jobKeys) :
    (db.jobsFor k.stage k.messageId).length = 1 := by
  obtain ⟨j, hj, rfl⟩ := mem_jobKeys.mp hk
  have hnodup : (db.stageJobs.map fun j => (j.stage, j.messageId)).Nodup := by
    simpa [jobKeys, StageJob.key, Function.comp_def] using hw.stageMessage
  have hone : db.jobsFor j.stage j.messageId = [j] := by
    refine filter_eq_singleton hnodup hj fun j' _ => ?_
    simp
  exact (congrArg List.length hone)

/-- What a completion with an output does to the messages and jobs. -/
theorem completed_cases {lease : JobLease} {envelope : PipelineEnvelope} {next : Option StageName}
    {availableAt : Option Time} {status : String} {t : Time} {r : Except Exn (Option UUID)}
    {w' : World}
    (h : Called w (.tx (.completeJobSuccess lease (some envelope) next availableAt status t)) r w') :
    w'.db.stageMessages = w.db.stageMessages ∧ w'.db.jobKeys = w.db.jobKeys ∨
    w.db.NewMessage envelope ∧
      w'.db.stageMessages = w.db.stageMessages ++ [.ofEnvelope envelope] ∧
      ∀ stage ∈ next, ∃ k ∈ w'.db.jobKeys, k.stage = stage ∧ k.messageId = envelope.messageId := by
  cases h with
  | asked op r hop => cases hop
  | raised op e hop => exact Or.inl ⟨rfl, rfl⟩
  | completed lease output next availableAt status now out ms js ts hts h =>
    have hkeys : ∀ js : List StageJob, (updateWhere (fun j => j.jobId = lease.jobId)
        (finishedRow .succeeded none none) js).map StageJob.key = js.map StageJob.key :=
      fun js => jobKeys_updateWhere fun j => rfl
    rcases h with ⟨rfl, rfl, -⟩ | ⟨envelope, heq, -, hnew, rfl, hjobs⟩
    · exact Or.inl ⟨rfl, hkeys _⟩
    · cases heq
      refine Or.inr ⟨hnew, rfl, fun stage hstage => ?_⟩
      rcases hjobs with ⟨rfl, -⟩ | ⟨stage', rfl, hjobs⟩
      · cases hstage
      · obtain rfl := Option.some.inj hstage
        have hmem : ∀ j ∈ js, j.stage = stage' → j.messageId = envelope.messageId →
            ∃ k ∈ (updateWhere (fun j => j.jobId = lease.jobId) (finishedRow .succeeded none none)
              js).map StageJob.key, k.stage = stage' ∧ k.messageId = envelope.messageId := by
          intro j hj hs hm
          rw [hkeys]
          exact ⟨j.key, List.mem_map_of_mem hj, hs, hm⟩
        rcases hjobs with ⟨⟨j, hj, hs, hm⟩, rfl⟩ | ⟨-, rfl⟩
        · exact hmem j hj hs hm
        · exact hmem _ (List.mem_append_right _ (List.mem_singleton.mpr rfl)) rfl rfl

/-- A message that a completion stores has from then on exactly one job of the next stage; a
completion whose key is known stores and queues nothing. -/
theorem handed_off (h : WorldReachable w) (lease : JobLease) (envelope : PipelineEnvelope)
    (next : Option StageName) (availableAt : Option Time) (status : String) (t : Time) (inp : Input) :
    let w₁ := w.step (.call (.tx (.completeJobSuccess lease (some envelope) next availableAt status t))
      inp)
    (∀ m ∈ w₁.db.stageMessages, m ∉ w.db.stageMessages → ∀ stage ∈ next,
      ∀ w', Reach World.step w₁ Any w' →
        m ∈ w'.db.stageMessages ∧ (w'.db.jobsFor stage m.messageId).length = 1) ∧
    (∀ m ∈ w.db.stageMessages, m.idempotencyKey = envelope.idempotencyKey →
      w₁.db.stageMessages = w.db.stageMessages ∧ w₁.db.jobKeys = w.db.jobKeys) := by
  intro w₁
  have hw : WellFormed w.db := (later_grows wellFormed_empty h).2
  have hw₁ : WellFormed w₁.db := step_wellFormed _ hw
  have hcases : w₁.db.stageMessages = w.db.stageMessages ∧ w₁.db.jobKeys = w.db.jobKeys ∨
      w.db.NewMessage envelope ∧
        w₁.db.stageMessages = w.db.stageMessages ++ [.ofEnvelope envelope] ∧
        ∀ stage ∈ next, ∃ k ∈ w₁.db.jobKeys, k.stage = stage ∧
          k.messageId = envelope.messageId := by
    rcases World.step_call (w := w) (.tx (.completeJobSuccess lease (some envelope) next availableAt
      status t)) inp with heq | ⟨r, hcalled⟩
    · exact Or.inl ⟨congrArg (fun w => w.db.stageMessages) heq, congrArg (fun w => w.db.jobKeys) heq⟩
    · exact completed_cases hcalled
  constructor
  · intro m hm hnew stage hstage w' hlater
    obtain ⟨hgrows, hw'⟩ := later_grows hw₁ hlater
    rcases hcases with ⟨heq, -⟩ | ⟨-, heq, hjob⟩
    · exact absurd (heq ▸ hm) hnew
    · obtain ⟨k, hk, rfl, hid⟩ := hjob stage hstage
      have hmessage : m = .ofEnvelope envelope := by
        rw [heq] at hm
        rcases List.mem_append.mp hm with hm | hm
        · exact absurd hm hnew
        · exact List.mem_singleton.mp hm
      have hmid : m.messageId = k.messageId := by rw [hmessage, hid]; rfl
      rw [hmid]
      exact ⟨hgrows.allMessages hm, jobsFor_length hw' (hgrows.jobs hk)⟩
  · intro m hm hkey
    rcases hcases with hsame | ⟨hnew, -⟩
    · exact hsame
    · exact absurd hkey (hnew.key m hm)

namespace Sample

def output (messageId : UUID) : PipelineEnvelope :=
  ⟨messageId, 7, lit "a1", none, .research, "v1", lit "research:1", 0, .obj []⟩

def completion (runId messageId : UUID) : WorldEvent :=
  .call (.tx (.completeJobSuccess ⟨3, runId, 7, .research, 1, 1⟩ (some (output messageId))
    (some .analysis) none "pass" 0)) .ok

end Sample

/-- The completion is repeated with an output of the same key, and the job is leased. -/
theorem handed_off_repeated :
    let w := World.step {} (Sample.completion 4 5)
    let w' := [Sample.completion 4 6, .call (.tx (.leaseNextJob .analysis (lit "a") 60 0)) .ok].foldl
      World.step w
    StageMessage.ofEnvelope (Sample.output 5) ∈ w'.db.stageMessages ∧
      (w'.db.jobsFor .analysis 5).length = 1 :=
  (handed_off .init ⟨3, 4, 7, .research, 1, 1⟩ (Sample.output 5) (some .analysis) none "pass" 0
    .ok).1 _ (List.mem_singleton_self _) List.not_mem_nil .analysis rfl _ (reach_foldl _)

end Sentinel.Pipeline
