import Sentinel.Pipeline.Rules

/-!
# The paths of ingress and the researcher
-/

namespace Sentinel.Pipeline

open Logic Contracts

variable {cfg : PipelineConfig} {task : Task} {log : Log}

/-! ## Ingress -/

namespace ResearcherIngressService

/-- An accepted alert has been acknowledged. -/
def Persisted (alertId : Text) (log : Log) (r : Except Exn IngressResponse) : Prop :=
  ∀ response, r = .ok response → Acknowledges log alertId

theorem always_persist (htask : task.ingests = true) {schemaVersion : String} {shiftAlert : ShiftAlertMirror}
    {replaySource : Option Text} : Always (Issues cfg task) (Persisted shiftAlert.alertId)
      (persist schemaVersion shiftAlert replaySource) log := by
  have herr : ∀ l e, Persisted shiftAlert.alertId l (.error e) := fun l e response h => nomatch h
  simp only [persist, ensureTrace, newEnvelope, Prog.bind_def, Prog.bind_assoc]
  refine always_perform_bind trivial (fun t => ?_) fun e => herr _ e
  refine always_perform_bind ⟨htask, rfl, rfl⟩ (fun traceId => ?_) fun e => herr _ e
  refine always_perform_bind trivial (fun receivedAt => ?_) fun e => herr _ e
  refine always_perform_bind trivial (fun messageId => ?_) fun e => herr _ e
  refine always_perform_bind trivial (fun createdAt => ?_) fun e => herr _ e
  generalize hlog' : log ++ _ ++ _ ++ _ ++ _ ++ _ = log'
  generalize he : (⟨messageId, traceId, shiftAlert.alertId, none, .ingest, schemaVersion, _, createdAt,
    _⟩ : PipelineEnvelope) = envelope
  have hingests : Ingests log' shiftAlert.alertId envelope := by
    subst hlog' he
    refine ⟨⟨.ingest, "persisted", ?_⟩, rfl, rfl, ⟨_, rfl, rfl⟩, rfl, ?_⟩ <;> simp [Answered]
  refine always_perform_bind ⟨_, hingests⟩ (fun out => ?_) fun e => herr _ e
  obtain ⟨storedId, inserted⟩ := out
  have htrace : envelope.traceId = traceId := by subst he; rfl
  obtain rfl := htrace
  cases inserted with
  | false =>
    intro response _
    exact ⟨envelope, storedId, hingests.prefix_of (List.prefix_append _ _), Or.inl answered_last⟩
  | true =>
    have hingests := hingests.prefix_of (List.prefix_append log'
      [⟨.tx (.upsertMessage envelope), .ok (storedId, true)⟩])
    refine always_perform_bind ⟨_, envelope, hingests, answered_last, rfl, rfl⟩
      (fun jobId => ?_) fun e => herr _ e
    intro response _
    refine ⟨envelope, storedId, hingests.prefix_of (List.prefix_append _ _), Or.inr ⟨?_, ?_⟩⟩
    · exact answered_last.prefix_of (List.prefix_append _ _)
    · exact ⟨_, jobId, answered_last⟩

theorem always_handleAlert (htask : task.ingests = true) {hmacSha256 : String → List UInt8 → String} {schemaVersion : String}
    {body : Body} {headers : List (String × String)} {replaySource : Option Text} :
    Always (Issues cfg task) (fun l r => ∀ response, r = .ok response → response.statusCode = 202 →
        ∃ shiftAlert, body.json.bind ShiftAlertMirror.contract.load = some shiftAlert ∧
          Acknowledges l shiftAlert.alertId)
      (handleAlert hmacSha256 cfg schemaVersion body headers replaySource) log := by
  unfold handleAlert
  split_ifs
  · rintro _ ⟨⟩ h
    cases h
  · rintro _ ⟨⟩ h
    cases h
  · split
    · rintro _ ⟨⟩ h
      cases h
    · next shiftAlert hload =>
      dsimp only
      split_ifs
      · rintro _ ⟨⟩ h
        cases h
      · exact (always_persist htask).mono fun l r _ h response hr _ => ⟨shiftAlert, hload, h response hr⟩

end ResearcherIngressService

/-! ## The researcher -/

namespace ResearcherWorker

theorem always_process {lease : JobLease} (h : Begun log .research lease) :
    Always (Issues cfg task) (Clean (Handled .research lease fun _ => True)) (process cfg lease)
      log := by
  refine h.always_getMessage fun log parent h => ?_
  refine always_modelValidate (fun ingested hload => ?_) fun e _ => h.handled_error (nomatch ·)
  refine always_op trivial fun report => always_childEnvelope fun id t envelope he hid => ?_
  refine always_completeJobSuccess ⟨.researched parent envelope ingested report _
    (h.holds.prefix_of (by simp)) hload (by simp [Answered]) he rfl, ?_, ?_, ?_, ?_⟩ fun t out => ?_
  · simp [h.unended, Op.ends]
  · rintro _ ⟨⟩
    simp [Answered, hid]
  · cases report.status <;> decide
  · rintro _ ⟨⟩ hstage
    cases he.stage.symm.trans hstage
  · cases out with
    | none => exact fun _ => trivial
    | some messageId =>
      cases report.evidence with
      | nil => exact fun _ => trivial
      | cons item items =>
        exact always_tx ⟨_, _, _, _, _, _, answered_last⟩ fun _ _ => trivial

theorem always_worker {workerId : Text} (htask : task.ingests = false) :
    Always (Issues cfg task) (fun _ _ => True) (processNext cfg workerId) [] :=
  (always_processNext htask (fun _ _ => trivial) fun _ _ h => always_process h).mono
    fun _ _ _ _ => trivial

end ResearcherWorker

end Sentinel.Pipeline
