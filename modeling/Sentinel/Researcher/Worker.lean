import Sentinel.Pipeline.Calls

/-!
# The researcher

`ResearcherWorker.process_next`: one RESEARCH job, the agent's report as its output.
-/

namespace Sentinel.Pipeline

open Logic Contracts

/-- `Model.model_validate`. -/
def modelValidate {α : Type} (model : String) (c : Contract α) (payload : JsonValue) : Program α :=
  Prog.getD (.validationError model) (c.load payload)

/-- The `except` branch that all workers share. -/
def retryLater (cfg : QueueSection) (lease : JobLease) (exc : Exn) : Program Bool := do
  completeJobRetry lease exc.str cfg.retryBackoffSec cfg.maxAttempts
  pure false

/-- The frame all workers share: lease a job of the stage and process it. -/
def processNext (cfg : QueueSection) (stage : StageName) (workerId : Text)
    (process : JobLease → Program Bool) : Program Bool := do
  let lease ← leaseNextJob cfg stage workerId
  match lease with
  | none => pure false
  | some lease => (process lease).tryCatch (retryLater cfg lease)

namespace ResearcherWorker

def process (cfg : PipelineConfig) (lease : JobLease) : Program Bool := do
  let parent ← getMessage lease.messageId
  let ingested ← modelValidate "IngestedAlert" IngestedAlert.contract parent.payload
  let report ← Prog.perform (Op.analyze ingested)
  let envelope ← childEnvelope parent .research
    (buildResearchKey parent.messageId cfg.researcher.promptVersion)
    (ResearchReport.contract.dump report)
  let nextStage := if report.status = .pass then some StageName.analysis else none
  let messageId ← completeJobSuccess lease (some envelope) nextStage none report.status.value
  match messageId with
  | some messageId => saveResearchEvidence messageId report.evidence
  | none => pure ()
  pure true

def processNext (cfg : PipelineConfig) (workerId : Text) : Program Bool :=
  Pipeline.processNext cfg.queue .research workerId (process cfg)

end ResearcherWorker

end Sentinel.Pipeline
