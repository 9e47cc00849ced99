import Sentinel.Logic.Rounding
import Sentinel.Researcher.Worker

/-!
# The outcome worker

`OutcomeWorker.process_next`: prices the observations of a trace that are due, waits while none is,
and queues a follow-up job while some are still pending.
-/

namespace Sentinel.Pipeline

open Logic Contracts

/-! ## Classification -/

/-- `quantize(Decimal("0.0001"))`. -/
def quantize4 (q : ℚ) : ℚ := roundHalfEven (q * 10000) / 10000

structure ObservedOutcome : Type where
  exitPrice : Decimal
  returnPct : Decimal
  benchmarkReturnPct : Option Decimal
  label : String

def classifyOutcome (entryPrice exitPrice : Decimal) (benchmarkReturnPct : Option Decimal) :
    ObservedOutcome :=
  if entryPrice = 0 then ⟨exitPrice, 0, benchmarkReturnPct, "flat"⟩
  else
    let returnPct := (exitPrice - entryPrice) / entryPrice * 100
    let alpha := returnPct - benchmarkReturnPct.getD 0
    let label := if 1/4 < alpha then "positive_alpha" else if alpha < -(1/4) then "negative_alpha"
      else "flat"
    ⟨exitPrice, quantize4 returnPct, benchmarkReturnPct, label⟩

/-! ## The worker -/

namespace OutcomeWorker

def pendingRows (rows : List ObservationRow) : List ObservationRow :=
  rows.filter fun row => row.observation.observedAt.isNone

def dueRows (now : Time) (rows : List ObservationRow) : List ObservationRow :=
  (pendingRows rows).filter fun row => row.observation.scheduledFor ≤ now

/-- `min(...)` of the times the rows are scheduled for. -/
def nextDue : List ObservationRow → Option Time
  | [] => none
  | row :: rows =>
    match nextDue rows with
    | none => some row.observation.scheduledFor
    | some t => some (min row.observation.scheduledFor t)

def emptyMin : Exn := .valueError "min() iterable argument is empty"

def waitForWindow (lease : JobLease) (rows : List ObservationRow) (now : Time) : Program Bool := do
  let next ← Prog.getD emptyMin (nextDue (pendingRows rows))
  let delay := max 1 ((next - now).tdiv 1000000)
  completeJobRetry lease (lit "waiting_for_outcome_window") delay 10000
  pure false

/-- The loop over the rows that are due. -/
def observe (symbol : Text) (now : Time) : List ObservationRow → Program Unit
  | [] => pure ()
  | row :: rows => do
    let exitPrice ← Prog.perform (Op.getPrice symbol row.observation.scheduledFor)
    let benchmark ← Prog.perform
      (Op.getBenchmarkReturn row.observation.scheduledFor row.observation.horizon)
    let observed := classifyOutcome row.observation.entryPrice exitPrice benchmark
    tx (.updateOutcomeObservation row.observationId now observed.exitPrice observed.returnPct
      observed.benchmarkReturnPct (lit observed.label))
    observe symbol now rows

/-- The payload of the follow-up message. -/
def followUpPayload (observedCount pendingCount : ℕ) : JsonValue :=
  .obj [(.field .observedCount, .int observedCount), (.field .pendingCount, .int pendingCount)]

def finish (lease : JobLease) (parent : PipelineEnvelope) (observedCount : ℕ) : Program Bool := do
  let rows ← tx (.listOutcomeObservations parent.traceId)
  let stillPending := pendingRows rows
  let horizon : Text := if stillPending.isEmpty then lit "final"
    else [.lit "pending-", .int stillPending.length]
  let envelope ← childEnvelope parent .outcome (buildOutcomeKey parent.traceId horizon)
    (followUpPayload observedCount stillPending.length)
  match nextDue stillPending with
  | some next => do
    let _ ← completeJobSuccess lease (some envelope) (some .outcome) (some next) "outcome_pending"
    pure true
  | none => do
    let _ ← completeJobSuccess lease (some envelope) none none "outcome_complete"
    pure true

def process (lease : JobLease) : Program Bool := do
  let parent ← getMessage lease.messageId
  let decision ← modelValidate "ExecutionDecision" ExecutionDecision.contract parent.payload
  match decision.intent with
  | none => do
    let _ ← completeJobSuccess lease none none none "outcome_skipped"
    pure true
  | some intent => do
    let observations ← tx (.listOutcomeObservations parent.traceId)
    if observations.isEmpty then
      let _ ← completeJobSuccess lease none none none "outcome_missing"
      pure true
    else
      let t ← now .observe
      let due := dueRows t observations
      if due.isEmpty then
        waitForWindow lease observations t
      else
        observe intent.symbol t due
        finish lease parent due.length

def processNext (cfg : PipelineConfig) (workerId : Text) : Program Bool :=
  Pipeline.processNext cfg.queue .outcome workerId process

end OutcomeWorker

end Sentinel.Pipeline
