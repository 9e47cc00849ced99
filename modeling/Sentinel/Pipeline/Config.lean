import Sentinel.Contracts.Common

/-!
# Configuration

The sections of `PipelineConfig` that ingress and the workers read, and the keys under which they
store their messages.
-/

namespace Sentinel.Pipeline

open Contracts

structure QueueSection : Type where
  leaseSec : ℤ
  maxAttempts : ℤ
  retryBackoffSec : ℤ

structure ResearcherSection : Type where
  webhookBearerToken : String := ""
  webhookHmacSecret : String := ""
  promptVersion : String := "v1"

structure AnalystSection : Type where
  rulesetVersion : String := "v1"
  minAvgDollarVolume : ℚ := 2000000
  maxSpreadBps : ℤ := 50
  minPrice : ℚ := 5
  maxPrice : ℚ := 500

structure ExecutorSection : Type where
  approvalMode : String := "manual_all"
  riskRulesetVersion : String := "v1"
  maxPositionPct : ℚ := 1/20
  maxSectorExposurePct : ℚ := 1/5
  maxGrossInvestedPct : ℚ := 4/5
  maxDailyDrawdownPct : ℚ := 1/50
  consecutiveLossLimit : ℤ := 3
  staleQuoteSec : ℤ := 30
  approvalTimeoutMinutes : ℤ := 15

/-- No worker reads it. -/
structure BrokerSection : Type where
  paper : Bool := true

structure PipelineConfig : Type where
  queue : QueueSection
  researcher : ResearcherSection := {}
  analyst : AnalystSection := {}
  executor : ExecutorSection := {}
  broker : BrokerSection := {}

def seconds (n : ℤ) : Time := n * 1000000

def minutes (n : ℤ) : Time := seconds (60 * n)

/-! ## Idempotency keys -/

def buildIngestKey (alertId : Text) : Text := .lit "scout:" :: alertId

def buildResearchKey (parentMessageId : UUID) (promptVersion : String) : Text :=
  [.lit "research:", .uuid parentMessageId, .lit ":", .lit promptVersion]

def buildAnalysisKey (parentMessageId : UUID) (rulesetVersion : String) (dataSnapshotTs : Time) :
    Text :=
  [.lit "analysis:", .uuid parentMessageId, .lit ":", .lit rulesetVersion, .lit ":",
    .time dataSnapshotTs]

def buildExecutionKey (parentMessageId : UUID) (riskRulesetVersion approvalMode : String) : Text :=
  [.lit "execution:", .uuid parentMessageId, .lit ":", .lit riskRulesetVersion, .lit ":",
    .lit approvalMode]

def buildOutcomeKey (traceId : UUID) (horizon : Text) : Text :=
  [.lit "outcome:", .uuid traceId, .lit ":"] ++ horizon

/-- The digest stands for itself: different payloads have different digests. -/
def buildStableOrderId (traceId candidateId : UUID) (riskRulesetVersion : String) : Text :=
  [.lit "sentinel-", .digest traceId candidateId riskRulesetVersion]

theorem buildStableOrderId_inj {t t' c c' : UUID} {v v' : String} :
    buildStableOrderId t c v = buildStableOrderId t' c' v' ↔ t = t' ∧ c = c' ∧ v = v' := by
  simp [buildStableOrderId]

end Sentinel.Pipeline
