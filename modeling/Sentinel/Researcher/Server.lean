import Sentinel.Pipeline.Calls

/-!
# Ingress

`ResearcherIngressService.handle_alert` checks the caller, stores the alert as an ingest message and
queues its RESEARCH job, each in a transaction of its own.
-/

namespace Sentinel.Pipeline

open Logic Contracts

/-- The bytes of a request body and the JSON value they spell, if any. -/
structure Body : Type where
  bytes : List UInt8
  json : Option JsonValue

inductive IngressBody : Type
  | error (error : String)
  | accepted (traceId messageId : UUID) (duplicate : Bool) (stage : StageName)
  deriving DecidableEq

structure IngressResponse : Type where
  statusCode : ℕ
  body : IngressBody
  deriving DecidableEq

/-- The last header whose name is `name` in lower case. -/
def headerGet (headers : List (String × String)) (name : String) : Option String :=
  (headers.reverse.find? fun h => h.1.toLower = name).map Prod.snd

namespace ResearcherIngressService

def authorize (cfg : ResearcherSection) (headers : List (String × String)) : Bool :=
  if cfg.webhookBearerToken = "" then true
  else (headerGet headers "authorization").getD "" = "Bearer " ++ cfg.webhookBearerToken

def verifySignature (hmacSha256 : String → List UInt8 → String) (cfg : ResearcherSection)
    (body : Body) (headers : List (String × String)) : Bool :=
  if cfg.webhookHmacSecret = "" then true
  else
    let provided := (headerGet headers "x-sentinel-signature").getD ""
    provided.startsWith "sha256=" &&
      provided = "sha256=" ++ hmacSha256 cfg.webhookHmacSecret body.bytes

/-- What follows the checks: the three transactions. -/
def persist (schemaVersion : String) (shiftAlert : ShiftAlertMirror) (replaySource : Option Text) :
    Program IngressResponse := do
  let traceId ← ensureTrace shiftAlert.alertId .ingest "persisted"
  let receivedAt ← now .received
  let ingested : IngestedAlert := ⟨shiftAlert, receivedAt, true, replaySource, 100⟩
  let envelope ← newEnvelope traceId shiftAlert.alertId .ingest schemaVersion
    (buildIngestKey shiftAlert.alertId) (IngestedAlert.contract.dump ingested) none
  let (messageId, inserted) ← tx (.upsertMessage envelope)
  if inserted then
    let _ ← tx (.enqueueJob traceId .research messageId ingested.priority)
    pure ⟨202, .accepted traceId messageId false .research⟩
  else
    pure ⟨202, .accepted traceId messageId true .research⟩

def handleAlert (hmacSha256 : String → List UInt8 → String) (cfg : PipelineConfig)
    (schemaVersion : String) (body : Body) (headers : List (String × String))
    (replaySource : Option Text) : Program IngressResponse :=
  if authorize cfg.researcher headers = false then
    pure ⟨401, .error "unauthorized"⟩
  else if verifySignature hmacSha256 cfg.researcher body headers = false then
    pure ⟨401, .error "invalid_signature"⟩
  else
    match body.json.bind ShiftAlertMirror.contract.load with
    | none => pure ⟨400, .error "invalid_payload"⟩
    | some shiftAlert =>
      let headerAlertId := (headerGet headers "x-sentinel-alert-id").getD ""
      if headerAlertId ≠ "" ∧ lit headerAlertId ≠ shiftAlert.alertId then
        pure ⟨400, .error "alert_id_mismatch"⟩
      else
        persist schemaVersion shiftAlert replaySource

end ResearcherIngressService

end Sentinel.Pipeline
