import Sentinel.Contracts.Scout

/-!
# The ingested alert and the research report

`IngestedAlert` is the payload of an ingest message, `ResearchReport` that of a research message.
-/

namespace Sentinel.Contracts

open Logic Fields

inductive ResearchStatus : Type
  | pass | defer | insufficientEvidence | conflictingEvidence
  deriving DecidableEq, Repr

def ResearchStatus.value : ResearchStatus → String
  | pass => "pass"
  | defer => "defer"
  | insufficientEvidence => "insufficient_evidence"
  | conflictingEvidence => "conflicting_evidence"

inductive CatalystType : Type
  | policy | economicData | geopolitical | corporate | legal | other
  deriving DecidableEq, Repr

def CatalystType.value : CatalystType → String
  | policy => "policy"
  | economicData => "economic_data"
  | geopolitical => "geopolitical"
  | corporate => "corporate"
  | legal => "legal"
  | other => "other"

inductive InstrumentType : Type
  | equity | etf
  deriving DecidableEq, Repr

def InstrumentType.value : InstrumentType → String
  | equity => "equity"
  | etf => "etf"

inductive Direction : Type
  | bullish | bearish
  deriving DecidableEq, Repr

def Direction.value : Direction → String
  | bullish => "bullish"
  | bearish => "bearish"

inductive Horizon : Type
  | intraday | swing
  deriving DecidableEq, Repr

def Horizon.value : Horizon → String
  | intraday => "intraday"
  | swing => "swing"

inductive SourceTier : Type
  | primary | majorPress | secondary
  deriving DecidableEq, Repr

def SourceTier.value : SourceTier → String
  | primary => "primary"
  | majorPress => "major_press"
  | secondary => "secondary"

inductive LinkageType : Type
  | direct | supplier | competitor | sectorProxy | macroProxy
  deriving DecidableEq, Repr

def LinkageType.value : LinkageType → String
  | direct => "direct"
  | supplier => "supplier"
  | competitor => "competitor"
  | sectorProxy => "sector_proxy"
  | macroProxy => "macro_proxy"

inductive Confidence : Type
  | high | medium | low
  deriving DecidableEq, Repr

def Confidence.value : Confidence → String
  | high => "high"
  | medium => "medium"
  | low => "low"

namespace Contract

def researchStatus : Contract ResearchStatus :=
  .strEnum [.pass, .defer, .insufficientEvidence, .conflictingEvidence] ResearchStatus.value
    fun a => by cases a <;> decide

def catalystType : Contract CatalystType :=
  .strEnum [.policy, .economicData, .geopolitical, .corporate, .legal, .other] CatalystType.value
    fun a => by cases a <;> decide

def instrumentType : Contract InstrumentType :=
  .strEnum [.equity, .etf] InstrumentType.value fun a => by cases a <;> decide

def direction : Contract Direction :=
  .strEnum [.bullish, .bearish] Direction.value fun a => by cases a <;> decide

def horizon : Contract Horizon :=
  .strEnum [.intraday, .swing] Horizon.value fun a => by cases a <;> decide

def sourceTier : Contract SourceTier :=
  .strEnum [.primary, .majorPress, .secondary] SourceTier.value fun a => by cases a <;> decide

def linkageType : Contract LinkageType :=
  .strEnum [.direct, .supplier, .competitor, .sectorProxy, .macroProxy] LinkageType.value
    fun a => by cases a <;> decide

def confidence : Contract Confidence :=
  .strEnum [.high, .medium, .low] Confidence.value fun a => by cases a <;> decide

end Contract

/-- The default of `received_at`, the time of the construction, is filled in by the producer. -/
structure IngestedAlert : Type where
  shiftAlert : ShiftAlertMirror
  receivedAt : Time
  signatureVerified : Bool
  replaySource : Option Text
  priority : ℤ
  deriving DecidableEq

def IngestedAlert.contract : Contract IngestedAlert :=
  (cons (required .shiftAlert ShiftAlertMirror.contract) <| cons (required .receivedAt .datetime) <|
    cons (required .signatureVerified .bool) <| cons (optional .replaySource .text) <|
    cons (defaulting .priority .int 100) nil).codec.iso
  (fun (a, b, c, d, e, ()) => ⟨a, b, c, d, e⟩)
  (fun r => (r.shiftAlert, r.receivedAt, r.signatureVerified, r.replaySource, r.priority, ()))
  (fun _ => rfl)

structure EvidenceItem : Type where
  url : Text
  title : Text
  publisher : Text
  publishedAt : Option Time
  retrievedAt : Time
  sourceTier : SourceTier
  relevanceScore : ℚ
  claimTag : Text
  deriving DecidableEq

def EvidenceItem.contract : Contract EvidenceItem :=
  (cons (required .url .text) <| cons (required .title .text) <| cons (required .publisher .text) <|
    cons (optional .publishedAt .datetime) <| cons (required .retrievedAt .datetime) <|
    cons (required .sourceTier .sourceTier) <| cons (required .relevanceScore .float) <|
    cons (required .claimTag .text) nil).codec.iso
  (fun (a, b, c, d, e, f, g, h, ()) => ⟨a, b, c, d, e, f, g, h⟩)
  (fun r => (r.url, r.title, r.publisher, r.publishedAt, r.retrievedAt, r.sourceTier,
    r.relevanceScore, r.claimTag, ()))
  (fun _ => rfl)

structure AssetHypothesis : Type where
  symbol : Text
  instrumentType : InstrumentType
  direction : Direction
  horizon : Horizon
  linkageType : LinkageType
  confidence : Confidence
  tradableUniverse : Bool
  rationaleSummary : Text
  deriving DecidableEq

def AssetHypothesis.contract : Contract AssetHypothesis :=
  (cons (required .symbol .text) <| cons (required .instrumentType .instrumentType) <|
    cons (required .direction .direction) <| cons (required .horizon .horizon) <|
    cons (required .linkageType .linkageType) <| cons (required .confidence .confidence) <|
    cons (required .tradableUniverse .bool) <| cons (required .rationaleSummary .text) nil).codec.iso
  (fun (a, b, c, d, e, f, g, h, ()) => ⟨a, b, c, d, e, f, g, h⟩)
  (fun r => (r.symbol, r.instrumentType, r.direction, r.horizon, r.linkageType, r.confidence,
    r.tradableUniverse, r.rationaleSummary, ()))
  (fun _ => rfl)

structure ResearchReport : Type where
  status : ResearchStatus
  catalystType : CatalystType
  catalystSummary : Text
  catalystStartedAt : Option Time
  freshnessSec : Option ℤ
  evidence : List EvidenceItem
  assetHypotheses : List AssetHypothesis
  unsupportedClaims : List Text
  stageSummary : Text
  deriving DecidableEq

def ResearchReport.contract : Contract ResearchReport :=
  (cons (required .status .researchStatus) <| cons (required .catalystType .catalystType) <|
    cons (required .catalystSummary .text) <| cons (optional .catalystStartedAt .datetime) <|
    cons (optional .freshnessSec .int) <|
    cons (defaulting .evidence EvidenceItem.contract.list []) <|
    cons (defaulting .assetHypotheses AssetHypothesis.contract.list []) <|
    cons (defaulting .unsupportedClaims Contract.text.list []) <|
    cons (required .stageSummary .text) nil (last_field .stageSummary)).codec.iso
  (fun (a, b, c, d, e, f, g, h, i, ()) => ⟨a, b, c, d, e, f, g, h, i⟩)
  (fun r => (r.status, r.catalystType, r.catalystSummary, r.catalystStartedAt, r.freshnessSec,
    r.evidence, r.assetHypotheses, r.unsupportedClaims, r.stageSummary, ()))
  (fun _ => rfl)

end Sentinel.Contracts
