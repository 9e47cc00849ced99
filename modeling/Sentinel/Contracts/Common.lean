import Sentinel.Logic.Codec

/-!
# Texts, field names and the shared contracts

Values that the source prints into a text (an id, a time, a decimal) stay unprinted: a `Text` is a
list of pieces, and two texts are equal when their pieces are.  Ids are numbers, times are integer
microseconds, decimals and floats are exact rationals.
-/

namespace Sentinel.Contracts

open Logic

abbrev UUID : Type := ℕ

/-- Microseconds. -/
abbrev Time : Type := ℤ

abbrev Decimal : Type := ℚ

inductive Piece : Type
  | lit (s : String)
  | uuid (u : UUID)
  /-- `isoformat()`. -/
  | time (t : Time)
  | dec (q : Decimal)
  | float (q : ℚ)
  | int (n : ℤ)
  /-- `str` of a bool: `True` or `False`. -/
  | bool (b : Bool)
  /-- `q` with so many digits after the point. -/
  | fixed (digits : ℕ) (q : ℚ)
  /-- `secrets.token_urlsafe`. -/
  | token (n : ℕ)
  /-- The sha256 digest of `trace_id:candidate_id:version`. -/
  | digest (traceId candidateId : UUID) (version : String)
  deriving DecidableEq, Repr

abbrev Text : Type := List Piece

/-- A plain text. -/
abbrev lit (s : String) : Text := [.lit s]

/-- The names of the fields of the contracts and of the keys the workers read and write. -/
inductive FieldName : Type
  | signalSource | bestBid | bestAsk | spread | quoteAgeSec | liquidityBucket | confidence
  | direction | deltaPct | signedDeltaPct | priceStart | priceEnd | priceCurrent | windowSec
  | ticksInWindow | netDeltaPct | high | low | rangePct | positionInRange | tickCount | avgSpread
  | last5mTickCount | prior30mAvg5mTickCount | tickActivityRatio | last5mAvgSpread
  | prior30mAvgSpread | spreadChangePct | lookback30m | lookback60m | activity | regimeLabel
  | alertId | alertLevel | alertLevelLabel | timestampIso | timestampMs | market | shift
  | signalQuality | beforeState | metadata
  | shiftAlert | receivedAt | signatureVerified | replaySource | priority
  | url | title | publisher | publishedAt | retrievedAt | sourceTier | relevanceScore | claimTag
  | symbol | instrumentType | horizon | linkageType | tradableUniverse | rationaleSummary
  | status | catalystType | catalystSummary | catalystStartedAt | freshnessSec | evidence
  | assetHypotheses | unsupportedClaims | stageSummary
  | name | passed | value | reason
  | candidateId | side | thesisHorizon | brokerEligible | marketSnapshot | features | filters
  | score | maxNotional | stopLossPct | expiryAt | candidates | rejectedCandidates
  | portfolioSnapshotId
  | orderType | tif | limitPrice | maxSlippageBps | measuredValue | threshold
  | selectedCandidateId | intent | riskChecks | approvalId | brokerOrderIds
  | lastPrice | bid | ask | session | sector | spreadBps | rsi14 | sma20 | sma50 | volatility
  | avgDailyDollarVolume | observedCount | pendingCount
  deriving DecidableEq, Repr

/-- An object key; `other` is a key outside the contracts. -/
inductive Key : Type
  | field (n : FieldName)
  | other (s : String)
  deriving DecidableEq, Repr

abbrev JsonValue : Type := Json Key Text

abbrev Dict : Type := List (Key × JsonValue)

/-- `d.get(key)`. -/
def Dict.get (d : Dict) (n : FieldName) : Option JsonValue := d.lookup (.field n)

/-! ## Untyped access

What the workers do with a value out of a `dict[str, Any]`.  A container is never printed by them,
so `str` is none there. -/

namespace JsonValue

/-- `d.get(key)` of a payload. -/
def get (j : JsonValue) (n : FieldName) : Option JsonValue :=
  match j with
  | .obj d => Dict.get d n
  | _ => none

/-- Python's truth of a value. -/
def truthy : JsonValue → Bool
  | .null => false
  | .bool b => b
  | .int n => n ≠ 0
  | .num q => q ≠ 0
  | .str s => s ≠ [] && s ≠ lit ""
  | .arr items => !items.isEmpty
  | .obj items => !items.isEmpty

/-- `str(value)`. -/
def pyStr : JsonValue → Option Text
  | .null => some (lit "None")
  | .bool b => some [.bool b]
  | .int n => some [.int n]
  | .num q => some [.float q]
  | .str s => some s
  | .arr _ | .obj _ => none

/-- `int(value)`. -/
def pyInt : JsonValue → Option ℤ
  | .bool b => some b.toNat
  | .int n => some n
  | .num q => some (q.num.tdiv q.den)
  | .str [.int n] => some n
  | _ => none

/-- `value or default`. -/
def orElse (j : Option JsonValue) (d : JsonValue) : JsonValue :=
  match j with
  | some v => if truthy v then v else d
  | none => d

end JsonValue

/-- `Decimal(text)`. -/
def Decimal.parse : Text → Option Decimal
  | [.dec q] => some q
  | [.float q] => some q
  | [.int n] => some n
  | _ => none

abbrev Contract (α : Type) : Type := Codec Key Text α

/-! ## Codecs of the field types -/

namespace Contract

def text : Contract Text where
  dump s := .str s
  load
    | .str s => some s
    | _ => none
  load_dump _ := rfl

def bool : Contract Bool where
  dump b := .bool b
  load
    | .bool b => some b
    | _ => none
  load_dump _ := rfl

/-- An integral float is accepted. -/
def int : Contract ℤ where
  dump n := .int n
  load
    | .int n => some n
    | .num q => if q.den = 1 then some q.num else none
    | _ => none
  load_dump _ := rfl

def float : Contract ℚ where
  dump q := .num q
  load
    | .num q => some q
    | .int n => some n
    | _ => none
  load_dump _ := rfl

/-- A decimal is dumped as text; numbers are accepted as well. -/
def decimal : Contract Decimal where
  dump q := .str [.dec q]
  load
    | .str [.dec q] => some q
    | .num q => some q
    | .int n => some n
    | _ => none
  load_dump _ := rfl

def uuid : Contract UUID where
  dump u := .str [.uuid u]
  load
    | .str [.uuid u] => some u
    | _ => none
  load_dump _ := rfl

def datetime : Contract Time where
  dump t := .str [.time t]
  load
    | .str [.time t] => some t
    | _ => none
  load_dump _ := rfl

def dict : Contract Dict := Codec.dict

/-- A `StrEnum`. -/
abbrev strEnum {α : Type} (values : List α) (value : α → String)
    (h : ∀ a, values.find? (fun b => lit (value b) = lit (value a)) = some a) : Contract α :=
  Codec.enum values (fun a => lit (value a)) h

end Contract

/-- A required field. -/
abbrev required {α : Type} (n : FieldName) (c : Contract α) : Field Key Text α := ⟨.field n, c, none⟩

/-- A field with a default. -/
abbrev defaulting {α : Type} (n : FieldName) (c : Contract α) (a : α) : Field Key Text α :=
  ⟨.field n, c, some a⟩

/-- A field that may be `None`, its default. -/
abbrev optional {α : Type} (n : FieldName) (c : Contract α)
    (h : ∀ a, c.dump a ≠ .null := by intro _ h; cases h) : Field Key Text (Option α) :=
  ⟨.field n, c.option h, some none⟩

/-- The last field of a record has no name to differ from. -/
theorem last_field (n : FieldName) : Key.field n ∉ (Fields.nil : Fields Key Text Unit).names :=
  List.not_mem_nil

/-! ## `contracts.common` -/

inductive StageName : Type
  | ingest | research | analysis | execution | approval | outcome
  deriving DecidableEq, Repr

structure PipelineEnvelope : Type where
  messageId : UUID
  traceId : UUID
  sourceAlertId : Text
  parentMessageId : Option UUID
  stage : StageName
  schemaVersion : String
  idempotencyKey : Text
  createdAt : Time
  payload : JsonValue
  deriving DecidableEq

/-- The snapshot of the account, less its list of positions, which nothing reads. -/
structure PortfolioSnapshot : Type where
  snapshotId : UUID
  capturedAt : Time
  accountId : Text
  equity : Decimal
  cash : Decimal
  buyingPower : Decimal
  grossExposure : Decimal
  netExposure : Decimal
  sectorExposure : List (Text × Decimal)
  deriving DecidableEq, Repr

end Sentinel.Contracts
