import Mathlib.Data.Int.Notation
import Mathlib.Data.Rat.Init

/-!
# Markets, ticks and subscriptions

The records of `sentinel.ingestion.models`.  Timestamps are integer milliseconds, prices exact
rationals.
-/

namespace Sentinel.Ingestion

/-- `volume_24h` and `liquidity` come out of `parse_float`, which lets `nan` through: it is none. -/
structure MarketMetadata : Type where
  assetId : String
  marketId : String
  conditionId : String
  marketSlug : String
  question : String
  description : String
  category : String
  tags : List String
  eventId : String
  eventTitle : String
  eventSlug : String
  siblingAssetIds : List String
  siblingMarketSlugs : List String
  outcome : String
  endDate : String
  volume24h : Option ℚ
  liquidity : Option ℚ
  polymarketUrl : String
  active : Bool := true
  lastTickMs : ℤ := 0
  subscribedAtMs : ℤ := 0
  deriving DecidableEq

structure PriceTick : Type where
  assetId : String
  price : ℚ
  bestBid : Option ℚ
  bestAsk : Option ℚ
  spread : Option ℚ
  signalSource : String
  quoteTsMs : Option ℤ
  timestampMs : ℤ
  deriving DecidableEq

structure MarketResolvedEvent : Type where
  marketId : String
  winningAssetId : String
  winningOutcome : String
  timestampMs : ℤ
  assetIds : List String

inductive Operation : Type
  | subscribe | unsubscribe
  deriving DecidableEq

structure SubscriptionCommand : Type where
  operation : Operation
  assetIds : List String
  deriving DecidableEq

end Sentinel.Ingestion
