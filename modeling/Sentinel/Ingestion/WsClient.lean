import Sentinel.Ingestion.Models
import Sentinel.Ingestion.Wire

/-!
# Frames of the websocket

`MarketWSClient.parse_message` makes the items of a frame into ticks and resolutions, one after the
other; what an item raises is caught by the loop over the frames, which drops the frame.
-/

namespace Sentinel.Ingestion

open Logic

/-! ## The parser -/

structure WebsocketConfig : Type where
  maxSpreadForMidpoint : ℚ

/-- A `PriceTick` as the client makes it, with whatever floats it was sent. -/
structure ParsedTick : Type where
  assetId : String
  price : PyFloat
  bestBid : Option PyFloat
  bestAsk : Option PyFloat
  spread : Option PyFloat
  signalSource : String
  quoteTsMs : Option ℤ
  timestampMs : ℤ
  deriving DecidableEq

/-- What an item is made into. -/
abbrev Output : Type := List ParsedTick × List MarketResolvedEvent

section Parser

variable (py : TextBuiltins) (cfg : WebsocketConfig)

/-- `levels[0].get("price")`. -/
def firstPrice : Value → Option Value
  | .list (.dict level :: _) => some (getKey level "price")
  | _ => none

def hasQuoteKeys (item : List (String × Value)) : Prop :=
  (field item "best_bid").isSome ∧ (field item "best_ask").isSome

instance (item : List (String × Value)) : Decidable (hasQuoteKeys item) := by
  unfold hasQuoteKeys
  infer_instance

/-- `_extract_best_bid_ask`; `some none` is `(None, None)`. -/
def extractBestBidAsk (item : List (String × Value)) : Option (Option (PyFloat × PyFloat)) :=
  if hasQuoteKeys item then do
    let bid ← parseFloat py (getKey item "best_bid") 0
    let ask ← parseFloat py (getKey item "best_ask") 0
    some (some (bid, ask))
  else
    let bids := (getKey item "bids").orElse (.list [])
    let asks := (getKey item "asks").orElse (.list [])
    if !bids.truthy || !asks.truthy then some none
    else do
      let bid ← parseFloat py (← firstPrice bids) 0
      let ask ← parseFloat py (← firstPrice asks) 0
      some (some (bid, ask))

/-- The tick of a quote, unless its spread is too wide. -/
def midpointTicks (signalSource assetId : String) (timestampMs : ℤ) (bid ask : PyFloat) :
    List ParsedTick :=
  let spread := minus ask bid
  if spread.gtRat cfg.maxSpreadForMidpoint then []
  else
    [{ assetId := assetId, price := half (plus bid ask), bestBid := some bid, bestAsk := some ask
       spread := some spread, signalSource := signalSource, quoteTsMs := some timestampMs
       timestampMs := timestampMs }]

/-- `for x in value`. -/
def iterate : Value → Option (List Value)
  | .list items => some items
  | .str s => some (s.toList.map fun c => .str c.toString)
  | .dict items => some (items.map fun (key, _) => .str key)
  | _ => none

/-- `item.get(key, [])`, iterated over. -/
def iterateKey (item : List (String × Value)) (key : String) : Option (List Value) :=
  iterate ((field item key).getD (.list []))

def parseBook (item : List (String × Value)) (timestampMs : ℤ) : Option (List ParsedTick) := do
  match ← extractBestBidAsk py item with
  | none => some []
  | some (bid, ask) =>
    some (midpointTicks cfg "midpoint_book" (pyStr py (getKey item "asset_id")) timestampMs bid ask)

def parseChange (timestampMs : ℤ) : Value → Option (List ParsedTick)
  | .dict change => do
    let bid ← parseFloat py (getKey change "best_bid") (-1)
    let ask ← parseFloat py (getKey change "best_ask") (-1)
    if bid.ltRat 0 || ask.ltRat 0 then some []
    else some (midpointTicks cfg "midpoint_change" (pyStr py (getKey change "asset_id")) timestampMs
      bid ask)
  | _ => none

def parseChanges (timestampMs : ℤ) : List Value → Option (List ParsedTick)
  | [] => some []
  | change :: changes => do
    let ticks ← parseChange py cfg timestampMs change
    let rest ← parseChanges timestampMs changes
    some (ticks ++ rest)

def parseTrade (item : List (String × Value)) (timestampMs : ℤ) : Option (List ParsedTick) := do
  let price ← parseFloat py (getKey item "price") 0
  some [{ assetId := pyStr py (getKey item "asset_id"), price := price, bestBid := none
          bestAsk := none, spread := none, signalSource := "last_trade", quoteTsMs := none
          timestampMs := timestampMs }]

def parseResolved (item : List (String × Value)) (timestampMs : ℤ) :
    Option (List MarketResolvedEvent) := do
  let assetIds ← iterateKey item "assets_ids"
  some [{ marketId := pyStr py ((getKey item "market").orElse ((getKey item "id").orElse (.str "")))
          winningAssetId := pyStr py ((getKey item "winning_asset_id").orElse (.str ""))
          winningOutcome := pyStr py ((getKey item "winning_outcome").orElse (.str ""))
          timestampMs := timestampMs
          assetIds := assetIds.map (pyStr py) }]

inductive EventType : Type
  | book | priceChange | lastTrade | resolved | unknown
  deriving DecidableEq

def EventType.ofName (name : String) : EventType :=
  if name = "book" ∨ name = "best_bid_ask" then .book
  else if name = "price_change" then .priceChange
  else if name = "last_trade_price" then .lastTrade
  else if name = "market_resolved" then .resolved
  else .unknown

def eventType (item : List (String × Value)) : EventType :=
  .ofName (pyStr py ((getKey item "event_type").orElse (.str "")))

/-- The body of the loop; what is not a dict is skipped. -/
def parseItem : Value → Option Output
  | .dict item => do
    let timestampMs ← parseTsMs py (getKey item "timestamp")
    match eventType py item with
    | .book => (parseBook py cfg item timestampMs).map fun ticks => (ticks, [])
    | .priceChange => do
      let changes ← iterateKey item "price_changes"
      let ticks ← parseChanges py cfg timestampMs changes
      some (ticks, [])
    | .lastTrade => (parseTrade py item timestampMs).map fun ticks => (ticks, [])
    | .resolved => (parseResolved py item timestampMs).map fun events => ([], events)
    | .unknown => some ([], [])
  | _ => some ([], [])

def parseItems : List Value → Option Output
  | [] => some ([], [])
  | item :: items => do
    let (ticks, events) ← parseItem py cfg item
    let (ticks', events') ← parseItems items
    some (ticks ++ ticks', events ++ events')

/-- What the loop goes through. -/
def frameItems : Value → List Value
  | .list items => items
  | value => [value]

/-- None if an item raises. -/
def parseMessage (payload : Value) : Option Output := parseItems py cfg (frameItems payload)

/-! ## One item after the other -/

variable {py} {cfg}

theorem parseItems_cons {item : Value} {items : List Value} {out : Output} :
    parseItems py cfg (item :: items) = some out ↔
      ∃ first rest, parseItem py cfg item = some first ∧ parseItems py cfg items = some rest ∧
        out = (first.1 ++ rest.1, first.2 ++ rest.2) := by
  constructor
  · intro h
    obtain ⟨first, hfirst, h⟩ := Option.bind_eq_some_iff.1 h
    obtain ⟨rest, hrest, h⟩ := Option.bind_eq_some_iff.1 h
    exact ⟨first, rest, hfirst, hrest, (Option.some.inj h).symm⟩
  · rintro ⟨first, rest, hfirst, hrest, rfl⟩
    exact Option.bind_eq_some_iff.2 ⟨first, hfirst, Option.bind_eq_some_iff.2 ⟨rest, hrest, rfl⟩⟩

theorem parseItems_isSome : ∀ {items : List Value},
    (parseItems py cfg items).isSome = true ↔
      ∀ item ∈ items, (parseItem py cfg item).isSome = true
  | [] => ⟨fun _ _ hmem => (nomatch hmem), fun _ => rfl⟩
  | item :: items => by
    have hold : (parseItems py cfg items).isSome = true ↔ _ := parseItems_isSome
    rw [List.forall_mem_cons, ← hold]
    simp only [Option.isSome_iff_exists, parseItems_cons]
    constructor
    · rintro ⟨_, first, rest, hfirst, hrest, -⟩
      exact ⟨⟨first, hfirst⟩, ⟨rest, hrest⟩⟩
    · rintro ⟨⟨first, hfirst⟩, ⟨rest, hrest⟩⟩
      exact ⟨_, first, rest, hfirst, hrest, rfl⟩

theorem parseChanges_cons {timestampMs : ℤ} {change : Value} {changes : List Value}
    {ticks : List ParsedTick} :
    parseChanges py cfg timestampMs (change :: changes) = some ticks ↔
      ∃ first rest, parseChange py cfg timestampMs change = some first ∧
        parseChanges py cfg timestampMs changes = some rest ∧ ticks = first ++ rest := by
  constructor
  · intro h
    obtain ⟨first, hfirst, h⟩ := Option.bind_eq_some_iff.1 h
    obtain ⟨rest, hrest, h⟩ := Option.bind_eq_some_iff.1 h
    exact ⟨first, rest, hfirst, hrest, (Option.some.inj h).symm⟩
  · rintro ⟨first, rest, hfirst, hrest, rfl⟩
    exact Option.bind_eq_some_iff.2 ⟨first, hfirst, Option.bind_eq_some_iff.2 ⟨rest, hrest, rfl⟩⟩

end Parser

end Sentinel.Ingestion
