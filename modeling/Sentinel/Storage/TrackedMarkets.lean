import Mathlib.Logic.Function.Basic
import Sentinel.Ingestion.Models
import Sentinel.Logic.OrderedMap

/-!
# The tracked markets: table and cache

`tracked_markets` with the statements that `SQLiteStore` runs on it, and the cache with what the
store does to it after each.  Both are markets by asset, `Markets`, and each statement does to the
table, read as `refresh_cache` reads it, what the store does to the cache.

* `TrackedMarkets`, `MarketCache`: the table and `_tracked_cache`.
* `markets_upsertRows` and `get_cacheUpserts`, and the like for the other statements: what each does
  to the markets.
-/

namespace Sentinel.Storage

open Logic Ingestion

/-- Markets by asset. -/
abbrev Markets : Type := String → Option MarketMetadata

/-- `_tracked_cache`. -/
abbrev MarketCache : Type := OrderedMap String MarketMetadata

/-- A row of `tracked_markets`, less its primary key `asset_id`.  The JSON columns hold the lists
that their texts denote. -/
structure MarketRow : Type where
  marketId : String
  conditionId : String
  marketSlug : String
  question : String
  description : String
  category : String
  tags : List String
  eventId : String
  eventTitle : String
  eventSlug : String
  siblingAssetIds : List String
  siblingMarketSlugs : List String
  outcome : String
  endDate : Option String
  volume24h : ℚ
  liquidity : ℚ
  polymarketUrl : String
  active : ℤ
  subscribedAtMs : ℤ
  lastTickMs : ℤ
  lastUpdate : ℤ
  deriving DecidableEq

/-- The rows by `asset_id`, in the order of their insertion. -/
abbrev TrackedMarkets : Type := OrderedMap String MarketRow

/-- `_row_to_market`. -/
def rowToMarket (assetId : String) (row : MarketRow) : MarketMetadata :=
  { assetId := assetId, marketId := row.marketId, conditionId := row.conditionId
    marketSlug := row.marketSlug, question := row.question, description := row.description
    category := row.category, tags := row.tags, eventId := row.eventId
    eventTitle := row.eventTitle, eventSlug := row.eventSlug
    siblingAssetIds := row.siblingAssetIds, siblingMarketSlugs := row.siblingMarketSlugs
    outcome := row.outcome, endDate := row.endDate.getD "", volume24h := some row.volume24h
    liquidity := some row.liquidity, polymarketUrl := row.polymarketUrl, active := row.active ≠ 0
    lastTickMs := row.lastTickMs, subscribedAtMs := row.subscribedAtMs }

/-- `int(active)`. -/
def int (b : Bool) : ℤ := if b then 1 else 0

@[simp] theorem decide_int_ne_zero (b : Bool) : decide (int b ≠ 0) = b := by
  cases b <;> rfl

/-- What `refresh_cache` reads. -/
def readCache (table : TrackedMarkets) : MarketCache := table.mapItems rowToMarket

def markets (table : TrackedMarkets) : Markets := (readCache table).get

/-! ## Statements -/

/-- What `upsert_tracked_markets` binds to the parameters of its statement. -/
structure UpsertParams : Type where
  market : MarketMetadata
  active : Bool
  subscribedAtMs : ℤ
  lastTickMs : ℤ
  nowMs : ℤ

/-- The values are taken from the cached market where there is one. -/
def upsertParams (cache : MarketCache) (nowMs : ℤ) (market : MarketMetadata) : UpsertParams :=
  let existing := cache.get market.assetId
  { market := market
    active := (existing.getD market).active
    subscribedAtMs := (existing.getD market).subscribedAtMs
    lastTickMs := (existing.getD market).lastTickMs
    nowMs := nowMs }

/-- sqlite3 binds `nan` as NULL, which the columns do not take. -/
def storable (market : MarketMetadata) : Bool :=
  market.volume24h.isSome && market.liquidity.isSome

/-- The row that would be inserted for storable values. -/
def UpsertParams.row (p : UpsertParams) : MarketRow :=
  { marketId := p.market.marketId, conditionId := p.market.conditionId
    marketSlug := p.market.marketSlug, question := p.market.question
    description := p.market.description, category := p.market.category, tags := p.market.tags
    eventId := p.market.eventId, eventTitle := p.market.eventTitle, eventSlug := p.market.eventSlug
    siblingAssetIds := p.market.siblingAssetIds
    siblingMarketSlugs := p.market.siblingMarketSlugs, outcome := p.market.outcome
    endDate := some p.market.endDate, volume24h := p.market.volume24h.getD 0
    liquidity := p.market.liquidity.getD 0, polymarketUrl := p.market.polymarketUrl
    active := int p.active, subscribedAtMs := p.subscribedAtMs
    lastTickMs := p.lastTickMs, lastUpdate := p.nowMs }

/-- `INSERT ... ON CONFLICT(asset_id) DO UPDATE SET ...`, which sets every column but `active`,
`subscribed_at_ms` and `last_tick_ms`. -/
def upsertRow (table : TrackedMarkets) (p : UpsertParams) : TrackedMarkets :=
  table.set p.market.assetId <| match table.get p.market.assetId with
    | none => p.row
    | some row => { p.row with
        active := row.active, subscribedAtMs := row.subscribedAtMs, lastTickMs := row.lastTickMs }

def upsertRows (table : TrackedMarkets) (ps : List UpsertParams) : TrackedMarkets :=
  ps.foldl upsertRow table

/-- `UPDATE tracked_markets SET active=?, subscribed_at_ms=?, last_update=? WHERE asset_id IN ...`. -/
def updateActive (table : TrackedMarkets) (assetIds : List String) (active : Bool)
    (subscribedAtMs nowMs : ℤ) : TrackedMarkets :=
  table.mapItems fun assetId row =>
    if assetId ∈ assetIds then
      { row with active := int active, subscribedAtMs := subscribedAtMs, lastUpdate := nowMs }
    else row

/-- `UPDATE tracked_markets SET last_tick_ms=?, last_update=? WHERE asset_id=?`. -/
def updateTick (table : TrackedMarkets) (assetId : String) (timestampMs : ℤ) : TrackedMarkets :=
  table.mapItems fun assetId' row =>
    if assetId' = assetId then { row with lastTickMs := timestampMs, lastUpdate := timestampMs }
    else row

/-! ## The cache -/

/-- The market with the state of the one that is there. -/
def keepState (market : MarketMetadata) (cached : Option MarketMetadata) : MarketMetadata :=
  { market with
    active := (cached.getD market).active
    subscribedAtMs := (cached.getD market).subscribedAtMs
    lastTickMs := (cached.getD market).lastTickMs }

/-- The loop of `upsert_tracked_markets` after its statement. -/
def cacheUpserts (cache : MarketCache) (ms : List MarketMetadata) : MarketCache :=
  ms.foldl (fun cache m => cache.set m.assetId (keepState m (cache.get m.assetId))) cache

def setActive (active : Bool) (subscribedAtMs : ℤ) (m : MarketMetadata) : MarketMetadata :=
  { m with active := active, subscribedAtMs := subscribedAtMs }

/-- The loop of `set_market_active`. -/
def cacheActive (cache : MarketCache) (assetIds : List String) (active : Bool)
    (subscribedAtMs : ℤ) : MarketCache :=
  assetIds.foldl (fun cache assetId => cache.modify (setActive active subscribedAtMs) assetId) cache

def cacheTick (cache : MarketCache) (assetId : String) (timestampMs : ℤ) : MarketCache :=
  cache.modify (fun m => { m with lastTickMs := timestampMs }) assetId

/-! ## What the operations do to the markets -/

namespace Markets

variable (M : Markets)

def upsert (m : MarketMetadata) : Markets := Function.update M m.assetId (keepState m (M m.assetId))

def upserts (ms : List MarketMetadata) : Markets := ms.foldl upsert M

/-- The markets of some assets changed. -/
def change (p : String → Prop) [DecidablePred p] (f : MarketMetadata → MarketMetadata) : Markets :=
  fun a => if p a then (M a).map f else M a

end Markets

section Effects

variable {table : TrackedMarkets} {cache : MarketCache} {p : UpsertParams} {a : String}

theorem markets_eq : markets table a = (table.get a).map (rowToMarket a) :=
  OrderedMap.get_mapItems

theorem markets_eq_none_iff : markets table a = none ↔ table.get a = none := by
  rw [markets_eq, Option.map_eq_none_iff]

/-- The parameters are those of the market itself, unless its asset is in the table. -/
def FitsTable (table : TrackedMarkets) (p : UpsertParams) : Prop :=
  table.get p.market.assetId = none → p.active = p.market.active ∧
    p.subscribedAtMs = p.market.subscribedAtMs ∧ p.lastTickMs = p.market.lastTickMs

/-- A table with more assets still fits. -/
theorem FitsTable.mono {table' : TrackedMarkets} (h : FitsTable table p)
    (hle : ∀ a, table'.get a = none → table.get a = none) : FitsTable table' p :=
  fun hnone => h (hle _ hnone)

/-- What is bound fits the table when the cache knows no asset that the table does not have. -/
theorem fitsTable_upsertParams {nowMs : ℤ} {m : MarketMetadata}
    (h : ∀ a, table.get a = none → cache.get a = none) :
    FitsTable table (upsertParams cache nowMs m) := by
  intro hnone
  have hcache : cache.get m.assetId = none := h _ hnone
  simp only [upsertParams, hcache, Option.getD_none, true_and]

theorem rowToMarket_row (hstorable : storable p.market = true) :
    rowToMarket p.market.assetId p.row =
      { p.market with
        active := p.active, subscribedAtMs := p.subscribedAtMs, lastTickMs := p.lastTickMs } := by
  obtain ⟨hvolume, hliquidity⟩ := Bool.and_eq_true_iff.mp hstorable
  obtain ⟨volume, hvolume⟩ := Option.isSome_iff_exists.mp hvolume
  obtain ⟨liquidity, hliquidity⟩ := Option.isSome_iff_exists.mp hliquidity
  simp only [rowToMarket, UpsertParams.row, hvolume, hliquidity, Option.getD_some,
    decide_int_ne_zero]

/-- An upsert sets the market and leaves its state as it is. -/
theorem markets_upsertRow (hstorable : storable p.market = true) (hfits : FitsTable table p) :
    markets (upsertRow table p) = (markets table).upsert p.market := by
  funext a
  rw [markets_eq, upsertRow, OrderedMap.get_set, Markets.upsert, Function.update_apply]
  split_ifs with ha
  · subst ha
    have hrow := rowToMarket_row hstorable
    rw [Option.map_some, markets_eq]
    cases hget : table.get p.market.assetId with
    | none =>
      obtain ⟨hactive, hsubscribed, htick⟩ := hfits hget
      exact congrArg some (hrow.trans (by rw [hactive, hsubscribed, htick]; rfl))
    | some row =>
      refine congrArg some ?_
      have hsame : rowToMarket p.market.assetId
          { p.row with active := row.active, subscribedAtMs := row.subscribedAtMs
                       lastTickMs := row.lastTickMs } =
          { rowToMarket p.market.assetId p.row with
            active := row.active ≠ 0, subscribedAtMs := row.subscribedAtMs
            lastTickMs := row.lastTickMs } := rfl
      exact hsame.trans (by rw [hrow]; rfl)
  · rw [markets_eq]

theorem get_upsertRow_eq_none (h : (upsertRow table p).get a = none) : table.get a = none := by
  rw [upsertRow, OrderedMap.get_set] at h
  split_ifs at h
  exact h

theorem markets_upsertRows {ps : List UpsertParams} (hstorable : ∀ p ∈ ps, storable p.market = true)
    (hfits : ∀ p ∈ ps, FitsTable table p) :
    markets (upsertRows table ps) = (markets table).upserts (ps.map UpsertParams.market) := by
  induction ps generalizing table with
  | nil => rfl
  | cons p ps ih =>
    have hrest : ∀ p' ∈ ps, FitsTable (upsertRow table p) p' := fun p' hp' =>
      (hfits p' (List.mem_cons_of_mem _ hp')).mono fun _ => get_upsertRow_eq_none
    refine (ih (fun p' hp' => hstorable p' (List.mem_cons_of_mem _ hp')) hrest).trans ?_
    rw [markets_upsertRow (hstorable p List.mem_cons_self) (hfits p List.mem_cons_self)]
    rfl

theorem get_upsertRows_eq_none {ps : List UpsertParams} (h : (upsertRows table ps).get a = none) :
    table.get a = none := by
  induction ps generalizing table with
  | nil => exact h
  | cons p ps ih => exact get_upsertRow_eq_none (ih h)

theorem get_cacheUpserts (ms : List MarketMetadata) :
    (cacheUpserts cache ms).get = Markets.upserts cache.get ms := by
  induction ms generalizing cache with
  | nil => rfl
  | cons m ms ih =>
    refine ih.trans (congrArg (fun M => Markets.upserts M ms) (funext fun a => ?_))
    rw [OrderedMap.get_set, Markets.upsert, Function.update_apply]

/-- An update of some rows does to their markets what `g` does. -/
theorem markets_mapItems {q : String → Prop} [DecidablePred q] {f : MarketRow → MarketRow}
    {g : MarketMetadata → MarketMetadata} (h : ∀ a row, rowToMarket a (f row) = g (rowToMarket a row)) :
    markets (table.mapItems fun a row => if q a then f row else row) = (markets table).change q g := by
  funext a
  rw [markets_eq, OrderedMap.get_mapItems, Option.map_map, Markets.change, markets_eq]
  split_ifs with ha
  · rw [Option.map_map]
    exact congrArg (fun f => (table.get a).map f) (funext (h a))
  · rfl

theorem markets_updateActive (assetIds : List String) (active : Bool) (subscribedAtMs nowMs : ℤ) :
    markets (updateActive table assetIds active subscribedAtMs nowMs) =
      (markets table).change (· ∈ assetIds) (setActive active subscribedAtMs) := by
  refine markets_mapItems fun a row => ?_
  rw [rowToMarket, setActive, decide_int_ne_zero]
  rfl

theorem get_cacheActive (assetIds : List String) (active : Bool) (subscribedAtMs : ℤ) :
    (cacheActive cache assetIds active subscribedAtMs).get =
      Markets.change cache.get (· ∈ assetIds) (setActive active subscribedAtMs) :=
  funext fun _ => OrderedMap.get_foldl_modify (f := setActive active subscribedAtMs) (fun _ => rfl)
    assetIds

theorem markets_updateTick (assetId : String) (timestampMs : ℤ) :
    markets (updateTick table assetId timestampMs) =
      (markets table).change (· = assetId) fun m => { m with lastTickMs := timestampMs } :=
  markets_mapItems fun _ _ => rfl

theorem get_cacheTick (assetId : String) (timestampMs : ℤ) :
    (cacheTick cache assetId timestampMs).get =
      Markets.change cache.get (· = assetId) fun m => { m with lastTickMs := timestampMs } := by
  funext a
  rw [cacheTick, OrderedMap.get_modify, Markets.change]
  split_ifs with ha
  · rw [ha]
  · rfl

end Effects

end Sentinel.Storage
