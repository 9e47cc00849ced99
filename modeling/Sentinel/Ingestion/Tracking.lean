import Sentinel.Ingestion.Frames
import Sentinel.Logic.Top

/-!
# The tracked markets

`Gatekeeper.extract_tracked_markets` goes through the markets of all events, leaves out what is not
eligible, orders the rest by volume, cuts it off at `max_markets` and keys it by asset.

* `Listing`: a market with a Yes token in an event; an asset may be listed more than once.
* `TopMarkets`: the result is of the best eligible assets, as many as there are, up to `max_markets`.
* `topMarkets_iff`: when it is.
-/

namespace Sentinel.Ingestion

open Logic

abbrev Fields : Type := List (String × Value)

structure GatekeeperConfig : Type where
  minVolume24h : ℚ
  minLiquidity : ℚ
  maxMarkets : ℤ
  excludedCategories : List String
  excludedTagSlugs : List String

/-- `loads` is `json.loads`, none for a `JSONDecodeError`. -/
structure FeedBuiltins extends TextBuiltins where
  lower : String → String
  loads : String → Option Value

/-- A `MarketMetadata` as it comes out of the feed, with whatever floats it was sent. -/
structure FeedMarket : Type where
  assetId : String
  marketId : String
  conditionId : String
  marketSlug : String
  question : String
  description : String
  category : String
  tags : List String
  eventId : String
  eventTitle : String
  eventSlug : String
  siblingAssetIds : List String
  siblingMarketSlugs : List String
  outcome : String
  endDate : String
  volume24h : PyFloat
  liquidity : PyFloat
  polymarketUrl : String
  deriving DecidableEq

/-! ## Reading the feed -/

section Feed

variable (py : FeedBuiltins)

def ensureList (value : Value) : List Value :=
  match value with
  | .null => []
  | .list items => items
  | .str s =>
    if py.strip s = "" then []
    else match py.loads (py.strip s) with
      | none => [value]
      | some (.list items) => items
      | some loaded => [loaded]
  | .bool _ | .int _ | .float _ | .dict _ => [value]

def normalizeTag : Value → Option String
  | .dict item =>
    let candidate := (getKey item "slug").orElse ((getKey item "label").orElse (getKey item "name"))
    if candidate.truthy then some (pyStr py.toTextBuiltins candidate) else none
  | .null => none
  | .str s => if s = "" then none else some s
  | item => some (pyStr py.toTextBuiltins item)

def normalizeTags (value : Value) : List String := (ensureList py value).filterMap (normalizeTag py)

/-- Of two outcomes of one name the later counts. -/
def extractYesTokenId (market : Fields) : Option String :=
  let outcomes := (ensureList py (getKey market "outcomes")).map fun item =>
    py.lower (py.strip (pyStr py.toTextBuiltins item))
  let tokenIds := (ensureList py ((getKey market "clobTokenIds").orElse
    (getKey market "clob_token_ids"))).map (pyStr py.toTextBuiltins)
  if outcomes = [] ∨ tokenIds = [] ∨ outcomes.length ≠ tokenIds.length then none
  else (outcomes.zip tokenIds).reverse.lookup "yes"

/-- A market of an event with its Yes token. -/
structure Listing : Type where
  event : Fields
  market : Fields
  assetId : String

def canonicalMarket (event : Fields) : Value → Option Listing
  | .dict market =>
    match extractYesTokenId py market with
    | some yesToken => if yesToken = "" then none else some ⟨event, market, yesToken⟩
    | none => none
  | _ => none

def canonicalMarkets (event : Fields) : List Listing :=
  (ensureList py (getKey event "markets")).filterMap (canonicalMarket py event)

/-- All markets that the loops go through. -/
def listings (events : List Fields) : List Listing := events.flatMap (canonicalMarkets py)

namespace Listing

variable (listing : Listing)

/-- `str(market.get(key) or … or "")`, for several keys. -/
def text (keys : List String) (default : Value) : String :=
  pyStr py.toTextBuiltins (keys.foldr (fun key => (getKey listing.market key).orElse) default)

def volume24h : Option PyFloat :=
  parseFloat py.toTextBuiltins ((getKey listing.market "volume24hr").orElse
    ((getKey listing.market "volume_24h").orElse (getKey listing.event "volume24hr"))) 0

def liquidity : Option PyFloat :=
  parseFloat py.toTextBuiltins
    ((getKey listing.market "liquidity").orElse (getKey listing.event "liquidity")) 0

def active : Bool :=
  ((field listing.market "active").getD ((field listing.event "active").getD (.bool true))).truthy

def closed : Bool :=
  ((field listing.market "closed").getD ((field listing.event "closed").getD (.bool false))).truthy

def category : String :=
  listing.text py ["category"] ((getKey listing.event "category").orElse (.str ""))

def tags : List String :=
  normalizeTags py ((getKey listing.market "tags").orElse (getKey listing.event "tags"))

/-- `_is_excluded_market`, with the sets of what is excluded made of the config. -/
def isExcludedMarket (cfg : GatekeeperConfig) : Bool :=
  py.lower (py.strip (listing.category py)) ∈ cfg.excludedCategories.map py.lower ∨
    ∃ tag ∈ listing.tags py, py.lower (py.strip tag) ∈ cfg.excludedTagSlugs.map py.lower

def siblings : List Listing :=
  (canonicalMarkets py listing.event).filter fun other => other.assetId ≠ listing.assetId

def eventSlug : String :=
  pyStr py.toTextBuiltins ((getKey listing.event "slug").orElse (.str ""))

def metadata (volume24h liquidity : PyFloat) : FeedMarket where
  assetId := listing.assetId
  marketId := listing.text py ["id", "condition_id", "market"] (.str "")
  conditionId := listing.text py ["condition_id", "conditionId", "market"] (.str "")
  marketSlug := listing.text py ["slug"] (.str "")
  question := listing.text py ["question", "title"] (.str "")
  description := listing.text py ["description"]
    ((getKey listing.event "description").orElse (.str ""))
  category := listing.category py
  tags := listing.tags py
  eventId := pyStr py.toTextBuiltins ((field listing.event "id").getD (.str ""))
  eventTitle := pyStr py.toTextBuiltins
    ((getKey listing.event "title").orElse ((getKey listing.event "question").orElse (.str "")))
  eventSlug := listing.eventSlug py
  siblingAssetIds := (listing.siblings py).map Listing.assetId
  siblingMarketSlugs := (listing.siblings py).map fun other => other.text py ["slug"] (.str "")
  outcome := "Yes"
  endDate := listing.text py ["endDate", "end_date"] (.str (pyStr py.toTextBuiltins
    ((getKey listing.event "endDate").orElse ((getKey listing.event "end_date").orElse (.str "")))))
  volume24h := volume24h
  liquidity := liquidity
  polymarketUrl := listing.text py ["url"]
    (.str ("https://polymarket.com/event/" ++ listing.eventSlug py))

end Listing

/-! ## The result -/

variable (cfg : GatekeeperConfig)

/-- The body of the inner loop: none if a reading raises. -/
def candidate (listing : Listing) : Option (Option FeedMarket) := do
  let volume24h ← listing.volume24h py
  let liquidity ← listing.liquidity py
  if !listing.active || listing.closed then some none
  else if listing.isExcludedMarket py cfg then some none
  else if volume24h.ltRat cfg.minVolume24h || liquidity.ltRat cfg.minLiquidity then some none
  else some (some (listing.metadata py volume24h liquidity))

def candidates : List Listing → Option (List FeedMarket)
  | [] => some []
  | listing :: rest => do
    let market ← candidate py cfg listing
    let markets ← candidates rest
    some (market.toList ++ markets)

/-- `xs[:n]`. -/
def slice {α : Type} (n : ℤ) (xs : List α) : List α :=
  xs.take (if 0 ≤ n then n.toNat else xs.length - (-n).toNat)

/-- `candidates.sort(key=volume_24h, reverse=True)`, which is stable. -/
def sortByVolume (markets : List FeedMarket) : List FeedMarket :=
  markets.insertionSort fun a b => a.volume24h.lt b.volume24h = false

def extractTrackedMarkets (events : List Fields) : Option (OrderedMap String FeedMarket) := do
  let markets ← candidates py cfg (listings py events)
  some (OrderedMap.keyBy FeedMarket.assetId (slice cfg.maxMarkets (sortByVolume markets)))

/-! ## The best markets -/

/-- What the loop asks of a listing whose numbers are read. -/
def Listing.passes (listing : Listing) : Bool :=
  match listing.volume24h py, listing.liquidity py with
  | some volume24h, some liquidity =>
    listing.active && !listing.closed && !listing.isExcludedMarket py cfg &&
      !volume24h.ltRat cfg.minVolume24h && !liquidity.ltRat cfg.minLiquidity
  | _, _ => false

/-- Active, open, not excluded, and with numbers at or above the minimums. -/
def Listing.eligible (listing : Listing) : Bool :=
  match listing.volume24h py, listing.liquidity py with
  | some volume24h, some liquidity =>
    listing.active && !listing.closed && !listing.isExcludedMarket py cfg &&
      volume24h.atLeast cfg.minVolume24h && liquidity.atLeast cfg.minLiquidity
  | _, _ => false

/-- The volume, where it is a number. -/
def Listing.rank (listing : Listing) : ℚ :=
  match listing.volume24h py with
  | some (.finite volume24h) => volume24h
  | _ => 0

def eligibleAssets (events : List Fields) : Finset String :=
  goodKeys Listing.assetId (Listing.eligible py cfg) (listings py events)

/-- As many markets as there are eligible assets, up to the limit, each of an eligible listing, and
no asset left out with a listing of more volume than all of a returned one. -/
structure TopMarkets (events : List Fields) (tracked : OrderedMap String FeedMarket) : Prop where
  count : (tracked.items.length : ℤ) = min cfg.maxMarkets (eligibleAssets py cfg events).card
  eligible : ∀ assetId market, tracked.get assetId = some market →
    ∃ listing ∈ listings py events, listing.eligible py cfg = true ∧ listing.assetId = assetId ∧
      candidate py cfg listing = some (some market)
  best : ∀ listing ∈ listings py events, listing.eligible py cfg = true →
    tracked.get listing.assetId = none → ∀ assetId, (tracked.get assetId).isSome = true →
      ∃ other ∈ listings py events, other.eligible py cfg = true ∧ other.assetId = assetId ∧
        listing.rank py ≤ other.rank py

/-- The first `max_markets` of the listings that pass, by volume. -/
def topListings (events : List Fields) : List Listing :=
  firsts (Listing.rank py) cfg.maxMarkets.toNat ((listings py events).filter (Listing.passes py cfg))

/-- The volumes are exact numbers. -/
def ExactVolumes (events : List Fields) : Prop :=
  ∀ listing ∈ listings py events, ∃ volume24h, listing.volume24h py = some (.finite volume24h)

end Feed

/-! ## The loop -/

section Loop

variable {py : FeedBuiltins} {cfg : GatekeeperConfig}

/-- The market that a listing is made into. -/
def Listing.made (py : FeedBuiltins) (listing : Listing) : FeedMarket :=
  listing.metadata py ((listing.volume24h py).getD (.finite 0))
    ((listing.liquidity py).getD (.finite 0))

theorem candidate_eq {listing : Listing} {volume24h liquidity : PyFloat}
    (hvolume : listing.volume24h py = some volume24h)
    (hliquidity : listing.liquidity py = some liquidity) :
    candidate py cfg listing =
      some (if listing.passes py cfg then some (listing.made py) else none) := by
  unfold candidate Listing.passes Listing.made
  rw [hvolume, hliquidity]
  simp only [Option.bind_eq_bind, Option.bind_some, Option.getD_some]
  cases listing.active <;> cases listing.closed <;> cases listing.isExcludedMarket py cfg <;>
    cases volume24h.ltRat cfg.minVolume24h <;> cases liquidity.ltRat cfg.minLiquidity <;> rfl

theorem candidates_eq : ∀ {ls : List Listing},
    (∀ listing ∈ ls, (listing.volume24h py).isSome = true ∧
      (listing.liquidity py).isSome = true) →
      candidates py cfg ls = some ((ls.filter (Listing.passes py cfg)).map (Listing.made py))
  | [], _ => rfl
  | listing :: ls, hread => by
    obtain ⟨hvolume, hliquidity⟩ := hread listing List.mem_cons_self
    obtain ⟨volume24h, hvolume⟩ := Option.isSome_iff_exists.1 hvolume
    obtain ⟨liquidity, hliquidity⟩ := Option.isSome_iff_exists.1 hliquidity
    unfold candidates
    rw [candidate_eq hvolume hliquidity,
      candidates_eq fun other hmem => hread other (List.mem_cons_of_mem _ hmem)]
    by_cases hpass : listing.passes py cfg = true
    · rw [if_pos hpass, List.filter_cons_of_pos hpass]
      rfl
    · rw [if_neg hpass, List.filter_cons_of_neg hpass]
      rfl

/-- The loop raises at a liquidity that is not read. -/
theorem candidates_none : ∀ {ls : List Listing} {listing : Listing},
    listing ∈ ls → listing.liquidity py = none → candidates py cfg ls = none
  | first :: ls, listing, hmem, hnone => by
    unfold candidates
    rcases List.mem_cons.1 hmem with rfl | hmem
    · have hraise : candidate py cfg listing = none := by
        unfold candidate
        rw [hnone]
        cases listing.volume24h py <;> rfl
      rw [hraise]
      rfl
    · rw [candidates_none hmem hnone]
      cases candidate py cfg first <;> rfl

theorem lt_eq_false {x y : ℚ} : (PyFloat.finite x).lt (.finite y) = false ↔ y ≤ x := by
  show decide (x < y) = false ↔ _
  rw [decide_eq_false_iff_not, not_lt]

theorem rank_eq {listing : Listing} {volume24h : ℚ}
    (hvolume : listing.volume24h py = some (.finite volume24h)) :
    (listing.made py).volume24h = .finite (listing.rank py) := by
  unfold Listing.rank
  show (listing.volume24h py).getD (.finite 0) = _
  rw [hvolume]
  rfl

theorem sortByVolume_map {ls : List Listing}
    (hexact : ∀ listing ∈ ls, ∃ volume24h, listing.volume24h py = some (.finite volume24h)) :
    sortByVolume (ls.map (Listing.made py)) = (byRank (Listing.rank py) ls).map (Listing.made py) := by
  unfold sortByVolume byRank
  refine (List.map_insertionSort _ _ _ _ fun a ha b hb => ?_).symm
  obtain ⟨v, hv⟩ := hexact a ha
  obtain ⟨w, hw⟩ := hexact b hb
  rw [rank_eq hv, rank_eq hw, lt_eq_false]

/-- With exact volumes and a limit, the result is of the first listings. -/
theorem extractTrackedMarkets_eq {events : List Fields} (hexact : ExactVolumes py events)
    (hread : ∀ listing ∈ listings py events, (listing.liquidity py).isSome = true)
    (hlimit : 0 ≤ cfg.maxMarkets) :
    extractTrackedMarkets py cfg events = some (OrderedMap.keyBy FeedMarket.assetId
      ((topListings py cfg events).map (Listing.made py))) := by
  have hvolume : ∀ listing ∈ listings py events, (listing.volume24h py).isSome = true := by
    intro listing hmem
    obtain ⟨volume24h, hvolume⟩ := hexact listing hmem
    rw [hvolume]
    rfl
  unfold extractTrackedMarkets
  rw [candidates_eq fun listing hmem => ⟨hvolume listing hmem, hread listing hmem⟩]
  refine congrArg (fun ms => some (OrderedMap.keyBy FeedMarket.assetId ms)) ?_
  unfold slice topListings firsts
  rw [if_pos hlimit, sortByVolume_map fun listing hmem => hexact listing (List.mem_filter.1 hmem).1,
    List.map_take]

/-! ## Eligible listings -/

theorem atLeast_of_not_ltRat {x : PyFloat} {q : ℚ} (hnan : x ≠ .nan) :
    x.atLeast q = !x.ltRat q := by
  cases x with
  | finite x =>
    show decide (q ≤ x) = !decide (x < q)
    rw [← decide_not, decide_eq_decide, not_lt]
  | inf negative => rfl
  | nan => exact absurd rfl hnan

theorem nan_atLeast {q : ℚ} : PyFloat.nan.atLeast q = false := rfl

/-- With an exact volume, the eligible listings are those that pass with a liquidity that is not
`nan`. -/
theorem eligible_iff {listing : Listing} {volume24h : ℚ}
    (hvolume : listing.volume24h py = some (.finite volume24h)) :
    listing.eligible py cfg = true ↔
      listing.passes py cfg = true ∧ listing.liquidity py ≠ some .nan := by
  unfold Listing.eligible Listing.passes
  rw [hvolume]
  cases listing.liquidity py with
  | none => exact ⟨fun h => (nomatch h), fun h => (nomatch h.1)⟩
  | some liquidity =>
    by_cases hnan : liquidity = .nan
    · subst hnan
      simp [nan_atLeast]
    · have hne : (PyFloat.finite volume24h) ≠ .nan := by intro h; exact nomatch h
      simp only [atLeast_of_not_ltRat hnan, atLeast_of_not_ltRat hne]
      refine (and_iff_left fun h => hnan (Option.some.inj h)).symm

theorem goodKeys_passes {events : List Fields} (hexact : ExactVolumes py events) :
    goodKeys Listing.assetId (Listing.eligible py cfg)
        ((listings py events).filter (Listing.passes py cfg)) = eligibleAssets py cfg events := by
  ext assetId
  unfold eligibleAssets
  rw [mem_goodKeys, mem_goodKeys]
  constructor
  · rintro ⟨listing, hmem, heligible, hasset⟩
    exact ⟨listing, (List.mem_filter.1 hmem).1, heligible, hasset⟩
  · rintro ⟨listing, hmem, heligible, hasset⟩
    obtain ⟨volume24h, hvolume⟩ := hexact listing hmem
    exact ⟨listing, List.mem_filter.2 ⟨hmem, ((eligible_iff hvolume).1 heligible).1⟩, heligible,
      hasset⟩

theorem mem_of_mem_topListings {events : List Fields} {listing : Listing}
    (hmem : listing ∈ topListings py cfg events) :
    listing ∈ listings py events ∧ listing.passes py cfg = true :=
  List.mem_filter.1 (mem_of_mem_firsts hmem)

theorem made_nan {listing : Listing} :
    (listing.made py).liquidity = .nan ↔ listing.liquidity py = some .nan := by
  show (listing.liquidity py).getD (.finite 0) = .nan ↔ _
  cases listing.liquidity py with
  | none => exact ⟨fun h => (nomatch h), fun h => (nomatch h)⟩
  | some liquidity => exact (Option.some.injEq _ _).symm ▸ Iff.rfl

/-- What the first listings are made into, by assets. -/
theorem get_made {ls : List Listing} {assetId : String} :
    (OrderedMap.keyBy FeedMarket.assetId (ls.map (Listing.made py))).get assetId =
      ((OrderedMap.keyBy Listing.assetId ls).get assetId).map (Listing.made py) :=
  OrderedMap.get_keyBy_map fun _ => rfl

/-- The markets of the first listings are the best just if the first listings are. -/
theorem topMarkets_made {events : List Fields} (hexact : ExactVolumes py events)
    (hread : ∀ listing ∈ listings py events, (listing.liquidity py).isSome = true)
    (hlimit : 0 ≤ cfg.maxMarkets) :
    TopMarkets py cfg events (OrderedMap.keyBy FeedMarket.assetId
        ((topListings py cfg events).map (Listing.made py))) ↔
      IsTop Listing.assetId (Listing.rank py) (Listing.eligible py cfg) cfg.maxMarkets.toNat
        ((listings py events).filter (Listing.passes py cfg))
        (OrderedMap.keyBy Listing.assetId (topListings py cfg events)) := by
  have hlength : (OrderedMap.keyBy FeedMarket.assetId
      ((topListings py cfg events).map (Listing.made py))).items.length =
        (OrderedMap.keyBy Listing.assetId (topListings py cfg events)).items.length :=
    OrderedMap.length_keyBy_map fun _ => rfl
  have hpasses : ∀ listing ∈ listings py events, listing.eligible py cfg = true →
      listing ∈ (listings py events).filter (Listing.passes py cfg) := by
    intro listing hmem heligible
    obtain ⟨volume24h, hvolume⟩ := hexact listing hmem
    exact List.mem_filter.2 ⟨hmem, ((eligible_iff hvolume).1 heligible).1⟩
  constructor
  · intro htop
    refine ⟨?_, fun assetId listing hget => ?_, fun listing hmem heligible hout assetId hsome => ?_⟩
    · have hcount := htop.count
      rw [hlength] at hcount
      rw [goodKeys_passes hexact]
      omega
    · obtain ⟨hmem, hasset⟩ := OrderedMap.get_keyBy_mem hget
      have hin := mem_of_mem_topListings hmem
      obtain ⟨other, hother, heligible, -, hmade⟩ := htop.eligible assetId (listing.made py)
        (by rw [get_made, hget]; rfl)
      obtain ⟨volume24h, hvolume⟩ := hexact other hother
      obtain ⟨liquidity, hliquidity⟩ := Option.isSome_iff_exists.1 (hread other hother)
      obtain ⟨hpass, hnan⟩ := (eligible_iff hvolume).1 heligible
      rw [candidate_eq hvolume hliquidity, if_pos hpass] at hmade
      have hsame := Option.some.inj (Option.some.inj hmade)
      obtain ⟨volume24h', hvolume'⟩ := hexact listing hin.1
      refine ⟨List.mem_filter.2 hin, (eligible_iff hvolume').2 ⟨hin.2, fun h => hnan ?_⟩, hasset⟩
      rw [← made_nan, hsame]
      exact made_nan.2 h
    · obtain ⟨other, hother, heligible', hasset, hle⟩ := htop.best listing
        (List.mem_filter.1 hmem).1 heligible (by rw [get_made, hout]; rfl) assetId
        (by rw [get_made, Option.isSome_map]; exact hsome)
      exact ⟨other, hpasses other hother heligible', heligible', hasset, hle⟩
  · intro htop
    refine ⟨?_, fun assetId market hget => ?_, fun listing hmem heligible hout assetId hsome => ?_⟩
    · have hcount := htop.count
      rw [goodKeys_passes hexact] at hcount
      rw [hlength]
      omega
    · rw [get_made] at hget
      obtain ⟨listing, hfound, rfl⟩ := Option.map_eq_some_iff.1 hget
      obtain ⟨hmem, heligible, hasset⟩ := htop.found assetId listing hfound
      obtain ⟨hin, hpass⟩ := List.mem_filter.1 hmem
      obtain ⟨volume24h, hvolume⟩ := hexact listing hin
      obtain ⟨liquidity, hliquidity⟩ := Option.isSome_iff_exists.1 (hread listing hin)
      exact ⟨listing, hin, heligible, hasset, by rw [candidate_eq hvolume hliquidity, if_pos hpass]⟩
    · rw [get_made] at hout hsome
      rw [Option.isSome_map] at hsome
      obtain ⟨other, hother, heligible', hasset, hle⟩ := htop.best listing
        (hpasses listing hmem heligible) heligible (Option.map_eq_none_iff.1 hout) assetId hsome
      exact ⟨other, (List.mem_filter.1 hother).1, heligible', hasset, hle⟩

end Loop

/-- With exact volumes, the result is of the best eligible assets just if the limit is not negative,
every liquidity is read, what stays of the first listings has a liquidity that is a number, and either
no asset is among the first listings twice or no eligible asset is missing among them. -/
theorem topMarkets_iff (py : FeedBuiltins) (cfg : GatekeeperConfig) (events : List Fields)
    (hexact : ExactVolumes py events) :
    (∃ tracked, extractTrackedMarkets py cfg events = some tracked ∧
        TopMarkets py cfg events tracked) ↔
      0 ≤ cfg.maxMarkets ∧
        (∀ listing ∈ listings py events, (listing.liquidity py).isSome = true) ∧
        (∀ assetId listing, (OrderedMap.keyBy Listing.assetId (topListings py cfg events)).get
          assetId = some listing → listing.liquidity py ≠ some .nan) ∧
        (((topListings py cfg events).map Listing.assetId).Nodup ∨
          ∀ listing ∈ listings py events, listing.eligible py cfg = true →
            listing.assetId ∈ (topListings py cfg events).map Listing.assetId) := by
  constructor
  · rintro ⟨tracked, hextract, htop⟩
    have hlimit : 0 ≤ cfg.maxMarkets := by
      have hcount := htop.count
      omega
    have hread : ∀ listing ∈ listings py events, (listing.liquidity py).isSome = true := by
      intro listing hmem
      by_contra hnone
      unfold extractTrackedMarkets at hextract
      rw [candidates_none hmem (Option.not_isSome_iff_eq_none.1 hnone)] at hextract
      exact nomatch hextract
    rw [extractTrackedMarkets_eq hexact hread hlimit] at hextract
    obtain rfl := Option.some.inj hextract
    obtain ⟨hgood, hcases⟩ := isTop_keyBy_iff.1 ((topMarkets_made hexact hread hlimit).1 htop)
    refine ⟨hlimit, hread, fun assetId listing hget => ?_, ?_⟩
    · obtain ⟨hmem, -⟩ := mem_of_mem_topListings (OrderedMap.get_keyBy_mem hget).1
      obtain ⟨volume24h, hvolume⟩ := hexact listing hmem
      exact ((eligible_iff hvolume).1 (hgood assetId listing hget)).2
    · refine hcases.imp_right fun hcover listing hmem heligible => ?_
      obtain ⟨volume24h, hvolume⟩ := hexact listing hmem
      exact hcover listing (List.mem_filter.2 ⟨hmem, ((eligible_iff hvolume).1 heligible).1⟩)
        heligible
  · rintro ⟨hlimit, hread, hnumbers, hcases⟩
    refine ⟨_, extractTrackedMarkets_eq hexact hread hlimit,
      (topMarkets_made hexact hread hlimit).2 (isTop_keyBy_iff.2 ⟨fun assetId listing hget => ?_, ?_⟩)⟩
    · obtain ⟨hmem, hpass⟩ := mem_of_mem_topListings (OrderedMap.get_keyBy_mem hget).1
      obtain ⟨volume24h, hvolume⟩ := hexact listing hmem
      exact (eligible_iff hvolume).2 ⟨hpass, hnumbers assetId listing hget⟩
    · exact hcases.imp_right fun hcover listing hmem => hcover listing (List.mem_filter.1 hmem).1

namespace Sample

/-- Texts of lists are not decoded. -/
def feedBuiltins : FeedBuiltins where
  toTextBuiltins := textBuiltins
  lower s := .ofList (s.toList.map Char.toLower)
  loads _ := none

def gatekeeperConfig (maxMarkets : ℤ) : GatekeeperConfig where
  minVolume24h := 10000
  minLiquidity := 5000
  maxMarkets := maxMarkets
  excludedCategories := ["Sports"]
  excludedTagSlugs := ["sports"]

def market (token : String) (volume24h : ℤ) : Value :=
  .dict [("outcomes", .list [.str "Yes", .str "No"]),
    ("clob_token_ids", .list [.str token, .str "no"]), ("volume24hr", .int volume24h),
    ("liquidity", .int 15000), ("active", .bool true), ("closed", .bool false)]

/-- The first market is listed in two events. -/
def repeated : List Fields :=
  [[("id", .str "evt-1"), ("markets", .list [market "yes-1" 25000, market "yes-2" 20000])],
    [("id", .str "evt-2"), ("markets", .list [market "yes-1" 25000])]]

end Sample

/-- With room for two markets, the one that is listed twice is all that is tracked. -/
theorem repeated_not_top :
    ¬ ∃ tracked, extractTrackedMarkets Sample.feedBuiltins (Sample.gatekeeperConfig 2)
        Sample.repeated = some tracked ∧
      TopMarkets Sample.feedBuiltins (Sample.gatekeeperConfig 2) Sample.repeated tracked := by
  have hone : (extractTrackedMarkets Sample.feedBuiltins (Sample.gatekeeperConfig 2)
      Sample.repeated).map (fun tracked => tracked.items.map Prod.fst) = some ["yes-1"] := by
    decide +kernel
  have htwo : (eligibleAssets Sample.feedBuiltins (Sample.gatekeeperConfig 2)
      Sample.repeated).card = 2 := by
    decide +kernel
  rintro ⟨tracked, hextract, htop⟩
  rw [hextract] at hone
  have hlength := congrArg List.length (Option.some.inj hone)
  have hcount := htop.count
  rw [List.length_map] at hlength
  rw [hlength, htwo] at hcount
  exact absurd hcount (by decide)

/-- With room for one market, it is the best of the two. -/
theorem repeated_top_one :
    ∃ tracked, extractTrackedMarkets Sample.feedBuiltins (Sample.gatekeeperConfig 1)
        Sample.repeated = some tracked ∧
      TopMarkets Sample.feedBuiltins (Sample.gatekeeperConfig 1) Sample.repeated tracked := by
  have hvolumes : ∀ listing ∈ listings Sample.feedBuiltins Sample.repeated,
      listing.volume24h Sample.feedBuiltins = some (.finite 25000) ∨
        listing.volume24h Sample.feedBuiltins = some (.finite 20000) := by decide +kernel
  have hnumbers : ∀ listing ∈ topListings Sample.feedBuiltins (Sample.gatekeeperConfig 1)
      Sample.repeated, listing.liquidity Sample.feedBuiltins ≠ some .nan := by decide +kernel
  refine (topMarkets_iff _ _ _ fun listing hmem => ?_).2 ⟨by decide, by decide +kernel,
    fun assetId listing hget => ?_, .inl (by decide +kernel)⟩
  · rcases hvolumes listing hmem with h | h
    · exact ⟨_, h⟩
    · exact ⟨_, h⟩
  · exact hnumbers listing (OrderedMap.get_keyBy_mem hget).1

end Sentinel.Ingestion
