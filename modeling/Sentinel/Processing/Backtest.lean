import Sentinel.Processing.Scan
import Sentinel.Storage.Retention

/-!
# The backtest

`scripts/backtest.py` seeds a store in memory with the markets of the archive and replays its ticks
to a detector: `ReplayStream` reads the rows in the order of their times, sets the `VirtualClock` to
each before it hands it on, and after every tick there is a scan.

* `backtestStep`: the loop of `_run_backtest`, with what the detector, the store and the stream do.
* `recomputeStep`: after every tick all ticks are looked through anew.
* `backtest_recomputed`: both raise the same alerts, and the store is left with the ticks of the
  markets that it was seeded with.
-/

namespace Sentinel.Processing

open Logic Ingestion ShiftDetector

/-! ## The replay -/

/-- A row of the query as a tick; the slug of the market is not selected. -/
def ReplayStream.tick (row : Storage.PriceTick) : PriceTick :=
  { assetId := row.assetId, price := row.price, bestBid := row.bestBid, bestAsk := row.bestAsk
    spread := row.spread, signalSource := row.signalSource, quoteTsMs := row.quoteTsMs
    timestampMs := row.tsMs }

/-- The seconds that the stream sleeps before a tick. -/
def ReplayStream.delay (speed : ℚ) (previousTsMs : Option ℤ) (timestampMs : ℤ) : ℚ :=
  match previousTsMs with
  | none => 0
  | some previousTsMs =>
    if 0 < max speed 0 then max ((timestampMs - previousTsMs : ℚ) / 1000 / max speed 0) 0 else 0

/-- `latest_by_asset` of `_seed_market_metadata`, from the files in the order of their paths. -/
def latestByAsset (snapshots : List (List MarketMetadata)) : OrderedMap String MarketMetadata :=
  snapshots.flatten.foldl (fun latest market => latest.set market.assetId market) .empty

/-- The cache of the store when it is seeded; none if the table does not take the markets. -/
def seedMarketMetadata (snapshots : List (List MarketMetadata)) : Option Storage.MarketCache :=
  let markets := (latestByAsset snapshots).items.map Prod.snd
  if markets.all Storage.storable then some (Storage.cacheUpserts .empty markets) else none

structure Backtest : Type where
  detector : ShiftDetector
  cache : Storage.MarketCache
  seenAssets : List String
  /-- The virtual clock. -/
  clockMs : ℤ
  previousTsMs : Option ℤ
  /-- How long the stream has slept. -/
  sleptSec : ℚ
  priceTicks : Storage.PriceTicks
  shiftEvents : List Storage.ShiftEvent
  alerts : List ShiftAlert

def startBacktest (cache : Storage.MarketCache) : Backtest :=
  { detector := emptyDetector, cache := cache, seenAssets := [], clockMs := 0, previousTsMs := none
    sleptSec := 0, priceTicks := [], shiftEvents := [], alerts := [] }

section Definitions

variable (py : AlertBuiltins) (cfg : DetectorConfig)

/-- An asset of the store that has had no tick yet. -/
def Backtest.isNew (b : Backtest) (assetId : String) : Prop :=
  assetId ∉ b.seenAssets ∧ (b.cache.get assetId).isSome

instance (b : Backtest) (assetId : String) : Decidable (b.isNew assetId) :=
  inferInstanceAs (Decidable (_ ∧ _))

/-- The cache after `set_market_active`, which is called at the first tick of an asset. -/
def Backtest.activated (b : Backtest) (tick : PriceTick) : Storage.MarketCache :=
  if b.isNew tick.assetId then Storage.cacheActive b.cache [tick.assetId] true tick.timestampMs
  else b.cache

/-- The cache after `update_last_tick`, which `ingest_tick` calls if the market is known. -/
def tickedCache (cache : Storage.MarketCache) (tick : PriceTick) : Storage.MarketCache :=
  if (cache.get tick.assetId).isSome then Storage.cacheTick cache tick.assetId tick.timestampMs
  else cache

/-- One turn of the loop.  Nothing else runs, so that every operation of the store is finished before
the next one begins. -/
def backtestStep (speed : ℚ) (b : Backtest) (row : Storage.PriceTick) : Backtest :=
  let tick := ReplayStream.tick row
  let nowMs := tick.timestampMs
  let cache := b.activated tick
  let scan := scanOnce py cfg nowMs (tickedCache cache tick).get (b.detector.ingestTick cfg nowMs tick)
  { detector := scan.1
    cache := tickedCache cache tick
    seenAssets := if b.isNew tick.assetId then b.seenAssets ++ [tick.assetId] else b.seenAssets
    clockMs := nowMs
    previousTsMs := some nowMs
    sleptSec := b.sleptSec + ReplayStream.delay speed b.previousTsMs nowMs
    priceTicks := b.priceTicks ++
      ((cache.get tick.assetId).map fun m => { row with marketSlug := m.marketSlug }).toList
    shiftEvents := b.shiftEvents ++ scan.2.filterMap fun (_, e) => Storage.ShiftEvent.ofAlert e.alert
    alerts := b.alerts ++ scan.2.map fun (_, e) => e.alert }

def backtest (speed : ℚ) (cache : Storage.MarketCache) (rows : List Storage.PriceTick) : Backtest :=
  rows.foldl (backtestStep py cfg speed) (startBacktest cache)

/-! ## From scratch -/

/-- The market of an asset in the last of the snapshots that has it. -/
def lastMarket (snapshots : List (List MarketMetadata)) (a : String) : Option MarketMetadata :=
  snapshots.flatten.reverse.find? fun market => market.assetId = a

def ofAsset (a : String) (ticks : List PriceTick) : List PriceTick := ticks.filter fun t => t.assetId = a

/-- A market whose asset had these ticks: it is subscribed from the first of them on. -/
def replayedMarket (ticks : List PriceTick) (market : MarketMetadata) : MarketMetadata :=
  match ticks.head?, ticks.getLast? with
  | some first, some last =>
    { market with
      active := true, subscribedAtMs := first.timestampMs, lastTickMs := last.timestampMs }
  | _, _ => market

structure Recomputed : Type where
  ticks : List PriceTick
  raised : List (ℤ × String × AlertLevel)
  alerts : List ShiftAlert

/-- For every asset that had a tick, what all its ticks tell at the time of the last one. -/
def recomputeStep (snapshots : List (List MarketMetadata)) (r : Recomputed) (tick : PriceTick) :
    Recomputed :=
  let ticks := r.ticks ++ [tick]
  let found := (ticks.map PriceTick.assetId).dedup.flatMap fun a =>
    (raisedBy py cfg tick.timestampMs r.raised
      ((lastMarket snapshots a).map (replayedMarket (ofAsset a ticks))) (ofAsset a ticks) a).map
        fun e => (a, e)
  { ticks := ticks
    raised := r.raised ++ raisedKeys tick.timestampMs found
    alerts := r.alerts ++ found.map fun (_, e) => e.alert }

def recompute (snapshots : List (List MarketMetadata)) (ticks : List PriceTick) : Recomputed :=
  ticks.foldl (recomputeStep py cfg snapshots) ⟨[], [], []⟩

end Definitions

/-- How long the replay of rows takes: the time from the first to the last, at the given speed. -/
def replaySec (speed : ℚ) (rows : List Storage.PriceTick) : ℚ :=
  match rows.head?, rows.getLast? with
  | some first, some last => if 0 < speed then (last.tsMs - first.tsMs : ℚ) / 1000 / speed else 0
  | _, _ => 0

/-- The rows whose markets are known, with the slugs of these. -/
def knownRows (snapshots : List (List MarketMetadata)) (rows : List Storage.PriceTick) :
    List Storage.PriceTick :=
  rows.filterMap fun row =>
    (lastMarket snapshots row.assetId).map fun m => { row with marketSlug := m.marketSlug }

/-! ## The markets -/

section Markets

variable {snapshots : List (List MarketMetadata)} {ms : List MarketMetadata} {a : String}

theorem get_latest (ms : List MarketMetadata) :
    (ms.foldl (fun latest market => OrderedMap.set latest market.assetId market) .empty).get a =
      ms.reverse.find? fun market => market.assetId = a := by
  induction ms using List.reverseRecOn with
  | nil => rfl
  | append_singleton ms m ih =>
    rw [List.foldl_append, List.reverse_append]
    show OrderedMap.get (OrderedMap.set _ m.assetId m) a = (m :: ms.reverse).find? _
    rw [OrderedMap.get_set, ih, List.find?_cons]
    by_cases ha : a = m.assetId
    · simp [ha]
    · simp [ha, Ne.symm ha]

/-- An upsert into a cache that has none of the assets stores the markets as they are. -/
theorem upserts_items {items : List (String × MarketMetadata)} {M : Storage.Markets}
    (hnodup : (items.map Prod.fst).Nodup) (hkey : ∀ i ∈ items, i.2.assetId = i.1)
    (hnew : ∀ i ∈ items, M i.1 = none) :
    Storage.Markets.upserts M (items.map Prod.snd) a = (items.lookup a).or (M a) := by
  induction items generalizing M with
  | nil => rfl
  | cons i items ih =>
    obtain ⟨k, m⟩ := i
    obtain ⟨hfirst, hrest⟩ := List.nodup_cons.mp hnodup
    obtain rfl : m.assetId = k := hkey (k, m) List.mem_cons_self
    have hupsert : Storage.Markets.upsert M m = Function.update M m.assetId (some m) := by
      rw [Storage.Markets.upsert, hnew (m.assetId, m) List.mem_cons_self]
      rfl
    have hne : ∀ i ∈ items, i.1 ≠ m.assetId := by
      intro i hi heq
      have hmem : i.1 ∈ items.map Prod.fst := List.mem_map_of_mem hi
      rw [heq] at hmem
      exact hfirst hmem
    have hnew' : ∀ i ∈ items, Function.update M m.assetId (some m) i.1 = none := by
      intro i hi
      rw [Function.update_of_ne (hne i hi)]
      exact hnew i (List.mem_cons_of_mem _ hi)
    show Storage.Markets.upserts (Storage.Markets.upsert M m) (items.map Prod.snd) a = _
    rw [hupsert, ih hrest (fun i hi => hkey i (List.mem_cons_of_mem _ hi)) hnew',
      OrderedMap.lookup_cons_if]
    by_cases ha : a = m.assetId
    · subst ha
      have hnone : items.lookup m.assetId = none := by
        rw [List.lookup_eq_none_iff]
        intro i hi
        simpa using (hne i hi).symm
      rw [hnone, if_pos rfl, Function.update_self]
      rfl
    · rw [if_neg ha, Function.update_of_ne ha]

/-- The cache holds for each asset the market of the last snapshot that has it. -/
theorem get_seed {cache : Storage.MarketCache} (h : seedMarketMetadata snapshots = some cache)
    (a : String) : cache.get a = lastMarket snapshots a := by
  dsimp only [seedMarketMetadata] at h
  split_ifs at h
  obtain rfl := Option.some.inj h
  have hget : ∀ a, (latestByAsset snapshots).get a = lastMarket snapshots a :=
    fun _ => get_latest snapshots.flatten
  rw [Storage.get_cacheUpserts, ← hget, upserts_items (latestByAsset snapshots).nodup ?_ fun _ _ => rfl]
  · exact Option.or_none
  · rintro ⟨k, m⟩ hi
    have hfound := OrderedMap.get_eq_some_iff.mpr hi
    rw [hget] at hfound
    simpa using List.find?_some hfound

end Markets

/-! ## The loop -/

section Loop

variable {py : AlertBuiltins} {cfg : DetectorConfig} {snapshots : List (List MarketMetadata)}
  {speed : ℚ} {b : Backtest} {r : Recomputed} {row : Storage.PriceTick} {tick : PriceTick}
  {ticks : List PriceTick} {a : String}

theorem InOrder.ofAsset (h : InOrder ticks) (a : String) : InOrder (ofAsset a ticks) := h.filter _

theorem ofAsset_append : ofAsset a (ticks ++ [tick]) =
    if a = tick.assetId then ofAsset a ticks ++ [tick] else ofAsset a ticks := by
  unfold ofAsset
  rw [List.filter_append]
  split_ifs with ha
  · rw [ha, List.filter_cons_of_pos (by simp), List.filter_nil]
  · rw [List.filter_cons_of_neg (by simpa using Ne.symm ha), List.filter_nil, List.append_nil]

theorem ofAsset_update : (fun a => ofAsset a (ticks ++ [tick])) = Function.update
    (fun a => ofAsset a ticks) tick.assetId (ofAsset tick.assetId ticks ++ [tick]) := by
  funext a
  rw [ofAsset_append, Function.update_apply]
  split_ifs with ha
  · rw [ha]
  · rfl

/-- What was replayed, and the alerts of it, are the same. -/
structure Agrees (cfg : DetectorConfig) (snapshots : List (List MarketMetadata)) (b : Backtest)
    (r : Recomputed) : Prop where
  ordered : InOrder r.ticks
  cache : ∀ a, b.cache.get a = (lastMarket snapshots a).map (replayedMarket (ofAsset a r.ticks))
  seen : ∀ a, (lastMarket snapshots a).isSome → (a ∈ b.seenAssets ↔ ofAsset a r.ticks ≠ [])
  mirrors : ∀ nowMs, (∀ t ∈ r.ticks, t.timestampMs ≤ nowMs) →
    Mirrors cfg nowMs b.detector fun a => ofAsset a r.ticks
  /-- The order of the alerts of one scan may differ. -/
  pauses : ∃ passed, passed.Perm r.raised ∧ ∀ nowMs, (∀ t ∈ r.ticks, t.timestampMs ≤ nowMs) →
    Pauses (cooldownMs cfg) b.detector.cooldowns passed nowMs
  alerts : b.alerts.Perm r.alerts

theorem get_activated (b : Backtest) (tick : PriceTick) (a : String) : (b.activated tick).get a =
    if a = tick.assetId ∧ a ∉ b.seenAssets then
      (b.cache.get a).map (Storage.setActive true tick.timestampMs) else b.cache.get a := by
  unfold Backtest.activated
  by_cases hnew : b.isNew tick.assetId
  · rw [if_pos hnew, Storage.get_cacheActive, Storage.Markets.change]
    by_cases ha : a = tick.assetId
    · rw [if_pos (List.mem_singleton.mpr ha), if_pos ⟨ha, ha ▸ hnew.1⟩]
    · rw [if_neg (mt List.mem_singleton.mp ha), if_neg fun h => ha h.1]
  · rw [if_neg hnew]
    split_ifs with h
    · obtain ⟨rfl, hseen⟩ := h
      have hnone : b.cache.get tick.assetId = none :=
        Option.not_isSome_iff_eq_none.mp fun hthere => hnew ⟨hseen, hthere⟩
      rw [hnone]
      rfl
    · rfl

theorem get_tickedCache (cache : Storage.MarketCache) (tick : PriceTick) (a : String) :
    (tickedCache cache tick).get a = if a = tick.assetId then
      (cache.get a).map (fun m => { m with lastTickMs := tick.timestampMs }) else cache.get a := by
  unfold tickedCache
  split_ifs with hthere ha
  · rw [Storage.get_cacheTick, Storage.Markets.change, if_pos ha]
  · rw [Storage.get_cacheTick, Storage.Markets.change, if_neg ha]
  · rw [‹a = _›, Option.not_isSome_iff_eq_none.mp hthere]
    rfl
  · rfl

theorem replayedMarket_cons {first : PriceTick} (market : MarketMetadata) :
    replayedMarket (first :: ticks ++ [tick]) market = { market with
      active := true, subscribedAtMs := first.timestampMs, lastTickMs := tick.timestampMs } := by
  unfold replayedMarket
  rw [List.getLast?_concat]
  rfl

/-- The market of the tick is subscribed at the first one, and its time is noted at every one. -/
theorem Agrees.cache_step (h : Agrees cfg snapshots b r) (tick : PriceTick) (a : String) :
    (tickedCache (b.activated tick) tick).get a =
      (lastMarket snapshots a).map (replayedMarket (ofAsset a (r.ticks ++ [tick]))) := by
  rw [get_tickedCache, get_activated, h.cache, ofAsset_append]
  by_cases ha : a = tick.assetId
  · rw [if_pos ha, if_pos ha]
    cases hmarket : lastMarket snapshots a with
    | none =>
      split_ifs <;> rfl
    | some market =>
      have hseen := h.seen a (by rw [hmarket]; rfl)
      cases hold : ofAsset a r.ticks with
      | nil =>
        rw [if_pos ⟨ha, mt hseen.mp (not_not.mpr hold)⟩]
        rfl
      | cons first rest =>
        have hin : a ∈ b.seenAssets := hseen.mpr (by rw [hold]; exact List.cons_ne_nil _ _)
        obtain ⟨last, hlast⟩ : ∃ last, (first :: rest).getLast? = some last :=
          ⟨_, List.getLast?_eq_some_getLast (List.cons_ne_nil _ _)⟩
        rw [if_neg (fun hnew => hnew.2 hin), Option.map_some, Option.map_some, Option.map_some,
          replayedMarket_cons, replayedMarket, hlast]
        rfl
  · rw [if_neg ha, if_neg (fun h => ha h.1), if_neg ha]

theorem Agrees.seen_step (h : Agrees cfg snapshots b r) (tick : PriceTick)
    (hmarket : (lastMarket snapshots a).isSome) :
    a ∈ (if b.isNew tick.assetId then b.seenAssets ++ [tick.assetId] else b.seenAssets) ↔
      ofAsset a (r.ticks ++ [tick]) ≠ [] := by
  have hseen := h.seen a hmarket
  rw [ofAsset_append]
  by_cases ha : a = tick.assetId
  · have hthere : (b.cache.get tick.assetId).isSome := by
      rw [← ha, h.cache, Option.isSome_map]
      exact hmarket
    rw [if_pos ha]
    refine iff_of_true ?_ (by simp)
    split_ifs with hnew
    · rw [ha]
      exact List.mem_append_right _ List.mem_cons_self
    · by_contra hunseen
      rw [ha] at hunseen
      exact hnew ⟨hunseen, hthere⟩
  · rw [if_neg ha, ← hseen]
    split_ifs
    · simp [ha]
    · rfl

/-- What has nothing to give may be left out of a list. -/
theorem flatMap_perm {α β : Type} [DecidableEq α] {part all : List α} {f : α → List β}
    (hpart : part.Nodup) (hall : all.Nodup) (hsub : ∀ x ∈ part, x ∈ all)
    (hnil : ∀ x ∈ all, x ∉ part → f x = []) : (part.flatMap f).Perm (all.flatMap f) := by
  have hfilter : ∀ l : List α, (∀ x ∈ l, x ∉ part → f x = []) →
      l.flatMap f = (l.filter fun x => x ∈ part).flatMap f := by
    intro l hl
    induction l with
    | nil => rfl
    | cons x l ih =>
      have ih := ih fun y hy => hl y (List.mem_cons_of_mem _ hy)
      by_cases hx : x ∈ part
      · rw [List.filter_cons_of_pos (by simpa using hx), List.flatMap_cons, List.flatMap_cons, ih]
      · rw [List.filter_cons_of_neg (by simpa using hx), List.flatMap_cons,
          hl x List.mem_cons_self hx, List.nil_append, ih]
  have hperm : part.Perm (all.filter fun x => x ∈ part) := by
    refine (List.perm_ext_iff_of_nodup hpart (hall.filter _)).mpr fun x => ?_
    rw [List.mem_filter, decide_eq_true_eq]
    exact ⟨fun hx => ⟨hsub x hx, hx⟩, And.right⟩
  rw [hfilter all hnil]
  exact hperm.flatMap_right f

theorem Agrees.step (h : Agrees cfg snapshots b r) (row : Storage.PriceTick)
    (hle : ∀ t ∈ r.ticks, t.timestampMs ≤ row.tsMs) :
    Agrees cfg snapshots (backtestStep py cfg speed b row)
      (recomputeStep py cfg snapshots r (ReplayStream.tick row)) := by
  generalize htick : ReplayStream.tick row = tick
  have hts : tick.timestampMs = row.tsMs := by rw [← htick]; rfl
  rw [← hts] at hle
  have hordered : InOrder (r.ticks ++ [tick]) := h.ordered.append hle
  have hmirrors : Mirrors cfg tick.timestampMs
      (b.detector.ingestTick cfg tick.timestampMs tick) fun a => ofAsset a (r.ticks ++ [tick]) := by
    rw [ofAsset_update]
    exact (h.mirrors _ hle).ingestTick (h.ordered.ofAsset _)
      fun t ht => hle t (List.mem_of_mem_filter ht)
  obtain ⟨passed, hpassed, hpauses⟩ := h.pauses
  have hbefore : Pauses (cooldownMs cfg)
      (b.detector.ingestTick cfg tick.timestampMs tick).cooldowns passed tick.timestampMs := by
    rw [cooldowns_ingestTick]
    exact hpauses _ hle
  have hmarkets : (tickedCache (b.activated tick) tick).get = fun a =>
      (lastMarket snapshots a).map (replayedMarket (ofAsset a (r.ticks ++ [tick]))) :=
    funext (h.cache_step tick)
  obtain ⟨hfound, hmirrors', hafter⟩ : (scanOnce py cfg tick.timestampMs
      (tickedCache (b.activated tick) tick).get
      (b.detector.ingestTick cfg tick.timestampMs tick)).2 = _ ∧ _ ∧ _ :=
    scanAssets_eq (OrderedMap.nodup _) _ hordered.ofAsset hmirrors hbefore
  -- the detector has forgotten assets, but those have nothing to raise
  have hsame : (scanOnce py cfg tick.timestampMs (tickedCache (b.activated tick) tick).get
      (b.detector.ingestTick cfg tick.timestampMs tick)).2.Perm
      (((r.ticks ++ [tick]).map PriceTick.assetId).dedup.flatMap fun a =>
        (raisedBy py cfg tick.timestampMs r.raised
          ((lastMarket snapshots a).map (replayedMarket (ofAsset a (r.ticks ++ [tick]))))
          (ofAsset a (r.ticks ++ [tick])) a).map fun e => (a, e)) := by
    rw [hfound, hmarkets, raisedBy_perm hpassed]
    refine flatMap_perm (OrderedMap.nodup _) (List.nodup_dedup _) (fun a ha => ?_) fun a _ ha => ?_
    · obtain ⟨hne, -⟩ := hmirrors.latest a (OrderedMap.mem_keys_iff.mp ha)
      obtain ⟨t, ht⟩ := List.exists_mem_of_ne_nil _ hne
      obtain ⟨ht, hasset⟩ := List.mem_filter.mp ht
      rw [List.mem_dedup, ← of_decide_eq_true hasset]
      exact List.mem_map_of_mem ht
    · have hnone : (b.detector.ingestTick cfg tick.timestampMs tick).barsByAsset.get a = none :=
        Option.not_isSome_iff_eq_none.mp (mt OrderedMap.mem_keys_iff.mpr ha)
      rw [raisedBy_nil (hmirrors.recent_nil (hordered.ofAsset a) hnone), List.map_nil]
  have hlast : ∀ {nowMs}, (∀ t ∈ r.ticks ++ [tick], t.timestampMs ≤ nowMs) →
      tick.timestampMs ≤ nowMs := fun hnow => hnow tick (by simp)
  unfold backtestStep
  dsimp only
  rw [htick]
  exact {
    ordered := hordered
    cache := h.cache_step tick
    seen := fun a hmarket => h.seen_step tick hmarket
    mirrors := fun nowMs hnow => hmirrors'.mono (hlast hnow)
    pauses := ⟨_, hpassed.append (hsame.map _), fun nowMs hnow => hafter.mono (hlast hnow)⟩
    alerts := h.alerts.append (hsame.map _) }

theorem agrees_start {cache : Storage.MarketCache} (hcache : ∀ a, cache.get a = lastMarket snapshots a) :
    Agrees cfg snapshots (startBacktest cache) ⟨[], [], []⟩ where
  ordered := List.Pairwise.nil
  cache a := by
    show cache.get a = _
    rw [hcache]
    exact Option.map_id'.symm
  seen a _ := ⟨fun h => absurd h List.not_mem_nil, fun h => absurd rfl h⟩
  mirrors _ _ := mirrors_empty
  pauses := ⟨[], List.Perm.refl _, fun _ _ => pauses_empty⟩
  alerts := List.Perm.refl _

theorem backtest_append (speed : ℚ) (cache : Storage.MarketCache) (rows : List Storage.PriceTick)
    (row : Storage.PriceTick) : backtest py cfg speed cache (rows ++ [row]) =
      backtestStep py cfg speed (backtest py cfg speed cache rows) row := by
  rw [backtest, List.foldl_append]
  rfl

theorem recompute_append (ticks : List PriceTick) (tick : PriceTick) :
    recompute py cfg snapshots (ticks ++ [tick]) =
      recomputeStep py cfg snapshots (recompute py cfg snapshots ticks) tick := by
  rw [recompute, List.foldl_append]
  rfl

theorem recompute_ticks (ticks : List PriceTick) :
    (recompute py cfg snapshots ticks).ticks = ticks := by
  induction ticks using List.reverseRecOn with
  | nil => rfl
  | append_singleton ticks tick ih =>
    rw [recompute_append]
    exact congrArg (· ++ [tick]) ih

/-- The rows come in the order of their times. -/
def RowsInOrder (rows : List Storage.PriceTick) : Prop := rows.Pairwise fun a b => a.tsMs ≤ b.tsMs

instance {rows : List Storage.PriceTick} : Decidable (RowsInOrder rows) :=
  inferInstanceAs (Decidable (rows.Pairwise _))

theorem agrees {cache : Storage.MarketCache} {rows : List Storage.PriceTick}
    (hcache : ∀ a, cache.get a = lastMarket snapshots a) (hrows : RowsInOrder rows) :
    Agrees cfg snapshots (backtest py cfg speed cache rows)
      (recompute py cfg snapshots (rows.map ReplayStream.tick)) := by
  induction rows using List.reverseRecOn with
  | nil => exact agrees_start hcache
  | append_singleton rows row ih =>
    obtain ⟨hinit, -, hle⟩ := List.pairwise_append.mp hrows
    rw [backtest_append, List.map_append]
    show Agrees cfg snapshots _ (recompute py cfg snapshots (_ ++ [ReplayStream.tick row]))
    rw [recompute_append]
    refine (ih hinit).step row fun t ht => ?_
    rw [recompute_ticks] at ht
    obtain ⟨row', hrow', rfl⟩ := List.mem_map.mp ht
    exact hle row' hrow' row (by simp)

/-- The slug of a market is that of its snapshot. -/
theorem Agrees.slug (h : Agrees cfg snapshots b r) (tick : PriceTick) :
    ((b.activated tick).get a).map MarketMetadata.marketSlug =
      (lastMarket snapshots a).map MarketMetadata.marketSlug := by
  have hreplayed : ∀ (ticks : List PriceTick) (market : MarketMetadata),
      (replayedMarket ticks market).marketSlug = market.marketSlug := by
    intro ticks market
    unfold replayedMarket
    split <;> rfl
  rw [get_activated, h.cache]
  cases lastMarket snapshots a with
  | none => split_ifs <;> rfl
  | some market => split_ifs <;> exact congrArg some (hreplayed _ market)

theorem backtest_priceTicks {cache : Storage.MarketCache} {rows : List Storage.PriceTick}
    (hcache : ∀ a, cache.get a = lastMarket snapshots a) (hrows : RowsInOrder rows) :
    (backtest py cfg speed cache rows).priceTicks = knownRows snapshots rows := by
  induction rows using List.reverseRecOn with
  | nil => rfl
  | append_singleton rows row ih =>
    have hinit : RowsInOrder rows := (List.pairwise_append.mp hrows).1
    have hagrees : Agrees cfg snapshots (backtest py cfg speed cache rows) _ := agrees hcache hinit
    have hslug := congrArg (Option.map fun slug => { row with marketSlug := slug })
      (hagrees.slug (a := row.assetId) (ReplayStream.tick row))
    rw [Option.map_map, Option.map_map] at hslug
    have hone : knownRows snapshots [row] = ((lastMarket snapshots row.assetId).map
        ((fun slug => { row with marketSlug := slug }) ∘ MarketMetadata.marketSlug)).toList := by
      unfold knownRows
      cases hmarket : lastMarket snapshots row.assetId with
      | none => simp [hmarket]
      | some market => simp [hmarket]
    have hsplit : knownRows snapshots (rows ++ [row]) =
        knownRows snapshots rows ++ knownRows snapshots [row] := List.filterMap_append
    rw [backtest_append, hsplit, hone, ← ih hinit, ← hslug]
    rfl

/-- Times that follow each other add up. -/
theorem backtest_sleptSec {cache : Storage.MarketCache} {rows : List Storage.PriceTick}
    (hrows : RowsInOrder rows) :
    (backtest py cfg speed cache rows).sleptSec = replaySec speed rows ∧
      (backtest py cfg speed cache rows).previousTsMs = rows.getLast?.map Storage.PriceTick.tsMs := by
  induction rows using List.reverseRecOn with
  | nil => exact ⟨rfl, rfl⟩
  | append_singleton rows row ih =>
    obtain ⟨hinit, -, hle⟩ := List.pairwise_append.mp hrows
    obtain ⟨hslept, hprevious⟩ := ih hinit
    rw [backtest_append, List.getLast?_concat]
    refine ⟨?_, rfl⟩
    show (backtest py cfg speed cache rows).sleptSec + ReplayStream.delay speed _ row.tsMs = _
    rw [hslept, hprevious, replaySec, replaySec, List.getLast?_concat]
    cases hlast : rows.getLast? with
    | none =>
      rw [List.getLast?_eq_none_iff.mp hlast]
      simp [ReplayStream.delay]
    | some last =>
      obtain ⟨first, hfirst⟩ : ∃ first, rows.head? = some first :=
        ⟨_, List.head?_eq_some_head (List.ne_nil_of_mem (List.mem_of_getLast? hlast))⟩
      have hforward : last.tsMs ≤ row.tsMs := hle last (List.mem_of_getLast? hlast) row (by simp)
      rw [List.head?_append, hfirst, Option.map_some, ReplayStream.delay]
      dsimp only [Option.some_or]
      by_cases hspeed : 0 < speed
      · have hgap : (0 : ℚ) ≤ (row.tsMs - last.tsMs) / 1000 / speed := by
          have hcast : (last.tsMs : ℚ) ≤ row.tsMs := by exact_mod_cast hforward
          have hdiff : (0 : ℚ) ≤ row.tsMs - last.tsMs := sub_nonneg.mpr hcast
          positivity
        rw [if_pos hspeed, if_pos hspeed, max_eq_left hspeed.le, if_pos hspeed, max_eq_left hgap]
        ring
      · rw [if_neg hspeed, if_neg hspeed, max_eq_right (not_lt.mp hspeed), if_neg (lt_irrefl _),
          add_zero]

end Loop

namespace Sample

/-- One market of two snapshots. -/
def snapshots : List (List MarketMetadata) :=
  [[Storage.Sample.market "a" "old"], [Storage.Sample.market "a" "q"]]

def archivedRow (assetId : String) (price : ℚ) (tsMs : ℤ) : Storage.PriceTick :=
  { assetId := assetId, marketSlug := "slug", price := price, bestBid := some (price - 1 / 100)
    bestAsk := some (price + 1 / 100), spread := some (1 / 50), signalSource := "midpoint"
    quoteTsMs := some tsMs, tsMs := tsMs }

/-- A shift, a tick of a market that is not known, a shift that is cooled down and one after that. -/
def archivedRows : List Storage.PriceTick :=
  [archivedRow "a" (1 / 10) 1000500, archivedRow "a" (1 / 5) 1001500,
    archivedRow "b" (1 / 2) 1001500, archivedRow "a" (1 / 4) 1030000,
    archivedRow "a" (2 / 5) 1062000]

end Sample

end Sentinel.Processing
