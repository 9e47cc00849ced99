import Sentinel.Processing.Backtest
import Sentinel.Storage.Snapshots

/-!
# From the archive to the backtest

A backtest on what the archiver has left gets the ticks back that the store has deleted, each with a
market to go with it.

* `lastMarket_latest`: the market of an asset is from the latest hour whose snapshot has the asset.
* `Restores`: the rows that come back, each of them once, and what the store then has of them.
* `archive_replayed`: along which runs they do.
-/

namespace Sentinel.Processing

open Logic Ingestion Storage

variable {cfg : StorageConfig} {s : ExportState} {hours : List ℤ} {rows : List PriceTickRow}
  {a : String} {m : MarketMetadata}

/-- What is found last is in some list, and in none after it. -/
theorem exists_last {α : Type} {p : α → Bool} {x : α} (lists : List (List α))
    (h : lists.flatten.reverse.find? p = some x) :
    ∃ before l after, lists = before ++ l :: after ∧ x ∈ l ∧ ∀ l' ∈ after, ∀ y ∈ l', ¬ p y := by
  induction lists using List.reverseRecOn with
  | nil => cases h
  | append_singleton lists l ih =>
    rw [List.flatten_append, List.flatten_singleton, List.reverse_append, List.find?_append] at h
    cases hlast : l.reverse.find? p with
    | some y =>
      rw [hlast, Option.some_or] at h
      obtain rfl := Option.some.inj h
      exact ⟨lists, l, [], rfl, List.mem_reverse.mp (List.mem_of_find?_eq_some hlast),
        fun _ h => absurd h List.not_mem_nil⟩
    | none =>
      rw [hlast, Option.none_or] at h
      obtain ⟨before, found, after, rfl, hx, hafter⟩ := ih h
      refine ⟨before, found, after ++ [l], by simp, hx, fun l' hl' => ?_⟩
      rcases List.mem_append.mp hl' with hl' | hl'
      · exact hafter l' hl'
      · rw [List.mem_singleton.mp hl']
        exact fun y hy => List.find?_eq_none.mp hlast y (List.mem_reverse.mpr hy)

/-- The snapshot of the hour has the market, and no later one has the asset. -/
def LatestOf (markets : ℤ → Option (List MarketMetadata)) (m : MarketMetadata) : Prop :=
  ∃ hour ms, markets hour = some ms ∧ m ∈ ms ∧
    ∀ later ms', hour < later → markets later = some ms' → ∀ m' ∈ ms', m'.assetId ≠ m.assetId

theorem lastMarket_latest (hinv : ExportInv cfg s) (hglob : Globbed s.markets hours)
    (h : lastMarket (contents s.markets hours) a = some m) :
    m.assetId = a ∧ LatestOf s.markets m := by
  have hasset : m.assetId = a := by simpa using List.find?_some h
  refine ⟨hasset, ?_⟩
  obtain ⟨before, l, after, hsplit, hm, hafter⟩ := exists_last _ h
  obtain ⟨earlier, rest, rfl, -, hrest⟩ := List.map_eq_append_iff.mp hsplit
  obtain ⟨hour, later, rfl, rfl, rfl⟩ := List.map_eq_cons_iff.mp hrest
  have hsome : ∀ h ∈ earlier ++ hour :: later, ∃ ms, s.markets h = some ms :=
    fun h hh => Option.isSome_iff_exists.mp ((hglob.found h).mp hh)
  obtain ⟨ms, hms⟩ := hsome hour (by simp)
  rw [hms] at hm
  refine ⟨hour, ms, hms, hm, fun next ms' hlt hms' m' hm' heq => ?_⟩
  -- the hours after this one come after it in the list
  have hnext : next ∈ earlier ++ hour :: later := (hglob.found next).mpr (by rw [hms']; rfl)
  obtain ⟨-, -, hbefore⟩ := List.pairwise_append.mp (hglob.ascending hinv)
  rcases List.mem_append.mp hnext with hnext | hnext
  · exact absurd (hbefore next hnext hour List.mem_cons_self) (lt_asymm hlt)
  · rcases List.mem_cons.mp hnext with rfl | hnext
    · exact lt_irrefl _ hlt
    · refine hafter ms' (List.mem_map.mpr ⟨next, hnext, by rw [hms']; rfl⟩) m' hm' ?_
      rw [heq, hasset]
      exact decide_eq_true rfl

/-- All markets of the snapshots can be stored. -/
theorem seed_isSome (hinv : ExportInv cfg s) (hglob : Globbed s.markets hours) :
    ∃ cache, seedMarketMetadata (contents s.markets hours) = some cache := by
  have hall : ((latestByAsset (contents s.markets hours)).items.map Prod.snd).all storable = true := by
    refine List.all_eq_true.mpr fun m hm => ?_
    obtain ⟨⟨a, m⟩, hitem, rfl⟩ := List.mem_map.mp hm
    have hget := OrderedMap.get_eq_some_iff.mpr hitem
    rw [latestByAsset, get_latest] at hget
    obtain ⟨-, hour, ms, hms, hmem, -⟩ := lastMarket_latest hinv hglob hget
    exact (hinv.snapshots hour ms hms).2 m hmem
  exact ⟨_, if_pos hall⟩

/-- Every tick that the query returns has a market. -/
theorem known_of_queried (hinv : ExportInv cfg s) (hwritten : s.hour = none)
    (hglob : Globbed s.markets hours) (hrows : Queried s.archive.disk rows) :
    ∀ row ∈ rows, ∃ m, lastMarket (contents s.markets hours) row.assetId = some m := by
  intro row hrow
  obtain ⟨hour, filed, hfiled, hmem⟩ := hrows.mem_iff.mp hrow
  have hnot : s.hour ≠ some hour := by
    rw [hwritten]
    simp
  obtain ⟨ms, hms, hlisted⟩ := (hinv.listed hour filed hfiled).resolve_left hnot
  obtain ⟨m, hm, hasset⟩ := hlisted row hmem
  refine Option.isSome_iff_exists.mp (List.find?_isSome.mpr ⟨m, ?_, decide_eq_true hasset⟩)
  rw [List.mem_reverse, List.mem_flatten]
  exact ⟨ms, List.mem_map.mpr ⟨hour, (hglob.found hour).mpr (by rw [hms]; rfl), by rw [hms]; rfl⟩, hm⟩

/-- Rows of known markets are all taken. -/
theorem knownRows_forall₂ {snapshots : List (List MarketMetadata)}
    (h : ∀ row ∈ rows, ∃ m, lastMarket snapshots row.assetId = some m) :
    List.Forall₂ (fun row tick => ∃ m, lastMarket snapshots row.assetId = some m ∧
        tick = { row.toPriceTick with marketSlug := m.marketSlug })
      rows (knownRows snapshots (rows.map PriceTickRow.toPriceTick)) := by
  induction rows with
  | nil => exact .nil
  | cons row rows ih =>
    obtain ⟨m, hm⟩ := h row List.mem_cons_self
    have ih := ih fun row' hrow' => h row' (List.mem_cons_of_mem _ hrow')
    unfold knownRows at ih ⊢
    rw [List.map_cons, List.filterMap_cons_some (by rw [hm]; rfl)]
    exact .cons ⟨m, hm, rfl⟩ ih

/-- What the store of a backtest has of the inserts, when these rows were replayed into it. -/
structure Restores (s : ExportState) (rows : List PriceTickRow) (ticks : List Storage.PriceTick) :
    Prop where
  /-- Every row that was deleted is read. -/
  complete : ∀ t ∈ s.archive.inserted, t ∉ s.archive.disk.priceTicks.rows → t ∈ rows
  sound : ∀ t ∈ rows, t ∈ s.archive.inserted
  once : rows.Nodup
  /-- Row by row the ticks are those of the rows; the slugs are those of the latest snapshots. -/
  replayed : List.Forall₂ (fun row tick => ∃ m, LatestOf s.markets m ∧ m.assetId = row.assetId ∧
    tick = { row.toPriceTick with marketSlug := m.marketSlug }) rows ticks

/-- Along a run in which the archiver loses no tick and no snapshot fails, a backtest can be seeded at
any time but between the two files of an hour; its store then gets every tick back whose row was
deleted, once for each row, and nothing that was not inserted. -/
theorem archive_replayed (py : AlertBuiltins) (detectorCfg : DetectorConfig) (speed : ℚ)
    (hret : 1 ≤ cfg.hotRetentionHours)
    (h : Reach (exportStep cfg) emptyExport (ExportsSafely cfg) s) (hwritten : s.hour = none)
    (hglob : Globbed s.markets hours) (hrows : Queried s.archive.disk rows) :
    s.archive.inserted.Nodup ∧
    ∃ cache, seedMarketMetadata (contents s.markets hours) = some cache ∧
      Restores s rows (backtest py detectorCfg speed cache
        (rows.map PriceTickRow.toPriceTick)).priceTicks := by
  have hinv := exportInv hret h
  obtain ⟨cache, hcache⟩ := seed_isSome hinv hglob
  refine ⟨hinv.archive.numbered.nodup, cache, hcache, ?_⟩
  rw [backtest_priceTicks (get_seed hcache) (List.pairwise_map.mpr hrows.sorted)]
  refine ⟨fun t ht hgone => ?_, fun t ht => ?_, hrows.nodup hinv, ?_⟩
  · obtain ⟨filed, hfiled, hmem⟩ := (hinv.archive.kept t ht).resolve_left hgone
    exact hrows.mem_iff.mpr ⟨_, filed, hfiled, hmem⟩
  · obtain ⟨hour, filed, hfiled, hmem⟩ := hrows.mem_iff.mp ht
    exact (hinv.archive.filed hour filed hfiled t hmem).1
  · refine (knownRows_forall₂ (known_of_queried hinv hwritten hglob hrows)).imp ?_
    rintro row tick ⟨m, hm, htick⟩
    obtain ⟨hasset, hlatest⟩ := lastMarket_latest hinv hglob hm
    exact ⟨m, hlatest, hasset, htick⟩

namespace Sample

def exportedMarket : MarketMetadata := Storage.Sample.market "asset-1" "q"

/-- The market is tracked, and three ticks of it are archived, of which two equal ones are deleted. -/
def exportedEvents : List ExportEvent :=
  .upsertTrackedMarkets [exportedMarket] ::
    (.insertPriceTick (tickAt 600000) :: firstExport).map .archive

def exportedRows : List PriceTickRow := [rowAt 600000 1, rowAt 600000 2, rowAt 3000000 3]

end Sample

theorem archive_replayed_deleted :
    let s := Sample.exportedEvents.foldl (exportStep ⟨1⟩) emptyExport
    s.archive.disk.priceTicks.rows = [rowAt 3000000 3] ∧
    s.archive.inserted.Nodup ∧
    ∃ cache, seedMarketMetadata (contents s.markets [0]) = some cache ∧
      Restores s Sample.exportedRows
        (backtest Sample.alertBuiltins Sample.detectorConfig 0 cache
          (Sample.exportedRows.map PriceTickRow.toPriceTick)).priceTicks := by
  intro s
  have hmarkets : s.markets = Function.update (fun _ : ℤ => none) 0 (some [Sample.exportedMarket]) := rfl
  have hparquet : s.archive.disk.parquet =
      Function.update (fun _ : ℤ => none) 0 (some Sample.exportedRows) := rfl
  have hret : 1 ≤ (⟨1⟩ : StorageConfig).hotRetentionHours := le_rfl
  refine ⟨by decide +kernel, archive_replayed _ _ _ hret (reach_of_allowed (by decide +kernel)) rfl
    ?_ ?_⟩
  · rw [hmarkets]
    refine ⟨fun h => ?_, List.nodup_singleton 0, fun h hh => ?_, List.pairwise_singleton _ _⟩
    · rw [List.mem_singleton, Function.update_apply]
      split_ifs with heq <;> simp [heq]
    · obtain rfl := List.mem_singleton.mp hh
      decide +kernel
  · refine ⟨⟨[0], List.nodup_singleton 0, fun h => ?_, ?_⟩, by decide +kernel⟩
    · rw [hparquet, List.mem_singleton, Function.update_apply]
      split_ifs with heq <;> simp [heq]
    · rw [hparquet]
      exact List.Perm.refl _

end Sentinel.Processing
