import Sentinel.Logic.Pause
import Sentinel.Processing.Cooldown
import Sentinel.Processing.Recent

/-!
# A scan of all assets

`scan_once` when no tick comes in and nothing is removed while it runs.

* `scanOnce`: the loop over the assets that are in the map when it begins.
* `raisedBy`: the alerts of an asset, told from its ticks and from the alerts before.
* `Mirrors`: the detector is up to date with the ticks.  A scan keeps it so, and raises just those
  alerts (`scanAssets_eq`).
-/

namespace Sentinel.Processing

open Logic Ingestion ShiftDetector

/-- The cooldown of an asset and a level. -/
def cooldownMs (cfg : DetectorConfig) : ℤ := cfg.cooldownSec * 1000

section Definitions

variable (py : AlertBuiltins) (cfg : DetectorConfig) (nowMs : ℤ)

/-- The loop over the assets, with the asset of each alert. -/
def ShiftDetector.scanAssets (markets : String → Option MarketMetadata) :
    ShiftDetector → List String → ShiftDetector × List (String × Emission)
  | d, [] => (d, [])
  | d, a :: assets =>
    let (d, found) := d.scanAsset py cfg nowMs (markets a) a
    let (d, rest) := scanAssets markets d assets
    (d, found.map (fun e => (a, e)) ++ rest)

def ShiftDetector.scanOnce (markets : String → Option MarketMetadata) (d : ShiftDetector) :
    ShiftDetector × List (String × Emission) :=
  d.scanAssets py cfg nowMs markets d.barsByAsset.keys

/-! ## From the ticks -/

/-- An alert of a level: what is due is raised unless the level still cools down from an alert that
was raised before. -/
def raisedAt (passed : List (ℤ × String × AlertLevel)) (market : MarketMetadata)
    (ticks : List PriceTick) (a : String) (level : AlertLevel) : Option Emission :=
  (due cfg nowMs market ticks level).bind fun delta =>
    if Free (cooldownMs cfg) passed (a, level) nowMs then
      ticks.getLast?.map fun latest =>
        ⟨level, delta, shiftAlert py cfg nowMs a level delta market latest⟩
    else none

def raisedBy (passed : List (ℤ × String × AlertLevel)) (market : Option MarketMetadata)
    (ticks : List PriceTick) (a : String) : List Emission :=
  market.elim [] fun market => scanOrder.filterMap (raisedAt py cfg nowMs passed market ticks a)

/-- What starts to cool down. -/
def raisedKeys (raised : List (String × Emission)) : List (ℤ × String × AlertLevel) :=
  raised.map fun (a, e) => (nowMs, a, e.level)

end Definitions

variable {py : AlertBuiltins} {cfg : DetectorConfig} {nowMs : ℤ} {d : ShiftDetector}
  {passed : List (ℤ × String × AlertLevel)} {market : MarketMetadata}
  {ticks : List PriceTick} {a b : String} {id : ℕ} {level : AlertLevel} {e : Emission}

theorem raisedAt_level (h : raisedAt py cfg nowMs passed market ticks a level = some e) :
    e.level = level := by
  obtain ⟨delta, -, h⟩ := Option.bind_eq_some_iff.mp h
  split_ifs at h
  obtain ⟨latest, -, rfl⟩ := Option.map_eq_some_iff.mp h
  rfl

theorem raisedAt_free (h : raisedAt py cfg nowMs passed market ticks a level = some e) :
    Free (cooldownMs cfg) passed (a, level) nowMs := by
  obtain ⟨delta, -, h⟩ := Option.bind_eq_some_iff.mp h
  split_ifs at h with hfree
  exact hfree

/-- Without recent ticks nothing is raised. -/
theorem raisedAt_nil (h : recent cfg nowMs ticks = []) (level : AlertLevel) :
    raisedAt py cfg nowMs passed market ticks a level = none := by
  have hnot : ¬ Readable cfg nowMs market (recent cfg nowMs ticks) := by
    rw [h]
    rintro ⟨⟨last, hlast, -⟩, -⟩
    exact absurd hlast (by simp)
  rw [raisedAt, due, if_neg hnot, Option.bind_none]

theorem raisedBy_nil (h : recent cfg nowMs ticks = []) (market : Option MarketMetadata) :
    raisedBy py cfg nowMs passed market ticks a = [] := by
  cases market with
  | none => rfl
  | some market => exact List.filterMap_eq_nil_iff.mpr fun level _ => raisedAt_nil h level

/-- Alerts of other assets make no difference. -/
theorem raisedBy_append {raised : List (String × Emission)} (h : ∀ r ∈ raised, r.1 ≠ a)
    (market : Option MarketMetadata) :
    raisedBy py cfg nowMs (passed ++ raisedKeys nowMs raised) market ticks a =
      raisedBy py cfg nowMs passed market ticks a := by
  have hfree : ∀ level, Free (cooldownMs cfg) (passed ++ raisedKeys nowMs raised) (a, level) nowMs ↔
      Free (cooldownMs cfg) passed (a, level) nowMs := by
    intro level
    rw [free_append]
    refine and_iff_left fun p hp heq => ?_
    obtain ⟨r, hr, rfl⟩ := List.mem_map.mp hp
    exact absurd (congrArg Prod.fst heq) (h r hr)
  unfold raisedBy raisedAt
  simp only [hfree]

theorem raisedBy_perm {passed' : List (ℤ × String × AlertLevel)} (h : passed.Perm passed') :
    raisedBy py cfg nowMs passed = raisedBy py cfg nowMs passed' := by
  unfold raisedBy raisedAt
  simp only [Free.perm h]

/-! ## One level, and all levels -/

/-- The map of the cooldowns says what the alerts before say. -/
def CooledBy (cfg : DetectorConfig) (nowMs : ℤ) (passed : List (ℤ × String × AlertLevel))
    (d : ShiftDetector) (key : String × AlertLevel) : Prop :=
  (d.cooldowns.get key).getD 0 ≤ nowMs ↔ Free (cooldownMs cfg) passed key nowMs

theorem maybeCreateAlert_eq (hordered : InOrder ticks)
    (hbars : d.bars id = grouped (recent cfg nowMs ticks))
    (hreadable : Readable cfg nowMs market (recent cfg nowMs ticks))
    (hlatest : d.latestTickByAsset.get a = ticks.getLast?)
    (hcooled : CooledBy cfg nowMs passed d (a, level)) :
    d.maybeCreateAlert py cfg nowMs (some market) a id level =
      match raisedAt py cfg nowMs passed market ticks a level with
      | none => (d, none)
      | some e =>
        ({ d with cooldowns := d.cooldowns.set (a, level) (nowMs + cooldownMs cfg) },
          some (e.delta, e.alert)) := by
  obtain ⟨last, hlast, -⟩ := hreadable.1
  obtain ⟨latest, hget⟩ : ∃ latest, ticks.getLast? = some latest :=
    ⟨_, List.getLast?_eq_some_getLast (List.ne_nil_of_mem
      (List.mem_of_mem_filter (List.mem_of_getLast? hlast)))⟩
  have hcompute : computeDelta (cfg.thresholds level) (grouped (recent cfg nowMs ticks)) =
      rawShift (cfg.thresholds level) (recent cfg nowMs ticks) :=
    computeDelta_grouped (hordered.filter _)
  rw [maybeCreateAlert, hbars, hcompute, hlatest, hget, raisedAt, due, if_pos hreadable, shown, hget]
  cases rawShift (cfg.thresholds level) (recent cfg nowMs ticks) with
  | none => rfl
  | some delta =>
    rw [Option.filter_some]
    by_cases hsmall : delta.deltaPct < (cfg.thresholds level).deltaPct
    · rw [if_neg (by simpa using hsmall)]
      simp [hsmall]
    · rw [if_pos (by simpa using hsmall), Option.bind_some]
      by_cases hcools : nowMs < (d.cooldowns.get (a, level)).getD 0
      · rw [if_neg (mt hcooled.mpr (not_le.mpr hcools))]
        simp [hsmall, hcools]
      · rw [if_pos (hcooled.mp (not_lt.mp hcools))]
        simp [hsmall, hcools, cooldownMs]

/-- The alerts of the levels one after the other; those that were raised cool down. -/
theorem scanLevels_eq {levels : List AlertLevel} (hnodup : levels.Nodup) (hordered : InOrder ticks)
    (hbars : d.bars id = grouped (recent cfg nowMs ticks))
    (hreadable : Readable cfg nowMs market (recent cfg nowMs ticks))
    (hlatest : d.latestTickByAsset.get a = ticks.getLast?)
    (hcooled : ∀ level ∈ levels, CooledBy cfg nowMs passed d (a, level)) :
    (scanLevels py cfg nowMs (some market) a id d levels).2 =
      levels.filterMap (raisedAt py cfg nowMs passed market ticks a) ∧
    ∀ key, (scanLevels py cfg nowMs (some market) a id d levels).1.cooldowns.get key =
      if key ∈ (levels.filterMap (raisedAt py cfg nowMs passed market ticks a)).map
        (fun e => (a, e.level)) then some (nowMs + cooldownMs cfg) else d.cooldowns.get key := by
  induction levels generalizing d with
  | nil => exact ⟨rfl, fun _ => rfl⟩
  | cons level levels ih =>
    obtain ⟨hnew, hnodup⟩ := List.nodup_cons.mp hnodup
    have hrest := fun l hl => hcooled l (List.mem_cons_of_mem _ hl)
    rw [scanLevels,
      maybeCreateAlert_eq hordered hbars hreadable hlatest (hcooled level List.mem_cons_self)]
    cases hraised : raisedAt py cfg nowMs passed market ticks a level with
    | none =>
      rw [List.filterMap_cons_none hraised]
      exact ih hnodup hbars hlatest hrest
    | some e =>
      rw [List.filterMap_cons_some hraised]
      dsimp only
      obtain ⟨hfound, hcooldowns⟩ := ih (d := { d with
        cooldowns := d.cooldowns.set (a, level) (nowMs + cooldownMs cfg) }) hnodup hbars hlatest
        fun l hl => by
          have hne : (a, l) ≠ (a, level) := by
            rintro heq
            obtain rfl := (Prod.mk.inj heq).2
            exact hnew hl
          unfold CooledBy
          rw [OrderedMap.get_set_ne hne]
          exact hrest l hl
      obtain rfl := raisedAt_level hraised
      refine ⟨by rw [hfound]; rfl, fun key => ?_⟩
      rw [hcooldowns, OrderedMap.get_set, List.map_cons]
      by_cases hkey : key = (a, e.level)
      · rw [if_pos hkey, ite_self, hkey, if_pos List.mem_cons_self]
      · rw [if_neg hkey]
        simp only [List.mem_cons, hkey, false_or]

theorem scanLevels_none (levels : List AlertLevel) :
    scanLevels py cfg nowMs none a id d levels = (d, []) := by
  induction levels with
  | nil => rfl
  | cons level levels ih =>
    have hone : d.maybeCreateAlert py cfg nowMs none a id level = (d, none) := by
      rw [maybeCreateAlert]
      cases computeDelta (cfg.thresholds level) (d.bars id) with
      | none => rfl
      | some delta =>
        dsimp only
        split_ifs <;> rfl
    rw [scanLevels, hone]
    dsimp only
    rw [ih]
    rfl

theorem scanLevels_latest (market : Option MarketMetadata) (levels : List AlertLevel) :
    (scanLevels py cfg nowMs market a id d levels).1.latestTickByAsset = d.latestTickByAsset := by
  induction levels generalizing d with
  | nil => rfl
  | cons level levels ih =>
    have hone : (d.maybeCreateAlert py cfg nowMs market a id level).1.latestTickByAsset =
        d.latestTickByAsset := by
      rw [maybeCreateAlert]
      cases computeDelta (cfg.thresholds level) (d.bars id) with
      | none => rfl
      | some delta =>
        dsimp only
        split_ifs
        · rfl
        · rfl
        · split <;> rfl
    exact ih.trans hone

/-! ## One asset, and all assets -/

/-- The detector is up to date with the ticks of all assets. -/
structure Mirrors (cfg : DetectorConfig) (nowMs : ℤ) (d : ShiftDetector)
    (ticks : String → List PriceTick) : Prop where
  deques : OwnDeques d
  remembers : ∀ a, Remembers cfg nowMs (assetBars d a) (ticks a)
  latest : ∀ a, (d.barsByAsset.get a).isSome →
    ticks a ≠ [] ∧ d.latestTickByAsset.get a = (ticks a).getLast?

section Assets

variable {ticks : String → List PriceTick}

/-- An asset that is not in the map has no recent ticks. -/
theorem Mirrors.recent_nil (h : Mirrors cfg nowMs d ticks) (hordered : InOrder (ticks a))
    (ha : d.barsByAsset.get a = none) : recent cfg nowMs (ticks a) = [] := by
  have hbars : assetBars d a = [] := by
    rw [assetBars, ha]
    rfl
  have hpruned := pruned_eq (h.remembers a) hordered
  rw [hbars] at hpruned
  exact grouped_eq_nil.mp hpruned.symm

/-- A scan takes assets off the map and leaves the latest ticks of the others. -/
theorem scanAsset_latest (market : Option MarketMetadata)
    (h : ((d.scanAsset py cfg nowMs market a).1.barsByAsset.get b).isSome) :
    (d.barsByAsset.get b).isSome ∧
      (d.scanAsset py cfg nowMs market a).1.latestTickByAsset.get b = d.latestTickByAsset.get b := by
  rw [scanAsset] at h ⊢
  cases ha : d.barsByAsset.get a with
  | none =>
    rw [ha] at h
    exact ⟨h, rfl⟩
  | some id =>
    rw [ha] at h
    have hopen : ((d.openAsset cfg nowMs market a id).1.barsByAsset.get b).isSome →
        (d.barsByAsset.get b).isSome ∧
        (d.openAsset cfg nowMs market a id).1.latestTickByAsset.get b = d.latestTickByAsset.get b := by
      rw [openAsset]
      dsimp only
      split_ifs
      · exact fun h => ⟨h, rfl⟩
      · rw [OrderedMap.get_erase, OrderedMap.get_erase]
        split_ifs with hb
        · exact fun h => absurd h (by simp)
        · exact fun h => ⟨h, rfl⟩
      · exact fun h => ⟨h, rfl⟩
    dsimp only at h ⊢
    split at h
    · next d' heq =>
      rw [heq] at hopen
      rw [(scanLevels_spec py cfg d' nowMs market a id scanOrder).2.1] at h
      rw [scanLevels_latest]
      exact hopen h
    · next d' heq =>
      rw [heq] at hopen
      exact hopen h

theorem mirrors_empty : Mirrors cfg nowMs emptyDetector fun _ => [] where
  deques := ⟨fun _ _ h => absurd h (by simp [emptyDetector]),
    fun _ _ _ h => absurd h (by simp [emptyDetector])⟩
  remembers _ := ⟨_, le_rfl, rfl⟩
  latest _ h := absurd h (by simp [emptyDetector])

theorem Mirrors.mono (h : Mirrors cfg nowMs d ticks) {laterMs : ℤ} (hle : nowMs ≤ laterMs) :
    Mirrors cfg laterMs d ticks where
  deques := h.deques
  remembers a := (h.remembers a).mono hle
  latest := h.latest

theorem Mirrors.ingestTick (h : Mirrors cfg nowMs d ticks) {tick : PriceTick}
    (hordered : InOrder (ticks tick.assetId))
    (hle : ∀ t ∈ ticks tick.assetId, t.timestampMs ≤ tick.timestampMs) :
    Mirrors cfg nowMs (d.ingestTick cfg nowMs tick)
      (Function.update ticks tick.assetId (ticks tick.assetId ++ [tick])) := by
  refine ⟨h.deques.ingestTick cfg, fun a => ?_, fun a ha => ?_⟩
  · rw [h.deques.assetBars_ingestTick cfg]
    by_cases heq : a = tick.assetId
    · rw [if_pos heq, heq, Function.update_self]
      exact (h.remembers tick.assetId).ingest hordered hle
    · rw [if_neg heq, Function.update_of_ne heq]
      exact h.remembers a
  · have hlatest : (d.ingestTick cfg nowMs tick).latestTickByAsset =
        d.latestTickByAsset.set tick.assetId tick := by
      rw [ShiftDetector.ingestTick]
      split <;> rfl
    have hmap : a ≠ tick.assetId →
        (d.ingestTick cfg nowMs tick).barsByAsset.get a = d.barsByAsset.get a := by
      intro hne
      rw [ShiftDetector.ingestTick]
      split
      · rfl
      · exact OrderedMap.get_set_ne hne
    rw [hlatest]
    by_cases heq : a = tick.assetId
    · rw [heq, Function.update_self, OrderedMap.get_set_self, List.getLast?_concat]
      exact ⟨by simp, rfl⟩
    · rw [Function.update_of_ne heq, OrderedMap.get_set_ne heq]
      rw [hmap heq] at ha
      exact h.latest a ha

theorem Mirrors.scanAsset (h : Mirrors cfg nowMs d ticks) (hordered : ∀ a, InOrder (ticks a))
    (market : Option MarketMetadata) (a : String) :
    Mirrors cfg nowMs (d.scanAsset py cfg nowMs market a).1 ticks := by
  obtain ⟨hdeques, hbars⟩ := h.deques.scanAsset py cfg nowMs market a
  refine ⟨hdeques, fun b => ?_, fun b hb => ?_⟩
  · rw [hbars]
    split_ifs with heq
    · rw [heq]
      exact ⟨_, le_rfl, (h.remembers a).pruned (hordered a)⟩
    · exact h.remembers b
  · obtain ⟨hthere, hlatest⟩ := scanAsset_latest market hb
    rw [hlatest]
    exact h.latest b hthere

/-- A scan of an asset raises the alerts that its ticks tell of. -/
theorem scanAsset_eq (h : Mirrors cfg nowMs d ticks) (hordered : InOrder (ticks a))
    (hcooled : ∀ level, CooledBy cfg nowMs passed d (a, level)) (market : Option MarketMetadata) :
    (d.scanAsset py cfg nowMs market a).2 = raisedBy py cfg nowMs passed market (ticks a) a ∧
    ∀ key, (d.scanAsset py cfg nowMs market a).1.cooldowns.get key =
      if key ∈ (raisedBy py cfg nowMs passed market (ticks a) a).map (fun e => (a, e.level)) then
        some (nowMs + cooldownMs cfg) else d.cooldowns.get key := by
  have hpruned := pruned_eq (h.remembers a) hordered
  rw [ShiftDetector.scanAsset]
  cases ha : d.barsByAsset.get a with
  | none =>
    rw [raisedBy_nil (h.recent_nil hordered ha)]
    exact ⟨rfl, fun _ => rfl⟩
  | some id =>
    have hbars : assetBars d a = d.bars id := by
      rw [assetBars, ha]
      rfl
    rw [hbars] at hpruned
    have hcooldowns := cooldowns_openAsset cfg d nowMs market a id
    dsimp only
    rw [openAsset] at hcooldowns ⊢
    dsimp only at hcooldowns ⊢
    -- nothing is raised where nothing is recent
    have hnil : pruneBars cfg nowMs (d.bars id) = [] → raisedBy py cfg nowMs passed market (ticks a) a = [] :=
      fun hnone => raisedBy_nil (grouped_eq_nil.mp (hpruned.symm.trans hnone)) market
    split_ifs at hcooldowns ⊢ with hempty hold
    · rw [hnil (by rw [hempty]; rfl)]
      exact ⟨rfl, fun _ => rfl⟩
    · rw [hnil hold]
      exact ⟨rfl, fun _ => rfl⟩
    · cases market with
      | none =>
        split
        · next d' heq =>
          obtain ⟨rfl, -⟩ := Prod.mk.inj heq
          rw [scanLevels_none]
          exact ⟨rfl, fun _ => rfl⟩
        · next d' heq =>
          obtain ⟨rfl, -⟩ := Prod.mk.inj heq
          exact ⟨rfl, fun _ => rfl⟩
      | some market =>
        rw [hpruned]
        by_cases hreadable : Readable cfg nowMs market (recent cfg nowMs (ticks a))
        · have hskip : shouldSkip cfg nowMs (some market) (grouped (recent cfg nowMs (ticks a))) = false :=
            (shouldSkip_grouped (hordered.filter _)).mpr hreadable
          rw [hskip]
          refine scanLevels_eq (by decide) hordered ?_ hreadable ?_ fun level _ => hcooled level
          · exact bars_set_self (h.deques.valid a id ha)
          · exact (h.latest a (by rw [ha]; rfl)).2
        · have hskip : shouldSkip cfg nowMs (some market) (grouped (recent cfg nowMs (ticks a))) = true :=
            eq_true_of_ne_false (mt (shouldSkip_grouped (hordered.filter _)).mp hreadable)
          have hnone : raisedBy py cfg nowMs passed (some market) (ticks a) a = [] := by
            refine List.filterMap_eq_nil_iff.mpr fun level _ => ?_
            rw [raisedAt, due, if_neg hreadable, Option.bind_none]
          rw [hskip, hnone]
          exact ⟨rfl, fun _ => rfl⟩

/-- A scan of assets raises the alerts that their ticks tell of, and these cool down. -/
theorem scanAssets_eq {assets : List String} (hnodup : assets.Nodup)
    (markets : String → Option MarketMetadata) (hordered : ∀ a, InOrder (ticks a))
    (h : Mirrors cfg nowMs d ticks)
    (hpauses : Pauses (cooldownMs cfg) d.cooldowns passed nowMs) :
    (scanAssets py cfg nowMs markets d assets).2 = (assets.flatMap fun a =>
      (raisedBy py cfg nowMs passed (markets a) (ticks a) a).map fun e => (a, e)) ∧
    Mirrors cfg nowMs (scanAssets py cfg nowMs markets d assets).1 ticks ∧
    Pauses (cooldownMs cfg) (scanAssets py cfg nowMs markets d assets).1.cooldowns
      (passed ++ raisedKeys nowMs (scanAssets py cfg nowMs markets d assets).2) nowMs := by
  induction assets generalizing d passed with
  | nil =>
    refine ⟨rfl, h, ?_⟩
    show Pauses _ _ (passed ++ []) nowMs
    rw [List.append_nil]
    exact hpauses
  | cons a assets ih =>
    obtain ⟨hnew, hnodup⟩ := List.nodup_cons.mp hnodup
    obtain ⟨hfound, hcooldowns⟩ : (d.scanAsset py cfg nowMs (markets a) a).2 = _ ∧ _ :=
      scanAsset_eq h (hordered a) (fun level => hpauses.agrees (a, level) nowMs le_rfl) (markets a)
    have hmirrors : Mirrors cfg nowMs (d.scanAsset py cfg nowMs (markets a) a).1 ticks :=
      h.scanAsset hordered (markets a) a
    rw [scanAssets]
    generalize hscan : d.scanAsset py cfg nowMs (markets a) a = scan at hfound hcooldowns hmirrors
    obtain ⟨d', found⟩ := scan
    dsimp only at hfound hcooldowns hmirrors ⊢
    have hkeys : raisedKeys nowMs (found.map fun e => (a, e)) =
        (found.map fun e => (a, e.level)).map fun key => (nowMs, key) := by
      rw [raisedKeys, List.map_map, List.map_map]
      rfl
    have hpauses' : Pauses (cooldownMs cfg) d'.cooldowns
        (passed ++ raisedKeys nowMs (found.map fun e => (a, e))) nowMs := by
      rw [hkeys]
      refine hpauses.pass le_rfl (fun key => ?_) fun key hkey => ?_
      · rw [hcooldowns, hfound]
        congr
      · rw [hfound] at hkey
        obtain ⟨e, he, -⟩ := List.mem_map.mp hkey
        cases hmarket : markets a with
        | none =>
          rw [hmarket] at he
          exact absurd he List.not_mem_nil
        | some market =>
          rw [hmarket] at he
          obtain ⟨level, -, hraised⟩ := List.mem_filterMap.mp he
          exact (raisedAt_free hraised).1
    obtain ⟨hrest, hmirrors', hafter⟩ := ih hnodup hmirrors hpauses'
    refine ⟨?_, hmirrors', ?_⟩
    · rw [hrest, List.flatMap_cons, hfound]
      congr 1
      refine List.flatMap_congr fun b hb => ?_
      rw [raisedBy_append]
      intro r hr
      obtain ⟨e, -, rfl⟩ := List.mem_map.mp hr
      rintro rfl
      exact hnew hb
    · have happend : ∀ first rest : List (String × Emission), raisedKeys nowMs (first ++ rest) =
          raisedKeys nowMs first ++ raisedKeys nowMs rest := fun _ _ => List.map_append
      rw [happend, ← List.append_assoc]
      exact hafter

end Assets

end Sentinel.Processing
