import Sentinel.Logic.Run
import Sentinel.Processing.Grouped
import Sentinel.Storage.MarketCache

/-!
# The raw ticks

The detector under ticks, scans and removals in any order, beside the list of all ticks of each
asset since the start or its last removal.  The detector only keeps bars of a second, and drops the
old ones at every tick and every scan.

* `Follows`: the bars of an asset are those of all its ticks, without the old ones.
* `emitted_raw`: when an alert is raised for an asset with a quoted bar, none of the bars of its
  window have been dropped, and the shift is that of the raw ticks.
-/

namespace Sentinel.Processing

open Logic Ingestion ShiftDetector

/-! ## The shift in the raw ticks -/

/-- The window of a list of ticks: from so many seconds before the second of the last tick. -/
def rawCutoff (threshold : ThresholdConfig) (last : PriceTick) : ℤ :=
  bucketMs last.timestampMs - threshold.windowSec * 1000

/-- The shift over the window, computed from the ticks themselves. -/
def rawDelta (threshold : ThresholdConfig) (ticks : List PriceTick) : Option Delta :=
  ticks.getLast?.bind fun last =>
    let window := tickWindow (rawCutoff threshold last) ticks
    window.head?.map fun first =>
      let signed := signedDelta first.price last.price
      ⟨|signed|, signed, first.price, last.price, window.length⟩

/-! ## Runs of the detector -/

structure Watch : Type where
  detector : ShiftDetector
  /-- The last value that was read from the clock. -/
  clockMs : ℤ
  /-- All ticks of an asset since the start or its last removal. -/
  ticks : String → List PriceTick

/-- `scan_once` is a run of scans of one asset each. -/
inductive WatchEvent : Type
  | ingest (nowMs : ℤ) (tick : PriceTick)
  | scan (nowMs : ℤ) (market : Option MarketMetadata) (assetId : String)
  | remove (assetId : String)

section Runs

variable (py : AlertBuiltins) (cfg : DetectorConfig)

def watchStep (w : Watch) : WatchEvent → Watch
  | .ingest nowMs tick =>
    { detector := w.detector.ingestTick cfg nowMs tick
      clockMs := nowMs
      ticks := Function.update w.ticks tick.assetId (w.ticks tick.assetId ++ [tick]) }
  | .scan nowMs market assetId =>
    { w with detector := (w.detector.scanAsset py cfg nowMs market assetId).1, clockMs := nowMs }
  | .remove assetId =>
    { w with
      detector := w.detector.removeAsset assetId
      ticks := Function.update w.ticks assetId [] }

def watchStart (nowMs : ℤ) : Watch := ⟨emptyDetector, nowMs, fun _ => []⟩

/-- The clock does not go back, the ticks of an asset come in the order of their timestamps, and a
tick with a spread has its quote from its own timestamp. -/
def Orderly (w : Watch) : WatchEvent → Prop
  | .ingest nowMs tick =>
    w.clockMs ≤ nowMs ∧ (∀ t ∈ w.ticks tick.assetId, t.timestampMs ≤ tick.timestampMs) ∧
      (tick.spread.isSome → tick.quoteTsMs = some tick.timestampMs)
  | .scan nowMs _ _ => w.clockMs ≤ nowMs
  | .remove _ => True

instance : ∀ (w : Watch) (e : WatchEvent), Decidable (Orderly w e) := by
  intro w e
  unfold Orderly
  split <;> infer_instance

/-! ## What the detector remembers of an asset -/

/-- The bars of an asset; none if it is not in the map. -/
def assetBars (d : ShiftDetector) (assetId : String) : List SecondBar :=
  (d.barsByAsset.get assetId).elim [] d.bars

/-- Every asset has a deque of its own. -/
structure OwnDeques (d : ShiftDetector) : Prop where
  valid : ∀ a id, d.barsByAsset.get a = some id → id < d.deques.length
  own : ∀ a b id, d.barsByAsset.get a = some id → d.barsByAsset.get b = some id → a = b

/-- The bars are those of the ticks, without some of those that are old now. -/
def Remembers (nowMs : ℤ) (bars : List SecondBar) (ticks : List PriceTick) : Prop :=
  ∃ cutoffMs ≤ pruneCutoff cfg nowMs, bars = barsFrom cutoffMs (grouped ticks)

structure Follows (w : Watch) : Prop where
  deques : OwnDeques w.detector
  ordered : ∀ a, InOrder (w.ticks a)
  quoted : ∀ a, QuotedAtOnce (w.ticks a)
  remembers : ∀ a, Remembers cfg w.clockMs (assetBars w.detector a) (w.ticks a)

section Deques

variable {d d' : ShiftDetector} {a b : String} {id : ℕ} {bars : List SecondBar}

theorem bars_set_self (h : id < d.deques.length) :
    ({ d with deques := d.deques.set id bars } : ShiftDetector).bars id = bars := by
  simp [ShiftDetector.bars, List.getElem?_set_self h]

theorem bars_set_ne {id' : ℕ} (h : id' ≠ id) :
    ({ d with deques := d.deques.set id bars } : ShiftDetector).bars id' = d.bars id' := by
  simp [ShiftDetector.bars, List.getElem?_set_ne h.symm]

/-- Writing to the deque of one asset leaves those of the others. -/
theorem OwnDeques.assetBars_set (h : OwnDeques d) (ha : d.barsByAsset.get a = some id)
    (bars : List SecondBar) (b : String) :
    assetBars { d with deques := d.deques.set id bars } b =
      if b = a then bars else assetBars d b := by
  rw [assetBars, assetBars]
  split_ifs with hb
  · rw [hb, ha]
    exact bars_set_self (h.valid a id ha)
  · cases hget : d.barsByAsset.get b with
    | none => rfl
    | some id' =>
      have hne : id' ≠ id := fun heq => hb (h.own b a id (heq ▸ hget) ha)
      exact bars_set_ne hne

theorem OwnDeques.set (h : OwnDeques d) :
    OwnDeques { d with deques := d.deques.set id bars } where
  valid a id' ha := by simpa only [List.length_set] using h.valid a id' ha
  own := h.own

theorem OwnDeques.erase (h : OwnDeques d) (hdeques : d'.deques = d.deques)
    (hmap : d'.barsByAsset = d.barsByAsset.erase a) : OwnDeques d' where
  valid b id hb := by
    rw [hmap, OrderedMap.get_erase] at hb
    split_ifs at hb
    rw [hdeques]
    exact h.valid b id hb
  own b c id hb hc := by
    rw [hmap, OrderedMap.get_erase] at hb hc
    split_ifs at hb hc
    exact h.own b c id hb hc

theorem bars_congr (h : d'.deques = d.deques) : d'.bars = d.bars := by
  funext id
  rw [ShiftDetector.bars, ShiftDetector.bars, h]

theorem assetBars_erase (hdeques : d'.deques = d.deques)
    (hmap : d'.barsByAsset = d.barsByAsset.erase a) :
    assetBars d' b = if b = a then [] else assetBars d b := by
  rw [assetBars, assetBars, hmap, OrderedMap.get_erase]
  split_ifs
  · rfl
  · rw [bars_congr hdeques]

/-! ## A tick -/

theorem OwnDeques.ingestTick (h : OwnDeques d) {nowMs : ℤ} {tick : PriceTick} :
    OwnDeques (d.ingestTick cfg nowMs tick) := by
  rw [ShiftDetector.ingestTick]
  cases htick : d.barsByAsset.get tick.assetId with
  | some id => exact ⟨fun a id' ha => by simpa only [List.length_set] using h.valid a id' ha, h.own⟩
  | none =>
    have hnew : ∀ a id, (d.barsByAsset.set tick.assetId d.deques.length).get a = some id →
        (a = tick.assetId ∧ id = d.deques.length) ∨
          (d.barsByAsset.get a = some id ∧ id < d.deques.length) := by
      intro a id ha
      rw [OrderedMap.get_set] at ha
      split_ifs at ha with heq
      · exact Or.inl ⟨heq, (Option.some.inj ha).symm⟩
      · exact Or.inr ⟨ha, h.valid a id ha⟩
    refine ⟨fun a id ha => ?_, fun a b id ha hb => ?_⟩
    · show id < (d.deques ++ [_]).length
      rw [List.length_append, List.length_singleton]
      rcases hnew a id ha with ⟨-, rfl⟩ | ⟨-, hlt⟩
      · exact Nat.lt_succ_self _
      · exact hlt.trans (Nat.lt_succ_self _)
    · rcases hnew a id ha with ⟨rfl, rfl⟩ | ⟨ha, hlt⟩
      · rcases hnew b _ hb with ⟨rfl, -⟩ | ⟨-, hlt⟩
        · rfl
        · exact absurd hlt (lt_irrefl _)
      · rcases hnew b id hb with ⟨-, rfl⟩ | ⟨hb, -⟩
        · exact absurd hlt (lt_irrefl _)
        · exact h.own a b id ha hb

/-- The asset of the tick gets it in its bars, the old ones of which are dropped. -/
theorem OwnDeques.assetBars_ingestTick (h : OwnDeques d) {nowMs : ℤ} {tick : PriceTick} :
    assetBars (d.ingestTick cfg nowMs tick) b =
      if b = tick.assetId then pruneBars cfg nowMs (upsertBar (assetBars d tick.assetId) tick)
      else assetBars d b := by
  cases htick : d.barsByAsset.get tick.assetId with
  | some id =>
    have hbars : assetBars d tick.assetId = d.bars id := by
      rw [assetBars, htick]
      rfl
    have hset := h.assetBars_set htick (pruneBars cfg nowMs (upsertBar (d.bars id) tick)) b
    rw [ShiftDetector.ingestTick, htick, hbars]
    exact hset
  | none =>
    have hbars : assetBars d tick.assetId = [] := by
      rw [assetBars, htick]
      rfl
    rw [ShiftDetector.ingestTick, htick, hbars, assetBars]
    simp only [OrderedMap.get_set]
    split_ifs with hb
    · simp [ShiftDetector.bars]
    · rw [assetBars]
      cases hget : d.barsByAsset.get b with
      | none => rfl
      | some id =>
        simp [ShiftDetector.bars, List.getElem?_append_left (h.valid b id hget)]

end Deques

/-! ## A scan -/

section Scans

variable {d : ShiftDetector} {nowMs : ℤ} {market : Option MarketMetadata} {a b : String} {id : ℕ}
  {emission : Emission}

/-- Looking at the levels changes the cooldowns only, and what comes with an alert is what was
computed from the bars. -/
theorem scanLevels_spec (d : ShiftDetector) (nowMs : ℤ) (market : Option MarketMetadata) (a : String)
    (id : ℕ) (levels : List AlertLevel) :
    (scanLevels py cfg nowMs market a id d levels).1.deques = d.deques ∧
    (scanLevels py cfg nowMs market a id d levels).1.barsByAsset = d.barsByAsset ∧
    ∀ e ∈ (scanLevels py cfg nowMs market a id d levels).2,
      computeDelta (cfg.thresholds e.level) (d.bars id) = some e.delta := by
  induction levels generalizing d with
  | nil => exact ⟨rfl, rfl, fun _ he => absurd he List.not_mem_nil⟩
  | cons level levels ih =>
    have hone : (d.maybeCreateAlert py cfg nowMs market a id level).1.deques = d.deques ∧
        (d.maybeCreateAlert py cfg nowMs market a id level).1.barsByAsset = d.barsByAsset ∧
        ∀ delta alert, (d.maybeCreateAlert py cfg nowMs market a id level).2 = some (delta, alert) →
          computeDelta (cfg.thresholds level) (d.bars id) = some delta := by
      rw [maybeCreateAlert]
      cases hdelta : computeDelta (cfg.thresholds level) (d.bars id) with
      | none => exact ⟨rfl, rfl, fun _ _ h => (by cases h)⟩
      | some delta =>
        simp only
        split_ifs
        · exact ⟨rfl, rfl, fun _ _ h => (by cases h)⟩
        · exact ⟨rfl, rfl, fun _ _ h => (by cases h)⟩
        · split
          · refine ⟨rfl, rfl, fun delta' alert h => ?_⟩
            obtain ⟨rfl, -⟩ := Prod.mk.inj (Option.some.inj h)
            rfl
          · exact ⟨rfl, rfl, fun _ _ h => (by cases h)⟩
    obtain ⟨hdeques, hmap, hresult⟩ := hone
    obtain ⟨hdeques', hmap', hrest⟩ := ih (d.maybeCreateAlert py cfg nowMs market a id level).1
    refine ⟨hdeques'.trans hdeques, hmap'.trans hmap, fun e he => ?_⟩
    rcases List.mem_append.mp he with he | he
    · obtain ⟨⟨delta, alert⟩, hsome, rfl⟩ := Option.map_eq_some_iff.mp (Option.mem_toList.mp he)
      exact hresult delta alert hsome
    · rw [← bars_congr hdeques]
      exact hrest e he

/-- The old bars of the asset are dropped; an asset without bars is taken off the map. -/
theorem OwnDeques.openAsset (h : OwnDeques d) (nowMs : ℤ) (market : Option MarketMetadata)
    (ha : d.barsByAsset.get a = some id) :
    OwnDeques (d.openAsset cfg nowMs market a id).1 ∧
    ∀ b, assetBars (d.openAsset cfg nowMs market a id).1 b =
      if b = a then pruneBars cfg nowMs (assetBars d a) else assetBars d b := by
  have hbars : assetBars d a = d.bars id := by
    rw [assetBars, ha]
    rfl
  rw [hbars, ShiftDetector.openAsset]
  by_cases hempty : d.bars id = []
  · rw [if_pos hempty]
    refine ⟨h, fun b => ?_⟩
    split_ifs with hb
    · rw [hb, hbars, hempty]
      rfl
    · rfl
  · rw [if_neg hempty]
    dsimp only
    have hset := h.assetBars_set ha (pruneBars cfg nowMs (d.bars id))
    by_cases hpruned : pruneBars cfg nowMs (d.bars id) = []
    · rw [if_pos hpruned]
      refine ⟨OwnDeques.erase h.set rfl rfl, fun b => ?_⟩
      refine Eq.trans (assetBars_erase
        (d := { d with deques := d.deques.set id (pruneBars cfg nowMs (d.bars id)) }) rfl rfl) ?_
      rw [hset b, hpruned]
      split_ifs <;> rfl
    · rw [if_neg hpruned]
      exact ⟨h.set, hset⟩

theorem OwnDeques.scanAsset (h : OwnDeques d) (nowMs : ℤ) (market : Option MarketMetadata)
    (a : String) :
    OwnDeques (d.scanAsset py cfg nowMs market a).1 ∧
    ∀ b, assetBars (d.scanAsset py cfg nowMs market a).1 b =
      if b = a then pruneBars cfg nowMs (assetBars d a) else assetBars d b := by
  rw [ShiftDetector.scanAsset]
  cases ha : d.barsByAsset.get a with
  | none =>
    refine ⟨h, fun b => ?_⟩
    split_ifs with hb
    · rw [hb, assetBars, ha]
      rfl
    · rfl
  | some id =>
    have hopen := h.openAsset cfg nowMs market ha
    dsimp only
    split
    · next d' heq =>
      rw [heq] at hopen
      obtain ⟨hdeques, hmap, -⟩ := scanLevels_spec py cfg d' nowMs market a id scanOrder
      refine ⟨⟨?_, ?_⟩, fun b => ?_⟩
      · rw [hdeques, hmap]
        exact hopen.1.valid
      · rw [hmap]
        exact hopen.1.own
      · rw [assetBars, hmap, bars_congr hdeques]
        exact hopen.2 b
    · next d' heq =>
      rw [heq] at hopen
      exact hopen

/-- An alert is computed from the bars that are left, and only if these are not to be skipped. -/
theorem OwnDeques.emitted (h : OwnDeques d)
    (he : emission ∈ (d.scanAsset py cfg nowMs market a).2) :
    shouldSkip cfg nowMs market (pruneBars cfg nowMs (assetBars d a)) = false ∧
    computeDelta (cfg.thresholds emission.level) (pruneBars cfg nowMs (assetBars d a)) =
      some emission.delta := by
  rw [ShiftDetector.scanAsset] at he
  cases ha : d.barsByAsset.get a with
  | none =>
    rw [ha] at he
    exact absurd he List.not_mem_nil
  | some id =>
    have hbars : assetBars d a = d.bars id := by
      rw [assetBars, ha]
      rfl
    rw [ha] at he
    dsimp only at he
    split at he
    · next d' heq =>
      have hdelta := (scanLevels_spec py cfg d' nowMs market a id scanOrder).2.2 emission he
      rw [ShiftDetector.openAsset] at heq
      dsimp only at heq
      split_ifs at heq
      · cases heq
      · cases heq
      · obtain ⟨rfl, hskip⟩ := Prod.mk.inj heq
        rw [bars_set_self (h.valid a id ha)] at hdelta
        rw [hbars]
        exact ⟨by simpa using hskip, hdelta⟩
    · exact absurd he List.not_mem_nil

end Scans

/-! ## The bars follow the ticks -/

section Invariant

variable {w : Watch} {startMs : ℤ}

variable {py cfg}

theorem Remembers.mono {nowMs nowMs' : ℤ} {bars : List SecondBar} {ticks : List PriceTick}
    (h : Remembers cfg nowMs bars ticks) (hle : nowMs ≤ nowMs') : Remembers cfg nowMs' bars ticks := by
  obtain ⟨cutoffMs, hcutoff, rfl⟩ := h
  refine ⟨cutoffMs, hcutoff.trans ?_, rfl⟩
  rw [pruneCutoff, pruneCutoff]
  exact sub_le_sub_right hle _

theorem sorted_grouped {ticks : List PriceTick} (h : InOrder ticks) :
    (grouped ticks).Pairwise fun a b => a.secondTsMs < b.secondTsMs := by
  rcases List.eq_nil_or_concat' ticks with rfl | ⟨init, last, rfl⟩
  · exact List.Pairwise.nil
  · have hlast : ∀ t ∈ init ++ [last], t.timestampMs ≤ last.timestampMs := by
      intro t ht
      rcases List.mem_append.mp ht with ht | ht
      · exact (List.pairwise_append.mp h).2.2 t ht last (by simp)
      · obtain rfl := List.mem_singleton.mp ht
        exact le_rfl
    exact (ascending_grouped h hlast).sorted

/-- After dropping the old bars, exactly the old ones are missing. -/
theorem Remembers.pruned {nowMs : ℤ} {bars : List SecondBar} {ticks : List PriceTick}
    (h : Remembers cfg nowMs bars ticks) (hordered : InOrder ticks) :
    pruneBars cfg nowMs bars = barsFrom (pruneCutoff cfg nowMs) (grouped ticks) := by
  obtain ⟨cutoffMs, hcutoff, rfl⟩ := h
  exact barsFrom_barsFrom hcutoff (sorted_grouped hordered)

theorem Remembers.ingest {nowMs : ℤ} {bars : List SecondBar} {ticks : List PriceTick}
    {tick : PriceTick} (h : Remembers cfg nowMs bars ticks) (hordered : InOrder ticks)
    (hle : ∀ t ∈ ticks, t.timestampMs ≤ tick.timestampMs) :
    Remembers cfg nowMs (pruneBars cfg nowMs (upsertBar bars tick)) (ticks ++ [tick]) := by
  obtain ⟨cutoffMs, hcutoff, rfl⟩ := h
  refine ⟨pruneCutoff cfg nowMs, le_rfl, ?_⟩
  rw [grouped_append]
  exact barsFrom_upsertBar hcutoff (ascending_grouped hordered hle) le_rfl

theorem follows_start : Follows cfg (watchStart startMs) where
  deques := ⟨fun _ _ h => (nomatch h), fun _ _ _ h => (nomatch h)⟩
  ordered _ := List.Pairwise.nil
  quoted _ _ h := absurd h List.not_mem_nil
  remembers _ := ⟨_, le_rfl, rfl⟩

theorem Follows.step (h : Follows cfg w) {e : WatchEvent} (he : Orderly w e) :
    Follows cfg (watchStep py cfg w e) := by
  cases e with
  | ingest nowMs tick =>
    obtain ⟨hclock, hle, hquote⟩ := he
    refine ⟨h.deques.ingestTick cfg, fun a => ?_, fun a => ?_, fun a => ?_⟩
    · by_cases ha : a = tick.assetId
      · subst ha
        simpa only [watchStep, Function.update_self] using (h.ordered tick.assetId).append hle
      · simpa only [watchStep, Function.update_of_ne ha] using h.ordered a
    · by_cases ha : a = tick.assetId
      · subst ha
        simp only [watchStep, Function.update_self]
        intro t ht hspread
        rcases List.mem_append.mp ht with ht | ht
        · exact h.quoted _ t ht hspread
        · obtain rfl := List.mem_singleton.mp ht
          exact hquote hspread
      · simpa only [watchStep, Function.update_of_ne ha] using h.quoted a
    · show Remembers cfg nowMs (assetBars (w.detector.ingestTick cfg nowMs tick) a) _
      rw [h.deques.assetBars_ingestTick]
      by_cases ha : a = tick.assetId
      · subst ha
        rw [if_pos rfl]
        simp only [watchStep, Function.update_self]
        exact ((h.remembers tick.assetId).mono hclock).ingest (h.ordered tick.assetId) hle
      · rw [if_neg ha]
        simp only [watchStep, Function.update_of_ne ha]
        exact (h.remembers a).mono hclock
  | scan nowMs market assetId =>
    obtain ⟨hdeques, hbars⟩ := h.deques.scanAsset py cfg nowMs market assetId
    refine ⟨hdeques, h.ordered, h.quoted, fun a => ?_⟩
    show Remembers cfg nowMs (assetBars (w.detector.scanAsset py cfg nowMs market assetId).1 a) _
    have hremembers := (h.remembers a).mono he
    rw [hbars]
    split_ifs with ha
    · subst ha
      exact ⟨_, le_rfl, hremembers.pruned (h.ordered a)⟩
    · exact hremembers
  | remove assetId =>
    refine ⟨h.deques.erase rfl rfl, fun a => ?_, fun a => ?_, fun a => ?_⟩
    · by_cases ha : a = assetId
      · subst ha
        simp only [watchStep, Function.update_self]
        exact List.Pairwise.nil
      · simpa only [watchStep, Function.update_of_ne ha] using h.ordered a
    · by_cases ha : a = assetId
      · subst ha
        simp only [watchStep, Function.update_self]
        exact fun t ht => absurd ht List.not_mem_nil
      · simpa only [watchStep, Function.update_of_ne ha] using h.quoted a
    · have herase : assetBars (w.detector.removeAsset assetId) a =
          if a = assetId then [] else assetBars w.detector a := assetBars_erase rfl rfl
      show Remembers cfg w.clockMs (assetBars (w.detector.removeAsset assetId) a) _
      rw [herase]
      by_cases ha : a = assetId
      · subst ha
        rw [if_pos rfl]
        simp only [watchStep, Function.update_self]
        exact ⟨_, le_rfl, rfl⟩
      · rw [if_neg ha]
        simp only [watchStep, Function.update_of_ne ha]
        exact h.remembers a

theorem follows (h : Reach (watchStep py cfg) (watchStart startMs) Orderly w) : Follows cfg w :=
  h.invariant follows_start fun _ _ _ he ih => ih.step he

end Invariant

/-! ## The window is complete -/

section Emitted

variable {py cfg}
variable {w : Watch} {startMs nowMs : ℤ} {market : Option MarketMetadata} {a : String}
  {bars : List SecondBar} {emission : Emission}

/-- What was computed is what the bars of the window say. -/
theorem computeDelta_some {threshold : ThresholdConfig} {delta : Delta}
    (h : computeDelta threshold bars = some delta) : ∃ last first, bars.getLast? = some last ∧
      (barWindow (last.secondTsMs - threshold.windowSec * 1000) bars).head? = some first ∧
      delta = ⟨|signedDelta first.priceOpen last.priceLast|,
        signedDelta first.priceOpen last.priceLast, first.priceOpen, last.priceLast,
        ((barWindow (last.secondTsMs - threshold.windowSec * 1000) bars).map SecondBar.tickCount).sum⟩ := by
  rw [computeDelta] at h
  split_ifs at h
  cases hlast : bars.getLast? with
  | none =>
    rw [hlast] at h
    cases h
  | some last =>
    rw [hlast] at h
    dsimp only at h
    cases hfirst : (barWindow (last.secondTsMs - threshold.windowSec * 1000) bars).head? with
    | none =>
      rw [barWindow] at hfirst
      rw [hfirst] at h
      cases h
    | some first =>
      refine ⟨last, first, rfl, hfirst, ?_⟩
      rw [barWindow] at hfirst ⊢
      rw [hfirst] at h
      dsimp only at h
      split_ifs at h
      exact (Option.some.inj h).symm

/-- The quote behind an alert is not too old. -/
theorem quote_of_shouldSkip (h : shouldSkip cfg nowMs market bars = false)
    (hquoted : ∃ bar ∈ bars, bar.spreadLast.isSome) : ∃ quoted ∈ bars, quoted.spreadLast.isSome ∧
      nowMs - quoted.quoteTsMs.getD 0 ≤ cfg.maxQuoteAgeSec * 1000 := by
  obtain ⟨bar, hbar, hspread⟩ := hquoted
  cases hlatest : latestWithQuote bars with
  | none =>
    have hnone := List.find?_eq_none.mp hlatest bar (List.mem_reverse.mpr hbar)
    exact absurd hspread hnone
  | some quoted =>
    rw [shouldSkip] at h
    split at h
    · cases h
    · rw [hlatest] at h
      dsimp only at h
      split_ifs at h with hstale hage
      have hspread : quoted.spreadLast.isSome = true :=
        List.find?_some (p := fun bar : SecondBar => bar.spreadLast.isSome) hlatest
      exact ⟨quoted, List.mem_reverse.mp (List.mem_of_find?_eq_some hlatest), hspread,
        not_lt.mp hage⟩

theorem getLast?_dropWhile {p : SecondBar → Bool} {last : SecondBar}
    (h : (bars.dropWhile p).getLast? = some last) : bars.getLast? = some last := by
  obtain ⟨init, hinit⟩ := List.dropWhile_suffix p (l := bars)
  rw [← hinit, List.getLast?_append, h]
  rfl

/-- The bars that were dropped are older than the window. -/
theorem barWindow_barsFrom {cutoffMs cutoffMs' : ℤ} (hle : cutoffMs ≤ cutoffMs')
    (h : bars.Pairwise fun a b => a.secondTsMs < b.secondTsMs) :
    barWindow cutoffMs' (barsFrom cutoffMs bars) = barWindow cutoffMs' bars := by
  rw [barWindow, barsFrom_eq_filter h, List.filter_filter]
  refine List.filter_congr fun bar _ => ?_
  by_cases hbar : cutoffMs' ≤ bar.secondTsMs
  · simp [hbar, hle.trans hbar]
  · simp [hbar]

/-- Neither the bars nor the dropping of old ones changes an alert: if the buffer is longer than the
window by the age that a quote may have and one second, then the shift behind every alert for an
asset with a quoted bar is that of the complete list of the ticks of the asset. -/
theorem emitted_raw (h : Reach (watchStep py cfg) (watchStart startMs) Orderly w)
    (hscan : Orderly w (.scan nowMs market a))
    (he : emission ∈ (w.detector.scanAsset py cfg nowMs market a).2)
    (hquoted : ∃ bar ∈ pruneBars cfg nowMs (assetBars w.detector a), bar.spreadLast.isSome)
    (hbuffer : (cfg.thresholds emission.level).windowSec + cfg.maxQuoteAgeSec + 1 ≤
      cfg.bufferMaxAgeSec) :
    rawDelta (cfg.thresholds emission.level) (w.ticks a) = some emission.delta := by
  have hfollows := follows h
  have hordered := hfollows.ordered a
  have hbars := ((hfollows.remembers a).mono hscan).pruned hordered
  obtain ⟨hskip, hdelta⟩ := hfollows.deques.emitted py cfg he
  rw [hbars] at hskip hdelta hquoted
  obtain ⟨bar, first, hlastBar, hfirstBar, hdelta⟩ := computeDelta_some hdelta
  have hlastBar := getLast?_dropWhile hlastBar
  -- the last tick
  have hne : w.ticks a ≠ [] := by
    intro hnil
    rw [hnil] at hlastBar
    cases hlastBar
  obtain ⟨init, last, hticks⟩ := (List.eq_nil_or_concat' (w.ticks a)).resolve_left hne
  have hlast : (w.ticks a).getLast? = some last := by rw [hticks, List.getLast?_concat]
  obtain ⟨bar', hbar', hsecond, hprice⟩ := getLast?_grouped hordered hlast
  obtain rfl : bar' = bar := Option.some.inj (hbar'.symm.trans hlastBar)
  -- a quote that is young enough is from a tick, and the last tick is not older
  have hrecent : nowMs - last.timestampMs ≤ cfg.maxQuoteAgeSec * 1000 := by
    obtain ⟨quoted, hmem, hspread, hage⟩ := quote_of_shouldSkip hskip hquoted
    obtain ⟨t, ht, hquote⟩ := quoted_grouped (hfollows.quoted a)
      ((List.dropWhile_sublist _).subset hmem) hspread
    have hle : t.timestampMs ≤ last.timestampMs := by
      rw [hticks] at ht hordered
      rcases List.mem_append.mp ht with ht | ht
      · exact (List.pairwise_append.mp hordered).2.2 t ht last (by simp)
      · obtain rfl := List.mem_singleton.mp ht
        exact le_rfl
    rw [hquote, Option.getD_some] at hage
    omega
  have hcutoff : pruneCutoff cfg nowMs ≤ rawCutoff (cfg.thresholds emission.level) last := by
    have hbucket := lt_bucketMs_add last.timestampMs
    rw [pruneCutoff, rawCutoff]
    omega
  have hsecond' : bar'.secondTsMs - (cfg.thresholds emission.level).windowSec * 1000 =
      rawCutoff (cfg.thresholds emission.level) last := by rw [hsecond, rawCutoff]
  have hdvd : 1000 ∣ rawCutoff (cfg.thresholds emission.level) last := by
    rw [rawCutoff, bucketMs, ← sub_mul]
    exact Dvd.intro_left _ rfl
  rw [hsecond', barWindow_barsFrom hcutoff (sorted_grouped hordered)] at hfirstBar hdelta
  obtain ⟨-, hcount, hfirst⟩ := covers_grouped hordered hdvd
  rw [hfirstBar, Option.map_some] at hfirst
  obtain ⟨tick, htick, hopen⟩ := Option.map_eq_some_iff.mp hfirst.symm
  rw [rawDelta, hlast, Option.bind_some]
  simp only [htick, Option.map_some]
  rw [hdelta, hcount, hprice, ← hopen]

end Emitted

end Runs

namespace Sample

/-- A quarter of an hour of bars, windows of ten minutes and quotes of at most five. -/
def detectorConfig : DetectorConfig :=
  { bufferMaxAgeSec := 901, cooldownSec := 60, staleThresholdSec := 300
    maxSpreadForDetection := 1 / 10, maxQuoteAgeSec := 300, warmupGraceSec := 60
    thresholds := fun _ => ⟨600, 5, 2⟩ }

def alertBuiltins : AlertBuiltins := ⟨fun _ _ _ => "alert", fun _ => "now"⟩

def quotedTick (price : ℚ) (timestampMs : ℤ) : PriceTick :=
  { assetId := "a", price := price, bestBid := some (price - 1 / 100)
    bestAsk := some (price + 1 / 100), spread := some (1 / 50), signalSource := "midpoint"
    quoteTsMs := some timestampMs, timestampMs := timestampMs }

/-- The first tick is out of the buffer when the last one comes; the second is at the edge of the
window. -/
def pricedEvents : List WatchEvent :=
  [.ingest 1000500 (quotedTick (1 / 10) 1000500), .ingest 1600900 (quotedTick (1 / 2) 1600000),
    .scan 1601000 none "a", .ingest 2200999 (quotedTick (2 / 5) 2200999)]

end Sample

theorem emitted_raw_priced :
    let w := Sample.pricedEvents.foldl (watchStep Sample.alertBuiltins Sample.detectorConfig)
      (watchStart 1000000)
    ∃ emission ∈ (w.detector.scanAsset Sample.alertBuiltins Sample.detectorConfig 2201000
        (some (Storage.Sample.market "a" "q")) "a").2,
      rawDelta (Sample.detectorConfig.thresholds emission.level) (w.ticks "a") =
        some emission.delta :=
  ⟨_, List.getElem_mem (n := 0) (by decide +kernel),
    emitted_raw (reach_of_allowed (by decide +kernel)) (by decide +kernel)
      (List.getElem_mem (by decide +kernel)) (by decide +kernel) (by decide +kernel)⟩

end Sentinel.Processing
