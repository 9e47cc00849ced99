import Sentinel.Processing.Deques

/-!
# Where the prices of an alert come from

A bar keeps two prices and not the sources of the ticks that they are from: `price_open` is that of
the first tick of the second, `price_last` that of the last one.  An alert is labelled with the source
of the latest tick of the asset.

* `MidpointMove`: both prices of a shift are those of midpoint ticks.
* `midpoint_iff`: an alert with the label of a midpoint is one just if the first tick of its window is
  a midpoint, provided that the asset was not removed under the scan.
-/

namespace Sentinel.Processing

open Logic Ingestion ShiftDetector

/-! ## The ticks behind the prices -/

/-- The tick that `price_open` of a bar is from. -/
def opener (ticks : List PriceTick) (bar : SecondBar) : Option PriceTick :=
  ticks.find? fun t => bucketMs t.timestampMs = bar.secondTsMs

/-- The tick that `price_last` of a bar is from. -/
def closer (ticks : List PriceTick) (bar : SecondBar) : Option PriceTick :=
  ticks.reverse.find? fun t => bucketMs t.timestampMs = bar.secondTsMs

/-- The bar whose `price_open` `_compute_delta` takes. -/
def startBar (threshold : ThresholdConfig) (bars : List SecondBar) : Option SecondBar :=
  bars.getLast?.bind fun last =>
    (barWindow (last.secondTsMs - threshold.windowSec * 1000) bars).head?

/-- Both prices of the shift are those of midpoint ticks. -/
def MidpointMove (threshold : ThresholdConfig) (bars : List SecondBar) (ticks : List PriceTick)
    (delta : Delta) : Prop :=
  ∃ first ∈ (startBar threshold bars).bind (opener ticks), ∃ last ∈ bars.getLast?.bind (closer ticks),
    delta.startPrice = first.price ∧ delta.endPrice = last.price ∧
    isMidpoint first.signalSource ∧ isMidpoint last.signalSource

/-- The first tick of the window that is not older than the oldest bar is a midpoint. -/
def FirstIsMidpoint (threshold : ThresholdConfig) (bars : List SecondBar) (ticks : List PriceTick) :
    Prop :=
  ∃ oldest ∈ bars.head?, ∃ last ∈ ticks.getLast?, ∃ first ∈ ticks.find? fun t =>
      rawCutoff threshold last ≤ bucketMs t.timestampMs ∧ oldest.secondTsMs ≤ bucketMs t.timestampMs,
    isMidpoint first.signalSource

instance (threshold : ThresholdConfig) (bars : List SecondBar) (ticks : List PriceTick)
    (delta : Delta) : Decidable (MidpointMove threshold bars ticks delta) := by
  unfold MidpointMove
  infer_instance

def LastIsMidpoint (ticks : List PriceTick) : Prop :=
  ∃ last ∈ ticks.getLast?, isMidpoint last.signalSource

/-- The clock does not go back, and the ticks of a deque come in the order of their timestamps. -/
def TicksInOrder (w : Interleaving) : LoopEvent → Prop
  | .ingest nowMs tick => w.clockMs ≤ nowMs ∧
      ∀ t ∈ w.ticks (w.detector.dequeFor tick.assetId), t.timestampMs ≤ tick.timestampMs
  | e => Forward w e

instance (w : Interleaving) : ∀ e : LoopEvent, Decidable (TicksInOrder w e)
  | .ingest _ _ => inferInstanceAs (Decidable (_ ∧ ∀ _ ∈ _, _))
  | .remove a => inferInstanceAs (Decidable (Forward w (.remove a)))
  | .beginScan => inferInstanceAs (Decidable (Forward w .beginScan))
  | .nextAsset pruneMs skipMs market =>
    inferInstanceAs (Decidable (Forward w (.nextAsset pruneMs skipMs market)))
  | .nextLevel nowMs market => inferInstanceAs (Decidable (Forward w (.nextLevel nowMs market)))

theorem TicksInOrder.forward {w : Interleaving} {e : LoopEvent} (h : TicksInOrder w e) : Forward w e := by
  cases e with
  | ingest nowMs tick => exact h.1
  | remove a => exact h
  | beginScan => exact h
  | nextAsset pruneMs skipMs market => exact h
  | nextLevel nowMs market => exact h

/-! ## Bars and the ticks that opened them -/

section Grouped

variable {ticks : List PriceTick} {bar : SecondBar} {fromMs : ℤ}

/-- A second with a tick has a bar. -/
theorem exists_bar (h : InOrder ticks) : ∀ t ∈ ticks, ∃ bar ∈ grouped ticks,
    bar.secondTsMs = bucketMs t.timestampMs := by
  induction ticks using List.reverseRecOn with
  | nil => exact fun t ht => absurd ht List.not_mem_nil
  | append_singleton ticks tick ih =>
    obtain ⟨hinit, -, hle⟩ := List.pairwise_append.mp h
    have hle : ∀ t ∈ ticks, t.timestampMs ≤ tick.timestampMs := fun t ht => hle t ht tick (by simp)
    intro t ht
    rw [grouped_append]
    rcases (ascending_grouped hinit hle).cases le_rfl with ⟨init, last, hgrouped, hlast, -⟩ | hlater
    · rw [hgrouped, upsertBar_concat hlast]
      rcases List.mem_append.mp ht with ht | ht
      · obtain ⟨bar, hbar, hsecond⟩ := ih hinit t ht
        rw [hgrouped] at hbar
        rcases List.mem_append.mp hbar with hbar | hbar
        · exact ⟨bar, List.mem_append_left _ hbar, hsecond⟩
        · obtain rfl := List.mem_singleton.mp hbar
          exact ⟨bar.add tick, by simp, hsecond⟩
      · obtain rfl := List.mem_singleton.mp ht
        exact ⟨last.add t, by simp, hlast⟩
    · rw [upsertBar_later hlater]
      rcases List.mem_append.mp ht with ht | ht
      · obtain ⟨bar, hbar, hsecond⟩ := ih hinit t ht
        exact ⟨bar, List.mem_append_left _ hbar, hsecond⟩
      · obtain rfl := List.mem_singleton.mp ht
        exact ⟨newBar t, by simp, rfl⟩

/-- The first price of a bar is that of the first tick of its second. -/
theorem exists_opener (h : InOrder ticks) (hbar : bar ∈ grouped ticks) :
    ∃ t, opener ticks bar = some t ∧ t.price = bar.priceOpen := by
  induction ticks using List.reverseRecOn generalizing bar with
  | nil => exact absurd hbar List.not_mem_nil
  | append_singleton ticks tick ih =>
    obtain ⟨hinit, -, hle⟩ := List.pairwise_append.mp h
    have hle : ∀ t ∈ ticks, t.timestampMs ≤ tick.timestampMs := fun t ht => hle t ht tick (by simp)
    have hold : ∀ b ∈ grouped ticks,
        ∃ t, opener (ticks ++ [tick]) b = some t ∧ t.price = b.priceOpen := by
      intro b hb
      obtain ⟨t, hopener, hprice⟩ := ih hinit hb
      refine ⟨t, ?_, hprice⟩
      rw [opener, List.find?_append]
      rw [opener] at hopener
      rw [hopener, Option.some_or]
    rw [grouped_append] at hbar
    rcases (ascending_grouped hinit hle).cases le_rfl with ⟨init, last, hgrouped, hlast, -⟩ | hlater
    · rw [hgrouped] at hold
      rw [hgrouped, upsertBar_concat hlast] at hbar
      rcases List.mem_append.mp hbar with hbar | hbar
      · exact hold bar (List.mem_append_left _ hbar)
      · obtain rfl := List.mem_singleton.mp hbar
        exact hold last (by simp)
    · rw [upsertBar_later hlater] at hbar
      rcases List.mem_append.mp hbar with hbar | hbar
      · exact hold bar hbar
      · obtain rfl := List.mem_singleton.mp hbar
        -- no tick before is of this second
        have hnone : ticks.find? (fun t => bucketMs t.timestampMs = (newBar tick).secondTsMs) = none := by
          refine List.find?_eq_none.mpr fun t ht heq => ?_
          obtain ⟨b, hb, hsecond⟩ := exists_bar hinit t ht
          have hlt := hlater b hb
          rw [hsecond] at hlt
          exact absurd (of_decide_eq_true heq) hlt.ne
        refine ⟨tick, ?_, rfl⟩
        rw [opener, List.find?_append, hnone, Option.none_or]
        exact List.find?_cons_of_pos (by simp [newBar])

/-- The first bar from a time on is opened by the first tick from then on. -/
theorem opener_first (h : InOrder ticks)
    (hfirst : (barWindow fromMs (grouped ticks)).head? = some bar) :
    opener ticks bar = ticks.find? fun t => fromMs ≤ bucketMs t.timestampMs := by
  have hmem := List.mem_of_mem_head? hfirst
  obtain ⟨hgrouped, hfrom⟩ := List.mem_filter.mp hmem
  have hfrom : fromMs ≤ bar.secondTsMs := of_decide_eq_true hfrom
  obtain ⟨t, hopener, -⟩ := exists_opener h hgrouped
  have ht : bucketMs t.timestampMs = bar.secondTsMs := by
    simpa using List.find?_some (l := ticks) hopener
  have hmin : ∀ t' ∈ ticks, fromMs ≤ bucketMs t'.timestampMs →
      bar.secondTsMs ≤ bucketMs t'.timestampMs := by
    intro t' ht' hfrom'
    obtain ⟨b, hb, hsecond⟩ := exists_bar h t' ht'
    have hin : b ∈ barWindow fromMs (grouped ticks) :=
      List.mem_filter.mpr ⟨hb, by simpa [hsecond] using hfrom'⟩
    have hsorted : (barWindow fromMs (grouped ticks)).Pairwise fun a b => a.secondTsMs < b.secondTsMs :=
      (sorted_grouped h).filter _
    obtain ⟨rest, hrest⟩ := List.head?_eq_some_iff.mp hfirst
    rw [hrest] at hin hsorted
    rw [← hsecond]
    rcases List.mem_cons.mp hin with rfl | hin
    · exact le_rfl
    · exact ((List.pairwise_cons.mp hsorted).1 b hin).le
  obtain ⟨-, before, after, hticks, hbefore⟩ := List.find?_eq_some_iff_append.mp hopener
  rw [hopener]
  refine (List.find?_eq_some_iff_append.mpr ⟨by simpa [ht] using hfrom, before, after, hticks, ?_⟩).symm
  intro t' ht'
  -- a tick before `t` in the window would be of the second of `t`
  have hmem' : t' ∈ ticks := by
    rw [hticks]
    exact List.mem_append_left _ ht'
  have hle : t'.timestampMs ≤ t.timestampMs := by
    rw [InOrder, hticks] at h
    exact (List.pairwise_append.mp h).2.2 t' ht' t List.mem_cons_self
  have hne : bucketMs t'.timestampMs ≠ bar.secondTsMs := by simpa using hbefore t' ht'
  by_contra hfrom'
  have hin := hmin t' hmem' (by simpa using hfrom')
  exact hne (le_antisymm ((bucketMs_mono hle).trans_eq ht) hin)

/-- The last price of the last bar is that of the last tick. -/
theorem closer_last {last : PriceTick} (hlast : ticks.getLast? = some last)
    (hsecond : bar.secondTsMs = bucketMs last.timestampMs) : closer ticks bar = some last := by
  obtain ⟨init, rfl⟩ := List.getLast?_eq_some_iff.mp hlast
  rw [closer, List.reverse_append]
  exact List.find?_cons_of_pos (by simp [hsecond])

/-- The bars that are left are those from the oldest of them on. -/
theorem barsFrom_oldest {cutoffMs : ℤ} {oldest : SecondBar} (h : InOrder ticks)
    (holdest : (barsFrom cutoffMs (grouped ticks)).head? = some oldest) :
    barsFrom cutoffMs (grouped ticks) = barWindow oldest.secondTsMs (grouped ticks) := by
  have hsorted := sorted_grouped h
  have hfilter : barsFrom cutoffMs (grouped ticks) = _ := barsFrom_eq_filter hsorted
  have hcutoff : cutoffMs ≤ oldest.secondTsMs := by
    have hmem := List.mem_of_mem_head? holdest
    rw [hfilter] at hmem
    exact of_decide_eq_true (List.mem_filter.mp hmem).2
  rw [← barWindow_barsFrom hcutoff hsorted]
  refine (List.filter_eq_self.mpr fun b hb => decide_eq_true ?_).symm
  have hfrom : (barsFrom cutoffMs (grouped ticks)).Pairwise fun a b => a.secondTsMs < b.secondTsMs :=
    hsorted.sublist (List.dropWhile_sublist _)
  obtain ⟨rest, hrest⟩ := List.head?_eq_some_iff.mp holdest
  rw [hrest] at hb hfrom
  rcases List.mem_cons.mp hb with rfl | hb
  · exact le_rfl
  · exact ((List.pairwise_cons.mp hfrom).1 b hb).le

end Grouped

/-! ## The alerts of a run -/

section Runs

variable {py : AlertBuiltins} {cfg : DetectorConfig} {w : Interleaving} {startMs nowMs : ℤ}
  {market : Option MarketMetadata} {a : String} {id : ℕ} {level : AlertLevel} {delta : Delta}
  {alert : ShiftAlert} {threshold : ThresholdConfig} {bars : List SecondBar} {ticks : List PriceTick}

theorem remembered (h : Reach (loopStep py cfg) (loopStart startMs) TicksInOrder w) (id : ℕ) :
    InOrder (w.ticks id) ∧ Remembers cfg w.clockMs (w.detector.bars id) (w.ticks id) := by
  refine dequeRule (P := fun nowMs bars ticks => InOrder ticks ∧ Remembers cfg nowMs bars ticks) id
    (fun _ _ h => h.forward) (fun _ => ⟨List.Pairwise.nil, _, le_rfl, rfl⟩)
    (fun hle h => ⟨h.1, h.2.mono hle⟩) (fun h => ⟨h.1, _, le_rfl, h.2.pruned h.1⟩)
    (fun hC hid h => ?_) h
  subst hid
  exact ⟨h.1.append hC.2, h.2.ingest h.1 hC.2⟩

/-- The prices of a shift are those of the first tick of the window and of the last tick. -/
theorem shift_ticks (hordered : InOrder ticks) (hbars : Remembers cfg nowMs bars ticks)
    (hdelta : computeDelta threshold bars = some delta) :
    ∃ oldest first last, bars.head? = some oldest ∧ ticks.getLast? = some last ∧
      (startBar threshold bars).bind (opener ticks) = some first ∧
      bars.getLast?.bind (closer ticks) = some last ∧
      (ticks.find? fun t => rawCutoff threshold last ≤ bucketMs t.timestampMs ∧
        oldest.secondTsMs ≤ bucketMs t.timestampMs) = some first ∧
      delta.startPrice = first.price ∧ delta.endPrice = last.price := by
  obtain ⟨cutoffMs, -, rfl⟩ := hbars
  obtain ⟨lastBar, firstBar, hlastBar, hfirstBar, rfl⟩ := computeDelta_some hdelta
  have hne : ticks ≠ [] := by
    rintro rfl
    cases hlastBar
  obtain ⟨init, last, hticks⟩ := (List.eq_nil_or_concat' ticks).resolve_left hne
  have hlast : ticks.getLast? = some last := by rw [hticks, List.getLast?_concat]
  obtain ⟨lastBar', hlastBar', hsecond, hprice⟩ := getLast?_grouped hordered hlast
  obtain rfl : lastBar' = lastBar :=
    Option.some.inj (hlastBar'.symm.trans (getLast?_dropWhile hlastBar))
  obtain ⟨oldest, holdest⟩ : ∃ oldest, (barsFrom cutoffMs (grouped ticks)).head? = some oldest := by
    refine Option.isSome_iff_exists.mp (List.isSome_head?.mpr fun hnil => ?_)
    rw [hnil] at hlastBar
    cases hlastBar
  have hcutoff : lastBar'.secondTsMs - threshold.windowSec * 1000 = rawCutoff threshold last := by
    rw [hsecond, rawCutoff]
  have hwindow : barWindow (rawCutoff threshold last) (barsFrom cutoffMs (grouped ticks)) =
      barWindow (max (rawCutoff threshold last) oldest.secondTsMs) (grouped ticks) := by
    rw [barsFrom_oldest hordered holdest, barWindow, barWindow, List.filter_filter, barWindow]
    refine List.filter_congr fun b _ => ?_
    simp
  rw [hcutoff, hwindow] at hfirstBar
  have hopener := opener_first hordered hfirstBar
  obtain ⟨first, hfirst, hopen⟩ := exists_opener hordered
    (List.mem_of_mem_filter (List.mem_of_mem_head? hfirstBar))
  refine ⟨oldest, first, last, holdest, hlast, ?_, ?_, ?_, hopen.symm, hprice⟩
  · rw [startBar, hlastBar, Option.bind_some, hcutoff, hwindow, hfirstBar, Option.bind_some, hfirst]
  · rw [hlastBar, Option.bind_some, closer_last hlast hsecond]
  · rw [← hfirst, hopener]
    simp only [max_le_iff]

/-- The label of an alert is the source of the latest tick of the asset. -/
theorem alert_label (h : (w.detector.maybeCreateAlert py cfg nowMs market a id level).2 =
    some (delta, alert)) : computeDelta (cfg.thresholds level) (w.detector.bars id) = some delta ∧
      ∃ tick, w.detector.latestTickByAsset.get a = some tick ∧
        alert.signalQuality.signalSource = tick.signalSource := by
  rcases maybeCreateAlert_cases py cfg w.detector nowMs market a id level with
    ⟨heq, -⟩ | ⟨delta', m, tick, hdelta, -, -, -, htick, heq⟩
  · rw [heq] at h
    cases h
  · rw [heq] at h
    obtain ⟨rfl, rfl⟩ := Prod.mk.inj (Option.some.inj h)
    exact ⟨hdelta, tick, htick, rfl⟩

/-- An alert that is labelled as a midpoint is a move between midpoints just if the first tick of its
window is one and the scan still has the deque of the asset, or one whose last tick is a midpoint. -/
theorem midpoint_iff (h : Reach (loopStep py cfg) (loopStart startMs) TicksInOrder w)
    (halert : (w.detector.maybeCreateAlert py cfg nowMs market a id level).2 = some (delta, alert))
    (hlabel : isMidpoint alert.signalQuality.signalSource) :
    MidpointMove (cfg.thresholds level) (w.detector.bars id) (w.ticks id) delta ↔
      FirstIsMidpoint (cfg.thresholds level) (w.detector.bars id) (w.ticks id) ∧
      (w.detector.barsByAsset.get a = some id ∨ LastIsMidpoint (w.ticks id)) := by
  obtain ⟨hordered, hbars⟩ := remembered h id
  obtain ⟨hdelta, tick, htick, hsource⟩ := alert_label halert
  obtain ⟨oldest, first, last, holdest, hlast, hopener, hcloser, hfirst, hstart, hend⟩ :=
    shift_ticks hordered hbars hdelta
  rw [hsource] at hlabel
  have hmove : MidpointMove (cfg.thresholds level) (w.detector.bars id) (w.ticks id) delta ↔
      isMidpoint first.signalSource ∧ isMidpoint last.signalSource := by
    rw [MidpointMove, hopener, hcloser]
    simp [hstart, hend]
  have hfirstIs : FirstIsMidpoint (cfg.thresholds level) (w.detector.bars id) (w.ticks id) ↔
      isMidpoint first.signalSource := by
    rw [FirstIsMidpoint, holdest, hlast]
    simp only [Option.mem_some_iff, exists_eq_left', hfirst]
  have hlastIs : LastIsMidpoint (w.ticks id) ↔ isMidpoint last.signalSource := by
    rw [LastIsMidpoint, hlast]
    simp
  rw [hmove, hfirstIs, hlastIs]
  refine and_congr_right fun _ => ⟨Or.inr, fun hor => hor.elim (fun hget => ?_) fun hlast => hlast⟩
  have hlatest := (kept h).latest a _ hget
  rw [htick, hlast] at hlatest
  rwa [← Option.some.inj hlatest]

end Runs

namespace Sample

def tradeTick (price : ℚ) (timestampMs : ℤ) : PriceTick :=
  { assetId := "a", price := price, bestBid := none, bestAsk := none, spread := none
    signalSource := "last_trade", quoteTsMs := none, timestampMs := timestampMs }

/-- A scan that has come to the first level of the asset. -/
def openScan (nowMs : ℤ) : List LoopEvent :=
  [.beginScan, .nextAsset nowMs nowMs (some (Storage.Sample.market "a" "q"))]

/-- A trade, and then a quote. -/
def mixedEvents : List LoopEvent :=
  [.ingest 1000500 (tradeTick (1 / 10) 1000500), .ingest 1001500 (quotedTick (1 / 5) 1001500)] ++
    openScan 1002000

def quotedEvents : List LoopEvent :=
  [.ingest 1000500 (quotedTick (1 / 10) 1000500), .ingest 1001500 (quotedTick (1 / 5) 1001500)] ++
    openScan 1002000

/-- What the scan finds at the first level of the asset. -/
def firstLevel (es : List LoopEvent) : Option (Delta × ShiftAlert) :=
  ((es.foldl (loopStep alertBuiltins detectorConfig) (loopStart 1000000)).detector.maybeCreateAlert
    alertBuiltins detectorConfig 1002000 (some (Storage.Sample.market "a" "q")) "a" 0 .scout).2

end Sample

theorem trade_starts_midpoint : ¬ ∀ w,
    Reach (loopStep Sample.alertBuiltins Sample.detectorConfig) (loopStart 1000000) TicksInOrder w →
    ∀ a id level levels, w.levels = (a, id, level) :: levels → ∀ nowMs market delta alert,
      (w.detector.maybeCreateAlert Sample.alertBuiltins Sample.detectorConfig nowMs market a id level).2 =
        some (delta, alert) → isMidpoint alert.signalQuality.signalSource →
      MidpointMove (Sample.detectorConfig.thresholds level) (w.detector.bars id) (w.ticks id) delta := by
  intro h
  have hlevels : (Sample.mixedEvents.foldl (loopStep Sample.alertBuiltins Sample.detectorConfig)
      (loopStart 1000000)).levels = ("a", 0, .scout) :: [("a", 0, .confirmation), ("a", 0, .trend)] := by
    decide +kernel
  have hmove := h _ (reach_of_allowed (by decide +kernel)) "a" 0 .scout _ hlevels 1002000
    (some (Storage.Sample.market "a" "q"))
  have hfound : (Sample.firstLevel Sample.mixedEvents).any (fun found =>
      isMidpoint found.2.signalQuality.signalSource && !decide (MidpointMove
        (Sample.detectorConfig.thresholds .scout)
        ((Sample.mixedEvents.foldl (loopStep Sample.alertBuiltins Sample.detectorConfig)
          (loopStart 1000000)).detector.bars 0)
        ((Sample.mixedEvents.foldl (loopStep Sample.alertBuiltins Sample.detectorConfig)
          (loopStart 1000000)).ticks 0) found.1)) = true := by decide +kernel
  cases hsome : Sample.firstLevel Sample.mixedEvents with
  | none =>
    rw [hsome] at hfound
    cases hfound
  | some found =>
    rw [hsome, Option.any_some, Bool.and_eq_true, Bool.not_eq_true', decide_eq_false_iff_not] at hfound
    exact hfound.2 (hmove found.1 found.2 hsome hfound.1)

theorem midpoint_iff_quoted :
    let w := Sample.quotedEvents.foldl (loopStep Sample.alertBuiltins Sample.detectorConfig)
      (loopStart 1000000)
    ∃ delta alert, Sample.firstLevel Sample.quotedEvents = some (delta, alert) ∧
      (MidpointMove (Sample.detectorConfig.thresholds .scout) (w.detector.bars 0) (w.ticks 0) delta ↔
        FirstIsMidpoint (Sample.detectorConfig.thresholds .scout) (w.detector.bars 0) (w.ticks 0) ∧
        (w.detector.barsByAsset.get "a" = some 0 ∨ LastIsMidpoint (w.ticks 0))) := by
  have hfound : (Sample.firstLevel Sample.quotedEvents).any (fun found =>
      isMidpoint found.2.signalQuality.signalSource) = true := by decide +kernel
  cases hsome : Sample.firstLevel Sample.quotedEvents with
  | none =>
    rw [hsome] at hfound
    cases hfound
  | some found =>
    rw [hsome, Option.any_some] at hfound
    exact ⟨found.1, found.2, rfl, midpoint_iff (reach_of_allowed (by decide +kernel)) hsome hfound⟩

end Sentinel.Processing
