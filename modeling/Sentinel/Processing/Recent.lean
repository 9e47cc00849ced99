import Sentinel.Processing.Sources

/-!
# A scan of recent ticks

What a scan says about the bars of an asset, said about its ticks: the detector may as well keep the
ticks that are not too old and group them anew for each scan.

* `recent`: the ticks that are not too old.  Their bars are those that are left of all
  (`barsFrom_grouped`).
* `Readable`, `shown`: whether there are quotes to go by, and the shift.
* `shouldSkip_grouped`, `computeDelta_grouped`: both are what the detector finds.
-/

namespace Sentinel.Processing

open Logic Ingestion ShiftDetector

variable {cfg : DetectorConfig} {threshold : ThresholdConfig} {ticks : List PriceTick}
  {bars : List SecondBar} {nowMs : ℤ} {market : MarketMetadata}

/-! ## Recent ticks -/

/-- The ticks whose seconds began after the buffer did. -/
def recent (cfg : DetectorConfig) (nowMs : ℤ) (ticks : List PriceTick) : List PriceTick :=
  ticks.filter fun t => pruneCutoff cfg nowMs ≤ bucketMs t.timestampMs

theorem InOrder.filter (h : InOrder ticks) (p : PriceTick → Bool) : InOrder (ticks.filter p) :=
  List.Pairwise.filter p h

theorem barWindow_nil {cutoffMs : ℤ} (h : ∀ bar ∈ bars, bar.secondTsMs < cutoffMs) :
    barWindow cutoffMs bars = [] :=
  List.filter_eq_nil_iff.mpr fun bar hbar => by simpa using h bar hbar

/-- To drop old bars is to group without the ticks of old seconds. -/
theorem barsFrom_grouped (h : InOrder ticks) (cutoffMs : ℤ) : barsFrom cutoffMs (grouped ticks) =
    grouped (ticks.filter fun t => cutoffMs ≤ bucketMs t.timestampMs) := by
  rw [barsFrom_eq_filter (sorted_grouped h)]
  show barWindow cutoffMs (grouped ticks) = _
  induction ticks using List.reverseRecOn with
  | nil => rfl
  | append_singleton ticks tick ih =>
    obtain ⟨hinit, -, hle⟩ := List.pairwise_append.mp h
    have hle : ∀ t ∈ ticks, t.timestampMs ≤ tick.timestampMs := fun t ht => hle t ht tick (by simp)
    have ih := ih hinit
    have hascending := ascending_grouped hinit hle
    rw [grouped_append, List.filter_append]
    by_cases htick : cutoffMs ≤ bucketMs tick.timestampMs
    · rw [List.filter_cons_of_pos (by simpa using htick), List.filter_nil, grouped_append, ← ih]
      have hkept : ∀ (init : List SecondBar) (bar : SecondBar),
          bar.secondTsMs = bucketMs tick.timestampMs →
          barWindow cutoffMs (init ++ [bar]) = barWindow cutoffMs init ++ [bar] := by
        intro init bar hbar
        unfold barWindow
        rw [List.filter_append, List.filter_cons_of_pos (by rw [hbar]; simpa using htick),
          List.filter_nil]
      rcases hascending.cases le_rfl with ⟨init, last, hgrouped, hlast, -⟩ | hlater
      · rw [hgrouped, upsertBar_concat hlast, hkept _ _ hlast, hkept _ (last.add tick) hlast,
          upsertBar_concat hlast]
      · have hlater' : ∀ bar ∈ barWindow cutoffMs (grouped ticks),
            bar.secondTsMs < bucketMs tick.timestampMs :=
          fun bar hbar => hlater bar (List.mem_of_mem_filter hbar)
        rw [upsertBar_later hlater, upsertBar_later hlater', hkept _ (newBar tick) rfl]
    · -- the second of the tick is too old, and so are those before
      have hold : ∀ bar ∈ upsertBar (grouped ticks) tick, bar.secondTsMs < cutoffMs :=
        fun bar hbar => ((hascending.upsertBar le_rfl).le bar hbar).trans_lt (not_le.mp htick)
      have hold' : ∀ bar ∈ grouped ticks, bar.secondTsMs < cutoffMs :=
        fun bar hbar => (hascending.le bar hbar).trans_lt (not_le.mp htick)
      rw [List.filter_cons_of_neg (by simpa using htick), List.filter_nil, List.append_nil, ← ih,
        barWindow_nil hold, barWindow_nil hold']

/-- The bars that a scan goes by. -/
theorem pruned_eq (h : Remembers cfg nowMs bars ticks) (hordered : InOrder ticks) :
    pruneBars cfg nowMs bars = grouped (recent cfg nowMs ticks) := by
  rw [h.pruned hordered, barsFrom_grouped hordered]
  rfl

theorem grouped_eq_nil : grouped ticks = [] ↔ ticks = [] := by
  rcases List.eq_nil_or_concat' ticks with rfl | ⟨init, last, rfl⟩
  · exact ⟨fun _ => rfl, fun _ => rfl⟩
  · rw [grouped_append, upsertBar]
    constructor
    · intro h
      split at h
      · split_ifs at h <;> simp at h
      · simp at h
    · simp

/-! ## The shift -/

/-- There are ticks of two different seconds. -/
def SeveralSeconds (ticks : List PriceTick) : Prop :=
  ∃ t ∈ ticks, ∃ u ∈ ticks, bucketMs t.timestampMs ≠ bucketMs u.timestampMs

instance : Decidable (SeveralSeconds ticks) :=
  inferInstanceAs (Decidable (∃ t ∈ ticks, ∃ u ∈ ticks, _))

theorem several_iff (h : InOrder ticks) : 2 ≤ (grouped ticks).length ↔ SeveralSeconds ticks := by
  constructor
  · intro hlength
    match hbars : grouped ticks with
    | [] | [_] =>
      rw [hbars] at hlength
      simp at hlength
    | first :: second :: rest =>
      have hlt : first.secondTsMs < second.secondTsMs := by
        have hsorted := sorted_grouped h
        rw [hbars] at hsorted
        exact (List.pairwise_cons.mp hsorted).1 second List.mem_cons_self
      have hticks : ∀ bar ∈ grouped ticks, ∃ t ∈ ticks, bucketMs t.timestampMs = bar.secondTsMs := by
        intro bar hbar
        obtain ⟨t, hopener, -⟩ := exists_opener h hbar
        exact ⟨t, List.mem_of_find?_eq_some hopener, by simpa using List.find?_some hopener⟩
      obtain ⟨t, ht, hfirst⟩ := hticks first (by rw [hbars]; simp)
      obtain ⟨u, hu, hsecond⟩ := hticks second (by rw [hbars]; simp)
      exact ⟨t, ht, u, hu, by omega⟩
  · rintro ⟨t, ht, u, hu, hne⟩
    obtain ⟨bar, hbar, hsecond⟩ := exists_bar h t ht
    obtain ⟨bar', hbar', hsecond'⟩ := exists_bar h u hu
    by_contra hlength
    match hbars : grouped ticks with
    | [] =>
      rw [hbars] at hbar
      exact List.not_mem_nil hbar
    | [only] =>
      rw [hbars, List.mem_singleton] at hbar hbar'
      rw [hbar] at hsecond
      rw [hbar'] at hsecond'
      exact hne (hsecond.symm.trans hsecond')
    | _ :: _ :: _ =>
      rw [hbars] at hlength
      simp at hlength

/-- `_compute_delta` of ticks. -/
def rawShift (threshold : ThresholdConfig) (ticks : List PriceTick) : Option Delta :=
  if SeveralSeconds ticks then
    (rawDelta threshold ticks).filter fun delta =>
      delta.startPrice ≠ 0 ∧ threshold.minTicks ≤ delta.tickCount
  else none

theorem computeDelta_grouped (h : InOrder ticks) :
    computeDelta threshold (grouped ticks) = rawShift threshold ticks := by
  rw [computeDelta, rawShift]
  by_cases hseveral : SeveralSeconds ticks
  · have hlength := (several_iff h).mpr hseveral
    rw [if_neg (by omega), if_pos hseveral]
    obtain ⟨t, ht, -⟩ := hseveral
    obtain ⟨last, hlast⟩ : ∃ last, ticks.getLast? = some last :=
      ⟨_, List.getLast?_eq_some_getLast (List.ne_nil_of_mem ht)⟩
    obtain ⟨bar, hbar, hsecond, hprice⟩ := getLast?_grouped h hlast
    have hcutoff : bar.secondTsMs - threshold.windowSec * 1000 = rawCutoff threshold last := by
      rw [hsecond, rawCutoff]
    have hdvd : 1000 ∣ rawCutoff threshold last := by
      rw [rawCutoff, bucketMs, ← sub_mul]
      exact Dvd.intro_left _ rfl
    obtain ⟨-, hcount, hfirst⟩ := covers_grouped h hdvd
    rw [rawDelta, hlast, hbar, Option.bind_some]
    dsimp only
    rw [hcutoff]
    unfold barWindow at hfirst
    cases hopen : (tickWindow (rawCutoff threshold last) ticks).head? with
    | none =>
      rw [hopen, Option.map_none, Option.map_eq_none_iff] at hfirst
      rw [hfirst]
      rfl
    | some first =>
      rw [hopen, Option.map_some] at hfirst
      obtain ⟨bar', hbar', hstart⟩ := Option.map_eq_some_iff.mp hfirst
      have hcount' : ((List.filter (fun bar : SecondBar =>
          decide (rawCutoff threshold last ≤ bar.secondTsMs)) (grouped ticks)).map
            SecondBar.tickCount).sum = (tickWindow (rawCutoff threshold last) ticks).length := hcount
      rw [hbar', Option.map_some, Option.filter_some]
      dsimp only
      rw [hprice, hstart, hcount']
      by_cases hzero : first.price = 0
      · simp [hzero]
      · by_cases hfew : (tickWindow (rawCutoff threshold last) ticks).length < threshold.minTicks
        · rw [if_neg hzero, if_pos hfew, if_neg]
          simpa [hzero] using hfew
        · rw [if_neg hzero, if_neg hfew, if_pos]
          simpa [hzero] using hfew
  · have hlength := mt (several_iff h).mp hseveral
    rw [if_pos (by omega), if_neg hseveral]

/-! ## The quotes -/

/-- The last tick with a spread. -/
def lastQuoted (ticks : List PriceTick) : Option PriceTick :=
  ticks.reverse.find? fun t => t.spread.isSome

/-- The last quote in bars is that of the last tick that has one. -/
theorem latestWithQuote_grouped (ticks : List PriceTick) : (latestWithQuote (grouped ticks)).map (fun bar =>
      (bar.spreadLast, bar.quoteTsMs)) = (lastQuoted ticks).map fun t => (t.spread, t.quoteTsMs) := by
  induction ticks using List.reverseRecOn with
  | nil => rfl
  | append_singleton ticks tick ih =>
    unfold lastQuoted latestWithQuote at ih ⊢
    rw [grouped_append, List.reverse_append, List.reverse_singleton, List.singleton_append,
      List.find?_cons]
    by_cases hspread : tick.spread.isSome
    · have hnew : ∀ (init : List SecondBar) (bar : SecondBar), bar.spreadLast = tick.spread →
          bar.quoteTsMs = tick.quoteTsMs →
          ((init ++ [bar]).reverse.find? fun bar => bar.spreadLast.isSome).map
            (fun bar => (bar.spreadLast, bar.quoteTsMs)) = some (tick.spread, tick.quoteTsMs) := by
        intro init bar hlast hquote
        rw [List.reverse_append, List.reverse_singleton, List.singleton_append,
          List.find?_cons_of_pos (by rw [hlast]; exact hspread), Option.map_some, hlast, hquote]
      rw [hspread, Option.map_some, upsertBar]
      split
      · next last hlast =>
        split_ifs
        · exact hnew _ _ (if_pos hspread) (if_pos hspread)
        · exact hnew _ _ rfl rfl
      · exact hnew [] _ rfl rfl
    · rw [eq_false_of_ne_true hspread]
      dsimp only
      rw [← ih, upsertBar]
      split
      · next last hlast =>
        obtain ⟨init, hinit⟩ := List.getLast?_eq_some_iff.mp hlast
        rw [hinit]
        split_ifs
        · -- the bar keeps the quote that it has
          rw [List.dropLast_concat, List.reverse_append, List.reverse_append,
            List.reverse_singleton, List.reverse_singleton, List.singleton_append,
            List.singleton_append, List.find?_cons, List.find?_cons]
          simp only [SecondBar.add, if_neg hspread]
          cases last.spreadLast.isSome <;> rfl
        · rw [List.reverse_append, List.reverse_singleton, List.singleton_append,
            List.find?_cons_of_neg (by simpa [newBar] using hspread)]
      · next hnone =>
        rw [List.getLast?_eq_none_iff.mp hnone]
        exact congrArg _ (List.find?_cons_of_neg (by simpa [newBar] using hspread))

/-- Whether there is a quote to go by, or none is expected yet. -/
def Quoted (cfg : DetectorConfig) (nowMs : ℤ) (market : MarketMetadata) : Option PriceTick → Prop
  | none => nowMs - market.subscribedAtMs ≤ cfg.warmupGraceSec * 1000
  | some quoted => nowMs - quoted.quoteTsMs.getD 0 ≤ cfg.maxQuoteAgeSec * 1000 ∧
    quoted.spread.getD 0 ≤ cfg.maxSpreadForDetection ∧ market.active = true

instance : ∀ quoted, Decidable (Quoted cfg nowMs market quoted)
  | none => inferInstanceAs (Decidable (_ ≤ _))
  | some _ => inferInstanceAs (Decidable (_ ∧ _))

/-- `_should_skip` of the ticks of a known market, the other way round. -/
def Readable (cfg : DetectorConfig) (nowMs : ℤ) (market : MarketMetadata) (ticks : List PriceTick) :
    Prop :=
  (∃ last ∈ ticks.getLast?, nowMs - bucketMs last.timestampMs ≤ cfg.staleThresholdSec * 1000) ∧
    Quoted cfg nowMs market (lastQuoted ticks)

instance : Decidable (Readable cfg nowMs market ticks) :=
  inferInstanceAs (Decidable ((∃ last ∈ ticks.getLast?, _) ∧ _))

theorem shouldSkip_grouped (h : InOrder ticks) :
    shouldSkip cfg nowMs (some market) (grouped ticks) = false ↔ Readable cfg nowMs market ticks := by
  have hquotes := latestWithQuote_grouped ticks
  rw [shouldSkip, Readable]
  cases hlast : ticks.getLast? with
  | none =>
    rw [List.getLast?_eq_none_iff.mp hlast]
    simp [grouped]
  | some last =>
    obtain ⟨bar, hbar, hsecond, -⟩ := getLast?_grouped h hlast
    rw [hbar]
    dsimp only
    rw [hsecond]
    cases hquoted : lastQuoted ticks with
    | none =>
      rw [hquoted, Option.map_none, Option.map_eq_none_iff] at hquotes
      rw [hquotes]
      simp [Quoted]
    | some quoted =>
      rw [hquoted, Option.map_some] at hquotes
      obtain ⟨bar', hbar', heq⟩ := Option.map_eq_some_iff.mp hquotes
      obtain ⟨hspread, hquote⟩ := Prod.mk.inj heq
      rw [hbar']
      dsimp only
      rw [hspread, hquote]
      simp [Quoted]

/-! ## What a scan finds -/

/-- The shift at a level, if it is large enough. -/
def shown (threshold : ThresholdConfig) (ticks : List PriceTick) : Option Delta :=
  (rawShift threshold ticks).filter fun delta => threshold.deltaPct ≤ delta.deltaPct

/-- The shift that an alert of a level would tell of now. -/
def due (cfg : DetectorConfig) (nowMs : ℤ) (market : MarketMetadata) (ticks : List PriceTick)
    (level : AlertLevel) : Option Delta :=
  if Readable cfg nowMs market (recent cfg nowMs ticks) then
    shown (cfg.thresholds level) (recent cfg nowMs ticks)
  else none

end Sentinel.Processing
