import Mathlib.Algebra.BigOperators.Group.List.Basic
import Mathlib.Data.List.DropRight
import Mathlib.Data.List.TakeWhile
import Sentinel.Processing.Deques

/-!
# The buffer of an asset

`_upsert_bar` looks at the last bar only and `_prune_bars` at the first only.  Both are right as long
as the seconds of the deque grow, and a tick of an earlier second is put at the end all the same.

* `Buffered`: what a deque should be after a tick or a pruning.
* `buffered_iff`: a deque always is, just if no tick comes late whose successors are still kept.
-/

namespace Sentinel.Processing

open Logic Ingestion ShiftDetector

/-! ## The deque as it should be -/

/-- The ticks of the seconds from a time on. -/
def countFrom (cutoffMs : ℤ) (ticks : List PriceTick) : ℕ :=
  ticks.countP fun tick => cutoffMs ≤ bucketMs tick.timestampMs

/-- The seconds grow, the ticks from the cutoff on are all counted, and no bar is older. -/
structure Buffered (cutoffMs : ℤ) (bars : List SecondBar) (ticks : List PriceTick) : Prop where
  sorted : bars.Pairwise fun a b => a.secondTsMs < b.secondTsMs
  counted : (bars.map SecondBar.tickCount).sum = countFrom cutoffMs ticks
  recent : ∀ bar ∈ bars, cutoffMs ≤ bar.secondTsMs

/-- The second of a tick is not earlier than that of the last bar, unless this one is dropped. -/
def InTime (cfg : DetectorConfig) (nowMs : ℤ) (bars : List SecondBar) (tick : PriceTick) : Prop :=
  ∀ last ∈ bars.getLast?, last.secondTsMs ≤ bucketMs tick.timestampMs ∨
    last.secondTsMs < pruneCutoff cfg nowMs

section Deque

variable {cfg : DetectorConfig} {bars : List SecondBar} {ticks : List PriceTick} {tick : PriceTick}
  {nowMs cutoffMs cutoffMs' : ℤ}

/-! ## Counting from any later time -/

/-- What a deque keeps between two prunings: the count is right from every later time on. -/
structure Tallied (cutoffMs : ℤ) (bars : List SecondBar) (ticks : List PriceTick) : Prop where
  sorted : bars.Pairwise fun a b => a.secondTsMs < b.secondTsMs
  counted : ∀ fromMs, cutoffMs ≤ fromMs →
    ((barWindow fromMs bars).map SecondBar.tickCount).sum = countFrom fromMs ticks

theorem Tallied.mono (h : Tallied cutoffMs bars ticks) (hle : cutoffMs ≤ cutoffMs') :
    Tallied cutoffMs' bars ticks :=
  ⟨h.sorted, fun fromMs hfrom => h.counted fromMs (hle.trans hfrom)⟩

theorem Tallied.prune (h : Tallied cutoffMs bars ticks) :
    Tallied cutoffMs (barsFrom cutoffMs bars) ticks := by
  refine ⟨h.sorted.sublist (List.dropWhile_sublist _), fun fromMs hfrom => ?_⟩
  rw [barWindow_barsFrom hfrom h.sorted]
  exact h.counted fromMs hfrom

/-- Just after a pruning nothing is older, so that the count is that of the whole deque. -/
theorem Tallied.buffered (h : Tallied cutoffMs bars ticks) :
    Buffered cutoffMs (barsFrom cutoffMs bars) ticks := by
  have hfilter : barsFrom cutoffMs bars = _ := barsFrom_eq_filter h.sorted
  refine ⟨h.prune.sorted, ?_, fun bar hbar => ?_⟩
  · rw [← h.counted cutoffMs le_rfl, barWindow, hfilter]
  · rw [hfilter] at hbar
    simpa using (List.mem_filter.mp hbar).2

theorem countFrom_concat (fromMs : ℤ) : countFrom fromMs (ticks ++ [tick]) =
    countFrom fromMs ticks + if fromMs ≤ bucketMs tick.timestampMs then 1 else 0 := by
  rw [countFrom, List.countP_append, List.countP_singleton, countFrom]
  simp

theorem sum_barWindow_concat (fromMs : ℤ) (bar : SecondBar) :
    ((barWindow fromMs (bars ++ [bar])).map SecondBar.tickCount).sum =
      ((barWindow fromMs bars).map SecondBar.tickCount).sum +
        if fromMs ≤ bar.secondTsMs then bar.tickCount else 0 := by
  rw [barWindow, List.filter_append, List.map_append, List.sum_append, barWindow]
  congr 1
  split_ifs with hin
  · rw [List.filter_cons_of_pos (by simpa using hin)]
    simp
  · rw [List.filter_cons_of_neg (by simpa using hin)]
    rfl

/-- A tick that is not earlier than the last bar. -/
theorem Tallied.upsert (h : Tallied cutoffMs bars ticks)
    (hlast : ∀ last ∈ bars.getLast?, last.secondTsMs ≤ bucketMs tick.timestampMs) :
    Tallied cutoffMs (upsertBar bars tick) (ticks ++ [tick]) := by
  have hascending : Ascending bars tick.timestampMs := by
    refine ⟨h.sorted, fun bar hbar => ?_⟩
    obtain ⟨init, last, rfl⟩ := (List.eq_nil_or_concat' bars).resolve_left (List.ne_nil_of_mem hbar)
    have hle := hlast last List.getLast?_concat
    rcases List.mem_append.mp hbar with hbar | hbar
    · exact ((List.pairwise_append.mp h.sorted).2.2 bar hbar last (by simp)).le.trans hle
    · obtain rfl := List.mem_singleton.mp hbar
      exact hle
  refine ⟨(hascending.upsertBar le_rfl).sorted, fun fromMs hfrom => ?_⟩
  have hcounted := h.counted fromMs hfrom
  rcases hascending.cases le_rfl with ⟨init, last, rfl, hsame, -⟩ | hlater
  · rw [upsertBar_concat hsame, sum_barWindow_concat, countFrom_concat, Nat.cast_add, ← hcounted,
      sum_barWindow_concat]
    simp only [SecondBar.add, hsame]
    by_cases hin : fromMs ≤ bucketMs tick.timestampMs <;> simp [hin, add_assoc]
  · rw [upsertBar_later hlater, sum_barWindow_concat, countFrom_concat, Nat.cast_add, ← hcounted]
    by_cases hin : fromMs ≤ bucketMs tick.timestampMs <;> simp [hin, newBar]

/-- A tick that is earlier than a last bar which is old now: nothing is left. -/
theorem Tallied.upsert_old (h : Tallied cutoffMs bars ticks) {last : SecondBar}
    (hlast : bars.getLast? = some last) (hlate : bucketMs tick.timestampMs < last.secondTsMs)
    (hold : last.secondTsMs < cutoffMs) :
    Tallied cutoffMs (barsFrom cutoffMs (upsertBar bars tick)) (ticks ++ [tick]) := by
  have hbars : ∀ bar ∈ bars, bar.secondTsMs < cutoffMs := by
    obtain ⟨init, rfl⟩ := List.getLast?_eq_some_iff.mp hlast
    intro bar hbar
    rcases List.mem_append.mp hbar with hbar | hbar
    · exact ((List.pairwise_append.mp h.sorted).2.2 bar hbar last (by simp)).trans hold
    · obtain rfl := List.mem_singleton.mp hbar
      exact hold
  have hempty : barsFrom cutoffMs (upsertBar bars tick) = [] := by
    rw [barsFrom, List.dropWhile_eq_nil_iff, upsertBar, hlast]
    dsimp only
    rw [if_neg hlate.ne']
    intro bar hbar
    rcases List.mem_append.mp hbar with hbar | hbar
    · simpa using hbars bar hbar
    · obtain rfl := List.mem_singleton.mp hbar
      exact decide_eq_true (hlate.trans hold)
  rw [hempty]
  refine ⟨List.Pairwise.nil, fun fromMs hfrom => ?_⟩
  have hnone : barWindow fromMs bars = [] :=
    List.filter_eq_nil_iff.mpr fun bar hbar => by simpa using (hbars bar hbar).trans_le hfrom
  have hcounted := h.counted fromMs hfrom
  have htick : ¬ fromMs ≤ bucketMs tick.timestampMs :=
    not_le.mpr ((hlate.trans hold).trans_le hfrom)
  rw [hnone] at hcounted
  rw [countFrom_concat, if_neg htick, add_zero, ← hcounted]
  rfl

theorem Tallied.ingest (h : Tallied (pruneCutoff cfg nowMs) bars ticks)
    (htime : InTime cfg nowMs bars tick) :
    Tallied (pruneCutoff cfg nowMs) (pruneBars cfg nowMs (upsertBar bars tick)) (ticks ++ [tick]) := by
  by_cases hlast : ∀ last ∈ bars.getLast?, last.secondTsMs ≤ bucketMs tick.timestampMs
  · exact (h.upsert hlast).prune
  · push Not at hlast
    obtain ⟨last, hlast, hlate⟩ := hlast
    exact h.upsert_old hlast hlate ((htime last hlast).resolve_left (not_le.mpr hlate))

/-- A late tick stays behind the last bar. -/
theorem inTime_of_sorted (h : (pruneBars cfg nowMs (upsertBar bars tick)).Pairwise
    fun a b => a.secondTsMs < b.secondTsMs) : InTime cfg nowMs bars tick := by
  intro last hlast
  by_contra hlate
  rw [not_or, not_le, not_lt] at hlate
  obtain ⟨init, rfl⟩ := List.getLast?_eq_some_iff.mp hlast
  have hupsert : upsertBar (init ++ [last]) tick = init ++ [last, newBar tick] := by
    rw [upsertBar, hlast]
    dsimp only
    rw [if_neg hlate.1.ne', List.append_assoc]
    rfl
  have hsuffix : [last, newBar tick] <:+ pruneBars cfg nowMs (upsertBar (init ++ [last]) tick) := by
    have hkeep : [last, newBar tick].dropWhile (fun bar => bar.secondTsMs < pruneCutoff cfg nowMs) =
        [last, newBar tick] := List.dropWhile_cons_of_neg (by simpa using hlate.2)
    rw [hupsert, pruneBars, barsFrom, List.dropWhile_append, hkeep]
    split_ifs
    · exact List.suffix_rfl
    · exact List.suffix_append _ _
  have hlt := (List.pairwise_cons.mp (h.sublist hsuffix.sublist)).1 (newBar tick) List.mem_cons_self
  exact absurd hlt (not_lt.mpr hlate.1.le)

end Deque

/-! ## Along a run -/

section Runs

variable (py : AlertBuiltins) (cfg : DetectorConfig) (startMs : ℤ)

def loopRun (es : List LoopEvent) : Interleaving := es.foldl (loopStep py cfg) (loopStart startMs)

/-- Every tick and every pruning of a run leaves the deque as it should be. -/
def BufferKept (es : List LoopEvent) (id : ℕ) : Prop :=
  ∀ es' e nowMs, es' ++ [e] <+: es → prunedBy (loopRun py cfg startMs es') e = some (id, nowMs) →
    Buffered (pruneCutoff cfg nowMs) ((loopRun py cfg startMs (es' ++ [e])).detector.bars id)
      ((loopRun py cfg startMs (es' ++ [e])).ticks id)

variable {py cfg startMs} {es es' : List LoopEvent} {e : LoopEvent} {id : ℕ}

theorem loopRun_concat :
    loopRun py cfg startMs (es ++ [e]) = loopStep py cfg (loopRun py cfg startMs es) e := by
  rw [loopRun, List.foldl_append]
  rfl

variable (py cfg startMs) in
theorem kept_loopRun (es : List LoopEvent) : Kept (loopRun py cfg startMs es) := kept (reach_foldl es)

/-- The deque of an asset is kept just if none of its ticks comes late. -/
theorem buffered_iff
    (hclock : ∀ es' e, es' ++ [e] <+: es → Forward (loopRun py cfg startMs es') e) (id : ℕ) :
    BufferKept py cfg startMs es id ↔
      ∀ es' nowMs tick, es' ++ [.ingest nowMs tick] <+: es →
        (loopRun py cfg startMs es').detector.dequeFor tick.assetId = id →
        InTime cfg nowMs ((loopRun py cfg startMs es').detector.bars id) tick := by
  constructor
  · intro h es' nowMs tick hpre hid
    have hbuffered := h es' _ nowMs hpre (by rw [prunedBy, hid])
    have hbars := (kept_loopRun py cfg startMs es').own.bars_ingestTick cfg nowMs tick id
    rw [if_pos hid.symm] at hbars
    have hsorted := hbuffered.sorted
    rw [loopRun_concat, loopStep] at hsorted
    exact inTime_of_sorted (hbars ▸ hsorted)
  · intro h es' e nowMs hpre hpruned
    -- up to here no tick of the deque came late
    have hreach : Reach (loopStep py cfg) (loopStart startMs)
        (fun w e => Forward w e ∧ ∀ nowMs tick, e = .ingest nowMs tick →
          w.detector.dequeFor tick.assetId = id → InTime cfg nowMs (w.detector.bars id) tick)
        (loopRun py cfg startMs es') := by
      refine reach_of_prefixes fun es'' e' hpre' => ?_
      have hpre'' := hpre'.trans ((List.prefix_append es' [e]).trans hpre)
      exact ⟨hclock es'' e' hpre'', fun nowMs tick heq hid => h es'' nowMs tick (heq ▸ hpre'') hid⟩
    have htallied := dequeRule (P := fun nowMs => Tallied (pruneCutoff cfg nowMs)) id
      (fun _ _ h => h.1) (fun _ => ⟨List.Pairwise.nil, fun _ _ => rfl⟩)
      (fun hle h => h.mono (sub_le_sub_right hle _)) (fun h => h.prune)
      (fun hC hid h => h.ingest (hC.2 _ _ rfl hid)) hreach
    have hnow := (((hclock es' e hpre).step py cfg).2 id nowMs hpruned).1
    have htallied := htallied.mono (sub_le_sub_right hnow (cfg.bufferMaxAgeSec * 1000))
    rw [loopRun_concat]
    cases dequeStep py cfg (kept_loopRun py cfg startMs es') e id with
    | same hnot _ _ => exact absurd hpruned (hnot nowMs)
    | pruned nowMs' hpruned' hbars hticks =>
      obtain rfl : nowMs' = nowMs := by simpa using hpruned'.symm.trans hpruned
      rw [hbars, hticks]
      exact htallied.buffered
    | ingested nowMs' tick heq hid hbars hticks =>
      subst heq
      obtain rfl : nowMs' = nowMs := (Prod.mk.inj (Option.some.inj hpruned)).2
      rw [hbars, hticks]
      have hfrom := (htallied.ingest (h es' nowMs' tick hpre hid)).buffered
      rwa [pruneBars, barsFrom, barsFrom, List.dropWhile_idempotent] at hfrom

end Runs

namespace Sample

/-- The second tick is from before the bar of the first one. -/
def lateEvents : List LoopEvent :=
  [.ingest 1005000 (quotedTick (1 / 2) 1004000), .ingest 1006000 (quotedTick (1 / 2) 1002000)]

end Sample

theorem late_tick_behind : ¬ ∀ es,
    (∀ es' e, es' ++ [e] <+: es →
      Forward (loopRun Sample.alertBuiltins Sample.detectorConfig 1000000 es') e) →
    ∀ id, BufferKept Sample.alertBuiltins Sample.detectorConfig 1000000 es id := by
  intro h
  have hclock : allowed (loopStep Sample.alertBuiltins Sample.detectorConfig) Forward
      (loopStart 1000000) Sample.lateEvents = true := by decide +kernel
  have hkept := h Sample.lateEvents (fun _ _ => of_allowed hclock) 0
  have hsorted := (hkept [Sample.lateEvents.head (by decide)] _ 1006000 List.prefix_rfl
    (by decide +kernel)).sorted
  revert hsorted
  decide +kernel

/-- Ticks in time, one of them for a bar that is dropped at once. -/
theorem buffered_iff_expired :
    let es : List LoopEvent := [.ingest 1005000 (Sample.quotedTick (1 / 2) 1004000),
      .ingest 1905001 (Sample.quotedTick (1 / 2) 1002000)]
    BufferKept Sample.alertBuiltins Sample.detectorConfig 1000000 es 0 ↔
      ∀ es' nowMs tick, es' ++ [.ingest nowMs tick] <+: es →
        (loopRun Sample.alertBuiltins Sample.detectorConfig 1000000 es').detector.dequeFor
          tick.assetId = 0 →
        InTime Sample.detectorConfig nowMs
          ((loopRun Sample.alertBuiltins Sample.detectorConfig 1000000 es').detector.bars 0) tick := by
  intro es
  have hclock : allowed (loopStep Sample.alertBuiltins Sample.detectorConfig) Forward
      (loopStart 1000000) es = true := by decide +kernel
  exact buffered_iff (fun _ _ => of_allowed hclock) 0

end Sentinel.Processing
