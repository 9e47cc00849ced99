import Mathlib.Data.List.Induction
import Sentinel.Processing.Detector

/-!
# Ticks in bars

The bars of a list of ticks that come in the order of their timestamps: one for each second in which
there is a tick.  What the detector reads off the bars of a window is what the ticks of the window
say, as long as the window begins with a second.

* `grouped`: all bars of a list of ticks.
* `barsFrom_upsertBar`: dropping old bars before or after a tick makes no difference.
* `covers_grouped`, `getLast?_grouped`: the window in bars and in ticks.
* `quoted_grouped`: the quote of a bar is that of a tick.
-/

namespace Sentinel.Processing

open Ingestion

variable {ticks : List PriceTick} {tick : PriceTick} {bars : List SecondBar} {bar : SecondBar}
  {cutoffMs : ℤ}

/-! ## Seconds -/

theorem lt_bucketMs_add (ts : ℤ) : ts < bucketMs ts + 1000 := by
  rw [bucketMs]
  omega

theorem bucketMs_mono {a b : ℤ} (h : a ≤ b) : bucketMs a ≤ bucketMs b := by
  rw [bucketMs, bucketMs]
  omega

/-- A tick is in the window from a full second on just if its second is. -/
theorem le_bucketMs_iff {ts : ℤ} (h : 1000 ∣ cutoffMs) : cutoffMs ≤ bucketMs ts ↔ cutoffMs ≤ ts := by
  obtain ⟨k, rfl⟩ := h
  rw [bucketMs]
  omega

/-! ## All bars -/

def grouped (ticks : List PriceTick) : List SecondBar := ticks.foldl upsertBar []

theorem grouped_append : grouped (ticks ++ [tick]) = upsertBar (grouped ticks) tick := by
  rw [grouped, List.foldl_append]
  rfl

/-- The ticks come in the order of their timestamps. -/
def InOrder (ticks : List PriceTick) : Prop :=
  ticks.Pairwise fun a b => a.timestampMs ≤ b.timestampMs

theorem InOrder.append (h : InOrder ticks) (hle : ∀ t ∈ ticks, t.timestampMs ≤ tick.timestampMs) :
    InOrder (ticks ++ [tick]) := by
  refine List.pairwise_append.mpr ⟨h, List.pairwise_singleton _ _, fun a ha b hb => ?_⟩
  obtain rfl := List.mem_singleton.mp hb
  exact hle a ha

theorem upsertBar_concat {init : List SecondBar} (h : bar.secondTsMs = bucketMs tick.timestampMs) :
    upsertBar (init ++ [bar]) tick = init ++ [bar.add tick] := by
  simp only [upsertBar, List.getLast?_concat, if_pos h, List.dropLast_concat]

theorem upsertBar_later (h : ∀ bar ∈ bars, bar.secondTsMs < bucketMs tick.timestampMs) :
    upsertBar bars tick = bars ++ [newBar tick] := by
  rw [upsertBar]
  split
  · next last hlast =>
    rw [if_neg (h last (List.mem_of_getLast? hlast)).ne]
  · next hnone =>
    rw [List.getLast?_eq_none_iff.mp hnone, List.nil_append]

/-- The seconds of the bars grow, and none is later than that of `lastMs`. -/
structure Ascending (bars : List SecondBar) (lastMs : ℤ) : Prop where
  sorted : bars.Pairwise fun a b => a.secondTsMs < b.secondTsMs
  le : ∀ bar ∈ bars, bar.secondTsMs ≤ bucketMs lastMs

/-- A tick is of the second of the last bar, or later than all bars. -/
theorem Ascending.cases {lastMs : ℤ} (h : Ascending bars lastMs) (hle : lastMs ≤ tick.timestampMs) :
    (∃ init last, bars = init ++ [last] ∧ last.secondTsMs = bucketMs tick.timestampMs ∧
      ∀ bar ∈ init, bar.secondTsMs < last.secondTsMs) ∨
    ∀ bar ∈ bars, bar.secondTsMs < bucketMs tick.timestampMs := by
  have hbucket := bucketMs_mono hle
  rcases List.eq_nil_or_concat' bars with rfl | ⟨init, last, rfl⟩
  · exact Or.inr fun bar hbar => absurd hbar List.not_mem_nil
  · have hinit : ∀ bar ∈ init, bar.secondTsMs < last.secondTsMs :=
      fun bar hbar => (List.pairwise_append.mp h.sorted).2.2 bar hbar last (by simp)
    have hlast := (h.le last (by simp)).trans hbucket
    by_cases hsame : last.secondTsMs = bucketMs tick.timestampMs
    · exact Or.inl ⟨init, last, rfl, hsame, hinit⟩
    · refine Or.inr fun bar hbar => ?_
      rcases List.mem_append.mp hbar with hbar | hbar
      · exact (hinit bar hbar).trans_le hlast
      · obtain rfl := List.mem_singleton.mp hbar
        exact lt_of_le_of_ne hlast hsame

theorem Ascending.upsertBar {lastMs : ℤ} (h : Ascending bars lastMs)
    (hle : lastMs ≤ tick.timestampMs) : Ascending (upsertBar bars tick) tick.timestampMs := by
  rcases h.cases hle with ⟨init, last, rfl, hlast, hinit⟩ | hlater
  · rw [upsertBar_concat hlast]
    refine ⟨List.pairwise_append.mpr ⟨(List.pairwise_append.mp h.sorted).1,
      List.pairwise_singleton _ _, fun a ha b hb => ?_⟩, fun bar hbar => ?_⟩
    · obtain rfl := List.mem_singleton.mp hb
      exact hinit a ha
    · rcases List.mem_append.mp hbar with hbar | hbar
      · exact ((hinit bar hbar).trans_eq hlast).le
      · obtain rfl := List.mem_singleton.mp hbar
        exact hlast.le
  · rw [upsertBar_later hlater]
    refine ⟨List.pairwise_append.mpr ⟨h.sorted, List.pairwise_singleton _ _, fun a ha b hb => ?_⟩,
      fun bar hbar => ?_⟩
    · obtain rfl := List.mem_singleton.mp hb
      exact hlater a ha
    · rcases List.mem_append.mp hbar with hbar | hbar
      · exact (hlater bar hbar).le
      · obtain rfl := List.mem_singleton.mp hbar
        exact le_rfl

theorem ascending_grouped {last : PriceTick} (h : InOrder ticks)
    (hlast : ∀ t ∈ ticks, t.timestampMs ≤ last.timestampMs) :
    Ascending (grouped ticks) last.timestampMs := by
  induction ticks using List.reverseRecOn generalizing last with
  | nil => exact ⟨List.Pairwise.nil, fun _ h => absurd h List.not_mem_nil⟩
  | append_singleton ticks tick ih =>
    obtain ⟨hinit, -, hle⟩ := List.pairwise_append.mp h
    have htick := (ih hinit fun t ht => hle t ht tick (by simp)).upsertBar le_rfl
    rw [grouped_append]
    refine ⟨htick.sorted, fun bar hbar => (htick.le bar hbar).trans (bucketMs_mono ?_)⟩
    exact hlast tick (by simp)

/-! ## Old bars -/

theorem barsFrom_eq_filter (h : bars.Pairwise fun a b => a.secondTsMs < b.secondTsMs) :
    barsFrom cutoffMs bars = bars.filter fun bar => cutoffMs ≤ bar.secondTsMs := by
  rw [barsFrom]
  induction bars with
  | nil => rfl
  | cons bar bars ih =>
    obtain ⟨hlt, hrest⟩ := List.pairwise_cons.mp h
    by_cases hbar : bar.secondTsMs < cutoffMs
    · rw [List.dropWhile_cons_of_pos (by simpa using hbar), ih hrest,
        List.filter_cons_of_neg (by simpa using hbar)]
    · have hall : ∀ b ∈ bar :: bars, decide (cutoffMs ≤ b.secondTsMs) = true := by
        intro b hb
        have hle : bar.secondTsMs ≤ b.secondTsMs := by
          rcases List.mem_cons.mp hb with rfl | hb
          · exact le_rfl
          · exact (hlt b hb).le
        simpa using (not_lt.mp hbar).trans hle
      rw [List.dropWhile_cons_of_neg (by simpa using hbar), List.filter_eq_self.mpr hall]

theorem barsFrom_barsFrom {cutoffMs' : ℤ} (hle : cutoffMs ≤ cutoffMs')
    (h : bars.Pairwise fun a b => a.secondTsMs < b.secondTsMs) :
    barsFrom cutoffMs' (barsFrom cutoffMs bars) = barsFrom cutoffMs' bars := by
  have hfrom : (barsFrom cutoffMs bars).Pairwise fun a b => a.secondTsMs < b.secondTsMs :=
    h.sublist (List.dropWhile_sublist _)
  rw [barsFrom_eq_filter hfrom, barsFrom_eq_filter h, barsFrom_eq_filter h, List.filter_filter]
  refine List.filter_congr fun bar _ => ?_
  by_cases hbar : cutoffMs' ≤ bar.secondTsMs
  · simp [hbar, hle.trans hbar]
  · simp [hbar]

/-- Old bars may be dropped before or after a tick. -/
theorem barsFrom_upsertBar {cutoffMs' lastMs : ℤ} (hle : cutoffMs ≤ cutoffMs')
    (h : Ascending bars lastMs) (htick : lastMs ≤ tick.timestampMs) :
    barsFrom cutoffMs' (upsertBar (barsFrom cutoffMs bars) tick) =
      barsFrom cutoffMs' (upsertBar bars tick) := by
  have hfrom : Ascending (barsFrom cutoffMs bars) lastMs :=
    ⟨h.sorted.sublist (List.dropWhile_sublist _),
      fun bar hbar => h.le bar ((List.dropWhile_sublist _).subset hbar)⟩
  rw [barsFrom_eq_filter (hfrom.upsertBar htick).sorted,
    barsFrom_eq_filter (h.upsertBar htick).sorted, barsFrom_eq_filter h.sorted]
  have hfilter : ∀ bars : List SecondBar,
      (bars.filter fun bar => cutoffMs ≤ bar.secondTsMs).filter (fun bar => cutoffMs' ≤ bar.secondTsMs) =
        bars.filter fun bar => cutoffMs' ≤ bar.secondTsMs := by
    intro bars
    rw [List.filter_filter]
    refine List.filter_congr fun bar _ => ?_
    by_cases hbar : cutoffMs' ≤ bar.secondTsMs
    · simp [hbar, hle.trans hbar]
    · simp [hbar]
  rcases h.cases htick with ⟨init, last, rfl, hlast, hinit⟩ | hlater
  · rw [upsertBar_concat hlast, List.filter_append]
    by_cases hkept : cutoffMs ≤ last.secondTsMs
    · have hone : [last].filter (fun bar => cutoffMs ≤ bar.secondTsMs) = [last] :=
        List.filter_cons_of_pos (by simpa using hkept)
      rw [hone, upsertBar_concat hlast, List.filter_append, List.filter_append, hfilter]
    · -- the bar of the tick is dropped before it, and what comes of the tick after it
      have hlt : last.secondTsMs < cutoffMs := not_le.mp hkept
      have hdropped : ∀ c, cutoffMs ≤ c → ∀ bar ∈ init, ¬ c ≤ bar.secondTsMs :=
        fun c hc bar hbar => not_le.mpr (((hinit bar hbar).trans hlt).trans_le hc)
      have hempty : init.filter (fun bar => cutoffMs ≤ bar.secondTsMs) = [] :=
        List.filter_eq_nil_iff.mpr fun bar hbar => by simpa using hdropped cutoffMs le_rfl bar hbar
      have hempty' : init.filter (fun bar => cutoffMs' ≤ bar.secondTsMs) = [] :=
        List.filter_eq_nil_iff.mpr fun bar hbar => by simpa using hdropped cutoffMs' hle bar hbar
      have hone : [last].filter (fun bar => cutoffMs ≤ bar.secondTsMs) = [] :=
        List.filter_cons_of_neg (by simpa using hlt)
      have hsecond : ∀ b : SecondBar, b.secondTsMs = last.secondTsMs →
          [b].filter (fun bar => cutoffMs' ≤ bar.secondTsMs) = [] := by
        intro b hb
        exact List.filter_cons_of_neg (by rw [hb]; simpa using hlt.trans_le hle)
      rw [hempty, hone, List.filter_append, hempty', hsecond (last.add tick) rfl]
      exact hsecond (newBar tick) hlast.symm
  · have hlater' : ∀ bar ∈ bars.filter fun bar => cutoffMs ≤ bar.secondTsMs,
        bar.secondTsMs < bucketMs tick.timestampMs :=
      fun bar hbar => hlater bar (List.mem_of_mem_filter hbar)
    rw [upsertBar_later hlater, upsertBar_later hlater', List.filter_append, List.filter_append,
      hfilter]

/-! ## A window that begins with a second -/

section Window

/-- The bars and the ticks from a time on. -/
def barWindow (cutoffMs : ℤ) (bars : List SecondBar) : List SecondBar :=
  bars.filter fun bar => cutoffMs ≤ bar.secondTsMs

def tickWindow (cutoffMs : ℤ) (ticks : List PriceTick) : List PriceTick :=
  ticks.filter fun tick => cutoffMs ≤ tick.timestampMs

/-- The bars of a window say as much as its ticks. -/
structure Covers (bars : List SecondBar) (ticks : List PriceTick) : Prop where
  empty : bars = [] ↔ ticks = []
  count : (bars.map SecondBar.tickCount).sum = ticks.length
  first : bars.head?.map SecondBar.priceOpen = ticks.head?.map PriceTick.price

/-- A tick of a later second. -/
theorem Covers.append (h : Covers bars ticks) : Covers (bars ++ [newBar tick]) (ticks ++ [tick]) := by
  refine ⟨by simp, ?_, ?_⟩
  · rw [List.map_append, List.sum_append, h.count, List.length_append]
    simp [newBar]
  · cases ticks with
    | nil =>
      rw [h.empty.mpr rfl]
      rfl
    | cons t ticks =>
      have hne : bars ≠ [] := fun hnil => List.cons_ne_nil _ _ (h.empty.mp hnil)
      rw [List.head?_append_of_ne_nil _ hne, h.first]
      rfl

/-- A tick of the second of the last bar. -/
theorem Covers.add (h : Covers (bars ++ [bar]) ticks) :
    Covers (bars ++ [bar.add tick]) (ticks ++ [tick]) := by
  have hne : ticks ≠ [] := fun hnil => by simpa using h.empty.mpr hnil
  refine ⟨by simp, ?_, ?_⟩
  · have hcount := h.count
    rw [List.map_append, List.sum_append] at hcount ⊢
    rw [List.length_append, Nat.cast_add, ← hcount]
    simp [SecondBar.add, add_assoc]
  · rw [List.head?_append_of_ne_nil _ hne, ← h.first]
    cases bars <;> rfl

/-- The window in bars is that in ticks. -/
theorem covers_grouped (h : InOrder ticks) (hcutoff : 1000 ∣ cutoffMs) :
    Covers (barWindow cutoffMs (grouped ticks)) (tickWindow cutoffMs ticks) := by
  induction ticks using List.reverseRecOn with
  | nil => exact ⟨⟨fun _ => rfl, fun _ => rfl⟩, rfl, rfl⟩
  | append_singleton ticks tick ih =>
    obtain ⟨hinit, -, hle⟩ := List.pairwise_append.mp h
    have hle : ∀ t ∈ ticks, t.timestampMs ≤ tick.timestampMs := fun t ht => hle t ht tick (by simp)
    have ih := ih hinit
    have htick : tickWindow cutoffMs [tick] =
        if cutoffMs ≤ bucketMs tick.timestampMs then [tick] else [] := by
      split_ifs with hin
      · exact List.filter_cons_of_pos (by simpa using (le_bucketMs_iff hcutoff).mp hin)
      · exact List.filter_cons_of_neg (by simpa [le_bucketMs_iff hcutoff] using hin)
    have hbars : ∀ b : SecondBar, b.secondTsMs = bucketMs tick.timestampMs → barWindow cutoffMs [b] =
        if cutoffMs ≤ bucketMs tick.timestampMs then [b] else [] := by
      intro b hb
      split_ifs with hin
      · exact List.filter_cons_of_pos (by rw [hb]; simpa using hin)
      · exact List.filter_cons_of_neg (by rw [hb]; simpa using hin)
    have happend : ∀ l l' : List SecondBar,
        barWindow cutoffMs (l ++ l') = barWindow cutoffMs l ++ barWindow cutoffMs l' :=
      fun l l' => List.filter_append l l'
    have happend' : tickWindow cutoffMs (ticks ++ [tick]) =
        tickWindow cutoffMs ticks ++ tickWindow cutoffMs [tick] := List.filter_append _ _
    rw [grouped_append, happend', htick]
    rcases (ascending_grouped hinit hle).cases le_rfl with ⟨init, last, hgrouped, hlast, -⟩ | hlater
    · rw [hgrouped, happend, hbars last hlast] at ih
      rw [hgrouped, upsertBar_concat hlast, happend, hbars (last.add tick) hlast]
      split_ifs at ih ⊢ with hin
      · exact ih.add
      · simpa only [List.append_nil] using ih
    · rw [upsertBar_later hlater, happend, hbars (newBar tick) rfl]
      split_ifs with hin
      · exact ih.append
      · simpa only [List.append_nil] using ih

end Window

/-! ## The last bar, and the last quote -/

/-- The last bar is that of the last tick. -/
theorem getLast?_grouped (h : InOrder ticks) (hlast : ticks.getLast? = some tick) :
    ∃ bar, (grouped ticks).getLast? = some bar ∧ bar.secondTsMs = bucketMs tick.timestampMs ∧
      bar.priceLast = tick.price := by
  obtain ⟨init, rfl⟩ := List.getLast?_eq_some_iff.mp hlast
  obtain ⟨hinit, -, hle⟩ := List.pairwise_append.mp h
  rw [grouped_append]
  rcases (ascending_grouped hinit fun t ht => hle t ht tick (by simp)).cases le_rfl with
    ⟨bars, last, hgrouped, hlast, -⟩ | hlater
  · rw [hgrouped, upsertBar_concat hlast]
    exact ⟨_, List.getLast?_concat, hlast, rfl⟩
  · rw [upsertBar_later hlater]
    exact ⟨_, List.getLast?_concat, rfl, rfl⟩

/-- The quotes of the ticks are from when the ticks are. -/
def QuotedAtOnce (ticks : List PriceTick) : Prop :=
  ∀ t ∈ ticks, t.spread.isSome → t.quoteTsMs = some t.timestampMs

/-- The quote of a bar is that of a tick. -/
theorem quoted_grouped (h : QuotedAtOnce ticks) (hbar : bar ∈ grouped ticks)
    (hquoted : bar.spreadLast.isSome) : ∃ t ∈ ticks, bar.quoteTsMs = some t.timestampMs := by
  induction ticks using List.reverseRecOn generalizing bar with
  | nil => exact absurd hbar List.not_mem_nil
  | append_singleton ticks tick ih =>
    have hold : ∀ b ∈ grouped ticks, b.spreadLast.isSome →
        ∃ t ∈ ticks ++ [tick], b.quoteTsMs = some t.timestampMs := by
      intro b hb hquoted
      obtain ⟨t, ht, heq⟩ := ih (fun t ht => h t (List.mem_append_left _ ht)) hb hquoted
      exact ⟨t, List.mem_append_left _ ht, heq⟩
    have htick : tick.spread.isSome → tick.quoteTsMs = some tick.timestampMs :=
      h tick (by simp)
    rw [grouped_append, upsertBar] at hbar
    split at hbar
    · next last hlast =>
      have hmem := List.mem_of_getLast? hlast
      split_ifs at hbar
      · rcases List.mem_append.mp hbar with hbar | hbar
        · exact hold bar ((List.dropLast_subset _) hbar) hquoted
        · obtain rfl := List.mem_singleton.mp hbar
          by_cases hspread : tick.spread.isSome
          · refine ⟨tick, by simp, ?_⟩
            simp only [SecondBar.add, if_pos hspread]
            exact htick hspread
          · simp only [SecondBar.add, if_neg hspread] at hquoted ⊢
            exact hold last hmem hquoted
      · rcases List.mem_append.mp hbar with hbar | hbar
        · exact hold bar hbar hquoted
        · obtain rfl := List.mem_singleton.mp hbar
          exact ⟨tick, by simp, htick hquoted⟩
    · obtain rfl := List.mem_singleton.mp hbar
      exact ⟨tick, by simp, htick hquoted⟩

end Sentinel.Processing
