import Mathlib.Tactic.NormNum
import Sentinel.Analyst.Indicators
import Sentinel.Analyst.Worker

/-!
# What the features tell

The features of a candidate print an indicator that is zero as if there were none.

* `round_index_eq_zero_iff`: when the index is rounded to zero.
* `rsi_ne_zero_iff`, `sma_ne_zero_iff`, `realizedVolatility_ne_zero_iff`: on which prices an indicator
  is not zero, with all its rounding.
* `Moving`: the histories on which none is.
-/

namespace Sentinel.Analyst

open Logic Contracts

/-- The ratio of gains to losses up to which the index is rounded to zero. -/
def leastRatio : ℚ := 5 / 10 ^ 28 + 5 / 10 ^ 56

section Index

open DecimalContext FloatFormat

variable {x : ℚ}

theorem round_one : format.round 1 = 1 := by decide +kernel

theorem round_hundred : format.round 100 = 100 := by decide +kernel

/-- What rounds to at most so many units, at the numbers of the index. -/
theorem round_ratio_le_iff (hx : 0 ≤ x) : format.round x ≤ 5 / 10 ^ 28 ↔ x ≤ leastRatio := by
  rcases hx.eq_or_lt with rfl | hpos
  · rw [round_zero]
    exact iff_of_true (by norm_num) (by norm_num [leastRatio])
  · have h := round_le_iff (f := format) (e := -55) (m := 5 * 10 ^ 27) (by norm_num)
      (by norm_num [format]) (by norm_num [format]) (by decide) hpos
    norm_num [format, FloatFormat.unit] at h
    norm_num [leastRatio]
    exact h

theorem one_le_round_whole (hx : 0 ≤ x) : 1 ≤ format.round (1 + x) := by
  have h := round_mono (f := format) one_pos (le_add_of_nonneg_right hx)
  rwa [round_one] at h

theorem round_whole_eq_one_iff (hx : 0 ≤ x) : format.round (1 + x) = 1 ↔ x ≤ 5 / 10 ^ 28 := by
  have h := round_le_iff (f := format) (e := -27) (m := 10 ^ 27) (q := 1 + x) (by norm_num)
    (by norm_num [format]) (by norm_num [format]) (by decide) (by linarith)
  rw [le_antisymm_iff, and_iff_left (one_le_round_whole hx)]
  have hunit : format.unit (-27) = 1 / 10 ^ 27 := by norm_num [format, FloatFormat.unit]
  rw [hunit] at h
  norm_num at h ⊢
  rw [h]
  constructor <;> intro h <;> linarith

/-- The next number after one. -/
theorem le_round_whole (hx : 0 ≤ x) (hne : format.round (1 + x) ≠ 1) :
    1 + 1 / 10 ^ 27 ≤ format.round (1 + x) := by
  have hplace : format.place 1 ≤ format.place (1 + x) := place_mono one_pos (by linarith)
  have hone : OnGrid format (format.place 1) 1 := by
    have h := round_onGrid (f := format) 1
    rwa [round_one] at h
  have hunit := (((round_onGrid (1 + x)).mono hplace).sub hone).unit_le (sub_ne_zero.2 hne)
  have hvalue : format.unit (format.place 1) = 1 / 10 ^ 27 := by decide +kernel
  rw [hvalue, abs_of_nonneg (sub_nonneg.2 (one_le_round_whole hx))] at hunit
  linarith

theorem round_part_eq_hundred_iff (hx : 0 ≤ x) :
    format.round (100 / format.round (1 + x)) = 100 ↔ format.round (1 + x) = 1 := by
  constructor
  · intro hpart
    by_contra hne
    have hwhole := le_round_whole hx hne
    have hpos : 0 < format.round (1 + x) := by linarith
    -- the quotient is below the last number before one hundred
    have hquot : 100 / format.round (1 + x) ≤ (10 ^ 28 - 2 + 1 / 2) / 10 ^ 26 := by
      rw [div_le_iff₀ hpos]
      linarith
    have hq : 0 < 100 / format.round (1 + x) := div_pos (by norm_num) hpos
    have h := round_le_iff (f := format) (e := -26) (m := 10 ^ 28 - 2) (by norm_num)
      (by norm_num [format]) (by norm_num [format]) (by decide) hq
    rw [hpart] at h
    norm_num [format, FloatFormat.unit] at h hquot
    linarith
  · intro hwhole
    rw [hwhole, div_one, round_hundred]

/-- The index is zero up to the least ratio. -/
theorem round_index_eq_zero_iff (hx : 0 ≤ x) :
    format.round (100 - format.round (100 / format.round (1 + format.round x))) = 0 ↔
      x ≤ leastRatio := by
  have hhundred : OnGrid format format.least 100 := by
    have h := round_onLeast (f := format) 100
    rwa [round_hundred] at h
  have hround := round_nonneg (f := format) hx
  rw [round_sub_eq_zero_iff hhundred (round_onLeast _), eq_comm, round_part_eq_hundred_iff hround,
    round_whole_eq_one_iff hround, round_ratio_le_iff hx]

end Index

/-! ## The histories -/

/-- The last changes, each rounded. -/
def lastMoves (history : List Decimal) (period : ℕ) : List Decimal :=
  (lastN period (changes history)).map DecimalContext.format.round

def ups (moves : List Decimal) : List Decimal := moves.filter fun c => 0 < c

/-- The moves that are no rises, negated. -/
def downs (moves : List Decimal) : List Decimal := (moves.filter fun c => ¬0 < c).map fun c => -c

theorem downs_nonneg (moves : List Decimal) : ∀ c ∈ downs moves, 0 ≤ c := by
  intro c hc
  obtain ⟨c', hc', rfl⟩ := List.mem_map.mp hc
  have hfall := of_decide_eq_true (List.mem_filter.mp hc').2
  linarith [not_lt.mp hfall]

theorem ups_nonneg (moves : List Decimal) : ∀ c ∈ ups moves, 0 ≤ c :=
  fun _ hc => (of_decide_eq_true (List.mem_filter.mp hc).2).le

/-- No fall, when none of the moves is negative. -/
theorem downs_eq_zero_iff (moves : List Decimal) :
    (∀ c ∈ downs moves, c = 0) ↔ ∀ c ∈ moves, 0 ≤ c := by
  simp only [downs, List.forall_mem_map, List.mem_filter, decide_eq_true_eq, and_imp, neg_eq_zero]
  constructor
  · intro h c hc
    by_cases hrise : 0 < c
    · exact hrise.le
    · exact (h c hc hrise).ge
  · exact fun h c hc hrise => le_antisymm (not_lt.mp hrise) (h c hc)

/-- The last prices do not fall, or rise enough beside their falls. -/
def Rises (history : List Decimal) (period : ℕ) : Prop :=
  period < history.length → (∀ c ∈ lastMoves history period, 0 ≤ c) ∨
    leastRatio * DecimalContext.format.runningSum (downs (lastMoves history period)) <
      DecimalContext.format.runningSum (ups (lastMoves history period))

/-- The last prices do not cancel out in their sum. -/
def Sums (history : List Decimal) (period : ℕ) : Prop :=
  period ≤ history.length →
    period * (DecimalContext.format.unit DecimalContext.format.least / 2) <
      |DecimalContext.format.runningSum (lastN period history)|

/-- The relative changes as floats, but those from zero. -/
def floatReturns (history : List Decimal) : List PyFloat :=
  ((history.zip history.tail).filter fun p => p.1 ≠ 0).map fun p =>
    PyFloat.ofRat (DecimalContext.format.round (DecimalContext.format.round (p.2 - p.1) / p.1))

/-- The squares of the deviations from the mean return do not vanish. -/
def Varies (history : List Decimal) : Prop :=
  floatReturns history ≠ [] →
    ∀ total, Technicals.squaredDeviations (floatReturns history) = .ok (.finite total) →
      PyFloat.binary64.unit PyFloat.binary64.least / 2 <
        |total / PyFloat.binary64.round (floatReturns history).length|

/-- No indicator is zero on the history. -/
structure Moving (history : List Decimal) : Prop where
  rises : Rises history 14
  sum20 : Sums history 20
  sum50 : Sums history 50
  varies : Varies history

/-! ## The loops -/

/-- What the loop adds to its two sums. -/
theorem foldlM_rsiStep_standard {pairs : List (Decimal × Decimal)} {acc last : Decimal × Decimal}
    (h : pairs.foldlM (Technicals.rsiStep .standard) acc = .ok last) :
    last = ((ups (pairs.map fun p => DecimalContext.format.round (p.2 - p.1))).foldl
        (fun total x => DecimalContext.format.round (total + x)) acc.1,
      (downs (pairs.map fun p => DecimalContext.format.round (p.2 - p.1))).foldl
        (fun total x => DecimalContext.format.round (total + x)) acc.2) := by
  induction pairs generalizing acc with
  | nil =>
    cases h
    rfl
  | cons p pairs ih =>
    rw [List.foldlM_cons, bind_eq_ok] at h
    obtain ⟨next, hnext, hrest⟩ := h
    rw [ih hrest]
    rw [Technicals.rsiStep, bind_eq_ok] at hnext
    obtain ⟨change, hchange, hnext⟩ := hnext
    have hmove := DecimalContext.standard_eq hchange
    by_cases hrise : 0 < change
    · rw [if_pos hrise, bind_eq_ok] at hnext
      obtain ⟨gains, hgains, hnext⟩ := hnext
      cases hnext
      simp [ups, downs, ← hmove, hrise, DecimalContext.standard_eq hgains]
    · rw [if_neg hrise, bind_eq_ok] at hnext
      obtain ⟨losses, hlosses, hnext⟩ := hnext
      cases hnext
      have hloss := DecimalContext.standard_eq hlosses
      rw [sub_eq_add_neg] at hloss
      simp [ups, downs, ← hmove, hrise, not_lt.1 hrise, hloss]

theorem gainsLosses_standard {history : List Decimal} {period : ℕ} {gains losses : Decimal}
    (hp : 1 ≤ period) (hlen : period < history.length)
    (h : Technicals.gainsLosses .standard history period = .ok (gains, losses)) :
    gains = DecimalContext.format.runningSum (ups (lastMoves history period)) ∧
      losses = DecimalContext.format.runningSum (downs (lastMoves history period)) := by
  have hmoves : ((slice history (-period - 1) (-1)).zip (sliceFrom history (-period))).map
      (fun p => DecimalContext.format.round (p.2 - p.1)) = lastMoves history period := by
    rw [lastMoves, ← slices_changes history hp hlen, List.map_map]
    rfl
  have hsums := foldlM_rsiStep_standard h
  rw [hmoves] at hsums
  exact Prod.mk.inj hsums

theorem sliceFrom_neg (values : List Decimal) {period : ℕ} (hp : 1 ≤ period) :
    sliceFrom values (-period) = lastN period values := by
  rw [sliceFrom, lastN, sliceIndex, if_pos (by omega)]
  congr 1
  omega

theorem foldlM_returnStep {pairs : List (Decimal × Decimal)} {init last : List PyFloat}
    (h : pairs.foldlM (Technicals.returnStep .standard) init = .ok last) :
    last = init ++ (pairs.filter fun p => p.1 ≠ 0).map fun p =>
      PyFloat.ofRat (DecimalContext.format.round (DecimalContext.format.round (p.2 - p.1) / p.1)) := by
  induction pairs generalizing init with
  | nil =>
    cases h
    simp
  | cons p pairs ih =>
    rw [List.foldlM_cons, bind_eq_ok] at h
    obtain ⟨next, hnext, hrest⟩ := h
    rw [ih hrest]
    by_cases hzero : p.1 = 0
    · rw [Technicals.returnStep, if_pos hzero] at hnext
      cases hnext
      simp [hzero]
    · rw [Technicals.returnStep, if_neg hzero, bind_eq_ok] at hnext
      obtain ⟨change, hchange, hnext⟩ := hnext
      rw [bind_eq_ok] at hnext
      obtain ⟨ratio, hratio, hnext⟩ := hnext
      cases hnext
      simp [hzero, ← DecimalContext.standard_eq hchange, ← DecimalContext.divide_eq hratio]

theorem returns_standard {history : List Decimal} {returns : List PyFloat}
    (h : Technicals.returns .standard history = .ok returns) : returns = floatReturns history := by
  have hpairs : (slice history 0 (-1)).zip (sliceFrom history 1) = history.zip history.tail := by
    apply List.ext_getElem
    · simp [slice, sliceFrom, sliceIndex]
      omega
    · intro i hi hi'
      have hone : min 1 history.length + i = i + 1 := by
        rw [List.length_zip, List.length_tail] at hi'
        omega
      simp [slice, sliceFrom, sliceIndex, hone]
  rw [foldlM_returnStep h, hpairs]
  rfl

/-! ## The indicators -/

theorem rsi_ne_zero_iff {history : List Decimal} {period : ℕ} (hp : 1 ≤ period)
    {value : Option Decimal} (h : Technicals.rsi .standard history period = .ok value) :
    value ≠ some 0 ↔ Rises history period := by
  by_cases hlen : history.length ≤ period
  · rw [Technicals.rsi, if_pos hlen] at h
    cases h
    exact iff_of_true (by simp) fun hlong => absurd hlen (not_le.2 hlong)
  rw [Technicals.rsi, if_neg hlen, bind_eq_ok] at h
  obtain ⟨⟨gains, losses⟩, hsums, h⟩ := h
  obtain ⟨hg, hl⟩ := gainsLosses_standard hp (not_le.1 hlen) hsums
  have hgains : 0 ≤ gains := hg ▸ FloatFormat.runningSum_nonneg (ups_nonneg _)
  have hlosses : 0 ≤ losses := hl ▸ FloatFormat.runningSum_nonneg (downs_nonneg _)
  have hnone : losses = 0 ↔ ∀ c ∈ lastMoves history period, 0 ≤ c := by
    rw [hl, FloatFormat.runningSum_eq_zero_iff, downs_eq_zero_iff]
    intro c hc
    refine ⟨downs_nonneg _ c hc, ?_⟩
    obtain ⟨c', hc', rfl⟩ := List.mem_map.mp hc
    obtain ⟨move, -, rfl⟩ := List.mem_map.mp (List.mem_filter.mp hc').1
    exact (FloatFormat.round_onLeast move).neg
  rw [Rises, forall_prop_of_true (not_le.1 hlen), ← hg, ← hl, ← hnone]
  by_cases hzero : losses = 0
  · replace h : (pure (some 100) : Except ArithmeticError _) = .ok value := by
      simpa only [hzero, if_true] using h
    cases h
    exact iff_of_true (by norm_num) (.inl hzero)
  · simp only [hzero, if_false, bind_eq_ok] at h
    obtain ⟨rs, hrs, whole, hwhole, part, hpart, index, hindex, h⟩ := h
    cases h
    have hpos : 0 < losses := lt_of_le_of_ne hlosses (Ne.symm hzero)
    rw [Ne, Option.some_inj, DecimalContext.standard_eq hindex, DecimalContext.divide_eq hpart,
      DecimalContext.standard_eq hwhole, DecimalContext.divide_eq hrs,
      round_index_eq_zero_iff (div_nonneg hgains hlosses), or_iff_right hzero, not_le,
      lt_div_iff₀ hpos]

theorem sma_ne_zero_iff {history : List Decimal} {period : ℕ} (hp : 1 ≤ period)
    {value : Option Decimal} (h : Technicals.sma .standard history period = .ok value) :
    value ≠ some 0 ↔ Sums history period := by
  by_cases hlen : history.length < period
  · rw [Technicals.sma, if_pos (.inl hlen)] at h
    cases h
    exact iff_of_true (by simp) fun hlong => absurd hlen (not_lt.2 hlong)
  rw [Technicals.sma, if_neg (by omega), bind_eq_ok] at h
  obtain ⟨total, htotal, h⟩ := h
  rw [bind_eq_ok] at h
  obtain ⟨mean, hmean, h⟩ := h
  cases h
  have hperiod : (0 : ℚ) < period := by exact_mod_cast hp
  rw [sliceFrom_neg history hp] at htotal
  rw [Sums, forall_prop_of_true (not_lt.1 hlen), ← DecimalContext.sum_eq htotal, Ne,
    Option.some_inj, DecimalContext.divide_eq hmean, FloatFormat.round_eq_zero_iff, not_le, abs_div,
    abs_of_pos hperiod, lt_div_iff₀ hperiod, mul_comm]

theorem realizedVolatility_ne_zero_iff {history : List Decimal} {value : Option PyDecimal}
    (h : Technicals.realizedVolatility .standard history = .ok value) :
    value ≠ some (.finite 0) ↔ Varies history := by
  by_cases hlen : history.length < 2
  · rw [Technicals.realizedVolatility, if_pos hlen] at h
    cases h
    have hnone : floatReturns history = [] := by
      rcases history with _ | ⟨a, _ | ⟨b, rest⟩⟩
      · rfl
      · rfl
      · rw [List.length_cons, List.length_cons] at hlen
        omega
    exact iff_of_true (by simp) fun hne => absurd hnone hne
  rw [Technicals.realizedVolatility, if_neg hlen, bind_eq_ok] at h
  obtain ⟨returns, hreturns, h⟩ := h
  rw [Varies, ← returns_standard hreturns]
  by_cases hnone : returns = []
  · rw [if_pos hnone] at h
    cases h
    exact iff_of_true (by simp) fun hne => absurd hnone hne
  · rw [if_neg hnone, bind_eq_ok] at h
    obtain ⟨deviations, hdeviations, h⟩ := h
    simp only [bind_eq_ok, orRaise_eq_ok] at h
    obtain ⟨variance, hvariance, root, hroot, h⟩ := h
    cases h
    rw [Ne, Option.some_inj, PyDecimal.ofFloat_eq_zero_iff,
      PyFloat.sqrt_divCount_eq_zero_iff hvariance hroot, hdeviations, forall_prop_of_true hnone]
    simp only [Except.ok.injEq, not_exists, not_and, not_le]

/-- Returns that differ by less than a float can tell, and returns that are equal. -/
example : Technicals.realizedVolatility .standard [1, 2, 4.0000000000000000000001] =
      .ok (some (.finite 0)) ∧
    Technicals.realizedVolatility .standard [1000, 1100, 1210, 1331] =
      .ok (some (.finite 0.000000000000000013877787807814457)) := by
  decide +kernel

end Sentinel.Analyst

namespace Sentinel.Pipeline

open Logic Contracts Analyst

/-! ## The features of a candidate -/

/-- The text of the feature is empty when there is no value, and reads back the value when there is
one. -/
def Tells {α : Type} (features : Dict) (feature : FieldName) (read : Text → Option α)
    (value : Option α) : Prop :=
  ∃ text, features.get feature = some (.str text) ∧ (text = lit "" ↔ value = none) ∧
    ∀ q, value = some q → read text = some q

/-- `Decimal(text)`, with the decimals that are not finite. -/
def readVolatility (text : Text) : Option PyDecimal :=
  if text = lit "NaN" then some .nan
  else if text = lit "Infinity" then some (.infinity false)
  else if text = lit "-Infinity" then some (.infinity true)
  else (Decimal.parse text).map .finite

/-- A text that prints zero like no value tells the values other than zero. -/
theorem tells_iff {α : Type} {features : Dict} {feature : FieldName} {read : Text → Option α}
    {print : Option α → Text} {zero : α} {value : Option α}
    (hget : features.get feature = some (.str (print value))) (hnone : print none = lit "")
    (hzero : print (some zero) = lit "")
    (hsome : ∀ q ≠ zero, print (some q) ≠ lit "" ∧ read (print (some q)) = some q) :
    Tells features feature read value ↔ value ≠ some zero := by
  constructor
  · rintro ⟨text, htext, hempty, -⟩ rfl
    cases hget.symm.trans htext
    cases hempty.1 hzero
  · intro hne
    refine ⟨_, hget, ?_⟩
    cases value with
    | none => exact ⟨iff_of_true hnone rfl, fun _ h => by cases h⟩
    | some q =>
      obtain ⟨hprinted, hread⟩ := hsome q fun h => hne (congrArg some h)
      exact ⟨iff_of_false hprinted (Option.some_ne_none q), fun _ h => hread.trans h⟩

theorem tells_indicatorText {features : Dict} {feature : FieldName} {value : Option Decimal}
    (hget : features.get feature = some (.str (indicatorText value))) :
    Tells features feature Decimal.parse value ↔ value ≠ some 0 := by
  refine tells_iff hget rfl (by rw [indicatorText, if_pos rfl]) fun q hq => ?_
  rw [indicatorText, if_neg hq]
  exact ⟨by simp, rfl⟩

theorem tells_volatilityText {features : Dict} {feature : FieldName} {value : Option PyDecimal}
    (hget : features.get feature = some (.str (volatilityText value))) :
    Tells features feature readVolatility value ↔ value ≠ some (.finite 0) := by
  refine tells_iff hget rfl (by rw [volatilityText, if_pos rfl]) fun v hv => ?_
  cases v with
  | finite q =>
    have hq : q ≠ 0 := fun h => hv (congrArg PyDecimal.finite h)
    rw [volatilityText, if_neg hq]
    simp [readVolatility, Decimal.parse]
  | infinity negative => cases negative <;> simp [volatilityText, readVolatility]
  | nan => simp [volatilityText, readVolatility]

/-- The features tell what each indicator is on the history. -/
def IndicatorsTold (history : List Decimal) (features : Dict) : Prop :=
  ∃ rsi14 sma20 sma50 volatility,
    Technicals.rsi .standard history = .ok rsi14 ∧
    Technicals.sma .standard history 20 = .ok sma20 ∧
    Technicals.sma .standard history 50 = .ok sma50 ∧
    Technicals.realizedVolatility .standard history = .ok volatility ∧
    Tells features .rsi14 Decimal.parse rsi14 ∧ Tells features .sma20 Decimal.parse sma20 ∧
    Tells features .sma50 Decimal.parse sma50 ∧ Tells features .volatility readVolatility volatility

/-- The features of a candidate tell the indicators exactly on the histories where none is zero. -/
theorem indicatorsTold_iff (cfg : AnalystSection) (portfolio : PortfolioSnapshot)
    (hypothesis : AssetHypothesis) (snapshot : MarketDataSnapshot) (now : Time)
    (candidateId : UUID) (h : (candidateFeatures snapshot).isOk) :
    IndicatorsTold snapshot.historyOr
        (buildCandidate cfg portfolio hypothesis snapshot now candidateId).features ↔
      Moving snapshot.historyOr := by
  cases hfeatures : candidateFeatures snapshot with
  | error e =>
    rw [hfeatures] at h
    cases h
  | ok features =>
    have hbuilt : (buildCandidate cfg portfolio hypothesis snapshot now candidateId).features =
        features := by
      rw [buildCandidate, hfeatures]
      rfl
    rw [hbuilt]
    simp only [candidateFeatures, bind_eq_ok] at hfeatures
    obtain ⟨rsi14, hrsi, sma20, h20, sma50, h50, volatility, hvol, hfeatures⟩ := hfeatures
    cases hfeatures
    constructor
    · rintro ⟨_, _, _, _, hrsi', h20', h50', hvol', ht14, ht20, ht50, htvol⟩
      cases hrsi.symm.trans hrsi'
      cases h20.symm.trans h20'
      cases h50.symm.trans h50'
      cases hvol.symm.trans hvol'
      exact ⟨(rsi_ne_zero_iff (by omega) hrsi).1 ((tells_indicatorText rfl).1 ht14),
        (sma_ne_zero_iff (by omega) h20).1 ((tells_indicatorText rfl).1 ht20),
        (sma_ne_zero_iff (by omega) h50).1 ((tells_indicatorText rfl).1 ht50),
        (realizedVolatility_ne_zero_iff hvol).1 ((tells_volatilityText rfl).1 htvol)⟩
    · intro hmoving
      exact ⟨rsi14, sma20, sma50, volatility, hrsi, h20, h50, hvol,
        (tells_indicatorText rfl).2 ((rsi_ne_zero_iff (by omega) hrsi).2 hmoving.rises),
        (tells_indicatorText rfl).2 ((sma_ne_zero_iff (by omega) h20).2 hmoving.sum20),
        (tells_indicatorText rfl).2 ((sma_ne_zero_iff (by omega) h50).2 hmoving.sum50),
        (tells_volatilityText rfl).2 ((realizedVolatility_ne_zero_iff hvol).2 hmoving.varies)⟩

/-- Prices that go up and down for twenty-one days. -/
def wavering : MarketDataSnapshot where
  symbol := lit "SPY"
  lastPrice := 100
  history := (List.range 21).map fun n => ((100 + n % 2 : ℕ) : Decimal)

theorem indicatorsTold_iff_wavering :
    IndicatorsTold wavering.historyOr (buildCandidate {} ⟨0, 0, lit "paper", 0, 0, 0, 0, 0, []⟩
      ⟨lit "SPY", .etf, .bullish, .swing, .direct, .high, true, lit ""⟩ wavering 0 0).features := by
  have hrsi : Technicals.rsi .standard wavering.historyOr = .ok (some 50) := by decide +kernel
  have h20 : Technicals.sma .standard wavering.historyOr 20 = .ok (some 100.5) := by decide +kernel
  have h50 : Technicals.sma .standard wavering.historyOr 50 = .ok none := by decide +kernel
  have hvol : Technicals.realizedVolatility .standard wavering.historyOr =
      .ok (some (.finite 0.009950495049504952)) := by decide +kernel
  have hok : (candidateFeatures wavering).isOk := by
    rw [candidateFeatures, hrsi, h20, h50, hvol]
    rfl
  refine (indicatorsTold_iff _ _ _ wavering _ _ hok).2 ⟨?_, ?_, ?_, ?_⟩
  · exact (rsi_ne_zero_iff (by omega) hrsi).1 (by norm_num)
  · exact (sma_ne_zero_iff (by omega) h20).1 (by norm_num)
  · exact (sma_ne_zero_iff (by omega) h50).1 (by simp)
  · exact (realizedVolatility_ne_zero_iff hvol).1 (by norm_num)

/-- Fifteen falling prices. -/
def falling : MarketDataSnapshot where
  symbol := lit "SPY"
  lastPrice := 86
  history := (List.range 15).map fun n => (100 - n : Decimal)

theorem falling_not_told : ¬∀ (cfg : AnalystSection) (portfolio : PortfolioSnapshot)
    (hypothesis : AssetHypothesis) (snapshot : MarketDataSnapshot) (now : Time)
    (candidateId : UUID), IndicatorsTold snapshot.historyOr
      (buildCandidate cfg portfolio hypothesis snapshot now candidateId).features := by
  intro hall
  let portfolio : PortfolioSnapshot := ⟨0, 0, lit "paper", 0, 0, 0, 0, 0, []⟩
  let hypothesis : AssetHypothesis := ⟨lit "SPY", .etf, .bullish, .swing, .direct, .high, true, lit ""⟩
  have hzero : Technicals.rsi .standard falling.historyOr = .ok (some 0) := by decide +kernel
  have hempty : (buildCandidate {} portfolio hypothesis falling 0 0).features.get .rsi14 =
      some (.str (lit "")) := by decide +kernel
  obtain ⟨rsi14, _, _, _, hrsi, -, -, -, ⟨text, htext, hnone, -⟩, -⟩ :=
    hall {} portfolio hypothesis falling 0 0
  cases hempty.symm.trans htext
  cases (hnone.1 rfl).symm.trans (Except.ok.inj (hrsi.symm.trans hzero))

end Sentinel.Pipeline
