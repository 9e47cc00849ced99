import Mathlib.Algebra.BigOperators.Group.List.Basic
import Mathlib.Algebra.Order.BigOperators.Group.List
import Mathlib.Tactic.FieldSimp
import Mathlib.Tactic.Linarith
import Mathlib.Tactic.Ring
import Sentinel.Analyst.Technicals

/-!
# The relative strength index

`rsi` over exact decimals is the share of the rises in all movement of the last prices.

* `rsi`: the indicator by recursion on the prices.
* `rsiLoop`: the function of the code; `rsiLoop_eq` is the bridge.
* `rsi_share`: the closed form and the symmetries.
-/

namespace Sentinel.Analyst

open Logic Contracts

/-! ## Over exact decimals -/

/-- `values[-n:]`. -/
def lastN (n : ℕ) (values : List Decimal) : List Decimal := values.drop (values.length - n)

/-- Gains and losses over consecutive values. -/
def gainsLosses : List Decimal → Decimal × Decimal
  | prev :: current :: rest =>
    let (gains, losses) := gainsLosses (current :: rest)
    let change := current - prev
    if 0 < change then (gains + change, losses) else (gains, losses - change)
  | _ => (0, 0)

def rsi (values : List Decimal) (period : ℕ := 14) : Option Decimal :=
  if values.length ≤ period then none
  else
    let (gains, losses) := gainsLosses (lastN (period + 1) values)
    if losses = 0 then some 100 else some (100 - 100 / (1 + gains / losses))

/-- The function with its slices, its loop and its divisions, without rounding. -/
def rsiLoop (values : List Decimal) (period : ℕ) : Except ArithmeticError (Option Decimal) :=
  Technicals.rsi .unrounded values period

/-! ## Rises and falls -/

/-- The changes from each price to its successor. -/
def changes (values : List Decimal) : List Decimal :=
  List.zipWith (fun prev current => current - prev) values values.tail

def rises (moves : List Decimal) : Decimal := (moves.map fun c => max c 0).sum

def falls (moves : List Decimal) : Decimal := (moves.map fun c => max (-c) 0).sum

@[simp] theorem rises_nil : rises [] = 0 := rfl

@[simp] theorem falls_nil : falls [] = 0 := rfl

@[simp] theorem rises_cons (c : Decimal) (cs : List Decimal) :
    rises (c :: cs) = max c 0 + rises cs := by simp [rises]

@[simp] theorem falls_cons (c : Decimal) (cs : List Decimal) :
    falls (c :: cs) = max (-c) 0 + falls cs := by simp [falls]

@[simp] theorem changes_cons_cons (a b : Decimal) (values : List Decimal) :
    changes (a :: b :: values) = (b - a) :: changes (b :: values) := rfl

theorem changes_length (values : List Decimal) : (changes values).length = values.length - 1 := by
  simp [changes]

theorem rises_nonneg (moves : List Decimal) : 0 ≤ rises moves := by
  induction moves with
  | nil => exact le_rfl
  | cons c cs ih =>
    rw [rises_cons]
    exact add_nonneg (le_max_right _ _) ih

theorem rises_neg (moves : List Decimal) : rises (moves.map fun c => -c) = falls moves := by
  simp [rises, falls, Function.comp_def]

theorem falls_neg (moves : List Decimal) : falls (moves.map fun c => -c) = rises moves := by
  simp [rises, falls, Function.comp_def]

theorem falls_nonneg (moves : List Decimal) : 0 ≤ falls moves := by
  rw [← rises_neg]
  exact rises_nonneg _

theorem rises_smul (moves : List Decimal) {k : Decimal} (hk : 0 ≤ k) :
    rises (moves.map fun c => k * c) = k * rises moves := by
  induction moves with
  | nil => simp
  | cons c cs ih =>
    have hmax : max (k * c) 0 = k * max c 0 := by rw [mul_max_of_nonneg _ _ hk, mul_zero]
    rw [List.map_cons, rises_cons, rises_cons, ih, hmax, mul_add]

theorem falls_smul (moves : List Decimal) {k : Decimal} (hk : 0 ≤ k) :
    falls (moves.map fun c => k * c) = k * falls moves := by
  rw [← rises_neg, ← rises_neg, ← rises_smul _ hk]
  simp [Function.comp_def]

/-- Both sums at once, as the recursion over the prices makes them. -/
theorem gainsLosses_eq (values : List Decimal) :
    gainsLosses values = (rises (changes values), falls (changes values)) := by
  induction values with
  | nil => rfl
  | cons prev rest ih =>
    cases rest with
    | nil => rfl
    | cons current rest =>
      rw [gainsLosses, ih, changes_cons_cons, rises_cons, falls_cons]
      show (if 0 < current - prev then _ else _) = _
      by_cases h : 0 < current - prev
      · rw [if_pos h, max_eq_left h.le, max_eq_right (by linarith), zero_add, add_comm]
      · rw [if_neg h, max_eq_right (not_lt.1 h), max_eq_left (by linarith), zero_add]
        exact Prod.ext rfl (by ring)

/-- The changes between the last prices are the last changes. -/
theorem changes_lastN (values : List Decimal) (period : ℕ) :
    changes (lastN (period + 1) values) = lastN period (changes values) := by
  unfold changes lastN
  rw [List.drop_zipWith, List.tail_drop, List.drop_tail, List.length_zipWith, List.length_tail]
  have hstart : values.length - (period + 1) = min values.length (values.length - 1) - period := by
    omega
  rw [hstart]

theorem lastN_map (f : Decimal → Decimal) (n : ℕ) (values : List Decimal) :
    lastN n (values.map f) = (lastN n values).map f := by
  rw [lastN, lastN, List.length_map, List.map_drop]

theorem lastN_length (n : ℕ) (values : List Decimal) :
    (lastN n values).length = min n values.length := by
  rw [lastN, List.length_drop]
  omega

/-! ## The bridge -/

/-- What the loop adds to its two sums. -/
theorem foldlM_rsiStep (pairs : List (Decimal × Decimal)) (acc : Decimal × Decimal) :
    pairs.foldlM (Technicals.rsiStep .unrounded) acc =
      .ok (acc.1 + rises (pairs.map fun p => p.2 - p.1),
        acc.2 + falls (pairs.map fun p => p.2 - p.1)) := by
  induction pairs generalizing acc with
  | nil =>
    simp
    rfl
  | cons p ps ih =>
    have hstep : Technicals.rsiStep .unrounded acc p =
        .ok (acc.1 + max (p.2 - p.1) 0, acc.2 + max (-(p.2 - p.1)) 0) := by
      show (if 0 < p.2 - p.1 then _ else _) = _
      by_cases h : 0 < p.2 - p.1
      · rw [if_pos h, max_eq_left h.le, max_eq_right (by linarith), add_zero]
        rfl
      · rw [if_neg h, max_eq_right (not_lt.1 h), max_eq_left (by linarith), add_zero, ← sub_eq_add_neg]
        rfl
    rw [List.foldlM_cons, hstep, List.map_cons, rises_cons, falls_cons, ← add_assoc, ← add_assoc]
    exact ih _

/-- The two slices pair each of the last prices with its successor. -/
theorem slices_changes (values : List Decimal) {period : ℕ} (hp : 1 ≤ period)
    (hlen : period < values.length) :
    ((slice values (-period - 1) (-1)).zip (sliceFrom values (-period))).map (fun p => p.2 - p.1) =
      lastN period (changes values) := by
  have hstart : sliceIndex values.length (-period - 1) = values.length - 1 - period := by
    rw [sliceIndex, if_pos (by omega)]
    omega
  have hstop : sliceIndex values.length (-1) = values.length - 1 := by
    rw [sliceIndex, if_pos (by omega)]
    omega
  have hfrom : sliceIndex values.length (-period) = values.length - period := by
    rw [sliceIndex, if_pos (by omega)]
    omega
  rw [slice, sliceFrom, hstart, hstop, hfrom, lastN, changes_length]
  apply List.ext_getElem
  · simp [changes_length]
    omega
  · intro i hi hi'
    have hsucc : values.length - period + i = values.length - 1 - period + i + 1 := by omega
    simp [changes, hsucc]

/-- The quotient at the end of the function. -/
def rsiOf (gains losses : Decimal) : Decimal :=
  if losses = 0 then 100 else 100 - 100 / (1 + gains / losses)

theorem rsi_eq (values : List Decimal) {period : ℕ} (hlen : period < values.length) :
    rsi values period =
      some (rsiOf (rises (lastN period (changes values))) (falls (lastN period (changes values)))) := by
  rw [rsi, if_neg (by omega), gainsLosses_eq, changes_lastN]
  simp only [rsiOf]
  split_ifs <;> rfl

theorem rsi_short (values : List Decimal) {period : ℕ} (hlen : values.length ≤ period) :
    rsi values period = none := by
  rw [rsi, if_pos hlen]

/-- The loop never divides by zero, and gives the indicator. -/
theorem rsiLoop_eq (values : List Decimal) {period : ℕ} (hp : 1 ≤ period) :
    rsiLoop values period = .ok (rsi values period) := by
  by_cases hlen : values.length ≤ period
  · rw [rsiLoop, Technicals.rsi, if_pos hlen, rsi_short values hlen]
  · have hgains := rises_nonneg (lastN period (changes values))
    have hlosses := falls_nonneg (lastN period (changes values))
    rw [rsiLoop, Technicals.rsi, if_neg hlen, Technicals.gainsLosses, foldlM_rsiStep,
      slices_changes values hp (by omega), rsi_eq values (by omega), rsiOf, zero_add, zero_add]
    show (if falls (lastN period (changes values)) = 0 then _ else _) = _
    by_cases h : falls (lastN period (changes values)) = 0
    · rw [if_pos h, if_pos h]
      rfl
    · have hratio : 0 ≤ rises (lastN period (changes values)) /
          falls (lastN period (changes values)) := div_nonneg hgains hlosses
      rw [if_neg h, if_neg h, DecimalContext.divide, if_neg h]
      show (DecimalContext.divide _ 100 _ >>= fun part => _) = _
      rw [DecimalContext.divide, if_neg (by linarith)]
      rfl

/-! ## The ratio -/

theorem rsiOf_eq_ratio {gains losses : Decimal} (hg : 0 ≤ gains) (hl : 0 < losses) :
    rsiOf gains losses = 100 * gains / (gains + losses) := by
  have hsum : gains + losses ≠ 0 := by linarith
  have hquot : 1 + gains / losses ≠ 0 := by
    have := div_nonneg hg hl.le
    linarith
  rw [rsiOf, if_neg hl.ne']
  field_simp
  ring

theorem rsiOf_mem {gains losses : Decimal} (hg : 0 ≤ gains) (hl : 0 ≤ losses) :
    0 ≤ rsiOf gains losses ∧ rsiOf gains losses ≤ 100 := by
  rcases hl.eq_or_lt with hl | hl
  · rw [rsiOf, if_pos hl.symm]
    norm_num
  · rw [rsiOf_eq_ratio hg hl]
    have hsum : 0 < gains + losses := by linarith
    exact ⟨div_nonneg (by linarith) hsum.le, (div_le_iff₀ hsum).2 (by linarith)⟩

theorem rsiOf_smul (gains losses : Decimal) {k : Decimal} (hk : k ≠ 0) :
    rsiOf (k * gains) (k * losses) = rsiOf gains losses := by
  by_cases h : losses = 0
  · rw [rsiOf, rsiOf, if_pos h, h, mul_zero, if_pos rfl]
  · rw [rsiOf, rsiOf, if_neg h, if_neg (mul_ne_zero hk h), mul_div_mul_left _ _ hk]

theorem rsiOf_swap {gains losses : Decimal} (hg : 0 < gains) (hl : 0 < losses) :
    rsiOf losses gains = 100 - rsiOf gains losses := by
  rw [rsiOf_eq_ratio hg.le hl, rsiOf_eq_ratio hl.le hg]
  have hsum : gains + losses ≠ 0 := by linarith
  rw [add_comm losses gains]
  field_simp
  ring

theorem changes_shift (values : List Decimal) (c : Decimal) :
    changes (values.map fun v => v + c) = changes values := by
  rw [changes, changes, ← List.map_tail, List.zipWith_map]
  simp

theorem changes_smul (values : List Decimal) (k : Decimal) :
    changes (values.map fun v => k * v) = (changes values).map fun c => k * c := by
  rw [changes, changes, ← List.map_tail, List.zipWith_map, List.map_zipWith]
  simp only [mul_sub]

theorem changes_neg (values : List Decimal) :
    changes (values.map fun v => -v) = (changes values).map fun c => -c := by
  have h := changes_smul values (-1)
  simpa only [neg_one_mul] using h

/-- `rsi` of the last changes: the share of the rises, within its bounds, the same for shifted and
scaled prices, and mirrored for negated ones. -/
theorem rsi_share (values : List Decimal) (period : ℕ) (hp : 1 ≤ period)
    (hlen : period < values.length) :
    rsiLoop values period = .ok (rsi values period) ∧
    (∀ values', lastN (period + 1) values' = lastN (period + 1) values →
      rsi values' period = rsi values period) ∧
    (0 < falls (lastN period (changes values)) → rsi values period =
      some (100 * rises (lastN period (changes values)) /
        (rises (lastN period (changes values)) + falls (lastN period (changes values))))) ∧
    (falls (lastN period (changes values)) = 0 → rsi values period = some 100) ∧
    (∃ r, rsi values period = some r ∧ 0 ≤ r ∧ r ≤ 100) ∧
    (∀ c, rsi (values.map fun v => v + c) period = rsi values period) ∧
    (∀ k, 0 < k → rsi (values.map fun v => k * v) period = rsi values period) ∧
    (0 < rises (lastN period (changes values)) → 0 < falls (lastN period (changes values)) →
      ∃ r, rsi values period = some r ∧ rsi (values.map fun v => -v) period = some (100 - r)) := by
  have hg := rises_nonneg (lastN period (changes values))
  have hl := falls_nonneg (lastN period (changes values))
  have heq := rsi_eq values hlen
  refine ⟨rsiLoop_eq values hp, fun values' hlast => ?_, fun hpos => ?_, fun hzero => ?_, ?_,
    fun c => ?_, fun k hk => ?_, fun hgains hlosses => ⟨_, heq, ?_⟩⟩
  · have hlen' : period < values'.length := by
      have := congrArg List.length hlast
      rw [lastN_length, lastN_length] at this
      omega
    rw [heq, rsi_eq values' hlen', ← changes_lastN, hlast, changes_lastN]
  · rw [heq, rsiOf_eq_ratio hg hpos]
  · rw [heq, hzero, rsiOf, if_pos rfl]
  · exact ⟨_, heq, rsiOf_mem hg hl⟩
  · rw [heq, rsi_eq _ (by simpa using hlen), changes_shift]
  · rw [heq, rsi_eq _ (by simpa using hlen), changes_smul, lastN_map, rises_smul _ hk.le,
      falls_smul _ hk.le, rsiOf_smul _ _ hk.ne']
  · rw [rsi_eq _ (by simpa using hlen), changes_neg, lastN_map, rises_neg, falls_neg,
      rsiOf_swap hgains hlosses]

theorem rsi_share_three :
    rsiLoop [1, 3, 2] 2 = .ok (rsi [1, 3, 2] 2) ∧
    ∃ r, rsi [1, 3, 2] 2 = some r ∧
      rsi ([1, 3, 2].map fun v => -v) 2 = some (100 - r) := by
  obtain ⟨hloop, -, -, -, -, -, -, hmirror⟩ := rsi_share [1, 3, 2] 2 (by decide) (by decide)
  exact ⟨hloop, hmirror (by decide +kernel) (by decide +kernel)⟩

end Sentinel.Analyst
