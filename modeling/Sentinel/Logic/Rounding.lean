import Mathlib.Algebra.Order.Floor.Ring
import Mathlib.Data.Int.Log
import Mathlib.Data.Nat.Sqrt
import Mathlib.Data.Rat.Floor
import Mathlib.Tactic.GCongr
import Mathlib.Tactic.Linarith
import Mathlib.Tactic.Positivity
import Mathlib.Tactic.Ring

/-!
# Rounding

Rounding to the nearest, and to the even digit in the middle: to integers, and to the numbers that
have so many digits to a radix.

* `roundHalfEven`: the nearest integer.
* `FloatFormat`: a radix, a number of digits and the place of the last digit that there can be.
* `FloatFormat.runningSum`: a sum that is rounded after each item.
* `FloatFormat.round_mono`, `round_eq_zero_iff`, `round_le_iff`: what a rounded number says about the
  one that was rounded.
-/

namespace Sentinel.Logic

/-! ## To integers -/

/-- Rounding to an integer, halves to even. -/
def roundHalfEven (q : ℚ) : ℤ :=
  let rest := q - ⌊q⌋
  if rest < 1/2 then ⌊q⌋ else if 1/2 < rest then ⌊q⌋ + 1
  else if ⌊q⌋ % 2 = 0 then ⌊q⌋ else ⌊q⌋ + 1

variable {x y q : ℚ} {n : ℤ}

theorem roundHalfEven_error (q : ℚ) : |(roundHalfEven q : ℚ) - q| ≤ 1/2 := by
  obtain ⟨hlo, hhi⟩ := Int.floor_eq_iff.1 (rfl : ⌊q⌋ = ⌊q⌋)
  rw [roundHalfEven, abs_le]
  by_cases hdown : q - ⌊q⌋ < 1/2
  · rw [if_pos hdown]
    constructor <;> linarith
  · by_cases hup : 1/2 < q - ⌊q⌋
    · rw [if_neg hdown, if_pos hup, Int.cast_add, Int.cast_one]
      constructor <;> linarith
    · rw [if_neg hdown, if_neg hup, apply_ite (Int.cast (R := ℚ)), Int.cast_add, Int.cast_one]
      split_ifs <;> constructor <;> linarith

theorem roundHalfEven_half (n : ℤ) : roundHalfEven (n + 1/2) = if n % 2 = 0 then n else n + 1 := by
  have hfloor : ⌊(n : ℚ) + 1/2⌋ = n := by
    rw [Int.floor_eq_iff]
    constructor <;> linarith
  rw [roundHalfEven]
  simp only [hfloor, add_sub_cancel_left, lt_irrefl, if_false]

theorem roundHalfEven_le_iff (hn : n % 2 = 0) : roundHalfEven q ≤ n ↔ q ≤ n + 1/2 := by
  obtain ⟨hlo, hhi⟩ := abs_le.1 (roundHalfEven_error q)
  constructor
  · intro hle
    have hcast : (roundHalfEven q : ℚ) ≤ n := Int.cast_le.2 hle
    linarith
  · intro hle
    rcases hle.eq_or_lt with rfl | hlt
    · rw [roundHalfEven_half, if_pos hn]
    · have hcast : (roundHalfEven q : ℚ) < (n + 1 : ℤ) := by
        push_cast
        linarith
      exact Int.lt_add_one_iff.1 (Int.cast_lt.1 hcast)

theorem le_roundHalfEven_iff (hn : n % 2 = 0) : n ≤ roundHalfEven q ↔ n - 1/2 ≤ q := by
  obtain ⟨hlo, hhi⟩ := abs_le.1 (roundHalfEven_error q)
  constructor
  · intro hle
    have hcast : (n : ℚ) ≤ roundHalfEven q := Int.cast_le.2 hle
    linarith
  · intro hle
    rcases hle.eq_or_lt with heq | hlt
    · have hhalf : q = ((n - 1 : ℤ) : ℚ) + 1/2 := by
        push_cast
        linarith
      rw [hhalf, roundHalfEven_half, if_neg (by omega)]
      omega
    · have hcast : ((n - 1 : ℤ) : ℚ) < roundHalfEven q := by
        push_cast
        linarith
      have := Int.cast_lt.1 hcast
      omega

theorem roundHalfEven_eq_zero_iff : roundHalfEven q = 0 ↔ |q| ≤ 1/2 := by
  have hle := roundHalfEven_le_iff (q := q) (n := 0) rfl
  have hge := le_roundHalfEven_iff (q := q) (n := 0) rfl
  rw [le_antisymm_iff, hle, hge, abs_le, and_comm]
  norm_num

theorem roundHalfEven_mono (h : x ≤ y) : roundHalfEven x ≤ roundHalfEven y := by
  by_contra hlt
  have hcast : (roundHalfEven y : ℚ) + 1 ≤ roundHalfEven x := by
    exact_mod_cast Int.add_one_le_iff.2 (not_le.1 hlt)
  obtain ⟨-, hx⟩ := abs_le.1 (roundHalfEven_error x)
  obtain ⟨hy, -⟩ := abs_le.1 (roundHalfEven_error y)
  have heq : x = y := by linarith
  exact hlt (heq ▸ le_rfl)

theorem roundHalfEven_intCast (n : ℤ) : roundHalfEven n = n := by
  rw [roundHalfEven]
  simp

/-! ## To so many digits -/

/-- Numbers of `digits` digits to the radix, none of them below the place `least`, and below the
power `above` of the radix. -/
structure FloatFormat : Type where
  radix : ℕ
  digits : ℕ
  least : ℤ
  above : ℤ
  one_lt_radix : 1 < radix
  digits_pos : 0 < digits

namespace FloatFormat

variable (f : FloatFormat)

/-- The place of the last digit of a number when it is rounded. -/
def place (q : ℚ) : ℤ := max (Int.log f.radix |q| + 1 - f.digits) f.least

def unit (e : ℤ) : ℚ := (f.radix : ℚ) ^ e

def round (q : ℚ) : ℚ := roundHalfEven (q / f.unit (f.place q)) * f.unit (f.place q)

/-- The root of a number of the format; it is never in the middle of two numbers. -/
def sqrt (q : ℚ) : ℚ :=
  let last := f.unit (max (Int.log f.radix q / 2 + 1 - f.digits) f.least)
  let below := Nat.sqrt ⌊q / last ^ 2⌋₊
  (if q ≤ ((below + 1/2) * last) ^ 2 then below else below + 1) * last

/-- The number is too large for the format. -/
def overflows (q : ℚ) : Bool := f.above ≤ Int.log f.radix |q|

variable {f} {e e' : ℤ}

theorem one_lt_radix' : (1 : ℚ) < f.radix := by exact_mod_cast f.one_lt_radix

theorem unit_pos (e : ℤ) : 0 < f.unit e := zpow_pos (zero_lt_one.trans one_lt_radix') e

theorem unit_mono (h : e ≤ e') : f.unit e ≤ f.unit e' := zpow_le_zpow_right₀ one_lt_radix'.le h

theorem unit_add (e e' : ℤ) : f.unit (e + e') = f.unit e * f.unit e' :=
  zpow_add₀ (zero_lt_one.trans one_lt_radix').ne' e e'

/-- A unit is so many smaller ones. -/
theorem unit_eq_mul (h : e ≤ e') : f.unit e' = ((f.radix ^ (e' - e).toNat : ℕ) : ℤ) * f.unit e := by
  have hsplit : e' = ((e' - e).toNat : ℤ) + e := by omega
  conv_lhs => rw [hsplit, unit_add, unit, zpow_natCast]
  push_cast
  rfl

theorem least_le_place (q : ℚ) : f.least ≤ f.place q := le_max_right _ _

/-- A number has no more digits than the format above its place. -/
theorem abs_lt_unit (q : ℚ) : |q| < f.unit (f.place q + f.digits) := by
  refine (Int.lt_zpow_succ_log_self f.one_lt_radix |q|).trans_le (unit_mono ?_)
  have := le_max_left (Int.log f.radix |q| + 1 - f.digits) f.least
  rw [place]
  omega

/-- It has as many, unless it ends at the last place. -/
theorem unit_le_abs (hq : q ≠ 0) (h : f.least < f.place q) :
    f.unit (f.place q + f.digits - 1) ≤ |q| := by
  have hplace : f.place q = Int.log f.radix |q| + 1 - f.digits := by
    rw [place] at h ⊢
    rw [lt_max_iff, lt_self_iff_false, or_false] at h
    exact max_eq_left h.le
  have heq : f.place q + f.digits - 1 = Int.log f.radix |q| := by omega
  rw [heq]
  exact Int.zpow_log_le_self f.one_lt_radix (abs_pos.2 hq)

/-! ## Rounded numbers -/

theorem round_zero : f.round 0 = 0 := by
  have hzero : roundHalfEven 0 = 0 := roundHalfEven_intCast 0
  rw [round, zero_div, hzero, Int.cast_zero, zero_mul]

theorem round_nonneg (h : 0 ≤ q) : 0 ≤ f.round q := by
  have hdiv : 0 ≤ q / f.unit (f.place q) := div_nonneg h (unit_pos _).le
  have hround := roundHalfEven_mono hdiv
  have hzero : roundHalfEven 0 = 0 := roundHalfEven_intCast 0
  rw [hzero] at hround
  exact mul_nonneg (Int.cast_nonneg hround) (unit_pos _).le

/-- Only what is nearer to zero than to the next number becomes zero. -/
theorem round_eq_zero_iff : f.round q = 0 ↔ |q| ≤ f.unit f.least / 2 := by
  have hpos := unit_pos (f := f) (f.place q)
  rw [round, mul_eq_zero, or_iff_left hpos.ne', Int.cast_eq_zero, roundHalfEven_eq_zero_iff, abs_div,
    abs_of_pos hpos, div_le_iff₀ hpos]
  constructor
  · intro hle
    rcases (least_le_place (f := f) q).eq_or_lt with heq | hlt
    · rw [heq]
      linarith
    · by_cases hq : q = 0
      · rw [hq, abs_zero]
        exact div_nonneg (unit_pos _).le two_pos.le
      · -- a number with all its digits is at least one of its units
        have hlarge := unit_le_abs hq hlt
        have hunit : f.unit (f.place q) ≤ f.unit (f.place q + f.digits - 1) := by
          refine unit_mono ?_
          have := f.digits_pos
          omega
        linarith
  · intro hle
    have hunit := unit_mono (f := f) (least_le_place (f := f) q)
    linarith

theorem round_le_unit (q : ℚ) : f.round q ≤ f.unit (f.place q + f.digits) := by
  have hpos := unit_pos (f := f) (f.place q)
  have hle : q / f.unit (f.place q) ≤ ((f.radix ^ f.digits : ℕ) : ℤ) := by
    rw [div_le_iff₀ hpos]
    refine (le_abs_self q).trans ((abs_lt_unit (f := f) q).le.trans_eq ?_)
    rw [add_comm, unit_add, unit, zpow_natCast]
    push_cast
    rfl
  have hround := roundHalfEven_mono hle
  rw [roundHalfEven_intCast] at hround
  rw [round, add_comm (f.place q), unit_add]
  refine mul_le_mul_of_nonneg_right ((Int.cast_le.2 hround).trans_eq ?_) hpos.le
  rw [unit, zpow_natCast]
  push_cast
  rfl

theorem unit_le_round (hq : 0 < q) (h : f.least < f.place q) :
    f.unit (f.place q + f.digits - 1) ≤ f.round q := by
  have hpos := unit_pos (f := f) (f.place q)
  have hdigits := f.digits_pos
  have hpower : f.unit (f.place q + f.digits - 1) =
      ((f.radix ^ (f.digits - 1) : ℕ) : ℤ) * f.unit (f.place q) := by
    rw [unit_eq_mul (e := f.place q) (by omega)]
    congr 4
    omega
  have hlarge := unit_le_abs hq.ne' h
  rw [abs_of_pos hq, hpower, ← le_div_iff₀ hpos] at hlarge
  have hround := roundHalfEven_mono hlarge
  rw [roundHalfEven_intCast] at hround
  rw [hpower]
  exact mul_le_mul_of_nonneg_right (Int.cast_le.2 hround) hpos.le

theorem place_mono (hx : 0 < x) (h : x ≤ y) : f.place x ≤ f.place y := by
  refine max_le_max ?_ le_rfl
  have hlog : Int.log f.radix |x| ≤ Int.log f.radix |y| := by
    rw [abs_of_pos hx, abs_of_pos (hx.trans_le h)]
    exact Int.log_mono_right hx h
  omega

theorem round_mono (hx : 0 < x) (h : x ≤ y) : f.round x ≤ f.round y := by
  rcases (place_mono hx h (f := f)).eq_or_lt with hsame | hlt
  · rw [round, round, hsame]
    refine mul_le_mul_of_nonneg_right (Int.cast_le.2 (roundHalfEven_mono ?_)) (unit_pos _).le
    exact div_le_div_of_nonneg_right h (unit_pos _).le
  · have hlast := (least_le_place (f := f) x).trans_lt hlt
    refine (round_le_unit x).trans ((unit_mono ?_).trans (unit_le_round (hx.trans_le h) hlast))
    omega

/-- What rounds to at most an even number of units is at most half a unit above it. -/
theorem round_le_iff {m : ℤ} (hm : m % 2 = 0) (hlo : (f.radix : ℤ) ^ (f.digits - 1) ≤ m)
    (hhi : m < (f.radix : ℤ) ^ f.digits) (he : f.least ≤ e) (hq : 0 < q) :
    f.round q ≤ m * f.unit e ↔ q ≤ (m + 1/2) * f.unit e := by
  have hpos := unit_pos (f := f) e
  have hdigits := f.digits_pos
  have hlo' : f.unit (f.digits - 1) ≤ m := by
    have hcast : (((f.radix : ℤ) ^ (f.digits - 1) : ℤ) : ℚ) ≤ m := Int.cast_le.2 hlo
    have heq : f.unit (f.digits - 1) = (((f.radix : ℤ) ^ (f.digits - 1) : ℤ) : ℚ) := by
      rw [unit, show (f.digits : ℤ) - 1 = ((f.digits - 1 : ℕ) : ℤ) by omega, zpow_natCast]
      push_cast
      rfl
    rwa [heq]
  have hhi' : (m : ℚ) + 1 ≤ f.unit f.digits := by
    have hcast : ((m + 1 : ℤ) : ℚ) ≤ (((f.radix : ℤ) ^ f.digits : ℤ) : ℚ) := Int.cast_le.2 hhi
    rw [unit, zpow_natCast]
    push_cast at hcast
    exact hcast
  rcases lt_trichotomy (f.place q) e with hlt | rfl | hlt
  · -- both are below the first number of this place
    have hbelow : f.unit (f.place q + f.digits) ≤ m * f.unit e := by
      refine (unit_mono (show _ ≤ ((f.digits : ℤ) - 1) + e by omega)).trans ?_
      rw [unit_add]
      exact mul_le_mul_of_nonneg_right hlo' hpos.le
    have hq' := (le_abs_self q).trans (abs_lt_unit (f := f) q).le
    exact iff_of_true ((round_le_unit q).trans hbelow) (by linarith)
  · rw [round, mul_le_mul_iff_left₀ hpos, Int.cast_le, roundHalfEven_le_iff hm, div_le_iff₀ hpos]
  · -- both are above the last number of this place
    have habove : (m + 1) * f.unit e ≤ f.unit (f.place q + f.digits - 1) := by
      refine le_trans ?_ (unit_mono (show (f.digits : ℤ) + e ≤ _ by omega))
      rw [unit_add]
      exact mul_le_mul_of_nonneg_right hhi' hpos.le
    have hround := unit_le_round hq (he.trans_lt hlt)
    have hlarge := unit_le_abs hq.ne' (he.trans_lt hlt)
    rw [abs_of_pos hq] at hlarge
    exact iff_of_false (by linarith) (by linarith)

/-! ## Multiples of a unit -/

/-- The number is a multiple of the unit of the place. -/
def OnGrid (f : FloatFormat) (e : ℤ) (q : ℚ) : Prop := ∃ k : ℤ, q = k * f.unit e

theorem OnGrid.mono (h : OnGrid f e' q) (hle : e ≤ e') : OnGrid f e q := by
  obtain ⟨k, rfl⟩ := h
  refine ⟨k * ((f.radix ^ (e' - e).toNat : ℕ) : ℤ), ?_⟩
  rw [unit_eq_mul hle, Int.cast_mul, mul_assoc]

theorem OnGrid.sub (hx : OnGrid f e x) (hy : OnGrid f e y) : OnGrid f e (x - y) := by
  obtain ⟨j, rfl⟩ := hx
  obtain ⟨k, rfl⟩ := hy
  exact ⟨j - k, by push_cast; ring⟩

theorem OnGrid.neg (h : OnGrid f e q) : OnGrid f e (-q) := by
  obtain ⟨k, rfl⟩ := h
  exact ⟨-k, by push_cast; ring⟩

theorem OnGrid.unit_le (h : OnGrid f e q) (hq : q ≠ 0) : f.unit e ≤ |q| := by
  obtain ⟨k, rfl⟩ := h
  have hk : k ≠ 0 := by
    rintro rfl
    exact hq (by simp)
  rw [abs_mul, abs_of_pos (unit_pos e)]
  have hone : (1 : ℚ) ≤ |(k : ℚ)| := by exact_mod_cast Int.one_le_abs hk
  exact le_mul_of_one_le_left (unit_pos e).le hone

theorem round_onGrid (q : ℚ) : OnGrid f (f.place q) (f.round q) := ⟨_, rfl⟩

theorem round_onLeast (q : ℚ) : OnGrid f f.least (f.round q) :=
  (round_onGrid q).mono (least_le_place q)

/-- A difference of rounded numbers is rounded to zero only if they are equal. -/
theorem round_sub_eq_zero_iff (hx : OnGrid f f.least x) (hy : OnGrid f f.least y) :
    f.round (x - y) = 0 ↔ x = y := by
  rw [round_eq_zero_iff]
  constructor
  · intro hle
    by_contra hne
    have hunit := (hx.sub hy).unit_le (sub_ne_zero.2 hne)
    have hpos := unit_pos (f := f) f.least
    linarith
  · rintro rfl
    rw [sub_self, abs_zero]
    exact div_nonneg (unit_pos _).le two_pos.le

/-- Nor is a sum of rounded numbers. -/
theorem round_add_eq_zero_iff (hx : OnGrid f f.least x) (hy : OnGrid f f.least y) :
    f.round (x + y) = 0 ↔ x + y = 0 := by
  have h := round_sub_eq_zero_iff hx hy.neg
  rwa [sub_neg_eq_add, ← add_eq_zero_iff_eq_neg] at h

/-- No number of the format but zero has a root that is rounded to zero. -/
theorem sqrt_eq_zero_iff (hleast : f.least ≤ 0) (hgrid : OnGrid f f.least q) (hq : 0 ≤ q) :
    f.sqrt q = 0 ↔ q = 0 := by
  constructor
  · intro hzero
    by_contra hne
    have hpos : 0 < q := lt_of_le_of_ne hq (Ne.symm hne)
    -- the square of the last unit of the root is at most the number
    have hsquare : f.unit (max (Int.log f.radix q / 2 + 1 - f.digits) f.least) ^ 2 ≤ q := by
      rw [sq, ← unit_add]
      rcases max_choice (Int.log f.radix q / 2 + 1 - (f.digits : ℤ)) f.least with heq | heq
      · rw [heq]
        refine (unit_mono ?_).trans (Int.zpow_log_le_self f.one_lt_radix hpos)
        have := f.digits_pos
        omega
      · rw [heq]
        have hunit := hgrid.unit_le hne
        rw [abs_of_pos hpos] at hunit
        refine (unit_mono ?_).trans hunit
        omega
    have hlast := unit_pos (f := f) (max (Int.log f.radix q / 2 + 1 - f.digits) f.least)
    have hone : 1 ≤ ⌊q / f.unit (max (Int.log f.radix q / 2 + 1 - f.digits) f.least) ^ 2⌋₊ := by
      rw [Nat.one_le_floor_iff, one_le_div (pow_pos hlast 2)]
      exact hsquare
    have hroot := Nat.sqrt_le_sqrt hone
    rw [Nat.sqrt_one] at hroot
    rw [sqrt, mul_eq_zero, or_iff_left hlast.ne'] at hzero
    split_ifs at hzero
    · rw [Nat.cast_eq_zero] at hzero
      omega
    · exact absurd hzero (Nat.cast_ne_zero.2 (Nat.succ_ne_zero _))
  · rintro rfl
    rw [sqrt, zero_div, Nat.floor_zero, Nat.sqrt_zero, if_pos (sq_nonneg _), Nat.cast_zero, zero_mul]

/-! ## Running sums -/

/-- The sum of the numbers, rounded after each. -/
def runningSum (f : FloatFormat) (xs : List ℚ) : ℚ := xs.foldl (fun total x => f.round (total + x)) 0

theorem foldl_round_nonneg {xs : List ℚ} (hxs : ∀ x ∈ xs, 0 ≤ x) {total : ℚ} (h : 0 ≤ total) :
    0 ≤ xs.foldl (fun total x => f.round (total + x)) total := by
  induction xs generalizing total with
  | nil => exact h
  | cons x xs ih =>
    rw [List.forall_mem_cons] at hxs
    exact ih hxs.2 (round_nonneg (add_nonneg h hxs.1))

theorem foldl_round_eq_zero_iff {xs : List ℚ} (hxs : ∀ x ∈ xs, 0 ≤ x ∧ OnGrid f f.least x)
    {total : ℚ} (h : 0 ≤ total) (hgrid : OnGrid f f.least total) :
    xs.foldl (fun total x => f.round (total + x)) total = 0 ↔ total = 0 ∧ ∀ x ∈ xs, x = 0 := by
  induction xs generalizing total with
  | nil => simp
  | cons x xs ih =>
    rw [List.forall_mem_cons] at hxs
    rw [List.foldl_cons, ih hxs.2 (round_nonneg (add_nonneg h hxs.1.1)) (round_onLeast _),
      round_add_eq_zero_iff hgrid hxs.1.2, add_eq_zero_iff_of_nonneg h hxs.1.1, and_assoc,
      List.forall_mem_cons]

theorem runningSum_nonneg {xs : List ℚ} (hxs : ∀ x ∈ xs, 0 ≤ x) : 0 ≤ f.runningSum xs :=
  foldl_round_nonneg hxs le_rfl

/-- A sum of rounded numbers that are not negative is zero when all of them are. -/
theorem runningSum_eq_zero_iff {xs : List ℚ} (hxs : ∀ x ∈ xs, 0 ≤ x ∧ OnGrid f f.least x) :
    f.runningSum xs = 0 ↔ ∀ x ∈ xs, x = 0 := by
  have hzero : OnGrid f f.least 0 := ⟨0, by simp⟩
  rw [runningSum, foldl_round_eq_zero_iff hxs le_rfl hzero, and_iff_right rfl]

end FloatFormat

end Sentinel.Logic
