import Mathlib.Data.Nat.Sqrt
import Sentinel.Logic.Rounding

/-!
# Floats

The floats of Python: the numbers of the binary format of 64 bits, the infinities and what is not a
number.  The two zeros are one.

* `PyFloat.lt`, `PyFloat.ltRat` and the like: comparisons, all false for what is not a number.
* `PyFloat.add`, `sub`, `divCount`, `square`, `sqrt`, `sum`: arithmetic with its rounding; an
  operation that raises is none.
* `PyFloat.shortest`: the decimal number that is printed for a float.
-/

namespace Sentinel.Logic

inductive PyFloat : Type
  | finite (q : ℚ)
  | inf (negative : Bool)
  | nan
  deriving DecidableEq

namespace PyFloat

/-! ## Comparisons -/

/-- `x < q`. -/
def ltRat : PyFloat → ℚ → Bool
  | finite x, q => x < q
  | inf negative, _ => negative
  | nan, _ => false

/-- `q < x`. -/
def gtRat : PyFloat → ℚ → Bool
  | finite x, q => q < x
  | inf negative, _ => !negative
  | nan, _ => false

/-- `q <= x`. -/
def atLeast : PyFloat → ℚ → Bool
  | finite x, q => q ≤ x
  | inf negative, _ => !negative
  | nan, _ => false

/-- `x < y`. -/
def lt : PyFloat → PyFloat → Bool
  | finite x, y => y.gtRat x
  | inf negative, finite _ => negative
  | inf negative, inf negative' => negative && !negative'
  | inf _, nan => false
  | nan, _ => false

/-- `abs(y) <= abs(x)`. -/
def absAtLeast : PyFloat → PyFloat → Bool
  | finite x, finite y => |y| ≤ |x|
  | inf _, finite _ => true
  | inf _, inf _ => true
  | _, _ => false

/-- `int(x)`, which raises for what is not finite. -/
def toInt : PyFloat → Option ℤ
  | finite x => some (x.num.tdiv x.den)
  | _ => none

variable {x y z : PyFloat}

theorem lt_self (x : PyFloat) : x.lt x = false := by
  cases x with
  | finite q =>
    rw [lt, gtRat, decide_eq_false_iff_not]
    exact lt_irrefl q
  | inf negative => exact Bool.and_not_self negative
  | nan => rfl

theorem lt_of_lt_of_lt (hxy : x.lt y = true) (hyz : y.lt z = true) : x.lt z = true := by
  cases x with
  | nan => cases hxy
  | finite p =>
    cases y with
    | nan => cases hxy
    | finite q =>
      cases z with
      | nan => cases hyz
      | finite r =>
        simp only [lt, gtRat, decide_eq_true_eq] at hxy hyz ⊢
        exact hxy.trans hyz
      | inf negative => exact hyz
    | inf negative =>
      cases z with
      | nan => cases hyz
      | finite r =>
        simp only [lt, gtRat, Bool.not_eq_true'] at hxy hyz
        cases hxy.symm.trans hyz
      | inf negative' =>
        simp only [lt, Bool.and_eq_true] at hyz
        exact hyz.2
  | inf negative =>
    cases y with
    | nan => cases hxy
    | finite q =>
      cases z with
      | nan => cases hyz
      | finite r => exact hxy
      | inf negative' =>
        simp only [lt, Bool.and_eq_true] at hxy ⊢
        exact ⟨hxy, hyz⟩
    | inf negative' =>
      simp only [lt, Bool.and_eq_true] at hxy
      cases z with
      | nan => cases hyz
      | finite r => exact hxy.1
      | inf negative'' =>
        simp only [lt, Bool.and_eq_true] at hyz ⊢
        exact ⟨hxy.1, hyz.2⟩

/-- What is not a number aside, one of two floats is the smaller, or they are equal. -/
theorem lt_or_eq_or_lt (hx : x ≠ nan) (hy : y ≠ nan) :
    x.lt y = true ∨ x = y ∨ y.lt x = true := by
  cases x with
  | nan => exact absurd rfl hx
  | finite p =>
    cases y with
    | nan => exact absurd rfl hy
    | finite q =>
      simp only [lt, gtRat, decide_eq_true_eq, finite.injEq]
      exact lt_trichotomy p q
    | inf negative => cases negative <;> simp [lt, gtRat]
  | inf negative =>
    cases y with
    | nan => exact absurd rfl hy
    | finite q => cases negative <;> simp [lt, gtRat]
    | inf negative' => cases negative <;> cases negative' <;> simp [lt]

/-! ## Arithmetic -/

/-- The format `binary64`. -/
def binary64 : FloatFormat where
  radix := 2
  digits := 53
  least := -1074
  above := 1024
  one_lt_radix := by decide
  digits_pos := by decide

/-- The float for an exact result. -/
def ofRat (q : ℚ) : PyFloat :=
  let rounded := binary64.round q
  if binary64.overflows rounded then inf (rounded < 0) else finite rounded

def neg : PyFloat → PyFloat
  | finite x => finite (-x)
  | inf negative => inf (!negative)
  | nan => nan

def add : PyFloat → PyFloat → PyFloat
  | finite x, finite y => ofRat (x + y)
  | finite _, inf negative => inf negative
  | inf negative, finite _ => inf negative
  | inf a, inf b => if a = b then inf a else nan
  | _, _ => nan

def sub (x y : PyFloat) : PyFloat := x.add y.neg

/-- `x / n` for an integer that is not zero; it raises for one that no float can hold. -/
def divCount (x : PyFloat) (n : ℕ) : Option PyFloat :=
  let count := binary64.round n
  if binary64.overflows count then none
  else match x with
    | finite x => some (ofRat (x / count))
    | inf negative => some (inf negative)
    | nan => some nan

/-- `x ** 2`, which raises if a number becomes too large. -/
def square : PyFloat → Option PyFloat
  | finite x =>
    match ofRat (x ^ 2) with
    | inf _ => none
    | squared => some squared
  | inf _ => some (inf false)
  | nan => some nan

/-- `math.sqrt(x)`, which raises below zero. -/
def sqrt : PyFloat → Option PyFloat
  | finite x => if x < 0 then none else some (finite (binary64.sqrt x))
  | inf negative => if negative then none else some (inf false)
  | nan => some nan

/-- One item of `sum`: the total, and what was rounded off so far. -/
def sumStep (acc : PyFloat × PyFloat) (x : PyFloat) : PyFloat × PyFloat :=
  let (total, compensation) := acc
  let next := total.add x
  let lost := if total.absAtLeast x then (total.sub next).add x else (x.sub next).add total
  (next, compensation.add lost)

/-- `sum(xs)`; since Python 3.12 what each addition rounds off is added at the end. -/
def sum (xs : List PyFloat) : PyFloat :=
  let (total, compensation) := xs.foldl sumStep (finite 0, finite 0)
  match compensation with
  | finite _ => total.add compensation
  | _ => total

/-! ## Results that are zero -/

theorem ofRat_eq_finite {q r : ℚ} (h : ofRat q = finite r) : r = binary64.round q := by
  rw [ofRat] at h
  split_ifs at h
  exact (finite.inj h).symm

theorem ofRat_eq_zero_iff {q : ℚ} :
    ofRat q = finite 0 ↔ |q| ≤ binary64.unit binary64.least / 2 := by
  rw [← FloatFormat.round_eq_zero_iff]
  constructor
  · exact fun h => (ofRat_eq_finite h).symm
  · intro h
    have hsmall : binary64.overflows 0 = false := by decide +kernel
    simp [ofRat, h, hsmall]

/-- Only zero has the root zero. -/
theorem sqrt_ofRat_eq_zero_iff {q : ℚ} {root : PyFloat} (h : (ofRat q).sqrt = some root) :
    root = finite 0 ↔ ofRat q = finite 0 := by
  cases hq : ofRat q with
  | finite r =>
    have hgrid := FloatFormat.round_onLeast (f := binary64) q
    rw [← ofRat_eq_finite hq] at hgrid
    rw [hq, sqrt] at h
    split_ifs at h with hneg
    cases h
    rw [finite.injEq, finite.injEq, FloatFormat.sqrt_eq_zero_iff (by decide) hgrid (not_lt.1 hneg)]
  | inf negative =>
    rw [hq, sqrt] at h
    split_ifs at h
    cases h
    simp
  | nan =>
    rw [hq] at h
    cases h
    simp

/-- The root of a quotient is zero exactly when the quotient is rounded to zero. -/
theorem sqrt_divCount_eq_zero_iff {x quotient root : PyFloat} {n : ℕ}
    (hquotient : x.divCount n = some quotient) (hroot : quotient.sqrt = some root) :
    root = finite 0 ↔
      ∃ q, x = finite q ∧ |q / binary64.round n| ≤ binary64.unit binary64.least / 2 := by
  simp only [divCount, Option.ite_none_left_eq_some] at hquotient
  obtain ⟨-, hquotient⟩ := hquotient
  cases x with
  | finite q =>
    cases hquotient
    rw [sqrt_ofRat_eq_zero_iff hroot, ofRat_eq_zero_iff]
    simp
  | inf negative =>
    cases hquotient
    rw [sqrt] at hroot
    split_ifs at hroot
    cases hroot
    simp
  | nan =>
    cases hquotient
    cases hroot
    simp

/-! ## Printing -/

/-- The numbers of `n` decimal digits next to a number that the format rounds to it. -/
def decimals (q : ℚ) (n : ℕ) : List ℚ :=
  let unit := (10 : ℚ) ^ (Int.log 10 q + 1 - n)
  let below := ⌊q / unit⌋ * unit
  [below, below + unit].filter fun d => binary64.round d = q

/-- The one that is nearer, if there are two. -/
def closest (q : ℚ) : List ℚ → Option ℚ
  | [] => none
  | [d] => some d
  | d :: d' :: _ => some (if q - d ≤ d' - q then d else d')

/-- The decimal number that `str` prints for a float that is not negative: one with the least number
of digits that is read as the float again. -/
def shortest (q : ℚ) : ℚ :=
  ((List.range 17).findSome? fun n => closest q (decimals q (n + 1))).getD q

theorem closest_mem {q d : ℚ} {ds : List ℚ} (h : closest q ds = some d) : d ∈ ds := by
  rcases ds with _ | ⟨d', _ | ⟨d'', rest⟩⟩
  · cases h
  · cases h
    exact List.mem_cons_self
  · have heq := Option.some.inj h
    split_ifs at heq
    · simp [heq]
    · simp [heq]

/-- Only zero is printed as zero. -/
theorem shortest_eq_zero_iff (q : ℚ) : shortest q = 0 ↔ q = 0 := by
  constructor
  · intro hzero
    rw [shortest] at hzero
    cases hfound : (List.range 17).findSome? fun n => closest q (decimals q (n + 1)) with
    | none =>
      rw [hfound] at hzero
      exact hzero
    | some d =>
      rw [hfound, Option.getD_some] at hzero
      obtain ⟨n, -, hd⟩ := List.exists_of_findSome?_eq_some hfound
      have hmem := closest_mem hd
      rw [decimals] at hmem
      have hround := of_decide_eq_true (List.mem_filter.mp hmem).2
      rw [← hround, hzero, FloatFormat.round_zero]
  · rintro rfl
    decide +kernel

end PyFloat

end Sentinel.Logic
