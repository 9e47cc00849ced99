import Sentinel.Logic.PyFloat

/-!
# Decimals

The decimals of Python.  An operation on them is done exactly, and a context makes its result a
decimal again.

* `DecimalContext`: what becomes of an exact result; `standard` is the context a program starts with.
* `bind_eq_ok`, `foldlM_eq_foldl`: what a computation that may raise says where it does not.
* `PyDecimal`: the decimals with those that are not finite.
-/

namespace Sentinel.Logic

inductive ArithmeticError : Type
  | zeroDivision
  | overflow
  | valueError
  deriving DecidableEq, Repr

/-- The value of an operation that raises where it has none. -/
def orRaise {α : Type} (e : ArithmeticError) : Option α → Except ArithmeticError α
  | some a => .ok a
  | none => .error e

/-! ## Computations that may raise -/

section Raise

variable {ε α β : Type}

theorem bind_eq_ok {x : Except ε α} {f : α → Except ε β} {b : β} :
    (x >>= f) = .ok b ↔ ∃ a, x = .ok a ∧ f a = .ok b := by
  cases x with
  | error e =>
    constructor
    · intro h
      cases h
    · rintro ⟨a, h, -⟩
      cases h
  | ok a =>
    constructor
    · exact fun h => ⟨a, rfl, h⟩
    · rintro ⟨a', h, hf⟩
      cases h
      exact hf

theorem orRaise_eq_ok {e : ArithmeticError} {x : Option α} {a : α} :
    orRaise e x = .ok a ↔ x = some a := by
  cases x with
  | none => simp [orRaise]
  | some a' => simp [orRaise]

/-- A loop whose steps are known where they do not raise. -/
theorem foldlM_eq_foldl {f : β → α → Except ε β} {g : β → α → β} {xs : List α} {init last : β}
    (hstep : ∀ acc x next, f acc x = .ok next → next = g acc x)
    (h : xs.foldlM f init = .ok last) : last = xs.foldl g init := by
  induction xs generalizing init with
  | nil =>
    cases h
    rfl
  | cons x xs ih =>
    rw [List.foldlM_cons, bind_eq_ok] at h
    obtain ⟨next, hnext, hrest⟩ := h
    rw [List.foldl_cons, ← hstep init x next hnext]
    exact ih hrest

end Raise

/-! ## Contexts -/

/-- The result of an operation, from its exact result. -/
abbrev DecimalContext : Type := ℚ → Except ArithmeticError ℚ

namespace DecimalContext

def unrounded : DecimalContext := fun q => .ok q

/-- The precision and the exponents of the context that a program starts with. -/
def format : FloatFormat where
  radix := 10
  digits := 28
  least := -1000026
  above := 1000000
  one_lt_radix := by decide
  digits_pos := by decide

def standard : DecimalContext := fun q =>
  let rounded := format.round q
  if format.overflows rounded then .error .overflow else .ok rounded

variable (ctx : DecimalContext)

/-- `a / b`. -/
def divide (a b : ℚ) : Except ArithmeticError ℚ :=
  if b = 0 then .error .zeroDivision else ctx (a / b)

/-- `sum(values, Decimal("0"))`. -/
def sum (values : List ℚ) : Except ArithmeticError ℚ :=
  values.foldlM (fun total value => ctx (total + value)) 0

theorem standard_eq {q r : ℚ} (h : standard q = .ok r) : r = format.round q := by
  rw [standard] at h
  split_ifs at h
  exact (Except.ok.inj h).symm

theorem divide_eq {a b r : ℚ} (h : standard.divide a b = .ok r) : r = format.round (a / b) := by
  rw [divide] at h
  split_ifs at h
  exact standard_eq h

theorem sum_eq {values : List ℚ} {total : ℚ} (h : standard.sum values = .ok total) :
    total = format.runningSum values :=
  foldlM_eq_foldl (fun _ _ _ hnext => standard_eq hnext) h

end DecimalContext

/-! ## Decimals that are not finite -/

inductive PyDecimal : Type
  | finite (q : ℚ)
  | infinity (negative : Bool)
  | nan
  deriving DecidableEq

/-- `Decimal(str(x))` of a float that is not negative. -/
def PyDecimal.ofFloat : PyFloat → PyDecimal
  | .finite q => .finite (PyFloat.shortest q)
  | .inf negative => .infinity negative
  | .nan => .nan

theorem PyDecimal.ofFloat_eq_zero_iff {x : PyFloat} :
    PyDecimal.ofFloat x = .finite 0 ↔ x = .finite 0 := by
  cases x with
  | finite q =>
    rw [PyDecimal.ofFloat, PyDecimal.finite.injEq, PyFloat.finite.injEq, PyFloat.shortest_eq_zero_iff]
  | inf negative => simp [PyDecimal.ofFloat]
  | nan => simp [PyDecimal.ofFloat]

end Sentinel.Logic
