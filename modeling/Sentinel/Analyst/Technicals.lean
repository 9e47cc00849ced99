import Sentinel.Contracts.Common
import Sentinel.Logic.PyDecimal

/-!
# Technicals

The indicators of a price history.  `sma` and `rsi` are computed with decimals, each operation in the
context `ctx`; `realized_volatility` goes on with floats.
-/

namespace Sentinel.Analyst

open Logic Contracts

/-! ## Slices -/

/-- Where `values[i:]` starts and where `values[:i]` ends. -/
def sliceIndex (n : ℕ) (i : ℤ) : ℕ := if i < 0 then (i + n).toNat else min i.toNat n

/-- `values[start:]`. -/
def sliceFrom (values : List Decimal) (start : ℤ) : List Decimal :=
  values.drop (sliceIndex values.length start)

/-- `values[start:stop]`. -/
def slice (values : List Decimal) (start stop : ℤ) : List Decimal :=
  (values.take (sliceIndex values.length stop)).drop (sliceIndex values.length start)

namespace Technicals

variable (ctx : DecimalContext)

def sma (values : List Decimal) (period : ℕ) : Except ArithmeticError (Option Decimal) :=
  if values.length < period ∨ period = 0 then .ok none
  else do
    let total ← ctx.sum (sliceFrom values (-period))
    let mean ← ctx.divide total period
    return some mean

/-- One pass of the loop over `gains` and `losses`. -/
def rsiStep (acc pair : Decimal × Decimal) : Except ArithmeticError (Decimal × Decimal) := do
  let change ← ctx (pair.2 - pair.1)
  if 0 < change then
    let gains ← ctx (acc.1 + change)
    return (gains, acc.2)
  else
    let losses ← ctx (acc.2 - change)
    return (acc.1, losses)

/-- `gains` and `losses` after the loop. -/
def gainsLosses (values : List Decimal) (period : ℕ) : Except ArithmeticError (Decimal × Decimal) :=
  ((slice values (-period - 1) (-1)).zip (sliceFrom values (-period))).foldlM (rsiStep ctx) (0, 0)

def rsi (values : List Decimal) (period : ℕ := 14) : Except ArithmeticError (Option Decimal) :=
  if values.length ≤ period then .ok none
  else do
    let (gains, losses) ← gainsLosses ctx values period
    if losses = 0 then return some 100
    else
      let rs ← ctx.divide gains losses
      let whole ← ctx (1 + rs)
      let part ← ctx.divide 100 whole
      let index ← ctx (100 - part)
      return some index

/-- One pass of the loop that collects the relative changes. -/
def returnStep (returns : List PyFloat) (pair : Decimal × Decimal) :
    Except ArithmeticError (List PyFloat) :=
  if pair.1 = 0 then .ok returns
  else do
    let change ← ctx (pair.2 - pair.1)
    let ratio ← ctx.divide change pair.1
    return returns ++ [PyFloat.ofRat ratio]

def returns (values : List Decimal) : Except ArithmeticError (List PyFloat) :=
  ((slice values 0 (-1)).zip (sliceFrom values 1)).foldlM (returnStep ctx) []

/-- `sum((value - mean) ** 2 for value in returns)`. -/
def squaredDeviations (returns : List PyFloat) : Except ArithmeticError PyFloat := do
  let mean ← orRaise .overflow ((PyFloat.sum returns).divCount returns.length)
  let squares ← returns.mapM fun value => orRaise .overflow (value.sub mean).square
  return PyFloat.sum squares

def realizedVolatility (values : List Decimal) : Except ArithmeticError (Option PyDecimal) :=
  if values.length < 2 then .ok none
  else do
    let returns ← returns ctx values
    if returns = [] then return none
    else
      let deviations ← squaredDeviations returns
      let variance ← orRaise .overflow (deviations.divCount returns.length)
      let root ← orRaise .valueError variance.sqrt
      return some (PyDecimal.ofFloat root)

end Technicals

end Sentinel.Analyst
