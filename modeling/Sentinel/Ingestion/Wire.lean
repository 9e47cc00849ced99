import Mathlib.Algebra.Order.Field.Rat
import Mathlib.Data.Rat.Floor
import Sentinel.Logic.PyFloat

/-!
# What `json.loads` returns

The values that the feed of markets and the websocket are decoded to, and the functions of
`sentinel.ingestion.models` that read numbers and times out of them.  Arithmetic on finite floats is
exact; `Infinity`, `NaN` and literals that are too large are decoded as well, and so are values.

A reading that raises is none.
-/

namespace Sentinel.Ingestion

open Logic

/-! ## Floats -/

/-- `x + y`, of finite floats exactly. -/
def plus : PyFloat → PyFloat → PyFloat
  | .finite x, .finite y => .finite (x + y)
  | .finite _, .inf negative => .inf negative
  | .inf negative, .finite _ => .inf negative
  | .inf a, .inf b => if a = b then .inf a else .nan
  | _, _ => .nan

/-- `x - y`, of finite floats exactly. -/
def minus (x y : PyFloat) : PyFloat := plus x y.neg

/-- `x / 2`. -/
def half : PyFloat → PyFloat
  | .finite x => .finite (x / 2)
  | .inf negative => .inf negative
  | .nan => .nan

/-! ## Values -/

/-- The first item of a key of a dict is the one that counts. -/
inductive Value : Type
  | null
  | bool (b : Bool)
  | int (n : ℤ)
  | float (x : PyFloat)
  | str (s : String)
  | list (items : List Value)
  | dict (items : List (String × Value))

/-- `d.get(key)` and `d[key]`. -/
def field (items : List (String × Value)) (key : String) : Option Value := items.lookup key

/-- `d.get(key)`, where none and `None` are the same. -/
def getKey (items : List (String × Value)) (key : String) : Value := (field items key).getD .null

namespace Value

def truthy : Value → Bool
  | null => false
  | bool b => b
  | int n => n ≠ 0
  | float x => x ≠ .finite 0
  | str s => s ≠ ""
  | list items => !items.isEmpty
  | dict items => !items.isEmpty

/-- `value or default`. -/
def orElse (value default : Value) : Value := if value.truthy then value else default

end Value

/-- The built-ins of Python on texts: `int` and `float` are none for a `ValueError`, `isoMs` is what
`datetime.fromisoformat` and the conversion to milliseconds make of a text, none where the first
raises and `some none` where the second does; `repr` prints floats and containers. -/
structure TextBuiltins : Type where
  strip : String → String
  isdigit : String → Bool
  int : String → Option ℤ
  float : String → Option PyFloat
  isoMs : String → Option (Option ℤ)
  repr : Value → String

section Readings

variable (py : TextBuiltins)

/-- `str(value)`. -/
def pyStr (value : Value) : String :=
  match value with
  | .null => "None"
  | .bool b => if b then "True" else "False"
  | .int n => toString n
  | .str s => s
  | .float _ | .list _ | .dict _ => py.repr value

/-- `float(n)` raises an `OverflowError` from half a unit in the last place above the greatest float
on. -/
def overflows (n : ℤ) : Prop := 2 ^ 1024 - 2 ^ 970 ≤ |n|

instance (n : ℤ) : Decidable (overflows n) := by
  unfold overflows
  infer_instance

def parseFloat (value : Value) (default : ℚ) : Option PyFloat :=
  match value with
  | .null => some (.finite default)
  | .bool b => some (.finite (if b then 1 else 0))
  | .int n => if overflows n then none else some (.finite n)
  | .float x => some x
  | .str s => if s = "" then some (.finite default) else some ((py.float s).getD (.finite default))
  | .list _ | .dict _ => some (.finite default)

def parseTsMs (value : Value) : Option ℤ :=
  match value with
  | .null => some 0
  | .bool b => some (if b then 1 else 0)
  | .int n => some n
  | .float x => x.toInt
  | .str s =>
    if py.isdigit (py.strip s) then py.int (py.strip s)
    else (py.isoMs ((py.strip s).replace "Z" "+00:00")).getD (some 0)
  | .list _ | .dict _ => some 0

/-! ## Numbers and times that are there -/

/-- The number that a value is, or is the text of. -/
def numeric : Value → Option ℚ
  | .int n => if overflows n then none else some n
  | .float (.finite q) => some q
  | .str s =>
    if s = "" then none
    else match py.float s with
      | some (.finite q) => some q
      | _ => none
  | _ => none

/-- A number of milliseconds, the text of one, or the text of a date. -/
def isTime : Value → Bool
  | .int _ | .float (.finite _) => true
  | .str s =>
    if py.isdigit (py.strip s) then (py.int (py.strip s)).isSome
    else match py.isoMs ((py.strip s).replace "Z" "+00:00") with
      | some (some _) => true
      | _ => false
  | _ => false

variable {py}

theorem parseFloat_numeric {value : Value} {q : ℚ} (hnum : numeric py value = some q) (default : ℚ) :
    parseFloat py value default = some (.finite q) := by
  unfold numeric at hnum
  split at hnum
  · rename_i n
    show (if overflows n then none else some (PyFloat.finite n)) = _
    by_cases hbig : overflows n
    · rw [if_pos hbig] at hnum
      exact nomatch hnum
    · rw [if_neg hbig] at hnum ⊢
      obtain rfl := Option.some.inj hnum
      rfl
  · obtain rfl := Option.some.inj hnum
    rfl
  · rename_i s
    show (if s = "" then _ else some ((py.float s).getD _)) = _
    by_cases hempty : s = ""
    · rw [if_pos hempty] at hnum
      exact nomatch hnum
    · rw [if_neg hempty] at hnum ⊢
      split at hnum
      · rename_i hfloat
        rw [hfloat, Option.some.inj hnum]
        rfl
      · exact nomatch hnum
  · exact nomatch hnum

theorem parseTsMs_isTime {value : Value} (htime : isTime py value = true) :
    (parseTsMs py value).isSome = true := by
  unfold isTime at htime
  split at htime
  · rfl
  · rfl
  · rename_i s
    show (if py.isdigit (py.strip s) = true then py.int (py.strip s) else _).isSome = true
    by_cases hdigits : py.isdigit (py.strip s) = true
    · rw [if_pos hdigits] at htime ⊢
      exact htime
    · rw [if_neg hdigits] at htime ⊢
      split at htime
      · rename_i hiso
        rw [hiso]
        rfl
      · exact nomatch htime
  · exact nomatch htime

end Readings

end Sentinel.Ingestion
