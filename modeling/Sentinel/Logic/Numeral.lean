import Mathlib.Algebra.Order.Group.Nat
import Mathlib.Data.Char
import Mathlib.Tactic.Tauto

/-!
# Positions and padded decimals

* `periodStart len k`: where period `k` starts when periods of lengths `len 0`, `len 1`, … follow
  each other; `locate` finds the period of a position.
* `padded w n`: `n` with `w` decimal digits; `lexLe`: order byte by byte.  Padded decimals of one
  width are ordered like numbers (`lexLe_padded`).
-/

namespace Sentinel.Logic

/-! ## Periods -/

section Periods

variable (len : ℕ → ℕ)

def periodStart : ℕ → ℕ
  | 0 => 0
  | k + 1 => periodStart k + len k

@[simp] theorem periodStart_zero : periodStart len 0 = 0 := rfl

theorem periodStart_succ (k : ℕ) : periodStart len (k + 1) = periodStart len k + len k := rfl

variable {len}

theorem periodStart_mono {j k : ℕ} (h : j ≤ k) : periodStart len j ≤ periodStart len k := by
  induction k, h using Nat.le_induction with
  | base => exact le_rfl
  | succ k _ ih =>
    rw [periodStart_succ]
    omega

/-- An earlier period ends before a later one goes on. -/
theorem periodStart_add_lt {j k r r' : ℕ} (hr : r < len j) (h : j < k) :
    periodStart len j + r < periodStart len k + r' := by
  have hnext : periodStart len (j + 1) ≤ periodStart len k := periodStart_mono h
  rw [periodStart_succ] at hnext
  omega

/-- Positions are ordered by period, then within the period. -/
theorem periodStart_add_lt_iff {j k r r' : ℕ} (hr : r < len j) (hr' : r' < len k) :
    periodStart len j + r < periodStart len k + r' ↔ j < k ∨ j = k ∧ r < r' := by
  rcases lt_trichotomy j k with h | rfl | h
  · exact iff_of_true (periodStart_add_lt hr h) (.inl h)
  · rw [Nat.add_lt_add_iff_left]
    exact ⟨fun h => .inr ⟨rfl, h⟩, fun h => h.elim (fun h => absurd h (lt_irrefl j)) And.right⟩
  · have hback : periodStart len k + r' < periodStart len j + r := periodStart_add_lt hr' h
    exact iff_of_false (by omega) (by omega)

theorem periodStart_add_inj {j k r r' : ℕ} (hr : r < len j) (hr' : r' < len k)
    (h : periodStart len j + r = periodStart len k + r') : j = k ∧ r = r' := by
  have hlt := periodStart_add_lt_iff hr hr'
  have hgt := periodStart_add_lt_iff hr' hr
  omega

variable (len)

/-- The period in which a position `n` after the start of period `k` lies, and where in it: looks
through `count` periods. -/
def locate : ℕ → ℕ → ℕ → ℕ × ℕ
  | 0, k, n => (k, n)
  | count + 1, k, n => if n < len k then (k, n) else locate count (k + 1) (n - len k)

/-- The position found is the position sought. -/
theorem locate_sum (count k n : ℕ) :
    periodStart len (locate len count k n).1 + (locate len count k n).2 = periodStart len k + n := by
  induction count generalizing k n with
  | zero => rfl
  | succ count ih =>
    rw [locate]
    by_cases hn : n < len k
    · rw [if_pos hn]
    · rw [if_neg hn, ih, periodStart_succ]
      omega

variable {len}

/-- It lies in its period. -/
theorem locate_lt {count k n : ℕ} (h : periodStart len k + n < periodStart len (k + count)) :
    (locate len count k n).2 < len (locate len count k n).1 := by
  induction count generalizing k n with
  | zero =>
    rw [Nat.add_zero] at h
    omega
  | succ count ih =>
    rw [locate]
    by_cases hn : n < len k
    · rw [if_pos hn]
      exact hn
    · rw [if_neg hn]
      have hpos : periodStart len (k + 1) + (n - len k) = periodStart len k + n := by
        rw [periodStart_succ]
        omega
      have hend : k + 1 + count = k + (count + 1) := by omega
      refine ih ?_
      rw [hpos, hend]
      exact h

/-- A position is found where it was put. -/
theorem locate_periodStart_add {count j r : ℕ} (hr : r < len j) (hj : j < count) :
    locate len count 0 (periodStart len j + r) = (j, r) := by
  have hend : periodStart len 0 + (periodStart len j + r) < periodStart len (0 + count) := by
    have hlt : periodStart len j + r < periodStart len count + 0 := periodStart_add_lt hr hj
    rw [periodStart_zero, Nat.zero_add, Nat.zero_add]
    exact hlt
  have heq := locate_sum len count 0 (periodStart len j + r)
  rw [periodStart_zero, Nat.zero_add] at heq
  obtain ⟨hj, hr⟩ := periodStart_add_inj (locate_lt hend) hr heq
  exact Prod.ext hj hr

end Periods

/-! ## Order byte by byte -/

section Lex

variable {α : Type} [LT α] [DecidableLT α] [DecidableEq α]

/-- The first difference decides; a prefix comes first. -/
def lexLe : List α → List α → Bool
  | [], _ => true
  | _ :: _, [] => false
  | a :: as, b :: bs => a < b || (a = b && lexLe as bs)

theorem lexLe_refl (as : List α) : lexLe as as = true := by
  induction as with
  | nil => rfl
  | cons a as ih => simp [lexLe, ih]

theorem lexLe_cons {a b : α} {as bs : List α} :
    lexLe (a :: as) (b :: bs) = true ↔ a < b ∨ a = b ∧ lexLe as bs = true := by
  simp [lexLe]

end Lex

/-! ## Padded decimals -/

def digit (d : ℕ) : Char := Char.ofNat (48 + d)

theorem digit_lt_iff {c d : ℕ} (hc : c < 10) (hd : d < 10) : digit c < digit d ↔ c < d := by
  have h : ∀ c < 10, ∀ d < 10, (digit c < digit d ↔ c < d) := by decide
  exact h c hc d hd

theorem digit_inj {c d : ℕ} (hc : c < 10) (hd : d < 10) : digit c = digit d ↔ c = d := by
  have h : ∀ c < 10, ∀ d < 10, (digit c = digit d ↔ c = d) := by decide
  exact h c hc d hd

/-- The last `w` decimal digits of `n`. -/
def padded : ℕ → ℕ → List Char
  | 0, _ => []
  | w + 1, n => padded w (n / 10) ++ [digit (n % 10)]

/-- Equal widths: the numbers decide, then what follows. -/
theorem lexLe_padded {w m n : ℕ} (hm : m < 10 ^ w) (hn : n < 10 ^ w) (u v : List Char) :
    lexLe (padded w m ++ u) (padded w n ++ v) = true ↔ m < n ∨ m = n ∧ lexLe u v = true := by
  induction w generalizing m n u v with
  | zero =>
    obtain rfl : m = 0 := by simpa using hm
    obtain rfl : n = 0 := by simpa using hn
    simp [padded]
  | succ w ih =>
    rw [Nat.pow_succ] at hm hn
    rw [padded, padded, List.append_assoc, List.append_assoc, ih (by omega) (by omega),
      List.singleton_append, List.singleton_append, lexLe_cons,
      digit_lt_iff (by omega) (by omega), digit_inj (by omega) (by omega)]
    have hlast : m = n ↔ m / 10 = n / 10 ∧ m % 10 = n % 10 := by omega
    have hless : m < n ↔ m / 10 < n / 10 ∨ m / 10 = n / 10 ∧ m % 10 < n % 10 := by omega
    rw [hless, hlast]
    tauto

/-- The same with one separator after both numbers. -/
theorem lexLe_padded_cons {w m n : ℕ} (hm : m < 10 ^ w) (hn : n < 10 ^ w) (c : Char)
    (u v : List Char) : lexLe (padded w m ++ c :: u) (padded w n ++ c :: v) = true ↔
      m < n ∨ m = n ∧ lexLe u v = true := by
  have hsame : lexLe (c :: u) (c :: v) = true ↔ lexLe u v = true := by
    rw [lexLe_cons, or_iff_right (lt_irrefl c), and_iff_right rfl]
  rw [lexLe_padded hm hn, hsame]

end Sentinel.Logic
