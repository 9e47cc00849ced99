import Mathlib.Algebra.Order.Ring.Int
import Sentinel.Logic.Numeral

/-!
# The calendar

Datetimes of the proleptic Gregorian calendar in UTC, and where they lie on the time axis.

* `DateTime`: a valid datetime; `DateTime.toTime`: its microseconds since 1970.
* `DateTime.ofTime?`: the datetime of a time; `ofTime?_eq_some_iff` makes it the inverse.
-/

namespace Sentinel.Logic

/-! ## Datetimes -/

def isLeap (year : ℕ) : Bool := year % 4 = 0 && (year % 100 ≠ 0 || year % 400 = 0)

/-- The months count from 0 here. -/
def monthLength (year month : ℕ) : ℕ :=
  match month with
  | 1 => if isLeap year then 29 else 28
  | 3 | 5 | 8 | 10 => 30
  | _ => 31

/-- The years count from 0 here: index 0 is the year 1. -/
def yearLength (index : ℕ) : ℕ := if isLeap (index + 1) then 366 else 365

/-- A datetime of the proleptic Gregorian calendar, in UTC. -/
@[ext] structure DateTime : Type where
  year : ℕ
  month : ℕ
  day : ℕ
  hour : ℕ
  minute : ℕ
  second : ℕ
  microsecond : ℕ
  year_mem : 1 ≤ year ∧ year ≤ 9999
  month_mem : 1 ≤ month ∧ month ≤ 12
  day_mem : 1 ≤ day ∧ day ≤ monthLength year (month - 1)
  hour_lt : hour < 24
  minute_lt : minute < 60
  second_lt : second < 60
  microsecond_lt : microsecond < 1000000

namespace DateTime

/-- The days of the year before the day. -/
def dayOfYear (d : DateTime) : ℕ := periodStart (monthLength d.year) (d.month - 1) + (d.day - 1)

/-- The days before the day, from the first day of the year 1. -/
def dayNumber (d : DateTime) : ℕ := periodStart yearLength (d.year - 1) + d.dayOfYear

/-- The microseconds since the start of the year 1. -/
def micros (d : DateTime) : ℕ :=
  (((d.dayNumber * 24 + d.hour) * 60 + d.minute) * 60 + d.second) * 1000000 + d.microsecond

/-- The microseconds before 1970. -/
def epoch : ℤ := 62135596800000000

def toTime (d : DateTime) : ℤ := (d.micros : ℤ) - epoch

example : periodStart yearLength 1969 * 86400000000 = epoch := by decide +kernel

/-- Noon of a leap day. -/
def leapDay : DateTime :=
  ⟨2024, 2, 29, 12, 0, 0, 0, by decide, by decide, by decide, by decide, by decide, by decide,
    by decide⟩

/-! ## The order -/

theorem monthLength_le (year month : ℕ) : monthLength year month ≤ 31 := by
  unfold monthLength
  repeat' split
  all_goals omega

theorem day_lt (d : DateTime) : d.day < 100 := by
  have hday := d.day_mem
  have hlength := monthLength_le d.year (d.month - 1)
  omega

variable (a b : DateTime)

/-- The months of a year fill it. -/
theorem periodStart_monthLength {year : ℕ} (h : 1 ≤ year) :
    periodStart (monthLength year) 12 = yearLength (year - 1) := by
  have hyear : year - 1 + 1 = year := by omega
  rw [yearLength, hyear]
  simp only [periodStart_succ, periodStart_zero, monthLength]
  split_ifs <;> rfl

theorem dayOfYear_lt : a.dayOfYear < yearLength (a.year - 1) := by
  have hmonth := a.month_mem
  have hday := a.day_mem
  rw [← periodStart_monthLength a.year_mem.1, ← Nat.add_zero (periodStart _ 12)]
  exact periodStart_add_lt (by omega) (by omega)

theorem dayOfYear_lt_iff (hyear : a.year = b.year) : a.dayOfYear < b.dayOfYear ↔
    a.month < b.month ∨ a.month = b.month ∧ a.day < b.day := by
  have hma := a.month_mem
  have hmb := b.month_mem
  have hda := a.day_mem
  have hdb := b.day_mem
  rw [dayOfYear, dayOfYear, hyear, periodStart_add_lt_iff (by rw [← hyear]; omega) (by omega)]
  omega

theorem dayNumber_lt_iff : a.dayNumber < b.dayNumber ↔ a.year < b.year ∨ a.year = b.year ∧
    (a.month < b.month ∨ a.month = b.month ∧ a.day < b.day) := by
  have hya := a.year_mem
  have hyb := b.year_mem
  rw [dayNumber, dayNumber, periodStart_add_lt_iff a.dayOfYear_lt b.dayOfYear_lt]
  have hlt : a.year - 1 < b.year - 1 ↔ a.year < b.year := by omega
  have heq : a.year - 1 = b.year - 1 ↔ a.year = b.year := by omega
  rw [hlt, heq]
  exact or_congr_right (and_congr_right fun h => dayOfYear_lt_iff a b h)

theorem dayNumber_eq_iff : a.dayNumber = b.dayNumber ↔
    a.year = b.year ∧ a.month = b.month ∧ a.day = b.day := by
  have hab := dayNumber_lt_iff a b
  have hba := dayNumber_lt_iff b a
  omega

theorem micros_le_iff : a.micros ≤ b.micros ↔
    a.dayNumber < b.dayNumber ∨ a.dayNumber = b.dayNumber ∧ (a.hour < b.hour ∨ a.hour = b.hour ∧
      (a.minute < b.minute ∨ a.minute = b.minute ∧ (a.second < b.second ∨ a.second = b.second ∧
        a.microsecond ≤ b.microsecond))) := by
  have h₁ := a.hour_lt
  have h₂ := b.hour_lt
  have h₃ := a.minute_lt
  have h₄ := b.minute_lt
  have h₅ := a.second_lt
  have h₆ := b.second_lt
  have h₇ := a.microsecond_lt
  have h₈ := b.microsecond_lt
  unfold micros
  omega

theorem toTime_le_iff : a.toTime ≤ b.toTime ↔ a.micros ≤ b.micros :=
  (sub_le_sub_iff_right _).trans Int.ofNat_le

/-! ## The text of a datetime -/

/-- The fraction is left out when it is zero. -/
def fraction (microsecond : ℕ) : List Char :=
  if microsecond = 0 then [] else '.' :: padded 6 microsecond

def isoformat (d : DateTime) : List Char :=
  padded 4 d.year ++ '-' :: (padded 2 d.month ++ '-' :: (padded 2 d.day ++ 'T' ::
    (padded 2 d.hour ++ ':' :: (padded 2 d.minute ++ ':' :: (padded 2 d.second ++
      (fraction d.microsecond ++ ['+', '0', '0', ':', '0', '0']))))))

example : leapDay.isoformat = "2024-02-29T12:00:00+00:00".toList := by decide +kernel

/-! ## The order of the texts -/

/-- A missing fraction sorts before every other: the sign of the zone is before the point. -/
theorem fraction_lexLe_iff {u v : ℕ} (hu : u < 1000000) (hv : v < 1000000) (zone : List Char) :
    lexLe (fraction u ++ '+' :: zone) (fraction v ++ '+' :: zone) = true ↔ u ≤ v := by
  by_cases hu0 : u = 0
  · by_cases hv0 : v = 0
    · rw [hu0, hv0]
      exact iff_of_true (lexLe_refl _) le_rfl
    · rw [fraction, fraction, if_pos hu0, if_neg hv0, List.nil_append, List.cons_append, lexLe_cons]
      exact iff_of_true (.inl (by decide)) (by omega)
  · by_cases hv0 : v = 0
    · rw [fraction, fraction, if_neg hu0, if_pos hv0, List.nil_append, List.cons_append, lexLe_cons]
      have hsign : ¬('.' : Char) < '+' ∧ ('.' : Char) ≠ '+' := by decide
      exact iff_of_false (fun h => h.elim hsign.1 fun h => hsign.2 h.1) (by omega)
    · rw [fraction, fraction, if_neg hu0, if_neg hv0, List.cons_append, List.cons_append, lexLe_cons,
        or_iff_right (by decide), and_iff_right rfl, lexLe_padded_cons hu hv,
        lexLe_refl, and_iff_left rfl]
      omega

/-- Byte by byte the fields decide one after the other. -/
theorem isoformat_lexLe_iff : lexLe a.isoformat b.isoformat = true ↔
    a.year < b.year ∨ a.year = b.year ∧ (a.month < b.month ∨ a.month = b.month ∧
      (a.day < b.day ∨ a.day = b.day ∧ (a.hour < b.hour ∨ a.hour = b.hour ∧
        (a.minute < b.minute ∨ a.minute = b.minute ∧ (a.second < b.second ∨ a.second = b.second ∧
          a.microsecond ≤ b.microsecond))))) := by
  have hya := a.year_mem
  have hyb := b.year_mem
  have hma := a.month_mem
  have hmb := b.month_mem
  have hda := a.day_lt
  have hdb := b.day_lt
  have hha := a.hour_lt
  have hhb := b.hour_lt
  have hia := a.minute_lt
  have hib := b.minute_lt
  have hsa := a.second_lt
  have hsb := b.second_lt
  rw [isoformat, isoformat, lexLe_padded_cons (by omega) (by omega),
    lexLe_padded_cons (by omega) (by omega), lexLe_padded_cons (by omega) (by omega),
    lexLe_padded_cons (by omega) (by omega), lexLe_padded_cons (by omega) (by omega),
    lexLe_padded (by omega) (by omega), fraction_lexLe_iff a.microsecond_lt b.microsecond_lt]

/-- The texts are ordered like the times. -/
theorem isoformat_le_iff : lexLe a.isoformat b.isoformat = true ↔ a.toTime ≤ b.toTime := by
  rw [isoformat_lexLe_iff, toTime_le_iff, micros_le_iff, dayNumber_lt_iff, dayNumber_eq_iff]
  simp only [and_or_left, or_assoc, and_assoc]

/-! ## The datetime of a time -/

variable {a b}

def ofFields? (year month day hour minute second microsecond : ℕ) : Option DateTime :=
  if h : (1 ≤ year ∧ year ≤ 9999) ∧ (1 ≤ month ∧ month ≤ 12) ∧
      (1 ≤ day ∧ day ≤ monthLength year (month - 1)) ∧ hour < 24 ∧ minute < 60 ∧ second < 60 ∧
      microsecond < 1000000 then
    some ⟨year, month, day, hour, minute, second, microsecond, h.1, h.2.1, h.2.2.1, h.2.2.2.1,
      h.2.2.2.2.1, h.2.2.2.2.2.1, h.2.2.2.2.2.2⟩
  else none

theorem ofFields?_eq_some_iff {year month day hour minute second microsecond : ℕ} {d : DateTime} :
    ofFields? year month day hour minute second microsecond = some d ↔
      d.year = year ∧ d.month = month ∧ d.day = day ∧ d.hour = hour ∧ d.minute = minute ∧
        d.second = second ∧ d.microsecond = microsecond := by
  unfold ofFields?
  constructor
  · intro h
    split_ifs at h
    cases h
    exact ⟨rfl, rfl, rfl, rfl, rfl, rfl, rfl⟩
  · rintro ⟨rfl, rfl, rfl, rfl, rfl, rfl, rfl⟩
    exact dif_pos ⟨d.year_mem, d.month_mem, d.day_mem, d.hour_lt, d.minute_lt, d.second_lt,
      d.microsecond_lt⟩

/-- Where the time lies in the calendar; a time outside it has no datetime. -/
def ofTime? (t : ℤ) : Option DateTime :=
  if t + epoch < 0 then none
  else
    let n := (t + epoch).toNat
    let year := locate yearLength 9999 0 (n / 86400000000)
    let month := locate (monthLength (year.1 + 1)) 12 0 year.2
    ofFields? (year.1 + 1) (month.1 + 1) (month.2 + 1) (n / 3600000000 % 24) (n / 60000000 % 60)
      (n / 1000000 % 60) (n % 1000000)

/-- The day is found again. -/
theorem locate_dayNumber (d : DateTime) :
    locate yearLength 9999 0 d.dayNumber = (d.year - 1, d.dayOfYear) := by
  have hyear := d.year_mem
  exact locate_periodStart_add d.dayOfYear_lt (by omega)

theorem locate_dayOfYear (d : DateTime) :
    locate (monthLength d.year) 12 0 d.dayOfYear = (d.month - 1, d.day - 1) := by
  have hmonth := d.month_mem
  have hday := d.day_mem
  exact locate_periodStart_add (by omega) (by omega)

theorem micros_div (d : DateTime) : d.micros / 86400000000 = d.dayNumber ∧
    d.micros / 3600000000 % 24 = d.hour ∧ d.micros / 60000000 % 60 = d.minute ∧
    d.micros / 1000000 % 60 = d.second ∧ d.micros % 1000000 = d.microsecond := by
  have h₁ := d.hour_lt
  have h₂ := d.minute_lt
  have h₃ := d.second_lt
  have h₄ := d.microsecond_lt
  unfold micros
  omega

theorem toTime_add_epoch (d : DateTime) : d.toTime + epoch = d.micros := by
  rw [toTime, sub_add_cancel]

theorem ofTime?_toTime (d : DateTime) : ofTime? d.toTime = some d := by
  have hyear := d.year_mem
  have hmonth := d.month_mem
  have hday := d.day_mem
  have hsucc : d.year - 1 + 1 = d.year := by omega
  obtain ⟨hdays, hhour, hminute, hsecond, hmicro⟩ := d.micros_div
  have hnonneg : ¬ d.toTime + epoch < 0 := by
    rw [toTime_add_epoch]
    omega
  rw [ofTime?, if_neg hnonneg, toTime_add_epoch, Int.toNat_natCast]
  simp only [hdays, hhour, hminute, hsecond, hmicro, locate_dayNumber, hsucc, locate_dayOfYear]
  rw [ofFields?_eq_some_iff]
  exact ⟨by omega, by omega, by omega, rfl, rfl, rfl, rfl⟩

/-- The datetime of a time is the one that lies there. -/
theorem ofTime?_eq_some_iff {t : ℤ} {d : DateTime} : ofTime? t = some d ↔ d.toTime = t := by
  constructor
  · intro h
    rw [ofTime?] at h
    split_ifs at h with hneg
    have hn : ((t + epoch).toNat : ℤ) = t + epoch := Int.toNat_of_nonneg (not_lt.1 hneg)
    revert h hn
    generalize (t + epoch).toNat = n
    intro h hn
    obtain ⟨hyear, hmonth, hday, hhour, hminute, hsecond, hmicro⟩ := ofFields?_eq_some_iff.1 h
    have hdays : d.dayNumber = n / 86400000000 := by
      have hy := locate_sum yearLength 9999 0 (n / 86400000000)
      have hm := locate_sum (monthLength d.year) 12 0
        (locate yearLength 9999 0 (n / 86400000000)).2
      rw [dayNumber, dayOfYear, hmonth, hday, hyear]
      rw [hyear] at hm
      rw [periodStart_zero, Nat.zero_add] at hy hm
      simp only [Nat.add_sub_cancel]
      omega
    have hmicros : d.micros = n := by
      rw [micros, hdays, hhour, hminute, hsecond, hmicro]
      omega
    rw [toTime, hmicros, hn, add_sub_cancel_right]
  · rintro rfl
    exact ofTime?_toTime d

end DateTime

end Sentinel.Logic
