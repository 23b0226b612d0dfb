import Mathlib.Algebra.BigOperators.Intervals
import Mathlib.Tactic.IntervalCases

/-!
# The proleptic Gregorian calendar

Dates are counted from the first of January of the year 1, by the lengths of the years and months
before them.  Years, months and days are counted from 1.

* `daysBeforeYear_eq` : the years before a year, in closed form.
* `dayNumber_eq` : the same count, with years that begin in March: their leap day is the last.
-/

namespace Lvu.Calendar

/-- A leap year. -/
def IsLeap (year : ℤ) : Prop := 4 ∣ year ∧ (¬ 100 ∣ year ∨ 400 ∣ year)

instance (year : ℤ) : Decidable (IsLeap year) := inferInstanceAs (Decidable (_ ∧ _))

/-- The days of a year. -/
def yearDays (year : ℤ) : ℤ := if IsLeap year then 366 else 365

/-- The days of a month, from January at 1. -/
def monthDays (year : ℤ) : ℕ → ℤ
  | 2 => if IsLeap year then 29 else 28
  | 4 | 6 | 9 | 11 => 30
  | _ => 31

/-- The days of the years `1`, …, `n`. -/
def daysBeforeYear (n : ℕ) : ℤ := ∑ y ∈ Finset.range n, yearDays (y + 1)

/-- The days of the months before one. -/
def daysBeforeMonth (year : ℤ) (month : ℕ) : ℤ := ∑ m ∈ Finset.range (month - 1), monthDays year (m + 1)

/-- The days from the first day of the year 1 to a date. -/
def dayNumber (year month day : ℕ) : ℤ :=
  daysBeforeYear (year - 1) + daysBeforeMonth year month + (day - 1)

theorem daysBeforeYear_eq (n : ℕ) :
    daysBeforeYear n = 365 * n + n / 4 - n / 100 + n / 400 := by
  induction n with
  | zero => simp [daysBeforeYear]
  | succ n ih =>
    rw [daysBeforeYear, Finset.sum_range_succ, ← daysBeforeYear, ih, yearDays]
    simp only [IsLeap]
    push_cast
    split_ifs <;> omega

theorem daysBeforeMonth_eq (year : ℤ) {month : ℕ} (hlow : 1 ≤ month) (hhigh : month ≤ 12) :
    daysBeforeMonth year month =
      if month ≤ 2 then 31 * ((month : ℤ) - 1)
      else (153 * ((month : ℤ) - 3) + 2) / 5 + 59 + if IsLeap year then 1 else 0 := by
  unfold daysBeforeMonth
  interval_cases month <;> simp [Finset.sum_range_succ, monthDays] <;> split_ifs <;> norm_num

/-- **The date, in a year that begins in March**: `y` is that year, `shifted` its month from 0. -/
theorem dayNumber_eq {year month : ℕ} (day : ℕ) (hyear : 1 ≤ year) (hlow : 1 ≤ month)
    (hhigh : month ≤ 12) :
    let y : ℤ := year - if month ≤ 2 then 1 else 0
    let shifted : ℤ := month + if 2 < month then -3 else 9
    dayNumber year month day =
      365 * y + y / 4 - y / 100 + y / 400 + (153 * shifted + 2) / 5 + day - 1 - 306 := by
  intro y shifted
  rw [dayNumber, daysBeforeYear_eq, daysBeforeMonth_eq _ hlow hhigh]
  by_cases hm : month ≤ 2
  · simp only [y, shifted, if_pos hm, if_neg (Nat.not_lt_of_le hm)]
    interval_cases month <;> omega
  · simp only [y, shifted, if_neg hm, if_pos (Nat.lt_of_not_le hm), IsLeap]
    split_ifs <;> omega

end Lvu.Calendar
