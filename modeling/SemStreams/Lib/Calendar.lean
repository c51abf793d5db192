import Mathlib.Data.Int.Notation
import Mathlib.Tactic.ByContra
import Mathlib.Tactic.SplitIfs
/-!
# The calendar

The proleptic Gregorian calendar: days are counted from the first of January 1970, and
a day has a year, a month and a day of the month. The number of days before a year is
a sum of whole quotients, the year of a day is estimated by the mean length of a year
and put right by one at most, and the month is read off the day of the year.
-/

namespace SemStreams.Calendar

/-- The days from the first of January of year 1 to that of a year. -/
def daysBeforeYear (y : ℤ) : ℤ := 365 * (y - 1) + (y - 1) / 4 - (y - 1) / 100 + (y - 1) / 400

/-- The length of February, over 28 days. -/
def leapDay (y : ℤ) : ℤ := if y % 4 = 0 ∧ (y % 100 ≠ 0 ∨ y % 400 = 0) then 1 else 0

/-- The days before a month in its year. From March on five months have 153 days. -/
def daysBeforeMonth (y m : ℤ) : ℤ :=
  if m ≤ 2 then 31 * (m - 1) else 59 + leapDay y + (153 * (m - 3) + 2) / 5

def daysIn (y m : ℤ) : ℤ := daysBeforeMonth y (m + 1) - daysBeforeMonth y m

/-- The month a day of the year falls into, the first day being 0. -/
def monthOf (y n : ℤ) : ℤ :=
  if n < 59 + leapDay y then n / 31 + 1 else (5 * (n - 59 - leapDay y) + 2) / 153 + 3

/-- The year a day falls into, the first of January of year 1 being day 0. -/
def yearOf (n : ℤ) : ℤ :=
  let y := 400 * n / 146097 + 1
  if n < daysBeforeYear y then y - 1
  else if daysBeforeYear (y + 1) ≤ n then y + 1
  else y

structure Date where
  year : ℤ
  month : ℤ
  day : ℤ
deriving DecidableEq

open Date

/-- The days from the first of January of year 1 to that of 1970. -/
def epoch : ℤ := 719162

def Date.ofDays (d : ℤ) : Date :=
  let n := d + epoch
  let y := yearOf n
  let m := monthOf y (n - daysBeforeYear y)
  ⟨y, m, n - daysBeforeYear y - daysBeforeMonth y m + 1⟩

/-- The day of a date. Months beyond a year are carried over to the next. -/
def Date.toDays (date : Date) : ℤ :=
  let y := date.year + (date.month - 1) / 12
  let m := (date.month - 1) % 12 + 1
  daysBeforeYear y + daysBeforeMonth y m + date.day - 1 - epoch

/-- The months of all years, counted through. -/
def Date.monthIndex (date : Date) : ℤ := 12 * date.year + (date.month - 1)

/-! ## Years -/

theorem leapDay_eq (y : ℤ) : leapDay y = 0 ∨ leapDay y = 1 := by
  unfold leapDay
  split <;> simp

theorem daysBeforeYear_succ (y : ℤ) : daysBeforeYear (y + 1) = daysBeforeYear y + 365 + leapDay y := by
  unfold daysBeforeYear leapDay
  split <;> omega

theorem daysBeforeYear_mono (h : y < y') : daysBeforeYear (y + 1) ≤ daysBeforeYear y' := by
  unfold daysBeforeYear
  omega

/-- **A day lies in its year.** -/
theorem yearOf_spec (n : ℤ) : daysBeforeYear (yearOf n) ≤ n ∧ n < daysBeforeYear (yearOf n + 1) := by
  simp only [yearOf]
  split_ifs with hlow hhigh
  · unfold daysBeforeYear at hlow ⊢
    omega
  · unfold daysBeforeYear at hlow hhigh ⊢
    omega
  · exact ⟨Int.not_lt.1 hlow, Int.not_le.1 hhigh⟩

theorem yearOf_mono (h : n ≤ n') : yearOf n ≤ yearOf n' := by
  by_contra hlt
  have hyears := daysBeforeYear_mono (Int.not_le.1 hlt)
  have := yearOf_spec n
  have := yearOf_spec n'
  omega

/-! ## Months -/

variable {y n : ℤ}

theorem monthOf_bounds (hfirst : 0 ≤ n) (hlast : n < 365 + leapDay y) :
    1 ≤ monthOf y n ∧ monthOf y n ≤ 12 := by
  have := leapDay_eq y
  unfold monthOf
  split <;> omega

theorem monthOf_mono (h : n ≤ n') : monthOf y n ≤ monthOf y n' := by
  have := leapDay_eq y
  unfold monthOf
  split_ifs <;> omega

/-- **A day of the year lies in its month.** -/
theorem monthOf_spec (hlast : n < 365 + leapDay y) :
    daysBeforeMonth y (monthOf y n) ≤ n ∧ n < daysBeforeMonth y (monthOf y n + 1) := by
  have := leapDay_eq y
  unfold monthOf daysBeforeMonth
  split_ifs <;> omega

theorem daysIn_le : daysIn y m ≤ 31 := by
  have := leapDay_eq y
  unfold daysIn daysBeforeMonth
  split_ifs <;> omega

/-! ## Dates -/

variable (d : ℤ)

theorem dayOfYear_bounds : 0 ≤ d + epoch - daysBeforeYear (yearOf (d + epoch)) ∧
      d + epoch - daysBeforeYear (yearOf (d + epoch)) < 365 + leapDay (yearOf (d + epoch)) := by
  have hyear := yearOf_spec (d + epoch)
  rw [daysBeforeYear_succ] at hyear
  omega

theorem month_ofDays : 1 ≤ (ofDays d).month ∧ (ofDays d).month ≤ 12 :=
  monthOf_bounds (dayOfYear_bounds d).1 (dayOfYear_bounds d).2

theorem day_ofDays : 1 ≤ (ofDays d).day ∧
    (ofDays d).day ≤ daysIn (ofDays d).year (ofDays d).month := by
  have hmonth := monthOf_spec (dayOfYear_bounds d).2
  simp only [ofDays, daysIn]
  omega

/-- **A date gives its day back.** -/
theorem toDays_ofDays : (ofDays d).toDays = d := by
  have hmonth := month_ofDays d
  have hcarry : ((ofDays d).month - 1) / 12 = 0 := by omega
  have hrest : ((ofDays d).month - 1) % 12 + 1 = (ofDays d).month := by omega
  simp only [toDays, hcarry, hrest, Int.add_zero]
  simp only [ofDays]
  omega

theorem monthIndex_year : (ofDays d).monthIndex / 12 = (ofDays d).year := by
  have := month_ofDays d
  unfold monthIndex
  omega

theorem monthIndex_month : (ofDays d).monthIndex % 12 + 1 = (ofDays d).month := by
  have := month_ofDays d
  unfold monthIndex
  omega

/-- **Months follow each other as days do.** -/
theorem monthIndex_mono {d : ℤ} (h : d ≤ d') :
    (ofDays d).monthIndex ≤ (ofDays d').monthIndex := by
  have hyear : (ofDays d).year ≤ (ofDays d').year := yearOf_mono (by omega)
  have := month_ofDays d
  have := month_ofDays d'
  unfold monthIndex
  rcases Int.lt_or_eq_of_le hyear with _ | heq
  · omega
  · have hsame : yearOf (d + epoch) = yearOf (d' + epoch) := heq
    have hmonth : (ofDays d).month ≤ (ofDays d').month := by
      simp only [ofDays, hsame]
      exact monthOf_mono (by omega)
    omega

end SemStreams.Calendar
