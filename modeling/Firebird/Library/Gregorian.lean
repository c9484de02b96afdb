import Mathlib.Order.Monotone.Basic
import Mathlib.Tactic.IntervalCases

/-!
# The proleptic Gregorian calendar

Dates from the first of January of the year 1 on, and the number of the day of each: the days of the
years and months before it, counted one by one.
-/

namespace Gregorian

/-- Every fourth year is a leap year, but of the centuries only every fourth one. -/
def IsLeap (year : Nat) : Prop := year % 4 = 0 ∧ (year % 100 ≠ 0 ∨ year % 400 = 0)

instance (year : Nat) : Decidable (IsLeap year) := inferInstanceAs (Decidable (_ ∧ _))

/-- The days of a month, from 1 to 12. -/
def monthDays (year month : Nat) : Nat :=
  match month with
  | 2 => if IsLeap year then 29 else 28
  | 4 | 6 | 9 | 11 => 30
  | _ => 31

theorem monthDays_le (year month : Nat) : monthDays year month ≤ 31 := by
  unfold monthDays
  split
  · split <;> decide
  all_goals decide

/-- The days of a year. -/
def yearDays (year : Nat) : Nat := if IsLeap year then 366 else 365

/-- The days of the first months of a year. -/
def monthsDays (year : Nat) : Nat → Nat
  | 0 => 0
  | month + 1 => monthsDays year month + monthDays year (month + 1)

/-- The days of the first years. -/
def yearsDays : Nat → Nat
  | 0 => 0
  | year + 1 => yearsDays year + yearDays (year + 1)

/-- A date. -/
structure Date where
  year : Nat
  month : Nat
  day : Nat
  year_pos : 0 < year
  month_pos : 0 < month
  month_le : month ≤ 12
  day_pos : 0 < day
  day_le : day ≤ monthDays year month

namespace Date

/-- The number of the day in its year, from 1 on. -/
def dayOfYear (date : Date) : Nat := monthsDays date.year (date.month - 1) + date.day

/-- The number of the day, from 1 on. -/
def ordinal (date : Date) : Nat := yearsDays (date.year - 1) + date.dayOfYear

/-- The day of the week, from 0 for a Sunday: the calendar begins with a Monday. -/
def weekday (date : Date) : Nat := date.ordinal % 7

/-- One date is before another one. -/
def Before (left right : Date) : Prop :=
  left.year < right.year ∨ left.year = right.year ∧
    (left.month < right.month ∨ left.month = right.month ∧ left.day < right.day)

end Date

theorem monthsDays_mono (year : Nat) : Monotone (monthsDays year) :=
  monotone_nat_of_le_succ fun _ => Nat.le_add_right _ _

theorem yearsDays_mono : Monotone yearsDays :=
  monotone_nat_of_le_succ fun _ => Nat.le_add_right _ _

theorem monthsDays_year (year : Nat) : monthsDays year 12 = yearDays year := by
  simp only [monthsDays, monthDays, yearDays]
  split <;> rfl

/-- The days of the first months, in closed form. -/
theorem monthsDays_eq (year : Nat) {month : Nat} (inside : month ≤ 12) :
    monthsDays year month + (if month < 2 then 0 else if IsLeap year then 1 else 2) =
      (214 * month + 3) / 7 := by
  by_cases leap : IsLeap year
  all_goals
    interval_cases month <;> simp [monthsDays, monthDays, leap]

/-- The days of the first years, in closed form. -/
theorem yearsDays_eq (year : Nat) :
    yearsDays year + year / 100 = 365 * year + year / 4 + year / 400 := by
  induction year with
  | zero => rfl
  | succ year ih =>
      rw [yearsDays, yearDays]
      split
      · next leap =>
          obtain ⟨four, century⟩ := leap
          omega
      · next common =>
          rw [IsLeap] at common
          omega

namespace Date

variable {left right : Date}

theorem dayOfYear_pos (date : Date) : 0 < date.dayOfYear :=
  Nat.add_pos_right _ date.day_pos

/-- A day of a month lies within the days of the months up to it. -/
theorem dayOfYear_le (date : Date) : date.dayOfYear ≤ monthsDays date.year date.month := by
  have last : monthsDays date.year (date.month - 1 + 1) =
      monthsDays date.year (date.month - 1) + monthDays date.year (date.month - 1 + 1) := rfl
  rw [Nat.sub_add_cancel date.month_pos] at last
  rw [last]
  exact Nat.add_le_add_left date.day_le _

theorem dayOfYear_le_yearDays (date : Date) : date.dayOfYear ≤ yearDays date.year := by
  rw [← monthsDays_year]
  exact date.dayOfYear_le.trans (monthsDays_mono _ date.month_le)

theorem ordinal_le (date : Date) : date.ordinal ≤ yearsDays date.year := by
  have last : yearsDays (date.year - 1 + 1) =
      yearsDays (date.year - 1) + yearDays (date.year - 1 + 1) := rfl
  rw [Nat.sub_add_cancel date.year_pos] at last
  rw [last]
  exact Nat.add_le_add_left date.dayOfYear_le_yearDays _

/-- The days are numbered in the order of their dates. -/
theorem Before.ordinal_lt (before : left.Before right) : left.ordinal < right.ordinal := by
  rcases before with earlier | ⟨same_year, earlier | ⟨same_month, earlier⟩⟩
  · calc
      left.ordinal ≤ yearsDays left.year := left.ordinal_le
      _ ≤ yearsDays (right.year - 1) := yearsDays_mono (Nat.le_pred_of_lt earlier)
      _ < right.ordinal := Nat.lt_add_of_pos_right right.dayOfYear_pos
  · have months : left.dayOfYear < right.dayOfYear := calc
      left.dayOfYear ≤ monthsDays left.year left.month := left.dayOfYear_le
      _ ≤ monthsDays left.year (right.month - 1) := monthsDays_mono _ (Nat.le_pred_of_lt earlier)
      _ = monthsDays right.year (right.month - 1) := by rw [same_year]
      _ < right.dayOfYear := Nat.lt_add_of_pos_right right.day_pos
    rw [ordinal, ordinal, same_year]
    exact Nat.add_lt_add_left months _
  · rw [ordinal, ordinal, dayOfYear, dayOfYear, same_year, same_month]
    exact Nat.add_lt_add_left (Nat.add_lt_add_left earlier _) _

/-- Of two dates one is before the other, or they are the same. -/
theorem before_of_ordinal_lt (less : left.ordinal < right.ordinal) : left.Before right := by
  by_contra not_before
  rw [Before] at not_before
  rcases Nat.lt_trichotomy right.year left.year with year | year | year
  · exact Nat.lt_asymm less (Before.ordinal_lt (.inl year))
  · rcases Nat.lt_trichotomy right.month left.month with month | month | month
    · exact Nat.lt_asymm less (Before.ordinal_lt (.inr ⟨year, .inl month⟩))
    · rcases Nat.lt_trichotomy right.day left.day with day | day | day
      · exact Nat.lt_asymm less (Before.ordinal_lt (.inr ⟨year, .inr ⟨month, day⟩⟩))
      · rw [ordinal, ordinal, dayOfYear, dayOfYear, year, month, day] at less
        exact Nat.lt_irrefl _ less
      · exact not_before (.inr ⟨year.symm, .inr ⟨month.symm, day⟩⟩)
    · exact not_before (.inr ⟨year.symm, .inl month⟩)
  · exact not_before (.inl year)

end Date

end Gregorian
