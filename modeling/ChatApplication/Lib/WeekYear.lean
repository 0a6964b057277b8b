import ChatApplication.Lib.Gregorian

/-!
# Week-based years

A rule for weeks says on which weekday a week begins and how many days of a year its first week has
at least.  The week-based year of a date is the year its week is counted in; it differs from the
calendar year in a few days around New Year only.

* `weekYearStart` — the day number on which the first week of a year begins.
* `weekYear_eq_year_iff` — on which days the two years agree, by the weekday of 1 January.
-/

namespace Gregorian

/-- The weekdays are numbered from Sunday, 0, to Saturday, 6. -/
structure WeekRule where
  firstWeekday : Int
  minimumDays : Int
  minimumDays_pos : 1 ≤ minimumDays
  minimumDays_le : minimumDays ≤ 7

namespace WeekRule

variable (r : WeekRule)

/-- How many days of the week are before the day of a number.  The day 1 is a Monday. -/
def daysIntoWeek (n : Int) : Int := (n - r.firstWeekday) % 7

/-- How many days of the week of 1 January are still in the year before. -/
def offset (y : Int) : Int := r.daysIntoWeek (daysBeforeYear y + 1)

/-- The first week is the week of 1 January if enough of its days are in the year, and else the week
after. -/
def weekYearStart (y : Int) : Int :=
  if r.minimumDays ≤ 7 - r.offset y then daysBeforeYear y + 1 - r.offset y
  else daysBeforeYear y + 8 - r.offset y

def weekYear (d : CivilDate) : Int :=
  if d.dayNumber < r.weekYearStart d.year then d.year - 1
  else if r.weekYearStart (d.year + 1) ≤ d.dayNumber then d.year + 1
  else d.year

/-- A day of January in the last week of the year before. -/
def InLastWeek (d : CivilDate) : Prop :=
  d.month = 1 ∧ 7 - r.offset d.year < r.minimumDays ∧ d.day + r.offset d.year ≤ 7

/-- A day of December in the first week of the year after. -/
def InFirstWeek (d : CivilDate) : Prop :=
  d.month = 12 ∧ r.minimumDays ≤ 7 - r.offset (d.year + 1) ∧ 31 < d.day + r.offset (d.year + 1)

instance instDecidableInLastWeek (d : CivilDate) : Decidable (r.InLastWeek d) :=
  inferInstanceAs (Decidable (_ ∧ _ ∧ _))

instance instDecidableInFirstWeek (d : CivilDate) : Decidable (r.InFirstWeek d) :=
  inferInstanceAs (Decidable (_ ∧ _ ∧ _))

theorem offset_bounds (y : Int) : 0 ≤ r.offset y ∧ r.offset y ≤ 6 := by
  unfold offset daysIntoWeek
  omega

variable {r}

theorem dayNumber_lt_weekYearStart_iff {d : CivilDate} :
    d.dayNumber < r.weekYearStart d.year ↔ r.InLastWeek d := by
  have hoffset := r.offset_bounds d.year
  have hpos := d.day_pos
  have hmonth := d.month_pos
  unfold weekYearStart InLastWeek CivilDate.dayNumber
  by_cases hjan : d.month = 1
  · rw [hjan, daysBeforeMonth]
    split <;> omega
  · have hfeb := daysBeforeMonth_mono d.year (show 1 ≤ 2 by omega) (show 2 ≤ d.month by omega)
    have hlength : daysBeforeMonth d.year 2 = 31 := by simp [daysBeforeMonth, monthLength]
    split <;> omega

theorem weekYearStart_succ_le_dayNumber_iff {d : CivilDate} :
    r.weekYearStart (d.year + 1) ≤ d.dayNumber ↔ r.InFirstWeek d := by
  have hoffset := r.offset_bounds (d.year + 1)
  have hle := d.day_le
  have hmonth := d.month_le
  have hyear := daysBeforeYear_succ d.year
  unfold weekYearStart InFirstWeek CivilDate.dayNumber
  by_cases hdec : d.month = 12
  · rw [hdec, monthLength_twelve] at hle
    rw [hdec]
    split <;> omega
  · have hnext := daysBeforeMonth_succ d.year d.month_pos
    have hlast := daysBeforeMonth_mono d.year (show 1 ≤ d.month + 1 by omega) (show d.month + 1 ≤ 12 by omega)
    split <;> omega

/-- **The week-based year is the calendar year** but in a last week that goes on in January, and in a
first week that begins in December. -/
theorem weekYear_eq_year_iff {d : CivilDate} :
    r.weekYear d = d.year ↔ ¬ r.InLastWeek d ∧ ¬ r.InFirstWeek d := by
  rw [weekYear, ← dayNumber_lt_weekYearStart_iff, ← weekYearStart_succ_le_dayNumber_iff]
  split
  · omega
  split <;> omega

/-- In December the week-based year is the calendar year or the year after. -/
theorem weekYear_of_month_eq_twelve {d : CivilDate} (h : d.month = 12) :
    r.weekYear d = d.year ∨ r.weekYear d = d.year + 1 := by
  have hlast : ¬ r.InLastWeek d := fun hlast => by
    have := hlast.1
    omega
  rw [weekYear, if_neg (fun hlt => hlast (dayNumber_lt_weekYearStart_iff.mp hlt))]
  split
  · exact .inr rfl
  · exact .inl rfl

end WeekRule

end Gregorian
