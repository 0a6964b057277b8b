import Mathlib.Tactic.IntervalCases
import ChatApplication.DayHeader

/-!
# Adding days (`ChatSharedClass.swift`)

`dateByAddingDays` adds with wrapping components, which never carry: the day is rolled within its
month.  Two corrections move the month first: back when days are taken from the first of a month,
and on when days are added to the last.  The second one makes up for the clamped day with a table
of month lengths in which February has 28 days.

* `WithinReach` — the additions that come out right.
* `adds_iff` — an addition is right exactly within reach.
* `day_arithmetic_iff` — when the laws of day arithmetic hold.
* `day_arithmetic_wrong` — the day after 31 December 2022 is 1 January 2022.
-/

namespace ChatApplication

open Gregorian

namespace LocalCalendar

variable (cal : LocalCalendar)

/-- `Date.dateWithDaysFromNow` at the clock reading `now`. -/
def dateWithDaysFromNow (now days : Int) : Int := cal.dateByAddingDays now days

/-- `Date.dateTomorrow`. -/
def dateTomorrow (now : Int) : Int := cal.dateWithDaysFromNow now 1

/-! ## One addition -/

/-- Adding `n` days stays in the month; or goes back from the first of a month other than January, at
most to the start of the month before; or on from the last of a month other than December, and not
from 29 February, at most to the end of the month after. -/
def WithinReach (d : CivilDate) (n : Int) : Prop :=
  (1 ≤ d.day + n ∧ d.day + n ≤ monthLength d.year d.month) ∨
  (d.day = 1 ∧ n < 0 ∧ 1 < d.month ∧ -n ≤ monthLength d.year (d.month - 1)) ∨
  (d.day = monthLength d.year d.month ∧ 1 ≤ n ∧ d.month < 12 ∧ ¬ (d.month = 2 ∧ isLeap d.year = true) ∧
    n ≤ monthLength d.year (d.month + 1))

/-- Within the month: rolling is right exactly when nothing is rolled around. -/
theorem rollDay_eq_addDays_iff {d : CivilDate} {n : Int} :
    d.rollDay n = d.addDays n ↔ 1 ≤ d.day + n ∧ d.day + n ≤ monthLength d.year d.month := by
  have hroll := roll_eq_iff (x := d.day) (k := n) (t := d.day + n) (monthLength_pos d.year d.month)
  rw [Int.sub_self, and_iff_left (Int.dvd_zero _)] at hroll
  rw [CivilDate.eq_addDays_iff, ← hroll]
  simp only [CivilDate.dayNumber, CivilDate.rollDay]
  omega

/-- Back from the first of a month. -/
theorem rollMonth_neg_one_eq_addDays_iff {d : CivilDate} {n : Int} (hday : d.day = 1) (hn : n < 0) :
    (d.rollMonth (-1)).rollDay n = d.addDays n ↔
      1 < d.month ∧ -n ≤ monthLength d.year (d.month - 1) := by
  have hmonth := d.month_pos
  have hmonth' := d.month_le
  rw [CivilDate.eq_addDays_iff]
  simp only [CivilDate.dayNumber, CivilDate.rollDay, CivilDate.rollMonth, min_monthLength_of_eq_one hday]
  by_cases hjan : d.month = 1
  · -- 31 December of the same year at the latest, and the first of January at the earliest
    have hpos := roll_pos (monthLength d.year (roll 12 d.month (-1))) 1 n
    rw [hjan]
    simp only [roll_one_neg_one (show 1 ≤ 12 by omega), daysBeforeMonth]
    rw [hjan, roll_one_neg_one (show 1 ≤ 12 by omega)] at hpos
    omega
  · have hbefore : d.month = d.month - 1 + 1 := by omega
    have hsucc := daysBeforeMonth_succ d.year (show 1 ≤ d.month - 1 by omega)
    rw [← hbefore] at hsucc
    rw [roll_neg_one (show 1 < d.month by omega) hmonth']
    have hroll := roll_eq_iff (x := 1) (k := n) (t := monthLength d.year (d.month - 1) + 1 + n)
      (monthLength_pos d.year (d.month - 1))
    have hdvd : (monthLength d.year (d.month - 1) : Int) ∣
        monthLength d.year (d.month - 1) + 1 + n - ((1 : Nat) + n) := ⟨1, by omega⟩
    rw [and_iff_left hdvd] at hroll
    omega

/-- The table makes up for the clamped day, but not after 29 February. -/
theorem clamped_add_monthCorrection (y : Int) {m : Nat} (hpos : 1 ≤ m) (hle : m < 12)
    (hleap : ¬ (m = 2 ∧ isLeap y = true)) :
    (min (monthLength y m) (monthLength y (m + 1)) : Nat) + monthCorrection m = monthLength y (m + 1) := by
  have hfeb := monthLength_bounds y 2
  interval_cases m <;> simp_all [monthLength, monthCorrection]

/-- From the last of a month the day after is rolled to `n`, but from 29 February and not over the end
of the month. -/
theorem roll_last_eq_iff {y : Int} {m : Nat} {n : Int} (hpos : 1 ≤ m) (hle : m < 12) (hn : 1 ≤ n) :
    (roll (monthLength y (m + 1)) (min (monthLength y m) (monthLength y (m + 1))) (n + monthCorrection m) : Int) =
        n ↔ ¬ (m = 2 ∧ isLeap y = true) ∧ n ≤ monthLength y (m + 1) := by
  rw [roll_eq_iff (monthLength_pos y (m + 1)), and_iff_right hn]
  by_cases hleap : m = 2 ∧ isLeap y = true
  · -- 29 + 3 is a day too many for March
    have hfeb : monthLength y m = 29 := by simp [monthLength, hleap]
    have hmarch : monthLength y (m + 1) = 31 := by simp [monthLength, hleap]
    have hcorrection : monthCorrection m = 3 := by simp [monthCorrection, hleap]
    rw [hfeb, hmarch, hcorrection]
    refine iff_of_false (fun h => ?_) (fun h => h.1 hleap)
    omega
  · have htable := clamped_add_monthCorrection y hpos hle hleap
    have hdvd : (monthLength y (m + 1) : Int) ∣
        n - ((min (monthLength y m) (monthLength y (m + 1)) : Nat) + (n + monthCorrection m)) :=
      ⟨-1, by omega⟩
    rw [and_iff_left hdvd, and_iff_right hleap]

/-- On from the last of a month. -/
theorem rollMonth_one_eq_addDays_iff {d : CivilDate} {n : Int} (hday : d.day = monthLength d.year d.month)
    (hn : 1 ≤ n) :
    (d.rollMonth 1).rollDay (n + monthCorrection d.month) = d.addDays n ↔
      d.month < 12 ∧ ¬ (d.month = 2 ∧ isLeap d.year = true) ∧ n ≤ monthLength d.year (d.month + 1) := by
  have hmonth := d.month_pos
  have hmonth' := d.month_le
  rw [CivilDate.eq_addDays_iff]
  simp only [CivilDate.dayNumber, CivilDate.rollDay, CivilDate.rollMonth, hday]
  by_cases hdec : d.month = 12
  · -- a day of January of the same year
    have hjan : monthLength d.year 1 = 31 := by simp [monthLength]
    have hle := roll_le (monthLength_pos d.year 1) (min (monthLength d.year 12) (monthLength d.year 1))
      (n + monthCorrection 12)
    rw [hjan] at hle
    rw [hdec]
    simp only [roll_self_one (show 1 ≤ 12 by omega), daysBeforeMonth, monthLength_twelve, hjan] at hle ⊢
    omega
  · have hlt : d.month < 12 := by omega
    rw [roll_one hlt, daysBeforeMonth_succ d.year hmonth, and_iff_right hlt, ← roll_last_eq_iff hmonth hlt hn]
    omega

/-- The corrected addition is right exactly within reach. -/
theorem wrapDays_eq_addDays_iff {d : CivilDate} {n : Int} : wrapDays d n = d.addDays n ↔ WithinReach d n := by
  have hpos := d.day_pos
  have hle := d.day_le
  unfold wrapDays WithinReach
  by_cases hfirst : d.day = 1 ∧ n < 0
  · rw [if_pos hfirst, rollMonth_neg_one_eq_addDays_iff hfirst.1 hfirst.2]
    omega
  rw [if_neg hfirst]
  by_cases hend : d.day = monthLength d.year d.month ∧ 1 ≤ n
  · have hstay : ¬ (1 ≤ d.day + n ∧ d.day + n ≤ monthLength d.year d.month) := by omega
    have hback : ¬ (d.day = 1 ∧ n < 0 ∧ 1 < d.month ∧ -n ≤ monthLength d.year (d.month - 1)) := by omega
    rw [if_pos hend, rollMonth_one_eq_addDays_iff hend.1 hend.2, or_iff_right hstay, or_iff_right hback,
      and_iff_right hend.1, and_iff_right hend.2]
  · rw [if_neg hend, rollDay_eq_addDays_iff]
    omega

/-- **One addition** gives the date `n` days after exactly within reach. -/
theorem adds_iff (x n : Int) :
    cal.dateComponents (cal.dateByAddingDays x n) = (cal.dateComponents x).addDays n ↔
      WithinReach (cal.dateComponents x) n := by
  rw [dateComponents_dateByAddingDays, wrapDays_eq_addDays_iff]

/-! ## The laws -/

/-- The laws of day arithmetic at a date and two numbers of days. -/
structure DayLaws (x m n : Int) : Prop where
  adds : ∀ k ∈ [m, n, m + n],
    cal.dateComponents (cal.dateByAddingDays x k) = (cal.dateComponents x).addDays k
  tomorrow : cal.dateComponents (cal.dateTomorrow x) = (cal.dateComponents x).succ
  undoes : cal.dateComponents (cal.dateBySubstractingDays (cal.dateByAddingDays x n) n) =
    cal.dateComponents x
  additive : cal.dateComponents (cal.dateByAddingDays (cal.dateByAddingDays x m) n) =
    cal.dateComponents (cal.dateByAddingDays x (m + n))

/-- Tomorrow is right but on 31 December and 29 February. -/
theorem withinReach_one_iff {d : CivilDate} :
    WithinReach d 1 ↔ ¬ (d.month = 12 ∧ d.day = 31) ∧ ¬ (d.month = 2 ∧ d.day = 29) := by
  have hle := d.day_le
  have hmonth := d.month_le
  have hnext := monthLength_pos d.year (d.month + 1)
  have hdec : d.month = 12 → monthLength d.year d.month = 31 := by
    intro h
    rw [h, monthLength_twelve]
  unfold WithinReach
  cases hleap : isLeap d.year with
  | true =>
    have hfeb : d.month = 2 → monthLength d.year d.month = 29 := by
      intro h
      simp [h, monthLength, hleap]
    rw [and_iff_left rfl]
    omega
  | false =>
    have hfeb : d.month = 2 → monthLength d.year d.month = 28 := by
      intro h
      simp [h, monthLength, hleap]
    simp only [Bool.false_eq_true, and_false, not_false_eq_true, true_and]
    omega

theorem tomorrow_iff (now : Int) :
    cal.dateComponents (cal.dateTomorrow now) = (cal.dateComponents now).succ ↔
      WithinReach (cal.dateComponents now) 1 := by
  rw [dateTomorrow, dateWithDaysFromNow, ← CivilDate.addDays_one, adds_iff]

/-- A correct addition is undone exactly when the way back is within reach. -/
theorem undoes_iff {x n : Int} (h : WithinReach (cal.dateComponents x) n) :
    cal.dateComponents (cal.dateBySubstractingDays (cal.dateByAddingDays x n) n) = cal.dateComponents x ↔
      WithinReach ((cal.dateComponents x).addDays n) (-n) := by
  have hadd := (cal.adds_iff x n).mpr h
  have hback := cal.adds_iff (cal.dateByAddingDays x n) (-n)
  rw [hadd, CivilDate.addDays_neg] at hback
  rw [dateBySubstractingDays, Int.mul_neg_one]
  exact hback

/-- Two correct additions add up exactly when the second step is within reach. -/
theorem additive_iff {x m n : Int} (hm : WithinReach (cal.dateComponents x) m)
    (hmn : WithinReach (cal.dateComponents x) (m + n)) :
    cal.dateComponents (cal.dateByAddingDays (cal.dateByAddingDays x m) n) =
        cal.dateComponents (cal.dateByAddingDays x (m + n)) ↔
      WithinReach ((cal.dateComponents x).addDays m) n := by
  have hadd := (cal.adds_iff x m).mpr hm
  have hsecond := cal.adds_iff (cal.dateByAddingDays x m) n
  rw [hadd, CivilDate.addDays_addDays] at hsecond
  rw [(cal.adds_iff x (m + n)).mpr hmn]
  exact hsecond

/-- **Day arithmetic is calendar arithmetic exactly when every addition involved is within reach.**
So `dateTomorrow` is the day after today but on 31 December and 29 February. -/
theorem day_arithmetic_iff (cal : LocalCalendar) (x m n : Int) :
    (cal.dateComponents (cal.dateByAddingDays x n) = (cal.dateComponents x).addDays n ↔
      WithinReach (cal.dateComponents x) n) ∧
    (cal.dateComponents (cal.dateTomorrow x) = (cal.dateComponents x).succ ↔
      ¬ ((cal.dateComponents x).month = 12 ∧ (cal.dateComponents x).day = 31) ∧
        ¬ ((cal.dateComponents x).month = 2 ∧ (cal.dateComponents x).day = 29)) ∧
    (cal.DayLaws x m n ↔
      (∀ k ∈ [m, n, m + n, 1], WithinReach (cal.dateComponents x) k) ∧
        WithinReach ((cal.dateComponents x).addDays n) (-n) ∧
        WithinReach ((cal.dateComponents x).addDays m) n) := by
  refine ⟨cal.adds_iff x n, (cal.tomorrow_iff x).trans withinReach_one_iff, ?_, ?_⟩
  · intro h
    have hm := (cal.adds_iff x m).mp (h.adds m (by simp))
    have hn := (cal.adds_iff x n).mp (h.adds n (by simp))
    have hmn := (cal.adds_iff x (m + n)).mp (h.adds (m + n) (by simp))
    have hone := (cal.tomorrow_iff x).mp h.tomorrow
    refine ⟨?_, (cal.undoes_iff hn).mp h.undoes, (cal.additive_iff hm hmn).mp h.additive⟩
    simp only [List.forall_mem_cons, List.not_mem_nil, false_imp_iff, implies_true, and_true]
    exact ⟨hm, hn, hmn, hone⟩
  · rintro ⟨hreach, hback, hsecond⟩
    have hm := hreach m (by simp)
    have hn := hreach n (by simp)
    have hmn := hreach (m + n) (by simp)
    have hone := hreach 1 (by simp)
    refine ⟨?_, (cal.tomorrow_iff x).mpr hone, (cal.undoes_iff hn).mpr hback,
      (cal.additive_iff hm hmn).mpr hsecond⟩
    simp only [List.forall_mem_cons, List.not_mem_nil, false_imp_iff, implies_true, and_true]
    exact ⟨(cal.adds_iff x m).mpr hm, (cal.adds_iff x n).mpr hn, (cal.adds_iff x (m + n)).mpr hmn⟩

/-- The day after 31 December 2022 is not 1 January 2023. -/
theorem day_arithmetic_wrong : ¬ ∀ (cal : LocalCalendar) (x m n : Int), cal.DayLaws x m n := by
  intro h
  let d : CivilDate := .ofYMD 2022 12 31 (by decide)
  have htomorrow := (h utc (utc.date d) 1 1).tomorrow
  rw [tomorrow_iff, utc.dateComponents_date, withinReach_one_iff] at htomorrow
  exact htomorrow.1 ⟨rfl, rfl⟩

end LocalCalendar

end ChatApplication
