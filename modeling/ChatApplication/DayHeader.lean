import ChatApplication.Lib.DatePattern
import ChatApplication.Lib.Gregorian
import ChatApplication.TableIndices

/-!
# The headers of the days (`ChatTableView.swift`, `ChatSharedClass.swift`)

The header of a section says "Today", "Yesterday" or a date.  Yesterday is computed from the clock
with wrapping components: the day is rolled back within its month, and on the first of a month the
month is rolled back first.  Rolling the month does not touch the year, so on the first of January
the day "before" is the 31 December of the same year.

* `LocalCalendar` — what is used of `Calendar.current`.
* `dateComponents_dateByAddingDays` — the date `dateByAddingDays` computes, by cases.
* `dateComponents_dateYesterday` — the date `dateYesterday` computes, for every today.
* `header_right_iff` — for which today and which day the header is right, for any formatter whose text of
  a date is neither of the two words; `toString_notMem` says this of the formatter of any locale.
* `new_year_header_wrong` — on 1 January the section of the day before is not "Yesterday".
-/

namespace ChatApplication

open Gregorian

/-! ## The calendar -/

/-- `DateComponents`, with the components `dateByAddingDays` sets. -/
structure DateComponents where
  month : Option Int := none
  day : Option Int := none

/-- `date(byAdding:to:wrappingComponents: true)` on a civil date: the month first, then the day. -/
def DateComponents.wrap (c : DateComponents) (d : CivilDate) : CivilDate :=
  let moved := (c.month.map d.rollMonth).getD d
  (c.day.map moved.rollDay).getD moved

/-- `Calendar.current`: the local civil date of a time, the start of a civil date, and the addition of
wrapping components.  A `Date` is the number of its milliseconds. -/
structure LocalCalendar where
  dateComponents : Int → CivilDate
  date : CivilDate → Int
  dateByAdding : DateComponents → Int → Int
  dateComponents_date : ∀ d, dateComponents (date d) = d
  dateComponents_dateByAdding : ∀ c x, dateComponents (dateByAdding c x) = c.wrap (dateComponents x)

/-- `Int.dateFromTimeStamp`. -/
def dateFromTimeStamp (timeStamp : Int) : Int := timeStamp

namespace LocalCalendar

variable (cal : LocalCalendar)

/-- `Date.day1`. -/
def day1 (date : Int) : Int := (cal.dateComponents date).day

/-- `Date.month1`. -/
def month1 (date : Int) : Int := (cal.dateComponents date).month

/-- `Date.lastDayOfMonth`. -/
def lastDayOfMonth (date : Int) : Int :=
  let comp := cal.dateComponents date
  cal.date (CivilDate.lastOf comp.year comp.month comp.month_pos comp.month_le)

/-- `Date.dateByAddingDays`. -/
def dateByAddingDays (date days : Int) : Int :=
  let dateComponents : DateComponents :=
    if cal.day1 date = 1 ∧ days < 0 then { month := some (-1), day := some days }
    else if cal.day1 date = cal.day1 (cal.lastDayOfMonth date) ∧ days ≥ 1 then
      if cal.month1 date = 2 then { month := some 1, day := some (days + 3) }
      else if cal.month1 date ∈ [4, 6, 9, 11] then { month := some 1, day := some (days + 1) }
      else { month := some 1, day := some days }
    else { day := some days }
  cal.dateByAdding dateComponents date

/-- `Date.dateBySubstractingDays`. -/
def dateBySubstractingDays (date days : Int) : Int := cal.dateByAddingDays date (days * -1)

/-- `Date.dateWithDaysBeforeNow` at the clock reading `now`. -/
def dateWithDaysBeforeNow (now days : Int) : Int := cal.dateBySubstractingDays now days

/-- `Date.dateYesterday`. -/
def dateYesterday (now : Int) : Int := cal.dateWithDaysBeforeNow now 1

/-- `Date.isEqualToDateIgnoringTime`. -/
def isEqualToDateIgnoringTime (date date' : Int) : Bool :=
  let dateComponent1 := cal.dateComponents date
  let dateComponent2 := cal.dateComponents date'
  dateComponent1.year == dateComponent2.year && dateComponent1.month == dateComponent2.month &&
    dateComponent1.day == dateComponent2.day

/-- `Date.isToday`. -/
def isToday (now date : Int) : Bool := cal.isEqualToDateIgnoringTime date now

/-- `Date.isYesterday`. -/
def isYesterday (now date : Int) : Bool := cal.isEqualToDateIgnoringTime date (cal.dateYesterday now)

/-- The text `viewForHeaderInSection` gives the label; `now` and `later` are the clock readings of
`isToday` and `isYesterday`, `toString` is `Date.toString(withFormat:)`. -/
def headerText (toString : String → Int → String) (now later : Int) (messageObj : MessageGroup) :
    Option String :=
  let date1 := messageObj.sendingTime.map dateFromTimeStamp
  if (date1.map (cal.isToday now)).getD false then some "Today"
  else if (date1.map (cal.isYesterday later)).getD false then some "Yesterday"
  else date1.map (toString "dd MMM YYYY")

/-! ## Adding days -/

/-- The days the table adds on the last day of a month. -/
def monthCorrection (m : Nat) : Int := if m = 2 then 3 else if m = 4 ∨ m = 6 ∨ m = 9 ∨ m = 11 then 1 else 0

/-- The date `dateByAddingDays` computes. -/
def wrapDays (d : CivilDate) (n : Int) : CivilDate :=
  if d.day = 1 ∧ n < 0 then (d.rollMonth (-1)).rollDay n
  else if d.day = monthLength d.year d.month ∧ 1 ≤ n then
    (d.rollMonth 1).rollDay (n + monthCorrection d.month)
  else d.rollDay n

/-- The components set on the last day of a month. -/
theorem components_lastDay (x n : Int) :
    (if cal.month1 x = 2 then ({ month := some 1, day := some (n + 3) } : DateComponents)
      else if cal.month1 x ∈ [4, 6, 9, 11] then { month := some 1, day := some (n + 1) }
      else { month := some 1, day := some n }) =
      { month := some 1, day := some (n + monthCorrection (cal.dateComponents x).month) } := by
  have hmonth : cal.month1 x = ((cal.dateComponents x).month : Int) := rfl
  have htable : cal.month1 x ∈ [4, 6, 9, 11] ↔ (cal.dateComponents x).month = 4 ∨
      (cal.dateComponents x).month = 6 ∨ (cal.dateComponents x).month = 9 ∨
        (cal.dateComponents x).month = 11 := by
    rw [hmonth]
    simp only [List.mem_cons, List.not_mem_nil, or_false]
    omega
  unfold monthCorrection
  by_cases h₂ : (cal.dateComponents x).month = 2
  · rw [if_pos (by rw [hmonth, h₂]; rfl), if_pos h₂]
  · rw [if_neg (by rw [hmonth]; omega), if_neg h₂]
    by_cases h₃₀ : cal.month1 x ∈ [4, 6, 9, 11]
    · rw [if_pos h₃₀, if_pos (htable.mp h₃₀)]
    · rw [if_neg h₃₀, if_neg (fun h => h₃₀ (htable.mpr h)), Int.add_zero]

/-- **The date `dateByAddingDays` computes.** -/
theorem dateComponents_dateByAddingDays (x n : Int) :
    cal.dateComponents (cal.dateByAddingDays x n) = wrapDays (cal.dateComponents x) n := by
  have hday : cal.day1 x = ((cal.dateComponents x).day : Int) := rfl
  have hlast : cal.day1 (cal.lastDayOfMonth x) =
      (monthLength (cal.dateComponents x).year (cal.dateComponents x).month : Int) := by
    rw [day1, lastDayOfMonth, cal.dateComponents_date]
    rfl
  unfold wrapDays
  by_cases hfirst : (cal.dateComponents x).day = 1 ∧ n < 0
  · have hcode : cal.day1 x = 1 ∧ n < 0 := by omega
    rw [if_pos hfirst]
    simp only [dateByAddingDays, if_pos hcode, cal.dateComponents_dateByAdding]
    rfl
  have hcode : ¬ (cal.day1 x = 1 ∧ n < 0) := by omega
  rw [if_neg hfirst]
  by_cases hend : (cal.dateComponents x).day =
      monthLength (cal.dateComponents x).year (cal.dateComponents x).month ∧ 1 ≤ n
  · have hcode' : cal.day1 x = cal.day1 (cal.lastDayOfMonth x) ∧ n ≥ 1 := by omega
    rw [if_pos hend]
    simp only [dateByAddingDays, if_neg hcode, if_pos hcode', components_lastDay,
      cal.dateComponents_dateByAdding]
    rfl
  · have hcode' : ¬ (cal.day1 x = cal.day1 (cal.lastDayOfMonth x) ∧ n ≥ 1) := by omega
    rw [if_neg hend]
    simp only [dateByAddingDays, if_neg hcode, if_neg hcode', cal.dateComponents_dateByAdding]
    rfl

/-! ## Yesterday -/

theorem isEqualToDateIgnoringTime_iff {x y : Int} :
    cal.isEqualToDateIgnoringTime x y = true ↔ cal.dateComponents x = cal.dateComponents y := by
  simp only [isEqualToDateIgnoringTime, Bool.and_eq_true, beq_iff_eq]
  constructor
  · rintro ⟨⟨hyear, hmonth⟩, hday⟩
    exact CivilDate.ext hyear hmonth hday
  · intro h
    rw [h]
    exact ⟨⟨rfl, rfl⟩, rfl⟩

/-- Not on the first of a month: the day is rolled back. -/
theorem rollDay_neg_one {d : CivilDate} (h : 1 < d.day) : d.rollDay (-1) = d.pred := by
  rw [CivilDate.pred, dif_pos h]
  ext
  · rfl
  · rfl
  · exact roll_neg_one h d.day_le

/-- On the first of a month: the month is rolled back, and the day to the end of that month. -/
theorem rollMonth_rollDay_neg_one {d : CivilDate} (h : d.day = 1) :
    (d.rollMonth (-1)).rollDay (-1) =
      CivilDate.lastOf d.year (roll 12 d.month (-1)) (roll_pos _ _ _) (roll_le Nat.one_le_ofNat _ _) := by
  ext
  · rfl
  · rfl
  · show roll (monthLength d.year (roll 12 d.month (-1)))
      (min d.day (monthLength d.year (roll 12 d.month (-1)))) (-1) = monthLength d.year (roll 12 d.month (-1))
    rw [min_monthLength_of_eq_one h]
    exact roll_one_neg_one (monthLength_pos _ _)

/-- **What `dateYesterday` computes**: the day before, but on the first of January the last day of the
same year. -/
theorem dateComponents_dateYesterday (now : Int) :
    cal.dateComponents (cal.dateYesterday now) =
      if (cal.dateComponents now).month = 1 ∧ (cal.dateComponents now).day = 1 then
        CivilDate.lastOfYear (cal.dateComponents now).year
      else (cal.dateComponents now).pred := by
  have hsub : cal.dateYesterday now = cal.dateByAddingDays now (-1) := rfl
  rw [hsub, dateComponents_dateByAddingDays]
  generalize cal.dateComponents now = t
  have hpos := t.day_pos
  have hmpos := t.month_pos
  by_cases hday : t.day = 1
  · rw [wrapDays, if_pos ⟨hday, by omega⟩, rollMonth_rollDay_neg_one hday]
    by_cases hmonth : t.month = 1
    · rw [if_pos ⟨hmonth, hday⟩]
      simp only [hmonth, roll_one_neg_one (show 1 ≤ 12 by omega)]
      rfl
    · rw [if_neg (fun h => hmonth h.1), CivilDate.pred, dif_neg (by omega), dif_pos (by omega)]
      simp only [roll_neg_one (show 1 < t.month by omega) t.month_le]
  · rw [wrapDays, if_neg (fun h => hday h.1), if_neg (fun h => absurd h.2 (by omega)),
      rollDay_neg_one (by omega), if_neg (fun h => hday h.2)]

/-! ## Headers -/

/-- The header of the section shows a text. -/
def Shows (toString : String → Int → String) (now later : Int) (table : ChatTableView) (index : Nat)
    (text : String) : Prop :=
  table.viewForHeaderInSection (cal.headerText toString now later) index = .ok (some (some text))

/-- The header of a section of the day `d` is right on the day `t`. -/
def HeaderRight (toString : String → Int → String) (now later : Int) (table : ChatTableView)
    (index : Nat) (t d : CivilDate) : Prop :=
  (cal.Shows toString now later table index "Today" ↔ d = t) ∧
    (cal.Shows toString now later table index "Yesterday" ↔ d ⋖ t)

section Header

variable {cal} {toString : String → Int → String} {table : ChatTableView} {index : Nat}
  {group : MessageGroup} {d : CivilDate} (now later : Int)

theorem shows_iff (hsection : table.messageSection[index]? = some group) (text : String) :
    cal.Shows toString now later table index text ↔
      cal.headerText toString now later group = some text := by
  obtain ⟨hlt, hget⟩ := List.getElem?_eq_some_iff.mp hsection
  rw [Shows, ChatTableView.viewForHeaderInSection_of_lt _ hlt, hget, Except.ok.injEq, Option.some.injEq]

/-- The text for the section of a day. -/
theorem headerText_eq (htime : group.sendingTime = some (cal.date d)) :
    cal.headerText toString now later group =
      if d = cal.dateComponents now then some "Today"
      else if d = cal.dateComponents (cal.dateYesterday later) then some "Yesterday"
      else some (toString "dd MMM YYYY" (cal.date d)) := by
  have htoday : cal.isToday now (cal.date d) = true ↔ d = cal.dateComponents now := by
    rw [isToday, isEqualToDateIgnoringTime_iff, cal.dateComponents_date]
  have hyesterday : cal.isYesterday later (cal.date d) = true ↔
      d = cal.dateComponents (cal.dateYesterday later) := by
    rw [isYesterday, isEqualToDateIgnoringTime_iff, cal.dateComponents_date]
  simp only [headerText, htime, Option.map_some, Option.getD_some, dateFromTimeStamp, htoday, hyesterday]

theorem shows_today_iff (hsection : table.messageSection[index]? = some group)
    (htime : group.sendingTime = some (cal.date d))
    (hformat : toString "dd MMM YYYY" (cal.date d) ≠ "Today") :
    cal.Shows toString now later table index "Today" ↔ d = cal.dateComponents now := by
  rw [shows_iff _ _ hsection, headerText_eq _ _ htime]
  split
  · rename_i htoday
    exact iff_of_true rfl htoday
  · rename_i htoday
    split
    · exact iff_of_false (by simp) htoday
    · exact iff_of_false (by simpa using hformat) htoday

theorem shows_yesterday_iff (hsection : table.messageSection[index]? = some group)
    (htime : group.sendingTime = some (cal.date d))
    (hformat : toString "dd MMM YYYY" (cal.date d) ≠ "Yesterday") :
    cal.Shows toString now later table index "Yesterday" ↔
      d ≠ cal.dateComponents now ∧ d = cal.dateComponents (cal.dateYesterday later) := by
  rw [shows_iff _ _ hsection, headerText_eq _ _ htime]
  split
  · rename_i htoday
    exact iff_of_false (by simp) (fun h => h.1 htoday)
  · rename_i htoday
    split
    · rename_i hyesterday
      exact iff_of_true rfl ⟨htoday, hyesterday⟩
    · rename_i hyesterday
      exact iff_of_false (by simpa using hformat) (fun h => hyesterday h.2)

end Header

/-- Today is the first of January, and the day is 31 December of the same year or of the year
before. -/
def AcrossNewYear (t d : CivilDate) : Prop :=
  t.month = 1 ∧ t.day = 1 ∧ d.month = 12 ∧ d.day = 31 ∧ (d.year = t.year ∨ d.year = t.year - 1)

/-- The first of January: `dateYesterday` is off by a year. -/
theorem newYear_iff {t d : CivilDate} (hmonth : t.month = 1) (hday : t.day = 1) :
    (d ≠ t ∧ d = CivilDate.lastOfYear t.year ↔ d ⋖ t) ↔ ¬ AcrossNewYear t d := by
  have hne : d = CivilDate.lastOfYear t.year → d ≠ t := by
    intro h heq
    have hdec := (CivilDate.eq_lastOfYear_iff.mp h).2.1
    rw [heq] at hdec
    omega
  rw [CivilDate.covBy_iff, CivilDate.pred_of_newYear hmonth hday, and_iff_right_of_imp hne,
    CivilDate.eq_lastOfYear_iff, CivilDate.eq_lastOfYear_iff, AcrossNewYear]
  omega

/-- **The headers "Today" and "Yesterday" are right** for every today and every day, exactly unless
today is the first of January and the section is the last day of that year or of the year before. -/
theorem header_right_iff (cal : LocalCalendar) {toString : String → Int → String} {now later : Int}
    {table : ChatTableView} {index : Nat} {group : MessageGroup} {t d : CivilDate}
    (hnow : cal.dateComponents now = t) (hlater : cal.dateComponents later = t)
    (hsection : table.messageSection[index]? = some group)
    (htime : group.sendingTime = some (cal.date d))
    (hformat : toString "dd MMM YYYY" (cal.date d) ∉ ["Today", "Yesterday"]) :
    cal.HeaderRight toString now later table index t d ↔ ¬ AcrossNewYear t d := by
  simp only [List.mem_cons, List.not_mem_nil, or_false, not_or] at hformat
  have htoday := shows_today_iff now later hsection htime hformat.1
  have hyesterday := shows_yesterday_iff now later hsection htime hformat.2
  rw [dateComponents_dateYesterday, hnow, hlater] at hyesterday
  rw [hnow] at htoday
  rw [HeaderRight, htoday, hyesterday, and_iff_right Iff.rfl]
  by_cases hnew : t.month = 1 ∧ t.day = 1
  · rw [if_pos hnew]
    exact newYear_iff hnew.1 hnew.2
  · rw [if_neg hnew, CivilDate.covBy_iff]
    have hne : d = t.pred → d ≠ t := by
      rintro rfl
      exact (CivilDate.pred_covBy t).lt.ne
    rw [and_iff_right_of_imp hne]
    exact iff_of_true Iff.rfl (fun h => hnew ⟨h.1, h.2.1⟩)

/-! ## The formatter, a calendar and a locale -/

/-- `Date.toString(withFormat:)`. -/
def toString (locale : DateLocale) (format : String) (date : Int) : String :=
  locale.string format (cal.dateComponents date)

/-- The text of a date has a space in it. -/
theorem toString_notMem (locale : DateLocale) (date : Int) :
    cal.toString locale "dd MMM YYYY" date ∉ ["Today", "Yesterday"] := by
  rw [toString, DateLocale.string_weekYear]
  simp only [List.mem_cons, List.not_mem_nil, or_false, not_or]
  exact ⟨locale.dayText_ne (by decide) _ _, locale.dayText_ne (by decide) _ _⟩

/-- The calendar of Greenwich: days of 24 hours, counted from 1 January 1970. -/
def utc : LocalCalendar where
  dateComponents x := CivilDate.ofDayNumber (x / 86400000 + 719163)
  date d := (d.dayNumber - 719163) * 86400000
  dateByAdding c x :=
    ((c.wrap (CivilDate.ofDayNumber (x / 86400000 + 719163))).dayNumber - 719163) * 86400000 + x % 86400000
  dateComponents_date d := by
    have hday : (d.dayNumber - 719163) * 86400000 / 86400000 + 719163 = d.dayNumber := by omega
    rw [hday, CivilDate.ofDayNumber_dayNumber]
  dateComponents_dateByAdding c x := by
    generalize c.wrap (CivilDate.ofDayNumber (x / 86400000 + 719163)) = d
    have hday : ((d.dayNumber - 719163) * 86400000 + x % 86400000) / 86400000 + 719163 = d.dayNumber := by
      omega
    rw [hday, CivilDate.ofDayNumber_dayNumber]

/-- American English: weeks begin on Sunday, and the first week is that of 1 January. -/
def enUS : DateLocale where
  week := ⟨0, 1, by decide, by decide⟩
  digit := ⟨fun i => Char.ofNat (48 + i), by decide⟩
  monthSymbol := ⟨fun i => #["Jan", "Feb", "Mar", "Apr", "May", "Jun", "Jul", "Aug", "Sep", "Oct", "Nov",
    "Dec"][i], by decide⟩
  digit_ne_space := by decide
  digit_ne_minus := by decide

/-- On 1 March 2024 the section of the leap day is right. -/
theorem header_right_leap_day :
    ∃ (cal : LocalCalendar) (now : Int) (t d : CivilDate) (group : MessageGroup) (table : ChatTableView),
      cal.dateComponents now = t ∧ table.messageSection[0]? = some group ∧
        group.sendingTime = some (cal.date d) ∧
        cal.HeaderRight (cal.toString enUS) now now table 0 t d := by
  let t : CivilDate := .ofYMD 2024 3 1 (by decide)
  let d : CivilDate := .ofYMD 2024 2 29 (by decide)
  let group : MessageGroup := ⟨some (utc.date d), some []⟩
  have hnow := utc.dateComponents_date t
  refine ⟨utc, utc.date t, t, d, group, { messageSection := [group] }, hnow, rfl, rfl, ?_⟩
  refine (header_right_iff utc hnow hnow rfl rfl ?_).mpr (fun h => absurd h.1 (by decide))
  exact utc.toString_notMem enUS (utc.date d)

/-- On 1 January 2023 the section of 31 December 2022 is not shown as "Yesterday". -/
theorem new_year_header_wrong :
    ¬ ∀ (cal : LocalCalendar) (toString : String → Int → String) (now later : Int) (table : ChatTableView)
      (index : Nat) (group : MessageGroup) (t d : CivilDate),
      cal.dateComponents now = t → cal.dateComponents later = t →
      table.messageSection[index]? = some group → group.sendingTime = some (cal.date d) →
      toString "dd MMM YYYY" (cal.date d) ∉ ["Today", "Yesterday"] →
      cal.HeaderRight toString now later table index t d := by
  intro h
  let t : CivilDate := .ofYMD 2023 1 1 (by decide)
  let d : CivilDate := .ofYMD 2022 12 31 (by decide)
  let group : MessageGroup := ⟨some (utc.date d), some []⟩
  let table : ChatTableView := { messageSection := [group] }
  have hnow := utc.dateComponents_date t
  have hsection : table.messageSection[0]? = some group := rfl
  have hright := h utc (fun _ _ => "31 Dec 2022") (utc.date t) (utc.date t) table 0 group t d hnow hnow
    hsection rfl (by decide)
  have hshows := hright.2.mpr (CivilDate.covBy_iff.mpr (by decide))
  rw [shows_yesterday_iff _ _ hsection rfl (by decide), dateComponents_dateYesterday, hnow] at hshows
  exact absurd hshows.2 (by decide)

end LocalCalendar

end ChatApplication
