import ChatApplication.DayHeader

/-!
# Headers with a date (`ChatTableView.swift`, `ChatSharedClass.swift`)

A section that is neither of today nor of yesterday has its date as header, by the pattern
"dd MMM YYYY".  `YYYY` is the week-based year, so around New Year a header can show the year after or
before, and the sections of two different days can have the same header.

* `HeadersNameDays` — the headers of a table name the days of their sections.
* `dayHeader_inj` — headers of days that are shown right are different.
* `headers_name_days_iff` — for which tables the headers do.
* `same_header_wrong` — 31 December 2021 and 31 December 2022 have the same header.
-/

namespace ChatApplication

open Gregorian

namespace LocalCalendar

variable (cal : LocalCalendar)

/-- The section at the index is that of the day `d`. -/
def IsSection (table : ChatTableView) (index : Nat) (d : CivilDate) : Prop :=
  ∃ group, table.messageSection[index]? = some group ∧ group.sendingTime = some (cal.date d)

/-- Neither today nor yesterday. -/
def Dated (t d : CivilDate) : Prop := d ≠ t ∧ ¬ d ⋖ t

/-- The headers of a table on the day `t`; `now i` and `later i` are the clock readings of the header
of the section `i`.  A section of a day neither today nor yesterday has day, month and calendar year
as header, and sections with the same header are of the same day. -/
structure HeadersNameDays (locale : DateLocale) (now later : Nat → Int) (table : ChatTableView)
    (t : CivilDate) : Prop where
  names : ∀ index d, cal.IsSection table index d → Dated t d →
    cal.Shows (cal.toString locale) (now index) (later index) table index (locale.string "dd MMM yyyy" d)
  distinct : ∀ i j d e, cal.IsSection table i d → cal.IsSection table j e → ∀ text,
    cal.Shows (cal.toString locale) (now i) (later i) table i text →
    cal.Shows (cal.toString locale) (now j) (later j) table j text → d = e

/-- The header of the day `d` on the day `t` does not go wrong: today is not the first of January with
`d` the last day of its year, and the week of `d` is counted in the year of `d`. -/
def NamesDay (locale : DateLocale) (t d : CivilDate) : Prop :=
  ¬ (t.month = 1 ∧ t.day = 1 ∧ d = CivilDate.lastOfYear t.year) ∧
    ¬ locale.week.InLastWeek d ∧ ¬ locale.week.InFirstWeek d

theorem date_injective : Function.Injective cal.date := Function.LeftInverse.injective cal.dateComponents_date

/-- A section is of one day. -/
theorem IsSection.eq {cal : LocalCalendar} {table : ChatTableView} {index : Nat} {d e : CivilDate}
    (hd : cal.IsSection table index d) (he : cal.IsSection table index e) : d = e := by
  obtain ⟨group, hgroup, hd⟩ := hd
  obtain ⟨group', hgroup', he⟩ := he
  rw [hgroup, Option.some.injEq] at hgroup'
  rw [← hgroup', hd, Option.some.injEq] at he
  exact cal.date_injective he

/-! ## The header of a day -/

/-- What `dateYesterday` computes on the day `t`. -/
def rolledYesterday (t : CivilDate) : CivilDate :=
  if t.month = 1 ∧ t.day = 1 then CivilDate.lastOfYear t.year else t.pred

/-- The header of the section of the day `d` on the day `t`. -/
def dayHeader (locale : DateLocale) (t d : CivilDate) : String :=
  if d = t then "Today"
  else if d = rolledYesterday t then "Yesterday"
  else locale.dayText (locale.week.weekYear d) d

variable {cal} {locale : DateLocale} {t d e : CivilDate}

theorem shows_iff_dayHeader (locale : DateLocale) {now later : Int} {table : ChatTableView} {index : Nat}
    (hnow : cal.dateComponents now = t) (hlater : cal.dateComponents later = t)
    (hsection : cal.IsSection table index d) (text : String) :
    cal.Shows (cal.toString locale) now later table index text ↔ dayHeader locale t d = text := by
  obtain ⟨group, hgroup, htime⟩ := hsection
  have hstring : cal.toString locale "dd MMM YYYY" (cal.date d) =
      locale.dayText (locale.week.weekYear d) d := by
    rw [toString, cal.dateComponents_date, DateLocale.string_weekYear]
  have hyesterday : cal.dateComponents (cal.dateYesterday later) = rolledYesterday t := by
    rw [dateComponents_dateYesterday, hlater, rolledYesterday]
  rw [shows_iff _ _ hgroup, headerText_eq _ _ htime, hyesterday, hnow, hstring, dayHeader]
  split
  · rw [Option.some.injEq]
  split <;> rw [Option.some.injEq]

theorem dayHeader_of_ne (ht : d ≠ t) (hy : d ≠ rolledYesterday t) :
    dayHeader locale t d = locale.dayText (locale.week.weekYear d) d := by
  rw [dayHeader, if_neg ht, if_neg hy]

theorem dayHeader_eq_today_iff : dayHeader locale t d = "Today" ↔ d = t := by
  unfold dayHeader
  split
  · rename_i h
    exact iff_of_true rfl h
  · rename_i h
    split
    · exact iff_of_false (by decide) h
    · exact iff_of_false (locale.dayText_ne (by decide) _ _) h

theorem dayHeader_eq_yesterday_iff (ht : d ≠ t) :
    dayHeader locale t d = "Yesterday" ↔ d = rolledYesterday t := by
  rw [dayHeader, if_neg ht]
  split
  · rename_i h
    exact iff_of_true rfl h
  · rename_i h
    exact iff_of_false (locale.dayText_ne (by decide) _ _) h

/-- The day before today that is not taken for yesterday: 31 December, on the first of January. -/
theorem eq_lastOfYear_of_covBy (hcov : d ⋖ t) (hy : d ≠ rolledYesterday t) :
    d = CivilDate.lastOfYear (t.year - 1) ∧ rolledYesterday t = CivilDate.lastOfYear t.year := by
  rw [CivilDate.covBy_iff] at hcov
  by_cases hnew : t.month = 1 ∧ t.day = 1
  · rw [CivilDate.pred_of_newYear hnew.1 hnew.2] at hcov
    exact ⟨hcov, by rw [rolledYesterday, if_pos hnew]⟩
  · rw [rolledYesterday, if_neg hnew] at hy
    exact absurd hcov hy

/-- **The header of a dated section is right** exactly when it does not go wrong. -/
theorem dayHeader_eq_string_iff (h : Dated t d) :
    dayHeader locale t d = locale.string "dd MMM yyyy" d ↔ NamesDay locale t d := by
  rw [DateLocale.string_calendarYear, NamesDay, ← WeekRule.weekYear_eq_year_iff]
  by_cases hy : d = rolledYesterday t
  · have hnew : t.month = 1 ∧ t.day = 1 := by
      by_contra hnew
      rw [rolledYesterday, if_neg hnew] at hy
      exact h.2 (CivilDate.covBy_iff.mpr hy)
    have hlast : d = CivilDate.lastOfYear t.year := by rw [hy, rolledYesterday, if_pos hnew]
    have hheader : dayHeader locale t d = "Yesterday" := (dayHeader_eq_yesterday_iff h.1).mpr hy
    rw [hheader]
    refine iff_of_false (fun htext => ?_) (fun hright => hright.1 ⟨hnew.1, hnew.2, hlast⟩)
    exact locale.dayText_ne (by decide) _ _ htext.symm
  · have hlast : ¬ (t.month = 1 ∧ t.day = 1 ∧ d = CivilDate.lastOfYear t.year) := by
      rintro ⟨hmonth, hday, hlast⟩
      exact hy (by rw [hlast, rolledYesterday, if_pos ⟨hmonth, hday⟩])
    rw [dayHeader_of_ne h.1 hy, DateLocale.dayText_eq_iff, and_iff_right hlast, and_iff_left ⟨rfl, rfl⟩]

/-! ## Two headers -/

/-- A day with its date as header shows its own year, or is the day before the first of January. -/
theorem weekYear_eq_or (hd : Dated t d → NamesDay locale t d) (ht : d ≠ t) (hy : d ≠ rolledYesterday t) :
    locale.week.weekYear d = d.year ∨
      d = CivilDate.lastOfYear (t.year - 1) ∧ rolledYesterday t = CivilDate.lastOfYear t.year := by
  by_cases hcov : d ⋖ t
  · exact .inr (eq_lastOfYear_of_covBy hcov hy)
  · exact .inl (WeekRule.weekYear_eq_year_iff.mpr (hd ⟨ht, hcov⟩).2)

/-- The day before the first of January has no other day's header. -/
theorem eq_of_lastOfYear (hlast : d = CivilDate.lastOfYear (t.year - 1))
    (hrolled : rolledYesterday t = CivilDate.lastOfYear t.year) (he : e ≠ rolledYesterday t)
    (hyear : locale.week.weekYear d = locale.week.weekYear e) (hown : locale.week.weekYear e = e.year)
    (hmonth : d.month = e.month) (hday : d.day = e.day) : d = e := by
  rw [hrolled] at he
  have hdec := CivilDate.eq_lastOfYear_iff.mp hlast
  rcases locale.week.weekYear_of_month_eq_twelve hdec.2.1 with h | h
  · exact CivilDate.ext (by omega) hmonth hday
  · exact absurd (CivilDate.eq_lastOfYear_iff.mpr ⟨by omega, by omega, by omega⟩) he

/-- **Headers are different** when those of dated sections are right. -/
theorem dayHeader_inj (hd : Dated t d → NamesDay locale t d) (he : Dated t e → NamesDay locale t e)
    (h : dayHeader locale t d = dayHeader locale t e) : d = e := by
  by_cases hdt : d = t
  · rw [hdt, dayHeader_eq_today_iff.mpr rfl] at h
    rw [hdt, dayHeader_eq_today_iff.mp h.symm]
  by_cases het : e = t
  · rw [het, dayHeader_eq_today_iff.mpr rfl] at h
    exact absurd (dayHeader_eq_today_iff.mp h) hdt
  by_cases hdy : d = rolledYesterday t
  · rw [(dayHeader_eq_yesterday_iff hdt).mpr hdy] at h
    rw [hdy, (dayHeader_eq_yesterday_iff het).mp h.symm]
  by_cases hey : e = rolledYesterday t
  · rw [(dayHeader_eq_yesterday_iff het).mpr hey] at h
    exact absurd ((dayHeader_eq_yesterday_iff hdt).mp h) hdy
  rw [dayHeader_of_ne hdt hdy, dayHeader_of_ne het hey, DateLocale.dayText_eq_iff] at h
  obtain ⟨hyear, hmonth, hday⟩ := h
  rcases weekYear_eq_or hd hdt hdy with hown | ⟨hlast, hrolled⟩
  · rcases weekYear_eq_or he het hey with hown' | ⟨hlast', hrolled⟩
    · exact CivilDate.ext (by rw [← hown, ← hown', hyear]) hmonth hday
    · exact (eq_of_lastOfYear hlast' hrolled hdy hyear.symm hown hmonth.symm hday.symm).symm
  · rcases weekYear_eq_or he het hey with hown' | ⟨hlast', -⟩
    · exact eq_of_lastOfYear hlast hrolled hey hyear hown' hmonth hday
    · rw [hlast, hlast']

/-- **The headers of a table name the days** exactly when none of its dated sections goes wrong: on
the first of January that of the last day of the year, and on every day those of the days of January
and December whose week is counted in another year. -/
theorem headers_name_days_iff (cal : LocalCalendar) (locale : DateLocale) {now later : Nat → Int}
    {t : CivilDate} (hnow : ∀ i, cal.dateComponents (now i) = t)
    (hlater : ∀ i, cal.dateComponents (later i) = t) (table : ChatTableView) :
    cal.HeadersNameDays locale now later table t ↔
      ∀ index d, cal.IsSection table index d → Dated t d → NamesDay locale t d := by
  constructor
  · intro h index d hsection hdated
    have hshows := h.names index d hsection hdated
    rw [shows_iff_dayHeader locale (hnow index) (hlater index) hsection] at hshows
    exact (dayHeader_eq_string_iff hdated).mp hshows
  · intro h
    refine ⟨fun index d hsection hdated => ?_, fun i j d e hi hj text htext htext' => ?_⟩
    · rw [shows_iff_dayHeader locale (hnow index) (hlater index) hsection]
      exact (dayHeader_eq_string_iff hdated).mpr (h index d hsection hdated)
    · rw [shows_iff_dayHeader locale (hnow i) (hlater i) hi] at htext
      rw [shows_iff_dayHeader locale (hnow j) (hlater j) hj] at htext'
      exact dayHeader_inj (h i d hi) (h j e hj) (htext.trans htext'.symm)

/-- On 1 March 2023 the headers of 31 December 2022 and 1 January 2023 are right. -/
theorem headers_name_days_new_year :
    ∃ (cal : LocalCalendar) (now : Nat → Int) (t : CivilDate) (table : ChatTableView),
      table.messageSection.length = 2 ∧ (∀ i, cal.dateComponents (now i) = t) ∧
        cal.HeadersNameDays enUS now now table t := by
  let t : CivilDate := .ofYMD 2023 3 1 (by decide)
  let d : CivilDate := .ofYMD 2022 12 31 (by decide)
  let e : CivilDate := .ofYMD 2023 1 1 (by decide)
  let table : ChatTableView :=
    { messageSection := [⟨some (utc.date d), some []⟩, ⟨some (utc.date e), some []⟩] }
  have hnow := utc.dateComponents_date t
  refine ⟨utc, fun _ => utc.date t, t, table, rfl, fun _ => hnow, ?_⟩
  have hd : utc.IsSection table 0 d := ⟨_, rfl, rfl⟩
  have he : utc.IsSection table 1 e := ⟨_, rfl, rfl⟩
  rw [headers_name_days_iff utc enUS (fun _ => hnow) (fun _ => hnow)]
  intro index f hf _
  have hlt : index < 2 := by
    obtain ⟨group, hgroup, -⟩ := hf
    exact (List.getElem?_eq_some_iff.mp hgroup).1
  obtain rfl | rfl : index = 0 ∨ index = 1 := by omega
  · rw [hf.eq hd]
    exact ⟨by decide, by decide, by decide⟩
  · rw [hf.eq he]
    exact ⟨by decide, by decide, by decide⟩

/-- On 1 March 2023 the sections of 31 December 2021 and 31 December 2022 have the same header. -/
theorem same_header_wrong :
    ¬ ∀ (cal : LocalCalendar) (locale : DateLocale) (now later : Nat → Int) (t : CivilDate)
      (table : ChatTableView), (∀ i, cal.dateComponents (now i) = t) →
      (∀ i, cal.dateComponents (later i) = t) → cal.HeadersNameDays locale now later table t := by
  intro h
  let t : CivilDate := .ofYMD 2023 3 1 (by decide)
  let d : CivilDate := .ofYMD 2021 12 31 (by decide)
  let e : CivilDate := .ofYMD 2022 12 31 (by decide)
  let table : ChatTableView :=
    { messageSection := [⟨some (utc.date d), some []⟩, ⟨some (utc.date e), some []⟩] }
  have hnow := utc.dateComponents_date t
  have hheaders := h utc enUS (fun _ => utc.date t) (fun _ => utc.date t) t table (fun _ => hnow)
    (fun _ => hnow)
  have hd : utc.IsSection table 0 d := ⟨_, rfl, rfl⟩
  have he : utc.IsSection table 1 e := ⟨_, rfl, rfl⟩
  have hsame : dayHeader enUS t d = dayHeader enUS t e := by
    have hd' : dayHeader enUS t d = "31 Dec 2022" := by decide
    have he' : dayHeader enUS t e = "31 Dec 2022" := by decide
    rw [hd', he']
  have hshows := (shows_iff_dayHeader enUS hnow hnow hd _).mpr hsame
  have hshows' := (shows_iff_dayHeader enUS hnow hnow he _).mpr rfl
  exact absurd (hheaders.distinct 0 1 d e hd he _ hshows hshows') (by decide)

end LocalCalendar

end ChatApplication
