import Mathlib.Data.List.Dedup
import ChatApplication.Controllers.ChatTableView

/-!
# Grouping messages by day (`ChatTableView.swift`)

`filterMessageArray` collects the day strings of all messages, goes through an unordered `Set`,
parses every string back to a time, and rescans all messages for every day.  With a calendar whose
days follow the timestamps, and a format that tells days apart and parses back to the start of a
day, nothing is lost, repeated or reordered.

* `LocalDays` — what is used of Foundation: the local day of a timestamp, and the start of a day.
* `sections_eq_map` — the sections are the groups of the day strings in the order of their days.
* `flatMap_rows` — the rows of the sections, in order, are the messages.
* `day_groups` — the sections are a lossless, ordered partition of the messages by day.
-/

namespace ChatApplication

open StableSort ChatTableView

/-- The local calendar of a format: the day of a timestamp does not decrease, `MM/dd/yyyy` tells days
apart, and the string of a day parses to the start of that day, which increases with the day. -/
structure LocalDays (fmt : DayFormat) where
  day : Int → Int
  start : Int → Int
  day_mono : ∀ {t t'}, t ≤ t' → day t ≤ day t'
  dayString_eq_iff : ∀ t t', fmt.dayString t = fmt.dayString t' ↔ day t = day t'
  date_dayString : ∀ t, fmt.date (fmt.dayString t) = some (start (day t))
  start_strictMono : ∀ {d d'}, d < d' → start d < start d'

theorem LocalDays.start_inj {fmt : DayFormat} (cal : LocalDays fmt) {d d' : Int} :
    cal.start d = cal.start d' ↔ d = d' := by
  refine ⟨fun heq => ?_, fun heq => heq ▸ rfl⟩
  rcases lt_trichotomy d d' with hlt | heq' | hgt
  · have := cal.start_strictMono hlt
    omega
  · exact heq'
  · have := cal.start_strictMono hgt
    omega

/-- The rows of a section. -/
def MessageGroup.rows (g : MessageGroup) : List MessageClass := g.message.getD []

/-- The sections are the messages, cut at the days. -/
structure DayPartition (day : Int → Int) (messages : List MessageClass) (groups : List MessageGroup) :
    Prop where
  lossless : groups.flatMap MessageGroup.rows = messages
  nonempty : ∀ g ∈ groups, g.rows ≠ []
  same_day : ∀ g ∈ groups, ∀ m ∈ g.rows, ∀ m' ∈ g.rows, day m.sendingTime = day m'.sendingTime
  different_days : groups.Pairwise fun g g' =>
    ∀ m ∈ g.rows, ∀ m' ∈ g'.rows, day m.sendingTime ≠ day m'.sendingTime
  times : groups.Pairwise fun g g' =>
    ∃ time time', g.sendingTime = some time ∧ g'.sendingTime = some time' ∧ time < time'

section Groups

variable {fmt : DayFormat} (cal : LocalDays fmt) (env : Surroundings)

/-- The day strings of the messages, in the order of their days. -/
def sortedDays (fmt : DayFormat) (env : Surroundings) (messages : List MessageClass) : List String :=
  sortOn (dateFromString fmt env) (env.toArray (timeStampArray fmt messages))

theorem sections_eq_map (messages : List MessageClass) :
    sections fmt env messages = (sortedDays fmt env messages).map (dayGroup fmt env messages) := by
  unfold sections sortedDays
  exact (sortOn_map sectionTime (dayGroup fmt env messages) _)

theorem mem_sortedDays {messages : List MessageClass} {day : String} :
    day ∈ sortedDays fmt env messages ↔ ∃ m ∈ messages, fmt.dayString m.sendingTime = day := by
  rw [sortedDays, mem_sortOn, env.mem_iff, timeStampArray, List.mem_map]

include cal in
theorem LocalDays.dateFromString_dayString (t : Int) :
    dateFromString fmt env (fmt.dayString t) = cal.start (cal.day t) := by
  rw [dateFromString, cal.date_dayString, Option.getD_some]

include cal in
/-- The section times increase. -/
theorem sortedDays_pairwise_lt (messages : List MessageClass) :
    (sortedDays fmt env messages).Pairwise fun day day' =>
      dateFromString fmt env day < dateFromString fmt env day' := by
  have hsorted : SortedOn (dateFromString fmt env) (sortedDays fmt env messages) := sortOn_sorted _ _
  have hnodup : (sortedDays fmt env messages).Nodup :=
    (sortOn_perm _ _).nodup_iff.mpr (env.nodup _)
  have hboth := List.Pairwise.and hsorted hnodup
  refine List.Pairwise.imp_of_mem ?_ hboth
  rintro day day' hday hday' ⟨hle, hne⟩
  refine lt_of_le_of_ne hle fun heq => hne ?_
  obtain ⟨m, -, rfl⟩ := (mem_sortedDays env).mp hday
  obtain ⟨m', -, rfl⟩ := (mem_sortedDays env).mp hday'
  rw [cal.dateFromString_dayString env, cal.dateFromString_dayString env] at heq
  exact (cal.dayString_eq_iff _ _).mpr (cal.start_inj.mp heq)

include cal in
/-- The messages of a day are those whose own day starts at the time of the section. -/
theorem rows_dayGroup {messages : List MessageClass} {day : String}
    (hday : day ∈ sortedDays fmt env messages) :
    (dayGroup fmt env messages day).rows =
      messages.filter fun m =>
        dateFromString fmt env (fmt.dayString m.sendingTime) = dateFromString fmt env day := by
  obtain ⟨m₀, -, rfl⟩ := (mem_sortedDays env).mp hday
  refine List.filter_congr fun m _ => ?_
  rw [decide_eq_decide, cal.dateFromString_dayString env, cal.dateFromString_dayString env,
    cal.start_inj, ← cal.dayString_eq_iff]
  exact eq_comm

theorem mem_rows_dayGroup {messages : List MessageClass} {day : String} {m : MessageClass} :
    m ∈ (dayGroup fmt env messages day).rows ↔ m ∈ messages ∧ day = fmt.dayString m.sendingTime := by
  show m ∈ messages.filter _ ↔ _
  rw [List.mem_filter, decide_eq_true_eq]

include cal in
/-- The rows of the sections, one section after the other, are the messages. -/
theorem flatMap_rows {messages : List MessageClass}
    (hsorted : messages.Pairwise fun m m' => m.sendingTime ≤ m'.sendingTime) :
    (sections fmt env messages).flatMap MessageGroup.rows = messages := by
  have hkey : SortedOn (fun m : MessageClass => dateFromString fmt env (fmt.dayString m.sendingTime))
      messages := by
    refine hsorted.imp fun hle => ?_
    simp only [cal.dateFromString_dayString env]
    rcases lt_or_eq_of_le (cal.day_mono hle) with hlt | heq
    · exact le_of_lt (cal.start_strictMono hlt)
    · rw [heq]
  have hgroups : (sections fmt env messages).flatMap MessageGroup.rows =
      ((sortedDays fmt env messages).map (dateFromString fmt env)).flatMap fun time =>
        messages.filter fun m => dateFromString fmt env (fmt.dayString m.sendingTime) = time := by
    rw [sections_eq_map, List.flatMap_map, List.flatMap_map]
    exact List.flatMap_congr fun day hday => rows_dayGroup cal env hday
  rw [hgroups]
  refine flatMap_filter_key _ hkey (List.pairwise_map.mpr (sortedDays_pairwise_lt cal env messages)) ?_
  intro m hm
  exact List.mem_map_of_mem ((mem_sortedDays env).mpr ⟨m, hm, rfl⟩)

/-- **Grouping by day is a lossless, ordered partition** of the messages. -/
theorem day_groups (t : ChatTableView) (messages : List MessageClass) (ht : t.message = some messages)
    (hsorted : messages.Pairwise fun m m' => m.sendingTime ≤ m'.sendingTime) :
    DayPartition cal.day messages (t.filterMessageArray fmt env).messageSection := by
  have hsections : (t.filterMessageArray fmt env).messageSection = sections fmt env messages := by
    rw [filterMessageArray_eq, ht, Option.getD_some]
  have hdays := sortedDays_pairwise_lt cal env messages
  rw [hsections]
  refine ⟨flatMap_rows cal env hsorted, ?_, ?_, ?_, ?_⟩ <;> rw [sections_eq_map]
  · intro g hg
    obtain ⟨day, hday, rfl⟩ := List.mem_map.mp hg
    obtain ⟨m, hm, hmday⟩ := (mem_sortedDays env).mp hday
    exact List.ne_nil_of_mem ((mem_rows_dayGroup env).mpr ⟨hm, hmday.symm⟩)
  · intro g hg m hm m' hm'
    obtain ⟨day, -, rfl⟩ := List.mem_map.mp hg
    obtain ⟨-, hday⟩ := (mem_rows_dayGroup env).mp hm
    obtain ⟨-, hday'⟩ := (mem_rows_dayGroup env).mp hm'
    exact (cal.dayString_eq_iff _ _).mp (hday.symm.trans hday')
  · refine List.pairwise_map.mpr (hdays.imp fun {day day'} hlt m hm m' hm' heq => ?_)
    obtain ⟨-, hday⟩ := (mem_rows_dayGroup env).mp hm
    obtain ⟨-, hday'⟩ := (mem_rows_dayGroup env).mp hm'
    rw [hday, hday', (cal.dayString_eq_iff _ _).mpr heq] at hlt
    exact lt_irrefl _ hlt
  · exact List.pairwise_map.mpr (hdays.imp fun hlt => ⟨_, _, rfl, rfl, hlt⟩)

end Groups

/-- Two messages of 16 July 2022 and one of the day after, in a calendar that tells the days up to
16 July 2022 from those after it. -/
theorem day_groups_two_days :
    ∃ (fmt : DayFormat) (cal : LocalDays fmt) (env : Surroundings) (messages : List MessageClass),
      messages.map MessageClass.sendingTime = [1657950000000, 1657950000000, 1658036400000] ∧
      DayPartition cal.day messages
        (ChatTableView.filterMessageArray fmt env { message := some messages }).messageSection := by
  let fmt : DayFormat :=
    { dayString := fun t => if t < 1658016000000 then "07/16/2022" else "07/17/2022"
      date := fun s => if s = "07/16/2022" then some 1657929600000 else some 1658016000000 }
  let cal : LocalDays fmt :=
    { day := fun t => if t < 1658016000000 then 0 else 1
      start := fun d => 1657929600000 + 86400000 * d
      day_mono := by
        intro t t' hle
        split <;> split <;> omega
      dayString_eq_iff := by
        intro t t'
        by_cases ht : t < 1658016000000 <;> by_cases ht' : t' < 1658016000000 <;> simp [fmt, ht, ht']
      date_dayString := by
        intro t
        by_cases ht : t < 1658016000000 <;> simp [fmt, ht]
      start_strictMono := by
        intro d d' hlt
        omega }
  let env : Surroundings := ⟨List.dedup, List.nodup_dedup, fun _ _ => List.mem_dedup, fun _ => 0⟩
  let messages : List MessageClass :=
    [{ sendingTime := 1657950000000 }, { sendingTime := 1657950000000 }, { sendingTime := 1658036400000 }]
  exact ⟨fmt, cal, env, messages, rfl, day_groups cal env _ messages rfl (by decide)⟩

end ChatApplication
