import ChatApplication.Halper.ChatHalper

/-!
# The chat table (`ChatTableView.swift`)

A chat table holds the messages its observer was passed, groups them by local day into
`messageSection`, and lets UIKit re-read the sections with `reloadData`.  The grouping collects
the day strings of all messages, goes through a `Set`, and appends one section per day string,
sorting and reloading after every append.

* `filterMessageArray_eq` — what the loop leaves: the sections in one stable sort, and the sections
  UIKit has read, which are the new ones only if there was at least one day.
* `sections_eq_of_roundTrips` — the sections depend on neither the order of the `Set` nor the
  clock when formatted day strings parse back.
-/

namespace ChatApplication

open StableSort

/-- `MessageGroup`. -/
structure MessageGroup where
  sendingTime : Option Int
  message : Option (List MessageClass)
  deriving DecidableEq, Repr

/-- The two Foundation conversions of the grouping: a message time as `MM/dd/yyyy`
(`dateFromTimeStamp().toString(withFormat:)`), and `DateFormatter.date(from:)` on such a string,
in milliseconds. -/
structure DayFormat where
  dayString : Int → String
  date : String → Option Int

/-- A day string parses, and to a time of that day. -/
def DayFormat.RoundTrips (fmt : DayFormat) : Prop :=
  ∀ t, ∃ start, fmt.date (fmt.dayString t) = some start ∧ fmt.dayString start = fmt.dayString t

/-- What one run of `filterMessageArray` takes from outside: the order in which `Array(Set(…))`
enumerates the elements of a list, and the clock reading of `Date()` should a string not parse. -/
structure Surroundings where
  toArray : List String → List String
  nodup : ∀ l, (toArray l).Nodup
  mem_iff : ∀ l x, x ∈ toArray l ↔ x ∈ l
  now : String → Int

/-- `ChatTableView`: the messages, the sections, the sections UIKit read at the latest
`reloadData`, and the number of `scrollToBottom` blocks waiting on the main queue. -/
structure ChatTableView where
  message : Option (List MessageClass) := none
  messageSection : List MessageGroup := []
  rendered : List MessageGroup := []
  pendingScrolls : Nat := 0
  deriving DecidableEq, Repr

namespace ChatTableView

/-- `reloadData`: UIKit reads the sections and rows. -/
def reloadData (t : ChatTableView) : ChatTableView := { t with rendered := t.messageSection }

/-- `scrollToBottom`: enqueue a block. -/
def scrollToBottom (t : ChatTableView) : ChatTableView :=
  { t with pendingScrolls := t.pendingScrolls + 1 }

variable (fmt : DayFormat)

/-- `Date.dateFromString(date:withCurrentFormat:).toMillis()`. -/
def dateFromString (env : Surroundings) (time : String) : Int := (fmt.date time).getD (env.now time)

/-- The section of the day string `time`: the messages of that day, in their order. -/
def dayGroup (env : Surroundings) (messages : List MessageClass) (time : String) : MessageGroup where
  sendingTime := some (dateFromString fmt env time)
  message := some (messages.filter fun m => time = fmt.dayString m.sendingTime)

/-- The key the sections are sorted by. -/
def sectionTime (g : MessageGroup) : Int := g.sendingTime.getD 0

/-- The loop body of `filterMessageArray`; `layoutIfNeeded` changes nothing here. -/
def sectionLoop (env : Surroundings) (t : ChatTableView) (time : String) : ChatTableView :=
  let appended := t.messageSection ++ [dayGroup fmt env (t.message.getD []) time]
  reloadData (scrollToBottom { t with messageSection := sortOn sectionTime appended })

/-- The day strings of all messages. -/
def timeStampArray (messages : List MessageClass) : List String :=
  messages.map fun m => fmt.dayString m.sendingTime

/-- `filterMessageArray`. -/
def filterMessageArray (env : Surroundings) (t : ChatTableView) : ChatTableView :=
  let cleared := { t with messageSection := [] }
  (env.toArray (timeStampArray fmt (t.message.getD []))).foldl (sectionLoop fmt env) cleared

/-- The callback of `receiveMessageOneToOne`. -/
def receive (env : Surroundings) (message : List MessageClass) (t : ChatTableView) : ChatTableView :=
  filterMessageArray fmt env { t with message := some message }

/-- The sections of a list of messages. -/
def sections (env : Surroundings) (messages : List MessageClass) : List MessageGroup :=
  sortOn sectionTime ((env.toArray (timeStampArray fmt messages)).map (dayGroup fmt env messages))

/-- The loop, from any state: sections are appended in one stable sort, and UIKit has read them
unless the loop did not run. -/
theorem foldl_sectionLoop (env : Surroundings) (days : List String) (t : ChatTableView)
    (hs : SortedOn sectionTime t.messageSection) :
    days.foldl (sectionLoop fmt env) t =
      { t with
        messageSection :=
          sortOn sectionTime (t.messageSection ++ days.map (dayGroup fmt env (t.message.getD [])))
        rendered := if days = [] then t.rendered else
          sortOn sectionTime (t.messageSection ++ days.map (dayGroup fmt env (t.message.getD [])))
        pendingScrolls := t.pendingScrolls + days.length } := by
  induction days using List.reverseRecOn with
  | nil => simp [hs.sortOn_eq]
  | append_singleton days day ih =>
    rw [List.foldl_append, ih, List.foldl_cons, List.foldl_nil, sectionLoop, reloadData, scrollToBottom]
    simp [sortOn_sortOn_append, Nat.add_assoc]

theorem toArray_timeStampArray_eq_nil_iff (env : Surroundings) (messages : List MessageClass) :
    env.toArray (timeStampArray fmt messages) = [] ↔ messages = [] := by
  rw [List.eq_nil_iff_forall_not_mem]
  simp only [env.mem_iff]
  rw [← List.eq_nil_iff_forall_not_mem, timeStampArray, List.map_eq_nil_iff]

/-- **`filterMessageArray`**: the sections of the messages; UIKit has read them exactly when there
was a day to loop over. -/
theorem filterMessageArray_eq (env : Surroundings) (t : ChatTableView) :
    filterMessageArray fmt env t =
      { t with
        messageSection := sections fmt env (t.message.getD [])
        rendered := if t.message.getD [] = [] then t.rendered else
          sections fmt env (t.message.getD [])
        pendingScrolls :=
          t.pendingScrolls + (env.toArray (timeStampArray fmt (t.message.getD []))).length } := by
  have hempty := toArray_timeStampArray_eq_nil_iff fmt env (t.message.getD [])
  have hloop := foldl_sectionLoop fmt env (env.toArray (timeStampArray fmt (t.message.getD [])))
    { t with messageSection := [] } List.Pairwise.nil
  unfold filterMessageArray
  simp only [hempty, List.nil_append] at hloop
  exact hloop

theorem sections_nil (env : Surroundings) : sections fmt env [] = [] := by
  rw [sections, (toArray_timeStampArray_eq_nil_iff fmt env []).mpr rfl]
  rfl

theorem sections_ne_nil (env : Surroundings) {messages : List MessageClass} (h : messages ≠ []) :
    sections fmt env messages ≠ [] := by
  obtain ⟨m, ms, rfl⟩ := List.exists_cons_of_ne_nil h
  have hday : fmt.dayString m.sendingTime ∈ env.toArray (timeStampArray fmt (m :: ms)) :=
    (env.mem_iff _ _).mpr List.mem_cons_self
  intro hnil
  have hmem := (mem_sortOn sectionTime).mpr (List.mem_map_of_mem (f := dayGroup fmt env (m :: ms)) hday)
  rw [sections] at hnil
  rw [hnil] at hmem
  cases hmem

variable {fmt}

theorem dateFromString_dayString (hfmt : fmt.RoundTrips) (env env' : Surroundings) (t : Int) :
    dateFromString fmt env (fmt.dayString t) = dateFromString fmt env' (fmt.dayString t) := by
  obtain ⟨start, hstart, -⟩ := hfmt t
  rw [dateFromString, dateFromString, hstart]
  rfl

/-- Different day strings have different times. -/
theorem dayString_eq_of_dateFromString_eq (hfmt : fmt.RoundTrips) (env : Surroundings) {t t' : Int}
    (h : dateFromString fmt env (fmt.dayString t) = dateFromString fmt env (fmt.dayString t')) :
    fmt.dayString t = fmt.dayString t' := by
  obtain ⟨start, hstart, hday⟩ := hfmt t
  obtain ⟨start', hstart', hday'⟩ := hfmt t'
  rw [dateFromString, dateFromString, hstart, hstart', Option.getD_some, Option.getD_some] at h
  rw [← hday, ← hday', h]

theorem mem_dayString (env : Surroundings) {messages : List MessageClass} {day : String}
    (h : day ∈ env.toArray (timeStampArray fmt messages)) : ∃ t, day = fmt.dayString t := by
  obtain ⟨m, -, rfl⟩ := List.mem_map.mp ((env.mem_iff _ _).mp h)
  exact ⟨m.sendingTime, rfl⟩

/-- The sections depend on neither the order of the set of day strings nor the clock. -/
theorem sections_eq_of_roundTrips (hfmt : fmt.RoundTrips) (env env' : Surroundings)
    (messages : List MessageClass) : sections fmt env messages = sections fmt env' messages := by
  have hgroups : (env.toArray (timeStampArray fmt messages)).map (dayGroup fmt env messages) =
      (env.toArray (timeStampArray fmt messages)).map (dayGroup fmt env' messages) := by
    refine List.map_congr_left fun day hday => ?_
    obtain ⟨t, rfl⟩ := mem_dayString env hday
    rw [dayGroup, dateFromString_dayString hfmt env env', dayGroup]
  have hperm : (env.toArray (timeStampArray fmt messages)).Perm
      (env'.toArray (timeStampArray fmt messages)) := by
    rw [List.perm_ext_iff_of_nodup (env.nodup _) (env'.nodup _)]
    intro x
    rw [env.mem_iff, env'.mem_iff]
  rw [sections, sections, hgroups]
  refine sortOn_eq_of_perm sectionTime (hperm.map _) ?_
  -- two sections of equal time are the section of one day string
  intro g hg g' hg' htime
  obtain ⟨day, hday, rfl⟩ := List.mem_map.mp hg
  obtain ⟨day', hday', rfl⟩ := List.mem_map.mp hg'
  obtain ⟨t, rfl⟩ := mem_dayString env hday
  obtain ⟨t', rfl⟩ := mem_dayString env hday'
  rw [dayString_eq_of_dateFromString_eq hfmt env' htime]

end ChatTableView

end ChatApplication
