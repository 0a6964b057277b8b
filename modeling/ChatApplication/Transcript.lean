import Mathlib.Data.List.Dedup
import ChatApplication.Controllers.ChatTableView
import ChatApplication.Lib.Runs

/-!
# The transcript and the chat table

A snapshot of a conversation reaches the chat table through the observer of `receiveMessage`,
which sorts by `sendingTime` only, and `filterMessageArray`, which reloads inside its loop.

* `snapshot_decoding` — a snapshot is decoded without loss, sorted, and passed on once.
* `transcript_of_snapshot` — when the transcript is a function of the snapshot: exactly when no
  two different messages have the same `sendingTime`; in general it is one up to the order among
  messages of equal time.
* `rendered_deliver_of_empty`, `rendered_deliver_of_not_empty`, `rendered_eq_nil_iff` — what the
  table has read after one delivery and after a run.
* `table_shows_last_snapshot_iff` — the table shows the last snapshot after every delivery exactly
  when no snapshot without messages comes after one with messages.
-/

namespace ChatApplication

open Runs StableSort ChatTableView

/-! ## The transcript as a function of the snapshot -/

variable (userDetails : Dict) (fmt : DayFormat)

/-- The list the observer passes on for a dictionary enumerated as `d`. -/
def delivered (d : Dict) (h : ChatHalper) : List MessageClass :=
  (messageObserver userDetails (some (.dictionary d)) h).2

/-- No two different messages of the snapshot have the same time. -/
def NoTies (entries : Dict) : Prop :=
  ∀ e ∈ entries, ∀ e' ∈ entries,
    (decodeMessage userDetails e).sendingTime = (decodeMessage userDetails e').sendingTime →
      decodeMessage userDetails e = decodeMessage userDetails e'

theorem delivered_eq (d : Dict) (h : ChatHalper) :
    delivered userDetails d h =
      sortOn MessageClass.sendingTime (d.map (decodeMessage userDetails)) := by
  simp [delivered, messageObserver_eq, transcript, snapshotEntries]

/-- **Decoding a snapshot** calls the callback once, with one message for every key of the
dictionary, whatever its value, in the order of their times. -/
theorem snapshot_decoding (entries : Dict) (enumeration : Enumeration) (h : ChatHalper) :
    ∃ L, (messageObserverCalls userDetails (some (enumeration.apply (.dictionary entries))) h).2 = [L] ∧
      L.Perm (entries.map fun e => MessageClass.init userDetails e.1 (getDictionary (some e.2))) ∧
      L.Pairwise (fun m m' => m.sendingTime ≤ m'.sendingTime) ∧
      ∀ e : String × AnyValue,
        (MessageClass.init userDetails e.1 (getDictionary (some e.2))).uid =
          some (stringByTrimmingWhiteSpaceAndNewLine e.1) := by
  have hdecode : ∀ e : String × AnyValue, decodeMessage userDetails e =
      MessageClass.init userDetails e.1 (getDictionary (some e.2)) := by
    intro e
    simp only [decodeMessage, MessageClass.init, getstringOf_some, trimming_trimming]
  refine ⟨delivered userDetails (enumeration.order entries) h, ?_, ?_, ?_, fun _ => rfl⟩
  · rw [messageObserverCalls_eq]
    rfl
  · rw [delivered_eq]
    refine (sortOn_perm _ _).trans (((enumeration.perm entries).map _).trans (.of_eq ?_))
    exact List.map_congr_left fun e _ => hdecode e
  · rw [delivered_eq]
    exact sortOn_sorted _ _

theorem delivered_eq_of_perm {entries d d' : Dict} (hties : NoTies userDetails entries)
    (hd : d.Perm entries) (hd' : d'.Perm entries) (h h' : ChatHalper) :
    delivered userDetails d h = delivered userDetails d' h' := by
  rw [delivered_eq, delivered_eq]
  refine sortOn_eq_of_perm _ ((hd.trans hd'.symm).map _) ?_
  intro m hm m' hm' htime
  obtain ⟨e, he, rfl⟩ := List.mem_map.mp hm
  obtain ⟨e', he', rfl⟩ := List.mem_map.mp hm'
  exact hties e (hd.mem_iff.mp he) e' (hd.mem_iff.mp he') htime

theorem noTies_of_delivered_eq {entries : Dict}
    (h : ∀ d d' : Dict, d.Perm entries → d'.Perm entries → ∀ h h' : ChatHalper,
      delivered userDetails d h = delivered userDetails d' h') : NoTies userDetails entries := by
  intro e he e' he' htime
  by_contra hne
  obtain ⟨d, d', hd, hd', hdiff⟩ :=
    exists_perm_sortOn_ne MessageClass.sendingTime (decodeMessage userDetails) he he' hne htime
  have := h d d' hd hd' {} {}
  rw [delivered_eq, delivered_eq] at this
  exact hdiff this

variable {fmt}

/-- **The transcript of a snapshot.**  It is the same for all enumeration orders of the dictionary
exactly when no two different messages have the same time, and then the sections and rows are
the same for all orders of the set of day strings as well.  In any case two orders give the same
messages at the same times. -/
theorem transcript_of_snapshot (hfmt : fmt.RoundTrips) (entries : Dict) :
    ((∀ d d' : Dict, d.Perm entries → d'.Perm entries → ∀ h h' : ChatHalper,
        delivered userDetails d h = delivered userDetails d' h') ↔ NoTies userDetails entries) ∧
    (NoTies userDetails entries → ∀ d d' : Dict, d.Perm entries → d'.Perm entries →
      ∀ (h h' : ChatHalper) (env env' : Surroundings) (t t' : ChatTableView),
        (t.receive fmt env (delivered userDetails d h)).messageSection =
          (t'.receive fmt env' (delivered userDetails d' h')).messageSection) ∧
    (∀ d d' : Dict, d.Perm entries → d'.Perm entries → ∀ h h' : ChatHalper,
      (delivered userDetails d h).Perm (delivered userDetails d' h') ∧
        (delivered userDetails d h).map MessageClass.sendingTime =
          (delivered userDetails d' h').map MessageClass.sendingTime) := by
  refine ⟨⟨noTies_of_delivered_eq userDetails, ?_⟩, ?_, ?_⟩
  · intro hties d d' hd hd' h h'
    exact delivered_eq_of_perm userDetails hties hd hd' h h'
  · intro hties d d' hd hd' h h' env env' t t'
    rw [delivered_eq_of_perm userDetails hties hd hd' h h']
    simp only [ChatTableView.receive, filterMessageArray_eq, Option.getD_some]
    exact sections_eq_of_roundTrips hfmt env env' _
  · intro d d' hd hd' h h'
    have hperm := (hd.trans hd'.symm).map (decodeMessage userDetails)
    rw [delivered_eq, delivered_eq]
    exact ⟨(sortOn_perm _ _).trans (hperm.trans (sortOn_perm _ _).symm),
      map_key_sortOn_eq_of_perm _ hperm⟩

/-- Two messages of 16 July 2022, one second apart. -/
theorem transcript_of_snapshot_two :
    ∃ (fmt : DayFormat) (entries : Dict), fmt.RoundTrips ∧ entries.length = 2 ∧
      delivered [] entries {} = delivered [] entries.reverse {} := by
  let fmt : DayFormat :=
    { dayString := fun t => if t < 1658016000000 then "07/16/2022" else "07/17/2022"
      date := fun s => if s = "07/16/2022" then some 1657929600000 else some 1658016000000 }
  let entries : Dict :=
    [("-Na", .dictionary [(ChatParameter.timeStamp, .string "1657950000000")]),
     ("-Nb", .dictionary [(ChatParameter.timeStamp, .string "1657950001000")])]
  have hfmt : fmt.RoundTrips := by
    intro t
    by_cases ht : t < 1658016000000 <;> simp [fmt, ht]
  have hties : NoTies [] entries := by
    unfold NoTies
    decide
  exact ⟨fmt, entries, hfmt, rfl, ((transcript_of_snapshot [] hfmt entries).1.mpr hties) _ _
    (.refl _) (List.reverse_perm _) _ _⟩

/-- Two messages of the same millisecond are shown in the order the dictionary happens to have. -/
theorem transcript_depends_on_enumeration :
    ¬ ∀ (userDetails entries d d' : Dict), d.Perm entries → d'.Perm entries →
      ∀ h h' : ChatHalper, delivered userDetails d h = delivered userDetails d' h' := by
  intro hall
  let entries : Dict :=
    [("-Na", .dictionary [(ChatParameter.timeStamp, .string "1657950000000")]),
     ("-Nb", .dictionary [(ChatParameter.timeStamp, .string "1657950000000")])]
  have := hall [] entries entries entries.reverse (.refl _) (List.reverse_perm _) {} {}
  revert this
  decide

/-! ## What the table has read -/

/-- One delivery: the value of the snapshot, and what `filterMessageArray` takes from outside. -/
structure Delivery where
  snapshot : Option AnyValue
  env : Surroundings

/-- The shared arrays and one chat table. -/
structure ChatScreen where
  halper : ChatHalper := {}
  messages : ChatTableView := {}

variable (fmt)

/-- The observer body followed by the callback of `receiveMessageOneToOne`. -/
def ChatScreen.deliver (s : ChatScreen) (d : Delivery) : ChatScreen :=
  let (halper, message) := messageObserver userDetails d.snapshot s.halper
  { halper := halper, messages := s.messages.receive fmt d.env message }

/-- The sections and rows of a delivered snapshot. -/
def Delivery.shown (d : Delivery) : List MessageGroup :=
  sections fmt d.env (transcript userDetails d.snapshot)

/-- The snapshot holds no messages: it does not exist, or has no entries. -/
def Delivery.Empty (d : Delivery) : Prop := snapshotEntries d.snapshot = []

theorem transcript_eq_nil_iff (snapshot : Option AnyValue) :
    transcript userDetails snapshot = [] ↔ snapshotEntries snapshot = [] := by
  have hlen := (sortOn_perm MessageClass.sendingTime
    ((snapshotEntries snapshot).map (decodeMessage userDetails))).length_eq
  rw [List.length_map] at hlen
  rw [← List.length_eq_zero_iff, ← List.length_eq_zero_iff, transcript, hlen]

theorem ChatScreen.deliver_eq (s : ChatScreen) (d : Delivery) :
    s.deliver userDetails fmt d =
      { halper := { s.halper with messageclass := transcript userDetails d.snapshot }
        messages := s.messages.receive fmt d.env (transcript userDetails d.snapshot) } := by
  rw [ChatScreen.deliver, messageObserver_eq]

/-- Without messages the loop does not run, and UIKit keeps what it read. -/
theorem rendered_deliver_of_empty (s : ChatScreen) {d : Delivery} (h : d.Empty) :
    (s.deliver userDetails fmt d).messages.rendered = s.messages.rendered := by
  have hnil := (transcript_eq_nil_iff userDetails d.snapshot).mpr h
  simp only [ChatScreen.deliver_eq, ChatTableView.receive, filterMessageArray_eq, Option.getD_some,
    hnil, if_pos]

/-- With messages the last round of the loop reloads, and UIKit reads their sections. -/
theorem rendered_deliver_of_not_empty (s : ChatScreen) {d : Delivery} (h : ¬ d.Empty) :
    (s.deliver userDetails fmt d).messages.rendered = d.shown userDetails fmt := by
  have hne := mt (transcript_eq_nil_iff userDetails d.snapshot).mp h
  simp only [ChatScreen.deliver_eq, ChatTableView.receive, filterMessageArray_eq, Option.getD_some,
    hne, if_false, Delivery.shown]

theorem shown_of_empty {d : Delivery} (h : d.Empty) : d.shown userDetails fmt = [] := by
  rw [Delivery.shown, (transcript_eq_nil_iff userDetails d.snapshot).mpr h, sections_nil]

theorem shown_ne_nil {d : Delivery} (h : ¬ d.Empty) : d.shown userDetails fmt ≠ [] := by
  apply sections_ne_nil
  rwa [Ne, transcript_eq_nil_iff]

/-- The state after the deliveries `ds`. -/
def ChatScreen.deliverAll (s : ChatScreen) (ds : List Delivery) : ChatScreen :=
  ds.foldl (ChatScreen.deliver userDetails fmt) s

theorem ChatScreen.deliverAll_concat (s : ChatScreen) (ds : List Delivery) (d : Delivery) :
    s.deliverAll userDetails fmt (ds ++ [d]) =
      (s.deliverAll userDetails fmt ds).deliver userDetails fmt d := by
  rw [deliverAll, List.foldl_append]
  rfl

/-- A table that was empty at first has read something exactly when a snapshot held messages. -/
theorem rendered_eq_nil_iff (s : ChatScreen) (hs : s.messages.rendered = []) (ds : List Delivery) :
    (s.deliverAll userDetails fmt ds).messages.rendered = [] ↔ ∀ d ∈ ds, d.Empty := by
  induction ds using List.reverseRecOn with
  | nil => simpa [ChatScreen.deliverAll] using hs
  | append_singleton ds d ih =>
    rw [ChatScreen.deliverAll_concat, List.forall_mem_append, List.forall_mem_singleton]
    by_cases hd : d.Empty
    · rw [rendered_deliver_of_empty userDetails fmt _ hd, ih]
      exact ⟨fun h => ⟨h, hd⟩, fun h => h.1⟩
    · rw [rendered_deliver_of_not_empty userDetails fmt _ hd]
      exact ⟨fun h => absurd h (shown_ne_nil userDetails fmt hd), fun h => absurd h.2 hd⟩

/-- After every delivery of the run the table has read the sections of that delivery. -/
def ShowsLast (s : ChatScreen) (ds : List Delivery) : Prop :=
  Along (fun earlier d =>
    (s.deliverAll userDetails fmt (earlier ++ [d])).messages.rendered = d.shown userDetails fmt) ds

/-- One more delivery keeps the law exactly when it has messages or none before it had. -/
theorem rendered_concat_iff (s : ChatScreen) (hs : s.messages.rendered = []) (ds : List Delivery)
    (d : Delivery) :
    (s.deliverAll userDetails fmt (ds ++ [d])).messages.rendered = d.shown userDetails fmt ↔
      ∀ d' ∈ ds, ¬ d'.Empty → ¬ d.Empty := by
  rw [ChatScreen.deliverAll_concat]
  by_cases hd : d.Empty
  · rw [rendered_deliver_of_empty userDetails fmt _ hd, shown_of_empty userDetails fmt hd,
      rendered_eq_nil_iff userDetails fmt s hs]
    simp only [hd, not_true_eq_false, imp_false, not_not]
  · rw [rendered_deliver_of_not_empty userDetails fmt _ hd]
    exact ⟨fun _ _ _ _ => hd, fun _ => rfl⟩

/-- **What the table shows over a run of deliveries.**  A fresh table has read the sections of the
last snapshot after every delivery exactly when no snapshot without messages comes after one
with messages. -/
theorem table_shows_last_snapshot_iff (halper : ChatHalper) (ds : List Delivery) :
    ShowsLast userDetails fmt { halper := halper } ds ↔
      ds.Pairwise fun d d' => ¬ d.Empty → ¬ d'.Empty := by
  unfold ShowsLast
  induction ds using List.reverseRecOn with
  | nil => exact ⟨fun _ => List.Pairwise.nil, fun _ => along_nil _⟩
  | append_singleton ds d ih =>
    rw [along_concat, ih, rendered_concat_iff userDetails fmt _ rfl, List.pairwise_append]
    simp

/-- A set enumerated like the list without its repetitions. -/
def Surroundings.dedup : Surroundings where
  toArray := List.dedup
  nodup := List.nodup_dedup
  mem_iff := fun _ _ => List.mem_dedup
  now := fun _ => 0

/-- A calendar on which every time is on 16 July 2022. -/
def oneDay : DayFormat where
  dayString := fun _ => "07/16/2022"
  date := fun _ => some 1657929600000

/-- A conversation of one message is deleted: the table still shows the message. -/
theorem table_shows_deleted_conversation :
    ¬ ∀ (userDetails : Dict) (fmt : DayFormat) (halper : ChatHalper) (ds : List Delivery),
      ShowsLast userDetails fmt { halper := halper } ds := by
  intro hall
  let message : AnyValue :=
    .dictionary [("-Na", .dictionary [(ChatParameter.timeStamp, .string "1657950000000")])]
  have h := hall [] oneDay {} [⟨some message, .dedup⟩, ⟨none, .dedup⟩] [⟨some message, .dedup⟩] ⟨none, .dedup⟩
    (List.prefix_refl _)
  revert h
  decide

end ChatApplication
