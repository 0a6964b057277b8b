import ChatApplication.Transcript

/-!
# The index paths of the chat table (`ChatTableView.swift`)

UIKit aborts the application when the data source is asked for a section it does not have, or when
`scrollToRow` is given an index path outside the counts the table has read.  Here every access
that can abort is partial, the counts are those that `reloadData` read, and the callbacks run
where UIKit runs them: in `layoutIfNeeded` inside the loop of `filterMessageArray`, between the
change of `messageSection` and `reloadData`; in layout passes of their own; and in the blocks that
`scrollToBottom` put on the main queue.

* `sectionLoopChecked_eq`, `deliverChecked_eq` — a delivery makes no bad access, and does what
  `ChatScreen.deliver` does.
* `InStep` — between handlers a table with sections has read exactly these, and none is empty.
* `table_indices_in_range` — no run of deliveries, layout passes and scroll blocks makes a bad
  access.
-/

namespace ChatApplication

open Runs StableSort

/-! ## Accesses -/

/-- An access that aborts the application. -/
inductive TableFault where
  | messageSection (index : Nat)
  | messageRow (index row : Nat)
  | scrollToRow (row index : Int)
  deriving DecidableEq, Repr

/-- What a layout pass asks the table for: the cell at an index path, or the header of a section. -/
inductive TableRequest where
  | cell (index row : Nat)
  | header (index : Nat)
  deriving DecidableEq, Repr

/-- The rows of a section. -/
def MessageGroup.rowCount (g : MessageGroup) : Nat := (g.message.map List.length).getD 0

namespace ChatTableView

/-- `messageSection[section]`. -/
def messageSectionAt (t : ChatTableView) (index : Nat) : Except TableFault MessageGroup :=
  match t.messageSection[index]? with
  | some messageObj => .ok messageObj
  | none => .error (.messageSection index)

/-- `numberOfSections(in:)`. -/
def numberOfSections (t : ChatTableView) : Nat := t.messageSection.length

/-- `tableView(_:numberOfRowsInSection:)`. -/
def numberOfRowsInSection (t : ChatTableView) (index : Nat) : Except TableFault Nat := do
  let messageObj ← t.messageSectionAt index
  return messageObj.rowCount

/-- `tableView(_:cellForRowAt:)`: the message given to `returnMessageCell`, or an empty cell. -/
def cellForRowAt (t : ChatTableView) (index row : Nat) : Except TableFault (Option MessageClass) := do
  if decide (index < t.messageSection.length) = false then return none
  let messageObj ← t.messageSectionAt index
  if messageObj.message.map (fun message => decide (row < message.length)) = some false then
    return none
  match messageObj.message with
  | none => return none
  | some message =>
    match message[row]? with
    | some m => return some m
    | none => .error (.messageRow index row)

/-- `tableView(_:viewForHeaderInSection:)`: the label of the section, or an empty view. -/
def viewForHeaderInSection {τ : Type} (label : MessageGroup → τ) (t : ChatTableView) (index : Nat) :
    Except TableFault (Option τ) := do
  if decide (index < t.messageSection.length) = false then return none
  let messageObj ← t.messageSectionAt index
  return some (label messageObj)

/-- One request of a layout pass. -/
def ask (t : ChatTableView) : TableRequest → Except TableFault Unit
  | .cell index row => do
    let _ ← t.cellForRowAt index row
    return ()
  | .header index => do
    let _ ← t.viewForHeaderInSection MessageGroup.sendingTime index
    return ()

/-- A layout pass. -/
def layoutIfNeeded (t : ChatTableView) (requests : List TableRequest) : Except TableFault Unit :=
  requests.forM t.ask

/-- The counts `reloadData` reads: `numberOfSections`, then the rows of every section. -/
def readCounts (t : ChatTableView) : Except TableFault (List Nat) :=
  (List.range t.numberOfSections).mapM t.numberOfRowsInSection

/-- `scrollToRow(at:at:animated:)` on a table that has read the given counts. -/
def scrollToRow (counts : List Nat) (row index : Int) : Except TableFault Unit :=
  if 0 ≤ index ∧ index < counts.length ∧ 0 ≤ row ∧ row < counts.getD index.toNat 0 then .ok ()
  else .error (.scrollToRow row index)

/-- The block of `scrollToBottom`. -/
def scrollBlock (t : ChatTableView) (counts : List Nat) : Except TableFault Unit :=
  if getint (some (.int t.messageSection.length)) ≠ 0 then
    let arr := t.messageSection.getLast?.bind MessageGroup.message
    scrollToRow counts (((arr.map List.length).getD 0 : Nat) - 1) (t.messageSection.length - 1)
  else .ok ()

end ChatTableView

/-! ## The system -/

/-- A chat screen and the counts its table read at the latest `reloadData`. -/
structure TableScreen where
  screen : ChatScreen := {}
  counts : List Nat := []

/-- A table and the counts it has read. -/
abbrev CountedTable := ChatTableView × List Nat

variable (userDetails : Dict) (fmt : DayFormat)

/-- The loop body of `filterMessageArray`, with every access; `layout` are the requests of the
layout pass that `layoutIfNeeded` makes. -/
def sectionLoopChecked (env : Surroundings) (layout : String → List TableRequest) (s : CountedTable)
    (time : String) : Except TableFault CountedTable := do
  let (t, _) := s
  let appended := t.messageSection ++ [ChatTableView.dayGroup fmt env (t.message.getD []) time]
  let t := { t with messageSection := sortOn ChatTableView.sectionTime appended }
  t.layoutIfNeeded (layout time)
  let t := t.scrollToBottom
  let counts ← t.readCounts
  return (t.reloadData, counts)

/-- `filterMessageArray`, with every access. -/
def filterMessageArrayChecked (env : Surroundings) (layout : String → List TableRequest)
    (s : CountedTable) : Except TableFault CountedTable :=
  let (t, counts) := s
  let cleared := { t with messageSection := [] }
  (env.toArray (ChatTableView.timeStampArray fmt (t.message.getD []))).foldlM
    (sectionLoopChecked fmt env layout) (cleared, counts)

/-- The observer body followed by the callback of `receiveMessageOneToOne`, with every access. -/
def TableScreen.deliverChecked (s : TableScreen) (d : Delivery) (layout : String → List TableRequest) :
    Except TableFault TableScreen := do
  let (halper, message) := messageObserver userDetails d.snapshot s.screen.halper
  let (t, counts) ← filterMessageArrayChecked fmt d.env layout
    ({ s.screen.messages with message := some message }, s.counts)
  return { screen := { halper := halper, messages := t }, counts := counts }

/-- What happens to a chat table: a snapshot is delivered, UIKit lays the table out, or the main
queue runs the next block of `scrollToBottom`. -/
inductive TableEvent where
  | deliver (d : Delivery) (layout : String → List TableRequest)
  | layout (requests : List TableRequest)
  | scroll

/-- One event. -/
def TableScreen.handle (s : TableScreen) : TableEvent → Except TableFault TableScreen
  | .deliver d layout => s.deliverChecked userDetails fmt d layout
  | .layout requests => do
    s.screen.messages.layoutIfNeeded requests
    return s
  | .scroll =>
    match s.screen.messages.pendingScrolls with
    | 0 => return s
    | pending + 1 => do
      s.screen.messages.scrollBlock s.counts
      return { s with
        screen := { s.screen with
          messages := { s.screen.messages with pendingScrolls := pending } } }

/-! ## Callbacks and counts -/

namespace ChatTableView

theorem messageSectionAt_of_lt {t : ChatTableView} {index : Nat} (h : index < t.messageSection.length) :
    t.messageSectionAt index = .ok t.messageSection[index] := by
  rw [messageSectionAt, List.getElem?_eq_getElem h]

theorem cellForRowAt_ok (t : ChatTableView) (index row : Nat) :
    ∃ cell, t.cellForRowAt index row = .ok cell := by
  unfold cellForRowAt
  by_cases hindex : index < t.messageSection.length
  · rw [messageSectionAt_of_lt hindex]
    simp only [hindex, decide_true, Bool.true_eq_false, if_false, bind, Except.bind]
    cases t.messageSection[index].message with
    | none => exact ⟨none, rfl⟩
    | some message =>
      by_cases hrow : row < message.length
      · exact ⟨some message[row], by simp [hrow, pure, Except.pure]⟩
      · exact ⟨none, by simp [hrow, pure, Except.pure]⟩
  · exact ⟨none, by simp [hindex, pure, Except.pure]⟩

theorem viewForHeaderInSection_of_lt {τ : Type} (label : MessageGroup → τ) {t : ChatTableView}
    {index : Nat} (h : index < t.messageSection.length) :
    t.viewForHeaderInSection label index = .ok (some (label t.messageSection[index])) := by
  unfold viewForHeaderInSection
  rw [messageSectionAt_of_lt h]
  simp [h, bind, Except.bind, pure, Except.pure]

theorem viewForHeaderInSection_of_not_lt {τ : Type} (label : MessageGroup → τ) {t : ChatTableView}
    {index : Nat} (h : ¬ index < t.messageSection.length) :
    t.viewForHeaderInSection label index = .ok none := by
  simp [viewForHeaderInSection, h, pure, Except.pure]

/-- The guards of the callbacks cover every index path, also those of counts read before. -/
theorem ask_ok (t : ChatTableView) (r : TableRequest) : t.ask r = .ok () := by
  cases r with
  | cell index row =>
    obtain ⟨cell, hcell⟩ := t.cellForRowAt_ok index row
    rw [ask, hcell]
    rfl
  | header index =>
    by_cases h : index < t.messageSection.length
    · rw [ask, viewForHeaderInSection_of_lt _ h]
      rfl
    · rw [ask, viewForHeaderInSection_of_not_lt _ h]
      rfl

theorem layoutIfNeeded_ok (t : ChatTableView) (requests : List TableRequest) :
    t.layoutIfNeeded requests = .ok () := by
  unfold layoutIfNeeded
  induction requests with
  | nil => rfl
  | cons r requests ih =>
    show (t.ask r >>= fun _ => requests.forM t.ask) = .ok ()
    rw [ask_ok]
    exact ih

theorem mapM_numberOfRowsInSection (t : ChatTableView) (indices : List Nat)
    (h : ∀ i ∈ indices, i < t.messageSection.length) :
    indices.mapM t.numberOfRowsInSection =
      .ok (indices.map fun i => (t.messageSection.map MessageGroup.rowCount).getD i 0) := by
  induction indices with
  | nil => rfl
  | cons i indices ih =>
    have hi := h i List.mem_cons_self
    rw [List.mapM_cons, numberOfRowsInSection, messageSectionAt_of_lt hi,
      ih fun j hj => h j (List.mem_cons_of_mem _ hj)]
    simp [bind, Except.bind, pure, Except.pure, hi]

/-- `reloadData` asks only for the sections there are. -/
theorem readCounts_ok (t : ChatTableView) :
    t.readCounts = .ok (t.messageSection.map MessageGroup.rowCount) := by
  have hlt : ∀ i ∈ List.range t.numberOfSections, i < t.messageSection.length := fun i hi =>
    List.mem_range.mp hi
  rw [readCounts, mapM_numberOfRowsInSection t _ hlt]
  congr 1
  refine List.ext_getElem (by simp [numberOfSections]) fun i hi _ => ?_
  have hlen : i < t.messageSection.length := by simpa [numberOfSections] using hi
  simp [hlen]

end ChatTableView

/-! ## Deliveries -/

/-- The loop body makes no bad access, and does what `sectionLoop` does. -/
theorem sectionLoopChecked_eq (env : Surroundings) (layout : String → List TableRequest)
    (s : CountedTable) (time : String) :
    sectionLoopChecked fmt env layout s time =
      .ok (ChatTableView.sectionLoop fmt env s.1 time,
        (ChatTableView.sectionLoop fmt env s.1 time).messageSection.map MessageGroup.rowCount) := by
  simp only [sectionLoopChecked, ChatTableView.layoutIfNeeded_ok, ChatTableView.readCounts_ok, bind,
    Except.bind]
  rfl

/-- The counts after the loop are those of its sections, unless it did not run. -/
theorem foldlM_sectionLoopChecked (env : Surroundings) (layout : String → List TableRequest)
    (days : List String) (s : CountedTable) :
    days.foldlM (sectionLoopChecked fmt env layout) s =
      .ok (days.foldl (ChatTableView.sectionLoop fmt env) s.1,
        if days = [] then s.2 else
          (days.foldl (ChatTableView.sectionLoop fmt env) s.1).messageSection.map
            MessageGroup.rowCount) := by
  rw [foldlM_eq_ok_foldl (sectionLoopChecked_eq fmt env layout)]
  congr 1
  induction days using List.reverseRecOn with
  | nil => rfl
  | append_singleton days day ih => simp [ih]

theorem filterMessageArrayChecked_eq (env : Surroundings) (layout : String → List TableRequest)
    (s : CountedTable) :
    filterMessageArrayChecked fmt env layout s =
      .ok (s.1.filterMessageArray fmt env,
        if s.1.message.getD [] = [] then s.2 else
          (s.1.filterMessageArray fmt env).messageSection.map MessageGroup.rowCount) := by
  obtain ⟨t, counts⟩ := s
  have hdays := ChatTableView.toArray_timeStampArray_eq_nil_iff fmt env (t.message.getD [])
  have hloop := foldlM_sectionLoopChecked fmt env layout
    (env.toArray (ChatTableView.timeStampArray fmt (t.message.getD [])))
    ({ t with messageSection := [] }, counts)
  simp only [hdays] at hloop
  exact hloop

/-- **A delivery makes no bad access** and does what `ChatScreen.deliver` does; the table has read
the new counts exactly when there was a message. -/
theorem TableScreen.deliverChecked_eq (s : TableScreen) (d : Delivery)
    (layout : String → List TableRequest) :
    s.deliverChecked userDetails fmt d layout =
      .ok { screen := s.screen.deliver userDetails fmt d
            counts :=
              if transcript userDetails d.snapshot = [] then s.counts else
                (d.shown userDetails fmt).map MessageGroup.rowCount } := by
  unfold TableScreen.deliverChecked
  simp only [messageObserver_eq, filterMessageArrayChecked_eq, bind, Except.bind, pure, Except.pure,
    ChatScreen.deliver_eq, ChatTableView.receive, Option.getD_some]
  rw [ChatTableView.filterMessageArray_eq]
  rfl

/-! ## Runs -/

/-- A table with sections has read exactly these, and none of them is empty. -/
def InStep (s : TableScreen) : Prop :=
  s.screen.messages.messageSection ≠ [] →
    s.counts = s.screen.messages.messageSection.map MessageGroup.rowCount ∧
      ∀ g ∈ s.screen.messages.messageSection, 0 < g.rowCount

theorem ChatTableView.rowCount_pos_of_mem_sections (env : Surroundings) {messages : List MessageClass}
    {g : MessageGroup} (h : g ∈ ChatTableView.sections fmt env messages) : 0 < g.rowCount := by
  rw [ChatTableView.sections, mem_sortOn] at h
  obtain ⟨day, hday, rfl⟩ := List.mem_map.mp h
  obtain ⟨m, hm, rfl⟩ := List.mem_map.mp ((env.mem_iff _ _).mp hday)
  show 0 < (messages.filter _).length
  exact List.length_pos_of_mem (List.mem_filter.mpr ⟨hm, by simp⟩)

theorem InStep.deliver (s : TableScreen) (d : Delivery) :
    InStep { screen := s.screen.deliver userDetails fmt d
             counts :=
               if transcript userDetails d.snapshot = [] then s.counts else
                 (d.shown userDetails fmt).map MessageGroup.rowCount } := by
  have hsections : (s.screen.deliver userDetails fmt d).messages.messageSection =
      d.shown userDetails fmt := by
    rw [ChatScreen.deliver_eq, ChatTableView.receive, ChatTableView.filterMessageArray_eq]
    rfl
  intro hne
  simp only [hsections] at hne ⊢
  have hmessages : transcript userDetails d.snapshot ≠ [] := by
    intro hnil
    rw [Delivery.shown, hnil, ChatTableView.sections_nil] at hne
    exact hne rfl
  rw [if_neg hmessages]
  exact ⟨rfl, fun g hg => ChatTableView.rowCount_pos_of_mem_sections fmt d.env hg⟩

/-- The block of `scrollToBottom` scrolls to the last row of the last section, which the table has
read. -/
theorem scrollBlock_ok {s : TableScreen} (h : InStep s) :
    s.screen.messages.scrollBlock s.counts = .ok () := by
  unfold ChatTableView.scrollBlock
  by_cases hnil : s.screen.messages.messageSection = []
  · rw [hnil]
    rfl
  · obtain ⟨hcounts, hpos⟩ := h hnil
    have hlen : 0 < s.screen.messages.messageSection.length := List.length_pos_of_ne_nil hnil
    have hlast := hpos _ (List.getLast_mem hnil)
    have hcount : s.counts.getD (s.screen.messages.messageSection.length - 1) 0 =
        (s.screen.messages.messageSection.getLast hnil).rowCount := by
      rw [hcounts, List.getLast_eq_getElem, List.getD_eq_getElem?_getD, List.getElem?_map,
        List.getElem?_eq_getElem (by omega)]
      rfl
    have hrow : ((s.screen.messages.messageSection.getLast?.bind MessageGroup.message).map
        List.length).getD 0 = (s.screen.messages.messageSection.getLast hnil).rowCount := by
      rw [List.getLast?_eq_some_getLast hnil]
      rfl
    have hindex : ((s.screen.messages.messageSection.length : Int) - 1).toNat =
        s.screen.messages.messageSection.length - 1 := by omega
    have hread : s.counts.length = s.screen.messages.messageSection.length := by
      rw [hcounts, List.length_map]
    have hne : getint (some (.int s.screen.messages.messageSection.length)) ≠ 0 := by
      show (s.screen.messages.messageSection.length : Int) ≠ 0
      omega
    simp only [hne, if_true, hrow, ne_eq, not_false_eq_true, ChatTableView.scrollToRow, hindex, hcount,
      hread]
    rw [if_pos (by omega)]

theorem InStep.handle {s : TableScreen} (h : InStep s) (e : TableEvent) :
    ∃ s', s.handle userDetails fmt e = .ok s' ∧ InStep s' := by
  cases e with
  | deliver d layout =>
    exact ⟨_, s.deliverChecked_eq userDetails fmt d layout, InStep.deliver userDetails fmt s d⟩
  | layout requests =>
    refine ⟨s, ?_, h⟩
    rw [TableScreen.handle, ChatTableView.layoutIfNeeded_ok]
    rfl
  | scroll =>
    unfold TableScreen.handle
    cases s.screen.messages.pendingScrolls with
    | zero => exact ⟨s, rfl, h⟩
    | succ pending =>
      let messages := { s.screen.messages with pendingScrolls := pending }
      refine ⟨{ s with screen := { s.screen with messages := messages } }, ?_, h⟩
      simp only [scrollBlock_ok h]
      rfl

/-- **No index of the chat table is ever out of range**: whatever snapshots are delivered, and
however layout passes and the blocks of `scrollToBottom` fall between and inside the handlers, no
access aborts. -/
theorem table_indices_in_range (es : List TableEvent) :
    ∃ s, es.foldlM (TableScreen.handle userDetails fmt) {} = .ok s := by
  have hinitial : InStep {} := fun h => absurd rfl h
  obtain ⟨s, hs, -⟩ := foldlM_invariant (fun s e h => InStep.handle userDetails fmt h e) es {} hinitial
  exact ⟨s, hs⟩

end ChatApplication
