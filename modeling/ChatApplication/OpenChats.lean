import ChatApplication.Lib.Indexed
import ChatApplication.Lib.Runs
import ChatApplication.SignIn
import ChatApplication.Transcript

/-!
# Open conversations

`receiveMessage` never removes an observer and all observers fill the one array
`ChatHalper.shared.messageclass`.  Every chat screen that was ever opened keeps its table and its
observer: the observer's callback holds the table.

## Events

* `opened receiver` — `ChatVC.viewDidLoad`: one more table, and one more observer unless a guard of
  `receiveMessage` returns.
* `delivered i node d` — the database delivers a snapshot of `node` to the observer of the `i`-th
  table, which must be registered on `node`.  Observer bodies run one at a time.

## Results

* `OpenChats.step_cases` — what one event can do.
* `open_chats_do_not_mix` — after every run every table holds the transcript of the last snapshot
  delivered to its own observer, which is one of its own conversation.
-/

namespace ChatApplication

open Indexed Runs

/-- A chat screen: the receiver it was opened for, the path its observer is registered on, and
its table. -/
structure OpenChat where
  receiver : Option UsersState
  observed : Option (List String)
  messages : ChatTableView := {}

/-- The shared arrays and all chat screens opened so far. -/
structure OpenChats where
  halper : ChatHalper := {}
  chats : List OpenChat := []

inductive OpenEvent where
  | opened (receiver : Option UsersState)
  | delivered (i : Nat) (node : List String) (d : Delivery)

/-- `receiveMessageOneToOne(receiverId:)` for the receiver of a chat screen. -/
def receiveMessageOneToOne (defaults : UserDefaults) (receiver : Option UsersState) :
    Except NSException (Option (List String)) :=
  receiveMessage defaults (getstringOf (receiver.bind UsersState.userId))

variable (defaults : UserDefaults) (fmt : DayFormat)

/-- The observer body of one chat, on the arrays all chats share. -/
def OpenChats.deliverTo (s : OpenChats) (i : Nat) (chat : OpenChat) (d : Delivery) : OpenChats :=
  let screen := ChatScreen.deliver defaults.getuserDetails fmt ⟨s.halper, chat.messages⟩ d
  { halper := screen.halper, chats := s.chats.set i { chat with messages := screen.messages } }

/-- One event.  An `NSException` of `child(_:)` ends the run. -/
def OpenChats.step (s : OpenChats) : OpenEvent → Option OpenChats
  | .opened receiver =>
    match receiveMessageOneToOne defaults receiver with
    | .error _ => none
    | .ok observed => some { s with chats := s.chats ++ [⟨receiver, observed, {}⟩] }
  | .delivered i node d =>
    match s.chats[i]? with
    | none => none
    | some chat => if chat.observed = some node then some (s.deliverTo defaults fmt i chat d) else none

theorem OpenChats.step_cases {s s' : OpenChats} {e : OpenEvent}
    (h : s.step defaults fmt e = some s') :
    (∃ receiver observed, e = .opened receiver ∧
      receiveMessageOneToOne defaults receiver = .ok observed ∧
      s' = { s with chats := s.chats ++ [⟨receiver, observed, {}⟩] }) ∨
    (∃ i node d chat, e = .delivered i node d ∧ s.chats[i]? = some chat ∧
      chat.observed = some node ∧ s' = s.deliverTo defaults fmt i chat d) := by
  cases e with
  | opened receiver =>
    simp only [OpenChats.step] at h
    split at h
    · cases h
    · rename_i observed hobs
      cases h
      exact .inl ⟨receiver, observed, rfl, hobs, rfl⟩
  | delivered i node d =>
    simp only [OpenChats.step] at h
    split at h
    · cases h
    · rename_i chat hchat
      split at h
      · rename_i hnode
        cases h
        exact .inr ⟨i, node, d, chat, rfl, hchat, hnode, rfl⟩
      · cases h

/-! ## What was delivered to an observer -/

/-- The node and delivery of an event that reaches the observer of the `i`-th table. -/
def OpenEvent.deliveryTo (i : Nat) : OpenEvent → Option (List String × Delivery)
  | .opened _ => none
  | .delivered j node d => if j = i then some (node, d) else none

/-- The last delivery of a run to the observer of the `i`-th table. -/
def lastDelivery (i : Nat) (es : List OpenEvent) : Option (List String × Delivery) :=
  (es.filterMap (OpenEvent.deliveryTo i)).getLast?

theorem lastDelivery_concat (i : Nat) (es : List OpenEvent) (e : OpenEvent) :
    lastDelivery i (es ++ [e]) = (e.deliveryTo i).or (lastDelivery i es) := by
  unfold lastDelivery
  rw [List.filterMap_append, List.getLast?_append]
  cases h : e.deliveryTo i <;> simp [h]

/-- What a table holds when `last` was the last delivery to its observer. -/
def OpenChat.Holds (chat : OpenChat) : Option (List String × Delivery) → Prop
  | none => chat.messages.message = none
  | some (node, d) => chat.observed = some node ∧
      chat.messages.message = some (transcript defaults.getuserDetails d.snapshot)

/-- Every table observes the node of its receiver and holds what was delivered last to it; nothing
was delivered to a table that does not exist. -/
structure OpenInv (es : List OpenEvent) (s : OpenChats) : Prop where
  observed : ∀ chat ∈ s.chats, receiveMessageOneToOne defaults chat.receiver = .ok chat.observed
  holds : ∀ (i : Nat) (chat : OpenChat), s.chats[i]? = some chat → chat.Holds defaults (lastDelivery i es)
  fresh : ∀ i, s.chats.length ≤ i → lastDelivery i es = none

theorem OpenInv.initial : OpenInv defaults [] {} :=
  ⟨fun _ h => absurd h List.not_mem_nil, fun i chat h => by simp at h, fun _ _ => rfl⟩

/-- The observer body leaves the new transcript in its own table, whatever the shared array
held. -/
theorem message_deliver (s : ChatScreen) (d : Delivery) :
    (s.deliver defaults.getuserDetails fmt d).messages.message =
      some (transcript defaults.getuserDetails d.snapshot) := by
  rw [ChatScreen.deliver_eq, ChatTableView.receive, ChatTableView.filterMessageArray_eq]

theorem OpenInv.opened {es : List OpenEvent} {s : OpenChats} (hinv : OpenInv defaults es s)
    {receiver : Option UsersState} {observed : Option (List String)}
    (hobs : receiveMessageOneToOne defaults receiver = .ok observed) :
    OpenInv defaults (es ++ [.opened receiver])
      { s with chats := s.chats ++ [⟨receiver, observed, {}⟩] } := by
  have hlast : ∀ i, lastDelivery i (es ++ [.opened receiver]) = lastDelivery i es := by
    intro i
    rw [lastDelivery_concat]
    rfl
  refine ⟨?_, ?_, ?_⟩
  · intro chat hchat
    rcases List.mem_append.mp hchat with hchat | hchat
    · exact hinv.observed chat hchat
    · rw [List.mem_singleton] at hchat
      subst hchat
      exact hobs
  · simp only [hlast]
    refine forall_getElem?_concat ?_ hinv.holds
    rw [hinv.fresh _ le_rfl]
    rfl
  · intro i hi
    rw [hlast]
    rw [List.length_append] at hi
    exact hinv.fresh i (by omega)

theorem OpenInv.delivered {es : List OpenEvent} {s : OpenChats} (hinv : OpenInv defaults es s)
    {i : Nat} {node : List String} {chat : OpenChat} (d : Delivery) (hchat : s.chats[i]? = some chat)
    (hnode : chat.observed = some node) :
    OpenInv defaults (es ++ [.delivered i node d]) (s.deliverTo defaults fmt i chat d) := by
  have hlt : i < s.chats.length := (List.getElem?_eq_some_iff.mp hchat).1
  have hself : lastDelivery i (es ++ [.delivered i node d]) = some (node, d) := by
    simp [lastDelivery_concat, OpenEvent.deliveryTo]
  have hother : ∀ j, i ≠ j → lastDelivery j (es ++ [.delivered i node d]) = lastDelivery j es := by
    intro j hij
    simp [lastDelivery_concat, OpenEvent.deliveryTo, hij]
  refine ⟨?_, ?_, ?_⟩
  · intro c hc
    rcases List.mem_or_eq_of_mem_set hc with hc | rfl
    · exact hinv.observed c hc
    · exact hinv.observed chat (List.mem_of_getElem? hchat)
  · refine forall_getElem?_set ?_ fun j c hji hc => ?_
    · rw [hself]
      exact ⟨hnode, message_deliver defaults fmt _ d⟩
    · rw [hother j (Ne.symm hji)]
      exact hinv.holds j c hc
  · intro j hj
    rw [OpenChats.deliverTo, List.length_set] at hj
    rw [hother j (by omega)]
    exact hinv.fresh j hj

theorem OpenInv.of_run {es : List OpenEvent} {s : OpenChats}
    (h : run (OpenChats.step defaults fmt) {} es = some s) : OpenInv defaults es s := by
  induction es using List.reverseRecOn generalizing s with
  | nil =>
    cases h
    exact OpenInv.initial defaults
  | append_singleton es e ih =>
    obtain ⟨s₀, hrun, hstep⟩ := run_concat_eq_some.mp h
    obtain ⟨receiver, observed, rfl, hobs, rfl⟩ | ⟨i, node, d, chat, rfl, hchat, hnode, rfl⟩ :=
      OpenChats.step_cases defaults fmt hstep
    · exact (ih hrun).opened defaults hobs
    · exact (ih hrun).delivered defaults fmt d hchat hnode

/-- **Open conversations do not mix.**  After every run, a table to whose observer a snapshot was
delivered holds the decoded, time-sorted entries of the last such snapshot, which is one of the
node of its own receiver, and a table without a delivery holds nothing. -/
theorem open_chats_do_not_mix {es : List OpenEvent} {s : OpenChats}
    (hrun : run (OpenChats.step defaults fmt) {} es = some s) {i : Nat} {chat : OpenChat}
    (hchat : s.chats[i]? = some chat) :
    (∀ node d, lastDelivery i es = some (node, d) →
      receiveMessageOneToOne defaults chat.receiver = .ok (some node) ∧
        chat.messages.message = some (transcript defaults.getuserDetails d.snapshot)) ∧
    (lastDelivery i es = none → chat.messages.message = none) := by
  have hinv := OpenInv.of_run defaults fmt hrun
  have hholds := hinv.holds i chat hchat
  constructor
  · intro node d hlast
    rw [hlast] at hholds
    obtain ⟨hnode, hmessage⟩ := hholds
    rw [hinv.observed chat (List.mem_of_getElem? hchat), hnode]
    exact ⟨rfl, hmessage⟩
  · intro hlast
    rw [hlast] at hholds
    exact hholds

/-- User `1` opens chats with `2` and `3`; a message of the first and the empty second are
delivered, in this order. -/
theorem open_chats_do_not_mix_two :
    ∃ (defaults : UserDefaults) (fmt : DayFormat) (es : List OpenEvent) (s : OpenChats) (chat : OpenChat),
      run (OpenChats.step defaults fmt) {} es = some s ∧ es.length = 4 ∧ s.chats[0]? = some chat ∧
        (chat.messages.message.getD []).map MessageClass.uid = [some "-Na"] := by
  let defaults := savedDefaults "" ⟨"1", "", "", ""⟩
  let message : AnyValue :=
    .dictionary [("-Na", .dictionary [(ChatParameter.timeStamp, .string "1657950000000")])]
  let es : List OpenEvent :=
    [.opened (some { userId := some "2" }), .opened (some { userId := some "3" }),
     .delivered 0 [ChatParameter.Message, "2_1"] ⟨some message, .dedup⟩,
     .delivered 1 [ChatParameter.Message, "3_1"] ⟨none, .dedup⟩]
  have hsome : ((run (OpenChats.step defaults oneDay) {} es).bind fun s => s.chats[0]?).isSome := by decide
  obtain ⟨chat, hbind⟩ := Option.isSome_iff_exists.mp hsome
  obtain ⟨s, hrun, hchat⟩ := Option.bind_eq_some_iff.mp hbind
  have hlast : lastDelivery 0 es = some ([ChatParameter.Message, "2_1"], ⟨some message, .dedup⟩) := rfl
  refine ⟨defaults, oneDay, es, s, chat, hrun, rfl, hchat, ?_⟩
  rw [((open_chats_do_not_mix defaults oneDay hrun hchat).1 _ _ hlast).2]
  decide

end ChatApplication
