import Mathlib.Data.List.Chain
import Mathlib.Data.String.Basic
import ChatApplication.Firebase.Database
import ChatApplication.Halper.FirebaseModels
import ChatApplication.Lib.StableSort

/-!
# Sending and observing (`ChatHalper.swift`)

`ChatHalper.shared` writes messages and presence to the database and registers observers whose
bodies refill two shared arrays.  Functions that write return the write; functions that
register an observer return the observed path; the observer bodies are functions of their own.

* `sendMessage` — guards, node name, sender stamping, encoding, one `setValue`.
* `messageObserver_eq` — one delivery to a `receiveMessage` observer: whatever the shared array
  held, the callback gets the decoded entries in one stable sort by `sendingTime`.
* `messageObserverCalls_eq` — the callback of a conversation observer is called once.
* `foldl_userLoop`, `isChain_userLoop` — one delivery to a `receiveAllUsers` observer: after every
  entry the list passed to the callback holds the first record of every id met so far, without the
  signed-in one, and is a prefix of the next list.
-/

namespace ChatApplication

open StableSort FirstBy

/-! ## Node names -/

/-- `ChatHalper.createNode`. -/
def createNode (senderId receiverId : String) : String :=
  if senderId.isEmpty then receiverId
  else if receiverId < senderId then senderId ++ "_" ++ receiverId
  else receiverId ++ "_" ++ senderId

/-- `messageReference.child(createNode(…))`. -/
def messageNodePath (senderId receiverId : String) : Except NSException (List String) :=
  child [ChatParameter.Message] (createNode senderId receiverId)

/-! ## Sending -/

/-- A `setValue` on a reference. -/
structure Write where
  path : List String
  value : AnyValue

/-- The effect of `setValue` on the database. -/
def Write.apply (db : FNode) (w : Write) : FNode := db.put w.path (nodeFrom w.value)

/-- The message as `sendMessage` stamps it before encoding. -/
def stampMessage (userState : UsersState) (key : String) (messageDic : MessageClass) : MessageClass :=
  { messageDic with uid := some key, senderId := userState.userId, senderName := userState.name }

/-- `ChatHalper.sendMessage` on a device with the given `UserDefaults`; `key` is the key
`childByAutoId` generates and `now` the clock reading in milliseconds. -/
def sendMessage (defaults : UserDefaults) (key : String) (now : Int) (messageDic : MessageClass) :
    Except NSException (Option Write) :=
  let userState := UsersState.init defaults.getuserDetails
  if getstringOf userState.userId = ChatParameter.emptyString then .ok none
  else if getstringOf messageDic.receiverId = ChatParameter.emptyString then .ok none
  else
    match messageNodePath (userState.userId.getD "") (messageDic.receiverId.getD "") with
    | .error e => .error e
    | .ok path =>
      let message := (stampMessage userState key messageDic).createDictonary now
      .ok (some ⟨path ++ [key], .dictionary (getDictionary (some (.dictionary message)))⟩)

/-- An encoded message comes back from the database as it was written. -/
theorem valForExport_createDictonary (now : Int) (m : MessageClass) :
    valForExport (nodeFrom (.dictionary (m.createDictonary now))) =
      .dictionary (m.createDictonary now) := by
  obtain ⟨d, hd, hmem⟩ := MessageClass.createDictonary_strings now m
  rw [hd]
  exact valForExport_nodeFrom_strings hmem (by decide)

/-! ## Observing a conversation -/

/-- The shared arrays of `ChatHalper.shared`. -/
structure ChatHalper where
  messageclass : List MessageClass := []
  users : List UsersState := []
  deriving DecidableEq, Repr

/-- `ChatHalper.receiveMessage` up to the registration: the observed path, or nothing when a
guard returns. -/
def receiveMessage (defaults : UserDefaults) (receiverId : String) :
    Except NSException (Option (List String)) :=
  let userState := UsersState.init defaults.getuserDetails
  if getstringOf userState.userId = ChatParameter.emptyString then .ok none
  else if getstringOf (some receiverId) = ChatParameter.emptyString then .ok none
  else
    match messageNodePath (userState.userId.getD "") receiverId with
    | .error e => .error e
    | .ok path => .ok (some path)

/-- One child of a conversation node as a message. -/
def decodeMessage (userDetails : Dict) (entry : String × AnyValue) : MessageClass :=
  MessageClass.init userDetails (getstringOf (some entry.1)) (getDictionary (some entry.2))

/-- The loop body of the `receiveMessage` observer. -/
def messageLoop (userDetails : Dict) (h : ChatHalper) (entry : String × AnyValue) : ChatHalper :=
  let appended := h.messageclass ++ [decodeMessage userDetails entry]
  { h with messageclass := sortOn MessageClass.sendingTime appended }

/-- The observer body of `receiveMessage`: the shared arrays after it and the list passed to
the callback.  `none` is a snapshot that does not exist. -/
def messageObserver (userDetails : Dict) (snapshot : Option AnyValue) (h : ChatHalper) :
    ChatHalper × List MessageClass :=
  let cleared := { h with messageclass := [] }
  let filled :=
    match snapshot with
    | none => cleared
    | some value => (getDictionary (some value)).foldl (messageLoop userDetails) cleared
  (filled, filled.messageclass)

/-- The entries of a snapshot, in enumeration order. -/
def snapshotEntries : Option AnyValue → Dict
  | none => []
  | some value => getDictionary (some value)

/-- The decoded, time-sorted entries of a snapshot. -/
def transcript (userDetails : Dict) (snapshot : Option AnyValue) : List MessageClass :=
  sortOn MessageClass.sendingTime ((snapshotEntries snapshot).map (decodeMessage userDetails))

theorem foldl_messageLoop (userDetails : Dict) (entries : Dict) (h : ChatHalper) :
    entries.foldl (messageLoop userDetails) h =
      { h with
        messageclass := entries.foldl (fun acc e =>
          sortOn MessageClass.sendingTime (acc ++ [decodeMessage userDetails e])) h.messageclass } := by
  induction entries generalizing h with
  | nil => rfl
  | cons e entries ih => rw [List.foldl_cons, ih]; rfl

/-- **One delivery to a conversation observer**, whatever the shared array held before. -/
theorem messageObserver_eq (userDetails : Dict) (snapshot : Option AnyValue) (h : ChatHalper) :
    messageObserver userDetails snapshot h =
      ({ h with messageclass := transcript userDetails snapshot }, transcript userDetails snapshot) := by
  cases snapshot with
  | none => rfl
  | some value =>
    have hsorted : SortedOn MessageClass.sendingTime ([] : List MessageClass) := List.Pairwise.nil
    simp only [messageObserver, foldl_messageLoop, transcript, snapshotEntries,
      foldl_append_sortOn MessageClass.sendingTime _ _ _ hsorted, List.nil_append]

/-- The loop body again, with the lists passed to the callback so far. -/
def messageLoopCalls (userDetails : Dict) (st : ChatHalper × List (List MessageClass))
    (entry : String × AnyValue) : ChatHalper × List (List MessageClass) :=
  (messageLoop userDetails st.1 entry, st.2)

/-- The observer body of `receiveMessage` with every call of its callback. -/
def messageObserverCalls (userDetails : Dict) (snapshot : Option AnyValue) (h : ChatHalper) :
    ChatHalper × List (List MessageClass) :=
  let cleared := ({ h with messageclass := [] }, [])
  let (filled, calls) :=
    match snapshot with
    | none => cleared
    | some value => (getDictionary (some value)).foldl (messageLoopCalls userDetails) cleared
  (filled, calls ++ [filled.messageclass])

theorem foldl_messageLoopCalls (userDetails : Dict) (entries : Dict)
    (st : ChatHalper × List (List MessageClass)) :
    entries.foldl (messageLoopCalls userDetails) st =
      (entries.foldl (messageLoop userDetails) st.1, st.2) := by
  induction entries generalizing st with
  | nil => rfl
  | cons e entries ih => rw [List.foldl_cons, ih]; rfl

/-- The callback is called exactly once, with the list of `messageObserver`. -/
theorem messageObserverCalls_eq (userDetails : Dict) (snapshot : Option AnyValue) (h : ChatHalper) :
    messageObserverCalls userDetails snapshot h =
      ((messageObserver userDetails snapshot h).1, [(messageObserver userDetails snapshot h).2]) := by
  cases snapshot with
  | none => rfl
  | some value => simp only [messageObserverCalls, foldl_messageLoopCalls, messageObserver, List.nil_append]

/-! ## Presence -/

/-- `dictionary[key] = value`, repeatedly. -/
def Dict.setString (d : Dict) (key value : String) : Dict := List.upsert key (.string value) d

/-- `updateChildValues`: each entry replaces the child at its key. -/
def updateChildValues (path : List String) (values : Dict) (db : FNode) : FNode :=
  values.foldl (fun db e => db.put (path ++ pathPieces e.1) (nodeFrom e.2)) db

/-- `ChatHalper.onlineState` at the clock reading `now` (milliseconds). -/
def onlineState (defaults : UserDefaults) (now : Int) (state : String) (db : FNode) :
    Except NSException FNode :=
  let userDetails := defaults.getuserDetails
  let userID := userDetails.getstring ChatParameter.userId
  if userID = ChatParameter.emptyString then .ok db
  else
    let timeStamp := getstring (some (.int now))
    let userDetails := userDetails.setString ChatParameter.OnlineState (getstringOf (some state))
    let userDetails := userDetails.setString ChatParameter.timeStamp (getstringOf (some timeStamp))
    match child [ChatParameter.UserState] userID with
    | .error e => .error e
    | .ok path => .ok (updateChildValues path (getDictionary (some (.dictionary userDetails))) db)

/-! ## Observing the users -/

/-- One record of the user list. -/
def decodeUser (entry : String × AnyValue) : UsersState :=
  UsersState.init (getDictionary (some entry.2))

/-- One entry of the `receiveAllUsers` loop: filter, append, deduplicate. -/
def addUser (userDetails : Dict) (users : List UsersState) (entry : String × AnyValue) :
    List UsersState :=
  let userState := decodeUser entry
  let userID := userDetails.getstring ChatParameter.userId
  let appended := if some userID ≠ userState.userId then users ++ [userState] else users
  uniqueArray UsersState.userId appended

/-- The loop body of the `receiveAllUsers` observer; the second component collects the lists
passed to the callback. -/
def userLoop (userDetails : Dict) (st : ChatHalper × List (List UsersState))
    (entry : String × AnyValue) : ChatHalper × List (List UsersState) :=
  let users := addUser userDetails st.1.users entry
  ({ st.1 with users := users }, st.2 ++ [users])

/-- The observer body of `receiveAllUsers`: the shared arrays after it and the lists passed to
the callback, one per entry.  `none` is a snapshot that does not exist. -/
def userObserver (userDetails : Dict) (snapshot : Option AnyValue) (h : ChatHalper) :
    ChatHalper × List (List UsersState) :=
  let cleared := { h with users := [] }
  match snapshot with
  | none => (cleared, [])
  | some value => (getDictionary (some value)).foldl (userLoop userDetails) (cleared, [])

/-- The users of a list of records other than the signed-in one, the first record of each id. -/
def usersOf (userDetails : Dict) (entries : Dict) : List UsersState :=
  firstBy UsersState.userId ((entries.map decodeUser).filter
    fun u => some (userDetails.getstring ChatParameter.userId) ≠ u.userId)

theorem usersOf_concat (userDetails : Dict) (entries : Dict) (e : String × AnyValue) :
    usersOf userDetails (entries ++ [e]) =
      if some (userDetails.getstring ChatParameter.userId) ≠ (decodeUser e).userId then
        insertNew UsersState.userId (usersOf userDetails entries) (decodeUser e)
      else usersOf userDetails entries := by
  unfold usersOf
  rw [List.map_append, List.filter_append]
  split
  · rename_i he
    rw [← firstBy_concat]
    simp [he]
  · rename_i he
    simp [he]

theorem addUser_usersOf (userDetails : Dict) (entries : Dict) (e : String × AnyValue) :
    addUser userDetails (usersOf userDetails entries) e = usersOf userDetails (entries ++ [e]) := by
  have hself : firstBy UsersState.userId (usersOf userDetails entries) = usersOf userDetails entries :=
    firstBy_eq_self _ (firstBy_nodup _ _)
  rw [usersOf_concat, addUser, uniqueArray_eq_firstBy]
  split
  · rw [firstBy_concat, hself]
  · exact hself

/-- After every entry the shared array, and the list just passed to the callback, are the users
of the entries handled so far. -/
theorem foldl_userLoop (userDetails : Dict) (entries : Dict) (h : ChatHalper) :
    (entries.foldl (userLoop userDetails) ({ h with users := [] }, [])).1 =
        { h with users := usersOf userDetails entries } ∧
      (entries.foldl (userLoop userDetails) ({ h with users := [] }, [])).2.getLast? =
        if entries = [] then none else some (usersOf userDetails entries) := by
  induction entries using List.reverseRecOn with
  | nil => exact ⟨rfl, rfl⟩
  | append_singleton entries e ih =>
    rw [List.foldl_append]
    generalize entries.foldl (userLoop userDetails) ({ h with users := [] }, []) = st at ih ⊢
    obtain ⟨hst, -⟩ := ih
    simp [userLoop, hst, addUser_usersOf]

theorem prefix_usersOf_concat (userDetails : Dict) (entries : Dict) (e : String × AnyValue) :
    usersOf userDetails entries <+: usersOf userDetails (entries ++ [e]) := by
  rw [usersOf_concat]
  split
  · exact prefix_insertNew _ _ _
  · exact List.prefix_refl _

/-- Each list passed to the callback is a prefix of the next. -/
theorem isChain_userLoop (userDetails : Dict) (entries : Dict) (h : ChatHalper) :
    (entries.foldl (userLoop userDetails) ({ h with users := [] }, [])).2.IsChain (· <+: ·) := by
  induction entries using List.reverseRecOn with
  | nil => exact List.IsChain.nil
  | append_singleton entries e ih =>
    obtain ⟨hst, hlast⟩ := foldl_userLoop userDetails entries h
    rw [List.foldl_append]
    generalize entries.foldl (userLoop userDetails) ({ h with users := [] }, []) = st at ih hst hlast ⊢
    simp only [List.foldl_cons, List.foldl_nil, userLoop, hst, addUser_usersOf]
    refine List.isChain_append.mpr ⟨ih, List.isChain_singleton _, ?_⟩
    intro users husers users' husers'
    rw [List.head?_singleton, Option.mem_some] at husers'
    rw [hlast, Option.mem_def] at husers
    split at husers
    · cases husers
    · rw [← husers', ← Option.some.inj husers]
      exact prefix_usersOf_concat userDetails entries e

end ChatApplication
