import ChatApplication.Lib.Runs
import ChatApplication.NodeName
import ChatApplication.SignIn

/-!
# Conversation exactness

Any number of clients, each signed in with a Google id of its own, send messages with
`sendMessage` and receive snapshots in `receiveMessage` observers, in any order.  A snapshot may
be taken after any set of the writes so far, and its dictionary may be enumerated in any order.

## Protocol

* A `send` appends one child under the node of the sender and the receiver; its key is the fresh
  key of `childByAutoId`.
* A `deliver` runs the observer body on the receiving client's shared array.

## Results

* `ChatInv` — every write in the log is what `sendMessage` computed, with pairwise different keys,
  and the database is the log replayed; `step_inv` and `run_inv` keep it.
* `get_replay` — the children of a conversation node are the messages written to it, in order.
* `conversation_exact` — what `A` and `B` are shown of each other's messages, for every run.
-/

namespace ChatApplication

open Runs StableSort

/-! ## Clients and keys -/

/-- A client signed in with a Google id. -/
structure Client where
  userId : UserId
  name : String
  email : String
  imageURL : String
  deviceID : String

def Client.profile (c : Client) : GoogleProfile := ⟨c.userId.val, c.email, c.name, c.imageURL⟩

/-- The `UserDefaults` of the client's device after the sign-in. -/
def Client.defaults (c : Client) : UserDefaults := savedDefaults c.deviceID c.profile

/-- `PUSH_CHARS`. -/
def PUSH_CHARS : List Char := "-0123456789ABCDEFGHIJKLMNOPQRSTUVWXYZ_abcdefghijklmnopqrstuvwxyz".toList

/-- A key of `childByAutoId`; it is never an array index. -/
structure PushId where
  val : String
  alphabet : ∀ c ∈ val.toList, c ∈ PUSH_CHARS
  notIndex : isIndexKey val = false

theorem PushId.trimmed (k : PushId) : Trimmed k.val := by
  have hall : PUSH_CHARS.all (fun c => !isWhitespaceOrNewline c) = true := by decide
  rw [List.all_eq_true] at hall
  exact Trimmed.of_forall fun c hc => by simpa using hall c (k.alphabet c hc)

theorem UserId.trimming_ne_empty (i : UserId) : stringByTrimmingWhiteSpaceAndNewLine i.val ≠ "" := by
  rw [i.trimmed]; exact i.ne_empty

theorem Client.userState (c : Client) :
    UsersState.init c.defaults.getuserDetails =
      { userId := c.userId.val
        name := stringByTrimmingWhiteSpaceAndNewLine c.name
        first_name := ""
        last_name := ""
        email := stringByTrimmingWhiteSpaceAndNewLine c.email
        mobile_number := stringByTrimmingWhiteSpaceAndNewLine c.email
        profile_image := stringByTrimmingWhiteSpaceAndNewLine c.imageURL
        deviceID := getstringOf (some c.deviceID)
        isOnline := false } := by
  have htrim : stringByTrimmingWhiteSpaceAndNewLine c.profile.userID = c.userId.val := c.userId.trimmed
  have h := @userState_signIn c.deviceID c.profile c.userId.trimming_ne_empty
  rw [htrim] at h
  exact h

theorem Client.getstring_userId (c : Client) :
    c.defaults.getuserDetails.getstring ChatParameter.userId = c.userId.val := by
  have h := congrArg UsersState.userId c.userState
  exact Option.some.inj h

/-! ## Writes -/

theorem createNode_chars (i j : UserId) :
    ∀ c ∈ (createNode i.val j.val).toList, c.isDigit = true ∨ c = '_' := by
  intro c hc
  rw [(createNode_perm i.ne_empty).mem_iff, List.mem_cons, List.mem_append] at hc
  rcases hc with rfl | hc | hc
  · exact .inr rfl
  · exact .inl (i.digits c hc)
  · exact .inl (j.digits c hc)

theorem isValidKey_createNode (i j : UserId) : isValidKey (createNode i.val j.val) = true := by
  have hbad : kInvalidKeyCharacters.all (fun c => !c.isDigit && c != '_') = true := by decide
  simp only [List.all_eq_true, Bool.and_eq_true, Bool.not_eq_true', bne_iff_ne] at hbad
  rw [isValidKey_iff]
  constructor
  · rw [createNode_eq_max_min i.ne_empty, toList_join]
    simp
  · intro c hc hmem
    obtain ⟨hd, hu⟩ := hbad c hmem
    rcases createNode_chars i j c hc with h | h
    · rw [h] at hd; cases hd
    · exact hu h

theorem messageNodePath_eq (i j : UserId) :
    messageNodePath i.val j.val = .ok [ChatParameter.Message, createNode i.val j.val] :=
  child_of_isValidKey (isValidKey_createNode i j) [ChatParameter.Message]

/-- The `MessageClass` handed to `sendMessage`. -/
def messageTo (receiver : UserId) (message : MessageClass) : MessageClass :=
  { message with receiverId := some receiver.val }

/-- The dictionary a client writes for a message. -/
def sentDictionary (c : Client) (key : PushId) (now : Int) (receiver : UserId)
    (message : MessageClass) : Dict :=
  (stampMessage (UsersState.init c.defaults.getuserDetails) key.val
    (messageTo receiver message)).createDictonary now

/-- The write a client makes for a message. -/
def sentWrite (c : Client) (key : PushId) (now : Int) (receiver : UserId) (message : MessageClass) :
    Write where
  path := [ChatParameter.Message, createNode c.userId.val receiver.val, key.val]
  value := .dictionary (sentDictionary c key now receiver message)

/-- **`sendMessage` of a signed-in client** to a user id always writes. -/
theorem Client.sendMessage_eq (c : Client) (key : PushId) (now : Int) (receiver : UserId)
    (message : MessageClass) :
    sendMessage c.defaults key.val now (messageTo receiver message) =
      .ok (some (sentWrite c key now receiver message)) := by
  have hsender : getstringOf (UsersState.init c.defaults.getuserDetails).userId ≠ "" := by
    rw [c.userState]; exact c.userId.trimming_ne_empty
  have hreceiver : getstringOf (messageTo receiver message).receiverId ≠ "" :=
    receiver.trimming_ne_empty
  have hpath : messageNodePath ((UsersState.init c.defaults.getuserDetails).userId.getD "")
      ((messageTo receiver message).receiverId.getD "") =
        .ok [ChatParameter.Message, createNode c.userId.val receiver.val] := by
    rw [c.userState]; exact messageNodePath_eq c.userId receiver
  unfold sendMessage
  simp only [ChatParameter.emptyString, hsender, hreceiver, hpath, if_false]
  simp [sentWrite, sentDictionary]

/-- **`receiveMessage` of a signed-in client** for a user id observes their node. -/
theorem Client.receiveMessage_eq (c : Client) (other : UserId) :
    receiveMessage c.defaults other.val =
      .ok (some [ChatParameter.Message, createNode c.userId.val other.val]) := by
  have hself : getstringOf (UsersState.init c.defaults.getuserDetails).userId ≠ "" := by
    rw [c.userState]; exact c.userId.trimming_ne_empty
  have hother : getstringOf (some other.val) ≠ "" := other.trimming_ne_empty
  have hpath : messageNodePath ((UsersState.init c.defaults.getuserDetails).userId.getD "") other.val =
      .ok [ChatParameter.Message, createNode c.userId.val other.val] := by
    rw [c.userState]; exact messageNodePath_eq c.userId other
  unfold receiveMessage
  simp only [ChatParameter.emptyString, hself, hother, hpath, if_false]

/-- A written message comes back from the database as it was written. -/
theorem valForExport_sentDictionary (c : Client) (key : PushId) (now : Int) (receiver : UserId)
    (message : MessageClass) :
    valForExport (nodeFrom (.dictionary (sentDictionary c key now receiver message))) =
      .dictionary (sentDictionary c key now receiver message) :=
  valForExport_createDictonary _ _

/-! ## The system -/

section System

variable {ι : Type}

/-- The clients of a run, each with an id of its own. -/
structure Clients (ι : Type) where
  client : ι → Client
  own_id : ∀ a b, (client a).userId.val = (client b).userId.val → a = b

/-- A message that was sent: the `sendMessage` call and the write it made. -/
structure Sent (ι : Type) where
  sender : ι
  key : PushId
  now : Int
  receiver : UserId
  message : MessageClass
  write : Write

/-- The database, the log of sent messages, and every client's shared arrays. -/
structure ChatState (ι : Type) where
  db : FNode := .empty
  log : List (Sent ι) := []
  helpers : ι → ChatHalper := fun _ => {}

/-- The database after a list of writes. -/
def replay (W : List (Sent ι)) : FNode := (W.map Sent.write).foldl Write.apply .empty

/-- The events of a run.  A delivery shows client `a` its conversation with client `b` in a
snapshot taken after the writes whose keys are `seen`. -/
inductive ChatEvent (ι : Type) where
  | send (a : ι) (key : PushId) (now : Int) (receiver : UserId) (message : MessageClass)
  | deliver (a b : ι) (seen : String → Bool) (enumeration : Enumeration)

/-- The writes of the log that a snapshot has seen. -/
def ChatState.seenWrites (st : ChatState ι) (seen : String → Bool) : List (Sent ι) :=
  st.log.filter fun s => seen s.key.val

variable (clients : Clients ι)

/-- What `receiveMessage(receiverId: b)` delivers on `a`'s device for a snapshot: the shared arrays
after the observer body and the list passed to the callback. -/
def ChatState.delivery (st : ChatState ι) (a b : ι) (seen : String → Bool)
    (enumeration : Enumeration) : Option (ChatHalper × List MessageClass) :=
  match receiveMessage (clients.client a).defaults (clients.client b).userId.val with
  | .ok (some path) =>
    let snapshot := (snapshotValue ((replay (st.seenWrites seen)).get path)).map enumeration.apply
    some (messageObserver (clients.client a).defaults.getuserDetails snapshot (st.helpers a))
  | _ => none

variable [DecidableEq ι]

/-- One event; a `send` needs a key that no message has. -/
def ChatState.step (st : ChatState ι) : ChatEvent ι → Option (ChatState ι)
  | .send a key now receiver message =>
    if st.log.any (fun s => s.key.val == key.val) then none
    else
      match sendMessage (clients.client a).defaults key.val now (messageTo receiver message) with
      | .error _ => none
      | .ok none => some st
      | .ok (some w) =>
        some { st with
          db := w.apply st.db
          log := st.log ++ [⟨a, key, now, receiver, message, w⟩] }
  | .deliver a b seen enumeration =>
    (st.delivery clients a b seen enumeration).map fun d =>
      { st with helpers := Function.update st.helpers a d.1 }

/-! ## Store invariant -/

/-- Every write of the log is what `sendMessage` computed, keys are pairwise different, and the
database is the log replayed. -/
structure ChatInv (st : ChatState ι) : Prop where
  writes : ∀ s ∈ st.log, s.write = sentWrite (clients.client s.sender) s.key s.now s.receiver s.message
  keys : (st.log.map fun s => s.key.val).Nodup
  db : st.db = replay st.log

omit [DecidableEq ι] in
theorem ChatInv.initial : ChatInv clients {} :=
  ⟨fun _ h => absurd h List.not_mem_nil, List.nodup_nil, rfl⟩

/-- What one event can do: add one sent message under a fresh key, or run an observer body. -/
theorem ChatState.step_cases {st st' : ChatState ι} {e : ChatEvent ι} (h : st.step clients e = some st') :
    (∃ s : Sent ι, s.write = sentWrite (clients.client s.sender) s.key s.now s.receiver s.message ∧
      s.key.val ∉ st.log.map (fun s => s.key.val) ∧
      st' = { st with db := s.write.apply st.db, log := st.log ++ [s] }) ∨
    (∃ helpers, st' = { st with helpers := helpers }) := by
  cases e with
  | send a key now receiver message =>
    simp only [ChatState.step, Client.sendMessage_eq] at h
    split at h
    · cases h
    · rename_i hfresh
      cases h
      refine .inl ⟨⟨a, key, now, receiver, message, _⟩, rfl, ?_, rfl⟩
      intro hmem
      obtain ⟨s, hs, hk⟩ := List.mem_map.mp hmem
      exact hfresh (List.any_eq_true.mpr ⟨s, hs, by simp [hk]⟩)
  | deliver a b seen enumeration =>
    simp only [ChatState.step, Option.map_eq_some_iff] at h
    obtain ⟨d, -, rfl⟩ := h
    exact .inr ⟨_, rfl⟩

theorem ChatState.step_inv {st st' : ChatState ι} {e : ChatEvent ι} (hinv : ChatInv clients st)
    (h : st.step clients e = some st') : ChatInv clients st' := by
  obtain ⟨s, hw, hfresh, rfl⟩ | ⟨helpers, rfl⟩ := ChatState.step_cases clients h
  · refine ⟨?_, ?_, ?_⟩
    · intro t ht
      rcases List.mem_append.mp ht with ht | ht
      · exact hinv.writes t ht
      · rw [List.mem_singleton] at ht; subst ht; exact hw
    · rw [List.map_append, List.map_singleton, List.nodup_append]
      refine ⟨hinv.keys, List.nodup_singleton _, ?_⟩
      rintro k hk k' hk' rfl
      rw [List.mem_singleton] at hk'
      exact hfresh (hk' ▸ hk)
    · show s.write.apply st.db = replay (st.log ++ [s])
      rw [hinv.db]
      simp [replay]
  · exact ⟨hinv.writes, hinv.keys, hinv.db⟩

/-- The invariant holds in every reached state. -/
theorem ChatState.run_inv {es : List (ChatEvent ι)} {st : ChatState ι}
    (h : run (ChatState.step clients) {} es = some st) : ChatInv clients st :=
  run_invariant (fun _ _ _ hi hs => ChatState.step_inv clients hi hs) es _ _ (ChatInv.initial clients) h

/-! ## Snapshots -/

/-- The node a message was written to. -/
def Sent.node (s : Sent ι) : String := createNode (clients.client s.sender).userId.val s.receiver.val

/-- One child of a conversation node. -/
def Sent.child (s : Sent ι) : String × FNode := (s.key.val, nodeFrom s.write.value)

omit [DecidableEq ι] in
/-- **The children of a node** after a list of writes are the messages written to it, in order. -/
theorem get_replay {W : List (Sent ι)}
    (hw : ∀ s ∈ W, s.write = sentWrite (clients.client s.sender) s.key s.now s.receiver s.message)
    (hk : (W.map fun s => s.key.val).Nodup) (n : String) :
    (replay W).get [ChatParameter.Message, n] =
      .node ((W.filter fun s => s.node clients = n).map Sent.child) := by
  induction W using List.reverseRecOn with
  | nil => rfl
  | append_singleton W s ih =>
    rw [List.map_append, List.map_singleton, List.nodup_append] at hk
    obtain ⟨hkW, -, hfresh⟩ := hk
    have hws := hw s (by simp)
    have hpath : s.write.path = [ChatParameter.Message] ++ s.node clients :: [s.key.val] := by
      rw [hws]; rfl
    have hrep : replay (W ++ [s]) = (replay W).put s.write.path (nodeFrom s.write.value) := by
      simp [replay, Write.apply]
    have ih := ih (fun t ht => hw t (List.mem_append_left _ ht)) hkW
    rw [hrep, List.filter_append, List.map_append]
    by_cases hn : s.node clients = n
    · subst hn
      have hnot : s.key.val ∉ (((W.filter fun t => t.node clients = s.node clients).map Sent.child).map
          Prod.fst) := by
        intro hmem
        rw [List.map_map] at hmem
        obtain ⟨t, ht, hkey⟩ := List.mem_map.mp hmem
        exact hfresh _ (List.mem_map.mpr ⟨t, (List.mem_filter.mp ht).1, hkey⟩) _
          (List.mem_singleton_self _) rfl
      have happ : s.write.path = [ChatParameter.Message, s.node clients] ++ [s.key.val] := hpath
      rw [happ, PathTree.get_put_append, ih]
      simp [PathTree.put, PathTree.children, List.upsert_of_notMem hnot, Sent.child]
    · rw [hpath, show [ChatParameter.Message, n] = [ChatParameter.Message] ++ n :: [] from rfl,
        PathTree.get_put_of_diverge hn]
      simp only [List.cons_append, List.nil_append, ih]
      simp [hn]

/-- A message as the database gives it back. -/
def Sent.entry (s : Sent ι) : String × AnyValue := (s.key.val, s.write.value)

omit [DecidableEq ι] in
theorem valForExport_child {s : Sent ι}
    (hw : s.write = sentWrite (clients.client s.sender) s.key s.now s.receiver s.message) :
    valForExport (nodeFrom s.write.value) = s.write.value := by
  rw [hw]
  exact valForExport_sentDictionary _ _ _ _ _

omit [DecidableEq ι] in
/-- The entries of a snapshot of a node, in any enumeration order, are the messages written to
it. -/
theorem snapshotEntries_replay {W : List (Sent ι)}
    (hw : ∀ s ∈ W, s.write = sentWrite (clients.client s.sender) s.key s.now s.receiver s.message)
    (hk : (W.map fun s => s.key.val).Nodup) (n : String) (enumeration : Enumeration) :
    (snapshotEntries ((snapshotValue ((replay W).get [ChatParameter.Message, n])).map
      enumeration.apply)).Perm ((W.filter fun s => s.node clients = n).map Sent.entry) := by
  rw [get_replay clients hw hk n]
  have hw' : ∀ s ∈ W.filter (fun s => s.node clients = n), valForExport (nodeFrom s.write.value) =
      s.write.value := fun s hs => valForExport_child clients (hw s (List.mem_filter.mp hs).1)
  generalize W.filter (fun s => s.node clients = n) = msgs at hw' ⊢
  cases msgs with
  | nil => exact List.Perm.refl _
  | cons s msgs =>
    have hvals : valsForExport ((s :: msgs).map Sent.child) = (s :: msgs).map Sent.entry := by
      rw [valsForExport_eq, List.map_map]
      exact List.map_congr_left fun t ht => by
        simp only [Function.comp, Sent.child, Sent.entry, hw' t ht]
    have hsnap : snapshotValue (.node ((s :: msgs).map Sent.child)) =
        some (.dictionary ((s :: msgs).map Sent.entry)) := by
      show some (exportChildren (valsForExport ((s :: msgs).map Sent.child))) = _
      rw [hvals]
      exact congrArg some (exportChildren_of_not_index (k := s.key.val) (v := s.write.value)
        (by simp [Sent.entry]) s.key.notIndex)
    rw [hsnap]
    simp only [Option.map_some, Enumeration.apply, snapshotEntries, getDictionary_dictionary]
    exact enumeration.perm _

/-! ## What is shown -/

/-- The message was sent by `a` to `b` or by `b` to `a`. -/
def Sent.Between (a b : ι) (s : Sent ι) : Prop :=
  (s.sender = a ∧ s.receiver.val = (clients.client b).userId.val) ∨
    (s.sender = b ∧ s.receiver.val = (clients.client a).userId.val)

instance (a b : ι) : DecidablePred (Sent.Between clients a b) := fun s =>
  inferInstanceAs (Decidable ((s.sender = a ∧ s.receiver.val = (clients.client b).userId.val) ∨
    (s.sender = b ∧ s.receiver.val = (clients.client a).userId.val)))

/-- The message as client `a` is to see it: the fields it was sent with, trimmed, and `sender`
exactly when `a` sent it. -/
def Sent.shown (a : ι) (s : Sent ι) : MessageClass where
  uid := s.key.val
  senderId := (clients.client s.sender).userId.val
  senderName := stringByTrimmingWhiteSpaceAndNewLine (clients.client s.sender).name
  receiverId := s.receiver.val
  receiverName := getstringOf s.message.receiverName
  message := getstringOf s.message.message
  sendingTime := getint (some (.string (toString s.now)))
  mediaType := s.message.mediaType.getD .text
  messageFrom := if s.sender = a then MessageFrom.sender else MessageFrom.receiver

omit [DecidableEq ι] in
theorem Sent.node_eq_iff (a b : ι) (s : Sent ι) :
    s.node clients = createNode (clients.client a).userId.val (clients.client b).userId.val ↔
      s.Between clients a b := by
  unfold Sent.node Sent.Between
  rw [UserId.createNode_inj, Sym2.eq_iff]
  constructor
  · rintro (⟨h₁, h₂⟩ | ⟨h₁, h₂⟩)
    · exact .inl ⟨clients.own_id _ _ h₁, h₂⟩
    · exact .inr ⟨clients.own_id _ _ h₁, h₂⟩
  · rintro (⟨rfl, h₂⟩ | ⟨rfl, h₂⟩)
    · exact .inl ⟨rfl, h₂⟩
    · exact .inr ⟨rfl, h₂⟩

/-- Decoding a written message on client `a`'s device. -/
theorem decodeMessage_entry (a : ι) {s : Sent ι}
    (hw : s.write = sentWrite (clients.client s.sender) s.key s.now s.receiver s.message) :
    decodeMessage (clients.client a).defaults.getuserDetails s.entry = s.shown clients a := by
  have hsender : (clients.client s.sender).userId.val = (clients.client a).userId.val ↔ s.sender = a :=
    ⟨clients.own_id _ _, fun h => by rw [h]⟩
  unfold decodeMessage Sent.entry
  rw [hw]
  simp only [sentWrite, sentDictionary, getDictionary_dictionary]
  rw [MessageClass.init_createDictonary, Client.userState, Client.getstring_userId]
  have hk : stringByTrimmingWhiteSpaceAndNewLine s.key.val = s.key.val := s.key.trimmed
  have hs : stringByTrimmingWhiteSpaceAndNewLine (clients.client s.sender).userId.val =
      (clients.client s.sender).userId.val := (clients.client s.sender).userId.trimmed
  have hr : stringByTrimmingWhiteSpaceAndNewLine s.receiver.val = s.receiver.val := s.receiver.trimmed
  simp only [stampMessage, messageTo, Sent.shown, getstringOf_some, trimming_trimming, hk, hs, hr,
    hsender]

/-- The list client `a` is shown of its conversation with `b`. -/
def ChatState.received (st : ChatState ι) (a b : ι) (seen : String → Bool) (enumeration : Enumeration) :
    Option (List MessageClass) :=
  (st.delivery clients a b seen enumeration).map Prod.snd

/-- The same message seen from the other side. -/
def MessageClass.flipped (m : MessageClass) : MessageClass :=
  { m with messageFrom := m.messageFrom.map fun
      | .sender => MessageFrom.receiver
      | .receiver => MessageFrom.sender }

theorem received_perm {st : ChatState ι} (hinv : ChatInv clients st) (a b : ι) (seen : String → Bool)
    (enumeration : Enumeration) :
    ∃ L, st.received clients a b seen enumeration = some L ∧
      L.Perm (((st.seenWrites seen).filter (Sent.Between clients a b)).map (Sent.shown clients a)) := by
  have hw : ∀ s ∈ st.seenWrites seen,
      s.write = sentWrite (clients.client s.sender) s.key s.now s.receiver s.message :=
    fun s hs => hinv.writes s (List.mem_filter.mp hs).1
  have hk : ((st.seenWrites seen).map fun s => s.key.val).Nodup :=
    hinv.keys.sublist (List.filter_sublist.map _)
  have hentries := snapshotEntries_replay clients hw hk
    (createNode (clients.client a).userId.val (clients.client b).userId.val) enumeration
  simp only [Sent.node_eq_iff] at hentries
  unfold ChatState.received ChatState.delivery
  rw [Client.receiveMessage_eq]
  simp only [Option.map_some, messageObserver_eq]
  refine ⟨_, rfl, (sortOn_perm _ _).trans ((hentries.map _).trans ?_)⟩
  rw [List.map_map]
  refine List.Perm.of_eq (List.map_congr_left fun s hs => ?_)
  exact decodeMessage_entry clients a (hw s (List.mem_filter.mp hs).1)

theorem shown_flipped {a b : ι} (hab : a ≠ b) {s : Sent ι} (hs : s.Between clients a b) :
    s.shown clients b = (s.shown clients a).flipped := by
  rcases hs with ⟨rfl, -⟩ | ⟨rfl, -⟩
  · simp [Sent.shown, MessageClass.flipped, hab]
  · simp [Sent.shown, MessageClass.flipped, Ne.symm hab]

/-- **Conversation exactness.**  In every reached state, for every two clients `a` and `b` and
every set of writes a snapshot has seen, `a` is shown exactly one message for each message sent
between `a` and `b` and nothing else, each with the fields it was sent with; `b` is shown the
same messages from the other side. -/
theorem conversation_exact {es : List (ChatEvent ι)} {st : ChatState ι}
    (hrun : run (ChatState.step clients) {} es = some st) {a b : ι} (hab : a ≠ b)
    (seen : String → Bool) (enumeration enumeration' : Enumeration) :
    ∃ L L', st.received clients a b seen enumeration = some L ∧
      st.received clients b a seen enumeration' = some L' ∧
      L.Perm (((st.seenWrites seen).filter (Sent.Between clients a b)).map (Sent.shown clients a)) ∧
      L'.Perm (((st.seenWrites seen).filter (Sent.Between clients a b)).map (Sent.shown clients b)) ∧
      L'.Perm (L.map MessageClass.flipped) := by
  have hinv := ChatState.run_inv clients hrun
  obtain ⟨L, hL, hperm⟩ := received_perm clients hinv a b seen enumeration
  obtain ⟨L', hL', hperm'⟩ := received_perm clients hinv b a seen enumeration'
  have hsymm : ∀ s : Sent ι, Sent.Between clients b a s ↔ Sent.Between clients a b s :=
    fun s => or_comm
  simp only [hsymm] at hperm'
  refine ⟨L, L', hL, hL', hperm, hperm', hperm'.trans ?_⟩
  refine List.Perm.trans ?_ (hperm.map _).symm
  rw [List.map_map]
  refine List.Perm.of_eq (List.map_congr_left fun s hs => ?_)
  exact shown_flipped clients hab (by simpa using (List.mem_filter.mp hs).2)

end System

/-- Two clients: `1` sends `2` a message, both are shown it. -/
theorem conversation_exact_two :
    ∃ (clients : Clients Bool) (es : List (ChatEvent Bool)) (st : ChatState Bool) (L : List MessageClass),
      run (ChatState.step clients) {} es = some st ∧
      st.received clients false true (fun _ => true) ⟨id, fun _ => .refl _⟩ = some L ∧
      L.map (fun m => (m.message, m.messageFrom)) = [(some "hi", some .receiver)] := by
  let one : UserId := ⟨"1", by decide, List.all_eq_true.mp (by decide)⟩
  let two : UserId := ⟨"2", by decide, List.all_eq_true.mp (by decide)⟩
  let clients : Clients Bool := ⟨fun b => ⟨if b then one else two, "", "", "", ""⟩, by decide⟩
  let key : PushId := ⟨"-N", fun c hc => of_decide_eq_true (List.all_eq_true.mp
    (by decide : "-N".toList.all (fun c => decide (c ∈ PUSH_CHARS)) = true) c hc), by decide⟩
  let es : List (ChatEvent Bool) := [.send true key 5 two { message := some " hi " }]
  let st : ChatState Bool :=
    { db := (sentWrite (clients.client true) key 5 two { message := some " hi " }).apply .empty
      log := [⟨true, key, 5, two, { message := some " hi " },
        sentWrite (clients.client true) key 5 two { message := some " hi " }⟩] }
  have hrun : run (ChatState.step clients) {} es = some st := by
    simp [es, st, run, ChatState.step, Client.sendMessage_eq]
  obtain ⟨L, -, hL, -, hperm, -⟩ := conversation_exact clients hrun (a := false) (b := true) (by decide)
    (fun _ => true) ⟨id, fun _ => .refl _⟩ ⟨id, fun _ => .refl _⟩
  refine ⟨clients, es, st, L, hrun, hL, ?_⟩
  have hshown : (((st.seenWrites fun _ => true).filter (Sent.Between clients false true)).map
      (Sent.shown clients false)).map (fun m => (m.message, m.messageFrom)) =
        [(some "hi", some .receiver)] := by decide
  rw [← List.perm_singleton, ← hshown]
  exact hperm.map _

end ChatApplication
