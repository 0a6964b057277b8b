import ChatApplication.NodeName

/-!
# Sending a text (`ChatVC.sendImage`)

The send button hands the content of the text field to `sendMessage` and clears the field.  Three
functions look at emptiness in three ways: the button at the raw text, `sendMessage` at the trimmed
ids, the receiver's decoder at the trimmed text; and `sendMessage` returns without a word when an id
is blank, so that the button clears the field all the same.

* `sendImage_of_empty`, `sendImage_of_blank`, `sendImage_of_ids` — what a tap on the send button does.
* `MessageArrives` — one new child, nothing else changed, and the receiver reads the text.
* `text_all_or_nothing_iff` — when a tap sends the text or leaves everything as it was, exactly.
* `text_lost_to_blank_receiver` — a text typed to a listed user without an id is lost.
-/

namespace ChatApplication

/-! ## Writing -/

/-- `lengthOfBytesUsingEncoding: NSUTF8StringEncoding`. -/
def lengthOfBytes (s : String) : Nat := (s.toList.map Char.utf8Size).sum

/-- `kFirebaseMaxLeafSize`: 10 MB. -/
def kFirebaseMaxLeafSize : Nat := 1024 * 1024 * 10

/-- `FValidation isValidLeafValue:`; only strings can be too large. -/
def isValidLeafValue : AnyValue → Bool
  | .string s => decide (lengthOfBytes s ≤ kFirebaseMaxLeafSize)
  | _ => true

/-- Every value of a flat dictionary is a valid leaf. -/
def validLeaves (d : Dict) : Bool := d.all fun e => isValidLeafValue e.2

/-- The exceptions that end a send: a malformed path, or a value `setValue` refuses. -/
inductive SendException where
  | child (e : NSException)
  | invalidFirebaseData
  deriving DecidableEq, Repr

/-- `setValue` of a flat dictionary: every leaf is validated before the write. -/
def Write.setValue (w : Write) (db : FNode) : Except SendException FNode :=
  if validLeaves (getDictionary (some w.value)) then .ok (w.apply db)
  else .error .invalidFirebaseData

theorem setValue_dictionary (path : List String) (d : Dict) (db : FNode) :
    (Write.mk path (.dictionary d)).setValue db =
      if validLeaves d then .ok (db.put path (nodeFrom (.dictionary d)))
      else .error .invalidFirebaseData := by
  simp only [Write.setValue, getDictionary_dictionary, Write.apply]

/-! ## The button -/

/-- `ChatVC` as far as sending goes: the content of the text field, and the database. -/
structure ChatVC where
  txtMessage : Option String
  db : FNode

/-- The `MessageClass` the button fills in. -/
def textMessage (receiver : Option UsersState) (text : Option String) : MessageClass :=
  { receiverId := receiver.bind UsersState.userId
    mediaType := some .text
    receiverName := receiver.bind UsersState.name
    message := text }

/-- `ChatVC.sendImage`. -/
def ChatVC.sendImage (defaults : UserDefaults) (receiver : Option UsersState) (key : String) (now : Int)
    (s : ChatVC) : Except SendException ChatVC :=
  if (s.txtMessage.map String.isEmpty).getD true then .ok s
  else
    match sendMessage defaults key now (textMessage receiver s.txtMessage) with
    | .error e => .error (.child e)
    | .ok none => .ok { s with txtMessage := none }
    | .ok (some write) =>
      match write.setValue s.db with
      | .error e => .error e
      | .ok db => .ok { txtMessage := none, db := db }

/-! ## Ids -/

/-- The id of the user signed in on a device, as every function reads it. -/
def signedInId (defaults : UserDefaults) : String :=
  defaults.getuserDetails.getstring ChatParameter.userId

/-- The name of the user signed in on a device. -/
def signedInName (defaults : UserDefaults) : String :=
  defaults.getuserDetails.getstring ChatParameter.name

def receiverId (receiver : Option UsersState) : String := (receiver.bind UsersState.userId).getD ""

def receiverName (receiver : Option UsersState) : String := (receiver.bind UsersState.name).getD ""

theorem getstringOf_signedInId (defaults : UserDefaults) :
    getstringOf (UsersState.init defaults.getuserDetails).userId = signedInId defaults :=
  Dict.trimming_getstring defaults.getuserDetails ChatParameter.userId

theorem trimmed_signedInId (defaults : UserDefaults) : Trimmed (signedInId defaults) :=
  Dict.trimming_getstring defaults.getuserDetails ChatParameter.userId

/-- Some device has the user with a given id signed in. -/
theorem exists_signedInId (id : String) :
    ∃ device : UserDefaults, signedInId device = stringByTrimmingWhiteSpaceAndNewLine id :=
  ⟨⟨some (.data (some [(ChatParameter.userId, .string id)]))⟩, rfl⟩

theorem sendMessage_of_blank {defaults : UserDefaults} {m : MessageClass}
    (h : signedInId defaults = "" ∨ getstringOf m.receiverId = "") (key : String) (now : Int) :
    sendMessage defaults key now m = .ok none := by
  rcases h with h | h
  · simp [sendMessage, getstringOf_signedInId, ChatParameter.emptyString, h]
  · simp [sendMessage, ChatParameter.emptyString, h]

theorem sendMessage_of_ids {defaults : UserDefaults} {m : MessageClass} (hs : signedInId defaults ≠ "")
    (hr : getstringOf m.receiverId ≠ "") (key : String) (now : Int) :
    sendMessage defaults key now m =
      match messageNodePath (signedInId defaults) (m.receiverId.getD "") with
      | .error e => .error e
      | .ok path =>
        .ok (some ⟨path ++ [key], .dictionary
          ((stampMessage (UsersState.init defaults.getuserDetails) key m).createDictonary now)⟩) := by
  simp only [sendMessage, getstringOf_signedInId, ChatParameter.emptyString, hs, hr, if_false,
    getDictionary_dictionary]
  rfl

/-- What a device observes of the conversation with a signed-in user. -/
theorem receiveMessage_of_ids {device defaults : UserDefaults} (hd : signedInId device ≠ "")
    (hs : signedInId defaults ≠ "") :
    receiveMessage device (signedInId defaults) =
      match messageNodePath (signedInId device) (signedInId defaults) with
      | .error e => .error e
      | .ok path => .ok (some path) := by
  have htrim : stringByTrimmingWhiteSpaceAndNewLine (signedInId defaults) ≠ "" := by
    rwa [trimmed_signedInId defaults]
  simp only [receiveMessage, getstringOf_signedInId, getstringOf_some, ChatParameter.emptyString, hd, htrim,
    if_false]
  rfl

/-- The path of the node of two ids. -/
def nodePath (senderId receiverId : String) : List String :=
  ChatParameter.Message :: pathPieces (createNode senderId receiverId)

theorem messageNodePath_eq_ok_iff {a b : String} (ha : a ≠ "") {path : List String} :
    messageNodePath a b = .ok path ↔
      (∀ c ∈ a.toList ++ b.toList, c ∉ kInvalidPathCharacters) ∧
        path = nodePath a b := by
  rw [← isValidPathString_createNode ha]
  unfold messageNodePath child nodePath
  split
  · rename_i h
    simp [h, eq_comm]
  · rename_i h
    simp [h]

/-! ## What a tap does -/

section Tap

variable (defaults : UserDefaults) (receiver : Option UsersState) (key : String) (now : Int)

/-- The dictionary written for a text. -/
def textDictionary (text : Option String) : Dict :=
  (stampMessage (UsersState.init defaults.getuserDetails) key (textMessage receiver text)).createDictonary now

variable {s : ChatVC}

theorem isEmpty_txtMessage_iff :
    (s.txtMessage.map String.isEmpty).getD true = true ↔ s.txtMessage.getD "" = "" := by
  cases s.txtMessage with
  | none => simp
  | some text => simp

/-- Nothing typed, nothing done. -/
theorem sendImage_of_empty (h : s.txtMessage.getD "" = "") :
    s.sendImage defaults receiver key now = .ok s := by
  rw [ChatVC.sendImage, if_pos (isEmpty_txtMessage_iff.mpr h)]

/-- A blank id: nothing is sent, and the field is cleared. -/
theorem sendImage_of_blank (h : s.txtMessage.getD "" ≠ "")
    (hblank : signedInId defaults = "" ∨ stringByTrimmingWhiteSpaceAndNewLine (receiverId receiver) = "") :
    s.sendImage defaults receiver key now = .ok { s with txtMessage := none } := by
  rw [receiverId, ← getstringOf_eq_trimming] at hblank
  rw [ChatVC.sendImage, if_neg (fun he => h (isEmpty_txtMessage_iff.mp he)),
    sendMessage_of_blank (m := textMessage receiver s.txtMessage) hblank]

/-- Both ids present: one write and the field is cleared, or an exception. -/
theorem sendImage_of_ids (h : s.txtMessage.getD "" ≠ "") (hs : signedInId defaults ≠ "")
    (hr : stringByTrimmingWhiteSpaceAndNewLine (receiverId receiver) ≠ "") :
    s.sendImage defaults receiver key now =
      match messageNodePath (signedInId defaults) (receiverId receiver) with
      | .error e => .error (.child e)
      | .ok path =>
        if validLeaves (textDictionary defaults receiver key now s.txtMessage) then
          .ok
            { txtMessage := none
              db := s.db.put (path ++ [key])
                (nodeFrom (.dictionary (textDictionary defaults receiver key now s.txtMessage))) }
        else .error .invalidFirebaseData := by
  rw [receiverId, ← getstringOf_eq_trimming] at hr
  rw [ChatVC.sendImage, if_neg (fun he => h (isEmpty_txtMessage_iff.mp he)),
    sendMessage_of_ids (m := textMessage receiver s.txtMessage) hs hr]
  have hid : (textMessage receiver s.txtMessage).receiverId.getD "" = receiverId receiver := rfl
  rw [hid]
  cases messageNodePath (signedInId defaults) (receiverId receiver) with
  | error e => rfl
  | ok path =>
    show (match (Write.mk (path ++ [key])
      (.dictionary (textDictionary defaults receiver key now s.txtMessage))).setValue s.db with
      | .error e => (.error e : Except SendException ChatVC)
      | .ok db => .ok { txtMessage := none, db := db }) = _
    rw [setValue_dictionary]
    cases validLeaves (textDictionary defaults receiver key now s.txtMessage) with
    | true => rfl
    | false => rfl

end Tap

/-! ## All or nothing -/

/-- A key `childByAutoId` generates: 20 bytes, and no name in the database yet. -/
structure AutoId (db : FNode) where
  val : String
  size : lengthOfBytes val = 20
  fresh : ∀ path, val ∉ (db.get path).children.map Prod.fst

/-- The message arrives: one child more under the node of the two ids, every value outside it as it
was, the receiver's devices observe that node and decode the child to the trimmed text, which is not
empty, and the field is cleared. -/
def MessageArrives (defaults : UserDefaults) (receiver : Option UsersState) (key : String)
    (s s' : ChatVC) : Prop :=
  ∃ path child,
    messageNodePath (signedInId defaults) (receiverId receiver) = .ok path ∧
    (s'.db.get path).children = (s.db.get path).children ++ [(key, child)] ∧
    (∀ q, ¬ path ++ [key] <+: q → s'.db.leafAt q = s.db.leafAt q) ∧
    (∀ device, signedInId device = stringByTrimmingWhiteSpaceAndNewLine (receiverId receiver) →
      receiveMessage device (signedInId defaults) = .ok (some path) ∧
      ∃ text, (decodeMessage device.getuserDetails (key, valForExport child)).message = some text ∧
        text ≠ "" ∧ text = stringByTrimmingWhiteSpaceAndNewLine (s.txtMessage.getD "")) ∧
    s'.txtMessage = none

/-- After a tap the message has arrived, or the database and the field are as they were; an
exception, which nothing catches, is neither. -/
def AllOrNothing (defaults : UserDefaults) (receiver : Option UsersState) (key : String) (now : Int)
    (s : ChatVC) : Prop :=
  match s.sendImage defaults receiver key now with
  | .error _ => False
  | .ok s' => MessageArrives defaults receiver key s s' ∨ s' = s

/-- A typed text that can be sent. -/
structure Sendable (defaults : UserDefaults) (receiver : Option UsersState) (s : ChatVC) : Prop where
  text : stringByTrimmingWhiteSpaceAndNewLine (s.txtMessage.getD "") ≠ ""
  sender : signedInId defaults ≠ ""
  nonblank : receiverId receiver ≠ ""
  trimmed : Trimmed (receiverId receiver)
  characters : ∀ c ∈ (signedInId defaults).toList ++ (receiverId receiver).toList,
    c ∉ kInvalidPathCharacters
  sizes : ∀ t ∈ [signedInId defaults, signedInName defaults, receiverId receiver, receiverName receiver,
    s.txtMessage.getD ""], lengthOfBytes t ≤ kFirebaseMaxLeafSize
  above : ∀ q, q <+: nodePath (signedInId defaults) (receiverId receiver) → s.db.leafAt q = none

theorem lengthOfBytes_le (s : String) : lengthOfBytes s ≤ 4 * s.toList.length := by
  unfold lengthOfBytes
  induction s.toList with
  | nil => simp
  | cons c cs ih =>
    have hc := c.utf8Size_le_four
    simp only [List.map_cons, List.sum_cons, List.length_cons]
    omega

theorem length_toString_le {i : Int} (h : inIntRange i = true) : (toString i).toList.length ≤ 20 := by
  simp only [inIntRange, decide_eq_true_eq] at h
  have hdigits : ∀ n : Nat, n ≤ 2 ^ 63 → (toString n).toList.length ≤ 19 := by
    intro n hn
    rw [toList_toString_nat, Nat.length_toDigits_le_iff (by decide) (by decide)]
    omega
  rw [toString_int]
  split
  · have := hdigits i.toNat (by omega)
    omega
  · have := hdigits (-i).toNat (by omega)
    rw [String.toList_append, List.length_append]
    simp only [String.reduceToList, List.length_cons, List.length_nil]
    omega

/-- The sizes that can be too large: ids, names and the text. -/
theorem validLeaves_textDictionary (defaults : UserDefaults) (receiver : Option UsersState) {key : String}
    {now : Int} (hkey : lengthOfBytes key = 20) (hnow : inIntRange now = true) (text : Option String) :
    validLeaves (textDictionary defaults receiver key now text) = true ↔
      ∀ t ∈ [signedInId defaults, signedInName defaults, receiverId receiver, receiverName receiver,
        text.getD ""], lengthOfBytes t ≤ kFirebaseMaxLeafSize := by
  have htime : lengthOfBytes (toString now) ≤ kFirebaseMaxLeafSize := by
    have h₁ := lengthOfBytes_le (toString now)
    have h₂ := length_toString_le hnow
    unfold kFirebaseMaxLeafSize
    omega
  have hkey' : lengthOfBytes key ≤ kFirebaseMaxLeafSize := by
    rw [hkey]; decide
  have htype : lengthOfBytes MessageType.text.rawValue ≤ kFirebaseMaxLeafSize := by decide
  rw [Int.toString_eq_repr] at htime
  simp [validLeaves, textDictionary, MessageClass.createDictonary, stampMessage, textMessage,
    isValidLeafValue, UsersState.init, signedInId, signedInName, receiverId, receiverName, htime, hkey',
    htype]

/-! ## Results -/

section Results

variable {defaults : UserDefaults} {receiver : Option UsersState} {s : ChatVC}

/-- The receiver's devices observe the node a text is written to. -/
theorem receiveMessage_of_sendable (h : Sendable defaults receiver s) {device : UserDefaults}
    (hdevice : signedInId device = stringByTrimmingWhiteSpaceAndNewLine (receiverId receiver)) :
    receiveMessage device (signedInId defaults) =
      .ok (some (nodePath (signedInId defaults) (receiverId receiver))) := by
  rw [h.trimmed] at hdevice
  have hnonblank : signedInId device ≠ "" := hdevice ▸ h.nonblank
  have hchars : ∀ c ∈ (receiverId receiver).toList ++ (signedInId defaults).toList,
      c ∉ kInvalidPathCharacters := by
    intro c hc
    exact h.characters c (List.mem_append.mpr (List.mem_append.mp hc).symm)
  rw [receiveMessage_of_ids hnonblank h.sender, hdevice,
    (messageNodePath_eq_ok_iff h.nonblank).mpr ⟨hchars, rfl⟩, nodePath, createNode_comm h.nonblank h.sender,
    nodePath]

theorem message_decodeMessage (userDetails : Dict) (key : String) (now : Int) (text : Option String) :
    (decodeMessage userDetails (key, valForExport
      (nodeFrom (.dictionary (textDictionary defaults receiver key now text))))).message =
      some (stringByTrimmingWhiteSpaceAndNewLine (text.getD "")) := by
  rw [textDictionary, valForExport_createDictonary, decodeMessage, getDictionary_dictionary,
    MessageClass.init_createDictonary, ← getstringOf_eq_trimming]
  rfl

/-- A text that can be sent arrives. -/
theorem messageArrives_of_sendable (h : Sendable defaults receiver s) (key : AutoId s.db) (now : Int) :
    MessageArrives defaults receiver key.val s
      { txtMessage := none
        db := s.db.put (nodePath (signedInId defaults) (receiverId receiver) ++ [key.val])
          (nodeFrom (.dictionary (textDictionary defaults receiver key.val now s.txtMessage))) } := by
  refine ⟨_, _, (messageNodePath_eq_ok_iff h.sender).mpr ⟨h.characters, rfl⟩,
    PathTree.children_put_of_notMem (key.fresh _) _, ?_, ?_, rfl⟩
  · intro q hq
    rw [PathTree.leafAt_put hq]
    split
    · rename_i hprefix
      -- a path above the new child is above or at the node
      rcases List.prefix_concat_iff.mp hprefix with rfl | hprefix
      · exact absurd (List.prefix_refl _) hq
      · exact (h.above q hprefix).symm
    · rfl
  · intro device hdevice
    exact ⟨receiveMessage_of_sendable h hdevice, _, message_decodeMessage _ _ _ _, h.text, rfl⟩

/-- When the receiver observes the node of the raw id, the id has no white space at its ends. -/
theorem trimmed_of_receiveMessage {device : UserDefaults} (hsender : signedInId defaults ≠ "")
    (hreceiver : stringByTrimmingWhiteSpaceAndNewLine (receiverId receiver) ≠ "")
    (hdevice : signedInId device = stringByTrimmingWhiteSpaceAndNewLine (receiverId receiver))
    (h : receiveMessage device (signedInId defaults) =
      .ok (some (nodePath (signedInId defaults) (receiverId receiver)))) :
    Trimmed (receiverId receiver) := by
  rw [← hdevice] at hreceiver
  rw [receiveMessage_of_ids hreceiver hsender] at h
  cases hpath : messageNodePath (signedInId device) (signedInId defaults) with
  | error e => rw [hpath] at h; cases h
  | ok path =>
    rw [hpath] at h
    have hpieces := ((messageNodePath_eq_ok_iff hreceiver).mp hpath).2
    rw [Option.some.inj (Except.ok.inj h), nodePath, nodePath, createNode_comm hreceiver hsender, hdevice]
      at hpieces
    exact trimmed_of_pathPieces_eq hsender (List.cons.inj hpieces).2

/-- Only a text that can be sent arrives. -/
theorem sendable_of_messageArrives {key : AutoId s.db} {now : Int} {path : List String}
    (hsender : signedInId defaults ≠ "")
    (hreceiver : stringByTrimmingWhiteSpaceAndNewLine (receiverId receiver) ≠ "")
    (hnode : messageNodePath (signedInId defaults) (receiverId receiver) = .ok path)
    (hfits : ∀ t ∈ [signedInId defaults, signedInName defaults, receiverId receiver,
      receiverName receiver, s.txtMessage.getD ""], lengthOfBytes t ≤ kFirebaseMaxLeafSize)
    (h : MessageArrives defaults receiver key.val s
      { txtMessage := none
        db := s.db.put (path ++ [key.val])
          (nodeFrom (.dictionary (textDictionary defaults receiver key.val now s.txtMessage))) }) :
    Sendable defaults receiver s := by
  obtain ⟨path', child, hnode', -, hframe, hdevices, -⟩ := h
  obtain rfl : path = path' := Except.ok.inj (hnode.symm.trans hnode')
  obtain ⟨hchars, hpath⟩ := (messageNodePath_eq_ok_iff hsender).mp hnode
  obtain ⟨device, hdevice⟩ := exists_signedInId (receiverId receiver)
  obtain ⟨hobserved, text, -, htext, rfl⟩ := hdevices device hdevice
  have htrimmed := trimmed_of_receiveMessage hsender hreceiver hdevice (hpath ▸ hobserved)
  refine ⟨htext, hsender, fun hempty => ?_, htrimmed, hchars, hfits, fun q hq => ?_⟩
  · rw [hempty] at hreceiver
    exact hreceiver trimmed_empty
  · rw [← hpath] at hq
    have hshort : ¬ path ++ [key.val] <+: q := by
      intro hlong
      have := (hlong.trans hq).length_le
      simp at this
    rw [← hframe q hshort, PathTree.leafAt_put hshort, if_pos (hq.trans (List.prefix_append _ _))]

theorem cleared_ne (h : s.txtMessage.getD "" ≠ "") (db : FNode) :
    ({ txtMessage := none, db := db } : ChatVC) ≠ s := by
  rintro rfl
  exact h rfl

/-- A message that was not written does not arrive. -/
theorem not_messageArrives_of_db_eq {s' : ChatVC} {key : String} (h : s'.db = s.db) :
    ¬ MessageArrives defaults receiver key s s' := by
  rintro ⟨path, child, -, hchildren, -⟩
  have := congrArg List.length hchildren
  rw [h, List.length_append, List.length_singleton] at this
  omega

theorem Sendable.not_blank (h : Sendable defaults receiver s) :
    ¬ (signedInId defaults = "" ∨ stringByTrimmingWhiteSpaceAndNewLine (receiverId receiver) = "") := by
  rw [h.trimmed]
  exact not_or.mpr ⟨h.sender, h.nonblank⟩

/-- A typed text and two ids: the send is all or nothing exactly when the rest is in order. -/
theorem allOrNothing_iff_of_ids (htext : s.txtMessage.getD "" ≠ "") (hsender : signedInId defaults ≠ "")
    (hreceiver : stringByTrimmingWhiteSpaceAndNewLine (receiverId receiver) ≠ "") (key : AutoId s.db)
    {now : Int} (hnow : inIntRange now = true) :
    AllOrNothing defaults receiver key.val now s ↔ Sendable defaults receiver s := by
  rw [AllOrNothing, sendImage_of_ids _ _ _ _ htext hsender hreceiver]
  have hsizes := validLeaves_textDictionary defaults receiver key.size hnow s.txtMessage
  cases hpath : messageNodePath (signedInId defaults) (receiverId receiver) with
  | error e =>
    refine ⟨False.elim, fun h => ?_⟩
    rw [(messageNodePath_eq_ok_iff hsender).mpr ⟨h.characters, rfl⟩] at hpath
    cases hpath
  | ok path =>
    by_cases hfits : validLeaves (textDictionary defaults receiver key.val now s.txtMessage) = true
    · simp only [hfits, if_true]
      constructor
      · rintro (h | h)
        · exact sendable_of_messageArrives hsender hreceiver hpath (hsizes.mp hfits) h
        · exact absurd h (cleared_ne htext _)
      · intro h
        obtain rfl := ((messageNodePath_eq_ok_iff hsender).mp hpath).2
        exact .inl (messageArrives_of_sendable h key now)
    · simp only [hfits]
      exact ⟨False.elim, fun h => hfits (hsizes.mpr h.sizes)⟩

/-- **Sending text is all or nothing exactly when** nothing is typed, or the text is not blank, both
ids are present, the receiver's id has no white space at its ends, no character of the ids is
forbidden in a path, no string is too large, and no value is stored on the way to the node. -/
theorem text_all_or_nothing_iff (defaults : UserDefaults) (receiver : Option UsersState) (s : ChatVC)
    (key : AutoId s.db) {now : Int} (hnow : inIntRange now = true) :
    AllOrNothing defaults receiver key.val now s ↔
      s.txtMessage.getD "" = "" ∨ Sendable defaults receiver s := by
  by_cases htext : s.txtMessage.getD "" = ""
  · rw [AllOrNothing, sendImage_of_empty _ _ _ _ htext]
    exact ⟨fun _ => .inl htext, fun _ => .inr rfl⟩
  rw [or_iff_right htext]
  by_cases hblank : signedInId defaults = "" ∨
      stringByTrimmingWhiteSpaceAndNewLine (receiverId receiver) = ""
  · rw [AllOrNothing, sendImage_of_blank _ _ _ _ htext hblank]
    constructor
    · rintro (h | h)
      · exact absurd h (not_messageArrives_of_db_eq rfl)
      · exact absurd h (cleared_ne htext s.db)
    · intro h
      exact absurd hblank h.not_blank
  · obtain ⟨hsender, hreceiver⟩ := not_or.mp hblank
    exact allOrNothing_iff_of_ids htext hsender hreceiver key hnow

/-- A key for the first message of an empty database. -/
def AutoId.first : AutoId .empty where
  val := "-N0123456789abcdefgh"
  size := by decide
  fresh := fun path => by rw [PathTree.get_empty]; exact List.not_mem_nil

/-- The text `hello` from user `1` to user `2` arrives. -/
theorem text_all_or_nothing_hello :
    ∃ (defaults : UserDefaults) (receiver : Option UsersState),
      Sendable defaults receiver ⟨some "hello", .empty⟩ ∧ inIntRange 1700000000000 = true ∧
        AllOrNothing defaults receiver AutoId.first.val 1700000000000 ⟨some "hello", .empty⟩ := by
  let defaults : UserDefaults := ⟨some (.data (some [(ChatParameter.userId, .string "1")]))⟩
  let receiver : Option UsersState := some { userId := some "2", name := some "B" }
  have hchars : ((signedInId defaults).toList ++ (receiverId receiver).toList).all
      (fun c => !kInvalidPathCharacters.contains c) = true := by decide
  have hsend : Sendable defaults receiver ⟨some "hello", .empty⟩ :=
    { text := by decide
      sender := by decide
      nonblank := by decide
      trimmed := by decide
      characters := fun c hc => by simpa using List.all_eq_true.mp hchars c hc
      sizes := by decide
      above := fun q _ => by rw [PathTree.leafAt, PathTree.get_empty]; rfl }
  have hnow : inIntRange 1700000000000 = true := by decide
  refine ⟨defaults, receiver, hsend, hnow, ?_⟩
  rw [text_all_or_nothing_iff defaults receiver ⟨some "hello", .empty⟩ AutoId.first hnow]
  exact .inr hsend

/-- User `1` types `hello` to a listed user without an id: nothing is sent, and the text is gone. -/
theorem text_lost_to_blank_receiver :
    ¬ ∀ (defaults : UserDefaults) (receiver : Option UsersState) (s : ChatVC) (key : AutoId s.db)
      (now : Int), inIntRange now = true → AllOrNothing defaults receiver key.val now s := by
  intro h
  have htext : (ChatVC.mk (some "hello") .empty).txtMessage.getD "" ≠ "" := by decide
  have hlost := h ⟨some (.data (some [(ChatParameter.userId, .string "1")]))⟩ (some { userId := some "" })
    ⟨some "hello", .empty⟩ AutoId.first 1700000000000 (by decide)
  rw [AllOrNothing, sendImage_of_blank _ _ _ _ htext (.inr (by decide))] at hlost
  rcases hlost with hlost | hlost
  · exact absurd hlost (not_messageArrives_of_db_eq rfl)
  · exact cleared_ne htext _ hlost

end Results

end ChatApplication
