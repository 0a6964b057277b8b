import ChatApplication.Halper.ChatSharedClass

/-!
# Messages, users and the stored user record (`FirebaseModels.swift`, `ChatConstant.swift`)

`MessageClass` and `UsersState` are decoded from and encoded to dictionaries by separate
hand-written field lists; the keys are the constants of `ChatParameter`.  The record of the
signed-in user is kept in `UserDefaults` as the archive of an encoded `UsersState`.

* `MessageClass.init_createDictonary` — decoding an encoded message gives its fields, trimmed.
* `message_round_trip` — the same with the time, and for decoded messages.
* `UsersState.init_createDictonary` — the same for a user record.
* `getuserDetails_setuserDetials` — a user record with a non-blank id is read back.
-/

namespace ChatApplication

/-! ## Keys -/

namespace ChatParameter

def content := "content"
def Message := "messages"
def UserState := "userState"
def timeStamp := "timeStamp"
def profileImage := "profileImage"
def OnlineState := "onlineState"
def emptyString := ""
def uid := "uid"
def senderId := "senderId"
def senderName := "senderName"
def receiverId := "receiverId"
def name := "name"
def receiverName := "receiverName"
def mediaType := "mediaType"
def userId := "userId"
def isOnline := "onlineState"
def firstName := "firstName"
def lastName := "lastName"
def email := "email"
def mobileNumber := "mobileNumber"
def deviceID := "deviceID"

end ChatParameter

/-- `messageData[key]` read through `String.getstring`. -/
def Dict.getstring (d : Dict) (key : String) : String := ChatApplication.getstring (d.lookup key)

/-! ## Messages -/

/-- `messageType`. -/
inductive MessageType where
  | text
  | photos
  | audio
  deriving DecidableEq, Repr

def MessageType.rawValue : MessageType → String
  | .text => "text"
  | .photos => "photos"
  | .audio => "audio"

/-- `MessageFrom`. -/
inductive MessageFrom where
  | sender
  | receiver
  deriving DecidableEq, Repr

/-- `MessageClass`, without the fields no modelled function reads (`isOnline`, `userDetails`). -/
structure MessageClass where
  uid : Option String := none
  senderId : Option String := none
  senderName : Option String := none
  receiverId : Option String := none
  receiverName : Option String := none
  message : Option String := none
  sendingTime : Int := 0
  mediaType : Option MessageType := none
  messageFrom : Option MessageFrom := none
  deriving DecidableEq, Repr

/-- The switch on the raw media type in `MessageClass.init`. -/
def mediaTypeOf (raw : String) : MessageType :=
  if raw = "text" then .text
  else if raw = "photos" then .photos
  else if raw = "audio" then .audio
  else .text

/-- `MessageClass.init(uid:messageData:)` on a device whose stored user record is
`userDetails`. -/
def MessageClass.init (userDetails : Dict) (uid : String) (messageData : Dict) : MessageClass where
  uid := getstringOf (some uid)
  senderId := messageData.getstring ChatParameter.senderId
  senderName := messageData.getstring ChatParameter.senderName
  receiverId := messageData.getstring ChatParameter.receiverId
  receiverName := messageData.getstring ChatParameter.receiverName
  message := messageData.getstring ChatParameter.content
  sendingTime := getint (messageData.lookup ChatParameter.timeStamp)
  messageFrom :=
    if messageData.getstring ChatParameter.senderId = userDetails.getstring ChatParameter.userId
    then MessageFrom.sender else MessageFrom.receiver
  mediaType := mediaTypeOf (messageData.getstring ChatParameter.mediaType)

/-- `MessageClass.createDictonary` at the clock reading `now` (milliseconds). -/
def MessageClass.createDictonary (now : Int) (objects : MessageClass) : Dict :=
  [(ChatParameter.uid, .string (objects.uid.getD "")),
   (ChatParameter.senderId, .string (objects.senderId.getD "")),
   (ChatParameter.senderName, .string (objects.senderName.getD "")),
   (ChatParameter.receiverId, .string (objects.receiverId.getD "")),
   (ChatParameter.receiverName, .string (objects.receiverName.getD "")),
   (ChatParameter.content, .string (objects.message.getD "")),
   (ChatParameter.timeStamp, .string (toString now)),
   (ChatParameter.mediaType, .string ((objects.mediaType.map MessageType.rawValue).getD ""))]

/-- An encoded message is a dictionary of strings. -/
theorem MessageClass.createDictonary_strings (now : Int) (m : MessageClass) :
    ∃ d : List (String × String),
      m.createDictonary now = (d.map fun e => (e.1, .string e.2)) ∧
        ChatParameter.uid ∈ d.map Prod.fst := by
  refine ⟨[(ChatParameter.uid, m.uid.getD ""), (ChatParameter.senderId, m.senderId.getD ""),
    (ChatParameter.senderName, m.senderName.getD ""),
    (ChatParameter.receiverId, m.receiverId.getD ""),
    (ChatParameter.receiverName, m.receiverName.getD ""),
    (ChatParameter.content, m.message.getD ""), (ChatParameter.timeStamp, toString now),
    (ChatParameter.mediaType, (m.mediaType.map MessageType.rawValue).getD "")], rfl, ?_⟩
  exact List.mem_cons_self

theorem mediaTypeOf_rawValue (m : Option MessageType) :
    mediaTypeOf (stringByTrimmingWhiteSpaceAndNewLine ((m.map MessageType.rawValue).getD "")) =
      m.getD .text := by
  rcases m with _ | (_ | _ | _) <;> decide

theorem Dict.getstring_createDictonary (now : Int) (m : MessageClass) :
    (m.createDictonary now).getstring ChatParameter.senderId = getstringOf m.senderId ∧
    (m.createDictonary now).getstring ChatParameter.senderName = getstringOf m.senderName ∧
    (m.createDictonary now).getstring ChatParameter.receiverId = getstringOf m.receiverId ∧
    (m.createDictonary now).getstring ChatParameter.receiverName = getstringOf m.receiverName ∧
    (m.createDictonary now).getstring ChatParameter.content = getstringOf m.message ∧
    mediaTypeOf ((m.createDictonary now).getstring ChatParameter.mediaType) = m.mediaType.getD .text :=
  ⟨getstringOf_getD _, getstringOf_getD _, getstringOf_getD _, getstringOf_getD _, getstringOf_getD _,
    mediaTypeOf_rawValue _⟩

/-- **Decoding an encoded message** gives its fields, trimmed, and its media type; the
direction is `sender` on the device of the user the message is stamped with. -/
theorem MessageClass.init_createDictonary (userDetails : Dict) (k : String) (now : Int)
    (m : MessageClass) :
    MessageClass.init userDetails k (m.createDictonary now) =
      { uid := stringByTrimmingWhiteSpaceAndNewLine k
        senderId := getstringOf m.senderId
        senderName := getstringOf m.senderName
        receiverId := getstringOf m.receiverId
        receiverName := getstringOf m.receiverName
        message := getstringOf m.message
        sendingTime := getint (some (.string (toString now)))
        mediaType := m.mediaType.getD .text
        messageFrom :=
          if getstringOf m.senderId = userDetails.getstring ChatParameter.userId
          then MessageFrom.sender else MessageFrom.receiver } := by
  obtain ⟨h₁, h₂, h₃, h₄, h₅, h₆⟩ := Dict.getstring_createDictonary now m
  have htime : (m.createDictonary now).lookup ChatParameter.timeStamp = some (.string (toString now)) :=
    rfl
  simp only [MessageClass.init, h₁, h₂, h₃, h₄, h₅, h₆, htime, getstringOf_some]

theorem Dict.trimming_getstring (d : Dict) (key : String) :
    stringByTrimmingWhiteSpaceAndNewLine (d.getstring key) = d.getstring key :=
  trimmed_getstring (d.lookup key)

theorem getstringOf_eq_trimming (s : Option String) :
    getstringOf s = stringByTrimmingWhiteSpaceAndNewLine (s.getD "") := by
  rw [← getstringOf_getD, getstringOf_some]

/-- **Decoding undoes encoding.**  A message comes back with its fields trimmed, the key it is
stored under and the time it is stamped with; a decoded message comes back unchanged but for the
time. -/
theorem message_round_trip (userDetails : Dict) {now : Int} (hnow : inIntRange now = true) :
    (∀ (k : String) (m : MessageClass),
      MessageClass.init userDetails k (m.createDictonary now) =
        { uid := stringByTrimmingWhiteSpaceAndNewLine k
          senderId := stringByTrimmingWhiteSpaceAndNewLine (m.senderId.getD "")
          senderName := stringByTrimmingWhiteSpaceAndNewLine (m.senderName.getD "")
          receiverId := stringByTrimmingWhiteSpaceAndNewLine (m.receiverId.getD "")
          receiverName := stringByTrimmingWhiteSpaceAndNewLine (m.receiverName.getD "")
          message := stringByTrimmingWhiteSpaceAndNewLine (m.message.getD "")
          sendingTime := now
          mediaType := m.mediaType.getD .text
          messageFrom :=
            if stringByTrimmingWhiteSpaceAndNewLine (m.senderId.getD "") =
              userDetails.getstring ChatParameter.userId
            then MessageFrom.sender else MessageFrom.receiver }) ∧
    ∀ (uid : String) (messageData : Dict) (m : MessageClass),
      m = MessageClass.init userDetails uid messageData →
        MessageClass.init userDetails (m.uid.getD "") (m.createDictonary now) =
          { m with sendingTime := now } := by
  constructor
  · intro k m
    rw [MessageClass.init_createDictonary, getint_toString hnow]
    simp only [getstringOf_eq_trimming]
  · rintro uid messageData m rfl
    rw [MessageClass.init_createDictonary, getint_toString hnow]
    simp only [MessageClass.init, Dict.trimming_getstring, getstringOf_some, Option.getD_some,
      trimming_trimming]

/-- A message stamped with the least clock value of `Int`. -/
theorem message_round_trip_least :
    ∃ now : Int, inIntRange now = true ∧
      (MessageClass.init [] "-N" (MessageClass.createDictonary now { message := some " hi" })).sendingTime =
        -9223372036854775808 := by
  have hnow : inIntRange (-9223372036854775808) = true := by decide
  exact ⟨_, hnow, by rw [(message_round_trip [] hnow).1]⟩

/-! ## Users -/

/-- `UsersState`, without `isSelected`, which nothing reads. -/
structure UsersState where
  userId : Option String := none
  name : Option String := none
  first_name : Option String := none
  last_name : Option String := none
  email : Option String := none
  mobile_number : Option String := none
  profile_image : Option String := none
  deviceID : Option String := none
  isOnline : Option Bool := none
  deriving DecidableEq, Repr

/-- `UsersState.init(userdata:)`. -/
def UsersState.init (userdata : Dict) : UsersState where
  userId := userdata.getstring ChatParameter.userId
  first_name := userdata.getstring ChatParameter.firstName
  last_name := userdata.getstring ChatParameter.lastName
  email := userdata.getstring ChatParameter.email
  name := userdata.getstring ChatParameter.name
  mobile_number := userdata.getstring ChatParameter.mobileNumber
  profile_image := userdata.getstring ChatParameter.profileImage
  isOnline := userdata.getstring ChatParameter.isOnline == "1"
  deviceID := userdata.getstring ChatParameter.deviceID

/-- `UsersState.createDictonary` on the device with identifier `deviceID`
(`UIDevice.current.identifierForVendor`). -/
def UsersState.createDictonary (deviceID : String) (objects : UsersState) : Dict :=
  [(ChatParameter.userId, .string (objects.userId.getD "")),
   (ChatParameter.name, .string (objects.name.getD "")),
   (ChatParameter.email, .string (objects.email.getD "")),
   (ChatParameter.profileImage, .string (objects.profile_image.getD "")),
   (ChatParameter.deviceID, .string deviceID),
   (ChatParameter.mobileNumber, .string (objects.mobile_number.getD ""))]

/-- Decoding an encoded user record gives its fields, trimmed; names in two parts and the
presence flag are not part of the encoding. -/
theorem UsersState.init_createDictonary (deviceID : String) (u : UsersState) :
    UsersState.init (u.createDictonary deviceID) =
      { userId := getstringOf (u.userId.getD "")
        name := getstringOf (u.name.getD "")
        first_name := ""
        last_name := ""
        email := getstringOf (u.email.getD "")
        mobile_number := getstringOf (u.mobile_number.getD "")
        profile_image := getstringOf (u.profile_image.getD "")
        deviceID := getstringOf (some deviceID)
        isOnline := false } := rfl

/-! ## The stored user record -/

/-- An object under a key of `UserDefaults`: archived data, which unarchives to a dictionary or
not, or an object of another type. -/
inductive StoredObject where
  | data (archive : Option Dict)
  | other
  deriving Repr

/-- `UserDefaults`: the object under `"chatUserDetails"`. -/
structure UserDefaults where
  chatUserDetails : Option StoredObject := none
  deriving Repr

/-- `UserDefaults.getuserDetails`. -/
def UserDefaults.getuserDetails (d : UserDefaults) : Dict :=
  match d.chatUserDetails with
  | none => emptyDictionary
  | some .other => emptyDictionary
  | some (.data none) => emptyDictionary
  | some (.data (some userLoggedInDetails)) => userLoggedInDetails

/-- `UserDefaults.setuserDetials`; the archiver gives back what it was given. -/
def UserDefaults.setuserDetials (deviceID : String) (loggedInUserDetails : Option UsersState) :
    UserDefaults :=
  if getstringOf (loggedInUserDetails.bind UsersState.userId) = "" then ⟨none⟩
  else ⟨some (.data (loggedInUserDetails.map (UsersState.createDictonary deviceID)))⟩

/-- A user record with a non-blank id is read back as it was encoded. -/
theorem getuserDetails_setuserDetials {deviceID : String} {u : UsersState}
    (h : getstringOf u.userId ≠ "") :
    (UserDefaults.setuserDetials deviceID (some u)).getuserDetails = u.createDictonary deviceID := by
  simp [UserDefaults.setuserDetials, UserDefaults.getuserDetails, h]

end ChatApplication
