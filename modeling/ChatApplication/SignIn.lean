import ChatApplication.Halper.ChatHalper

/-!
# Signing in (`SKGoogleLogin.swift`, `ViewController.swift`)

A completed Google sign-in becomes a dictionary, the dictionary a `UsersState`, the `UsersState`
the stored user record.  Every step trims; `saveUserDetails` stores the e-mail address as the
mobile number as well.

* `getuserDetails_signIn` — the stored record of a device after a sign-in.
* `userState_signIn` — the user every later `UsersState(userdata: getuserDetails())` gives.
-/

namespace ChatApplication

/-- The profile strings of a `GIDGoogleUser`. -/
structure GoogleProfile where
  userID : String
  email : String
  name : String
  imageURL : String
  deriving DecidableEq, Repr

/-- `SKGoogleLogin.sign(didSignInFor:)`: the dictionary handed to the sign-in closure. -/
def socialData (user : GoogleProfile) : Dict :=
  [("social_id", .string (getstringOf (some user.userID))),
   ("email", .string (getstringOf (some user.email))),
   ("name", .string (getstringOf (some user.name))),
   ("profile_pic", .string (getstringOf (some user.imageURL))),
   ("social_type", .string "Google Login")]

/-- The `UsersState` of `ViewController.saveUserDetails`. -/
def savedUserDetails (userInfo : Dict) : UsersState where
  userId := userInfo.getstring "social_id"
  name := userInfo.getstring "name"
  profile_image := userInfo.getstring "profile_pic"
  mobile_number := userInfo.getstring "email"
  email := userInfo.getstring "email"

/-- The `UserDefaults` after `ViewController.saveUserDetails` on the device `deviceID`. -/
def savedDefaults (deviceID : String) (user : GoogleProfile) : UserDefaults :=
  UserDefaults.setuserDetials deviceID (some (savedUserDetails (socialData user)))

/-- `ViewController.saveUserDetails`: store the record, then publish presence. -/
def saveUserDetails (deviceID : String) (user : GoogleProfile) (now : Int) (db : FNode) :
    Except NSException (UserDefaults × FNode) :=
  match onlineState (savedDefaults deviceID user) now "1" db with
  | .error e => .error e
  | .ok db' => .ok (savedDefaults deviceID user, db')

theorem saveUserDetails_eq {deviceID : String} {user : GoogleProfile} {now : Int} {db db' : FNode}
    (h : onlineState (savedDefaults deviceID user) now "1" db = .ok db') :
    saveUserDetails deviceID user now db = .ok (savedDefaults deviceID user, db') := by
  unfold saveUserDetails
  rw [h]

/-- The record a sign-in stores: the profile strings, trimmed. -/
def storedRecord (deviceID : String) (user : GoogleProfile) : List (String × String) :=
  [(ChatParameter.userId, stringByTrimmingWhiteSpaceAndNewLine user.userID),
   (ChatParameter.name, stringByTrimmingWhiteSpaceAndNewLine user.name),
   (ChatParameter.email, stringByTrimmingWhiteSpaceAndNewLine user.email),
   (ChatParameter.profileImage, stringByTrimmingWhiteSpaceAndNewLine user.imageURL),
   (ChatParameter.deviceID, deviceID),
   (ChatParameter.mobileNumber, stringByTrimmingWhiteSpaceAndNewLine user.email)]

theorem createDictonary_savedUserDetails (deviceID : String) (user : GoogleProfile) :
    (savedUserDetails (socialData user)).createDictonary deviceID =
      (storedRecord deviceID user).map fun e => (e.1, .string e.2) := by
  have hfield : ∀ s : String,
      getstring (some (.string (getstringOf (some s)))) = stringByTrimmingWhiteSpaceAndNewLine s := by
    intro s
    simp
  have hid := hfield user.userID
  have hname := hfield user.name
  have hmail := hfield user.email
  have hpic := hfield user.imageURL
  have hread : savedUserDetails (socialData user) =
      { userId := getstring (some (.string (getstringOf (some user.userID))))
        name := getstring (some (.string (getstringOf (some user.name))))
        profile_image := getstring (some (.string (getstringOf (some user.imageURL))))
        mobile_number := getstring (some (.string (getstringOf (some user.email))))
        email := getstring (some (.string (getstringOf (some user.email)))) } := rfl
  rw [hread, hid, hname, hmail, hpic]
  rfl

/-- **The stored record after a sign-in** with a non-blank id. -/
theorem getuserDetails_signIn (deviceID : String) {user : GoogleProfile}
    (h : stringByTrimmingWhiteSpaceAndNewLine user.userID ≠ "") :
    (savedDefaults deviceID user).getuserDetails =
      (storedRecord deviceID user).map fun e => (e.1, .string e.2) := by
  have hid : getstringOf (savedUserDetails (socialData user)).userId ≠ "" := by
    have : getstringOf (savedUserDetails (socialData user)).userId =
        getstringOf (some (getstring (some (.string (getstringOf (some user.userID)))))) := rfl
    rw [this]
    simpa using h
  rw [savedDefaults, getuserDetails_setuserDetials hid, createDictonary_savedUserDetails]

/-- The signed-in user as the application reads it back. -/
theorem userState_signIn (deviceID : String) {user : GoogleProfile}
    (h : stringByTrimmingWhiteSpaceAndNewLine user.userID ≠ "") :
    UsersState.init (savedDefaults deviceID user).getuserDetails =
      { userId := stringByTrimmingWhiteSpaceAndNewLine user.userID
        name := stringByTrimmingWhiteSpaceAndNewLine user.name
        first_name := ""
        last_name := ""
        email := stringByTrimmingWhiteSpaceAndNewLine user.email
        mobile_number := stringByTrimmingWhiteSpaceAndNewLine user.email
        profile_image := stringByTrimmingWhiteSpaceAndNewLine user.imageURL
        deviceID := getstringOf (some deviceID)
        isOnline := false } := by
  rw [getuserDetails_signIn deviceID h, ← createDictonary_savedUserDetails, UsersState.init_createDictonary]
  simp [savedUserDetails, socialData, Dict.getstring, List.lookup_cons]

end ChatApplication
