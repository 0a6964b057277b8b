import ChatApplication.SignIn

/-!
# Scene callbacks (`SceneDelegate.swift`)

A device runs one scene.  UIKit moves the scene between phases and calls the delegate, which
publishes the presence of the signed-in user with `onlineState`; connecting publishes nothing.

* `ScenePhase.next` — which callback UIKit makes in which phase, and the phase it leads to.
* `SceneCallback.published_iff` — a callback that publishes publishes `"1"` exactly when it leads
  to the foreground.
* `onlineState_signedIn` — **one presence update** of a signed-in user: the record holds the stored
  strings and the state.
* `init_record` — what a record that holds them decodes to.
-/

namespace ChatApplication

/-! ## Phases and callbacks -/

/-- `UIScene.ActivationState`. -/
inductive ScenePhase where
  | unattached
  | background
  | foregroundInactive
  | foregroundActive
  deriving DecidableEq, Repr

/-- The scene is in the foreground, active or inactive. -/
def ScenePhase.foreground : ScenePhase → Bool
  | .foregroundInactive => true
  | .foregroundActive => true
  | _ => false

inductive SceneCallback where
  | willConnectTo
  | willEnterForeground
  | didBecomeActive
  | willResignActive
  | didEnterBackground
  | didDisconnect
  deriving DecidableEq, Repr

/-- The phase after a callback, when UIKit can make it.  A session may be discarded in any
phase. -/
def ScenePhase.next : ScenePhase → SceneCallback → Option ScenePhase
  | .unattached, .willConnectTo => some .background
  | .background, .willEnterForeground => some .foregroundInactive
  | .foregroundInactive, .didBecomeActive => some .foregroundActive
  | .foregroundActive, .willResignActive => some .foregroundInactive
  | .foregroundInactive, .didEnterBackground => some .background
  | .unattached, .didDisconnect => none
  | _, .didDisconnect => some .unattached
  | _, _ => none

/-- The state a callback publishes. -/
def SceneCallback.published : SceneCallback → Option String
  | .willConnectTo => none
  | .willEnterForeground => some "1"
  | .didBecomeActive => some "1"
  | .willResignActive => some "1"
  | .didEnterBackground => some "0"
  | .didDisconnect => some "0"

/-- The callbacks of `SceneDelegate`; `willConnectTo` only chooses the first screen. -/
def sceneCallback (defaults : UserDefaults) (now : Int) (c : SceneCallback) (db : FNode) :
    Except NSException FNode :=
  match c.published with
  | none => .ok db
  | some state => onlineState defaults now state db

theorem SceneCallback.published_iff {c : SceneCallback} {p p' : ScenePhase} (h : p.next c = some p')
    {state : String} (hs : c.published = some state) :
    (state = "0" ∨ state = "1") ∧ (state = "1" ↔ p'.foreground = true) := by
  cases c <;> cases hs <;> cases p <;> cases h <;> decide

theorem SceneCallback.foreground_of_not_published {c : SceneCallback} {p p' : ScenePhase}
    (h : p.next c = some p') (hs : c.published = none) :
    p.foreground = false ∧ p'.foreground = false := by
  cases c <;> cases hs
  cases p <;> cases h
  exact ⟨rfl, rfl⟩

/-! ## The record of a signed-in user -/

section Record

variable (deviceID : String) (user : GoogleProfile)

/-- The id a user signs in with, as the application reads it. -/
def GoogleProfile.id (user : GoogleProfile) : String := stringByTrimmingWhiteSpaceAndNewLine user.userID

/-- `userReference.child(id)`: the path of the record of a user. -/
def recordPath (id : String) : Except NSException (List String) := child [ChatParameter.UserState] id

/-- The strings of the record after `onlineState(state:)` at the clock reading `now`. -/
def recordStrings (now : Int) (state : String) : List (String × String) :=
  storedRecord deviceID user ++
    [(ChatParameter.OnlineState, stringByTrimmingWhiteSpaceAndNewLine state),
     (ChatParameter.timeStamp, getstringOf (some (getstring (some (.int now)))))]

/-- The record holds a list of strings. -/
def HoldsStrings (record : FNode) (l : List (String × String)) : Prop :=
  ∀ e ∈ l, record.child e.1 = .leaf (.string e.2)

theorem recordKeys_nodup (now : Int) (state : String) :
    ((recordStrings deviceID user now state).map Prod.fst).Nodup := by
  have : (recordStrings deviceID user now state).map Prod.fst =
      [ChatParameter.userId, ChatParameter.name, ChatParameter.email, ChatParameter.profileImage,
       ChatParameter.deviceID, ChatParameter.mobileNumber, ChatParameter.OnlineState,
       ChatParameter.timeStamp] := rfl
  rw [this]
  decide

theorem pathPieces_recordKey {now : Int} {state : String} {e : String × String}
    (h : e ∈ recordStrings deviceID user now state) : pathPieces e.1 = [e.1] := by
  have hkeys : ∀ k ∈ [ChatParameter.userId, ChatParameter.name, ChatParameter.email,
      ChatParameter.profileImage, ChatParameter.deviceID, ChatParameter.mobileNumber,
      ChatParameter.OnlineState, ChatParameter.timeStamp], pathPieces k = [k] := by decide
  exact hkeys e.1 (List.mem_map_of_mem (f := Prod.fst) h)

/-- `updateChildValues` with a dictionary of strings: the node at the path holds them. -/
theorem holdsStrings_updateChildValues {l : List (String × String)} (hnodup : (l.map Prod.fst).Nodup)
    (hkeys : ∀ e ∈ l, pathPieces e.1 = [e.1]) (path : List String) (db : FNode) :
    HoldsStrings ((updateChildValues path (l.map fun e => (e.1, .string e.2)) db).get path) l := by
  have hfold : updateChildValues path (l.map fun e => (e.1, .string e.2)) db =
      (l.map fun e => ([e.1], PathTree.leaf (Leaf.string e.2))).foldl
        (fun t e => t.put (path ++ e.1) e.2) db := by
    unfold updateChildValues
    rw [List.foldl_map, List.foldl_map]
    refine List.foldl_ext _ _ _ fun t e he => ?_
    rw [hkeys e he, nodeFrom]
  intro e he
  have hchild := PathTree.child_foldl_put (l := l.map fun e => (e.1, PathTree.leaf (Leaf.string e.2)))
    (by rwa [List.map_map]) (List.mem_map_of_mem he) (db.get path)
  rw [List.foldl_map] at hchild
  rw [hfold, PathTree.get_foldl_put, List.foldl_map]
  exact hchild

theorem setString_storedRecord (state timeStamp : String) :
    (Dict.setString (Dict.setString ((storedRecord deviceID user).map fun e => (e.1, .string e.2))
      ChatParameter.OnlineState state) ChatParameter.timeStamp timeStamp) =
      (storedRecord deviceID user ++
        [(ChatParameter.OnlineState, state), (ChatParameter.timeStamp, timeStamp)]).map
          fun e => (e.1, .string e.2) := by
  unfold Dict.setString
  rw [List.upsert_of_notMem (k := ChatParameter.OnlineState), List.upsert_of_notMem]
  · simp
  · simp only [List.map_append, List.map_map]
    show _ ∉ [ChatParameter.userId, ChatParameter.name, ChatParameter.email,
      ChatParameter.profileImage, ChatParameter.deviceID, ChatParameter.mobileNumber,
      ChatParameter.OnlineState]
    decide
  · rw [List.map_map]
    show _ ∉ [ChatParameter.userId, ChatParameter.name, ChatParameter.email,
      ChatParameter.profileImage, ChatParameter.deviceID, ChatParameter.mobileNumber]
    decide

variable {user} {path : List String}

/-- A blank id has no path. -/
theorem ne_empty_of_recordPath {id : String} (hpath : recordPath id = .ok path) : id ≠ "" := by
  rintro rfl
  cases hpath

theorem getLast?_recordPath {id : String} (hpath : recordPath id = .ok path)
    (hkey : isValidKey id = true) : path.getLast? = some id := by
  rw [recordPath, child_of_isValidKey hkey] at hpath
  cases hpath
  rfl

theorem getstring_userId_signedIn (hpath : recordPath user.id = .ok path) :
    (savedDefaults deviceID user).getuserDetails.getstring ChatParameter.userId = user.id := by
  have h := congrArg UsersState.userId
    (userState_signIn deviceID (ne_empty_of_recordPath hpath))
  exact Option.some.inj h

/-- Without a stored record a presence update returns at its guard. -/
theorem onlineState_signedOut (now : Int) (state : String) (db : FNode) :
    onlineState {} now state db = .ok db := by
  have hid : (({} : UserDefaults).getuserDetails).getstring ChatParameter.userId = "" := by decide
  simp only [onlineState, hid, ChatParameter.emptyString, if_true]

/-- **One presence update** of a signed-in user. -/
theorem onlineState_signedIn (hpath : recordPath user.id = .ok path) (now : Int) (state : String)
    (db : FNode) :
    ∃ db', onlineState (savedDefaults deviceID user) now state db = .ok db' ∧
      HoldsStrings (db'.get path) (recordStrings deviceID user now state) := by
  have hdetails := getuserDetails_signIn deviceID (ne_empty_of_recordPath hpath)
  have hid := getstring_userId_signedIn deviceID hpath
  rw [hdetails] at hid
  have hchild : child [ChatParameter.UserState] user.id = .ok path := hpath
  refine ⟨_, ?_, holdsStrings_updateChildValues (recordKeys_nodup deviceID user now state)
    (fun e he => pathPieces_recordKey deviceID user he) path db⟩
  unfold onlineState
  simp only [hdetails, hid, ChatParameter.emptyString, ne_empty_of_recordPath hpath, if_false, hchild,
    setString_storedRecord, getDictionary_dictionary]
  rfl

/-! ## What the record decodes to -/

theorem lookup_valsForExport (c : List (String × FNode)) (k : String) :
    (valsForExport c).lookup k = (c.lookup k).map valForExport := by
  induction c with
  | nil => rfl
  | cons e c ih =>
    obtain ⟨k', n⟩ := e
    rw [valsForExport, List.lookup_cons, List.lookup_cons, ih]
    cases k == k' <;> rfl

/-- A string of a record, as another client reads it. -/
theorem getstring_record {record : FNode} {l : List (String × String)} (h : HoldsStrings record l)
    {key : String} (hkey : key ∈ l.map Prod.fst) (hindex : isIndexKey key = false) :
    ∀ e ∈ l, (getDictionary (some (valForExport record))).getstring e.1 =
      stringByTrimmingWhiteSpaceAndNewLine e.2 := by
  have hlookup : ∀ e ∈ l, record.children.lookup e.1 = some (.leaf (.string e.2)) := by
    intro e he
    have hchild := h e he
    unfold PathTree.child at hchild
    cases hl : record.children.lookup e.1 with
    | none => rw [hl] at hchild; cases hchild
    | some n => rw [hl] at hchild; rw [← hchild]; rfl
  obtain ⟨e₀, he₀, rfl⟩ := List.mem_map.mp hkey
  cases record with
  | leaf a => cases hlookup e₀ he₀
  | node c =>
    have hexport : valForExport (.node c) = .dictionary (valsForExport c) := by
      rw [valForExport]
      have hmem : (e₀.1, PathTree.leaf (Leaf.string e₀.2)) ∈ c :=
        List.mem_of_lookup_eq_some (hlookup e₀ he₀)
      rw [valsForExport_eq]
      exact exportChildren_of_not_index (List.mem_map_of_mem hmem) hindex
    intro e he
    have hval := congrArg (Option.map valForExport) (hlookup e he)
    rw [PathTree.children, ← lookup_valsForExport] at hval
    rw [hexport, getDictionary_dictionary, Dict.getstring, hval]
    rfl

end Record

end ChatApplication
