import ChatApplication.Lib.Runs
import ChatApplication.SceneDelegate
import Mathlib.Data.Fintype.Defs

/-!
# Published profile and presence

The record `userState/<id>` of a user is written by the sign-in and rewritten by every scene
callback that publishes.

## One device

A run of a device is made of sign-ins, scene callbacks in the order UIKit allows, and restarts: a
restart ends the process in any phase, without a callback.

* `Device.step_signedIn` — after the sign-in every event leaves the record with the stored strings
  and the state published last.
* `published_presence` — what other clients read after every event that follows a sign-in.  The
  state is that of the scene, except that a process killed in the foreground stays online until
  the next callback that publishes.

## Several devices of one account

Every device writes the same record, so the state in it is that of the device that published
last.

* `account_presence` — the stored state, for every interleaving; it is that of the account as
  long as no device leaves the foreground while another one is in it.
-/

namespace ChatApplication

open Runs

/-! ## One device -/

/-- The local store of a device and the phase of its scene. -/
structure Device where
  defaults : UserDefaults := {}
  phase : ScenePhase := .unattached

inductive DeviceEvent where
  | signIn (user : GoogleProfile) (now : Int)
  | scene (c : SceneCallback) (now : Int)
  | restart

def DeviceEvent.isSignIn : DeviceEvent → Bool
  | .signIn _ _ => true
  | _ => false

/-- The state an event other than a sign-in publishes. -/
def DeviceEvent.published : DeviceEvent → Option String
  | .scene c _ => c.published
  | _ => none

/-- One event of a device and its effect on the database.  A sign-in completes while the scene
is in the foreground; an `NSException` ends the run. -/
def Device.step (deviceID : String) (s : Device × FNode) : DeviceEvent → Option (Device × FNode)
  | .signIn user now =>
    if s.1.phase.foreground then
      (saveUserDetails deviceID user now s.2).toOption.map fun saved =>
        ({ s.1 with defaults := saved.1 }, saved.2)
    else none
  | .scene c now =>
    (s.1.phase.next c).bind fun phase =>
      (sceneCallback s.1.defaults now c s.2).toOption.map fun db => ({ s.1 with phase := phase }, db)
  | .restart => some ({ s.1 with phase := .unattached }, s.2)

/-- The device is signed in and its user's record, at `path`, holds the stored strings and
`state`. -/
structure SignedIn (deviceID : String) (user : GoogleProfile) (path : List String) (state : String)
    (s : Device × FNode) : Prop where
  defaults : s.1.defaults = savedDefaults deviceID user
  record : ∃ now, HoldsStrings (s.2.get path) (recordStrings deviceID user now state)

section OneDevice

variable {deviceID : String} {user : GoogleProfile} {path : List String}

/-- A sign-in in the foreground completes, and publishes `"1"`. -/
theorem Device.step_signIn (deviceID : String) (hpath : recordPath user.id = .ok path) {s : Device × FNode}
    (h : s.1.phase.foreground = true) (now : Int) :
    ∃ s', Device.step deviceID s (.signIn user now) = some s' ∧ s'.1.phase = s.1.phase ∧
      SignedIn deviceID user path "1" s' := by
  obtain ⟨db, hok, hholds⟩ := onlineState_signedIn deviceID hpath now "1" s.2
  refine ⟨({ s.1 with defaults := savedDefaults deviceID user }, db), ?_, rfl, by dsimp only, now, hholds⟩
  rw [Device.step, if_pos h, saveUserDetails_eq hok, Except.toOption, Option.map_some]

/-- A callback that publishes nothing only moves the scene. -/
theorem Device.step_scene_of_not_published {s : Device × FNode} {c : SceneCallback} {phase : ScenePhase}
    (h : s.1.phase.next c = some phase) (hp : c.published = none) (now : Int) :
    Device.step deviceID s (.scene c now) = some ({ s.1 with phase := phase }, s.2) := by
  rw [Device.step, h, sceneCallback, hp]
  rfl

/-- So does every callback before the sign-in. -/
theorem Device.step_scene_of_signedOut {s : Device × FNode} {c : SceneCallback} {phase : ScenePhase}
    (h : s.1.phase.next c = some phase) (hs : s.1.defaults = {}) (now : Int) :
    Device.step deviceID s (.scene c now) = some ({ s.1 with phase := phase }, s.2) := by
  cases hp : c.published with
  | none => exact Device.step_scene_of_not_published h hp now
  | some published =>
    rw [Device.step, h, sceneCallback, hp, hs]
    simp only [onlineState_signedOut]
    rfl

/-- A callback of a signed-in device that publishes rewrites the record, whatever it held. -/
theorem Device.step_scene_of_published (hpath : recordPath user.id = .ok path) {s : Device × FNode}
    {c : SceneCallback} {phase : ScenePhase} {published : String} (h : s.1.phase.next c = some phase)
    (hs : s.1.defaults = savedDefaults deviceID user) (hp : c.published = some published) (now : Int) :
    ∃ s', Device.step deviceID s (.scene c now) = some s' ∧ s'.1.phase = phase ∧
      SignedIn deviceID user path published s' := by
  obtain ⟨db, hok, hholds⟩ := onlineState_signedIn deviceID hpath now published s.2
  refine ⟨({ s.1 with phase := phase }, db), ?_, rfl, hs, now, hholds⟩
  rw [Device.step, h, sceneCallback, hp, hs]
  simp only [hok]
  rfl

/-- A callback UIKit can make completes. -/
theorem Device.step_scene (hpath : recordPath user.id = .ok path) {state : String} {s : Device × FNode}
    (hs : SignedIn deviceID user path state s) {c : SceneCallback} {phase : ScenePhase}
    (h : s.1.phase.next c = some phase) (now : Int) :
    ∃ s', Device.step deviceID s (.scene c now) = some s' ∧ s'.1.phase = phase ∧
      SignedIn deviceID user path (c.published.getD state) s' := by
  cases hp : c.published with
  | none => exact ⟨_, Device.step_scene_of_not_published h hp now, rfl, hs.defaults, hs.record⟩
  | some published => exact Device.step_scene_of_published hpath h hs.defaults hp now

/-- **One event after the sign-in**: the record holds the state published last. -/
theorem Device.step_signedIn (hpath : recordPath user.id = .ok path) {state : String} {s s' : Device × FNode}
    (hs : SignedIn deviceID user path state s) {e : DeviceEvent} (he : e.isSignIn = false)
    (h : Device.step deviceID s e = some s') :
    SignedIn deviceID user path (e.published.getD state) s' := by
  cases e with
  | signIn user now => cases he
  | scene c now =>
    cases hnext : s.1.phase.next c with
    | none => simp [Device.step, hnext] at h
    | some phase =>
      obtain ⟨s'', h'', -, hsigned⟩ := Device.step_scene hpath hs hnext now
      rw [h] at h''
      cases h''
      exact hsigned
  | restart =>
    cases h
    exact ⟨hs.defaults, hs.record⟩

/-- The process was killed in the foreground, and nothing was published since. -/
def KilledInForeground (deviceID : String) (s₁ : Device × FNode) (es : List DeviceEvent) : Prop :=
  ∃ before after s, es = before ++ .restart :: after ∧
    run (Device.step deviceID) s₁ before = some s ∧ s.1.phase.foreground = true ∧
    ∀ e ∈ after, e.published = none

theorem append_cons_eq_concat {α : Type} {l before after : List α} {x e : α}
    (h : l ++ [e] = before ++ x :: after) :
    (before = l ∧ x = e ∧ after = []) ∨ ∃ after', after = after' ++ [e] ∧ l = before ++ x :: after' := by
  rcases List.eq_nil_or_concat after with rfl | ⟨after', e', rfl⟩
  · obtain ⟨rfl, rfl⟩ := List.append_singleton_inj.mp h
    exact .inl ⟨rfl, rfl, rfl⟩
  · rw [List.concat_eq_append, ← List.cons_append, ← List.append_assoc] at h
    obtain ⟨hl, rfl⟩ := List.append_singleton_inj.mp h
    exact .inr ⟨after', by rw [List.concat_eq_append], hl⟩

theorem killedInForeground_concat {s₁ s : Device × FNode} {es : List DeviceEvent}
    (hrun : run (Device.step deviceID) s₁ es = some s) (e : DeviceEvent) :
    KilledInForeground deviceID s₁ (es ++ [e]) ↔
      (e = .restart ∧ s.1.phase.foreground = true) ∨
        (e.published = none ∧ KilledInForeground deviceID s₁ es) := by
  constructor
  · rintro ⟨before, after, sb, heq, hb, hfg, hafter⟩
    rcases append_cons_eq_concat heq with ⟨rfl, rfl, rfl⟩ | ⟨after', rfl, rfl⟩
    · rw [hrun] at hb
      cases hb
      exact .inl ⟨rfl, hfg⟩
    · refine .inr ⟨hafter e (by simp), before, after', sb, rfl, hb, hfg, ?_⟩
      exact fun e' he' => hafter e' (List.mem_append_left _ he')
  · rintro (⟨rfl, hfg⟩ | ⟨he, before, after, sb, rfl, hb, hfg, hafter⟩)
    · exact ⟨es, [], s, rfl, hrun, hfg, fun _ h => absurd h List.not_mem_nil⟩
    · refine ⟨before, after ++ [e], sb, by simp, hb, hfg, ?_⟩
      intro e' he'
      rcases List.mem_append.mp he' with he' | he'
      · exact hafter e' he'
      · rw [List.mem_singleton] at he'
        rw [he', he]

/-! ## What other clients read -/

/-- The record at a path as another client decodes it. -/
def publishedState (path : List String) (db : FNode) : UsersState :=
  UsersState.init (getDictionary (some (valForExport (db.get path))))

/-- The record at `path` decodes to the strings saved at the sign-in, trimmed, and a presence flag
that is `online`. -/
structure Published (user : GoogleProfile) (path : List String) (online : Prop) (db : FNode) : Prop where
  userId : (publishedState path db).userId = some user.id
  name : (publishedState path db).name = some (stringByTrimmingWhiteSpaceAndNewLine user.name)
  email : (publishedState path db).email = some (stringByTrimmingWhiteSpaceAndNewLine user.email)
  profile_image : (publishedState path db).profile_image =
    some (stringByTrimmingWhiteSpaceAndNewLine user.imageURL)
  mobile_number : (publishedState path db).mobile_number =
    some (stringByTrimmingWhiteSpaceAndNewLine user.email)
  isOnline : (publishedState path db).isOnline = some true ↔ online

theorem published_of_holdsStrings {now : Int} {state : String} {db : FNode} {online : Prop}
    (h : HoldsStrings (db.get path) (recordStrings deviceID user now state))
    (honline : stringByTrimmingWhiteSpaceAndNewLine state = "1" ↔ online) :
    Published user path online db := by
  have hkey : ChatParameter.userId ∈ (recordStrings deviceID user now state).map Prod.fst :=
    List.mem_map_of_mem (f := Prod.fst) (List.mem_append_left _ List.mem_cons_self)
  have hread := getstring_record h hkey (by decide)
  have huserId := hread (ChatParameter.userId, stringByTrimmingWhiteSpaceAndNewLine user.userID)
    (by simp [recordStrings, storedRecord])
  have hname := hread (ChatParameter.name, stringByTrimmingWhiteSpaceAndNewLine user.name)
    (by simp [recordStrings, storedRecord])
  have hemail := hread (ChatParameter.email, stringByTrimmingWhiteSpaceAndNewLine user.email)
    (by simp [recordStrings, storedRecord])
  have himage := hread (ChatParameter.profileImage, stringByTrimmingWhiteSpaceAndNewLine user.imageURL)
    (by simp [recordStrings, storedRecord])
  have hmobile := hread (ChatParameter.mobileNumber, stringByTrimmingWhiteSpaceAndNewLine user.email)
    (by simp [recordStrings, storedRecord])
  have hstate := hread (ChatParameter.OnlineState, stringByTrimmingWhiteSpaceAndNewLine state)
    (by simp [recordStrings])
  simp only [trimming_trimming] at huserId hname hemail himage hmobile hstate
  refine ⟨congrArg some huserId, congrArg some hname, congrArg some hemail, congrArg some himage,
    congrArg some hmobile, ?_⟩
  rw [← honline, ← hstate]
  show some (_ == "1") = some true ↔ _
  rw [Option.some_inj, beq_iff_eq]
  rfl

/-- The state published last is `"1"` exactly when the scene is in the foreground or the process
was killed there. -/
theorem Device.run_signedIn (hpath : recordPath user.id = .ok path) {s₁ : Device × FNode}
    (hfg : s₁.1.phase.foreground = true) (hs₁ : SignedIn deviceID user path "1" s₁) {es : List DeviceEvent}
    (hes : ∀ e ∈ es, e.isSignIn = false) {s : Device × FNode}
    (hrun : run (Device.step deviceID) s₁ es = some s) :
    ∃ state, SignedIn deviceID user path state s ∧ (state = "0" ∨ state = "1") ∧
      (state = "1" ↔ s.1.phase.foreground = true ∨ KilledInForeground deviceID s₁ es) := by
  induction es using List.reverseRecOn generalizing s with
  | nil =>
    cases hrun
    exact ⟨"1", hs₁, .inr rfl, fun _ => .inl hfg, fun _ => rfl⟩
  | append_singleton es e ih =>
    obtain ⟨s', hrun', hstep⟩ := run_concat_eq_some.mp hrun
    obtain ⟨state, hs', h01, hiff⟩ := ih (fun e he => hes e (List.mem_append_left _ he)) hrun'
    have he := hes e (by simp)
    have hsigned := Device.step_signedIn hpath hs' he hstep
    rw [killedInForeground_concat hrun']
    cases e with
    | signIn user now => cases he
    | restart =>
      cases hstep
      refine ⟨state, hsigned, h01, hiff.trans ?_⟩
      simp [DeviceEvent.published, ScenePhase.foreground]
    | scene c now =>
      obtain ⟨phase, hnext, hphase⟩ : ∃ phase, s'.1.phase.next c = some phase ∧ s.1.phase = phase := by
        rw [Device.step, Option.bind_eq_some_iff] at hstep
        obtain ⟨phase, hnext, hmap⟩ := hstep
        obtain ⟨db, -, rfl⟩ := Option.map_eq_some_iff.mp hmap
        exact ⟨phase, hnext, rfl⟩
      rw [hphase]
      cases hp : c.published with
      | none =>
        obtain ⟨hbefore, hafter⟩ := SceneCallback.foreground_of_not_published hnext hp
        refine ⟨state, by simpa [DeviceEvent.published, hp] using hsigned, h01, hiff.trans ?_⟩
        simp [DeviceEvent.published, hp, hbefore, hafter]
      | some published =>
        obtain ⟨h01', hiff'⟩ := SceneCallback.published_iff hnext hp
        refine ⟨published, by simpa [DeviceEvent.published, hp] using hsigned, h01', hiff'.trans ?_⟩
        simp [DeviceEvent.published, hp]

/-- **Published profile and presence.**  A sign-in with an id that has a path, completed in the
foreground, is followed in every run by a record that decodes to the profile and to the presence
of the scene, except that a process killed in the foreground stays online until the next callback
that publishes.  The record is stored under the id when that is a valid key.  Every callback
UIKit can make completes. -/
theorem published_presence (deviceID : String) (hpath : recordPath user.id = .ok path) (s₀ : Device × FNode)
    (hfg : s₀.1.phase.foreground = true) (now : Int) :
    ∃ s₁, Device.step deviceID s₀ (.signIn user now) = some s₁ ∧
      ∀ es s, (∀ e ∈ es, e.isSignIn = false) → run (Device.step deviceID) s₁ es = some s →
        Published user path (s.1.phase.foreground = true ∨ KilledInForeground deviceID s₁ es) s.2 ∧
        (isValidKey user.id = true → path.getLast? = (publishedState path s.2).userId) ∧
        ∀ c phase now', s.1.phase.next c = some phase →
          ∃ s', Device.step deviceID s (.scene c now') = some s' := by
  obtain ⟨s₁, hstep, hphase, hs₁⟩ := Device.step_signIn deviceID hpath hfg now
  refine ⟨s₁, hstep, fun es s hes hrun => ?_⟩
  obtain ⟨state, hs, h01, hiff⟩ := Device.run_signedIn hpath (hphase ▸ hfg) hs₁ hes hrun
  obtain ⟨now, hholds⟩ := hs.record
  have htrim : stringByTrimmingWhiteSpaceAndNewLine state = state := by
    rcases h01 with rfl | rfl <;> decide
  have hpublished := published_of_holdsStrings hholds (by rw [htrim, hiff])
  refine ⟨hpublished, ?_, ?_⟩
  · intro hkey
    rw [getLast?_recordPath hpath hkey, hpublished.userId]
  · intro c phase now' hnext
    obtain ⟨s', hs', -⟩ := Device.step_scene hpath hs hnext now'
    exact ⟨s', hs'⟩

/-- User `101` signs in, the application goes to the background. -/
theorem published_presence_background :
    ∃ (s₀ s₁ s : Device × FNode) (user : GoogleProfile),
      Device.step "" s₀ (.signIn user 1) = some s₁ ∧
      run (Device.step "") s₁ [.scene .willResignActive 2, .scene .didEnterBackground 3] = some s ∧
      (publishedState [ChatParameter.UserState, "101"] s.2).name = some "Ann" ∧ s.1.phase = .background := by
  let s₀ : Device × FNode := ({ phase := .foregroundActive }, .empty)
  let user : GoogleProfile := ⟨"101", "ann@example.com", " Ann ", ""⟩
  have hpath : recordPath user.id = .ok [ChatParameter.UserState, "101"] := by decide
  obtain ⟨s₁, hstep, hpublished⟩ := published_presence "" hpath s₀ rfl 1
  have hsome : ((Device.step "" s₀ (.signIn user 1)).bind fun s₁ =>
      (run (Device.step "") s₁ [.scene .willResignActive 2, .scene .didEnterBackground 3]).filter
        fun s => s.1.phase = .background).isSome := by decide
  obtain ⟨s, hbind⟩ := Option.isSome_iff_exists.mp hsome
  rw [hstep, Option.bind_some, Option.filter_eq_some_iff] at hbind
  refine ⟨s₀, s₁, s, user, hstep, hbind.1, ?_, by simpa using hbind.2⟩
  rw [(hpublished _ s (by simp [DeviceEvent.isSignIn]) hbind.1).1.name]
  decide

/-- An id with a slash is split into a path, so the record is not stored under the id; and the
record of a process killed in the foreground says that its user is online. -/
theorem presence_not_of_scene :
    (¬ ∀ (deviceID : String) (user : GoogleProfile) (now : Int) (s₀ s₁ : Device × FNode),
      user.id ≠ "" → s₀.1.phase.foreground = true →
      Device.step deviceID s₀ (.signIn user now) = some s₁ →
      ∃ path, recordPath user.id = .ok path ∧
        Published user path (s₁.1.phase.foreground = true) s₁.2 ∧
        path.getLast? = (publishedState path s₁.2).userId) ∧
    (¬ ∀ (deviceID : String) (user : GoogleProfile) (path : List String) (now : Int)
      (s₀ s₁ s : Device × FNode) (es : List DeviceEvent), recordPath user.id = .ok path →
      s₀.1.phase.foreground = true → Device.step deviceID s₀ (.signIn user now) = some s₁ →
      (∀ e ∈ es, e.isSignIn = false) → run (Device.step deviceID) s₁ es = some s →
      Published user path (s.1.phase.foreground = true) s.2) := by
  let s₀ : Device × FNode := ({ phase := .foregroundActive }, .empty)
  constructor
  · intro hall
    let user : GoogleProfile := ⟨"a/b", "", "", ""⟩
    have hsome : (Device.step "" s₀ (.signIn user 1)).isSome := by decide
    obtain ⟨s₁, hstep⟩ := Option.isSome_iff_exists.mp hsome
    obtain ⟨path, hpath, hpub, hkey⟩ := hall "" user 1 s₀ s₁ (by decide) rfl hstep
    have hsplit : recordPath user.id = .ok [ChatParameter.UserState, "a", "b"] := by decide
    rw [hsplit] at hpath
    cases hpath
    rw [hpub.userId] at hkey
    revert hkey
    decide
  · intro hall
    let user : GoogleProfile := ⟨"101", "", "", ""⟩
    have hpath : recordPath user.id = .ok [ChatParameter.UserState, "101"] := by decide
    obtain ⟨s₁, hstep, -, hs₁⟩ := Device.step_signIn "" (s := s₀) hpath rfl 1
    obtain ⟨now, hholds⟩ := hs₁.record
    have honline : Published user [ChatParameter.UserState, "101"] True s₁.2 :=
      published_of_holdsStrings hholds (by simp; decide)
    have hpub := hall "" user _ 1 s₀ s₁ ({ s₁.1 with phase := .unattached }, s₁.2) [.restart] hpath rfl
      hstep (by simp [DeviceEvent.isSignIn]) rfl
    exact Bool.false_ne_true (hpub.isOnline.mp (honline.isOnline.mpr trivial))

end OneDevice

/-! ## Several devices of one account -/

/-- The devices of an account: each has an identifier and the profile it signs in with, and all
profiles have the same id, whose record is at `path`. -/
structure Account (ι : Type) where
  deviceID : ι → String
  profile : ι → GoogleProfile
  id : String
  path : List String
  recordPath_id : recordPath id = .ok path
  profile_id : ∀ i, (profile i).id = id

/-- The database, the devices, and the device that published last. -/
structure AccountState (ι : Type) where
  db : FNode
  devices : ι → Device := fun _ => {}
  last : Option ι := none

inductive AccountEvent (ι : Type) where
  | signIn (i : ι) (now : Int)
  | scene (i : ι) (c : SceneCallback) (now : Int)

section Account

variable {ι : Type} (account : Account ι)

def AccountEvent.device : AccountEvent ι → ι
  | .signIn i _ => i
  | .scene i _ _ => i

/-- The event as one of its device. -/
def AccountEvent.toDeviceEvent : AccountEvent ι → DeviceEvent
  | .signIn i now => .signIn (account.profile i) now
  | .scene _ c now => .scene c now

/-- A device has signed in to the account. -/
def AccountState.HasSignedIn (st : AccountState ι) (i : ι) : Prop :=
  (st.devices i).defaults.getuserDetails.getstring ChatParameter.userId = account.id

instance (st : AccountState ι) (i : ι) : Decidable (st.HasSignedIn account i) :=
  inferInstanceAs (Decidable (_ = _))

theorem Account.recordPath_profile (i : ι) : recordPath (account.profile i).id = .ok account.path := by
  rw [account.profile_id, account.recordPath_id]

/-- A device has stored nothing, or the record of its sign-in. -/
def Account.Stored (i : ι) (d : Device) : Prop :=
  d.defaults = {} ∨ d.defaults = savedDefaults (account.deviceID i) (account.profile i)

theorem AccountState.hasSignedIn_of_saved {st : AccountState ι} {i : ι}
    (h : (st.devices i).defaults = savedDefaults (account.deviceID i) (account.profile i)) :
    st.HasSignedIn account i := by
  unfold AccountState.HasSignedIn
  rw [h, getstring_userId_signedIn _ (account.recordPath_profile i), account.profile_id]

theorem AccountState.not_hasSignedIn_of_empty {st : AccountState ι} {i : ι}
    (h : (st.devices i).defaults = {}) : ¬ st.HasSignedIn account i := by
  unfold AccountState.HasSignedIn
  rw [h]
  intro hid
  exact ne_empty_of_recordPath account.recordPath_id hid.symm

variable [DecidableEq ι]

/-- One event of one device.  A sign-in publishes, and so do the callbacks of a device that is
signed in. -/
def AccountState.step (st : AccountState ι) (e : AccountEvent ι) : Option (AccountState ι) :=
  (Device.step (account.deviceID e.device) (st.devices e.device, st.db) (e.toDeviceEvent account)).map fun s =>
    { db := s.2
      devices := Function.update st.devices e.device s.1
      last :=
        match e with
        | .signIn i _ => some i
        | .scene i c _ => if c.published.isSome ∧ st.HasSignedIn account i then some i else st.last }

/-- What one event can do: the device publishes, or only its scene moves. -/
theorem AccountState.step_cases {st st' : AccountState ι} {e : AccountEvent ι}
    (hstored : ∀ i, account.Stored i (st.devices i))
    (h : st.step account e = some st') :
    (∃ state s, SignedIn (account.deviceID e.device) (account.profile e.device) account.path state s ∧
      (state = "0" ∨ state = "1") ∧ (state = "1" ↔ s.1.phase.foreground = true) ∧
      (state = "0" → ∃ c now, e = .scene e.device c now ∧ c.published = some "0") ∧
      st' = { db := s.2, devices := Function.update st.devices e.device s.1, last := some e.device }) ∨
    (∃ phase,
      ((st.devices e.device).defaults = {} ∨
        (st.devices e.device).phase.foreground = false ∧ phase.foreground = false) ∧
      st' = { st with
        devices := Function.update st.devices e.device { st.devices e.device with phase := phase } }) := by
  obtain ⟨s, hs, rfl⟩ := Option.map_eq_some_iff.mp h
  cases e with
  | signIn i now =>
    have hpath := account.recordPath_profile i
    have hfg : (st.devices i).phase.foreground = true := by
      by_contra hfg
      simp [AccountEvent.toDeviceEvent, AccountEvent.device, Device.step, hfg] at hs
    obtain ⟨s', hs', hphase, hsigned⟩ :=
      Device.step_signIn (account.deviceID i) (s := (st.devices i, st.db)) hpath hfg now
    rw [AccountEvent.toDeviceEvent, AccountEvent.device, hs'] at hs
    cases hs
    refine .inl ⟨"1", _, hsigned, .inr rfl, ?_, ?_, rfl⟩
    · rw [hphase]
      exact ⟨fun _ => hfg, fun _ => rfl⟩
    · intro h
      exact absurd h (by decide)
  | scene i c now =>
    have hpath := account.recordPath_profile i
    cases hnext : (st.devices i).phase.next c with
    | none => simp [AccountEvent.toDeviceEvent, AccountEvent.device, Device.step, hnext] at hs
    | some phase =>
      rcases hstored i with hout | hin
      · have hnot := AccountState.not_hasSignedIn_of_empty account hout
        rw [AccountEvent.toDeviceEvent, AccountEvent.device,
          Device.step_scene_of_signedOut hnext hout now] at hs
        cases hs
        refine .inr ⟨phase, .inl hout, ?_⟩
        simp [AccountEvent.device, hnot]
      · have hid := AccountState.hasSignedIn_of_saved account hin
        cases hp : c.published with
        | none =>
          rw [AccountEvent.toDeviceEvent, AccountEvent.device,
            Device.step_scene_of_not_published hnext hp now] at hs
          cases hs
          refine .inr ⟨phase, .inr (SceneCallback.foreground_of_not_published hnext hp), ?_⟩
          simp [AccountEvent.device, hp]
        | some published =>
          obtain ⟨s', hs', hphase, hsigned⟩ := Device.step_scene_of_published
            (s := (st.devices i, st.db)) hpath hnext hin hp now
          obtain ⟨h01, hiff⟩ := SceneCallback.published_iff hnext hp
          rw [AccountEvent.toDeviceEvent, AccountEvent.device, hs'] at hs
          cases hs
          refine .inl ⟨published, _, hsigned, h01, by rw [hiff, hphase], ?_, ?_⟩
          · rintro rfl
            exact ⟨c, now, rfl, hp⟩
          · simp [AccountEvent.device, hp, hid]

/-- A device has stored nothing or the record of its sign-in, the record in the database is that of
the device that published last, and nobody has signed in before something was published. -/
structure AccountInv (st : AccountState ι) : Prop where
  stored : ∀ i, account.Stored i (st.devices i)
  last : ∀ i, st.last = some i → ∃ state,
    SignedIn (account.deviceID i) (account.profile i) account.path state (st.devices i, st.db) ∧
      (state = "0" ∨ state = "1") ∧ (state = "1" ↔ (st.devices i).phase.foreground = true)
  none : st.last = none → ∀ i, (st.devices i).defaults = {}

omit [DecidableEq ι] in
theorem AccountInv.initial (db : FNode) : AccountInv account { db := db } :=
  ⟨fun _ => .inl rfl, fun _ h => (nomatch h), fun _ _ => rfl⟩

theorem AccountState.step_inv {st st' : AccountState ι} {e : AccountEvent ι}
    (hinv : AccountInv account st) (h : st.step account e = some st') : AccountInv account st' := by
  obtain ⟨state, s, hs, h01, hiff, -, rfl⟩ | ⟨phase, hphase, rfl⟩ :=
    AccountState.step_cases account hinv.stored h
  · refine ⟨?_, ?_, fun h => by cases h⟩
    · exact (Function.forall_update_iff st.devices account.Stored).mpr
        ⟨.inr hs.defaults, fun i _ => hinv.stored i⟩
    · rintro i hi
      cases hi
      simp only [Function.update_self]
      exact ⟨state, hs, h01, hiff⟩
  · refine ⟨?_, ?_, fun h => ?_⟩
    · exact (Function.forall_update_iff st.devices account.Stored).mpr
        ⟨hinv.stored e.device, fun i _ => hinv.stored i⟩
    · refine (Function.forall_update_iff st.devices fun i d => st.last = some i → ∃ state,
        SignedIn (account.deviceID i) (account.profile i) account.path state (d, st.db) ∧
          (state = "0" ∨ state = "1") ∧ (state = "1" ↔ d.phase.foreground = true)).mpr
            ⟨fun hi => ?_, fun i _ => hinv.last i⟩
      -- the device that published last is signed in, so its scene stayed out of the foreground
      obtain ⟨state, hs, h01, hiff⟩ := hinv.last e.device hi
      rcases hphase with hout | ⟨hbefore, hafter⟩
      · exact absurd (AccountState.hasSignedIn_of_saved account hs.defaults)
          (AccountState.not_hasSignedIn_of_empty account hout)
      · refine ⟨state, ⟨hs.defaults, hs.record⟩, h01, ?_⟩
        rw [hiff, hbefore, hafter]
    · exact (Function.forall_update_iff st.devices fun _ d => d.defaults = {}).mpr
        ⟨hinv.none h e.device, fun i _ => hinv.none h i⟩

/-- The invariant holds in every reached state. -/
theorem AccountInv.of_run {db : FNode} {es : List (AccountEvent ι)} {st : AccountState ι}
    (hrun : run (AccountState.step account) { db := db } es = some st) : AccountInv account st :=
  run_invariant (fun _ _ _ hi hs => AccountState.step_inv account hi hs) es _ _
    (AccountInv.initial account db) hrun

/-! ## The stored state -/

/-- The `onlineState` stored in the record of the account is `"1"`. -/
def AccountState.Online (st : AccountState ι) : Prop :=
  (st.db.get account.path).child ChatParameter.OnlineState = .leaf (.string "1")

/-- A device of the account has its scene in the foreground. -/
def AccountState.Open (st : AccountState ι) (i : ι) : Prop :=
  st.HasSignedIn account i ∧ (st.devices i).phase.foreground = true

instance (st : AccountState ι) (i : ι) : Decidable (st.Open account i) :=
  inferInstanceAs (Decidable (_ ∧ _))

/-- The event does not publish `"0"` while another device has its scene in the foreground. -/
def AccountState.LeavesAlone (st : AccountState ι) (e : AccountEvent ι) : Prop :=
  ∀ i c now, e = .scene i c now → c.published = some "0" → ∀ j, j ≠ i → ¬ st.Open account j

instance [Fintype ι] (st : AccountState ι) : (e : AccountEvent ι) → Decidable (st.LeavesAlone account e)
  | .scene i c _ =>
    decidable_of_iff (c.published = some "0" → ∀ j, j ≠ i → ¬ st.Open account j)
      (by simp [AccountState.LeavesAlone])
  | .signIn _ _ => isTrue fun _ _ _ he => by cases he

omit [DecidableEq ι] in
theorem AccountInv.online_iff {st : AccountState ι} (hinv : AccountInv account st) {i : ι}
    (hi : st.last = some i) : st.Online account ↔ st.Open account i := by
  obtain ⟨state, hs, h01, hiff⟩ := hinv.last i hi
  obtain ⟨now, hholds⟩ := hs.record
  have hstate := hholds (ChatParameter.OnlineState, stringByTrimmingWhiteSpaceAndNewLine state)
    (by simp [recordStrings])
  have htrim : stringByTrimmingWhiteSpaceAndNewLine state = state := by
    rcases h01 with rfl | rfl <;> decide
  rw [htrim] at hstate
  unfold AccountState.Online AccountState.Open
  rw [hstate, ← hiff]
  have hin := AccountState.hasSignedIn_of_saved account hs.defaults
  constructor
  · intro h
    cases h
    exact ⟨hin, rfl⟩
  · rintro ⟨-, rfl⟩
    rfl

/-- The device that published last is open when any device is. -/
def AccountState.LastOpen (st : AccountState ι) : Prop :=
  ∀ j, st.Open account j → ∃ i, st.last = some i ∧ st.Open account i

/-- The devices an event is not about stay as they are. -/
theorem AccountState.open_update_of_ne {st : AccountState ι} {i j : ι} (h : j ≠ i) (d : Device)
    (db : FNode) (last : Option ι) :
    AccountState.Open account ⟨db, Function.update st.devices i d, last⟩ j ↔ st.Open account j := by
  simp only [AccountState.Open, AccountState.HasSignedIn, Function.update_of_ne h]

omit [DecidableEq ι] in
/-- A device that has stored nothing or is in the background does not have the application open. -/
theorem AccountState.not_open {st : AccountState ι} {i : ι}
    (h : (st.devices i).defaults = {} ∨ (st.devices i).phase.foreground = false) :
    ¬ st.Open account i := by
  rintro ⟨hin, hfg⟩
  rcases h with hout | hclosed
  · exact AccountState.not_hasSignedIn_of_empty account hout hin
  · rw [hclosed] at hfg
    cases hfg

theorem AccountState.step_lastOpen {st st' : AccountState ι} {e : AccountEvent ι}
    (hinv : AccountInv account st) (hlast : st.LastOpen account) (halone : st.LeavesAlone account e)
    (h : st.step account e = some st') : st'.LastOpen account := by
  obtain ⟨state, s, hs, h01, hiff, hzero, rfl⟩ | ⟨phase, hphase, rfl⟩ :=
    AccountState.step_cases account hinv.stored h
  · intro j hj
    refine ⟨e.device, rfl, ?_⟩
    rcases h01 with hstate | hstate
    · -- the device published "0": nobody else is open, and neither is the device
      obtain ⟨c, now, he, hc⟩ := hzero hstate
      by_cases hje : j = e.device
      · subst hje
        exact hj
      · rw [AccountState.open_update_of_ne account hje] at hj
        exact absurd hj (halone e.device c now he hc j hje)
    · refine ⟨AccountState.hasSignedIn_of_saved account ?_, ?_⟩ <;> simp only [Function.update_self]
      · exact hs.defaults
      · exact hiff.mp hstate
  · have hbefore : ¬ st.Open account e.device :=
      AccountState.not_open account (hphase.imp id And.left)
    intro j hj
    have hje : j ≠ e.device := by
      rintro rfl
      refine AccountState.not_open account ?_ hj
      simp only [Function.update_self]
      exact hphase.imp id And.right
    rw [AccountState.open_update_of_ne account hje] at hj
    obtain ⟨k, hk, hopen⟩ := hlast j hj
    have hke : k ≠ e.device := by
      rintro rfl
      exact hbefore hopen
    exact ⟨k, hk, (AccountState.open_update_of_ne account hke _ _ _).mpr hopen⟩

/-- **Presence with several devices.**  In every reached state the stored state is that of the
device that published last.  So a user who is shown online has the application open on some
device, and, when no device published `"0"` while another one was in the foreground, a user who
has it open is shown online. -/
theorem account_presence (db : FNode) {es : List (AccountEvent ι)} {st : AccountState ι}
    (hrun : run (AccountState.step account) { db := db } es = some st) :
    (∀ i, st.last = some i → (st.Online account ↔ st.Open account i)) ∧
    ((∃ i, st.HasSignedIn account i) → st.Online account → ∃ i, st.Open account i) ∧
    (Meets (AccountState.step account) (AccountState.LeavesAlone account) { db := db } es →
      (∃ i, st.HasSignedIn account i) → (st.Online account ↔ ∃ i, st.Open account i)) := by
  have hinv := AccountInv.of_run account hrun
  have hpublished : (∃ i, st.HasSignedIn account i) → ∃ i, st.last = some i := by
    rintro ⟨i, hi⟩
    cases hl : st.last with
    | none => exact absurd hi (AccountState.not_hasSignedIn_of_empty account (hinv.none hl i))
    | some k => exact ⟨k, rfl⟩
  have honline : (∃ i, st.HasSignedIn account i) → st.Online account → ∃ i, st.Open account i := by
    intro hsigned hon
    obtain ⟨i, hi⟩ := hpublished hsigned
    exact ⟨i, (hinv.online_iff account hi).mp hon⟩
  refine ⟨fun i hi => hinv.online_iff account hi, honline, fun hmeets hsigned => ?_⟩
  refine ⟨honline hsigned, ?_⟩
  rintro ⟨j, hj⟩
  have hlast : AccountInv account st ∧ st.LastOpen account := by
    refine run_invariant_of_meets (C := AccountState.LeavesAlone account)
      (I := fun st => AccountInv account st ∧ st.LastOpen account) ?_ es _ _ ?_ hmeets hrun
    · rintro s e s' ⟨hi, hl⟩ halone hstep
      exact ⟨AccountState.step_inv account hi hstep, AccountState.step_lastOpen account hi hl halone hstep⟩
    · refine ⟨AccountInv.initial account db, fun j hj => ?_⟩
      exact absurd hj.1 (AccountState.not_hasSignedIn_of_empty account rfl)
  obtain ⟨i, hi, hopen⟩ := hlast.2 j hj
  exact (hinv.online_iff account hi).mpr hopen

end Account

/-- An account with two devices. -/
def twoDevices : Account Bool where
  deviceID := fun b => if b then "phone" else "tablet"
  profile := fun _ => ⟨"101", "", "", ""⟩
  id := "101"
  path := [ChatParameter.UserState, "101"]
  recordPath_id := by decide
  profile_id := by decide

/-- The user signs in on the phone, leaves it, and signs in on the tablet: no device leaves while the other
is in the foreground, and the user is shown online because of the tablet. -/
theorem account_presence_phone_then_tablet :
    ∃ (es : List (AccountEvent Bool)) (st : AccountState Bool),
      run (AccountState.step twoDevices) { db := .empty } es = some st ∧ es.length = 7 ∧
        Meets (AccountState.step twoDevices) (AccountState.LeavesAlone twoDevices) { db := .empty } es ∧
        st.HasSignedIn twoDevices true ∧ ¬ st.Open twoDevices true ∧ st.Open twoDevices false ∧
        st.Online twoDevices := by
  let es : List (AccountEvent Bool) :=
    [.scene true .willConnectTo 1, .scene true .willEnterForeground 2, .signIn true 3,
     .scene true .didEnterBackground 4, .scene false .willConnectTo 5, .scene false .willEnterForeground 6,
     .signIn false 7]
  have hsome : ((run (AccountState.step twoDevices) { db := .empty } es).filter fun st =>
      st.HasSignedIn twoDevices true ∧ ¬ st.Open twoDevices true ∧ st.Open twoDevices false).isSome := by
    decide +kernel
  obtain ⟨st, hst⟩ := Option.isSome_iff_exists.mp hsome
  obtain ⟨hrun, hstate⟩ := Option.filter_eq_some_iff.mp hst
  rw [decide_eq_true_iff] at hstate
  obtain ⟨hphone, hclosed, htablet⟩ := hstate
  have halone : Meets (AccountState.step twoDevices) (AccountState.LeavesAlone twoDevices) { db := .empty } es := by
    decide +kernel
  refine ⟨es, st, hrun, rfl, halone, hphone, hclosed, htablet, ?_⟩
  exact ((account_presence twoDevices .empty hrun).2.2 halone ⟨true, hphone⟩).mpr ⟨false, htablet⟩

/-- The tablet goes to the background while the phone is in the foreground: the user is shown
offline. -/
theorem account_presence_not_any_device :
    ¬ ∀ (account : Account Bool) (db : FNode) (es : List (AccountEvent Bool)) (st : AccountState Bool),
      run (AccountState.step account) { db := db } es = some st →
      (∃ i, st.HasSignedIn account i) → (st.Online account ↔ ∃ i, st.Open account i) := by
  intro hall
  let es : List (AccountEvent Bool) :=
    [.scene true .willConnectTo 1, .scene true .willEnterForeground 2, .signIn true 3,
     .scene false .willConnectTo 4, .scene false .willEnterForeground 5, .signIn false 6,
     .scene false .didEnterBackground 7]
  have hsome : ((run (AccountState.step twoDevices) { db := .empty } es).filter fun st =>
      st.last = some false ∧ st.Open twoDevices true ∧ ¬ st.Open twoDevices false).isSome := by decide
  obtain ⟨st, hst⟩ := Option.isSome_iff_exists.mp hsome
  obtain ⟨hrun, hlast⟩ := Option.filter_eq_some_iff.mp hst
  rw [decide_eq_true_iff] at hlast
  obtain ⟨hlast, hphone, htablet⟩ := hlast
  have hinv := AccountInv.of_run twoDevices hrun
  have honline := (hall twoDevices .empty es st hrun ⟨true, hphone.1⟩).mpr ⟨true, hphone⟩
  exact htablet ((hinv.online_iff twoDevices hlast).mp honline)

end ChatApplication
