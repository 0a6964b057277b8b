import ChatApplication.Lib.Indexed
import ChatApplication.Lib.Runs
import ChatApplication.SignIn

/-!
# Audio uploads (`ChatHalper.uploadFileOnServer`)

An upload puts the recording into Firebase Storage, asks for the URL of the object, and sends a
message with the URL.  The object is named after the client's clock reading, in one namespace
that all clients share, and a put replaces an existing object.

## Protocol

* `uploadFileOnServer` — a client reads the recording and starts the put; without data nothing
  happens.
* `objectStored i` — the server stores the object of upload `i`; this may also happen after the
  client was told of an error.
* `putCompleted i error` — the completion of `putData`: on success the client asks for the URL.
* `urlCompleted i ok key now` — the completion of `downloadURL`: with a URL the client sends the
  message under the fresh key of `childByAutoId`.

## Results

* `UploadState.step_cases` — what one event can do.
* `UploadInv` — what holds in every reached state; the bytes of a stored object last as long as no
  put replaces them by others.
* `audio_not_overwritten` — every audio message refers to its own recording, in every run in which
  no put stores under a name that holds an object with other bytes.
-/

namespace ChatApplication

open Indexed Runs

/-- The bytes of a recording. -/
abbrev Data := List UInt8

/-- The URLs of storage objects; a URL identifies the name of its object. -/
structure DownloadURL where
  absoluteString : String → String
  injective : Function.Injective absoluteString

/-- How far the client has got with an upload. -/
inductive UploadStage where
  | putting
  | gettingURL
  | finished
  deriving DecidableEq, Repr

/-- One call of `uploadFileOnServer`: the client, the name of the object, the recording and the
message to send; whether the server has stored the object. -/
structure Upload (ι : Type) where
  client : ι
  name : String
  audioData : Data
  message : MessageClass
  stage : UploadStage := .putting
  stored : Bool := false

/-- A message an upload has sent. -/
structure AudioMessage where
  upload : Nat
  key : String
  write : Write

/-- The storage, the uploads, the database, and the audio messages written to it. -/
structure UploadState (ι : Type) where
  storage : List (String × Data) := []
  uploads : List (Upload ι) := []
  db : FNode := .empty
  sent : List AudioMessage := []

/-- A clock reading is the text of `Date().timeIntervalSince1970`. -/
inductive UploadEvent (ι : Type) where
  | uploadFileOnServer (client : ι) (timeIntervalSince1970 : String) (contents : Option Data)
      (message : MessageClass)
  | objectStored (i : Nat)
  | putCompleted (i : Nat) (error : Bool)
  | urlCompleted (i : Nat) (ok : Bool) (key : String) (now : Int)

/-- The name of the storage object: `"\(Date().timeIntervalSince1970).mp3"`. -/
def riversRef (timeIntervalSince1970 : String) : String := timeIntervalSince1970 ++ ".mp3"

section Uploads

variable {ι : Type} (defaults : ι → UserDefaults) (urls : DownloadURL)

/-- The message of an upload with the URL of its object. -/
def Upload.messageWithURL (u : Upload ι) : MessageClass :=
  { u.message with message := some (urls.absoluteString u.name) }

/-- The completion of `downloadURL` with a URL: `sendMessage` on the uploading client. -/
def UploadState.send (st : UploadState ι) (i : Nat) (u : Upload ι) (key : String) (now : Int) :
    Option (UploadState ι) :=
  match sendMessage (defaults u.client) key now (u.messageWithURL urls) with
  | .error _ => none
  | .ok none => some { st with uploads := st.uploads.set i { u with stage := .finished } }
  | .ok (some w) =>
    some { st with
      uploads := st.uploads.set i { u with stage := .finished }
      db := w.apply st.db
      sent := st.sent ++ [⟨i, key, w⟩] }

/-- One event.  An object is stored once; a put that reports success has stored it; a message
needs a key that no message has. -/
def UploadState.step (st : UploadState ι) : UploadEvent ι → Option (UploadState ι)
  | .uploadFileOnServer client timeIntervalSince1970 contents message =>
    match contents with
    | none => some st
    | some audioData =>
      some { st with
        uploads := st.uploads ++
          [{ client := client, name := riversRef timeIntervalSince1970, audioData := audioData
             message := message }] }
  | .objectStored i =>
    match st.uploads[i]? with
    | none => none
    | some u =>
      if u.stored then none
      else
        some { st with
          storage := st.storage.upsert u.name u.audioData
          uploads := st.uploads.set i { u with stored := true } }
  | .putCompleted i error =>
    match st.uploads[i]? with
    | none => none
    | some u =>
      if u.stage ≠ .putting then none
      else if error then some { st with uploads := st.uploads.set i { u with stage := .finished } }
      else if u.stored then some { st with uploads := st.uploads.set i { u with stage := .gettingURL } }
      else none
  | .urlCompleted i ok key now =>
    match st.uploads[i]? with
    | none => none
    | some u =>
      if u.stage ≠ .gettingURL then none
      else if ok then
        if st.sent.any (fun m => m.key == key) then none else st.send defaults urls i u key now
      else some { st with uploads := st.uploads.set i { u with stage := .finished } }

/-! ## What one event can do -/

/-- What `sendMessage` wrote for a message: its text is the content of the dictionary. -/
def Write.content (w : Write) : Option AnyValue :=
  match w.value with
  | .dictionary d => d.lookup ChatParameter.content
  | _ => none

theorem content_sendMessage {d : UserDefaults} {key : String} {now : Int} {m : MessageClass} {w : Write}
    (h : sendMessage d key now m = .ok (some w)) : w.content = some (.string (m.message.getD "")) := by
  unfold sendMessage at h
  simp only [getDictionary_dictionary] at h
  split at h
  · cases h
  split at h
  · cases h
  split at h
  · cases h
  · cases h
    rfl

/-- The client moves an upload on, without writing to the database. -/
inductive Upload.Moves (u : Upload ι) : UploadStage → Prop
  | putFailed (h : u.stage = .putting) : Upload.Moves u .finished
  | putSucceeded (h : u.stage = .putting) (hs : u.stored = true) : Upload.Moves u .gettingURL
  | urlFinished (h : u.stage = .gettingURL) : Upload.Moves u .finished

/-- The five things one event can do. -/
inductive UploadState.Steps (st : UploadState ι) : UploadEvent ι → UploadState ι → Prop
  | unread (a t m) : UploadState.Steps st (.uploadFileOnServer a t none m) st
  | started (a t data m) (u : Upload ι) (hstage : u.stage = .putting) (hstored : u.stored = false) :
      UploadState.Steps st (.uploadFileOnServer a t (some data) m) { st with uploads := st.uploads ++ [u] }
  | stored (i : Nat) (u : Upload ι) (hu : st.uploads[i]? = some u) :
      UploadState.Steps st (.objectStored i)
        { st with
          storage := st.storage.upsert u.name u.audioData
          uploads := st.uploads.set i { u with stored := true } }
  | moved (e : UploadEvent ι) (i : Nat) (u : Upload ι) (stage : UploadStage)
      (hu : st.uploads[i]? = some u) (hmove : u.Moves stage) :
      UploadState.Steps st e { st with uploads := st.uploads.set i { u with stage := stage } }
  | sent (i : Nat) (u : Upload ι) (key : String) (now : Int) (w : Write)
      (hu : st.uploads[i]? = some u) (hstage : u.stage = .gettingURL)
      (hw : w.content = some (.string (urls.absoluteString u.name))) :
      UploadState.Steps st (.urlCompleted i true key now)
        { st with
          uploads := st.uploads.set i { u with stage := .finished }
          db := w.apply st.db
          sent := st.sent ++ [⟨i, key, w⟩] }

theorem UploadState.step_cases {st st' : UploadState ι} {e : UploadEvent ι}
    (h : st.step defaults urls e = some st') : UploadState.Steps urls st e st' := by
  cases e with
  | uploadFileOnServer client timeIntervalSince1970 contents message =>
    cases contents with
    | none =>
      cases h
      exact .unread _ _ _
    | some audioData =>
      cases h
      exact .started _ _ _ _ _ rfl rfl
  | objectStored i =>
    simp only [UploadState.step] at h
    split at h
    · cases h
    · rename_i u hu
      split at h
      · cases h
      · cases h
        exact .stored i u hu
  | putCompleted i error =>
    simp only [UploadState.step] at h
    split at h
    · cases h
    · rename_i u hu
      split at h
      · cases h
      · rename_i hstage
        have hputting := Decidable.not_not.mp hstage
        split at h
        · cases h
          exact .moved _ i u _ hu (.putFailed hputting)
        · split at h
          · rename_i hstored
            cases h
            exact .moved _ i u _ hu (.putSucceeded hputting hstored)
          · cases h
  | urlCompleted i ok key now =>
    simp only [UploadState.step] at h
    split at h
    · cases h
    · rename_i u hu
      split at h
      · cases h
      · rename_i hstage
        have hurl := Decidable.not_not.mp hstage
        cases ok with
        | false =>
          cases h
          exact .moved _ i u _ hu (.urlFinished hurl)
        | true =>
          rw [if_pos rfl] at h
          split at h
          · cases h
          · unfold UploadState.send at h
            split at h
            · cases h
            · cases h
              exact .moved _ i u _ hu (.urlFinished hurl)
            · rename_i w hsend
              cases h
              exact .sent i u key now w hu hurl (content_sendMessage hsend)

/-! ## Invariants -/

/-- The message of a finished upload whose object was stored, with the URL of that object. -/
def AudioMessage.From (m : AudioMessage) (u : Upload ι) : Prop :=
  u.stage = .finished ∧ u.stored = true ∧
    m.write.content = some (.string (urls.absoluteString u.name))

/-- What holds in every reached state: an upload that waits for its URL is stored, every message
comes from one finished upload, and the database holds exactly the messages. -/
structure UploadInv (db : FNode) (st : UploadState ι) : Prop where
  stored : ∀ (i : Nat) (u : Upload ι), st.uploads[i]? = some u → u.stage = .gettingURL → u.stored = true
  sent : ∀ m ∈ st.sent, ∃ u, st.uploads[m.upload]? = some u ∧ m.From urls u
  once : (st.sent.map AudioMessage.upload).Nodup
  written : st.db = (st.sent.map AudioMessage.write).foldl Write.apply db

/-- Every stored object still has the bytes of its upload. -/
def UploadState.Kept (st : UploadState ι) : Prop :=
  ∀ (i : Nat) (u : Upload ι), st.uploads[i]? = some u → u.stored = true →
    st.storage.lookup u.name = some u.audioData

/-- The event does not store an object under a name that holds one with other bytes. -/
def UploadState.NoOverwrite (st : UploadState ι) : UploadEvent ι → Prop
  | .objectStored i => ∀ u, st.uploads[i]? = some u →
      ∀ audioData, st.storage.lookup u.name = some audioData → audioData = u.audioData
  | _ => True

instance (st : UploadState ι) : (e : UploadEvent ι) → Decidable (st.NoOverwrite e)
  | .objectStored i =>
    inferInstanceAs (Decidable (∀ u ∈ st.uploads[i]?, ∀ audioData ∈ st.storage.lookup u.name,
      audioData = u.audioData))
  | .uploadFileOnServer .. | .putCompleted .. | .urlCompleted .. => isTrue trivial

/-- Messages keep their uploads when another upload, or the upload of none, changes. -/
theorem UploadInv.sent_set {db : FNode} {st : UploadState ι} (hinv : UploadInv urls db st) {i : Nat}
    {u u' : Upload ι} (hu : st.uploads[i]? = some u)
    (hfrom : ∀ m : AudioMessage, m.From urls u → m.From urls u') :
    ∀ m ∈ st.sent, ∃ v, (st.uploads.set i u')[m.upload]? = some v ∧ m.From urls v := by
  intro m hm
  obtain ⟨v, hv, hmv⟩ := hinv.sent m hm
  by_cases hi : m.upload = i
  · rw [hi] at hv ⊢
    rw [hu] at hv
    cases hv
    refine ⟨u', List.getElem?_set_self (List.getElem?_eq_some_iff.mp hu).1, hfrom m hmv⟩
  · exact ⟨v, by rwa [List.getElem?_set_ne (Ne.symm hi)], hmv⟩

theorem Upload.Moves.not_finished {u : Upload ι} {stage : UploadStage} (h : u.Moves stage) :
    u.stage ≠ .finished := by
  cases h with
  | putFailed h => rw [h]; decide
  | putSucceeded h => rw [h]; decide
  | urlFinished h => rw [h]; decide

/-- An upload that waited for its URL sends its one message. -/
theorem UploadInv.after_sent {db : FNode} {st : UploadState ι} (hinv : UploadInv urls db st) {i : Nat}
    {u : Upload ι} (key : String) {w : Write} (hu : st.uploads[i]? = some u)
    (hstage : u.stage = .gettingURL)
    (hw : w.content = some (.string (urls.absoluteString u.name))) :
    UploadInv urls db { st with
      uploads := st.uploads.set i { u with stage := .finished }
      db := w.apply st.db
      sent := st.sent ++ [⟨i, key, w⟩] } := by
  have hset : ∀ m ∈ st.sent, ∃ v, (st.uploads.set i { u with stage := .finished })[m.upload]? = some v ∧
      m.From urls v :=
    hinv.sent_set urls hu fun m hm => ⟨rfl, hm.2⟩
  refine ⟨?_, ?_, ?_, ?_⟩
  · exact forall_getElem?_set (fun hurl => by cases hurl) fun j v _ hv => hinv.stored j v hv
  · intro m hm
    rcases List.mem_append.mp hm with hm | hm
    · exact hset m hm
    · rw [List.mem_singleton] at hm
      subst hm
      exact ⟨_, List.getElem?_set_self (List.getElem?_eq_some_iff.mp hu).1,
        rfl, hinv.stored i u hu hstage, hw⟩
  · -- the upload has not sent a message yet: it was waiting for its URL
    rw [List.map_append, List.map_singleton, List.nodup_append]
    refine ⟨hinv.once, List.nodup_singleton _, ?_⟩
    rintro j hj k hk rfl
    rw [List.mem_singleton] at hk
    obtain ⟨m, hm, hmj⟩ := List.mem_map.mp hj
    obtain ⟨v, hv, hmv⟩ := hinv.sent m hm
    rw [hmj, hk, hu] at hv
    cases hv
    have hfinished := hmv.1
    rw [hstage] at hfinished
    cases hfinished
  · rw [List.map_append, List.foldl_append, hinv.written]
    rfl

theorem UploadState.step_inv {db : FNode} {st st' : UploadState ι} {e : UploadEvent ι}
    (hinv : UploadInv urls db st) (h : st.step defaults urls e = some st') : UploadInv urls db st' := by
  cases UploadState.step_cases defaults urls h with
  | unread => exact hinv
  | started a t data m u hstage hstored =>
    refine ⟨?_, ?_, hinv.once, hinv.written⟩
    · refine forall_getElem?_concat (fun h => ?_) hinv.stored
      rw [hstage] at h
      cases h
    · intro m hm
      obtain ⟨v, hv, hmv⟩ := hinv.sent m hm
      refine ⟨v, ?_, hmv⟩
      rw [List.getElem?_append_left (List.getElem?_eq_some_iff.mp hv).1]
      exact hv
  | stored i u hu =>
    refine ⟨?_, ?_, hinv.once, hinv.written⟩
    · exact forall_getElem?_set (fun _ => rfl) fun j v _ hv => hinv.stored j v hv
    · exact hinv.sent_set urls hu fun m hm => ⟨hm.1, rfl, hm.2.2⟩
  | moved _ i u stage hu hmove =>
    refine ⟨?_, ?_, hinv.once, hinv.written⟩
    · refine forall_getElem?_set (fun hurl => ?_) fun j v _ hv => hinv.stored j v hv
      cases hmove with
      | putFailed => cases hurl
      | putSucceeded _ hs => exact hs
      | urlFinished => cases hurl
    · exact hinv.sent_set urls hu fun m hm => absurd hm.1 hmove.not_finished
  | sent i u key now w hu hstage hw => exact hinv.after_sent urls key hu hstage hw

theorem UploadState.step_kept {st st' : UploadState ι} {e : UploadEvent ι} (hkept : st.Kept)
    (hno : st.NoOverwrite e) (h : st.step defaults urls e = some st') : st'.Kept := by
  cases UploadState.step_cases defaults urls h with
  | unread => exact hkept
  | started a t data m u hstage hstored =>
    refine forall_getElem?_concat (fun h => ?_) hkept
    rw [hstored] at h
    cases h
  | stored i u hu =>
    refine forall_getElem?_set (fun _ => List.lookup_upsert_self _ _ _) fun j v _ hv hs => ?_
    -- an object stored before under the same name has the same bytes
    have hlookup := hkept j v hv hs
    by_cases hname : u.name = v.name
    · rw [hname, List.lookup_upsert_self]
      rw [← hname] at hlookup
      rw [hno u hu _ hlookup]
    · rw [List.lookup_upsert_of_ne hname]
      exact hlookup
  | moved _ i u stage hu hmove =>
    exact forall_getElem?_set (fun hs => hkept i u hu hs) fun j v _ hv => hkept j v hv
  | sent i u key now w hu hstage hw =>
    exact forall_getElem?_set (fun hs => hkept i u hu hs) fun j v _ hv => hkept j v hv

/-! ## Runs -/

/-- The storage object a URL refers to. -/
def UploadState.object (st : UploadState ι) : AnyValue → Option Data
  | .string url => (st.storage.find? fun e => urls.absoluteString e.1 = url).map Prod.snd
  | _ => none

theorem UploadState.object_url (st : UploadState ι) (name : String) :
    st.object urls (.string (urls.absoluteString name)) = st.storage.lookup name := by
  show (st.storage.find? fun e => urls.absoluteString e.1 = urls.absoluteString name).map Prod.snd = _
  induction st.storage with
  | nil => rfl
  | cons e storage ih =>
    obtain ⟨name', audioData⟩ := e
    rw [List.find?_cons, List.lookup_cons]
    by_cases hname : name' = name
    · simp [hname]
    · have hurl : urls.absoluteString name' ≠ urls.absoluteString name := fun h => hname (urls.injective h)
      have hbeq : (name == name') = false := beq_eq_false_iff_ne.mpr (Ne.symm hname)
      simp only [hurl, decide_false, hbeq]
      exact ih

/-- An event that reports a failure: the recording cannot be read, the put fails, or there is no
URL. -/
def UploadEvent.failed : UploadEvent ι → Bool
  | .uploadFileOnServer _ _ contents _ => contents.isNone
  | .objectStored _ => false
  | .putCompleted _ error => error
  | .urlCompleted _ ok _ _ => !ok

/-- Every audio message refers by its URL to an object with the bytes of the recording it was
created for, an upload has at most one message, the database holds the messages and nothing
else new, and a failure leaves it unchanged. -/
structure AudioExact (db : FNode) (st : UploadState ι) : Prop where
  bytes : ∀ m ∈ st.sent, ∃ u, st.uploads[m.upload]? = some u ∧
    m.write.content.bind (st.object urls) = some u.audioData
  once : (st.sent.map AudioMessage.upload).Nodup
  written : st.db = (st.sent.map AudioMessage.write).foldl Write.apply db
  failed : ∀ e st', e.failed = true → st.step defaults urls e = some st' → st'.db = st.db

theorem UploadState.db_of_failed {st st' : UploadState ι} {e : UploadEvent ι} (he : e.failed = true)
    (h : st.step defaults urls e = some st') : st'.db = st.db := by
  cases UploadState.step_cases defaults urls h with
  | unread => rfl
  | started => rfl
  | stored => rfl
  | moved => rfl
  | sent => cases he

/-- **Uploaded audio is not overwritten** in a run in which no put stores an object under a name
that holds one with other bytes. -/
theorem audio_not_overwritten (db : FNode) {es : List (UploadEvent ι)} {st : UploadState ι}
    (hmeets : Meets (UploadState.step defaults urls) UploadState.NoOverwrite { db := db } es)
    (hrun : run (UploadState.step defaults urls) { db := db } es = some st) :
    AudioExact defaults urls db st := by
  have hinit : UploadInv urls db ({ db := db } : UploadState ι) ∧
      UploadState.Kept ({ db := db } : UploadState ι) :=
    ⟨⟨fun i u h => by simp at h, fun m h => absurd h List.not_mem_nil, List.nodup_nil, rfl⟩,
      fun i u h => by simp at h⟩
  obtain ⟨hinv, hkept⟩ : UploadInv urls db st ∧ st.Kept :=
    run_invariant_of_meets (C := UploadState.NoOverwrite) (I := fun st => UploadInv urls db st ∧ st.Kept)
      (fun s e s' hi hno hs => ⟨UploadState.step_inv defaults urls hi.1 hs,
        UploadState.step_kept defaults urls hi.2 hno hs⟩) es _ _ hinit hmeets hrun
  refine ⟨?_, hinv.once, hinv.written, fun e st' he h => UploadState.db_of_failed defaults urls he h⟩
  intro m hm
  obtain ⟨u, hu, -, hstored, hcontent⟩ := hinv.sent m hm
  refine ⟨u, hu, ?_⟩
  rw [hcontent, Option.bind_some, UploadState.object_url]
  exact hkept m.upload u hu hstored

end Uploads

/-- The defaults of a signed-in client, for the runs below. -/
def uploader : UserDefaults := savedDefaults "" ⟨"101", "", "", ""⟩

/-- URLs that spell out the name. -/
def plainURL : DownloadURL where
  absoluteString := fun name => "https://" ++ name
  injective := by
    intro a b h
    have hlist := congrArg String.toList h
    rw [String.toList_append, String.toList_append] at hlist
    exact String.toList_inj.mp (List.append_cancel_left hlist)

/-- Two clients whose clocks read the same upload equal recordings: the second is stored under a name that
is there already, and each message refers to its own recording. -/
theorem audio_not_overwritten_by_equal_recording :
    ∃ (es : List (UploadEvent Bool)) (st : UploadState Bool),
      run (UploadState.step (fun _ => uploader) plainURL) {} es = some st ∧
        st.uploads.map Upload.name = ["1657950000.5.mp3", "1657950000.5.mp3"] ∧ st.sent.length = 2 ∧
        AudioExact (fun _ => uploader) plainURL .empty st := by
  let es : List (UploadEvent Bool) :=
    [.uploadFileOnServer true "1657950000.5" (some [1, 2]) { receiverId := some "102" }, .objectStored 0,
     .putCompleted 0 false, .urlCompleted 0 true "-Na" 1657950001000,
     .uploadFileOnServer false "1657950000.5" (some [1, 2]) { receiverId := some "103" }, .objectStored 1,
     .putCompleted 1 false, .urlCompleted 1 true "-Nb" 1657950002000]
  have hsome : ((run (UploadState.step (fun _ => uploader) plainURL) {} es).filter fun st =>
      st.uploads.map Upload.name = ["1657950000.5.mp3", "1657950000.5.mp3"] ∧ st.sent.length = 2).isSome := by
    decide +kernel
  obtain ⟨st, hst⟩ := Option.isSome_iff_exists.mp hsome
  obtain ⟨hrun, hstate⟩ := Option.filter_eq_some_iff.mp hst
  rw [decide_eq_true_iff] at hstate
  have hmeets : Meets (UploadState.step (fun _ => uploader) plainURL) UploadState.NoOverwrite {} es := by
    decide +kernel
  exact ⟨es, st, hrun, hstate.1, hstate.2, audio_not_overwritten _ _ _ hmeets hrun⟩

/-- Two clients whose clocks read the same upload different recordings: the message of the first
refers to the recording of the second. -/
theorem audio_overwritten_at_equal_readings :
    ¬ ∀ (defaults : Bool → UserDefaults) (urls : DownloadURL) (db : FNode) (es : List (UploadEvent Bool))
      (st : UploadState Bool), run (UploadState.step defaults urls) { db := db } es = some st →
      AudioExact defaults urls db st := by
  intro hall
  let es : List (UploadEvent Bool) :=
    [.uploadFileOnServer true "1657950000.5" (some [1]) { receiverId := some "102" }, .objectStored 0,
     .putCompleted 0 false, .urlCompleted 0 true "-Na" 1657950001000,
     .uploadFileOnServer false "1657950000.5" (some [2]) { receiverId := some "102" }, .objectStored 1]
  have hsome : ((run (UploadState.step (fun _ => uploader) plainURL) {} es).filter fun st =>
      st.sent.map (fun m => (m.upload, m.write.content.bind (st.object plainURL))) = [(0, some [2])] ∧
        st.uploads.map Upload.audioData = [[1], [2]]).isSome := by decide
  obtain ⟨st, hst⟩ := Option.isSome_iff_exists.mp hsome
  obtain ⟨hrun, hbytes⟩ := Option.filter_eq_some_iff.mp hst
  rw [decide_eq_true_iff] at hbytes
  obtain ⟨hsent, huploads⟩ := hbytes
  obtain ⟨m, hm, hmeq⟩ := List.mem_map.mp (hsent ▸ List.mem_singleton_self (0, some [2]))
  obtain ⟨u, hu, hexact⟩ := (hall _ plainURL .empty es st hrun).bytes m hm
  have hdata := congrArg (fun l => l[0]?) huploads
  simp only [List.getElem?_map] at hdata
  obtain ⟨hupload, hobject⟩ := Prod.mk.inj hmeq
  rw [hupload] at hu
  rw [hu] at hdata
  rw [hobject] at hexact
  cases hexact.trans hdata

end ChatApplication
