import ChatApplication.Halper.ChatHalper
import ChatApplication.Lib.Runs

/-!
# Voice messages (`AudioPlayer.swift`, `ChatVC.swift`)

All chat screens share the recorder `SKAudioRecordPlay.shared`, which remembers the file of the
last recording in `audioUrl`.  A press on a record button makes the callbacks `RecordView` makes:
`onStart` if the start sound ended before the finger was lifted, then `onFinished`, or `onCancel`
one or more times.

A recording is named by the number of the press whose `onStart` began it; a file holds the
recording that was written to it last.

* `uploads_press` — what one press uploads: the recording in the file that `onFinished` finds.
* `voiceExact_concat` — one more press keeps the law exactly when it is `Clean`.
* `voice_messages_own_audio_iff` — every upload of a run is the recording of its own press exactly
  when every press of the run is clean: it is cancelled, its own recording was begun, or the file
  that `onFinished` finds does not exist.
-/

namespace ChatApplication

open Runs

/-! ## The recorder -/

/-- `SKAudioRecordPlay.shared` with the files of the documents directory. -/
structure SKAudioRecordPlay where
  audioRecorder : Option String := none
  audioUrl : Option String := none
  files : List (String × Nat) := []
  deriving DecidableEq, Repr

/-- What `startRecording` meets: `AVAudioRecorder` throws, or is created and `record()` begins a
recording or does not. -/
inductive RecorderResult where
  | throws
  | created (records : Bool)
  deriving DecidableEq, Repr

/-- The start of a press: the formatted time and what happens to the recorder. -/
structure RecordingStart where
  timeStamp : String
  result : RecorderResult
  deriving DecidableEq, Repr

/-- The file of a recording started at `timeStamp`: blanks are removed. -/
def filePath (timeStamp : String) : String :=
  "file:///Documents/" ++ String.ofList (timeStamp.toList.filter (· ≠ ' ')) ++ ".m4a"

namespace SKAudioRecordPlay

/-- `finishRecording`; stopping a recorder leaves its file. -/
def finishRecording (r : SKAudioRecordPlay) : SKAudioRecordPlay := { r with audioRecorder := none }

/-- `startRecording` of press `n`. -/
def startRecording (n : Nat) (start : RecordingStart) (r : SKAudioRecordPlay) : SKAudioRecordPlay :=
  let url := filePath start.timeStamp
  let r := { finishRecording r with audioUrl := some url }
  match start.result with
  | .throws => finishRecording r
  | .created records =>
    { r with
      audioRecorder := some url
      files := if records then r.files.upsert url n else r.files }

end SKAudioRecordPlay

/-! ## The chat screen -/

/-- `ChatVC.onStart`. -/
def onStart (n : Nat) (start : RecordingStart) (r : SKAudioRecordPlay) : SKAudioRecordPlay :=
  SKAudioRecordPlay.startRecording n start { r with audioRecorder := none }

/-- `ChatVC.onCancel` only prints. -/
def onCancel (r : SKAudioRecordPlay) : SKAudioRecordPlay := r

/-- The message of `ChatVC.onFinished`. -/
def audioMessage (receiver : Option UsersState) : MessageClass where
  receiverId := receiver.bind UsersState.userId
  mediaType := some .audio
  receiverName := receiver.bind UsersState.name

/-- `ChatVC.onFinished`: the recorder after it and the call of `uploadFileOnServer`, with the
recording that is read from the file.  `URL(string: "")` is `nil`. -/
def onFinished (receiver : Option UsersState) (r : SKAudioRecordPlay) :
    SKAudioRecordPlay × Option (MessageClass × Option Nat) :=
  let urlInString := r.audioUrl.getD ""
  let r := r.finishRecording
  if urlInString = "" then (r, none)
  else (r, some (audioMessage receiver, r.files.lookup urlInString))

/-! ## Presses -/

/-- How a press ends: the finger is lifted, or `onCancel` is called `extra + 1` times. -/
inductive PressEnd where
  | finished
  | cancelled (extra : Nat)
  deriving DecidableEq, Repr

/-- A press on the record button of a screen. -/
structure Press (ι : Type) where
  screen : ι
  start : Option RecordingStart
  ending : PressEnd

/-- A recording that was uploaded: by which press, with which message, and whose recording. -/
structure VoiceUpload where
  press : Nat
  message : MessageClass
  recording : Nat
  deriving DecidableEq, Repr

/-- The recorder, the number of presses so far, and the uploads they made. -/
structure VoiceState where
  recorder : SKAudioRecordPlay := {}
  presses : Nat := 0
  uploads : List VoiceUpload := []
  deriving DecidableEq, Repr

section Presses

variable {ι : Type} (receiver : ι → Option UsersState)

/-- The recorder after the start of a press. -/
def VoiceState.started (s : VoiceState) (p : Press ι) : SKAudioRecordPlay :=
  match p.start with
  | none => s.recorder
  | some start => onStart s.presses start s.recorder

/-- One press.  `uploadFileOnServer` uploads what it can read. -/
def VoiceState.press (s : VoiceState) (p : Press ι) : VoiceState :=
  match p.ending with
  | .cancelled extra =>
    { s with recorder := onCancel^[extra + 1] (s.started p), presses := s.presses + 1 }
  | .finished =>
    let (recorder, call) := onFinished (receiver p.screen) (s.started p)
    { recorder := recorder
      presses := s.presses + 1
      uploads :=
        match call with
        | some (message, some recording) => s.uploads ++ [⟨s.presses, message, recording⟩]
        | _ => s.uploads }

/-- The state after the presses `ps`. -/
def VoiceState.pressAll (s : VoiceState) (ps : List (Press ι)) : VoiceState :=
  ps.foldl (VoiceState.press receiver) s

/-- The press began a recording of its own. -/
def Press.records (p : Press ι) : Prop :=
  ∃ timeStamp, p.start = some ⟨timeStamp, .created true⟩

/-- The upload is the recording of its own press, which was made on the screen the message is for
and was not cancelled. -/
def VoiceUpload.Own (ps : List (Press ι)) (u : VoiceUpload) : Prop :=
  ∃ p, ps[u.recording]? = some p ∧ u.recording = u.press ∧ p.records ∧ p.ending = .finished ∧
    u.message = audioMessage (receiver p.screen)

/-- Every upload is the recording of its own press, and no recording is uploaded twice. -/
structure VoiceExact (ps : List (Press ι)) (s : VoiceState) : Prop where
  own : ∀ u ∈ s.uploads, u.Own receiver ps
  once : (s.uploads.map VoiceUpload.recording).Nodup

/-- The press does not upload, begins a recording of its own, or finds no file: neither under the
name its failed start chose, nor, without a start, under the name an earlier press left. -/
def Clean (s : VoiceState) (p : Press ι) : Prop :=
  p.ending = .finished →
    match p.start with
    | some ⟨timeStamp, result⟩ =>
      result = .created true ∨ s.recorder.files.lookup (filePath timeStamp) = none
    | none => ∀ url, s.recorder.audioUrl = some url → s.recorder.files.lookup url = none

/-! ## One press -/

theorem filePath_ne_empty (timeStamp : String) : filePath timeStamp ≠ "" := by
  intro h
  have hlen : (filePath timeStamp).length = 0 := by rw [h]; rfl
  have hext : ".m4a".length = 4 := by decide
  unfold filePath at hlen
  rw [String.length_append] at hlen
  omega

/-- The recording in the file that `onFinished` of the press finds. -/
def VoiceState.found (s : VoiceState) (p : Press ι) : Option Nat :=
  (s.started p).audioUrl.bind fun url => (s.started p).files.lookup url

/-- The recorder after `n` presses: files hold recordings of these, and `audioUrl` is a file. -/
structure RecorderInv (n : Nat) (r : SKAudioRecordPlay) : Prop where
  files : ∀ url recording, r.files.lookup url = some recording → recording < n
  audioUrl : r.audioUrl ≠ some ""

/-- The first `n` presses made the uploads. -/
structure VoiceInv (n : Nat) (s : VoiceState) : Prop where
  presses : s.presses = n
  recorder : RecorderInv n s.recorder
  uploads : ∀ u ∈ s.uploads, u.press < n

theorem started_of_records {p : Press ι} (hp : p.records) (s : VoiceState) :
    ∃ url, (s.started p).audioUrl = some url ∧ url ≠ "" ∧
      (s.started p).files = s.recorder.files.upsert url s.presses := by
  obtain ⟨timeStamp, hstart⟩ := hp
  exact ⟨filePath timeStamp, by rw [VoiceState.started, hstart]; rfl, filePath_ne_empty _,
    by rw [VoiceState.started, hstart]; rfl⟩

theorem started_of_not_records {p : Press ι} {start : RecordingStart} (hstart : p.start = some start)
    (hp : ¬ p.records) (s : VoiceState) :
    (s.started p).audioUrl = some (filePath start.timeStamp) ∧
      (s.started p).files = s.recorder.files := by
  obtain ⟨timeStamp, result⟩ := start
  rw [VoiceState.started, hstart]
  cases result with
  | throws => exact ⟨rfl, rfl⟩
  | created records =>
    cases records with
    | false => exact ⟨rfl, rfl⟩
    | true => exact absurd ⟨timeStamp, hstart⟩ hp

theorem found_of_records {p : Press ι} (hp : p.records) (s : VoiceState) :
    s.found p = some s.presses := by
  obtain ⟨url, hurl, -, hfiles⟩ := started_of_records hp s
  rw [VoiceState.found, hurl, hfiles]
  exact List.lookup_upsert_self _ _ _

theorem records_or_found_of_clean {s : VoiceState} {p : Press ι} (hend : p.ending = .finished) :
    Clean s p ↔ p.records ∨ s.found p = none := by
  unfold Clean
  simp only [hend, true_implies]
  by_cases hp : p.records
  · obtain ⟨timeStamp, hstart⟩ := id hp
    simp [hstart, hp]
  · cases hstart : p.start with
    | none =>
      simp [VoiceState.found, VoiceState.started, hstart, hp, Option.bind_eq_none_iff]
    | some start =>
      obtain ⟨hurl, hfiles⟩ := started_of_not_records hstart hp s
      obtain ⟨timeStamp, result⟩ := start
      have hresult : result ≠ .created true := by
        rintro rfl
        exact hp ⟨timeStamp, hstart⟩
      simp [VoiceState.found, hurl, hfiles, hp, hresult]

theorem RecorderInv.started {n : Nat} {s : VoiceState} (hinv : VoiceInv n s) (p : Press ι) :
    RecorderInv (n + 1) (s.started p) := by
  by_cases hp : p.records
  · obtain ⟨url, hurl, hne, hfiles⟩ := started_of_records hp s
    refine ⟨fun url' recording h => ?_, by rw [hurl]; simpa using hne⟩
    rw [hfiles] at h
    by_cases heq : url = url'
    · subst heq
      rw [List.lookup_upsert_self, hinv.presses] at h
      cases h
      omega
    · rw [List.lookup_upsert_of_ne heq] at h
      have := hinv.recorder.files url' recording h
      omega
  · cases hstart : p.start with
    | none =>
      rw [VoiceState.started, hstart]
      refine ⟨fun url recording h => ?_, hinv.recorder.audioUrl⟩
      have := hinv.recorder.files url recording h
      omega
    | some start =>
      obtain ⟨hurl, hfiles⟩ := started_of_not_records hstart hp s
      refine ⟨fun url recording h => ?_, by rw [hurl]; simpa using filePath_ne_empty _⟩
      rw [hfiles] at h
      have := hinv.recorder.files url recording h
      omega

/-- A recording that is found and is not that of the press is one of an earlier press. -/
theorem found_lt {n : Nat} {s : VoiceState} (hinv : VoiceInv n s) {p : Press ι} (hp : ¬ p.records)
    {recording : Nat} (h : s.found p = some recording) : recording < n := by
  obtain ⟨url, hurl, hlookup⟩ := Option.bind_eq_some_iff.mp h
  cases hstart : p.start with
  | none =>
    rw [VoiceState.started, hstart] at hlookup
    exact hinv.recorder.files url recording hlookup
  | some start =>
    rw [(started_of_not_records hstart hp s).2] at hlookup
    exact hinv.recorder.files url recording hlookup

theorem onCancel_iterate (n : Nat) (r : SKAudioRecordPlay) : onCancel^[n] r = r := by
  induction n with
  | zero => rfl
  | succ n ih => rw [Function.iterate_succ_apply']; exact ih

/-- **What one press uploads**: nothing when it is cancelled, else the recording it finds. -/
theorem uploads_press {n : Nat} {s : VoiceState} (hinv : VoiceInv n s) (p : Press ι) :
    (s.press receiver p).uploads =
      match p.ending, s.found p with
      | .finished, some recording =>
        s.uploads ++ [⟨s.presses, audioMessage (receiver p.screen), recording⟩]
      | _, _ => s.uploads := by
  have hne := (RecorderInv.started hinv p).audioUrl
  unfold VoiceState.press VoiceState.found
  cases p.ending with
  | cancelled extra => rfl
  | finished =>
    simp only [onFinished, SKAudioRecordPlay.finishRecording]
    cases hurl : (s.started p).audioUrl with
    | none => rfl
    | some url =>
      have hurl_ne : url ≠ "" := by
        rintro rfl
        exact hne hurl
      simp only [Option.getD_some, hurl_ne, if_false, Option.bind_some]
      cases (s.started p).files.lookup url <;> rfl

theorem presses_press (s : VoiceState) (p : Press ι) : (s.press receiver p).presses = s.presses + 1 := by
  unfold VoiceState.press
  cases p.ending <;> rfl

/-- Ending a press changes neither the files nor `audioUrl`. -/
theorem recorder_press (s : VoiceState) (p : Press ι) :
    (s.press receiver p).recorder.files = (s.started p).files ∧
      (s.press receiver p).recorder.audioUrl = (s.started p).audioUrl := by
  unfold VoiceState.press
  cases p.ending with
  | cancelled extra =>
    show (onCancel^[extra + 1] (s.started p)).files = _ ∧ (onCancel^[extra + 1] (s.started p)).audioUrl = _
    rw [onCancel_iterate]
    exact ⟨rfl, rfl⟩
  | finished =>
    simp only [onFinished]
    split <;> exact ⟨rfl, rfl⟩

theorem VoiceInv.press {n : Nat} {s : VoiceState} (hinv : VoiceInv n s) (p : Press ι) :
    VoiceInv (n + 1) (s.press receiver p) := by
  obtain ⟨hfiles, hurl⟩ := recorder_press receiver s p
  have hstarted := RecorderInv.started hinv p
  refine ⟨by rw [presses_press, hinv.presses], ⟨?_, by rw [hurl]; exact hstarted.audioUrl⟩, ?_⟩
  · rw [hfiles]
    exact hstarted.files
  · have hold : ∀ u ∈ s.uploads, u.press < n + 1 := fun u hu => Nat.lt_succ_of_lt (hinv.uploads u hu)
    rw [uploads_press receiver hinv]
    split
    · intro u hu
      rcases List.mem_append.mp hu with hu | hu
      · exact hold u hu
      · rw [List.mem_singleton] at hu
        subst hu
        show s.presses < n + 1
        rw [hinv.presses]
        omega
    · exact hold

/-! ## Runs -/

/-- Whose recording an earlier upload is does not depend on later presses. -/
theorem own_concat_iff {ps : List (Press ι)} {p : Press ι} {u : VoiceUpload}
    (hu : u.press < ps.length) : u.Own receiver (ps ++ [p]) ↔ u.Own receiver ps := by
  constructor
  · rintro ⟨q, hq, hown, hrest⟩
    rw [hown, List.getElem?_append_left hu, ← hown] at hq
    exact ⟨q, hq, hown, hrest⟩
  · rintro ⟨q, hq, hown, hrest⟩
    refine ⟨q, ?_, hown, hrest⟩
    rw [hown, List.getElem?_append_left hu, ← hown]
    exact hq

theorem voiceExact_of_uploads_eq {ps : List (Press ι)} {p : Press ι} {s s' : VoiceState}
    (hinv : VoiceInv ps.length s) (h : s'.uploads = s.uploads) :
    VoiceExact receiver (ps ++ [p]) s' ↔ VoiceExact receiver ps s := by
  constructor
  · rintro ⟨hown, honce⟩
    rw [h] at hown honce
    exact ⟨fun u hu => (own_concat_iff receiver (hinv.uploads u hu)).mp (hown u hu), honce⟩
  · rintro ⟨hown, honce⟩
    refine ⟨fun u hu => ?_, by rw [h]; exact honce⟩
    rw [h] at hu
    exact (own_concat_iff receiver (hinv.uploads u hu)).mpr (hown u hu)

/-- A press that uploads its own recording keeps the law. -/
theorem voiceExact_append_own {ps : List (Press ι)} {p : Press ι} {s s' : VoiceState}
    (hinv : VoiceInv ps.length s) (hp : p.records) (hend : p.ending = .finished)
    (h : s'.uploads = s.uploads ++ [⟨ps.length, audioMessage (receiver p.screen), ps.length⟩]) :
    VoiceExact receiver (ps ++ [p]) s' ↔ VoiceExact receiver ps s := by
  constructor
  · rintro ⟨hown, honce⟩
    rw [h] at hown honce
    refine ⟨fun u hu => ?_, ?_⟩
    · exact (own_concat_iff receiver (hinv.uploads u hu)).mp (hown u (List.mem_append_left _ hu))
    · rw [List.map_append] at honce
      exact (List.nodup_append.mp honce).1
  · rintro ⟨hown, honce⟩
    refine ⟨fun u hu => ?_, ?_⟩
    · rw [h] at hu
      rcases List.mem_append.mp hu with hu | hu
      · exact (own_concat_iff receiver (hinv.uploads u hu)).mpr (hown u hu)
      · rw [List.mem_singleton] at hu
        subst hu
        exact ⟨p, List.getElem?_concat_length, rfl, hp, hend, rfl⟩
    · -- the recordings uploaded before are those of earlier presses
      rw [h, List.map_append, List.nodup_append]
      refine ⟨honce, List.nodup_singleton _, ?_⟩
      rintro a ha b hb rfl
      obtain ⟨u, hu, rfl⟩ := List.mem_map.mp ha
      obtain ⟨-, -, hpress, -⟩ := hown u hu
      have hlt := hinv.uploads u hu
      have hlast : u.recording = ps.length := by simpa using hb
      omega

/-- **One more press** keeps the law exactly when it is clean. -/
theorem voiceExact_concat {ps : List (Press ι)} {s : VoiceState} (hinv : VoiceInv ps.length s)
    (p : Press ι) :
    VoiceExact receiver (ps ++ [p]) (s.press receiver p) ↔ VoiceExact receiver ps s ∧ Clean s p := by
  have huploads := uploads_press receiver hinv p
  cases hend : p.ending with
  | cancelled extra =>
    rw [hend] at huploads
    rw [voiceExact_of_uploads_eq receiver hinv huploads]
    have hclean : Clean s p := fun h => absurd (hend ▸ h) (by simp)
    exact ⟨fun h => ⟨h, hclean⟩, fun h => h.1⟩
  | finished =>
    rw [records_or_found_of_clean hend]
    cases hfound : s.found p with
    | none =>
      rw [hend, hfound] at huploads
      rw [voiceExact_of_uploads_eq receiver hinv huploads]
      exact ⟨fun h => ⟨h, .inr rfl⟩, fun h => h.1⟩
    | some recording =>
      rw [hend, hfound, hinv.presses] at huploads
      by_cases hp : p.records
      · rw [found_of_records hp, hinv.presses] at hfound
        cases hfound
        rw [voiceExact_append_own receiver hinv hp hend huploads]
        exact ⟨fun h => ⟨h, .inl hp⟩, fun h => h.1⟩
      · -- the recording of an earlier press is not that of this one
        have hlt := found_lt hinv hp hfound
        constructor
        · rintro ⟨hown, -⟩
          obtain ⟨-, -, hpress, -⟩ := hown ⟨ps.length, audioMessage (receiver p.screen), recording⟩
            (by rw [huploads]; simp)
          have hpress : recording = ps.length := hpress
          omega
        · rintro ⟨-, hp' | hnone⟩
          · exact absurd hp' hp
          · cases hnone

theorem pressAll_concat (s : VoiceState) (ps : List (Press ι)) (p : Press ι) :
    s.pressAll receiver (ps ++ [p]) = (s.pressAll receiver ps).press receiver p := by
  rw [VoiceState.pressAll, List.foldl_append]
  rfl

theorem VoiceInv.pressAll (ps : List (Press ι)) :
    VoiceInv ps.length (VoiceState.pressAll receiver {} ps) := by
  induction ps using List.reverseRecOn with
  | nil => exact ⟨rfl, ⟨fun _ _ h => by simp [VoiceState.pressAll] at h, by simp [VoiceState.pressAll]⟩,
      fun u hu => by simp [VoiceState.pressAll] at hu⟩
  | append_singleton ps p ih =>
    rw [pressAll_concat, List.length_append]
    exact ih.press receiver p

/-- **A voice message carries only the audio of the press that sent it** exactly when every press
of the run is clean. -/
theorem voice_messages_own_audio_iff (ps : List (Press ι)) :
    VoiceExact receiver ps (VoiceState.pressAll receiver {} ps) ↔
      Along (fun earlier p => Clean (VoiceState.pressAll receiver {} earlier) p) ps := by
  induction ps using List.reverseRecOn with
  | nil =>
    refine ⟨fun _ => along_nil _, fun _ => ⟨fun u hu => ?_, List.nodup_nil⟩⟩
    simp [VoiceState.pressAll] at hu
  | append_singleton ps p ih =>
    rw [along_concat, ← ih, pressAll_concat]
    exact voiceExact_concat receiver (VoiceInv.pressAll receiver ps) p

end Presses

/-- A recording is cancelled on the screen for `102`; a short tap on the screen for `103` uploads
it. -/
theorem voice_message_of_cancelled_press :
    ¬ ∀ (receiver : Bool → Option UsersState) (ps : List (Press Bool)),
      VoiceExact receiver ps (VoiceState.pressAll receiver {} ps) := by
  intro hall
  let receiver : Bool → Option UsersState :=
    fun b => if b then some { userId := some "102" } else some { userId := some "103" }
  let ps : List (Press Bool) :=
    [⟨true, some ⟨"16 July 2022 at 10:00:00", .created true⟩, .cancelled 0⟩, ⟨false, none, .finished⟩]
  have huploads : (VoiceState.pressAll receiver {} ps).uploads =
      [⟨1, audioMessage (receiver false), 0⟩] := by decide
  obtain ⟨p, -, hpress, -⟩ := (hall receiver ps).own _ (huploads ▸ List.mem_singleton_self _)
  cases hpress

end ChatApplication
