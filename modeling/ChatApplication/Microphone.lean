import ChatApplication.VoiceMessage

/-!
# The microphone (`AudioPlayer.swift`, `ChatVC.swift`)

Every press on a record button, on whatever screen, uses the recorder of `SKAudioRecordPlay.shared`.
A recorder is an object of its own: it can be held or not, and it can be recording or not.  A
recorder that is released while it is recording may or may not be stopped by the system
(`releaseStops`); no result depends on it.

* `isSome_audioRecorder_pressAll` — on whether a recorder is held, this model and the one of
  `VoiceMessage` agree.
* `onlyDuringPress_press_iff` — one press keeps the law exactly when it does not cancel a recorder
  that it created.
* `microphone_only_during_press_iff` — over a run of presses the microphone is on only during a
  press exactly when no press that created a recorder is cancelled.
-/

namespace ChatApplication

open Runs

/-! ## The recorder -/

/-- The recorder that `SKAudioRecordPlay.shared` holds, the recorders that are recording, and how
many were created; a recorder is named by the number of those before it. -/
structure Microphone where
  audioRecorder : Option Nat := none
  recording : List Nat := []
  created : Nat := 0
  deriving DecidableEq, Repr

/-- A callback of `RecordView`. -/
inductive RecordCallback where
  | onStart (start : RecordingStart)
  | onFinished
  | onCancel
  deriving DecidableEq, Repr

namespace Microphone

/-- `audioRecorder.stop()`, if a recorder is held. -/
def stop (m : Microphone) : Microphone :=
  { m with recording := m.recording.filter fun recorder => m.audioRecorder ≠ some recorder }

/-- `finishRecording`. -/
def finishRecording (m : Microphone) : Microphone := { m.stop with audioRecorder := none }

/-- `startRecording`. -/
def startRecording (start : RecordingStart) (m : Microphone) : Microphone :=
  let m := m.finishRecording
  match start.result with
  | .throws => m.finishRecording
  | .created records =>
    { audioRecorder := some m.created
      recording := if records then m.recording ++ [m.created] else m.recording
      created := m.created + 1 }

variable (releaseStops : Bool)

/-- `audioRecorder = nil`. -/
def release (m : Microphone) : Microphone :=
  { (if releaseStops then m.stop else m) with audioRecorder := none }

/-- `ChatVC.onStart`, `onFinished` and `onCancel`. -/
def callback (m : Microphone) : RecordCallback → Microphone
  | .onStart start => (m.release releaseStops).startRecording start
  | .onFinished => m.finishRecording
  | .onCancel => m

/-- The state after the callbacks `cs`. -/
def callbacks (m : Microphone) (cs : List RecordCallback) : Microphone := cs.foldl (callback releaseStops) m

/-- No recorder is recording and none is held. -/
def Off (m : Microphone) : Prop := m.recording = [] ∧ m.audioRecorder = none

/-- What has to hold right after a callback: after a start only the recorder that it created is
recording, after an end the microphone is off. -/
def GoodAfter (m : Microphone) : RecordCallback → Prop
  | .onStart _ => ∀ recorder ∈ m.recording, m.audioRecorder = some recorder
  | .onFinished => m.Off
  | .onCancel => m.Off

/-- The microphone is on only between the start and the end of a press. -/
def OnlyDuringPress (m : Microphone) (cs : List RecordCallback) : Prop :=
  Along (fun earlier c => (m.callbacks releaseStops (earlier ++ [c])).GoodAfter c) cs

end Microphone

variable {ι : Type}

/-- The callbacks of a press. -/
def Press.callbacks (p : Press ι) : List RecordCallback :=
  (p.start.map RecordCallback.onStart).toList ++
    match p.ending with
    | .finished => [.onFinished]
    | .cancelled extra => List.replicate (extra + 1) .onCancel

/-- The press does not cancel a recorder that it created. -/
def Press.KeepsNoRecorder (p : Press ι) : Prop :=
  ∀ extra, p.ending = .cancelled extra → ∀ start, p.start = some start → start.result = .throws

/-! ## One press -/

namespace Microphone

variable (releaseStops : Bool)

theorem callbacks_append (m : Microphone) (cs ds : List RecordCallback) :
    m.callbacks releaseStops (cs ++ ds) = (m.callbacks releaseStops cs).callbacks releaseStops ds :=
  List.foldl_append

theorem onlyDuringPress_append (m : Microphone) (cs ds : List RecordCallback) :
    OnlyDuringPress releaseStops m (cs ++ ds) ↔
      OnlyDuringPress releaseStops m cs ∧
        OnlyDuringPress releaseStops (m.callbacks releaseStops cs) ds := by
  unfold OnlyDuringPress
  rw [along_append]
  simp only [List.append_assoc, callbacks_append releaseStops m cs]

theorem onlyDuringPress_singleton (m : Microphone) (c : RecordCallback) :
    OnlyDuringPress releaseStops m [c] ↔ (m.callback releaseStops c).GoodAfter c := by
  unfold OnlyDuringPress
  rw [← List.nil_append [c], along_concat]
  exact ⟨And.right, fun h => ⟨along_nil _, h⟩⟩

/-- A start on a microphone that is off: nothing happens when the recorder cannot be created. -/
theorem Off.onStart {m : Microphone} (h : m.Off) (start : RecordingStart) :
    m.callback releaseStops (.onStart start) =
      match start.result with
      | .throws => m
      | .created records => ⟨some m.created, if records then [m.created] else [], m.created + 1⟩ := by
  obtain ⟨hrecording, hheld⟩ := h
  obtain ⟨audioRecorder, recording, created⟩ := m
  subst hrecording hheld
  cases releaseStops <;> cases h : start.result <;>
    simp [callback, release, startRecording, finishRecording, stop, h]

/-- `finishRecording` turns the microphone off when only the recorder that is held is recording. -/
theorem off_finishRecording {m : Microphone} (h : ∀ recorder ∈ m.recording, m.audioRecorder = some recorder) :
    m.finishRecording.Off := by
  refine ⟨?_, rfl⟩
  show m.recording.filter _ = []
  rw [List.filter_eq_nil_iff]
  intro recorder hmem
  simp [h recorder hmem]

theorem callbacks_onCancel (m : Microphone) (n : Nat) :
    m.callbacks releaseStops (List.replicate n .onCancel) = m := by
  induction n with
  | zero => rfl
  | succ n ih => exact ih

/-- `onCancel` does nothing, so the microphone has to be off already. -/
theorem onlyDuringPress_onCancel_iff (m : Microphone) (extra : Nat) :
    OnlyDuringPress releaseStops m (List.replicate (extra + 1) .onCancel) ↔ m.Off := by
  induction extra with
  | zero => exact onlyDuringPress_singleton releaseStops m .onCancel
  | succ extra ih =>
    rw [List.replicate_succ', onlyDuringPress_append, ih, callbacks_onCancel, onlyDuringPress_singleton]
    exact and_iff_left_of_imp id

theorem onlyDuringPress_onFinished {m : Microphone}
    (h : ∀ recorder ∈ m.recording, m.audioRecorder = some recorder) :
    OnlyDuringPress releaseStops m [.onFinished] :=
  (onlyDuringPress_singleton releaseStops m .onFinished).mpr (off_finishRecording h)

/-- The end of a press that found or left the microphone off. -/
theorem Off.onlyDuringPress_end {m : Microphone} (h : m.Off) (ending : PressEnd) :
    OnlyDuringPress releaseStops m
      (match ending with
        | .finished => [.onFinished]
        | .cancelled extra => List.replicate (extra + 1) .onCancel) := by
  cases ending with
  | finished => exact onlyDuringPress_onFinished releaseStops (by simp [h.1])
  | cancelled extra => exact (onlyDuringPress_onCancel_iff releaseStops m extra).mpr h

/-- **One press** on a microphone that is off keeps the law exactly when it does not cancel a
recorder that it created. -/
theorem onlyDuringPress_press_iff {m : Microphone} (h : m.Off) (p : Press ι) :
    OnlyDuringPress releaseStops m p.callbacks ↔ p.KeepsNoRecorder := by
  obtain ⟨screen, start, ending⟩ := p
  unfold Press.callbacks Press.KeepsNoRecorder
  cases start with
  | none =>
    exact ⟨fun _ _ _ _ hstart => absurd hstart (by simp), fun _ => h.onlyDuringPress_end releaseStops ending⟩
  | some start =>
    simp only [Option.map_some, Option.toList_some, onlyDuringPress_append, onlyDuringPress_singleton,
      Option.some.injEq, forall_eq']
    show _ ∧ OnlyDuringPress releaseStops (m.callback releaseStops (.onStart start)) _ ↔ _
    rw [h.onStart]
    cases hresult : start.result with
    | throws =>
      have hgood : m.GoodAfter (.onStart start) := by simp [GoodAfter, h.1]
      exact ⟨fun _ _ _ => rfl, fun _ => ⟨hgood, h.onlyDuringPress_end releaseStops ending⟩⟩
    | created records =>
      have hgood : ∀ recorder ∈ (if records then [m.created] else []),
          some m.created = some recorder := by
        cases records <;> simp
      cases ending with
      | finished =>
        exact ⟨fun _ _ hend => absurd hend (by simp),
          fun _ => ⟨hgood, onlyDuringPress_onFinished releaseStops hgood⟩⟩
      | cancelled extra =>
        simp only [onlyDuringPress_onCancel_iff]
        constructor
        · rintro ⟨-, -, hheld⟩
          cases hheld
        · intro hkeeps
          exact absurd (hkeeps extra rfl) (by simp)

end Microphone

/-! ## Runs -/

/-- The last callback of a press ends it. -/
theorem Press.callbacks_eq_concat (p : Press ι) :
    ∃ cs c, p.callbacks = cs ++ [c] ∧ (c = .onFinished ∨ c = .onCancel) := by
  unfold Press.callbacks
  cases p.ending with
  | finished => exact ⟨_, _, rfl, .inl rfl⟩
  | cancelled extra =>
    refine ⟨(p.start.map RecordCallback.onStart).toList ++ List.replicate extra .onCancel, .onCancel,
      ?_, .inr rfl⟩
    rw [List.append_assoc, ← List.replicate_succ']

namespace Microphone

variable (releaseStops : Bool)

/-- The microphone is off after presses that kept the law. -/
theorem off_callbacks {ps : List (Press ι)}
    (h : OnlyDuringPress releaseStops {} (ps.flatMap Press.callbacks)) :
    (callbacks releaseStops {} (ps.flatMap Press.callbacks)).Off := by
  induction ps using List.reverseRecOn with
  | nil => exact ⟨rfl, rfl⟩
  | append_singleton ps p _ =>
    obtain ⟨cs, c, hcs, hend⟩ := p.callbacks_eq_concat
    rw [List.flatMap_append, List.flatMap_singleton, hcs, ← List.append_assoc] at h ⊢
    have hgood := (along_concat.mp h).2
    rcases hend with rfl | rfl <;> exact hgood

end Microphone

/-- The start of a press holds a recorder in one model exactly when it does in the other. -/
theorem isSome_audioRecorder_started (releaseStops : Bool) {m : Microphone} {s : VoiceState}
    (h : m.audioRecorder.isSome = s.recorder.audioRecorder.isSome) (p : Press ι) :
    (m.callbacks releaseStops (p.start.map RecordCallback.onStart).toList).audioRecorder.isSome =
      (s.started p).audioRecorder.isSome := by
  unfold VoiceState.started
  cases p.start with
  | none => exact h
  | some start =>
    obtain ⟨timeStamp, result⟩ := start
    cases result <;> rfl

/-- **The two models of the recorder agree** on whether a recorder is held. -/
theorem isSome_audioRecorder_pressAll (releaseStops : Bool) (receiver : ι → Option UsersState)
    (ps : List (Press ι)) :
    (Microphone.callbacks releaseStops {} (ps.flatMap Press.callbacks)).audioRecorder.isSome =
      (VoiceState.pressAll receiver {} ps).recorder.audioRecorder.isSome := by
  induction ps using List.reverseRecOn with
  | nil => rfl
  | append_singleton ps p ih =>
    have hstarted := isSome_audioRecorder_started releaseStops ih p
    rw [List.flatMap_append, List.flatMap_singleton, Microphone.callbacks_append, pressAll_concat,
      Press.callbacks, Microphone.callbacks_append]
    unfold VoiceState.press
    cases p.ending with
    | finished =>
      simp only [onFinished]
      split <;> rfl
    | cancelled extra =>
      simp only [Microphone.callbacks_onCancel, onCancel_iterate]
      exact hstarted

/-- **The microphone is on only during a press**, over every run of presses, exactly when no press
that created a recorder is cancelled. -/
theorem microphone_only_during_press_iff (releaseStops : Bool) (ps : List (Press ι)) :
    Microphone.OnlyDuringPress releaseStops {} (ps.flatMap Press.callbacks) ↔
      ∀ p ∈ ps, p.KeepsNoRecorder := by
  induction ps using List.reverseRecOn with
  | nil => exact ⟨fun _ _ h => absurd h List.not_mem_nil, fun _ => along_nil _⟩
  | append_singleton ps p ih =>
    rw [List.flatMap_append, List.flatMap_singleton, Microphone.onlyDuringPress_append,
      List.forall_mem_append, List.forall_mem_singleton, ← ih]
    refine and_congr_right fun h => ?_
    exact Microphone.onlyDuringPress_press_iff releaseStops (Microphone.off_callbacks releaseStops h) p

/-- The first recording is cancelled: the recorder goes on. -/
theorem microphone_on_after_cancel :
    ¬ ∀ (releaseStops : Bool) (ps : List (Press Unit)),
      Microphone.OnlyDuringPress releaseStops {} (ps.flatMap Press.callbacks) := by
  intro hall
  let start : RecordingStart := ⟨"16 July 2022 at 10:00:00", .created true⟩
  have h := hall true [⟨(), some start, .cancelled 0⟩] [.onStart start] .onCancel (List.prefix_refl _)
  exact absurd h.1 (by decide)

end ChatApplication
