import ChatApplication.Microphone

/-!
# The record button (vendored `RecordView.swift`, `RecordButton.swift`, `AudioPlayer.swift`)

A finger on the record button plays a sound.  When the sound ends `RecordView` calls `onStart`, when
the finger is lifted `onFinished`, and when the finger slides to the left or the system takes the
touch away `onCancel`.  The end of the sound, the ticks of the timer and the moves of the finger come
in any order.

* `RecordView.step` — one event: the view after it and the calls of the delegate.
* `calls_body` — while the finger is down: the first end of a sound is the start, unless the finger
  slid away before.
* `delegate_calls_of_gestures` — the calls over any sequence of gestures: those of each gesture alone,
  and between gestures the stray cancels of a second finger that slides on.
* `microphone_of_gestures_iff` — over any sequence of gestures the microphone is on only during a
  press exactly when no gesture that created a recorder is cancelled.
-/

namespace ChatApplication

open Runs

/-! ## The view -/

/-- What happens to a record button.  A start comes with what `startRecording` would meet then. -/
inductive RecordEvent where
  | touchesBegan (start : RecordingStart)
  | touchesEnded
  | touchesCancelled
  | touchMoved (changed : Bool) (translationX : Int) (intersects : Bool)
  | updateDuration
  | audioPlayerDidFinishPlaying (start : RecordingStart)
  deriving DecidableEq, Repr

/-- A call of the `RecordViewDelegate`.  `ChatVC` has no `onAnimationEnd`. -/
inductive DelegateCall where
  | onStart (start : RecordingStart)
  | onFinished (duration : Nat)
  | onCancel
  deriving DecidableEq, Repr

/-- `ChatVC` does not read the duration. -/
def DelegateCall.callback : DelegateCall → RecordCallback
  | .onStart start => .onStart start
  | .onFinished _ => .onFinished
  | .onCancel => .onCancel

/-- `RecordView` with the state of its gesture recognizer and whether `didFinishPlaying` of its player
is set. -/
structure RecordView where
  began : Bool := false
  isSwiped : Bool := false
  duration : Nat := 0
  timer : Bool := false
  didFinishPlaying : Bool := false
  deriving DecidableEq, Repr

namespace RecordView

variable (isSoundEnabled : Bool)

def resetTimer (v : RecordView) : RecordView := { v with timer := false, duration := 0 }

def prepareToStartRecording (v : RecordView) : RecordView := { v.resetTimer with timer := true }

def playAudioFile (v : RecordView) : RecordView := { v with didFinishPlaying := false }

def onStart (start : RecordingStart) (v : RecordView) : RecordView × List DelegateCall :=
  let v := prepareToStartRecording { v with isSwiped := false }
  if isSoundEnabled then ({ v.playAudioFile with didFinishPlaying := true }, []) else (v, [.onStart start])

def onSwipe (v : RecordView) : RecordView × List DelegateCall :=
  (resetTimer { v with isSwiped := true, didFinishPlaying := false }, [.onCancel])

def onTouchCancel (v : RecordView) : RecordView × List DelegateCall :=
  (resetTimer { v with isSwiped := false, didFinishPlaying := false }, [.onCancel])

def onFinish (v : RecordView) : RecordView × List DelegateCall :=
  let v := { v with isSwiped := false, didFinishPlaying := false }
  let v := if isSoundEnabled then v.playAudioFile else v
  (v.resetTimer, [.onFinished v.duration])

def onTouchUp (v : RecordView) : RecordView × List DelegateCall :=
  if v.isSwiped then (v, []) else onFinish isSoundEnabled v

def touchMoved (changed : Bool) (translationX : Int) (intersects : Bool) (v : RecordView) :
    RecordView × List DelegateCall :=
  if v.isSwiped then (v, [])
  else if changed ∧ translationX < 0 ∧ intersects then v.onSwipe
  else (v, [])

/-- One event.  A second finger does not begin again, a gesture that is over hears nothing of the
touches that are left, and a timer that was invalidated does not fire. -/
def step (v : RecordView) : RecordEvent → RecordView × List DelegateCall
  | .touchesBegan start => if v.began then (v, []) else onStart isSoundEnabled start { v with began := true }
  | .touchesEnded => if v.began then onTouchUp isSoundEnabled { v with began := false } else (v, [])
  | .touchesCancelled => if v.began then onTouchCancel { v with began := false } else (v, [])
  | .touchMoved changed translationX intersects => v.touchMoved changed translationX intersects
  | .updateDuration => if v.timer then ({ v with duration := v.duration + 1 }, []) else (v, [])
  | .audioPlayerDidFinishPlaying start =>
    if v.didFinishPlaying then (v.playAudioFile, [.onStart start]) else (v, [])

/-- The view after the events. -/
def after (v : RecordView) (events : List RecordEvent) : RecordView :=
  events.foldl (fun v e => (step isSoundEnabled v e).1) v

/-- The calls of the delegate during the events. -/
def calls (v : RecordView) : List RecordEvent → List DelegateCall
  | [] => []
  | e :: events => (step isSoundEnabled v e).2 ++ calls (step isSoundEnabled v e).1 events

end RecordView

/-! ## Gestures -/

namespace RecordEvent

/-- The finger has slid to the timer. -/
def isSwipe : RecordEvent → Bool
  | .touchMoved changed translationX intersects => changed && decide (translationX < 0) && intersects
  | _ => false

def isTouch : RecordEvent → Bool
  | .touchesBegan _ => true
  | e => e == .touchesEnded || e == .touchesCancelled

/-- What the end of a sound starts. -/
def soundEnd : RecordEvent → Option RecordingStart
  | .audioPlayerDidFinishPlaying start => some start
  | _ => none

end RecordEvent

/-- One touch of the button from begin to end, and what happened since the touch before it. -/
structure Gesture where
  idle : List RecordEvent
  start : RecordingStart
  body : List RecordEvent
  lifted : Bool
  idle_quiet : ∀ e ∈ idle, e.isTouch = false
  body_quiet : ∀ e ∈ body, e ≠ .touchesEnded ∧ e ≠ .touchesCancelled

namespace Gesture

def ending (g : Gesture) : RecordEvent := if g.lifted then .touchesEnded else .touchesCancelled

def events (g : Gesture) : List RecordEvent :=
  g.idle ++ .touchesBegan g.start :: (g.body ++ [g.ending])

def swiped (g : Gesture) : Bool := g.body.any RecordEvent.isSwipe

/-- The start of the gesture: with sounds, the first end of a sound before the finger slides away. -/
def firstStart (isSoundEnabled : Bool) (g : Gesture) : Option RecordingStart :=
  if isSoundEnabled then (g.body.takeWhile fun e => !e.isSwipe).findSome? RecordEvent.soundEnd
  else some g.start

/-- The seconds that the finger was down. -/
def seconds (g : Gesture) : Nat := g.body.count .updateDuration

/-- The press that the gesture is. -/
def press (isSoundEnabled : Bool) (g : Gesture) : Press Unit where
  screen := ()
  start := g.firstStart isSoundEnabled
  ending :=
    if g.lifted then if g.swiped then .cancelled 0 else .finished
    else .cancelled (if g.swiped then 1 else 0)

/-- The calls of the gesture. -/
def calls (isSoundEnabled : Bool) (g : Gesture) : List DelegateCall :=
  ((g.firstStart isSoundEnabled).map DelegateCall.onStart).toList ++
    (if g.swiped then [.onCancel] else []) ++
    if g.lifted then if g.swiped then [] else [.onFinished g.seconds] else [.onCancel]

end Gesture

/-- A second finger that slides on while no gesture is going on, on a view that is not swiped. -/
def strayCancel (isSwiped : Bool) (idle : List RecordEvent) : List DelegateCall :=
  if !isSwiped && idle.any RecordEvent.isSwipe then [.onCancel] else []

/-- The calls of gestures, each with the stray cancels before it. -/
def gestureCalls (isSoundEnabled : Bool) : Bool → List Gesture → List DelegateCall
  | _, [] => []
  | isSwiped, g :: gs =>
    strayCancel isSwiped g.idle ++ g.calls isSoundEnabled ++
      gestureCalls isSoundEnabled (g.lifted && g.swiped) gs

/-! ## While the finger stays where it is, up or down -/

namespace RecordView

variable (isSoundEnabled : Bool)

/-- An event that neither ends a gesture nor, with the finger up, begins one. -/
def Quiet (v : RecordView) (e : RecordEvent) : Prop :=
  e ≠ .touchesEnded ∧ e ≠ .touchesCancelled ∧ (v.began = false → e.isTouch = false)

/-- A view that was swiped waits for no sound and no tick. -/
def Settled (v : RecordView) : Prop := v.isSwiped = true → v.didFinishPlaying = false ∧ v.timer = false

theorem calls_append (v : RecordView) (es fs : List RecordEvent) :
    v.calls isSoundEnabled (es ++ fs) =
      v.calls isSoundEnabled es ++ (v.after isSoundEnabled es).calls isSoundEnabled fs := by
  induction es generalizing v with
  | nil => rfl
  | cons e es ih =>
    rw [List.cons_append, calls, ih, calls, List.append_assoc]
    rfl

theorem after_append (v : RecordView) (es fs : List RecordEvent) :
    v.after isSoundEnabled (es ++ fs) = (v.after isSoundEnabled es).after isSoundEnabled fs :=
  List.foldl_append

theorem after_cons (v : RecordView) (e : RecordEvent) (es : List RecordEvent) :
    v.after isSoundEnabled (e :: es) = (step isSoundEnabled v e).1.after isSoundEnabled es := rfl

/-- What an event that is quiet can do. -/
theorem step_cases {v : RecordView} {e : RecordEvent} (h : v.Quiet e) :
    (e.isSwipe = true ∧ v.isSwiped = false ∧ step isSoundEnabled v e = v.onSwipe) ∨
    (∃ start, e = .audioPlayerDidFinishPlaying start ∧ v.didFinishPlaying = true ∧
      step isSoundEnabled v e = (v.playAudioFile, [.onStart start])) ∨
    (e = .updateDuration ∧ v.timer = true ∧
      step isSoundEnabled v e = ({ v with duration := v.duration + 1 }, [])) ∨
    ((e.isSwipe = true → v.isSwiped = true) ∧ (e.soundEnd.isSome = true → v.didFinishPlaying = false) ∧
      (e = .updateDuration → v.timer = false) ∧ step isSoundEnabled v e = (v, [])) := by
  obtain ⟨hended, hcancelled, hbegan⟩ := h
  cases e with
  | touchesEnded => exact absurd rfl hended
  | touchesCancelled => exact absurd rfl hcancelled
  | touchesBegan start =>
    have hdown : v.began = true := by
      cases hb : v.began with
      | true => rfl
      | false => exact absurd (hbegan hb) (by simp [RecordEvent.isTouch])
    exact .inr (.inr (.inr ⟨by simp [RecordEvent.isSwipe], by simp [RecordEvent.soundEnd], by simp,
      by simp [step, hdown]⟩))
  | touchMoved changed translationX intersects =>
    cases hs : v.isSwiped with
    | true =>
      exact .inr (.inr (.inr ⟨fun _ => rfl, by simp [RecordEvent.soundEnd], by simp,
        by simp [step, touchMoved, hs]⟩))
    | false =>
      by_cases hmove : changed = true ∧ translationX < 0 ∧ intersects = true
      · exact .inl ⟨by simp [RecordEvent.isSwipe, hmove], rfl, by simp [step, touchMoved, hs, hmove]⟩
      · refine .inr (.inr (.inr ⟨fun h => absurd ?_ hmove, by simp [RecordEvent.soundEnd], by simp,
          by simp only [step, touchMoved, hs, if_neg hmove, Bool.false_eq_true, if_false]⟩))
        simp only [RecordEvent.isSwipe, Bool.and_eq_true, decide_eq_true_eq] at h
        exact ⟨h.1.1, h.1.2, h.2⟩
  | updateDuration =>
    cases ht : v.timer with
    | true => exact .inr (.inr (.inl ⟨rfl, rfl, by simp [step, ht]⟩))
    | false =>
      exact .inr (.inr (.inr ⟨by simp [RecordEvent.isSwipe], by simp [RecordEvent.soundEnd], fun _ => rfl,
        by simp [step, ht]⟩))
  | audioPlayerDidFinishPlaying start =>
    cases hd : v.didFinishPlaying with
    | true => exact .inr (.inl ⟨start, rfl, rfl, by simp [step, hd]⟩)
    | false =>
      exact .inr (.inr (.inr ⟨by simp [RecordEvent.isSwipe], fun _ => rfl, by simp, by simp [step, hd]⟩))

/-- The calls of quiet events: a start if a sound was waited for and ended before a swipe, and a cancel
if there was a first swipe. -/
def quietCalls (v : RecordView) (events : List RecordEvent) : List DelegateCall :=
  ((if v.didFinishPlaying then
      (events.takeWhile fun e => !e.isSwipe).findSome? RecordEvent.soundEnd else none).map
    DelegateCall.onStart).toList ++
  strayCancel v.isSwiped events

/-- The view after quiet events. -/
structure QuietAfter (v w : RecordView) (events : List RecordEvent) : Prop where
  began : w.began = v.began
  isSwiped : w.isSwiped = (v.isSwiped || events.any RecordEvent.isSwipe)
  settled : w.Settled
  silent : v.didFinishPlaying = false → w.didFinishPlaying = false
  stopped : v.timer = false → w.timer = false
  duration : w.isSwiped = false → w.timer = v.timer ∧
    w.duration = v.duration + if v.timer then events.count .updateDuration else 0

theorem quietCalls_cons_of_not_swipe (v : RecordView) {e : RecordEvent} (events : List RecordEvent)
    (h : e.isSwipe = false) :
    v.quietCalls (e :: events) =
      ((if v.didFinishPlaying then
          e.soundEnd.or ((events.takeWhile fun e => !e.isSwipe).findSome? RecordEvent.soundEnd)
        else none).map DelegateCall.onStart).toList ++ strayCancel v.isSwiped events := by
  unfold quietCalls strayCancel
  rw [List.takeWhile_cons_of_pos (by rw [h]; rfl), List.findSome?_cons, List.any_cons, h, Bool.false_or]
  cases e.soundEnd <;> rfl

theorem quiet_cons {v : RecordView} {e : RecordEvent} {events : List RecordEvent} {w : RecordView}
    (hb : w.began = v.began) (h : ∀ f ∈ e :: events, v.Quiet f) : ∀ f ∈ events, w.Quiet f := by
  intro f hf
  obtain ⟨h₁, h₂, h₃⟩ := h f (List.mem_cons_of_mem _ hf)
  exact ⟨h₁, h₂, by rw [hb]; exact h₃⟩

/-! The view after quiet events, from the view after the first of them. -/

namespace QuietAfter

variable {v w : RecordView} {e : RecordEvent} {events : List RecordEvent}

theorem refl (hv : v.Settled) : QuietAfter v v [] where
  began := rfl
  isSwiped := by simp
  settled := hv
  silent := id
  stopped := id
  duration := fun _ => ⟨rfl, by cases v.timer <;> simp⟩

/-- After the first swipe nothing is waited for. -/
theorem swipe (hswipe : e.isSwipe = true) (h : QuietAfter v.onSwipe.1 w events) : QuietAfter v w (e :: events) where
  began := h.began
  isSwiped := by
    rw [h.isSwiped]
    simp [onSwipe, resetTimer, hswipe]
  settled := h.settled
  silent := fun _ => h.silent rfl
  stopped := fun _ => h.stopped rfl
  duration := by
    intro hs
    rw [h.isSwiped] at hs
    simp [onSwipe, resetTimer] at hs

/-- After the end of the sound no other end is waited for. -/
theorem sound {start : RecordingStart} (h : QuietAfter v.playAudioFile w events) :
    QuietAfter v w (.audioPlayerDidFinishPlaying start :: events) where
  began := h.began
  isSwiped := by
    rw [h.isSwiped]
    simp [playAudioFile, RecordEvent.isSwipe]
  settled := h.settled
  silent := fun _ => h.silent rfl
  stopped := h.stopped
  duration := by
    intro hs
    obtain ⟨ht, hd⟩ := h.duration hs
    refine ⟨ht, ?_⟩
    rw [hd, List.count_cons_of_ne (by simp)]
    rfl

theorem tick (htimer : v.timer = true) (h : QuietAfter { v with duration := v.duration + 1 } w events) :
    QuietAfter v w (.updateDuration :: events) where
  began := h.began
  isSwiped := by
    rw [h.isSwiped]
    simp [RecordEvent.isSwipe]
  settled := h.settled
  silent := h.silent
  stopped := h.stopped
  duration := by
    intro hs
    obtain ⟨ht, hd⟩ := h.duration hs
    refine ⟨ht, ?_⟩
    rw [hd, List.count_cons_self]
    simp only [htimer, if_true]
    omega

/-- An event without effect. -/
theorem same (hswipe : e.isSwipe = true → v.isSwiped = true) (htick : e = .updateDuration → v.timer = false)
    (h : QuietAfter v w events) : QuietAfter v w (e :: events) where
  began := h.began
  isSwiped := by
    rw [h.isSwiped]
    cases hs : e.isSwipe with
    | true => simp [hswipe hs]
    | false => simp [hs]
  settled := h.settled
  silent := h.silent
  stopped := h.stopped
  duration := by
    intro hs
    obtain ⟨ht, hd⟩ := h.duration hs
    refine ⟨ht, ?_⟩
    rw [hd]
    by_cases he : e = .updateDuration
    · simp [htick he]
    · rw [List.count_cons_of_ne he]

end QuietAfter

/-- An event without effect makes no call. -/
theorem quietCalls_same {v : RecordView} {e : RecordEvent} (events : List RecordEvent) (hv : v.Settled)
    (hswipe : e.isSwipe = true → v.isSwiped = true)
    (hsound : e.soundEnd.isSome = true → v.didFinishPlaying = false) :
    v.quietCalls events = v.quietCalls (e :: events) := by
  cases hs : e.isSwipe with
  | true => simp [quietCalls, strayCancel, hs, hswipe hs, (hv (hswipe hs)).1]
  | false =>
    rw [quietCalls_cons_of_not_swipe v events hs]
    cases hsome : e.soundEnd with
    | none => rfl
    | some start => simp [quietCalls, hsound (by simp [hsome])]

/-- **Quiet events**, in any order. -/
theorem calls_quiet : ∀ (events : List RecordEvent) {v : RecordView}, v.Settled →
    (∀ e ∈ events, v.Quiet e) →
    v.calls isSoundEnabled events = v.quietCalls events ∧
      QuietAfter v (v.after isSoundEnabled events) events
  | [], v, hv, _ => by
    refine ⟨?_, .refl hv⟩
    cases hd : v.didFinishPlaying <;> simp [calls, quietCalls, strayCancel, hd]
  | e :: events, v, hv, hq => by
    rw [calls, after_cons]
    rcases step_cases isSoundEnabled (hq e List.mem_cons_self) with
      ⟨hswipe, hnot, hstep⟩ | ⟨start, rfl, hwait, hstep⟩ | ⟨rfl, htimer, hstep⟩ |
        ⟨hswipe, hsound, htick, hstep⟩ <;> rw [hstep]
    · obtain ⟨hcalls, hafter⟩ := calls_quiet events (v := v.onSwipe.1) (fun _ => ⟨rfl, rfl⟩) (quiet_cons rfl hq)
      refine ⟨?_, hafter.swipe hswipe⟩
      rw [hcalls]
      simp [quietCalls, onSwipe, resetTimer, strayCancel, hswipe, hnot]
    · obtain ⟨hcalls, hafter⟩ := calls_quiet events (v := v.playAudioFile)
        (fun hs => ⟨rfl, (hv hs).2⟩) (quiet_cons rfl hq)
      refine ⟨?_, hafter.sound⟩
      rw [hcalls, quietCalls_cons_of_not_swipe v events rfl, if_pos hwait]
      rfl
    · obtain ⟨hcalls, hafter⟩ :=
        calls_quiet events (v := { v with duration := v.duration + 1 }) hv (quiet_cons rfl hq)
      refine ⟨?_, hafter.tick htimer⟩
      rw [hcalls, quietCalls_cons_of_not_swipe v events rfl]
      rfl
    · obtain ⟨hcalls, hafter⟩ := calls_quiet events hv (quiet_cons rfl hq)
      refine ⟨?_, hafter.same hswipe htick⟩
      rw [hcalls]
      exact quietCalls_same events hv hswipe hsound
termination_by events => events.length

/-! ## One gesture -/

/-- No finger is on the button: no sound is waited for and the timer stands still. -/
def Idle (v : RecordView) : Prop := v.began = false ∧ v.didFinishPlaying = false ∧ v.timer = false

/-- The view right after a touch began, whatever it was before. -/
def pressed (isSoundEnabled : Bool) : RecordView where
  began := true
  timer := true
  didFinishPlaying := isSoundEnabled

theorem step_touchesBegan {v : RecordView} (h : v.Idle) (start : RecordingStart) :
    step isSoundEnabled v (.touchesBegan start) =
      (pressed isSoundEnabled, if isSoundEnabled then [] else [.onStart start]) := by
  obtain ⟨hbegan, hsound, -⟩ := h
  cases isSoundEnabled <;>
    simp [step, hbegan, hsound, onStart, prepareToStartRecording, resetTimer, playAudioFile, pressed]

/-- **While the finger is down**: the first end of a sound is the start, unless the finger slid away
before. -/
theorem calls_body (g : Gesture) :
    (if isSoundEnabled then [] else [.onStart g.start]) ++
        (pressed isSoundEnabled).calls isSoundEnabled g.body =
      ((g.firstStart isSoundEnabled).map DelegateCall.onStart).toList ++
        (if g.swiped then [.onCancel] else []) ∧
      QuietAfter (pressed isSoundEnabled) ((pressed isSoundEnabled).after isSoundEnabled g.body) g.body := by
  have hquiet : ∀ e ∈ g.body, (pressed isSoundEnabled).Quiet e := by
    intro e he
    obtain ⟨hended, hcancelled⟩ := g.body_quiet e he
    exact ⟨hended, hcancelled, fun h => absurd h (by simp [pressed])⟩
  have hsettled : (pressed isSoundEnabled).Settled := fun h => absurd h (by simp [pressed])
  obtain ⟨hcalls, hafter⟩ := calls_quiet isSoundEnabled g.body hsettled hquiet
  refine ⟨?_, hafter⟩
  rw [hcalls]
  cases isSoundEnabled <;> simp [quietCalls, pressed, strayCancel, Gesture.firstStart, Gesture.swiped]

/-- The end of a gesture: a lifted finger finishes unless it slid away, a touch that was taken away
cancels (once more). -/
theorem step_ending {g : Gesture} {w : RecordView}
    (h : QuietAfter (pressed isSoundEnabled) w g.body) :
    (step isSoundEnabled w g.ending).2 =
        (if g.lifted then if g.swiped then [] else [.onFinished g.seconds] else [.onCancel]) ∧
      (step isSoundEnabled w g.ending).1.Idle ∧
      (step isSoundEnabled w g.ending).1.isSwiped = (g.lifted && g.swiped) := by
  have hbegan : w.began = true := h.began
  have hswiped : w.isSwiped = g.swiped := by
    rw [h.isSwiped]
    rfl
  unfold Gesture.ending
  cases g.lifted with
  | false => simp [step, hbegan, onTouchCancel, resetTimer, Idle]
  | true =>
    cases hs : g.swiped with
    | true =>
      rw [hs] at hswiped
      obtain ⟨hsound, htimer⟩ := h.settled hswiped
      simp [step, hbegan, onTouchUp, hswiped, Idle, hsound, htimer]
    | false =>
      rw [hs] at hswiped
      have hseconds : w.duration = g.seconds := by
        rw [(h.duration hswiped).2]
        simp [pressed, Gesture.seconds]
      cases isSoundEnabled <;>
        simp [step, hbegan, onTouchUp, hswiped, onFinish, playAudioFile, resetTimer, Idle, hseconds]

/-- **One gesture** on an idle view: its calls are its own, after the stray cancels before it. -/
theorem calls_gesture {v : RecordView} (hv : v.Idle) (hs : v.Settled) (g : Gesture) :
    v.calls isSoundEnabled g.events = strayCancel v.isSwiped g.idle ++ g.calls isSoundEnabled ∧
      (v.after isSoundEnabled g.events).Idle ∧
      (v.after isSoundEnabled g.events).isSwiped = (g.lifted && g.swiped) := by
  have hquiet : ∀ e ∈ g.idle, v.Quiet e := by
    intro e he
    have htouch := g.idle_quiet e he
    exact ⟨fun h => absurd htouch (by simp [h, RecordEvent.isTouch]),
      fun h => absurd htouch (by simp [h, RecordEvent.isTouch]), fun _ => htouch⟩
  obtain ⟨hcalls, hafter⟩ := calls_quiet isSoundEnabled g.idle hs hquiet
  have hidle : (v.after isSoundEnabled g.idle).Idle :=
    ⟨hafter.began.trans hv.1, hafter.silent hv.2.1, hafter.stopped hv.2.2⟩
  have hstray : v.quietCalls g.idle = strayCancel v.isSwiped g.idle := by
    simp [quietCalls, hv.2.1]
  have hbegan := step_touchesBegan isSoundEnabled hidle g.start
  obtain ⟨hbody, hdown⟩ := calls_body isSoundEnabled g
  obtain ⟨hend, hidle', hswiped⟩ := step_ending isSoundEnabled hdown
  have hevents : v.after isSoundEnabled g.events =
      (step isSoundEnabled ((pressed isSoundEnabled).after isSoundEnabled g.body) g.ending).1 := by
    rw [Gesture.events, after_append, after_cons, hbegan, after_append]
    rfl
  refine ⟨?_, by rw [hevents]; exact hidle', by rw [hevents]; exact hswiped⟩
  rw [Gesture.events, calls_append, hcalls, hstray, calls, hbegan, calls_append, calls, calls, hend,
    List.append_nil, ← List.append_assoc _ _ (if g.lifted = true then _ else _), hbody, Gesture.calls]

/-! ## Any number of gestures -/

theorem calls_gestures (gs : List Gesture) {v : RecordView} (hv : v.Idle) :
    v.calls isSoundEnabled (gs.flatMap Gesture.events) = gestureCalls isSoundEnabled v.isSwiped gs := by
  induction gs generalizing v with
  | nil => rfl
  | cons g gs ih =>
    obtain ⟨hcalls, hidle, hswiped⟩ := calls_gesture isSoundEnabled hv (fun _ => hv.2) g
    rw [List.flatMap_cons, calls_append, hcalls, ih hidle, hswiped]
    rfl

end RecordView

/-- **The calls of the delegate over any sequence of gestures** are those of each gesture alone: a start
at most once, only while the finger is down and has not slid away; one end, which is `onFinished` with
the seconds the finger was down exactly when it was lifted without sliding away; and before a gesture
one stray cancel, exactly when a second finger slid to the timer since the gesture before, and that one
did not slide away and end with a lifted finger. -/
theorem delegate_calls_of_gestures (isSoundEnabled : Bool) (gs : List Gesture) :
    RecordView.calls isSoundEnabled {} (gs.flatMap Gesture.events) = gestureCalls isSoundEnabled false gs :=
  RecordView.calls_gestures isSoundEnabled gs ⟨rfl, rfl, rfl⟩

/-- The callbacks of a gesture are those of a press. -/
theorem Gesture.callbacks_calls (isSoundEnabled : Bool) (g : Gesture) :
    (g.calls isSoundEnabled).map DelegateCall.callback = (g.press isSoundEnabled).callbacks := by
  unfold Gesture.calls Gesture.press Press.callbacks
  simp only [List.map_append]
  cases g.firstStart isSoundEnabled <;> cases g.lifted <;> cases g.swiped <;> rfl

namespace Microphone

variable (releaseStops : Bool)

/-- After the callbacks of a press that kept the law the microphone is off. -/
theorem off_press {ι : Type} {m : Microphone} {p : Press ι} (h : OnlyDuringPress releaseStops m p.callbacks) :
    (m.callbacks releaseStops p.callbacks).Off := by
  obtain ⟨cs, c, hcs, hend⟩ := p.callbacks_eq_concat
  rw [hcs] at h ⊢
  have hgood := (along_concat.mp h).2
  rcases hend with rfl | rfl <;> exact hgood

/-- Stray cancels neither need nor change anything. -/
theorem Off.strayCancel {m : Microphone} (h : m.Off) (isSwiped : Bool) (idle : List RecordEvent) :
    OnlyDuringPress releaseStops m ((strayCancel isSwiped idle).map DelegateCall.callback) ∧
      m.callbacks releaseStops ((ChatApplication.strayCancel isSwiped idle).map DelegateCall.callback) = m := by
  unfold ChatApplication.strayCancel
  split
  · exact ⟨(onlyDuringPress_onCancel_iff releaseStops m 0).mpr h, rfl⟩
  · exact ⟨along_nil _, rfl⟩

theorem onlyDuringPress_gestureCalls_iff (isSoundEnabled : Bool) (gs : List Gesture) {m : Microphone}
    (h : m.Off) (isSwiped : Bool) :
    OnlyDuringPress releaseStops m ((gestureCalls isSoundEnabled isSwiped gs).map DelegateCall.callback) ↔
      ∀ g ∈ gs, (g.press isSoundEnabled).KeepsNoRecorder := by
  induction gs generalizing m isSwiped with
  | nil => exact ⟨fun _ _ hg => absurd hg List.not_mem_nil, fun _ => along_nil _⟩
  | cons g gs ih =>
    obtain ⟨hstray, hsame⟩ := h.strayCancel releaseStops isSwiped g.idle
    rw [gestureCalls, List.map_append, List.map_append, onlyDuringPress_append, onlyDuringPress_append,
      callbacks_append, hsame, and_iff_right hstray, Gesture.callbacks_calls, List.forall_mem_cons,
      onlyDuringPress_press_iff releaseStops h]
    refine and_congr_right fun hkeeps => ?_
    exact ih (off_press releaseStops ((onlyDuringPress_press_iff releaseStops h _).mpr hkeeps)) _

end Microphone

/-- **From the fingers to the microphone**: over any sequence of gestures on the record button, with
the ends of sounds, the ticks and the moves in any order, the microphone is on only between the start
and the end of a press exactly when no gesture whose start created a recorder slides away or is taken
away by the system. -/
theorem microphone_of_gestures_iff (isSoundEnabled releaseStops : Bool) (gs : List Gesture) :
    Microphone.OnlyDuringPress releaseStops {}
        ((RecordView.calls isSoundEnabled {} (gs.flatMap Gesture.events)).map DelegateCall.callback) ↔
      ∀ g ∈ gs, (g.press isSoundEnabled).KeepsNoRecorder := by
  rw [RecordView.calls_gestures isSoundEnabled gs ⟨rfl, rfl, rfl⟩]
  exact Microphone.onlyDuringPress_gestureCalls_iff releaseStops isSoundEnabled gs ⟨rfl, rfl⟩ false

end ChatApplication
