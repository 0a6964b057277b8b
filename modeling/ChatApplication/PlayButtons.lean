import Mathlib.Logic.Function.Basic
import ChatApplication.Halper.FirebaseModels
import ChatApplication.Lib.Runs

/-!
# Play buttons (`ChatTableView.swift`, `AudioPlayer.swift`, the audio cells)

The audio cells of the chat table are reused: `returnMessageCell` gives a dequeued cell a closure
for another message and leaves its button as it was.  A tap flips the button of its own cell and
starts or stops the one player `SKAudioRecordPlay.shared`, whatever that player was playing.

* `Agrees` — buttons and player agree: a button is selected exactly when the player plays the
  message of its cell.
* `agrees_playButtonTapped_iff`, `agrees_returnMessageCell_iff` — one step keeps the agreement
  exactly when it is `Harmless`.
* `play_buttons_agree_iff` — buttons and player agree in every state of a run exactly when every
  step of the run is harmless.
-/

namespace ChatApplication

open Runs

/-! ## Cells -/

/-- The reusable cells with a play button. -/
inductive AudioCellKind where
  | SenderAudioCell
  | ReceiverAudioCell
  deriving DecidableEq, Repr

/-- The cell `returnMessageCell` dequeues or creates. -/
inductive DequeuedCell where
  | STextCell
  | RTextCell
  | audio (kind : AudioCellKind)
  | UITableViewCell
  deriving DecidableEq, Repr

/-- The switch of `returnMessageCell`. -/
def dequeuedCell (message : MessageClass) : DequeuedCell :=
  match message.messageFrom with
  | some .sender =>
    match message.mediaType with
    | some .text => .STextCell
    | some .audio => .audio .SenderAudioCell
    | _ => .UITableViewCell
  | some .receiver =>
    match message.mediaType with
    | some .text => .RTextCell
    | some .audio => .audio .ReceiverAudioCell
    | _ => .UITableViewCell
  | none => .UITableViewCell

/-- `SenderAudioCell` or `ReceiverAudioCell`: the message its `didPlayAudio` closure captured, and
the state of its button. -/
structure AudioCell where
  didPlayAudio : Option MessageClass := none
  isSelected : Bool := false
  deriving DecidableEq, Repr

/-- `AVPlayer`: what it plays, and the message whose closure started it. -/
structure AVPlayer where
  url : String
  message : MessageClass
  deriving DecidableEq, Repr

/-- The audio cells of the table, by kind and a name of their own, and the shared player. -/
structure Playback (ι : Type) where
  cells : AudioCellKind × ι → AudioCell := fun _ => {}
  audioPlayer : Option AVPlayer := none

/-- The message that the player was started with and not stopped since.  That a clip comes to its end is no
event here: the application does not listen to it, and no button changes. -/
def Playback.playing {ι : Type} (s : Playback ι) : Option MessageClass := s.audioPlayer.map AVPlayer.message

/-! ## Callbacks -/

section Callbacks

variable {ι : Type} [DecidableEq ι] (isURL : String → Bool)

/-- `SKAudioRecordPlay.playAudio` for a message; `isURL` tells when `URL(string:)` is not `nil`. -/
def playAudio (message : MessageClass) (audioPlayer : Option AVPlayer) : Option AVPlayer :=
  let urlInString := message.message.getD ""
  if isURL urlInString then some ⟨urlInString, message⟩ else audioPlayer

/-- `SKAudioRecordPlay.stopPlayer`. -/
def stopPlayer (_ : Option AVPlayer) : Option AVPlayer := none

namespace Playback

/-- `returnMessageCell` with the dequeued cell `cell`; only audio cells have a play button. -/
def returnMessageCell (s : Playback ι) (message : MessageClass) (cell : ι) : Playback ι :=
  match dequeuedCell message with
  | .audio kind =>
    let dequeued := { s.cells (kind, cell) with didPlayAudio := some message }
    { s with cells := Function.update s.cells (kind, cell) dequeued }
  | _ => s

/-- `playButtonTapped`, which runs the closure that `returnMessageCell` set. -/
def playButtonTapped (s : Playback ι) (cell : AudioCellKind × ι) : Playback ι :=
  match (s.cells cell).didPlayAudio with
  | none => s
  | some message =>
    let isSelected := !(s.cells cell).isSelected
    { cells := Function.update s.cells cell { s.cells cell with isSelected := isSelected }
      audioPlayer :=
        if isSelected then playAudio isURL message s.audioPlayer else stopPlayer s.audioPlayer }

end Playback

/-- What happens to the audio cells. -/
inductive CellEvent (ι : Type) where
  | returnMessageCell (message : MessageClass) (cell : ι)
  | playButtonTapped (cell : AudioCellKind × ι)

/-- One event. -/
def Playback.step (s : Playback ι) : CellEvent ι → Playback ι
  | .returnMessageCell message cell => s.returnMessageCell message cell
  | .playButtonTapped cell => s.playButtonTapped isURL cell

/-- The state after the events `es`. -/
def Playback.after (es : List (CellEvent ι)) : Playback ι := es.foldl (Playback.step isURL) {}

/-! ## Agreement -/

/-- Buttons and player agree: a button is selected exactly when the player plays the message of its
cell.  So at most one message has a selected button, and a tap on it stops that message. -/
structure Agrees (s : Playback ι) : Prop where
  selected_iff : ∀ c message, (s.cells c).didPlayAudio = some message →
    ((s.cells c).isSelected = true ↔ s.playing = some message)
  one_message : ∀ c c' message message', (s.cells c).didPlayAudio = some message →
    (s.cells c').didPlayAudio = some message' → (s.cells c).isSelected = true →
      (s.cells c').isSelected = true → message = message'
  stops_own : ∀ c message, (s.cells c).didPlayAudio = some message → (s.cells c).isSelected = true →
    s.playing = some message ∧ (s.playButtonTapped isURL c).playing = none

/-- The event keeps buttons and player in agreement: a tapped message is shown by no other cell,
and starts only if its URL parses and no other cell shows the message that is playing; a cell
keeps its message, or neither the message it had nor the one it gets is playing. -/
def Harmless (s : Playback ι) : CellEvent ι → Prop
  | .playButtonTapped cell =>
    ∀ message, (s.cells cell).didPlayAudio = some message →
      (∀ c, c ≠ cell → (s.cells c).didPlayAudio ≠ some message) ∧
      (s.playing ≠ some message → isURL (message.message.getD "") = true ∧
        ∀ c, c ≠ cell → ∀ other, (s.cells c).didPlayAudio = some other → s.playing ≠ some other)
  | .returnMessageCell message cell =>
    ∀ kind, dequeuedCell message = .audio kind →
      (s.cells (kind, cell)).didPlayAudio = some message ∨
      (s.playing ≠ some message ∧
        ∀ old, (s.cells (kind, cell)).didPlayAudio = some old → s.playing ≠ some old)

/-- An unbound cell has never been tapped. -/
def UnboundUnselected (s : Playback ι) : Prop :=
  ∀ c, (s.cells c).didPlayAudio = none → (s.cells c).isSelected = false

omit [DecidableEq ι] in
theorem isSelected_eq_false_iff {s : Playback ι} {c : AudioCellKind × ι} {message : MessageClass}
    (h : (s.cells c).isSelected = true ↔ s.playing = some message) :
    (s.cells c).isSelected = false ↔ s.playing ≠ some message := by
  rw [Ne, ← h, Bool.not_eq_true]

/-- The first law gives the other two. -/
theorem Agrees.of_selected_iff {s : Playback ι}
    (h : ∀ c message, (s.cells c).didPlayAudio = some message →
      ((s.cells c).isSelected = true ↔ s.playing = some message)) : Agrees isURL s := by
  refine ⟨h, ?_, ?_⟩
  · intro c c' message message' hc hc' hsel hsel'
    have hplay := (h c message hc).mp hsel
    have hplay' := (h c' message' hc').mp hsel'
    rw [hplay] at hplay'
    exact Option.some.inj hplay'
  · intro c message hc hsel
    refine ⟨(h c message hc).mp hsel, ?_⟩
    unfold Playback.playButtonTapped
    rw [hc]
    simp [hsel, Playback.playing, stopPlayer]

/-! ## One tap -/

theorem playButtonTapped_of_unbound {s : Playback ι} {cell : AudioCellKind × ι}
    (h : (s.cells cell).didPlayAudio = none) : s.playButtonTapped isURL cell = s := by
  unfold Playback.playButtonTapped
  rw [h]

/-- What a tap does: the button of the cell is flipped, and the player starts or stops. -/
theorem playButtonTapped_of_bound {s : Playback ι} {cell : AudioCellKind × ι} {message : MessageClass}
    (h : (s.cells cell).didPlayAudio = some message) :
    (s.playButtonTapped isURL cell).cells =
        Function.update s.cells cell { s.cells cell with isSelected := !(s.cells cell).isSelected } ∧
      (s.playButtonTapped isURL cell).playing =
        if (s.cells cell).isSelected then none
        else if isURL (message.message.getD "") then some message else s.playing := by
  unfold Playback.playButtonTapped
  rw [h]
  cases (s.cells cell).isSelected
  · refine ⟨rfl, ?_⟩
    simp only [Playback.playing, playAudio, Bool.not_false, if_true, Bool.false_eq_true, if_false]
    split <;> rfl
  · exact ⟨rfl, rfl⟩

/-- Agreement after a tap, cell by cell: the flipped button has to be right for its message, and the
message of no other cell may have started or stopped. -/
theorem agrees_tap_iff {s : Playback ι} (h : Agrees isURL s) {cell : AudioCellKind × ι}
    {message : MessageClass} (hcell : (s.cells cell).didPlayAudio = some message) :
    Agrees isURL (s.playButtonTapped isURL cell) ↔
      ((s.cells cell).isSelected = false ↔ (s.playButtonTapped isURL cell).playing = some message) ∧
        ∀ c, c ≠ cell → ∀ m, (s.cells c).didPlayAudio = some m →
          (s.playing = some m ↔ (s.playButtonTapped isURL cell).playing = some m) := by
  obtain ⟨hcells, -⟩ := playButtonTapped_of_bound isURL hcell
  have hself : ((s.playButtonTapped isURL cell).cells cell).didPlayAudio = some message ∧
      (((s.playButtonTapped isURL cell).cells cell).isSelected = true ↔
        (s.cells cell).isSelected = false) := by
    rw [hcells, Function.update_self]
    exact ⟨hcell, Bool.not_eq_true' _ ▸ Iff.rfl⟩
  have hother : ∀ c, c ≠ cell → (s.playButtonTapped isURL cell).cells c = s.cells c := by
    intro c hc
    rw [hcells, Function.update_of_ne hc]
  constructor
  · intro hafter
    refine ⟨hself.2.symm.trans (hafter.selected_iff cell message hself.1), fun c hc m hm => ?_⟩
    have hlaw := hafter.selected_iff c m (by rw [hother c hc]; exact hm)
    rwa [hother c hc, h.selected_iff c m hm] at hlaw
  · rintro ⟨hown, hothers⟩
    refine .of_selected_iff isURL fun c m hm => ?_
    by_cases hc : c = cell
    · subst hc
      obtain rfl : message = m := Option.some.inj (hself.1.symm.trans hm)
      exact hself.2.trans hown
    · rw [hother c hc] at hm ⊢
      rw [h.selected_iff c m hm]
      exact hothers c hc m hm

/-- A tap on the message that is playing stops it: no other cell may show it. -/
theorem agrees_tap_selected_iff {s : Playback ι} (h : Agrees isURL s) {cell : AudioCellKind × ι}
    {message : MessageClass} (hcell : (s.cells cell).didPlayAudio = some message)
    (hsel : (s.cells cell).isSelected = true) :
    Agrees isURL (s.playButtonTapped isURL cell) ↔
      ∀ c, c ≠ cell → (s.cells c).didPlayAudio ≠ some message := by
  have hplay := (h.selected_iff cell message hcell).mp hsel
  obtain ⟨-, hplaying⟩ := playButtonTapped_of_bound isURL hcell
  rw [hsel, if_pos rfl] at hplaying
  rw [agrees_tap_iff isURL h hcell, hsel, hplaying, hplay]
  constructor
  · rintro ⟨-, hothers⟩ c hc hshown
    exact absurd ((hothers c hc message hshown).mp rfl) (by simp)
  · intro hothers
    refine ⟨by simp, fun c hc m hm => iff_of_false ?_ (by simp)⟩
    rintro ⟨⟩
    exact hothers c hc hm

/-- A tap on a message that is not playing starts it: its URL has to parse, and no other cell may
show it or the message that was playing. -/
theorem agrees_tap_unselected_iff {s : Playback ι} (h : Agrees isURL s) {cell : AudioCellKind × ι}
    {message : MessageClass} (hcell : (s.cells cell).didPlayAudio = some message)
    (hsel : (s.cells cell).isSelected = false) :
    Agrees isURL (s.playButtonTapped isURL cell) ↔
      (∀ c, c ≠ cell → (s.cells c).didPlayAudio ≠ some message) ∧
        isURL (message.message.getD "") = true ∧
        ∀ c, c ≠ cell → ∀ other, (s.cells c).didPlayAudio = some other → s.playing ≠ some other := by
  have hnot := (isSelected_eq_false_iff (h.selected_iff cell message hcell)).mp hsel
  obtain ⟨-, hplaying⟩ := playButtonTapped_of_bound isURL hcell
  rw [hsel, if_neg (by simp)] at hplaying
  rw [agrees_tap_iff isURL h hcell, hsel, hplaying]
  by_cases hurl : isURL (message.message.getD "") = true
  · rw [if_pos hurl]
    constructor
    · rintro ⟨-, hothers⟩
      refine ⟨fun c hc hshown => hnot ((hothers c hc message hshown).mpr rfl), hurl, ?_⟩
      intro c hc other hshown hplay
      rw [← (hothers c hc other hshown).mp hplay] at hplay
      exact hnot hplay
    · rintro ⟨hothers, -, hbefore⟩
      refine ⟨iff_of_true rfl rfl, fun c hc m hm => iff_of_false (hbefore c hc m hm) ?_⟩
      rintro ⟨⟩
      exact hothers c hc hm
  · -- the player goes on as it was, under a selected button
    rw [if_neg hurl]
    exact iff_of_false (fun hown => hnot (hown.1.mp rfl)) (fun hstart => hurl hstart.2.1)

/-- **One tap** keeps buttons and player in agreement exactly when it is harmless. -/
theorem agrees_playButtonTapped_iff {s : Playback ι} (h : Agrees isURL s) (cell : AudioCellKind × ι) :
    Agrees isURL (s.playButtonTapped isURL cell) ↔ Harmless isURL s (.playButtonTapped cell) := by
  simp only [Harmless]
  cases hcell : (s.cells cell).didPlayAudio with
  | none =>
    rw [playButtonTapped_of_unbound isURL hcell]
    exact ⟨fun _ _ hm => absurd hm (by simp), fun _ => h⟩
  | some message =>
    simp only [Option.some.injEq, forall_eq']
    cases hsel : (s.cells cell).isSelected with
    | true =>
      have hplay := (h.selected_iff cell message hcell).mp hsel
      rw [agrees_tap_selected_iff isURL h hcell hsel]
      exact ⟨fun hothers => ⟨hothers, fun hne => absurd hplay hne⟩, And.left⟩
    | false =>
      have hnot := (isSelected_eq_false_iff (h.selected_iff cell message hcell)).mp hsel
      rw [agrees_tap_unselected_iff isURL h hcell hsel]
      exact and_congr_right fun _ => ⟨fun hstart _ => hstart, fun hstart => hstart hnot⟩

/-! ## One rebinding -/

theorem returnMessageCell_of_audio {message : MessageClass} {kind : AudioCellKind}
    (h : dequeuedCell message = .audio kind) (s : Playback ι) (cell : ι) :
    s.returnMessageCell message cell =
      { s with
        cells := Function.update s.cells (kind, cell)
          { s.cells (kind, cell) with didPlayAudio := some message } } := by
  simp only [Playback.returnMessageCell, h]

theorem returnMessageCell_of_not_audio {message : MessageClass}
    (h : ¬ ∃ kind, dequeuedCell message = .audio kind) (s : Playback ι) (cell : ι) :
    s.returnMessageCell message cell = s := by
  unfold Playback.returnMessageCell
  split
  · rename_i kind hkind
    exact absurd ⟨kind, hkind⟩ h
  · rfl

/-- A rebound cell agrees with the player when its button happens to be right for the new message;
no other cell is concerned. -/
theorem agrees_rebound_iff {s : Playback ι} (h : Agrees isURL s) {message : MessageClass}
    {kind : AudioCellKind} (hkind : dequeuedCell message = .audio kind) (cell : ι) :
    Agrees isURL (s.returnMessageCell message cell) ↔
      ((s.cells (kind, cell)).isSelected = true ↔ s.playing = some message) := by
  rw [returnMessageCell_of_audio hkind]
  constructor
  · intro hafter
    simpa [Playback.playing] using hafter.selected_iff (kind, cell) message (by simp)
  · intro hself
    refine .of_selected_iff isURL fun c m hm => ?_
    by_cases hc : c = (kind, cell)
    · subst hc
      simp only [Function.update_self, Option.some.injEq] at hm ⊢
      subst hm
      exact hself
    · simp only [Function.update_of_ne hc] at hm ⊢
      exact h.selected_iff c m hm

/-- **One rebinding** keeps buttons and player in agreement exactly when it is harmless. -/
theorem agrees_returnMessageCell_iff {s : Playback ι} (h : Agrees isURL s) (hfresh : UnboundUnselected s)
    (message : MessageClass) (cell : ι) :
    Agrees isURL (s.returnMessageCell message cell) ↔
      Harmless isURL s (.returnMessageCell message cell) := by
  by_cases haudio : ∃ kind, dequeuedCell message = .audio kind
  · obtain ⟨kind, hkind⟩ := haudio
    rw [agrees_rebound_iff isURL h hkind]
    simp only [Harmless, hkind, DequeuedCell.audio.injEq, forall_eq']
    cases hold : (s.cells (kind, cell)).didPlayAudio with
    | none =>
      rw [hfresh _ hold]
      simp
    | some old =>
      rw [h.selected_iff _ old hold]
      simp only [Option.some.injEq, forall_eq']
      constructor
      · intro hsame
        by_cases heq : old = message
        · exact .inl heq
        · have hmessage : s.playing ≠ some message := by
            intro hplay
            have hplay' := hsame.mpr hplay
            rw [hplay] at hplay'
            exact heq (Option.some.inj hplay').symm
          exact .inr ⟨hmessage, fun hplay => hmessage (hsame.mp hplay)⟩
      · rintro (rfl | ⟨hmessage, hne⟩)
        · rfl
        · exact ⟨fun hplay => absurd hplay hne, fun hplay => absurd hplay hmessage⟩
  · rw [returnMessageCell_of_not_audio haudio]
    exact ⟨fun _ kind hkind => absurd ⟨kind, hkind⟩ haudio, fun _ => h⟩

/-! ## Runs -/

theorem UnboundUnselected.step {s : Playback ι} (h : UnboundUnselected s) (e : CellEvent ι) :
    UnboundUnselected (s.step isURL e) := by
  cases e with
  | returnMessageCell message cell =>
    rw [Playback.step]
    by_cases haudio : ∃ kind, dequeuedCell message = .audio kind
    · obtain ⟨kind, hkind⟩ := haudio
      rw [returnMessageCell_of_audio hkind]
      intro c hc
      by_cases heq : c = (kind, cell)
      · subst heq
        simp at hc
      · simp only [Function.update_of_ne heq] at hc ⊢
        exact h c hc
    · rw [returnMessageCell_of_not_audio haudio]
      exact h
  | playButtonTapped cell =>
    rw [Playback.step]
    cases hcell : (s.cells cell).didPlayAudio with
    | none =>
      rw [playButtonTapped_of_unbound isURL hcell]
      exact h
    | some message =>
      intro c hc
      rw [(playButtonTapped_of_bound isURL hcell).1] at hc ⊢
      by_cases heq : c = cell
      · subst heq
        rw [Function.update_self] at hc
        exact absurd (hcell.symm.trans hc) (by simp)
      · rw [Function.update_of_ne heq] at hc ⊢
        exact h c hc

theorem Playback.after_concat (es : List (CellEvent ι)) (e : CellEvent ι) :
    Playback.after isURL (es ++ [e]) = (Playback.after isURL es).step isURL e := by
  rw [Playback.after, List.foldl_append]
  rfl

theorem UnboundUnselected.after (es : List (CellEvent ι)) :
    UnboundUnselected (Playback.after isURL es) := by
  induction es using List.reverseRecOn with
  | nil => exact fun _ _ => rfl
  | append_singleton es e ih =>
    rw [Playback.after_concat]
    exact ih.step isURL e

/-- **Buttons and player agree in every state of a run** exactly when every step of the run is
harmless. -/
theorem play_buttons_agree_iff (es : List (CellEvent ι)) :
    (∀ earlier, earlier <+: es → Agrees isURL (Playback.after isURL earlier)) ↔
      Along (fun earlier e => Harmless isURL (Playback.after isURL earlier) e) es := by
  refine forall_prefix_iff_along ?_ ?_ es
  · exact .of_selected_iff isURL fun c m hm => by cases hm
  · intro es e h
    rw [Playback.after_concat]
    cases e with
    | returnMessageCell message cell =>
      exact agrees_returnMessageCell_iff isURL h (UnboundUnselected.after isURL es) message cell
    | playButtonTapped cell => exact agrees_playButtonTapped_iff isURL h cell

end Callbacks

/-- Two voice messages are tapped one after the other: the button of the first stays selected while
the second one plays. -/
theorem play_button_stays_selected :
    ¬ ∀ (isURL : String → Bool) (es : List (CellEvent Bool)),
      ∀ earlier, earlier <+: es → Agrees isURL (Playback.after isURL earlier) := by
  intro hall
  let message (url : String) : MessageClass :=
    { message := some url, mediaType := some .audio, messageFrom := some .receiver }
  let es : List (CellEvent Bool) :=
    [.returnMessageCell (message "https://a/1.mp3") false,
     .returnMessageCell (message "https://a/2.mp3") true,
     .playButtonTapped (.ReceiverAudioCell, false), .playButtonTapped (.ReceiverAudioCell, true)]
  have h := (hall (fun _ => true) es es (List.prefix_refl _)).selected_iff (.ReceiverAudioCell, false)
    (message "https://a/1.mp3") (by decide)
  revert h
  decide

end ChatApplication
