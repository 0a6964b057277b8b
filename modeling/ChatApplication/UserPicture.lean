import Mathlib.Logic.Function.Basic
import ChatApplication.Halper.FirebaseModels
import ChatApplication.Lib.Runs

/-!
# The picture of a user cell (`ChatSharedClass.swift`, `RecentCell.swift`)

A `RecentCell` is reused for other users.  Binding it to a user calls `downlodeImage` with the image
the view happens to show as the placeholder.  The completion handler of a download captures the
view and the placeholder, not the user, and puts its effect on the main queue.

Images carry the URL they were obtained from, so that a statement can say whose picture is shown.

* `CacheInv` — the cache holds under a key only images obtained from that URL.
* `settled_step_iff` — one event keeps the law exactly when it `Settles` the view.
* `picture_of_last_user_iff` — whenever nothing is in flight the view shows no other user's picture,
  exactly when every event that leaves nothing in flight settles the view.
-/

namespace ChatApplication

open Runs

/-! ## Images and downloads -/

/-- `UIImage`: an image that comes with the application, or one obtained from a URL. -/
inductive UIImage (β : Type) where
  | bundled (bitmap : β)
  | downloaded (url : String) (bitmap : β)
  deriving DecidableEq, Repr

section Picture

variable {β δ : Type}

/-- The URL an image was obtained from. -/
def UIImage.url : UIImage β → Option String
  | .bundled _ => none
  | .downloaded url _ => some url

/-- `urlString.replacingOccurrences(of: " ", with: "%20")`. -/
def escapeSpaces (urlString : String) : String :=
  String.ofList (urlString.toList.flatMap fun c => if c = ' ' then ['%', '2', '0'] else [c])

/-- A `dataTask` that has not completed: what its completion handler captured. -/
structure Download (β : Type) where
  url : String
  placeHolder : Option (UIImage β)

/-- A block that a completion handler put on the main queue. -/
inductive ImageBlock (β δ : Type) where
  | placeHolder (image : Option (UIImage β))
  | data (url : String) (data : δ)

/-- The background of `viewOnline`. -/
inductive OnlineColor where
  | red
  | green
  deriving DecidableEq, Repr

/-- `RecentCell`. -/
structure RecentCell (β : Type) where
  user : Option UsersState := none
  lblName : Option String := none
  lblEmail : Option String := none
  viewOnline : OnlineColor := .green
  imgUser : Option (UIImage β) := none

/-- A cell, the shared `imageCache`, the downloads in flight and the main queue. -/
structure PictureState (β δ : Type) where
  cell : RecentCell β := {}
  imageCache : String → Option (UIImage β) := fun _ => none
  inFlight : List (Download β) := []
  mainQueue : List (ImageBlock β δ) := []

variable (isURL : String → Bool) (decode : δ → Option β)

namespace PictureState

/-- `imgUser.image = image`. -/
def setImage (s : PictureState β δ) (image : Option (UIImage β)) : PictureState β δ :=
  { s with cell := { s.cell with imgUser := image } }

/-- `UIImageView.downlodeImage`; `isURL` tells when `URL(string:)` is not `nil`. -/
def downlodeImage (s : PictureState β δ) (urlString : String) (placeHolder : Option (UIImage β)) :
    PictureState β δ :=
  let s := s.setImage placeHolder
  let url := escapeSpaces urlString
  if isURL url then
    match s.imageCache url with
    | some image => s.setImage (some image)
    | none => { s with inFlight := s.inFlight ++ [⟨url, placeHolder⟩] }
  else s

/-- `RecentCell.updateDataOnUI`. -/
def updateDataOnUI (s : PictureState β δ) : PictureState β δ :=
  let user := s.cell.user
  let s := { s with
    cell := { s.cell with
      lblName := user.bind UsersState.name
      lblEmail := user.bind UsersState.email
      viewOnline := if user.bind UsersState.isOnline = some false then .red else .green } }
  s.downlodeImage isURL (getstringOf (user.bind UsersState.profile_image)) s.cell.imgUser

/-- `cell.user = user`, which runs `updateDataOnUI`. -/
def bind (s : PictureState β δ) (user : Option UsersState) : PictureState β δ :=
  updateDataOnUI isURL { s with cell := { s.cell with user := user } }

end PictureState

/-- The completion handler of a download: the blocks it puts on the main queue.  The `return` of
the error branch leaves its own block only. -/
def completionHandler (d : Download β) (data : Option δ) (error : Bool) : List (ImageBlock β δ) :=
  (if error then [.placeHolder d.placeHolder] else []) ++
    match data with
    | none => [.placeHolder d.placeHolder]
    | some data => [.data d.url data]

namespace PictureState

/-- One block; `decode` is `UIImage(data:)`. -/
def runBlock (s : PictureState β δ) : ImageBlock β δ → PictureState β δ
  | .placeHolder image => s.setImage image
  | .data url data =>
    match decode data with
    | none => s
    | some bitmap =>
      let image := UIImage.downloaded url bitmap
      { s.setImage (some image) with imageCache := Function.update s.imageCache url (some image) }

end PictureState

/-- What happens to the cell: it is bound to a user, a download completes, the main queue runs its
next block, or the cache drops an entry. -/
inductive PictureEvent (δ : Type) where
  | bind (user : Option UsersState)
  | complete (i : Nat) (data : Option δ) (error : Bool)
  | main
  | evict (url : String)

/-- One event. -/
def PictureState.step (s : PictureState β δ) : PictureEvent δ → PictureState β δ
  | .bind user => s.bind isURL user
  | .complete i data error =>
    match s.inFlight[i]? with
    | none => s
    | some d =>
      { s with
        inFlight := s.inFlight.eraseIdx i
        mainQueue := s.mainQueue ++ completionHandler d data error }
  | .main =>
    match s.mainQueue with
    | [] => s
    | block :: rest => runBlock decode { s with mainQueue := rest } block
  | .evict url => { s with imageCache := Function.update s.imageCache url none }

/-- A fresh cell with the image of its nib, after the events `es`. -/
def PictureState.after (image : Option β) (es : List (PictureEvent δ)) : PictureState β δ :=
  es.foldl (PictureState.step isURL decode) { cell := { imgUser := image.map UIImage.bundled } }

/-! ## The law -/

/-- The URL of a user's picture. -/
def pictureURL (user : Option UsersState) : String :=
  escapeSpaces (getstringOf (user.bind UsersState.profile_image))

/-- The image is not one obtained from the URL of another user. -/
def NotAnothers (user : Option UsersState) (image : Option (UIImage β)) : Prop :=
  ∀ url, image.bind UIImage.url = some url → url = pictureURL user

namespace PictureState

/-- No download is in flight, and no block of one waits on the main queue. -/
def Idle (s : PictureState β δ) : Prop := s.inFlight = [] ∧ s.mainQueue = []

/-- If nothing is in flight, the view does not show another user's picture. -/
def Settled (s : PictureState β δ) : Prop := s.Idle → NotAnothers s.cell.user s.cell.imgUser

/-- The cache holds under a key only images obtained from that URL. -/
def CacheInv (s : PictureState β δ) : Prop :=
  ∀ url image, s.imageCache url = some image → image.url = some url

/-- The block leaves no other user's picture: it has image data of the user bound last, a
placeholder that is not another's picture, or undecodable data and a view that does not show
another's. -/
def BlockSettles (s : PictureState β δ) : ImageBlock β δ → Prop
  | .placeHolder image => NotAnothers s.cell.user image
  | .data url data =>
    if (decode data).isSome then url = pictureURL s.cell.user
    else NotAnothers s.cell.user s.cell.imgUser

/-- If the event leaves nothing in flight, it leaves no other user's picture: a user without a URL
is not bound to a view that shows another's, and the last block to run settles. -/
def Settles (s : PictureState β δ) : PictureEvent δ → Prop
  | .bind user => isURL (pictureURL user) = false → s.Idle → NotAnothers user s.cell.imgUser
  | .main => ∀ block, s.inFlight = [] → s.mainQueue = [block] → s.BlockSettles decode block
  | .complete _ _ _ => True
  | .evict _ => True

end PictureState

/-! ## One event -/

section Step

open PictureState

theorem notAnothers_downloaded_iff (user : Option UsersState) (url : String) (bitmap : β) :
    NotAnothers user (some (UIImage.downloaded url bitmap)) ↔ url = pictureURL user := by
  simp [NotAnothers, UIImage.url]

/-- What a binding leaves. -/
theorem bind_spec (s : PictureState β δ) (user : Option UsersState) :
    (s.bind isURL user).cell.user = user ∧ (s.bind isURL user).mainQueue = s.mainQueue ∧
    (s.bind isURL user).imageCache = s.imageCache ∧
    ((s.bind isURL user).inFlight, (s.bind isURL user).cell.imgUser) =
      if isURL (pictureURL user) then
        match s.imageCache (pictureURL user) with
        | some image => (s.inFlight, some image)
        | none => (s.inFlight ++ [⟨pictureURL user, s.cell.imgUser⟩], s.cell.imgUser)
      else (s.inFlight, s.cell.imgUser) := by
  unfold PictureState.bind PictureState.updateDataOnUI PictureState.downlodeImage pictureURL
  simp only [PictureState.setImage]
  split
  · split <;> simp
  · simp

/-- A binding settles the view unless the user has no URL and the view shows another's picture. -/
theorem settled_bind_iff {s : PictureState β δ} (hcache : CacheInv s) (user : Option UsersState) :
    Settled (s.bind isURL user) ↔ Settles isURL decode s (.bind user) := by
  obtain ⟨huser, hqueue, -, hrest⟩ := bind_spec isURL s user
  simp only [Settled, Settles, Idle, huser, hqueue]
  cases hurl : isURL (pictureURL user) with
  | false =>
    rw [hurl, if_neg (by simp), Prod.mk.injEq] at hrest
    rw [hrest.1, hrest.2]
    simp
  | true =>
    rw [hurl, if_pos rfl] at hrest
    cases himage : s.imageCache (pictureURL user) with
    | none =>
      -- a download is in flight
      rw [himage, Prod.mk.injEq] at hrest
      rw [hrest.1]
      simp
    | some image =>
      rw [himage, Prod.mk.injEq] at hrest
      rw [hrest.2]
      refine ⟨fun _ h => absurd h (by simp), fun _ _ url himg => ?_⟩
      rw [Option.bind_some, hcache _ _ himage] at himg
      exact (Option.some.inj himg).symm

/-- What a block leaves. -/
theorem runBlock_spec (s : PictureState β δ) (block : ImageBlock β δ) :
    (s.runBlock decode block).cell.user = s.cell.user ∧
    (s.runBlock decode block).inFlight = s.inFlight ∧
    (s.runBlock decode block).mainQueue = s.mainQueue ∧
    (NotAnothers s.cell.user (s.runBlock decode block).cell.imgUser ↔ s.BlockSettles decode block) := by
  cases block with
  | placeHolder image => exact ⟨rfl, rfl, rfl, Iff.rfl⟩
  | data url data =>
    simp only [runBlock, BlockSettles]
    cases decode data with
    | none => exact ⟨rfl, rfl, rfl, Iff.rfl⟩
    | some bitmap =>
      refine ⟨rfl, rfl, rfl, ?_⟩
      exact notAnothers_downloaded_iff s.cell.user url bitmap

/-- A block settles the view unless it is the last one and leaves another user's picture. -/
theorem settled_main_iff {s : PictureState β δ} (h : Settled s) :
    Settled (s.step isURL decode .main) ↔ Settles isURL decode s .main := by
  simp only [PictureState.step, Settles]
  cases hqueue : s.mainQueue with
  | nil => exact ⟨fun _ _ _ hnil => absurd hnil (by simp), fun _ => h⟩
  | cons block rest =>
    obtain ⟨huser, hflight, hrest, hiff⟩ := runBlock_spec decode { s with mainQueue := rest } block
    simp only [Settled, Idle, huser, hflight, hrest, hiff]
    constructor
    · intro hidle block' hnone heq
      obtain ⟨rfl, rfl⟩ := List.cons.inj heq
      exact hidle ⟨hnone, rfl⟩
    · rintro hlast ⟨hnone, rfl⟩
      exact hlast block hnone rfl

/-- A completion leaves a block on the main queue. -/
theorem settled_complete {s : PictureState β δ} (h : Settled s) (i : Nat) (data : Option δ)
    (error : Bool) : Settled (s.step isURL decode (.complete i data error)) := by
  simp only [PictureState.step]
  cases s.inFlight[i]? with
  | none => exact h
  | some d =>
    rintro ⟨-, hqueue⟩
    exfalso
    cases data <;> simp [completionHandler] at hqueue

/-- **One event** keeps the law exactly when it settles the view. -/
theorem settled_step_iff {s : PictureState β δ} (hcache : CacheInv s) (h : Settled s)
    (e : PictureEvent δ) : Settled (s.step isURL decode e) ↔ Settles isURL decode s e := by
  cases e with
  | bind user => exact settled_bind_iff isURL decode hcache user
  | complete i data error =>
    exact ⟨fun _ => trivial, fun _ => settled_complete isURL decode h i data error⟩
  | main => exact settled_main_iff isURL decode h
  | evict url => exact ⟨fun _ => trivial, fun _ => h⟩

/-- The cache stays right: an image is stored under the URL it was obtained from. -/
theorem CacheInv.step {s : PictureState β δ} (h : CacheInv s) (e : PictureEvent δ) :
    CacheInv (s.step isURL decode e) := by
  cases e with
  | bind user =>
    unfold PictureState.step CacheInv
    rw [(bind_spec isURL s user).2.2.1]
    exact h
  | complete i data error =>
    simp only [PictureState.step]
    cases s.inFlight[i]? <;> exact h
  | main =>
    simp only [PictureState.step]
    rcases s.mainQueue with _ | ⟨image | ⟨url, data⟩, rest⟩
    · exact h
    · exact h
    · simp only [runBlock]
      cases decode data with
      | none => exact h
      | some bitmap =>
        intro url' image himage
        by_cases heq : url' = url
        · subst heq
          simp only [Function.update_self, Option.some.injEq] at himage
          subst himage
          rfl
        · simp only [Function.update_of_ne heq] at himage
          exact h url' image himage
  | evict url =>
    intro url' image himage
    by_cases heq : url' = url
    · subst heq
      simp [PictureState.step] at himage
    · simp only [PictureState.step, Function.update_of_ne heq] at himage
      exact h url' image himage

end Step

/-! ## Runs -/

theorem PictureState.after_concat (image : Option β) (es : List (PictureEvent δ)) (e : PictureEvent δ) :
    PictureState.after isURL decode image (es ++ [e]) =
      (PictureState.after isURL decode image es).step isURL decode e := by
  rw [PictureState.after, List.foldl_append]
  rfl

theorem CacheInv.after (image : Option β) (es : List (PictureEvent δ)) :
    (PictureState.after isURL decode image es).CacheInv := by
  induction es using List.reverseRecOn with
  | nil => exact fun _ _ h => by cases h
  | append_singleton es e ih =>
    rw [PictureState.after_concat]
    exact CacheInv.step isURL decode ih e

/-- **A user cell does not end up with another user's picture**, in any state of a run, exactly when
every event that leaves nothing in flight settles the view. -/
theorem picture_of_last_user_iff (image : Option β) (es : List (PictureEvent δ)) :
    (∀ earlier, earlier <+: es → (PictureState.after isURL decode image earlier).Settled) ↔
      Along (fun earlier e =>
        (PictureState.after isURL decode image earlier).Settles isURL decode e) es := by
  refine forall_prefix_iff_along ?_ ?_ es
  · intro _ url himage
    cases image <;> cases himage
  · intro es e h
    rw [PictureState.after_concat]
    exact settled_step_iff isURL decode (CacheInv.after isURL decode image es) h e

end Picture

/-- The cell shows the picture of one user and is bound to another, whose download fails: the
placeholder is the first user's picture. -/
theorem picture_of_another_user :
    ¬ ∀ (isURL : String → Bool) (decode : Nat → Option Nat) (image : Option Nat)
      (es : List (PictureEvent Nat)), ∀ earlier, earlier <+: es →
        (PictureState.after isURL decode image earlier).Settled := by
  intro hall
  let user (url : String) : Option UsersState := some { profile_image := some url }
  let es : List (PictureEvent Nat) :=
    [.bind (user "https://a/1.png"), .complete 0 (some 7) false, .main,
     .bind (user "https://a/2.png"), .complete 0 none true, .main, .main]
  let s : PictureState Nat Nat := PictureState.after (fun _ => true) some none es
  have hflight : s.inFlight.isEmpty = true := by decide +kernel
  have hqueue : s.mainQueue.isEmpty = true := by decide +kernel
  have hshown : s.cell.imgUser.bind UIImage.url = some "https://a/1.png" := by decide +kernel
  have hother : "https://a/1.png" ≠ pictureURL s.cell.user := by decide +kernel
  have h : s.Settled := hall (fun _ => true) some none es es (List.prefix_refl _)
  clear_value s
  exact hother (h ⟨List.isEmpty_iff.mp hflight, List.isEmpty_iff.mp hqueue⟩ _ hshown)

end ChatApplication
