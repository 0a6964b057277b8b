import ChatApplication.Lib.Overwrite
import Mathlib.Data.List.Forall2
import Mathlib.Data.List.Nodup
import Mathlib.Logic.Relation

/-!
# A queue that is sent again after every interruption

A sender keeps what it has issued until it is acknowledged.  While it may write, an item is sent when
it is issued; when the connection comes back, everything kept is sent again, in order.  Messages carry
numbers, and acknowledgements come in the order of the messages.  `cancel` takes items out of the
queue without an acknowledgement; it is no part of a *plain* run.

## Results

* `Ordered` — what is sent in one round is a subsequence of what was issued, and while the sender may
  write, everything kept has been sent in this round.
* `Fifo` — in a plain run the queue is the unacknowledged end of the issued list, and each round
  starts at the first item that was unacknowledged when it began.
* `applyAll_delivered` — a receiver that got a first part of every round, at least up to what was
  acknowledged in it, holds the same store as one that got each item once, in the order of issue,
  when nothing is left in the queue.
-/

namespace Outbox

open Overwrite Relation

variable {α : Type*}

/-- What was sent on one connection, and the numbers that were answered on it. -/
structure Round (α : Type*) where
  out : List (Nat × α) := []
  answers : List Nat := []

structure State (α : Type*) where
  issued : List α := []
  kept : List α := []
  writing : Bool := false
  round : Round α := {}
  pending : List (Nat × α) := []
  rounds : List (Round α) := []

/-- The items sent in a round. -/
def Round.items (r : Round α) : List α := r.out.map Prod.snd

namespace State

def issue (a : α) (s : State α) : State α := { s with issued := s.issued ++ [a], kept := s.kept ++ [a] }

def send (m : Nat × α) (s : State α) : State α :=
  { s with round := { s.round with out := s.round.out ++ [m] }, pending := s.pending ++ [m] }

def restore (ms : List (Nat × α)) (s : State α) : State α :=
  { s with writing := true, round := { s.round with out := ms }, pending := ms }

def note (n : Nat) (s : State α) : State α :=
  { s with round := { s.round with answers := s.round.answers ++ [n] } }

def drop (s : State α) : State α :=
  { s with writing := false, round := {}, pending := [], rounds := s.rounds ++ [s.round] }

end State

/-- Sending everything, one after the other. -/
theorem State.foldl_send (ms : List (Nat × α)) (s : State α) :
    ms.foldl (fun s m => s.send m) s =
      { s with round := { s.round with out := s.round.out ++ ms }, pending := s.pending ++ ms } := by
  induction ms generalizing s with
  | nil => simp
  | cons m ms ih =>
    rw [List.foldl_cons, ih]
    simp [State.send]

/-- Sending everything in a new round. -/
theorem State.foldl_send_eq_restore {s : State α} (hout : s.round.out = []) (hpending : s.pending = [])
    (ms : List (Nat × α)) :
    ms.foldl (fun s m => s.send m) { s with writing := true } = s.restore ms := by
  rw [State.foldl_send, State.restore]
  simp only [hout, hpending, List.nil_append]

/-- What can happen to a queue. -/
inductive Move (plain : Bool) : State α → State α → Prop where
  | issue {s : State α} {a : α} : s.writing = false → a ∉ s.issued → Move plain s (s.issue a)
  | issueSend {s : State α} {a : α} (n : Nat) : s.writing = true → a ∉ s.issued →
      Move plain s ((s.issue a).send (n, a))
  | restore {s : State α} {ms : List (Nat × α)} : s.writing = false → ms.map Prod.snd = s.kept →
      Move plain s (s.restore ms)
  | note {s : State α} (n : Nat) : Move plain s (s.note n)
  | ack {s : State α} {m : Nat × α} {ms : List (Nat × α)} {before after : List α} :
      s.pending = m :: ms → m.1 ∈ s.round.answers → s.kept = before ++ m.2 :: after →
      Move plain s { s with pending := ms, kept := before ++ after }
  | ackGone {s : State α} {m : Nat × α} {ms : List (Nat × α)} : s.pending = m :: ms → m.2 ∉ s.kept →
      Move plain s { s with pending := ms }
  | drop {s : State α} : Move plain s s.drop
  | cancel {s : State α} {kept : List α} : plain = false → kept.Sublist s.kept →
      Move plain s { s with kept := kept }

/-- Any number of moves. -/
def Moves (plain : Bool) : State α → State α → Prop := ReflTransGen (Move plain)

/-! ## Order within a round -/

/-- Nothing is sent twice, out of order or unasked in a round, and nothing kept is left unsent. -/
structure Ordered (s : State α) : Prop where
  nodup : s.issued.Nodup
  kept : s.kept.Sublist s.issued
  out : s.round.items.Sublist s.issued
  sent : s.writing = true → ∀ a ∈ s.kept, a ∈ s.round.items
  quiet : s.writing = false → s.round.out = [] ∧ s.pending = []
  pending : ∀ m ∈ s.pending, m.2 ∈ s.issued
  rounds : ∀ r ∈ s.rounds, r.items.Sublist s.issued

theorem nodup_snoc {l : List α} {a : α} (hl : l.Nodup) (ha : a ∉ l) : (l ++ [a]).Nodup := by
  rw [← List.concat_eq_append]
  exact hl.concat ha

theorem Ordered.issue {s : State α} (h : Ordered s) {a : α} (hw : s.writing = false)
    (ha : a ∉ s.issued) : Ordered (s.issue a) where
  nodup := nodup_snoc h.nodup ha
  kept := h.kept.append (List.Sublist.refl _)
  out := h.out.trans (List.sublist_append_left _ _)
  sent := fun hw' => by rw [show s.writing = true from hw'] at hw; cases hw
  quiet := h.quiet
  pending := fun m hm => List.mem_append_left _ (h.pending m hm)
  rounds := fun r hr => (h.rounds r hr).trans (List.sublist_append_left _ _)

theorem Ordered.issueSend {s : State α} (h : Ordered s) {a : α} (n : Nat) (hw : s.writing = true)
    (ha : a ∉ s.issued) : Ordered ((s.issue a).send (n, a)) where
  nodup := nodup_snoc h.nodup ha
  kept := h.kept.append (List.Sublist.refl _)
  out := by
    simp only [State.send, State.issue, Round.items, List.map_append]
    exact h.out.append (List.Sublist.refl _)
  sent := fun _ b hb => by
    simp only [State.send, State.issue, Round.items, List.map_append]
    rcases List.mem_append.mp hb with hb | hb
    · exact List.mem_append_left _ (h.sent hw b hb)
    · exact List.mem_append_right _ hb
  quiet := fun hw' => by rw [show s.writing = false from hw'] at hw; cases hw
  pending := fun m hm => by
    rcases List.mem_append.mp hm with hm | hm
    · exact List.mem_append_left _ (h.pending m hm)
    · rw [List.mem_singleton.mp hm]
      exact List.mem_append_right _ List.mem_cons_self
  rounds := fun r hr => (h.rounds r hr).trans (List.sublist_append_left _ _)

theorem Ordered.move {plain : Bool} {s s' : State α} (h : Ordered s) (hm : Move plain s s') :
    Ordered s' := by
  cases hm with
  | issue hw ha => exact h.issue hw ha
  | issueSend n hw ha => exact h.issueSend n hw ha
  | restore hw hms =>
    refine ⟨h.nodup, h.kept, ?_, fun _ a ha => ?_, nofun, fun m hm => h.kept.subset ?_, h.rounds⟩
    · rw [Round.items, State.restore, hms]
      exact h.kept
    · rw [Round.items, State.restore, hms]
      exact ha
    · rw [← hms]
      exact List.mem_map_of_mem hm
  | note n => exact ⟨h.nodup, h.kept, h.out, h.sent, h.quiet, h.pending, h.rounds⟩
  | ack hp _ hk =>
    have hsub : ∀ {l₁ l₂ : List α} {a : α}, (l₁ ++ l₂).Sublist (l₁ ++ a :: l₂) := fun {l₁ l₂ a} =>
      (List.sublist_cons_self a l₂).append_left l₁
    refine ⟨h.nodup, hsub.trans (hk ▸ h.kept), h.out, fun hw a ha => ?_, fun hw => ?_,
      fun m hm => h.pending m (hp ▸ List.mem_cons_of_mem _ hm), h.rounds⟩
    · exact h.sent hw a (hk ▸ hsub.subset ha)
    · rw [(h.quiet hw).2] at hp
      cases hp
  | ackGone hp _ =>
    refine ⟨h.nodup, h.kept, h.out, h.sent, fun hw => ?_,
      fun m hm => h.pending m (hp ▸ List.mem_cons_of_mem _ hm), h.rounds⟩
    rw [(h.quiet hw).2] at hp
    cases hp
  | drop =>
    refine ⟨h.nodup, h.kept, List.nil_sublist _, nofun, fun _ => ⟨rfl, rfl⟩, nofun, fun r hr => ?_⟩
    rcases List.mem_append.mp hr with hr | hr
    · exact h.rounds r hr
    · rw [List.mem_singleton.mp hr]
      exact h.out
  | cancel _ hsub =>
    exact ⟨h.nodup, hsub.trans h.kept, h.out, fun hw a ha => h.sent hw a (hsub.subset ha), h.quiet,
      h.pending, h.rounds⟩

theorem ordered_empty : Ordered ({} : State α) :=
  ⟨.nil, List.nil_sublist _, List.nil_sublist _, nofun, fun _ => ⟨rfl, rfl⟩, nofun, nofun⟩

theorem Ordered.moves {plain : Bool} {s s' : State α} (h : Ordered s) (hm : Moves plain s s') :
    Ordered s' := by
  induction hm with
  | refl => exact h
  | tail _ hm ih => exact ih.move hm

/-! ## Order across rounds -/

/-- A round of a plain run: it starts at the item `start`, sends up to `stop`, and the items before
`acked` have been answered in it. -/
structure Carried (issued : List α) (start acked stop : Nat) (r : Round α) : Prop where
  start_le : start ≤ acked
  acked_le : acked ≤ stop
  stop_le : stop ≤ issued.length
  items : r.items = (issued.drop start).take (stop - start)
  answered : ∀ m ∈ r.out.take (acked - start), m.1 ∈ r.answers

/-- Rounds that start where the round before them was acknowledged. -/
def Chain (issued : List α) : Nat → List (Round α) → Nat → Prop
  | start, [], last => start = last
  | start, r :: rounds, last => ∃ acked stop, Carried issued start acked stop r ∧ Chain issued acked rounds last

theorem Carried.append {issued : List α} {start acked stop : Nat} {r : Round α}
    (h : Carried issued start acked stop r) (more : List α) :
    Carried (issued ++ more) start acked stop r where
  start_le := h.start_le
  acked_le := h.acked_le
  stop_le := Nat.le_trans h.stop_le (by rw [List.length_append]; exact Nat.le_add_right _ _)
  items := by
    have hstart : start ≤ issued.length := Nat.le_trans h.start_le (Nat.le_trans h.acked_le h.stop_le)
    have hlen : stop - start ≤ (issued.drop start).length := by
      rw [List.length_drop]
      exact Nat.sub_le_sub_right h.stop_le start
    rw [h.items, List.drop_append_of_le_length hstart, List.take_append_of_le_length hlen]
  answered := h.answered

theorem Carried.length_out {issued : List α} {start acked stop : Nat} {r : Round α}
    (h : Carried issued start acked stop r) : r.out.length = stop - start := by
  have hlen := congrArg List.length h.items
  rw [Round.items, List.length_map, List.length_take, List.length_drop] at hlen
  have hstop := h.stop_le
  omega

theorem Chain.append {issued : List α} (more : List α) :
    ∀ {rounds : List (Round α)} {start last : Nat}, Chain issued start rounds last →
      Chain (issued ++ more) start rounds last
  | [], _, _, h => h
  | _ :: _, _, _, ⟨acked, stop, hr, hrest⟩ => ⟨acked, stop, hr.append more, hrest.append more⟩

theorem Chain.concat {issued : List α} {acked stop : Nat} {r : Round α} :
    ∀ {rounds : List (Round α)} {start last : Nat}, Chain issued start rounds last →
      Carried issued last acked stop r → Chain issued start (rounds ++ [r]) acked
  | [], _, _, h, hr => ⟨acked, stop, (show _ = _ from h) ▸ hr, rfl⟩
  | _ :: _, _, _, ⟨acked', stop', hr', hrest⟩, hr => ⟨acked', stop', hr', hrest.concat hr⟩

/-- The queue of a plain run.  The open round starts at `start`; everything before `acked` is
acknowledged. -/
structure Fifo (s : State α) (start acked : Nat) : Prop where
  chain : Chain s.issued 0 s.rounds start
  carried : Carried s.issued start acked (if s.writing then s.issued.length else start) s.round
  kept : s.kept = s.issued.drop acked
  pending : s.writing = true → s.pending = s.round.out.drop (acked - start)

section Fifo

variable {s : State α} {start acked : Nat}

theorem Fifo.acked_le (h : Fifo s start acked) : acked ≤ s.issued.length :=
  Nat.le_trans h.carried.acked_le h.carried.stop_le

theorem Fifo.acked_eq (h : Fifo s start acked) (hw : s.writing = false) : acked = start := by
  have hc := h.carried
  rw [hw] at hc
  exact Nat.le_antisymm hc.acked_le hc.start_le

theorem Fifo.carried_of_writing (h : Fifo s start acked) (hw : s.writing = true) :
    Carried s.issued start acked s.issued.length s.round := by
  have hc := h.carried
  rwa [hw, if_pos rfl] at hc

theorem Fifo.items_of_writing (h : Fifo s start acked) (hw : s.writing = true) :
    s.round.items = s.issued.drop start := by
  rw [(h.carried_of_writing hw).items]
  exact List.take_of_length_le (by simp)

/-- What is not acknowledged is what is kept. -/
theorem Fifo.map_snd_pending (h : Fifo s start acked) (hw : s.writing = true) :
    s.pending.map Prod.snd = s.kept := by
  rw [h.pending hw, List.map_drop, show s.round.out.map Prod.snd = s.round.items from rfl,
    h.items_of_writing hw, List.drop_drop, Nat.add_sub_cancel' h.carried.start_le, h.kept]

theorem Fifo.issue (h : Fifo s start acked) {a : α} (hw : s.writing = false) :
    Fifo (s.issue a) start acked where
  chain := h.chain.append [a]
  carried := by
    have hc := h.carried.append [a]
    rw [show (s.issue a).writing = false from hw, if_neg (by simp)]
    rwa [hw, if_neg (by simp)] at hc
  kept := by
    rw [State.issue, List.drop_append_of_le_length h.acked_le, h.kept]
  pending := fun hw' => by rw [show s.writing = true from hw'] at hw; cases hw

theorem Fifo.issueSend (h : Fifo s start acked) {a : α} (n : Nat) (hw : s.writing = true) :
    Fifo ((s.issue a).send (n, a)) start acked := by
  have hc := h.carried_of_writing hw
  have hle : acked - start ≤ s.round.out.length := by
    rw [hc.length_out]
    exact Nat.sub_le_sub_right hc.acked_le start
  have hstart : start ≤ s.issued.length := Nat.le_trans hc.start_le hc.acked_le
  refine ⟨h.chain.append [a], ?_, ?_, fun _ => ?_⟩
  · rw [show ((s.issue a).send (n, a)).writing = true from hw, if_pos rfl]
    refine ⟨hc.start_le, ?_, Nat.le_refl _, ?_, ?_⟩
    · exact Nat.le_trans hc.acked_le (by simp [State.issue, State.send])
    · rw [List.take_of_length_le (by simp)]
      simp only [Round.items, State.issue, State.send, List.map_append, List.map_cons, List.map_nil]
      rw [List.drop_append_of_le_length hstart, ← h.items_of_writing hw]
      rfl
    · simp only [State.issue, State.send]
      rw [List.take_append_of_le_length hle]
      exact hc.answered
  · simp only [State.issue, State.send]
    rw [List.drop_append_of_le_length h.acked_le, h.kept]
  · simp only [State.issue, State.send]
    rw [List.drop_append_of_le_length hle, h.pending hw]

theorem Fifo.restore (h : Fifo s start acked) {ms : List (Nat × α)} (hw : s.writing = false)
    (hms : ms.map Prod.snd = s.kept) : Fifo (s.restore ms) start acked := by
  obtain rfl := h.acked_eq hw
  refine ⟨h.chain, ?_, h.kept, fun _ => ?_⟩
  · refine ⟨Nat.le_refl _, h.acked_le, Nat.le_refl _, ?_, ?_⟩
    · rw [State.restore, Round.items, hms, h.kept]
      exact (List.take_of_length_le (by simp)).symm
    · simp
  · simp [State.restore]

theorem Fifo.note (h : Fifo s start acked) (n : Nat) : Fifo (s.note n) start acked :=
  ⟨h.chain, ⟨h.carried.start_le, h.carried.acked_le, h.carried.stop_le, h.carried.items,
    fun m hm => List.mem_append_left _ (h.carried.answered m hm)⟩, h.kept, h.pending⟩

/-- An acknowledgement in order is that of the first item kept. -/
theorem Fifo.ack (h : Fifo s start acked) (ho : Ordered s) {m : Nat × α} {ms : List (Nat × α)}
    {before after : List α} (hp : s.pending = m :: ms) (hm : m.1 ∈ s.round.answers)
    (hk : s.kept = before ++ m.2 :: after) :
    Fifo { s with pending := ms, kept := before ++ after } start (acked + 1) := by
  have hw : s.writing = true := by
    rw [← Bool.not_eq_false]
    intro hw
    rw [(ho.quiet hw).2] at hp
    cases hp
  have hc := h.carried_of_writing hw
  have hkept : s.kept = m.2 :: ms.map Prod.snd := by
    rw [← h.map_snd_pending hw, hp, List.map_cons]
  have hbefore : before = [] := by
    have hnodup := ho.nodup.sublist ho.kept
    cases before with
    | nil => rfl
    | cons b before =>
      rw [hk] at hkept hnodup
      rw [List.cons_append, List.cons.injEq] at hkept
      rw [List.cons_append, List.nodup_cons, hkept.1] at hnodup
      exact absurd (List.mem_append_right _ List.mem_cons_self) hnodup.1
  have hlt : acked < s.issued.length := by
    have hlen := congrArg List.length (h.kept.symm.trans hkept)
    rw [List.length_drop, List.length_cons] at hlen
    omega
  have hout : s.round.out.drop (acked - start) = m :: ms := (h.pending hw).symm.trans hp
  have hsucc : acked + 1 - start = acked - start + 1 := Nat.succ_sub hc.start_le
  refine ⟨h.chain, ?_, ?_, fun _ => ?_⟩
  · simp only [hw, if_true]
    refine ⟨Nat.le_trans hc.start_le (Nat.le_succ _), hlt, Nat.le_refl _, hc.items, fun m' hm' => ?_⟩
    rw [hsucc, List.take_add_one, List.mem_append] at hm'
    rcases hm' with hm' | hm'
    · exact hc.answered m' hm'
    · have hhead : s.round.out[acked - start]? = some m := by
        rw [← List.head?_drop, hout]
        rfl
      rw [hhead, Option.toList_some, List.mem_singleton] at hm'
      rw [hm']
      exact hm
  · rw [hbefore, List.nil_append] at hk
    have hdrop : s.issued.drop (acked + 1) = (s.issued.drop acked).drop 1 := by rw [List.drop_drop]
    simp only [hbefore, List.nil_append]
    rw [hdrop, ← h.kept, hk]
    rfl
  · simp only
    rw [hsucc, ← List.drop_drop, hout]
    rfl

theorem Fifo.drop (h : Fifo s start acked) : Fifo s.drop acked acked where
  chain := h.chain.concat h.carried
  carried := ⟨Nat.le_refl _, Nat.le_refl _, h.acked_le, by simp [State.drop, Round.items], by simp⟩
  kept := h.kept
  pending := nofun

end Fifo

theorem Fifo.move {s s' : State α} {start acked : Nat} (h : Fifo s start acked) (ho : Ordered s)
    (hm : Move true s s') : ∃ start' acked', Fifo s' start' acked' := by
  cases hm with
  | issue hw _ => exact ⟨start, acked, h.issue hw⟩
  | issueSend n hw _ => exact ⟨start, acked, h.issueSend n hw⟩
  | restore hw hms => exact ⟨start, acked, h.restore hw hms⟩
  | note n => exact ⟨start, acked, h.note n⟩
  | ack hp hm hk => exact ⟨start, acked + 1, h.ack ho hp hm hk⟩
  | ackGone hp hgone =>
    -- in a plain run nothing leaves the queue before its acknowledgement
    have hw : s.writing = true := by
      rw [← Bool.not_eq_false]
      intro hw
      rw [(ho.quiet hw).2] at hp
      cases hp
    rw [← h.map_snd_pending hw, hp] at hgone
    exact absurd List.mem_cons_self hgone
  | drop => exact ⟨acked, acked, h.drop⟩
  | cancel hplain _ => cases hplain

theorem fifo_empty : Fifo ({} : State α) 0 0 where
  chain := rfl
  carried := ⟨Nat.le_refl _, Nat.le_refl _, Nat.le_refl _, by simp [Round.items], by simp⟩
  kept := rfl
  pending := nofun

theorem Fifo.moves {s s' : State α} {start acked : Nat} (h : Fifo s start acked) (ho : Ordered s)
    (hm : Moves true s s') : ∃ start' acked', Fifo s' start' acked' := by
  induction hm with
  | refl => exact ⟨start, acked, h⟩
  | tail hms hm ih =>
    obtain ⟨start', acked', h'⟩ := ih
    exact h'.move (ho.moves hms) hm

/-! ## What the receiver holds -/

/-- The first `n` messages of a round reached the receiver; later ones were not answered. -/
def Reached (n : Nat) (r : Round α) : Prop := ∀ m ∈ r.out.drop n, m.1 ∉ r.answers

/-- The items that reached the receiver. -/
def Round.delivered (n : Nat) (r : Round α) : List α := (r.out.take n).map Prod.snd

theorem Carried.delivered {issued : List α} {start acked stop : Nat} {r : Round α}
    (h : Carried issued start acked stop r) {n : Nat} (hn : Reached n r) :
    ∃ stop', acked ≤ stop' ∧ stop' ≤ issued.length ∧
      r.delivered n = (issued.drop start).take (stop' - start) := by
  have hlen := h.length_out
  have hle := h.acked_le
  have hle' := h.start_le
  have hstop := h.stop_le
  have hacked : acked - start ≤ n := by
    by_contra hlt
    have hlt' : n < r.out.length := by omega
    have hmem : r.out.get ⟨n, hlt'⟩ ∈ r.out.take (acked - start) := by
      rw [List.mem_take_iff_getElem]
      exact ⟨n, by omega, rfl⟩
    have hdrop : r.out.get ⟨n, hlt'⟩ ∈ r.out.drop n := by
      rw [List.drop_eq_getElem_cons hlt']
      exact List.mem_cons_self
    exact hn _ hdrop (h.answered _ hmem)
  refine ⟨start + min n (stop - start), by omega, by omega, ?_⟩
  rw [Round.delivered, List.map_take, show r.out.map Prod.snd = r.items from rfl, h.items, List.take_take,
    Nat.add_sub_cancel_left]

/-- **The items of all rounds, as far as they arrived, have the effect of each item once.** -/
theorem applyAll_delivered {Loc Val : Type*} (f : α → Loc → Option Val) {issued : List α} :
    ∀ {rounds : List (Round α)} {ns : List Nat} {start : Nat}, Chain issued start rounds issued.length →
      List.Forall₂ Reached ns rounds → ∀ store : Loc → Val,
        applyAll (((List.zipWith Round.delivered ns rounds).flatten).map f) store =
          applyAll ((issued.drop start).map f) store := by
  intro rounds ns start hchain hns store
  have hrounds : ∃ rs, Rounds issued.length start rs ∧
      rs.flatMap (roundWrites (issued.map f)) = ((List.zipWith Round.delivered ns rounds).flatten).map f := by
    induction hns generalizing start with
    | nil => exact ⟨[], hchain, rfl⟩
    | @cons n r ns rounds hn _ ih =>
      obtain ⟨acked, stop, hr, hrest⟩ := hchain
      obtain ⟨rs, hrs, heq⟩ := ih hrest
      obtain ⟨stop', hacked, hstop, hdel⟩ := hr.delivered hn
      refine ⟨(start, stop') :: rs, ⟨rfl, hstop, acked, hr.start_le, hacked, hrs⟩, ?_⟩
      rw [List.flatMap_cons, List.zipWith_cons_cons, List.flatten_cons, List.map_append, heq, hdel, roundWrites,
        List.map_take, List.map_drop]
  obtain ⟨rs, hrs, heq⟩ := hrounds
  rw [← heq, applyAll_rounds (issued.map f) rs start (by rwa [List.length_map]), List.map_drop]

end Outbox
