import Mathlib.Data.List.Induction
import Mathlib.Data.List.TakeDrop

/-!
# Overwrites and their repetition

A write sets some locations of a store to values of its own and leaves the other locations alone.
A list of writes then sets or keeps each location, whatever the store held before, so applying the
list a second time changes nothing.  A sender that repeats the unacknowledged end of its list after
every interruption therefore leaves the same store as one that sends the list once.

* `apply_together` — a list of writes is one write.
* `applyAll_applyAll` — a list of writes applied twice is the list applied once.
* `applyAll_resend` — a list whose first part was applied, and that is then repeated from an
  earlier place on.
* `applyAll_rounds` — any number of interrupted rounds, each from what the one before it left
  unacknowledged.
-/

namespace Overwrite

variable {Loc Val : Type*}

/-- The store after a write; `u x` is the value that the write gives to the location `x`. -/
def apply (u : Loc → Option Val) (store : Loc → Val) : Loc → Val := fun x => (u x).getD (store x)

/-- The store after a list of writes. -/
def applyAll (us : List (Loc → Option Val)) (store : Loc → Val) : Loc → Val :=
  us.foldl (fun store u => apply u store) store

@[simp] theorem applyAll_nil (store : Loc → Val) : applyAll [] store = store := rfl

theorem applyAll_append (us vs : List (Loc → Option Val)) (store : Loc → Val) :
    applyAll (us ++ vs) store = applyAll vs (applyAll us store) := List.foldl_append

/-- One write in place of a list of writes: the last of them that sets a location. -/
def together (us : List (Loc → Option Val)) (x : Loc) : Option Val := us.reverse.findSome? fun u => u x

theorem apply_together (us : List (Loc → Option Val)) (store : Loc → Val) :
    apply (together us) store = applyAll us store := by
  induction us using List.reverseRecOn with
  | nil => rfl
  | append_singleton us u ih =>
    rw [applyAll_append, ← ih]
    funext x
    show (together (us ++ [u]) x).getD (store x) = (u x).getD ((together us x).getD (store x))
    rw [together, List.reverse_concat, List.findSome?_cons]
    cases u x <;> rfl

/-- A list of writes sets a location, or it keeps the location in every store. -/
theorem applyAll_sets_or_keeps (us : List (Loc → Option Val)) (x : Loc) :
    (∃ v, ∀ store, applyAll us store x = v) ∨ ∀ store, applyAll us store x = store x := by
  induction us using List.reverseRecOn with
  | nil => exact .inr fun _ => rfl
  | append_singleton us u ih =>
    have hlast : ∀ store, applyAll (us ++ [u]) store x = (u x).getD (applyAll us store x) := by
      intro store
      rw [applyAll_append]
      rfl
    cases hu : u x with
    | some v => exact .inl ⟨v, fun store => by rw [hlast, hu]; rfl⟩
    | none =>
      have hkeep : ∀ store, applyAll (us ++ [u]) store x = applyAll us store x := by
        intro store
        rw [hlast, hu]
        rfl
      simpa only [hkeep] using ih

/-- **Repetition is harmless.** -/
theorem applyAll_applyAll (us : List (Loc → Option Val)) (store : Loc → Val) :
    applyAll us (applyAll us store) = applyAll us store := by
  funext x
  rcases applyAll_sets_or_keeps us x with ⟨v, hv⟩ | hkeep
  · rw [hv, hv]
  · rw [hkeep]

/-- The middle of a list applied once more. -/
theorem applyAll_append_repeat (as ms bs : List (Loc → Option Val)) (store : Loc → Val) :
    applyAll (ms ++ bs) (applyAll (as ++ ms) store) = applyAll (as ++ (ms ++ bs)) store := by
  simp only [applyAll_append, applyAll_applyAll]

/-- A first part of the list was applied; the list is then repeated from an earlier place on. -/
theorem applyAll_resend (us : List (Loc → Option Val)) {start stop : Nat} (h : start ≤ stop)
    (store : Loc → Val) :
    applyAll (us.drop start) (applyAll (us.take stop) store) = applyAll us store := by
  have htake : us.take stop = us.take start ++ (us.drop start).take (stop - start) := by
    rw [← List.take_add, Nat.add_sub_cancel' h]
  have hdrop : us.drop start = (us.drop start).take (stop - start) ++ us.drop stop := by
    have hstop : (us.drop start).drop (stop - start) = us.drop stop := by
      rw [List.drop_drop, Nat.add_sub_cancel' h]
    rw [← hstop, List.take_append_drop]
  have hrepeat := applyAll_append_repeat (us.take start) ((us.drop start).take (stop - start))
    (us.drop stop) store
  rwa [← htake, ← hdrop, List.take_append_drop] at hrepeat

/-- Rounds of sending a list of `n` writes: each round starts at the first unacknowledged write and
stops where the connection is lost, at or after the last write that was acknowledged in it; after
the last round everything is acknowledged. -/
def Rounds (n : Nat) : Nat → List (Nat × Nat) → Prop
  | acked, [] => acked = n
  | acked, (start, stop) :: rounds =>
    start = acked ∧ stop ≤ n ∧ ∃ acked', acked ≤ acked' ∧ acked' ≤ stop ∧ Rounds n acked' rounds

/-- The writes of a round. -/
def roundWrites (us : List (Loc → Option Val)) (r : Nat × Nat) : List (Loc → Option Val) :=
  (us.drop r.1).take (r.2 - r.1)

/-- **Interrupted rounds apply the list once.** -/
theorem applyAll_rounds (us : List (Loc → Option Val)) :
    ∀ (rounds : List (Nat × Nat)) (acked : Nat), Rounds us.length acked rounds →
      ∀ store, applyAll (rounds.flatMap (roundWrites us)) store = applyAll (us.drop acked) store
  | [], acked, h, store => by
    have hacked : acked = us.length := h
    rw [hacked, List.drop_length]
    rfl
  | (start, stop) :: rounds, acked, h, store => by
    obtain ⟨rfl, -, acked', hle, hstop, hrest⟩ := h
    have hsub : us.drop acked' = (us.drop start).drop (acked' - start) := by
      rw [List.drop_drop, Nat.add_sub_cancel' hle]
    rw [List.flatMap_cons, applyAll_append, applyAll_rounds us rounds acked' hrest, hsub, roundWrites]
    exact applyAll_resend _ (Nat.sub_le_sub_right hstop start) store

end Overwrite
