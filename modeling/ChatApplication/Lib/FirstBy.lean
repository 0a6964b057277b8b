import Mathlib.Data.List.Induction
import Mathlib.Data.List.Nodup

/-!
# First occurrences by a key

`firstBy f l` keeps, for every value of `f` on `l`, the first element with that value.  It is
computed left to right by `insertNew`, so keeping first occurrences after every append and
keeping them once at the end are the same thing (`firstBy_append`, `firstBy_eq_self`).

* `firstBy_nodup`, `mem_of_mem_firstBy`, `key_mem_firstBy` — the result has pairwise
  different keys, only elements of the input, and an element for every key of the input.
* `find?_of_mem_firstBy` — the element kept for a key is the first one with that key.
-/

namespace FirstBy

variable {α τ : Type*} [DecidableEq τ] (f : α → τ)

/-- Append an element unless its key is present. -/
def insertNew (acc : List α) (x : α) : List α :=
  if f x ∈ acc.map f then acc else acc ++ [x]

/-- The first element of every key. -/
def firstBy (l : List α) : List α := l.foldl (insertNew f) []

theorem firstBy_append (l m : List α) : firstBy f (l ++ m) = m.foldl (insertNew f) (firstBy f l) := by
  simp [firstBy, List.foldl_append]

theorem firstBy_concat (l : List α) (x : α) : firstBy f (l ++ [x]) = insertNew f (firstBy f l) x := by
  rw [firstBy_append]; rfl

theorem insertNew_nodup {acc : List α} (h : (acc.map f).Nodup) (x : α) :
    ((insertNew f acc x).map f).Nodup := by
  unfold insertNew
  split
  · exact h
  · rename_i hx
    rw [List.map_append, List.map_singleton, List.nodup_append]
    refine ⟨h, List.nodup_singleton _, ?_⟩
    rintro a ha b hb rfl
    rw [List.mem_singleton] at hb
    subst hb
    exact hx ha

theorem mem_insertNew {acc : List α} {x y : α} (h : y ∈ insertNew f acc x) : y ∈ acc ∨ y = x := by
  unfold insertNew at h
  split at h
  · exact .inl h
  · simpa using h

theorem key_mem_insertNew (acc : List α) (x : α) (k : τ) :
    k ∈ (insertNew f acc x).map f ↔ k ∈ acc.map f ∨ k = f x := by
  unfold insertNew
  split
  · rename_i hx
    constructor
    · exact .inl
    · rintro (h | rfl)
      · exact h
      · exact hx
  · simp

/-- The keys of the result are pairwise different. -/
theorem firstBy_nodup (l : List α) : ((firstBy f l).map f).Nodup := by
  induction l using List.reverseRecOn with
  | nil => exact List.nodup_nil
  | append_singleton l x ih => rw [firstBy_concat]; exact insertNew_nodup f ih x

theorem mem_of_mem_firstBy {l : List α} {y : α} (h : y ∈ firstBy f l) : y ∈ l := by
  induction l using List.reverseRecOn with
  | nil => exact h
  | append_singleton l x ih =>
    rw [firstBy_concat] at h
    rcases mem_insertNew f h with h | rfl
    · exact List.mem_append_left _ (ih h)
    · simp

/-- The keys of the result are the keys of the input. -/
theorem key_mem_firstBy (l : List α) (k : τ) : k ∈ (firstBy f l).map f ↔ k ∈ l.map f := by
  induction l using List.reverseRecOn with
  | nil => rfl
  | append_singleton l x ih =>
    rw [firstBy_concat, key_mem_insertNew, ih]
    simp [eq_comm]

/-- The element kept for a key is the first one of the input with that key. -/
theorem find?_of_mem_firstBy {l : List α} {y : α} (h : y ∈ firstBy f l) :
    l.find? (fun x => f x = f y) = some y := by
  induction l using List.reverseRecOn with
  | nil => cases h
  | append_singleton l x ih =>
    rw [firstBy_concat, insertNew] at h
    rw [List.find?_append]
    split at h
    · rw [ih h, Option.some_or]
    · rename_i hx
      rcases List.mem_append.mp h with h | h
      · rw [ih h, Option.some_or]
      · rw [List.mem_singleton] at h
        subst h
        have hnone : l.find? (fun x => f x = f y) = none := by
          rw [List.find?_eq_none]
          intro z hz hzy
          rw [key_mem_firstBy] at hx
          exact hx (List.mem_map.mpr ⟨z, hz, of_decide_eq_true hzy⟩)
        rw [hnone, Option.none_or]
        simp

theorem prefix_insertNew (acc : List α) (x : α) : acc <+: insertNew f acc x := by
  unfold insertNew
  split
  · exact List.prefix_refl _
  · exact List.prefix_append _ _

/-- Keeping first occurrences changes nothing when the keys are already different. -/
theorem firstBy_eq_self {l : List α} (h : (l.map f).Nodup) : firstBy f l = l := by
  induction l using List.reverseRecOn with
  | nil => rfl
  | append_singleton l x ih =>
    rw [List.map_append, List.map_singleton, List.nodup_append] at h
    obtain ⟨hl, -, hx⟩ := h
    rw [firstBy_concat, ih hl, insertNew, if_neg]
    intro hmem
    exact hx _ hmem _ (List.mem_singleton_self _) rfl

end FirstBy
