import Mathlib.Data.List.Basic

/-!
# Words joined around a separator

`u ++ s :: v` joins two words with the separator `s`.  The join determines the words up to the
occurrences of `s` inside them.

* `append_sep_eq_iff` — two joins are equal exactly when the words are equal, or one left word
  goes on with a separator where the other join has its own.
* `append_sep_inj_left`, `append_sep_inj_right` — words on one side without a separator.
* `flatten_splitOn` — splitting at a separator loses nothing but the separators.
-/

namespace Separator

variable {α : Type*}

theorem cons_eq_append_cons_iff {s : α} {v w as : List α} :
    s :: v = as ++ s :: w ↔ (as = [] ∧ v = w) ∨ ∃ m, as = s :: m ∧ v = m ++ s :: w := by
  cases as with
  | nil => simp
  | cons a m =>
    simp only [List.cons_append, List.cons.injEq, reduceCtorEq, false_and, false_or]
    constructor
    · rintro ⟨rfl, h⟩
      exact ⟨m, ⟨rfl, rfl⟩, h⟩
    · rintro ⟨m', ⟨rfl, rfl⟩, h⟩
      exact ⟨rfl, h⟩

/-- When two joins around the same separator are equal. -/
theorem append_sep_eq_iff {s : α} {u v u' v' : List α} :
    u ++ s :: v = u' ++ s :: v' ↔
      (u = u' ∧ v = v') ∨ (∃ m, u' = u ++ s :: m ∧ v = m ++ s :: v') ∨
        (∃ m, u = u' ++ s :: m ∧ v' = m ++ s :: v) := by
  rw [List.append_eq_append_iff]
  constructor
  · rintro (⟨as, hu, hv⟩ | ⟨as, hu, hv⟩)
    · rcases cons_eq_append_cons_iff.mp hv with ⟨rfl, rfl⟩ | ⟨m, rfl, rfl⟩
      · exact .inl ⟨by simpa using hu.symm, rfl⟩
      · exact .inr (.inl ⟨m, hu, rfl⟩)
    · rcases cons_eq_append_cons_iff.mp hv with ⟨rfl, rfl⟩ | ⟨m, rfl, rfl⟩
      · exact .inl ⟨by simpa using hu, rfl⟩
      · exact .inr (.inr ⟨m, hu, rfl⟩)
  · rintro (⟨rfl, rfl⟩ | ⟨m, rfl, rfl⟩ | ⟨m, rfl, rfl⟩)
    · exact .inl ⟨[], by simp, by simp⟩
    · exact .inl ⟨s :: m, rfl, by simp⟩
    · exact .inr ⟨s :: m, rfl, by simp⟩

/-- Left words without a separator are determined by the join. -/
theorem append_sep_inj_left {s : α} {u v u' v' : List α} (hu : s ∉ u) (hu' : s ∉ u')
    (h : u ++ s :: v = u' ++ s :: v') : u = u' ∧ v = v' := by
  rcases append_sep_eq_iff.mp h with h | ⟨m, rfl, -⟩ | ⟨m, rfl, -⟩
  · exact h
  · exact absurd (by simp) hu'
  · exact absurd (by simp) hu

/-- Right words without a separator are determined by the join. -/
theorem append_sep_inj_right {s : α} {u v u' v' : List α} (hv : s ∉ v) (hv' : s ∉ v')
    (h : u ++ s :: v = u' ++ s :: v') : u = u' ∧ v = v' := by
  rcases append_sep_eq_iff.mp h with h | ⟨m, -, rfl⟩ | ⟨m, -, rfl⟩
  · exact h
  · exact absurd (by simp) hv
  · exact absurd (by simp) hv'

/-- The pieces between separators, put together again without them. -/
theorem flatten_splitOn [DecidableEq α] (a : α) (l : List α) :
    (l.splitOn a).flatten = l.filter (fun c => c ≠ a) := by
  induction l with
  | nil => rfl
  | cons c l ih =>
    rw [List.splitOn_cons_eq_if_modifyHead]
    by_cases hc : c = a
    · simp [hc, ih]
    · -- `c` goes to the front of the first piece
      obtain ⟨x, xs, hx⟩ := List.exists_cons_of_ne_nil (List.splitOn_ne_nil a l)
      rw [hx, List.flatten_cons] at ih
      rw [if_neg (by simpa using hc), hx, List.modifyHead_cons, List.flatten_cons, List.cons_append, ih,
        List.filter_cons_of_pos (by simpa using hc)]

end Separator
