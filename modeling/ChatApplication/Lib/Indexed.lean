import Mathlib.Data.List.Basic

/-!
# Statements about every element of a list and its position

A system that numbers its parties keeps them in a list: a new party is appended, an event of a
party replaces the element at its position.  These are the two rules by which a statement about
every party survives.

* `forall_getElem?_concat` — a new element.
* `forall_getElem?_set` — a replaced element.
-/

namespace Indexed

variable {α : Type*} {l : List α} {P : Nat → α → Prop}

theorem forall_getElem?_concat {x : α} (hx : P l.length x) (h : ∀ i y, l[i]? = some y → P i y) :
    ∀ i y, (l ++ [x])[i]? = some y → P i y := by
  intro i y hy
  rcases Nat.lt_trichotomy i l.length with hi | hi | hi
  · rw [List.getElem?_append_left hi] at hy
    exact h i y hy
  · subst hi
    rw [List.getElem?_concat_length] at hy
    cases hy
    exact hx
  · rw [List.getElem?_eq_none (by simp; omega)] at hy
    cases hy

theorem forall_getElem?_set {i : Nat} {x : α} (hx : P i x)
    (h : ∀ j y, j ≠ i → l[j]? = some y → P j y) : ∀ j y, (l.set i x)[j]? = some y → P j y := by
  intro j y hy
  by_cases hj : j = i
  · subst hj
    have hlt : j < l.length := by
      by_contra hge
      rw [List.getElem?_eq_none (by rw [List.length_set]; omega)] at hy
      cases hy
    rw [List.getElem?_set_self hlt] at hy
    cases hy
    exact hx
  · rw [List.getElem?_set_ne (Ne.symm hj)] at hy
    exact h j y hj hy

end Indexed
