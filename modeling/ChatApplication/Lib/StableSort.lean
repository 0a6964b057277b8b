import Mathlib.Data.List.Sort

/-!
# Stable sorting by a key, and the append-then-sort loop

`sortOn key` is the stable sort of a list by a key in a linear order.  A stable sort is
determined by two facts: the result is sorted, and for every key `k` the elements of key `k`
stand in their original order.

* `eq_of_sorted_of_filter_eq` — two sorted lists with the same elements, in the same order,
  at every key are equal.
* `filter_sortOn` — sorting keeps the order of the elements of one key.
* `foldl_append_sortOn` — a loop that appends one element and re-sorts the whole list, once
  per element, computes one stable sort of everything that was appended.
* `flatMap_filter_key` — the groups of one key of a sorted list, in increasing order of the key,
  make up the list.
* `sortOn_eq_of_perm` — the result does not depend on the input order when elements of equal
  key are equal, and `exists_perm_sortOn_ne` — it does depend on it otherwise.
-/

namespace StableSort

variable {α κ : Type*} [LinearOrder κ] (key : α → κ)

/-- Stable sort of a list by the key of its elements. -/
def sortOn (l : List α) : List α := l.insertionSort (fun a b => key a ≤ key b)

/-- Sorted by key, ties allowed. -/
def SortedOn (l : List α) : Prop := l.Pairwise (fun a b => key a ≤ key b)

instance isTrans_key_le : IsTrans α (fun a b => key a ≤ key b) := ⟨fun _ _ _ => le_trans⟩

instance total_key_le : Std.Total (fun a b : α => key a ≤ key b) := ⟨fun _ _ => le_total _ _⟩

theorem sortOn_sorted (l : List α) : SortedOn key (sortOn key l) :=
  List.pairwise_insertionSort _ l

theorem sortOn_perm (l : List α) : (sortOn key l).Perm l :=
  List.perm_insertionSort _ l

theorem mem_sortOn {l : List α} {x : α} : x ∈ sortOn key l ↔ x ∈ l :=
  (sortOn_perm key l).mem_iff

theorem SortedOn.sortOn_eq {l : List α} (h : SortedOn key l) : sortOn key l = l :=
  List.Pairwise.insertionSort_eq h

theorem sortOn_map {β : Type*} (f : β → α) (l : List β) :
    sortOn key (l.map f) = (sortOn (fun x => key (f x)) l).map f :=
  (List.map_insertionSort _ _ f l fun _ _ _ _ => Iff.rfl).symm

/-! ## Stability -/

theorem filter_orderedInsert (k : κ) (x : α) (l : List α) :
    (l.orderedInsert (fun a b => key a ≤ key b) x).filter (fun a => key a = k) =
      (x :: l).filter (fun a => key a = k) := by
  induction l with
  | nil => rfl
  | cons y l ih =>
    by_cases hxy : key x ≤ key y
    · rw [List.orderedInsert_cons_of_le _ l hxy]
    · rw [List.orderedInsert_of_not_le _ l hxy, List.filter_cons, ih]
      -- `y` stays in front of `x`, so `y` is not one of the elements of key `key x`
      by_cases hx : key x = k
      · have hy : key y ≠ k := fun hy => hxy (by rw [hx, hy])
        simp [hx, hy]
      · simp [hx, List.filter_cons]

/-- **Stability**: the elements of one key keep their order. -/
theorem filter_sortOn (k : κ) (l : List α) :
    (sortOn key l).filter (fun a => key a = k) = l.filter (fun a => key a = k) := by
  induction l with
  | nil => rfl
  | cons x l ih =>
    unfold sortOn at ih ⊢
    rw [List.insertionSort_cons, filter_orderedInsert, List.filter_cons, List.filter_cons, ih]

theorem head_key_le {x : α} {l m : List α} (hs : SortedOn key (x :: l))
    (hm : ∀ k, (x :: l).filter (fun a => key a = k) = m.filter (fun a => key a = k)) :
    ∀ y ∈ m, key x ≤ key y := by
  intro y hy
  have hmem : y ∈ (x :: l).filter (fun a => key a = key y) := by
    rw [hm]; exact List.mem_filter.mpr ⟨hy, by simp⟩
  rcases List.mem_cons.mp (List.mem_filter.mp hmem).1 with rfl | hl
  · exact le_rfl
  · exact List.rel_of_pairwise_cons hs hl

/-- A sorted list is determined by its elements of each key. -/
theorem eq_of_sorted_of_filter_eq : ∀ {l m : List α}, SortedOn key l → SortedOn key m →
    (∀ k, l.filter (fun a => key a = k) = m.filter (fun a => key a = k)) → l = m
  | [], [], _, _, _ => rfl
  | [], y :: m, _, _, h => by simpa using h (key y)
  | x :: l, [], _, _, h => by simpa using h (key x)
  | x :: l, y :: m, hl, hm, h => by
    have hxy : key x = key y := by
      refine le_antisymm ?_ ?_
      · exact head_key_le key hl h y List.mem_cons_self
      · exact head_key_le key hm (fun k => (h k).symm) x List.mem_cons_self
    have hhead : x = y := by
      have := h (key x)
      simp only [List.filter_cons, decide_true, if_true, hxy] at this
      exact (List.cons.inj this).1
    subst hhead
    have htail : ∀ k, l.filter (fun a => key a = k) = m.filter (fun a => key a = k) := by
      intro k
      have := h k
      simp only [List.filter_cons] at this
      split at this
      · exact (List.cons.inj this).2
      · exact this
    rw [eq_of_sorted_of_filter_eq (List.Pairwise.of_cons hl) (List.Pairwise.of_cons hm) htail]

/-! ## The append-then-sort loop -/

theorem sortOn_sortOn_append (l m : List α) : sortOn key (sortOn key l ++ m) = sortOn key (l ++ m) := by
  refine eq_of_sorted_of_filter_eq key (sortOn_sorted key _) (sortOn_sorted key _) fun k => ?_
  rw [filter_sortOn, filter_sortOn, List.filter_append, List.filter_append, filter_sortOn]

/-- **Appending one element and re-sorting, once per element, is one stable sort.** -/
theorem foldl_append_sortOn {β : Type*} (f : β → α) :
    ∀ (xs : List β) (acc : List α), SortedOn key acc →
      xs.foldl (fun acc x => sortOn key (acc ++ [f x])) acc = sortOn key (acc ++ xs.map f)
  | [], acc, h => by simpa using (h.sortOn_eq key).symm
  | x :: xs, acc, _ => by
    rw [List.foldl_cons, foldl_append_sortOn f xs _ (sortOn_sorted key _), sortOn_sortOn_append]
    simp

/-! ## Groups of one key -/

theorem flatMap_ite_eq {ks : List κ} (hks : ks.Nodup) (k : κ) (v : List α) :
    ks.flatMap (fun j => if j = k then v else []) = if k ∈ ks then v else [] := by
  induction ks with
  | nil => rfl
  | cons j ks ih =>
    obtain ⟨hj, hks⟩ := List.nodup_cons.mp hks
    rw [List.flatMap_cons, ih hks]
    by_cases hjk : j = k
    · subst hjk
      simp [hj]
    · simp [hjk, Ne.symm hjk]

theorem filter_filter_key (k j : κ) (l : List α) :
    (l.filter fun x => key x = j).filter (fun x => key x = k) =
      if j = k then l.filter (fun x => key x = k) else [] := by
  rw [List.filter_filter]
  split
  · rename_i hjk
    subst hjk
    simp
  · rename_i hjk
    rw [List.filter_eq_nil_iff]
    intro x _ hx
    simp only [Bool.and_eq_true, decide_eq_true_eq] at hx
    exact hjk (hx.2.symm.trans hx.1)

/-- **The groups of a sorted list**, taken in increasing order of the key, make up the list. -/
theorem flatMap_filter_key {l : List α} {ks : List κ} (hl : SortedOn key l) (hks : ks.Pairwise (· < ·))
    (hmem : ∀ x ∈ l, key x ∈ ks) : ks.flatMap (fun k => l.filter fun x => key x = k) = l := by
  refine eq_of_sorted_of_filter_eq key ?_ hl fun k => ?_
  · refine List.pairwise_flatMap.mpr ⟨fun k _ => List.Pairwise.sublist List.filter_sublist hl, ?_⟩
    refine hks.imp fun hlt x hx y hy => ?_
    simp only [List.mem_filter, decide_eq_true_eq] at hx hy
    rw [hx.2, hy.2]
    exact hlt.le
  · simp only [List.filter_flatMap, filter_filter_key]
    rw [flatMap_ite_eq (hks.imp ne_of_lt)]
    split
    · rfl
    · rename_i hk
      symm
      rw [List.filter_eq_nil_iff]
      intro x hx hxk
      rw [decide_eq_true_eq] at hxk
      exact hk (hxk ▸ hmem x hx)

/-! ## Dependence on the input order -/

theorem pairwise_eq_filter {l : List α} (hinj : ∀ x ∈ l, ∀ y ∈ l, key x = key y → x = y) (k : κ) :
    (l.filter (fun a => key a = k)).Pairwise (fun x y => x = y) := by
  refine List.pairwise_of_forall_mem_list fun x hx y hy => ?_
  simp only [List.mem_filter, decide_eq_true_eq] at hx hy
  exact hinj x hx.1 y hy.1 (hx.2.trans hy.2.symm)

/-- Elements of equal key being equal, the sorted list is a function of the set of elements. -/
theorem sortOn_eq_of_perm {l m : List α} (hp : l.Perm m)
    (hinj : ∀ x ∈ l, ∀ y ∈ l, key x = key y → x = y) : sortOn key l = sortOn key m := by
  refine eq_of_sorted_of_filter_eq key (sortOn_sorted key _) (sortOn_sorted key _) fun k => ?_
  rw [filter_sortOn, filter_sortOn]
  have hinj' : ∀ x ∈ m, ∀ y ∈ m, key x = key y → x = y := fun x hx y hy =>
    hinj x (hp.mem_iff.mpr hx) y (hp.mem_iff.mpr hy)
  exact List.Perm.eq_of_pairwise (fun _ _ _ _ h _ => h) (pairwise_eq_filter key hinj k)
    (pairwise_eq_filter key hinj' k) (hp.filter _)

theorem exists_cons_perm_of_mem {β : Type*} {l : List β} {x : β} (hx : x ∈ l) : ∃ r, (x :: r).Perm l := by
  obtain ⟨s, t, rfl⟩ := List.append_of_mem hx
  exact ⟨s ++ t, List.perm_middle.symm⟩

/-- Two elements of equal key that are shown differently can be put in an order that shows in the
result. -/
theorem exists_perm_sortOn_ne {β : Type*} (f : β → α) {l : List β} {x y : β} (hx : x ∈ l) (hy : y ∈ l)
    (hne : f x ≠ f y) (hk : key (f x) = key (f y)) :
    ∃ m₁ m₂ : List β, m₁.Perm l ∧ m₂.Perm l ∧ sortOn key (m₁.map f) ≠ sortOn key (m₂.map f) := by
  obtain ⟨r, hr⟩ := exists_cons_perm_of_mem hx
  have hyr : y ∈ r := by
    rcases List.mem_cons.mp (hr.mem_iff.mpr hy) with h | h
    · exact absurd (congrArg f h).symm hne
    · exact h
  obtain ⟨t, ht⟩ := exists_cons_perm_of_mem hyr
  have h₁ : (x :: y :: t).Perm l := (ht.cons x).trans hr
  refine ⟨x :: y :: t, y :: x :: t, h₁, (List.Perm.swap x y t).trans h₁, fun h => ?_⟩
  have hf := congrArg (List.filter (fun a => key a = key (f y))) h
  rw [filter_sortOn, filter_sortOn] at hf
  simp only [List.map_cons, List.filter_cons, hk, decide_true, if_true] at hf
  exact hne (List.cons.inj hf).1

/-- Whatever the input order, the keys of the result are the same. -/
theorem map_key_sortOn_eq_of_perm {l m : List α} (hp : l.Perm m) :
    (sortOn key l).map key = (sortOn key m).map key := by
  have hpair : ∀ l : List α, ((sortOn key l).map key).Pairwise (· ≤ ·) := fun l =>
    List.pairwise_map.mpr (sortOn_sorted key l)
  refine List.Perm.eq_of_pairwise (fun _ _ _ _ => le_antisymm) (hpair l) (hpair m) ?_
  exact ((sortOn_perm key l).trans (hp.trans (sortOn_perm key m).symm)).map key

end StableSort
