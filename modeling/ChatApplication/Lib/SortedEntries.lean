import Mathlib.Data.List.Basic
import Mathlib.Data.List.Pairwise
import Mathlib.Order.Compare

/-!
# Sorted lists of entries

A finite map with keys under a comparator `cmp`, as a list of entries with strictly ascending keys.
The comparator need not tell all keys apart: two keys with `cmp k k' = .eq` name the same entry, and
a value written under the second key is found under the first.

* `Ascending.insert`, `Ascending.erase` — both operations keep the list ascending.
* `find_insert`, `find_erase` — what is found after them, for every key.
* `insert_append_of_below`, `insert_append_of_above`, `erase_append` — the operations on a list that
  is split at an entry, which is how a search tree works on its entries.
* `Ascending.keys_eq_filter` — the keys of a list, out of all the keys it may have.
-/

namespace SortedEntries

open Std

variable {κ ν : Type*} (cmp : κ → κ → Ordering)

/-- The keys ascend strictly. -/
def Ascending (l : List (κ × ν)) : Prop := l.Pairwise fun x y => cmp x.1 y.1 = .lt

/-- The value under a key. -/
def find (k : κ) (l : List (κ × ν)) : Option ν := (l.find? fun e => cmp k e.1 == .eq).map Prod.snd

/-- Write a value under a key; the key of an entry that is there already stays. -/
def insert (k : κ) (v : ν) : List (κ × ν) → List (κ × ν)
  | [] => [(k, v)]
  | e :: l =>
    if cmp k e.1 = .lt then (k, v) :: e :: l
    else if cmp k e.1 = .eq then (e.1, v) :: l
    else e :: insert k v l

/-- Remove the entry of a key. -/
def erase (k : κ) (l : List (κ × ν)) : List (κ × ν) := l.filter fun e => cmp k e.1 != .eq

/-- The key just before a key. -/
def keyBefore (k : κ) (l : List (κ × ν)) : Option κ :=
  (l.filter fun e => cmp k e.1 == .gt).getLast?.map Prod.fst

/-- The key comes before all entries. -/
def Below (k : κ) (l : List (κ × ν)) : Prop := ∀ e ∈ l, cmp k e.1 = .lt

/-- The key comes after all entries. -/
def Above (k : κ) (l : List (κ × ν)) : Prop := ∀ e ∈ l, cmp k e.1 = .gt

instance Ascending.instDecidable (l : List (κ × ν)) : Decidable (Ascending cmp l) :=
  inferInstanceAs (Decidable (l.Pairwise fun x y => cmp x.1 y.1 = .lt))

variable {cmp} {k k' : κ} {v : ν} {e : κ × ν} {l r : List (κ × ν)}

theorem below_cons : Below cmp k (e :: l) ↔ cmp k e.1 = .lt ∧ Below cmp k l := List.forall_mem_cons

theorem above_cons : Above cmp k (e :: l) ↔ cmp k e.1 = .gt ∧ Above cmp k l := List.forall_mem_cons

theorem Below.append (hl : Below cmp k l) (hr : Below cmp k r) : Below cmp k (l ++ r) := by
  intro x hx
  rcases List.mem_append.mp hx with hx | hx
  · exact hl x hx
  · exact hr x hx

theorem Ascending.left (h : Ascending cmp (l ++ r)) : Ascending cmp l := (List.pairwise_append.mp h).1

theorem Ascending.right (h : Ascending cmp (l ++ r)) : Ascending cmp r := (List.pairwise_append.mp h).2.1

/-! ## The place of a key in a list that is split at an entry -/

theorem Ascending.lt_of_mem_left (h : Ascending cmp (l ++ e :: r)) {x : κ × ν} (hx : x ∈ l) :
    cmp x.1 e.1 = .lt := (List.pairwise_append.mp h).2.2 x hx e List.mem_cons_self

theorem Ascending.below_right (h : Ascending cmp (l ++ e :: r)) : Below cmp e.1 r :=
  (List.pairwise_cons.mp h.right).1

theorem Ascending.below [TransCmp cmp] (h : Ascending cmp (l ++ e :: r)) (hk : cmp k e.1 = .lt) :
    Below cmp k (e :: r) :=
  below_cons.mpr ⟨hk, fun x hx => TransCmp.lt_trans hk (h.below_right x hx)⟩

theorem Ascending.below_of_eq [TransCmp cmp] (h : Ascending cmp (l ++ e :: r)) (hk : cmp k e.1 = .eq) :
    Below cmp k r := fun x hx => TransCmp.lt_of_eq_of_lt hk (h.below_right x hx)

theorem Ascending.above [TransCmp cmp] (h : Ascending cmp (l ++ e :: r)) (hk : cmp k e.1 ≠ .lt) :
    Above cmp k l := by
  intro x hx
  have hlt := h.lt_of_mem_left hx
  rw [OrientedCmp.gt_iff_lt]
  cases hke : cmp k e.1 with
  | lt => exact absurd hke hk
  | eq => exact TransCmp.lt_of_lt_of_eq hlt (OrientedCmp.eq_symm hke)
  | gt => exact TransCmp.lt_trans hlt (OrientedCmp.lt_of_gt hke)

/-- What comes before an entry comes before every key that the entry does not come after. -/
theorem Ascending.lt_of_mem_left_of_le [TransCmp cmp] (h : Ascending cmp (l ++ e :: r))
    (hk : cmp e.1 k ≠ .gt) {x : κ × ν} (hx : x ∈ l) : cmp x.1 k = .lt := by
  have hlt := h.lt_of_mem_left hx
  cases hc : cmp e.1 k with
  | lt => exact TransCmp.lt_trans hlt hc
  | eq => exact TransCmp.lt_of_lt_of_eq hlt hc
  | gt => exact absurd hc hk

/-- What comes after an entry comes after every key that the entry does not come before. -/
theorem Ascending.gt_of_mem_right_of_ge [TransCmp cmp] (h : Ascending cmp (l ++ e :: r))
    (hk : cmp e.1 k ≠ .lt) {x : κ × ν} (hx : x ∈ r) : cmp x.1 k = .gt := by
  have hlt := h.below_right x hx
  rw [OrientedCmp.gt_iff_lt]
  cases hc : cmp e.1 k with
  | lt => exact absurd hc hk
  | eq => exact TransCmp.lt_of_eq_of_lt (OrientedCmp.eq_symm hc) hlt
  | gt => exact TransCmp.lt_trans (OrientedCmp.lt_of_gt hc) hlt

/-- A list is ascending when its two parts are and the entry between them is between them. -/
theorem ascending_append_cons [TransCmp cmp] :
    Ascending cmp (l ++ e :: r) ↔
      Ascending cmp l ∧ Ascending cmp r ∧ (∀ x ∈ l, cmp x.1 e.1 = .lt) ∧ Below cmp e.1 r := by
  constructor
  · intro h
    exact ⟨h.left, List.Pairwise.of_cons h.right, fun x hx => h.lt_of_mem_left hx, h.below_right⟩
  · rintro ⟨hl, hr, hle, her⟩
    refine List.pairwise_append.mpr ⟨hl, List.pairwise_cons.mpr ⟨her, hr⟩, ?_⟩
    intro x hx y hy
    rcases List.mem_cons.mp hy with rfl | hy
    · exact hle x hx
    · exact TransCmp.lt_trans (hle x hx) (her y hy)

/-! ## Finding -/

theorem find_append : find cmp k (l ++ r) = (find cmp k l).or (find cmp k r) := by
  unfold find
  rw [List.find?_append]
  cases l.find? fun e => cmp k e.1 == .eq <;> rfl

theorem find_cons : find cmp k (e :: l) = if cmp k e.1 = .eq then some e.2 else find cmp k l := by
  unfold find
  by_cases h : cmp k e.1 = .eq
  · simp [h]
  · rw [List.find?_cons_of_neg (by simpa using h), if_neg h]

theorem find_eq_none (h : ∀ x ∈ l, cmp k x.1 ≠ .eq) : find cmp k l = none := by
  unfold find
  rw [List.find?_eq_none.mpr (by simpa using h)]
  rfl

theorem Below.find_eq_none (h : Below cmp k l) : find cmp k l = none :=
  SortedEntries.find_eq_none fun x hx => by simp [h x hx]

theorem Above.find_eq_none (h : Above cmp k l) : find cmp k l = none :=
  SortedEntries.find_eq_none fun x hx => by simp [h x hx]

theorem find_eq_none_iff : find cmp k l = none ↔ ∀ x ∈ l, cmp k x.1 ≠ .eq := by
  constructor
  · intro h x hx
    simp only [find, Option.map_eq_none_iff, List.find?_eq_none] at h
    simpa using h x hx
  · exact SortedEntries.find_eq_none

theorem Ascending.find_of_lt [TransCmp cmp] (h : Ascending cmp (l ++ e :: r)) (hk : cmp k e.1 = .lt) :
    find cmp k (l ++ e :: r) = find cmp k l := by
  rw [find_append, (h.below hk).find_eq_none, Option.or_none]

theorem Ascending.find_of_eq [TransCmp cmp] (h : Ascending cmp (l ++ e :: r)) (hk : cmp k e.1 = .eq) :
    find cmp k (l ++ e :: r) = some e.2 := by
  rw [find_append, (h.above (by simp [hk])).find_eq_none, Option.none_or, find_cons, if_pos hk]

theorem Ascending.find_of_gt [TransCmp cmp] (h : Ascending cmp (l ++ e :: r)) (hk : cmp k e.1 = .gt) :
    find cmp k (l ++ e :: r) = find cmp k r := by
  rw [find_append, (h.above (by simp [hk])).find_eq_none, Option.none_or, find_cons, if_neg (by simp [hk])]

/-- The value under a key is the value of an entry with that key. -/
theorem Ascending.find_of_mem [TransCmp cmp] (h : Ascending cmp l) (he : e ∈ l) (hk : cmp k e.1 = .eq) :
    find cmp k l = some e.2 := by
  obtain ⟨l₁, l₂, rfl⟩ := List.append_of_mem he
  exact h.find_of_eq hk

/-- Keys of the same order name the same entry. -/
theorem find_congr [TransCmp cmp] (h : cmp k k' = .eq) (l : List (κ × ν)) : find cmp k l = find cmp k' l := by
  unfold find
  simp only [TransCmp.congr_left h]

/-- Appending an entry with a new key. -/
theorem find_concat [TransCmp cmp] (h : find cmp k l = none) (v : ν) :
    find cmp k' (l ++ [(k, v)]) = if cmp k' k = .eq then some v else find cmp k' l := by
  rw [find_append, find_cons]
  split_ifs with hk
  · rw [find_congr hk, h, Option.none_or]
  · exact Option.or_none

/-! ## Inserting -/

theorem insert_append_of_above (h : Above cmp k l) : insert cmp k v (l ++ r) = l ++ insert cmp k v r := by
  induction l with
  | nil => rfl
  | cons e l ih =>
    obtain ⟨he, hl⟩ := above_cons.mp h
    simp [insert, he, ih hl]

theorem insert_append_of_below (h : cmp k e.1 = .lt) :
    insert cmp k v (l ++ e :: r) = insert cmp k v l ++ e :: r := by
  induction l with
  | nil => simp [insert, h]
  | cons x l ih =>
    rw [List.cons_append, insert, insert, ih]
    split_ifs <;> rfl

theorem insert_of_eq [TransCmp cmp] (h : Ascending cmp (l ++ e :: r)) (hk : cmp k e.1 = .eq) :
    insert cmp k v (l ++ e :: r) = l ++ (e.1, v) :: r := by
  rw [insert_append_of_above (h.above (by simp [hk])), insert, if_neg (by simp [hk]), if_pos hk]

theorem mem_insert {x : κ × ν} (h : x ∈ insert cmp k v l) :
    x ∈ l ∨ x = (k, v) ∨ (∃ y ∈ l, cmp k y.1 = .eq ∧ x = (y.1, v)) := by
  induction l with
  | nil => exact .inr (.inl (by simpa [insert] using h))
  | cons y l ih =>
    rw [insert] at h
    split_ifs at h with hlt heq
    · rcases List.mem_cons.mp h with rfl | h
      · exact .inr (.inl rfl)
      · exact .inl h
    · rcases List.mem_cons.mp h with rfl | h
      · exact .inr (.inr ⟨y, List.mem_cons_self, heq, rfl⟩)
      · exact .inl (List.mem_cons_of_mem _ h)
    · rcases List.mem_cons.mp h with rfl | h
      · exact .inl List.mem_cons_self
      · rcases ih h with h | h | ⟨z, hz, hkz, rfl⟩
        · exact .inl (List.mem_cons_of_mem _ h)
        · exact .inr (.inl h)
        · exact .inr (.inr ⟨z, List.mem_cons_of_mem _ hz, hkz, rfl⟩)

theorem Ascending.insert [TransCmp cmp] (h : Ascending cmp l) (k : κ) (v : ν) :
    Ascending cmp (insert cmp k v l) := by
  induction l with
  | nil => exact List.pairwise_singleton _ _
  | cons e l ih =>
    obtain ⟨hel, hl⟩ := List.pairwise_cons.mp h
    rw [SortedEntries.insert]
    split_ifs with hlt heq
    · exact List.pairwise_cons.mpr ⟨Ascending.below (l := []) h hlt, h⟩
    · exact List.pairwise_cons.mpr ⟨hel, hl⟩
    · refine List.pairwise_cons.mpr ⟨fun x hx => ?_, ih hl⟩
      rcases mem_insert hx with hx | rfl | ⟨y, hy, -, rfl⟩
      · exact hel x hx
      · rw [← OrientedCmp.gt_iff_lt]
        cases hc : cmp k e.1 <;> simp_all
      · exact hel y hy

/-- **What is found after an insertion**, under every key. -/
theorem find_insert [TransCmp cmp] :
    find cmp k' (insert cmp k v l) = if cmp k' k = .eq then some v else find cmp k' l := by
  induction l with
  | nil => simp [insert, find_cons]
  | cons e l ih =>
    rw [insert]
    cases hc : cmp k e.1 with
    | lt => rw [if_pos rfl, find_cons]
    | eq =>
      rw [if_neg (by decide), if_pos rfl, find_cons, find_cons, TransCmp.congr_right hc]
      split_ifs <;> rfl
    | gt =>
      rw [if_neg (by decide), if_neg (by decide), find_cons, find_cons, ih]
      split_ifs with he hk
      · -- the two keys cannot name one entry, since the new key comes after the first one
        have := TransCmp.gt_of_gt_of_eq hc (OrientedCmp.eq_symm he)
        simp [OrientedCmp.eq_symm hk] at this
      all_goals rfl

/-- Replacing an entry by one with the same key. -/
theorem Ascending.replace [TransCmp cmp] (h : Ascending cmp (l ++ e :: r)) (hk : cmp k e.1 = .eq) (v : ν) :
    Ascending cmp (l ++ (k, v) :: r) := by
  obtain ⟨hl, hr, hle, -⟩ := ascending_append_cons.mp h
  exact ascending_append_cons.mpr
    ⟨hl, hr, fun x hx => TransCmp.lt_of_lt_of_eq (hle x hx) (OrientedCmp.eq_symm hk), h.below_of_eq hk⟩

theorem find_replace [TransCmp cmp] (hk : cmp k e.1 = .eq) (h : Ascending cmp (l ++ e :: r)) :
    find cmp k' (l ++ (k, v) :: r) = if cmp k' k = .eq then some v else find cmp k' (l ++ e :: r) := by
  split_ifs with hk'
  · exact (h.replace hk v).find_of_eq hk'
  · rw [find_append, find_append, find_cons, find_cons, if_neg hk', ← TransCmp.congr_right hk, if_neg hk']

/-! ## Erasing -/

theorem erase_append : erase cmp k (l ++ r) = erase cmp k l ++ erase cmp k r := List.filter_append ..

theorem erase_cons_of_eq (h : cmp k e.1 = .eq) : erase cmp k (e :: l) = erase cmp k l :=
  List.filter_cons_of_neg (by simp [h])

theorem erase_cons_of_ne (h : cmp k e.1 ≠ .eq) : erase cmp k (e :: l) = e :: erase cmp k l :=
  List.filter_cons_of_pos (by simpa using h)

theorem erase_eq_self (h : ∀ x ∈ l, cmp k x.1 ≠ .eq) : erase cmp k l = l :=
  List.filter_eq_self.mpr (by simpa using h)

theorem Below.erase_eq_self (h : Below cmp k l) : erase cmp k l = l :=
  SortedEntries.erase_eq_self fun x hx => by simp [h x hx]

theorem Above.erase_eq_self (h : Above cmp k l) : erase cmp k l = l :=
  SortedEntries.erase_eq_self fun x hx => by simp [h x hx]

theorem Ascending.erase (h : Ascending cmp l) (k : κ) : Ascending cmp (erase cmp k l) := h.filter _

theorem Ascending.erase_of_lt [TransCmp cmp] (h : Ascending cmp (l ++ e :: r)) (hk : cmp k e.1 = .lt) :
    SortedEntries.erase cmp k (l ++ e :: r) = SortedEntries.erase cmp k l ++ e :: r := by
  rw [erase_append, (h.below hk).erase_eq_self]

theorem Ascending.erase_of_eq [TransCmp cmp] (h : Ascending cmp (l ++ e :: r)) (hk : cmp k e.1 = .eq) :
    SortedEntries.erase cmp k (l ++ e :: r) = l ++ r := by
  rw [erase_append, erase_cons_of_eq hk, (h.above (by simp [hk])).erase_eq_self,
    (h.below_of_eq hk).erase_eq_self]

theorem Ascending.erase_of_gt [TransCmp cmp] (h : Ascending cmp (l ++ e :: r)) (hk : cmp k e.1 = .gt) :
    SortedEntries.erase cmp k (l ++ e :: r) = l ++ e :: SortedEntries.erase cmp k r := by
  rw [erase_append, erase_cons_of_ne (by simp [hk]), (h.above (by simp [hk])).erase_eq_self]

/-- **What is found after a removal**, under every key. -/
theorem find_erase [TransCmp cmp] :
    find cmp k' (erase cmp k l) = if cmp k' k = .eq then none else find cmp k' l := by
  induction l with
  | nil => simp [erase, find]
  | cons e l ih =>
    by_cases he : cmp k e.1 = .eq
    · rw [erase_cons_of_eq he, ih, find_cons, TransCmp.congr_right he]
      split_ifs <;> rfl
    · rw [erase_cons_of_ne he, find_cons, find_cons, ih]
      split_ifs with hk' hk <;> try rfl
      exact absurd (TransCmp.eq_trans (OrientedCmp.eq_symm hk) hk') he

/-! ## The key before a key -/

theorem Below.filter_gt (h : Below cmp k l) : (l.filter fun e => cmp k e.1 == .gt) = [] :=
  List.filter_eq_nil_iff.mpr fun x hx => by simp [h x hx]

theorem Above.filter_gt (h : Above cmp k l) : (l.filter fun e => cmp k e.1 == .gt) = l :=
  List.filter_eq_self.mpr fun x hx => by simp [h x hx]

section
variable [TransCmp cmp]

theorem Ascending.keyBefore_of_lt (h : Ascending cmp (l ++ e :: r)) (hk : cmp k e.1 = .lt) :
    keyBefore cmp k (l ++ e :: r) = keyBefore cmp k l := by
  rw [keyBefore, List.filter_append, (h.below hk).filter_gt, List.append_nil, keyBefore]

theorem Ascending.keyBefore_of_eq (h : Ascending cmp (l ++ e :: r)) (hk : cmp k e.1 = .eq) :
    keyBefore cmp k (l ++ e :: r) = l.getLast?.map Prod.fst := by
  rw [keyBefore, List.filter_append, List.filter_cons_of_neg (by simp [hk]),
    (h.below_of_eq hk).filter_gt, List.append_nil, (h.above (by simp [hk])).filter_gt]

theorem Ascending.keyBefore_of_gt (h : Ascending cmp (l ++ e :: r)) (hk : cmp k e.1 = .gt) :
    keyBefore cmp k (l ++ e :: r) = (keyBefore cmp k r).or (some e.1) := by
  rw [keyBefore, List.filter_append, (h.above (by simp [hk])).filter_gt,
    List.filter_cons_of_pos (by simp [hk]), keyBefore, List.getLast?_append, List.getLast?_cons]
  cases (r.filter fun e => cmp k e.1 == .gt).getLast? <;> rfl

end

/-! ## Entries in any order -/

/-- No two entries have the same key. -/
def Distinct (cmp : κ → κ → Ordering) (l : List (κ × ν)) : Prop := l.Pairwise fun x y => cmp x.1 y.1 ≠ .eq

theorem Ascending.distinct (h : Ascending cmp l) : Distinct cmp l := h.imp fun hlt => by simp [hlt]

theorem Distinct.perm [OrientedCmp cmp] (h : Distinct cmp l) (hp : l.Perm r) : Distinct cmp r :=
  hp.pairwise h fun hne heq => hne (OrientedCmp.eq_symm heq)

theorem find_eq_some_iff [TransCmp cmp] (h : Distinct cmp l) :
    find cmp k l = some v ↔ ∃ k', cmp k k' = .eq ∧ (k', v) ∈ l := by
  induction l with
  | nil => simp [find]
  | cons e l ih =>
    obtain ⟨hne, hl⟩ := List.pairwise_cons.mp h
    rw [find_cons]
    split_ifs with he
    · constructor
      · rintro ⟨⟩
        exact ⟨e.1, he, List.mem_cons_self⟩
      · rintro ⟨k', hk', hmem⟩
        rcases List.mem_cons.mp hmem with rfl | hmem
        · rfl
        · exact absurd (TransCmp.eq_trans (OrientedCmp.eq_symm he) hk') (hne _ hmem)
    · rw [ih hl]
      constructor
      · rintro ⟨k', hk', hmem⟩
        exact ⟨k', hk', List.mem_cons_of_mem _ hmem⟩
      · rintro ⟨k', hk', hmem⟩
        rcases List.mem_cons.mp hmem with rfl | hmem
        · exact absurd hk' he
        · exact ⟨k', hk', hmem⟩

/-- The order of entries with different keys does not matter. -/
theorem find_eq_of_perm [TransCmp cmp] (h : Distinct cmp l) (hp : l.Perm r) : find cmp k l = find cmp k r := by
  refine Option.ext fun v => ?_
  rw [find_eq_some_iff h, find_eq_some_iff (h.perm hp)]
  simp only [hp.mem_iff]

/-- Keys that differ in the order differ. -/
theorem eq_of_pairwise_ne [OrientedCmp cmp] {ks : List κ}
    (hks : ks.Pairwise fun k k' => cmp k k' ≠ .eq) (hk : k ∈ ks) (hk' : k' ∈ ks)
    (h : cmp k k' = .eq) : k = k' := by
  have hsymm : Std.Symm fun k k' => cmp k k' ≠ .eq := ⟨fun _ _ hne heq => hne (OrientedCmp.eq_symm heq)⟩
  by_contra hne
  exact hks.forall hk hk' hne h

/-- When the keys are among keys in ascending order, they are those of them under which a value is
found. -/
theorem Ascending.keys_eq_filter [TransCmp cmp] {ks : List κ} (h : Ascending cmp l)
    (hks : ks.Pairwise fun k k' => cmp k k' = .lt) (hmem : ∀ e ∈ l, e.1 ∈ ks) :
    l.map Prod.fst = ks.filter fun k => (find cmp k l).isSome := by
  have hasymm : ∀ k k', cmp k k' = .lt → cmp k' k = .lt → k = k' := by
    intro k k' hlt hgt
    rw [OrientedCmp.gt_of_lt hlt] at hgt
    cases hgt
  have hne : ∀ {k k'}, cmp k k' = .lt → k ≠ k' := by
    rintro k _ hlt rfl
    rw [(ReflCmp.compare_self : cmp k k = .eq)] at hlt
    cases hlt
  have hfilter := hks.filter fun k => (find cmp k l).isSome
  have hkeys : (l.map Prod.fst).Pairwise fun k k' => cmp k k' = .lt := List.pairwise_map.mpr h
  refine List.Perm.eq_of_pairwise (fun k k' _ _ => hasymm k k') hkeys hfilter ?_
  rw [List.perm_ext_iff_of_nodup (hkeys.imp hne) (hfilter.imp hne)]
  intro k
  rw [List.mem_filter, Option.isSome_iff_exists]
  simp only [find_eq_some_iff h.distinct]
  constructor
  · intro hk
    obtain ⟨e, he, rfl⟩ := List.mem_map.mp hk
    exact ⟨hmem e he, e.2, e.1, ReflCmp.compare_self, he⟩
  · rintro ⟨hk, v, k', hkk', hk'⟩
    have heq : k = k' := eq_of_pairwise_ne (hks.imp fun hlt => by simp [hlt]) hk (hmem _ hk') hkk'
    rw [heq]
    exact List.mem_map_of_mem hk'

end SortedEntries
