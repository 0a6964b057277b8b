import ChatApplication.Firebase.TreeDictionary
import ChatApplication.Lib.Runs
import Mathlib.Data.List.InsertIdx

/-!
# The sorted dictionary of the children of a node

Model of `FArraySortedDictionary`, `FTreeSortedDictionary` and of the class cluster
`FImmutableSortedDictionary` over them: a small dictionary keeps its keys and values in two arrays, and
the insertion that would make it larger than the threshold converts it into a tree.  Both
representations are structures that carry their invariant, so every dictionary the operations return
is sorted and, if it is a tree, balanced.

* `fromDictionary_eq` — the bulk construction raises exactly when two keys have the same order.
* `queries_of_dictionary` — both representations answer what their entries say.
* `dictionary_of_edits` — over any sequence of insertions and removals no operation raises, and the
  dictionary is the finite map that the edits describe.
* `enumerators_of_dictionary` — what every call of a key enumerator answers.
-/

namespace ChatApplication

open SortedEntries Std

variable {κ ν : Type*}

/-- The exceptions of the dictionaries. -/
inductive DictionaryException where
  /-- `Can't create FImmutableSortedDictionary with keys with same ordering!` -/
  | sameOrdering
  /-- `Can't get predecessor key for non-existent key`, `NonexistentKey` -/
  | nonexistentKey
  deriving DecidableEq, Repr

/-- `SORTED_DICTIONARY_ARRAY_TO_RB_TREE_SIZE_THRESHOLD`. -/
def sortedDictionaryArrayToRBTreeSizeThreshold : Nat := 25

/-- `FTreeSortedDictionary`: a balanced search tree with a black root. -/
structure FTreeSortedDictionary (cmp : κ → κ → Ordering) (ν : Type*) where
  root : FLLRBNode κ ν
  balanced : ∃ n, root.Balanced n
  ascending : Ascending cmp root.entries

/-- `FArraySortedDictionary`: the keys in ascending order, and the values beside them. -/
structure FArraySortedDictionary (cmp : κ → κ → Ordering) (ν : Type*) where
  keys : List κ
  values : List ν
  length_eq : values.length = keys.length
  ascending : Ascending cmp (keys.zip values)

/-- `FImmutableSortedDictionary`. -/
inductive FImmutableSortedDictionary (cmp : κ → κ → Ordering) (ν : Type*) where
  | array (dictionary : FArraySortedDictionary cmp ν)
  | tree (dictionary : FTreeSortedDictionary cmp ν)

/-! ## Sorting an `NSDictionary`

A dictionary of the platform is the list of its entries, in the order in which it enumerates them. -/

/-- The entries by ascending key, as `sortUsingComparator:` puts them. -/
def sortUsingComparator (cmp : κ → κ → Ordering) (dictionary : List (κ × ν)) : List (κ × ν) :=
  dictionary.mergeSort fun x y => (cmp x.1 y.1).isLE

/-- The loop that compares every key with the one before it. -/
def strictlyOrdered (cmp : κ → κ → Ordering) : List (κ × ν) → Bool
  | [] => true
  | [_] => true
  | x :: y :: l => decide (cmp x.1 y.1 = .lt) && strictlyOrdered cmp (y :: l)

theorem sortUsingComparator_perm (cmp : κ → κ → Ordering) (dictionary : List (κ × ν)) :
    (sortUsingComparator cmp dictionary).Perm dictionary := List.mergeSort_perm _ _

section
variable {cmp : κ → κ → Ordering} [TransCmp cmp]

theorem strictlyOrdered_iff {l : List (κ × ν)} : strictlyOrdered cmp l = true ↔ Ascending cmp l := by
  induction l with
  | nil => exact ⟨fun _ => List.Pairwise.nil, fun _ => rfl⟩
  | cons x l ih =>
    cases l with
    | nil => exact ⟨fun _ => List.pairwise_singleton _ _, fun _ => rfl⟩
    | cons y l =>
      rw [strictlyOrdered, Bool.and_eq_true, decide_eq_true_iff, ih]
      constructor
      · rintro ⟨hxy, hyl⟩
        exact List.pairwise_cons.mpr ⟨Ascending.below (l := []) hyl hxy, hyl⟩
      · intro h
        exact ⟨List.rel_of_pairwise_cons h List.mem_cons_self, List.Pairwise.of_cons h⟩

theorem sortUsingComparator_sorted (dictionary : List (κ × ν)) :
    (sortUsingComparator cmp dictionary).Pairwise fun x y => (cmp x.1 y.1).isLE = true := by
  refine List.pairwise_mergeSort ?_ ?_ dictionary
  · intro x y z hxy hyz
    exact TransCmp.isLE_trans hxy hyz
  · intro x y
    cases hc : cmp x.1 y.1 with
    | gt => simp [OrientedCmp.lt_of_gt hc]
    | lt => rfl
    | eq => rfl

/-- The sorted keys ascend strictly exactly when no two of them have the same order. -/
theorem ascending_sortUsingComparator_iff {dictionary : List (κ × ν)} :
    Ascending cmp (sortUsingComparator cmp dictionary) ↔ Distinct cmp dictionary := by
  constructor
  · intro h
    exact h.distinct.perm (sortUsingComparator_perm cmp dictionary)
  · intro h
    have hd := h.perm (sortUsingComparator_perm cmp dictionary).symm
    refine (List.pairwise_and_iff.mpr ⟨sortUsingComparator_sorted dictionary, hd⟩).imp ?_
    rintro x y ⟨hle, hne⟩
    cases hc : cmp x.1 y.1 with
    | lt => rfl
    | eq => exact absurd hc hne
    | gt => simp [hc] at hle

end

/-! ## Tree dictionaries -/

namespace FTreeSortedDictionary

variable {cmp : κ → κ → Ordering} [TransCmp cmp]

/-- `initWithComparator:`. -/
def initWithComparator : FTreeSortedDictionary cmp ν := ⟨.emptyNode, ⟨0, .emptyNode⟩, List.Pairwise.nil⟩

def get (d : FTreeSortedDictionary cmp ν) (key : κ) : Option ν := d.root.get cmp key

def contains (d : FTreeSortedDictionary cmp ν) (key : κ) : Bool := (d.get key).isSome

def insertKey (d : FTreeSortedDictionary cmp ν) (aKey : κ) (aValue : ν) : FTreeSortedDictionary cmp ν where
  root := (d.root.insertKey cmp aKey aValue).withColor .black
  balanced := by
    obtain ⟨n, hn⟩ := d.balanced
    exact hn.insertKey_root
  ascending := by
    rw [FLLRBNode.entries_withColor, FLLRBNode.entries_insertKey d.ascending]
    exact d.ascending.insert aKey aValue

/-- `removeKey:`; a key that is not there is not looked for a second time. -/
def removeKey (d : FTreeSortedDictionary cmp ν) (aKey : κ) : FTreeSortedDictionary cmp ν :=
  if d.contains aKey then
    { root := (d.root.remove cmp aKey).withColor .black
      balanced := by
        obtain ⟨n, hn⟩ := d.balanced
        exact (hn.remove_root d.ascending).1
      ascending := by
        obtain ⟨n, hn⟩ := d.balanced
        rw [FLLRBNode.entries_withColor, (hn.remove_root d.ascending).2]
        exact d.ascending.erase aKey }
  else d

/-- `fromDictionary:withComparator:`. -/
def fromDictionary (dictionary : List (κ × ν)) : Except DictionaryException (FTreeSortedDictionary cmp ν) :=
  let sortedKeyList := sortUsingComparator cmp dictionary
  if h : strictlyOrdered cmp sortedKeyList then
    .ok
      { root := FLLRBNode.rootFrom12List (.new sortedKeyList.length) sortedKeyList
        balanced := ⟨_, (FLLRBNode.rootFrom12List_spec sortedKeyList).1⟩
        ascending := by
          rw [(FLLRBNode.rootFrom12List_spec sortedKeyList).2]
          exact strictlyOrdered_iff.mp h }
  else .error .sameOrdering

theorem get_eq (d : FTreeSortedDictionary cmp ν) (key : κ) : d.get key = find cmp key d.root.entries :=
  FLLRBNode.get_eq_find d.ascending

theorem entries_insertKey (d : FTreeSortedDictionary cmp ν) (aKey : κ) (aValue : ν) :
    (d.insertKey aKey aValue).root.entries = insert cmp aKey aValue d.root.entries := by
  rw [insertKey, FLLRBNode.entries_withColor, FLLRBNode.entries_insertKey d.ascending]

theorem entries_removeKey (d : FTreeSortedDictionary cmp ν) (aKey : κ) :
    (d.removeKey aKey).root.entries = erase cmp aKey d.root.entries := by
  rw [removeKey]
  split_ifs with h
  · obtain ⟨n, hn⟩ := d.balanced
    rw [FLLRBNode.entries_withColor, (hn.remove_root d.ascending).2]
  · rw [contains, get_eq, Option.not_isSome_iff_eq_none, find_eq_none_iff] at h
    exact (erase_eq_self h).symm

variable (cmp) in
/-- The bulk construction makes the sorted entries into a tree, unless two keys have the same order. -/
theorem fromDictionary_eq (dictionary : List (κ × ν)) :
    (∃ d : FTreeSortedDictionary cmp ν, fromDictionary dictionary = .ok d ∧ Distinct cmp dictionary ∧
      d.root.entries = sortUsingComparator cmp dictionary) ∨
    (fromDictionary dictionary : Except _ (FTreeSortedDictionary cmp ν)) = .error .sameOrdering ∧
      ¬Distinct cmp dictionary := by
  rw [fromDictionary]
  split_ifs with h
  · exact .inl ⟨_, rfl, ascending_sortUsingComparator_iff.mp (strictlyOrdered_iff.mp h),
      (FLLRBNode.rootFrom12List_spec _).2⟩
  · rw [strictlyOrdered_iff, ascending_sortUsingComparator_iff] at h
    exact .inr ⟨rfl, h⟩

end FTreeSortedDictionary

/-! ## Array dictionaries -/

namespace FArraySortedDictionary

/-- The loop of `findInsertPositionForKey:`. -/
def findInsertPosition (cmp : κ → κ → Ordering) (key : κ) : List κ → Nat
  | [] => 0
  | k :: keys => if cmp k key = .lt then findInsertPosition cmp key keys + 1 else 0

/-- The loop of `findKey:`; `none` is `NSNotFound`. -/
def findKey (cmp : κ → κ → Ordering) (key : κ) : List κ → Option Nat
  | [] => none
  | k :: keys =>
    if cmp key k = .eq then some 0 else if cmp key k = .lt then none else (findKey cmp key keys).map (· + 1)

section
variable {cmp : κ → κ → Ordering} {key : κ} {value : ν} {m : List (κ × ν)} {pos : Nat}

theorem findKey_eq_some (h : findKey cmp key (m.map Prod.fst) = some pos) :
    ∃ l e r, m = l ++ e :: r ∧ pos = l.length ∧ cmp key e.1 = .eq := by
  induction m generalizing pos with
  | nil => simp [findKey] at h
  | cons x m ih =>
    rw [List.map_cons, findKey] at h
    split_ifs at h with heq hlt
    · cases h
      exact ⟨[], x, m, rfl, rfl, heq⟩
    · obtain ⟨pos', hpos', rfl⟩ := Option.map_eq_some_iff.mp h
      obtain ⟨l, e, r, rfl, rfl, he⟩ := ih hpos'
      exact ⟨x :: l, e, r, rfl, rfl, he⟩

theorem findKey_eq_none_iff [TransCmp cmp] (hs : Ascending cmp m) :
    findKey cmp key (m.map Prod.fst) = none ↔ find cmp key m = none := by
  induction m with
  | nil => simp [findKey, find]
  | cons x m ih =>
    rw [List.map_cons, findKey, find_cons]
    cases hc : cmp key x.1 with
    | lt =>
      -- the loop stops here, and the keys that follow come after this one
      have hb := (below_cons.mp (Ascending.below (l := []) hs hc)).2
      simp [hb.find_eq_none]
    | eq => simp
    | gt => simp [ih (List.Pairwise.of_cons hs)]

theorem findInsertPosition_split (cmp : κ → κ → Ordering) (key : κ) (m : List (κ × ν)) :
    ∃ l r, m = l ++ r ∧ findInsertPosition cmp key (m.map Prod.fst) = l.length ∧
      (∀ x ∈ l, cmp x.1 key = .lt) ∧ ∀ e ∈ r.head?, cmp e.1 key ≠ .lt := by
  induction m with
  | nil => exact ⟨[], [], rfl, rfl, by simp, by simp⟩
  | cons x m ih =>
    rw [List.map_cons, findInsertPosition]
    split_ifs with hlt
    · obtain ⟨l, r, rfl, hpos, hl, hr⟩ := ih
      exact ⟨x :: l, r, rfl, congrArg (· + 1) hpos, List.forall_mem_cons.mpr ⟨hlt, hl⟩, hr⟩
    · exact ⟨[], x :: m, rfl, rfl, by simp, by simpa using hlt⟩

theorem insertIdx_length_append {α : Type*} (l r : List α) (x : α) :
    (l ++ r).insertIdx l.length x = l ++ x :: r := by
  induction l with
  | nil => rfl
  | cons y l ih => simpa using ih

/-- The insertion of a new key at its position. -/
theorem insertIdx_findInsertPosition [TransCmp cmp] (hnone : find cmp key m = none) :
    m.insertIdx (findInsertPosition cmp key (m.map Prod.fst)) (key, value) = insert cmp key value m := by
  obtain ⟨l, r, rfl, hpos, hl, hr⟩ := findInsertPosition_split cmp key m
  have habove : Above cmp key l := fun x hx => OrientedCmp.gt_of_lt (hl x hx)
  rw [hpos, insert_append_of_above habove, insertIdx_length_append]
  cases r with
  | nil => rfl
  | cons e r =>
    rw [find_eq_none_iff] at hnone
    have hne : cmp key e.1 ≠ .eq := hnone e (by simp)
    have hlt : cmp key e.1 = .lt := by
      have hge := hr e rfl
      cases hc : cmp key e.1 with
      | lt => rfl
      | eq => exact absurd hc hne
      | gt => exact absurd (OrientedCmp.lt_of_gt hc) hge
    rw [SortedEntries.insert, if_pos hlt]

end

/-! ### The two arrays side by side -/

theorem zip_set (keys : List κ) (values : List ν) (i : Nat) (k : κ) (v : ν) :
    (keys.set i k).zip (values.set i v) = (keys.zip values).set i (k, v) := by
  induction keys generalizing values i with
  | nil => rfl
  | cons x keys ih =>
    rcases values with _ | ⟨y, values⟩
    · rw [List.set_nil, List.zip_nil_right, List.zip_nil_right, List.set_nil]
    · cases i with
      | zero => rfl
      | succ i => simp [ih]

theorem zip_eraseIdx (keys : List κ) (values : List ν) (i : Nat) :
    (keys.eraseIdx i).zip (values.eraseIdx i) = (keys.zip values).eraseIdx i := by
  induction keys generalizing values i with
  | nil => rfl
  | cons x keys ih =>
    rcases values with _ | ⟨y, values⟩
    · rw [List.eraseIdx_nil, List.zip_nil_right, List.zip_nil_right, List.eraseIdx_nil]
    · cases i with
      | zero => rfl
      | succ i => simp [ih]

theorem zip_insertIdx (keys : List κ) (values : List ν) (i : Nat) (k : κ) (v : ν)
    (h : values.length = keys.length) :
    (keys.insertIdx i k).zip (values.insertIdx i v) = (keys.zip values).insertIdx i (k, v) := by
  induction keys generalizing values i with
  | nil =>
    obtain rfl := List.length_eq_zero_iff.mp h
    cases i <;> rfl
  | cons x keys ih =>
    rcases values with _ | ⟨y, values⟩
    · simp at h
    · cases i with
      | zero => rfl
      | succ i => simpa using ih values i (by simpa using h)

variable {cmp : κ → κ → Ordering}

/-- The entries in the order of `enumerateKeysAndObjectsUsingBlock:`. -/
def entries (d : FArraySortedDictionary cmp ν) : List (κ × ν) := d.keys.zip d.values

theorem ascending_entries (d : FArraySortedDictionary cmp ν) : Ascending cmp d.entries := d.ascending

theorem map_fst_entries (d : FArraySortedDictionary cmp ν) : d.entries.map Prod.fst = d.keys :=
  List.map_fst_zip (Nat.le_of_eq d.length_eq.symm)

theorem length_entries (d : FArraySortedDictionary cmp ν) : d.entries.length = d.keys.length := by
  rw [← d.map_fst_entries, List.length_map]

theorem findKey_split (d : FArraySortedDictionary cmp ν) {key : κ} {pos : Nat}
    (h : findKey cmp key d.keys = some pos) :
    ∃ l e r, d.entries = l ++ e :: r ∧ pos = l.length ∧ cmp key e.1 = .eq := by
  rw [← d.map_fst_entries] at h
  exact findKey_eq_some h

/-! ### The operations -/

/-- `initWithComparator:`. -/
def initWithComparator : FArraySortedDictionary cmp ν := ⟨[], [], rfl, List.Pairwise.nil⟩

def count (d : FArraySortedDictionary cmp ν) : Nat := d.keys.length

/-- `get:`. -/
def get (d : FArraySortedDictionary cmp ν) (key : κ) : Option ν :=
  (findKey cmp key d.keys).bind fun pos => d.values[pos]?

variable [TransCmp cmp]

/-- `fromDictionary:withComparator:`. -/
def fromDictionary (dictionary : List (κ × ν)) : Except DictionaryException (FArraySortedDictionary cmp ν) :=
  let keys := sortUsingComparator cmp dictionary
  if h : strictlyOrdered cmp keys then
    .ok
      { keys := keys.map Prod.fst
        values := keys.map Prod.snd
        length_eq := by simp
        ascending := by
          rw [← List.zip_of_prod rfl rfl]
          exact strictlyOrdered_iff.mp h }
  else .error .sameOrdering

/-- The branch of `insertKey:withValue:` for a key that is there: its key object is replaced too. -/
def replaceAt (d : FArraySortedDictionary cmp ν) (key : κ) (value : ν) (pos : Nat)
    (h : findKey cmp key d.keys = some pos) : FArraySortedDictionary cmp ν where
  keys := d.keys.set pos key
  values := d.values.set pos value
  length_eq := by simp [d.length_eq]
  ascending := by
    obtain ⟨l, e, r, hsplit, rfl, hk⟩ := d.findKey_split h
    have hs := d.ascending_entries
    rw [zip_set, ← entries, hsplit]
    rw [hsplit] at hs
    simpa using hs.replace hk value

/-- The branch of `insertKey:withValue:` for a new key. -/
def insertNew (d : FArraySortedDictionary cmp ν) (key : κ) (value : ν)
    (h : findKey cmp key d.keys = none) : FArraySortedDictionary cmp ν where
  keys := d.keys.insertIdx (findInsertPosition cmp key d.keys) key
  values := d.values.insertIdx (findInsertPosition cmp key d.keys) value
  length_eq := by rw [List.length_insertIdx, List.length_insertIdx, d.length_eq]
  ascending := by
    rw [← d.map_fst_entries, findKey_eq_none_iff d.ascending_entries] at h
    rw [zip_insertIdx _ _ _ _ _ d.length_eq, ← entries, ← d.map_fst_entries,
      insertIdx_findInsertPosition h]
    exact d.ascending_entries.insert key value

/-- `removeKey:` for a key that is there. -/
def removeAt (d : FArraySortedDictionary cmp ν) (pos : Nat) : FArraySortedDictionary cmp ν where
  keys := d.keys.eraseIdx pos
  values := d.values.eraseIdx pos
  length_eq := by rw [List.length_eraseIdx, List.length_eraseIdx, d.length_eq]
  ascending := by
    rw [zip_eraseIdx]
    exact List.Pairwise.sublist (List.eraseIdx_sublist _ _) d.ascending

/-- `removeKey:`. -/
def removeKey (d : FArraySortedDictionary cmp ν) (key : κ) : FArraySortedDictionary cmp ν :=
  (findKey cmp key d.keys).elim d d.removeAt

theorem get_eq (d : FArraySortedDictionary cmp ν) (key : κ) : d.get key = find cmp key d.entries := by
  rw [get]
  cases h : findKey cmp key d.keys with
  | none =>
    rw [← d.map_fst_entries, findKey_eq_none_iff d.ascending_entries] at h
    rw [h]
    rfl
  | some pos =>
    obtain ⟨l, e, r, hsplit, rfl, hk⟩ := d.findKey_split h
    have hs := d.ascending_entries
    rw [hsplit] at hs
    have hvalues : d.values = d.entries.map Prod.snd := (List.map_snd_zip (Nat.le_of_eq d.length_eq)).symm
    rw [Option.bind_some, hvalues, hsplit, hs.find_of_eq hk]
    simp

theorem get_replaceAt (d : FArraySortedDictionary cmp ν) {key : κ} {pos : Nat}
    (h : findKey cmp key d.keys = some pos) (value : ν) (k : κ) :
    (d.replaceAt key value pos h).get k = if cmp k key = .eq then some value else d.get k := by
  have hentries : (d.replaceAt key value pos h).entries = d.entries.set pos (key, value) := zip_set ..
  obtain ⟨l, e, r, hsplit, rfl, hk⟩ := d.findKey_split h
  have hs := d.ascending_entries
  rw [hsplit] at hs
  rw [get_eq, get_eq, hentries, hsplit, ← find_replace hk hs]
  simp

theorem entries_insertNew (d : FArraySortedDictionary cmp ν) {key : κ}
    (h : findKey cmp key d.keys = none) (value : ν) :
    (d.insertNew key value h).entries = insert cmp key value d.entries := by
  have hnone := h
  rw [← d.map_fst_entries, findKey_eq_none_iff d.ascending_entries] at hnone
  rw [← insertIdx_findInsertPosition hnone, d.map_fst_entries]
  exact zip_insertIdx _ _ _ _ _ d.length_eq

theorem entries_removeKey (d : FArraySortedDictionary cmp ν) (key : κ) :
    (d.removeKey key).entries = erase cmp key d.entries := by
  rw [removeKey]
  cases h : findKey cmp key d.keys with
  | none =>
    rw [← d.map_fst_entries, findKey_eq_none_iff d.ascending_entries, find_eq_none_iff] at h
    exact (erase_eq_self h).symm
  | some pos =>
    have hentries : (d.removeAt pos).entries = d.entries.eraseIdx pos := zip_eraseIdx ..
    obtain ⟨l, e, r, hsplit, rfl, hk⟩ := d.findKey_split h
    have hs := d.ascending_entries
    rw [hsplit] at hs
    rw [Option.elim_some, hentries, hsplit, hs.erase_of_eq hk,
      List.eraseIdx_append_of_length_le (Nat.le_refl _), Nat.sub_self]
    rfl

variable (cmp) in
theorem fromDictionary_eq (dictionary : List (κ × ν)) :
    (∃ d : FArraySortedDictionary cmp ν, fromDictionary dictionary = .ok d ∧ Distinct cmp dictionary ∧
      d.entries = sortUsingComparator cmp dictionary) ∨
    (fromDictionary dictionary : Except _ (FArraySortedDictionary cmp ν)) = .error .sameOrdering ∧
      ¬Distinct cmp dictionary := by
  rw [fromDictionary]
  split_ifs with h
  · exact .inl ⟨_, rfl, ascending_sortUsingComparator_iff.mp (strictlyOrdered_iff.mp h),
      (List.zip_of_prod rfl rfl).symm⟩
  · rw [strictlyOrdered_iff, ascending_sortUsingComparator_iff] at h
    exact .inr ⟨rfl, h⟩

end FArraySortedDictionary

/-! ## The class cluster -/

/-- `dict[key] = value` on an `NSMutableDictionary`. -/
def setObject [DecidableEq κ] (dict : List (κ × ν)) (e : κ × ν) : List (κ × ν) :=
  if e.1 ∈ dict.map Prod.fst then dict.map fun x => if x.1 = e.1 then (x.1, e.2) else x else dict ++ [e]

theorem foldl_setObject [DecidableEq κ] {cmp : κ → κ → Ordering} [ReflCmp cmp] {d l : List (κ × ν)}
    (h : Distinct cmp (d ++ l)) : l.foldl setObject d = d ++ l := by
  induction l generalizing d with
  | nil => simp
  | cons e l ih =>
    have hnew : e.1 ∉ d.map Prod.fst := by
      intro hmem
      obtain ⟨x, hx, heq⟩ := List.mem_map.mp hmem
      have hne := (List.pairwise_append.mp h).2.2 x hx e List.mem_cons_self
      exact hne (by rw [heq]; exact ReflCmp.compare_self)
    rw [List.foldl_cons, setObject, if_neg hnew, ih (by simpa using h), List.append_assoc]
    rfl

namespace FImmutableSortedDictionary

variable {cmp : κ → κ → Ordering}

/-- `dictionaryWithComparator:`. -/
def dictionaryWithComparator : FImmutableSortedDictionary cmp ν := .array .initWithComparator

/-- The entries in the order of `enumerateKeysAndObjectsUsingBlock:`. -/
def entries : FImmutableSortedDictionary cmp ν → List (κ × ν)
  | array d => d.entries
  | tree d => d.root.entries

def count : FImmutableSortedDictionary cmp ν → Nat
  | array d => d.count
  | tree d => d.root.count

theorem ascending_entries (d : FImmutableSortedDictionary cmp ν) : Ascending cmp d.entries := by
  cases d with
  | array d => exact d.ascending_entries
  | tree d => exact d.ascending

theorem count_eq (d : FImmutableSortedDictionary cmp ν) : d.count = d.entries.length := by
  cases d with
  | array d => exact d.length_entries.symm
  | tree d => exact FLLRBNode.count_eq_length _

variable [TransCmp cmp]

def get (key : κ) : FImmutableSortedDictionary cmp ν → Option ν
  | array d => d.get key
  | tree d => d.get key

/-- `fromDictionary:withComparator:`. -/
def fromDictionary (dictionary : List (κ × ν)) :
    Except DictionaryException (FImmutableSortedDictionary cmp ν) :=
  if dictionary.length ≤ sortedDictionaryArrayToRBTreeSizeThreshold then
    (FArraySortedDictionary.fromDictionary dictionary).map array
  else (FTreeSortedDictionary.fromDictionary dictionary).map tree

/-- `insertKey:withValue:`; an array that is full becomes a tree. -/
def insertKey [DecidableEq κ] (key : κ) (value : ν) :
    FImmutableSortedDictionary cmp ν → Except DictionaryException (FImmutableSortedDictionary cmp ν)
  | array d =>
    if h : FArraySortedDictionary.findKey cmp key d.keys = none then
      if sortedDictionaryArrayToRBTreeSizeThreshold ≤ d.count then
        (FTreeSortedDictionary.fromDictionary (setObject (d.entries.foldl setObject []) (key, value))).map tree
      else .ok (.array (d.insertNew key value h))
    else
      .ok (.array (d.replaceAt key value _ (Option.some_get (Option.isSome_iff_ne_none.mpr h)).symm))
  | tree d => .ok (.tree (d.insertKey key value))

/-- `removeKey:`; a tree stays a tree. -/
def removeKey (key : κ) : FImmutableSortedDictionary cmp ν → FImmutableSortedDictionary cmp ν
  | array d => .array (d.removeKey key)
  | tree d => .tree (d.removeKey key)

theorem get_eq (d : FImmutableSortedDictionary cmp ν) (key : κ) : d.get key = find cmp key d.entries := by
  cases d with
  | array d => exact d.get_eq key
  | tree d => exact d.get_eq key

variable (cmp) in
/-- **The bulk construction** raises exactly when two keys have the same order; otherwise it holds the
entries of the dictionary in ascending order, in either representation. -/
theorem fromDictionary_eq (dictionary : List (κ × ν)) :
    (∃ d : FImmutableSortedDictionary cmp ν, fromDictionary dictionary = .ok d ∧ Distinct cmp dictionary ∧
      d.entries = sortUsingComparator cmp dictionary) ∨
    (fromDictionary dictionary : Except _ (FImmutableSortedDictionary cmp ν)) = .error .sameOrdering ∧
      ¬Distinct cmp dictionary := by
  rw [fromDictionary]
  split_ifs
  · rcases FArraySortedDictionary.fromDictionary_eq cmp dictionary with
      ⟨d, hd, hdistinct, hentries⟩ | ⟨hd, hdistinct⟩
    · exact .inl ⟨array d, by rw [hd]; rfl, hdistinct, hentries⟩
    · exact .inr ⟨by rw [hd]; rfl, hdistinct⟩
  · rcases FTreeSortedDictionary.fromDictionary_eq cmp dictionary with
      ⟨d, hd, hdistinct, hentries⟩ | ⟨hd, hdistinct⟩
    · exact .inl ⟨tree d, by rw [hd]; rfl, hdistinct, hentries⟩
    · exact .inr ⟨by rw [hd]; rfl, hdistinct⟩

/-- The dictionary that a full array is converted through has the new entry and the old ones, and no
two keys of the same order. -/
theorem setObject_entries [DecidableEq κ] (d : FArraySortedDictionary cmp ν) {key : κ} (value : ν)
    (h : find cmp key d.entries = none) :
    setObject (d.entries.foldl setObject []) (key, value) = d.entries ++ [(key, value)] ∧
      Distinct cmp (d.entries ++ [(key, value)]) := by
  have hd := d.ascending_entries.distinct
  have hdistinct : Distinct cmp (d.entries ++ [(key, value)]) := by
    refine List.pairwise_append.mpr ⟨hd, List.pairwise_singleton _ _, ?_⟩
    intro x hx y hy heq
    rw [List.mem_singleton.mp hy] at heq
    exact find_eq_none_iff.mp h x hx (OrientedCmp.eq_symm heq)
  refine ⟨?_, hdistinct⟩
  exact (List.foldl_concat setObject [] (key, value) d.entries).symm.trans (foldl_setObject (d := []) hdistinct)

/-- **Insertion never raises**, and writes one key. -/
theorem insertKey_spec [DecidableEq κ] (d : FImmutableSortedDictionary cmp ν) (key : κ) (value : ν) :
    ∃ d', d.insertKey key value = .ok d' ∧
      ∀ k, d'.get k = if cmp k key = .eq then some value else d.get k := by
  cases d with
  | tree d =>
    refine ⟨_, rfl, fun k => ?_⟩
    rw [get_eq, get_eq]
    exact (congrArg _ (d.entries_insertKey key value)).trans find_insert
  | array d =>
    rw [insertKey]
    split_ifs with h hfull
    · have hnone := h
      rw [← d.map_fst_entries, FArraySortedDictionary.findKey_eq_none_iff d.ascending_entries] at hnone
      obtain ⟨hdict, hdistinct⟩ := setObject_entries d value hnone
      rw [hdict]
      rcases FTreeSortedDictionary.fromDictionary_eq cmp (d.entries ++ [(key, value)]) with
        ⟨d', hd', -, hentries⟩ | ⟨-, hnot⟩
      · refine ⟨.tree d', by rw [hd']; rfl, fun k => ?_⟩
        rw [get_eq, get_eq]
        show find cmp k d'.root.entries = if cmp k key = .eq then some value else find cmp k d.entries
        rw [hentries, ← find_eq_of_perm hdistinct (sortUsingComparator_perm cmp _).symm, find_concat hnone]
      · exact absurd hdistinct hnot
    · refine ⟨_, rfl, fun k => ?_⟩
      rw [get_eq, get_eq]
      exact (congrArg _ (d.entries_insertNew h value)).trans find_insert
    · exact ⟨_, rfl, fun k => d.get_replaceAt _ value k⟩

theorem get_removeKey (d : FImmutableSortedDictionary cmp ν) (key k : κ) :
    (d.removeKey key).get k = if cmp k key = .eq then none else d.get k := by
  rw [get_eq, get_eq, ← find_erase]
  cases d with
  | array d => exact congrArg _ (d.entries_removeKey key)
  | tree d => exact congrArg _ (d.entries_removeKey key)

/-- The sorted dictionary of a dictionary exists exactly when no two keys have the same order, and finds
what the dictionary holds. -/
theorem get_fromDictionary {dictionary : List (κ × ν)} (h : Distinct cmp dictionary) :
    ∃ d : FImmutableSortedDictionary cmp ν, fromDictionary dictionary = .ok d ∧
      d.entries = sortUsingComparator cmp dictionary ∧ ∀ k, d.get k = find cmp k dictionary := by
  rcases fromDictionary_eq cmp dictionary with ⟨d, hd, -, hentries⟩ | ⟨-, hnot⟩
  · refine ⟨d, hd, hentries, fun k => ?_⟩
    rw [get_eq, hentries]
    exact (find_eq_of_perm h (sortUsingComparator_perm cmp dictionary).symm).symm
  · exact absurd h hnot

/-! ## Queries -/

def minKey : FImmutableSortedDictionary cmp ν → Option κ
  | array d => d.keys.head?
  | tree d => d.root.minKey

def maxKey : FImmutableSortedDictionary cmp ν → Option κ
  | array d => d.keys.getLast?
  | tree d => d.root.maxKey

def getPredecessorKey (key : κ) : FImmutableSortedDictionary cmp ν → Except DictionaryException (Option κ)
  | array d =>
    (FArraySortedDictionary.findKey cmp key d.keys).elim (.error .nonexistentKey) fun pos =>
      .ok (if pos = 0 then none else d.keys[pos - 1]?)
  | tree d => (d.root.getPredecessorKey cmp key).mapError fun _ => .nonexistentKey

/-- `enumerateKeysAndObjectsReverse:usingBlock:`; the block may ask to stop. -/
def enumerateKeysAndObjects {σ : Type*} (reverse : Bool) (block : κ → ν → σ → Bool × σ) (s : σ) :
    FImmutableSortedDictionary cmp ν → Bool × σ
  | array d => FLLRBNode.visit block (if reverse then d.entries.reverse else d.entries) s
  | tree d => if reverse then d.root.reverseTraversal block s else d.root.inorderTraversal block s

theorem predecessor_array (d : FArraySortedDictionary cmp ν) (key : κ) :
    (array d).getPredecessorKey key =
      if find cmp key d.entries = none then .error .nonexistentKey else .ok (keyBefore cmp key d.entries) := by
  rw [getPredecessorKey]
  cases h : FArraySortedDictionary.findKey cmp key d.keys with
  | none =>
    rw [← d.map_fst_entries, FArraySortedDictionary.findKey_eq_none_iff d.ascending_entries] at h
    rw [if_pos h]
    rfl
  | some pos =>
    obtain ⟨l, e, r, hsplit, rfl, hk⟩ := d.findKey_split h
    have hs := d.ascending_entries
    rw [hsplit] at hs
    rw [hsplit, hs.find_of_eq hk, if_neg (Option.some_ne_none _), hs.keyBefore_of_eq hk, Option.elim_some,
      ← d.map_fst_entries, hsplit, List.getLast?_eq_getElem?]
    rcases l with _ | ⟨x, l⟩
    · rfl
    · rw [if_neg (by simp), List.getElem?_map, List.getElem?_append_left (by simp)]

/-- **Every query answers what the entries say**, in either representation, and an enumeration that is
asked to stop has seen the same entries. -/
theorem queries_of_dictionary (d : FImmutableSortedDictionary cmp ν) (key : κ) :
    d.minKey = d.entries.head?.map Prod.fst ∧ d.maxKey = d.entries.getLast?.map Prod.fst ∧
    d.getPredecessorKey key =
      (if d.get key = none then .error .nonexistentKey else .ok (keyBefore cmp key d.entries)) ∧
    ∀ {σ : Type} (reverse : Bool) (block : κ → ν → σ → Bool × σ) (s : σ),
      d.enumerateKeysAndObjects reverse block s =
        FLLRBNode.visit block (if reverse then d.entries.reverse else d.entries) s := by
  rw [get_eq]
  cases d with
  | array d =>
    refine ⟨?_, ?_, predecessor_array d key, fun _ _ _ => rfl⟩
    · rw [minKey, ← d.map_fst_entries, List.head?_map]
      rfl
    · rw [maxKey, ← d.map_fst_entries, List.getLast?_map]
      rfl
  | tree d =>
    refine ⟨FLLRBNode.minKey_eq d.root, FLLRBNode.maxKey_eq d.root, ?_, fun reverse block s => ?_⟩
    · rw [getPredecessorKey, FLLRBNode.getPredecessorKey, FLLRBNode.predecessor_eq d.ascending, entries]
      split_ifs with h
      · rfl
      · rw [Option.or_none]
        rfl
    · cases reverse with
      | true => exact FLLRBNode.reverseTraversal_eq block d.root s
      | false => exact FLLRBNode.inorderTraversal_eq block d.root s

/-- A dictionary of two entries, in an array and in a tree. -/
theorem queries_of_dictionary_two :
    let a : FArraySortedDictionary (compare : Nat → Nat → Ordering) Nat := ⟨[1, 3], [10, 30], rfl, by decide⟩
    let t := ((FTreeSortedDictionary.initWithComparator : FTreeSortedDictionary compare Nat).insertKey 3 30).insertKey
      1 10
    (array a).getPredecessorKey 3 = .ok (some 1) ∧ (tree t).getPredecessorKey 3 = .ok (some 1) ∧
      (tree t).getPredecessorKey 2 = .error .nonexistentKey := by
  intro a t
  obtain ⟨-, -, ha, -⟩ := queries_of_dictionary (array a) 3
  obtain ⟨-, -, ht, -⟩ := queries_of_dictionary (tree t) 3
  obtain ⟨-, -, ht', -⟩ := queries_of_dictionary (tree t) 2
  rw [ha, ht, ht']
  decide +kernel

/-! ## Runs of edits -/

/-- One edit of a dictionary. -/
inductive Edit (κ ν : Type*) where
  | insertKey (key : κ) (value : ν)
  | removeKey (key : κ)
  deriving DecidableEq, Repr

def Edit.key : Edit κ ν → κ
  | insertKey key _ => key
  | removeKey key => key

/-- The value under the key of the edit, after it. -/
def Edit.value : Edit κ ν → Option ν
  | insertKey _ value => some value
  | removeKey _ => none

/-- The dictionary after an edit. -/
def edit [DecidableEq κ] (d : FImmutableSortedDictionary cmp ν) :
    Edit κ ν → Except DictionaryException (FImmutableSortedDictionary cmp ν)
  | .insertKey key value => d.insertKey key value
  | .removeKey key => .ok (d.removeKey key)

/-- What a list of edits says about a key: the value of the last edit of a key of the same order. -/
def valueAfter (cmp : κ → κ → Ordering) (edits : List (Edit κ ν)) (k : κ) : Option ν :=
  edits.foldl (fun value e => if cmp k e.key = .eq then e.value else value) none

/-- One edit succeeds and changes what is found under its key, and under no other. -/
theorem edit_spec [DecidableEq κ] (d : FImmutableSortedDictionary cmp ν) (e : Edit κ ν) :
    ∃ d', d.edit e = .ok d' ∧ ∀ k, d'.get k = if cmp k e.key = .eq then e.value else d.get k := by
  cases e with
  | insertKey key value => exact d.insertKey_spec key value
  | removeKey key => exact ⟨_, rfl, fun k => d.get_removeKey key k⟩

/-- A run of edits from any dictionary. -/
theorem foldlM_edit [DecidableEq κ] (edits : List (Edit κ ν)) (d : FImmutableSortedDictionary cmp ν) :
    ∃ d', edits.foldlM edit d = .ok d' ∧
      ∀ k, d'.get k = edits.foldl (fun value e => if cmp k e.key = .eq then e.value else value) (d.get k) := by
  induction edits generalizing d with
  | nil => exact ⟨d, rfl, fun _ => rfl⟩
  | cons e edits ih =>
    obtain ⟨d₁, h₁, hget₁⟩ := d.edit_spec e
    obtain ⟨d', h', hget'⟩ := ih d₁
    refine ⟨d', ?_, fun k => ?_⟩
    · rw [List.foldlM_cons, h₁]
      exact h'
    · rw [hget', hget₁, List.foldl_cons]

variable (cmp) in
/-- **Every run of edits** succeeds, through the conversion of the array into a tree and back to small
sizes, and the dictionary it leaves is the finite map that the edits describe: in ascending order,
with no other entries, and in a tree that passes its own checks. -/
theorem dictionary_of_edits [DecidableEq κ] (edits : List (Edit κ ν)) :
    ∃ d : FImmutableSortedDictionary cmp ν, edits.foldlM edit dictionaryWithComparator = .ok d ∧
      (∀ k, d.get k = valueAfter cmp edits k) ∧ Ascending cmp d.entries ∧ d.count = d.entries.length ∧
      (∀ k v, (∃ k', cmp k k' = .eq ∧ (k', v) ∈ d.entries) ↔ valueAfter cmp edits k = some v) ∧
      ∀ t, d = .tree t → (∃ n, t.root.check = .ok n) ∧ t.root.checkMaxDepth = .ok true := by
  obtain ⟨d, hd, hget⟩ := foldlM_edit edits (dictionaryWithComparator : FImmutableSortedDictionary cmp ν)
  refine ⟨d, hd, hget, d.ascending_entries, d.count_eq, fun k v => ?_, fun t _ => ?_⟩
  · rw [← find_eq_some_iff d.ascending_entries.distinct, ← d.get_eq]
    exact Eq.congr_left (hget k)
  · obtain ⟨n, hn⟩ := t.balanced
    exact ⟨⟨n, hn.check_eq⟩, hn.checkMaxDepth_eq⟩

/-- Thirty insertions, which the array does not hold, and a removal. -/
theorem dictionary_of_edits_thirty :
    ∃ d : FImmutableSortedDictionary (compare : Nat → Nat → Ordering) Nat,
      ((List.range 30).map (fun i => Edit.insertKey i (i + 1)) ++ [Edit.removeKey 7]).foldlM edit
        dictionaryWithComparator = .ok d ∧ d.get 7 = none ∧ d.get 8 = some 9 := by
  obtain ⟨d, hd, hget, -⟩ := dictionary_of_edits (compare : Nat → Nat → Ordering)
    ((List.range 30).map (fun i => Edit.insertKey i (i + 1)) ++ [Edit.removeKey 7])
  refine ⟨d, hd, ?_, ?_⟩
  · rw [hget]
    decide +kernel
  · rw [hget]
    decide +kernel

end FImmutableSortedDictionary

/-! ## Key enumerators -/

/-- A key enumerator: an `FArraySortedDictionaryEnumerator` or an enumerator of the platform over an
array of keys, or an `FTreeSortedDictionaryEnumerator`. -/
inductive KeyEnumerator (κ ν : Type*) where
  | array (keys : List κ) (pos : Int) (isReverse : Bool)
  | tree (stack : List (FLLRBNode κ ν)) (isReverse : Bool)

namespace KeyEnumerator

/-- `nextObject`. -/
def nextObject : KeyEnumerator κ ν → Option κ × KeyEnumerator κ ν
  | array keys pos isReverse =>
    if 0 ≤ pos ∧ pos < keys.length then
      (keys[pos.toNat]?, array keys (if isReverse then pos - 1 else pos + 1) isReverse)
    else (none, array keys pos isReverse)
  | tree stack isReverse =>
    let next := FLLRBNode.nextObject isReverse stack
    (next.1, tree next.2 isReverse)

/-- The answers of the first calls of `nextObject`. -/
def answers : Nat → KeyEnumerator κ ν → List (Option κ)
  | 0, _ => []
  | n + 1, enumerator => enumerator.nextObject.1 :: answers n enumerator.nextObject.2

/-- The first `n` answers of an enumerator that is to answer the keys of a list and then `nil`. -/
def inTurn (n : Nat) (keys : List κ) : List (Option κ) := (List.range n).map fun i => keys[i]?

theorem inTurn_succ (n : Nat) (keys : List κ) : inTurn (n + 1) keys = keys.head? :: inTurn n keys.tail := by
  rw [inTurn, List.range_succ_eq_map, List.map_cons, List.map_map, List.head?_eq_getElem?]
  refine congrArg _ (List.map_congr_left fun i _ => ?_)
  exact List.getElem?_tail.symm

theorem answers_array_forward (keys : List κ) (pos n : Nat) :
    (array keys pos false : KeyEnumerator κ ν).answers n = inTurn n (keys.drop pos) := by
  induction n generalizing pos with
  | zero => rfl
  | succ n ih =>
    rw [answers, inTurn_succ, List.tail_drop, List.head?_drop, nextObject]
    by_cases h : pos < keys.length
    · rw [if_pos (by omega), ← ih (pos + 1)]
      rfl
    · have hle : keys.length ≤ pos := Nat.le_of_not_lt h
      rw [if_neg (by omega), ih pos, List.getElem?_eq_none hle, List.drop_of_length_le hle,
        List.drop_of_length_le (by omega)]

theorem answers_array_reverse (keys : List κ) (pos : Nat) (hpos : pos ≤ keys.length) (n : Nat) :
    (array keys (pos - 1 : Int) true : KeyEnumerator κ ν).answers n = inTurn n (keys.take pos).reverse := by
  induction n generalizing pos with
  | zero => rfl
  | succ n ih =>
    rw [answers, inTurn_succ, nextObject]
    cases pos with
    | zero =>
      have hneg : ¬(0 ≤ ((0 : Nat) - 1 : Int) ∧ ((0 : Nat) - 1 : Int) < keys.length) := by omega
      rw [if_neg hneg]
      exact congrArg _ (ih 0 (Nat.zero_le _))
    | succ pos =>
      have hlt : pos < keys.length := hpos
      have hin : 0 ≤ ((pos + 1 : Nat) - 1 : Int) ∧ ((pos + 1 : Nat) - 1 : Int) < keys.length := by omega
      have hnat : ((pos + 1 : Nat) - 1 : Int) = pos := by omega
      have hrev : (keys.take (pos + 1)).reverse = keys[pos] :: (keys.take pos).reverse := by
        rw [List.take_add_one, List.getElem?_eq_getElem hlt]
        simp
      rw [if_pos hin, hnat, Int.toNat_natCast, hrev, List.getElem?_eq_getElem hlt]
      exact congrArg _ (ih pos (Nat.le_of_lt hlt))

theorem answers_tree {isReverse : Bool} {stack : List (FLLRBNode κ ν)} (h : ∀ n ∈ stack, n.isEmpty = false)
    (n : Nat) : (tree stack isReverse).answers n = inTurn n (FLLRBNode.pending isReverse stack) := by
  induction n generalizing stack with
  | zero => rfl
  | succ n ih =>
    obtain ⟨hhead, htail, hstack⟩ := FLLRBNode.nextObject_eq isReverse h
    rw [answers, inTurn_succ, nextObject, ih hstack, hhead, htail]

end KeyEnumerator

namespace FImmutableSortedDictionary

variable {cmp : κ → κ → Ordering}

def keyEnumerator : FImmutableSortedDictionary cmp ν → KeyEnumerator κ ν
  | array d => .array d.keys 0 false
  | tree d => .tree (d.root.initStack cmp none false []) false

def keyEnumeratorFrom (startKey : κ) : FImmutableSortedDictionary cmp ν → KeyEnumerator κ ν
  | array d => .array d.keys (FArraySortedDictionary.findInsertPosition cmp startKey d.keys) false
  | tree d => .tree (d.root.initStack cmp (some startKey) false []) false

def reverseKeyEnumerator : FImmutableSortedDictionary cmp ν → KeyEnumerator κ ν
  | array d => .array d.keys (d.keys.length - 1) true
  | tree d => .tree (d.root.initStack cmp none true []) true

/-- Without an exact match the position found is the one *after* the closest match. -/
def reverseKeyEnumeratorFrom (startKey : κ) : FImmutableSortedDictionary cmp ν → KeyEnumerator κ ν
  | array d =>
    let startPos := FArraySortedDictionary.findInsertPosition cmp startKey d.keys
    if d.keys[startPos]?.elim true fun k => decide (cmp k startKey ≠ .eq) then .array d.keys (startPos - 1) true
    else .array d.keys startPos true
  | tree d => .tree (d.root.initStack cmp (some startKey) true []) true

theorem answers_keyEnumerator (d : FImmutableSortedDictionary cmp ν) (n : Nat) :
    d.keyEnumerator.answers n = KeyEnumerator.inTurn n (d.entries.map Prod.fst) := by
  cases d with
  | array d =>
    rw [entries, d.map_fst_entries]
    exact KeyEnumerator.answers_array_forward d.keys 0 n
  | tree d =>
    rw [keyEnumerator, KeyEnumerator.answers_tree (FLLRBNode.isEmpty_of_mem_initStack cmp _ (by simp)),
      FLLRBNode.pending_initStack]
    simp [FLLRBNode.pending, entries]

section
variable [TransCmp cmp] {start : κ} {l r : List (κ × ν)}

/-- The keys from the insert position of a start key on. -/
theorem filter_ne_lt (hs : Ascending cmp (l ++ r)) (hl : ∀ x ∈ l, cmp x.1 start = .lt)
    (hr : ∀ e ∈ r.head?, cmp e.1 start ≠ .lt) : ((l ++ r).filter fun e => cmp e.1 start != .lt) = r := by
  have hl' : (l.filter fun e => cmp e.1 start != .lt) = [] :=
    List.filter_eq_nil_iff.mpr fun x hx => by simp [hl x hx]
  rw [List.filter_append, hl', List.nil_append, List.filter_eq_self]
  cases r with
  | nil => simp
  | cons e r =>
    have he := hr e rfl
    refine List.forall_mem_cons.mpr ⟨by simpa using he, fun x hx => ?_⟩
    simp [hs.gt_of_mem_right_of_ge he hx]

/-- The keys up to the insert position of a start key, and the start key itself if it is there. -/
theorem filter_ne_gt (hs : Ascending cmp (l ++ r)) (hl : ∀ x ∈ l, cmp x.1 start = .lt)
    (hr : ∀ e ∈ r.head?, cmp e.1 start ≠ .lt) :
    ((l ++ r).filter fun e => cmp e.1 start != .gt) =
      l ++ (r.take 1).filter fun e => cmp e.1 start == .eq := by
  have hl' : (l.filter fun e => cmp e.1 start != .gt) = l :=
    List.filter_eq_self.mpr fun x hx => by simp [hl x hx]
  rw [List.filter_append, hl']
  cases r with
  | nil => rfl
  | cons e r =>
    have he := hr e rfl
    have hr' : (r.filter fun e => cmp e.1 start != .gt) = [] :=
      List.filter_eq_nil_iff.mpr fun x hx => by simp [hs.gt_of_mem_right_of_ge he hx]
    cases hc : cmp e.1 start with
    | lt => exact absurd hc he
    | eq => simp [hc, hr']
    | gt => simp [hc, hr']

theorem answers_array_from (d : FArraySortedDictionary cmp ν) (start : κ) (n : Nat) :
    ((array d).keyEnumeratorFrom start).answers n =
      KeyEnumerator.inTurn n ((d.entries.filter fun e => cmp e.1 start != .lt).map Prod.fst) := by
  obtain ⟨l, r, hsplit, hpos, hl, hr⟩ := FArraySortedDictionary.findInsertPosition_split cmp start d.entries
  have hs := d.ascending_entries
  rw [hsplit] at hs
  rw [keyEnumeratorFrom, KeyEnumerator.answers_array_forward, ← d.map_fst_entries, hpos, hsplit,
    filter_ne_lt hs hl hr, ← List.map_drop, List.drop_left]

theorem answers_array_reverse_from (d : FArraySortedDictionary cmp ν) (start : κ) (n : Nat) :
    ((array d).reverseKeyEnumeratorFrom start).answers n =
      KeyEnumerator.inTurn n ((d.entries.filter fun e => cmp e.1 start != .gt).map Prod.fst).reverse := by
  obtain ⟨l, r, hsplit, hpos, hl, hr⟩ := FArraySortedDictionary.findInsertPosition_split cmp start d.entries
  have hs := d.ascending_entries
  rw [hsplit] at hs
  have hlen : d.keys.length = l.length + r.length := by
    rw [← d.length_entries, hsplit, List.length_append]
  have htake (i : Nat) : d.keys.take (l.length + i) = (l ++ r.take i).map Prod.fst := by
    rw [← d.map_fst_entries, hsplit, ← List.map_take, List.take_length_add_append]
  have hget : d.keys[l.length]? = r.head?.map Prod.fst := by
    rw [← d.map_fst_entries, hsplit, List.getElem?_map, List.getElem?_append_right (Nat.le_refl _),
      Nat.sub_self, List.head?_eq_getElem?]
  rw [d.map_fst_entries] at hpos
  rw [reverseKeyEnumeratorFrom, hsplit, filter_ne_gt hs hl hr, hpos, hget]
  cases r with
  | nil =>
    have hanswers := KeyEnumerator.answers_array_reverse (ν := ν) d.keys l.length (by simp [hlen]) n
    rw [← Nat.add_zero l.length, htake] at hanswers
    simpa using hanswers
  | cons e r =>
    by_cases hc : cmp e.1 start = .eq
    · have hanswers := KeyEnumerator.answers_array_reverse (ν := ν) d.keys (l.length + 1) (by simp [hlen]) n
      rw [htake] at hanswers
      simpa [hc] using hanswers
    · have hanswers := KeyEnumerator.answers_array_reverse (ν := ν) d.keys l.length (by simp [hlen]) n
      rw [← Nat.add_zero l.length, htake] at hanswers
      simpa [hc] using hanswers

/-- **What every call of a key enumerator answers**, in either representation: all keys, the keys from
a start key on, and the keys down from a start key.  An enumerator over all keys in reverse answers
them only for an array; for a tree it answers nothing. -/
theorem enumerators_of_dictionary (d : FImmutableSortedDictionary cmp ν) (start : κ) (n : Nat) :
    d.keyEnumerator.answers n = KeyEnumerator.inTurn n (d.entries.map Prod.fst) ∧
    (d.keyEnumeratorFrom start).answers n =
      KeyEnumerator.inTurn n ((d.entries.filter fun e => cmp e.1 start != .lt).map Prod.fst) ∧
    (d.reverseKeyEnumeratorFrom start).answers n =
      KeyEnumerator.inTurn n ((d.entries.filter fun e => cmp e.1 start != .gt).map Prod.fst).reverse ∧
    (∀ a, d = .array a → d.reverseKeyEnumerator.answers n =
      KeyEnumerator.inTurn n (d.entries.map Prod.fst).reverse) ∧
    (∀ t, d = .tree t → d.reverseKeyEnumerator.answers n = List.replicate n none) := by
  refine ⟨d.answers_keyEnumerator n, ?_⟩
  cases d with
  | array d =>
    refine ⟨answers_array_from d start n, answers_array_reverse_from d start n, fun _ _ => ?_, by simp⟩
    · rw [entries, d.map_fst_entries, reverseKeyEnumerator,
        KeyEnumerator.answers_array_reverse d.keys _ (Nat.le_refl _), List.take_length]
  | tree d =>
    have hempty : ∀ n ∈ ([] : List (FLLRBNode κ ν)), n.isEmpty = false := by simp
    refine ⟨?_, ?_, by simp, fun _ _ => ?_⟩
    · rw [keyEnumeratorFrom, KeyEnumerator.answers_tree (FLLRBNode.isEmpty_of_mem_initStack cmp _ hempty),
        FLLRBNode.pending_initStack_from d.ascending]
      simp [FLLRBNode.pending, entries]
    · rw [reverseKeyEnumeratorFrom, KeyEnumerator.answers_tree (FLLRBNode.isEmpty_of_mem_initStack cmp _ hempty),
        FLLRBNode.pending_initStack_reverse_from d.ascending]
      simp [FLLRBNode.pending, entries]
    · rw [reverseKeyEnumerator, FLLRBNode.initStack_reverse, KeyEnumerator.answers_tree hempty]
      simp [FLLRBNode.pending, KeyEnumerator.inTurn]

/-- The enumerators of a dictionary of two entries, in an array and in a tree. -/
theorem enumerators_of_dictionary_two :
    let a : FArraySortedDictionary (compare : Nat → Nat → Ordering) Nat := ⟨[1, 3], [10, 30], rfl, by decide⟩
    let t := ((FTreeSortedDictionary.initWithComparator : FTreeSortedDictionary compare Nat).insertKey 3 30).insertKey
      1 10
    ((array a).keyEnumeratorFrom 2).answers 2 = [some 3, none] ∧
      (array a).reverseKeyEnumerator.answers 3 = [some 3, some 1, none] ∧
      ((tree t).reverseKeyEnumeratorFrom 4).answers 3 = [some 3, some 1, none] ∧
      (tree t).reverseKeyEnumerator.answers 3 = [none, none, none] := by
  intro a t
  obtain ⟨-, hfrom, -⟩ := enumerators_of_dictionary (array a) 2 2
  obtain ⟨-, -, -, hall, -⟩ := enumerators_of_dictionary (array a) 2 3
  obtain ⟨-, -, hdown, -, hnone⟩ := enumerators_of_dictionary (tree t) 4 3
  rw [hfrom, hall a rfl, hdown, hnone t rfl]
  decide +kernel

end

end FImmutableSortedDictionary

end ChatApplication
