import ChatApplication.Firebase.SortedTree
import Mathlib.Data.Nat.Log
import Mathlib.Data.List.TakeDrop

/-!
# Queries, enumerators and the bulk construction of the tree dictionary

Model of the rest of `FTreeSortedDictionary`, of `FTreeSortedDictionaryEnumerator` and of the tree
builder.  A query walks down from the root; an enumerator keeps a stack of nodes whose own key and
one side are still to come; the builder cuts a sorted array into pennants, one or two for each digit
of the 1-2 number of its length, from the end of the array to its front.

* `get_eq_find`, `predecessor_eq` — the walks answer what the list of entries says.
* `nextObject_eq`, `pending_initStack_from`, `pending_initStack_reverse_from` — the calls of an
  enumerator answer the keys from the start key on, in either direction.
* `initStack_reverse` — an enumerator in reverse *without* a start key answers nothing at all.
* `rootFrom12List_spec` — the builder makes a balanced tree of exactly the entries of the array, for
  every length.
-/

namespace ChatApplication

namespace FLLRBNode

open FLLRBColor SortedEntries Std

variable {κ ν : Type*} (cmp : κ → κ → Ordering)

/-! ## Walks -/

/-- `get:`. -/
def get (key : κ) : FLLRBNode κ ν → Option ν
  | emptyNode => none
  | valueNode k v _ l r =>
    if cmp key k = .eq then some v else if cmp key k = .lt then l.get key else r.get key

def maxKey : FLLRBNode κ ν → Option κ
  | emptyNode => none
  | valueNode k _ _ _ r => if r.isEmpty then some k else r.maxKey

def minKey (t : FLLRBNode κ ν) : Option κ :=
  match t.min with
  | emptyNode => none
  | valueNode k _ _ _ _ => some k

/-- `getPredecessorKey:` from a node on; `rightParent` is the key of the last node left to the right.
The exception is `NonexistentKey`. -/
def predecessor (key : κ) : FLLRBNode κ ν → Option κ → Except Unit (Option κ)
  | emptyNode, _ => .error ()
  | valueNode k _ _ l r, rightParent =>
    if cmp key k = .eq then .ok (if l.isEmpty then rightParent else l.maxKey)
    else if cmp key k = .lt then l.predecessor key rightParent
    else r.predecessor key (some k)

def getPredecessorKey (key : κ) (t : FLLRBNode κ ν) : Except Unit (Option κ) := t.predecessor cmp key none

section
variable {cmp} [TransCmp cmp] {key : κ} {t : FLLRBNode κ ν}

theorem get_eq_find (hs : Ascending cmp t.entries) : t.get cmp key = find cmp key t.entries := by
  induction t with
  | emptyNode => rfl
  | valueNode k v c l r ihl ihr =>
    have hs' : Ascending cmp (l.entries ++ (k, v) :: r.entries) := hs
    rw [get, entries]
    cases hc : cmp key k with
    | lt => rw [if_neg (by decide), if_pos rfl, ihl hs'.left, hs'.find_of_lt hc]
    | eq => rw [if_pos rfl, hs'.find_of_eq hc]
    | gt =>
      rw [if_neg (by decide), if_neg (by decide), ihr (List.Pairwise.of_cons hs'.right), hs'.find_of_gt hc]

theorem maxKey_eq (t : FLLRBNode κ ν) : t.maxKey = t.entries.getLast?.map Prod.fst := by
  induction t with
  | emptyNode => rfl
  | valueNode k v c l r ihl ihr =>
    rw [maxKey, ihr, entries]
    cases r with
    | emptyNode => simp [entries]
    | valueNode rk rv rc rl rr => simp [entries, List.getLast?_cons, List.getLast?_append]

theorem minKey_eq (t : FLLRBNode κ ν) : t.minKey = t.entries.head?.map Prod.fst := by
  cases h : t.isEmpty with
  | true =>
    cases t with
    | emptyNode => rfl
    | valueNode k v c l r => simp at h
  | false =>
    obtain ⟨k, v, c, l, r, rest, hmin, hentries⟩ := min_eq_valueNode h
    rw [minKey, hmin, hentries]
    rfl

/-- The walk for the predecessor answers the key just before the key, and fails for a key that is not
there. -/
theorem predecessor_eq (hs : Ascending cmp t.entries) (parent : Option κ) :
    t.predecessor cmp key parent =
      if find cmp key t.entries = none then .error () else .ok ((keyBefore cmp key t.entries).or parent) := by
  induction t generalizing parent with
  | emptyNode => rfl
  | valueNode k v c l r ihl ihr =>
    have hs' : Ascending cmp (l.entries ++ (k, v) :: r.entries) := hs
    rw [predecessor, entries]
    cases hc : cmp key k with
    | lt =>
      rw [if_neg (by decide), if_pos rfl, ihl hs'.left, hs'.find_of_lt hc, hs'.keyBefore_of_lt hc]
    | eq =>
      rw [if_pos rfl, hs'.find_of_eq hc, if_neg (Option.some_ne_none _), hs'.keyBefore_of_eq hc, ← maxKey_eq]
      cases l with
      | emptyNode => rfl
      | valueNode lk lv lc ll lr =>
        rw [if_neg (by simp), maxKey_eq, entries]
        simp [List.getLast?_append, List.getLast?_cons]
    | gt =>
      rw [if_neg (by decide), if_neg (by decide), ihr (List.Pairwise.of_cons hs'.right),
        hs'.find_of_gt hc, hs'.keyBefore_of_gt hc, Option.or_assoc, Option.some_or]

end

/-! ## Traversals

`action` may ask to stop; the answer says whether it has. -/

section
variable {σ : Type*} (action : κ → ν → σ → Bool × σ)

def inorderTraversal : FLLRBNode κ ν → σ → Bool × σ
  | emptyNode, s => (false, s)
  | valueNode k v _ l r, s =>
    let before := l.inorderTraversal s
    if before.1 then before
    else
      let here := action k v before.2
      if here.1 then here else r.inorderTraversal here.2

def reverseTraversal : FLLRBNode κ ν → σ → Bool × σ
  | emptyNode, s => (false, s)
  | valueNode k v _ l r, s =>
    let before := r.reverseTraversal s
    if before.1 then before
    else
      let here := action k v before.2
      if here.1 then here else l.reverseTraversal here.2

/-- The loop over a list of entries that stops when it is asked to. -/
def visit : List (κ × ν) → σ → Bool × σ
  | [], s => (false, s)
  | e :: l, s => if (action e.1 e.2 s).1 then action e.1 e.2 s else visit l (action e.1 e.2 s).2

theorem visit_append (l m : List (κ × ν)) (s : σ) :
    visit action (l ++ m) s =
      if (visit action l s).1 then visit action l s else visit action m (visit action l s).2 := by
  induction l generalizing s with
  | nil => simp [visit]
  | cons e l ih =>
    by_cases h : (action e.1 e.2 s).1 = true
    · simp [visit, h]
    · simp [visit, h, ih]

theorem inorderTraversal_eq (t : FLLRBNode κ ν) (s : σ) :
    t.inorderTraversal action s = visit action t.entries s := by
  induction t generalizing s with
  | emptyNode => rfl
  | valueNode k v c l r ihl ihr => simp [inorderTraversal, entries, visit_append, visit, ihl, ihr]

theorem reverseTraversal_eq (t : FLLRBNode κ ν) (s : σ) :
    t.reverseTraversal action s = visit action t.entries.reverse s := by
  induction t generalizing s with
  | emptyNode => rfl
  | valueNode k v c l r ihl ihr => simp [reverseTraversal, entries, visit_append, visit, ihl, ihr]

end

/-! ## Enumerators -/

/-- `initWithImmutableSortedDictionary:startKey:isReverse:`; the end of the array of the source is the
head of the list here. -/
def initStack (startKey : Option κ) (isReverse : Bool) :
    FLLRBNode κ ν → List (FLLRBNode κ ν) → List (FLLRBNode κ ν)
  | emptyNode, stack => stack
  | valueNode k v c l r, stack =>
    let order := startKey.elim .gt (cmp k)
    let order := if isReverse then order.swap else order
    if order = .lt then
      if isReverse then l.initStack startKey isReverse stack else r.initStack startKey isReverse stack
    else if order = .eq then valueNode k v c l r :: stack
    else if isReverse then r.initStack startKey isReverse (valueNode k v c l r :: stack)
    else l.initStack startKey isReverse (valueNode k v c l r :: stack)

/-- The inner loop of `nextObject`. -/
def pushSpine (isReverse : Bool) : FLLRBNode κ ν → List (FLLRBNode κ ν) → List (FLLRBNode κ ν)
  | emptyNode, stack => stack
  | valueNode k v c l r, stack =>
    if isReverse then r.pushSpine isReverse (valueNode k v c l r :: stack)
    else l.pushSpine isReverse (valueNode k v c l r :: stack)

/-- `nextObject`: the key it answers, if any, and the stack it leaves. -/
def nextObject (isReverse : Bool) : List (FLLRBNode κ ν) → Option κ × List (FLLRBNode κ ν)
  | [] => (none, [])
  | emptyNode :: stack => (none, stack)
  | valueNode k _ _ l r :: stack => (some k, (if isReverse then l else r).pushSpine isReverse stack)

/-- The keys of a tree in the direction of an enumerator. -/
def keysIn (isReverse : Bool) (t : FLLRBNode κ ν) : List κ :=
  if isReverse then (t.entries.map Prod.fst).reverse else t.entries.map Prod.fst

/-- The keys that an enumerator has still to answer. -/
def pending (isReverse : Bool) : List (FLLRBNode κ ν) → List κ
  | [] => []
  | emptyNode :: stack => pending isReverse stack
  | valueNode k _ _ l r :: stack => k :: keysIn isReverse (if isReverse then l else r) ++ pending isReverse stack

section
variable (isReverse : Bool) {t : FLLRBNode κ ν} {stack : List (FLLRBNode κ ν)}

theorem pending_pushSpine (t : FLLRBNode κ ν) (stack : List (FLLRBNode κ ν)) :
    pending isReverse (t.pushSpine isReverse stack) = keysIn isReverse t ++ pending isReverse stack := by
  induction t generalizing stack with
  | emptyNode => cases isReverse <;> rfl
  | valueNode k v c l r ihl ihr =>
    cases isReverse with
    | true => simp [pushSpine, ihr, pending, keysIn, entries]
    | false => simp [pushSpine, ihl, pending, keysIn, entries]

theorem isEmpty_of_mem_pushSpine (h : ∀ n ∈ stack, n.isEmpty = false) :
    ∀ n ∈ t.pushSpine isReverse stack, n.isEmpty = false := by
  induction t generalizing stack with
  | emptyNode => exact h
  | valueNode k v c l r ihl ihr =>
    have h' : ∀ n ∈ valueNode k v c l r :: stack, n.isEmpty = false := List.forall_mem_cons.mpr ⟨rfl, h⟩
    rw [pushSpine]
    split_ifs
    · exact ihr h'
    · exact ihl h'

/-- **One call of `nextObject`** answers the first key that is still to come and leaves the others. -/
theorem nextObject_eq (h : ∀ n ∈ stack, n.isEmpty = false) :
    (nextObject isReverse stack).1 = (pending isReverse stack).head? ∧
      pending isReverse (nextObject isReverse stack).2 = (pending isReverse stack).tail ∧
      ∀ n ∈ (nextObject isReverse stack).2, n.isEmpty = false := by
  rcases stack with _ | ⟨_ | ⟨k, v, c, l, r⟩, stack⟩
  · exact ⟨rfl, rfl, h⟩
  · simp at h
  · refine ⟨rfl, ?_, isEmpty_of_mem_pushSpine isReverse (List.forall_mem_cons.mp h).2⟩
    rw [nextObject, pending_pushSpine, pending]
    rfl

theorem isEmpty_of_mem_initStack {startKey : Option κ} (h : ∀ n ∈ stack, n.isEmpty = false) :
    ∀ n ∈ t.initStack cmp startKey isReverse stack, n.isEmpty = false := by
  induction t generalizing stack with
  | emptyNode => exact h
  | valueNode k v c l r ihl ihr =>
    have h' : ∀ n ∈ valueNode k v c l r :: stack, n.isEmpty = false := List.forall_mem_cons.mpr ⟨rfl, h⟩
    simp only [initStack]
    generalize (if isReverse = true then _ else _ : Ordering) = order
    split_ifs
    · exact ihl h
    · exact ihr h
    · exact h'
    · exact ihr h'
    · exact ihl h'

/-- Without a start key an enumerator answers all keys in ascending order … -/
theorem pending_initStack : pending false (t.initStack cmp none false stack) =
    t.entries.map Prod.fst ++ pending false stack := by
  induction t generalizing stack with
  | emptyNode => rfl
  | valueNode k v c l r ihl ihr => simp [initStack, ihl, pending, keysIn, entries]

/-- … but in reverse it answers none: the comparison that stands for *after the start key* is flipped
like a real one, so every node counts as one to leave out. -/
theorem initStack_reverse : t.initStack cmp none true stack = stack := by
  induction t with
  | emptyNode => rfl
  | valueNode k v c l r ihl ihr => simpa [initStack] using ihl

variable {cmp} [TransCmp cmp] {start : κ}

/-- From a start key on, an enumerator answers the keys that do not come before it … -/
theorem pending_initStack_from (hs : Ascending cmp t.entries) :
    pending false (t.initStack cmp (some start) false stack) =
      (t.entries.filter fun e => cmp e.1 start != .lt).map Prod.fst ++ pending false stack := by
  induction t generalizing stack with
  | emptyNode => rfl
  | valueNode k v c l r ihl ihr =>
    have hs' : Ascending cmp (l.entries ++ (k, v) :: r.entries) := hs
    have hl (hc : cmp k start ≠ .gt) : (l.entries.filter fun e => cmp e.1 start != .lt) = [] :=
      List.filter_eq_nil_iff.mpr fun x hx => by simp [hs'.lt_of_mem_left_of_le hc hx]
    have hr (hc : cmp k start ≠ .lt) : (r.entries.filter fun e => cmp e.1 start != .lt) = r.entries :=
      List.filter_eq_self.mpr fun x hx => by simp [hs'.gt_of_mem_right_of_ge hc hx]
    simp only [initStack, Option.elim_some, Bool.false_eq_true, if_false, entries, List.filter_append]
    cases hc : cmp k start with
    | lt =>
      rw [if_pos rfl, ihr (List.Pairwise.of_cons hs'.right), hl (by simp [hc]),
        List.filter_cons_of_neg (by simp [hc])]
      rfl
    | eq =>
      rw [if_neg (by decide), if_pos rfl, hl (by simp [hc]), List.filter_cons_of_pos (by simp [hc]),
        hr (by simp [hc])]
      simp [pending, keysIn]
    | gt =>
      rw [if_neg (by decide), if_neg (by decide), ihl hs'.left, List.filter_cons_of_pos (by simp [hc]),
        hr (by simp [hc])]
      simp [pending, keysIn]

/-- … and in reverse the keys that do not come after it. -/
theorem pending_initStack_reverse_from (hs : Ascending cmp t.entries) :
    pending true (t.initStack cmp (some start) true stack) =
      ((t.entries.filter fun e => cmp e.1 start != .gt).map Prod.fst).reverse ++ pending true stack := by
  induction t generalizing stack with
  | emptyNode => rfl
  | valueNode k v c l r ihl ihr =>
    have hs' : Ascending cmp (l.entries ++ (k, v) :: r.entries) := hs
    have hl (hc : cmp k start ≠ .gt) : (l.entries.filter fun e => cmp e.1 start != .gt) = l.entries :=
      List.filter_eq_self.mpr fun x hx => by simp [hs'.lt_of_mem_left_of_le hc hx]
    have hr (hc : cmp k start ≠ .lt) : (r.entries.filter fun e => cmp e.1 start != .gt) = [] :=
      List.filter_eq_nil_iff.mpr fun x hx => by simp [hs'.gt_of_mem_right_of_ge hc hx]
    simp only [initStack, Option.elim_some, if_true, entries, List.filter_append]
    cases hc : cmp k start with
    | lt =>
      rw [if_neg (by decide), if_neg (by decide), ihr (List.Pairwise.of_cons hs'.right), hl (by simp [hc]),
        List.filter_cons_of_pos (by simp [hc])]
      simp [pending, keysIn]
    | eq =>
      rw [if_neg (by decide), if_pos (by decide), hl (by simp [hc]), List.filter_cons_of_pos (by simp [hc]),
        hr (by simp [hc])]
      simp [pending, keysIn]
    | gt =>
      rw [if_pos (by decide), ihl hs'.left, List.filter_cons_of_neg (by simp [hc]), hr (by simp [hc])]
      simp

end

/-! ## The bulk construction -/

section
variable (keys : List (κ × ν))

/-- `buildBalancedTree:dictionary:subArrayStartIndex:length:`; a key stands with its value. -/
def buildBalancedTree (startIndex length : Nat) : FLLRBNode κ ν :=
  if h : Nat.min (keys.length - startIndex) length = 0 then emptyNode
  else
    let length' := Nat.min (keys.length - startIndex) length
    have hi : startIndex + length' / 2 < keys.length := by grind
    let e := keys[startIndex + length' / 2]
    if length' = 1 then valueNode e.1 e.2 black emptyNode emptyNode
    else
      valueNode e.1 e.2 black (buildBalancedTree startIndex (length' / 2))
        (buildBalancedTree (startIndex + length' / 2 + 1) (length' / 2))
termination_by length
decreasing_by all_goals grind

end

/-- `Base1_2List`: a binary number and how many of its digits count. -/
structure Base12List where
  bits : Nat
  count : Nat
  deriving DecidableEq, Repr

/-- `base1_2List_new`: the digits of `length + 1` below the first one.  `log_base2` is the logarithm
rounded down, as the floating-point quotient of the source is for every 32-bit number. -/
def Base12List.new (length : Nat) : Base12List :=
  let count := Nat.log2 (length + 1)
  ⟨(length + 1) &&& (2 ^ count - 1), count⟩

/-- The calls of `buildPennant` for the lowest digits: one pennant for a digit 1, two for a digit 2. -/
def pennants (bits : Nat) : Nat → List (FLLRBColor × Nat)
  | 0 => []
  | i + 1 =>
    if bits.testBit i then (black, 2 ^ i) :: (red, 2 ^ i) :: pennants bits i
    else (black, 2 ^ i) :: pennants bits i

/-- The pennants from `index` downwards, each the left child of the one before. -/
def attachPennants (keys : List (κ × ν)) : Nat → List (FLLRBColor × Nat) → FLLRBNode κ ν
  | _, [] => emptyNode
  | index, (color, chunkSize) :: rest =>
    keys[index - chunkSize]?.elim emptyNode fun e =>
      valueNode e.1 e.2 color (attachPennants keys (index - chunkSize) rest)
        (buildBalancedTree keys (index - chunkSize + 1) (chunkSize - 1))

/-- `rootFrom12List:keyList:dictionary:`. -/
def rootFrom12List (base : Base12List) (keys : List (κ × ν)) : FLLRBNode κ ν :=
  attachPennants keys keys.length (pennants base.bits base.count)

section
variable {keys : List (κ × ν)}

/-- The part of a list from one index on, of a given length. -/
theorem take_append_take_drop {l : List (κ × ν)} {i : Nat} (hi : i < l.length) (n : Nat) :
    l.take i ++ l[i] :: (l.drop (i + 1)).take n = l.take (i + 1 + n) := by
  rw [List.take_add, List.take_add_one, List.getElem?_eq_getElem hi, Option.toList_some, List.append_assoc]
  rfl

theorem buildBalancedTree_zero (start : Nat) : buildBalancedTree keys start 0 = emptyNode := by
  rw [buildBalancedTree]
  simp

theorem buildBalancedTree_eq {start length : Nat} (hpos : 0 < length) (hle : start + length ≤ keys.length) :
    buildBalancedTree keys start length =
      valueNode (keys[start + length / 2]).1 (keys[start + length / 2]).2 black
        (buildBalancedTree keys start (length / 2))
        (buildBalancedTree keys (start + length / 2 + 1) (length / 2)) := by
  have hmin : Nat.min (keys.length - start) length = length := Nat.min_eq_right (by omega)
  rw [buildBalancedTree, dif_neg (by omega)]
  simp only [hmin]
  split_ifs with h
  · subst h
    simp [buildBalancedTree_zero]
  · rfl

/-- A full tree of the entries from an index on. -/
theorem buildBalancedTree_spec (i start : Nat) (hle : start + (2 ^ i - 1) ≤ keys.length) :
    Balanced i (buildBalancedTree keys start (2 ^ i - 1)) ∧
      (buildBalancedTree keys start (2 ^ i - 1)).entries = (keys.drop start).take (2 ^ i - 1) := by
  induction i generalizing start with
  | zero =>
    rw [Nat.pow_zero, Nat.sub_self, buildBalancedTree_zero]
    exact ⟨.emptyNode, rfl⟩
  | succ i ih =>
    have hpow : 0 < 2 ^ i := Nat.two_pow_pos i
    have hhalf : (2 ^ (i + 1) - 1) / 2 = 2 ^ i - 1 := by
      rw [Nat.pow_succ]
      omega
    rw [Nat.pow_succ] at hle
    obtain ⟨hl, hle'⟩ := ih start (by omega)
    obtain ⟨hr, hre'⟩ := ih (start + (2 ^ i - 1) + 1) (by omega)
    rw [buildBalancedTree_eq (by rw [Nat.pow_succ]; omega) (by rw [Nat.pow_succ]; omega)]
    simp only [hhalf]
    refine ⟨.twoNode hl hr, ?_⟩
    have hlt : 2 ^ i - 1 < (keys.drop start).length := by
      rw [List.length_drop]
      omega
    have hlen : 2 ^ (i + 1) - 1 = 2 ^ i - 1 + 1 + (2 ^ i - 1) := by
      rw [Nat.pow_succ]
      omega
    have htake := take_append_take_drop hlt (2 ^ i - 1)
    rw [← hlen, List.getElem_drop, List.drop_drop] at htake
    rw [entries, hle', hre']
    exact htake

theorem attachPennants_cons {index chunkSize : Nat} {color : FLLRBColor} {rest : List (FLLRBColor × Nat)}
    (hi : index < keys.length) :
    attachPennants keys (index + chunkSize) ((color, chunkSize) :: rest) =
      valueNode (keys[index]).1 (keys[index]).2 color (attachPennants keys index rest)
        (buildBalancedTree keys (index + 1) (chunkSize - 1)) := by
  rw [attachPennants, Nat.add_sub_cancel, List.getElem?_eq_getElem hi, Option.elim_some]

/-- The number of entries in the pennants of the lowest digits. -/
def pennantsSize (bits i : Nat) : Nat := 2 ^ i - 1 + bits % 2 ^ i

theorem pennantsSize_succ (bits i : Nat) :
    pennantsSize bits (i + 1) = pennantsSize bits i + 2 ^ i + if bits.testBit i then 2 ^ i else 0 := by
  have hpow : 0 < 2 ^ i := Nat.two_pow_pos i
  have hmod : bits % 2 ^ (i + 1) = bits % 2 ^ i + 2 ^ i * (bits / 2 ^ i % 2) := Nat.mod_pow_succ
  have hbit : bits.testBit i = decide (bits / 2 ^ i % 2 = 1) := Nat.testBit_eq_decide_div_mod_eq
  unfold pennantsSize
  rw [hmod, hbit, Nat.pow_succ]
  rcases Nat.mod_two_eq_zero_or_one (bits / 2 ^ i) with h | h
  · simp [h]
    omega
  · simp [h]
    omega

/-- **The pennants of the lowest digits** make a balanced tree of the first entries. -/
theorem attachPennants_spec (bits i : Nat) (hle : pennantsSize bits i ≤ keys.length) :
    Balanced i (attachPennants keys (pennantsSize bits i) (pennants bits i)) ∧
      (attachPennants keys (pennantsSize bits i) (pennants bits i)).entries =
        keys.take (pennantsSize bits i) := by
  induction i with
  | zero =>
    refine ⟨.emptyNode, ?_⟩
    simp [pennantsSize, pennants, attachPennants, entries, Nat.mod_one]
  | succ i ih =>
    have hpow : 0 < 2 ^ i := Nat.two_pow_pos i
    have hsize := pennantsSize_succ bits i
    obtain ⟨hrest, hentries⟩ := ih (by omega)
    have hpart : ∀ index, index + 2 ^ i ≤ keys.length → ∃ hi : index < keys.length,
        Balanced i (buildBalancedTree keys (index + 1) (2 ^ i - 1)) ∧
          keys.take index ++ keys[index] :: (buildBalancedTree keys (index + 1) (2 ^ i - 1)).entries =
            keys.take (index + 2 ^ i) := by
      intro index hindex
      have hi : index < keys.length := by omega
      obtain ⟨hb, he⟩ := buildBalancedTree_spec i (index + 1) (by omega : index + 1 + (2 ^ i - 1) ≤ keys.length)
      refine ⟨hi, hb, ?_⟩
      rw [he, take_append_take_drop hi]
      congr 1
      omega
    rw [pennants]
    split_ifs with hbit
    · rw [if_pos hbit] at hsize
      obtain ⟨hi, hb, he⟩ := hpart (pennantsSize bits i) (by omega)
      obtain ⟨hi', hb', he'⟩ := hpart (pennantsSize bits i + 2 ^ i) (by omega)
      rw [hsize, attachPennants_cons hi', attachPennants_cons hi]
      refine ⟨.threeNode hrest hb hb', ?_⟩
      rw [entries, entries, hentries, he, he']
    · have hsize' : pennantsSize bits (i + 1) = pennantsSize bits i + 2 ^ i := by simpa [hbit] using hsize
      obtain ⟨hi, hb, he⟩ := hpart (pennantsSize bits i) (by omega)
      rw [hsize', attachPennants_cons hi]
      refine ⟨.twoNode hrest hb, ?_⟩
      rw [entries, hentries, he]

/-- The digits of the 1-2 number account for every entry. -/
theorem pennantsSize_new (length : Nat) :
    pennantsSize (Base12List.new length).bits (Base12List.new length).count = length := by
  have hlow : 2 ^ Nat.log2 (length + 1) ≤ length + 1 := Nat.log2_self_le (by omega)
  have hhigh : length + 1 < 2 ^ (Nat.log2 (length + 1) + 1) := Nat.lt_log2_self
  rw [Nat.pow_succ] at hhigh
  have hmod : (length + 1) % 2 ^ Nat.log2 (length + 1) = length + 1 - 2 ^ Nat.log2 (length + 1) := by
    rw [Nat.mod_eq_sub_mod hlow, Nat.mod_eq_of_lt (by omega)]
  have hbits : (Base12List.new length).bits = (length + 1) % 2 ^ Nat.log2 (length + 1) :=
    Nat.and_two_pow_sub_one_eq_mod _ _
  have hcount : (Base12List.new length).count = Nat.log2 (length + 1) := rfl
  rw [pennantsSize, hbits, hcount, Nat.mod_mod, hmod]
  omega

/-- **The builder makes a balanced tree of exactly the given entries**, whatever their number. -/
theorem rootFrom12List_spec (keys : List (κ × ν)) :
    Balanced (Base12List.new keys.length).count (rootFrom12List (.new keys.length) keys) ∧
      (rootFrom12List (.new keys.length) keys).entries = keys := by
  have hsize := pennantsSize_new keys.length
  have h := attachPennants_spec (Base12List.new keys.length).bits (Base12List.new keys.length).count
    (Nat.le_of_eq hsize)
  rw [hsize, List.take_length] at h
  exact h

end

end FLLRBNode

end ChatApplication
