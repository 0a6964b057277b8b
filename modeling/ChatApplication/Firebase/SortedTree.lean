import ChatApplication.Lib.SortedEntries
import Mathlib.Tactic.Ring

/-!
# The left-leaning red-black tree of the children of a node

Model of `FLLRBValueNode`, `FLLRBEmptyNode` and of the root operations of `FTreeSortedDictionary`:
the persistent search tree in which the client keeps the children of a node once there are more
than twenty-five of them.  Insertion and removal go down the tree by the comparator and repair the
colours on the way back (`fixUp`); removal also moves a red link ahead of itself (`moveRedLeft`,
`moveRedRight`).  Both `remove` and `removeMin` give up a node together with *all* below it once one
child is empty, so that no entry is lost is a fact about the shape of the tree.

A property of an empty node that the source reads is `nil`; a message to it answers `NO` or `nil`, and
so do `left`, `right` and `isRed` of `emptyNode` here.
-/

namespace ChatApplication

/-- `FLLRBColor`: the numbers `RED` and `BLACK`. -/
inductive FLLRBColor where
  | red
  | black
  deriving DecidableEq, Repr

/-- `!color`, as `colorFlip` writes it. -/
def FLLRBColor.flip : FLLRBColor → FLLRBColor
  | red => black
  | black => red

/-- `FLLRBNode`: an `FLLRBEmptyNode` or an `FLLRBValueNode`. -/
inductive FLLRBNode (κ ν : Type*) where
  | emptyNode
  | valueNode (key : κ) (value : ν) (color : FLLRBColor) (left right : FLLRBNode κ ν)
  deriving DecidableEq, Repr

@[simp] theorem FLLRBColor.flip_flip (c : FLLRBColor) : c.flip.flip = c := by cases c <;> rfl

@[simp] theorem FLLRBColor.flip_red : FLLRBColor.red.flip = .black := rfl

@[simp] theorem FLLRBColor.flip_black : FLLRBColor.black.flip = .red := rfl

namespace FLLRBNode

open FLLRBColor SortedEntries Std

variable {κ ν : Type*}

def isEmpty : FLLRBNode κ ν → Bool
  | emptyNode => true
  | valueNode .. => false

def isRed : FLLRBNode κ ν → Bool
  | emptyNode => false
  | valueNode _ _ c _ _ => c = red

def left : FLLRBNode κ ν → FLLRBNode κ ν
  | emptyNode => emptyNode
  | valueNode _ _ _ l _ => l

def right : FLLRBNode κ ν → FLLRBNode κ ν
  | emptyNode => emptyNode
  | valueNode _ _ _ _ r => r

def count : FLLRBNode κ ν → Nat
  | emptyNode => 0
  | valueNode _ _ _ l r => l.count + 1 + r.count

/-- The entries in the order of `inorderTraversal:`. -/
def entries : FLLRBNode κ ν → List (κ × ν)
  | emptyNode => []
  | valueNode k v _ l r => l.entries ++ (k, v) :: r.entries

/-! `copyWith:withValue:withColor:withLeft:withRight:` with all arguments but one `nil`. -/

/-- `copyWith:` a new colour. -/
def withColor (c : FLLRBColor) : FLLRBNode κ ν → FLLRBNode κ ν
  | emptyNode => emptyNode
  | valueNode k v _ l r => valueNode k v c l r

/-- `copyWith:` a new left child. -/
def withLeft : FLLRBNode κ ν → FLLRBNode κ ν → FLLRBNode κ ν
  | emptyNode, _ => emptyNode
  | valueNode k v c _ r, l => valueNode k v c l r

/-- `copyWith:` a new right child. -/
def withRight : FLLRBNode κ ν → FLLRBNode κ ν → FLLRBNode κ ν
  | emptyNode, _ => emptyNode
  | valueNode k v c l _, r => valueNode k v c l r

/-- `copyWith:` the key and the value of another node. -/
def withEntryOf : FLLRBNode κ ν → FLLRBNode κ ν → FLLRBNode κ ν
  | valueNode _ _ c l r, valueNode k v _ _ _ => valueNode k v c l r
  | n, _ => n

/-! ## Rotations -/

def rotateLeft : FLLRBNode κ ν → FLLRBNode κ ν
  | valueNode k v c l (valueNode rk rv _ rl rr) => valueNode rk rv c (valueNode k v red l rl) rr
  | _ => emptyNode

def rotateRight : FLLRBNode κ ν → FLLRBNode κ ν
  | valueNode k v c (valueNode lk lv _ ll lr) r => valueNode lk lv c ll (valueNode k v red lr r)
  | _ => emptyNode

/-- `copyWith:` the other colour. -/
def flipped : FLLRBNode κ ν → FLLRBNode κ ν
  | emptyNode => emptyNode
  | valueNode k v c l r => valueNode k v c.flip l r

def colorFlip : FLLRBNode κ ν → FLLRBNode κ ν
  | emptyNode => emptyNode
  | valueNode k v c l r => valueNode k v c.flip l.flipped r.flipped

def fixUp (t : FLLRBNode κ ν) : FLLRBNode κ ν :=
  let n := if t.right.isRed && !t.left.isRed then t.rotateLeft else t
  let n := if n.left.isRed && n.left.left.isRed then n.rotateRight else n
  if n.left.isRed && n.right.isRed then n.colorFlip else n

def moveRedLeft (t : FLLRBNode κ ν) : FLLRBNode κ ν :=
  let n := t.colorFlip
  if n.right.left.isRed then (n.withRight n.right.rotateRight).rotateLeft.colorFlip else n

def moveRedRight (t : FLLRBNode κ ν) : FLLRBNode κ ν :=
  let n := t.colorFlip
  if n.left.left.isRed then n.rotateRight.colorFlip else n

section
variable (k : κ) (v : ν) (c : FLLRBColor) (l r : FLLRBNode κ ν)

@[simp] theorem left_valueNode : (valueNode k v c l r).left = l := rfl

@[simp] theorem right_valueNode : (valueNode k v c l r).right = r := rfl

@[simp] theorem isEmpty_valueNode : (valueNode k v c l r).isEmpty = false := rfl

@[simp] theorem isRed_valueNode_red : (valueNode k v red l r).isRed = true := rfl

@[simp] theorem isRed_valueNode_black : (valueNode k v black l r).isRed = false := rfl

@[simp] theorem flipped_valueNode : (valueNode k v c l r).flipped = valueNode k v c.flip l r := rfl

@[simp] theorem withLeft_valueNode (l' : FLLRBNode κ ν) :
    (valueNode k v c l r).withLeft l' = valueNode k v c l' r := rfl

@[simp] theorem withRight_valueNode (r' : FLLRBNode κ ν) :
    (valueNode k v c l r).withRight r' = valueNode k v c l r' := rfl

end

@[simp] theorem isEmpty_emptyNode : (emptyNode : FLLRBNode κ ν).isEmpty = true := rfl

@[simp] theorem isRed_emptyNode : (emptyNode : FLLRBNode κ ν).isRed = false := rfl

@[simp] theorem flipped_emptyNode : (emptyNode : FLLRBNode κ ν).flipped = emptyNode := rfl

/-! ## The entries under the rotations -/

@[simp] theorem entries_flipped (t : FLLRBNode κ ν) : t.flipped.entries = t.entries := by
  cases t <;> rfl

@[simp] theorem entries_colorFlip (t : FLLRBNode κ ν) : t.colorFlip.entries = t.entries := by
  cases t <;> simp [colorFlip, entries]

@[simp] theorem entries_withColor (c : FLLRBColor) (t : FLLRBNode κ ν) :
    (t.withColor c).entries = t.entries := by cases t <;> rfl

theorem entries_rotateLeft {t : FLLRBNode κ ν} (h : t.right.isRed = true) :
    t.rotateLeft.entries = t.entries := by
  obtain _ | ⟨k, v, c, l, _ | ⟨rk, rv, rc, rl, rr⟩⟩ := t
  · simp [right, isRed] at h
  · simp [right, isRed] at h
  · simp [rotateLeft, entries]

theorem entries_rotateRight {t : FLLRBNode κ ν} (h : t.left.isRed = true) :
    t.rotateRight.entries = t.entries := by
  obtain _ | ⟨k, v, c, _ | ⟨lk, lv, lc, ll, lr⟩, r⟩ := t
  · simp [left, isRed] at h
  · simp [left, isRed] at h
  · simp [rotateRight, entries]

theorem entries_fixUp (t : FLLRBNode κ ν) : t.fixUp.entries = t.entries := by
  unfold fixUp
  extract_lets n₁ n₂
  have h₁ : n₁.entries = t.entries := by
    show (ite _ _ _ : FLLRBNode κ ν).entries = _
    split_ifs with h
    · exact entries_rotateLeft (by simp_all)
    · rfl
  have h₂ : n₂.entries = n₁.entries := by
    show (ite _ _ _ : FLLRBNode κ ν).entries = _
    split_ifs with h
    · exact entries_rotateRight (by simp_all)
    · rfl
  split_ifs <;> simp [h₁, h₂]

theorem entries_moveRedLeft (t : FLLRBNode κ ν) : t.moveRedLeft.entries = t.entries := by
  rw [moveRedLeft]
  split_ifs with h
  · obtain _ | ⟨k, v, c, l, _ | ⟨rk, rv, rc, _ | ⟨rlk, rlv, rlc, rll, rlr⟩, rr⟩⟩ := t
    iterate 3 simp [colorFlip, left, right, isRed] at h
    simp [colorFlip, withRight, right, rotateRight, rotateLeft, entries]
  · exact entries_colorFlip t

theorem entries_moveRedRight (t : FLLRBNode κ ν) : t.moveRedRight.entries = t.entries := by
  rw [moveRedRight]
  split_ifs with h
  · obtain _ | ⟨k, v, c, _ | ⟨lk, lv, lc, ll, lr⟩, r⟩ := t
    iterate 2 simp [colorFlip, left, isRed] at h
    simp [colorFlip, rotateRight, entries]
  · exact entries_colorFlip t

theorem count_eq_length (t : FLLRBNode κ ν) : t.count = t.entries.length := by
  induction t with
  | emptyNode => rfl
  | valueNode k v c l r ihl ihr =>
    simp only [count, entries, ihl, ihr, List.length_append, List.length_cons]
    omega

theorem count_eq_of_entries_eq {t u : FLLRBNode κ ν} (h : t.entries = u.entries) : t.count = u.count := by
  rw [count_eq_length, count_eq_length, h]

theorem count_valueNode_pos (k : κ) (v : ν) (c : FLLRBColor) (l r : FLLRBNode κ ν) :
    0 < (valueNode k v c l r).count := by
  rw [count]
  omega

theorem count_left_lt {n : FLLRBNode κ ν} {m : Nat} (hm : 0 < m) (h : n.count ≤ m) : n.left.count < m := by
  cases n with
  | emptyNode => exact hm
  | valueNode k v c l r =>
    simp only [count, left] at h ⊢
    omega

theorem count_right_lt {n : FLLRBNode κ ν} {m : Nat} (hm : 0 < m) (h : n.count ≤ m) :
    n.right.count < m := by
  cases n with
  | emptyNode => exact hm
  | valueNode k v c l r =>
    simp only [count, right] at h ⊢
    omega

theorem count_withRight_le {n r : FLLRBNode κ ν} (h : r.count ≤ n.right.count) :
    (n.withRight r).count ≤ n.count := by
  cases n with
  | emptyNode => exact Nat.le_refl _
  | valueNode k v c l r' =>
    simp only [count, right, withRight] at h ⊢
    omega

@[simp] theorem count_withEntryOf (n s : FLLRBNode κ ν) : (n.withEntryOf s).count = n.count := by
  cases n <;> cases s <;> rfl

@[simp] theorem right_withEntryOf (n s : FLLRBNode κ ν) : (n.withEntryOf s).right = n.right := by
  cases n <;> cases s <;> rfl

/-! ## Insertion and removal -/

def insertKey (cmp : κ → κ → Ordering) (aKey : κ) (aValue : ν) : FLLRBNode κ ν → FLLRBNode κ ν
  | emptyNode => valueNode aKey aValue red emptyNode emptyNode
  | valueNode k v c l r =>
    if cmp aKey k = .lt then (valueNode k v c (l.insertKey cmp aKey aValue) r).fixUp
    else if cmp aKey k = .eq then (valueNode k aValue c l r).fixUp
    else (valueNode k v c l (r.insertKey cmp aKey aValue)).fixUp

def min : FLLRBNode κ ν → FLLRBNode κ ν
  | emptyNode => emptyNode
  | valueNode k v c l r => if l.isEmpty then valueNode k v c l r else l.min

/-- The step of `removeMin` and `remove:` to the left: a red link goes ahead of it. -/
def goLeft (t : FLLRBNode κ ν) : FLLRBNode κ ν :=
  if !t.left.isRed && !t.left.left.isRed then t.moveRedLeft else t

theorem entries_goLeft (t : FLLRBNode κ ν) : t.goLeft.entries = t.entries := by
  unfold goLeft
  split_ifs
  · exact entries_moveRedLeft t
  · rfl

theorem count_pos {t : FLLRBNode κ ν} (h : t.left.isEmpty = false) : 0 < t.count := by
  cases t with
  | emptyNode => simp [left, isEmpty] at h
  | valueNode k v c l r => exact count_valueNode_pos ..

def removeMin (t : FLLRBNode κ ν) : FLLRBNode κ ν :=
  if t.left.isEmpty then emptyNode
  else (t.goLeft.withLeft t.goLeft.left.removeMin).fixUp
termination_by t.count
decreasing_by
  rename_i h
  exact count_left_lt (count_pos (by simpa using h)) (Nat.le_of_eq (count_eq_of_entries_eq (entries_goLeft t)))

theorem count_withLeft_le {n l : FLLRBNode κ ν} (h : l.count ≤ n.left.count) :
    (n.withLeft l).count ≤ n.count := by
  cases n with
  | emptyNode => exact Nat.le_refl _
  | valueNode k v c l' r =>
    simp only [count, left, withLeft] at h ⊢
    omega

theorem count_removeMin_le (t : FLLRBNode κ ν) : t.removeMin.count ≤ t.count := by
  fun_induction removeMin t with
  | case1 t h => exact Nat.zero_le _
  | case2 t h ih =>
    rw [count_eq_of_entries_eq (entries_fixUp _), ← count_eq_of_entries_eq (entries_goLeft t)]
    exact count_withLeft_le ih

/-- The step of `remove:` to the right: a red left link is turned over, and a red link goes ahead. -/
def goRight (t : FLLRBNode κ ν) : FLLRBNode κ ν :=
  let n := if t.left.isRed then t.rotateRight else t
  if !n.right.isEmpty && !n.right.isRed && !n.right.left.isRed then n.moveRedRight else n

theorem entries_goRight (t : FLLRBNode κ ν) : t.goRight.entries = t.entries := by
  unfold goRight
  extract_lets n
  have hn : n.entries = t.entries := by
    show (ite _ _ _ : FLLRBNode κ ν).entries = _
    split_ifs with h
    · exact entries_rotateRight h
    · rfl
  split_ifs
  · rw [entries_moveRedRight, hn]
  · exact hn

/-- Whether the comparator finds the key of the node the same. -/
def isSame (cmp : κ → κ → Ordering) (aKey : κ) : FLLRBNode κ ν → Bool
  | emptyNode => false
  | valueNode k _ _ _ _ => cmp aKey k = .eq

/-- The node with its successor's entry in place of its own. -/
def takeSuccessor (n : FLLRBNode κ ν) : FLLRBNode κ ν :=
  (n.withEntryOf n.right.min).withRight n.right.removeMin

theorem count_takeSuccessor_le (n : FLLRBNode κ ν) : n.takeSuccessor.count ≤ n.count := by
  rw [← count_withEntryOf n n.right.min]
  refine count_withRight_le ?_
  rw [right_withEntryOf]
  exact count_removeMin_le _

def remove (cmp : κ → κ → Ordering) (aKey : κ) : FLLRBNode κ ν → FLLRBNode κ ν
  | emptyNode => emptyNode
  | valueNode k v c l r =>
    let t := valueNode k v c l r
    if cmp aKey k = .lt then
      let n := if !l.isEmpty then t.goLeft else t
      (n.withLeft (n.left.remove cmp aKey)).fixUp
    else
      let n := t.goRight
      if n.isSame cmp aKey then
        if n.right.isEmpty then emptyNode
        else
          -- the key is gone now, but the source goes on to look for it in the right child
          let n := n.takeSuccessor
          (n.withRight (n.right.remove cmp aKey)).fixUp
      else (n.withRight (n.right.remove cmp aKey)).fixUp
termination_by t => t.count
decreasing_by
  · refine count_left_lt (count_valueNode_pos ..) ?_
    split_ifs
    · exact Nat.le_of_eq (count_eq_of_entries_eq (entries_goLeft _))
    · exact Nat.le_refl _
  · exact count_right_lt (count_valueNode_pos ..)
      (Nat.le_trans (count_takeSuccessor_le _) (Nat.le_of_eq (count_eq_of_entries_eq (entries_goRight _))))
  · exact count_right_lt (count_valueNode_pos ..)
      (Nat.le_of_eq (count_eq_of_entries_eq (entries_goRight _)))

/-! ## Shapes

A tree of the dictionary is a 2-3 tree in disguise: a node with a red left child is a node with two
entries.  The colour of the top node is a parameter of the shapes, since a black node with red
children and a red node with black children become one another by `colorFlip`. -/

/-- A black tree of black height `n`. -/
inductive Balanced : Nat → FLLRBNode κ ν → Prop
  | emptyNode : Balanced 0 emptyNode
  | twoNode {n k v l r} (hl : Balanced n l) (hr : Balanced n r) : Balanced (n + 1) (valueNode k v black l r)
  | threeNode {n k v lk lv ll lr r} (hll : Balanced n ll) (hlr : Balanced n lr) (hr : Balanced n r) :
      Balanced (n + 1) (valueNode k v black (valueNode lk lv red ll lr) r)

/-- A node of the given colour over two black trees. -/
inductive TwoNode (c : FLLRBColor) (n : Nat) : FLLRBNode κ ν → Prop
  | mk {k v l r} (hl : Balanced n l) (hr : Balanced n r) : TwoNode c n (valueNode k v c l r)

/-- A node of the given colour over three black trees, leaning to the left. -/
inductive ThreeNode (c : FLLRBColor) (n : Nat) : FLLRBNode κ ν → Prop
  | mk {k v l r} (hl : TwoNode red n l) (hr : Balanced n r) : ThreeNode c n (valueNode k v c l r)

/-- What an insertion makes of a black tree: its top may have become red. -/
def Grown (n : Nat) (t : FLLRBNode κ ν) : Prop := Balanced n t ∨ TwoNode red n t

/-- What a removal makes of a node over two black trees. -/
def Shrunk (c : FLLRBColor) (n : Nat) (t : FLLRBNode κ ν) : Prop :=
  TwoNode c n t ∨ (∃ m, n = m + 1 ∧ ThreeNode c.flip m t) ∨ (n = 0 ∧ t = emptyNode)

section
variable {n : Nat} {c : FLLRBColor} {k : κ} {v : ν} {t l r : FLLRBNode κ ν}

theorem balanced_zero_iff : Balanced 0 t ↔ t = emptyNode := by
  constructor
  · rintro ⟨⟩
    rfl
  · rintro rfl
    exact .emptyNode

theorem balanced_succ_iff : Balanced (n + 1) t ↔ TwoNode black n t ∨ ThreeNode black n t := by
  constructor
  · intro h
    cases h with
    | twoNode hl hr => exact .inl ⟨hl, hr⟩
    | threeNode hll hlr hr => exact .inr ⟨⟨hll, hlr⟩, hr⟩
  · rintro (⟨hl, hr⟩ | ⟨⟨hll, hlr⟩, hr⟩)
    · exact .twoNode hl hr
    · exact .threeNode hll hlr hr

theorem Balanced.isRed_eq (h : Balanced n t) : t.isRed = false := by cases h <;> rfl

theorem TwoNode.isRed_left (h : TwoNode c n t) : t.left.isRed = false := by
  obtain ⟨hl, -⟩ := h
  exact hl.isRed_eq

theorem TwoNode.isRed_eq (h : TwoNode red n t) : t.isRed = true := by
  cases h
  rfl

theorem Balanced.isEmpty_eq (h : Balanced (n + 1) t) : t.isEmpty = false := by cases h <;> rfl

theorem TwoNode.flipped (h : TwoNode c n t) : TwoNode c.flip n t.flipped := by
  obtain ⟨hl, hr⟩ := h
  exact ⟨hl, hr⟩

theorem TwoNode.balanced (h : TwoNode black n t) : Balanced (n + 1) t := balanced_succ_iff.mpr (.inl h)

theorem ThreeNode.balanced (h : ThreeNode black n t) : Balanced (n + 1) t := balanced_succ_iff.mpr (.inr h)

/-- A red node is a black one after a flip. -/
theorem TwoNode.balanced_flipped (h : TwoNode red n t) : Balanced (n + 1) t.flipped := h.flipped.balanced

theorem Shrunk.grown (h : Shrunk red n t) : Grown n t := by
  rcases h with h | ⟨m, rfl, h⟩ | ⟨rfl, rfl⟩
  · exact .inr h
  · exact .inl h.balanced
  · exact .inl .emptyNode

/-! ### Repairing a node -/

theorem fixUp_eq_self (hr : r.isRed = false) (hl : (l.isRed && l.left.isRed) = false) :
    (valueNode k v c l r).fixUp = valueNode k v c l r := by
  simp only [fixUp, left_valueNode, right_valueNode, hr, hl, Bool.false_and, Bool.and_false,
    Bool.false_eq_true, if_false]

theorem fixUp_twoNode (hl : Balanced n l) (hr : Balanced n r) : TwoNode c n (valueNode k v c l r).fixUp := by
  rw [fixUp_eq_self hr.isRed_eq (by simp [hl.isRed_eq])]
  exact ⟨hl, hr⟩

theorem fixUp_threeNode (hl : TwoNode red n l) (hr : Balanced n r) :
    ThreeNode c n (valueNode k v c l r).fixUp := by
  rw [fixUp_eq_self hr.isRed_eq (by simp [hl.isRed_left])]
  exact ⟨hl, hr⟩

/-- A red right child is turned to the left. -/
theorem fixUp_rightThreeNode (hl : Balanced n l) (hr : TwoNode red n r) :
    ThreeNode c n (valueNode k v c l r).fixUp := by
  obtain ⟨hrl, hrr⟩ := hr
  simp only [fixUp, left_valueNode, right_valueNode, isRed_valueNode_red, hl.isRed_eq, rotateLeft,
    hrr.isRed_eq, Bool.not_false, Bool.and_true, Bool.and_false, if_true, Bool.false_eq_true, if_false]
  exact ⟨⟨hl, hrl⟩, hrr⟩

/-- Two red children give their colour to the node. -/
theorem fixUp_fourNode (hl : TwoNode red n l) (hr : TwoNode red n r) :
    TwoNode c.flip (n + 1) (valueNode k v c l r).fixUp := by
  have h : (valueNode k v c l r).fixUp = (valueNode k v c l r).colorFlip := by
    simp [fixUp, hl.isRed_eq, hl.isRed_left, hr.isRed_eq]
  rw [h]
  exact ⟨hl.balanced_flipped, hr.balanced_flipped⟩

/-- A red node over a red node over a red node is balanced out. -/
theorem fixUp_redRed (hl : ThreeNode red n l) (hr : Balanced n r) :
    TwoNode c.flip (n + 1) (valueNode k v c l r).fixUp := by
  obtain ⟨hll, hlr⟩ := hl
  simp only [fixUp, left_valueNode, right_valueNode, isRed_valueNode_red, hr.isRed_eq, hll.isRed_eq,
    rotateRight, colorFlip, Bool.and_true, Bool.false_and, if_true, Bool.false_eq_true, if_false]
  exact ⟨hll.balanced_flipped, .twoNode hlr hr⟩

theorem fixUp_grown_left (hl : Grown n l) (hr : Balanced n r) :
    TwoNode c n (valueNode k v c l r).fixUp ∨ ThreeNode c n (valueNode k v c l r).fixUp := by
  rcases hl with hl | hl
  · exact .inl (fixUp_twoNode hl hr)
  · exact .inr (fixUp_threeNode hl hr)

theorem fixUp_grown_right (hl : Balanced n l) (hr : Grown n r) :
    TwoNode c n (valueNode k v c l r).fixUp ∨ ThreeNode c n (valueNode k v c l r).fixUp := by
  rcases hr with hr | hr
  · exact .inl (fixUp_twoNode hl hr)
  · exact .inr (fixUp_rightThreeNode hl hr)

theorem fixUp_grown_left_red (hl : Grown n l) (hr : TwoNode red n r) :
    ThreeNode c n (valueNode k v c l r).fixUp ∨ TwoNode c.flip (n + 1) (valueNode k v c l r).fixUp := by
  rcases hl with hl | hl
  · exact .inl (fixUp_rightThreeNode hl hr)
  · exact .inr (fixUp_fourNode hl hr)

theorem fixUp_red_grown_right (hl : TwoNode red n l) (hr : Grown n r) :
    ThreeNode c n (valueNode k v c l r).fixUp ∨ TwoNode c.flip (n + 1) (valueNode k v c l r).fixUp := by
  rcases hr with hr | hr
  · exact .inl (fixUp_threeNode hl hr)
  · exact .inr (fixUp_fourNode hl hr)

end

/-! ## Insertion -/

section
variable {cmp : κ → κ → Ordering} {n : Nat} {c : FLLRBColor} {k a : κ} {v w : ν} {t l r : FLLRBNode κ ν}

theorem insertKey_twoNode (hl : Balanced n l) (hr : Balanced n r)
    (hl' : Grown n (l.insertKey cmp a w)) (hr' : Grown n (r.insertKey cmp a w)) :
    TwoNode c n ((valueNode k v c l r).insertKey cmp a w) ∨
      ThreeNode c n ((valueNode k v c l r).insertKey cmp a w) := by
  rw [insertKey]
  split_ifs
  · exact fixUp_grown_left hl' hr
  · exact .inl (fixUp_twoNode hl hr)
  · exact fixUp_grown_right hl hr'

/-- **Insertion keeps the black height**; only the top may have become red. -/
theorem Balanced.insertKey (h : Balanced n t) : Grown n (t.insertKey cmp a w) := by
  induction h with
  | emptyNode => exact .inr ⟨.emptyNode, .emptyNode⟩
  | twoNode hl hr ihl ihr => exact .inl (balanced_succ_iff.mpr (insertKey_twoNode hl hr ihl ihr))
  | threeNode hll hlr hr ihll ihlr ihr =>
    rw [FLLRBNode.insertKey]
    split_ifs
    · rcases insertKey_twoNode (c := red) hll hlr ihll ihlr with hl' | hl'
      · exact .inl (fixUp_threeNode hl' hr).balanced
      · exact .inr (fixUp_redRed (c := black) hl' hr)
    · exact .inl (fixUp_threeNode ⟨hll, hlr⟩ hr).balanced
    · rcases fixUp_red_grown_right (c := black) ⟨hll, hlr⟩ ihr with h | h
      · exact .inl h.balanced
      · exact .inr h

theorem entries_insertKey [TransCmp cmp] (hs : Ascending cmp t.entries) :
    (t.insertKey cmp a w).entries = insert cmp a w t.entries := by
  induction t with
  | emptyNode => rfl
  | valueNode k v c l r ihl ihr =>
    have hs' : Ascending cmp (l.entries ++ (k, v) :: r.entries) := hs
    rw [insertKey, entries]
    split_ifs with hlt heq
    · rw [entries_fixUp, entries, ihl hs'.left, insert_append_of_below hlt]
    · rw [entries_fixUp, entries, insert_of_eq hs' heq]
    · have hgt : cmp a k = .gt := by cases hc : cmp a k <;> simp_all
      rw [entries_fixUp, entries, ihr (List.Pairwise.of_cons hs'.right),
        insert_append_of_above (hs'.above hlt), SortedEntries.insert, if_neg hlt, if_neg heq]

/-! ## Removal of the first entry -/

theorem min_eq_valueNode (h : t.isEmpty = false) :
    ∃ k v c l r rest, t.min = valueNode k v c l r ∧ t.entries = (k, v) :: rest := by
  induction t with
  | emptyNode => simp at h
  | valueNode k v c l r ihl ihr =>
    cases l with
    | emptyNode => exact ⟨k, v, c, emptyNode, r, r.entries, rfl, rfl⟩
    | valueNode lk lv lc ll lr =>
      obtain ⟨k', v', c', l', r', rest, hmin, hentries⟩ := ihl rfl
      refine ⟨k', v', c', l', r', rest ++ (k, v) :: r.entries, ?_, ?_⟩
      · rw [min]
        exact hmin
      · rw [entries, hentries, List.cons_append]

/-- `moveRedLeft` borrows an entry from a right child that has two. -/
theorem moveRedLeft_three (k rk rlk : κ) (v rv rlv : ν) (c : FLLRBColor) (l rll rlr rr : FLLRBNode κ ν) :
    (valueNode k v c l (valueNode rk rv black (valueNode rlk rlv red rll rlr) rr)).moveRedLeft =
      valueNode rlk rlv c (valueNode k v black l.flipped rll) (valueNode rk rv black rlr rr) := by
  simp [moveRedLeft, colorFlip, rotateRight, rotateLeft]

/-- What `goLeft` makes of a node over two trees that are not empty: its left child has a red link. -/
theorem goLeft_twoNode (hl : Balanced (n + 1) l) (hr : Balanced (n + 1) r) :
    (∃ k' v' l' r', (valueNode k v c l r).goLeft = valueNode k' v' c l' r' ∧ ThreeNode black n l' ∧
      Balanced (n + 1) r' ∧ (k', v') ∈ (k, v) :: r.entries) ∨
    (∃ l' r', (valueNode k v c l r).goLeft = valueNode k v c.flip l' r' ∧ TwoNode red n l' ∧
      TwoNode red n r') := by
  have hred := hl.isRed_eq
  rcases balanced_succ_iff.mp hl with hl | hl
  · have hgo : (valueNode k v c l r).goLeft = (valueNode k v c l r).moveRedLeft := by
      simp [goLeft, hred, hl.isRed_left]
    rw [hgo]
    rcases balanced_succ_iff.mp hr with hr | ⟨⟨hrll, hrlr⟩, hrr⟩
    · refine .inr ⟨l.flipped, r.flipped, ?_, hl.flipped, hr.flipped⟩
      obtain ⟨hrl, hrr⟩ := hr
      simp [moveRedLeft, colorFlip, hrl.isRed_eq]
    · refine .inl ⟨_, _, _, _, moveRedLeft_three .., ⟨hl.flipped, hrll⟩, .twoNode hrlr hrr, ?_⟩
      simp [entries]
  · refine .inl ⟨k, v, l, r, ?_, hl, hr, List.mem_cons_self⟩
    obtain ⟨hll, hlr⟩ := hl
    simp [goLeft, hll.isRed_eq]

theorem goLeft_threeNode (h : ThreeNode c n t) : t.goLeft = t := by
  obtain ⟨hl, hr⟩ := h
  simp [goLeft, hl.isRed_eq]

section
variable {k' : κ} {v' : ν} {c' : FLLRBColor} {l' r' : FLLRBNode κ ν}

/-- One step of `removeMin`. -/
theorem removeMin_eq (hl : l.isEmpty = false) (hgo : (valueNode k v c l r).goLeft = valueNode k' v' c' l' r') :
    (valueNode k v c l r).removeMin = (valueNode k' v' c' l'.removeMin r').fixUp := by
  rw [removeMin, if_neg (by simp [hl]), hgo]
  rfl

/-- The same step on the entries. -/
theorem entries_removeMin_step (hl : l.isEmpty = false)
    (hgo : (valueNode k v c l r).goLeft = valueNode k' v' c' l' r') (hl' : l'.isEmpty = false)
    (ih : l'.removeMin.entries = l'.entries.tail) :
    (valueNode k v c l r).removeMin.entries = (valueNode k v c l r).entries.tail := by
  obtain ⟨_, _, _, _, _, rest, -, hentries⟩ := min_eq_valueNode hl'
  rw [removeMin_eq hl hgo, entries_fixUp, ← entries_goLeft (valueNode k v c l r), hgo]
  simp [entries, ih, hentries]

end

theorem TwoNode.isEmpty_eq (h : TwoNode c n t) : t.isEmpty = false := by
  cases h
  rfl

theorem ThreeNode.isEmpty_eq (h : ThreeNode c n t) : t.isEmpty = false := by
  cases h
  rfl

/-- `removeMin` on a node with a red left child, from what it does on that child. -/
theorem ThreeNode.removeMin_of (h : ThreeNode c n t)
    (ih : ∀ {l : FLLRBNode κ ν}, TwoNode red n l →
      Shrunk red n l.removeMin ∧ l.removeMin.entries = l.entries.tail) :
    (TwoNode c n t.removeMin ∨ ThreeNode c n t.removeMin) ∧ t.removeMin.entries = t.entries.tail := by
  have hgo := goLeft_threeNode h
  obtain ⟨hl, hr⟩ := h
  obtain ⟨hshape, hentries⟩ := ih hl
  refine ⟨?_, entries_removeMin_step hl.isEmpty_eq hgo hl.isEmpty_eq hentries⟩
  rw [removeMin_eq hl.isEmpty_eq hgo]
  exact fixUp_grown_left hshape.grown hr

/-- **`removeMin` removes the first entry and nothing else**, and keeps the tree balanced. -/
theorem TwoNode.removeMin (h : TwoNode c n t) :
    Shrunk c n t.removeMin ∧ t.removeMin.entries = t.entries.tail := by
  -- the induction is on the black height: each step goes down by one, with a red link ahead of it
  induction n generalizing c t with
  | zero =>
    obtain ⟨hl, hr⟩ := h
    obtain rfl := balanced_zero_iff.mp hl
    obtain rfl := balanced_zero_iff.mp hr
    rw [FLLRBNode.removeMin, left_valueNode, isEmpty_emptyNode, if_pos rfl]
    exact ⟨.inr (.inr ⟨rfl, rfl⟩), rfl⟩
  | succ n ih =>
    obtain ⟨hl, hr⟩ := h
    rcases goLeft_twoNode hl hr with ⟨k', v', l', r', hgo, hl', hr', -⟩ | ⟨l', r', hgo, hl', hr'⟩
    · obtain ⟨hshape, hentries⟩ := hl'.removeMin_of fun h => ih h
      refine ⟨.inl ?_, entries_removeMin_step hl.isEmpty_eq hgo hl'.isEmpty_eq hentries⟩
      rw [removeMin_eq hl.isEmpty_eq hgo]
      exact fixUp_twoNode (balanced_succ_iff.mpr hshape) hr'
    · obtain ⟨hshape, hentries⟩ := ih hl'
      refine ⟨?_, entries_removeMin_step hl.isEmpty_eq hgo hl'.isEmpty_eq hentries⟩
      rw [removeMin_eq hl.isEmpty_eq hgo]
      rcases fixUp_grown_left_red (c := c.flip) hshape.grown hr' with h | h
      · exact .inr (.inl ⟨n, rfl, h⟩)
      · exact .inl (by simpa using h)

theorem ThreeNode.removeMin (h : ThreeNode c n t) :
    (TwoNode c n t.removeMin ∨ ThreeNode c n t.removeMin) ∧ t.removeMin.entries = t.entries.tail :=
  h.removeMin_of TwoNode.removeMin

/-! ## Removal of a key -/

/-- `moveRedRight` borrows an entry from a left child that has two. -/
theorem moveRedRight_three (k lk llk : κ) (v lv llv : ν) (c : FLLRBColor) (lll llr lr r : FLLRBNode κ ν) :
    (valueNode k v c (valueNode lk lv black (valueNode llk llv red lll llr) lr) r).moveRedRight =
      valueNode lk lv c (valueNode llk llv black lll llr) (valueNode k v black lr r.flipped) := by
  simp [moveRedRight, colorFlip, rotateRight]

/-- What `goRight` makes of a node over two trees that are not empty. -/
theorem goRight_twoNode (hl : Balanced (n + 1) l) (hr : Balanced (n + 1) r) :
    ((valueNode k v c l r).goRight = valueNode k v c l r ∧ ThreeNode black n r) ∨
    (∃ l' r', (valueNode k v c l r).goRight = valueNode k v c.flip l' r' ∧ TwoNode red n l' ∧
      TwoNode red n r') ∨
    (∃ k' v' l' rl rr, (valueNode k v c l r).goRight = valueNode k' v' c l' (valueNode k v black rl rr) ∧
      (k', v') ∈ l.entries ∧ Balanced (n + 1) l' ∧ Balanced n rl ∧ TwoNode red n rr) := by
  rcases balanced_succ_iff.mp hr with hr' | hr'
  · have hgo : (valueNode k v c l r).goRight = (valueNode k v c l r).moveRedRight := by
      simp [goRight, hl.isRed_eq, hr.isEmpty_eq, hr.isRed_eq, hr'.isRed_left]
    rw [hgo]
    rcases balanced_succ_iff.mp hl with hl' | ⟨⟨hlll, hllr⟩, hlr⟩
    · refine .inr (.inl ⟨l.flipped, r.flipped, ?_, hl'.flipped, hr'.flipped⟩)
      obtain ⟨hll, hlr⟩ := hl'
      simp [moveRedRight, colorFlip, hll.isRed_eq]
    · refine .inr (.inr ⟨_, _, _, _, _, moveRedRight_three .., ?_, .twoNode hlll hllr, hlr, hr'.flipped⟩)
      simp [entries]
  · refine .inl ⟨?_, hr'⟩
    obtain ⟨hrl, hrr⟩ := hr'
    simp [goRight, hl.isRed_eq, hrl.isRed_eq]

theorem goRight_threeNode {lk : κ} {lv : ν} {ll lr : FLLRBNode κ ν} :
    (valueNode k v c (valueNode lk lv red ll lr) r).goRight = valueNode lk lv c ll (valueNode k v red lr r) := by
  simp [goRight, rotateRight]

theorem goRight_rightThreeNode (hl : Balanced n l) (hr : TwoNode red n r) :
    (valueNode k v c l r).goRight = valueNode k v c l r := by
  simp [goRight, hl.isRed_eq, hr.isRed_eq]

section
variable {k' : κ} {v' : ν} {c' : FLLRBColor} {l' r' : FLLRBNode κ ν}

/-- A step of `remove:` to the left. -/
theorem remove_left (hlt : cmp a k = .lt) (hl : l.isEmpty = false)
    (hgo : (valueNode k v c l r).goLeft = valueNode k' v' c' l' r') :
    (valueNode k v c l r).remove cmp a = (valueNode k' v' c' (l'.remove cmp a) r').fixUp := by
  rw [remove, if_pos hlt]
  simp [hl, hgo]

/-- A step of `remove:` to the right, past a key that comes before. -/
theorem remove_right (hge : cmp a k ≠ .lt) (hgo : (valueNode k v c l r).goRight = valueNode k' v' c' l' r')
    (hne : cmp a k' ≠ .eq) :
    (valueNode k v c l r).remove cmp a = (valueNode k' v' c' l' (r'.remove cmp a)).fixUp := by
  rw [remove, if_neg hge]
  simp [hgo, isSame, hne]

/-- The step of `remove:` at the key, where there are entries to the right. -/
theorem remove_here {sk : κ} {sv : ν} {sc : FLLRBColor} {sl sr : FLLRBNode κ ν} (hge : cmp a k ≠ .lt)
    (hgo : (valueNode k v c l r).goRight = valueNode k' v' c' l' r') (heq : cmp a k' = .eq)
    (hr' : r'.isEmpty = false) (hmin : r'.min = valueNode sk sv sc sl sr) :
    (valueNode k v c l r).remove cmp a = (valueNode sk sv c' l' (r'.removeMin.remove cmp a)).fixUp := by
  rw [remove, if_neg hge]
  simp [hgo, isSame, heq, hr', takeSuccessor, hmin, withEntryOf]

/-- Where there is nothing to the left, `remove:` of a key that comes before only repairs the node. -/
theorem remove_left_emptyNode (hlt : cmp a k = .lt) :
    (valueNode k v c emptyNode r).remove cmp a = (valueNode k v c emptyNode r).fixUp := by
  rw [remove, if_pos hlt]
  simp [remove]

theorem ascending_goLeft (hs : Ascending cmp (valueNode k v c l r).entries)
    (hgo : (valueNode k v c l r).goLeft = valueNode k' v' c' l' r') :
    Ascending cmp (l'.entries ++ (k', v') :: r'.entries) := by
  rw [← entries_goLeft, hgo] at hs
  exact hs

theorem ascending_goRight (hs : Ascending cmp (valueNode k v c l r).entries)
    (hgo : (valueNode k v c l r).goRight = valueNode k' v' c' l' r') :
    Ascending cmp (l'.entries ++ (k', v') :: r'.entries) := by
  rw [← entries_goRight, hgo] at hs
  exact hs

/-- The entries after a step of `remove:` to the left. -/
theorem entries_remove_left [TransCmp cmp] (hs : Ascending cmp (valueNode k v c l r).entries)
    (hlt : cmp a k = .lt) (hl : l.isEmpty = false)
    (hgo : (valueNode k v c l r).goLeft = valueNode k' v' c' l' r') (hk' : (k', v') ∈ (k, v) :: r.entries)
    (ih : (l'.remove cmp a).entries = erase cmp a l'.entries) :
    ((valueNode k v c l r).remove cmp a).entries = erase cmp a (valueNode k v c l r).entries := by
  have hlt' : cmp a k' = .lt := Ascending.below (e := (k, v)) hs hlt _ hk'
  rw [remove_left hlt hl hgo, entries_fixUp, ← entries_goLeft (valueNode k v c l r), hgo, entries, entries, ih]
  exact ((ascending_goLeft hs hgo).erase_of_lt hlt').symm

/-- The entries after a step of `remove:` to the right, past a key that comes before. -/
theorem entries_remove_right [TransCmp cmp] (hs : Ascending cmp (valueNode k v c l r).entries)
    (hge : cmp a k ≠ .lt) (hgo : (valueNode k v c l r).goRight = valueNode k' v' c' l' r')
    (hgt : cmp a k' = .gt) (ih : (r'.remove cmp a).entries = erase cmp a r'.entries) :
    ((valueNode k v c l r).remove cmp a).entries = erase cmp a (valueNode k v c l r).entries := by
  rw [remove_right hge hgo (by simp [hgt]), entries_fixUp, ← entries_goRight (valueNode k v c l r), hgo,
    entries, entries, ih]
  exact ((ascending_goRight hs hgo).erase_of_gt hgt).symm

/-- A step of `remove:` to the right, whether or not it has arrived at the key: `P` is what the right
child is like afterwards. -/
theorem remove_right_or_here [TransCmp cmp] {P : FLLRBNode κ ν → Prop}
    (hs : Ascending cmp (valueNode k v c l r).entries) (hge : cmp a k ≠ .lt)
    (hgo : (valueNode k v c l r).goRight = valueNode k' v' c' l' r') (hge' : cmp a k' ≠ .lt)
    (hr' : r'.isEmpty = false)
    (hrem : Ascending cmp r'.entries →
      P (r'.remove cmp a) ∧ (r'.remove cmp a).entries = erase cmp a r'.entries)
    (hmin : Below cmp a r'.entries.tail →
      P (r'.removeMin.remove cmp a) ∧ (r'.removeMin.remove cmp a).entries = r'.entries.tail) :
    (∃ k'' v'' r'', (valueNode k v c l r).remove cmp a = (valueNode k'' v'' c' l' r'').fixUp ∧ P r'') ∧
      ((valueNode k v c l r).remove cmp a).entries = erase cmp a (valueNode k v c l r).entries := by
  have hs' := ascending_goRight hs hgo
  cases hc : cmp a k' with
  | lt => exact absurd hc hge'
  | eq =>
    obtain ⟨sk, sv, sc, sl, sr, rest, hsmallest, hentries⟩ := min_eq_valueNode hr'
    have hbelow := hs'.below_of_eq hc
    obtain ⟨hP, hr''⟩ := hmin fun x hx => hbelow x (List.mem_of_mem_tail hx)
    have heq := remove_here hge hgo hc hr' hsmallest
    refine ⟨⟨sk, sv, _, heq, hP⟩, ?_⟩
    rw [heq, entries_fixUp, ← entries_goRight (valueNode k v c l r), hgo, entries, entries, hr'',
      hs'.erase_of_eq hc, hentries, List.tail_cons]
  | gt =>
    obtain ⟨hP, hr''⟩ := hrem (List.Pairwise.of_cons hs'.right)
    exact ⟨⟨k', v', _, remove_right hge hgo (by simp [hc]), hP⟩, entries_remove_right hs hge hgo hc hr''⟩

end

/-! ### A key that comes before all entries

After the entry of the key has been replaced by its successor, the source looks for the key in the
right child once more, where it comes before everything. -/

theorem ThreeNode.remove_below_of (h : ThreeNode c n t) (hb : Below cmp a t.entries)
    (ih : ∀ {l : FLLRBNode κ ν}, TwoNode red n l → Below cmp a l.entries →
      TwoNode red n (l.remove cmp a) ∧ (l.remove cmp a).entries = l.entries) :
    ThreeNode c n (t.remove cmp a) ∧ (t.remove cmp a).entries = t.entries := by
  have hgo := goLeft_threeNode h
  obtain ⟨hl, hr⟩ := h
  rw [entries, Below, List.forall_mem_append, List.forall_mem_cons] at hb
  obtain ⟨hl', hentries⟩ := ih hl hb.1
  rw [remove_left hb.2.1 hl.isEmpty_eq hgo]
  exact ⟨fixUp_threeNode hl' hr, by rw [entries_fixUp, entries, entries, hentries]⟩

theorem TwoNode.remove_below (h : TwoNode c n t) (hb : Below cmp a t.entries) :
    TwoNode c n (t.remove cmp a) ∧ (t.remove cmp a).entries = t.entries := by
  induction n generalizing c t with
  | zero =>
    obtain ⟨hl, hr⟩ := h
    obtain rfl := balanced_zero_iff.mp hl
    rw [entries, Below, List.forall_mem_append, List.forall_mem_cons] at hb
    rw [remove_left_emptyNode hb.2.1]
    exact ⟨fixUp_twoNode hl hr, entries_fixUp _⟩
  | succ n ih =>
    obtain @⟨k, v, l, r, hl, hr⟩ := h
    have hlt : cmp a k = .lt := hb (k, v) (by simp [entries])
    have hne := hl.isEmpty_eq
    rcases goLeft_twoNode (k := k) (v := v) (c := c) hl hr with
      ⟨k', v', l', r', hgo, hl', hr', -⟩ | ⟨l', r', hgo, hl', hr'⟩
    all_goals
      rw [← entries_goLeft, hgo, entries, Below, List.forall_mem_append] at hb
      rw [remove_left hlt hne hgo, ← entries_goLeft (valueNode k v c l r), hgo, entries_fixUp, entries, entries]
    · obtain ⟨hl'', hentries⟩ := hl'.remove_below_of hb.1 fun h => ih h
      rw [hentries]
      exact ⟨fixUp_twoNode hl''.balanced hr', rfl⟩
    · obtain ⟨hl'', hentries⟩ := ih hl' hb.1
      rw [hentries]
      exact ⟨by simpa using fixUp_fourNode (c := c.flip) hl'' hr', rfl⟩

theorem ThreeNode.remove_below (h : ThreeNode c n t) (hb : Below cmp a t.entries) :
    ThreeNode c n (t.remove cmp a) ∧ (t.remove cmp a).entries = t.entries :=
  h.remove_below_of hb TwoNode.remove_below

theorem Balanced.remove_below (h : Balanced n t) (hb : Below cmp a t.entries) :
    Balanced n (t.remove cmp a) ∧ (t.remove cmp a).entries = t.entries := by
  cases n with
  | zero =>
    obtain rfl := balanced_zero_iff.mp h
    rw [remove]
    exact ⟨.emptyNode, rfl⟩
  | succ n =>
    rcases balanced_succ_iff.mp h with h | h
    · exact (h.remove_below hb).imp_left TwoNode.balanced
    · exact (h.remove_below hb).imp_left ThreeNode.balanced

theorem Grown.remove_below (h : Grown n t) (hb : Below cmp a t.entries) :
    Grown n (t.remove cmp a) ∧ (t.remove cmp a).entries = t.entries := by
  rcases h with h | h
  · exact (h.remove_below hb).imp_left .inl
  · exact (h.remove_below hb).imp_left .inr

/-! ### Any key -/

/-- `remove:` on a node without children. -/
theorem remove_single :
    Shrunk c 0 ((valueNode k v c emptyNode emptyNode).remove cmp a) ∧
      ((valueNode k v c emptyNode emptyNode).remove cmp a).entries = erase cmp a [(k, v)] := by
  have hgo : (valueNode k v c emptyNode emptyNode).goRight = valueNode k v c emptyNode emptyNode := by
    simp [goRight]
  have hfix : TwoNode c 0 (valueNode k v c emptyNode emptyNode).fixUp := fixUp_twoNode .emptyNode .emptyNode
  cases hc : cmp a k with
  | lt =>
    rw [remove_left_emptyNode hc, entries_fixUp, erase_cons_of_ne (by simp [hc])]
    exact ⟨.inl hfix, rfl⟩
  | eq =>
    have hempty : (valueNode k v c emptyNode emptyNode).remove cmp a = emptyNode := by
      rw [remove, if_neg (by simp [hc])]
      simp [hgo, isSame, hc]
    rw [hempty, erase_cons_of_eq hc]
    exact ⟨.inr (.inr ⟨rfl, rfl⟩), rfl⟩
  | gt =>
    rw [remove_right (by simp [hc]) hgo (by simp [hc]), remove, entries_fixUp, erase_cons_of_ne (by simp [hc])]
    exact ⟨.inl hfix, rfl⟩

section
variable [TransCmp cmp]

section
variable (ih : ∀ {t : FLLRBNode κ ν}, TwoNode red n t → Ascending cmp t.entries →
  Shrunk red n (t.remove cmp a) ∧ (t.remove cmp a).entries = erase cmp a t.entries)
include ih

/-- A step of `remove:` into a red right child. -/
theorem remove_red_right {k' : κ} {v' : ν} {c' : FLLRBColor} {l' r' : FLLRBNode κ ν}
    (hs : Ascending cmp (valueNode k v c l r).entries) (hge : cmp a k ≠ .lt)
    (hgo : (valueNode k v c l r).goRight = valueNode k' v' c' l' r') (hge' : cmp a k' ≠ .lt)
    (hr' : TwoNode red n r') :
    (∃ k'' v'' r'', (valueNode k v c l r).remove cmp a = (valueNode k'' v'' c' l' r'').fixUp ∧ Grown n r'') ∧
      ((valueNode k v c l r).remove cmp a).entries = erase cmp a (valueNode k v c l r).entries := by
  refine remove_right_or_here hs hge hgo hge' hr'.isEmpty_eq ?_ ?_
  · intro hs'
    exact (ih hr' hs').imp_left Shrunk.grown
  · intro hb
    obtain ⟨hshape, hentries⟩ := hr'.removeMin
    rw [← hentries] at hb ⊢
    exact hshape.grown.remove_below hb

/-- `remove:` at a node over three trees that leans to the right, or to the right of it; `goRight` makes
such nodes on the way down. -/
theorem remove_rightThreeNode_of (hl : Balanced n l) (hr : TwoNode red n r)
    (hs : Ascending cmp (valueNode k v c l r).entries) (hge : cmp a k ≠ .lt) :
    (TwoNode c n ((valueNode k v c l r).remove cmp a) ∨ ThreeNode c n ((valueNode k v c l r).remove cmp a)) ∧
      ((valueNode k v c l r).remove cmp a).entries = erase cmp a (valueNode k v c l r).entries := by
  obtain ⟨⟨k', v', r', heq, hr'⟩, hentries⟩ :=
    remove_red_right ih hs hge (goRight_rightThreeNode hl hr) hge hr
  refine ⟨?_, hentries⟩
  rw [heq]
  exact fixUp_grown_right hl hr'

theorem ThreeNode.remove_of (h : ThreeNode c n t) (hs : Ascending cmp t.entries) :
    (TwoNode c n (t.remove cmp a) ∨ ThreeNode c n (t.remove cmp a)) ∧
      (t.remove cmp a).entries = erase cmp a t.entries := by
  have hgo := goLeft_threeNode h
  obtain @⟨k, v, l, r, hl, hr⟩ := h
  by_cases hlt : cmp a k = .lt
  · obtain ⟨hl', hentries⟩ := ih hl (ascending_goLeft hs hgo).left
    refine ⟨?_, entries_remove_left hs hlt hl.isEmpty_eq hgo List.mem_cons_self hentries⟩
    rw [remove_left hlt hl.isEmpty_eq hgo]
    exact fixUp_grown_left hl'.grown hr
  · obtain @⟨lk, lv, ll, lr, hll, hlr⟩ := hl
    have hgt : cmp a lk = .gt := Ascending.above (e := (k, v)) hs hlt (lk, lv) (by simp [entries])
    obtain ⟨⟨k', v', r', heq, hr'⟩, hentries⟩ :=
      remove_red_right ih hs hlt goRight_threeNode (by simp [hgt]) ⟨hlr, hr⟩
    refine ⟨?_, hentries⟩
    rw [heq]
    exact fixUp_grown_right hll hr'

/-- `remove:` to the left of a node over two trees that are not empty. -/
theorem TwoNode.remove_left_of (hl : Balanced (n + 1) l) (hr : Balanced (n + 1) r)
    (hs : Ascending cmp (valueNode k v c l r).entries) (hlt : cmp a k = .lt) :
    Shrunk c (n + 1) ((valueNode k v c l r).remove cmp a) ∧
      ((valueNode k v c l r).remove cmp a).entries = erase cmp a (valueNode k v c l r).entries := by
  have hne := hl.isEmpty_eq
  rcases goLeft_twoNode (k := k) (v := v) (c := c) hl hr with
    ⟨k', v', l', r', hgo, hl', hr', hk'⟩ | ⟨l', r', hgo, hl', hr'⟩
  · obtain ⟨hl'', hentries⟩ := hl'.remove_of ih (ascending_goLeft hs hgo).left
    refine ⟨.inl ?_, entries_remove_left hs hlt hne hgo hk' hentries⟩
    rw [remove_left hlt hne hgo]
    exact fixUp_twoNode (balanced_succ_iff.mpr hl'') hr'
  · obtain ⟨hl'', hentries⟩ := ih hl' (ascending_goLeft hs hgo).left
    refine ⟨?_, entries_remove_left hs hlt hne hgo List.mem_cons_self hentries⟩
    rw [remove_left hlt hne hgo]
    rcases fixUp_grown_left_red (c := c.flip) hl''.grown hr' with h | h
    · exact .inr (.inl ⟨n, rfl, h⟩)
    · exact .inl (by simpa using h)

/-- `remove:` at a node over two trees that are not empty, or to the right of it. -/
theorem TwoNode.remove_right_of (hl : Balanced (n + 1) l) (hr : Balanced (n + 1) r)
    (hs : Ascending cmp (valueNode k v c l r).entries) (hge : cmp a k ≠ .lt) :
    Shrunk c (n + 1) ((valueNode k v c l r).remove cmp a) ∧
      ((valueNode k v c l r).remove cmp a).entries = erase cmp a (valueNode k v c l r).entries := by
  rcases goRight_twoNode (k := k) (v := v) (c := c) hl hr with
    ⟨hgo, hr'⟩ | ⟨l', r', hgo, hl', hr'⟩ | ⟨k', v', l', rl, rr, hgo, hk', hl', hrl, hrr⟩
  · have hrem (hs' : Ascending cmp r.entries) : Balanced (n + 1) (r.remove cmp a) ∧
        (r.remove cmp a).entries = erase cmp a r.entries :=
      (hr'.remove_of ih hs').imp_left balanced_succ_iff.mpr
    have hmin (hb : Below cmp a r.entries.tail) : Balanced (n + 1) (r.removeMin.remove cmp a) ∧
        (r.removeMin.remove cmp a).entries = r.entries.tail := by
      obtain ⟨hshape, hentries⟩ := hr'.removeMin
      rw [← hentries] at hb ⊢
      exact (balanced_succ_iff.mpr hshape).remove_below hb
    obtain ⟨⟨k', v', r', heq, hr''⟩, hentries⟩ :=
      remove_right_or_here hs hge hgo hge hr'.isEmpty_eq hrem hmin
    refine ⟨.inl ?_, hentries⟩
    rw [heq]
    exact fixUp_twoNode hl hr''
  · obtain ⟨⟨k', v', r'', heq, hr''⟩, hentries⟩ := remove_red_right ih hs hge hgo hge hr'
    refine ⟨?_, hentries⟩
    rw [heq]
    rcases fixUp_red_grown_right (c := c.flip) hl' hr'' with h | h
    · exact .inr (.inl ⟨n, rfl, h⟩)
    · exact .inl (by simpa using h)
  · -- the key moved to the top comes before the one that was there, so the key is not it
    have hgt : cmp a k' = .gt := Ascending.above (e := (k, v)) hs hge (k', v') hk'
    obtain ⟨hr', hentries⟩ := remove_rightThreeNode_of ih (c := black) hrl hrr
      (List.Pairwise.of_cons (ascending_goRight hs hgo).right) hge
    refine ⟨.inl ?_, entries_remove_right hs hge hgo hgt hentries⟩
    rw [remove_right hge hgo (by simp [hgt])]
    exact fixUp_twoNode hl' (balanced_succ_iff.mpr hr')

end

/-- **`remove:` removes the entry of the key and nothing else**, and keeps the tree balanced. -/
theorem TwoNode.remove (h : TwoNode c n t) (hs : Ascending cmp t.entries) :
    Shrunk c n (t.remove cmp a) ∧ (t.remove cmp a).entries = erase cmp a t.entries := by
  induction n generalizing c t with
  | zero =>
    obtain ⟨hl, hr⟩ := h
    obtain rfl := balanced_zero_iff.mp hl
    obtain rfl := balanced_zero_iff.mp hr
    exact remove_single
  | succ n ih =>
    obtain @⟨k, v, l, r, hl, hr⟩ := h
    by_cases hlt : cmp a k = .lt
    · exact TwoNode.remove_left_of ih hl hr hs hlt
    · exact TwoNode.remove_right_of ih hl hr hs hlt

theorem ThreeNode.remove (h : ThreeNode c n t) (hs : Ascending cmp t.entries) :
    (TwoNode c n (t.remove cmp a) ∨ ThreeNode c n (t.remove cmp a)) ∧
      (t.remove cmp a).entries = erase cmp a t.entries := h.remove_of TwoNode.remove hs

end

/-! ## The root -/

theorem TwoNode.withColor (h : TwoNode c n t) : Balanced (n + 1) (t.withColor black) := by
  obtain ⟨hl, hr⟩ := h
  exact .twoNode hl hr

theorem ThreeNode.withColor (h : ThreeNode c n t) : Balanced (n + 1) (t.withColor black) := by
  obtain ⟨⟨hll, hlr⟩, hr⟩ := h
  exact .threeNode hll hlr hr

theorem Balanced.withColor (h : Balanced n t) : Balanced n (t.withColor black) := by
  cases h with
  | emptyNode => exact .emptyNode
  | twoNode hl hr => exact .twoNode hl hr
  | threeNode hll hlr hr => exact .threeNode hll hlr hr

/-- An insertion with the root painted black. -/
theorem Balanced.insertKey_root (h : Balanced n t) :
    ∃ m, Balanced m ((t.insertKey cmp a w).withColor black) := by
  rcases h.insertKey with h | h
  · exact ⟨_, h.withColor⟩
  · exact ⟨_, h.withColor⟩

/-- A removal with the root painted black. -/
theorem Balanced.remove_root [TransCmp cmp] (h : Balanced n t) (hs : Ascending cmp t.entries) :
    (∃ m, Balanced m ((t.remove cmp a).withColor black)) ∧
      (t.remove cmp a).entries = erase cmp a t.entries := by
  cases n with
  | zero =>
    obtain rfl := balanced_zero_iff.mp h
    rw [remove]
    exact ⟨⟨0, .emptyNode⟩, rfl⟩
  | succ n =>
    rcases balanced_succ_iff.mp h with h | h
    · obtain ⟨hshape, hentries⟩ := h.remove hs
      refine ⟨?_, hentries⟩
      rcases hshape with h | ⟨m, -, h⟩ | ⟨-, h⟩
      · exact ⟨_, h.withColor⟩
      · exact ⟨_, h.withColor⟩
      · rw [h]
        exact ⟨0, .emptyNode⟩
    · obtain ⟨hshape, hentries⟩ := h.remove hs
      exact ⟨⟨_, (balanced_succ_iff.mpr hshape).withColor⟩, hentries⟩

/-! ## The tree's own check -/

/-- The exceptions of `check`. -/
inductive CheckException (ν : Type*) where
  /-- `Red node has a red child` -/
  | redChild
  /-- `Right child is red` -/
  | redRightChild
  /-- `(value -> color)blackDepth: … ; self.right check: …` -/
  | blackDepth (value : ν) (color : FLLRBColor) (left right : Nat)
  deriving DecidableEq, Repr

def check : FLLRBNode κ ν → Except (CheckException ν) Nat
  | emptyNode => .ok 0
  | valueNode _ v c l r =>
    if c = red ∧ l.isRed = true then .error .redChild
    else if r.isRed then .error .redRightChild
    else l.check.bind fun depth => r.check.bind fun rightDepth =>
      if depth ≠ rightDepth then .error (.blackDepth v c depth rightDepth)
      else .ok (depth + if c = red then 0 else 1)

def checkMaxDepth (t : FLLRBNode κ ν) : Except (CheckException ν) Bool :=
  t.check.map fun blackDepth => 2 ^ blackDepth ≤ t.count + 1

theorem check_valueNode (hc : c = red → l.isRed = false) (hr : r.isRed = false) (hl' : l.check = .ok n)
    (hr' : r.check = .ok n) : (valueNode k v c l r).check = .ok (n + if c = red then 0 else 1) := by
  have hred : ¬(c = red ∧ l.isRed = true) := fun h => by simp [hc h.1] at h
  rw [check, if_neg hred, if_neg (by simp [hr]), hl', hr']
  simp [Except.bind]

theorem Balanced.check_eq (h : Balanced n t) : t.check = .ok n := by
  induction h with
  | emptyNode => rfl
  | twoNode hl hr ihl ihr => exact check_valueNode (by simp) hr.isRed_eq ihl ihr
  | threeNode hll hlr hr ihll ihlr ihr =>
    exact check_valueNode (by simp) hr.isRed_eq
      (check_valueNode (fun _ => hll.isRed_eq) hlr.isRed_eq ihll ihlr) ihr

/-- A tree of black height `n` has at least `2 ^ n - 1` entries. -/
theorem Balanced.two_pow_le (h : Balanced n t) : 2 ^ n ≤ t.count + 1 := by
  induction h with
  | emptyNode => simp [count]
  | twoNode hl hr ihl ihr =>
    rw [count, Nat.pow_succ]
    omega
  | threeNode hll hlr hr ihll ihlr ihr =>
    rw [count, count, Nat.pow_succ]
    omega

theorem Balanced.checkMaxDepth_eq (h : Balanced n t) : t.checkMaxDepth = .ok true := by
  rw [checkMaxDepth, h.check_eq]
  simp [Except.map, h.two_pow_le]

end

end FLLRBNode

end ChatApplication
