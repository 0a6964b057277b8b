import ChatApplication.Firebase.CompoundWrite
import ChatApplication.Firebase.KeyOrder

/-!
# The children of a node in the sorted dictionary (vendored `FChildrenNode.m`)

`FChildrenNode` keeps its children in a sorted dictionary under the order of keys, where the model of
nodes keeps them in an association list of names.  The two agree over every run of updates exactly when
the order tells the names apart; the only names that it does not are the two spellings of zero.  The
branches for `.priority`, which is the name of no child, are left out with the priorities.

* `childKey_injective` — different names are different lists of UTF-16 units.
* `updateImmediateChild_refines`, `updateChildren_refines` — one update, and any run of them.
* `children_agree_iff` — when the dictionary holds the children that the names say.
-/

namespace ChatApplication

open FImmutableSortedDictionary

/-! ## Names and units -/

/-- The units of a character tell where it ends. -/
theorem utf16_append_inj {c d : Char} {us vs : List Unichar} (h : utf16 c ++ us = utf16 d ++ vs) :
    c = d ∧ us = vs := by
  have hc := c.valid
  have hd := d.valid
  have hcn : c.toNat = c.val.toNat := rfl
  have hdn : d.toNat = d.val.toNat := rfl
  simp only [UInt32.isValidChar, Nat.isValidChar, ← hcn, ← hdn] at hc hd
  unfold utf16 at h
  split_ifs at h with h1 h2 h2
  · simp only [List.singleton_append, List.cons.injEq, Fin.mk.injEq] at h
    exact ⟨Char.toNat_inj.mp h.1, h.2⟩
  -- a unit of a pair is no character by itself
  · exfalso
    simp only [List.cons_append, List.cons.injEq, Fin.ext_iff, Fin.val_ofNat] at h
    omega
  · exfalso
    simp only [List.cons_append, List.cons.injEq, Fin.ext_iff, Fin.val_ofNat] at h
    omega
  · simp only [List.nil_append, List.cons_append, List.cons.injEq, Fin.ext_iff, Fin.val_ofNat] at h
    obtain ⟨hhi, hlo, hrest⟩ := h
    exact ⟨Char.toNat_inj.mp (by omega), hrest⟩

theorem utf16_ne_nil (c : Char) : utf16 c ≠ [] := by
  unfold utf16
  split_ifs <;> simp

theorem flatMap_utf16_injective : ∀ {cs ds : List Char}, cs.flatMap utf16 = ds.flatMap utf16 → cs = ds
  | [], [], _ => rfl
  | [], d :: ds, h => by simp [utf16_ne_nil] at h
  | c :: cs, [], h => by simp [utf16_ne_nil] at h
  | c :: cs, d :: ds, h => by
    rw [List.flatMap_cons, List.flatMap_cons] at h
    obtain ⟨rfl, hrest⟩ := utf16_append_inj h
    rw [flatMap_utf16_injective hrest]

theorem childKey_injective {a b : String} (h : childKey a = childKey b) : a = b := by
  have hunits := congrArg NSString.characters (FKey.string.inj h)
  exact String.toList_inj.mp (flatMap_utf16_injective hunits)

/-! ## One node -/

namespace FChildrenNode

/-- `getImmediateChild:`. -/
def getImmediateChild (childName : String) (children : FImmutableSortedDictionary compareKey FNode) : FNode :=
  (children.get (childKey childName)).getD .empty

/-- The children after `updateImmediateChild:withNewChild:`. -/
def updateImmediateChild (childName : String) (newChildNode : FNode)
    (children : FImmutableSortedDictionary compareKey FNode) :
    Except DictionaryException (FImmutableSortedDictionary compareKey FNode) :=
  if FNode.isEmpty newChildNode then .ok (children.removeKey (childKey childName))
  else children.insertKey (childKey childName) newChildNode

/-- The children after a run of updates. -/
def updateChildren (updates : List (String × FNode)) (children : FImmutableSortedDictionary compareKey FNode) :
    Except DictionaryException (FImmutableSortedDictionary compareKey FNode) :=
  updates.foldlM (fun children u => updateImmediateChild u.1 u.2 children) children

/-- No two of the names are the spellings of zero of one length. -/
def NoTwins (names : Set String) : Prop :=
  ∀ a ∈ names, ∀ b ∈ names, ¬(childKey a).Twins (childKey b)

variable {names : Set String} {children : FImmutableSortedDictionary compareKey FNode} {n : FNode}

/-- The dictionary holds the children of the node, as far as the names go. -/
def Holds (names : Set String) (children : FImmutableSortedDictionary compareKey FNode) (n : FNode) : Prop :=
  ∀ a ∈ names, getImmediateChild a children = n.child a

theorem eq_of_compareKey_childKey (hnames : NoTwins names) {a b : String} (ha : a ∈ names) (hb : b ∈ names)
    (h : compareKey (childKey a) (childKey b) = .eq) : a = b := by
  rcases compareKey_eq_iff.mp h with h | h
  · exact childKey_injective h
  · exact absurd h (hnames a ha b hb)

/-- What is found after one update. -/
theorem get_updateImmediateChild (childName : String) (newChildNode : FNode)
    (children : FImmutableSortedDictionary compareKey FNode) :
    ∃ children', updateImmediateChild childName newChildNode children = .ok children' ∧
      ∀ a, getImmediateChild a children' =
        if compareKey (childKey a) (childKey childName) = .eq then newChildNode
        else getImmediateChild a children := by
  rw [updateImmediateChild]
  split_ifs with hempty
  · refine ⟨_, rfl, fun a => ?_⟩
    rw [getImmediateChild, get_removeKey]
    split_ifs
    · exact (FNode.eq_empty_of_isEmpty hempty).symm
    · rfl
  · obtain ⟨children', hchildren', hget⟩ := children.insertKey_spec (childKey childName) newChildNode
    refine ⟨children', hchildren', fun a => ?_⟩
    rw [getImmediateChild, hget]
    split_ifs
    · rfl
    · rfl

/-- One update does the same to the dictionary and to the node. -/
theorem updateImmediateChild_refines (hnames : NoTwins names) {c : List (String × FNode)}
    (hholds : Holds names children (.node c)) {childName : String} (hname : childName ∈ names)
    (newChildNode : FNode) :
    ∃ children' c', updateImmediateChild childName newChildNode children = .ok children' ∧
      FNode.updateImmediateChild childName newChildNode (.node c) = .node c' ∧ Holds names children' (.node c') := by
  obtain ⟨children', hchildren', hget⟩ := get_updateImmediateChild childName newChildNode children
  refine ⟨children', _, hchildren', rfl, fun a ha => ?_⟩
  change _ = (FNode.updateImmediateChild childName newChildNode (.node c)).child a
  rw [hget]
  split_ifs with heq
  · rw [eq_of_compareKey_childKey hnames ha hname heq, FNode.child_updateImmediateChild_self]
  · have hne : childName ≠ a := by
      rintro rfl
      exact heq Std.ReflCmp.compare_self
    rw [FNode.child_updateImmediateChild_of_ne hne]
    exact hholds a ha

/-- The node after a run of updates. -/
def nodeAfter (updates : List (String × FNode)) (n : FNode) : FNode :=
  updates.foldl (fun n u => FNode.updateImmediateChild u.1 u.2 n) n

/-- A run of updates does the same to the dictionary and to the node. -/
theorem updateChildren_refines (hnames : NoTwins names) {updates : List (String × FNode)}
    (hupdates : ∀ u ∈ updates, u.1 ∈ names) {c : List (String × FNode)} (hholds : Holds names children (.node c)) :
    ∃ children', updateChildren updates children = .ok children' ∧
      Holds names children' (nodeAfter updates (.node c)) := by
  induction updates generalizing children c with
  | nil => exact ⟨children, rfl, hholds⟩
  | cons u updates ih =>
    obtain ⟨children₁, c₁, hchildren₁, hnode, hholds₁⟩ :=
      updateImmediateChild_refines hnames hholds (hupdates u List.mem_cons_self) u.2
    obtain ⟨children', hchildren', hholds'⟩ := ih (fun u' hu' => hupdates u' (List.mem_cons_of_mem _ hu')) hholds₁
    refine ⟨children', ?_, ?_⟩
    · rw [updateChildren, List.foldlM_cons, hchildren₁]
      exact hchildren'
    · rw [nodeAfter, List.foldl_cons, hnode]
      exact hholds'

/-- **The children of a node are a map from names to nodes**, over every run of updates, exactly when
no two of the names are spellings of zero. -/
theorem children_agree_iff (names : Set String) :
    NoTwins names ↔ ∀ updates : List (String × FNode), (∀ u ∈ updates, u.1 ∈ names) →
      ∃ children, updateChildren updates dictionaryWithComparator = .ok children ∧
        Holds names children (nodeAfter updates .empty) := by
  constructor
  · intro hnames updates hupdates
    exact updateChildren_refines hnames hupdates fun _ _ => rfl
  · intro h a ha b hb htwins
    have hne : b ≠ a := by
      rintro rfl
      exact htwins.ne rfl
    -- one child under the first spelling, read back under the second
    have hmem : ∀ u ∈ [(b, (.leaf (.string "") : FNode))], u.1 ∈ names := by
      intro u hu
      rw [List.mem_singleton.mp hu]
      exact hb
    obtain ⟨children, hchildren, hholds⟩ := h _ hmem
    obtain ⟨children', hchildren', hget⟩ :=
      get_updateImmediateChild b (.leaf (.string "")) dictionaryWithComparator
    rw [updateChildren, List.foldlM_cons, hchildren'] at hchildren
    cases hchildren
    have hread := hholds a ha
    have hnode : (nodeAfter [(b, .leaf (.string ""))] .empty).child a = .empty :=
      FNode.child_updateImmediateChild_of_ne hne _ []
    rw [hget, if_pos (compareKey_eq_iff.mpr (.inr htwins)), hnode] at hread
    cases hread

end FChildrenNode

end ChatApplication
