import Mathlib.Data.List.Basic

/-!
# A tree of named children addressed by paths

The data model of a hierarchical store: a tree is a leaf or a node with named children, an
empty node stands for "no data", and a path names a subtree.  `get` reads the subtree at a
path, `put` replaces it, creating the nodes above it.

* `get_put_append` — reading at a prefix of the written path sees the write below it.
* `get_put_of_diverge` — a write is invisible on paths that branch off from it.
* `leafAt_put` — the values stored outside the written subtree stay, those above it are lost.
* `List.upsert_of_notMem` — writing under a fresh name appends a child.
-/

/-- Replace the value of `k` in an association list, or append it. -/
def List.upsert {β : Type*} (k : String) (v : β) : List (String × β) → List (String × β)
  | [] => [(k, v)]
  | (k', v') :: l => if k' = k then (k, v) :: l else (k', v') :: List.upsert k v l

/-- Drop the value of `k` from an association list. -/
def List.without {β : Type*} (k : String) (l : List (String × β)) : List (String × β) :=
  l.filter fun e => e.1 ≠ k

namespace List

variable {β : Type*}

theorem mem_of_lookup_eq_some {k : String} {v : β} {l : List (String × β)} (h : l.lookup k = some v) :
    (k, v) ∈ l := by
  obtain ⟨l₁, l₂, hsplit, -⟩ := lookup_eq_some_iff.mp h
  rw [hsplit]
  simp

theorem lookup_upsert_self (k : String) (v : β) (l : List (String × β)) :
    (l.upsert k v).lookup k = some v := by
  induction l with
  | nil => simp [upsert]
  | cons e l ih =>
    obtain ⟨k', v'⟩ := e
    by_cases h : k' = k
    · simp [upsert, h]
    · simp only [upsert, h, if_false]
      rw [lookup_cons, ih]
      simp [beq_eq_false_iff_ne.mpr (Ne.symm h)]

theorem lookup_upsert_of_ne {k k' : String} (h : k ≠ k') (v : β) (l : List (String × β)) :
    (l.upsert k v).lookup k' = l.lookup k' := by
  have hb : (k' == k) = false := beq_eq_false_iff_ne.mpr (Ne.symm h)
  induction l with
  | nil => simp [upsert, lookup_cons, hb]
  | cons e l ih =>
    obtain ⟨k'', v''⟩ := e
    by_cases hk : k'' = k
    · subst hk; simp [upsert, lookup_cons, hb]
    · simp only [upsert, hk, if_false]
      rw [lookup_cons, lookup_cons, ih]

theorem lookup_without_self (k : String) (l : List (String × β)) : (l.without k).lookup k = none := by
  rw [lookup_eq_none_iff]
  intro e he
  have hne : e.1 ≠ k := by simpa using (mem_filter.mp he).2
  exact bne_iff_ne.mpr hne.symm

theorem lookup_without_of_ne {k k' : String} (h : k ≠ k') (l : List (String × β)) :
    (l.without k).lookup k' = l.lookup k' := by
  have hb : (k' == k) = false := beq_eq_false_iff_ne.mpr (Ne.symm h)
  induction l with
  | nil => rfl
  | cons e l ih =>
    obtain ⟨k'', v⟩ := e
    by_cases hk : k'' = k
    · subst hk
      rw [without, filter_cons_of_neg (by simp), lookup_cons, hb]
      exact ih
    · rw [without, filter_cons_of_pos (by simpa using hk), lookup_cons, lookup_cons, ← without, ih]

theorem mem_keys_upsert {k k' : String} {v : β} {c : List (String × β)}
    (h : k' ∈ (c.upsert k v).map Prod.fst) : k' = k ∨ k' ∈ c.map Prod.fst := by
  induction c with
  | nil => simpa [upsert] using h
  | cons e c ih =>
    obtain ⟨k'', v''⟩ := e
    by_cases hk : k'' = k
    · simp only [upsert, hk, if_true, map_cons, mem_cons] at h ⊢
      exact h.imp id .inr
    · simp only [upsert, hk, if_false, map_cons, mem_cons] at h ⊢
      rcases h with h | h
      · exact .inr (.inl h)
      · exact (ih h).imp id .inr

theorem nodup_keys_upsert {c : List (String × β)} (h : (c.map Prod.fst).Nodup) (k : String) (v : β) :
    ((c.upsert k v).map Prod.fst).Nodup := by
  induction c with
  | nil => simp [upsert]
  | cons e c ih =>
    obtain ⟨k', v'⟩ := e
    rw [map_cons, nodup_cons] at h
    by_cases hk : k' = k
    · subst hk
      simpa [upsert] using h
    · rw [upsert, if_neg hk, map_cons, nodup_cons]
      refine ⟨fun hmem => ?_, ih h.2⟩
      rcases mem_keys_upsert hmem with heq | hmem
      · exact hk heq
      · exact h.1 hmem

theorem mem_upsert {k : String} {v : β} {c : List (String × β)} {e : String × β}
    (h : e ∈ c.upsert k v) : e = (k, v) ∨ e ∈ c := by
  induction c with
  | nil => exact .inl (by simpa [upsert] using h)
  | cons e' c ih =>
    obtain ⟨k', v'⟩ := e'
    by_cases hk : k' = k
    · simp only [upsert, hk, if_true, mem_cons] at h ⊢
      exact h.imp id .inr
    · simp only [upsert, hk, if_false, mem_cons] at h ⊢
      rcases h with h | h
      · exact .inr (.inl h)
      · exact (ih h).imp id .inr

theorem upsert_of_notMem {k : String} {l : List (String × β)} (h : k ∉ l.map Prod.fst) (v : β) :
    l.upsert k v = l ++ [(k, v)] := by
  induction l with
  | nil => rfl
  | cons e l ih =>
    obtain ⟨k', v'⟩ := e
    simp only [map_cons, mem_cons, not_or] at h
    simp [upsert, Ne.symm h.1, ih h.2]

end List

/-- A tree of named children. -/
inductive PathTree (α : Type) where
  | leaf (a : α)
  | node (children : List (String × PathTree α))

namespace PathTree

variable {α : Type}

/-- No data. -/
def empty : PathTree α := .node []

def children : PathTree α → List (String × PathTree α)
  | .leaf _ => []
  | .node c => c

/-- The child under a name; no data when there is none. -/
def child (k : String) (t : PathTree α) : PathTree α := (t.children.lookup k).getD empty

/-- The subtree at a path. -/
def get : List String → PathTree α → PathTree α
  | [], t => t
  | k :: p, t => get p (t.child k)

/-- `t.put p v`: the tree `t` with the subtree at `p` replaced by `v`. -/
def put : List String → PathTree α → PathTree α → PathTree α
  | [], _, v => v
  | k :: p, t, v => .node (t.children.upsert k (put p (t.child k) v))

theorem get_append (p q : List String) (t : PathTree α) : t.get (p ++ q) = (t.get p).get q := by
  induction p generalizing t with
  | nil => rfl
  | cons k p ih => exact ih _

@[simp] theorem get_empty (p : List String) : (empty : PathTree α).get p = empty := by
  induction p with
  | nil => rfl
  | cons k p ih => exact ih

theorem child_put_self (k : String) (p : List String) (t v : PathTree α) :
    (t.put (k :: p) v).child k = (t.child k).put p v := by
  simp [put, child, children, List.lookup_upsert_self]

theorem child_put_of_ne {k k' : String} (h : k ≠ k') (p : List String) (t v : PathTree α) :
    (t.put (k :: p) v).child k' = t.child k' := by
  simp [put, child, children, List.lookup_upsert_of_ne h]

/-- Reading at a prefix of the written path sees the write below it. -/
theorem get_put_append (p q : List String) (t v : PathTree α) :
    (t.put (p ++ q) v).get p = (t.get p).put q v := by
  induction p generalizing t with
  | nil => rfl
  | cons k p ih =>
    simp only [List.cons_append, get, child_put_self]
    exact ih _

/-- A write is invisible on a path that branches off from the written one. -/
theorem get_put_of_diverge {k k' : String} (h : k ≠ k') (r p q : List String) (t v : PathTree α) :
    (t.put (r ++ k :: p) v).get (r ++ k' :: q) = t.get (r ++ k' :: q) := by
  rw [get_append, get_put_append, get_append]
  simp only [get, child_put_of_ne h]

/-- The value stored at a path itself, not below it. -/
def leafAt (t : PathTree α) (q : List String) : Option α :=
  match t.get q with
  | .leaf a => some a
  | .node _ => none

/-- Outside the written subtree every value stays, but for values on the way to it. -/
theorem leafAt_put {p q : List String} (h : ¬ p <+: q) (t v : PathTree α) :
    (t.put p v).leafAt q = if q <+: p then none else t.leafAt q := by
  induction p generalizing q t with
  | nil => exact absurd List.nil_prefix h
  | cons k p ih =>
    cases q with
    | nil => rw [if_pos List.nil_prefix]; rfl
    | cons k' q =>
      by_cases hk : k = k'
      · subst hk
        have hp : ¬ p <+: q := fun hp => h (List.cons_prefix_cons.mpr ⟨rfl, hp⟩)
        simpa [leafAt, get, child_put_self, List.cons_prefix_cons] using ih hp (t.child k)
      · rw [if_neg (fun hq => hk (List.cons_prefix_cons.mp hq).1.symm)]
        simp only [leafAt, get, child_put_of_ne hk]

/-- Writing a new child of a node. -/
theorem children_put_of_notMem {p : List String} {k : String} {t : PathTree α}
    (h : k ∉ (t.get p).children.map Prod.fst) (v : PathTree α) :
    ((t.put (p ++ [k]) v).get p).children = (t.get p).children ++ [(k, v)] := by
  rw [get_put_append]
  exact List.upsert_of_notMem h v

/-- Writes below a path, read at the path. -/
theorem get_foldl_put (p : List String) (l : List (List String × PathTree α)) (t : PathTree α) :
    (l.foldl (fun t e => t.put (p ++ e.1) e.2) t).get p =
      l.foldl (fun t e => t.put e.1 e.2) (t.get p) := by
  induction l generalizing t with
  | nil => rfl
  | cons e l ih => rw [List.foldl_cons, ih, get_put_append, List.foldl_cons]

theorem child_foldl_put_of_notMem {k : String} {l : List (String × PathTree α)}
    (h : k ∉ l.map Prod.fst) (t : PathTree α) :
    (l.foldl (fun t e => t.put [e.1] e.2) t).child k = t.child k := by
  induction l generalizing t with
  | nil => rfl
  | cons e l ih =>
    rw [List.map_cons, List.mem_cons, not_or] at h
    rw [List.foldl_cons, ih h.2, child_put_of_ne (Ne.symm h.1)]

/-- Children written one after another under different names all stay. -/
theorem child_foldl_put {l : List (String × PathTree α)} (hl : (l.map Prod.fst).Nodup)
    {k : String} {v : PathTree α} (h : (k, v) ∈ l) (t : PathTree α) :
    (l.foldl (fun t e => t.put [e.1] e.2) t).child k = v := by
  induction l generalizing t with
  | nil => cases h
  | cons e l ih =>
    rw [List.map_cons, List.nodup_cons] at hl
    rw [List.foldl_cons]
    rcases List.mem_cons.mp h with rfl | h
    · rw [child_foldl_put_of_notMem hl.1, child_put_self]
      rfl
    · exact ih hl.2 h _

end PathTree
