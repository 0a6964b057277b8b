import Mathlib.Data.Sym.Sym2
import ChatApplication.Halper.ChatHalper
import ChatApplication.Lib.Separator

/-!
# Conversation keys

`createNode` names the conversation of two users by the greater id, an underscore and the lesser
id.  The name is symmetric for all non-empty ids.  It is injective on unordered pairs as long as
the ids do not contain the underscore themselves, which holds for Google ids (decimal digits);
nothing in the application checks it.

* `createNode_eq_max_min` — the name in terms of the order of the ids.
* `createNode_separates` — when two pairs of ids share a node, exactly.
* `isValidPathString_createNode` — when the name is a path the database accepts.
* `trimmed_of_pathPieces_eq` — white space at the ends of an id leads to another node.
* `UserId.createNode_inj` — digit ids: equal nodes, equal unordered pairs.
-/

namespace ChatApplication

open Separator

/-! ## The name -/

theorem createNode_eq_max_min {a b : String} (ha : a ≠ "") :
    createNode a b = max a b ++ "_" ++ min a b := by
  have hemp : a.isEmpty = false := by simpa using ha
  unfold createNode
  rw [hemp, if_neg (by simp)]
  split
  · rename_i h
    rw [max_eq_left h.le, min_eq_right h.le]
  · rename_i h
    rw [max_eq_right (not_lt.mp h), min_eq_left (not_lt.mp h)]

theorem createNode_comm {a b : String} (ha : a ≠ "") (hb : b ≠ "") :
    createNode a b = createNode b a := by
  rw [createNode_eq_max_min ha, createNode_eq_max_min hb, max_comm, min_comm]

/-- The greater id of `{c, d}` goes on after the greater id of `{a, b}` with an underscore, and
the lesser id of `{a, b}` makes up for it. -/
def Overlap (a b c d : String) : Prop :=
  ∃ m, max c d = max a b ++ "_" ++ m ∧ min a b = m ++ "_" ++ min c d

theorem toList_join (a b : String) : (a ++ "_" ++ b).toList = a.toList ++ '_' :: b.toList := by
  simp

theorem join_eq_join_iff {u v u' v' : String} :
    u ++ "_" ++ v = u' ++ "_" ++ v' ↔
      (u = u' ∧ v = v') ∨ (∃ m, u' = u ++ "_" ++ m ∧ v = m ++ "_" ++ v') ∨
        (∃ m, u = u' ++ "_" ++ m ∧ v' = m ++ "_" ++ v) := by
  have hshift : ∀ x y : String, ∀ l : List Char, x = y ++ "_" ++ String.ofList l ↔
      x.toList = y.toList ++ '_' :: l := by
    intro x y l
    rw [← String.toList_inj, toList_join, String.toList_ofList]
  have hcons : ∀ x y : String, ∀ l : List Char, x = String.ofList l ++ "_" ++ y ↔
      x.toList = l ++ '_' :: y.toList := by
    intro x y l
    rw [← String.toList_inj, toList_join, String.toList_ofList]
  have hex : ∀ x y z w : String, (∃ m, x = y ++ "_" ++ m ∧ z = m ++ "_" ++ w) ↔
      ∃ l, x.toList = y.toList ++ '_' :: l ∧ z.toList = l ++ '_' :: w.toList := by
    intro x y z w
    constructor
    · rintro ⟨m, h₁, h₂⟩
      exact ⟨m.toList, (hshift _ _ _).mp (by simpa using h₁), (hcons _ _ _).mp (by simpa using h₂)⟩
    · rintro ⟨l, h₁, h₂⟩
      exact ⟨String.ofList l, (hshift _ _ _).mpr h₁, (hcons _ _ _).mpr h₂⟩
  rw [hex, hex, ← String.toList_inj, toList_join, toList_join, append_sep_eq_iff, String.toList_inj,
    String.toList_inj]

theorem pair_eq_iff_max_min (a b c d : String) :
    s(a, b) = s(c, d) ↔ max a b = max c d ∧ min a b = min c d := by
  rw [Sym2.eq_iff]
  constructor
  · rintro (⟨rfl, rfl⟩ | ⟨rfl, rfl⟩)
    · exact ⟨rfl, rfl⟩
    · exact ⟨max_comm _ _, min_comm _ _⟩
  · rintro ⟨hmax, hmin⟩
    rcases le_total a b with hab | hab <;> rcases le_total c d with hcd | hcd <;>
      simp only [max_eq_left, max_eq_right, min_eq_left, min_eq_right, hab, hcd] at hmax hmin
    · exact .inl ⟨hmin, hmax⟩
    · exact .inr ⟨hmin, hmax⟩
    · exact .inr ⟨hmax, hmin⟩
    · exact .inl ⟨hmax, hmin⟩

/-- Two pairs of ids share a node exactly when they are equal or overlap. -/
theorem createNode_eq_iff {a b c d : String} (ha : a ≠ "") (hc : c ≠ "") :
    createNode a b = createNode c d ↔ s(a, b) = s(c, d) ∨ Overlap a b c d ∨ Overlap c d a b := by
  rw [createNode_eq_max_min ha, createNode_eq_max_min hc, join_eq_join_iff, pair_eq_iff_max_min]
  rfl

/-! ## The path -/

theorem createNode_perm {a b : String} (ha : a ≠ "") :
    (createNode a b).toList.Perm ('_' :: (a.toList ++ b.toList)) := by
  rw [createNode_eq_max_min ha, toList_join]
  refine List.perm_middle.trans (List.Perm.cons _ ?_)
  rcases le_total a b with hab | hab
  · rw [max_eq_right hab, min_eq_left hab]
    exact List.perm_append_comm
  · rw [max_eq_left hab, min_eq_right hab]

/-- The name of a conversation is a valid path exactly when both ids have only valid characters. -/
theorem isValidPathString_createNode {a b : String} (ha : a ≠ "") :
    isValidPathString (createNode a b) = true ↔
      ∀ c ∈ a.toList ++ b.toList, c ∉ kInvalidPathCharacters := by
  have hmem : ∀ c, c ∈ (createNode a b).toList ↔ c = '_' ∨ c ∈ a.toList ++ b.toList := by
    intro c
    rw [(createNode_perm ha).mem_iff, List.mem_cons]
  rw [isValidPathString_iff]
  constructor
  · intro h c hc
    exact h.2 c ((hmem c).mpr (.inr hc))
  · intro h
    refine ⟨List.ne_nil_of_mem ((hmem '_').mpr (.inl rfl)), fun c hc => ?_⟩
    rcases (hmem c).mp hc with rfl | hc
    · decide
    · exact h c hc

/-- The white space of the ids is in the path of their conversation. -/
theorem countP_pathPieces_createNode {a b : String} (ha : a ≠ "") :
    ((pathPieces (createNode a b)).flatMap String.toList).countP isWhitespaceOrNewline =
      a.toList.countP isWhitespaceOrNewline + b.toList.countP isWhitespaceOrNewline := by
  have hslash : ∀ c ∈ (createNode a b).toList,
      (isWhitespaceOrNewline c && decide (c ≠ '/')) = true ↔ isWhitespaceOrNewline c = true := by
    intro c _
    by_cases hc : c = '/'
    · subst hc; decide
    · simp [hc]
  rw [flatMap_pathPieces, List.countP_filter, List.countP_congr hslash, (createNode_perm ha).countP_eq,
    List.countP_cons, List.countP_append, if_neg (by decide), Nat.add_zero]

/-- An id and its trimmed form name the same conversation only when they are equal. -/
theorem trimmed_of_pathPieces_eq {a b : String} (ha : a ≠ "")
    (h : pathPieces (createNode a b) =
      pathPieces (createNode a (stringByTrimmingWhiteSpaceAndNewLine b))) : Trimmed b := by
  have hcount := congrArg (fun ps => (ps.flatMap String.toList).countP isWhitespaceOrNewline) h
  simp only [countP_pathPieces_createNode ha, stringByTrimmingWhiteSpaceAndNewLine,
    String.toList_ofList] at hcount
  have htrim := trimList_eq_self_of_countP (p := isWhitespaceOrNewline) (l := b.toList) (by omega)
  rw [Trimmed, stringByTrimmingWhiteSpaceAndNewLine, htrim, String.ofList_toList]

/-! ## Ids that pass the checks -/

/-- A user id that passes the guards of `sendMessage` and `receiveMessage`, is stored trimmed, and
has no character Firebase forbids in a key. -/
structure CheckedId where
  val : String
  trimmed : Trimmed val
  nonblank : getstringOf (some val) ≠ ChatParameter.emptyString
  validKey : isValidKey val = true

theorem CheckedId.ne_empty (i : CheckedId) : i.val ≠ "" := by
  intro h
  exact i.nonblank (by rw [h]; exact trimmed_empty)

theorem not_overlap {a b c d : String} (hc : '_' ∉ c.toList) (hd : '_' ∉ d.toList) :
    ¬ Overlap a b c d := by
  rintro ⟨m, hm, -⟩
  have hmem : '_' ∈ (max c d).toList := by rw [hm, toList_join]; simp
  rcases max_choice c d with h | h <;> rw [h] at hmem
  · exact hc hmem
  · exact hd hmem

/-- **Conversation keys.**  Both parties compute the same node.  Two pairs share a node exactly
when they are the same pair or the ids overlap around an underscore; so ids without underscores
are separated. -/
theorem createNode_separates (a b c d : CheckedId) :
    createNode a.val b.val = createNode b.val a.val ∧
    (createNode a.val b.val = createNode c.val d.val ↔
      s(a.val, b.val) = s(c.val, d.val) ∨ Overlap a.val b.val c.val d.val ∨
        Overlap c.val d.val a.val b.val) ∧
    ((∀ i ∈ [a, b, c, d], '_' ∉ i.val.toList) →
      (createNode a.val b.val = createNode c.val d.val ↔ s(a.val, b.val) = s(c.val, d.val))) := by
  have hiff := createNode_eq_iff (b := b.val) (d := d.val) a.ne_empty c.ne_empty
  refine ⟨createNode_comm a.ne_empty b.ne_empty, hiff, fun hsep => ?_⟩
  have ha := hsep a (by simp)
  have hb := hsep b (by simp)
  have hc := hsep c (by simp)
  have hd := hsep d (by simp)
  rw [hiff]
  simp [not_overlap hc hd, not_overlap ha hb]

/-- Digit ids as Google issues them: the conversation keys of `12`, `7` and `7`, `3` differ. -/
theorem createNode_separates_digits :
    ∃ a b c d : CheckedId, (∀ i ∈ [a, b, c, d], '_' ∉ i.val.toList) ∧
      createNode a.val b.val ≠ createNode c.val d.val := by
  let a : CheckedId := ⟨"12", by decide, by decide, by decide⟩
  let b : CheckedId := ⟨"7", by decide, by decide, by decide⟩
  let d : CheckedId := ⟨"3", by decide, by decide, by decide⟩
  have hsep : ∀ i ∈ [a, b, b, d], '_' ∉ i.val.toList := by decide
  refine ⟨a, b, b, d, hsep, ?_⟩
  rw [Ne, (createNode_separates a b b d).2.2 hsep]
  decide

/-- The ids `b_a`, `a` and `b`, `a_a` pass every check and share the node `b_a_a`. -/
theorem createNode_not_separating :
    ¬ ∀ a b c d : CheckedId,
      (createNode a.val b.val = createNode c.val d.val ↔ s(a.val, b.val) = s(c.val, d.val)) := by
  intro h
  have := h ⟨"b_a", by decide, by decide, by decide⟩ ⟨"a", by decide, by decide, by decide⟩
    ⟨"b", by decide, by decide, by decide⟩ ⟨"a_a", by decide, by decide, by decide⟩
  revert this
  decide

/-! ## Google ids -/

/-- A Google user id: a non-empty string of decimal digits. -/
structure UserId where
  val : String
  ne_empty : val ≠ ""
  digits : ∀ c ∈ val.toList, c.isDigit = true

namespace UserId

theorem trimmed (i : UserId) : Trimmed i.val :=
  Trimmed.of_forall fun c hc => isWhitespaceOrNewline_of_isDigit (i.digits c hc)

theorem notMem_of_not_isDigit (i : UserId) {c : Char} (h : c.isDigit = false) : c ∉ i.val.toList := by
  intro hc
  rw [i.digits c hc] at h
  cases h

theorem no_underscore (i : UserId) : '_' ∉ i.val.toList := i.notMem_of_not_isDigit (by decide)

/-- Digit ids: equal nodes, equal unordered pairs. -/
theorem createNode_inj {a b c d : UserId} :
    createNode a.val b.val = createNode c.val d.val ↔ s(a.val, b.val) = s(c.val, d.val) := by
  rw [createNode_eq_iff a.ne_empty c.ne_empty]
  simp [not_overlap c.no_underscore d.no_underscore, not_overlap a.no_underscore b.no_underscore]

end UserId

end ChatApplication
