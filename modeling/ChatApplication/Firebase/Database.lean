import ChatApplication.Halper.ChatSharedClass
import ChatApplication.Lib.Separator

/-!
# The Realtime Database as the application uses it (vendored `FirebaseDatabase`)

The database is a tree of leaves; a reference is a path.  This module embeds the parts of the
vendored client that decide what the application reads and writes: path validation and
splitting (`FValidation`, `FPath`), the conversion of written values to nodes
(`FSnapshotUtilities`), and the export of a node to Foundation values
(`FChildrenNode valForExport:`), which turns a node with small integer keys into an array.

* `child_of_isValidKey` — a valid key names exactly one child.
* `valForExport_nodeFrom_strings` — a dictionary of strings is read back as it was written.
* `exportChildren_eq_array`, `exportChildren_eq_dictionary` — the two shapes of an exported node.
-/

namespace ChatApplication

/-- The exception the client raises for a malformed path. -/
inductive NSException where
  | invalidPathValidation
  deriving DecidableEq, Repr

/-! ## Paths -/

/-- `kInvalidPathCharacters`. -/
def kInvalidPathCharacters : List Char := ['[', ']', '.', '#', '$']

/-- `kInvalidKeyCharacters`. -/
def kInvalidKeyCharacters : List Char := ['[', ']', '.', '#', '$', '/']

/-- `FValidation isValidPathString:`. -/
def isValidPathString (s : String) : Bool :=
  !s.toList.isEmpty && s.toList.all (fun c => !kInvalidPathCharacters.contains c)

/-- `FValidation isValidKey:`. -/
def isValidKey (s : String) : Bool :=
  !s.toList.isEmpty && s.toList.all (fun c => !kInvalidKeyCharacters.contains c)

/-- `FPath initWith:`: the non-empty pieces between slashes. -/
def pathPieces (s : String) : List String :=
  ((s.toList.splitOn '/').filter (fun piece => !piece.isEmpty)).map String.ofList

/-- `FIRDatabaseReference child:` below the root. -/
def child (path : List String) (pathString : String) : Except NSException (List String) :=
  if isValidPathString pathString then .ok (path ++ pathPieces pathString)
  else .error .invalidPathValidation

theorem isValidPathString_iff {s : String} :
    isValidPathString s = true ↔ s.toList ≠ [] ∧ ∀ c ∈ s.toList, c ∉ kInvalidPathCharacters := by
  simp [isValidPathString, List.all_eq_true]

theorem isValidKey_iff {s : String} :
    isValidKey s = true ↔ s.toList ≠ [] ∧ ∀ c ∈ s.toList, c ∉ kInvalidKeyCharacters := by
  simp [isValidKey, List.all_eq_true]

/-- A valid key is a valid path of one piece. -/
theorem child_of_isValidKey {s : String} (h : isValidKey s = true) (path : List String) :
    child path s = .ok (path ++ [s]) := by
  obtain ⟨hne, hc⟩ := isValidKey_iff.mp h
  have hvalid : isValidPathString s = true := by
    rw [isValidPathString_iff]
    refine ⟨hne, fun c hmem hbad => hc c hmem ?_⟩
    simp only [kInvalidPathCharacters, kInvalidKeyCharacters, List.mem_cons] at hbad ⊢
    tauto
  have hslash : ∀ c ∈ s.toList, (c == '/') = false := by
    intro c hmem
    rw [beq_eq_false_iff_ne]
    rintro rfl
    exact hc _ hmem (by decide)
  have hpieces : pathPieces s = [s] := by
    unfold pathPieces List.splitOn
    rw [List.splitOnP_eq_singleton hslash]
    simp [hne]
  simp [child, hvalid, hpieces]

/-- The pieces of a path hold all its characters but the slashes. -/
theorem flatMap_pathPieces (s : String) :
    (pathPieces s).flatMap String.toList = s.toList.filter (fun c => c ≠ '/') := by
  rw [← Separator.flatten_splitOn, pathPieces, List.flatMap_map, List.flatMap_def]
  simp [List.flatten_filter_not_isEmpty]

/-! ## Values and nodes -/

/-- A leaf value of the database. -/
inductive Leaf where
  | string (s : String)
  | number (n : NSNumber)
  deriving DecidableEq, Repr

abbrev FNode := PathTree Leaf

/-- Prepend a child; a child without data is left out. -/
def consChild (k : String) (n : FNode) (c : List (String × FNode)) : List (String × FNode) :=
  match n with
  | .node [] => c
  | n => (k, n) :: c

/-- A list as children under the keys `"i"`, `"i+1"`, …; elements without data leave gaps. -/
def indexChildren : Nat → List FNode → List (String × FNode)
  | _, [] => []
  | i, n :: ns => consChild (toString i) n (indexChildren (i + 1) ns)

mutual

/-- `FSnapshotUtilities nodeFrom:`: a value as a node; `NSNull` is no data. -/
def nodeFrom : AnyValue → FNode
  | .null => .empty
  | .string s => .leaf (.string s)
  | .int i => .leaf (.number (.integer i))
  | .number n => .leaf (.number n)
  | .array a => .node (indexChildren 0 (nodesFrom a))
  | .dictionary d => .node (childrenFrom d)

def nodesFrom : List AnyValue → List FNode
  | [] => []
  | v :: vs => nodeFrom v :: nodesFrom vs

def childrenFrom : List (String × AnyValue) → List (String × FNode)
  | [] => []
  | (k, v) :: d => consChild k (nodeFrom v) (childrenFrom d)

end

/-- `FUtilities intForString:` on a key of ASCII digits. -/
def intForString (key : String) : Option Nat := digitsValue key.toList

/-- A key that counts as an array index: an integer without leading zeros. -/
def isIndexKey (key : String) : Bool :=
  match key.toList with
  | '0' :: _ :: _ => false
  | _ => (intForString key).isSome

/-- `FChildrenNode valForExport:` on the exported children: `NSNull` when there are none, an
array when all keys are integers and the largest is below twice their number, else a
dictionary. -/
def exportChildren (c : List (String × AnyValue)) : AnyValue :=
  let maxKey := (c.filterMap fun e => intForString e.1).foldl max 0
  if c.isEmpty then .null
  else if c.all (fun e => isIndexKey e.1) && decide (maxKey < 2 * c.length) then
    .array ((List.range (maxKey + 1)).map fun i => (c.lookup (toString i)).getD .null)
  else .dictionary c

def Leaf.val : Leaf → AnyValue
  | .string s => .string s
  | .number n => .number n

mutual

/-- `FNode val`. -/
def valForExport : FNode → AnyValue
  | .leaf a => a.val
  | .node c => exportChildren (valsForExport c)

def valsForExport : List (String × FNode) → List (String × AnyValue)
  | [] => []
  | (k, n) :: c => (k, valForExport n) :: valsForExport c

end

theorem valsForExport_eq (c : List (String × FNode)) :
    valsForExport c = c.map fun e => (e.1, valForExport e.2) := by
  induction c with
  | nil => rfl
  | cons e c ih => obtain ⟨k, n⟩ := e; simp [valsForExport, ih]

theorem childrenFrom_strings (d : List (String × String)) :
    childrenFrom (d.map fun e => (e.1, .string e.2)) =
      d.map fun e => (e.1, .leaf (.string e.2)) := by
  induction d with
  | nil => rfl
  | cons e d ih => simp [childrenFrom, nodeFrom, consChild, ih]

/-! ## The two shapes of a node -/

/-- Every key is an integer without leading zeros, below twice the number of keys. -/
def ArrayKeys {β : Type} (c : List (String × β)) : Prop :=
  ∀ e ∈ c, isIndexKey e.1 = true ∧ ∃ i, intForString e.1 = some i ∧ i < 2 * c.length

/-- The array of a node with such keys. -/
def childArray (c : List (String × AnyValue)) : List AnyValue :=
  (List.range ((c.filterMap fun e => intForString e.1).foldl max 0 + 1)).map fun i =>
    (c.lookup (toString i)).getD .null

theorem foldl_max_lt_iff {l : List Nat} {a n : Nat} :
    l.foldl max a < n ↔ a < n ∧ ∀ x ∈ l, x < n := by
  induction l generalizing a with
  | nil => simp
  | cons x l ih =>
    rw [List.foldl_cons, ih, max_lt_iff, List.forall_mem_cons, and_assoc]

theorem isSome_intForString {key : String} (h : isIndexKey key = true) :
    ∃ i, intForString key = some i := by
  unfold isIndexKey at h
  split at h
  · cases h
  · exact Option.isSome_iff_exists.mp h

/-- The test of `valForExport:`. -/
theorem arrayKeys_iff {c : List (String × AnyValue)} (hne : c ≠ []) :
    ArrayKeys c ↔ (c.all (fun e => isIndexKey e.1) &&
      decide ((c.filterMap fun e => intForString e.1).foldl max 0 < 2 * c.length)) = true := by
  have hpos := List.length_pos_iff.mpr hne
  rw [Bool.and_eq_true, List.all_eq_true, decide_eq_true_eq, foldl_max_lt_iff,
    and_iff_right (show 0 < 2 * c.length by omega)]
  constructor
  · intro h
    refine ⟨fun e he => (h e he).1, fun i hi => ?_⟩
    obtain ⟨e, he, hkey⟩ := List.mem_filterMap.mp hi
    obtain ⟨-, j, hj, hlt⟩ := h e he
    rw [hj, Option.some.injEq] at hkey
    rw [← hkey]
    exact hlt
  · rintro ⟨hall, hlt⟩ e he
    obtain ⟨i, hi⟩ := isSome_intForString (hall e he)
    exact ⟨hall e he, i, hi, hlt i (List.mem_filterMap.mpr ⟨e, he, hi⟩)⟩

theorem exportChildren_eq_array {c : List (String × AnyValue)} (hne : c ≠ []) (h : ArrayKeys c) :
    exportChildren c = .array (childArray c) := by
  rw [exportChildren, if_neg (by simpa using hne), if_pos ((arrayKeys_iff hne).mp h), childArray]

theorem exportChildren_eq_dictionary {c : List (String × AnyValue)} (hne : c ≠ []) (h : ¬ ArrayKeys c) :
    exportChildren c = .dictionary c := by
  rw [exportChildren, if_neg (by simpa using hne), if_neg (fun htest => h ((arrayKeys_iff hne).mpr htest))]

/-- A node with a key that is not an array index is exported as a dictionary. -/
theorem exportChildren_of_not_index {c : List (String × AnyValue)} {k : String} {v : AnyValue}
    (hmem : (k, v) ∈ c) (hk : isIndexKey k = false) : exportChildren c = .dictionary c := by
  refine exportChildren_eq_dictionary (List.ne_nil_of_mem hmem) fun h => ?_
  have hindex := (h _ hmem).1
  rw [hk] at hindex
  cases hindex

/-- A dictionary of strings is exported as it was written, when some key is not an index. -/
theorem valForExport_nodeFrom_strings {d : List (String × String)} {k : String}
    (hmem : k ∈ d.map Prod.fst) (hk : isIndexKey k = false) :
    valForExport (nodeFrom (.dictionary (d.map fun e => (e.1, .string e.2)))) =
      .dictionary (d.map fun e => (e.1, .string e.2)) := by
  obtain ⟨e, he, rfl⟩ := List.mem_map.mp hmem
  have hvals : valsForExport (childrenFrom (d.map fun e => (e.1, .string e.2))) =
      d.map fun e => (e.1, .string e.2) := by
    rw [childrenFrom_strings, valsForExport_eq, List.map_map]
    rfl
  rw [nodeFrom, valForExport, hvals]
  exact exportChildren_of_not_index (List.mem_map.mpr ⟨e, he, rfl⟩) hk

/-- An order in which Swift enumerates dictionaries; it differs between runs and devices. -/
structure Enumeration where
  order : Dict → Dict
  perm : ∀ d, (order d).Perm d

/-- The value of a snapshot whose dictionary is enumerated in the given order. -/
def Enumeration.apply (e : Enumeration) : AnyValue → AnyValue
  | .dictionary d => .dictionary (e.order d)
  | v => v

/-- `FIRDataSnapshot` of a node: `nil` when the node does not exist, else its value. -/
def snapshotValue (n : FNode) : Option AnyValue :=
  match n with
  | .node [] => none
  | n => some (valForExport n)

theorem snapshotValue_of_children {n : FNode} (h : n.children ≠ []) : snapshotValue n = some (valForExport n) := by
  unfold snapshotValue
  split
  · exact absurd rfl h
  · rfl

end ChatApplication
