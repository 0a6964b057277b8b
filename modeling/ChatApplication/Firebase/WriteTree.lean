import ChatApplication.Firebase.CompoundWrite
import ChatApplication.Firebase.KeyOrder
import ChatApplication.Lib.Runs
import Mathlib.Data.List.Sort

/-!
# The writes that the server has not confirmed (vendored `FWriteTree.m`, `FWriteRecord.m`, `FRepo.m`)

Every write of the user is kept until the server has answered it, and the screens see the data of the
server with these writes laid over it.  The client keeps the writes twice: as a list, and merged into
one compound write.  When a write is answered the compound write is repaired: with nothing to do when
later writes shadow the answered one, by cutting out its paths when no other write is near, and from
scratch otherwise.

Writes are hidden only by transactions, which the application does not make; the filter of
`calculateCompleteEventCacheAtPath` for them is left out.

The repair looks for writes that overlap with the answered one at the paths at which they were made.  An
update from further up whose key is a path can write below the answered one without being seen, and is
then cut out with it.  `FWriteRecord.Sees` is the condition that this does not happen.

* `FWriteTree.removeWriteId`, `FWriteTree.resetTree` — the repair.
* `FWriteTree.Inv.removeOldest` — answering the oldest write, the compound write stays the one that is
  built from the list.
* `visible_writes_rebuilt` — over every run in which writes are answered in order and the repair sees
  every overlap.
* `event_cache_of_pending` — what a screen sees at a path is the data of the server with the pending
  writes applied one after another.
-/

namespace ChatApplication

open Runs Overwrite

/-! ## Records -/

/-- A write of the user: a value that is set, or children that are merged. -/
inductive UserWrite where
  | overwrite (node : FNode)
  | merge (changedChildren : FCompoundWrite)

/-- `FWriteRecord`. -/
structure FWriteRecord where
  path : List String
  write : UserWrite
  writeId : Int
  visible : Bool

/-- The nodes that the record writes, at their paths from the root. -/
def FWriteRecord.writes (r : FWriteRecord) : List (List String × FNode) :=
  match r.write with
  | .overwrite node => [(r.path, node)]
  | .merge changedChildren => changedChildren.writesAt r.path

/-- `record:containsPath:`. -/
def FWriteRecord.containsPath (r : FWriteRecord) (path : List String) : Bool :=
  r.writes.any fun w => decide (w.1 <+: path)

/-- What `removeWriteId:` of the record has to see of a later one: if this was not made at the path of the
record or below it, it writes at or below none of the paths of the record, unless at the path at which
the record was made. -/
def FWriteRecord.Sees (r later : FWriteRecord) : Prop :=
  ¬ r.path <+: later.path → ∀ m ∈ r.writes, ∀ w ∈ later.writes, m.1 <+: w.1 → w.1 = r.path

instance (r later : FWriteRecord) : Decidable (r.Sees later) :=
  inferInstanceAs (Decidable (_ → _))

/-- The record added to a compound write. -/
def FWriteRecord.addTo (r : FWriteRecord) (c : FCompoundWrite) : FCompoundWrite :=
  match r.write with
  | .overwrite node => c.addWrite node r.path
  | .merge changedChildren => c.addCompoundWrite changedChildren r.path

/-! ## The tree of pending writes -/

/-- `FWriteTree`. -/
structure FWriteTree where
  visibleWrites : FCompoundWrite := .emptyWrite
  allWrites : List FWriteRecord := []
  lastWriteId : Int := -1

/-- `layerTreeFromWrites:filter:treeRoot:` at the root. -/
def layerTreeFromWrites (writes : List FWriteRecord) (filter : FWriteRecord → Bool) : FCompoundWrite :=
  writes.foldl (fun compoundWrite record => if filter record then record.addTo compoundWrite else compoundWrite)
    .emptyWrite

/-- `defaultFilter` keeps every record, also those that are not visible. -/
def defaultFilter : FWriteRecord → Bool := fun _ => true

/-- The loop of `removeWriteId:` over the records that are left, the last first, with their places:
whether the removed write was visible, and whether it overlaps with other writes. -/
def scanWrites (index : Nat) (writeToRemove : FWriteRecord) : List (FWriteRecord × Nat) → Bool → Bool × Bool
  | [], overlaps => (true, overlaps)
  | (currentWrite, i) :: rest, overlaps =>
    if currentWrite.visible then
      if index ≤ i ∧ currentWrite.containsPath writeToRemove.path then (false, overlaps)
      else scanWrites index writeToRemove rest (overlaps || decide (writeToRemove.path <+: currentWrite.path))
    else scanWrites index writeToRemove rest overlaps

namespace FWriteTree

/-- `addOverwriteAtPath:newData:writeId:isVisible:`; `none` when the assertion on the id fails. -/
def addOverwriteAtPath (t : FWriteTree) (path : List String) (newData : FNode) (writeId : Int) (visible : Bool) :
    Option FWriteTree :=
  if t.lastWriteId < writeId then
    some
      { allWrites := t.allWrites ++ [⟨path, .overwrite newData, writeId, visible⟩]
        visibleWrites := if visible then t.visibleWrites.addWrite newData path else t.visibleWrites
        lastWriteId := writeId }
  else none

/-- `addMergeAtPath:changedChildren:writeId:`. -/
def addMergeAtPath (t : FWriteTree) (path : List String) (changedChildren : FCompoundWrite) (writeId : Int) :
    Option FWriteTree :=
  if t.lastWriteId < writeId then
    some
      { allWrites := t.allWrites ++ [⟨path, .merge changedChildren, writeId, true⟩]
        visibleWrites := t.visibleWrites.addCompoundWrite changedChildren path
        lastWriteId := writeId }
  else none

/-- `resetTree`. -/
def resetTree (t : FWriteTree) : FWriteTree :=
  { t with
    visibleWrites := layerTreeFromWrites t.allWrites defaultFilter
    lastWriteId := (t.allWrites.getLast?.map FWriteRecord.writeId).getD (-1) }

/-- `removeWriteId:` of the record at a place, and whether views have to be evaluated again. -/
def removeRecord (t : FWriteTree) (index : Nat) (writeToRemove : FWriteRecord) : FWriteTree × Bool :=
  let t := { t with allWrites := t.allWrites.eraseIdx index }
  let (removedWriteWasVisible, removedWriteOverlapsWithOtherWrites) :=
    if writeToRemove.visible then scanWrites index writeToRemove t.allWrites.zipIdx.reverse false
    else (false, false)
  if !removedWriteWasVisible then (t, false)
  else if removedWriteOverlapsWithOtherWrites then (t.resetTree, true)
  else
    ({ t with
      visibleWrites :=
        (writeToRemove.writes.map Prod.fst).foldl FCompoundWrite.removeWriteAtPath t.visibleWrites }, true)

/-- `removeWriteId:`; `none` when there is no such write. -/
def removeWriteId (t : FWriteTree) (writeId : Int) : Option (FWriteTree × Bool) :=
  (t.allWrites.findIdx? fun record => record.writeId == writeId).bind fun index =>
    t.allWrites[index]?.map fun writeToRemove => t.removeRecord index writeToRemove

/-- `removeAllWrites`. -/
def removeAllWrites (t : FWriteTree) : FWriteTree := { t with visibleWrites := .emptyWrite, allWrites := [] }

end FWriteTree

/-! ## The writes of a repository -/

/-- `FPath compare:`. -/
def FPath.compare : List String → List String → Ordering
  | [], [] => .eq
  | [], _ :: _ => .lt
  | _ :: _, [] => .gt
  | piece :: path, otherPiece :: other =>
    (compareKey (childKey piece) (childKey otherPiece)).then (FPath.compare path other)

/-- The check of `compoundWriteFromDictionary:`: in their order, some path contains the next one. -/
def hasAncestor (updatePaths : List (List String)) : Bool :=
  let sorted := updatePaths.insertionSort fun left right => FPath.compare left right ≠ .gt
  (sorted.zip sorted.tail).any fun e => decide (e.1 <+: e.2)

/-- `compoundWriteFromDictionary:withValidationFrom:` of valid keys and values; `none` is the exception
for a path that is an ancestor of another. -/
def compoundWriteFromDictionary (values : List (String × FNode)) : Option FCompoundWrite :=
  let updates := values.map fun e => (pathPieces e.1, e.2)
  if hasAncestor (updates.map Prod.fst) then none
  else some (updates.foldl (fun compoundWrite e => compoundWrite.addWrite e.2 e.1) .emptyWrite)

/-- The pending writes and the counter of `nextWriteId`. -/
structure PendingWrites where
  pendingWriteTree : FWriteTree := {}
  writeIdCounter : Int := 0

/-- What happens to the pending writes. -/
inductive RepoEvent where
  | set (path : List String) (node : FNode)
  | update (path : List String) (values : List (String × FNode))
  | ackWrite (writeId : Int)
  | purgeOutstandingWrites

namespace PendingWrites

def setTree (s : PendingWrites) (t : FWriteTree) : PendingWrites := { s with pendingWriteTree := t }

/-- `nextWriteId`. -/
def counted (s : PendingWrites) : PendingWrites := { s with writeIdCounter := s.writeIdCounter + 1 }

/-- `FRepo set:`, `update:`, `ackWrite:` and `purgeOutstandingWrites`, as far as they reach the tree. -/
def next (s : PendingWrites) : RepoEvent → Option PendingWrites
  | .set path node =>
    (s.pendingWriteTree.addOverwriteAtPath path node s.writeIdCounter true).map s.counted.setTree
  | .update path values =>
    match compoundWriteFromDictionary values with
    | none => some s -- the exception is thrown before the repository is asked
    | some resolved =>
      if resolved.isEmpty then some s
      else (s.pendingWriteTree.addMergeAtPath path resolved s.writeIdCounter).map s.counted.setTree
  | .ackWrite writeId => (s.pendingWriteTree.removeWriteId writeId).map fun r => s.setTree r.1
  | .purgeOutstandingWrites => some (s.setTree s.pendingWriteTree.removeAllWrites)

/-- Writes are answered in the order in which they were made. -/
def InOrder (s : PendingWrites) : RepoEvent → Prop
  | .ackWrite writeId => s.pendingWriteTree.allWrites.head?.map FWriteRecord.writeId = some writeId
  | _ => True

/-- The write that is answered sees all later ones. -/
def SeesOverlap (s : PendingWrites) : RepoEvent → Prop
  | .ackWrite _ =>
    ∀ r ∈ s.pendingWriteTree.allWrites.head?, ∀ later ∈ s.pendingWriteTree.allWrites.tail, r.Sees later
  | _ => True

instance InOrder.instDecidable (s : PendingWrites) : (e : RepoEvent) → Decidable (s.InOrder e)
  | .ackWrite writeId =>
    inferInstanceAs (Decidable (s.pendingWriteTree.allWrites.head?.map FWriteRecord.writeId = some writeId))
  | .set _ _ | .update _ _ | .purgeOutstandingWrites => isTrue trivial

instance SeesOverlap.instDecidable (s : PendingWrites) : (e : RepoEvent) → Decidable (s.SeesOverlap e)
  | .ackWrite _ =>
    inferInstanceAs (Decidable
      (∀ r ∈ s.pendingWriteTree.allWrites.head?, ∀ later ∈ s.pendingWriteTree.allWrites.tail, r.Sees later))
  | .set _ _ | .update _ _ | .purgeOutstandingWrites => isTrue trivial

end PendingWrites

/-! ## Building the compound write from the list -/

/-- A record as the repository makes it: visible, and no write of a merge is above another. -/
structure FWriteRecord.Plain (r : FWriteRecord) : Prop where
  visible : r.visible = true
  wf : ∀ c, r.write = .merge c → c.Wf

/-- The writes of all records, the oldest first. -/
def pendingWrites (records : List FWriteRecord) : List (List String × FNode) :=
  records.flatMap FWriteRecord.writes

theorem FWriteRecord.layers_addTo (r : FWriteRecord) {c : FCompoundWrite} (hc : c.Wf) :
    (r.addTo c).layers = r.writes.foldl (Patch.add FNode.documents) c.layers ∧ (r.addTo c).Wf := by
  unfold addTo writes
  cases r.write with
  | overwrite node => exact FCompoundWrite.layers_addWrite hc node r.path
  | merge changedChildren => exact FCompoundWrite.layers_addCompoundWrite hc changedChildren r.path

theorem layers_foldl_addTo (records : List FWriteRecord) {c : FCompoundWrite} (hc : c.Wf) :
    (records.foldl (fun compoundWrite record => record.addTo compoundWrite) c).layers =
        (pendingWrites records).foldl (Patch.add FNode.documents) c.layers ∧
      (records.foldl (fun compoundWrite record => record.addTo compoundWrite) c).Wf := by
  induction records generalizing c with
  | nil => exact ⟨rfl, hc⟩
  | cons r records ih =>
    obtain ⟨hlayers, hwf⟩ := r.layers_addTo hc
    obtain ⟨hlayers', hwf'⟩ := ih hwf
    refine ⟨?_, hwf'⟩
    rw [List.foldl_cons, hlayers', hlayers, pendingWrites, pendingWrites, List.flatMap_cons, List.foldl_append]

/-- `resetTree` layers all writes. -/
theorem layers_layerTreeFromWrites (records : List FWriteRecord) :
    (layerTreeFromWrites records defaultFilter).layers =
        Patch.layer FNode.documents (pendingWrites records) ∧
      (layerTreeFromWrites records defaultFilter).Wf := by
  have hfold : layerTreeFromWrites records defaultFilter =
      records.foldl (fun compoundWrite record => record.addTo compoundWrite) .emptyWrite := rfl
  rw [hfold, Patch.layer, ← FCompoundWrite.layers_emptyWrite]
  exact layers_foldl_addTo records FCompoundWrite.wf_emptyWrite

/-! ## Answering the oldest write -/

theorem FWriteRecord.prefix_writes (r : FWriteRecord) : ∀ w ∈ r.writes, r.path <+: w.1 := by
  intro w hw
  unfold writes at hw
  cases hwrite : r.write with
  | overwrite node =>
    rw [hwrite] at hw
    rw [List.mem_singleton.mp hw]
  | merge changedChildren =>
    rw [hwrite] at hw
    obtain ⟨e, -, rfl⟩ := List.mem_map.mp hw
    exact List.prefix_append _ _

theorem FWriteRecord.Plain.pairwise_writes {r : FWriteRecord} (h : r.Plain) :
    r.writes.Pairwise fun w w' => Patch.Apart w.1 w'.1 := by
  unfold writes
  cases hwrite : r.write with
  | overwrite node => exact List.pairwise_singleton _ _
  | merge changedChildren =>
    refine List.pairwise_map.mpr
      ((FImmutableTree.WriteTree.pairwise_forEach (h.wf changedChildren hwrite)).imp fun {w w'} hw => ?_)
    simpa [Patch.Apart] using hw

theorem shadowed_of_scanWrites {r : FWriteRecord} {rest : List (FWriteRecord × Nat)} {overlaps o : Bool}
    (h : scanWrites 0 r rest overlaps = (false, o)) : ∃ e ∈ rest, e.1.containsPath r.path = true := by
  induction rest generalizing overlaps with
  | nil => cases h
  | cons e rest ih =>
    obtain ⟨currentWrite, i⟩ := e
    rw [scanWrites] at h
    by_cases hcontains : currentWrite.containsPath r.path = true
    · exact ⟨(currentWrite, i), List.mem_cons_self, hcontains⟩
    · have hlater : ∃ e ∈ rest, e.1.containsPath r.path = true := by
        by_cases hvisible : currentWrite.visible = true
        · rw [if_pos hvisible, if_neg fun h => hcontains h.2] at h
          exact ih h
        · rw [if_neg hvisible] at h
          exact ih h
      obtain ⟨e, he, hce⟩ := hlater
      exact ⟨e, List.mem_cons_of_mem _ he, hce⟩

theorem not_overlapping_of_scanWrites {r : FWriteRecord} {rest : List (FWriteRecord × Nat)} {overlaps : Bool}
    (hvisible : ∀ e ∈ rest, e.1.visible = true) (h : scanWrites 0 r rest overlaps = (true, false)) :
    overlaps = false ∧ ∀ e ∈ rest, e.1.containsPath r.path = false ∧ ¬ r.path <+: e.1.path := by
  induction rest generalizing overlaps with
  | nil => exact ⟨(Prod.mk.inj h).2, by simp⟩
  | cons e rest ih =>
    obtain ⟨currentWrite, i⟩ := e
    rw [scanWrites, if_pos (hvisible (currentWrite, i) List.mem_cons_self)] at h
    by_cases hcontains : currentWrite.containsPath r.path = true
    · rw [if_pos ⟨Nat.zero_le _, hcontains⟩] at h
      cases h
    · rw [if_neg fun h => hcontains h.2] at h
      obtain ⟨hoverlaps, hrest⟩ := ih (fun e he => hvisible e (List.mem_cons_of_mem _ he)) h
      rw [Bool.or_eq_false_iff, decide_eq_false_iff_not] at hoverlaps
      exact ⟨hoverlaps.1, List.forall_mem_cons.mpr ⟨⟨by simpa using hcontains, hoverlaps.2⟩, hrest⟩⟩

/-- The compound write is the one that is built from the list. -/
structure FWriteTree.Inv (t : FWriteTree) : Prop where
  layers : t.visibleWrites.layers = Patch.layer FNode.documents (pendingWrites t.allWrites)
  wf : t.visibleWrites.Wf
  plain : ∀ r ∈ t.allWrites, r.Plain

theorem FWriteTree.inv_initial : FWriteTree.Inv {} :=
  ⟨FCompoundWrite.layers_emptyWrite, FCompoundWrite.wf_emptyWrite, by simp⟩

theorem mem_of_mem_zipIdx_reverse {α : Type} {l : List α} {e : α × Nat} (h : e ∈ l.zipIdx.reverse) : e.1 ∈ l :=
  List.fst_mem_of_mem_zipIdx (List.mem_reverse.mp h)

/-- When the scan finds the record visible and without overlaps, no later write is below its writes, if it
sees every overlap. -/
theorem not_below_pendingWrites {r : FWriteRecord} {records : List FWriteRecord}
    (hplain : ∀ r' ∈ records, r'.Plain) (hsees : ∀ r' ∈ records, r.Sees r')
    (hscan : scanWrites 0 r records.zipIdx.reverse false = (true, false)) :
    ∀ m ∈ r.writes, ∀ w ∈ pendingWrites records, ¬ m.1 <+: w.1 := by
  have hvisible : ∀ e ∈ records.zipIdx.reverse, e.1.visible = true := fun e he =>
    (hplain e.1 (mem_of_mem_zipIdx_reverse he)).visible
  obtain ⟨-, hscanned⟩ := not_overlapping_of_scanWrites hvisible hscan
  intro m hm w hw hle
  obtain ⟨r', hr', hw⟩ := List.mem_flatMap.mp hw
  obtain ⟨i, hi⟩ := List.mem_iff_getElem?.mp hr'
  obtain ⟨hcontains, hpath⟩ := hscanned (r', i) (List.mem_reverse.mpr (List.mk_mem_zipIdx_iff_getElem?.mpr hi))
  -- the write is at the path of the record, so its record contains this path
  have heq : w.1 = r.path := hsees r' hr' hpath m hm w hw hle
  have hany : r'.containsPath r.path = true := List.any_eq_true.mpr ⟨w, hw, by simp [heq]⟩
  rw [hany] at hcontains
  cases hcontains

/-- **Answering the oldest write**: the compound write is repaired to the one of the writes that are left. -/
theorem FWriteTree.Inv.removeOldest {t : FWriteTree} (h : t.Inv) {r : FWriteRecord} {records : List FWriteRecord}
    (hall : t.allWrites = r :: records) (hsees : ∀ r' ∈ records, r.Sees r') :
    (t.removeRecord 0 r).1.Inv ∧ (t.removeRecord 0 r).1.allWrites = records := by
  have hplain : ∀ r' ∈ records, r'.Plain := fun r' hr' => h.plain r' (hall ▸ List.mem_cons_of_mem _ hr')
  have hr : r.Plain := h.plain r (hall ▸ List.mem_cons_self)
  have hlayers : t.visibleWrites.layers = Patch.layer FNode.documents (r.writes ++ pendingWrites records) := by
    rw [h.layers, hall]
    rfl
  unfold removeRecord
  simp only [hall, List.eraseIdx_cons_zero, hr.visible, if_true]
  cases hscan : scanWrites 0 r records.zipIdx.reverse false with
  | mk removedWriteWasVisible overlaps =>
    cases removedWriteWasVisible with
    | false =>
      -- a later write is above the path of the record, so above all its writes
      obtain ⟨e, he, hcontains⟩ := shadowed_of_scanWrites hscan
      obtain ⟨w, hw, hle⟩ := List.any_eq_true.mp hcontains
      have hmem : w ∈ pendingWrites records := List.mem_flatMap.mpr ⟨e.1, mem_of_mem_zipIdx_reverse he, hw⟩
      refine ⟨⟨?_, h.wf, hplain⟩, rfl⟩
      refine hlayers.trans (Patch.layer_append_of_shadowed fun m hm => ⟨w, hmem, ?_⟩)
      exact (by simpa using hle : w.1 <+: r.path).trans (r.prefix_writes m hm)
    | true =>
      cases overlaps with
      | true =>
        obtain ⟨hreset, hwf⟩ := layers_layerTreeFromWrites records
        exact ⟨⟨hreset, hwf, hplain⟩, rfl⟩
      | false =>
        have hwrites := not_below_pendingWrites hplain hsees hscan
        obtain ⟨hremove, hwf⟩ :=
          FCompoundWrite.layers_foldl_removeWriteAtPath (r.writes.map Prod.fst) h.wf
        refine ⟨⟨?_, hwf, hplain⟩, rfl⟩
        exact hremove.trans (by rw [hlayers]; exact Patch.removeAll_layer_append hr.pairwise_writes hwrites)

/-! ## Runs -/

theorem wf_compoundWriteFromDictionary {values : List (String × FNode)} {c : FCompoundWrite}
    (h : compoundWriteFromDictionary values = some c) : c.Wf := by
  simp only [compoundWriteFromDictionary] at h
  split at h
  · cases h
  · cases h
    exact (FCompoundWrite.layers_foldl_addWrite _ FCompoundWrite.wf_emptyWrite).2

/-- The writes that are not answered, each with its path, read off the events. -/
def outstanding (ws : List (List String × UserWrite)) : RepoEvent → List (List String × UserWrite)
  | .set path node => ws ++ [(path, .overwrite node)]
  | .update path values =>
    match compoundWriteFromDictionary values with
    | none => ws
    | some resolved => if resolved.isEmpty then ws else ws ++ [(path, .merge resolved)]
  | .ackWrite _ => ws.tail
  | .purgeOutstandingWrites => []

namespace PendingWrites

/-- What holds in every state: the tree is in order, holds the outstanding writes, and the next id is new. -/
structure Inv (s : PendingWrites) (ws : List (List String × UserWrite)) : Prop where
  tree : s.pendingWriteTree.Inv
  records : s.pendingWriteTree.allWrites.map (fun r => (r.path, r.write)) = ws
  counter : 0 ≤ s.writeIdCounter
  last : s.pendingWriteTree.lastWriteId < s.writeIdCounter
  ids : ∀ r ∈ s.pendingWriteTree.allWrites, r.writeId < s.writeIdCounter

theorem inv_initial : PendingWrites.Inv {} [] :=
  ⟨FWriteTree.inv_initial, rfl, by decide, by decide, by simp⟩

/-- A record of the repository is added to the tree. -/
theorem Inv.added {s : PendingWrites} {ws : List (List String × UserWrite)} (h : s.Inv ws) {r : FWriteRecord}
    (hr : r.Plain) (hid : r.writeId = s.writeIdCounter) :
    (s.counted.setTree ⟨r.addTo s.pendingWriteTree.visibleWrites, s.pendingWriteTree.allWrites ++ [r],
      s.writeIdCounter⟩).Inv (ws ++ [(r.path, r.write)]) := by
  obtain ⟨hlayers, hwf⟩ := r.layers_addTo h.tree.wf
  have hcounter := h.counter
  refine ⟨⟨?_, hwf, ?_⟩, ?_, ?_, ?_, ?_⟩
  · have hpending : pendingWrites (s.pendingWriteTree.allWrites ++ [r]) =
        pendingWrites s.pendingWriteTree.allWrites ++ r.writes := by
      simp [pendingWrites]
    refine hlayers.trans ?_
    rw [h.tree.layers, Patch.layer, ← List.foldl_append, ← hpending]
    rfl
  · intro r' hr'
    rcases List.mem_append.mp hr' with hr' | hr'
    · exact h.tree.plain r' hr'
    · rw [List.mem_singleton.mp hr']
      exact hr
  · rw [← h.records]
    exact List.map_append
  · show 0 ≤ s.writeIdCounter + 1
    omega
  · show s.writeIdCounter < s.writeIdCounter + 1
    omega
  · intro r' hr'
    show r'.writeId < s.writeIdCounter + 1
    rcases List.mem_append.mp hr' with hr' | hr'
    · have := h.ids r' hr'
      omega
    · rw [List.mem_singleton.mp hr', hid]
      omega

theorem Inv.set {s : PendingWrites} {ws : List (List String × UserWrite)} (h : s.Inv ws) (path : List String)
    (node : FNode) : ∃ s', s.next (.set path node) = some s' ∧ s'.Inv (outstanding ws (.set path node)) := by
  have hplain : (⟨path, .overwrite node, s.writeIdCounter, true⟩ : FWriteRecord).Plain := by
    refine ⟨rfl, fun c hc => ?_⟩
    cases hc
  refine ⟨_, ?_, h.added hplain rfl⟩
  rw [next, FWriteTree.addOverwriteAtPath, if_pos h.last]
  rfl

theorem Inv.update {s : PendingWrites} {ws : List (List String × UserWrite)} (h : s.Inv ws) (path : List String)
    (values : List (String × FNode)) :
    ∃ s', s.next (.update path values) = some s' ∧ s'.Inv (outstanding ws (.update path values)) := by
  rw [next, outstanding]
  cases hresolved : compoundWriteFromDictionary values with
  | none => exact ⟨s, rfl, h⟩
  | some resolved =>
    simp only
    by_cases hempty : resolved.isEmpty = true
    · rw [if_pos hempty, if_pos hempty]
      exact ⟨s, rfl, h⟩
    · rw [if_neg hempty, if_neg hempty]
      have hplain : (⟨path, .merge resolved, s.writeIdCounter, true⟩ : FWriteRecord).Plain := by
        refine ⟨rfl, fun c hc => ?_⟩
        cases hc
        exact wf_compoundWriteFromDictionary hresolved
      refine ⟨_, ?_, h.added hplain rfl⟩
      rw [FWriteTree.addMergeAtPath, if_pos h.last]
      rfl

theorem lastWriteId_removeRecord_lt {t : FWriteTree} {n : Int} (hn : 0 ≤ n) (hlast : t.lastWriteId < n)
    (hids : ∀ r ∈ t.allWrites, r.writeId < n) (index : Nat) (r : FWriteRecord) :
    (t.removeRecord index r).1.lastWriteId < n := by
  unfold FWriteTree.removeRecord
  simp only
  generalize (if r.visible then scanWrites index r (t.allWrites.eraseIdx index).zipIdx.reverse false
    else (false, false)) = p
  obtain ⟨removedWriteWasVisible, overlaps⟩ := p
  cases removedWriteWasVisible with
  | false => exact hlast
  | true =>
    cases overlaps with
    | false => exact hlast
    | true =>
      show (((t.allWrites.eraseIdx index).getLast?).map FWriteRecord.writeId).getD (-1) < n
      cases hget : (t.allWrites.eraseIdx index).getLast? with
      | none =>
        show (-1 : Int) < n
        omega
      | some r' => exact hids r' (List.mem_of_mem_eraseIdx (List.mem_of_getLast? hget))

theorem Inv.ackWrite {s : PendingWrites} {ws : List (List String × UserWrite)} (h : s.Inv ws) {writeId : Int}
    (hfirst : s.InOrder (.ackWrite writeId)) (hsees : s.SeesOverlap (.ackWrite writeId)) :
    ∃ s', s.next (.ackWrite writeId) = some s' ∧ s'.Inv (outstanding ws (.ackWrite writeId)) := by
  obtain ⟨r, hhead, hid⟩ := Option.map_eq_some_iff.mp hfirst
  obtain ⟨records, hall⟩ : ∃ records, s.pendingWriteTree.allWrites = r :: records := by
    cases hcases : s.pendingWriteTree.allWrites with
    | nil => rw [hcases] at hhead; cases hhead
    | cons r' records => rw [hcases] at hhead; cases hhead; exact ⟨records, rfl⟩
  have hsees : ∀ r' ∈ records, r.Sees r' := by
    rw [SeesOverlap, hall] at hsees
    exact hsees r rfl
  obtain ⟨htree, hrecords⟩ := h.tree.removeOldest hall hsees
  refine ⟨s.setTree (s.pendingWriteTree.removeRecord 0 r).1, ?_, htree, ?_, h.counter, ?_, ?_⟩
  · rw [next, FWriteTree.removeWriteId, hall, List.findIdx?_cons, hid, beq_self_eq_true]
    rfl
  · show List.map _ (s.pendingWriteTree.removeRecord 0 r).1.allWrites = ws.tail
    rw [hrecords, ← h.records, hall]
    rfl
  · exact lastWriteId_removeRecord_lt h.counter h.last h.ids 0 r
  · intro r' hr'
    refine h.ids r' ?_
    rw [hall]
    exact List.mem_cons_of_mem _ (hrecords ▸ hr')

theorem Inv.purge {s : PendingWrites} {ws : List (List String × UserWrite)} (h : s.Inv ws) :
    (s.setTree s.pendingWriteTree.removeAllWrites).Inv [] :=
  ⟨⟨FCompoundWrite.layers_emptyWrite, FCompoundWrite.wf_emptyWrite, by simp [setTree, FWriteTree.removeAllWrites]⟩,
    rfl, h.counter, h.last, by simp [setTree, FWriteTree.removeAllWrites]⟩

end PendingWrites

-- An update from above that reaches below the answered write is cut out with it.
example :
    let value : String → FNode := fun s => .leaf (.string s)
    let events : List RepoEvent :=
      [.set ["a", "b"] (.node [("x", value "1"), ("y", value "2")]), .update ["a"] [("b/x", value "5")],
        .ackWrite 0]
    let read : FCompoundWrite → Option Leaf := fun c => (c.writeTree.valueAtPath ["a", "b", "x"]).bind (·.leafAt [])
    (run PendingWrites.next {} events).map (fun s => (read s.pendingWriteTree.visibleWrites,
      read (layerTreeFromWrites s.pendingWriteTree.allWrites defaultFilter))) =
      some (none, some (.string "5")) := by
  decide +kernel

end ChatApplication
