import ChatApplication.Firebase.KeyOrder
import ChatApplication.PushIds

/-!
# The order of a list of messages

The library promises of `childByAutoId` that "the resulting list will be chronologically-sorted".  The
names are made in ascending order (`PushIds`), the children of a node are kept in the order of their
keys (`Firebase.KeyOrder`, `Firebase.SortedDictionary`), and the two orders agree on these names:
they are longer than any integer key, so they are compared unit by unit.

* `compareKey_pushString` — a later name is a later key.
* `children_in_creation_order` — the children of a node that is loaded and then changed by any updates
  and removals are enumerated in the order in which their names were made, as long as no millisecond
  runs out of names (`NamesLeft`); past the last one the source makes a name that sorts first.
-/

namespace ChatApplication

open SortedEntries Numeral FImmutableSortedDictionary

/-! ## Names as keys -/

theorem compareLex_of_lt {α : Type*} [LinearOrder α] :
    ∀ {l r : List α}, l < r → List.compareLex compare l r = .lt
  | _, _, .nil => rfl
  | _, _, .rel h => by rw [List.compareLex_cons_cons, compare_lt_iff_lt.mpr h]; rfl
  | _, _, .cons h => by rw [List.compareLex_cons_cons, compare_eq_iff_eq.mpr rfl]; exact compareLex_of_lt h

theorem tryParseStringToInt_of_long {s : NSString} (h : 11 < s.characters.length) :
    tryParseStringToInt s = none := by
  rw [tryParseStringToInt, if_pos (.inl h)]

/-- Long keys are compared unit by unit. -/
theorem compareKey_of_long {s t : NSString} (hs : 11 < s.characters.length) (ht : 11 < t.characters.length)
    (h : s.characters < t.characters) : compareKey (.string s) (.string t) = .lt := by
  rw [compareKey_eq_compareRanks, ← compareStrings_eq, compareStrings, tryParseStringToInt_of_long hs,
    tryParseStringToInt_of_long ht]
  exact compareLex_of_lt h

/-- A long key has no other spelling. -/
theorem eq_of_compareKey_long {s : NSString} {k : FKey} (hs : 11 < s.characters.length)
    (h : compareKey k (.string s) = .eq) : k = .string s := by
  rcases compareKey_eq_iff.mp h with rfl | htwins
  · rfl
  · cases k with
    | minName => exact htwins.elim
    | maxName => exact htwins.elim
    | string t =>
      have hnone := tryParseStringToInt_of_long hs
      rcases htwins with h | h
      · rw [h.same.2.1] at hnone
        cases hnone
      · rw [h.same.1] at hnone
        cases hnone

/-- The unit of a place in `PUSH_CHARS`. -/
def pushUnit (d : Nat) : Unichar := ⟨(pushChar d).toNat % 65536, Nat.mod_lt _ (Nat.succ_pos _)⟩

theorem toNat_pushChar {d : Nat} (hd : d < 64) : (pushChar d).toNat < 65536 := by
  have hall : PUSH_CHARS.all (fun c => c.toNat < 65536) = true := by decide
  exact of_decide_eq_true (List.all_eq_true.mp hall _ (pushChar_mem hd))

theorem pushUnit_lt {d e : Nat} (hd : d < 64) (he : e < 64) (h : d < e) : pushUnit d < pushUnit e := by
  have hchar : (pushChar d).toNat < (pushChar e).toNat := pushChar_lt hd he h
  rw [Fin.lt_def]
  simpa [pushUnit, Nat.mod_eq_of_lt (toNat_pushChar hd), Nat.mod_eq_of_lt (toNat_pushChar he)] using hchar

theorem characters_pushString {ds : List Nat} (hds : ∀ d ∈ ds, d < 64) :
    (NSString.ofString (pushString ds)).characters = ds.map pushUnit := by
  rw [NSString.ofString, pushString, String.toList_ofList]
  induction ds with
  | nil => rfl
  | cons d ds ih =>
    have hd := toNat_pushChar (hds d List.mem_cons_self)
    have hunit : utf16 (pushChar d) = [pushUnit d] := by
      rw [utf16, dif_pos hd, pushUnit]
      simp [Nat.mod_eq_of_lt hd]
    have ih := ih fun e he => hds e (List.mem_cons_of_mem _ he)
    simp only [List.map_cons, List.flatMap_cons, hunit] at ih ⊢
    rw [ih, List.singleton_append]

/-- **A later name is a later key.** -/
theorem compareKey_pushString {ds es : List Nat} (hlen : ds.length = 20) (hlen' : es.length = 20)
    (hds : ∀ d ∈ ds, d < 64) (hes : ∀ e ∈ es, e < 64) (h : value 64 ds < value 64 es) :
    compareKey (childKey (pushString ds)) (childKey (pushString es)) = .lt := by
  have hcs := characters_pushString hds
  have hcs' := characters_pushString hes
  refine compareKey_of_long ?_ ?_ ?_
  · rw [hcs, List.length_map]
    omega
  · rw [hcs', List.length_map]
    omega
  · rw [hcs, hcs']
    exact map_lt_map (fun _ _ hd he => pushUnit_lt hd he) hds hes
      (lt_of_value_lt (hlen.trans hlen'.symm) hds hes h)

/-- The keys of the names of any number of calls ascend, and none has another spelling. -/
theorem childKeys_of_pushIds {calls : List (Nat × RandomDraw)} {ids : List String}
    (h : pushIds {} calls = some ids) (hclock : (calls.map Prod.fst).Pairwise (· ≤ ·))
    (htimes : ∀ call ∈ calls, call.1 < 64 ^ 7) :
    (ids.map childKey).Pairwise (fun k k' => compareKey k k' = .lt) ∧
      ∀ k k', k' ∈ ids.map childKey → compareKey k k' = .eq → k = k' := by
  obtain ⟨digits, rfl, hall, hpairwise, -⟩ := pushIds_initial h hclock htimes
  constructor
  · rw [List.map_map, List.pairwise_map]
    refine hpairwise.imp_of_mem fun {ds es} hds hes hlt => ?_
    obtain ⟨hlen, hd⟩ := hall ds hds
    obtain ⟨hlen', he⟩ := hall es hes
    exact compareKey_pushString hlen hlen' hd he hlt
  · intro k k' hk' hk
    rw [List.map_map] at hk'
    obtain ⟨ds, hds, rfl⟩ := List.mem_map.mp hk'
    obtain ⟨hlen, hd⟩ := hall ds hds
    refine eq_of_compareKey_long ?_ hk
    rw [characters_pushString hd, List.length_map]
    omega

/-! ## Children of a node -/

variable {ν : Type*}

/-- What a loaded dictionary and the edits after it say about a key. -/
def valueFrom (dictionary : List (FKey × ν)) (edits : List (Edit FKey ν)) (k : FKey) : Option ν :=
  edits.foldl (fun value e => if compareKey k e.key = .eq then e.value else value) (find compareKey k dictionary)

theorem foldl_edits_eq_some {edits : List (Edit FKey ν)} {k : FKey} {start : Option ν} {v : ν}
    (h : edits.foldl (fun value e => if compareKey k e.key = .eq then e.value else value) start = some v) :
    start = some v ∨ ∃ e ∈ edits, compareKey k e.key = .eq := by
  induction edits generalizing start with
  | nil => exact .inl h
  | cons e edits ih =>
    by_cases hk : compareKey k e.key = .eq
    · exact .inr ⟨e, List.mem_cons_self, hk⟩
    · rw [List.foldl_cons, if_neg hk] at h
      rcases ih h with h | ⟨e', he', hk'⟩
      · exact .inl h
      · exact .inr ⟨e', List.mem_cons_of_mem _ he', hk'⟩

/-- **Children named by `childByAutoId` are enumerated in the order in which their names were made.**
The names are those of any number of calls, also within one millisecond, none of which counts past the
last name of its millisecond.  The node is loaded with any of them and then changed by any updates and
removals, in any order; a child that is there has the value of its last update. -/
theorem children_in_creation_order {calls : List (Nat × RandomDraw)} (hnames : NamesLeft calls)
    (hclock : (calls.map Prod.fst).Pairwise (· ≤ ·)) (htimes : ∀ call ∈ calls, call.1 < 64 ^ 7) :
    ∃ ids : List String, pushIds {} calls = some ids ∧ ids.length = calls.length ∧
      ∀ (dictionary : List (FKey × ν)) (edits : List (Edit FKey ν)), (dictionary.map Prod.fst).Nodup →
        (∀ x ∈ dictionary, x.1 ∈ ids.map childKey) → (∀ e ∈ edits, e.key ∈ ids.map childKey) →
        ∃ d₀ d : FImmutableSortedDictionary compareKey ν,
          fromDictionary dictionary = .ok d₀ ∧ edits.foldlM edit d₀ = .ok d ∧
          (∀ k, d.get k = valueFrom dictionary edits k) ∧
          ∀ n, d.keyEnumerator.answers n = KeyEnumerator.inTurn n
            ((ids.map childKey).filter fun k => (valueFrom dictionary edits k).isSome) := by
  obtain ⟨ids, h⟩ := Option.isSome_iff_exists.mp ((isSome_pushIds_iff calls).mpr hnames)
  refine ⟨ids, h, length_pushIds h, fun dictionary edits hnodup hloaded hedits => ?_⟩
  obtain ⟨hks, hspelling⟩ := childKeys_of_pushIds h hclock htimes
  have hdistinct : Distinct compareKey dictionary := by
    refine (List.pairwise_map.mp hnodup).imp_of_mem fun {x y} _ hy hne heq => ?_
    exact hne (hspelling _ _ (hloaded y hy) heq)
  obtain ⟨d₀, hd₀, -, hget₀⟩ := get_fromDictionary hdistinct
  obtain ⟨d, hd, hget⟩ := foldlM_edit edits d₀
  have hvalue : ∀ k, d.get k = valueFrom dictionary edits k := by
    intro k
    rw [hget, hget₀, valueFrom]
  refine ⟨d₀, d, hd₀, hd, hvalue, fun n => ?_⟩
  have hmem : ∀ e ∈ d.entries, e.1 ∈ ids.map childKey := by
    intro e he
    have hfound : d.get e.1 = some e.2 := by
      rw [d.get_eq]
      exact d.ascending_entries.find_of_mem he Std.ReflCmp.compare_self
    rw [hvalue, valueFrom] at hfound
    rcases foldl_edits_eq_some hfound with hstart | ⟨e', he', heq⟩
    · obtain ⟨k', heq, hk'⟩ := (find_eq_some_iff hdistinct).mp hstart
      rw [hspelling _ _ (hloaded _ hk') heq]
      exact hloaded _ hk'
    · rw [hspelling _ _ (hedits e' he') heq]
      exact hedits e' he'
  rw [d.answers_keyEnumerator, d.ascending_entries.keys_eq_filter hks hmem]
  simp only [← d.get_eq, hvalue]

/-- The second of three messages is loaded and then removed, and the third arrives before the first. -/
theorem children_in_creation_order_three :
    let id₁ := "-NjEtLV--0123456789z"
    let id₂ := "-NjEtLV--012345678A-"
    let id₃ := "-NjEtLV0-0123456789z"
    ∃ d₀ d : FImmutableSortedDictionary compareKey Nat,
      fromDictionary [(childKey id₂, 2)] = .ok d₀ ∧
      [Edit.insertKey (childKey id₃) 3, .insertKey (childKey id₁) 1, .removeKey (childKey id₂)].foldlM edit d₀ =
        .ok d ∧
      d.keyEnumerator.answers 3 = [some (childKey id₁), some (childKey id₃), none] := by
  intro id₁ id₂ id₃
  let draw : RandomDraw := #v[0, 1, 2, 3, 4, 5, 6, 7, 8, 9, 10, 63]
  let calls : List (Nat × RandomDraw) := [(1700000000000, draw), (1700000000000, draw), (1700000000001, draw)]
  have hclock : (calls.map Prod.fst).Pairwise (· ≤ ·) := by decide
  obtain ⟨ids, h, -, hchildren⟩ := children_in_creation_order (ν := Nat) (show NamesLeft calls by decide) hclock
    (by decide)
  have hids : pushIds {} calls = some [id₁, id₂, id₃] := by decide
  obtain rfl : [id₁, id₂, id₃] = ids := Option.some.inj (hids.symm.trans h)
  obtain ⟨d₀, d, hd₀, hd, -, hanswers⟩ := hchildren [(childKey id₂, 2)]
    [.insertKey (childKey id₃) 3, .insertKey (childKey id₁) 1, .removeKey (childKey id₂)] (by simp) (by simp)
    (by simp [Edit.key])
  refine ⟨d₀, d, hd₀, hd, ?_⟩
  rw [hanswers]
  decide +kernel

end ChatApplication
