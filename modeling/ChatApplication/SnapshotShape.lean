import ChatApplication.UserList

/-!
# Shapes of a snapshot (`ChatSharedClass.swift`, `FChildrenNode.m`)

Firebase exports a node as a dictionary, but a node whose keys are small integers as an array.
`getDictionary` reads an array through its first element: the records of such a node are lost, and the
observer goes through the fields of the record `0`, or through one blank entry when there is none.

* `mem_getDictionaryOf` — what `getDictionary` returns lies inside the value, or is blank.
* `snapshot_keeps_records_iff` — which nodes are read completely.
* `array_snapshot_wrong` — the users `0` and `1` are not.
-/

namespace ChatApplication

/-! ## The dictionary of the value -/

/-- A value of the dictionary is a part of the value, or the blank one. -/
theorem mem_getDictionaryOf {v : AnyValue} {e : String × AnyValue} (h : e ∈ getDictionaryOf v) :
    sizeOf e.2 < sizeOf v ∨ e.2 = .string "" := by
  fun_induction getDictionaryOf v with
  | case1 dict =>
    have hentry := List.sizeOf_lt_of_mem h
    have hvalue : sizeOf e.2 < sizeOf e := by
      obtain ⟨k, v⟩ := e
      simp only [Prod.mk.sizeOf_spec]
      omega
    left
    simp only [AnyValue.dictionary.sizeOf_spec]
    omega
  | case2 first rest ih =>
    rcases ih h with hlt | hblank
    · left
      simp only [AnyValue.array.sizeOf_spec, List.cons.sizeOf_spec]
      omega
    · exact .inr hblank
  | case3 =>
    right
    rw [emptyDictionary, List.mem_singleton] at h
    rw [h]
  | case4 =>
    right
    rw [emptyDictionary, List.mem_singleton] at h
    rw [h]

/-! ## Records -/

/-- A `userState` node that exists: at least one record, distinct keys that are not blank, and at
least one field in every record. -/
structure UserStateNode where
  records : List (String × FNode)
  ne_nil : records ≠ []
  nodup : (records.map Prod.fst).Nodup
  not_blank : ∀ e ∈ records, stringByTrimmingWhiteSpaceAndNewLine e.1 ≠ ""
  has_fields : ∀ e ∈ records, ∃ field fields, e.2 = .node (field :: fields)

namespace UserStateNode

variable (s : UserStateNode)

/-- The keys and the values of the records. -/
def exported : Dict := s.records.map fun e => (e.1, valForExport e.2)

/-- The snapshot of the node, enumerated in some order. -/
def delivery (enumeration : Enumeration) : UsersDelivery := ⟨.node s.records, enumeration⟩

theorem exported_ne_nil : s.exported ≠ [] := fun h => s.ne_nil (List.map_eq_nil_iff.mp h)

theorem arrayKeys_exported_iff : ArrayKeys s.exported ↔ ArrayKeys s.records := by
  simp only [ArrayKeys, exported, List.forall_mem_map, List.length_map]

theorem valForExport_node : valForExport (.node s.records) = exportChildren s.exported := by
  rw [valForExport, valsForExport_eq, exported]

/-- The value of a record is a dictionary or an array, never blank. -/
theorem ne_blank {v : AnyValue} (h : v ∈ s.exported.map Prod.snd) : v ≠ .string "" := by
  obtain ⟨_, hmem, rfl⟩ := List.mem_map.mp h
  obtain ⟨e, he, rfl⟩ := List.mem_map.mp hmem
  obtain ⟨field, fields, hrecord⟩ := s.has_fields e he
  have hne : valsForExport (field :: fields) ≠ [] := by
    rw [valsForExport_eq]
    exact List.cons_ne_nil _ _
  rw [hrecord, valForExport]
  by_cases harray : ArrayKeys (valsForExport (field :: fields))
  · rw [exportChildren_eq_array hne harray]
    exact AnyValue.noConfusion
  · rw [exportChildren_eq_dictionary hne harray]
    exact AnyValue.noConfusion

variable {s} (enumeration : Enumeration)

/-- A dictionary is read completely. -/
theorem entries_perm_of_not_arrayKeys (h : ¬ ArrayKeys s.records) :
    (s.delivery enumeration).entries.Perm s.exported := by
  have hdict : (s.delivery enumeration).IsDictionary := by
    refine ⟨s.exported, ?_⟩
    rw [delivery, valForExport_node]
    exact exportChildren_eq_dictionary s.exported_ne_nil (fun harray => h (s.arrayKeys_exported_iff.mp harray))
  exact hdict.entries_perm_children

/-- An array is read through its first element. -/
theorem entries_of_arrayKeys (h : ArrayKeys s.records) :
    (s.delivery enumeration).entries = getDictionaryOf ((s.exported.lookup "0").getD .null) := by
  have hsnap : snapshotValue (.node s.records) = some (.array (childArray s.exported)) := by
    rw [snapshotValue_of_children (n := .node s.records) s.ne_nil, valForExport_node,
      exportChildren_eq_array s.exported_ne_nil (s.arrayKeys_exported_iff.mpr h)]
  rw [UsersDelivery.entries, UsersDelivery.snapshot, delivery, hsnap]
  simp only [Option.map_some, Enumeration.apply, snapshotEntries, getDictionary, childArray,
    List.range_succ_eq_map, List.map_cons, getDictionaryOf]
  rfl

/-- The value of a record is not among the values read from an array. -/
theorem not_perm_of_arrayKeys (h : ArrayKeys s.records) :
    ¬ ((s.delivery enumeration).entries.map Prod.snd).Perm (s.exported.map Prod.snd) := by
  intro hperm
  rw [entries_of_arrayKeys enumeration h] at hperm
  cases hzero : s.exported.lookup "0" with
  | none =>
    -- no record `0`: the one blank entry is no record
    rw [hzero, Option.getD_none] at hperm
    have hblank : AnyValue.string "" ∈ (getDictionaryOf .null).map Prod.snd := by
      simp [getDictionaryOf, emptyDictionary]
    exact s.ne_blank (hperm.subset hblank) rfl
  | some record =>
    -- the record `0` would be a part of itself
    rw [hzero, Option.getD_some] at hperm
    have hrecord : record ∈ s.exported.map Prod.snd :=
      List.mem_map.mpr ⟨_, List.mem_of_lookup_eq_some hzero, rfl⟩
    obtain ⟨e, he, hvalue⟩ := List.mem_map.mp (hperm.mem_iff.mpr hrecord)
    rcases mem_getDictionaryOf he with hlt | hblank
    · rw [hvalue] at hlt
      exact lt_irrefl _ hlt
    · exact s.ne_blank hrecord (by rw [← hvalue, hblank])

/-- **A snapshot keeps its records** exactly when Firebase does not export it as an array: then the
observer goes through one entry per record, under its key, and else not even through the values. -/
theorem snapshot_keeps_records_iff (s : UserStateNode) (enumeration : Enumeration) :
    (((s.delivery enumeration).entries.map Prod.snd).Perm (s.exported.map Prod.snd) ↔
      ¬ ArrayKeys s.records) ∧
    ((s.delivery enumeration).entries.Perm s.exported ↔ ¬ ArrayKeys s.records) := by
  have hdict := entries_perm_of_not_arrayKeys (s := s) enumeration
  have harray (hvalues : ((s.delivery enumeration).entries.map Prod.snd).Perm (s.exported.map Prod.snd)) :
      ¬ ArrayKeys s.records := fun h => not_perm_of_arrayKeys enumeration h hvalues
  exact ⟨⟨harray, fun h => (hdict h).map _⟩, fun h => harray (h.map _), hdict⟩

/-- The users `0` and `1`. -/
def twoUsers : UserStateNode where
  records := [("0", .node [(ChatParameter.userId, .leaf (.string "0"))]),
    ("1", .node [(ChatParameter.userId, .leaf (.string "1"))])]
  ne_nil := List.cons_ne_nil _ _
  nodup := by decide
  not_blank := by decide
  has_fields := by simp

/-- The users `0` and `1` are exported as an array, and lost. -/
theorem array_snapshot_wrong :
    ¬ ∀ (s : UserStateNode) (enumeration : Enumeration),
      ((s.delivery enumeration).entries.map Prod.snd).Perm (s.exported.map Prod.snd) := by
  intro h
  have hkeys : ArrayKeys twoUsers.records := by
    intro e he
    simp only [twoUsers, List.mem_cons, List.not_mem_nil, or_false] at he
    rcases he with rfl | rfl
    · exact ⟨by decide, 0, by decide, by decide⟩
    · exact ⟨by decide, 1, by decide, by decide⟩
  exact not_perm_of_arrayKeys ⟨id, fun _ => .refl _⟩ hkeys (h twoUsers _)

end UserStateNode

end ChatApplication
