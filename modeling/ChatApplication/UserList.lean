import ChatApplication.Halper.ChatHalper
import ChatApplication.Lib.Runs

/-!
# The user list

`ResentsUsersVC.viewDidLoad` registers a `receiveAllUsers` observer whose callback assigns
`usersTableView.users`.  The observer body calls back once per entry of the snapshot, from inside
the loop, and not at all when the loop does not run.

* `follows_deliver` — a snapshot that is a dictionary leaves exactly its users, other than the
  signed-in one, whatever the list and the shared array held.
* `follows_deliver_empty_iff` — a snapshot that does not exist leaves the list as it was.
* `users_of_snapshot` — the last list passed to the callback for a snapshot, and how the lists before
  it grow.
* `user_list_follows_database` — over every run the list follows the database when no snapshot
  that does not exist meets a list with users, and only then.
-/

namespace ChatApplication

open FirstBy Runs

/-- `ResentsUsersVC` with its table: the shared arrays and `usersTableView.users`. -/
structure ResentsUsersVC where
  halper : ChatHalper := {}
  users : Option (List UsersState) := none

/-- A snapshot of the `userState` node, and the order its dictionary is enumerated in. -/
structure UsersDelivery where
  node : FNode
  enumeration : Enumeration

namespace UsersDelivery

/-- The snapshot the observer is passed. -/
def snapshot (d : UsersDelivery) : Option AnyValue := (snapshotValue d.node).map d.enumeration.apply

/-- The entries the loop of the observer goes through. -/
def entries (d : UsersDelivery) : Dict := snapshotEntries d.snapshot

/-- The records stored under the node. -/
def records (d : UsersDelivery) : List UsersState :=
  d.node.children.map fun e => decodeUser (e.1, valForExport e.2)

/-- The node exists and is exported as a dictionary, not as an array or a plain value. -/
def IsDictionary (d : UsersDelivery) : Prop := ∃ c, valForExport d.node = .dictionary c

theorem IsDictionary.valForExport_eq {d : UsersDelivery} (h : d.IsDictionary) :
    d.node.children ≠ [] ∧
      valForExport d.node = .dictionary (d.node.children.map fun e => (e.1, valForExport e.2)) := by
  obtain ⟨n, enumeration⟩ := d
  obtain ⟨exported, hexport⟩ := h
  cases n with
  | leaf a => cases a <;> cases hexport
  | node c =>
    rw [valForExport, valsForExport_eq] at hexport ⊢
    have hne : (c.map fun e => (e.1, valForExport e.2)) ≠ [] := by
      intro hnil
      rw [hnil] at hexport
      cases hexport
    by_cases harray : ArrayKeys (c.map fun e => (e.1, valForExport e.2))
    · rw [exportChildren_eq_array hne harray] at hexport
      cases hexport
    · exact ⟨fun hnil => hne (List.map_eq_nil_iff.mpr hnil), exportChildren_eq_dictionary hne harray⟩

/-- The loop goes through every child of a node that is exported as a dictionary. -/
theorem IsDictionary.entries_perm_children {d : UsersDelivery} (h : d.IsDictionary) :
    d.entries.Perm (d.node.children.map fun e => (e.1, valForExport e.2)) := by
  obtain ⟨hne, hexport⟩ := h.valForExport_eq
  have hentries : d.entries =
      d.enumeration.order (d.node.children.map fun e => (e.1, valForExport e.2)) := by
    simp [entries, snapshot, snapshotValue_of_children hne, hexport, Enumeration.apply, snapshotEntries]
  rw [hentries]
  exact d.enumeration.perm _

theorem IsDictionary.entries_perm {d : UsersDelivery} (h : d.IsDictionary) :
    d.entries ≠ [] ∧ (d.entries.map decodeUser).Perm d.records := by
  have hperm := h.entries_perm_children
  constructor
  · intro hnil
    rw [hnil, List.nil_perm, List.map_eq_nil_iff] at hperm
    exact h.valForExport_eq.1 hperm
  · refine (hperm.map _).trans (.of_eq ?_)
    simp [records, Function.comp_def]

theorem entries_of_empty {d : UsersDelivery} (h : d.node = .empty) : d.entries = [] := by
  rw [entries, snapshot, h]
  rfl

end UsersDelivery

variable (userDetails : Dict)

/-- One delivery: the callback assigns `users` once for every list it is passed. -/
def ResentsUsersVC.deliver (s : ResentsUsersVC) (d : UsersDelivery) : ResentsUsersVC :=
  let (halper, lists) := userObserver userDetails d.snapshot s.halper
  { halper := halper, users := lists.foldl (fun _ users => some users) s.users }

/-- The list holds exactly the users of the snapshot other than the signed-in one, each once. -/
structure Follows (d : UsersDelivery) (users : List UsersState) : Prop where
  nodup : (users.map UsersState.userId).Nodup
  stored : ∀ u ∈ users, u ∈ d.records ∧ u.userId ≠ some (userDetails.getstring ChatParameter.userId)
  listed : ∀ r ∈ d.records, r.userId ≠ some (userDetails.getstring ChatParameter.userId) →
    r.userId ∈ users.map UsersState.userId

/-! ## One delivery -/

theorem foldl_assign {α : Type} (lists : List α) (o : Option α) :
    lists.foldl (fun _ x => some x) o = lists.getLast?.or o := by
  induction lists using List.reverseRecOn with
  | nil => rfl
  | append_singleton lists x _ => simp

theorem users_deliver (s : ResentsUsersVC) (d : UsersDelivery) :
    (s.deliver userDetails d).users =
      if d.entries = [] then s.users else some (usersOf userDetails d.entries) := by
  have hlists : (userObserver userDetails d.snapshot s.halper).2.getLast? =
      if d.entries = [] then none else some (usersOf userDetails d.entries) := by
    unfold userObserver UsersDelivery.entries
    cases d.snapshot with
    | none => rfl
    | some value => exact (foldl_userLoop userDetails (getDictionary (some value)) s.halper).2
  show (userObserver userDetails d.snapshot s.halper).2.foldl (fun _ users => some users) s.users = _
  rw [foldl_assign, hlists]
  split <;> rfl

theorem mem_usersOf {entries : Dict} {u : UsersState} (h : u ∈ usersOf userDetails entries) :
    u ∈ entries.map decodeUser ∧ u.userId ≠ some (userDetails.getstring ChatParameter.userId) := by
  obtain ⟨hmem, hne⟩ := List.mem_filter.mp (mem_of_mem_firstBy _ h)
  exact ⟨hmem, Ne.symm (by simpa using hne)⟩

theorem userId_mem_usersOf {entries : Dict} {u : UsersState} (h : u ∈ entries.map decodeUser)
    (hne : u.userId ≠ some (userDetails.getstring ChatParameter.userId)) :
    u.userId ∈ (usersOf userDetails entries).map UsersState.userId := by
  unfold usersOf
  rw [key_mem_firstBy]
  exact List.mem_map_of_mem (List.mem_filter.mpr ⟨h, by simpa using Ne.symm hne⟩)

/-- **A snapshot that is a dictionary** leaves exactly its users. -/
theorem follows_deliver (s : ResentsUsersVC) {d : UsersDelivery} (h : d.IsDictionary) :
    Follows userDetails d ((s.deliver userDetails d).users.getD []) := by
  obtain ⟨hne, hperm⟩ := h.entries_perm
  rw [users_deliver, if_neg hne, Option.getD_some]
  refine ⟨firstBy_nodup _ _, ?_, ?_⟩
  · intro u hu
    obtain ⟨hmem, hu⟩ := mem_usersOf userDetails hu
    exact ⟨hperm.mem_iff.mp hmem, hu⟩
  · intro r hr hme
    exact userId_mem_usersOf userDetails (hperm.mem_iff.mpr hr) hme

/-- **A snapshot that does not exist** leaves the list as it was; it should be empty. -/
theorem follows_deliver_empty_iff (s : ResentsUsersVC) {d : UsersDelivery} (h : d.node = .empty) :
    Follows userDetails d ((s.deliver userDetails d).users.getD []) ↔ s.users.getD [] = [] := by
  have hrecords : d.records = [] := by
    rw [UsersDelivery.records, h]
    rfl
  rw [users_deliver, if_pos (UsersDelivery.entries_of_empty h)]
  constructor
  · intro hf
    rw [List.eq_nil_iff_forall_not_mem]
    intro u hu
    have := (hf.stored u hu).1
    rw [hrecords] at this
    cases this
  · intro hnil
    rw [hnil]
    refine ⟨List.nodup_nil, fun _ h => absurd h List.not_mem_nil, ?_⟩
    intro r hr
    rw [hrecords] at hr
    cases hr

/-! ## The lists passed to the callback -/

/-- The list holds every user of the records but the signed-in one, by the first record of an id. -/
structure ListsUsers (records users : List UsersState) : Prop where
  nodup : (users.map UsersState.userId).Nodup
  signedIn : some (userDetails.getstring ChatParameter.userId) ∉ users.map UsersState.userId
  ids : ∀ id, id ∈ users.map UsersState.userId ↔
    id ∈ records.map UsersState.userId ∧ id ≠ some (userDetails.getstring ChatParameter.userId)
  first : ∀ u ∈ users, records.find? (fun r => r.userId = u.userId) = some u
  once : users = uniqueArray UsersState.userId
    (records.filter fun r => some (userDetails.getstring ChatParameter.userId) ≠ r.userId)

theorem listsUsers_usersOf (entries : Dict) :
    ListsUsers userDetails (entries.map decodeUser) (usersOf userDetails entries) := by
  refine ⟨firstBy_nodup _ _, ?_, ?_, ?_, (uniqueArray_eq_firstBy _ _).symm⟩
  · intro hmem
    obtain ⟨u, hu, heq⟩ := List.mem_map.mp hmem
    exact (mem_usersOf userDetails hu).2 heq
  · intro id
    constructor
    · intro hid
      obtain ⟨u, hu, rfl⟩ := List.mem_map.mp hid
      obtain ⟨hmem, hne⟩ := mem_usersOf userDetails hu
      exact ⟨List.mem_map_of_mem hmem, hne⟩
    · rintro ⟨hid, hne⟩
      obtain ⟨u, hu, rfl⟩ := List.mem_map.mp hid
      exact userId_mem_usersOf userDetails hu hne
  · intro u hu
    have hne := (mem_usersOf userDetails hu).2
    have hfind := find?_of_mem_firstBy UsersState.userId hu
    rw [List.find?_filter] at hfind
    rw [← hfind]
    -- a record with the id of `u` is not that of the signed-in user
    congr 1
    funext r
    by_cases hr : r.userId = u.userId
    · simp [hr, Ne.symm hne]
    · simp [hr]

/-- **The user list of a snapshot**: the last list passed to the callback is complete and without
repetitions, and every list is a prefix of the next. -/
theorem users_of_snapshot (entries : Dict) (hne : entries ≠ []) (enumeration : Enumeration)
    (h : ChatHalper) :
    ∃ users,
      (userObserver userDetails (some (enumeration.apply (.dictionary entries))) h).2.getLast? =
        some users ∧
      ListsUsers userDetails ((enumeration.order entries).map decodeUser) users ∧
      (∀ id, id ∈ users.map UsersState.userId ↔ id ∈ (entries.map decodeUser).map UsersState.userId ∧
        id ≠ some (userDetails.getstring ChatParameter.userId)) ∧
      (userObserver userDetails (some (enumeration.apply (.dictionary entries))) h).2.IsChain
        (· <+: ·) := by
  have hperm := enumeration.perm entries
  have horder : enumeration.order entries ≠ [] := by
    intro hnil
    rw [hnil, List.nil_perm] at hperm
    exact hne hperm
  have hobserver : userObserver userDetails (some (enumeration.apply (.dictionary entries))) h =
      (enumeration.order entries).foldl (userLoop userDetails) ({ h with users := [] }, []) := by
    simp [userObserver, Enumeration.apply]
  have hlists := listsUsers_usersOf userDetails (enumeration.order entries)
  rw [hobserver]
  refine ⟨usersOf userDetails (enumeration.order entries), ?_, hlists, ?_, isChain_userLoop _ _ _⟩
  · rw [(foldl_userLoop userDetails (enumeration.order entries) h).2, if_neg horder]
  · intro id
    rw [hlists.ids, ((hperm.map decodeUser).map UsersState.userId).mem_iff]

/-- Three records, two of them with the id `102`, read by user `101`. -/
theorem users_of_snapshot_three :
    ∃ (userDetails entries : Dict) (users : List UsersState), entries.length = 3 ∧
      ListsUsers userDetails (entries.map decodeUser) users := by
  let record (id name : String) : AnyValue :=
    .dictionary [(ChatParameter.userId, .string id), (ChatParameter.name, .string name)]
  let entries : Dict :=
    [("101", record "101" "a"), ("102", record "102" "b"), ("x", record " 102" "c")]
  obtain ⟨users, -, hlists, -⟩ := users_of_snapshot [(ChatParameter.userId, .string "101")] entries
    (List.cons_ne_nil _ _) ⟨id, fun _ => .refl _⟩ {}
  exact ⟨_, entries, users, rfl, hlists⟩

/-! ## Runs -/

/-- The snapshot is a dictionary, or it does not exist and the list is already empty. -/
def Refreshes (s : ResentsUsersVC) (d : UsersDelivery) : Prop :=
  d.IsDictionary ∨ (d.node = .empty ∧ s.users.getD [] = [])

theorem follows_of_refreshes {s : ResentsUsersVC} {d : UsersDelivery} (h : Refreshes s d) :
    Follows userDetails d ((s.deliver userDetails d).users.getD []) := by
  rcases h with hdict | ⟨hempty, hnil⟩
  · exact follows_deliver userDetails s hdict
  · exact (follows_deliver_empty_iff userDetails s hempty).mpr hnil

theorem refreshes_of_follows {s : ResentsUsersVC} {d : UsersDelivery}
    (hd : d.node = .empty ∨ d.IsDictionary)
    (h : Follows userDetails d ((s.deliver userDetails d).users.getD [])) : Refreshes s d := by
  rcases hd with hempty | hdict
  · exact .inr ⟨hempty, (follows_deliver_empty_iff userDetails s hempty).mp h⟩
  · exact .inl hdict

/-- The state after the deliveries `ds`. -/
def ResentsUsersVC.deliverAll (s : ResentsUsersVC) (ds : List UsersDelivery) : ResentsUsersVC :=
  ds.foldl (ResentsUsersVC.deliver userDetails) s

theorem ResentsUsersVC.deliverAll_concat (s : ResentsUsersVC) (ds : List UsersDelivery)
    (d : UsersDelivery) :
    s.deliverAll userDetails (ds ++ [d]) = (s.deliverAll userDetails ds).deliver userDetails d := by
  rw [deliverAll, List.foldl_append]
  rfl

/-- After every delivery of the run the list holds the users of that delivery. -/
def FollowsAll (s : ResentsUsersVC) (ds : List UsersDelivery) : Prop :=
  Along (fun earlier d =>
    Follows userDetails d ((s.deliverAll userDetails (earlier ++ [d])).users.getD [])) ds

/-- Every delivery of the run refreshes the list it finds. -/
def RefreshesAll (s : ResentsUsersVC) (ds : List UsersDelivery) : Prop :=
  Along (fun earlier d => Refreshes (s.deliverAll userDetails earlier) d) ds

/-- **The user list over a run of deliveries.**  It follows the database when every delivery
refreshes the list it finds, and, for snapshots that do not exist or are dictionaries, only
then. -/
theorem user_list_follows_database (s : ResentsUsersVC) (ds : List UsersDelivery) :
    (RefreshesAll userDetails s ds → FollowsAll userDetails s ds) ∧
    ((∀ d ∈ ds, d.node = .empty ∨ d.IsDictionary) →
      FollowsAll userDetails s ds → RefreshesAll userDetails s ds) := by
  constructor
  · intro h earlier d hpre
    rw [ResentsUsersVC.deliverAll_concat]
    exact follows_of_refreshes userDetails (h earlier d hpre)
  · intro hds h earlier d hpre
    have hmem : d ∈ ds := hpre.subset (by simp)
    refine refreshes_of_follows userDetails (hds d hmem) ?_
    rw [← ResentsUsersVC.deliverAll_concat]
    exact h earlier d hpre

/-- The only other user is deleted, and stays in the list. -/
theorem user_list_keeps_deleted_user :
    ¬ ∀ (userDetails : Dict) (ds : List UsersDelivery), FollowsAll userDetails {} ds := by
  intro hall
  let enumeration : Enumeration := ⟨id, fun _ => .refl _⟩
  let other : FNode :=
    .node [("102", .node [(ChatParameter.userId, .leaf (.string "102"))])]
  have h := hall [(ChatParameter.userId, .string "101")] [⟨other, enumeration⟩, ⟨.empty, enumeration⟩]
    [⟨other, enumeration⟩] ⟨.empty, enumeration⟩ (List.prefix_refl _)
  have hnil := (follows_deliver_empty_iff _ _ rfl).mp h
  revert hnil
  decide

end ChatApplication
