import ChatApplication.Firebase.PersistentConnection

/-!
# The assertions of the connection hold, and no write is lost

The client asserts the state of its connection in many places, counts the listens that are not yet
answered, and keeps the writes that are not yet answered.  All of this is one invariant of the
connection, over every order of calls, tokens, responses and interruptions.

* `Link` — what `connectionState` says about `realtime`, the scheduled attempt and the tokens asked for.
* `Requests` — the request numbers of the kept callbacks, and `unackedListensCount` as the number of
  listen callbacks among them.
* `Puts` — every write is kept, held back or completed, and only one of these.
* `exists_step` — from a state with the invariant no event fails that is `Accepted`; `fails_iff` says which
  fault the other events have, and `no_assertion_fails` says both for runs.
* `writes_conserved` — over every run, the indices of the kept, held and completed writes are those
  given out, each once.
-/

namespace ChatApplication

open Runs

def RequestCallback.isListen {ρ : Type} : RequestCallback ρ → Bool
  | .listen _ => true
  | _ => false

namespace FPersistentConnection

variable {ρ : Type} {s : FPersistentConnection ρ} {W : List ρ}

/-! ## The invariant -/

/-- The state of `self.realtime` in each state of the connection. -/
def realtimeState : ConnectionState → Option RealtimeState
  | .disconnected | .gettingToken => none
  | .connecting => some .connecting
  | .authenticating | .connected => some .connected

/-- The connection state, the connection object, the scheduled attempt and the awaited tokens. -/
structure Link (s : FPersistentConnection ρ) : Prop where
  realtime : s.realtime.map FConnection.state = realtimeState s.connectionState
  retry : s.scheduledRetry.isSome → s.connectionState = .disconnected
  fetches_le : ∀ f ∈ s.fetches, f.1 ≤ s.currentFetchTokenAttempt
  fetched : s.realtime.isSome → s.currentFetchTokenAttempt ∉ s.fetches.map Prod.fst

/-- The callbacks that wait for a response. -/
structure Requests (s : FPersistentConnection ρ) : Prop where
  sorted : (s.requestCBHash.map Prod.fst).Pairwise (· < ·)
  lt : ∀ rn ∈ s.requestCBHash.map Prod.fst, rn < s.requestNumber
  quiet : s.connected = false → s.requestCBHash = []
  unacked : s.unackedListensCount = (s.requestCBHash.countP (·.2.isListen) : Nat)

/-- The indices of the writes that are kept, held back, or completed. -/
def accounted (s : FPersistentConnection ρ) : List Nat :=
  s.putIndices ++ (s.putsToAck.map PutCompletion.index ++ s.completed.map PutCompletion.index)

/-- The writes, when the requests of the calls of `putInternal` so far are `W`. -/
structure Puts (s : FPersistentConnection ρ) (W : List ρ) : Prop where
  sorted : s.putIndices.Pairwise (· < ·)
  counter : s.putCounter = W.length
  perm : s.accounted.Perm (List.range W.length)
  kept : ∀ p ∈ s.outstandingPuts, W[p.1]? = some p.2.request

structure Inv (s : FPersistentConnection ρ) (W : List ρ) : Prop where
  link : s.Link
  requests : s.Requests
  puts : s.Puts W

theorem inv_initial : (initial ρ).Inv [] where
  link := ⟨rfl, nofun, nofun, nofun⟩
  requests := ⟨.nil, nofun, fun _ => rfl, rfl⟩
  puts := ⟨.nil, rfl, .nil, nofun⟩

/-- The fields that the invariant does not speak of. -/
theorem Inv.update (hi : s.Inv W) (listens : List FOutstandingQuery) (listensCreated : Nat)
    (authToken : Option String) (forceTokenRefreshes : Bool) (interruptReasons : List String)
    (firstConnection : Bool) :
    { s with
      listens := listens
      listensCreated := listensCreated
      authToken := authToken
      forceTokenRefreshes := forceTokenRefreshes
      interruptReasons := interruptReasons
      firstConnection := firstConnection }.Inv W :=
  ⟨⟨hi.link.realtime, hi.link.retry, hi.link.fetches_le, hi.link.fetched⟩,
    ⟨hi.requests.sorted, hi.requests.lt, hi.requests.quiet, hi.requests.unacked⟩,
    ⟨hi.puts.sorted, hi.puts.counter, hi.puts.perm, hi.puts.kept⟩⟩

/-- The fields of the writes. -/
theorem Inv.updatePuts (hi : s.Inv W) (puts : List (Nat × FOutstandingPut ρ)) (putsToAck completed : List PutCompletion)
    (hp : { s with outstandingPuts := puts, putsToAck := putsToAck, completed := completed }.Puts W) :
    { s with outstandingPuts := puts, putsToAck := putsToAck, completed := completed }.Inv W :=
  ⟨⟨hi.link.realtime, hi.link.retry, hi.link.fetches_le, hi.link.fetched⟩,
    ⟨hi.requests.sorted, hi.requests.lt, hi.requests.quiet, hi.requests.unacked⟩, hp⟩

theorem connected_eq_true_iff : s.connected = true ↔ realtimeState s.connectionState = some .connected := by
  unfold connected realtimeState
  cases s.connectionState <;> decide

theorem canSendWrites_iff : s.canSendWrites = true ↔ s.connectionState = .connected := by
  simp [canSendWrites]

theorem connected_of_canSendWrites (h : s.canSendWrites = true) : s.connected = true := by
  simp [connected, canSendWrites_iff.mp h]

/-- The connection of a connected client is open. -/
theorem Link.exists_realtime (hl : s.Link) (hc : s.connected = true) :
    ∃ conn, s.realtime = some conn ∧ conn.state = .connected := by
  have h := hl.realtime
  rw [connected_eq_true_iff.mp hc] at h
  exact Option.map_eq_some_iff.mp h

theorem Link.isSome_realtime (hl : s.Link) (hc : s.connected = true) : s.realtime.isSome = true := by
  obtain ⟨conn, hconn, -⟩ := hl.exists_realtime hc
  rw [hconn]
  rfl

theorem Puts.lt (hp : s.Puts W) {index : Nat} (h : index ∈ s.putIndices) : index < W.length :=
  List.mem_range.mp (hp.perm.mem_iff.mp (List.mem_append_left _ h))

/-! ## Sending -/

theorem sendAction_eq (h : ∀ conn, s.realtime = some conn → conn.state = .connected)
    (message : Request ρ) (onMessage : Option (RequestCallback ρ)) :
    s.sendAction message onMessage = .ok (s.posted message onMessage) := by
  unfold sendAction
  cases hr : s.realtime with
  | none => rfl
  | some conn => simp [h conn hr]

theorem Link.state_realtime (hl : s.Link) (hc : s.connected = true) :
    ∀ conn, s.realtime = some conn → conn.state = .connected := by
  intro conn hconn
  obtain ⟨conn', hconn', hstate⟩ := hl.exists_realtime hc
  rw [hconn, Option.some.injEq] at hconn'
  rw [hconn', hstate]

theorem Inv.sendAction_eq (hi : s.Inv W) (hc : s.connected = true) (message : Request ρ)
    (onMessage : Option (RequestCallback ρ)) :
    s.sendAction message onMessage = .ok (s.posted message onMessage) :=
  FPersistentConnection.sendAction_eq (hi.link.state_realtime hc) message onMessage

theorem map_state_posted (message : Request ρ) (onMessage : Option (RequestCallback ρ)) :
    (s.posted message onMessage).realtime.map FConnection.state = s.realtime.map FConnection.state := by
  unfold posted
  cases s.realtime <;> rfl

theorem Link.posted (hl : s.Link) (message : Request ρ) (onMessage : Option (RequestCallback ρ)) :
    (s.posted message onMessage).Link where
  realtime := (map_state_posted message onMessage).trans hl.realtime
  retry := hl.retry
  fetches_le := hl.fetches_le
  fetched := by
    simp only [FPersistentConnection.posted, Option.isSome_map]
    exact hl.fetched

/-- A request with a new number goes behind all others. -/
theorem Requests.sorted_posted (hr : s.Requests) (message : Request ρ)
    (onMessage : Option (RequestCallback ρ)) :
    ((s.posted message onMessage).requestCBHash.map Prod.fst).Pairwise (· < ·) ∧
      ∀ rn ∈ (s.posted message onMessage).requestCBHash.map Prod.fst,
        rn < (s.posted message onMessage).requestNumber := by
  cases onMessage with
  | none =>
    simp only [posted, Option.toList_none, List.map_nil, List.append_nil]
    exact ⟨hr.sorted, fun rn hrn => Nat.lt_succ_of_lt (hr.lt rn hrn)⟩
  | some callback =>
    simp only [posted, Option.toList_some, List.map_cons, List.map_nil, List.map_append]
    constructor
    · rw [List.pairwise_append]
      refine ⟨hr.sorted, List.pairwise_singleton _ _, fun a ha b hb => ?_⟩
      rw [List.mem_singleton.mp hb]
      exact hr.lt a ha
    · intro rn hrn
      rcases List.mem_append.mp hrn with hrn | hrn
      · exact Nat.lt_succ_of_lt (hr.lt rn hrn)
      · rw [List.mem_singleton.mp hrn]
        exact Nat.lt_succ_self _

/-- Sending a request that is not a listen. -/
theorem Inv.posted (hi : s.Inv W) (hc : s.connected = true) (message : Request ρ)
    (onMessage : Option (RequestCallback ρ)) (hcb : ∀ callback ∈ onMessage, callback.isListen = false) :
    (s.posted message onMessage).Inv W where
  link := hi.link.posted message onMessage
  requests := {
    sorted := (hi.requests.sorted_posted message onMessage).1
    lt := (hi.requests.sorted_posted message onMessage).2
    quiet := fun hq => by rw [show s.connected = false from hq] at hc; cases hc
    unacked := by
      rw [show (s.posted message onMessage).unackedListensCount = s.unackedListensCount from rfl,
        hi.requests.unacked]
      cases onMessage with
      | none => simp [FPersistentConnection.posted]
      | some callback => simp [FPersistentConnection.posted, List.countP_append, hcb callback rfl] }
  puts := ⟨hi.puts.sorted, hi.puts.counter, hi.puts.perm, hi.puts.kept⟩

/-- The state after `sendListen` on an open connection. -/
def listenPosted (listenSpec : FOutstandingQuery) (s : FPersistentConnection ρ) : FPersistentConnection ρ :=
  { s.posted (.listen listenSpec.query) (some (.listen listenSpec)) with
    unackedListensCount := s.unackedListensCount + 1 }

theorem Inv.sendListen_eq (hi : s.Inv W) (hc : s.connected = true) (listenSpec : FOutstandingQuery) :
    s.sendListen listenSpec = .ok (s.listenPosted listenSpec) := by
  rw [sendListen, hi.sendAction_eq hc]
  rfl

/-- **`sendListen`.** -/
theorem Inv.listenPosted (hi : s.Inv W) (hc : s.connected = true) (listenSpec : FOutstandingQuery) :
    (s.listenPosted listenSpec).Inv W := by
  have hl := hi.link.posted (.listen listenSpec.query) (some (.listen listenSpec))
  have hsorted := hi.requests.sorted_posted (.listen listenSpec.query) (some (.listen listenSpec))
  have hcount := hi.requests.unacked
  refine ⟨⟨hl.realtime, hl.retry, hl.fetches_le, hl.fetched⟩, ⟨hsorted.1, hsorted.2, fun hq => ?_, ?_⟩,
    ⟨hi.puts.sorted, hi.puts.counter, hi.puts.perm, hi.puts.kept⟩⟩
  · rw [show s.connected = false from hq] at hc
    cases hc
  · have hlisten : RequestCallback.isListen (ρ := ρ) (.listen listenSpec) = true := rfl
    simp only [FPersistentConnection.listenPosted, FPersistentConnection.posted, List.countP_append,
      Option.toList_some, List.map_cons, List.map_nil, List.countP_singleton, hlisten, if_true]
    omega

theorem map_fst_markSent (index : Nat) (puts : List (Nat × FOutstandingPut ρ)) :
    (markSent index puts).map Prod.fst = puts.map Prod.fst := by
  unfold markSent
  rw [List.map_map]
  refine List.map_congr_left fun p _ => ?_
  simp only [Function.comp_apply]
  split <;> rfl

theorem isSome_lookup_iff {index : Nat} :
    (s.outstandingPuts.lookup index).isSome = true ↔ index ∈ s.putIndices := by
  unfold putIndices
  induction s.outstandingPuts with
  | nil => simp
  | cons p puts ih =>
    rw [List.lookup_cons, List.map_cons, List.mem_cons]
    by_cases h : index = p.1
    · simp [h]
    · simp [beq_eq_false_iff_ne.mpr h, h, ih]

/-- Only the `sent` mark of a write changes. -/
theorem Inv.markSent (hi : s.Inv W) (index : Nat) :
    { s with outstandingPuts := markSent index s.outstandingPuts }.Inv W := by
  have hindices := map_fst_markSent index s.outstandingPuts
  have hsorted : ((FPersistentConnection.markSent index s.outstandingPuts).map Prod.fst).Pairwise (· < ·) :=
    hindices ▸ hi.puts.sorted
  have hperm : ((FPersistentConnection.markSent index s.outstandingPuts).map Prod.fst ++
      (s.putsToAck.map PutCompletion.index ++ s.completed.map PutCompletion.index)).Perm
        (List.range W.length) := hindices ▸ hi.puts.perm
  refine hi.updatePuts _ _ _ ⟨hsorted, hi.puts.counter, hperm, fun p hp => ?_⟩
  obtain ⟨q, hq, rfl⟩ := List.mem_map.mp hp
  split
  · exact hi.puts.kept q hq
  · exact hi.puts.kept q hq

/-- The state after `sendPut` on an open connection. -/
def putPosted (index : Nat) (put : FOutstandingPut ρ) (s : FPersistentConnection ρ) :
    FPersistentConnection ρ :=
  { s with outstandingPuts := markSent index s.outstandingPuts }.posted
    (.put index put.request put.hash) (some (.put index put.request))

theorem Inv.sendPut_eq (hi : s.Inv W) (hc : s.canSendWrites = true) {index : Nat}
    {put : FOutstandingPut ρ} (hput : s.outstandingPuts.lookup index = some put) :
    s.sendPut index = .ok (s.putPosted index put) := by
  rw [sendPut, if_pos hc, hput]
  exact (hi.markSent index).sendAction_eq (connected_of_canSendWrites hc) _ _

/-- **`sendPut`** of a kept write. -/
theorem Inv.putPosted (hi : s.Inv W) (hc : s.canSendWrites = true) (index : Nat)
    (put : FOutstandingPut ρ) : (s.putPosted index put).Inv W := by
  refine (hi.markSent index).posted (connected_of_canSendWrites hc) _ _ ?_
  rintro callback ⟨⟩
  rfl

theorem Inv.sendPut (hi : s.Inv W) (hc : s.canSendWrites = true) {index : Nat}
    (hindex : index ∈ s.putIndices) :
    ∃ s', s.sendPut index = .ok s' ∧ s'.Inv W ∧ s'.connectionState = s.connectionState := by
  obtain ⟨put, hput⟩ := Option.isSome_iff_exists.mp (isSome_lookup_iff.mpr hindex)
  exact ⟨_, hi.sendPut_eq hc hput, hi.putPosted hc index put, rfl⟩

/-! ## Opening -/

/-- A client that is connected may change between the two connected states. -/
theorem Inv.setState (hi : s.Inv W) (hc : s.connected = true) {c : ConnectionState}
    (h : realtimeState c = some .connected) : (s.setState c).Inv W where
  link := {
    realtime := by
      rw [connected_eq_true_iff] at hc
      exact hi.link.realtime.trans (hc.trans h.symm)
    retry := fun hretry => by
      have hd := hi.link.retry hretry
      rw [connected_eq_true_iff, hd] at hc
      cases hc
    fetches_le := hi.link.fetches_le
    fetched := hi.link.fetched }
  requests := {
    sorted := hi.requests.sorted
    lt := hi.requests.lt
    quiet := fun hq => by
      rw [show (s.setState c).connected = true from connected_eq_true_iff.mpr h] at hq
      cases hq
    unacked := hi.requests.unacked }
  puts := ⟨hi.puts.sorted, hi.puts.counter, hi.puts.perm, hi.puts.kept⟩

/-- **`restoreState`.** -/
theorem Inv.restoreState (hi : s.Inv W) (hc : s.connectionState = .connected) :
    ∃ s', s.restoreState = .ok s' ∧ s'.Inv W := by
  have hlisten : ∀ (s : FPersistentConnection ρ) (listenSpec : FOutstandingQuery),
      (s.Inv W ∧ s.connectionState = .connected) →
        ∃ s', s.sendListen listenSpec = .ok s' ∧ s'.Inv W ∧ s'.connectionState = .connected := by
    rintro s listenSpec ⟨hi, hc⟩
    have hcon : s.connected = true := connected_of_canSendWrites (canSendWrites_iff.mpr hc)
    exact ⟨_, hi.sendListen_eq hcon listenSpec, hi.listenPosted hcon listenSpec, hc⟩
  have hput : ∀ (s : FPersistentConnection ρ) (index : Nat), (s.Inv W ∧ s.connectionState = .connected) →
      ∃ s', s.restorePut index = .ok s' ∧ s'.Inv W ∧ s'.connectionState = .connected := by
    rintro s index ⟨hi, hc⟩
    by_cases hindex : index ∈ s.putIndices
    · obtain ⟨s', hs', hi', hc'⟩ := hi.sendPut (canSendWrites_iff.mpr hc) hindex
      refine ⟨s', ?_, hi', hc'.trans hc⟩
      rw [restorePut, if_pos (isSome_lookup_iff.mpr hindex), hs']
    · refine ⟨s, ?_, hi, hc⟩
      rw [restorePut, if_neg (fun h => hindex (isSome_lookup_iff.mp h))]
  obtain ⟨s₁, h₁, hi₁⟩ := foldlM_invariant hlisten s.listens s ⟨hi, hc⟩
  obtain ⟨s₂, h₂, hi₂⟩ := foldlM_invariant hput s₁.putKeys s₁ hi₁
  refine ⟨s₂, ?_, hi₂.1⟩
  rw [FPersistentConnection.restoreState, if_pos hc, h₁]
  exact h₂

theorem Inv.sendAuth_eq (hi : s.Inv W) (hc : s.connected = true) {token : String}
    (htoken : s.authToken = some token) (restoreStateAfterComplete : Bool) :
    s.sendAuthAndRestoreStateAfterComplete restoreStateAfterComplete =
      .ok (s.posted (.auth token) (some (.auth restoreStateAfterComplete))) := by
  rw [sendAuthAndRestoreStateAfterComplete, if_pos hc, htoken]
  exact hi.sendAction_eq hc _ _

theorem Inv.sendAuth (hi : s.Inv W) (hc : s.connected = true) {token : String}
    (htoken : s.authToken = some token) (restoreStateAfterComplete : Bool) :
    ∃ s', s.sendAuthAndRestoreStateAfterComplete restoreStateAfterComplete = .ok s' ∧ s'.Inv W := by
  refine ⟨_, hi.sendAuth_eq hc htoken restoreStateAfterComplete, hi.posted hc _ _ ?_⟩
  rintro callback ⟨⟩
  rfl

theorem restoreAuth_of_none (hs : s.connectionState = .connecting) (htoken : s.authToken = none) :
    s.restoreAuth = (s.setState .connected).restoreState := by
  rw [restoreAuth, if_pos hs, htoken]

theorem restoreAuth_of_some (hs : s.connectionState = .connecting) {token : String}
    (htoken : s.authToken = some token) :
    s.restoreAuth = (s.setState .authenticating).sendAuthAndRestoreStateAfterComplete true := by
  rw [restoreAuth, if_pos hs, htoken]

/-- **`restoreAuth`**, from a state that is fine but for the connection state. -/
theorem exists_restoreAuth (hs : s.connectionState = .connecting)
    (hi : ∀ c, realtimeState c = some .connected → (s.setState c).Inv W) :
    ∃ s', s.restoreAuth = .ok s' ∧ s'.Inv W := by
  cases htoken : s.authToken with
  | none =>
    rw [restoreAuth_of_none hs htoken]
    exact (hi .connected rfl).restoreState rfl
  | some token =>
    rw [restoreAuth_of_some hs htoken]
    exact (hi .authenticating rfl).sendAuth rfl htoken true

theorem Link.connecting (hl : s.Link) {conn : FConnection ρ} (hr : s.realtime = some conn)
    (hconn : conn.state = .connecting) : s.connectionState = .connecting := by
  have h := hl.realtime
  rw [hr, Option.map_some, hconn] at h
  cases hc : s.connectionState <;> rw [hc] at h <;> first | rfl | cases h

theorem Inv.opened (hi : s.Inv W) {conn : FConnection ρ} (hr : s.realtime = some conn)
    {c : ConnectionState} (h : realtimeState c = some .connected) :
    ((s.opened conn).setState c).Inv W where
  link := {
    realtime := h.symm
    retry := fun hretry => by
      have hd := hi.link.realtime
      rw [hr, hi.link.retry hretry] at hd
      cases hd
    fetches_le := hi.link.fetches_le
    fetched := fun _ => hi.link.fetched (by rw [hr]; rfl) }
  requests := {
    sorted := hi.requests.sorted
    lt := hi.requests.lt
    quiet := fun hq => by
      have hc : ((s.opened conn).setState c).connected = true := connected_eq_true_iff.mpr h
      rw [hc] at hq
      cases hq
    unacked := hi.requests.unacked }
  puts := ⟨hi.puts.sorted, hi.puts.counter, hi.puts.perm, hi.puts.kept⟩

/-- The statistics of the first connection go out before the connection state changes. -/
theorem exists_sendConnectStats (hs : s.connectionState = .connecting)
    (hi : ∀ c, realtimeState c = some .connected → (s.setState c).Inv W) :
    ∃ s', s.sendConnectStats = .ok s' ∧ s'.connectionState = .connecting ∧
      ∀ c, realtimeState c = some .connected → (s'.setState c).Inv W := by
  unfold sendConnectStats
  split
  · have hopen : ∀ conn, s.realtime = some conn → conn.state = .connected :=
      (hi .connected rfl).link.state_realtime rfl
    refine ⟨s.posted .stats (some .stats), sendAction_eq hopen _ _, hs, fun c hc => ?_⟩
    refine (hi c hc).posted (connected_eq_true_iff.mpr hc) .stats _ ?_
    rintro callback ⟨⟩
    rfl
  · exact ⟨s, rfl, hs, hi⟩

/-- **`onReady`.** -/
theorem exists_onReady (hs : s.connectionState = .connecting)
    (hi : ∀ c, realtimeState c = some .connected → (s.setState c).Inv W) :
    ∃ s', s.onReady = .ok s' ∧ s'.Inv W := by
  obtain ⟨s₁, h₁, hs₁, hi₁⟩ := exists_sendConnectStats hs hi
  obtain ⟨s₂, h₂, hi₂⟩ := exists_restoreAuth hs₁ hi₁
  refine ⟨{ s₂ with firstConnection := false }, ?_, hi₂.update _ _ _ _ _ false⟩
  rw [onReady, h₁]
  show (s₁.restoreAuth >>= _) = _
  rw [h₂]
  rfl

/-- **The hello of the server.** -/
theorem Inv.onHandshake (hi : s.Inv W) : ∃ s', s.onHandshake = .ok s' ∧ s'.Inv W := by
  unfold FPersistentConnection.onHandshake
  split
  · rename_i conn hr
    split
    · rename_i hconn
      exact exists_onReady (hi.link.connecting hr hconn) fun c hc => hi.opened hr hc
    · exact ⟨s, rfl, hi⟩
  · exact ⟨s, rfl, hi⟩

/-! ## Closing and opening again -/

theorem tryScheduleReconnect_eq (hd : s.connectionState = .disconnected) :
    s.tryScheduleReconnect = .ok (if s.shouldReconnect then s.scheduled else s) := by
  unfold tryScheduleReconnect
  rw [if_pos hd]
  split <;> rfl

theorem Inv.scheduled (hi : s.Inv W) (hd : s.connectionState = .disconnected) : s.scheduled.Inv W :=
  ⟨⟨hi.link.realtime, fun _ => hd, hi.link.fetches_le, hi.link.fetched⟩,
    ⟨hi.requests.sorted, hi.requests.lt, hi.requests.quiet, hi.requests.unacked⟩,
    ⟨hi.puts.sorted, hi.puts.counter, hi.puts.perm, hi.puts.kept⟩⟩

theorem Inv.tryScheduleReconnect (hi : s.Inv W) (hd : s.connectionState = .disconnected) :
    ∃ s', s.tryScheduleReconnect = .ok s' ∧ s'.Inv W ∧ s'.realtime = s.realtime := by
  refine ⟨_, tryScheduleReconnect_eq hd, ?_⟩
  split
  · exact ⟨hi.scheduled hd, rfl⟩
  · exact ⟨hi, rfl⟩

/-- A sent transaction that is cancelled moves from the kept writes to the completed ones. -/
theorem Puts.cancelSentTransactions (hp : s.Puts W) : s.cancelSentTransactions.Puts W where
  sorted := hp.sorted.sublist (List.filter_sublist.map Prod.fst)
  counter := hp.counter
  kept := fun p hmem => hp.kept p (List.mem_filter.mp hmem).1
  perm := by
    refine List.Perm.trans ?_ hp.perm
    have hsplit := (List.filter_append_perm isSentTransaction s.outstandingPuts).map Prod.fst
    have hindex : (PutCompletion.index ∘ fun p : Nat × FOutstandingPut ρ => PutCompletion.mk p.1
        kFTransactionDisconnect (some "Client was disconnected while running a transaction")) =
          Prod.fst := rfl
    simp only [accounted, putIndices, FPersistentConnection.cancelSentTransactions, List.map_append,
      List.map_map, hindex] at hsplit ⊢
    rw [List.perm_iff_count]
    intro index
    have hcount := hsplit.count_eq index
    simp only [List.count_append] at hcount ⊢
    omega

theorem Inv.dropped (hi : s.Inv W) : s.dropped.Inv W where
  link := ⟨rfl, fun _ => rfl, hi.link.fetches_le, nofun⟩
  requests := ⟨.nil, nofun, fun _ => rfl, rfl⟩
  puts :=
    have hp := hi.puts.cancelSentTransactions
    ⟨hp.sorted, hp.counter, hp.perm, hp.kept⟩

/-- **`close`**, with `onDisconnect`. -/
theorem Inv.close (hi : s.Inv W) : ∃ s', s.close = .ok s' ∧ s'.Inv W ∧ s'.realtime = none := by
  unfold FPersistentConnection.close
  split
  · rename_i hr
    exact ⟨s, rfl, hi, hr⟩
  · exact hi.dropped.tryScheduleReconnect rfl

/-- Without a connection, no request waits for a response. -/
theorem Inv.requestCBHash_of_realtime (hi : s.Inv W) (hr : s.realtime = none) : s.requestCBHash = [] := by
  refine hi.requests.quiet ?_
  rw [← Bool.not_eq_true]
  intro hc
  obtain ⟨conn, hconn, -⟩ := hi.link.exists_realtime hc
  rw [hr] at hconn
  cases hconn

/-- A client without a connection may become disconnected. -/
theorem Inv.setDisconnected (hi : s.Inv W) (hr : s.realtime = none) : (s.setState .disconnected).Inv W where
  link := ⟨by rw [show (s.setState .disconnected).realtime = none from hr]; rfl, fun _ => rfl,
    hi.link.fetches_le, hi.link.fetched⟩
  requests := ⟨hi.requests.sorted, hi.requests.lt, fun _ => hi.requestCBHash_of_realtime hr,
    hi.requests.unacked⟩
  puts := ⟨hi.puts.sorted, hi.puts.counter, hi.puts.perm, hi.puts.kept⟩

theorem Inv.interruptForReason (hi : s.Inv W) (reason : String) :
    ∃ s', s.interruptForReason reason = .ok s' ∧ s'.Inv W := by
  have hi' : { s with interruptReasons := s.interruptReasons.insert reason }.Inv W := hi.update _ _ _ _ _ _
  unfold FPersistentConnection.interruptForReason
  split
  · obtain ⟨s₁, h₁, hi₁, hr₁⟩ := hi'.close
    refine ⟨{ s₁ with realtime := none }, by rw [h₁]; rfl, ?_⟩
    rw [← hr₁]
    exact hi₁
  · rename_i hr
    have hd := hi'.setDisconnected hr
    exact ⟨_, rfl, ⟨hd.link.realtime, nofun, hd.link.fetches_le, hd.link.fetched⟩,
      ⟨hd.requests.sorted, hd.requests.lt, hd.requests.quiet, hd.requests.unacked⟩,
      ⟨hd.puts.sorted, hd.puts.counter, hd.puts.perm, hd.puts.kept⟩⟩

theorem Inv.onKill (hi : s.Inv W) : ∃ s', s.onKill = .ok s' ∧ s'.Inv W := by
  obtain ⟨s₁, h₁, hi₁⟩ := hi.interruptForReason kFInterruptReasonServerKill
  obtain ⟨s₂, h₂, hi₂, -⟩ := hi₁.close
  refine ⟨s₂, ?_, hi₂⟩
  rw [FPersistentConnection.onKill, h₁]
  exact h₂

theorem Inv.enteringForeground (hi : s.Inv W) : ∃ s', s.enteringForeground = .ok s' ∧ s'.Inv W := by
  unfold FPersistentConnection.enteringForeground
  split
  · rename_i hd
    obtain ⟨s', hs', hi', -⟩ := hi.tryScheduleReconnect hd
    exact ⟨s', hs', hi'⟩
  · exact ⟨s, rfl, hi⟩

theorem Inv.resumeForReason (hi : s.Inv W) (reason : String) :
    ∃ s', s.resumeForReason reason = .ok s' ∧ s'.Inv W :=
  (hi.update _ _ _ _ _ _).enteringForeground

theorem Inv.dropToken (hi : s.Inv W) : ∃ s', s.dropToken = .ok s' ∧ s'.Inv W := by
  have hi' : { s with authToken := none, forceTokenRefreshes := true }.Inv W := hi.update _ _ _ _ _ _
  obtain ⟨s', hs', hi', -⟩ := hi'.close
  exact ⟨s', hs', hi'⟩

theorem Inv.retry (hi : s.Inv W) : ∃ s', s.retry = .ok s' ∧ s'.Inv W := by
  unfold FPersistentConnection.retry
  split
  · exact ⟨s, rfl, hi⟩
  · rename_i forceRefresh hretry
    have hd : s.connectionState = .disconnected := hi.link.retry (by rw [hretry]; rfl)
    have hr : s.realtime = none := by
      have h := hi.link.realtime
      rw [hd] at h
      exact Option.map_eq_none_iff.mp h
    rw [if_pos hd]
    refine ⟨_, rfl, ⟨?_, nofun, ?_, ?_⟩,
      ⟨hi.requests.sorted, hi.requests.lt, fun _ => hi.requestCBHash_of_realtime hr, hi.requests.unacked⟩,
      ⟨hi.puts.sorted, hi.puts.counter, hi.puts.perm, hi.puts.kept⟩⟩
    · show s.realtime.map _ = none
      rw [hr]
      rfl
    · intro f hf
      rcases List.mem_append.mp hf with hf | hf
      · exact Nat.le_succ_of_le (hi.link.fetches_le f hf)
      · rw [List.mem_singleton.mp hf]
    · intro h
      rw [hr] at h
      cases h

/-- While a connection exists, the token of the last attempt has come. -/
theorem Inv.realtime_of_fetch (hi : s.Inv W) {attempt : Nat} (hmem : attempt ∈ s.fetches.map Prod.fst)
    (hcurrent : attempt = s.currentFetchTokenAttempt) : s.realtime = none := by
  rw [← Option.not_isSome_iff_eq_none]
  intro hr
  exact hi.link.fetched hr (hcurrent ▸ hmem)

/-- **The token of an attempt comes**, or an error. -/
theorem Inv.contextFetched (hi : s.Inv W) (attempt : Nat) (result : FetchResult) :
    ∃ s', s.contextFetched attempt result = .ok s' ∧ s'.Inv W := by
  have hdone : (s.fetchDone attempt).Inv W := by
    refine ⟨⟨hi.link.realtime, hi.link.retry, fun f hf => hi.link.fetches_le f (List.mem_filter.mp hf).1,
      fun hr hmem => hi.link.fetched hr ?_⟩,
      ⟨hi.requests.sorted, hi.requests.lt, hi.requests.quiet, hi.requests.unacked⟩,
      ⟨hi.puts.sorted, hi.puts.counter, hi.puts.perm, hi.puts.kept⟩⟩
    exact (List.filter_sublist.map Prod.fst).subset hmem
  unfold FPersistentConnection.contextFetched
  split
  · rename_i hmem
    split
    · rename_i hcurrent
      have hr : s.realtime = none := hi.realtime_of_fetch hmem hcurrent
      cases result with
      | error =>
        obtain ⟨s', hs', hi', -⟩ := (hdone.setDisconnected hr).tryScheduleReconnect rfl
        exact ⟨s', hs', hi'⟩
      | context authToken =>
        simp only
        split
        · rename_i hstate
          rw [openNetworkConnectionWithContext,
            if_pos (show (s.fetchDone attempt).connectionState = .gettingToken from hstate)]
          refine ⟨_, rfl, ⟨rfl, fun h => ?_, hdone.link.fetches_le, fun _ hmem' => ?_⟩,
            ⟨hi.requests.sorted, hi.requests.lt, fun _ => hi.requestCBHash_of_realtime hr,
              hi.requests.unacked⟩, ⟨hi.puts.sorted, hi.puts.counter, hi.puts.perm, hi.puts.kept⟩⟩
          · have hd := hi.link.retry h
            rw [hstate] at hd
            cases hd
          · obtain ⟨f, hf, hfst⟩ := List.mem_map.mp hmem'
            have hne := (List.mem_filter.mp hf).2
            rw [hfst, hcurrent, decide_not, Bool.not_eq_true', decide_eq_false_iff_not] at hne
            exact hne rfl
        · split
          · exact ⟨_, rfl, hdone⟩
          · rename_i hgetting hdisconnected
            have h := hi.link.realtime
            rw [hr] at h
            cases hc : s.connectionState <;> rw [hc] at h <;> contradiction
    · exact ⟨_, rfl, hdone⟩
  · exact ⟨s, rfl, hi⟩

/-! ## Responses -/

/-- A key of an association list with different keys, and the other entries. -/
theorem perm_cons_filter_of_lookup {β : Type} {k : Nat} {v : β} {l : List (Nat × β)}
    (hl : (l.map Prod.fst).Pairwise (· < ·)) (h : l.lookup k = some v) :
    l.Perm ((k, v) :: l.filter fun e => e.1 ≠ k) := by
  induction l with
  | nil => cases h
  | cons e l ih =>
    obtain ⟨k', v'⟩ := e
    rw [List.map_cons, List.pairwise_cons] at hl
    rw [List.lookup_cons] at h
    by_cases hk : k = k'
    · subst hk
      have hrest : l.filter (fun e => e.1 ≠ k) = l := by
        rw [List.filter_eq_self]
        intro e he
        simpa using (hl.1 e.1 (List.mem_map_of_mem he)).ne'
      simp only [beq_self_eq_true, Option.some.injEq] at h
      rw [h, List.filter_cons_of_neg (by simp), hrest]
    · rw [beq_eq_false_iff_ne.mpr hk] at h
      rw [List.filter_cons_of_pos (by simpa using Ne.symm hk)]
      exact ((ih hl.2 h).cons _).trans (.swap _ _ _)

theorem map_state_noted (rn : Nat) : (s.noted rn).realtime.map FConnection.state = s.realtime.map FConnection.state := by
  unfold noted
  cases s.realtime <;> rfl

theorem isSome_noted (rn : Nat) : (s.noted rn).realtime.isSome = s.realtime.isSome := by
  unfold noted
  rw [Option.isSome_map]

theorem Inv.noted (hi : s.Inv W) (rn : Nat) : (s.noted rn).Inv W where
  link := ⟨(map_state_noted rn).trans hi.link.realtime, hi.link.retry, hi.link.fetches_le,
    fun h => hi.link.fetched (isSome_noted rn ▸ h)⟩
  requests := ⟨hi.requests.sorted, hi.requests.lt, hi.requests.quiet, hi.requests.unacked⟩
  puts := ⟨hi.puts.sorted, hi.puts.counter, hi.puts.perm, hi.puts.kept⟩

/-- The state in which a callback runs; the listens that are answered are still counted. -/
def answering (rn : Nat) (s : FPersistentConnection ρ) : FPersistentConnection ρ :=
  { s.noted rn with requestCBHash := s.requestCBHash.filter fun r => r.1 ≠ rn }

/-- The state in which a callback runs, with the count that a listen's callback leaves. -/
theorem Inv.answering (hi : s.Inv W) {rn : Nat} {callback : RequestCallback ρ}
    (h : s.requestCBHash.lookup rn = some callback) (k : Int)
    (hk : k = if callback.isListen then 1 else 0) :
    { s.answering rn with unackedListensCount := s.unackedListensCount - k }.Inv W := by
  have hn := hi.noted rn
  have hsub : (s.requestCBHash.filter fun r => r.1 ≠ rn).Sublist s.requestCBHash := List.filter_sublist
  refine ⟨⟨hn.link.realtime, hn.link.retry, hn.link.fetches_le, hn.link.fetched⟩,
    ⟨hi.requests.sorted.sublist (hsub.map Prod.fst), fun r hr => hi.requests.lt r ((hsub.map Prod.fst).subset hr),
      fun hq => ?_, ?_⟩, ⟨hi.puts.sorted, hi.puts.counter, hi.puts.perm, hi.puts.kept⟩⟩
  · have hnil := hi.requests.quiet hq
    show s.requestCBHash.filter _ = []
    rw [hnil]
    rfl
  · have hcount := (perm_cons_filter_of_lookup hi.requests.sorted h).countP_eq (·.2.isListen)
    have hun := hi.requests.unacked
    rw [hcount, List.countP_cons] at hun
    show s.unackedListensCount - k = ((s.requestCBHash.filter fun r => r.1 ≠ rn).countP (·.2.isListen) : Nat)
    rw [hun, hk]
    cases callback.isListen <;> simp

theorem Inv.connected_of_lookup (hi : s.Inv W) {rn : Nat} {callback : RequestCallback ρ}
    (h : s.requestCBHash.lookup rn = some callback) : s.connected = true := by
  by_contra hc
  rw [hi.requests.quiet (by simpa using hc)] at h
  cases h

theorem Puts.ackPuts (hp : s.Puts W) : s.ackPuts.Puts W where
  sorted := hp.sorted
  counter := hp.counter
  kept := hp.kept
  perm := by
    refine List.Perm.trans ?_ hp.perm
    unfold accounted
    simp only [FPersistentConnection.ackPuts, List.map_append, List.map_nil, List.nil_append]
    exact List.perm_append_comm.append_left _

/-- The callback of a write moves it from the kept writes to the held or the completed ones. -/
theorem Puts.putAnswered (hp : s.Puts W) (index : Nat) (data : Response) : (s.putAnswered index data).Puts W := by
  unfold FPersistentConnection.putAnswered
  split
  · rename_i hsome
    obtain ⟨put, hput⟩ := Option.isSome_iff_exists.mp hsome
    have hperm := (perm_cons_filter_of_lookup hp.sorted hput).map Prod.fst
    refine ⟨hp.sorted.sublist (List.filter_sublist.map Prod.fst), hp.counter, List.Perm.trans ?_ hp.perm,
      fun p hmem => hp.kept p (List.mem_filter.mp hmem).1⟩
    rw [List.perm_iff_count]
    intro i
    have hcount := hperm.count_eq i
    simp only [accounted, putIndices, List.map_cons, List.count_cons, List.count_append] at hcount ⊢
    split <;> simp only [List.map_append, List.count_append, List.map_cons, List.map_nil, List.count_cons,
      List.count_nil] <;> omega
  · exact hp

theorem Inv.putAnswered (hi : s.Inv W) (index : Nat) (data : Response) : (s.putAnswered index data).Inv W := by
  have hp := hi.puts.putAnswered index data
  unfold FPersistentConnection.putAnswered at hp ⊢
  split at hp
  · rename_i hsome
    rw [if_pos hsome]
    exact hi.updatePuts _ _ _ hp
  · rename_i hnone
    rw [if_neg hnone]
    exact hi

theorem Inv.authAnswered (hi : s.Inv W) (hc : s.connected = true) (restoreStateAfterComplete : Bool)
    (data : Response) : ∃ s', s.authAnswered restoreStateAfterComplete data = .ok s' ∧ s'.Inv W := by
  have hcon := hi.setState hc (show realtimeState .connected = some .connected from rfl)
  unfold FPersistentConnection.authAnswered
  split
  · split
    · exact hcon.restoreState rfl
    · exact ⟨_, rfl, hcon⟩
  · exact hcon.dropToken

theorem removeListen_eq {query : FQuerySpec} (h : query.isDefaultOrPartial = true) :
    s.removeListen query =
      .ok { s with listens := s.listens.filter fun listenSpec => listenSpec.query ≠ query } :=
  if_pos h

theorem listenChecked_eq (listenSpec : FOutstandingQuery) (response : Response) :
    ∃ listens, s.listenChecked listenSpec response = .ok { s with listens := listens } := by
  unfold listenChecked
  split
  · exact ⟨_, removeListen_eq listenSpec.checked⟩
  · exact ⟨s.listens, rfl⟩

/-- The callback of a listen changes the listens, and then the count. -/
theorem listenAnswered_eq (listenSpec : FOutstandingQuery) (response : Response) :
    ∃ listens, s.listenAnswered listenSpec response = { s with listens := listens }.listenAcked := by
  obtain ⟨listens, hlistens⟩ := listenChecked_eq (s := s) listenSpec response
  refine ⟨listens, ?_⟩
  rw [listenAnswered, hlistens]
  rfl

/-- **The callback of a listen**, before which the count includes the listen. -/
theorem exists_listenAnswered (listenSpec : FOutstandingQuery) (response : Response)
    (hi : { s with unackedListensCount := s.unackedListensCount - 1 }.Inv W) :
    ∃ s', s.listenAnswered listenSpec response = .ok s' ∧ s'.Inv W := by
  obtain ⟨listens, hlistens⟩ := listenAnswered_eq (s := s) listenSpec response
  have hnonneg : ¬ s.unackedListensCount - 1 < 0 := by
    have h := hi.requests.unacked
    simp only at h
    omega
  have hi' := hi.update listens s.listensCreated s.authToken s.forceTokenRefreshes s.interruptReasons
    s.firstConnection
  rw [hlistens, listenAcked, if_neg hnonneg]
  split
  · exact ⟨_, rfl, hi'.updatePuts _ _ _ hi'.puts.ackPuts⟩
  · exact ⟨_, rfl, hi'⟩

/-- **A response** to a request that waits for one, or any other. -/
theorem Inv.onResponse (hi : s.Inv W) (rn : Nat) (data : Response) :
    ∃ s', s.onResponse rn data = .ok s' ∧ s'.Inv W := by
  unfold FPersistentConnection.onResponse
  split
  · exact ⟨_, rfl, hi.noted rn⟩
  · rename_i callback hlookup
    have hc : (s.answering rn).connected = true := hi.connected_of_lookup hlookup
    have hans : callback.isListen = false → (s.answering rn).Inv W := by
      intro hlisten
      have h := hi.answering hlookup 0 (by simp [hlisten])
      rwa [Int.sub_zero] at h
    cases callback with
    | auth restoreStateAfterComplete => exact (hans rfl).authAnswered hc restoreStateAfterComplete data
    | put index request => exact ⟨_, rfl, (hans rfl).putAnswered index data⟩
    | listen listenSpec => exact exists_listenAnswered listenSpec data (hi.answering hlookup 1 rfl)
    | stats => exact ⟨_, rfl, hans rfl⟩
    | appCheck =>
      show ∃ s', (s.answering rn).appCheckAnswered data = .ok s' ∧ s'.Inv W
      unfold appCheckAnswered
      split
      · exact ⟨_, rfl, hans rfl⟩
      · exact (hans rfl).dropToken

/-! ## Calls of the client -/

theorem listen_eq {query : FQuerySpec} (h : query ∉ s.listens.map FOutstandingQuery.query)
    (checked : query.isDefaultOrPartial = true) :
    let outstanding : FOutstandingQuery := ⟨query, s.listensCreated, checked⟩
    s.listen query =
      if s.connected then (s.keptListen outstanding).sendListen outstanding else .ok (s.keptListen outstanding) := by
  rw [FPersistentConnection.listen, if_neg h, dif_pos checked]

theorem Inv.listen (hi : s.Inv W) {query : FQuerySpec} (h : query ∉ s.listens.map FOutstandingQuery.query)
    (checked : query.isDefaultOrPartial = true) : ∃ s', s.listen query = .ok s' ∧ s'.Inv W := by
  have hi' : (s.keptListen ⟨query, s.listensCreated, checked⟩).Inv W := hi.update _ _ _ _ _ _
  rw [listen_eq h checked]
  split
  · rename_i hc
    exact ⟨_, hi'.sendListen_eq hc _, hi'.listenPosted hc _⟩
  · exact ⟨_, rfl, hi'⟩

theorem unlisten_eq {query : FQuerySpec} (checked : query.isDefaultOrPartial = true) :
    let s' := { s with listens := s.listens.filter fun listenSpec => listenSpec.query ≠ query }
    s.unlisten query =
      if query ∈ s.listens.map FOutstandingQuery.query ∧ s'.connected then s'.sendAction (.unlisten query) none
      else .ok s' := by
  rw [FPersistentConnection.unlisten, removeListen_eq checked]
  rfl

theorem Inv.unlisten (hi : s.Inv W) {query : FQuerySpec} (checked : query.isDefaultOrPartial = true) :
    ∃ s', s.unlisten query = .ok s' ∧ s'.Inv W := by
  have hi' : { s with listens := s.listens.filter fun listenSpec => listenSpec.query ≠ query }.Inv W :=
    hi.update _ _ _ _ _ _
  rw [unlisten_eq checked]
  split
  · rename_i h
    exact ⟨_, hi'.sendAction_eq h.2 _ _, hi'.posted h.2 _ _ (by simp)⟩
  · exact ⟨_, rfl, hi'⟩

theorem Inv.keptPut (hi : s.Inv W) (request : ρ) (hash : Option String) :
    (s.keptPut request hash).Inv (W ++ [request]) where
  link := ⟨hi.link.realtime, hi.link.retry, hi.link.fetches_le, hi.link.fetched⟩
  requests := ⟨hi.requests.sorted, hi.requests.lt, hi.requests.quiet, hi.requests.unacked⟩
  puts := by
    have hindices : (s.keptPut request hash).putIndices = s.putIndices ++ [W.length] := by
      simp [putIndices, FPersistentConnection.keptPut, hi.puts.counter]
    refine ⟨?_, ?_, ?_, fun p hp => ?_⟩
    · rw [hindices, List.pairwise_append]
      refine ⟨hi.puts.sorted, List.pairwise_singleton _ _, fun i hmem j hj => ?_⟩
      rw [List.mem_singleton.mp hj]
      exact hi.puts.lt hmem
    · rw [List.length_append, ← hi.puts.counter]
      rfl
    · rw [accounted, hindices, List.length_append, List.length_singleton, List.range_succ, List.append_assoc]
      refine List.Perm.trans ?_ (hi.puts.perm.append_right _)
      rw [accounted, List.append_assoc]
      exact List.perm_append_comm.append_left _
    · rcases List.mem_append.mp hp with hp | hp
      · have hlt := hi.puts.lt (List.mem_map_of_mem hp)
        rw [List.getElem?_append_left hlt]
        exact hi.puts.kept p hp
      · rw [List.mem_singleton.mp hp, hi.puts.counter]
        simp

theorem Inv.putInternal (hi : s.Inv W) (request : ρ) (hash : Option String) :
    ∃ s', s.putInternal request hash = .ok s' ∧ s'.Inv (W ++ [request]) := by
  have hi' := hi.keptPut request hash
  unfold FPersistentConnection.putInternal
  split
  · rename_i hc
    have hmem : s.putCounter ∈ (s.keptPut request hash).putIndices := by
      simp [putIndices, FPersistentConnection.keptPut]
    obtain ⟨s', hs', hinv, -⟩ := hi'.sendPut hc hmem
    exact ⟨s', hs', hinv⟩
  · exact ⟨_, rfl, hi'⟩

theorem Inv.refreshAuthToken (hi : s.Inv W) (token : Option String) :
    ∃ s', s.refreshAuthToken token = .ok s' ∧ s'.Inv W := by
  have hi' : { s with authToken := token }.Inv W := hi.update _ _ _ _ _ _
  unfold FPersistentConnection.refreshAuthToken
  split
  · rename_i hc
    cases token with
    | some token => exact hi'.sendAuth hc rfl false
    | none => exact ⟨_, hi'.sendAction_eq hc _ _, hi'.posted hc _ _ (by simp)⟩
  · exact ⟨_, rfl, hi'⟩

theorem Inv.refreshAppCheckToken (hi : s.Inv W) (token : String) :
    ∃ s', s.refreshAppCheckToken token = .ok s' ∧ s'.Inv W := by
  unfold FPersistentConnection.refreshAppCheckToken
  split
  · rename_i h
    refine ⟨_, hi.sendAction_eq h.1 _ _, hi.posted h.1 _ _ ?_⟩
    rintro callback ⟨⟩
    rfl
  · exact ⟨s, rfl, hi⟩

theorem Inv.purgeOutstandingWrites (hi : s.Inv W) : s.purgeOutstandingWrites.Inv W := by
  refine hi.updatePuts _ _ _ ⟨.nil, hi.puts.counter, List.Perm.trans ?_ hi.puts.perm, nofun⟩
  have hkeys : s.putKeys.Perm s.putIndices := List.perm_insertionSort _ _
  have hindex : (PutCompletion.index ∘ fun index => PutCompletion.mk index kFErrorWriteCanceled none) = id := rfl
  rw [List.perm_iff_count]
  intro index
  have hcount := hkeys.count_eq index
  simp only [accounted, putIndices, ackPuts, List.map_nil, List.nil_append, List.map_append, List.map_map,
    hindex, List.map_id, List.count_append] at hcount ⊢
  omega

/-! ## Runs -/

/-- The events that do not fail: a listen is made for a query that is not listened to, a listen or an
unlisten for the default query or one of a part of the data, and the server sends no error. -/
def Accepted (s : FPersistentConnection ρ) : Event ρ → Prop
  | .listen query => query ∉ s.listens.map FOutstandingQuery.query ∧ query.isDefaultOrPartial = true
  | .unlisten query => query.isDefaultOrPartial = true
  | .dataMessage (.error _) => False
  | _ => True

/-- The request of a call of `putInternal`. -/
def Event.putRequest : Event ρ → Option ρ
  | .put request _ => some request
  | _ => none

/-- The requests of the writes of a run, in the order of their indices. -/
def putRequests (events : List (Event ρ)) : List ρ := events.filterMap Event.putRequest

/-- **No event fails** in a state with the invariant, and the invariant stays. -/
theorem Inv.exists_step (hi : s.Inv W) {e : Event ρ} (h : s.Accepted e) :
    ∃ s', s.step e = .ok s' ∧ s'.Inv (W ++ e.putRequest.toList) := by
  cases e
  case put request hash => exact hi.putInternal request hash
  all_goals simp only [Event.putRequest, Option.toList_none, List.append_nil]
  case interrupt reason => exact hi.interruptForReason reason
  case resume reason => exact hi.resumeForReason reason
  case foreground => exact hi.enteringForeground
  case retry => exact hi.retry
  case fetched attempt result => exact hi.contextFetched attempt result
  case handshake => exact hi.onHandshake
  case lost =>
    obtain ⟨s', hs', hi', -⟩ := hi.close
    exact ⟨s', hs', hi'⟩
  case kill => exact hi.onKill
  case dataMessage message =>
    cases message with
    | response rn data => exact hi.onResponse rn data
    | error reason => exact h.elim
    | authRevoked => exact hi.dropToken
    | listenRevoked path => exact ⟨_, rfl, hi.update _ _ _ _ _ _⟩
  case listen query => exact hi.listen h.1 h.2
  case unlisten query => exact hi.unlisten h
  case refreshAuthToken token => exact hi.refreshAuthToken token
  case refreshAppCheckToken token => exact hi.refreshAppCheckToken token
  case purge => exact ⟨_, rfl, hi.purgeOutstandingWrites⟩

theorem putRequests_concat (events : List (Event ρ)) (e : Event ρ) :
    putRequests (events ++ [e]) = putRequests events ++ e.putRequest.toList := by
  rw [putRequests, List.filterMap_append]
  cases h : e.putRequest <;> simp [h, putRequests]

/-- The event fails with the fault: a second listen for a query, a listen or an unlisten for a query of all
the data that is not the default one, or an error that the server sends. -/
def Fails (s : FPersistentConnection ρ) (e : Event ρ) (fault : ConnectionFault) : Prop :=
  (∃ query, e = .listen query ∧ query ∈ s.listens.map FOutstandingQuery.query ∧ fault = .listenCalledTwice) ∨
  (∃ query, e = .listen query ∧ query ∉ s.listens.map FOutstandingQuery.query ∧
    query.isDefaultOrPartial = false ∧ fault = .listenForNonDefaultCompleteQuery) ∨
  (∃ query, e = .unlisten query ∧ query.isDefaultOrPartial = false ∧
    fault = .removeListenForNonDefaultCompleteQuery) ∨
  ∃ reason, e = .dataMessage (.error reason) ∧ fault = .serverError reason

theorem Fails.step_eq {e : Event ρ} {fault : ConnectionFault} (h : s.Fails e fault) : s.step e = .error fault := by
  obtain ⟨query, rfl, hmem, rfl⟩ | ⟨query, rfl, hmem, hquery, rfl⟩ | ⟨query, rfl, hquery, rfl⟩ |
    ⟨reason, rfl, rfl⟩ := h
  · exact if_pos hmem
  · rw [step, FPersistentConnection.listen, if_neg hmem, dif_neg (by simp [hquery])]
  · rw [step, FPersistentConnection.unlisten, removeListen, if_neg (by simp [hquery])]
    rfl
  · rfl

theorem accepted_or_fails (s : FPersistentConnection ρ) (e : Event ρ) : s.Accepted e ∨ ∃ fault, s.Fails e fault := by
  cases e
  case listen query =>
    by_cases hmem : query ∈ s.listens.map FOutstandingQuery.query
    · exact .inr ⟨_, .inl ⟨query, rfl, hmem, rfl⟩⟩
    · by_cases hquery : query.isDefaultOrPartial = true
      · exact .inl ⟨hmem, hquery⟩
      · exact .inr ⟨_, .inr (.inl ⟨query, rfl, hmem, by simpa using hquery, rfl⟩)⟩
  case unlisten query =>
    by_cases hquery : query.isDefaultOrPartial = true
    · exact .inl hquery
    · exact .inr ⟨_, .inr (.inr (.inl ⟨query, rfl, by simpa using hquery, rfl⟩))⟩
  case dataMessage message =>
    cases message
    case error reason => exact .inr ⟨_, .inr (.inr (.inr ⟨reason, rfl, rfl⟩))⟩
    all_goals exact .inl trivial
  all_goals exact .inl trivial

theorem accepted_of_step {e : Event ρ} {s' : FPersistentConnection ρ} (h : s.step e = .ok s') : s.Accepted e := by
  rcases s.accepted_or_fails e with haccepted | ⟨fault, hfails⟩
  · exact haccepted
  · rw [hfails.step_eq] at h
    cases h

/-- **Which events fail** in a state with the invariant. -/
theorem Inv.fails_iff (hi : s.Inv W) (e : Event ρ) (fault : ConnectionFault) :
    s.step e = .error fault ↔ s.Fails e fault := by
  refine ⟨fun h => ?_, Fails.step_eq⟩
  rcases s.accepted_or_fails e with haccepted | ⟨fault', hfails⟩
  · obtain ⟨s', hs', -⟩ := hi.exists_step haccepted
    rw [h] at hs'
    cases hs'
  · rw [hfails.step_eq] at h
    cases h
    exact hfails

theorem next_eq_some {e : Event ρ} {s' : FPersistentConnection ρ} : s.next e = some s' ↔ s.step e = .ok s' := by
  unfold next
  cases s.step e <;> simp [Except.toOption]

/-- **The invariant holds in every state of every run.** -/
theorem run_inv {events : List (Event ρ)} {s : FPersistentConnection ρ}
    (hr : run next (initial ρ) events = some s) : s.Inv (putRequests events) := by
  induction events using List.reverseRecOn generalizing s with
  | nil =>
    cases hr
    exact inv_initial
  | append_singleton events e ih =>
    obtain ⟨s₁, hr₁, hs⟩ := run_concat_eq_some.mp hr
    have hi₁ := ih hr₁
    rw [next_eq_some] at hs
    obtain ⟨s', hs', hi'⟩ := hi₁.exists_step (accepted_of_step hs)
    rw [hs, Except.ok.injEq] at hs'
    rw [hs', putRequests_concat]
    exact hi'

/-- **The assertions on the state of the connection hold.**  In every state of every run an event fails
exactly when it is a second `listen` for a query that is listened to, a `listen` or an `unlisten` for a
query of all the data that is not the default one, or an error that the server sends; and what fails is
the assertion or the exception for this very case. -/
theorem no_assertion_fails {events : List (Event ρ)} {s : FPersistentConnection ρ}
    (hr : run next (initial ρ) events = some s) (e : Event ρ) (fault : ConnectionFault) :
    s.step e = .error fault ↔
      (∃ query, e = .listen query ∧ query ∈ s.listens.map FOutstandingQuery.query ∧
        fault = .listenCalledTwice) ∨
      (∃ query, e = .listen query ∧ query ∉ s.listens.map FOutstandingQuery.query ∧
        query.isDefaultOrPartial = false ∧ fault = .listenForNonDefaultCompleteQuery) ∨
      (∃ query, e = .unlisten query ∧ query.isDefaultOrPartial = false ∧
        fault = .removeListenForNonDefaultCompleteQuery) ∨
      ∃ reason, e = .dataMessage (.error reason) ∧ fault = .serverError reason :=
  (run_inv hr).fails_iff e fault

/-- The events up to an open connection without a token. -/
def opening : List (Event ρ) :=
  [.resume kFInterruptReasonWaitingForOpen, .retry, .fetched 1 (.context none), .handshake]

/-- A query is listened to on the open connection: then a second listen for it fails, a listen for all the
data in the order of the keys fails, an answer to the listen that refuses it does not, and neither does a
loss of the connection. -/
theorem no_assertion_fails_of_listening :
    let query : FQuerySpec := ⟨["Message"], {}⟩
    let byKey : FQuerySpec := ⟨["Message"], { index := .key }⟩
    ∃ s, run next (initial String) (opening ++ [.listen query]) = some s ∧
      s.step (.listen query) = .error .listenCalledTwice ∧
      s.step (.listen byKey) = .error .listenForNonDefaultCompleteQuery ∧
      (∀ fault, s.step (.dataMessage (.response 1 ⟨"permission_denied", none⟩)) ≠ .error fault) ∧
      ∀ fault, s.step .lost ≠ .error fault := by
  intro query byKey
  refine ⟨_, rfl, ?_⟩
  have hfails := @no_assertion_fails String (opening ++ [.listen query]) _ rfl
  refine ⟨(hfails _ _).mpr (.inl ⟨query, rfl, by decide, rfl⟩),
    (hfails _ _).mpr (.inr (.inl ⟨byKey, rfl, by decide, by decide, rfl⟩)), fun fault h => ?_, fun fault h => ?_⟩
  · simpa using (hfails _ _).mp h
  · simpa using (hfails _ _).mp h

/-- **No write is lost, and none completes twice.**  In every state of every run, the indices of the
writes that are kept, held back or completed are the indices given out, each of them once. -/
theorem writes_conserved {events : List (Event ρ)} {s : FPersistentConnection ρ}
    (hr : run next (initial ρ) events = some s) :
    (s.putIndices ++ (s.putsToAck.map PutCompletion.index ++ s.completed.map PutCompletion.index)).Perm
      (List.range (putRequests events).length) :=
  (run_inv hr).puts.perm

/-- Two writes: the first is answered while a listen is not; then the connection is lost and opened
again, and the held write completes with the answer to the listen. -/
theorem writes_conserved_over_reconnect :
    let events : List (Event String) := opening ++
      [.listen ⟨["Message"], {}⟩, .put "a" none, .put "b" none, .dataMessage (.response 2 ⟨"ok", none⟩), .lost,
        .retry, .fetched 2 (.context (some "token")), .handshake, .dataMessage (.response 4 ⟨"ok", none⟩),
        .dataMessage (.response 5 ⟨"ok", none⟩)]
    ∃ s, run next (initial String) events = some s ∧
      (s.putIndices = [1] ∧ s.completed = [⟨0, "ok", none⟩]) ∧
      (s.putIndices ++ (s.putsToAck.map PutCompletion.index ++ s.completed.map PutCompletion.index)).Perm
        (List.range (putRequests events).length) := by
  intro events
  exact ⟨_, rfl, ⟨rfl, rfl⟩, @writes_conserved String events _ rfl⟩

end FPersistentConnection

end ChatApplication
