import ChatApplication.Firebase.CompoundWrite
import ChatApplication.Firebase.ConnectionSafety
import ChatApplication.Lib.Outbox

/-!
# Writes over lost connections

The connection as a queue of writes that is sent again on every new connection (`Lib.Outbox`).  The
server answers requests in the order in which they were sent (`InOrder`); then a write can be sent
twice only on different connections, and what the server holds in the end is what it would hold if no
connection had been lost.

* `outbox` — the queue, as the library sees it.
* `Follow` — every state of a run is reached by moves of the queue; `Follow.step` is the simulation.
* `writes_in_order` — what a connection carries is a subsequence of the writes that were made.
* `delivered_once` — when no write is left, the writes that arrived, with all repetitions, have the
  effect of each write once, in the order in which they were made; a write that the server refuses has
  none.
-/

namespace ChatApplication

open Runs Outbox Overwrite

variable {ρ : Type}

/-! ## The queue of a connection -/

/-- The write that a request carries, with its index. -/
def Request.item : Request ρ → Option (Nat × ρ)
  | .put index request _ => some (index, request)
  | _ => none

/-- The write whose answer a callback waits for. -/
def RequestCallback.item : RequestCallback ρ → Option (Nat × ρ)
  | .put index request => some (index, request)
  | _ => none

/-- The callback of an `auth`, and whether it restores the state. -/
def RequestCallback.restores : RequestCallback ρ → Option Bool
  | .auth restoreStateAfterComplete => some restoreStateAfterComplete
  | _ => none

/-- The numbered writes sent on a connection, and what was answered on it. -/
def FConnection.puts (conn : FConnection ρ) : Round (Nat × ρ) where
  out := conn.out.filterMap fun m => m.2.item.map fun item => (m.1, item)
  answers := conn.answers

namespace FPersistentConnection

variable {s s' : FPersistentConnection ρ} {W : List ρ} {plain : Bool} {rn : Nat} {callback : RequestCallback ρ}

/-- The writes of a run with their indices. -/
def items (W : List ρ) : List (Nat × ρ) := (List.range W.length).zip W

/-- The writes sent on the open connection. -/
def round (s : FPersistentConnection ρ) : Round (Nat × ρ) := s.realtime.elim {} FConnection.puts

def pendingPuts (s : FPersistentConnection ρ) : List (Nat × (Nat × ρ)) :=
  s.requestCBHash.filterMap fun r => r.2.item.map fun item => (r.1, item)

/-- The `auth` requests that wait for an answer. -/
def pendingAuths (s : FPersistentConnection ρ) : List Bool := s.requestCBHash.filterMap fun r => r.2.restores

/-- The kept writes. -/
def keptItems (s : FPersistentConnection ρ) : List (Nat × ρ) :=
  s.outstandingPuts.map fun p => (p.1, p.2.request)

/-- The connection as a queue, when the writes so far are `W`. -/
def outbox (s : FPersistentConnection ρ) (W : List ρ) : Outbox.State (Nat × ρ) where
  issued := items W
  kept := s.keptItems
  writing := s.canSendWrites
  round := s.round
  pending := s.pendingPuts
  rounds := s.closed.map FConnection.puts

/-- Only the first of the pending `auth` requests may restore the state, and only while the client is
authenticating. -/
structure AuthOrder (s : FPersistentConnection ρ) : Prop where
  authenticating : s.connectionState = .authenticating →
    ∃ rest, s.pendingAuths = true :: rest ∧ ∀ b ∈ rest, b = false
  other : s.connectionState ≠ .authenticating → ∀ b ∈ s.pendingAuths, b = false

/-- The state is reached by moves of the queue. -/
structure Follow (plain : Bool) (s : FPersistentConnection ρ) (W : List ρ) : Prop where
  auths : s.AuthOrder
  noHash : plain = true → ∀ p ∈ s.outstandingPuts, p.2.hash = none
  moves : Moves plain {} (s.outbox W)

theorem Follow.ordered (hf : Follow plain s W) : Ordered (s.outbox W) := ordered_empty.moves hf.moves

theorem follow_initial : Follow plain (initial ρ) [] :=
  ⟨⟨nofun, fun _ => nofun⟩, fun _ => nofun, .refl⟩

theorem items_concat (W : List ρ) (request : ρ) : items (W ++ [request]) = items W ++ [(W.length, request)] := by
  unfold items
  rw [List.length_append, List.length_singleton, List.range_succ, List.zip_append (by simp)]
  rfl

theorem notMem_items (W : List ρ) (request : ρ) : (W.length, request) ∉ items W := by
  intro h
  have hlt := (List.of_mem_zip h).1
  simp at hlt

/-! ## Steps that the queue does not see -/

/-- The same queue and the same `auth` requests. -/
structure Same (s s' : FPersistentConnection ρ) : Prop where
  kept : s'.outstandingPuts.map (fun p => (p.1, p.2.request, p.2.hash)) =
    s.outstandingPuts.map fun p => (p.1, p.2.request, p.2.hash)
  writing : s'.canSendWrites = s.canSendWrites
  authenticating : s'.connectionState = .authenticating ↔ s.connectionState = .authenticating
  round : s'.round = s.round
  closed : s'.closed = s.closed
  pendingPuts : s'.pendingPuts = s.pendingPuts
  pendingAuths : s'.pendingAuths = s.pendingAuths

theorem Same.keptItems_eq (h : Same s s') : s'.keptItems = s.keptItems := by
  have hmap := congrArg (List.map fun p : Nat × ρ × Option String => (p.1, p.2.1)) h.kept
  rw [List.map_map, List.map_map] at hmap
  exact hmap

theorem Same.outbox_eq (h : Same s s') (W : List ρ) : s'.outbox W = s.outbox W := by
  unfold outbox
  rw [h.keptItems_eq, h.writing, h.round, h.pendingPuts, h.closed]

theorem Same.trans {s'' : FPersistentConnection ρ} (h : Same s s') (h' : Same s' s'') : Same s s'' :=
  ⟨h'.kept.trans h.kept, h'.writing.trans h.writing, h'.authenticating.trans h.authenticating,
    h'.round.trans h.round, h'.closed.trans h.closed, h'.pendingPuts.trans h.pendingPuts,
    h'.pendingAuths.trans h.pendingAuths⟩

theorem AuthOrder.same (ha : s.AuthOrder) (h : Same s s') : s'.AuthOrder where
  authenticating := fun hs => by
    rw [h.pendingAuths]
    exact ha.authenticating (h.authenticating.mp hs)
  other := fun hs => by
    rw [h.pendingAuths]
    exact ha.other fun hs' => hs (h.authenticating.mpr hs')

theorem Follow.same (hf : Follow plain s W) (h : Same s s') : Follow plain s' W where
  auths := hf.auths.same h
  noHash := fun hplain p hp => by
    have hmem : (p.1, p.2.request, p.2.hash) ∈
        s'.outstandingPuts.map fun p => (p.1, p.2.request, p.2.hash) := List.mem_map_of_mem hp
    rw [h.kept] at hmem
    obtain ⟨q, hq, heq⟩ := List.mem_map.mp hmem
    simp only [Prod.mk.injEq] at heq
    rw [← heq.2.2]
    exact hf.noHash hplain q hq
  moves := by
    rw [h.outbox_eq]
    exact hf.moves

/-- A request that is no write and no `auth`. -/
theorem same_posted (message : Request ρ) (onMessage : Option (RequestCallback ρ))
    (hm : message.item = none)
    (hcb : ∀ callback ∈ onMessage, callback.item = none ∧ callback.restores = none) :
    Same s (s.posted message onMessage) where
  kept := rfl
  writing := rfl
  authenticating := Iff.rfl
  round := by
    unfold round posted
    cases s.realtime with
    | none => rfl
    | some conn => simp [FConnection.puts, hm]
  closed := rfl
  pendingPuts := by
    unfold pendingPuts posted
    cases onMessage with
    | none => simp
    | some callback => simp [(hcb callback rfl).1]
  pendingAuths := by
    unfold pendingAuths posted
    cases onMessage with
    | none => simp
    | some callback => simp [(hcb callback rfl).2]

theorem same_listenPosted (listenSpec : FOutstandingQuery) : Same s (s.listenPosted listenSpec) := by
  have h : Same s (s.posted (.listen listenSpec.query) (some (.listen listenSpec))) := by
    refine same_posted _ _ rfl ?_
    rintro callback ⟨⟩
    exact ⟨rfl, rfl⟩
  exact ⟨h.kept, h.writing, h.authenticating, h.round, h.closed, h.pendingPuts, h.pendingAuths⟩

/-! ## Sending writes -/

theorem outbox_posted_put (hr : s.realtime.isSome = true) (index : Nat) (request : ρ)
    (hash : Option String) (W : List ρ) :
    (s.posted (.put index request hash) (some (.put index request))).outbox W =
      (s.outbox W).send (s.requestNumber, (index, request)) := by
  obtain ⟨conn, hconn⟩ := Option.isSome_iff_exists.mp hr
  simp [outbox, Outbox.State.send, posted, round, pendingPuts, hconn, FConnection.puts, Request.item,
    RequestCallback.item, keptItems, canSendWrites]

theorem same_markSent (index : Nat) : Same s { s with outstandingPuts := markSent index s.outstandingPuts } := by
  refine ⟨?_, rfl, Iff.rfl, rfl, rfl, rfl, rfl⟩
  unfold markSent
  rw [List.map_map]
  refine List.map_congr_left fun p _ => ?_
  simp only [Function.comp_apply]
  split <;> rfl

theorem outbox_putPosted (hr : s.realtime.isSome = true) (index : Nat) (put : FOutstandingPut ρ)
    (W : List ρ) :
    (s.putPosted index put).outbox W = (s.outbox W).send (s.requestNumber, (index, put.request)) := by
  rw [putPosted, outbox_posted_put (s := { s with outstandingPuts := markSent index s.outstandingPuts }) hr,
    (same_markSent index).outbox_eq]

theorem pendingAuths_putPosted (index : Nat) (put : FOutstandingPut ρ) :
    (s.putPosted index put).pendingAuths = s.pendingAuths := by
  simp [putPosted, posted, pendingAuths, RequestCallback.restores]

theorem lookup_of_mem {i : Nat} {put : FOutstandingPut ρ} {puts : List (Nat × FOutstandingPut ρ)}
    (hsorted : (puts.map Prod.fst).Pairwise (· < ·)) (h : (i, put) ∈ puts) : puts.lookup i = some put := by
  induction puts with
  | nil => cases h
  | cons p puts ih =>
    rw [List.map_cons, List.pairwise_cons] at hsorted
    rw [List.lookup_cons]
    rcases List.mem_cons.mp h with rfl | h
    · simp
    · have hne : i ≠ p.1 := (hsorted.1 i (List.mem_map_of_mem h)).ne'
      rw [beq_eq_false_iff_ne.mpr hne]
      exact ih hsorted.2 h

theorem Inv.exists_lookup (hi : s.Inv W) {p : Nat × ρ} (hp : p ∈ s.keptItems) :
    ∃ put, s.outstandingPuts.lookup p.1 = some put ∧ put.request = p.2 := by
  obtain ⟨q, hq, rfl⟩ := List.mem_map.mp hp
  exact ⟨q.2, lookup_of_mem hi.puts.sorted hq, rfl⟩

/-- Writes sent one after the other by `restoreState`. -/
theorem Inv.restorePuts : ∀ (l : List (Nat × ρ)) {s : FPersistentConnection ρ}, s.Inv W →
    s.canSendWrites = true → (∀ p ∈ l, p ∈ s.keptItems) →
    ∃ s', ∃ ms : List (Nat × (Nat × ρ)), (l.map Prod.fst).foldlM restorePut s = .ok s' ∧ ms.map Prod.snd = l ∧
      s'.outbox W = ms.foldl (fun q m => q.send m) (s.outbox W) ∧ s'.pendingAuths = s.pendingAuths ∧
      s'.connectionState = s.connectionState ∧
      s'.outstandingPuts.map (fun p => (p.1, p.2.request, p.2.hash)) =
        s.outstandingPuts.map fun p => (p.1, p.2.request, p.2.hash)
  | [], s, _, _, _ => ⟨s, [], rfl, rfl, rfl, rfl, rfl, rfl⟩
  | p :: l, s, hi, hc, hl => by
    obtain ⟨put, hput, hreq⟩ := hi.exists_lookup (hl p List.mem_cons_self)
    have hl' : ∀ q ∈ l, q ∈ (s.putPosted p.1 put).keptItems := by
      intro q hq
      rw [show (s.putPosted p.1 put).keptItems = s.keptItems from (same_markSent p.1).keptItems_eq]
      exact hl q (List.mem_cons_of_mem _ hq)
    obtain ⟨s', ms, hs', hms, hout, hauths, hstate, hkept⟩ :=
      Inv.restorePuts l (hi.putPosted hc p.1 put) hc hl'
    refine ⟨s', (s.requestNumber, p) :: ms, ?_, ?_, ?_, ?_, hstate, ?_⟩
    · rw [List.map_cons, List.foldlM_cons, restorePut, if_pos (by rw [hput]; rfl), hi.sendPut_eq hc hput]
      exact hs'
    · rw [List.map_cons, hms]
    · rw [hout, outbox_putPosted (hi.link.isSome_realtime (connected_of_canSendWrites hc)), hreq]
      rfl
    · rw [hauths, pendingAuths_putPosted]
    · rw [hkept]
      exact (same_markSent p.1).kept

theorem putKeys_eq (hi : s.Inv W) : s.putKeys = s.keptItems.map Prod.fst := by
  have hsorted : s.putIndices.Pairwise (· ≤ ·) := hi.puts.sorted.imp Nat.le_of_lt
  rw [putKeys, List.Pairwise.insertionSort_eq hsorted, keptItems, List.map_map]
  rfl

/-- **`restoreState`** sends all kept writes in their order. -/
theorem follow_restoreState (hi : (s.setState .connected).Inv W) (hw : s.canSendWrites = false)
    (hmoves : Moves plain {} (s.outbox W)) (hauths : ∀ b ∈ s.pendingAuths, b = false)
    (hhash : plain = true → ∀ p ∈ s.outstandingPuts, p.2.hash = none)
    (h : (s.setState .connected).restoreState = .ok s') : Follow plain s' W := by
  have hlisten : ∀ (s₁ : FPersistentConnection ρ) (listenSpec : FOutstandingQuery),
      (s₁.Inv W ∧ s₁.connectionState = .connected ∧ Same (s.setState .connected) s₁) →
        ∃ s₂, s₁.sendListen listenSpec = .ok s₂ ∧ s₂.Inv W ∧ s₂.connectionState = .connected ∧
          Same (s.setState .connected) s₂ := by
    rintro s₁ listenSpec ⟨hi₁, hc₁, hsame⟩
    have hcon : s₁.connected = true := connected_of_canSendWrites (canSendWrites_iff.mpr hc₁)
    exact ⟨_, hi₁.sendListen_eq hcon listenSpec, hi₁.listenPosted hcon listenSpec, hc₁,
      hsame.trans (same_listenPosted listenSpec)⟩
  obtain ⟨s₁, h₁, hi₁, hc₁, hsame⟩ := foldlM_invariant hlisten s.listens (s.setState .connected)
    ⟨hi, rfl, ⟨rfl, rfl, Iff.rfl, rfl, rfl, rfl, rfl⟩⟩
  obtain ⟨s₂, ms, h₂, hms, hout, hauths₂, hstate, hkept₂⟩ :=
    Inv.restorePuts s₁.keptItems hi₁ (canSendWrites_iff.mpr hc₁) fun _ hp => hp
  have hs' : s' = s₂ := by
    rw [restoreState, if_pos (show (s.setState .connected).connectionState = .connected from rfl)] at h
    have hlistens : (s.setState .connected).listens = s.listens := rfl
    rw [hlistens, h₁] at h
    have hfold : s₁.putKeys.foldlM restorePut s₁ = .ok s' := h
    rw [putKeys_eq hi₁, h₂, Except.ok.injEq] at hfold
    exact hfold.symm
  have hquiet := (ordered_empty.moves hmoves).quiet hw
  refine ⟨⟨fun hs => ?_, fun _ => ?_⟩, fun hplain p hp => ?_, ?_⟩
  · rw [hs', hstate, hc₁] at hs
    cases hs
  · rw [hs', hauths₂, hsame.pendingAuths]
    exact hauths
  · have hmem : (p.1, p.2.request, p.2.hash) ∈
        s'.outstandingPuts.map fun p => (p.1, p.2.request, p.2.hash) := List.mem_map_of_mem hp
    rw [hs', hkept₂, hsame.kept] at hmem
    obtain ⟨q, hq, heq⟩ := List.mem_map.mp hmem
    simp only [Prod.mk.injEq] at heq
    rw [← heq.2.2]
    exact hhash hplain q hq
  · have hrestore : s'.outbox W = (s.outbox W).restore ms := by
      rw [hs', hout, hsame.outbox_eq]
      exact Outbox.State.foldl_send_eq_restore (s := s.outbox W) hquiet.1 hquiet.2 ms
    rw [hrestore]
    refine hmoves.tail (.restore hw ?_)
    rw [hms, hsame.keptItems_eq]
    rfl

/-! ## Opening and closing -/

theorem outbox_posted_auth (token : String) (b : Bool) (W : List ρ) :
    (s.posted (.auth token) (some (.auth b))).outbox W = s.outbox W := by
  cases hr : s.realtime <;>
    simp [outbox, posted, round, pendingPuts, hr, FConnection.puts, Request.item, RequestCallback.item,
      keptItems, canSendWrites]

theorem pendingAuths_posted_auth (token : String) (b : Bool) :
    (s.posted (.auth token) (some (.auth b))).pendingAuths = s.pendingAuths ++ [b] := by
  simp [posted, pendingAuths, RequestCallback.restores]

/-- **A new token** on an open connection. -/
theorem Follow.postedAuth (hf : Follow plain s W) (token : String) :
    Follow plain (s.posted (.auth token) (some (.auth false))) W where
  auths := by
    constructor
    · intro hs
      obtain ⟨rest, hrest, hall⟩ := hf.auths.authenticating hs
      refine ⟨rest ++ [false], ?_, ?_⟩
      · rw [pendingAuths_posted_auth, hrest]
        rfl
      · intro b hb
        rcases List.mem_append.mp hb with hb | hb
        · exact hall b hb
        · exact List.mem_singleton.mp hb
    · intro hs b hb
      rw [pendingAuths_posted_auth] at hb
      rcases List.mem_append.mp hb with hb | hb
      · exact hf.auths.other hs b hb
      · exact List.mem_singleton.mp hb
  noHash := hf.noHash
  moves := by
    rw [outbox_posted_auth]
    exact hf.moves

/-- **`restoreAuth`**, when no `auth` waits for an answer. -/
theorem follow_restoreAuth (hs : s.connectionState = .connecting)
    (hi : ∀ c, realtimeState c = some .connected → (s.setState c).Inv W)
    (hf : Follow plain s W) (hauths : s.pendingAuths = []) (h : s.restoreAuth = .ok s') :
    Follow plain s' W := by
  have hw : s.canSendWrites = false := by simp [canSendWrites, hs]
  cases htoken : s.authToken with
  | none =>
    rw [restoreAuth_of_none hs htoken] at h
    refine follow_restoreState (hi .connected rfl) hw hf.moves ?_ hf.noHash h
    simp [hauths]
  | some token =>
    rw [restoreAuth_of_some hs htoken, (hi .authenticating rfl).sendAuth_eq rfl htoken, Except.ok.injEq] at h
    rw [← h]
    refine ⟨⟨fun _ => ⟨[], ?_, by simp⟩, fun hs' => absurd rfl hs'⟩, hf.noHash, ?_⟩
    · rw [pendingAuths_posted_auth]
      exact congrArg (· ++ [true]) hauths
    · have houtbox : (s.setState .authenticating).outbox W = s.outbox W := by
        simp [outbox, setState, canSendWrites, hs, round, pendingPuts, keptItems]
      rw [outbox_posted_auth, houtbox]
      exact hf.moves

theorem same_opened {conn : FConnection ρ} (hr : s.realtime = some conn) : Same s (s.opened conn) where
  kept := rfl
  writing := rfl
  authenticating := Iff.rfl
  round := by simp [round, opened, hr, FConnection.puts]
  closed := rfl
  pendingPuts := rfl
  pendingAuths := rfl

theorem same_sendConnectStats (h : s.sendConnectStats = .ok s') (hopen : ∀ conn, s.realtime = some conn → conn.state = .connected) :
    Same s s' := by
  unfold sendConnectStats at h
  split at h
  · rw [sendAction_eq hopen] at h
    cases h
    refine same_posted _ _ rfl ?_
    rintro callback ⟨⟩
    exact ⟨rfl, rfl⟩
  · cases h
    exact ⟨rfl, rfl, Iff.rfl, rfl, rfl, rfl, rfl⟩

/-- **The hello of the server.** -/
theorem Follow.onHandshake (hf : Follow plain s W) (hi : s.Inv W) (h : s.onHandshake = .ok s') :
    Follow plain s' W := by
  unfold FPersistentConnection.onHandshake at h
  split at h
  · rename_i conn hr
    split at h
    · rename_i hconn
      have hstate : s.connectionState = .connecting := hi.link.connecting hr hconn
      have hopened : ∀ c, realtimeState c = some .connected → ((s.opened conn).setState c).Inv W :=
        fun c hc => hi.opened hr hc
      obtain ⟨s₁, h₁, hs₁, hi₁⟩ := exists_sendConnectStats (s := s.opened conn) hstate hopened
      have hsame : Same s s₁ := (same_opened hr).trans (same_sendConnectStats h₁ (by rintro conn' ⟨⟩; rfl))
      have hauths : s₁.pendingAuths = [] := by
        rw [hsame.pendingAuths, pendingAuths, hi.requests.quiet (by simp [connected, hstate])]
        rfl
      obtain ⟨s₂, h₂, hi₂⟩ := exists_restoreAuth hs₁ hi₁
      have hf₂ := follow_restoreAuth hs₁ hi₁ (hf.same hsame) hauths h₂
      rw [onReady, h₁] at h
      have hret : (s₁.restoreAuth >>= fun s => pure { s with firstConnection := false }) = .ok s' := h
      rw [h₂] at hret
      cases hret
      exact hf₂.same ⟨rfl, rfl, Iff.rfl, rfl, rfl, rfl, rfl⟩
    · cases h
      exact hf
  · cases h
    exact hf

/-- Transactions that were sent leave the queue; in a plain run there are none. -/
theorem keptItems_cancelSentTransactions (s : FPersistentConnection ρ) :
    s.cancelSentTransactions.keptItems.Sublist s.keptItems ∧
      ((∀ p ∈ s.outstandingPuts, p.2.hash = none) → s.cancelSentTransactions.keptItems = s.keptItems) := by
  refine ⟨List.filter_sublist.map _, fun h => ?_⟩
  have hfilter : (s.outstandingPuts.filter fun p => !isSentTransaction p) = s.outstandingPuts := by
    rw [List.filter_eq_self]
    intro p hp
    simp [isSentTransaction, h p hp]
  simp only [keptItems, cancelSentTransactions, hfilter]

/-- **The connection is lost.** -/
theorem follow_dropped (hr : s.realtime.isSome = true) (hmoves : Moves plain {} (s.outbox W))
    (hhash : plain = true → ∀ p ∈ s.outstandingPuts, p.2.hash = none) : Follow plain s.dropped W where
  auths := ⟨nofun, fun _ => nofun⟩
  noHash := fun hplain p hp => hhash hplain p (List.mem_filter.mp hp).1
  moves := by
    obtain ⟨conn, hconn⟩ := Option.isSome_iff_exists.mp hr
    obtain ⟨hsub, heq⟩ := keptItems_cancelSentTransactions s
    have hdrop : s.dropped.outbox W =
        Outbox.State.drop { s.outbox W with kept := s.cancelSentTransactions.keptItems } := by
      simp [outbox, Outbox.State.drop, dropped, round, pendingPuts, canSendWrites, hconn, keptItems]
    have hcancel : Moves plain {} { s.outbox W with kept := s.cancelSentTransactions.keptItems } := by
      cases plain with
      | false => exact hmoves.tail (.cancel rfl hsub)
      | true =>
        rw [heq (hhash rfl)]
        exact hmoves
    rw [hdrop]
    exact hcancel.tail .drop

theorem same_tryScheduleReconnect (hd : s.connectionState = .disconnected)
    (h : s.tryScheduleReconnect = .ok s') : Same s s' := by
  rw [tryScheduleReconnect_eq hd] at h
  cases h
  split <;> exact ⟨rfl, rfl, Iff.rfl, rfl, rfl, rfl, rfl⟩

/-- **`close`**: what the open connection carried becomes a finished round. -/
theorem Follow.close (hf : Follow plain s W) (h : s.close = .ok s') : Follow plain s' W := by
  unfold FPersistentConnection.close at h
  split at h
  · cases h
    exact hf
  · rename_i conn hr
    have hd := follow_dropped (by rw [hr]; rfl) hf.moves hf.noHash
    exact hd.same (same_tryScheduleReconnect rfl h)

/-! ## Responses -/

/-- The server answers requests in the order in which they were sent. -/
def InOrder (s : FPersistentConnection ρ) (e : Event ρ) : Prop :=
  match e with
  | .dataMessage (.response rn _) => ∀ k ∈ s.requestCBHash.map Prod.fst, rn ≤ k
  | _ => True

instance instDecidableInOrder (s : FPersistentConnection ρ) (e : Event ρ) : Decidable (s.InOrder e) :=
  match e with
  | .dataMessage (.response rn _) => inferInstanceAs (Decidable (∀ k ∈ s.requestCBHash.map Prod.fst, rn ≤ k))
  | .dataMessage (.error _) | .dataMessage .authRevoked | .dataMessage (.listenRevoked _)
  | .interrupt _ | .resume _ | .foreground | .retry | .fetched _ _ | .handshake | .lost | .kill
  | .listen _ | .unlisten _ | .put _ _ | .refreshAuthToken _ | .refreshAppCheckToken _ | .purge => isTrue trivial

/-- A response in order is the response to the first request that waits for one. -/
theorem requestCBHash_eq_cons (hi : s.Inv W) (hrn : ∀ k ∈ s.requestCBHash.map Prod.fst, rn ≤ k)
    (h : s.requestCBHash.lookup rn = some callback) :
    s.requestCBHash = (rn, callback) :: (s.answering rn).requestCBHash := by
  show s.requestCBHash = (rn, callback) :: s.requestCBHash.filter fun r => r.1 ≠ rn
  have hsorted := hi.requests.sorted
  cases hhash : s.requestCBHash with
  | nil =>
    rw [hhash] at h
    cases h
  | cons r rest =>
    rw [hhash] at h hrn hsorted
    rw [List.map_cons, List.pairwise_cons] at hsorted
    have hle : rn ≤ r.1 := hrn r.1 List.mem_cons_self
    have hrest : ∀ k ∈ rest, k.1 ≠ rn := by
      intro k hk
      have hlt := hsorted.1 k.1 (List.mem_map_of_mem hk)
      omega
    have hfirst : rn = r.1 := by
      by_contra hne
      rw [List.lookup_cons, beq_eq_false_iff_ne.mpr hne] at h
      obtain ⟨l₁, l₂, hl, -⟩ := List.lookup_eq_some_iff.mp h
      exact hrest (rn, callback) (by rw [hl]; simp) rfl
    have hcallback : r.2 = callback := by
      rw [List.lookup_cons, hfirst, beq_self_eq_true] at h
      exact Option.some.inj h
    have hfilter : rest.filter (fun k => k.1 ≠ rn) = rest := by
      rw [List.filter_eq_self]
      intro k hk
      simpa using hrest k hk
    rw [List.filter_cons_of_neg (by simp [hfirst]), hfilter, ← hcallback, hfirst]

theorem outbox_noted (hr : s.realtime.isSome = true) (rn : Nat) (W : List ρ) :
    (s.noted rn).outbox W = (s.outbox W).note rn := by
  obtain ⟨conn, hconn⟩ := Option.isSome_iff_exists.mp hr
  simp [outbox, Outbox.State.note, noted, round, hconn, FConnection.puts, keptItems, canSendWrites, pendingPuts]

theorem Follow.noted (hf : Follow plain s W) (rn : Nat) : Follow plain (s.noted rn) W := by
  cases hr : s.realtime with
  | none =>
    refine hf.same ⟨rfl, rfl, Iff.rfl, ?_, rfl, rfl, rfl⟩
    simp [round, FPersistentConnection.noted, hr]
  | some conn =>
    refine ⟨⟨hf.auths.authenticating, hf.auths.other⟩, hf.noHash, ?_⟩
    rw [outbox_noted (by rw [hr]; rfl)]
    exact hf.moves.tail (.note rn)

theorem pendingPuts_answering (hhash : s.requestCBHash = (rn, callback) :: (s.answering rn).requestCBHash) :
    s.pendingPuts = (callback.item.map fun item => (rn, item)).toList ++ (s.answering rn).pendingPuts := by
  unfold pendingPuts
  rw [hhash]
  cases hitem : callback.item <;> simp [hitem]

theorem pendingAuths_answering (hhash : s.requestCBHash = (rn, callback) :: (s.answering rn).requestCBHash) :
    s.pendingAuths = callback.restores.toList ++ (s.answering rn).pendingAuths := by
  unfold pendingAuths
  rw [hhash]
  cases hrestores : callback.restores <;> simp [hrestores]

/-- The queue in the state in which a callback runs, unless it is the callback of a write. -/
theorem outbox_answering (hhash : s.requestCBHash = (rn, callback) :: (s.answering rn).requestCBHash)
    (hitem : callback.item = none) : (s.answering rn).outbox W = (s.noted rn).outbox W := by
  have hpending := pendingPuts_answering hhash
  rw [hitem, Option.map_none, Option.toList_none, List.nil_append] at hpending
  have hnoted : (s.noted rn).pendingPuts = (s.answering rn).pendingPuts := hpending
  simp only [outbox, hnoted]
  rfl

/-- The state in which a callback runs that is neither of a write nor of an `auth`. -/
theorem Follow.answering (hf : Follow plain s W)
    (hhash : s.requestCBHash = (rn, callback) :: (s.answering rn).requestCBHash)
    (hitem : callback.item = none) (hrestores : callback.restores = none) :
    Follow plain (s.answering rn) W := by
  have hauths := pendingAuths_answering hhash
  rw [hrestores, Option.toList_none, List.nil_append] at hauths
  have hn := hf.noted rn
  refine ⟨⟨fun hs => ?_, fun hs => ?_⟩, hf.noHash, ?_⟩
  · rw [← hauths]
    exact hf.auths.authenticating hs
  · rw [← hauths]
    exact hf.auths.other hs
  · rw [outbox_answering hhash hitem]
    exact hn.moves

/-- The fields that the queue does not speak of. -/
theorem Follow.update (hf : Follow plain s W) (listens : List FOutstandingQuery) (listensCreated : Nat)
    (authToken : Option String) (forceTokenRefreshes : Bool) (interruptReasons : List String) :
    Follow plain { s with
      listens := listens
      listensCreated := listensCreated
      authToken := authToken
      forceTokenRefreshes := forceTokenRefreshes
      interruptReasons := interruptReasons } W :=
  hf.same ⟨rfl, rfl, Iff.rfl, rfl, rfl, rfl, rfl⟩

theorem Follow.dropToken (hf : Follow plain s W) (h : s.dropToken = .ok s') : Follow plain s' W :=
  (hf.update s.listens s.listensCreated none true s.interruptReasons).close h

/-- **The answer to an `auth`.** -/
theorem Follow.authAnswered (hf : Follow plain s W) {b : Bool} {data : Response}
    (hhash : s.requestCBHash = (rn, .auth b) :: (s.answering rn).requestCBHash)
    (hinv : (s.answering rn).Inv W) (hc : (s.answering rn).connected = true)
    (h : (s.answering rn).authAnswered b data = .ok s') : Follow plain s' W := by
  have hauths : s.pendingAuths = b :: (s.answering rn).pendingAuths := pendingAuths_answering hhash
  have hmoves : Moves plain {} ((s.answering rn).outbox W) := by
    rw [outbox_answering hhash rfl]
    exact (hf.noted rn).moves
  have hconnected : ((s.answering rn).setState .connected).Inv W := hinv.setState hc rfl
  unfold FPersistentConnection.authAnswered at h
  split at h
  · cases b with
    | true =>
      rw [if_pos rfl] at h
      -- only the first `auth` of a connection restores the state
      have hstate : s.connectionState = .authenticating := by
        by_contra hs
        have hb := hf.auths.other hs true (by rw [hauths]; exact List.mem_cons_self)
        cases hb
      obtain ⟨rest, hrest, hall⟩ := hf.auths.authenticating hstate
      rw [hauths, List.cons.injEq] at hrest
      refine follow_restoreState hconnected ?_ hmoves ?_ hf.noHash h
      · simp [canSendWrites, FPersistentConnection.answering, FPersistentConnection.noted, hstate]
      · rw [hrest.2]
        exact hall
    | false =>
      rw [if_neg (by simp)] at h
      cases h
      have hstate : s.connectionState ≠ .authenticating := by
        intro hs
        obtain ⟨rest, hrest, -⟩ := hf.auths.authenticating hs
        rw [hauths] at hrest
        cases hrest
      have hcon : s.connectionState = .connected := by
        have h' : s.connected = true := hc
        simp only [connected, Bool.or_eq_true, beq_iff_eq] at h'
        exact h'.resolve_left hstate
      have hsame : (s.answering rn).setState .connected = s.answering rn := by
        simp [setState, FPersistentConnection.answering, FPersistentConnection.noted, hcon]
      rw [hsame]
      refine ⟨⟨fun hs => absurd hs hstate, fun _ b hb => ?_⟩, hf.noHash, hmoves⟩
      exact hf.auths.other hstate b (by rw [hauths]; exact List.mem_cons_of_mem _ hb)
  · have hr : (s.answering rn).realtime.isSome = true := hinv.link.isSome_realtime hc
    have hd := follow_dropped hr hmoves hf.noHash
    unfold FPersistentConnection.dropToken FPersistentConnection.close at h
    split at h
    · rename_i hnone
      rw [show (s.answering rn).realtime = none from hnone] at hr
      cases hr
    · refine (hd.same ?_).same (same_tryScheduleReconnect rfl h)
      exact ⟨rfl, rfl, Iff.rfl, rfl, rfl, rfl, rfl⟩

/-- Two writes with one index are one write. -/
theorem items_inj {i : Nat} {r r' : ρ} (h : (i, r) ∈ items W) (h' : (i, r') ∈ items W) : r = r' := by
  have hget : ∀ {r : ρ}, (i, r) ∈ items W → W[i]? = some r := by
    intro r h
    obtain ⟨k, hk⟩ := List.mem_iff_getElem?.mp h
    unfold items at hk
    rw [List.getElem?_zip_eq_some] at hk
    obtain ⟨hi, hr⟩ := hk
    have hki : k = i := by
      rw [List.getElem?_range (List.getElem?_eq_some_iff.mp hr).1, Option.some.injEq] at hi
      exact hi
    rw [← hki]
    exact hr
  exact Option.some.inj ((hget h).symm.trans (hget h'))

theorem filter_ne_eq_append {i : Nat} {before after : List (Nat × FOutstandingPut ρ)} {put : FOutstandingPut ρ}
    (hsorted : ((before ++ (i, put) :: after).map Prod.fst).Pairwise (· < ·)) :
    (before ++ (i, put) :: after).filter (fun p => p.1 ≠ i) = before ++ after := by
  rw [List.map_append, List.map_cons, List.pairwise_append, List.pairwise_cons] at hsorted
  obtain ⟨-, ⟨hafter, -⟩, hbefore⟩ := hsorted
  have hb : before.filter (fun p => p.1 ≠ i) = before := by
    rw [List.filter_eq_self]
    intro p hp
    simpa using (hbefore p.1 (List.mem_map_of_mem hp) i List.mem_cons_self).ne
  have ha : after.filter (fun p => p.1 ≠ i) = after := by
    rw [List.filter_eq_self]
    intro p hp
    simpa using (hafter p.1 (List.mem_map_of_mem hp)).ne'
  rw [List.filter_append, List.filter_cons_of_neg (by simp), hb, ha]

/-- **The answer to a write.** -/
theorem Follow.putAnswered (hf : Follow plain s W) (hi : s.Inv W) {index : Nat} {request : ρ}
    (hhash : s.requestCBHash = (rn, .put index request) :: (s.answering rn).requestCBHash)
    (hc : s.connected = true) (data : Response) :
    Follow plain ((s.answering rn).putAnswered index data) W := by
  have hr := hi.link.isSome_realtime hc
  have hpending : s.pendingPuts = (rn, (index, request)) :: (s.answering rn).pendingPuts :=
    pendingPuts_answering hhash
  have hauths : s.pendingAuths = (s.answering rn).pendingAuths := pendingAuths_answering hhash
  have hn := hf.noted rn
  have hbase : (s.answering rn).AuthOrder :=
    ⟨fun hs => hauths ▸ hf.auths.authenticating hs, fun hs => hauths ▸ hf.auths.other hs⟩
  have hanswer : rn ∈ ((s.noted rn).outbox W).round.answers := by
    rw [outbox_noted hr]
    exact List.mem_append_right _ List.mem_cons_self
  unfold FPersistentConnection.putAnswered
  split
  · rename_i hsome
    obtain ⟨put, hput⟩ := Option.isSome_iff_exists.mp hsome
    obtain ⟨before, after, hkept, -⟩ := List.lookup_eq_some_iff.mp hput
    have hkept' : s.outstandingPuts = before ++ (index, put) :: after := hkept
    -- the write that is kept under the index is the one that was sent
    have hreq : put.request = request := by
      have hk : (index, put.request) ∈ items W := by
        refine hf.ordered.kept.subset ?_
        show (index, put.request) ∈ s.keptItems
        rw [keptItems, hkept']
        simp
      have hp : (index, request) ∈ items W :=
        hf.ordered.pending (rn, (index, request)) (by
          show _ ∈ s.pendingPuts
          rw [hpending]
          exact List.mem_cons_self)
      exact items_inj hk hp
    refine ⟨⟨hbase.authenticating, hbase.other⟩, fun hplain p hp => ?_, ?_⟩
    · exact hf.noHash hplain p (List.mem_filter.mp hp).1
    · have hfilter : (s.answering rn).outstandingPuts.filter (fun p => p.1 ≠ index) = before ++ after := by
        have hsorted := hi.puts.sorted
        rw [putIndices, hkept'] at hsorted
        rw [hkept]
        exact filter_ne_eq_append hsorted
      have hitems : ((s.noted rn).outbox W).kept =
          before.map (fun p => (p.1, p.2.request)) ++
            (index, request) :: after.map fun p => (p.1, p.2.request) := by
        show s.keptItems = _
        rw [keptItems, hkept', List.map_append, List.map_cons, hreq]
      have hmove : Move plain ((s.noted rn).outbox W) _ := .ack hpending hanswer hitems
      refine Eq.subst (motive := Moves plain {}) ?_ (hn.moves.tail hmove)
      simp only [outbox, keptItems, hfilter, List.map_append]
      rfl
  · rename_i hnone
    have hgone : (index, request) ∉ ((s.noted rn).outbox W).kept := by
      intro hmem
      have hindex : index ∈ s.putIndices := by
        obtain ⟨p, hp, heq⟩ := List.mem_map.mp hmem
        exact List.mem_map.mpr ⟨p, hp, congrArg Prod.fst heq⟩
      exact hnone (isSome_lookup_iff.mpr hindex)
    exact ⟨hbase, hf.noHash, hn.moves.tail (.ackGone hpending hgone)⟩

theorem same_listenAnswered {listenSpec : FOutstandingQuery} {response : Response}
    (h : s.listenAnswered listenSpec response = .ok s') : Same s s' := by
  obtain ⟨listens, hlistens⟩ := listenAnswered_eq (s := s) listenSpec response
  rw [hlistens, listenAcked] at h
  split at h
  · cases h
  · split at h <;> cases h <;> exact ⟨rfl, rfl, Iff.rfl, rfl, rfl, rfl, rfl⟩

/-- **A response in order.** -/
theorem Follow.onResponse (hf : Follow plain s W) (hi : s.Inv W) {data : Response}
    (hrn : ∀ k ∈ s.requestCBHash.map Prod.fst, rn ≤ k) (h : s.onResponse rn data = .ok s') :
    Follow plain s' W := by
  unfold FPersistentConnection.onResponse at h
  split at h
  · cases h
    exact hf.noted rn
  · rename_i callback hlookup
    have hc : s.connected = true := hi.connected_of_lookup hlookup
    have hhash := requestCBHash_eq_cons hi hrn hlookup
    have hrun : (s.answering rn).runCallback callback data = .ok s' := h
    cases callback with
    | auth b =>
      have hinv := hi.answering hlookup 0 rfl
      rw [Int.sub_zero] at hinv
      exact hf.authAnswered hhash hinv hc hrun
    | put index request =>
      cases hrun
      exact hf.putAnswered hi hhash hc data
    | listen listenSpec => exact (hf.answering hhash rfl rfl).same (same_listenAnswered hrun)
    | stats =>
      cases hrun
      exact hf.answering hhash rfl rfl
    | appCheck =>
      have hf' := hf.answering hhash rfl rfl
      have happ : (s.answering rn).appCheckAnswered data = .ok s' := hrun
      unfold appCheckAnswered at happ
      split at happ
      · cases happ
        exact hf'
      · exact hf'.dropToken happ

/-! ## Calls of the client -/

theorem outbox_keptPut (hcounter : s.putCounter = W.length) (request : ρ) (hash : Option String) :
    (s.keptPut request hash).outbox (W ++ [request]) = (s.outbox W).issue (W.length, request) := by
  simp [outbox, keptPut, Outbox.State.issue, keptItems, items_concat, hcounter, canSendWrites, round, pendingPuts]

theorem Follow.keptPut (hf : Follow plain s W) (hi : s.Inv W) {request : ρ} {hash : Option String}
    (hw : s.canSendWrites = false) (hplain : plain = true → hash = none) :
    Follow plain (s.keptPut request hash) (W ++ [request]) where
  auths := ⟨hf.auths.authenticating, hf.auths.other⟩
  noHash := fun h p hp => by
    rcases List.mem_append.mp hp with hp | hp
    · exact hf.noHash h p hp
    · rw [List.mem_singleton.mp hp]
      exact hplain h
  moves := by
    rw [outbox_keptPut hi.puts.counter]
    exact hf.moves.tail (.issue hw (notMem_items W request))

/-- **A new write.** -/
theorem Follow.putInternal (hf : Follow plain s W) (hi : s.Inv W) {request : ρ} {hash : Option String}
    (hplain : plain = true → hash = none) (h : s.putInternal request hash = .ok s') :
    Follow plain s' (W ++ [request]) := by
  unfold FPersistentConnection.putInternal at h
  split at h
  · rename_i hc
    have hi' := hi.keptPut request hash
    have hput : (s.keptPut request hash).outstandingPuts.lookup s.putCounter = some ⟨request, hash, false⟩ :=
      lookup_of_mem hi'.puts.sorted (List.mem_append_right _ List.mem_cons_self)
    rw [hi'.sendPut_eq hc hput, Except.ok.injEq] at h
    have hr : (s.keptPut request hash).realtime.isSome = true :=
      hi.link.isSome_realtime (connected_of_canSendWrites hc)
    rw [← h]
    refine ⟨⟨fun hs => ?_, fun hs => ?_⟩, fun hp p hmem => ?_, ?_⟩
    · rw [pendingAuths_putPosted]
      exact hf.auths.authenticating hs
    · rw [pendingAuths_putPosted]
      exact hf.auths.other hs
    · obtain ⟨q, hq, rfl⟩ := List.mem_map.mp hmem
      have hhash : q.2.hash = none := by
        rcases List.mem_append.mp hq with hq | hq
        · exact hf.noHash hp q hq
        · rw [List.mem_singleton.mp hq]
          exact hplain hp
      split <;> exact hhash
    · rw [outbox_putPosted hr, outbox_keptPut hi.puts.counter, hi.puts.counter]
      exact hf.moves.tail (.issueSend _ hc (notMem_items W request))
  · rename_i hc
    cases h
    exact hf.keptPut hi (by simpa using hc) hplain

theorem Link.not_connected (hl : s.Link) (hr : s.realtime = none) :
    s.canSendWrites = false ∧ s.connectionState ≠ .authenticating := by
  have h := hl.realtime
  rw [hr] at h
  constructor
  · rw [← Bool.not_eq_true, canSendWrites_iff]
    intro hs
    simp [hs, realtimeState] at h
  · intro hs
    simp [hs, realtimeState] at h

theorem Follow.interruptForReason (hf : Follow plain s W) (hi : s.Inv W) {reason : String}
    (h : s.interruptForReason reason = .ok s') : Follow plain s' W := by
  unfold FPersistentConnection.interruptForReason at h
  split at h
  · have hf' := hf.update s.listens s.listensCreated s.authToken s.forceTokenRefreshes
      (s.interruptReasons.insert reason)
    have hi' := hi.update s.listens s.listensCreated s.authToken s.forceTokenRefreshes
      (s.interruptReasons.insert reason) s.firstConnection
    obtain ⟨s₁, h₁, -, hr₁⟩ := hi'.close
    rw [h₁] at h
    cases h
    have hf₁ := hf'.close h₁
    rw [← hr₁]
    exact hf₁
  · rename_i hr
    cases h
    obtain ⟨hw, hauth⟩ := hi.link.not_connected hr
    exact hf.same ⟨rfl, by rw [hw]; rfl, by simp [hauth], rfl, rfl, rfl, rfl⟩

theorem same_enteringForeground (h : s.enteringForeground = .ok s') : Same s s' := by
  unfold enteringForeground at h
  split at h
  · rename_i hd
    exact same_tryScheduleReconnect hd h
  · cases h
    exact ⟨rfl, rfl, Iff.rfl, rfl, rfl, rfl, rfl⟩

theorem same_retry (h : s.retry = .ok s') : Same s s' := by
  unfold retry at h
  split at h
  · cases h
    exact ⟨rfl, rfl, Iff.rfl, rfl, rfl, rfl, rfl⟩
  · split at h
    · rename_i hd
      cases h
      exact ⟨rfl, by simp [canSendWrites, hd], by simp [hd], rfl, rfl, rfl, rfl⟩
    · cases h

theorem Follow.contextFetched (hf : Follow plain s W) (hi : s.Inv W) {attempt : Nat} {result : FetchResult}
    (h : s.contextFetched attempt result = .ok s') : Follow plain s' W := by
  have hdone : Follow plain (s.fetchDone attempt) W := hf.same ⟨rfl, rfl, Iff.rfl, rfl, rfl, rfl, rfl⟩
  unfold FPersistentConnection.contextFetched at h
  split at h
  · rename_i hmem
    split at h
    · rename_i hcurrent
      have hr : s.realtime = none := hi.realtime_of_fetch hmem hcurrent
      obtain ⟨hw, hauth⟩ := hi.link.not_connected hr
      cases result with
      | error =>
        have hd : Follow plain ((s.fetchDone attempt).setState .disconnected) W := by
          exact hf.same ⟨rfl, by rw [hw]; rfl, by simp [setState, hauth], rfl, rfl, rfl, rfl⟩
        exact hd.same (same_tryScheduleReconnect rfl h)
      | context authToken =>
        simp only at h
        split at h
        · rename_i hstate
          rw [openNetworkConnectionWithContext,
            if_pos (show (s.fetchDone attempt).connectionState = .gettingToken from hstate)] at h
          cases h
          refine hf.same ⟨rfl, by simp [canSendWrites, hstate], by simp [hstate], ?_, rfl, rfl, rfl⟩
          simp [round, hr, FConnection.puts]
        · split at h
          · cases h
            exact hdone
          · cases h
    · cases h
      exact hdone
  · cases h
    exact hf

/-- No transaction is made and nothing is purged. -/
def Event.isPlain : Event ρ → Bool
  | .put _ hash => hash.isNone
  | .purge => false
  | _ => true

/-- **The moves of one event.** -/
theorem Follow.step (hf : Follow plain s W) (hi : s.Inv W) {e : Event ρ} (horder : s.InOrder e)
    (hplain : plain = true → e.isPlain = true) (h : s.step e = .ok s') :
    Follow plain s' (W ++ e.putRequest.toList) := by
  cases e
  case put request hash => exact hf.putInternal hi (fun hp => Option.isNone_iff_eq_none.mp (hplain hp)) h
  all_goals simp only [Event.putRequest, Option.toList_none, List.append_nil]
  case interrupt reason => exact hf.interruptForReason hi h
  case resume reason =>
    have hf' := hf.update s.listens s.listensCreated s.authToken s.forceTokenRefreshes
      (s.interruptReasons.filter fun r => r ≠ reason)
    exact hf'.same (same_enteringForeground h)
  case foreground => exact hf.same (same_enteringForeground h)
  case retry => exact hf.same (same_retry h)
  case fetched attempt result => exact hf.contextFetched hi h
  case handshake => exact hf.onHandshake hi h
  case lost => exact hf.close h
  case kill =>
    obtain ⟨s₁, h₁, -⟩ := hi.interruptForReason kFInterruptReasonServerKill
    have hclose : s₁.close = .ok s' := by
      have hkill : s.onKill = .ok s' := h
      rw [onKill, h₁] at hkill
      exact hkill
    exact (hf.interruptForReason hi h₁).close hclose
  case dataMessage message =>
    cases message with
    | response rn data => exact hf.onResponse hi horder h
    | error reason => cases h
    | authRevoked => exact hf.dropToken h
    | listenRevoked path =>
      cases h
      exact hf.update _ _ _ _ _
  case listen query =>
    obtain ⟨honce, checked⟩ := accepted_of_step h
    have hi' : (s.keptListen ⟨query, s.listensCreated, checked⟩).Inv W := hi.update _ _ _ _ _ _
    have hf' : Follow plain (s.keptListen ⟨query, s.listensCreated, checked⟩) W := hf.update _ _ _ _ _
    rw [FPersistentConnection.step, listen_eq honce checked] at h
    split at h
    · rename_i hc
      rw [hi'.sendListen_eq hc] at h
      cases h
      exact hf'.same (same_listenPosted _)
    · cases h
      exact hf'
  case unlisten query =>
    have checked : query.isDefaultOrPartial = true := accepted_of_step h
    have hi' : { s with listens := s.listens.filter fun listenSpec => listenSpec.query ≠ query }.Inv W :=
      hi.update _ _ _ _ _ _
    have hf' : Follow plain { s with listens := s.listens.filter fun listenSpec => listenSpec.query ≠ query } W :=
      hf.update _ _ _ _ _
    rw [FPersistentConnection.step, unlisten_eq checked] at h
    split at h
    · rename_i hc
      rw [hi'.sendAction_eq hc.2] at h
      cases h
      exact hf'.same (same_posted _ _ rfl (by simp))
    · cases h
      exact hf'
  case refreshAuthToken token =>
    have hi' : { s with authToken := token }.Inv W := hi.update _ _ _ _ _ _
    have hf' : Follow plain { s with authToken := token } W := hf.update _ _ _ _ _
    have hrefresh : s.refreshAuthToken token = .ok s' := h
    unfold refreshAuthToken at hrefresh
    split at hrefresh
    · rename_i hc
      cases token with
      | some token =>
        simp only [hi'.sendAuth_eq hc rfl] at hrefresh
        cases hrefresh
        exact hf'.postedAuth token
      | none =>
        simp only [hi'.sendAction_eq hc] at hrefresh
        cases hrefresh
        exact hf'.same (same_posted _ _ rfl (by simp))
    · cases hrefresh
      exact hf'
  case refreshAppCheckToken token =>
    rw [FPersistentConnection.step, refreshAppCheckToken] at h
    split at h
    · rename_i hc
      rw [hi.sendAction_eq hc.1] at h
      cases h
      refine hf.same (same_posted _ _ rfl ?_)
      rintro callback ⟨⟩
      exact ⟨rfl, rfl⟩
    · cases h
      exact hf
  case purge =>
    cases h
    refine ⟨⟨hf.auths.authenticating, hf.auths.other⟩, fun _ p hp => absurd hp List.not_mem_nil, ?_⟩
    cases plain with
    | true => cases hplain rfl
    | false => exact hf.moves.tail (.cancel rfl (List.nil_sublist _))

/-! ## Runs -/

/-- Along a run in order the state follows the moves of the queue. -/
theorem run_follow {C : FPersistentConnection ρ → Event ρ → Prop}
    (hC : ∀ s e, C s e → s.InOrder e ∧ (plain = true → e.isPlain = true)) :
    ∀ (events : List (Event ρ)) {s s' : FPersistentConnection ρ} {W : List ρ}, s.Inv W →
      Follow plain s W → Meets next C s events → run next s events = some s' →
        s'.Inv (W ++ putRequests events) ∧ Follow plain s' (W ++ putRequests events)
  | [], s, s', W, hi, hf, _, hr => by
    cases hr
    rw [putRequests, List.filterMap_nil, List.append_nil]
    exact ⟨hi, hf⟩
  | e :: events, s, s', W, hi, hf, hm, hr => by
    obtain ⟨s₁, h₁, hrest⟩ := run_cons_eq_some.mp hr
    have hs₁ := next_eq_some.mp h₁
    obtain ⟨horder, hplain⟩ := hC s e hm.1
    obtain ⟨s₂, hs₂, hi₂⟩ := hi.exists_step (accepted_of_step hs₁)
    obtain rfl : s₁ = s₂ := Except.ok.inj (hs₁.symm.trans hs₂)
    have happend : W ++ putRequests (e :: events) = W ++ e.putRequest.toList ++ putRequests events := by
      rw [List.append_assoc, putRequests, putRequests]
      cases he : e.putRequest <;> simp [he]
    rw [happend]
    exact run_follow hC events hi₂ (hf.step hi horder hplain hs₁) (hm.2 s₁ h₁) hrest

end FPersistentConnection

/-- The writes sent on a connection. -/
def FConnection.writes (conn : FConnection ρ) : List (Nat × ρ) := conn.out.filterMap fun m => m.2.item

theorem FConnection.items_puts (conn : FConnection ρ) : conn.puts.items = conn.writes := by
  rw [Round.items, FConnection.puts, FConnection.writes, List.map_filterMap]
  refine List.filterMap_congr fun m _ => ?_
  cases m.2.item <;> rfl

namespace FPersistentConnection

/-- All connections so far. -/
def connections (s : FPersistentConnection ρ) : List (FConnection ρ) := s.closed ++ s.realtime.toList

/-- The writes that arrived on a connection when the first `n` of its requests did. -/
def arrived (n : Nat) (conn : FConnection ρ) : List (Nat × ρ) := (conn.out.take n).filterMap fun m => m.2.item

/-- The first `n` requests of the connection reached the server; it answers no request that did not. -/
def ReachedServer (n : Nat) (conn : FConnection ρ) : Prop := ∀ m ∈ conn.out.drop n, m.1 ∉ conn.answers

/-- What arrived of the requests is a first part of the writes. -/
theorem reached_puts {n : Nat} {conn : FConnection ρ} (h : ReachedServer n conn) :
    ∃ k, Reached k conn.puts ∧ conn.puts.delivered k = arrived n conn := by
  let numbered : Nat × Request ρ → Option (Nat × (Nat × ρ)) := fun m => m.2.item.map fun item => (m.1, item)
  have hsplit : conn.puts.out = (conn.out.take n).filterMap numbered ++ (conn.out.drop n).filterMap numbered := by
    rw [← List.filterMap_append, List.take_append_drop]
    rfl
  refine ⟨((conn.out.take n).filterMap numbered).length, ?_, ?_⟩
  · intro m hm
    rw [hsplit, List.drop_left] at hm
    obtain ⟨m', hm', heq⟩ := List.mem_filterMap.mp hm
    obtain ⟨item, -, rfl⟩ := Option.map_eq_some_iff.mp heq
    exact h m' hm'
  · rw [Round.delivered, hsplit, List.take_left, List.map_filterMap, arrived]
    refine List.filterMap_congr fun m _ => ?_
    simp only [numbered]
    cases m.2.item <;> rfl

/-- **Each connection carries the writes in their order, and none twice.**  In every run in which the
server answers in order, what a connection carries is a subsequence of the writes that were made;
while writes can be sent, every write that is not yet answered is on the open connection. -/
theorem writes_in_order {events : List (Event ρ)} {s : FPersistentConnection ρ}
    (hm : Meets next InOrder (initial ρ) events) (hr : run next (initial ρ) events = some s) :
    (∀ conn ∈ s.connections, conn.writes.Sublist (items (putRequests events))) ∧
      (s.canSendWrites = true → ∃ conn, s.realtime = some conn ∧
        ∀ p ∈ s.outstandingPuts, (p.1, p.2.request) ∈ conn.writes) := by
  have hC : ∀ (s : FPersistentConnection ρ) (e : Event ρ), s.InOrder e →
      s.InOrder e ∧ (false = true → e.isPlain = true) := fun _ _ h => ⟨h, fun hf => by cases hf⟩
  obtain ⟨hi, hf⟩ := run_follow hC events inv_initial follow_initial hm hr
  rw [List.nil_append] at hi hf
  have ho := hf.ordered
  constructor
  · intro conn hconn
    rw [← conn.items_puts]
    rcases List.mem_append.mp hconn with hconn | hconn
    · exact ho.rounds conn.puts (List.mem_map_of_mem hconn)
    · have hopen : s.realtime = some conn := by simpa using hconn
      have hout := ho.out
      rw [outbox, round, hopen] at hout
      exact hout
  · intro hw
    obtain ⟨conn, hconn, -⟩ := hi.link.exists_realtime (connected_of_canSendWrites hw)
    refine ⟨conn, hconn, fun p hp => ?_⟩
    have hsent := ho.sent hw (p.1, p.2.request) (List.mem_map_of_mem hp)
    rw [outbox, round, hconn] at hsent
    rw [← conn.items_puts]
    exact hsent

/-- Three writes over two connections: the first is answered on the first connection, the others are
sent again on the second. -/
theorem writes_in_order_over_reconnect :
    let events : List (Event String) := opening ++
      [.put "a" none, .put "b" none, .dataMessage (.response 0 ⟨"ok", none⟩), .dataMessage (.response 1 ⟨"ok", none⟩), .lost,
        .put "c" none, .retry, .fetched 2 (.context none), .handshake]
    ∃ s, run next (initial String) events = some s ∧
      s.connections.map FConnection.writes = [[(0, "a"), (1, "b")], [(1, "b"), (2, "c")]] ∧
      (∀ conn ∈ s.connections, conn.writes.Sublist (items (putRequests events))) := by
  intro events
  have hm : Meets next InOrder (initial String) events := by decide
  exact ⟨_, rfl, rfl, (@writes_in_order String events _ hm rfl).1⟩

/-! ## What the server holds -/

theorem exists_reached {ns : List Nat} {conns : List (FConnection ρ)}
    (h : List.Forall₂ ReachedServer ns conns) :
    ∃ ks, List.Forall₂ Reached ks (conns.map FConnection.puts) ∧
      List.zipWith Round.delivered ks (conns.map FConnection.puts) = List.zipWith arrived ns conns := by
  induction h with
  | nil => exact ⟨[], .nil, rfl⟩
  | cons hn _ ih =>
    obtain ⟨ks, hks, heq⟩ := ih
    obtain ⟨k, hk, hdel⟩ := reached_puts hn
    refine ⟨k :: ks, .cons hk hks, ?_⟩
    rw [List.map_cons, List.zipWith_cons_cons, List.zipWith_cons_cons, heq, hdel]

/-- When no write is kept, the connections make up a chain of rounds that ends with the last write. -/
theorem Follow.chain (hf : Follow true s W) (hi : s.Inv W) (hdone : s.outstandingPuts = []) :
    Chain (items W) 0 (s.connections.map FConnection.puts) (items W).length := by
  obtain ⟨start, acked, hfifo⟩ := fifo_empty.moves ordered_empty hf.moves
  have hacked : acked = (items W).length := by
    have hkept : s.keptItems = (items W).drop acked := hfifo.kept
    rw [keptItems, hdone, List.map_nil] at hkept
    have hle : acked ≤ (items W).length := hfifo.acked_le
    exact Nat.le_antisymm hle (List.drop_eq_nil_iff.mp hkept.symm)
  have hchain : Chain (items W) 0 (s.closed.map FConnection.puts) start := hfifo.chain
  rw [connections, List.map_append]
  cases hr : s.realtime with
  | none =>
    have hstart : acked = start := hfifo.acked_eq (hi.link.not_connected hr).1
    rw [Option.toList_none, List.map_nil, List.append_nil, ← hacked, hstart]
    exact hchain
  | some conn =>
    have hcarried := hfifo.carried
    have hround : (s.outbox W).round = conn.puts := by simp [outbox, round, hr]
    rw [hround] at hcarried
    rw [← hacked]
    exact hchain.concat hcarried

/-- The writes that arrived, on all connections, have the effect of each write once. -/
theorem Follow.applyAll_arrived {Loc Val : Type} (effect : Nat × ρ → Loc → Option Val) (hf : Follow true s W)
    (hi : s.Inv W) (hdone : s.outstandingPuts = []) {ns : List Nat}
    (hns : List.Forall₂ ReachedServer ns s.connections) (store : Loc → Val) :
    applyAll (((List.zipWith arrived ns s.connections).flatten).map effect) store =
      applyAll ((items W).map effect) store := by
  obtain ⟨ks, hks, heq⟩ := exists_reached hns
  have h := applyAll_delivered effect (hf.chain hi hdone) hks store
  rw [← heq, h, List.drop_zero]

end FPersistentConnection

/-! ## Writes of the database -/

/-- The requests of the application: `putData` of a `setValue`, `mergeData` of an `updateChildValues`. -/
inductive PutRequest where
  | putData (path : List String) (data : AnyValue)
  | mergeData (path : List String) (data : Dict)

/-- The nodes that a request writes, at their paths. -/
def PutRequest.writes : PutRequest → List (List String × FNode)
  | .putData path data => [(path, nodeFrom data)]
  | .mergeData path data => data.map fun e => (path ++ pathPieces e.1, nodeFrom e.2)

/-- The database after a request was carried out. -/
def PutRequest.apply (r : PutRequest) (db : FNode) : FNode :=
  r.writes.foldl (fun db w => FNode.updateChild w.1 db w.2) db

/-- The server has got a request with the index of its write.  It decides by the index whether the write is
granted, and a write that it refuses changes nothing. -/
def serve (granted : Nat → Bool) (db : FNode) (item : Nat × PutRequest) : FNode :=
  if granted item.1 then item.2.apply db else db

/-- What a request does to the value at each path. -/
def PutRequest.effect (r : PutRequest) : List String → Option (Option Leaf) :=
  together (r.writes.map FNode.documents.write)

theorem PutRequest.leafAt_apply (r : PutRequest) (db : FNode) :
    (r.apply db).leafAt = Overwrite.apply r.effect db.leafAt :=
  (FNode.documents.read_foldl_update r.writes db).trans (apply_together _ _).symm

/-- The effect of a request, if it is granted. -/
def serveEffect (granted : Nat → Bool) (item : Nat × PutRequest) : List String → Option (Option Leaf) :=
  if granted item.1 then item.2.effect else fun _ => none

theorem leafAt_serve (granted : Nat → Bool) (db : FNode) (item : Nat × PutRequest) :
    (serve granted db item).leafAt = Overwrite.apply (serveEffect granted item) db.leafAt := by
  unfold serve serveEffect
  split
  · exact item.2.leafAt_apply db
  · rfl

theorem leafAt_foldl_serve (granted : Nat → Bool) (arrivals : List (Nat × PutRequest)) (db : FNode) :
    (arrivals.foldl (serve granted) db).leafAt = applyAll (arrivals.map (serveEffect granted)) db.leafAt := by
  induction arrivals generalizing db with
  | nil => rfl
  | cons item arrivals ih =>
    rw [List.foldl_cons, ih, leafAt_serve]
    rfl

namespace FPersistentConnection

/-- **Lost connections leave no trace.**  In every run of puts and merges in which the server answers in
order and no transaction is made and nothing purged, when no write is left: whatever first part of each
connection reached the server, at least up to what it answered, the database holds at every path what it
would hold if each write had been served once, in the order in which the writes were made.  The server
grants or refuses a write alike each time that it arrives. -/
theorem delivered_once {events : List (Event PutRequest)} {s : FPersistentConnection PutRequest}
    (hm : Meets next (fun s e => s.InOrder e ∧ e.isPlain = true) (initial PutRequest) events)
    (hr : run next (initial PutRequest) events = some s) (hdone : s.outstandingPuts = []) {ns : List Nat}
    (hns : List.Forall₂ ReachedServer ns s.connections) (granted : Nat → Bool) (db : FNode) (q : List String) :
    (((List.zipWith arrived ns s.connections).flatten).foldl (serve granted) db).leafAt q =
      ((items (putRequests events)).foldl (serve granted) db).leafAt q := by
  obtain ⟨hi, hf⟩ := run_follow (fun _ _ h => ⟨h.1, fun _ => h.2⟩) events inv_initial follow_initial hm hr
  rw [List.nil_append] at hi hf
  rw [leafAt_foldl_serve, leafAt_foldl_serve]
  exact congrFun (hf.applyAll_arrived (serveEffect granted) hi hdone hns db.leafAt) q

/-- A user comes online, sends a message and leaves again. -/
def presenceRequests : List PutRequest :=
  [.mergeData ["userState", "1"] [("onlineState", .string "1")],
    .putData ["Message", "2_1", "-M1"] (.string "hello"),
    .mergeData ["userState", "1"] [("onlineState", .string "0")]]

/-- The connection is lost before the last two writes are answered, and they are sent once more. -/
def presenceEvents : List (Event PutRequest) :=
  opening ++ presenceRequests.map (.put · none) ++
    [.dataMessage (.response 0 ⟨"ok", none⟩), .dataMessage (.response 1 ⟨"ok", none⟩), .lost, .retry,
      .fetched 2 (.context none), .handshake, .dataMessage (.response 4 ⟨"permission_denied", none⟩),
      .dataMessage (.response 5 ⟨"ok", none⟩)]

/-- All of it reached the server, which refuses the message. -/
theorem delivered_once_over_reconnect :
    let writes := items presenceRequests
    let granted : Nat → Bool := fun index => index != 1
    ∃ s, run next (initial PutRequest) presenceEvents = some s ∧
      (List.zipWith arrived [4, 2] s.connections).flatten = writes ++ writes.drop 1 ∧
      ∀ db : FNode, ∀ q, ((writes ++ writes.drop 1).foldl (serve granted) db).leafAt q =
        (writes.foldl (serve granted) db).leafAt q := by
  have hm : Meets next (fun s e => s.InOrder e ∧ e.isPlain = true) (initial PutRequest) presenceEvents := by
    decide +kernel
  refine ⟨_, rfl, rfl, fun db q => ?_⟩
  refine @delivered_once presenceEvents _ hm rfl rfl [4, 2] (.cons ?_ (.cons ?_ .nil)) _ db q
  all_goals
    unfold ReachedServer
    decide

end FPersistentConnection

end ChatApplication
