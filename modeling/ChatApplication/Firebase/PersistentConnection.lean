import ChatApplication.Firebase.Database
import ChatApplication.Lib.Runs
import Mathlib.Data.List.Sort
import Mathlib.Data.List.Perm.Basic

/-!
# The client's connection to the database (vendored `FPersistentConnection.m`, `FConnection.m`)

The client keeps one connection to the server.  It is opened, authenticated, lost and opened again;
the listens and the writes that have not been answered are kept and sent again on each new
connection.  The server and the network are the events of a run: a response may carry any request
number and any status, and a connection may be lost at any time.

## Protocol

* `sendAction` numbers a request, writes it to the open connection and keeps its callback under the
  number; `onDataMessage` finds the callback of a response and runs it.
* `putInternal` keeps a write under an index of its own and sends it when the connection is
  authenticated; `restoreState` sends all listens and then all kept writes in the order of their
  indices.
* The callback of a write is held back in `putsToAck` while a listen is unanswered; `ackPuts` runs
  the held ones.
* `onDisconnect` drops the callbacks of all requests and schedules a new attempt.

The assertions of these functions, the exception of a send on a connection that is not open and the
exception for an error that the server sends are the `ConnectionFault`s.  Gets, with the assertions of
`sendGet`, and the actions that the server is asked to take at a disconnect are left out: the
application makes none.  So are pushes of data, which go on to the delegate, and the delays of
`FIRRetryHelper`: a scheduled attempt may run at any time.  A callback of the application that calls the
client again does so in an event of its own.
-/

namespace ChatApplication

/-! ## The parts of a connection -/

/-- `ConnectionState`. -/
inductive ConnectionState where
  | disconnected
  | gettingToken
  | connecting
  | authenticating
  | connected
  deriving DecidableEq, Repr

/-- The `state` of an `FConnection` that has not been closed. -/
inductive RealtimeState where
  | connecting
  | connected
  deriving DecidableEq, Repr

/-- What a query is ordered by. -/
inductive FIndex where
  | priority
  | key
  | value
  | path (path : List String)
  deriving DecidableEq, Repr

/-- `FQueryParams`, with what its `isEqual:` compares.  The value at which a query starts or ends is a leaf
or the empty node. -/
structure FQueryParams where
  limitSet : Bool := false
  limit : Int := 0
  index : FIndex := .priority
  indexStartKey : Option String := none
  indexStartValue : Option (Option Leaf) := none
  indexEndKey : Option String := none
  indexEndValue : Option (Option Leaf) := none
  isViewFromLeft : Bool := false
  deriving DecidableEq, Repr

namespace FQueryParams

def hasStart (params : FQueryParams) : Bool := params.indexStartValue.isSome

def hasEnd (params : FQueryParams) : Bool := params.indexEndValue.isSome

def loadsAllData (params : FQueryParams) : Bool := !(params.hasStart || params.hasEnd || params.limitSet)

def isDefault (params : FQueryParams) : Bool := params.loadsAllData && params.index == .priority

end FQueryParams

/-- `FQuerySpec`. -/
structure FQuerySpec where
  path : List String
  params : FQueryParams
  deriving DecidableEq, Repr

/-- The assertion of `listen` and `removeListen`: a query of all the data is the default one. -/
def FQuerySpec.isDefaultOrPartial (query : FQuerySpec) : Bool :=
  query.params.isDefault || !query.params.loadsAllData

/-- `FOutstandingQuery`; a listen that is added again is a new object, with a new `objectId`.  `listen`
makes one after it has checked the query. -/
structure FOutstandingQuery where
  query : FQuerySpec
  objectId : Nat
  checked : query.isDefaultOrPartial = true
  deriving DecidableEq, Repr

/-- `FOutstandingPut`: the request (action, path and data), the hash of a transaction, and whether it
was ever sent. -/
structure FOutstandingPut (ρ : Type) where
  request : ρ
  hash : Option String
  sent : Bool
  deriving DecidableEq, Repr

/-- The callbacks of requests, each with what the block captures. -/
inductive RequestCallback (ρ : Type) where
  | auth (restoreStateAfterComplete : Bool)
  | put (index : Nat) (request : ρ)
  | listen (listenSpec : FOutstandingQuery)
  | stats
  | appCheck
  deriving DecidableEq, Repr

/-- The requests.  The index of a write is not part of the message; it says which write is sent. -/
inductive Request (ρ : Type) where
  | auth (token : String)
  | unauth
  | put (index : Nat) (request : ρ) (hash : Option String)
  | listen (query : FQuerySpec)
  | unlisten (query : FQuerySpec)
  | stats
  | appCheck (token : String)
  deriving DecidableEq, Repr

/-- The answer to a request. -/
structure Response where
  status : String
  data : Option String
  deriving DecidableEq, Repr

/-- What a message of the server carries: the answer to a request, an error, or a push that changes the
connection. -/
inductive DataMessage where
  | response (rn : Nat) (data : Response)
  | error (reason : String)
  | authRevoked
  | listenRevoked (path : List String)
  deriving DecidableEq, Repr

/-- `FConnection`: its state, the numbered requests written to it, and the request numbers of the
responses that came in while it was the open connection. -/
structure FConnection (ρ : Type) where
  state : RealtimeState
  out : List (Nat × Request ρ)
  answers : List Nat
  deriving DecidableEq, Repr

/-- A call of a write's `onCompleteBlock`. -/
structure PutCompletion where
  index : Nat
  status : String
  errorReason : Option String
  deriving DecidableEq, Repr

/-- The assertions that can fail and the exceptions that can be thrown. -/
inductive ConnectionFault where
  | notInDisconnectedState
  | openingInWrongState
  | expectedDisconnected
  | restoringAuthInWrongState
  | restoringStateInWrongState
  | authWhileNotConnected
  | authWithoutCredential
  | sendPutWhileNotAbleToSendWrites
  | sendPutWithoutPut
  | unackedListensCountNegative
  | listenCalledTwice
  | listenForNonDefaultCompleteQuery
  | removeListenForNonDefaultCompleteQuery
  | invalidConnectionState
  | serverError (reason : String)
  deriving DecidableEq, Repr

/-- `FPersistentConnection`.  `closed` are the connections that have been closed, `fetches` the
attempts whose token has been asked for and has not come, and `completed` the calls of completion
blocks so far. -/
structure FPersistentConnection (ρ : Type) where
  connectionState : ConnectionState := .disconnected
  realtime : Option (FConnection ρ) := none
  closed : List (FConnection ρ) := []
  listens : List FOutstandingQuery := []
  listensCreated : Nat := 0
  outstandingPuts : List (Nat × FOutstandingPut ρ) := []
  putCounter : Nat := 0
  requestNumber : Nat := 0
  requestCBHash : List (Nat × RequestCallback ρ) := []
  unackedListensCount : Int := 0
  putsToAck : List PutCompletion := []
  authToken : Option String := none
  forceTokenRefreshes : Bool := false
  interruptReasons : List String := []
  scheduledRetry : Option Bool := none
  currentFetchTokenAttempt : Nat := 0
  fetches : List (Nat × Bool) := []
  firstConnection : Bool := true
  completed : List PutCompletion := []

def kFWPResponseForActionStatusOk : String := "ok"
def kFErrorWriteCanceled : String := "write_canceled"
def kFTransactionDisconnect : String := "disconnect"
def kFInterruptReasonServerKill : String := "server_kill"
def kFInterruptReasonWaitingForOpen : String := "waiting_for_open"

namespace FPersistentConnection

variable {ρ : Type}

/-- The indices of the writes that are kept. -/
def putIndices (s : FPersistentConnection ρ) : List Nat := s.outstandingPuts.map Prod.fst

def connected (s : FPersistentConnection ρ) : Bool :=
  s.connectionState == .authenticating || s.connectionState == .connected

def canSendWrites (s : FPersistentConnection ρ) : Bool := s.connectionState == .connected

def shouldReconnect (s : FPersistentConnection ρ) : Bool := s.interruptReasons.isEmpty

/-- `connectionState = c`. -/
def setState (c : ConnectionState) (s : FPersistentConnection ρ) : FPersistentConnection ρ :=
  { s with connectionState := c }

/-! ## Sending -/

/-- The state after a request went out; a request to a connection that is `nil` goes nowhere. -/
def posted (message : Request ρ) (onMessage : Option (RequestCallback ρ)) (s : FPersistentConnection ρ) :
    FPersistentConnection ρ :=
  { s with
    requestNumber := s.requestNumber + 1
    realtime := s.realtime.map fun conn => { conn with out := conn.out ++ [(s.requestNumber, message)] }
    requestCBHash := s.requestCBHash ++ onMessage.toList.map fun callback => (s.requestNumber, callback) }

/-- `sendAction`, with `FConnection sendRequest:`. -/
def sendAction (message : Request ρ) (onMessage : Option (RequestCallback ρ))
    (s : FPersistentConnection ρ) : Except ConnectionFault (FPersistentConnection ρ) :=
  if s.realtime.any (fun conn => conn.state == .connecting) then .error .invalidConnectionState
  else .ok (s.posted message onMessage)

/-- `put.sent = YES`. -/
def markSent (index : Nat) (puts : List (Nat × FOutstandingPut ρ)) : List (Nat × FOutstandingPut ρ) :=
  puts.map fun p => if p.1 = index then (p.1, { p.2 with sent := true }) else p

/-- `sendPut`. -/
def sendPut (index : Nat) (s : FPersistentConnection ρ) :
    Except ConnectionFault (FPersistentConnection ρ) :=
  if s.canSendWrites then
    match s.outstandingPuts.lookup index with
    | none => .error .sendPutWithoutPut
    | some put =>
      { s with outstandingPuts := markSent index s.outstandingPuts }.sendAction
        (.put index put.request put.hash) (some (.put index put.request))
  else .error .sendPutWhileNotAbleToSendWrites

/-- `sendListen`. -/
def sendListen (listenSpec : FOutstandingQuery) (s : FPersistentConnection ρ) :
    Except ConnectionFault (FPersistentConnection ρ) := do
  let s ← s.sendAction (.listen listenSpec.query) (some (.listen listenSpec))
  return { s with unackedListensCount := s.unackedListensCount + 1 }

/-- `sendAuthAndRestoreStateAfterComplete`. -/
def sendAuthAndRestoreStateAfterComplete (restoreStateAfterComplete : Bool)
    (s : FPersistentConnection ρ) : Except ConnectionFault (FPersistentConnection ρ) :=
  if s.connected then
    match s.authToken with
    | none => .error .authWithoutCredential
    | some token => s.sendAction (.auth token) (some (.auth restoreStateAfterComplete))
  else .error .authWhileNotConnected

/-! ## Opening and restoring -/

/-- `[self.outstandingPuts allKeys]` sorted with `compare:`. -/
def putKeys (s : FPersistentConnection ρ) : List Nat := s.putIndices.insertionSort (· ≤ ·)

/-- One write of `restoreState`. -/
def restorePut (s : FPersistentConnection ρ) (index : Nat) :
    Except ConnectionFault (FPersistentConnection ρ) :=
  if (s.outstandingPuts.lookup index).isSome then s.sendPut index else .ok s

/-- `restoreState`. -/
def restoreState (s : FPersistentConnection ρ) : Except ConnectionFault (FPersistentConnection ρ) :=
  if s.connectionState = .connected then do
    let s ← s.listens.foldlM (fun s listenSpec => s.sendListen listenSpec) s
    s.putKeys.foldlM restorePut s
  else .error .restoringStateInWrongState

/-- `restoreAuth`. -/
def restoreAuth (s : FPersistentConnection ρ) : Except ConnectionFault (FPersistentConnection ρ) :=
  if s.connectionState = .connecting then
    match s.authToken with
    | none => (s.setState .connected).restoreState
    | some _ => (s.setState .authenticating).sendAuthAndRestoreStateAfterComplete true
  else .error .restoringAuthInWrongState

/-- `sendConnectStats`, on the first connection. -/
def sendConnectStats (s : FPersistentConnection ρ) : Except ConnectionFault (FPersistentConnection ρ) :=
  if s.firstConnection then s.sendAction .stats (some .stats) else .ok s

/-- `onReady`. -/
def onReady (s : FPersistentConnection ρ) : Except ConnectionFault (FPersistentConnection ρ) := do
  let s ← s.sendConnectStats
  let s ← s.restoreAuth
  return { s with firstConnection := false }

/-- The connection `conn` is open. -/
def opened (conn : FConnection ρ) (s : FPersistentConnection ρ) : FPersistentConnection ρ :=
  { s with realtime := some { conn with state := .connected } }

/-- `FConnection onHandshake:`: the hello of the server on a connection that is being opened. -/
def onHandshake (s : FPersistentConnection ρ) : Except ConnectionFault (FPersistentConnection ρ) :=
  match s.realtime with
  | some conn => if conn.state = .connecting then (s.opened conn).onReady else .ok s
  | none => .ok s

/-- `FIRRetryHelper retry:` replaces the attempt that is scheduled. -/
def scheduled (s : FPersistentConnection ρ) : FPersistentConnection ρ :=
  { s with scheduledRetry := some s.forceTokenRefreshes, forceTokenRefreshes := false }

/-- `tryScheduleReconnect`. -/
def tryScheduleReconnect (s : FPersistentConnection ρ) :
    Except ConnectionFault (FPersistentConnection ρ) :=
  if s.shouldReconnect then
    if s.connectionState = .disconnected then .ok s.scheduled else .error .notInDisconnectedState
  else .ok s

/-- The block that `tryScheduleReconnect` gives to the retry helper. -/
def retry (s : FPersistentConnection ρ) : Except ConnectionFault (FPersistentConnection ρ) :=
  match s.scheduledRetry with
  | none => .ok s
  | some forceRefresh =>
    if s.connectionState = .disconnected then
      .ok { s with
        scheduledRetry := none
        connectionState := .gettingToken
        currentFetchTokenAttempt := s.currentFetchTokenAttempt + 1
        fetches := s.fetches ++ [(s.currentFetchTokenAttempt + 1, forceRefresh)] }
    else .error .notInDisconnectedState

/-- `openNetworkConnectionWithContext`. -/
def openNetworkConnectionWithContext (authToken : Option String) (s : FPersistentConnection ρ) :
    Except ConnectionFault (FPersistentConnection ρ) :=
  if s.connectionState = .gettingToken then
    .ok { s with
      authToken := authToken
      connectionState := .connecting
      realtime := some ⟨.connecting, [], []⟩ }
  else .error .openingInWrongState

/-- What the context provider answers: an error, or a context with or without a token. -/
inductive FetchResult where
  | error
  | context (authToken : Option String)
  deriving DecidableEq, Repr

/-- The attempt's token is no longer awaited. -/
def fetchDone (thisFetchTokenAttempt : Nat) (s : FPersistentConnection ρ) : FPersistentConnection ρ :=
  { s with fetches := s.fetches.filter fun f => f.1 ≠ thisFetchTokenAttempt }

/-- The callback of `fetchContextForcingRefresh`, which runs once for each attempt. -/
def contextFetched (thisFetchTokenAttempt : Nat) (result : FetchResult) (s : FPersistentConnection ρ) :
    Except ConnectionFault (FPersistentConnection ρ) :=
  if thisFetchTokenAttempt ∈ s.fetches.map Prod.fst then
    if thisFetchTokenAttempt = s.currentFetchTokenAttempt then
      match result with
      | .error =>
        ((s.fetchDone thisFetchTokenAttempt).setState .disconnected).tryScheduleReconnect
      | .context authToken =>
        if s.connectionState = .gettingToken then
          (s.fetchDone thisFetchTokenAttempt).openNetworkConnectionWithContext authToken
        else if s.connectionState = .disconnected then .ok (s.fetchDone thisFetchTokenAttempt)
        else .error .expectedDisconnected
    else .ok (s.fetchDone thisFetchTokenAttempt)
  else .ok s

/-! ## Closing -/

/-- A transaction that was sent. -/
def isSentTransaction (p : Nat × FOutstandingPut ρ) : Bool := p.2.hash.isSome && p.2.sent

/-- `cancelSentTransactions`. -/
def cancelSentTransactions (s : FPersistentConnection ρ) : FPersistentConnection ρ :=
  { s with
    completed := s.completed ++ (s.outstandingPuts.filter isSentTransaction).map fun p =>
      ⟨p.1, kFTransactionDisconnect, some "Client was disconnected while running a transaction"⟩
    outstandingPuts := s.outstandingPuts.filter fun p => !isSentTransaction p }

/-- What `onDisconnect` does before it schedules a new attempt. -/
def dropped (s : FPersistentConnection ρ) : FPersistentConnection ρ :=
  { s.cancelSentTransactions with
    connectionState := .disconnected
    closed := s.closed ++ s.realtime.toList
    realtime := none
    requestCBHash := []
    unackedListensCount := 0 }

/-- `onDisconnect`. -/
def onDisconnect (s : FPersistentConnection ρ) : Except ConnectionFault (FPersistentConnection ρ) :=
  s.dropped.tryScheduleReconnect

/-- `[self.realtime close]`: `FConnection closeWithReason:`, then `onDisconnect`. -/
def close (s : FPersistentConnection ρ) : Except ConnectionFault (FPersistentConnection ρ) :=
  match s.realtime with
  | none => .ok s
  | some _ => s.onDisconnect

/-- `interruptForReason`. -/
def interruptForReason (reason : String) (s : FPersistentConnection ρ) :
    Except ConnectionFault (FPersistentConnection ρ) :=
  match s.realtime with
  | some _ => do
    let s ← { s with interruptReasons := s.interruptReasons.insert reason }.close
    return { s with realtime := none }
  | none => .ok { s with
      interruptReasons := s.interruptReasons.insert reason
      scheduledRetry := none
      connectionState := .disconnected }

/-- `FConnection onConnectionShutdownWithReason:`: `onKill`, then `close`. -/
def onKill (s : FPersistentConnection ρ) : Except ConnectionFault (FPersistentConnection ρ) := do
  let s ← s.interruptForReason kFInterruptReasonServerKill
  s.close

/-- `enteringForeground` and `reachabilityCallback`. -/
def enteringForeground (s : FPersistentConnection ρ) :
    Except ConnectionFault (FPersistentConnection ρ) :=
  if s.connectionState = .disconnected then s.tryScheduleReconnect else .ok s

/-- `resumeForReason`; `tryScheduleReconnect` asks `shouldReconnect` itself. -/
def resumeForReason (reason : String) (s : FPersistentConnection ρ) :
    Except ConnectionFault (FPersistentConnection ρ) :=
  { s with interruptReasons := s.interruptReasons.filter fun r => r ≠ reason }.enteringForeground

/-- The token is given up and the connection closed: a failed `auth` or `appCheck`, and
`onAuthRevokedWithStatus`. -/
def dropToken (s : FPersistentConnection ρ) : Except ConnectionFault (FPersistentConnection ρ) :=
  { s with authToken := none, forceTokenRefreshes := true }.close

/-! ## Responses -/

/-- `ackPuts`. -/
def ackPuts (s : FPersistentConnection ρ) : FPersistentConnection ρ :=
  { s with completed := s.completed ++ s.putsToAck, putsToAck := [] }

/-- The callback of `sendPut`. -/
def putAnswered (index : Nat) (data : Response) (s : FPersistentConnection ρ) :
    FPersistentConnection ρ :=
  if (s.outstandingPuts.lookup index).isSome then
    { s with
      outstandingPuts := s.outstandingPuts.filter fun p => p.1 ≠ index
      completed :=
        if s.unackedListensCount = 0 then s.completed ++ [⟨index, data.status, data.data⟩] else s.completed
      putsToAck :=
        if s.unackedListensCount = 0 then s.putsToAck else s.putsToAck ++ [⟨index, data.status, data.data⟩] }
  else s

/-- `removeListen`. -/
def removeListen (query : FQuerySpec) (s : FPersistentConnection ρ) :
    Except ConnectionFault (FPersistentConnection ρ) :=
  if query.isDefaultOrPartial then
    .ok { s with listens := s.listens.filter fun listenSpec => listenSpec.query ≠ query }
  else .error .removeListenForNonDefaultCompleteQuery

/-- The listen of a request that failed is removed, unless it was removed before. -/
def listenChecked (listenSpec : FOutstandingQuery) (response : Response) (s : FPersistentConnection ρ) :
    Except ConnectionFault (FPersistentConnection ρ) :=
  if listenSpec ∈ s.listens ∧ response.status ≠ kFWPResponseForActionStatusOk then
    s.removeListen listenSpec.query
  else .ok s

/-- `self.unackedListensCount--` and what follows it. -/
def listenAcked (s : FPersistentConnection ρ) : Except ConnectionFault (FPersistentConnection ρ) :=
  if s.unackedListensCount - 1 < 0 then .error .unackedListensCountNegative
  else if s.unackedListensCount - 1 = 0 then
    .ok { s with unackedListensCount := s.unackedListensCount - 1 }.ackPuts
  else .ok { s with unackedListensCount := s.unackedListensCount - 1 }

/-- The callback of `sendListen`. -/
def listenAnswered (listenSpec : FOutstandingQuery) (response : Response)
    (s : FPersistentConnection ρ) : Except ConnectionFault (FPersistentConnection ρ) := do
  let s ← s.listenChecked listenSpec response
  s.listenAcked

/-- The callback of `sendAuthAndRestoreStateAfterComplete`. -/
def authAnswered (restoreStateAfterComplete : Bool) (data : Response) (s : FPersistentConnection ρ) :
    Except ConnectionFault (FPersistentConnection ρ) :=
  if data.status = kFWPResponseForActionStatusOk then
    if restoreStateAfterComplete then (s.setState .connected).restoreState
    else .ok (s.setState .connected)
  else (s.setState .connected).dropToken

/-- The callback of `sendAppCheckToken`. -/
def appCheckAnswered (data : Response) (s : FPersistentConnection ρ) :
    Except ConnectionFault (FPersistentConnection ρ) :=
  if data.status = kFWPResponseForActionStatusOk then .ok s else s.dropToken

/-- A callback, run with the answer to its request. -/
def runCallback (callback : RequestCallback ρ) (data : Response) (s : FPersistentConnection ρ) :
    Except ConnectionFault (FPersistentConnection ρ) :=
  match callback with
  | .auth restoreStateAfterComplete => s.authAnswered restoreStateAfterComplete data
  | .put index _ => .ok (s.putAnswered index data)
  | .listen listenSpec => s.listenAnswered listenSpec data
  | .stats => .ok s
  | .appCheck => s.appCheckAnswered data

/-- The response comes in on the open connection. -/
def noted (rn : Nat) (s : FPersistentConnection ρ) : FPersistentConnection ρ :=
  { s with realtime := s.realtime.map fun conn => { conn with answers := conn.answers ++ [rn] } }

/-- `onListenRevoked`, with `removeAllListensAtPath`. -/
def onListenRevoked (path : List String) (s : FPersistentConnection ρ) : FPersistentConnection ρ :=
  { s with listens := s.listens.filter fun listenSpec => listenSpec.query.path ≠ path }

/-- The answer to the request `rn`, if its callback is kept. -/
def onResponse (rn : Nat) (data : Response) (s : FPersistentConnection ρ) :
    Except ConnectionFault (FPersistentConnection ρ) :=
  match s.requestCBHash.lookup rn with
  | none => .ok (s.noted rn)
  | some callback =>
    { s.noted rn with requestCBHash := s.requestCBHash.filter fun r => r.1 ≠ rn }.runCallback
      callback data

/-- `onDataMessage`, with `onDataPushWithAction`. -/
def onDataMessage (message : DataMessage) (s : FPersistentConnection ρ) :
    Except ConnectionFault (FPersistentConnection ρ) :=
  match message with
  | .response rn data => s.onResponse rn data
  | .error reason => .error (.serverError reason)
  | .authRevoked => s.dropToken
  | .listenRevoked path => .ok (s.onListenRevoked path)

/-! ## Calls of the client -/

/-- The state with a new listen. -/
def keptListen (listenSpec : FOutstandingQuery) (s : FPersistentConnection ρ) : FPersistentConnection ρ :=
  { s with
    listens := s.listens ++ [listenSpec]
    listensCreated := s.listensCreated + 1 }

/-- `listen`. -/
def listen (query : FQuerySpec) (s : FPersistentConnection ρ) :
    Except ConnectionFault (FPersistentConnection ρ) :=
  if query ∈ s.listens.map FOutstandingQuery.query then .error .listenCalledTwice
  else if checked : query.isDefaultOrPartial = true then
    let outstanding : FOutstandingQuery := ⟨query, s.listensCreated, checked⟩
    if s.connected then (s.keptListen outstanding).sendListen outstanding else .ok (s.keptListen outstanding)
  else .error .listenForNonDefaultCompleteQuery

/-- `unlisten`. -/
def unlisten (query : FQuerySpec) (s : FPersistentConnection ρ) :
    Except ConnectionFault (FPersistentConnection ρ) := do
  let s' ← s.removeListen query
  if query ∈ s.listens.map FOutstandingQuery.query ∧ s'.connected then s'.sendAction (.unlisten query) none
  else return s'

/-- The state with a new write under the next index. -/
def keptPut (request : ρ) (hash : Option String) (s : FPersistentConnection ρ) :
    FPersistentConnection ρ :=
  { s with
    outstandingPuts := s.outstandingPuts ++ [(s.putCounter, ⟨request, hash, false⟩)]
    putCounter := s.putCounter + 1 }

/-- `putInternal`: `putData`, `mergeData`. -/
def putInternal (request : ρ) (hash : Option String) (s : FPersistentConnection ρ) :
    Except ConnectionFault (FPersistentConnection ρ) :=
  if s.canSendWrites then (s.keptPut request hash).sendPut s.putCounter else .ok (s.keptPut request hash)

/-- `refreshAuthToken`. -/
def refreshAuthToken (token : Option String) (s : FPersistentConnection ρ) :
    Except ConnectionFault (FPersistentConnection ρ) :=
  if s.connected then
    match token with
    | some _ => { s with authToken := token }.sendAuthAndRestoreStateAfterComplete false
    | none => { s with authToken := token }.sendAction .unauth none
  else .ok { s with authToken := token }

/-- `refreshAppCheckToken`. -/
def refreshAppCheckToken (token : String) (s : FPersistentConnection ρ) :
    Except ConnectionFault (FPersistentConnection ρ) :=
  if s.connected ∧ token ≠ "" then s.sendAction (.appCheck token) (some .appCheck) else .ok s

/-- `purgeOutstandingWrites`. -/
def purgeOutstandingWrites (s : FPersistentConnection ρ) : FPersistentConnection ρ :=
  { s.ackPuts with
    completed := s.ackPuts.completed ++ s.putKeys.map fun index => ⟨index, kFErrorWriteCanceled, none⟩
    outstandingPuts := [] }

/-! ## Runs -/

/-- What can happen to the connection. -/
inductive Event (ρ : Type) where
  | interrupt (reason : String)
  | resume (reason : String)
  | foreground
  | retry
  | fetched (attempt : Nat) (result : FetchResult)
  | handshake
  | lost
  | kill
  | dataMessage (message : DataMessage)
  | listen (query : FQuerySpec)
  | unlisten (query : FQuerySpec)
  | put (request : ρ) (hash : Option String)
  | refreshAuthToken (token : Option String)
  | refreshAppCheckToken (token : String)
  | purge

def step (s : FPersistentConnection ρ) : Event ρ → Except ConnectionFault (FPersistentConnection ρ)
  | .interrupt reason => s.interruptForReason reason
  | .resume reason => s.resumeForReason reason
  | .foreground => s.enteringForeground
  | .retry => s.retry
  | .fetched attempt result => s.contextFetched attempt result
  | .handshake => s.onHandshake
  | .lost => s.close
  | .kill => s.onKill
  | .dataMessage message => s.onDataMessage message
  | .listen query => s.listen query
  | .unlisten query => s.unlisten query
  | .put request hash => s.putInternal request hash
  | .refreshAuthToken token => s.refreshAuthToken token
  | .refreshAppCheckToken token => s.refreshAppCheckToken token
  | .purge => .ok s.purgeOutstandingWrites

/-- The step as a partial function: no state when an assertion fails or an exception is thrown. -/
def next (s : FPersistentConnection ρ) (e : Event ρ) : Option (FPersistentConnection ρ) := (s.step e).toOption

/-- The connection as `initWithRepoInfo` leaves it: interrupted until `open`. -/
def initial (ρ : Type) : FPersistentConnection ρ :=
  { interruptReasons := [kFInterruptReasonWaitingForOpen] }

end FPersistentConnection

end ChatApplication
