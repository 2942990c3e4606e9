import Senn.Nostr.Content
import Senn.Lib.InsMap

/-! # `NostrSignaling`

The adapter as a machine. A call that awaits stays in a list of the state with
the place it waits at, and an event resumes it. The reactions to a socket's
`open`, `error` and `close` events run before any other code, so such an event
also resumes the calls of `ensureSocket` that wait for the socket. -/

namespace Senn.Nostr
open Senn.Js Senn.Lib

/-! ## Data -/

/-- `readyState` -/
inductive ReadyState where
  | connecting
  | opened
  | closing
  | closed
deriving DecidableEq

/-- A `WebSocket` the adapter made. `closeCalled` tells whether the adapter
called its `close`; no code reads it. -/
structure Socket where
  url : JsString
  readyState : ReadyState
  closeCalled : Bool
deriving DecidableEq

structure NostrEvent where
  id : JsString
  createdAt : Nat
  tag : JsString
  content : JsString
deriving DecidableEq

inductive Frame where
  | event (e : NostrEvent)
  | req (subId roomId : JsString)
  | close (subId : JsString)
deriving DecidableEq

/-- A room's subscription. A handler comes with the place at which it was added,
by which a loop over the set goes on. -/
structure RoomState where
  subId : JsString
  handlers : List (Nat × Nat)
  added : Nat
  delivered : List (Option Json)

/-- What a call of `ensureSocket` waits for; `returned` ones are not read yet. -/
inductive Ensure where
  | opening (i : Nat)              -- `waitForOpen` of a socket found connecting
  | fresh (i : Nat)                -- `waitForOpen` of the socket it made
  | returned (ws : Option Nat)
deriving DecidableEq

/-- A call of `publish`, or of `openReqOnAll`. -/
inductive Caller where
  | publish (p : Nat)
  | request (r : Nat)
deriving DecidableEq

structure EnsureCall where
  caller : Caller
  wait : Ensure
deriving DecidableEq

inductive NostrError where
  | closed
  | kat
  | roomKey
  | encrypt
  | noReachableRelay
  | nacked (msg : JsString)
  | ackTimeout
deriving DecidableEq

inductive Settlement where
  | resolved
  | rejected (e : NostrError)
deriving DecidableEq

/-- Where a call of `publish` is. -/
inductive Stage where
  | kat                                              -- `await this.v2InitPromise`
  | key                                              -- `await this.getV2RoomKey(roomId)`
  | encoded (content : JsString)                     -- `await this.encodeContent(...)`
  | relays (url : JsString) (rest : List JsString)   -- `await this.ensureSocket(url)`
  | ack                                              -- `await ackPromise`
  | settled (r : Settlement)
deriving DecidableEq

/-- A call of `publish` with the variables of its closures; `ack` is what its
`ackPromise` settled to. The last four fields, which no code reads, are the relays
it sent its event to, could not send it to and could not reach, and what relays
answered to the event while the promise was pending. -/
structure Publish where
  roomId : JsString
  message : Json
  stage : Stage
  event : Option NostrEvent
  relayCount : Nat
  nacked : Nat
  loopFinalized : Bool
  settled : Bool
  timer : Bool
  lastNackMsg : Option JsString
  ack : Option Settlement
  contacted : List JsString
  sendFailed : List JsString
  unreachable : List JsString
  answers : List (JsString × Bool)

def Publish.call (roomId : JsString) (message : Json) (stage : Stage) : Publish where
  roomId := roomId
  message := message
  stage := stage
  event := none
  relayCount := 0
  nacked := 0
  loopFinalized := false
  settled := false
  timer := false
  lastNackMsg := none
  ack := none
  contacted := []
  sendFailed := []
  unreachable := []
  answers := []

/-- A call of `openReqOnAll`, with the relays it has not come to. -/
structure Request where
  roomId : JsString
  subId : JsString
  rest : List JsString

/-- Where a call of `decodeAndDispatch` is. -/
inductive DecodeStage where
  | kat
  | key
  | decoded (message : Option Json)               -- `await this.decodeContent(...)`
  | dispatching (message : Json) (next : Nat)     -- in the loop over the handlers
  | done

structure Decode where
  roomId : JsString
  room : Nat
  content : Option Json
  stage : DecodeStage

/-- An adapter. The sockets and rooms it holds refer into `created` and
`roomStates`; `kat` is what the known-answer test came to, and an entry of
`v2RoomKeys` whether its key could be derived. -/
structure NostrSignaling where
  relays : List JsString
  v2Enabled : Bool
  created : List Socket
  sockets : InsMap JsString Nat
  roomStates : List RoomState
  rooms : InsMap JsString Nat
  closed : Bool
  subCounter : Nat
  pendingAcks : InsMap JsString Nat
  kat : Option Bool
  v2KatError : Bool
  v2RoomKeys : InsMap JsString (Option Bool)
  publishes : List Publish
  requests : List Request
  calls : List EnsureCall
  decodes : List Decode
  unsubscribes : List (JsString × Nat)

def NostrSignaling.new (relays : List JsString) (v2Enabled : Bool) : NostrSignaling where
  relays := relays
  v2Enabled := v2Enabled
  created := []
  sockets := .empty
  roomStates := []
  rooms := .empty
  closed := false
  subCounter := 0
  pendingAcks := .empty
  kat := none
  v2KatError := false
  v2RoomKeys := .empty
  publishes := []
  requests := []
  calls := []
  decodes := []
  unsubscribes := []

/-- Calls of the adapter, events of its sockets and timers, and the resumption of
calls that wait. `ctorOk` is false where the WebSocket constructor throws, `sendOk`
where the event's `send` does; `reqs` counts the `send`s that do not throw when a
freshly opened socket is sent the subscriptions. -/
inductive Event where
  | publish (roomId : JsString) (message : Json)
  | subscribe (roomId : JsString) (handler : Nat) (ctorOk : Bool)
  | unsubscribe (k : Nat)
  | close
  | katSettled (ok : Bool)
  | katLatched
  | keySettled (roomId : JsString) (ok : Bool)
  | katResumed (p : Nat)
  | keyResumed (p : Nat) (nonce : Bytes)
  | encodedResumed (p now : Nat) (ctorOk : Bool)
  | relayResumed (p : Nat) (sendOk ctorOk : Bool)
  | requestResumed (r : Nat) (ctorOk : Bool)
  | ackTimeout (p : Nat)
  | socketOpen (i : Nat) (reqs : Option Nat)
  | socketClosing (i : Nat)
  | socketClosed (i : Nat)
  | message (i : Nat) (data : JsString)
  | decodeKat (d : Nat)
  | decodeKey (d : Nat)
  | dispatch (d : Nat)

inductive Out where
  | create (i : Nat)
  | send (i : Nat) (f : Frame)
  | closeSocket (i : Nat)
  | handler (h : Nat) (message : Json)
  | settled (p : Nat) (r : Settlement)
  | subscribeThrew (e : NostrError)

namespace NostrSignaling

/-! ## Sockets -/

/-- The socket the adapter holds for a relay, with its state. -/
def held (s : NostrSignaling) (url : JsString) : Option (Nat × ReadyState) := do
  let i ← s.sockets.get url
  let ws ← s.created[i]?
  return (i, ws.readyState)

/-- `ensureSocket` up to its first `await`. -/
def ensureSocket (s : NostrSignaling) (url : JsString) (ctorOk : Bool) :
    NostrSignaling × List Out × Ensure :=
  match s.held url with
  | some (i, .opened) => (s, [], .returned (some i))
  | some (i, .connecting) => (s, [], .opening i)
  | _ =>
    if ctorOk then
      let i := s.created.length
      ({ s with
        created := s.created ++ [⟨url, .connecting, false⟩]
        sockets := s.sockets.set url i }, [.create i], .fresh i)
    else (s, [], .returned none)

/-- A call of `ensureSocket` by one of the loops over the relays. -/
def callEnsure (s : NostrSignaling) (caller : Caller) (url : JsString) (ctorOk : Bool) :
    NostrSignaling × List Out :=
  let r := s.ensureSocket url ctorOk
  ({ r.1 with calls := r.1.calls ++ [⟨caller, r.2.2⟩] }, r.2.1)

/-- What the call of `ensureSocket` its caller waits for has returned. -/
def returned? (s : NostrSignaling) (caller : Caller) : Option (Option Nat) :=
  match s.calls.find? fun c => c.caller = caller with
  | some ⟨_, .returned ws⟩ => some ws
  | _ => none

def forget (s : NostrSignaling) (caller : Caller) : NostrSignaling :=
  { s with calls := s.calls.filter fun c => c.caller ≠ caller }

/-- The entries a loop over the rooms sends before a `send` throws. -/
def roomSubIds (s : NostrSignaling) : List (JsString × JsString) :=
  s.rooms.entries.filterMap fun e => s.roomStates[e.2]?.map fun room => (room.subId, e.1)

def setReadyState (s : NostrSignaling) (i : Nat) (state : ReadyState) : NostrSignaling :=
  { s with created := s.created.modify i fun ws => { ws with readyState := state } }

/-- The calls that wait for socket `i` go on. -/
def wake (s : NostrSignaling) (i : Nat) (found : Option Nat) (fresh : Option Nat) :
    NostrSignaling :=
  { s with
    calls := s.calls.map fun c =>
      if c.wait = .opening i then { c with wait := .returned found }
      else if c.wait = .fresh i then { c with wait := .returned fresh }
      else c }

/-- The `open` event. The call that made the socket sends it the subscriptions;
where a `send` throws, that call returns no socket. -/
def socketOpen (s : NostrSignaling) (i : Nat) (reqs : Option Nat) : NostrSignaling × List Out :=
  match s.created[i]? with
  | some ⟨_, .connecting, _⟩ =>
    let s := s.setReadyState i .opened
    let subs := s.roomSubIds
    let sent := (reqs.map fun n => subs.take n).getD subs
    let fresh := if sent.length = subs.length then some i else none
    (s.wake i (some i) fresh,
      if s.calls.any fun c => c.wait = .fresh i then sent.map fun e => .send i (.req e.1 e.2)
      else [])
  | _ => (s, [])

/-- The `error` and `close` events of a socket that is closed for good. -/
def socketClosed (s : NostrSignaling) (i : Nat) : NostrSignaling :=
  match s.created[i]? with
  | some ws =>
    if ws.readyState = .closed then s
    else
      let s := s.setReadyState i .closed
      let drop := s.sockets.get ws.url = some i || s.calls.any fun c => c.wait = .fresh i
      let s := s.wake i none none
      if drop then { s with sockets := s.sockets.delete ws.url } else s
  | none => s

/-- `closeReqOnAll` -/
def closeReqOnAll (s : NostrSignaling) (subId : JsString) : List Out :=
  s.sockets.entries.map fun e => .send e.2 (.close subId)

/-! ## `publish` -/

end NostrSignaling

/-- The outcome of the `ackPromise`, read at once by a call that awaits it. -/
def Publish.settle (q : Publish) (r : Settlement) : Publish :=
  { q with
    settled := true
    timer := false
    ack := some r
    stage := if q.stage = .ack then .settled r else q.stage }

/-- `room.handlers.add(handler)` -/
def RoomState.add (room : RoomState) (handler : Nat) : RoomState :=
  if room.handlers.any fun h => h.2 = handler then room
  else { room with
    handlers := room.handlers ++ [(room.added, handler)]
    added := room.added + 1 }

def Publish.eventId (q : Publish) : JsString := (q.event.map fun e => e.id).getD []

namespace NostrSignaling

def setPublish (s : NostrSignaling) (p : Nat) (q : Publish) : NostrSignaling :=
  { s with publishes := s.publishes.set p q }

/-- The `ackPromise` of a publish settles. -/
def settleAck (s : NostrSignaling) (p : Nat) (q : Publish) (r : Settlement) :
    NostrSignaling × List Out :=
  ({ s.setPublish p (q.settle r) with pendingAcks := s.pendingAcks.delete q.eventId },
    if q.stage = .ack then [.settled p r] else [])

def tryReject (s : NostrSignaling) (p : Nat) (q : Publish) : NostrSignaling × List Out :=
  if q.settled || !q.loopFinalized || q.nacked < q.relayCount then (s.setPublish p q, [])
  else s.settleAck p q (.rejected (.nacked (q.lastNackMsg.getD (js "all relays nacked"))))

/-- The `finish` closure of publish `p`. -/
def finish (s : NostrSignaling) (p : Nat) (ok : Bool) (msg : Option JsString) :
    NostrSignaling × List Out :=
  match s.publishes[p]? with
  | none => (s, [])
  | some q =>
    if q.settled then (s, [])
    else if ok then s.settleAck p q .resolved
    else s.tryReject p { q with nacked := q.nacked + 1, lastNackMsg := msg.or q.lastNackMsg }

/-- `this.pendingAcks.get(eventId)?.(ok, msg)` -/
def callAck (s : NostrSignaling) (eventId : JsString) (ok : Bool) (msg : Option JsString) :
    NostrSignaling × List Out :=
  match s.pendingAcks.get eventId with
  | none => (s, [])
  | some p => s.finish p ok msg

/-- A new call of `publish`, at the stage its synchronous part leads to. -/
def addPublish (s : NostrSignaling) (roomId : JsString) (message : Json) (stage : Stage) :
    NostrSignaling × List Out :=
  ({ s with publishes := s.publishes ++ [.call roomId message stage] },
    match stage with
    | .settled r => [.settled s.publishes.length r]
    | _ => [])

/-- `publish` with the synchronous part of `encodeContent`. -/
def publish (s : NostrSignaling) (roomId : JsString) (message : Json) :
    NostrSignaling × List Out :=
  if s.closed then s.addPublish roomId message (.settled (.rejected .closed))
  else if !s.v2Enabled then s.addPublish roomId message (.encoded message.stringify)
  else if s.v2KatError then s.addPublish roomId message (.settled (.rejected .kat))
  else s.addPublish roomId message .kat

/-- A call of `publish` ends without having made its event. -/
def failPublish (s : NostrSignaling) (p : Nat) (q : Publish) (e : NostrError) :
    NostrSignaling × List Out :=
  (s.setPublish p { q with stage := .settled (.rejected e) }, [.settled p (.rejected e)])

/-- `getV2RoomKey` starts the derivation of a key it has not got. -/
def getV2RoomKey (s : NostrSignaling) (roomId : JsString) : NostrSignaling :=
  match s.v2RoomKeys.get roomId with
  | some _ => s
  | none => { s with v2RoomKeys := s.v2RoomKeys.set roomId none }

def katResumed (s : NostrSignaling) (p : Nat) : NostrSignaling × List Out :=
  match s.publishes[p]?, s.kat with
  | some q, some ok =>
    if q.stage ≠ .kat then (s, [])
    else if ok then ((s.getV2RoomKey q.roomId).setPublish p { q with stage := .key }, [])
    else s.failPublish p q .kat
  | _, _ => (s, [])

/-- The loop over the relays has ended. -/
def endRelays (s : NostrSignaling) (p : Nat) (q : Publish) : NostrSignaling × List Out :=
  if q.relayCount = 0 then
    ({ s.setPublish p { q with
        settled := true
        timer := false
        stage := .settled (.rejected .noReachableRelay) } with
      pendingAcks := s.pendingAcks.delete q.eventId },
      [.settled p (.rejected .noReachableRelay)])
  else
    let q := { q with loopFinalized := true }
    match q.ack with
    | some r => (s.setPublish p { q with stage := .settled r }, [.settled p r])
    | none => s.tryReject p { q with stage := .ack }

/-- The loop over the relays goes on with `urls`. -/
def nextRelay (s : NostrSignaling) (p : Nat) (urls : List JsString) (ctorOk : Bool) :
    NostrSignaling × List Out :=
  match s.publishes[p]? with
  | none => (s, [])
  | some q =>
    match urls with
    | [] => s.endRelays p q
    | url :: rest =>
      (s.setPublish p { q with stage := .relays url rest }).callEnsure (.publish p) url ctorOk

/-- The body of the loop over the relays once `ensureSocket` has returned. -/
def relayResumed (s : NostrSignaling) (p : Nat) (sendOk ctorOk : Bool) :
    NostrSignaling × List Out :=
  match s.publishes[p]?, s.returned? (.publish p) with
  | some q, some ws =>
    match q.stage, q.event, ws with
    | .relays url rest, some _, none =>
      ((s.forget (.publish p)).setPublish p { q with
        unreachable := q.unreachable ++ [url] }).nextRelay p rest ctorOk
    | .relays url rest, some event, some i =>
      let s := s.forget (.publish p)
      if sendOk then
        let r := (s.setPublish p { q with
          relayCount := q.relayCount + 1
          contacted := q.contacted ++ [url] }).nextRelay p rest ctorOk
        (r.1, .send i (.event event) :: r.2)
      else
        let r := (s.setPublish p { q with
          relayCount := q.relayCount + 1
          sendFailed := q.sendFailed ++ [url] }).callAck event.id false
            (some (js "send failed on " ++ url))
        let t := r.1.nextRelay p rest ctorOk
        (t.1, .send i (.event event) :: r.2 ++ t.2)
    | _, _, _ => (s, [])
  | _, _ => (s, [])

def ackTimeout (s : NostrSignaling) (p : Nat) : NostrSignaling × List Out :=
  match s.publishes[p]? with
  | none => (s, [])
  | some q =>
    if !q.timer || q.settled then (s, []) else s.settleAck p q (.rejected .ackTimeout)

/-! ## `subscribe` and `close` -/

def newSubId (s : NostrSignaling) (roomId : JsString) : JsString :=
  js "s_" ++ roomId.take 8 ++ js "_" ++ natText 36 ((s.subCounter + 1) % 0xffffff)

/-- The loop of `openReqOnAll` goes on with the relays that are left. -/
def nextRequest (s : NostrSignaling) (r : Nat) (ctorOk : Bool) : NostrSignaling × List Out :=
  match s.requests[r]? with
  | some ⟨roomId, subId, url :: rest⟩ =>
    callEnsure { s with requests := s.requests.set r ⟨roomId, subId, rest⟩ } (.request r) url ctorOk
  | _ => (s, [])

def requestResumed (s : NostrSignaling) (r : Nat) (ctorOk : Bool) : NostrSignaling × List Out :=
  match s.requests[r]?, s.returned? (.request r) with
  | some q, some ws =>
    let t := (s.forget (.request r)).nextRequest r ctorOk
    (t.1, (ws.map fun i => Out.send i (.req q.subId q.roomId)).toList ++ t.2)
  | _, _ => (s, [])

/-- The room of a subscription, which is made, with its REQs, where there is none. -/
def roomFor (s : NostrSignaling) (roomId : JsString) (ctorOk : Bool) :
    NostrSignaling × List Out × Nat :=
  match s.rooms.get roomId with
  | some i => (s, [], i)
  | none =>
    let i := s.roomStates.length
    let subId := s.newSubId roomId
    let r := nextRequest { s with
      subCounter := (s.subCounter + 1) % 0xffffff
      roomStates := s.roomStates ++ [⟨subId, [], 0, []⟩]
      rooms := s.rooms.set roomId i
      requests := s.requests ++ [⟨roomId, subId, s.relays⟩] } s.requests.length ctorOk
    (r.1, r.2, i)

def subscribe (s : NostrSignaling) (roomId : JsString) (handler : Nat) (ctorOk : Bool) :
    NostrSignaling × List Out :=
  if s.closed then (s, [.subscribeThrew .closed])
  else if s.v2KatError then (s, [.subscribeThrew .kat])
  else
    let s := if s.v2Enabled then s.getV2RoomKey roomId else s
    let r := s.roomFor roomId ctorOk
    ({ r.1 with
      roomStates := r.1.roomStates.modify r.2.2 fun room => room.add handler
      unsubscribes := r.1.unsubscribes ++ [(roomId, handler)] }, r.2.1)

/-- The `k`-th function `subscribe` returned. -/
def unsubscribe (s : NostrSignaling) (k : Nat) : NostrSignaling × List Out :=
  match s.unsubscribes[k]? with
  | none => (s, [])
  | some (roomId, handler) =>
    match s.rooms.get roomId with
    | none => (s, [])
    | some i =>
      match s.roomStates[i]? with
      | none => (s, [])
      | some cur =>
        let handlers := cur.handlers.filter fun h => h.2 ≠ handler
        let s := { s with roomStates := s.roomStates.set i { cur with handlers := handlers } }
        if handlers.isEmpty then
          ({ s with rooms := s.rooms.delete roomId }, s.closeReqOnAll cur.subId)
        else (s, [])

/-- `ws.close()` -/
def closeSocket (ws : Socket) : Socket :=
  { ws with
    readyState := if ws.readyState = .closed then .closed else .closing
    closeCalled := true }

def close (s : NostrSignaling) : NostrSignaling × List Out :=
  if s.closed then (s, [])
  else
    ({ s with
      closed := true
      rooms := .empty
      created := s.created.mapIdx fun i ws =>
        if s.sockets.entries.any fun e => e.2 = i then closeSocket ws else ws
      sockets := .empty },
      s.roomSubIds.flatMap (fun e => s.closeReqOnAll e.1) ++
        s.sockets.entries.map fun e => .closeSocket e.2)

/-! ## Relay frames -/

/-- An answer of a relay to an event, noted with every publish of it that waits. -/
def noteAnswer (s : NostrSignaling) (url eventId : JsString) (ok : Bool) : NostrSignaling :=
  { s with
    publishes := s.publishes.map fun q =>
      if q.event.map (fun e => e.id) = some eventId ∧ q.settled = false then
        { q with answers := q.answers ++ [(url, ok)] }
      else q }

/-- The synchronous part of `decodeContent`. -/
def decodeStage (s : NostrSignaling) (content : Option Json) : DecodeStage :=
  if s.v2Enabled then if s.v2KatError then .decoded none else .kat
  else .decoded (parsePlain content)

/-- `event.kind === SENN_NOSTR_KIND` -/
def hasKind (event : Json) : Bool :=
  match event.get? (js "kind") with
  | some (.num x) => x.eq (.ofNat SENN_NOSTR_KIND)
  | _ => false

def handleEvent (s : NostrSignaling) (subId : JsString) (event : Json) : NostrSignaling :=
  if hasKind event then
    match s.rooms.entries.find? fun e =>
      (s.roomStates[e.2]?.map fun room => room.subId) = some subId with
    | none => s
    | some (roomId, i) =>
      match s.roomStates[i]? with
      | none => s
      | some room =>
        let id := event.get? (js "id")
        if room.delivered.any (sameElement id) then s
        else
          let content := event.get? (js "content")
          { s with
            roomStates := s.roomStates.set i { room with delivered := room.delivered ++ [id] }
            decodes := s.decodes ++ [⟨roomId, i, content, s.decodeStage content⟩] }
  else s

/-- `onRelayMessage` of socket `i`; a socket that is not open hands on nothing. -/
def onRelayMessage (s : NostrSignaling) (i : Nat) (data : JsString) : NostrSignaling × List Out :=
  match s.created[i]?, relayFrame? data with
  | some ⟨url, .opened, _⟩, some frame =>
    match frame with
    | .event subId event => (s.handleEvent subId event, [])
    | .ok eventId ok msg => (s.noteAnswer url eventId ok).callAck eventId ok msg
  | _, _ => (s, [])

def setDecode (s : NostrSignaling) (d : Nat) (stage : DecodeStage) : NostrSignaling :=
  { s with decodes := s.decodes.modify d fun c => { c with stage := stage } }

def decodeKat (s : NostrSignaling) (d : Nat) : NostrSignaling :=
  match s.decodes[d]?, s.kat with
  | some ⟨roomId, _, _, .kat⟩, some ok =>
    if ok then (s.getV2RoomKey roomId).setDecode d .key else s.setDecode d (.decoded none)
  | _, _ => s

/-- One turn of the loop over the handlers, or the code before it. -/
def dispatch (s : NostrSignaling) (d : Nat) : NostrSignaling × List Out :=
  match s.decodes[d]? with
  | some ⟨_, _, _, .decoded message⟩ =>
    match message with
    | some m => (s.setDecode d (if truthy (some m) then .dispatching m 0 else .done), [])
    | none => (s.setDecode d .done, [])
  | some ⟨_, i, _, .dispatching m next⟩ =>
    match (s.roomStates[i]?.map fun room => room.handlers).getD [] |>.find? fun h => next ≤ h.1 with
    | some h => (s.setDecode d (.dispatching m (h.1 + 1)), [.handler h.2 m])
    | none => (s.setDecode d .done, [])
  | _ => (s, [])

section
variable (L : Libraries)

def keyResumed (s : NostrSignaling) (p : Nat) (nonce : Bytes) : NostrSignaling × List Out :=
  match s.publishes[p]? with
  | none => (s, [])
  | some q =>
    if q.stage ≠ .key then (s, [])
    else
      match s.v2RoomKeys.get q.roomId with
      | some (some true) =>
        match encryptV2 L q.message (deriveRoomKey L q.roomId) nonce with
        | some content => (s.setPublish p { q with stage := .encoded content }, [])
        | none => s.failPublish p q .encrypt
      | some (some false) => s.failPublish p q .roomKey
      | _ => (s, [])

/-- `publish` after it encoded the content, up to the first `await` of its loop. -/
def encodedResumed (s : NostrSignaling) (p now : Nat) (ctorOk : Bool) :
    NostrSignaling × List Out :=
  match s.publishes[p]? with
  | none => (s, [])
  | some q =>
    match q.stage with
    | .encoded content =>
      let createdAt := now / 1000
      let tag := SENN_TAG_PREFIX ++ q.roomId
      let id := L.eventId createdAt tag content
      nextRelay { s.setPublish p { q with
          event := some ⟨id, createdAt, tag, content⟩
          timer := true } with
        pendingAcks := s.pendingAcks.set id p } p s.relays ctorOk
    | _ => (s, [])

def decodeKey (s : NostrSignaling) (d : Nat) : NostrSignaling :=
  match s.decodes[d]? with
  | some ⟨roomId, _, content, .key⟩ =>
    match s.v2RoomKeys.get roomId with
    | some (some true) => s.setDecode d (.decoded (decodeV2 L content (deriveRoomKey L roomId)))
    | some (some false) => s.setDecode d .done
    | _ => s
  | _ => s

def step (s : NostrSignaling) : Event → NostrSignaling × List Out
  | .publish roomId message => s.publish roomId message
  | .subscribe roomId handler ctorOk => s.subscribe roomId handler ctorOk
  | .unsubscribe k => s.unsubscribe k
  | .close => s.close
  | .katSettled ok =>
    (if s.v2Enabled ∧ s.kat = none then { s with kat := some ok } else s, [])
  | .katLatched => (if s.kat = some false then { s with v2KatError := true } else s, [])
  | .keySettled roomId ok =>
    (if s.v2RoomKeys.get roomId = some none then
      { s with v2RoomKeys := s.v2RoomKeys.set roomId (some ok) }
    else s, [])
  | .katResumed p => s.katResumed p
  | .keyResumed p nonce => s.keyResumed L p nonce
  | .encodedResumed p now ctorOk => s.encodedResumed L p now ctorOk
  | .relayResumed p sendOk ctorOk => s.relayResumed p sendOk ctorOk
  | .requestResumed r ctorOk => s.requestResumed r ctorOk
  | .ackTimeout p => s.ackTimeout p
  | .socketOpen i reqs => s.socketOpen i reqs
  | .socketClosing i =>
    (match s.created[i]? with
      | some ⟨_, .opened, _⟩ => s.setReadyState i .closing
      | _ => s, [])
  | .socketClosed i => (s.socketClosed i, [])
  | .message i data => s.onRelayMessage i data
  | .decodeKat d => (s.decodeKat d, [])
  | .decodeKey d => (s.decodeKey L d, [])
  | .dispatch d => s.dispatch d

end

end NostrSignaling

end Senn.Nostr
