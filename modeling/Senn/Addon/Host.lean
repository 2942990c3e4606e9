import Senn.Addon.Manifest
import Senn.Lib.InsMap

/-! # `AddonHost`

The host of one add-on as a machine: its fields, the promises it waits for, and
what it does when a window message, an event of the peer link or a call of the
host page arrives, or when one of those promises settles. Events come in any
order; one that finds no handler or no promise does nothing. -/

namespace Senn.Addon
open Senn.Js Senn.Lib Senn.Protocol

def ADDON_BRIDGE_KIND : JsString := js "senn.addon.v1"
def ADDON_BIN_MAX_BYTES : Nat := 4 * 1024 * 1024

inductive AddonHostState where
  | created
  | mounted
  | initialized
  | active
  | closed
deriving DecidableEq

def AddonHostState.text : AddonHostState → JsString
  | .created => js "created"
  | .mounted => js "mounted"
  | .initialized => js "initialized"
  | .active => js "active"
  | .closed => js "closed"

inductive MediaKind where
  | audio
  | video
deriving DecidableEq

namespace MediaKind

def text : MediaKind → JsString
  | .audio => js "audio"
  | .video => js "video"

def sendPermission : MediaKind → JsString
  | .audio => MEDIA_SEND_AUDIO
  | .video => MEDIA_SEND_VIDEO

def receivePermission : MediaKind → JsString
  | .audio => MEDIA_RECEIVE_AUDIO
  | .video => MEDIA_RECEIVE_VIDEO

end MediaKind

/-- The operations the host acts on, of those an iframe may send. -/
inductive BridgeOp where
  | ready
  | send
  | sendBin
  | audioLevelSubscribe
  | audioLevelUnsubscribe
  | mediaSendStart (kind : MediaKind)
  | mediaSendStop (kind : MediaKind)
  | mediaReceiveSubscribe (kind : MediaKind)
  | mediaReceiveUnsubscribe (kind : MediaKind)
  | error
  | storage
deriving DecidableEq

namespace BridgeOp

def text : BridgeOp → JsString
  | .ready => js "ready"
  | .send => js "send"
  | .sendBin => js "send-bin"
  | .audioLevelSubscribe => js "audio.level.subscribe"
  | .audioLevelUnsubscribe => js "audio.level.unsubscribe"
  | .mediaSendStart kind => js "media.send." ++ kind.text ++ js ".start"
  | .mediaSendStop kind => js "media.send." ++ kind.text ++ js ".stop"
  | .mediaReceiveSubscribe kind => js "media.receive." ++ kind.text ++ js ".subscribe"
  | .mediaReceiveUnsubscribe kind => js "media.receive." ++ kind.text ++ js ".unsubscribe"
  | .error => js "error"
  | .storage => js "storage"

def all : List BridgeOp :=
  [.ready, .send, .sendBin, .audioLevelSubscribe, .audioLevelUnsubscribe,
    .mediaSendStart .audio, .mediaSendStop .audio, .mediaSendStart .video, .mediaSendStop .video,
    .mediaReceiveSubscribe .audio, .mediaReceiveUnsubscribe .audio,
    .mediaReceiveSubscribe .video, .mediaReceiveUnsubscribe .video, .error, .storage]

/-- The cases of the switch; `none` is its default. -/
def ofText (op : JsString) : Option BridgeOp := all.find? fun o => o.text = op

end BridgeOp

inductive TrackDirection where
  | outgoing   -- `local`
  | remote
deriving DecidableEq

/-- A message posted to the iframe. -/
inductive BridgePost where
  | init (addonId version sessionId : JsString)
  | deliver (payload : Data) (from_ : Option JsString)
  | deliverBin (mime : JsString) (bytes : Bytes) (from_ : Option JsString)
  | error (code message : JsString)
  | audioLevel (level : Number)
  | mediaTrack (direction : TrackDirection) (track : MediaKind) (added : Bool)
  | storageResult (rid : JsString) (result : Except JsString Data)

/-- A call of the add-on's storage. -/
inductive StorageCall where
  | get (key : JsString)
  | put (key : JsString) (value : Data)
  | delete (key : JsString)
  | list
  | clear

def StorageCall.permission : StorageCall → JsString
  | .get _ | .list => STORAGE_LOCAL_READ
  | .put _ _ | .delete _ | .clear => STORAGE_LOCAL_WRITE

/-- What the host answers with once the call has succeeded. -/
def StorageCall.reply (value : Data) : StorageCall → Data
  | .get _ | .list => value
  | .put _ _ | .delete _ | .clear => .null

/-- How a call of the storage ends. -/
inductive StorageOutcome where
  | ok (value : Data)
  | storageError (code : JsString)
  | failed (message : JsString)

/-- How a capture request ends; an error without a message is `rejected none`. -/
inductive Capture where
  | track (track : Nat)
  | nothing
  | rejected (message : Option JsString)
deriving DecidableEq

/-- What the host page hands to `AddonHost`: which of the optional parts there are. -/
structure AddonPeerLink where
  addLocalTrack : Bool
deriving DecidableEq

structure AddonMediaCaptureProvider where
  requestAudio : Bool
  requestVideo : Bool
deriving DecidableEq

structure AddonMediaSinkProvider where
  attachAudio : Bool
  attachVideo : Bool
deriving DecidableEq

/-- The provider has the request function of a kind. -/
def AddonMediaCaptureProvider.has (p : AddonMediaCaptureProvider) : MediaKind → Bool
  | .audio => p.requestAudio
  | .video => p.requestVideo

/-- The provider has the attach function of a kind. -/
def AddonMediaSinkProvider.has (p : AddonMediaSinkProvider) : MediaKind → Bool
  | .audio => p.attachAudio
  | .video => p.attachVideo

structure AddonHostOptions where
  session : Option AddonPeerLink
  storage : Bool
  mediaCapture : Option AddonMediaCaptureProvider
  mediaSink : Option AddonMediaSinkProvider
deriving DecidableEq

abbrev Window := Nat

structure LocalSender where
  senderId : Nat
  track : Nat
deriving DecidableEq

/-- A host and the promises it waits for. `iframe` is the mounted iframe with its
`contentWindow`. `obtained`, `stopped`, `wantsAudio` and `wantsVideo` are the
tracks captured, the tracks stopped, and whether the last `media.send` message of
a kind was a start; no code reads them. -/
structure AddonHost where
  manifest : AddonManifest
  options : AddonHostOptions
  sessionId : JsString
  iframe : Option (Option Window)
  currentState : AddonHostState
  listening : Bool                              -- to window messages
  bound : Bool                                  -- `detachPeer`
  audioLevelSubscribed : Bool
  mediaSendSenders : InsMap MediaKind LocalSender
  mediaReceiveAudio : Bool
  mediaReceiveVideo : Bool
  mediaSinkDetachers : InsMap MediaKind Nat
  endedListeners : List (Nat × MediaKind)       -- of remote tracks
  counter : Nat                                 -- of `newEnvelopeId`
  capturing : List MediaKind                    -- `requestAudio`, `requestVideo` not settled
  adding : List (MediaKind × Nat)               -- `addLocalTrack` not settled
  removing : List (MediaKind × LocalSender)     -- `handleMediaSendStop` in its `remove`
  closing : Option (Nat × LocalSender)          -- `close` in its `remove` of this entry
  storageCalls : List (JsString × StorageCall)
  textSends : Nat
  binarySends : Nat
  obtained : List (MediaKind × Nat)
  stopped : List Nat
  wantsAudio : Bool
  wantsVideo : Bool

/-- Calls and events. -/
inductive Event where
  | iframeLoad
  | contentWindow (window : Option Window)      -- the container leaves or enters the document
  | message (source : Option Window) (data : Data) (now : Nat)
  | sessionText (json : JsString)
  | sessionBinary (addon mime : JsString) (bytes : Bytes)
  | remoteTrack (kind : MediaKind) (track : Nat) (attached : Except JsString Nat)
  | trackEnded (track : Nat)
  | deliver (payload : Data) (from_ : Option JsString)
  | deliverBinary (mime : JsString) (bytes : Bytes) (from_ : Option JsString)
  | publishAudioLevel (level : Number)
  | close
  | captured (i : Nat) (result : Capture)
  | trackAdded (i : Nat) (result : Except (Option JsString) Nat)
  | senderRemoved (i : Nat) (error : Option JsString)
  | closeSenderRemoved
  | storageSettled (i : Nat) (outcome : StorageOutcome)
  | sendTextRejected (message : JsString)
  | sendBinaryRejected (message : JsString)

/-- What a host lets out. -/
inductive Out where
  | post (m : BridgePost)
  | state (s : AddonHostState)
  | send (payload : Data)
  | error (message : JsString)
  | sendText (text : JsString)
  | sendBinary (addon mime : JsString) (bytes : Bytes)
  | storage (call : StorageCall)
  | capture (kind : MediaKind) (source : Option Data)
  | addLocalTrack (kind : MediaKind) (track : Nat)
  | removeSender (senderId : Nat)
  | stopTrack (track : Nat)
  | attach (kind : MediaKind) (track : Nat)
  | detach (detacher : Nat)
  | rejected (message : JsString)               -- of a call of the host page
  | thrown                                      -- out of the message handler

namespace AddonHost

/-- The constructor. -/
def create (manifest : AddonManifest) (options : AddonHostOptions) (sessionId : JsString) :
    AddonHost where
  manifest := manifest
  options := options
  sessionId := sessionId
  iframe := none
  currentState := .created
  listening := false
  bound := false
  audioLevelSubscribed := false
  mediaSendSenders := .empty
  mediaReceiveAudio := false
  mediaReceiveVideo := false
  mediaSinkDetachers := .empty
  endedListeners := []
  counter := 0
  capturing := []
  adding := []
  removing := []
  closing := none
  storageCalls := []
  textSends := 0
  binarySends := 0
  obtained := []
  stopped := []
  wantsAudio := false
  wantsVideo := false

def grants (s : AddonHost) (permission : JsString) : Bool := permission ∈ s.manifest.permissions

def setState (s : AddonHost) (next : AddonHostState) : AddonHost × List Out :=
  if s.currentState = next then (s, []) else ({ s with currentState := next }, [.state next])

def postToIframe (s : AddonHost) (m : BridgePost) : List Out :=
  match s.iframe with
  | some (some _) => [.post m]
  | _ => []

def postBridgeError (s : AddonHost) (code message : JsString) : List Out :=
  s.postToIframe (.error code message)

def mount (s : AddonHost) (window : Option Window) : AddonHost × List Out :=
  let r := { s with iframe := some window }.setState .mounted
  ({ r.1 with listening := true }, r.2)

def bindToSession (s : AddonHost) : AddonHost := { s with bound := true }

/-- The host `load` returns for a validated manifest. -/
def loaded (manifest : AddonManifest) (options : AddonHostOptions) (sessionId : JsString)
    (window : Option Window) : AddonHost :=
  let s := ((create manifest options sessionId).mount window).1
  if options.session.isSome then s.bindToSession else s

def initMessage (s : AddonHost) : BridgePost :=
  .init s.manifest.id s.manifest.version s.sessionId

def onIframeLoad (s : AddonHost) : AddonHost × List Out :=
  if s.currentState ≠ .mounted then (s, [])
  else
    let r := s.setState .initialized
    (r.1, r.2 ++ r.1.postToIframe r.1.initMessage)

def ensureInitPosted (s : AddonHost) : AddonHost × List Out :=
  if s.currentState = .mounted then
    let r := s.setState .initialized
    (r.1, r.2 ++ r.1.postToIframe r.1.initMessage)
  else (s, [])

def handleReady (s : AddonHost) : AddonHost × List Out :=
  let r := s.ensureInitPosted
  if r.1.currentState = .initialized then
    let r' := r.1.setState .active
    (r'.1, r.2 ++ r'.2)
  else r

/-- `newEnvelopeId()` at time `now`, with the next counter. -/
def newEnvelopeId (counter now : Nat) : Nat × JsString :=
  let counter := (counter + 1) % 0xffffff
  (counter, js "addon_" ++ natText 36 now ++ js "_" ++ natText 36 counter)

/-- The envelope around a payload. -/
def envelope (s : AddonHost) (id : JsString) (now : Nat) (payload : Data) : Data :=
  .obj [(js "id", .str id), (js "kind", .str (js "addon.message")),
    (js "addon", .str s.manifest.id), (js "version", .str s.manifest.version),
    (js "createdAt", .num (.ofNat now)), (js "payload", payload)]

/-- The text of a JSON value, if there is one. -/
def stringified (v : Data) : Option JsString := v.toJson.bind fun json => json.map Json.stringify

def handleSend (s : AddonHost) (payload : Data) (now : Nat) : AddonHost × List Out :=
  if !s.grants PEER_SEND then
    (s, [.error (js "addon attempted send without peer.send permission")])
  else if s.options.session.isNone then (s, [.send payload])
  else
    let id := newEnvelopeId s.counter now
    let value := s.envelope id.2 now payload
    match validateAddonEnvelope value, stringified value with
    | .ok _, some text =>
      ({ s with counter := id.1, textSends := s.textSends + 1 }, [.send payload, .sendText text])
    | _, _ => ({ s with counter := id.1 }, [.send payload, .thrown])

def handleSendBin (s : AddonHost) (mime bytes : Data) : AddonHost × List Out :=
  if !s.grants PEER_SEND_BIN then
    (s, s.postBridgeError (js "permission-denied")
      (js "addon attempted send-bin without peer.send.bin permission"))
  else
    match mime.str?, bytes.bytes? with
    | some mime, some bytes =>
      if bytes.length > ADDON_BIN_MAX_BYTES then
        (s, s.postBridgeError (js "payload-too-large")
          (js "send-bin: " ++ natText 10 bytes.length ++ js "B exceeds " ++
            natText 10 ADDON_BIN_MAX_BYTES ++ js "B"))
      else if s.options.session.isNone then
        (s, s.postBridgeError (js "not-connected") (js "send-bin: no peer link"))
      else
        ({ s with binarySends := s.binarySends + 1 }, [.sendBinary s.manifest.id mime bytes])
    | _, _ =>
      (s, s.postBridgeError (js "bad-payload")
        (js "send-bin: mime must be string and bytes must be Uint8Array"))

def handleAudioLevelSubscribe (s : AddonHost) : AddonHost × List Out :=
  if !s.grants AUDIO_LEVEL then
    (s, s.postBridgeError (js "permission-denied")
      (js "addon attempted audio.level.subscribe without audio.level permission"))
  else ({ s with audioLevelSubscribed := true }, [])

/-- `media.track` for the track of a kind the host sends. -/
def localTrack (kind : MediaKind) (added : Bool) : BridgePost := .mediaTrack .outgoing kind added

/-- `handleMediaSendStart` up to its first `await`; without a request function
there is nothing to wait for. `source` is an option of the video kind. -/
def handleMediaSendStart (s : AddonHost) (kind : MediaKind) (source : Option Data) :
    AddonHost × List Out :=
  if !s.grants kind.sendPermission then
    (s, s.postBridgeError (js "permission-denied") (js "addon lacks " ++ kind.sendPermission))
  else
    match s.options.mediaCapture with
    | none =>
      (s, s.postBridgeError (js "device-unavailable") (js "no host mediaCapture provider configured"))
    | some provider =>
      if !s.options.session.any (·.addLocalTrack) then
        (s, s.postBridgeError (js "not-connected") (js "no peer link with addLocalTrack support"))
      else if (s.mediaSendSenders.get kind).isSome then (s, s.postToIframe (localTrack kind true))
      else if provider.has kind then
        ({ s with capturing := s.capturing ++ [kind] }, [.capture kind source])
      else
        (s, s.postBridgeError (js "device-unavailable")
          (js "host returned no " ++ kind.text ++ js " track"))

/-- `handleMediaSendStart` after the capture request. -/
def captured (s : AddonHost) (i : Nat) (result : Capture) : AddonHost × List Out :=
  match s.capturing[i]? with
  | none => (s, [])
  | some kind =>
    let s := { s with capturing := s.capturing.eraseIdx i }
    match result with
    | .track track =>
      ({ s with adding := s.adding ++ [(kind, track)], obtained := s.obtained ++ [(kind, track)] },
        [.addLocalTrack kind track])
    | .nothing =>
      (s, s.postBridgeError (js "device-unavailable")
        (js "host returned no " ++ kind.text ++ js " track"))
    | .rejected message =>
      (s, s.postBridgeError (js "user-denied") (message.getD (js "capture failed")))

/-- `handleMediaSendStart` after `addLocalTrack`. -/
def trackAdded (s : AddonHost) (i : Nat) (result : Except (Option JsString) Nat) :
    AddonHost × List Out :=
  match s.adding[i]? with
  | none => (s, [])
  | some (kind, track) =>
    let s := { s with adding := s.adding.eraseIdx i }
    match result with
    | .ok senderId =>
      let s := { s with mediaSendSenders := s.mediaSendSenders.set kind ⟨senderId, track⟩ }
      (s, s.postToIframe (localTrack kind true))
    | .error message =>
      let s := { s with stopped := track :: s.stopped }
      (s, .stopTrack track ::
        s.postBridgeError (js "not-connected") (message.getD (js "addLocalTrack failed")))

/-- `handleMediaSendStop` up to its `await`. -/
def handleMediaSendStop (s : AddonHost) (kind : MediaKind) : AddonHost × List Out :=
  match s.mediaSendSenders.get kind with
  | none => (s, [])
  | some sender =>
    ({ s with
      mediaSendSenders := s.mediaSendSenders.delete kind
      removing := s.removing ++ [(kind, sender)] }, [.removeSender sender.senderId])

/-- `handleMediaSendStop` after `sender.remove()`. -/
def senderRemoved (s : AddonHost) (i : Nat) (error : Option JsString) : AddonHost × List Out :=
  match s.removing[i]? with
  | none => (s, [])
  | some (kind, sender) =>
    let s := { s with removing := s.removing.eraseIdx i, stopped := sender.track :: s.stopped }
    (s, (error.map Out.error).toList ++ .stopTrack sender.track ::
      s.postToIframe (localTrack kind false))

def setReceive (s : AddonHost) (kind : MediaKind) (on : Bool) : AddonHost :=
  match kind with
  | .audio => { s with mediaReceiveAudio := on }
  | .video => { s with mediaReceiveVideo := on }

def receives (s : AddonHost) : MediaKind → Bool
  | .audio => s.mediaReceiveAudio
  | .video => s.mediaReceiveVideo

def handleMediaReceiveSubscribe (s : AddonHost) (kind : MediaKind) : AddonHost × List Out :=
  if !s.grants kind.receivePermission then
    (s, s.postBridgeError (js "permission-denied") (js "addon lacks " ++ kind.receivePermission))
  else if s.options.mediaSink.isNone then
    (s, s.postBridgeError (js "device-unavailable") (js "no host mediaSink provider configured"))
  else (s.setReceive kind true, [])

def handleMediaReceiveUnsubscribe (s : AddonHost) (kind : MediaKind) : AddonHost × List Out :=
  let s := s.setReceive kind false
  match s.mediaSinkDetachers.get kind with
  | none => (s, [])
  | some detach =>
    ({ s with mediaSinkDetachers := s.mediaSinkDetachers.delete kind }, [.detach detach])

/-- `handleRemoteTrack`; `attached` is what `attach` returns or throws. -/
def handleRemoteTrack (s : AddonHost) (kind : MediaKind) (track : Nat)
    (attached : Except JsString Nat) : AddonHost × List Out :=
  if !s.receives kind || !s.options.mediaSink.any (·.has kind) then (s, [])
  else
    match attached with
    | .error message => (s, [.attach kind track, .error message])
    | .ok detach =>
      ({ s with
        mediaSinkDetachers := s.mediaSinkDetachers.set kind detach
        endedListeners := s.endedListeners ++ [(track, kind)] },
        .attach kind track :: ((s.mediaSinkDetachers.get kind).map Out.detach).toList ++
          s.postToIframe (.mediaTrack .remote kind true))

/-- The `ended` listener of a remote track. -/
def remoteTrackEnded (s : AddonHost) (kind : MediaKind) : AddonHost × List Out :=
  ({ s with mediaSinkDetachers := s.mediaSinkDetachers.delete kind },
    s.postToIframe (.mediaTrack .remote kind false))

/-- A remote track ends: its listeners run one after the other. -/
def trackEnded (s : AddonHost) (track : Nat) : AddonHost × List Out :=
  (s.endedListeners.filter (·.1 = track)).foldl (fun r listener =>
    let r' := r.1.remoteTrackEnded listener.2
    (r'.1, r.2 ++ r'.2)) (s, [])

def storageReply (s : AddonHost) (rid : JsString) (value : Data) : List Out :=
  s.postToIframe (.storageResult rid (.ok value))

def storageError (s : AddonHost) (rid error : JsString) : List Out :=
  s.postToIframe (.storageResult rid (.error error))

/-- The call a storage message asks for; `none` is an invalid request. -/
def storageCall (op key value : Data) : Option StorageCall :=
  match op.str?, key.str? with
  | some op, some key =>
    if op = js "get" then some (.get key)
    else if op = js "put" then some (.put key value)
    else if op = js "delete" then some (.delete key)
    else if op = js "list" then some .list
    else if op = js "clear" then some .clear
    else none
  | some op, none =>
    if op = js "list" then some .list else if op = js "clear" then some .clear else none
  | none, _ => none

/-- `handleStorage` up to its first `await`. -/
def handleStorage (s : AddonHost) (rid op key value : Data) : AddonHost × List Out :=
  match rid.str? with
  | none => (s, [])
  | some rid =>
    let needsRead := op.str? = some (js "get") || op.str? = some (js "list")
    let needsWrite := op.str? = some (js "put") || op.str? = some (js "delete") ||
      op.str? = some (js "clear")
    if rid = [] then (s, [])
    else if s.currentState = .closed then (s, s.storageError rid (js "closed"))
    else if !s.options.storage then (s, s.storageError rid (js "permission-denied"))
    else if needsRead && !s.grants STORAGE_LOCAL_READ then
      (s, s.storageError rid (js "permission-denied"))
    else if needsWrite && !s.grants STORAGE_LOCAL_WRITE then
      (s, s.storageError rid (js "permission-denied"))
    else
      match storageCall op key value with
      | none => (s, s.storageError rid (js "invalid-request"))
      | some call => ({ s with storageCalls := s.storageCalls ++ [(rid, call)] }, [.storage call])

/-- `handleStorage` after the call. -/
def storageSettled (s : AddonHost) (i : Nat) (outcome : StorageOutcome) : AddonHost × List Out :=
  match s.storageCalls[i]? with
  | none => (s, [])
  | some (rid, call) =>
    let s := { s with storageCalls := s.storageCalls.eraseIdx i }
    match outcome with
    | .ok value => (s, s.storageReply rid (call.reply value))
    | .storageError code => (s, s.storageError rid code)
    | .failed message => (s, s.storageError rid (js "invalid-request") ++ [.error message])

/-- Whether the last start or stop message of a kind was a start. -/
def setWants (s : AddonHost) (kind : MediaKind) (on : Bool) : AddonHost :=
  match kind with
  | .audio => { s with wantsAudio := on }
  | .video => { s with wantsVideo := on }

def wants (s : AddonHost) : MediaKind → Bool
  | .audio => s.wantsAudio
  | .video => s.wantsVideo

/-- `msg.source` of a video start, where it is there. -/
def startSource (msg : Data) : MediaKind → Option Data
  | .audio => none
  | .video => if (msg.get (js "source")).truthy then some (msg.get (js "source")) else none

/-- The cases of `handleWindowMessage`. -/
def handleOp (s : AddonHost) (msg : Data) (now : Nat) : BridgeOp → AddonHost × List Out
  | .ready => s.handleReady
  | .send => s.handleSend (msg.get (js "payload")) now
  | .sendBin => s.handleSendBin (msg.get (js "mime")) (msg.get (js "bytes"))
  | .audioLevelSubscribe => s.handleAudioLevelSubscribe
  | .audioLevelUnsubscribe => ({ s with audioLevelSubscribed := false }, [])
  | .mediaSendStart kind => (s.setWants kind true).handleMediaSendStart kind (startSource msg kind)
  | .mediaSendStop kind => (s.setWants kind false).handleMediaSendStop kind
  | .mediaReceiveSubscribe kind => s.handleMediaReceiveSubscribe kind
  | .mediaReceiveUnsubscribe kind => s.handleMediaReceiveUnsubscribe kind
  | .error =>
    match (msg.get (js "message")).text with
    | some text => (s, [.error (js "addon: " ++ text)])
    | none => (s, [.thrown])
  | .storage =>
    s.handleStorage (msg.get (js "rid")) (msg.get (js "storage")) (msg.get (js "key"))
      (msg.get (js "value"))

/-- The operation of a bridge message, if the value is one. -/
def bridgeOp (msg : Data) : Option BridgeOp :=
  if msg.isObject && (msg.get (js "kind")).str? = some ADDON_BRIDGE_KIND then
    (msg.get (js "op")).str?.bind BridgeOp.ofText
  else none

def handleWindowMessage (s : AddonHost) (source : Option Window) (data : Data) (now : Nat) :
    AddonHost × List Out :=
  if s.iframe ≠ some source then (s, [])
  else
    match bridgeOp data with
    | none => (s, [])
    | some op => s.handleOp data now op

/-- `deliver`: what it posts, or the message it rejects with. -/
def deliver (s : AddonHost) (payload : Data) (from_ : Option JsString) :
    Except JsString (List Out) :=
  if s.currentState ≠ .active then
    .error (js "AddonHost.deliver() called in state " ++ s.currentState.text)
  else if !s.grants PEER_RECEIVE then .error (js "addon manifest does not declare peer.receive")
  else .ok (s.postToIframe (.deliver payload from_))

/-- `deliverBinary` -/
def deliverBinary (s : AddonHost) (mime : JsString) (bytes : Bytes) (from_ : Option JsString) :
    Except JsString (List Out) :=
  if s.currentState ≠ .active then
    .error (js "AddonHost.deliverBinary() called in state " ++ s.currentState.text)
  else if !s.grants PEER_RECEIVE_BIN then
    .error (js "addon manifest does not declare peer.receive.bin")
  else .ok (s.postToIframe (.deliverBin mime bytes from_))

/-- The outputs of a call, its rejection reported by `report`. -/
def settled (report : JsString → Out) : Except JsString (List Out) → List Out
  | .ok outs => outs
  | .error message => [report message]

def onSessionText (s : AddonHost) (json : JsString) : List Out :=
  match tryParseAddonEnvelope json with
  | none => []
  | some envelope =>
    if envelope.addon ≠ s.manifest.id then []
    else settled .error (s.deliver envelope.payload (some envelope.addon))

def onSessionBinary (s : AddonHost) (addon mime : JsString) (bytes : Bytes) : List Out :=
  if addon ≠ s.manifest.id then []
  else if !s.grants PEER_RECEIVE_BIN then []
  else settled .error (s.deliverBinary mime bytes (some addon))

def publishAudioLevel (s : AddonHost) (level : Number) : List Out :=
  if !s.audioLevelSubscribed then []
  else if s.currentState ≠ .active then []
  else
    match level with
    | .fin q => s.postToIframe (.audioLevel (.fin (if q < 0 then 0 else if q > 1 then 1 else q)))
    | _ => []

/-- `close` after its loop over the senders. -/
def closeRest (s : AddonHost) : AddonHost × List Out :=
  ({ s with
    closing := none
    mediaSendSenders := .empty
    mediaSinkDetachers := .empty
    mediaReceiveAudio := false
    mediaReceiveVideo := false
    iframe := none }, s.mediaSinkDetachers.entries.map fun e => .detach e.2)

/-- The loop of `close` at the entry with index `n`; the iterator of the map sees
entries that are added on the way. -/
def closeFrom (s : AddonHost) (n : Nat) : AddonHost × List Out :=
  match s.mediaSendSenders.entries[n]? with
  | some (_, sender) => ({ s with closing := some (n, sender) }, [.removeSender sender.senderId])
  | none => s.closeRest

def close (s : AddonHost) : AddonHost × List Out :=
  if s.currentState = .closed then (s, [])
  else
    let r := s.setState .closed
    let r' := { r.1 with
      listening := false
      bound := false
      audioLevelSubscribed := false }.closeFrom 0
    (r'.1, r.2 ++ r'.2)

/-- `close` after `sender.remove()`, which may have failed. -/
def closeSenderRemoved (s : AddonHost) : AddonHost × List Out :=
  match s.closing with
  | none => (s, [])
  | some (n, sender) =>
    let r := { s with stopped := sender.track :: s.stopped }.closeFrom (n + 1)
    (r.1, .stopTrack sender.track :: r.2)

def step (s : AddonHost) : Event → AddonHost × List Out
  | .iframeLoad => s.onIframeLoad
  | .contentWindow window => ({ s with iframe := s.iframe.map fun _ => window }, [])
  | .message source data now =>
    if s.listening then s.handleWindowMessage source data now else (s, [])
  | .sessionText json => (s, if s.bound then s.onSessionText json else [])
  | .sessionBinary addon mime bytes =>
    (s, if s.bound then s.onSessionBinary addon mime bytes else [])
  | .remoteTrack kind track attached =>
    if s.bound then s.handleRemoteTrack kind track attached else (s, [])
  | .trackEnded track => s.trackEnded track
  | .deliver payload from_ => (s, settled .rejected (s.deliver payload from_))
  | .deliverBinary mime bytes from_ => (s, settled .rejected (s.deliverBinary mime bytes from_))
  | .publishAudioLevel level => (s, s.publishAudioLevel level)
  | .close => s.close
  | .captured i result => s.captured i result
  | .trackAdded i result => s.trackAdded i result
  | .senderRemoved i error => s.senderRemoved i error
  | .closeSenderRemoved => s.closeSenderRemoved
  | .storageSettled i outcome => s.storageSettled i outcome
  | .sendTextRejected message =>
    if s.textSends = 0 then (s, [])
    else ({ s with textSends := s.textSends - 1 }, [.error message])
  | .sendBinaryRejected message =>
    if s.binarySends = 0 then (s, [])
    else
      ({ s with binarySends := s.binarySends - 1 },
        s.postBridgeError (js "not-connected") message)

end AddonHost

end Senn.Addon
