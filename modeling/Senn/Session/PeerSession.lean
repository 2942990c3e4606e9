import Senn.Session.Rtc
import Senn.Core.Reassembly
import Senn.Core.SendBinary
import Senn.Protocol.Ids

/-! # `PeerSession`

The session as a machine: its fields, the promises it waits for, and what it
does when it is called, when an event of the connection, of a channel or of the
signaling transport arrives, or when one of those promises settles. Events come
in any order; one that finds no handler or no promise does nothing. -/

namespace Senn.Session
open Senn.Js Senn.Lib Senn.Core Senn.Protocol

inductive PeerSessionRole where
  | inviter
  | joiner
deriving DecidableEq

inductive SignalingMessage where
  | offer (from_ : JsString) (sdp : Sdp)
  | answer (from_ to_ : JsString) (sdp : Sdp)
  | ice (from_ to_ candidate : JsString)
  | bye (from_ : JsString)
deriving DecidableEq

/-- `msg.from` -/
def SignalingMessage.sender : SignalingMessage → JsString
  | .offer f _ => f
  | .answer f _ _ => f
  | .ice f _ _ => f
  | .bye f => f

/-- `msg.to`, of the kinds that have one. -/
def SignalingMessage.target : SignalingMessage → Option JsString
  | .answer _ t _ => some t
  | .ice _ t _ => some t
  | _ => none

/-- An operation of the connection's chain, with the code that awaits it. -/
inductive Task where
  | negotiation                        -- `runNegotiation`
  | offer (sdp : Sdp)                  -- `setRemoteDescription` of an offer
  | answering (sdp : Sdp)              -- `setLocalDescription` after that offer
  | answer (sdp : Sdp)                 -- `setRemoteDescription` of an answer
  | ice (candidate : JsString)
deriving DecidableEq

def Task.op : Task → RtcOp
  | .negotiation => .setLocalDescription
  | .offer sdp => .setRemoteOffer sdp
  | .answering _ => .setLocalDescription
  | .answer sdp => .setRemoteAnswer sdp
  | .ice candidate => .addIceCandidate candidate

inductive ChannelKind where
  | text
  | bin
deriving DecidableEq

/-- A data channel the session bound its handlers to. -/
structure Channel where
  kind : ChannelKind
  closed : Bool
deriving DecidableEq

def TEXT_CHANNEL_LABEL : JsString := js "core.text"
def BIN_CHANNEL_LABEL : JsString := js "core.bin"

/-- A session and the promises it waits for. `rtc` is the connection `start`
made and `pc` whether `this.pc` still refers to it; `channel` and `binChannel`
refer into `channels`. `closeResolved` tells whether a call of `close` has
resolved; no code reads it. -/
structure PeerSession where
  role : PeerSessionRole
  localPeerId : JsString
  remotePeerId : Option JsString
  currentState : PeerSessionState
  rtc : Option Rtc
  pc : Bool
  channels : List Channel
  channel : Option Nat
  binChannel : Option Nat
  signalingUnsub : Bool
  reassembly : Reassembly
  makingOffer : Bool
  ignoreOffer : Bool
  chain : List Task                    -- operations not completed yet
  offerPublishes : Nat                 -- `runNegotiation` in its publish
  answerPublishes : Nat
  closing : Nat                        -- `close` in its publish
  blobs : List Bytes                   -- `Blob.arrayBuffer()` not settled yet
  closeResolved : Bool
deriving DecidableEq

def PeerSession.new (role : PeerSessionRole) (localPeerId : JsString)
    (remotePeerId : Option JsString) : PeerSession where
  role := role
  localPeerId := localPeerId
  remotePeerId := remotePeerId
  currentState := .idle
  rtc := none
  pc := false
  channels := []
  channel := none
  binChannel := none
  signalingUnsub := false
  reassembly := .init
  makingOffer := false
  ignoreOffer := false
  chain := []
  offerPublishes := 0
  answerPublishes := 0
  closing := 0
  blobs := []
  closeResolved := false

/-- What a message of the binary channel carries. -/
inductive BinData where
  | arrayBuffer (buf : Bytes)
  | blob (buf : Bytes)
  | other
deriving DecidableEq

inductive ConnectionState where
  | new
  | connecting
  | connected
  | disconnected
  | failed
  | closed
deriving DecidableEq

/-- Calls and events; a channel's event names the channel. -/
inductive Event where
  | start
  | close
  | negotiationNeeded
  | iceCandidate (candidate : Option JsString)
  | connectionStateChange (s : ConnectionState)
  | dataChannel (label : JsString)
  | channelOpen (i : Nat)
  | channelClose (i : Nat)
  | channelError (i : Nat)
  | textMessage (i : Nat) (data : Option JsString)
  | binMessage (i now : Nat) (data : BinData)
  | blobRead (k now : Nat)
  | gcTick (now : Nat)
  | signaling (msg : SignalingMessage)
  | operationDone (ok : Bool)
  | offerPublished (ok : Bool)
  | answerPublished (ok : Bool)
  | byePublished
deriving DecidableEq

/-- What the `error` event reports. -/
inductive SessionError where
  | channel
  | negotiation
  | signaling
deriving DecidableEq

/-- What a session lets out. A published answer comes with the offer whose
handler publishes it. -/
inductive Out where
  | state (s : PeerSessionState)
  | publish (m : SignalingMessage) (answered : Option Sdp)
  | text (data : JsString)
  | bin (e : BinEvent)
  | error (e : SessionError)
  | startRejected (s : PeerSessionState)
  | closeResolved
deriving DecidableEq

namespace PeerSession

def isPolite (s : PeerSession) : Bool := s.role = .joiner

def setState (s : PeerSession) (next : PeerSessionState) : PeerSession × List Out :=
  if s.currentState = next then (s, []) else ({ s with currentState := next }, [.state next])

def bindDataChannel (s : PeerSession) : PeerSession :=
  { s with
    channels := s.channels ++ [⟨.text, false⟩]
    channel := some s.channels.length }

def bindBinaryChannel (s : PeerSession) : PeerSession :=
  { s with
    channels := s.channels ++ [⟨.bin, false⟩]
    binChannel := some s.channels.length }

/-- The channels `start` makes, or waits for. -/
def openChannels (s : PeerSession) : PeerSession :=
  if s.role = .inviter then s.bindDataChannel.bindBinaryChannel else s

def start (s : PeerSession) : PeerSession × List Out :=
  if s.currentState ≠ .idle then (s, [.startRejected s.currentState])
  else
    let r := s.setState .connecting
    ({ openChannels { r.1 with rtc := some .new, pc := true } with signalingUnsub := true }, r.2)

/-- `runNegotiation` up to its first `await`. -/
def runNegotiation (s : PeerSession) : PeerSession :=
  if s.pc then { s with makingOffer := true, chain := s.chain ++ [.negotiation] } else s

/-- The `finally` block of `close`; a closed connection closes its channels. -/
def teardown (s : PeerSession) : PeerSession :=
  { s with
    signalingUnsub := false
    channel := none
    binChannel := none
    channels := s.channels.map fun c => { c with closed := true }
    rtc := s.rtc.map fun pc => { pc with closed := true }
    pc := false
    reassembly := s.reassembly.clear
    closeResolved := true }

def close (s : PeerSession) : PeerSession × List Out :=
  if s.currentState = .closed then ({ s with closeResolved := true }, [.closeResolved])
  else
    let r := s.setState .closed
    if s.currentState ≠ .idle then
      ({ r.1 with closing := r.1.closing + 1 }, r.2 ++ [.publish (.bye s.localPeerId) none])
    else (r.1.teardown, r.2 ++ [.closeResolved])

def handleBinaryFrame (s : PeerSession) (now : Nat) (buf : Bytes) : PeerSession × List Out :=
  let r := s.reassembly.handleBinaryFrame now buf
  ({ s with reassembly := r.1 }, r.2.map .bin)

/-- The checks on the sender and the addressee of a message. -/
def accepts (s : PeerSession) (msg : SignalingMessage) : Bool :=
  isPeerId msg.sender && msg.sender ≠ s.localPeerId &&
    s.remotePeerId.all (fun remote => msg.sender = remote) &&
    msg.target.all fun t => isPeerId t && t = s.localPeerId

def offerCollision (s : PeerSession) (pc : Rtc) : Bool := s.makingOffer || pc.hasLocalOffer

/-- The kinds of a message, each up to its first `await`. -/
def handleKind (s : PeerSession) (pc : Rtc) : SignalingMessage → PeerSession × List Out
  | .offer sender sdp =>
    let s := { s with ignoreOffer := !s.isPolite && s.offerCollision pc }
    if s.ignoreOffer then (s, [])
    else
      ({ s with
        remotePeerId := s.remotePeerId.or (some sender)
        chain := s.chain ++ [.offer sdp] }, [])
  | .answer sender _ sdp =>
    ({ s with
      remotePeerId := s.remotePeerId.or (some sender)
      chain := s.chain ++ [.answer sdp] }, [])
  | .ice _ _ candidate => ({ s with chain := s.chain ++ [.ice candidate] }, [])
  | .bye _ => s.close

def handleSignalingMessage (s : PeerSession) (msg : SignalingMessage) : PeerSession × List Out :=
  if !s.accepts msg || !s.pc then (s, [])
  else
    match s.rtc with
    | none => (s, [])
    | some pc => s.handleKind pc msg

/-- The code after the operation of `task` was fulfilled. -/
def fulfilled (s : PeerSession) (pc : Rtc) : Task → PeerSession × List Out
  | .negotiation =>
    match pc.localDescription with
    | none => ({ s with makingOffer := false }, [])
    | some sdp =>
      ({ s with offerPublishes := s.offerPublishes + 1 },
        [.publish (.offer s.localPeerId sdp) none])
  | .offer sdp => ({ s with chain := s.chain ++ [.answering sdp] }, [])
  | .answering offer =>
    match pc.localDescription with
    | none => (s, [])
    | some sdp =>
      ({ s with answerPublishes := s.answerPublishes + 1 },
        [.publish (.answer s.localPeerId (s.remotePeerId.getD (js "null")) sdp) (some offer)])
  | .answer _ => (s, [])
  | .ice _ => (s, [])

/-- The code after the operation of `task` was rejected. -/
def rejected (s : PeerSession) : Task → PeerSession × List Out
  | .negotiation => ({ s with makingOffer := false }, [.error .negotiation])
  | .offer _ => (s, [.error .signaling])
  | .answering _ => (s, [.error .signaling])
  | .answer _ => (s, if s.ignoreOffer then [] else [.error .signaling])
  | .ice _ => (s, if s.ignoreOffer then [] else [.error .signaling])

/-- The first operation of the chain ends; `ok` is false where it fails for a
reason of its own. A closed connection ends none. -/
def operationDone (s : PeerSession) (ok : Bool) : PeerSession × List Out :=
  match s.rtc, s.chain with
  | some pc, task :: rest =>
    if pc.closed then (s, [])
    else
      match if ok then pc.run task.op else none with
      | some pc => fulfilled { s with rtc := some pc, chain := rest } pc task
      | none => rejected { s with chain := rest } task
  | _, _ => (s, [])

def step (s : PeerSession) : Event → PeerSession × List Out
  | .start => s.start
  | .close => s.close
  | .negotiationNeeded => (if s.rtc = none then s else s.runNegotiation, [])
  | .iceCandidate candidate =>
    match s.rtc, candidate, s.remotePeerId with
    | some _, some candidate, some remote =>
      (s, [.publish (.ice s.localPeerId remote candidate) none])
    | _, _, _ => (s, [])
  | .connectionStateChange cs =>
    if s.rtc = none then (s, [])
    else
      match cs with
      | .failed => if s.currentState ≠ .closed then s.setState .failed else (s, [])
      | .closed => if s.currentState ≠ .closed then s.setState .closed else (s, [])
      | _ => (s, [])
  | .dataChannel label =>
    match s.rtc with
    | none => (s, [])
    | some pc =>
      if pc.closed || s.role = .inviter then (s, [])
      else if label = TEXT_CHANNEL_LABEL then (s.bindDataChannel, [])
      else if label = BIN_CHANNEL_LABEL then (s.bindBinaryChannel, [])
      else (s, [])   -- closed at once
  | .channelOpen i =>
    match s.channels[i]? with
    | some ⟨.text, _⟩ => s.setState .connected
    | _ => (s, [])
  | .channelClose i =>
    match s.channels[i]? with
    | some ⟨.text, _⟩ => if s.currentState ≠ .closed then s.setState .closed else (s, [])
    | _ => (s, [])
  | .channelError i => (s, if i < s.channels.length then [.error .channel] else [])
  | .textMessage i data =>
    match s.channels[i]?, data with
    | some ⟨.text, _⟩, some data => (s, [.text data])
    | _, _ => (s, [])
  | .binMessage i now data =>
    match s.channels[i]? with
    | some ⟨.bin, _⟩ =>
      match data with
      | .arrayBuffer buf => s.handleBinaryFrame now buf
      | .blob buf => ({ s with blobs := s.blobs ++ [buf] }, [])
      | .other => (s, [.bin (.error .unexpectedNonBinary)])
    | _ => (s, [])
  | .blobRead k now =>
    match s.blobs[k]? with
    | some buf => handleBinaryFrame { s with blobs := s.blobs.eraseIdx k } now buf
    | none => (s, [])
  | .gcTick now =>
    let r := s.reassembly.step (.gcTick now)
    ({ s with reassembly := r.1 }, r.2.map .bin)
  | .signaling msg => if s.signalingUnsub then s.handleSignalingMessage msg else (s, [])
  | .operationDone ok => s.operationDone ok
  | .offerPublished ok =>
    if s.offerPublishes = 0 then (s, [])
    else
      ({ s with offerPublishes := s.offerPublishes - 1, makingOffer := false },
        if ok then [] else [.error .negotiation])
  | .answerPublished ok =>
    if s.answerPublishes = 0 then (s, [])
    else
      ({ s with answerPublishes := s.answerPublishes - 1 },
        if ok then [] else [.error .signaling])
  | .byePublished =>
    if s.closing = 0 then (s, [])
    else (teardown { s with closing := s.closing - 1 }, [.closeResolved])

end PeerSession

end Senn.Session
