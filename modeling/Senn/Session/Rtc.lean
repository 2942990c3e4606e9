import Senn.Js.Text

/-! # The peer connection

What `PeerSession` relies on of `RTCPeerConnection`: the signaling states with
the description that is pending in them, and the operations of the connection's
chain, which run one at a time. A call without arguments makes an answer when
an offer of the other side is pending and an offer otherwise; an offer of the
other side rolls an own one back. -/

namespace Senn.Session
open Senn.Js

/-- A description: made here as an offer, made here as the answer to an offer,
or some other text. -/
inductive Sdp where
  | offer (n : Nat)
  | answer (n : Nat) (remote : Sdp)
  | text (s : JsString)
deriving DecidableEq

/-- `signalingState`, with `pendingLocalDescription` or `pendingRemoteDescription`. -/
inductive Signaling where
  | stable
  | haveLocalOffer (pendingLocal : Sdp)
  | haveRemoteOffer (pendingRemote : Sdp)
deriving DecidableEq

/-- `created` counts the descriptions made so far. -/
structure Rtc where
  signaling : Signaling
  currentLocal : Option Sdp
  created : Nat
  closed : Bool
deriving DecidableEq

inductive RtcOp where
  | setLocalDescription
  | setRemoteOffer (sdp : Sdp)
  | setRemoteAnswer (sdp : Sdp)
  | addIceCandidate (candidate : JsString)
deriving DecidableEq

namespace Rtc

def new : Rtc := ⟨.stable, none, 0, false⟩

/-- `pc.localDescription` -/
def localDescription (pc : Rtc) : Option Sdp :=
  match pc.signaling with
  | .haveLocalOffer sdp => some sdp
  | _ => pc.currentLocal

/-- `signalingState` is neither `stable` nor `have-remote-offer`. -/
def hasLocalOffer (pc : Rtc) : Bool :=
  match pc.signaling with
  | .haveLocalOffer _ => true
  | _ => false

/-- `setLocalDescription()` -/
def setLocalDescription (pc : Rtc) : Rtc :=
  match pc.signaling with
  | .haveRemoteOffer remote =>
    { pc with
      signaling := .stable
      currentLocal := some (.answer pc.created remote)
      created := pc.created + 1 }
  | _ =>
    { pc with
      signaling := .haveLocalOffer (.offer pc.created)
      created := pc.created + 1 }

/-- An operation at its turn; `none` is an InvalidStateError. -/
def run (pc : Rtc) : RtcOp → Option Rtc
  | .setLocalDescription => some pc.setLocalDescription
  | .setRemoteOffer sdp => some { pc with signaling := .haveRemoteOffer sdp }
  | .setRemoteAnswer _ =>
    match pc.signaling with
    | .haveLocalOffer sdp => some { pc with signaling := .stable, currentLocal := some sdp }
    | _ => none
  | .addIceCandidate _ => some pc

end Rtc

end Senn.Session
