import Senn.Protocol.Bundle
import Senn.Session.Closing
import Senn.Session.Negotiation
import Senn.Session.Pinning

/-! # Signaling messages as they come

A transport hands the session whatever it received. `handleSignalingValue` is
the handler on such a value; on a valid message it is
`handleSignalingMessage`, and on any other value it acts or not by the few
fields it reads. -/

namespace Senn.Session
open Senn.Js Senn.Lib Senn.Core Senn.Protocol

/-- A call of the connection, with the argument it is given. -/
inductive RtcCall where
  | setRemoteDescription (type : JsString) (sdp : Data)
  | addIceCandidate (candidate : Data)

/-- What the handler does up to its first `await`. -/
structure Handled where
  session : PeerSession
  outs : List Out
  calls : List RtcCall

/-- The `sdp` of a description as the connection converts it; `none` is the
TypeError, which rejects the call. -/
def sdpText : Data → Option JsString
  | .undefined => some []
  | v => v.text

namespace PeerSession

-- what the connection makes of an `RTCIceCandidateInit`; `none` where it rejects the call at once
variable (toCandidate : Data → Option JsString)

/-- The checks on the sender and the addressee of a value. -/
def acceptsValue (s : PeerSession) (msg : Data) : Bool :=
  let kind := (msg.get (js "kind")).str?
  (msg.get (js "from")).str?.any (fun sender =>
    isPeerId sender && sender ≠ s.localPeerId &&
      s.remotePeerId.all (fun remote => sender = remote)) &&
    ((kind ≠ some (js "answer") && kind ≠ some (js "ice")) ||
      (msg.get (js "to")).str?.any fun t => isPeerId t && t = s.localPeerId)

/-- `if (!this.remotePeerId) this.remotePeerId = msg.from` -/
def pinned (s : PeerSession) (msg : Data) : PeerSession :=
  { s with remotePeerId := s.remotePeerId.or (msg.get (js "from")).str? }

/-- A call of the connection the handler awaits; one that is rejected at once
has its error reported unless `silent`. -/
def called (s : PeerSession) (call : RtcCall) (task : Option Task) (silent : Bool) : Handled :=
  match task with
  | some task => ⟨{ s with chain := s.chain ++ [task] }, [], [call]⟩
  | none => ⟨s, if silent then [] else [.error .signaling], [call]⟩

/-- The kinds of a value, each up to its first `await`. -/
def handleValueKind (s : PeerSession) (pc : Rtc) (msg : Data) : Handled :=
  let kind := (msg.get (js "kind")).str?
  if kind = some (js "offer") then
    let s := { s with ignoreOffer := !s.isPolite && s.offerCollision pc }
    if s.ignoreOffer then ⟨s, [], []⟩
    else
      let sdp := msg.get (js "sdp")
      (s.pinned msg).called (.setRemoteDescription (js "offer") sdp)
        ((sdpText sdp).map fun t => .offer (.text t)) false
  else if kind = some (js "answer") then
    let sdp := msg.get (js "sdp")
    (s.pinned msg).called (.setRemoteDescription (js "answer") sdp)
      ((sdpText sdp).map fun t => .answer (.text t)) s.ignoreOffer
  else if kind = some (js "ice") then
    let candidate := msg.get (js "candidate")
    s.called (.addIceCandidate candidate) ((toCandidate candidate).map .ice) s.ignoreOffer
  else if kind = some (js "bye") then ⟨s.close.1, s.close.2, []⟩
  else ⟨s, [], []⟩

/-- The handler once `msg.from` has been read. -/
def handleReceived (s : PeerSession) (msg : Data) : Handled :=
  if !s.acceptsValue msg || !s.pc then ⟨s, [], []⟩
  else
    match s.rtc with
    | none => ⟨s, [], []⟩
    | some pc => handleValueKind toCandidate s pc msg

/-- `handleSignalingMessage` on any value. -/
def handleSignalingValue (s : PeerSession) : Data → Handled
  | .undefined | .null => ⟨s, [.error .signaling], []⟩   -- reading `msg.from` throws
  | msg => handleReceived toCandidate s msg

theorem handleSignalingValue_of_from {s : PeerSession} {msg : Data} {sender : JsString}
    (h : msg.get (js "from") = .str sender) :
    handleSignalingValue toCandidate s msg = handleReceived toCandidate s msg := by
  cases msg with
  | undefined => cases h
  | null => cases h
  | _ => rfl

/-! ## Valid messages -/

/-- A validated message with what the connection makes of its description or
candidate. -/
def received? : Protocol.SignalingMessage → Option SignalingMessage
  | .offer from_ sdp => some (.offer from_ (.text sdp))
  | .answer from_ to_ sdp => some (.answer from_ to_ (.text sdp))
  | .ice from_ to_ candidate => (toCandidate candidate).map (.ice from_ to_)
  | .bye from_ => some (.bye from_)

/-- The kinds, as the tests of the handler tell them apart. -/
theorem kind_ne : js "answer" ≠ js "offer" ∧ js "ice" ≠ js "offer" ∧ js "ice" ≠ js "answer" ∧
    js "bye" ≠ js "offer" ∧ js "bye" ≠ js "answer" ∧ js "bye" ≠ js "ice" ∧
    js "offer" ≠ js "answer" ∧ js "offer" ≠ js "ice" ∧ js "offer" ≠ js "bye" := by
  decide

theorem acceptsValue_of_carries {s : PeerSession} {msg : Data} {m : Protocol.SignalingMessage}
    {m' : SignalingMessage} (h : Carries msg m) (hm : received? toCandidate m = some m') :
    s.acceptsValue msg = s.accepts m' := by
  refine Bool.eq_iff_iff.mpr ?_
  rw [accepts_iff]
  cases m with
  | offer from_ sdp =>
    obtain rfl := Option.some.inj hm
    obtain ⟨hkind, hfrom, _⟩ := h
    simp [acceptsValue, hkind, hfrom, kind_ne, Data.str?, SignalingMessage.sender,
      SignalingMessage.target, Option.all_eq_true, and_assoc]
  | answer from_ to_ sdp =>
    obtain rfl := Option.some.inj hm
    obtain ⟨hkind, hfrom, hto, _⟩ := h
    simp [acceptsValue, hkind, hfrom, hto, Data.str?, SignalingMessage.sender,
      SignalingMessage.target, Option.all_eq_true, and_assoc]
  | ice from_ to_ candidate =>
    obtain ⟨c, _, rfl⟩ := Option.map_eq_some_iff.mp hm
    obtain ⟨hkind, hfrom, hto, _⟩ := h
    simp [acceptsValue, hkind, hfrom, hto, Data.str?, SignalingMessage.sender,
      SignalingMessage.target, Option.all_eq_true, and_assoc]
  | bye from_ =>
    obtain rfl := Option.some.inj hm
    obtain ⟨hkind, hfrom⟩ := h
    simp [acceptsValue, hkind, hfrom, kind_ne, Data.str?, SignalingMessage.sender,
      SignalingMessage.target, Option.all_eq_true, and_assoc]

theorem handleValueKind_valid {s : PeerSession} {pc : Rtc} {msg : Data}
    {m : Protocol.SignalingMessage} {m' : SignalingMessage} (h : Carries msg m)
    (hm : received? toCandidate m = some m') :
    (handleValueKind toCandidate s pc msg).session = (s.handleKind pc m').1 ∧
      (handleValueKind toCandidate s pc msg).outs = (s.handleKind pc m').2 := by
  cases m with
  | offer from_ sdp =>
    obtain rfl := Option.some.inj hm
    obtain ⟨hkind, hfrom, hsdp⟩ := h
    simp only [handleValueKind, handleKind, hkind, hsdp, Data.str?, if_true]
    split
    · exact ⟨rfl, rfl⟩
    · simp [called, pinned, hfrom, sdpText, Data.str?, Data.text]
  | answer from_ to_ sdp =>
    obtain rfl := Option.some.inj hm
    obtain ⟨hkind, hfrom, _, hsdp⟩ := h
    simp [handleValueKind, handleKind, hkind, hfrom, hsdp, kind_ne, Data.str?, called, pinned,
      sdpText, Data.text]
  | ice from_ to_ candidate =>
    obtain ⟨c, hc, rfl⟩ := Option.map_eq_some_iff.mp hm
    obtain ⟨hkind, _, _, hcandidate⟩ := h
    simp [handleValueKind, handleKind, hkind, hcandidate, hc, kind_ne, Data.str?, called]
  | bye from_ =>
    obtain rfl := Option.some.inj hm
    obtain ⟨hkind, _⟩ := h
    simp [handleValueKind, handleKind, hkind, kind_ne, Data.str?]

theorem carries_from {msg : Data} {m : Protocol.SignalingMessage} (h : Carries msg m) :
    ∃ sender, msg.get (js "from") = .str sender := by
  cases m with
  | offer from_ sdp => exact ⟨from_, h.2.1⟩
  | answer from_ to_ sdp => exact ⟨from_, h.2.1⟩
  | ice from_ to_ candidate => exact ⟨from_, h.2.1⟩
  | bye from_ => exact ⟨from_, h.2⟩

/-- On a valid message the handler does what the session's machine does. -/
theorem handleSignalingValue_valid {s : PeerSession} {msg : Data} {idx : Nat}
    {m : Protocol.SignalingMessage} {m' : SignalingMessage}
    (hvalid : validateMessage msg idx = .ok m) (hm : received? toCandidate m = some m') :
    (handleSignalingValue toCandidate s msg).session = (s.handleSignalingMessage m').1 ∧
      (handleSignalingValue toCandidate s msg).outs = (s.handleSignalingMessage m').2 := by
  have hcarries := validateMessage_carries hvalid
  obtain ⟨sender, hfrom⟩ := carries_from hcarries
  rw [handleSignalingValue_of_from toCandidate hfrom]
  unfold handleReceived handleSignalingMessage
  rw [acceptsValue_of_carries toCandidate hcarries hm]
  split
  · exact ⟨rfl, rfl⟩
  · cases s.rtc with
    | none => exact ⟨rfl, rfl⟩
    | some pc => exact handleValueKind_valid toCandidate hcarries hm

/-! ## Any value -/

/-- Nothing the rest of the world sees of a session has changed. -/
structure Unmoved (s : PeerSession) (h : Handled) : Prop where
  calls : h.calls = []
  chain : h.session.chain = s.chain
  rtc : h.session.rtc = s.rtc
  remote : h.session.remotePeerId = s.remotePeerId
  state : h.session.currentState = s.currentState
  silent : published h.outs = []

/-- The value has the kind of an offer that is not ignored for a collision, of an
answer, of a candidate, or of a `bye` in a session that is not closed. -/
def ActsOnKind (s : PeerSession) (pc : Rtc) (msg : Data) : Prop :=
  (msg.get (js "kind")).str? = some (js "offer") ∧
      (s.isPolite = true ∨ s.offerCollision pc = false) ∨
    (msg.get (js "kind")).str? = some (js "answer") ∨
    (msg.get (js "kind")).str? = some (js "ice") ∨
    (msg.get (js "kind")).str? = some (js "bye") ∧ s.currentState ≠ .closed

/-- The value passes the checks on its sender and addressee, and there is a
connection to act on for its kind. -/
def ActsOn (s : PeerSession) (msg : Data) : Prop :=
  s.acceptsValue msg = true ∧ s.pc = true ∧ ∃ pc, s.rtc = some pc ∧ s.ActsOnKind pc msg

theorem called_moved {s r : PeerSession} {call : RtcCall} {task : Option Task} {silent : Bool} :
    ¬Unmoved s (r.called call task silent) := by
  intro h
  have hcalls := h.calls
  cases task <;> cases hcalls

theorem close_unmoved (s : PeerSession) :
    Unmoved s ⟨s.close.1, s.close.2, []⟩ ↔ s.currentState = .closed := by
  constructor
  · intro h
    rw [← h.state]
    exact close_state s
  · intro h
    have hclose : s.close = ({ s with closeResolved := true }, [.closeResolved]) := by
      rw [close, if_pos h]
    rw [hclose]
    exact ⟨rfl, rfl, rfl, rfl, rfl, rfl⟩

/-- What becomes of a value that passed the checks, by its kind. -/
theorem handleValueKind_unmoved (s : PeerSession) (pc : Rtc) (msg : Data) :
    Unmoved s (handleValueKind toCandidate s pc msg) ↔ ¬s.ActsOnKind pc msg := by
  unfold ActsOnKind
  generalize hkind : (msg.get (js "kind")).str? = kind
  simp only [handleValueKind, hkind]
  split
  · next hoffer =>
    subst hoffer
    split
    · next hignore =>
      have hcollision : s.isPolite = false ∧ s.offerCollision pc = true := by simpa using hignore
      exact iff_of_true ⟨rfl, rfl, rfl, rfl, rfl, rfl⟩ (by simp [hcollision, kind_ne])
    · next hignore =>
      have hacted : s.isPolite = true ∨ s.offerCollision pc = false := by
        rw [Bool.not_eq_true, Bool.and_eq_false_iff, Bool.not_eq_false'] at hignore
        exact hignore
      exact iff_of_false called_moved (fun h => h (.inl ⟨rfl, hacted⟩))
  split
  · next hanswer => exact iff_of_false called_moved (fun h => h (.inr (.inl hanswer)))
  split
  · next hice => exact iff_of_false called_moved (fun h => h (.inr (.inr (.inl hice))))
  split
  · next hbye =>
    rw [close_unmoved]
    simp [hbye, kind_ne]
  · next hoffer hanswer hice hbye =>
    exact iff_of_true ⟨rfl, rfl, rfl, rfl, rfl, rfl⟩ (by simp [hoffer, hanswer, hice, hbye])

theorem handleReceived_unmoved (s : PeerSession) (msg : Data) :
    Unmoved s (handleReceived toCandidate s msg) ↔ ¬ActsOn s msg := by
  unfold handleReceived ActsOn
  split
  · next hskip =>
    refine iff_of_true ⟨rfl, rfl, rfl, rfl, rfl, rfl⟩ ?_
    rintro ⟨haccepts, hpc, _⟩
    simp [haccepts, hpc] at hskip
  · next hpass =>
    have hboth : s.acceptsValue msg = true ∧ s.pc = true := by simpa using hpass
    cases hrtc : s.rtc with
    | none => exact iff_of_true ⟨rfl, rfl, rfl, rfl, rfl, rfl⟩ (by simp)
    | some pc =>
      rw [handleValueKind_unmoved]
      simp [hboth]

/-- A value leaves a session alone exactly when the session does not act on it. -/
theorem unmoved_iff (s : PeerSession) (msg : Data) :
    Unmoved s (handleSignalingValue toCandidate s msg) ↔ ¬ActsOn s msg := by
  cases msg with
  | undefined =>
    exact iff_of_true ⟨rfl, rfl, rfl, rfl, rfl, rfl⟩
      (fun h => by simp [ActsOn, acceptsValue, Data.get, Data.str?] at h)
  | null =>
    exact iff_of_true ⟨rfl, rfl, rfl, rfl, rfl, rfl⟩
      (fun h => by simp [ActsOn, acceptsValue, Data.get, Data.str?] at h)
  | _ => exact handleReceived_unmoved toCandidate s _

/-- A value that is no valid message leaves a session alone exactly when it is
one the session does not act on. -/
theorem only_valid_iff (s : PeerSession) (msg : Data) (idx : Nat) :
    ((∀ m, validateMessage msg idx ≠ .ok m) → Unmoved s (handleSignalingValue toCandidate s msg)) ↔
      (∃ m, validateMessage msg idx = .ok m) ∨ ¬ActsOn s msg := by
  rw [unmoved_iff]
  constructor
  · intro h
    by_cases hvalid : ∃ m, validateMessage msg idx = .ok m
    · exact .inl hvalid
    · exact .inr (h fun m hm => hvalid ⟨m, hm⟩)
  · rintro (⟨m, hm⟩ | h) hinvalid
    · exact absurd hm (hinvalid m)
    · exact h

/-- An offer of the peer without a description. -/
def bareOffer : Data := .obj [(js "kind", .str (js "offer")), (js "from", .str inviterId)]

/-- The joiner acts on an offer without a description, which is no valid message. -/
theorem bareOffer_acted :
    ¬((∀ m, validateMessage bareOffer 0 ≠ .ok m) →
      Unmoved (step (.new .joiner joinerId (some inviterId)) .start).1
        (handleSignalingValue (fun _ => none)
          (step (.new .joiner joinerId (some inviterId)) .start).1 bareOffer)) := by
  intro h
  have hinvalid : ∀ m, validateMessage bareOffer 0 ≠ .ok m := by
    intro m hm
    cases hm
  have hcalls := (h hinvalid).calls
  cases hcalls

end PeerSession

end Senn.Session
