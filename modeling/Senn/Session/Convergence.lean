import Senn.Session.Glare
import Senn.Session.Negotiation
import Senn.Session.Publishing

/-! # The convergence of the negotiation

An inviter and a joiner over a reliable transport with one queue for each
direction. Each step of a session is a move of its side; from that, every run
that loses no offer ends with both connections stable. -/

namespace Senn.Session
open Senn.Js Senn.Lib Senn.Core Senn.Protocol

/-- What happens in an open session besides the messages it gets; its operations
succeed where the signaling state allows them. -/
def Event.isLocal : Event → Bool
  | .start | .close | .byePublished | .signaling _ | .operationDone false => false
  | _ => true

/-- Two sessions, and the messages published but not delivered. -/
structure Pair where
  inviter : PeerSession
  joiner : PeerSession
  toJoiner : List SignalingMessage
  toInviter : List SignalingMessage
deriving DecidableEq

inductive PairEvent where
  | act (party : PeerSessionRole) (ev : Event)
  | deliver (party : PeerSessionRole)
deriving DecidableEq

namespace PeerSession

def side (s : PeerSession) : Side :=
  ⟨match s.rtc with
    | some pc => pc.signaling
    | none => .stable, s.chain⟩

/-- An offer that arrives now collides with an own one. -/
def collides (s : PeerSession) : Bool :=
  match s.rtc with
  | some pc => s.offerCollision pc
  | none => false

/-- No answer is made now in a stable connection. -/
def answersInTurn (s : PeerSession) : Bool :=
  match s.side.signaling, s.side.chain with
  | .stable, .answering _ :: _ => false
  | _, _ => true

end PeerSession

namespace Pair

/-- Both sessions started, nothing published. -/
def new (inviterId joinerId : JsString) (inviterRemote joinerRemote : Option JsString) : Pair where
  inviter := (PeerSession.new .inviter inviterId inviterRemote).start.1
  joiner := (PeerSession.new .joiner joinerId joinerRemote).start.1
  toJoiner := []
  toInviter := []

def step (w : Pair) : PairEvent → Pair × List Out
  | .act .inviter ev =>
    if ev.isLocal then
      let r := w.inviter.step ev
      ({ w with inviter := r.1, toJoiner := w.toJoiner ++ published r.2 }, r.2)
    else (w, [])
  | .act .joiner ev =>
    if ev.isLocal then
      let r := w.joiner.step ev
      ({ w with joiner := r.1, toInviter := w.toInviter ++ published r.2 }, r.2)
    else (w, [])
  | .deliver .inviter =>
    match w.toInviter with
    | [] => (w, [])
    | msg :: rest =>
      let r := w.inviter.step (.signaling msg)
      ({ w with
        inviter := r.1
        toInviter := rest
        toJoiner := w.toJoiner ++ published r.2 }, r.2)
  | .deliver .joiner =>
    match w.toJoiner with
    | [] => (w, [])
    | msg :: rest =>
      let r := w.joiner.step (.signaling msg)
      ({ w with
        joiner := r.1
        toJoiner := rest
        toInviter := w.toInviter ++ published r.2 }, r.2)

/-- No answer is made in a stable connection, and the inviter discards no offer
that nothing else serves. -/
def harmless (w : Pair) : PairEvent → Bool
  | .act .inviter (.operationDone _) => w.inviter.answersInTurn
  | .act .joiner (.operationDone _) => w.joiner.answersInTurn
  | .deliver .inviter =>
    match w.toInviter with
    | [] => true
    | msg :: rest =>
      !(msg.isOffer && w.inviter.collides) ||
        joinerServed w.inviter.side w.joiner.side w.toJoiner rest
  | _ => true

/-- No message in flight, no operation and no publish pending. -/
def quiescent (w : Pair) : Bool :=
  w.toJoiner = [] && w.toInviter = [] && w.inviter.chain = [] && w.joiner.chain = [] &&
    w.inviter.offerPublishes = 0 && w.inviter.answerPublishes = 0 &&
    w.joiner.offerPublishes = 0 && w.joiner.answerPublishes = 0

def stable (w : Pair) : Bool :=
  w.inviter.side.signaling = .stable && w.joiner.side.signaling = .stable

end Pair

/-! ## A session's steps as moves of its side -/

/-- The message is from `me` and for `other`. -/
def Addressed (me other : JsString) : SignalingMessage → Prop
  | .offer f _ => f = me
  | .answer f t _ => f = me ∧ t = other
  | .ice f t _ => f = me ∧ t = other
  | .bye _ => False

namespace Rtc

theorem setLocalDescription_closed (pc : Rtc) : pc.setLocalDescription.closed = pc.closed := by
  unfold setLocalDescription
  split <;> rfl

theorem setLocalDescription_notRemote (pc : Rtc) :
    pc.setLocalDescription.signaling.isRemoteOffer = false := by
  unfold setLocalDescription
  split <;> rfl

end Rtc

namespace PeerSession

/-- An open session of `me` that has only ever heard of `other`. -/
structure Engaged (role : PeerSessionRole) (me other : JsString) (s : PeerSession) : Prop where
  role_eq : s.role = role
  localId : s.localPeerId = me
  remoteId : s.remotePeerId = none ∨ s.remotePeerId = some other
  pc : s.pc = true
  subscribed : s.signalingUnsub = true
  rtc : ∃ pc, s.rtc = some pc ∧ pc.closed = false
  addressee : pending s.chain Task.isOffer = true ∨ pending s.chain Task.isAnswering = true →
    s.remotePeerId = some other

/-- The fields the negotiation rests on. -/
def standing (s : PeerSession) :
    PeerSessionRole × JsString × Option JsString × Bool × Bool × Option Rtc × List Task :=
  (s.role, s.localPeerId, s.remotePeerId, s.pc, s.signalingUnsub, s.rtc, s.chain)

variable {role : PeerSessionRole} {me other : JsString} {s s' : PeerSession}

/-- What a step of an engaged session by itself amounts to. -/
structure Acts (role : PeerSessionRole) (me other : JsString) (s : PeerSession)
    (r : PeerSession × List Out) : Prop where
  engaged : Engaged role me other r.1
  move : Move s.side r.1.side (published r.2)
  addressed : ∀ m ∈ published r.2, Addressed me other m

theorem Engaged.of_standing (h : Engaged role me other s) (hs : s'.standing = s.standing) :
    Engaged role me other s' := by
  simp only [standing, Prod.mk.injEq] at hs
  obtain ⟨h1, h2, h3, h4, h5, h6, h7⟩ := hs
  obtain ⟨g1, g2, g3, g4, g5, g6, g7⟩ := h
  exact ⟨h1 ▸ g1, h2 ▸ g2, h3 ▸ g3, h4 ▸ g4, h5 ▸ g5, h6 ▸ g6, h7 ▸ h3 ▸ g7⟩

theorem side_of_standing (hs : s'.standing = s.standing) : s'.side = s.side := by
  simp only [standing, Prod.mk.injEq] at hs
  obtain ⟨_, _, _, _, _, h6, h7⟩ := hs
  simp [side, h6, h7]

/-- A step that leaves the negotiation alone. -/
theorem Acts.quiet {outs : List Out} (h : Engaged role me other s)
    (hs : s'.standing = s.standing) (hout : ∀ m ∈ published outs, Addressed me other m) :
    Acts role me other s (s', outs) :=
  ⟨h.of_standing hs, by rw [side_of_standing hs]; exact .quiet, hout⟩

theorem setState_quiet (h : Engaged role me other s) (next : PeerSessionState) :
    Acts role me other s (s.setState next) := by
  unfold setState
  split
  · exact .quiet h rfl (by simp [published])
  · exact .quiet h rfl (by simp [published, Out.message?])

theorem Engaged.negotiationNeeded (h : Engaged role me other s) :
    Acts role me other s (s.step .negotiationNeeded) := by
  obtain ⟨pc, hrtc, hopen⟩ := h.rtc
  have hstep : s.step .negotiationNeeded =
      ({ s with makingOffer := true, chain := s.chain ++ [.negotiation] }, []) := by
    simp [step, hrtc, runNegotiation, h.pc]
  rw [hstep]
  refine ⟨⟨h.role_eq, h.localId, h.remoteId, h.pc, h.subscribed, h.rtc, fun hp => ?_⟩, ?_,
    by simp [published]⟩
  · exact h.addressee (by simpa [Task.isOffer, Task.isAnswering] using hp)
  · exact .needed

/-- The chain without its first operation, in a connection it left open. -/
theorem Engaged.next {pc' : Rtc} {task : Task} {rest : List Task}
    (h : Engaged role me other s) (hchain : s.chain = task :: rest) (hopen : pc'.closed = false) :
    Engaged role me other { s with rtc := some pc', chain := rest } := by
  refine ⟨h.role_eq, h.localId, h.remoteId, h.pc, h.subscribed, ⟨pc', rfl, hopen⟩, fun hp => ?_⟩
  refine h.addressee ?_
  rw [hchain, pending_cons, pending_cons, Bool.or_eq_true, Bool.or_eq_true]
  exact hp.imp .inr .inr

theorem operationDone_cons {pc : Rtc} {task : Task} {rest : List Task} (hrtc : s.rtc = some pc)
    (hopen : pc.closed = false) (hchain : s.chain = task :: rest) :
    s.operationDone true =
      match pc.run task.op with
      | some pc' => fulfilled { s with rtc := some pc', chain := rest } pc' task
      | none => rejected { s with chain := rest } task := by
  cases hrun : pc.run task.op <;> simp [operationDone, hrtc, hchain, hopen, hrun]

theorem Engaged.negotiation {pc : Rtc} {rest : List Task} (h : Engaged role me other s)
    (hrtc : s.rtc = some pc) (hopen : pc.closed = false) (hchain : s.chain = .negotiation :: rest) :
    Acts role me other s (s.operationDone true) := by
  obtain ⟨sdp, hsdp⟩ := pc.setLocalDescription_isSome
  have hclosed : pc.setLocalDescription.closed = false := by rw [pc.setLocalDescription_closed, hopen]
  have hdone : s.operationDone true =
      ({ s with
        rtc := some pc.setLocalDescription
        chain := rest
        offerPublishes := s.offerPublishes + 1 },
        [.publish (.offer s.localPeerId sdp) none]) := by
    simp [operationDone_cons hrtc hopen hchain, Task.op, Rtc.run, fulfilled, hsdp]
  rw [hdone]
  refine ⟨(h.next hchain hclosed).of_standing rfl, ?_, ?_⟩
  · exact .negotiation hchain pc.setLocalDescription_notRemote rfl
  · simp [published, Out.message?, Addressed, h.localId]

theorem Engaged.offer {pc : Rtc} {sdp : Sdp} {rest : List Task} (h : Engaged role me other s)
    (hrtc : s.rtc = some pc) (hopen : pc.closed = false) (hchain : s.chain = .offer sdp :: rest) :
    Acts role me other s (s.operationDone true) := by
  have hdone : s.operationDone true =
      ({ s with
        rtc := some { pc with signaling := .haveRemoteOffer sdp }
        chain := rest ++ [.answering sdp] }, []) := by
    simp [operationDone_cons hrtc hopen hchain, Task.op, Rtc.run, fulfilled]
  have haddressee := h.addressee (.inl (by simp [hchain, Task.isOffer]))
  rw [hdone]
  exact ⟨⟨h.role_eq, h.localId, h.remoteId, h.pc, h.subscribed, ⟨_, rfl, hopen⟩,
    fun _ => haddressee⟩, .offer hchain rfl, by simp [published]⟩

theorem Engaged.answering {pc : Rtc} {offer : Sdp} {rest : List Task} (h : Engaged role me other s)
    (hturn : s.answersInTurn = true) (hrtc : s.rtc = some pc) (hopen : pc.closed = false)
    (hchain : s.chain = .answering offer :: rest) :
    Acts role me other s (s.operationDone true) := by
  obtain ⟨sdp, hsdp⟩ := pc.setLocalDescription_isSome
  have hclosed : pc.setLocalDescription.closed = false := by rw [pc.setLocalDescription_closed, hopen]
  have haddressee := h.addressee (.inr (by simp [hchain, Task.isAnswering]))
  have hdone : s.operationDone true =
      ({ s with
        rtc := some pc.setLocalDescription
        chain := rest
        answerPublishes := s.answerPublishes + 1 },
        [.publish (.answer s.localPeerId other sdp) (some offer)]) := by
    simp [operationDone_cons hrtc hopen hchain, Task.op, Rtc.run, fulfilled, hsdp, haddressee]
  rw [hdone]
  refine ⟨(h.next hchain hclosed).of_standing rfl, ?_, ?_⟩
  · refine .answering hchain pc.setLocalDescription_notRemote (fun hlocal => ?_) rfl
    have hsignaling : s.side.signaling = pc.signaling := by simp [side, hrtc]
    simp only [answersInTurn, hsignaling] at hturn
    simp only [hsignaling]
    -- an offer is made here only in a connection that has one already
    cases hs : pc.signaling with
    | stable => simp [hs, side, hchain] at hturn
    | haveLocalOffer pendingLocal => rfl
    | haveRemoteOffer remote =>
      simp [Rtc.setLocalDescription, hs, Signaling.isLocalOffer] at hlocal
  · simp [published, Out.message?, Addressed, h.localId]

/-- An answer the connection refuses. -/
theorem Engaged.refused {pc : Rtc} {sdp : Sdp} {rest : List Task} (h : Engaged role me other s)
    (hrtc : s.rtc = some pc) (hopen : pc.closed = false) (hchain : s.chain = .answer sdp :: rest)
    (hlocal : pc.signaling.isLocalOffer = false) :
    Acts role me other s (rejected { s with chain := rest } (.answer sdp)) := by
  have hpublished : published (rejected { s with chain := rest } (.answer sdp)).2 = [] := by
    simp only [rejected]
    split <;> rfl
  have hside : (rejected { s with chain := rest } (.answer sdp)).1.side = ⟨pc.signaling, rest⟩ := by
    simp [rejected, side, hrtc]
  refine ⟨(h.next hchain hopen).of_standing (by simp [rejected, standing, hrtc]), ?_, ?_⟩
  · rw [hpublished, hside]
    exact .answer hchain hlocal (by simp [side, hrtc])
  · simp [hpublished]

theorem Engaged.answer {pc : Rtc} {sdp : Sdp} {rest : List Task} (h : Engaged role me other s)
    (hrtc : s.rtc = some pc) (hopen : pc.closed = false) (hchain : s.chain = .answer sdp :: rest) :
    Acts role me other s (s.operationDone true) := by
  rw [operationDone_cons hrtc hopen hchain]
  cases hs : pc.signaling with
  | haveLocalOffer pendingLocal =>
    simp only [Task.op, Rtc.run, hs, fulfilled]
    exact ⟨h.next hchain hopen, .answer hchain rfl (by simp [Signaling.isRemoteOffer]),
      by simp [published]⟩
  | stable =>
    simp only [Task.op, Rtc.run, hs]
    exact h.refused hrtc hopen hchain (by rw [hs]; rfl)
  | haveRemoteOffer remote =>
    simp only [Task.op, Rtc.run, hs]
    exact h.refused hrtc hopen hchain (by rw [hs]; rfl)

theorem Engaged.operationDone (h : Engaged role me other s) (hturn : s.answersInTurn = true) :
    Acts role me other s (s.operationDone true) := by
  obtain ⟨pc, hrtc, hopen⟩ := h.rtc
  cases hchain : s.chain with
  | nil =>
    rw [show s.operationDone true = (s, []) by simp [PeerSession.operationDone, hrtc, hchain]]
    exact .quiet h rfl (by simp [published])
  | cons task rest =>
    cases task with
    | negotiation => exact h.negotiation hrtc hopen hchain
    | offer sdp => exact h.offer hrtc hopen hchain
    | answering sdp => exact h.answering hturn hrtc hopen hchain
    | answer sdp => exact h.answer hrtc hopen hchain
    | ice candidate =>
      rw [operationDone_cons hrtc hopen hchain]
      refine ⟨h.next hchain hopen, ?_, by simp [Task.op, Rtc.run, fulfilled, published]⟩
      have hmove := Move.ice (x := s.side) hchain
      simpa [Task.op, Rtc.run, fulfilled, published, side, hrtc] using hmove

/-- Every step of an engaged session by itself is a move of its side. -/
theorem Engaged.act {ev : Event} (h : Engaged role me other s) (hev : ev.isLocal = true)
    (hturn : ev = .operationDone true → s.answersInTurn = true) :
    Acts role me other s (s.step ev) := by
  cases ev with
  | start => cases hev
  | close => cases hev
  | byePublished => cases hev
  | signaling msg => cases hev
  | negotiationNeeded => exact h.negotiationNeeded
  | operationDone ok =>
    cases ok with
    | false => cases hev
    | true => exact h.operationDone (hturn rfl)
  | iceCandidate candidate =>
    simp only [step]
    split
    · next _ _ remote _ hremote =>
      refine .quiet h rfl ?_
      have hother : remote = other := by simpa [hremote] using h.remoteId
      simp [published, Out.message?, Addressed, h.localId, hother]
    · exact .quiet h rfl (by simp [published])
  | connectionStateChange cs =>
    simp only [step]
    split
    · exact .quiet h rfl (by simp [published])
    · cases cs with
      | failed =>
        dsimp only
        split
        · exact setState_quiet h .failed
        · exact .quiet h rfl (by simp [published])
      | closed =>
        dsimp only
        split
        · exact setState_quiet h .closed
        · exact .quiet h rfl (by simp [published])
      | _ => exact .quiet h rfl (by simp [published])
  | dataChannel label =>
    simp only [step]
    split
    · exact .quiet h rfl (by simp [published])
    · split
      · exact .quiet h rfl (by simp [published])
      · split
        · exact .quiet h rfl (by simp [published])
        · split <;> exact .quiet h rfl (by simp [published])
  | channelOpen i =>
    simp only [step]
    split
    · exact setState_quiet h .connected
    · exact .quiet h rfl (by simp [published])
  | channelClose i =>
    simp only [step]
    split
    · split
      · exact setState_quiet h .closed
      · exact .quiet h rfl (by simp [published])
    · exact .quiet h rfl (by simp [published])
  | channelError i =>
    refine .quiet h rfl ?_
    split <;> simp [published, Out.message?]
  | textMessage i data =>
    simp only [step]
    split <;> exact .quiet h rfl (by simp [published, Out.message?])
  | binMessage i now data =>
    simp only [step]
    split
    · cases data with
      | arrayBuffer buf => exact .quiet h rfl (by simp [bin_published])
      | blob buf => exact .quiet h rfl (by simp [published])
      | other => exact .quiet h rfl (by simp [published, Out.message?])
    · exact .quiet h rfl (by simp [published])
  | blobRead k now =>
    simp only [step]
    split
    · exact .quiet h rfl (by simp [bin_published])
    · exact .quiet h rfl (by simp [published])
  | gcTick now => exact .quiet h rfl (by simp [bin_published])
  | offerPublished ok =>
    simp only [step]
    split
    · exact .quiet h rfl (by simp [published])
    · exact .quiet h rfl (by cases ok <;> simp [published, Out.message?])
  | answerPublished ok =>
    simp only [step]
    split
    · exact .quiet h rfl (by simp [published])
    · exact .quiet h rfl (by cases ok <;> simp [published, Out.message?])

/-- What an engaged session does with a message of the other one. -/
structure Hears (role : PeerSessionRole) (me other : JsString) (s : PeerSession)
    (msg : SignalingMessage) (r : PeerSession × List Out) : Prop where
  engaged : Engaged role me other r.1
  silent : published r.2 = []
  received : Receives s.side msg r.1.side ∨
    role = .inviter ∧ msg.isOffer = true ∧ s.collides = true ∧ r.1.side = s.side

theorem Engaged.accepts {msg : SignalingMessage} (h : Engaged role me other s) (hne : other ≠ me)
    (hme : isPeerId me = true) (hother : isPeerId other = true) (hmsg : Addressed other me msg) :
    s.accepts msg = true := by
  cases msg with
  | offer from_ sdp =>
    obtain rfl := hmsg
    rcases h.remoteId with hr | hr <;>
      simp [PeerSession.accepts, SignalingMessage.sender, SignalingMessage.target, hother,
        h.localId, hne, hr]
  | answer from_ to_ sdp =>
    obtain ⟨rfl, rfl⟩ := hmsg
    rcases h.remoteId with hr | hr <;>
      simp [PeerSession.accepts, SignalingMessage.sender, SignalingMessage.target, hother, hme,
        h.localId, hne, hr]
  | ice from_ to_ candidate =>
    obtain ⟨rfl, rfl⟩ := hmsg
    rcases h.remoteId with hr | hr <;>
      simp [PeerSession.accepts, SignalingMessage.sender, SignalingMessage.target, hother, hme,
        h.localId, hne, hr]
  | bye from_ => exact hmsg.elim

/-- Of the messages for it an engaged session discards only an offer that
collides with an own one, and only the inviter does. -/
theorem Engaged.hear {msg : SignalingMessage} (h : Engaged role me other s) (hne : other ≠ me)
    (hme : isPeerId me = true) (hother : isPeerId other = true) (hmsg : Addressed other me msg) :
    Hears role me other s msg (s.step (.signaling msg)) := by
  obtain ⟨pc, hrtc, hopen⟩ := h.rtc
  have hstep : s.step (.signaling msg) = s.handleKind pc msg := by
    simp [step, h.subscribed, handleSignalingMessage, h.accepts hne hme hother hmsg, h.pc, hrtc]
  rw [hstep]
  cases msg with
  | offer from_ sdp =>
    obtain rfl := hmsg
    unfold handleKind
    dsimp only
    split
    · next hignore =>
      refine ⟨h.of_standing rfl, by simp [published], .inr ⟨?_, rfl, ?_, rfl⟩⟩
      · cases hrole : role with
        | inviter => rfl
        | joiner => simp [isPolite, h.role_eq, hrole] at hignore
      · simp only [Bool.and_eq_true] at hignore
        simp [collides, hrtc, hignore.2]
    · have hremote : s.remotePeerId.or (some from_) = some from_ := by
        rcases h.remoteId with hr | hr <;> simp [hr]
      exact ⟨⟨h.role_eq, h.localId, .inr hremote, h.pc, h.subscribed, h.rtc, fun _ => hremote⟩,
        by simp [published], .inl .offer⟩
  | answer from_ to_ sdp =>
    obtain ⟨rfl, rfl⟩ := hmsg
    have hremote : s.remotePeerId.or (some from_) = some from_ := by
      rcases h.remoteId with hr | hr <;> simp [hr]
    exact ⟨⟨h.role_eq, h.localId, .inr hremote, h.pc, h.subscribed, h.rtc, fun _ => hremote⟩,
      by simp [handleKind, published], .inl .answer⟩
  | ice from_ to_ candidate =>
    refine ⟨⟨h.role_eq, h.localId, h.remoteId, h.pc, h.subscribed, h.rtc, fun hp => ?_⟩,
      by simp [handleKind, published], .inl .ice⟩
    exact h.addressee (by simpa [handleKind, Task.isOffer, Task.isAnswering] using hp)
  | bye from_ => exact hmsg.elim

theorem start_engaged {remotePeerId : Option JsString}
    (hremote : remotePeerId = none ∨ remotePeerId = some other) :
    Engaged role me other (PeerSession.new role me remotePeerId).start.1 := by
  have hchain : (PeerSession.new role me remotePeerId).start.1.chain = [] := by
    cases role <;> rfl
  cases role with
  | inviter =>
    exact ⟨rfl, rfl, hremote, rfl, rfl, ⟨_, rfl, rfl⟩, fun h => by rw [hchain] at h; simp at h⟩
  | joiner =>
    exact ⟨rfl, rfl, hremote, rfl, rfl, ⟨_, rfl, rfl⟩, fun h => by rw [hchain] at h; simp at h⟩

end PeerSession

/-! ## Runs of the pair -/

namespace Pair

/-- The two sessions know each other only, and their negotiation converges. -/
structure Sound (inviterId joinerId : JsString) (w : Pair) : Prop where
  inviter : PeerSession.Engaged .inviter inviterId joinerId w.inviter
  joiner : PeerSession.Engaged .joiner joinerId inviterId w.joiner
  toJoiner : ∀ m ∈ w.toJoiner, Addressed inviterId joinerId m
  toInviter : ∀ m ∈ w.toInviter, Addressed joinerId inviterId m
  converging : Converging w.inviter.side w.joiner.side w.toJoiner w.toInviter

section
variable {inviterId joinerId : JsString} {w : Pair}

theorem new_sound {inviterRemote joinerRemote : Option JsString}
    (hinviter : inviterRemote = none ∨ inviterRemote = some joinerId)
    (hjoiner : joinerRemote = none ∨ joinerRemote = some inviterId) :
    Sound inviterId joinerId (new inviterId joinerId inviterRemote joinerRemote) := by
  refine ⟨PeerSession.start_engaged hinviter, PeerSession.start_engaged hjoiner, ?_, ?_, ?_⟩
  · simp [new]
  · simp [new]
  · exact ⟨(fun h => by cases h), rfl, (fun h => by cases h), (fun h => by cases h)⟩

theorem act_inviter_sound {ev : Event} (h : Sound inviterId joinerId w)
    (hok : w.harmless (.act .inviter ev) = true) :
    Sound inviterId joinerId (w.step (.act .inviter ev)).1 := by
  by_cases hev : ev.isLocal = true
  · have hact := h.inviter.act hev (by rintro rfl; exact hok)
    simp only [step, hev, if_true]
    exact ⟨hact.engaged, h.joiner, List.forall_mem_append.mpr ⟨h.toJoiner, hact.addressed⟩,
      h.toInviter, h.converging.moveInviter hact.move⟩
  · simpa [step, hev] using h

theorem act_joiner_sound {ev : Event} (h : Sound inviterId joinerId w)
    (hok : w.harmless (.act .joiner ev) = true) :
    Sound inviterId joinerId (w.step (.act .joiner ev)).1 := by
  by_cases hev : ev.isLocal = true
  · have hact := h.joiner.act hev (by rintro rfl; exact hok)
    simp only [step, hev, if_true]
    exact ⟨h.inviter, hact.engaged, h.toJoiner,
      List.forall_mem_append.mpr ⟨h.toInviter, hact.addressed⟩, h.converging.moveJoiner hact.move⟩
  · simpa [step, hev] using h

section
variable (hne : inviterId ≠ joinerId) (hi : isPeerId inviterId = true)
  (hj : isPeerId joinerId = true)
include hne hi hj

theorem deliver_inviter_sound (h : Sound inviterId joinerId w)
    (hok : w.harmless (.deliver .inviter) = true) :
    Sound inviterId joinerId (w.step (.deliver .inviter)).1 := by
  simp only [step]
  cases hqueue : w.toInviter with
  | nil => exact h
  | cons msg rest =>
    have hmsgs := List.forall_mem_cons.mp (hqueue ▸ h.toInviter)
    have hhear := h.inviter.hear hne.symm hi hj hmsgs.1
    have hconv := h.converging
    rw [hqueue] at hconv
    simp only [hhear.silent, List.append_nil]
    refine ⟨hhear.engaged, h.joiner, h.toJoiner, hmsgs.2, ?_⟩
    rcases hhear.received with hr | ⟨_, hoffer, hcollides, hside⟩
    · exact hconv.receiveInviter hr
    · have hserved : joinerServed w.inviter.side w.joiner.side w.toJoiner rest = true := by
        simpa [harmless, hqueue, hoffer, hcollides] using hok
      rw [hside]
      exact hconv.discard hoffer hserved

theorem deliver_joiner_sound (h : Sound inviterId joinerId w) :
    Sound inviterId joinerId (w.step (.deliver .joiner)).1 := by
  simp only [step]
  cases hqueue : w.toJoiner with
  | nil => exact h
  | cons msg rest =>
    have hmsgs := List.forall_mem_cons.mp (hqueue ▸ h.toJoiner)
    have hhear := h.joiner.hear hne hj hi hmsgs.1
    have hconv := h.converging
    rw [hqueue] at hconv
    simp only [hhear.silent, List.append_nil]
    refine ⟨h.inviter, hhear.engaged, hmsgs.2, h.toInviter, ?_⟩
    rcases hhear.received with hr | ⟨hrole, _⟩
    · exact hconv.receiveJoiner hr
    · cases hrole

theorem step_sound (w : Pair) (ev : PairEvent) (h : Sound inviterId joinerId w)
    (hok : w.harmless ev = true) : Sound inviterId joinerId (w.step ev).1 := by
  cases ev with
  | act party ev =>
    cases party with
    | inviter => exact act_inviter_sound h hok
    | joiner => exact act_joiner_sound h hok
  | deliver party =>
    cases party with
    | inviter => exact deliver_inviter_sound hne hi hj h hok
    | joiner => exact deliver_joiner_sound hne hi hj h

end

theorem Sound.stable (h : Sound inviterId joinerId w) (hq : w.quiescent = true) :
    w.stable = true := by
  simp only [quiescent, Bool.and_eq_true, decide_eq_true_eq] at hq
  obtain ⟨⟨⟨⟨⟨⟨⟨htoJoiner, htoInviter⟩, hinviter⟩, hjoiner⟩, _⟩, _⟩, _⟩, _⟩ := hq
  have hconv := h.converging
  rw [htoJoiner, htoInviter] at hconv
  simp only [PeerSession.side, hinviter, hjoiner] at hconv
  obtain ⟨hsi, hsj⟩ := hconv.at_rest
  simp [Pair.stable, PeerSession.side, hsi, hsj]

/-- In a run in which no answer is made in a stable connection and the inviter
discards no offer that nothing else serves, both connections are stable whenever
nothing is pending. -/
theorem quiescent_stable (hi : isPeerId inviterId = true) (hj : isPeerId joinerId = true)
    (hne : inviterId ≠ joinerId) {inviterRemote joinerRemote : Option JsString}
    (hinviter : inviterRemote = none ∨ inviterRemote = some joinerId)
    (hjoiner : joinerRemote = none ∨ joinerRemote = some inviterId) {evs : List PairEvent}
    (h : Machine.Guarded step (fun w ev => w.harmless ev = true)
      (new inviterId joinerId inviterRemote joinerRemote) evs)
    (hq : (Machine.after step (new inviterId joinerId inviterRemote joinerRemote) evs).quiescent =
      true) :
    (Machine.after step (new inviterId joinerId inviterRemote joinerRemote) evs).stable = true :=
  (Machine.guarded_inv (step_sound hne hi hj) (new_sound hinviter hjoiner) h).stable hq

end

/-- A negotiation of the inviter whose messages cross one of the joiner. -/
def crossing : List PairEvent :=
  [.act .inviter .negotiationNeeded, .act .joiner .negotiationNeeded,
    .act .inviter (.operationDone true), .act .joiner (.operationDone true),
    .deliver .inviter, .deliver .joiner,
    .act .joiner (.operationDone true), .act .joiner (.operationDone true),
    .deliver .inviter, .act .inviter (.operationDone true),
    .act .inviter (.offerPublished true), .act .joiner (.offerPublished true),
    .act .joiner (.answerPublished true)]

theorem quiescent_stable_crossing :
    (Machine.after step (new PeerSession.inviterId PeerSession.joinerId none none)
      crossing).stable = true :=
  quiescent_stable (by decide +kernel) (by decide +kernel) (by decide +kernel) (.inl rfl) (.inl rfl)
    (by decide +kernel) (by decide +kernel)

/-- The publish of the inviter's offer is acknowledged only after the answer was
applied. An offer of the joiner that comes before is discarded, and nothing
answers it. -/
def lateAck : List PairEvent :=
  [.act .inviter .negotiationNeeded, .act .inviter (.operationDone true), .deliver .joiner,
    .act .joiner (.operationDone true), .act .joiner (.operationDone true), .deliver .inviter,
    .act .inviter (.operationDone true), .act .joiner .negotiationNeeded,
    .act .joiner (.operationDone true), .deliver .inviter, .act .inviter (.offerPublished true),
    .act .joiner (.offerPublished true), .act .joiner (.answerPublished true)]

/-- The joiner is left in have-local-offer. -/
theorem lateAck_stuck :
    ¬((Machine.after step (new PeerSession.inviterId PeerSession.joinerId none none)
        lateAck).quiescent = true →
      (Machine.after step (new PeerSession.inviterId PeerSession.joinerId none none)
        lateAck).stable = true) := by
  decide +kernel

end Pair

end Senn.Session
