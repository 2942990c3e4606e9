import Senn.Session.PeerSession

/-! # Glare

Two sides that negotiate, seen from the signaling states, the operations that
wait and the messages in flight. An offer a side has made is answered as long
as something of the exchange is still under way: the offer, the operations of
the other side that answer it, the answer, or the operation that applies it.
The joiner gives its offer up for one of the inviter. -/

namespace Senn.Session

def Signaling.isLocalOffer : Signaling → Bool
  | .haveLocalOffer _ => true
  | _ => false

def Signaling.isRemoteOffer : Signaling → Bool
  | .haveRemoteOffer _ => true
  | _ => false

def SignalingMessage.isOffer : SignalingMessage → Bool
  | .offer _ _ => true
  | _ => false

def SignalingMessage.isAnswer : SignalingMessage → Bool
  | .answer _ _ _ => true
  | _ => false

namespace Task

def isNegotiation : Task → Bool
  | .negotiation => true
  | _ => false

def isOffer : Task → Bool
  | .offer _ => true
  | _ => false

def isAnswering : Task → Bool
  | .answering _ => true
  | _ => false

def isAnswer : Task → Bool
  | .answer _ => true
  | _ => false

end Task

/-- One of the waiting things is of this kind. -/
def pending {α : Type*} (l : List α) (kind : α → Bool) : Bool := l.any kind

section
variable {α : Type*} (kind : α → Bool)

@[simp] theorem pending_nil : pending [] kind = false := rfl

@[simp] theorem pending_cons (a : α) (l : List α) :
    pending (a :: l) kind = (kind a || pending l kind) := rfl

@[simp] theorem pending_append (l m : List α) :
    pending (l ++ m) kind = (pending l kind || pending m kind) := List.any_append

end

/-- What a session has of the negotiation. -/
structure Side where
  signaling : Signaling
  chain : List Task

/-- Something is under way that ends with the answer to the offer of `x`. -/
def answerable (x y : Side) (out in_ : List SignalingMessage) : Bool :=
  pending out SignalingMessage.isOffer || pending y.chain Task.isOffer || pending y.chain Task.isAnswering ||
    pending in_ SignalingMessage.isAnswer || pending x.chain Task.isAnswer

/-- An offer of the inviter is under way that replaces the offer of the joiner. -/
def overtaken (inviter joiner : Side) (toJoiner : List SignalingMessage) : Bool :=
  pending inviter.chain Task.isNegotiation || pending toJoiner SignalingMessage.isOffer ||
    pending joiner.chain Task.isOffer

/-- The offer of the joiner is not lost. -/
def joinerServed (inviter joiner : Side) (toJoiner toInviter : List SignalingMessage) : Bool :=
  !joiner.signaling.isLocalOffer || answerable joiner inviter toInviter toJoiner ||
    overtaken inviter joiner toJoiner

/-- What a side does by itself, with the messages it sends. -/
inductive Move (x : Side) : Side → List SignalingMessage → Prop
  | quiet {msgs : List SignalingMessage} : Move x x msgs
  | needed : Move x { x with chain := x.chain ++ [.negotiation] } []
  | negotiation {rest : List Task} {next : Signaling} {msgs : List SignalingMessage} :
      x.chain = .negotiation :: rest → next.isRemoteOffer = false →
      pending msgs SignalingMessage.isOffer = true → Move x ⟨next, rest⟩ msgs
  | offer {sdp : Sdp} {rest : List Task} {next : Signaling} :
      x.chain = .offer sdp :: rest → next.isLocalOffer = false →
      Move x ⟨next, rest ++ [.answering sdp]⟩ []
  | answering {sdp : Sdp} {rest : List Task} {next : Signaling} {msgs : List SignalingMessage} :
      x.chain = .answering sdp :: rest → next.isRemoteOffer = false →
      (next.isLocalOffer = true → x.signaling.isLocalOffer = true) →
      pending msgs SignalingMessage.isAnswer = true → Move x ⟨next, rest⟩ msgs
  | answer {sdp : Sdp} {rest : List Task} {next : Signaling} :
      x.chain = .answer sdp :: rest → next.isLocalOffer = false →
      (next.isRemoteOffer = true → x.signaling.isRemoteOffer = true) → Move x ⟨next, rest⟩ []
  | ice {candidate : Senn.Js.JsString} {rest : List Task} : x.chain = .ice candidate :: rest →
      Move x { x with chain := rest } []

/-- What a message that is not discarded does to the side it reaches. -/
inductive Receives (x : Side) : SignalingMessage → Side → Prop
  | offer {sender : Senn.Js.JsString} {sdp : Sdp} :
      Receives x (.offer sender sdp) { x with chain := x.chain ++ [.offer sdp] }
  | answer {sender target : Senn.Js.JsString} {sdp : Sdp} :
      Receives x (.answer sender target sdp) { x with chain := x.chain ++ [.answer sdp] }
  | ice {sender target candidate : Senn.Js.JsString} :
      Receives x (.ice sender target candidate) { x with chain := x.chain ++ [.ice candidate] }

/-- No side is left alone with its offer, and none with an offer to answer. -/
structure Converging (inviter joiner : Side) (toJoiner toInviter : List SignalingMessage) :
    Prop where
  inviterOffer : inviter.signaling.isLocalOffer = true →
    answerable inviter joiner toJoiner toInviter = true
  joinerOffer : joinerServed inviter joiner toJoiner toInviter = true
  inviterAnswer : inviter.signaling.isRemoteOffer = true →
    pending inviter.chain Task.isAnswering = true
  joinerAnswer : joiner.signaling.isRemoteOffer = true → pending joiner.chain Task.isAnswering = true

theorem converging_iff {i j : Side} {toJ toI : List SignalingMessage} :
    Converging i j toJ toI ↔
      (i.signaling.isLocalOffer = true → answerable i j toJ toI = true) ∧
      joinerServed i j toJ toI = true ∧
      (i.signaling.isRemoteOffer = true → pending i.chain Task.isAnswering = true) ∧
      (j.signaling.isRemoteOffer = true → pending j.chain Task.isAnswering = true) :=
  ⟨fun ⟨h1, h2, h3, h4⟩ => ⟨h1, h2, h3, h4⟩, fun ⟨h1, h2, h3, h4⟩ => ⟨h1, h2, h3, h4⟩⟩

namespace Converging

variable {i i' j j' : Side} {toJ toI msgs : List SignalingMessage} {msg : SignalingMessage}

attribute [local simp] Task.isNegotiation Task.isOffer Task.isAnswering Task.isAnswer

theorem moveInviter (h : Converging i j toJ toI) (hm : Move i i' msgs) :
    Converging i' j (toJ ++ msgs) toI := by
  simp only [converging_iff, joinerServed, answerable, overtaken, Bool.or_eq_true,
    Bool.not_eq_true', pending_append] at h ⊢
  cases hm with
  | quiet => grind
  | needed =>
    simp
    grind
  | negotiation hchain hnext hoffer =>
    -- the offer in flight serves both sides from here on
    simp [hchain, hnext, hoffer] at h ⊢
    grind
  | offer hchain hnext =>
    simp [hchain, hnext] at h ⊢
    grind
  | answering hchain hnext hlocal hanswer =>
    simp [hchain, hnext, hanswer] at h ⊢
    grind
  | answer hchain hnext hremote =>
    simp [hchain, hnext] at h ⊢
    grind
  | ice hchain =>
    simp [hchain] at h ⊢
    grind

theorem moveJoiner (h : Converging i j toJ toI) (hm : Move j j' msgs) :
    Converging i j' toJ (toI ++ msgs) := by
  simp only [converging_iff, joinerServed, answerable, overtaken, Bool.or_eq_true,
    Bool.not_eq_true', pending_append] at h ⊢
  cases hm with
  | quiet => grind
  | needed =>
    simp
    grind
  | negotiation hchain hnext hoffer =>
    simp [hchain, hnext, hoffer] at h ⊢
    grind
  | offer hchain hnext =>
    -- the joiner gives its own offer up
    simp [hchain, hnext] at h ⊢
    grind
  | answering hchain hnext hlocal hanswer =>
    simp [hchain, hnext, hanswer] at h ⊢
    grind
  | answer hchain hnext hremote =>
    simp [hchain, hnext] at h ⊢
    grind
  | ice hchain =>
    simp [hchain] at h ⊢
    grind

theorem receiveInviter (h : Converging i j toJ (msg :: toI)) (hr : Receives i msg i') :
    Converging i' j toJ toI := by
  simp only [converging_iff, joinerServed, answerable, overtaken, Bool.or_eq_true,
    Bool.not_eq_true', pending_cons] at h ⊢
  cases hr with
  | offer =>
    simp [SignalingMessage.isOffer, SignalingMessage.isAnswer] at h ⊢
    grind
  | answer =>
    simp [SignalingMessage.isOffer, SignalingMessage.isAnswer] at h ⊢
    grind
  | ice =>
    simp [SignalingMessage.isOffer, SignalingMessage.isAnswer] at h ⊢
    grind

theorem receiveJoiner (h : Converging i j (msg :: toJ) toI) (hr : Receives j msg j') :
    Converging i j' toJ toI := by
  simp only [converging_iff, joinerServed, answerable, overtaken, Bool.or_eq_true,
    Bool.not_eq_true', pending_cons] at h ⊢
  cases hr with
  | offer =>
    simp [SignalingMessage.isOffer, SignalingMessage.isAnswer] at h ⊢
    grind
  | answer =>
    simp [SignalingMessage.isOffer, SignalingMessage.isAnswer] at h ⊢
    grind
  | ice =>
    simp [SignalingMessage.isOffer, SignalingMessage.isAnswer] at h ⊢
    grind

/-- The inviter may drop an offer of the joiner that is served in another way. -/
theorem discard (h : Converging i j toJ (msg :: toI)) (hoffer : msg.isOffer = true)
    (hserved : joinerServed i j toJ toI = true) : Converging i j toJ toI := by
  refine ⟨?_, hserved, h.inviterAnswer, h.joinerAnswer⟩
  have hanswer : msg.isAnswer = false := by
    cases msg <;> simp_all [SignalingMessage.isOffer, SignalingMessage.isAnswer]
  simpa [answerable, hanswer] using h.inviterOffer

/-- With nothing under way no side has an offer. -/
theorem at_rest (h : Converging ⟨si, []⟩ ⟨sj, []⟩ [] []) : si = .stable ∧ sj = .stable := by
  obtain ⟨h1, h2, h3, h4⟩ := h
  cases si <;> cases sj <;>
    simp_all [answerable, joinerServed, overtaken, Signaling.isLocalOffer, Signaling.isRemoteOffer]

end Converging

end Senn.Session
