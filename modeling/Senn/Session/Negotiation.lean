import Senn.Session.PeerSession
import Senn.Lib.Machine

/-! # What a session publishes

The handlers read `localDescription` after they awaited their call of
`setLocalDescription`, so what they publish is what the connection made at that
call's turn. A published description has the kind of its message, and an answer
answers the offer it is published for, exactly when every such call finds the
signaling state its caller left behind. -/

namespace Senn.Session
open Senn.Js Senn.Lib Senn.Core

/-- A published offer was made as an offer, a published answer as the answer to
the offer whose handler publishes it. -/
def Labelled : Out → Prop
  | .publish (.offer _ sdp) _ => ∃ n, sdp = .offer n
  | .publish (.answer _ _ sdp) answered => ∃ n offer, answered = some offer ∧ sdp = .answer n offer
  | _ => True

/-- The signaling state the caller of an operation counts on. -/
def Task.Expects (signaling : Signaling) : Task → Prop
  | .negotiation => ∀ remote, signaling ≠ .haveRemoteOffer remote
  | .answering sdp => signaling = .haveRemoteOffer sdp
  | _ => True

namespace Rtc

theorem setLocalDescription_offer {pc : Rtc}
    (h : ∀ remote, pc.signaling ≠ .haveRemoteOffer remote) :
    pc.setLocalDescription.localDescription = some (.offer pc.created) := by
  cases hs : pc.signaling with
  | stable => simp [setLocalDescription, localDescription, hs]
  | haveLocalOffer sdp => simp [setLocalDescription, localDescription, hs]
  | haveRemoteOffer remote => exact absurd hs (h remote)

theorem setLocalDescription_answer {pc : Rtc} {remote : Sdp}
    (h : pc.signaling = .haveRemoteOffer remote) :
    pc.setLocalDescription.localDescription = some (.answer pc.created remote) := by
  simp [setLocalDescription, localDescription, h]

/-- `setLocalDescription()` makes an answer to a remote offer and else an offer. -/
theorem setLocalDescription_cases (pc : Rtc) :
    (∃ remote, pc.signaling = .haveRemoteOffer remote ∧
      pc.setLocalDescription.localDescription = some (.answer pc.created remote)) ∨
    (∀ remote, pc.signaling ≠ .haveRemoteOffer remote) ∧
      pc.setLocalDescription.localDescription = some (.offer pc.created) := by
  by_cases h : ∃ remote, pc.signaling = .haveRemoteOffer remote
  · obtain ⟨remote, hs⟩ := h
    exact .inl ⟨remote, hs, setLocalDescription_answer hs⟩
  · have hs := not_exists.mp h
    exact .inr ⟨hs, setLocalDescription_offer hs⟩

theorem setLocalDescription_isSome (pc : Rtc) :
    ∃ sdp, pc.setLocalDescription.localDescription = some sdp := by
  rcases pc.setLocalDescription_cases with ⟨remote, _, hsdp⟩ | ⟨_, hsdp⟩
  · exact ⟨_, hsdp⟩
  · exact ⟨_, hsdp⟩

end Rtc

namespace PeerSession

/-- No call of `setLocalDescription` comes to its turn in a signaling state its
caller does not count on. -/
def InTurn (s : PeerSession) : Event → Prop
  | .operationDone true =>
    match s.rtc, s.chain with
    | some pc, task :: _ => pc.closed = false → task.Expects pc.signaling
    | _, _ => True
  | _ => True

theorem setState_labelled (s : PeerSession) (next : PeerSessionState) :
    ∀ o ∈ (s.setState next).2, Labelled o := by
  unfold setState
  split <;> simp [Labelled]

theorem close_labelled (s : PeerSession) : ∀ o ∈ s.close.2, Labelled o := by
  unfold close
  split
  · simp [Labelled]
  · dsimp only
    split <;>
      exact List.forall_mem_append.mpr ⟨setState_labelled s .closed, by simp [Labelled]⟩

theorem handleSignalingMessage_labelled (s : PeerSession) (msg : SignalingMessage) :
    ∀ o ∈ (s.handleSignalingMessage msg).2, Labelled o := by
  unfold handleSignalingMessage
  split
  · simp
  · split
    · simp
    · cases msg with
      | offer from_ sdp =>
        unfold handleKind
        dsimp only
        split <;> simp
      | answer from_ to_ sdp => simp [handleKind]
      | ice from_ to_ candidate => simp [handleKind]
      | bye from_ => exact close_labelled s

theorem rejected_labelled (s : PeerSession) (task : Task) :
    ∀ o ∈ (s.rejected task).2, Labelled o := by
  cases task with
  | answer sdp => unfold rejected; dsimp only; split <;> simp [Labelled]
  | ice candidate => unfold rejected; dsimp only; split <;> simp [Labelled]
  | _ => simp [rejected, Labelled]

theorem bin_labelled (evs : List BinEvent) : ∀ o ∈ evs.map Out.bin, Labelled o := by
  intro o ho
  obtain ⟨e, _, rfl⟩ := List.mem_map.mp ho
  trivial

/-- Only the end of an operation publishes a description. -/
theorem step_labelled {s : PeerSession} {ev : Event} (h : ev ≠ .operationDone true) :
    ∀ o ∈ (s.step ev).2, Labelled o := by
  cases ev with
  | start =>
    simp only [step, start]
    split
    · simp [Labelled]
    · exact setState_labelled s .connecting
  | close => exact close_labelled s
  | negotiationNeeded => simp [step]
  | iceCandidate candidate =>
    simp only [step]
    split <;> simp [Labelled]
  | connectionStateChange cs =>
    simp only [step]
    split
    · simp
    · cases cs with
      | failed =>
        dsimp only
        split
        · exact setState_labelled s .failed
        · simp
      | closed =>
        dsimp only
        split
        · exact setState_labelled s .closed
        · simp
      | _ => simp
  | dataChannel label =>
    simp only [step]
    split
    · simp
    · split
      · simp
      · split
        · simp
        · split <;> simp
  | channelOpen i =>
    simp only [step]
    split
    · exact setState_labelled s .connected
    · simp
  | channelClose i =>
    simp only [step]
    split
    · split
      · exact setState_labelled s .closed
      · simp
    · simp
  | channelError i =>
    simp only [step]
    split <;> simp [Labelled]
  | textMessage i data =>
    simp only [step]
    split <;> simp [Labelled]
  | binMessage i now data =>
    simp only [step]
    split
    · cases data with
      | arrayBuffer buf => exact bin_labelled _
      | blob buf => simp
      | other => simp [Labelled]
    · simp
  | blobRead k now =>
    simp only [step]
    split
    · exact bin_labelled _
    · simp
  | gcTick now => exact bin_labelled _
  | signaling msg =>
    simp only [step]
    split
    · exact handleSignalingMessage_labelled s msg
    · simp
  | operationDone ok =>
    cases ok with
    | true => exact absurd rfl h
    | false =>
      simp only [step, operationDone, Bool.false_eq_true, if_false]
      split
      · split
        · simp
        · exact rejected_labelled _ _
      · simp
  | offerPublished ok =>
    simp only [step]
    split
    · simp
    · cases ok <;> simp [Labelled]
  | answerPublished ok =>
    simp only [step]
    split
    · simp
    · cases ok <;> simp [Labelled]
  | byePublished =>
    simp only [step]
    split <;> simp [Labelled]

/-- What the end of an operation publishes is labelled right exactly when the
operation found the state its caller counts on. -/
theorem fulfilled_labelled {s : PeerSession} {pc pc' : Rtc} {task : Task}
    (hrun : pc.run task.op = some pc') :
    (∀ o ∈ (s.fulfilled pc' task).2, Labelled o) ↔ task.Expects pc.signaling := by
  cases task with
  | negotiation =>
    obtain rfl := Option.some.inj hrun
    rcases pc.setLocalDescription_cases with ⟨remote, hs, hsdp⟩ | ⟨hs, hsdp⟩
    · simp [fulfilled, hs, hsdp, Labelled, Task.Expects]
    · simp [fulfilled, hs, hsdp, Labelled, Task.Expects]
  | answering offer =>
    obtain rfl := Option.some.inj hrun
    rcases pc.setLocalDescription_cases with ⟨remote, hs, hsdp⟩ | ⟨hs, hsdp⟩
    · simp [fulfilled, hs, hsdp, Labelled, Task.Expects]
    · simp [fulfilled, hs, hsdp, Labelled, Task.Expects]
  | offer sdp => simp [fulfilled, Task.Expects]
  | answer sdp => simp [fulfilled, Task.Expects]
  | ice candidate => simp [fulfilled, Task.Expects]

theorem operationDone_labelled (s : PeerSession) :
    (∀ o ∈ (s.step (.operationDone true)).2, Labelled o) ↔ s.InTurn (.operationDone true) := by
  unfold InTurn
  cases hrtc : s.rtc with
  | none => simp [step, operationDone, hrtc]
  | some pc =>
    cases hchain : s.chain with
    | nil => simp [step, operationDone, hrtc, hchain]
    | cons task rest =>
      cases hclosed : pc.closed with
      | true => simp [step, operationDone, hrtc, hchain, hclosed]
      | false =>
        simp only [step, operationDone, hrtc, hchain, hclosed, Bool.false_eq_true, if_false, if_true,
          forall_const]
        cases hrun : pc.run task.op with
        | some pc' => exact fulfilled_labelled hrun
        | none =>
          refine iff_of_true (rejected_labelled _ _) ?_
          -- only an answer is refused by the connection
          cases task with
          | answer sdp => trivial
          | _ => cases hrun

/-- Every description a session publishes is labelled with its true type,
exactly when no call of `setLocalDescription` comes to its turn in a signaling
state its caller does not count on. -/
theorem labelled_iff_inTurn (role : PeerSessionRole) (localPeerId : JsString)
    (remotePeerId : Option JsString) (evs : List Event) :
    (∀ o ∈ Machine.outputs step (.new role localPeerId remotePeerId) evs, Labelled o) ↔
      Machine.Guarded step InTurn (.new role localPeerId remotePeerId) evs := by
  refine Machine.outputs_iff_guarded (fun s ev => ?_) _ evs
  by_cases h : ev = .operationDone true
  · rw [h]
    exact operationDone_labelled s
  · refine iff_of_true (step_labelled h) ?_
    cases ev with
    | operationDone ok =>
      cases ok with
      | true => exact absurd rfl h
      | false => trivial
    | _ => trivial

def inviterId : JsString := js "0000000000000000000000000a"
def joinerId : JsString := js "0000000000000000000000000b"

/-- A second offer comes while the first is still being answered. -/
def overlappingOffers : List Event :=
  [.start, .signaling (.offer inviterId (.text (js "first"))),
    .signaling (.offer inviterId (.text (js "second"))),
    .operationDone true, .operationDone true, .operationDone true, .operationDone true]

/-- The answer to the second offer is published for the first, and a fresh offer
as the answer to the second. -/
theorem overlappingOffers_mislabelled :
    ¬∀ o ∈ Machine.outputs step (.new .joiner joinerId (some inviterId)) overlappingOffers,
      Labelled o := by
  intro h
  obtain ⟨n, sdp, hanswered, hsdp⟩ := h (.publish (.answer joinerId inviterId
    (.answer 0 (.text (js "second")))) (some (.text (js "first")))) (by decide +kernel)
  obtain rfl := Option.some.inj hanswered
  simp [js] at hsdp

end PeerSession

end Senn.Session
