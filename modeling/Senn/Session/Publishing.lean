import Senn.Session.PeerSession
import Senn.Lib.Machine

/-! # The messages of a session

A step publishes at most one message. `said` is that message as a function of
the state before the step, and `step_said` is read by every result about the
messages of a run. -/

namespace Senn.Session
open Senn.Js Senn.Lib Senn.Core

/-- The message an output publishes. -/
def Out.message? : Out → Option SignalingMessage
  | .publish m _ => some m
  | _ => none

def published (outs : List Out) : List SignalingMessage := outs.filterMap Out.message?

theorem published_append (os ps : List Out) : published (os ++ ps) = published os ++ published ps :=
  List.filterMap_append

namespace PeerSession

theorem bin_published (evs : List BinEvent) : published (evs.map Out.bin) = [] := by
  simp [published, List.filterMap_map, Function.comp_def, Out.message?]

/-- The `bye` of a call of `close`. -/
def farewell (s : PeerSession) : Option SignalingMessage :=
  if s.currentState = .closed ∨ s.currentState = .idle then none else some (.bye s.localPeerId)

/-- What the operation at the head of the chain has its caller publish. -/
def described (s : PeerSession) (pc : Rtc) : Task → Option SignalingMessage
  | .negotiation => pc.setLocalDescription.localDescription.map (.offer s.localPeerId)
  | .answering _ => pc.setLocalDescription.localDescription.map
      (.answer s.localPeerId (s.remotePeerId.getD (js "null")))
  | _ => none

/-- What a step publishes. -/
def said (s : PeerSession) : Event → Option SignalingMessage
  | .close => s.farewell
  | .signaling (.bye from_) =>
    if s.signalingUnsub && s.accepts (.bye from_) && s.pc && s.rtc.isSome then s.farewell else none
  | .iceCandidate candidate =>
    match s.rtc, candidate, s.remotePeerId with
    | some _, some candidate, some remote => some (.ice s.localPeerId remote candidate)
    | _, _, _ => none
  | .operationDone true =>
    match s.rtc, s.chain with
    | some pc, task :: _ => if pc.closed then none else s.described pc task
    | _, _ => none
  | _ => none

theorem setState_published (s : PeerSession) (next : PeerSessionState) :
    published (s.setState next).2 = [] := by
  unfold setState
  split <;> simp [published, Out.message?]

theorem close_published (s : PeerSession) : published s.close.2 = s.farewell.toList := by
  unfold close farewell
  split
  · next h => rw [if_pos (.inl h)]; rfl
  · next h =>
    dsimp only
    split
    · next hidle =>
      rw [if_neg (by simp [h, hidle]), published_append, setState_published]
      rfl
    · next hidle =>
      rw [if_pos (.inr (not_not.mp hidle)), published_append, setState_published]
      rfl

theorem signaling_said (s : PeerSession) (msg : SignalingMessage) :
    published (s.step (.signaling msg)).2 = (s.said (.signaling msg)).toList := by
  cases msg with
  | bye from_ =>
    simp only [step, said, handleSignalingMessage]
    cases hsub : s.signalingUnsub with
    | false => simp [published]
    | true =>
      by_cases hpass : s.accepts (.bye from_) = true ∧ s.pc = true
      · cases hrtc : s.rtc with
        | none => simp [hpass.1, hpass.2, published]
        | some pc => simp [hpass.1, hpass.2, handleKind, close_published]
      · have hskip : (!s.accepts (.bye from_) || !s.pc) = true := by
          by_contra h
          exact hpass (by simpa using h)
        have hno : (true && s.accepts (.bye from_) && s.pc && s.rtc.isSome) = false := by
          by_contra h
          simp only [Bool.true_and, Bool.not_eq_false, Bool.and_eq_true] at h
          exact hpass h.1
        rw [hskip, hno]
        simp [published]
  | offer from_ sdp =>
    simp only [step, said, handleSignalingMessage]
    split
    · split
      · rfl
      · split
        · rfl
        · simp only [handleKind]
          split <;> rfl
    · rfl
  | answer from_ to_ sdp =>
    simp only [step, said, handleSignalingMessage]
    split
    · split
      · rfl
      · split <;> rfl
    · rfl
  | ice from_ to_ candidate =>
    simp only [step, said, handleSignalingMessage]
    split
    · split
      · rfl
      · split <;> rfl
    · rfl

theorem rejected_published (s : PeerSession) (task : Task) :
    published (s.rejected task).2 = [] := by
  cases task with
  | negotiation => rfl
  | offer sdp => rfl
  | answering sdp => rfl
  | answer sdp => simp only [rejected]; split <;> rfl
  | ice candidate => simp only [rejected]; split <;> rfl

theorem fulfilled_published {s s' : PeerSession} {pc pc' : Rtc} {task : Task}
    (hrun : pc.run task.op = some pc') (hlocal : s'.localPeerId = s.localPeerId)
    (hremote : s'.remotePeerId = s.remotePeerId) :
    published (s'.fulfilled pc' task).2 = (s.described pc task).toList := by
  cases task with
  | negotiation =>
    obtain rfl := Option.some.inj hrun
    simp only [fulfilled, described]
    cases pc.setLocalDescription.localDescription with
    | none => rfl
    | some sdp => simp [published, Out.message?, hlocal]
  | answering offer =>
    obtain rfl := Option.some.inj hrun
    simp only [fulfilled, described]
    cases pc.setLocalDescription.localDescription with
    | none => rfl
    | some sdp => simp [published, Out.message?, hlocal, hremote]
  | offer sdp => rfl
  | answer sdp => rfl
  | ice candidate => rfl

/-- An operation that fails has nothing published, nor would it have otherwise. -/
theorem described_of_failed {s : PeerSession} {pc : Rtc} {task : Task}
    (h : pc.run task.op = none) : s.described pc task = none := by
  cases task with
  | negotiation => cases h
  | answering sdp => cases h
  | offer sdp => rfl
  | answer sdp => rfl
  | ice candidate => rfl

theorem operationDone_said (s : PeerSession) (ok : Bool) :
    published (s.step (.operationDone ok)).2 = (s.said (.operationDone ok)).toList := by
  simp only [step, operationDone]
  cases hrtc : s.rtc with
  | none => cases ok <;> simp [said, hrtc, published]
  | some pc =>
    cases hchain : s.chain with
    | nil => cases ok <;> simp [said, hrtc, hchain, published]
    | cons task rest =>
      dsimp only
      cases ok with
      | false =>
        simp only [said, Bool.false_eq_true, if_false]
        split
        · rfl
        · exact rejected_published ..
      | true =>
        simp only [said, hrtc, hchain, if_true]
        split
        · rfl
        · cases hrun : pc.run task.op with
          | none =>
            rw [described_of_failed hrun]
            exact rejected_published ..
          | some pc' => exact fulfilled_published hrun rfl rfl

/-- A step publishes what `said` says. -/
theorem step_said (s : PeerSession) (ev : Event) :
    published (s.step ev).2 = (s.said ev).toList := by
  cases ev with
  | close => exact close_published s
  | signaling msg => exact signaling_said s msg
  | operationDone ok => exact operationDone_said s ok
  | start =>
    simp only [step, start, said]
    split
    · rfl
    · exact setState_published ..
  | negotiationNeeded => rfl
  | iceCandidate candidate =>
    cases hrtc : s.rtc with
    | none => simp [step, said, hrtc, published]
    | some pc =>
      cases candidate with
      | none => simp [step, said, hrtc, published]
      | some c =>
        cases hremote : s.remotePeerId <;>
          simp [step, said, hrtc, hremote, published, Out.message?]
  | connectionStateChange cs =>
    simp only [step, said]
    split
    · rfl
    · split
      · split
        · exact setState_published ..
        · rfl
      · split
        · exact setState_published ..
        · rfl
      · rfl
  | dataChannel label =>
    simp only [step, said]
    split
    · rfl
    · split
      · rfl
      · split
        · rfl
        · split <;> rfl
  | channelOpen i =>
    simp only [step, said]
    split
    · exact setState_published ..
    · rfl
  | channelClose i =>
    simp only [step, said]
    split
    · split
      · exact setState_published ..
      · rfl
    · rfl
  | channelError i =>
    simp only [step, said]
    split <;> rfl
  | textMessage i data =>
    simp only [step, said]
    split <;> rfl
  | binMessage i now data =>
    simp only [step, said]
    split
    · split
      · exact bin_published ..
      · rfl
      · rfl
    · rfl
  | blobRead k now =>
    simp only [step, said]
    split
    · exact bin_published ..
    · rfl
  | gcTick now => exact bin_published ..
  | offerPublished ok =>
    simp only [step, said]
    split
    · rfl
    · split <;> rfl
  | answerPublished ok =>
    simp only [step, said]
    split
    · rfl
    · split <;> rfl
  | byePublished =>
    simp only [step, said]
    split <;> rfl

end PeerSession

end Senn.Session
