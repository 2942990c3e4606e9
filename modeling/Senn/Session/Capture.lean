import Senn.Session.Candidates

/-! # Descriptions the connection rejects

The handler of an offer or an answer takes its sender for the remote peer and
then calls `setRemoteDescription`. When that call is rejected nothing is taken
back: a session that knew nobody is left to the sender of a description it could
not use, and ignores every other peer. -/

namespace Senn.Session
open Senn.Js Senn.Lib Senn.Core Senn.Protocol

/-- The call of `setRemoteDescription` for a message. -/
def SignalingMessage.description? : SignalingMessage → Option Task
  | .offer _ sdp => some (.offer sdp)
  | .answer _ _ sdp => some (.answer sdp)
  | _ => none

namespace PeerSession

/-! ## The order of the operations -/

/-- The operation that `ev` ends. -/
def ending (s : PeerSession) : Event → Option Task
  | .operationDone _ =>
    match s.rtc, s.chain with
    | some pc, task :: _ => if pc.closed then none else some task
    | _, _ => none
  | _ => none

/-- The operation that `ev` ends with a rejection. -/
def rejecting (s : PeerSession) : Event → Option Task
  | .operationDone ok =>
    match s.rtc, s.chain with
    | some pc, task :: _ =>
      if pc.closed || ok && (pc.run task.op).isSome then none else some task
    | _, _ => none
  | _ => none

/-- The operations that end in a run, in order. -/
def endings (s : PeerSession) (evs : List Event) : List Task :=
  Machine.noted step (fun s ev => (s.ending ev).toList) s evs

theorem ending_of_rejecting {s : PeerSession} {ev : Event} {task : Task}
    (h : s.rejecting ev = some task) : s.ending ev = some task := by
  cases ev with
  | operationDone ok =>
    simp only [rejecting, ending] at h ⊢
    split at h
    · split at h
      · cases h
      · next hopen =>
        rw [if_neg (by simp_all)]
        exact h
    · cases h
  | _ => cases h

theorem operationDone_chain (s : PeerSession) (ok : Bool) :
    ∃ queued, s.chain ++ queued =
      (s.ending (.operationDone ok)).toList ++ (s.operationDone ok).1.chain := by
  unfold operationDone ending
  cases hrtc : s.rtc with
  | none => exact ⟨[], by simp⟩
  | some pc =>
    cases hchain : s.chain with
    | nil => exact ⟨[], by simp [hchain]⟩
    | cons task rest =>
      cases hclosed : pc.closed with
      | true => exact ⟨[], by simp [hchain, hclosed]⟩
      | false =>
        simp only [hclosed, Bool.false_eq_true, if_false]
        split
        · cases task with
          | offer sdp => exact ⟨[.answering sdp], rfl⟩
          | negotiation =>
            refine ⟨[], ?_⟩
            simp only [fulfilled]
            split <;> simp
          | answering sdp =>
            refine ⟨[], ?_⟩
            simp only [fulfilled]
            split <;> simp
          | answer sdp => exact ⟨[], by simp [fulfilled]⟩
          | ice candidate => exact ⟨[], by simp [fulfilled]⟩
        · refine ⟨[], ?_⟩
          cases task <;> simp [rejected]

theorem setState_chain (s : PeerSession) (next : PeerSessionState) :
    (s.setState next).1.chain = s.chain := by
  unfold setState
  split <;> rfl

theorem close_chain (s : PeerSession) : s.close.1.chain = s.chain := by
  have hstate := s.setState_chain .closed
  unfold close
  split
  · rfl
  · dsimp only
    split <;> exact hstate

theorem start_chain (s : PeerSession) : s.start.1.chain = s.chain := by
  have hstate := s.setState_chain .connecting
  unfold start
  split
  · rfl
  · dsimp only [openChannels]
    split <;> exact hstate

theorem handleSignalingMessage_chain (s : PeerSession) (msg : SignalingMessage) :
    ∃ queued, (s.handleSignalingMessage msg).1.chain = s.chain ++ queued := by
  unfold handleSignalingMessage
  split
  · exact ⟨[], by simp⟩
  · split
    · exact ⟨[], by simp⟩
    · cases msg with
      | offer sender sdp =>
        simp only [handleKind]
        split
        · exact ⟨[], by simp⟩
        · exact ⟨[.offer sdp], rfl⟩
      | answer sender to_ sdp => exact ⟨[.answer sdp], rfl⟩
      | ice sender to_ candidate => exact ⟨[.ice candidate], rfl⟩
      | bye sender => exact ⟨[], by simp [handleKind, close_chain]⟩

/-- An event that ends no operation may queue some. -/
theorem quiet_chain {s : PeerSession} {ev : Event} (h : ∀ ok, ev ≠ .operationDone ok) :
    ∃ queued, (s.step ev).1.chain = s.chain ++ queued := by
  cases ev with
  | start => exact ⟨[], by simp [step, start_chain]⟩
  | close => exact ⟨[], by simp [step, close_chain]⟩
  | negotiationNeeded =>
    simp only [step, runNegotiation]
    split
    · exact ⟨[], by simp⟩
    · split
      · exact ⟨[.negotiation], rfl⟩
      · exact ⟨[], by simp⟩
  | signaling msg =>
    simp only [step]
    split
    · exact handleSignalingMessage_chain s msg
    · exact ⟨[], by simp⟩
  | operationDone ok => exact absurd rfl (h ok)
  | channelOpen i =>
    refine ⟨[], ?_⟩
    simp only [step]
    split <;> simp [setState_chain]
  | channelClose i =>
    refine ⟨[], ?_⟩
    simp only [step]
    split
    · split <;> simp [setState_chain]
    · simp
  | connectionStateChange cs =>
    refine ⟨[], ?_⟩
    simp only [step]
    split
    · simp
    · split
      · split <;> simp [setState_chain]
      · split <;> simp [setState_chain]
      · simp
  | _ =>
    refine ⟨[], ?_⟩
    simp only [step, bindDataChannel, bindBinaryChannel, handleBinaryFrame, teardown]
    grind

theorem step_chain (s : PeerSession) (ev : Event) :
    ∃ queued, s.chain ++ queued = (s.ending ev).toList ++ (s.step ev).1.chain := by
  by_cases h : ∃ ok, ev = .operationDone ok
  · obtain ⟨ok, rfl⟩ := h
    exact operationDone_chain s ok
  · obtain ⟨queued, hqueued⟩ := quiet_chain (s := s) (not_exists.mp h)
    refine ⟨queued, ?_⟩
    cases ev with
    | operationDone ok => exact absurd ⟨ok, rfl⟩ h
    | _ => simpa [ending] using hqueued.symm

/-- Operations end in the order in which they were queued. -/
theorem endings_chain (s : PeerSession) (evs : List Event) :
    ∃ queued, s.chain ++ queued = s.endings evs ++ (Machine.after step s evs).chain := by
  induction evs generalizing s with
  | nil => exact ⟨[], by simp [endings, Machine.noted]⟩
  | cons ev evs ih =>
    obtain ⟨first, hfirst⟩ := step_chain s ev
    obtain ⟨later, hlater⟩ := ih (s.step ev).1
    refine ⟨first ++ later, ?_⟩
    calc s.chain ++ (first ++ later)
        = (s.chain ++ first) ++ later := (List.append_assoc ..).symm
      _ = (s.ending ev).toList ++ ((s.step ev).1.chain ++ later) := by
          rw [hfirst, List.append_assoc]
      _ = (s.ending ev).toList ++ ((s.step ev).1.endings evs ++
            (Machine.after step (s.step ev).1 evs).chain) := by rw [hlater]
      _ = s.endings (ev :: evs) ++ (Machine.after step s (ev :: evs)).chain := by
          simp only [endings, Machine.noted, Machine.after_cons, List.append_assoc]

/-! ## What a rejected description leaves behind -/

/-- `setRemoteDescription` is called for `msg`; after the events `more` its turn
comes, and `ev` rejects it. -/
structure Rejected (s : PeerSession) (msg : SignalingMessage) (more : List Event) (ev : Event) :
    Prop where
  called : ∃ task, msg.description? = some task ∧
    (s.step (.signaling msg)).1.chain = s.chain ++ [task]
  turn : ((s.step (.signaling msg)).1.endings more).length = s.chain.length
  fails : (Machine.after step s (.signaling msg :: more)).rejecting ev ≠ none

/-- The session once the message has been handled. -/
def handled (s : PeerSession) (msg : SignalingMessage) (more : List Event) (ev : Event) :
    PeerSession := Machine.after step s (.signaling msg :: (more ++ [ev]))

/-- The operation whose turn it is in `Rejected` is the message's own. -/
theorem Rejected.own {s : PeerSession} {msg : SignalingMessage} {more : List Event} {ev : Event}
    (h : Rejected s msg more ev) :
    (Machine.after step s (.signaling msg :: more)).rejecting ev = msg.description? := by
  obtain ⟨task, hdescription, hchain⟩ := h.called
  obtain ⟨queued, hqueued⟩ := endings_chain (s.step (.signaling msg)).1 more
  rw [hchain, List.append_assoc] at hqueued
  have hrest := (List.append_inj hqueued h.turn.symm).2
  obtain ⟨other, hother⟩ := Option.ne_none_iff_exists'.mp h.fails
  rw [hother, hdescription]
  have hending := ending_of_rejecting hother
  cases ev with
  | operationDone ok =>
    simp only [ending, Machine.after_cons, ← hrest] at hending
    split at hending
    · next hhead =>
      split at hending
      · cases hending
      · rw [← hending, (List.cons.inj hhead).1]
    · cases hending
  | _ => cases hending

/-- A description is passed on to the connection exactly when its sender becomes
the peer of a session that knew none. -/
theorem captured_iff_called {s : PeerSession} {msg : SignalingMessage} {task : Task}
    (hs : s.remotePeerId = none) (hmsg : msg.description? = some task) :
    (s.step (.signaling msg)).1.remotePeerId = some msg.sender ↔
      (s.step (.signaling msg)).1.chain = s.chain ++ [task] := by
  simp only [step, handleSignalingMessage]
  split
  · split
    · simp [hs]
    · split
      · simp [hs]
      · cases msg with
        | offer sender sdp =>
          obtain rfl := Option.some.inj hmsg
          simp only [handleKind]
          split
          · simp [hs]
          · simp [hs, SignalingMessage.sender]
        | answer sender to_ sdp =>
          obtain rfl := Option.some.inj hmsg
          simp [handleKind, hs, SignalingMessage.sender]
        | ice sender to_ candidate => cases hmsg
        | bye sender => cases hmsg
  · simp [hs]

/-- A rejected description captures the session in every run: its sender is the
peer from then on, and a message of another peer changes nothing any more. -/
theorem rejected_description_captures {s : PeerSession} {msg : SignalingMessage}
    {more : List Event} {ev : Event} (hs : s.remotePeerId = none) (h : Rejected s msg more ev) :
    (s.handled msg more ev).remotePeerId = some msg.sender ∧
      ∀ later other, other.sender ≠ msg.sender →
        (Machine.after step (s.handled msg more ev) later).step (.signaling other) =
          (Machine.after step (s.handled msg more ev) later, []) := by
  obtain ⟨task, hdescription, hchain⟩ := h.called
  have hcaptured := (captured_iff_called hs hdescription).mpr hchain
  have hremote : (s.handled msg more ev).remotePeerId = some msg.sender :=
    after_remote hcaptured (more ++ [ev])
  refine ⟨hremote, fun later other hother => ?_⟩
  exact foreign_ignored (after_remote hremote later) (.inr (.inl hother))

def malloryId : JsString := js "0000000000000000000000000c"

/-- An answer comes where none is expected. -/
def strayAnswer : SignalingMessage := .answer malloryId inviterId (.text (js "no description"))

def startedInviter : PeerSession := Machine.after step (.new .inviter inviterId none) [.start]

theorem strayAnswer_rejected :
    Rejected startedInviter strayAnswer [] (.operationDone true) := by
  refine ⟨⟨.answer (.text (js "no description")), rfl, ?_⟩, ?_, ?_⟩
  · decide +kernel
  · decide +kernel
  · decide +kernel

theorem strayAnswer_captures :
    startedInviter.remotePeerId = none ∧
      (startedInviter.handled strayAnswer [] (.operationDone true)).remotePeerId =
        some malloryId :=
  ⟨by decide +kernel, (rejected_description_captures (by decide +kernel) strayAnswer_rejected).1⟩

/-- The connection rejects the answer, and its sender is the peer. -/
theorem strayAnswer_not_forgotten :
    ¬∀ (s : PeerSession) (msg : SignalingMessage) (more : List Event) (ev : Event),
      s.remotePeerId = none → Rejected s msg more ev →
        (s.handled msg more ev).remotePeerId = none := by
  intro h
  have hnone := h startedInviter strayAnswer [] (.operationDone true) (by decide +kernel)
    strayAnswer_rejected
  exact absurd hnone (by decide +kernel)

end PeerSession

end Senn.Session
