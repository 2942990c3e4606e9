import Senn.Session.PeerSession
import Senn.Lib.Machine

/-! # The states of a session

`step_state` lists what can change `currentState`. From it: a run moves along
the arrows of the lifecycle exactly when no `core.text` channel opens while the
session is closed or failed; the handler of `open` is the one that does not
look at the state. -/

namespace Senn.Session
open Senn.Js Senn.Lib Senn.Core

/-- The arrows of the lifecycle. -/
inductive Transition : PeerSessionState → PeerSessionState → Prop
  | start : Transition .idle .connecting
  | connect : Transition .connecting .connected
  | fail {a : PeerSessionState} : a = .connecting ∨ a = .connected → Transition a .failed
  | close {a : PeerSessionState} : Transition a .closed

namespace PeerSession

/-! ## What changes the state -/

theorem setState_state (s : PeerSession) (next : PeerSessionState) :
    (s.setState next).1.currentState = next := by
  unfold setState
  split
  · next h => exact h
  · rfl

theorem openChannels_state (s : PeerSession) : s.openChannels.currentState = s.currentState := by
  unfold openChannels
  split <;> rfl

theorem start_state {s : PeerSession} (h : s.currentState = .idle) :
    s.start.1.currentState = .connecting := by
  rw [start, if_neg (not_not.mpr h)]
  exact (openChannels_state _).trans (setState_state s .connecting)

theorem close_state (s : PeerSession) : s.close.1.currentState = .closed := by
  unfold close
  split
  · next h => exact h
  · dsimp only
    split <;> exact setState_state s .closed

theorem handleKind_state (s : PeerSession) (pc : Rtc) (msg : SignalingMessage) :
    (s.handleKind pc msg).1.currentState = s.currentState ∨
      (s.handleKind pc msg).1.currentState = .closed := by
  cases msg with
  | offer sender sdp =>
    left
    unfold handleKind
    dsimp only
    split <;> rfl
  | answer sender to_ sdp => exact .inl rfl
  | ice sender to_ candidate => exact .inl rfl
  | bye sender => exact .inr (close_state s)

theorem handleSignalingMessage_state (s : PeerSession) (msg : SignalingMessage) :
    (s.handleSignalingMessage msg).1.currentState = s.currentState ∨
      (s.handleSignalingMessage msg).1.currentState = .closed := by
  unfold handleSignalingMessage
  split
  · exact .inl rfl
  · split
    · exact .inl rfl
    · exact handleKind_state ..

/-- What the code after an operation writes. -/
theorem fulfilled_writes (s : PeerSession) (pc : Rtc) (task : Task) :
    ∃ makingOffer offers answers chain, (s.fulfilled pc task).1 =
      { s with
        makingOffer := makingOffer
        offerPublishes := offers
        answerPublishes := answers
        chain := chain } := by
  cases task with
  | negotiation =>
    unfold fulfilled
    dsimp only
    split <;> exact ⟨_, _, _, _, rfl⟩
  | answering sdp =>
    unfold fulfilled
    dsimp only
    split <;> exact ⟨_, _, _, _, rfl⟩
  | _ => exact ⟨_, _, _, _, rfl⟩

theorem rejected_writes (s : PeerSession) (task : Task) :
    ∃ makingOffer, (s.rejected task).1 = { s with makingOffer := makingOffer } := by
  cases task <;> exact ⟨_, rfl⟩

theorem operationDone_state (s : PeerSession) (ok : Bool) :
    (s.operationDone ok).1.currentState = s.currentState := by
  unfold operationDone
  split
  · split
    · rfl
    · split
      · next pc' _ =>
        obtain ⟨_, _, _, _, hw⟩ := fulfilled_writes _ pc' _
        rw [hw]
      · obtain ⟨_, hw⟩ := rejected_writes _ _
        rw [hw]
  · rfl

/-- What a step can do to the state. -/
inductive StateChange (s : PeerSession) : Event → PeerSessionState → Prop
  | same {ev : Event} : StateChange s ev s.currentState
  | start : s.currentState = .idle → StateChange s .start .connecting
  | close : StateChange s .close .closed
  | failed : s.rtc ≠ none → s.currentState ≠ .closed →
      StateChange s (.connectionStateChange .failed) .failed
  | closed {ev : Event} : s.rtc ≠ none ∨ s.channels ≠ [] ∨ s.signalingUnsub = true →
      StateChange s ev .closed
  | opened {i : Nat} {c : Bool} : s.channels[i]? = some ⟨.text, c⟩ →
      StateChange s (.channelOpen i) .connected

theorem ne_nil_of_getElem? {l : List Channel} {i : Nat} {c : Channel} (h : l[i]? = some c) :
    l ≠ [] := by
  rintro rfl
  cases h

theorem step_state (s : PeerSession) (ev : Event) :
    StateChange s ev (s.step ev).1.currentState := by
  cases ev with
  | start =>
    by_cases h : s.currentState = .idle
    · rw [step, start_state h]
      exact .start h
    · rw [step, start, if_pos h]
      exact .same
  | close =>
    simp only [step, close_state]
    exact .close
  | negotiationNeeded =>
    have hstate : (s.step .negotiationNeeded).1.currentState = s.currentState := by
      simp only [step, runNegotiation]
      split
      · rfl
      · split <;> rfl
    rw [hstate]
    exact .same
  | iceCandidate candidate =>
    simp only [step]
    split <;> exact .same
  | connectionStateChange cs =>
    simp only [step]
    split
    · exact .same
    · next hrtc =>
      cases cs with
      | failed =>
        dsimp only
        split
        · next h => rw [setState_state]; exact .failed hrtc h
        · exact .same
      | closed =>
        dsimp only
        split
        · rw [setState_state]; exact .closed (.inl hrtc)
        · exact .same
      | new => exact .same
      | connecting => exact .same
      | connected => exact .same
      | disconnected => exact .same
  | dataChannel label =>
    simp only [step]
    split
    · exact .same
    · split
      · exact .same
      · split
        · exact .same
        · split <;> exact .same
  | channelOpen i =>
    simp only [step]
    split
    · next c hc => rw [setState_state]; exact .opened hc
    · exact .same
  | channelClose i =>
    simp only [step]
    split
    · next c hc =>
      split
      · rw [setState_state]; exact .closed (.inr (.inl (ne_nil_of_getElem? hc)))
      · exact .same
    · exact .same
  | channelError i => exact .same
  | textMessage i data =>
    simp only [step]
    split <;> exact .same
  | binMessage i now data =>
    simp only [step]
    split
    · cases data <;> exact .same
    · exact .same
  | blobRead k now =>
    simp only [step]
    split <;> exact .same
  | gcTick now => exact .same
  | signaling msg =>
    simp only [step]
    split
    · next hsub =>
      rcases handleSignalingMessage_state s msg with h | h
      · rw [h]; exact .same
      · rw [h]; exact .closed (.inr (.inr hsub))
    · exact .same
  | operationDone ok =>
    simp only [step, operationDone_state]
    exact .same
  | offerPublished ok =>
    simp only [step]
    split <;> exact .same
  | answerPublished ok =>
    simp only [step]
    split <;> exact .same
  | byePublished =>
    simp only [step]
    split <;> exact .same

/-! ## Which runs keep to the lifecycle -/

/-- Before `start` there is nothing an event could come from. -/
def Fresh (s : PeerSession) : Prop :=
  s.currentState = .idle → s.rtc = none ∧ s.channels = [] ∧ s.signalingUnsub = false

theorem idle_of_step {s : PeerSession} {ev : Event} (h : (s.step ev).1.currentState = .idle) :
    s.currentState = .idle := by
  have hc := step_state s ev
  rw [h] at hc
  generalize hn : PeerSessionState.idle = next at hc
  cases hc with
  | same => rfl
  | start => cases hn
  | close => cases hn
  | failed => cases hn
  | closed => cases hn
  | opened => cases hn

theorem step_fresh (s : PeerSession) (ev : Event) (hs : Fresh s) : Fresh (s.step ev).1 := by
  intro h
  have hidle := idle_of_step h
  obtain ⟨hrtc, hchannels, hsub⟩ := hs hidle
  cases ev with
  | start =>
    rw [step, start_state hidle] at h
    cases h
  | close =>
    rw [step, close_state] at h
    cases h
  | byePublished =>
    simp only [step]
    split
    · exact ⟨hrtc, hchannels, hsub⟩
    · exact ⟨by simp [teardown, hrtc], by simp [teardown, hchannels], rfl⟩
  | offerPublished ok =>
    simp only [step]
    split <;> exact ⟨hrtc, hchannels, hsub⟩
  | answerPublished ok =>
    simp only [step]
    split <;> exact ⟨hrtc, hchannels, hsub⟩
  | blobRead k now =>
    simp only [step]
    split <;> exact ⟨hrtc, hchannels, hsub⟩
  | operationDone ok => simpa [step, operationDone, hrtc] using ⟨hchannels, hsub⟩
  | gcTick now => exact ⟨hrtc, hchannels, hsub⟩
  | channelError i => exact ⟨hrtc, hchannels, hsub⟩
  | negotiationNeeded => simpa [step, hrtc] using ⟨hchannels, hsub⟩
  | iceCandidate candidate => simpa [step, hrtc] using ⟨hchannels, hsub⟩
  | connectionStateChange cs => simpa [step, hrtc] using ⟨hchannels, hsub⟩
  | dataChannel label => simpa [step, hrtc] using ⟨hchannels, hsub⟩
  | channelOpen i => simpa [step, hchannels] using ⟨hrtc, hsub⟩
  | channelClose i => simpa [step, hchannels] using ⟨hrtc, hsub⟩
  | textMessage i data => simpa [step, hchannels] using ⟨hrtc, hsub⟩
  | binMessage i now data => simpa [step, hchannels] using ⟨hrtc, hsub⟩
  | signaling msg => simpa [step, hsub] using ⟨hrtc, hchannels⟩

/-- The step goes along an arrow, and out of `idle` only by `start` or `close`. -/
def LegalStep (s : PeerSession) (ev : Event) : Prop :=
  (s.step ev).1.currentState = s.currentState ∨
    Transition s.currentState (s.step ev).1.currentState ∧
      (s.currentState = .idle → ev = .start ∨ ev = .close)

/-- No text channel opens in a closed or failed session. -/
def Orderly (s : PeerSession) : Event → Prop
  | .channelOpen i => ∀ c, s.channels[i]? = some ⟨.text, c⟩ →
      s.currentState ≠ .closed ∧ s.currentState ≠ .failed
  | _ => True

theorem not_idle {s : PeerSession} (hs : Fresh s)
    (h : s.rtc ≠ none ∨ s.channels ≠ [] ∨ s.signalingUnsub = true) : s.currentState ≠ .idle := by
  intro hidle
  obtain ⟨hrtc, hchannels, hsub⟩ := hs hidle
  rcases h with h | h | h
  · exact h hrtc
  · exact h hchannels
  · rw [hsub] at h
    cases h

theorem legal_of_orderly {s : PeerSession} {ev : Event} (hs : Fresh s) (ho : Orderly s ev) :
    LegalStep s ev := by
  have hc := step_state s ev
  unfold LegalStep
  generalize (s.step ev).1.currentState = next at hc ⊢
  cases hc with
  | same => exact .inl rfl
  | start hidle =>
    rw [hidle]
    exact .inr ⟨.start, fun _ => .inl rfl⟩
  | close => exact .inr ⟨.close, fun _ => .inr rfl⟩
  | closed hsource => exact .inr ⟨.close, fun hidle => absurd hidle (not_idle hs hsource)⟩
  | failed hrtc hne =>
    have hidle := not_idle hs (.inl hrtc)
    cases hstate : s.currentState with
    | idle => exact absurd hstate hidle
    | closed => exact absurd hstate hne
    | failed => exact .inl rfl
    | connecting => exact .inr ⟨.fail (.inl rfl), fun h => by cases h⟩
    | connected => exact .inr ⟨.fail (.inr rfl), fun h => by cases h⟩
  | opened hchannel =>
    have hidle := not_idle hs (.inr (.inl (ne_nil_of_getElem? hchannel)))
    obtain ⟨hclosed, hfailed⟩ := ho _ hchannel
    cases hstate : s.currentState with
    | idle => exact absurd hstate hidle
    | closed => exact absurd hstate hclosed
    | failed => exact absurd hstate hfailed
    | connecting => exact .inr ⟨.connect, fun h => by cases h⟩
    | connected => exact .inl rfl

theorem orderly_of_legal {s : PeerSession} {ev : Event} (hl : LegalStep s ev) : Orderly s ev := by
  cases ev with
  | channelOpen i =>
    intro c hchannel
    have hopen : (s.step (.channelOpen i)).1.currentState = .connected := by
      simp only [step, hchannel, setState_state]
    unfold LegalStep at hl
    rw [hopen] at hl
    rcases hl with hl | ⟨hl, _⟩
    · rw [← hl]
      exact ⟨by simp, by simp⟩
    · generalize s.currentState = a at hl ⊢
      cases hl with
      | connect => exact ⟨by simp, by simp⟩
  | _ => trivial

/-- A run keeps to the lifecycle: its steps go along the arrows, `closed` is
never left, and `failed` only for `closed`. -/
structure Lifecycle (s : PeerSession) (evs : List Event) : Prop where
  steps : ∀ pre ev post, evs = pre ++ ev :: post → LegalStep (Machine.after step s pre) ev
  closed : ∀ p q, p ++ q <+: evs → (Machine.after step s p).currentState = .closed →
    (Machine.after step s (p ++ q)).currentState = .closed
  failed : ∀ p q, p ++ q <+: evs → (Machine.after step s p).currentState = .failed →
    (Machine.after step s (p ++ q)).currentState = .failed ∨
    (Machine.after step s (p ++ q)).currentState = .closed

theorem LegalStep.closed {s : PeerSession} {ev : Event} (h : LegalStep s ev)
    (hs : s.currentState = .closed) : (s.step ev).1.currentState = .closed := by
  rcases h with h | ⟨h, _⟩
  · rw [h, hs]
  · rw [hs] at h
    generalize (s.step ev).1.currentState = next at h ⊢
    cases h with
    | fail hf => simp at hf
    | close => rfl

theorem LegalStep.failed {s : PeerSession} {ev : Event} (h : LegalStep s ev)
    (hs : s.currentState = .failed) :
    (s.step ev).1.currentState = .failed ∨ (s.step ev).1.currentState = .closed := by
  rcases h with h | ⟨h, _⟩
  · exact .inl (h.trans hs)
  · rw [hs] at h
    generalize (s.step ev).1.currentState = next at h ⊢
    cases h with
    | fail hf => simp at hf
    | close => exact .inr rfl

theorem Lifecycle.of_guarded {s : PeerSession} {evs : List Event}
    (h : Machine.Guarded step LegalStep s evs) : Lifecycle s evs := by
  have hsplit : ∀ p q, p ++ q <+: evs → Machine.Guarded step LegalStep (Machine.after step s p) q := by
    rintro p q ⟨r, rfl⟩
    exact (Machine.guarded_append.mp (Machine.guarded_append.mp h).1).2
  refine ⟨Machine.guarded_iff_forall.mp h, fun p q hpq hp => ?_, fun p q hpq hp => ?_⟩
  · rw [Machine.after_append]
    exact Machine.guarded_inv (P := fun s => s.currentState = .closed)
      (fun _ _ hc hl => hl.closed hc) hp (hsplit p q hpq)
  · rw [Machine.after_append]
    refine Machine.guarded_inv (P := fun s => s.currentState = .failed ∨ s.currentState = .closed)
      (fun s ev hc hl => ?_) (.inl hp) (hsplit p q hpq)
    rcases hc with hc | hc
    · exact hl.failed hc
    · exact .inr (hl.closed hc)

/-- A session keeps to the lifecycle exactly in the runs in which no text
channel opens while it is closed or failed. -/
theorem lifecycle_iff_orderly (role : PeerSessionRole) (localPeerId : JsString)
    (remotePeerId : Option JsString) (evs : List Event) :
    Lifecycle (.new role localPeerId remotePeerId) evs ↔
      Machine.Guarded step Orderly (.new role localPeerId remotePeerId) evs := by
  have hcongr := Machine.guarded_congr (C := LegalStep) (D := Orderly) step_fresh
    (fun s ev hs => ⟨orderly_of_legal, legal_of_orderly hs⟩)
    (s := .new role localPeerId remotePeerId) (fun _ => ⟨rfl, rfl, rfl⟩) evs
  rw [← hcongr]
  exact ⟨fun h => Machine.guarded_iff_forall.mpr h.steps, Lifecycle.of_guarded⟩

/-- A channel opens while `close` waits for its publish: the session is
connected again. -/
theorem reopened_after_close :
    ¬Lifecycle (.new .inviter (js "a") none) [.start, .close, .channelOpen 0] := by
  intro h
  have hclosed := h.closed [.start, .close] [.channelOpen 0] (List.prefix_refl _) rfl
  cases hclosed

end PeerSession

end Senn.Session
