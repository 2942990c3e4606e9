import Senn.Session.Closing
import Senn.Session.Negotiation
import Senn.Session.Publishing

/-! # The last message of a session

`close` publishes a `bye` and waits for it with the connection and the
subscription still open. From what each step says, the exact runs in which
nothing is published after a `bye`. -/

namespace Senn.Session
open Senn.Js Senn.Lib Senn.Core

/-- Nothing comes after a `bye`, no second one either. -/
def ByeFinal (ms : List SignalingMessage) : Prop :=
  ∀ pre from_ post, ms = pre ++ .bye from_ :: post → post = []

theorem byeFinal_append_of_quiet {ms ns : List SignalingMessage}
    (hms : ∀ from_, .bye from_ ∉ ms) : ByeFinal (ms ++ ns) ↔ ByeFinal ns := by
  constructor
  · rintro h pre from_ post rfl
    exact h (ms ++ pre) from_ post (by rw [List.append_assoc])
  · intro h pre from_ post heq
    rcases List.append_eq_append_iff.mp heq with ⟨mid, rfl, rfl⟩ | ⟨mid, rfl, hmid⟩
    · exact h mid from_ post rfl
    · cases mid with
      | nil => exact h [] from_ post (by simpa using hmid.symm)
      | cons m mid =>
        obtain ⟨rfl, _⟩ := List.cons.inj hmid
        exact absurd (by simp) (hms from_)

theorem byeFinal_bye {from_ : JsString} {ms : List SignalingMessage} :
    ByeFinal (.bye from_ :: ms) ↔ ms = [] := by
  refine ⟨fun h => h [] from_ ms rfl, ?_⟩
  rintro rfl pre sender post heq
  cases pre with
  | nil => exact (List.cons.inj heq).2.symm
  | cons m pre => simp at heq

namespace PeerSession

/-- The event calls `close` while the session is neither closed nor idle, which
has it publish a `bye`. -/
def Leaves (s : PeerSession) (ev : Event) : Prop :=
  s.CallsClose ev ∧ s.currentState ≠ .closed ∧ s.currentState ≠ .idle

/-- The event has the session publish nothing: `close` is not called in a
session that is neither closed nor idle, the connection has no candidate for a
known peer, and completes no `setLocalDescription`. -/
structure Resting (s : PeerSession) (ev : Event) : Prop where
  stays : ¬s.Leaves ev
  candidate : ∀ candidate, ev = .iceCandidate (some candidate) → s.rtc = none ∨ s.remotePeerId = none
  operation : ev = .operationDone true → ∀ pc task rest, s.rtc = some pc → pc.closed = false →
    s.chain = task :: rest → task.op ≠ .setLocalDescription

/-! ## What a step says -/

theorem farewell_isSome {s : PeerSession} :
    s.farewell ≠ none ↔ s.currentState ≠ .closed ∧ s.currentState ≠ .idle := by
  unfold farewell
  split
  · next h => simp only [ne_eq, not_true, false_iff]; tauto
  · next h => simp only [ne_eq, reduceCtorEq, not_false_iff, true_iff]; tauto

theorem described_isSome (s : PeerSession) (pc : Rtc) (task : Task) :
    s.described pc task ≠ none ↔ task.op = .setLocalDescription := by
  obtain ⟨sdp, hsdp⟩ := pc.setLocalDescription_isSome
  cases task <;> simp [described, Task.op, hsdp]

theorem said_bye (s : PeerSession) (from_ : JsString) :
    s.said (.signaling (.bye from_)) =
      if s.signalingUnsub && s.accepts (.bye from_) && s.pc && s.rtc.isSome then s.farewell
      else none := rfl

theorem callsClose_bye (s : PeerSession) (from_ : JsString) :
    s.CallsClose (.signaling (.bye from_)) ↔
      (s.signalingUnsub && s.accepts (.bye from_) && s.pc && s.rtc.isSome) = true := by
  simp [CallsClose, and_assoc, Option.isSome_iff_ne_none]

/-- What is said as the session leaves is its `bye`, and no other step says one. -/
theorem said_bye_iff (s : PeerSession) (ev : Event) :
    (∃ from_, s.said ev = some (.bye from_)) ↔ s.Leaves ev := by
  have hfarewell : (∃ from_, s.farewell = some (.bye from_)) ↔
      s.currentState ≠ .closed ∧ s.currentState ≠ .idle := by
    rw [← farewell_isSome]
    unfold farewell
    split <;> simp
  cases ev with
  | close => simpa [said, Leaves, CallsClose] using hfarewell
  | signaling msg =>
    cases msg with
    | bye from_ =>
      rw [said_bye, Leaves, callsClose_bye]
      split
      · next h => simpa [h] using hfarewell
      · next h => simp [h]
    | _ => simp [said, Leaves, CallsClose]
  | iceCandidate candidate =>
    simp only [said, Leaves, CallsClose, false_and, iff_false, not_exists]
    intro from_
    split <;> simp
  | operationDone ok =>
    simp only [Leaves, CallsClose, false_and, iff_false, not_exists]
    intro from_
    cases ok with
    | false => simp [said]
    | true =>
      simp only [said]
      split
      · next pc task rest _ _ =>
        split
        · simp
        · cases task <;> simp [described]
      · simp
  | _ => simp [said, Leaves, CallsClose]

theorem stays_of_silent {s : PeerSession} {ev : Event} (h : s.said ev = none) : ¬s.Leaves ev := by
  intro hl
  obtain ⟨from_, hbye⟩ := (said_bye_iff s ev).mpr hl
  rw [h] at hbye
  cases hbye

/-- The event says nothing exactly when the session rests. -/
theorem said_none_iff (s : PeerSession) (ev : Event) : s.said ev = none ↔ Resting s ev := by
  have hquiet (hl : ¬s.Leaves ev) (hc : ∀ candidate, ev ≠ .iceCandidate (some candidate))
      (ho : ev ≠ .operationDone true) : Resting s ev :=
    ⟨hl, fun candidate he => absurd he (hc candidate), fun he => absurd he ho⟩
  cases ev with
  | close =>
    refine ⟨fun h => hquiet (stays_of_silent h) (by simp) (by simp), fun h => ?_⟩
    by_contra hne
    exact h.stays ⟨trivial, farewell_isSome.mp hne⟩
  | signaling msg =>
    refine ⟨fun h => hquiet (stays_of_silent h) (by simp) (by simp), fun h => ?_⟩
    cases msg with
    | bye from_ =>
      rw [said_bye]
      split
      · next hcalls =>
        by_contra hne
        exact h.stays ⟨(callsClose_bye s from_).mpr hcalls, farewell_isSome.mp hne⟩
      · rfl
    | _ => rfl
  | iceCandidate candidate =>
    constructor
    · refine fun h => ⟨stays_of_silent h, ?_, fun he => by cases he⟩
      rintro c ⟨rfl⟩
      cases hrtc : s.rtc with
      | none => exact .inl rfl
      | some pc =>
        cases hremote : s.remotePeerId with
        | none => exact .inr rfl
        | some remote => simp [said, hrtc, hremote] at h
    · intro h
      cases candidate with
      | none => simp [said]
      | some c => rcases h.candidate c rfl with hnone | hnone <;> simp [said, hnone]
  | operationDone ok =>
    cases ok with
    | false => exact iff_of_true rfl (hquiet (fun h => h.1) (by simp) (by simp))
    | true =>
      constructor
      · refine fun h => ⟨stays_of_silent h, by simp,
          fun _ pc task rest hrtc hopen hchain hop => ?_⟩
        refine (described_isSome s pc task).mpr hop ?_
        simpa [said, hrtc, hchain, hopen] using h
      · intro h
        simp only [said]
        split
        · next pc task rest hrtc hchain =>
          split
          · rfl
          · next hopen =>
            have hop := h.operation rfl pc task rest hrtc (Bool.not_eq_true _ ▸ hopen) hchain
            by_contra hne
            exact hop ((described_isSome s pc task).mp hne)
        · rfl
  | _ => exact iff_of_true rfl (hquiet (fun h => h.1) (by simp) (by simp))

/-! ## Which runs end with their `bye` -/

theorem silent_iff (s : PeerSession) (evs : List Event) :
    published (Machine.outputs step s evs) = [] ↔ Machine.Guarded step Resting s evs := by
  induction evs generalizing s with
  | nil => simp [published, Machine.Guarded]
  | cons ev evs ih =>
    rw [Machine.outputs_cons, published_append, List.append_eq_nil_iff, ih, step_said,
      Machine.Guarded, ← said_none_iff]
    simp

/-- Nothing is published after a `bye` exactly in the runs in which, once the
session has left, every step finds it at rest. -/
theorem byeFinal_from (s : PeerSession) (evs : List Event) :
    ByeFinal (published (Machine.outputs step s evs)) ↔
      Machine.GuardedSince step Leaves Resting s evs := by
  induction evs generalizing s with
  | nil => simp [published, ByeFinal, Machine.GuardedSince]
  | cons ev evs ih =>
    rw [Machine.outputs_cons, published_append, step_said, Machine.GuardedSince]
    by_cases hl : s.Leaves ev
    · obtain ⟨from_, hbye⟩ := (said_bye_iff s ev).mpr hl
      have hrest (h : Machine.Guarded step Resting (s.step ev).1 evs) :
          Machine.GuardedSince step Leaves Resting (s.step ev).1 evs := by
        rw [← ih, (silent_iff _ _).mpr h]
        simp [ByeFinal]
      rw [hbye, Option.toList_some, List.singleton_append, byeFinal_bye, silent_iff]
      exact ⟨fun h => ⟨fun _ => h, hrest h⟩, fun h => h.1 hl⟩
    · rw [byeFinal_append_of_quiet, ih]
      · exact ⟨fun h => ⟨fun h' => absurd h' hl, h⟩, fun h => h.2⟩
      · intro from_ hmem
        refine hl ((said_bye_iff s ev).mp ⟨from_, ?_⟩)
        simpa [eq_comm] using hmem

/-- In a run of a session nothing is published after a `bye` exactly when, once
`close` was called in a session neither closed nor idle, every step finds the
session at rest. -/
theorem bye_final_iff (role : PeerSessionRole) (localPeerId : JsString)
    (remotePeerId : Option JsString) (evs : List Event) :
    ByeFinal (published (Machine.outputs step (.new role localPeerId remotePeerId) evs)) ↔
      Machine.GuardedSince step Leaves Resting (.new role localPeerId remotePeerId) evs :=
  byeFinal_from _ evs

/-- The negotiation was under way when `close` was called: its offer follows the
`bye`. -/
theorem offer_after_bye :
    ¬ByeFinal (published (Machine.outputs step (.new .inviter (js "a") none)
      [.start, .negotiationNeeded, .close, .operationDone true])) := by
  intro h
  have hpost := h [] (js "a") [.offer (js "a") (.offer 0)] rfl
  cases hpost

end PeerSession

end Senn.Session
