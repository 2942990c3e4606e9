import Senn.Session.Negotiation
import Senn.Session.Pinning
import Mathlib.Data.List.Perm.Subperm

/-! # The ICE candidates of a session

The handler of `icecandidate` drops what the connection gathers while the remote
peer is not known. What is published is compared with what was gathered; every
candidate gets out exactly in the runs whose peer is never known, or is known
whenever a candidate comes. -/

namespace Senn.Session
open Senn.Js Senn.Lib Senn.Core

/-- The candidate of an `ice` message. -/
def SignalingMessage.candidate? : SignalingMessage → Option JsString
  | .ice _ _ candidate => some candidate
  | _ => none

/-- The candidates published. -/
def ices (ms : List SignalingMessage) : List JsString := ms.filterMap SignalingMessage.candidate?

theorem ices_append (ms ns : List SignalingMessage) : ices (ms ++ ns) = ices ms ++ ices ns :=
  List.filterMap_append

/-- The candidate of an `icecandidate` event. -/
def Event.candidate? : Event → Option JsString
  | .iceCandidate candidate => candidate
  | _ => none

namespace PeerSession

/-- The candidates that come in a run while the session meets `C`. -/
def candidates (C : PeerSession → Prop) [DecidablePred C] :
    PeerSession → List Event → List JsString
  | _, [] => []
  | s, ev :: evs =>
    (if C s then ev.candidate?.toList else []) ++ candidates C (s.step ev).1 evs

/-- There is a connection to gather candidates. -/
def Connected (s : PeerSession) : Prop := s.rtc ≠ none

/-- There is a connection, and the session is neither closed nor failed. -/
def Active (s : PeerSession) : Prop :=
  s.rtc ≠ none ∧ s.currentState ≠ .closed ∧ s.currentState ≠ .failed

/-- There is a connection, and the session knows its remote peer. -/
def Addressable (s : PeerSession) : Prop := s.rtc ≠ none ∧ s.remotePeerId ≠ none

instance : DecidablePred Connected := fun s => inferInstanceAs (Decidable (s.rtc ≠ none))

instance : DecidablePred Active := fun s =>
  inferInstanceAs
    (Decidable (s.rtc ≠ none ∧ s.currentState ≠ .closed ∧ s.currentState ≠ .failed))

instance : DecidablePred Addressable := fun s =>
  inferInstanceAs (Decidable (s.rtc ≠ none ∧ s.remotePeerId ≠ none))

theorem candidates_append (C : PeerSession → Prop) [DecidablePred C] (s : PeerSession)
    (evs more : List Event) : candidates C s (evs ++ more) =
      candidates C s evs ++ candidates C (Machine.after step s evs) more := by
  induction evs generalizing s with
  | nil => rfl
  | cons ev evs ih =>
    rw [List.cons_append, candidates, ih, candidates, List.append_assoc, Machine.after_cons]

/-! ## What is published of the candidates -/

theorem farewell_candidate (s : PeerSession) :
    s.farewell.toList.filterMap SignalingMessage.candidate? = [] := by
  unfold farewell
  split <;> rfl

theorem described_candidate (s : PeerSession) (pc : Rtc) (task : Task) :
    (s.described pc task).toList.filterMap SignalingMessage.candidate? = [] := by
  cases task with
  | negotiation =>
    simp only [described]
    cases pc.setLocalDescription.localDescription <;> rfl
  | answering sdp =>
    simp only [described]
    cases pc.setLocalDescription.localDescription <;> rfl
  | _ => rfl

theorem said_candidate (s : PeerSession) (ev : Event) :
    ices (s.said ev).toList = if Addressable s then ev.candidate?.toList else [] := by
  cases ev with
  | close => simp [said, ices, farewell_candidate, Event.candidate?]
  | signaling msg =>
    cases msg with
    | bye from_ =>
      simp only [said, ices, Event.candidate?]
      split
      · simp [farewell_candidate]
      · simp
    | _ => simp [said, ices, Event.candidate?]
  | iceCandidate candidate =>
    cases hrtc : s.rtc with
    | none => simp [said, hrtc, Addressable, ices]
    | some pc =>
      cases hremote : s.remotePeerId with
      | none => simp [said, hrtc, hremote, Addressable, ices]
      | some remote =>
        cases candidate <;>
          simp [said, hrtc, hremote, Addressable, ices, Event.candidate?,
            SignalingMessage.candidate?]
  | operationDone ok =>
    cases ok with
    | false => simp [said, ices, Event.candidate?]
    | true =>
      simp only [said, ices, Event.candidate?]
      split
      · split
        · simp
        · simp [described_candidate]
      · simp
  | _ => simp [said, ices, Event.candidate?]

/-- The candidates published are those that came while the peer was known. -/
theorem ices_published (s : PeerSession) (evs : List Event) :
    ices (published (Machine.outputs step s evs)) = candidates Addressable s evs := by
  induction evs generalizing s with
  | nil => rfl
  | cons ev evs ih =>
    rw [Machine.outputs_cons, published_append, ices_append, step_said, said_candidate, ih,
      candidates]

theorem candidates_sublist {C D : PeerSession → Prop} [DecidablePred C] [DecidablePred D]
    {s : PeerSession} {evs : List Event}
    (h : Machine.Guarded step (fun s ev => ev.candidate? ≠ none → C s → D s) s evs) :
    (candidates C s evs).Sublist (candidates D s evs) := by
  induction evs generalizing s with
  | nil => exact .refl _
  | cons ev evs ih =>
    refine List.Sublist.append ?_ (ih h.2)
    cases hc : ev.candidate? with
    | none => simp
    | some candidate =>
      by_cases hC : C s
      · rw [if_pos hC, if_pos (h.1 (by simp [hc]) hC)]
      · simp [hC]

/-! ## Which runs lose none -/

/-- Each candidate that came in an open session has been published once, no
candidate twice, and all of them to `remote`. -/
structure Delivered (s : PeerSession) (evs : List Event) (remote : JsString) : Prop where
  sent : (candidates Active s evs).Subperm (ices (published (Machine.outputs step s evs)))
  once : (ices (published (Machine.outputs step s evs))).Subperm (candidates Connected s evs)
  addressed : ∀ m ∈ published (Machine.outputs step s evs), m.candidate? ≠ none →
    m.target = some remote

/-- Whenever the session knows its peer, no candidate is missing. -/
def NoneLost (s : PeerSession) (evs : List Event) : Prop :=
  ∀ pre, pre <+: evs → ∀ remote, (Machine.after step s pre).remotePeerId = some remote →
    Delivered s pre remote

/-- The peer is known when a candidate comes in an open session. -/
def PeerFirst (s : PeerSession) (ev : Event) : Prop :=
  ev.candidate? ≠ none → Active s → s.remotePeerId ≠ none

theorem target_of_candidate {m : SignalingMessage} (h : m.candidate? ≠ none) :
    ∃ to_, m.target = some to_ := by
  cases m with
  | ice from_ to_ candidate => exact ⟨to_, rfl⟩
  | _ => exact absurd rfl h

theorem delivered_of_peerFirst {s : PeerSession} {evs : List Event} {remote : JsString}
    (hasker : s.KnowsAsker) (h : Machine.Guarded step PeerFirst s evs)
    (hremote : (Machine.after step s evs).remotePeerId = some remote) :
    Delivered s evs remote := by
  refine ⟨?_, ?_, fun m hm hc => ?_⟩
  · rw [ices_published]
    exact (candidates_sublist (h.mono fun s ev hfirst hc ha => ⟨ha.1, hfirst hc ha⟩)).subperm
  · rw [ices_published]
    refine (candidates_sublist (Machine.guarded_iff_forall.mpr ?_)).subperm
    exact fun pre ev post _ _ ha => ha.1
  · obtain ⟨to_, hto⟩ := target_of_candidate hc
    rw [hto, ← published_target hasker evs m hm to_ hto, hremote]

/-- A peer that becomes known does so in some step. -/
theorem becomes_known {s : PeerSession} {evs : List Event} (hs : s.remotePeerId = none)
    (h : (Machine.after step s evs).remotePeerId ≠ none) :
    ∃ pre ev post, evs = pre ++ ev :: post ∧ (Machine.after step s pre).remotePeerId = none ∧
      (Machine.after step s (pre ++ [ev])).remotePeerId ≠ none := by
  induction evs generalizing s with
  | nil => exact absurd hs h
  | cons ev evs ih =>
    by_cases hnext : (s.step ev).1.remotePeerId = none
    · obtain ⟨pre, next, post, rfl, hnone, hsome⟩ := ih hnext h
      exact ⟨ev :: pre, next, post, rfl, hnone, hsome⟩
    · exact ⟨[], ev, evs, rfl, hs, hnext⟩

theorem known_stays {s : PeerSession} (h : s.remotePeerId ≠ none) (evs : List Event) :
    (Machine.after step s evs).remotePeerId ≠ none := by
  obtain ⟨remote, hremote⟩ := Option.ne_none_iff_exists'.mp h
  rw [after_remote hremote]
  simp

/-- While the peer is not known nothing is published of the candidates. -/
theorem candidates_unknown {s : PeerSession} {evs : List Event}
    (h : (Machine.after step s evs).remotePeerId = none) : candidates Addressable s evs = [] := by
  induction evs generalizing s with
  | nil => rfl
  | cons ev evs ih =>
    have hs : s.remotePeerId = none := by
      by_contra hne
      exact known_stays hne (ev :: evs) h
    rw [candidates, ih h, if_neg (fun ha => ha.2 hs)]
    rfl

theorem peerFirst_of_known {s : PeerSession} (h : s.remotePeerId ≠ none) (evs : List Event) :
    Machine.Guarded step PeerFirst s evs :=
  Machine.guarded_iff_forall.mpr fun pre _ _ _ _ _ => known_stays h pre

/-- Where no candidate came in an open session, the peer was known for each. -/
theorem peerFirst_of_nil {s : PeerSession} {evs : List Event} (h : candidates Active s evs = []) :
    Machine.Guarded step PeerFirst s evs := by
  induction evs generalizing s with
  | nil => trivial
  | cons ev evs ih =>
    obtain ⟨hhead, htail⟩ := List.append_eq_nil_iff.mp h
    refine ⟨fun hc ha => absurd ?_ hc, ih htail⟩
    rw [if_pos ha] at hhead
    exact Option.toList_eq_nil_iff.mp hhead

/-- No candidate is lost exactly in the runs whose peer is never known, or is
known whenever a candidate comes in an open session. -/
theorem candidates_delivered_iff (role : PeerSessionRole) (localPeerId : JsString)
    (remotePeerId : Option JsString) (evs : List Event) :
    NoneLost (.new role localPeerId remotePeerId) evs ↔
      (Machine.after step (.new role localPeerId remotePeerId) evs).remotePeerId = none ∨
        Machine.Guarded step PeerFirst (.new role localPeerId remotePeerId) evs := by
  have hasker : (PeerSession.new role localPeerId remotePeerId).KnowsAsker := by
    simp [KnowsAsker, new]
  generalize PeerSession.new role localPeerId remotePeerId = s at hasker
  constructor
  · intro h
    by_cases hs : s.remotePeerId = none
    · by_cases hend : (Machine.after step s evs).remotePeerId = none
      · exact .inl hend
      right
      obtain ⟨pre, ev, post, rfl, hnone, hsome⟩ := becomes_known hs hend
      obtain ⟨remote, hremote⟩ := Option.ne_none_iff_exists'.mp hsome
      have hsent := (h (pre ++ [ev]) ⟨post, by simp⟩ remote hremote).sent
      -- as the peer becomes known, nothing has been published yet
      have hnothing : candidates Addressable s (pre ++ [ev]) = [] := by
        rw [candidates_append, candidates_unknown hnone, candidates,
          if_neg (fun ha => ha.2 hnone)]
        rfl
      rw [ices_published, hnothing, List.subperm_nil] at hsent
      have hsplit : pre ++ ev :: post = pre ++ [ev] ++ post := by simp
      rw [hsplit]
      exact Machine.guarded_append.mpr ⟨peerFirst_of_nil hsent, peerFirst_of_known hsome post⟩
    · exact .inr (peerFirst_of_known hs evs)
  · rintro (h | h) pre ⟨post, rfl⟩ remote hremote
    · rw [Machine.after_append, after_remote hremote] at h
      cases h
    · exact delivered_of_peerFirst hasker (Machine.guarded_append.mp h).1 hremote

/-- The candidate comes after the offer and before its answer, which names the peer. -/
theorem candidate_before_answer :
    ¬NoneLost (.new .inviter inviterId none)
      [.start, .negotiationNeeded, .operationDone true, .iceCandidate (some (js "c")),
        .signaling (.answer joinerId inviterId (.text (js "d")))] := by
  intro h
  have hsent := (h _ (List.prefix_refl _) joinerId rfl).sent
  have hlen := hsent.length_le
  revert hlen
  decide

end PeerSession

end Senn.Session
