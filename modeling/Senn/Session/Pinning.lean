import Senn.Session.Publishing

/-! # The remote peer of a session

A session takes the sender of the first offer or answer it acts on for its
remote peer. The check and the assignment stand before the first `await` of a
handler, so whatever messages come in between, the peer stays the same and all
that is published goes to it. -/

namespace Senn.Session
open Senn.Js Senn.Lib Senn.Core Senn.Protocol

/-- The operation is one of the handler of an offer, which publishes an answer. -/
def Task.Replies : Task → Prop
  | .offer _ => True
  | .answering _ => True
  | _ => False

/-- A message of the session itself or of a third peer, or for a third peer. -/
def SignalingMessage.Foreign (localPeerId remote : JsString) (msg : SignalingMessage) : Prop :=
  msg.sender = localPeerId ∨ msg.sender ≠ remote ∨ ∃ t, msg.target = some t ∧ t ≠ localPeerId

namespace PeerSession

/-- The handlers of offers know whom they answer. -/
def KnowsAsker (s : PeerSession) : Prop :=
  ∀ task ∈ s.chain, task.Replies → s.remotePeerId ≠ none

/-- What every step leaves alone of the two peers. -/
structure KeepsPeers (s s' : PeerSession) : Prop where
  localId : s'.localPeerId = s.localPeerId
  remote : s.remotePeerId ≠ none → s'.remotePeerId = s.remotePeerId
  asker : s.KnowsAsker → s'.KnowsAsker

namespace KeepsPeers
variable {s s' : PeerSession}

/-- A step that does not assign the peer and puts no offer in the chain. -/
theorem of_eq (hlocal : s'.localPeerId = s.localPeerId) (hremote : s'.remotePeerId = s.remotePeerId)
    (hchain : ∀ task ∈ s'.chain, task.Replies → ∃ earlier ∈ s.chain, earlier.Replies) :
    KeepsPeers s s' := by
  refine ⟨hlocal, fun _ => hremote, fun hs task htask hreplies => ?_⟩
  obtain ⟨earlier, hmem, hearlier⟩ := hchain task htask hreplies
  rw [hremote]
  exact hs earlier hmem hearlier

theorem same_chain (hlocal : s'.localPeerId = s.localPeerId)
    (hremote : s'.remotePeerId = s.remotePeerId) (hchain : s'.chain = s.chain) : KeepsPeers s s' :=
  of_eq hlocal hremote fun task htask hreplies => ⟨task, hchain ▸ htask, hreplies⟩

theorem pushed {t : Task} (ht : ¬t.Replies) (hlocal : s'.localPeerId = s.localPeerId)
    (hremote : s'.remotePeerId = s.remotePeerId) (hchain : s'.chain = s.chain ++ [t]) :
    KeepsPeers s s' := by
  refine of_eq hlocal hremote fun task htask hreplies => ⟨task, ?_, hreplies⟩
  rw [hchain, List.mem_append, List.mem_singleton] at htask
  rcases htask with htask | rfl
  · exact htask
  · exact absurd hreplies ht

/-- A handler that takes the sender for the remote peer. -/
theorem assigned {sender : JsString} (hlocal : s'.localPeerId = s.localPeerId)
    (hremote : s'.remotePeerId = s.remotePeerId.or (some sender)) : KeepsPeers s s' := by
  have hsome : s'.remotePeerId ≠ none := by
    rw [hremote]
    cases s.remotePeerId <;> simp
  refine ⟨hlocal, fun hne => ?_, fun _ _ _ _ => hsome⟩
  obtain ⟨remote, hr⟩ := Option.ne_none_iff_exists'.mp hne
  rw [hremote, hr, Option.some_or]

end KeepsPeers

theorem setState_peers (s : PeerSession) (next : PeerSessionState) :
    KeepsPeers s (s.setState next).1 := by
  unfold setState
  split <;> exact .same_chain rfl rfl rfl

theorem close_peers (s : PeerSession) : KeepsPeers s s.close.1 := by
  have hstate := s.setState_peers .closed
  unfold close
  split
  · exact .same_chain rfl rfl rfl
  · dsimp only
    split <;> exact ⟨hstate.localId, hstate.remote, hstate.asker⟩

theorem start_peers (s : PeerSession) : KeepsPeers s s.start.1 := by
  have hstate := s.setState_peers .connecting
  unfold start
  split
  · exact .same_chain rfl rfl rfl
  · dsimp only [openChannels]
    split <;> exact ⟨hstate.localId, hstate.remote, hstate.asker⟩

theorem handleSignalingMessage_peers (s : PeerSession) (msg : SignalingMessage) :
    KeepsPeers s (s.handleSignalingMessage msg).1 := by
  unfold handleSignalingMessage
  split
  · exact .same_chain rfl rfl rfl
  · split
    · exact .same_chain rfl rfl rfl
    · cases msg with
      | offer sender sdp =>
        simp only [handleKind]
        split
        · exact .same_chain rfl rfl rfl
        · exact .assigned rfl rfl
      | answer sender to_ sdp => exact .assigned rfl rfl
      | ice sender to_ candidate => exact .pushed (t := .ice candidate) (fun h => h) rfl rfl rfl
      | bye sender => exact close_peers s

theorem operationDone_peers (s : PeerSession) (ok : Bool) :
    KeepsPeers s (s.operationDone ok).1 := by
  unfold operationDone
  split
  · next pc task rest hrtc hchain =>
    have hrest : ∀ t ∈ rest, t ∈ s.chain := fun t ht => hchain ▸ List.mem_cons_of_mem task ht
    split
    · exact .same_chain rfl rfl rfl
    · split
      · next pc' _ =>
        have hhead : task ∈ s.chain := hchain ▸ List.mem_cons_self
        cases task with
        | offer sdp =>
          refine .of_eq rfl rfl fun t ht hreplies => ?_
          exact ⟨.offer sdp, hhead, trivial⟩
        | negotiation =>
          simp only [fulfilled]
          split <;> exact .of_eq rfl rfl fun t ht hreplies => ⟨t, hrest t ht, hreplies⟩
        | answering sdp =>
          simp only [fulfilled]
          split <;> exact .of_eq rfl rfl fun t ht hreplies => ⟨t, hrest t ht, hreplies⟩
        | answer sdp => exact .of_eq rfl rfl fun t ht hreplies => ⟨t, hrest t ht, hreplies⟩
        | ice candidate => exact .of_eq rfl rfl fun t ht hreplies => ⟨t, hrest t ht, hreplies⟩
      · cases task <;> exact .of_eq rfl rfl fun t ht hreplies => ⟨t, hrest t ht, hreplies⟩
  · exact .same_chain rfl rfl rfl

/-- No step changes a peer it knows. -/
theorem step_peers (s : PeerSession) (ev : Event) : KeepsPeers s (s.step ev).1 := by
  cases ev with
  | start => exact start_peers s
  | close => exact close_peers s
  | negotiationNeeded =>
    simp only [step, runNegotiation]
    split
    · exact .same_chain rfl rfl rfl
    · split
      · exact .pushed (t := .negotiation) (fun h => h) rfl rfl rfl
      · exact .same_chain rfl rfl rfl
  | iceCandidate candidate =>
    simp only [step]
    split <;> exact .same_chain rfl rfl rfl
  | connectionStateChange cs =>
    simp only [step]
    split
    · exact .same_chain rfl rfl rfl
    · split
      · split
        · exact setState_peers ..
        · exact .same_chain rfl rfl rfl
      · split
        · exact setState_peers ..
        · exact .same_chain rfl rfl rfl
      · exact .same_chain rfl rfl rfl
  | dataChannel label =>
    simp only [step]
    split
    · exact .same_chain rfl rfl rfl
    · split
      · exact .same_chain rfl rfl rfl
      · split
        · exact .same_chain rfl rfl rfl
        · split <;> exact .same_chain rfl rfl rfl
  | channelOpen i =>
    simp only [step]
    split
    · exact setState_peers ..
    · exact .same_chain rfl rfl rfl
  | channelClose i =>
    simp only [step]
    split
    · split
      · exact setState_peers ..
      · exact .same_chain rfl rfl rfl
    · exact .same_chain rfl rfl rfl
  | channelError i => exact .same_chain rfl rfl rfl
  | textMessage i data =>
    simp only [step]
    split <;> exact .same_chain rfl rfl rfl
  | binMessage i now data =>
    simp only [step]
    split
    · cases data <;> exact .same_chain rfl rfl rfl
    · exact .same_chain rfl rfl rfl
  | blobRead k now =>
    simp only [step]
    split <;> exact .same_chain rfl rfl rfl
  | gcTick now => exact .same_chain rfl rfl rfl
  | signaling msg =>
    simp only [step]
    split
    · exact handleSignalingMessage_peers s msg
    · exact .same_chain rfl rfl rfl
  | operationDone ok => exact operationDone_peers s ok
  | offerPublished ok =>
    simp only [step]
    split <;> exact .same_chain rfl rfl rfl
  | answerPublished ok =>
    simp only [step]
    split <;> exact .same_chain rfl rfl rfl
  | byePublished =>
    simp only [step]
    split <;> exact .same_chain rfl rfl rfl

theorem after_remote {s : PeerSession} {remote : JsString} (h : s.remotePeerId = some remote)
    (evs : List Event) : (Machine.after step s evs).remotePeerId = some remote :=
  Machine.after_inv (P := fun s : PeerSession => s.remotePeerId = some remote)
    (fun s ev hs => ((step_peers s ev).remote (by rw [hs]; simp)).trans hs) h evs

/-! ## Messages of others -/

theorem accepts_iff (s : PeerSession) (msg : SignalingMessage) :
    s.accepts msg = true ↔ isPeerId msg.sender = true ∧ msg.sender ≠ s.localPeerId ∧
      (∀ remote, s.remotePeerId = some remote → msg.sender = remote) ∧
      ∀ t, msg.target = some t → isPeerId t = true ∧ t = s.localPeerId := by
  simp [accepts, Option.all_eq_true, and_assoc]

theorem accepts_foreign {s : PeerSession} {remote : JsString} {msg : SignalingMessage}
    (hremote : s.remotePeerId = some remote) (h : msg.Foreign s.localPeerId remote) :
    s.accepts msg = false := by
  by_contra hne
  obtain ⟨_, hself, hsender, htarget⟩ := (accepts_iff s msg).mp (Bool.not_eq_false _ ▸ hne)
  rcases h with h | h | ⟨t, ht, hother⟩
  · exact hself h
  · exact h (hsender remote hremote)
  · exact hother (htarget t ht).2

theorem foreign_ignored {s : PeerSession} {remote : JsString} {msg : SignalingMessage}
    (hremote : s.remotePeerId = some remote) (h : msg.Foreign s.localPeerId remote) :
    s.step (.signaling msg) = (s, []) := by
  simp [step, handleSignalingMessage, accepts_foreign hremote h]

/-! ## The addressee of what is published -/

theorem farewell_target {s : PeerSession} {m : SignalingMessage} (h : s.farewell = some m) :
    m.target = none := by
  unfold farewell at h
  split at h
  · cases h
  · obtain rfl := Option.some.inj h
    rfl

theorem described_target {s : PeerSession} {pc : Rtc} {task : Task} {rest : List Task}
    {m : SignalingMessage} {to_ : JsString} (hasker : s.KnowsAsker)
    (hchain : s.chain = task :: rest) (h : s.described pc task = some m) (htarget : m.target = some to_) :
    s.remotePeerId = some to_ := by
  cases task with
  | negotiation =>
    obtain ⟨sdp, _, rfl⟩ := Option.map_eq_some_iff.mp h
    cases htarget
  | answering offer =>
    obtain ⟨sdp, _, rfl⟩ := Option.map_eq_some_iff.mp h
    have hknown := hasker (.answering offer) (hchain ▸ List.mem_cons_self) trivial
    obtain ⟨remote, hremote⟩ := Option.ne_none_iff_exists'.mp hknown
    rw [hremote] at htarget ⊢
    exact htarget
  | offer sdp => cases h
  | answer sdp => cases h
  | ice candidate => cases h

theorem said_target {s : PeerSession} (hasker : s.KnowsAsker) {ev : Event} {m : SignalingMessage}
    {to_ : JsString} (hsaid : s.said ev = some m) (htarget : m.target = some to_) :
    s.remotePeerId = some to_ := by
  cases ev with
  | close =>
    rw [farewell_target hsaid] at htarget
    cases htarget
  | signaling msg =>
    cases msg with
    | bye from_ =>
      simp only [said] at hsaid
      split at hsaid
      · rw [farewell_target hsaid] at htarget
        cases htarget
      · cases hsaid
    | _ => cases hsaid
  | iceCandidate candidate =>
    simp only [said] at hsaid
    split at hsaid
    · next remote _ _ hremote =>
      obtain rfl := Option.some.inj hsaid
      exact hremote.trans htarget
    · cases hsaid
  | operationDone ok =>
    cases ok with
    | false => cases hsaid
    | true =>
      simp only [said] at hsaid
      split at hsaid
      · next hchain =>
        split at hsaid
        · cases hsaid
        · exact described_target hasker hchain hsaid htarget
      · cases hsaid
  | _ => cases hsaid

/-! ## Every run -/

/-- Once a session knows its remote peer it keeps it, messages of others or for
others change nothing, and what has been published to someone went to that peer. -/
structure Pinned (localPeerId : JsString) (s : PeerSession) (said : List SignalingMessage) :
    Prop where
  kept : ∀ remote, s.remotePeerId = some remote → ∀ evs,
    (Machine.after step s evs).remotePeerId = some remote
  ignored : ∀ remote msg, s.remotePeerId = some remote → msg.Foreign localPeerId remote →
    s.step (.signaling msg) = (s, [])
  addressed : ∀ m ∈ said, ∀ to_, m.target = some to_ → s.remotePeerId = some to_

theorem after_localPeerId (s : PeerSession) (evs : List Event) :
    (Machine.after step s evs).localPeerId = s.localPeerId :=
  Machine.after_inv (P := fun r : PeerSession => r.localPeerId = s.localPeerId)
    (fun r ev hr => (step_peers r ev).localId.trans hr) rfl evs

/-- Whom a message went to when it was published is whom a session still knows. -/
theorem published_target {s : PeerSession} (hasker : s.KnowsAsker) (evs : List Event) :
    ∀ m ∈ published (Machine.outputs step s evs), ∀ to_, m.target = some to_ →
      (Machine.after step s evs).remotePeerId = some to_ := by
  induction evs generalizing s with
  | nil => simp [published]
  | cons ev evs ih =>
    intro m hm to_ htarget
    rw [Machine.outputs_cons, published_append, step_said, List.mem_append] at hm
    rcases hm with hm | hm
    · have hremote := said_target hasker (by simpa using hm) htarget
      exact after_remote hremote (ev :: evs)
    · exact ih ((step_peers s ev).asker hasker) m hm to_ htarget

/-- The peer is pinned in every run, whoever sends messages in it. -/
theorem peer_pinned (role : PeerSessionRole) (localPeerId : JsString)
    (remotePeerId : Option JsString) (evs : List Event) :
    Pinned localPeerId (Machine.after step (.new role localPeerId remotePeerId) evs)
      (published (Machine.outputs step (.new role localPeerId remotePeerId) evs)) := by
  have hlocal := after_localPeerId (.new role localPeerId remotePeerId) evs
  refine ⟨fun remote h more => after_remote h more, fun remote msg h hforeign => ?_,
    published_target (by simp [KnowsAsker, new]) evs⟩
  exact foreign_ignored h (hlocal ▸ hforeign)

end PeerSession

end Senn.Session
