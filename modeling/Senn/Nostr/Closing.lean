import Senn.Nostr.Writes
import Senn.Lib.Machine

/-! # After `close`

`close` empties the rooms and the sockets of the adapter, but a call that waits is
not told of it: it goes on with a socket it has been given, makes new ones for the
relays it has not come to, and hands a decoded message to the handlers that were
left. This file says which resumptions do so, and that a run in which none does
leaves a closed adapter silent and every socket ended. -/

namespace Senn.Nostr
open Senn.Js Senn.Lib

/-- An output other than a new socket, a frame and the call of a handler. -/
def Out.Silent : Out → Prop
  | .create _ | .send _ _ | .handler _ _ => False
  | _ => True

/-- No output is a new socket, a frame or the call of a handler. -/
structure Silent (outs : List Out) : Prop where
  all : ∀ o ∈ outs, o.Silent

theorem Silent.nil : Silent [] := ⟨by simp⟩

theorem silent_cons {o : Out} {outs : List Out} : Silent (o :: outs) ↔ o.Silent ∧ Silent outs := by
  constructor
  · exact fun h => ⟨(List.forall_mem_cons.mp h.all).1, ⟨(List.forall_mem_cons.mp h.all).2⟩⟩
  · exact fun h => ⟨List.forall_mem_cons.mpr ⟨h.1, h.2.all⟩⟩

theorem Settles.silent {outs : List Out} (h : Settles outs) : Silent outs := by
  refine ⟨fun o ho => ?_⟩
  obtain ⟨p, r, rfl⟩ := h.all o ho
  trivial

namespace NostrSignaling

variable {s : NostrSignaling}

/-! ## The sockets of an adapter that is open -/

/-- The adapter has closed none of its sockets. -/
def Uncalled (s : NostrSignaling) : Prop := ∀ ws ∈ s.created, ws.closeCalled = false

theorem uncalled_callEnsure (h : s.Uncalled) (caller : Caller) (url : JsString) (ctorOk : Bool) :
    (s.callEnsure caller url ctorOk).1.Uncalled := by
  have hmade : (s.ensureSocket url ctorOk).1.Uncalled := by
    unfold ensureSocket
    split
    · exact h
    · exact h
    · split
      · exact List.forall_mem_append.mpr ⟨h, by simp⟩
      · exact h
  exact hmade

theorem uncalled_setReadyState (h : s.Uncalled) (i : Nat) (state : ReadyState) :
    (s.setReadyState i state).Uncalled := by
  intro ws hws
  obtain ⟨j, hj⟩ := List.mem_iff_getElem?.mp hws
  simp only [setReadyState, List.getElem?_modify] at hj
  obtain ⟨ws', hws', rfl⟩ := Option.map_eq_some_iff.mp hj
  have hfalse := h ws' (List.mem_of_getElem? hws')
  split <;> exact hfalse

theorem uncalled_nextRequest (h : s.Uncalled) (r : Nat) (ctorOk : Bool) :
    (s.nextRequest r ctorOk).1.Uncalled := by
  unfold nextRequest
  split
  · refine uncalled_callEnsure ?_ _ _ ctorOk
    exact h
  · exact h

theorem uncalled_requestResumed (h : s.Uncalled) (r : Nat) (ctorOk : Bool) :
    (s.requestResumed r ctorOk).1.Uncalled := by
  unfold requestResumed
  split
  · refine uncalled_nextRequest ?_ r ctorOk
    exact h
  · exact h

theorem uncalled_subscribe (h : s.Uncalled) (roomId : JsString) (handler : Nat) (ctorOk : Bool) :
    (s.subscribe roomId handler ctorOk).1.Uncalled := by
  unfold subscribe
  split
  · exact h
  split
  · exact h
  have hkey : Uncalled (if s.v2Enabled = true then s.getV2RoomKey roomId else s) := by
    obtain ⟨_, hw⟩ := s.roomKey_writes roomId
    exact hw ▸ h
  have hroom : ∀ t : NostrSignaling, t.Uncalled → (t.roomFor roomId ctorOk).1.Uncalled := by
    intro t ht
    unfold roomFor
    split
    · exact ht
    · refine uncalled_nextRequest ?_ _ ctorOk
      exact ht
  exact hroom _ hkey

theorem uncalled_nextRelay (h : s.Uncalled) (p : Nat) (urls : List JsString) (ctorOk : Bool) :
    (s.nextRelay p urls ctorOk).1.Uncalled := by
  unfold nextRelay
  split
  · exact h
  · next q _ =>
    split
    · obtain ⟨_, _, hw⟩ := s.endRelays_writes p q
      exact hw ▸ h
    · refine uncalled_callEnsure ?_ _ _ ctorOk
      exact h

theorem uncalled_relayResumed (h : s.Uncalled) (p : Nat) (sendOk ctorOk : Bool) :
    (s.relayResumed p sendOk ctorOk).1.Uncalled := by
  unfold relayResumed
  split
  · split
    · refine uncalled_nextRelay ?_ p _ ctorOk
      exact h
    · dsimp only
      split
      · refine uncalled_nextRelay ?_ p _ ctorOk
        exact h
      · refine uncalled_nextRelay ?_ p _ ctorOk
        obtain ⟨_, _, hw⟩ := callAck_writes _ _ false _
        exact hw ▸ h
    · exact h
  · exact h

theorem uncalled_encodedResumed (L : Libraries) (h : s.Uncalled) (p now : Nat) (ctorOk : Bool) :
    (s.encodedResumed L p now ctorOk).1.Uncalled := by
  unfold encodedResumed
  split
  · exact h
  · split
    · refine uncalled_nextRelay ?_ p s.relays ctorOk
      exact h
    · exact h

theorem uncalled_socketOpen (h : s.Uncalled) (i : Nat) (reqs : Option Nat) :
    (s.socketOpen i reqs).1.Uncalled := by
  unfold socketOpen
  split
  · exact uncalled_setReadyState h i .opened
  · exact h

theorem uncalled_socketClosed (h : s.Uncalled) (i : Nat) : (s.socketClosed i).Uncalled := by
  unfold socketClosed
  split
  · split
    · exact h
    · dsimp only
      split <;> exact uncalled_setReadyState h i .closed
  · exact h

/-- Only `close` closes sockets. -/
theorem step_uncalled (L : Libraries) (h : s.Uncalled) {ev : Event} (hev : ev ≠ .close) :
    (step L s ev).1.Uncalled := by
  cases ev with
  | publish roomId message =>
    obtain ⟨_, hw⟩ := s.publish_writes roomId message
    exact hw ▸ h
  | subscribe roomId handler ctorOk => exact uncalled_subscribe h roomId handler ctorOk
  | unsubscribe k =>
    obtain ⟨_, _, hw⟩ := s.unsubscribe_writes k
    exact hw ▸ h
  | close => exact absurd rfl hev
  | katSettled ok =>
    simp only [step]
    split <;> exact h
  | katLatched =>
    simp only [step]
    split <;> exact h
  | keySettled roomId ok =>
    simp only [step]
    split <;> exact h
  | katResumed p =>
    obtain ⟨_, _, hw⟩ := s.katResumed_writes p
    exact hw ▸ h
  | keyResumed p nonce =>
    obtain ⟨_, hw⟩ := s.keyResumed_writes L p nonce
    exact hw ▸ h
  | encodedResumed p now ctorOk => exact uncalled_encodedResumed L h p now ctorOk
  | relayResumed p sendOk ctorOk => exact uncalled_relayResumed h p sendOk ctorOk
  | requestResumed r ctorOk => exact uncalled_requestResumed h r ctorOk
  | ackTimeout p =>
    obtain ⟨_, _, hw⟩ := s.ackTimeout_writes p
    exact hw ▸ h
  | socketOpen i reqs => exact uncalled_socketOpen h i reqs
  | socketClosing i =>
    simp only [step]
    split
    · exact uncalled_setReadyState h i .closing
    · exact h
  | socketClosed i => exact uncalled_socketClosed h i
  | message i data =>
    obtain ⟨_, _, _, _, hw⟩ := s.onRelayMessage_writes i data
    exact hw ▸ h
  | decodeKat d =>
    obtain ⟨_, _, hw⟩ := s.decodeKat_writes d
    simp only [step, hw]
    exact h
  | decodeKey d =>
    obtain ⟨_, hw⟩ := s.decodeKey_writes L d
    simp only [step, hw]
    exact h
  | dispatch d =>
    obtain ⟨_, hw⟩ := s.dispatch_writes d
    exact hw ▸ h

/-! ## A closed adapter -/

/-- Every socket the adapter made is closed, or the adapter closed it. -/
def Ended (s : NostrSignaling) : Prop :=
  ∀ ws ∈ s.created, ws.readyState = .closed ∨ ws.closeCalled = true

/-- The adapter is closed, holds nothing and has no socket that is open or opens. -/
structure Shut (s : NostrSignaling) : Prop where
  closed : s.closed = true
  rooms : s.rooms = .empty
  sockets : s.sockets = .empty
  states : ∀ ws ∈ s.created, ws.readyState = .closing ∨ ws.readyState = .closed
  ended : s.Ended

/-- The step made no socket and kept the adapter as closed as it was. -/
structure Still (s s' : NostrSignaling) : Prop where
  closed : s'.closed = s.closed
  rooms : s'.rooms = s.rooms
  sockets : s'.sockets = s.sockets
  created : s'.created = s.created

theorem Still.refl (s : NostrSignaling) : Still s s := ⟨rfl, rfl, rfl, rfl⟩

theorem Still.trans {s₁ s₂ : NostrSignaling} (h₁ : Still s s₁) (h₂ : Still s₁ s₂) : Still s s₂ :=
  ⟨h₂.closed.trans h₁.closed, h₂.rooms.trans h₁.rooms, h₂.sockets.trans h₁.sockets,
    h₂.created.trans h₁.created⟩

theorem Shut.still (h : s.Shut) {s' : NostrSignaling} (hs : Still s s') : s'.Shut := by
  refine ⟨hs.closed.trans h.closed, hs.rooms.trans h.rooms, hs.sockets.trans h.sockets, ?_, ?_⟩
  · rw [hs.created]
    exact h.states
  · rw [Ended, hs.created]
    exact h.ended

/-- A step that is silent exactly where it meets a condition, and leaves the
adapter as closed as it was there. -/
structure StillIff (s : NostrSignaling) (r : NostrSignaling × List Out) (c : Prop) : Prop where
  silent : Silent r.2 ↔ c
  still : c → Still s r.1

theorem StillIff.of_still {s' : NostrSignaling} {r : NostrSignaling × List Out} {c d : Prop}
    (h : StillIff s' r c) (hs : Still s s') (hcd : c ↔ d) : StillIff s r d :=
  ⟨h.silent.trans hcd, fun hd => hs.trans (h.still (hcd.mpr hd))⟩

theorem StillIff.of_settles {r : NostrSignaling × List Out} (hout : Settles r.2)
    (hstill : Still s r.1) : StillIff s r True :=
  ⟨iff_of_true hout.silent trivial, fun _ => hstill⟩

/-- An adapter that holds no socket makes one. -/
theorem callEnsure_still (h : s.sockets = .empty) (caller : Caller) (url : JsString)
    (ctorOk : Bool) : StillIff s (s.callEnsure caller url ctorOk) (ctorOk = false) := by
  have hheld : s.held url = none := by simp [held, h]
  cases ctorOk with
  | true =>
    refine ⟨iff_of_false (fun hsilent => ?_) (by simp), fun hfalse => by cases hfalse⟩
    have hcreate := hsilent.all (.create s.created.length)
      (by simp [callEnsure, ensureSocket, hheld])
    exact hcreate
  | false =>
    refine ⟨iff_of_true ?_ rfl, fun _ => ?_⟩
    · simpa [callEnsure, ensureSocket, hheld] using Silent.nil
    · simp only [callEnsure, ensureSocket, hheld, Bool.false_eq_true, if_false]
      exact ⟨rfl, rfl, rfl, rfl⟩

theorem nextRequest_still (h : s.sockets = .empty) {r : Nat} {q : Request}
    (hq : s.requests[r]? = some q) (ctorOk : Bool) :
    StillIff s (s.nextRequest r ctorOk) (q.rest ≠ [] → ctorOk = false) := by
  obtain ⟨roomId, subId, rest⟩ := q
  cases rest with
  | nil =>
    simp only [nextRequest, hq]
    exact ⟨iff_of_true .nil (by simp), fun _ => .refl s⟩
  | cons url rest =>
    have hcall := callEnsure_still (s := { s with
      requests := s.requests.set r ⟨roomId, subId, rest⟩ }) h (.request r) url ctorOk
    simp only [nextRequest, hq]
    refine ⟨hcall.silent.trans (by simp), fun hc => ?_⟩
    obtain ⟨h₁, h₂, h₃, h₄⟩ := hcall.still (hc (by simp))
    exact ⟨h₁, h₂, h₃, h₄⟩

theorem nextRelay_still (h : s.sockets = .empty) {p : Nat} {q : Publish}
    (hq : s.publishes[p]? = some q) (urls : List JsString) (ctorOk : Bool) :
    StillIff s (s.nextRelay p urls ctorOk) (urls ≠ [] → ctorOk = false) := by
  cases urls with
  | nil =>
    simp only [nextRelay, hq]
    refine ⟨iff_of_true (endRelays_settles ..).silent (by simp), fun _ => ?_⟩
    obtain ⟨_, _, hw⟩ := s.endRelays_writes p q
    rw [hw]
    exact ⟨rfl, rfl, rfl, rfl⟩
  | cons url rest =>
    have hcall := callEnsure_still (s := s.setPublish p { q with stage := .relays url rest }) h
      (.publish p) url ctorOk
    simp only [nextRelay, hq]
    refine ⟨hcall.silent.trans (by simp), fun hc => ?_⟩
    obtain ⟨h₁, h₂, h₃, h₄⟩ := hcall.still (hc (by simp))
    exact ⟨h₁, h₂, h₃, h₄⟩

/-! ## What waits when the adapter closes -/

/-- The step does nothing outside of a closed adapter: a publish does not come to
its relays, a loop over the relays has been given no socket and goes on to make
none, and no handler is left for a decoded message. When the adapter closes, the
sockets it no longer holds are closed. -/
def Safe (s : NostrSignaling) : Event → Prop
  | .close => s.closed = false → ∀ i ws, s.created[i]? = some ws →
      ws.readyState = .closed ∨ i ∈ s.sockets.entries.map Prod.snd
  | .encodedResumed p _ ctorOk => s.closed = true → ∀ q content, s.publishes[p]? = some q →
      q.stage = .encoded content → s.relays ≠ [] → ctorOk = false
  | .relayResumed p _ ctorOk => s.closed = true → ∀ q ws url rest, s.publishes[p]? = some q →
      s.returned? (.publish p) = some ws → q.stage = .relays url rest → q.event.isSome = true →
      ws = none ∧ (rest ≠ [] → ctorOk = false)
  | .requestResumed r ctorOk => s.closed = true → ∀ q ws, s.requests[r]? = some q →
      s.returned? (.request r) = some ws → ws = none ∧ (q.rest ≠ [] → ctorOk = false)
  | .dispatch d => s.closed = true → ∀ c m next room, s.decodes[d]? = some c →
      c.stage = .dispatching m next → s.roomStates[c.room]? = some room →
      ∀ h ∈ room.handlers, h.1 < next
  | _ => True

theorem encodedResumed_still (L : Libraries) (h : s.Shut) (p now : Nat) (ctorOk : Bool) :
    StillIff s (s.encodedResumed L p now ctorOk) (s.Safe (.encodedResumed p now ctorOk)) := by
  unfold encodedResumed
  split
  · next hnone =>
    refine ⟨iff_of_true .nil fun _ q content hq => ?_, fun _ => .refl s⟩
    simp [hnone] at hq
  · next q hq =>
    split
    · next content hstage =>
      have hmake : ∀ (q' : Publish) pendingAcks, StillIff s
          (nextRelay { s.setPublish p q' with pendingAcks := pendingAcks } p s.relays ctorOk)
          (s.relays ≠ [] → ctorOk = false) := by
        intro q' pendingAcks
        have hnext := nextRelay_still (s := { s.setPublish p q' with pendingAcks := pendingAcks })
          h.sockets (publishes_setPublish hq q') s.relays ctorOk
        exact hnext.of_still ⟨rfl, rfl, rfl, rfl⟩ Iff.rfl
      refine (hmake _ _).of_still (.refl s) ⟨fun hc _ q' content' _ _ => hc, fun hsafe => ?_⟩
      exact hsafe h.closed q content hq hstage
    · next hstage =>
      refine ⟨iff_of_true .nil fun _ q' content hq' hcontent => ?_, fun _ => .refl s⟩
      obtain rfl := Option.some.inj (hq'.symm.trans hq)
      exact absurd hcontent (hstage content)

theorem relayResumed_still (h : s.Shut) (p : Nat) (sendOk ctorOk : Bool) :
    StillIff s (s.relayResumed p sendOk ctorOk) (s.Safe (.relayResumed p sendOk ctorOk)) := by
  unfold relayResumed
  split
  · next q ws hq hreturned =>
    split
    · next url rest event hstage hevent =>
      have hnext : ∀ q' : Publish, StillIff s
          (((s.forget (.publish p)).setPublish p q').nextRelay p rest ctorOk)
          (rest ≠ [] → ctorOk = false) := by
        intro q'
        have hq' : (s.forget (.publish p)).publishes[p]? = some q := hq
        have hnext := nextRelay_still (s := (s.forget (.publish p)).setPublish p q') h.sockets
          (publishes_setPublish hq' q') rest ctorOk
        exact hnext.of_still ⟨rfl, rfl, rfl, rfl⟩ Iff.rfl
      refine (hnext _).of_still (.refl s) ⟨fun hc _ q' ws' url' rest' hq' hws' hstage' _ => ?_,
        fun hsafe => ?_⟩
      · obtain rfl := Option.some.inj (hq'.symm.trans hq)
        obtain rfl := Option.some.inj (hws'.symm.trans hreturned)
        obtain ⟨_, rfl⟩ := Stage.relays.inj (hstage'.symm.trans hstage)
        exact ⟨rfl, hc⟩
      · exact (hsafe h.closed q none url rest hq hreturned hstage (by simp [hevent])).2
    · next url rest event i hstage hevent =>
      -- the event is handed to the socket
      have hsend : ¬s.Safe (.relayResumed p sendOk ctorOk) := fun hsafe => by
        cases (hsafe h.closed q (some i) url rest hq hreturned hstage (by simp [hevent])).1
      refine ⟨iff_of_false (fun hsilent => ?_) hsend, fun hsafe => absurd hsafe hsend⟩
      dsimp only at hsilent
      split at hsilent <;> exact (silent_cons.mp hsilent).1
    · next hnone hsome =>
      refine ⟨iff_of_true .nil fun _ q' ws' url rest hq' hws' hstage hevent => ?_, fun _ => .refl s⟩
      obtain rfl := Option.some.inj (hq'.symm.trans hq)
      obtain ⟨e, he⟩ := Option.isSome_iff_exists.mp hevent
      obtain rfl := Option.some.inj (hws'.symm.trans hreturned)
      cases ws' with
      | none => exact (hnone url rest e hstage he rfl).elim
      | some i => exact (hsome url rest e i hstage he rfl).elim
  · next hnone =>
    refine ⟨iff_of_true .nil fun _ q ws _ _ hq hws => ?_, fun _ => .refl s⟩
    exact absurd hws (hnone q ws hq)

theorem requestResumed_still (h : s.Shut) (r : Nat) (ctorOk : Bool) :
    StillIff s (s.requestResumed r ctorOk) (s.Safe (.requestResumed r ctorOk)) := by
  unfold requestResumed
  split
  · next q ws hq hreturned =>
    have hq' : (s.forget (.request r)).requests[r]? = some q := hq
    have hnext := (nextRequest_still (s := s.forget (.request r)) h.sockets hq' ctorOk).of_still
      (s := s) ⟨rfl, rfl, rfl, rfl⟩ Iff.rfl
    cases ws with
    | none =>
      refine hnext.of_still (.refl s) ⟨fun hc _ q' ws' hq'' hws' => ?_, fun hsafe => ?_⟩
      · obtain rfl := Option.some.inj (hq''.symm.trans hq)
        obtain rfl := Option.some.inj (hws'.symm.trans hreturned)
        exact ⟨rfl, hc⟩
      · exact (hsafe h.closed q none hq hreturned).2
    | some i =>
      refine ⟨iff_of_false (fun hsilent => ?_) (fun hsafe => ?_), fun hsafe => ?_⟩
      · exact (silent_cons.mp hsilent).1
      · cases (hsafe h.closed q (some i) hq hreturned).1
      · cases (hsafe h.closed q (some i) hq hreturned).1
  · next hnone =>
    refine ⟨iff_of_true .nil fun _ q ws hq hws => ?_, fun _ => .refl s⟩
    exact absurd hws (hnone q ws hq)

theorem dispatch_still (h : s.Shut) (d : Nat) :
    StillIff s (s.dispatch d) (s.Safe (.dispatch d)) := by
  unfold dispatch
  split
  · next message hd =>
    have hsafe : s.Safe (.dispatch d) := by
      intro _ c m next room hc hstage
      obtain rfl := Option.some.inj (hc.symm.trans hd)
      cases hstage
    cases message <;> exact ⟨iff_of_true .nil hsafe, fun _ => ⟨rfl, rfl, rfl, rfl⟩⟩
  · next i _ m next hd =>
    split
    · next h' hfind =>
      have hunsafe : ¬s.Safe (.dispatch d) := by
        intro hsafe
        have htrue := List.find?_some hfind
        have hle : next ≤ h'.1 := of_decide_eq_true htrue
        have hmem := List.mem_of_find?_eq_some hfind
        cases hroom : s.roomStates[i]? with
        | none => simp [hroom] at hmem
        | some room =>
          rw [hroom] at hmem
          exact Nat.not_lt.mpr hle (hsafe h.closed _ m next room hd rfl hroom h' hmem)
      refine ⟨iff_of_false (fun hsilent => ?_) hunsafe, fun hsafe => absurd hsafe hunsafe⟩
      exact (silent_cons.mp hsilent).1
    · next hfind =>
      refine ⟨iff_of_true .nil fun _ c m' next' room hc hstage hroom h' hmem => ?_,
        fun _ => ⟨rfl, rfl, rfl, rfl⟩⟩
      obtain rfl := Option.some.inj (hc.symm.trans hd)
      obtain ⟨_, rfl⟩ := DecodeStage.dispatching.inj hstage
      rw [show s.roomStates[i]? = some room from hroom] at hfind
      simpa using List.find?_eq_none.mp hfind h' hmem
  · next hdecoded hdispatching =>
    refine ⟨iff_of_true .nil fun _ c m next room hc hstage => ?_, fun _ => .refl s⟩
    obtain ⟨roomId, i, content, stage⟩ := c
    exact (hdispatching roomId i content m next (hc.trans (hstage ▸ rfl))).elim

/-- A closed adapter's sockets neither open nor hand on messages. -/
theorem Shut.not_live (h : s.Shut) {i : Nat} {url : JsString} {state : ReadyState} {called : Bool}
    (hi : s.created[i]? = some ⟨url, state, called⟩) : state ≠ .connecting ∧ state ≠ .opened := by
  rcases h.states _ (List.mem_of_getElem? hi) with hstate | hstate <;>
    simp only at hstate <;> simp [hstate]

theorem socketOpen_still (h : s.Shut) (i : Nat) (reqs : Option Nat) :
    StillIff s (s.socketOpen i reqs) True := by
  unfold socketOpen
  split
  · next hi => exact absurd rfl (h.not_live hi).1
  · exact .of_settles .nil (.refl s)

theorem onRelayMessage_still (h : s.Shut) (i : Nat) (data : JsString) :
    StillIff s (s.onRelayMessage i data) True := by
  unfold onRelayMessage
  split
  · next hi _ => exact absurd rfl (h.not_live hi).2
  · exact .of_settles .nil (.refl s)

/-- A step of a closed adapter is silent exactly where it is safe, and is still then. -/
theorem step_still (L : Libraries) (h : s.Shut) {ev : Event} (hev : ∀ i, ev ≠ .socketClosed i) :
    StillIff s (step L s ev) (s.Safe ev) := by
  cases ev with
  | publish roomId message =>
    obtain ⟨_, hw⟩ := s.publish_writes roomId message
    exact .of_settles (publish_settles ..) (hw ▸ ⟨rfl, rfl, rfl, rfl⟩)
  | subscribe roomId handler ctorOk =>
    simp only [step, subscribe, h.closed, if_true]
    exact ⟨iff_of_true (silent_cons.mpr ⟨trivial, .nil⟩) trivial, fun _ => .refl s⟩
  | unsubscribe k =>
    have hnothing : s.unsubscribe k = (s, []) := by
      unfold unsubscribe
      split
      · rfl
      · simp [h.rooms]
    simp only [step, hnothing]
    exact .of_settles .nil (.refl s)
  | close =>
    simp only [step, close, h.closed, if_true]
    exact ⟨iff_of_true .nil fun hopen => by simp [h.closed] at hopen, fun _ => .refl s⟩
  | katSettled ok =>
    refine .of_settles .nil ?_
    simp only [step]
    split <;> exact ⟨rfl, rfl, rfl, rfl⟩
  | katLatched =>
    refine .of_settles .nil ?_
    simp only [step]
    split <;> exact ⟨rfl, rfl, rfl, rfl⟩
  | keySettled roomId ok =>
    refine .of_settles .nil ?_
    simp only [step]
    split <;> exact ⟨rfl, rfl, rfl, rfl⟩
  | katResumed p =>
    obtain ⟨_, _, hw⟩ := s.katResumed_writes p
    exact .of_settles (katResumed_settles ..) (hw ▸ ⟨rfl, rfl, rfl, rfl⟩)
  | keyResumed p nonce =>
    obtain ⟨_, hw⟩ := s.keyResumed_writes L p nonce
    exact .of_settles (keyResumed_settles ..) (hw ▸ ⟨rfl, rfl, rfl, rfl⟩)
  | encodedResumed p now ctorOk => exact encodedResumed_still L h p now ctorOk
  | relayResumed p sendOk ctorOk => exact relayResumed_still h p sendOk ctorOk
  | requestResumed r ctorOk => exact requestResumed_still h r ctorOk
  | ackTimeout p =>
    obtain ⟨_, _, hw⟩ := s.ackTimeout_writes p
    exact .of_settles (ackTimeout_settles ..) (hw ▸ ⟨rfl, rfl, rfl, rfl⟩)
  | socketOpen i reqs => exact socketOpen_still h i reqs
  | socketClosing i =>
    refine .of_settles .nil ?_
    simp only [step]
    split
    · next hi => exact absurd rfl (h.not_live hi).2
    · exact .refl s
  | socketClosed i => exact absurd rfl (hev i)
  | message i data => exact onRelayMessage_still h i data
  | decodeKat d =>
    refine .of_settles .nil ?_
    obtain ⟨_, _, hw⟩ := s.decodeKat_writes d
    simp only [step, hw]
    exact ⟨rfl, rfl, rfl, rfl⟩
  | decodeKey d =>
    refine .of_settles .nil ?_
    obtain ⟨_, hw⟩ := s.decodeKey_writes L d
    simp only [step, hw]
    exact ⟨rfl, rfl, rfl, rfl⟩
  | dispatch d => exact dispatch_still h d

/-- A socket of a closed adapter comes to its end. -/
theorem shut_socketClosed (h : s.Shut) (i : Nat) : (s.socketClosed i).Shut := by
  have hset : (s.setReadyState i .closed).Shut := by
    have hmem : ∀ ws ∈ (s.setReadyState i .closed).created,
        ws.readyState = .closed ∨ ws ∈ s.created := by
      intro ws hws
      obtain ⟨j, hj⟩ := List.mem_iff_getElem?.mp hws
      simp only [setReadyState, List.getElem?_modify] at hj
      obtain ⟨ws', hws', rfl⟩ := Option.map_eq_some_iff.mp hj
      split
      · exact .inl rfl
      · exact .inr (List.mem_of_getElem? hws')
    refine ⟨h.closed, h.rooms, h.sockets, fun ws hws => ?_, fun ws hws => ?_⟩
    · exact (hmem ws hws).elim .inr (h.states ws)
    · exact (hmem ws hws).elim .inl (h.ended ws)
  have hdelete : ∀ url, s.sockets.delete url = s.sockets := fun url =>
    InsMap.delete_of_none (by simp [h.sockets])
  unfold socketClosed
  split
  · split
    · exact h
    · dsimp only
      split
      · exact hset.still ⟨rfl, rfl, hdelete _, rfl⟩
      · exact hset.still ⟨rfl, rfl, rfl, rfl⟩
  · exact h

theorem shut_step (L : Libraries) (h : s.Shut) (ev : Event) :
    (Silent (step L s ev).2 ↔ s.Safe ev) ∧ (s.Safe ev → (step L s ev).1.Shut) := by
  by_cases hev : ∃ i, ev = .socketClosed i
  · obtain ⟨i, rfl⟩ := hev
    exact ⟨iff_of_true .nil trivial, fun _ => shut_socketClosed h i⟩
  · have hstill := step_still L h fun i hi => hev ⟨i, hi⟩
    exact ⟨hstill.silent, fun hsafe => h.still (hstill.still hsafe)⟩

/-! ## Over a run -/

/-- The adapter is open, and has closed none of its sockets. -/
structure Running (s : NostrSignaling) : Prop where
  closed : s.closed = false
  uncalled : s.Uncalled

theorem Running.step (L : Libraries) (h : s.Running) {ev : Event} (hev : ev ≠ .close) :
    (s.step L ev).1.Running :=
  ⟨((s.step_keeps L ev).closed hev).trans h.closed, step_uncalled L h.uncalled hev⟩

theorem Running.safe (h : s.Running) {ev : Event} (hev : ev ≠ .close) : s.Safe ev := by
  have hopen : s.closed ≠ true := by simp [h.closed]
  cases ev with
  | close => exact absurd rfl hev
  | encodedResumed p now ctorOk => exact fun hclosed => absurd hclosed hopen
  | relayResumed p sendOk ctorOk => exact fun hclosed => absurd hclosed hopen
  | requestResumed r ctorOk => exact fun hclosed => absurd hclosed hopen
  | dispatch d => exact fun hclosed => absurd hclosed hopen
  | _ => trivial

/-- The sockets after `close`: those the adapter held are closed by it. -/
theorem mem_close_created (h : s.closed = false) {ws : Socket} :
    ws ∈ s.close.1.created ↔ ∃ i ws₀, s.created[i]? = some ws₀ ∧
      ws = if i ∈ s.sockets.entries.map Prod.snd then closeSocket ws₀ else ws₀ := by
  have hheld : ∀ i ws₀, (if (s.sockets.entries.any fun e => e.2 = i) = true
      then closeSocket ws₀ else ws₀) =
        if i ∈ s.sockets.entries.map Prod.snd then closeSocket ws₀ else ws₀ :=
    fun i ws₀ => if_congr (by simp) rfl rfl
  simp only [close, h, Bool.false_eq_true, if_false, List.mem_iff_getElem?, List.getElem?_mapIdx,
    Option.map_eq_some_iff, hheld]
  constructor
  · rintro ⟨i, ws₀, hi, rfl⟩
    exact ⟨i, ws₀, hi, rfl⟩
  · rintro ⟨i, ws₀, hi, rfl⟩
    exact ⟨i, ws₀, hi, rfl⟩

theorem close_ended_iff (h : s.Running) : s.close.1.Ended ↔ s.Safe .close := by
  constructor
  · intro hended _ i ws hi
    have hclosed := hended _ ((mem_close_created h.closed).mpr ⟨i, ws, hi, rfl⟩)
    split at hclosed
    · next hheld => exact .inr hheld
    · rw [h.uncalled ws (List.mem_of_getElem? hi)] at hclosed
      exact hclosed.imp_right fun hfalse => by cases hfalse
  · intro hsafe ws hws
    obtain ⟨i, ws₀, hi, rfl⟩ := (mem_close_created h.closed).mp hws
    split
    · exact .inr rfl
    · next hheld => exact .inl ((hsafe h.closed i ws₀ hi).resolve_right hheld)

/-- An adapter that closes with every socket ended has nothing left. -/
theorem close_shut (h : s.Running) (hended : s.close.1.Ended) : s.close.1.Shut := by
  refine ⟨?_, ?_, ?_, fun ws hws => ?_, hended⟩
  · simp [close, h.closed]
  · simp [close, h.closed]
  · simp [close, h.closed]
  · obtain ⟨i, ws₀, hi, rfl⟩ := (mem_close_created h.closed).mp hws
    have hclosed := (close_ended_iff h).mp hended h.closed i ws₀ hi
    split
    · simp only [closeSocket]
      split <;> simp
    · next hheld => exact .inr (hclosed.resolve_right hheld)

/-- What closing an adapter promises: once it is closed, no step makes a socket,
sends a frame or calls a handler, and every socket it ever made is closed or was
closed by it. -/
structure CloseComplete (L : Libraries) (s : NostrSignaling) (evs : List Event) : Prop where
  silent : Machine.Guarded (step L) (fun s ev => s.closed = true → Silent (step L s ev).2) s evs
  ended : Machine.Always (step L) (fun s => s.closed = true → s.Ended) s evs

theorem complete_nil {L : Libraries} (h : s.closed = true → s.Ended) : CloseComplete L s [] := by
  refine ⟨trivial, fun pre hpre => ?_⟩
  rw [List.prefix_nil.mp hpre]
  exact h

theorem complete_cons {L : Libraries} {ev : Event} {evs : List Event} :
    CloseComplete L s (ev :: evs) ↔ (s.closed = true → Silent (step L s ev).2) ∧
      (s.closed = true → s.Ended) ∧ CloseComplete L (step L s ev).1 evs := by
  constructor
  · rintro ⟨⟨hsilent, hrest⟩, hended⟩
    exact ⟨hsilent, (Machine.always_cons.mp hended).1, hrest, (Machine.always_cons.mp hended).2⟩
  · rintro ⟨hsilent, hended, hrest⟩
    exact ⟨⟨hsilent, hrest.silent⟩, Machine.always_cons.mpr ⟨hended, hrest.ended⟩⟩

theorem ended_of_phase (h : s.Running ∨ s.Shut) (hclosed : s.closed = true) : s.Ended := by
  rcases h with hrun | hshut
  · simp [hrun.closed] at hclosed
  · exact hshut.ended

/-- A safe step is silent after `close` and leaves every socket ended. -/
theorem step_of_safe (L : Libraries) (h : s.Running ∨ s.Shut) {ev : Event} (hsafe : s.Safe ev) :
    (s.closed = true → Silent (step L s ev).2) ∧
      ((step L s ev).1.Running ∨ (step L s ev).1.Shut) := by
  rcases h with hrun | hshut
  · refine ⟨fun hclosed => by simp [hrun.closed] at hclosed, ?_⟩
    by_cases hev : ev = .close
    · subst hev
      exact .inr (close_shut hrun ((close_ended_iff hrun).mpr hsafe))
    · exact .inl (hrun.step L hev)
  · obtain ⟨hsilent, hnext⟩ := shut_step L hshut ev
    exact ⟨fun _ => hsilent.mpr hsafe, .inr (hnext hsafe)⟩

/-- A step that is silent after `close` and leaves every socket ended is safe. -/
theorem safe_of_step (L : Libraries) (h : s.Running ∨ s.Shut) {ev : Event}
    (hsilent : s.closed = true → Silent (step L s ev).2)
    (hended : (step L s ev).1.closed = true → (step L s ev).1.Ended) : s.Safe ev := by
  rcases h with hrun | hshut
  · by_cases hev : ev = .close
    · subst hev
      have hclosed : s.close.1.closed = true := by simp [close, hrun.closed]
      exact (close_ended_iff hrun).mp (hended hclosed)
    · exact hrun.safe hev
  · exact (shut_step L hshut ev).1.mp (hsilent hshut.closed)

theorem complete_iff_safe (L : Libraries) (evs : List Event) (h : s.Running ∨ s.Shut) :
    CloseComplete L s evs ↔ Machine.Guarded (step L) Safe s evs := by
  induction evs generalizing s with
  | nil => exact ⟨fun _ => trivial, fun _ => complete_nil (ended_of_phase h)⟩
  | cons ev evs ih =>
    rw [complete_cons, Machine.Guarded]
    constructor
    · rintro ⟨hsilent, _, hrest⟩
      have hsafe := safe_of_step L h hsilent (hrest.ended [] List.nil_prefix)
      exact ⟨hsafe, (ih (step_of_safe L h hsafe).2).mp hrest⟩
    · rintro ⟨hsafe, hrest⟩
      obtain ⟨hsilent, hphase⟩ := step_of_safe L h hsafe
      exact ⟨hsilent, ended_of_phase h, (ih hphase).mpr hrest⟩

/-- A run closes completely exactly where each of its steps is safe. -/
theorem close_complete_iff (L : Libraries) (relays : List JsString) (v2Enabled : Bool)
    (evs : List Event) : CloseComplete L (.new relays v2Enabled) evs ↔
      Machine.Guarded (step L) Safe (.new relays v2Enabled) evs :=
  complete_iff_safe L evs (.inl ⟨rfl, fun ws hws => by cases hws⟩)

/-- A publish that is encoding its message when the adapter closes, and goes on. -/
def publishAndClose : List Event :=
  [.publish (js "room") (.obj [(js "kind", .str (js "bye")), (js "from", .str (js "alice"))]),
    .close, .encodedResumed 0 0 true]

theorem publish_outlives_close :
    ¬CloseComplete oneId (.new [js "wss://a"] false) publishAndClose := by
  intro h
  have hsilent := h.silent.2.2.1 rfl
  exact hsilent.all (.create 0) (List.Mem.head _)

end NostrSignaling

end Senn.Nostr
