import Senn.Nostr.Adapter

/-! # What the operations of the adapter write

One lemma for each operation, with the fields it may write; everything else it
leaves alone. -/

namespace Senn.Nostr
open Senn.Js Senn.Lib

/-! ## Kinds of outputs -/

/-- An output other than an EVENT, the call of a handler and the end of a publish. -/
def Out.Idle : Out → Prop
  | .send _ (.event _) | .handler _ _ | .settled _ _ => False
  | _ => True

/-- No output is an EVENT, the call of a handler or the end of a publish. -/
structure Idle (outs : List Out) : Prop where
  all : ∀ o ∈ outs, o.Idle

theorem Idle.nil : Idle [] := ⟨by simp⟩

theorem Idle.one {o : Out} (h : o.Idle) : Idle [o] := ⟨by simpa using h⟩

theorem Idle.append {os ps : List Out} (hos : Idle os) (hps : Idle ps) : Idle (os ++ ps) :=
  ⟨List.forall_mem_append.mpr ⟨hos.all, hps.all⟩⟩

theorem Idle.flatMap {α : Type} {f : α → List Out} (h : ∀ a, Idle (f a)) (as : List α) :
    Idle (as.flatMap f) := by
  refine ⟨fun o ho => ?_⟩
  obtain ⟨a, _, ho⟩ := List.mem_flatMap.mp ho
  exact (h a).all o ho

theorem Idle.map {α : Type} {f : α → Out} (h : ∀ a, (f a).Idle) (as : List α) :
    Idle (as.map f) := by
  refine ⟨fun o ho => ?_⟩
  obtain ⟨a, _, rfl⟩ := List.mem_map.mp ho
  exact h a

/-- Every output is the end of a publish. -/
structure Settles (outs : List Out) : Prop where
  all : ∀ o ∈ outs, ∃ p r, o = .settled p r

theorem Settles.nil : Settles [] := ⟨by simp⟩

theorem Settles.one (p : Nat) (r : Settlement) : Settles [.settled p r] := by
  refine ⟨fun o ho => ?_⟩
  exact ⟨p, r, List.mem_singleton.mp ho⟩

namespace NostrSignaling

/-! ## Fields -/

variable (s : NostrSignaling)

theorem ensureSocket_writes (url : JsString) (ctorOk : Bool) :
    ∃ created sockets, (s.ensureSocket url ctorOk).1 =
      { s with created := created, sockets := sockets } := by
  unfold ensureSocket
  split
  · exact ⟨_, _, rfl⟩
  · exact ⟨_, _, rfl⟩
  · split <;> exact ⟨_, _, rfl⟩

theorem callEnsure_writes (caller : Caller) (url : JsString) (ctorOk : Bool) :
    ∃ created sockets calls, (s.callEnsure caller url ctorOk).1 =
      { s with created := created, sockets := sockets, calls := calls } := by
  obtain ⟨created, sockets, h⟩ := s.ensureSocket_writes url ctorOk
  unfold callEnsure
  dsimp only
  rw [h]
  exact ⟨_, _, _, rfl⟩

theorem callEnsure_publishes (caller : Caller) (url : JsString) (ctorOk : Bool) :
    (s.callEnsure caller url ctorOk).1.publishes = s.publishes := by
  obtain ⟨_, _, _, h⟩ := s.callEnsure_writes caller url ctorOk
  rw [h]

theorem socketOpen_writes (i : Nat) (reqs : Option Nat) :
    ∃ created calls, (s.socketOpen i reqs).1 = { s with created := created, calls := calls } := by
  unfold socketOpen
  split <;> exact ⟨_, _, rfl⟩

theorem socketClosed_writes (i : Nat) :
    ∃ created sockets calls, s.socketClosed i =
      { s with created := created, sockets := sockets, calls := calls } := by
  unfold socketClosed
  split
  · split
    · exact ⟨_, _, _, rfl⟩
    · dsimp only
      split <;> exact ⟨_, _, _, rfl⟩
  · exact ⟨_, _, _, rfl⟩

theorem nextRequest_writes (r : Nat) (ctorOk : Bool) :
    ∃ created sockets calls requests, (s.nextRequest r ctorOk).1 =
      { s with created := created, sockets := sockets, calls := calls, requests := requests } := by
  unfold nextRequest
  split
  · next roomId subId url rest _ =>
    obtain ⟨created, sockets, calls, h⟩ :=
      callEnsure_writes { s with requests := s.requests.set r ⟨roomId, subId, rest⟩ } (.request r)
        url ctorOk
    exact ⟨created, sockets, calls, _, h⟩
  · exact ⟨_, _, _, _, rfl⟩

theorem requestResumed_writes (r : Nat) (ctorOk : Bool) :
    ∃ created sockets calls requests, (s.requestResumed r ctorOk).1 =
      { s with created := created, sockets := sockets, calls := calls, requests := requests } := by
  unfold requestResumed
  split
  · exact nextRequest_writes (s.forget (.request r)) r ctorOk
  · exact ⟨_, _, _, _, rfl⟩

theorem getV2RoomKey_writes (roomId : JsString) :
    ∃ v2RoomKeys, s.getV2RoomKey roomId = { s with v2RoomKeys := v2RoomKeys } := by
  unfold getV2RoomKey
  split <;> exact ⟨_, rfl⟩

theorem roomKey_writes (roomId : JsString) :
    ∃ v2RoomKeys, (if s.v2Enabled = true then s.getV2RoomKey roomId else s) =
      { s with v2RoomKeys := v2RoomKeys } := by
  split
  · exact s.getV2RoomKey_writes roomId
  · exact ⟨_, rfl⟩

theorem roomFor_writes (roomId : JsString) (ctorOk : Bool) :
    ∃ created sockets calls requests subCounter roomStates rooms,
      (s.roomFor roomId ctorOk).1 =
        { s with
          created := created
          sockets := sockets
          calls := calls
          requests := requests
          subCounter := subCounter
          roomStates := roomStates
          rooms := rooms } := by
  unfold roomFor
  split
  · exact ⟨_, _, _, _, _, _, _, rfl⟩
  · obtain ⟨created, sockets, calls, requests, h⟩ := nextRequest_writes { s with
      subCounter := (s.subCounter + 1) % 0xffffff
      roomStates := s.roomStates ++ [⟨s.newSubId roomId, [], 0, []⟩]
      rooms := s.rooms.set roomId s.roomStates.length
      requests := s.requests ++ [⟨roomId, s.newSubId roomId, s.relays⟩] } s.requests.length ctorOk
    exact ⟨created, sockets, calls, requests, _, _, _, h⟩

theorem subscribe_writes (roomId : JsString) (handler : Nat) (ctorOk : Bool) :
    ∃ created sockets calls requests subCounter roomStates rooms v2RoomKeys unsubscribes,
      (s.subscribe roomId handler ctorOk).1 =
        { s with
          created := created
          sockets := sockets
          calls := calls
          requests := requests
          subCounter := subCounter
          roomStates := roomStates
          rooms := rooms
          v2RoomKeys := v2RoomKeys
          unsubscribes := unsubscribes } := by
  unfold subscribe
  split
  · exact ⟨_, _, _, _, _, _, _, _, _, rfl⟩
  split
  · exact ⟨_, _, _, _, _, _, _, _, _, rfl⟩
  dsimp only
  obtain ⟨v2RoomKeys, hkey⟩ := s.roomKey_writes roomId
  rw [hkey]
  obtain ⟨created, sockets, calls, requests, subCounter, roomStates, rooms, h⟩ :=
    roomFor_writes { s with v2RoomKeys := v2RoomKeys } roomId ctorOk
  rw [h]
  exact ⟨_, _, _, _, _, _, _, _, _, rfl⟩

theorem unsubscribe_writes (k : Nat) :
    ∃ roomStates rooms, (s.unsubscribe k).1 =
      { s with roomStates := roomStates, rooms := rooms } := by
  unfold unsubscribe
  split
  · exact ⟨_, _, rfl⟩
  · split
    · exact ⟨_, _, rfl⟩
    · split
      · exact ⟨_, _, rfl⟩
      · dsimp only
        split <;> exact ⟨_, _, rfl⟩

theorem close_writes : ∃ created sockets rooms closed, s.close.1 =
    { s with created := created, sockets := sockets, rooms := rooms, closed := closed } := by
  unfold close
  split <;> exact ⟨_, _, _, _, rfl⟩

variable {s} in
theorem publishes_setPublish {p : Nat} {q₀ : Publish} (hq : s.publishes[p]? = some q₀)
    (q : Publish) : (s.setPublish p q).publishes[p]? = some q := by
  simp [setPublish, (List.getElem?_eq_some_iff.mp hq).1]

theorem tryReject_writes (p : Nat) (q : Publish) :
    ∃ publishes pendingAcks, (s.tryReject p q).1 =
      { s with publishes := publishes, pendingAcks := pendingAcks } := by
  unfold tryReject
  split <;> exact ⟨_, _, rfl⟩

theorem callAck_writes (eventId : JsString) (ok : Bool) (msg : Option JsString) :
    ∃ publishes pendingAcks, (s.callAck eventId ok msg).1 =
      { s with publishes := publishes, pendingAcks := pendingAcks } := by
  unfold callAck
  split
  · exact ⟨_, _, rfl⟩
  · unfold finish
    split
    · exact ⟨_, _, rfl⟩
    · split
      · exact ⟨_, _, rfl⟩
      · split
        · exact ⟨_, _, rfl⟩
        · exact tryReject_writes ..

theorem addPublish_writes (roomId : JsString) (message : Json) (stage : Stage) :
    ∃ publishes, (s.addPublish roomId message stage).1 = { s with publishes := publishes } :=
  ⟨_, rfl⟩

theorem publish_writes (roomId : JsString) (message : Json) :
    ∃ publishes, (s.publish roomId message).1 = { s with publishes := publishes } := by
  unfold publish
  split
  · exact addPublish_writes ..
  · split
    · exact addPublish_writes ..
    · split <;> exact addPublish_writes ..

theorem katResumed_writes (p : Nat) :
    ∃ v2RoomKeys publishes, (s.katResumed p).1 =
      { s with v2RoomKeys := v2RoomKeys, publishes := publishes } := by
  unfold katResumed
  split
  · next q _ _ _ =>
    split
    · exact ⟨_, _, rfl⟩
    · split
      · obtain ⟨v2RoomKeys, h⟩ := s.getV2RoomKey_writes q.roomId
        rw [h]
        exact ⟨_, _, rfl⟩
      · exact ⟨_, _, rfl⟩
  · exact ⟨_, _, rfl⟩

theorem keyResumed_writes (L : Libraries) (p : Nat) (nonce : Bytes) :
    ∃ publishes, (s.keyResumed L p nonce).1 = { s with publishes := publishes } := by
  unfold keyResumed
  split
  · exact ⟨_, rfl⟩
  · split
    · exact ⟨_, rfl⟩
    · split
      · split <;> exact ⟨_, rfl⟩
      · exact ⟨_, rfl⟩
      · exact ⟨_, rfl⟩

theorem endRelays_writes (p : Nat) (q : Publish) :
    ∃ publishes pendingAcks, (s.endRelays p q).1 =
      { s with publishes := publishes, pendingAcks := pendingAcks } := by
  unfold endRelays
  split
  · exact ⟨_, _, rfl⟩
  · dsimp only
    split
    · exact ⟨_, _, rfl⟩
    · exact tryReject_writes ..

theorem nextRelay_writes (p : Nat) (urls : List JsString) (ctorOk : Bool) :
    ∃ created sockets calls publishes pendingAcks, (s.nextRelay p urls ctorOk).1 =
      { s with
        created := created
        sockets := sockets
        calls := calls
        publishes := publishes
        pendingAcks := pendingAcks } := by
  unfold nextRelay
  split
  · exact ⟨_, _, _, _, _, rfl⟩
  · next q _ =>
    split
    · obtain ⟨publishes, pendingAcks, h⟩ := s.endRelays_writes p q
      exact ⟨_, _, _, _, _, h⟩
    · next url rest =>
      obtain ⟨_, _, _, h⟩ := callEnsure_writes (s.setPublish p { q with
        stage := .relays url rest }) (.publish p) url ctorOk
      exact ⟨_, _, _, _, _, h⟩

theorem encodedResumed_writes (L : Libraries) (p now : Nat) (ctorOk : Bool) :
    ∃ created sockets calls publishes pendingAcks, (s.encodedResumed L p now ctorOk).1 =
      { s with
        created := created
        sockets := sockets
        calls := calls
        publishes := publishes
        pendingAcks := pendingAcks } := by
  unfold encodedResumed
  split
  · exact ⟨_, _, _, _, _, rfl⟩
  · split
    · obtain ⟨_, _, _, _, _, h⟩ := nextRelay_writes _ p s.relays ctorOk
      rw [h]
      exact ⟨_, _, _, _, _, rfl⟩
    · exact ⟨_, _, _, _, _, rfl⟩

theorem relayResumed_writes (p : Nat) (sendOk ctorOk : Bool) :
    ∃ created sockets calls publishes pendingAcks, (s.relayResumed p sendOk ctorOk).1 =
      { s with
        created := created
        sockets := sockets
        calls := calls
        publishes := publishes
        pendingAcks := pendingAcks } := by
  unfold relayResumed
  split
  · split
    · obtain ⟨_, _, _, _, _, h⟩ := nextRelay_writes _ p _ ctorOk
      rw [h]
      exact ⟨_, _, _, _, _, rfl⟩
    · dsimp only
      split
      · obtain ⟨_, _, _, _, _, h⟩ := nextRelay_writes _ p _ ctorOk
        rw [h]
        exact ⟨_, _, _, _, _, rfl⟩
      · obtain ⟨_, _, _, _, _, h⟩ := nextRelay_writes _ p _ ctorOk
        obtain ⟨_, _, hack⟩ := callAck_writes _ _ false _
        rw [h, hack]
        exact ⟨_, _, _, _, _, rfl⟩
    · exact ⟨_, _, _, _, _, rfl⟩
  · exact ⟨_, _, _, _, _, rfl⟩

theorem ackTimeout_writes (p : Nat) :
    ∃ publishes pendingAcks, (s.ackTimeout p).1 =
      { s with publishes := publishes, pendingAcks := pendingAcks } := by
  unfold ackTimeout
  split
  · exact ⟨_, _, rfl⟩
  · split <;> exact ⟨_, _, rfl⟩

theorem handleEvent_writes (subId : JsString) (event : Json) :
    ∃ roomStates decodes, s.handleEvent subId event =
      { s with roomStates := roomStates, decodes := decodes } := by
  unfold handleEvent
  split
  · split
    · exact ⟨_, _, rfl⟩
    · split
      · exact ⟨_, _, rfl⟩
      · dsimp only
        split <;> exact ⟨_, _, rfl⟩
  · exact ⟨_, _, rfl⟩

theorem handleEvent_publishes (subId : JsString) (event : Json) :
    (s.handleEvent subId event).publishes = s.publishes := by
  obtain ⟨_, _, h⟩ := s.handleEvent_writes subId event
  rw [h]

theorem onRelayMessage_writes (i : Nat) (data : JsString) :
    ∃ roomStates decodes publishes pendingAcks, (s.onRelayMessage i data).1 =
      { s with
        roomStates := roomStates
        decodes := decodes
        publishes := publishes
        pendingAcks := pendingAcks } := by
  unfold onRelayMessage
  split
  · split
    · obtain ⟨_, _, h⟩ := s.handleEvent_writes _ _
      rw [h]
      exact ⟨_, _, _, _, rfl⟩
    · obtain ⟨_, _, h⟩ := callAck_writes _ _ _ _
      rw [h]
      exact ⟨_, _, _, _, rfl⟩
  · exact ⟨_, _, _, _, rfl⟩

theorem decodeKat_writes (d : Nat) :
    ∃ v2RoomKeys decodes,
      s.decodeKat d = { s with v2RoomKeys := v2RoomKeys, decodes := decodes } := by
  unfold decodeKat
  split
  · next roomId _ _ _ _ _ =>
    split
    · obtain ⟨_, h⟩ := s.getV2RoomKey_writes roomId
      rw [h]
      exact ⟨_, _, rfl⟩
    · exact ⟨_, _, rfl⟩
  · exact ⟨_, _, rfl⟩

theorem decodeKey_writes (L : Libraries) (d : Nat) :
    ∃ decodes, s.decodeKey L d = { s with decodes := decodes } := by
  unfold decodeKey
  split
  · split <;> exact ⟨_, rfl⟩
  · exact ⟨_, rfl⟩

theorem dispatch_writes (d : Nat) :
    ∃ decodes, (s.dispatch d).1 = { s with decodes := decodes } := by
  unfold dispatch
  split
  · split <;> exact ⟨_, rfl⟩
  · split <;> exact ⟨_, rfl⟩
  · exact ⟨_, rfl⟩

/-! ## Steps that leave publishes or received events alone -/

/-- The event may change publishes or the table of those that wait. -/
def OnPublishes : Event → Prop
  | .publish _ _ | .katResumed _ | .keyResumed _ _ | .encodedResumed _ _ _
  | .relayResumed _ _ _ | .ackTimeout _ | .message _ _ => True
  | _ => False

theorem step_publishes (L : Libraries) {ev : Event} (hev : ¬OnPublishes ev) :
    (step L s ev).1.publishes = s.publishes ∧ (step L s ev).1.pendingAcks = s.pendingAcks := by
  cases ev with
  | publish roomId message => exact absurd trivial hev
  | subscribe roomId handler ctorOk =>
    obtain ⟨_, _, _, _, _, _, _, _, _, h⟩ := s.subscribe_writes roomId handler ctorOk
    exact h ▸ ⟨rfl, rfl⟩
  | unsubscribe k =>
    obtain ⟨_, _, h⟩ := s.unsubscribe_writes k
    exact h ▸ ⟨rfl, rfl⟩
  | close =>
    obtain ⟨_, _, _, _, h⟩ := s.close_writes
    exact h ▸ ⟨rfl, rfl⟩
  | katSettled ok =>
    simp only [step]
    split <;> exact ⟨rfl, rfl⟩
  | katLatched =>
    simp only [step]
    split <;> exact ⟨rfl, rfl⟩
  | keySettled roomId ok =>
    simp only [step]
    split <;> exact ⟨rfl, rfl⟩
  | katResumed p => exact absurd trivial hev
  | keyResumed p nonce => exact absurd trivial hev
  | encodedResumed p now ctorOk => exact absurd trivial hev
  | relayResumed p sendOk ctorOk => exact absurd trivial hev
  | requestResumed r ctorOk =>
    obtain ⟨_, _, _, _, h⟩ := s.requestResumed_writes r ctorOk
    exact h ▸ ⟨rfl, rfl⟩
  | ackTimeout p => exact absurd trivial hev
  | socketOpen i reqs =>
    obtain ⟨_, _, h⟩ := s.socketOpen_writes i reqs
    exact h ▸ ⟨rfl, rfl⟩
  | socketClosing i =>
    simp only [step]
    split <;> exact ⟨rfl, rfl⟩
  | socketClosed i =>
    obtain ⟨_, _, _, h⟩ := s.socketClosed_writes i
    simp only [step, h, and_self]
  | message i data => exact absurd trivial hev
  | decodeKat d =>
    obtain ⟨_, _, h⟩ := s.decodeKat_writes d
    simp only [step, h, and_self]
  | decodeKey d =>
    obtain ⟨_, h⟩ := s.decodeKey_writes L d
    simp only [step, h, and_self]
  | dispatch d =>
    obtain ⟨_, h⟩ := s.dispatch_writes d
    exact h ▸ ⟨rfl, rfl⟩

/-- The event may change the received events that are being decoded. -/
def OnDecodes : Event → Prop
  | .message _ _ | .decodeKat _ | .decodeKey _ | .dispatch _ => True
  | _ => False

theorem step_decodes (L : Libraries) {ev : Event} (hev : ¬OnDecodes ev) :
    (step L s ev).1.decodes = s.decodes := by
  cases ev with
  | publish roomId message =>
    obtain ⟨_, h⟩ := s.publish_writes roomId message
    exact h ▸ rfl
  | subscribe roomId handler ctorOk =>
    obtain ⟨_, _, _, _, _, _, _, _, _, h⟩ := s.subscribe_writes roomId handler ctorOk
    exact h ▸ rfl
  | unsubscribe k =>
    obtain ⟨_, _, h⟩ := s.unsubscribe_writes k
    exact h ▸ rfl
  | close =>
    obtain ⟨_, _, _, _, h⟩ := s.close_writes
    exact h ▸ rfl
  | katSettled ok =>
    simp only [step]
    split <;> rfl
  | katLatched =>
    simp only [step]
    split <;> rfl
  | keySettled roomId ok =>
    simp only [step]
    split <;> rfl
  | katResumed p =>
    obtain ⟨_, _, h⟩ := s.katResumed_writes p
    exact h ▸ rfl
  | keyResumed p nonce =>
    obtain ⟨_, h⟩ := s.keyResumed_writes L p nonce
    exact h ▸ rfl
  | encodedResumed p now ctorOk =>
    obtain ⟨_, _, _, _, _, h⟩ := s.encodedResumed_writes L p now ctorOk
    exact h ▸ rfl
  | relayResumed p sendOk ctorOk =>
    obtain ⟨_, _, _, _, _, h⟩ := s.relayResumed_writes p sendOk ctorOk
    exact h ▸ rfl
  | requestResumed r ctorOk =>
    obtain ⟨_, _, _, _, h⟩ := s.requestResumed_writes r ctorOk
    exact h ▸ rfl
  | ackTimeout p =>
    obtain ⟨_, _, h⟩ := s.ackTimeout_writes p
    exact h ▸ rfl
  | socketOpen i reqs =>
    obtain ⟨_, _, h⟩ := s.socketOpen_writes i reqs
    exact h ▸ rfl
  | socketClosing i =>
    simp only [step]
    split <;> rfl
  | socketClosed i =>
    obtain ⟨_, _, _, h⟩ := s.socketClosed_writes i
    simp only [step, h]
  | _ => exact absurd trivial hev

/-! ## Outputs -/

theorem callEnsure_idle (caller : Caller) (url : JsString) (ctorOk : Bool) :
    Idle (s.callEnsure caller url ctorOk).2 := by
  simp only [callEnsure, ensureSocket]
  split
  · exact .nil
  · exact .nil
  · split
    · exact .one trivial
    · exact .nil

theorem nextRequest_idle (r : Nat) (ctorOk : Bool) :
    Idle (s.nextRequest r ctorOk).2 := by
  unfold nextRequest
  split
  · exact callEnsure_idle ..
  · exact .nil

theorem requestResumed_idle (r : Nat) (ctorOk : Bool) :
    Idle (s.requestResumed r ctorOk).2 := by
  unfold requestResumed
  split
  · next ws _ _ =>
    refine .append ?_ (nextRequest_idle ..)
    cases ws with
    | none => exact .nil
    | some i => exact .one trivial
  · exact .nil

theorem roomFor_idle (roomId : JsString) (ctorOk : Bool) :
    Idle (s.roomFor roomId ctorOk).2.1 := by
  unfold roomFor
  split
  · exact .nil
  · exact nextRequest_idle ..

theorem subscribe_idle (roomId : JsString) (handler : Nat) (ctorOk : Bool) :
    Idle (s.subscribe roomId handler ctorOk).2 := by
  unfold subscribe
  split
  · exact .one trivial
  · split
    · exact .one trivial
    · exact roomFor_idle ..

theorem closeReqOnAll_idle (subId : JsString) :
    Idle (s.closeReqOnAll subId) := by
  refine .map (fun e => ?_) _
  trivial

theorem unsubscribe_idle (k : Nat) : Idle (s.unsubscribe k).2 := by
  unfold unsubscribe
  split
  · exact .nil
  · split
    · exact .nil
    · split
      · exact .nil
      · dsimp only
        split
        · exact closeReqOnAll_idle ..
        · exact .nil

theorem close_idle : Idle s.close.2 := by
  unfold close
  split
  · exact .nil
  · refine .append (.flatMap (fun e => ?_) _) (.map (fun e => ?_) _)
    · exact closeReqOnAll_idle s e.1
    · trivial

theorem socketOpen_idle (i : Nat) (reqs : Option Nat) :
    Idle (s.socketOpen i reqs).2 := by
  unfold socketOpen
  split
  · dsimp only
    split
    · refine .map (fun e => ?_) _
      trivial
    · exact .nil
  · exact .nil

theorem step_idle (L : Libraries) {ev : Event} (hev : ¬OnPublishes ev)
    (hdispatch : ∀ d, ev ≠ .dispatch d) : Idle (step L s ev).2 := by
  cases ev with
  | subscribe roomId handler ctorOk => exact subscribe_idle ..
  | unsubscribe k => exact unsubscribe_idle ..
  | close => exact close_idle s
  | requestResumed r ctorOk => exact requestResumed_idle ..
  | socketOpen i reqs => exact socketOpen_idle ..
  | dispatch d => exact absurd rfl (hdispatch d)
  | katSettled _ | katLatched | keySettled _ _ | socketClosing _ | socketClosed _ | decodeKat _
  | decodeKey _ => exact .nil
  | _ => exact absurd trivial hev

theorem settleAck_settles (p : Nat) (q : Publish) (r : Settlement) :
    Settles (s.settleAck p q r).2 := by
  unfold settleAck
  dsimp only
  split
  · exact .one _ _
  · exact .nil

theorem tryReject_settles (p : Nat) (q : Publish) : Settles (s.tryReject p q).2 := by
  unfold tryReject
  split
  · exact .nil
  · exact settleAck_settles ..

theorem callAck_settles (eventId : JsString) (ok : Bool) (msg : Option JsString) :
    Settles (s.callAck eventId ok msg).2 := by
  unfold callAck
  split
  · exact .nil
  · unfold finish
    split
    · exact .nil
    · split
      · exact .nil
      · split
        · exact settleAck_settles ..
        · exact tryReject_settles ..

theorem endRelays_settles (p : Nat) (q : Publish) :
    Settles (s.endRelays p q).2 := by
  unfold endRelays
  split
  · exact .one _ _
  · dsimp only
    split
    · exact .one _ _
    · exact tryReject_settles ..

theorem addPublish_settles (roomId : JsString) (message : Json) (stage : Stage) :
    Settles (s.addPublish roomId message stage).2 := by
  unfold addPublish
  dsimp only
  split
  · exact .one _ _
  · exact .nil

theorem publish_settles (roomId : JsString) (message : Json) :
    Settles (s.publish roomId message).2 := by
  unfold publish
  split
  · exact addPublish_settles ..
  · split
    · exact addPublish_settles ..
    · split <;> exact addPublish_settles ..

theorem katResumed_settles (p : Nat) : Settles (s.katResumed p).2 := by
  unfold katResumed
  split
  · split
    · exact .nil
    · split
      · exact .nil
      · exact .one _ _
  · exact .nil

theorem ackTimeout_settles (p : Nat) : Settles (s.ackTimeout p).2 := by
  unfold ackTimeout
  split
  · exact .nil
  · split
    · exact .nil
    · exact settleAck_settles ..

theorem onRelayMessage_settles (i : Nat) (data : JsString) :
    Settles (s.onRelayMessage i data).2 := by
  unfold onRelayMessage
  split
  · split
    · exact .nil
    · exact callAck_settles ..
  · exact .nil

theorem keyResumed_settles (L : Libraries) (p : Nat) (nonce : Bytes) :
    Settles (s.keyResumed L p nonce).2 := by
  unfold keyResumed
  split
  · exact .nil
  · split
    · exact .nil
    · split
      · split
        · exact .nil
        · exact .one _ _
      · exact .one _ _
      · exact .nil

/-! ## What an adapter keeps -/

/-- The adapter's relays and encryption are those it was made with, the outcome of
its known-answer test stands, and only `close` closes it. -/
structure Keeps (s : NostrSignaling) (ev : Event) (s' : NostrSignaling) : Prop where
  relays : s'.relays = s.relays
  v2Enabled : s'.v2Enabled = s.v2Enabled
  kat : ∀ ok, s.kat = some ok → s'.kat = some ok
  closed : ev ≠ .close → s'.closed = s.closed

theorem step_keeps (L : Libraries) (ev : Event) : Keeps s ev (step L s ev).1 := by
  cases ev with
  | publish roomId message =>
    obtain ⟨_, h⟩ := s.publish_writes roomId message
    exact h ▸ ⟨rfl, rfl, fun _ h => h, fun _ => rfl⟩
  | subscribe roomId handler ctorOk =>
    obtain ⟨_, _, _, _, _, _, _, _, _, h⟩ := s.subscribe_writes roomId handler ctorOk
    exact h ▸ ⟨rfl, rfl, fun _ h => h, fun _ => rfl⟩
  | unsubscribe k =>
    obtain ⟨_, _, h⟩ := s.unsubscribe_writes k
    exact h ▸ ⟨rfl, rfl, fun _ h => h, fun _ => rfl⟩
  | close =>
    simp only [step, close]
    split <;> exact ⟨rfl, rfl, fun _ h => h, fun hne => absurd rfl hne⟩
  | katSettled ok =>
    simp only [step]
    split
    · next h => exact ⟨rfl, rfl, fun ok' h' => by simp [h.2] at h', fun _ => rfl⟩
    · exact ⟨rfl, rfl, fun _ h => h, fun _ => rfl⟩
  | katLatched =>
    simp only [step]
    split <;> exact ⟨rfl, rfl, fun _ h => h, fun _ => rfl⟩
  | keySettled roomId ok =>
    simp only [step]
    split <;> exact ⟨rfl, rfl, fun _ h => h, fun _ => rfl⟩
  | katResumed p =>
    obtain ⟨_, _, h⟩ := s.katResumed_writes p
    exact h ▸ ⟨rfl, rfl, fun _ h => h, fun _ => rfl⟩
  | keyResumed p nonce =>
    obtain ⟨_, h⟩ := s.keyResumed_writes L p nonce
    exact h ▸ ⟨rfl, rfl, fun _ h => h, fun _ => rfl⟩
  | encodedResumed p now ctorOk =>
    obtain ⟨_, _, _, _, _, h⟩ := s.encodedResumed_writes L p now ctorOk
    exact h ▸ ⟨rfl, rfl, fun _ h => h, fun _ => rfl⟩
  | relayResumed p sendOk ctorOk =>
    obtain ⟨_, _, _, _, _, h⟩ := s.relayResumed_writes p sendOk ctorOk
    exact h ▸ ⟨rfl, rfl, fun _ h => h, fun _ => rfl⟩
  | requestResumed r ctorOk =>
    obtain ⟨_, _, _, _, h⟩ := s.requestResumed_writes r ctorOk
    exact h ▸ ⟨rfl, rfl, fun _ h => h, fun _ => rfl⟩
  | ackTimeout p =>
    obtain ⟨_, _, h⟩ := s.ackTimeout_writes p
    exact h ▸ ⟨rfl, rfl, fun _ h => h, fun _ => rfl⟩
  | socketOpen i reqs =>
    obtain ⟨_, _, h⟩ := s.socketOpen_writes i reqs
    exact h ▸ ⟨rfl, rfl, fun _ h => h, fun _ => rfl⟩
  | socketClosing i =>
    simp only [step]
    split <;> exact ⟨rfl, rfl, fun _ h => h, fun _ => rfl⟩
  | socketClosed i =>
    obtain ⟨_, _, _, h⟩ := s.socketClosed_writes i
    simp only [step, h]
    exact ⟨rfl, rfl, fun _ h => h, fun _ => rfl⟩
  | message i data =>
    obtain ⟨_, _, _, _, h⟩ := s.onRelayMessage_writes i data
    exact h ▸ ⟨rfl, rfl, fun _ h => h, fun _ => rfl⟩
  | decodeKat d =>
    obtain ⟨_, _, h⟩ := s.decodeKat_writes d
    simp only [step, h]
    exact ⟨rfl, rfl, fun _ h => h, fun _ => rfl⟩
  | decodeKey d =>
    obtain ⟨_, h⟩ := s.decodeKey_writes L d
    simp only [step, h]
    exact ⟨rfl, rfl, fun _ h => h, fun _ => rfl⟩
  | dispatch d =>
    obtain ⟨_, h⟩ := s.dispatch_writes d
    exact h ▸ ⟨rfl, rfl, fun _ h => h, fun _ => rfl⟩

/-- The event may change the rooms or their subscriptions. -/
def OnRooms : Event → Prop
  | .subscribe _ _ _ | .unsubscribe _ | .close | .message _ _ => True
  | _ => False

/-- What of an adapter's rooms and of its latched error the event leaves alone. -/
structure Spares (s : NostrSignaling) (ev : Event) (s' : NostrSignaling) : Prop where
  v2KatError : ev ≠ .katLatched → s'.v2KatError = s.v2KatError
  rooms : ¬OnRooms ev → s'.rooms = s.rooms
  roomStates : ¬OnRooms ev → s'.roomStates = s.roomStates
  subCounter : (∀ roomId handler ctorOk, ev ≠ .subscribe roomId handler ctorOk) →
    s'.subCounter = s.subCounter
  unsubscribes : (∀ roomId handler ctorOk, ev ≠ .subscribe roomId handler ctorOk) →
    s'.unsubscribes = s.unsubscribes

/-- Nothing of them changed. -/
theorem Spares.all {s s' : NostrSignaling} (ev : Event) (hv2 : s'.v2KatError = s.v2KatError)
    (hrooms : s'.rooms = s.rooms) (hstates : s'.roomStates = s.roomStates)
    (hcounter : s'.subCounter = s.subCounter) (hunsub : s'.unsubscribes = s.unsubscribes) :
    Spares s ev s' :=
  ⟨fun _ => hv2, fun _ => hrooms, fun _ => hstates, fun _ => hcounter, fun _ => hunsub⟩

theorem step_spares (L : Libraries) (ev : Event) : Spares s ev (step L s ev).1 := by
  cases ev with
  | publish roomId message =>
    obtain ⟨_, h⟩ := s.publish_writes roomId message
    exact h ▸ .all _ rfl rfl rfl rfl rfl
  | subscribe roomId handler ctorOk =>
    obtain ⟨_, _, _, _, _, _, _, _, _, h⟩ := s.subscribe_writes roomId handler ctorOk
    exact h ▸ ⟨fun _ => rfl, fun hn => absurd trivial hn, fun hn => absurd trivial hn,
      fun hn => absurd rfl (hn _ _ _), fun hn => absurd rfl (hn _ _ _)⟩
  | unsubscribe k =>
    obtain ⟨_, _, h⟩ := s.unsubscribe_writes k
    exact h ▸ ⟨fun _ => rfl, fun hn => absurd trivial hn, fun hn => absurd trivial hn,
      fun _ => rfl, fun _ => rfl⟩
  | close =>
    obtain ⟨_, _, _, _, h⟩ := s.close_writes
    exact h ▸ ⟨fun _ => rfl, fun hn => absurd trivial hn, fun hn => absurd trivial hn,
      fun _ => rfl, fun _ => rfl⟩
  | katSettled ok =>
    simp only [step]
    split <;> exact .all _ rfl rfl rfl rfl rfl
  | katLatched =>
    simp only [step]
    split <;>
      exact ⟨fun hn => absurd rfl hn, fun _ => rfl, fun _ => rfl, fun _ => rfl, fun _ => rfl⟩
  | keySettled roomId ok =>
    simp only [step]
    split <;> exact .all _ rfl rfl rfl rfl rfl
  | katResumed p =>
    obtain ⟨_, _, h⟩ := s.katResumed_writes p
    exact h ▸ .all _ rfl rfl rfl rfl rfl
  | keyResumed p nonce =>
    obtain ⟨_, h⟩ := s.keyResumed_writes L p nonce
    exact h ▸ .all _ rfl rfl rfl rfl rfl
  | encodedResumed p now ctorOk =>
    obtain ⟨_, _, _, _, _, h⟩ := s.encodedResumed_writes L p now ctorOk
    exact h ▸ .all _ rfl rfl rfl rfl rfl
  | relayResumed p sendOk ctorOk =>
    obtain ⟨_, _, _, _, _, h⟩ := s.relayResumed_writes p sendOk ctorOk
    exact h ▸ .all _ rfl rfl rfl rfl rfl
  | requestResumed r ctorOk =>
    obtain ⟨_, _, _, _, h⟩ := s.requestResumed_writes r ctorOk
    exact h ▸ .all _ rfl rfl rfl rfl rfl
  | ackTimeout p =>
    obtain ⟨_, _, h⟩ := s.ackTimeout_writes p
    exact h ▸ .all _ rfl rfl rfl rfl rfl
  | socketOpen i reqs =>
    obtain ⟨_, _, h⟩ := s.socketOpen_writes i reqs
    exact h ▸ .all _ rfl rfl rfl rfl rfl
  | socketClosing i =>
    simp only [step]
    split <;> exact .all _ rfl rfl rfl rfl rfl
  | socketClosed i =>
    obtain ⟨_, _, _, h⟩ := s.socketClosed_writes i
    simp only [step, h]
    exact .all _ rfl rfl rfl rfl rfl
  | message i data =>
    obtain ⟨_, _, _, _, h⟩ := s.onRelayMessage_writes i data
    exact h ▸ ⟨fun _ => rfl, fun hn => absurd trivial hn, fun hn => absurd trivial hn,
      fun _ => rfl, fun _ => rfl⟩
  | decodeKat d =>
    obtain ⟨_, _, h⟩ := s.decodeKat_writes d
    simp only [step, h]
    exact .all _ rfl rfl rfl rfl rfl
  | decodeKey d =>
    obtain ⟨_, h⟩ := s.decodeKey_writes L d
    simp only [step, h]
    exact .all _ rfl rfl rfl rfl rfl
  | dispatch d =>
    obtain ⟨_, h⟩ := s.dispatch_writes d
    exact h ▸ .all _ rfl rfl rfl rfl rfl

end NostrSignaling

end Senn.Nostr
