import Senn.Nostr.Writes
import Senn.Lib.Machine

/-! # What publishes encode

A property of a publish that its acknowledgements leave alone is kept by all of
`onRelayMessage` and the timer. One that is established where the content and the
event are made, and that the rest of a publish leaves alone, holds of every publish
of a run: `Encoding.step` is the rule. -/

namespace Senn.Nostr
open Senn.Js Senn.Lib

/-- The content of the publish is made, or the publish has ended. -/
def Stage.Sent : Stage → Prop
  | .relays _ _ | .ack | .settled _ => True
  | _ => False

namespace NostrSignaling

variable (L : Libraries)

/-! ## Acknowledgements -/

/-- A property of a publish that its acknowledgements do not touch. -/
structure AckStable (E : Publish → Prop) : Prop where
  settle (q : Publish) (r : Settlement) : E q → E (q.settle r)
  nack (q : Publish) (n : Nat) (msg : Option JsString) : E q →
    E { q with nacked := n, lastNackMsg := msg }
  answer (q : Publish) (answers : List (JsString × Bool)) : E q → E { q with answers := answers }

section
variable {E : Publish → Prop} {s : NostrSignaling}

theorem forall_setPublish (h : ∀ q ∈ s.publishes, E q) {q : Publish} (hq : E q) (p : Nat) :
    ∀ r ∈ (s.setPublish p q).publishes, E r := by
  intro r hr
  rcases List.mem_or_eq_of_mem_set hr with hr | rfl
  · exact h r hr
  · exact hq

theorem AckStable.tryReject (hE : AckStable E) (h : ∀ q ∈ s.publishes, E q) {q : Publish}
    (hq : E q) (p : Nat) : ∀ r ∈ (s.tryReject p q).1.publishes, E r := by
  unfold NostrSignaling.tryReject
  split
  · exact forall_setPublish h hq p
  · exact forall_setPublish h (hE.settle q _ hq) p

theorem AckStable.callAck (hE : AckStable E) (h : ∀ q ∈ s.publishes, E q) (eventId : JsString)
    (ok : Bool) (msg : Option JsString) : ∀ r ∈ (s.callAck eventId ok msg).1.publishes, E r := by
  unfold NostrSignaling.callAck
  split
  · exact h
  · next p _ =>
    unfold finish
    split
    · exact h
    · next q hq =>
      have hEq := h q (List.mem_of_getElem? hq)
      split
      · exact h
      · split
        · exact forall_setPublish h (hE.settle q _ hEq) p
        · exact hE.tryReject h (hE.nack q _ _ hEq) p

theorem AckStable.ackTimeout (hE : AckStable E) (h : ∀ q ∈ s.publishes, E q) (p : Nat) :
    ∀ r ∈ (s.ackTimeout p).1.publishes, E r := by
  unfold NostrSignaling.ackTimeout
  split
  · exact h
  · next q hq =>
    split
    · exact h
    · exact forall_setPublish h (hE.settle q _ (h q (List.mem_of_getElem? hq))) p

theorem AckStable.onRelayMessage (hE : AckStable E) (h : ∀ q ∈ s.publishes, E q) (i : Nat)
    (data : JsString) : ∀ r ∈ (s.onRelayMessage i data).1.publishes, E r := by
  unfold NostrSignaling.onRelayMessage
  split
  · split
    · simpa only [handleEvent_publishes] using h
    · refine hE.callAck (fun q hq => ?_) _ _ _
      obtain ⟨q, hmem, rfl⟩ := List.mem_map.mp hq
      split
      · exact hE.answer q _ (h q hmem)
      · exact h q hmem
  · exact h

end

/-! ## From the call to the event -/

/-- A property of the publishes of an adapter with encryption `v2` that the steps up
to the event establish and all later ones leave alone. -/
structure Encoding (v2 : Bool) (E : Publish → Prop) : Prop where
  onward (q q' : Publish) : E q → q'.roomId = q.roomId → q'.message = q.message →
    q'.event = q.event → (q'.stage = q.stage ∨ q'.stage.Sent) → E q'
  ended (roomId : JsString) (message : Json) (r : Settlement) :
    E (.call roomId message (.settled r))
  plain (roomId : JsString) (message : Json) : v2 = false →
    E (.call roomId message (.encoded message.stringify))
  waiting (roomId : JsString) (message : Json) : v2 = true → E (.call roomId message .kat)
  key (q : Publish) : E q → q.stage = .kat → E { q with stage := .key }
  encrypted (q : Publish) (nonce : Bytes) (content : JsString) : E q → q.stage = .key →
    encryptV2 L q.message (deriveRoomKey L q.roomId) nonce = some content →
    E { q with stage := .encoded content }
  event (q : Publish) (content id : JsString) (createdAt : Nat) : E q →
    q.stage = .encoded content →
    E { q with event := some ⟨id, createdAt, SENN_TAG_PREFIX ++ q.roomId, content⟩, timer := true }

variable {L} {v2 : Bool} {E : Publish → Prop} {s : NostrSignaling}

theorem Encoding.stable (hE : Encoding L v2 E) : AckStable E where
  settle q r h := by
    refine hE.onward q _ h rfl rfl rfl ?_
    unfold Publish.settle
    dsimp only
    split
    · exact .inr trivial
    · exact .inl rfl
  nack q _ _ h := hE.onward q _ h rfl rfl rfl (.inl rfl)
  answer q _ h := hE.onward q _ h rfl rfl rfl (.inl rfl)

theorem Encoding.nextRelay (hE : Encoding L v2 E) (h : ∀ q ∈ s.publishes, E q) (p : Nat)
    (urls : List JsString) (ctorOk : Bool) :
    ∀ q ∈ (s.nextRelay p urls ctorOk).1.publishes, E q := by
  unfold NostrSignaling.nextRelay
  split
  · exact h
  · next q hq =>
    have hq := h q (List.mem_of_getElem? hq)
    split
    · unfold endRelays
      split
      · refine forall_setPublish h ?_ p
        exact hE.onward q _ hq rfl rfl rfl (.inr trivial)
      · dsimp only
        split
        · refine forall_setPublish h ?_ p
          exact hE.onward q _ hq rfl rfl rfl (.inr trivial)
        · refine hE.stable.tryReject h ?_ p
          exact hE.onward q _ hq rfl rfl rfl (.inr trivial)
    · next url rest =>
      obtain ⟨_, _, _, hw⟩ := callEnsure_writes (s.setPublish p { q with
        stage := .relays url rest }) (.publish p) url ctorOk
      rw [hw]
      refine forall_setPublish h ?_ p
      exact hE.onward q _ hq rfl rfl rfl (.inr trivial)

theorem Encoding.relayResumed (hE : Encoding L v2 E) (h : ∀ q ∈ s.publishes, E q) (p : Nat)
    (sendOk ctorOk : Bool) : ∀ q ∈ (s.relayResumed p sendOk ctorOk).1.publishes, E q := by
  have hforget : ∀ q ∈ (s.forget (.publish p)).publishes, E q := h
  unfold NostrSignaling.relayResumed
  split
  · next q ws hq _ =>
    have hq := h q (List.mem_of_getElem? hq)
    split
    · refine hE.nextRelay (forall_setPublish hforget ?_ p) p _ ctorOk
      exact hE.onward q _ hq rfl rfl rfl (.inl rfl)
    · dsimp only
      split
      · refine hE.nextRelay (forall_setPublish hforget ?_ p) p _ ctorOk
        exact hE.onward q _ hq rfl rfl rfl (.inl rfl)
      · refine hE.nextRelay (hE.stable.callAck ?_ _ _ _) p _ ctorOk
        refine forall_setPublish hforget ?_ p
        exact hE.onward q _ hq rfl rfl rfl (.inl rfl)
    · exact h
  · exact h

theorem Encoding.publish (hE : Encoding L s.v2Enabled E) (h : ∀ q ∈ s.publishes, E q)
    (roomId : JsString) (message : Json) : ∀ q ∈ (s.publish roomId message).1.publishes, E q := by
  have hadd : ∀ stage, E (.call roomId message stage) →
      ∀ q ∈ (s.addPublish roomId message stage).1.publishes, E q := by
    intro stage hstage q hq
    rcases List.mem_append.mp hq with hq | hq
    · exact h q hq
    · exact List.mem_singleton.mp hq ▸ hstage
  unfold NostrSignaling.publish
  split
  · exact hadd _ (hE.ended ..)
  · split
    · next hv2 => exact hadd _ (hE.plain _ _ (by simpa using hv2))
    · next hv2 =>
      split
      · exact hadd _ (hE.ended ..)
      · exact hadd _ (hE.waiting _ _ (by simpa using hv2))

/-- A publish that fails before its event is made. -/
theorem Encoding.failPublish (hE : Encoding L v2 E) (h : ∀ q ∈ s.publishes, E q) {q : Publish}
    (hq : E q) (p : Nat) (e : NostrError) :
    ∀ r ∈ (s.failPublish p q e).1.publishes, E r := by
  refine forall_setPublish h ?_ p
  exact hE.onward q { q with stage := .settled (.rejected e) } hq rfl rfl rfl (.inr trivial)

theorem Encoding.katResumed (hE : Encoding L v2 E) (h : ∀ q ∈ s.publishes, E q) (p : Nat) :
    ∀ q ∈ (s.katResumed p).1.publishes, E q := by
  unfold NostrSignaling.katResumed
  split
  · next q ok hq _ =>
    have hEq := h q (List.mem_of_getElem? hq)
    split
    · exact h
    · next hstage =>
      split
      · obtain ⟨v2RoomKeys, hw⟩ := s.getV2RoomKey_writes q.roomId
        have hset : ∀ r ∈ (s.setPublish p { q with stage := .key }).publishes, E r :=
          forall_setPublish h (hE.key q hEq (by simpa using hstage)) p
        rw [hw]
        exact hset
      · exact hE.failPublish h hEq p _
  · exact h

theorem Encoding.keyResumed (hE : Encoding L v2 E) (h : ∀ q ∈ s.publishes, E q) (p : Nat)
    (nonce : Bytes) : ∀ q ∈ (s.keyResumed L p nonce).1.publishes, E q := by
  unfold NostrSignaling.keyResumed
  split
  · exact h
  · next q hq =>
    have hEq := h q (List.mem_of_getElem? hq)
    split
    · exact h
    · next hstage =>
      split
      · split
        · next content hcontent =>
          refine forall_setPublish h ?_ p
          exact hE.encrypted q nonce content hEq (by simpa using hstage) hcontent
        · exact hE.failPublish h hEq p _
      · exact hE.failPublish h hEq p _
      · exact h

theorem Encoding.encodedResumed (hE : Encoding L v2 E) (h : ∀ q ∈ s.publishes, E q)
    (p now : Nat) (ctorOk : Bool) :
    ∀ q ∈ (s.encodedResumed L p now ctorOk).1.publishes, E q := by
  unfold NostrSignaling.encodedResumed
  split
  · exact h
  · next q hq =>
    split
    · next content hstage =>
      refine hE.nextRelay ?_ p s.relays ctorOk
      refine forall_setPublish h ?_ p
      exact hE.event q content _ _ (h q (List.mem_of_getElem? hq)) hstage
    · exact h

/-- Every step keeps such a property of all publishes. -/
theorem Encoding.step (hE : Encoding L s.v2Enabled E) (h : ∀ q ∈ s.publishes, E q)
    (ev : Event) : ∀ q ∈ (step L s ev).1.publishes, E q := by
  by_cases hev : OnPublishes ev
  · cases ev with
    | publish roomId message => exact hE.publish h roomId message
    | katResumed p => exact hE.katResumed h p
    | keyResumed p nonce => exact hE.keyResumed h p nonce
    | encodedResumed p now ctorOk => exact hE.encodedResumed h p now ctorOk
    | relayResumed p sendOk ctorOk => exact hE.relayResumed h p sendOk ctorOk
    | ackTimeout p => exact hE.stable.ackTimeout h p
    | message i data => exact hE.stable.onRelayMessage h i data
    | _ => exact hev.elim
  · exact (s.step_publishes L hev).1 ▸ h

end NostrSignaling

end Senn.Nostr
