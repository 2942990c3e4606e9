import Senn.Nostr.Rooms
import Senn.Nostr.Encrypted

/-! # Delivery of received events

The ids of subscriptions differ while the counter has not wrapped, so a frame names one
subscription, current or retired. A subscription is handed an event once, and the loop
over its handlers comes to each place once. -/

namespace Senn.Nostr
open Senn.Js Senn.Lib

/-! ## Ids of subscriptions -/

/-- `newSubId` for the counter `n`. -/
def subIdOf (roomId : JsString) (n : Nat) : JsString :=
  js "s_" ++ roomId.take 8 ++ js "_" ++ natText 36 n

theorem subIdOf_injective {roomId room : JsString} {m n : Nat}
    (h : subIdOf roomId m = subIdOf room n) : m = n := by
  have hjs : js "_" = [0x5F] := rfl
  simp only [subIdOf, hjs, List.append_assoc, List.singleton_append] at h
  rw [← List.append_assoc, ← List.append_assoc] at h
  have htext := after_last_separator h (separator_not_mem_natText m) (separator_not_mem_natText n)
  exact natText_injective (by decide) (by decide) htext

/-- The subscriptions are numbered as they were opened. -/
structure Rooms.Numbered (t : Rooms) : Prop where
  counter : t.subCounter = t.roomStates.length % 0xffffff
  subIds : ∀ (k : Nat) (room : RoomState), t.roomStates[k]? = some room →
    ∃ roomId, room.subId = subIdOf roomId ((k + 1) % 0xffffff)

/-- Fewer than `2 ^ 24 - 1` subscriptions have different ids. -/
theorem Rooms.Numbered.unique {t : Rooms} (h : t.Numbered) (hfew : t.roomStates.length < 0xffffff)
    {j k : Nat} {room room' : RoomState} (hj : t.roomStates[j]? = some room)
    (hk : t.roomStates[k]? = some room') (heq : room.subId = room'.subId) : j = k := by
  obtain ⟨r, hr⟩ := h.subIds j room hj
  obtain ⟨r', hr'⟩ := h.subIds k room' hk
  have hnumber := subIdOf_injective (hr.symm.trans (heq.trans hr'))
  have hjlt := (List.getElem?_eq_some_iff.mp hj).1
  have hklt := (List.getElem?_eq_some_iff.mp hk).1
  rw [Nat.mod_eq_of_lt (by omega), Nat.mod_eq_of_lt (by omega)] at hnumber
  omega

/-- The subscriptions are as many as before, each with the id it had. -/
theorem Rooms.Numbered.of_lasts {t t' : Rooms} (h : t.Numbered)
    (hcounter : t'.subCounter = t.subCounter)
    (hlength : t'.roomStates.length = t.roomStates.length)
    (hlasts : ∀ (k : Nat) (room : RoomState), t.roomStates[k]? = some room →
      ∃ room', t'.roomStates[k]? = some room' ∧ NostrSignaling.Lasts room room') :
    t'.Numbered := by
  refine ⟨by rw [hcounter, hlength]; exact h.counter, fun k room' hroom' => ?_⟩
  have hk := (List.getElem?_eq_some_iff.mp hroom').1
  have hroom := List.getElem?_eq_getElem (hlength ▸ hk)
  obtain ⟨room, hget, hlast⟩ := hlasts k _ hroom
  rw [hroom'] at hget
  cases hget
  rw [hlast.subId]
  exact h.subIds k _ hroom

namespace NostrSignaling

variable {s : NostrSignaling}

theorem Subscribed.numbered (h : s.roomsOf.Numbered) {roomId : JsString} {handler : Nat} {t : Rooms}
    (hsub : Subscribed s roomId handler t) : t.Numbered := by
  cases hsub with
  | refused => exact h
  | joined hclosed herr hroom =>
    exact h.of_lasts rfl (by simp [roomsOf]) fun k room hk =>
      (Subscribed.joined hclosed herr hroom).lasts hk
  | opened =>
    have hcounter := h.counter
    simp only [roomsOf] at hcounter
    refine ⟨?_, fun k room hk => ?_⟩
    · simp only [hcounter, List.length_append, List.length_singleton]
      omega
    · rw [List.getElem?_append] at hk
      split at hk
      · exact h.subIds k room hk
      · have hlast := (List.getElem?_eq_some_iff.mp hk).1
        simp only [List.length_singleton] at hlast
        have hk' : k = s.roomStates.length := by omega
        subst hk'
        simp only [Nat.sub_self, List.getElem?_cons_zero, Option.some.injEq] at hk
        refine ⟨roomId, ?_⟩
        rw [← hk]
        show s.newSubId roomId = _
        rw [newSubId, subIdOf, hcounter, Nat.mod_add_mod]

end NostrSignaling

/-! ## What is handed on, and to whom -/

/-- A frame that is handed on: the subscription, by its place, and the event's id. -/
structure Accepted where
  room : Nat
  id : Option Json

/-- A turn of the loop over the handlers: the received event, and the handler's entry. -/
structure Call where
  decode : Nat
  place : Nat
  handler : Nat

/-- The handler an output calls. -/
def Out.handler? : Out → Option Nat
  | .handler h _ => some h
  | _ => none

namespace NostrSignaling

variable {s : NostrSignaling}

/-- The frame the step hands on, if it does. -/
def accepted (s : NostrSignaling) : Event → List Accepted
  | .message i data =>
    match s.created[i]?, relayFrame? data with
    | some ⟨_, .opened, _⟩, some (.event subId event) =>
      ((s.taken subId event).map fun t => ⟨t.2.1, event.get? (js "id")⟩).toList
    | _, _ => []
  | _ => []

/-- The handlers a loop of the step goes over. -/
def loopHandlers (s : NostrSignaling) (i : Nat) : List (Nat × Nat) :=
  (s.roomStates[i]?.map fun room => room.handlers).getD []

/-- The handler the step calls, if it does. -/
def called (s : NostrSignaling) : Event → List Call
  | .dispatch d =>
    match s.decodes[d]? with
    | some ⟨_, i, _, .dispatching _ next⟩ =>
      (((s.loopHandlers i).find? fun h => next ≤ h.1).map fun h => ⟨d, h.1, h.2⟩).toList
    | _ => []
  | _ => []

theorem setDecode_rooms (s : NostrSignaling) (d : Nat) (stage : DecodeStage) :
    (s.setDecode d stage).decodes.map (fun c => c.room) = s.decodes.map fun c => c.room := by
  refine List.ext_getElem? fun j => ?_
  simp only [setDecode, List.getElem?_map, List.getElem?_modify]
  cases s.decodes[j]? with
  | none => rfl
  | some c => by_cases hj : d = j <;> simp [hj]

theorem decodeKat_rooms (s : NostrSignaling) (d : Nat) :
    (s.decodeKat d).decodes.map (fun c => c.room) = s.decodes.map fun c => c.room := by
  unfold decodeKat
  split
  · next roomId _ _ _ _ _ =>
    split
    · obtain ⟨_, hw⟩ := s.getV2RoomKey_writes roomId
      rw [hw]
      exact setDecode_rooms s d .key
    · exact setDecode_rooms ..
  · rfl

theorem decodeKey_rooms (L : Libraries) (s : NostrSignaling) (d : Nat) :
    (s.decodeKey L d).decodes.map (fun c => c.room) = s.decodes.map fun c => c.room := by
  unfold decodeKey
  split
  · split
    · exact setDecode_rooms ..
    · exact setDecode_rooms ..
    · rfl
  · rfl

theorem dispatch_rooms (s : NostrSignaling) (d : Nat) :
    (s.dispatch d).1.decodes.map (fun c => c.room) = s.decodes.map fun c => c.room := by
  unfold dispatch
  split
  · split <;> exact setDecode_rooms ..
  · split <;> exact setDecode_rooms ..
  · rfl

/-- A loop over the handlers only goes on. -/
def GoesOn : DecodeStage → DecodeStage → Prop
  | .done, t => t = .done
  | .dispatching _ next, t => t = .done ∨ ∃ m next', t = .dispatching m next' ∧ next ≤ next'
  | _, _ => True

theorem GoesOn.refl (t : DecodeStage) : GoesOn t t := by
  cases t with
  | done => rfl
  | dispatching m next => exact .inr ⟨m, next, rfl, Nat.le_refl _⟩
  | _ => trivial

theorem setDecode_onward {d : Nat} {stage : DecodeStage}
    (hstage : ∀ c, s.decodes[d]? = some c → GoesOn c.stage stage) {j : Nat} {c : Decode}
    (hc : s.decodes[j]? = some c) :
    ∃ c', (s.setDecode d stage).decodes[j]? = some c' ∧ GoesOn c.stage c'.stage := by
  by_cases hj : d = j
  · subst hj
    exact ⟨{ c with stage := stage }, by simp [setDecode, hc], hstage c hc⟩
  · exact ⟨c, by simp [setDecode, hj, hc], .refl c.stage⟩

/-- A stage that is no loop yet may be followed by any other. -/
theorem onward_of_get {d : Nat} {c : Decode} {stage : DecodeStage} (hc : s.decodes[d]? = some c)
    (h : GoesOn c.stage stage) : ∀ c', s.decodes[d]? = some c' → GoesOn c'.stage stage := by
  intro c' hc'
  rw [hc] at hc'
  cases hc'
  exact h

theorem dispatch_onward (d : Nat) {j : Nat} {c : Decode} (hc : s.decodes[j]? = some c) :
    ∃ c', (s.dispatch d).1.decodes[j]? = some c' ∧ GoesOn c.stage c'.stage := by
  unfold dispatch
  split
  · next hd => split <;> exact setDecode_onward (onward_of_get hd trivial) hc
  · next m next hd =>
    split
    · next h hfind =>
      have hle : next ≤ h.1 := by simpa using List.find?_some hfind
      exact setDecode_onward (onward_of_get hd (.inr ⟨m, h.1 + 1, rfl, by omega⟩)) hc
    · exact setDecode_onward (onward_of_get hd (.inl rfl)) hc
  · exact ⟨c, hc, .refl c.stage⟩

theorem step_onward (L : Libraries) (s : NostrSignaling) (ev : Event) {j : Nat} {c : Decode}
    (hc : s.decodes[j]? = some c) :
    ∃ c', (step L s ev).1.decodes[j]? = some c' ∧ GoesOn c.stage c'.stage := by
  by_cases hev : OnDecodes ev
  · cases ev with
    | message i data =>
      refine ⟨c, ?_, .refl c.stage⟩
      simp only [step, onRelayMessage]
      split
      · split
        · rw [handleEvent_eq]
          cases s.taken _ _ with
          | none => exact hc
          | some t =>
            have hj := (List.getElem?_eq_some_iff.mp hc).1
            exact (List.getElem?_append_left hj).trans hc
        · obtain ⟨_, _, hw⟩ := callAck_writes (s.noteAnswer _ _ _) _ _ _
          rw [hw]
          exact hc
      · exact hc
    | decodeKat d =>
      simp only [step, decodeKat]
      split
      · next roomId _ _ _ hd _ =>
        split
        · obtain ⟨_, hw⟩ := s.getV2RoomKey_writes roomId
          rw [hw]
          exact setDecode_onward (s := s) (onward_of_get hd trivial) hc
        · exact setDecode_onward (onward_of_get hd trivial) hc
      · exact ⟨c, hc, .refl c.stage⟩
    | decodeKey d =>
      simp only [step, decodeKey]
      split
      · next hd =>
        split
        · exact setDecode_onward (onward_of_get hd trivial) hc
        · exact setDecode_onward (onward_of_get hd trivial) hc
        · exact ⟨c, hc, .refl c.stage⟩
      · exact ⟨c, hc, .refl c.stage⟩
    | dispatch d => exact dispatch_onward d hc
    | _ => exact hev.elim
  · exact ⟨c, by rw [s.step_decodes L hev, hc], .refl c.stage⟩

/-- The loop of the received event is past the entry. -/
def Past (s : NostrSignaling) (a : Call) : Prop :=
  ∃ c, s.decodes[a.decode]? = some c ∧
    (c.stage = .done ∨ ∃ m next, c.stage = .dispatching m next ∧ a.place < next)

theorem Past.step (L : Libraries) {a : Call} (h : s.Past a) (ev : Event) :
    (step L s ev).1.Past a := by
  obtain ⟨c, hc, hpast⟩ := h
  obtain ⟨c', hc', honward⟩ := step_onward L s ev hc
  refine ⟨c', hc', ?_⟩
  rcases hpast with hpast | ⟨m, next, hpast, hlt⟩
  · rw [hpast] at honward
    exact .inl honward
  · rw [hpast] at honward
    rcases honward with hdone | ⟨m', next', hnext, hle⟩
    · exact .inl hdone
    · exact .inr ⟨m', next', hnext, Nat.lt_of_lt_of_le hlt hle⟩

/-- What a turn of a loop calls: a handler of the room, at the first place that is left. -/
structure Calls (s : NostrSignaling) (ev : Event) (a : Call) : Prop where
  dispatch : ev = .dispatch a.decode
  loop : ∃ c m next, s.decodes[a.decode]? = some c ∧ c.stage = .dispatching m next ∧
    next ≤ a.place ∧ (a.place, a.handler) ∈ s.loopHandlers c.room

theorem Calls.later {ev : Event} {a b : Call} (ha : s.Past a) (hb : Calls s ev b)
    (hsame : a.decode = b.decode) : a.place < b.place := by
  obtain ⟨c, hc, hpast⟩ := ha
  obtain ⟨c', m, next, hc', hstage, hle, _⟩ := hb.loop
  rw [hsame, hc'] at hc
  cases hc
  rcases hpast with hdone | ⟨m', next', hnext, hlt⟩
  · rw [hstage] at hdone
    cases hdone
  · rw [hstage] at hnext
    cases hnext
    omega

/-! ## The outputs -/

end NostrSignaling

end Senn.Nostr
