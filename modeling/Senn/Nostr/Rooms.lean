import Senn.Nostr.Writes
import Senn.Lib.Machine

/-! # The rooms of an adapter

What `subscribe`, `unsubscribe` and a received event do to the rooms, and what stays
of a room's subscription: its id, and the ids of the events it was handed. -/

namespace Senn.Nostr
open Senn.Js Senn.Lib

/-- A new subscription with its first handler. -/
def RoomState.opened (subId : JsString) (handler : Nat) : RoomState := ⟨subId, [(0, handler)], 1, []⟩

/-- `room.handlers.delete(handler)` -/
def RoomState.without (room : RoomState) (handler : Nat) : RoomState :=
  { room with handlers := room.handlers.filter fun h => h.2 ≠ handler }

theorem modify_length_append {α : Type} (f : α → α) (as : List α) (a : α) :
    (as ++ [a]).modify as.length f = as ++ [f a] := by
  induction as with
  | nil => rfl
  | cons b as ih => simpa using ih

/-- The adapter's rooms, with their subscriptions. -/
structure Rooms where
  rooms : InsMap JsString Nat
  roomStates : List RoomState
  subCounter : Nat
  unsubscribes : List (JsString × Nat)

namespace NostrSignaling

def roomsOf (s : NostrSignaling) : Rooms := ⟨s.rooms, s.roomStates, s.subCounter, s.unsubscribes⟩

/-- What a call of `subscribe` does to the rooms. -/
inductive Subscribed (s : NostrSignaling) (roomId : JsString) (handler : Nat) : Rooms → Prop
  | refused : s.closed = true ∨ s.v2KatError = true → Subscribed s roomId handler s.roomsOf
  | joined {i : Nat} : s.closed = false → s.v2KatError = false → s.rooms.get roomId = some i →
      Subscribed s roomId handler
        ⟨s.rooms, s.roomStates.modify i fun room => room.add handler, s.subCounter,
          s.unsubscribes ++ [(roomId, handler)]⟩
  | opened : s.closed = false → s.v2KatError = false → s.rooms.get roomId = none →
      Subscribed s roomId handler
        ⟨s.rooms.set roomId s.roomStates.length,
          s.roomStates ++ [.opened (s.newSubId roomId) handler], (s.subCounter + 1) % 0xffffff,
          s.unsubscribes ++ [(roomId, handler)]⟩

theorem subscribe_rooms (s : NostrSignaling) (roomId : JsString) (handler : Nat) (ctorOk : Bool) :
    Subscribed s roomId handler (s.subscribe roomId handler ctorOk).1.roomsOf := by
  unfold subscribe
  split
  · next hclosed => exact .refused (.inl hclosed)
  split
  · next herr => exact .refused (.inr herr)
  next hclosed herr =>
  have hclosed : s.closed = false := by simpa using hclosed
  have herr : s.v2KatError = false := by simpa using herr
  obtain ⟨v2RoomKeys, hkey⟩ := s.roomKey_writes roomId
  dsimp only
  rw [hkey]
  unfold roomFor
  cases hroom : s.rooms.get roomId with
  | some i => exact .joined hclosed herr hroom
  | none =>
    obtain ⟨_, _, _, _, hnext⟩ := nextRequest_writes
      { s with
        v2RoomKeys := v2RoomKeys
        subCounter := (s.subCounter + 1) % 0xffffff
        roomStates := s.roomStates ++ [⟨s.newSubId roomId, [], 0, []⟩]
        rooms := s.rooms.set roomId s.roomStates.length
        requests := s.requests ++ [⟨roomId, s.newSubId roomId, s.relays⟩] }
      s.requests.length ctorOk
    have hadd := modify_length_append (fun room => room.add handler) s.roomStates
      ⟨s.newSubId roomId, [], 0, []⟩
    dsimp only [newSubId] at hnext hadd ⊢
    rw [hnext]
    dsimp only [roomsOf]
    rw [hadd]
    exact .opened hclosed herr hroom

/-- What a call of the `k`-th unsubscribe function does. -/
inductive Unsubscribed (s : NostrSignaling) (k : Nat) : NostrSignaling × List Out → Prop
  | void : (∀ roomId handler i, s.unsubscribes[k]? = some (roomId, handler) →
      s.rooms.get roomId = some i → s.roomStates[i]? = none) → Unsubscribed s k (s, [])
  | left {roomId : JsString} {handler i : Nat} {room : RoomState} :
      s.unsubscribes[k]? = some (roomId, handler) → s.rooms.get roomId = some i →
      s.roomStates[i]? = some room → (room.without handler).handlers ≠ [] →
      Unsubscribed s k ({ s with roomStates := s.roomStates.set i (room.without handler) }, [])
  | last {roomId : JsString} {handler i : Nat} {room : RoomState} :
      s.unsubscribes[k]? = some (roomId, handler) → s.rooms.get roomId = some i →
      s.roomStates[i]? = some room → (room.without handler).handlers = [] →
      Unsubscribed s k
        ({ s with
          roomStates := s.roomStates.set i (room.without handler)
          rooms := s.rooms.delete roomId }, s.closeReqOnAll room.subId)

theorem unsubscribe_inv (s : NostrSignaling) (k : Nat) : Unsubscribed s k (s.unsubscribe k) := by
  unfold unsubscribe
  split
  · next hk => exact .void fun _ _ _ h => by rw [hk] at h; cases h
  · next roomId handler hk =>
    split
    · next hroom =>
      refine .void fun _ _ i h hi => ?_
      rw [hk] at h
      cases h
      rw [hroom] at hi
      cases hi
    · next i hroom =>
      split
      · next hstate =>
        refine .void fun _ _ j h hj => ?_
        rw [hk] at h
        cases h
        rw [hroom] at hj
        cases hj
        exact hstate
      · next room hstate =>
        dsimp only
        split
        · next hempty => exact .last hk hroom hstate (List.isEmpty_iff.mp hempty)
        · next hmore => exact .left hk hroom hstate fun h => hmore (List.isEmpty_iff.mpr h)

/-- The room and the subscription an event of a frame is handed on to. -/
def taken (s : NostrSignaling) (subId : JsString) (event : Json) :
    Option (JsString × Nat × RoomState) :=
  if hasKind event then
    match s.rooms.entries.find? fun e =>
      (s.roomStates[e.2]?.map fun room => room.subId) = some subId with
    | none => none
    | some (roomId, i) =>
      match s.roomStates[i]? with
      | none => none
      | some room =>
        if room.delivered.any (sameElement (event.get? (js "id"))) then none
        else some (roomId, i, room)
  else none

theorem handleEvent_eq (s : NostrSignaling) (subId : JsString) (event : Json) :
    s.handleEvent subId event = ((s.taken subId event).map fun t =>
      { s with
        roomStates := s.roomStates.set t.2.1 { t.2.2 with
          delivered := t.2.2.delivered ++ [event.get? (js "id")] }
        decodes := s.decodes ++ [⟨t.1, t.2.1, event.get? (js "content"),
          s.decodeStage (event.get? (js "content"))⟩] }).getD s := by
  unfold handleEvent taken
  by_cases hkind : hasKind event = true
  · simp only [if_pos hkind]
    cases s.rooms.entries.find? fun e =>
        (s.roomStates[e.2]?.map fun room => room.subId) = some subId with
    | none => rfl
    | some e =>
      dsimp only
      cases s.roomStates[e.2]? with
      | none => rfl
      | some room =>
        dsimp only
        by_cases hid : room.delivered.any (sameElement (event.get? (js "id"))) = true
        · simp only [if_pos hid]
          rfl
        · simp only [if_neg hid]
          rfl
  · simp only [if_neg hkind]
    rfl

/-- A frame that is handed on names the current subscription of a room, which was not
handed its event before. -/
structure Taken (s : NostrSignaling) (subId : JsString) (event : Json) (roomId : JsString)
    (i : Nat) (room : RoomState) : Prop where
  kind : hasKind event = true
  current : s.rooms.get roomId = some i
  state : s.roomStates[i]? = some room
  subId : room.subId = subId
  fresh : ∀ id ∈ room.delivered, sameElement (event.get? (js "id")) id = false

theorem taken_some {s : NostrSignaling} {subId : JsString} {event : Json} {roomId : JsString}
    {i : Nat} {room : RoomState} (h : s.taken subId event = some (roomId, i, room)) :
    Taken s subId event roomId i room := by
  unfold taken at h
  split at h
  · next hkind =>
    split at h
    · cases h
    · next hfind =>
      split at h
      · cases h
      · next hstate =>
        split at h
        · cases h
        · next hfresh =>
          cases h
          have hentry := List.mem_of_find?_eq_some hfind
          have hnamed := List.find?_some hfind
          rw [decide_eq_true_eq, hstate] at hnamed
          refine ⟨hkind, InsMap.get_eq_some_iff.mpr hentry, hstate, Option.some.inj hnamed, ?_⟩
          simpa using hfresh
  · cases h

/-! ## What stays of a subscription -/

/-- The subscription has its id, and all events it was handed. -/
structure Lasts (room room' : RoomState) : Prop where
  subId : room'.subId = room.subId
  delivered : room.delivered <+: room'.delivered

theorem Lasts.refl (room : RoomState) : Lasts room room := ⟨rfl, List.prefix_rfl⟩

theorem Lasts.add (room : RoomState) (handler : Nat) : Lasts room (room.add handler) := by
  unfold RoomState.add
  split
  · exact .refl room
  · exact ⟨rfl, List.prefix_rfl⟩

theorem lasts_set {rooms : List RoomState} {i k : Nat} {old new room : RoomState}
    (hold : rooms[i]? = some old) (hlasts : Lasts old new) (hroom : rooms[k]? = some room) :
    ∃ room', (rooms.set i new)[k]? = some room' ∧ Lasts room room' := by
  by_cases hik : i = k
  · subst hik
    rw [hold] at hroom
    cases hroom
    exact ⟨new, by simp [(List.getElem?_eq_some_iff.mp hold).1], hlasts⟩
  · exact ⟨room, by rw [List.getElem?_set_ne hik, hroom], .refl room⟩

theorem Subscribed.lasts {s : NostrSignaling} {roomId : JsString} {handler : Nat} {t : Rooms}
    (h : Subscribed s roomId handler t) {k : Nat} {room : RoomState}
    (hroom : s.roomStates[k]? = some room) :
    ∃ room', t.roomStates[k]? = some room' ∧ Lasts room room' := by
  cases h with
  | refused => exact ⟨room, hroom, .refl room⟩
  | @joined i _ _ _ =>
    simp only [List.getElem?_modify, hroom]
    split
    · exact ⟨room.add handler, rfl, .add room handler⟩
    · exact ⟨room, rfl, .refl room⟩
  | opened =>
    refine ⟨room, ?_, .refl room⟩
    have hk := (List.getElem?_eq_some_iff.mp hroom).1
    simp only [List.getElem?_append_left hk, hroom]

theorem Unsubscribed.lasts {s : NostrSignaling} {j : Nat} {r : NostrSignaling × List Out}
    (h : Unsubscribed s j r) {k : Nat} {room : RoomState} (hroom : s.roomStates[k]? = some room) :
    ∃ room', r.1.roomStates[k]? = some room' ∧ Lasts room room' := by
  cases h with
  | void => exact ⟨room, hroom, .refl room⟩
  | left _ _ hold => exact lasts_set hold ⟨rfl, List.prefix_rfl⟩ hroom
  | last _ _ hold => exact lasts_set hold ⟨rfl, List.prefix_rfl⟩ hroom

end NostrSignaling

end Senn.Nostr
