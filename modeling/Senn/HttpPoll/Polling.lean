import Senn.HttpPoll.Adapter
import Senn.Lib.Machine

/-! # What a room subscription hands on

Each item of a response with a string `id` is handed to the room's handlers when its id
comes up for the first time. The cursor of a poll is the last one of a successful
response, as long as it is a well-formed string: `URLSearchParams` replaces lone surrogates.
A second `close` does not wait for the loops that the first one still awaits. -/

namespace Senn.HttpPoll
open Senn.Js Senn.Lib

/-! ## First occurrences -/

/-- An item that can be handed on, with its id. -/
def handed? (item : Json) : Option Handed :=
  match item.get? (js "id") with
  | some (.str id) => some (id, item.get? (js "message"))
  | _ => none

theorem handed?_eq_none {item : Json} (hid : ∀ id, item.get? (js "id") ≠ some (.str id)) :
    handed? item = none := by
  unfold handed?
  split
  · next id hsome => exact absurd hsome (hid id)
  · rfl

/-- Of the entries with the same id, the first. -/
def firstOccurrences : List Handed → List Handed
  | [] => []
  | h :: hs => h :: (firstOccurrences hs).filter fun h' => h'.1 ≠ h.1

theorem mem_firstOccurrences {hs : List Handed} {id : JsString} :
    id ∈ (firstOccurrences hs).map Prod.fst ↔ id ∈ hs.map Prod.fst := by
  induction hs with
  | nil => rfl
  | cons h hs ih =>
    rw [firstOccurrences, List.map_cons, List.map_cons, List.mem_cons, List.mem_cons, ← ih]
    by_cases hid : id = h.1
    · simp [hid]
    · simp only [hid, false_or, List.mem_map, List.mem_filter, decide_eq_true_eq]
      constructor
      · rintro ⟨h', hmem, rfl⟩
        exact ⟨h', hmem.1, rfl⟩
      · rintro ⟨h', hmem, rfl⟩
        exact ⟨h', ⟨hmem, hid⟩, rfl⟩

theorem firstOccurrences_nodup (hs : List Handed) : ((firstOccurrences hs).map Prod.fst).Nodup := by
  induction hs with
  | nil => exact List.nodup_nil
  | cons h hs ih =>
    rw [firstOccurrences, List.map_cons]
    refine List.nodup_cons.mpr ⟨fun hmem => ?_, ih.sublist (List.filter_sublist.map _)⟩
    obtain ⟨h', hmem, heq⟩ := List.mem_map.mp hmem
    exact absurd heq (of_decide_eq_true (List.mem_filter.mp hmem).2)

theorem firstOccurrences_concat (hs : List Handed) (h : Handed) :
    firstOccurrences (hs ++ [h]) =
      if h.1 ∈ hs.map Prod.fst then firstOccurrences hs else firstOccurrences hs ++ [h] := by
  induction hs with
  | nil => rfl
  | cons h' hs ih =>
    rw [List.cons_append, firstOccurrences, ih, firstOccurrences]
    by_cases hid : h.1 = h'.1
    · have hmem : h.1 ∈ (h' :: hs).map Prod.fst := by simp [hid]
      rw [if_pos hmem]
      split
      · rfl
      · simp [hid]
    · have hiff : h.1 ∈ (h' :: hs).map Prod.fst ↔ h.1 ∈ hs.map Prod.fst := by
        rw [List.map_cons, List.mem_cons]
        exact or_iff_right hid
      simp only [hiff]
      split
      · rfl
      · simp [hid]

/-! ## Responses -/

/-- The items of a successful response. -/
def bodyItems (json : Json) : List Json :=
  match json.get? (js "messages") with
  | some (.arr items) => items
  | _ => []

/-- The cursor of a successful response, if it is a non-empty string. -/
def bodyCursor (json : Json) : Option JsString :=
  match json.get? (js "messages"), json.get? (js "cursor") with
  | some (.arr _), some (.str cursor) => if cursor = [] then none else some cursor
  | _, _ => none

/-- The last cursor of the responses; a room starts with none. -/
def lastCursor (bodies : List Json) : JsString := ((bodies.filterMap bodyCursor).getLast?).getD []

namespace Room

def isReading (r : Room) : Bool :=
  match r.stage with
  | .reading => true
  | _ => false

/-- The items of the last response yet to come up. -/
def rest (r : Room) : List Json :=
  match r.stage with
  | .dispatching items _ _ => items
  | _ => []

/-- The cursor the room will have after the last response. -/
def nextCursor (r : Room) : JsString :=
  match r.stage with
  | .dispatching _ cursor _ => keptCursor r.cursor cursor
  | _ => r.cursor

/-- The turn the loop over the handlers is at: the message, and the handlers yet to be called. -/
def turn? (r : Room) : Option (Option Json × List Nat) :=
  match r.stage with
  | .dispatching _ _ turn => turn
  | _ => none

/-- The handlers yet to be called. -/
def todo (r : Room) : List Nat := (r.turn?.map Prod.snd).getD []

/-- The item that the next turn hands on. -/
def starts (r : Room) : List Handed :=
  match r.stage with
  | .dispatching _ _ (some (_, _ :: _)) => []
  | .dispatching (item :: _) _ _ => (handed? item).toList.filter fun h => h.1 ∉ r.delivered
  | _ => []

end Room

namespace HttpPollSignaling

/-- The bodies that a room's loop reads. -/
def responses (i : Nat) (s : HttpPollSignaling) (ev : Event) : List Json :=
  match s.roomStates[i]?, ev with
  | some r, .read j (.body json) => if j = i ∧ r.isReading then [json] else []
  | _, _ => []

/-- The items that a room hands on. -/
def started (i : Nat) (s : HttpPollSignaling) (ev : Event) : List Handed :=
  match s.roomStates[i]?, ev with
  | some r, .turn j _ => if j = i then r.starts else []
  | _, _ => []

/-- The handlers of a room state. -/
def handlers (s : HttpPollSignaling) (i : Nat) : List Nat :=
  ((s.roomStates[i]?).map Room.handlers).getD []

end HttpPollSignaling

/-! ## Moves of a room -/

/-- The handlers that outputs call, with the message. -/
def invokes (i : Nat) (outs : List Out) : List (Nat × Option Json) :=
  outs.filterMap fun
    | .invoke j handler message => if j = i then some (handler, message) else none
    | _ => none

/-- The queries that outputs poll with. -/
def queries (i : Nat) (outs : List Out) : List JsString :=
  outs.filterMap fun
    | .get j _ query => if j = i then some query else none
    | _ => none

@[simp] theorem invokes_nil (i : Nat) : invokes i [] = [] := rfl

@[simp] theorem invokes_append (i : Nat) (outs outs' : List Out) :
    invokes i (outs ++ outs') = invokes i outs ++ invokes i outs' := List.filterMap_append

@[simp] theorem queries_nil (i : Nat) : queries i [] = [] := rfl

/-- What a step does to a room, with what it lets out. -/
inductive RoomMove (i : Nat) (closed : Bool) (r : Room) (ev : Event) : Room → List Out → Prop
  | own : ev.room? = some i → RoomMove i closed r ev (r.step i closed ev).1 (r.step i closed ev).2
  | still {outs : List Out} : ev.room? ≠ some i → invokes i outs = [] → queries i outs = [] →
    RoomMove i closed r ev r outs
  | joined {handler : Nat} : ev.room? = none → RoomMove i closed r ev (r.add handler) []
  | left {handler : Nat} {aborted : Bool} {outs : List Out} : ev.room? = none →
    invokes i outs = [] → queries i outs = [] →
    RoomMove i closed r ev { r.delete handler with aborted := aborted } outs
  | aborted {outs : List Out} : ev.room? = none → invokes i outs = [] → queries i outs = [] →
    RoomMove i closed r ev { r with aborted := true } outs

theorem step_outs_room (r : Room) {i j : Nat} (h : j ≠ i) (closed : Bool) (ev : Event) :
    invokes i (r.step j closed ev).2 = [] ∧ queries i (r.step j closed ev).2 = [] := by
  unfold Room.step
  split
  · exact ⟨rfl, rfl⟩
  · exact ⟨rfl, rfl⟩
  · next throws _ =>
    unfold Room.turn
    split
    · cases throws <;> simp [invokes, queries, h]
    all_goals exact ⟨rfl, rfl⟩
  · unfold Room.elapsed
    split
    · exact ⟨rfl, rfl⟩
    · simp [Room.poll, invokes, queries, h]
  · exact ⟨rfl, rfl⟩

theorem aborts_no_calls (live : List Nat) (i : Nat) :
    invokes i (live.map Out.abort) = [] ∧ queries i (live.map Out.abort) = [] := by
  constructor
  · refine List.filterMap_eq_nil_iff.mpr fun o ho => ?_
    obtain ⟨j, _, rfl⟩ := List.mem_map.mp ho
    rfl
  · refine List.filterMap_eq_nil_iff.mpr fun o ho => ?_
    obtain ⟨j, _, rfl⟩ := List.mem_map.mp ho
    rfl

namespace HttpPollSignaling

variable {s : HttpPollSignaling}

theorem step_own {i : Nat} {r : Room} (hr : s.roomStates[i]? = some r) {ev : Event}
    (hev : ev.room? = some i) :
    s.step ev = ({ s with roomStates := s.roomStates.set i (r.step i s.closed ev).1 },
      (r.step i s.closed ev).2) := by
  cases ev with
  | fetched j _ | read j _ | turn j _ | elapsed j =>
    obtain rfl := Option.some.inj hev
    simp [step, hr]
  | _ => cases hev

theorem step_absent {i : Nat} (hr : s.roomStates[i]? = none) {ev : Event}
    (hev : ev.room? = some i) : s.step ev = (s, []) := by
  cases ev with
  | fetched j _ | read j _ | turn j _ | elapsed j =>
    obtain rfl := Option.some.inj hev
    simp [step, hr]
  | _ => cases hev

/-- An event of a room leaves the others alone. -/
theorem step_other {i : Nat} {r : Room} (hr : s.roomStates[i]? = some r) {ev : Event} {j : Nat}
    (hev : ev.room? = some j) (hj : j ≠ i) : (s.step ev).1.roomStates[i]? = some r ∧
      invokes i (s.step ev).2 = [] ∧ queries i (s.step ev).2 = [] := by
  cases hroom : s.roomStates[j]? with
  | none =>
    rw [step_absent hroom hev]
    exact ⟨hr, rfl, rfl⟩
  | some r' =>
    rw [step_own hroom hev]
    exact ⟨by simpa [List.getElem?_set, hj] using hr, step_outs_room r' hj s.closed ev⟩

theorem subscribe_move {i : Nat} {r : Room} (hr : s.roomStates[i]? = some r) (roomId : JsString)
    (handler : Nat) : ∃ r', (s.subscribe roomId handler).1.roomStates[i]? = some r' ∧
      RoomMove i s.closed r (.subscribe roomId handler) r' (s.subscribe roomId handler).2 := by
  have hlt : i < s.roomStates.length := (List.getElem?_eq_some_iff.mp hr).1
  unfold subscribe
  split
  · exact ⟨r, hr, .still (by simp [Event.room?]) rfl rfl⟩
  · split
    · next j _ =>
      by_cases hj : j = i
      · subst hj
        exact ⟨r.add handler, by simp [hr], .joined rfl⟩
      · exact ⟨r, by simpa [List.getElem?_modify, hj] using hr, .still (by simp [Event.room?]) rfl rfl⟩
    · refine ⟨r, ?_, .still (by simp [Event.room?]) ?_ ?_⟩
      · simpa [List.getElem?_append_left hlt] using hr
      · rfl
      · have hne : s.roomStates.length ≠ i := by omega
        simp [Room.poll, queries, hne]

theorem unsubscribe_move {i : Nat} {r : Room} (hr : s.roomStates[i]? = some r) (k : Nat) :
    ∃ r', (s.unsubscribe k).1.roomStates[i]? = some r' ∧
      RoomMove i s.closed r (.unsubscribe k) r' (s.unsubscribe k).2 := by
  have hstill : ∃ r', s.roomStates[i]? = some r' ∧
      RoomMove i s.closed r (.unsubscribe k) r' [] :=
    ⟨r, hr, .still (by simp [Event.room?]) rfl rfl⟩
  have hlt : i < s.roomStates.length := (List.getElem?_eq_some_iff.mp hr).1
  unfold unsubscribe
  split
  · exact hstill
  · next roomId handler _ =>
    split
    · exact hstill
    · next j _ =>
      split
      · exact hstill
      · next room hroom =>
        dsimp only
        by_cases hj : j = i
        · subst hj
          obtain rfl := Option.some.inj (hr.symm.trans hroom)
          split
          · refine ⟨{ r.delete handler with aborted := true }, by simp [hlt], ?_⟩
            exact .left rfl rfl rfl
          · refine ⟨{ r.delete handler with aborted := r.aborted }, ?_, ?_⟩
            · rw [List.getElem?_set_self hlt]
              rfl
            · exact .left rfl rfl rfl
        · split
          · exact ⟨r, by simpa [List.getElem?_set, hj] using hr, .still (by simp [Event.room?]) rfl rfl⟩
          · exact ⟨r, by simpa [List.getElem?_set, hj] using hr, .still (by simp [Event.room?]) rfl rfl⟩

theorem close_move {i : Nat} {r : Room} (hr : s.roomStates[i]? = some r) :
    ∃ r', s.close.1.roomStates[i]? = some r' ∧ RoomMove i s.closed r .close r' s.close.2 := by
  unfold close
  split
  · exact ⟨r, hr, .still (by simp [Event.room?]) rfl rfl⟩
  · have hcalls := aborts_no_calls (s.rooms.entries.map Prod.snd) i
    by_cases hlive : i ∈ s.rooms.entries.map Prod.snd
    · exact ⟨_, by simp only [List.getElem?_mapIdx, hr, Option.map_some, if_pos hlive],
        .aborted rfl hcalls.1 hcalls.2⟩
    · exact ⟨r, by simp only [List.getElem?_mapIdx, hr, Option.map_some, if_neg hlive],
        .still (by simp [Event.room?]) hcalls.1 hcalls.2⟩

theorem closeSettled_move {i : Nat} {r : Room} (hr : s.roomStates[i]? = some r) :
    ∃ r', s.closeSettled.1.roomStates[i]? = some r' ∧
      RoomMove i s.closed r .closeSettled r' s.closeSettled.2 := by
  refine ⟨r, ?_, .still (by simp [Event.room?]) ?_ ?_⟩
  · unfold closeSettled
    repeat' split
    all_goals exact hr
  · unfold closeSettled
    repeat' split
    all_goals rfl
  · unfold closeSettled
    repeat' split
    all_goals rfl

/-- A room stays, and a step makes one of the moves with it. -/
theorem step_move {i : Nat} {r : Room} (hr : s.roomStates[i]? = some r) (ev : Event) :
    ∃ r', (s.step ev).1.roomStates[i]? = some r' ∧ RoomMove i s.closed r ev r' (s.step ev).2 := by
  have hlt : i < s.roomStates.length := (List.getElem?_eq_some_iff.mp hr).1
  cases hroom : ev.room? with
  | some j =>
    by_cases hj : j = i
    · subst hj
      rw [step_own hr hroom]
      exact ⟨_, by simp [hlt], .own hroom⟩
    · obtain ⟨hsame, hinvokes, hqueries⟩ := step_other hr hroom hj
      exact ⟨r, hsame, .still (by rw [hroom]; simpa using hj) hinvokes hqueries⟩
  | none =>
    cases ev with
    | subscribe roomId handler => exact subscribe_move hr roomId handler
    | unsubscribe k => exact unsubscribe_move hr k
    | close => exact close_move hr
    | closeSettled => exact closeSettled_move hr
    | _ => cases hroom

/-- A new room begins with a poll without a cursor. -/
theorem step_new {i : Nat} (hnone : s.roomStates[i]? = none) (ev : Event) :
    ((s.step ev).1.roomStates[i]? = none ∧ invokes i (s.step ev).2 = [] ∧
      queries i (s.step ev).2 = []) ∨
    ∃ roomId handler, (s.step ev).1.roomStates[i]? =
        some (((Room.create roomId).poll i).1.add handler) ∧
      invokes i (s.step ev).2 = [] ∧ queries i (s.step ev).2 = [[]] ∧
      (s.step ev).1.rooms.get roomId = some i := by
  have hge : s.roomStates.length ≤ i := List.getElem?_eq_none_iff.mp hnone
  cases hroom : ev.room? with
  | some j =>
    refine .inl ?_
    cases hj : s.roomStates[j]? with
    | none =>
      have hstep : s.step ev = (s, []) := by
        cases ev with
        | fetched k _ | read k _ | turn k _ | elapsed k =>
          obtain rfl := Option.some.inj hroom
          simp [step, hj]
        | _ => cases hroom
      rw [hstep]
      exact ⟨hnone, rfl, rfl⟩
    | some r =>
      have hne : j ≠ i := by
        rintro rfl
        rw [hnone] at hj
        cases hj
      rw [step_own hj hroom]
      exact ⟨by simpa using hge, step_outs_room r hne s.closed ev⟩
  | none =>
    cases ev with
    | subscribe roomId handler =>
      simp only [step, subscribe]
      split
      · exact .inl ⟨hnone, rfl, rfl⟩
      · split
        · exact .inl ⟨by simpa using hge, rfl, rfl⟩
        · by_cases hi : i = s.roomStates.length
          · subst hi
            exact .inr ⟨roomId, handler, by simp, rfl,
              by simp [Room.poll, queries, RoomState.query, Room.create], s.rooms.get_set_self ..⟩
          · refine .inl ⟨?_, rfl, ?_⟩
            · refine List.getElem?_eq_none_iff.mpr ?_
              rw [List.length_append, List.length_singleton]
              omega
            · simp [Room.poll, queries, Ne.symm hi]
    | unsubscribe k =>
      refine .inl ?_
      simp only [step, unsubscribe]
      repeat' split
      all_goals exact ⟨by simpa using hge, rfl, rfl⟩
    | close =>
      refine .inl ?_
      simp only [step, close]
      split
      · exact ⟨hnone, rfl, rfl⟩
      · exact ⟨by simpa using hge, aborts_no_calls _ i⟩
    | closeSettled =>
      refine .inl ?_
      simp only [step, closeSettled]
      repeat' split
      all_goals exact ⟨hnone, rfl, rfl⟩
    | _ => cases hroom

end HttpPollSignaling

/-! ## What a room has made of its responses -/

/-- A room after the responses `bodies`, of which it has handed on `handed`. -/
structure Abreast (r : Room) (bodies : List Json) (handed : List Handed) : Prop where
  delivered : r.delivered = handed.map Prod.fst
  items : ∃ done, bodies.flatMap bodyItems = done ++ r.rest ∧
    handed = firstOccurrences (done.filterMap handed?)
  cursor : lastCursor bodies = r.nextCursor

theorem lastCursor_concat (bodies : List Json) (json : Json) :
    lastCursor (bodies ++ [json]) = (bodyCursor json).getD (lastCursor bodies) := by
  unfold lastCursor
  cases hcursor : bodyCursor json <;> simp [hcursor]

theorem keptCursor_body {json : Json} {items : List Json}
    (h : json.get? (js "messages") = some (.arr items)) (cursor : JsString) :
    keptCursor cursor (json.get? (js "cursor")) = (bodyCursor json).getD cursor := by
  unfold keptCursor bodyCursor
  rw [h]
  split
  · next next hnext =>
    simp only [hnext]
    split <;> simp
  · next hnext =>
    split
    · next cursor' _ hcursor => exact absurd hcursor (hnext cursor')
    · rfl

/-- A room between two responses has what it had, whatever its stage. -/
theorem Abreast.settled {r r' : Room} {bodies : List Json} {handed : List Handed}
    (h : Abreast r bodies handed) (hstate : r'.toRoomState = r.toRoomState)
    (hrest : r'.rest = r.rest) (hcursor : r'.nextCursor = r.nextCursor) :
    Abreast r' bodies handed :=
  ⟨hstate ▸ h.delivered, hrest ▸ h.items, hcursor ▸ h.cursor⟩

namespace Room

variable {r : Room}

/-- The loops of `pollOnce` are not running. -/
def Idle (r : Room) : Prop := ∀ items cursor turn, r.stage ≠ .dispatching items cursor turn

theorem Idle.rest (h : r.Idle) : r.rest = [] := by
  unfold Room.rest
  split
  · next hstage => exact absurd hstage (h _ _ _)
  · rfl

theorem Idle.nextCursor (h : r.Idle) : r.nextCursor = r.cursor := by
  unfold Room.nextCursor
  split
  · next hstage => exact absurd hstage (h _ _ _)
  · rfl

theorem Idle.turn? (h : r.Idle) : r.turn? = none := by
  unfold Room.turn?
  split
  · next hstage => exact absurd hstage (h _ _ _)
  · rfl

theorem Idle.starts (h : r.Idle) : r.starts = [] := by
  unfold Room.starts
  split
  · next hstage => exact absurd hstage (h _ _ _)
  · next hstage => exact absurd hstage (h _ _ _)
  · rfl

/-- With no call left, a round starts what its next item hands on. -/
theorem starts_item {item : Json} {items : List Json} {cursor : Option Json}
    {turn : Option (Option Json × List Nat)} (hstage : r.stage = .dispatching (item :: items) cursor turn)
    (htodo : r.todo = []) :
    r.starts = (handed? item).toList.filter fun h => h.1 ∉ r.delivered := by
  rcases turn with _ | ⟨message, todo⟩
  · simp [starts, hstage]
  · have hnil : todo = [] := by simpa [Room.todo, turn?, hstage] using htodo
    subst hnil
    simp [starts, hstage]

theorem starts_done {cursor : Option Json} {turn : Option (Option Json × List Nat)}
    (hstage : r.stage = .dispatching [] cursor turn) : r.starts = [] := by
  rcases turn with _ | ⟨message, todo⟩
  · simp [starts, hstage]
  · cases todo <;> simp [starts, hstage]

theorem idle_stage {stage : Stage} (h : stage = .fetching ∨ stage = .reading ∨ stage = .delaying ∨
    stage = .returned) (hr : r.stage = stage) : r.Idle := by
  intro items cursor turn heq
  rw [hr] at heq
  rcases h with h | h | h | h <;> (rw [h] at heq; cases heq)

theorem pause_idle (r : Room) (closed : Bool) : (r.pause closed).Idle := by
  unfold pause
  split
  · exact idle_stage (.inr (.inr (.inr rfl))) rfl
  · exact idle_stage (.inr (.inr (.inl rfl))) rfl

theorem failed_idle (r : Room) (closed abort : Bool) : (r.failed closed abort).Idle := by
  unfold failed
  split
  · exact idle_stage (.inr (.inr (.inr rfl))) rfl
  · exact r.pause_idle closed

theorem fetched_idle (r : Room) (closed : Bool) (outcome : Fetched) :
    (r.fetched closed outcome).Idle := by
  cases outcome with
  | rejected abort => exact r.failed_idle closed abort
  | responded ok =>
    unfold fetched
    dsimp only
    split
    · exact idle_stage (.inr (.inl rfl)) rfl
    · exact r.failed_idle closed false

theorem pause_state (r : Room) (closed : Bool) : (r.pause closed).toRoomState = r.toRoomState := rfl

theorem failed_state (r : Room) (closed abort : Bool) :
    (r.failed closed abort).toRoomState = r.toRoomState := by
  unfold failed
  split <;> rfl

theorem fetched_state (r : Room) (closed : Bool) (outcome : Fetched) :
    (r.fetched closed outcome).toRoomState = r.toRoomState := by
  cases outcome with
  | rejected abort => exact failed_state ..
  | responded ok =>
    unfold fetched
    dsimp only
    split
    · rfl
    · exact failed_state ..

theorem joined_rest (r : Room) (handler : Nat) : (r.add handler).toRoomState = r.toRoomState ∧
    (r.add handler).rest = r.rest ∧ (r.add handler).nextCursor = r.nextCursor := by
  unfold add
  split
  · exact ⟨rfl, rfl, rfl⟩
  · unfold rest nextCursor
    refine ⟨rfl, ?_, ?_⟩ <;>
      (cases r.stage with
      | dispatching items cursor turn => cases turn <;> rfl
      | _ => rfl)

theorem left_rest (r : Room) (handler : Nat) : (r.delete handler).toRoomState = r.toRoomState ∧
    (r.delete handler).rest = r.rest ∧ (r.delete handler).nextCursor = r.nextCursor := by
  unfold delete rest nextCursor
  refine ⟨rfl, ?_, ?_⟩ <;>
    (cases r.stage with
    | dispatching items cursor turn => cases turn <;> rfl
    | _ => rfl)

end Room

/-- A room that idles after a response is abreast of it. -/
theorem Abreast.idle {r r' : Room} {bodies : List Json} {handed : List Handed}
    (h : Abreast r bodies handed) (hr : r.Idle) (hr' : r'.Idle)
    (hstate : r'.toRoomState = r.toRoomState) : Abreast r' bodies handed :=
  h.settled hstate (hr'.rest.trans hr.rest.symm)
    (by rw [hr'.nextCursor, hr.nextCursor, hstate])

theorem Abreast.read {r : Room} {bodies : List Json} {handed : List Handed}
    (h : Abreast r bodies handed) (hr : r.Idle) (closed : Bool) (json : Json) :
    Abreast (r.read closed (.body json)) (bodies ++ [json]) handed := by
  have hcursor := h.cursor
  obtain ⟨done, hdone, hhanded⟩ := h.items
  rw [hr.rest, List.append_nil] at hdone
  rw [hr.nextCursor] at hcursor
  unfold Room.read
  dsimp only
  split
  · next items hmessages =>
    refine ⟨h.delivered, ⟨done, ?_, hhanded⟩, ?_⟩
    · have hitems : bodyItems json = items := by simp [bodyItems, hmessages]
      simp [hdone, hitems, Room.rest]
    · rw [lastCursor_concat, hcursor, ← keptCursor_body hmessages]
      rfl
  · next hmessages =>
    have hitems : bodyItems json = [] := by
      unfold bodyItems
      split
      · next items hm => exact absurd hm (hmessages items)
      · rfl
    have hbody : bodyCursor json = none := by
      unfold bodyCursor
      split
      · next items _ hm _ => exact absurd hm (hmessages items)
      · rfl
    have hidle := r.pause_idle closed
    refine ⟨h.delivered, ⟨done, ?_, hhanded⟩, ?_⟩
    · rw [hidle.rest]
      simp [hdone, hitems]
    · rw [lastCursor_concat, hbody, hidle.nextCursor]
      exact hcursor

/-- The item that comes up is skipped, or handed on for the first time. -/
theorem Abreast.nextItem {r : Room} {bodies : List Json} {handed : List Handed}
    (h : Abreast r bodies handed) {item : Json} {items : List Json} {cursor : Option Json}
    {turn : Option (Option Json × List Nat)}
    (hstage : r.stage = .dispatching (item :: items) cursor turn) :
    Abreast (r.nextItem item items cursor) bodies
      (handed ++ (handed? item).toList.filter fun h => h.1 ∉ r.delivered) := by
  obtain ⟨done, hdone, hhanded⟩ := h.items
  have hcursor := h.cursor
  have hrest : r.rest = item :: items := by simp [Room.rest, hstage]
  have hnext : r.nextCursor = keptCursor r.cursor cursor := by simp [Room.nextCursor, hstage]
  rw [hrest] at hdone
  rw [hnext] at hcursor
  have hdone' : bodies.flatMap bodyItems = (done ++ [item]) ++ items := by simp [hdone]
  have hfilter : (done ++ [item]).filterMap handed? =
      done.filterMap handed? ++ (handed? item).toList := by
    rw [List.filterMap_append]
    cases hitem : handed? item <;> simp [hitem]
  have hmem : ∀ id, id ∈ r.delivered ↔ id ∈ (done.filterMap handed?).map Prod.fst := by
    intro id
    rw [h.delivered, hhanded, mem_firstOccurrences]
  unfold Room.nextItem
  split
  · next id hid =>
    have hitem : handed? item = some (id, item.get? (js "message")) := by simp [handed?, hid]
    have hoccurs := firstOccurrences_concat (done.filterMap handed?) (id, item.get? (js "message"))
    rw [hitem] at hfilter
    split
    · next hold =>
      refine ⟨?_, ⟨done ++ [item], hdone', ?_⟩, hcursor⟩
      · simpa [hitem, hold] using h.delivered
      · rw [hfilter, Option.toList_some, hoccurs, if_pos ((hmem id).mp hold), ← hhanded, hitem]
        simp [hold]
    · next hnew =>
      refine ⟨?_, ⟨done ++ [item], hdone', ?_⟩, hcursor⟩
      · have hids : r.delivered ++ [id] = handed.map Prod.fst ++ [id] := by rw [h.delivered]
        simpa [hitem, hnew] using hids
      · rw [hfilter, Option.toList_some, hoccurs, if_neg (fun hin => hnew ((hmem id).mpr hin)),
          ← hhanded, hitem]
        simp [hnew]
  · next hid =>
    have hitem : handed? item = none := handed?_eq_none hid
    refine ⟨?_, ⟨done ++ [item], hdone', ?_⟩, hcursor⟩
    · simpa [hitem] using h.delivered
    · rw [hfilter, hitem]
      simpa using hhanded

namespace HttpPollSignaling

variable {s : HttpPollSignaling} {i : Nat} {r r' : Room} {ev : Event} {outs : List Out}

theorem responses_other (h : ev.room? ≠ some i) (s : HttpPollSignaling) :
    responses i s ev = [] := by
  unfold responses
  split
  · next j _ _ =>
    have hj : j ≠ i := fun hj => h (by rw [← hj]; rfl)
    simp [hj]
  · rfl

theorem started_other (h : ev.room? ≠ some i) (s : HttpPollSignaling) : started i s ev = [] := by
  unfold started
  split
  · next j _ _ =>
    have hj : j ≠ i := fun hj => h (by rw [← hj]; rfl)
    simp [hj]
  · rfl

theorem started_turn (hr : s.roomStates[i]? = some r) (throws : Bool) :
    started i s (.turn i throws) = r.starts := by
  simp [started, hr]

theorem started_quiet (hr : s.roomStates[i]? = some r)
    (h : ∀ throws, ev = .turn i throws → r.Idle) : started i s ev = [] := by
  unfold started
  split
  · next j throws hr' =>
    obtain rfl := Option.some.inj (hr.symm.trans hr')
    split
    · next hj => exact (h throws (by rw [hj])).starts
    · rfl
  · rfl

theorem responses_read (hr : s.roomStates[i]? = some r) (json : Json) :
    responses i s (.read i (.body json)) = if r.isReading then [json] else [] := by
  simp [responses, hr]

/-- The loop of a room takes an event it awaits, or it is not concerned. -/
inductive Own (i : Nat) (closed : Bool) (r : Room) : Event → Room × List Out → Prop
  | idle {ev : Event} : (∀ json, ev = .read i (.body json) → r.isReading = false) →
      (∀ throws, ev = .turn i throws → r.Idle) → Own i closed r ev (r, [])
  | fetched {outcome : Fetched} : r.Idle →
      Own i closed r (.fetched i outcome) (r.fetched closed outcome, [])
  | unread {abort : Bool} : r.Idle →
      Own i closed r (.read i (.rejected abort)) (r.failed closed abort, [])
  | read {json : Json} : r.Idle → r.isReading = true →
      Own i closed r (.read i (.body json)) (r.read closed (.body json), [])
  | invoked {items : List Json} {cursor message : Option Json} {handler : Nat} {todo : List Nat}
      {throws : Bool} : r.stage = .dispatching items cursor (some (message, handler :: todo)) →
      Own i closed r (.turn i throws)
        ({ r with stage := .dispatching items cursor (some (message, todo)) },
          .invoke i handler message :: if throws then [.logError] else [])
  | item {item : Json} {items : List Json} {cursor : Option Json}
      {turn : Option (Option Json × List Nat)} {throws : Bool} :
      r.stage = .dispatching (item :: items) cursor turn → r.todo = [] →
      Own i closed r (.turn i throws) (r.nextItem item items cursor, [])
  | done {cursor : Option Json} {turn : Option (Option Json × List Nat)} {throws : Bool} :
      r.stage = .dispatching [] cursor turn → r.todo = [] →
      Own i closed r (.turn i throws)
        ({ r with cursor := keptCursor r.cursor cursor }.pause closed, [])
  | stopped : r.Idle → (closed || r.aborted) = true →
      Own i closed r (.elapsed i) ({ r with stage := .returned }, [])
  | polled : r.Idle → Own i closed r (.elapsed i) (r.poll i)

theorem own_turn (hdispatch : ∃ items cursor turn, r.stage = .dispatching items cursor turn)
    (closed throws : Bool) : Own i closed r (.turn i throws) (r.turn i closed throws) := by
  obtain ⟨items, cursor, turn, hstage⟩ := hdispatch
  unfold Room.turn
  rw [hstage]
  rcases turn with _ | ⟨message, todo⟩
  · cases items with
    | nil => exact .done hstage (by simp [Room.todo, Room.turn?, hstage])
    | cons item items => exact .item hstage (by simp [Room.todo, Room.turn?, hstage])
  · cases todo with
    | cons handler todo => exact .invoked hstage
    | nil =>
      cases items with
      | nil => exact .done hstage (by simp [Room.todo, Room.turn?, hstage])
      | cons item items => exact .item hstage (by simp [Room.todo, Room.turn?, hstage])

theorem own_step (hev : ev.room? = some i) (r : Room) (closed : Bool) :
    Own i closed r ev (r.step i closed ev) := by
  have hj : ∀ {j}, some j = some i → j = i := fun h => Option.some.inj h
  cases hstage : r.stage with
  | fetching =>
    have hidle : r.Idle := Room.idle_stage (.inl rfl) hstage
    have hreading : r.isReading = false := by simp [Room.isReading, hstage]
    cases ev with
    | fetched j outcome =>
      obtain rfl := hj hev
      simp only [Room.step, hstage]
      exact .fetched hidle
    | read j outcome | turn j throws | elapsed j =>
      simp only [Room.step, hstage]
      exact .idle (fun _ _ => hreading) (fun _ _ => hidle)
    | _ => cases hev
  | reading =>
    have hidle : r.Idle := Room.idle_stage (.inr (.inl rfl)) hstage
    have hreading : r.isReading = true := by simp [Room.isReading, hstage]
    cases ev with
    | read j outcome =>
      obtain rfl := hj hev
      simp only [Room.step, hstage]
      cases outcome with
      | rejected abort => exact .unread hidle
      | body json => exact .read hidle hreading
    | fetched j outcome | turn j throws | elapsed j =>
      simp only [Room.step, hstage]
      exact .idle (fun _ h => by cases h) (fun _ _ => hidle)
    | _ => cases hev
  | dispatching items cursor turn =>
    have hreading : r.isReading = false := by simp [Room.isReading, hstage]
    cases ev with
    | turn j throws =>
      obtain rfl := hj hev
      have hturn := own_turn (i := j) ⟨items, cursor, turn, hstage⟩ closed throws
      simpa only [Room.step, hstage] using hturn
    | fetched j outcome | read j outcome | elapsed j =>
      simp only [Room.step, hstage]
      exact .idle (fun _ _ => hreading) (fun _ h => by cases h)
    | _ => cases hev
  | delaying =>
    have hidle : r.Idle := Room.idle_stage (.inr (.inr (.inl rfl))) hstage
    have hreading : r.isReading = false := by simp [Room.isReading, hstage]
    cases ev with
    | elapsed j =>
      obtain rfl := hj hev
      simp only [Room.step, hstage, Room.elapsed]
      split
      · next hstop => exact .stopped hidle hstop
      · exact .polled hidle
    | fetched j outcome | read j outcome | turn j throws =>
      simp only [Room.step, hstage]
      exact .idle (fun _ _ => hreading) (fun _ _ => hidle)
    | _ => cases hev
  | returned =>
    have hidle : r.Idle := Room.idle_stage (.inr (.inr (.inr rfl))) hstage
    have hreading : r.isReading = false := by simp [Room.isReading, hstage]
    cases ev with
    | fetched j outcome | read j outcome | turn j throws | elapsed j =>
      simp only [Room.step, hstage]
      exact .idle (fun _ _ => hreading) (fun _ _ => hidle)
    | _ => cases hev

theorem room?_ne (hev : ev.room? = none) : ev.room? ≠ some i := by
  rw [hev]
  exact (Option.some_ne_none i).symm

/-- What one step makes of the responses and the items handed on. -/
theorem move_abreast {bodies : List Json} {handed : List Handed} (h : Abreast r bodies handed)
    (hr : s.roomStates[i]? = some r) (hmove : RoomMove i s.closed r ev r' outs) :
    Abreast r' (bodies ++ responses i s ev) (handed ++ started i s ev) := by
  have hother : ev.room? ≠ some i → bodies ++ responses i s ev = bodies ∧
      handed ++ started i s ev = handed := by
    intro hne
    rw [responses_other hne, started_other hne]
    exact ⟨List.append_nil _, List.append_nil _⟩
  cases hmove with
  | still hne _ _ =>
    rw [(hother hne).1, (hother hne).2]
    exact h
  | @joined handler hev =>
    rw [(hother (room?_ne hev)).1, (hother (room?_ne hev)).2]
    obtain ⟨hstate, hrest, hcursor⟩ := r.joined_rest handler
    exact h.settled hstate hrest hcursor
  | @left handler aborted _ hev =>
    rw [(hother (room?_ne hev)).1, (hother (room?_ne hev)).2]
    obtain ⟨hstate, hrest, hcursor⟩ := r.left_rest handler
    exact h.settled hstate hrest hcursor
  | aborted hev _ _ =>
    rw [(hother (room?_ne hev)).1, (hother (room?_ne hev)).2]
    exact h.settled rfl rfl rfl
  | own hev =>
    have hown := own_step hev r s.closed
    generalize r.step i s.closed ev = p at hown
    cases hown with
    | idle hread hturn =>
      have hresponses : responses i s ev = [] := by
        unfold responses
        split
        · next j json hr' =>
          obtain rfl := Option.some.inj (hr.symm.trans hr')
          refine if_neg fun hj => ?_
          obtain ⟨rfl, hreading⟩ := hj
          rw [hread json rfl] at hreading
          cases hreading
        · rfl
      rw [hresponses, started_quiet hr hturn, List.append_nil, List.append_nil]
      exact h
    | @fetched outcome hidle =>
      have hquiet := h.idle hidle (r.fetched_idle s.closed outcome)
        (r.fetched_state s.closed outcome)
      simpa [responses, started] using hquiet
    | @unread abort hidle =>
      have hquiet := h.idle hidle (r.failed_idle s.closed abort) (r.failed_state s.closed abort)
      simpa [responses, started] using hquiet
    | @read json hidle hreading =>
      have hread := h.read hidle s.closed json
      rw [responses_read hr, if_pos hreading]
      simpa [started] using hread
    | @invoked items cursor message handler todo throws hstage =>
      rw [started_turn hr]
      have hsame : Abreast { r with stage := .dispatching items cursor (some (message, todo)) }
          bodies handed := by
        refine h.settled rfl ?_ ?_
        · simp [Room.rest, hstage]
        · simp [Room.nextCursor, hstage]
      simpa [responses, Room.starts, hstage] using hsame
    | @item item items cursor turn throws hstage htodo =>
      rw [started_turn hr]
      have hnext := h.nextItem hstage
      rw [Room.starts_item hstage htodo]
      simpa [responses] using hnext
    | @done cursor turn throws hstage htodo =>
      rw [started_turn hr]
      have hidle := { r with cursor := keptCursor r.cursor cursor }.pause_idle s.closed
      obtain ⟨done, hdone, hhanded⟩ := h.items
      have hcursor := h.cursor
      simp only [Room.rest, hstage] at hdone
      simp only [Room.nextCursor, hstage] at hcursor
      have hquiet : Abreast ({ r with cursor := keptCursor r.cursor cursor }.pause s.closed) bodies
          handed :=
        ⟨h.delivered, ⟨done, by rw [hidle.rest]; exact hdone, hhanded⟩,
          by rw [hidle.nextCursor]; exact hcursor⟩
      rw [Room.starts_done hstage]
      simpa [responses] using hquiet
    | stopped hidle _ =>
      have hquiet : Abreast { r with stage := .returned } bodies handed :=
        h.idle hidle (Room.idle_stage (.inr (.inr (.inr rfl))) rfl) rfl
      simpa [responses, started] using hquiet
    | polled hidle =>
      have hquiet : Abreast (r.poll i).1 bodies handed :=
        h.idle hidle (Room.idle_stage (.inl rfl) rfl) rfl
      simpa [responses, started] using hquiet

/-! ## Queries and turns -/

/-- A room polls between two responses, with the cursor it has. -/
theorem move_queries {closed : Bool} (hmove : RoomMove i closed r ev r' outs) :
    ∀ query ∈ queries i outs, r.Idle ∧ query = r.query := by
  intro query hquery
  cases hmove with
  | own hev =>
    have hown := own_step hev r closed
    generalize r.step i closed ev = p at hown hquery
    cases hown with
    | polled hidle =>
      have hone : query = r.query := by simpa [Room.poll, queries] using hquery
      exact ⟨hidle, hone⟩
    | @invoked items cursor message handler todo throws hstage =>
      cases throws <;> simp [queries] at hquery
    | _ => cases hquery
  | still _ _ hnone | left _ _ hnone | aborted _ _ hnone =>
    rw [hnone] at hquery
    cases hquery
  | joined _ => cases hquery

/-- What a step does to the turn a room is at, with the item it starts and the handlers it
calls. -/
inductive TurnMove (r r' : Room) : List Handed → List (Nat × Option Json) → Prop
  | kept : r'.turn? = r.turn? → r'.handlers = r.handlers → TurnMove r r' [] []
  | ended : r.todo = [] → r'.turn? = none → r'.handlers = r.handlers → TurnMove r r' [] []
  | invoked {message : Option Json} {handler : Nat} {todo : List Nat} :
    r.turn? = some (message, handler :: todo) → r'.turn? = some (message, todo) →
    r'.handlers = r.handlers → TurnMove r r' [] [(handler, message)]
  | started {h : Handed} : r.todo = [] → r'.turn? = some (h.2, r.handlers) →
    r'.handlers = r.handlers → TurnMove r r' [h] []
  | joined {handler : Nat} : handler ∉ r.handlers → r'.handlers = r.handlers ++ [handler] →
    r'.turn? = r.turn?.map (fun t => (t.1, t.2 ++ [handler])) → TurnMove r r' [] []
  | left {handler : Nat} : r'.handlers = r.handlers.filter (· ≠ handler) →
    r'.turn? = r.turn?.map (fun t => (t.1, t.2.filter (· ≠ handler))) → TurnMove r r' [] []

theorem Idle.ended (hr : r.Idle) (hr' : r'.Idle) (hhandlers : r'.handlers = r.handlers) :
    TurnMove r r' [] [] := .kept (hr'.turn?.trans hr.turn?.symm) hhandlers

theorem failed_handlers (r : Room) (closed abort : Bool) :
    (r.failed closed abort).handlers = r.handlers := by
  unfold Room.failed
  split <;> rfl

theorem fetched_handlers (r : Room) (closed : Bool) (outcome : Fetched) :
    (r.fetched closed outcome).handlers = r.handlers := by
  cases outcome with
  | rejected abort => exact failed_handlers r closed abort
  | responded ok =>
    unfold Room.fetched
    dsimp only
    split
    · rfl
    · exact failed_handlers r closed false

theorem read_turn (r : Room) (closed : Bool) (json : Json) :
    (r.read closed (.body json)).turn? = none ∧
      (r.read closed (.body json)).handlers = r.handlers := by
  unfold Room.read
  dsimp only
  split
  · exact ⟨rfl, rfl⟩
  · exact ⟨(r.pause_idle closed).turn?, rfl⟩

theorem nextItem_turn {item : Json} {items : List Json} {cursor : Option Json}
    {turn : Option (Option Json × List Nat)} (hstage : r.stage = .dispatching (item :: items) cursor turn)
    (htodo : r.todo = []) : TurnMove r (r.nextItem item items cursor) r.starts [] := by
  rw [Room.starts_item hstage htodo]
  unfold Room.nextItem
  split
  · next id hid =>
    have hitem : handed? item = some (id, item.get? (js "message")) := by simp [handed?, hid]
    split
    · next hold =>
      have hnone : (handed? item).toList.filter (fun h => h.1 ∉ r.delivered) = [] := by
        simp [hitem, hold]
      rw [hnone]
      exact .ended htodo rfl rfl
    · next hnew =>
      have hone : (handed? item).toList.filter (fun h => h.1 ∉ r.delivered) =
          [(id, item.get? (js "message"))] := by simp [hitem, hnew]
      rw [hone]
      exact .started htodo rfl rfl
  · next hid =>
    have hitem : handed? item = none := handed?_eq_none hid
    rw [hitem]
    exact .ended htodo rfl rfl

theorem add_turn (r : Room) (handler : Nat) : TurnMove r (r.add handler) [] [] := by
  unfold Room.add
  split
  · exact .kept rfl rfl
  · next hnew =>
    refine .joined hnew rfl ?_
    unfold Room.turn?
    cases r.stage with
    | dispatching items cursor turn => cases turn <;> rfl
    | _ => rfl

theorem delete_turn (r : Room) (handler : Nat) (aborted : Bool) :
    TurnMove r { r.delete handler with aborted := aborted } [] [] := by
  refine .left rfl ?_
  unfold Room.turn? Room.delete
  cases r.stage with
  | dispatching items cursor turn => cases turn <;> rfl
  | _ => rfl

theorem move_turn (hr : s.roomStates[i]? = some r) (hmove : RoomMove i s.closed r ev r' outs) :
    TurnMove r r' (started i s ev) (invokes i outs) := by
  cases hmove with
  | still hne hinvokes _ =>
    rw [started_other hne, hinvokes]
    exact .kept rfl rfl
  | @joined handler hev =>
    rw [started_other (room?_ne hev)]
    exact add_turn r handler
  | @left handler aborted _ hev hinvokes _ =>
    rw [started_other (room?_ne hev), hinvokes]
    exact delete_turn r handler aborted
  | aborted hev hinvokes _ =>
    rw [started_other (room?_ne hev), hinvokes]
    exact .kept rfl rfl
  | own hev =>
    have hown := own_step hev r s.closed
    generalize r.step i s.closed ev = p at hown
    cases hown with
    | idle hread hturn =>
      rw [started_quiet hr hturn]
      exact .kept rfl rfl
    | @fetched outcome hidle =>
      rw [started_quiet hr fun _ h => by cases h]
      exact Idle.ended hidle (r.fetched_idle s.closed outcome) (fetched_handlers r s.closed outcome)
    | @unread abort hidle =>
      rw [started_quiet hr fun _ h => by cases h]
      exact Idle.ended hidle (r.failed_idle s.closed abort) (failed_handlers r s.closed abort)
    | @read json hidle _ =>
      obtain ⟨hturn, hhandlers⟩ := read_turn r s.closed json
      rw [started_quiet hr fun _ h => by cases h]
      exact .kept (hturn.trans hidle.turn?.symm) hhandlers
    | @invoked items cursor message handler todo throws hstage =>
      have hstarts : r.starts = [] := by simp [Room.starts, hstage]
      have hcalls : invokes i (.invoke i handler message :: if throws then [.logError] else []) =
          [(handler, message)] := by cases throws <;> simp [invokes]
      rw [started_turn hr, hstarts, hcalls]
      exact .invoked (by simp [Room.turn?, hstage]) rfl rfl
    | item hstage htodo =>
      rw [started_turn hr]
      exact nextItem_turn hstage htodo
    | @done cursor turn throws hstage htodo =>
      have hidle := { r with cursor := keptCursor r.cursor cursor }.pause_idle s.closed
      rw [started_turn hr, Room.starts_done hstage]
      exact .ended htodo hidle.turn? rfl
    | stopped hidle _ =>
      rw [started_quiet hr fun _ h => by cases h]
      refine Idle.ended hidle ?_ rfl
      exact Room.idle_stage (.inr (.inr (.inr rfl))) rfl
    | polled hidle =>
      have hcalls : invokes i (r.poll i).2 = [] := rfl
      rw [hcalls, started_quiet hr fun _ h => by cases h]
      refine Idle.ended hidle ?_ rfl
      exact Room.idle_stage (.inl rfl) rfl

end HttpPollSignaling

end Senn.HttpPoll
