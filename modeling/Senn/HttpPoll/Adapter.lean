import Senn.HttpPoll.Client
import Senn.Js.Form

/-! # `HttpPollSignaling`

The adapter with its rooms: a set of handlers and a poll loop for each. A loop stands where
it awaits the fetcher, the body or the interval, or inside the two `for` loops of `pollOnce`,
which go on turn by turn: the handlers they call may subscribe, unsubscribe and close. -/

namespace Senn.HttpPoll
open Senn.Js Senn.Lib

/-- How the fetcher's promise settles; a rejection says whether the `catch` of `runPollLoop` leaves
the loop, as it does for an `AbortError`. -/
inductive Fetched where
  | rejected (abort : Bool)
  | responded (ok : Bool)

/-- How `res.json()` settles. -/
inductive BodyRead where
  | rejected (abort : Bool)
  | body (json : Json)

/-- Where the loop of a room stands. In `dispatching` it has the rest of `body.messages`,
`body.cursor`, and of the item it is at the message and the handlers yet to be called;
the iterator of the set sees handlers that are added or deleted on the way. -/
inductive Stage where
  | fetching
  | reading
  | dispatching (items : List Json) (cursor : Option Json) (turn : Option (Option Json × List Nat))
  | delaying
  | returned

/-- The state of a room; `handlers` lists a set, and handlers are compared as functions are. -/
structure Room extends RoomState where
  roomId : JsString
  handlers : List Nat
  aborted : Bool
  stage : Stage

inductive Event where
  | subscribe (roomId : JsString) (handler : Nat)
  | unsubscribe (k : Nat)                  -- the function that the `k`-th `subscribe` returned
  | close
  | closeSettled                           -- all of the loops that `close` awaits have returned
  | fetched (i : Nat) (outcome : Fetched)
  | read (i : Nat) (outcome : BodyRead)
  | turn (i : Nat) (throws : Bool)         -- of the loops of `pollOnce`; a called handler may throw
  | elapsed (i : Nat)                      -- the delay, by its timer or by an abort

inductive Out where
  | get (i : Nat) (roomId query : JsString)
  | invoke (i : Nat) (handler : Nat) (message : Option Json)
  | logError
  | abort (i : Nat)
  | closedError
  | closeResolved

/-- `params.toString()` -/
def RoomState.query (st : RoomState) : JsString :=
  if st.cursor = [] then [] else formParam (js "since") st.cursor

/-- The cursor after a response with a member `cursor`. -/
def keptCursor (cursor : JsString) : Option Json → JsString
  | some (.str next) => if next = [] then cursor else next
  | _ => cursor

namespace Stage

/-- A handler is added to the set. -/
def joined (handler : Nat) : Stage → Stage
  | .dispatching items cursor (some (message, todo)) =>
    .dispatching items cursor (some (message, todo ++ [handler]))
  | stage => stage

/-- A handler is deleted from the set. -/
def left (handler : Nat) : Stage → Stage
  | .dispatching items cursor (some (message, todo)) =>
    .dispatching items cursor (some (message, todo.filter (· ≠ handler)))
  | stage => stage

end Stage

namespace Room

def create (roomId : JsString) : Room where
  delivered := []
  cursor := []
  roomId := roomId
  handlers := []
  aborted := false
  stage := .delaying

/-- `state.handlers.add(handler)` -/
def add (r : Room) (handler : Nat) : Room :=
  if handler ∈ r.handlers then r
  else { r with handlers := r.handlers ++ [handler], stage := r.stage.joined handler }

/-- `live.handlers.delete(handler)` -/
def delete (r : Room) (handler : Nat) : Room :=
  { r with handlers := r.handlers.filter (· ≠ handler), stage := r.stage.left handler }

/-- `pollOnce` up to the fetcher. -/
def poll (r : Room) (i : Nat) : Room × List Out :=
  ({ r with stage := .fetching }, [.get i r.roomId r.query])

/-- `runPollLoop` after `pollOnce`. -/
def pause (r : Room) (closed : Bool) : Room :=
  { r with stage := if closed || r.aborted then .returned else .delaying }

/-- `runPollLoop` where `pollOnce` threw. -/
def failed (r : Room) (closed abort : Bool) : Room :=
  if abort then { r with stage := .returned } else r.pause closed

def fetched (r : Room) (closed : Bool) : Fetched → Room
  | .rejected abort => r.failed closed abort
  | .responded ok => if ok then { r with stage := .reading } else r.failed closed false

def read (r : Room) (closed : Bool) : BodyRead → Room
  | .rejected abort => r.failed closed abort
  | .body json =>
    match json.get? (js "messages") with
    | some (.arr items) =>
      { r with stage := .dispatching items (json.get? (js "cursor")) none }
    | _ => r.pause closed

/-- The next item of `body.messages`. -/
def nextItem (r : Room) (item : Json) (items : List Json) (cursor : Option Json) : Room :=
  match item.get? (js "id") with
  | some (.str id) =>
    if id ∈ r.delivered then { r with stage := .dispatching items cursor none }
    else
      { r with
        delivered := r.delivered ++ [id]
        stage := .dispatching items cursor (some (item.get? (js "message"), r.handlers)) }
  | _ => { r with stage := .dispatching items cursor none }

/-- One turn of the loops of `pollOnce`: the next handler, the next item, or the end. -/
def turn (r : Room) (i : Nat) (closed throws : Bool) : Room × List Out :=
  match r.stage with
  | .dispatching items cursor (some (message, handler :: todo)) =>
    ({ r with stage := .dispatching items cursor (some (message, todo)) },
      .invoke i handler message :: if throws then [.logError] else [])
  | .dispatching (item :: items) cursor _ => (r.nextItem item items cursor, [])
  | .dispatching [] cursor _ => ({ r with cursor := keptCursor r.cursor cursor }.pause closed, [])
  | _ => (r, [])

/-- `runPollLoop` after the delay. -/
def elapsed (r : Room) (i : Nat) (closed : Bool) : Room × List Out :=
  if closed || r.aborted then ({ r with stage := .returned }, []) else r.poll i

/-- What an event does to the room it is for. -/
def step (r : Room) (i : Nat) (closed : Bool) (ev : Event) : Room × List Out :=
  match r.stage, ev with
  | .fetching, .fetched _ outcome => (r.fetched closed outcome, [])
  | .reading, .read _ outcome => (r.read closed outcome, [])
  | .dispatching _ _ _, .turn _ throws => r.turn i closed throws
  | .delaying, .elapsed _ => r.elapsed i closed
  | _, _ => (r, [])

end Room

/-- The room an event is for. -/
def Event.room? : Event → Option Nat
  | .fetched i _ | .read i _ | .turn i _ | .elapsed i => some i
  | _ => none

/-- The adapter. `roomStates` are the states of all rooms ever opened, `rooms` says which one
is a room's now, `unsubscribes` are the functions `subscribe` returned, and `closing` are the
rooms whose loops the first `close` awaits. -/
structure HttpPollSignaling where
  closed : Bool
  rooms : InsMap JsString Nat
  roomStates : List Room
  unsubscribes : List (JsString × Nat)
  closing : Option (List Nat)

namespace HttpPollSignaling

def create : HttpPollSignaling := ⟨false, .empty, [], [], none⟩

def subscribe (s : HttpPollSignaling) (roomId : JsString) (handler : Nat) :
    HttpPollSignaling × List Out :=
  if s.closed then (s, [.closedError])
  else
    match s.rooms.get roomId with
    | some i =>
      ({ s with
        roomStates := s.roomStates.modify i (·.add handler)
        unsubscribes := s.unsubscribes ++ [(roomId, handler)] }, [])
    | none =>
      let r := (Room.create roomId).poll s.roomStates.length
      ({ s with
        rooms := s.rooms.set roomId s.roomStates.length
        roomStates := s.roomStates ++ [r.1.add handler]
        unsubscribes := s.unsubscribes ++ [(roomId, handler)] }, r.2)

/-- A call of the function that the `k`-th `subscribe` returned. -/
def unsubscribe (s : HttpPollSignaling) (k : Nat) : HttpPollSignaling × List Out :=
  match s.unsubscribes[k]? with
  | none => (s, [])
  | some (roomId, handler) =>
    match s.rooms.get roomId with
    | none => (s, [])
    | some i =>
      match s.roomStates[i]? with
      | none => (s, [])
      | some room =>
        let live := room.delete handler
        if live.handlers = [] then
          ({ s with
            roomStates := s.roomStates.set i { live with aborted := true }
            rooms := s.rooms.delete roomId }, [.abort i])
        else ({ s with roomStates := s.roomStates.set i live }, [])

/-- `close` up to its `await`. -/
def close (s : HttpPollSignaling) : HttpPollSignaling × List Out :=
  if s.closed then (s, [.closeResolved])
  else
    let live := s.rooms.entries.map Prod.snd
    ({ s with
      closed := true
      roomStates := s.roomStates.mapIdx fun i r => if i ∈ live then { r with aborted := true } else r
      rooms := .empty
      closing := some live }, live.map .abort)

/-- The loop of a room state has returned. -/
def returned (s : HttpPollSignaling) (i : Nat) : Bool :=
  match s.roomStates[i]? with
  | some room => match room.stage with
    | .returned => true
    | _ => false
  | none => true

/-- `close` after its `await`. -/
def closeSettled (s : HttpPollSignaling) : HttpPollSignaling × List Out :=
  match s.closing with
  | none => (s, [])
  | some live =>
    if live.all s.returned then ({ s with closing := none }, [.closeResolved]) else (s, [])

def step (s : HttpPollSignaling) (ev : Event) : HttpPollSignaling × List Out :=
  match ev with
  | .subscribe roomId handler => s.subscribe roomId handler
  | .unsubscribe k => s.unsubscribe k
  | .close => s.close
  | .closeSettled => s.closeSettled
  | .fetched i _ | .read i _ | .turn i _ | .elapsed i =>
    match s.roomStates[i]? with
    | none => (s, [])
    | some room =>
      let r := room.step i s.closed ev
      ({ s with roomStates := s.roomStates.set i r.1 }, r.2)

end HttpPollSignaling

end Senn.HttpPoll
