import Senn.Js.Json
import Senn.Protocol.Ids

/-! # The HTTP-poll signaling endpoint

The request handler of the Node reference server: one queue of items for each
room, swept of what is older than a minute on every access. A GET answers with
the items after the one its cursor names, and keeps nothing but those. -/

namespace Senn.HttpPoll
open Senn.Js Senn.Lib
open Senn.Protocol (matchesId)

def TTL_MS : Nat := 60000
def MAX_BODY : Nat := 16 * 1024
def KNOWN_KINDS : List JsString := [js "offer", js "answer", js "ice", js "bye"]

/-- `ROOM_ID_RE.test(roomId)`, the pattern of the protocol's ids. -/
def isRoomId (s : JsString) : Bool := matchesId s

/-- An entry of a room's queue. -/
structure Item where
  id : JsString
  ts : Nat
  message : Json

abbrev Queues := InsMap JsString (List Item)

/-- `queues.get(roomId) ?? []` -/
def Queues.items (q : Queues) (room : JsString) : List Item := (q.get room).getD []

/-- A request: the last segment of its path, its `since` and its body. -/
structure Request where
  method : JsString
  room : JsString
  since : JsString := []
  body : Bytes := []

structure Response where
  status : Nat
  body : Option Json

def Response.ok (res : Response) : Bool := 200 ≤ res.status && res.status ≤ 299

def Response.error (status : Nat) (text : String) : Response :=
  ⟨status, some (.obj [(js "error", .str (js text))])⟩

/-- The id of a message posted at `now`, with three random bytes in hex. -/
def nextId (now : Nat) (random : JsString) : JsString :=
  js "m_" ++ natText 36 now ++ js "_" ++ random

def pruneTtl (now : Nat) (items : List Item) : List Item :=
  items.filter fun it => now - TTL_MS ≤ it.ts

/-- `Buffer.concat(chunks).toString("utf8")` -/
def bodyText (body : Bytes) : JsString :=
  (utf8Run .start (body.map UInt8.toNat)).flatMap pointUnits

/-- The items after the one with id `since`; all of them if there is none. -/
def newer (since : JsString) (items : List Item) : List Item :=
  if since = [] then items
  else
    match items.findIdx? fun it => it.id = since with
    | some idx => items.drop (idx + 1)
    | none => items

/-- The message of a POST, or the error it is answered with. -/
def postedMessage (body : Bytes) : Except Response Json :=
  if body.length > MAX_BODY then .error (.error 400 "invalid JSON")
  else
    match Json.parse (bodyText body) with
    | none => .error (.error 400 "invalid JSON")
    | some json =>
      match json.get? (js "message") with
      | none => .error (.error 400 "unknown kind")
      | some message =>
        match message.get? (js "kind") with
        | some (.str kind) =>
          if KNOWN_KINDS.contains kind then .ok message else .error (.error 400 "unknown kind")
        | _ => .error (.error 400 "unknown kind")

/-- `items.length === 0 ? since : items[items.length - 1].id` -/
def nextCursor (since : JsString) (items : List Item) : JsString :=
  (items.getLast?.map Item.id).getD since

def Item.json (it : Item) : Json := .obj [(js "id", .str it.id), (js "message", it.message)]

def answerBody (since : JsString) (items : List Item) : Json :=
  .obj [(js "messages", .arr (items.map Item.json)), (js "cursor", .str (nextCursor since items))]

/-- The answer to a GET that found `items`. -/
def answer (since : JsString) (items : List Item) : Response := ⟨200, some (answerBody since items)⟩

/-- The server's handler, at time `now`; `random` is what `randomBytes` gives. -/
def handle (q : Queues) (now : Nat) (random : JsString) (req : Request) : Queues × Response :=
  if req.method = js "OPTIONS" then (q, ⟨204, none⟩)
  else if !isRoomId req.room then (q, .error 400 "bad room id")
  else if req.method = js "POST" then
    match postedMessage req.body with
    | .error res => (q, res)
    | .ok message =>
      let id := nextId now random
      let items := pruneTtl now (q.items req.room) ++ [⟨id, now, message⟩]
      (q.set req.room items, ⟨200, some (.obj [(js "id", .str id), (js "cursor", .str id)])⟩)
  else if req.method = js "GET" then
    let items := newer req.since (pruneTtl now (q.items req.room))
    (q.set req.room items, answer req.since items)
  else (q, .error 405 "method not allowed")

/-! ## What a cursor cuts off -/

theorem findIdx_split {before after : List Item} {it : Item} (h : ∀ x ∈ before, x.id ≠ it.id) :
    (before ++ it :: after).findIdx? (fun x => decide (x.id = it.id)) = some before.length := by
  rw [List.findIdx?_append, List.findIdx?_eq_none_iff.mpr (by simpa using h)]
  simp [List.findIdx?_cons]

theorem newer_split {before after : List Item} {it : Item} (hid : it.id ≠ [])
    (h : ∀ x ∈ before, x.id ≠ it.id) : newer it.id (before ++ it :: after) = after := by
  rw [newer, if_neg hid, findIdx_split h]
  simp

theorem newer_absent {since : JsString} {items : List Item} (h : ∀ x ∈ items, x.id ≠ since) :
    newer since items = items := by
  unfold newer
  split
  · rfl
  · rw [List.findIdx?_eq_none_iff.mpr (by simpa using h)]

/-- Within the time to live nothing is swept. -/
theorem pruneTtl_recent {t₀ now : Nat} {items : List Item} (hnow : now ≤ t₀ + TTL_MS)
    (h : ∀ it ∈ items, t₀ ≤ it.ts) : pruneTtl now items = items := by
  refine List.filter_eq_self.mpr fun it hit => ?_
  have := h it hit
  simp only [decide_eq_true_eq]
  omega

theorem nextId_ne_nil (now : Nat) (random : JsString) : nextId now random ≠ [] := by
  simp [nextId, js]

theorem Queues.items_set (q : Queues) (room r : JsString) (items : List Item) :
    Queues.items (q.set room items) r = if r = room then items else q.items r := by
  rw [Queues.items, InsMap.get_set]
  split
  · rfl
  · rfl

end Senn.HttpPoll
