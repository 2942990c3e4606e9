import Senn.HttpPoll.Endpoint

/-! # One poll of `HttpPollSignaling`

The adapter keeps a cursor and the ids it has handed on for each room.
`pollOnce_answer` says what a poll makes of an answer of the endpoint whose
items are new to it. -/

namespace Senn.HttpPoll
open Senn.Js Senn.Lib

/-- What the adapter keeps for a room; `delivered` lists a set of ids. -/
structure RoomState where
  delivered : List JsString
  cursor : JsString

def RoomState.init : RoomState := ⟨[], []⟩

/-- A message handed to the room's handlers: its id, and `item.message`. -/
abbrev Handed := JsString × Option Json

/-- One element of `body.messages`. -/
def deliver (acc : List JsString × List Handed) (item : Json) : List JsString × List Handed :=
  match item.get? (js "id") with
  | some (.str id) =>
    if id ∈ acc.1 then acc
    else (acc.1 ++ [id], acc.2 ++ [(id, item.get? (js "message"))])
  | _ => acc

/-- `pollOnce` once the response is there; where it throws, nothing changes. -/
def pollOnce (st : RoomState) (res : Response) : RoomState × List Handed :=
  if !res.ok then (st, [])
  else
    match res.body with
    | none => (st, [])
    | some body =>
      match body.get? (js "messages") with
      | some (.arr items) =>
        let r := items.foldl deliver (st.delivered, [])
        let cursor := match body.get? (js "cursor") with
          | some (.str cursor) => if cursor = [] then st.cursor else cursor
          | _ => st.cursor
        (⟨r.1, cursor⟩, r.2)
      | _ => (st, [])

/-- What the handlers are given of an item. -/
def Item.handed (it : Item) : Handed := (it.id, some it.message)

theorem deliver_items (items : List Item) : ∀ {delivered : List JsString} {handed : List Handed},
    (delivered ++ items.map Item.id).Nodup →
    (items.map Item.json).foldl deliver (delivered, handed) =
      (delivered ++ items.map Item.id, handed ++ items.map Item.handed) := by
  induction items with
  | nil => intro delivered handed _; simp
  | cons it items ih =>
    intro delivered handed h
    have hnew : it.id ∉ delivered := by
      intro hmem
      exact (List.nodup_append.mp h).2.2 _ hmem _ (List.mem_cons_self ..) rfl
    have hid : it.json.get? (js "id") = some (.str it.id) := rfl
    have hmessage : it.json.get? (js "message") = some it.message := rfl
    have hstep : deliver (delivered, handed) it.json =
        (delivered ++ [it.id], handed ++ [it.handed]) := by
      simp only [deliver, hid, hmessage]
      rw [if_neg hnew]
      rfl
    rw [List.map_cons, List.foldl_cons, hstep, ih (by simpa using h)]
    simp

/-- The cursor an answer leaves is kept. -/
theorem nextCursor_kept (since : JsString) {items : List Item} (hids : ∀ it ∈ items, it.id ≠ []) :
    (if nextCursor since items = [] then since else nextCursor since items) =
      nextCursor since items := by
  split
  · next hnil =>
    cases hl : items.getLast? with
    | none => simp [nextCursor, hl]
    | some it =>
      rw [nextCursor, hl] at hnil
      exact absurd hnil (hids it (List.mem_of_getLast? hl))
  · rfl

theorem nextCursor_append (since : JsString) (items items' : List Item) :
    nextCursor (nextCursor since items) items' = nextCursor since (items ++ items') := by
  rw [nextCursor, nextCursor, nextCursor, List.getLast?_append]
  cases items'.getLast? <;> rfl

/-- A poll hands on exactly the items of an answer that are all new. -/
theorem pollOnce_answer {st : RoomState} {items : List Item}
    (h : (st.delivered ++ items.map Item.id).Nodup) (hids : ∀ it ∈ items, it.id ≠ []) :
    pollOnce st (answer st.cursor items) =
      (⟨st.delivered ++ items.map Item.id, nextCursor st.cursor items⟩,
        items.map Item.handed) := by
  have hmessages : (answerBody st.cursor items).get? (js "messages") =
      some (.arr (items.map Item.json)) := rfl
  have hcursor : (answerBody st.cursor items).get? (js "cursor") =
      some (.str (nextCursor st.cursor items)) := rfl
  have hok : (answer st.cursor items).ok = true := rfl
  rw [pollOnce, hok, if_neg (by simp)]
  simp only [answer, hmessages, hcursor, nextCursor_kept st.cursor hids, deliver_items items h,
    List.nil_append]

end Senn.HttpPoll
