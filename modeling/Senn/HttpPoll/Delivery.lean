import Senn.HttpPoll.Client
import Senn.Lib.Machine
import Mathlib.Logic.Function.Basic
import Mathlib.Data.Fintype.Basic

/-! # Delivery through the endpoint

Any number of adapters post to the endpoint and poll it, each with the cursor it
received last; requests and responses of different adapters interleave and a
response may be lost. A GET cuts the room's queue for everybody, so a message
reaches every adapter only in runs where no GET cuts off what another adapter
of the room has not been handed. -/

namespace Senn.HttpPoll
open Senn.Js Senn.Lib

/-- The endpoint, the adapters, and the responses on their way to them. -/
structure World (ι : Type) where
  queues : Queues
  client : ι → RoomState
  flight : ι → Option Response

def World.init {ι : Type} : World ι := ⟨.empty, fun _ => .init, fun _ => none⟩

inductive Action (ι : Type) where
  | post (room : JsString) (now : Nat) (random : JsString) (body : Bytes)
  | get (c : ι) (now : Nat)
  | recv (c : ι)
  | lose (c : ι)

/-- What is seen of a run: accepted messages, and messages handed on. -/
inductive Obs (ι : Type) where
  | posted (room : JsString) (item : Item)
  | handed (c : ι) (h : Handed)

section
variable {ι : Type} [DecidableEq ι] (room : ι → JsString)

/-- One step; `room` is the room each adapter is subscribed to. -/
def step (w : World ι) : Action ι → World ι × List (Obs ι)
  | .post r now random body =>
    let res := handle w.queues now random { method := js "POST", room := r, body := body }
    ({ w with queues := res.1 },
      match postedMessage body with
      | .ok message => if res.2.ok then [.posted r ⟨nextId now random, now, message⟩] else []
      | .error _ => [])
  | .get c now =>
    match w.flight c with
    | some _ => (w, [])   -- the loop polls again only after the response
    | none =>
      let res := handle w.queues now []
        { method := js "GET", room := room c, since := (w.client c).cursor }
      ({ w with queues := res.1, flight := Function.update w.flight c (some res.2) }, [])
  | .recv c =>
    match w.flight c with
    | none => (w, [])
    | some res =>
      let r := pollOnce (w.client c) res
      ({ w with client := Function.update w.client c r.1,
                flight := Function.update w.flight c none }, r.2.map (.handed c))
  | .lose c => ({ w with flight := Function.update w.flight c none }, [])

/-- The messages accepted for a room, in POST order. -/
def postedTo (r : JsString) (obs : List (Obs ι)) : List Item :=
  obs.filterMap fun
    | .posted r' it => if r' = r then some it else none
    | .handed .. => none

/-- The messages an adapter handed on, in order. -/
def handedTo (c : ι) (obs : List (Obs ι)) : List Handed :=
  obs.filterMap fun
    | .posted .. => none
    | .handed c' h => if c' = c then some h else none

def postedIds (obs : List (Obs ι)) : List JsString :=
  obs.filterMap fun
    | .posted _ it => some it.id
    | .handed .. => none

/-- The step happens within the time to live that begins at `t₀`. -/
def Action.Within (t₀ : Nat) : Action ι → Prop
  | .post _ now _ _ => t₀ ≤ now ∧ now ≤ t₀ + TTL_MS
  | .get _ now => t₀ ≤ now ∧ now ≤ t₀ + TTL_MS
  | _ => True

/-- The items up to the one with id `since`: what a GET cuts off. -/
def seen (since : JsString) (items : List Item) : List Item :=
  if since = [] then []
  else
    match items.findIdx? fun it => it.id = since with
    | some idx => items.take (idx + 1)
    | none => []

/-- A GET cuts off only what the other adapters of the room have been handed. -/
def Keeps (w : World ι) : Action ι → Prop
  | .get c now => w.flight c = none →
    ∀ it ∈ seen (w.client c).cursor (pruneTtl now (w.queues.items (room c))),
      ∀ o, o ≠ c → room o = room c → it.id ∈ (w.client o).delivered
  | _ => True

/-- The step is one of `c`'s polls. -/
def Action.isPollOf (c : ι) : Action ι → Bool
  | .post .. => false
  | .get c' _ => c' = c
  | .recv c' => c' = c
  | .lose c' => c' = c

/-- After every poll, the adapter has handed on the messages posted before the
poll, all of them, each once, in POST order. -/
def Complete (acts : List (Action ι)) : Prop :=
  ∀ pre c now mid post, acts = pre ++ .get c now :: (mid ++ .recv c :: post) →
    (Machine.after (step room) .init pre).flight c = none →
    (∀ a ∈ mid, a.isPollOf c = false) →
    handedTo c (Machine.outputs (step room) .init (pre ++ .get c now :: (mid ++ [.recv c]))) =
      (postedTo (room c) (Machine.outputs (step room) .init pre)).map Item.handed

/-! ## Where cursor and queue stand in the log -/

/-- What is known of the accepted messages. -/
structure LogOk (t₀ : Nat) (obs : List (Obs ι)) : Prop where
  recent : ∀ r, ∀ it ∈ postedTo r obs, t₀ ≤ it.ts
  ids : ∀ r, ∀ it ∈ postedTo r obs, it.id ≠ []
  nodup : ∀ r, ((postedTo r obs).map Item.id).Nodup
  rooms : ∀ r, isRoomId r = false → postedTo r obs = []

/-- Adapter `c` has handed on the first `h c` messages of its room, and the
queue of room `r` is the log without its first `k r` messages. -/
structure Synced (obs : List (Obs ι)) (w : World ι) (h : ι → Nat) (k : JsString → Nat) : Prop where
  queue : ∀ r, w.queues.items r = (postedTo r obs).drop (k r)
  bound : ∀ r, k r ≤ (postedTo r obs).length
  kept : ∀ c, k (room c) ≤ h c
  ahead : ∀ c, h c ≤ (postedTo (room c) obs).length
  handed : ∀ c, handedTo c obs = ((postedTo (room c) obs).take (h c)).map Item.handed
  delivered : ∀ c, (w.client c).delivered = ((postedTo (room c) obs).take (h c)).map Item.id
  cursor : ∀ c, (w.client c).cursor = nextCursor [] ((postedTo (room c) obs).take (h c))
  flight : ∀ c res, w.flight c = some res →
    if isRoomId (room c) then ∃ n, h c ≤ n ∧ n ≤ (postedTo (room c) obs).length ∧
      res = answer (w.client c).cursor (((postedTo (room c) obs).take n).drop (h c))
    else res.ok = false

end

theorem ids_ne_of_lt {log : List Item} (hn : (log.map Item.id).Nodup) {i j : Nat}
    (hi : i < log.length) (hj : j < log.length) (hij : i ≠ j) : log[i].id ≠ log[j].id := by
  intro heq
  have hi' : i < (log.map Item.id).length := by simpa using hi
  have hj' : j < (log.map Item.id).length := by simpa using hj
  have hget : (log.map Item.id)[i] = (log.map Item.id)[j] ↔ i = j := hn.getElem_inj_iff
  simp only [List.getElem_map] at hget
  exact hij (hget.mp heq)

/-- The log from `k` on, split at the message before `h`. -/
theorem drop_split {log : List Item} {k h : Nat} (hk : k ≤ h) (hh : h < log.length) :
    log.drop k = (log.take h).drop k ++ log[h] :: log.drop (h + 1) := by
  conv_lhs => rw [← List.take_append_drop h log]
  rw [List.drop_append_of_le_length (by rw [List.length_take]; omega),
    List.drop_eq_getElem_cons hh]

theorem nextCursor_take {log : List Item} {h : Nat} (hh : h < log.length) (since : JsString) :
    nextCursor since (log.take (h + 1)) = log[h].id := by
  rw [nextCursor, List.take_succ_eq_append_getElem hh, List.getLast?_concat]
  rfl

theorem ne_of_mem_before {log : List Item} (hn : (log.map Item.id).Nodup) {k h : Nat}
    (hh : h < log.length) : ∀ x ∈ (log.take h).drop k, x.id ≠ log[h].id := by
  intro x hx
  obtain ⟨i, hi, rfl⟩ := List.getElem_of_mem (List.mem_of_mem_drop hx)
  rw [List.length_take] at hi
  rw [List.getElem_take]
  exact ids_ne_of_lt hn (by omega) hh (by omega)

/-- A GET answers an adapter with what it has not been handed. -/
theorem newer_log {log : List Item} (hn : (log.map Item.id).Nodup) (hids : ∀ it ∈ log, it.id ≠ [])
    {k h : Nat} (hk : k ≤ h) (hh : h ≤ log.length) :
    newer (nextCursor [] (log.take h)) (log.drop k) = log.drop h := by
  cases h with
  | zero =>
    obtain rfl : k = 0 := Nat.le_zero.mp hk
    simp [newer, nextCursor]
  | succ h =>
    have hlt : h < log.length := hh
    rw [nextCursor_take hlt]
    rcases Nat.lt_or_eq_of_le hk with hk | rfl
    · rw [drop_split (Nat.le_of_lt_succ hk) hlt]
      exact newer_split (hids _ (List.getElem_mem hlt)) (ne_of_mem_before hn hlt)
    · refine newer_absent fun x hx => ?_
      obtain ⟨i, hi, rfl⟩ := List.getElem_of_mem hx
      rw [List.length_drop] at hi
      rw [List.getElem_drop]
      exact ids_ne_of_lt hn (by omega) hlt (by omega)

/-- When the queue still has messages the adapter was handed, the last of these
is among what its GET cuts off. -/
theorem seen_log {log : List Item} (hn : (log.map Item.id).Nodup) (hids : ∀ it ∈ log, it.id ≠ [])
    {k h : Nat} (hk : k ≤ h) (hh : h < log.length) :
    log[h] ∈ seen (nextCursor [] (log.take (h + 1))) (log.drop k) := by
  rw [nextCursor_take hh, drop_split hk hh, seen, if_neg (hids _ (List.getElem_mem hh)),
    findIdx_split (ne_of_mem_before hn hh)]
  dsimp only
  rw [List.take_length_add_append]
  refine List.mem_append_right _ ?_
  rw [List.take_succ_cons]
  exact List.mem_cons_self ..

/-! ## Steps -/

section
variable {ι : Type}

@[simp] theorem postedTo_append (r : JsString) (obs new : List (Obs ι)) :
    postedTo r (obs ++ new) = postedTo r obs ++ postedTo r new := List.filterMap_append ..

@[simp] theorem postedTo_nil (r : JsString) : postedTo r ([] : List (Obs ι)) = [] := rfl

theorem postedTo_posted (r r' : JsString) (it : Item) :
    postedTo r [(Obs.posted r' it : Obs ι)] = if r' = r then [it] else [] := by
  by_cases h : r' = r <;> simp [postedTo, h]

@[simp] theorem postedTo_handed (r : JsString) (c : ι) (hs : List Handed) :
    postedTo r (hs.map (Obs.handed c)) = [] := by
  induction hs with
  | nil => rfl
  | cons h hs ih => simp [postedTo]

theorem postedIds_append (obs new : List (Obs ι)) :
    postedIds (obs ++ new) = postedIds obs ++ postedIds new := List.filterMap_append ..

theorem postedTo_ids_sublist (r : JsString) (obs : List (Obs ι)) :
    ((postedTo r obs).map Item.id).Sublist (postedIds obs) := by
  induction obs with
  | nil => exact List.Sublist.refl _
  | cons o obs ih =>
    cases o with
    | handed c hd => exact ih
    | posted r' it =>
      by_cases hr : r' = r
      · simpa [postedTo, postedIds, hr] using ih
      · simpa [postedTo, postedIds, hr] using ih.cons it.id

theorem logOk_nil (t₀ : Nat) : LogOk t₀ ([] : List (Obs ι)) :=
  ⟨by simp, by simp, by simp, by simp⟩

variable [DecidableEq ι] {room : ι → JsString}

@[simp] theorem handedTo_append (c : ι) (obs new : List (Obs ι)) :
    handedTo c (obs ++ new) = handedTo c obs ++ handedTo c new := List.filterMap_append ..

@[simp] theorem handedTo_nil (c : ι) : handedTo c ([] : List (Obs ι)) = [] := rfl

@[simp] theorem handedTo_posted (c : ι) (r : JsString) (it : Item) :
    handedTo c [Obs.posted r it] = [] := rfl

theorem handedTo_handed (c c' : ι) (hs : List Handed) :
    handedTo c (hs.map (Obs.handed c')) = if c' = c then hs else [] := by
  induction hs with
  | nil => simp
  | cons h hs ih =>
    by_cases hc : c' = c
    · simp [handedTo, hc]
    · simp [handedTo, hc]

/-- A POST is refused and changes nothing, or appends its message. -/
theorem step_post (room : ι → JsString) (w : World ι) (r : JsString) (now : Nat) (random : JsString) (body : Bytes) :
    step room w (.post r now random body) = (w, []) ∨
      ∃ it : Item, isRoomId r = true ∧ it.ts = now ∧ it.id = nextId now random ∧
        step room w (.post r now random body) =
          ({ w with queues := w.queues.set r (pruneTtl now (w.queues.items r) ++ [it]) },
            [.posted r it]) := by
  have hmethod : (js "POST" = js "OPTIONS") = False := by simp [js]
  cases hr : isRoomId r with
  | false =>
    left
    have hh : handle w.queues now random { method := js "POST", room := r, body := body } =
        (w.queues, .error 400 "bad room id") := by
      simp only [handle, hmethod, if_false, hr, Bool.not_false, if_true]
    have hok : (Response.error 400 "bad room id").ok = false := rfl
    simp only [step, hh, hok, Bool.false_eq_true, if_false]
    cases postedMessage body <;> rfl
  | true =>
    cases hm : postedMessage body with
    | error res =>
      left
      have hh : handle w.queues now random { method := js "POST", room := r, body := body } =
          (w.queues, res) := by
        simp only [handle, hmethod, if_false, hr, Bool.not_true, Bool.false_eq_true, if_true, hm]
      simp only [step, hh, hm]
    | ok message =>
      right
      refine ⟨⟨nextId now random, now, message⟩, rfl, rfl, rfl, ?_⟩
      have hh : handle w.queues now random { method := js "POST", room := r, body := body } =
          (w.queues.set r (pruneTtl now (w.queues.items r) ++ [⟨nextId now random, now, message⟩]),
            ⟨200, some (.obj [(js "id", .str (nextId now random)),
              (js "cursor", .str (nextId now random))])⟩) := by
        simp only [handle, hmethod, if_false, hr, Bool.not_true, Bool.false_eq_true, if_true, hm]
      simp only [step, hh, hm]
      rfl

theorem handle_get (q : Queues) (now : Nat) (r since : JsString) :
    handle q now [] { method := js "GET", room := r, since := since } =
      if isRoomId r then
        (q.set r (newer since (pruneTtl now (q.items r))),
          answer since (newer since (pruneTtl now (q.items r))))
      else (q, .error 400 "bad room id") := by
  have hoptions : (js "GET" = js "OPTIONS") = False := by simp [js]
  have hpost : (js "GET" = js "POST") = False := by simp [js]
  cases hr : isRoomId r <;> simp [handle, hoptions, hpost, hr]

theorem Synced.post {t₀ : Nat} {obs : List (Obs ι)} {w : World ι} {h : ι → Nat}
    {k : JsString → Nat} (hs : Synced room obs w h k) (hl : LogOk t₀ obs) {r : JsString}
    {now : Nat} {it : Item} (hnow : now ≤ t₀ + TTL_MS) :
    Synced room (obs ++ [.posted r it])
      { w with queues := w.queues.set r (pruneTtl now (w.queues.items r) ++ [it]) } h k := by
  have hlen : ∀ r', (postedTo r' obs).length ≤ (postedTo r' (obs ++ [.posted r it])).length := by
    intro r'
    rw [postedTo_append, List.length_append]
    omega
  have htake : ∀ r' n, n ≤ (postedTo r' obs).length →
      (postedTo r' (obs ++ [.posted r it])).take n = (postedTo r' obs).take n := by
    intro r' n hn
    rw [postedTo_append, List.take_append_of_le_length hn]
  have hrecent : pruneTtl now (w.queues.items r) = w.queues.items r := by
    refine pruneTtl_recent hnow fun x hx => hl.recent r x ?_
    rw [hs.queue] at hx
    exact List.mem_of_mem_drop hx
  refine ⟨fun r' => ?_, fun r' => (hs.bound r').trans (hlen r'), hs.kept,
    fun c => (hs.ahead c).trans (hlen _), fun c => ?_, fun c => ?_, fun c => ?_,
    fun c res hres => ?_⟩
  · rw [Queues.items_set, postedTo_append, postedTo_posted, hrecent, hs.queue, hs.queue,
      List.drop_append_of_le_length (hs.bound r')]
    by_cases hr : r' = r
    · rw [if_pos hr, if_pos hr.symm, hr]
    · rw [if_neg hr, if_neg (Ne.symm hr), List.append_nil]
  · rw [handedTo_append, handedTo_posted, List.append_nil, hs.handed, htake _ _ (hs.ahead c)]
  · rw [hs.delivered, htake _ _ (hs.ahead c)]
  · rw [hs.cursor, htake _ _ (hs.ahead c)]
  · have hf := hs.flight c res hres
    split at hf
    · next hr =>
      rw [if_pos hr]
      obtain ⟨n, hn, hnl, rfl⟩ := hf
      exact ⟨n, hn, hnl.trans (hlen _), by rw [htake _ _ hnl]⟩
    · next hr =>
      rw [if_neg hr]
      exact hf

/-- A GET of `c`, with a condition of the code's kind: what it cuts off the
others have been handed. -/
theorem Synced.get {t₀ : Nat} {obs : List (Obs ι)} {w : World ι} {h : ι → Nat}
    {k : JsString → Nat} (hs : Synced room obs w h k) (hl : LogOk t₀ obs) {c : ι} {now : Nat}
    (hnow : now ≤ t₀ + TTL_MS) (hflight : w.flight c = none) (hkeep : Keeps room w (.get c now)) :
    (step room w (.get c now)).2 = [] ∧
      Synced room obs (step room w (.get c now)).1 h (Function.update k (room c) (h c)) ∧
      (isRoomId (room c) = true → (step room w (.get c now)).1.flight c =
        some (answer (w.client c).cursor ((postedTo (room c) obs).drop (h c)))) := by
  have hnodup := hl.nodup (room c)
  have hids := hl.ids (room c)
  have hprune : pruneTtl now (w.queues.items (room c)) = (postedTo (room c) obs).drop (k (room c)) := by
    rw [hs.queue]
    exact pruneTtl_recent hnow fun x hx => hl.recent _ x (List.mem_of_mem_drop hx)
  have hnewer : newer (w.client c).cursor (pruneTtl now (w.queues.items (room c))) =
      (postedTo (room c) obs).drop (h c) := by
    rw [hprune, hs.cursor]
    exact newer_log hnodup hids (hs.kept c) (hs.ahead c)
  have hothers : ∀ o, room o = room c → h c ≤ h o := by
    intro o ho
    rcases Nat.lt_or_eq_of_le (hs.kept c) with hlt | heq
    · obtain ⟨n, hn⟩ : ∃ n, h c = n + 1 := ⟨h c - 1, by omega⟩
      have hnl : n < (postedTo (room c) obs).length := by
        have := hs.ahead c
        omega
      by_cases hoc : o = c
      · rw [hoc]
      · have hseen : (postedTo (room c) obs)[n] ∈
            seen (w.client c).cursor (pruneTtl now (w.queues.items (room c))) := by
          rw [hprune, hs.cursor, hn]
          exact seen_log hnodup hids (by omega) hnl
        have hmem := hkeep hflight _ hseen o hoc ho
        rw [hs.delivered, ho] at hmem
        obtain ⟨x, hx, hxid⟩ := List.mem_map.mp hmem
        obtain ⟨i, hi, rfl⟩ := List.getElem_of_mem hx
        rw [List.length_take] at hi
        rw [List.getElem_take] at hxid
        have hin : i = n := by
          by_contra hne
          exact ids_ne_of_lt hnodup (by omega) hnl hne hxid
        omega
    · rw [← heq, ← ho]
      exact hs.kept o
  have hstep : step room w (.get c now) =
      ({ w with
        queues := if isRoomId (room c) then
          w.queues.set (room c) ((postedTo (room c) obs).drop (h c)) else w.queues
        flight := Function.update w.flight c (some (if isRoomId (room c) then
          answer (w.client c).cursor ((postedTo (room c) obs).drop (h c))
          else .error 400 "bad room id")) }, []) := by
    simp only [step, hflight, handle_get, hnewer]
    split <;> rfl
  rw [hstep]
  refine ⟨rfl, ⟨fun r => ?_, fun r => ?_, fun o => ?_, hs.ahead, hs.handed, hs.delivered, hs.cursor,
    fun o res hres => ?_⟩, fun hr => ?_⟩
  · by_cases hr : r = room c
    · rw [hr, Function.update_self]
      cases hroom : isRoomId (room c) with
      | true => simp [Queues.items_set]
      | false => simp [hs.queue, hl.rooms _ hroom]
    · rw [Function.update_of_ne hr, ← hs.queue]
      cases isRoomId (room c) with
      | true => simp [Queues.items_set, hr]
      | false => rfl
  · by_cases hr : r = room c
    · rw [hr, Function.update_self]
      exact hs.ahead c
    · rw [Function.update_of_ne hr]
      exact hs.bound r
  · by_cases hr : room o = room c
    · rw [hr, Function.update_self]
      exact hothers o hr
    · rw [Function.update_of_ne hr]
      exact hs.kept o
  · by_cases ho : o = c
    · subst ho
      have hres' : Function.update w.flight o (some (if isRoomId (room o) then
        answer (w.client o).cursor ((postedTo (room o) obs).drop (h o))
        else .error 400 "bad room id")) o = some res := hres
      rw [Function.update_self] at hres'
      obtain rfl := Option.some.inj hres'
      cases isRoomId (room o) with
      | true =>
        exact ⟨_, hs.ahead o, Nat.le_refl _, by rw [if_pos rfl, List.take_length]⟩
      | false => rfl
    · refine hs.flight o res ?_
      rw [← hres]
      exact (Function.update_of_ne ho ..).symm
  · show Function.update w.flight c _ c = _
    rw [Function.update_self, if_pos hr]

/-- A response in flight after `c`'s was taken is another client's. -/
theorem flight_of_update {flight : ι → Option Response} {c o : ι} {res : Response}
    (h : Function.update flight c none o = some res) : o ≠ c ∧ flight o = some res := by
  by_cases ho : o = c
  · rw [ho, Function.update_self] at h
    cases h
  · exact ⟨ho, by rwa [Function.update_of_ne ho] at h⟩

/-- The response reaches `c`. -/
theorem Synced.recv {t₀ : Nat} {obs : List (Obs ι)} {w : World ι} {h : ι → Nat}
    {k : JsString → Nat} (hs : Synced room obs w h k) (hl : LogOk t₀ obs) {c : ι}
    {n : Nat} (hn : h c ≤ n) (hnl : n ≤ (postedTo (room c) obs).length)
    (hres : w.flight c = some (answer (w.client c).cursor
      (((postedTo (room c) obs).take n).drop (h c)))) :
    (step room w (.recv c)).2 =
      ((((postedTo (room c) obs).take n).drop (h c)).map Item.handed).map (.handed c) ∧
      Synced room (obs ++ (step room w (.recv c)).2) (step room w (.recv c)).1
        (Function.update h c n) k := by
  have hsplit : (postedTo (room c) obs).take (h c) ++
      ((postedTo (room c) obs).take n).drop (h c) = (postedTo (room c) obs).take n := by
    conv_rhs => rw [← List.take_append_drop (h c) ((postedTo (room c) obs).take n)]
    rw [List.take_take, Nat.min_eq_left hn]
  have hfresh : ((w.client c).delivered ++
      (((postedTo (room c) obs).take n).drop (h c)).map Item.id).Nodup := by
    rw [hs.delivered, ← List.map_append, hsplit, List.map_take]
    exact (hl.nodup _).sublist (List.take_sublist ..)
  have hpoll := pollOnce_answer hfresh
    fun it hit => hl.ids _ it (List.mem_of_mem_take (List.mem_of_mem_drop hit))
  have hcursor : nextCursor (w.client c).cursor (((postedTo (room c) obs).take n).drop (h c)) =
      nextCursor [] ((postedTo (room c) obs).take n) := by
    rw [hs.cursor, nextCursor_append, hsplit]
  have hdelivered : (w.client c).delivered ++
      (((postedTo (room c) obs).take n).drop (h c)).map Item.id =
      ((postedTo (room c) obs).take n).map Item.id := by
    rw [hs.delivered, ← List.map_append, hsplit]
  have hstep : step room w (.recv c) =
      ({ w with
        client := Function.update w.client c ⟨((postedTo (room c) obs).take n).map Item.id,
          nextCursor [] ((postedTo (room c) obs).take n)⟩
        flight := Function.update w.flight c none },
        ((((postedTo (room c) obs).take n).drop (h c)).map Item.handed).map (.handed c)) := by
    simp only [step, hres, hpoll, hcursor, hdelivered]
  rw [hstep]
  refine ⟨rfl, ?_⟩
  have hlog : ∀ r, postedTo r (obs ++ ((((postedTo (room c) obs).take n).drop (h c)).map
      Item.handed).map (.handed c)) = postedTo r obs := by
    intro r
    rw [postedTo_append, postedTo_handed, List.append_nil]
  refine ⟨fun r => by rw [hlog]; exact hs.queue r, fun r => by rw [hlog]; exact hs.bound r,
    fun o => ?_, fun o => ?_, fun o => ?_, fun o => ?_, fun o => ?_, fun o res hr => ?_⟩
  · by_cases ho : o = c
    · rw [ho, Function.update_self]
      exact (hs.kept c).trans hn
    · rw [Function.update_of_ne ho]
      exact hs.kept o
  · rw [hlog]
    by_cases ho : o = c
    · rw [ho, Function.update_self]
      exact hnl
    · rw [Function.update_of_ne ho]
      exact hs.ahead o
  · rw [hlog, handedTo_append, handedTo_handed, hs.handed]
    by_cases ho : o = c
    · rw [ho, if_pos rfl, Function.update_self, ← List.map_append, hsplit]
    · rw [if_neg (Ne.symm ho), Function.update_of_ne ho, List.append_nil]
  · rw [hlog]
    by_cases ho : o = c
    · simp only [ho, Function.update_self]
    · simp only [Function.update_of_ne ho]
      exact hs.delivered o
  · rw [hlog]
    by_cases ho : o = c
    · simp only [ho, Function.update_self]
    · simp only [Function.update_of_ne ho]
      exact hs.cursor o
  · rw [hlog]
    obtain ⟨ho, hr'⟩ := flight_of_update hr
    simp only [Function.update_of_ne ho]
    exact hs.flight o res hr'

/-- The response of `c`'s poll is gone, or was an error. -/
theorem Synced.drop {obs : List (Obs ι)} {w : World ι} {h : ι → Nat} {k : JsString → Nat}
    (hs : Synced room obs w h k) (c : ι) :
    Synced room obs { w with flight := Function.update w.flight c none } h k := by
  refine ⟨hs.queue, hs.bound, hs.kept, hs.ahead, hs.handed, hs.delivered, hs.cursor,
    fun o res hr => hs.flight o res (flight_of_update hr).2⟩

theorem step_recv_error {w : World ι} {c : ι} {res : Response} (hres : w.flight c = some res)
    (hok : res.ok = false) :
    step room w (.recv c) = ({ w with flight := Function.update w.flight c none }, []) := by
  have hpoll : pollOnce (w.client c) res = (w.client c, []) := by
    rw [pollOnce, hok, if_pos (by simp)]
  simp only [step, hres, hpoll, Function.update_eq_self]
  rfl

theorem Synced.step {t₀ : Nat} {obs : List (Obs ι)} {w : World ι} {h : ι → Nat}
    {k : JsString → Nat} (hs : Synced room obs w h k) (hl : LogOk t₀ obs) {a : Action ι}
    (ha : a.Within t₀) (hkeep : Keeps room w a) :
    ∃ h' k', Synced room (obs ++ (HttpPoll.step room w a).2) (HttpPoll.step room w a).1 h' k' := by
  cases a with
  | post r now random body =>
    rcases step_post room w r now random body with heq | ⟨it, _, _, _, heq⟩
    · rw [heq, List.append_nil]
      exact ⟨h, k, hs⟩
    · rw [heq]
      exact ⟨h, k, hs.post hl ha.2⟩
  | get c now =>
    cases hf : w.flight c with
    | some res =>
      simp only [HttpPoll.step, hf, List.append_nil]
      exact ⟨h, k, hs⟩
    | none =>
      obtain ⟨hobs, hs', _⟩ := hs.get hl ha.2 hf hkeep
      rw [hobs, List.append_nil]
      exact ⟨h, _, hs'⟩
  | recv c =>
    cases hf : w.flight c with
    | none =>
      simp only [HttpPoll.step, hf, List.append_nil]
      exact ⟨h, k, hs⟩
    | some res =>
      have hres := hs.flight c res hf
      split at hres
      · obtain ⟨n, hn, hnl, rfl⟩ := hres
        exact ⟨_, k, (hs.recv hl hn hnl hf).2⟩
      · rw [step_recv_error hf hres, List.append_nil]
        exact ⟨h, k, hs.drop c⟩
  | lose c =>
    simp only [HttpPoll.step, List.append_nil]
    exact ⟨h, k, hs.drop c⟩

theorem logOk_step {t₀ : Nat} {obs : List (Obs ι)} {w : World ι} (hl : LogOk t₀ obs)
    {a : Action ι} (ha : a.Within t₀) (hn : (postedIds (obs ++ (step room w a).2)).Nodup) :
    LogOk t₀ (obs ++ (step room w a).2) := by
  have hsame : ∀ new : List (Obs ι), (∀ r, postedTo r new = []) → LogOk t₀ (obs ++ new) := by
    intro new hnew
    have hlog : ∀ r, postedTo r (obs ++ new) = postedTo r obs := fun r => by
      rw [postedTo_append, hnew, List.append_nil]
    exact ⟨fun r => hlog r ▸ hl.recent r, fun r => hlog r ▸ hl.ids r, fun r => hlog r ▸ hl.nodup r,
      fun r => hlog r ▸ hl.rooms r⟩
  cases a with
  | post r now random body =>
    rcases step_post room w r now random body with heq | ⟨it, hr, hts, hid, heq⟩
    · rw [heq]
      exact hsame [] fun _ => rfl
    · rw [heq] at hn ⊢
      have hmem : ∀ r', ∀ x ∈ postedTo r' (obs ++ [.posted r it]),
          x ∈ postedTo r' obs ∨ x = it := by
        intro r' x hx
        rw [postedTo_append, postedTo_posted] at hx
        rcases List.mem_append.mp hx with hx | hx
        · exact .inl hx
        · split at hx
          · exact .inr (List.mem_singleton.mp hx)
          · cases hx
      refine ⟨fun r' x hx => ?_, fun r' x hx => ?_, fun r' =>
        hn.sublist (postedTo_ids_sublist ..), fun r' hr' => ?_⟩
      · rcases hmem r' x hx with hx | rfl
        · exact hl.recent r' x hx
        · exact hts ▸ ha.1
      · rcases hmem r' x hx with hx | rfl
        · exact hl.ids r' x hx
        · exact hid ▸ nextId_ne_nil now random
      · have hne : r ≠ r' := by
          rintro rfl
          rw [hr] at hr'
          cases hr'
        rw [postedTo_append, hl.rooms r' hr', postedTo_posted, if_neg hne]
        rfl
  | get c now =>
    refine hsame _ fun r => ?_
    simp only [step]
    split <;> rfl
  | recv c =>
    refine hsame _ fun r => ?_
    simp only [step]
    split
    · rfl
    · exact postedTo_handed ..
  | lose c => exact hsame [] fun _ => rfl

/-! ## Runs -/

theorem synced_init : Synced room [] .init (fun _ => 0) fun _ => 0 where
  queue _ := rfl
  bound _ := Nat.le_refl _
  kept _ := Nat.le_refl _
  ahead _ := Nat.le_refl _
  handed _ := rfl
  delivered _ := rfl
  cursor _ := rfl
  flight c res h := by cases h

theorem synced_run {t₀ : Nat} (acts : List (Action ι)) (htime : ∀ a ∈ acts, a.Within t₀)
    (hids : (postedIds (Machine.outputs (step room) .init acts)).Nodup)
    (hkeep : Machine.Guarded (step room) (Keeps room) .init acts) :
    LogOk t₀ (Machine.outputs (step room) .init acts) ∧
      ∃ h k, Synced room (Machine.outputs (step room) .init acts)
        (Machine.after (step room) .init acts) h k := by
  induction acts using List.reverseRecOn with
  | nil => exact ⟨logOk_nil t₀, _, _, synced_init⟩
  | append_singleton acts a ih =>
    obtain ⟨hpre, hlast⟩ := Machine.guarded_append.mp hkeep
    rw [Machine.outputs_append, Machine.outputs_cons, Machine.outputs_nil, List.append_nil] at hids ⊢
    rw [Machine.after_append, Machine.after_cons, Machine.after_nil]
    have hids' : (postedIds (Machine.outputs (step room) .init acts)).Nodup := by
      rw [postedIds_append] at hids
      exact hids.of_append_left
    obtain ⟨hl, h, k, hs⟩ := ih (fun x hx => htime x (List.mem_append_left _ hx)) hids' hpre
    have ha := htime a (by simp)
    exact ⟨logOk_step hl ha hids, hs.step hl ha hlast.1⟩

/-- What other adapters and posters do leaves `c` alone. -/
theorem step_other (room : ι → JsString) {w : World ι} {c : ι} {a : Action ι} (ha : a.isPollOf c = false) :
    (step room w a).1.client c = w.client c ∧ (step room w a).1.flight c = w.flight c ∧
      handedTo c (step room w a).2 = [] := by
  cases a with
  | post r now random body =>
    rcases step_post room w r now random body with heq | ⟨it, _, _, _, heq⟩
    · rw [heq]; exact ⟨rfl, rfl, rfl⟩
    · rw [heq]; exact ⟨rfl, rfl, rfl⟩
  | get o now =>
    have hne : c ≠ o := by
      rintro rfl
      simp [Action.isPollOf] at ha
    simp only [step]
    split
    · exact ⟨rfl, rfl, rfl⟩
    · exact ⟨rfl, Function.update_of_ne hne _ _, rfl⟩
  | recv o =>
    have hne : c ≠ o := by
      rintro rfl
      simp [Action.isPollOf] at ha
    simp only [step]
    split
    · exact ⟨rfl, rfl, rfl⟩
    · exact ⟨Function.update_of_ne hne _ _, Function.update_of_ne hne _ _, by
        rw [handedTo_handed, if_neg (Ne.symm hne)]⟩
  | lose o =>
    have hne : c ≠ o := by
      rintro rfl
      simp [Action.isPollOf] at ha
    exact ⟨rfl, Function.update_of_ne hne _ _, rfl⟩

theorem run_other (room : ι → JsString) {c : ι} (mid : List (Action ι)) : ∀ {w : World ι},
    (∀ a ∈ mid, a.isPollOf c = false) →
    (Machine.after (step room) w mid).flight c = w.flight c ∧
      handedTo c (Machine.outputs (step room) w mid) = [] := by
  induction mid with
  | nil => intro w _; exact ⟨rfl, rfl⟩
  | cons a mid ih =>
    intro w hmid
    obtain ⟨ha, hrest⟩ := List.forall_mem_cons.mp hmid
    obtain ⟨_, hflight, hhanded⟩ := step_other room (w := w) ha
    obtain ⟨hflight', hhanded'⟩ := ih (w := (step room w a).1) hrest
    exact ⟨hflight'.trans hflight, by
      rw [Machine.outputs_cons, handedTo_append, hhanded, hhanded']; rfl⟩

/-- Within the time to live, with fresh ids, and when no GET cuts off what
another adapter of the room has not been handed, every poll completes what was
posted before it. -/
theorem polls_complete (t₀ : Nat) (acts : List (Action ι)) (htime : ∀ a ∈ acts, a.Within t₀)
    (hids : (postedIds (Machine.outputs (step room) .init acts)).Nodup)
    (hkeep : Machine.Guarded (step room) (Keeps room) .init acts) : Complete room acts := by
  intro pre c now mid post hacts hidle hmid
  have hrun : ∀ p q, acts = p ++ q → LogOk t₀ (Machine.outputs (step room) .init p) ∧
      ∃ h k, Synced room (Machine.outputs (step room) .init p)
        (Machine.after (step room) .init p) h k := by
    rintro p q rfl
    refine synced_run p (fun a ha => htime a (List.mem_append_left _ ha)) ?_
      (Machine.guarded_append.mp hkeep).1
    rw [Machine.outputs_append, postedIds_append] at hids
    exact hids.of_append_left
  have hget := Machine.guarded_at (hacts ▸ hkeep)
  have hnow := (htime (.get c now) (by rw [hacts]; simp)).2
  obtain ⟨hl, h, k, hs⟩ := hrun pre _ hacts
  obtain ⟨hobs, _, hanswer⟩ := hs.get hl hnow hidle hget
  -- nothing between the request and the response touches `c`
  have hpre : Machine.after (step room) .init (pre ++ .get c now :: mid) = Machine.after (step room)
      (step room (Machine.after (step room) .init pre) (.get c now)).1 mid := by
    rw [Machine.after_append, Machine.after_cons]
  obtain ⟨hflight, hquiet⟩ := run_other room mid
    (w := (step room (Machine.after (step room) .init pre) (.get c now)).1) hmid
  rw [← hpre] at hflight
  have hout : Machine.outputs (step room) .init (pre ++ .get c now :: mid) =
      Machine.outputs (step room) .init pre ++ Machine.outputs (step room)
        (step room (Machine.after (step room) .init pre) (.get c now)).1 mid := by
    rw [Machine.outputs_append, Machine.outputs_cons, hobs, List.nil_append]
  have hhanded : handedTo c (Machine.outputs (step room) .init (pre ++ .get c now :: mid)) =
      handedTo c (Machine.outputs (step room) .init pre) := by
    rw [hout, handedTo_append, hquiet, List.append_nil]
  obtain ⟨hl₂, h₂, k₂, hs₂⟩ := hrun (pre ++ .get c now :: mid) (.recv c :: post) (by simp [hacts])
  have hlen : h₂ c = h c := by
    have h1 := congrArg List.length ((hs₂.handed c).symm.trans (hhanded.trans (hs.handed c)))
    simp only [List.length_map, List.length_take] at h1
    have h2 := hs.ahead c
    have h3 := hs₂.ahead c
    omega
  have hlast : Machine.outputs (step room) .init (pre ++ .get c now :: (mid ++ [.recv c])) =
      Machine.outputs (step room) .init (pre ++ .get c now :: mid) ++
        (step room (Machine.after (step room) .init (pre ++ .get c now :: mid)) (.recv c)).2 := by
    rw [show pre ++ .get c now :: (mid ++ [.recv c]) = (pre ++ .get c now :: mid) ++ [.recv c] by simp,
      Machine.outputs_append, Machine.outputs_cons, Machine.outputs_nil, List.append_nil]
  cases hroom : isRoomId (room c) with
  | false =>
    obtain ⟨hl₃, h₃, _, hs₃⟩ := hrun (pre ++ .get c now :: (mid ++ [.recv c])) post (by simp [hacts])
    rw [hs₃.handed, hl₃.rooms _ hroom, hl.rooms _ hroom, List.take_nil]
  | true =>
    have hlog : (postedTo (room c) (Machine.outputs (step room) .init
        (pre ++ .get c now :: mid))).take
          (postedTo (room c) (Machine.outputs (step room) .init pre)).length =
        postedTo (room c) (Machine.outputs (step room) .init pre) := by
      rw [hout, postedTo_append, List.take_left']
      rfl
    have hcursor : ((Machine.after (step room) .init pre).client c).cursor =
        ((Machine.after (step room) .init (pre ++ .get c now :: mid)).client c).cursor := by
      rw [hs.cursor, hs₂.cursor, hlen, ← hlog, List.take_take, Nat.min_eq_left (hs.ahead c)]
    have hres := hflight.trans (hanswer hroom)
    rw [hcursor, ← hlog, ← hlen] at hres
    have hle : (postedTo (room c) (Machine.outputs (step room) .init pre)).length ≤
        (postedTo (room c) (Machine.outputs (step room) .init (pre ++ .get c now :: mid))).length := by
      rw [hout, postedTo_append, List.length_append]
      omega
    obtain ⟨hnew, _⟩ := hs₂.recv hl₂ (hlen ▸ hs.ahead c) hle hres
    rw [hlast, hnew, handedTo_append, handedTo_handed, if_pos rfl, hhanded, hs.handed,
      ← List.map_append, hlog, hlen, List.take_append_drop]

end

/-! ## Two adapters in one room -/

instance {ι : Type} [DecidableEq ι] [Fintype ι] (room : ι → JsString) (w : World ι) (a : Action ι) :
    Decidable (Keeps room w a) := by
  cases a with
  | get c now => exact inferInstanceAs (Decidable (w.flight c = none → _))
  | post r now random body => exact inferInstanceAs (Decidable True)
  | recv c => exact inferInstanceAs (Decidable True)
  | lose c => exact inferInstanceAs (Decidable True)

instance {ι : Type} (t₀ : Nat) (a : Action ι) : Decidable (a.Within t₀) := by
  cases a with
  | post r now random body => exact inferInstanceAs (Decidable (_ ∧ _))
  | get c now => exact inferInstanceAs (Decidable (_ ∧ _))
  | recv c => exact inferInstanceAs (Decidable True)
  | lose c => exact inferInstanceAs (Decidable True)

def sharedRoom : JsString := js "aaaaaaaaaaaaaaaaaaaaaaaaaa"

def byeBody : Bytes := utf8Encode (js "\x7b\"message\":\x7b\"kind\":\"bye\"\x7d\x7d")

/-- Both adapters poll once after the message, then one of them again. -/
def turnsRun : List (Action Bool) :=
  [.post sharedRoom 1 (js "0000aa") byeBody, .get false 2, .recv false, .get true 3, .recv true,
    .get false 4, .recv false]

theorem polls_complete_turnsRun :
    (handedTo true (Machine.outputs (step fun _ => sharedRoom) .init turnsRun)).length = 1 ∧
      Complete (fun _ => sharedRoom) turnsRun :=
  ⟨by decide +kernel, polls_complete 0 turnsRun (by decide +kernel) (by decide +kernel)
    (by decide +kernel)⟩

/-- One adapter polls twice before the other one polls. -/
def cutRun : List (Action Bool) :=
  [.post sharedRoom 1 (js "0000aa") byeBody, .get false 2, .recv false, .get false 3, .recv false,
    .get true 4, .recv true]

/-- The message is cut off before the second adapter's first poll. -/
theorem cutRun_incomplete : (∀ a ∈ cutRun, a.Within 0) ∧
    (postedIds (Machine.outputs (step fun _ => sharedRoom) .init cutRun)).Nodup ∧
    ¬Complete (fun _ => sharedRoom) cutRun := by
  refine ⟨by decide +kernel, by decide +kernel, fun h => ?_⟩
  have hlast := h (cutRun.take 5) true 4 [] [] rfl rfl (by simp)
  have hlen := congrArg List.length hlast
  rw [List.length_map] at hlen
  have hnone : (handedTo true (Machine.outputs (step fun _ => sharedRoom) .init
      (cutRun.take 5 ++ .get true 4 :: ([] ++ [.recv true])))).length = 0 := by decide +kernel
  have hone : (postedTo sharedRoom (Machine.outputs (step fun _ => sharedRoom) .init
      (cutRun.take 5))).length = 1 := by decide +kernel
  exact absurd (hnone.symm.trans (hlen.trans hone)) (by decide)

end Senn.HttpPoll
