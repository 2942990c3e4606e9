import Senn.Lib.Rounds
import Senn.HttpPoll.Contract

/-! # Subscriptions of `HttpPollSignaling`

The adapter as a client of `Senn.Lib.Rounds`: a room's loop goes over the handlers in a round
for each item it hands on. -/

namespace Senn.HttpPoll
open Senn.Js Senn.Lib Senn.Lib.Machine Senn.Lib.Subscriptions

namespace Room

/-- The round of a room over its handlers. -/
def round (r : Room) (i : Nat) : Option (Round JsString Nat) :=
  r.turn?.map fun t => ⟨r.roomId, i, t.2⟩

theorem add_round {r : Room} {handler : Nat} (hnew : handler ∉ r.handlers) (i : Nat) :
    (r.add handler).round i = (r.round i).map (Round.joined i handler) := by
  rw [add, if_neg hnew]
  unfold round turn?
  cases r.stage with
  | dispatching items cursor turn =>
    cases turn with
    | none => rfl
    | some t => simp [Stage.joined, Round.joined]
  | _ => rfl

theorem delete_round (r : Room) (handler : Nat) (aborted : Bool) (i : Nat) :
    Room.round { r.delete handler with aborted := aborted } i =
      (r.round i).map (Round.left i handler) := by
  unfold round turn? delete
  cases r.stage with
  | dispatching items cursor turn =>
    cases turn with
    | none => rfl
    | some t => simp [Stage.left, Round.left]
  | _ => rfl

/-- A round over another set is left alone. -/
theorem round_other {r : Room} {i j : Nat} (hne : j ≠ i) (handler : Nat) :
    (r.round j).map (Round.joined i handler) = r.round j ∧
      (r.round j).map (Round.left i handler) = r.round j := by
  unfold round
  cases r.turn? with
  | none => exact ⟨rfl, rfl⟩
  | some t => simp [Round.joined, Round.left, hne]

end Room

namespace HttpPollSignaling

variable {s : HttpPollSignaling} {roomId : JsString} {ev : Event} {r r' : Room} {i : Nat}

/-- The sets of handlers, and which one is a room's. -/
def setsOf (s : HttpPollSignaling) : Sets JsString Nat :=
  ⟨s.rooms.get, s.handlers, s.roomStates.length⟩

def round (s : HttpPollSignaling) (i : Nat) : Option (Round JsString Nat) :=
  (s.roomStates[i]?).bind (·.round i)

/-- The step begins to hand on an item of the room. -/
def starts (s : HttpPollSignaling) (ev : Event) (i : Nat) : Bool := !(started i s ev).isEmpty

/-- The call of `subscribe` that an event is, or the one that it undoes. -/
def op (s : HttpPollSignaling) : Event → Option (Op JsString Nat)
  | .subscribe roomId handler => if s.closed then none else some (.subscribe roomId handler)
  | .unsubscribe k => some (.undo k)
  | _ => none

/-- The items of a response are due to the handlers while its loop is the one of the room. -/
def client : Client HttpPollSignaling Event Out JsString Nat Nat where
  step := step
  sets := setsOf
  calls := unsubscribes
  op := op
  round := round
  starts := starts
  called s ev i := (invokes i (s.step ev).2).map Prod.fst
  due t r := r.Current t

/-- Deleting a handler that a room does not have changes nothing. -/
theorem delete_idle (hr : Ordered r) {handler : Nat} (hout : handler ∉ r.handlers) :
    r.delete handler = r := by
  have hstage : r.stage.left handler = r.stage := by
    have htodo : handler ∉ r.todo := fun hmem => hout (hr.subset handler hmem)
    unfold Room.todo Room.turn? at htodo
    cases hstage : r.stage with
    | dispatching items cursor turn =>
      rcases turn with _ | ⟨message, todo⟩
      · rfl
      · rw [hstage] at htodo
        have htodo' : handler ∉ todo := htodo
        rw [Stage.left, filter_ne_self htodo']
    | _ => rfl
  rw [Room.delete, hstage, filter_ne_self hout]

/-! ## `subscribe` -/

/-- What a call of `subscribe` does. -/
inductive Subscribed (s : HttpPollSignaling) (roomId : JsString) (handler : Nat) :
    HttpPollSignaling → Prop
  | refused : s.closed = true → Subscribed s roomId handler s
  | held {i : Nat} : s.closed = false → s.rooms.get roomId = some i → handler ∈ s.handlers i →
      Subscribed s roomId handler
        { s with unsubscribes := s.unsubscribes ++ [(roomId, handler)] }
  | joined {i : Nat} {s' : HttpPollSignaling} : s.closed = false →
      Joins s.setsOf s'.setsOf roomId i handler →
      s'.unsubscribes = s.unsubscribes ++ [(roomId, handler)] →
      (∀ j, s'.round j = (s.round j).map (Round.joined i handler)) → Subscribed s roomId handler s'

/-- A room's handlers, if it has any, are those of a room state that is there. -/
theorem state_of_handlers (h : s.handlers i ≠ []) : ∃ r, s.roomStates[i]? = some r := by
  unfold handlers at h
  cases hr : s.roomStates[i]? with
  | none => exact absurd (by rw [hr]; rfl) h
  | some r => exact ⟨r, rfl⟩

theorem subscribe_member {handler : Nat} (hopen : s.closed = false) (hroom : s.rooms.get roomId = some i)
    (hr : s.roomStates[i]? = some r) (hmem : handler ∈ r.handlers) :
    (s.subscribe roomId handler).1 =
      { s with unsubscribes := s.unsubscribes ++ [(roomId, handler)] } := by
  have hsame : s.roomStates.modify i (·.add handler) = s.roomStates := by
    refine List.ext_getElem? fun j => ?_
    rw [List.getElem?_modify]
    split
    · next hij =>
      subst hij
      rw [hr]
      exact congrArg some (if_pos hmem)
    · cases s.roomStates[j]? <;> rfl
  simp [subscribe, hopen, hroom, hsame]

theorem subscribe_cases (htidy : s.setsOf.Tidy) (roomId : JsString) (handler : Nat) :
    Subscribed s roomId handler (s.subscribe roomId handler).1 := by
  cases hopen : s.closed with
  | true =>
    have hsame : (s.subscribe roomId handler).1 = s := by simp [subscribe, hopen]
    rw [hsame]
    exact .refused hopen
  | false =>
    cases hroom : s.rooms.get roomId with
    | some i =>
      obtain ⟨r, hr⟩ := state_of_handlers (htidy.current roomId i hroom)
      have hhandlers := handlers_of hr
      by_cases hmem : handler ∈ r.handlers
      · rw [subscribe_member hopen hroom hr hmem]
        exact .held hopen hroom (hhandlers ▸ hmem)
      · have hstate : (s.subscribe roomId handler).1 =
            { s with
              roomStates := s.roomStates.modify i (·.add handler)
              unsubscribes := s.unsubscribes ++ [(roomId, handler)] } := by
          simp [subscribe, hopen, hroom]
        have hadd : (r.add handler).handlers = r.handlers ++ [handler] := by
          rw [Room.add, if_neg hmem]
        have hout : handler ∉ s.handlers i := hhandlers ▸ hmem
        have hlt : i < s.setsOf.length := (List.getElem?_eq_some_iff.mp hr).1
        rw [hstate]
        refine .joined (i := i) hopen
          ⟨.inl hroom, hout, fun j => ?_, fun room => ?_, ?_⟩ rfl fun j => ?_
        · simp only [setsOf, handlers, List.getElem?_modify]
          split
          · next hij =>
            subst hij
            rw [hr]
            exact hadd
          · cases s.roomStates[j]? <;> rfl
        · split
          · next heq => rw [heq]; exact hroom
          · rfl
        · rw [if_neg (Nat.ne_of_lt hlt)]
          exact List.length_modify ..
        · simp only [round, List.getElem?_modify]
          split
          · next hij =>
            subst hij
            rw [hr]
            exact Room.add_round hmem i
          · next hij =>
            cases s.roomStates[j]? with
            | none => rfl
            | some r' => exact (Room.round_other (Ne.symm hij) handler).1.symm
    | none =>
      have hstate : (s.subscribe roomId handler).1 =
          { s with
            rooms := s.rooms.set roomId s.roomStates.length
            roomStates := s.roomStates ++
              [((Room.create roomId).poll s.roomStates.length).1.add handler]
            unsubscribes := s.unsubscribes ++ [(roomId, handler)] } := by
        simp [subscribe, hopen, hroom]
      have hout : s.handlers s.roomStates.length = [] := by simp [handlers]
      rw [hstate]
      refine .joined (i := s.roomStates.length) hopen
        ⟨.inr ⟨hroom, rfl⟩, by simp [setsOf, hout], fun j => ?_, fun room => ?_, ?_⟩ rfl fun j => ?_
      · simp only [setsOf, handlers, List.getElem?_append]
        split
        · next hlt => rw [if_neg (Nat.ne_of_gt hlt)]
        · next hge =>
          by_cases hj : s.roomStates.length = j
          · subst hj
            simp [Room.add, Room.poll, Room.create]
          · have hnone : s.roomStates[j]? = none := List.getElem?_eq_none (by omega)
            have hpos : j - s.roomStates.length ≠ 0 := by omega
            simp [hj, hnone, hpos]
      · exact InsMap.get_set ..
      · simp [setsOf]
      · simp only [round, List.getElem?_append]
        split
        · next hlt =>
          cases s.roomStates[j]? with
          | none => rfl
          | some r' => exact (Room.round_other (Nat.ne_of_lt hlt) handler).1.symm
        · next hge =>
          have hnone : s.roomStates[j]? = none := List.getElem?_eq_none (by omega)
          rw [hnone]
          by_cases hj : j = s.roomStates.length
          · subst hj
            rw [Nat.sub_self]
            rfl
          · have hpos : j - s.roomStates.length ≠ 0 := by omega
            simp [hpos]

theorem subscribe_outs (s : HttpPollSignaling) (roomId : JsString) (handler j : Nat) :
    invokes j (s.subscribe roomId handler).2 = [] := by
  unfold subscribe
  repeat' split
  all_goals rfl

/-! ## The functions that `subscribe` returned -/

/-- What a call of the `k`-th of them does. -/
inductive Unsubscribed (s : HttpPollSignaling) (k : Nat) : HttpPollSignaling × List Out → Prop
  | void : (∀ roomId handler, s.unsubscribes[k]? = some (roomId, handler) →
      s.rooms.get roomId = none) → Unsubscribed s k (s, [])
  | left {roomId : JsString} {handler i : Nat} {p : HttpPollSignaling × List Out} :
      s.unsubscribes[k]? = some (roomId, handler) →
      Leaves s.setsOf p.1.setsOf roomId i handler → p.1.unsubscribes = s.unsubscribes →
      (∀ j, p.1.round j = (s.round j).map (Round.left i handler)) → (∀ j, invokes j p.2 = []) →
      (handler ∉ s.handlers i → s.AllOrdered → p = (s, [])) → Unsubscribed s k p

/-- The state of a room's set and of its round, once a handler has left. -/
theorem left_state (hr : s.roomStates[i]? = some r) (handler : Nat) (aborted : Bool)
    (s' : HttpPollSignaling)
    (hstates : s'.roomStates = s.roomStates.set i { r.delete handler with aborted := aborted }) :
    (∀ j, s'.handlers j =
      if i = j then (s.handlers j).filter (· ≠ handler) else s.handlers j) ∧
    ∀ j, s'.round j = (s.round j).map (Round.left i handler) := by
  have hlt := (List.getElem?_eq_some_iff.mp hr).1
  constructor
  · intro j
    simp only [handlers, hstates]
    split
    · next hij =>
      subst hij
      rw [List.getElem?_set_self hlt, hr]
      rfl
    · next hij => rw [List.getElem?_set_ne hij]
  · intro j
    simp only [round, hstates]
    by_cases hij : i = j
    · subst hij
      rw [List.getElem?_set_self hlt, hr]
      exact Room.delete_round r handler aborted i
    · rw [List.getElem?_set_ne hij]
      cases s.roomStates[j]? with
      | none => rfl
      | some r' => exact (Room.round_other (Ne.symm hij) handler).2.symm

theorem unsubscribe_cases (htidy : s.setsOf.Tidy) (k : Nat) :
    Unsubscribed s k (s.unsubscribe k) := by
  cases hk : s.unsubscribes[k]? with
  | none =>
    have hstep : s.unsubscribe k = (s, []) := by simp [unsubscribe, hk]
    rw [hstep]
    exact .void fun _ _ h => by rw [hk] at h; cases h
  | some e =>
    obtain ⟨roomId, handler⟩ := e
    cases hroom : s.rooms.get roomId with
    | none =>
      have hstep : s.unsubscribe k = (s, []) := by simp [unsubscribe, hk, hroom]
      rw [hstep]
      refine .void fun room h' h => ?_
      obtain ⟨rfl, rfl⟩ := Prod.mk.inj (Option.some.inj (hk.symm.trans h))
      exact hroom
    | some i =>
      have hsome : s.handlers i ≠ [] := htidy.current roomId i hroom
      obtain ⟨r, hr⟩ := state_of_handlers hsome
      have hlt := (List.getElem?_eq_some_iff.mp hr).1
      have hset : (s.handlers i).filter (· ≠ handler) = (r.delete handler).handlers := by
        rw [handlers_of hr]
        rfl
      by_cases hempty : (r.delete handler).handlers = []
      · have hstep : s.unsubscribe k = ({ s with
            roomStates := s.roomStates.set i { r.delete handler with aborted := true }
            rooms := s.rooms.delete roomId }, [.abort i]) := by
          simp [unsubscribe, hk, hroom, hr, hempty]
        rw [hstep]
        obtain ⟨helements, hrounds⟩ := left_state hr handler true
          { s with
            roomStates := s.roomStates.set i { r.delete handler with aborted := true }
            rooms := s.rooms.delete roomId } rfl
        refine .left hk ⟨hroom, helements, fun room => ?_, List.length_set ..⟩ rfl hrounds
          (fun _ => rfl) fun hout _ => ?_
        · have hgone := helements i
          rw [if_pos rfl, hset, hempty] at hgone
          refine (s.rooms.get_delete roomId room).trans ?_
          by_cases hsame : room = roomId
          · rw [if_pos hsame, if_pos ⟨hsame, hgone⟩]
          · rw [if_neg hsame, if_neg fun h => hsame h.1]
            rfl
        · rw [← hset, filter_ne_self hout] at hempty
          exact absurd hempty hsome
      · have hstep : s.unsubscribe k =
            ({ s with roomStates := s.roomStates.set i (r.delete handler) }, []) := by
          simp [unsubscribe, hk, hroom, hr, hempty]
        rw [hstep]
        obtain ⟨helements, hrounds⟩ := left_state hr handler r.aborted
          { s with roomStates := s.roomStates.set i (r.delete handler) } rfl
        refine .left hk ⟨hroom, helements, fun room => ?_, List.length_set ..⟩ rfl hrounds
          (fun _ => rfl) fun hout hordered => ?_
        · have hmore := helements i
          rw [if_pos rfl, hset] at hmore
          rw [if_neg fun h => hempty (hmore.symm.trans h.2)]
          rfl
        · have hsame : s.roomStates.set i r = s.roomStates := by
            obtain ⟨hlt, rfl⟩ := List.getElem?_eq_some_iff.mp hr
            exact List.set_getElem_self hlt
          rw [delete_idle (hordered i r hr) (handlers_of hr ▸ hout), hsame]

/-! ## Steps -/

theorem own_roomId (hev : ev.room? = some i) (r : Room) (closed : Bool) :
    (r.step i closed ev).1.roomId = r.roomId := by
  have hfailed : ∀ abort, (r.failed closed abort).roomId = r.roomId := by
    intro abort
    unfold Room.failed
    split <;> rfl
  have hown := own_step hev r closed
  generalize r.step i closed ev = p at hown
  cases hown with
  | idle _ _ | invoked _ | done _ _ | stopped _ _ | polled _ => rfl
  | @fetched outcome _ =>
    cases outcome with
    | rejected abort => exact hfailed abort
    | responded ok =>
      unfold Room.fetched
      dsimp only
      split
      · rfl
      · exact hfailed false
  | @unread abort _ => exact hfailed abort
  | read _ _ =>
    unfold Room.read
    dsimp only
    split <;> rfl
  | item _ _ =>
    unfold Room.nextItem
    repeat' split
    all_goals rfl

theorem move_roomId {closed : Bool} {outs : List Out} (h : RoomMove i closed r ev r' outs) :
    r'.roomId = r.roomId := by
  cases h with
  | own hev => exact own_roomId hev r closed
  | still _ _ _ | left _ _ _ | aborted _ _ _ => rfl
  | joined _ =>
    unfold Room.add
    split <;> rfl

/-- An event of a room's loop leaves the sets alone. -/
theorem own_sets (hev : ev.room? = some i) : (s.step ev).1.setsOf = s.setsOf ∧
    (s.step ev).1.unsubscribes = s.unsubscribes := by
  cases hr : s.roomStates[i]? with
  | none =>
    rw [step_absent hr hev]
    exact ⟨rfl, rfl⟩
  | some r =>
    rw [step_own hr hev]
    have hhandlers : ∀ j, (((s.roomStates.set i (r.step i s.closed ev).1)[j]?).map
        Room.handlers).getD [] = s.handlers j := by
      intro j
      by_cases hij : i = j
      · subst hij
        rw [List.getElem?_set_self (List.getElem?_eq_some_iff.mp hr).1, handlers_of hr]
        exact own_handlers hev r s.closed
      · rw [List.getElem?_set_ne hij]
        rfl
    refine ⟨?_, rfl⟩
    unfold setsOf
    congr 1
    · exact funext hhandlers
    · exact List.length_set ..

theorem own_opMove (hev : ev.room? = some i) :
    OpMove s.setsOf s.unsubscribes none (s.step ev).1.setsOf (s.step ev).1.unsubscribes := by
  obtain ⟨hsets, hcalls⟩ := own_sets (s := s) hev
  rw [hsets, hcalls]
  exact .none

theorem step_sets (htidy : s.setsOf.Tidy) (hev : ev ≠ .close) :
    OpMove s.setsOf s.unsubscribes (s.op ev) (s.step ev).1.setsOf (s.step ev).1.unsubscribes := by
  cases ev with
  | close => exact absurd rfl hev
  | subscribe roomId handler =>
    have hcases := subscribe_cases htidy roomId handler
    simp only [step, op]
    generalize (s.subscribe roomId handler).1 = s' at hcases
    cases hcases with
    | refused hclosed =>
      rw [if_pos hclosed]
      exact .none
    | held hopen hi hmem =>
      rw [hopen]
      refine .member ?_
      rw [Sets.members_index (t := s.setsOf) hi]
      exact hmem
    | joined hopen hj hcalls _ =>
      rw [hopen, hcalls]
      exact .joined hj
  | unsubscribe k =>
    have hcases := unsubscribe_cases htidy k
    simp only [step, op]
    generalize s.unsubscribe k = p at hcases
    cases hcases with
    | void hvoid => exact .void hvoid
    | left hcall hl hcalls _ _ _ =>
      rw [hcalls]
      exact .left hcall hl
  | closeSettled =>
    simp only [step, closeSettled]
    repeat' split
    all_goals exact .none
  | fetched i _ | read i _ | turn i _ | elapsed i => exact own_opMove (i := i) rfl

/-- The sets are in order, and each was made for the room of its state. -/
structure Steady (s : HttpPollSignaling) : Prop where
  tidy : s.setsOf.Tidy
  ordered : s.AllOrdered
  held : ∀ (i : Nat) (r : Room), s.roomStates[i]? = some r → s.setsOf.Held r.roomId i

theorem step_steady (h : s.Steady) (hev : ev ≠ .close) : (s.step ev).1.Steady := by
  have hmove := (step_sets h.tidy hev).setMove
  refine ⟨hmove.tidy h.tidy, step_ordered h.ordered ev, fun i r' hr' => ?_⟩
  cases hwas : s.roomStates[i]? with
  | some r =>
    obtain ⟨r'', hr'', hroom⟩ := step_move hwas ev
    obtain rfl := Option.some.inj (hr'.symm.trans hr'')
    rw [move_roomId hroom]
    exact hmove.held h.tidy (h.held i r hwas)
  | none =>
    rcases step_new hwas ev with ⟨hnone, _⟩ | ⟨roomId, handler, hnew, _, _, hget⟩
    · rw [hnone] at hr'
      cases hr'
    · obtain rfl := Option.some.inj (hr'.symm.trans hnew)
      exact ⟨(List.getElem?_eq_some_iff.mp hnew).1, fun _ => hget⟩

/-- What the loop of a room does to its round. -/
theorem turn_roundMove {t : Sets JsString Nat} {starts : List Handed}
    {calls : List (Nat × Option Json)} (h : TurnMove r r' starts calls) (hordered : Ordered r)
    (hhandlers : r'.handlers = r.handlers) (hroom : r'.roomId = r.roomId)
    (hheld : t.Held r.roomId i) (helements : t.elements i = r.handlers) :
    RoundMove t t (r.round i) (r'.round i) (calls.map Prod.fst) (!starts.isEmpty) := by
  have hround : ∀ {turn : Option (Option Json × List Nat)}, r'.turn? = turn →
      r'.round i = turn.map fun t => ⟨r.roomId, i, t.2⟩ := by
    intro turn hturn
    rw [Room.round, hturn, hroom]
  cases h with
  | kept hturn _ =>
    rw [hround hturn]
    exact .same rfl
  | ended htodo hturn _ =>
    rw [hround hturn]
    rcases hwas : r.turn? with _ | ⟨message, todo⟩
    · rw [Room.round, hwas]
      exact .idle
    · obtain rfl : todo = [] := (todo_of_turn hwas).symm.trans htodo
      rw [Room.round, hwas]
      exact .ended rfl
  | invoked hbefore hturn _ =>
    rw [hround hturn, Room.round, hbefore]
    exact .called rfl
  | @started h htodo hturn _ =>
    rw [hround hturn, Option.map_some, ← helements]
    refine .started rfl (fun round hr => ?_) hheld
    obtain ⟨turn, hwas, rfl⟩ := Option.map_eq_some_iff.mp hr
    exact (todo_of_turn hwas).symm.trans htodo
  | joined _ hnow _ => exact absurd (hnow.symm.trans hhandlers) (by simp)
  | @left handler hnow hturn =>
    have hout : handler ∉ r.handlers := by
      rw [← hhandlers, hnow]
      simp
    have hsame : r'.turn? = r.turn? := by
      rw [hturn]
      rcases hwas : r.turn? with _ | ⟨message, todo⟩
      · rfl
      · have hall : r.todo = todo := todo_of_turn hwas
        have htodo : handler ∉ todo := fun hmem => hout (hordered.subset handler (hall ▸ hmem))
        rw [Option.map_some, filter_ne_self htodo]
    rw [hround hsame]
    exact .same rfl

theorem step_round (h : s.Steady) (hev : ev ≠ .close) (i : Nat) :
    RoundMove s.setsOf (s.step ev).1.setsOf (s.round i) ((s.step ev).1.round i)
      ((invokes i (s.step ev).2).map Prod.fst) (s.starts ev i) := by
  have hquiet : ev.room? ≠ some i → s.starts ev i = false := by
    intro hne
    rw [starts, started_other hne]
    rfl
  cases hroom : ev.room? with
  | some j =>
    obtain ⟨hsets, _⟩ := own_sets (s := s) hroom
    rw [hsets]
    cases hr : s.roomStates[i]? with
    | none =>
      have hround : s.round i = none := by rw [round, hr, Option.bind_none]
      rcases step_new hr ev with ⟨hnone, hinvokes, _⟩ | ⟨roomId, handler, hnew, _⟩
      · have hround' : (s.step ev).1.round i = none := by rw [round, hnone, Option.bind_none]
        rw [hround, hround', hinvokes, starts, started_none hr]
        exact .idle
      · have hlength := congrArg Sets.length hsets
        have hlt := (List.getElem?_eq_some_iff.mp hnew).1
        have hge := List.getElem?_eq_none_iff.mp hr
        simp only [setsOf] at hlength
        omega
    | some r =>
      obtain ⟨r', hr', hmove⟩ := step_move hr ev
      have hround : s.round i = r.round i := by rw [round, hr, Option.bind_some]
      have hround' : (s.step ev).1.round i = r'.round i := by rw [round, hr', Option.bind_some]
      have hhandlers : r'.handlers = r.handlers := by
        have hsame := congrFun (congrArg Sets.elements hsets) i
        rw [← handlers_of hr, ← handlers_of hr']
        exact hsame
      rw [hround, hround']
      exact turn_roundMove (move_turn hr hmove) (h.ordered i r hr) hhandlers (move_roomId hmove)
        (h.held i r hr) (handlers_of hr)
  | none =>
    rw [hquiet (by rw [hroom]; exact (Option.some_ne_none i).symm)]
    cases ev with
    | close => exact absurd rfl hev
    | subscribe roomId handler =>
      have hcases := subscribe_cases h.tidy roomId handler
      simp only [step]
      rw [subscribe_outs]
      generalize (s.subscribe roomId handler).1 = s' at hcases
      cases hcases with
      | refused _ => exact .same rfl
      | held _ _ _ => exact .same rfl
      | joined _ hj _ hrounds =>
        rw [hrounds]
        exact .of_joins hj
    | unsubscribe k =>
      have hcases := unsubscribe_cases h.tidy k
      simp only [step]
      generalize s.unsubscribe k = p at hcases
      cases hcases with
      | void _ => exact .same rfl
      | left _ hl _ hrounds hinvokes _ =>
        rw [hrounds, hinvokes]
        exact .of_leaves hl
    | closeSettled =>
      simp only [step, closeSettled]
      repeat' split
      all_goals exact .same rfl
    | _ => cases hroom

theorem client_laws : client.Laws Steady (· ≠ .close) where
  tidy h := h.tidy
  keeps h hev := step_steady h hev
  moves h hev := step_sets h.tidy hev
  idle := by
    intro s ev n h hop hout
    have hev : ev = .unsubscribe n := by
      cases ev with
      | unsubscribe k =>
        have hk : k = n := by simpa [client, op] using hop
        rw [hk]
      | subscribe roomId handler =>
        simp only [client, op] at hop
        split at hop <;> cases hop
      | _ => cases hop
    subst hev
    have hcases := unsubscribe_cases h.tidy n
    simp only [client, step]
    generalize s.unsubscribe n = p at hcases
    cases hcases with
    | void _ => rfl
    | left hcall hl _ _ _ hidle =>
      refine hidle (fun hmem => hout _ _ hcall ?_) h.ordered
      rw [client, Sets.members_index hl.key]
      exact hmem
  rounds := by
    intro s ev h hev i
    exact step_round h hev i

theorem client_fresh : client.Fresh create where
  calls := rfl
  members _ := rfl
  round _ := rfl

theorem create_steady : create.Steady where
  tidy := ⟨fun _ => List.nodup_nil, fun _ _ h => (by cases h), fun _ _ _ h => (by cases h),
    fun _ h => absurd rfl h⟩
  ordered _ _ h := by cases h
  held _ _ h := by cases h

/-- A run is faithful exactly when nobody undoes a call beside another one of its handler. -/
theorem faithful_iff {evs : List Event} (hopen : ∀ ev ∈ evs, ev ≠ .close) :
    client.Faithful create evs ↔ ∀ pre ev, pre ++ [ev] <+: evs →
      Alone (client.ledger create pre) (op (after step create pre) ev) := by
  rw [Client.faithful_iff client_laws create_steady client_fresh hopen]
  refine forall₃_congr fun pre ev _ => ⟨fun h => h.1, fun h => ⟨h, fun _ _ _ _ hdue => .inr hdue⟩⟩

end HttpPollSignaling

end Senn.HttpPoll
