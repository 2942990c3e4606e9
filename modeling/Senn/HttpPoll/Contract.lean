import Senn.HttpPoll.Polling

/-! # What the client keeps

All along a run, for each room state: what was handed on of its responses and to whom, the
cursor of its polls, what failing polls leave alone, and that `close` is the end of it. -/

namespace Senn.HttpPoll.HttpPollSignaling
open Senn.Js Senn.Lib Senn.Lib.Machine

variable {s : HttpPollSignaling} {i : Nat} {r r' : Room} {ev : Event} {outs : List Out}

/-! ## Items and cursors -/

theorem responses_none (h : s.roomStates[i]? = none) (ev : Event) : responses i s ev = [] := by
  unfold responses
  split
  · next hsome => rw [h] at hsome; cases hsome
  · rfl

theorem started_none (h : s.roomStates[i]? = none) (ev : Event) : started i s ev = [] := by
  unfold started
  split
  · next hsome => rw [h] at hsome; cases hsome
  · rfl

theorem fresh_abreast (roomId : JsString) (i handler : Nat) :
    Abreast (((Room.create roomId).poll i).1.add handler) [] [] :=
  ⟨rfl, ⟨[], rfl, rfl⟩, rfl⟩

/-- A room state is abreast of its responses; one that is not there yet had none. -/
theorem run_abreast (i : Nat) (evs : List Event) :
    ((after step create evs).roomStates[i]? = none ∧
      noted step (responses i) create evs = [] ∧ noted step (started i) create evs = []) ∨
    ∃ r, (after step create evs).roomStates[i]? = some r ∧
      Abreast r (noted step (responses i) create evs) (noted step (started i) create evs) := by
  induction evs using List.reverseRecOn with
  | nil => exact .inl ⟨rfl, rfl, rfl⟩
  | append_singleton evs ev ih =>
    simp only [noted_append, after_append, after_cons, after_nil, noted_singleton]
    rcases ih with ⟨hnone, hresponses, hstarted⟩ | ⟨r, hr, habreast⟩
    · rw [hresponses, hstarted, responses_none hnone, started_none hnone]
      rcases step_new hnone ev with ⟨hnone', _⟩ | ⟨roomId, handler, hr, _⟩
      · exact .inl ⟨hnone', rfl, rfl⟩
      · exact .inr ⟨_, hr, fresh_abreast roomId i handler⟩
    · obtain ⟨r', hr', hmove⟩ := step_move hr ev
      exact .inr ⟨r', hr', move_abreast habreast hr hmove⟩

/-- The first items of the responses, those that have come up, were handed on once each. -/
theorem run_items (i : Nat) (evs : List Event) :
    ∃ done, done <+: (noted step (responses i) create evs).flatMap bodyItems ∧
      noted step (started i) create evs = firstOccurrences (done.filterMap handed?) ∧
      ∀ r, (after step create evs).roomStates[i]? = some r → r.Idle →
        done = (noted step (responses i) create evs).flatMap bodyItems := by
  rcases run_abreast i evs with ⟨hnone, hresponses, hstarted⟩ | ⟨r, hr, habreast⟩
  · refine ⟨[], List.nil_prefix, hstarted, fun r hr => ?_⟩
    rw [hnone] at hr
    cases hr
  · obtain ⟨done, hdone, hhanded⟩ := habreast.items
    refine ⟨done, ⟨r.rest, hdone.symm⟩, hhanded, fun r' hr' hidle => ?_⟩
    obtain rfl := Option.some.inj (hr.symm.trans hr')
    rw [hdone, hidle.rest, List.append_nil]

/-- The room is about to poll. -/
def polls (s : HttpPollSignaling) (r : Room) : Bool :=
  match r.stage with
  | .delaying => !(s.closed || r.aborted)
  | _ => false

/-- A room polls with a cursor that is a well-formed string, and `close` is called again
only after the first call has resolved. -/
def Orderly (s : HttpPollSignaling) : Event → Prop
  | .elapsed i => ∀ r ∈ s.roomStates[i]?, s.polls r = true → wellFormed r.cursor = true
  | .close => s.closing = none
  | _ => True

instance Orderly.decidable (s : HttpPollSignaling) : ∀ ev, Decidable (s.Orderly ev)
  | .elapsed i => inferInstanceAs
      (Decidable (∀ r ∈ s.roomStates[i]?, s.polls r = true → wellFormed r.cursor = true))
  | .close => inferInstanceAs (Decidable (s.closing = none))
  | .subscribe _ _ | .unsubscribe _ | .closeSettled | .fetched _ _ | .read _ _ | .turn _ _ =>
    inferInstanceAs (Decidable True)

theorem formGet_query {st : RoomState} (h : wellFormed st.cursor = true) :
    formGet st.query (js "since") = if st.cursor = [] then none else some st.cursor := by
  unfold RoomState.query
  split
  · rfl
  · exact formGet_formParam (by decide) h

theorem move_polls (hmove : RoomMove i s.closed r ev r' outs) {query : JsString}
    (hquery : query ∈ queries i outs) : ev = .elapsed i ∧ s.polls r = true := by
  cases hmove with
  | own hev =>
    unfold Room.step at hquery
    split at hquery
    · cases hquery
    · cases hquery
    · next throws _ =>
      unfold Room.turn at hquery
      split at hquery
      · cases throws <;> cases hquery
      all_goals cases hquery
    · next hstage =>
      unfold Room.elapsed at hquery
      split at hquery
      · cases hquery
      · next hgoes =>
        refine ⟨congrArg Event.elapsed (Option.some.inj hev), ?_⟩
        rw [polls, hstage]
        simpa using hgoes
    · cases hquery
  | still _ _ hnone | left _ _ hnone | aborted _ _ hnone =>
    rw [hnone] at hquery
    cases hquery
  | joined _ => cases hquery

/-- Each poll sends the cursor of the responses before it. -/
theorem run_cursor {i : Nat} {pre : List Event} {ev : Event}
    (horderly : (after step create pre).Orderly ev) {query : JsString}
    (hquery : query ∈ queries i ((after step create pre).step ev).2) :
    formGet query (js "since") =
      let cursor := lastCursor (noted step (responses i) create pre)
      if cursor = [] then none else some cursor := by
  rcases run_abreast i pre with ⟨hnone, hresponses, _⟩ | ⟨r, hr, habreast⟩
  · rcases step_new hnone ev with ⟨_, _, hqueries⟩ | ⟨roomId, handler, _, _, hqueries, _⟩
    · rw [hqueries] at hquery
      cases hquery
    · rw [hqueries] at hquery
      rw [List.mem_singleton.mp hquery, hresponses]
      rfl
  · obtain ⟨r', _, hmove⟩ := step_move hr ev
    obtain ⟨hidle, rfl⟩ := move_queries hmove query hquery
    obtain ⟨rfl, hpolls⟩ := move_polls hmove hquery
    have hcursor : lastCursor (noted step (responses i) create pre) = r.cursor := by
      rw [habreast.cursor, hidle.nextCursor]
    rw [hcursor]
    exact formGet_query (horderly r hr hpolls)

/-! ## Handlers -/

/-- The handlers of a room are a set, and the ones yet to be called are among them. -/
structure Ordered (r : Room) : Prop where
  handlers : r.handlers.Nodup
  todo : r.todo.Nodup
  subset : ∀ handler ∈ r.todo, handler ∈ r.handlers

theorem todo_of_turn {turn : Option (Option Json × List Nat)} (h : r.turn? = turn) :
    r.todo = (turn.map Prod.snd).getD [] := by
  rw [Room.todo, h]

theorem todo_joined {handler : Nat}
    (h : r'.turn? = r.turn?.map fun t => (t.1, t.2 ++ [handler])) :
    (r.todo = [] ∧ r'.todo = []) ∨ r'.todo = r.todo ++ [handler] := by
  rcases hwas : r.turn? with _ | ⟨message, todo⟩
  · have hafter : r'.turn? = none := by rw [h, hwas]; rfl
    exact .inl ⟨todo_of_turn hwas, todo_of_turn hafter⟩
  · have hafter : r'.turn? = some (message, todo ++ [handler]) := by rw [h, hwas]; rfl
    rw [todo_of_turn hafter, todo_of_turn hwas]
    exact .inr rfl

theorem todo_left {handler : Nat}
    (h : r'.turn? = r.turn?.map fun t => (t.1, t.2.filter (· ≠ handler))) :
    r'.todo = r.todo.filter (· ≠ handler) := by
  rcases hwas : r.turn? with _ | ⟨message, todo⟩
  · have hafter : r'.turn? = none := by rw [h, hwas]; rfl
    rw [todo_of_turn hafter, todo_of_turn hwas]
    rfl
  · have hafter : r'.turn? = some (message, todo.filter (· ≠ handler)) := by rw [h, hwas]; rfl
    rw [todo_of_turn hafter, todo_of_turn hwas]
    rfl

theorem TurnMove.ordered {starts : List Handed} {calls : List (Nat × Option Json)}
    (h : TurnMove r r' starts calls) (hr : Ordered r) : Ordered r' := by
  cases h with
  | kept hturn hhandlers =>
    have htodo : r'.todo = r.todo := todo_of_turn hturn
    exact ⟨hhandlers ▸ hr.handlers, htodo ▸ hr.todo, by rw [htodo, hhandlers]; exact hr.subset⟩
  | ended _ hturn hhandlers =>
    have htodo : r'.todo = [] := todo_of_turn hturn
    exact ⟨hhandlers ▸ hr.handlers, by simp [htodo], by simp [htodo]⟩
  | @invoked message handler todo hbefore hturn hhandlers =>
    have hwas : r.todo = handler :: todo := todo_of_turn hbefore
    have htodo : r'.todo = todo := todo_of_turn hturn
    have hnodup := hr.todo
    have hsubset := hr.subset
    rw [hwas] at hnodup hsubset
    refine ⟨hhandlers ▸ hr.handlers, ?_, ?_⟩
    · rw [htodo]
      exact (List.nodup_cons.mp hnodup).2
    · rw [htodo, hhandlers]
      exact fun handler hmem => hsubset handler (.tail _ hmem)
  | started _ hturn hhandlers =>
    have htodo : r'.todo = r.handlers := todo_of_turn hturn
    exact ⟨hhandlers ▸ hr.handlers, htodo ▸ hr.handlers, by rw [htodo, hhandlers]; exact fun _ h => h⟩
  | @joined handler hnew hhandlers hturn =>
    have hnodup : (r.handlers ++ [handler]).Nodup := by
      refine List.nodup_append.mpr ⟨hr.handlers, List.nodup_singleton _, ?_⟩
      rintro a ha b hb rfl
      exact hnew (List.mem_singleton.mp hb ▸ ha)
    rcases todo_joined hturn with ⟨_, htodo⟩ | htodo
    · exact ⟨hhandlers ▸ hnodup, by simp [htodo], by simp [htodo]⟩
    · refine ⟨hhandlers ▸ hnodup, ?_, ?_⟩
      · rw [htodo]
        refine List.nodup_append.mpr ⟨hr.todo, List.nodup_singleton _, ?_⟩
        rintro a ha b hb rfl
        exact hnew (List.mem_singleton.mp hb ▸ hr.subset a ha)
      · rw [htodo, hhandlers]
        exact List.forall_mem_append.mpr ⟨fun a ha => List.mem_append_left _ (hr.subset a ha),
          by simp⟩
  | @left handler hhandlers hturn =>
    have htodo := todo_left hturn
    refine ⟨hhandlers ▸ hr.handlers.filter _, htodo ▸ hr.todo.filter _, ?_⟩
    intro a ha
    rw [htodo] at ha
    rw [hhandlers]
    obtain ⟨hmem, hne⟩ := List.mem_filter.mp ha
    exact List.mem_filter.mpr ⟨hr.subset a hmem, hne⟩

theorem create_ordered (roomId : JsString) (i : Nat) :
    Ordered ((Room.create roomId).poll i).1 :=
  ⟨List.nodup_nil, List.nodup_nil, fun _ h => by cases h⟩

/-- Every room of the client is in order. -/
def AllOrdered (s : HttpPollSignaling) : Prop :=
  ∀ (i : Nat) (r : Room), s.roomStates[i]? = some r → Ordered r

theorem step_ordered (h : s.AllOrdered) (ev : Event) : (s.step ev).1.AllOrdered := by
  intro i r' hr'
  cases hr : s.roomStates[i]? with
  | some r =>
    obtain ⟨r'', hr'', hmove⟩ := step_move hr ev
    obtain rfl := Option.some.inj (hr'.symm.trans hr'')
    exact (move_turn hr hmove).ordered (h i r hr)
  | none =>
    rcases step_new hr ev with ⟨hnone, _⟩ | ⟨roomId, handler, hnew, _⟩
    · rw [hnone] at hr'
      cases hr'
    · obtain rfl := Option.some.inj (hr'.symm.trans hnew)
      exact (add_turn _ handler).ordered (create_ordered roomId i)

theorem run_ordered (evs : List Event) : (after step create evs).AllOrdered :=
  after_inv (P := AllOrdered) (fun _ ev h => step_ordered h ev) (fun i r hr => by cases hr) evs

/-- The handlers yet to be called of a room. -/
def todo (s : HttpPollSignaling) (i : Nat) : List Nat :=
  ((s.roomStates[i]?).map Room.todo).getD []

theorem handlers_of (hr : s.roomStates[i]? = some r) : s.handlers i = r.handlers := by
  simp [handlers, hr]

theorem todo_of (hr : s.roomStates[i]? = some r) : s.todo i = r.todo := by simp [todo, hr]

theorem TurnMove.calls_todo {starts : List Handed} {calls : List (Nat × Option Json)}
    (h : TurnMove r r' starts calls) : ∀ call ∈ calls, call.1 ∈ r.todo := by
  intro call hcall
  cases h with
  | invoked hbefore _ _ =>
    rw [List.mem_singleton.mp hcall, todo_of_turn hbefore]
    exact .head _
  | _ => cases hcall

/-- The message of the turn a room is at is the one of the item it started last. -/
theorem TurnMove.current {starts : List Handed} {calls : List (Nat × Option Json)}
    (h : TurnMove r r' starts calls) {handed : List Handed}
    (hr : ∀ t, r.turn? = some t → ∃ h, handed.getLast? = some h ∧ t.1 = h.2) :
    (∀ call ∈ calls, ∃ h, handed.getLast? = some h ∧ call.2 = h.2) ∧
      ∀ t, r'.turn? = some t → ∃ h, (handed ++ starts).getLast? = some h ∧ t.1 = h.2 := by
  cases h with
  | kept hturn _ =>
    refine ⟨fun _ hcall => (by cases hcall), ?_⟩
    rwa [hturn, List.append_nil]
  | ended _ hturn _ =>
    refine ⟨fun _ hcall => (by cases hcall), fun t ht => ?_⟩
    rw [hturn] at ht
    cases ht
  | @invoked message handler todo hbefore hturn _ =>
    have hcurrent := hr _ hbefore
    refine ⟨fun call hcall => ?_, fun t ht => ?_⟩
    · rw [List.mem_singleton.mp hcall]
      exact hcurrent
    · obtain rfl := Option.some.inj (hturn.symm.trans ht)
      rwa [List.append_nil]
  | @started h _ hturn _ =>
    refine ⟨fun _ hcall => (by cases hcall), fun t ht => ?_⟩
    obtain rfl := Option.some.inj (hturn.symm.trans ht)
    exact ⟨h, List.getLast?_concat .., rfl⟩
  | joined _ _ hturn | left _ hturn =>
    refine ⟨fun _ hcall => (by cases hcall), fun t ht => ?_⟩
    rw [hturn] at ht
    obtain ⟨t', ht', rfl⟩ := Option.map_eq_some_iff.mp ht
    rw [List.append_nil]
    exact hr t' ht'

theorem run_current (i : Nat) (evs : List Event) {r : Room}
    (hr : (after step create evs).roomStates[i]? = some r) {t : Option Json × List Nat}
    (ht : r.turn? = some t) :
    ∃ h, (noted step (started i) create evs).getLast? = some h ∧ t.1 = h.2 := by
  induction evs using List.reverseRecOn generalizing r t with
  | nil => cases hr
  | append_singleton evs ev ih =>
    simp only [noted_append, after_append, after_cons, after_nil, noted_singleton] at hr ⊢
    cases hwas : (after step create evs).roomStates[i]? with
    | some r₀ =>
      obtain ⟨r', hr', hmove⟩ := step_move hwas ev
      obtain rfl := Option.some.inj (hr.symm.trans hr')
      exact ((move_turn hwas hmove).current fun t ht => ih hwas ht).2 t ht
    | none =>
      rcases step_new hwas ev with ⟨hnone, _⟩ | ⟨roomId, handler, hnew, _⟩
      · rw [hnone] at hr
        cases hr
      · obtain rfl := Option.some.inj (hr.symm.trans hnew)
        cases ht

/-- A handler that is called is subscribed, and gets the message of the item started last. -/
theorem run_called {i : Nat} {pre : List Event} {ev : Event} {call : Nat × Option Json}
    (hcall : call ∈ invokes i ((after step create pre).step ev).2) :
    call.1 ∈ (after step create pre).handlers i ∧
      ∃ h, (noted step (started i) create pre).getLast? = some h ∧ call.2 = h.2 := by
  cases hr : (after step create pre).roomStates[i]? with
  | none =>
    rcases step_new hr ev with ⟨_, hinvokes, _⟩ | ⟨roomId, handler, _, hinvokes, _⟩ <;>
      (rw [hinvokes] at hcall; cases hcall)
  | some r =>
    obtain ⟨r', _, hmove⟩ := step_move hr ev
    have hturn := move_turn hr hmove
    rw [handlers_of hr]
    exact ⟨(run_ordered pre i r hr).subset _ (hturn.calls_todo call hcall),
      (hturn.current fun t ht => run_current i pre hr ht).1 call hcall⟩

/-- A handler that stays subscribed is called, or is yet to be. -/
theorem TurnMove.count {calls : List (Nat × Option Json)} (h : TurnMove r r' [] calls)
    {handler : Nat} (hsubscribed : handler ∈ r.handlers) (hstays : handler ∈ r'.handlers) :
    (calls.map Prod.fst).count handler + r'.todo.count handler = r.todo.count handler := by
  cases h with
  | kept hturn _ =>
    have htodo : r'.todo = r.todo := todo_of_turn hturn
    simp [htodo]
  | ended htodo hturn _ =>
    have hafter : r'.todo = [] := todo_of_turn hturn
    simp [htodo, hafter]
  | @invoked message called todo hbefore hturn _ =>
    have hwas : r.todo = called :: todo := todo_of_turn hbefore
    have hafter : r'.todo = todo := todo_of_turn hturn
    rw [hwas, hafter, List.count_cons]
    simp [List.count_cons, Nat.add_comm]
  | @joined joined hnew hhandlers hturn =>
    have hne : joined ≠ handler := by
      rintro rfl
      exact hnew hsubscribed
    rcases todo_joined hturn with ⟨hwas, htodo⟩ | htodo
    · simp [hwas, htodo]
    · simp [htodo, List.count_append, hne]
  | @left left hhandlers hturn =>
    have hne : handler ≠ left := by
      rw [hhandlers] at hstays
      simpa using (List.mem_filter.mp hstays).2
    simp [todo_left hturn, List.count_filter, hne]

/-- Until the next item is started, a handler that stays subscribed is called as often as it
was yet to be called. -/
theorem run_count {handler : Nat} {mid : List Event} :
    ∀ {s : HttpPollSignaling} {r : Room}, s.roomStates[i]? = some r →
      noted step (started i) s mid = [] →
      (∀ p, p <+: mid → handler ∈ (after step s p).handlers i) →
      ((invokes i (outputs step s mid)).map Prod.fst).count handler +
        ((after step s mid).todo i).count handler = r.todo.count handler := by
  induction mid with
  | nil =>
    intro s r hr _ _
    simp [todo_of hr]
  | cons ev mid ih =>
    intro s r hr hquiet hstays
    obtain ⟨hnone, hlater⟩ := List.append_eq_nil_iff.mp hquiet
    obtain ⟨r', hr', hmove⟩ := step_move hr ev
    have hturn := move_turn hr hmove
    rw [hnone] at hturn
    have hbefore : handler ∈ r.handlers := handlers_of hr ▸ hstays [] List.nil_prefix
    have hafter : handler ∈ r'.handlers :=
      handlers_of hr' ▸ hstays [ev] (List.prefix_append [ev] mid)
    have hone := hturn.count hbefore hafter
    have hrest := ih hr' hlater fun p hp => hstays (ev :: p) (List.cons_prefix_cons.mpr ⟨rfl, hp⟩)
    rw [outputs_cons, invokes_append, List.map_append, List.count_append, after_cons]
    omega

/-- The turn of a new item is for the handlers that are subscribed. -/
theorem run_turn {i : Nat} {pre mid : List Event} {ev : Event} {h : Handed} {handler : Nat}
    (hstart : started i (after step create pre) ev = [h])
    (hquiet : noted step (started i) (after step create (pre ++ [ev])) mid = [])
    (hstays : ∀ p, p <+: mid → handler ∈ (after step create (pre ++ ev :: p)).handlers i) :
    ((invokes i (outputs step (after step create (pre ++ [ev])) mid)).map Prod.fst).count handler +
      ((after step create (pre ++ ev :: mid)).todo i).count handler = 1 := by
  cases hr : (after step create pre).roomStates[i]? with
  | none =>
    rw [started_none hr] at hstart
    cases hstart
  | some r =>
    obtain ⟨r', hr', hmove⟩ := step_move hr ev
    have hturn := move_turn hr hmove
    rw [hstart] at hturn
    have hafter : (after step create (pre ++ [ev])).roomStates[i]? = some r' := by
      rw [after_append]
      exact hr'
    have hall : r'.todo = r'.handlers ∧ r'.handlers.Nodup := by
      have hnodup := (run_ordered (pre ++ [ev]) i r' hafter).handlers
      generalize invokes i _ = calls at hturn
      cases hturn with
      | started _ hnow hhandlers =>
        have htodo : r'.todo = r.handlers := todo_of_turn hnow
        exact ⟨htodo.trans hhandlers.symm, hnodup⟩
    have hmem : handler ∈ r'.handlers := by
      rw [← handlers_of hafter]
      exact hstays [] List.nil_prefix
    have hlater : ∀ p, p <+: mid →
        handler ∈ (after step (after step create (pre ++ [ev])) p).handlers i := by
      intro p hp
      have hp' := hstays p hp
      rwa [List.append_cons, after_append] at hp'
    have hcount := run_count hafter hquiet hlater
    rw [hall.1, List.count_eq_one_of_mem hall.2 hmem, ← after_append] at hcount
    rw [List.append_cons pre ev mid]
    exact hcount

/-! ## `close` -/

/-- What keeps the client from calling handlers once it is closed: the rooms with handlers
are open, awaited by `close`, or done. -/
structure Held (s : HttpPollSignaling) : Prop where
  open_ : s.closed = false → s.closing = none
  shut : s.closed = true → s.rooms = .empty
  held : ∀ (i : Nat) (r : Room), s.roomStates[i]? = some r → r.handlers ≠ [] →
    (∃ roomId, s.rooms.get roomId = some i) ∨ (∃ live ∈ s.closing, i ∈ live) ∨
      r.stage = .returned

/-- A step that gives no room handlers and takes none back from `returned` keeps it. -/
theorem Held.kept {s' : HttpPollSignaling} (h : Held s) (hclosed : s'.closed = s.closed)
    (hrooms : s'.rooms = s.rooms) (hclosing : s'.closing = s.closing)
    (hstates : ∀ (i : Nat) (r' : Room), s'.roomStates[i]? = some r' → r'.handlers ≠ [] →
      ∃ r, s.roomStates[i]? = some r ∧ r.handlers ≠ [] ∧
        (r.stage = .returned → r'.stage = .returned)) : Held s' := by
  refine ⟨by rw [hclosed, hclosing]; exact h.open_, by rw [hclosed, hrooms]; exact h.shut, ?_⟩
  intro i r' hr' hhandlers
  obtain ⟨r, hr, hhad, hreturned⟩ := hstates i r' hr' hhandlers
  rw [hrooms, hclosing]
  exact (h.held i r hr hhad).imp_right (Or.imp_right hreturned)

theorem own_handlers (hev : ev.room? = some i) (r : Room) (closed : Bool) :
    (r.step i closed ev).1.handlers = r.handlers := by
  have hown := own_step hev r closed
  generalize r.step i closed ev = p at hown
  cases hown with
  | idle _ _ => rfl
  | @fetched outcome _ => exact fetched_handlers r closed outcome
  | @unread abort _ => exact failed_handlers r closed abort
  | @read json _ _ => exact (read_turn r closed json).2
  | invoked _ => rfl
  | item _ _ =>
    unfold Room.nextItem
    repeat' split
    all_goals rfl
  | done _ _ => rfl
  | stopped _ _ => rfl
  | polled _ => rfl

theorem own_returned (h : r.stage = .returned) (i : Nat) (closed : Bool) (ev : Event) :
    r.step i closed ev = (r, []) := by
  unfold Room.step
  rw [h]

theorem own_held (h : Held s) {i : Nat} (hev : ev.room? = some i) : Held (s.step ev).1 := by
  cases hr : s.roomStates[i]? with
  | none =>
    rwa [step_absent hr hev]
  | some r =>
    rw [step_own hr hev]
    refine h.kept rfl rfl rfl fun j r' hr' hhandlers => ?_
    simp only [List.getElem?_set] at hr'
    split at hr'
    · next hij =>
      subst hij
      split at hr'
      · obtain rfl := Option.some.inj hr'
        rw [own_handlers hev] at hhandlers
        refine ⟨r, hr, hhandlers, fun hreturned => ?_⟩
        rwa [own_returned hreturned]
      · cases hr'
    · exact ⟨r', hr', hhandlers, id⟩

theorem subscribe_held (h : Held s) (roomId : JsString) (handler : Nat) :
    Held (s.subscribe roomId handler).1 := by
  unfold subscribe
  split
  · exact h
  · next hopen =>
    rw [Bool.not_eq_true] at hopen
    split
    · next j hj =>
      refine ⟨h.open_, h.shut, fun i r hr hhandlers => ?_⟩
      by_cases hij : j = i
      · subst hij
        exact .inl ⟨roomId, hj⟩
      · exact h.held i r (by simpa [List.getElem?_modify, hij] using hr) hhandlers
    · next hnone =>
      refine ⟨h.open_, fun hclosed => ?_, fun i r hr hhandlers => ?_⟩
      · change s.closed = true at hclosed
        rw [hopen] at hclosed
        cases hclosed
      · by_cases hi : i < s.roomStates.length
        · have hold : s.roomStates[i]? = some r := by
            simpa [List.getElem?_append_left hi] using hr
          rcases h.held i r hold hhandlers with ⟨roomId', hget⟩ | hlater
          · have hne : roomId' ≠ roomId := by
              rintro rfl
              rw [hnone] at hget
              cases hget
            exact .inl ⟨roomId', (s.rooms.get_set_of_ne _ hne).trans hget⟩
          · exact .inr hlater
        · have heq : i = s.roomStates.length := by
            have hlt := (List.getElem?_eq_some_iff.mp hr).1
            rw [List.length_append, List.length_singleton] at hlt
            omega
          subst heq
          exact .inl ⟨roomId, s.rooms.get_set_self _ _⟩

theorem unsubscribe_held (h : Held s) (k : Nat) : Held (s.unsubscribe k).1 := by
  unfold unsubscribe
  split
  · exact h
  split
  · exact h
  next roomId handler _ _ j hj =>
    split
    · exact h
    · next room hroom =>
      dsimp only
      split
      · next hempty =>
        refine ⟨h.open_, fun hclosed => ?_, fun i r hr hhandlers => ?_⟩
        · have hrooms := h.shut hclosed
          rw [hrooms] at hj
          cases hj
        · have hij : j ≠ i := by
            rintro rfl
            rw [List.getElem?_set_self (List.getElem?_eq_some_iff.mp hroom).1] at hr
            obtain rfl := Option.some.inj hr
            exact hhandlers hempty
          rcases h.held i r (by simpa [List.getElem?_set, hij] using hr) hhandlers with
            ⟨roomId', hget⟩ | hlater
          · have hne : roomId' ≠ roomId := by
              rintro rfl
              exact hij (Option.some.inj (hj.symm.trans hget))
            exact .inl ⟨roomId', (s.rooms.get_delete_of_ne hne).trans hget⟩
          · exact .inr hlater
      · refine ⟨h.open_, h.shut, fun i r hr hhandlers => ?_⟩
        by_cases hij : j = i
        · subst hij
          exact .inl ⟨roomId, hj⟩
        · exact h.held i r (by simpa [List.getElem?_set, hij] using hr) hhandlers

theorem close_held (h : Held s) : Held s.close.1 := by
  unfold close
  split
  · exact h
  · next hopen =>
    rw [Bool.not_eq_true] at hopen
    refine ⟨fun hclosed => (by cases hclosed), fun _ => rfl, fun i r' hr' hhandlers => ?_⟩
    simp only [List.getElem?_mapIdx, Option.map_eq_some_iff] at hr'
    obtain ⟨r, hr, rfl⟩ := hr'
    have hsame : r.handlers ≠ [] ∧ (r.stage = .returned → (if i ∈ s.rooms.entries.map Prod.snd then
        { r with aborted := true } else r).stage = .returned) := by
      split at hhandlers
      · next hlive =>
        rw [if_pos hlive]
        exact ⟨hhandlers, id⟩
      · next hlive =>
        rw [if_neg hlive]
        exact ⟨hhandlers, id⟩
    rcases h.held i r hr hsame.1 with ⟨roomId, hget⟩ | ⟨live, hlive, _⟩ | hreturned
    · have hmem := List.mem_map_of_mem (f := Prod.snd) (InsMap.get_eq_some_iff.mp hget)
      exact .inr (.inl ⟨_, rfl, hmem⟩)
    · rw [h.open_ hopen] at hlive
      cases hlive
    · exact .inr (.inr (hsame.2 hreturned))

theorem closeSettled_held (h : Held s) : Held s.closeSettled.1 := by
  unfold closeSettled
  split
  · exact h
  · next live hclosing =>
    split
    · next hall =>
      refine ⟨fun _ => rfl, h.shut, fun i r hr hhandlers => ?_⟩
      rcases h.held i r hr hhandlers with hroom | ⟨live', hlive', hi⟩ | hreturned
      · exact .inl hroom
      · obtain rfl := Option.some.inj (hclosing.symm.trans hlive')
        have hdone := List.all_eq_true.mp hall i hi
        change s.roomStates[i]? = some r at hr
        unfold returned at hdone
        rw [hr] at hdone
        cases hstage : r.stage <;> simp [hstage] at hdone
        exact .inr (.inr rfl)
      · exact .inr (.inr hreturned)
    · exact h

theorem step_held (h : Held s) (ev : Event) : Held (s.step ev).1 := by
  cases ev with
  | subscribe roomId handler => exact subscribe_held h roomId handler
  | unsubscribe k => exact unsubscribe_held h k
  | close => exact close_held h
  | closeSettled => exact closeSettled_held h
  | fetched i _ | read i _ | turn i _ | elapsed i => exact own_held h rfl

theorem run_held (evs : List Event) : Held (after step create evs) :=
  after_inv (P := Held) (fun _ ev h => step_held h ev)
    ⟨fun _ => rfl, fun h => (by cases h), fun i r hr => by cases hr⟩ evs

/-- `close` has resolved. -/
def Shut (s : HttpPollSignaling) : Prop := s.closed = true ∧ s.closing = none

theorem Held.silent (h : Held s) (hordered : s.AllOrdered) (hshut : s.Shut) (i : Nat) (ev : Event) :
    invokes i (s.step ev).2 = [] := by
  refine List.eq_nil_iff_forall_not_mem.mpr fun call hcall => ?_
  cases hr : s.roomStates[i]? with
  | none =>
    rcases step_new hr ev with ⟨_, hinvokes, _⟩ | ⟨_, _, _, hinvokes, _⟩ <;>
      (rw [hinvokes] at hcall; cases hcall)
  | some r =>
    obtain ⟨r', _, hmove⟩ := step_move hr ev
    have htodo := (move_turn hr hmove).calls_todo call hcall
    have hhandlers : r.handlers ≠ [] :=
      List.ne_nil_of_mem ((hordered i r hr).subset _ htodo)
    rcases h.held i r hr hhandlers with ⟨roomId, hget⟩ | ⟨live, hlive, _⟩ | hreturned
    · rw [h.shut hshut.1] at hget
      cases hget
    · rw [hshut.2] at hlive
      cases hlive
    · simp [Room.todo, Room.turn?, hreturned] at htodo

theorem step_shut (h : s.Shut) (ev : Event) : (s.step ev).1.Shut := by
  obtain ⟨hclosed, hclosing⟩ := h
  cases ev with
  | subscribe roomId handler => simpa [step, subscribe, hclosed] using ⟨hclosed, hclosing⟩
  | close => simpa [step, close, hclosed] using ⟨hclosed, hclosing⟩
  | closeSettled => simpa [step, closeSettled, hclosing] using ⟨hclosed, hclosing⟩
  | unsubscribe k =>
    simp only [step, unsubscribe]
    repeat' split
    all_goals exact ⟨hclosed, hclosing⟩
  | fetched i _ | read i _ | turn i _ | elapsed i =>
    simp only [step]
    split <;> exact ⟨hclosed, hclosing⟩

theorem step_resolves (r : Room) (i : Nat) (closed : Bool) (ev : Event) :
    Out.closeResolved ∉ (r.step i closed ev).2 := by
  unfold Room.step
  split
  · exact List.not_mem_nil
  · exact List.not_mem_nil
  · next throws _ =>
    unfold Room.turn
    split
    · cases throws <;> simp
    all_goals exact List.not_mem_nil
  · unfold Room.elapsed
    split
    · exact List.not_mem_nil
    · simp [Room.poll]
  · exact List.not_mem_nil

theorem resolved_shut (h : Held s) (horderly : s.Orderly ev)
    (hout : Out.closeResolved ∈ (s.step ev).2) : (s.step ev).1.Shut := by
  cases ev with
  | subscribe roomId handler =>
    simp only [step, subscribe] at hout
    split at hout
    · simp at hout
    · split at hout <;> simp [Room.poll] at hout
  | unsubscribe k =>
    simp only [step, unsubscribe] at hout
    repeat' split at hout
    all_goals simp at hout
  | close =>
    simp only [step, close] at hout ⊢
    split
    · next hclosed => exact ⟨hclosed, horderly⟩
    · next hopen =>
      rw [if_neg hopen] at hout
      obtain ⟨i, _, hi⟩ := List.mem_map.mp hout
      cases hi
  | closeSettled =>
    simp only [step, closeSettled] at hout ⊢
    split at hout
    · cases hout
    · next live hlive =>
      split at hout
      · next hall =>
        have hclosed : s.closed = true := by
          refine eq_true_of_ne_false fun hopen => ?_
          rw [h.open_ hopen] at hlive
          cases hlive
        simp only [hall, if_true]
        exact ⟨hclosed, rfl⟩
      · cases hout
  | fetched i _ | read i _ | turn i _ | elapsed i =>
    simp only [step] at hout
    split at hout
    · cases hout
    · exact absurd hout (step_resolves _ i _ _)

theorem run_shut {evs : List Event} (horderly : Guarded step Orderly create evs)
    (hout : Out.closeResolved ∈ outputs step create evs) : (after step create evs).Shut := by
  induction evs using List.reverseRecOn with
  | nil => cases hout
  | append_singleton evs ev ih =>
    obtain ⟨hguard, hlast, -⟩ := guarded_append.mp horderly
    rw [outputs_append, outputs_cons, outputs_nil, List.append_nil] at hout
    rw [after_append]
    rcases List.mem_append.mp hout with hbefore | hnow
    · exact step_shut (ih hguard hbefore) ev
    · exact resolved_shut (run_held evs) hlast hnow

/-- No handler is called once `close` has resolved. -/
theorem run_silent {pre mid : List Event} (horderly : Guarded step Orderly create pre)
    (hout : Out.closeResolved ∈ outputs step create pre) (i : Nat) :
    invokes i (outputs step (after step create pre) mid) = [] := by
  have hshut := run_shut horderly hout
  induction mid using List.reverseRecOn with
  | nil => rfl
  | append_singleton mid ev ih =>
    have hlater : (after step create (pre ++ mid)).Shut := by
      rw [after_append]
      exact after_inv (P := Shut) (fun _ ev h => step_shut h ev) hshut mid
    have hsilent := (run_held (pre ++ mid)).silent (run_ordered _) hlater i ev
    rw [after_append] at hsilent
    rw [outputs_append, outputs_cons, outputs_nil, List.append_nil, invokes_append, ih, hsilent]
    rfl

/-! ## The contract -/

/-- A poll that fails, or whose response is malformed. -/
def Failed : Event → Prop
  | .fetched _ (.rejected _) | .fetched _ (.responded false) | .read _ (.rejected _) => True
  | .read _ (.body json) => ∀ items, json.get? (js "messages") ≠ some (.arr items)
  | _ => False

/-- What a run has made of the polls of a room state. -/
structure Polled (i : Nat) (evs : List Event) : Prop where
  /-- The items handed on are the first occurrences among those that have come up. -/
  items : ∃ done, done <+: (noted step (responses i) create evs).flatMap bodyItems ∧
    noted step (started i) create evs = firstOccurrences (done.filterMap handed?) ∧
    ∀ r, (after step create evs).roomStates[i]? = some r → r.Idle →
      done = (noted step (responses i) create evs).flatMap bodyItems
  once : ((noted step (started i) create evs).map Prod.fst).Nodup
  /-- A call is of a handler that is subscribed, with the item handed on last. -/
  called : ∀ pre ev, pre ++ [ev] <+: evs →
    ∀ call ∈ invokes i ((after step create pre).step ev).2,
      call.1 ∈ (after step create pre).handlers i ∧
        ∃ h, (noted step (started i) create pre).getLast? = some h ∧ call.2 = h.2
  /-- A handler that is subscribed when an item is handed on, and stays so, is called once. -/
  turns : ∀ pre ev mid h handler, pre ++ ev :: mid <+: evs →
    started i (after step create pre) ev = [h] →
    noted step (started i) (after step create (pre ++ [ev])) mid = [] →
    (∀ p, p <+: mid → handler ∈ (after step create (pre ++ ev :: p)).handlers i) →
    ((invokes i (outputs step (after step create (pre ++ [ev])) mid)).map Prod.fst).count handler +
      ((after step create (pre ++ ev :: mid)).todo i).count handler = 1
  /-- All have been called before the next item and the next poll. -/
  ended : ∀ pre ev, pre ++ [ev] <+: evs → started i (after step create pre) ev ≠ [] ∨
    queries i ((after step create pre).step ev).2 ≠ [] → (after step create pre).todo i = []
  /-- A poll sends the last cursor of the responses. -/
  cursor : ∀ pre ev, pre ++ [ev] <+: evs →
    ∀ query ∈ queries i ((after step create pre).step ev).2,
      formGet query (js "since") =
        let cursor := lastCursor (noted step (responses i) create pre)
        if cursor = [] then none else some cursor

/-- The contract of the client, all along a run. -/
structure Contract (evs : List Event) : Prop where
  polled : ∀ i, Polled i evs
  /-- A failed poll calls nobody, and leaves the cursor and the delivered ids alone. -/
  failed : ∀ pre ev, pre ++ [ev] <+: evs → Failed ev → ∀ i r,
    (after step create pre).roomStates[i]? = some r →
      ∃ r', (after step create (pre ++ [ev])).roomStates[i]? = some r' ∧
        r'.toRoomState = r.toRoomState ∧ r'.handlers = r.handlers ∧
        invokes i ((after step create pre).step ev).2 = []
  /-- A handler that throws changes nothing. -/
  throws : ∀ pre i, (∃ throws, pre ++ [.turn i throws] <+: evs) →
    ((after step create pre).step (.turn i true)).1 =
        ((after step create pre).step (.turn i false)).1 ∧
      ∀ j, invokes j ((after step create pre).step (.turn i true)).2 =
        invokes j ((after step create pre).step (.turn i false)).2
  /-- Once `close` has resolved no handler is called. -/
  closed : ∀ pre mid i, pre ++ mid <+: evs → .closeResolved ∈ outputs step create pre →
    invokes i (outputs step (after step create pre) mid) = []

theorem step_failed (hr : s.roomStates[i]? = some r) (hfailed : Failed ev) :
    ∃ r', (s.step ev).1.roomStates[i]? = some r' ∧ r'.toRoomState = r.toRoomState ∧
      r'.handlers = r.handlers ∧ invokes i (s.step ev).2 = [] := by
  obtain ⟨r', hr', hmove⟩ := step_move hr ev
  have hroom : ev.room? ≠ none := by
    intro hnone
    cases ev <;> simp [Event.room?, Failed] at hnone hfailed
  refine ⟨r', hr', ?_⟩
  generalize (s.step ev).2 = outs at hmove
  cases hmove with
  | still _ hinvokes _ => exact ⟨rfl, rfl, hinvokes⟩
  | joined hnone | left hnone _ _ | aborted hnone _ _ => exact absurd hnone hroom
  | own hev =>
    have hown := own_step hev r s.closed
    generalize r.step i s.closed ev = p at hown
    cases hown with
    | idle _ _ => exact ⟨rfl, rfl, rfl⟩
    | @fetched outcome _ =>
      exact ⟨r.fetched_state s.closed outcome, fetched_handlers r s.closed outcome, rfl⟩
    | @unread abort _ =>
      exact ⟨r.failed_state s.closed abort, failed_handlers r s.closed abort, rfl⟩
    | @read json _ _ =>
      refine ⟨?_, (read_turn r s.closed json).2, rfl⟩
      unfold Room.read
      dsimp only
      split <;> rfl
    | invoked _ | item _ _ | done _ _ | stopped _ _ | polled _ => cases hfailed

theorem turn_throws (s : HttpPollSignaling) (i : Nat) :
    (s.step (.turn i true)).1 = (s.step (.turn i false)).1 ∧
      ∀ j, invokes j (s.step (.turn i true)).2 = invokes j (s.step (.turn i false)).2 := by
  simp only [step]
  split
  · exact ⟨rfl, fun _ => rfl⟩
  · next r _ =>
    have hroom : (r.step i s.closed (.turn i true)).1 = (r.step i s.closed (.turn i false)).1 ∧
        ∀ j, invokes j (r.step i s.closed (.turn i true)).2 =
          invokes j (r.step i s.closed (.turn i false)).2 := by
      unfold Room.step
      cases hstage : r.stage with
      | dispatching items cursor turn =>
        dsimp only
        unfold Room.turn
        rw [hstage]
        rcases turn with _ | ⟨message, _ | ⟨handler, todo⟩⟩
        · cases items <;> exact ⟨rfl, fun _ => rfl⟩
        · cases items <;> exact ⟨rfl, fun _ => rfl⟩
        · exact ⟨rfl, fun j => by by_cases hj : i = j <;> simp [invokes, hj]⟩
      | _ => exact ⟨rfl, fun _ => rfl⟩
    exact ⟨by rw [hroom.1], hroom.2⟩

theorem run_over {i : Nat} {pre : List Event} {ev : Event}
    (h : started i (after step create pre) ev ≠ [] ∨
      queries i ((after step create pre).step ev).2 ≠ []) :
    (after step create pre).todo i = [] := by
  cases hr : (after step create pre).roomStates[i]? with
  | none => simp [todo, hr]
  | some r =>
    obtain ⟨r', _, hmove⟩ := step_move hr ev
    rw [todo_of hr]
    rcases h with hstarted | hqueries
    · have hturn := move_turn hr hmove
      generalize started i (after step create pre) ev = starts at hstarted hturn
      generalize invokes i _ = calls at hturn
      cases hturn with
      | started htodo _ _ => exact htodo
      | _ => exact absurd rfl hstarted
    · obtain ⟨query, hquery⟩ := List.exists_mem_of_ne_nil _ hqueries
      exact todo_of_turn (move_queries hmove query hquery).1.turn?

/-- In every run whose polls have well-formed cursors, and in which `close` is not called
again while it waits, the client keeps its contract. -/
theorem keeps_contract (evs : List Event) (horderly : Guarded step Orderly create evs) :
    Contract evs where
  polled i := by
    refine ⟨run_items i evs, ?_, fun pre ev _ call hcall => run_called hcall, ?_,
      fun pre ev _ h => run_over h, ?_⟩
    · obtain ⟨done, _, hhanded, _⟩ := run_items i evs
      rw [hhanded]
      exact firstOccurrences_nodup _
    · intro pre ev mid h handler _ hstart hquiet hstays
      exact run_turn hstart hquiet hstays
    · rintro pre ev ⟨post, rfl⟩ query hquery
      have hguard := (guarded_append.mp (guarded_append.mp horderly).1).2
      exact run_cursor hguard.1 hquery
  failed pre ev _ hfailed i r hr := by
    rw [after_append]
    exact step_failed hr hfailed
  throws pre i _ := turn_throws _ i
  closed := by
    rintro pre mid i ⟨post, rfl⟩ hresolved
    have hguard := (guarded_append.mp (guarded_append.mp horderly).1).1
    exact run_silent hguard hresolved i

def item (id : JsString) : Json := .obj [(js "id", .str id), (js "message", .str id)]

def body (items : List Json) (cursor : JsString) : Json :=
  .obj [(js "messages", .arr items), (js "cursor", .str cursor)]

/-- Two handlers, one of which throws; a poll that fails, and `close` in the middle of one. -/
def sharedRun : List Event :=
  [.subscribe (js "r") 1, .subscribe (js "r") 2, .fetched 0 (.responded true),
    .read 0 (.body (body [item (js "a"), .null, item (js "a")] (js "7"))), .turn 0 false,
    .turn 0 true, .turn 0 false, .turn 0 false, .turn 0 false, .turn 0 false, .elapsed 0,
    .fetched 0 (.responded false), .elapsed 0, .close, .fetched 0 (.rejected true), .closeSettled]

theorem keeps_contract_sharedRun : Contract sharedRun :=
  keeps_contract _ (by decide +kernel)

/-- The endpoint's cursor is a lone surrogate. -/
def loneRun : List Event :=
  [.subscribe (js "r") 1, .fetched 0 (.responded true), .read 0 (.body (body [] [0xD800])),
    .turn 0 false, .elapsed 0]

/-- The next poll sends the replacement character. -/
theorem loneRun_altered : ¬Contract loneRun := by
  intro h
  have hcursor := (h.polled 0).cursor (loneRun.take 4) (.elapsed 0) List.prefix_rfl
    (formParam (js "since") [0xD800]) (by decide +kernel)
  exact absurd hcursor (by decide +kernel)

/-- `close` is called again while the first call waits for a response. -/
def againRun : List Event :=
  [.subscribe (js "r") 1, .fetched 0 (.responded true), .close, .close,
    .read 0 (.body (body [item (js "a")] (js "7"))), .turn 0 false, .turn 0 false]

/-- The second call resolves at once, and a handler is called. -/
theorem againRun_called : ¬Contract againRun := by
  intro h
  have hsilent := h.closed (againRun.take 4) (againRun.drop 4) 0 List.prefix_rfl
    (.tail _ (.tail _ (.head _)))
  have hlength := congrArg List.length hsilent
  exact absurd hlength (by decide +kernel)

end Senn.HttpPoll.HttpPollSignaling
